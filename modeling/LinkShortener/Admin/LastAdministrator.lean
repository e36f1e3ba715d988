import LinkShortener.Admin.Escalation

/-!
# An administrator who can sign in

`require_not_last_administrator` counts the active holders of `admin:all`, while signing in also takes a confirmed
address. A holder who never confirmed theirs is counted and cannot sign in: the last administrator who can is let go
(`locked_out`).

In a run where the count is never carried by such accounts alone (`GuardSeesConfirmed`), there is always an active
administrator with a confirmed address (`administrator_can_sign_in`).
-/

namespace LinkShortener.Admin

open Db Runs

/-! ## Runs and the condition -/

/-- An active account with a confirmed address, other than one left out, holds `admin:all` through a role other than
one left out. -/
def confirmedAdministrator (db : Db) (excludingUser excludingRole : Option Uuid) : Bool :=
  db.userRoles.any fun e =>
    (db.users.get e.1).any (fun row => row.isActive && row.emailVerified) &&
      decide ((e.2, adminAll) ∈ db.rolePermissions) && decide (some e.1 ≠ excludingUser) &&
      decide (some e.2 ≠ excludingRole)

/-- If the guard's count is positive, one of those counted can sign in. -/
def SeesConfirmed (db : Db) (excludingUser excludingRole : Option Uuid) : Prop :=
  0 < db.countActiveWithPermission adminAll excludingUser excludingRole →
    confirmedAdministrator db excludingUser excludingRole = true

instance (db : Db) (eu er : Option Uuid) : Decidable (SeesConfirmed db eu er) := inferInstanceAs (Decidable (_ → _))

/-- The checks that come before the guard counts. -/
def checksBeforeTheCount (db : Db) (q : Request) : Check :=
  match q.operation with
  | .updateUserRoles userId roleNames => do
    let roles ← resolveRoles db roleNames
    requireRolesAreAssignable roles
    requireMayGrantRoles db q.actor roles
    requireMayActOnUser db q.actor userId
  | .deleteUser userId | .deactivateUser userId => requireMayActOnUser db q.actor userId
  | .updateRolePermissions _ permissionNames => do
    let _ ← resolvePermissions db permissionNames
    requireMayGrantPermissions db q.actor permissionNames
  | _ => .ok ()

/-- **The condition**, asked where the guard counts: an account that holds `admin:all` is about to lose it or to go, or
a role that carries it and may be changed is. -/
def GuardSeesConfirmed (db : Db) (q : Request) : Prop :=
  checksBeforeTheCount db q = .ok () → match q.operation with
  | .updateUserRoles userId roleNames =>
    match resolveRoles db roleNames with
    | .ok roles => isAdministrator db userId = true → wouldKeepAdmin roles = false → SeesConfirmed db (some userId) none
    | .error _ => True
  | .deleteUser userId | .deactivateUser userId =>
    isAdministrator db userId = true → SeesConfirmed db (some userId) none
  | .updateRolePermissions roleName permissionNames =>
    match db.getByName roleName with
    | some role =>
      role.isSystem = false → role.hasPermission adminAll = true → adminAll ∉ permissionNames →
        SeesConfirmed db none (some role.id)
    | none => True
  | .deleteRole roleName =>
    match db.getByName roleName with
    | some role =>
      role.isSystem = false → role.hasPermission adminAll = true → SeesConfirmed db none (some role.id)
    | none => True
  | _ => True

instance (db : Db) (q : Request) : Decidable (GuardSeesConfirmed db q) := by
  unfold GuardSeesConfirmed
  refine @instDecidableForall _ _ inferInstance ?_
  split
  · split <;> infer_instance
  · infer_instance
  · infer_instance
  · split <;> infer_instance
  · split <;> infer_instance
  · infer_instance

/-- **One request, successful or refused**: a refusal leaves the database as it was. -/
def perform (svc : Services) (db : Db) (q : Request) : Option Db :=
  if db.users.get q.fresh = none ∧ db.roles.get q.fresh = none then
    match execute svc db q with
    | .ok db' => some db'
    | .error _ => some db
  else none

/-! ## The invariant -/

section Invariant

variable {svc : Services} {db db' : Db} {id : Uuid}

/-- Account `a` is active, has a confirmed address, and holds `admin:all` through role `r`. -/
structure SignsIn (db : Db) (a r : Uuid) : Prop where
  wears : db.Wears a r
  carries : db.Carries r adminAll
  account : ∃ row, db.users.get a = some row ∧ row.isActive = true ∧ row.emailVerified = true

/-- **There is an active administrator with a confirmed address.** -/
def CanSignIn (db : Db) : Prop := ∃ a r, SignsIn db a r

theorem confirmedAdministrator_iff {eu er : Option Uuid} : confirmedAdministrator db eu er = true ↔
    ∃ a r, SignsIn db a r ∧ some a ≠ eu ∧ some r ≠ er := by
  simp only [confirmedAdministrator, List.any_eq_true, Bool.and_eq_true, Option.any_eq_true, decide_eq_true_eq,
    Prod.exists]
  constructor
  · rintro ⟨a, r, hw, ⟨⟨hrow, hc⟩, hu⟩, hr⟩
    exact ⟨a, r, ⟨hw, hc, hrow⟩, hu, hr⟩
  · rintro ⟨a, r, ⟨hw, hc, hrow⟩, hu, hr⟩
    exact ⟨a, r, hw, ⟨⟨hrow, hc⟩, hu⟩, hr⟩

theorem SignsIn.holds {a r : Uuid} (h : SignsIn db a r) : db.Holds a adminAll := holds_iff.mpr ⟨r, h.wears, h.carries⟩

/-- The guard on an account has let through, so somebody else can sign in. -/
theorem other_of_remains {a : Uuid} (hsee : SeesConfirmed db (some a) none)
    (h : ∃ b r, db.Wears b r ∧ db.Carries r adminAll ∧ (db.users.get b).any (·.isActive) = true ∧ b ≠ a) :
    ∃ b r, SignsIn db b r ∧ b ≠ a := by
  obtain ⟨b, r, hw, hc, hact, hne⟩ := h
  have hpos : 0 < db.countActiveWithPermission adminAll (some a) none :=
    countActiveWithPermission_pos.mpr ⟨b, r, hw, hc, hact, by simpa using hne, by simp⟩
  obtain ⟨b, r, hs, hne, -⟩ := confirmedAdministrator_iff.mp (hsee hpos)
  exact ⟨b, r, hs, by simpa using hne⟩

/-- The guard on a role has let through, so somebody can sign in without it. -/
theorem other_of_survives {role : Uuid} (hsee : SeesConfirmed db none (some role))
    (h : ∃ b r, db.Wears b r ∧ db.Carries r adminAll ∧ (db.users.get b).any (·.isActive) = true ∧ r ≠ role) :
    ∃ b r, SignsIn db b r ∧ r ≠ role := by
  obtain ⟨b, r, hw, hc, hact, hne⟩ := h
  have hpos : 0 < db.countActiveWithPermission adminAll none (some role) :=
    countActiveWithPermission_pos.mpr ⟨b, r, hw, hc, hact, by simp, by simpa using hne⟩
  obtain ⟨b, r, hs, -, hne⟩ := confirmedAdministrator_iff.mp (hsee hpos)
  exact ⟨b, r, hs, by simpa using hne⟩

/-- A change to account `id` alone, if somebody else can sign in in its place. -/
theorem CanSignIn.account (h : CanSignIn db) (id : Uuid) (husers : ∀ a, a ≠ id → db'.users.get a = db.users.get a)
    (hwears : ∀ a r, a ≠ id → db.Wears a r → db'.Wears a r) (hcarries : ∀ r p, db'.Carries r p ↔ db.Carries r p)
    (hself : ∀ r, SignsIn db id r → CanSignIn db' ∨ ∃ b r', SignsIn db b r' ∧ b ≠ id) : CanSignIn db' := by
  have other : ∀ {b r}, SignsIn db b r → b ≠ id → CanSignIn db' := by
    intro b r hs hne
    refine ⟨b, r, hwears b r hne hs.wears, (hcarries r _).mpr hs.carries, ?_⟩
    rw [husers b hne]
    exact hs.account
  obtain ⟨a, r, hs⟩ := h
  by_cases ha : a = id
  · subst ha
    rcases hself r hs with h' | ⟨b, r', hs', hne⟩
    · exact h'
    · exact other hs' hne
  · exact other hs ha

/-- A change to role `id` alone, if somebody can sign in through another in its place. -/
theorem CanSignIn.role (h : CanSignIn db) (id : Uuid) (husers : ∀ a, db'.users.get a = db.users.get a)
    (hwears : ∀ a r, r ≠ id → db.Wears a r → db'.Wears a r)
    (hcarries : ∀ r p, r ≠ id → db.Carries r p → db'.Carries r p)
    (hself : ∀ a, SignsIn db a id → CanSignIn db' ∨ ∃ b r, SignsIn db b r ∧ r ≠ id) : CanSignIn db' := by
  have other : ∀ {b r}, SignsIn db b r → r ≠ id → CanSignIn db' := by
    intro b r hs hne
    refine ⟨b, r, hwears b r hne hs.wears, hcarries r _ hne hs.carries, ?_⟩
    rw [husers]
    exact hs.account
  obtain ⟨a, r, hs⟩ := h
  by_cases hr : r = id
  · subst hr
    rcases hself a hs with h' | ⟨b, r', hs', hne⟩
    · exact h'
    · exact other hs' hne
  · exact other hs hr

/-- Writing an account so that it can still sign in if it could. -/
theorem CanSignIn.rewrite (h : CanSignIn db) (hkeeps : Keeps db db') {row row' : UserRow}
    (hrow : db.users.get id = some row)
    (husers : ∀ a, db'.users.get a = if a = id then some row' else db.users.get a)
    (hact : row.isActive = true → row'.isActive = true) (hver : row.emailVerified = true → row'.emailVerified = true) :
    CanSignIn db' := by
  obtain ⟨a, r, hs⟩ := h
  obtain ⟨row₀, hrow₀, hact₀, hver₀⟩ := hs.account
  have haccount : ∃ row, db'.users.get a = some row ∧ row.isActive = true ∧ row.emailVerified = true := by
    by_cases ha : a = id
    · subst ha
      rw [hrow] at hrow₀
      cases hrow₀
      exact ⟨row', (husers a).trans (if_pos rfl), hact hact₀, hver hver₀⟩
    · exact ⟨row₀, (husers a).trans ((if_neg ha).trans hrow₀), hact₀, hver₀⟩
  obtain ⟨row₁, hrow₁, hflags⟩ := haccount
  exact ⟨a, r, (hkeeps.wears a r).mpr ⟨hs.wears, by simp [hrow₁]⟩, (hkeeps.carries r _).mpr hs.carries, row₁, hrow₁,
    hflags⟩

/-- Taking account `id` away, or its activity, if somebody else can sign in in its place. -/
theorem CanSignIn.remove (h : CanSignIn db) (hkeeps : Keeps db db')
    (husers : ∀ a, a ≠ id → db'.users.get a = db.users.get a)
    (hother : ∀ r, SignsIn db id r → ∃ b r', SignsIn db b r' ∧ b ≠ id) : CanSignIn db' := by
  refine h.account id husers ?_ hkeeps.carries fun r hs => .inr (hother r hs)
  intro a r ha hw
  exact (hkeeps.wears_of_ne husers a r ha).mpr hw

/-- Giving account `id` other roles, if one of them carries `admin:all` or somebody else can sign in. -/
theorem CanSignIn.rerole (h : CanSignIn db) {roles : List Role} (hre : Reroles db db' id roles)
    (hstored : ∀ role ∈ roles, Stored db role)
    (hother : ∀ r, SignsIn db id r → wouldKeepAdmin roles = false → ∃ b r', SignsIn db b r' ∧ b ≠ id) :
    CanSignIn db' := by
  refine h.account id (fun b _ => hre.users b) ?_ hre.carries fun r hs => ?_
  · intro a r ha hw
    rwa [hre.wears, if_neg ha]
  · cases hkeep : wouldKeepAdmin roles with
    | false => exact .inr (hother r hs hkeep)
    | true =>
      left
      simp only [wouldKeepAdmin, List.any_eq_true, Role.hasPermission, decide_eq_true_eq] at hkeep
      obtain ⟨role, hrole, hperm⟩ := hkeep
      refine ⟨id, role.id, ?_, (hre.carries _ _).mpr ((hstored role hrole).permissions.mp hperm), ?_⟩
      · rw [hre.wears, if_pos rfl]
        exact ⟨role, hrole, rfl⟩
      · rw [hre.users]
        exact hs.account

/-- Giving role `id` other permissions, if `admin:all` is among them or somebody can sign in without it. -/
theorem CanSignIn.redefine (h : CanSignIn db) {permissions : List String} (hre : Redefines db db' id permissions)
    (hother : ∀ a, SignsIn db a id → adminAll ∉ permissions → ∃ b r, SignsIn db b r ∧ r ≠ id) : CanSignIn db' := by
  refine h.role id hre.users (fun a r _ hw => (hre.wears a r).mpr hw) ?_ fun a hs => ?_
  · intro r p hr hc
    rwa [hre.carries, if_neg hr]
  · by_cases hkeep : adminAll ∈ permissions
    · left
      refine ⟨a, id, (hre.wears a _).mpr hs.wears, ?_, ?_⟩
      · rw [hre.carries, if_pos rfl]
        exact hkeep
      · rw [hre.users]
        exact hs.account
    · exact .inr (hother a hs hkeep)

/-- A role somebody signs in through carries `admin:all` when it is read. -/
theorem SignsIn.hasPermission {a : Uuid} {role : Role} (h : SignsIn db a role.id) (hrole : Stored db role) :
    role.hasPermission adminAll = true := by
  simpa [Role.hasPermission] using hrole.permissions.mpr h.carries

/-- What goes through has passed the checks before the count. -/
theorem checksBeforeTheCount_of_execute {q : Request} (h : execute svc db q = .ok db') :
    checksBeforeTheCount db q = .ok () := by
  unfold execute at h
  unfold checksBeforeTheCount
  cases hq : q.operation with
  | updateUserRoles userId roleNames =>
    rw [hq] at h
    obtain ⟨roles, hres, h⟩ := bind_eq_ok.mp h
    simp only [check_bind_eq_ok] at h
    obtain ⟨hassignable, hgrant, hact, -⟩ := h
    exact bind_eq_ok.mpr ⟨roles, hres, check_bind_eq_ok.mpr ⟨hassignable, check_bind_eq_ok.mpr ⟨hgrant, hact⟩⟩⟩
  | deleteUser userId =>
    rw [hq] at h
    obtain ⟨deleted, hdel, -⟩ := bind_eq_ok.mp h
    exact (check_bind_eq_ok.mp hdel).1
  | deactivateUser userId =>
    rw [hq] at h
    exact (check_bind_eq_ok.mp h).1
  | updateRolePermissions roleName permissionNames =>
    rw [hq] at h
    obtain ⟨known, hknown, h⟩ := bind_eq_ok.mp h
    exact bind_eq_ok.mpr ⟨known, hknown, (check_bind_eq_ok.mp h).1⟩
  | _ => rfl

theorem isSystem_of_updateRolePermissions {actor : Option Uuid} {roleName : String} {permissionNames : List String}
    {role : Role} (h : updateRolePermissions db actor roleName permissionNames = .ok db')
    (hrole : db.getByName roleName = some role) : role.isSystem = false := by
  obtain ⟨_, -, h⟩ := bind_eq_ok.mp h
  rw [check_bind_eq_ok, hrole] at h
  simp only [check_bind_eq_ok] at h
  exact ensureMayBeChanged_eq_ok.mp h.2.2.1

theorem isSystem_of_deleteRole {roleName : String} {doomed : Role} (h : deleteRole db svc roleName = .ok db')
    (hdoomed : db.getByName roleName = some doomed) : doomed.isSystem = false := by
  unfold deleteRole at h
  rw [hdoomed] at h
  simp only [check_bind_eq_ok] at h
  exact ensureMayBeChanged_eq_ok.mp h.2.1

/-- **The step lemma**, by what the request asks for. -/
theorem execute_canSignIn {q : Request} (hfresh : db.users.get q.fresh = none ∧ db.roles.get q.fresh = none)
    (hsee : GuardSeesConfirmed db q) (h : execute svc db q = .ok db') (hdb : CanSignIn db) : CanSignIn db' := by
  have nobody : ∀ r, ¬ SignsIn db q.fresh r := by
    intro r hs
    exact (db.userRoles_fk hs.wears).1 hfresh.1
  have hsee := hsee (checksBeforeTheCount_of_execute h)
  unfold execute at h
  cases hq : q.operation with
  | register email password token =>
    rw [hq] at h
    rcases register_ok h with rfl | ⟨role, _, -, -, husers, hwears, hcarries⟩
    · exact hdb
    · refine hdb.account q.fresh (fun b hb => (husers b).trans (if_neg hb)) ?_ hcarries
        fun r hs => absurd hs (nobody r)
      intro a r ha hw
      rwa [hwears, if_neg ha]
  | verifyEmail token =>
    rw [hq] at h
    obtain ⟨⟨userId, row, hrow, husers⟩, hkeeps⟩ := verifyEmail_ok h
    exact hdb.rewrite hkeeps hrow husers (fun h => h) fun _ => rfl
  | cleanUnverifiedAccounts =>
    rw [hq] at h
    cases h
    obtain ⟨husers, hkeeps⟩ := cleanUnverifiedAccounts_spec db svc q.now
    obtain ⟨a, r, hs⟩ := hdb
    obtain ⟨row, hrow, hact, hver⟩ := hs.account
    have hrow' : (cleanUnverifiedAccounts db svc q.now).users.get a = some row := by
      rw [husers, hrow]
      simp [hver]
    exact ⟨a, r, (hkeeps.wears a r).mpr ⟨hs.wears, by simp [hrow']⟩, hs.carries, row, hrow', hact, hver⟩
  | createUser email password roleNames isActive =>
    rw [hq] at h
    obtain ⟨roles, _, -, -, -, -, husers, hwears, hcarries⟩ := createUser_ok h
    refine hdb.account q.fresh (fun b hb => (husers b).trans (if_neg hb)) ?_ hcarries
      fun r hs => absurd hs (nobody r)
    intro a r ha hw
    rwa [hwears, if_neg ha]
  | updateUserRoles userId roleNames =>
    rw [hq] at h hsee
    obtain ⟨roles, hres, hstored, -, -, hremains, hre⟩ := updateUserRoles_ok h
    simp only [hres] at hsee
    refine hdb.rerole hre hstored fun r hs hkeep => ?_
    have hdrop : ∀ role ∈ roles, adminAll ∉ role.permissions := by
      simpa [wouldKeepAdmin, Role.hasPermission] using hkeep
    exact other_of_remains (hsee (isAdministrator_iff.mpr hs.holds) hkeep) (hremains hs.holds hdrop)
  | deleteUser userId =>
    rw [hq] at hsee
    rw [hq, bind_eq_ok] at h
    obtain ⟨deleted, hdel, h⟩ := h
    split at h <;> rw [pure_eq_ok] at h <;> subst h
    · obtain ⟨-, hremains, husers, hkeeps⟩ := deleteUser_ok hdel
      refine hdb.remove hkeeps (fun a ha => (husers a).trans (if_neg ha)) fun r hs => ?_
      exact other_of_remains (hsee (isAdministrator_iff.mpr hs.holds)) (hremains hs.holds)
    · exact hdb
  | deactivateUser userId =>
    rw [hq] at h hsee
    obtain ⟨-, hremains, ⟨row, -, husers⟩, hkeeps⟩ := deactivateUser_ok h
    refine hdb.remove hkeeps (fun a ha => (husers a).trans (if_neg ha)) fun r hs => ?_
    exact other_of_remains (hsee (isAdministrator_iff.mpr hs.holds)) (hremains hs.holds)
  | activateUser userId =>
    rw [hq] at h
    obtain ⟨-, ⟨row, hrow, husers⟩, hkeeps⟩ := activateUser_ok h
    exact hdb.rewrite hkeeps hrow husers (fun _ => rfl) fun h => h
  | confirmUserEmail userId =>
    rw [hq] at h
    obtain ⟨⟨row, hrow, husers⟩, hkeeps⟩ := confirmUserEmail_ok h
    exact hdb.rewrite hkeeps hrow husers (fun h => h) fun _ => rfl
  | createRole name description permissionNames =>
    rw [hq] at h
    obtain ⟨-, permissions, -, hre⟩ := createRole_ok h
    exact hdb.redefine hre fun a hs _ => absurd hfresh.2 (db.userRoles_fk hs.wears).2
  | updateRolePermissions roleName permissionNames =>
    rw [hq] at h hsee
    obtain ⟨role, permissions, hrole, -, hsurvives, hiff, hre⟩ := updateRolePermissions_ok h
    simp only [hrole] at hsee
    refine hdb.redefine hre fun a hs hdrop => ?_
    have hdrop' : adminAll ∉ permissionNames := fun hmem => hdrop ((hiff _).mpr hmem)
    exact other_of_survives (hsee (isSystem_of_updateRolePermissions h hrole) (hs.hasPermission (getByName_stored hrole).1)
      hdrop') (hsurvives hdrop' hs.carries)
  | deleteRole roleName =>
    rw [hq] at h hsee
    obtain ⟨doomed, hdoomed, hsurvives, husers, hwears, hcarries⟩ := deleteRole_ok h
    simp only [hdoomed] at hsee
    refine hdb.role doomed.id husers (fun a r hr hw => (hwears a r).mpr (.inl ⟨hw, hr⟩))
      (fun r p hr hc => (hcarries r p).mpr ⟨hc, hr⟩) fun a hs => .inr ?_
    exact other_of_survives (hsee (isSystem_of_deleteRole h hdoomed) (hs.hasPermission (getByName_stored hdoomed).1))
      (hsurvives hs.carries)

theorem perform_canSignIn {q : Request} (hsee : GuardSeesConfirmed db q) (h : perform svc db q = some db')
    (hdb : CanSignIn db) : CanSignIn db' := by
  unfold perform at h
  split at h
  · rename_i hfresh
    split at h <;> cases h
    · rename_i hexec
      exact execute_canSignIn hfresh hsee hexec hdb
    · exact hdb
  · simp at h

end Invariant

/-! ## Whole runs -/

section Runs

variable {svc : Services}

/-- **An administrator can always sign in**, in every run in which the guard never counts only accounts that cannot. -/
theorem administrator_can_sign_in {db db' : Db} {qs : List Request} (hdb : CanSignIn db)
    (hsee : Meets (perform svc) GuardSeesConfirmed db qs) (h : run (perform svc) db qs = some db') : CanSignIn db' :=
  run_inv_of_meets perform_canSignIn hsee h hdb

/-- The administrator makes a successor of an account that registers and confirms its address, and leaves. -/
def successorConfirms : List Request :=
  [⟨none, .register "n@x" "pw" "t", 1, 50⟩, ⟨none, .verifyEmail "t", 2, 51⟩, ⟨some 20, .updateUserRoles 50 ["admin"], 3, 52⟩,
    ⟨some 20, .deleteUser 20, 4, 53⟩, ⟨none, .cleanUnverifiedAccounts, 100, 54⟩]

theorem office_canSignIn : CanSignIn office := by
  obtain ⟨a, r, hs, -⟩ := confirmedAdministrator_iff.mp
    (show confirmedAdministrator office none none = true by decide +kernel)
  exact ⟨a, r, hs⟩

theorem administrator_can_sign_in_office : ∃ db', run (perform plainServices) office successorConfirms = some db' ∧
    db'.users.get 20 = none ∧ CanSignIn db' := by
  have hrun : ((run (perform plainServices) office successorConfirms).map fun db' => db'.users.get 20) = some none := by
    decide +kernel
  obtain ⟨db', h, hgone⟩ := Option.map_eq_some_iff.mp hrun
  exact ⟨db', h, hgone, administrator_can_sign_in office_canSignIn (by decide +kernel) h⟩

/-- The same, but the successor never confirms its address. -/
def successorUnconfirmed : List Request :=
  [⟨none, .register "n@x" "pw" "t", 1, 50⟩, ⟨some 20, .updateUserRoles 50 ["admin"], 3, 52⟩, ⟨some 20, .deleteUser 20, 4, 53⟩]

/-- **Locked out**: every request went through, and no administrator can sign in. -/
theorem locked_out : ∃ db', CanSignIn office ∧ run (perform plainServices) office successorUnconfirmed = some db' ∧
    db'.users.get 20 = none ∧ ¬ CanSignIn db' := by
  have hrun : ((run (perform plainServices) office successorUnconfirmed).map fun db' =>
      (db'.users.get 20, confirmedAdministrator db' none none)) = some (none, false) := by decide +kernel
  obtain ⟨db', h, hp⟩ := Option.map_eq_some_iff.mp hrun
  simp only [Prod.mk.injEq] at hp
  refine ⟨db', office_canSignIn, h, hp.1, ?_⟩
  rintro ⟨a, r, hs⟩
  have hyes : confirmedAdministrator db' none none = true := confirmedAdministrator_iff.mpr ⟨a, r, hs, by simp, by simp⟩
  rw [hp.2] at hyes
  simp at hyes

end Runs

end LinkShortener.Admin
