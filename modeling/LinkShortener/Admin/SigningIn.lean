import LinkShortener.Admin.RolesWorn

/-!
# What signing in costs

A visitor is answered from the role `guest`, cut by a ceiling; an account is answered from the roles it wears. The roles
`analyst` and `auditor` do not create links and `guest` does, so an account can be refused what a visitor is allowed
(`analyst_may_not_create`): who names the roles of an account decides that.

* `isAllowed`: `RBACAuthorizationService.is_allowed`.
* `seededRoles`: the roles of the service as they are shipped.
* `Roster`: the database, with the accounts whose roles somebody has named; `assign` is one request.
* `execute_serviceRow`, `execute_wears`: no request changes a role of the service, and none takes the default role from an
  account it does not name roles for.
* `signing_in_costs_no_right`: an account nobody has named roles for is allowed whatever a visitor is, and so is one that
  wears `user` or `admin`; one that wears any role of the service is refused at most the creation of links.
-/

namespace LinkShortener.Admin

open Db Runs

/-! ## The authorization service -/

/-- All an unauthenticated caller is capable of holding. -/
def anonymousPermissionCeiling : List String := ["stats:view_basic", "link:create"]

/-- What `admin:all` does not carry. -/
def beyondAdminAll : List String := ["audit:view"]

def anonymousIsAllowed (db : Db) (permission : String) : Bool :=
  if permission ∈ anonymousPermissionCeiling then
    match db.getByName guestRoleName with
    | none => false
    | some guestRole => guestRole.hasPermission permission
  else false

/-- **`is_allowed`**: no user is an anonymous caller. -/
def isAllowed (db : Db) (user : Option User) (permission : String) : Bool :=
  match user with
  | none => anonymousIsAllowed db permission
  | some user =>
    if permission ∉ beyondAdminAll ∧ user.hasPermission adminAll = true then true else user.hasPermission permission

/-! ## The roles of the service -/

def systemPermissions : List String :=
  ["link:create", "link:view_own", "link:delete_own", "link:delete_any", "stats:view_basic", "stats:view_full",
    "stats:view_any", "audit:view", "logs:view", "admin:view_users", "admin:manage_users", "admin:view_roles",
    "admin:manage_roles", "admin:view_system_health", "admin:all"]

namespace Seeded

def guest : Role :=
  ⟨1, "guest", some "Unauthenticated visitor with minimal access", true, ["stats:view_basic", "link:create"]⟩

def user : Role :=
  ⟨2, "user", some "Regular registered user", true,
    ["link:create", "link:view_own", "link:delete_own", "stats:view_basic"]⟩

def analyst : Role :=
  ⟨3, "analyst", some "Analyst with advanced statistics access", true,
    ["link:view_own", "stats:view_basic", "stats:view_full", "stats:view_any"]⟩

def auditor : Role :=
  ⟨4, "auditor", some "Reads the journals, the health report and the figures; changes nothing", true,
    ["audit:view", "logs:view", "admin:view_system_health", "stats:view_basic", "stats:view_full"]⟩

def admin : Role :=
  ⟨5, "admin", some "System administrator; unrestricted except for reading the audit journal", true, ["admin:all"]⟩

end Seeded

/-- The roles a deployment is seeded with. -/
def seededRoles : List Role := [Seeded.guest, Seeded.user, Seeded.analyst, Seeded.auditor, Seeded.admin]

/-- The role is there under its name, belongs to the service and grants what it grants. -/
def Provides (db : Db) (role : Role) : Prop :=
  ∃ row, ServiceRow db role.name row ∧ ∀ p, db.Carries row.id p ↔ p ∈ role.permissions

/-- The account wears the role of that name. -/
def wearsNamed (db : Db) (user : User) (name : String) : Bool :=
  (db.getByName name).any fun role => decide (role ∈ user.roles)

/-! ## Runs -/

/-- The database, and the accounts whose roles somebody has named. -/
structure Roster where
  db : Db
  named : List Uuid

/-- The account a request names roles for. -/
def Request.namesRolesOf (q : Request) : Option Uuid :=
  match q.operation with
  | .createUser _ _ roleNames _ => if roleNames.isEmpty then none else some q.fresh
  | .updateUserRoles userId _ => some userId
  | _ => none

/-- **One request, successful or refused.** -/
def assign (svc : Services) (w : Roster) (q : Request) : Option Roster :=
  if w.db.users.get q.fresh = none ∧ w.db.roles.get q.fresh = none then
    match execute svc w.db q with
    | .ok db' => some ⟨db', q.namesRolesOf.toList ++ w.named⟩
    | .error _ => some w
  else none

/-! ## What a request leaves alone -/

section Requests

variable {svc : Services} {db db' : Db} {q : Request} {name : String} {row : RoleRow}

/-- **No request changes a role of the service**, what it is called or what it grants. -/
theorem execute_serviceRow (hfresh : db.roles.get q.fresh = none) (h : execute svc db q = .ok db')
    (hrow : ServiceRow db name row) :
    ServiceRow db' name row ∧ ∀ p, db'.Carries row.id p ↔ db.Carries row.id p := by
  have same : ∀ {db'' : Db}, db''.roles = db.roles → (∀ r p, db''.Carries r p ↔ db.Carries r p) →
      ServiceRow db'' name row ∧ ∀ p, db''.Carries row.id p ↔ db.Carries row.id p := by
    intro db'' hroles hcarries
    exact ⟨hrow.congr (congrArg Rows.rows hroles), hcarries row.id⟩
  unfold execute at h
  cases hq : q.operation with
  | register email password token =>
    rw [hq] at h
    rcases register_ok h with rfl | ⟨_, _, -, -, -, -, hcarries⟩
    · exact same rfl fun _ _ => Iff.rfl
    · rcases register_roles h with rfl | ⟨_, -, -, -, -, hroles⟩
      · exact same rfl fun _ _ => Iff.rfl
      · exact same hroles hcarries
  | verifyEmail token =>
    rw [hq] at h
    exact same (verifyEmail_roles h) (verifyEmail_ok h).2.carries
  | cleanUnverifiedAccounts =>
    rw [hq] at h
    cases h
    exact same rfl fun _ _ => Iff.rfl
  | createUser email password roleNames isActive =>
    rw [hq] at h
    obtain ⟨_, _, -, -, -, -, -, -, hcarries⟩ := createUser_ok h
    obtain ⟨_, -, -, -, -, hroles⟩ := createUser_roles h
    exact same hroles hcarries
  | updateUserRoles userId roleNames =>
    rw [hq] at h
    obtain ⟨_, -, -, -, hre, hroles⟩ := updateUserRoles_roles h
    exact same hroles hre.carries
  | deleteUser userId =>
    rw [hq] at h
    obtain ⟨r, hr, h⟩ := bind_eq_ok.mp h
    cases r with
    | none =>
      cases h
      exact same rfl fun _ _ => Iff.rfl
    | some r =>
      obtain ⟨db₁, links⟩ := r
      cases h
      obtain ⟨-, -, -, hkeeps⟩ := deleteUser_ok hr
      exact same (deleteUser_roles hr) hkeeps.carries
  | deactivateUser userId =>
    rw [hq] at h
    obtain ⟨-, -, -, hkeeps⟩ := deactivateUser_ok h
    exact same (deactivateUser_roles h) hkeeps.carries
  | activateUser userId =>
    rw [hq] at h
    obtain ⟨-, -, hkeeps⟩ := activateUser_ok h
    exact same (activateUser_roles h) hkeeps.carries
  | confirmUserEmail userId =>
    rw [hq] at h
    exact same (confirmUserEmail_roles h) (confirmUserEmail_ok h).2.carries
  | createRole name' description permissionNames =>
    rw [hq] at h
    refine ⟨hrow.createRole hfresh h, fun p => ?_⟩
    obtain ⟨-, permissions, -, hre⟩ := createRole_ok h
    have hne : row.id ≠ q.fresh := by
      intro hid
      have hget := hrow.get
      rw [hid, hfresh] at hget
      cases hget
    rw [hre.carries, if_neg hne]
  | updateRolePermissions roleName permissionNames =>
    rw [hq] at h
    refine ⟨hrow.congr (updateRolePermissions_roles h), fun p => ?_⟩
    obtain ⟨role, permissions, hrole, -, -, -, hre⟩ := updateRolePermissions_ok h
    have hsystem := updateRolePermissions_changeable h hrole
    rw [hre.carries, if_neg (hrow.id_ne (getByName_stored hrole).1 hsystem)]
  | deleteRole roleName =>
    rw [hq] at h
    obtain ⟨doomed, hdoomed, -, -, -, hcarries⟩ := deleteRole_ok h
    obtain ⟨doomed', hdoomed', hsystem, hroles⟩ := deleteRole_roles h
    rw [hdoomed] at hdoomed'
    cases hdoomed'
    have hstored := (getByName_stored hdoomed).1
    refine ⟨(hrow.deleteRole hstored hsystem).congr (congrArg Rows.rows hroles), fun p => ?_⟩
    rw [hcarries]
    exact ⟨fun hc => hc.1, fun hc => ⟨hc, hrow.id_ne hstored hsystem⟩⟩

/-- An account is new with the roles it was asked for, or with the default role. -/
theorem createUser_default {actor : Option Uuid} {email password : String} {isActive : Bool} {id : Uuid} {now : Instant}
    (h : createUser db actor svc email password [] isActive id now = .ok db') :
    ∃ role, db.getByName svc.defaultRoleName = some role ∧ db'.Wears id role.id := by
  rw [createUser, bind_eq_ok] at h
  obtain ⟨roles, hroles, h⟩ := h
  have hnil : roles = [] := by
    rw [rolesToGrant, if_pos List.isEmpty_nil] at hroles
    cases hroles
    rfl
  subst hnil
  rw [serviceCreateUser, bind_eq_ok] at h
  obtain ⟨email', -, h⟩ := h
  rw [check_bind_eq_ok, bind_eq_ok] at h
  obtain ⟨-, hash, -, h⟩ := h
  rw [bind_eq_ok] at h
  obtain ⟨assigned, hassigned, h⟩ := h
  rw [check_bind_eq_ok] at h
  obtain ⟨-, hwears, -⟩ := saveUser_spec h.2
  rw [assignedRoles, if_pos List.isEmpty_nil] at hassigned
  split at hassigned
  · rename_i role hrole
    cases hassigned
    refine ⟨role, hrole, (hwears id role.id).mpr ?_⟩
    rw [if_pos rfl]
    exact ⟨role, List.mem_singleton_self role, rfl⟩
  · cases hassigned

/-- **An account a request does not name roles for keeps the default role**, and a new one is given it. -/
theorem execute_wears (h : execute svc db q = .ok db') (hrow : ServiceRow db svc.defaultRoleName row) {a : Uuid}
    (ha : db'.users.get a ≠ none) (hnamed : q.namesRolesOf ≠ some a)
    (hold : db.users.get a ≠ none → db.Wears a row.id) : db'.Wears a row.id := by
  have kept : ∀ {db'' : Db}, Keeps db db'' → db''.users.get a ≠ none → db.users.get a ≠ none → db''.Wears a row.id := by
    intro db'' hkeeps ha' hwas
    exact (hkeeps.wears a row.id).mpr ⟨hold hwas, ha'⟩
  have written : ∀ {db'' : Db} {id : Uuid} {row₀ row' : UserRow}, Keeps db db'' → db.users.get id = some row₀ →
      (∀ b, db''.users.get b = if b = id then some row' else db.users.get b) → db''.users.get a ≠ none →
      db''.Wears a row.id := by
    intro db'' id row₀ row' hkeeps hwas husers ha'
    refine kept hkeeps ha' ?_
    rw [husers] at ha'
    split at ha'
    · rename_i hid
      rw [hid, hwas]
      exact Option.some_ne_none row₀
    · exact ha'
  unfold execute at h
  cases hq : q.operation with
  | register email password token =>
    rw [hq] at h
    rcases register_ok h with rfl | ⟨role, _, hrole, -, husers, hwears, -⟩
    · exact hold ha
    · rw [hwears]
      rw [husers] at ha
      split
      · rw [hrow.getByName] at hrole
        cases hrole
        rfl
      · rename_i hne
        rw [if_neg hne] at ha
        exact hold ha
  | verifyEmail token =>
    rw [hq] at h
    obtain ⟨⟨_, _, hwas, husers⟩, hkeeps⟩ := verifyEmail_ok h
    exact written hkeeps hwas husers ha
  | cleanUnverifiedAccounts =>
    rw [hq] at h
    cases h
    obtain ⟨husers, hkeeps⟩ := cleanUnverifiedAccounts_spec db svc q.now
    refine kept hkeeps ha ?_
    intro hnone
    rw [husers, hnone] at ha
    exact ha rfl
  | createUser email password roleNames isActive =>
    rw [hq] at h
    by_cases hid : a = q.fresh
    · have hnil : roleNames = [] := by
        rw [Request.namesRolesOf, hq, hid] at hnamed
        simp only at hnamed
        split at hnamed
        · rename_i hempty
          exact List.isEmpty_iff.mp hempty
        · exact absurd rfl hnamed
      subst hnil
      obtain ⟨role, hrole, hw⟩ := createUser_default h
      rw [hrow.getByName] at hrole
      cases hrole
      rw [hid]
      exact hw
    · obtain ⟨_, _, -, -, -, -, husers, hwears, -⟩ := createUser_ok h
      rw [husers, if_neg hid] at ha
      rw [hwears, if_neg hid]
      exact hold ha
  | updateUserRoles userId roleNames =>
    rw [hq] at h
    obtain ⟨_, -, -, -, hre, -⟩ := updateUserRoles_roles h
    have hid : a ≠ userId := by
      rintro rfl
      rw [Request.namesRolesOf, hq] at hnamed
      exact hnamed rfl
    rw [hre.wears, if_neg hid]
    rw [hre.users] at ha
    exact hold ha
  | deleteUser userId =>
    rw [hq] at h
    obtain ⟨r, hr, h⟩ := bind_eq_ok.mp h
    cases r with
    | none =>
      cases h
      exact hold ha
    | some r =>
      obtain ⟨db₁, links⟩ := r
      cases h
      obtain ⟨-, -, husers, hkeeps⟩ := deleteUser_ok hr
      refine kept hkeeps ha ?_
      rw [husers] at ha
      split at ha
      · exact absurd rfl ha
      · exact ha
  | deactivateUser userId =>
    rw [hq] at h
    obtain ⟨-, -, ⟨_, hwas, husers⟩, hkeeps⟩ := deactivateUser_ok h
    exact written hkeeps hwas husers ha
  | activateUser userId =>
    rw [hq] at h
    obtain ⟨-, ⟨_, hwas, husers⟩, hkeeps⟩ := activateUser_ok h
    exact written hkeeps hwas husers ha
  | confirmUserEmail userId =>
    rw [hq] at h
    obtain ⟨⟨_, hwas, husers⟩, hkeeps⟩ := confirmUserEmail_ok h
    exact written hkeeps hwas husers ha
  | createRole name' description permissionNames =>
    rw [hq] at h
    obtain ⟨-, _, -, hre⟩ := createRole_ok h
    rw [hre.users] at ha
    exact (hre.wears a row.id).mpr (hold ha)
  | updateRolePermissions roleName permissionNames =>
    rw [hq] at h
    obtain ⟨_, _, -, -, -, -, hre⟩ := updateRolePermissions_ok h
    rw [hre.users] at ha
    exact (hre.wears a row.id).mpr (hold ha)
  | deleteRole roleName =>
    rw [hq] at h
    obtain ⟨doomed, hdoomed, -, husers, hwears, -⟩ := deleteRole_ok h
    obtain ⟨doomed', hdoomed', hsystem, -⟩ := deleteRole_roles h
    rw [hdoomed] at hdoomed'
    cases hdoomed'
    rw [husers] at ha
    exact (hwears a row.id).mpr (.inl ⟨hold ha, hrow.id_ne (getByName_stored hdoomed).1 hsystem⟩)

end Requests

/-! ## Every state reached -/

section Reached

variable {svc : Services} {w w' : Roster} {q : Request}

/-- The roles of the service are as they were seeded, and who nobody has named roles for wears the default role. -/
structure Fair (svc : Services) (w : Roster) : Prop where
  seeded : ∀ role ∈ seededRoles, Provides w.db role
  unnamed : svc.defaultRoleName = "user" → ∀ row, ServiceRow w.db "user" row → ∀ a, w.db.users.get a ≠ none →
    a ∉ w.named → w.db.Wears a row.id

theorem assign_fair (h : assign svc w q = some w') (hw : Fair svc w) : Fair svc w' := by
  unfold assign at h
  split at h
  · rename_i hfresh
    split at h
    · rename_i db' hexecute
      cases h
      constructor
      · intro role hrole
        obtain ⟨row, hrow, hcarries⟩ := hw.seeded role hrole
        obtain ⟨hrow', hcarries'⟩ := execute_serviceRow hfresh.2 hexecute hrow
        exact ⟨row, hrow', fun p => (hcarries' p).trans (hcarries p)⟩
      · intro hdefault row hrow a ha hnamed
        -- The role `user` is the one it was before.
        obtain ⟨row₀, hrow₀, -⟩ := hw.seeded Seeded.user (by decide)
        have hsame : some row₀ = some row := (execute_serviceRow hfresh.2 hexecute hrow₀).1.named.symm.trans hrow.named
        cases hsame
        rw [List.mem_append, not_or] at hnamed
        refine execute_wears hexecute (by rw [hdefault]; exact hrow₀) ha ?_ fun hwas =>
          hw.unnamed hdefault row hrow₀ a hwas hnamed.2
        intro hq
        rw [hq] at hnamed
        exact hnamed.1 (List.mem_singleton_self a)
    · cases h
      exact hw
  · cases h

/-- An account is allowed what a role it wears grants, or `admin:all` carries. -/
theorem isAllowed_of_wears {db : Db} {user : User} {role : Role} {p : String} (hrole : Provides db role)
    (hwears : wearsNamed db user role.name = true)
    (hp : p ∈ role.permissions ∨ adminAll ∈ role.permissions ∧ p ∉ beyondAdminAll) :
    isAllowed db (some user) p = true := by
  obtain ⟨row, hrow, hcarries⟩ := hrole
  rw [wearsNamed, hrow.getByName, Option.any_some, decide_eq_true_eq] at hwears
  have grants : ∀ p', p' ∈ role.permissions → user.hasPermission p' = true := by
    intro p' hp'
    rw [User.hasPermission, List.any_eq_true]
    refine ⟨db.toRole row, hwears, ?_⟩
    rw [Role.hasPermission, decide_eq_true_eq, mem_permissions_toRole, hcarries]
    exact hp'
  unfold isAllowed
  rcases hp with hp | ⟨hadmin, hbeyond⟩
  · simp [grants p hp]
  · simp [grants adminAll hadmin, hbeyond]

theorem mem_ceiling_of_anonymous {db : Db} {p : String} (h : isAllowed db none p = true) :
    p = "stats:view_basic" ∨ p = "link:create" := by
  rw [isAllowed, anonymousIsAllowed] at h
  split at h
  · rename_i hp
    simpa [anonymousPermissionCeiling] using hp
  · cases h

/-- The roles of an account are read off the association table. -/
theorem wearsNamed_of_wears {db : Db} {a : Uuid} {user : User} {name : String} {row : RoleRow}
    (huser : db.findById a = some user) (hrow : ServiceRow db name row) (hwears : db.Wears a row.id) :
    wearsNamed db user name = true := by
  obtain ⟨urow, hurow, -, hid, rfl⟩ := findById_id huser
  rw [wearsNamed, hrow.getByName, Option.any_some, decide_eq_true_eq]
  simp only [toUser, List.mem_filterMap, List.mem_filter, decide_eq_true_eq, Option.map_eq_some_iff]
  exact ⟨(a, row.id), ⟨hwears, hid.symm⟩, row, hrow.get, rfl⟩

/-- **Signing in costs no right** that nobody has withheld by naming the account's roles: whatever a visitor is allowed
is allowed to an account whose roles nobody has named and to one that wears `user` or `admin`; an account that wears any
role of the service is refused nothing of it but the creation of links. -/
theorem signing_in_costs_no_right {svc : Services} {w w' : Roster} {qs : List Request}
    (hseeded : ∀ role ∈ seededRoles, Provides w.db role) (hstart : ∀ a, w.db.users.get a ≠ none → a ∈ w.named)
    (hrun : run (assign svc) w qs = some w') :
    ∀ a user p, w'.db.findById a = some user → isAllowed w'.db none p = true →
      (svc.defaultRoleName = "user" → a ∉ w'.named → isAllowed w'.db (some user) p = true) ∧
      (wearsNamed w'.db user "user" = true ∨ wearsNamed w'.db user "admin" = true →
        isAllowed w'.db (some user) p = true) ∧
      ∀ role ∈ seededRoles, wearsNamed w'.db user role.name = true → p ≠ "link:create" →
        isAllowed w'.db (some user) p = true := by
  have hfair : Fair svc w' := run_inv (I := Fair svc) assign_fair hrun
    ⟨hseeded, fun _ _ _ a ha hnamed => absurd (hstart a ha) hnamed⟩
  intro a user p huser hp
  have hp := mem_ceiling_of_anonymous hp
  obtain ⟨row, hrow, -⟩ := id (hfair.seeded Seeded.user (by decide))
  have huser' : wearsNamed w'.db user "user" = true → isAllowed w'.db (some user) p = true := by
    intro hwears
    refine isAllowed_of_wears (hfair.seeded Seeded.user (by decide)) hwears (.inl ?_)
    rcases hp with rfl | rfl <;> decide
  refine ⟨?_, ?_, ?_⟩
  · intro hdefault hnamed
    obtain ⟨urow, hurow, -⟩ := findById_id huser
    refine huser' (wearsNamed_of_wears huser hrow (hfair.unnamed hdefault row hrow a ?_ hnamed))
    rw [hurow]
    exact Option.some_ne_none urow
  · rintro (hwears | hwears)
    · exact huser' hwears
    · refine isAllowed_of_wears (hfair.seeded Seeded.admin (by decide)) hwears (.inr ?_)
      rcases hp with rfl | rfl <;> decide
  · intro role hrole hwears hne
    have hbasic : p = "stats:view_basic" := hp.resolve_right hne
    have hgrants : ∀ role ∈ seededRoles,
        "stats:view_basic" ∈ role.permissions ∨ adminAll ∈ role.permissions ∧ "stats:view_basic" ∉ beyondAdminAll := by
      decide
    refine isAllowed_of_wears (hfair.seeded role hrole) hwears ?_
    rw [hbasic]
    exact hgrants role hrole

end Reached

/-! ## A run -/

/-- A deployment with its first administrator (20). -/
def deployment : Roster :=
  ⟨.seed systemPermissions seededRoles
    [⟨20, "a@x", "h", [Seeded.admin], true, true, 0⟩], [20]⟩

/-- Two people register, and the administrator makes one of them (30) an analyst. -/
def promotion : List Request :=
  [⟨none, .register "b@x" "pw" "t", 1, 30⟩, ⟨none, .register "c@x" "pw" "u", 2, 31⟩,
    ⟨some 20, .updateUserRoles 30 ["analyst"], 3, 32⟩]

theorem deployment_seeded : ∀ role ∈ seededRoles, Provides deployment.db role := by
  have hrows : ∀ role ∈ seededRoles, (deployment.db.getByName role.name).any (fun stored =>
      stored.isSystem && decide (stored.permissions = deployment.db.permissions.filter (· ∈ role.permissions))) = true := by
    decide +kernel
  have hknown : ∀ role ∈ seededRoles, ∀ p ∈ role.permissions, p ∈ deployment.db.permissions := by decide +kernel
  intro role hrole
  obtain ⟨stored, hstored, hsame⟩ := Option.any_eq_true _ _ |>.mp (hrows role hrole)
  obtain ⟨row, hrow, rfl⟩ := Option.map_eq_some_iff.mp hstored
  rw [Bool.and_eq_true, decide_eq_true_eq] at hsame
  refine ⟨row, ⟨hrow, hsame.1⟩, fun p => ?_⟩
  rw [← mem_permissions_toRole, hsame.2, List.mem_filter, decide_eq_true_eq]
  exact ⟨fun hp => hp.2, fun hp => ⟨hknown role hrole p hp, hp⟩⟩

/-- The analyst may not create a link, which a visitor may. -/
theorem analyst_may_not_create : ∃ w', run (assign plainServices) deployment promotion = some w' ∧
    isAllowed w'.db none "link:create" = true ∧ (w'.db.findById 30).isSome = true ∧
    isAllowed w'.db (w'.db.findById 30) "link:create" = false := by
  have hrun : ((run (assign plainServices) deployment promotion).map fun w' =>
      (isAllowed w'.db none "link:create", (w'.db.findById 30).isSome,
        isAllowed w'.db (w'.db.findById 30) "link:create")) = some (true, true, false) := by decide +kernel
  obtain ⟨w', h, heq⟩ := Option.map_eq_some_iff.mp hrun
  simp only [Prod.mk.injEq] at heq
  exact ⟨w', h, heq⟩

/-- The other account keeps what a visitor may do, and the analyst reads what a visitor reads. -/
theorem signing_in_costs_no_right_deployment : ∃ w' user analyst,
    run (assign plainServices) deployment promotion = some w' ∧ w'.db.findById 31 = some user ∧
    w'.db.findById 30 = some analyst ∧ isAllowed w'.db (some user) "link:create" = true ∧
    isAllowed w'.db (some analyst) "stats:view_basic" = true := by
  have hrun : ((run (assign plainServices) deployment promotion).map fun w' =>
      (isAllowed w'.db none "link:create", isAllowed w'.db none "stats:view_basic", (w'.db.findById 31).isSome,
        (w'.db.findById 30).any (wearsNamed w'.db · "analyst"), decide (31 ∈ w'.named))) =
      some (true, true, true, true, false) := by decide +kernel
  obtain ⟨w', h, heq⟩ := Option.map_eq_some_iff.mp hrun
  simp only [Prod.mk.injEq, Option.isSome_iff_exists, Option.any_eq_true, decide_eq_false_iff_not] at heq
  obtain ⟨hcreate, hbasic, ⟨user, huser⟩, ⟨analyst, hanalyst, hwears⟩, hnamed⟩ := heq
  have hstart : ∀ a, deployment.db.users.get a ≠ none → a ∈ deployment.named := by
    have hrows : ∀ row ∈ deployment.db.users.rows, row.id ∈ deployment.named := by decide +kernel
    intro a ha
    obtain ⟨row, hrow⟩ := Option.ne_none_iff_exists'.mp ha
    obtain ⟨hmem, rfl⟩ := Rows.get_eq_some.mp hrow
    exact hrows row hmem
  refine ⟨w', user, analyst, h, huser, hanalyst, ?_, ?_⟩
  · exact (signing_in_costs_no_right deployment_seeded hstart h 31 user _ huser hcreate).1 rfl hnamed
  · refine (signing_in_costs_no_right deployment_seeded hstart h 30 analyst _ hanalyst hbasic).2.2
      Seeded.analyst (by decide) hwears (by decide)

end LinkShortener.Admin
