import LinkShortener.Admin.UseCases

/-!
# What the use cases do

One lemma for each use case: the guards it has passed when it goes through, and what it has changed. The later results
are read off these and never unfold a use case again.

* `Keeps`, `Reroles`, `Redefines`: the three shapes of a change.
* `updateUserRoles_ok`, `deleteUser_ok`, … , `deleteRole_ok`: the use cases.
-/

namespace LinkShortener

open Db

namespace Admin

/-! ## Shapes of a change -/

/-- The actor of a request holds a permission. -/
def ActorHolds (db : Db) (actor : Option Uuid) (p : String) : Prop := p ∈ permissionsHeldBy (loadActor db actor)

instance (db : Db) (actor : Option Uuid) (p : String) : Decidable (ActorHolds db actor p) :=
  inferInstanceAs (Decidable (p ∈ _))

/-- A role as it is stored. -/
def Stored (db : Db) (role : Role) : Prop := ∃ row, db.roles.get role.id = some row ∧ role = db.toRole row

/-- No account gains or loses a role and no role a permission; accounts may be written, and go with their roles. -/
structure Keeps (db db' : Db) : Prop where
  wears : ∀ a r, db'.Wears a r ↔ db.Wears a r ∧ db'.users.get a ≠ none
  carries : ∀ r p, db'.Carries r p ↔ db.Carries r p

/-- Account `id` is given the roles, and nothing else changes. -/
structure Reroles (db db' : Db) (id : Uuid) (roles : List Role) : Prop where
  users : ∀ a, db'.users.get a = db.users.get a
  wears : ∀ a r, db'.Wears a r ↔ if a = id then ∃ role ∈ roles, role.id = r else db.Wears a r
  carries : ∀ r p, db'.Carries r p ↔ db.Carries r p

/-- Role `id` is given the permissions, and nothing else changes. -/
structure Redefines (db db' : Db) (id : Uuid) (permissions : List String) : Prop where
  users : ∀ a, db'.users.get a = db.users.get a
  wears : ∀ a r, db'.Wears a r ↔ db.Wears a r
  carries : ∀ r p, db'.Carries r p ↔ if r = id then p ∈ permissions else db.Carries r p

section Basics

variable {db db' : Db} {actor : Option Uuid} {p : String} {role : Role}

/-- Where an operation changes one account, the roles of the others are as before. -/
theorem Keeps.wears_of_ne {id : Uuid} (h : Keeps db db') (hu : ∀ a, a ≠ id → db'.users.get a = db.users.get a)
    (a r : Uuid) (ha : a ≠ id) : db'.Wears a r ↔ db.Wears a r := by
  rw [h.wears, hu a ha]
  exact ⟨fun hw => hw.1, fun hw => ⟨hw, (db.userRoles_fk hw).1⟩⟩

theorem superuser_iff : isSuperuser (loadActor db actor) = true ↔ ActorHolds db actor adminAll := isSuperuser_iff

theorem isAdministrator_iff {a : Uuid} : isAdministrator db a = true ↔ db.Holds a adminAll := isSuperuser_iff

theorem Stored.permissions (h : Stored db role) : p ∈ role.permissions ↔ db.Carries role.id p := by
  obtain ⟨row, hrow, he⟩ := h
  have hkey : row.id = role.id := Rows.key_of_get hrow
  rw [he, mem_permissions_toRole, ← he, hkey]

theorem Stored.exists (h : Stored db role) : db.roles.get role.id ≠ none := by
  obtain ⟨row, hrow, -⟩ := h
  simp [hrow]

theorem getByName_stored {name : String} (h : db.getByName name = some role) : Stored db role ∧ role.name = name := by
  simp only [getByName, Option.map_eq_some_iff] at h
  obtain ⟨row, hrow, rfl⟩ := h
  have hname : row.name = name := by simpa using List.find?_some hrow
  refine ⟨⟨row, ?_, rfl⟩, hname⟩
  exact Rows.mem_iff_get.mp (List.mem_of_find?_eq_some hrow)

theorem resolveRoles_stored {names : List String} {roles : List Role} (h : resolveRoles db names = .ok roles) :
    ∀ role ∈ roles, Stored db role := by
  have go : ∀ (names : List String) (acc roles : List Role), (∀ role ∈ acc, Stored db role) →
      resolveRoles.go db names acc = .ok roles → ∀ role ∈ roles, Stored db role := by
    intro names
    induction names with
    | nil =>
      intro acc roles hacc h role hrole
      simp only [resolveRoles.go, Except.ok.injEq] at h
      subst h
      exact hacc role (List.mem_reverse.mp hrole)
    | cons name names ih =>
      intro acc roles hacc h
      simp only [resolveRoles.go] at h
      split at h
      · simp at h
      · rename_i role hrole
        split at h
        · exact ih acc roles hacc h
        · refine ih (role :: acc) roles ?_ h
          intro role' hrole'
          rcases List.mem_cons.mp hrole' with rfl | hmem
          · exact (getByName_stored hrole).1
          · exact hacc role' hmem
  exact go names [] roles (by simp) h

theorem resolvePermissions_ok {names permissions : List String} (h : resolvePermissions db names = .ok permissions) :
    (∀ p ∈ names, p ∈ db.permissions) ∧ ∀ p, p ∈ permissions ↔ p ∈ names := by
  simp only [resolvePermissions, check_bind_eq_ok, require_eq_ok, List.isEmpty_iff, sortedSet_eq_nil,
    List.filter_eq_nil_iff, pure_eq_ok] at h
  obtain ⟨hmissing, rfl⟩ := h
  have known : ∀ p ∈ names, p ∈ db.permissions := by
    intro p hp
    have := hmissing p hp
    simp only [getByNames, List.mem_filter, decide_eq_true_eq] at this
    tauto
  refine ⟨known, fun p => ?_⟩
  simp only [getByNames, List.mem_filter, decide_eq_true_eq]
  exact ⟨fun h => h.2, fun h => ⟨known p h, h⟩⟩

/-- A request may hand out what its actor holds. -/
theorem mayGrantRoles_ok {roles : List Role} (h : requireMayGrantRoles db actor roles = .ok ()) :
    ActorHolds db actor adminAll ∨ ∀ role ∈ roles, ∀ p ∈ role.permissions, ActorHolds db actor p := by
  rcases requireMayConfer_eq_ok.mp h with hs | hall
  · exact .inl (superuser_iff.mp hs)
  · exact .inr fun role hrole p hp => hall p (List.mem_flatMap.mpr ⟨role, hrole, hp⟩)

theorem mayGrantPermissions_ok {names : List String} (h : requireMayGrantPermissions db actor names = .ok ()) :
    ActorHolds db actor adminAll ∨ ∀ p ∈ names, ActorHolds db actor p := by
  rcases requireMayConfer_eq_ok.mp h with hs | hall
  · exact .inl (superuser_iff.mp hs)
  · exact .inr hall

/-- A request may act on an account whose authority its actor holds. -/
theorem mayActOnUser_ok {a : Uuid} (h : requireMayActOnUser db actor a = .ok ()) :
    ActorHolds db actor adminAll ∨ ∀ p, db.Holds a p → isPrivileged p = true → ActorHolds db actor p := by
  unfold requireMayActOnUser at h
  cases hu : db.findById a with
  | none =>
    refine .inr fun p hp => ?_
    simp [Holds, hu, permissionsHeldBy] at hp
  | some user =>
    rw [hu] at h
    rcases requireMayActOn_eq_ok.mp h with hs | hall
    · exact .inl (superuser_iff.mp hs)
    · refine .inr fun p hp => ?_
      rw [Holds, hu] at hp
      exact hall p hp

theorem administratorRemains_ok {a : Uuid} (h : requireAdministratorRemains db a = .ok ()) :
    ∃ b r, db.Wears b r ∧ db.Carries r adminAll ∧ (db.users.get b).any (·.isActive) = true ∧ b ≠ a := by
  obtain ⟨b, r, hw, hc, hact, hne, -⟩ :=
    countActiveWithPermission_pos.mp (requireNotLastAdministrator_eq_ok.mp h)
  exact ⟨b, r, hw, hc, hact, by simpa using hne⟩

theorem administratorSurvivesWithout_ok (h : requireAdministratorSurvivesWithout db role = .ok ())
    (hr : adminAll ∈ role.permissions) :
    ∃ b r, db.Wears b r ∧ db.Carries r adminAll ∧ (db.users.get b).any (·.isActive) = true ∧ r ≠ role.id := by
  rw [requireAdministratorSurvivesWithout, onlyIf, if_pos (by simpa [Role.hasPermission] using hr)] at h
  obtain ⟨b, r, hw, hc, hact, -, hne⟩ :=
    countActiveWithPermission_pos.mp (requireNotLastAdministrator_eq_ok.mp h)
  exact ⟨b, r, hw, hc, hact, by simpa using hne⟩

theorem findById_id {a : Uuid} {user : User} (h : db.findById a = some user) :
    ∃ row, db.users.get a = some row ∧ rowOf user = row ∧ user.id = a ∧ user = db.toUser row := by
  simp only [findById, Option.map_eq_some_iff] at h
  obtain ⟨row, hrow, rfl⟩ := h
  have hkey : row.id = a := Rows.key_of_get hrow
  exact ⟨row, hrow, rfl, hkey, rfl⟩

/-- The roles of a stored account are those it wears. -/
theorem mem_roles_toUser {a r : Uuid} {row : UserRow} (h : db.users.get a = some row) :
    (∃ role ∈ (db.toUser row).roles, role.id = r) ↔ db.Wears a r := by
  have hkey : row.id = a := Rows.key_of_get h
  simp only [toUser, List.mem_filterMap, List.mem_filter, decide_eq_true_eq, Option.map_eq_some_iff]
  constructor
  · rintro ⟨role, ⟨⟨u, r'⟩, ⟨hw, hu⟩, rrow, hr, rfl⟩, rfl⟩
    have hrk : rrow.id = r' := Rows.key_of_get hr
    simp only at hu
    subst hu hkey hrk
    exact hw
  · intro hw
    obtain ⟨rrow, hr⟩ := Option.ne_none_iff_exists'.mp (db.userRoles_fk hw).2
    have hrk : rrow.id = r := Rows.key_of_get hr
    exact ⟨db.toRole rrow, ⟨(a, r), ⟨hw, hkey.symm⟩, rrow, hr, rfl⟩, hrk⟩

/-- Writing back an account with some columns changed keeps its roles. -/
theorem saveUser_keeps {a : Uuid} {user user' : User} (hu : db.findById a = some user)
    (h : db.saveUser user' = .ok db') (hid : user'.id = user.id) (hroles : user'.roles = user.roles) :
    (∀ b, db'.users.get b = if b = a then some (rowOf user') else db.users.get b) ∧ Keeps db db' := by
  obtain ⟨row, hrow, -, hida, rfl⟩ := findById_id hu
  obtain ⟨husers, hwears, hcarries, -⟩ := saveUser_spec h
  rw [hid, hida] at husers hwears
  refine ⟨husers, ⟨fun b r => ?_, hcarries⟩⟩
  rw [hwears, husers]
  by_cases hb : b = a
  · subst hb
    rw [if_pos rfl, if_pos rfl, hroles, mem_roles_toUser hrow]
    simp
  · rw [if_neg hb, if_neg hb]
    exact ⟨fun hw => ⟨hw, (db.userRoles_fk hw).1⟩, fun h => h.1⟩

end Basics

/-! ## Use cases on accounts -/

section Accounts

variable {db db' : Db} {svc : Services} {actor : Option Uuid} {userId id : Uuid} {now : Instant}

theorem updateRoles_ok {roles : List Role} (h : updateRoles db userId roles = .ok db') :
    db.users.get userId ≠ none ∧ roles ≠ [] ∧ (∀ role ∈ roles, role.name ≠ guestRoleName) ∧
      Reroles db db' userId roles := by
  unfold updateRoles at h
  split at h
  · simp at h
  · rename_i user hu
    obtain ⟨row, hrow, hrowOf, hid, -⟩ := findById_id hu
    simp only [check_bind_eq_ok, require_eq_ok, Bool.not_eq_true', List.isEmpty_eq_false_iff] at h
    obtain ⟨hne, hassign, hsave⟩ := h
    obtain ⟨husers, hwears, hcarries, -⟩ := saveUser_spec hsave
    refine ⟨by simp [hrow], hne, requireRolesAreAssignable_eq_ok.mp hassign, ?_, ?_, hcarries⟩
    · intro a
      rw [husers]
      by_cases ha : a = user.id
      · rw [if_pos ha, ha, hid, hrow, ← hrowOf, rowOf, rowOf, hid]
      · rw [if_neg ha]
    · intro a r
      rw [hwears, hid]

theorem updateUserRoles_ok {roleNames : List String} (h : updateUserRoles db actor userId roleNames = .ok db') :
    ∃ roles, resolveRoles db roleNames = .ok roles ∧ (∀ role ∈ roles, Stored db role) ∧
      (ActorHolds db actor adminAll ∨ ∀ role ∈ roles, ∀ p ∈ role.permissions, ActorHolds db actor p) ∧
      (ActorHolds db actor adminAll ∨ ∀ p, db.Holds userId p → isPrivileged p = true → ActorHolds db actor p) ∧
      (db.Holds userId adminAll → (∀ role ∈ roles, adminAll ∉ role.permissions) →
        ∃ b r, db.Wears b r ∧ db.Carries r adminAll ∧ (db.users.get b).any (·.isActive) = true ∧ b ≠ userId) ∧
      Reroles db db' userId roles := by
  rw [updateUserRoles, bind_eq_ok] at h
  obtain ⟨roles, hres, h⟩ := h
  simp only [check_bind_eq_ok] at h
  obtain ⟨-, hgrant, hact, hremains, hupd⟩ := h
  refine ⟨roles, hres, resolveRoles_stored hres, mayGrantRoles_ok hgrant, mayActOnUser_ok hact, ?_,
    (updateRoles_ok hupd).2.2.2⟩
  intro hadmin hdrop
  have hkeep : wouldKeepAdmin roles = false := by
    simpa [wouldKeepAdmin, Role.hasPermission] using hdrop
  rw [isAdministrator_iff.mpr hadmin, hkeep, onlyIf] at hremains
  exact administratorRemains_ok hremains

theorem deleteUser_ok {links : List Link} (h : deleteUser db actor userId = .ok (some (db', links))) :
    (ActorHolds db actor adminAll ∨ ∀ p, db.Holds userId p → isPrivileged p = true → ActorHolds db actor p) ∧
      (db.Holds userId adminAll →
        ∃ b r, db.Wears b r ∧ db.Carries r adminAll ∧ (db.users.get b).any (·.isActive) = true ∧ b ≠ userId) ∧
      (∀ a, db'.users.get a = if a = userId then none else db.users.get a) ∧ Keeps db db' := by
  simp only [deleteUser, check_bind_eq_ok] at h
  obtain ⟨hact, hremains, h⟩ := h
  split at h
  · simp [pure, Except.pure] at h
  · simp only [pure, Except.pure, Except.ok.injEq, Option.some.injEq, Prod.mk.injEq] at h
    obtain ⟨rfl, -⟩ := h
    have husers : ∀ a, (db.users.filter fun row => !decide (row.id = userId)).get a =
        if a = userId then none else db.users.get a := by
      intro a
      rw [Rows.get_filter]
      cases hu : db.users.get a with
      | none => simp
      | some row =>
        have hkey : row.id = a := Rows.key_of_get hu
        by_cases ha : a = userId <;> simp [hkey, ha, Option.filter]
    refine ⟨mayActOnUser_ok hact, ?_, husers, ⟨?_, fun _ _ => Iff.rfl⟩⟩
    · intro hadmin
      rw [isAdministrator_iff.mpr hadmin, onlyIf] at hremains
      exact administratorRemains_ok hremains
    · intro a r
      rw [wears_deleteUsers]
      refine and_congr_right fun hw => ?_
      have : ((db.filterLinks fun l => decide (l.owner ≠ some userId)).users.get a) = db.users.get a := rfl
      rw [this]
      change _ ↔ (db.users.filter fun row => !decide (row.id = userId)).get a ≠ none
      rw [Rows.get_filter]
      cases db.users.get a with
      | none => simp
      | some row => by_cases hr : row.id = userId <;> simp [hr, Option.filter]

theorem deactivateUser_ok (h : deactivateUser db actor userId = .ok db') :
    (ActorHolds db actor adminAll ∨ ∀ p, db.Holds userId p → isPrivileged p = true → ActorHolds db actor p) ∧
      (db.Holds userId adminAll →
        ∃ b r, db.Wears b r ∧ db.Carries r adminAll ∧ (db.users.get b).any (·.isActive) = true ∧ b ≠ userId) ∧
      (∃ row, db.users.get userId = some row ∧ ∀ a, db'.users.get a =
        if a = userId then some { row with isActive := false } else db.users.get a) ∧ Keeps db db' := by
  simp only [deactivateUser, check_bind_eq_ok] at h
  obtain ⟨hact, hremains, h⟩ := h
  split at h
  · simp at h
  · rename_i user hu
    obtain ⟨row, hrow, hrowOf, -⟩ := findById_id hu
    obtain ⟨husers, hkeeps⟩ := saveUser_keeps hu h rfl rfl
    refine ⟨mayActOnUser_ok hact, ?_, ⟨row, hrow, ?_⟩, hkeeps⟩
    · intro hadmin
      rw [isAdministrator_iff.mpr hadmin, onlyIf] at hremains
      exact administratorRemains_ok hremains
    · intro a
      rw [husers, ← hrowOf]
      rfl

theorem activateUser_ok (h : activateUser db actor userId = .ok db') :
    (ActorHolds db actor adminAll ∨ ∀ p, db.Holds userId p → isPrivileged p = true → ActorHolds db actor p) ∧
      (∃ row, db.users.get userId = some row ∧ ∀ a, db'.users.get a =
        if a = userId then some { row with isActive := true } else db.users.get a) ∧ Keeps db db' := by
  simp only [activateUser, check_bind_eq_ok] at h
  obtain ⟨hact, h⟩ := h
  split at h
  · simp at h
  · rename_i user hu
    obtain ⟨row, hrow, hrowOf, -⟩ := findById_id hu
    obtain ⟨husers, hkeeps⟩ := saveUser_keeps hu h rfl rfl
    refine ⟨mayActOnUser_ok hact, ⟨row, hrow, ?_⟩, hkeeps⟩
    intro a
    rw [husers, ← hrowOf]
    rfl

theorem confirmUserEmail_ok (h : confirmUserEmail db actor userId now = .ok db') :
    (∃ row, db.users.get userId = some row ∧ ∀ a, db'.users.get a =
        if a = userId then some { row with emailVerified := true } else db.users.get a) ∧ Keeps db db' := by
  simp only [confirmUserEmail, check_bind_eq_ok] at h
  obtain ⟨-, h⟩ := h
  split at h
  · simp at h
  · rename_i user hu
    obtain ⟨row, hrow, hrowOf, hid, huser⟩ := findById_id hu
    simp only [bind_eq_ok, pure_eq_ok] at h
    obtain ⟨db₁, hsave, rfl⟩ := h
    split at hsave
    · rename_i hver
      cases hsave
      refine ⟨⟨row, hrow, ?_⟩, ⟨?_, fun _ _ => Iff.rfl⟩⟩
      · intro a
        change db.users.get a = _
        by_cases ha : a = userId
        · rw [if_pos ha, ha, hrow, ← hrowOf]
          simp [rowOf, hver]
        · rw [if_neg ha]
      · intro a r
        exact ⟨fun hw => ⟨hw, (db.userRoles_fk hw).1⟩, fun hw => hw.1⟩
    · obtain ⟨husers, hkeeps⟩ := saveUser_keeps hu hsave rfl rfl
      refine ⟨⟨row, hrow, ?_⟩, ⟨hkeeps.wears, hkeeps.carries⟩⟩
      intro a
      change db₁.users.get a = _
      rw [husers, ← hrowOf]
      rfl

theorem serviceCreateUser_ok {email password : String} {roles : List Role} {isActive : Bool}
    (h : serviceCreateUser db svc email password roles isActive id now = .ok db') :
    ∃ assigned row, (assigned = roles ∨ ∃ role, db.getByName svc.defaultRoleName = some role ∧ assigned = [role]) ∧
      row.isActive = isActive ∧ row.emailVerified = true ∧
      (∀ a, db'.users.get a = if a = id then some row else db.users.get a) ∧
      (∀ a r, db'.Wears a r ↔ if a = id then ∃ role ∈ assigned, role.id = r else db.Wears a r) ∧
      ∀ r p, db'.Carries r p ↔ db.Carries r p := by
  rw [serviceCreateUser, bind_eq_ok] at h
  obtain ⟨email', -, h⟩ := h
  rw [check_bind_eq_ok, bind_eq_ok] at h
  obtain ⟨-, hash, -, h⟩ := h
  rw [bind_eq_ok] at h
  obtain ⟨assigned, hassigned, h⟩ := h
  rw [check_bind_eq_ok] at h
  obtain ⟨husers, hwears, hcarries, -⟩ := saveUser_spec h.2
  refine ⟨assigned, ⟨id, email', hash, isActive, true, now⟩, ?_, rfl, rfl, husers, hwears, hcarries⟩
  unfold assignedRoles at hassigned
  split at hassigned
  · split at hassigned
    · rename_i role hrole
      cases hassigned
      exact .inr ⟨role, hrole, rfl⟩
    · simp at hassigned
  · cases hassigned
    exact .inl rfl

theorem createUser_ok {email password : String} {roleNames : List String} {isActive : Bool}
    (h : createUser db actor svc email password roleNames isActive id now = .ok db') :
    ∃ roles row, (∀ role ∈ roles, Stored db role) ∧
      ((∃ role, db.getByName svc.defaultRoleName = some role ∧ roles = [role]) ∨ ActorHolds db actor adminAll ∨
        ∀ role ∈ roles, ∀ p ∈ role.permissions, ActorHolds db actor p) ∧
      row.isActive = isActive ∧ row.emailVerified = true ∧
      (∀ a, db'.users.get a = if a = id then some row else db.users.get a) ∧
      (∀ a r, db'.Wears a r ↔ if a = id then ∃ role ∈ roles, role.id = r else db.Wears a r) ∧
      ∀ r p, db'.Carries r p ↔ db.Carries r p := by
  rw [createUser, bind_eq_ok] at h
  obtain ⟨roles, hroles, h⟩ := h
  obtain ⟨assigned, row, hassigned, hact, hver, husers, hwears, hcarries⟩ := serviceCreateUser_ok h
  refine ⟨assigned, row, ?_, ?_, hact, hver, husers, hwears, hcarries⟩
  · rcases hassigned with rfl | ⟨role, hrole, rfl⟩
    · unfold rolesToGrant at hroles
      split at hroles
      · cases hroles
        simp
      · rw [bind_eq_ok] at hroles
        obtain ⟨roles', hres, hroles⟩ := hroles
        simp only [check_bind_eq_ok, pure_eq_ok] at hroles
        obtain ⟨-, -, rfl⟩ := hroles
        exact resolveRoles_stored hres
    · simpa using (getByName_stored hrole).1
  · rcases hassigned with rfl | hdefault
    · right
      unfold rolesToGrant at hroles
      split at hroles
      · cases hroles
        simp
      · rw [bind_eq_ok] at hroles
        obtain ⟨roles', -, hroles⟩ := hroles
        simp only [check_bind_eq_ok, pure_eq_ok] at hroles
        obtain ⟨-, hgrant, rfl⟩ := hroles
        exact mayGrantRoles_ok hgrant
    · exact .inl hdefault

end Accounts

/-! ## Use cases on roles -/

section Roles

variable {db db' : Db} {svc : Services} {actor : Option Uuid} {id : Uuid}

theorem saveRole_redefines (role : Role) (h : ∀ p ∈ role.permissions, p ∈ db.permissions) :
    Redefines db (db.saveRole role) role.id role.permissions where
  users _ := rfl
  wears _ _ := Iff.rfl
  carries r p := by
    rw [carries_saveRole]
    by_cases hr : r = role.id
    · rw [if_pos hr, if_pos hr]
      exact ⟨fun hp => hp.1, fun hp => ⟨hp, h p hp⟩⟩
    · rw [if_neg hr, if_neg hr]

theorem createRole_ok {name : String} {description : Option String} {permissionNames : List String}
    (h : createRole db actor name description permissionNames id = .ok db') :
    (ActorHolds db actor adminAll ∨ ∀ p ∈ permissionNames, ActorHolds db actor p) ∧
      ∃ permissions, (∀ p, p ∈ permissions ↔ p ∈ permissionNames) ∧ Redefines db db' id permissions := by
  rw [createRole, bind_eq_ok] at h
  obtain ⟨_, -, h⟩ := h
  simp only [check_bind_eq_ok] at h
  obtain ⟨hgrant, -, -, -, h⟩ := h
  rw [bind_eq_ok] at h
  obtain ⟨permissions, hperm, h⟩ := h
  obtain ⟨hknown, hiff⟩ := resolvePermissions_ok hperm
  rw [pure_eq_ok] at h
  subst h
  exact ⟨mayGrantPermissions_ok hgrant, permissions, hiff, saveRole_redefines _ fun p hp => hknown p ((hiff p).mp hp)⟩

theorem updateRolePermissions_ok {roleName : String} {permissionNames : List String}
    (h : updateRolePermissions db actor roleName permissionNames = .ok db') :
    ∃ role permissions, db.getByName roleName = some role ∧
      (ActorHolds db actor adminAll ∨ ∀ p ∈ permissionNames, ActorHolds db actor p) ∧
      (adminAll ∉ permissionNames → db.Carries role.id adminAll → ∃ b r, db.Wears b r ∧ db.Carries r adminAll ∧
        (db.users.get b).any (·.isActive) = true ∧ r ≠ role.id) ∧
      (∀ p, p ∈ permissions ↔ p ∈ permissionNames) ∧ Redefines db db' role.id permissions := by
  rw [updateRolePermissions, bind_eq_ok] at h
  obtain ⟨_, -, h⟩ := h
  rw [check_bind_eq_ok] at h
  obtain ⟨hgrant, h⟩ := h
  split at h
  · simp at h
  · rename_i role hrole
    simp only [check_bind_eq_ok] at h
    obtain ⟨hsurvives, hsystem, h⟩ := h
    rw [bind_eq_ok] at h
    obtain ⟨permissions, hperm, h⟩ := h
    obtain ⟨hknown, hiff⟩ := resolvePermissions_ok hperm
    rw [pure_eq_ok] at h
    subst h
    have hstored := (getByName_stored hrole).1
    refine ⟨role, permissions, hrole, mayGrantPermissions_ok hgrant, ?_, hiff, ?_⟩
    · intro hdrop hc
      rw [ensureMayBeChanged_eq_ok.mp hsystem, onlyIf, if_pos (by simp [hdrop])] at hsurvives
      exact administratorSurvivesWithout_ok hsurvives (hstored.permissions.mpr hc)
    · exact saveRole_redefines { role with permissions := permissions } fun p hp => hknown p ((hiff p).mp hp)

/-- The account wears no role. -/
def Bare (db : Db) (a : Uuid) : Prop := ∀ r, ¬ db.Wears a r

theorem bare_iff {a : Uuid} {user : User} (hu : db.findById a = some user) : Bare db a ↔ user.roles = [] := by
  obtain ⟨row, hrow, -, -, rfl⟩ := findById_id hu
  rw [List.eq_nil_iff_forall_not_mem]
  constructor
  · intro hbare role hrole
    exact hbare role.id ((mem_roles_toUser hrow).mp ⟨role, hrole, rfl⟩)
  · intro hnil r hw
    obtain ⟨role, hrole, -⟩ := (mem_roles_toUser hrow).mpr hw
    exact hnil role hrole

/-- The accounts in `us` that are bare are given the fallback role if it may be worn, and nothing else changes. -/
structure PutBack (db db' : Db) (fallback : Role) (us : List Uuid) : Prop where
  users : ∀ a, db'.users.get a = db.users.get a
  roles : db'.roles = db.roles
  wears : ∀ a r, db'.Wears a r ↔ db.Wears a r ∨
    (a ∈ us ∧ db.users.get a ≠ none ∧ Bare db a ∧ fallback.name ≠ guestRoleName ∧ r = fallback.id)
  carries : ∀ r p, db'.Carries r p ↔ db.Carries r p

/-- Re-roling a stored account goes through unless the role may not be worn. -/
theorem updateRoles_single {a : Uuid} {user : User} {role : Role} (hu : db.findById a = some user)
    (hr : db.roles.get role.id ≠ none) (hn : role.name ≠ guestRoleName) :
    ∃ db', updateRoles db a [role] = .ok db' ∧ db'.roles = db.roles := by
  obtain ⟨row, hrow, -, hid, huser⟩ := findById_id hu
  have hsaved : ∃ db', db.saveUser { user with roles := [role] } = .ok db' := by
    have hstored : db.users.get user.id = some row := by rw [← hrow, ← hid]
    exact saveUser_ok hstored (by rw [huser]; rfl) (by simpa using hr)
  obtain ⟨db', hsave⟩ := hsaved
  refine ⟨db', ?_, (saveUser_spec hsave).2.2.2.1⟩
  have hassign : requireRolesAreAssignable [role] = .ok () := requireRolesAreAssignable_eq_ok.mpr (by simpa using hn)
  simp only [updateRoles, hu, check_bind_eq_ok]
  exact ⟨by simp, hassign, hsave⟩

theorem putBack_spec {fallback : Role} (hf : db.roles.get fallback.id ≠ none) (u : Uuid) :
    PutBack db (putBack fallback db u) fallback [u] := by
  have same : ¬ (db.users.get u ≠ none ∧ Bare db u ∧ fallback.name ≠ guestRoleName) →
      PutBack db db fallback [u] := by
    intro hno
    refine ⟨fun _ => rfl, rfl, fun a r => ?_, fun _ _ => Iff.rfl⟩
    rw [List.mem_singleton, iff_self_or]
    rintro ⟨rfl, hex, hbare, hn, -⟩
    exact absurd ⟨hex, hbare, hn⟩ hno
  unfold putBack
  cases hu : db.findById u with
  | none =>
    refine same fun h => h.1 ?_
    simpa [findById] using hu
  | some account =>
    simp only
    split
    · rename_i hempty
      have hbare : Bare db u := (bare_iff hu).mpr (List.isEmpty_iff.mp hempty)
      by_cases hn : fallback.name = guestRoleName
      · cases hupd : updateRoles db u [fallback] with
        | error e => exact same fun h => h.2.2 hn
        | ok db' => exact absurd hn ((updateRoles_ok hupd).2.2.1 fallback (by simp))
      · obtain ⟨db', hupd, hroles⟩ := updateRoles_single hu hf hn
        obtain ⟨hex, -, -, hre⟩ := updateRoles_ok hupd
        simp only [hupd]
        refine ⟨hre.users, hroles, fun a r => ?_, hre.carries⟩
        rw [hre.wears]
        by_cases ha : a = u
        · subst ha
          simp only [List.mem_singleton, exists_eq_left, if_true, true_and]
          constructor
          · intro h
            exact .inr ⟨hex, hbare, hn, h.symm⟩
          · rintro (h | ⟨-, -, -, h⟩)
            · exact absurd h (hbare r)
            · exact h.symm
        · simp [ha]
    · rename_i hne
      refine same fun h => hne ?_
      exact List.isEmpty_iff.mpr ((bare_iff hu).mp h.2.1)

theorem foldl_putBack_spec {fallback : Role} : ∀ (us : List Uuid) {db : Db}, db.roles.get fallback.id ≠ none →
    PutBack db (us.foldl (putBack fallback) db) fallback us
  | [], _, _ => ⟨fun _ => rfl, rfl, by simp, fun _ _ => Iff.rfl⟩
  | u :: us, db, hf => by
    have h₁ := putBack_spec hf u
    have hf' : (putBack fallback db u).roles.get fallback.id ≠ none := by
      rw [h₁.roles]
      exact hf
    have h₂ := foldl_putBack_spec us hf'
    refine ⟨fun a => (h₂.users a).trans (h₁.users a), h₂.roles.trans h₁.roles, fun a r => ?_,
      fun r p => (h₂.carries r p).trans (h₁.carries r p)⟩
    simp only [List.foldl_cons]
    rw [h₂.wears, h₁.users, h₁.wears, List.mem_singleton, List.mem_cons]
    have hbare : Bare (putBack fallback db u) a → Bare db a := fun h r hw => h r ((h₁.wears a r).mpr (.inl hw))
    constructor
    · rintro ((hw | ⟨rfl, h⟩) | ⟨hmem, hex, hb, hn, hr⟩)
      · exact .inl hw
      · exact .inr ⟨.inl rfl, h⟩
      · exact .inr ⟨.inr hmem, hex, hbare hb, hn, hr⟩
    · rintro (hw | ⟨rfl | hmem, hex, hb, hn, hr⟩)
      · exact .inl (.inl hw)
      · exact .inl (.inr ⟨rfl, hex, hb, hn, hr⟩)
      · by_cases ha : a = u
        · exact .inl (.inr ⟨ha, hex, hb, hn, hr⟩)
        · refine .inr ⟨hmem, hex, fun r' hw => ?_, hn, hr⟩
          rcases (h₁.wears a r').mp hw with hw' | ⟨hmem', -⟩
          · exact hb r' hw'
          · exact ha (List.mem_singleton.mp hmem')

/-- The role an account falls back to when role `doomed` goes, if there is one that may be worn. -/
def Fallback (svc : Services) (db : Db) (doomed : Uuid) (fallback : Role) : Prop :=
  (db.deleteRole doomed).getByName svc.defaultRoleName = some fallback ∧ fallback.name ≠ guestRoleName

theorem deleteRole_ok {roleName : String} (h : deleteRole db svc roleName = .ok db') :
    ∃ doomed, db.getByName roleName = some doomed ∧
      (db.Carries doomed.id adminAll → ∃ b r, db.Wears b r ∧ db.Carries r adminAll ∧
        (db.users.get b).any (·.isActive) = true ∧ r ≠ doomed.id) ∧
      (∀ a, db'.users.get a = db.users.get a) ∧
      (∀ a r, db'.Wears a r ↔ db.Wears a r ∧ r ≠ doomed.id ∨
        db.Wears a doomed.id ∧ (∀ r', db.Wears a r' → r' = doomed.id) ∧
          ∃ fallback, Fallback svc db doomed.id fallback ∧ r = fallback.id) ∧
      ∀ r p, db'.Carries r p ↔ db.Carries r p ∧ r ≠ doomed.id := by
  unfold deleteRole at h
  split at h
  · simp at h
  · rename_i doomed hdoomed
    simp only [check_bind_eq_ok, pure_eq_ok] at h
    obtain ⟨hsurvives, hsystem, rfl⟩ := h
    have hstored := (getByName_stored hdoomed).1
    refine ⟨doomed, hdoomed, ?_, ?_⟩
    · intro hc
      rw [ensureMayBeChanged_eq_ok.mp hsystem, onlyIf, if_pos (by simp)] at hsurvives
      exact administratorSurvivesWithout_ok hsurvives (hstored.permissions.mpr hc)
    unfold putTheBareOnesBack
    cases hfb : (db.deleteRole doomed.id).getByName svc.defaultRoleName with
    | none =>
      refine ⟨fun _ => rfl, fun a r => ?_, fun r p => carries_deleteRole⟩
      rw [wears_deleteRole, iff_self_or]
      rintro ⟨-, -, fallback, ⟨hfb', -⟩, -⟩
      rw [hfb] at hfb'
      simp at hfb'
    | some fallback =>
      have hspec := foldl_putBack_spec (db.idsWithRole doomed.id) (getByName_stored hfb).1.exists
      refine ⟨hspec.users, fun a r => ?_, fun r p => (hspec.carries r p).trans carries_deleteRole⟩
      simp only
      rw [hspec.wears, wears_deleteRole, mem_idsWithRole]
      refine or_congr_right ?_
      constructor
      · rintro ⟨hw, -, hb, hn, hr⟩
        refine ⟨hw, fun r' hw' => ?_, fallback, ⟨hfb, hn⟩, hr⟩
        by_contra hne
        exact hb r' (wears_deleteRole.mpr ⟨hw', hne⟩)
      · rintro ⟨hw, honly, fallback', ⟨hfb', hn⟩, hr⟩
        rw [hfb] at hfb'
        cases hfb'
        refine ⟨hw, (db.userRoles_fk hw).1, fun r' hw' => ?_, hn, hr⟩
        obtain ⟨hw', hne⟩ := wears_deleteRole.mp hw'
        exact hne (honly r' hw')

end Roles

/-! ## Accounts that come and go by themselves -/

section Registration

variable {db db' : Db} {svc : Services} {id : Uuid} {now : Instant}

theorem register_ok {email password token : String} (h : register db svc email password token id now = .ok db') :
    db' = db ∨ ∃ role row, db.getByName svc.defaultRoleName = some role ∧ row.emailVerified = false ∧
      (∀ a, db'.users.get a = if a = id then some row else db.users.get a) ∧
      (∀ a r, db'.Wears a r ↔ if a = id then role.id = r else db.Wears a r) ∧
      ∀ r p, db'.Carries r p ↔ db.Carries r p := by
  rw [register, bind_eq_ok] at h
  obtain ⟨email', -, h⟩ := h
  rw [bind_eq_ok] at h
  obtain ⟨hash, -, h⟩ := h
  split at h
  · rw [pure_eq_ok] at h
    exact .inl h.symm
  · split at h
    · simp at h
    · rename_i role hrole
      rw [check_bind_eq_ok, bind_eq_ok] at h
      obtain ⟨-, db₁, hsave, h⟩ := h
      rw [pure_eq_ok] at h
      obtain ⟨husers, hwears, hcarries, -⟩ := saveUser_spec hsave
      refine .inr ⟨role, ⟨id, email', hash, true, false, now⟩, hrole, rfl, ?_⟩
      have hwears' : ∀ a r, db₁.Wears a r ↔ if a = id then role.id = r else db.Wears a r := by
        intro a r
        rw [hwears]
        simp
      split at h
      · subst h
        exact ⟨husers, hwears', hcarries⟩
      · subst h
        exact ⟨husers, hwears', hcarries⟩

theorem verifyEmail_ok {token : String} (h : verifyEmail db svc token now = .ok db') :
    (∃ userId row, db.users.get userId = some row ∧ ∀ a, db'.users.get a =
        if a = userId then some { row with emailVerified := true } else db.users.get a) ∧ Keeps db db' := by
  unfold verifyEmail at h
  split at h
  · simp at h
  · rename_i userId db₁ hclaim
    -- Claiming the confirmation touches no account and no role.
    have hsame : db₁.users = db.users ∧ (∀ a r, db₁.Wears a r ↔ db.Wears a r) ∧
        ∀ r p, db₁.Carries r p ↔ db.Carries r p := by
      unfold claimVerification at hclaim
      split at hclaim
      · simp at hclaim
      · split at hclaim
        · cases hclaim
          exact ⟨rfl, fun _ _ => Iff.rfl, fun _ _ => Iff.rfl⟩
        · simp at hclaim
    split at h
    · simp at h
    · rename_i user hu
      obtain ⟨row, hrow, hrowOf, -⟩ := findById_id hu
      obtain ⟨husers, hkeeps⟩ := saveUser_keeps hu h rfl rfl
      refine ⟨⟨userId, row, hsame.1 ▸ hrow, ?_⟩, ⟨?_, ?_⟩⟩
      · intro a
        rw [husers, ← hrowOf, hsame.1]
        rfl
      · intro a r
        rw [hkeeps.wears, hsame.2.1]
      · intro r p
        rw [hkeeps.carries, hsame.2.2]

theorem cleanUnverifiedAccounts_spec (db : Db) (svc : Services) (now : Instant) :
    (∀ a, (cleanUnverifiedAccounts db svc now).users.get a = (db.users.get a).filter fun row =>
      !(!row.emailVerified && decide (row.createdAt < now - svc.unverifiedTtl))) ∧
    Keeps db (cleanUnverifiedAccounts db svc now) := by
  refine ⟨fun a => Rows.get_filter _ a, ⟨fun a r => ?_, fun _ _ => Iff.rfl⟩⟩
  change (db.deleteUsers _).Wears a r ↔ db.Wears a r ∧ (db.users.filter _).get a ≠ none
  rw [wears_deleteUsers, Rows.get_filter]
  refine and_congr_right fun _ => ?_
  cases db.users.get a with
  | none => simp
  | some row => cases hv : row.emailVerified <;> simp [hv, Option.filter_some]

end Registration

end Admin

end LinkShortener
