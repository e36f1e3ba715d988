import LinkShortener.Admin.LastAdministrator

/-!
# Every account wears a role, and none wears `guest`

An account without a role may do less than a visitor, who acts as `guest`; one that wears `guest` may do no more.

* `saveUser_roles`, …, `updateRolePermissions_roles`: the use cases that leave the table of roles alone.
* `ServiceRow`: a name stands for a role of the service; no request changes which.
* `Dressed`: every account wears a role and none wears `guest`. Every request keeps it while the default role belongs to
  the service (`execute_dressed`): what a deletion takes from an account that has nothing else is made up for.
-/

namespace LinkShortener.Admin

open Db Runs

/-! ## The table of roles -/

section Roles

variable {svc : Services} {db db' : Db} {actor : Option Uuid} {userId id : Uuid} {now : Instant}

theorem saveUser_roles {user : User} (h : db.saveUser user = .ok db') : db'.roles = db.roles :=
  (saveUser_spec h).2.2.2.1

theorem updateUserRoles_roles {roleNames : List String} (h : updateUserRoles db actor userId roleNames = .ok db') :
    ∃ roles, resolveRoles db roleNames = .ok roles ∧ roles ≠ [] ∧ (∀ role ∈ roles, role.name ≠ guestRoleName) ∧
      Reroles db db' userId roles ∧ db'.roles = db.roles := by
  rw [updateUserRoles, bind_eq_ok] at h
  obtain ⟨roles, hres, h⟩ := h
  simp only [check_bind_eq_ok] at h
  obtain ⟨-, -, -, -, hupd⟩ := h
  obtain ⟨-, hne, hassign, hre⟩ := updateRoles_ok hupd
  refine ⟨roles, hres, hne, hassign, hre, ?_⟩
  unfold updateRoles at hupd
  split at hupd
  · simp at hupd
  · simp only [check_bind_eq_ok] at hupd
    exact saveUser_roles hupd.2.2

/-- A new account wears what it was asked to, or the default role, and never nothing. -/
theorem createUser_roles {email password : String} {roleNames : List String} {isActive : Bool}
    (h : createUser db actor svc email password roleNames isActive id now = .ok db') :
    ∃ roles, roles ≠ [] ∧ (∀ role ∈ roles, Stored db role ∧ role.name ≠ guestRoleName) ∧
      (∀ a, a ≠ id → db'.users.get a = db.users.get a) ∧
      (∀ a r, db'.Wears a r ↔ if a = id then ∃ role ∈ roles, role.id = r else db.Wears a r) ∧ db'.roles = db.roles := by
  rw [createUser, bind_eq_ok] at h
  obtain ⟨roles, hroles, h⟩ := h
  rw [serviceCreateUser, bind_eq_ok] at h
  obtain ⟨email', -, h⟩ := h
  rw [check_bind_eq_ok, bind_eq_ok] at h
  obtain ⟨-, hash, -, h⟩ := h
  rw [bind_eq_ok] at h
  obtain ⟨assigned, hassigned, h⟩ := h
  rw [check_bind_eq_ok] at h
  obtain ⟨hassign, hsave⟩ := h
  obtain ⟨husers, hwears, -, htable, -⟩ := saveUser_spec hsave
  refine ⟨assigned, ?_, ?_, ?_, hwears, htable⟩
  · unfold assignedRoles at hassigned
    split at hassigned
    · split at hassigned
      · cases hassigned
        simp
      · simp at hassigned
    · rename_i hne
      cases hassigned
      simpa using hne
  · intro role hrole
    refine ⟨?_, requireRolesAreAssignable_eq_ok.mp hassign role hrole⟩
    unfold assignedRoles at hassigned
    split at hassigned
    · split at hassigned
      · rename_i default hdefault
        cases hassigned
        rw [List.mem_singleton.mp hrole]
        exact (getByName_stored hdefault).1
      · simp at hassigned
    · cases hassigned
      unfold rolesToGrant at hroles
      split at hroles
      · cases hroles
        cases hrole
      · rw [bind_eq_ok] at hroles
        obtain ⟨roles', hres, hroles⟩ := hroles
        simp only [check_bind_eq_ok, pure_eq_ok] at hroles
        obtain ⟨-, -, rfl⟩ := hroles
        exact resolveRoles_stored hres role hrole
  · intro a ha
    rw [husers, if_neg ha]

theorem register_roles {email password token : String} (h : register db svc email password token id now = .ok db') :
    db' = db ∨ ∃ role, Stored db role ∧ role.name ≠ guestRoleName ∧ (∀ a, a ≠ id → db'.users.get a = db.users.get a) ∧
      (∀ a r, db'.Wears a r ↔ if a = id then ∃ role' ∈ [role], role'.id = r else db.Wears a r) ∧
      db'.roles = db.roles := by
  rw [register, bind_eq_ok] at h
  obtain ⟨email', -, h⟩ := h
  rw [bind_eq_ok] at h
  obtain ⟨hash, -, h⟩ := h
  split at h
  · rw [pure_eq_ok] at h
    exact .inl h.symm
  · split at h
    · simp at h
    · rename_i role hrole
      rw [check_bind_eq_ok, require_eq_ok, decide_eq_true_eq, bind_eq_ok] at h
      obtain ⟨hguest, db₁, hsave, h⟩ := h
      rw [pure_eq_ok] at h
      obtain ⟨husers, hwears, -, htable, -⟩ := saveUser_spec hsave
      have hothers : ∀ a, a ≠ id → db₁.users.get a = db.users.get a := by
        intro a ha
        rw [husers, if_neg ha]
      refine .inr ⟨role, (getByName_stored hrole).1, hguest, ?_⟩
      split at h
      · subst h
        exact ⟨hothers, hwears, htable⟩
      · subst h
        exact ⟨hothers, hwears, htable⟩

theorem verifyEmail_roles {token : String} (h : verifyEmail db svc token now = .ok db') : db'.roles = db.roles := by
  unfold verifyEmail at h
  split at h
  · simp at h
  · rename_i userId db₁ hclaim
    have hsame : db₁.roles = db.roles := by
      unfold claimVerification at hclaim
      split at hclaim
      · simp at hclaim
      · split at hclaim
        · cases hclaim
          rfl
        · simp at hclaim
    split at h
    · simp at h
    · exact (saveUser_roles h).trans hsame

theorem deleteUser_roles {links : List Link} (h : deleteUser db actor userId = .ok (some (db', links))) :
    db'.roles = db.roles := by
  unfold deleteUser at h
  obtain ⟨-, -, h⟩ := bind_eq_ok.mp h
  obtain ⟨-, -, h⟩ := bind_eq_ok.mp h
  split at h
  · cases h
  · cases h
    rfl

theorem deactivateUser_roles (h : deactivateUser db actor userId = .ok db') : db'.roles = db.roles := by
  unfold deactivateUser at h
  obtain ⟨-, -, h⟩ := bind_eq_ok.mp h
  obtain ⟨-, -, h⟩ := bind_eq_ok.mp h
  split at h
  · cases h
  · exact saveUser_roles h

theorem activateUser_roles (h : activateUser db actor userId = .ok db') : db'.roles = db.roles := by
  unfold activateUser at h
  obtain ⟨-, -, h⟩ := bind_eq_ok.mp h
  split at h
  · cases h
  · exact saveUser_roles h

theorem confirmUserEmail_roles (h : confirmUserEmail db actor userId now = .ok db') : db'.roles = db.roles := by
  unfold confirmUserEmail at h
  obtain ⟨-, -, h⟩ := bind_eq_ok.mp h
  split at h
  · cases h
  · obtain ⟨db₁, hsave, h⟩ := bind_eq_ok.mp h
    cases h
    show db₁.roles = db.roles
    split at hsave
    · cases hsave
      rfl
    · exact saveUser_roles hsave

/-- A role is written back under its own name, and is no less the service's than before. -/
theorem updateRolePermissions_roles {roleName : String} {permissionNames : List String}
    (h : updateRolePermissions db actor roleName permissionNames = .ok db') : db'.roles.rows = db.roles.rows := by
  rw [updateRolePermissions, bind_eq_ok] at h
  obtain ⟨_, -, h⟩ := h
  rw [check_bind_eq_ok] at h
  obtain ⟨-, h⟩ := h
  split at h
  · simp at h
  · rename_i role hrole
    simp only [check_bind_eq_ok] at h
    obtain ⟨-, -, h⟩ := h
    rw [bind_eq_ok] at h
    obtain ⟨permissions, -, h⟩ := h
    rw [pure_eq_ok] at h
    subst h
    obtain ⟨⟨row, hrow, hstored⟩, -⟩ := getByName_stored hrole
    have hsame : (⟨role.id, role.name, role.description, role.isSystem⟩ : RoleRow) = row := by rw [hstored]; rfl
    show (db.roles.upsert ⟨role.id, role.name, role.description, role.isSystem⟩).rows = db.roles.rows
    rw [hsame]
    exact Rows.upsert_self (Rows.get_eq_some.mp hrow).1

/-- A role whose permissions are written is not the service's. -/
theorem updateRolePermissions_changeable {roleName : String} {permissionNames : List String} {role : Role}
    (h : updateRolePermissions db actor roleName permissionNames = .ok db')
    (hrole : db.getByName roleName = some role) :
    role.isSystem = false := by
  rw [updateRolePermissions, bind_eq_ok] at h
  obtain ⟨_, -, h⟩ := h
  rw [check_bind_eq_ok, hrole] at h
  simp only [check_bind_eq_ok] at h
  exact ensureMayBeChanged_eq_ok.mp h.2.2.1

end Roles

/-! ## Roles of the service -/

/-- The name stands for a role that belongs to the service. -/
structure ServiceRow (db : Db) (name : String) (row : RoleRow) : Prop where
  named : (db.roles.rows.find? fun row => decide (row.name = name)) = some row
  system : row.isSystem = true

namespace ServiceRow

variable {db db' : Db} {actor : Option Uuid} {id : Uuid} {name : String} {row : RoleRow}

theorem get (h : ServiceRow db name row) : db.roles.get row.id = some row :=
  Rows.mem_iff_get.mp (List.mem_of_find?_eq_some h.named)

theorem getByName (h : ServiceRow db name row) : db.getByName name = some (db.toRole row) :=
  Option.map_eq_some_iff.mpr ⟨row, h.named, rfl⟩

/-- A role the service does not own is another one. -/
theorem id_ne (h : ServiceRow db name row) {role : Role} (hrole : Stored db role) (hsystem : role.isSystem = false) :
    row.id ≠ role.id := by
  obtain ⟨row', hrow', hstored⟩ := hrole
  intro hid
  have hget := h.get
  rw [hid, hrow'] at hget
  cases hget
  rw [hstored] at hsystem
  exact absurd (hsystem.symm.trans h.system) (by decide)

theorem congr (h : ServiceRow db name row) (hrows : db'.roles.rows = db.roles.rows) : ServiceRow db' name row :=
  ⟨by rw [hrows]; exact h.named, h.system⟩

/-- A role that is created has a name of its own. -/
theorem createRole (h : ServiceRow db name row) {name' : String} {description : Option String}
    {permissionNames : List String} (hfresh : db.roles.get id = none)
    (hcreate : createRole db actor name' description permissionNames id = .ok db') : ServiceRow db' name row := by
  rw [Admin.createRole, bind_eq_ok] at hcreate
  obtain ⟨_, -, hcreate⟩ := hcreate
  simp only [check_bind_eq_ok] at hcreate
  obtain ⟨-, -, -, hfree, hcreate⟩ := hcreate
  rw [bind_eq_ok] at hcreate
  obtain ⟨permissions', -, hcreate⟩ := hcreate
  rw [pure_eq_ok] at hcreate
  subst hcreate
  have hfree := Option.isNone_iff_eq_none.mp (require_eq_ok.mp hfree)
  have hother : name' ≠ name := by
    rintro rfl
    rw [h.getByName] at hfree
    cases hfree
  have hrows : (db.saveRole ⟨id, name', description, false, permissions'⟩).roles.rows =
      ⟨id, name', description, false⟩ :: db.roles.rows := Rows.upsert_new hfresh
  refine ⟨?_, h.system⟩
  rw [hrows, List.find?_cons_of_neg (by simpa using hother)]
  exact h.named

/-- The role outlives a role the service does not own. -/
theorem deleteRole (h : ServiceRow db name row) {doomed : Role} (hdoomed : Stored db doomed)
    (hsystem : doomed.isSystem = false) : ServiceRow (db.deleteRole doomed.id) name row := by
  have hne := h.id_ne hdoomed hsystem
  refine ⟨?_, h.system⟩
  show (db.roles.rows.filter _).find? _ = some row
  rw [List.find?_filter]
  -- The first row of that name is not the one that goes.
  obtain ⟨hname, before, after, hrows, hbefore⟩ := List.find?_eq_some_iff_append.mp h.named
  refine List.find?_eq_some_iff_append.mpr ⟨by simpa [hne] using hname, before, after, hrows, ?_⟩
  intro r hr
  have := hbefore r hr
  simp only [Bool.not_eq_true', decide_eq_false_iff_not] at this
  simp [this]

end ServiceRow

/-! ## The invariant -/

/-- The default role is there and belongs to the service. -/
def DefaultStands (svc : Services) (db : Db) : Prop :=
  ∃ role, db.getByName svc.defaultRoleName = some role ∧ role.isSystem = true

/-- **Every account wears a role, and none wears `guest`.** -/
structure Dressed (db : Db) : Prop where
  wears : ∀ a, db.users.get a ≠ none → ∃ r, db.Wears a r
  notGuest : ∀ a r row, db.Wears a r → db.roles.get r = some row → row.name ≠ guestRoleName

/-- Read off the accounts as they are loaded. -/
theorem dressed_iff {db : Db} : Dressed db ↔ ∀ a user, db.findById a = some user →
    user.roles ≠ [] ∧ ∀ role ∈ user.roles, role.name ≠ guestRoleName := by
  constructor
  · intro h a user hu
    obtain ⟨row, hrow, -, -, rfl⟩ := findById_id hu
    constructor
    · obtain ⟨r, hr⟩ := h.wears a (by simp [hrow])
      obtain ⟨role, hrole, -⟩ := (mem_roles_toUser hrow).mpr hr
      exact List.ne_nil_of_mem hrole
    · intro role hrole
      have hw := (mem_roles_toUser hrow).mp ⟨role, hrole, rfl⟩
      simp only [toUser, List.mem_filterMap, Option.map_eq_some_iff] at hrole
      obtain ⟨e, -, rrow, hr, rfl⟩ := hrole
      have hkey : rrow.id = e.2 := Rows.key_of_get hr
      refine h.notGuest a rrow.id rrow hw ?_
      rw [hkey]
      exact hr
  · intro h
    constructor
    · intro a ha
      obtain ⟨row, hrow⟩ := Option.ne_none_iff_exists'.mp ha
      obtain ⟨role, hrole⟩ := List.exists_mem_of_ne_nil _ (h a (db.toUser row) (by simp [findById, hrow])).1
      exact ⟨role.id, (mem_roles_toUser hrow).mp ⟨role, hrole, rfl⟩⟩
    · intro a r row hw hr
      obtain ⟨urow, hrow⟩ := Option.ne_none_iff_exists'.mp (db.userRoles_fk hw).1
      have hkey : urow.id = a := Rows.key_of_get hrow
      refine (h a (db.toUser urow) (by simp [findById, hrow])).2 (db.toRole row) ?_
      simp only [toUser, List.mem_filterMap, List.mem_filter, decide_eq_true_eq, Option.map_eq_some_iff]
      exact ⟨(a, r), ⟨hw, hkey.symm⟩, row, hr, rfl⟩

namespace Dressed

variable {svc : Services} {db db' : Db} {id : Uuid}

/-- Accounts are written and go, and no role is given or taken. -/
theorem keep (h : Dressed db) (hkeeps : Keeps db db') (husers : ∀ a, db'.users.get a ≠ none → db.users.get a ≠ none)
    (hroles : db'.roles = db.roles) : Dressed db' := by
  constructor
  · intro a ha
    obtain ⟨r, hr⟩ := h.wears a (husers a ha)
    exact ⟨r, (hkeeps.wears a r).mpr ⟨hr, ha⟩⟩
  · intro a r row hw hr
    rw [hroles] at hr
    exact h.notGuest a r row ((hkeeps.wears a r).mp hw).1 hr

/-- One account is written. -/
theorem write (h : Dressed db) (hkeeps : Keeps db db') {row row' : UserRow} (hrow : db.users.get id = some row)
    (husers : ∀ a, db'.users.get a = if a = id then some row' else db.users.get a) (hroles : db'.roles = db.roles) :
    Dressed db' := by
  refine h.keep hkeeps ?_ hroles
  intro a ha
  rw [husers] at ha
  split at ha
  · rename_i hid
    rw [hid, hrow]
    exact Option.some_ne_none row
  · exact ha

/-- One account is given roles, and one at least. -/
theorem give (h : Dressed db) {roles : List Role} (hne : roles ≠ [])
    (hassign : ∀ role ∈ roles, Stored db role ∧ role.name ≠ guestRoleName)
    (husers : ∀ a, a ≠ id → db'.users.get a = db.users.get a)
    (hwears : ∀ a r, db'.Wears a r ↔ if a = id then ∃ role ∈ roles, role.id = r else db.Wears a r)
    (hroles : db'.roles = db.roles) : Dressed db' := by
  constructor
  · intro a ha
    by_cases hid : a = id
    · obtain ⟨role, hrole⟩ := List.exists_mem_of_ne_nil _ hne
      exact ⟨role.id, (hwears a role.id).mpr (by rw [if_pos hid]; exact ⟨role, hrole, rfl⟩)⟩
    · rw [husers a hid] at ha
      obtain ⟨r, hr⟩ := h.wears a ha
      exact ⟨r, (hwears a r).mpr (by rw [if_neg hid]; exact hr)⟩
  · intro a r row hw hr
    rw [hroles] at hr
    rw [hwears] at hw
    split at hw
    · obtain ⟨role, hrole, rfl⟩ := hw
      obtain ⟨⟨row', hrow', hstored⟩, hguest⟩ := hassign role hrole
      rw [hrow'] at hr
      cases hr
      rw [hstored] at hguest
      exact hguest
    · exact h.notGuest a r row hw hr

/-- A role is written, and no account gains or loses one. -/
theorem redefine (h : Dressed db) {permissions : List String} (hre : Redefines db db' id permissions)
    (hnames : ∀ a r row, db.Wears a r → db'.roles.get r = some row → db.roles.get r = some row) : Dressed db' := by
  constructor
  · intro a ha
    rw [hre.users] at ha
    obtain ⟨r, hr⟩ := h.wears a ha
    exact ⟨r, (hre.wears a r).mpr hr⟩
  · intro a r row hw hr
    have hw := (hre.wears a r).mp hw
    exact h.notGuest a r row hw (hnames a r row hw hr)

end Dressed

/-! ## One request -/

section Requests

variable {svc : Services} {db db' : Db} {actor : Option Uuid} {id : Uuid} {now : Instant}

theorem defaultStands_iff : DefaultStands svc db ↔ ∃ row, ServiceRow db svc.defaultRoleName row := by
  constructor
  · rintro ⟨role, hrole, hsystem⟩
    obtain ⟨row, hrow, rfl⟩ := Option.map_eq_some_iff.mp hrole
    exact ⟨row, hrow, hsystem⟩
  · rintro ⟨row, hrow⟩
    exact ⟨db.toRole row, hrow.getByName, hrow.system⟩

/-- What the default role is depends on the rows of the table alone. -/
theorem DefaultStands.congr (h : DefaultStands svc db) (hrows : db'.roles.rows = db.roles.rows) :
    DefaultStands svc db' := by
  obtain ⟨row, hrow⟩ := defaultStands_iff.mp h
  exact defaultStands_iff.mpr ⟨row, hrow.congr hrows⟩

/-- A role that is created is worn by nobody. -/
theorem createRole_dressed {name : String} {description : Option String} {permissionNames : List String}
    (hfresh : db.roles.get id = none) (h : createRole db actor name description permissionNames id = .ok db')
    (hdefault : DefaultStands svc db) (hdb : Dressed db) : DefaultStands svc db' ∧ Dressed db' := by
  constructor
  · obtain ⟨row, hrow⟩ := defaultStands_iff.mp hdefault
    exact defaultStands_iff.mpr ⟨row, hrow.createRole hfresh h⟩
  · obtain ⟨-, permissions, -, hre⟩ := createRole_ok h
    refine hdb.redefine hre ?_
    intro a r row hw hr
    rw [createRole, bind_eq_ok] at h
    obtain ⟨_, -, h⟩ := h
    simp only [check_bind_eq_ok] at h
    obtain ⟨-, -, -, -, h⟩ := h
    rw [bind_eq_ok] at h
    obtain ⟨permissions', -, h⟩ := h
    rw [pure_eq_ok] at h
    subst h
    have hne : id ≠ r := by
      rintro rfl
      exact (db.userRoles_fk hw).2 hfresh
    have hr : (db.roles.upsert ⟨id, name, description, false⟩).get r = some row := hr
    rw [Rows.get_upsert, if_neg hne] at hr
    exact hr

theorem deleteRole_roles {roleName : String} (h : deleteRole db svc roleName = .ok db') :
    ∃ doomed, db.getByName roleName = some doomed ∧ doomed.isSystem = false ∧
      db'.roles = (db.deleteRole doomed.id).roles := by
  unfold deleteRole at h
  split at h
  · simp at h
  · rename_i doomed hdoomed
    simp only [check_bind_eq_ok, pure_eq_ok] at h
    obtain ⟨-, hsystem, rfl⟩ := h
    refine ⟨doomed, hdoomed, ensureMayBeChanged_eq_ok.mp hsystem, ?_⟩
    unfold putTheBareOnesBack
    split
    · rfl
    · rename_i fallback hfallback
      exact (foldl_putBack_spec (db.idsWithRole doomed.id) (getByName_stored hfallback).1.exists).roles

/-- The default role outlives a role the service does not own. -/
theorem DefaultStands.outlives (h : DefaultStands svc db) {doomed : Role} (hdoomed : Stored db doomed)
    (hsystem : doomed.isSystem = false) : DefaultStands svc (db.deleteRole doomed.id) := by
  obtain ⟨row, hrow⟩ := defaultStands_iff.mp h
  exact defaultStands_iff.mpr ⟨row, hrow.deleteRole hdoomed hsystem⟩

/-- **A role that goes** leaves nobody bare: who wore nothing else falls back to the default role. -/
theorem deleteRole_dressed {roleName : String} (h : deleteRole db svc roleName = .ok db')
    (hguest : svc.defaultRoleName ≠ guestRoleName) (hdefault : DefaultStands svc db) (hdb : Dressed db) :
    DefaultStands svc db' ∧ Dressed db' := by
  obtain ⟨doomed, hdoomed, -, husers, hwears, -⟩ := deleteRole_ok h
  obtain ⟨doomed', hdoomed', hsystem, hroles⟩ := deleteRole_roles h
  rw [hdoomed] at hdoomed'
  cases hdoomed'
  have hstands := hdefault.outlives (getByName_stored hdoomed).1 hsystem
  obtain ⟨fallback, hfallback, -⟩ := id hstands
  obtain ⟨⟨frow, hfrow, hfstored⟩, hfname⟩ := getByName_stored hfallback
  have hfguest : fallback.name ≠ guestRoleName := by
    rw [hfname]
    exact hguest
  refine ⟨hstands.congr (congrArg Rows.rows hroles), ?_, ?_⟩
  · intro a ha
    rw [husers] at ha
    by_cases hother : ∃ r, db.Wears a r ∧ r ≠ doomed.id
    · obtain ⟨r, hr, hne⟩ := hother
      exact ⟨r, (hwears a r).mpr (.inl ⟨hr, hne⟩)⟩
    · have honly : ∀ r, db.Wears a r → r = doomed.id := by
        intro r hr
        by_contra hne
        exact hother ⟨r, hr, hne⟩
      obtain ⟨r, hr⟩ := hdb.wears a ha
      rw [honly r hr] at hr
      exact ⟨fallback.id, (hwears a fallback.id).mpr (.inr ⟨hr, honly, fallback, ⟨hfallback, hfguest⟩, rfl⟩)⟩
  · intro a r row hw hr
    rw [hroles] at hr
    rcases (hwears a r).mp hw with ⟨hw, -⟩ | ⟨-, -, fallback', ⟨hfallback', -⟩, rfl⟩
    · have hr : (db.roles.filter _).get r = some row := hr
      rw [Rows.get_filter] at hr
      exact hdb.notGuest a r row hw (Option.filter_eq_some_iff.mp hr).1
    · rw [hfallback] at hfallback'
      cases hfallback'
      rw [hfrow] at hr
      cases hr
      rw [hfstored] at hfguest
      exact hfguest

/-- One request that goes through. -/
theorem execute_dressed {q : Request} (hfresh : db.roles.get q.fresh = none) (h : execute svc db q = .ok db')
    (hguest : svc.defaultRoleName ≠ guestRoleName) (hdefault : DefaultStands svc db) (hdb : Dressed db) :
    DefaultStands svc db' ∧ Dressed db' := by
  have same : ∀ {db'' : Db}, db''.roles = db.roles → Dressed db'' → DefaultStands svc db'' ∧ Dressed db'' := by
    intro db'' hroles hd
    exact ⟨hdefault.congr (congrArg Rows.rows hroles), hd⟩
  unfold execute at h
  cases hq : q.operation with
  | register email password token =>
    rw [hq] at h
    rcases register_roles h with rfl | ⟨role, hstored, hname, husers, hwears, hroles⟩
    · exact ⟨hdefault, hdb⟩
    · exact same hroles (hdb.give (by simp) (by simpa using ⟨hstored, hname⟩) husers hwears hroles)
  | verifyEmail token =>
    rw [hq] at h
    obtain ⟨⟨userId, row, hrow, husers⟩, hkeeps⟩ := verifyEmail_ok h
    exact same (verifyEmail_roles h) (hdb.write hkeeps hrow husers (verifyEmail_roles h))
  | cleanUnverifiedAccounts =>
    rw [hq] at h
    cases h
    obtain ⟨husers, hkeeps⟩ := cleanUnverifiedAccounts_spec db svc q.now
    refine same rfl (hdb.keep hkeeps ?_ rfl)
    intro a ha hnone
    rw [husers, hnone] at ha
    exact ha rfl
  | createUser email password roleNames isActive =>
    rw [hq] at h
    obtain ⟨roles, hne, hassign, husers, hwears, hroles⟩ := createUser_roles h
    exact same hroles (hdb.give hne hassign husers hwears hroles)
  | updateUserRoles userId roleNames =>
    rw [hq] at h
    obtain ⟨roles, hres, hne, hassign, hre, hroles⟩ := updateUserRoles_roles h
    refine same hroles (hdb.give hne ?_ (fun a _ => hre.users a) hre.wears hroles)
    intro role hrole
    exact ⟨resolveRoles_stored hres role hrole, hassign role hrole⟩
  | deleteUser userId =>
    rw [hq] at h
    obtain ⟨r, hr, h⟩ := bind_eq_ok.mp h
    cases r with
    | none =>
      cases h
      exact ⟨hdefault, hdb⟩
    | some r =>
      obtain ⟨db₁, links⟩ := r
      cases h
      obtain ⟨-, -, husers, hkeeps⟩ := deleteUser_ok hr
      refine same (deleteUser_roles hr) (hdb.keep hkeeps ?_ (deleteUser_roles hr))
      intro a ha
      rw [husers] at ha
      split at ha
      · exact absurd rfl ha
      · exact ha
  | deactivateUser userId =>
    rw [hq] at h
    obtain ⟨-, -, ⟨row, hrow, husers⟩, hkeeps⟩ := deactivateUser_ok h
    exact same (deactivateUser_roles h) (hdb.write hkeeps hrow husers (deactivateUser_roles h))
  | activateUser userId =>
    rw [hq] at h
    obtain ⟨-, ⟨row, hrow, husers⟩, hkeeps⟩ := activateUser_ok h
    exact same (activateUser_roles h) (hdb.write hkeeps hrow husers (activateUser_roles h))
  | confirmUserEmail userId =>
    rw [hq] at h
    obtain ⟨⟨row, hrow, husers⟩, hkeeps⟩ := confirmUserEmail_ok h
    exact same (confirmUserEmail_roles h) (hdb.write hkeeps hrow husers (confirmUserEmail_roles h))
  | createRole name description permissionNames =>
    rw [hq] at h
    exact createRole_dressed hfresh h hdefault hdb
  | updateRolePermissions roleName permissionNames =>
    rw [hq] at h
    have hrows := updateRolePermissions_roles h
    obtain ⟨role, permissions, -, -, -, -, hre⟩ := updateRolePermissions_ok h
    refine ⟨hdefault.congr hrows, hdb.redefine hre ?_⟩
    intro a r row _ hr
    unfold Rows.get at hr ⊢
    rw [hrows] at hr
    exact hr
  | deleteRole roleName =>
    rw [hq] at h
    exact deleteRole_dressed h hguest hdefault hdb

theorem perform_dressed {q : Request} (h : perform svc db q = some db') (hguest : svc.defaultRoleName ≠ guestRoleName)
    (hdb : DefaultStands svc db ∧ Dressed db) : DefaultStands svc db' ∧ Dressed db' := by
  unfold perform at h
  split at h
  · rename_i hfresh
    split at h
    · rename_i db₁ hexecute
      cases h
      exact execute_dressed hfresh.2 hexecute hguest hdb.1 hdb.2
    · cases h
      exact hdb
  · cases h

end Requests

/-! ## Whole runs -/

/-- **Every account always wears at least one role, and none wears `guest`**, active or not, whatever is asked for and
however it ends, while the default role belongs to the service and is not `guest` itself. -/
theorem every_account_wears_a_role_and_none_wears_guest (svc : Services) (db db' : Db) (qs : List Request)
    (hdefault : ∃ role, db.getByName svc.defaultRoleName = some role ∧ role.isSystem = true ∧ role.name ≠ guestRoleName)
    (hstart : ∀ a user, db.findById a = some user →
      user.roles ≠ [] ∧ ∀ role ∈ user.roles, role.name ≠ guestRoleName)
    (hrun : run (perform svc) db qs = some db') :
    ∀ a user, db'.findById a = some user → user.roles ≠ [] ∧ ∀ role ∈ user.roles, role.name ≠ guestRoleName := by
  obtain ⟨role, hrole, hsystem, hname⟩ := hdefault
  have hguest : svc.defaultRoleName ≠ guestRoleName := by
    rw [(getByName_stored hrole).2] at hname
    exact hname
  have hend : DefaultStands svc db' ∧ Dressed db' :=
    run_inv (I := fun db => DefaultStands svc db ∧ Dressed db) (fun hstep h => perform_dressed hstep hguest h) hrun
      ⟨⟨role, hrole, hsystem⟩, dressed_iff.mpr hstart⟩
  exact dressed_iff.mp hend.2

/-- A role is made up, given to an account as its only role, and deleted again; a request for `guest` is refused. -/
def roleComesAndGoes : List Request :=
  [⟨some 20, .createUser "d@x" "pw" [] false, 1, 30⟩, ⟨some 20, .createRole "ops" none ["link:create"], 2, 31⟩,
    ⟨some 20, .updateUserRoles 30 ["ops"], 3, 32⟩, ⟨some 20, .createRole "guest" none [], 4, 33⟩,
    ⟨some 20, .updateUserRoles 30 ["ops", "guest"], 5, 34⟩, ⟨some 20, .deleteRole "ops", 6, 35⟩]

theorem every_account_wears_a_role_in_office : ∃ db', run (perform plainServices) office roleComesAndGoes = some db' ∧
    (db'.findById 30).map (fun user => user.roles.map (·.name)) = some ["user"] ∧
    ∀ a user, db'.findById a = some user → user.roles ≠ [] ∧ ∀ role ∈ user.roles, role.name ≠ guestRoleName := by
  have hrun : ((run (perform plainServices) office roleComesAndGoes).map fun db' =>
      (db'.findById 30).map fun user => user.roles.map (·.name)) = some (some ["user"]) := by decide +kernel
  have hrows : ∀ row ∈ office.users.rows, (office.toUser row).roles ≠ [] ∧
      ∀ role ∈ (office.toUser row).roles, role.name ≠ guestRoleName := by decide +kernel
  obtain ⟨db', h, hworn⟩ := Option.map_eq_some_iff.mp hrun
  refine ⟨db', h, hworn, every_account_wears_a_role_and_none_wears_guest plainServices office db' roleComesAndGoes ?_ ?_ h⟩
  · exact ⟨_, rfl, rfl, by decide⟩
  · intro a user hu
    obtain ⟨row, hrow, -, -, rfl⟩ := findById_id hu
    exact hrows row (Rows.get_eq_some.mp hrow).1

end LinkShortener.Admin
