import LinkShortener.Lib.Rows
import LinkShortener.Domain.Link
import LinkShortener.Domain.Privileges

/-!
# The database

The tables the account and link use cases read and write, with their keys and foreign keys: a `Db` that breaks one of
them cannot be built. A repository operation that a constraint would refuse answers with the domain error the
repository turns the refusal into.

* `Db.findById`, `Db.getByName`, `Db.countActiveWithPermission`, `Db.idsWithRole`: what the use cases read.
* `Db.saveUser`, `Db.saveRole`, `Db.deleteRole`, `Db.deleteUsers`, and the operations on confirmations and links.
* `Db.Holds`: an account holds a permission; `holds_iff` reads it off the association tables.
-/

namespace LinkShortener

/-! ## Rows -/

/-- A `users` row. -/
structure UserRow where
  id : Uuid
  email : String
  passwordHash : String
  isActive : Bool
  emailVerified : Bool
  createdAt : Instant
  deriving DecidableEq, Repr

/-- A `roles` row. -/
structure RoleRow where
  id : Uuid
  name : String
  description : Option String
  isSystem : Bool
  deriving DecidableEq, Repr

/-- A mailed confirmation of an address. -/
structure EmailVerification where
  userId : Uuid
  tokenHash : String
  expiresAt : Instant
  usedAt : Option Instant
  deriving DecidableEq, Repr

/-- The tables, with the foreign keys between them. -/
structure Db where
  users : Rows UserRow.id
  roles : Rows RoleRow.id
  userRoles : List (Uuid × Uuid)
  rolePermissions : List (Uuid × String)
  permissions : List String
  emailVerifications : Rows EmailVerification.tokenHash
  links : Rows Link.shortCode
  emails : ∀ {a b ra rb}, users.get a = some ra → users.get b = some rb → ra.email = rb.email → a = b
  userRoles_fk : ∀ {u r}, (u, r) ∈ userRoles → users.get u ≠ none ∧ roles.get r ≠ none
  rolePermissions_fk : ∀ {r p}, (r, p) ∈ rolePermissions → roles.get r ≠ none
  emailVerifications_fk : ∀ {h v}, emailVerifications.get h = some v → users.get v.userId ≠ none
  links_fk : ∀ {c l u}, links.get c = some l → l.owner = some u → users.get u ≠ none
  linkIds : ∀ {c c' l l'}, links.get c = some l → links.get c' = some l' → l.id = l'.id → c = c'

namespace Db

/-! ## Reads -/

/-- A role with its permissions. -/
def toRole (db : Db) (row : RoleRow) : Role where
  id := row.id
  name := row.name
  description := row.description
  isSystem := row.isSystem
  permissions := (db.rolePermissions.filter fun e => decide (e.1 = row.id)).map (·.2)

/-- An account with its roles. -/
def toUser (db : Db) (row : UserRow) : User where
  id := row.id
  email := row.email
  passwordHash := row.passwordHash
  roles := (db.userRoles.filter fun e => decide (e.1 = row.id)).filterMap fun e => (db.roles.get e.2).map db.toRole
  isActive := row.isActive
  emailVerified := row.emailVerified
  createdAt := row.createdAt

@[simp] theorem toRole_name (db : Db) (row : RoleRow) : (db.toRole row).name = row.name := rfl

def findById (db : Db) (id : Uuid) : Option User := (db.users.get id).map db.toUser

def findByEmail (db : Db) (email : String) : Option User :=
  (db.users.rows.find? fun row => decide (row.email = email)).map db.toUser

/-- The role with the given name. -/
def getByName (db : Db) (name : String) : Option Role :=
  (db.roles.rows.find? fun row => decide (row.name = name)).map db.toRole

/-- The permissions among the names that exist. -/
def getByNames (db : Db) (names : List String) : List String := db.permissions.filter fun p => decide (p ∈ names)

instance : LawfulBEq (Uuid × String) := inferInstance

/-- Active accounts that hold the permission, leaving out an account or the paths through a role. -/
def countActiveWithPermission (db : Db) (permission : String) (excludingUser excludingRole : Option Uuid) : Nat :=
  ((db.userRoles.filter fun e =>
    (db.users.get e.1).any (·.isActive) && decide ((e.2, permission) ∈ db.rolePermissions) &&
      decide (some e.1 ≠ excludingUser) && decide (some e.2 ≠ excludingRole)).map (·.1)).dedup.length

/-- The accounts that wear a role. -/
def idsWithRole (db : Db) (role : Uuid) : List Uuid :=
  ((db.userRoles.filter fun e => decide (e.2 = role)).map (·.1)).dedup

/-- **An account holds a permission.** -/
def Holds (db : Db) (a : Uuid) (p : String) : Prop := p ∈ permissionsHeldBy (db.findById a)

instance (db : Db) (a : Uuid) (p : String) : Decidable (db.Holds a p) := inferInstanceAs (Decidable (p ∈ _))

/-- A role carries a permission. -/
def Carries (db : Db) (r : Uuid) (p : String) : Prop := (r, p) ∈ db.rolePermissions

/-- An account wears a role. -/
def Wears (db : Db) (a r : Uuid) : Prop := (a, r) ∈ db.userRoles

instance (db : Db) (r : Uuid) (p : String) : Decidable (db.Carries r p) := inferInstanceAs (Decidable (_ ∈ _))

instance (db : Db) (a r : Uuid) : Decidable (db.Wears a r) := inferInstanceAs (Decidable (_ ∈ _))

section Reads

variable {db : Db} {a r : Uuid} {p : String}

theorem mem_permissions_toRole {row : RoleRow} : p ∈ (db.toRole row).permissions ↔ db.Carries row.id p := by
  simp [toRole, Carries]

/-- A permission is held through a role. -/
theorem holds_iff : db.Holds a p ↔ ∃ r, db.Wears a r ∧ db.Carries r p := by
  unfold Holds findById
  constructor
  · intro h
    cases hu : db.users.get a with
    | none => simp [hu, permissionsHeldBy] at h
    | some row =>
      simp only [hu, Option.map_some, permissionsHeldBy, List.mem_flatMap] at h
      obtain ⟨role, hrole, hp⟩ := h
      simp only [toUser, List.mem_filterMap, List.mem_filter, decide_eq_true_eq, Option.map_eq_some_iff] at hrole
      obtain ⟨⟨u, r⟩, ⟨hw, hu'⟩, rrow, hr, rfl⟩ := hrole
      have hkey : rrow.id = r := Rows.key_of_get hr
      have hkey' : row.id = a := Rows.key_of_get hu
      simp only at hu'
      subst hu' hkey'
      exact ⟨r, hw, hkey ▸ mem_permissions_toRole.mp hp⟩
  · rintro ⟨r, hw, hc⟩
    obtain ⟨hu, hr⟩ := db.userRoles_fk hw
    obtain ⟨row, hrow⟩ := Option.ne_none_iff_exists'.mp hu
    obtain ⟨rrow, hrrow⟩ := Option.ne_none_iff_exists'.mp hr
    have hkey : rrow.id = r := Rows.key_of_get hrrow
    have hkey' : row.id = a := Rows.key_of_get hrow
    simp only [hrow, Option.map_some, permissionsHeldBy, List.mem_flatMap]
    refine ⟨db.toRole rrow, ?_, mem_permissions_toRole.mpr (hkey.symm ▸ hc)⟩
    simp only [toUser, List.mem_filterMap, List.mem_filter, decide_eq_true_eq, Option.map_eq_some_iff]
    exact ⟨(a, r), ⟨hw, hkey'.symm⟩, rrow, hrrow, rfl⟩

theorem mem_idsWithRole : a ∈ db.idsWithRole r ↔ db.Wears a r := by
  simp [idsWithRole, Wears]

/-- The count is positive when some account is counted. -/
theorem countActiveWithPermission_pos {eu er : Option Uuid} : 0 < db.countActiveWithPermission p eu er ↔
    ∃ a r, db.Wears a r ∧ db.Carries r p ∧ (db.users.get a).any (·.isActive) = true ∧ some a ≠ eu ∧ some r ≠ er := by
  rw [countActiveWithPermission, List.length_pos_iff_exists_mem]
  simp only [List.mem_dedup, List.mem_map, List.mem_filter, Bool.and_eq_true, decide_eq_true_eq, Prod.exists]
  constructor
  · rintro ⟨_, a, r, ⟨hw, ⟨⟨hact, hc⟩, hu⟩, hr⟩, -⟩
    exact ⟨a, r, hw, hc, hact, hu, hr⟩
  · rintro ⟨a, r, hw, hc, hact, hu, hr⟩
    exact ⟨a, a, r, ⟨hw, ⟨⟨hact, hc⟩, hu⟩, hr⟩, rfl⟩

end Reads

/-! ## Writes -/

/-- The columns of an account. -/
def rowOf (user : User) : UserRow :=
  ⟨user.id, user.email, user.passwordHash, user.isActive, user.emailVerified, user.createdAt⟩

/-- `UserRepository.save`: write every column and the whole role set of the entity. -/
def saveUser (db : Db) (user : User) : Except DomainError Db :=
  match hroles : user.roles.find? fun role => decide (db.roles.get role.id = none) with
  | some role => .error (.roleNotFound role.name)
  | none =>
    if hemail : ∃ row ∈ db.users.rows, row.email = user.email ∧ row.id ≠ user.id then .error .emailAlreadyRegistered
    else .ok
      { db with
        users := db.users.upsert (rowOf user)
        emails := by
          have taken : ∀ {a row}, db.users.get a = some row → row.email = user.email → a = user.id := by
            intro a row hrow he
            by_contra hne
            obtain ⟨hmem, hkey⟩ := Rows.get_eq_some.mp hrow
            exact hemail ⟨row, hmem, he, hkey ▸ hne⟩
          intro a b ra rb ha hb he
          rw [Rows.get_upsert] at ha hb
          split at ha <;> split at hb
          · rename_i h h'
            exact h.symm.trans h'
          · rename_i h _
            cases ha
            exact h.symm.trans (taken hb he.symm).symm
          · rename_i _ h
            cases hb
            exact (taken ha he).trans h
          · exact db.emails ha hb he
        userRoles := (db.userRoles.filter fun e => decide (e.1 ≠ user.id)) ++ user.roles.map fun r => (user.id, r.id)
        userRoles_fk := by
          intro u r h
          simp only [List.mem_append, List.mem_filter, List.mem_map, Prod.mk.injEq] at h
          rw [Rows.get_upsert]
          rcases h with ⟨h, -⟩ | ⟨role, hrole, rfl, rfl⟩
          · refine ⟨?_, (db.userRoles_fk h).2⟩
            split
            · simp
            · exact (db.userRoles_fk h).1
          · refine ⟨by simp [rowOf], ?_⟩
            simpa using List.find?_eq_none.mp hroles role hrole
        emailVerifications_fk := by
          intro h v hv
          rw [Rows.get_upsert]
          split
          · simp
          · exact db.emailVerifications_fk hv
        links_fk := by
          intro c l u hl ho
          rw [Rows.get_upsert]
          split
          · simp
          · exact db.links_fk hl ho }

/-- `RoleRepository.save`: write the role and replace its permissions by those of the names that exist. -/
def saveRole (db : Db) (role : Role) : Db :=
  { db with
    roles := db.roles.upsert ⟨role.id, role.name, role.description, role.isSystem⟩
    rolePermissions := (db.rolePermissions.filter fun e => decide (e.1 ≠ role.id)) ++
      (db.getByNames role.permissions).map fun p => (role.id, p)
    userRoles_fk := by
      intro u r h
      refine ⟨(db.userRoles_fk h).1, ?_⟩
      rw [Rows.get_upsert]
      split
      · simp
      · exact (db.userRoles_fk h).2
    rolePermissions_fk := by
      intro r p h
      simp only [List.mem_append, List.mem_filter, List.mem_map, Prod.mk.injEq] at h
      rw [Rows.get_upsert]
      rcases h with ⟨h, -⟩ | ⟨_, -, rfl, -⟩
      · split
        · simp
        · exact db.rolePermissions_fk h
      · simp }

/-- `RoleRepository.delete`, with the associations that go with the role. -/
def deleteRole (db : Db) (role : Uuid) : Db :=
  { db with
    roles := db.roles.filter fun row => decide (row.id ≠ role)
    userRoles := db.userRoles.filter fun e => decide (e.2 ≠ role)
    rolePermissions := db.rolePermissions.filter fun e => decide (e.1 ≠ role)
    userRoles_fk := by
      intro u r h
      simp only [List.mem_filter, decide_eq_true_eq] at h
      refine ⟨(db.userRoles_fk h.1).1, ?_⟩
      obtain ⟨row, hrow⟩ := Option.ne_none_iff_exists'.mp (db.userRoles_fk h.1).2
      have hkey : row.id = r := Rows.key_of_get hrow
      simp [hrow, hkey, h.2]
    rolePermissions_fk := by
      intro r p h
      simp only [List.mem_filter, decide_eq_true_eq] at h
      obtain ⟨row, hrow⟩ := Option.ne_none_iff_exists'.mp (db.rolePermissions_fk h.1)
      have hkey : row.id = r := Rows.key_of_get hrow
      simp [hrow, hkey, h.2] }

/-- Delete the accounts that satisfy `gone`, with everything that hangs off them through `ON DELETE CASCADE`. -/
def deleteUsers (db : Db) (gone : UserRow → Bool) : Db :=
  let stays (u : Uuid) : Bool := (db.users.get u).any fun row => !gone row
  { db with
    users := db.users.filter fun row => !gone row
    userRoles := db.userRoles.filter fun e => stays e.1
    emailVerifications := db.emailVerifications.filter fun v => stays v.userId
    links := db.links.filter fun l => l.owner.all stays
    emails := by
      intro a b ra rb ha hb
      simp only [Rows.get_filter, Option.filter_eq_some_iff] at ha hb
      exact db.emails ha.1 hb.1
    userRoles_fk := by
      intro u r h
      simp only [List.mem_filter, stays, Option.any_eq_true] at h
      obtain ⟨h, row, hrow, hstay⟩ := h
      exact ⟨by simp [hrow, Option.filter_some, hstay], (db.userRoles_fk h).2⟩
    emailVerifications_fk := by
      intro k v hv
      simp only [Rows.get_filter, Option.filter_eq_some_iff, stays, Option.any_eq_true] at hv
      obtain ⟨-, row, hrow, hstay⟩ := hv
      simp [hrow, Option.filter_some, hstay]
    links_fk := by
      intro c l u hl ho
      simp only [Rows.get_filter, Option.filter_eq_some_iff, stays, ho, Option.all_some, Option.any_eq_true] at hl
      obtain ⟨-, row, hrow, hstay⟩ := hl
      simp [hrow, Option.filter_some, hstay]
    linkIds := by
      intro c c' l l' hl hl'
      simp only [Rows.get_filter, Option.filter_eq_some_iff] at hl hl'
      exact db.linkIds hl.1 hl'.1 }

/-- Rewrite confirmations, each for its own account and token. -/
def modifyVerifications (db : Db) (f : EmailVerification → EmailVerification)
    (hf : ∀ v, (f v).tokenHash = v.tokenHash ∧ (f v).userId = v.userId) : Db :=
  { db with
    emailVerifications := db.emailVerifications.modify f fun v => (hf v).1
    emailVerifications_fk := by
      intro k v hv
      simp only [Rows.get_modify, Option.map_eq_some_iff] at hv
      obtain ⟨v', hv', rfl⟩ := hv
      rw [(hf v').2]
      exact db.emailVerifications_fk hv' }

/-- Keep some confirmations. -/
def filterVerifications (db : Db) (p : EmailVerification → Bool) : Db :=
  { db with
    emailVerifications := db.emailVerifications.filter p
    emailVerifications_fk := by
      intro k v hv
      simp only [Rows.get_filter, Option.filter_eq_some_iff] at hv
      exact db.emailVerifications_fk hv.1 }

/-- Keep a confirmation of an account that exists. -/
def saveVerification (db : Db) (v : EmailVerification) (hv : db.users.get v.userId ≠ none) : Db :=
  { db with
    emailVerifications := db.emailVerifications.upsert v
    emailVerifications_fk := by
      intro k v' hv'
      rw [Rows.get_upsert] at hv'
      split at hv'
      · cases hv'
        exact hv
      · exact db.emailVerifications_fk hv' }

/-- Keep some links. -/
def filterLinks (db : Db) (p : Link → Bool) : Db :=
  { db with
    links := db.links.filter p
    links_fk := by
      intro c l u hl ho
      simp only [Rows.get_filter, Option.filter_eq_some_iff] at hl
      exact db.links_fk hl.1 ho
    linkIds := by
      intro c c' l l' hl hl'
      simp only [Rows.get_filter, Option.filter_eq_some_iff] at hl hl'
      exact db.linkIds hl.1 hl'.1 }

/-- An empty database that knows the permissions. -/
def empty (permissions : List String) : Db where
  users := Rows.empty
  roles := Rows.empty
  userRoles := []
  rolePermissions := []
  permissions := permissions
  emailVerifications := Rows.empty
  links := Rows.empty
  emails := by simp
  userRoles_fk := by simp
  rolePermissions_fk := by simp
  emailVerifications_fk := by simp
  links_fk := by simp
  linkIds := by simp

/-- A database with the given roles and accounts. -/
def seed (permissions : List String) (roles : List Role) (users : List User) : Db :=
  users.foldl (fun db user => match db.saveUser user with
    | .ok db' => db'
    | .error _ => db) (roles.foldl saveRole (empty permissions))

/-! ## What the writes do to accounts, roles and permissions -/

section Writes

variable {db db' : Db} {user : User} {role : Role} {a r r' : Uuid} {p : String}

/-- An account that is stored can be written again, whatever its roles. -/
theorem saveUser_ok {row : UserRow} (hu : db.users.get user.id = some row) (he : row.email = user.email)
    (hr : ∀ role ∈ user.roles, db.roles.get role.id ≠ none) : ∃ db', db.saveUser user = .ok db' := by
  unfold saveUser
  split
  · rename_i role hrole
    have := List.find?_some hrole
    exact absurd (by simpa using this) (hr role (List.mem_of_find?_eq_some hrole))
  · split
    · rename_i h
      obtain ⟨row', hmem, he', hne⟩ := h
      exact absurd (db.emails (Rows.mem_iff_get.mp hmem) hu (he'.trans he.symm)) hne
    · exact ⟨_, rfl⟩

/-- Saving an account writes its columns and replaces its roles, and touches nothing else. -/
theorem saveUser_spec (h : db.saveUser user = .ok db') :
    (∀ a, db'.users.get a = if a = user.id then some (rowOf user) else db.users.get a) ∧
    (∀ a r, db'.Wears a r ↔ if a = user.id then ∃ role ∈ user.roles, role.id = r else db.Wears a r) ∧
    (∀ r p, db'.Carries r p ↔ db.Carries r p) ∧ db'.roles = db.roles ∧ db'.permissions = db.permissions ∧
    db'.emailVerifications = db.emailVerifications ∧ db'.links = db.links := by
  unfold saveUser at h
  split at h
  · simp at h
  · split at h
    · simp at h
    · cases h
      refine ⟨?_, ?_, fun _ _ => Iff.rfl, rfl, rfl, rfl, rfl⟩
      · intro a
        simp only [Rows.get_upsert, rowOf, eq_comm]
      · intro a r
        simp only [Wears, List.mem_append, List.mem_filter, decide_eq_true_eq, List.mem_map, Prod.mk.injEq]
        by_cases ha : a = user.id
        · simp [ha]
        · simp [ha, Ne.symm ha]

theorem carries_saveRole : (db.saveRole role).Carries r p ↔
    if r = role.id then p ∈ role.permissions ∧ p ∈ db.permissions else db.Carries r p := by
  simp only [Carries, saveRole, getByNames, List.mem_append, List.mem_filter, decide_eq_true_eq, List.mem_map,
    Prod.mk.injEq]
  by_cases hr : r = role.id
  · simp [hr, and_comm]
  · simp [hr, Ne.symm hr]

theorem wears_deleteRole : (db.deleteRole r').Wears a r ↔ db.Wears a r ∧ r ≠ r' := by
  simp [Wears, deleteRole]

theorem carries_deleteRole : (db.deleteRole r').Carries r p ↔ db.Carries r p ∧ r ≠ r' := by
  simp [Carries, deleteRole]

theorem wears_deleteUsers {gone : UserRow → Bool} : (db.deleteUsers gone).Wears a r ↔
    db.Wears a r ∧ (db.users.get a).any (fun row => !gone row) = true := by
  simp [Wears, deleteUsers]

end Writes

end Db

end LinkShortener
