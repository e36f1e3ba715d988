import LinkShortener.Lib.Upserts
import LinkShortener.Domain.Privileges

/-!
# Loading roles from a file

A role document names permissions and roles. A pass over it creates what is missing; what exists is left alone, or
rewritten where `updateExisting` is set. The pass works on a session that does not flush by itself: a query sees the rows
that were flushed, and the objects it returns carry the changes that were not.

* `Tables`, `Sound`: permissions, roles and which role grants which permission, and what the database accepts of them.
* `Session`: what is committed, what is flushed, and the objects over it. `flush`, `commit`, `rollback`.
* `upsertPermission`, `upsertRole`, `loadFromYaml`: the pass. An exception carries the session as it was left.
* `loadFile`: the pass inside of its transaction.

A document is valid in the sense that texts are texts, flags are flags and its keys are columns; a key may be missing, and
one with a text or a list may be null. The column of an id is as wide as an id.
-/

namespace LinkShortener.Roles

/-! ## Documents -/

/-- What stands under a key: nothing, null, or a value. -/
abbrev Entry (α : Type) := Option (Option α)

structure PermissionDef where
  name : String
  description : Entry String
  resource : Entry String
  action : Entry String
  deriving DecidableEq

structure RoleDef where
  name : String
  description : Entry String
  isSystem : Option Bool
  permissions : Entry (List String)
  deriving DecidableEq

structure Document where
  permissions : Entry (List PermissionDef)
  roles : Entry (List RoleDef)
  deriving DecidableEq

/-! ## Tables -/

structure PermissionModel where
  id : String
  name : String
  description : Option String
  resource : Option String
  action : Option String
  deriving DecidableEq

/-- A role with its rows of `role_permissions`: the ids of the permissions it grants. -/
structure RoleModel where
  id : String
  name : String
  description : Option String
  isSystem : Bool
  permissions : List String
  deriving DecidableEq

structure Tables where
  permissions : List PermissionModel
  roles : List RoleModel
  deriving DecidableEq

/-- Whether the database minds the width of a column. SQLite does not. -/
structure Schema where
  widths : Bool

/-- A text is within the width of its column. -/
def Schema.holds (schema : Schema) (width : Nat) (text : Option String) : Prop :=
  schema.widths = true → ∀ s ∈ text, s.length ≤ width

/-- A row with nothing missing that must not be, and nothing too wide. -/
structure PermissionModel.Fits (schema : Schema) (p : PermissionModel) : Prop where
  resource : p.resource ≠ none
  action : p.action ≠ none
  names : schema.holds 100 (some p.name)
  descriptions : schema.holds 255 p.description
  resources : schema.holds 50 p.resource
  actions : schema.holds 50 p.action

structure RoleModel.Fits (schema : Schema) (r : RoleModel) : Prop where
  names : schema.holds 50 (some r.name)
  descriptions : schema.holds 255 r.description

/-- **What the database keeps**: primary keys, unique names, columns that fit, and roles that grant permissions which are
there. -/
structure Sound (schema : Schema) (t : Tables) : Prop where
  permissionIds : (t.permissions.map (·.id)).Nodup
  permissionNames : (t.permissions.map (·.name)).Nodup
  permissionFits : ∀ p ∈ t.permissions, p.Fits schema
  roleIds : (t.roles.map (·.id)).Nodup
  roleNames : (t.roles.map (·.name)).Nodup
  roleFits : ∀ r ∈ t.roles, r.Fits schema
  grants : ∀ r ∈ t.roles, r.permissions.Nodup ∧ ∀ id ∈ r.permissions, id ∈ t.permissions.map (·.id)

section Decidable

variable (schema : Schema)

instance (width : Nat) (text : Option String) : Decidable (schema.holds width text) :=
  inferInstanceAs (Decidable (schema.widths = true → ∀ s ∈ text, s.length ≤ width))

instance (p : PermissionModel) : Decidable (p.Fits schema) :=
  decidable_of_iff (p.resource ≠ none ∧ p.action ≠ none ∧ schema.holds 100 (some p.name) ∧
      schema.holds 255 p.description ∧ schema.holds 50 p.resource ∧ schema.holds 50 p.action)
    ⟨fun ⟨h₁, h₂, h₃, h₄, h₅, h₆⟩ => ⟨h₁, h₂, h₃, h₄, h₅, h₆⟩, fun ⟨h₁, h₂, h₃, h₄, h₅, h₆⟩ => ⟨h₁, h₂, h₃, h₄, h₅, h₆⟩⟩

instance (r : RoleModel) : Decidable (r.Fits schema) :=
  decidable_of_iff (schema.holds 50 (some r.name) ∧ schema.holds 255 r.description)
    ⟨fun ⟨h₁, h₂⟩ => ⟨h₁, h₂⟩, fun ⟨h₁, h₂⟩ => ⟨h₁, h₂⟩⟩

instance (t : Tables) : Decidable (Sound schema t) :=
  decidable_of_iff ((t.permissions.map (·.id)).Nodup ∧ (t.permissions.map (·.name)).Nodup ∧
      (∀ p ∈ t.permissions, p.Fits schema) ∧ (t.roles.map (·.id)).Nodup ∧ (t.roles.map (·.name)).Nodup ∧
      (∀ r ∈ t.roles, r.Fits schema) ∧
      ∀ r ∈ t.roles, r.permissions.Nodup ∧ ∀ id ∈ r.permissions, id ∈ t.permissions.map (·.id))
    ⟨fun ⟨h₁, h₂, h₃, h₄, h₅, h₆, h₇⟩ => ⟨h₁, h₂, h₃, h₄, h₅, h₆, h₇⟩,
      fun ⟨h₁, h₂, h₃, h₄, h₅, h₆, h₇⟩ => ⟨h₁, h₂, h₃, h₄, h₅, h₆, h₇⟩⟩

end Decidable

/-! ## Sessions -/

inductive LoadError
  /-- What the domain refuses. -/
  | refused (e : DomainError)
  /-- A name stands twice in a section of the file; the section is the field of the refusal. -/
  | namedTwice (field name : String)
  /-- A section, or the permissions of a role, is null. -/
  | nullList
  /-- The database refuses what is flushed. -/
  | integrity
  deriving DecidableEq

/-- A session that flushes when it is told to. Its objects are the flushed rows with what was assigned to them since; what
was added since stands apart. `drawn` is how many identifiers were drawn. -/
structure Session where
  committed : Tables
  flushed : Tables
  objects : Tables
  newPermissions : List PermissionModel
  newRoles : List RoleModel
  drawn : Nat

namespace Session

/-- A session with nothing to flush. -/
def clean (committed flushed : Tables) (drawn : Nat) : Session := ⟨committed, flushed, flushed, [], [], drawn⟩

variable (s : Session)

/-- The tables as a flush would leave them. -/
def pending : Tables where
  permissions := s.objects.permissions ++ s.newPermissions
  roles := s.objects.roles ++ s.newRoles

def flush (schema : Schema) : Except (LoadError × Session) Session :=
  if Sound schema s.pending then .ok (clean s.committed s.pending s.drawn) else .error (.integrity, s)

def commit (schema : Schema) : Except (LoadError × Session) Session :=
  match s.flush schema with
  | .error e => .error e
  | .ok s => .ok { s with committed := s.flushed }

def rollback : Session := clean s.committed s.committed s.drawn

/-- The object of a row. -/
def roleOf (row : RoleModel) : RoleModel := (s.objects.roles.find? fun r => decide (r.id = row.id)).getD row

/-- The names of the permissions a role grants, sorted. -/
def grantedBy (role : RoleModel) : List String :=
  ((s.objects.permissions.filter fun p => decide (p.id ∈ role.permissions)).map (·.name)).insertionSort (· ≤ ·)

def modifyPermission (id : String) (f : PermissionModel → PermissionModel) : Session :=
  { s with objects := { s.objects with permissions := Upserts.modify (·.id) id f s.objects.permissions } }

def modifyRole (id : String) (f : RoleModel → RoleModel) : Session :=
  { s with objects := { s.objects with roles := Upserts.modify (·.id) id f s.objects.roles } }

end Session

/-! ## The pass -/

/-- A role whose permissions were replaced, and what they were. -/
structure RegrantedRole where
  name : String
  permissionsBefore : List String
  permissionsAfter : List String
  isSystem : Bool
  deriving DecidableEq

/-- What one pass did. -/
structure LoadSummary where
  permissionsCreated : List String
  rolesCreated : List String
  rolesLeftAlone : List String
  rolesReprotected : List String
  rolesRegranted : List RegrantedRole
  deriving DecidableEq

def LoadSummary.empty : LoadSummary := ⟨[], [], [], [], []⟩

structure Pass where
  session : Session
  summary : LoadSummary

/-- Assign what the document says; what it does not say stays. -/
def PermissionDef.assign (d : PermissionDef) (p : PermissionModel) : PermissionModel :=
  { p with
    name := d.name
    description := d.description.getD p.description
    resource := d.resource.getD p.resource
    action := d.action.getD p.action }

def PermissionDef.build (d : PermissionDef) (id : String) : PermissionModel := d.assign ⟨id, d.name, none, none, none⟩

def RoleDef.assign (d : RoleDef) (r : RoleModel) : RoleModel :=
  { r with
    name := d.name
    description := d.description.getD r.description
    isSystem := d.isSystem.getD r.isSystem }

def RoleDef.build (d : RoleDef) (id : String) : RoleModel := d.assign ⟨id, d.name, none, false, []⟩

/-- Assign the permissions of a role: what it grants already stays, what it is not to grant any more goes. -/
def RoleModel.setPermissions (r : RoleModel) (ids : List String) : RoleModel :=
  { r with
    permissions :=
      (r.permissions.filter fun id => decide (id ∈ ids)) ++ ids.filter fun id => decide (id ∉ r.permissions) }

/-- The first name that stands twice. -/
def firstRepeated : List String → List String → Option String
  | _, [] => none
  | seen, name :: names => if name ∈ seen then some name else firstRepeated (name :: seen) names

/-- Refuse a file that names the same permission or role twice. -/
def refuseDuplicateNames (doc : Document) : Except LoadError Unit :=
  match firstRepeated [] (((doc.permissions.getD none).getD []).map (·.name)) with
  | some name => .error (.namedTwice "permissions" name)
  | none =>
    match firstRepeated [] (((doc.roles.getD none).getD []).map (·.name)) with
    | some name => .error (.namedTwice "roles" name)
    | none => .ok ()

/-- Refuse permission names the table does not carry. -/
def refuseUnknownPermissions (requested : List String) (found : List PermissionModel) : Check :=
  let missing := sortedSet (requested.filter fun name => decide (name ∉ found.map (·.name)))
  require missing.isEmpty (.permissionsNotFound missing)

section Pass

variable (draw : Nat → String) (updateExisting : Bool)

/-- Insert a permission, or update one when updating is allowed. -/
def upsertPermission (p : Pass) (d : PermissionDef) : Pass :=
  match p.session.flushed.permissions.find? fun row => decide (row.name = d.name) with
  | some row => if updateExisting then { p with session := p.session.modifyPermission row.id d.assign } else p
  | none =>
    { session := { p.session with
        newPermissions := p.session.newPermissions ++ [d.build (draw p.session.drawn)]
        drawn := p.session.drawn + 1 }
      summary := { p.summary with permissionsCreated := p.summary.permissionsCreated ++ [d.name] } }

/-- The permissions that are there for a role to grant, unless some are not. -/
def findPermissions (flushed : Tables) (names : Option (List String)) : Except LoadError (List PermissionModel) :=
  match names with
  | none => .error .nullList
  | some names =>
    let found := flushed.permissions.filter fun p => decide (p.name ∈ names)
    match refuseUnknownPermissions names found with
    | .error e => .error (.refused e)
    | .ok () => .ok found

/-- An existing role with its fields assigned: its permissions are replaced. -/
def regrant (p : Pass) (d : RoleDef) (row : RoleModel) : Except (LoadError × Session) Pass :=
  let role := p.session.roleOf row
  let before := p.session.grantedBy role
  match findPermissions p.session.flushed (d.permissions.getD (some [])) with
  | .error e => .error (e, p.session)
  | .ok found =>
    let after := (found.map (·.name)).insertionSort (· ≤ ·)
    .ok {
      session := p.session.modifyRole row.id fun r => r.setPermissions (found.map (·.id))
      summary :=
        if before ≠ after then
          { p.summary with rolesRegranted := p.summary.rolesRegranted ++ [⟨d.name, before, after, role.isSystem⟩] }
        else p.summary }

/-- Insert a role, or update one when updating is allowed. An existing role that may not be updated is at most marked as a
system role again. -/
def upsertRole (p : Pass) (d : RoleDef) : Except (LoadError × Session) Pass :=
  match requireValidRoleName d.name with
  | .error e => .error (.refused e, p.session)
  | .ok () =>
    match requireValidRoleDescription (d.description.getD none) with
    | .error e => .error (.refused e, p.session)
    | .ok () =>
      match p.session.flushed.roles.find? fun row => decide (row.name = d.name) with
      | some row =>
        if updateExisting then regrant { p with session := p.session.modifyRole row.id d.assign } d row
        else if d.isSystem.getD false && !(p.session.roleOf row).isSystem then
          .ok {
            session := p.session.modifyRole row.id fun r => { r with isSystem := true }
            summary := { p.summary with rolesReprotected := p.summary.rolesReprotected ++ [d.name] } }
        else .ok { p with summary := { p.summary with rolesLeftAlone := p.summary.rolesLeftAlone ++ [d.name] } }
      | none =>
        let role := d.build (draw p.session.drawn)
        match findPermissions p.session.flushed (d.permissions.getD (some [])) with
        | .error e =>
          .error (e, { p.session with newRoles := p.session.newRoles ++ [role], drawn := p.session.drawn + 1 })
        | .ok found =>
          .ok {
            session := { p.session with
              newRoles := p.session.newRoles ++ [role.setPermissions (found.map (·.id))]
              drawn := p.session.drawn + 1 }
            summary := { p.summary with rolesCreated := p.summary.rolesCreated ++ [d.name] } }

/-- One role after the other, until one is refused. -/
def upsertRoles : Pass → List RoleDef → Except (LoadError × Session) Pass
  | p, [] => .ok p
  | p, d :: defs =>
    match upsertRole draw updateExisting p d with
    | .error e => .error e
    | .ok p => upsertRoles p defs

/-- **Load roles and permissions.** The new permissions are flushed before the roles look them up. -/
def loadFromYaml (schema : Schema) (doc : Document) (s : Session) :
    Except (LoadError × Session) (LoadSummary × Session) :=
  match refuseDuplicateNames doc with
  | .error e => .error (e, s)
  | .ok () =>
    match doc.permissions.getD (some []) with
    | none => .error (.nullList, s)
    | some permissionDefs =>
      let p := permissionDefs.foldl (upsertPermission draw updateExisting) ⟨s, .empty⟩
      match p.session.flush schema with
      | .error e => .error e
      | .ok s =>
        match doc.roles.getD (some []) with
        | none => .error (.nullList, s)
        | some roleDefs =>
          match upsertRoles draw updateExisting ⟨s, p.summary⟩ roleDefs with
          | .error e => .error e
          | .ok p => .ok (p.summary, p.session)

/-- The pass in a session of its own, which is committed unless something was raised. -/
def loadFile (schema : Schema) (doc : Document) (tables : Tables) (drawn : Nat) :
    Tables × Except LoadError LoadSummary :=
  match loadFromYaml draw updateExisting schema doc (.clean tables tables drawn) with
  | .error (e, s) => (s.rollback.committed, .error e)
  | .ok (summary, s) =>
    match s.commit schema with
    | .error (e, s) => (s.rollback.committed, .error e)
    | .ok s => (s.committed, .ok summary)

end Pass

end LinkShortener.Roles
