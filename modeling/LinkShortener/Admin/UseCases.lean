import LinkShortener.Storage.Database

/-!
# Administrative use cases

The use cases that edit accounts and roles, each as one transaction on the database: it answers with the database it
leaves, or with the domain error that rolls it back. A request carries the account it acts as, if any.

* `requireMayGrantRoles`, `requireMayActOnUser`, `requireAdministratorRemains`, …: the privilege guard.
* `createUser`, `updateUserRoles`, `deleteUser`, `deactivateUser`, `activateUser`, `confirmUserEmail`, `createRole`,
  `updateRolePermissions`, `deleteRole`: the administrative use cases.
* `register`, `verifyEmail`, `cleanUnverifiedAccounts`: how accounts come and go otherwise.
* `execute`: a request by what it asks for.
-/

namespace LinkShortener

/-- What the use cases are configured with: the default role, how an address is read and a password hashed (both may
refuse), the digest of a mailed token and the lifetimes. -/
structure Services where
  defaultRoleName : String
  parseEmail : String → Except DomainError String
  hashPassword : String → Except DomainError String
  tokenDigest : String → String
  verificationTtl : Int
  unverifiedTtl : Int

namespace Admin

/-! ## The privilege guard -/

section Guard

variable (db : Db) (actor : Option Uuid)

/-- The account a request acts as. -/
def loadActor : Option User := actor.bind db.findById

def requireMayGrantRoles (roles : List Role) : Check :=
  requireMayConfer (loadActor db actor) (roles.flatMap (·.permissions))

def requireMayGrantPermissions (names : List String) : Check := requireMayConfer (loadActor db actor) names

def requireMayActOnUser (userId : Uuid) : Check := requireMayActOn (loadActor db actor) (db.findById userId)

/-- Refuse when nobody but the account would be left. -/
def requireAdministratorRemains (userId : Uuid) : Check :=
  requireNotLastAdministrator (db.countActiveWithPermission adminAll (some userId) none)

/-- Refuse when nobody would be left without the role. -/
def requireAdministratorSurvivesWithout (role : Role) : Check :=
  onlyIf (role.hasPermission adminAll)
    (requireNotLastAdministrator (db.countActiveWithPermission adminAll none (some role.id)))

def wouldKeepAdmin (roles : List Role) : Bool := roles.any (·.hasPermission adminAll)

def isAdministrator (userId : Uuid) : Bool := isSuperuser (db.findById userId)

end Guard

/-! ## Services -/

section Services

variable (db : Db)

/-- The roles of the names, in order and without repeats; the first unknown name is refused. -/
def resolveRoles (names : List String) : Except DomainError (List Role) := go names []
where
  go : List String → List Role → Except DomainError (List Role)
    | [], roles => .ok roles.reverse
    | name :: names, roles =>
      match db.getByName name with
      | none => .error (.roleNotFound name)
      | some role => if roles.any fun r => decide (r.id = role.id) then go names roles else go names (role :: roles)

/-- The permissions of the names; all unknown names are refused at once. -/
def resolvePermissions (names : List String) : Except DomainError (List String) := do
  let missing := sortedSet (names.filter fun p => decide (p ∉ db.getByNames names))
  require missing.isEmpty (.permissionsNotFound missing)
  return db.getByNames names

/-- `UserManagementService.update_roles`. -/
def updateRoles (userId : Uuid) (roles : List Role) : Except DomainError Db :=
  match db.findById userId with
  | none => .error (.userNotFound userId)
  | some user => do
    require (!roles.isEmpty) (.validation "An account must keep at least one role" "roles")
    requireRolesAreAssignable roles
    db.saveUser { user with roles := roles }

/-- The roles of a new account: no roles means the default role. -/
def assignedRoles (svc : Services) (roles : List Role) : Except DomainError (List Role) :=
  if roles.isEmpty then
    match db.getByName svc.defaultRoleName with
    | some role => .ok [role]
    | none => .error (.plain ("Default role '" ++ svc.defaultRoleName ++ "' not found") "CONFIGURATION_ERROR")
  else .ok roles

/-- `UserManagementService.create_user`. -/
def serviceCreateUser (svc : Services) (email password : String) (roles : List Role) (isActive : Bool) (id : Uuid)
    (now : Instant) : Except DomainError Db := do
  let email ← svc.parseEmail email
  require (db.findByEmail email).isNone .emailAlreadyRegistered
  let passwordHash ← svc.hashPassword password
  let assigned ← assignedRoles db svc roles
  requireRolesAreAssignable assigned
  db.saveUser ⟨id, email, passwordHash, assigned, isActive, true, now⟩

end Services

/-! ## Use cases on accounts -/

section Accounts

variable (db : Db) (actor : Option Uuid)

/-- The roles a new account is asked to wear, if any are named. -/
def rolesToGrant (roleNames : List String) : Except DomainError (List Role) :=
  if roleNames.isEmpty then .ok [] else do
    let roles ← resolveRoles db roleNames
    requireRolesAreAssignable roles
    requireMayGrantRoles db actor roles
    return roles

def createUser (svc : Services) (email password : String) (roleNames : List String) (isActive : Bool) (id : Uuid)
    (now : Instant) : Except DomainError Db := do
  let roles ← rolesToGrant db actor roleNames
  serviceCreateUser db svc email password roles isActive id now

def updateUserRoles (userId : Uuid) (roleNames : List String) : Except DomainError Db := do
  let roles ← resolveRoles db roleNames
  requireRolesAreAssignable roles
  requireMayGrantRoles db actor roles
  requireMayActOnUser db actor userId
  onlyIf (isAdministrator db userId && !wouldKeepAdmin roles) (requireAdministratorRemains db userId)
  updateRoles db userId roles

/-- Deletes the account's links, then the account; `none` when there is no such account, and nothing is written. -/
def deleteUser (userId : Uuid) : Except DomainError (Option (Db × List Link)) := do
  requireMayActOnUser db actor userId
  onlyIf (isAdministrator db userId) (requireAdministratorRemains db userId)
  if (db.users.get userId).isNone then return none
  let links := db.links.rows.filter fun l => decide (l.owner = some userId)
  return some ((db.filterLinks fun l => decide (l.owner ≠ some userId)).deleteUsers fun row => decide (row.id = userId),
    links)

def deactivateUser (userId : Uuid) : Except DomainError Db := do
  requireMayActOnUser db actor userId
  onlyIf (isAdministrator db userId) (requireAdministratorRemains db userId)
  match db.findById userId with
  | none => .error (.userNotFound userId)
  | some user => db.saveUser { user with isActive := false }

def activateUser (userId : Uuid) : Except DomainError Db := do
  requireMayActOnUser db actor userId
  match db.findById userId with
  | none => .error (.userNotFound userId)
  | some user => db.saveUser { user with isActive := true }

/-- Spend every confirmation an account has outstanding. -/
def invalidateForUser (userId : Uuid) (now : Instant) : Db :=
  db.modifyVerifications (fun v => if v.userId = userId ∧ v.usedAt = none then { v with usedAt := some now } else v)
    (by intro v; split <;> simp)

def confirmUserEmail (userId : Uuid) (now : Instant) : Except DomainError Db := do
  requireMayActOnUser db actor userId
  match db.findById userId with
  | none => .error (.userNotFound userId)
  | some user => do
    let db' ← (if user.emailVerified then .ok db else db.saveUser { user with emailVerified := true } :
      Except DomainError Db)
    return invalidateForUser db' userId now

end Accounts

/-! ## Use cases on roles -/

section Roles

variable (db : Db) (actor : Option Uuid)

def createRole (name : String) (description : Option String) (permissionNames : List String) (id : Uuid) :
    Except DomainError Db := do
  let _ ← resolvePermissions db permissionNames
  requireMayGrantPermissions db actor permissionNames
  requireValidRoleName name
  requireValidRoleDescription description
  require (db.getByName name).isNone (.roleAlreadyExists name)
  let permissions ← resolvePermissions db permissionNames
  return db.saveRole ⟨id, name, description, false, permissions⟩

def updateRolePermissions (roleName : String) (permissionNames : List String) : Except DomainError Db := do
  let _ ← resolvePermissions db permissionNames
  requireMayGrantPermissions db actor permissionNames
  match db.getByName roleName with
  | none => .error (.roleNotFound roleName)
  | some role => do
    onlyIf (!role.isSystem && decide (adminAll ∉ permissionNames)) (requireAdministratorSurvivesWithout db role)
    role.ensureMayBeChanged
    let permissions ← resolvePermissions db permissionNames
    return db.saveRole { role with permissions := permissions }

/-- Give the default role to an account that has none left; a refusal is only logged. -/
def putBack (fallback : Role) (db : Db) (userId : Uuid) : Db :=
  match db.findById userId with
  | none => db
  | some account =>
    if account.roles.isEmpty then
      match updateRoles db userId [fallback] with
      | .ok db' => db'
      | .error _ => db
    else db

/-- A missing default role is only logged: the deletion goes through. -/
def putTheBareOnesBack (svc : Services) (wearers : List Uuid) : Db :=
  match db.getByName svc.defaultRoleName with
  | none => db
  | some fallback => wearers.foldl (putBack fallback) db

def deleteRole (svc : Services) (roleName : String) : Except DomainError Db :=
  match db.getByName roleName with
  | none => .error (.roleNotFound roleName)
  | some doomed => do
    onlyIf (!doomed.isSystem) (requireAdministratorSurvivesWithout db doomed)
    doomed.ensureMayBeChanged
    return putTheBareOnesBack (db.deleteRole doomed.id) svc (db.idsWithRole doomed.id)

end Roles

/-! ## Accounts that come and go by themselves -/

section Registration

variable (db : Db)

/-- Registration; an address that is taken is answered like a success and writes nothing. -/
def register (svc : Services) (email password token : String) (id : Uuid) (now : Instant) : Except DomainError Db := do
  let email ← svc.parseEmail email
  let passwordHash ← svc.hashPassword password
  if (db.findByEmail email).isSome then return db
  match db.getByName svc.defaultRoleName with
  | none => .error (.plain "Registration is unavailable" "REGISTRATION_UNAVAILABLE")
  | some role => do
    require (decide (role.name ≠ guestRoleName)) (.plain "Registration is unavailable" "REGISTRATION_UNAVAILABLE")
    let db' ← db.saveUser ⟨id, email, passwordHash, [role], true, false, now⟩
    return if h : db'.users.get id ≠ none then
        db'.saveVerification ⟨id, svc.tokenDigest token, now + svc.verificationTtl, none⟩ h
      else db'

/-- `EmailVerificationRepository.claim`: spend the confirmation if it still can be, and say whose it is. -/
def claimVerification (tokenHash : String) (now : Instant) : Option (Uuid × Db) :=
  match db.emailVerifications.get tokenHash with
  | none => none
  | some v =>
    if v.usedAt = none ∧ now < v.expiresAt then
      some (v.userId, db.modifyVerifications
        (fun w => if w.tokenHash = tokenHash then { w with usedAt := some now } else w) (by intro w; split <;> simp))
    else none

def verifyEmail (svc : Services) (token : String) (now : Instant) : Except DomainError Db :=
  match claimVerification db (svc.tokenDigest token) now with
  | none => .error (.validation "This confirmation link is not valid" "token")
  | some (userId, db') =>
    match db'.findById userId with
    | none => .error (.validation "This confirmation link is not valid" "token")
    | some user => db'.saveUser { user with emailVerified := true }

/-- Delete the registrations nobody confirmed in time, and the confirmations that can no longer be spent. -/
def cleanUnverifiedAccounts (svc : Services) (now : Instant) : Db :=
  (db.deleteUsers fun row => !row.emailVerified && decide (row.createdAt < now - svc.unverifiedTtl)).filterVerifications
    fun v => !(decide (v.expiresAt < now) || v.usedAt.isSome)

end Registration

/-! ## Requests -/

inductive Operation
  | register (email password token : String)
  | verifyEmail (token : String)
  | cleanUnverifiedAccounts
  | createUser (email password : String) (roleNames : List String) (isActive : Bool)
  | updateUserRoles (userId : Uuid) (roleNames : List String)
  | deleteUser (userId : Uuid)
  | deactivateUser (userId : Uuid)
  | activateUser (userId : Uuid)
  | confirmUserEmail (userId : Uuid)
  | createRole (name : String) (description : Option String) (permissionNames : List String)
  | updateRolePermissions (roleName : String) (permissionNames : List String)
  | deleteRole (roleName : String)
  deriving DecidableEq, Repr

/-- A request: who asks, what for, when, and the UUID drawn if an account or a role is created. -/
structure Request where
  actor : Option Uuid
  operation : Operation
  now : Instant
  fresh : Uuid
  deriving DecidableEq, Repr

/-- **One request**: the database it leaves, or its refusal. -/
def execute (svc : Services) (db : Db) (q : Request) : Except DomainError Db :=
  match q.operation with
  | .register email password token => register db svc email password token q.fresh q.now
  | .verifyEmail token => verifyEmail db svc token q.now
  | .cleanUnverifiedAccounts => .ok (cleanUnverifiedAccounts db svc q.now)
  | .createUser email password roleNames isActive =>
    createUser db q.actor svc email password roleNames isActive q.fresh q.now
  | .updateUserRoles userId roleNames => updateUserRoles db q.actor userId roleNames
  | .deleteUser userId => do
    match ← deleteUser db q.actor userId with
    | some (db', _) => return db'
    | none => return db
  | .deactivateUser userId => deactivateUser db q.actor userId
  | .activateUser userId => activateUser db q.actor userId
  | .confirmUserEmail userId => confirmUserEmail db q.actor userId q.now
  | .createRole name description permissionNames => createRole db q.actor name description permissionNames q.fresh
  | .updateRolePermissions roleName permissionNames => updateRolePermissions db q.actor roleName permissionNames
  | .deleteRole roleName => deleteRole db svc roleName

end Admin

end LinkShortener
