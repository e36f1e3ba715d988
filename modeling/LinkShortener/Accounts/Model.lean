import LinkShortener.Lib.Run
import LinkShortener.Lib.Transactions
import LinkShortener.Domain.Privileges

/-!
# Accounts and roles under READ COMMITTED

The tables `users`, `user_roles`, `roles` and `role_permissions`, and the use cases that write them, statement by
statement, each in one transaction.

* `Key`, `Value`: the rows. `Snapshot` and its queries: what one statement sees.
* `findById`, `getByName`: the reads of the repositories, one statement after the other (the row, then what
  `selectin` loads beside it).
* `Write`, `Write.effect`: the statements a flush emits. `saveWrites` is what `SQLAlchemyUserRepository.save` emits:
  the row is read again with `session.get`, and the columns and associations in which it differs from the entity
  are written.
* `Operation` is a use case, `Pc` the point it has reached, `next` its next statement, `step` a step of the system.

Refusals that depend on the caller (`require_may_act_on_user`, a wrong password, a spent token), deadlocks and lost
connections are the event `fail`, possible at any point.
-/

namespace LinkShortener.Accounts

open ReadCommitted Transactions

/-! ## Rows -/

/-- A `users` row. -/
structure Account where
  passwordHash : String
  isActive : Bool
  emailVerified : Bool
  lastLogin : Option Instant
  deriving DecidableEq, Repr

/-- A `roles` row. -/
structure RoleRow where
  name : String
  description : Option String
  isSystem : Bool
  deriving DecidableEq, Repr

/-- The rows of the four tables. -/
inductive Key
  | user (u : Uuid)
  | wears (u r : Uuid)
  | role (r : Uuid)
  | grants (r : Uuid) (p : String)
  deriving DecidableEq, Repr

/-- What a row holds; an association is there or not. -/
abbrev Value : Key → Type
  | .user _ => Account
  | .wears _ _ => Unit
  | .role _ => RoleRow
  | .grants _ _ => Unit

/-! ## What one statement sees -/

structure Snapshot where
  keys : List Key
  row : (k : Key) → Option (Value k)

/-- What a statement of transaction `t` sees. -/
def seenBy {T : Type} [DecidableEq T] (S : Store T Value) (t : T) : Snapshot := ⟨S.keys, S.view t⟩

/-- What is committed. -/
def committedNow {T : Type} (S : Store T Value) : Snapshot := ⟨S.keys, S.committed⟩

/-- The user or the role that a count of administrators leaves out. -/
inductive Excluded
  | user (u : Uuid)
  | role (r : Uuid)
  deriving DecidableEq, Repr

namespace Snapshot

def has (sn : Snapshot) (k : Key) : Bool := (sn.row k).isSome

/-- The roles of an account, `user_roles` joined with `roles`. -/
def rolesOf (sn : Snapshot) (u : Uuid) : List Uuid :=
  sn.keys.filterMap fun k => match k with
    | .wears u' r => if u' = u ∧ sn.has (.wears u r) ∧ sn.has (.role r) then some r else none
    | _ => none

/-- What a role grants. -/
def permissionsOf (sn : Snapshot) (r : Uuid) : List String :=
  sn.keys.filterMap fun k => match k with
    | .grants r' p => if r' = r ∧ sn.has (.grants r p) then some p else none
    | _ => none

/-- `ids_with_role`, and the collection `RoleModel.users`. -/
def idsWithRole (sn : Snapshot) (r : Uuid) : List Uuid :=
  sn.keys.filterMap fun k => match k with
    | .wears u r' => if r' = r ∧ sn.has (.user u) ∧ sn.has (.wears u r) ∧ sn.has (.role r) then some u else none
    | _ => none

/-- The role of a name. -/
def roleNamed (sn : Snapshot) (name : String) : Option (Uuid × RoleRow) :=
  sn.keys.findSome? fun k => match k with
    | .role r => (sn.row (.role r)).bind fun row => if row.name = name then some (r, row) else none
    | _ => none

/-- An active account that holds the permission, apart from what is excluded. -/
def holdsApart (sn : Snapshot) (p : String) (x : Option Excluded) (u : Uuid) : Bool :=
  (sn.row (.user u)).any (·.isActive) && decide (x ≠ some (.user u)) &&
    (sn.rolesOf u).any fun r => decide (x ≠ some (.role r)) && decide (p ∈ sn.permissionsOf r)

def countActiveWithPermission (sn : Snapshot) (p : String) (x : Option Excluded) : Nat :=
  (sn.keys.filter fun k => match k with
    | .user u => sn.holdsApart p x u
    | _ => false).length

end Snapshot

/-! ## Reads of the repositories -/

/-- A `User` as `find_by_id` builds it: the row, its roles, and every permission they grant. -/
structure Entity where
  account : Account
  roles : List Uuid
  permissions : List String
  deriving DecidableEq, Repr

/-- How far `find_by_id` has come. -/
inductive Load
  | nothing
  | row (a : Account)
  | roles (a : Account) (rs : List Uuid)
  deriving DecidableEq, Repr

/-- One statement of `find_by_id`; `none` when there is no such account. -/
def findById (sn : Snapshot) (u : Uuid) : Load → Option (Load ⊕ Entity)
  | .nothing => (sn.row (.user u)).map fun a => .inl (.row a)
  | .row a => some (.inl (.roles a (sn.rolesOf u)))
  | .roles a rs => some (.inr ⟨a, rs, rs.flatMap sn.permissionsOf⟩)

/-- One statement of `get_by_name`, the row first and its permissions after it; `none` when there is no such role. -/
def getByName (sn : Snapshot) (name : String) : Option (Uuid × RoleRow) → Option ((Uuid × RoleRow) ⊕ Role)
  | none => (sn.roleNamed name).map .inl
  | some (r, row) => some (.inr ⟨r, row.name, row.description, row.isSystem, sn.permissionsOf r⟩)

/-! ## Statements of a flush -/

/-- The columns of a `users` row that an `UPDATE` names. -/
structure Delta where
  passwordHash : Option String
  isActive : Option Bool
  emailVerified : Option Bool
  lastLogin : Option (Option Instant)
  deriving DecidableEq, Repr

/-- The new value of a column, if it is not the old one. -/
def changed {α : Type} [DecidableEq α] (new old : α) : Option α := if new = old then none else some new

/-- The columns in which an entity differs from the row as it was read again. -/
def Delta.between (entity row : Account) : Delta where
  passwordHash := changed entity.passwordHash row.passwordHash
  isActive := changed entity.isActive row.isActive
  emailVerified := changed entity.emailVerified row.emailVerified
  lastLogin := changed entity.lastLogin row.lastLogin

def Delta.apply (δ : Delta) (a : Account) : Account where
  passwordHash := δ.passwordHash.getD a.passwordHash
  isActive := δ.isActive.getD a.isActive
  emailVerified := δ.emailVerified.getD a.emailVerified
  lastLogin := δ.lastLogin.getD a.lastLogin

inductive Write
  | updateUser (u : Uuid) (δ : Delta)
  | insertUser (u : Uuid) (a : Account)
  | unwear (u r : Uuid)
  | wear (u r : Uuid)
  | deleteUser (u : Uuid)
  | updateRole (r : Uuid) (row : RoleRow)
  | insertRole (r : Uuid) (row : RoleRow)
  | ungrant (r : Uuid) (p : String)
  | grant (r : Uuid) (p : String)
  | deleteRole (r : Uuid)
  deriving DecidableEq, Repr

/-- One row a statement writes, and whether the statement is then over. -/
structure Change where
  key : Key
  value : Option (Value key)
  last : Bool

/-- Whether `ON DELETE CASCADE` takes the row with the user. -/
def Key.hangsOnUser (u : Uuid) : Key → Bool
  | .wears u' _ => decide (u' = u)
  | _ => false

/-- Whether `ON DELETE CASCADE` takes the row with the role. -/
def Key.hangsOnRole (r : Uuid) : Key → Bool
  | .wears _ r' => decide (r' = r)
  | .grants r' _ => decide (r' = r)
  | _ => false

/-- A deletion takes the rows that hang on the row, one after the other, and then the row. -/
def cascade (sn : Snapshot) (hangs : Key → Bool) (k : Key) : Option Change :=
  match sn.keys.find? fun k' => hangs k' && sn.has k' with
  | some k' => some ⟨k', none, false⟩
  | none => if sn.has k then some ⟨k, none, true⟩ else none

/-- What a statement writes. `none` is a statement that fails: it matches no row (`StaleDataError`), or a key is
taken or missing (`IntegrityError`). -/
def Write.effect (sn : Snapshot) : Write → Option Change
  | .updateUser u δ => (sn.row (.user u)).map fun a => ⟨.user u, some (δ.apply a), true⟩
  | .insertUser u a => if sn.has (.user u) then none else some ⟨.user u, some a, true⟩
  | .unwear u r => if sn.has (.wears u r) then some ⟨.wears u r, none, true⟩ else none
  | .wear u r =>
    if !sn.has (.wears u r) && sn.has (.user u) && sn.has (.role r) then some ⟨.wears u r, some (), true⟩ else none
  | .deleteUser u => cascade sn (Key.hangsOnUser u) (.user u)
  | .updateRole r row => if sn.has (.role r) then some ⟨.role r, some row, true⟩ else none
  | .insertRole r row =>
    if !sn.has (.role r) && (sn.roleNamed row.name).isNone then some ⟨.role r, some row, true⟩ else none
  | .ungrant r p => if sn.has (.grants r p) then some ⟨.grants r p, none, true⟩ else none
  | .grant r p => if !sn.has (.grants r p) && sn.has (.role r) then some ⟨.grants r p, some (), true⟩ else none
  | .deleteRole r => cascade sn (Key.hangsOnRole r) (.role r)

/-- The flush of a saved account: the differing columns of the row that was read again, or a new row when it was
gone, then the associations that differ from the collection that was read again. -/
def saveWrites (u : Uuid) (account : Account) (roles : List Uuid) (row : Option Account) (reread : List Uuid) :
    List Write :=
  (match row with
    | some a => if account = a then [] else [.updateUser u (.between account a)]
    | none => [.insertUser u account]) ++
  (reread.filter (· ∉ roles)).map (.unwear u) ++ (roles.filter (· ∉ reread)).map (.wear u)

/-- The flush of a saved role. -/
def saveRoleWrites (role : Role) (permissions : List String) (row : Option RoleRow) (reread : List String) :
    List Write :=
  (match row with
    | some old =>
      if old = ⟨role.name, role.description, role.isSystem⟩ then []
      else [.updateRole role.id ⟨role.name, role.description, role.isSystem⟩]
    | none => [.insertRole role.id ⟨role.name, role.description, role.isSystem⟩]) ++
  (reread.filter (· ∉ permissions)).map (.ungrant role.id) ++
    (permissions.filter (· ∉ reread)).map (.grant role.id)

/-! ## The use cases -/

inductive Operation
  | login (u : Uuid) (at_ : Instant)
  | changePassword (u : Uuid) (hash : String)
  | resetPassword (u : Uuid) (hash : String)
  | verifyEmail (u : Uuid)
  | updateUserRoles (u : Uuid) (names : List String)
  | activateUser (u : Uuid)
  | deactivateUser (u : Uuid)
  | deleteUser (u : Uuid)
  | deleteRole (name : String)
  | updateRolePermissions (name : String) (permissions : List String)
  deriving DecidableEq, Repr

namespace Operation

/-- The account an operation is about. -/
def target : Operation → Option Uuid
  | .login u _ | .changePassword u _ | .resetPassword u _ | .verifyEmail u | .updateUserRoles u _ | .activateUser u
  | .deactivateUser u | .deleteUser u => some u
  | .deleteRole _ | .updateRolePermissions _ _ => none

/-- The role an operation is about. -/
def roleName : Operation → Option String
  | .deleteRole name | .updateRolePermissions name _ => some name
  | _ => none

/-- What the operation sets in the row of its account. -/
def set (op : Operation) (a : Account) : Account :=
  match op with
  | .changePassword _ hash | .resetPassword _ hash => { a with passwordHash := hash }
  | .verifyEmail _ => { a with emailVerified := true }
  | .activateUser _ => { a with isActive := true }
  | .deactivateUser _ => { a with isActive := false }
  | _ => a

/-- Whether the operation leaves the account `admin:all`: only new roles can (`would_keep_admin`). -/
def keepsAdmin (op : Operation) (roles : List Role) : Bool :=
  match op with
  | .updateUserRoles _ _ => roles.any (·.hasPermission adminAll)
  | _ => false

/-- Whether the operation leaves the role `admin:all`. -/
def keepsGranting : Operation → Bool
  | .updateRolePermissions _ permissions => decide (adminAll ∈ permissions)
  | _ => false

end Operation

/-- What a flush goes on with. -/
inductive Rest
  | commit
  | findDefault (wearers : List Uuid)
  | putBack (fallback : Uuid) (wearers : List Uuid)
  deriving DecidableEq, Repr

/-- A call of `save`: the account as it was read, and the columns and roles to be written. -/
structure Save where
  u : Uuid
  was : Entity
  account : Account
  roles : List Uuid
  rest : Rest
  deriving DecidableEq, Repr

/-- The point an operation has reached, named after the statement that is next. -/
inductive Pc
  -- `resolve_roles`
  | resolving (names : List String) (half : Option (Uuid × RoleRow)) (found : List Role)
  -- `is_administrator`, and `require_administrator_remains`
  | inspecting (roles : List Role) (load : Load)
  | locking (roles : List Role)
  | counting (roles : List Role)
  -- `find_by_id` of the entity that is then changed
  | loading (roles : List Role) (load : Load)
  -- `SQLAlchemyUserRepository.save`: `session.get`, its collection of roles, the roles to wear, the flush
  | saving (save : Save)
  | syncing (save : Save) (row : Option Account)
  | attaching (save : Save) (row : Option Account) (reread left : List Uuid)
  | flushing (todo : List Write) (rest : Rest)
  -- `SQLAlchemyUserRepository.delete`, `record_login`
  | gettingUser
  | gettingRoles
  | recordingLogin
  -- `require_administrator_survives_without`
  | findingRole (half : Option (Uuid × RoleRow))
  | lockingRole (role : Role)
  | countingRole (role : Role)
  | listingWearers (role : Role)
  -- the services and the role repository
  | findingAgain (wearers : List Uuid) (half : Option (Uuid × RoleRow))
  | gettingRole (role : Role) (wearers : List Uuid)
  | gettingGrants (role : Role) (row : Option RoleRow) (wearers : List Uuid)
  | gettingUsers (role : Role) (grants : List String) (wearers : List Uuid)
  -- `_put_the_bare_ones_back`
  | findingDefault (wearers : List Uuid) (half : Option (Uuid × RoleRow))
  | puttingBack (fallback : Uuid) (wearers : List Uuid) (load : Load)
  | reloading (fallback u : Uuid) (wearers : List Uuid) (load : Load)
  | committing
  | ended
  deriving DecidableEq, Repr

def Rest.pc : Rest → Pc
  | .commit => .committing
  | .findDefault wearers => .findingDefault wearers none
  | .putBack fallback wearers => .puttingBack fallback wearers .nothing

/-- A transaction: its operation, what its count of administrators left out, and the role it changes. -/
structure Proc where
  op : Operation
  counted : Option Excluded
  role : Option Uuid
  pc : Pc
  deriving DecidableEq, Repr

namespace Proc

/-- The same transaction at another point. -/
def at_ (p : Proc) (pc : Pc) : Proc := { p with pc := pc }

/-- The transaction has ended. -/
def done (p : Proc) : Proc := ⟨p.op, none, none, .ended⟩

/-- A transaction that has not begun. -/
def begin (op : Operation) : Proc where
  op := op
  counted := none
  role := none
  pc := match op with
    | .login .. | .changePassword .. | .resetPassword .. | .verifyEmail .. | .activateUser .. => .loading [] .nothing
    | .updateUserRoles _ names => .resolving names none []
    | .deactivateUser .. | .deleteUser .. => .inspecting [] .nothing
    | .deleteRole .. | .updateRolePermissions .. => .findingRole none

end Proc

/-- What a transaction does next: no memory outside the database, one advisory lock, on the administrator set. -/
abbrev Act := Action Unit Value Unit Proc

section Steps

variable (defaultRoleName : String) (sn : Snapshot) (p : Proc)

/-- After the guard, the account is read to be changed, or removed. -/
def guarded (roles : List Role) : Pc :=
  match p.op with
  | .deleteUser _ => .gettingUser
  | _ => .loading roles .nothing

/-- What is done with the account that was read. -/
def change (u : Uuid) (roles : List Role) (e : Entity) : Act :=
  match p.op with
  | .login _ _ => if e.account.isActive && e.account.emailVerified then .goto (p.at_ .recordingLogin) else .rollback p.done
  | .resetPassword _ _ =>
    if e.account.isActive then .goto (p.at_ (.saving ⟨u, e, p.op.set e.account, e.roles, .commit⟩)) else .rollback p.done
  | .updateUserRoles _ _ =>
    if roles.isEmpty then .rollback p.done
    else .goto (p.at_ (.saving ⟨u, e, e.account, roles.map (·.id), .commit⟩))
  | _ => .goto (p.at_ (.saving ⟨u, e, p.op.set e.account, e.roles, .commit⟩))

/-- The statements about the account `u` of the operation. -/
def nextOnAccount (u : Uuid) : Pc → Act
  | .inspecting roles load =>
    match findById sn u load with
    | none => .goto (p.at_ (guarded p roles))
    | some (.inl load) => .goto (p.at_ (.inspecting roles load))
    | some (.inr e) =>
      if decide (adminAll ∈ e.permissions) && !p.op.keepsAdmin roles then .goto (p.at_ (.locking roles))
      else .goto (p.at_ (guarded p roles))
  | .locking roles => .lock () (p.at_ (.counting roles))
  | .counting roles =>
    if 0 < sn.countActiveWithPermission adminAll (some (.user u)) then
      .goto { p.at_ (guarded p roles) with counted := some (.user u) }
    else .rollback p.done
  | .loading roles load =>
    match findById sn u load with
    | none => .rollback p.done
    | some (.inl load) => .goto (p.at_ (.loading roles load))
    | some (.inr e) => change p u roles e
  | .gettingUser => if sn.has (.user u) then .goto (p.at_ .gettingRoles) else .rollback p.done
  | .gettingRoles => .goto (p.at_ (.flushing ((sn.rolesOf u).map (.unwear u) ++ [.deleteUser u]) .commit))
  | .recordingLogin =>
    match sn.row (.user u), p.op with
    | some a, .login _ when => .write (.user u) (some { a with lastLogin := some when }) (p.at_ .committing)
    | _, _ => .goto (p.at_ .committing)
  | _ => .rollback p.done

/-- The statements about the role `name` of the operation. -/
def nextOnRole (name : String) : Pc → Act
  | .findingRole half =>
    match getByName sn name half with
    | none => .goto (p.at_ (.findingAgain [] none))
    | some (.inl half) => .goto (p.at_ (.findingRole (some half)))
    | some (.inr role) =>
      if !role.isSystem && role.hasPermission adminAll && !p.op.keepsGranting then .goto (p.at_ (.lockingRole role))
      else .goto (p.at_ (.listingWearers role))
  | .lockingRole role => .lock () (p.at_ (.countingRole role))
  | .countingRole role =>
    if 0 < sn.countActiveWithPermission adminAll (some (.role role.id)) then
      .goto { p.at_ (.listingWearers role) with counted := some (.role role.id) }
    else .rollback p.done
  | .listingWearers role => .goto (p.at_ (.findingAgain (sn.idsWithRole role.id) none))
  | .findingAgain wearers half =>
    match getByName sn name half with
    | none => .rollback p.done
    | some (.inl half) => .goto (p.at_ (.findingAgain wearers (some half)))
    | some (.inr role) =>
      if role.isSystem then .rollback p.done
      else .goto { p.at_ (.gettingRole role wearers) with role := some role.id }
  | .gettingRole role wearers =>
    match sn.row (.role role.id), p.op with
    | none, .deleteRole _ => .goto (p.at_ (.findingDefault wearers none))
    | row, _ => .goto (p.at_ (.gettingGrants role row wearers))
  | .gettingGrants role row wearers =>
    match p.op with
    | .updateRolePermissions _ permissions =>
      .goto (p.at_ (.flushing (saveRoleWrites role permissions.dedup row
        (if row.isSome then sn.permissionsOf role.id else [])) .commit))
    | _ => .goto (p.at_ (.gettingUsers role (sn.permissionsOf role.id) wearers))
  | .gettingUsers role grants wearers =>
    .goto (p.at_ (.flushing
      (grants.map (.ungrant role.id) ++ (sn.idsWithRole role.id).map (.unwear · role.id) ++ [.deleteRole role.id])
      (.findDefault wearers)))
  | _ => .rollback p.done

/-- The statements that are the same for all operations. -/
def nextShared : Pc → Option Act
  | .resolving [] _ found =>
    if found.any fun role => decide (role.name = guestRoleName) then some (.rollback p.done)
    else some (.goto (p.at_ (.inspecting found .nothing)))
  | .resolving (name :: names) half found =>
    match getByName sn name half with
    | none => some (.rollback p.done)
    | some (.inl half) => some (.goto (p.at_ (.resolving (name :: names) (some half) found)))
    | some (.inr role) =>
      some (.goto (p.at_ (.resolving names none
        (if found.any fun role' => decide (role'.id = role.id) then found else found ++ [role]))))
  | .saving save => some (.goto (p.at_ (.syncing save (sn.row (.user save.u)))))
  | .syncing save row =>
    some (.goto (p.at_ (.attaching save row (if row.isSome then sn.rolesOf save.u else []) save.roles)))
  | .attaching save row reread [] =>
    some (.goto (p.at_ (.flushing (saveWrites save.u save.account save.roles row reread) save.rest)))
  | .attaching save row reread (r :: left) =>
    -- a role of the collection that was read again is in the identity map
    if decide (r ∈ reread) || sn.has (.role r) then some (.goto (p.at_ (.attaching save row reread left)))
    else match save.rest with
      -- `RoleNotFoundError`, caught when an account is put back: the columns set so far are still flushed
      | .putBack .. => some (.goto (p.at_ (.flushing (saveWrites save.u save.account [] row reread) save.rest)))
      | _ => some (.rollback p.done)
  | .flushing [] rest => some (.goto (p.at_ rest.pc))
  | .flushing (w :: todo) rest =>
    match w.effect sn with
    | none => some (.rollback p.done)
    | some c => some (.write c.key c.value (p.at_ (.flushing (if c.last then todo else w :: todo) rest)))
  | .findingDefault [] _ => some (.goto (p.at_ .committing))
  | .findingDefault wearers half =>
    match getByName sn defaultRoleName half with
    | none => some (.goto (p.at_ .committing))
    | some (.inl half) => some (.goto (p.at_ (.findingDefault wearers (some half))))
    | some (.inr role) =>
      -- a role nobody may wear is refused for every account, and the refusals are caught
      if role.name = guestRoleName then some (.goto (p.at_ .committing))
      else some (.goto (p.at_ (.puttingBack role.id wearers .nothing)))
  | .puttingBack _ [] _ => some (.goto (p.at_ .committing))
  | .puttingBack fallback (u :: wearers) load =>
    match findById sn u load with
    | none => some (.goto (p.at_ (.puttingBack fallback wearers .nothing)))
    | some (.inl load) => some (.goto (p.at_ (.puttingBack fallback (u :: wearers) load)))
    | some (.inr e) =>
      if e.roles.isEmpty then some (.goto (p.at_ (.reloading fallback u wearers .nothing)))
      else some (.goto (p.at_ (.puttingBack fallback wearers .nothing)))
  | .reloading fallback u wearers load =>
    match findById sn u load with
    | none => some (.goto (p.at_ (.puttingBack fallback wearers .nothing)))
    | some (.inl load) => some (.goto (p.at_ (.reloading fallback u wearers load)))
    | some (.inr e) => some (.goto (p.at_ (.saving ⟨u, e, e.account, [fallback], .putBack fallback wearers⟩)))
  | .committing => some (.commit p.done)
  | _ => none

/-- **The next statement of a transaction**; `none` when it has ended. -/
def next : Option Act :=
  match p.pc with
  | .ended => none
  | pc => some ((nextShared defaultRoleName sn p pc).getD
      (match p.op.target, p.op.roleName with
        | some u, _ => nextOnAccount sn p u pc
        | none, some name => nextOnRole sn p name pc
        | none, none => .rollback p.done))

end Steps

/-! ## The system -/

inductive Event (T : Type)
  /-- The next statement of a transaction. -/
  | next (t : T)
  /-- The transaction is refused or interrupted, and rolls back. -/
  | fail (t : T)
  deriving DecidableEq, Repr

/-- The database, the holder of the administrator-set lock, and the transactions. -/
abbrev System (T : Type) := State T Unit Value Unit Proc

variable {T : Type} [DecidableEq T]

/-- **One step of the system.** -/
def step (defaultRoleName : String) (s : System T) : Event T → Option (System T)
  | .next t => (next defaultRoleName (seenBy s.store t) (s.procs t)).bind (act s t)
  | .fail t => if (s.procs t).pc = .ended then none else act s t (.rollback (s.procs t).done)

/-- A database at rest, with one operation for each transaction and none of them begun. -/
def AtRest (s : System T) : Prop :=
  (∀ t k, s.store.dirtyBy t k = none) ∧ s.locks () = none ∧ ∀ t, ∃ op, s.procs t = Proc.begin op

/-- `n` statements of one transaction. -/
def statements {T : Type} (t : T) (n : Nat) : List (Event T) := List.replicate n (.next t)

end LinkShortener.Accounts
