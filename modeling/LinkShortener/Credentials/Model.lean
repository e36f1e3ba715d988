import LinkShortener.Accounts.Model
import LinkShortener.Lib.Statements
import LinkShortener.Sessions.Model

/-!
# Passwords, sessions and mailed links under READ COMMITTED

The tables `users`, `refresh_sessions`, `password_resets` and `email_verifications`, and the use cases that open, renew
and retire what lets somebody into an account, statement by statement. Any number of them run at once.

* `Key`, `Value`: the rows. `invalidateForUser`, `revokeAllForUser`, `revokeChain`: the statements over many rows.
* `Operation` is a use case, `Pc` the point it has reached, `next` its next statement. A login compares the password,
  notes the sign-in and opens the session in three transactions, and a password change opens the caller's session in a
  transaction of its own; everything else is one transaction.
* `step`: a step of the system. The clock is read anew at each statement and may stand anywhere.

The roles of an account are left out, and so are the foreign keys: a row may outlive its account here. An account is
named where the code looks it up by its address, and a mailed link by the digest of its token. Refusals that depend on
the caller (`require_may_act_on_user`, the last administrator, a spent failure budget), deadlocks and lost connections
are the event `fail`, possible at any point. bcrypt and the password policy are parameters.
-/

namespace LinkShortener.Credentials

open ReadCommitted Transactions
open Accounts (Account Delta)
open Sessions (RefreshSession Payload validateToken)

/-! ## Rows -/

/-- What a mailed link is for. -/
inductive Kind | reset | verification
  deriving DecidableEq, Repr

/-- The digest of a mailed token. -/
abbrev TokenHash := Nat

/-- A session is filed under its account and its `token_id`, a mailed token under its digest. -/
inductive Key
  | user (u : Uuid)
  | session (u tokenId : Uuid)
  | token (kind : Kind) (hash : TokenHash)
  deriving DecidableEq, Repr

/-- A session of the account `u`. `origin` is no column: it remembers how much had been committed when the password was
compared that the session stems from. -/
structure Session (u : Uuid) where
  row : RefreshSession
  owner : row.userId = u
  origin : Nat
  deriving DecidableEq, Repr

/-- A `password_resets` or `email_verifications` row. `issued` is no column: it remembers how much had been committed
when the token was issued. -/
structure Token where
  userId : Uuid
  expiresAt : Instant
  createdAt : Instant
  usedAt : Option Instant
  issued : Nat
  deriving DecidableEq, Repr

/-- What is stored under a key. -/
abbrev Value : Key → Type
  | .user _ => Account
  | .session u _ => Session u
  | .token _ _ => Token

namespace Session

variable {u : Uuid}

def create (u tokenId : Uuid) (expiresAt createdAt : Instant) (chainId : Option Uuid) (origin : Nat) : Session u :=
  ⟨RefreshSession.create u tokenId expiresAt createdAt chainId, rfl, origin⟩

def revoke (now : Instant) (r : Session u) : Session u := ⟨{ r.row with revokedAt := some now }, r.owner, r.origin⟩

def replace (new : Uuid) (r : Session u) : Session u := ⟨{ r.row with replacedBy := some new }, r.owner, r.origin⟩

end Session

namespace Token

/-- `PasswordReset.issue`. -/
def issue (userId : Uuid) (ttl : Int) (now : Instant) (issued : Nat) : Token := ⟨userId, now + ttl, now, none, issued⟩

def spend (now : Instant) (tok : Token) : Token := { tok with usedAt := some now }

/-- Neither spent nor expired. -/
def isUsable (now : Instant) (tok : Token) : Bool := tok.usedAt.isNone && decide (now < tok.expiresAt)

end Token

/-! ## Statements over many rows -/

/-- `WHERE user_id AND used_at IS NULL`, of `password_resets`. -/
def unspentOf (u : Uuid) : (k : Key) → Value k → Bool
  | .token .reset _ => fun tok => decide (tok.userId = u) && tok.usedAt.isNone
  | _ => fun _ => false

/-- `WHERE user_id AND revoked_at IS NULL`, of `refresh_sessions`. -/
def unrevokedOf (u : Uuid) : (k : Key) → Value k → Bool
  | .session u' _ => fun r => decide (u' = u) && r.row.revokedAt.isNone
  | _ => fun _ => false

def retire (now : Instant) : (k : Key) → Value k → Option (Value k)
  | .token _ _ => fun tok => some (tok.spend now)
  | .session _ _ => fun r => some (r.revoke now)
  | .user _ => fun a => some a

def invalidateForUser (u : Uuid) (now : Instant) : Stmt Value := ⟨unspentOf u, retire now⟩

def revokeAllForUser (u : Uuid) (now : Instant) : Stmt Value := ⟨unrevokedOf u, retire now⟩

/-- `UPDATE … SET revoked_at WHERE chain_id AND revoked_at IS NULL`. -/
def revokeChain (chain : Uuid) (now : Instant) : Stmt Value where
  cond
    | .session _ _ => fun r => decide (r.row.chainId = chain) && r.row.revokedAt.isNone
    | _ => fun _ => false
  set := retire now

/-! ## Operations and the points they reach -/

inductive Operation
  | login (u : Uuid) (password : String)
  | refreshAccessToken (token : Option Payload)
  | changePassword (u : Uuid) (current new : String)
  | resetPassword (hash : TokenHash) (new : String)
  | deactivateUser (u : Uuid)
  | requestPasswordReset (u : Uuid)
  | verifyEmail (hash : TokenHash)
  | deleteUser (u : Uuid)
  deriving DecidableEq, Repr

/-- The mailed token an operation presents. -/
def Operation.presents : Operation → Option (Kind × TokenHash)
  | .resetPassword hash _ => some (.reset, hash)
  | .verifyEmail hash => some (.verification, hash)
  | _ => none

/-- The flush of a saved account. -/
inductive Flush
  | nothing
  | update (δ : Delta)
  | insert (a : Account)
  deriving DecidableEq, Repr

/-- The point an operation has reached, named after the statement that is next. An `UPDATE` under way keeps the rows of
its snapshot it has not yet come to. `origin`, `asOf`, `since` and `issued` remember how much had been committed at an
earlier statement: when the password was compared, when a statement took its snapshot, when the token was issued. -/
inductive Pc
  -- `LoginUseCase.execute`
  | authenticate (u : Uuid) (password : String)
  | recordLogin (u : Uuid) (origin : Nat)
  | recordedLogin (u : Uuid) (origin : Nat)
  -- `create_session_tokens`
  | openSession (u : Uuid) (origin : Nat)
  | opened (u tokenId : Uuid) (origin : Nat)
  -- `refresh_access_token`
  | findSession (token : Option Payload)
  | loadUser (u tokenId chain : Uuid)
  | claimForRotation (u tokenId new chain : Uuid) (expiresAt : Instant)
  | rotate (u tokenId new chain : Uuid) (expiresAt : Instant) (origin : Nat)
  | rotated (u tokenId new : Uuid) (origin : Nat)
  | revokeChain (chain : Uuid)
  | revokingChain (chain : Uuid) (now : Instant) (todo : List Key)
  -- `claim` of a mailed token
  | findOwner
  | claim (owner : Uuid) (now : Instant)
  -- `find_by_id` of the account that is then changed, and `SQLAlchemyUserRepository.save`
  | findById (u : Uuid)
  | save (u : Uuid) (entity : Account)
  | flush (u : Uuid) (w : Flush)
  | confirmed
  -- `invalidate_for_user` and what follows it
  | findByEmail (u : Uuid)
  | invalidate (u : Uuid)
  | invalidating (u : Uuid) (asOf : Nat) (now : Instant) (todo : List Key)
  | issue (u : Uuid) (asOf : Nat)
  | issued (u : Uuid) (hash : TokenHash) (asOf issued : Nat)
  -- `revoke_all_for_user`
  | revoke (u : Uuid) (since : Option Nat)
  | revoking (u : Uuid) (since : Option Nat) (asOf : Nat) (now : Instant) (todo : List Key)
  -- `SQLAlchemyUserRepository.delete`
  | getUser (u : Uuid)
  | deleting (u : Uuid)
  | deleted
  | done
  /-- It has raised, or has answered with nothing. -/
  | refused
  deriving DecidableEq, Repr

def Pc.ended : Pc → Bool
  | .done | .refused => true
  | _ => false

/-- An execution of a use case. -/
structure Proc where
  op : Operation
  pc : Pc
  deriving DecidableEq, Repr

namespace Proc

/-- The same execution at another point. -/
def at_ (p : Proc) (pc : Pc) : Proc := { p with pc := pc }

/-- An execution that has not begun. -/
def begin (op : Operation) : Proc where
  op := op
  pc := match op with
    | .login u password => .authenticate u password
    | .refreshAccessToken token => .findSession token
    | .changePassword u _ _ | .deactivateUser u => .findById u
    | .resetPassword _ _ | .verifyEmail _ => .findOwner
    | .requestPasswordReset u => .findByEmail u
    | .deleteUser u => .getUser u

end Proc

abbrev Act := Action Empty Value Unit Proc

/-! ## The next statement -/

/-- What a statement is given from outside: the clock, what is drawn at random, and the row an `UPDATE` comes to. -/
structure Input where
  now : Instant
  fresh : Nat
  pick : Key
  deriving DecidableEq, Repr

/-- What a statement sees. `moment` is how much has been committed. -/
structure Seen extends Input where
  row : (k : Key) → Option (Value k)
  keys : List Key
  moment : Nat

structure Config where
  verifyPassword : (plain hashed : String) → Bool
  /-- `none` when the policy refuses the password. -/
  hashPassword : (salt : Nat) → (plain : String) → Option String
  refreshExpire : Int
  resetTtl : Int

section Next

variable (cfg : Config) (v : Seen) (p : Proc)

/-- The snapshot of a statement. -/
def Seen.targets (u : Stmt Value) : List Key := v.keys.filter fun k => (v.row k).any (u.cond k)

/-- The work of a statement on one of the rows it has not come to. -/
def work (u : Stmt Value) (todo : List Key) (pc : List Key → Pc) : Option Act :=
  if v.pick ∈ todo then
    match (v.row v.pick).filter (u.cond v.pick) with
    | some row => some (.write v.pick (u.set v.pick row) (p.at_ (pc (todo.erase v.pick))))
    | none => some (.goto (p.at_ (pc (todo.erase v.pick))))
  else none

/-- `INSERT` under a key that is drawn at random: one that was ever taken is refused. -/
def insertRow (k : Key) (row : Value k) (pc : Pc) : Act :=
  if k ∈ v.keys then .rollback (p.at_ .refused) else .write k (some row) (p.at_ pc)

/-- The hash `update_password` sets. -/
def updatePassword (new : String) (a : Account) : Option Account :=
  if new = "" then none else (cfg.hashPassword v.fresh new).map fun hash => { a with passwordHash := hash }

/-- What an operation makes of the account it has read; `none` when it refuses. -/
def change (a : Account) : Option Account :=
  match p.op with
  | .changePassword _ current new =>
    if !cfg.verifyPassword current a.passwordHash then none
    else if cfg.verifyPassword new a.passwordHash then none
    else updatePassword cfg v new a
  | .resetPassword _ new => if a.isActive then updatePassword cfg v new a else none
  | .verifyEmail _ => some { a with emailVerified := true }
  | .deactivateUser _ => some { a with isActive := false }
  | _ => none

/-- What a flush writes: the columns in which the account differs from the row that was read again, or a new row. -/
def flushOf (entity : Account) : Option Account → Flush
  | some row => if entity = row then .nothing else .update (.between entity row)
  | none => .insert entity

/-- What follows the flush of the account. -/
def afterSave (u : Uuid) : Pc :=
  match p.op with
  | .changePassword _ _ _ | .resetPassword _ _ => .invalidate u
  | .deactivateUser _ => .revoke u none
  | _ => .confirmed

/-- What follows `invalidate_for_user`. -/
def afterInvalidate (u : Uuid) (asOf : Nat) : Pc :=
  match p.op with
  | .requestPasswordReset _ => .issue u asOf
  | _ => .revoke u (some asOf)

/-- What follows the commit of a change: `ChangePassword` opens the session of its caller. -/
def afterChange (u : Uuid) : Pc :=
  match p.op with
  | .changePassword _ _ _ => .openSession u (v.moment + 1)
  | _ => .done

/-- What a refresh does with the session its token names. -/
def refreshFound (u tokenId : Uuid) : Option (Session u) → Act
  | none => .rollback (p.at_ .refused)
  | some r =>
    if r.row.isUsable v.now then .goto (p.at_ (.loadUser u tokenId r.row.chainId))
    else if r.row.replacedBy.isSome then .goto (p.at_ (.revokeChain r.row.chainId))
    else .rollback (p.at_ .refused)

/-- Whether `ON DELETE CASCADE` takes the row with the account. -/
def hangsOn (u : Uuid) : (k : Key) → Value k → Bool
  | .session u' _ => fun _ => decide (u' = u)
  | .token _ _ => fun tok => decide (tok.userId = u)
  | .user _ => fun _ => false

def nextSession : Pc → Option Act
  | .authenticate u password =>
    match v.row (.user u) with
    | some a =>
      if cfg.verifyPassword password a.passwordHash && a.isActive && a.emailVerified then
        some (.goto (p.at_ (.recordLogin u v.moment)))
      else some (.rollback (p.at_ .refused))
    | none => some (.rollback (p.at_ .refused))
  | .recordLogin u origin =>
    match v.row (.user u) with
    | some a => some (.write (.user u) (some { a with lastLogin := some v.now }) (p.at_ (.recordedLogin u origin)))
    | none => some (.goto (p.at_ (.recordedLogin u origin)))
  | .recordedLogin u origin => some (.commit (p.at_ (.openSession u origin)))
  | .openSession u origin =>
    some (insertRow v p (.session u v.fresh) (.create u v.fresh (v.now + cfg.refreshExpire) v.now none origin)
      (.opened u v.fresh origin))
  | .opened _ _ _ => some (.commit (p.at_ .done))
  | .findSession token =>
    match validateToken token .refresh with
    | some ⟨some u, _, some tokenId⟩ => some (refreshFound v p u tokenId (v.row (.session u tokenId)))
    | _ => some (.rollback (p.at_ .refused))
  | .loadUser u tokenId chain =>
    match v.row (.user u) with
    | some a =>
      if a.isActive then some (.goto (p.at_ (.claimForRotation u tokenId v.fresh chain (v.now + cfg.refreshExpire))))
      else some (.rollback (p.at_ .refused))
    | none => some (.rollback (p.at_ .refused))
  | .claimForRotation u tokenId new chain expiresAt =>
    match (v.row (.session u tokenId)).filter fun r => r.row.isUsable v.now with
    | some r =>
      some (.write (.session u tokenId) (some (r.replace new)) (p.at_ (.rotate u tokenId new chain expiresAt r.origin)))
    | none => some (.rollback (p.at_ .refused))
  | .rotate u tokenId new chain expiresAt origin =>
    some (insertRow v p (.session u new) (.create u new expiresAt v.now (some chain) origin)
      (.rotated u tokenId new origin))
  | .rotated _ _ _ _ => some (.commit (p.at_ .done))
  | .revokeChain chain =>
    some (.goto (p.at_ (.revokingChain chain v.now (v.targets (Credentials.revokeChain chain v.now)))))
  -- The replay is reported by an error, after the commit.
  | .revokingChain _ _ [] => some (.commit (p.at_ .refused))
  | .revokingChain chain now todo => work v p (Credentials.revokeChain chain now) todo (.revokingChain chain now)
  | _ => none

/-- `claim`: the owner is read, and then the token is spent if it can be. -/
def nextClaim (kind : Kind) (hash : TokenHash) : Pc → Option Act
  | .findOwner =>
    match v.row (.token kind hash) with
    | some tok => some (.goto (p.at_ (.claim tok.userId v.now)))
    | none => some (.rollback (p.at_ .refused))
  | .claim owner now =>
    match (v.row (.token kind hash)).filter (Token.isUsable now) with
    | some tok => some (.write (.token kind hash) (some (tok.spend now)) (p.at_ (.findById owner)))
    | none => some (.rollback (p.at_ .refused))
  | _ => none

def nextAccount : Pc → Option Act
  | .findById u =>
    match (v.row (.user u)).bind (change cfg v p) with
    | some a => some (.goto (p.at_ (.save u a)))
    | none => some (.rollback (p.at_ .refused))
  | .save u entity => some (.goto (p.at_ (.flush u (flushOf entity (v.row (.user u))))))
  | .flush u .nothing => some (.goto (p.at_ (afterSave p u)))
  | .flush u (.update δ) =>
    match v.row (.user u) with
    | some a => some (.write (.user u) (some (δ.apply a)) (p.at_ (afterSave p u)))
    | none => some (.rollback (p.at_ .refused))
  | .flush u (.insert a) =>
    match v.row (.user u) with
    | some _ => some (.rollback (p.at_ .refused))
    | none => some (.write (.user u) (some a) (p.at_ (afterSave p u)))
  | .confirmed => some (.commit (p.at_ .done))
  | .findByEmail u =>
    match v.row (.user u) with
    | some a =>
      if a.isActive && a.emailVerified then some (.goto (p.at_ (.invalidate u))) else some (.rollback (p.at_ .done))
    | none => some (.rollback (p.at_ .done))
  | .invalidate u => some (.goto (p.at_ (.invalidating u v.moment v.now (v.targets (invalidateForUser u v.now)))))
  | .invalidating u asOf _ [] => some (.goto (p.at_ (afterInvalidate p u asOf)))
  | .invalidating u asOf now todo => work v p (invalidateForUser u now) todo (.invalidating u asOf now)
  | .issue u asOf =>
    some (insertRow v p (.token .reset v.fresh) (.issue u cfg.resetTtl v.now v.moment) (.issued u v.fresh asOf v.moment))
  | .issued _ _ _ _ => some (.commit (p.at_ .done))
  | .revoke u since =>
    some (.goto (p.at_ (.revoking u since v.moment v.now (v.targets (revokeAllForUser u v.now)))))
  | .revoking u _ _ _ [] => some (.commit (p.at_ (afterChange v p u)))
  | .revoking u since asOf now todo => work v p (revokeAllForUser u now) todo (.revoking u since asOf now)
  | .getUser u =>
    match v.row (.user u) with
    | some _ => some (.goto (p.at_ (.deleting u)))
    | none => some (.rollback (p.at_ .refused))
  | .deleting u =>
    match v.keys.find? fun k => (v.row k).any (hangsOn u k) with
    | some k => some (.write k none (p.at_ (.deleting u)))
    | none =>
      match v.row (.user u) with
      | some _ => some (.write (.user u) none (p.at_ .deleted))
      | none => some (.rollback (p.at_ .refused))
  | .deleted => some (.commit (p.at_ .done))
  | _ => none

/-- **The next statement of an execution**; `none` when there is none, or it has to wait. -/
def next : Option Act :=
  ((p.op.presents.bind fun x => nextClaim v p x.1 x.2 p.pc).or (nextSession cfg v p p.pc)).or (nextAccount cfg v p p.pc)

end Next

/-! ## The system -/

inductive Event (T : Type)
  /-- The next statement of an execution. -/
  | step (t : T) (input : Input)
  /-- The execution is refused or interrupted, and rolls back. -/
  | fail (t : T)

/-- Whose step it is. -/
def Event.proc {T : Type} : Event T → T
  | .step t _ | .fail t => t

/-- What has been committed. -/
inductive Entry
  | opened (u tokenId : Uuid)
  | passwordChanged (u : Uuid)
  | deactivated (u : Uuid)
  | requested (u : Uuid) (hash : TokenHash)
  deriving DecidableEq, Repr

/-- What the next commit of an execution is worth remembering for. -/
def Proc.publishes (p : Proc) : List Entry :=
  match p.pc with
  | .opened u tokenId _ => [.opened u tokenId]
  | .rotated u _ new _ => [.opened u new]
  | .issued u hash _ _ => [.requested u hash]
  | .revoking u (some _) _ _ [] => [.passwordChanged u]
  | .revoking u none _ _ [] => [.deactivated u]
  | _ => []

/-- The tables and the executions. `log` is no table: it remembers what has been committed, newest first. -/
structure System (T : Type) where
  state : State T Empty Value Unit Proc
  log : List Entry

section System

variable {T : Type} [DecidableEq T] (cfg : Config)

def seenBy (s : System T) (t : T) (input : Input) : Seen where
  toInput := input
  row := s.state.store.view t
  keys := s.state.store.keys
  moment := s.log.length

/-- What an execution does next. -/
def nextOf (s : System T) (t : T) (input : Input) : Option Act := next cfg (seenBy s t input) (s.state.procs t)

/-- **One step of the system.** -/
def step (s : System T) : Event T → Option (System T)
  | .step t input => ((nextOf cfg s t input).bind (act s.state t)).map fun state =>
    ⟨state, (s.state.procs t).publishes ++ s.log⟩
  | .fail t =>
    if (s.state.procs t).pc.ended then none
    else (act s.state t (.rollback ((s.state.procs t).at_ .refused))).map fun state => ⟨state, s.log⟩

/-- **What a step is**: a statement of an execution, or its end by a failure. -/
theorem step_cases {s s' : System T} {e : Event T} (h : step cfg s e = some s') :
    (∃ t input a, e = .step t input ∧ nextOf cfg s t input = some a ∧ act s.state t a = some s'.state ∧
      s'.log = (s.state.procs t).publishes ++ s.log) ∨
      (∃ t, e = .fail t ∧ (s.state.procs t).pc.ended = false ∧
        act s.state t (.rollback ((s.state.procs t).at_ .refused)) = some s'.state ∧ s'.log = s.log) := by
  cases e with
  | step t input =>
    obtain ⟨a, state, hnext, hact, rfl⟩ := take_some h
    exact .inl ⟨t, input, a, rfl, hnext, hact, rfl⟩
  | fail t =>
    obtain ⟨hended, state, hact, rfl⟩ := fail_some h
    exact .inr ⟨t, rfl, hended, hact, rfl⟩

/-- A database at rest, with one operation for each execution and none of them begun. -/
def AtRest (s : System T) : Prop :=
  (∀ t k, s.state.store.dirtyBy t k = none) ∧ ∀ t, ∃ op, s.state.procs t = Proc.begin op

end System

/-! ## A small system -/

section Sample

/-- A password is hashed by putting a sign before it, and refused when it is short. -/
def sampleConfig : Config where
  verifyPassword plain hashed := decide (hashed = "$" ++ plain)
  hashPassword _ plain := if plain.length < 8 then none else some ("$" ++ plain)
  refreshExpire := 1000
  resetTtl := 100

/-- One account, which has an open session and one reset link, and two executions. -/
def sampleSystem (first second : Operation) : System Bool where
  state := {
    store := Store.load [.user 1, .session 1 5, .token .reset 7] (by decide) fun
      | .user _ => some ⟨"$old password", true, true, none⟩
      | .session u tokenId => some (.create u tokenId 1000 0 none 0)
      | .token _ _ => some (.issue 1 100 0 0)
    locks := Empty.elim
    mem := ()
    procs := fun t => .begin (if t then second else first) }
  log := [.requested 1 7]

theorem sampleSystem_atRest (first second : Operation) : AtRest (sampleSystem first second) :=
  ⟨fun t k => Store.dirtyBy_load t k, fun _ => ⟨_, rfl⟩⟩

/-- `n` statements of one execution, which draw `fresh` and come to the row `pick`. -/
def statements (t : Bool) (n fresh : Nat) (pick : Key) : List (Event Bool) :=
  List.replicate n (.step t ⟨10, fresh, pick⟩)

end Sample

end LinkShortener.Credentials
