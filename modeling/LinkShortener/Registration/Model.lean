import LinkShortener.Lib.Run
import LinkShortener.Lib.Statements
import LinkShortener.Registration.Addresses

/-!
# Registering under READ COMMITTED

The tables `users`, filed under the address, which has a unique index, and `email_verifications`, filed under the digest of
the token. Any number of registrations and resends run at once, statement by statement, among transactions that write
whatever else is written to these tables.

* `Operation` is a use case, `Pc` the point it has reached, `next` its next statement. `RegisterUseCase` looks the address
  up, inserts the account and its token and commits; the message is handed to the queue afterwards. An insertion waits for
  whoever holds the address, and is refused when it is taken by then.
* `step`: a step of the system. `sent` is what was handed to the queue, newest first.

Whether the default role can be worn is asked at its statement and may change at any time. A role that goes away before the
associations are written, a lost connection and a logger that raises are the event `fail`, possible at any point. What the
queue answers is only logged. A stored address can be read: of a row that cannot, nothing is said.
-/

namespace LinkShortener.Registration

open ReadCommitted Transactions
open Urls (Str)

/-! ## Rows -/

/-- A `users` row. -/
structure Account where
  id : Uuid
  emailVerified : Bool
  deriving DecidableEq, Repr

/-- An `email_verifications` row. -/
structure EmailVerification where
  userId : Uuid
  expiresAt : Instant
  createdAt : Instant
  usedAt : Option Instant
  deriving DecidableEq, Repr

def EmailVerification.issue (userId : Uuid) (ttl : Int) (now : Instant) : EmailVerification :=
  ⟨userId, now + ttl, now, none⟩

inductive Key
  | account (email : Str)
  | verification (tokenHash : Nat)
  deriving DecidableEq, Repr

abbrev Value : Key → Type
  | .account _ => Account
  | .verification _ => EmailVerification

/-- `invalidate_for_user`. -/
def invalidateForUser (userId : Uuid) (now : Instant) : Stmt Value where
  cond
    | .verification _ => fun row => decide (row.userId = userId) && row.usedAt.isNone
    | .account _ => fun _ => false
  set
    | .verification _ => fun row => some { row with usedAt := some now }
    | .account _ => fun row => some row

/-! ## Operations and the points they reach -/

/-- `other` is any other transaction: the rows it writes, one after the other. -/
inductive Operation
  | register (email password : Str)
  | resendVerification (email : Str)
  | other (writes : List ((k : Key) × Option (Value k)))

/-- How an execution ends. The caller of a registration is told nothing but what is wrong with what they sent, and whether
registration is available. -/
inductive Outcome
  | invalid (e : DomainError)
  | unavailable
  | registered (email : Str) (token : Nat)
  | taken (email : Str)
  | sent (email : Str) (token : Nat)
  | nothingToSend
  | written
  | failed
  deriving DecidableEq, Repr

/-- The point an execution has reached, named after the statement that is next. `created` says that the account is one of
its own. -/
inductive Pc
  | begin
  | findByEmail (email : Str)
  | getDefaultRole (email : Str)
  | save (email : Str)
  | findUnverified (email : Str)
  | invalidate (email : Str) (userId : Uuid)
  | invalidating (email : Str) (userId : Uuid) (now : Instant) (todo : List Key)
  | saveVerification (created : Bool) (email : Str) (userId : Uuid)
  | saved (created : Bool) (email : Str) (userId : Uuid) (token : Nat)
  | enqueueVerificationEmail (created : Bool) (email : Str) (token : Nat)
  | enqueueAccountExistsEmail (email : Str)
  | writing (writes : List ((k : Key) × Option (Value k)))
  | ended (outcome : Outcome)

/-- An execution of a use case. -/
structure Proc where
  op : Operation
  pc : Pc

/-- The same execution at another point. -/
def Proc.at_ (p : Proc) (pc : Pc) : Proc := { p with pc := pc }

abbrev Act := Action Empty Value Unit Proc

/-! ## The next statement -/

/-- What a statement is given from outside: the clock, what is drawn at random, the row an `UPDATE` comes to, and whether
the default role is there and can be worn. -/
structure Input where
  now : Instant
  fresh : Nat
  pick : Key
  role : Bool
  deriving DecidableEq, Repr

/-- What a statement sees. `free` says of a row that no other transaction holds it. -/
structure Seen extends Input where
  row : (k : Key) → Option (Value k)
  free : Key → Bool
  keys : List Key

structure Config where
  lower : Str → Str
  commonPasswords : List Str
  tokenDigest : Nat → Nat
  verificationTtl : Int

/-- What is checked of a registration before anything is looked up. -/
def readRegistration (cfg : Config) (email password : Str) : Except DomainError Str :=
  match Email.parse cfg.lower email with
  | .error e => .error e
  | .ok address =>
    match validatePassword cfg.lower cfg.commonPasswords password with
    | some e => .error e
    | none => .ok address

section Next

variable (cfg : Config) (v : Seen) (p : Proc)

/-- The first statements of a use case. -/
def begin : Operation → Act
  | .register email password =>
    match readRegistration cfg email password with
    | .error e => .goto (p.at_ (.ended (.invalid e)))
    | .ok address => .goto (p.at_ (.findByEmail address))
  | .resendVerification email =>
    match Email.parse cfg.lower email with
    | .error e => .goto (p.at_ (.ended (.invalid e)))
    | .ok address => .goto (p.at_ (.findUnverified address))
  | .other writes => .goto (p.at_ (.writing writes))

/-- The work of `invalidate_for_user` on one of the rows it has not come to. -/
def invalidateNext (email : Str) (userId : Uuid) (now : Instant) (todo : List Key) : Option Act :=
  if v.pick ∈ todo then
    let rest := p.at_ (.invalidating email userId now (todo.erase v.pick))
    match (v.row v.pick).filter ((invalidateForUser userId now).cond v.pick) with
    | some row => some (.write v.pick ((invalidateForUser userId now).set v.pick row) rest)
    | none => some (.goto rest)
  else none

/-- **The next statement of an execution**; `none` when there is none, or it has to wait. -/
def next : Option Act :=
  match p.pc with
  | .begin => some (begin cfg p p.op)
  | .findByEmail email =>
    match v.row (.account email) with
    | some _ => some (.rollback (p.at_ (.enqueueAccountExistsEmail email)))
    | none => some (.goto (p.at_ (.getDefaultRole email)))
  | .getDefaultRole email =>
    if v.role then some (.goto (p.at_ (.save email))) else some (.rollback (p.at_ (.ended .unavailable)))
  | .save email =>
    if v.free (.account email) then
      match v.row (.account email) with
      -- The unique index refuses: the race for the address is lost.
      | some _ => some (.rollback (p.at_ (.enqueueAccountExistsEmail email)))
      | none => some (.write (.account email) (some ⟨v.fresh, false⟩) (p.at_ (.saveVerification true email v.fresh)))
    else none
  | .findUnverified email =>
    match v.row (.account email) with
    | some user =>
      if user.emailVerified then some (.rollback (p.at_ (.ended .nothingToSend)))
      else some (.goto (p.at_ (.invalidate email user.id)))
    | none => some (.rollback (p.at_ (.ended .nothingToSend)))
  | .invalidate email userId =>
    some (.goto (p.at_ (.invalidating email userId v.now
      (v.keys.filter fun k => (v.row k).any ((invalidateForUser userId v.now).cond k)))))
  | .invalidating email userId _ [] => some (.goto (p.at_ (.saveVerification false email userId)))
  | .invalidating email userId now todo => invalidateNext v p email userId now todo
  | .saveVerification created email userId =>
    let key := Key.verification (cfg.tokenDigest v.fresh)
    if key ∈ v.keys then some (.rollback (p.at_ (.ended .failed)))
    else some (.write key (some (.issue userId cfg.verificationTtl v.now)) (p.at_ (.saved created email userId v.fresh)))
  | .saved created email _ token => some (.commit (p.at_ (.enqueueVerificationEmail created email token)))
  | .enqueueVerificationEmail created email token =>
    some (.goto (p.at_ (.ended (if created then .registered email token else .sent email token))))
  | .enqueueAccountExistsEmail email => some (.goto (p.at_ (.ended (.taken email))))
  | .writing [] => some (.commit (p.at_ (.ended .written)))
  | .writing (⟨k, w⟩ :: rest) => some (.write k w (p.at_ (.writing rest)))
  | .ended _ => none

end Next

/-! ## The system -/

/-- What is mailed. A notice carries no token. -/
inductive Message
  | verification (email : Str) (token : Nat)
  | accountExists (email : Str)
  deriving DecidableEq, Repr

/-- What the next statement hands to the queue. -/
def Pc.sends : Pc → Option Message
  | .enqueueVerificationEmail _ email token => some (.verification email token)
  | .enqueueAccountExistsEmail email => some (.accountExists email)
  | _ => none

inductive Event (T : Type)
  /-- The next statement of an execution. -/
  | step (t : T) (input : Input)
  /-- The execution is interrupted, and rolls back. -/
  | fail (t : T)

structure System (T : Type) where
  state : State T Empty Value Unit Proc
  sent : List (T × Message)

section System

variable {T : Type} [DecidableEq T] (cfg : Config)

def seenBy (s : System T) (t : T) (input : Input) : Seen where
  toInput := input
  row := s.state.store.view t
  free := s.state.store.free t
  keys := s.state.store.keys

/-- What an execution does next. -/
def nextOf (s : System T) (t : T) (input : Input) : Option Act := next cfg (seenBy s t input) (s.state.procs t)

def Pc.hasEnded : Pc → Bool
  | .ended _ => true
  | _ => false

/-- **One step of the system.** -/
def step (s : System T) : Event T → Option (System T)
  | .step t input => ((nextOf cfg s t input).bind (act s.state t)).map fun state =>
    ⟨state, ((s.state.procs t).pc.sends.map (t, ·)).toList ++ s.sent⟩
  | .fail t =>
    if (s.state.procs t).pc.hasEnded then none
    else (act s.state t (.rollback ((s.state.procs t).at_ (.ended .failed)))).map fun state => ⟨state, s.sent⟩

/-- **What a step is**: a statement of an execution, or its end by a failure. -/
theorem step_cases {s s' : System T} {e : Event T} (h : step cfg s e = some s') :
    (∃ t input a, e = .step t input ∧ nextOf cfg s t input = some a ∧ act s.state t a = some s'.state ∧
      s'.sent = ((s.state.procs t).pc.sends.map (t, ·)).toList ++ s.sent) ∨
      (∃ t, e = .fail t ∧ (s.state.procs t).pc.hasEnded = false ∧
        act s.state t (.rollback ((s.state.procs t).at_ (.ended .failed))) = some s'.state ∧ s'.sent = s.sent) := by
  cases e with
  | step t input =>
    obtain ⟨a, state, hnext, hact, rfl⟩ := take_some h
    exact .inl ⟨t, input, a, rfl, hnext, hact, rfl⟩
  | fail t =>
    obtain ⟨hended, state, hact, rfl⟩ := fail_some h
    exact .inr ⟨t, rfl, hended, hact, rfl⟩

/-- A database at rest, with one operation for each execution and none of them begun. -/
structure AtRest (s : System T) : Prop where
  clean : ∀ t k, s.state.store.dirtyBy t k = none
  begin : ∀ t, (s.state.procs t).pc = .begin
  sent : s.sent = []

end System

end LinkShortener.Registration
