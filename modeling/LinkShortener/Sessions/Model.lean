import LinkShortener.Basic
import LinkShortener.Lib.Run
import LinkShortener.Lib.ReadCommitted

/-!
# Refresh sessions

The `refresh_sessions` table and the calls of `JwtAuthenticationService` that write it, statement by statement under
READ COMMITTED. The table is keyed by `token_id`, which is unique.

* `RefreshSession`, `RefreshSession.create`, `RefreshSession.isUsable`: the entity.
* `claimForRotation`, `revokeChain`, `deleteExpired`, `chainIsLive`: the statements of the repository.
* `Call` is a call of the service, `Proc` the point it has reached, `next` and `row` what it does from there.
* `step`: any call may take its next step, and any call that has not ended may fail and roll back.

The account a refresh belongs to is read from the `users` table, which anybody may write in between.
-/

namespace LinkShortener.Sessions

open ReadCommitted

/-! ## The entity and the statements -/

/-- One issued refresh token; its `token_id` is the key of the row. -/
structure RefreshSession where
  userId : Uuid
  chainId : Uuid
  expiresAt : Instant
  createdAt : Instant
  revokedAt : Option Instant
  replacedBy : Option Uuid
  deriving DecidableEq, Repr

namespace RefreshSession

/-- A session for a fresh token: it continues `chainId`, or starts a chain named after its own token. -/
def create (userId tokenId : Uuid) (expiresAt createdAt : Instant) (chainId : Option Uuid) : RefreshSession where
  userId := userId
  chainId := chainId.getD tokenId
  expiresAt := expiresAt
  createdAt := createdAt
  revokedAt := none
  replacedBy := none

/-- Neither revoked nor rotated. -/
def spendable (v : RefreshSession) : Bool := v.revokedAt.isNone && v.replacedBy.isNone

/-- Neither revoked, nor rotated, nor expired. -/
def isUsable (now : Instant) (v : RefreshSession) : Bool :=
  v.revokedAt.isNone && v.replacedBy.isNone && decide (now < v.expiresAt)

end RefreshSession

/-- The table, with one transaction for each of `n` calls. -/
abbrev Table (n : Nat) := Store (Fin n) (fun _ : Uuid => RefreshSession)

/-- `UPDATE … SET replaced_by WHERE token_id AND revoked_at IS NULL AND replaced_by IS NULL AND expires_at > now`. -/
def claimForRotation (tokenId replacement : Uuid) (now : Instant) : Stmt (fun _ : Uuid => RefreshSession) where
  cond k v := decide (k = tokenId) && v.isUsable now
  set _ v := some { v with replacedBy := some replacement }

/-- `UPDATE … SET revoked_at WHERE chain_id AND revoked_at IS NULL`. -/
def revokeChain (chainId : Uuid) (now : Instant) : Stmt (fun _ : Uuid => RefreshSession) where
  cond _ v := decide (v.chainId = chainId) && v.revokedAt.isNone
  set _ v := some { v with revokedAt := some now }

/-- `DELETE … WHERE expires_at < now`. -/
def deleteExpired (now : Instant) : Stmt (fun _ : Uuid => RefreshSession) where
  cond _ v := decide (v.expiresAt < now)
  set _ _ := none

/-- Whether the chain has a session that is neither revoked nor expired, in the committed state. -/
def chainIsLive {n : Nat} (S : Table n) (chainId : Uuid) (now : Instant) : Bool :=
  S.keys.any fun k => (S.committed k).any fun v =>
    decide (v.chainId = chainId) && v.revokedAt.isNone && decide (now < v.expiresAt)

/-! ## The calls -/

/-- The `type` claim. -/
inductive TokenType | access | refresh
  deriving DecidableEq, Repr

/-- What a token decodes to; `none` is an empty `sub` or no `jti`. -/
structure Payload where
  sub : Option Uuid
  type : TokenType
  jti : Option Uuid
  deriving DecidableEq, Repr

/-- The decoding of a token, with the type checked; `none` is a token that PyJWT refuses. -/
def validateToken (token : Option Payload) (expected : TokenType) : Option Payload :=
  token.filter fun payload => decide (payload.type = expected)

inductive Call
  | createSessionTokens (userId : Uuid)
  | refreshAccessToken (token : Option Payload)
  | revokeRefreshToken (token : Option Payload)
  | revokeSessionChain (chainId : Uuid)
  | deleteExpired
  deriving DecidableEq, Repr

/-- Which call revokes a chain, hence what it answers. -/
inductive Revoker | refreshToken | sessionChain | replay (userId : Uuid)
  deriving DecidableEq, Repr

inductive Outcome
  | refused
  | tokens (sid jti : Uuid)
  | replayed (userId chainId : Uuid)
  | found (revoked : Bool)
  | count (rows : Nat)
  | failed
  deriving DecidableEq, Repr

/-- What a committed revocation of `revoked` rows answers. -/
def Revoker.outcome (why : Revoker) (chain : Uuid) (revoked : Nat) : Outcome :=
  match why with
  | .refreshToken => .found (decide (0 < revoked))
  | .sessionChain => .count revoked
  | .replay userId => .replayed userId chain

/-- The point a call has reached. An `UPDATE` or `DELETE` under way keeps the rows of its snapshot it has not yet
come to and the number it has changed. -/
inductive Proc
  | ready (call : Call)
  | opening (userId new : Uuid) (expiresAt : Instant)
  | opened (new : Uuid)
  | loading (userId jti : Uuid) (session : RefreshSession)
  | minting (jti : Uuid) (session : RefreshSession)
  | toClaim (jti new : Uuid) (session : RefreshSession) (expiresAt : Instant)
  | claiming (jti new : Uuid) (session : RefreshSession) (expiresAt now : Instant) (todo : List Uuid) (claimed : Nat)
  | rotated (jti new : Uuid) (session : RefreshSession)
  | toRevoke (chain : Uuid) (why : Revoker)
  | revoking (chain : Uuid) (why : Revoker) (now : Instant) (todo : List Uuid) (revoked : Nat)
  | sweeping (now : Instant) (todo : List Uuid) (deleted : Nat)
  | done (outcome : Outcome)
  deriving DecidableEq, Repr

/-! ## The system -/

/-- The part of a `users` row that a refresh reads. -/
structure Account where
  isActive : Bool
  deriving DecidableEq, Repr

/-- The system with `n` calls. `used` are the identifiers handed out so far, `setBy` and `revoked` record what has
been committed: which transaction set `replaced_by` in which row, and which chains were revoked. -/
structure State (n : Nat) where
  sessions : Table n
  users : Uuid → Option Account
  used : List Uuid
  procs : Fin n → Proc
  setBy : List (Uuid × Fin n)
  revoked : List Uuid

inductive Event (n : Nat)
  /-- The next statement of a call, with the clock it reads and the UUID it draws. -/
  | next (i : Fin n) (now : Instant) (fresh : Uuid)
  /-- The statement under way works on one row. -/
  | row (i : Fin n) (k : Uuid)
  /-- The call is refused by the database or interrupted, and rolls back. -/
  | fail (i : Fin n)
  /-- Somebody writes a `users` row. -/
  | account (u : Uuid) (a : Option Account)

namespace State

variable {n : Nat}

/-- Call `i` goes on at `p`. -/
def goto (s : State n) (i : Fin n) (p : Proc) : State n := { s with procs := Function.update s.procs i p }

/-- Call `i` ends without having written anything. -/
def answer (s : State n) (i : Fin n) (o : Outcome) : State n := s.goto i (.done o)

/-- The rows whose `replaced_by` the commit of `i` sets. -/
def rotations (S : Table n) (i : Fin n) : List Uuid :=
  S.keys.filter fun k => match S.dirtyBy i k with
    | some (some v) => v.replacedBy.isSome && decide ((S.committed k).bind (·.replacedBy) ≠ v.replacedBy)
    | _ => false

/-- Call `i` commits. -/
def commit (s : State n) (i : Fin n) (o : Outcome) : State n :=
  { s.goto i (.done o) with
    sessions := s.sessions.commit i
    setBy := (rotations s.sessions i).map (·, i) ++ s.setBy }

/-- Call `i` rolls back. -/
def rollback (s : State n) (i : Fin n) (o : Outcome) : State n :=
  { s.goto i (.done o) with sessions := s.sessions.abort i }

end State

/-! ## One call, statement by statement -/

section Steps

variable {n : Nat} (refreshExpire : Int)

/-- What a refresh does with the session its token names. -/
def refreshFound (s : State n) (i : Fin n) (userId jti : Uuid) (now : Instant) : Option RefreshSession → State n
  | none => s.answer i .refused
  | some session =>
    if session.userId ≠ userId then s.answer i .refused
    else if session.isUsable now then s.goto i (.loading userId jti session)
    else if session.replacedBy.isSome then s.goto i (.toRevoke session.chainId (.replay userId))
    else s.answer i .refused

/-- The first statement of a call. -/
def begin (s : State n) (i : Fin n) (now : Instant) (fresh : Uuid) : Call → Option (State n)
  | .createSessionTokens userId =>
    if fresh ∈ s.used then none
    else some { s.goto i (.opening userId fresh (now + refreshExpire)) with used := fresh :: s.used }
  | .refreshAccessToken token =>
    match validateToken token .refresh with
    | some ⟨some userId, _, some jti⟩ => some (refreshFound s i userId jti now (s.sessions.view i jti))
    | _ => some (s.answer i .refused)
  | .revokeRefreshToken token =>
    match validateToken token .refresh with
    | some ⟨sub, _, some jti⟩ =>
      match s.sessions.view i jti with
      | some session =>
        if some session.userId ≠ sub then some (s.answer i (.found false))
        else some (s.goto i (.toRevoke session.chainId .refreshToken))
      | none => some (s.answer i (.found false))
    | _ => some (s.answer i (.found false))
  | .revokeSessionChain chain =>
    some (s.goto i (.revoking chain .sessionChain now (s.sessions.targets i (revokeChain chain now)) 0))
  | .deleteExpired => some (s.goto i (.sweeping now (s.sessions.targets i (deleteExpired now)) 0))

/-- Insert a session; a key that is taken is an integrity error. -/
def insert (s : State n) (i : Fin n) (k : Uuid) (v : RefreshSession) (p : Proc) : State n :=
  match s.sessions.insert i k v with
  | some S => { s.goto i p with sessions := S }
  | none => s.rollback i .failed

/-- The next statement of a call. A statement that still has rows to come to is not over. -/
def next (s : State n) (i : Fin n) (now : Instant) (fresh : Uuid) : Proc → Option (State n)
  | .ready call => begin refreshExpire s i now fresh call
  | .opening userId new expiresAt =>
    some (insert s i new (.create userId new expiresAt now none) (.opened new))
  | .opened new => some (s.commit i (.tokens new new))
  | .loading userId jti session =>
    match s.users userId with
    | some user => if user.isActive then some (s.goto i (.minting jti session)) else some (s.answer i .refused)
    | none => some (s.answer i .refused)
  | .minting jti session =>
    if fresh ∈ s.used then none
    else some { s.goto i (.toClaim jti fresh session (now + refreshExpire)) with used := fresh :: s.used }
  | .toClaim jti new session expiresAt =>
    some (s.goto i (.claiming jti new session expiresAt now
      (s.sessions.targets i (claimForRotation jti new now)) 0))
  | .claiming jti new session expiresAt _ [] claimed =>
    if claimed = 1 then
      some (insert s i new (.create session.userId new expiresAt now (some session.chainId)) (.rotated jti new session))
    else some (s.rollback i .refused)
  | .rotated _ new session => some (s.commit i (.tokens session.chainId new))
  | .toRevoke chain why =>
    some (s.goto i (.revoking chain why now (s.sessions.targets i (revokeChain chain now)) 0))
  | .revoking chain why _ [] revoked =>
    some { s.commit i (why.outcome chain revoked) with revoked := chain :: s.revoked }
  | .sweeping _ [] deleted => some (s.commit i (.count deleted))
  | .claiming .. | .revoking .. | .sweeping .. | .done _ => none

/-- The statement under way works on row `k`, when nobody else holds it. -/
def row (s : State n) (i : Fin n) (k : Uuid) (p : Proc) : Option (State n) :=
  let work (u : Stmt fun _ : Uuid => RefreshSession) (todo : List Uuid) (q : Nat → Proc) : Option (State n) :=
    if k ∈ todo ∧ s.sessions.free i k then
      some { s.goto i (q (if s.sessions.matchesNow i u k then 1 else 0)) with sessions := s.sessions.exec i u k }
    else none
  match p with
  | .claiming jti new session expiresAt now todo claimed =>
    work (claimForRotation jti new now) todo fun c =>
      .claiming jti new session expiresAt now (todo.erase k) (claimed + c)
  | .revoking chain why now todo revoked =>
    work (revokeChain chain now) todo fun c => .revoking chain why now (todo.erase k) (revoked + c)
  | .sweeping now todo deleted => work (deleteExpired now) todo fun c => .sweeping now (todo.erase k) (deleted + c)
  | _ => none

/-- **One step of the system.** -/
def step (s : State n) : Event n → Option (State n)
  | .next i now fresh => next refreshExpire s i now fresh (s.procs i)
  | .row i k => row s i k (s.procs i)
  | .fail i => match s.procs i with
    | .done _ => none
    | _ => some (s.rollback i .failed)
  | .account u a => some { s with users := Function.update s.users u a }

end Steps

end LinkShortener.Sessions
