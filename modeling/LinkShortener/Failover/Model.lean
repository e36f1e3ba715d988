import LinkShortener.Lib.Run
import LinkShortener.Basic

/-!
# The failover service

Interchangeable services in the order of their priority, and the index of the one that has the work. A call asks the
service at the index; when that throws, the index moves down and the call is tried again. Background rounds move the
index down from a service that reports itself unwell, and up to one that has recovered.

The lock is held around the index and not around the calls, so a call is several steps: reading the index, asking, moving
on, and counting what nobody handled. A round is two: `attemptDemotion`, and `attemptUpgrade` unless the first moved the
work. What services and probes answer comes with the step, so that it may be anything at any time.

* `FailoverService`, `switchToNext`, `attemptDemotion`, `attemptUpgrade`: the state behind the lock and what moves it.
* `Call`, `Call.next`: `execute`, step by step. An exception that nothing catches ends a call with `Outcome.threw`.
* `step`: any number of calls and rounds among each other.

What the service announces is left out: `_say` catches whatever its logger throws. It does not catch what is thrown while
its line is put together, and that line quotes an exception. So an exception comes with what `str` makes of it (`Raised`),
and one that has no text leaves the call or ends the round. The counters of failed rounds and of lost lines are left out.
-/

namespace LinkShortener.Failover

/-! ## Behind the lock -/

inductive CheckOutcome
  | notRun
  | healthy
  | unhealthy
  | probeFailed
  deriving DecidableEq, Repr

/-- An exception, by what `str` makes of it: a text, or another exception. -/
inductive Raised
  | said (text : String)
  | unsaid (e : Raised)
  deriving DecidableEq, Repr

/-- What a probe does. -/
inductive Probe
  | well
  | unwell
  | raised (e : Raised)
  deriving DecidableEq, Repr

/-- The names of the services by priority, whether there is a health checker, and the cooldown. There is at least one
service. -/
structure Settings where
  services : List String
  hasHealthChecker : Bool
  upgradeCooldown : Instant
  nonempty : services ≠ []

/-- What the lock guards. -/
structure FailoverService where
  currentIndex : Nat
  lastUpgradeAttempt : Instant
  lastCheck : CheckOutcome
  droppedCalls : Nat
  deriving DecidableEq, Repr

def FailoverService.new : FailoverService := ⟨0, 0, .notRun, 0⟩

section Lock

variable (cfg : Settings) (f : FailoverService)

/-- One step down, if there is one. -/
def switchToNext : Bool × FailoverService :=
  if f.currentIndex + 1 < cfg.services.length then (true, { f with currentIndex := f.currentIndex + 1 }) else (false, f)

/-- The first index that answers for itself, or without a checker the first one. What a probe raises is put into words
before the next is asked. -/
def firstWell (probe : Nat → Probe) : List Nat → Except Raised (Option Nat)
  | [] => .ok none
  | idx :: rest =>
    if cfg.hasHealthChecker then
      match probe idx with
      | .well => .ok (some idx)
      | .raised (.unsaid e) => .error e
      | _ => firstWell probe rest
    else .ok (some idx)

/-- Hand the work down when the active service reports itself unwell. -/
def attemptDemotion (probe : Nat → Probe) : Except Raised Bool × FailoverService :=
  if cfg.hasHealthChecker then
    match probe f.currentIndex with
    | .well => (.ok false, { f with lastCheck := .healthy })
    | .raised (.said _) => (.ok false, { f with lastCheck := .probeFailed })
    | .raised (.unsaid e) => (.error e, { f with lastCheck := .probeFailed })
    | .unwell =>
      match firstWell cfg probe (List.range' (f.currentIndex + 1) (cfg.services.length - (f.currentIndex + 1))) with
      | .ok (some idx) => (.ok true, { f with currentIndex := idx, lastCheck := .healthy })
      | .ok none => (.ok false, { f with lastCheck := .unhealthy })
      | .error e => (.error e, { f with lastCheck := .unhealthy })
  else (.ok false, f)

/-- Take the work back up to the best service that answers, at most once in a cooldown. An exception ends the round, which
is over anyway. -/
def attemptUpgrade (probe : Nat → Probe) (now : Instant) : FailoverService :=
  if f.currentIndex = 0 then f
  else if now - f.lastUpgradeAttempt < cfg.upgradeCooldown then f
  else
    let f := { f with lastUpgradeAttempt := now }
    match firstWell cfg probe (List.range f.currentIndex) with
    | .ok (some idx) => { f with currentIndex := idx, lastCheck := .healthy }
    | _ => f

end Lock

/-! ## Calls -/

variable {V : Type}

inductive Outcome (V : Type)
  | returned (value : V)
  | allServicesFailed
  | threw (e : Raised)

inductive Pc (V : Type)
  | turn
  | ask (index : Nat)
  | moveOn (index : Nat)
  | drop
  | announce
  | ended (outcome : Outcome V)

/-- A call: what it has tried and how many turns it has left. For the record, what it has read and asked, and how often
the work has moved up while it runs. -/
structure Call (V : Type) where
  tried : List Nat
  turnsLeft : Nat
  point : Pc V
  reads : List Nat
  asked : List (Nat × Except Raised V)
  climbs : Nat

def Call.new (cfg : Settings) : Call V := ⟨[], 2 * cfg.services.length, .turn, [], [], 0⟩

def Pc.running : Pc V → Bool
  | .ended _ => false
  | _ => true

/-- The work has moved up. -/
def Call.climbed (c : Call V) : Call V := if c.point.running then { c with climbs := c.climbs + 1 } else c

/-- **The next step of a call**, with what it leaves behind the lock. `answer` is what the service does if it is asked. -/
def Call.next (cfg : Settings) (f : FailoverService) (c : Call V) (answer : Except Raised V) :
    Option (FailoverService × Call V) :=
  match c.point with
  | .turn =>
    if c.tried.length < cfg.services.length ∧ 0 < c.turnsLeft then
      let c := { c with turnsLeft := c.turnsLeft - 1, reads := f.currentIndex :: c.reads }
      match cfg.services[f.currentIndex]? with
      | none => some (f, { c with point := .ended (.threw (.said "list index out of range")) })
      | some _ =>
        some (f, { c with point := if f.currentIndex ∈ c.tried then .moveOn f.currentIndex else .ask f.currentIndex })
    else some (f, { c with point := .drop })
  | .ask index =>
    let c := { c with tried := index :: c.tried, asked := (index, answer) :: c.asked }
    match answer with
    | .ok value => some (f, { c with point := .ended (.returned value) })
    | .error (.said _) => some (f, { c with point := .moveOn index })
    -- The line that quotes it is put together before `_say` is entered.
    | .error (.unsaid e) => some (f, { c with point := .ended (.threw e) })
  | .moveOn index =>
    if f.currentIndex = index then
      match switchToNext cfg f with
      | (true, f') => some (f', { c with point := .turn })
      | (false, _) => some (f, { c with point := .drop })
    else some (f, { c with point := .turn })
  | .drop => some ({ f with droppedCalls := f.droppedCalls + 1 }, { c with point := .announce })
  | .announce => some (f, { c with point := .ended .allServicesFailed })
  | .ended _ => none

/-! ## The system -/

inductive Round
  | demote
  | upgrade
  | ended
  deriving DecidableEq, Repr

structure System (V : Type) where
  service : FailoverService
  calls : List (Call V)
  rounds : List Round

inductive Event (V : Type)
  | call
  | step (i : Nat) (answer : Except Raised V)
  | round
  | check (j : Nat) (probe : Nat → Probe) (now : Instant)

section System

variable (cfg : Settings)

/-- The next step of a round. -/
def checkStep (s : System V) (j : Nat) (probe : Nat → Probe) (now : Instant) : Round → Option (System V)
  | .demote =>
    match attemptDemotion cfg s.service probe with
    | (.ok false, f) => some { s with service := f, rounds := s.rounds.set j .upgrade }
    -- The work was handed down, or an exception has ended the round.
    | (_, f) => some { s with service := f, rounds := s.rounds.set j .ended }
  | .upgrade =>
    let f := attemptUpgrade cfg s.service probe now
    some ⟨f, if f.currentIndex < s.service.currentIndex then s.calls.map Call.climbed else s.calls,
      s.rounds.set j .ended⟩
  | .ended => none

/-- **One step of the system.** -/
def step (s : System V) : Event V → Option (System V)
  | .call => some { s with calls := s.calls ++ [Call.new cfg] }
  | .step i answer => do
    let c ← s.calls[i]?
    let (f, c') ← c.next cfg s.service answer
    return { s with service := f, calls := s.calls.set i c' }
  | .round => some { s with rounds := s.rounds ++ [.demote] }
  | .check j probe now => s.rounds[j]?.bind (checkStep cfg s j probe now)

def System.new : System V := ⟨.new, [], []⟩

end System

end LinkShortener.Failover
