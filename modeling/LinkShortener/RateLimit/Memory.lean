import Mathlib.Logic.Function.Basic
import LinkShortener.Basic
import LinkShortener.Lib.Run
import LinkShortener.Lib.SlidingWindow

/-!
# The limiter in memory

The limiter keeps the moments of the requests it has allowed under a key, and drops those that have left the window the
next time it is asked.

* `isAllowed`, `getRemaining`: the two questions.
* `step`: either question about any key, with a clock that does not go back; every answer is remembered.
* `Exact`: the invariant. What is kept under a key follows the sliding window over the requests for it.
* `sliding_window_is_exact`: in every run no window is overfull, only a full window refuses, the keys do not disturb each
  other, and what remains is what a burst would be allowed.
-/

namespace LinkShortener.MemoryRateLimiter

open Runs SlidingWindow

/-- The moments recorded under each key. -/
abbrev Storage := String → List Instant

section

variable (storage : Storage) (key : String) (limit period : Int) (now : Instant)

/-- The moments of the current window. -/
def inWindow : List Instant := (storage key).filter fun ts => decide (now - period < ts)

/-- Record a request unless the window is full, and say whether it was recorded. -/
def isAllowed : Bool × Storage :=
  if (inWindow storage key period now).length < limit then
    (true, Function.update storage key (inWindow storage key period now ++ [now]))
  else (false, Function.update storage key (inWindow storage key period now))

def getRemaining : Int := max 0 (limit - (inWindow storage key period now).length)

/-- How many of `n` further requests at this moment would be allowed. -/
def furtherAllowed (storage : Storage) : Nat → Nat
  | 0 => 0
  | n + 1 => (isAllowed storage key limit period now).1.toNat + furtherAllowed (isAllowed storage key limit period now).2 n

end

/-! ## Runs -/

/-- The limit and the period of each key. -/
structure Quotas where
  limit : String → Int
  period : String → Int

inductive Call
  | isAllowed (key : String)
  | getRemaining (key : String)
  deriving DecidableEq

inductive Answer
  | verdict (allowed : Bool)
  | remaining (n : Int)
  deriving DecidableEq

structure Entry where
  now : Instant
  call : Call
  answer : Answer
  deriving DecidableEq

/-- The limiter, the last reading of the clock, and all answers so far, oldest first. -/
structure State where
  now : Instant
  storage : Storage
  log : List Entry

/-- Nothing has been asked. -/
def State.fresh (now : Instant) : State := ⟨now, fun _ => [], []⟩

section Model

variable (q : Quotas)

def answer (storage : Storage) (now : Instant) : Call → Answer × Storage
  | .isAllowed key =>
    let (allowed, storage) := MemoryRateLimiter.isAllowed storage key (q.limit key) (q.period key) now
    (.verdict allowed, storage)
  | .getRemaining key =>
    (.remaining (MemoryRateLimiter.getRemaining storage key (q.limit key) (q.period key) now), storage)

/-- **One question.** -/
def step (s : State) (e : Instant × Call) : Option State :=
  if s.now ≤ e.1 then
    some ⟨e.1, (answer q s.storage e.1 e.2).2, s.log ++ [⟨e.1, e.2, (answer q s.storage e.1 e.2).1⟩]⟩
  else none

end Model

/-- The requests for a key that were allowed. -/
def allowedOn (key : String) (log : List Entry) : List Instant :=
  (log.filter fun e => decide (e.call = .isAllowed key ∧ e.answer = .verdict true)).map (·.now)

/-- The requests for a key. -/
def readingsOn (key : String) (log : List Entry) : List Instant :=
  (log.filter fun e => decide (e.call = .isAllowed key)).map (·.now)

/-- The answers to the requests for a key. -/
def verdictsOn (key : String) (log : List Entry) : List Answer :=
  (log.filter fun e => decide (e.call = .isAllowed key)).map (·.answer)

/-! ## The invariant -/

/-- What is kept under a key, and what the answers to the requests for it are: those of the sliding window. -/
structure Kept (q : Quotas) (key : String) (now : Instant) (stored : List Instant) (log : List Entry) : Prop where
  /-- What is kept shows the same as the whole history in every window from now on. -/
  follows : Follows (q.period key) now stored (allowedOn key log)
  allowed : allowedOn key log = admitted (q.limit key) (q.period key) (readingsOn key log)
  verdicts : verdictsOn key log = (verdictsFrom (q.limit key) (q.period key) [] (readingsOn key log)).map Answer.verdict

/-- **The limiter is exact** for every key. -/
structure Exact (q : Quotas) (s : State) : Prop where
  keys : ∀ key, Kept q key s.now (s.storage key) s.log
  past : ∀ e ∈ s.log, e.now ≤ s.now

section Step

variable {q : Quotas} {s s' : State} {key : String} {now : Instant} {stored : List Instant} {log : List Entry}

theorem isAllowed_fst (storage : Storage) (key : String) (limit period : Int) (now : Instant) :
    (isAllowed storage key limit period now).1 = allows limit period (storage key) now := by
  unfold isAllowed allows
  by_cases h : ((inWindow storage key period now).length : Int) < limit
  · rw [if_pos h]
    exact (decide_eq_true h).symm
  · rw [if_neg h]
    exact (decide_eq_false h).symm

theorem isAllowed_snd (storage : Storage) (key : String) (limit period : Int) (now : Instant) :
    (isAllowed storage key limit period now).2 = Function.update storage key (inWindow storage key period now ++
      if allows limit period (storage key) now then [now] else []) := by
  rw [← isAllowed_fst]
  unfold isAllowed
  split
  · rfl
  · rw [if_neg (by simp), List.append_nil]

/-- What is selected of a log with one more entry. -/
theorem selected_concat {β : Type} (p : Entry → Prop) [DecidablePred p] (f : Entry → β) (log : List Entry) (e : Entry) :
    ((log ++ [e]).filter fun e => decide (p e)).map f =
      (log.filter fun e => decide (p e)).map f ++ if p e then [f e] else [] := by
  rw [List.filter_append, List.map_append, List.filter_cons, List.filter_nil]
  by_cases h : p e
  · rw [if_pos h, if_pos (decide_eq_true h)]
    rfl
  · rw [if_neg h, if_neg (by simpa using h)]
    rfl

theorem allowedOn_concat (key : String) (log : List Entry) (e : Entry) :
    allowedOn key (log ++ [e]) = allowedOn key log ++
    if e.call = .isAllowed key ∧ e.answer = .verdict true then [e.now] else [] := selected_concat ..

theorem readingsOn_concat (key : String) (log : List Entry) (e : Entry) :
    readingsOn key (log ++ [e]) = readingsOn key log ++ if e.call = .isAllowed key then [e.now] else [] :=
  selected_concat ..

theorem verdictsOn_concat (key : String) (log : List Entry) (e : Entry) :
    verdictsOn key (log ++ [e]) = verdictsOn key log ++ if e.call = .isAllowed key then [e.answer] else [] :=
  selected_concat ..

theorem exact_fresh (q : Quotas) (now : Instant) : Exact q (State.fresh now) :=
  ⟨fun _ => ⟨Follows.refl _ _ _, rfl, rfl⟩, nofun⟩

/-- A question that is no request for the key leaves everything about it as it is. -/
theorem Kept.frame (h : Kept q key now stored log) {e : Entry} (hle : now ≤ e.now) (hother : e.call ≠ .isAllowed key) :
    Kept q key e.now stored (log ++ [e]) := by
  constructor
  · rw [allowedOn_concat, if_neg fun hin => hother hin.1, List.append_nil]
    exact h.follows.later hle
  · rw [allowedOn_concat, readingsOn_concat, if_neg fun hin => hother hin.1, if_neg hother, List.append_nil, List.append_nil]
    exact h.allowed
  · rw [verdictsOn_concat, readingsOn_concat, if_neg hother, if_neg hother, List.append_nil, List.append_nil]
    exact h.verdicts

/-- A request for the key is answered as the sliding window answers it. -/
theorem Kept.request (h : Kept q key now stored log) :
    Kept q key now (SlidingWindow.inWindow (q.period key) now stored ++
        if allows (q.limit key) (q.period key) stored now then [now] else [])
      (log ++ [⟨now, .isAllowed key, .verdict (allows (q.limit key) (q.period key) stored now)⟩]) := by
  have hfold : (readingsOn key log).foldl (serve (q.limit key) (q.period key)) [] = allowedOn key log := h.allowed.symm
  rw [h.follows.allows (q.limit key)]
  constructor
  · rw [allowedOn_concat]
    cases allows (q.limit key) (q.period key) (allowedOn key log) now with
    | false =>
      simp only [Bool.false_eq_true, if_false, Answer.verdict.injEq, and_false, List.append_nil]
      exact h.follows.prune
    | true =>
      simp only [if_true, and_self]
      exact h.follows.prune.record now
  · rw [allowedOn_concat, readingsOn_concat, if_pos rfl, admitted_concat, ← h.allowed]
    unfold serve
    cases allows (q.limit key) (q.period key) (allowedOn key log) now with
    | false => simp
    | true => simp
  · rw [verdictsOn_concat, readingsOn_concat, if_pos rfl, if_pos rfl, verdictsFrom_concat, hfold, List.map_append, h.verdicts]
    rfl

/-- **Every question keeps the limiter exact.** -/
theorem step_exact {e : Instant × Call} (hstep : step q s e = some s') (h : Exact q s) : Exact q s' := by
  obtain ⟨now, call⟩ := e
  unfold step at hstep
  split at hstep
  · rename_i hle
    cases hstep
    refine ⟨?_, ?_⟩
    · intro key
      cases call with
      | getRemaining asked =>
        refine (h.keys key).frame (e := ⟨now, .getRemaining asked, _⟩) hle ?_
        exact nofun
      | isAllowed asked =>
        by_cases hkey : key = asked
        · subst hkey
          have hnow : Kept q key now (s.storage key) s.log :=
            ⟨(h.keys key).follows.later hle, (h.keys key).allowed, (h.keys key).verdicts⟩
          have hrequest := hnow.request
          rw [← isAllowed_fst] at hrequest
          show Kept q key now ((isAllowed s.storage key (q.limit key) (q.period key) now).2 key) _
          rw [isAllowed_snd, Function.update_self, ← isAllowed_fst]
          exact hrequest
        · have hsame : (isAllowed s.storage asked (q.limit asked) (q.period asked) now).2 key = s.storage key := by
            rw [isAllowed_snd, Function.update_of_ne hkey]
          show Kept q key now ((isAllowed s.storage asked (q.limit asked) (q.period asked) now).2 key) _
          rw [hsame]
          refine (h.keys key).frame (e := ⟨now, .isAllowed asked, _⟩) hle ?_
          intro heq
          exact hkey (Call.isAllowed.inj heq).symm
    · intro e he
      rcases List.mem_append.mp he with hold | hnew
      · exact le_trans (h.past e hold) hle
      · rw [List.mem_singleton.mp hnew]
  · cases hstep

end Step

/-! ## Every run -/

section Runs

variable {q : Quotas} {s s' : State} {calls : List (Instant × Call)}

theorem run_exact {start : Instant} (h : run (step q) (State.fresh start) calls = some s) : Exact q s :=
  run_inv (I := Exact q) step_exact h (exact_fresh q start)

/-- The log is the calls, with their answers. -/
theorem run_log (h : run (step q) s calls = some s') :
    s'.log.map (fun e => (e.now, e.call)) = s.log.map (fun e => (e.now, e.call)) ++ calls := by
  induction calls generalizing s with
  | nil =>
    cases h
    rw [List.append_nil]
  | cons e calls ih =>
    obtain ⟨s₁, hstep, hrest⟩ := run_cons h
    unfold step at hstep
    split at hstep
    · cases hstep
      rw [ih hrest, List.map_append, List.append_assoc]
      rfl
    · cases hstep

theorem readingsOn_eq (key : String) (log : List Entry) : readingsOn key log =
    ((log.map fun e => (e.now, e.call)).filter fun e => decide (e.2 = .isAllowed key)).map Prod.fst := by
  unfold readingsOn
  rw [List.filter_map, List.map_map]
  rfl

/-- Calls may be left out: the clock does not go back between those that are left. -/
theorem run_filter (p : Instant × Call → Bool) {t : State} (h : run (step q) s calls = some s') (hle : t.now ≤ s.now) :
    ∃ t', run (step q) t (calls.filter p) = some t' := by
  induction calls generalizing s t with
  | nil => exact ⟨t, rfl⟩
  | cons e calls ih =>
    obtain ⟨s₁, hstep, hrest⟩ := run_cons h
    unfold step at hstep
    split at hstep
    · rename_i hnow
      cases hstep
      by_cases hp : p e = true
      · rw [List.filter_cons_of_pos hp, run, step, if_pos (le_trans hle hnow)]
        exact ih hrest le_rfl
      · rw [List.filter_cons_of_neg hp]
        exact ih hrest (le_trans hle hnow)
    · cases hstep

/-- What remains is what a burst would be allowed. -/
theorem furtherAllowed_eq (storage : Storage) (key : String) (limit period : Int) (now : Instant) (n : Nat)
    {moments : List Instant} (h : Follows period now (storage key) moments) :
    furtherAllowed key limit period now storage n = burst limit period moments now n := by
  induction n generalizing storage moments with
  | zero => rfl
  | succ n ih =>
    have hallows := h.allows limit
    have hnext : Follows period now ((isAllowed storage key limit period now).2 key) (serve limit period moments now) := by
      rw [isAllowed_snd, Function.update_self, hallows]
      unfold serve
      split
      · exact h.prune.record now
      · rw [List.append_nil]
        exact h.prune
    unfold furtherAllowed burst
    rw [ih _ hnext, isAllowed_fst, hallows]

/-- **The limiter in memory is an exact sliding window**, in every run of questions about any keys with a clock that does
not go back: no window of a key, wherever it ends, holds more allowed requests than the limit; a request is refused only
if as many were allowed in the window that ends with it; the requests for a key are answered as if nothing else had been
asked; and as long as the period is positive, what remains is the number of further requests that would be allowed at that
moment. -/
theorem sliding_window_is_exact (q : Quotas) (start : Instant) (calls : List (Instant × Call)) (s : State)
    (hrun : run (step q) (State.fresh start) calls = some s) (key : String) :
    (∀ t, (within (q.period key) (allowedOn key s.log) t : Int) ≤ max 0 (q.limit key)) ∧
    (∀ now, s.now ≤ now → (isAllowed s.storage key (q.limit key) (q.period key) now).1 = false →
      max 0 (q.limit key) ≤ within (q.period key) (allowedOn key s.log) now) ∧
    (∃ s', run (step q) (State.fresh start) (calls.filter fun e => decide (e.2 = .isAllowed key)) = some s' ∧
      verdictsOn key s'.log = verdictsOn key s.log) ∧
    (0 < q.period key ∨ q.limit key ≤ 0 → ∀ now, s.now ≤ now → ∀ n : Nat,
      (furtherAllowed key (q.limit key) (q.period key) now s.storage n : Int) =
        min (n : Int) (getRemaining s.storage key (q.limit key) (q.period key) now)) := by
  have hexact := run_exact hrun
  have hkept := hexact.keys key
  have hpast : ∀ now, s.now ≤ now → ∀ ts ∈ allowedOn key s.log, ts ≤ now := by
    intro now hle ts hts
    obtain ⟨e, he, rfl⟩ := List.mem_map.mp hts
    exact le_trans (hexact.past e (List.mem_filter.mp he).1) hle
  refine ⟨?_, ?_, ?_, ?_⟩
  · rw [hkept.allowed]
    exact admitted_bounded (q.limit key) (q.period key) _
  · intro now hle hno
    rw [isAllowed_fst, (hkept.follows.later hle).allows] at hno
    exact limit_le_within (hpast now hle) hno
  · obtain ⟨s', hs'⟩ := run_filter (fun e => decide (e.2 = .isAllowed key)) hrun (t := State.fresh start) le_rfl
    refine ⟨s', hs', ?_⟩
    have hreadings : readingsOn key s'.log = readingsOn key s.log := by
      rw [readingsOn_eq, readingsOn_eq, run_log hs', run_log hrun]
      simp [State.fresh]
    rw [((run_exact hs').keys key).verdicts, hkept.verdicts, hreadings]
  · intro hcounts now hle n
    have hfollows := hkept.follows.later hle
    rw [furtherAllowed_eq s.storage key _ _ now n hfollows, burst_eq hcounts]
    unfold getRemaining
    have hwindow : inWindow s.storage key (q.period key) now =
      SlidingWindow.inWindow (q.period key) now (allowedOn key s.log) := hfollows now le_rfl
    rw [hwindow]

end Runs

/-- Two requests a minute for every client. -/
def twoAMinute : Quotas := ⟨fun _ => 2, fun _ => 60⟩

/-- Two clients at once, and one of them again when its first request has left the window. -/
def twoClients : List (Instant × Call) :=
  [(0, .isAllowed "a"), (0, .getRemaining "a"), (0, .isAllowed "b"), (30, .isAllowed "a"), (59, .isAllowed "a"),
    (60, .isAllowed "a"), (60, .isAllowed "b")]

theorem sliding_window_of_two_clients :
    ∃ s, run (step twoAMinute) (State.fresh 0) twoClients = some s ∧ allowedOn "a" s.log = [0, 30, 60] ∧
      (∀ t, (within 60 (allowedOn "a" s.log) t : Int) ≤ 2) ∧
      furtherAllowed "a" 2 60 90 s.storage 5 = 1 := by
  have hrun : ((run (step twoAMinute) (State.fresh 0) twoClients).map fun s =>
      (allowedOn "a" s.log, s.now, getRemaining s.storage "a" 2 60 90)) = some ([0, 30, 60], 60, 1) := by decide +kernel
  obtain ⟨s, hs, heq⟩ := Option.map_eq_some_iff.mp hrun
  obtain ⟨hbound, -, -, hfurther⟩ := sliding_window_is_exact twoAMinute 0 twoClients s hs "a"
  have hnow : s.now = 60 := congrArg (·.2.1) heq
  have hremaining : getRemaining s.storage "a" 2 60 90 = 1 := congrArg (·.2.2) heq
  refine ⟨s, hs, congrArg Prod.fst heq, hbound, ?_⟩
  have hburst := hfurther (.inl (by decide)) 90 (by rw [hnow]; decide) 5
  have hsame : getRemaining s.storage "a" (twoAMinute.limit "a") (twoAMinute.period "a") 90 = 1 := hremaining
  rw [hsame] at hburst
  exact Int.ofNat_inj.mp (hburst.trans (by decide))

/-- **A window of no length never fills**: one request remains, and any number of them is allowed. -/
theorem empty_window_never_fills :
    getRemaining (State.fresh 0).storage "a" 1 0 0 = 1 ∧ furtherAllowed "a" 1 0 0 (State.fresh 0).storage 2 = 2 ∧
    ¬ ∀ (q : Quotas) (start : Instant) (calls : List (Instant × Call)) (s : State),
      run (step q) (State.fresh start) calls = some s → ∀ key now, s.now ≤ now → ∀ n : Nat,
        (furtherAllowed key (q.limit key) (q.period key) now s.storage n : Int) =
          min (n : Int) (getRemaining s.storage key (q.limit key) (q.period key) now) := by
  refine ⟨by decide, by decide, ?_⟩
  intro h
  have hburst := h ⟨fun _ => 1, fun _ => 0⟩ 0 [] (State.fresh 0) rfl "a" 0 le_rfl 2
  exact absurd hburst (by decide)

end LinkShortener.MemoryRateLimiter
