import LinkShortener.Lib.Run
import LinkShortener.Lib.Processes
import LinkShortener.Lib.Spacing
import LinkShortener.Basic

/-!
# Handing tasks to the broker

A redirect has its click counted by a task, and must not wait for a broker that is down: after a failure clicks are dropped
for `retryInterval`, and then one of the callers finds out whether the broker is back. The messages somebody waits for are
always tried. Any number of threads share one queue.

* `Pc`, `next`: `enqueue_link_accessed` with `_claim_attempt` inside, and what all of the messages have in common, step by
  step. The lock is held around what is shared, and not while a task is published.
* `step`: any number of threads among each other, and the clock, which does not run backwards.
* `outage_costs_few_attempts`: how many callers wait for a broker that is down, and that it is asked again.
-/

namespace LinkShortener.Outages.Dispatch

open Processes

/-- What is published: a click, or a message to an address. -/
inductive Task
  | click
  | message
  deriving DecidableEq, Repr

/-- Where a thread is. While the lock is held `_failed_at` stays what was read. -/
inductive Pc
  | returned (published : Bool)
  | enter
  | readFailedAt
  | compareClock (failedAt : Instant)
  | claimClock
  | claimStamp (now : Instant)
  | publish
  | enterSuccess
  | clear
  | enterFailure
  | failedClock
  | failedStamp (now : Instant)
  | publishMessage
  deriving DecidableEq, Repr

/-- What the threads share. Of the time since a failure there is when it was noticed and when another attempt was claimed,
the last first. -/
structure Shared where
  clock : Instant
  failedAt : Option Instant
  locked : Bool
  outage : List Instant
  deriving DecidableEq, Repr

/-- The first step of a call. -/
def begin : Task → Pc
  | .click => .enter
  | .message => .publishMessage

/-- One step of a thread. `accepted` is what the broker says, if the step asks it. -/
def next (retryInterval : Int) (sh : Shared) (accepted : Bool) : Pc → Option (Shared × Pc)
  | .returned _ => none
  | .enter => if sh.locked then none else some ({ sh with locked := true }, .readFailedAt)
  | .readFailedAt =>
    match sh.failedAt with
    | none => some ({ sh with locked := false }, .publish)
    | some failedAt => some (sh, .compareClock failedAt)
  | .compareClock failedAt =>
    if sh.clock - failedAt < retryInterval then some ({ sh with locked := false }, .returned false)
    else some (sh, .claimClock)
  | .claimClock => some (sh, .claimStamp sh.clock)
  | .claimStamp now => some ({ sh with failedAt := some now, locked := false, outage := now :: sh.outage }, .publish)
  | .publish => some (sh, if accepted then .enterSuccess else .enterFailure)
  | .enterSuccess => if sh.locked then none else some ({ sh with locked := true }, .clear)
  | .clear => some ({ sh with failedAt := none, locked := false, outage := [] }, .returned true)
  | .enterFailure => if sh.locked then none else some ({ sh with locked := true }, .failedClock)
  | .failedClock => some (sh, .failedStamp sh.clock)
  | .failedStamp now =>
    some ({ sh with
      failedAt := some now
      locked := false
      outage := if sh.failedAt = none then [now] else sh.outage }, .returned false)
  -- Whoever waits for a message is not turned away because a click has failed.
  | .publishMessage => some (sh, .returned accepted)

/-- The queue of one process with the threads that use it. -/
structure System where
  shared : Shared
  threads : List Pc
  deriving DecidableEq, Repr

inductive Event
  | tick (elapsed : Nat)
  | call (thread : Nat) (task : Task)
  | go (thread : Nat) (accepted : Bool)
  deriving DecidableEq, Repr

def step (retryInterval : Int) (s : System) : Event → Option System
  | .tick elapsed => some { s with shared := { s.shared with clock := s.shared.clock + elapsed } }
  | .call i task =>
    match s.threads[i]? with
    | some (.returned _) => some { s with threads := s.threads.set i (begin task) }
    | _ => none
  | .go i accepted => do
    let pc ← s.threads[i]?
    let after ← next retryInterval s.shared accepted pc
    return ⟨after.1, s.threads.set i after.2⟩

/-- Before the first call. -/
structure Started (s : System) : Prop where
  failedAt : s.shared.failedAt = none
  unlocked : s.shared.locked = false
  outage : s.shared.outage = []
  threads : ∀ pc ∈ s.threads, ∃ published, pc = .returned published

/-! ## What one step does -/

section Steps

variable {retryInterval : Int} {sh sh' : Shared} {accepted : Bool} {pc pc' : Pc}

/-- Where the lock is held. -/
def Pc.inside : Pc → Bool
  | .readFailedAt | .compareClock _ | .claimClock | .claimStamp _ | .clear | .failedClock | .failedStamp _ => true
  | _ => false

/-- What a thread that holds the lock knows of the last failure. -/
def Knows (retryInterval : Int) (sh : Shared) : Pc → Prop
  | .compareClock failedAt => sh.failedAt = some failedAt
  | .claimClock => ∃ failedAt, sh.failedAt = some failedAt ∧ failedAt + retryInterval ≤ sh.clock
  | .claimStamp now => now ≤ sh.clock ∧ ∃ failedAt, sh.failedAt = some failedAt ∧ failedAt ≤ now ∧ failedAt + retryInterval ≤ now
  | .failedStamp now => now ≤ sh.clock ∧ ∀ failedAt ∈ sh.failedAt, failedAt ≤ now
  | _ => True

theorem knows_of_not_inside (h : pc.inside = false) : Knows retryInterval sh pc := by
  cases pc <;> trivial

/-- The lock is taken on the way in and given back on the way out. -/
theorem next_locked (h : next retryInterval sh accepted pc = some (sh', pc')) :
    Passes Pc.inside sh.locked pc sh'.locked pc' := by
  intro hheld
  cases pc <;> simp only [next, Pc.inside] at h hheld ⊢ <;> grind [Pc.inside]

/-- Where the record is written. -/
def Pc.records : Pc → Bool
  | .claimStamp _ | .clear | .failedStamp _ => true
  | _ => false

theorem inside_of_records (h : pc.records = true) : pc.inside = true := by
  cases pc <;> first | rfl | cases h

theorem outside_of_records (h : next retryInterval sh accepted pc = some (sh', pc')) (hrecords : pc.records = true) :
    pc'.inside = false := by
  cases pc with
  | claimStamp | clear | failedStamp =>
    cases h
    rfl
  | _ => cases hrecords

/-- A step changes the record or leaves it, and does not touch the clock. -/
theorem next_shared (h : next retryInterval sh accepted pc = some (sh', pc')) :
    sh'.clock = sh.clock ∧ (pc.records = true ∨ sh'.failedAt = sh.failedAt ∧ sh'.outage = sh.outage) := by
  cases pc <;> simp only [next, Pc.records] at h ⊢ <;> grind

end Steps

/-! ## Runs -/

section Runs

open Runs Spacing

variable {retryInterval : Int} {s s' : System} {e : Event}

/-- The last failure, and what has been written down of the outage. -/
structure Recorded (retryInterval : Int) (sh : Shared) : Prop where
  upright : sh.failedAt = none → sh.outage = []
  noticed : sh.failedAt ≠ none → sh.outage ≠ []
  past : ∀ failedAt ∈ sh.failedAt, failedAt ≤ sh.clock
  stamped : ∀ failedAt ∈ sh.failedAt, ∀ a ∈ sh.outage, a ≤ failedAt
  spaced : Spaced retryInterval sh.outage

structure Inv (retryInterval : Int) (s : System) : Prop where
  holder : Guarded Pc.inside s.shared.locked s.threads
  recorded : Recorded retryInterval s.shared
  knows : ∀ pc ∈ s.threads, Knows retryInterval s.shared pc

theorem Started.inv (h : Started s) : Inv retryInterval s := by
  have houtside : ∀ pc ∈ s.threads, pc.inside = false := by
    intro pc hpc
    obtain ⟨published, rfl⟩ := h.threads pc hpc
    rfl
  refine ⟨?_, ⟨fun _ => h.outage, fun hsome => absurd h.failedAt hsome, ?_, ?_, ?_⟩, fun pc hpc =>
    knows_of_not_inside (houtside pc hpc)⟩
  · rw [h.unlocked]
    exact guarded_of_outside houtside
  · rw [h.failedAt]
    nofun
  · rw [h.failedAt]
    nofun
  · rw [h.outage]
    exact Spaced.nil

/-- **A step inside the lock keeps the record.** A claim lies the interval behind the last failure, and the last failure
behind every moment that was written down before. -/
theorem next_recorded {sh sh' : Shared} {accepted : Bool} {pc pc' : Pc}
    (hnext : next retryInterval sh accepted pc = some (sh', pc')) (hknows : Knows retryInterval sh pc)
    (h : Recorded retryInterval sh) : Recorded retryInterval sh' := by
  have hsame : sh'.clock = sh.clock → sh'.failedAt = sh.failedAt → sh'.outage = sh.outage → Recorded retryInterval sh' := by
    intro hclock hfailedAt houtage
    exact ⟨by rw [hfailedAt, houtage]; exact h.upright, by rw [hfailedAt, houtage]; exact h.noticed,
      by rw [hfailedAt, hclock]; exact h.past, by rw [hfailedAt, houtage]; exact h.stamped, by rw [houtage]; exact h.spaced⟩
  cases pc with
  | claimStamp now =>
    cases hnext
    obtain ⟨hpast, failedAt, hfailedAt, hbefore, hlate⟩ := hknows
    have hapart : ∀ a ∈ sh.outage, a + retryInterval ≤ now := fun a ha => by
      have := h.stamped failedAt hfailedAt a ha
      grind
    refine ⟨nofun, fun _ => List.cons_ne_nil _ _, ?_, ?_, h.spaced.cons hapart⟩
    · intro f hf
      cases hf
      exact hpast
    · intro f hf a ha
      cases hf
      rcases List.mem_cons.mp ha with rfl | ha
      · exact Int.le_refl _
      · exact Int.le_trans (h.stamped failedAt hfailedAt a ha) hbefore
  | clear =>
    cases hnext
    exact ⟨fun _ => rfl, fun hno => absurd rfl hno, nofun, nofun, Spaced.nil⟩
  | failedStamp now =>
    cases hnext
    obtain ⟨hpast, hlast⟩ := hknows
    refine ⟨nofun, fun _ => ?_, ?_, ?_, ?_⟩
    · show (if sh.failedAt = none then [now] else sh.outage) ≠ []
      split
      · exact List.cons_ne_nil _ _
      · exact h.noticed ‹_›
    · intro f hf
      cases hf
      exact hpast
    · intro f hf a ha
      cases hf
      have ha : a ∈ if sh.failedAt = none then [now] else sh.outage := ha
      split at ha
      · exact Int.le_of_eq (List.mem_singleton.mp ha)
      · obtain ⟨failedAt, hfailedAt⟩ := Option.ne_none_iff_exists'.mp ‹_›
        exact Int.le_trans (h.stamped failedAt hfailedAt a ha) (hlast failedAt hfailedAt)
    · show Spaced retryInterval (if sh.failedAt = none then [now] else sh.outage)
      split
      · exact List.pairwise_singleton _ _
      · exact h.spaced
  | _ =>
    obtain ⟨hclock, hno | ⟨hfailedAt, houtage⟩⟩ := next_shared hnext
    · cases hno
    · exact hsame hclock hfailedAt houtage

/-- What a thread knows once it has read something. -/
theorem next_knows {sh sh' : Shared} {accepted : Bool} {pc pc' : Pc}
    (hnext : next retryInterval sh accepted pc = some (sh', pc')) (hknows : Knows retryInterval sh pc)
    (h : Recorded retryInterval sh) : Knows retryInterval sh' pc' := by
  cases pc with
  | readFailedAt =>
    simp only [next] at hnext
    split at hnext
    · cases hnext
      trivial
    · rename_i failedAt hfailedAt
      cases hnext
      exact hfailedAt
  | compareClock failedAt =>
    have hfailedAt : sh.failedAt = some failedAt := hknows
    simp only [next] at hnext
    split at hnext
    · cases hnext
      trivial
    · rename_i hlate
      cases hnext
      exact ⟨failedAt, hfailedAt, by grind⟩
  | claimClock =>
    obtain ⟨failedAt, hfailedAt, hlate⟩ := hknows
    cases hnext
    exact ⟨Int.le_refl _, failedAt, hfailedAt, h.past failedAt hfailedAt, hlate⟩
  | failedClock =>
    cases hnext
    exact ⟨Int.le_refl _, h.past⟩
  | enter | enterSuccess | enterFailure =>
    simp only [next] at hnext
    split at hnext <;> cases hnext
    trivial
  | publish =>
    cases hnext
    cases accepted <;> trivial
  | _ =>
    cases hnext
    try trivial

/-- Time passes, and what was late stays late. -/
theorem Inv.tick (h : Inv retryInterval s) (elapsed : Nat) :
    Inv retryInterval { s with shared := { s.shared with clock := s.shared.clock + elapsed } } := by
  have hlater : s.shared.clock ≤ s.shared.clock + elapsed := by grind
  refine ⟨h.holder, ⟨h.recorded.upright, h.recorded.noticed, ?_, h.recorded.stamped, h.recorded.spaced⟩, ?_⟩
  · exact fun failedAt hfailedAt => Int.le_trans (h.recorded.past failedAt hfailedAt) hlater
  · intro pc hpc
    have hknows := h.knows pc hpc
    cases pc with
    | claimClock =>
      obtain ⟨failedAt, hfailedAt, hlate⟩ := hknows
      exact ⟨failedAt, hfailedAt, Int.le_trans hlate hlater⟩
    | claimStamp now => exact ⟨Int.le_trans hknows.1 hlater, hknows.2⟩
    | failedStamp now => exact ⟨Int.le_trans hknows.1 hlater, hknows.2⟩
    | compareClock failedAt => exact hknows
    | _ => trivial

theorem Inv.call {i : Nat} {published : Bool} (h : Inv retryInterval s) (hi : s.threads[i]? = some (.returned published))
    (task : Task) : Inv retryInterval { s with threads := s.threads.set i (begin task) } := by
  have houtside : (begin task).inside = false := by cases task <;> rfl
  refine ⟨h.holder.set_outside hi houtside.symm, h.recorded, forall_mem_set h.knows (knows_of_not_inside houtside)⟩

theorem Inv.next {i : Nat} {pc pc' : Pc} {accepted : Bool} {sh' : Shared} (h : Inv retryInterval s)
    (hi : s.threads[i]? = some pc) (hnext : Dispatch.next retryInterval s.shared accepted pc = some (sh', pc')) :
    Inv retryInterval ⟨sh', s.threads.set i pc'⟩ := by
  have hmem : pc ∈ s.threads := List.mem_of_getElem? hi
  refine ⟨h.holder.set hi (next_locked hnext), next_recorded hnext (h.knows pc hmem) h.recorded, ?_⟩
  obtain ⟨hclock, hrecords | ⟨hfailedAt, -⟩⟩ := next_shared hnext
  · -- The record is written: nobody else is inside, and so nobody else has read it.
    intro other hother
    exact knows_of_not_inside
      (h.holder.alone hi (inside_of_records hrecords) (outside_of_records hnext hrecords) other hother)
  · refine forall_mem_set (fun other hother => ?_) (next_knows hnext (h.knows pc hmem) h.recorded)
    have hknows := h.knows other hother
    cases other <;> simp only [Knows, hclock, hfailedAt] at hknows ⊢ <;> exact hknows

theorem step_inv (hstep : step retryInterval s e = some s') (h : Inv retryInterval s) : Inv retryInterval s' := by
  cases e with
  | tick elapsed =>
    cases hstep
    exact h.tick elapsed
  | call i task =>
    simp only [step] at hstep
    split at hstep
    · rename_i hi
      cases hstep
      exact h.call hi task
    · cases hstep
  | go i accepted =>
    obtain ⟨pc, hi, hstep⟩ := Option.bind_eq_some_iff.mp hstep
    obtain ⟨after, hnext, hstep⟩ := Option.bind_eq_some_iff.mp hstep
    cases hstep
    exact h.next hi hnext

theorem go_of {i : Nat} {pc pc' : Pc} {accepted : Bool} {sh' : Shared} (hi : s.threads[i]? = some pc)
    (hnext : next retryInterval s.shared accepted pc = some (sh', pc')) :
    step retryInterval s (.go i accepted) = some ⟨sh', s.threads.set i pc'⟩ := by
  simp only [step, hi, hnext, Option.bind_eq_bind, Option.bind_some]
  rfl

theorem set_self {threads : List Pc} {i : Nat} {pc : Pc} (pc' : Pc) (hi : threads[i]? = some pc) :
    (threads.set i pc')[i]? = some pc' := by
  obtain ⟨hlt, -⟩ := List.getElem?_eq_some_iff.mp hi
  exact List.getElem?_set_self hlt

/-- Whoever has a click to publish when the last failure lies the interval back asks the broker. -/
theorem click_is_published {i : Nat} {published : Bool} (hi : s.threads[i]? = some (.returned published))
    (hunlocked : s.shared.locked = false) (hlate : ∀ failedAt ∈ s.shared.failedAt, failedAt + retryInterval ≤ s.shared.clock)
    (accepted : Bool) : ∃ n s', run (step retryInterval) s (.call i .click :: List.replicate n (.go i accepted)) = some s' ∧
      s'.threads[i]? = some .publish := by
  obtain ⟨⟨clock, failedAt, locked, outage⟩, threads⟩ := s
  dsimp only at hi hunlocked hlate
  subst hunlocked
  have hcall : step retryInterval ⟨⟨clock, failedAt, false, outage⟩, threads⟩ (.call i .click) =
      some ⟨⟨clock, failedAt, false, outage⟩, threads.set i .enter⟩ := by
    simp only [step, hi, begin]
  have henter := set_self .enter hi
  have hread := set_self .readFailedAt henter
  cases failedAt with
  | none =>
    refine ⟨2, ⟨⟨clock, none, false, outage⟩, ((threads.set i .enter).set i .readFailedAt).set i .publish⟩, ?_,
      set_self .publish hread⟩
    simp only [run, List.replicate, hcall, Option.bind_some]
    rw [go_of (s := ⟨⟨clock, none, false, outage⟩, _⟩) henter rfl, Option.bind_some]
    rw [go_of (s := ⟨⟨clock, none, true, outage⟩, _⟩) hread rfl, Option.bind_some]
  | some failedAt =>
    have hfar : ¬clock - failedAt < retryInterval := by
      have := hlate failedAt rfl
      grind
    have hcompare := set_self (.compareClock failedAt) hread
    have hclaimClock := set_self .claimClock hcompare
    have hclaim := set_self (.claimStamp clock) hclaimClock
    refine ⟨5, ⟨⟨clock, some clock, false, clock :: outage⟩, _⟩, ?_, set_self .publish hclaim⟩
    simp only [run, List.replicate, hcall, Option.bind_some]
    rw [go_of (s := ⟨⟨clock, some failedAt, false, outage⟩, _⟩) henter rfl, Option.bind_some]
    rw [go_of (s := ⟨⟨clock, some failedAt, true, outage⟩, _⟩) hread rfl, Option.bind_some]
    rw [go_of (s := ⟨⟨clock, some failedAt, true, outage⟩, _⟩) hcompare (by simp only [next, if_neg hfar]; rfl),
      Option.bind_some]
    rw [go_of (s := ⟨⟨clock, some failedAt, true, outage⟩, _⟩) hclaimClock rfl, Option.bind_some]
    rw [go_of (s := ⟨⟨clock, some failedAt, true, outage⟩, _⟩) hclaim rfl, Option.bind_some]

/-- **An outage costs few attempts.** Whatever the threads have to publish and the broker answers, however they take turns:
an outage is on record from the first failure that is written down until a click is published. From then on the attempts
that clicks make lie the interval apart from each other and from that failure, so that of them all there is at most one for
each interval that has gone by. And the broker is asked again: with the interval over and the lock free, the next call gets
through to it. -/
theorem outage_costs_few_attempts {es : List Event} (hstart : Started s) (hrun : run (step retryInterval) s es = some s') :
    (s'.shared.failedAt = none ↔ s'.shared.outage = []) ∧
    (∀ claims noticed, s'.shared.outage = claims ++ [noticed] →
      (claims ++ [noticed]).Pairwise (fun later earlier => earlier + retryInterval ≤ later) ∧
        claims.length * retryInterval ≤ s'.shared.clock - noticed) ∧
    ∀ i published accepted, s'.threads[i]? = some (.returned published) → s'.shared.locked = false →
      (∀ failedAt ∈ s'.shared.failedAt, failedAt + retryInterval ≤ s'.shared.clock) →
      ∃ n s'', run (step retryInterval) s' (.call i .click :: List.replicate n (.go i accepted)) = some s'' ∧
        s''.threads[i]? = some .publish := by
  have h : Inv retryInterval s' := run_inv step_inv hrun hstart.inv
  have hrecorded := h.recorded
  refine ⟨⟨hrecorded.upright, fun hnone => ?_⟩, ?_, fun i published accepted hi hunlocked hlate =>
    click_is_published hi hunlocked hlate accepted⟩
  · by_contra hsome
    exact hrecorded.noticed hsome hnone
  · intro claims noticed houtage
    have hspaced : Spaced retryInterval (claims ++ [noticed]) := houtage ▸ hrecorded.spaced
    refine ⟨hspaced, hspaced.length_mul_le fun a ha => ?_⟩
    have hsome : s'.shared.failedAt ≠ none := by
      intro hnone
      rw [hrecorded.upright hnone] at houtage
      exact List.append_ne_nil_of_right_ne_nil _ (List.cons_ne_nil _ _) houtage.symm
    obtain ⟨failedAt, hfailedAt⟩ := Option.ne_none_iff_exists'.mp hsome
    exact Int.le_trans (hrecorded.stamped failedAt hfailedAt a (houtage ▸ ha)) (hrecorded.past failedAt hfailedAt)

/-- Two threads, and nothing has gone wrong yet. -/
def idleQueue : System := ⟨⟨100, none, false, []⟩, [.returned true, .returned true]⟩

/-- The broker refuses a click; the next one is dropped, a message is tried all the same, and ten seconds later a click is
the one attempt. -/
def refusedEvents : List Event :=
  .call 0 .click :: List.replicate 6 (.go 0 false) ++ .call 1 .click :: List.replicate 3 (.go 1 false) ++
    .call 1 .message :: [.go 1 false] ++ .tick 10 :: .call 1 .click :: List.replicate 9 (.go 1 false)

theorem refused_clicks :
    (run (step 10) idleQueue refusedEvents).map (·.shared) = some ⟨110, some 110, false, [110, 100]⟩ ∧
    ∀ s' ∈ run (step 10) idleQueue refusedEvents, (1 : Int) * 10 ≤ s'.shared.clock - 100 := by
  have hstart : Started idleQueue := ⟨rfl, rfl, rfl, by decide⟩
  have hend : (run (step 10) idleQueue refusedEvents).map (·.shared) = some ⟨110, some 110, false, [110, 100]⟩ := by decide
  refine ⟨hend, fun s' hs' => ?_⟩
  have houtage : s'.shared.outage = [110] ++ [100] := by
    rw [hs', Option.map_some, Option.some.injEq] at hend
    rw [hend]
    rfl
  exact ((outage_costs_few_attempts hstart hs').2.1 [110] 100 houtage).2

end Runs

end LinkShortener.Outages.Dispatch
