import LinkShortener.Lib.Run
import LinkShortener.Lib.Processes
import LinkShortener.Lib.Spacing
import LinkShortener.Basic

/-!
# Reconnecting to Redis

Any number of threads share one client. A thread that finds none, or finds it marked as gone, may dial the server again,
but only when the last attempt lies more than `retryInterval` back. The lock is held around the comparison and the stamp,
and neither around the dialling nor around the commands. Every reading and every writing of a shared attribute is a step
of its own, and a reading of the clock is one too: a thread may be held up between reading the clock and writing down what
it has read.

* `Pc`, `next`: `_execute_read` and `_execute_write` with `_ensure_connection` and `_mark_unavailable` inside, step by
  step. The two differ in what they hand back and in nothing else, so that a call has one answer: whether it was carried
  out.
* `step`: any number of threads among each other, and the clock, which does not run backwards.
* `Fresh`: no stamp is replaced by an older one. It is so when no thread is held up between its reading and its writing.
* `reconnections_are_throttled`: two attempts lie further apart than the interval, and commands go to clients that have
  answered.
-/

namespace LinkShortener.Outages

open Processes

/-- What the server makes of a ping or a command. A rejected command is an answer; it is not for a ping. -/
inductive Reply
  | done
  | responseError
  | redisError
  deriving DecidableEq, Repr

/-- Where a thread is. -/
inductive Pc
  | returned (carriedOut : Bool)
  | readClient
  | readAvailable
  | acquire
  | readClientLocked
  | readAvailableLocked
  | compareClock
  | compareStamp (now : Instant)
  | claimClock
  | claimStamp (now : Instant)
  | dial
  | failedClock
  | failedStamp (now : Instant)
  | writeClient (client : Nat)
  | writeAvailable
  | restoredClock
  | restoredStamp (now : Instant)
  | takeClient
  | operate (client : Nat)
  | dropAvailable
  | dropClient
  | dropClock
  | dropStamp (now : Instant)
  deriving DecidableEq, Repr

/-- What the threads share. Of the attempts there is when each of them was claimed, the last first, and of the clients
which have answered a ping. -/
structure Shared where
  clock : Instant
  client : Option Nat
  available : Bool
  lastAttempt : Instant
  locked : Bool
  dials : List Instant
  answered : List Nat
  deriving DecidableEq, Repr

/-- One step of a thread. `reply` is what the server says, if the step asks it. -/
def next (retryInterval : Int) (sh : Shared) (reply : Reply) : Pc → Option (Shared × Pc)
  | .returned _ => some (sh, .readClient)
  -- A client believed to be up is used without probing it.
  | .readClient => some (sh, if sh.client.isSome then .readAvailable else .acquire)
  | .readAvailable => some (sh, if sh.available then .takeClient else .acquire)
  | .acquire => if sh.locked then none else some ({ sh with locked := true }, .readClientLocked)
  | .readClientLocked => some (sh, if sh.client.isSome then .readAvailableLocked else .compareClock)
  | .readAvailableLocked =>
    if sh.available then some ({ sh with locked := false }, .takeClient) else some (sh, .compareClock)
  | .compareClock => some (sh, .compareStamp sh.clock)
  | .compareStamp now =>
    if now - sh.lastAttempt ≤ retryInterval then some ({ sh with locked := false }, .returned false)
    else some (sh, .claimClock)
  | .claimClock => some (sh, .claimStamp sh.clock)
  | .claimStamp now => some ({ sh with lastAttempt := now, locked := false, dials := now :: sh.dials }, .dial)
  | .dial =>
    match reply with
    | .done =>
      let client := sh.answered.length
      some ({ sh with answered := client :: sh.answered }, .writeClient client)
    | .responseError | .redisError => some (sh, .failedClock)
  | .failedClock => some (sh, .failedStamp sh.clock)
  | .failedStamp now => some ({ sh with lastAttempt := now }, .returned false)
  | .writeClient client => some ({ sh with client := some client }, .writeAvailable)
  | .writeAvailable => some ({ sh with available := true }, .restoredClock)
  | .restoredClock => some (sh, .restoredStamp sh.clock)
  | .restoredStamp now => some ({ sh with lastAttempt := now }, .takeClient)
  -- Read once: another thread may drop the client at any time.
  | .takeClient => some (sh, match sh.client with
    | some client => .operate client
    | none => .returned false)
  | .operate _ => some (sh, match reply with
    | .done => .returned true
    | .responseError => .returned false
    | .redisError => .dropAvailable)
  | .dropAvailable => some ({ sh with available := false }, .dropClient)
  | .dropClient => some ({ sh with client := none }, .dropClock)
  | .dropClock => some (sh, .dropStamp sh.clock)
  | .dropStamp now => some ({ sh with lastAttempt := now }, .returned false)

/-- The cache of one process with the threads that use it. -/
structure System where
  shared : Shared
  threads : List Pc
  deriving DecidableEq, Repr

inductive Event
  | tick (elapsed : Nat)
  | go (thread : Nat) (reply : Reply)
  deriving DecidableEq, Repr

def step (retryInterval : Int) (s : System) : Event → Option System
  | .tick elapsed => some { s with shared := { s.shared with clock := s.shared.clock + elapsed } }
  | .go i reply => do
    let pc ← s.threads[i]?
    let after ← next retryInterval s.shared reply pc
    return ⟨after.1, s.threads.set i after.2⟩

/-- The stamp a thread is about to write. -/
def Pc.stamp : Pc → Option Instant
  | .claimStamp now | .failedStamp now | .restoredStamp now | .dropStamp now => some now
  | _ => none

/-- No stamp is replaced by an older one. -/
def Fresh (s : System) : Event → Prop
  | .tick _ => True
  | .go i _ => ∀ pc ∈ s.threads[i]?, ∀ now ∈ pc.stamp, s.shared.lastAttempt ≤ now

instance (s : System) : DecidablePred (Fresh s)
  | .tick _ => isTrue trivial
  | .go i _ =>
    inferInstanceAs (Decidable (∀ pc ∈ s.threads[i]?, ∀ now ∈ pc.stamp, s.shared.lastAttempt ≤ now))

/-- Before the first call: nobody holds the lock, and a client that is there has answered `_connect`. -/
structure Started (s : System) : Prop where
  unlocked : s.shared.locked = false
  threads : ∀ pc ∈ s.threads, ∃ carriedOut, pc = .returned carriedOut
  dials : s.shared.dials = []
  client : ∀ c ∈ s.shared.client, c ∈ s.shared.answered

/-! ## What one step does -/

section Steps

variable {retryInterval : Int} {sh sh' : Shared} {reply : Reply} {pc pc' : Pc}

/-- Where the lock is held. -/
def Pc.inside : Pc → Bool
  | .readClientLocked | .readAvailableLocked | .compareClock | .compareStamp _ | .claimClock | .claimStamp _ => true
  | _ => false

/-- The client a thread has in hand. -/
def Pc.client : Pc → Option Nat
  | .writeClient c | .operate c => some c
  | _ => none

/-- What a thread behind the comparison has found out: every attempt lies far enough back. -/
def Due (retryInterval : Int) (sh : Shared) : Pc → Prop
  | .compareStamp now => now ≤ sh.clock
  | .claimClock => ∀ a ∈ sh.dials, a + retryInterval < sh.clock
  | .claimStamp now => ∀ a ∈ sh.dials, a + retryInterval < now
  | _ => True

theorem due_of_not_inside (h : pc.inside = false) : Due retryInterval sh pc := by
  cases pc <;> trivial

/-- The lock is taken on the way in and given back on the way out. -/
theorem next_locked (h : next retryInterval sh reply pc = some (sh', pc')) :
    Passes Pc.inside sh.locked pc sh'.locked pc' := by
  intro hheld
  cases pc <;> simp only [next, Pc.inside] at h hheld ⊢ <;> grind [Pc.inside]

/-- Time does not pass in a step, and only the stamp of a claim starts an attempt. -/
theorem next_dials (h : next retryInterval sh reply pc = some (sh', pc')) :
    sh'.clock = sh.clock ∧ (sh'.dials = sh.dials ∨ ∃ now, pc = .claimStamp now ∧ pc' = .dial ∧
      sh'.dials = now :: sh.dials ∧ sh'.lastAttempt = now) := by
  cases pc <;> simp only [next] at h <;> grind

theorem next_stamp (h : next retryInterval sh reply pc = some (sh', pc')) :
    sh'.lastAttempt = sh.lastAttempt ∨ sh'.lastAttempt ∈ pc.stamp := by
  cases pc <;> simp only [next, Pc.stamp] at h ⊢ <;> grind

/-- What a thread finds out, from what it had found out before. A comparison that succeeds is with a stamp no older than
the last attempt. -/
theorem next_due (h : next retryInterval sh reply pc = some (sh', pc')) (hdue : Due retryInterval sh pc)
    (hstamped : ∀ a ∈ sh.dials, a ≤ sh.lastAttempt) : Due retryInterval sh' pc' := by
  cases pc with
  | compareClock =>
    cases h
    exact Int.le_refl _
  | compareStamp now =>
    have hnow : now ≤ sh.clock := hdue
    simp only [next] at h
    split at h
    · cases h
      trivial
    · rename_i hlate
      cases h
      intro a ha
      have hle := hstamped a ha
      grind
  | claimClock =>
    cases h
    exact hdue
  | readClientLocked | readAvailableLocked | acquire =>
    simp only [next] at h
    split at h <;> cases h <;> trivial
  | _ =>
    apply due_of_not_inside
    simp only [next] at h
    grind [Pc.inside]

/-- A command is sent to a client that has answered before. -/
theorem next_client (h : next retryInterval sh reply pc = some (sh', pc')) (hshared : ∀ c ∈ sh.client, c ∈ sh.answered)
    (hown : ∀ c ∈ pc.client, c ∈ sh.answered) :
    sh.answered ⊆ sh'.answered ∧ (∀ c ∈ sh'.client, c ∈ sh'.answered) ∧ ∀ c ∈ pc'.client, c ∈ sh'.answered := by
  cases pc <;> simp only [next, Pc.client] at h hown ⊢ <;> grind [Pc.client]

end Steps

/-! ## Runs -/

section Runs

open Runs Spacing

variable {retryInterval : Int} {s s' : System} {e : Event}

structure Inv (retryInterval : Int) (s : System) : Prop where
  holder : Guarded Pc.inside s.shared.locked s.threads
  stamped : ∀ a ∈ s.shared.dials, a ≤ s.shared.lastAttempt
  due : ∀ pc ∈ s.threads, Due retryInterval s.shared pc
  spaced : Spaced (retryInterval + 1) s.shared.dials
  client : ∀ c ∈ s.shared.client, c ∈ s.shared.answered
  own : ∀ pc ∈ s.threads, ∀ c ∈ pc.client, c ∈ s.shared.answered

theorem Started.inv (h : Started s) : Inv retryInterval s := by
  have houtside : ∀ pc ∈ s.threads, pc.inside = false := by
    intro pc hpc
    obtain ⟨carriedOut, rfl⟩ := h.threads pc hpc
    rfl
  refine ⟨?_, ?_, fun pc hpc => due_of_not_inside (houtside pc hpc), ?_, h.client, ?_⟩
  · rw [h.unlocked]
    exact guarded_of_outside houtside
  · rw [h.dials]
    exact List.forall_mem_nil _
  · rw [h.dials]
    exact Spaced.nil
  · intro pc hpc c hc
    obtain ⟨carriedOut, rfl⟩ := h.threads pc hpc
    cases hc

theorem Inv.tick (h : Inv retryInterval s) (elapsed : Nat) :
    Inv retryInterval { s with shared := { s.shared with clock := s.shared.clock + elapsed } } := by
  refine ⟨h.holder, h.stamped, ?_, h.spaced, h.client, h.own⟩
  intro pc hpc
  have hdue := h.due pc hpc
  cases pc with
  | compareStamp now =>
    have hnow : now ≤ s.shared.clock := hdue
    show now ≤ s.shared.clock + elapsed
    grind
  | claimClock =>
    intro a ha
    have hlate : a + retryInterval < s.shared.clock := hdue a ha
    show a + retryInterval < s.shared.clock + elapsed
    grind
  | claimStamp now => exact hdue
  | _ => trivial

/-- The attempt a thread has claimed lies far enough behind all others, and nobody else is about to claim one. -/
theorem Inv.next {i : Nat} {pc pc' : Pc} {reply : Reply} {sh' : Shared} (h : Inv retryInterval s)
    (hi : s.threads[i]? = some pc) (hnext : Outages.next retryInterval s.shared reply pc = some (sh', pc'))
    (hfresh : ∀ now ∈ pc.stamp, s.shared.lastAttempt ≤ now) :
    Inv retryInterval ⟨sh', s.threads.set i pc'⟩ := by
  have hmem : pc ∈ s.threads := List.mem_of_getElem? hi
  obtain ⟨hgrow, hclient, hown⟩ := next_client hnext h.client (h.own pc hmem)
  have hstamp : s.shared.lastAttempt ≤ sh'.lastAttempt := by
    rcases next_stamp hnext with heq | hnew
    · exact Int.le_of_eq heq.symm
    · exact hfresh _ hnew
  have hholder : Guarded Pc.inside sh'.locked (s.threads.set i pc') := h.holder.set hi (next_locked hnext)
  have howns : ∀ other ∈ s.threads.set i pc', ∀ c ∈ other.client, c ∈ sh'.answered :=
    forall_mem_set (fun other hother c hc => hgrow (h.own other hother c hc)) hown
  obtain ⟨hclock, hdials | ⟨now, rfl, rfl, hdials, hlast⟩⟩ := next_dials hnext
  · refine ⟨hholder, ?_, ?_, hdials ▸ h.spaced, hclient, howns⟩
    · rw [hdials]
      exact fun a ha => Int.le_trans (h.stamped a ha) hstamp
    · refine forall_mem_set (fun other hother => ?_) (next_due hnext (h.due pc hmem) h.stamped)
      have hdue := h.due other hother
      cases other with
      | compareStamp now =>
        show now ≤ sh'.clock
        exact hclock ▸ hdue
      | claimClock => exact fun a ha => hclock ▸ hdue a (hdials ▸ ha)
      | claimStamp now => exact fun a ha => hdue a (hdials ▸ ha)
      | _ => trivial
  · -- A claim: whoever else had been let past the comparison would hold the lock as well.
    have hlate : ∀ a ∈ s.shared.dials, a + retryInterval < now := h.due _ hmem
    refine ⟨hholder, ?_, ?_, ?_, hclient, howns⟩
    · rw [hdials, hlast]
      intro a ha
      rcases List.mem_cons.mp ha with rfl | ha
      · exact Int.le_refl _
      · exact Int.le_trans (h.stamped a ha) (hfresh now rfl)
    · intro other hother
      exact due_of_not_inside (h.holder.alone hi rfl rfl other hother)
    · rw [hdials]
      exact h.spaced.cons fun t ht => by have := hlate t ht; grind

theorem step_inv (hfresh : Fresh s e) (hstep : step retryInterval s e = some s') (h : Inv retryInterval s) :
    Inv retryInterval s' := by
  cases e with
  | tick elapsed =>
    cases hstep
    exact h.tick elapsed
  | go i reply =>
    obtain ⟨pc, hi, hstep⟩ := Option.bind_eq_some_iff.mp hstep
    obtain ⟨after, hnext, hstep⟩ := Option.bind_eq_some_iff.mp hstep
    cases hstep
    exact h.next hi hnext (hfresh pc hi)

/-- **Redis is dialled at most once in an interval.** Whatever the threads do and the server answers, however they take
turns: unless a stamp is replaced by an older one, two attempts to reconnect lie further apart than the interval, so that
no stretch of that length holds two; and no command goes to a client that has not answered a ping. -/
theorem reconnections_are_throttled {es : List Event} (hstart : Started s) (hfresh : Meets (step retryInterval) Fresh s es)
    (hrun : run (step retryInterval) s es = some s') :
    (s'.shared.dials.Pairwise fun later earlier => earlier + retryInterval < later) ∧
    (∀ x, (s'.shared.dials.filter fun t => decide (x ≤ t ∧ t ≤ x + retryInterval)).length ≤ 1) ∧
    ∀ c, .operate c ∈ s'.threads → c ∈ s'.shared.answered := by
  have h : Inv retryInterval s' := run_inv_of_meets step_inv hfresh hrun hstart.inv
  refine ⟨h.spaced.imp fun hapart => by grind, fun x => ?_, fun c hc => h.own _ hc c rfl⟩
  have hone := h.spaced.at_most_one_in x
  simpa only [← Int.add_assoc, Int.lt_add_one_iff] using hone

/-- Two threads without a client; the server is down. -/
def outage : System := ⟨⟨100, none, false, 0, false, [], []⟩, [.returned false, .returned false]⟩

/-- The first thread dials in vain while the second is turned away; ten seconds later the second dials, and gets through. -/
def outageEvents : List Event :=
  List.replicate 8 (.go 0 .done) ++ List.replicate 6 (.go 1 .done) ++ List.replicate 3 (.go 0 .redisError) ++
    .tick 11 :: List.replicate 14 (.go 1 .done)

theorem outage_dials :
    (run (step 10) outage outageEvents).map (fun s => (s.shared.dials, s.threads)) =
      some ([111, 100], [.returned false, .operate 0]) ∧
    ∀ s' ∈ run (step 10) outage outageEvents,
      s'.shared.dials.Pairwise fun later earlier => earlier + 10 < later := by
  have hstart : Started outage := ⟨rfl, by decide, rfl, by decide⟩
  have hfresh : Meets (step 10) Fresh outage outageEvents := by decide
  exact ⟨by decide, fun s' hs' => (reconnections_are_throttled hstart hfresh hs').1⟩

end Runs

end LinkShortener.Outages
