import LinkShortener.Lib.Run
import LinkShortener.Lib.Processes
import LinkShortener.Domain.Errors
import LinkShortener.RateLimit.Memory

/-!
# The failure budget of an account

A sign-in asks whether the address has failures left, compares the password, and records a failure when it was wrong.
The question records nothing, so attempts that ask before the failures of the others are recorded all go on to compare
(`spray_exceeds_the_budget`).

* `State`, `step`: any number of sign-ins among each other, step by step; the accounts may change in between.
* `InTurn`: the question is answered with a yes only while fewer attempts are under way than the budget has left.
* `Within`: the invariant. `failures_stay_within_the_budget`: in a run of such steps no window holds more refused
  comparisons than the budget, and in any run whoever knows the password spends nothing.
-/

namespace LinkShortener

open Runs

namespace Login

open MemoryRateLimiter (Storage inWindow isAllowed getRemaining)

/-! ## Sign-ins -/

/-- The limits, how an address is normalised, and the digest its key is made of. -/
structure Settings where
  accountFailureLimit : Int
  accountFailurePeriod : Int
  normalise : String → String
  sha256 : String → String

/-- What a right password leads to. -/
structure Account where
  isActive : Bool
  emailVerified : Bool
  deriving DecidableEq, Repr

inductive Outcome
  | tooManyFailures
  | invalidCredentials
  | raised (e : DomainError)
  | accountDeactivated
  | emailNotVerified
  | succeeded
  deriving DecidableEq

/-- The password was right. -/
def Outcome.knewThePassword : Outcome → Bool
  | .accountDeactivated | .emailNotVerified | .succeeded => true
  | _ => false

inductive Pc
  | check
  | compare
  | spend
  | ended (outcome : Outcome)
  deriving DecidableEq

structure Attempt where
  email : String
  password : String
  point : Pc

/-- A comparison that found the password wrong. -/
structure Refusal where
  attempt : Nat
  email : String
  moment : Instant

/-- The limiter, the accounts and the attempts, the comparisons that were refused and the attempts that have spent. -/
structure State where
  now : Instant
  storage : Storage
  authenticate : String → String → Except DomainError (Option Account)
  attempts : List Attempt
  refusals : List Refusal
  spenders : List Nat

inductive Event
  | start (email password : String)
  | step (i : Nat)
  | tick (now : Instant)
  /-- Accounts come and go, and passwords change. -/
  | accounts (authenticate : String → String → Except DomainError (Option Account))

section Model

variable (cfg : Settings)

def failureKey (email : String) : String := "login-failure:" ++ cfg.sha256 (cfg.normalise email)

def budgetSpent (s : State) (email : String) : Bool :=
  if cfg.accountFailureLimit ≤ 0 then false
  else decide (getRemaining s.storage (failureKey cfg email) cfg.accountFailureLimit cfg.accountFailurePeriod s.now ≤ 0)

/-- What follows a right password. -/
def outcomeOf (account : Account) : Outcome :=
  if !account.isActive then .accountDeactivated else if !account.emailVerified then .emailNotVerified else .succeeded

def State.moveTo (s : State) (i : Nat) (a : Attempt) (p : Pc) : State :=
  { s with attempts := s.attempts.set i { a with point := p } }

/-- Record one wrong guess. -/
def spendBudget (s : State) (i : Nat) (email : String) : State :=
  if cfg.accountFailureLimit ≤ 0 then s
  else
    { s with
      storage := (isAllowed s.storage (failureKey cfg email) cfg.accountFailureLimit cfg.accountFailurePeriod s.now).2
      spenders := i :: s.spenders }

/-- **The next step of an attempt.** -/
def advance (s : State) (i : Nat) (a : Attempt) : Option State :=
  match a.point with
  | .check => some (s.moveTo i a (if budgetSpent cfg s a.email then .ended .tooManyFailures else .compare))
  | .compare =>
    match s.authenticate a.email a.password with
    | .error e => some (s.moveTo i a (.ended (.raised e)))
    | .ok none => some { s.moveTo i a .spend with refusals := ⟨i, a.email, s.now⟩ :: s.refusals }
    | .ok (some account) => some (s.moveTo i a (.ended (outcomeOf account)))
  | .spend => some ((spendBudget cfg s i a.email).moveTo i a (.ended .invalidCredentials))
  | .ended _ => none

/-- **One step of the system.** -/
def step (s : State) : Event → Option State
  | .start email password => some { s with attempts := s.attempts ++ [⟨email, password, .check⟩] }
  | .step i => s.attempts[i]?.bind (advance cfg s i)
  | .tick now => if s.now ≤ now then some { s with now := now } else none
  | .accounts authenticate => some { s with authenticate := authenticate }

end Model

/-- Nothing has been tried. -/
def State.fresh (now : Instant) (authenticate : String → String → Except DomainError (Option Account)) : State :=
  ⟨now, fun _ => [], authenticate, [], [], []⟩

/-! ## The condition -/

section Condition

variable (cfg : Settings)

/-- Past the question, and not done with it. -/
def underWay : Pc → Bool
  | .compare | .spend => true
  | _ => false

/-- The attempts against a key at some points. -/
def tally (points : Pc → Bool) (s : State) (key : String) : Nat :=
  s.attempts.countP fun a => points a.point && decide (failureKey cfg a.email = key)

/-- The attempts under way against a key. -/
def inFlight (s : State) (key : String) : Nat := tally cfg underWay s key

/-- **The condition**: an attempt that asks is let through only while fewer are under way than the budget has left. -/
def inTurn (s : State) : Event → Bool
  | .step i =>
    s.attempts[i]?.all fun a => decide (a.point = .check → budgetSpent cfg s a.email = false →
      (inFlight cfg s (failureKey cfg a.email) : Int) <
        getRemaining s.storage (failureKey cfg a.email) cfg.accountFailureLimit cfg.accountFailurePeriod s.now)
  | _ => true

def InTurn (s : State) (e : Event) : Prop := inTurn cfg s e = true

instance (s : State) (e : Event) : Decidable (InTurn cfg s e) := inferInstanceAs (Decidable (_ = true))

/-- The refused comparisons against an address in the window of length `P` from `x` on. -/
def refusedWithin (s : State) (address : String) (x : Instant) : Nat :=
  s.refusals.countP fun r =>
    decide (cfg.normalise r.email = address) && decide (x ≤ r.moment ∧ r.moment < x + cfg.accountFailurePeriod)

end Condition

/-! ## The invariant -/

/-- An attempt has found the password wrong and not recorded it. -/
def owes : Pc → Bool
  | .spend => true
  | _ => false

/-- The refused comparisons against a key at moments that satisfy `p`. -/
def refused (cfg : Settings) (refusals : List Refusal) (key : String) (p : Instant → Bool) : Nat :=
  refusals.countP fun r => decide (failureKey cfg r.email = key) && p r.moment

/-- **The budget is kept**: what is recorded and what is under way fit into it, and every comparison that was refused in
the current window is recorded or about to be. -/
structure Within (cfg : Settings) (s : State) : Prop where
  fits : ∀ key, ((inWindow s.storage key cfg.accountFailurePeriod s.now).length : Int) + inFlight cfg s key ≤
    cfg.accountFailureLimit
  recorded : ∀ key (x : Instant), s.now - cfg.accountFailurePeriod < x →
    refused cfg s.refusals key (fun m => decide (x ≤ m)) ≤
      (s.storage key).countP (fun ts => decide (x ≤ ts)) + tally cfg owes s key
  past : ∀ r ∈ s.refusals, r.moment ≤ s.now
  windows : ∀ key (x : Instant),
    (refused cfg s.refusals key (fun m => decide (x ≤ m ∧ m < x + cfg.accountFailurePeriod)) : Int) ≤
    cfg.accountFailureLimit

section Counting

variable {cfg : Settings} {s : State} {i : Nat} {a : Attempt} {key : String}

/-- An attempt that moves leaves one point and comes to another. -/
theorem tally_moveTo (cfg : Settings) (h : s.attempts[i]? = some a) (points : Pc → Bool) (p : Pc) (key : String) :
    tally cfg points (s.moveTo i a p) key + (points a.point && decide (failureKey cfg a.email = key)).toNat =
      tally cfg points s key + (points p && decide (failureKey cfg a.email = key)).toNat :=
  Processes.countP_set_add h

theorem refused_cons (cfg : Settings) (r : Refusal) (refusals : List Refusal) (key : String) (p : Instant → Bool) :
    refused cfg (r :: refusals) key p =
      refused cfg refusals key p + (decide (failureKey cfg r.email = key) && p r.moment).toNat := by
  rw [refused, List.countP_cons]
  cases decide (failureKey cfg r.email = key) && p r.moment <;> rfl

/-- Who owes is under way. -/
theorem tally_owes_le (cfg : Settings) (s : State) (key : String) : tally cfg owes s key ≤ inFlight cfg s key := by
  apply List.countP_mono_left
  intro a _ h
  cases hp : a.point with
  | spend =>
    rw [hp] at h
    exact h
  | check => rw [hp] at h; cases h
  | compare => rw [hp] at h; cases h
  | ended o => rw [hp] at h; cases h

/-- What is recorded from a moment of the current window on is in it. -/
theorem countP_le_inWindow (cfg : Settings) {x : Instant} (h : s.now - cfg.accountFailurePeriod < x) (key : String) :
    (s.storage key).countP (fun ts => decide (x ≤ ts)) ≤
      (inWindow s.storage key cfg.accountFailurePeriod s.now).length := by
  rw [inWindow, ← List.countP_eq_length_filter]
  apply List.countP_mono_left
  intro ts _ hts
  exact decide_eq_true (Int.lt_of_lt_of_le h (of_decide_eq_true hts))

end Counting

/-! ## Steps -/

section Steps

variable {cfg : Settings} {s s' : State} {i : Nat} {a : Attempt}

/-- An attempt that nobody counts any more, or that comes to nothing that counts. -/
theorem Within.settle (hs : Within cfg s) (ha : s.attempts[i]? = some a) {p : Pc} (hp : underWay p = false)
    (hold : owes a.point = false) : Within cfg (s.moveTo i a p) := by
  have howes : owes p = false := by
    cases p with
    | spend => cases hp
    | _ => rfl
  refine ⟨?_, ?_, hs.past, hs.windows⟩
  · intro key
    have hmove := tally_moveTo cfg ha underWay p key
    rw [hp, Bool.false_and] at hmove
    have hfits := hs.fits key
    unfold inFlight at hfits ⊢
    have hle : tally cfg underWay (s.moveTo i a p) key ≤ tally cfg underWay s key := by
      rw [← Nat.add_zero (tally cfg underWay s key), ← Bool.toNat_false, ← hmove]
      exact Nat.le_add_right _ _
    calc ((inWindow s.storage key cfg.accountFailurePeriod s.now).length : Int) + tally cfg underWay (s.moveTo i a p) key
        ≤ (inWindow s.storage key cfg.accountFailurePeriod s.now).length + tally cfg underWay s key := by omega
      _ ≤ cfg.accountFailureLimit := hfits
  · intro key x hx
    have hmove := tally_moveTo cfg ha owes p key
    rw [howes, hold, Bool.false_and] at hmove
    rw [Nat.add_right_cancel hmove]
    exact hs.recorded key x hx

/-- **An attempt is let through** in its turn. -/
theorem Within.serve (hs : Within cfg s) (ha : s.attempts[i]? = some a) (hp : a.point = .check)
    (hturn : (inFlight cfg s (failureKey cfg a.email) : Int) <
      getRemaining s.storage (failureKey cfg a.email) cfg.accountFailureLimit cfg.accountFailurePeriod s.now) :
    Within cfg (s.moveTo i a .compare) := by
  refine ⟨?_, ?_, hs.past, hs.windows⟩
  · intro key
    have hmove := tally_moveTo cfg ha underWay .compare key
    have hfits := hs.fits key
    rw [hp] at hmove
    by_cases hkey : failureKey cfg a.email = key
    · subst hkey
      unfold getRemaining at hturn
      unfold inFlight at hturn ⊢
      simp only [underWay, decide_true, Bool.and_true, Bool.toNat_false, Bool.toNat_true] at hmove
      show ((inWindow s.storage (failureKey cfg a.email) cfg.accountFailurePeriod s.now).length : Int) + _ ≤ _
      omega
    · simp only [decide_eq_false hkey, Bool.and_false, Bool.toNat_false, Nat.add_zero] at hmove
      unfold inFlight at hfits ⊢
      rw [hmove]
      exact hfits
  · intro key x hx
    have hmove := tally_moveTo cfg ha owes .compare key
    rw [hp] at hmove
    have hsame : tally cfg owes (s.moveTo i a .compare) key = tally cfg owes s key := hmove
    rw [hsame]
    exact hs.recorded key x hx

/-- **A comparison is refused.** -/
theorem Within.refuse (hs : Within cfg s) (ha : s.attempts[i]? = some a) (hp : a.point = .compare) :
    Within cfg { s.moveTo i a .spend with refusals := ⟨i, a.email, s.now⟩ :: s.refusals } := by
  have hfits : ∀ key, ((inWindow s.storage key cfg.accountFailurePeriod s.now).length : Int) +
      tally cfg underWay (s.moveTo i a .spend) key ≤ cfg.accountFailureLimit := by
    intro key
    have hmove := tally_moveTo cfg ha underWay .spend key
    rw [hp] at hmove
    rw [Nat.add_right_cancel hmove]
    exact hs.fits key
  have hrecorded : ∀ key (x : Instant), s.now - cfg.accountFailurePeriod < x →
      refused cfg (⟨i, a.email, s.now⟩ :: s.refusals) key (fun m => decide (x ≤ m)) ≤
        (s.storage key).countP (fun ts => decide (x ≤ ts)) + tally cfg owes (s.moveTo i a .spend) key := by
    intro key x hx
    have hmove := tally_moveTo cfg ha owes .spend key
    have hold := hs.recorded key x hx
    rw [hp] at hmove
    rw [refused_cons]
    by_cases hkey : failureKey cfg a.email = key
    · have hle := Bool.toNat_le (decide (x ≤ s.now))
      simp only [owes, hkey, decide_true, Bool.and_true, Bool.toNat_false, Bool.toNat_true, Bool.true_and] at hmove ⊢
      omega
    · simp only [owes, decide_eq_false hkey, Bool.and_false, Bool.toNat_false, Bool.false_and, Nat.add_zero] at hmove ⊢
      rw [hmove]
      exact hold
  refine ⟨hfits, hrecorded, ?_, ?_⟩
  · intro r hr
    rcases List.mem_cons.mp hr with rfl | hr
    · exact Int.le_refl _
    · exact hs.past r hr
  · intro key x
    by_cases hin : x ≤ s.now ∧ s.now < x + cfg.accountFailurePeriod
    · -- The window reaches to now: what it holds is recorded or owed.
      have hx : s.now - cfg.accountFailurePeriod < x := Int.sub_lt_iff.mpr hin.2
      have hsub : refused cfg (⟨i, a.email, s.now⟩ :: s.refusals) key
          (fun m => decide (x ≤ m ∧ m < x + cfg.accountFailurePeriod)) ≤
          refused cfg (⟨i, a.email, s.now⟩ :: s.refusals) key
          (fun m => decide (x ≤ m)) := by
        apply List.countP_mono_left
        intro r _ h
        simp only [Bool.and_eq_true, decide_eq_true_eq] at h ⊢
        exact ⟨h.1, h.2.1⟩
      have hlive := countP_le_inWindow cfg hx key
      have howe := tally_owes_le cfg (s.moveTo i a .spend) key
      have hall := hrecorded key x hx
      have hroom := hfits key
      unfold inFlight at howe
      show (refused cfg (⟨i, a.email, s.now⟩ :: s.refusals) key _ : Int) ≤ _
      omega
    · have hsame : refused cfg (⟨i, a.email, s.now⟩ :: s.refusals) key
          (fun m => decide (x ≤ m ∧ m < x + cfg.accountFailurePeriod)) =
          refused cfg s.refusals key (fun m => decide (x ≤ m ∧ m < x + cfg.accountFailurePeriod)) := by
        rw [refused_cons]
        simp only [decide_eq_false hin, Bool.and_false, Bool.toNat_false, Nat.add_zero]
      rw [hsame]
      exact hs.windows key x

/-- **A failure is recorded**: there is room for it. -/
theorem Within.spend (hs : Within cfg s) (hlimit : 0 < cfg.accountFailureLimit) (ha : s.attempts[i]? = some a)
    (hp : a.point = .spend) : Within cfg ((spendBudget cfg s i a.email).moveTo i a (.ended .invalidCredentials)) := by
  have hroom : ((inWindow s.storage (failureKey cfg a.email) cfg.accountFailurePeriod s.now).length : Int) <
      cfg.accountFailureLimit := by
    have hmove := tally_moveTo cfg ha underWay (.ended .invalidCredentials) (failureKey cfg a.email)
    have hfits := hs.fits (failureKey cfg a.email)
    rw [hp] at hmove
    simp only [underWay, decide_true, Bool.and_true, Bool.toNat_false, Bool.toNat_true] at hmove
    unfold inFlight at hfits
    omega
  have hstorage : (spendBudget cfg s i a.email).storage = Function.update s.storage (failureKey cfg a.email)
      (inWindow s.storage (failureKey cfg a.email) cfg.accountFailurePeriod s.now ++ [s.now]) := by
    rw [spendBudget, if_neg (Int.not_le.mpr hlimit), isAllowed, if_pos hroom]
  have hsame : (spendBudget cfg s i a.email).attempts = s.attempts ∧ (spendBudget cfg s i a.email).now = s.now ∧
      (spendBudget cfg s i a.email).refusals = s.refusals := by
    rw [spendBudget, if_neg (Int.not_le.mpr hlimit)]
    exact ⟨rfl, rfl, rfl⟩
  obtain ⟨hattempts, hnow, hrefusals⟩ := hsame
  have htally : ∀ points key, tally cfg points ((spendBudget cfg s i a.email).moveTo i a (.ended .invalidCredentials)) key =
      tally cfg points (s.moveTo i a (.ended .invalidCredentials)) key := by
    intro points key
    unfold tally State.moveTo
    rw [hattempts]
  refine ⟨?_, ?_, ?_, ?_⟩
  · intro key
    show ((inWindow (spendBudget cfg s i a.email).storage key _ (spendBudget cfg s i a.email).now).length : Int) + _ ≤ _
    have hmove := tally_moveTo cfg ha underWay (.ended .invalidCredentials) key
    have hfits := hs.fits key
    rw [hp] at hmove
    rw [inFlight, htally, hnow, hstorage]
    unfold inFlight at hfits
    by_cases hkey : failureKey cfg a.email = key
    · subst hkey
      simp only [underWay, decide_true, Bool.and_true, Bool.toNat_false, Bool.toNat_true] at hmove
      have hlen : (inWindow (Function.update s.storage (failureKey cfg a.email)
          (inWindow s.storage (failureKey cfg a.email) cfg.accountFailurePeriod s.now ++ [s.now]))
          (failureKey cfg a.email) cfg.accountFailurePeriod s.now).length ≤
          (inWindow s.storage (failureKey cfg a.email) cfg.accountFailurePeriod s.now).length + 1 := by
        nth_rewrite 1 [inWindow]
        rw [Function.update_self]
        refine Nat.le_trans (List.length_filter_le _ _) (Nat.le_of_eq ?_)
        rw [List.length_append, List.length_singleton]
      omega
    · simp only [decide_eq_false hkey, Bool.and_false, Bool.toNat_false, Nat.add_zero] at hmove
      unfold inWindow at hfits ⊢
      rw [Function.update_of_ne (Ne.symm hkey), hmove]
      exact hfits
  · intro key x hx
    have hx : s.now - cfg.accountFailurePeriod < x := by
      rw [← hnow]
      exact hx
    show refused cfg (spendBudget cfg s i a.email).refusals key _ ≤ ((spendBudget cfg s i a.email).storage key).countP _ + _
    have hmove := tally_moveTo cfg ha owes (.ended .invalidCredentials) key
    have hold := hs.recorded key x hx
    rw [hp] at hmove
    rw [htally, hrefusals, hstorage]
    by_cases hkey : failureKey cfg a.email = key
    · subst hkey
      simp only [owes, decide_true, Bool.and_true, Bool.toNat_false, Bool.toNat_true] at hmove
      -- What the window drops lies before `x`.
      have hkept : (inWindow s.storage (failureKey cfg a.email) cfg.accountFailurePeriod s.now).countP
          (fun ts => decide (x ≤ ts)) = (s.storage (failureKey cfg a.email)).countP (fun ts => decide (x ≤ ts)) := by
        rw [inWindow, List.countP_filter]
        apply List.countP_congr
        intro ts _
        simp only [Bool.and_eq_true, decide_eq_true_eq]
        exact ⟨fun h => h.1, fun h => ⟨h, Int.lt_of_lt_of_le hx h⟩⟩
      rw [Function.update_self, List.countP_append, hkept, List.countP_singleton]
      by_cases hlate : x ≤ s.now
      · rw [if_pos (decide_eq_true hlate)]
        omega
      · -- Nothing was refused after now.
        have hnone : refused cfg s.refusals (failureKey cfg a.email) (fun m => decide (x ≤ m)) = 0 := by
          rw [refused, List.countP_eq_zero]
          intro r hr h
          simp only [Bool.and_eq_true, decide_eq_true_eq] at h
          exact hlate (Int.le_trans h.2 (hs.past r hr))
        rw [hnone]
        exact Nat.zero_le _
    · simp only [decide_eq_false hkey, Bool.and_false, Bool.toNat_false, Nat.add_zero] at hmove
      rw [Function.update_of_ne (Ne.symm hkey), hmove]
      exact hold
  · show ∀ r ∈ (spendBudget cfg s i a.email).refusals, r.moment ≤ (spendBudget cfg s i a.email).now
    rw [hrefusals, hnow]
    exact hs.past
  · intro key x
    show (refused cfg (spendBudget cfg s i a.email).refusals key _ : Int) ≤ _
    rw [hrefusals]
    exact hs.windows key x

/-- Time goes by. -/
theorem Within.tick (hs : Within cfg s) {now : Instant} (hle : s.now ≤ now) : Within cfg { s with now := now } := by
  refine ⟨?_, ?_, ?_, hs.windows⟩
  · intro key
    have hshorter : (inWindow s.storage key cfg.accountFailurePeriod now).length ≤
        (inWindow s.storage key cfg.accountFailurePeriod s.now).length := by
      rw [inWindow, inWindow, ← List.countP_eq_length_filter, ← List.countP_eq_length_filter]
      apply List.countP_mono_left
      intro ts _ hts
      exact decide_eq_true (Int.lt_of_le_of_lt (Int.sub_le_sub_right hle _) (of_decide_eq_true hts))
    have hfits := hs.fits key
    show ((inWindow s.storage key cfg.accountFailurePeriod now).length : Int) + inFlight cfg s key ≤ _
    omega
  · intro key x hx
    exact hs.recorded key x (Int.lt_of_le_of_lt (Int.sub_le_sub_right hle _) hx)
  · intro r hr
    exact Int.le_trans (hs.past r hr) hle

/-- A new attempt has asked nothing yet. -/
theorem Within.start (hs : Within cfg s) (email password : String) :
    Within cfg { s with attempts := s.attempts ++ [⟨email, password, .check⟩] } := by
  have htally : ∀ points key, points Pc.check = false →
      tally cfg points { s with attempts := s.attempts ++ [⟨email, password, .check⟩] } key = tally cfg points s key := by
    intro points key hcheck
    unfold tally
    rw [List.countP_append, List.countP_singleton, hcheck, Bool.false_and, if_neg Bool.false_ne_true, Nat.add_zero]
  refine ⟨?_, ?_, hs.past, hs.windows⟩
  · intro key
    rw [inFlight, htally underWay key rfl]
    exact hs.fits key
  · intro key x hx
    rw [htally owes key rfl]
    exact hs.recorded key x hx

/-- **Every step in turn keeps the budget.** -/
theorem step_within {e : Event} (hlimit : 0 < cfg.accountFailureLimit) (hturn : InTurn cfg s e)
    (h : step cfg s e = some s') (hs : Within cfg s) : Within cfg s' := by
  cases e with
  | start email password =>
    cases h
    exact hs.start email password
  | tick now =>
    simp only [step] at h
    split at h
    · rename_i hle
      cases h
      exact hs.tick hle
    · cases h
  | accounts authenticate =>
    cases h
    exact ⟨hs.fits, hs.recorded, hs.past, hs.windows⟩
  | step i =>
    obtain ⟨a, ha, h⟩ := Option.bind_eq_some_iff.mp h
    rw [InTurn, inTurn, ha, Option.all_some, decide_eq_true_eq] at hturn
    cases hp : a.point with
    | check =>
      rw [advance, hp] at h
      cases h
      split
      · exact hs.settle ha rfl (by rw [hp]; rfl)
      · rename_i hspent
        exact hs.serve ha hp (hturn hp (Bool.eq_false_iff.mpr hspent))
    | compare =>
      have howes : owes a.point = false := by
        rw [hp]
        rfl
      rw [advance, hp] at h
      simp only at h
      split at h
      · cases h
        exact hs.settle ha rfl howes
      · cases h
        exact hs.refuse ha hp
      · cases h
        exact hs.settle ha rfl howes
    | spend =>
      rw [advance, hp] at h
      cases h
      exact hs.spend hlimit ha hp
    | ended o =>
      rw [advance, hp] at h
      cases h

/-! ## Who spends -/

/-- Who has spent has ended with a wrong password. -/
def SpentByFailures (s : State) : Prop :=
  ∀ i ∈ s.spenders, ∃ a, s.attempts[i]? = some a ∧ a.point = .ended .invalidCredentials

/-- An attempt that moves on has not ended. -/
theorem SpentByFailures.moveTo (hs : SpentByFailures s) (ha : s.attempts[i]? = some a)
    (hp : a.point ≠ .ended .invalidCredentials) (p : Pc) : SpentByFailures (s.moveTo i a p) := by
  intro j hj
  obtain ⟨b, hb, hend⟩ := hs j hj
  have hne : i ≠ j := by
    rintro rfl
    rw [ha] at hb
    cases hb
    exact hp hend
  exact ⟨b, (List.getElem?_set_ne hne).trans hb, hend⟩

theorem step_spentByFailures {e : Event} (h : step cfg s e = some s') (hs : SpentByFailures s) :
    SpentByFailures s' := by
  cases e with
  | start email password =>
    cases h
    intro j hj
    obtain ⟨b, hb, hend⟩ := hs j hj
    refine ⟨b, ?_, hend⟩
    rw [List.getElem?_append_left (List.getElem?_eq_some_iff.mp hb).1]
    exact hb
  | tick now =>
    simp only [step] at h
    split at h
    · cases h
      exact hs
    · cases h
  | accounts authenticate =>
    cases h
    exact hs
  | step i =>
    obtain ⟨a, ha, h⟩ := Option.bind_eq_some_iff.mp h
    cases hp : a.point with
    | check =>
      rw [advance, hp] at h
      cases h
      exact hs.moveTo ha (by rw [hp]; exact nofun) _
    | compare =>
      have hne : a.point ≠ .ended .invalidCredentials := by
        rw [hp]
        exact nofun
      rw [advance, hp] at h
      simp only at h
      split at h
      · cases h
        exact hs.moveTo ha hne _
      · cases h
        exact hs.moveTo ha hne .spend
      · cases h
        exact hs.moveTo ha hne _
    | spend =>
      have hne : a.point ≠ .ended .invalidCredentials := by
        rw [hp]
        exact nofun
      rw [advance, hp] at h
      cases h
      unfold spendBudget
      split
      · exact hs.moveTo ha hne _
      · intro j hj
        rcases List.mem_cons.mp hj with rfl | hj
        · exact ⟨_, List.getElem?_set_self (List.getElem?_eq_some_iff.mp ha).1, rfl⟩
        · exact hs.moveTo ha hne _ j hj
    | ended o =>
      rw [advance, hp] at h
      cases h

end Steps

/-! ## Runs -/

section Runs

variable {cfg : Settings} {s : State} {now : Instant}
  {authenticate : String → String → Except DomainError (Option Account)} {events : List Event}

theorem within_fresh (hlimit : 0 < cfg.accountFailureLimit) : Within cfg (State.fresh now authenticate) := by
  refine ⟨?_, ?_, by rintro _ ⟨⟩, ?_⟩
  · intro key
    exact Int.le_of_lt hlimit
  · intro key x _
    exact Nat.le_refl 0
  · intro key x
    exact Int.le_of_lt hlimit

/-- Addresses that normalise to the same string spend one budget. -/
theorem refusedWithin_le (cfg : Settings) (s : State) (address : String) (x : Instant) :
    refusedWithin cfg s address x ≤ refused cfg s.refusals ("login-failure:" ++ cfg.sha256 address)
      (fun m => decide (x ≤ m ∧ m < x + cfg.accountFailurePeriod)) := by
  apply List.countP_mono_left
  intro r _ h
  simp only [Bool.and_eq_true, decide_eq_true_eq] at h ⊢
  refine ⟨?_, h.2⟩
  rw [failureKey, h.1]

/-- **The failure budget bounds guessing** while the attempts are let through in turn: in no window of the period are more
comparisons refused against an address than the limit. Whoever knew the password has spent nothing, in turn or not. -/
theorem failures_stay_within_the_budget (hlimit : 0 < cfg.accountFailureLimit)
    (hrun : run (step cfg) (State.fresh now authenticate) events = some s) :
    (Meets (step cfg) (InTurn cfg) (State.fresh now authenticate) events →
      ∀ address x, (refusedWithin cfg s address x : Int) ≤ cfg.accountFailureLimit) ∧
    ∀ i a outcome, s.attempts[i]? = some a → a.point = .ended outcome → outcome.knewThePassword = true →
      i ∉ s.spenders := by
  constructor
  · intro hturns address x
    have hend : Within cfg s := run_inv_of_meets (I := Within cfg) (step_within hlimit) hturns hrun (within_fresh hlimit)
    have hbound := hend.windows ("login-failure:" ++ cfg.sha256 address) x
    have hle := refusedWithin_le cfg s address x
    omega
  · intro i a outcome ha hp hknew hi
    have hend : SpentByFailures s := run_inv (I := SpentByFailures) step_spentByFailures hrun (by rintro _ ⟨⟩)
    obtain ⟨b, hb, hwrong⟩ := hend i hi
    rw [ha] at hb
    cases hb
    rw [hp] at hwrong
    cases hwrong
    cases hknew

end Runs

/-! ## Guesses side by side -/

section Samples

def lowered (email : String) : String := String.ofList (email.toList.map Char.toLower)

/-- One wrong guess in a quarter of an hour. -/
def oneGuess : Settings := ⟨1, 900, lowered, id⟩

/-- One account, and its password. -/
def oneAccount (email password : String) : Except DomainError (Option Account) :=
  .ok (if lowered email = "a@x" ∧ password = "right" then some ⟨true, true⟩ else none)

/-- Both guesses ask before either of them is recorded. -/
def sideBySide : List Event :=
  [.start "a@x" "guess", .start "A@x" "other guess", .step 0, .step 1, .step 0, .step 1, .step 0, .step 1]

/-- **Guesses side by side exceed the budget.** -/
theorem spray_exceeds_the_budget : ∃ s, run (step oneGuess) (State.fresh 0 oneAccount) sideBySide = some s ∧
    oneGuess.accountFailureLimit < refusedWithin oneGuess s "a@x" 0 := by
  have hrun : ((run (step oneGuess) (State.fresh 0 oneAccount) sideBySide).map fun s =>
      refusedWithin oneGuess s "a@x" 0) = some 2 := by decide +kernel
  obtain ⟨s, hs, heq⟩ := Option.map_eq_some_iff.mp hrun
  refine ⟨s, hs, ?_⟩
  rw [heq]
  decide

/-- The same guesses one after the other, then the right password too early and in time. -/
def oneAfterTheOther : List Event :=
  [.start "a@x" "guess", .step 0, .step 0, .step 0, .start "A@x" "other guess", .step 1, .start "a@x" "right", .step 2,
    .tick 900, .start "a@x" "right", .step 3, .step 3]

theorem failures_stay_within_the_budget_in_turn :
    ∃ s, run (step oneGuess) (State.fresh 0 oneAccount) oneAfterTheOther = some s ∧
      (s.attempts.map (·.point)) = [.ended .invalidCredentials, .ended .tooManyFailures, .ended .tooManyFailures,
        .ended .succeeded] ∧
      (∀ address x, (refusedWithin oneGuess s address x : Int) ≤ oneGuess.accountFailureLimit) ∧ 3 ∉ s.spenders := by
  have hrun : ((run (step oneGuess) (State.fresh 0 oneAccount) oneAfterTheOther).map fun s => s.attempts.map (·.point)) =
      some [.ended .invalidCredentials, .ended .tooManyFailures, .ended .tooManyFailures, .ended .succeeded] := by
    decide +kernel
  have hturns : Meets (step oneGuess) (InTurn oneGuess) (State.fresh 0 oneAccount) oneAfterTheOther := by decide +kernel
  obtain ⟨s, hs, heq⟩ := Option.map_eq_some_iff.mp hrun
  obtain ⟨hbound, hspent⟩ := failures_stay_within_the_budget (by decide) hs
  refine ⟨s, hs, heq, hbound hturns, ?_⟩
  have hpoint : (s.attempts.map (·.point))[3]? = some (.ended .succeeded) := by
    rw [heq]
    rfl
  rw [List.getElem?_map, Option.map_eq_some_iff] at hpoint
  obtain ⟨a, ha, hp⟩ := hpoint
  exact hspent 3 a .succeeded ha hp rfl

end Samples

end Login

end LinkShortener
