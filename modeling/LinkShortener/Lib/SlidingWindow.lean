import Mathlib.Algebra.Order.Group.Defs
import Mathlib.Algebra.Order.Group.Int
import Mathlib.Algebra.Order.Sub.Defs
import Mathlib.Data.List.Count
import Mathlib.Data.List.Induction
import Mathlib.Order.Lattice

/-!
# Sliding windows

A request is admitted while fewer than `limit` of the admitted ones lie in the window that ends with it. The whole history
is kept here; whoever keeps less and finds the same in every later window (`Follows`) admits the same.

* `serve`, `admitted`, `verdictsFrom`: what is admitted of a request, and of a sequence of them, and the answers.
* `admitted_bounded`: no window, wherever it ends, holds more than the limit.
* `limit_le_within`: a request is refused only by a full window.
* `burst_eq`: how many requests at one moment are admitted.
-/

namespace SlidingWindow

variable {T : Type} [AddCommGroup T] [LinearOrder T]

section Model

variable (limit : Int) (period : T)

/-- The moments of the window that ends at `now`. -/
def inWindow (now : T) (moments : List T) : List T := moments.filter fun ts => decide (now - period < ts)

def allows (moments : List T) (now : T) : Bool := decide (((inWindow period now moments).length : Int) < limit)

/-- The history with a request, if it is admitted. -/
def serve (moments : List T) (now : T) : List T := if allows limit period moments now then moments ++ [now] else moments

/-- What is admitted of a sequence of requests. -/
def admitted (readings : List T) : List T := readings.foldl (serve limit period) []

/-- The answers to a sequence of requests, after those that were admitted before. -/
def verdictsFrom (moments : List T) : List T → List Bool
  | [] => []
  | now :: readings => allows limit period moments now :: verdictsFrom (serve limit period moments now) readings

/-- How many moments lie in the window `(t - period, t]`. -/
def within (moments : List T) (t : T) : Nat := moments.countP fun ts => decide (t - period < ts ∧ ts ≤ t)

/-- How many of `n` requests at one moment are admitted. -/
def burst (moments : List T) (now : T) : Nat → Nat
  | 0 => 0
  | n + 1 => (allows limit period moments now).toNat + burst (serve limit period moments now) now n

end Model

/-! ## What is kept -/

section Follows

variable {period now now' : T} {kept moments : List T}

/-- In every window from `now` on, the same is found. -/
def Follows (period now : T) (kept moments : List T) : Prop :=
  ∀ now', now ≤ now' → inWindow period now' kept = inWindow period now' moments

theorem inWindow_append (period now : T) (a b : List T) :
    inWindow period now (a ++ b) = inWindow period now a ++ inWindow period now b := List.filter_append ..

theorem inWindow_inWindow [IsOrderedAddMonoid T] (h : now ≤ now') (moments : List T) :
    inWindow period now' (inWindow period now moments) = inWindow period now' moments := by
  unfold inWindow
  rw [List.filter_filter]
  apply List.filter_congr
  intro ts _
  rw [← Bool.decide_and, decide_eq_decide]
  constructor
  · exact fun hin => hin.1
  · exact fun hin => ⟨hin, lt_of_le_of_lt (sub_le_sub_right h period) hin⟩

theorem Follows.refl (period now : T) (moments : List T) : Follows period now moments moments := fun _ _ => rfl

theorem Follows.later (h : Follows period now kept moments) (hle : now ≤ now') : Follows period now' kept moments :=
  fun _ hlater => h _ (hle.trans hlater)

/-- What has left the window may be dropped. -/
theorem Follows.prune [IsOrderedAddMonoid T] (h : Follows period now kept moments) :
    Follows period now (inWindow period now kept) moments := by
  intro now' hle
  rw [inWindow_inWindow hle, h now' hle]

theorem Follows.allows (h : Follows period now kept moments) (limit : Int) :
    allows limit period kept now = allows limit period moments now := by
  unfold SlidingWindow.allows
  rw [h now le_rfl]

theorem Follows.record (h : Follows period now kept moments) (ts : T) :
    Follows period now (kept ++ [ts]) (moments ++ [ts]) := by
  intro now' hle
  rw [inWindow_append, inWindow_append, h now' hle]

end Follows

/-! ## No window is overfull -/

section Bound

variable {limit : Int} {period now : T} {moments : List T}

/-- No window holds more than the limit. -/
def Bounded (limit : Int) (period : T) (moments : List T) : Prop := ∀ t, (within period moments t : Int) ≤ max 0 limit

/-- Nothing lies ahead of the window that ends now. -/
theorem length_inWindow (hpast : ∀ ts ∈ moments, ts ≤ now) :
    (inWindow period now moments).length = within period moments now := by
  unfold inWindow within
  rw [← List.countP_eq_length_filter]
  apply List.countP_congr
  intro ts hts
  simp only [decide_eq_true_eq]
  exact ⟨fun h => ⟨h, hpast ts hts⟩, fun h => h.1⟩

/-- **A request is refused only by a full window.** -/
theorem limit_le_within (hpast : ∀ ts ∈ moments, ts ≤ now) (hno : allows limit period moments now = false) :
    max 0 limit ≤ within period moments now := by
  have hfull := of_decide_eq_false hno
  rw [length_inWindow hpast] at hfull
  omega

/-- **Admitting keeps the bound**: a window that holds the new moment reaches no further back than the one that ends
with it. -/
theorem admit_bounded [IsOrderedAddMonoid T] (h : Bounded limit period moments) (now : T) :
    Bounded limit period (serve limit period moments now) := by
  unfold serve
  split
  · rename_i hallows
    have hroom := of_decide_eq_true hallows
    intro t
    have hold := h t
    unfold within at hold ⊢
    rw [List.countP_append, List.countP_singleton]
    by_cases hin : t - period < now ∧ now ≤ t
    · have hless : moments.countP (fun ts => decide (t - period < ts ∧ ts ≤ t)) ≤
          (inWindow period now moments).length := by
        unfold inWindow
        rw [← List.countP_eq_length_filter]
        apply List.countP_mono_left
        intro ts _ hts
        simp only [decide_eq_true_eq] at hts ⊢
        exact lt_of_le_of_lt (sub_le_sub_right hin.2 period) hts.1
      rw [if_pos (decide_eq_true hin)]
      omega
    · rw [if_neg (by simpa using hin), Nat.add_zero]
      exact hold
  · exact h

theorem admitted_concat (readings : List T) (now : T) :
    admitted limit period (readings ++ [now]) = serve limit period (admitted limit period readings) now := by
  unfold admitted
  rw [List.foldl_append]
  rfl

theorem verdictsFrom_concat (limit : Int) (period : T) (moments readings : List T) (now : T) :
    verdictsFrom limit period moments (readings ++ [now]) =
      verdictsFrom limit period moments readings ++
        [allows limit period (readings.foldl (serve limit period) moments) now] := by
  induction readings generalizing moments with
  | nil => rfl
  | cons r readings ih =>
    simp only [List.cons_append, verdictsFrom, ih, List.foldl_cons]

/-- **No window is overfull**, wherever it ends. -/
theorem admitted_bounded [IsOrderedAddMonoid T] (limit : Int) (period : T) (readings : List T) :
    Bounded limit period (admitted limit period readings) := by
  induction readings using List.reverseRecOn with
  | nil =>
    intro t
    exact le_max_left 0 limit
  | append_singleton readings now ih =>
    rw [admitted_concat]
    exact admit_bounded ih now

end Bound

/-! ## Requests at one moment -/

section Burst

variable {limit : Int} {period now : T} {moments : List T}

/-- The window has a length, or nothing is ever admitted. -/
def Counts (limit : Int) (period : T) : Prop := 0 < period ∨ limit ≤ 0

/-- **A burst is admitted as far as the window has room.** -/
theorem burst_eq [IsOrderedAddMonoid T] (h : Counts limit period) (moments : List T) (now : T) (n : Nat) :
    (burst limit period moments now n : Int) = min (n : Int)
      (max 0 (limit - (inWindow period now moments).length)) := by
  induction n generalizing moments with
  | zero =>
    unfold burst
    omega
  | succ n ih =>
    unfold burst
    rw [Int.natCast_add, ih]
    by_cases hallows : allows limit period moments now = true
    · have hroom := of_decide_eq_true hallows
      have hperiod : 0 < period := by
        refine h.resolve_right ?_
        omega
      have hlength : (inWindow period now (serve limit period moments now)).length =
          (inWindow period now moments).length + 1 := by
        unfold serve
        rw [if_pos hallows, inWindow_append, List.length_append]
        have hself : inWindow period now [now] =
            [now] := List.filter_cons_of_pos (decide_eq_true (sub_lt_self now hperiod))
        rw [hself]
        rfl
      rw [hlength, hallows, Bool.toNat_true]
      omega
    · have hfull := of_decide_eq_false (Bool.eq_false_iff.mpr hallows)
      have hsame : serve limit period moments now = moments := if_neg hallows
      rw [hsame, Bool.eq_false_iff.mpr hallows, Bool.toNat_false]
      omega

end Burst

end SlidingWindow
