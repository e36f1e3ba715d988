import Mathlib.Data.List.Basic

/-!
# Moments that lie apart

Moments are written down as they happen, the last first. `Spaced d` says that any two of them lie at least `d` apart,
`Spaced.at_most_one_in` that no stretch shorter than `d` holds two, and `Spaced.length_mul_le` how many there may be since
the first.
-/

namespace Spacing

/-- Any two moments lie at least `d` apart. The last is the first of the list. -/
def Spaced (d : Int) (moments : List Int) : Prop := moments.Pairwise fun later earlier => earlier + d ≤ later

variable {d now : Int} {moments : List Int}

theorem Spaced.nil : Spaced d [] := List.Pairwise.nil

theorem Spaced.cons (h : Spaced d moments) (hnow : ∀ t ∈ moments, t + d ≤ now) : Spaced d (now :: moments) :=
  List.pairwise_cons.mpr ⟨hnow, h⟩

/-- **A short stretch holds one moment at most.** -/
theorem Spaced.at_most_one_in (h : Spaced d moments) (x : Int) :
    (moments.filter fun t => decide (x ≤ t ∧ t < x + d)).length ≤ 1 := by
  have hpairs : Spaced d (moments.filter fun t => decide (x ≤ t ∧ t < x + d)) := h.filter _
  have hwithin : ∀ t ∈ moments.filter fun t => decide (x ≤ t ∧ t < x + d), x ≤ t ∧ t < x + d := by
    intro t ht
    exact of_decide_eq_true (List.mem_filter.mp ht).2
  rcases hlist : moments.filter fun t => decide (x ≤ t ∧ t < x + d) with _ | ⟨later, _ | ⟨earlier, rest⟩⟩
  · exact Nat.zero_le 1
  · exact Nat.le_refl 1
  · rw [hlist] at hpairs hwithin
    have hapart : earlier + d ≤ later := (List.pairwise_cons.mp hpairs).1 earlier List.mem_cons_self
    have hlater := hwithin later List.mem_cons_self
    have hearlier := hwithin earlier (List.mem_cons_of_mem _ List.mem_cons_self)
    omega

/-- **How many moments there may be.** Since the first of them as many intervals have gone by as there are others. -/
theorem Spaced.length_mul_le {first : Int} (h : Spaced d (moments ++ [first])) (hnow : ∀ t ∈ moments ++ [first], t ≤ now) :
    moments.length * d ≤ now - first := by
  induction moments generalizing now with
  | nil =>
    have hfirst : first ≤ now := hnow first (List.mem_singleton.mpr rfl)
    rw [List.length_nil, Int.natCast_zero, Int.zero_mul]
    omega
  | cons last rest ih =>
    obtain ⟨hapart, hrest⟩ := List.pairwise_cons.mp h
    have hbefore : ∀ t ∈ rest ++ [first], t ≤ last - d := by
      intro t ht
      have := hapart t ht
      omega
    have hlength := ih hrest hbefore
    have hlast : last ≤ now := hnow last List.mem_cons_self
    have hsucc : ((rest.length + 1 : Nat) : Int) * d = rest.length * d + d := by
      rw [Int.natCast_add, Int.natCast_one, Int.add_mul, Int.one_mul]
    rw [List.length_cons, hsucc]
    omega

end Spacing
