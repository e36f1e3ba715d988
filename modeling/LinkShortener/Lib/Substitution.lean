import Mathlib.Data.List.TakeWhile

/-!
# Substitution

What `re.sub` does with a text: from left to right, an occurrence of the pattern is written anew and passed over, and
everything else stays.

* `Pattern.textRec`: induction on a text as it is passed over.
* `Settled`: what every occurrence would be replaced by is what stands there. `sub_of_settled`: such a text stays.
-/

namespace Substitution

variable {α : Type}

/-- What an occurrence at the beginning of a text is replaced by, and what follows it. -/
structure Pattern (α : Type) where
  find : List α → Option (List α × List α)
  shorter : ∀ {s written rest}, find s = some (written, rest) → rest.length < s.length

namespace Pattern

variable (p : Pattern α)

def sub : List α → List α
  | [] => []
  | c :: s =>
    match _h : p.find (c :: s) with
    | none => c :: sub s
    | some (written, rest) => written ++ sub rest
  termination_by s => s.length
  decreasing_by
    · exact Nat.lt_succ_self _
    · exact p.shorter _h

variable {p}

theorem sub_nil : p.sub [] = [] := by
  unfold sub
  rfl

theorem sub_none {c : α} {s : List α} (h : p.find (c :: s) = none) : p.sub (c :: s) = c :: p.sub s := by
  rw [sub]
  split
  · rfl
  · rename_i hsome
    rw [h] at hsome
    cases hsome

theorem sub_some {s written rest : List α} (h : p.find s = some (written, rest)) : p.sub s = written ++ p.sub rest := by
  cases s with
  | nil => exact absurd (p.shorter h) (Nat.not_lt_zero _)
  | cons c s =>
    rw [sub]
    split
    · rename_i hnone
      rw [h] at hnone
      cases hnone
    · rename_i hsome
      rw [h] at hsome
      cases hsome
      rfl

variable (p) in
/-- **Induction on a text** as it is passed over. -/
theorem textRec {motive : List α → Prop} (nil : motive [])
    (stays : ∀ c s, p.find (c :: s) = none → motive s → motive (c :: s))
    (found : ∀ s written rest, p.find s = some (written, rest) → motive rest → motive s) (s : List α) : motive s := by
  generalize hn : s.length = n
  induction n using Nat.strongRecOn generalizing s with
  | _ n ih =>
    subst hn
    cases hfind : p.find s with
    | some out => exact found s out.1 out.2 hfind (ih _ (p.shorter hfind) _ rfl)
    | none =>
      cases s with
      | nil => exact nil
      | cons c s => exact stays c s hfind (ih _ (Nat.lt_succ_self _) _ rfl)

/-! ## Texts that stay -/

variable (p) in
/-- Every occurrence is what it would be replaced by. -/
def Settled (s : List α) : Prop := ∀ u, u <:+ s → ∀ written rest, p.find u = some (written, rest) → written ++ rest = u

theorem settled_nil : p.Settled [] := by
  intro u hu written rest h
  rw [List.suffix_nil.mp hu] at h
  exact absurd (p.shorter h) (Nat.not_lt_zero _)

theorem settled_cons {c : α} {s : List α} :
    p.Settled (c :: s) ↔ (∀ written rest, p.find (c :: s) = some (written, rest) → written ++ rest = c :: s) ∧
      p.Settled s := by
  constructor
  · intro h
    exact ⟨h _ List.suffix_rfl, fun u hu => h u (hu.trans (List.suffix_cons c s))⟩
  · rintro ⟨hhead, htail⟩ u hu
    rcases List.suffix_cons_iff.mp hu with rfl | hu
    · exact hhead
    · exact htail u hu

/-- A text that is settled stays as it is. -/
theorem sub_of_settled {s : List α} (h : p.Settled s) : p.sub s = s := by
  induction s using p.textRec with
  | nil => exact sub_nil
  | stays c s hnone ih => rw [sub_none hnone, ih (settled_cons.mp h).2]
  | found s written rest hsome ih =>
    have hsame := h s List.suffix_rfl written rest hsome
    rw [sub_some hsome, ih fun u hu => h u (hu.trans ⟨written, hsame⟩), hsame]

end Pattern

end Substitution
