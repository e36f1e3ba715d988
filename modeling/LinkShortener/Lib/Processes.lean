import Mathlib.Data.List.Basic

/-!
# Processes in a list

Any number of processes, each known by its place in a list. A step replaces one of them; these are the rules for what
holds of every process and for how many there are of a kind.

`Guarded`: a lock that is held in some of the states. A step that takes it on the way in and gives it back on the way out
(`Passes`) keeps whoever is inside alone.
-/

namespace Processes

variable {α : Type} {l : List α} {i : Nat} {a b : α}

/-- What holds of all others and of the new state holds of all. -/
theorem forall_mem_set {P : α → Prop} (h : ∀ x ∈ l, P x) (hb : P b) : ∀ x ∈ l.set i b, P x := by
  intro x hx
  rcases List.mem_or_eq_of_mem_set hx with hx | rfl
  · exact h x hx
  · exact hb

/-- **Counting rule**: the old state is taken off the count and the new one is put on it. -/
theorem countP_set_add {p : α → Bool} (h : l[i]? = some a) :
    (l.set i b).countP p + (p a).toNat = l.countP p + (p b).toNat := by
  obtain ⟨hi, rfl⟩ := List.getElem?_eq_some_iff.mp h
  have hle : (if p l[i] = true then 1 else 0) ≤ l.countP p := List.boole_getElem_le_countP (p := p) hi
  have htoNat : ∀ c : Bool, c.toNat = if c = true then 1 else 0 := by decide
  rw [List.countP_set hi, htoNat, htoNat]
  omega

/-! ## A lock -/

section Lock

variable {inside : α → Bool} {locked locked' : Bool}

/-- One process is inside while the lock is taken, and none while it is free. -/
def Guarded (inside : α → Bool) (locked : Bool) (l : List α) : Prop := l.countP inside = locked.toNat

/-- What a step makes of the lock: whoever is inside has it. -/
def Passes (inside : α → Bool) (locked : Bool) (a : α) (locked' : Bool) (b : α) : Prop :=
  (inside a = true → locked = true) → locked'.toNat + (inside a).toNat = locked.toNat + (inside b).toNat

theorem guarded_of_outside (h : ∀ x ∈ l, inside x = false) : Guarded inside false l :=
  List.countP_eq_zero.mpr fun x hx => by simp [h x hx]

theorem Guarded.taken (h : Guarded inside locked l) (ha : a ∈ l) (hinside : inside a = true) : locked = true := by
  by_contra hfree
  have hnone : l.countP inside = 0 := by
    rw [h, Bool.eq_false_iff.mpr hfree]
    rfl
  exact List.countP_eq_zero.mp hnone a ha hinside

/-- **Every step keeps the lock.** -/
theorem Guarded.set (h : Guarded inside locked l) (ha : l[i]? = some a) (hpasses : Passes inside locked a locked' b) :
    Guarded inside locked' (l.set i b) := by
  have hcount := countP_set_add (p := inside) (b := b) ha
  have hlock := hpasses (h.taken (List.mem_of_getElem? ha))
  unfold Guarded at h ⊢
  omega

/-- A step outside the lock. -/
theorem Guarded.set_outside (h : Guarded inside locked l) (ha : l[i]? = some a) (hsame : inside a = inside b) :
    Guarded inside locked (l.set i b) := by
  refine h.set ha fun _ => ?_
  rw [hsame]

/-- **While one process is inside, no other is.** -/
theorem Guarded.alone (h : Guarded inside locked l) (ha : l[i]? = some a) (hinside : inside a = true)
    (hout : inside b = false) : ∀ x ∈ l.set i b, inside x = false := by
  have hcount := countP_set_add (p := inside) (b := b) ha
  have hone : l.countP inside ≤ 1 := by
    rw [h]
    exact Bool.toNat_le locked
  rw [hinside, hout, Bool.toNat_true, Bool.toNat_false] at hcount
  have hzero : (l.set i b).countP inside = 0 := by omega
  intro x hx
  simpa using List.countP_eq_zero.mp hzero x hx

end Lock

end Processes
