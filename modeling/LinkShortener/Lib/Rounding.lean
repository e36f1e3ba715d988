import Mathlib.Algebra.Order.Group.Int
import Mathlib.Algebra.Order.Ring.Int
import Mathlib.Tactic.Linarith
import Mathlib.Tactic.Ring

/-!
# Rounding

Quotients of integers as they are rounded by a division with a fixed number of digits.

* `nearestEven`: the nearest integer, and the even one of two.
* `wholePart`: the whole part of the double nearest to a quotient. It is the quotient (`wholePart_eq`) as long as the
  double has digits enough to tell the last fraction from 1, and at most one more (`wholePart_cases`).
-/

namespace Rounding

/-- The integer nearest to `a / b`; a tie goes to the even one. -/
def nearestEven (a b : Int) : Int :=
  if 2 * (a % b) < b then a / b
  else if b < 2 * (a % b) then a / b + 1
  else a / b + a / b % 2

/-- Binary digits behind the point of a number with 53 digits in all, of which those of `n` are in front. -/
def fractionDigits (n : Int) : Nat := 52 - n.toNat.log2

/-- The whole part of the double nearest to `a / b`, for quotients from 0 to `2 ^ 53`. -/
def wholePart (a b : Int) : Int :=
  nearestEven (a * 2 ^ fractionDigits (a / b)) b / 2 ^ fractionDigits (a / b)

section Nearest

variable {a b : Int}

theorem le_nearestEven (a b : Int) : a / b ≤ nearestEven a b := by
  have hparity := Int.emod_nonneg (a / b) (by decide : (2 : Int) ≠ 0)
  unfold nearestEven
  split
  · exact le_rfl
  · split <;> omega

theorem nearestEven_le (a b : Int) : nearestEven a b ≤ a / b + 1 := by
  have hparity := Int.emod_lt_of_pos (a / b) (by decide : (0 : Int) < 2)
  unfold nearestEven
  split
  · omega
  · split <;> omega

/-- The nearest integer is no more than a half too large. -/
theorem nearestEven_error (a b : Int) (hb : 0 < b) : 2 * (b * nearestEven a b) ≤ 2 * a + b := by
  have hdiv := Int.mul_ediv_add_emod a b
  have hrest := Int.emod_nonneg a hb.ne'
  by_cases hlow : 2 * (a % b) < b
  · unfold nearestEven
    rw [if_pos hlow]
    omega
  · have hle : b * nearestEven a b ≤ b * (a / b + 1) := Int.mul_le_mul_of_nonneg_left (nearestEven_le a b) hb.le
    rw [Int.mul_add, Int.mul_one] at hle
    omega

@[simp] theorem nearestEven_mul (n : Int) (hb : 0 < b) : nearestEven (n * b) b = n := by
  unfold nearestEven
  rw [Int.mul_emod_left, if_pos (by simpa using hb), Int.mul_ediv_cancel n hb.ne']

end Nearest

section WholePart

variable {a b : Int}

/-- A whole number of at most 53 digits is a double. -/
theorem wholePart_mul (n : Int) (hb : 0 < b) : wholePart (n * b) b = n := by
  have hpow : (0 : Int) < 2 ^ fractionDigits (n * b / b) := by positivity
  unfold wholePart
  rw [Int.mul_right_comm, nearestEven_mul _ hb, Int.mul_ediv_cancel n hpow.ne']

theorem le_wholePart (hb : 0 < b) : a / b ≤ wholePart a b := by
  have hpow : (0 : Int) < 2 ^ fractionDigits (a / b) := by positivity
  unfold wholePart
  rw [Int.le_ediv_iff_mul_le hpow]
  refine le_trans ?_ (le_nearestEven _ b)
  rw [Int.le_ediv_iff_mul_le hb, Int.mul_right_comm]
  exact Int.mul_le_mul_of_nonneg_right (Int.ediv_mul_le a hb.ne') hpow.le

theorem wholePart_le (hb : 0 < b) : wholePart a b ≤ a / b + 1 := by
  have hpow : (0 : Int) < 2 ^ fractionDigits (a / b) := by positivity
  have hquot : a * 2 ^ fractionDigits (a / b) / b < (a / b + 1) * 2 ^ fractionDigits (a / b) := by
    rw [Int.ediv_lt_iff_lt_mul hb, Int.mul_right_comm]
    exact Int.mul_lt_mul_of_pos_right (Int.lt_ediv_add_one_mul_self a hb) hpow
  unfold wholePart
  refine Int.le_of_lt_add_one ?_
  rw [Int.ediv_lt_iff_lt_mul hpow, Int.add_mul]
  have hle := nearestEven_le (a * 2 ^ fractionDigits (a / b)) b
  omega

theorem wholePart_cases (a : Int) (hb : 0 < b) : wholePart a b = a / b ∨ wholePart a b = a / b + 1 := by
  have hlow := le_wholePart (a := a) hb
  have hhigh := wholePart_le (a := a) hb
  omega

/-- **The whole part of the double is that of the quotient** when the last fraction before a whole number, `1 / b` short
of it, is more than half a digit away. -/
theorem wholePart_eq (hb : 0 < b) (h : b < 2 ^ (fractionDigits (a / b) + 1)) : wholePart a b = a / b := by
  have hpow : (0 : Int) < 2 ^ fractionDigits (a / b) := by positivity
  refine le_antisymm ?_ (le_wholePart hb)
  unfold wholePart
  refine Int.le_of_lt_add_one ?_
  rw [Int.ediv_lt_iff_lt_mul hpow]
  by_contra hreach
  -- Rounding up to the next whole number would be an error of more than a half.
  have herror := nearestEven_error (a * 2 ^ fractionDigits (a / b)) b hb
  have hrest : a + 1 ≤ b * (a / b + 1) := by
    have hlt := Int.lt_ediv_add_one_mul_self a hb
    rw [Int.mul_comm] at hlt
    omega
  have hup := Int.mul_le_mul_of_nonneg_left (not_lt.mp hreach) hb.le
  have hscaled := Int.mul_le_mul_of_nonneg_right hrest hpow.le
  rw [Int.pow_succ] at h
  rw [← Int.mul_assoc] at hup
  rw [Int.add_mul, Int.one_mul] at hscaled
  omega

end WholePart

end Rounding
