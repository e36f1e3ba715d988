import Mathlib.Data.List.DropRight
import Mathlib.Data.Nat.Digits.Defs
import LinkShortener.Lib.Text

/-!
# Integers in decimal

How an integer is written, and how a text is read as one. Reading is generous: white space around it is dropped, a sign may
stand in front, an underscore may stand between two digits, and the digits may be of any script. It is written in one way
only, `ofInt`, and `toInt?_ofInt` says that this is read back.
-/

namespace Decimal

open Text

/-! ## Writing -/

def digitChar (d : Nat) : Char := Char.ofNat (48 + d)

/-- The digits of a number, the first of them in front. -/
def digitsOf (n : Nat) : List Nat := if n = 0 then [0] else (Nat.digits 10 n).reverse

def ofNat (n : Nat) : List Char := (digitsOf n).map digitChar

def ofInt : Int → List Char
  | .ofNat n => ofNat n
  | .negSucc n => '-' :: ofNat (n + 1)

/-! ## Reading -/

/-- The zeros of the scripts that have decimal digits. -/
def zeros : List Nat :=
  [0x30, 0x660, 0x6F0, 0x7C0, 0x966, 0x9E6, 0xA66, 0xAE6, 0xB66, 0xBE6, 0xC66, 0xCE6, 0xD66, 0xDE6, 0xE50, 0xED0, 0xF20,
    0x1040, 0x1090, 0x17E0, 0x1810, 0x1946, 0x19D0, 0x1A80, 0x1A90, 0x1B50, 0x1BB0, 0x1C40, 0x1C50, 0xA620, 0xA8D0, 0xA900,
    0xA9D0, 0xA9F0, 0xAA50, 0xABF0, 0xFF10, 0x104A0, 0x10D30, 0x11066, 0x110F0, 0x11136, 0x111D0, 0x112F0, 0x11450, 0x114D0,
    0x11650, 0x116C0, 0x11730, 0x118E0, 0x11950, 0x11C50, 0x11D50, 0x11DA0, 0x11F50, 0x16A60, 0x16AC0, 0x16B50, 0x1D7CE,
    0x1D7D8, 0x1D7E2, 0x1D7EC, 0x1D7F6, 0x1E140, 0x1E2F0, 0x1E4F0, 0x1E950, 0x1FBF0]

/-- The value of a digit. -/
def digit? (c : Char) : Option Nat :=
  (zeros.find? fun z => decide (z ≤ c.toNat ∧ c.toNat ≤ z + 9)).map (c.toNat - ·)

/-- More digits than these are not read. -/
def maxDigits : Nat := 4300

/-- Digits, with single underscores between them. -/
def toNat? (s : List Char) : Option Nat := do
  let groups ← (s.splitOn '_').mapM fun group => if group = [] then none else group.mapM digit?
  if groups.flatten.length ≤ maxDigits then some (Nat.ofDigits 10 groups.flatten.reverse) else none

/-- White space taken off at both ends. -/
def strip (s : List Char) : List Char := (s.dropWhile isSpace).rdropWhile isSpace

def signed? : List Char → Option Int
  | '-' :: body => (toNat? body).map fun n : Nat => -(n : Int)
  | '+' :: body => (toNat? body).map Int.ofNat
  | body => (toNat? body).map Int.ofNat

def toInt? (s : List Char) : Option Int := signed? (strip s)

/-! ## What was written is read back -/

theorem digit?_digitChar : ∀ d < 10, digit? (digitChar d) = some d := by decide

theorem isSpace_digitChar : ∀ d < 10, isSpace (digitChar d) = false := by decide

theorem digitsOf_lt {n d : Nat} (h : d ∈ digitsOf n) : d < 10 := by
  unfold digitsOf at h
  split at h
  · obtain rfl := List.mem_singleton.mp h
    decide
  · exact Nat.digits_lt_base (by decide) (List.mem_reverse.mp h)

theorem ofDigits_digitsOf (n : Nat) : Nat.ofDigits 10 (digitsOf n).reverse = n := by
  unfold digitsOf
  split
  · rename_i hn
    rw [hn]
    rfl
  · rw [List.reverse_reverse, Nat.ofDigits_digits]

theorem mem_ofNat {n : Nat} {c : Char} (h : c ∈ ofNat n) : ∃ d < 10, digitChar d = c := by
  obtain ⟨d, hd, rfl⟩ := List.mem_map.mp h
  exact ⟨d, digitsOf_lt hd, rfl⟩

/-- What is no digit does not occur in a number. -/
theorem not_mem_ofNat {c : Char} (hc : ∀ d < 10, digitChar d ≠ c) (n : Nat) : c ∉ ofNat n := by
  intro h
  obtain ⟨d, hd, heq⟩ := mem_ofNat h
  exact hc d hd heq

theorem not_mem_ofInt {c : Char} (hc : ∀ d < 10, digitChar d ≠ c) (hsign : '-' ≠ c) (n : Int) : c ∉ ofInt n := by
  cases n with
  | ofNat n => exact not_mem_ofNat hc n
  | negSucc n =>
    intro h
    rcases List.mem_cons.mp h with rfl | h
    · exact hsign rfl
    · exact not_mem_ofNat hc _ h

theorem mapM_digit? {ds : List Nat} (h : ∀ d ∈ ds, d < 10) : (ds.map digitChar).mapM digit? = some ds := by
  induction ds with
  | nil => rfl
  | cons d ds ih =>
    obtain ⟨hd, hds⟩ := List.forall_mem_cons.mp h
    rw [List.map_cons, List.mapM_cons, digit?_digitChar d hd, ih hds]
    rfl

theorem ofNat_ne_nil (n : Nat) : ofNat n ≠ [] := by
  unfold ofNat digitsOf
  split
  · exact List.cons_ne_nil _ _
  · rename_i hn
    simpa [Nat.digits_eq_nil_iff_eq_zero] using hn

theorem toNat?_ofNat {n : Nat} (h : (digitsOf n).length ≤ maxDigits) : toNat? (ofNat n) = some n := by
  unfold toNat?
  rw [List.splitOn_eq_singleton (not_mem_ofNat (by decide) n)]
  simp only [List.mapM_cons, List.mapM_nil, if_neg (ofNat_ne_nil n)]
  unfold ofNat
  rw [mapM_digit? fun d hd => digitsOf_lt hd]
  simp [h, ofDigits_digitsOf]

theorem mem_of_mem_strip {s : List Char} {c : Char} (h : c ∈ strip s) : c ∈ s :=
  (List.dropWhile_sublist _).subset ((List.rdropWhile_prefix _ _).subset h)

theorem strip_of_forall {s : List Char} (h : ∀ c ∈ s, isSpace c = false) : strip s = s := by
  have hfront : s.dropWhile isSpace = s := by
    cases s with
    | nil => rfl
    | cons c s => rw [List.dropWhile_cons_of_neg (by simp [h c List.mem_cons_self])]
  unfold strip
  rw [hfront, List.rdropWhile_eq_self_iff]
  intro hne
  simp [h _ (List.getLast_mem hne)]

theorem not_space_ofInt {n : Int} {c : Char} (h : c ∈ ofInt n) : isSpace c = false := by
  cases n with
  | ofNat n =>
    obtain ⟨d, hd, rfl⟩ := mem_ofNat h
    exact isSpace_digitChar d hd
  | negSucc n =>
    rcases List.mem_cons.mp h with rfl | h
    · decide
    · obtain ⟨d, hd, rfl⟩ := mem_ofNat h
      exact isSpace_digitChar d hd

theorem signed?_ofNat (n : Nat) : signed? (ofNat n) = (toNat? (ofNat n)).map Int.ofNat := by
  have hminus := not_mem_ofNat (c := '-') (by decide) n
  have hplus := not_mem_ofNat (c := '+') (by decide) n
  unfold signed?
  split
  · simp_all
  · simp_all
  · rfl

/-- **What is written is read back.** -/
theorem toInt?_ofInt {n : Int} (h : (digitsOf n.natAbs).length ≤ maxDigits) : toInt? (ofInt n) = some n := by
  unfold toInt?
  rw [strip_of_forall fun c hc => not_space_ofInt hc]
  cases n with
  | ofNat n =>
    have hback : toNat? (ofNat n) = some n := toNat?_ofNat h
    show signed? (ofNat n) = _
    rw [signed?_ofNat, hback]
    rfl
  | negSucc n =>
    have hback : toNat? (ofNat (n + 1)) = some (n + 1) := toNat?_ofNat h
    show (toNat? (ofNat (n + 1))).map _ = _
    rw [hback]
    rfl

theorem ofNat_injective : Function.Injective ofNat := by
  intro m n h
  have hdigits := congrArg (List.mapM digit?) h
  unfold ofNat at hdigits
  rw [mapM_digit? fun d hd => digitsOf_lt hd, mapM_digit? fun d hd => digitsOf_lt hd] at hdigits
  rw [← ofDigits_digitsOf m, ← ofDigits_digitsOf n, Option.some.inj hdigits]

theorem ofInt_injective : Function.Injective ofInt := by
  intro m n h
  cases m with
  | ofNat m =>
    cases n with
    | ofNat n => rw [ofNat_injective h]
    | negSucc n =>
      have hm : ofNat m = '-' :: ofNat (n + 1) := h
      exact absurd (hm ▸ List.mem_cons_self) (not_mem_ofNat (by decide) m)
  | negSucc m =>
    cases n with
    | ofNat n =>
      have hn : '-' :: ofNat (m + 1) = ofNat n := h
      exact absurd (hn ▸ List.mem_cons_self) (not_mem_ofNat (by decide) n)
    | negSucc n =>
      have hmn := ofNat_injective (List.cons_eq_cons.mp h).2
      rw [Nat.succ.inj hmn]

end Decimal
