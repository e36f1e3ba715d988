import Mathlib.Data.List.Basic
import Mathlib.Order.Basic
import LinkShortener.Lib.Lines

/-!
# UTF-8 with replacement

A decoder that goes over the bytes one by one. What cannot be the beginning of a character, and a character that breaks off,
gives a replacement character, and the byte it breaks off at is read anew.

* `Pending`: a character that has begun, with the bytes that may come next.
* `decode_append`: an ASCII byte is always a character of its own, so the text before it and the text after it are decoded
  by themselves.
* `decode_splitOn`: splitting the text at an ASCII character is splitting the bytes.
* `lines_decode`, `rawLines_decode`: the lines of the text are those of the bytes, whether they are split off the whole text
  or read one after the other.
-/

namespace Utf8

/-- What stands for bytes that are no character. -/
def replacement : Char := Char.ofNat 0xFFFD

/-- A character that has begun: what its bytes say, how many bytes are missing behind the next one, and the bounds of that
one. Whatever it becomes is not a character of one byte. -/
structure Pending where
  value : Nat
  missing : Nat
  low : Nat
  high : Nat
  low_tail : 0x80 ≤ low
  high_tail : high ≤ 0xBF
  begun : 2 ≤ value ∨ (1 ≤ value ∧ 1 ≤ missing) ∨ (0x90 ≤ low ∧ 1 ≤ missing)

/-- A byte at the beginning of a character. -/
def start (b : UInt8) : List Char × Option Pending :=
  if b.toNat < 0x80 then ([Char.ofNat b.toNat], none)
  else if h : 0xC2 ≤ b.toNat ∧ b.toNat ≤ 0xDF then
    ([], some ⟨b.toNat % 32, 0, 0x80, 0xBF, Nat.le_refl _, Nat.le_refl _, by omega⟩)
  else if h : 0xE0 ≤ b.toNat ∧ b.toNat ≤ 0xEF then
    ([], some ⟨b.toNat % 16, 1, if b.toNat = 0xE0 then 0xA0 else 0x80, if b.toNat = 0xED then 0x9F else 0xBF,
      by split <;> omega, by split <;> omega, by split <;> omega⟩)
  else if h : 0xF0 ≤ b.toNat ∧ b.toNat ≤ 0xF4 then
    ([], some ⟨b.toNat % 8, 2, if b.toNat = 0xF0 then 0x90 else 0x80, if b.toNat = 0xF4 then 0x8F else 0xBF,
      by split <;> omega, by split <;> omega, by split <;> omega⟩)
  else ([replacement], none)

/-- What a byte adds to the text, and the character that is pending after it. -/
def step (p : Option Pending) (b : UInt8) : List Char × Option Pending :=
  match p with
  | none => start b
  | some p =>
    if h : p.low ≤ b.toNat ∧ b.toNat ≤ p.high then
      match p.missing with
      | 0 => ([Char.ofNat (p.value * 64 + b.toNat % 64)], none)
      | n + 1 => ([], some ⟨p.value * 64 + b.toNat % 64, n, 0x80, 0xBF, Nat.le_refl _, Nat.le_refl _, by
          have := p.begun
          have := p.low_tail
          have := p.high_tail
          omega⟩)
    else (replacement :: (start b).1, (start b).2)

/-- A character that is pending at the end breaks off there. -/
def finish : Option Pending → List Char
  | none => []
  | some _ => [replacement]

def decodeFrom (p : Option Pending) : List UInt8 → List Char
  | [] => finish p
  | b :: bytes => (step p b).1 ++ decodeFrom (step p b).2 bytes

/-- `bytes.decode("utf-8", errors="replace")`. -/
def decode (bytes : List UInt8) : List Char := decodeFrom none bytes

section Ascii

variable {b : UInt8} {p : Option Pending}

/-- An ASCII byte is a character, and ends one that is pending. -/
theorem step_ascii (hb : b.toNat < 0x80) (p : Option Pending) :
    step p b = (finish p ++ [Char.ofNat b.toNat], none) := by
  have hstart : start b = ([Char.ofNat b.toNat], none) := if_pos hb
  cases p with
  | none => exact hstart
  | some p =>
    have hlow := p.low_tail
    unfold step
    dsimp only
    rw [dif_neg (by omega), hstart]
    rfl

theorem decodeFrom_append (hb : b.toNat < 0x80) (p : Option Pending) (before after : List UInt8) :
    decodeFrom p (before ++ b :: after) = decodeFrom p before ++ Char.ofNat b.toNat :: decode after := by
  induction before generalizing p with
  | nil =>
    show (step p b).1 ++ decodeFrom (step p b).2 after = _
    rw [step_ascii hb, List.append_assoc]
    rfl
  | cons c before ih =>
    show (step p c).1 ++ decodeFrom (step p c).2 (before ++ b :: after) = _
    rw [ih, ← List.append_assoc]
    rfl

/-- **An ASCII byte separates the text.** -/
theorem decode_append (hb : b.toNat < 0x80) (before after : List UInt8) :
    decode (before ++ b :: after) = decode before ++ Char.ofNat b.toNat :: decode after :=
  decodeFrom_append hb none before after

end Ascii

section Newline

variable {c : Char}

/-- A number that is the code of no character stands for the first one. -/
theorem toNat_ofNat (n : Nat) : (Char.ofNat n).toNat = if n.isValidChar then n else 0 := by
  by_cases h : n.isValidChar
  · rw [Char.ofNat, dif_pos h, if_pos h]
    rfl
  · rw [Char.ofNat, dif_neg h, if_neg h]
    rfl

/-- A character is no other number's. -/
theorem ofNat_ne (hc : 0 < c.toNat) {n : Nat} (h : n ≠ c.toNat) : Char.ofNat n ≠ c := by
  intro heq
  have hcode := congrArg Char.toNat heq
  rw [toNat_ofNat] at hcode
  split at hcode <;> omega

theorem replacement_ne (h : c.toNat < 0x80) : replacement ≠ c := by
  intro heq
  have hcode : (0xFFFD : Nat) = c.toNat := congrArg Char.toNat heq
  omega

/-- What is not an ASCII character of one byte comes from a byte that is. -/
theorem not_mem_start (hc : 0 < c.toNat) (hascii : c.toNat < 0x80) {b : UInt8} (hb : b.toNat ≠ c.toNat) :
    c ∉ (start b).1 := by
  unfold start
  split
  · rw [List.mem_singleton]
    exact (ofNat_ne hc hb).symm
  · split
    · exact List.not_mem_nil
    · split
      · exact List.not_mem_nil
      · split
        · exact List.not_mem_nil
        · rw [List.mem_singleton]
          exact (replacement_ne hascii).symm

theorem not_mem_step (hc : 0 < c.toNat) (hascii : c.toNat < 0x80) (p : Option Pending) {b : UInt8}
    (hb : b.toNat ≠ c.toNat) :
    c ∉ (step p b).1 := by
  cases p with
  | none => exact not_mem_start hc hascii hb
  | some p =>
    unfold step
    dsimp only
    split
    · rename_i hin
      split
      · rename_i hmissing
        rw [List.mem_singleton]
        have hbegun := p.begun
        refine (ofNat_ne hc ?_).symm
        omega
      · exact List.not_mem_nil
    · rw [List.mem_cons, not_or]
      exact ⟨(replacement_ne hascii).symm, not_mem_start hc hascii hb⟩

theorem not_mem_decodeFrom (hc : 0 < c.toNat) (hascii : c.toNat < 0x80) {bytes : List UInt8}
    (h : ∀ b ∈ bytes, b.toNat ≠ c.toNat) (p : Option Pending) : c ∉ decodeFrom p bytes := by
  induction bytes generalizing p with
  | nil =>
    cases p with
    | none => exact List.not_mem_nil
    | some p =>
      show c ∉ [replacement]
      rw [List.mem_singleton]
      exact (replacement_ne hascii).symm
  | cons b bytes ih =>
    show c ∉ (step p b).1 ++ decodeFrom (step p b).2 bytes
    rw [List.mem_append, not_or]
    exact ⟨not_mem_step hc hascii p (h b List.mem_cons_self), ih (fun b hb => h b (List.mem_cons_of_mem _ hb)) _⟩

theorem toNat_ascii {b : UInt8} (hb : b.toNat < 0x80) : (Char.ofNat b.toNat).toNat = b.toNat := by
  rw [toNat_ofNat, if_pos (.inl (by omega))]

theorem not_mem_decode {b : UInt8} (hpos : 0 < b.toNat) (hb : b.toNat < 0x80) {bytes : List UInt8} (h : b ∉ bytes) :
    Char.ofNat b.toNat ∉ decode bytes := by
  have hcode := toNat_ascii hb
  refine not_mem_decodeFrom (by omega) (by omega) ?_ none
  intro b' hb' heq
  rw [hcode] at heq
  exact h (UInt8.toNat_inj.mp heq ▸ hb')

/-- **Splitting the text is splitting the bytes.** -/
theorem decode_splitOn {b : UInt8} (hpos : 0 < b.toNat) (hb : b.toNat < 0x80) (bytes : List UInt8) :
    (decode bytes).splitOn (Char.ofNat b.toNat) = (bytes.splitOn b).map decode := by
  induction bytes using Lines.piecesRec b with
  | free bytes hfree =>
    rw [List.splitOn_eq_singleton (not_mem_decode hpos hb hfree), List.splitOn_eq_singleton hfree]
    rfl
  | cut before after hfree ih =>
    rw [decode_append hb, List.splitOn_append_cons_self_of_not_mem (not_mem_decode hpos hb hfree),
      List.splitOn_append_cons_self_of_not_mem hfree, List.map_cons, ih]

end Newline

/-! ## Lines -/

section Lines

/-- The byte that ends a line. -/
def newline : UInt8 := 0x0A

theorem decodeFrom_pending_ne (p : Pending) (bytes : List UInt8) : decodeFrom (some p) bytes ≠ [] := by
  induction bytes generalizing p with
  | nil => exact List.cons_ne_nil _ _
  | cons b bytes ih =>
    show (step (some p) b).1 ++ decodeFrom (step (some p) b).2 bytes ≠ []
    unfold step
    dsimp only
    split
    · split
      · exact List.cons_ne_nil _ _
      · exact ih _
    · exact List.cons_ne_nil _ _

/-- Bytes are never decoded to nothing. -/
theorem decode_eq_nil {bytes : List UInt8} : decode bytes = [] ↔ bytes = [] := by
  constructor
  · intro h
    cases bytes with
    | nil => rfl
    | cons b bytes =>
      exfalso
      revert h
      show (start b).1 ++ decodeFrom (start b).2 bytes ≠ []
      unfold start
      split
      · exact List.cons_ne_nil _ _
      · split
        · exact decodeFrom_pending_ne _ _
        · split
          · exact decodeFrom_pending_ne _ _
          · split
            · exact decodeFrom_pending_ne _ _
            · exact List.cons_ne_nil _ _
  · rintro rfl
    rfl

theorem dropLastEmpty_map (pieces : List (List UInt8)) :
    Lines.dropLastEmpty (pieces.map decode) = (Lines.dropLastEmpty pieces).map decode := by
  unfold Lines.dropLastEmpty
  rw [List.getLast?_map]
  cases pieces.getLast? with
  | none => rfl
  | some piece =>
    cases piece with
    | nil => exact List.map_dropLast.symm
    | cons b piece =>
      rw [Option.map_some]
      cases hdecode : decode (b :: piece) with
      | nil => exact absurd (decode_eq_nil.mp hdecode) (List.cons_ne_nil _ _)
      | cons c text => rfl

/-- **The lines of the text are those of the bytes.** -/
theorem lines_decode (bytes : List UInt8) :
    Lines.lines '\n' (decode bytes) = (Lines.lines newline bytes).map decode := by
  have hsplit : (decode bytes).splitOn '\n' = (bytes.splitOn newline).map decode :=
    decode_splitOn (b := newline) (by decide) (by decide) bytes
  unfold Lines.lines
  rw [hsplit, dropLastEmpty_map]

/-- The end of a line is cut off. -/
theorem rdropWhile_newline {text : List Char} (h : '\n' ∉ text) : (text ++ ['\n']).rdropWhile (· = '\n') = text := by
  rw [List.rdropWhile_concat_pos _ _ _ (by simp), List.rdropWhile_eq_self_iff]
  intro hne hlast
  exact h (of_decide_eq_true hlast ▸ List.getLast_mem hne)

theorem rdropWhile_free {text : List Char} (h : '\n' ∉ text) : text.rdropWhile (· = '\n') = text := by
  rw [List.rdropWhile_eq_self_iff]
  intro hne hlast
  exact h (of_decide_eq_true hlast ▸ List.getLast_mem hne)

/-- **Reading forwards finds the same lines.** -/
theorem rawLines_decode (bytes : List UInt8) :
    ((Lines.rawLines newline bytes).map fun raw => (decode raw).rdropWhile (· = '\n')) =
      (Lines.lines newline bytes).map decode := by
  induction bytes using Lines.piecesRec newline with
  | free bytes hfree =>
    have hnot : '\n' ∉ decode bytes := not_mem_decode (b := newline) (by decide) (by decide) hfree
    rw [Lines.rawLines_free hfree, Lines.lines_free hfree]
    split
    · rfl
    · rw [List.map_singleton, List.map_singleton, rdropWhile_free hnot]
  | cut before after hfree ih =>
    have hnot : '\n' ∉ decode before := not_mem_decode (b := newline) (by decide) (by decide) hfree
    have hline : decode (before ++ [newline]) = decode before ++ ['\n'] := decode_append (by decide) before []
    rw [Lines.rawLines_append hfree, Lines.lines_append, List.splitOn_eq_singleton hfree, List.map_cons, hline,
      rdropWhile_newline hnot, ih]
    rfl

end Lines

end Utf8
