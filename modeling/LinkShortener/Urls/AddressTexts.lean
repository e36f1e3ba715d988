import Mathlib.Data.List.Induction
import Mathlib.Data.List.Nodup
import LinkShortener.Lib.Decimal
import LinkShortener.Urls.AsciiHosts

/-!
# Addresses as text

`str(address)` of the addresses that `ipaddress` reads: four decimal numbers, or eight hexadecimal ones in which the first
of the longest runs of zeros is left out.

* `Ipv6Address.compressHextets`: the search for the run, as a scan from the left. `compress_cases` is all that is needed of
  it: what is left out is zeros, and at least two of them.
* `ipAddress_toText`: **what was written is read back.**
-/

namespace LinkShortener.Urls

open Text

/-! ## Numbers -/

section Numbers

theorem digitValue_digitChar : ∀ d < 16, digitValue (Nat.digitChar d) = d := by decide

theorem isDigit_digitChar_hexadecimal : ∀ d < 16, Radix.isDigit .hexadecimal (Nat.digitChar d) = true := by decide

variable {radix : Radix}

theorem one_lt_base (radix : Radix) : 1 < radix.base ∧ radix.base ≤ 16 := by
  cases radix <;> decide

theorem int_append (digits : Str) (c : Char) : int radix (digits ++ [c]) = int radix digits * radix.base + digitValue c := by
  unfold int
  rw [List.foldl_append]
  rfl

/-- The digits of a number, the last of them aside. -/
theorem toDigits_snoc {n : Nat} (h : radix.base ≤ n) : Nat.toDigits radix.base n =
    Nat.toDigits radix.base (n / radix.base) ++ [Nat.digitChar (n % radix.base)] :=
  Nat.toDigits_of_base_le (one_lt_base radix).1 h

/-- Digits are read as the number they were written for. -/
theorem int_of_toDigits (radix : Radix) (n : Nat) : int radix (Nat.toDigits radix.base n) = n := by
  obtain ⟨hone, hsixteen⟩ := one_lt_base radix
  induction n using Nat.strongRecOn with
  | ind n ih =>
    by_cases hn : n < radix.base
    · rw [Nat.toDigits_of_lt_base hn]
      have hvalue := digitValue_digitChar n (by omega)
      show 0 * radix.base + digitValue (Nat.digitChar n) = n
      omega
    · have hle : radix.base ≤ n := Nat.le_of_not_lt hn
      have hlast := digitValue_digitChar (n % radix.base) (by have := Nat.mod_lt n (show 0 < radix.base by omega); omega)
      rw [toDigits_snoc hle, int_append, hlast, ih _ (Nat.div_lt_self (by omega) hone)]
      exact Nat.div_add_mod' n radix.base

theorem mem_toDigits (radix : Radix) {n : Nat} {c : Char} (h : c ∈ Nat.toDigits radix.base n) :
    ∃ d < radix.base, Nat.digitChar d = c := by
  obtain ⟨hone, -⟩ := one_lt_base radix
  induction n using Nat.strongRecOn with
  | ind n ih =>
    by_cases hn : n < radix.base
    · rw [Nat.toDigits_of_lt_base hn, List.mem_singleton] at h
      exact ⟨n, hn, h.symm⟩
    · have hle : radix.base ≤ n := Nat.le_of_not_lt hn
      rw [toDigits_snoc hle] at h
      rcases List.mem_append.mp h with hfront | hlast
      · exact ih _ (Nat.div_lt_self (by omega) hone) hfront
      · exact ⟨n % radix.base, Nat.mod_lt n (by omega), (List.mem_singleton.mp hlast).symm⟩

theorem head_toDigits (radix : Radix) {n : Nat} (hn : n ≠ 0) : (Nat.toDigits radix.base n).head? ≠ some '0' := by
  obtain ⟨hone, hsixteen⟩ := one_lt_base radix
  have hzero : ∀ d < 16, d ≠ 0 → Nat.digitChar d ≠ '0' := by decide
  induction n using Nat.strongRecOn with
  | ind n ih =>
    by_cases hlt : n < radix.base
    · rw [Nat.toDigits_of_lt_base hlt]
      intro hhead
      exact hzero n (by omega) hn (Option.some.inj hhead)
    · have hle : radix.base ≤ n := Nat.le_of_not_lt hlt
      have hfront := ih _ (Nat.div_lt_self (by omega) hone) (Nat.div_ne_zero_iff.mpr ⟨by omega, hle⟩)
      rw [toDigits_snoc hle]
      cases hdigits : Nat.toDigits radix.base (n / radix.base) with
      | nil => exact absurd hdigits Nat.toDigits_ne_nil
      | cons c digits =>
        rw [hdigits] at hfront
        exact hfront

end Numbers

/-! ## IPv4 -/

namespace Ipv4Address

def octets (a : Ipv4Address) : List Nat := [a.ip / 2 ^ 24, a.ip / 2 ^ 16 % 2 ^ 8, a.ip / 2 ^ 8 % 2 ^ 8, a.ip % 2 ^ 8]

/-- `str(address)`. -/
def toText (a : Ipv4Address) : Str := ['.'].intercalate (a.octets.map (Nat.toDigits 10))

theorem octets_lt (a : Ipv4Address) : ∀ n ∈ a.octets, n < 256 := by
  have hbound := a.bound
  intro n hn
  simp only [octets, List.mem_cons, List.not_mem_nil, or_false] at hn
  omega

theorem parseOctet_toDigits {n : Nat} (h : n < 256) : parseOctet (Nat.toDigits 10 n) = some n := by
  have hdigits : (Nat.toDigits 10 n).all Char.isDigit = true :=
    List.all_eq_true.mpr fun c hc => Nat.isDigit_of_mem_toDigits (by decide) (by decide) hc
  have hlength : (Nat.toDigits 10 n).length ≤ 3 := (Nat.length_toDigits_le_iff (by decide) (by decide)).mpr (by omega)
  have hint : int .decimal (Nat.toDigits 10 n) = n := int_of_toDigits .decimal n
  have hzero : ¬(Nat.toDigits 10 n ≠ ['0'] ∧ (Nat.toDigits 10 n).head? = some '0') := by
    rintro ⟨hne, hhead⟩
    by_cases hn : n = 0
    · subst hn
      exact hne rfl
    · exact head_toDigits .decimal hn hhead
  unfold parseOctet
  rw [if_neg Nat.toDigits_ne_nil, hdigits, hint, if_neg (by decide), if_neg (by omega), if_neg hzero, if_neg (by omega)]

theorem mapM_parseOctet {ns : List Nat} (h : ∀ n ∈ ns, n < 256) : (ns.map (Nat.toDigits 10)).mapM parseOctet = some ns := by
  induction ns with
  | nil => rfl
  | cons n ns ih =>
    obtain ⟨hn, hns⟩ := List.forall_mem_cons.mp h
    rw [List.map_cons, List.mapM_cons, parseOctet_toDigits hn, ih hns]
    rfl

/-- The characters of an address. -/
theorem mem_toText {a : Ipv4Address} {c : Char} (h : c ∈ a.toText) : c = '.' ∨ c.isDigit = true := by
  rcases mem_of_mem_intercalate h with hdot | ⟨piece, hpiece, hc⟩
  · exact .inl hdot
  · obtain ⟨n, -, rfl⟩ := List.mem_map.mp hpiece
    exact .inr (Nat.isDigit_of_mem_toDigits (by decide) (by decide) hc)

theorem length_toText_le (a : Ipv4Address) : a.toText.length ≤ 16 := by
  refine length_intercalate_le (n := 3) fun piece hpiece => ?_
  obtain ⟨n, hn, rfl⟩ := List.mem_map.mp hpiece
  have hlt := a.octets_lt n hn
  exact (Nat.length_toDigits_le_iff (by decide) (by decide)).mpr (by omega)

theorem parse_toText (a : Ipv4Address) : parse a.toText = some a := by
  have hdot : ∀ text ∈ a.octets.map (Nat.toDigits 10), '.' ∉ text := by
    intro text htext hmem
    obtain ⟨n, -, rfl⟩ := List.mem_map.mp htext
    exact absurd (Nat.isDigit_of_mem_toDigits (by decide) (by decide) hmem) (by decide)
  have hsplit : a.toText.splitOn '.' = a.octets.map (Nat.toDigits 10) := List.splitOn_intercalate '.' hdot (List.cons_ne_nil _ _)
  have hslash : '/' ∉ a.toText := by
    intro hmem
    rcases mem_toText hmem with hno | hno <;> exact absurd hno (by decide)
  unfold parse
  rw [if_neg hslash]
  simp only [hsplit, List.length_map]
  rw [if_neg (by simp [octets]), mapM_parseOctet a.octets_lt]
  have hbound := a.bound
  have hnumber : a.octets.foldl (fun n octet => n * 256 + octet) 0 = a.ip := by
    simp only [octets, List.foldl_cons, List.foldl_nil]
    omega
  simp only [hnumber, ofNat?, dif_pos hbound]

end Ipv4Address

/-! ## IPv6 -/

namespace Ipv6Address

/-- The eight numbers of an address. -/
def hextets (ip : Nat) : List Nat := (List.range 8).map fun i => ip / 2 ^ (16 * (7 - i)) % 2 ^ 16

/-- How far the search for the longest run of zeros has come. `start` and `length` are about the run that is being read. -/
structure Scan where
  bestStart : Nat
  bestLength : Nat
  start : Option Nat
  length : Nat
  deriving DecidableEq, Repr

def Scan.next (s : Scan) (hextet : Str × Nat) : Scan :=
  if hextet.1 = ['0'] then
    let start := s.start.getD hextet.2
    if s.length + 1 > s.bestLength then ⟨start, s.length + 1, some start, s.length + 1⟩
    else ⟨s.bestStart, s.bestLength, some start, s.length + 1⟩
  else ⟨s.bestStart, s.bestLength, none, 0⟩

/-- The first of the longest runs of zeros. -/
def longestZeros (hextets : List Str) : Scan := hextets.zipIdx.foldl Scan.next ⟨0, 0, none, 0⟩

/-- `_compress_hextets`: a run of at least two zeros becomes one empty part, with one more at an end it reaches. -/
def compressHextets (hextets : List Str) : List Str :=
  let s := longestZeros hextets
  if s.bestLength > 1 then
    let stop := s.bestStart + s.bestLength
    let longer := if stop = hextets.length then hextets ++ [[]] else hextets
    let shorter := longer.take s.bestStart ++ [] :: longer.drop stop
    if s.bestStart = 0 then [] :: shorter else shorter
  else hextets

/-- The hextets of an address, as they are written. -/
def written (ip : Nat) : List Str := compressHextets ((hextets ip).map hex)

/-- `str(address)`. -/
def toText (a : Ipv6Address) : Str := [':'].intercalate (written a.ip) ++ mark '%' a.scopeId

/-! ### The run of zeros -/

/-- What the scan has found out about the hextets it has read. -/
structure Found (read : List Str) (s : Scan) : Prop where
  best : ∃ before after, read = before ++ List.replicate s.bestLength ['0'] ++ after ∧ before.length = s.bestStart
  current : ∃ before, read = before ++ List.replicate s.length ['0'] ∧ (∀ i ∈ s.start, i = before.length) ∧
    (s.start = none → s.length = 0)

theorem found_nil : Found [] ⟨0, 0, none, 0⟩ := ⟨⟨[], [], rfl, rfl⟩, [], rfl, nofun, fun _ => rfl⟩

theorem Found.next {read : List Str} {s : Scan} (h : Found read s) (hextet : Str) :
    Found (read ++ [hextet]) (s.next (hextet, read.length)) := by
  obtain ⟨bestBefore, bestAfter, hbest, hbestStart⟩ := h.best
  obtain ⟨before, hcurrent, hstart, hnone⟩ := h.current
  have hkept : ∃ bestBefore bestAfter, read ++ [hextet] = bestBefore ++ List.replicate s.bestLength ['0'] ++ bestAfter ∧
      bestBefore.length = s.bestStart :=
    ⟨bestBefore, bestAfter ++ [hextet], by rw [← List.append_assoc, ← hbest], hbestStart⟩
  unfold Scan.next
  dsimp only
  split
  · rename_i hzero
    subst hzero
    have hlonger : read ++ [['0']] = before ++ List.replicate (s.length + 1) ['0'] := by
      rw [List.replicate_succ', ← List.append_assoc, ← hcurrent]
    have hbegin : s.start.getD read.length = before.length := by
      cases hs : s.start with
      | some i => exact hstart i hs
      | none =>
        rw [Option.getD_none, hcurrent, hnone hs]
        simp
    have hreading : ∃ before, read ++ [['0']] = before ++ List.replicate (s.length + 1) ['0'] ∧
        (∀ i ∈ some (s.start.getD read.length), i = before.length) ∧
        (some (s.start.getD read.length) = none → s.length + 1 = 0) := by
      refine ⟨before, hlonger, ?_, nofun⟩
      intro i hi
      cases hi
      exact hbegin
    split
    · exact ⟨⟨before, [], by rw [List.append_nil]; exact hlonger, hbegin.symm⟩, hreading⟩
    · exact ⟨hkept, hreading⟩
  · exact ⟨hkept, read ++ [hextet], by simp, nofun, fun _ => rfl⟩

theorem found_longestZeros (hextets : List Str) : Found hextets (longestZeros hextets) := by
  induction hextets using List.reverseRecOn with
  | nil => exact found_nil
  | append_singleton read hextet ih =>
    unfold longestZeros
    rw [List.zipIdx_append, List.foldl_append]
    have hnext := ih.next hextet
    rw [Nat.zero_add]
    exact hnext

/-- A run at an end leaves an empty part there. -/
def atEnd (parts : List Str) : List Str := if parts = [] then [[]] else parts

/-- The parts that are written when the hextets between `before` and `after` are left out. -/
def gap (before after : List Str) : List Str := atEnd before ++ [] :: atEnd after

/-- **What is left out is zeros**, and at least two of them. -/
theorem compress_cases (hextets : List Str) : compressHextets hextets = hextets ∨ ∃ before skipped after, 2 ≤ skipped ∧
    hextets = before ++ List.replicate skipped ['0'] ++ after ∧ compressHextets hextets = gap before after := by
  unfold compressHextets
  dsimp only
  split
  · rename_i hlong
    obtain ⟨before, after, hsplit, hstart⟩ := (found_longestZeros hextets).best
    refine .inr ⟨before, _, after, hlong, hsplit, ?_⟩
    generalize (longestZeros hextets).bestLength = skipped, (longestZeros hextets).bestStart = start at hsplit hstart
    subst hsplit hstart
    have hlength : before.length + skipped = (before ++ List.replicate skipped ['0'] ++ after).length ↔ after = [] := by
      rw [List.length_append, List.length_append, List.length_replicate, ← List.length_eq_zero_iff]
      omega
    have htake : ∀ rest, (before ++ List.replicate skipped ['0'] ++ rest).take before.length = before := by
      intro rest
      rw [List.append_assoc, List.take_left]
    have hdrop : ∀ rest, (before ++ List.replicate skipped ['0'] ++ rest).drop (before.length + skipped) = rest := by
      intro rest
      exact List.drop_left' (by rw [List.length_append, List.length_replicate])
    simp only [hlength, List.length_eq_zero_iff, gap, atEnd]
    by_cases hafter : after = []
    · subst hafter
      have htake' := htake [[]]
      have hdrop' := hdrop [[]]
      simp only [if_true, List.append_nil] at htake' hdrop' ⊢
      rw [htake', hdrop']
      split
      · rename_i hbefore
        rw [hbefore]
        rfl
      · rfl
    · simp only [if_neg hafter, htake, hdrop]
      split
      · rename_i hbefore
        rw [hbefore]
        rfl
      · rfl
  · exact .inl rfl

/-! ### Reading it -/

theorem hex_ne_nil (n : Nat) : hex n ≠ [] := Nat.toDigits_ne_nil

theorem int_hex (n : Nat) : int .hexadecimal (hex n) = n := int_of_toDigits .hexadecimal n

theorem length_hex_le {n : Nat} (h : n < 2 ^ 16) : (hex n).length ≤ 4 :=
  (Nat.length_toDigits_le_iff (by decide) (by decide)).mpr h

theorem nil_not_mem_hex (ns : List Nat) : [] ∉ ns.map hex := by
  intro hmem
  obtain ⟨n, -, hn⟩ := List.mem_map.mp hmem
  exact hex_ne_nil n hn

/-- The characters of a hextet. -/
theorem isDigit_of_mem_hex {n : Nat} {c : Char} (h : c ∈ hex n) : Radix.isDigit .hexadecimal c = true := by
  obtain ⟨d, hd, rfl⟩ := mem_toDigits .hexadecimal h
  exact isDigit_digitChar_hexadecimal d hd

theorem parseHextet_hex {n : Nat} (h : n < 2 ^ 16) : parseHextet (hex n) = some n := by
  have hdigits : (hex n).all (Radix.isDigit .hexadecimal) = true := List.all_eq_true.mpr fun _ hc => isDigit_of_mem_hex hc
  have hlength := length_hex_le h
  unfold parseHextet
  rw [hdigits, if_neg (by decide), if_neg (by omega), if_neg (hex_ne_nil n), int_hex]

theorem mapM_parseHextet {ns : List Nat} (h : ∀ n ∈ ns, n < 2 ^ 16) : (ns.map hex).mapM parseHextet = some ns := by
  induction ns with
  | nil => rfl
  | cons n ns ih =>
    obtain ⟨hn, hns⟩ := List.forall_mem_cons.mp h
    rw [List.map_cons, List.mapM_cons, parseHextet_hex hn, ih hns]
    rfl

/-- The one empty part between the ends. -/
theorem skips_eq {parts : List Str} {k : Nat} (hk : 1 ≤ k ∧ k + 1 < parts.length) (hempty : parts[k]? = some [])
    (hothers : ∀ i, 1 ≤ i → i + 1 < parts.length → i ≠ k → parts[i]? ≠ some []) : skips parts = [k] := by
  have hmem : ∀ i, i ∈ skips parts ↔ i = k := by
    intro i
    simp only [skips, List.mem_filter, List.mem_map, List.mem_range, decide_eq_true_eq]
    constructor
    · rintro ⟨⟨j, hj, rfl⟩, hpart⟩
      by_contra hne
      have hlt : j + 1 < parts.length := by omega
      rw [List.getElem?_eq_getElem hlt, Option.getD_some] at hpart
      exact hothers (j + 1) (by omega) (by omega) hne (by rw [List.getElem?_eq_getElem hlt, hpart])
    · rintro rfl
      exact ⟨⟨i - 1, by omega, by omega⟩, by rw [hempty]; rfl⟩
  have hnodup : (skips parts).Nodup :=
    (List.Nodup.map (fun a b hab => Nat.succ_injective hab) List.nodup_range).filter _
  exact List.perm_singleton.mp ((List.perm_ext_iff_of_nodup hnodup (List.nodup_singleton k)).mpr
    fun i => (hmem i).trans List.mem_singleton.symm)

theorem getElem?_ne_nil {parts : List Str} (h : [] ∉ parts) (i : Nat) : parts[i]? ≠ some [] :=
  fun hi => h (List.mem_of_getElem? hi)

theorem atEnd_cases (parts : List Str) : parts = [] ∧ atEnd parts = [[]] ∨ parts ≠ [] ∧ atEnd parts = parts := by
  unfold atEnd
  split
  · exact .inl ⟨‹_›, rfl⟩
  · exact .inr ⟨‹_›, rfl⟩

/-- How parts with one gap are laid out. -/
theorem layout_eq {parts : List Str} {skip hi lo : Nat} (hskips : skips parts = [skip])
    (hhead : parts.head? = some [] ∧ hi = 0 ∧ skip = 1 ∨ parts.head? ≠ some [] ∧ hi = skip)
    (hlast : parts.getLast? = some [] ∧ lo = 0 ∧ parts.length = skip + 2 ∨
      parts.getLast? ≠ some [] ∧ parts.length = skip + 1 + lo) (hlt : hi + lo < 8) :
    layout parts = some (hi, 8 - (hi + lo), lo) := by
  have hhi : (if parts.head? = some [] then skip - 1 else skip) = hi := by
    rcases hhead with ⟨h, rfl, rfl⟩ | ⟨h, rfl⟩
    · rw [if_pos h]
    · rw [if_neg h]
  have hlo : (if parts.getLast? = some [] then parts.length - skip - 2 else parts.length - skip - 1) = lo := by
    rcases hlast with ⟨h, rfl, hlength⟩ | ⟨h, hlength⟩
    · rw [if_pos h]
      omega
    · rw [if_neg h]
      omega
  have hfirst : ¬(parts.head? = some [] ∧ hi ≠ 0) := by
    rintro ⟨h, hne⟩
    exact hne (hhead.elim (·.2.1) fun hno => absurd h hno.1)
  have hend : ¬(parts.getLast? = some [] ∧ lo ≠ 0) := by
    rintro ⟨h, hne⟩
    exact hne (hlast.elim (·.2.1) fun hno => absurd h hno.1)
  unfold layout
  rw [hskips]
  dsimp only
  rw [hhi, hlo, if_neg hfirst, if_neg hend, if_neg (by omega)]

theorem length_atEnd (parts : List Str) : 1 ≤ (atEnd parts).length ∧ (atEnd parts).length ≤ parts.length + 1 ∧
    parts.length ≤ (atEnd parts).length := by
  rcases atEnd_cases parts with ⟨rfl, h⟩ | ⟨hne, h⟩ <;> rw [h]
  · decide
  · have hpositive := List.length_pos_iff.mpr hne
    omega

/-- Eight parts none of which is empty. -/
theorem layout_whole {parts : List Str} (hempty : [] ∉ parts) (hlength : parts.length = 8) : layout parts = some (8, 0, 0) := by
  have hskips : skips parts = [] := by
    refine List.filter_eq_nil_iff.mpr fun i hi => ?_
    obtain ⟨j, hj, rfl⟩ := List.mem_map.mp hi
    have hlt : j + 1 < parts.length := by
      have := List.mem_range.mp hj
      omega
    rw [decide_eq_true_eq, List.getElem?_eq_getElem hlt, Option.getD_some]
    exact fun hnil => hempty (hnil ▸ List.getElem_mem hlt)
  have hhead : parts.head? ≠ some [] := fun h => hempty (List.mem_of_head? h)
  have hlast : parts.getLast? ≠ some [] := fun h => hempty (List.mem_of_getLast? h)
  unfold layout
  rw [hskips]
  exact if_pos ⟨hlength, hhead, hlast⟩

section Gap

variable {before after : List Str}

theorem length_gap : (gap before after).length = (atEnd before).length + 1 + (atEnd after).length := by
  rw [gap, List.length_append, List.length_cons]
  omega

theorem take_gap : (gap before after).take before.length = before := by
  rcases atEnd_cases before with ⟨rfl, -⟩ | ⟨-, h⟩
  · rfl
  · rw [gap, h, List.take_left]

theorem drop_gap : (gap before after).drop ((gap before after).length - after.length) = after := by
  rcases atEnd_cases after with ⟨rfl, -⟩ | ⟨-, h⟩
  · rw [List.length_nil, Nat.sub_zero, List.drop_length]
  · have hassoc : gap before after = (atEnd before ++ [[]]) ++ after := by
      rw [gap, h, List.append_assoc, List.singleton_append]
    rw [hassoc, List.length_append, Nat.add_sub_cancel, List.drop_left]

variable (hbefore : [] ∉ before) (hafter : [] ∉ after)
include hbefore hafter

theorem skips_gap : skips (gap before after) = [(atEnd before).length] := by
  have hlength : (gap before after).length = (atEnd before).length + 1 + (atEnd after).length := length_gap
  have hone := (length_atEnd after).1
  refine skips_eq ⟨(length_atEnd before).1, by omega⟩ ?_ fun i hi hlt hne => ?_
  · rw [gap, List.getElem?_append_right (Nat.le_refl _), Nat.sub_self]
    rfl
  · rcases Nat.lt_or_gt_of_ne hne with hfront | hback
    · rw [gap, List.getElem?_append_left hfront]
      rcases atEnd_cases before with ⟨-, h⟩ | ⟨-, h⟩ <;> rw [h] at hfront ⊢
      · rw [List.length_singleton] at hfront
        omega
      · exact getElem?_ne_nil hbefore i
    · obtain ⟨j, rfl⟩ : ∃ j, i = (atEnd before).length + (j + 1) := ⟨i - (atEnd before).length - 1, by omega⟩
      rw [gap, List.getElem?_append_right (Nat.le_add_right _ _), Nat.add_sub_cancel_left, List.getElem?_cons_succ]
      rcases atEnd_cases after with ⟨-, h⟩ | ⟨-, h⟩ <;> rw [h] at hlength hone ⊢
      · rw [List.length_singleton] at hlength
        omega
      · exact getElem?_ne_nil hafter j

/-- How a gap is laid out. -/
theorem layout_gap (hlength : before.length + after.length ≤ 6) :
    layout (gap before after) = some (before.length, 8 - (before.length + after.length), after.length) := by
  refine layout_eq (skips_gap hbefore hafter) ?_ ?_ (by omega)
  · rcases atEnd_cases before with ⟨hnil, h⟩ | ⟨hne, h⟩ <;> rw [gap, h]
    · subst hnil
      exact .inl ⟨rfl, rfl, rfl⟩
    · obtain ⟨a, rest, rfl⟩ := List.exists_cons_of_ne_nil hne
      refine .inr ⟨fun hhead => hbefore ?_, rfl⟩
      rw [List.cons_append, List.head?_cons] at hhead
      exact Option.some.inj hhead ▸ List.mem_cons_self
  · rcases atEnd_cases after with ⟨hnil, h⟩ | ⟨hne, h⟩ <;> rw [gap, h]
    · subst hnil
      exact .inl ⟨by rw [List.getLast?_append_cons]; rfl, rfl, by rw [List.length_append]; rfl⟩
    · obtain ⟨b, rest, rfl⟩ := List.exists_cons_of_ne_nil hne
      refine .inr ⟨fun hlast => hafter ?_, by rw [List.length_append, List.length_cons]; omega⟩
      rw [List.getLast?_append_cons, List.getLast?_cons_cons] at hlast
      exact List.mem_of_getLast? hlast

end Gap

theorem hextets_lt (ip : Nat) : ∀ n ∈ hextets ip, n < 2 ^ 16 := by
  intro n hn
  obtain ⟨i, -, rfl⟩ := List.mem_map.mp hn
  exact Nat.mod_lt _ (by decide)

theorem ofHextets_append (n : Nat) (xs ys : List Nat) : ofHextets n (xs ++ ys) = ofHextets (ofHextets n xs) ys :=
  List.foldl_append

theorem ofHextets_replicate (n k : Nat) : ofHextets n (List.replicate k 0) = n * 2 ^ (16 * k) := by
  induction k with
  | zero => exact (Nat.mul_one n).symm
  | succ k ih =>
    rw [List.replicate_succ', ofHextets_append, ih]
    show n * 2 ^ (16 * k) * 2 ^ 16 + 0 = n * 2 ^ (16 * (k + 1))
    rw [Nat.add_zero, Nat.mul_assoc, ← Nat.pow_add]
    rfl

/-- A number below `2 ^ (16 * k)` from its `k` hextets, the highest of them first. -/
theorem ofHextets_range (k ip : Nat) :
    ofHextets 0 ((List.range k).map fun i => ip / 2 ^ (16 * (k - 1 - i)) % 2 ^ 16) = ip % 2 ^ (16 * k) := by
  induction k generalizing ip with
  | zero => exact (Nat.mod_one ip).symm
  | succ k ih =>
    have hfront : (List.range k).map (fun i => ip / 2 ^ (16 * (k + 1 - 1 - i)) % 2 ^ 16) =
        (List.range k).map fun i => ip / 2 ^ 16 / 2 ^ (16 * (k - 1 - i)) % 2 ^ 16 := by
      refine List.map_congr_left fun i hi => ?_
      have hlt := List.mem_range.mp hi
      rw [Nat.div_div_eq_div_mul, ← Nat.pow_add, show 16 + 16 * (k - 1 - i) = 16 * (k + 1 - 1 - i) by omega]
    have hlast : ip / 2 ^ (16 * (k + 1 - 1 - k)) % 2 ^ 16 = ip % 2 ^ 16 := by
      rw [Nat.add_sub_cancel, Nat.sub_self, Nat.mul_zero, Nat.pow_zero, Nat.div_one]
    rw [List.range_succ, List.map_append, ofHextets_append, hfront, ih, List.map_singleton, hlast,
      show 16 * (k + 1) = 16 + 16 * k by omega, Nat.pow_add, Nat.mod_mul]
    show ip / 2 ^ 16 % 2 ^ (16 * k) * 2 ^ 16 + ip % 2 ^ 16 = ip % 2 ^ 16 + 2 ^ 16 * (ip / 2 ^ 16 % 2 ^ (16 * k))
    rw [Nat.add_comm, Nat.mul_comm]

/-- The number of an address from its hextets. -/
theorem ofHextets_hextets {ip : Nat} (h : ip < 2 ^ 128) : ofHextets 0 (hextets ip) = ip :=
  (ofHextets_range 8 ip).trans (Nat.mod_eq_of_lt h)

/-- Zeros were written for zeros. -/
theorem eq_replicate_of_hex {ns : List Nat} {k : Nat} (h : ns.map hex = List.replicate k ['0']) : ns = List.replicate k 0 := by
  have hint : (ns.map hex).map (int .hexadecimal) = ns := by
    simp only [List.map_map, Function.comp_def, int_hex, List.map_id']
  rw [h, List.map_replicate] at hint
  exact hint.symm

/-- The number that is read from the parts of a text. -/
theorem number_eq {parts : List Str} {hi skipped lo : Nat} {high low : List Nat} (hcolon : ∀ part ∈ parts, ':' ∉ part)
    (hdot : ∀ part ∈ parts, '.' ∉ part) (hlength : 3 ≤ parts.length ∧ parts.length ≤ 9)
    (hlayout : layout parts = some (hi, skipped, lo)) (hhigh : (parts.take hi).mapM parseHextet = some high)
    (hlow : (parts.drop (parts.length - lo)).mapM parseHextet = some low) :
    number ([':'].intercalate parts) = some (ofHextets 0 (high ++ List.replicate skipped 0 ++ low)) := by
  have hsplit : ([':'].intercalate parts).splitOn ':' = parts :=
    List.splitOn_intercalate ':' hcolon (List.length_pos_iff.mp (by omega))
  have hne : [':'].intercalate parts ≠ [] := by
    intro hnil
    rw [hnil] at hsplit
    rw [← hsplit] at hlength
    exact absurd hlength.1 (by decide)
  have hlast : '.' ∉ parts.getLastD [] := by
    rw [List.getLastD_eq_getLast?]
    cases hl : parts.getLast? with
    | none => exact List.not_mem_nil
    | some part => exact hdot part (List.mem_of_getLast? hl)
  have hparts : hextetParts ([':'].intercalate parts) = some parts := by
    unfold hextetParts
    rw [hsplit]
    exact if_neg hlast
  unfold number
  rw [if_neg hne, hsplit, if_neg (by omega), hparts]
  dsimp only
  rw [if_neg (by omega), hlayout]
  dsimp only
  rw [hhigh, hlow, ofHextets_append, ofHextets_append, ofHextets_replicate]

/-- The parts that are written. -/
theorem mem_compress {hextets : List Str} {part : Str} (h : part ∈ compressHextets hextets) : part = [] ∨ part ∈ hextets := by
  have hend : ∀ parts, part ∈ atEnd parts → part = [] ∨ part ∈ parts := by
    intro parts hmem
    rcases atEnd_cases parts with ⟨-, he⟩ | ⟨-, he⟩ <;> rw [he] at hmem
    · exact .inl (List.mem_singleton.mp hmem)
    · exact .inr hmem
  rcases compress_cases hextets with hwhole | ⟨before, skipped, after, -, hsplit, hgap⟩
  · exact .inr (hwhole ▸ h)
  · rw [hgap, gap, List.mem_append, List.mem_cons] at h
    rw [hsplit, List.mem_append, List.mem_append]
    rcases h with h | h | h
    · exact (hend before h).imp_right fun h => .inl (.inl h)
    · exact .inl h
    · exact (hend after h).imp_right .inr

theorem mem_written {ip : Nat} {part : Str} (h : part ∈ written ip) : ∀ c ∈ part, Radix.isDigit .hexadecimal c = true := by
  rcases mem_compress h with rfl | hmem
  · exact fun _ hno => absurd hno List.not_mem_nil
  · obtain ⟨n, -, rfl⟩ := List.mem_map.mp hmem
    exact fun _ => isDigit_of_mem_hex

/-- **The hextets are read as the number they were written for.** -/
theorem number_written {ip : Nat} (h : ip < 2 ^ 128) : number ([':'].intercalate (written ip)) = some ip := by
  have hforeign : ∀ c, Radix.isDigit .hexadecimal c = false → ∀ part ∈ written ip, c ∉ part := by
    intro c hc part hpart hmem
    rw [mem_written hpart c hmem] at hc
    exact Bool.noConfusion hc
  have hempty := nil_not_mem_hex (hextets ip)
  have height : (hextets ip).length = 8 := by rw [hextets, List.length_map, List.length_range]
  have hlt := hextets_lt ip
  have hcolon := hforeign ':' (by decide)
  have hdot := hforeign '.' (by decide)
  unfold written at hcolon hdot ⊢
  rcases compress_cases ((hextets ip).map hex) with hwhole | ⟨before, skipped, after, hskipped, hsplit, hgap⟩
  · rw [hwhole] at hcolon hdot ⊢
    have hparts : ((hextets ip).map hex).length = 8 := by rw [List.length_map, height]
    have hlayout := layout_whole hempty hparts
    have hhigh : (((hextets ip).map hex).take 8).mapM parseHextet = some (hextets ip) := by
      rw [List.take_of_length_le (Nat.le_of_eq hparts), mapM_parseHextet hlt]
    have hlow : (((hextets ip).map hex).drop (((hextets ip).map hex).length - 0)).mapM parseHextet = some [] := by
      rw [Nat.sub_zero, List.drop_length]
      rfl
    rw [number_eq hcolon hdot (by omega) hlayout hhigh hlow, List.replicate_zero, List.append_nil, List.append_nil,
      ofHextets_hextets h]
  · obtain ⟨front, low, hfront, hf, rfl⟩ := List.map_eq_append_iff.mp hsplit
    obtain ⟨high, zeros, rfl, rfl, hz⟩ := List.map_eq_append_iff.mp hf
    obtain rfl := eq_replicate_of_hex hz
    have hall := ofHextets_hextets h
    rw [hfront] at hlt height hall
    simp only [List.length_append, List.length_replicate] at height
    simp only [List.mem_append] at hlt
    have hbefore : [] ∉ high.map hex := nil_not_mem_hex high
    have hafter : [] ∉ low.map hex := nil_not_mem_hex low
    have hlayout := layout_gap hbefore hafter (by simp only [List.length_map]; omega)
    have hrun : 8 - ((high.map hex).length + (low.map hex).length) = skipped := by
      simp only [List.length_map]
      omega
    have hends : 3 ≤ (gap (high.map hex) (low.map hex)).length ∧ (gap (high.map hex) (low.map hex)).length ≤ 9 := by
      have hhigh := length_atEnd (high.map hex)
      have hlow := length_atEnd (low.map hex)
      simp only [length_gap, List.length_map] at hhigh hlow ⊢
      omega
    rw [hgap] at hcolon hdot ⊢
    rw [hrun] at hlayout
    rw [number_eq hcolon hdot hends hlayout (by rw [take_gap, mapM_parseHextet fun n hn => hlt n (.inl (.inl hn))])
      (by rw [drop_gap, mapM_parseHextet fun n hn => hlt n (.inr hn)]), hall]

/-- The characters of the hextets. -/
theorem mem_intercalate_written {ip : Nat} {c : Char} (h : c ∈ [':'].intercalate (written ip)) :
    c = ':' ∨ Radix.isDigit .hexadecimal c = true := by
  rcases mem_of_mem_intercalate h with hcolon | ⟨part, hpart, hc⟩
  · exact .inl hcolon
  · exact .inr (mem_written hpart c hc)

/-- A zone that can be read: not empty, with neither a `%` nor a `/` in it. -/
def IsScopeId (scopeId : Str) : Prop := scopeId ≠ [] ∧ '%' ∉ scopeId ∧ '/' ∉ scopeId

theorem parse_eq {s address : Str} {scopeId : Option Str} {n : Nat} (hslash : '/' ∉ s)
    (hsplit : splitScopeId s = some (address, scopeId)) (hnumber : number address = some n) (hn : n < 2 ^ 128) :
    parse s = some ⟨n, hn, scopeId⟩ := by
  unfold parse
  rw [if_neg hslash, hsplit]
  dsimp only
  rw [hnumber]
  exact dif_pos hn

/-- **What was written is read back.** -/
theorem parse_toText (a : Ipv6Address) (hscope : ∀ scopeId ∈ a.scopeId, IsScopeId scopeId) :
    parse a.toText = some a := by
  have hforeign : ∀ c, c ≠ ':' → Radix.isDigit .hexadecimal c = false → c ∉ [':'].intercalate (written a.ip) := by
    intro c hcolon hc hmem
    rcases mem_intercalate_written hmem with hno | hno
    · exact hcolon hno
    · rw [hno] at hc
      exact Bool.noConfusion hc
  have hpercent := hforeign '%' (by decide) (by decide)
  have hslash : '/' ∉ a.toText := by
    rw [toText, List.mem_append, not_or]
    exact ⟨hforeign '/' (by decide) (by decide), not_mem_mark (by decide) fun scopeId hs => (hscope scopeId hs).2.2⟩
  have hsplit : splitScopeId a.toText = some ([':'].intercalate (written a.ip), a.scopeId) := by
    have hcut := cut_append_mark hpercent a.scopeId
    unfold splitScopeId
    cases hs : a.scopeId with
    | none =>
      have htext : a.toText = [':'].intercalate (written a.ip) := by rw [toText, hs, mark, List.append_nil]
      rw [htext, if_pos hpercent]
    | some scopeId =>
      obtain ⟨hne, hpercents, -⟩ := hscope scopeId hs
      have hmem : ¬ '%' ∉ a.toText := by
        rw [not_not, toText, hs]
        exact List.mem_append_right _ List.mem_cons_self
      rw [← toText, hs, Option.getD_some] at hcut
      rw [if_neg hmem, hcut, if_neg (not_or.mpr ⟨hne, hpercents⟩)]
  exact parse_eq hslash hsplit (number_written a.bound) a.bound

/-- The zone of an address that was read. -/
theorem scopeId_of_parse {s scopeId : Str} {a : Ipv6Address} (h : parse s = some a) (hs : a.scopeId = some scopeId) :
    IsScopeId scopeId := by
  unfold parse at h
  split at h
  · cases h
  · rename_i hslash
    split at h
    · cases h
    · rename_i address zone hsplit
      split at h
      · cases h
      · split at h
        · cases h
          cases hs
          unfold splitScopeId at hsplit
          split at hsplit
          · cases hsplit
          · split at hsplit
            · cases hsplit
            · rename_i hzone
              cases hsplit
              rw [not_or] at hzone
              exact ⟨hzone.1, hzone.2, fun hmem => hslash (mem_of_mem_cut (.inr hmem))⟩
        · cases h

theorem length_toText_le {a : Ipv6Address} (h : a.scopeId = none) : a.toText.length ≤ 45 := by
  have hpieces : ∀ piece ∈ written a.ip, piece.length ≤ 4 := by
    intro piece hpiece
    rcases mem_compress hpiece with rfl | hmem
    · decide
    · obtain ⟨n, hn, rfl⟩ := List.mem_map.mp hmem
      exact length_hex_le (hextets_lt a.ip n hn)
  have hlength := length_intercalate_le (c := ':') hpieces
  have hwritten : (written a.ip).length ≤ 9 := by
    have height : ((hextets a.ip).map hex).length = 8 := by rw [List.length_map, hextets, List.length_map, List.length_range]
    unfold written
    rcases compress_cases ((hextets a.ip).map hex) with hwhole | ⟨before, skipped, after, hskipped, hsplit, hgap⟩
    · rw [hwhole]
      omega
    · have hbefore := length_atEnd before
      have hafter := length_atEnd after
      rw [hsplit, List.length_append, List.length_append, List.length_replicate] at height
      rw [hgap, length_gap]
      omega
  have htext : a.toText = [':'].intercalate (written a.ip) := by rw [toText, h, mark, List.append_nil]
  rw [htext]
  omega

end Ipv6Address

/-! ## Either -/

namespace IpAddress

/-- `str(address)`. -/
def toText : IpAddress → Str
  | .v4 a => a.toText
  | .v6 a => a.toText

/-- The zone of an address; an IPv4 address has none. -/
def scopeId : IpAddress → Option Str
  | .v4 _ => none
  | .v6 a => a.scopeId

theorem length_toText_le {a : IpAddress} (h : a.scopeId = none) : a.toText.length ≤ 45 := by
  cases a with
  | v4 a => exact Nat.le_trans a.length_toText_le (by decide)
  | v6 a => exact Ipv6Address.length_toText_le h

/-- An address without a zone has none that cannot be read. -/
theorem isScopeId_of_none {a : IpAddress} (h : a.scopeId = none) : ∀ scopeId ∈ a.scopeId, Ipv6Address.IsScopeId scopeId := by
  intro scopeId hs
  rw [h] at hs
  cases hs

/-- **What was written is read back.** -/
theorem ipAddress_toText {a : IpAddress} (h : ∀ scopeId ∈ a.scopeId, Ipv6Address.IsScopeId scopeId) :
    ipAddress a.toText = some a := by
  unfold ipAddress
  cases a with
  | v4 a => rw [toText, Ipv4Address.parse_toText]
  | v6 a =>
    have hread := Ipv6Address.parse_toText a h
    have hcolon := Ipv6Address.colon_of_parse (Option.isSome_of_eq_some hread)
    have hv4 : Ipv4Address.parse a.toText = none := by
      by_contra hsome
      have hchars := Ipv4Address.chars_of_parse (Option.isSome_iff_ne_none.mpr hsome) ':' hcolon
      revert hchars
      decide
    rw [toText, hv4, hread]
    rfl

theorem scopeId_of_ipAddress {s scopeId : Str} {a : IpAddress} (h : ipAddress s = some a) (hs : a.scopeId = some scopeId) :
    Ipv6Address.IsScopeId scopeId := by
  unfold ipAddress at h
  split at h
  · cases h
    cases hs
  · obtain ⟨b, hb, rfl⟩ := Option.map_eq_some_iff.mp h
    exact Ipv6Address.scopeId_of_parse hb hs

/-- The characters of an address without a zone. -/
theorem mem_toText {a : IpAddress} {c : Char} (h : a.scopeId = none) (hc : c ∈ a.toText) :
    c = '.' ∨ c = ':' ∨ Radix.isDigit .hexadecimal c = true := by
  cases a with
  | v4 a =>
    refine (Ipv4Address.mem_toText hc).imp_right fun hdigit => .inr ?_
    rw [Radix.isDigit, hdigit]
    rfl
  | v6 a =>
    have htext : a.toText = [':'].intercalate (Ipv6Address.written a.ip) := by
      rw [Ipv6Address.toText, show a.scopeId = none from h, mark, List.append_nil]
    rw [toText, htext] at hc
    exact .inr (Ipv6Address.mem_intercalate_written hc)

theorem strip_toText {a : IpAddress} (h : a.scopeId = none) : Decimal.strip a.toText = a.toText := by
  refine Decimal.strip_of_forall fun c hc => decide_eq_false ?_
  rcases mem_toText h hc with rfl | rfl | hdigit
  · decide
  · decide
  · have hcodes := Radix.isDigit_iff.mp hdigit
    omega

/-- How the text of an address begins. -/
theorem head_toText (a : IpAddress) :
    ∃ c rest, a.toText = c :: rest ∧ (c = '.' ∨ c = ':' ∨ Radix.isDigit .hexadecimal c = true) := by
  -- Without its zone the address begins in the same way.
  cases a with
  | v4 a =>
    have hread : ipAddress (IpAddress.v4 a).toText = some (.v4 a) := ipAddress_toText nofun
    cases htext : (IpAddress.v4 a).toText with
    | nil =>
      rw [htext] at hread
      cases hread
    | cons c rest => exact ⟨c, rest, rfl, mem_toText (a := .v4 a) rfl (htext ▸ List.mem_cons_self)⟩
  | v6 a =>
    have hread := Ipv6Address.number_written a.bound
    cases htext : [':'].intercalate (Ipv6Address.written a.ip) with
    | nil =>
      rw [htext] at hread
      cases hread
    | cons c rest =>
      refine ⟨c, rest ++ mark '%' a.scopeId, ?_, .inr (Ipv6Address.mem_intercalate_written (htext ▸ List.mem_cons_self))⟩
      rw [toText, Ipv6Address.toText, htext, List.cons_append]

theorem toText_ne_nil (a : IpAddress) : a.toText ≠ [] := by
  obtain ⟨c, rest, htext, -⟩ := a.head_toText
  rw [htext]
  exact List.cons_ne_nil c rest

/-- Text without a `%` has no zone. -/
theorem scopeId_eq_none {s : Str} {a : IpAddress} (h : ipAddress s = some a) (hpercent : '%' ∉ s) : a.scopeId = none := by
  unfold ipAddress at h
  split at h
  · cases h
    rfl
  · obtain ⟨b, hb, rfl⟩ := Option.map_eq_some_iff.mp h
    unfold Ipv6Address.parse at hb
    split at hb
    · cases hb
    · rw [show Ipv6Address.splitScopeId s = some (s, none) from if_pos hpercent] at hb
      dsimp only at hb
      split at hb
      · cases hb
      · split at hb
        · cases hb
          rfl
        · cases hb

/-- Two addresses are written alike only if they are the same. -/
theorem toText_inj {a b : IpAddress} (ha : ∀ scopeId ∈ a.scopeId, Ipv6Address.IsScopeId scopeId)
    (hb : ∀ scopeId ∈ b.scopeId, Ipv6Address.IsScopeId scopeId) (h : a.toText = b.toText) : a = b := by
  have hread := ipAddress_toText ha
  rw [h, ipAddress_toText hb] at hread
  exact (Option.some.inj hread).symm

end IpAddress

end LinkShortener.Urls
