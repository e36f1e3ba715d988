import LinkShortener.Urls.Host

/-!
# The host reader and the WHATWG host parser

The IPv4 half of the WHATWG host parser, step by step as the standard has it, and how far `asIpAddress` agrees with it.

* `ipv4Number`, `endsInANumber`, `ipv4Parser`: the three algorithms of the standard.
* `Agrees`: the two readers come to the same end on a host.
* `agrees_iff`: they do, unless the last label is made of digits, begins with a zero and holds an 8 or a 9. The standard
  calls such a label a number, and fails; `asIpAddress` calls it a name.
-/

namespace LinkShortener.Urls

open Text

namespace Whatwg

/-! ## The standard -/

/-- The value of an input that is left after its prefix. -/
def radixNumber (radix : Radix) (input : Str) : Option Nat :=
  if input = [] then some 0 else if input.all radix.isDigit then some (int radix input) else none

/-- The IPv4 number parser. -/
def ipv4Number : Str → Option Nat
  | [] => none
  | '0' :: 'x' :: input => radixNumber .hexadecimal input
  | '0' :: 'X' :: input => radixNumber .hexadecimal input
  | '0' :: c :: input => radixNumber .octal (c :: input)
  | input => radixNumber .decimal input

/-- The ends-in-a-number checker. -/
def endsInANumber (input : Str) : Bool :=
  let parts := input.splitOn '.'
  if parts.getLast? = some [] ∧ parts.length = 1 then false
  else
    let parts := if parts.getLast? = some [] then parts.dropLast else parts
    let last := parts.getLastD []
    if last ≠ [] ∧ last.all Char.isDigit then true
    else (ipv4Number last).isSome

/-- Each number before the last one in its octet. -/
def upperOctets (counter : Nat) : List Nat → Nat
  | [] => 0
  | n :: numbers => n * 256 ^ (3 - counter) + upperOctets (counter + 1) numbers

/-- The address made of the parts of an input. -/
def partsAddress (parts : List Str) : Option Nat :=
  if 4 < parts.length then none
  else
    match parts.mapM ipv4Number with
    | none => none
    | some numbers =>
      let last := numbers.getLastD 0
      if numbers.dropLast.any fun n => decide (255 < n) then none
      else if 256 ^ (5 - numbers.length) ≤ last then none
      else some (last + upperOctets 0 numbers.dropLast)

/-- The IPv4 parser. -/
def ipv4Parser (input : Str) : Option Nat :=
  let parts := input.splitOn '.'
  partsAddress (if parts.getLast? = some [] ∧ 1 < parts.length then parts.dropLast else parts)

end Whatwg

/-! ## The two readers of a number -/

theorem toLower_eq_x {c : Char} : c.toLower = 'x' ↔ c = 'x' ∨ c = 'X' := by
  simp only [← Char.toNat_inj, toNat_toLower]
  split <;> simp <;> omega

theorem toLower_eq_zero {c : Char} : c.toLower = '0' ↔ c = '0' := toLower_eq_iff (by decide)

theorem readDigits_eq (radix : Radix) {digits : Str} (h : digits ≠ []) :
    readDigits radix digits = Whatwg.radixNumber radix digits := by
  unfold readDigits Whatwg.radixNumber
  simp [h]

/-- **A part is the same number to both readers.** -/
theorem parseIpv4Part_eq (part : Str) : parseIpv4Part part = Whatwg.ipv4Number part := by
  match part with
  | [] => rfl
  | [c] =>
    have hne : asciiLower (List.take 2 [c]) ≠ ['0', 'x'] := by simp [asciiLower]
    unfold parseIpv4Part
    rw [if_neg (List.cons_ne_nil _ _), if_neg hne, if_neg (by simp), readDigits_eq _ (List.cons_ne_nil _ _)]
    unfold Whatwg.ipv4Number
    split <;> simp_all
  | c :: d :: rest =>
    have hlower : asciiLower (List.take 2 (c :: d :: rest)) = ['0', 'x'] ↔ c = '0' ∧ (d = 'x' ∨ d = 'X') := by
      simp [asciiLower, toLower_eq_zero, toLower_eq_x]
    unfold parseIpv4Part
    rw [if_neg (List.cons_ne_nil _ _)]
    by_cases hc : c = '0'
    · subst hc
      by_cases hd : d = 'x' ∨ d = 'X'
      · rw [if_pos (hlower.mpr ⟨rfl, hd⟩)]
        have hhex : Whatwg.ipv4Number ('0' :: d :: rest) = Whatwg.radixNumber .hexadecimal rest := by
          rcases hd with rfl | rfl <;> rfl
        rw [hhex]
        show (if rest = [] then some 0 else readDigits .hexadecimal rest) = _
        by_cases hrest : rest = []
        · subst hrest
          rfl
        · rw [if_neg hrest, readDigits_eq _ hrest]
      · rw [if_neg fun h => hd (hlower.mp h).2, if_pos (by simp)]
        have hoct : Whatwg.ipv4Number ('0' :: d :: rest) = Whatwg.radixNumber .octal (d :: rest) := by
          unfold Whatwg.ipv4Number
          split <;> simp_all
        rw [hoct]
        exact readDigits_eq _ (List.cons_ne_nil _ _)
    · rw [if_neg fun h => hc (hlower.mp h).1, if_neg (by simp [hc]), readDigits_eq _ (List.cons_ne_nil _ _)]
      unfold Whatwg.ipv4Number
      split <;> simp_all

/-- Letter case does not change a number. -/
theorem ipv4Number_lower (part : Str) : Whatwg.ipv4Number (asciiLower part) = Whatwg.ipv4Number part := by
  rw [← parseIpv4Part_eq, ← parseIpv4Part_eq]
  have htake : ∀ n, (asciiLower part).take n = asciiLower (part.take n) := fun n => List.map_take.symm
  have hdrop : ∀ n, (asciiLower part).drop n = asciiLower (part.drop n) := fun n => List.map_drop.symm
  have hnil : ∀ s, asciiLower s = [] ↔ s = [] := fun s => List.map_eq_nil_iff
  have hread : ∀ radix s, readDigits radix (asciiLower s) = readDigits radix s := by
    intro radix s
    unfold readDigits
    rw [all_isDigit_lower, int_lower]
    cases s <;> rfl
  have hhead : (asciiLower part).head? = some '0' ↔ part.head? = some '0' := by
    cases part with
    | nil => rfl
    | cons c rest => simp [asciiLower, toLower_eq_zero]
  have hlength : (asciiLower part).length = part.length := List.length_map ..
  unfold parseIpv4Part
  simp only [htake, hdrop, asciiLower_asciiLower, hnil, hread, hhead, hlength]

/-! ## The two readers of an address -/

section Packing

/-- Both put the numbers before the last one into the upper octets. -/
theorem foldl_zipIdx (numbers : List Nat) (counter n : Nat) :
    (numbers.zipIdx counter).foldl (fun n p => n + p.1 * 256 ^ (3 - p.2)) n = n + Whatwg.upperOctets counter numbers := by
  induction numbers generalizing counter n with
  | nil => rfl
  | cons x numbers ih =>
    rw [List.zipIdx_cons, List.foldl_cons, ih, Whatwg.upperOctets]
    exact Nat.add_assoc _ _ _

theorem packed_eq (numbers : List Nat) :
    packed numbers = numbers.getLastD 0 + Whatwg.upperOctets 0 numbers.dropLast := foldl_zipIdx _ _ _

/-- Octets in their places leave room for the rest below them. -/
theorem upperOctets_le (numbers : List Nat) (counter : Nat) (hlen : counter + numbers.length ≤ 4)
    (h : ∀ n ∈ numbers, n ≤ 255) :
    Whatwg.upperOctets counter numbers + 256 ^ (4 - counter - numbers.length) ≤ 256 ^ (4 - counter) := by
  induction numbers generalizing counter with
  | nil => simp [Whatwg.upperOctets]
  | cons n numbers ih =>
    rw [List.length_cons] at hlen ⊢
    have hrest := ih (counter + 1) (by omega) fun m hm => h m (List.mem_cons_of_mem n hm)
    have hn : n * 256 ^ (3 - counter) ≤ 255 * 256 ^ (3 - counter) :=
      Nat.mul_le_mul_right _ (h n List.mem_cons_self)
    have hpow : 256 ^ (4 - counter) = 256 * 256 ^ (3 - counter) := by
      rw [← Nat.pow_succ']
      congr 1
      omega
    have hexp : 4 - (counter + 1) = 3 - counter := by omega
    have hroom : 4 - counter - (numbers.length + 1) = 3 - counter - numbers.length := by omega
    rw [hexp] at hrest
    rw [Whatwg.upperOctets, hroom, hpow]
    omega

/-- Numbers that fit their octets make an address. -/
theorem packed_lt {numbers : List Nat} (hne : numbers ≠ []) (hlen : numbers.length ≤ 4)
    (h : ∀ n ∈ numbers.dropLast, n ≤ 255) (hlast : numbers.getLastD 0 < 256 ^ (5 - numbers.length)) :
    packed numbers < 2 ^ 32 := by
  have hpos : 0 < numbers.length := List.length_pos_iff.mpr hne
  have hupper := upperOctets_le numbers.dropLast 0 (by rw [List.length_dropLast]; omega) h
  have hroom : 4 - 0 - numbers.dropLast.length = 5 - numbers.length := by
    rw [List.length_dropLast]
    omega
  rw [hroom] at hupper
  rw [packed_eq]
  omega

end Packing

theorem length_of_mapM {α β : Type} {f : α → Option β} {xs : List α} {ys : List β} (h : xs.mapM f = some ys) :
    ys.length = xs.length := by
  induction xs generalizing ys with
  | nil =>
    cases h
    rfl
  | cons x xs ih =>
    rw [List.mapM_cons] at h
    obtain ⟨y, -, h⟩ := Option.bind_eq_some_iff.mp h
    obtain ⟨ys', hys, h⟩ := Option.bind_eq_some_iff.mp h
    cases h
    rw [List.length_cons, List.length_cons, ih hys]

/-- The last label of a host, the root label aside. -/
def lastLabel (host : Str) : Str := (hostParts host).getLastD []

section Hosts

variable {host : Str}

/-- A host that is nothing, or not; in the second case all three split it the same way. -/
theorem hostParts_cases (host : Str) :
    (hostParts host = [] ∧ Whatwg.endsInANumber host = false) ∨
      (hostParts host ≠ [] ∧ Whatwg.ipv4Parser host = Whatwg.partsAddress (hostParts host) ∧
        Whatwg.endsInANumber host = (decide (lastLabel host ≠ [] ∧ (lastLabel host).all Char.isDigit = true) ||
          (Whatwg.ipv4Number (lastLabel host)).isSome)) := by
  have hne : host.splitOn '.' ≠ [] := List.splitOn_ne_nil _ _
  have hpos : 0 < (host.splitOn '.').length := List.length_pos_iff.mpr hne
  by_cases hlast : (host.splitOn '.').getLast? = some []
  · have hparts : hostParts host = (host.splitOn '.').dropLast := if_pos hlast
    by_cases hone : (host.splitOn '.').length = 1
    · left
      refine ⟨?_, if_pos ⟨hlast, hone⟩⟩
      rw [hparts]
      exact List.length_eq_zero_iff.mp (by rw [List.length_dropLast, hone])
    · right
      refine ⟨?_, ?_, ?_⟩
      · rw [hparts]
        intro hnil
        have hlen : (host.splitOn '.').dropLast.length = 0 := by rw [hnil]; rfl
        rw [List.length_dropLast] at hlen
        omega
      · unfold Whatwg.ipv4Parser
        dsimp only
        rw [if_pos ⟨hlast, by omega⟩, hparts]
      · unfold Whatwg.endsInANumber lastLabel
        rw [hparts]
        simp only [hlast, hone, and_false, if_false, if_true]
        split <;> simp_all
  · have hparts : hostParts host = host.splitOn '.' := if_neg hlast
    right
    refine ⟨hparts ▸ hne, ?_, ?_⟩
    · unfold Whatwg.ipv4Parser
      dsimp only
      rw [if_neg fun h => hlast h.1, hparts]
    · unfold Whatwg.endsInANumber lastLabel
      rw [hparts]
      simp only [hlast, false_and, if_false]
      split <;> simp_all

/-- A host whose last label is a number is the same address to both, or none to either. -/
theorem asIpAddress_of_number (hcolon : ':' ∉ host) (hne : hostParts host ≠ [])
    (hnumber : (Whatwg.ipv4Number (lastLabel host)).isSome = true) :
    (∃ v : Ipv4Address, Whatwg.partsAddress (hostParts host) = some v.ip ∧ asIpAddress host = .ok (some (.v4 v))) ∨
      (Whatwg.partsAddress (hostParts host) = none ∧ asIpAddress host = .error invalidAddress) := by
  have hlast : (hostParts host).getLast? = some (lastLabel host) := by
    unfold lastLabel
    rw [List.getLastD_eq_getLast?]
    obtain ⟨x, hx⟩ := Option.ne_none_iff_exists'.mp (List.getLast?_eq_none_iff.not.mpr hne)
    rw [hx]
    rfl
  have hends : endsInNumber (lastLabel host) = true := by
    unfold endsInNumber
    rw [parseIpv4Part_eq]
    exact hnumber
  have hparts : (hostParts host).mapM parseIpv4Part = (hostParts host).mapM Whatwg.ipv4Number := by
    congr 1
    funext part
    exact parseIpv4Part_eq part
  unfold asIpAddress Whatwg.partsAddress
  rw [if_neg hcolon]
  simp only [hlast, hends, hparts, Bool.not_true, Bool.false_eq_true, if_false]
  by_cases hmany : 4 < (hostParts host).length
  · right
    exact ⟨if_pos hmany, if_pos hmany⟩
  · rw [if_neg hmany, if_neg hmany]
    cases hnumbers : (hostParts host).mapM Whatwg.ipv4Number with
    | none => exact .inr ⟨rfl, rfl⟩
    | some numbers =>
      have hlen := length_of_mapM hnumbers
      have hpos : 0 < (hostParts host).length := List.length_pos_iff.mpr hne
      have hexp : 4 - (numbers.length - 1) = 5 - numbers.length := by omega
      dsimp only
      rw [hexp]
      by_cases hbig : numbers.dropLast.any (fun n => decide (255 < n)) = true
      · rw [if_pos hbig, if_pos hbig]
        exact .inr ⟨rfl, rfl⟩
      · rw [if_neg hbig, if_neg hbig]
        by_cases hover : 256 ^ (5 - numbers.length) ≤ numbers.getLastD 0
        · rw [if_pos hover, if_pos hover]
          exact .inr ⟨rfl, rfl⟩
        · rw [if_neg hover, if_neg hover]
          have hsmall : ∀ n ∈ numbers.dropLast, n ≤ 255 := by
            intro n hn
            by_contra hgt
            exact hbig (List.any_eq_true.mpr ⟨n, hn, decide_eq_true (by omega)⟩)
          have hlt : packed numbers < 2 ^ 32 :=
            packed_lt (List.length_pos_iff.mp (by omega)) (by omega) hsmall (by omega)
          have haddress : Ipv4Address.ofNat? (packed numbers) = some ⟨packed numbers, hlt⟩ := dif_pos hlt
          rw [haddress]
          exact .inl ⟨⟨packed numbers, hlt⟩, congrArg some (packed_eq numbers).symm, rfl⟩

/-- A host whose last label is no number is a name. -/
theorem asIpAddress_of_name (hcolon : ':' ∉ host)
    (hname : hostParts host = [] ∨ (Whatwg.ipv4Number (lastLabel host)).isSome = false) :
    asIpAddress host = .ok none := by
  unfold asIpAddress
  rw [if_neg hcolon]
  cases hlast : (hostParts host).getLast? with
  | none => simp only [hlast]
  | some last =>
    have hlabel : lastLabel host = last := by
      unfold lastLabel
      rw [List.getLastD_eq_getLast?, hlast]
      rfl
    have hends : endsInNumber last = false := by
      rcases hname with hnil | hname
      · rw [hnil] at hlast
        cases hlast
      · unfold endsInNumber
        rw [parseIpv4Part_eq, ← hlabel]
        exact hname
    simp only [hlast, hends, Bool.not_false, if_true]

/-! ## Where they agree -/

/-- Digits that begin with a zero, and so would have to be octal, with an 8 or a 9 among them. -/
def malformedOctal (label : Str) : Bool :=
  decide (label.head? = some '0') && label.all Char.isDigit && label.any fun c => c = '8' || c = '9'

theorem octal_or_not {c : Char} (h : c.isDigit = true) : Radix.isDigit .octal c = !(c = '8' || c = '9' : Bool) := by
  have hrange : 48 ≤ c.toNat ∧ c.toNat ≤ 57 := isDigit_iff.mp h
  have height : c = '8' ↔ c.toNat = 56 := Char.toNat_inj.symm
  have hnine : c = '9' ↔ c.toNat = 57 := Char.toNat_inj.symm
  rw [Bool.eq_iff_iff, Radix.isDigit_iff]
  simp [height, hnine]
  omega

/-- The labels of digits that are no number. -/
theorem malformedOctal_iff (label : Str) :
    malformedOctal label = true ↔
      label ≠ [] ∧ label.all Char.isDigit = true ∧ (Whatwg.ipv4Number label).isSome = false := by
  match label with
  | [] => simp [malformedOctal]
  | [c] =>
    have hnumber : Whatwg.ipv4Number [c] = Whatwg.radixNumber .decimal [c] := by
      unfold Whatwg.ipv4Number
      split <;> simp_all
    rw [hnumber]
    by_cases hc : c = '0'
    · subst hc
      decide
    · simp only [malformedOctal, List.head?_cons, Option.some.injEq, hc, decide_false, Bool.false_and]
      simp [Whatwg.radixNumber, Radix.isDigit]
  | c :: d :: rest =>
    by_cases hc : c = '0'
    · subst hc
      by_cases hdigit : d.isDigit = true
      · have hnumber : Whatwg.ipv4Number ('0' :: d :: rest) = Whatwg.radixNumber .octal (d :: rest) := by
          unfold Whatwg.ipv4Number
          split <;> simp_all
        by_cases hall : rest.all Char.isDigit = true
        · have hoctal : (d :: rest).all (Radix.isDigit .octal) = !(d :: rest).any fun c => c = '8' || c = '9' := by
            rw [List.not_any_eq_all_not, Bool.eq_iff_iff, List.all_eq_true, List.all_eq_true]
            refine forall₂_congr fun x hx => ?_
            have hx' : x.isDigit = true := by
              rcases List.mem_cons.mp hx with rfl | hx
              · exact hdigit
              · exact List.all_eq_true.mp hall x hx
            rw [octal_or_not hx']
          rw [hnumber]
          unfold malformedOctal Whatwg.radixNumber
          rw [if_neg (List.cons_ne_nil _ _), hoctal]
          by_cases hany : ((d :: rest).any fun c => c = '8' || c = '9') = true
          · simp only [hany]
            simp_all
          · simp only [Bool.not_eq_true] at hany
            simp only [hany]
            simp_all
        · simp [malformedOctal, hall]
      · simp [malformedOctal, hdigit]
    · have hnumber : Whatwg.ipv4Number (c :: d :: rest) = Whatwg.radixNumber .decimal (c :: d :: rest) := by
        unfold Whatwg.ipv4Number
        split <;> simp_all
      rw [hnumber]
      simp only [malformedOctal, List.head?_cons, Option.some.injEq, hc, decide_false, Bool.false_and]
      simp only [Whatwg.radixNumber, List.cons_ne_nil, if_false]
      have hdecimal : ∀ s : Str, s.all (Radix.isDigit .decimal) = s.all Char.isDigit := fun s => rfl
      rw [hdecimal]
      by_cases hall : (c :: d :: rest).all Char.isDigit = true
      · simp [hall]
      · simp [hall]

/-- **The two readers come to the same end**: an address, a refusal, or a name. -/
structure Agrees (host : Str) : Prop where
  address : ∀ a, asIpAddress host = .ok (some a) ↔
    Whatwg.endsInANumber host = true ∧ ∃ v : Ipv4Address, Whatwg.ipv4Parser host = some v.ip ∧ a = .v4 v
  raises : (∃ e, asIpAddress host = .error e) ↔ Whatwg.endsInANumber host = true ∧ Whatwg.ipv4Parser host = none
  name : asIpAddress host = .ok none ↔ Whatwg.endsInANumber host = false

theorem colon_not_mem (h : host.all isHostChar = true) : ':' ∉ host := by
  intro hmem
  have hcolon := List.all_eq_true.mp h ':' hmem
  revert hcolon
  decide

/-- **The host reader agrees with the WHATWG host parser exactly on the hosts whose last label is no malformed octal.** -/
theorem agrees_with_whatwg_iff (host : Str) (hhost : host.all isHostChar = true) :
    Agrees host ↔ malformedOctal (lastLabel host) = false := by
  have hcolon : ':' ∉ host := colon_not_mem hhost
  rcases hostParts_cases host with ⟨hnil, hends⟩ | ⟨hne, hparser, hends⟩
  · have hlabel : lastLabel host = [] := by
      unfold lastLabel
      rw [hnil]
      rfl
    have hname : asIpAddress host = .ok none := asIpAddress_of_name hcolon (.inl hnil)
    refine ⟨fun _ => by rw [hlabel]; rfl, fun _ => ⟨?_, ?_, ?_⟩⟩
    · simp [hname, hends]
    · simp [hname, hends]
    · simp [hname, hends]
  · cases hnumber : (Whatwg.ipv4Number (lastLabel host)).isSome with
    | true =>
      -- a number to both: they read the same parts
      have hformed : malformedOctal (lastLabel host) = false := by
        rw [Bool.eq_false_iff, Ne, malformedOctal_iff, hnumber]
        simp
      have hends' : Whatwg.endsInANumber host = true := by rw [hends, hnumber, Bool.or_true]
      refine ⟨fun _ => hformed, fun _ => ?_⟩
      rcases asIpAddress_of_number hcolon hne hnumber with ⟨v, hv, haddress⟩ | ⟨hfail, herror⟩
      · rw [← hparser] at hv
        refine ⟨?_, by simp [haddress, hv], by simp [haddress, hends']⟩
        intro a
        simp only [haddress, hends', hv, true_and, Except.ok.injEq, Option.some.injEq]
        constructor
        · rintro rfl
          exact ⟨v, rfl, rfl⟩
        · rintro ⟨v', hv', rfl⟩
          congr 1
          cases v
          cases v'
          cases hv'
          rfl
      · rw [← hparser] at hfail
        exact ⟨by simp [herror, hfail], by simp [herror, hends', hfail], by simp [herror, hends']⟩
    | false =>
      -- a name to the code; to the standard only when its digits do not say otherwise
      have hname : asIpAddress host = .ok none := asIpAddress_of_name hcolon (.inr hnumber)
      rw [hnumber, Bool.or_false] at hends
      cases hformed : malformedOctal (lastLabel host) with
      | true =>
        obtain ⟨hnonempty, hdigits, -⟩ := (malformedOctal_iff _).mp hformed
        have hends' : Whatwg.endsInANumber host = true := by
          rw [hends]
          exact decide_eq_true ⟨hnonempty, hdigits⟩
        refine ⟨fun h => ?_, nofun⟩
        have hcontra := h.name.mp hname
        rw [hends'] at hcontra
        cases hcontra
      | false =>
        have hends' : Whatwg.endsInANumber host = false := by
          rw [hends]
          apply decide_eq_false
          rintro ⟨hnonempty, hdigits⟩
          have hbad := (malformedOctal_iff _).mpr ⟨hnonempty, hdigits, hnumber⟩
          rw [hformed] at hbad
          cases hbad
        exact ⟨fun _ => rfl, fun _ => ⟨by simp [hname, hends'], by simp [hname, hends'], by simp [hname, hends']⟩⟩

/-- `0177.0.0.1` is the loopback to both. -/
theorem agrees_with_whatwg_on_the_loopback :
    "0177.0.0.1".toList.all isHostChar = true ∧ Agrees "0177.0.0.1".toList :=
  ⟨by decide +kernel, (agrees_with_whatwg_iff _ (by decide +kernel)).mpr (by decide +kernel)⟩

/-- `1.2.3.09` ends in a number that is none: the standard fails, and the code reads a name. -/
theorem name_where_whatwg_fails : ¬ ∀ host : Str, host.all isHostChar = true → Agrees host := by
  intro h
  have hname : asIpAddress "1.2.3.09".toList = .ok none := by rfl
  have hends := (h "1.2.3.09".toList (by decide +kernel)).name.mp hname
  have hnumber : Whatwg.endsInANumber "1.2.3.09".toList = true := by decide +kernel
  rw [hnumber] at hends
  cases hends

end Hosts

end LinkShortener.Urls
