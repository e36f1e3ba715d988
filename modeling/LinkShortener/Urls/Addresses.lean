import Mathlib.Algebra.Group.Nat.Defs
import LinkShortener.Basic
import LinkShortener.Lib.Text

/-!
# Addresses

What `ipaddress` of the standard library does with text: the strict reading of an IPv4 address, the reading of an IPv6
address with its zone, and the IPv4 addresses an IPv6 address carries. Which ranges an address belongs to (`Ranges`) is
left open: only that the answer depends on the version and the number is used.

Text is a list of code points.
-/

namespace LinkShortener.Urls

open Text

/-- A `str`. -/
abbrev Str := List Char

instance : LawfulBEq Str := inferInstance

def isAscii (s : Str) : Bool := s.all fun c => decide (c.toNat < 128)

/-- `str.lower` of ASCII text. -/
def asciiLower (s : Str) : Str := s.map Char.toLower

/-! ## Numbers -/

inductive Radix
  | octal
  | decimal
  | hexadecimal
  deriving DecidableEq, Repr

namespace Radix

def base : Radix → Nat
  | octal => 8
  | decimal => 10
  | hexadecimal => 16

/-- The digits of a radix, in either case. -/
def isDigit : Radix → Char → Bool
  | octal, c => '0' ≤ c && c ≤ '7'
  | decimal, c => c.isDigit
  | hexadecimal, c => c.isDigit || ('a' ≤ c && c ≤ 'f') || ('A' ≤ c && c ≤ 'F')

end Radix

/-- The value of a hexadecimal digit. -/
def digitValue (c : Char) : Nat :=
  if c.isDigit then c.toNat - 48 else if 'a' ≤ c then c.toNat - 87 else c.toNat - 55

/-- `int(digits, radix)`; no digits at all are 0. -/
def int (radix : Radix) (digits : Str) : Nat := digits.foldl (fun n c => n * radix.base + digitValue c) 0

section LetterCase

theorem asciiLower_asciiLower (s : Str) : asciiLower (asciiLower s) = asciiLower s := by
  simp only [asciiLower, List.map_map, Function.comp_def, toLower_toLower]

theorem isDigit_iff {c : Char} : c.isDigit = true ↔ 48 ≤ c.toNat ∧ c.toNat ≤ 57 := by
  simp [Char.isDigit, UInt32.le_iff_toNat_le]

theorem isLower_iff {c : Char} : c.isLower = true ↔ 97 ≤ c.toNat ∧ c.toNat ≤ 122 := by
  change (decide ('a'.val ≤ c.val) && decide (c.val ≤ 'z'.val)) = true ↔ _
  simp [UInt32.le_iff_toNat_le]

theorem isUpper_iff {c : Char} : c.isUpper = true ↔ 65 ≤ c.toNat ∧ c.toNat ≤ 90 := by
  change decide ('A'.val ≤ c.val ∧ c.val ≤ 'Z'.val) = true ↔ _
  simp [UInt32.le_iff_toNat_le]

theorem isAlpha_iff {c : Char} : c.isAlpha = true ↔ (65 ≤ c.toNat ∧ c.toNat ≤ 90) ∨ (97 ≤ c.toNat ∧ c.toNat ≤ 122) := by
  change (c.isUpper || c.isLower) = true ↔ _
  rw [Bool.or_eq_true, isUpper_iff, isLower_iff]

/-- The digits of a radix by their code points. -/
theorem Radix.isDigit_iff {radix : Radix} {c : Char} : radix.isDigit c = true ↔ match radix with
    | .octal => 48 ≤ c.toNat ∧ c.toNat ≤ 55
    | .decimal => 48 ≤ c.toNat ∧ c.toNat ≤ 57
    | .hexadecimal => (48 ≤ c.toNat ∧ c.toNat ≤ 57) ∨ (97 ≤ c.toNat ∧ c.toNat ≤ 102) ∨ (65 ≤ c.toNat ∧ c.toNat ≤ 70) := by
  have hle : ∀ a b : Char, a ≤ b ↔ a.toNat ≤ b.toNat := fun a b => UInt32.le_iff_toNat_le
  cases radix with
  | octal => simp [Radix.isDigit, hle]
  | decimal => exact Urls.isDigit_iff
  | hexadecimal =>
    simp only [Radix.isDigit, Bool.or_eq_true, Bool.and_eq_true, decide_eq_true_eq, Urls.isDigit_iff, hle]
    simp
    omega

theorem isDigit_toLower (radix : Radix) (c : Char) : radix.isDigit c.toLower = radix.isDigit c := by
  rw [Bool.eq_iff_iff, Radix.isDigit_iff, Radix.isDigit_iff, toNat_toLower]
  cases radix with
  | octal => dsimp only; split <;> omega
  | decimal => dsimp only; split <;> omega
  | hexadecimal => dsimp only; split <;> omega

theorem digitValue_toLower (c : Char) : digitValue c.toLower = digitValue c := by
  have hle : ∀ a b : Char, a ≤ b ↔ a.toNat ≤ b.toNat := fun a b => UInt32.le_iff_toNat_le
  have ha : 'a'.toNat = 97 := rfl
  unfold digitValue
  simp only [isDigit_iff, hle, ha, toNat_toLower]
  by_cases hupper : 65 ≤ c.toNat ∧ c.toNat ≤ 90
  · simp only [if_pos hupper]
    rw [if_neg (by omega), if_pos (by omega), if_neg (by omega), if_neg (by omega)]
    omega
  · simp only [if_neg hupper]

theorem all_isDigit_lower (radix : Radix) (s : Str) : (asciiLower s).all radix.isDigit = s.all radix.isDigit := by
  unfold asciiLower
  rw [List.all_map]
  congr 1
  funext c
  exact isDigit_toLower radix c

theorem int_lower (radix : Radix) (s : Str) : int radix (asciiLower s) = int radix s := by
  unfold int asciiLower
  rw [List.foldl_map]
  simp only [digitValue_toLower]

end LetterCase

/-! ## IPv4 -/

structure Ipv4Address where
  ip : Nat
  bound : ip < 2 ^ 32
  deriving DecidableEq

namespace Ipv4Address

/-- The address of a number, if it is one. -/
def ofNat? (n : Nat) : Option Ipv4Address := if h : n < 2 ^ 32 then some ⟨n, h⟩ else none

/-- An octet: one to three digits, no leading zero, at most 255. -/
def parseOctet (octet : Str) : Option Nat :=
  if octet = [] then none
  else if !octet.all Char.isDigit then none
  else if 3 < octet.length then none
  else if octet ≠ ['0'] ∧ octet.head? = some '0' then none
  else if 255 < int .decimal octet then none
  else some (int .decimal octet)

/-- `ipaddress.IPv4Address(text)`. -/
def parse (s : Str) : Option Ipv4Address :=
  if '/' ∈ s then none
  else
    let octets := s.splitOn '.'
    if octets.length ≠ 4 then none
    else
      match octets.mapM parseOctet with
      | none => none
      | some numbers => ofNat? (numbers.foldl (fun n octet => n * 256 + octet) 0)

end Ipv4Address

/-! ## IPv6 -/

structure Ipv6Address where
  ip : Nat
  bound : ip < 2 ^ 128
  scopeId : Option Str
  deriving DecidableEq

namespace Ipv6Address

/-- A hextet: one to four hexadecimal digits. -/
def parseHextet (hextet : Str) : Option Nat :=
  if !hextet.all (Radix.isDigit .hexadecimal) then none
  else if 4 < hextet.length then none
  else if hextet = [] then none
  else some (int .hexadecimal hextet)

/-- `'%x' % n`. -/
def hex (n : Nat) : Str := Nat.toDigits 16 n

/-- The parts between the colons, with an IPv4 address at the end written as two hextets. -/
def hextetParts (s : Str) : Option (List Str) :=
  let parts := s.splitOn ':'
  let last := parts.getLastD []
  if '.' ∈ last then
    (Ipv4Address.parse last).map fun a => parts.dropLast ++ [hex (a.ip / 2 ^ 16), hex (a.ip % 2 ^ 16)]
  else some parts

/-- The places of the empty parts, the two ends aside. -/
def skips (parts : List Str) : List Nat :=
  (List.range (parts.length - 2)).map (· + 1) |>.filter fun i => (parts[i]?).getD [] = []

/-- How many parts to copy from before a `::`, how many hextets it stands for, and how many parts to copy from after. -/
def layout (parts : List Str) : Option (Nat × Nat × Nat) :=
  match skips parts with
  | [] =>
    if parts.length = 8 ∧ parts.head? ≠ some [] ∧ parts.getLast? ≠ some [] then some (8, 0, 0) else none
  | [skip] =>
    let hi := if parts.head? = some [] then skip - 1 else skip
    let lo := if parts.getLast? = some [] then parts.length - skip - 2 else parts.length - skip - 1
    -- A colon at an end is only permitted as part of `::`.
    if parts.head? = some [] ∧ hi ≠ 0 then none
    else if parts.getLast? = some [] ∧ lo ≠ 0 then none
    else if 8 ≤ hi + lo then none
    else some (hi, 8 - (hi + lo), lo)
  | _ => none

def ofHextets (n : Nat) (hextets : List Nat) : Nat := hextets.foldl (fun n hextet => n * 2 ^ 16 + hextet) n

/-- The number of an address without a zone. -/
def number (s : Str) : Option Nat :=
  if s = [] then none
  else if (s.splitOn ':').length < 3 then none
  else
    match hextetParts s with
    | none => none
    | some parts =>
      if 9 < parts.length then none
      else
        match layout parts with
        | none => none
        | some (hi, skipped, lo) =>
          match (parts.take hi).mapM parseHextet, (parts.drop (parts.length - lo)).mapM parseHextet with
          | some high, some low => some (ofHextets (ofHextets 0 high * 2 ^ (16 * skipped)) low)
          | _, _ => none

/-- The address and the zone after the `%`; a zone that is written is neither empty nor has another `%` in it. -/
def splitScopeId (s : Str) : Option (Str × Option Str) :=
  if '%' ∉ s then some (s, none)
  else if (cut '%' s).2 = [] ∨ '%' ∈ (cut '%' s).2 then none
  else some ((cut '%' s).1, some (cut '%' s).2)

/-- `ipaddress.IPv6Address(text)`. -/
def parse (s : Str) : Option Ipv6Address :=
  if '/' ∈ s then none
  else
    match splitScopeId s with
    | none => none
    | some (address, scopeId) =>
      match number address with
      | none => none
      | some n => if h : n < 2 ^ 128 then some ⟨n, h, scopeId⟩ else none

/-- The address of an IPv4-mapped address. -/
def ipv4Mapped (a : Ipv6Address) : Option Nat := if a.ip / 2 ^ 32 = 0xFFFF then some (a.ip % 2 ^ 32) else none

/-- The address a 6to4 address carries. -/
def sixtofour (a : Ipv6Address) : Option Nat :=
  if a.ip / 2 ^ 112 = 0x2002 then some (a.ip / 2 ^ 80 % 2 ^ 32) else none

/-- The server and the client of a Teredo address. -/
def teredo (a : Ipv6Address) : List Nat :=
  if a.ip / 2 ^ 96 = 0x20010000 then [a.ip / 2 ^ 64 % 2 ^ 32, 2 ^ 32 - 1 - a.ip % 2 ^ 32] else []

end Ipv6Address

/-! ## Either -/

inductive IpAddress
  | v4 (a : Ipv4Address)
  | v6 (a : Ipv6Address)
  deriving DecidableEq

/-- `ipaddress.ip_address(text)`. -/
def ipAddress (s : Str) : Option IpAddress :=
  match Ipv4Address.parse s with
  | some a => some (.v4 a)
  | none => (Ipv6Address.parse s).map .v6

inductive IpVersion
  | v4
  | v6
  deriving DecidableEq, Repr

/-- The properties of an address that `ipaddress` derives from the ranges its number is in. -/
structure Ranges where
  isGlobal : IpVersion → Nat → Bool
  isPrivate : IpVersion → Nat → Bool
  isLoopback : IpVersion → Nat → Bool
  isLinkLocal : IpVersion → Nat → Bool
  isMulticast : IpVersion → Nat → Bool
  isReserved : IpVersion → Nat → Bool
  isUnspecified : IpVersion → Nat → Bool

/-- A number that is in none of the ranges kept for other uses. -/
def Ranges.isPublic (r : Ranges) (version : IpVersion) (n : Nat) : Bool :=
  r.isGlobal version n && !r.isPrivate version n && !r.isLoopback version n && !r.isLinkLocal version n &&
    !r.isMulticast version n && !r.isReserved version n && !r.isUnspecified version n

/-- The address itself, and the IPv4 addresses it carries. -/
def candidates : IpAddress → List (IpVersion × Nat)
  | .v4 a => [(.v4, a.ip)]
  | .v6 a => (.v6, a.ip) :: (a.ipv4Mapped.toList ++ a.sixtofour.toList ++ a.teredo).map fun n => (.v4, n)

/-- Whether an address belongs to the deployment's own networks. -/
def isInternalAddress (r : Ranges) (address : IpAddress) : Bool :=
  (candidates address).any fun candidate => !r.isPublic candidate.1 candidate.2

/-! ## Letter case of addresses -/

section LetterCase

/-- Neither a letter in upper case nor one in lower case. -/
def isCaseless (c : Char) : Bool := decide ((c.toNat < 65 ∨ 90 < c.toNat) ∧ (c.toNat < 97 ∨ 122 < c.toNat))

theorem toLower_eq_caseless {c d : Char} (hc : isCaseless c = true) : d.toLower = c ↔ d = c :=
  toLower_eq_iff (of_decide_eq_true hc)

theorem asciiLower_eq_self {s : Str} : asciiLower s = s ↔ ∀ c ∈ s, c.toLower = c := by
  have hmap := List.map_inj_left (l := s) (f := Char.toLower) (g := id)
  rw [List.map_id] at hmap
  exact hmap

theorem asciiLower_eq_nil {s : Str} : asciiLower s = [] ↔ s = [] := List.map_eq_nil_iff

theorem isAscii_asciiLower (s : Str) : isAscii (asciiLower s) = isAscii s := by
  unfold isAscii asciiLower
  rw [List.all_map]
  congr 1
  funext c
  rw [Function.comp_apply, decide_eq_decide, toNat_toLower]
  split <;> omega

/-- What is no letter stays when the letters around it are lowered. -/
theorem mem_asciiLower {s : Str} {c : Char} (hc : isCaseless c = true) : c ∈ asciiLower s ↔ c ∈ s := by
  unfold asciiLower
  rw [List.mem_map]
  constructor
  · rintro ⟨d, hd, hlower⟩
    rw [toLower_eq_caseless hc] at hlower
    exact hlower ▸ hd
  · intro h
    exact ⟨c, h, (toLower_eq_caseless hc).mpr rfl⟩

theorem cut_asciiLower {s : Str} {c : Char} (hc : isCaseless c = true) :
    cut c (asciiLower s) = (asciiLower (cut c s).1, asciiLower (cut c s).2) := by
  have hne : (fun a : Char => decide (a ≠ c)) ∘ Char.toLower = fun a => decide (a ≠ c) := by
    funext a
    simp only [Function.comp_apply, ne_eq, toLower_eq_caseless hc]
  unfold cut asciiLower
  rw [List.takeWhile_map, List.dropWhile_map, hne, List.map_drop]

theorem splitOn_asciiLower {c : Char} (hc : isCaseless c = true) (s : Str) :
    (asciiLower s).splitOn c = (s.splitOn c).map asciiLower :=
  splitOn_map (fun _ => toLower_eq_caseless hc) s

theorem mapM_asciiLower {β : Type} {f : Str → Option β} (hf : ∀ s, f (asciiLower s) = f s) (parts : List Str) :
    (parts.map asciiLower).mapM f = parts.mapM f := by
  induction parts with
  | nil => rfl
  | cons part parts ih => rw [List.map_cons, List.mapM_cons, List.mapM_cons, hf, ih]

namespace Ipv4Address

theorem parseOctet_lower (octet : Str) : parseOctet (asciiLower octet) = parseOctet octet := by
  have hdigits : (asciiLower octet).all Char.isDigit = octet.all Char.isDigit := all_isDigit_lower .decimal octet
  by_cases h : octet.all Char.isDigit = true
  · have hself : asciiLower octet = octet := by
      rw [asciiLower_eq_self]
      intro c hc
      have hc := isDigit_iff.mp (List.all_eq_true.mp h c hc)
      rw [← Char.toNat_inj, toNat_toLower, if_neg (by omega)]
    rw [hself]
  · have hnone : ∀ s : Str, s.all Char.isDigit = false → parseOctet s = none := by
      intro s hs
      unfold parseOctet
      rw [hs]
      simp
    have hfalse := Bool.eq_false_iff.mpr h
    rw [hnone _ (hdigits.trans hfalse), hnone _ hfalse]

/-- An IPv4 address has no letters. -/
theorem parse_lower (s : Str) : parse (asciiLower s) = parse s := by
  unfold parse
  simp only [mem_asciiLower (c := '/') (by decide), splitOn_asciiLower (c := '.') (by decide), List.length_map,
    mapM_asciiLower parseOctet_lower]

end Ipv4Address

namespace Ipv6Address

theorem parseHextet_lower (hextet : Str) : parseHextet (asciiLower hextet) = parseHextet hextet := by
  unfold parseHextet
  rw [all_isDigit_lower, int_lower, show (asciiLower hextet).length = hextet.length from List.length_map _]
  simp only [asciiLower_eq_nil]

theorem skips_lower (parts : List Str) : skips (parts.map asciiLower) = skips parts := by
  unfold skips
  rw [List.length_map]
  congr 1
  funext i
  rw [List.getElem?_map]
  cases parts[i]? with
  | none => rfl
  | some part => simp [asciiLower]

theorem layout_lower (parts : List Str) : layout (parts.map asciiLower) = layout parts := by
  have hnil : ∀ part : Option Str, part.map asciiLower = some [] ↔ part = some [] := by
    intro part
    cases part with
    | none => simp
    | some part => simp [asciiLower]
  unfold layout
  simp only [skips_lower, List.length_map, List.head?_map, List.getLast?_map, ne_eq, hnil]

/-- Two readings of the parts that differ in the case of their letters lay them out alike. -/
theorem hextetParts_lower (s : Str) : (hextetParts (asciiLower s)).map (List.map asciiLower) =
    (hextetParts s).map (List.map asciiLower) := by
  have hdot : ∀ part : Str, '.' ∈ asciiLower part ↔ '.' ∈ part := fun part => mem_asciiLower (by decide)
  have hlast : ((s.splitOn ':').map asciiLower).getLastD [] = asciiLower ((s.splitOn ':').getLastD []) := by
    rw [List.getLastD_eq_getLast?, List.getLastD_eq_getLast?, List.getLast?_map]
    cases (s.splitOn ':').getLast? with
    | none => rfl
    | some part => rfl
  have htwice : ∀ parts : List Str, (parts.map asciiLower).map asciiLower = parts.map asciiLower := by
    intro parts
    simp [Function.comp_def, asciiLower_asciiLower]
  unfold hextetParts
  simp only [splitOn_asciiLower (c := ':') (by decide), hlast, hdot, Ipv4Address.parse_lower]
  split
  · cases Ipv4Address.parse ((s.splitOn ':').getLastD []) with
    | none => rfl
    | some a =>
      simp only [Option.map_some, List.map_append, ← List.map_dropLast, htwice]
  · simp only [Option.map_some, htwice]

/-- The number of an address does not depend on the case of its letters. -/
theorem number_lower (s : Str) : number (asciiLower s) = number s := by
  have hparts := hextetParts_lower s
  unfold number
  simp only [splitOn_asciiLower (c := ':') (by decide), List.length_map, asciiLower_eq_nil]
  cases hleft : hextetParts (asciiLower s) with
  | none =>
    cases hright : hextetParts s with
    | none => rfl
    | some parts =>
      rw [hleft, hright] at hparts
      cases hparts
  | some lowered =>
    cases hright : hextetParts s with
    | none =>
      rw [hleft, hright] at hparts
      cases hparts
    | some parts =>
      rw [hleft, hright, Option.map_some, Option.map_some, Option.some.injEq] at hparts
      have hlength : lowered.length = parts.length := by
        simpa using congrArg List.length hparts
      have hlayout : layout lowered = layout parts := by
        rw [← layout_lower lowered, ← layout_lower parts, hparts]
      have hmapM : ∀ f : List Str → List Str, (∀ xs, (f xs).map asciiLower = f (xs.map asciiLower)) →
          (f lowered).mapM parseHextet = (f parts).mapM parseHextet := by
        intro f hf
        rw [← mapM_asciiLower parseHextet_lower (f lowered), ← mapM_asciiLower parseHextet_lower (f parts), hf, hf,
          hparts]
      dsimp only
      rw [hlength, hlayout]
      simp only [hmapM (List.take _) (fun xs => List.map_take), hmapM (List.drop _) (fun xs => List.map_drop)]

/-- **An address reads the same in any letter case**, but for its zone. -/
theorem parse_lower (s : Str) :
    parse (asciiLower s) = (parse s).map fun a => { a with scopeId := a.scopeId.map asciiLower } := by
  have hscope : splitScopeId (asciiLower s) =
      (splitScopeId s).map fun p => (asciiLower p.1, p.2.map asciiLower) := by
    unfold splitScopeId
    simp only [mem_asciiLower (c := '%') (by decide), cut_asciiLower (c := '%') (by decide), asciiLower_eq_nil]
    split
    · rfl
    · split
      · rfl
      · rfl
  unfold parse
  simp only [mem_asciiLower (c := '/') (by decide), hscope]
  split
  · rfl
  · cases splitScopeId s with
    | none => rfl
    | some p =>
      simp only [Option.map_some, number_lower]
      cases number p.1 with
      | none => rfl
      | some n =>
        dsimp only
        split
        · rfl
        · rfl

end Ipv6Address

theorem ipAddress_lower_isSome (s : Str) : (ipAddress (asciiLower s)).isSome = (ipAddress s).isSome := by
  unfold ipAddress
  rw [Ipv4Address.parse_lower, Ipv6Address.parse_lower]
  cases Ipv4Address.parse s with
  | some a => rfl
  | none => simp

end LetterCase

end LinkShortener.Urls
