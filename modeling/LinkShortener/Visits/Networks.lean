import LinkShortener.Urls.AddressTexts

/-!
# What a visit remembers of its visitor

The address of a visitor is reduced to the network it belongs to, before anything is stored.

* `anonymiseAddress`: the address is read, masked by way of its text, and written.
* `networkOf`: what is to be told apart. An IPv4 address that is written as an IPv6 one belongs to its own network.
* `visits_tell_networks_apart`: **two visits look alike if and only if they come from one network.**
-/

namespace LinkShortener.Visits

open Urls (Str IpAddress Ipv4Address Ipv6Address IpVersion ipAddress)

/-- The IPv4 address an IPv6 address stands for, if it does. -/
def unmappedV6 (a : Ipv6Address) : IpAddress :=
  match a.ipv4Mapped with
  | some n => .v4 ⟨n % 2 ^ 32, Nat.mod_lt n (by decide)⟩
  | none => .v6 a

def unmapped : IpAddress → IpAddress
  | .v4 a => .v4 a
  | .v6 a => unmappedV6 a

/-- The network of 24 bits. -/
def networkV4 (a : Ipv4Address) : Ipv4Address :=
  ⟨a.ip / 2 ^ 8 * 2 ^ 8, Nat.lt_of_le_of_lt (Nat.div_mul_le_self a.ip (2 ^ 8)) a.bound⟩

/-- The network of 64 bits. An address that has nothing to mask is kept as it is, with its zone. -/
def networkV6 (a : Ipv6Address) : Ipv6Address :=
  if a.ip / 2 ^ 64 * 2 ^ 64 = a.ip then a
  else ⟨a.ip / 2 ^ 64 * 2 ^ 64, Nat.lt_of_le_of_lt (Nat.div_mul_le_self a.ip (2 ^ 64)) a.bound, none⟩

/-- `network_address` of the network of an address. -/
def networkAddress : IpAddress → IpAddress
  | .v4 a => .v4 (networkV4 a)
  | .v6 a => .v6 (networkV6 a)

/-- The network is made from the text of the address; `none` is a `ValueError`. -/
def anonymiseAddress (address : Option Str) : Option (Option Str) :=
  match address with
  | none | some [] => some none
  | some text =>
    match ipAddress (Decimal.strip text) with
    | none => some none
    | some parsed => (ipAddress (unmapped parsed).toText).map fun a => some (networkAddress a).toText

/-- The network an address belongs to. -/
def networkOf : IpAddress → IpVersion × Nat
  | .v4 a => (.v4, a.ip / 2 ^ 8)
  | .v6 a =>
    match a.ipv4Mapped with
    | some n => (.v4, n / 2 ^ 8)
    | none => (.v6, a.ip / 2 ^ 64)

section Networks

variable {text : Str} {a b : IpAddress}

theorem unmappedV6_cases (a : Ipv6Address) : (∃ n, ∃ hn : n < 2 ^ 32, a.ip = 0xFFFF * 2 ^ 32 + n ∧ a.ipv4Mapped = some n ∧
    unmappedV6 a = .v4 ⟨n, hn⟩) ∨ (a.ip / 2 ^ 32 ≠ 0xFFFF ∧ a.ipv4Mapped = none ∧ unmappedV6 a = .v6 a) := by
  by_cases hmapped : a.ip / 2 ^ 32 = 0xFFFF
  · have hvalue : a.ipv4Mapped = some (a.ip % 2 ^ 32) := if_pos hmapped
    refine .inl ⟨a.ip % 2 ^ 32, Nat.mod_lt _ (by decide), ?_, hvalue, ?_⟩
    · rw [← hmapped]
      exact (Nat.div_add_mod' a.ip (2 ^ 32)).symm
    · simp only [unmappedV6, hvalue, Nat.mod_mod]
  · have hvalue : a.ipv4Mapped = none := if_neg hmapped
    refine .inr ⟨hmapped, hvalue, ?_⟩
    simp only [unmappedV6, hvalue]

theorem networkV6_ip (a : Ipv6Address) : (networkV6 a).ip = a.ip / 2 ^ 64 * 2 ^ 64 := by
  unfold networkV6
  split
  · exact Eq.symm ‹_›
  · rfl

theorem networkV6_scopeId {a : Ipv6Address} (h : a.scopeId = none) : (networkV6 a).scopeId = none := by
  unfold networkV6
  split
  · exact h
  · rfl

/-- A network is its own network. -/
theorem networkAddress_networkAddress (a : IpAddress) : networkAddress (networkAddress a) = networkAddress a := by
  cases a with
  | v4 a =>
    refine congrArg IpAddress.v4 ?_
    rw [networkV4, Ipv4Address.mk.injEq]
    show a.ip / 2 ^ 8 * 2 ^ 8 / 2 ^ 8 * 2 ^ 8 = a.ip / 2 ^ 8 * 2 ^ 8
    rw [Nat.mul_div_cancel _ (by decide)]
  | v6 a =>
    refine congrArg IpAddress.v6 (if_pos ?_)
    rw [networkV6_ip, Nat.mul_div_cancel _ (by decide)]

/-- A network stands for no other address. -/
theorem unmapped_networkAddress (a : IpAddress) : unmapped (networkAddress (unmapped a)) = networkAddress (unmapped a) := by
  have hv6 : ∀ b : Ipv6Address, b.ip / 2 ^ 32 ≠ 0xFFFF → unmappedV6 (networkV6 b) = .v6 (networkV6 b) := by
    intro b _
    rcases unmappedV6_cases (networkV6 b) with ⟨n, hn, hip, -, -⟩ | ⟨-, -, heq⟩
    · rw [networkV6_ip] at hip
      omega
    · exact heq
  cases a with
  | v4 a => rfl
  | v6 a =>
    rcases unmappedV6_cases a with ⟨n, hn, -, -, heq⟩ | ⟨hmapped, -, heq⟩
    · rw [unmapped, heq]
      rfl
    · rw [unmapped, heq]
      exact hv6 a hmapped

theorem scopeId_v6 (a : Ipv6Address) : (IpAddress.v6 a).scopeId = a.scopeId := rfl

theorem scopeId_unmapped (h : a.scopeId = none) : (unmapped a).scopeId = none := by
  cases a with
  | v4 a => rfl
  | v6 a =>
    rcases unmappedV6_cases a with ⟨n, hn, -, -, heq⟩ | ⟨-, -, heq⟩
    · rw [unmapped, heq]
      rfl
    · rw [unmapped, heq]
      exact h

theorem scopeId_networkAddress (h : a.scopeId = none) : (networkAddress a).scopeId = none := by
  cases a with
  | v4 a => rfl
  | v6 a =>
    rw [scopeId_v6] at h
    rw [networkAddress, scopeId_v6, networkV6_scopeId h]

/-- The network of an address is what is left of it. -/
theorem networkAddress_of_networkOf (ha : a.scopeId = none) : (∃ m : Ipv4Address, networkOf a = (.v4, m.ip / 2 ^ 8) ∧
      networkAddress (unmapped a) = .v4 (networkV4 m)) ∨
    ∃ m : Ipv6Address, networkOf a = (.v6, m.ip / 2 ^ 64) ∧ m.scopeId = none ∧
      networkAddress (unmapped a) = .v6 (networkV6 m) := by
  cases a with
  | v4 a => exact .inl ⟨a, rfl, rfl⟩
  | v6 a =>
    rcases unmappedV6_cases a with ⟨n, hn, -, hmapped, heq⟩ | ⟨-, hmapped, heq⟩
    · refine .inl ⟨⟨n, hn⟩, ?_, ?_⟩
      · simp only [networkOf, hmapped]
      · rw [unmapped, heq]
        rfl
    · refine .inr ⟨a, ?_, ha, ?_⟩
      · simp only [networkOf, hmapped]
      · rw [unmapped, heq]
        rfl

theorem networkV4_eq_iff (m n : Ipv4Address) : networkV4 m = networkV4 n ↔ m.ip / 2 ^ 8 = n.ip / 2 ^ 8 := by
  rw [networkV4, networkV4, Ipv4Address.mk.injEq]
  exact Nat.mul_left_inj (by decide)

theorem networkV6_eq_iff {m n : Ipv6Address} (hm : m.scopeId = none) (hn : n.scopeId = none) :
    networkV6 m = networkV6 n ↔ m.ip / 2 ^ 64 = n.ip / 2 ^ 64 := by
  have hip : (networkV6 m).ip = (networkV6 n).ip ↔ m.ip / 2 ^ 64 = n.ip / 2 ^ 64 := by
    rw [networkV6_ip, networkV6_ip]
    exact Nat.mul_left_inj (by decide)
  rw [← hip]
  refine ⟨congrArg Ipv6Address.ip, fun heq => ?_⟩
  have hscope := (networkV6_scopeId hm).trans (networkV6_scopeId hn).symm
  cases h : networkV6 m
  cases h' : networkV6 n
  rw [h, h'] at heq hscope
  simp only [Ipv6Address.mk.injEq]
  exact ⟨heq, hscope⟩

/-- **Two addresses have one network address if and only if they belong to one network.** -/
theorem networkAddress_eq_iff (ha : a.scopeId = none) (hb : b.scopeId = none) :
    networkAddress (unmapped a) = networkAddress (unmapped b) ↔ networkOf a = networkOf b := by
  rcases networkAddress_of_networkOf ha with ⟨m, hof, haddress⟩ | ⟨m, hof, hm, haddress⟩ <;>
    rcases networkAddress_of_networkOf hb with ⟨n, hof', haddress'⟩ | ⟨n, hof', hn, haddress'⟩ <;>
      rw [hof, hof', haddress, haddress']
  · simp only [IpAddress.v4.injEq, Prod.mk.injEq, true_and]
    exact networkV4_eq_iff m n
  · simp
  · simp
  · simp only [IpAddress.v6.injEq, Prod.mk.injEq, true_and]
    exact networkV6_eq_iff hm hn

/-! ## What is written -/

/-- The bits of an address that are below its network. -/
def hostBits : IpAddress → Nat
  | .v4 a => a.ip % 2 ^ 8
  | .v6 a => a.ip % 2 ^ 64

theorem hostBits_networkAddress (a : IpAddress) : hostBits (networkAddress a) = 0 := by
  cases a with
  | v4 a =>
    show a.ip / 2 ^ 8 * 2 ^ 8 % 2 ^ 8 = 0
    exact Nat.mul_mod_left _ _
  | v6 a =>
    rw [networkAddress, hostBits, networkV6_ip]
    exact Nat.mul_mod_left _ _

theorem ipAddress_unmapped (h : ipAddress text = some a) : ipAddress (unmapped a).toText = some (unmapped a) := by
  refine IpAddress.ipAddress_toText fun scopeId hs => ?_
  cases a with
  | v4 a => cases hs
  | v6 a =>
    rcases unmappedV6_cases a with ⟨n, hn, -, -, heq⟩ | ⟨-, -, heq⟩
    · rw [unmapped, heq] at hs
      cases hs
    · rw [unmapped, heq] at hs
      exact IpAddress.scopeId_of_ipAddress h hs

/-- An address that is read is written as its network. -/
theorem anonymiseAddress_eq (h : ipAddress (Decimal.strip text) = some a) :
    anonymiseAddress (some text) = some (some (networkAddress (unmapped a)).toText) := by
  cases text with
  | nil => cases h
  | cons c rest => simp only [anonymiseAddress, h, ipAddress_unmapped h, Option.map_some]

/-- Whatever a request reports, there is an answer. -/
theorem anonymiseAddress_isSome (address : Option Str) : (anonymiseAddress address).isSome = true := by
  cases address with
  | none => rfl
  | some text =>
    cases h : ipAddress (Decimal.strip text) with
    | some a =>
      rw [anonymiseAddress_eq h]
      rfl
    | none =>
      cases text with
      | nil => rfl
      | cons c rest =>
        simp only [anonymiseAddress, h]
        rfl

/-- What is written is read as the network. -/
theorem ipAddress_network (ha : a.scopeId = none) :
    ipAddress (networkAddress (unmapped a)).toText = some (networkAddress (unmapped a)) :=
  IpAddress.ipAddress_toText (IpAddress.isScopeId_of_none (scopeId_networkAddress (scopeId_unmapped ha)))

end Networks

/-- **Two visits look alike if and only if they come from one network**: 24 bits of an IPv4 address, however it was written, or
64 bits of an IPv6 one. What is kept fits its column, is read as an address of that network with nothing below it, and would
be reduced to itself; and whatever a request reports as its address, recording the visit does not fail. -/
theorem visits_tell_networks_apart {text text' : Str} {a b : IpAddress} (hread : ipAddress (Decimal.strip text) = some a)
    (hread' : ipAddress (Decimal.strip text') = some b) (ha : a.scopeId = none) (hb : b.scopeId = none) :
    (anonymiseAddress (some text) = anonymiseAddress (some text') ↔ networkOf a = networkOf b) ∧
    (∃ kept c, anonymiseAddress (some text) = some (some kept) ∧ kept.length ≤ 45 ∧ ipAddress kept = some c ∧
      networkOf c = networkOf a ∧ hostBits c = 0 ∧ anonymiseAddress (some kept) = some (some kept)) ∧
    ∀ address, (anonymiseAddress address).isSome = true := by
  have hscope := scopeId_networkAddress (scopeId_unmapped ha)
  have hself : networkAddress (unmapped (networkAddress (unmapped a))) = networkAddress (unmapped a) := by
    rw [unmapped_networkAddress, networkAddress_networkAddress]
  refine ⟨?_, ⟨(networkAddress (unmapped a)).toText, networkAddress (unmapped a), anonymiseAddress_eq hread,
    IpAddress.length_toText_le hscope, ipAddress_network ha, ?_, hostBits_networkAddress _, ?_⟩, anonymiseAddress_isSome⟩
  · rw [anonymiseAddress_eq hread, anonymiseAddress_eq hread', Option.some.injEq, Option.some.injEq,
      ← networkAddress_eq_iff ha hb]
    constructor
    · intro htext
      have heq := ipAddress_network ha
      rw [htext, ipAddress_network hb] at heq
      exact (Option.some.inj heq).symm
    · exact congrArg IpAddress.toText
  · exact (networkAddress_eq_iff hscope ha).mp hself
  · have hagain : ipAddress (Decimal.strip (networkAddress (unmapped a)).toText) = some (networkAddress (unmapped a)) := by
      rw [IpAddress.strip_toText hscope, ipAddress_network ha]
    rw [anonymiseAddress_eq hagain, hself]

/-- A guest seen by two listeners, one of which writes IPv4 addresses as IPv6 ones. -/
theorem mapped_address_is_its_own_network :
    anonymiseAddress (some "::ffff:203.0.113.5".toList) = anonymiseAddress (some " 203.0.113.77".toList) := by
  have hread : ipAddress (Decimal.strip "::ffff:203.0.113.5".toList) = some (.v6 ⟨0xFFFFCB007105, by decide, none⟩) := by
    decide +kernel
  have hread' : ipAddress (Decimal.strip " 203.0.113.77".toList) = some (.v4 ⟨0xCB00714D, by decide⟩) := by decide +kernel
  exact (visits_tell_networks_apart hread hread' rfl rfl).1.mpr (by decide)

end LinkShortener.Visits
