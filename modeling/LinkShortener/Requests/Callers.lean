import LinkShortener.Requests.Gate
import LinkShortener.Urls.AddressTexts

/-!
# Who is asking

The address a request comes from. Behind a proxy that is known it is the last one the `X-Forwarded-For` header names, which
the proxy has appended; anybody else may write what they like into the header, and it is not read.

* `getClientIp`: the identity of a caller, the address in the one form it is written in.
* `source`: whose address that is. `getClientIp_eq`: the identity is the text of it.
* `Alike`: two arrivals that differ in nothing but what a caller wrote into the header. `getClientIp_alike`: they are one
  caller.
* `callers_are_told_apart`: **callers behind a proxy are told apart by their addresses**, and by nothing else.
-/

namespace LinkShortener.Requests

open Text
open Urls (Str IpAddress ipAddress)

/-! ## The header -/

/-- An entry without the space around it and without brackets. -/
def bare (value : Str) : Str :=
  let candidate := Decimal.strip value
  if candidate.head? = some '[' ∧ candidate.getLast? = some ']' then (candidate.drop 1).dropLast else candidate

/-- The address an entry names. One with a zone says nothing about a caller. -/
def addressOf (value : Str) : Option IpAddress := if '%' ∈ bare value then none else ipAddress (bare value)

def asIpAddress (value : Str) : Option Str := (addressOf value).map IpAddress.toText

/-- How a request came in. -/
structure Arrival where
  remoteAddr : Option Str
  forwardedFor : Option Str
  deriving DecidableEq

/-- The last entry of the header. -/
def nearest (forwardedFor : Str) : Str := (cutLast ',' forwardedFor).2

def getClientIp (trustedProxies : List Str) (arrival : Arrival) : Str :=
  let remoteAddr := arrival.remoteAddr.getD []
  if remoteAddr ∈ trustedProxies then
    ((given arrival.forwardedFor).bind fun forwardedFor => given (asIpAddress (nearest forwardedFor))).getD remoteAddr
  else remoteAddr

/-- What a proxy makes of the header: the address it has seen, after whatever was there. -/
def appended (typed : Option Str) (entry : Str) : Str :=
  match typed with
  | none => entry
  | some typed => typed ++ ',' :: entry

section Entries

variable {entry : Str} {a : IpAddress}

theorem scopeId_of_addressOf (h : addressOf entry = some a) : a.scopeId = none := by
  unfold addressOf at h
  split at h
  · cases h
  · rename_i hpercent
    exact IpAddress.scopeId_eq_none h hpercent

theorem nearest_appended (typed : Option Str) (hcomma : ',' ∉ entry) : nearest (appended typed entry) = entry := by
  unfold nearest appended
  cases typed with
  | none => exact congrArg Prod.snd (cutLast_of_not_mem hcomma)
  | some typed => exact congrArg Prod.snd (cutLast_append typed hcomma)

/-- The form an address is written in is read as it is. -/
theorem bare_toText (h : a.scopeId = none) : bare a.toText = a.toText := by
  have hbracket : a.toText.head? ≠ some '[' := by
    intro hhead
    rcases IpAddress.mem_toText h (List.mem_of_head? hhead) with hno | hno | hno <;> exact absurd hno (by decide)
  unfold bare
  rw [IpAddress.strip_toText h]
  exact if_neg fun hboth => hbracket hboth.1

theorem addressOf_toText (h : a.scopeId = none) : addressOf a.toText = some a := by
  have hpercent : '%' ∉ a.toText := by
    intro hmem
    rcases IpAddress.mem_toText h hmem with hno | hno | hno <;> exact absurd hno (by decide)
  unfold addressOf
  rw [bare_toText h, if_neg hpercent]
  exact IpAddress.ipAddress_toText (IpAddress.isScopeId_of_none h)

/-- Nothing is no address. -/
theorem addressOf_nil : addressOf [] = none := rfl

theorem asIpAddress_of_addressOf (h : addressOf entry = some a) : given (asIpAddress entry) = some a.toText := by
  unfold asIpAddress
  rw [h]
  exact if_pos (decide_eq_true a.toText_ne_nil)

end Entries

/-! ## The caller -/

section Arrivals

variable {trusted : List Str} {arrival arrival' : Arrival}

/-- What a connection says of its other end: an address in the form it is written in, or nothing. -/
def Reported (arrival : Arrival) : Prop :=
  ∀ text ∈ arrival.remoteAddr, text = [] ∨ ∃ a, ipAddress text = some a ∧ a.toText = text

/-- Whose address the identity of a caller is. -/
def source (trusted : List Str) (arrival : Arrival) : Option IpAddress :=
  let peer := arrival.remoteAddr.bind ipAddress
  if arrival.remoteAddr.getD [] ∈ trusted then
    ((given arrival.forwardedFor).bind fun forwardedFor => addressOf (nearest forwardedFor)).or peer
  else peer

theorem peer_toText (h : Reported arrival) :
    ((arrival.remoteAddr.bind ipAddress).map IpAddress.toText).getD [] = arrival.remoteAddr.getD [] := by
  cases hremote : arrival.remoteAddr with
  | none => rfl
  | some text =>
    rcases h text hremote with rfl | ⟨a, hread, htext⟩
    · rfl
    · rw [Option.bind_some, hread]
      exact htext

/-- **The identity of a caller is the text of an address.** -/
theorem getClientIp_eq (h : Reported arrival) :
    getClientIp trusted arrival = ((source trusted arrival).map IpAddress.toText).getD [] := by
  unfold getClientIp source
  dsimp only
  split
  · cases hgiven : given arrival.forwardedFor with
    | none => exact (peer_toText h).symm
    | some forwardedFor =>
      rw [Option.bind_some, Option.bind_some]
      cases hnames : addressOf (nearest forwardedFor) with
      | none =>
        have hnone : given (asIpAddress (nearest forwardedFor)) = none := by
          rw [asIpAddress, hnames]
          rfl
        rw [hnone]
        exact (peer_toText h).symm
      | some a =>
        rw [asIpAddress_of_addressOf hnames]
        rfl
  · exact (peer_toText h).symm

/-- The zone of a caller's address, if the connection reports one. -/
theorem isScopeId_of_source {a : IpAddress} {scopeId : Str} (h : source trusted arrival = some a)
    (hs : a.scopeId = some scopeId) : Urls.Ipv6Address.IsScopeId scopeId := by
  have hpeer : arrival.remoteAddr.bind ipAddress = some a → Urls.Ipv6Address.IsScopeId scopeId := by
    intro hbind
    obtain ⟨text, -, hread⟩ := Option.bind_eq_some_iff.mp hbind
    exact IpAddress.scopeId_of_ipAddress hread hs
  unfold source at h
  dsimp only at h
  split at h
  · rcases Option.or_eq_some_iff.mp h with hheader | ⟨-, hbind⟩
    · obtain ⟨forwardedFor, -, hnames⟩ := Option.bind_eq_some_iff.mp hheader
      rw [scopeId_of_addressOf hnames] at hs
      cases hs
    · exact hpeer hbind
  · exact hpeer h

/-- Arrivals that differ at most in what a caller can write: the header from somebody who is not trusted, and everything
but its last entry from a proxy. -/
def Alike (trusted : List Str) (arrival arrival' : Arrival) : Prop :=
  arrival.remoteAddr = arrival'.remoteAddr ∧ (arrival.remoteAddr.getD [] ∈ trusted →
    arrival.forwardedFor.map nearest = arrival'.forwardedFor.map nearest)

/-- What the header says, by its last entry alone. -/
theorem bind_given_nearest {β : Type} {f : Str → Option β} (hnil : f [] = none) (header : Option Str) :
    (given header).bind (fun forwardedFor => f (nearest forwardedFor)) = (header.map nearest).bind f := by
  cases header with
  | none => rfl
  | some forwardedFor =>
    by_cases hempty : forwardedFor = []
    · subst hempty
      exact hnil.symm
    · rw [show given (some forwardedFor) = some forwardedFor from if_pos (decide_eq_true hempty)]
      rfl

/-- What a caller writes into the header makes no other caller of them. -/
theorem getClientIp_alike (h : Alike trusted arrival arrival') : getClientIp trusted arrival = getClientIp trusted arrival' ∧
    source trusted arrival = source trusted arrival' := by
  obtain ⟨hremote, hheader⟩ := h
  unfold getClientIp source
  rw [← hremote]
  by_cases htrusted : arrival.remoteAddr.getD [] ∈ trusted
  · simp only [if_pos htrusted]
    have hsame := hheader htrusted
    rw [bind_given_nearest (f := fun entry => given (asIpAddress entry)) rfl, hsame,
      bind_given_nearest (f := fun entry => given (asIpAddress entry)) rfl, bind_given_nearest addressOf_nil, hsame,
      bind_given_nearest addressOf_nil]
    exact ⟨rfl, rfl⟩
  · simp only [if_neg htrusted, and_self]

end Arrivals

/-- The identity of a caller whose address a proxy has appended to what they wrote. -/
def identityThrough (trusted : List Str) (proxy : Str) (typed : Option Str) (entry : Str) : Str :=
  getClientIp trusted ⟨some proxy, some (appended typed entry)⟩

theorem identityThrough_eq {trusted : List Str} {proxy entry : Str} {a : IpAddress} (hproxy : proxy ∈ trusted)
    (hcomma : ',' ∉ entry) (hnames : addressOf entry = some a) (typed : Option Str) :
    identityThrough trusted proxy typed entry = a.toText := by
  have hmember : (some proxy).getD [] ∈ trusted := hproxy
  have hnearest : (some (appended typed entry)).map nearest = some entry := by
    rw [Option.map_some, nearest_appended typed hcomma]
  unfold identityThrough getClientIp
  dsimp only
  rw [if_pos hmember, bind_given_nearest (f := fun entry => given (asIpAddress entry)) rfl, hnearest, Option.bind_some,
    asIpAddress_of_addressOf hnames]
  rfl

/-- **Callers behind a proxy are told apart by their addresses**, whatever they write into the header: two of them have one
identity if and only if the proxy has seen one address, however it spelled it. An identity fits the column it is kept in, and
is the form that it would be given if it were read again. Without a proxy that is trusted, the header is not looked at. -/
theorem callers_are_told_apart (trusted : List Str) {proxy entry entry' : Str} {a a' : IpAddress} (hproxy : proxy ∈ trusted)
    (hcomma : ',' ∉ entry) (hcomma' : ',' ∉ entry') (hnames : addressOf entry = some a) (hnames' : addressOf entry' = some a')
    (typed typed' : Option Str) :
    (identityThrough trusted proxy typed entry = identityThrough trusted proxy typed' entry' ↔ a = a') ∧
    (identityThrough trusted proxy typed entry).length ≤ 45 ∧
    asIpAddress (identityThrough trusted proxy typed entry) = some (identityThrough trusted proxy typed entry) ∧
    ∀ remote ∉ trusted, ∀ header, getClientIp trusted ⟨some remote, header⟩ = remote := by
  have hscope := scopeId_of_addressOf hnames
  have hscope' := scopeId_of_addressOf hnames'
  rw [identityThrough_eq hproxy hcomma hnames, identityThrough_eq hproxy hcomma' hnames']
  have hsame : a.toText = a'.toText ↔ a = a' :=
    ⟨IpAddress.toText_inj (IpAddress.isScopeId_of_none hscope) (IpAddress.isScopeId_of_none hscope'), congrArg IpAddress.toText⟩
  refine ⟨hsame, IpAddress.length_toText_le hscope, ?_, ?_⟩
  · rw [asIpAddress, addressOf_toText hscope]
    rfl
  · intro remote hremote header
    exact if_neg hremote

/-- Two spellings of one address, behind two things that were typed. -/
theorem two_spellings_are_one_caller :
    identityThrough ["10.0.0.1".toList] "10.0.0.1".toList (some "203.0.113.7".toList) " [2001:DB8:0:0::1]".toList =
      identityThrough ["10.0.0.1".toList] "10.0.0.1".toList none "2001:db8::1".toList := by
  have hread : addressOf " [2001:DB8:0:0::1]".toList = some (.v6 ⟨0x20010DB8000000000000000000000001, by decide, none⟩) := by
    decide +kernel
  have hread' : addressOf "2001:db8::1".toList = some (.v6 ⟨0x20010DB8000000000000000000000001, by decide, none⟩) := by
    decide +kernel
  exact (callers_are_told_apart ["10.0.0.1".toList] (List.mem_singleton_self _) (by decide) (by decide) hread hread'
    (some "203.0.113.7".toList) none).1.mpr rfl

end LinkShortener.Requests
