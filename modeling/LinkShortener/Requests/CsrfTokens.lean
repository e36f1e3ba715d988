import LinkShortener.Lib.Decimal
import LinkShortener.Lib.Seals
import LinkShortener.Domain.Link
import LinkShortener.Urls.Parse

/-!
# CSRF tokens

A token is `<nonce>.<issued_at>.<signature>`, and the signature is an HMAC over the account it was issued to, the nonce and
the moment, with colons between them. The nonce a client presents may hold colons too.

* `Keyed`: the HMAC under the application's key, as hexadecimal text.
* `buildCsrfToken`, `verifyCsrfToken`: minting and checking. The moment is read by `int()`, which takes many texts for one
  number, and signed as it is written.
* `message_inj`: a message says which account, nonce and moment it is about.
* `verify_build`: a token that was minted is accepted for its account, for as long as it lives.
-/

namespace LinkShortener.Requests

open Text
open Urls (Str)

/-- `hmac.new(secret_key, message, sha256).hexdigest()`. -/
structure Keyed where
  hexdigest : Str → Str

/-- Hexadecimal text, with something in it. -/
structure Keyed.Hexadecimal (key : Keyed) : Prop where
  nonempty : ∀ message, key.hexdigest message ≠ []
  dotless : ∀ message, '.' ∉ key.hexdigest message

/-- `CSRF_TOKEN_TTL_SECONDS`. -/
def csrfTokenTtlSeconds : Int := 12 * 3600

/-- `int(time.time())`. -/
def seconds (now : Instant) : Int := now / Link.second

variable (key : Keyed)

def message (userId nonce : Str) (issuedAt : Int) : Str := userId ++ ':' :: (nonce ++ ':' :: Decimal.ofInt issuedAt)

def signature (userId nonce : Str) (issuedAt : Int) : Str := key.hexdigest (message userId nonce issuedAt)

/-- `nonce` is what `secrets.token_urlsafe` has drawn. -/
def buildCsrfToken (userId nonce : Str) (now : Instant) : Str :=
  nonce ++ '.' :: (Decimal.ofInt (seconds now) ++ '.' :: signature key userId nonce (seconds now))

def verifyCsrfToken (userId token : Str) (now : Instant) : Bool :=
  match token.splitOn '.' with
  | [nonce, rawIssuedAt, signed] =>
    if nonce = [] ∨ signed = [] then false
    else
      match Decimal.toInt? rawIssuedAt with
      | none => false
      | some issuedAt =>
        if seconds now - issuedAt > csrfTokenTtlSeconds then false
        else decide (signed = signature key userId nonce issuedAt)
  | _ => false

/-! ## What a message says -/

theorem colon_not_mem_ofInt (n : Int) : ':' ∉ Decimal.ofInt n := Decimal.not_mem_ofInt (by decide) (by decide) n

theorem dot_not_mem_ofInt (n : Int) : '.' ∉ Decimal.ofInt n := Decimal.not_mem_ofInt (by decide) (by decide) n

/-- The account is what stands in front of the first colon, and the moment behind the last. -/
theorem message_inj {userId userId' nonce nonce' : Str} {issuedAt issuedAt' : Int} (hid : ':' ∉ userId)
    (hid' : ':' ∉ userId') (h : message userId nonce issuedAt = message userId' nonce' issuedAt') :
    userId = userId' ∧ nonce = nonce' ∧ issuedAt = issuedAt' := by
  have hfirst := congrArg (cut ':') h
  unfold message at hfirst
  rw [cut_append hid, cut_append hid'] at hfirst
  obtain ⟨hid, hrest⟩ := Prod.mk.inj hfirst
  have hlast := congrArg (cutLast ':') hrest
  rw [cutLast_append _ (colon_not_mem_ofInt _), cutLast_append _ (colon_not_mem_ofInt _)] at hlast
  obtain ⟨hnonce, hmoment⟩ := Prod.mk.inj hlast
  exact ⟨hid, List.append_cancel_right hnonce, Decimal.ofInt_injective hmoment⟩

variable {key}

/-- What an accepted token is made of. -/
theorem verifyCsrfToken_eq_true {userId token : Str} {now : Instant} (h : verifyCsrfToken key userId token now = true) :
    ∃ nonce rawIssuedAt signed issuedAt, token.splitOn '.' = [nonce, rawIssuedAt, signed] ∧
      Decimal.toInt? rawIssuedAt = some issuedAt ∧ seconds now - issuedAt ≤ csrfTokenTtlSeconds ∧
      signed = key.hexdigest (message userId nonce issuedAt) := by
  unfold verifyCsrfToken at h
  split at h
  · rename_i nonce rawIssuedAt signed hsplit
    split at h
    · cases h
    · split at h
      · cases h
      · rename_i issuedAt hint
        split at h
        · cases h
        · rename_i hage
          exact ⟨nonce, rawIssuedAt, signed, issuedAt, hsplit, hint, not_lt.mp hage, of_decide_eq_true h⟩
  · cases h

/-- The parts of a token that was minted. -/
theorem splitOn_buildCsrfToken (hkey : key.Hexadecimal) {userId nonce : Str} (hnonce : '.' ∉ nonce) (now : Instant) :
    (buildCsrfToken key userId nonce now).splitOn '.' =
      [nonce, Decimal.ofInt (seconds now), signature key userId nonce (seconds now)] := by
  unfold buildCsrfToken
  rw [List.splitOn_append_cons_self_of_not_mem hnonce, List.splitOn_append_cons_self_of_not_mem (dot_not_mem_ofInt _),
    signature, List.splitOn_eq_singleton (hkey.dotless _)]

/-- **A token that was minted is accepted** for its account as long as it lives. -/
theorem verify_build (hkey : key.Hexadecimal) {userId nonce : Str} (hnonce : '.' ∉ nonce) (hsome : nonce ≠ [])
    {minted now : Instant} (hclock : (Decimal.digitsOf (seconds minted).natAbs).length ≤ Decimal.maxDigits)
    (hage : seconds now - seconds minted ≤ csrfTokenTtlSeconds) :
    verifyCsrfToken key userId (buildCsrfToken key userId nonce minted) now = true := by
  unfold verifyCsrfToken
  rw [splitOn_buildCsrfToken hkey hnonce]
  have hsigned : signature key userId nonce (seconds minted) ≠ [] := hkey.nonempty _
  simp only [hsome, hsigned, or_self, if_false, Decimal.toInt?_ofInt hclock, gt_iff_lt, not_lt.mpr hage, decide_true]

end LinkShortener.Requests
