import Mathlib.Algebra.GroupWithZero.Nat
import LinkShortener.Lib.Text
import LinkShortener.Domain.Errors
import LinkShortener.Urls.Addresses

/-!
# Addresses and passwords

What somebody types who registers: an address, which is held in lower case, and a password.

* `Email.parse`: the check of the length, of the form, and the normal form, in this order.
* `validatePassword`: the checks of a password in the order they are made. The passwords that are refused for being common
  are a parameter, as is `str.lower`.
-/

namespace LinkShortener.Registration

open Text
open Urls (Str)

/-! ## Addresses -/

/-- `MAX_EMAIL_LENGTH`. -/
def maxEmailLength : Nat := 254

/-- `EMAIL_PATTERN_RE`: one `@`, no white space, and a dot inside the domain. -/
def matchesEmailPattern (value : Str) : Bool :=
  match value.splitOn '@' with
  | [localPart, domain] =>
    decide (localPart ≠ []) && (localPart ++ domain).all (!isSpace ·) && domain.tail.dropLast.contains '.'
  | _ => false

namespace Email

variable (lower : Str → Str)

/-- The form an address is stored, compared and looked up in. -/
def normalise (value : Str) : Str := lower value

def parse (value : Str) : Except DomainError Str :=
  if value.length > maxEmailLength then .error (.validation "Email address is too long" "email")
  else if matchesEmailPattern value then .ok (normalise lower value)
  else .error (.validation "Invalid email format" "email")

end Email

/-! ## Passwords -/

def minPasswordLength : Nat := 8

def maxPasswordLength : Nat := 64

/-- bcrypt's limit. -/
def maxPasswordBytes : Nat := 72

/-- `none` lets the password through. -/
def validatePassword (lower : Str → Str) (commonPasswords : List Str) (password : Str) : Option DomainError :=
  let refusal message := some (DomainError.validation message "password")
  if password.all isSpace then refusal "Password must not be blank"
  else if '\x00' ∈ password then refusal "Password must not contain a null character"
  else if password.length < minPasswordLength then
    refusal ("Password must be at least " ++ toString minPasswordLength ++ " characters")
  else if password.length > maxPasswordLength ∨ (password.map Char.utf8Size).sum > maxPasswordBytes then
    refusal ("Password must not exceed " ++ toString maxPasswordLength ++
      " characters, and fewer for alphabets that need more room per character")
  else if lower password ∈ commonPasswords then
    refusal "Password is too common -- choose one that is not on every attacker's list"
  else none

end LinkShortener.Registration
