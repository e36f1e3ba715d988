import LinkShortener.Basic

/-!
# Domain errors

A refusal carries the sentence the log keeps, the code the status table answers by, the field it is about when it is
about one, the permissions an escalation attempt reached past, and how long to wait when it clears by itself.
-/

namespace LinkShortener

/-- A domain error. -/
structure DomainError where
  message : String
  code : String
  field : Option String
  exceeded : List String
  retryAfterSeconds : Option Int
  deriving DecidableEq, Repr

namespace DomainError

/-- `PermissionDeniedError`, with the permissions that were reached past. -/
def permissionDenied (message : String) (exceeded : List String) : DomainError :=
  ⟨message ++ ", ".intercalate exceeded, "FORBIDDEN", none, exceeded, none⟩

/-- A plain `DomainError`. -/
def plain (message code : String) : DomainError := ⟨message, code, none, [], none⟩

/-- `ValidationError`. -/
def validation (message field : String) : DomainError := ⟨message, "VALIDATION_ERROR", some field, [], none⟩

def userNotFound (userId : Uuid) : DomainError :=
  plain ("User with id " ++ toString userId ++ " not found") "USER_NOT_FOUND"

def emailAlreadyRegistered : DomainError :=
  ⟨"Email already registered", "EMAIL_ALREADY_REGISTERED", some "email", [], none⟩

def roleNotFound (name : String) : DomainError := plain ("Role '" ++ name ++ "' not found") "ROLE_NOT_FOUND"

def roleAlreadyExists (name : String) : DomainError :=
  plain ("Role '" ++ name ++ "' already exists") "ROLE_ALREADY_EXISTS"

def roleIsSystem (name : String) : DomainError :=
  plain ("Role '" ++ name ++ "' belongs to the service and cannot be modified or deleted") "ROLE_IS_SYSTEM"

def roleNotAssignable (name : String) : DomainError :=
  plain ("Role '" ++ name ++ "' cannot be assigned to an account") "ROLE_NOT_ASSIGNABLE"

/-- The names arrive sorted. -/
def permissionsNotFound (names : List String) : DomainError :=
  plain ("Permissions not found: " ++ ", ".intercalate names) "PERMISSIONS_NOT_FOUND"

/-- A code that is empty is not named. -/
def linkNotFound (code : String) : DomainError :=
  plain (if code.isEmpty then "Link not found" else "Link with code (" ++ code ++ ") not found") "LINK_NOT_FOUND"

def linkExpired (code : String) : DomainError :=
  plain (if code.isEmpty then "Link has expired" else "Link with code (" ++ code ++ ") has expired") "LINK_EXPIRED"

def codeGeneration (message : String) : DomainError := plain message "CODE_GENERATION_FAILED"

def linkConflict (message : String) : DomainError := plain message "LINK_CONFLICT"

def linkCodeTaken (code : String) : DomainError :=
  plain ("Short code '" ++ code ++ "' is already taken") "LINK_CODE_TAKEN"

/-- `guest_quota_spent`. -/
def guestLinkLimitExceeded (limit windowDays : Int) : DomainError :=
  ⟨"Guest link limit of " ++ toString limit ++ " exceeded.", "GUEST_LINK_LIMIT", none, [],
    some (windowDays * 24 * 3600)⟩

end DomainError

end LinkShortener
