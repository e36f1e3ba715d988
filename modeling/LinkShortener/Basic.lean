import Mathlib.Init

/-!
# Identifiers and instants

The service names everything by UUID strings and reads one clock, `datetime.now(timezone.utc)`. Only equality of the
identifiers and order and difference of the instants are ever used, so both are numbers here.
-/

namespace LinkShortener

/-- A UUID. -/
abbrev Uuid := Nat

/-- A point in time, in microseconds. -/
abbrev Instant := Int

end LinkShortener
