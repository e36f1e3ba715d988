import Mathlib.Algebra.Order.Ring.Abs
import LinkShortener.Domain.Link
import LinkShortener.Lib.Rounding

/-!
# Days

The statistics are kept by the UTC day. The database numbers the days from 1970 with `epoch_seconds // DAY`, and the
division truncates. PostgreSQL rounds the seconds down. SQLite rounds to milliseconds first, so that the last half
millisecond of a second is read as the next one (`carry`). From 1970 on the number is that of the day, but for the last half
millisecond of a day in SQLite (`Datable`, `dayIndex_eq`).

The service takes whole seconds from a double. That is the second itself if nothing is behind the point
(`totalSeconds_mul`), and rounded down from 1970 to the year 2514 (`totalSeconds_eq`); a fraction before 1970 is rounded up.
-/

namespace LinkShortener

/-- Seconds in a day. -/
def DAY : Int := 86400

/-- A day, in the unit of `Instant`. -/
def dayLength : Int := DAY * Link.second

/-- The day an instant falls in, counted from 1970. -/
def dayOf (t : Instant) : Int := t / dayLength

/-- Midnight at the beginning of a day. -/
def midnight (d : Int) : Instant := d * dayLength

/-- `replace(hour=0, minute=0, second=0, microsecond=0)`. -/
def midnightOf (t : Instant) : Instant := t - t % dayLength

/-- The databases the service runs on. -/
inductive Dialect
  | sqlite
  | postgresql
  deriving DecidableEq, Repr

/-- Whole seconds since 1970, rounded down. -/
def wholeSeconds (t : Instant) : Int := t / Link.second

/-- Whole seconds since 1970, as the database reads them: `strftime('%s', …)` rounds to milliseconds before it rounds down,
`floor(extract(epoch from …))` does not. -/
def epochSeconds : Dialect → Instant → Int
  | .sqlite, t => (t + 500) / 1000 / 1000
  | .postgresql, t => wholeSeconds t

/-- The number of a day, as the database computes it. -/
def dayIndex (dialect : Dialect) (t : Instant) : Int := (epochSeconds dialect t).tdiv DAY

/-- `int(delta.total_seconds())`, and `int(moment.timestamp())` of the time since 1970: the seconds are a double, and what is
behind the point is cut off. -/
def totalSeconds (delta : Int) : Int := delta.sign * Rounding.wholePart |delta| Link.second

/-- `(epoch_seconds(occurred_at) - int(since.timestamp())) // width`. -/
def bucketIndex (dialect : Dialect) (since : Instant) (width : Int) (t : Instant) : Int :=
  (epochSeconds dialect t - totalSeconds since).tdiv width

/-- How far the second that the database reads is from the second of the stamp. -/
def carry (dialect : Dialect) (t : Instant) : Int :=
  if dialect = .sqlite ∧ Link.second - 500 ≤ t % Link.second then 1 else 0

/-- A stamp whose day the database numbers: it is from 1970 or later, and SQLite does not take it for the next midnight. -/
def Datable (dialect : Dialect) (t : Instant) : Prop := 0 ≤ t ∧ (dialect = .sqlite → t % dayLength < dayLength - 500)

instance decidableDatable (dialect : Dialect) (t : Instant) : Decidable (Datable dialect t) :=
  inferInstanceAs (Decidable (_ ∧ _))

theorem second_pos : 0 < Link.second := by decide

theorem epochSeconds_sqlite (t : Instant) : epochSeconds .sqlite t = (t + 500) / Link.second :=
  Int.ediv_ediv_of_nonneg (by decide)

/-- The database reads the second of the stamp, or the one after it. -/
theorem epochSeconds_eq (dialect : Dialect) (t : Instant) : epochSeconds dialect t = wholeSeconds t + carry dialect t := by
  have hcarry : ∀ u : Int, (u + 500) / 1000000 = u / 1000000 + if 1000000 - 500 ≤ u % 1000000 then 1 else 0 := by
    intro u
    split <;> omega
  unfold carry wholeSeconds
  cases dialect with
  | sqlite =>
    rw [epochSeconds_sqlite]
    simp only [true_and]
    exact hcarry t
  | postgresql => exact (Int.add_zero _).symm

theorem carry_cases (dialect : Dialect) (t : Instant) : carry dialect t = 0 ∨ carry dialect t = 1 := by
  unfold carry
  split
  · exact .inr rfl
  · exact .inl rfl

@[simp] theorem totalSeconds_mul (n : Int) : totalSeconds (n * Link.second) = n := by
  unfold totalSeconds
  rw [abs_mul, abs_of_pos second_pos, Rounding.wholePart_mul _ second_pos, Int.sign_mul, Int.sign_eq_one_of_pos second_pos,
    Int.mul_one, Int.sign_mul_abs]

/-- The seconds are rounded down, or one more. -/
theorem totalSeconds_cases (t : Instant) : totalSeconds t = wholeSeconds t ∨ totalSeconds t = wholeSeconds t + 1 := by
  by_cases hwhole : Link.second ∣ t
  · obtain ⟨n, rfl⟩ := hwhole
    left
    rw [Int.mul_comm, totalSeconds_mul, wholeSeconds, Int.mul_ediv_cancel n second_pos.ne']
  · unfold totalSeconds wholeSeconds
    rcases Int.lt_trichotomy t 0 with hneg | rfl | hpos
    · have hcases := Rounding.wholePart_cases (-t) second_pos
      rw [abs_of_neg hneg, Int.sign_eq_neg_one_of_neg hneg]
      unfold Link.second at *
      omega
    · exact absurd (Int.dvd_zero _) hwhole
    · rw [abs_of_pos hpos, Int.sign_eq_one_of_pos hpos, Int.one_mul]
      exact Rounding.wholePart_cases t second_pos

/-- Nineteen digits behind the point tell a microsecond from a whole second: `2 ^ 34` seconds end in the year 2514. -/
theorem totalSeconds_eq {t : Instant} (h : 0 ≤ t) (hlate : t < 2 ^ 34 * Link.second) :
    totalSeconds t = wholeSeconds t := by
  rcases h.eq_or_lt with rfl | hpos
  · decide
  · have hquot : t / Link.second < 2 ^ 34 := (Int.ediv_lt_iff_lt_mul second_pos).mpr hlate
    have hdigits : 19 ≤ Rounding.fractionDigits (t / Link.second) := by
      have hlog : (t / Link.second).toNat.log2 < 34 := by
        by_cases hzero : (t / Link.second).toNat = 0
        · rw [hzero]
          decide
        · rw [Nat.log2_lt hzero, Int.toNat_lt' (by decide)]
          exact hquot
      unfold Rounding.fractionDigits
      omega
    unfold totalSeconds wholeSeconds
    rw [abs_of_pos hpos, Int.sign_eq_one_of_pos hpos, Int.one_mul, Rounding.wholePart_eq second_pos]
    calc Link.second < 2 ^ (19 + 1) := by decide
      _ ≤ 2 ^ (Rounding.fractionDigits (t / Link.second) + 1) := pow_le_pow_right₀ (by decide) (by omega)

theorem dayLength_pos : 0 < dayLength := by decide

theorem datable_postgresql {t : Instant} (h : 0 ≤ t) : Datable .postgresql t := ⟨h, nofun⟩

theorem wholeSeconds_nonneg {t : Instant} (h : 0 ≤ t) : 0 ≤ wholeSeconds t := Int.ediv_nonneg h second_pos.le

theorem epochSeconds_nonneg (dialect : Dialect) {t : Instant} (h : 0 ≤ t) : 0 ≤ epochSeconds dialect t := by
  have hwhole := wholeSeconds_nonneg h
  have hcarry := carry_cases dialect t
  rw [epochSeconds_eq]
  omega

/-- **The number of a day is the day.** -/
theorem dayIndex_eq {dialect : Dialect} {t : Instant} (h : Datable dialect t) : dayIndex dialect t = dayOf t := by
  obtain ⟨hpositive, hlate⟩ := h
  unfold dayIndex dayOf
  rw [Int.tdiv_eq_ediv_of_nonneg (epochSeconds_nonneg dialect hpositive)]
  have hday : ∀ u : Instant, u / Link.second / DAY = u / dayLength := by
    intro u
    rw [Int.ediv_ediv_of_nonneg second_pos.le, dayLength, Int.mul_comm]
  cases dialect with
  | sqlite =>
    have hsame : ∀ u : Int, u % dayLength < dayLength - 500 → (u + 500) / dayLength = u / dayLength := by
      intro u hu
      unfold dayLength DAY Link.second at *
      omega
    rw [epochSeconds_sqlite, hday]
    exact hsame t (hlate rfl)
  | postgresql => exact hday t

theorem dayOf_mono {t t' : Instant} (h : t ≤ t') : dayOf t ≤ dayOf t' := Int.ediv_le_ediv dayLength_pos h

theorem dayOf_nonneg {t : Instant} (h : 0 ≤ t) : 0 ≤ dayOf t := Int.ediv_nonneg h (by decide)

theorem midnightOf_eq (t : Instant) : midnightOf t = midnight (dayOf t) := by
  unfold midnightOf midnight dayOf
  rw [Int.emod_def, Int.sub_sub_self, Int.mul_comm]

theorem lt_midnight_iff {t : Instant} {d : Int} : t < midnight d ↔ dayOf t < d :=
  (Int.ediv_lt_iff_lt_mul dayLength_pos).symm

theorem midnight_le_iff {t : Instant} {d : Int} : midnight d ≤ t ↔ d ≤ dayOf t :=
  (Int.le_ediv_iff_mul_le dayLength_pos).symm

@[simp] theorem dayOf_midnight (d : Int) : dayOf (midnight d) = d := Int.mul_ediv_cancel d (by decide)

theorem midnight_add (a b : Int) : midnight a + b * dayLength = midnight (a + b) := (Int.add_mul a b dayLength).symm

theorem midnight_sub (a b : Int) : midnight a - b * dayLength = midnight (a - b) := (Int.sub_mul a b dayLength).symm

@[simp] theorem midnightOf_midnight (d : Int) : midnightOf (midnight d) = midnight d := by
  rw [midnightOf_eq, dayOf_midnight]

/-- Buckets of a day are days. -/
theorem bucketIndex_eq (dialect : Dialect) {t : Instant} (ht : 0 ≤ t) {a : Int} (ha : midnight a ≤ t) :
    bucketIndex dialect (midnight a) DAY t = dayIndex dialect t - a := by
  have hstart : totalSeconds (midnight a) = a * DAY := by
    have : midnight a = a * DAY * Link.second := (Int.mul_assoc a DAY Link.second).symm
    rw [this, totalSeconds_mul]
  have hseconds : a * DAY ≤ epochSeconds dialect t := by
    have hwhole : a * DAY ≤ wholeSeconds t := by
      unfold wholeSeconds
      rw [Int.le_ediv_iff_mul_le (by decide), Int.mul_assoc]
      exact ha
    have hcarry := carry_cases dialect t
    rw [epochSeconds_eq]
    omega
  have hpositive : 0 ≤ epochSeconds dialect t := epochSeconds_nonneg dialect ht
  unfold bucketIndex dayIndex
  rw [hstart, Int.tdiv_eq_ediv_of_nonneg (by omega), Int.tdiv_eq_ediv_of_nonneg hpositive,
    Int.sub_mul_ediv_right _ _ (by decide)]

end LinkShortener
