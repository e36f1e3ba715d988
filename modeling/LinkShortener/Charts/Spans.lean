import LinkShortener.Domain.Calendar

/-!
# Spans of the charts

The statistics are drawn over spans, and a span in intervals of whole seconds.

* `spanOf`: both ends of a span. All that callers can ask for have intervals of whole seconds (`spanOf_periods`).
* `Span.bucket`: the interval that a moment belongs to.
* `Landing`, `landing`: where the database puts it. It is the interval next to its own when the seconds of the moment and of
  the beginning are not both read alike, and an interval begins between them (`Span.Moves`, `Span.FallsOff`).
* `stays_of_date`: the dates for which no moment is moved.
-/

namespace LinkShortener.Charts

open Rounding

/-- What a caller may ask for: how long the span is, and in how many intervals it is drawn. -/
def PERIODS : List (String × Int × Int) :=
  [("24h", 24 * 3600 * Link.second, 24), ("7d", 7 * dayLength, 7 * 4), ("30d", 30 * dayLength, 30),
    ("90d", 90 * dayLength, 90)]

/-- Both ends of a span. One that is drawn in days is moved onto the days, and ends with today. -/
def spanOf (now : Instant) (span buckets : Int) : Instant × Instant :=
  if buckets < 1 ∨ nearestEven span buckets ≠ dayLength then (now - span, now)
  else
    let tomorrow := midnightOf now + dayLength
    (tomorrow - buckets * dayLength, tomorrow)

/-- A span of equal intervals of whole seconds. -/
structure Span where
  since : Instant
  buckets : Nat
  width : Int
  buckets_pos : 0 < buckets
  width_pos : 0 < width

namespace Span

variable (sp : Span)

def until_ : Instant := sp.since + sp.buckets * sp.width * Link.second

def covers (t : Instant) : Bool := decide (sp.since ≤ t) && decide (t < sp.until_)

/-- Both seconds are rounded down. -/
def index (t : Instant) : Int := (wholeSeconds t - wholeSeconds sp.since) / sp.width

/-- A moment in the last fraction of a second belongs to the last interval. -/
def bucket (t : Instant) : Int := if sp.index t = sp.buckets then sp.buckets - 1 else sp.index t

/-- How far the second that the service counts from is from the second the span begins in. -/
def late : Int := totalSeconds sp.since - wholeSeconds sp.since

/-- The second that the database reads of a moment, from the second the span begins in. -/
def readAt (dialect : Dialect) (t : Instant) : Int := wholeSeconds t - wholeSeconds sp.since + carry dialect t

/-- The second of a moment and that of the beginning are not both read as they are, or both as the next one, and an interval
of the span begins with the second that is read of the moment. -/
def Moves (dialect : Dialect) (t : Instant) : Prop :=
  carry dialect t ≠ sp.late ∧ sp.width ∣ sp.readAt dialect t ∧ 0 < sp.readAt dialect t ∧
    sp.readAt dialect t < sp.buckets * sp.width

/-- The same at an edge of a span that is drawn by the second. -/
def FallsOff (dialect : Dialect) (t : Instant) : Prop :=
  carry dialect t ≠ sp.late ∧ sp.width = 1 ∧ (sp.readAt dialect t = 0 ∨ sp.readAt dialect t = sp.buckets + 1)

instance decidableMoves (dialect : Dialect) (t : Instant) : Decidable (sp.Moves dialect t) :=
  inferInstanceAs (Decidable (_ ∧ _))

instance decidableFallsOff (dialect : Dialect) (t : Instant) : Decidable (sp.FallsOff dialect t) :=
  inferInstanceAs (Decidable (_ ∧ _))

end Span

/-- A span that ends at a moment. -/
theorem exists_span (e : Instant) (buckets : Nat) (width : Int) {length : Int} (hbuckets : 0 < buckets)
    (hwidth : 0 < width) (h : buckets * width * Link.second = length) :
    ∃ sp : Span, (sp.buckets : Int) = buckets ∧ (e - length, e) = (sp.since, sp.until_) := by
  refine ⟨⟨e - length, buckets, width, hbuckets, hwidth⟩, rfl, ?_⟩
  unfold Span.until_
  rw [h, sub_add_cancel]

/-- Whatever the page asks for is a span of equal intervals. -/
theorem spanOf_periods (now : Instant) {name : String} {span buckets : Int} (h : (name, span, buckets) ∈ PERIODS) :
    ∃ sp : Span, (sp.buckets : Int) = buckets ∧ spanOf now span buckets = (sp.since, sp.until_) := by
  unfold PERIODS at h
  simp only [List.mem_cons, Prod.mk.injEq, List.not_mem_nil, or_false] at h
  rcases h with ⟨-, rfl, rfl⟩ | ⟨-, rfl, rfl⟩ | ⟨-, rfl, rfl⟩ | ⟨-, rfl, rfl⟩
  · rw [spanOf, if_pos (by decide)]
    exact exists_span now 24 3600 (by decide) (by decide) (by decide)
  · rw [spanOf, if_pos (by decide)]
    exact exists_span now 28 21600 (by decide) (by decide) (by decide)
  · rw [spanOf, if_neg (by decide)]
    exact exists_span _ 30 DAY (by decide) (by decide) (by decide)
  · rw [spanOf, if_neg (by decide)]
    exact exists_span _ 90 DAY (by decide) (by decide) (by decide)

section Landing

variable {sp : Span} {t : Instant}

theorem covers_iff : sp.covers t = true ↔ sp.since ≤ t ∧ t < sp.until_ := by
  unfold Span.covers
  rw [Bool.and_eq_true, decide_eq_true_eq, decide_eq_true_eq]

theorem totalSeconds_span (sp : Span) : totalSeconds (sp.until_ - sp.since) = sp.buckets * sp.width := by
  unfold Span.until_
  rw [add_sub_cancel_left, totalSeconds_mul]

/-- The seconds of a moment in the span. -/
theorem elapsed (h : sp.covers t = true) : 0 ≤ wholeSeconds t - wholeSeconds sp.since ∧
    wholeSeconds t - wholeSeconds sp.since ≤ sp.buckets * sp.width := by
  obtain ⟨hlow, hhigh⟩ := covers_iff.mp h
  have hfrom : wholeSeconds sp.since ≤ wholeSeconds t := Int.ediv_le_ediv second_pos hlow
  have hto : wholeSeconds t ≤ wholeSeconds sp.since + sp.buckets * sp.width := by
    unfold wholeSeconds
    rw [← Int.add_mul_ediv_right _ _ second_pos.ne']
    exact Int.ediv_le_ediv second_pos hhigh.le
  omega

theorem index_bounds (h : sp.covers t = true) : 0 ≤ sp.index t ∧ sp.index t ≤ sp.buckets := by
  obtain ⟨hlow, hhigh⟩ := elapsed h
  have hwidth := sp.width_pos
  unfold Span.index
  refine ⟨Int.ediv_nonneg hlow hwidth.le, ?_⟩
  exact Int.ediv_le_of_le_mul hwidth hhigh

theorem bucket_bounds (h : sp.covers t = true) : 0 ≤ sp.bucket t ∧ sp.bucket t < sp.buckets := by
  obtain ⟨hlow, hhigh⟩ := index_bounds h
  have hpos := sp.buckets_pos
  unfold Span.bucket
  split <;> omega

theorem late_cases (sp : Span) : sp.late = 0 ∨ sp.late = 1 := by
  unfold Span.late
  rcases totalSeconds_cases sp.since with h | h
  · exact .inl (by omega)
  · exact .inr (by omega)

/-- The second that is read, counted from the second that the service counts from. -/
theorem bucketIndex_span (sp : Span) (dialect : Dialect) (t : Instant) :
    bucketIndex dialect sp.since sp.width t = (sp.readAt dialect t - sp.late).tdiv sp.width := by
  unfold bucketIndex Span.readAt Span.late
  rw [epochSeconds_eq]
  congr 1
  omega

/-- **Where the database puts a moment.** -/
inductive Landing (dialect : Dialect) (sp : Span) (t : Instant) (position : Int) : Prop
  /-- Into its interval. -/
  | stays (h : position = sp.index t) (hstays : ¬ sp.Moves dialect t) (hin : ¬ sp.FallsOff dialect t)
  /-- Into the next one; from the last but one, it is one past the end. -/
  | ahead (h : position = sp.index t + 1) (hearly : sp.late = 0) (hmoves : sp.Moves dialect t ↔ sp.index t + 1 < sp.buckets)
    (hfalls : sp.FallsOff dialect t ↔ sp.index t = sp.buckets)
  /-- Into the one before. -/
  | behind (h : position = sp.index t - 1) (hlate : sp.late = 1) (hpos : 0 < sp.index t)
    (hmoves : sp.Moves dialect t ↔ sp.index t < sp.buckets) (hin : ¬ sp.FallsOff dialect t)
  /-- Before the first one. -/
  | before (h : position = -1) (hlate : sp.late = 1) (hfirst : sp.index t = 0) (hstays : ¬ sp.Moves dialect t)
    (hfalls : sp.FallsOff dialect t)

/-- A second later, and the end of an interval is the beginning of the next. -/
theorem ediv_succ_of_dvd {x w : Int} (hw : 0 < w) (h : w ∣ x + 1) : (x + 1) / w = x / w + 1 ∧ x + 1 = (x / w + 1) * w := by
  obtain ⟨k, hk⟩ := h
  have hx : x = (w - 1) + w * (k - 1) := by
    rw [Int.mul_sub, ← hk]
    omega
  have hquot : x / w = k - 1 := by
    rw [hx, Int.add_mul_ediv_left _ _ hw.ne', Int.ediv_eq_zero_of_lt (by omega) (by omega), Int.zero_add]
  rw [hquot, hk, Int.mul_ediv_cancel_left _ hw.ne']
  exact ⟨by omega, by rw [Int.sub_add_cancel, Int.mul_comm]⟩

theorem ediv_succ_of_not_dvd {x w : Int} (hw : 0 < w) (h : ¬ w ∣ x + 1) : (x + 1) / w = x / w := by
  have hlow := Int.emod_nonneg x hw.ne'
  have hhigh := Int.emod_lt_of_pos x hw
  have hsplit := Int.mul_ediv_add_emod x w
  have hlast : x % w + 1 ≠ w := by
    intro hlast
    exact h ⟨x / w + 1, by rw [Int.mul_add, Int.mul_one]; omega⟩
  have hsum : x + 1 = (x % w + 1) + w * (x / w) := by omega
  rw [hsum, Int.add_mul_ediv_left _ _ hw.ne', Int.ediv_eq_zero_of_lt (by omega) (by omega), Int.zero_add]

/-- A second that begins an interval is moved into it if the interval is one of the span. -/
theorem moves_iff {dialect : Dialect} {k : Int} (hdiffer : carry dialect t ≠ sp.late) (hpos : 0 < sp.readAt dialect t)
    (hbegin : sp.readAt dialect t = k * sp.width) : sp.Moves dialect t ↔ k < sp.buckets := by
  have hwidth := sp.width_pos
  unfold Span.Moves
  rw [hbegin] at hpos ⊢
  constructor
  · rintro ⟨-, -, -, hlt⟩
    exact Int.lt_of_mul_lt_mul_right hlt hwidth.le
  · intro hlt
    exact ⟨hdiffer, Int.dvd_mul_left _ _, hpos, Int.mul_lt_mul_of_pos_right hlt hwidth⟩

/-- A second that begins no interval is not moved. -/
theorem stays_of_not_dvd {dialect : Dialect} (h : ¬ sp.width ∣ sp.readAt dialect t) :
    ¬ sp.Moves dialect t ∧ ¬ sp.FallsOff dialect t := by
  constructor
  · rintro ⟨-, hdvd, -⟩
    exact h hdvd
  · rintro ⟨-, hone, -⟩
    exact h (by rw [hone]; exact Int.one_dvd _)

/-- The moment is read as the next second, and the beginning of the span is not. -/
theorem landing_ahead {dialect : Dialect} (h : sp.covers t = true) (hcarry : carry dialect t = 1) (hearly : sp.late = 0) :
    Landing dialect sp t (bucketIndex dialect sp.since sp.width t) := by
  obtain ⟨hlow, hhigh⟩ := elapsed h
  obtain ⟨hfirst, hlast⟩ := index_bounds h
  have hwidth := sp.width_pos
  have hbuckets := sp.buckets_pos
  have hread : sp.readAt dialect t = wholeSeconds t - wholeSeconds sp.since + carry dialect t := rfl
  have hindex : sp.index t = (wholeSeconds t - wholeSeconds sp.since) / sp.width := rfl
  have hdiffer : carry dialect t ≠ sp.late := by omega
  rw [hcarry] at hread
  rw [bucketIndex_span, hearly, Int.sub_zero, hread]
  generalize wholeSeconds t - wholeSeconds sp.since = e at *
  rw [Int.tdiv_eq_ediv_of_nonneg (by omega)]
  by_cases hdvd : sp.width ∣ e + 1
  · obtain ⟨hquot, hbegin⟩ := ediv_succ_of_dvd hwidth hdvd
    rw [← hindex] at hquot hbegin
    refine .ahead hquot hearly (moves_iff hdiffer (by omega) (hread.trans hbegin)) ?_
    unfold Span.FallsOff
    rw [hread]
    constructor
    · rintro ⟨-, hone, hedge⟩
      rw [hone, Int.mul_one] at hbegin
      omega
    · intro hend
      -- The span ends with a second, and the interval after it begins with the next one.
      rw [hend, Int.add_mul, Int.one_mul] at hbegin
      have hone : sp.width = 1 := by omega
      rw [hone, Int.mul_one] at hbegin
      exact ⟨hdiffer, hone, .inr hbegin⟩
  · rw [ediv_succ_of_not_dvd hwidth hdvd]
    obtain ⟨hstays, hin⟩ := stays_of_not_dvd (hread.symm ▸ hdvd)
    exact .stays hindex.symm hstays hin

/-- The beginning of the span is read as the next second, and the moment is not. -/
theorem landing_behind {dialect : Dialect} (h : sp.covers t = true) (hcarry : carry dialect t = 0) (hlate : sp.late = 1) :
    Landing dialect sp t (bucketIndex dialect sp.since sp.width t) := by
  obtain ⟨hlow, hhigh⟩ := elapsed h
  obtain ⟨hfirst, hlast⟩ := index_bounds h
  have hwidth := sp.width_pos
  have hread : sp.readAt dialect t = wholeSeconds t - wholeSeconds sp.since + carry dialect t := rfl
  have hindex : sp.index t = (wholeSeconds t - wholeSeconds sp.since) / sp.width := rfl
  have hdiffer : carry dialect t ≠ sp.late := by omega
  rw [hcarry, Int.add_zero] at hread
  rw [bucketIndex_span, hlate, hread]
  generalize wholeSeconds t - wholeSeconds sp.since = e at *
  rcases hlow.eq_or_lt with rfl | hpos
  · have hzero : sp.index t = 0 := by rw [hindex, Int.zero_ediv]
    have hstays : ¬ sp.Moves dialect t := by
      rintro ⟨-, -, hlt, -⟩
      omega
    by_cases hone : sp.width = 1
    · refine .before ?_ hlate hzero hstays ⟨hdiffer, hone, .inl hread⟩
      rw [hone]
      decide
    · refine .stays ?_ hstays fun hfalls => hone hfalls.2.1
      rw [hzero, Int.zero_sub, Int.neg_tdiv, Int.tdiv_eq_zero_of_lt (by decide) (by omega), Int.neg_zero]
  · have hshift : e - 1 + 1 = e := Int.sub_add_cancel e 1
    rw [Int.tdiv_eq_ediv_of_nonneg (by omega)]
    by_cases hdvd : sp.width ∣ e
    · obtain ⟨hquot, hbegin⟩ := ediv_succ_of_dvd hwidth (hshift.symm ▸ hdvd)
      rw [hshift, ← hindex] at hquot
      rw [hshift, ← hquot] at hbegin
      have hinside : 0 < sp.index t := by
        rcases hfirst.eq_or_lt with hno | hinside
        · rw [← hno, Int.zero_mul] at hbegin
          omega
        · exact hinside
      refine .behind (by omega) hlate hinside (moves_iff hdiffer (hread.symm ▸ hpos) (hread.trans hbegin)) ?_
      rintro ⟨-, hone, hedge⟩
      rw [hone, Int.mul_one] at hhigh
      omega
    · have hquot := ediv_succ_of_not_dvd hwidth (hshift.symm ▸ hdvd)
      rw [hshift, ← hindex] at hquot
      obtain ⟨hstays, hin⟩ := stays_of_not_dvd (hread.symm ▸ hdvd)
      exact .stays hquot.symm hstays hin

/-- The moments of a span are read in the second they are in, or in the next one. -/
theorem landing (dialect : Dialect) (h : sp.covers t = true) :
    Landing dialect sp t (bucketIndex dialect sp.since sp.width t) := by
  by_cases hsame : carry dialect t = sp.late
  · refine .stays ?_ (fun hmoves => hmoves.1 hsame) (fun hfalls => hfalls.1 hsame)
    have hshift : sp.readAt dialect t - sp.late = wholeSeconds t - wholeSeconds sp.since := by
      unfold Span.readAt
      omega
    rw [bucketIndex_span, hshift, Int.tdiv_eq_ediv_of_nonneg (elapsed h).1]
    rfl
  · rcases late_cases sp with hearly | hlate
    · exact landing_ahead h ((carry_cases dialect t).resolve_left fun hno => hsame (hno.trans hearly.symm)) hearly
    · exact landing_behind h ((carry_cases dialect t).resolve_right fun hyes => hsame (hyes.trans hlate.symm)) hlate

end Landing

/-- From 1970 to the year 2514, or where the span begins with a second, the service counts from the second it begins in. -/
theorem late_of_date (sp : Span)
    (h : Link.second ∣ sp.since ∨ (0 ≤ sp.since ∧ sp.since < 2 ^ 34 * Link.second)) : sp.late = 0 := by
  have hstart : totalSeconds sp.since = wholeSeconds sp.since := by
    rcases h with ⟨n, hn⟩ | ⟨hpast, hlate⟩
    · rw [hn, Int.mul_comm, totalSeconds_mul, wholeSeconds, Int.mul_ediv_cancel n second_pos.ne']
    · exact totalSeconds_eq hpast hlate
  unfold Span.late
  rw [hstart, Int.sub_self]

theorem carry_eq_zero {dialect : Dialect} {t : Instant}
    (h : dialect = .sqlite → t % Link.second < Link.second - 500) : carry dialect t = 0 := by
  unfold carry
  rw [if_neg]
  rintro ⟨hsqlite, hlate⟩
  exact absurd (h hsqlite) (Int.not_lt.mpr hlate)

/-- **No moment is moved** in such a span, but in the last half millisecond of a second, in SQLite. -/
theorem stays_of_date (sp : Span)
    (h : Link.second ∣ sp.since ∨ (0 ≤ sp.since ∧ sp.since < 2 ^ 34 * Link.second)) {dialect : Dialect} {t : Instant}
    (ht : dialect = .sqlite → t % Link.second < Link.second - 500) :
    ¬ sp.Moves dialect t ∧ ¬ sp.FallsOff dialect t := by
  have hsame : carry dialect t = sp.late := (carry_eq_zero ht).trans (late_of_date sp h).symm
  exact ⟨fun hmoves => hmoves.1 hsame, fun hfalls => hfalls.1 hsame⟩

end LinkShortener.Charts
