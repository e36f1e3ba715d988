import Mathlib.Algebra.Order.BigOperators.Group.List
import LinkShortener.Charts.Spans
import LinkShortener.Security.Charts
import LinkShortener.Visits.Charts

/-!
# The charts lose nothing

Both charts count the seconds from the second a span begins in. One folds whatever falls off an edge into the interval at
the edge, the other what is one past the end and nothing else.

* `summary_buckets`, `bucketsBetween_rows`, `seriesIn_eq`: what either chart shows, in terms of where the database puts a
  moment.
* `clampedIndex_eq_iff`, `slot_eq_iff`: when that is its interval.
* `buckets_conserve_events`: every moment of a span is counted, once and in its interval, if and only if none is moved.
-/

namespace LinkShortener.Charts

open Folding

/-! ## What is to be counted -/

section Counting

variable {dialect : Dialect} (sp : Span)

/-- The visits of a span to the links in question. -/
def visitsIn (t : Visits.Tables dialect) (links : List Link) (scope : Visits.Scope) : List Visits.LinkVisit :=
  t.raw.filter fun v => sp.covers v.occurredAt && scope.admits links v.linkId

/-- The events of a span of one type. -/
def eventsIn (t : Security.Tables dialect) (eventType : String) : List Security.SecurityEvent :=
  t.raw.filter fun e => sp.covers e.occurredAt && decide (e.eventType = eventType)

/-- The visits of a span, all of them and those of each interval, with those by robots. -/
structure VisitsConserved (t : Visits.Tables dialect) (links : List Link) (scope : Visits.Scope)
    (chart : Visits.VisitSummary) : Prop where
  buckets : chart.buckets.map (fun b => (b.total, b.bots)) = (List.range sp.buckets).map fun i : Nat =>
    Visits.counts ((visitsIn sp t links scope).filter fun v => decide (sp.bucket v.occurredAt = i))
  sums : ((chart.buckets.map (·.total)).sum, (chart.buckets.map (·.bots)).sum) = Visits.counts (visitsIn sp t links scope)
  totals : (chart.total, chart.bots) = Visits.counts (visitsIn sp t links scope)

/-- The events of a span: a series for each type that occurred, with all its events and those of each interval. -/
structure EventsConserved (t : Security.Tables dialect) (chart : List (String × List Nat)) : Prop where
  types : (chart.map Prod.fst).Nodup
  buckets : ∀ eventType row, (eventType, row) ∈ chart ↔ eventsIn sp t eventType ≠ [] ∧
    row = (List.range sp.buckets).map fun i : Nat =>
      ((eventsIn sp t eventType).filter fun e => decide (sp.bucket e.occurredAt = i)).length
  sums : ∀ eventType row, (eventType, row) ∈ chart → row.sum = (eventsIn sp t eventType).length

/-- No folded day is in the span. -/
def Unfolded (t : Security.Tables dialect) : Prop := ∀ r ∈ t.days.rows, sp.covers r.day = false

end Counting

/-! ## Counting by slots -/

section Slots

variable {α : Type} {es : List α} {f g : α → Int}

/-- What adds up to the same, and is nowhere more, is the same. -/
theorem eq_of_sum_eq (hle : ∀ e ∈ es, f e ≤ g e) (hsum : (es.map f).sum = (es.map g).sum) : ∀ e ∈ es, f e = g e := by
  induction es with
  | nil => nofun
  | cons e es ih =>
    have hrest := List.sum_le_sum fun x hx => hle x (List.mem_cons_of_mem e hx)
    have hhead := hle e List.mem_cons_self
    rw [List.map_cons, List.map_cons, List.sum_cons, List.sum_cons] at hsum
    intro x hx
    rcases List.mem_cons.mp hx with rfl | hx
    · omega
    · exact ih (fun y hy => hle y (List.mem_cons_of_mem e hy)) (by omega) x hx

/-- **Slots that hold as many hold the same**, if nothing is moved down, or nothing is moved up. -/
theorem eq_of_same_counts {n : Nat} (hg : ∀ e ∈ es, 0 ≤ g e ∧ g e < n)
    (hcounts : ∀ i : Nat, i < n →
      (es.filter fun e => decide (f e = i)).length = (es.filter fun e => decide (g e = i)).length)
    (hle : (∀ e ∈ es, f e ≤ g e) ∨ ∀ e ∈ es, g e ≤ f e) : ∀ e ∈ es, f e = g e := by
  have hcount : ∀ (h : α → Int) (p : Int), (es.map h).count p = (es.filter fun e => decide (h e = p)).length := by
    intro h p
    rw [List.count_eq_countP, List.countP_map, List.countP_eq_length_filter]
    rfl
  have hperm : ((es.map f).filter fun p : Int => decide (0 ≤ p ∧ p < n)).Perm (es.map g) := by
    rw [List.perm_iff_count]
    intro p
    by_cases hp : 0 ≤ p ∧ p < n
    · obtain ⟨i, rfl⟩ := Int.eq_ofNat_of_zero_le hp.1
      rw [List.count_filter (p := fun p : Int => decide (0 ≤ p ∧ p < n)) (decide_eq_true hp), hcount, hcount]
      exact hcounts i (by omega)
    · rw [List.count_eq_zero_of_not_mem, List.count_eq_zero_of_not_mem]
      · intro hmem
        obtain ⟨e, he, rfl⟩ := List.mem_map.mp hmem
        exact hp (hg e he)
      · intro hmem
        exact hp (of_decide_eq_true (List.mem_filter.mp hmem).2)
  -- So many are in a slot that none is outside.
  have hall : (es.map f).filter (fun p : Int => decide (0 ≤ p ∧ p < n)) = es.map f := by
    rw [List.filter_eq_self, ← List.length_filter_eq_length_iff, hperm.length_eq, List.length_map, List.length_map]
  rw [hall] at hperm
  rcases hle with hle | hle
  · exact eq_of_sum_eq hle hperm.sum_eq
  · intro e he
    exact (eq_of_sum_eq hle hperm.sum_eq.symm e he).symm

end Slots

/-! ## Visits -/

section Visits

variable {dialect : Dialect} {sp : Span} {t : Visits.Tables dialect} {links : List Link} {scope : Visits.Scope}

/-- The interval a visit is counted in. -/
def clampedIndex (dialect : Dialect) (sp : Span) (t : Instant) : Int :=
  min (max (bucketIndex dialect sp.since sp.width t) 0) ((sp.buckets : Int) - 1)

theorem sum_pairs (xs : List (Nat × Nat)) : ((xs.map Prod.fst).sum, (xs.map Prod.snd).sum) = xs.sum :=
  Prod.ext (map_list_sum (AddMonoidHom.fst Nat Nat) xs).symm (map_list_sum (AddMonoidHom.snd Nat Nat) xs).symm

/-- **What the chart of the visits shows.** -/
theorem summary_buckets (sp : Span) (t : Visits.Tables dialect) (links : List Link) (scope : Visits.Scope) :
    (Visits.summary t links sp.since sp.until_ sp.buckets scope).buckets.map (fun b => (b.total, b.bots)) =
      (List.range sp.buckets).map fun i : Nat =>
        Visits.counts ((visitsIn sp t links scope).filter fun v => decide (clampedIndex dialect sp v.occurredAt = i)) := by
  have hbuckets := sp.buckets_pos
  have hwidth := sp.width_pos
  have hcount : (max 1 (sp.buckets : Int)).toNat = sp.buckets := by omega
  have hspan : max 1 ((sp.buckets : Int) * sp.width) = sp.width * sp.buckets := by
    have hlong : 0 < (sp.buckets : Int) * sp.width := Int.mul_pos (by omega) hwidth
    rw [max_eq_right (by omega), Int.mul_comm]
  unfold Visits.summary
  dsimp only
  rw [hcount, totalSeconds_span, hspan, Int.mul_ediv_cancel _ (by omega), max_eq_right (by omega), List.map_map]
  apply List.map_congr_left
  intro i _
  show Visits.clamped _ _ _ = _
  unfold Visits.bucketCounts
  rw [Visits.clamped_eq]
  rfl

theorem covered_of_mem {v : Visits.LinkVisit} (hv : v ∈ visitsIn sp t links scope) : sp.covers v.occurredAt = true := by
  have hv := (List.mem_filter.mp hv).2
  rw [Bool.and_eq_true] at hv
  exact hv.1

/-- A visit is counted in its interval, unless it is moved. -/
theorem clampedIndex_eq_iff {t : Instant} (h : sp.covers t = true) :
    clampedIndex dialect sp t = sp.bucket t ↔ ¬ sp.Moves dialect t := by
  obtain ⟨hfirst, hlast⟩ := index_bounds h
  have hbuckets := sp.buckets_pos
  unfold clampedIndex Span.bucket
  cases landing dialect h with
  | stays hposition hstays hin =>
    rw [hposition]
    refine iff_of_true ?_ hstays
    split <;> omega
  | ahead hposition hearly hmoves hfalls =>
    rw [hposition, hmoves]
    split <;> omega
  | behind hposition hlate hpos hmoves hin =>
    rw [hposition, hmoves]
    split <;> omega
  | before hposition hlate hzero hstays hfalls =>
    rw [hposition]
    refine iff_of_true ?_ hstays
    split <;> omega

/-- All that are moved are moved the same way. -/
theorem clampedIndex_order (dialect : Dialect) (sp : Span) :
    (∀ t, sp.covers t = true → clampedIndex dialect sp t ≤ sp.bucket t) ∨
      ∀ t, sp.covers t = true → sp.bucket t ≤ clampedIndex dialect sp t := by
  have hbuckets := sp.buckets_pos
  rcases late_cases sp with hearly | hlate
  · right
    intro t h
    obtain ⟨hfirst, hlast⟩ := index_bounds h
    unfold clampedIndex Span.bucket
    cases landing dialect h <;> split <;> omega
  · left
    intro t h
    obtain ⟨hfirst, hlast⟩ := index_bounds h
    unfold clampedIndex Span.bucket
    cases landing dialect h <;> split <;> omega

theorem visits_conserved (h : ∀ v ∈ visitsIn sp t links scope, ¬ sp.Moves dialect v.occurredAt) :
    VisitsConserved sp t links scope (Visits.summary t links sp.since sp.until_ sp.buckets scope) := by
  have hbuckets : (Visits.summary t links sp.since sp.until_ sp.buckets scope).buckets.map (fun b => (b.total, b.bots)) =
      (List.range sp.buckets).map fun i : Nat =>
        Visits.counts ((visitsIn sp t links scope).filter fun v => decide (sp.bucket v.occurredAt = i)) := by
    rw [summary_buckets]
    apply List.map_congr_left
    intro i _
    congr 1
    apply List.filter_congr
    intro v hv
    rw [(clampedIndex_eq_iff (covered_of_mem hv)).mpr (h v hv)]
  have hsums := sum_pairs
    ((Visits.summary t links sp.since sp.until_ sp.buckets scope).buckets.map fun b => (b.total, b.bots))
  rw [List.map_map, List.map_map, hbuckets] at hsums
  have htally := tally_slots (Visits.layout dialect) (visitsIn sp t links scope) (fun v => sp.bucket v.occurredAt)
    sp.buckets fun v hv => bucket_bounds (covered_of_mem hv)
  exact ⟨hbuckets, hsums.trans htally, hsums.trans htally⟩

/-- Intervals that show as many visits as they have show their own. -/
theorem visits_stay (h : VisitsConserved sp t links scope (Visits.summary t links sp.since sp.until_ sp.buckets scope)) :
    ∀ v ∈ visitsIn sp t links scope, ¬ sp.Moves dialect v.occurredAt := by
  have hshown := h.buckets
  rw [summary_buckets, List.map_inj_left] at hshown
  have hsame : ∀ v ∈ visitsIn sp t links scope, clampedIndex dialect sp v.occurredAt = sp.bucket v.occurredAt :=
    eq_of_same_counts (fun v hv => bucket_bounds (covered_of_mem hv))
      (fun i hi => congrArg Prod.fst (hshown i (List.mem_range.mpr hi)))
      ((clampedIndex_order dialect sp).imp (fun hle v hv => hle _ (covered_of_mem hv)) fun hle v hv =>
        hle _ (covered_of_mem hv))
  intro v hv
  exact (clampedIndex_eq_iff (covered_of_mem hv)).mp (hsame v hv)

end Visits

/-! ## Security events -/

section Events

variable {dialect : Dialect} {sp : Span} {t : Security.Tables dialect}

/-- The groups of the events of a span. -/
abbrev groups (sp : Span) (t : Security.Tables dialect) : List ((String × Int) × Nat) :=
  Security.bucketCounts t sp.since sp.until_ sp.width

/-- The series of a type. -/
def seriesIn (sp : Span) (t : Security.Tables dialect) (eventType : String) : List Nat :=
  ((groups sp t).filter fun x => decide (x.1.1 = eventType)).foldl
    (fun row x => Security.addAt sp.buckets x.1.2 x.2 row) (List.replicate sp.buckets 0)

theorem layTheFoldedDaysOver_unfolded (h : Unfolded sp t) (counted : Security.Counted) :
    Security.layTheFoldedDaysOver t counted sp.since sp.width sp.buckets = counted := by
  have hnone : Security.dayTotalsBetween t sp.since (sp.since + sp.width * sp.buckets * Link.second) = [] := by
    unfold Security.dayTotalsBetween
    rw [List.filter_eq_nil_iff.mpr]
    · rfl
    · intro r hr hin
      have hout := h r hr
      unfold Span.covers Span.until_ at hout
      rw [Int.mul_comm (sp.buckets : Int), hin] at hout
      cases hout
  unfold Security.layTheFoldedDaysOver
  split
  · rfl
  · rw [hnone]
    rfl

theorem bucketsBetween_perm_rows (h : Unfolded sp t) : (Security.bucketsBetween t sp.since sp.until_ sp.buckets).Perm
    ((groups sp t).foldl (fun counted x =>
      Security.rewriteSeries counted sp.buckets x.1.1 (Security.addAt sp.buckets x.1.2 x.2)) Rows.empty).rows := by
  have hbuckets := sp.buckets_pos
  have hwidth := sp.width_pos
  unfold Security.bucketsBetween
  rw [if_neg (by omega)]
  dsimp only
  rw [totalSeconds_span, Int.mul_ediv_cancel_left _ (by omega), max_eq_right (by omega), Int.toNat_natCast,
    layTheFoldedDaysOver_unfolded h]
  exact List.perm_insertionSort _ _

/-- **What the chart of the events shows.** -/
theorem bucketsBetween_rows (h : Unfolded sp t) (eventType : String) (row : List Nat) :
    (eventType, row) ∈ Security.bucketsBetween t sp.since sp.until_ sp.buckets ↔
      eventsIn sp t eventType ≠ [] ∧ row = seriesIn sp t eventType := by
  rw [(bucketsBetween_perm_rows h).mem_iff, Security.mem_rows_iff (n := sp.buckets), Security.isSome_foldl,
    Security.seriesOf_foldl]
  apply and_congr_left'
  constructor
  · rintro (⟨x, hx, htype⟩ | hnone)
    · obtain ⟨y, hy, rfl⟩ := List.mem_map.mp hx
      obtain ⟨e, he, rfl⟩ := List.mem_map.mp (List.mem_dedup.mp hy)
      obtain ⟨he, hcovers⟩ := List.mem_filter.mp he
      refine List.ne_nil_of_mem (List.mem_filter.mpr ⟨he, ?_⟩)
      rw [Bool.and_eq_true]
      exact ⟨hcovers, decide_eq_true htype⟩
    · cases hnone
  · intro hne
    obtain ⟨e, he⟩ := List.exists_mem_of_ne_nil _ hne
    obtain ⟨he, hin⟩ := List.mem_filter.mp he
    rw [Bool.and_eq_true] at hin
    left
    refine ⟨_, List.mem_map_of_mem (List.mem_dedup.mpr (List.mem_map_of_mem (List.mem_filter.mpr ⟨he, hin.1⟩))), ?_⟩
    exact of_decide_eq_true hin.2

/-- Where a position of the database is counted. -/
def slotOf (sp : Span) (position : Int) : Int := if position = sp.buckets then (sp.buckets : Int) - 1 else position

/-- What is in no slot is not counted. -/
theorem addAt_slotOf (position : Int) (total : Nat) (row : List Nat) : Security.addAt sp.buckets position total row =
    if 0 ≤ slotOf sp position ∧ slotOf sp position < sp.buckets then
      Security.addAt sp.buckets (slotOf sp position) total row
    else row := by
  have hbuckets := sp.buckets_pos
  unfold Security.addAt slotOf
  by_cases hend : position = sp.buckets
  · have hlast : ((sp.buckets : Int) - 1).toNat = sp.buckets - 1 := by omega
    have hin : 0 ≤ (sp.buckets : Int) - 1 ∧ (sp.buckets : Int) - 1 < sp.buckets := by omega
    rw [if_neg (by omega), if_pos hend, if_pos hend, if_pos hin, if_pos hin, hlast]
  · rw [if_neg hend, if_neg hend]
    by_cases hin : 0 ≤ position ∧ position < sp.buckets
    · rw [if_pos hin, if_pos hin, if_pos hin]
    · rw [if_neg hin, if_neg hin]

theorem sum_groups (eventType : String) (i : Nat) :
    ((((groups sp t).filter fun x => decide (x.1.1 = eventType)).filter fun x =>
      decide (slotOf sp x.1.2 = i)).map Prod.snd).sum =
      ((eventsIn sp t eventType).filter fun e =>
        decide (slotOf sp (bucketIndex dialect sp.since sp.width e.occurredAt) = i)).length := by
  unfold groups Security.bucketCounts
  dsimp only
  rw [List.filter_filter, List.filter_map, List.map_map]
  refine (tally_groups (Security.layout dialect) _ _ _).trans ?_
  show List.length _ = _
  unfold eventsIn
  rw [List.filter_filter, List.filter_filter]
  congr 1
  apply List.filter_congr
  intro e _
  show (decide (slotOf sp (bucketIndex dialect sp.since sp.width e.occurredAt) = i) && decide (e.eventType = eventType) &&
    sp.covers e.occurredAt) = (decide (slotOf sp (bucketIndex dialect sp.since sp.width e.occurredAt) = i) &&
      (sp.covers e.occurredAt && decide (e.eventType = eventType)))
  rw [Bool.and_assoc, Bool.and_comm (decide (e.eventType = eventType))]

def isCounted (sp : Span) (x : (String × Int) × Nat) : Bool :=
  decide (0 ≤ slotOf sp x.1.2 ∧ slotOf sp x.1.2 < sp.buckets)

/-- **What the series of a type shows.** -/
theorem seriesIn_eq (sp : Span) (t : Security.Tables dialect) (eventType : String) :
    seriesIn sp t eventType = (List.range sp.buckets).map fun i : Nat =>
      ((eventsIn sp t eventType).filter fun e =>
        decide (slotOf sp (bucketIndex dialect sp.since sp.width e.occurredAt) = i)).length := by
  have hslots : seriesIn sp t eventType =
      (((groups sp t).filter fun x => decide (x.1.1 = eventType)).filter (isCounted sp)).foldl
        (fun row x => Security.addAt sp.buckets (slotOf sp x.1.2) x.2 row) (List.replicate sp.buckets 0) := by
    unfold seriesIn
    rw [List.foldl_filter (p := isCounted sp)]
    apply List.foldl_ext
    intro row x _
    rw [addAt_slotOf]
    simp only [isCounted, decide_eq_true_eq]
  have hmem : ∀ x ∈ ((groups sp t).filter fun x => decide (x.1.1 = eventType)).filter (isCounted sp),
      0 ≤ slotOf sp x.1.2 ∧ slotOf sp x.1.2 < sp.buckets := fun x hx => of_decide_eq_true (List.mem_filter.mp hx).2
  rw [hslots]
  apply List.ext_getElem?
  intro i
  rw [Security.getElem_foldl_add _ hmem, List.getElem?_replicate, List.getElem?_map]
  by_cases hi : i < sp.buckets
  · have hcounted : ∀ x : (String × Int) × Nat,
        (decide (slotOf sp x.1.2 = i) && isCounted sp x) = decide (slotOf sp x.1.2 = i) := by
      intro x
      by_cases hx : slotOf sp x.1.2 = i
      · have hin : isCounted sp x = true := decide_eq_true (by omega)
        rw [hin, Bool.and_true]
      · rw [decide_eq_false hx, Bool.false_and]
    rw [List.filter_filter]
    simp only [hcounted]
    rw [sum_groups, if_pos hi, List.getElem?_range hi, Option.map_some, Option.map_some, Nat.zero_add]
  · rw [if_neg hi, List.getElem?_eq_none (by simpa using hi)]
    rfl

/-- An event is counted in its interval, unless it is moved or falls off. -/
theorem slot_eq_iff {t : Instant} (h : sp.covers t = true) :
    slotOf sp (bucketIndex dialect sp.since sp.width t) = sp.bucket t ↔ ¬ sp.Moves dialect t ∧ ¬ sp.FallsOff dialect t := by
  obtain ⟨hfirst, hlast⟩ := index_bounds h
  have hbuckets := sp.buckets_pos
  unfold slotOf Span.bucket
  cases landing dialect h with
  | stays hposition hstays hin =>
    rw [hposition]
    exact iff_of_true rfl ⟨hstays, hin⟩
  | ahead hposition hearly hmoves hfalls =>
    rw [hposition, hmoves, hfalls]
    split <;> split <;> omega
  | behind hposition hlate hpos hmoves hin =>
    rw [hposition, hmoves, and_iff_left hin]
    split <;> split <;> omega
  | before hposition hlate hzero hstays hfalls =>
    rw [hposition]
    refine iff_of_false ?_ fun hno => hno.2 hfalls
    split <;> split <;> omega

theorem slot_order (dialect : Dialect) (sp : Span) :
    (∀ t, sp.covers t = true → slotOf sp (bucketIndex dialect sp.since sp.width t) ≤ sp.bucket t) ∨
      ∀ t, sp.covers t = true → sp.bucket t ≤ slotOf sp (bucketIndex dialect sp.since sp.width t) := by
  have hbuckets := sp.buckets_pos
  rcases late_cases sp with hearly | hlate
  · right
    intro t h
    obtain ⟨hfirst, hlast⟩ := index_bounds h
    unfold slotOf Span.bucket
    cases landing dialect h <;> split <;> split <;> omega
  · left
    intro t h
    obtain ⟨hfirst, hlast⟩ := index_bounds h
    unfold slotOf Span.bucket
    cases landing dialect h <;> split <;> split <;> omega

theorem covered_of_event {eventType : String} {e : Security.SecurityEvent} (he : e ∈ eventsIn sp t eventType) :
    e ∈ t.raw ∧ sp.covers e.occurredAt = true := by
  obtain ⟨hraw, hin⟩ := List.mem_filter.mp he
  rw [Bool.and_eq_true] at hin
  exact ⟨hraw, hin.1⟩

theorem events_conserved (hunfolded : Unfolded sp t) (h : ∀ e ∈ t.raw, sp.covers e.occurredAt = true →
      ¬ sp.Moves dialect e.occurredAt ∧ ¬ sp.FallsOff dialect e.occurredAt) :
    EventsConserved sp t (Security.bucketsBetween t sp.since sp.until_ sp.buckets) := by
  have hrows : ∀ eventType row, (eventType, row) ∈ Security.bucketsBetween t sp.since sp.until_ sp.buckets ↔
      eventsIn sp t eventType ≠ [] ∧ row = (List.range sp.buckets).map fun i : Nat =>
        ((eventsIn sp t eventType).filter fun e => decide (sp.bucket e.occurredAt = i)).length := by
    intro eventType row
    rw [bucketsBetween_rows hunfolded, seriesIn_eq]
    have hsame : ∀ i : Nat, ((eventsIn sp t eventType).filter fun e =>
        decide (slotOf sp (bucketIndex dialect sp.since sp.width e.occurredAt) = i)) =
          (eventsIn sp t eventType).filter fun e => decide (sp.bucket e.occurredAt = i) := by
      intro i
      apply List.filter_congr
      intro e he
      obtain ⟨hraw, hcovers⟩ := covered_of_event he
      rw [(slot_eq_iff hcovers).mpr (h e hraw hcovers)]
    simp only [hsame]
  refine ⟨?_, hrows, ?_⟩
  · rw [((bucketsBetween_perm_rows hunfolded).map Prod.fst).nodup_iff]
    exact Rows.nodup _
  · intro eventType row hrow
    obtain ⟨-, rfl⟩ := (hrows eventType row).mp hrow
    refine tally_slots (Security.layout dialect) (eventsIn sp t eventType) (fun e => sp.bucket e.occurredAt) sp.buckets ?_
    intro e he
    exact bucket_bounds (covered_of_event he).2

/-- Series that show as many events as there are show each in its interval. -/
theorem events_stay (hunfolded : Unfolded sp t)
    (h : EventsConserved sp t (Security.bucketsBetween t sp.since sp.until_ sp.buckets)) :
    ∀ e ∈ t.raw, sp.covers e.occurredAt = true →
      ¬ sp.Moves dialect e.occurredAt ∧ ¬ sp.FallsOff dialect e.occurredAt := by
  intro e he hcovers
  have hin : e ∈ eventsIn sp t e.eventType := by
    refine List.mem_filter.mpr ⟨he, ?_⟩
    rw [hcovers, decide_eq_true rfl]
    rfl
  have hrow := (bucketsBetween_rows hunfolded e.eventType _).mpr ⟨List.ne_nil_of_mem hin, rfl⟩
  have hshown := ((h.buckets _ _).mp hrow).2
  rw [seriesIn_eq, List.map_inj_left] at hshown
  have hsame : ∀ e' ∈ eventsIn sp t e.eventType,
      slotOf sp (bucketIndex dialect sp.since sp.width e'.occurredAt) = sp.bucket e'.occurredAt :=
    eq_of_same_counts (fun e he => bucket_bounds (covered_of_event he).2)
      (fun i hi => hshown i (List.mem_range.mpr hi))
      ((slot_order dialect sp).imp (fun hle e he => hle _ (covered_of_event he).2) fun hle e he =>
        hle _ (covered_of_event he).2)
  exact (slot_eq_iff hcovers).mp (hsame e hin)

end Events

/-- **The charts conserve what they count if and only if no moment is moved**: every visit and every event of a span is
counted once, in the interval of its second, or in the last one when that is one past the end. None is moved in a span that
begins with a second, or from 1970 to the year 2514, but what SQLite takes for the next second. -/
theorem buckets_conserve_events (dialect : Dialect) (sp : Span) :
    (∀ (t : Visits.Tables dialect) (links : List Link) (scope : Visits.Scope),
      VisitsConserved sp t links scope (Visits.summary t links sp.since sp.until_ sp.buckets scope) ↔
        ∀ v ∈ visitsIn sp t links scope, ¬ sp.Moves dialect v.occurredAt) ∧
    (∀ t : Security.Tables dialect, Unfolded sp t →
      (EventsConserved sp t (Security.bucketsBetween t sp.since sp.until_ sp.buckets) ↔
        ∀ e ∈ t.raw, sp.covers e.occurredAt = true →
          ¬ sp.Moves dialect e.occurredAt ∧ ¬ sp.FallsOff dialect e.occurredAt)) ∧
    (Link.second ∣ sp.since ∨ (0 ≤ sp.since ∧ sp.since < 2 ^ 34 * Link.second) → ∀ t : Instant,
      (dialect = .sqlite → t % Link.second < Link.second - 500) → ¬ sp.Moves dialect t ∧ ¬ sp.FallsOff dialect t) := by
  refine ⟨?_, ?_, ?_⟩
  · intro t links scope
    exact ⟨visits_stay, visits_conserved⟩
  · intro t hunfolded
    exact ⟨events_stay hunfolded, events_conserved hunfolded⟩
  · intro hdate t ht
    exact stays_of_date sp hdate ht

/-- Three minutes of a day in 2026, from the middle of a second. -/
def threeMinutes : Span := ⟨1785538800500000, 3, 60, by decide, by decide⟩

/-- Sign-ins fail in the first minute, one of them in the last half millisecond of a second. -/
def failuresInAMinute : Security.Tables .sqlite :=
  ⟨[⟨"LOGIN_FAILED", 1785538800700000⟩, ⟨"LOGIN_FAILED", 1785538830999700⟩], .empty⟩

theorem buckets_conserve_three_minutes : EventsConserved threeMinutes failuresInAMinute
    (Security.bucketsBetween failuresInAMinute threeMinutes.since threeMinutes.until_ threeMinutes.buckets) :=
  ((buckets_conserve_events .sqlite threeMinutes).2.1 failuresInAMinute nofun).mpr (by decide +kernel)

/-- A sign-in fails 300 microseconds before the first minute is over. -/
def failureBeforeAMinute : Security.Tables .sqlite := ⟨[⟨"LOGIN_FAILED", 1785538859999700⟩], .empty⟩

/-- Half a second before 1970, for a second. -/
def lastSecond : Span := ⟨-500000, 1, 1, by decide, by decide⟩

def failureBefore1970 : Security.Tables .postgresql := ⟨[⟨"LOGIN_FAILED", -500000⟩], .empty⟩

/-- **SQLite counts an event in the next minute** when there are 300 microseconds left of its own, and PostgreSQL counts an
event half a second before 1970 nowhere. -/
theorem events_are_moved_and_lost :
    (threeMinutes.bucket 1785538859999700 = 0 ∧
      Security.bucketsBetween failureBeforeAMinute threeMinutes.since threeMinutes.until_ threeMinutes.buckets =
        [("LOGIN_FAILED", [0, 1, 0])] ∧
      ¬ EventsConserved threeMinutes failureBeforeAMinute
        (Security.bucketsBetween failureBeforeAMinute threeMinutes.since threeMinutes.until_ threeMinutes.buckets)) ∧
    (lastSecond.bucket (-500000) = 0 ∧
      Security.bucketsBetween failureBefore1970 lastSecond.since lastSecond.until_ lastSecond.buckets =
        [("LOGIN_FAILED", [0])] ∧
      ¬ EventsConserved lastSecond failureBefore1970
        (Security.bucketsBetween failureBefore1970 lastSecond.since lastSecond.until_ lastSecond.buckets)) := by
  refine ⟨⟨by decide, by decide +kernel, ?_⟩, by decide, by decide +kernel, ?_⟩
  · intro h
    have hunfolded : Unfolded threeMinutes failureBeforeAMinute := nofun
    have hstays := (events_stay hunfolded h _ List.mem_cons_self (by decide)).1
    exact hstays (by decide)
  · intro h
    have hunfolded : Unfolded lastSecond failureBefore1970 := nofun
    have hin := (events_stay hunfolded h _ List.mem_cons_self (by decide)).2
    exact hin (by decide)

end LinkShortener.Charts
