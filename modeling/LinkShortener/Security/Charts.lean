import LinkShortener.Security.Events

/-!
# Day charts of the security events

* `get_rewriteSeries`, `seriesOf_foldl`: a dictionary that is written row by row holds, for each type, what the rows of that type
  make of a series of zeros.
* `getElem_foldl_add`, `getElem_foldl_set`: the counts are added up, and the folded days are laid over them.
* `mem_bucketsBetween`: the chart is what the book says.
* `day_chart_shows_what_was_recorded`: folding and sweeping are invisible, as long as the database numbers the days of the
  events (`StampsInItsDay`).
* `late_stamps_fold_the_day_after`: SQLite, and an event in the last half millisecond of a day.
-/

namespace LinkShortener.Security

open Folding Runs Ledger

/-! ## Dictionaries of series -/

section Dictionary

variable {O : Type} {counted : Counted} {n : Nat} {name : O → String} {f : O → List Nat → List Nat}

theorem get_rewriteSeries (eventType eventType' : String) (g : List Nat → List Nat) :
    (rewriteSeries counted n eventType g).get eventType' =
      if eventType = eventType' then some (eventType, g (seriesOf counted n eventType)) else counted.get eventType' := by
  unfold rewriteSeries
  rw [Rows.get_upsert]

theorem seriesOf_rewriteSeries (eventType eventType' : String) (g : List Nat → List Nat) :
    seriesOf (rewriteSeries counted n eventType g) n eventType' =
      if eventType = eventType' then g (seriesOf counted n eventType') else seriesOf counted n eventType' := by
  unfold seriesOf
  rw [get_rewriteSeries]
  split
  · rename_i heq
    subst heq
    rfl
  · rfl

theorem isSome_foldl (ops : List O) (eventType : String) :
    ((ops.foldl (fun c o => rewriteSeries c n (name o) (f o)) counted).get eventType).isSome = true ↔
      (∃ o ∈ ops, name o = eventType) ∨ (counted.get eventType).isSome = true := by
  induction ops generalizing counted with
  | nil => simp
  | cons o ops ih =>
    rw [List.foldl_cons, ih, get_rewriteSeries]
    by_cases h : name o = eventType
    · simp [h]
    · simp [h]

theorem seriesOf_foldl (ops : List O) (eventType : String) :
    seriesOf (ops.foldl (fun c o => rewriteSeries c n (name o) (f o)) counted) n eventType =
      (ops.filter fun o => decide (name o = eventType)).foldl (fun row o => f o row) (seriesOf counted n eventType) := by
  induction ops generalizing counted with
  | nil => rfl
  | cons o ops ih =>
    rw [List.foldl_cons, ih, seriesOf_rewriteSeries, List.filter_cons]
    by_cases h : name o = eventType
    · simp [h]
    · simp [h]

theorem mem_rows_iff {eventType : String} {row : List Nat} : (eventType, row) ∈ counted.rows ↔
    (counted.get eventType).isSome = true ∧ row = seriesOf counted n eventType := by
  rw [Rows.mem_iff_get]
  unfold seriesOf
  constructor
  · intro h
    simp only at h
    rw [h]
    exact ⟨rfl, rfl⟩
  · rintro ⟨hsome, rfl⟩
    obtain ⟨⟨eventType', row⟩, hget⟩ := Option.isSome_iff_exists.mp hsome
    obtain rfl : eventType' = eventType := Rows.key_of_get hget
    simp only [hget]
    rfl

end Dictionary

/-! ## Series that are written position by position -/

section Positions

variable {O : Type} {n : Nat} {position : O → Int} {total : O → Nat}

theorem getElem_foldl_add (ops : List O) (h : ∀ o ∈ ops, 0 ≤ position o ∧ position o < n) (row : List Nat) (i : Nat) :
    (ops.foldl (fun row o => addAt n (position o) (total o) row) row)[i]? =
      row[i]?.map (· + ((ops.filter fun o => decide (position o = i)).map total).sum) := by
  induction ops generalizing row with
  | nil => simp
  | cons o ops ih =>
    have ho := h o List.mem_cons_self
    rw [List.foldl_cons, ih fun o' ho' => h o' (List.mem_cons_of_mem o ho'), addAt, if_pos ho, List.getElem?_modify,
      List.filter_cons]
    by_cases hi : position o = i
    · simp only [hi, Int.toNat_natCast, decide_true, if_true, List.map_cons, List.sum_cons]
      cases row[i]? with
      | none => rfl
      | some x => simp [Nat.add_assoc]
    · have hi' : ¬ (position o).toNat = i := by omega
      simp [hi', hi]

theorem getElem_foldl_set (ops : List O) (h : ∀ o ∈ ops, 0 ≤ position o) (hn : (ops.map position).Nodup)
    (row : List Nat) (i : Nat) :
    (ops.foldl (fun row o => row.set (position o).toNat (total o)) row)[i]? =
      row[i]?.map fun x => if (ops.filter fun o => decide (position o = i)).isEmpty then x
        else ((ops.filter fun o => decide (position o = i)).map total).sum := by
  induction ops generalizing row with
  | nil => simp
  | cons o ops ih =>
    have ho := h o List.mem_cons_self
    obtain ⟨hnew, hn⟩ := List.nodup_cons.mp hn
    rw [List.foldl_cons, ih (fun o' ho' => h o' (List.mem_cons_of_mem o ho')) hn, List.getElem?_set, List.filter_cons]
    by_cases hi : position o = i
    · -- No later day is laid over this one.
      have hnone : (ops.filter fun o' => decide (position o' = i)) = [] := by
        rw [List.filter_eq_nil_iff]
        intro o' ho' hsame
        apply hnew
        rw [hi, ← of_decide_eq_true hsame]
        exact List.mem_map_of_mem ho'
      rw [hnone]
      simp only [hi, Int.toNat_natCast, decide_true, if_true, List.isEmpty_nil, List.isEmpty_cons, List.map_cons,
        List.map_nil, List.sum_cons, List.sum_nil]
      by_cases hlt : i < row.length
      · simp [hlt]
      · simp [hlt]
    · have hi' : ¬ (position o).toNat = i := by omega
      simp [hi', hi]

end Positions

/-! ## What the chart reads -/

section Chart

variable {dialect : Dialect} {t : Tables dialect} {a : Int} {n : Nat}

theorem width_eq (a : Int) (hn : 0 < n) : max 1 (totalSeconds (midnight (a + n) - midnight a) / n) = DAY := by
  have hspan : midnight (a + n) - midnight a = DAY * n * Link.second := by
    rw [← midnight_add, add_sub_cancel_left, dayLength, ← Int.mul_assoc, Int.mul_comm DAY]
  rw [hspan, totalSeconds_mul, Int.mul_ediv_cancel _ (by omega)]
  rfl

/-- The events of a span of whole days, and their days. -/
theorem mem_span {e : SecurityEvent} (h : Dated t) (he : e ∈ t.raw) :
    (decide (midnight a ≤ e.occurredAt) && decide (e.occurredAt < midnight (a + n))) = true ↔
      a ≤ dayIndex dialect e.occurredAt ∧ dayIndex dialect e.occurredAt < a + n := by
  have hdatable : Datable dialect e.occurredAt := h.raw e he
  rw [Bool.and_eq_true, decide_eq_true_eq, decide_eq_true_eq, midnight_le_iff, lt_midnight_iff, dayIndex_eq hdatable]

theorem span_index {e : SecurityEvent} (h : Dated t) (he : e ∈ t.raw) (ha : a ≤ dayIndex dialect e.occurredAt) :
    bucketIndex dialect (midnight a) DAY e.occurredAt = dayIndex dialect e.occurredAt - a := by
  have hdatable : Datable dialect e.occurredAt := h.raw e he
  refine bucketIndex_eq dialect hdatable.1 ?_
  rw [midnight_le_iff, ← dayIndex_eq hdatable]
  exact ha

theorem bucketCounts_position (h : Dated t) {x : (String × Int) × Nat}
    (hx : x ∈ bucketCounts t (midnight a) (midnight (a + n)) DAY) : 0 ≤ x.1.2 ∧ x.1.2 < n ∧
      ∃ e ∈ t.raw, e.eventType = x.1.1 ∧ dayIndex dialect e.occurredAt = a + x.1.2 := by
  obtain ⟨y, hy, rfl⟩ := List.mem_map.mp hx
  obtain ⟨e, he, rfl⟩ := List.mem_map.mp (List.mem_dedup.mp hy)
  obtain ⟨he, hspan⟩ := List.mem_filter.mp he
  obtain ⟨hlow, hhigh⟩ := (mem_span h he).mp hspan
  have hindex := span_index h he hlow
  simp only
  rw [hindex]
  exact ⟨by omega, by omega, e, he, rfl, by omega⟩

theorem sum_bucketCounts (h : Dated t) (eventType : String) {i : Nat} (hi : i < n) :
    ((((bucketCounts t (midnight a) (midnight (a + n)) DAY).filter fun x => decide (x.1.1 = eventType)).filter
      fun x => decide (x.1.2 = (i : Int))).map Prod.snd).sum =
        amount (layout dialect).view t.raw (fun k => decide (k = eventType)) (a + i) := by
  unfold bucketCounts
  dsimp only
  rw [List.filter_filter, List.filter_map, List.map_map]
  refine (tally_groups (layout dialect) _ _ _).trans ?_
  rw [amount_view, List.filter_filter]
  congr 1
  apply List.filter_congr
  intro e he
  show (decide (bucketIndex dialect (midnight a) DAY e.occurredAt = i) && decide (e.eventType = eventType) && _) =
    (decide (e.eventType = eventType) && decide (dayIndex dialect e.occurredAt = a + i))
  by_cases hspan : a ≤ dayIndex dialect e.occurredAt ∧ dayIndex dialect e.occurredAt < a + n
  · rw [(mem_span h he).mpr hspan, span_index h he hspan.1, Bool.and_true, Bool.and_comm]
    congr 1
    rw [decide_eq_decide]
    omega
  · have hout : ¬ dayIndex dialect e.occurredAt = a + i := by omega
    rw [Bool.eq_false_iff.mpr fun hin => hspan ((mem_span h he).mp hin), decide_eq_false hout]
    simp

theorem position_eq {d : Instant} (hd : midnight (dayOf d) = d) (a : Int) :
    totalSeconds (d - midnight a) / DAY = dayOf d - a := by
  have hspan : d - midnight a = (dayOf d - a) * DAY * Link.second := by
    conv_lhs => rw [← hd]
    rw [Int.mul_assoc]
    exact (Int.sub_mul _ _ _).symm
  rw [hspan, totalSeconds_mul, Int.mul_ediv_cancel _ (by decide)]

theorem mem_dayTotalsBetween {r : EventsOnADay} :
    r ∈ dayTotalsBetween t (midnight a) (midnight (a + n)) ↔
      r ∈ t.days.rows ∧ 0 ≤ dayOf r.day - a ∧ dayOf r.day - a < n := by
  unfold dayTotalsBetween
  rw [List.mem_insertionSort, List.mem_filter, Bool.and_eq_true, decide_eq_true_eq, decide_eq_true_eq, midnight_le_iff,
    lt_midnight_iff]
  constructor
  · rintro ⟨hr, hlow, hhigh⟩
    exact ⟨hr, by omega, by omega⟩
  · rintro ⟨hr, hlow, hhigh⟩
    exact ⟨hr, by omega, by omega⟩

/-- Every day in the span is laid over its position. -/
theorem layTheFoldedDaysOver_eq (h : Dated t) (counted : Counted) (a : Int) (n : Nat) :
    layTheFoldedDaysOver t counted (midnight a) DAY n = (dayTotalsBetween t (midnight a) (midnight (a + n))).foldl
      (fun c r => rewriteSeries c n r.eventType (·.set (dayOf r.day - a).toNat r.total)) counted := by
  have hend : midnight a + DAY * n * Link.second = midnight (a + n) := by
    rw [← midnight_add, dayLength, ← Int.mul_assoc, Int.mul_comm (n : Int)]
  unfold layTheFoldedDaysOver
  rw [if_neg (by simp), hend]
  apply List.foldl_ext
  intro c r hr
  obtain ⟨hr, hlow, hhigh⟩ := mem_dayTotalsBetween.mp hr
  have hposition : totalSeconds (r.day - midnight a) / DAY = dayOf r.day - a := position_eq (h.days r hr) a
  dsimp only
  rw [hposition, if_pos ⟨hlow, hhigh⟩]

/-- The folded days of a type at a position are the totals of that day. -/
theorem totalsOf_perm (eventType : String) {i : Nat} (hi : i < n) :
    ((((dayTotalsBetween t (midnight a) (midnight (a + n))).filter fun r => decide (r.eventType = eventType)).filter
      fun r => decide (dayOf r.day - a = i)).map (layout dialect).toTotal).Perm
        ((book t).totalsOf (fun k => decide (k = eventType)) (a + i)) := by
  have hrows : (t.days.rows.filter fun r => decide (dayOf r.day - a = i) && decide (r.eventType = eventType) &&
      (decide (midnight a ≤ r.day) && decide (r.day < midnight (a + n)))) =
        t.days.rows.filter fun r => decide (r.eventType = eventType) && decide (dayOf r.day = a + i) := by
    apply List.filter_congr
    intro r _
    rw [Bool.eq_iff_iff]
    simp only [Bool.and_eq_true, decide_eq_true_eq, midnight_le_iff, lt_midnight_iff]
    constructor
    · rintro ⟨⟨hday, htype⟩, -, -⟩
      exact ⟨htype, by omega⟩
    · rintro ⟨htype, hday⟩
      exact ⟨⟨by omega, htype⟩, by omega, by omega⟩
  have htotals : (book t).totalsOf (fun k => decide (k = eventType)) (a + i) =
      (t.days.rows.filter fun r => decide (r.eventType = eventType) && decide (dayOf r.day = a + i)).map
        (layout dialect).toTotal := by
    unfold Book.totalsOf book
    rw [List.filter_map]
    rfl
  rw [htotals, ← hrows, ← List.filter_filter, List.filter_filter]
  exact ((List.perm_insertionSort _ _).filter _).map _

/-- A type has one folded row for a day. -/
theorem position_nodup (h : Dated t) (eventType : String) :
    (((dayTotalsBetween t (midnight a) (midnight (a + n))).filter fun r => decide (r.eventType = eventType)).map
      fun r => dayOf r.day - a).Nodup := by
  refine List.Nodup.map_on ?_ ?_
  · intro r hr r' hr' hday
    obtain ⟨hr, htype⟩ := List.mem_filter.mp hr
    obtain ⟨hr', htype'⟩ := List.mem_filter.mp hr'
    have hrow := (mem_dayTotalsBetween.mp hr).1
    have hrow' := (mem_dayTotalsBetween.mp hr').1
    have hsame : r.day = r'.day := by
      have hmidnight : midnight (dayOf r.day) = r.day := h.days r hrow
      have hmidnight' : midnight (dayOf r'.day) = r'.day := h.days r' hrow'
      rw [← hmidnight, ← hmidnight', show dayOf r.day = dayOf r'.day by omega]
    have htypes : r.eventType = r'.eventType := (of_decide_eq_true htype).trans (of_decide_eq_true htype').symm
    refine List.inj_on_of_nodup_map t.days.nodup hrow hrow' ?_
    exact Prod.ext htypes hsame
  · unfold dayTotalsBetween
    refine List.Nodup.filter _ ?_
    rw [(List.perm_insertionSort _ _).nodup_iff]
    exact t.days.nodup.of_map.filter _

/-- The dictionary the chart is sorted from. -/
theorem bucketsBetween_perm (h : Dated t) (a : Int) (hn : 0 < n) :
    (bucketsBetween t (midnight a) (midnight (a + n)) n).Perm
      ((dayTotalsBetween t (midnight a) (midnight (a + n))).foldl
        (fun c r => rewriteSeries c n r.eventType (·.set (dayOf r.day - a).toNat r.total))
        ((bucketCounts t (midnight a) (midnight (a + n)) DAY).foldl
          (fun c x => rewriteSeries c n x.1.1 (addAt n x.1.2 x.2)) Rows.empty)).rows := by
  unfold bucketsBetween
  rw [if_neg (by omega)]
  dsimp only
  rw [width_eq a hn, Int.toNat_natCast, layTheFoldedDaysOver_eq h]
  exact List.perm_insertionSort _ _

/-- **The chart is what the book says**: one series for each type that is in one of the tables. -/
theorem mem_bucketsBetween (h : Dated t) (a : Int) (hn : 0 < n) (eventType : String) (row : List Nat) :
    (eventType, row) ∈ bucketsBetween t (midnight a) (midnight (a + n)) n ↔
      (∃ i < n, (∃ e ∈ t.raw, e.eventType = eventType ∧ dayIndex dialect e.occurredAt = a + i) ∨
        ∃ r ∈ t.days.rows, r.eventType = eventType ∧ dayOf r.day = a + i) ∧
      row = (List.range n).map fun i : Nat =>
        (book t).read (layout dialect).view (fun k => decide (k = eventType)) (a + i) := by
  rw [(bucketsBetween_perm h a hn).mem_iff, mem_rows_iff (n := n), isSome_foldl, isSome_foldl, seriesOf_foldl,
    seriesOf_foldl]
  apply and_congr
  · constructor
    · rintro (⟨r, hr, htype⟩ | ⟨x, hx, htype⟩ | hnone)
      · obtain ⟨hr, hlow, hhigh⟩ := mem_dayTotalsBetween.mp hr
        exact ⟨(dayOf r.day - a).toNat, by omega, .inr ⟨r, hr, htype, by omega⟩⟩
      · obtain ⟨hlow, hhigh, e, he, htype', hday⟩ := bucketCounts_position h hx
        exact ⟨x.1.2.toNat, by omega, .inl ⟨e, he, htype'.trans htype, by omega⟩⟩
      · cases hnone
    · rintro ⟨i, hi, ⟨e, he, htype, hday⟩ | ⟨r, hr, htype, hday⟩⟩
      · right
        left
        have hspan := (mem_span (a := a) (n := n) h he).mpr ⟨by omega, by omega⟩
        refine ⟨_, List.mem_map_of_mem (List.mem_dedup.mpr (List.mem_map_of_mem (List.mem_filter.mpr ⟨he, hspan⟩))), ?_⟩
        exact htype
      · exact .inl ⟨r, mem_dayTotalsBetween.mpr ⟨hr, by omega, by omega⟩, htype⟩
  · apply Eq.congr_right
    apply List.ext_getElem?
    intro i
    rw [getElem_foldl_set _ _ (position_nodup h eventType), getElem_foldl_add]
    · by_cases hi : i < n
      · have hzero : (seriesOf Rows.empty n eventType)[i]? = some 0 := by
          unfold seriesOf
          rw [Rows.get_empty, Option.map_none, Option.getD_none, List.getElem?_replicate, if_pos hi]
        have hperm := totalsOf_perm (t := t) (a := a) eventType hi
        have hempty := hperm.isEmpty_eq
        have hsum := (hperm.map (·.total)).sum_eq
        rw [List.isEmpty_map] at hempty
        rw [List.map_map] at hsum
        rw [List.getElem?_map, List.getElem?_range hi, hzero, sum_bucketCounts h eventType hi, Option.map_some, Option.map_some,
          Option.map_some, Nat.zero_add]
        unfold Book.read
        rw [← hempty, ← hsum]
        rfl
      · have hzero : (seriesOf Rows.empty n eventType)[i]? = none := by
          unfold seriesOf
          rw [Rows.get_empty, Option.map_none, Option.getD_none, List.getElem?_replicate, if_neg hi]
        rw [hzero, List.getElem?_eq_none (by simpa using hi)]
        rfl
    · intro x hx
      obtain ⟨hlow, hhigh, -⟩ := bucketCounts_position h (List.mem_filter.mp hx).1
      exact ⟨hlow, hhigh⟩
    · intro r hr
      exact (mem_dayTotalsBetween.mp (List.mem_filter.mp hr).1).2.1

end Chart

/-! ## Whole histories -/

section Histories

variable {dialect : Dialect}

/-- An event is stamped at a moment whose day the database numbers: not in the last half millisecond of it, in SQLite. -/
def StampsInItsDay (s : State dialect) : Event → Prop
  | .record _ => dialect = .sqlite → s.now % dayLength < dayLength - 500
  | _ => True

instance decidableStampsInItsDay (s : State dialect) : ∀ e, Decidable (StampsInItsDay s e)
  | .record _ => inferInstanceAs (Decidable (_ → _))
  | .rollUpSecurityEvents _ => isTrue trivial
  | .tick _ => isTrue trivial

/-- The tables account for the events that were recorded. -/
structure Accounted (s : State dialect) : Prop where
  clock : 0 ≤ s.now
  dated : Dated s.tables
  faithful : ∃ F : Int, F ≤ dayOf s.now ∧ Faithful (layout dialect).view (book s.tables) s.recorded F
  stamps : ∀ e ∈ s.recorded, Datable dialect e.occurredAt

/-- **Every operation keeps the books.** -/
theorem step_accounted {s s' : State dialect} {e : Event} (hstamps : StampsInItsDay s e) (hstep : step s e = some s')
    (h : Accounted s) : Accounted s' := by
  obtain ⟨F, hF, hfaithful⟩ := h.faithful
  cases e with
  | record eventType =>
    cases hstep
    have hdatable : Datable dialect s.now := ⟨h.clock, hstamps⟩
    have hday : F ≤ dayIndex dialect s.now := by
      rw [dayIndex_eq hdatable]
      exact hF
    refine ⟨h.clock, ⟨?_, h.dated.days⟩, ⟨F, hF, hfaithful.record hday⟩, ?_⟩
    · intro e he
      rcases List.mem_cons.mp he with rfl | he
      · exact hdatable
      · exact h.dated.raw e he
    · intro e he
      rcases List.mem_cons.mp he with rfl | he
      · exact hdatable
      · exact h.stamps e he
  | rollUpSecurityEvents retentionDays =>
    cases hstep
    obtain ⟨hdated, hfolded⟩ := rollUp_faithful h.dated hfaithful hF retentionDays
    exact ⟨h.clock, hdated, ⟨_, le_rfl, hfolded⟩, h.stamps⟩
  | tick now =>
    simp only [step] at hstep
    split at hstep
    · rename_i hle
      cases hstep
      exact ⟨le_trans h.clock hle, h.dated, ⟨F, hF.trans (dayOf_mono hle), hfaithful⟩, h.stamps⟩
    · cases hstep

/-- A service in which nothing has been recorded yet. -/
structure Unused (s : State dialect) : Prop where
  raw : s.tables.raw = []
  days : s.tables.days.rows = []
  recorded : s.recorded = []
  /-- The clock does not go back behind 1970. -/
  clock : 0 ≤ s.now

theorem Unused.accounted {s : State dialect} (h : Unused s) : Accounted s := by
  refine ⟨h.clock, ⟨?_, ?_⟩, ⟨dayOf s.now, le_rfl, ?_⟩, ?_⟩
  · rw [h.raw]
    nofun
  · rw [h.days]
    nofun
  · have hbook : book s.tables = ⟨[], []⟩ := by
      unfold book
      rw [h.raw, h.days]
      rfl
    rw [hbook, h.recorded]
    exact .empty _
  · rw [h.recorded]
    nofun

/-- The events of a type that were recorded on a day. -/
def State.recordedOn (s : State dialect) (eventType : String) (d : Int) : List SecurityEvent :=
  s.recorded.filter fun e => decide (e.eventType = eventType) && decide (dayOf e.occurredAt = d)

/-- **Folding and sweeping are invisible to the day charts**, over every history whose events are stamped in their days: a
span of whole days has one series for each type that occurred in it and for no other, and the series says how many events of
the type were recorded each day. -/
theorem day_chart_shows_what_was_recorded (s s' : State dialect) (events : List Event) (hstart : Unused s)
    (hstamps : Meets step StampsInItsDay s events) (hrun : run step s events = some s') (a : Int) (n : Nat) (hn : 0 < n) :
    ((bucketsBetween s'.tables (midnight a) (midnight (a + n)) n).map Prod.fst).Nodup ∧
    ∀ eventType row, (eventType, row) ∈ bucketsBetween s'.tables (midnight a) (midnight (a + n)) n ↔
      (∃ i < n, s'.recordedOn eventType (a + i) ≠ []) ∧
        row = (List.range n).map fun i : Nat => (s'.recordedOn eventType (a + i)).length := by
  have h : Accounted s' := run_inv_of_meets (I := Accounted) step_accounted hstamps hrun hstart.accounted
  obtain ⟨F, hF, hfaithful⟩ := h.faithful
  have hrecorded : ∀ {e}, e ∈ s'.recorded → dayIndex dialect e.occurredAt = dayOf e.occurredAt := by
    intro e he
    exact dayIndex_eq (h.stamps e he)
  have hread : ∀ (eventType : String) (d : Int),
      (book s'.tables).read (layout dialect).view (fun k => decide (k = eventType)) d =
        (s'.recordedOn eventType d).length := by
    intro eventType d
    rw [hfaithful.read_eq, amount_view]
    show List.length _ = List.length _
    congr 1
    apply List.filter_congr
    intro e he
    show (decide (e.eventType = eventType) && decide (dayIndex dialect e.occurredAt = d)) = _
    rw [hrecorded he]
  refine ⟨?_, ?_⟩
  · rw [((bucketsBetween_perm h.dated a hn).map _).nodup_iff]
    exact Rows.nodup _
  · intro eventType row
    rw [mem_bucketsBetween h.dated a hn]
    simp only [hread]
    apply and_congr_left'
    apply exists_congr
    intro i
    apply and_congr_right'
    have hoccurs : (∃ r ∈ s'.tables.days.rows, r.eventType = eventType ∧ dayOf r.day = a + i) ↔
        ∃ x ∈ (book s'.tables).totals, x.key = eventType ∧ x.day = a + i := by
      constructor
      · rintro ⟨r, hr, hsame⟩
        exact ⟨(layout dialect).toTotal r, List.mem_map_of_mem hr, hsame⟩
      · rintro ⟨x, hx, hsame⟩
        obtain ⟨r, hr, rfl⟩ := List.mem_map.mp hx
        exact ⟨r, hr, hsame⟩
    rw [hoccurs]
    refine (hfaithful.occurs_iff eventType (a + i)).trans ?_
    constructor
    · rintro ⟨e, he, htype, hday⟩
      refine List.ne_nil_of_mem (List.mem_filter.mpr ⟨he, ?_⟩)
      rw [Bool.and_eq_true, decide_eq_true_eq, decide_eq_true_eq, ← hrecorded he]
      exact ⟨htype, hday⟩
    · intro hne
      obtain ⟨e, he⟩ := List.exists_mem_of_ne_nil _ hne
      obtain ⟨he, hsame⟩ := List.mem_filter.mp he
      rw [Bool.and_eq_true, decide_eq_true_eq, decide_eq_true_eq, ← hrecorded he] at hsame
      exact ⟨e, he, hsame⟩

end Histories

/-! ## Two histories -/

def freshTables (dialect : Dialect) : State dialect := ⟨⟨[], .empty⟩, 0, []⟩

/-- Sign-ins fail on three days; the first two days are folded, and the first is swept. -/
def failuresOnThreeDays : List Event :=
  [.record "LOGIN_FAILED", .record "LOGIN_FAILED", .record "LOGIN_SUCCEEDED", .tick (dayLength + 1), .record "LOGIN_FAILED",
    .rollUpSecurityEvents 1, .tick (2 * dayLength), .record "LOGIN_FAILED", .rollUpSecurityEvents 1]

/-- What is left of the events, and how many sign-ins failed each day. -/
def threeDays (s : State .sqlite) : Nat × List Nat :=
  (s.tables.raw.length, (List.range 3).map fun i : Nat => (s.recordedOn "LOGIN_FAILED" (0 + i)).length)

theorem day_chart_of_three_days :
    ∃ s', run step (freshTables .sqlite) failuresOnThreeDays = some s' ∧ s'.tables.raw.length = 2 ∧
      ("LOGIN_FAILED", [2, 1, 1]) ∈ bucketsBetween s'.tables (midnight 0) (midnight 3) 3 := by
  have hrun : (run step (freshTables .sqlite) failuresOnThreeDays).map threeDays = some (2, [2, 1, 1]) := by decide +kernel
  have hstamps : Meets step StampsInItsDay (freshTables .sqlite) failuresOnThreeDays := by decide +kernel
  obtain ⟨s', hs', hthree⟩ := Option.map_eq_some_iff.mp hrun
  have hcounts := congrArg Prod.snd hthree
  have hfresh : Unused (freshTables .sqlite) := ⟨rfl, rfl, rfl, le_rfl⟩
  refine ⟨s', hs', congrArg Prod.fst hthree, ?_⟩
  refine ((day_chart_shows_what_was_recorded (freshTables .sqlite) s' failuresOnThreeDays hfresh hstamps hs' 0 3
    (by decide)).2 _ _).mpr ⟨⟨0, by decide, ?_⟩, hcounts.symm⟩
  intro hnone
  have hfirst : (s'.recordedOn "LOGIN_FAILED" (0 + (0 : Nat))).length = 2 := (List.cons.inj hcounts).1
  rw [hnone] at hfirst
  cases hfirst

/-- A sign-in fails 300 microseconds before the end of a day and twice on the next one, and the maintenance runs on that day
and the two days after. -/
def failureBeforeMidnight : List Event :=
  [.tick (midnight 20514 - 300), .record "LOGIN_FAILED", .tick (midnight 20514), .rollUpSecurityEvents 1,
    .record "LOGIN_FAILED", .record "LOGIN_FAILED", .tick (midnight 20515), .rollUpSecurityEvents 1,
    .tick (midnight 20516), .rollUpSecurityEvents 1]

/-- Of the two days, how many sign-ins failed and what the chart shows. -/
def twoDays {dialect : Dialect} (s : State dialect) : List Nat × List (String × List Nat) :=
  ((List.range 2).map fun i : Nat => (s.recordedOn "LOGIN_FAILED" (20513 + i)).length,
    bucketsBetween s.tables (midnight 20513) (midnight 20515) 2)

/-- **SQLite counts the last half millisecond of a day on the next one**, and folds that day before it is over: its other
events are never folded and are swept. PostgreSQL does neither. -/
theorem late_stamps_fold_the_day_after :
    (run step (freshTables .sqlite) failureBeforeMidnight).map twoDays = some ([1, 2], [("LOGIN_FAILED", [0, 1])]) ∧
      (run step (freshTables .postgresql) failureBeforeMidnight).map twoDays =
        some ([1, 2], [("LOGIN_FAILED", [1, 2])]) := by
  decide +kernel

end LinkShortener.Security
