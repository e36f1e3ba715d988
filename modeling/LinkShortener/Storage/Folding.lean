import LinkShortener.Domain.Calendar
import LinkShortener.Lib.Ledger
import LinkShortener.Lib.Rows

/-!
# Tables that are folded by the day

Visits and security events are kept in two tables each, one for what happened and one for the days that are over, and the
statements that fold and sweep them are written from one template. `Layout` is what differs.

* `foldDays`, `deleteBefore`: the two halves of `rollUp`, the fold and the sweep.
* `book_foldDays`, `book_deleteBefore`: to the two tables, read as a book, they are the fold and the sweep of a ledger.
* `rollUp_faithful`: a run of the maintenance leaves the book faithful, and folded up to today.
-/

namespace LinkShortener.Folding

open Ledger

variable {E R K M : Type} [AddCommMonoid M]

/-- How the rows of the two tables are read and written. -/
structure Layout (E R K M : Type) [AddCommMonoid M] where
  /-- The database they are in. -/
  dialect : Dialect
  /-- What the days are kept for, next to the day. -/
  key : E → K
  occurredAt : E → Instant
  weight : E → M
  /-- What is counted of a group of rows. -/
  tally : List E → M
  row : K → Instant → M → R
  rowKey : R → K
  rowDay : R → Instant
  rowTotal : R → M
  tally_eq : ∀ es, tally es = (es.map weight).sum
  rowKey_row : ∀ k d m, rowKey (row k d m) = k
  rowDay_row : ∀ k d m, rowDay (row k d m) = d
  rowTotal_row : ∀ k d m, rowTotal (row k d m) = m

namespace Layout

variable (L : Layout E R K M)

/-- The primary key of the table of days. -/
def dayKey (r : R) : K × Instant := (L.rowKey r, L.rowDay r)

/-- A row is booked under its key and its day. -/
def view : View E K M := ⟨L.key, fun e => dayIndex L.dialect (L.occurredAt e), L.weight⟩

def toTotal (r : R) : Total K M := ⟨L.rowKey r, dayOf (L.rowDay r), L.rowTotal r⟩

end Layout

structure Tables (L : Layout E R K M) where
  raw : List E
  days : Rows L.dayKey

section Queries

variable (L : Layout E R K M)

/-- The day after the last one that is folded. -/
def firstUnfoldedDay (days : List R) : Option Instant := (days.map L.rowDay).max?.map (· + dayLength)

/-- The rows of the finished days that are not folded yet. -/
def toFold (raw : List E) (before : Instant) (since : Option Instant) : List E :=
  raw.filter fun e => decide (L.occurredAt e < before) && since.all fun since => decide (since ≤ L.occurredAt e)

/-- One row for each key and day. -/
def dayRows [DecidableEq K] (es : List E) : List R :=
  (es.map fun e => (L.key e, dayIndex L.dialect (L.occurredAt e))).dedup.map fun x =>
    L.row x.1 (midnight x.2)
      (L.tally (es.filter fun e => decide (L.key e = x.1) && decide (dayIndex L.dialect (L.occurredAt e) = x.2)))

end Queries

section Statements

variable {L : Layout E R K M} (t : Tables L)

/-- Fold whole days; `none` when a row is there already and the transaction is rolled back. -/
def foldDays [DecidableEq K] (before : Instant) : Option (Tables L) := do
  let days ← t.days.insertAll (dayRows L (toFold L t.raw before (firstUnfoldedDay L t.days.rows)))
  return { t with days := days }

def deleteBefore (cutoff : Instant) : Tables L :=
  { t with raw := t.raw.filter fun e => !decide (L.occurredAt e < cutoff) }

/-- Fold the days that are over, then sweep what is past retention. -/
def rollUp [DecidableEq K] (now : Instant) (retentionDays : Int) : Tables L :=
  let today := midnightOf now
  match foldDays t today with
  | none => t
  | some t' => if 0 < retentionDays then deleteBefore t' (today - retentionDays * dayLength) else t'

/-- What is left when only some keys are. -/
def cascade (there : K → Bool) : Tables L :=
  ⟨t.raw.filter fun e => there (L.key e), t.days.filter fun r => there (L.rowKey r)⟩

end Statements

/-! ## The tables as a book -/

def book {L : Layout E R K M} (t : Tables L) : Book E K M := ⟨t.raw, t.days.rows.map L.toTotal⟩

/-- The database numbers the days of what happened, and days begin at midnight. -/
structure Dated {L : Layout E R K M} (t : Tables L) : Prop where
  raw : ∀ e ∈ t.raw, Datable L.dialect (L.occurredAt e)
  days : ∀ r ∈ t.days.rows, midnight (dayOf (L.rowDay r)) = L.rowDay r

section Book

variable {L : Layout E R K M} {t : Tables L}

theorem amount_view (es : List E) (p : K → Bool) (d : Int) : amount L.view es p d =
    L.tally (es.filter fun e => p (L.key e) && decide (dayIndex L.dialect (L.occurredAt e) = d)) :=
  (L.tally_eq _).symm

/-- What is counted of some groups is what is counted of their rows. -/
theorem tally_groups {I : Type} [DecidableEq I] (L : Layout E R K M) (es : List E) (index : E → I) (p : I → Bool) :
    (((es.map index).dedup.filter p).map fun i => L.tally (es.filter fun e => decide (index e = i))).sum =
      L.tally (es.filter fun e => p (index e)) := by
  -- The groups are a ledger of one day.
  let byIndex : View E I M := ⟨index, fun _ => 0, L.weight⟩
  have htally : ∀ p : I → Bool, L.tally (es.filter fun e => p (index e)) = amount byIndex es p 0 := by
    intro p
    rw [L.tally_eq]
    unfold amount
    simp [byIndex]
  rw [htally p, ← sum_amount_keys (v := byIndex) ((es.map index).dedup.filter p)]
  · congr 1
    apply List.map_congr_left
    intro i _
    exact htally fun j => decide (j = i)
  · exact (List.nodup_dedup _).filter _
  · intro i hi
    exact (List.mem_filter.mp hi).2
  · intro e he hp _
    exact List.mem_filter.mpr ⟨List.mem_dedup.mpr (List.mem_map_of_mem he), hp⟩

/-- What is counted slot by slot is counted, if every row has a slot. -/
theorem tally_slots (L : Layout E R K M) (es : List E) (slot : E → Int) (n : Nat)
    (h : ∀ e ∈ es, 0 ≤ slot e ∧ slot e < n) :
    ((List.range n).map fun i : Nat => L.tally (es.filter fun e => decide (slot e = i))).sum = L.tally es := by
  -- The slots are the days of a ledger.
  let bySlot : View E K M := ⟨L.key, slot, L.weight⟩
  have hday : ∀ i : Nat, L.tally (es.filter fun e => decide (slot e = i)) = amount bySlot es (fun _ => true) (0 + i) := by
    intro i
    rw [L.tally_eq]
    unfold amount
    simp [bySlot]
  simp only [hday]
  rw [sum_amount_days (v := bySlot), L.tally_eq]
  · simp [bySlot]
  · intro e he _
    obtain ⟨hlow, hhigh⟩ := h e he
    exact ⟨hlow, by show slot e < _; omega⟩

/-- The last day, as an instant and as a number. -/
theorem latest_book (t : Tables L) : (book t).latest = (t.days.rows.map L.rowDay).max?.map dayOf := by
  have hdays : (book t).totals.map (·.day) = (t.days.rows.map L.rowDay).map dayOf := by
    unfold book
    rw [List.map_map, List.map_map]
    rfl
  unfold Book.latest
  rw [hdays]
  cases hmax : (t.days.rows.map L.rowDay).max? with
  | none =>
    rw [List.max?_eq_none_iff.mp hmax]
    rfl
  | some m =>
    obtain ⟨hmem, hle⟩ := List.max?_eq_some_iff.mp hmax
    refine List.max?_eq_some_iff.mpr ⟨List.mem_map_of_mem hmem, ?_⟩
    intro d hd
    obtain ⟨m', hm', rfl⟩ := List.mem_map.mp hd
    exact dayOf_mono (hle m' hm')

theorem toFold_eq (h : Dated t) (today : Int) :
    toFold L t.raw (midnight today) (firstUnfoldedDay L t.days.rows) = (book t).due L.view today := by
  unfold toFold Book.due
  apply List.filter_congr
  intro e he
  have hday : L.view.day e = dayOf (L.occurredAt e) := dayIndex_eq (h.raw e he)
  rw [latest_book, hday]
  congr 1
  · rw [decide_eq_decide]
    exact lt_midnight_iff
  · unfold firstUnfoldedDay
    cases hmax : (t.days.rows.map L.rowDay).max? with
    | none => rfl
    | some m =>
      obtain ⟨r, hr, rfl⟩ := List.mem_map.mp (List.max?_eq_some_iff.mp hmax).1
      have hnext : L.rowDay r + dayLength = midnight (dayOf (L.rowDay r) + 1) := by
        rw [← midnight_add, h.days r hr, Int.one_mul]
      rw [Option.map_some, Option.map_some, Option.all_some, Option.all_some, decide_eq_decide, hnext, midnight_le_iff]
      exact Int.add_one_le_iff

theorem dayRows_toTotal [DecidableEq K] (es : List E) : (dayRows L es).map L.toTotal = groupTotals L.view es := by
  unfold dayRows groupTotals
  rw [List.map_map]
  apply List.map_congr_left
  intro x _
  simp only [Function.comp, Layout.toTotal, L.rowKey_row, L.rowDay_row, L.rowTotal_row, dayOf_midnight, amount_view]

/-- No key and day has two rows. -/
theorem nodup_dayRows [DecidableEq K] (es : List E) : ((dayRows L es).map L.dayKey).Nodup := by
  unfold dayRows
  rw [List.map_map]
  refine (List.nodup_dedup _).map ?_
  rintro ⟨k, d⟩ ⟨k', d'⟩ hsame
  simp only [Function.comp, Layout.dayKey, L.rowKey_row, L.rowDay_row, Prod.mk.injEq] at hsame
  obtain ⟨rfl, hday⟩ := hsame
  have hday := congrArg dayOf hday
  rw [dayOf_midnight, dayOf_midnight] at hday
  rw [hday]

theorem mem_dayRows [DecidableEq K] {es : List E} {e : E} (he : e ∈ es) :
    ∃ r ∈ dayRows L es, L.rowKey r = L.key e ∧ L.rowDay r = midnight (L.view.day e) :=
  ⟨_, List.mem_map_of_mem (List.mem_dedup.mpr (List.mem_map_of_mem he)), L.rowKey_row _ _ _, L.rowDay_row _ _ _⟩

theorem midnight_of_mem_dayRows [DecidableEq K] {es : List E} {r : R} (hr : r ∈ dayRows L es) :
    midnight (dayOf (L.rowDay r)) = L.rowDay r := by
  obtain ⟨x, -, rfl⟩ := List.mem_map.mp hr
  rw [L.rowDay_row, dayOf_midnight]

/-- The fold. -/
theorem book_foldDays [DecidableEq K] (h : Dated t) {today : Int} {t' : Tables L}
    (hfold : foldDays t (midnight today) = some t') : book t' = (book t).fold L.view today ∧ Dated t' := by
  unfold foldDays at hfold
  obtain ⟨days, hdays, hfold⟩ := Option.bind_eq_some_iff.mp hfold
  cases hfold
  have hrows : days.rows =
      dayRows L (toFold L t.raw (midnight today) (firstUnfoldedDay L t.days.rows)) ++ t.days.rows := by
    unfold Rows.insertAll at hdays
    split at hdays
    · cases hdays
      rfl
    · cases hdays
  constructor
  · unfold Book.fold book
    simp only [hrows, List.map_append, dayRows_toTotal, toFold_eq h]
    rfl
  · refine ⟨h.raw, ?_⟩
    intro r hr
    have hr : r ∈ days.rows := hr
    rw [hrows] at hr
    rcases List.mem_append.mp hr with hr | hr
    · exact midnight_of_mem_dayRows hr
    · exact h.days r hr

/-- The fold meets no row that is there already. -/
theorem foldDays_some [DecidableEq K] (h : Dated t) {today : Int}
    (hn : (((book t).fold L.view today).totals.map fun x => (x.key, x.day)).Nodup) :
    ∃ t', foldDays t (midnight today) = some t' := by
  have hkeys : ((dayRows L (toFold L t.raw (midnight today) (firstUnfoldedDay L t.days.rows)) ++ t.days.rows).map
      L.dayKey).Nodup := by
    unfold Book.fold at hn
    simp only [← toFold_eq h, ← dayRows_toTotal] at hn
    unfold book at hn
    simp only [← List.map_append, List.map_map] at hn
    have hsame : ((fun x : Total K M => (x.key, x.day)) ∘ L.toTotal) =
        (fun x : K × Instant => (x.1, dayOf x.2)) ∘ L.dayKey := rfl
    rw [hsame, ← List.map_map] at hn
    exact hn.of_map
  unfold foldDays Rows.insertAll
  rw [dif_pos hkeys]
  exact ⟨_, rfl⟩

/-- The sweep. -/
theorem book_deleteBefore (h : Dated t) (cutoff : Int) :
    book (deleteBefore t (midnight cutoff)) = (book t).sweep L.view cutoff ∧
      Dated (deleteBefore t (midnight cutoff)) := by
  constructor
  · unfold deleteBefore Book.sweep book
    congr 1
    apply List.filter_congr
    intro e he
    have hday : L.view.day e = dayOf (L.occurredAt e) := dayIndex_eq (h.raw e he)
    rw [hday, ← decide_not, decide_eq_decide, Int.not_lt, midnight_le_iff]
  · refine ⟨?_, h.days⟩
    intro e he
    exact h.raw e (List.mem_filter.mp he).1

/-- The keys that go. -/
theorem book_cascade (t : Tables L) (there : K → Bool) : book (cascade t there) = (book t).drop L.view there := by
  unfold cascade Book.drop book Rows.filter
  rw [List.filter_map]
  rfl

theorem Dated.cascade (h : Dated t) (there : K → Bool) : Dated (cascade t there) := by
  constructor
  · intro e he
    exact h.raw e (List.mem_filter.mp he).1
  · intro r hr
    exact h.days r (List.mem_filter.mp hr).1

/-- **A run of the maintenance** folds up to today. -/
theorem rollUp_faithful [DecidableEq K] {es : List E} {F : Int} (h : Dated t) (hb : Faithful L.view (book t) es F)
    {now : Instant} (hF : F ≤ dayOf now) (retentionDays : Int) :
    Dated (rollUp t now retentionDays) ∧ Faithful L.view (book (rollUp t now retentionDays)) es (dayOf now) := by
  have hfold := hb.fold hF
  obtain ⟨t', ht'⟩ := foldDays_some h hfold.nodup
  obtain ⟨hbook, hdated⟩ := book_foldDays h ht'
  rw [← hbook] at hfold
  unfold rollUp
  rw [midnightOf_eq]
  simp only [ht']
  split
  · rename_i hpos
    obtain ⟨hsweep, hdated'⟩ := book_deleteBefore hdated (dayOf now - retentionDays)
    rw [midnight_sub, hsweep]
    exact ⟨hdated', hfold.sweep (by omega)⟩
  · exact ⟨hdated, hfold⟩

end Book

end LinkShortener.Folding
