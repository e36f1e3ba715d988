import Mathlib.Algebra.Group.Nat.Defs
import Mathlib.Data.List.Sort
import LinkShortener.Lib.Run
import LinkShortener.Storage.Folding

/-!
# Security events

The two tables of the security events, `security_events` and `security_event_days`, and the chart that is read from them.

* `bucketsBetween`: a series for each event type, counted from the events, with the folded days laid over it.
* `step`: an event is recorded, the maintenance runs, or time passes.
-/

namespace LinkShortener.Security

open Folding

/-! ## Tables -/

/-- One recorded security event. -/
structure SecurityEvent where
  eventType : String
  occurredAt : Instant
  deriving DecidableEq, Repr

/-- The events of one type on one day. -/
structure EventsOnADay where
  day : Instant
  eventType : String
  total : Nat
  deriving DecidableEq, Repr

/-- The events of a type on a day are one row, whose primary key they are. -/
def layout (dialect : Dialect) : Layout SecurityEvent EventsOnADay String Nat where
  dialect := dialect
  key := (·.eventType)
  occurredAt := (·.occurredAt)
  weight _ := 1
  tally := List.length
  row eventType day total := ⟨day, eventType, total⟩
  rowKey := (·.eventType)
  rowDay := (·.day)
  rowTotal := (·.total)
  tally_eq es := by simp
  rowKey_row _ _ _ := rfl
  rowDay_row _ _ _ := rfl
  rowTotal_row _ _ _ := rfl

abbrev Tables (dialect : Dialect) := Folding.Tables (layout dialect)

section Statements

variable {dialect : Dialect}

def record (t : Tables dialect) (eventType : String) (occurredAt : Instant) : Tables dialect :=
  { t with raw := ⟨eventType, occurredAt⟩ :: t.raw }

/-! ## Reading -/

/-- A dictionary of series by event type. -/
abbrev Counted := Rows (Prod.fst : String × List Nat → String)

/-- The series of an event type, or one of zeros. -/
def seriesOf (counted : Counted) (buckets : Nat) (eventType : String) : List Nat :=
  ((counted.get eventType).map Prod.snd).getD (List.replicate buckets 0)

/-- Rewrite `counted.setdefault(event_type, [0] * buckets)`. -/
def rewriteSeries (counted : Counted) (buckets : Nat) (eventType : String) (f : List Nat → List Nat) : Counted :=
  counted.upsert (eventType, f (seriesOf counted buckets eventType))

/-- The events of a span, and how many of each type fell into each bucket. -/
def bucketCounts (t : Tables dialect) (since until_ : Instant) (width : Int) : List ((String × Int) × Nat) :=
  let events := t.raw.filter fun e => decide (since ≤ e.occurredAt) && decide (e.occurredAt < until_)
  let group (e : SecurityEvent) := (e.eventType, bucketIndex dialect since width e.occurredAt)
  (events.map group).dedup.map fun x => (x, (events.filter fun e => decide (group e = x)).length)

/-- One past the end is the last bucket; what is further off is not counted. -/
def addAt (buckets : Nat) (position : Int) (total : Nat) (row : List Nat) : List Nat :=
  if 0 ≤ position ∧ position < buckets then row.modify position.toNat (· + total)
  else if position = buckets then row.modify (buckets - 1) (· + total)
  else row

/-- The folded day totals inside a span, oldest first. -/
def dayTotalsBetween (t : Tables dialect) (since until_ : Instant) : List EventsOnADay :=
  (t.days.rows.filter fun r => decide (since ≤ r.day) && decide (r.day < until_)).insertionSort fun r r' => r.day ≤ r'.day

/-- Replace whole-day buckets with the folded totals for those days. -/
def layTheFoldedDaysOver (t : Tables dialect) (counted : Counted) (since : Instant) (width : Int) (buckets : Nat) :
    Counted :=
  if width ≠ DAY ∨ since ≠ midnightOf since then counted
  else
    (dayTotalsBetween t since (since + width * buckets * Link.second)).foldl (fun counted r =>
      let position := totalSeconds (r.day - since) / width
      if 0 ≤ position ∧ position < buckets then
        rewriteSeries counted buckets r.eventType (·.set position.toNat r.total)
      else counted) counted

/-- How many of each kind of event fell inside each interval of a span, the most frequent first. -/
def bucketsBetween (t : Tables dialect) (since until_ : Instant) (buckets : Int) : List (String × List Nat) :=
  if buckets < 1 then []
  else
    let width := max 1 (totalSeconds (until_ - since) / buckets)
    let counted := (bucketCounts t since until_ width).foldl (fun counted x =>
      rewriteSeries counted buckets.toNat x.1.1 (addAt buckets.toNat x.1.2 x.2)) Rows.empty
    (layTheFoldedDaysOver t counted since width buckets.toNat).rows.insertionSort fun p q => q.2.sum ≤ p.2.sum

/-! ## Maintenance -/

/-- Fold the days that are over; `none` when a row is there already and the transaction is rolled back. -/
def foldDaysBefore (t : Tables dialect) (day : Instant) : Option (Tables dialect) := foldDays t day

def deleteBefore (t : Tables dialect) (moment : Instant) : Tables dialect := Folding.deleteBefore t moment

/-- Fold the days that are over, then sweep what is past retention. -/
def rollUpSecurityEvents (t : Tables dialect) (now : Instant) (retentionDays : Int) : Tables dialect :=
  rollUp t now retentionDays

end Statements

/-! ## Histories -/

/-- The tables and the clock. `recorded` is no table: it remembers the events, folded and swept ones included. -/
structure State (dialect : Dialect) where
  tables : Tables dialect
  now : Instant
  recorded : List SecurityEvent

inductive Event
  | record (eventType : String)
  | rollUpSecurityEvents (retentionDays : Int)
  | tick (now : Instant)

def step {dialect : Dialect} (s : State dialect) : Event → Option (State dialect)
  | .record eventType =>
    some { s with tables := record s.tables eventType s.now, recorded := ⟨eventType, s.now⟩ :: s.recorded }
  | .rollUpSecurityEvents retentionDays =>
    some { s with tables := rollUpSecurityEvents s.tables s.now retentionDays }
  | .tick now => if s.now ≤ now then some { s with now := now } else none

end LinkShortener.Security
