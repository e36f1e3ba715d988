import Mathlib.Algebra.Group.Prod
import Mathlib.Algebra.Group.Nat.Defs
import LinkShortener.Links.Deduplication
import LinkShortener.Storage.Folding

/-!
# Visits

The two tables of the visit statistics, `link_visits` and `link_visit_days`, and what is read and written of them.

* `rollUpDays`, `deleteRawBefore`: the two halves of `rollUpVisits`, the fold and the sweep, with the layout of the tables.
* `dailyTotals`: the daily chart, from the fold where it has the day and from the visits otherwise.
* `summary`: the visits of a span in equal intervals, from the visits alone.
* `updateLinkStats`: the click task, which counts an opening and records the visit behind it.
* `step`: one operation of the service. The visits and days of a link go with it.

What a visit says of the device and the network is read by no function here and left out.
-/

namespace LinkShortener.Visits

open Links Folding

/-! ## Tables -/

/-- One recorded opening of a link. -/
structure LinkVisit where
  linkId : Uuid
  occurredAt : Instant
  isBot : Bool
  deriving DecidableEq, Repr

/-- Visits to one link on one day. -/
structure VisitsOnADay where
  linkId : Uuid
  day : Instant
  total : Nat
  bots : Nat
  deriving DecidableEq, Repr

/-- How many visits, and how many of them by robots. -/
def counts (visits : List LinkVisit) : Nat × Nat := (visits.length, visits.countP (·.isBot))

theorem counts_eq (visits : List LinkVisit) :
    counts visits = (visits.map fun v => ((1, if v.isBot then 1 else 0) : Nat × Nat)).sum := by
  induction visits with
  | nil => rfl
  | cons v visits ih =>
    rw [List.map_cons, List.sum_cons, ← ih]
    unfold counts
    rw [List.length_cons, List.countP_cons, Nat.add_comm, Nat.add_comm (List.countP _ _)]
    rfl

/-- The visits of a link on a day are one row, whose primary key they are. -/
def layout (dialect : Dialect) : Layout LinkVisit VisitsOnADay Uuid (Nat × Nat) where
  dialect := dialect
  key := (·.linkId)
  occurredAt := (·.occurredAt)
  weight v := (1, if v.isBot then 1 else 0)
  tally := counts
  row linkId day n := ⟨linkId, day, n.1, n.2⟩
  rowKey := (·.linkId)
  rowDay := (·.day)
  rowTotal r := (r.total, r.bots)
  tally_eq := counts_eq
  rowKey_row _ _ _ := rfl
  rowDay_row _ _ _ := rfl
  rowTotal_row _ _ _ := rfl

abbrev Tables (dialect : Dialect) := Folding.Tables (layout dialect)

/-- One link, the links of one account, both, or neither. -/
structure Scope where
  linkId : Option Uuid
  ownerId : Option Uuid
  deriving DecidableEq, Repr

/-- The links a statement is narrowed to. -/
def Scope.admits (links : List Link) (scope : Scope) (id : Uuid) : Bool :=
  scope.linkId.all (fun linkId => decide (id = linkId)) &&
    scope.ownerId.all fun ownerId => links.any fun l => decide (l.id = id ∧ l.owner = some ownerId)

/-- One column of a chart. -/
structure VisitBucket where
  start : Instant
  total : Nat
  bots : Nat
  deriving DecidableEq, Repr

/-- What the statistics page shows for one span. Its breakdowns are queries of their own and left out. -/
structure VisitSummary where
  since : Instant
  until_ : Instant
  total : Nat
  bots : Nat
  buckets : List VisitBucket
  deriving DecidableEq, Repr

/-! ## Reading -/

section Reading

variable {dialect : Dialect} (t : Tables dialect) (admitted : Uuid → Bool)

/-- The visits of a span, and how many fell into each bucket. -/
def bucketCounts (since until_ : Instant) (width : Int) : List (Int × Nat × Nat) :=
  let visits := t.raw.filter fun v =>
    decide (since ≤ v.occurredAt) && decide (v.occurredAt < until_) && admitted v.linkId
  (visits.map fun v => bucketIndex dialect since width v.occurredAt).dedup.map fun i =>
    (i, counts (visits.filter fun v => decide (bucketIndex dialect since width v.occurredAt = i)))

/-- What falls off an edge is counted in the bucket at the edge. -/
def clamped (counted : List (Int × Nat × Nat)) (buckets : Nat) (slot : Nat) : Nat × Nat :=
  ((counted.filter fun x => decide (min (max x.1 0) ((buckets : Int) - 1) = slot)).map (·.2)).sum

/-- The visits of a span, in so many equal intervals. -/
def summary (links : List Link) (since until_ : Instant) (buckets : Int) (scope : Scope) : VisitSummary :=
  let buckets := (max 1 buckets).toNat
  let span := max 1 (totalSeconds (until_ - since))
  let width := max 1 (span / buckets)
  let counted := clamped (bucketCounts t (scope.admits links) since until_ width) buckets
  let series := (List.range buckets).map fun index : Nat =>
    (⟨since + index * width * Link.second, (counted index).1, (counted index).2⟩ : VisitBucket)
  ⟨since, until_, (series.map (·.total)).sum, (series.map (·.bots)).sum, series⟩

/-- The folded totals of a day, if there are any in question. -/
def rolledTotals (since until_ day : Instant) : Option (Nat × Nat) :=
  match t.days.rows.filter fun r =>
    decide (since ≤ r.day) && decide (r.day < until_) && admitted r.linkId && decide (r.day = day) with
  | [] => none
  | rows => some ((rows.map (·.total)).sum, (rows.map (·.bots)).sum)

/-- Visits per day. -/
def dailyTotals (links : List Link) (since until_ : Instant) (scope : Scope) : List VisitBucket :=
  let start := midnightOf since
  let days := max 1 ((until_ - start + (dayLength - 1)) / dayLength).toNat
  let raw := bucketCounts t (scope.admits links) start until_ DAY
  (List.range days).map fun index : Nat =>
    let day := start + (index : Int) * dayLength
    match rolledTotals t (scope.admits links) start until_ day with
    | some (total, bots) => ⟨day, total, bots⟩
    | none => ⟨day, (clamped raw days index).1, (clamped raw days index).2⟩

end Reading

/-! ## Maintenance -/

section Maintenance

variable {dialect : Dialect} (t : Tables dialect)

/-- Fold whole days; `none` when a row is there already and the transaction is rolled back. -/
def rollUpDays (before : Instant) : Option (Tables dialect) := foldDays t before

def deleteRawBefore (cutoff : Instant) : Tables dialect := deleteBefore t cutoff

/-- Fold the days that are over, then sweep what is past retention. -/
def rollUpVisits (now : Instant) (retentionDays : Int) : Tables dialect := rollUp t now retentionDays

end Maintenance

/-! ## Histories -/

/-- The links, the tables of the visits, and the clock. `recorded` is no table: it remembers the visits of the links that
are there, folded and swept ones included. -/
structure State (dialect : Dialect) where
  service : Links.State
  tables : Tables dialect
  recorded : List LinkVisit

namespace State

variable {dialect : Dialect} (s : State dialect)

def db : Db := s.service.world.db

def now : Instant := s.service.now

end State

def hasLink (db : Db) (id : Uuid) : Bool := db.links.rows.any fun l => decide (l.id = id)

inductive Event
  /-- Any operation on links and accounts, and whatever happens between two; a redirect leaves the click task behind. -/
  | service (e : Links.Event)
  | updateLinkStats (code : String) (isBot : Bool)
  | rollUpVisits (retentionDays : Int)

/-- One operation on links and accounts. -/
def serviceStep (svc : LinkServices) (accounts : Services) (s : Links.State) : Links.Event → Option Links.State
  | .redirectLink code _ => some { s with world := (redirectLink svc.backend s.world s.now code).1 }
  | e => anyStep svc accounts s e

/-- The visit the click task records, with the link it has found. -/
def visitOf (db : Db) (code : String) (now : Instant) (isBot : Bool) : Option LinkVisit :=
  match ShortCode.parse code with
  | .error _ => none
  | .ok c => do
    let db' ← db.incrementClicks c now
    let link ← db'.findByCode c
    return ⟨link.id, now, isBot⟩

section Operations

variable {dialect : Dialect}

/-- The click task: count an opening and record the visit. -/
def updateLinkStats (b : Backend) (s : State dialect) (code : String) (isBot : Bool) : State dialect :=
  let visit := visitOf s.db code s.now isBot
  { service := { s.service with world := Links.updateLinkStats b s.service.world s.now code }
    tables := { s.tables with raw := visit.toList ++ s.tables.raw }
    recorded := visit.toList ++ s.recorded }

/-- One operation, from beginning to end. -/
def step (svc : LinkServices) (accounts : Services) (s : State dialect) : Event → Option (State dialect)
  | .service e => do
    let service ← serviceStep svc accounts s.service e
    let there := hasLink service.world.db
    return ⟨service, cascade s.tables there, s.recorded.filter fun v => there v.linkId⟩
  | .updateLinkStats code isBot => some (updateLinkStats svc.backend s code isBot)
  | .rollUpVisits retentionDays => some { s with tables := rollUpVisits s.tables s.now retentionDays }

end Operations

end LinkShortener.Visits
