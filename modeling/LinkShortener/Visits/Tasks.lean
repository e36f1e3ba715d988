import LinkShortener.Races.Model
import LinkShortener.Visits.Charts

/-!
# The click task and the maintenance among each other

The tables `urls`, `link_visits` and `link_visit_days` under READ COMMITTED, in PostgreSQL, and one clock, and the two tasks
on them step by step: a step is one statement, a reading of the clock, or a commit.

* `Pc`: the point a task has reached; `next`: its next step. The visit is stamped before the transaction that records it
  commits; the fold reads the last day and the visits in two statements and writes its rows one by one.
* `step`: a step of the system. Any number of processes run the tasks any number of times, and the clock does not go back.

A unit of work that is left without a commit rolls back, and a fold that is refused does not sweep.
-/

namespace LinkShortener.VisitTasks

open ReadCommitted Transactions Folding Links
open Visits (LinkVisit VisitsOnADay)

/-! ## Rows -/

abbrev layout := Visits.layout .postgresql

/-- A row is filed under its primary key; a link under its code. -/
inductive Key
  | link (c : ShortCode)
  | visit (id : Uuid)
  | day (linkId : Uuid) (day : Instant)
  deriving DecidableEq

/-- What is stored under a key; of a day, how many visits there were and how many of them by robots. -/
abbrev Value : Key → Type
  | .link c => Races.Row c
  | .visit _ => LinkVisit
  | .day _ _ => Nat × Nat

def linkOf : (k : Key) × Value k → Option Link
  | ⟨.link _, row⟩ => some row.val
  | _ => none

def visitOf : (k : Key) × Value k → Option (Uuid × LinkVisit)
  | ⟨.visit id, visit⟩ => some (id, visit)
  | _ => none

def dayOfRow : (k : Key) × Value k → Option VisitsOnADay
  | ⟨.day linkId day, n⟩ => some ⟨linkId, day, n.1, n.2⟩
  | _ => none

/-- What one step sees. -/
structure Seen where
  row : (k : Key) → Option (Value k)
  rows : List ((k : Key) × Value k)
  free : Key → Bool
  now : Instant

namespace Seen

variable (v : Seen)

def visits : List (Uuid × LinkVisit) := v.rows.filterMap visitOf

def days : List VisitsOnADay := v.rows.filterMap dayOfRow

end Seen

/-! ## Operations and the points they reach -/

inductive Operation
  /-- `id` is the identifier the visit is given. -/
  | updateLinkStats (c : ShortCode) (id : Uuid) (isBot : Bool)
  | rollUpVisits (retentionDays : Int)

inductive StatsPc
  | update
  | find
  | record (link : Link)
  | insert (visit : LinkVisit)
  | commit (visit : Option LinkVisit)

/-- `done` are the rows that have been written, or deleted. -/
inductive RollUpPc
  | begin
  | latest (today : Instant)
  | group (today : Instant) (since : Option Instant)
  | insert (today : Instant) (done rest : List VisitsOnADay)
  | sweep (cutoff : Instant)
  | delete (cutoff : Instant) (done rest : List Uuid)

inductive Pc
  | idle
  | stats (c : ShortCode) (id : Uuid) (isBot : Bool) (p : StatsPc)
  | rollUp (retentionDays : Int) (p : RollUpPc)

def Pc.isIdle : Pc → Bool
  | .idle => true
  | _ => false

/-- The first step of an operation. -/
def begin : Operation → Pc
  | .updateLinkStats c id isBot => .stats c id isBot .update
  | .rollUpVisits retentionDays => .rollUp retentionDays .begin

abbrev Act := Action Empty Value Unit Pc

/-! ## The next step -/

section Next

variable (v : Seen)

/-- `INSERT`. A row that somebody else is writing under the key has to be waited for; one that is there is a conflict. -/
def insertRow (k : Key) (row : Value k) (p : Pc) : Option Act :=
  match v.row k with
  | none => some (.write k (some row) p)
  | some _ => if v.free k then some (.rollback .idle) else none

def nextStats (c : ShortCode) (id : Uuid) (isBot : Bool) : StatsPc → Option Act
  | .update =>
    match v.row (.link c) with
    | some row => some (.write (.link c) (some (Races.counted v.now row)) (.stats c id isBot .find))
    | none => some (.rollback .idle)
  | .find =>
    match v.row (.link c) with
    | some row => some (.goto (.stats c id isBot (.record row.val)))
    | none => some (.goto (.stats c id isBot (.commit none)))
  | .record link => some (.goto (.stats c id isBot (.insert ⟨link.id, v.now, isBot⟩)))
  | .insert visit => insertRow v (.visit id) visit (.stats c id isBot (.commit (some visit)))
  | .commit _ => some (.commit .idle)

def nextRollUp (retentionDays : Int) : RollUpPc → Option Act
  | .begin => some (.goto (.rollUp retentionDays (.latest (midnightOf v.now))))
  | .latest today => some (.goto (.rollUp retentionDays (.group today (firstUnfoldedDay layout v.days))))
  | .group today since =>
    some (.goto (.rollUp retentionDays
      (.insert today [] (dayRows layout (toFold layout (v.visits.map Prod.snd) today since)))))
  | .insert today done (r :: rest) =>
    insertRow v (.day r.linkId r.day) (r.total, r.bots) (.rollUp retentionDays (.insert today (r :: done) rest))
  | .insert today _ [] =>
    some (.commit (if 0 < retentionDays then .rollUp retentionDays (.sweep (today - retentionDays * dayLength)) else .idle))
  | .sweep cutoff =>
    some (.goto (.rollUp retentionDays
      (.delete cutoff [] ((v.visits.filter fun x => decide (x.2.occurredAt < cutoff)).map Prod.fst))))
  | .delete cutoff done (id :: rest) =>
    -- A row that another sweep has deleted by now is passed over.
    match v.row (.visit id) with
    | some visit =>
      if visit.occurredAt < cutoff then
        some (.write (.visit id) none (.rollUp retentionDays (.delete cutoff (id :: done) rest)))
      else some (.goto (.rollUp retentionDays (.delete cutoff done rest)))
    | none => some (.goto (.rollUp retentionDays (.delete cutoff done rest)))
  | .delete _ _ [] => some (.commit .idle)

/-- **The next step of a task**; `none` when it has to wait, or is none. -/
def next : Pc → Option Act
  | .idle => none
  | .stats c id isBot p => nextStats v c id isBot p
  | .rollUp retentionDays p => nextRollUp v retentionDays p

end Next

/-! ## The system -/

inductive Event (T : Type)
  /-- A process that has nothing to do begins an operation. -/
  | start (t : T) (op : Operation)
  /-- A process takes its next step. -/
  | step (t : T)
  /-- The clock moves on. -/
  | tick (now : Instant)

/-- The tables and the processes, and the clock. `recorded` is no table: it remembers the visits whose transactions have
committed, folded and swept ones included. -/
structure System (T : Type) where
  state : State T Empty Value Unit Pc
  now : Instant
  recorded : List LinkVisit

/-- The visit that the next commit of a task publishes. -/
def Pc.publishes : Pc → List LinkVisit
  | .stats _ _ _ (.commit visit) => visit.toList
  | _ => []

section System

variable {T : Type} [DecidableEq T]

def seenBy (s : System T) (t : T) : Seen where
  row := s.state.store.view t
  rows := s.state.store.rowsBy (s.state.store.view t)
  free := s.state.store.free t
  now := s.now

/-- What a process does next. -/
def nextOf (s : System T) (t : T) : Option Act := next (seenBy s t) (s.state.procs t)

/-- **One step of the system.** -/
def step (s : System T) : Event T → Option (System T)
  | .start t op =>
    match s.state.procs t with
    | .idle => (act s.state t (.goto (begin op))).map fun state => { s with state := state }
    | _ => none
  | .step t => ((nextOf s t).bind (act s.state t)).map fun state =>
    { s with state := state, recorded := (s.state.procs t).publishes ++ s.recorded }
  | .tick now => if s.now ≤ now then some { s with now := now } else none

/-- **What a step is**: an operation begins, a process takes its next step, or the clock moves on. -/
theorem step_cases {s s' : System T} {e : Event T} (h : step s e = some s') :
    (∃ t op, s.state.procs t = .idle ∧ act s.state t (.goto (begin op)) = some s'.state ∧ s'.now = s.now ∧
      s'.recorded = s.recorded) ∨
      (∃ t a, e = .step t ∧ nextOf s t = some a ∧ act s.state t a = some s'.state ∧ s'.now = s.now ∧
        s'.recorded = (s.state.procs t).publishes ++ s.recorded) ∨
      (s'.state = s.state ∧ s.now ≤ s'.now ∧ s'.recorded = s.recorded) := by
  cases e with
  | start t op =>
    simp only [step] at h
    split at h
    · rename_i hidle
      obtain ⟨state, hact, rfl⟩ := Option.map_eq_some_iff.mp h
      exact .inl ⟨t, op, hidle, hact, rfl, rfl⟩
    · cases h
  | step t =>
    obtain ⟨a, state, hnext, hact, rfl⟩ := take_some h
    exact .inr (.inl ⟨t, a, rfl, hnext, hact, rfl, rfl⟩)
  | tick now =>
    simp only [step] at h
    split at h
    · rename_i hle
      cases h
      exact .inr (.inr ⟨rfl, hle, rfl⟩)
    · cases h

end System

/-! ## The tables -/

section Tables

variable {T : Type}

/-- The rows that are committed. -/
def committedRows (s : System T) : List ((k : Key) × Value k) := s.state.store.rowsBy s.state.store.committed

theorem mem_committedRows {s : System T} {k : Key} {row : Value k} :
    ⟨k, row⟩ ∈ committedRows s ↔ s.state.store.committed k = some row :=
  Store.mem_committedRows

theorem nodup_committedRows (s : System T) : ((committedRows s).map Sigma.fst).Nodup := Store.nodup_rowsBy

def links (s : System T) : List Link := (committedRows s).filterMap linkOf

def visitRows (s : System T) : List (Uuid × LinkVisit) := (committedRows s).filterMap visitOf

def days (s : System T) : List VisitsOnADay := (committedRows s).filterMap dayOfRow

theorem mem_visitRows {s : System T} {id : Uuid} {visit : LinkVisit} :
    (id, visit) ∈ visitRows s ↔ s.state.store.committed (.visit id) = some visit := by
  rw [← mem_committedRows, visitRows, List.mem_filterMap]
  constructor
  · rintro ⟨⟨k, row⟩, hin, heq⟩
    cases k with
    | visit id' =>
      cases heq
      exact hin
    | link c => cases heq
    | day linkId day => cases heq
  · intro hin
    exact ⟨_, hin, rfl⟩

theorem mem_days {s : System T} {r : VisitsOnADay} :
    r ∈ days s ↔ s.state.store.committed (.day r.linkId r.day) = some (r.total, r.bots) := by
  rw [← mem_committedRows, days, List.mem_filterMap]
  constructor
  · rintro ⟨⟨k, row⟩, hin, heq⟩
    cases k with
    | day linkId day =>
      cases heq
      exact hin
    | link c => cases heq
    | visit id => cases heq
  · intro hin
    exact ⟨_, hin, rfl⟩

theorem nodup_visitRows (s : System T) : (visitRows s).Nodup := by
  refine (nodup_committedRows s).of_map.filterMap ?_
  rintro ⟨k, row⟩ ⟨k', row'⟩ x hx hx'
  cases k with
  | visit id =>
    cases hx
    cases k' with
    | visit id' =>
      cases hx'
      rfl
    | link c => cases hx'
    | day linkId day => cases hx'
  | link c => cases hx
  | day linkId day => cases hx

theorem nodup_days (s : System T) : ((days s).map layout.dayKey).Nodup := by
  refine List.Nodup.map_on ?_ ?_
  · intro r hr r' hr' hkey
    have hlink : r.linkId = r'.linkId := congrArg Prod.fst hkey
    have hday : r.day = r'.day := congrArg Prod.snd hkey
    have hrow := mem_days.mp hr
    have hrow' := mem_days.mp hr'
    rw [← hlink, ← hday, hrow] at hrow'
    obtain ⟨linkId, day, total, bots⟩ := r
    obtain ⟨linkId', day', total', bots'⟩ := r'
    cases hlink
    cases hday
    cases hrow'
    rfl
  · refine (nodup_committedRows s).of_map.filterMap ?_
    rintro ⟨k, row⟩ ⟨k', row'⟩ x hx hx'
    cases k with
    | day linkId day =>
      obtain ⟨total, bots⟩ := row
      cases hx
      cases k' with
      | day linkId' day' =>
        obtain ⟨total', bots'⟩ := row'
        cases hx'
        rfl
      | link c => cases hx'
      | visit id => cases hx'
    | link c => cases hx
    | visit id => cases hx

/-- The two tables of the statistics, as they are committed. -/
def tables (s : System T) : Visits.Tables .postgresql := ⟨(visitRows s).map Prod.snd, ⟨days s, nodup_days s⟩⟩

end Tables

end LinkShortener.VisitTasks
