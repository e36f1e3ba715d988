import LinkShortener.Lib.Run
import LinkShortener.Lib.Transactions
import LinkShortener.Links.Batch

/-!
# Link operations among each other

The `urls` table under READ COMMITTED, one shared cache and one clock, and the use cases on links step by step: a step is
one statement, one operation on the cache, or a commit. What a step computes from what it has read is what the use case
computes (`confirm`, `Link.firstLive`, `codeLadder`, `Resolution.round`); only that others step in between is new.

* `Row`: a row is filed under its own code. `Seen`: what one step sees.
* `Pc`: the point an operation has reached; `next`: its next step. An answered redirect goes on as its click task, if the
  queue has taken one.
* `step`: a step of the system, and `step_cases` what it can be. Any number of processes run any operations, and the
  clock does not go back.

Every operation on the cache succeeds and no entry runs out. A unit of work that is left without a commit rolls back.
Identifiers are drawn afresh, so that `DELETE … WHERE id` names the row of one code.
-/

namespace LinkShortener.Races

open ReadCommitted Transactions Links

/-! ## What a step sees -/

/-- A row of `urls`, under its code. -/
abbrev Row (c : ShortCode) : Type := { link : Link // link.shortCode = c }

/-- A link as the row under its code. -/
abbrev Row.own (link : Link) : Row link.shortCode := ⟨link, rfl⟩

/-- What one step sees. -/
structure Seen where
  row : (c : ShortCode) → Option (Row c)
  rows : List Link
  free : ShortCode → Bool
  cache : Cache
  now : Instant

namespace Seen

def link (v : Seen) (c : ShortCode) : Option Link := (v.row c).map Subtype.val

def countGuestLinksByIdentifier (v : Seen) (identifier : String) (sinceDays : Int) : Nat :=
  (v.rows.filter (Link.countsFor identifier (Link.windowStart v.now sinceDays))).length

end Seen

/-! ## Operations and the points they reach -/

/-- A use case on links. `enqueued` says whether the queue takes the click task of a redirect: its broker is backing off, or
publishing fails, or what was published is lost. What `_require_may_delete` answers for a link is `permitted`. -/
inductive Operation
  | redirectLink (c : ShortCode) (enqueued : Bool)
  | updateLinkStats (c : ShortCode)
  | getLinkInfo (c : ShortCode)
  | deleteLink (c : ShortCode) (permitted : Link → Bool)
  | createShortLink (q : Creation) (draws : Draws)
  | batchCreateLinks (q : Batch) (draws : Draws)
  | cleanExpiredLinks

inductive RedirectPc (c : ShortCode)
  | askRedirect
  | askCode
  | warm (link : Link)
  | askTable
  | fill (row : Row c)

inductive CountPc
  | update
  | commit
  | dropRedirect
  | dropCode
  | close

inductive DeletePc
  | find
  | remove (link : Link)
  | commit (link : Link)
  | drop (link : Link)
  | dropMissing
  | dropRedirect
  | close

/-- `deleted` are the links the sweep reports. -/
inductive SweepPc
  | begin
  | select (now : Instant) (deleted : List Link)
  | remove (now : Instant) (chunk deleted : List Link)
  | drop (deleted : List Link)

/-- One attempt to create a link. -/
structure Creating where
  q : Creation
  draws : Draws
  attempt : Nat

inductive CreatePc
  | askHash
  | confirm (cached : Link)
  | dropStale (cached : Link)
  | search
  | fillExisting (link : Link)
  | lock (guestId : String)
  | count (guestId : String)
  | pick (codes : List ShortCode)
  | build (code : ShortCode)
  | insert (link : Link)
  | commit (link : Link)
  | fillNew (link : Link)
  | close

/-- One attempt to create a batch. -/
structure Batching where
  q : Batch
  draws : Draws
  attempt : Nat

inductive BatchPc
  | askHashes
  | confirm (cached : List (UrlGroup × Option Link))
  | dropStale (stale : List Link) (missing : List UrlGroup)
  | search (missing : List UrlGroup)
  | lock (guestId : String) (groups : List UrlGroup)
  | count (guestId : String) (groups : List UrlGroup)
  | resolve (groups : List UrlGroup) (r : Resolution)
  | build (planned : List Planned) (links : List Link)
  | insert (done links : List Link)

inductive Pc
  | idle
  | redirect (c : ShortCode) (enqueued : Bool) (p : RedirectPc c)
  | count (c : ShortCode) (p : CountPc)
  | info (c : ShortCode)
  | delete (c : ShortCode) (permitted : Link → Bool) (p : DeletePc)
  | sweep (p : SweepPc)
  | create (j : Creating) (p : CreatePc)
  | batch (j : Batching) (p : BatchPc)

def Pc.isIdle : Pc → Bool
  | .idle => true
  | _ => false

theorem Pc.eq_idle {p : Pc} (h : p.isIdle = true) : p = .idle := by
  cases p with
  | idle => rfl
  | _ => cases h

/-- The first step of an operation. -/
def begin : Operation → Pc
  | .redirectLink c enqueued => .redirect c enqueued .askRedirect
  | .updateLinkStats c => .count c .update
  | .getLinkInfo c => .info c
  | .deleteLink c permitted => .delete c permitted .find
  | .createShortLink q draws => .create ⟨q, draws, 0⟩ .askHash
  | .batchCreateLinks q draws => .batch ⟨q, draws, 0⟩ .askHashes
  | .cleanExpiredLinks => .sweep .begin

abbrev Act := Action Int Row Cache Pc

/-! ## The next step -/

section Next

variable (svc : LinkServices) (lockKey : String → Int) (v : Seen)

/-- `_answer`: the click task, if it was enqueued. -/
def answer (c : ShortCode) (enqueued : Bool) : Pc := if enqueued then .count c .update else .idle

def nextRedirect (c : ShortCode) (enqueued : Bool) : RedirectPc c → Act
  | .askRedirect =>
    match v.cache.getRedirect svc.backend v.now c with
    | some entry => if entry.isExpired v.now then .goto .idle else .goto (answer c enqueued)
    | none => .goto (.redirect c enqueued .askCode)
  | .askCode =>
    match v.cache.getByCode svc.backend c with
    | some link => if link.isExpired v.now then .goto .idle else .goto (.redirect c enqueued (.warm link))
    | none => .goto (.redirect c enqueued .askTable)
  | .warm link => .touch (v.cache.saveRedirect svc.backend v.now c link.originalUrl link.expiresAt) (answer c enqueued)
  | .askTable =>
    match v.row c with
    | some row => if row.val.isExpired v.now then .goto .idle else .goto (.redirect c enqueued (.fill row))
    | none => .goto .idle
  | .fill row => .touch (v.cache.save svc.backend v.now row.val) (answer c enqueued)

/-- One more opening of a row. -/
def counted {c : ShortCode} (now : Instant) (row : Row c) : Row c :=
  ⟨{ row.val with clicks := row.val.clicks + 1, lastAccessed := some now }, row.property⟩

def nextCount (c : ShortCode) : CountPc → Act
  | .update =>
    match v.row c with
    | some row => .write c (some (counted v.now row)) (.count c .commit)
    | none => .goto (.count c .dropRedirect)
  | .commit => .commit .idle
  | .dropRedirect => .touch (v.cache.deleteRedirect svc.backend c) (.count c .dropCode)
  | .dropCode => .touch (v.cache.deleteByCode svc.backend c) (.count c .close)
  | .close => .rollback .idle

def nextDelete (c : ShortCode) (permitted : Link → Bool) : DeletePc → Act
  | .find =>
    match v.link c with
    | some link => if permitted link then .goto (.delete c permitted (.remove link)) else .rollback .idle
    | none => .goto (.delete c permitted .dropMissing)
  | .remove link =>
    -- The row is named by its identity: another link under the code is left alone.
    match v.link link.shortCode with
    | some l => if l.id = link.id then .write link.shortCode none (.delete c permitted (.commit link)) else .rollback .idle
    | none => .rollback .idle
  | .commit link => .commit (.delete c permitted (.drop link))
  | .drop link => .touch (v.cache.delete svc.backend link) (.delete c permitted .dropRedirect)
  | .dropMissing => .touch (v.cache.deleteByCode svc.backend c) (.delete c permitted .dropRedirect)
  | .dropRedirect => .touch (v.cache.deleteRedirect svc.backend c) (.delete c permitted .close)
  | .close => .rollback .idle

/-- `DELETE_CHUNK_SIZE`. -/
def deleteChunkSize : Nat := 500

def nextSweep : SweepPc → Act
  | .begin => .goto (.sweep (.select v.now []))
  | .select now deleted =>
    match (v.rows.filter (·.isExpired now)).take deleteChunkSize with
    | [] => .commit (.sweep (.drop deleted))
    | chunk => .goto (.sweep (.remove now chunk deleted))
  | .remove now [] deleted => .goto (.sweep (.select now deleted))
  | .remove now (link :: chunk) deleted =>
    -- A link that somebody else has deleted by now is reported all the same.
    match v.link link.shortCode with
    | some l =>
      if l.id = link.id then .write link.shortCode none (.sweep (.remove now chunk (deleted ++ [link])))
      else .goto (.sweep (.remove now chunk (deleted ++ [link])))
    | none => .goto (.sweep (.remove now chunk (deleted ++ [link])))
  | .drop [] => .goto .idle
  | .drop (link :: deleted) => .touch (v.cache.delete svc.backend link) (.sweep (.drop deleted))

/-- The codes an attempt tries: the one that was asked for, or the ladder. -/
def codesToTry (j : Creating) : List ShortCode :=
  match j.q.chosenCode with
  | some code => [code]
  | none => codeLadder svc j.q j.draws j.attempt

/-- Lost a race: roll back, and begin again while there are attempts left. -/
def retryCreate (j : Creating) : Act :=
  .rollback (if j.attempt + 1 < svc.maxCollisionAttempts then .create { j with attempt := j.attempt + 1 } .askHash else .idle)

/-- `INSERT`. A row that somebody else is writing under the code has to be waited for; one that is there is a conflict. -/
def insertRow (link : Link) (p : Pc) (conflict : Act) : Option Act :=
  match v.row link.shortCode with
  | none => some (.write link.shortCode (some (.own link)) p)
  | some _ => if v.free link.shortCode then some conflict else none

def nextCreate (j : Creating) : CreatePc → Option Act
  | .askHash =>
    match v.cache.getByHash svc.backend j.q.urlHash j.q.scope with
    | some cached => some (.goto (.create j (.confirm cached)))
    | none => some (.goto (.create j .search))
  | .confirm cached =>
    match confirm v.now v.link j.q.urlHash j.q.scope cached with
    | some _ => some (.goto (.create j .close))
    | none => some (.goto (.create j (.dropStale cached)))
  | .dropStale cached => some (.touch (v.cache.delete svc.backend cached) (.create j .search))
  | .search =>
    match Link.firstLive v.rows j.q.urlHash j.q.scope v.now with
    | some existing => some (.goto (.create j (.fillExisting existing)))
    | none =>
      match j.q.guestId with
      | some guestId => some (.goto (.create j (.lock guestId)))
      | none => some (.goto (.create j (.pick (codesToTry svc j))))
  | .fillExisting existing => some (.touch (v.cache.save svc.backend v.now existing) (.create j .close))
  | .lock guestId => some (.lock (lockKey guestId) (.create j (.count guestId)))
  | .count guestId =>
    if 0 < linksLeftForGuest (v.countGuestLinksByIdentifier guestId svc.guestLinkWindowDays) svc.guestLinkLimit then
      some (.goto (.create j (.pick (codesToTry svc j))))
    else some (.rollback .idle)
  | .pick [] => some (.rollback .idle)
  | .pick (code :: codes) =>
    match v.link code with
    | none => some (.goto (.create j (.build code)))
    | some _ => some (.goto (.create j (.pick codes)))
  | .build code =>
    match Link.create (j.draws.ids j.attempt) j.q.urlHash code j.q.originalUrl j.q.owner j.q.guestId j.q.ttlSeconds v.now with
    | .ok link => some (.goto (.create j (.insert link)))
    | .error _ => some (.rollback .idle)
  | .insert link => insertRow v link (.create j (.commit link)) (retryCreate svc j)
  | .commit link => some (.commit (.create j (.fillNew link)))
  | .fillNew link => some (.touch (v.cache.save svc.backend v.now link) .idle)
  | .close => some (.rollback .idle)

def retryBatch (j : Batching) : Act :=
  .rollback (if j.attempt + 1 < svc.maxCollisionAttempts then .batch { j with attempt := j.attempt + 1 } .askHashes else .idle)

/-- The search for codes begins with what the quota leaves. -/
def resolveFrom (j : Batching) (groups : List UrlGroup) : Pc := .batch j (.resolve groups (.start svc groups))

def nextBatch (j : Batching) : BatchPc → Option Act
  | .askHashes =>
    some (.goto (.batch j (.confirm (j.q.groups.map fun g => (g, v.cache.getByHash svc.backend g.hash j.q.scope)))))
  | .confirm cached =>
    some (.goto (.batch j (.dropStale (stale v.link j.q.scope v.now cached) (unconfirmed v.link j.q.scope v.now cached))))
  | .dropStale [] missing => some (.goto (.batch j (.search missing)))
  | .dropStale (link :: stale) missing =>
    some (.touch (v.cache.delete svc.backend link) (.batch j (.dropStale stale missing)))
  | .search missing =>
    let groups := toCreate (fun g => Link.firstLive v.rows g.hash j.q.scope v.now) missing
    match j.q.guestId with
    | some guestId => some (.goto (.batch j (.lock guestId groups)))
    | none => some (.goto (resolveFrom svc j groups))
  | .lock guestId groups => some (.lock (lockKey guestId) (.batch j (.count guestId groups)))
  | .count guestId groups =>
    let remaining :=
      linksLeftForGuest (v.countGuestLinksByIdentifier guestId svc.guestLinkWindowDays) svc.guestLinkLimit
    some (.goto (resolveFrom svc j (withinQuota (some remaining) groups)))
  | .resolve groups r =>
    match r.candidates with
    | [] => some (.goto (.batch j (.build (plan j.draws j.attempt groups r.resolved) [])))
    | _ => some (.goto (.batch j (.resolve groups (r.round svc j.draws j.attempt v.link))))
  | .build [] links => some (.goto (.batch j (.insert [] links)))
  | .build (p :: planned) links =>
    match p.create j.q v.now with
    | .ok link => some (.goto (.batch j (.build planned (links ++ [link]))))
    | .error _ => some (.rollback .idle)
  | .insert _ [] => some (.commit .idle)
  | .insert done (link :: links) => insertRow v link (.batch j (.insert (link :: done) links)) (retryBatch svc j)

/-- **The next step of an operation**; `none` when it has to wait, or is none. -/
def next : Pc → Option Act
  | .idle => none
  | .redirect c enqueued p => some (nextRedirect svc v c enqueued p)
  | .count c p => some (nextCount svc v c p)
  | .info _ => some (.goto .idle)
  | .delete c permitted p => some (nextDelete svc v c permitted p)
  | .sweep p => some (nextSweep svc v p)
  | .create j p => nextCreate svc lockKey v j p
  | .batch j p => nextBatch svc lockKey v j p

end Next

/-! ## The system -/

inductive Event (T : Type)
  /-- A process that has nothing to do begins an operation. -/
  | start (t : T) (op : Operation)
  /-- A process takes its next step. -/
  | step (t : T)
  /-- The clock moves on. -/
  | tick (now : Instant)

/-- The table, the holders of the guest locks, the cache and the processes, and the clock. -/
structure System (T : Type) where
  state : State T Int Row Cache Pc
  now : Instant

section System

variable {T : Type} [DecidableEq T]

def seenBy (s : System T) (t : T) : Seen where
  row := s.state.store.view t
  rows := s.state.store.keys.filterMap fun c => (s.state.store.view t c).map Subtype.val
  free := s.state.store.free t
  cache := s.state.mem
  now := s.now

/-- What a process does next. -/
def nextOf (svc : LinkServices) (lockKey : String → Int) (s : System T) (t : T) : Option Act :=
  next svc lockKey (seenBy s t) (s.state.procs t)

/-- **One step of the system.** -/
def step (svc : LinkServices) (lockKey : String → Int) (s : System T) : Event T → Option (System T)
  | .start t op =>
    match s.state.procs t with
    | .idle => (act s.state t (.goto (begin op))).map fun state => { s with state := state }
    | _ => none
  | .step t => ((nextOf svc lockKey s t).bind (act s.state t)).map fun state => { s with state := state }
  | .tick now => if s.now ≤ now then some { s with now := now } else none

/-- Nothing is under way. -/
structure AtRest (s : System T) : Prop where
  idle : ∀ t, s.state.procs t = .idle
  clean : ∀ t c, s.state.store.dirtyBy t c = none
  unlocked : ∀ l, s.state.locks l = none

/-- No links, an empty cache and nothing under way. -/
def System.empty (now : Instant) : System T :=
  ⟨⟨Store.load [] List.nodup_nil fun _ => none, fun _ => none, Cache.empty, fun _ => .idle⟩, now⟩

theorem atRest_empty (now : Instant) : AtRest (System.empty now : System T) := by
  refine ⟨fun _ => rfl, ?_, fun _ => rfl⟩
  intro t c
  exact Store.dirtyBy_load t c

/-- `n` steps of one process. -/
def steps (t : T) (n : Nat) : List (Event T) := List.replicate n (.step t)

theorem step_next {svc : LinkServices} {lockKey : String → Int} {s s' : System T} {t : T}
    (h : step svc lockKey s (.step t) = some s') :
    ∃ a, nextOf svc lockKey s t = some a ∧ act s.state t a = some s'.state := by
  obtain ⟨a, state, hnext, hact, rfl⟩ := take_some h
  exact ⟨a, hnext, hact⟩

/-- **What a step is**: an operation begins, a process takes its next step, or the clock moves on. -/
theorem step_cases {svc : LinkServices} {lockKey : String → Int} {s s' : System T} {e : Event T}
    (h : step svc lockKey s e = some s') :
    (∃ t op, s.state.procs t = .idle ∧ act s.state t (.goto (begin op)) = some s'.state ∧ s'.now = s.now) ∨
      (∃ t a, e = .step t ∧ nextOf svc lockKey s t = some a ∧ act s.state t a = some s'.state ∧ s'.now = s.now) ∨
      (s'.state = s.state ∧ s.now ≤ s'.now) := by
  cases e with
  | start t op =>
    simp only [step] at h
    split at h
    · rename_i hidle
      obtain ⟨state, hact, rfl⟩ := Option.map_eq_some_iff.mp h
      exact .inl ⟨t, op, hidle, hact, rfl⟩
    · cases h
  | step t =>
    obtain ⟨a, state, hnext, hact, rfl⟩ := take_some h
    exact .inr (.inl ⟨t, a, rfl, hnext, hact, rfl⟩)
  | tick now =>
    simp only [step] at h
    split at h
    · rename_i hle
      cases h
      exact .inr (.inr ⟨rfl, hle⟩)
    · cases h

end System

end LinkShortener.Races
