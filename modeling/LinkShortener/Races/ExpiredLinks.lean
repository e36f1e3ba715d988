import LinkShortener.Lib.Statements
import LinkShortener.Races.Writes

/-!
# Expired links are not served

A redirect is answered by the redirect entry of the cache, by the cached link, or by the row; each says for itself when
the link expires, and each is asked before it answers. The entries are written by creations and redirects from what they
have read or stored, so what an entry says is what the link was stored with, however the operations interleave.

The cache is here allowed to fail. An entry may run out or be evicted at any moment (`Happening.lapse`), which covers
every lifetime a backend gives it, and an operation may find the cache unreachable (`Happening.fault`): what it asks for
is a miss, and what it writes is lost.

* `Watched`: the system, with the versions of links that have been committed, the moments of the last checks, and the
  answers that were given. `watch` is one step of it.
* `Known`: a URL and an expiry some link was stored with under a code.
* `Sourced`: everything that can answer is known, and what is about to answer was live when it was checked.
* `expired_links_are_not_served`: the result.
-/

namespace LinkShortener.Races

open ReadCommitted Transactions Links Runs

/-! ## What is watched -/

/-- An answer to a redirect: what it was taken from, and the moment its expiry was checked. -/
structure Answer where
  source : CachedRedirect
  checkedAt : Instant
  deriving DecidableEq

structure Watched (T : Type) where
  sys : System T
  stored : List Link
  checkedAt : T → Instant
  answers : List Answer

/-- A redirect looks something up and checks its expiry. -/
def asks : Pc → Bool
  | .redirect _ _ .askRedirect | .redirect _ _ .askCode | .redirect _ _ .askTable => true
  | _ => false

/-- The URL a step of a redirect returns, with the code and the expiry it came with. -/
def returned (b : Backend) (v : Seen) : Pc → Option CachedRedirect
  | .redirect c _ .askRedirect =>
    match v.cache.getRedirect b v.now c with
    | some entry => if entry.isExpired v.now then none else some ⟨c, entry.originalUrl, entry.expiresAt⟩
    | none => none
  | .redirect c _ (.warm link) => some ⟨c, link.originalUrl, link.expiresAt⟩
  | .redirect c _ (.fill row) => some ⟨c, row.val.originalUrl, row.val.expiresAt⟩
  | _ => none

inductive Happening (T : Type)
  | event (e : Event T)
  /-- Entries run out or are evicted. -/
  | lapse (codes : ShortCode → Bool) (hashes : String → DedupScope → Bool) (redirects : ShortCode → Bool)
  /-- A process takes its next step, and the cache cannot be reached. -/
  | fault (t : T)

section Watch

variable {T : Type} [DecidableEq T]

/-- The system with another cache. -/
def System.withCache (s : System T) (cache : Cache) : System T := { s with state := { s.state with mem := cache } }

/-- The links a process is about to publish. -/
def published (s : System T) (t : T) : List Link :=
  s.state.store.keys.filterMap fun c => (s.state.store.dirtyBy t c).join.map Subtype.val

def commits : Act → Bool
  | .commit _ => true
  | _ => false

/-- What a step of `t` from `s` to `s'` adds to the record. -/
def observe (svc : LinkServices) (lockKey : String → Int) (w : Watched T) (t : T) (s s' : System T) : Watched T :=
  let checkedAt := if asks (s.state.procs t) then Function.update w.checkedAt t s.now else w.checkedAt
  { sys := s'
    stored := if (nextOf svc lockKey s t).any commits then published s t ++ w.stored else w.stored
    checkedAt := checkedAt
    answers := match returned svc.backend (seenBy s t) (s.state.procs t) with
      | some source => ⟨source, checkedAt t⟩ :: w.answers
      | none => w.answers }

/-- **One step.** -/
def watch (svc : LinkServices) (lockKey : String → Int) (w : Watched T) : Happening T → Option (Watched T)
  | .event (.step t) => (step svc lockKey w.sys (.step t)).map (observe svc lockKey w t w.sys)
  | .event e => (step svc lockKey w.sys e).map fun s' => { w with sys := s' }
  | .lapse codes hashes redirects =>
    some { w with sys := w.sys.withCache (w.sys.state.mem.evict codes hashes redirects) }
  | .fault t =>
    let s := w.sys.withCache .empty
    (step svc lockKey s (.step t)).map fun s' => observe svc lockKey w t s (s'.withCache w.sys.state.mem)

/-- No links, an empty cache, nothing under way and nothing answered. -/
def Watched.empty (now : Instant) : Watched T := ⟨System.empty now, [], fun _ => now, []⟩

end Watch

/-! ## Where answers come from -/

/-- A link was stored under the code with this URL and this expiry. -/
def Known (stored : List Link) (c : ShortCode) (url : String) (expiresAt : Option Instant) : Prop :=
  ∃ link ∈ stored, link.shortCode = c ∧ link.originalUrl = url ∧ link.expiresAt = expiresAt

theorem Known.mono {stored stored' : List Link} {c : ShortCode} {url : String} {expiresAt : Option Instant}
    (h : Known stored c url expiresAt) (hsub : stored ⊆ stored') : Known stored' c url expiresAt := by
  obtain ⟨link, hlink, hsame⟩ := h
  exact ⟨link, hsub hlink, hsame⟩

/-- What an operation carries at its point: a redirect what it is about to answer, which was live when it was checked,
and a creation what it is about to publish or to write to the cache. -/
def Carries (stored : List Link) (checkedAt : Instant) (dirty : (c : ShortCode) → Option (Option (Row c))) : Pc → Prop
  | .redirect c _ (.warm link) =>
    Known stored c link.originalUrl link.expiresAt ∧ expiredAt checkedAt link.expiresAt = false
  | .redirect c _ (.fill row) =>
    Known stored c row.val.originalUrl row.val.expiresAt ∧ expiredAt checkedAt row.val.expiresAt = false
  | .create _ (.fillExisting link) => Known stored link.shortCode link.originalUrl link.expiresAt
  | .create _ (.commit link) => dirty link.shortCode = some (some (.own link))
  | .create _ (.fillNew link) => Known stored link.shortCode link.originalUrl link.expiresAt
  | _ => True

section Carries

variable {stored stored' : List Link} {checkedAt : Instant} {dirty dirty' : (c : ShortCode) → Option (Option (Row c))}

theorem Carries.mono {p : Pc} (h : Carries stored checkedAt dirty p) (hsub : stored ⊆ stored')
    (hdirty : ∀ c, dirty' c = dirty c) : Carries stored' checkedAt dirty' p := by
  have hsame : dirty' = dirty := funext hdirty
  subst hsame
  unfold Carries at h ⊢
  split
  · exact ⟨h.1.mono hsub, h.2⟩
  · exact ⟨h.1.mono hsub, h.2⟩
  · exact h.mono hsub
  · exact h
  · exact h.mono hsub
  · trivial

/-- Points at which an operation carries nothing. -/
def emptyHanded : Pc → Bool
  | .redirect _ _ (.warm _) | .redirect _ _ (.fill _) => false
  | .create _ (.fillExisting _) | .create _ (.commit _) | .create _ (.fillNew _) => false
  | _ => true

theorem emptyHanded_answer (c : ShortCode) (enqueued : Bool) : emptyHanded (answer c enqueued) = true := by
  cases enqueued <;> rfl

theorem carries_of_emptyHanded {p : Pc} (h : emptyHanded p = true) : Carries stored checkedAt dirty p := by
  unfold Carries
  split <;> trivial

end Carries

/-- **Everything that can answer is known**, and every answer that was given is, and was live. -/
structure Sourced {T : Type} [DecidableEq T] (w : Watched T) : Prop where
  written : Written Wrote w.sys.state
  rows : ∀ c row, w.sys.state.store.committed c = some row → Known w.stored c row.val.originalUrl row.val.expiresAt
  cache : w.sys.state.mem.Vouches (Known w.stored)
  procs : ∀ t, Carries w.stored (w.checkedAt t) (w.sys.state.store.dirtyBy t) (w.sys.state.procs t)
  answers : ∀ answer ∈ w.answers, expiredAt answer.checkedAt answer.source.expiresAt = false ∧
    Known w.stored answer.source.shortCode answer.source.originalUrl answer.source.expiresAt

section Steps

variable {T : Type} [DecidableEq T] {svc : LinkServices} {lockKey : String → Int} {w w' : Watched T} {s' : System T}
  {t : T}

/-! ## What a step has to show -/

/-- What a step carries on, whatever it has written by then, and what it leaves cached. -/
def CarriesOn (stored : List Link) (checkedAt : Instant) (published : List Link) : Act → Prop
  | .goto p | .lock _ p | .rollback p => ∀ dirty, Carries stored checkedAt dirty p
  | .write c v p => ∀ dirty, dirty c = some v → Carries stored checkedAt dirty p
  | .touch cache p => cache.Vouches (Known stored) ∧ ∀ dirty, Carries stored checkedAt dirty p
  | .commit p => ∀ dirty, Carries (published ++ stored) checkedAt dirty p

/-- Steps that do not touch the cache. -/
def sparesCache : Act → Bool
  | .touch _ _ => false
  | _ => true

theorem carriesOn_of_emptyHanded {stored published : List Link} {checkedAt : Instant} {a : Act}
    (hp : emptyHanded a.point = true) (ha : sparesCache a = true) : CarriesOn stored checkedAt published a := by
  cases a with
  | touch cache p => cases ha
  | write c v p => exact fun _ _ => carries_of_emptyHanded hp
  | goto p => exact fun _ => carries_of_emptyHanded hp
  | lock l p => exact fun _ => carries_of_emptyHanded hp
  | rollback p => exact fun _ => carries_of_emptyHanded hp
  | commit p => exact fun _ => carries_of_emptyHanded hp

theorem carriesOn_touch {stored published : List Link} {checkedAt : Instant} {cache : Cache} {p : Pc}
    (hp : emptyHanded p = true) (hcache : cache.Vouches (Known stored)) :
    CarriesOn stored checkedAt published (.touch cache p) := ⟨hcache, fun _ => carries_of_emptyHanded hp⟩

/-- Dropping a link from the cache leaves what was known. -/
theorem vouches_delete {P : ShortCode → String → Option Instant → Prop} {b : Backend} {cache : Cache}
    (h : cache.Vouches P) (link : Link) : (cache.delete b link).Vouches P := by
  by_cases hb : b = .null
  · subst hb
    exact h
  · exact (h.delete hb link).mono fun _ _ _ hp => hp.1

theorem vouches_deleteByCode {P : ShortCode → String → Option Instant → Prop} {b : Backend} {cache : Cache}
    (h : cache.Vouches P) (c : ShortCode) : (cache.deleteByCode b c).Vouches P := by
  by_cases hb : b = .null
  · subst hb
    exact h
  · exact (h.deleteByCode hb).mono fun _ _ _ hp => hp.1

/-! ## The operations -/

section Operations

variable {checkedAt : Instant}

/-- What a redirect has found is known, and it has just been checked. -/
theorem carriesOn_redirect (hw : Sourced w) {c : ShortCode} {enqueued : Bool} {p : RedirectPc c}
    (hp : w.sys.state.procs t = .redirect c enqueued p)
    (hchecked : asks (.redirect c enqueued p) = true → checkedAt = w.sys.now) :
    CarriesOn w.stored checkedAt (published w.sys t) (nextRedirect svc (seenBy w.sys t) c enqueued p) := by
  cases p with
  | askRedirect =>
    simp only [nextRedirect]
    split
    · split
      · exact carriesOn_of_emptyHanded rfl rfl
      · exact carriesOn_of_emptyHanded (emptyHanded_answer c enqueued) rfl
    · exact carriesOn_of_emptyHanded rfl rfl
  | askCode =>
    simp only [nextRedirect]
    split
    · rename_i link hlink
      split
      · exact carriesOn_of_emptyHanded rfl rfl
      · rename_i hlive
        intro dirty
        refine ⟨hw.cache.byCode c link (Cache.getByCode_some hlink).2, ?_⟩
        rw [hchecked rfl, ← Link.isExpired_eq]
        exact Bool.eq_false_iff.mpr hlive
    · exact carriesOn_of_emptyHanded rfl rfl
  | warm link =>
    refine carriesOn_touch (emptyHanded_answer c enqueued) (hw.cache.saveRedirect ?_)
    have hcarries := hw.procs t
    rw [hp] at hcarries
    exact hcarries.1
  | askTable =>
    have hq : Quiet (w.sys.state.procs t) := by
      rw [hp]
      exact ⟨rfl, rfl, rfl⟩
    simp only [nextRedirect]
    split
    · rename_i row hrow
      split
      · exact carriesOn_of_emptyHanded rfl rfl
      · rename_i hlive
        intro dirty
        refine ⟨hw.rows c row ((hq.view hw.written c).symm.trans hrow), ?_⟩
        rw [hchecked rfl, ← Link.isExpired_eq]
        exact Bool.eq_false_iff.mpr hlive
    · exact carriesOn_of_emptyHanded rfl rfl
  | fill row =>
    refine carriesOn_touch (emptyHanded_answer c enqueued) (hw.cache.save ?_)
    have hcarries := hw.procs t
    rw [hp] at hcarries
    rw [row.property]
    exact hcarries.1

theorem carriesOn_count (hw : Sourced w) {c : ShortCode} {p : CountPc} :
    CarriesOn w.stored checkedAt (published w.sys t) (nextCount svc (seenBy w.sys t) c p) := by
  cases p with
  | update =>
    simp only [nextCount]
    split <;> exact carriesOn_of_emptyHanded rfl rfl
  | commit => exact carriesOn_of_emptyHanded rfl rfl
  | dropRedirect => exact carriesOn_touch rfl hw.cache.deleteRedirect
  | dropCode => exact carriesOn_touch rfl (vouches_deleteByCode hw.cache c)
  | close => exact carriesOn_of_emptyHanded rfl rfl

theorem carriesOn_delete (hw : Sourced w) {c : ShortCode} {permitted : Link → Bool} {p : DeletePc} :
    CarriesOn w.stored checkedAt (published w.sys t) (nextDelete svc (seenBy w.sys t) c permitted p) := by
  cases p with
  | find =>
    simp only [nextDelete]
    split
    · split <;> exact carriesOn_of_emptyHanded rfl rfl
    · exact carriesOn_of_emptyHanded rfl rfl
  | remove link =>
    simp only [nextDelete]
    split
    · split <;> exact carriesOn_of_emptyHanded rfl rfl
    · exact carriesOn_of_emptyHanded rfl rfl
  | commit link => exact carriesOn_of_emptyHanded rfl rfl
  | drop link => exact carriesOn_touch rfl (vouches_delete hw.cache link)
  | dropMissing => exact carriesOn_touch rfl (vouches_deleteByCode hw.cache c)
  | dropRedirect => exact carriesOn_touch rfl hw.cache.deleteRedirect
  | close => exact carriesOn_of_emptyHanded rfl rfl

theorem carriesOn_sweep (hw : Sourced w) {p : SweepPc} :
    CarriesOn w.stored checkedAt (published w.sys t) (nextSweep svc (seenBy w.sys t) p) := by
  cases p with
  | begin => exact carriesOn_of_emptyHanded rfl rfl
  | select now deleted =>
    simp only [nextSweep]
    split <;> exact carriesOn_of_emptyHanded rfl rfl
  | remove now chunk deleted =>
    cases chunk with
    | nil => exact carriesOn_of_emptyHanded rfl rfl
    | cons link chunk =>
      simp only [nextSweep]
      split
      · split <;> exact carriesOn_of_emptyHanded rfl rfl
      · exact carriesOn_of_emptyHanded rfl rfl
  | drop deleted =>
    cases deleted with
    | nil => exact carriesOn_of_emptyHanded rfl rfl
    | cons link deleted => exact carriesOn_touch rfl (vouches_delete hw.cache link)

/-- An insertion leads to its point, or to that of the conflict, and does not touch the cache. -/
theorem insertRow_cases {v : Seen} {link : Link} {p : Pc} {conflict a : Act}
    (h : insertRow v link p conflict = some a) :
    a = .write link.shortCode (some (.own link)) p ∨ a = conflict := by
  unfold insertRow at h
  split at h
  · cases h
    exact .inl rfl
  · split at h
    · cases h
      exact .inr rfl
    · cases h

theorem emptyHanded_retryCreate {j : Creating} : emptyHanded (retryCreate svc j).point = true := by
  simp only [retryCreate, Action.point]
  split <;> rfl

theorem emptyHanded_retryBatch {j : Batching} : emptyHanded (retryBatch svc j).point = true := by
  simp only [retryBatch, Action.point]
  split <;> rfl

/-- A link that is found in the table is known, and one that is committed becomes known. -/
theorem carriesOn_create (hw : Sourced w) {j : Creating} {p : CreatePc} {a : Act}
    (hp : w.sys.state.procs t = .create j p)
    (ha : nextCreate svc lockKey (seenBy w.sys t) j p = some a) :
    CarriesOn w.stored checkedAt (published w.sys t) a := by
  have hcarries := hw.procs t
  rw [hp] at hcarries
  cases p with
  | askHash =>
    simp only [nextCreate] at ha
    split at ha <;> cases ha <;> exact carriesOn_of_emptyHanded rfl rfl
  | confirm cached =>
    simp only [nextCreate] at ha
    split at ha <;> cases ha <;> exact carriesOn_of_emptyHanded rfl rfl
  | dropStale cached =>
    cases ha
    exact carriesOn_touch rfl (vouches_delete hw.cache cached)
  | search =>
    have hq : Quiet (w.sys.state.procs t) := by
      rw [hp]
      exact ⟨rfl, rfl, rfl⟩
    simp only [nextCreate] at ha
    split at ha
    · rename_i existing hexisting
      cases ha
      intro dirty
      obtain ⟨c, -, hrow⟩ := List.mem_filterMap.mp (Link.firstLive_some hexisting).1
      obtain ⟨row, hview, rfl⟩ := Option.map_eq_some_iff.mp hrow
      obtain ⟨link, hlink, hcode, hsame⟩ := hw.rows c row ((hq.view hw.written c).symm.trans hview)
      exact ⟨link, hlink, hcode.trans row.property.symm, hsame⟩
    · split at ha <;> cases ha <;> exact carriesOn_of_emptyHanded rfl rfl
  | fillExisting link =>
    cases ha
    exact carriesOn_touch rfl (hw.cache.save hcarries)
  | lock g =>
    cases ha
    exact carriesOn_of_emptyHanded rfl rfl
  | count g =>
    simp only [nextCreate] at ha
    split at ha <;> cases ha <;> exact carriesOn_of_emptyHanded rfl rfl
  | pick codes =>
    cases codes with
    | nil =>
      cases ha
      exact carriesOn_of_emptyHanded rfl rfl
    | cons code codes =>
      simp only [nextCreate] at ha
      split at ha <;> cases ha <;> exact carriesOn_of_emptyHanded rfl rfl
  | build code =>
    simp only [nextCreate] at ha
    split at ha <;> cases ha <;> exact carriesOn_of_emptyHanded rfl rfl
  | insert link =>
    rcases insertRow_cases ha with rfl | rfl
    · intro dirty hdirty
      exact hdirty
    · exact carriesOn_of_emptyHanded emptyHanded_retryCreate rfl
  | commit link =>
    cases ha
    intro dirty
    refine ⟨link, List.mem_append_left _ ?_, rfl, rfl, rfl⟩
    refine List.mem_filterMap.mpr ⟨link.shortCode, ?_, ?_⟩
    · exact Holds.mem_keys (c := w.sys.state.store.committed link.shortCode) ⟨rfl, hcarries⟩
    · have hdirty : w.sys.state.store.dirtyBy t link.shortCode = some (some (.own link)) := hcarries
      rw [hdirty]
      rfl
  | fillNew link =>
    cases ha
    exact carriesOn_touch rfl (hw.cache.save hcarries)
  | close =>
    cases ha
    exact carriesOn_of_emptyHanded rfl rfl

theorem carriesOn_batch (hw : Sourced w) {j : Batching} {p : BatchPc} {a : Act}
    (ha : nextBatch svc lockKey (seenBy w.sys t) j p = some a) :
    CarriesOn w.stored checkedAt (published w.sys t) a := by
  cases p with
  | askHashes =>
    cases ha
    exact carriesOn_of_emptyHanded rfl rfl
  | confirm cached =>
    cases ha
    exact carriesOn_of_emptyHanded rfl rfl
  | dropStale stale missing =>
    cases stale with
    | nil =>
      cases ha
      exact carriesOn_of_emptyHanded rfl rfl
    | cons link stale =>
      cases ha
      exact carriesOn_touch rfl (vouches_delete hw.cache link)
  | search missing =>
    simp only [nextBatch] at ha
    split at ha <;> cases ha <;> exact carriesOn_of_emptyHanded rfl rfl
  | lock g groups =>
    cases ha
    exact carriesOn_of_emptyHanded rfl rfl
  | count g groups =>
    cases ha
    exact carriesOn_of_emptyHanded rfl rfl
  | resolve groups r =>
    simp only [nextBatch] at ha
    split at ha <;> cases ha <;> exact carriesOn_of_emptyHanded rfl rfl
  | build planned links =>
    cases planned with
    | nil =>
      cases ha
      exact carriesOn_of_emptyHanded rfl rfl
    | cons p planned =>
      simp only [nextBatch] at ha
      split at ha <;> cases ha <;> exact carriesOn_of_emptyHanded rfl rfl
  | insert done links =>
    cases links with
    | nil =>
      cases ha
      exact carriesOn_of_emptyHanded rfl rfl
    | cons link links =>
      rcases insertRow_cases ha with rfl | rfl
      · exact carriesOn_of_emptyHanded rfl rfl
      · exact carriesOn_of_emptyHanded emptyHanded_retryBatch rfl

/-- **Every step carries on what is known.** -/
theorem carriesOn_next (hw : Sourced w) {a : Act} (ha : nextOf svc lockKey w.sys t = some a)
    (hchecked : asks (w.sys.state.procs t) = true → checkedAt = w.sys.now) :
    CarriesOn w.stored checkedAt (published w.sys t) a := by
  unfold nextOf at ha
  cases hp : w.sys.state.procs t with
  | idle =>
    rw [hp] at ha
    cases ha
  | redirect c enqueued p =>
    rw [hp] at ha hchecked
    cases ha
    exact carriesOn_redirect hw hp hchecked
  | count c p =>
    rw [hp] at ha
    cases ha
    exact carriesOn_count hw
  | info c =>
    rw [hp] at ha
    cases ha
    exact carriesOn_of_emptyHanded rfl rfl
  | delete c permitted p =>
    rw [hp] at ha
    cases ha
    exact carriesOn_delete hw
  | sweep p =>
    rw [hp] at ha
    cases ha
    exact carriesOn_sweep hw
  | create j p =>
    rw [hp] at ha
    exact carriesOn_create hw hp ha
  | batch j p =>
    rw [hp] at ha
    exact carriesOn_batch hw ha

end Operations

/-! ## Steps and runs -/

/-- What is returned is known, and was live when it was checked. -/
theorem returned_known (hw : Sourced w) {source : CachedRedirect} {checkedAt : Instant}
    (hr : returned svc.backend (seenBy w.sys t) (w.sys.state.procs t) = some source)
    (hchecked : checkedAt = if asks (w.sys.state.procs t) then w.sys.now else w.checkedAt t) :
    expiredAt checkedAt source.expiresAt = false ∧
      Known w.stored source.shortCode source.originalUrl source.expiresAt := by
  have hcarries := hw.procs t
  unfold returned at hr
  split at hr
  · rename_i c _ hp
    rw [hp] at hchecked
    have hchecked := hchecked.trans (if_pos rfl)
    split at hr
    · rename_i entry hentry
      split at hr
      · cases hr
      · rename_i hlive
        cases hr
        rw [hchecked]
        exact ⟨Bool.eq_false_iff.mpr hlive, (hw.cache.redirects c entry (Cache.getRedirect_some hentry).2).2⟩
    · cases hr
  · rename_i c _ link hp
    rw [hp] at hchecked hcarries
    have hchecked := hchecked.trans (if_neg Bool.false_ne_true)
    cases hr
    rw [hchecked]
    exact ⟨hcarries.2, hcarries.1⟩
  · rename_i c _ row hp
    rw [hp] at hchecked hcarries
    have hchecked := hchecked.trans (if_neg Bool.false_ne_true)
    cases hr
    rw [hchecked]
    exact ⟨hcarries.2, hcarries.1⟩
  · cases hr

/-- What is committed is known: it was, or it has just been published. -/
theorem known_of_committed (hw : Sourced w) {a : Act} {stored : List Link} (hact : act w.sys.state t a = some s'.state)
    (hsub : w.stored ⊆ stored) (hpub : commits a = true → published w.sys t ⊆ stored) {c : ShortCode} {row : Row c}
    (hrow : s'.state.store.committed c = some row) : Known stored c row.val.originalUrl row.val.expiresAt := by
  have hbefore : w.sys.state.store.committed c = some row → Known stored c row.val.originalUrl row.val.expiresAt := by
    intro h
    exact (hw.rows c row h).mono hsub
  cases a with
  | commit p =>
    rw [act_commit_store hact, Store.committed_commit] at hrow
    cases hd : w.sys.state.store.dirtyBy t c with
    | none =>
      rw [hd] at hrow
      exact hbefore hrow
    | some v =>
      rw [hd] at hrow
      have hv : v = some row := hrow
      subst hv
      refine ⟨row.val, hpub rfl (List.mem_filterMap.mpr ⟨c, ?_, ?_⟩), row.property, rfl, rfl⟩
      · exact Holds.mem_keys (c := w.sys.state.store.committed c) ⟨rfl, hd⟩
      · rw [hd]
        rfl
  | goto p => exact hbefore ((act_committed hact (by rintro q ⟨⟩) c).symm.trans hrow)
  | lock l p => exact hbefore ((act_committed hact (by rintro q ⟨⟩) c).symm.trans hrow)
  | write c' v p => exact hbefore ((act_committed hact (by rintro q ⟨⟩) c).symm.trans hrow)
  | touch m p => exact hbefore ((act_committed hact (by rintro q ⟨⟩) c).symm.trans hrow)
  | rollback p => exact hbefore ((act_committed hact (by rintro q ⟨⟩) c).symm.trans hrow)

/-- What a step carries on, it carries at its new point. -/
theorem CarriesOn.carries {a : Act} {stored : List Link} {checkedAt : Instant} (hw : Sourced w)
    (ha : CarriesOn w.stored checkedAt (published w.sys t) a) (hact : act w.sys.state t a = some s'.state)
    (hsub : w.stored ⊆ stored) (hpub : commits a = true → published w.sys t ++ w.stored ⊆ stored) :
    Carries stored checkedAt (s'.state.store.dirtyBy t) (s'.state.procs t) ∧
      s'.state.mem.Vouches (Known stored) := by
  have hcache : w.sys.state.mem.Vouches (Known stored) := hw.cache.mono fun c url e h => h.mono hsub
  rw [act_procs_self hact]
  cases a with
  | goto p =>
    rw [act_mem hact (by rintro m q ⟨⟩)]
    exact ⟨(ha _).mono hsub fun _ => rfl, hcache⟩
  | lock l p =>
    rw [act_mem hact (by rintro m q ⟨⟩)]
    exact ⟨(ha _).mono hsub fun _ => rfl, hcache⟩
  | rollback p =>
    rw [act_mem hact (by rintro m q ⟨⟩)]
    exact ⟨(ha _).mono hsub fun _ => rfl, hcache⟩
  | write c v p =>
    rw [act_mem hact (by rintro m q ⟨⟩)]
    exact ⟨(ha _ (Holds.of_write hact).2).mono hsub fun _ => rfl, hcache⟩
  | commit p =>
    rw [act_mem hact (by rintro m q ⟨⟩)]
    exact ⟨(ha _).mono (hpub rfl) fun _ => rfl, hcache⟩
  | touch cache p =>
    refine ⟨(ha.2 _).mono hsub fun _ => rfl, ?_⟩
    cases hs : s'.state
    rw [hs] at hact
    cases hact
    exact ha.1.mono fun c url e h => h.mono hsub

/-- **A step of a process.** -/
theorem observe_sourced {a : Act} (hw : Sourced w) (ha : nextOf svc lockKey w.sys t = some a)
    (hact : act w.sys.state t a = some s'.state) : Sourced (observe svc lockKey w t w.sys s') := by
  have hsub : w.stored ⊆ (observe svc lockKey w t w.sys s').stored := by
    simp only [observe]
    split
    · exact List.subset_append_right _ _
    · exact List.Subset.refl _
  have hpub : commits a = true → published w.sys t ++ w.stored ⊆ (observe svc lockKey w t w.sys s').stored := by
    intro hcommit
    simp only [observe, ha, Option.any_some, if_pos hcommit]
    exact List.Subset.refl _
  have hchecked : (observe svc lockKey w t w.sys s').checkedAt t =
      if asks (w.sys.state.procs t) then w.sys.now else w.checkedAt t := by
    simp only [observe]
    split
    · exact Function.update_self _ _ _
    · rfl
  have hnext : CarriesOn w.stored ((observe svc lockKey w t w.sys s').checkedAt t) (published w.sys t) a := by
    refine carriesOn_next hw ha fun hasks => ?_
    rw [hchecked, if_pos hasks]
  obtain ⟨hself, hcache⟩ := hnext.carries hw hact hsub hpub
  refine ⟨hw.written.act (next_allowed hw.written ha) hact, ?_, hcache, ?_, ?_⟩
  · intro c row hrow
    exact known_of_committed hw hact hsub (fun hc => List.Subset.trans (List.subset_append_left _ _) (hpub hc)) hrow
  · intro t'
    by_cases ht : t' = t
    · subst ht
      exact hself
    · have hother : (observe svc lockKey w t w.sys s').checkedAt t' = w.checkedAt t' := by
        simp only [observe]
        split
        · exact Function.update_of_ne ht _ _
        · rfl
      rw [hother]
      show Carries _ _ (s'.state.store.dirtyBy t') (s'.state.procs t')
      rw [act_procs_ne hact ht]
      exact (hw.procs t').mono hsub fun c => act_dirtyBy_ne hact ht c
  · intro answer hanswer
    have hold : answer ∈ w.answers → expiredAt answer.checkedAt answer.source.expiresAt = false ∧
        Known (observe svc lockKey w t w.sys s').stored answer.source.shortCode answer.source.originalUrl
          answer.source.expiresAt := by
      intro h
      exact ⟨(hw.answers answer h).1, (hw.answers answer h).2.mono hsub⟩
    cases hr : returned svc.backend (seenBy w.sys t) (w.sys.state.procs t) with
    | none =>
      simp only [observe, hr] at hanswer
      exact hold hanswer
    | some source =>
      simp only [observe, hr] at hanswer
      rcases List.mem_cons.mp hanswer with rfl | hanswer
      · obtain ⟨hlive, hknown⟩ := returned_known hw hr hchecked
        exact ⟨hlive, hknown.mono hsub⟩
      · exact hold hanswer

/-- Nothing depends on what the cache holds but that it is known. -/
theorem Sourced.withCache (hw : Sourced w) {cache : Cache} (hcache : cache.Vouches (Known w.stored)) :
    Sourced { w with sys := w.sys.withCache cache } := ⟨hw.written, hw.rows, hcache, hw.procs, hw.answers⟩

/-- An operation begins empty-handed. -/
theorem emptyHanded_begin (op : Operation) : emptyHanded (begin op) = true := by
  cases op <;> rfl

/-- **Every step keeps it.** -/
theorem watch_sourced {e : Happening T} (h : watch svc lockKey w e = some w') (hw : Sourced w) : Sourced w' := by
  cases e with
  | lapse codes hashes redirects =>
    cases h
    exact hw.withCache (hw.cache.evict codes hashes redirects)
  | fault t =>
    obtain ⟨s', hstep, rfl⟩ := Option.map_eq_some_iff.mp h
    obtain ⟨a, hnext, hact⟩ := step_next hstep
    -- The step is that of a system with an empty cache; the cache itself is left as it was.
    have hempty : Sourced { w with sys := w.sys.withCache .empty } := hw.withCache (.empty _)
    have hstepped := observe_sourced hempty hnext hact
    refine hstepped.withCache (hw.cache.mono fun c url e hknown => hknown.mono ?_)
    simp only [observe]
    split
    · exact List.subset_append_right _ _
    · exact List.Subset.refl _
  | event e =>
    cases e with
    | step t =>
      obtain ⟨s', hstep, rfl⟩ := Option.map_eq_some_iff.mp h
      obtain ⟨a, hnext, hact⟩ := step_next hstep
      exact observe_sourced hw hnext hact
    | start t op =>
      obtain ⟨s', hstep, rfl⟩ := Option.map_eq_some_iff.mp h
      have hwritten := step_written hstep hw.written
      simp only [step] at hstep
      split at hstep
      · obtain ⟨state, hact, rfl⟩ := Option.map_eq_some_iff.mp hstep
        cases hact
        refine ⟨hwritten, hw.rows, hw.cache, ?_, hw.answers⟩
        intro t'
        by_cases ht : t' = t
        · subst ht
          apply carries_of_emptyHanded
          simp only [Function.update_self]
          exact emptyHanded_begin op
        · simp only [Function.update_of_ne ht]
          exact hw.procs t'
      · cases hstep
    | tick now =>
      obtain ⟨s', hstep, rfl⟩ := Option.map_eq_some_iff.mp h
      simp only [step] at hstep
      split at hstep
      · cases hstep
        exact ⟨hw.written, hw.rows, hw.cache, hw.procs, hw.answers⟩
      · cases hstep

theorem sourced_empty (now : Instant) : Sourced (Watched.empty now : Watched T) := by
  refine ⟨(atRest_empty now).written, ?_, .empty _, fun _ => trivial, by rintro _ ⟨⟩⟩
  intro c row hrow
  have hmem := Store.mem_keys_of_committed hrow
  cases hmem

/-- **An expired link is never served**: whatever URL a redirect returns, some link was stored with it under the code,
and that link had no expiry, or one later than the moment the redirect checked it. -/
theorem expired_links_are_not_served {now : Instant} {events : List (Happening T)}
    (hrun : run (watch svc lockKey) (Watched.empty now) events = some w) :
    ∀ answer ∈ w.answers, ∃ link ∈ w.stored, link.shortCode = answer.source.shortCode ∧
      link.originalUrl = answer.source.originalUrl ∧ link.expiresAt = answer.source.expiresAt ∧
      (link.expiresAt = none ∨ ∃ expiresAt, link.expiresAt = some expiresAt ∧ answer.checkedAt < expiresAt) := by
  have hend : Sourced w := run_inv (I := Sourced) watch_sourced hrun (sourced_empty now)
  intro answer hanswer
  obtain ⟨hlive, link, hlink, hcode, hurl, hexpires⟩ := hend.answers answer hanswer
  refine ⟨link, hlink, hcode, hurl, hexpires, ?_⟩
  rw [hexpires]
  cases he : answer.source.expiresAt with
  | none => exact .inl rfl
  | some expiresAt =>
    rw [he] at hlive
    refine .inr ⟨expiresAt, rfl, ?_⟩
    simpa [expiredAt] using hlive

end Steps

/-! ## A run -/

section Samples

/-- A guest shortens a URL for a week, under a code of their choice. -/
def creationForAWeek : Operation :=
  .createShortLink ⟨"https://one.example", "https://one.example", .guest (some "192.0.2.1"), none, some "192.0.2.1", 604800,
    some ⟨"aaaaaa", isCode_aaaaaa⟩⟩ ⟨fun n => n, fun _ _ => ⟨"cccccc", isCode_cccccc⟩⟩

def redirectOfOne : Operation := .redirectLink ⟨"aaaaaa", isCode_aaaaaa⟩ true

/-- The link is created, and asked for while the redirect entry answers, after that has run out, when the cache cannot
be reached, and when it has expired. -/
def aWeekAndMore : List (Happening Bool) :=
  [.event (.start false creationForAWeek)] ++ List.replicate 9 (.event (.step false)) ++
    [.event (.start true redirectOfOne), .event (.step true), .event (.step true), .event (.step true),
      .lapse (fun _ => false) (fun _ _ => false) fun _ => true, .event (.tick 1000),
      .event (.start true redirectOfOne), .event (.step true), .event (.step true), .event (.step true),
      .event (.step true), .event (.step true), .event (.tick 2000),
      .event (.start true redirectOfOne), .fault true, .fault true, .fault true, .fault true, .event (.step true),
      .event (.step true), .event (.tick 604800000000), .event (.start true redirectOfOne), .event (.step true)]

theorem expired_links_are_not_served_in_a_week : ∃ w : Watched Bool,
    run (watch sampleServices fun _ => 0) (Watched.empty 0) aWeekAndMore = some w ∧
      w.answers.map (·.checkedAt) = [2000, 1000, 0] ∧
      ∀ answer ∈ w.answers, ∃ link ∈ w.stored, link.shortCode = answer.source.shortCode ∧
        link.originalUrl = answer.source.originalUrl ∧ link.expiresAt = answer.source.expiresAt ∧
        (link.expiresAt = none ∨ ∃ expiresAt, link.expiresAt = some expiresAt ∧ answer.checkedAt < expiresAt) := by
  have hrun : (run (watch sampleServices fun _ => 0) (Watched.empty 0 : Watched Bool) aWeekAndMore).map
      (fun w => w.answers.map (·.checkedAt)) = some [2000, 1000, 0] := by decide +kernel
  obtain ⟨w, h, hanswers⟩ := Option.map_eq_some_iff.mp hrun
  exact ⟨w, h, hanswers, expired_links_are_not_served h⟩

end Samples

end LinkShortener.Races
