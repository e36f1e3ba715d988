import LinkShortener.Links.Coherence

/-!
# The cache does not change a redirect's answer

A service with a cache and the same service with `NullCache`, through the same history.

* `created`, `batchCreated`: what a creation does to the tables, which does not depend on the cache. A cached link
  saves the search in the table only when the search would have found a link as well.
* `step_follows`: without a cache the same event leads to the same tables and the same clock.
* `redirects_answer_from_the_table`: after every history a redirect answers as it does without a cache, from the row
  alone.
-/

namespace LinkShortener.Links

open Runs

/-- The same service with `NullCache`. -/
def LinkServices.withoutCache (svc : LinkServices) : LinkServices := { svc with backend := .null }

/-- What a result says of the tables: the tables, and whether they were refused. -/
def tables {α : Type} (r : World × Except DomainError α) : Db × Except DomainError Unit :=
  (r.1.db, r.2.map fun _ => ())

/-- Attempts on the tables alone, each tried again when it lost a race. -/
def retried (once : Nat → Db → Db × Except DomainError Unit) (last : DomainError) (attempts : Nat) :
    Nat → Db → Db × Except DomainError Unit
  | 0, db => (db, .error last)
  | n + 1, db =>
    match once (attempts - (n + 1)) db with
    | (db', .error e) => if e.code = "LINK_CONFLICT" then retried once last attempts n db' else (db', .error e)
    | r => r

/-! ## Creations -/

section Creations

variable (svc : LinkServices) (now : Instant) (draws : Draws)

/-- What one attempt to create a link does to the tables. -/
def created (q : Creation) (attempt : Nat) (db : Db) : Db × Except DomainError Unit :=
  match db.findLiveByHash q.urlHash q.scope now with
  | some _ => (db, .ok ())
  | none =>
    match newLink svc db now q draws attempt with
    | .error e => (db, .error e)
    | .ok (db', _) => (db', .ok ())

/-- What one attempt to create a batch does to the tables. -/
def batchCreated (q : Batch) (attempt : Nat) (db : Db) : Db × Except DomainError Unit :=
  let groups := withinQuota (q.guestId.map (guestAllowance svc db now))
    (toCreate (fun g => db.findLiveByHash g.hash q.scope now) q.groups)
  let saving : Except DomainError Db := do
    let links ← (plan draws attempt groups
      (resolveCollisions svc draws attempt db.findByCode groups).resolved).mapM (·.create q now)
    db.saveMany links
  match saving with
  | .error e => (db, .error e)
  | .ok db' => (db', .ok ())

variable {svc now draws}

/-- A confirmed link is a live one. -/
theorem findLiveByHash_of_confirm {db : Db} {hash : String} {scope : DedupScope} {cached link : Link}
    (h : confirm now db.findByCode hash scope cached = some link) : db.findLiveByHash hash scope now ≠ none := by
  intro hnone
  obtain ⟨hrow, hlive⟩ := Option.filter_eq_some_iff.mp h
  have hmem : link ∈ db.links.rows := by
    rw [Db.mem_links_iff, Db.findByCode_shortCode hrow]
    exact hrow
  rw [Link.firstLive_none hnone link hmem] at hlive
  cases hlive

theorem tables_findOrCreate (w : World) (q : Creation) (attempt : Nat) :
    tables (findOrCreate svc w now q draws attempt) = created svc now draws q attempt w.db := by
  unfold findOrCreate created
  dsimp only
  split
  · rename_i stored hstored
    obtain ⟨cached, -, hconfirm⟩ := Option.bind_eq_some_iff.mp hstored
    obtain ⟨live, hlive⟩ := Option.ne_none_iff_exists'.mp (findLiveByHash_of_confirm hconfirm)
    rw [hlive]
    rfl
  · cases w.db.findLiveByHash q.urlHash q.scope now with
    | some existing => rfl
    | none =>
      cases newLink svc w.db now q draws attempt with
      | error e => rfl
      | ok r => rfl

theorem tables_findOrCreateRetrying (q : Creation) (n : Nat) (w : World) :
    tables (findOrCreateRetrying svc now q draws n w) = retried (created svc now draws q)
      (.codeGeneration "Failed to store a short link: every attempt lost a race with a concurrent creation")
      svc.maxCollisionAttempts n w.db := by
  induction n generalizing w with
  | zero => rfl
  | succ n ih =>
    unfold findOrCreateRetrying retried
    rw [← tables_findOrCreate w q]
    obtain ⟨w', r⟩ := findOrCreate svc w now q draws (svc.maxCollisionAttempts - (n + 1))
    cases r with
    | error e =>
      simp only [tables, Except.map]
      split
      · exact ih w'
      · rfl
    | ok a => rfl

theorem tables_createShortLink {w w₀ : World} (hdb : w₀.db = w.db) (ctx : Context) (url : String) (ttlSeconds : Int)
    (customCode : Option String) : tables (createShortLink svc.withoutCache w₀ now ctx url ttlSeconds customCode draws) =
      tables (createShortLink svc w now ctx url ttlSeconds customCode draws) := by
  have hread : readCreation svc.withoutCache ctx url ttlSeconds customCode =
      readCreation svc ctx url ttlSeconds customCode := rfl
  unfold createShortLink
  rw [hread]
  cases readCreation svc ctx url ttlSeconds customCode with
  | error e => exact congrArg (·, Except.error e) hdb
  | ok q =>
    simp only
    rw [tables_findOrCreateRetrying, tables_findOrCreateRetrying, hdb]
    rfl

/-- The groups that have to be created are those without a live link, whatever the cache offered. -/
theorem toCreate_unconfirmed (db : Db) (scope : DedupScope) (offer : UrlGroup → Option Link) (groups : List UrlGroup) :
    toCreate (fun g => db.findLiveByHash g.hash scope now)
      (unconfirmed db.findByCode scope now (groups.map fun g => (g, offer g))) =
    toCreate (fun g => db.findLiveByHash g.hash scope now) groups := by
  induction groups with
  | nil => rfl
  | cons g groups ih =>
    unfold toCreate unconfirmed at ih ⊢
    rw [List.map_cons, List.filter_cons, List.filter_cons]
    cases hlive : db.findLiveByHash g.hash scope now with
    | some l =>
      simp only [hlive, Option.isNone_some, Bool.false_eq_true, if_false]
      split
      · rw [List.map_cons, List.filter_cons]
        simp only [hlive, Option.isNone_some, Bool.false_eq_true, if_false]
        exact ih
      · exact ih
    | none =>
      have hno : (offer g).bind (confirm now db.findByCode g.hash scope) = none := by
        cases hoffer : (offer g).bind (confirm now db.findByCode g.hash scope) with
        | none => rfl
        | some l =>
          obtain ⟨cached, -, hconfirm⟩ := Option.bind_eq_some_iff.mp hoffer
          exact absurd hlive (findLiveByHash_of_confirm hconfirm)
      simp only [hno, hlive, Option.isNone_none, if_true, List.map_cons, List.filter_cons]
      rw [ih]

theorem tables_lookUpAndCreate (w : World) (q : Batch) (attempt : Nat) :
    tables (lookUpAndCreate svc w now q draws attempt) = batchCreated svc now draws q attempt w.db := by
  unfold lookUpAndCreate batchCreated
  dsimp only
  rw [toCreate_unconfirmed]
  generalize withinQuota _ _ = groups
  cases (plan draws attempt groups (resolveCollisions svc draws attempt w.db.findByCode groups).resolved).mapM
      (·.create q now) with
  | error e => rfl
  | ok links =>
    simp only [bind, Except.bind]
    cases w.db.saveMany links with
    | error e => rfl
    | ok db => rfl

theorem tables_lookUpAndCreateRetrying (q : Batch) (n : Nat) (w : World) :
    tables (lookUpAndCreateRetrying svc now q draws n w) = retried (batchCreated svc now draws q)
      (.linkConflict "Batch creation kept losing races with concurrent creations") svc.maxCollisionAttempts n w.db := by
  induction n generalizing w with
  | zero => rfl
  | succ n ih =>
    unfold lookUpAndCreateRetrying retried
    rw [← tables_lookUpAndCreate w q]
    obtain ⟨w', r⟩ := lookUpAndCreate svc w now q draws (svc.maxCollisionAttempts - (n + 1))
    cases r with
    | error e =>
      simp only [tables, Except.map]
      split
      · exact ih w'
      · rfl
    | ok a => rfl

theorem db_batchCreateLinks {w w₀ : World} (hdb : w₀.db = w.db) (ctx : Context) (urls : List String) :
    (batchCreateLinks svc.withoutCache w₀ now ctx urls draws).1.db = (batchCreateLinks svc w now ctx urls draws).1.db := by
  have hretry : ∀ q, (lookUpAndCreateRetrying svc.withoutCache now q draws svc.maxCollisionAttempts w₀).1.db =
      (lookUpAndCreateRetrying svc now q draws svc.maxCollisionAttempts w).1.db := by
    intro q
    have h : tables (lookUpAndCreateRetrying svc.withoutCache now q draws svc.maxCollisionAttempts w₀) =
        tables (lookUpAndCreateRetrying svc now q draws svc.maxCollisionAttempts w) := by
      rw [tables_lookUpAndCreateRetrying, tables_lookUpAndCreateRetrying, hdb]
      rfl
    exact congrArg Prod.fst h
  have hgroups : groupUrls svc.withoutCache urls = groupUrls svc urls := rfl
  rw [batchCreateLinks_fst, batchCreateLinks_fst, hgroups]
  by_cases hempty : urls.isEmpty = true
  · rw [if_pos hempty, if_pos hempty]
    exact hdb
  · rw [if_neg hempty, if_neg hempty]
    by_cases hlimit : svc.batchLimit < urls.length
    · rw [if_pos hlimit, if_pos (show svc.withoutCache.batchLimit < urls.length from hlimit)]
      exact hdb
    · rw [if_neg hlimit, if_neg (show ¬svc.withoutCache.batchLimit < urls.length from hlimit)]
      cases (groupUrls svc urls).1 with
      | nil => exact hdb
      | cons g groups => exact hretry _

end Creations

/-! ## The other operations -/

section Others

variable {b : Backend} {w w₀ : World}

theorem db_redirectLink (b : Backend) (w : World) (now : Instant) (code : String) :
    (redirectLink b w now code).1.db = w.db := by
  unfold redirectLink
  split
  · rfl
  · split
    · split <;> rfl
    · split
      · split <;> rfl
      · split
        · rfl
        · split <;> rfl

theorem db_updateLinkStats (b : Backend) (w : World) (now : Instant) (code : String) :
    (updateLinkStats b w now code).db = match ShortCode.parse code with
      | .error _ => w.db
      | .ok c => (w.db.incrementClicks c now).getD w.db := by
  unfold updateLinkStats
  cases ShortCode.parse code with
  | error e => rfl
  | ok c =>
    simp only
    cases w.db.incrementClicks c now with
    | none => rfl
    | some db => rfl

/-- The same redirects are answered, and so the same openings counted. -/
theorem db_redirectAndCount (h : Coherent b w) (hdb : w₀.db = w.db) (now : Instant) (code : String) (enqueued : Bool) :
    (redirectAndCount .null w₀ now code enqueued).1.db = (redirectAndCount b w now code enqueued).1.db := by
  have hanswer : (redirectLink .null w₀ now code).2 = (redirectLink b w now code).2 := by
    rw [redirectLink_answer h, redirectLink_null, redirectLink_null, hdb]
  have hw := db_redirectLink b w now code
  have hw₀ := db_redirectLink .null w₀ now code
  unfold redirectAndCount
  cases hr : redirectLink b w now code with
  | mk w₁ r =>
    cases hr₀ : redirectLink .null w₀ now code with
    | mk w₂ r₀ =>
      rw [hr] at hw hanswer
      rw [hr₀] at hw₀ hanswer
      cases hanswer
      have hsame : w₂.db = w₁.db := hw₀.trans (hdb.trans hw.symm)
      cases r with
      | error e => exact hsame
      | ok url =>
        unfold clickTask
        dsimp only
        split
        · rw [db_updateLinkStats, db_updateLinkStats, hsame]
        · exact hsame

theorem db_deleteLink (hdb : w₀.db = w.db) (ctx : Context) (code : String) (enforceOwnership : Bool)
    (authorizedLinkId : Option Uuid) : (deleteLink .null w₀ ctx code enforceOwnership authorizedLinkId).1.db =
      (deleteLink b w ctx code enforceOwnership authorizedLinkId).1.db := by
  unfold deleteLink
  rw [hdb]
  split
  · exact hdb
  · split
    · rfl
    · split
      · exact hdb
      · split
        · exact hdb
        · rfl

theorem db_deleteUser (hdb : w₀.db = w.db) (actor : Option Uuid) (userId : Uuid) :
    (deleteUser .null w₀ actor userId).1.db = (deleteUser b w actor userId).1.db := by
  unfold deleteUser
  rw [hdb]
  split
  · exact hdb
  · exact hdb
  · rfl

end Others

/-! ## Histories -/

section Histories

variable {svc : LinkServices} {accounts : Services} {s s' s₀ : State} {e : Event}

/-- A service without cache that has come through the same history. -/
structure Follows (svc : LinkServices) (s s₀ : State) : Prop where
  coherent : Coherent svc.backend s.world
  db : s₀.world.db = s.world.db
  now : s₀.now = s.now

/-- Without a cache every event is possible as well, and leads to the same tables. -/
theorem step_follows (h : step svc accounts s e = some s') (hf : Follows svc s s₀) :
    ∃ s₀', step svc.withoutCache accounts s₀ e = some s₀' ∧ Follows svc s' s₀' := by
  have hc := step_coherent h hf.coherent
  obtain ⟨w₀, now₀⟩ := s₀
  obtain ⟨hcoherent, hdb, hnow⟩ := hf
  change w₀.db = s.world.db at hdb
  subst hnow
  cases e with
  | createShortLink ctx url ttlSeconds customCode draws =>
    simp only [step] at h ⊢
    rw [hdb]
    split at h
    · rename_i hctx
      cases h
      exact ⟨_, if_pos hctx, hc, congrArg Prod.fst (tables_createShortLink hdb ctx url ttlSeconds customCode), rfl⟩
    · cases h
  | batchCreateLinks ctx urls draws =>
    simp only [step] at h ⊢
    rw [hdb]
    split at h
    · rename_i hctx
      cases h
      exact ⟨_, if_pos hctx, hc, db_batchCreateLinks hdb ctx urls, rfl⟩
    · cases h
  | redirectLink code enqueued =>
    cases h
    exact ⟨_, rfl, hc, db_redirectAndCount hcoherent hdb s.now code enqueued, rfl⟩
  | deleteLink ctx code enforceOwnership authorizedLinkId =>
    cases h
    exact ⟨_, rfl, hc, db_deleteLink hdb ctx code enforceOwnership authorizedLinkId, rfl⟩
  | deleteUser actor userId =>
    cases h
    exact ⟨_, rfl, hc, db_deleteUser hdb actor userId, rfl⟩
  | cleanExpiredLinks =>
    cases h
    refine ⟨_, rfl, hc, ?_, rfl⟩
    simp only [cleanExpiredLinks, hdb]
  | cleanUnverifiedAccounts =>
    cases h
    refine ⟨_, rfl, hc, ?_, rfl⟩
    simp only [cleanUnverifiedAccounts, hdb]
  | evict codes hashes redirects =>
    cases h
    exact ⟨_, rfl, hc, hdb, rfl⟩
  | tick now =>
    simp only [step] at h ⊢
    split at h
    · rename_i hle
      cases h
      exact ⟨_, if_pos hle, hc, hdb, rfl⟩
    · cases h

/-- **The cache never changes a redirect's answer.** A service starts with an empty cache and only confirmed accounts
own links. After every history the same history is possible with `NullCache` and has led to the same tables, and every
redirect answers as it does there: from the row that carries the code. -/
theorem redirects_answer_from_the_table (svc : LinkServices) (accounts : Services) (db : Db) (now : Instant)
    (howners : OwnersConfirmed db) (events : List Event) (s : State)
    (h : run (step svc accounts) (.start db now) events = some s) :
    ∃ s₀, run (step svc.withoutCache accounts) (.start db now) events = some s₀ ∧
      s₀.world.db = s.world.db ∧ s₀.now = s.now ∧
      ∀ code, (redirectLink svc.backend s.world s.now code).2 = (redirectLink .null s₀.world s₀.now code).2 ∧
        (redirectLink svc.backend s.world s.now code).2 = redirectFromTable s.world.db s.now code := by
  have hstart : Follows svc (.start db now) (.start db now) := ⟨.start howners now, rfl, rfl⟩
  have hsim : ∀ {s e s' s₀}, step svc accounts s e = some s' → Follows svc s s₀ →
      ∃ s₀', step svc.withoutCache accounts s₀ e = some s₀' ∧ Follows svc s' s₀' := step_follows
  obtain ⟨s₀, hrun, hf⟩ := run_sim hsim h hstart
  refine ⟨s₀, hrun, hf.db, hf.now, ?_⟩
  intro code
  have htable : (redirectLink svc.backend s.world s.now code).2 = redirectFromTable s.world.db s.now code := by
    rw [redirectLink_answer hf.coherent, redirectLink_null]
  refine ⟨?_, htable⟩
  rw [htable, redirectLink_null, hf.db, hf.now]

end Histories

/-! A code that is freed and taken again: both links are opened, and the second one is what the code leads to. -/

/-- A configuration of the accounts. -/
def sampleAccounts : Services where
  defaultRoleName := "user"
  parseEmail := .ok
  hashPassword := .ok
  tokenDigest := id
  verificationTtl := 1
  unverifiedTtl := 1

def sampleHistory : List Event :=
  let guest : Context := ⟨none, some "192.0.2.1"⟩
  let draws (id : Uuid) : Draws := ⟨fun _ => id, fun _ _ => ⟨"cccccc", isCode_cccccc⟩⟩
  [.createShortLink guest "https://one.example" 0 (some "my-link") (draws 1), .redirectLink "my-link" true,
    .deleteLink guest "my-link" false none,
    .createShortLink guest "https://two.example" 0 (some "my-link") (draws 2), .redirectLink "my-link" false,
    .evict (fun _ => true) (fun _ _ => false) (fun _ => false), .tick 60, .cleanExpiredLinks]

theorem redirects_answer_for_a_code_taken_again :
    ∃ s, run (step sampleServices sampleAccounts) (.start (Db.empty []) 0) sampleHistory = some s ∧
      (redirectLink .redis s.world s.now "my-link").2 = .ok "https://two.example" ∧
      (∃ s₀, run (step sampleServices.withoutCache sampleAccounts) (.start (Db.empty []) 0) sampleHistory = some s₀ ∧
        (redirectLink .null s₀.world s₀.now "my-link").2 = .ok "https://two.example") := by
  have hrun : (run (step sampleServices sampleAccounts) (.start (Db.empty []) 0) sampleHistory).map
      (fun s => (redirectLink .redis s.world s.now "my-link").2) = some (.ok "https://two.example") := by
    decide +kernel
  obtain ⟨s, hs, hanswer⟩ := Option.map_eq_some_iff.mp hrun
  have howners : OwnersConfirmed (Db.empty []) := by
    intro c l u hl
    cases hl
  obtain ⟨s₀, hs₀, -, -, hsame⟩ :=
    redirects_answer_from_the_table sampleServices sampleAccounts (Db.empty []) 0 howners sampleHistory s hs
  exact ⟨s, hs, hanswer, s₀, hs₀, (hsame "my-link").1.symm.trans hanswer⟩

end LinkShortener.Links
