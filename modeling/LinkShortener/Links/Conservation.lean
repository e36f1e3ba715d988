import LinkShortener.Links.BatchParts

/-!
# A batch conserves its input

A batch among others: each attempt meets a database and a cache of its own, and others may commit links between its
lookups and its inserts, so that it loses the race for a code and the next attempt begins.

* `lookUp`, `store`: the two halves of one attempt; `lookUpAndCreate_eq` says that they are one when nobody comes in
  between.
* `batchAmong`: the use case among others; `batchCreateLinks_among` says that a batch that runs alone is one of these.
* `items_perm`, `answerFor`, `newItems_hashes`: the items of one attempt, group by group.
-/

namespace LinkShortener.Links

/-! ## Attempts among others -/

/-- What an attempt has decided before it stores anything. -/
structure Decided where
  fetched : List BatchItemResponse
  created : List UrlGroup
  quota : List BatchItemResponse
  planned : List Planned

section Attempts

variable (svc : LinkServices)

/-- The link the cache offers for a group, if the database stands behind it. -/
def cachedLink (w : World) (now : Instant) (q : Batch) (g : UrlGroup) : Option Link :=
  (w.cache.getByHash svc.backend g.hash q.scope).bind (confirm now w.db.findByCode g.hash q.scope)

/-- The lookups of one attempt, and what they come to. -/
def lookUp (w : World) (now : Instant) (q : Batch) (draws : Draws) (attempt : Nat) : Decided :=
  let stored := w.db.findByCode
  let cached := q.groups.map fun g => (g, w.cache.getByHash svc.backend g.hash q.scope)
  let missing := unconfirmed stored q.scope now cached
  let live := fun g : UrlGroup => w.db.findLiveByHash g.hash q.scope now
  let remaining := q.guestId.map (guestAllowance svc w.db now)
  let groups := withinQuota remaining (toCreate live missing)
  ⟨fetchedResults svc.baseUrl (confirmed stored q.scope now cached) (foundInDb live missing), groups,
    quotaResults svc remaining (toCreate live missing),
    plan draws attempt groups (resolveCollisions svc draws attempt stored groups).resolved⟩

/-- The inserts of one attempt. -/
def store (db : Db) (now : Instant) (q : Batch) (planned : List Planned) : Except DomainError (List Link × Db) := do
  let links ← planned.mapM (·.create q now)
  let db ← db.saveMany links
  return (links, db)

/-- What one attempt meets: the database and the cache it finds, the clock, and the links that others commit before its
inserts. -/
structure Meeting where
  world : World
  now : Instant
  rivals : List Link

/-- The database the inserts meet. -/
def Meeting.db (m : Meeting) : Db :=
  match m.world.db.saveMany m.rivals with
  | .ok db => db
  | .error _ => m.world.db

def attemptAmong (m : Meeting) (q : Batch) (draws : Draws) (attempt : Nat) : Except DomainError (Db × Attempt) := do
  let d := lookUp svc m.world m.now q draws attempt
  let (saved, db) ← store m.db m.now q d.planned
  return (db, ⟨d.fetched, d.created, d.quota, saved⟩)

/-- At most `n` attempts, from attempt `i` on, with the database that the inserts of the last one met. -/
def attemptsAmong (meet : Nat → Meeting) (q : Batch) (draws : Draws) :
    Nat → Nat → Db × Except DomainError (Db × Attempt)
  | 0, i => ((meet i).db, .error (.linkConflict "Batch creation kept losing races with concurrent creations"))
  | n + 1, i =>
    match attemptAmong svc (meet i) q draws i with
    | .error e => if e.code = "LINK_CONFLICT" then attemptsAmong meet q draws n (i + 1) else ((meet i).db, .error e)
    | .ok r => ((meet i).db, .ok r)

/-- A batch that has come to its end: the database before and after the last inserts, and the answer. -/
structure BatchRun where
  before : Db
  after : Db
  answer : Except DomainError BatchCreateResponse

/-- The use case among others. -/
def batchAmong (meet : Nat → Meeting) (finished : Instant) (ctx : Context) (urls : List String) (draws : Draws) :
    BatchRun :=
  let untouched (answer : Except DomainError BatchCreateResponse) : BatchRun := ⟨(meet 0).db, (meet 0).db, answer⟩
  if urls.isEmpty then untouched (.ok (.fromResults finished []))
  else if svc.batchLimit < urls.length then
    untouched (.error (.validation ("Batch limit exceeded. Max: " ++ toString svc.batchLimit ++ ", requested: " ++
      toString urls.length) "urls"))
  else
    match groupUrls svc urls with
    | ([], invalid) => untouched (.ok (.fromResults finished invalid))
    | (groups, invalid) =>
      match attemptsAmong svc meet (readBatch svc ctx groups) draws svc.maxCollisionAttempts 0 with
      | (before, .error e) => ⟨before, before, .error e⟩
      | (before, .ok (after, a)) => ⟨before, after, answerBatch svc finished invalid a⟩

end Attempts

/-! ## The items of one attempt -/

section Items

variable {svc : LinkServices} {w : World} {now : Instant} {q : Batch} {draws : Draws} {attempt : Nat}
  {groups : List UrlGroup} {saved : List Link}

/-- The groups the cache does not answer for. -/
def missing (svc : LinkServices) (w : World) (now : Instant) (q : Batch) : List UrlGroup :=
  q.groups.filter fun g => (cachedLink svc w now q g).isNone

/-- The groups nothing answers for. -/
def due (svc : LinkServices) (w : World) (now : Instant) (q : Batch) : List UrlGroup :=
  toCreate (fun g => w.db.findLiveByHash g.hash q.scope now) (missing svc w now q)

/-- The groups with what was found for them. -/
def foundFor (f : UrlGroup → Option Link) (groups : List UrlGroup) : List (UrlGroup × Link) :=
  groups.filterMap fun g => (f g).map fun link => (g, link)

theorem foundFor_fst (f : UrlGroup → Option Link) (groups : List UrlGroup) :
    (foundFor f groups).map (·.1) = groups.filter fun g => (f g).isSome := by
  induction groups with
  | nil => rfl
  | cons g groups ih =>
    unfold foundFor at ih ⊢
    rw [List.filterMap_cons, List.filter_cons]
    cases f g with
    | none => exact ih
    | some link => exact congrArg (g :: ·) ih

theorem mem_foundFor {f : UrlGroup → Option Link} {g : UrlGroup} {link : Link} :
    (g, link) ∈ foundFor f groups ↔ g ∈ groups ∧ f g = some link := by
  unfold foundFor
  simp only [List.mem_filterMap, Option.map_eq_some_iff, Prod.mk.injEq]
  constructor
  · rintro ⟨g', hg', link', hf, rfl, rfl⟩
    exact ⟨hg', hf⟩
  · rintro ⟨hg, hf⟩
    exact ⟨g, hg, link, hf, rfl, rfl⟩

/-- **What an attempt decides**, group by group. -/
theorem lookUp_eq (svc : LinkServices) (w : World) (now : Instant) (q : Batch) (draws : Draws) (attempt : Nat) :
    lookUp svc w now q draws attempt =
      let remaining := q.guestId.map (guestAllowance svc w.db now)
      let groups := withinQuota remaining (due svc w now q)
      ⟨fetchedResults svc.baseUrl (foundFor (cachedLink svc w now q) q.groups)
        (foundFor (fun g => w.db.findLiveByHash g.hash q.scope now) (missing svc w now q)), groups,
        quotaResults svc remaining (due svc w now q),
        plan draws attempt groups (resolveCollisions svc draws attempt w.db.findByCode groups).resolved⟩ := by
  have hcached : confirmed w.db.findByCode q.scope now
      (q.groups.map fun g => (g, w.cache.getByHash svc.backend g.hash q.scope)) =
        foundFor (cachedLink svc w now q) q.groups := by
    unfold confirmed foundFor
    rw [List.filterMap_map]
    rfl
  have hmissing : unconfirmed w.db.findByCode q.scope now
      (q.groups.map fun g => (g, w.cache.getByHash svc.backend g.hash q.scope)) = missing svc w now q := by
    unfold unconfirmed missing
    rw [List.filter_map, List.map_map]
    exact List.map_id _
  unfold lookUp
  simp only [hcached, hmissing]
  rfl

/-! ### Every URL has one item -/

theorem urls_fetchedResults (baseUrl : String) (cached found : List (UrlGroup × Link)) :
    (fetchedResults baseUrl cached found).map (·.url) =
      (cached.map (·.1)).flatMap (·.urls) ++ (found.map (·.1)).flatMap (·.urls) := by
  have hone : ∀ (items : List (UrlGroup × Link)) (item : Link → String → BatchItemResponse),
      (∀ link url, (item link url).url = url) →
        (items.flatMap fun x => x.1.urls.map (item x.2)).map (·.url) = (items.map (·.1)).flatMap (·.urls) := by
    intro items item hitem
    induction items with
    | nil => rfl
    | cons x items ih =>
      rw [List.flatMap_cons, List.map_append, ih, List.map_cons, List.flatMap_cons, List.map_map]
      congr 1
      exact (List.map_congr_left fun url _ => hitem x.2 url).trans (List.map_id _)
  unfold fetchedResults
  rw [List.map_append]
  congr 1
  · exact hone cached (fun link url => { BatchItemResponse.ofLink baseUrl url link with fromCache := true })
      fun _ _ => rfl
  · exact hone found (fun link url => .ofLink baseUrl url link) fun _ _ => rfl

theorem urls_buildFromNewLinks (baseUrl : String) (groups : List UrlGroup) (saved : List Link) :
    (buildFromNewLinks baseUrl groups saved).map (·.url) = groups.flatMap (·.urls) := by
  unfold buildFromNewLinks
  rw [List.map_flatMap]
  congr 1
  funext g
  split
  · rw [List.map_map]
    exact List.map_id _
  · cases g.urls with
    | nil => rfl
    | cons url urls =>
      rw [List.map_cons, List.map_map]
      exact congrArg (url :: ·) (List.map_id _)

theorem urls_withinQuota (svc : LinkServices) (remaining : Option Nat) (groups : List UrlGroup) :
    (withinQuota remaining groups).flatMap (·.urls) ++ (quotaResults svc remaining groups).map (·.url) =
      groups.flatMap (·.urls) := by
  cases remaining with
  | none => exact List.append_nil _
  | some n =>
    have hrefused : (quotaResults svc (some n) groups).map (·.url) = (groups.drop n).flatMap (·.urls) := by
      unfold quotaResults
      rw [List.map_flatMap]
      congr 1
      funext g
      rw [List.map_map]
      exact List.map_id _
    rw [hrefused, ← List.flatMap_append]
    exact congrArg _ (List.take_append_drop n groups)

/-- **Every URL of every group has one item.** -/
theorem items_perm (svc : LinkServices) (w : World) (now : Instant) (q : Batch) (draws : Draws) (attempt : Nat)
    (saved : List Link) :
    (((lookUp svc w now q draws attempt).fetched ++
      buildFromNewLinks svc.baseUrl (lookUp svc w now q draws attempt).created saved ++
      (lookUp svc w now q draws attempt).quota).map (·.url)).Perm (q.groups.flatMap (·.urls)) := by
  have hsplit : ∀ (f : UrlGroup → Option Link) (groups : List UrlGroup),
      ((groups.filter fun g => (f g).isSome) ++ (groups.filter fun g => (f g).isNone)).Perm groups := by
    intro f groups
    have hnot : (fun g => (f g).isNone) = fun g => !(f g).isSome := by
      funext g
      cases f g <;> rfl
    rw [hnot]
    exact List.filter_append_perm _ groups
  have hmissing := hsplit (fun g => w.db.findLiveByHash g.hash q.scope now) (missing svc w now q)
  have hgroups := hsplit (cachedLink svc w now q) q.groups
  rw [lookUp_eq]
  dsimp only
  rw [List.map_append, List.map_append, urls_fetchedResults, urls_buildFromNewLinks, List.append_assoc,
    urls_withinQuota, foundFor_fst, foundFor_fst, List.append_assoc, ← List.flatMap_append, ← List.flatMap_append]
  exact ((List.Perm.append_left _ hmissing).trans hgroups).flatMap_right _

/-! ### What an item answers -/

/-- The link a group is answered with. -/
def answerFor (svc : LinkServices) (w : World) (now : Instant) (q : Batch) (saved : List Link) (g : UrlGroup) :
    Option Link :=
  match cachedLink svc w now q g with
  | some link => some link
  | none =>
    match w.db.findLiveByHash g.hash q.scope now with
    | some link => some link
    | none => saved.find? fun link => decide (link.urlHash = g.hash)

theorem mem_due {g : UrlGroup} : g ∈ due svc w now q ↔ g ∈ q.groups ∧ cachedLink svc w now q g = none ∧
    w.db.findLiveByHash g.hash q.scope now = none := by
  simp only [due, toCreate, missing, List.mem_filter, Option.isNone_iff_eq_none, and_assoc]

theorem withinQuota_sublist (remaining : Option Nat) (groups : List UrlGroup) :
    (withinQuota remaining groups).Sublist groups := by
  cases remaining with
  | none => exact .refl _
  | some n => exact List.take_sublist n groups

/-- The item answers a URL of the group, with the link if it is a success. -/
def Answers (answer : UrlGroup → Option Link) (g : UrlGroup) (item : BatchItemResponse) : Prop :=
  item.url ∈ g.urls ∧ (item.success = true → ∃ link, answer g = some link ∧ item.shortCode = some link.shortCode.val)

theorem fetched_answers (saved : List Link) {item : BatchItemResponse}
    (h : item ∈ (lookUp svc w now q draws attempt).fetched) :
    ∃ g ∈ q.groups, item.isNew = false ∧ item.success = true ∧ Answers (answerFor svc w now q saved) g item := by
  rw [lookUp_eq] at h
  simp only [fetchedResults, List.mem_append, List.mem_flatMap, List.mem_map] at h
  rcases h with ⟨⟨g, link⟩, hin, url, hurl, rfl⟩ | ⟨⟨g, link⟩, hin, url, hurl, rfl⟩
  · obtain ⟨hg, hlink⟩ := mem_foundFor.mp hin
    refine ⟨g, hg, rfl, rfl, hurl, fun _ => ⟨link, ?_, rfl⟩⟩
    simp only [answerFor, hlink]
  · obtain ⟨hg, hlink⟩ := mem_foundFor.mp hin
    obtain ⟨hg, hnone⟩ := List.mem_filter.mp hg
    refine ⟨g, hg, rfl, rfl, hurl, fun _ => ⟨link, ?_, rfl⟩⟩
    simp only [answerFor, Option.isNone_iff_eq_none.mp hnone, hlink]

theorem new_answers {item : BatchItemResponse}
    (h : item ∈ buildFromNewLinks svc.baseUrl (lookUp svc w now q draws attempt).created saved) :
    ∃ g ∈ due svc w now q, Answers (answerFor svc w now q saved) g item := by
  rw [lookUp_eq] at h
  unfold buildFromNewLinks at h
  obtain ⟨g, hg, h⟩ := List.mem_flatMap.mp h
  have hg := (withinQuota_sublist _ _).subset hg
  obtain ⟨-, hcached, hlive⟩ := mem_due.mp hg
  have hanswer : answerFor svc w now q saved g = saved.find? fun link => decide (link.urlHash = g.hash) := by
    simp only [answerFor, hcached, hlive]
  refine ⟨g, hg, ?_⟩
  split at h
  · obtain ⟨url, hurl, rfl⟩ := List.mem_map.mp h
    exact ⟨hurl, nofun⟩
  · rename_i link hfind
    rw [hfind] at hanswer
    cases hurls : g.urls with
    | nil =>
      rw [hurls] at h
      cases h
    | cons first rest =>
      rw [hurls] at h
      rcases List.mem_cons.mp h with rfl | h
      · exact ⟨by rw [hurls]; exact List.mem_cons_self, fun _ => ⟨link, hanswer, rfl⟩⟩
      · obtain ⟨url, hurl, rfl⟩ := List.mem_map.mp h
        exact ⟨by rw [hurls]; exact List.mem_cons_of_mem first hurl, fun _ => ⟨link, hanswer, rfl⟩⟩

theorem quota_answers {item : BatchItemResponse} (h : item ∈ (lookUp svc w now q draws attempt).quota) :
    item.success = false ∧ item.isNew = false ∧ ∃ g ∈ due svc w now q, item.url ∈ g.urls := by
  rw [lookUp_eq] at h
  simp only [quotaResults] at h
  split at h
  · cases h
  · obtain ⟨g, hg, h⟩ := List.mem_flatMap.mp h
    obtain ⟨url, hurl, rfl⟩ := List.mem_map.mp h
    exact ⟨rfl, rfl, g, List.mem_of_mem_drop hg, hurl⟩

/-! ### Which items are new -/

/-- One item of each group that got a link is new. -/
theorem newItems_hashes (hgroups : ∀ g ∈ groups, ∀ url ∈ g.urls, hashOf svc url = some g.hash)
    (hne : ∀ g ∈ groups, g.urls ≠ []) :
    ((buildFromNewLinks svc.baseUrl groups saved).filter (·.isNew)).map (fun item => hashOf svc item.url) =
      (groups.filter fun g => decide (g.hash ∈ saved.map (·.urlHash))).map fun g => some g.hash := by
  induction groups with
  | nil => rfl
  | cons g groups ih =>
    have ih :=
      ih (fun g' hg' => hgroups g' (List.mem_cons_of_mem g hg')) fun g' hg' => hne g' (List.mem_cons_of_mem g hg')
    have hrest : ∀ (urls : List String) (item : String → BatchItemResponse), (∀ url, (item url).isNew = false) →
        (urls.map item).filter (·.isNew) = [] := by
      intro urls item hitem
      rw [List.filter_eq_nil_iff]
      intro x hx
      obtain ⟨url, -, rfl⟩ := List.mem_map.mp hx
      simp [hitem]
    unfold buildFromNewLinks at ih ⊢
    rw [List.flatMap_cons, List.filter_append, List.map_append, ih, List.filter_cons]
    cases hfind : saved.find? fun link => decide (link.urlHash = g.hash) with
    | none =>
      have hnot : g.hash ∉ saved.map (·.urlHash) := by
        intro hmem
        obtain ⟨link, hlink, hh⟩ := List.mem_map.mp hmem
        simpa [hh] using List.find?_eq_none.mp hfind link hlink
      rw [if_neg (by simpa using hnot)]
      simp only
      rw [hrest _ _ fun _ => rfl]
      rfl
    | some link =>
      have hin : g.hash ∈ saved.map (·.urlHash) :=
        List.mem_map.mpr ⟨link, List.mem_of_find?_eq_some hfind, by simpa using List.find?_some hfind⟩
      rw [if_pos (by simpa using hin)]
      cases hurls : g.urls with
      | nil => exact absurd hurls (hne g List.mem_cons_self)
      | cons url urls =>
        simp only
        rw [List.filter_cons, hrest _ _ fun _ => rfl]
        have hurl := hgroups g List.mem_cons_self url (by rw [hurls]; exact List.mem_cons_self)
        simp [BatchItemResponse.ofLink, hurl]

end Items

/-! ## Whole batches -/

section Batches

variable {svc : LinkServices} {q : Batch} {draws : Draws}

/-- Nothing that was there goes away before the inserts. -/
theorem Meeting.db_kept (m : Meeting) {c : ShortCode} {l : Link} (h : m.world.db.findByCode c = some l) :
    m.db.findByCode c = some l := by
  unfold Meeting.db
  split
  · rename_i db hdb
    exact (Db.saveMany_ok hdb).2.1 c l h
  · exact h

/-- What an attempt that goes through has stored. -/
theorem attemptAmong_ok {m : Meeting} {attempt : Nat} {after : Db} {a : Attempt} (hn : (q.groups.map (·.hash)).Nodup)
    (h : attemptAmong svc m q draws attempt = .ok (after, a)) :
    a.fetched = (lookUp svc m.world m.now q draws attempt).fetched ∧
      a.created = (lookUp svc m.world m.now q draws attempt).created ∧
      a.quota = (lookUp svc m.world m.now q draws attempt).quota ∧ m.db.saveMany a.saved = .ok after ∧
      Drafted m.world.db.findByCode q a.created a.saved := by
  unfold attemptAmong store at h
  obtain ⟨⟨saved, db⟩, hstore, h⟩ := bind_eq_ok.mp h
  obtain ⟨links, hlinks, hstore⟩ := bind_eq_ok.mp hstore
  obtain ⟨db', hsave, hstore⟩ := bind_eq_ok.mp hstore
  cases hstore
  cases h
  refine ⟨rfl, rfl, rfl, hsave, ?_⟩
  rw [lookUp_eq] at hlinks ⊢
  refine drafted ?_ hlinks
  have hsub : (withinQuota (q.guestId.map (guestAllowance svc m.world.db m.now)) (due svc m.world m.now q)).Sublist
      q.groups :=
    (withinQuota_sublist _ _).trans (List.filter_sublist.trans List.filter_sublist)
  exact hn.sublist (hsub.map _)

/-- The attempts end with the one that went through, or with none. -/
theorem attemptsAmong_cases (svc : LinkServices) (meet : Nat → Meeting) (q : Batch) (draws : Draws) (n i : Nat) :
    (∃ e, (attemptsAmong svc meet q draws n i).2 = .error e) ∨
      ∃ j r, attemptsAmong svc meet q draws n i = ((meet j).db, .ok r) ∧ attemptAmong svc (meet j) q draws j = .ok r := by
  induction n generalizing i with
  | zero => exact .inl ⟨_, rfl⟩
  | succ n ih =>
    unfold attemptsAmong
    cases hattempt : attemptAmong svc (meet i) q draws i with
    | error e =>
      simp only
      split
      · exact ih (i + 1)
      · exact .inl ⟨e, rfl⟩
    | ok r => exact .inr ⟨i, r, rfl, hattempt⟩

/-- What a batch that is answered has kept and counted. -/
structure Conserves (svc : LinkServices) (urls : List String) (run : BatchRun) (r : BatchCreateResponse) : Prop where
  /-- One item for each URL. -/
  items : (r.items.map (·.url)).Perm urls
  total : r.total = urls.length
  counted : r.successful + r.failed = r.total
  /-- The successes of one hash carry the code of one stored link. -/
  resolved : ∀ item ∈ r.items, ∀ item' ∈ r.items, item.success = true → item'.success = true →
    hashOf svc item.url = hashOf svc item'.url → ∃ link, run.after.findByCode link.shortCode = some link ∧
      hashOf svc item.url = some link.urlHash ∧ item.shortCode = some link.shortCode.val ∧
      item'.shortCode = some link.shortCode.val
  /-- One new item for each hash at most. -/
  new : ((r.items.filter (·.isNew)).map fun item => hashOf svc item.url).Nodup
  /-- As many rows are inserted as items are new. -/
  inserted : ∃ rows, run.after.links.rows = rows ++ run.before.links.rows ∧ rows.length = r.newCount

/-- A batch that is answered conserves its input, and one that is refused has stored nothing. -/
def BatchRun.Conserving (svc : LinkServices) (urls : List String) (run : BatchRun) : Prop :=
  match run.answer with
  | .ok r => Conserves svc urls run r
  | .error _ => run.after = run.before

/-- Nothing was asked of the database. -/
theorem conserves_refused {urls : List String} {db : Db} {items : List BatchItemResponse} (finished : Instant)
    (hurls : (items.map (·.url)).Perm urls) (hitems : ∀ item ∈ items, item.success = false ∧ item.isNew = false) :
    Conserves svc urls ⟨db, db, .ok (.fromResults finished items)⟩ (.fromResults finished items) := by
  have hnew : items.filter (·.isNew) = [] := by
    rw [List.filter_eq_nil_iff]
    intro item hitem
    simp [(hitems item hitem).2]
  refine ⟨hurls, ?_, ?_, ?_, ?_, ⟨[], rfl, ?_⟩⟩
  · rw [← hurls.length_eq, List.length_map]
    rfl
  · have := List.countP_le_length (p := fun item : BatchItemResponse => item.success) (l := items)
    simp only [BatchCreateResponse.fromResults]
    omega
  · intro item hitem item' _ hs
    rw [(hitems item hitem).1] at hs
    cases hs
  · show ((items.filter (·.isNew)).map _).Nodup
    rw [hnew]
    exact List.nodup_nil
  · show 0 = items.countP (·.isNew)
    rw [List.countP_eq_length_filter, hnew]
    rfl

section Attempt

variable {m : Meeting} {attempt : Nat} {after : Db} {a : Attempt} {urls : List String} {invalid : List BatchItemResponse}

/-- The link a group is answered with is stored, under the hash of the group. -/
theorem answerFor_stored {saved : List Link} {g : UrlGroup} {link : Link} (hsave : m.db.saveMany saved = .ok after)
    (h : answerFor svc m.world m.now q saved g = some link) :
    after.findByCode link.shortCode = some link ∧ link.urlHash = g.hash := by
  have hfound : ∀ {l}, m.world.db.findByCode l.shortCode = some l → after.findByCode l.shortCode = some l :=
    fun hl => (Db.saveMany_ok hsave).2.1 _ _ (m.db_kept hl)
  unfold answerFor at h
  split at h
  · rename_i link' hcached
    cases h
    obtain ⟨cached, -, hconfirm⟩ := Option.bind_eq_some_iff.mp hcached
    obtain ⟨hrow, hlive⟩ := Option.filter_eq_some_iff.mp hconfirm
    rw [← Db.findByCode_shortCode hrow] at hrow
    exact ⟨hfound hrow, (of_decide_eq_true (Bool.and_eq_true_iff.mp hlive).1).1⟩
  · split at h
    · rename_i link' hfirst
      cases h
      obtain ⟨hmem, hlive⟩ := Link.firstLive_some hfirst
      exact ⟨hfound (Db.mem_links_iff.mp hmem), (of_decide_eq_true (Bool.and_eq_true_iff.mp hlive).1).1⟩
    · refine ⟨Db.mem_links_iff.mp ?_, by simpa using List.find?_some h⟩
      rw [Db.saveMany_rows hsave]
      exact List.mem_append_left _ (List.mem_reverse.mpr (List.mem_of_find?_eq_some h))

/-- The links that were stored are as many as the groups that got one. -/
theorem Drafted.length {stored : ShortCode → Option Link} {groups : List UrlGroup} {links : List Link}
    (h : Drafted stored q groups links) (hn : (groups.map (·.hash)).Nodup) :
    (groups.filter fun g => decide (g.hash ∈ links.map (·.urlHash))).length = links.length := by
  have hperm : ((groups.filter fun g => decide (g.hash ∈ links.map (·.urlHash))).map (·.hash)).Perm
      (links.map (·.urlHash)) := by
    rw [List.perm_ext_iff_of_nodup (hn.sublist (List.filter_sublist.map _)) (hn.sublist h.hashes)]
    intro hash
    constructor
    · intro hmem
      obtain ⟨g, hg, rfl⟩ := List.mem_map.mp hmem
      exact of_decide_eq_true (List.mem_filter.mp hg).2
    · intro hmem
      obtain ⟨g, hg, rfl⟩ := List.mem_map.mp (h.hashes.subset hmem)
      exact List.mem_map.mpr ⟨g, List.mem_filter.mpr ⟨hg, by simpa using hmem⟩, rfl⟩
  simpa using hperm.length_eq

/-- The new items of an attempt, by hash: the groups that got a link. -/
theorem newItems_attempt (hg : Grouped svc urls q.groups invalid)
    (h : attemptAmong svc m q draws attempt = .ok (after, a)) :
    ((a.fetched ++ buildFromNewLinks svc.baseUrl a.created a.saved ++ a.quota ++ invalid).filter (·.isNew)).map
        (fun item => hashOf svc item.url) =
      (a.created.filter fun g => decide (g.hash ∈ a.saved.map (·.urlHash))).map fun g => some g.hash := by
  obtain ⟨hfetched, hcreated, hquota, -, -⟩ := attemptAmong_ok hg.nodup h
  have hcreatedGroups : ∀ g ∈ a.created, g ∈ q.groups := by
    intro g hin
    rw [hcreated, lookUp_eq] at hin
    exact (mem_due.mp ((withinQuota_sublist _ _).subset hin)).1
  have hold : ∀ items : List BatchItemResponse, (∀ item ∈ items, item.isNew = false) →
      items.filter (·.isNew) = [] := by
    intro items hitems
    rw [List.filter_eq_nil_iff]
    intro item hitem
    simp [hitems item hitem]
  have h₁ : a.fetched.filter (·.isNew) = [] := by
    apply hold
    intro item hitem
    rw [hfetched] at hitem
    obtain ⟨g, -, hnew, -⟩ := fetched_answers a.saved hitem
    exact hnew
  have h₂ : a.quota.filter (·.isNew) = [] := by
    apply hold
    intro item hitem
    rw [hquota] at hitem
    exact (quota_answers hitem).2.1
  have h₃ : invalid.filter (·.isNew) = [] := hold invalid fun item hitem => (hg.refused item hitem).2.1
  rw [List.filter_append, List.filter_append, List.filter_append, h₁, h₂, h₃, List.nil_append, List.append_nil,
    List.append_nil]
  exact newItems_hashes (fun g hin => hg.hashes g (hcreatedGroups g hin)) fun g hin => hg.nonempty g (hcreatedGroups g hin)

/-- **An attempt that goes through conserves the batch.** -/
theorem conserves_attempt (hg : Grouped svc urls q.groups invalid)
    (h : attemptAmong svc m q draws attempt = .ok (after, a))
    (finished : Instant) {r : BatchCreateResponse}
    (hr : r = .fromResults finished
      (a.fetched ++ buildFromNewLinks svc.baseUrl a.created a.saved ++ a.quota ++ invalid)) :
    Conserves svc urls ⟨m.db, after, .ok r⟩ r := by
  have hnewItems := newItems_attempt hg h
  obtain ⟨hfetched, hcreated, hquota, hsave, hdrafted⟩ := attemptAmong_ok hg.nodup h
  have hcreatedNodup : (a.created.map (·.hash)).Nodup := by
    rw [hcreated, lookUp_eq]
    exact hg.nodup.sublist (((withinQuota_sublist _ _).trans (List.filter_sublist.trans List.filter_sublist)).map _)
  have hitems : r.items = a.fetched ++ buildFromNewLinks svc.baseUrl a.created a.saved ++ a.quota ++ invalid := by
    rw [hr]
    rfl
  have hanswers : ∀ item ∈ r.items, item.success = true →
      ∃ g ∈ q.groups, Answers (answerFor svc m.world m.now q a.saved) g item := by
    intro item hitem hs
    rw [hitems, hfetched, hcreated, hquota] at hitem
    rcases List.mem_append.mp hitem with hitem | hitem
    · rcases List.mem_append.mp hitem with hitem | hitem
      · rcases List.mem_append.mp hitem with hitem | hitem
        · obtain ⟨g, hin, -, -, hanswer⟩ := fetched_answers a.saved hitem
          exact ⟨g, hin, hanswer⟩
        · obtain ⟨g, hin, hanswer⟩ := new_answers hitem
          exact ⟨g, (mem_due.mp hin).1, hanswer⟩
      · rw [(quota_answers hitem).1] at hs
        cases hs
    · rw [(hg.refused item hitem).1] at hs
      cases hs
  have hperm : (r.items.map (·.url)).Perm urls := by
    have hattempt := items_perm svc m.world m.now q draws attempt a.saved
    rw [← hfetched, ← hcreated, ← hquota] at hattempt
    rw [hitems, List.map_append]
    exact (hattempt.append_right _).trans hg.perm
  refine ⟨hperm, ?_, ?_, ?_, ?_, ⟨a.saved.reverse, Db.saveMany_rows hsave, ?_⟩⟩
  · rw [← hperm.length_eq, List.length_map, hr]
    rfl
  · have := List.countP_le_length (p := fun item : BatchItemResponse => item.success) (l := r.items)
    rw [hr] at this ⊢
    simp only [BatchCreateResponse.fromResults] at this ⊢
    omega
  · intro item hitem item' hitem' hs hs' hsame
    obtain ⟨g, hin, hurl, hlink⟩ := hanswers item hitem hs
    obtain ⟨g', hin', hurl', hlink'⟩ := hanswers item' hitem' hs'
    have hhash := hg.hashes g hin _ hurl
    have hhash' := hg.hashes g' hin' _ hurl'
    have hgroup : g = g' := by
      apply List.inj_on_of_nodup_map hg.nodup hin hin'
      rw [hhash, hhash'] at hsame
      exact Option.some.inj hsame
    subst hgroup
    obtain ⟨link, hanswer, hcode⟩ := hlink hs
    obtain ⟨link', hanswer', hcode'⟩ := hlink' hs'
    rw [hanswer] at hanswer'
    cases hanswer'
    obtain ⟨hrow, hlinkHash⟩ := answerFor_stored hsave hanswer
    exact ⟨link, hrow, by rw [hhash, hlinkHash], hcode, hcode'⟩
  · rw [hitems, hnewItems]
    have hnodup : ((a.created.map (·.hash)).map some).Nodup := hcreatedNodup.map (Option.some_injective _)
    rw [List.map_map] at hnodup
    exact hnodup.sublist (List.filter_sublist.map _)
  · have hlength := congrArg List.length hnewItems
    rw [List.length_map, List.length_map, hdrafted.length hcreatedNodup, ← hitems,
      ← List.countP_eq_length_filter] at hlength
    rw [List.length_reverse, ← hlength, hr]
    rfl

end Attempt

/-- **A batch conserves its input**, whatever it meets and however often it loses a race: it answers each URL once, with
one stored link for each hash, and counts what it has stored; and when it is refused, nothing is stored. -/
theorem batch_conserves_its_input (svc : LinkServices) (meet : Nat → Meeting) (finished : Instant) (ctx : Context)
    (urls : List String) (draws : Draws) : (batchAmong svc meet finished ctx urls draws).Conserving svc urls := by
  have hg := grouped svc urls
  unfold batchAmong
  dsimp only
  split
  · rename_i hempty
    cases List.isEmpty_iff.mp hempty
    exact conserves_refused finished hg.perm fun item hitem => by cases hitem
  · split
    · rfl
    · cases hgroups : groupUrls svc urls with
      | mk groups invalid =>
        rw [hgroups] at hg
        cases groups with
        | nil =>
          refine conserves_refused finished hg.perm fun item hitem => ?_
          exact ⟨(hg.refused item hitem).1, (hg.refused item hitem).2.1⟩
        | cons g groups =>
          simp only
          rcases attemptsAmong_cases svc meet (readBatch svc ctx (g :: groups)) draws svc.maxCollisionAttempts 0 with
            ⟨e, he⟩ | ⟨j, ⟨after, a⟩, hrun, hattempt⟩
          · cases hrun : attemptsAmong svc meet (readBatch svc ctx (g :: groups)) draws svc.maxCollisionAttempts 0 with
            | mk before answer =>
              rw [hrun] at he
              cases he
              exact rfl
          · rw [hrun]
            simp only
            unfold answerBatch
            split
            · rename_i hrefused
              -- Nothing was saved, so nothing was inserted.
              simp only [Bool.and_eq_true, List.isEmpty_iff] at hrefused
              have hsave := (attemptAmong_ok hg.nodup hattempt).2.2.2.1
              rw [hrefused.1.1.2] at hsave
              cases hsave
              rfl
            · exact conserves_attempt hg hattempt finished rfl

/-! ## A batch that runs alone -/

section Alone

variable (svc : LinkServices) (w : World) (now : Instant) (q : Batch) (draws : Draws)

/-- The database an attempt leaves. -/
def afterAttempt (db : Db) (r : Except DomainError (Db × Attempt)) : Db :=
  match r with
  | .ok (db', _) => db'
  | .error _ => db

/-- An attempt among others, when there are no others. -/
theorem attemptAmong_alone (attempt : Nat) : attemptAmong svc ⟨w, now, []⟩ q draws attempt = do
    let d := lookUp svc w now q draws attempt
    let (saved, db) ← store w.db now q d.planned
    return (db, ⟨d.fetched, d.created, d.quota, saved⟩) := rfl

/-- What an attempt does after it has looked everything up. -/
theorem lookUpAndCreate_of_lookUp (attempt : Nat) : lookUpAndCreate svc w now q draws attempt =
    let d := lookUp svc w now q draws attempt
    let cached := q.groups.map fun g => (g, w.cache.getByHash svc.backend g.hash q.scope)
    let cache :=
      (stale w.db.findByCode q.scope now cached).foldl (fun cache link => cache.delete svc.backend link) w.cache
    match store w.db now q d.planned with
    | .error e => (⟨w.db, cache⟩, .error e)
    | .ok (saved, db) => (⟨db, cache⟩, .ok ⟨d.fetched, d.created, d.quota, saved⟩) := rfl

/-- One attempt, when nobody comes in between. -/
theorem lookUpAndCreate_eq (attempt : Nat) :
    (lookUpAndCreate svc w now q draws attempt).1.db =
        afterAttempt w.db (attemptAmong svc ⟨w, now, []⟩ q draws attempt) ∧
      (lookUpAndCreate svc w now q draws attempt).2 = (attemptAmong svc ⟨w, now, []⟩ q draws attempt).map (·.2) := by
  rw [attemptAmong_alone, lookUpAndCreate_of_lookUp]
  dsimp only
  cases store w.db now q (lookUp svc w now q draws attempt).planned with
  | error e => exact ⟨rfl, rfl⟩
  | ok r => exact ⟨rfl, rfl⟩

/-- The worlds the attempts of a batch find that runs alone. -/
def worldsAlone : Nat → World
  | 0 => w
  | i + 1 => (lookUpAndCreate svc (worldsAlone i) now q draws i).1

def meetAlone (i : Nat) : Meeting := ⟨worldsAlone svc w now q draws i, now, []⟩

theorem attempts_alone {n : Nat} (hn : n ≤ svc.maxCollisionAttempts) :
    let i := svc.maxCollisionAttempts - n
    let r := attemptsAmong svc (meetAlone svc w now q draws) q draws n i
    let alone := lookUpAndCreateRetrying svc now q draws n (worldsAlone svc w now q draws i)
    alone.2 = r.2.map (·.2) ∧ alone.1.db = afterAttempt (worldsAlone svc w now q draws i).db r.2 ∧
      r.1 = (worldsAlone svc w now q draws i).db := by
  induction n with
  | zero => exact ⟨rfl, rfl, rfl⟩
  | succ n ih =>
    set i := svc.maxCollisionAttempts - (n + 1) with hi
    have hnext : svc.maxCollisionAttempts - n = i + 1 := by omega
    have ih := ih (by omega)
    rw [hnext] at ih
    obtain ⟨hdb, hanswer⟩ := lookUpAndCreate_eq svc (worldsAlone svc w now q draws i) now q draws i
    dsimp only
    unfold attemptsAmong lookUpAndCreateRetrying
    rw [← hi]
    have hmeet : meetAlone svc w now q draws i = ⟨worldsAlone svc w now q draws i, now, []⟩ := rfl
    rw [hmeet]
    have hworld : worldsAlone svc w now q draws (i + 1) =
      (lookUpAndCreate svc (worldsAlone svc w now q draws i) now q draws i).1 := rfl
    dsimp only at ih
    rw [hworld] at ih
    cases hr : lookUpAndCreate svc (worldsAlone svc w now q draws i) now q draws i with
    | mk w' r =>
      rw [hr] at hdb hanswer ih
      cases hattempt : attemptAmong svc ⟨worldsAlone svc w now q draws i, now, []⟩ q draws i with
      | error e =>
        rw [hattempt] at hdb hanswer
        cases hanswer
        have hsame : w'.db = (worldsAlone svc w now q draws i).db := hdb
        simp only
        split
        · rw [hsame] at ih
          exact ih
        · exact ⟨rfl, hsame, rfl⟩
      | ok r =>
        rw [hattempt] at hdb hanswer
        cases hanswer
        exact ⟨rfl, hdb, rfl⟩

/-- **A batch that runs alone is one that meets nobody.** -/
theorem batchCreateLinks_among (ctx : Context) (urls : List String) :
    ∃ meet : Nat → Meeting, (∀ i, (meet i).rivals = []) ∧
      (batchAmong svc meet now ctx urls draws).answer = (batchCreateLinks svc w now ctx urls draws).2 ∧
      (batchAmong svc meet now ctx urls draws).before = w.db ∧
      (batchAmong svc meet now ctx urls draws).after = (batchCreateLinks svc w now ctx urls draws).1.db := by
  refine ⟨meetAlone svc w now (readBatch svc ctx (groupUrls svc urls).1) draws, fun _ => rfl, ?_⟩
  have halone := attempts_alone svc w now (readBatch svc ctx (groupUrls svc urls).1) draws
    (n := svc.maxCollisionAttempts) le_rfl
  rw [Nat.sub_self] at halone
  unfold batchAmong batchCreateLinks
  dsimp only at halone ⊢
  split
  · exact ⟨rfl, rfl, rfl⟩
  · split
    · exact ⟨rfl, rfl, rfl⟩
    · cases hgroups : groupUrls svc urls with
      | mk groups invalid =>
        rw [hgroups] at halone
        cases groups with
        | nil => exact ⟨rfl, rfl, rfl⟩
        | cons g groups =>
          obtain ⟨hanswer, hdb, hbefore⟩ := halone
          simp only
          have hw : worldsAlone svc w now (readBatch svc ctx (g :: groups)) draws 0 = w := rfl
          rw [hw] at hanswer hdb hbefore
          cases hr : lookUpAndCreateRetrying svc now (readBatch svc ctx (g :: groups)) draws svc.maxCollisionAttempts w with
          | mk w' answer =>
            cases hm : attemptsAmong svc (meetAlone svc w now (readBatch svc ctx (g :: groups)) draws)
              (readBatch svc ctx (g :: groups)) draws svc.maxCollisionAttempts 0 with
            | mk before r =>
              rw [hr, hm] at hanswer hdb
              rw [hm] at hbefore
              cases r with
              | error e =>
                cases hanswer
                exact ⟨rfl, hbefore, hbefore.trans hdb.symm⟩
              | ok r =>
                cases hanswer
                exact ⟨rfl, hbefore, hdb.symm⟩

end Alone

end Batches

end LinkShortener.Links
