import LinkShortener.Links.Transparency
import LinkShortener.Links.Conservation

/-!
# Deduplication

No index keeps two links of one URL apart; a link is looked up and then created, by two use cases.

* `dedupHit`: the link both of them are answered by, if there is one; `createShortLink_of_hit` and `batch_of_hit`.
* `OneLive`: no URL has two live links in one scope. Every operation keeps it (`anyStep_oneLive`), so that a run that
  begins with it ends with it, and creations are answered with that one link.
* `hits_are_the_oldest_iff`: where there are several, a hit is the oldest exactly when the cache names none of the others
  (`NamesOnly`).
-/

namespace LinkShortener.Links

open Runs

/-! ## Hits -/

/-- The link a URL is answered with when it has one: what the cache names, if the database stands behind it, else the
oldest live one. -/
def dedupHit (svc : LinkServices) (w : World) (now : Instant) (hash : String) (scope : DedupScope) : Option Link :=
  match (w.cache.getByHash svc.backend hash scope).bind (confirm now w.db.findByCode hash scope) with
  | some link => some link
  | none => w.db.findLiveByHash hash scope now

section Hits

variable {svc : LinkServices} {w : World} {now : Instant} {hash : String} {scope : DedupScope} {link : Link}

theorem confirm_some {stored : ShortCode → Option Link} {offer : Option Link}
    (h : offer.bind (confirm now stored hash scope) = some link) :
    (∃ cached, offer = some cached ∧ stored cached.shortCode = some link) ∧ link.liveIn hash scope now = true := by
  obtain ⟨cached, hcached, h⟩ := Option.bind_eq_some_iff.mp h
  obtain ⟨hstored, hlive⟩ := Option.filter_eq_some_iff.mp h
  exact ⟨⟨cached, hcached, hstored⟩, hlive⟩

/-- A hit is a live row. -/
theorem dedupHit_some (h : dedupHit svc w now hash scope = some link) :
    link ∈ w.db.links.rows ∧ link.liveIn hash scope now = true := by
  unfold dedupHit at h
  split at h
  · rename_i hcached
    cases h
    obtain ⟨⟨cached, -, hstored⟩, hlive⟩ := confirm_some hcached
    exact ⟨(Rows.get_eq_some.mp hstored).1, hlive⟩
  · exact Link.firstLive_some h

/-- There is a hit as soon as some row is live. -/
theorem dedupHit_none (h : dedupHit svc w now hash scope = none) :
    ∀ l ∈ w.db.links.rows, l.liveIn hash scope now = false := by
  unfold dedupHit at h
  split at h
  · cases h
  · exact Link.firstLive_none h

/-! ### One link -/

theorem findOrCreate_of_hit {q : Creation} (h : dedupHit svc w now q.urlHash q.scope = some link) (draws : Draws)
    (attempt : Nat) : (findOrCreate svc w now q draws attempt).1.db = w.db ∧ ∃ fromCache,
      (findOrCreate svc w now q draws attempt).2 = .ok (.fromLink link svc.baseUrl false fromCache) := by
  unfold dedupHit at h
  cases hcached : (w.cache.getByHash svc.backend q.urlHash q.scope).bind (confirm now w.db.findByCode q.urlHash q.scope) with
  | some stored =>
    rw [hcached] at h
    cases h
    unfold findOrCreate
    dsimp only
    rw [hcached]
    exact ⟨rfl, true, rfl⟩
  | none =>
    rw [hcached] at h
    dsimp only at h
    unfold findOrCreate
    dsimp only
    rw [hcached, h]
    exact ⟨rfl, false, rfl⟩

/-- **A creation that is hit answers with the hit and stores nothing.** -/
theorem createShortLink_of_hit (hpos : 0 < svc.maxCollisionAttempts) {ctx : Context} {url : String} {ttlSeconds : Int}
    {customCode : Option String} {q : Creation} (hq : readCreation svc ctx url ttlSeconds customCode = .ok q)
    (h : dedupHit svc w now q.urlHash q.scope = some link) (draws : Draws) :
    (createShortLink svc w now ctx url ttlSeconds customCode draws).1.db = w.db ∧ ∃ fromCache,
      (createShortLink svc w now ctx url ttlSeconds customCode draws).2 =
        .ok (.fromLink link svc.baseUrl false fromCache) := by
  obtain ⟨n, hn⟩ := Nat.exists_eq_succ_of_ne_zero hpos.ne'
  obtain ⟨hdb, fromCache, hanswer⟩ := findOrCreate_of_hit h draws (svc.maxCollisionAttempts - (n + 1))
  unfold createShortLink
  rw [hq]
  simp only [hn]
  unfold findOrCreateRetrying
  cases hr : findOrCreate svc w now q draws (svc.maxCollisionAttempts - (n + 1)) with
  | mk w' r =>
    rw [hr] at hdb hanswer
    cases hanswer
    exact ⟨hdb, fromCache, rfl⟩

/-! ### A batch -/

/-- A group with a hit is not to be created. -/
theorem dedupHit_due {q : Batch} {g : UrlGroup} (hg : g ∈ due svc w now q) :
    dedupHit svc w now g.hash q.scope = none := by
  obtain ⟨-, hcached, hlive⟩ := mem_due.mp hg
  have hconfirm : (w.cache.getByHash svc.backend g.hash q.scope).bind (confirm now w.db.findByCode g.hash q.scope) =
      none := hcached
  simp only [dedupHit, hconfirm, hlive]

theorem answerFor_nil {q : Batch} (g : UrlGroup) : answerFor svc w now q [] g = dedupHit svc w now g.hash q.scope := by
  have hconfirm : cachedLink svc w now q g =
    (w.cache.getByHash svc.backend g.hash q.scope).bind (confirm now w.db.findByCode g.hash q.scope) := rfl
  unfold answerFor dedupHit
  rw [hconfirm]
  cases (w.cache.getByHash svc.backend g.hash q.scope).bind (confirm now w.db.findByCode g.hash q.scope) with
  | some link => rfl
  | none => cases w.db.findLiveByHash g.hash q.scope now <;> rfl

/-- What an attempt says of a URL that is hit. -/
theorem item_of_hit {q : Batch} (draws : Draws) (attempt : Nat) (saved : List Link) {item : BatchItemResponse}
    (hgroups : ∀ g ∈ q.groups, ∀ url ∈ g.urls, hashOf svc url = some g.hash)
    (h : dedupHit svc w now hash q.scope = some link) (hhash : hashOf svc item.url = some hash)
    (hitem : item ∈ (lookUp svc w now q draws attempt).fetched ++
      buildFromNewLinks svc.baseUrl (lookUp svc w now q draws attempt).created saved ++
      (lookUp svc w now q draws attempt).quota) :
    item.success = true ∧ item.isNew = false ∧ item.shortCode = some link.shortCode.val := by
  have hdue : ∀ g ∈ due svc w now q, item.url ∉ g.urls := by
    intro g hg hurl
    have hsame := (hgroups g (mem_due.mp hg).1 _ hurl).symm.trans hhash
    have hnone := dedupHit_due hg
    rw [Option.some.inj hsame, h] at hnone
    cases hnone
  rcases List.mem_append.mp hitem with hitem | hitem
  · rcases List.mem_append.mp hitem with hitem | hitem
    · obtain ⟨g, hg, hnew, hs, hurl, hanswer⟩ := fetched_answers [] hitem
      obtain ⟨link', hlink, hcode⟩ := hanswer hs
      have hsame := (hgroups g hg _ hurl).symm.trans hhash
      rw [answerFor_nil, Option.some.inj hsame, h] at hlink
      cases hlink
      exact ⟨hs, hnew, hcode⟩
    · obtain ⟨g, hg, hurl, -⟩ := new_answers hitem
      exact absurd hurl (hdue g hg)
  · obtain ⟨-, -, g, hg, hurl⟩ := quota_answers hitem
    exact absurd hurl (hdue g hg)

/-- A group with a hit is fetched. -/
theorem fetched_of_hit (q : Batch) {g : UrlGroup} (hg : g ∈ q.groups)
    (h : dedupHit svc w now g.hash q.scope = some link)
    {url : String} (hurl : url ∈ g.urls) (draws : Draws) (attempt : Nat) :
    ∃ item ∈ (lookUp svc w now q draws attempt).fetched, item.url = url := by
  rw [lookUp_eq]
  unfold dedupHit at h
  dsimp only [fetchedResults]
  split at h
  · rename_i link' hcached
    have hfound : (g, link') ∈ foundFor (cachedLink svc w now q) q.groups := mem_foundFor.mpr ⟨hg, hcached⟩
    refine ⟨_, List.mem_append_left _ (List.mem_flatMap.mpr ⟨_, hfound, List.mem_map.mpr ⟨url, hurl, rfl⟩⟩), rfl⟩
  · rename_i hcached
    have hmissing : g ∈ missing svc w now q := by
      refine List.mem_filter.mpr ⟨hg, ?_⟩
      rw [cachedLink, hcached]
      rfl
    have hfound : (g, link) ∈ foundFor (fun g => w.db.findLiveByHash g.hash q.scope now) (missing svc w now q) :=
      mem_foundFor.mpr ⟨hmissing, h⟩
    refine ⟨_, List.mem_append_right _ (List.mem_flatMap.mpr ⟨_, hfound, List.mem_map.mpr ⟨url, hurl, rfl⟩⟩), rfl⟩

end Hits

/-! ## A batch that runs alone needs one attempt -/

section OneAttempt

variable {svc : LinkServices} {w : World} {now : Instant} {q : Batch} {draws : Draws} {attempt : Nat}

theorem created_nodup (hn : (q.groups.map (·.hash)).Nodup) :
    ((lookUp svc w now q draws attempt).created.map (·.hash)).Nodup := by
  rw [lookUp_eq]
  exact hn.sublist (((withinQuota_sublist _ _).trans (List.filter_sublist.trans List.filter_sublist)).map _)

/-- What an attempt is about to store. -/
theorem planned_drafted {links : List Link} (hn : (q.groups.map (·.hash)).Nodup)
    (h : (lookUp svc w now q draws attempt).planned.mapM (·.create q now) = .ok links) :
    Drafted w.db.findByCode q (lookUp svc w now q draws attempt).created links := drafted (created_nodup hn) h

/-- Nobody takes its codes in between, so that an attempt that fails has lost no race. -/
theorem store_error {e : DomainError} (hn : (q.groups.map (·.hash)).Nodup)
    (h : store w.db now q (lookUp svc w now q draws attempt).planned = .error e) : e.code ≠ "LINK_CONFLICT" := by
  have hvalidation : "VALIDATION_ERROR" ≠ "LINK_CONFLICT" := by decide
  unfold store at h
  cases hlinks : (lookUp svc w now q draws attempt).planned.mapM (·.create q now) with
  | error e' =>
    rw [hlinks] at h
    cases h
    obtain ⟨p, -, hp⟩ := mapM_error hlinks
    rw [Link.create_error hp]
    exact hvalidation
  | ok links =>
    rw [hlinks] at h
    have hd := planned_drafted hn hlinks
    cases hsave : w.db.saveMany links with
    | error e' =>
      have h' : (Except.error e' : Except DomainError (List Link × Db)) = .error e := by
        rw [← h]
        simp [bind, Except.bind, hsave]
      cases h'
      rw [Db.saveMany_error hd.nodup hd.free hsave]
      decide
    | ok db =>
      simp [bind, Except.bind, hsave, pure, Except.pure] at h

/-- The database and the answer of one attempt. -/
theorem lookUpAndCreate_store (svc : LinkServices) (w : World) (now : Instant) (q : Batch) (draws : Draws)
    (attempt : Nat) :
    (lookUpAndCreate svc w now q draws attempt).2 =
        (store w.db now q (lookUp svc w now q draws attempt).planned).map
          (fun r => ⟨(lookUp svc w now q draws attempt).fetched, (lookUp svc w now q draws attempt).created,
            (lookUp svc w now q draws attempt).quota, r.1⟩) ∧
      (lookUpAndCreate svc w now q draws attempt).1.db =
        match store w.db now q (lookUp svc w now q draws attempt).planned with
        | .ok (_, db) => db
        | .error _ => w.db := by
  obtain ⟨hdb, hanswer⟩ := lookUpAndCreate_eq svc w now q draws attempt
  rw [hanswer, hdb, attemptAmong_alone]
  dsimp only
  cases store w.db now q (lookUp svc w now q draws attempt).planned with
  | error e => exact ⟨rfl, rfl⟩
  | ok r => exact ⟨rfl, rfl⟩

/-- **A batch that runs alone needs one attempt.** -/
theorem lookUpAndCreateRetrying_once (hn : (q.groups.map (·.hash)).Nodup) {n : Nat} (hpos : 0 < n) :
    lookUpAndCreateRetrying svc now q draws n w = lookUpAndCreate svc w now q draws (svc.maxCollisionAttempts - n) := by
  obtain ⟨n, rfl⟩ := Nat.exists_eq_succ_of_ne_zero hpos.ne'
  have hanswer := (lookUpAndCreate_store svc w now q draws (svc.maxCollisionAttempts - (n + 1))).1
  unfold lookUpAndCreateRetrying
  cases hr : lookUpAndCreate svc w now q draws (svc.maxCollisionAttempts - (n + 1)) with
  | mk w' r =>
    rw [hr] at hanswer
    cases hstore : store w.db now q (lookUp svc w now q draws (svc.maxCollisionAttempts - (n + 1))).planned with
    | error e =>
      rw [hstore] at hanswer
      cases hanswer
      simp only [if_neg (store_error hn hstore)]
    | ok r' =>
      rw [hstore] at hanswer
      cases hanswer
      rfl

end OneAttempt

/-- The scope of a caller's links. -/
def Context.scope (ctx : Context) : DedupScope :=
  scopeOf ctx.currentUser (if ctx.currentUser.isSome then none else ctx.remoteAddr)

/-- What keeps a batch from running is not there: it is not too long, the caller's account is there, the identifiers it
draws are fresh, and a guest's links expire within the calendar. -/
structure Runnable (svc : LinkServices) (w : World) (now : Instant) (ctx : Context) (urls : List String)
    (draws : Draws) :
    Prop where
  short : urls.length ≤ svc.batchLimit
  caller : ∀ u, ctx.currentUser = some u → w.db.users.get u ≠ none
  fresh : ∀ i, ∀ l ∈ w.db.links.rows, l.id ≠ draws.ids i
  distinct : Function.Injective draws.ids
  lifetime : Link.ttlFits (readBatch svc ctx []).ttlSeconds now = true

section Batches

variable {svc : LinkServices} {w : World} {now : Instant} {ctx : Context} {urls : List String} {draws : Draws}

/-- **A batch that runs alone** asks nothing of the database, or stores what its one attempt has planned. -/
theorem batchCreateLinks_alone (hpos : 0 < svc.maxCollisionAttempts) (w : World) (now : Instant) (ctx : Context)
    (urls : List String) (draws : Draws) :
    let q := readBatch svc ctx (groupUrls svc urls).1
    let d := lookUp svc w now q draws 0
    let r := batchCreateLinks svc w now ctx urls draws
    (r.1.db = w.db ∧ (urls.length ≤ svc.batchLimit → q.groups = []) ∧
        ∀ response, r.2 = .ok response → response.items = (groupUrls svc urls).2 ∧ q.groups = []) ∨
      (∃ e, store w.db now q d.planned = .error e ∧ r.1.db = w.db ∧ r.2 = .error e) ∨
      ∃ saved db, store w.db now q d.planned = .ok (saved, db) ∧ r.1.db = db ∧
        r.2 = answerBatch svc now (groupUrls svc urls).2 ⟨d.fetched, d.created, d.quota, saved⟩ := by
  have hg := grouped svc urls
  unfold batchCreateLinks
  dsimp only
  split
  · rename_i hempty
    cases List.isEmpty_iff.mp hempty
    refine .inl ⟨rfl, fun _ => rfl, ?_⟩
    rintro response ⟨⟩
    exact ⟨rfl, rfl⟩
  · split
    · rename_i hlong
      exact .inl ⟨rfl, fun hshort => absurd hshort (not_le.mpr hlong), nofun⟩
    · cases hgroups : groupUrls svc urls with
      | mk groups invalid =>
        rw [hgroups] at hg
        cases groups with
        | nil =>
          refine .inl ⟨rfl, fun _ => rfl, ?_⟩
          rintro response ⟨⟩
          exact ⟨rfl, rfl⟩
        | cons g groups =>
          right
          simp only
          rw [lookUpAndCreateRetrying_once hg.nodup hpos, Nat.sub_self]
          obtain ⟨hanswer, hdb⟩ := lookUpAndCreate_store svc w now (readBatch svc ctx (g :: groups)) draws 0
          cases hr : lookUpAndCreate svc w now (readBatch svc ctx (g :: groups)) draws 0 with
          | mk w' r =>
            rw [hr] at hanswer hdb
            cases hstore : store w.db now (readBatch svc ctx (g :: groups))
              (lookUp svc w now (readBatch svc ctx (g :: groups)) draws 0).planned with
            | error e =>
              rw [hstore] at hanswer hdb
              cases hanswer
              exact .inl ⟨e, rfl, hdb, rfl⟩
            | ok r' =>
              rw [hstore] at hanswer hdb
              cases hanswer
              exact .inr ⟨r'.1, r'.2, rfl, hdb, rfl⟩

theorem store_ok {q : Batch} {planned : List Planned} {saved : List Link} {db db' : Db}
    (h : store db now q planned = .ok (saved, db')) :
    planned.mapM (·.create q now) = .ok saved ∧ db.saveMany saved = .ok db' := by
  unfold store at h
  obtain ⟨links, hlinks, h⟩ := bind_eq_ok.mp h
  obtain ⟨db₁, hsave, h⟩ := bind_eq_ok.mp h
  cases h
  exact ⟨hlinks, hsave⟩

/-- **What a batch stores** has no hit, and a hash of its own each. -/
theorem batchCreateLinks_rows (hpos : 0 < svc.maxCollisionAttempts) (w : World) (now : Instant) (ctx : Context)
    (urls : List String) (draws : Draws) :
    ∃ links, (batchCreateLinks svc w now ctx urls draws).1.db.links.rows = links ++ w.db.links.rows ∧
      (links.map (·.urlHash)).Nodup ∧
      ∀ l ∈ links, l.dedupScope = ctx.scope ∧ dedupHit svc w now l.urlHash ctx.scope = none := by
  have hg := grouped svc urls
  rcases batchCreateLinks_alone hpos w now ctx urls draws with ⟨hdb, -, -⟩ | ⟨e, -, hdb, -⟩ | ⟨saved, db, hstore, hdb, -⟩
  · exact ⟨[], by rw [hdb]; rfl, List.nodup_nil, List.forall_mem_nil _⟩
  · exact ⟨[], by rw [hdb]; rfl, List.nodup_nil, List.forall_mem_nil _⟩
  · obtain ⟨hlinks, hsave⟩ := store_ok hstore
    have hd := planned_drafted hg.nodup hlinks
    have hnodup : ((lookUp svc w now (readBatch svc ctx (groupUrls svc urls).1) draws 0).created.map (·.hash)).Nodup :=
      created_nodup hg.nodup
    refine ⟨saved.reverse, ?_, ?_, ?_⟩
    · rw [hdb]
      exact Db.saveMany_rows hsave
    · rw [List.map_reverse, List.nodup_reverse]
      exact hnodup.sublist hd.hashes
    · intro l hl
      have hl := List.mem_reverse.mp hl
      refine ⟨hd.made l hl, ?_⟩
      obtain ⟨g, hin, hhash⟩ := List.mem_map.mp (hd.hashes.subset (List.mem_map_of_mem hl))
      rw [lookUp_eq] at hin
      rw [← hhash]
      exact dedupHit_due ((withinQuota_sublist _ _).subset hin)

/-- **A batch answers every URL that is hit with the hit.** -/
theorem batch_of_hit (hpos : 0 < svc.maxCollisionAttempts) {hash : String} {link : Link}
    (h : dedupHit svc w now hash ctx.scope = some link) {response : BatchCreateResponse}
    (hanswer : (batchCreateLinks svc w now ctx urls draws).2 = .ok response) :
    ∀ item ∈ response.items, hashOf svc item.url = some hash →
      item.success = true ∧ item.isNew = false ∧ item.shortCode = some link.shortCode.val := by
  have hg := grouped svc urls
  intro item hitem hhash
  have hrefused : item ∉ (groupUrls svc urls).2 := by
    intro hin
    rw [(hg.refused item hin).2.2] at hhash
    cases hhash
  rcases batchCreateLinks_alone hpos w now ctx urls draws with ⟨-, -, hitems⟩ | ⟨e, -, -, herr⟩ | ⟨saved, db, -, -, hok⟩
  · rw [(hitems response hanswer).1] at hitem
    exact absurd hitem hrefused
  · rw [herr] at hanswer
    cases hanswer
  · rw [hok] at hanswer
    unfold answerBatch at hanswer
    split at hanswer
    · cases hanswer
    · cases hanswer
      rcases List.mem_append.mp hitem with hitem | hitem
      · exact item_of_hit draws 0 saved hg.hashes h hhash hitem
      · exact absurd hitem hrefused

/-- A URL of the batch that is not refused is in the group of its hash. -/
theorem group_of_url {url hash : String} (hurl : url ∈ urls) (hhash : hashOf svc url = some hash) :
    ∃ g ∈ (groupUrls svc urls).1, g.hash = hash ∧ url ∈ g.urls := by
  have hg := grouped svc urls
  rcases List.mem_append.mp (hg.perm.mem_iff.mpr hurl) with hin | hin
  · obtain ⟨g, hgroup, hin⟩ := List.mem_flatMap.mp hin
    exact ⟨g, hgroup, Option.some.inj ((hg.hashes g hgroup url hin).symm.trans hhash), hin⟩
  · obtain ⟨item, hitem, rfl⟩ := List.mem_map.mp hin
    rw [(hg.refused item hitem).2.2] at hhash
    cases hhash

/-- An answered batch has an item for each URL that is hit. -/
theorem batch_item_of_hit (hpos : 0 < svc.maxCollisionAttempts) {url hash : String} {link : Link}
    (h : dedupHit svc w now hash ctx.scope = some link) (hurl : url ∈ urls) (hhash : hashOf svc url = some hash)
    {response : BatchCreateResponse} (hanswer : (batchCreateLinks svc w now ctx urls draws).2 = .ok response) :
    ∃ item ∈ response.items, item.url = url := by
  obtain ⟨g, hgroup, rfl, hin⟩ := group_of_url hurl hhash
  rcases batchCreateLinks_alone hpos w now ctx urls draws with ⟨-, -, hitems⟩ | ⟨e, -, -, herr⟩ | ⟨saved, db, -, -, hok⟩
  · have hnil : (groupUrls svc urls).1 = [] := (hitems response hanswer).2
    rw [hnil] at hgroup
    cases hgroup
  · rw [herr] at hanswer
    cases hanswer
  · obtain ⟨item, hitem, hsame⟩ :=
      fetched_of_hit (readBatch svc ctx (groupUrls svc urls).1) hgroup h hin draws 0
    rw [hok] at hanswer
    unfold answerBatch at hanswer
    split at hanswer
    · cases hanswer
    · cases hanswer
      exact ⟨item, by simp [BatchCreateResponse.fromResults, hitem], hsame⟩

theorem plan_ids_nodup {attempt : Nat} {groups : List UrlGroup} {resolved : List (String × ShortCode)}
    (hids : Function.Injective draws.ids) : ((plan draws attempt groups resolved).map (·.id)).Nodup := by
  have hsub : ∀ (base first : Nat) (groups : List UrlGroup),
      (((groups.zipIdx first).filterMap fun x => (resolved.lookup x.1.hash).map fun code =>
        (⟨x.1, code, draws.ids (base + x.2)⟩ : Planned)).map (·.id)).Sublist
          ((List.range' first groups.length).map fun i => draws.ids (base + i)) := by
    intro base first groups
    induction groups generalizing first with
    | nil => exact .slnil
    | cons g groups ih =>
      rw [List.zipIdx_cons, List.filterMap_cons, List.length_cons, List.range'_succ, List.map_cons]
      dsimp only
      cases resolved.lookup g.hash with
      | none => exact (ih (first + 1)).cons _
      | some code => exact (ih (first + 1)).cons_cons _
  refine List.Nodup.sublist (hsub (attempt * groups.length) 0 groups) ?_
  refine List.Nodup.map ?_ List.nodup_range'
  intro i j hij
  have := hids hij
  omega

/-- **A batch with a URL that is hit is answered**, unless something outside keeps it from running. -/
theorem batch_runs (hpos : 0 < svc.maxCollisionAttempts) {url hash : String} {link : Link}
    (h : dedupHit svc w now hash ctx.scope = some link) (hurl : url ∈ urls) (hhash : hashOf svc url = some hash)
    (hrun : Runnable svc w now ctx urls draws) :
    ∃ response, (batchCreateLinks svc w now ctx urls draws).2 = .ok response := by
  have hg := grouped svc urls
  obtain ⟨g, hgroup, rfl, hin⟩ := group_of_url hurl hhash
  rcases batchCreateLinks_alone hpos w now ctx urls draws with ⟨-, hnil, -⟩ | ⟨e, herr, -, -⟩ | ⟨saved, db, -, -, hok⟩
  · have hnil : (groupUrls svc urls).1 = [] := hnil hrun.short
    rw [hnil] at hgroup
    cases hgroup
  · -- Every link can be made and stored.
    exfalso
    obtain ⟨links, hlinks⟩ : ∃ links, (lookUp svc w now (readBatch svc ctx (groupUrls svc urls).1) draws 0).planned.mapM
        (·.create (readBatch svc ctx (groupUrls svc urls).1) now) = .ok links := by
      apply mapM_total
      intro p _
      exact Link.create_fits _ _ _ _ _ _ hrun.lifetime
    have hd := planned_drafted hg.nodup hlinks
    have hids := mapM_ok_map hlinks (p := Link.id) (r := Planned.id) fun p l hl => (Link.create_hash hl).2
    obtain ⟨db, hsave⟩ : ∃ db, w.db.saveMany links = .ok db := by
      refine Db.saveMany_total hd.nodup ?_ ?_
      · rw [hids, lookUp_eq]
        exact plan_ids_nodup hrun.distinct
      · intro l hl
        obtain ⟨p, hp, hcreate⟩ := mapM_ok_mem hlinks hl
        refine ⟨hd.free l hl, ?_, ?_⟩
        · rw [(Link.create_ok hcreate).2.2.1]
          exact hrun.caller
        · obtain ⟨i, hi⟩ : ∃ i, p.id = draws.ids i := by
            rw [lookUp_eq] at hp
            exact (mem_plan hp).2
          rw [(Link.create_hash hcreate).2, hi]
          exact hrun.fresh i
    unfold store at herr
    simp [bind, Except.bind, hlinks, hsave, pure, Except.pure] at herr
  · obtain ⟨item, hitem, -⟩ :=
      fetched_of_hit (readBatch svc ctx (groupUrls svc urls).1) hgroup h hin draws 0
    rw [hok]
    unfold answerBatch
    rw [if_neg]
    · exact ⟨_, rfl⟩
    · intro hrefused
      simp only [Bool.and_eq_true, List.isEmpty_iff] at hrefused
      rw [hrefused.1.2] at hitem
      cases hitem

end Batches

/-! ## One live link for each URL and scope -/

/-- No URL has two live links in one scope. -/
def OneLive (db : Db) (now : Instant) : Prop :=
  ∀ hash scope, (db.links.rows.filter (Link.liveIn hash scope now)).length ≤ 1

namespace OneLive

variable {db db' : Db} {now : Instant}

theorem unique (h : OneLive db now) {hash : String} {scope : DedupScope} {l l' : Link} (hl : l ∈ db.links.rows)
    (hlive : l.liveIn hash scope now = true) (hl' : l' ∈ db.links.rows) (hlive' : l'.liveIn hash scope now = true) :
    l = l' := by
  have hmem := List.mem_filter.mpr ⟨hl, hlive⟩
  have hmem' := List.mem_filter.mpr ⟨hl', hlive'⟩
  obtain ⟨x, hx⟩ : ∃ x, db.links.rows.filter (Link.liveIn hash scope now) = [x] := by
    apply List.length_eq_one_iff.mp
    have := List.length_pos_of_mem hmem
    have := h hash scope
    omega
  rw [hx] at hmem hmem'
  rw [List.mem_singleton.mp hmem, List.mem_singleton.mp hmem']

/-- Rows that go leave no more than there were. -/
theorem remove (h : OneLive db now) (hsub : db'.links.rows.Sublist db.links.rows) : OneLive db' now := by
  intro hash scope
  exact (hsub.filter _).length_le.trans (h hash scope)

/-- Time makes no link live. -/
theorem later (h : OneLive db now) {now' : Instant} (hle : now ≤ now') : OneLive db now' := by
  intro hash scope
  refine le_trans (List.Sublist.length_le ?_) (h hash scope)
  exact List.monotone_filter_right _ fun l hl => Link.liveIn_mono hle hl

/-- Links are added whose URLs have none. -/
theorem add (h : OneLive db now) (links : List Link) (hrows : db'.links.rows = links ++ db.links.rows)
    (hn : (links.map (·.urlHash)).Nodup)
    (hnew : ∀ l ∈ links, ∀ l' ∈ db.links.rows, l'.liveIn l.urlHash l.dedupScope now = false) : OneLive db' now := by
  intro hash scope
  have hlinks : (links.filter (Link.liveIn hash scope now)).length ≤ 1 := by
    have hsub : (links.filter (Link.liveIn hash scope now)).map (·.urlHash) =
        List.replicate (links.filter (Link.liveIn hash scope now)).length hash := by
      rw [List.eq_replicate_iff]
      refine ⟨List.length_map _, ?_⟩
      intro hash' hin
      obtain ⟨l, hl, rfl⟩ := List.mem_map.mp hin
      have hlive := (List.mem_filter.mp hl).2
      simp only [Link.liveIn, Bool.and_eq_true, decide_eq_true_eq] at hlive
      exact hlive.1.1
    have hnodup := hn.sublist (List.filter_sublist (p := Link.liveIn hash scope now).map (·.urlHash))
    rw [hsub] at hnodup
    exact List.nodup_replicate.mp hnodup
  rw [hrows, List.filter_append, List.length_append]
  cases hfilter : links.filter (Link.liveIn hash scope now) with
  | nil =>
    have := h hash scope
    simpa using this
  | cons l rest =>
    -- One of the new links is live, so that no old one is.
    obtain ⟨hl, hlive⟩ :=
      List.mem_filter.mp (hfilter ▸ List.mem_cons_self : l ∈ links.filter (Link.liveIn hash scope now))
    simp only [Link.liveIn, Bool.and_eq_true, decide_eq_true_eq] at hlive
    have hold : db.links.rows.filter (Link.liveIn hash scope now) = [] := by
      rw [List.filter_eq_nil_iff]
      intro l' hl' hlive'
      have := hnew l hl l' hl'
      rw [hlive.1.1, hlive.1.2, hlive'] at this
      cases this
    rw [hold, ← hfilter]
    simpa using hlinks

/-- Counting an opening takes no link's life. -/
theorem incrementClicks (h : OneLive db now) {c : ShortCode} {moment : Instant}
    (hdb : db.incrementClicks c moment = some db') :
    OneLive db' now := by
  unfold Db.incrementClicks at hdb
  split at hdb
  · cases hdb
  · cases hdb
    intro hash scope
    simp only [Db.modifyLinks, Rows.modify, List.filter_map, List.length_map]
    have hsame : (Link.liveIn hash scope now ∘ fun l : Link =>
        if l.shortCode = c then { l with clicks := l.clicks + 1, lastAccessed := some moment } else l) =
          Link.liveIn hash scope now := by
      funext l
      simp only [Function.comp]
      split <;> rfl
    rw [hsame]
    exact h hash scope

end OneLive

/-- One operation by any caller. -/
def anyStep (svc : LinkServices) (accounts : Services) (s : State) : Event → Option State
  | .createShortLink ctx url ttlSeconds customCode draws =>
    some { s with world := (createShortLink svc s.world s.now ctx url ttlSeconds customCode draws).1 }
  | .batchCreateLinks ctx urls draws => some { s with world := (batchCreateLinks svc s.world s.now ctx urls draws).1 }
  | e => step svc accounts s e

section Operations

variable {svc : LinkServices} {w : World} {now : Instant} {draws : Draws}

theorem readCreation_scope {ctx : Context} {url : String} {ttlSeconds : Int} {customCode : Option String} {q : Creation}
    (h : readCreation svc ctx url ttlSeconds customCode = .ok q) :
    q.scope = ctx.scope ∧ scopeOf q.owner q.guestId = ctx.scope ∧ hashOf svc url = some q.urlHash := by
  unfold readCreation at h
  obtain ⟨-, -, h⟩ := bind_eq_ok.mp h
  obtain ⟨code, -, h⟩ := bind_eq_ok.mp h
  obtain ⟨originalUrl, hurl, h⟩ := bind_eq_ok.mp h
  cases h
  exact ⟨rfl, rfl, by simp [hashOf, hurl, Except.toOption]⟩

theorem newLink_made {db db' : Db} {q : Creation} {attempt : Nat} {link : Link}
    (h : newLink svc db now q draws attempt = .ok (db', link)) :
    link.urlHash = q.urlHash ∧ link.dedupScope = scopeOf q.owner q.guestId := by
  unfold newLink at h
  obtain ⟨-, -, h⟩ := bind_eq_ok.mp h
  obtain ⟨code, -, h⟩ := bind_eq_ok.mp h
  obtain ⟨link', hcreate, h⟩ := bind_eq_ok.mp h
  obtain ⟨db₁, -, h⟩ := bind_eq_ok.mp h
  cases h
  obtain ⟨-, -, howner, hguest⟩ := Link.create_ok hcreate
  refine ⟨(Link.create_hash hcreate).1, ?_⟩
  rw [dedupScope_eq, howner, hguest]

/-- A creation stores one link for a URL that has none, or nothing. -/
theorem findOrCreate_oneLive (svc : LinkServices) {q : Creation} (h : OneLive w.db now)
    (hq : scopeOf q.owner q.guestId = q.scope)
    (draws : Draws) (attempt : Nat) : OneLive (findOrCreate svc w now q draws attempt).1.db now := by
  unfold findOrCreate
  dsimp only
  split
  · exact h
  · split
    · exact h
    · rename_i hlive
      split
      · exact h
      · rename_i db link hnew
        obtain ⟨hhash, hscope⟩ := newLink_made hnew
        refine h.add [link] (Db.saveLink_rows (newLink_ok hnew).1) (List.nodup_singleton _) ?_
        intro l hl
        rw [List.mem_singleton.mp hl, hhash, hscope, hq]
        exact Link.firstLive_none hlive

theorem findOrCreateRetrying_oneLive {q : Creation} (h : OneLive w.db now) (hq : scopeOf q.owner q.guestId = q.scope)
    (n : Nat) : OneLive (findOrCreateRetrying svc now q draws n w).1.db now := by
  have hkeep : ∀ (w : World) (attempt : Nat), OneLive w.db now →
      OneLive (findOrCreate svc w now q draws attempt).1.db now :=
    fun w attempt h => findOrCreate_oneLive svc h hq draws attempt
  exact findOrCreateRetrying_keeps hkeep n w h

theorem createShortLink_oneLive (h : OneLive w.db now) (ctx : Context) (url : String) (ttlSeconds : Int)
    (customCode : Option String) (draws : Draws) :
    OneLive (createShortLink svc w now ctx url ttlSeconds customCode draws).1.db now := by
  unfold createShortLink
  split
  · exact h
  · rename_i q hq
    obtain ⟨hscope, howner, -⟩ := readCreation_scope hq
    exact findOrCreateRetrying_oneLive h (howner.trans hscope.symm) svc.maxCollisionAttempts

theorem batchCreateLinks_oneLive (hpos : 0 < svc.maxCollisionAttempts) (h : OneLive w.db now) (ctx : Context)
    (urls : List String) (draws : Draws) : OneLive (batchCreateLinks svc w now ctx urls draws).1.db now := by
  obtain ⟨links, hrows, hn, hnew⟩ := batchCreateLinks_rows hpos w now ctx urls draws
  refine h.add links hrows hn ?_
  intro l hl
  obtain ⟨hscope, hnone⟩ := hnew l hl
  rw [hscope]
  exact dedupHit_none hnone

theorem redirectAndCount_oneLive (b : Backend) (h : OneLive w.db now) (code : String) (enqueued : Bool) :
    OneLive (redirectAndCount b w now code enqueued).1.db now := by
  have hdb := db_redirectLink b w now code
  unfold redirectAndCount
  split
  · rename_i w' url heq
    rw [heq] at hdb
    rw [← hdb] at h
    unfold clickTask
    split
    · unfold updateLinkStats
      split
      · exact h
      · split
        · rename_i db hincrement
          exact h.incrementClicks hincrement
        · exact h
    · exact h
  · rw [hdb]
    exact h

/-- What a deletion leaves was there. -/
theorem deleteLink_rows (b : Backend) (w : World) (ctx : Context) (code : String) (enforceOwnership : Bool)
    (authorizedLinkId : Option Uuid) :
    (deleteLink b w ctx code enforceOwnership authorizedLinkId).1.db.links.rows.Sublist w.db.links.rows := by
  unfold deleteLink
  split
  · exact .refl _
  · split
    · exact .refl _
    · split
      · exact .refl _
      · split
        · exact .refl _
        · rename_i db hdb
          have hdb : (w.db.deleteLink _).2 = db := congrArg Prod.snd hdb
          rw [← hdb]
          exact List.filter_sublist

theorem deleteUser_rows (b : Backend) (w : World) (actor : Option Uuid) (userId : Uuid) :
    (deleteUser b w actor userId).1.db.links.rows.Sublist w.db.links.rows := by
  unfold deleteUser
  split
  · exact .refl _
  · exact .refl _
  · rename_i db links hdel
    unfold Admin.deleteUser at hdel
    obtain ⟨-, -, hdel⟩ := bind_eq_ok.mp hdel
    obtain ⟨-, -, hdel⟩ := bind_eq_ok.mp hdel
    split at hdel
    · cases hdel
    · cases hdel
      exact List.filter_sublist.trans List.filter_sublist

end Operations

/-- **Every operation keeps one live link for each URL and scope.** -/
theorem anyStep_oneLive {svc : LinkServices} {accounts : Services} (hpos : 0 < svc.maxCollisionAttempts) {s s' : State}
    {e : Event} (hstep : anyStep svc accounts s e = some s') (h : OneLive s.world.db s.now) :
    OneLive s'.world.db s'.now := by
  cases e with
  | createShortLink ctx url ttlSeconds customCode draws =>
    cases hstep
    exact createShortLink_oneLive h ctx url ttlSeconds customCode draws
  | batchCreateLinks ctx urls draws =>
    cases hstep
    exact batchCreateLinks_oneLive hpos h ctx urls draws
  | redirectLink code enqueued =>
    cases hstep
    exact redirectAndCount_oneLive svc.backend h code enqueued
  | deleteLink ctx code enforceOwnership authorizedLinkId =>
    cases hstep
    exact h.remove (deleteLink_rows svc.backend s.world ctx code enforceOwnership authorizedLinkId)
  | deleteUser actor userId =>
    cases hstep
    exact h.remove (deleteUser_rows svc.backend s.world actor userId)
  | cleanExpiredLinks =>
    cases hstep
    exact h.remove List.filter_sublist
  | cleanUnverifiedAccounts =>
    cases hstep
    exact h.remove List.filter_sublist
  | evict codes hashes redirects =>
    cases hstep
    exact h
  | tick now =>
    simp only [anyStep, step] at hstep
    split at hstep
    · rename_i hle
      cases hstep
      exact h.later hle
    · cases hstep

/-- The creations of a URL by a caller of the scope are answered with the link, and store nothing for the URL. -/
structure HandsOut (svc : LinkServices) (w : World) (now : Instant) (hash : String) (scope : DedupScope) (link : Link) :
    Prop where
  createShortLink : ∀ ctx url ttlSeconds customCode draws q, readCreation svc ctx url ttlSeconds customCode = .ok q →
    q.urlHash = hash → q.scope = scope →
      (createShortLink svc w now ctx url ttlSeconds customCode draws).1.db = w.db ∧
      ∃ response, (createShortLink svc w now ctx url ttlSeconds customCode draws).2 = .ok response ∧
        response.shortCode = link.shortCode.val ∧ response.linkId = link.id
  /-- A batch stores nothing for the hash. -/
  inserts : ∀ ctx urls draws, ctx.scope = scope →
    ∀ row ∈ (batchCreateLinks svc w now ctx urls draws).1.db.links.rows, row.urlHash = hash → row ∈ w.db.links.rows
  /-- An answered batch has an item for each URL of the hash, and every such item carries the code. -/
  items : ∀ ctx urls draws response, ctx.scope = scope → (batchCreateLinks svc w now ctx urls draws).2 = .ok response →
    (∀ url ∈ urls, hashOf svc url = some hash → ∃ item ∈ response.items, item.url = url) ∧
      ∀ item ∈ response.items, hashOf svc item.url = some hash →
        item.success = true ∧ item.isNew = false ∧ item.shortCode = some link.shortCode.val
  /-- A batch with such a URL is answered. -/
  answers : ∀ ctx urls draws, ctx.scope = scope → (∃ url ∈ urls, hashOf svc url = some hash) →
    Runnable svc w now ctx urls draws → ∃ response, (batchCreateLinks svc w now ctx urls draws).2 = .ok response

theorem handsOut_of_hit {svc : LinkServices} (hpos : 0 < svc.maxCollisionAttempts) {w : World} {now : Instant}
    {hash : String} {scope : DedupScope} {link : Link} (h : dedupHit svc w now hash scope = some link) :
    HandsOut svc w now hash scope link := by
  constructor
  · rintro ctx url ttlSeconds customCode draws q hq rfl rfl
    obtain ⟨hdb, fromCache, hanswer⟩ := createShortLink_of_hit hpos hq h draws
    exact ⟨hdb, _, hanswer, rfl, rfl⟩
  · rintro ctx urls draws rfl row hrow rfl
    obtain ⟨links, hrows, -, hnew⟩ := batchCreateLinks_rows hpos w now ctx urls draws
    rw [hrows] at hrow
    rcases List.mem_append.mp hrow with hin | hin
    · have hnone := (hnew row hin).2
      rw [h] at hnone
      cases hnone
    · exact hin
  · rintro ctx urls draws response rfl hanswer
    refine ⟨?_, batch_of_hit hpos h hanswer⟩
    intro url hurl hhash
    exact batch_item_of_hit hpos h hurl hhash hanswer
  · rintro ctx urls draws rfl ⟨url, hurl, hhash⟩ hrun
    exact batch_runs hpos h hurl hhash hrun

/-- **Deduplication leaves at most one live link for each URL and scope**, over every history, and whoever creates the
URL in the scope again is answered with that link. -/
theorem one_live_link_for_each_url_and_scope (svc : LinkServices) (accounts : Services)
    (hpos : 0 < svc.maxCollisionAttempts) (s s' : State) (hstart : OneLive s.world.db s.now) (events : List Event)
    (hrun : run (anyStep svc accounts) s events = some s') :
    OneLive s'.world.db s'.now ∧ ∀ hash scope, ∀ link ∈ s'.world.db.links.rows, link.liveIn hash scope s'.now = true →
      HandsOut svc s'.world s'.now hash scope link := by
  have hkept : ∀ {s : State} {e : Event} {s' : State}, anyStep svc accounts s e = some s' → OneLive s.world.db s.now →
      OneLive s'.world.db s'.now := anyStep_oneLive hpos
  have hone := run_inv (I := fun s : State => OneLive s.world.db s.now) hkept hrun hstart
  refine ⟨hone, ?_⟩
  intro hash scope link hlink hlive
  cases hhit : dedupHit svc s'.world s'.now hash scope with
  | none =>
    have hdead := dedupHit_none hhit link hlink
    rw [hlive] at hdead
    cases hdead
  | some link' =>
    obtain ⟨hlink', hlive'⟩ := dedupHit_some hhit
    cases hone.unique hlink hlive hlink' hlive'
    exact handsOut_of_hit hpos hhit

/-! A guest shortens a URL, deletes the link, and shortens the URL twice more, the second time in a batch. -/

def shorteningAgain : List Event :=
  let guest : Context := ⟨none, some "192.0.2.1"⟩
  let draws (id : Uuid) : Draws := ⟨fun _ => id, fun _ _ => ⟨"cccccc", isCode_cccccc⟩⟩
  [.createShortLink guest "https://one.example" 60 (some "my-link") (draws 1), .deleteLink guest "my-link" false none,
    .createShortLink guest "https://one.example" 60 none (draws 2),
    .evict (fun _ => true) (fun _ _ => true) (fun _ => true), .tick 30,
    .batchCreateLinks guest ["https://one.example", "https://one.example"] (draws 3)]

theorem one_live_link_after_shortening_again :
    ∃ s, run (anyStep sampleServices sampleAccounts) (.start (Db.empty []) 0) shorteningAgain = some s ∧
      s.world.db.links.rows.length = 1 ∧ OneLive s.world.db s.now := by
  have hrun : (run (anyStep sampleServices sampleAccounts) (.start (Db.empty []) 0) shorteningAgain).map
      (fun s => s.world.db.links.rows.length) = some 1 := by decide +kernel
  obtain ⟨s, hs, hlength⟩ := Option.map_eq_some_iff.mp hrun
  have hempty : OneLive (Db.empty []) 0 := fun _ _ => Nat.zero_le 1
  exact ⟨s, hs, hlength, (one_live_link_for_each_url_and_scope sampleServices sampleAccounts (by decide)
    (.start (Db.empty []) 0) s hempty shorteningAgain hs).1⟩

/-! ## Several live links -/

/-- The link is the oldest live one of the URL in the scope. -/
structure Oldest (db : Db) (now : Instant) (hash : String) (scope : DedupScope) (link : Link) : Prop where
  row : link ∈ db.links.rows
  live : link.liveIn hash scope now = true
  oldest : ∀ l ∈ db.links.rows, l.liveIn hash scope now = true → ¬ l.older link = true

/-- If what the cache names is a live link of the URL, it is this one. -/
def NamesOnly (svc : LinkServices) (w : World) (now : Instant) (hash : String) (scope : DedupScope) (link : Link) :
    Prop :=
  ∀ cached stored, w.cache.getByHash svc.backend hash scope = some cached →
    w.db.findByCode cached.shortCode = some stored → stored.liveIn hash scope now = true → stored = link

section Several

variable {svc : LinkServices} {w : World} {now : Instant} {hash : String} {scope : DedupScope} {link : Link}

/-- The database hands out the oldest. -/
theorem Oldest.findLiveByHash {db : Db} (h : Oldest db now hash scope link) :
    db.findLiveByHash hash scope now = some link := by
  cases hfind : db.findLiveByHash hash scope now with
  | none =>
    have hdead := Link.firstLive_none hfind link h.row
    rw [h.live] at hdead
    cases hdead
  | some first =>
    obtain ⟨hrow, hlive⟩ := Link.firstLive_some hfind
    -- Neither is older than the other, so that they have one identifier.
    have hid : first.id = link.id :=
      Link.id_eq_of_not_older (h.oldest first hrow hlive) (Link.firstLive_oldest hfind link h.row h.live)
    have hcode := db.linkIds (Db.mem_links_iff.mp hrow) (Db.mem_links_iff.mp h.row) hid
    exact congrArg some (List.inj_on_of_nodup_map db.links.nodup hrow h.row hcode)

theorem dedupHit_oldest_iff (h : Oldest w.db now hash scope link) :
    dedupHit svc w now hash scope = some link ↔ NamesOnly svc w now hash scope link := by
  unfold dedupHit NamesOnly
  constructor
  · intro hhit cached stored hcached hstored hlive
    have hconfirm : (w.cache.getByHash svc.backend hash scope).bind (confirm now w.db.findByCode hash scope) =
        some stored := by
      rw [hcached, Option.bind_some, confirm, hstored, Option.filter_some, if_pos hlive]
    rw [hconfirm] at hhit
    exact Option.some.inj hhit
  · intro hnames
    split
    · rename_i link' hconfirm
      obtain ⟨⟨cached, hcached, hstored⟩, hlive⟩ := confirm_some hconfirm
      rw [hnames cached link' hcached hstored hlive]
    · exact h.findLiveByHash

/-- The code of a hit is the code of no other link. -/
theorem dedupHit_code_iff (h : Oldest w.db now hash scope link) {link' : Link}
    (hhit : dedupHit svc w now hash scope = some link') :
    link'.shortCode.val = link.shortCode.val ↔ NamesOnly svc w now hash scope link := by
  rw [← dedupHit_oldest_iff h, hhit, Option.some.injEq]
  constructor
  · intro hcode
    exact List.inj_on_of_nodup_map w.db.links.nodup (dedupHit_some hhit).1 h.row (Subtype.ext hcode)
  · rintro rfl
    rfl

/-- **Where a URL has several live links, a caller is handed the oldest exactly when the cache names none of the others**,
alone or in a batch. -/
theorem hits_are_the_oldest_iff (svc : LinkServices) (hpos : 0 < svc.maxCollisionAttempts) (w : World) (now : Instant)
    (hash : String) (scope : DedupScope) (link : Link) (h : Oldest w.db now hash scope link) :
    (∀ ctx url ttlSeconds customCode draws q, readCreation svc ctx url ttlSeconds customCode = .ok q →
      q.urlHash = hash → q.scope = scope →
        ((∃ response, (createShortLink svc w now ctx url ttlSeconds customCode draws).2 = .ok response ∧
          response.shortCode = link.shortCode.val) ↔ NamesOnly svc w now hash scope link)) ∧
    ∀ ctx urls draws response, ctx.scope = scope → (∃ url ∈ urls, hashOf svc url = some hash) →
      (batchCreateLinks svc w now ctx urls draws).2 = .ok response →
        ((∀ item ∈ response.items, hashOf svc item.url = some hash → item.shortCode = some link.shortCode.val) ↔
          NamesOnly svc w now hash scope link) := by
  obtain ⟨link', hhit⟩ : ∃ link', dedupHit svc w now hash scope = some link' := by
    cases hhit : dedupHit svc w now hash scope with
    | none =>
      have hdead := dedupHit_none hhit link h.row
      rw [h.live] at hdead
      cases hdead
    | some link' => exact ⟨link', rfl⟩
  rw [← dedupHit_code_iff h hhit]
  constructor
  · rintro ctx url ttlSeconds customCode draws q hq rfl rfl
    obtain ⟨-, fromCache, hanswer⟩ := createShortLink_of_hit hpos hq hhit draws
    rw [hanswer]
    constructor
    · rintro ⟨response, hresponse, hcode⟩
      cases hresponse
      exact hcode
    · intro hcode
      exact ⟨_, rfl, hcode⟩
  · rintro ctx urls draws response rfl ⟨url, hurl, hhash⟩ hanswer
    have hitems := batch_of_hit hpos hhit hanswer
    constructor
    · intro hall
      obtain ⟨item, hitem, rfl⟩ := batch_item_of_hit hpos hhit hurl hhash hanswer
      have hcode := (hitems item hitem hhash).2.2.symm.trans (hall item hitem hhash)
      exact Option.some.inj hcode
    · intro hcode item hitem hitemHash
      rw [(hitems item hitem hitemHash).2.2, hcode]

end Several

/-! Two guests' requests from one address came at once and left two links for one URL. -/

def twin (id : Uuid) (code : ShortCode) (createdAt : Instant) : Link :=
  ⟨id, "https://one.example", code, "https://one.example", createdAt, 0, none, none, none, some "192.0.2.1"⟩

def olderTwin : Link := twin 1 ⟨"aaaaaa", isCode_aaaaaa⟩ 0

def youngerTwin : Link := twin 2 ⟨"bbbbbb", isCode_bbbbbb⟩ 1

def twins : Db :=
  match (Db.empty []).saveMany [olderTwin, youngerTwin] with
  | .ok db => db
  | .error _ => Db.empty []

/-- The code a creation of the URL is answered with, and those a batch of it is answered with. -/
def codesFor (w : World) : Option String × Option (List (Option String)) :=
  let guest : Context := ⟨none, some "192.0.2.1"⟩
  let draws : Draws := ⟨fun i => i + 3, fun _ _ => ⟨"cccccc", isCode_cccccc⟩⟩
  ((createShortLink sampleServices w 2 guest "https://one.example" 0 none draws).2.toOption.map (·.shortCode),
    (batchCreateLinks sampleServices w 2 guest ["https://one.example"] draws).2.toOption.map
      fun response => response.items.map (·.shortCode))

/-- Once the younger one has been opened, everybody is handed the younger one. -/
theorem opening_the_younger_twin_hands_it_out :
    let opened := (redirectLink .redis ⟨twins, Cache.empty⟩ 2 "bbbbbb").1
    opened.db.links.rows = twins.links.rows ∧
      twins.findLiveByHash "https://one.example" (.guest (some "192.0.2.1")) 2 = some olderTwin ∧
      codesFor ⟨twins, Cache.empty⟩ = (some "aaaaaa", some [some "aaaaaa"]) ∧
      codesFor opened = (some "bbbbbb", some [some "bbbbbb"]) := by
  decide +kernel

theorem hits_are_the_oldest_while_nothing_is_cached :
    ∃ response, (createShortLink sampleServices ⟨twins, Cache.empty⟩ 2 ⟨none, some "192.0.2.1"⟩ "https://one.example" 0 none
      ⟨fun i => i + 3, fun _ _ => ⟨"cccccc", isCode_cccccc⟩⟩).2 = .ok response ∧ response.shortCode = "aaaaaa" := by
  have hold : Oldest twins 2 "https://one.example" (.guest (some "192.0.2.1")) olderTwin := by
    constructor <;> decide +kernel
  refine ((hits_are_the_oldest_iff sampleServices (by decide) ⟨twins, Cache.empty⟩ 2 "https://one.example"
    (.guest (some "192.0.2.1")) olderTwin hold).1 _ _ _ _ _ _ rfl rfl rfl).mpr ?_
  intro cached stored hcached
  cases hcached

end LinkShortener.Links
