import LinkShortener.Links.Transparency

/-!
# What a redirect does about a missing row

The row of a code is gone, and the cache may still have something to say about the code. A redirect that is answered
enqueues its click task, which finds no row to count and drops both levels; a redirect that finds neither level says so.
From then on nothing answers for the code (`Gone`), until a link is created under it (`step_gone`). A redirect that meets
an entry past its expiry is refused without a task, and leaves the entry where it is. So does one that is answered and whose
task the queue does not take.

* `Mute`: neither level of the cache answers, now or later.
* `Noticed`: after one redirect and its click task, with whatever else in between and afterwards, every redirect is
  answered "not found". `missing_row_is_noticed_iff`: this is so if nothing answers for the code, or if what answers is alive
  and the task is taken, and otherwise it is not.
-/

namespace LinkShortener.Links

open Runs

/-! ## A cache that does not answer -/

/-- Neither level of the cache answers for the code, from this moment on. -/
structure Mute (b : Backend) (now : Instant) (c : ShortCode) (cache : Cache) : Prop where
  byCode : cache.getByCode b c = none
  redirect : ∀ now', now ≤ now' → cache.getRedirect b now' c = none

section Mute

variable {b : Backend} {cache cache' : Cache} {now now' : Instant} {c : ShortCode} {link : Link}

theorem getByCode_within (h : cache'.Within cache) (hl : cache'.getByCode b c = some link) :
    cache.getByCode b c = some link := by
  cases b with
  | null => cases hl
  | memory => exact h.byCode c link hl
  | redis => exact h.byCode c link hl

theorem getRedirect_within {entry : CachedRedirect} (h : cache'.Within cache)
    (he : cache'.getRedirect b now c = some entry) : cache.getRedirect b now c = some entry := by
  cases b with
  | null => cases he
  | memory =>
    obtain ⟨hentry, hok⟩ := Option.filter_eq_some_iff.mp he
    exact Option.filter_eq_some_iff.mpr ⟨h.redirects c entry hentry, hok⟩
  | redis =>
    obtain ⟨hentry, hok⟩ := Option.filter_eq_some_iff.mp he
    exact Option.filter_eq_some_iff.mpr ⟨h.redirects c entry hentry, hok⟩

namespace Mute

/-- Entries that go do not make a cache answer. -/
theorem within (h : Mute b now c cache) (hsub : cache'.Within cache) : Mute b now c cache' := by
  constructor
  · by_contra hne
    obtain ⟨link, hl⟩ := Option.ne_none_iff_exists'.mp hne
    have hold := getByCode_within hsub hl
    rw [h.byCode] at hold
    cases hold
  · intro now' hle
    by_contra hne
    obtain ⟨entry, he⟩ := Option.ne_none_iff_exists'.mp hne
    have hold := getRedirect_within hsub he
    rw [h.redirect now' hle] at hold
    cases hold

theorem later (h : Mute b now c cache) (hle : now ≤ now') : Mute b now' c cache := by
  refine ⟨h.byCode, ?_⟩
  intro now'' hle'
  exact h.redirect now'' (le_trans hle hle')

/-- What is written for another code changes nothing. -/
theorem congr (h : Mute b now c cache) (hcode : cache'.byCode c = cache.byCode c)
    (hredirect : cache'.redirects c = cache.redirects c) : Mute b now c cache' := by
  constructor
  · have hbyCode := h.byCode
    unfold Cache.getByCode at hbyCode ⊢
    rw [hcode]
    exact hbyCode
  · intro now' hle
    have hredirects := h.redirect now' hle
    unfold Cache.getRedirect at hredirects ⊢
    rw [hredirect]
    exact hredirects

theorem save (h : Mute b now c cache) (hne : c ≠ link.shortCode) : Mute b now c (cache.save b now' link) := by
  unfold Cache.save
  split
  · exact h
  · exact h.congr (Function.update_of_ne hne _ _) (Function.update_of_ne hne _ _)

theorem saveRedirect {c' : ShortCode} {url : String} {expiresAt : Option Instant} (h : Mute b now c cache)
    (hne : c ≠ c') : Mute b now c (cache.saveRedirect b now' c' url expiresAt) := by
  unfold Cache.saveRedirect
  split
  · exact h
  · split
    · exact h
    · exact h.congr rfl (Function.update_of_ne hne _ _)

/-- What the click task leaves for a code without a row. -/
theorem dropped (b : Backend) (now : Instant) (c : ShortCode) (cache : Cache) :
    Mute b now c ((cache.deleteRedirect b c).deleteByCode b c) := by
  cases b with
  | null => exact ⟨rfl, fun _ _ => rfl⟩
  | memory =>
    constructor
    · simp only [Cache.getByCode, Cache.deleteByCode, Function.update_self]
    · intro now' _
      simp only [Cache.getRedirect, Cache.deleteByCode, Function.update_self, Option.filter_none]
  | redis =>
    constructor
    · simp only [Cache.getByCode, Cache.deleteByCode, Function.update_self]
    · intro now' _
      simp only [Cache.getRedirect, Cache.deleteByCode, Function.update_self, Option.filter_none]

end Mute

end Mute

/-! ## What the operations leave mute -/

section Operations

variable {svc : LinkServices} {b : Backend} {w : World} {now : Instant} {c : ShortCode} {draws : Draws}

theorem ne_of_row {c' : ShortCode} {link : Link} {db : Db} (hrow : db.findByCode c = none)
    (h : db.findByCode c' = some link) : c ≠ link.shortCode := by
  intro he
  rw [he, Db.findByCode_shortCode h, h] at hrow
  cases hrow

/-- A redirect of a mute code caches nothing for it. -/
theorem redirectLink_mute (hrow : w.db.findByCode c = none) (h : Mute b now c w.cache) (code : String) :
    Mute b now c (redirectLink b w now code).1.cache := by
  unfold redirectLink
  cases codeToLookUp code with
  | error e => exact h
  | ok c' =>
    simp only
    split
    · split <;> exact h
    · split
      · rename_i link hl2
        split
        · exact h
        · apply h.saveRedirect
          rintro rfl
          rw [h.byCode] at hl2
          cases hl2
      · split
        · exact h
        · rename_i link hlink
          split
          · exact h
          · exact h.save (ne_of_row hrow hlink)

theorem updateLinkStats_mute (h : Mute b now c w.cache) (now' : Instant) (code : String) :
    Mute b now c (updateLinkStats b w now' code).cache := by
  unfold updateLinkStats
  split
  · exact h
  · split
    · exact h
    · exact h.within ((Cache.Within.deleteByCode _ _ _).trans (Cache.Within.deleteRedirect _ _ _))

/-- The task of a code without a row makes it mute. -/
theorem updateLinkStats_of_missing (hrow : w.db.findByCode c = none) (now' : Instant) :
    (updateLinkStats b w now' c.val).db = w.db ∧ Mute b now c (updateLinkStats b w now' c.val).cache := by
  have hparse : ShortCode.parse c.val = .ok c := dif_pos c.property
  have hmissing : w.db.incrementClicks c now' = none := by
    unfold Db.incrementClicks
    rw [hrow]
    rfl
  unfold updateLinkStats
  simp only [hparse, hmissing]
  exact ⟨trivial, .dropped b now c w.cache⟩

theorem redirectAndCount_mute (hrow : w.db.findByCode c = none) (h : Mute b now c w.cache) (code : String)
    (enqueued : Bool) : Mute b now c (redirectAndCount b w now code enqueued).1.cache := by
  have hr := redirectLink_mute hrow h code
  unfold redirectAndCount
  split
  · rename_i w' url heq
    rw [heq] at hr
    unfold clickTask
    split
    · exact updateLinkStats_mute hr now code
    · exact hr
  · exact hr

theorem deleteLink_within (w : World) (ctx : Context) (code : String) (enforceOwnership : Bool)
    (authorizedLinkId : Option Uuid) :
    (deleteLink b w ctx code enforceOwnership authorizedLinkId).1.cache.Within w.cache := by
  unfold deleteLink
  split
  · exact .refl _
  · split
    · exact (Cache.Within.deleteRedirect _ _ _).trans (.deleteByCode _ _ _)
    · split
      · exact .refl _
      · split
        · exact .refl _
        · exact (Cache.Within.deleteRedirect _ _ _).trans (.delete _ _ _)

theorem deleteUser_within (w : World) (actor : Option Uuid) (userId : Uuid) :
    (deleteUser b w actor userId).1.cache.Within w.cache := by
  unfold deleteUser
  split
  · exact .refl _
  · exact .refl _
  · exact .foldl (fun _ _ => (Cache.Within.deleteRedirect _ _ _).trans (.delete _ _ _)) _ _

theorem cleanExpiredLinks_within (w : World) (now : Instant) : (cleanExpiredLinks b w now).1.cache.Within w.cache :=
  .foldl (fun _ _ => .delete _ _ _) _ _

/-- A batch drops what is stale and caches nothing. -/
theorem lookUpAndCreate_within (w : World) (q : Batch) (attempt : Nat) :
    (lookUpAndCreate svc w now q draws attempt).1.cache.Within w.cache := by
  unfold lookUpAndCreate
  extract_lets stored cached cache missing live remaining groups planned saving
  have hdropped : cache.Within w.cache := .foldl (fun _ _ => .delete _ _ _) _ _
  cases saving with
  | error e => exact hdropped
  | ok r => exact hdropped

theorem lookUpAndCreateRetrying_within (q : Batch) (n : Nat) (w : World) :
    (lookUpAndCreateRetrying svc now q draws n w).1.cache.Within w.cache := by
  have hkeep : ∀ (w' : World) (attempt : Nat), w'.cache.Within w.cache →
      (lookUpAndCreate svc w' now q draws attempt).1.cache.Within w.cache :=
    fun w' attempt h => (lookUpAndCreate_within w' q attempt).trans h
  exact lookUpAndCreateRetrying_keeps hkeep n w (.refl _)

theorem batchCreateLinks_within (w : World) (ctx : Context) (urls : List String) :
    (batchCreateLinks svc w now ctx urls draws).1.cache.Within w.cache := by
  rw [batchCreateLinks_fst]
  split
  · exact .refl _
  · split
    · exact .refl _
    · split
      · exact .refl _
      · exact lookUpAndCreateRetrying_within _ _ w

/-- An attempt caches a row that is there or the one it stores; one that fails stores none. -/
theorem findOrCreate_mute (hrow : w.db.findByCode c = none) (h : Mute svc.backend now c w.cache) (q : Creation)
    (attempt : Nat) :
    ((findOrCreate svc w now q draws attempt).1.db.findByCode c = none →
        Mute svc.backend now c (findOrCreate svc w now q draws attempt).1.cache) ∧
      ∀ e, (findOrCreate svc w now q draws attempt).2 = .error e →
        (findOrCreate svc w now q draws attempt).1.db = w.db := by
  unfold findOrCreate
  extract_lets cached cache
  have hcache : Mute svc.backend now c cache := by
    dsimp only [cache]
    cases cached with
    | some stale => exact h.within (.delete _ _ _)
    | none => exact h
  split
  · exact ⟨fun _ => h, nofun⟩
  · split
    · rename_i existing hexisting
      obtain ⟨hmem, -⟩ := Link.firstLive_some hexisting
      refine ⟨fun _ => hcache.save ?_, nofun⟩
      exact ne_of_row hrow (Db.mem_links_iff.mp hmem)
    · split
      · exact ⟨fun _ => hcache, fun _ _ => rfl⟩
      · rename_i db link hnew
        refine ⟨?_, nofun⟩
        intro hnone
        apply hcache.save
        rintro rfl
        obtain ⟨-, -, hfind⟩ := Db.saveLink_ok (newLink_ok hnew).1
        have hstored : db.findByCode link.shortCode = none := hnone
        rw [hfind, if_pos rfl] at hstored
        cases hstored

theorem findOrCreateRetrying_mute (q : Creation) (n : Nat) (w : World) (hrow : w.db.findByCode c = none)
    (h : Mute svc.backend now c w.cache) (hnone : (findOrCreateRetrying svc now q draws n w).1.db.findByCode c = none) :
    Mute svc.backend now c (findOrCreateRetrying svc now q draws n w).1.cache := by
  induction n generalizing w with
  | zero => exact h
  | succ n ih =>
    obtain ⟨hmute, hfailed⟩ := @findOrCreate_mute svc w now c draws hrow h q (svc.maxCollisionAttempts - (n + 1))
    unfold findOrCreateRetrying at hnone ⊢
    split at hnone
    · rename_i w' e heq
      rw [heq] at hmute hfailed
      have hdb : w'.db = w.db := hfailed e rfl
      rw [hdb] at hmute
      split at hnone
      · rename_i hconflict
        simp only [if_pos hconflict]
        exact ih w' (hdb ▸ hrow) (hmute hrow) hnone
      · rename_i hconflict
        simp only [if_neg hconflict]
        exact hmute hrow
    · exact hmute hnone

theorem createShortLink_mute (hrow : w.db.findByCode c = none) (h : Mute svc.backend now c w.cache) (ctx : Context)
    (url : String) (ttlSeconds : Int) (customCode : Option String)
    (hnone : (createShortLink svc w now ctx url ttlSeconds customCode draws).1.db.findByCode c = none) :
    Mute svc.backend now c (createShortLink svc w now ctx url ttlSeconds customCode draws).1.cache := by
  unfold createShortLink at hnone ⊢
  cases hread : readCreation svc ctx url ttlSeconds customCode with
  | error e => exact h
  | ok q =>
    rw [hread] at hnone
    exact findOrCreateRetrying_mute q _ w hrow h hnone

end Operations

/-! ## Histories -/

/-- No row carries the code, and the cache does not answer for it. -/
structure Gone (b : Backend) (c : ShortCode) (s : State) : Prop where
  row : s.world.db.findByCode c = none
  mute : Mute b s.now c s.world.cache

section Histories

variable {svc : LinkServices} {accounts : Services} {s s' : State} {c : ShortCode}

/-- A redirect of a code that is gone says so. -/
theorem Gone.redirect {b : Backend} (h : Gone b c s) :
    (redirectLink b s.world s.now c.val).2 = .error (.linkNotFound c.val) := by
  have hlook : codeToLookUp c.val = .ok c := by
    unfold codeToLookUp ShortCode.parse
    rw [dif_pos c.property]
  unfold redirectLink
  simp only [hlook, h.mute.redirect s.now (le_refl _), h.mute.byCode, h.row]

/-- The event creates no link under the code. -/
def Uncreated (svc : LinkServices) (accounts : Services) (c : ShortCode) (s : State) (e : Event) : Prop :=
  ∀ s', step svc accounts s e = some s' → s'.world.db.findByCode c = none

/-- **What is gone stays gone** until a link is created. -/
theorem step_gone {e : Event} (hun : Uncreated svc accounts c s e) (h : step svc accounts s e = some s')
    (hg : Gone svc.backend c s) : Gone svc.backend c s' := by
  refine ⟨hun s' h, ?_⟩
  have hnone := hun s' h
  cases e with
  | createShortLink ctx url ttlSeconds customCode draws =>
    simp only [step] at h
    split at h
    · cases h
      exact createShortLink_mute hg.row hg.mute ctx url ttlSeconds customCode hnone
    · cases h
  | batchCreateLinks ctx urls draws =>
    simp only [step] at h
    split at h
    · cases h
      exact hg.mute.within (batchCreateLinks_within _ ctx urls)
    · cases h
  | redirectLink code enqueued =>
    cases h
    exact redirectAndCount_mute hg.row hg.mute code enqueued
  | deleteLink ctx code enforceOwnership authorizedLinkId =>
    cases h
    exact hg.mute.within (deleteLink_within _ ctx code enforceOwnership authorizedLinkId)
  | deleteUser actor userId =>
    cases h
    exact hg.mute.within (deleteUser_within _ actor userId)
  | cleanExpiredLinks =>
    cases h
    exact hg.mute.within (cleanExpiredLinks_within _ _)
  | cleanUnverifiedAccounts =>
    cases h
    exact hg.mute
  | evict codes hashes redirects =>
    cases h
    exact hg.mute.within (.evict _ _ _ _)
  | tick now =>
    simp only [step] at h
    split at h
    · rename_i hle
      cases h
      exact hg.mute.later hle
    · cases h

theorem run_gone {es : List Event} (hun : Meets (step svc accounts) (Uncreated svc accounts c) s es)
    (h : run (step svc accounts) s es = some s') (hg : Gone svc.backend c s) : Gone svc.backend c s' :=
  run_inv_of_meets step_gone hun h hg

/-- A history that creates no link under the code leaves the code without a row. -/
theorem run_missing {es : List Event} (hun : Meets (step svc accounts) (Uncreated svc accounts c) s es)
    (h : run (step svc accounts) s es = some s') (hrow : s.world.db.findByCode c = none) :
    s'.world.db.findByCode c = none :=
  run_inv_of_meets (I := fun s => s.world.db.findByCode c = none) (fun hun hstep _ => hun _ hstep) hun h hrow

/-! ## One redirect -/

/-- What one redirect leaves behind. -/
def redirected (svc : LinkServices) (c : ShortCode) (s : State) : State :=
  { s with world := (redirectLink svc.backend s.world s.now c.val).1 }

/-- The click task of the redirect made from `s`, run at `s'`: there is one when the redirect was answered and the queue took
it. -/
def taskRun (svc : LinkServices) (c : ShortCode) (s : State) (enqueued : Bool) (s' : State) : State :=
  match (redirectLink svc.backend s.world s.now c.val).2 with
  | .ok _ => { s' with world := clickTask svc.backend s'.world s'.now c.val enqueued }
  | .error _ => s'

/-- **A missing row is noticed by one redirect**: once it has been answered and its click task, if one was enqueued, has run,
every later redirect is told that there is no such link. Anything may happen before the task and after it, as long as no
link is created under the code. -/
def Noticed (svc : LinkServices) (accounts : Services) (c : ShortCode) (s : State) (enqueued : Bool) : Prop :=
  ∀ es s₁, run (step svc accounts) (redirected svc c s) es = some s₁ →
    Meets (step svc accounts) (Uncreated svc accounts c) (redirected svc c s) es →
    ∀ es' s', run (step svc accounts) (taskRun svc c s enqueued s₁) es' = some s' →
      Meets (step svc accounts) (Uncreated svc accounts c) (taskRun svc c s enqueued s₁) es' →
      (redirectLink svc.backend s'.world s'.now c.val).2 = .error (.linkNotFound c.val)

/-- Neither level has an entry that answers for the code. -/
def answersNothing (b : Backend) (now : Instant) (c : ShortCode) (cache : Cache) : Bool :=
  (cache.getRedirect b now c).isNone && (cache.getByCode b c).isNone

/-- The entry that answers for a code, the redirect or else the link, is past its expiry. -/
def answersExpired (b : Backend) (now : Instant) (c : ShortCode) (cache : Cache) : Bool :=
  match cache.getRedirect b now c with
  | some entry => entry.isExpired now
  | none => (cache.getByCode b c).any (·.isExpired now)

theorem expiredAt_mono {now now' : Instant} {expiresAt : Option Instant} (hle : now ≤ now')
    (h : expiredAt now expiresAt = true) : expiredAt now' expiresAt = true := by
  obtain ⟨e, he, hpast⟩ := Option.any_eq_true _ _ |>.mp h
  exact (Option.any_eq_true _ _).mpr ⟨e, he, decide_eq_true (le_trans (of_decide_eq_true hpast) hle)⟩

/-- A redirect that is not handed out now is not handed out later. -/
theorem getRedirect_later {b : Backend} {cache : Cache} {now now' : Instant} (hle : now ≤ now')
    (h : cache.getRedirect b now c = none) : cache.getRedirect b now' c = none := by
  cases b with
  | null => rfl
  | redis => exact h
  | memory =>
    by_contra hne
    obtain ⟨entry, he⟩ := Option.ne_none_iff_exists'.mp hne
    obtain ⟨hentry, hok⟩ := Option.filter_eq_some_iff.mp he
    obtain ⟨hcode, hlive⟩ := Bool.and_eq_true_iff.mp hok
    have hlive' : (!entry.isExpired now) = true := by
      by_contra hexpired
      have hpast : entry.isExpired now = true := by simpa using hexpired
      have hpast' : entry.isExpired now' = true := expiredAt_mono hle hpast
      rw [hpast'] at hlive
      cases hlive
    have hold : cache.getRedirect .memory now c = some entry :=
      Option.filter_eq_some_iff.mpr ⟨hentry, Bool.and_eq_true_iff.mpr ⟨hcode, hlive'⟩⟩
    rw [h] at hold
    cases hold

/-- A redirect that has just been stored alive is handed out. -/
theorem getRedirect_saveRedirect {b : Backend} {cache : Cache} {now : Instant} {url : String} {expiresAt : Option Instant}
    (hb : b ≠ .null) (hlive : expiredAt now expiresAt = false) :
    (cache.saveRedirect b now c url expiresAt).getRedirect b now c = some ⟨c, url, expiresAt⟩ := by
  have hstored : (cache.saveRedirect b now c url expiresAt).redirects c = some ⟨c, url, expiresAt⟩ := by
    cases b with
    | null => exact absurd rfl hb
    | memory =>
      unfold Cache.saveRedirect
      simp only [hlive, Bool.false_eq_true, if_false, Function.update_self]
    | redis =>
      unfold Cache.saveRedirect
      simp only [hlive, Bool.false_eq_true, if_false, Function.update_self]
  cases b with
  | null => exact absurd rfl hb
  | memory =>
    unfold Cache.getRedirect
    rw [hstored]
    simp [Option.filter_some, CachedRedirect.isExpired, hlive]
  | redis =>
    unfold Cache.getRedirect
    rw [hstored]
    simp [Option.filter_some]

theorem linkExpired_ne_linkNotFound (code : String) : DomainError.linkExpired code ≠ .linkNotFound code := by
  intro h
  have hcode : "LINK_EXPIRED" = "LINK_NOT_FOUND" := congrArg DomainError.code h
  exact absurd hcode (by decide)

/-- **What a redirect does without a row**: it is refused by an expired entry, it is answered and would be again, or the code
is gone. -/
theorem redirect_of_missing {b : Backend} (hrow : s.world.db.findByCode c = none) :
    (answersNothing b s.now c s.world.cache = false ∧ answersExpired b s.now c s.world.cache = true ∧
        redirectLink b s.world s.now c.val = (s.world, .error (.linkExpired c.val))) ∨
      (answersNothing b s.now c s.world.cache = false ∧ answersExpired b s.now c s.world.cache = false ∧
        ∃ url, (redirectLink b s.world s.now c.val).2 = .ok url ∧
          (redirectLink b (redirectLink b s.world s.now c.val).1 s.now c.val).2 = .ok url) ∨
      (answersNothing b s.now c s.world.cache = true ∧ Gone b c s ∧
        redirectLink b s.world s.now c.val = (s.world, .error (.linkNotFound c.val))) := by
  have hlook : codeToLookUp c.val = .ok c := by
    unfold codeToLookUp ShortCode.parse
    rw [dif_pos c.property]
  unfold answersNothing answersExpired
  cases hl1 : s.world.cache.getRedirect b s.now c with
  | some entry =>
    have hfirst : redirectLink b s.world s.now c.val =
        if entry.isExpired s.now then (s.world, .error (.linkExpired c.val)) else (s.world, .ok entry.originalUrl) := by
      unfold redirectLink
      simp only [hlook, hl1]
    cases hexpired : entry.isExpired s.now with
    | true => exact .inl ⟨rfl, hexpired, by rw [hfirst, if_pos hexpired]⟩
    | false =>
      have hanswer : redirectLink b s.world s.now c.val = (s.world, .ok entry.originalUrl) := by
        rw [hfirst, if_neg (by rw [hexpired]; decide)]
      exact .inr (.inl ⟨rfl, hexpired, entry.originalUrl, by rw [hanswer], by rw [hanswer, hanswer]⟩)
  | none =>
    cases hl2 : s.world.cache.getByCode b c with
    | some link =>
      have hfirst : redirectLink b s.world s.now c.val =
          if link.isExpired s.now then (s.world, .error (.linkExpired c.val))
          else (⟨s.world.db, s.world.cache.saveRedirect b s.now c link.originalUrl link.expiresAt⟩, .ok link.originalUrl) := by
        unfold redirectLink
        simp only [hlook, hl1, hl2]
      cases hexpired : link.isExpired s.now with
      | true => exact .inl ⟨rfl, hexpired, by rw [hfirst, if_pos hexpired]⟩
      | false =>
        -- What was warmed answers the next one.
        rw [if_neg (by rw [hexpired]; decide)] at hfirst
        have hlive : expiredAt s.now link.expiresAt = false := (Link.isExpired_eq s.now link).symm.trans hexpired
        have hwarm : (s.world.cache.saveRedirect b s.now c link.originalUrl link.expiresAt).getRedirect b s.now c =
            some ⟨c, link.originalUrl, link.expiresAt⟩ :=
          getRedirect_saveRedirect (Cache.getByCode_some hl2).1 hlive
        have hfresh : (⟨c, link.originalUrl, link.expiresAt⟩ : CachedRedirect).isExpired s.now = false := hlive
        refine .inr (.inl ⟨rfl, hexpired, link.originalUrl, by rw [hfirst], ?_⟩)
        rw [hfirst]
        unfold redirectLink
        simp only [hlook, hwarm, hfresh, Bool.false_eq_true, if_false]
    | none =>
      refine .inr (.inr ⟨rfl, ⟨hrow, hl2, fun now' hle => getRedirect_later hle hl1⟩, ?_⟩)
      unfold redirectLink
      simp only [hlook, hl1, hl2, hrow]

/-- A redirect that was refused has changed nothing, and there is no task to run. -/
theorem taskRun_of_refused {svc : LinkServices} {e : DomainError}
    (h : redirectLink svc.backend s.world s.now c.val = (s.world, .error e)) :
    redirected svc c s = s ∧ ∀ enqueued s₁, taskRun svc c s enqueued s₁ = s₁ := by
  unfold redirected taskRun
  rw [h]
  exact ⟨rfl, fun _ _ => rfl⟩

/-- **One redirect notices a missing row** if nothing in the cache answers for the code, or if what answers is alive and the
queue takes the click task; and otherwise it does not. -/
theorem missing_row_is_noticed_iff (svc : LinkServices) (accounts : Services) (c : ShortCode) (s : State)
    (hrow : s.world.db.findByCode c = none) (enqueued : Bool) :
    Noticed svc accounts c s enqueued ↔ answersNothing svc.backend s.now c s.world.cache = true ∨
      answersExpired svc.backend s.now c s.world.cache = false ∧ enqueued = true := by
  rcases @redirect_of_missing s c svc.backend hrow with ⟨hsome, hexpired, hr⟩ | ⟨hsome, hlive, url, hr, hagain⟩ |
    ⟨hnothing, hgone, hr⟩
  · -- refused as expired, and nothing has changed: the next redirect is refused the same way
    rw [hsome, hexpired]
    refine ⟨?_, by rintro (⟨⟨⟩⟩ | ⟨⟨⟩, -⟩)⟩
    intro h
    obtain ⟨hsame, htask⟩ := taskRun_of_refused hr
    have hanswer := h [] s (by rw [hsame]; rfl) trivial [] s (by rw [htask]; rfl) trivial
    rw [hr] at hanswer
    exact absurd (Except.error.inj hanswer) (linkExpired_ne_linkNotFound c.val)
  · have htask : ∀ s₁, taskRun svc c s enqueued s₁ =
        { s₁ with world := clickTask svc.backend s₁.world s₁.now c.val enqueued } := by
      intro s₁
      unfold taskRun
      rw [hr]
    cases enqueued with
    | false =>
      -- answered without a task: the next redirect is answered as well
      refine ⟨fun h => ?_, by rintro (hnothing | ⟨-, ⟨⟩⟩); rw [hsome] at hnothing; cases hnothing⟩
      have hanswer := h [] (redirected svc c s) rfl trivial [] (redirected svc c s) (by rw [htask]; rfl) trivial
      rw [show (redirectLink svc.backend (redirected svc c s).world (redirected svc c s).now c.val).2 = .ok url from hagain]
        at hanswer
      cases hanswer
    | true =>
      refine ⟨fun _ => .inr ⟨hlive, rfl⟩, ?_⟩
      intro _ es s₁ hrun hun es' s' hrun' hun'
      have hrow₁ : s₁.world.db.findByCode c = none := by
        refine run_missing hun hrun ?_
        show (redirectLink svc.backend s.world s.now c.val).1.db.findByCode c = none
        rw [db_redirectLink]
        exact hrow
      have hgone : Gone svc.backend c (taskRun svc c s true s₁) := by
        obtain ⟨hdb, hmute⟩ := @updateLinkStats_of_missing svc.backend s₁.world s₁.now c hrow₁ s₁.now
        rw [htask]
        refine ⟨?_, hmute⟩
        show (updateLinkStats svc.backend s₁.world s₁.now c.val).db.findByCode c = none
        rw [hdb]
        exact hrow₁
      exact (run_gone hun' hrun' hgone).redirect
  · refine ⟨fun _ => .inl hnothing, ?_⟩
    intro _ es s₁ hrun hun es' s' hrun' hun'
    obtain ⟨hsame, htask⟩ := taskRun_of_refused hr
    rw [hsame] at hrun hun
    rw [htask] at hrun' hun'
    exact (run_gone hun' hrun' (run_gone hun hrun hgone)).redirect

end Histories

/-! A link with a lifetime of a minute was followed, and swept away by another process once it had expired. -/

def sweptCode : ShortCode := ⟨"my-link", by decide⟩

def sweptLink : Link := ⟨1, "hash", sweptCode, "https://one.example", 0, 1, none, none, some 60000000, none⟩

/-- The row is gone, and the dictionary of this process has kept the link. -/
def swept (now : Instant) : State := ⟨⟨Db.empty [], Cache.empty.save .memory 0 sweptLink⟩, now⟩

def memoryServices : LinkServices := { sampleServices with backend := .memory }

/-- After the link's expiry redirects go on being refused as expired. -/
theorem expired_entry_hides_the_missing_row :
    ∃ svc accounts c s, s.world.db.findByCode c = none ∧ ∀ enqueued, ¬ Noticed svc accounts c s enqueued := by
  refine ⟨memoryServices, sampleAccounts, sweptCode, swept 60000000, rfl, ?_⟩
  intro enqueued h
  have hexpired : (redirectLink .memory (swept 60000000).world 60000000 "my-link").2 =
      .error (.linkExpired "my-link") := by
    decide +kernel
  have htask : taskRun memoryServices sweptCode (swept 60000000) enqueued (swept 60000000) = swept 60000000 := by
    unfold taskRun
    rw [show (redirectLink memoryServices.backend (swept 60000000).world (swept 60000000).now sweptCode.val).2 =
      .error (.linkExpired "my-link") from hexpired]
  have hsecond := h [] (swept 60000000) rfl trivial [] (swept 60000000) (by rw [htask]; rfl) trivial
  rw [show (redirectLink memoryServices.backend (swept 60000000).world (swept 60000000).now sweptCode.val).2 =
    .error (.linkExpired "my-link") from hexpired] at hsecond
  exact linkExpired_ne_linkNotFound "my-link" (Except.error.inj hsecond)

/-- Before it the first redirect is still answered, and with its task the second one is not. -/
theorem missing_row_is_noticed_before_the_expiry :
    (swept 0).world.db.findByCode sweptCode = none ∧ Noticed memoryServices sampleAccounts sweptCode (swept 0) true :=
  ⟨rfl, (missing_row_is_noticed_iff memoryServices sampleAccounts sweptCode (swept 0) rfl true).mpr
    (.inr ⟨by decide +kernel, rfl⟩)⟩

end LinkShortener.Links
