import LinkShortener.Lib.Run
import LinkShortener.Links.Batch

/-!
# Coherence of the cache

Whole operations one after the other, with evictions and a clock that does not go back between them.

* `Coherent`: every cached link and redirect names the target and the expiry of the row that carries its code, and every
  owner of a link is an account whose address is confirmed. Every operation keeps it (`step_coherent`). The second half
  is what lets `cleanUnverifiedAccounts` leave the cache alone.
* `redirectLink_answer`: on a coherent world a redirect answers from the row that carries the code.
-/

namespace LinkShortener.Links

open Runs

/-! ## Histories -/

structure State where
  world : World
  now : Instant

inductive Event
  | createShortLink (ctx : Context) (url : String) (ttlSeconds : Int) (customCode : Option String) (draws : Draws)
  | batchCreateLinks (ctx : Context) (urls : List String) (draws : Draws)
  | redirectLink (code : String) (enqueued : Bool)
  | deleteLink (ctx : Context) (code : String) (enforceOwnership : Bool) (authorizedLinkId : Option Uuid)
  | deleteUser (actor : Option Uuid) (userId : Uuid)
  | cleanExpiredLinks
  | cleanUnverifiedAccounts
  | evict (codes : ShortCode → Bool) (hashes : String → DedupScope → Bool) (redirects : ShortCode → Bool)
  | tick (now : Instant)

/-- Whom the service lets in: nobody in particular, or an account that is active and has confirmed its address. The login
asks for the confirmation, and every request for the activity. -/
def Context.admitted (db : Db) (ctx : Context) : Bool :=
  ctx.currentUser.all fun u => (db.users.get u).any fun row => row.isActive && row.emailVerified

/-- One operation, from beginning to end, or something that happens between two. -/
def step (svc : LinkServices) (accounts : Services) (s : State) : Event → Option State
  | .createShortLink ctx url ttlSeconds customCode draws =>
    if ctx.admitted s.world.db then
      some { s with world := (createShortLink svc s.world s.now ctx url ttlSeconds customCode draws).1 }
    else none
  | .batchCreateLinks ctx urls draws =>
    if ctx.admitted s.world.db then some { s with world := (batchCreateLinks svc s.world s.now ctx urls draws).1 }
    else none
  | .redirectLink code enqueued =>
    some { s with world := (redirectAndCount svc.backend s.world s.now code enqueued).1 }
  | .deleteLink ctx code enforceOwnership authorizedLinkId =>
    some { s with world := (deleteLink svc.backend s.world ctx code enforceOwnership authorizedLinkId).1 }
  | .deleteUser actor userId => some { s with world := (deleteUser svc.backend s.world actor userId).1 }
  | .cleanExpiredLinks => some { s with world := (cleanExpiredLinks svc.backend s.world s.now).1 }
  | .cleanUnverifiedAccounts => some { s with world := cleanUnverifiedAccounts accounts s.world s.now }
  | .evict codes hashes redirects =>
    some { s with world := ⟨s.world.db, s.world.cache.evict codes hashes redirects⟩ }
  | .tick now => if s.now ≤ now then some { s with now := now } else none

/-- A service that has just been started. -/
def State.start (db : Db) (now : Instant) : State := ⟨⟨db, Cache.empty⟩, now⟩

/-- A redirect answered from the row that carries the code. -/
def redirectFromTable (db : Db) (now : Instant) (code : String) : Except DomainError String := do
  let c ← codeToLookUp code
  match db.findByCode c with
  | none => .error (.linkNotFound code)
  | some link => if link.isExpired now then .error (.linkExpired c.val) else .ok link.originalUrl

/-! ## Coherence -/

/-- The row of the code leads to the URL until the expiry. -/
def Serves (db : Db) (c : ShortCode) (url : String) (expiresAt : Option Instant) : Prop :=
  (db.findByCode c).map (fun l => (l.originalUrl, l.expiresAt)) = some (url, expiresAt)

/-- Only accounts with a confirmed address own links. -/
def OwnersConfirmed (db : Db) : Prop :=
  ∀ c l u, db.findByCode c = some l → l.owner = some u → ∃ row, db.users.get u = some row ∧ row.emailVerified = true

structure Coherent (b : Backend) (w : World) : Prop where
  cached : b ≠ .null → w.cache.Vouches (Serves w.db)
  owners : OwnersConfirmed w.db

section Serves

variable {db db' : Db} {c : ShortCode} {link : Link} {url : String} {e : Option Instant}

theorem serves_of_row (h : db.findByCode c = some link) : Serves db c link.originalUrl link.expiresAt := by
  rw [Serves, h]
  rfl

theorem row_of_serves (h : Serves db c url e) :
    ∃ row, db.findByCode c = some row ∧ row.originalUrl = url ∧ row.expiresAt = e := by
  obtain ⟨row, hrow, heq⟩ := Option.map_eq_some_iff.mp h
  exact ⟨row, hrow, congrArg Prod.fst heq, congrArg Prod.snd heq⟩

/-- A filter keeps the row of a code when no row it rejects has the code. -/
theorem findByCode_of_kept {p : Link → Bool} {gone : List Link} (hgone : ∀ l ∈ db.links.rows, p l = false → l ∈ gone)
    (hc : ∀ l ∈ gone, c ≠ l.shortCode) : (db.findByCode c).filter p = db.findByCode c := by
  cases hrow : db.findByCode c with
  | none => rfl
  | some row =>
    have hcode : row.shortCode = c := Db.findByCode_shortCode hrow
    have hmem : row ∈ db.links.rows := by
      rw [Db.mem_links_iff, hcode]
      exact hrow
    have hp : p row = true := by
      by_contra hne
      have hin := hgone row hmem (Bool.eq_false_of_not_eq_true hne)
      exact hc row hin hcode.symm
    exact Option.filter_eq_some_iff.mpr ⟨rfl, hp⟩

end Serves

namespace Coherent

variable {b : Backend} {w : World} {db : Db} {cache : Cache}

/-- A service that has just been started is coherent. -/
theorem start (howners : OwnersConfirmed db) (now : Instant) : Coherent b (State.start db now).world :=
  ⟨fun _ => .empty _, howners⟩

/-- Only the cache changes. -/
theorem recache (h : Coherent b w) (hc : w.cache.Vouches (Serves w.db) → b ≠ .null → cache.Vouches (Serves w.db)) :
    Coherent b ⟨w.db, cache⟩ := by
  refine ⟨?_, h.owners⟩
  intro hb
  exact hc (h.cached hb) hb

/-- Rows are taken away, and what was cached for their codes is. -/
theorem remove (h : Coherent b w) (hrows : ∀ c l, db.findByCode c = some l → w.db.findByCode c = some l)
    (husers : ∀ c l u, db.findByCode c = some l → l.owner = some u → db.users.get u = w.db.users.get u)
    (hc : w.cache.Vouches (Serves w.db) → b ≠ .null →
      cache.Vouches fun c url e => Serves w.db c url e ∧ db.findByCode c = w.db.findByCode c) :
    Coherent b ⟨db, cache⟩ := by
  constructor
  · intro hb
    apply (hc (h.cached hb) hb).mono
    rintro c url e ⟨hs, hsame⟩
    unfold Serves at hs ⊢
    rw [hsame]
    exact hs
  · intro c l u hl ho
    rw [husers c l u hl ho]
    exact h.owners c l u (hrows c l hl) ho

end Coherent

/-! ## What the operations do -/

section Redirects

variable {b : Backend} {w : World}

theorem redirectLink_null (w : World) (now : Instant) (code : String) :
    (redirectLink .null w now code).2 = redirectFromTable w.db now code := by
  unfold redirectLink redirectFromTable
  cases codeToLookUp code with
  | error e => rfl
  | ok c =>
    simp only [Cache.getRedirect, Cache.getByCode, bind, Except.bind]
    cases w.db.findByCode c with
    | none => rfl
    | some link =>
      simp only
      cases link.isExpired now <;> rfl

/-- **A redirect on a coherent world answers from the row.** -/
theorem redirectLink_answer (h : Coherent b w) (now : Instant) (code : String) :
    (redirectLink b w now code).2 = (redirectLink .null w now code).2 := by
  unfold redirectLink
  cases codeToLookUp code with
  | error e => rfl
  | ok c =>
    simp only [show w.cache.getRedirect .null now c = none from rfl, show w.cache.getByCode .null c = none from rfl]
    cases hl1 : w.cache.getRedirect b now c with
    | some entry =>
      obtain ⟨hb, hentry⟩ := Cache.getRedirect_some hl1
      obtain ⟨row, hrow, hurl, hexp⟩ := row_of_serves ((h.cached hb).redirects c entry hentry).2
      have hexpired : row.isExpired now = entry.isExpired now := by
        rw [Link.isExpired_eq, hexp, CachedRedirect.isExpired]
      simp only [hrow, hexpired, hurl]
      cases entry.isExpired now <;> rfl
    | none =>
      cases hl2 : w.cache.getByCode b c with
      | some link =>
        obtain ⟨hb, hlink⟩ := Cache.getByCode_some hl2
        obtain ⟨row, hrow, hurl, hexp⟩ := row_of_serves ((h.cached hb).byCode c link hlink)
        have hexpired : row.isExpired now = link.isExpired now := by
          rw [Link.isExpired_eq, Link.isExpired_eq, hexp]
        simp only [hrow, hexpired, hurl]
        cases link.isExpired now <;> rfl
      | none =>
        cases w.db.findByCode c with
        | none => rfl
        | some link =>
          simp only
          cases link.isExpired now <;> rfl

/-- A redirect caches what the row says, or what the cache already said of the code. -/
theorem redirectLink_coherent (h : Coherent b w) (now : Instant) (code : String) :
    Coherent b (redirectLink b w now code).1 := by
  unfold redirectLink
  cases codeToLookUp code with
  | error e => exact h
  | ok c =>
    simp only
    split
    · split <;> exact h
    · split
      · rename_i link hl2
        split
        · exact h
        · refine h.recache fun hv _ => hv.saveRedirect ?_
          exact hv.byCode c link (Cache.getByCode_some hl2).2
      · split
        · exact h
        · rename_i link hrow
          split
          · exact h
          · refine h.recache fun hv _ => hv.save ?_
            rw [Db.findByCode_shortCode hrow]
            exact serves_of_row hrow

theorem updateLinkStats_coherent (h : Coherent b w) (now : Instant) (code : String) :
    Coherent b (updateLinkStats b w now code) := by
  unfold updateLinkStats
  split
  · exact h
  · rename_i c _
    split
    · rename_i db hdb
      obtain ⟨husers, hrows⟩ := Db.incrementClicks_some hdb
      constructor
      · intro hb
        apply (h.cached hb).mono
        intro c' url e hs
        obtain ⟨row, hrow, hurl, hexp⟩ := row_of_serves hs
        obtain ⟨row', hrow', heq⟩ := Option.map_eq_some_iff.mp ((hrows c').trans (by rw [hrow, Option.map_some]))
        simp only [Prod.mk.injEq] at heq
        have hs' := serves_of_row hrow'
        rw [heq.1, heq.2.1, hurl, hexp] at hs'
        exact hs'
      · intro c' l u hl ho
        have hmap := hrows c'
        rw [hl, Option.map_some] at hmap
        obtain ⟨row, hrow, heq⟩ := Option.map_eq_some_iff.mp hmap.symm
        simp only [Prod.mk.injEq] at heq
        show ∃ row, db.users.get u = some row ∧ row.emailVerified = true
        rw [husers]
        exact h.owners c' row u hrow (heq.2.2.trans ho)
    · refine h.recache fun hv hb => ?_
      exact (hv.deleteRedirect.deleteByCode hb).mono fun _ _ _ hp => hp.1

theorem redirectAndCount_coherent (h : Coherent b w) (now : Instant) (code : String) (enqueued : Bool) :
    Coherent b (redirectAndCount b w now code enqueued).1 := by
  unfold redirectAndCount
  have hr := redirectLink_coherent h now code
  split
  · rename_i w' url heq
    rw [heq] at hr
    unfold clickTask
    split
    · exact updateLinkStats_coherent hr now code
    · exact hr
  · exact hr

end Redirects

section Deletions

variable {b : Backend} {w : World}

theorem deleteLink_coherent (h : Coherent b w) (ctx : Context) (code : String) (enforceOwnership : Bool)
    (authorizedLinkId : Option Uuid) :
    Coherent b (deleteLink b w ctx code enforceOwnership authorizedLinkId).1 := by
  unfold deleteLink
  split
  · exact h
  · rename_i c _
    split
    · refine h.recache fun hv hb => ?_
      exact (hv.deleteByCode hb).deleteRedirect.mono fun _ _ _ hp => hp.1
    · rename_i link hrow
      have hcode : link.shortCode = c := Db.findByCode_shortCode hrow
      split
      · exact h
      · split
        · exact h
        · rename_i db hdb
          have hdb' : db = (w.db.deleteLink link.id).2 := by rw [hdb]
          subst hdb'
          refine h.remove ?_ (fun _ _ _ _ _ => rfl) fun hv hb => ?_
          · intro c' l hl
            rw [Db.findByCode_deleteLink hrow] at hl
            split at hl
            · cases hl
            · exact hl
          · apply (hv.delete hb link).deleteRedirect.mono
            rintro c' url e ⟨hs, hne⟩
            rw [hcode] at hne
            exact ⟨hs, by rw [Db.findByCode_deleteLink hrow, if_neg hne]⟩

/-- The rows left when an account goes are those it does not own. -/
theorem findByCode_without (db : Db) (userId : Uuid) (c : ShortCode) :
    ((db.filterLinks fun l => decide (l.owner ≠ some userId)).deleteUsers
      fun row => decide (row.id = userId)).findByCode c =
        (db.findByCode c).filter fun l => decide (l.owner ≠ some userId) := by
  simp only [Db.findByCode, Db.deleteUsers, Db.filterLinks, Rows.get_filter, Option.filter_filter]
  cases hrow : db.links.get c with
  | none => rfl
  | some l =>
    simp only [Option.filter_some]
    congr 1
    cases ho : l.owner with
    | none => simp
    | some u =>
      obtain ⟨row, hu⟩ := Option.ne_none_iff_exists'.mp (db.links_fk hrow ho)
      have hid : row.id = u := Rows.key_of_get hu
      simp [hu, hid]

theorem deleteUser_coherent (h : Coherent b w) (actor : Option Uuid) (userId : Uuid) :
    Coherent b (deleteUser b w actor userId).1 := by
  unfold deleteUser
  split
  · exact h
  · exact h
  · rename_i db links hdel
    unfold Admin.deleteUser at hdel
    obtain ⟨-, -, hdel⟩ := bind_eq_ok.mp hdel
    obtain ⟨-, -, hdel⟩ := bind_eq_ok.mp hdel
    split at hdel
    · cases hdel
    · cases hdel
      refine h.remove ?_ ?_ fun hv hb => ?_
      · intro c l hl
        rw [findByCode_without] at hl
        exact (Option.filter_eq_some_iff.mp hl).1
      · intro c l u hl ho
        rw [findByCode_without] at hl
        obtain ⟨hrow, hne⟩ := Option.filter_eq_some_iff.mp hl
        obtain ⟨row, hu⟩ := Option.ne_none_iff_exists'.mp (w.db.links_fk hrow ho)
        have hid : row.id = u := Rows.key_of_get hu
        have hother : u ≠ userId := by
          intro he
          rw [ho, he] at hne
          simp at hne
        simp [Db.deleteUsers, Db.filterLinks, hu, hid, hother]
      · refine (hv.foldl (fun link hv => (hv.delete hb link).deleteRedirect) _).mono ?_
        rintro c url e ⟨hs, hgone⟩
        refine ⟨hs, ?_⟩
        rw [findByCode_without]
        refine findByCode_of_kept ?_ hgone
        intro l hl hp
        simpa [hl] using hp

theorem cleanExpiredLinks_coherent (h : Coherent b w) (now : Instant) : Coherent b (cleanExpiredLinks b w now).1 := by
  unfold cleanExpiredLinks Db.deleteExpired
  refine h.remove ?_ (fun _ _ _ _ _ => rfl) fun hv hb => ?_
  · intro c l hl
    rw [Db.findByCode_filterLinks] at hl
    exact (Option.filter_eq_some_iff.mp hl).1
  · refine (hv.foldl (fun link hv => hv.delete hb link) _).mono ?_
    rintro c url e ⟨hs, hgone⟩
    refine ⟨hs, ?_⟩
    rw [Db.findByCode_filterLinks]
    refine findByCode_of_kept ?_ hgone
    intro l hl hp
    simpa [hl] using hp

/-- An account that goes unconfirmed takes no link with it. -/
theorem cleanUnverifiedAccounts_coherent (h : Coherent b w) (svc : Services) (now : Instant) :
    Coherent b (cleanUnverifiedAccounts svc w now) := by
  have hstay : ∀ c l u, w.db.findByCode c = some l → l.owner = some u →
      (Admin.cleanUnverifiedAccounts w.db svc now).users.get u = w.db.users.get u ∧
      ((w.db.users.get u).any fun row =>
        !(!row.emailVerified && decide (row.createdAt < now - svc.unverifiedTtl))) = true := by
    intro c l u hl ho
    obtain ⟨row, hu, hv⟩ := h.owners c l u hl ho
    simp [Admin.cleanUnverifiedAccounts, Db.deleteUsers, Db.filterVerifications, hu, hv]
  have hsame : ∀ c, (Admin.cleanUnverifiedAccounts w.db svc now).findByCode c = w.db.findByCode c := by
    intro c
    show (w.db.links.filter _).get c = w.db.links.get c
    rw [Rows.get_filter]
    cases hrow : w.db.links.get c with
    | none => rfl
    | some l =>
      simp only [Option.filter_some]
      rw [if_pos]
      cases ho : l.owner with
      | none => rfl
      | some u => exact (hstay c l u hrow ho).2
  refine h.remove ?_ ?_ fun hv _ => ?_
  · intro c l hl
    rw [hsame] at hl
    exact hl
  · intro c l u hl ho
    rw [hsame] at hl
    exact (hstay c l u hl ho).1
  · exact hv.mono fun c url e hs => ⟨hs, hsame c⟩

end Deletions

/-- Whoever is to own a link has confirmed their address. -/
def OwnerConfirmed (db : Db) (owner : Option Uuid) : Prop :=
  ∀ u, owner = some u → ∃ row, db.users.get u = some row ∧ row.emailVerified = true

theorem Context.ownerConfirmed {db : Db} {ctx : Context} (h : ctx.admitted db = true) :
    OwnerConfirmed db ctx.currentUser := by
  intro u hu
  unfold Context.admitted at h
  rw [hu, Option.all_some, Option.any_eq_true] at h
  obtain ⟨row, hrow, hok⟩ := h
  exact ⟨row, hrow, (Bool.and_eq_true_iff.mp hok).2⟩

section Creations

variable {svc : LinkServices} {w : World} {now : Instant} {draws : Draws}

/-- Rows are added for a confirmed owner, and nothing is cached for other rows than the ones there are. -/
theorem Coherent.add {b : Backend} (h : Coherent b w) {db : Db} {cache : Cache} (husers : db.users = w.db.users)
    (hkept : ∀ c l, w.db.findByCode c = some l → db.findByCode c = some l)
    (hadded : ∀ c l, db.findByCode c = some l → w.db.findByCode c = some l ∨ OwnerConfirmed w.db l.owner)
    (hc : w.cache.Vouches (Serves db) → b ≠ .null → cache.Vouches (Serves db)) : Coherent b ⟨db, cache⟩ := by
  constructor
  · intro hb
    refine hc ((h.cached hb).mono ?_) hb
    intro c url e hs
    obtain ⟨row, hrow, rfl, rfl⟩ := row_of_serves hs
    exact serves_of_row (hkept c row hrow)
  · intro c l u hl ho
    show ∃ row, db.users.get u = some row ∧ row.emailVerified = true
    rw [husers]
    rcases hadded c l hl with hl | hnew
    · exact h.owners c l u hl ho
    · exact hnew u ho

theorem newLink_ok {db db' : Db} {q : Creation} {attempt : Nat} {link : Link}
    (h : newLink svc db now q draws attempt = .ok (db', link)) : db.saveLink link = .ok db' ∧ link.owner = q.owner := by
  unfold newLink at h
  obtain ⟨-, -, h⟩ := bind_eq_ok.mp h
  obtain ⟨code, -, h⟩ := bind_eq_ok.mp h
  obtain ⟨link', hcreate, h⟩ := bind_eq_ok.mp h
  obtain ⟨db₁, hsave, h⟩ := bind_eq_ok.mp h
  cases h
  exact ⟨hsave, (Link.create_ok hcreate).2.2.1⟩

theorem findOrCreate_coherent {q : Creation} (h : Coherent svc.backend w) (hq : OwnerConfirmed w.db q.owner)
    (now : Instant) (draws : Draws) (attempt : Nat) : Coherent svc.backend (findOrCreate svc w now q draws attempt).1 ∧
      (findOrCreate svc w now q draws attempt).1.db.users = w.db.users := by
  unfold findOrCreate
  extract_lets cached cache
  split
  · exact ⟨h, rfl⟩
  · -- What is dropped first was stale, or there was nothing to drop.
    have hdropped : ∀ {P}, w.cache.Vouches P → svc.backend ≠ .null → cache.Vouches P := by
      intro P hv hb
      unfold cache cached
      split
      · rename_i stale _
        exact (hv.delete hb stale).mono fun _ _ _ hp => hp.1
      · exact hv
    split
    · rename_i existing hlive
      refine ⟨h.recache fun hv hb => (hdropped hv hb).save ?_, rfl⟩
      exact serves_of_row (Db.mem_links_iff.mp (Link.firstLive_some hlive).1)
    · split
      · exact ⟨h.recache hdropped, rfl⟩
      · rename_i db link hnew
        obtain ⟨hsave, howner⟩ := newLink_ok hnew
        obtain ⟨hfree, husers, hget⟩ := Db.saveLink_ok hsave
        refine ⟨h.add husers ?_ ?_ fun hv hb => (hdropped hv hb).save ?_, husers⟩
        · intro c l hl
          rw [hget, if_neg]
          · exact hl
          · rintro rfl
            rw [hfree] at hl
            cases hl
        · intro c l hl
          rw [hget] at hl
          split at hl
          · cases hl
            rw [howner]
            exact .inr hq
          · exact .inl hl
        · apply serves_of_row
          rw [hget, if_pos rfl]

theorem findOrCreateRetrying_coherent {q : Creation} (h : Coherent svc.backend w) (hq : OwnerConfirmed w.db q.owner)
    (n : Nat) : Coherent svc.backend (findOrCreateRetrying svc now q draws n w).1 := by
  have hkeep : ∀ (w : World) (attempt : Nat), Coherent svc.backend w ∧ OwnerConfirmed w.db q.owner →
      Coherent svc.backend (findOrCreate svc w now q draws attempt).1 ∧
        OwnerConfirmed (findOrCreate svc w now q draws attempt).1.db q.owner := by
    rintro w attempt ⟨h, hq⟩
    obtain ⟨hc, husers⟩ := findOrCreate_coherent h hq now draws attempt
    refine ⟨hc, ?_⟩
    intro u hu
    rw [husers]
    exact hq u hu
  exact (findOrCreateRetrying_keeps hkeep n w ⟨h, hq⟩).1

theorem readCreation_owner {ctx : Context} {url : String} {ttlSeconds : Int} {customCode : Option String} {q : Creation}
    (h : readCreation svc ctx url ttlSeconds customCode = .ok q) : q.owner = ctx.currentUser := by
  unfold readCreation at h
  obtain ⟨-, -, h⟩ := bind_eq_ok.mp h
  obtain ⟨code, -, h⟩ := bind_eq_ok.mp h
  obtain ⟨originalUrl, -, h⟩ := bind_eq_ok.mp h
  cases h
  rfl

theorem createShortLink_coherent {ctx : Context} (h : Coherent svc.backend w) (hctx : ctx.admitted w.db = true)
    (url : String) (ttlSeconds : Int) (customCode : Option String) :
    Coherent svc.backend (createShortLink svc w now ctx url ttlSeconds customCode draws).1 := by
  unfold createShortLink
  split
  · exact h
  · rename_i q hq
    apply findOrCreateRetrying_coherent h
    rw [readCreation_owner hq]
    exact ctx.ownerConfirmed hctx

/-- A batch drops what is stale and stores its links; it caches nothing. -/
theorem lookUpAndCreate_coherent {q : Batch} (h : Coherent svc.backend w) (hq : OwnerConfirmed w.db q.owner)
    (now : Instant) (draws : Draws) (attempt : Nat) :
    Coherent svc.backend (lookUpAndCreate svc w now q draws attempt).1 ∧
      (lookUpAndCreate svc w now q draws attempt).1.db.users = w.db.users := by
  unfold lookUpAndCreate
  extract_lets stored cached cache missing live remaining groups planned saving
  have hdropped : ∀ {P}, w.cache.Vouches P → svc.backend ≠ .null → cache.Vouches P := by
    intro P hv hb
    exact (hv.foldl (fun link hv => hv.delete hb link) _).mono fun _ _ _ hp => hp.1
  cases hsaving : saving with
  | error e => exact ⟨h.recache hdropped, rfl⟩
  | ok r =>
    obtain ⟨links, hlinks, hsaving⟩ := bind_eq_ok.mp hsaving
    obtain ⟨db₁, hsave, hsaving⟩ := bind_eq_ok.mp hsaving
    cases hsaving
    obtain ⟨husers, hkept, hadded⟩ := Db.saveMany_ok hsave
    refine ⟨h.add husers hkept ?_ hdropped, husers⟩
    intro c l hl
    rcases hadded c l hl with hl | hl
    · exact .inl hl
    · obtain ⟨p, -, hp⟩ := mapM_ok_mem hlinks hl
      rw [(Link.create_ok hp).2.2.1]
      exact .inr hq

theorem lookUpAndCreateRetrying_coherent {q : Batch} (h : Coherent svc.backend w) (hq : OwnerConfirmed w.db q.owner)
    (n : Nat) : Coherent svc.backend (lookUpAndCreateRetrying svc now q draws n w).1 := by
  have hkeep : ∀ (w : World) (attempt : Nat), Coherent svc.backend w ∧ OwnerConfirmed w.db q.owner →
      Coherent svc.backend (lookUpAndCreate svc w now q draws attempt).1 ∧
        OwnerConfirmed (lookUpAndCreate svc w now q draws attempt).1.db q.owner := by
    rintro w attempt ⟨h, hq⟩
    obtain ⟨hc, husers⟩ := lookUpAndCreate_coherent h hq now draws attempt
    refine ⟨hc, ?_⟩
    intro u hu
    rw [husers]
    exact hq u hu
  exact (lookUpAndCreateRetrying_keeps hkeep n w ⟨h, hq⟩).1

theorem batchCreateLinks_coherent {ctx : Context} (h : Coherent svc.backend w) (hctx : ctx.admitted w.db = true)
    (urls : List String) : Coherent svc.backend (batchCreateLinks svc w now ctx urls draws).1 := by
  rw [batchCreateLinks_fst]
  split
  · exact h
  · split
    · exact h
    · split
      · exact h
      · exact lookUpAndCreateRetrying_coherent h (ctx.ownerConfirmed hctx) svc.maxCollisionAttempts

end Creations

/-- Every operation keeps the cache coherent. -/
theorem step_coherent {svc : LinkServices} {accounts : Services} {s s' : State} {e : Event}
    (h : step svc accounts s e = some s') (hc : Coherent svc.backend s.world) : Coherent svc.backend s'.world := by
  cases e with
  | createShortLink ctx url ttlSeconds customCode draws =>
    simp only [step] at h
    split at h
    · rename_i hctx
      cases h
      exact createShortLink_coherent hc hctx url ttlSeconds customCode
    · cases h
  | batchCreateLinks ctx urls draws =>
    simp only [step] at h
    split at h
    · rename_i hctx
      cases h
      exact batchCreateLinks_coherent hc hctx urls
    · cases h
  | redirectLink code enqueued =>
    cases h
    exact redirectAndCount_coherent hc s.now code enqueued
  | deleteLink ctx code enforceOwnership authorizedLinkId =>
    cases h
    exact deleteLink_coherent hc ctx code enforceOwnership authorizedLinkId
  | deleteUser actor userId =>
    cases h
    exact deleteUser_coherent hc actor userId
  | cleanExpiredLinks =>
    cases h
    exact cleanExpiredLinks_coherent hc s.now
  | cleanUnverifiedAccounts =>
    cases h
    exact cleanUnverifiedAccounts_coherent hc accounts s.now
  | evict codes hashes redirects =>
    cases h
    exact hc.recache fun hv _ => hv.evict codes hashes redirects
  | tick now =>
    simp only [step] at h
    split at h
    · cases h
      exact hc
    · cases h

end LinkShortener.Links
