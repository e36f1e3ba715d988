import LinkShortener.Caches.MemoryCache

/-!
# The books of the in-memory cache

* `Kept`: what every operation keeps. Links are under keys for links and redirects under keys for redirects, and whatever is
  kept has an expiry, and nothing else has one. `kept_perform`, `kept_run`.
* `Books`: what that says of the cache and of its counts.
* `links_perform`, `redirects_perform`: what is found under a key after an operation was there before, or the operation has
  written it. `links_run`, `redirects_run`.
* `memory_cache_keeps_its_books`: the books after any run, what a deletion leaves, and what a redirect is answered with.
-/

namespace LinkShortener.Caches

namespace InMemoryLinkCache

variable {libs : Urls.Libraries} {Stats : Type} {cfg : CacheSettings} {now : Instant} {s : InMemoryLinkCache libs Stats}

/-! ## Kinds of keys -/

section Keys

variable {key : String}

def OfKind (cfg : CacheSettings) (kind key : String) : Prop :=
  ∃ parts, parts ≠ [] ∧ key = cfg.keyGen.buildKey (kind :: parts)

def IsLinkKey (cfg : CacheSettings) (key : String) : Prop := OfKind cfg "code" key ∨ OfKind cfg "hash" key

def IsRedirectKey (cfg : CacheSettings) (key : String) : Prop := OfKind cfg "redirect" key

theorem OfKind.unique {kind kind' : String} (h : OfKind cfg kind key) (h' : OfKind cfg kind' key)
    (hkind : ':' ∉ kind.toList)
    (hkind' : ':' ∉ kind'.toList) : kind = kind' := by
  obtain ⟨parts, hparts, rfl⟩ := h
  obtain ⟨parts', hparts', heq⟩ := h'
  exact (CacheKeyBuilder.buildKey_inj hkind hkind' hparts hparts' heq).1

theorem statsKey_ofKind : OfKind cfg "stats" cfg.keyGen.forStats := ⟨["global"], List.cons_ne_nil _ _, rfl⟩

theorem IsLinkKey.not_redirect (h : IsLinkKey cfg key) : ¬ IsRedirectKey cfg key := by
  intro h'
  rcases h with h | h
  · exact absurd (h.unique h' (by decide) (by decide)) (by decide)
  · exact absurd (h.unique h' (by decide) (by decide)) (by decide)

theorem IsLinkKey.not_stats (h : IsLinkKey cfg key) : key ≠ cfg.keyGen.forStats := by
  rintro rfl
  rcases h with h | h
  · exact absurd (h.unique statsKey_ofKind (by decide) (by decide)) (by decide)
  · exact absurd (h.unique statsKey_ofKind (by decide) (by decide)) (by decide)

theorem IsRedirectKey.not_stats (h : IsRedirectKey cfg key) : key ≠ cfg.keyGen.forStats := by
  rintro rfl
  exact absurd (h.unique statsKey_ofKind (by decide) (by decide)) (by decide)

theorem isLinkKey_code (shortCode : String) : IsLinkKey cfg (cfg.keyGen.forShortCode shortCode) :=
  .inl ⟨[shortCode], List.cons_ne_nil _ _, rfl⟩

theorem isLinkKey_hash (urlHash scope : String) : IsLinkKey cfg (cfg.keyGen.forUrlHash urlHash scope) :=
  .inr ⟨[scope, urlHash], List.cons_ne_nil _ _, rfl⟩

theorem isRedirectKey (shortCode : String) : IsRedirectKey cfg (cfg.keyGen.forRedirect shortCode) :=
  ⟨[shortCode], List.cons_ne_nil _ _, rfl⟩

end Keys

/-! ## What every operation keeps -/

/-- Everything is under a key of its kind and has an expiry, and nothing else has one. -/
structure Kept (cfg : CacheSettings) (s : InMemoryLinkCache libs Stats) : Prop where
  linkKeys : ∀ {key link}, s.links.lookup key = some link → IsLinkKey cfg key
  redirectKeys : ∀ {key entry}, s.redirects.lookup key = some entry → IsRedirectKey cfg key
  zones : ∀ {key entry}, s.redirects.lookup key = some entry → ∀ d ∈ entry.expiresAt, d.Aware
  tracked : ∀ key, (s.expiry.lookup key).isSome = true ↔ (s.links.lookup key).isSome = true ∨
    (s.redirects.lookup key).isSome = true ∨ (key = cfg.keyGen.forStats ∧ s.stats.isSome = true)

theorem kept_new : Kept cfg (new : InMemoryLinkCache libs Stats) := by
  refine ⟨nofun, nofun, nofun, fun key => ?_⟩
  simp [new]

section Steps

variable {key : String}

theorem Kept.links_none (h : Kept cfg s) (hkey : ¬ IsLinkKey cfg key) : s.links.lookup key = none := by
  cases hlink : s.links.lookup key with
  | none => rfl
  | some link => exact absurd (h.linkKeys hlink) hkey

theorem Kept.redirects_none (h : Kept cfg s) (hkey : ¬ IsRedirectKey cfg key) : s.redirects.lookup key = none := by
  cases hentry : s.redirects.lookup key with
  | none => rfl
  | some entry => exact absurd (h.redirectKeys hentry) hkey

theorem Kept.putLink (h : Kept cfg s) (hkey : IsLinkKey cfg key) (link : LinkEntity libs) (expiry : Instant) :
    Kept cfg { s with links := s.links.set key link, expiry := s.expiry.set key expiry } := by
  refine ⟨?_, h.redirectKeys, h.zones, ?_⟩
  · intro key' link' hlink
    dsimp only at hlink
    rw [Dictionary.lookup_set] at hlink
    split at hlink
    · rename_i heq
      exact heq ▸ hkey
    · exact h.linkKeys hlink
  · intro key'
    dsimp only
    rw [Dictionary.lookup_set, Dictionary.lookup_set]
    split
    · simp
    · exact h.tracked key'

theorem Kept.putRedirect (h : Kept cfg s) (hkey : IsRedirectKey cfg key) {entry : CachedRedirect}
    (hzone : ∀ d ∈ entry.expiresAt, d.Aware) (expiry : Instant) :
    Kept cfg { s with redirects := s.redirects.set key entry, expiry := s.expiry.set key expiry } := by
  refine ⟨h.linkKeys, ?_, ?_, ?_⟩
  · intro key' entry' hentry
    dsimp only at hentry
    rw [Dictionary.lookup_set] at hentry
    split at hentry
    · rename_i heq
      exact heq ▸ hkey
    · exact h.redirectKeys hentry
  · intro key' entry' hentry
    dsimp only at hentry
    rw [Dictionary.lookup_set] at hentry
    split at hentry
    · cases hentry
      exact hzone
    · exact h.zones hentry
  · intro key'
    dsimp only
    rw [Dictionary.lookup_set, Dictionary.lookup_set]
    split
    · simp
    · exact h.tracked key'

end Steps

/-! ## Keys that are dropped -/

/-- Some keys are gone from every store, and nothing else has changed. -/
structure Dropped (cfg : CacheSettings) (D : String → Prop) (s s' : InMemoryLinkCache libs Stats) : Prop where
  gone : ∀ {key}, D key → s'.links.lookup key = none ∧ s'.redirects.lookup key = none ∧ s'.expiry.lookup key = none
  same : ∀ {key}, ¬ D key → s'.links.lookup key = s.links.lookup key ∧
    s'.redirects.lookup key = s.redirects.lookup key ∧ s'.expiry.lookup key = s.expiry.lookup key
  stats : D cfg.keyGen.forStats ∧ s'.stats = none ∨ ¬ D cfg.keyGen.forStats ∧ s'.stats = s.stats

section Dropping

variable {D E : String → Prop} {s' s'' : InMemoryLinkCache libs Stats}

theorem Dropped.refl (s : InMemoryLinkCache libs Stats) : Dropped cfg (fun _ => False) s s :=
  ⟨nofun, fun _ => ⟨rfl, rfl, rfl⟩, .inr ⟨id, rfl⟩⟩

theorem Dropped.trans (h : Dropped cfg D s s') (h' : Dropped cfg E s' s'') :
    Dropped cfg (fun key => D key ∨ E key) s s'' := by
  refine ⟨?_, ?_, ?_⟩
  · rintro key (hkey | hkey)
    · by_cases hE : E key
      · exact h'.gone hE
      · obtain ⟨hlinks, hredirects, hexpiry⟩ := h'.same hE
        rw [hlinks, hredirects, hexpiry]
        exact h.gone hkey
    · exact h'.gone hkey
  · intro key hkey
    obtain ⟨hD, hE⟩ := not_or.mp hkey
    obtain ⟨hlinks, hredirects, hexpiry⟩ := h'.same hE
    rw [hlinks, hredirects, hexpiry]
    exact h.same hD
  · rcases h'.stats with ⟨hE, hnone⟩ | ⟨hE, hsame⟩
    · exact .inl ⟨.inr hE, hnone⟩
    · rw [hsame]
      rcases h.stats with ⟨hD, hnone⟩ | ⟨hD, hsame⟩
      · exact .inl ⟨.inl hD, hnone⟩
      · exact .inr ⟨not_or.mpr ⟨hD, hE⟩, hsame⟩

/-- A link that is left was there before. -/
theorem Dropped.links_some (h : Dropped cfg D s s') {key : String} {link : LinkEntity libs}
    (hlink : s'.links.lookup key = some link) : ¬ D key ∧ s.links.lookup key = some link := by
  by_cases hkey : D key
  · rw [(h.gone hkey).1] at hlink
    cases hlink
  · exact ⟨hkey, (h.same hkey).1.symm.trans hlink⟩

theorem Dropped.redirects_some (h : Dropped cfg D s s') {key : String} {entry : CachedRedirect}
    (hentry : s'.redirects.lookup key = some entry) : ¬ D key ∧ s.redirects.lookup key = some entry := by
  by_cases hkey : D key
  · rw [(h.gone hkey).2.1] at hentry
    cases hentry
  · exact ⟨hkey, (h.same hkey).2.1.symm.trans hentry⟩

theorem Kept.dropped (h : Kept cfg s) (hdropped : Dropped cfg D s s') : Kept cfg s' := by
  refine ⟨fun hlink => h.linkKeys (hdropped.links_some hlink).2,
    fun hentry => h.redirectKeys (hdropped.redirects_some hentry).2,
    fun hentry => h.zones (hdropped.redirects_some hentry).2, ?_⟩
  intro key
  by_cases hkey : D key
  · obtain ⟨hlinks, hredirects, hexpiry⟩ := hdropped.gone hkey
    rw [hlinks, hredirects, hexpiry]
    simp only [Option.isSome_none, Bool.false_eq_true, false_or, false_iff, not_and]
    rintro rfl
    rcases hdropped.stats with ⟨-, hnone⟩ | ⟨hnot, -⟩
    · rw [hnone]
      exact Bool.false_ne_true
    · exact absurd hkey hnot
  · obtain ⟨hlinks, hredirects, hexpiry⟩ := hdropped.same hkey
    rw [hlinks, hredirects, hexpiry, h.tracked key]
    rcases hdropped.stats with ⟨hstats, -⟩ | ⟨-, hsame⟩
    · have hne : key ≠ cfg.keyGen.forStats := by
        rintro rfl
        exact hkey hstats
      simp [hne]
    · rw [hsame]

/-! ### The operations that drop keys -/

theorem dropped_dropExpired (s : InMemoryLinkCache libs Stats) (key : String) :
    Dropped cfg (· = key) s (s.dropExpired cfg key) := by
  refine ⟨?_, ?_, ?_⟩
  · rintro key' rfl
    simp [dropExpired]
  · intro key' hne
    simp [dropExpired, Ne.symm hne]
  · by_cases hkey : key = cfg.keyGen.forStats
    · exact .inl ⟨hkey.symm, if_pos hkey⟩
    · exact .inr ⟨fun h => hkey h.symm, if_neg hkey⟩

theorem dropped_foldl {drop : InMemoryLinkCache libs Stats → String → InMemoryLinkCache libs Stats} {keys : List String}
    (hdrop : ∀ s, ∀ key ∈ keys, Dropped cfg (· = key) s (drop s key)) (s : InMemoryLinkCache libs Stats) :
    Dropped cfg (· ∈ keys) s (keys.foldl drop s) := by
  induction keys generalizing s with
  | nil => simpa using Dropped.refl s
  | cons key keys ih =>
    have hrest := ih (fun s k hk => hdrop s k (List.mem_cons_of_mem key hk)) (drop s key)
    simpa using (hdrop s key List.mem_cons_self).trans hrest

/-- What has run out. -/
def RunOut (now : Instant) (s : InMemoryLinkCache libs Stats) (key : String) : Prop :=
  ∃ expiry, s.expiry.lookup key = some expiry ∧ expiry < now

theorem dropped_cleanExpired (cfg : CacheSettings) (now : Instant) (s : InMemoryLinkCache libs Stats) :
    Dropped cfg (RunOut now s) s (s.cleanExpired cfg now) := by
  have hkeys : RunOut now s = fun key => key ∈ (s.expiry.rows.filter fun e => decide (e.2 < now)).map (·.1) := by
    ext key
    simp only [RunOut, List.mem_map, List.mem_filter, decide_eq_true_eq, Dictionary.lookup_eq_some]
    constructor
    · rintro ⟨expiry, hmem, hlate⟩
      exact ⟨(key, expiry), ⟨hmem, hlate⟩, rfl⟩
    · rintro ⟨⟨key', expiry⟩, ⟨hmem, hlate⟩, rfl⟩
      exact ⟨expiry, hmem, hlate⟩
  rw [hkeys]
  exact dropped_foldl (fun s key _ => dropped_dropExpired s key) s

theorem dropped_pop (s : InMemoryLinkCache libs Stats) {key : String} (hkey : key ≠ cfg.keyGen.forStats) :
    Dropped cfg (· = key) s (s.pop key) := by
  have hsame : s.pop key = s.dropExpired cfg key := by
    unfold pop dropExpired
    rw [if_neg hkey]
  rw [hsame]
  exact dropped_dropExpired s key

theorem dropped_delete (s : InMemoryLinkCache libs Stats) (link : LinkEntity libs) :
    Dropped cfg (· ∈ [codeKey cfg link, redirectKey cfg link, hashKey cfg link]) s (s.delete cfg link) := by
  apply dropped_foldl
  intro s key hkey
  refine dropped_pop s ?_
  simp only [List.mem_cons, List.not_mem_nil, or_false] at hkey
  rcases hkey with rfl | rfl | rfl
  · exact (isLinkKey_code _).not_stats
  · exact (isRedirectKey _).not_stats
  · exact (isLinkKey_hash _ _).not_stats

theorem dropped_deleteByCode (s : InMemoryLinkCache libs Stats) (shortCode : ShortCode) :
    Dropped cfg (· ∈ [cfg.keyGen.forShortCode shortCode.val, cfg.keyGen.forRedirect shortCode.val]) s
      (s.deleteByCode cfg shortCode) := by
  apply dropped_foldl
  intro s key hkey
  refine dropped_pop s ?_
  simp only [List.mem_cons, List.not_mem_nil, or_false] at hkey
  rcases hkey with rfl | rfl
  · exact (isLinkKey_code _).not_stats
  · exact (isRedirectKey _).not_stats

/-- No link is under the key of a redirect, so that it is gone from every store. -/
theorem Kept.dropRedirect (h : Kept cfg s) {key : String} (hkey : IsRedirectKey cfg key) :
    Dropped cfg (· = key) s { s with redirects := s.redirects.erase key, expiry := s.expiry.erase key } := by
  refine ⟨?_, ?_, .inr ⟨fun he => hkey.not_stats he.symm, rfl⟩⟩
  · rintro key' rfl
    have hlinks := h.links_none fun hlink => hlink.not_redirect hkey
    simp [hlinks]
  · intro key' hne
    simp [Ne.symm hne]

theorem Kept.dropStats (h : Kept cfg s) :
    Dropped cfg (· = cfg.keyGen.forStats) s { s with stats := none, expiry := s.expiry.erase cfg.keyGen.forStats } := by
  refine ⟨?_, ?_, .inl ⟨rfl, rfl⟩⟩
  · rintro key rfl
    have hlinks := h.links_none fun hlink => hlink.not_stats rfl
    have hredirects := h.redirects_none fun hredirect => hredirect.not_stats rfl
    simp [hlinks, hredirects]
  · intro key hne
    simp [Ne.symm hne]

theorem dropped_clearAll (cfg : CacheSettings) (s : InMemoryLinkCache libs Stats) :
    Dropped cfg (fun _ => True) s clearAll :=
  ⟨fun _ => ⟨rfl, rfl, rfl⟩, fun hnot => absurd trivial hnot, .inl ⟨trivial, rfl⟩⟩

end Dropping

/-! ## Every operation -/

section Performing

theorem zone_of_remaining {d : Datetime} {left : Int} (h : remaining d now = .ok left) :
    d.Aware ∧ left = d.instant - now := by
  unfold remaining at h
  split at h
  · rename_i hzone
    cases h
    exact ⟨hzone, rfl⟩
  · cases h

theorem zones_of_redirectTtl {expiresAt : Option Datetime} {ttl : Option Int}
    (h : redirectTtl cfg now expiresAt = .ok ttl) : ∀ d ∈ expiresAt, d.Aware := by
  rintro d hd
  cases hd
  unfold redirectTtl at h
  dsimp only at h
  cases hleft : remaining d now with
  | ok left => exact (zone_of_remaining hleft).1
  | error e =>
    rw [hleft] at h
    cases h

theorem kept_save (h : Kept cfg s) (now : Instant) (link : LinkEntity libs) : Kept cfg (s.save cfg now link).1 := by
  have hhash : IsLinkKey cfg (hashKey cfg link) := isLinkKey_hash _ _
  have hcode : IsLinkKey cfg (codeKey cfg link) := isLinkKey_code _
  have hkept := (h.putLink hhash link (now + cfg.linkTtl * Link.second)).putLink hcode link
    (now + cfg.linkTtl * Link.second)
  unfold save
  dsimp only
  split
  · exact hkept
  · exact hkept.dropped (hkept.dropRedirect (isRedirectKey _))
  · rename_i ttl httl
    exact hkept.putRedirect (isRedirectKey _) (zones_of_redirectTtl httl) _

/-- The first link is kept, and the others unless it raises. -/
theorem saveMany_cons (link : LinkEntity libs) (links : List (LinkEntity libs)) :
    (s.saveMany cfg now (link :: links)).1 =
      match (s.save cfg now link).2 with
      | .error _ => (s.save cfg now link).1
      | .ok () => ((s.save cfg now link).1.saveMany cfg now links).1 := by
  rw [saveMany]
  split
  · rename_i heq
    rw [heq]
  · rename_i heq
    rw [heq]

theorem kept_saveMany (h : Kept cfg s) (links : List (LinkEntity libs)) : Kept cfg (s.saveMany cfg now links).1 := by
  induction links generalizing s with
  | nil => exact h
  | cons link links ih =>
    rw [saveMany_cons]
    cases (s.save cfg now link).2 with
    | error e => exact kept_save h now link
    | ok _ => exact ih (kept_save h now link)

theorem kept_saveRedirect (h : Kept cfg s) (shortCode : ShortCode) (originalUrl : String)
    (expiresAt : Option Datetime) :
    Kept cfg (s.saveRedirect cfg now shortCode originalUrl expiresAt).1 := by
  unfold saveRedirect
  split
  · exact h
  · exact h
  · rename_i ttl httl
    exact h.putRedirect (isRedirectKey _) (zones_of_redirectTtl httl) _

theorem kept_saveStats (h : Kept cfg s) (stats : Stats) : Kept cfg (s.saveStats cfg now stats) := by
  refine ⟨h.linkKeys, h.redirectKeys, h.zones, ?_⟩
  intro key
  unfold saveStats
  dsimp only
  rw [Dictionary.lookup_set]
  split
  · rename_i heq
    simp [heq.symm]
  · rename_i hne
    rw [h.tracked key]
    simp [Ne.symm hne]

theorem kept_cleanExpired (h : Kept cfg s) (now : Instant) : Kept cfg (s.cleanExpired cfg now) :=
  h.dropped (dropped_cleanExpired cfg now s)

/-- What is left has not run out. -/
theorem isExpired_cleanExpired (key : String) : (s.cleanExpired cfg now).isExpired now key = false := by
  have hdropped := dropped_cleanExpired cfg now s
  unfold isExpired
  cases hexpiry : (s.cleanExpired cfg now).expiry.lookup key with
  | none => rfl
  | some expiry =>
    have hnot : ¬ RunOut now s key := by
      intro hout
      rw [(hdropped.gone hout).2.2] at hexpiry
      cases hexpiry
    rw [(hdropped.same hnot).2.2] at hexpiry
    exact decide_eq_false fun hlate => hnot ⟨expiry, hexpiry, hlate⟩

/-- There are no statistics without an expiry to take away. -/
theorem getStats_fst (h : Kept cfg s) : (s.getStats cfg now).1 = s.cleanExpired cfg now := by
  have hclean := kept_cleanExpired h now
  unfold getStats
  dsimp only
  rw [isExpired_cleanExpired]
  split
  · rfl
  · rename_i hnone
    have hstats : (s.cleanExpired cfg now).stats = none := by
      cases hstats : (s.cleanExpired cfg now).stats with
      | none => rfl
      | some stats =>
        exfalso
        apply hnone
        rw [(hclean.tracked _).mpr (.inr (.inr ⟨rfl, by rw [hstats]; rfl⟩))]
        rfl
    rw [← hstats]

theorem getRedirect_fst (shortCode : ShortCode) : (s.getRedirect cfg now shortCode).1 = s.cleanExpired cfg now := by
  unfold getRedirect
  dsimp only
  split
  · rfl
  · split
    · rfl
    · rfl

/-- Whether an operation writes entries. -/
def isSaving : CacheOperation libs Stats → Bool
  | .save _ => true
  | .saveMany _ => true
  | .saveRedirect _ _ _ => true
  | .saveStats _ => true
  | _ => false

/-- **Every other operation only drops keys.** -/
theorem dropped_perform (h : Kept cfg s) (now : Instant) {op : CacheOperation libs Stats} (hop : isSaving op = false) :
    ∃ D, Dropped cfg D s (perform cfg s now op) := by
  have hclean := dropped_cleanExpired cfg now s
  cases op with
  | save link => cases hop
  | saveMany links => cases hop
  | saveRedirect shortCode originalUrl expiresAt => cases hop
  | saveStats stats => cases hop
  | getByCode shortCode => exact ⟨_, hclean⟩
  | getByHash urlHash scope => exact ⟨_, hclean⟩
  | getByHashes urlHashes scope => exact ⟨_, hclean⟩
  | getRedirect shortCode =>
    rw [← getRedirect_fst shortCode] at hclean
    exact ⟨_, hclean⟩
  | getStats =>
    rw [← getStats_fst h] at hclean
    exact ⟨_, hclean⟩
  | delete link => exact ⟨_, dropped_delete s link⟩
  | deleteByCode shortCode => exact ⟨_, dropped_deleteByCode s shortCode⟩
  | deleteRedirect shortCode => exact ⟨_, h.dropRedirect (isRedirectKey _)⟩
  | deleteStats => exact ⟨_, h.dropStats⟩
  | clearAll => exact ⟨_, dropped_clearAll cfg s⟩
  | getCacheInfo => exact ⟨_, hclean⟩

/-- **Every operation keeps the books.** -/
theorem kept_perform (h : Kept cfg s) (op : CacheOperation libs Stats) : Kept cfg (perform cfg s now op) := by
  cases hop : isSaving op with
  | false =>
    obtain ⟨D, hdropped⟩ := dropped_perform h now hop
    exact h.dropped hdropped
  | true =>
    cases op with
    | save link => exact kept_save h now link
    | saveMany links => exact kept_saveMany h links
    | saveRedirect shortCode originalUrl expiresAt => exact kept_saveRedirect h shortCode originalUrl expiresAt
    | saveStats stats => exact kept_saveStats h stats
    | _ => cases hop

theorem kept_run (h : Kept cfg s) (ops : List (Instant × CacheOperation libs Stats)) : Kept cfg (run cfg s ops) := by
  unfold run
  induction ops generalizing s with
  | nil => exact h
  | cons op ops ih => exact ih (kept_perform h op.2)

end Performing

/-! ## Where entries come from -/

/-- Keeping a redirect raises for an expiry without its zone. -/
def raises (link : LinkEntity libs) : Bool := link.expiresAt.any fun d => d.tzinfo.isNone

/-- The links that are kept of a list, up to the first that raises. -/
def savedOf : List (LinkEntity libs) → List (LinkEntity libs)
  | [] => []
  | link :: links => link :: if raises link then [] else savedOf links

/-- The links an operation saves. -/
def savedBy : CacheOperation libs Stats → List (LinkEntity libs)
  | .save link => [link]
  | .saveMany links => savedOf links
  | _ => []

/-- The links that are saved in a run. -/
def savedIn (ops : List (Instant × CacheOperation libs Stats)) : List (LinkEntity libs) :=
  ops.flatMap fun op => savedBy op.2

/-- Whether an operation writes the redirect of a code. -/
def writesRedirect (shortCode : ShortCode) : CacheOperation libs Stats → Prop
  | .saveRedirect shortCode' _ _ => shortCode' = shortCode
  | op => ∃ link ∈ savedBy op, link.shortCode = shortCode

section Provenance

variable {key : String} {link found : LinkEntity libs} {entry : CachedRedirect} {shortCode : ShortCode}

/-- Keeping a link that raises is seen in the answer. -/
theorem save_ok (h : (s.save cfg now link).2 = .ok ()) : raises link = false := by
  cases httl : redirectTtl cfg now link.expiresAt with
  | error e =>
    unfold save at h
    dsimp only at h
    rw [httl] at h
    cases h
  | ok ttl =>
    have hzones := zones_of_redirectTtl httl
    unfold raises
    cases hexpires : link.expiresAt with
    | none => rfl
    | some d =>
      have hzone : d.tzinfo.isSome = true := hzones d (by rw [hexpires]; rfl)
      simpa using hzone

theorem links_save (h : (s.save cfg now link).1.links.lookup key = some found) :
    found = link ∨ s.links.lookup key = some found := by
  have hkept : (s.save cfg now link).1.links = (s.links.set (hashKey cfg link) link).set (codeKey cfg link) link := by
    unfold save
    dsimp only
    split <;> rfl
  rw [hkept, Dictionary.lookup_set, Dictionary.lookup_set] at h
  split at h
  · exact .inl (Option.some.inj h).symm
  · split at h
    · exact .inl (Option.some.inj h).symm
    · exact .inr h

theorem links_saveMany {links : List (LinkEntity libs)}
    (h : (s.saveMany cfg now links).1.links.lookup key = some found) :
    found ∈ savedOf links ∨ s.links.lookup key = some found := by
  induction links generalizing s with
  | nil => exact .inr h
  | cons link links ih =>
    have hfirst : found = link → found ∈ savedOf (link :: links) := by
      rintro rfl
      exact List.mem_cons_self
    rw [saveMany_cons] at h
    cases hanswer : (s.save cfg now link).2 with
    | error e =>
      rw [hanswer] at h
      exact (links_save h).imp_left hfirst
    | ok _ =>
      rw [hanswer] at h
      rcases ih h with hrest | hbefore
      · refine .inl (List.mem_cons_of_mem _ ?_)
        rw [save_ok hanswer]
        exact hrest
      · exact (links_save hbefore).imp_left hfirst

theorem links_saveRedirect (shortCode : ShortCode) (originalUrl : String) (expiresAt : Option Datetime) :
    (s.saveRedirect cfg now shortCode originalUrl expiresAt).1.links = s.links := by
  unfold saveRedirect
  split <;> rfl

/-- **A link that is found after an operation was there before, or the operation has saved it.** -/
theorem links_perform (hkept : Kept cfg s) {op : CacheOperation libs Stats}
    (h : (perform cfg s now op).links.lookup key = some found) :
    found ∈ savedBy op ∨ s.links.lookup key = some found := by
  cases hop : isSaving op with
  | false =>
    obtain ⟨D, hdropped⟩ := dropped_perform hkept now hop
    exact .inr (hdropped.links_some h).2
  | true =>
    cases op with
    | save link => exact (links_save h).imp_left List.mem_singleton.mpr
    | saveMany links => exact links_saveMany h
    | saveRedirect shortCode originalUrl expiresAt =>
      change (s.saveRedirect cfg now shortCode originalUrl expiresAt).1.links.lookup key = some found at h
      rw [links_saveRedirect] at h
      exact .inr h
    | saveStats stats => exact .inr h
    | _ => cases hop

theorem links_run (hkept : Kept cfg s) {ops : List (Instant × CacheOperation libs Stats)}
    (h : (run cfg s ops).links.lookup key = some found) : found ∈ savedIn ops ∨ s.links.lookup key = some found := by
  unfold run at h
  induction ops generalizing s with
  | nil => exact .inr h
  | cons op ops ih =>
    unfold savedIn
    rw [List.flatMap_cons, List.mem_append]
    rcases ih (kept_perform hkept op.2) h with hlater | hbefore
    · exact .inl (.inr hlater)
    · exact (links_perform hkept hbefore).imp_left .inl

theorem redirects_save (h : (s.save cfg now link).1.redirects.lookup key = some entry) :
    key = redirectKey cfg link ∨ s.redirects.lookup key = some entry := by
  unfold save at h
  dsimp only at h
  split at h
  · exact .inr h
  · dsimp only at h
    rw [Dictionary.lookup_erase] at h
    split at h
    · cases h
    · exact .inr h
  · dsimp only at h
    rw [Dictionary.lookup_set] at h
    split at h
    · rename_i heq
      exact .inl heq.symm
    · exact .inr h

theorem redirects_saveMany {links : List (LinkEntity libs)}
    (h : (s.saveMany cfg now links).1.redirects.lookup key = some entry) :
    (∃ link ∈ savedOf links, key = redirectKey cfg link) ∨ s.redirects.lookup key = some entry := by
  induction links generalizing s with
  | nil => exact .inr h
  | cons link links ih =>
    have hfirst : key = redirectKey cfg link → ∃ l ∈ savedOf (link :: links), key = redirectKey cfg l :=
      fun heq => ⟨link, List.mem_cons_self, heq⟩
    rw [saveMany_cons] at h
    cases hanswer : (s.save cfg now link).2 with
    | error e =>
      rw [hanswer] at h
      exact (redirects_save h).imp_left hfirst
    | ok _ =>
      rw [hanswer] at h
      rcases ih h with ⟨l, hl, hkey⟩ | hbefore
      · refine .inl ⟨l, List.mem_cons_of_mem _ ?_, hkey⟩
        rw [save_ok hanswer]
        exact hl
      · exact (redirects_save hbefore).imp_left hfirst

theorem redirects_saveRedirect {originalUrl : String} {expiresAt : Option Datetime}
    (h : (s.saveRedirect cfg now shortCode originalUrl expiresAt).1.redirects.lookup key = some entry) :
    key = cfg.keyGen.forRedirect shortCode.val ∨ s.redirects.lookup key = some entry := by
  unfold saveRedirect at h
  split at h
  · exact .inr h
  · exact .inr h
  · dsimp only at h
    rw [Dictionary.lookup_set] at h
    split at h
    · rename_i heq
      exact .inl heq.symm
    · exact .inr h

/-- **A redirect that is found after an operation was there before, or the operation has written it.** -/
theorem redirects_perform (hkept : Kept cfg s) {op : CacheOperation libs Stats}
    (h : (perform cfg s now op).redirects.lookup (cfg.keyGen.forRedirect shortCode.val) = some entry) :
    writesRedirect shortCode op ∨ s.redirects.lookup (cfg.keyGen.forRedirect shortCode.val) = some entry := by
  cases hop : isSaving op with
  | false =>
    obtain ⟨D, hdropped⟩ := dropped_perform hkept now hop
    exact .inr (hdropped.redirects_some h).2
  | true =>
    cases op with
    | save link =>
      refine (redirects_save h).imp_left fun hkey => ⟨link, List.mem_singleton_self link, ?_⟩
      exact Subtype.ext (CacheKeyBuilder.forRedirect_inj hkey).symm
    | saveMany links =>
      refine (redirects_saveMany h).imp_left ?_
      rintro ⟨link, hlink, hkey⟩
      exact ⟨link, hlink, Subtype.ext (CacheKeyBuilder.forRedirect_inj hkey).symm⟩
    | saveRedirect shortCode' originalUrl expiresAt =>
      exact (redirects_saveRedirect h).imp_left fun hkey => Subtype.ext (CacheKeyBuilder.forRedirect_inj hkey).symm
    | saveStats stats => exact .inr h
    | _ => cases hop

theorem redirects_run (hkept : Kept cfg s) {ops : List (Instant × CacheOperation libs Stats)}
    (h : (run cfg s ops).redirects.lookup (cfg.keyGen.forRedirect shortCode.val) = some entry) :
    (∃ op ∈ ops, writesRedirect shortCode op.2) ∨ s.redirects.lookup (cfg.keyGen.forRedirect shortCode.val) = some entry := by
  unfold run at h
  induction ops generalizing s with
  | nil => exact .inr h
  | cons op ops ih =>
    rcases ih (kept_perform hkept op.2) h with ⟨op', hop', hwrites⟩ | hbefore
    · exact .inl ⟨op', List.mem_cons_of_mem op hop', hwrites⟩
    · exact (redirects_perform hkept hbefore).imp_left fun hwrites => ⟨op, List.mem_cons_self, hwrites⟩

end Provenance

/-! ## What the books say -/

/-- **The books**: no key is in both dictionaries, and the keys with an expiry are those of the two and, when there are
statistics, theirs. -/
structure Books (cfg : CacheSettings) (s : InMemoryLinkCache libs Stats) : Prop where
  disjoint : ∀ key ∈ s.links.keys, key ∉ s.redirects.keys
  tracked : ∀ key, key ∈ s.expiry.keys ↔
    key ∈ s.links.keys ∨ key ∈ s.redirects.keys ∨ (key = cfg.keyGen.forStats ∧ s.stats.isSome = true)

theorem Kept.books (h : Kept cfg s) : Books cfg s := by
  refine ⟨?_, ?_⟩
  · intro key hlink hredirect
    obtain ⟨link, hlink⟩ := Option.isSome_iff_exists.mp ((Dictionary.mem_keys _ _).mp hlink)
    obtain ⟨entry, hredirect⟩ := Option.isSome_iff_exists.mp ((Dictionary.mem_keys _ _).mp hredirect)
    exact (h.linkKeys hlink).not_redirect (h.redirectKeys hredirect)
  · intro key
    rw [Dictionary.mem_keys, Dictionary.mem_keys, Dictionary.mem_keys]
    exact h.tracked key

/-- Every key is counted once. -/
theorem Kept.count (h : Kept cfg s) :
    s.expiry.rows.length = s.links.rows.length + s.redirects.rows.length + if s.stats.isSome then 1 else 0 := by
  obtain ⟨hdisjoint, htracked⟩ := h.books
  have hstats : ∀ key ∈ (if s.stats.isSome then [cfg.keyGen.forStats] else []), key = cfg.keyGen.forStats := by
    intro key hkey
    split at hkey
    · exact List.mem_singleton.mp hkey
    · cases hkey
  have hnodup : (s.links.keys ++ (s.redirects.keys ++ if s.stats.isSome then [cfg.keyGen.forStats] else [])).Nodup := by
    refine List.Nodup.append s.links.nodup (List.Nodup.append s.redirects.nodup ?_ ?_) ?_
    · split
      · exact List.nodup_singleton _
      · exact List.nodup_nil
    · intro key hredirect hkey
      obtain ⟨entry, hredirect⟩ := Option.isSome_iff_exists.mp ((Dictionary.mem_keys _ _).mp hredirect)
      exact (h.redirectKeys hredirect).not_stats (hstats key hkey)
    · intro key hlink hkey
      rcases List.mem_append.mp hkey with hkey | hkey
      · exact hdisjoint key hlink hkey
      · obtain ⟨link, hlink⟩ := Option.isSome_iff_exists.mp ((Dictionary.mem_keys _ _).mp hlink)
        exact (h.linkKeys hlink).not_stats (hstats key hkey)
  have hperm : s.expiry.keys.Perm
      (s.links.keys ++ (s.redirects.keys ++ if s.stats.isSome then [cfg.keyGen.forStats] else [])) := by
    refine (List.perm_ext_iff_of_nodup s.expiry.nodup hnodup).mpr fun key => ?_
    show key ∈ s.expiry.keys ↔ _
    rw [htracked key, List.mem_append, List.mem_append]
    cases s.stats with
    | none => simp
    | some stats => simp
  have hlength := hperm.length_eq
  unfold Dictionary.keys at hlength
  rw [List.length_append, List.length_append, List.length_map, List.length_map, List.length_map] at hlength
  rw [hlength]
  cases s.stats with
  | none => rfl
  | some stats => exact (Nat.add_assoc ..).symm

/-- What `get_cache_info` says adds up. -/
theorem Kept.info (h : Kept cfg s) (now : Instant) : (s.getCacheInfo cfg now).2.totalKeys =
    (s.getCacheInfo cfg now).2.linkCount + (s.getCacheInfo cfg now).2.redirectCount +
      if (s.getCacheInfo cfg now).2.hasStats then 1 else 0 :=
  (kept_cleanExpired h now).count

/-- A redirect is answered, and its link has not expired. -/
theorem Kept.redirect (h : Kept cfg s) (now : Instant) (shortCode : ShortCode) :
    ∃ answer, (s.getRedirect cfg now shortCode).2 = .ok answer ∧
      ∀ entry ∈ answer, ∀ d ∈ entry.expiresAt, now < d.instant := by
  have hclean := kept_cleanExpired h now
  unfold getRedirect
  dsimp only
  cases hentry : (s.cleanExpired cfg now).redirects.lookup (cfg.keyGen.forRedirect shortCode.val) with
  | none => exact ⟨none, rfl, nofun⟩
  | some entry =>
    dsimp only
    split
    · have hzones := hclean.zones hentry
      unfold CachedRedirect.isExpired
      cases hexpires : entry.expiresAt with
      | none =>
        refine ⟨some entry, rfl, ?_⟩
        rintro _ ⟨⟩ d hd
        rw [hexpires] at hd
        cases hd
      | some d =>
        have hzone : d.tzinfo.isSome = true := hzones d (by rw [hexpires]; rfl)
        have hleft : remaining d now = .ok (d.instant - now) := if_pos hzone
        dsimp only
        rw [hleft]
        by_cases hlate : d.instant - now ≤ 0
        · exact ⟨none, by simp [Except.map, hlate], nofun⟩
        · refine ⟨some entry, by simp [Except.map, hlate], ?_⟩
          rintro _ ⟨⟩ d' hd'
          rw [hexpires] at hd'
          cases hd'
          show (now : Int) < d.instant
          exact Int.lt_of_sub_pos (Int.not_le.mp hlate)
    · exact ⟨none, rfl, nofun⟩

/-! ## Deletions -/

/-- What is found for the keys of a link has been saved since it was deleted. -/
structure Forgotten (cfg : CacheSettings) (link : LinkEntity libs) (later : List (Instant × CacheOperation libs Stats))
    (s : InMemoryLinkCache libs Stats) : Prop where
  byCode : ∀ now found, (s.getByCode cfg now link.shortCode).2 = some found → found ∈ savedIn later
  byHash : ∀ now found, (s.getByHash cfg now link.urlHash link.dedupScope).2 = some found → found ∈ savedIn later
  byHashes : ∀ now urlHashes found,
    (s.getByHashes cfg now urlHashes link.dedupScope).2.lookup link.urlHash = some (some found) → found ∈ savedIn later
  redirect : ∀ now entry, (s.getRedirect cfg now link.shortCode).2 = .ok (some entry) →
    ∃ op ∈ later, writesRedirect link.shortCode op.2

theorem Kept.forgotten (h : Kept cfg s) (link : LinkEntity libs) (later : List (Instant × CacheOperation libs Stats)) :
    Forgotten cfg link later (run cfg (s.delete cfg link) later) := by
  have hdropped : Dropped cfg _ s (s.delete cfg link) := dropped_delete s link
  have hkept := h.dropped hdropped
  -- A key of the link is free after the deletion, so that what is found there came later.
  have hlinks : ∀ {key found} (now : Instant), key ∈ [codeKey cfg link, redirectKey cfg link, hashKey cfg link] →
      ((run cfg (s.delete cfg link) later).cleanExpired cfg now).links.lookup key = some found → found ∈ savedIn later := by
    intro key found now hkey hfound
    rcases links_run hkept ((dropped_cleanExpired cfg now _).links_some hfound).2 with hsaved | hbefore
    · exact hsaved
    · rw [(hdropped.gone hkey).1] at hbefore
      cases hbefore
  have hcode : codeKey cfg link ∈ [codeKey cfg link, redirectKey cfg link, hashKey cfg link] := by simp
  have hhash : hashKey cfg link ∈ [codeKey cfg link, redirectKey cfg link, hashKey cfg link] := by simp
  refine ⟨fun now found hfound => hlinks now hcode hfound, fun now found hfound => hlinks now hhash hfound, ?_, ?_⟩
  · intro now urlHashes found hfound
    rcases Dictionary.eq_of_lookup_foldl_set hfound with hvalue | hempty
    · exact hlinks now hhash hvalue.symm
    · cases hempty
  · intro now entry hentry
    have hredirect : redirectKey cfg link ∈ [codeKey cfg link, redirectKey cfg link, hashKey cfg link] := by simp
    unfold getRedirect at hentry
    dsimp only at hentry
    cases hfound : ((run cfg (s.delete cfg link) later).cleanExpired cfg now).redirects.lookup
        (cfg.keyGen.forRedirect link.shortCode.val) with
    | none =>
      rw [hfound] at hentry
      cases hentry
    | some found =>
      rcases redirects_run hkept ((dropped_cleanExpired cfg now _).redirects_some hfound).2 with hwritten | hbefore
      · exact hwritten
      · rw [show (s.delete cfg link).redirects.lookup (cfg.keyGen.forRedirect link.shortCode.val) = none from
          (hdropped.gone hredirect).2.1] at hbefore
        cases hbefore

/-- **The cache keeps its books.** After any operations, whatever the clock said: no key is in both dictionaries, the keys
with an expiry are theirs and that of the statistics if there are some, and what is counted adds up; what is found for a link
that is deleted has been saved since; and a redirect is answered with an entry only while its link has not expired. -/
theorem memory_cache_keeps_its_books (cfg : CacheSettings) (ops : List (Instant × CacheOperation libs Stats)) :
    Books cfg (run cfg new ops) ∧
    (∀ now, ((run cfg new ops).getCacheInfo cfg now).2.totalKeys =
      ((run cfg new ops).getCacheInfo cfg now).2.linkCount + ((run cfg new ops).getCacheInfo cfg now).2.redirectCount +
        if ((run cfg new ops).getCacheInfo cfg now).2.hasStats then 1 else 0) ∧
    (∀ link later, Forgotten cfg link later (run cfg ((run cfg new ops).delete cfg link) later)) ∧
    ∀ now shortCode, ∃ answer, ((run cfg new ops).getRedirect cfg now shortCode).2 = .ok answer ∧
      ∀ entry ∈ answer, ∀ d ∈ entry.expiresAt, now < d.instant := by
  have hkept : Kept cfg (run cfg new ops) := kept_run kept_new ops
  exact ⟨hkept.books, hkept.info, hkept.forgotten, hkept.redirect⟩

end InMemoryLinkCache

end LinkShortener.Caches
