import Mathlib.Logic.Function.Basic
import LinkShortener.Domain.Link

/-!
# The link cache

One cache with three families of keys: the link by its short code (L2), the link by the hash of its URL and its scope,
and the redirect by the short code (L1). `DedupScope.token` spells the kind of a scope out, so that different scopes
have different keys; a key is here the hash with the scope itself.

A `Backend` is the dictionary of one process, a Redis server, or no cache at all. The first two differ in what they do
with a redirect that has expired: the dictionary hides it and drops it when the link is saved again, Redis hands it out
and leaves it.

Every operation succeeds. That an entry runs out is an eviction, `Cache.evict`.
-/

namespace LinkShortener

/-- A redirect that can say for itself whether it may be served. -/
structure CachedRedirect where
  shortCode : ShortCode
  originalUrl : String
  expiresAt : Option Instant
  deriving DecidableEq

/-- Whether the expiry has passed. -/
def expiredAt (now : Instant) (expiresAt : Option Instant) : Bool := expiresAt.any fun e => decide (e ≤ now)

def CachedRedirect.isExpired (now : Instant) (entry : CachedRedirect) : Bool := expiredAt now entry.expiresAt

theorem Link.isExpired_eq (now : Instant) (link : Link) : link.isExpired now = expiredAt now link.expiresAt := by
  unfold Link.isExpired expiredAt
  cases link.expiresAt <;> rfl

inductive Backend
  | memory
  | redis
  | null
  deriving DecidableEq, Repr

/-- What is cached under each key. -/
structure Cache where
  byCode : ShortCode → Option Link
  byHash : String → DedupScope → Option Link
  redirects : ShortCode → Option CachedRedirect

namespace Cache

def empty : Cache := ⟨fun _ => none, fun _ _ => none, fun _ => none⟩

section Operations

variable (b : Backend) (cache : Cache)

def getByCode (c : ShortCode) : Option Link :=
  match b with
  | .null => none
  | _ => cache.byCode c

def getByHash (hash : String) (scope : DedupScope) : Option Link :=
  match b with
  | .null => none
  | _ => cache.byHash hash scope

/-- A redirect of another code is a miss; the dictionary also misses one that has expired. -/
def getRedirect (now : Instant) (c : ShortCode) : Option CachedRedirect :=
  match b with
  | .null => none
  | .redis => (cache.redirects c).filter fun entry => decide (entry.shortCode = c)
  | .memory => (cache.redirects c).filter fun entry => decide (entry.shortCode = c) && !entry.isExpired now

/-- The redirect entry of a saved link. -/
def redirectOf (now : Instant) (link : Link) : Option CachedRedirect :=
  if link.isExpired now then
    match b with
    | .memory => none
    | _ => cache.redirects link.shortCode
  else some ⟨link.shortCode, link.originalUrl, link.expiresAt⟩

/-- Store a link under its three keys. -/
def save (now : Instant) (link : Link) : Cache :=
  match b with
  | .null => cache
  | _ =>
    { byCode := Function.update cache.byCode link.shortCode (some link)
      byHash := Function.update cache.byHash link.urlHash
        (Function.update (cache.byHash link.urlHash) link.dedupScope (some link))
      redirects := Function.update cache.redirects link.shortCode (cache.redirectOf b now link) }

/-- Store a redirect; one that has expired is not stored. -/
def saveRedirect (now : Instant) (c : ShortCode) (originalUrl : String) (expiresAt : Option Instant) : Cache :=
  match b with
  | .null => cache
  | _ =>
    if expiredAt now expiresAt then cache
    else { cache with redirects := Function.update cache.redirects c (some ⟨c, originalUrl, expiresAt⟩) }

/-- Remove the two entries a code can name. -/
def deleteByCode (c : ShortCode) : Cache :=
  match b with
  | .null => cache
  | _ =>
    { cache with
      byCode := Function.update cache.byCode c none
      redirects := Function.update cache.redirects c none }

/-- Remove every entry of a link. -/
def delete (link : Link) : Cache :=
  match b with
  | .null => cache
  | _ =>
    { byCode := Function.update cache.byCode link.shortCode none
      byHash := Function.update cache.byHash link.urlHash
        (Function.update (cache.byHash link.urlHash) link.dedupScope none)
      redirects := Function.update cache.redirects link.shortCode none }

def deleteRedirect (c : ShortCode) : Cache :=
  match b with
  | .null => cache
  | _ => { cache with redirects := Function.update cache.redirects c none }

/-- Any entries may be lost at any time. -/
def evict (codes : ShortCode → Bool) (hashes : String → DedupScope → Bool) (redirects : ShortCode → Bool) : Cache where
  byCode := fun c => if codes c then none else cache.byCode c
  byHash := fun hash scope => if hashes hash scope then none else cache.byHash hash scope
  redirects := fun c => if redirects c then none else cache.redirects c

end Operations

section Lookups

variable {b : Backend} {cache : Cache} {now : Instant} {c : ShortCode}

theorem getByCode_some {link : Link} (h : cache.getByCode b c = some link) :
    b ≠ .null ∧ cache.byCode c = some link := by
  cases b with
  | null => cases h
  | memory => exact ⟨nofun, h⟩
  | redis => exact ⟨nofun, h⟩

theorem getRedirect_some {entry : CachedRedirect} (h : cache.getRedirect b now c = some entry) :
    b ≠ .null ∧ cache.redirects c = some entry := by
  cases b with
  | null => cases h
  | memory => exact ⟨nofun, (Option.filter_eq_some_iff.mp h).1⟩
  | redis => exact ⟨nofun, (Option.filter_eq_some_iff.mp h).1⟩

end Lookups

/-! ## What the cache says of a code -/

/-- Everything cached for a code, link or redirect, satisfies `P`, and a redirect is filed under its own code. -/
structure Vouches (P : ShortCode → String → Option Instant → Prop) (cache : Cache) : Prop where
  byCode : ∀ c link, cache.byCode c = some link → P c link.originalUrl link.expiresAt
  redirects : ∀ c entry, cache.redirects c = some entry →
    entry.shortCode = c ∧ P c entry.originalUrl entry.expiresAt

namespace Vouches

variable {P Q : ShortCode → String → Option Instant → Prop} {b : Backend} {cache : Cache} {now : Instant} {c : ShortCode}

theorem empty (P : ShortCode → String → Option Instant → Prop) : Vouches P Cache.empty := by
  constructor
  · intro c link h
    cases h
  · intro c entry h
    cases h

theorem mono (h : Vouches P cache) (hpq : ∀ c url e, P c url e → Q c url e) : Vouches Q cache := by
  constructor
  · intro c link hl
    exact hpq c _ _ (h.byCode c link hl)
  · intro c entry he
    exact ⟨(h.redirects c entry he).1, hpq c _ _ (h.redirects c entry he).2⟩

/-- A link that is saved has to satisfy `P` itself. -/
theorem save (h : Vouches P cache) {link : Link} (hp : P link.shortCode link.originalUrl link.expiresAt) :
    Vouches P (cache.save b now link) := by
  unfold Cache.save
  split
  · exact h
  · constructor
    · intro c l hl
      simp only [Function.update_apply] at hl
      split at hl
      · rename_i hc
        cases hl
        rw [hc]
        exact hp
      · exact h.byCode c l hl
    · intro c e he
      simp only [Function.update_apply] at he
      split at he
      · rename_i hc
        subst hc
        unfold redirectOf at he
        split at he
        · split at he
          · cases he
          · exact h.redirects _ e he
        · cases he
          exact ⟨rfl, hp⟩
      · exact h.redirects c e he

theorem saveRedirect (h : Vouches P cache) {url : String} {expiresAt : Option Instant} (hp : P c url expiresAt) :
    Vouches P (cache.saveRedirect b now c url expiresAt) := by
  unfold Cache.saveRedirect
  split
  · exact h
  · split
    · exact h
    · refine ⟨h.byCode, ?_⟩
      intro c' e he
      simp only [Function.update_apply] at he
      split at he
      · rename_i hc
        cases he
        exact ⟨hc.symm, hc ▸ hp⟩
      · exact h.redirects c' e he

/-- The two families of keys that name a code are empty at `c` and elsewhere as they were. -/
theorem drop (h : Vouches P cache) {cache' : Cache} (hcode : cache'.byCode = Function.update cache.byCode c none)
    (hredirect : cache'.redirects = Function.update cache.redirects c none) :
    Vouches (fun c' url e => P c' url e ∧ c' ≠ c) cache' := by
  constructor
  · intro c' l hl
    rw [hcode, Function.update_apply] at hl
    split at hl
    · cases hl
    · rename_i hne
      exact ⟨h.byCode c' l hl, hne⟩
  · intro c' e he
    rw [hredirect, Function.update_apply] at he
    split at he
    · cases he
    · rename_i hne
      exact ⟨(h.redirects c' e he).1, (h.redirects c' e he).2, hne⟩

theorem deleteByCode (h : Vouches P cache) (hb : b ≠ .null) :
    Vouches (fun c' url e => P c' url e ∧ c' ≠ c) (cache.deleteByCode b c) := by
  cases b with
  | null => exact absurd rfl hb
  | memory => exact h.drop rfl rfl
  | redis => exact h.drop rfl rfl

theorem delete (h : Vouches P cache) (hb : b ≠ .null) (link : Link) :
    Vouches (fun c' url e => P c' url e ∧ c' ≠ link.shortCode) (cache.delete b link) := by
  cases b with
  | null => exact absurd rfl hb
  | memory => exact h.drop rfl rfl
  | redis => exact h.drop rfl rfl

theorem deleteRedirect (h : Vouches P cache) : Vouches P (cache.deleteRedirect b c) := by
  unfold Cache.deleteRedirect
  split
  · exact h
  · refine ⟨h.byCode, ?_⟩
    intro c' e he
    simp only [Function.update_apply] at he
    split at he
    · cases he
    · exact h.redirects c' e he

/-- Dropping links one after the other leaves nothing under their codes. -/
theorem foldl {f : Cache → Link → Cache}
    (hf : ∀ {P cache} link, Vouches P cache → Vouches (fun c url e => P c url e ∧ c ≠ link.shortCode) (f cache link))
    (links : List Link) (h : Vouches P cache) :
    Vouches (fun c url e => P c url e ∧ ∀ l ∈ links, c ≠ l.shortCode) (links.foldl f cache) := by
  induction links generalizing P cache with
  | nil => exact h.mono fun c url e hp => ⟨hp, nofun⟩
  | cons x xs ih =>
    apply (ih (hf x h)).mono
    rintro c url e ⟨⟨hp, hx⟩, hxs⟩
    refine ⟨hp, ?_⟩
    intro l hl
    rcases List.mem_cons.mp hl with rfl | hl
    · exact hx
    · exact hxs l hl

theorem evict (h : Vouches P cache) (codes : ShortCode → Bool) (hashes : String → DedupScope → Bool)
    (redirects : ShortCode → Bool) : Vouches P (cache.evict codes hashes redirects) := by
  constructor
  · intro c l hl
    simp only [Cache.evict] at hl
    split at hl
    · cases hl
    · exact h.byCode c l hl
  · intro c e he
    simp only [Cache.evict] at he
    split at he
    · cases he
    · exact h.redirects c e he

end Vouches

/-! ## What is left of a cache -/

/-- Every entry was there before. -/
structure Within (cache old : Cache) : Prop where
  byCode : ∀ c link, cache.byCode c = some link → old.byCode c = some link
  byHash : ∀ hash scope link, cache.byHash hash scope = some link → old.byHash hash scope = some link
  redirects : ∀ c entry, cache.redirects c = some entry → old.redirects c = some entry

theorem eq_some_of_update_none {α β : Type} [DecidableEq α] {f : α → Option β} {a x : α} {y : β}
    (h : Function.update f a none x = some y) : f x = some y := by
  rw [Function.update_apply] at h
  split at h
  · cases h
  · exact h

namespace Within

variable {cache cache₁ cache₂ : Cache}

theorem refl (cache : Cache) : Within cache cache := by
  constructor
  · intro c link h
    exact h
  · intro hash scope link h
    exact h
  · intro c entry h
    exact h

theorem trans (h₁ : Within cache₂ cache₁) (h : Within cache₁ cache) : Within cache₂ cache := by
  constructor
  · intro c link hl
    exact h.byCode c link (h₁.byCode c link hl)
  · intro hash scope link hl
    exact h.byHash hash scope link (h₁.byHash hash scope link hl)
  · intro c entry he
    exact h.redirects c entry (h₁.redirects c entry he)

theorem delete (b : Backend) (cache : Cache) (link : Link) : Within (cache.delete b link) cache := by
  unfold Cache.delete
  split
  · exact .refl cache
  · constructor
    · intro c l h
      exact eq_some_of_update_none h
    · intro hash scope l h
      simp only [Function.update_apply] at h
      split at h
      · rename_i hhash
        subst hhash
        exact eq_some_of_update_none h
      · exact h
    · intro c entry h
      exact eq_some_of_update_none h

theorem deleteRedirect (b : Backend) (cache : Cache) (c : ShortCode) : Within (cache.deleteRedirect b c) cache := by
  unfold Cache.deleteRedirect
  split
  · exact .refl cache
  · exact ⟨fun _ _ h => h, fun _ _ _ h => h, fun _ _ h => eq_some_of_update_none h⟩

theorem deleteByCode (b : Backend) (cache : Cache) (c : ShortCode) : Within (cache.deleteByCode b c) cache := by
  unfold Cache.deleteByCode
  split
  · exact .refl cache
  · exact ⟨fun _ _ h => eq_some_of_update_none h, fun _ _ _ h => h, fun _ _ h => eq_some_of_update_none h⟩

theorem evict (cache : Cache) (codes : ShortCode → Bool) (hashes : String → DedupScope → Bool)
    (redirects : ShortCode → Bool) : Within (cache.evict codes hashes redirects) cache := by
  constructor
  · intro c l h
    simp only [Cache.evict] at h
    split at h
    · cases h
    · exact h
  · intro hash scope l h
    simp only [Cache.evict] at h
    split at h
    · cases h
    · exact h
  · intro c e h
    simp only [Cache.evict] at h
    split at h
    · cases h
    · exact h

/-- Dropping one link after the other adds nothing. -/
theorem foldl {f : Cache → Link → Cache} (hf : ∀ cache link, Within (f cache link) cache) (links : List Link)
    (cache : Cache) : Within (links.foldl f cache) cache := by
  induction links generalizing cache with
  | nil => exact .refl cache
  | cons link links ih => exact (ih (f cache link)).trans (hf cache link)

end Within

end Cache

end LinkShortener
