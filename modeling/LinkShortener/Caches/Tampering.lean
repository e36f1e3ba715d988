import Mathlib.Logic.Equiv.List
import LinkShortener.Lib.Run
import LinkShortener.Lib.Seals
import LinkShortener.Caches.RedisCache

/-!
# Writing to Redis is not being believed

Besides the service, somebody writes to the server who does not have the secret: entries are copied from key to key, put
back after they have run out, or made up. The service goes on saving, deleting and reading among that.

* `Written`: what the service has saved, and when. `sealsOf`: the contents that were sealed for it.
* `Honest`: what is known of an event. What is saved can be read back, and what somebody else writes opens to nothing that
  was not sealed before.
* `Inv`: the same of everything in the server. `step_inv`.
* `answers_were_saved`: whatever is answered was saved by the service, for the key it is answered under and no longer ago
  than an entry lives.
-/

namespace LinkShortener.Caches

open RedisLinkCache Seals

variable {libs : Urls.Libraries}

/-! ## The server in the open -/

/-- What the service has saved. -/
inductive Written (libs : Urls.Libraries)
  | link (link : LinkEntity libs) (moment : Instant)
  | redirect (shortCode : ShortCode) (originalUrl : String) (expiresAt : Option Datetime) (moment : Instant)
  | stats (document : Document) (moment : Instant)

/-- The server, and what was saved in it. -/
structure Exposed (libs : Urls.Libraries) where
  redis : Redis
  written : List (Written libs)

/-- The service performs an operation; somebody else writes a value or drops one. The server drops what runs out. -/
inductive ExposedEvent (libs : Urls.Libraries)
  | operation (now : Instant) (operation : CacheOperation libs Document) (delivery : Delivery)
  | write (key : String) (blob : List UInt8) (deadline : Instant)
  | drop (key : String)

section Steps

variable (cfg : RedisSettings) (now : Instant) (delivery : Delivery) (s : Exposed libs)

/-- What was sent to the server, if it was worked out. -/
def Exposed.note (s : Exposed libs) (redis : Except TypeError Redis) (written : List (Written libs)) : Exposed libs :=
  match redis with
  | .error _ => s
  | .ok redis => ⟨redis, written ++ s.written⟩

def Exposed.perform : CacheOperation libs Document → Exposed libs
  | .save link => s.note (save cfg now s.redis delivery link) [.link link now]
  | .saveMany links => s.note (saveMany cfg now s.redis delivery links) (links.map (.link · now))
  | .saveRedirect shortCode originalUrl expiresAt =>
    s.note (saveRedirect cfg now s.redis delivery shortCode originalUrl expiresAt)
      [.redirect shortCode originalUrl expiresAt now]
  | .saveStats stats => s.note (.ok (saveStats cfg now s.redis delivery stats)) [.stats stats now]
  | .delete link => { s with redis := (delete cfg s.redis delivery link).1 }
  | .deleteByCode shortCode => { s with redis := (deleteByCode cfg s.redis delivery shortCode).1 }
  | .deleteRedirect shortCode => { s with redis := deleteRedirect cfg s.redis delivery shortCode }
  | .deleteStats => { s with redis := deleteStats cfg s.redis delivery }
  | .clearAll => { s with redis := clearAll cfg s.redis delivery }
  | .getByCode _ | .getByHash _ _ | .getByHashes _ _ | .getRedirect _ | .getStats | .getCacheInfo => s

def Exposed.step : ExposedEvent libs → Option (Exposed libs)
  | .operation now operation delivery => some (s.perform cfg now delivery operation)
  | .write key blob deadline => some { s with redis := ⟨s.redis.data.set key (blob, deadline)⟩ }
  | .drop key => some { s with redis := s.redis.delete [key] }

end Steps

/-! ## What was sealed -/

section Sealed

variable (cfg : RedisSettings)

/-- When it was saved. -/
def Written.moment : Written libs → Instant
  | .link _ moment | .redirect _ _ _ moment | .stats _ moment => moment

/-- What is kept of something that is saved, and under which keys. -/
def entriesOf : Written libs → List (Subject × List UInt8)
  | .link link _ =>
    [(.urlHash link.urlHash link.dedupScope, serialize cfg.formats link),
      (.shortCode link.shortCode, serialize cfg.formats link),
      (.redirect link.shortCode,
        serializeRedirect cfg.formats link.shortCode.val link.originalUrl.value link.expiresAt)]
  | .redirect shortCode originalUrl expiresAt _ =>
    [(.redirect shortCode, serializeRedirect cfg.formats shortCode.val originalUrl expiresAt)]
  | .stats document _ => [(.stats, cfg.formats.dumps document)]

def sealsOf (w : Written libs) : List (String × List UInt8 × Int) :=
  (entriesOf cfg w).map fun e => (cfg.keyGen.keyFor e.1, e.2, wholeSeconds w.moment)

def issued (written : List (Written libs)) : List (String × List UInt8 × Int) := written.flatMap (sealsOf cfg)

/-- The bytes open to a value of a moment under a key. -/
def Opens (blob : List UInt8) (content : String × List UInt8 × Int) : Prop :=
  cfg.signer.unsign content.1 blob = some content.2

/-- The formats read back what they have written of it. -/
def Readable : Written libs → Prop
  | .link link _ => link.Aware ∧ cfg.formats.Keeps (linkDocument cfg.formats link) (stampsOf link) ∧
    cfg.formats.Keeps (redirectDocument cfg.formats link.shortCode.val link.originalUrl.value link.expiresAt)
      link.expiresAt.toList
  | .redirect shortCode originalUrl expiresAt _ =>
    cfg.formats.Keeps (redirectDocument cfg.formats shortCode.val originalUrl expiresAt) expiresAt.toList
  | .stats document _ => cfg.formats.Keeps document []

/-- What an operation saves. -/
def savedBy (now : Instant) : CacheOperation libs Document → List (Written libs)
  | .save link => [.link link now]
  | .saveMany links => links.map (.link · now)
  | .saveRedirect shortCode originalUrl expiresAt => [.redirect shortCode originalUrl expiresAt now]
  | .saveStats stats => [.stats stats now]
  | _ => []

/-- What is saved can be read back, and nobody else can seal anything. -/
def Honest (s : Exposed libs) : ExposedEvent libs → Prop
  | .operation now operation _ => ∀ w ∈ savedBy now operation, Readable cfg w
  | .write _ blob _ => Genuine (Opens cfg) (issued cfg s.written) blob
  | .drop _ => True

end Sealed

/-! ## What is in the server -/

section Server

variable {cfg : RedisSettings} {now : Instant} {redis redis' : Redis} {written written' : List (Written libs)}

/-- Everything in the server is genuine. -/
def AllGenuine (cfg : RedisSettings) (written : List (Written libs)) (redis : Redis) : Prop :=
  ∀ key entry, redis.data.lookup key = some entry → Genuine (Opens cfg) (issued cfg written) entry.1

theorem AllGenuine.mono (h : AllGenuine cfg written redis) (hsub : written ⊆ written') : AllGenuine cfg written' redis := by
  intro key entry hentry
  refine (h key entry hentry).mono ?_
  intro content hcontent
  obtain ⟨w, hw, hseal⟩ := List.mem_flatMap.mp hcontent
  exact List.mem_flatMap.mpr ⟨w, hsub hw, hseal⟩

theorem AllGenuine.delivered (h : AllGenuine cfg written redis) (h' : AllGenuine cfg written redis') (delivery : Delivery) :
    AllGenuine cfg written (delivery.write redis redis').1 := by
  cases delivery with
  | refused => exact h
  | unanswered => exact h'
  | done => exact h'

theorem AllGenuine.set (h : AllGenuine cfg written redis) {key : String} {blob : List UInt8} (deadline : Instant)
    (hblob : Genuine (Opens cfg) (issued cfg written) blob) :
    AllGenuine cfg written ⟨redis.data.set key (blob, deadline)⟩ := by
  intro key' entry hentry
  rw [Dictionary.lookup_set] at hentry
  split at hentry
  · cases hentry
    exact hblob
  · exact h key' entry hentry

theorem AllGenuine.execute (h : AllGenuine cfg written redis) {commands : List (String × List UInt8 × Int)}
    (hcommands : ∀ c ∈ commands, Genuine (Opens cfg) (issued cfg written) c.2.1) :
    AllGenuine cfg written (redis.execute now commands) := by
  induction commands generalizing redis with
  | nil => exact h
  | cons c commands ih =>
    obtain ⟨hc, hcommands⟩ := List.forall_mem_cons.mp hcommands
    exact ih (h.set _ hc) hcommands

theorem AllGenuine.delete (h : AllGenuine cfg written redis) (keys : List String) :
    AllGenuine cfg written (redis.delete keys) := by
  induction keys generalizing redis with
  | nil => exact h
  | cons key keys ih =>
    have herased : AllGenuine cfg written ⟨redis.data.erase key⟩ := by
      intro key' entry hentry
      rw [Dictionary.lookup_erase] at hentry
      split at hentry
      · cases hentry
      · exact h key' entry hentry
    exact ih herased

theorem AllGenuine.deleteBehind (h : AllGenuine cfg written redis) (front : String) :
    AllGenuine cfg written (redis.deleteBehind front) := by
  intro key entry hentry
  obtain ⟨hmem, -⟩ := List.mem_filter.mp (Dictionary.lookup_eq_some.mp hentry)
  exact h key entry (Dictionary.lookup_eq_some.mpr hmem)

/-- A value that was sealed opens to what was sealed. -/
theorem genuine_sealed (hsigner : cfg.signer.Faithful) {key : String} {payload : List UInt8}
    (h : (key, payload, wholeSeconds now) ∈ issued cfg written) (ex : Int) :
    Genuine (Opens cfg) (issued cfg written) (sealed cfg now key payload ex).2.1 := by
  refine genuine_of_unique ?_ h
  rintro ⟨key', content⟩ hopens
  obtain ⟨rfl, rfl⟩ := hsigner.only _ _ _ _ _ hopens
  rfl

theorem map_eq_ok {ε α β : Type} {x : Except ε α} {f : α → β} {b : β} (h : x.map f = .ok b) :
    ∃ a, x = .ok a ∧ f a = b := by
  cases x with
  | error e => cases h
  | ok a => exact ⟨a, rfl, Except.ok.inj h⟩

theorem mem_mapM_ok {ε α β : Type} {f : α → Except ε β} {xs : List α} {ys : List β} (h : xs.mapM f = .ok ys) {y : β}
    (hy : y ∈ ys) : ∃ x ∈ xs, f x = .ok y := by
  induction xs generalizing ys with
  | nil =>
    cases h
    cases hy
  | cons x xs ih =>
    rw [List.mapM_cons] at h
    cases hx : f x with
    | error e =>
      rw [hx] at h
      cases h
    | ok y' =>
      cases hxs : xs.mapM f with
      | error e =>
        rw [hx, hxs] at h
        cases h
      | ok ys' =>
        rw [hx, hxs] at h
        cases h
        rcases List.mem_cons.mp hy with rfl | hy
        · exact ⟨x, List.mem_cons_self, hx⟩
        · obtain ⟨x', hx', hy'⟩ := ih hxs hy
          exact ⟨x', List.mem_cons_of_mem _ hx', hy'⟩

theorem queueLink_genuine (hsigner : cfg.signer.Faithful) {link : LinkEntity libs}
    {commands : List (String × List UInt8 × Int)} (hcommands : queueLink cfg now link = .ok commands)
    (hlink : .link link now ∈ written) : ∀ c ∈ commands, Genuine (Opens cfg) (issued cfg written) c.2.1 := by
  have hissued : ∀ content ∈ sealsOf cfg (.link link now), content ∈ issued cfg written :=
    fun content hcontent => List.mem_flatMap.mpr ⟨_, hlink, hcontent⟩
  obtain ⟨ttl, -, rfl⟩ := map_eq_ok hcommands
  intro c hc
  rcases List.mem_append.mp hc with hc | hc
  · rcases List.mem_pair.mp hc with rfl | rfl
    · exact genuine_sealed hsigner (hissued _ List.mem_cons_self) _
    · exact genuine_sealed hsigner (hissued _ (List.mem_cons_of_mem _ List.mem_cons_self)) _
  · obtain ⟨ex, -, rfl⟩ := List.mem_map.mp hc
    exact genuine_sealed hsigner
      (hissued _ (List.mem_cons_of_mem _ (List.mem_cons_of_mem _ List.mem_cons_self))) _

end Server

/-! ## Runs -/

section Runs

open Runs

variable {cfg : RedisSettings} {s s' : Exposed libs} {e : ExposedEvent libs}

structure Inv (cfg : RedisSettings) (s : Exposed libs) : Prop where
  genuine : AllGenuine cfg s.written s.redis
  readable : ∀ w ∈ s.written, Readable cfg w

/-- What the service sends is sealed for what is noted of it. -/
theorem Inv.note (h : Inv cfg s) (redis : Except TypeError Redis) {new : List (Written libs)}
    (hreadable : ∀ w ∈ new, Readable cfg w)
    (hgenuine : ∀ r, redis = .ok r → AllGenuine cfg (new ++ s.written) s.redis → AllGenuine cfg (new ++ s.written) r) :
    Inv cfg (s.note redis new) := by
  cases redis with
  | error e => exact h
  | ok r =>
    refine ⟨hgenuine r rfl (h.genuine.mono (List.subset_append_right _ _)), ?_⟩
    intro w hw
    rcases List.mem_append.mp hw with hw | hw
    · exact hreadable w hw
    · exact h.readable w hw

theorem Inv.perform (hsigner : cfg.signer.Faithful) (h : Inv cfg s) {now : Instant} {delivery : Delivery}
    {operation : CacheOperation libs Document} (hreadable : ∀ w ∈ savedBy now operation, Readable cfg w) :
    Inv cfg (s.perform cfg now delivery operation) := by
  cases operation with
  | save link =>
    refine h.note _ hreadable fun r hr hall => ?_
    obtain ⟨commands, hcommands, rfl⟩ := map_eq_ok hr
    exact hall.delivered (hall.execute (queueLink_genuine hsigner hcommands List.mem_cons_self)) delivery
  | saveMany links =>
    refine h.note _ hreadable fun r hr hall => ?_
    unfold saveMany at hr
    split at hr
    · cases hr
      exact hall
    · obtain ⟨commands, hcommands, rfl⟩ := map_eq_ok hr
      refine hall.delivered (hall.execute ?_) delivery
      intro c hc
      obtain ⟨queued, hqueued, hc⟩ := List.mem_flatten.mp hc
      obtain ⟨link, hlink, hqueue⟩ := mem_mapM_ok hcommands hqueued
      exact queueLink_genuine hsigner hqueue (List.mem_append_left _ (List.mem_map.mpr ⟨link, hlink, rfl⟩)) c hc
  | saveRedirect shortCode originalUrl expiresAt =>
    refine h.note _ hreadable fun r hr hall => ?_
    obtain ⟨ttl, -, rfl⟩ := map_eq_ok hr
    cases ttl with
    | none => exact hall
    | some ttl =>
      refine hall.delivered (hall.set _ (genuine_sealed hsigner ?_ ttl)) delivery
      exact List.mem_flatMap.mpr ⟨_, List.mem_cons_self, List.mem_cons_self⟩
  | saveStats stats =>
    refine h.note (.ok _) hreadable fun r hr hall => ?_
    cases hr
    refine hall.delivered (hall.set _ (genuine_sealed hsigner ?_ _)) delivery
    exact List.mem_flatMap.mpr ⟨_, List.mem_cons_self, List.mem_cons_self⟩
  | delete link => exact ⟨h.genuine.delivered (h.genuine.delete _) delivery, h.readable⟩
  | deleteByCode shortCode => exact ⟨h.genuine.delivered (h.genuine.delete _) delivery, h.readable⟩
  | deleteRedirect shortCode => exact ⟨h.genuine.delivered (h.genuine.delete _) delivery, h.readable⟩
  | deleteStats => exact ⟨h.genuine.delivered (h.genuine.delete _) delivery, h.readable⟩
  | clearAll => exact ⟨h.genuine.delivered (h.genuine.deleteBehind _) delivery, h.readable⟩
  | getByCode _ => exact h
  | getByHash _ _ => exact h
  | getByHashes _ _ => exact h
  | getRedirect _ => exact h
  | getStats => exact h
  | getCacheInfo => exact h

theorem exposed_step_inv (hsigner : cfg.signer.Faithful) (hhonest : Honest cfg s e) (hstep : s.step cfg e = some s')
    (h : Inv cfg s) : Inv cfg s' := by
  cases e with
  | operation now operation delivery =>
    cases hstep
    exact h.perform hsigner hhonest
  | write key blob deadline =>
    cases hstep
    exact ⟨h.genuine.set deadline hhonest, h.readable⟩
  | drop key =>
    cases hstep
    exact ⟨h.genuine.delete _, h.readable⟩

/-- An operation of the run has saved it. -/
def SavedIn (events : List (ExposedEvent libs)) (w : Written libs) : Prop :=
  ∃ now operation delivery, .operation now operation delivery ∈ events ∧ w ∈ savedBy now operation

theorem mem_written_note {redis : Except TypeError Redis} {new : List (Written libs)} {w : Written libs}
    (h : w ∈ (s.note redis new).written) : w ∈ new ∨ w ∈ s.written := by
  cases redis with
  | error e => exact .inr h
  | ok r => exact List.mem_append.mp h

theorem mem_written_step (hstep : s.step cfg e = some s') {w : Written libs} (h : w ∈ s'.written) :
    w ∈ s.written ∨ SavedIn [e] w := by
  cases e with
  | operation now operation delivery =>
    cases hstep
    have hsaved : w ∈ savedBy now operation ∨ w ∈ s.written := by
      cases operation with
      | save link => exact mem_written_note h
      | saveMany links => exact mem_written_note h
      | saveRedirect shortCode originalUrl expiresAt => exact mem_written_note h
      | saveStats stats => exact mem_written_note h
      | _ => exact .inr h
    rcases hsaved with hsaved | hbefore
    · exact .inr ⟨now, operation, delivery, List.mem_cons_self, hsaved⟩
    · exact .inl hbefore
  | write key blob deadline =>
    cases hstep
    exact .inl h
  | drop key =>
    cases hstep
    exact .inl h

theorem mem_written_run {es : List (ExposedEvent libs)} (hrun : run (Exposed.step cfg) s es = some s') {w : Written libs}
    (h : w ∈ s'.written) : w ∈ s.written ∨ SavedIn es w := by
  induction es generalizing s with
  | nil =>
    cases hrun
    exact .inl h
  | cons e es ih =>
    obtain ⟨s₁, hstep, hrun⟩ := run_cons hrun
    rcases ih hrun with hbefore | ⟨now, operation, delivery, hmem, hsaved⟩
    · rcases mem_written_step hstep hbefore with hbefore | ⟨now, operation, delivery, hmem, hsaved⟩
      · exact .inl hbefore
      · obtain rfl := List.mem_singleton.mp hmem
        exact .inr ⟨now, operation, delivery, List.mem_cons_self, hsaved⟩
    · exact .inr ⟨now, operation, delivery, List.mem_cons_of_mem _ hmem, hsaved⟩

end Runs

/-! ## What is answered -/

section Answers

variable {cfg : RedisSettings} {now : Instant} {s : Exposed libs} {key : String} {payload : List UInt8}

/-- Sealed no longer ago than this, in whole seconds, and not in the future. -/
def Recent (now : Instant) (ttl : Int) (stamp : Int) : Prop := stamp ≤ wholeSeconds now ∧ wholeSeconds now ≤ stamp + ttl

theorem unsealEntry_eq_some {blob : Option (List UInt8)} {ttl : Int}
    (h : unsealEntry cfg now key blob (some ttl) = some payload) :
    ∃ bytes stamp, blob = some bytes ∧ Opens cfg bytes (key, payload, stamp) ∧ Recent now ttl stamp := by
  unfold unsealEntry at h
  obtain ⟨bytes, rfl, hopened⟩ := Option.bind_eq_some_iff.mp h
  split at hopened
  · cases hopened
  · obtain ⟨⟨payload', stamp⟩, hopens, hfresh⟩ := Option.bind_eq_some_iff.mp hopened
    dsimp only at hfresh
    split at hfresh
    · cases hfresh
    · rename_i hage
      cases hfresh
      rw [Option.any_some, decide_eq_true_eq] at hage
      exact ⟨bytes, stamp, rfl, hopens, by unfold Recent; omega⟩

/-- What opens under a key of the server was sealed for it. -/
theorem Inv.sealed (h : Inv cfg s) {redis : Option Redis} (hredis : ∀ r ∈ redis, r = s.redis) {ttl : Int}
    (hread : unsealEntry cfg now key (read now redis key) (some ttl) = some payload) :
    ∃ stamp, (key, payload, stamp) ∈ issued cfg s.written ∧ Recent now ttl stamp := by
  obtain ⟨bytes, stamp, hblob, hopens, hrecent⟩ := unsealEntry_eq_some hread
  obtain ⟨r, hr, hget⟩ := Option.bind_eq_some_iff.mp hblob
  obtain rfl := hredis r hr
  obtain ⟨entry, hentry, hvalue⟩ := Option.bind_eq_some_iff.mp hget
  split at hvalue
  · cases hvalue
    exact ⟨stamp, h.genuine key entry hentry _ hopens, hrecent⟩
  · cases hvalue

section Seals

open CacheKeyBuilder

/-- What opens under the key of a subject is kept of something under that subject. -/
theorem Inv.entry (h : Inv cfg s) {redis : Option Redis} (hredis : ∀ r ∈ redis, r = s.redis) {ttl : Int}
    (subject : Subject) (hread : unsealEntry cfg now (cfg.keyGen.keyFor subject)
      (read now redis (cfg.keyGen.keyFor subject)) (some ttl) = some payload) :
    ∃ w ∈ s.written, (subject, payload) ∈ entriesOf cfg w ∧ Recent now ttl (wholeSeconds w.moment) := by
  obtain ⟨stamp, hissued, hrecent⟩ := h.sealed hredis hread
  obtain ⟨w, hw, hseal⟩ := List.mem_flatMap.mp hissued
  obtain ⟨⟨subject', payload'⟩, hentry, heq⟩ := List.mem_map.mp hseal
  obtain ⟨hkey, rfl, rfl⟩ : _ ∧ payload' = payload ∧ wholeSeconds w.moment = stamp := by simpa using heq
  rw [← keyFor_injective hkey]
  exact ⟨w, hw, hentry, hrecent⟩

end Seals

/-- A link that is answered from a key for links. -/
theorem Inv.linkAt (h : Inv cfg s) {redis : Option Redis} (hredis : ∀ r ∈ redis, r = s.redis) (subject : Subject)
    {link : LinkEntity libs} (hlink : linkAt libs cfg now (cfg.keyGen.keyFor subject)
      (read now redis (cfg.keyGen.keyFor subject)) = some link)
    (hsubject : (∃ c, subject = .shortCode c) ∨ ∃ hash scope, subject = .urlHash hash scope) :
    ∃ moment, .link link moment ∈ s.written ∧ Recent now cfg.linkTtl (wholeSeconds moment) ∧
      (subject = .shortCode link.shortCode ∨ subject = .urlHash link.urlHash link.dedupScope) := by
  unfold RedisLinkCache.linkAt at hlink
  split at hlink
  · cases hlink
  · cases hlink
  · rename_i data _ hread
    obtain ⟨w, hw, hentry, hrecent⟩ := h.entry hredis subject hread
    have hreadable := h.readable w hw
    cases w with
    | link link' moment =>
      obtain ⟨haware, hkeeps, -⟩ := hreadable
      have hback := deserialize_serialize hkeeps haware
      simp only [entriesOf, List.mem_cons, List.not_mem_nil, or_false, Prod.mk.injEq] at hentry
      rcases hentry with ⟨hsame, rfl⟩ | ⟨hsame, rfl⟩ | ⟨hsame, -⟩
      · rw [hback] at hlink
        cases hlink
        exact ⟨moment, hw, hrecent, .inr hsame⟩
      · rw [hback] at hlink
        cases hlink
        exact ⟨moment, hw, hrecent, .inl hsame⟩
      · simp [hsame] at hsubject
    | redirect shortCode originalUrl expiresAt moment =>
      simp only [entriesOf, List.mem_singleton, Prod.mk.injEq] at hentry
      simp [hentry.1] at hsubject
    | stats document moment =>
      simp only [entriesOf, List.mem_singleton, Prod.mk.injEq] at hentry
      simp [hentry.1] at hsubject

theorem readAll_eq (redis : Option Redis) (keys : List String) : readAll now redis keys = keys.map (read now redis) := by
  cases redis with
  | none => exact List.map_const'.symm
  | some redis => rfl

/-- Reading many hashes at once is reading each of them, also when the server is gone. -/
theorem lookup_getByHashes (redis : Option Redis) (urlHashes : List UrlHash) (scope : Scope) (urlHash : UrlHash) :
    (getByHashes libs cfg now redis urlHashes scope).lookup urlHash =
      if urlHash ∈ urlHashes then some (getByHash libs cfg now redis urlHash scope) else none := by
  have hzip : ∀ (key : UrlHash → String) (data : String → Option (List UInt8)),
      (urlHashes.zip (urlHashes.map key)).zip ((urlHashes.map key).map data) =
        urlHashes.map fun h => ((h, key h), data (key h)) := by
    intro key data
    induction urlHashes with
    | nil => rfl
    | cons h hs ih =>
      simp only [List.map_cons, List.zip_cons_cons]
      rw [ih]
  unfold getByHashes
  dsimp only
  rw [readAll_eq, hzip, List.foldl_map, Dictionary.lookup_foldl_set_keys]
  by_cases hmem : urlHash ∈ urlHashes
  · rw [if_pos hmem, if_pos hmem]
    rfl
  · rw [if_neg hmem, if_neg hmem]
    rfl

/-- A redirect that is answered. -/
theorem Inv.getRedirect (h : Inv cfg s) {redis : Option Redis} (hredis : ∀ r ∈ redis, r = s.redis) {shortCode : ShortCode}
    {entry : CachedRedirect} (hentry : getRedirect cfg now redis shortCode = some entry) :
    ∃ w ∈ s.written, Recent now cfg.linkTtl (wholeSeconds w.moment) ∧
      ∃ originalUrl expiresAt, entry = ⟨shortCode.val, originalUrl, expiresAt.map Datetime.asUtc⟩ ∧
        (w = .redirect shortCode originalUrl expiresAt w.moment ∨ ∃ link, w = .link link w.moment ∧
          link.shortCode = shortCode ∧ link.originalUrl.value = originalUrl ∧ link.expiresAt = expiresAt) := by
  unfold RedisLinkCache.getRedirect at hentry
  dsimp only at hentry
  split at hentry
  · cases hentry
  · cases hentry
  · rename_i data _ hread
    obtain ⟨w, hw, hmem, hrecent⟩ := h.entry hredis (.redirect shortCode) hread
    refine ⟨w, hw, hrecent, ?_⟩
    have hreadable := h.readable w hw
    cases w with
    | link link moment =>
      obtain ⟨-, -, hkeeps⟩ := hreadable
      simp only [entriesOf, List.mem_cons, List.not_mem_nil, or_false, Prod.mk.injEq, reduceCtorEq, false_and,
        false_or, Subject.redirect.injEq] at hmem
      obtain ⟨rfl, rfl⟩ := hmem
      rw [deserializeRedirect_serializeRedirect link.shortCode link.shortCode _ hkeeps, if_pos rfl] at hentry
      cases hentry
      exact ⟨_, _, rfl, .inr ⟨link, rfl, rfl, rfl, rfl⟩⟩
    | redirect shortCode' originalUrl expiresAt moment =>
      simp only [entriesOf, List.mem_singleton, Prod.mk.injEq, Subject.redirect.injEq] at hmem
      obtain ⟨rfl, rfl⟩ := hmem
      rw [deserializeRedirect_serializeRedirect shortCode shortCode _ hreadable, if_pos rfl] at hentry
      cases hentry
      exact ⟨_, _, rfl, .inl rfl⟩
    | stats document moment => simp [entriesOf] at hmem

/-- Statistics that are answered. -/
theorem Inv.getStats (h : Inv cfg s) {redis : Option Redis} (hredis : ∀ r ∈ redis, r = s.redis) {document : Document}
    (hstats : getStats cfg now redis = some document) :
    ∃ moment, .stats document moment ∈ s.written ∧ Recent now cfg.statsTtl (wholeSeconds moment) := by
  unfold RedisLinkCache.getStats at hstats
  split at hstats
  · cases hstats
  · cases hstats
  · rename_i data _ hread
    obtain ⟨w, hw, hmem, hrecent⟩ := h.entry hredis .stats hread
    have hreadable := h.readable w hw
    cases w with
    | stats document' moment =>
      simp only [entriesOf, List.mem_singleton, Prod.mk.injEq, true_and] at hmem
      obtain rfl := hmem
      rw [hreadable.json] at hstats
      cases hstats
      exact ⟨moment, hw, hrecent⟩
    | link link moment => simp [entriesOf] at hmem
    | redirect shortCode originalUrl expiresAt moment => simp [entriesOf] at hmem

end Answers

section Main

open Runs

/-- An empty server. -/
def Exposed.empty : Exposed libs := ⟨⟨Rows.empty⟩, []⟩

theorem inv_empty {cfg : RedisSettings} : Inv cfg (Exposed.empty : Exposed libs) := by
  refine ⟨?_, List.forall_mem_nil _⟩
  intro key entry hentry
  cases hentry

/-- **Writing to Redis is not being believed.** Somebody else writes to the server whatever they can without the secret,
copies of entries included, and drops what they like; the service saves, deletes and reads among that. Every link that is
answered for a code or a hash was saved by the service, has that code or that hash and scope, and was saved no longer ago
than links live in the cache; every redirect that is answered for a code was saved for that code with its destination and
expiry, and all statistics were saved as statistics. With the server gone nothing is answered that is not so. -/
theorem answers_were_saved {cfg : RedisSettings} (hsigner : cfg.signer.Faithful) {es : List (ExposedEvent libs)}
    {s : Exposed libs} (hhonest : Meets (Exposed.step cfg) (Honest cfg) Exposed.empty es)
    (hrun : run (Exposed.step cfg) Exposed.empty es = some s) (now : Instant) {redis : Option Redis}
    (hredis : ∀ r ∈ redis, r = s.redis) :
    (∀ shortCode link, getByCode libs cfg now redis shortCode = some link → link.shortCode = shortCode ∧
      ∃ moment, SavedIn es (.link link moment) ∧ Recent now cfg.linkTtl (wholeSeconds moment)) ∧
    (∀ urlHash scope link, getByHash libs cfg now redis urlHash scope = some link →
      link.urlHash = urlHash ∧ link.dedupScope = scope ∧
      ∃ moment, SavedIn es (.link link moment) ∧ Recent now cfg.linkTtl (wholeSeconds moment)) ∧
    (∀ urlHashes scope urlHash link,
      (getByHashes libs cfg now redis urlHashes scope).lookup urlHash = some (some link) →
      link.urlHash = urlHash ∧ link.dedupScope = scope ∧
      ∃ moment, SavedIn es (.link link moment) ∧ Recent now cfg.linkTtl (wholeSeconds moment)) ∧
    (∀ shortCode entry, getRedirect cfg now redis shortCode = some entry →
      ∃ originalUrl expiresAt moment, entry = ⟨shortCode.val, originalUrl, expiresAt.map Datetime.asUtc⟩ ∧
        Recent now cfg.linkTtl (wholeSeconds moment) ∧
        (SavedIn es (.redirect shortCode originalUrl expiresAt moment) ∨
          ∃ link, SavedIn es (.link link moment) ∧ link.shortCode = shortCode ∧ link.originalUrl.value = originalUrl ∧
            link.expiresAt = expiresAt)) ∧
    (∀ document, getStats cfg now redis = some document →
      ∃ moment, SavedIn es (.stats document moment) ∧ Recent now cfg.statsTtl (wholeSeconds moment)) := by
  have h : Inv cfg s := run_inv_of_meets (exposed_step_inv hsigner) hhonest hrun inv_empty
  have hsaved : ∀ w ∈ s.written, SavedIn es w := by
    intro w hw
    rcases mem_written_run hrun hw with hbefore | hin
    · cases hbefore
    · exact hin
  have hhash : ∀ urlHash scope link, getByHash libs cfg now redis urlHash scope = some link →
      link.urlHash = urlHash ∧ link.dedupScope = scope ∧
      ∃ moment, SavedIn es (.link link moment) ∧ Recent now cfg.linkTtl (wholeSeconds moment) := by
    intro urlHash scope link hlink
    obtain ⟨moment, hw, hrecent, hsame⟩ := h.linkAt hredis (.urlHash urlHash scope) hlink (.inr ⟨urlHash, scope, rfl⟩)
    rcases hsame with hsame | hsame
    · cases hsame
    · cases hsame
      exact ⟨rfl, rfl, moment, hsaved _ hw, hrecent⟩
  refine ⟨?_, hhash, ?_, ?_, ?_⟩
  · intro shortCode link hlink
    obtain ⟨moment, hw, hrecent, hsame⟩ := h.linkAt hredis (.shortCode shortCode) hlink (.inl ⟨shortCode, rfl⟩)
    rcases hsame with hsame | hsame
    · cases hsame
      exact ⟨rfl, moment, hsaved _ hw, hrecent⟩
    · cases hsame
  · intro urlHashes scope urlHash link hlink
    rw [lookup_getByHashes] at hlink
    split at hlink
    · exact hhash urlHash scope link (Option.some.inj hlink)
    · cases hlink
  · intro shortCode entry hentry
    obtain ⟨w, hw, hrecent, originalUrl, expiresAt, rfl, hwhat⟩ := h.getRedirect hredis hentry
    refine ⟨originalUrl, expiresAt, w.moment, rfl, hrecent, ?_⟩
    rcases hwhat with hw' | ⟨link, hw', hlink⟩
    · exact .inl (hw' ▸ hsaved w hw)
    · exact .inr ⟨link, hw' ▸ hsaved w hw, hlink⟩
  · intro document hstats
    obtain ⟨moment, hw, hrecent⟩ := h.getStats hredis hstats
    exact ⟨moment, hsaved _ hw, hrecent⟩

/-! ### An entry under somebody else's code -/

section Sample

open Urls (asciiLibraries)

/-- A signature that holds all it signs. -/
def plainSigner : Signer where
  sign salt value stamp :=
    List.replicate (Encodable.encode (salt.toList.map Char.toNat, value.map UInt8.toNat, stamp) + 1) 0
  unsign salt blob := do
    let content : List ℕ × List ℕ × ℤ ← Encodable.decode (blob.length - 1)
    if content.1 = salt.toList.map Char.toNat then some (content.2.1.map UInt8.ofNat, content.2.2) else none

theorem plainSigner_unsign (salt salt' : String) (value : List UInt8) (stamp : Int) :
    plainSigner.unsign salt' (plainSigner.sign salt value stamp) = if salt' = salt then some (value, stamp) else none := by
  have hvalue : (value.map UInt8.toNat).map UInt8.ofNat = value := by simp [Function.comp_def]
  have hsalt : salt.toList.map Char.toNat = salt'.toList.map Char.toNat ↔ salt' = salt := by
    have hchar : Function.Injective Char.toNat := fun a b h => Char.ext (UInt32.toNat_inj.mp h)
    rw [hchar.list_map.eq_iff, String.toList_inj, eq_comm]
  simp only [plainSigner, List.length_replicate, Nat.add_sub_cancel, Encodable.encodek, Option.bind_eq_bind,
    Option.bind_some, hvalue, hsalt]

theorem plainSigner_faithful : plainSigner.Faithful := by
  refine ⟨?_, ?_, fun salt value stamp => List.replicate_succ_ne_nil⟩
  · intro salt value stamp
    rw [plainSigner_unsign, if_pos rfl]
  · intro salt salt' value stamp content h
    rw [plainSigner_unsign] at h
    split at h
    · rename_i hsalt
      exact ⟨hsalt, (Option.some.inj h).symm⟩
    · cases h

def sampleRedis : RedisSettings :=
  { keyGen := ⟨"link_shortener"⟩, linkTtl := 3600, statsTtl := 60, signer := plainSigner, formats := sampleFormats }

/-- A link is saved, and somebody copies its entry to the key of another code. -/
def copiedEntry : List (ExposedEvent asciiLibraries) :=
  [.operation 1790769600000000 (.save sampleEntity) .done,
    .write (sampleRedis.keyGen.forShortCode "bbbbbb")
      (sealEntry sampleRedis 1790769600000000 (sampleRedis.keyGen.forShortCode "abc123")
        (serialize sampleFormats sampleEntity)) 1893456000000000]

theorem sampleEntity_readable (moment : Instant) : Readable sampleRedis (.link sampleEntity moment) := by
  have hiso : ∀ d ∈ stampsOf sampleEntity,
      sampleFormats.fromisoformat (sampleFormats.isoformat d) = some d ∧ sampleFormats.isoformat d ≠ "" := by
    decide +kernel
  have hstamps : ∀ d ∈ sampleEntity.expiresAt.toList, d ∈ stampsOf sampleEntity := by decide +kernel
  have haware : sampleEntity.Aware := by
    refine ⟨rfl, fun d hd => ?_, fun d hd => ?_⟩
    · cases hd
    · cases hd
      rfl
  exact ⟨haware, ⟨loads_linkText, fun d hd => (hiso d hd).1, fun d hd => (hiso d hd).2⟩,
    ⟨loads_redirectText, fun d hd => (hiso d (hstamps d hd)).1, fun d hd => (hiso d (hstamps d hd)).2⟩⟩

theorem copied_entry_is_refused : ∃ s, run (Exposed.step sampleRedis) Exposed.empty copiedEntry = some s ∧
    ∀ now shortCode link, getByCode asciiLibraries sampleRedis now (some s.redis) shortCode = some link →
      shortCode = sampleCode := by
  have hhonest : Meets (Exposed.step sampleRedis) (Honest sampleRedis) Exposed.empty copiedEntry := by
    refine ⟨?_, ?_, trivial⟩
    · intro w hw
      obtain rfl := List.mem_singleton.mp hw
      exact sampleEntity_readable _
    · have hissued : (sampleRedis.keyGen.forShortCode "abc123", serialize sampleFormats sampleEntity,
          wholeSeconds 1790769600000000) ∈ issued sampleRedis [.link sampleEntity 1790769600000000] :=
        List.mem_flatMap.mpr ⟨_, List.mem_cons_self, List.mem_cons_of_mem _ List.mem_cons_self⟩
      exact genuine_sealed plainSigner_faithful hissued 0
  refine ⟨_, rfl, ?_⟩
  intro now shortCode link hlink
  obtain ⟨hcode, moment, ⟨now', operation, delivery, hmem, hsaved⟩, -⟩ :=
    (answers_were_saved plainSigner_faithful hhonest rfl now (fun r hr => (Option.some.inj hr).symm)).1 shortCode link hlink
  simp only [copiedEntry, List.mem_cons, ExposedEvent.operation.injEq, reduceCtorEq, List.not_mem_nil, or_false] at hmem
  obtain ⟨rfl, rfl, rfl⟩ := hmem
  cases List.mem_singleton.mp hsaved
  exact hcode.symm

end Sample

end Main

end LinkShortener.Caches
