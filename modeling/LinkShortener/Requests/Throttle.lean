import LinkShortener.RateLimit.Memory
import LinkShortener.Requests.Callers

/-!
# The throttle

The limiter counts by a key, which is text made of the caller and the endpoint. Here it is asked by the hook before the
view, request after request, and what it counts is callers.

* `Caller`, `Bucket`: who is counted, and for what. `keyOf_inj`: no two of them share a key.
* `hit`: one request. `Tracks`: the limiter has kept, under the key of every bucket, what was let through to it.
* `throttle_counts_callers`: **a caller is let through as often as the limit says**, refused only when they have used it up
  themselves, and what they write into a header changes nothing.
-/

namespace LinkShortener.Requests

open Text Runs SlidingWindow
open Urls (Str IpAddress ipAddress)

/-! ## Who is counted -/

/-- An account, an address, or a connection that does not say where it comes from. -/
inductive Caller
  | user (id : Str)
  | address (a : IpAddress)
  | unknown
  deriving DecidableEq

def Caller.text : Caller → Str
  | user id => "user:".toList ++ id
  | address a => a.toText
  | unknown => []

/-- The zone of an address is one that can be read. -/
def Caller.WellFormed : Caller → Prop
  | address a => ∀ scopeId ∈ a.scopeId, Urls.Ipv6Address.IsScopeId scopeId
  | _ => True

/-- A caller, and an endpoint or none. -/
structure Bucket where
  caller : Caller
  endpoint : Option String
  deriving DecidableEq

/-- An endpoint as the key has it. -/
def endpointText (endpoint : Option String) : Str := (endpoint.getD "None").toList

/-- The name of an endpoint: it has no colon in it, and is not what stands for none. -/
def IsEndpoint (endpoint : Option String) : Prop := ∀ name ∈ endpoint, ':' ∉ name.toList ∧ name ≠ "None"

def Bucket.WellFormed (b : Bucket) : Prop := b.caller.WellFormed ∧ IsEndpoint b.endpoint

def keyOf (b : Bucket) : String := String.ofList (b.caller.text ++ ':' :: endpointText b.endpoint)

theorem colon_not_mem_endpointText {endpoint : Option String} (h : IsEndpoint endpoint) : ':' ∉ endpointText endpoint := by
  cases endpoint with
  | none => decide
  | some name => exact (h name rfl).1

theorem endpointText_inj {e e' : Option String} (h : IsEndpoint e) (h' : IsEndpoint e') (heq : endpointText e = endpointText e') :
    e = e' := by
  have hname := String.toList_injective heq
  cases e with
  | none =>
    cases e' with
    | none => rfl
    | some name' => exact absurd hname.symm (h' name' rfl).2
  | some name =>
    cases e' with
    | none => exact absurd hname (h name rfl).2
    | some name' => exact congrArg some hname

/-- The text of an address is that of no account. -/
theorem toText_ne_user (a : IpAddress) (id : Str) : a.toText ≠ "user:".toList ++ id := by
  intro heq
  obtain ⟨c, rest, htext, hc⟩ := a.head_toText
  rw [htext] at heq
  obtain rfl : c = 'u' := List.head_eq_of_cons_eq heq
  revert hc
  decide

theorem Caller.text_inj {c c' : Caller} (h : c.WellFormed) (h' : c'.WellFormed) (heq : c.text = c'.text) : c = c' := by
  cases c with
  | user id =>
    cases c' with
    | user id' => exact congrArg user (List.append_cancel_left heq)
    | address a => exact absurd heq.symm (toText_ne_user a id)
    | unknown => exact absurd heq (List.cons_ne_nil _ _)
  | address a =>
    cases c' with
    | user id => exact absurd heq (toText_ne_user a id)
    | address a' => exact congrArg address (IpAddress.toText_inj h h' heq)
    | unknown => exact absurd heq a.toText_ne_nil
  | unknown =>
    cases c' with
    | user id => exact absurd heq.symm (List.cons_ne_nil _ _)
    | address a => exact absurd heq.symm a.toText_ne_nil
    | unknown => rfl

/-- **No two buckets share a key**: the endpoint is what stands after the last colon. -/
theorem keyOf_inj {b b' : Bucket} (h : b.WellFormed) (h' : b'.WellFormed) (heq : keyOf b = keyOf b') : b = b' := by
  have htext : b.caller.text ++ ':' :: endpointText b.endpoint = b'.caller.text ++ ':' :: endpointText b'.endpoint :=
    String.ofList_injective heq
  have hcut := cutLast_append b.caller.text (colon_not_mem_endpointText h.2)
  rw [htext, cutLast_append b'.caller.text (colon_not_mem_endpointText h'.2), Prod.mk.injEq] at hcut
  obtain ⟨hfront, hback⟩ := hcut
  have hcaller := Caller.text_inj h.1 h'.1 (List.append_cancel_right hfront).symm
  have hendpoint := endpointText_inj h.2 h'.2 hback.symm
  cases b
  cases b'
  exact congrArg₂ Bucket.mk hcaller hendpoint

/-! ## One request -/

/-- A request as it reaches the hook, and the two moments at which the limiter reads the clock. The routes have names, and the
connection reports an address as addresses are written. -/
structure Hit where
  request : Request
  arrival : Arrival
  g : G
  now : Instant
  later : Instant
  named : IsEndpoint request.endpoint
  reported : Reported arrival

inductive Verdict
  | untouched
  | passed (limit remaining : Int)
  | refused (limit remaining period : Int)
  deriving DecidableEq, Repr

/-- What the limiter is asked. -/
def Hit.call (cfg : Settings) (trusted : List Str) (h : Hit) : Option LimitCall :=
  limitFor cfg { h.request with clientIp := String.ofList (getClientIp trusted h.arrival) } h.g

/-- `RateLimiter.check`: the verdict, and what remains after it. -/
def check (storage : MemoryRateLimiter.Storage) (call : LimitCall) (now later : Instant) :
    (Bool × Int) × MemoryRateLimiter.Storage :=
  let answer := MemoryRateLimiter.isAllowed storage call.key call.limit call.period now
  ((answer.1, MemoryRateLimiter.getRemaining answer.2 call.key call.limit call.period later), answer.2)

def checkRateLimit (cfg : Settings) (trusted : List Str) (storage : MemoryRateLimiter.Storage) (h : Hit) :
    Verdict × MemoryRateLimiter.Storage :=
  match h.call cfg trusted with
  | none => (.untouched, storage)
  | some call =>
    let answer := check storage call h.now h.later
    (if answer.1.1 then .passed call.limit answer.1.2 else .refused call.limit answer.1.2 call.period, answer.2)

/-- Who is asking for what. -/
def Hit.bucket (trusted : List Str) (h : Hit) : Bucket :=
  ⟨match h.g.currentUser with
    | some id => .user id
    | none => ((source trusted h.arrival).map Caller.address).getD .unknown, h.request.endpoint⟩

/-- A request that was answered. -/
structure Answered where
  now : Instant
  bucket : Bucket
  verdict : Verdict
  deriving DecidableEq

structure Throttle where
  now : Instant
  storage : MemoryRateLimiter.Storage
  log : List Answered

def Throttle.fresh (now : Instant) : Throttle := ⟨now, fun _ => [], []⟩

/-- **One request**, on a clock that does not go back. -/
def hit (cfg : Settings) (trusted : List Str) (s : Throttle) (h : Hit) : Option Throttle :=
  if s.now ≤ h.now ∧ h.now ≤ h.later then
    some ⟨h.later, (checkRateLimit cfg trusted s.storage h).2,
      s.log ++ [⟨h.now, h.bucket trusted, (checkRateLimit cfg trusted s.storage h).1⟩]⟩
  else none

/-- The limit and the period of an endpoint. -/
def pairOf (cfg : Settings) (endpoint : Option String) : Int × Int := (endpoint.bind cfg.rateLimits).getD cfg.defaultLimit

def Verdict.isPassed : Verdict → Bool
  | .passed _ _ => true
  | _ => false

/-- What a verdict says remains. -/
def Verdict.remaining : Verdict → Option Int
  | .untouched => none
  | .passed _ remaining => some remaining
  | .refused _ remaining _ => some remaining

/-- When somebody was let through to an endpoint. -/
def passedTo (b : Bucket) (log : List Answered) : List Instant :=
  (log.filter fun e => decide (e.bucket = b) && e.verdict.isPassed).map (·.now)

/-! ## What the limiter has kept -/

/-- The limit and the period by the text of the endpoint. -/
def pairOfText (cfg : Settings) (text : Str) : Int × Int :=
  if text = "None".toList then cfg.defaultLimit else (cfg.rateLimits (String.ofList text)).getD cfg.defaultLimit

/-- The limit and the period of a key. -/
def quotas (cfg : Settings) : MemoryRateLimiter.Quotas where
  limit key := (pairOfText cfg (cutLast ':' key.toList).2).1
  period key := (pairOfText cfg (cutLast ':' key.toList).2).2

section Tracking

variable {cfg : Settings} {trusted : List Str} {s s' : Throttle} {h : Hit} {b : Bucket}

theorem pairOfText_endpointText {endpoint : Option String} (he : IsEndpoint endpoint) :
    pairOfText cfg (endpointText endpoint) = pairOf cfg endpoint := by
  cases endpoint with
  | none => exact if_pos rfl
  | some name =>
    have hne : endpointText (some name) ≠ "None".toList := fun heq => (he name rfl).2 (String.toList_injective heq)
    unfold pairOfText
    rw [if_neg hne, endpointText, Option.getD_some, String.ofList_toList]
    rfl

theorem quotas_keyOf (hb : b.WellFormed) : (quotas cfg).limit (keyOf b) = (pairOf cfg b.endpoint).1 ∧
    (quotas cfg).period (keyOf b) = (pairOf cfg b.endpoint).2 := by
  have htext : (cutLast ':' (keyOf b).toList).2 = endpointText b.endpoint := by
    rw [keyOf, String.toList_ofList, cutLast_append _ (colon_not_mem_endpointText hb.2)]
  simp only [quotas, htext, pairOfText_endpointText hb.2, and_self]

theorem wellFormed_bucket (trusted : List Str) (h : Hit) : (h.bucket trusted).WellFormed := by
  refine ⟨?_, h.named⟩
  unfold Hit.bucket
  cases h.g.currentUser with
  | some id => trivial
  | none =>
    cases hsource : source trusted h.arrival with
    | none => trivial
    | some a => exact fun scopeId hs => isScopeId_of_source hsource hs

/-- The key of a request, by who is asking. -/
theorem keyOf_bucket (trusted : List Str) (h : Hit) : (keyOf (h.bucket trusted)).toList =
    (h.g.currentUser.elim (getClientIp trusted h.arrival) fun id => "user:".toList ++ id) ++
      ':' :: endpointText h.request.endpoint := by
  rw [keyOf, String.toList_ofList]
  congr 1
  unfold Hit.bucket
  cases h.g.currentUser with
  | some id => rfl
  | none =>
    rw [Option.elim_none, getClientIp_eq h.reported]
    cases source trusted h.arrival with
    | none => rfl
    | some a => rfl

/-- **The limiter is asked about the bucket of the request.** -/
theorem call_eq {call : LimitCall} (hcall : h.call cfg trusted = some call) :
    call = ⟨keyOf (h.bucket trusted), (pairOf cfg h.request.endpoint).1, (pairOf cfg h.request.endpoint).2⟩ := by
  have hkey := keyOf_bucket trusted h
  unfold Hit.call limitFor at hcall
  split at hcall
  · cases hcall
  · split at hcall
    · cases hcall
    · cases hg : h.g.currentUser with
      | some id =>
        rw [hg] at hcall hkey
        cases hcall
        rw [LimitCall.mk.injEq]
        refine ⟨String.toList_injective ?_, rfl, rfl⟩
        rw [hkey]
        simp [endpointText]
      | none =>
        rw [hg] at hcall hkey
        cases hcall
        rw [LimitCall.mk.injEq]
        refine ⟨String.toList_injective ?_, rfl, rfl⟩
        rw [hkey]
        simp [endpointText]

theorem isPassed_eq {storage : MemoryRateLimiter.Storage} {call : LimitCall} (hcall : h.call cfg trusted = some call) :
    (checkRateLimit cfg trusted storage h).1.isPassed =
      (MemoryRateLimiter.isAllowed storage call.key call.limit call.period h.now).1 := by
  unfold checkRateLimit
  rw [hcall]
  dsimp only [check]
  cases (MemoryRateLimiter.isAllowed storage call.key call.limit call.period h.now).1 with
  | false => rfl
  | true => rfl

/-- The limiter has kept, under the key of every bucket, what was let through to it. -/
structure Tracks (cfg : Settings) (s : Throttle) (t : MemoryRateLimiter.State) : Prop where
  storage : t.storage = s.storage
  now : t.now ≤ s.now
  exact : MemoryRateLimiter.Exact (quotas cfg) t
  passed : ∀ b : Bucket, b.WellFormed → MemoryRateLimiter.allowedOn (keyOf b) t.log = passedTo b s.log

theorem passedTo_concat (b : Bucket) (log : List Answered) (e : Answered) :
    passedTo b (log ++ [e]) = passedTo b log ++ if e.bucket = b ∧ e.verdict.isPassed = true then [e.now] else [] := by
  unfold passedTo
  rw [List.filter_append, List.map_append, List.filter_cons, List.filter_nil]
  by_cases hin : e.bucket = b ∧ e.verdict.isPassed = true
  · rw [if_pos hin, if_pos (by simpa using hin)]
    rfl
  · rw [if_neg hin, if_neg (by simpa using hin)]
    rfl

/-- **Every request keeps the books.** -/
theorem hit_tracks (hstep : hit cfg trusted s h = some s') {t : MemoryRateLimiter.State}
    (ht : Tracks cfg s t) : ∃ t', Tracks cfg s' t' := by
  unfold hit at hstep
  split at hstep
  · rename_i hclock
    cases hstep
    unfold checkRateLimit
    cases hcall : h.call cfg trusted with
    | none =>
      refine ⟨t, ht.storage, le_trans ht.now (le_trans hclock.1 hclock.2), ht.exact, fun b hb => ?_⟩
      rw [passedTo_concat, if_neg (by simp [Verdict.isPassed]), List.append_nil]
      exact ht.passed b hb
    | some call =>
      have hkey := call_eq hcall
      obtain ⟨hlimit, hperiod⟩ := @quotas_keyOf cfg _ (wellFormed_bucket trusted h)
      have hasked : MemoryRateLimiter.step (quotas cfg) t (h.now, .isAllowed call.key) = some ⟨h.now,
          (MemoryRateLimiter.isAllowed t.storage call.key call.limit call.period h.now).2, t.log ++ [⟨h.now, .isAllowed call.key,
            .verdict (MemoryRateLimiter.isAllowed t.storage call.key call.limit call.period h.now).1⟩]⟩ := by
        unfold MemoryRateLimiter.step
        rw [if_pos (le_trans ht.now hclock.1)]
        unfold MemoryRateLimiter.answer
        rw [hkey]
        dsimp only
        rw [hlimit, hperiod]
        rfl
      refine ⟨_, ?_, hclock.2, MemoryRateLimiter.step_exact hasked ht.exact, fun b hb => ?_⟩
      · rw [ht.storage]
        rfl
      · rw [MemoryRateLimiter.allowedOn_concat, passedTo_concat, ht.passed b hb, ht.storage]
        have hsame : call.key = keyOf b ↔ h.bucket trusted = b := by
          rw [hkey]
          exact ⟨keyOf_inj (wellFormed_bucket trusted h) hb, congrArg keyOf⟩
        have hpassed : (checkRateLimit cfg trusted s.storage h).1.isPassed =
            (MemoryRateLimiter.isAllowed s.storage call.key call.limit call.period h.now).1 := isPassed_eq hcall
        unfold checkRateLimit at hpassed
        rw [hcall] at hpassed
        simp only [MemoryRateLimiter.Call.isAllowed.injEq, MemoryRateLimiter.Answer.verdict.injEq, hsame, hpassed]
  · cases hstep

/-- The limiter has been asked for every request that was let through, and for nothing else. -/
theorem run_tracks {start : Instant} {hits : List Hit} (h : run (hit cfg trusted) (Throttle.fresh start) hits = some s) :
    ∃ t, Tracks cfg s t := by
  refine run_inv (I := fun s => ∃ t, Tracks cfg s t) ?_ h ?_
  · rintro s h s' hstep ⟨t, ht⟩
    exact hit_tracks hstep ht
  · exact ⟨MemoryRateLimiter.State.fresh start, rfl, le_refl start, MemoryRateLimiter.exact_fresh _ start, fun _ _ => rfl⟩

theorem hit_cases (hstep : hit cfg trusted s h = some s') : s.now ≤ h.now ∧ h.now ≤ h.later ∧
    s' = ⟨h.later, (checkRateLimit cfg trusted s.storage h).2,
      s.log ++ [⟨h.now, h.bucket trusted, (checkRateLimit cfg trusted s.storage h).1⟩]⟩ := by
  unfold hit at hstep
  split at hstep
  · rename_i hclock
    exact ⟨hclock.1, hclock.2, (Option.some.inj hstep).symm⟩
  · cases hstep

variable {t : MemoryRateLimiter.State}

theorem Tracks.kept (ht : Tracks cfg s t) (b : Bucket) :
    MemoryRateLimiter.Kept (quotas cfg) (keyOf b) t.now (s.storage (keyOf b)) t.log := by
  rw [← ht.storage]
  exact ht.exact.keys (keyOf b)

/-- What the limiter has kept shows the same as what was let through. -/
theorem Tracks.follows (ht : Tracks cfg s t) (hb : b.WellFormed) :
    Follows (pairOf cfg b.endpoint).2 s.now (s.storage (keyOf b)) (passedTo b s.log) := by
  rw [← ht.passed b hb, ← (quotas_keyOf hb).2]
  exact (ht.kept b).follows.later ht.now

/-- The same for whoever sends a request. -/
theorem Tracks.follows_bucket (ht : Tracks cfg s t) (trusted : List Str) (h : Hit) :
    Follows (pairOf cfg h.request.endpoint).2 s.now (s.storage (keyOf (h.bucket trusted)))
      (passedTo (h.bucket trusted) s.log) := by
  have hb := wellFormed_bucket trusted h
  have hfollows := ht.follows hb
  exact hfollows

theorem Tracks.past (ht : Tracks cfg s t) (hb : b.WellFormed) {now : Instant} (hle : s.now ≤ now) :
    ∀ ts ∈ passedTo b s.log, ts ≤ now := by
  intro ts hts
  rw [← ht.passed b hb] at hts
  obtain ⟨e, he, rfl⟩ := List.mem_map.mp hts
  exact le_trans (ht.exact.past e (List.mem_filter.mp he).1) (le_trans ht.now hle)

/-- **No window of a bucket is overfull.** -/
theorem Tracks.bounded (ht : Tracks cfg s t) (hb : b.WellFormed) :
    Bounded (pairOf cfg b.endpoint).1 (pairOf cfg b.endpoint).2 (passedTo b s.log) := by
  rw [← ht.passed b hb, ← (quotas_keyOf hb).1, ← (quotas_keyOf hb).2, (ht.kept b).allowed]
  exact admitted_bounded _ _ _

/-- **A request is let through if its own bucket has room.** -/
theorem Tracks.passes (ht : Tracks cfg s t) (hcounted : (h.call cfg trusted).isSome = true) (hle : s.now ≤ h.now) :
    (checkRateLimit cfg trusted s.storage h).1.isPassed = true ↔
      (within (pairOf cfg h.request.endpoint).2 (passedTo (h.bucket trusted) s.log) h.now : Int) <
        (pairOf cfg h.request.endpoint).1 := by
  obtain ⟨call, hcall⟩ := Option.isSome_iff_exists.mp hcounted
  have hb := wellFormed_bucket trusted h
  have hfollows := (ht.follows_bucket trusted h).later hle
  rw [isPassed_eq hcall, call_eq hcall, MemoryRateLimiter.isAllowed_fst, hfollows.allows, allows, decide_eq_true_eq,
    length_inWindow (ht.past hb hle)]

theorem remaining_eq {storage : MemoryRateLimiter.Storage} {call : LimitCall} (hcall : h.call cfg trusted = some call) :
    (checkRateLimit cfg trusted storage h).1.remaining = some (MemoryRateLimiter.getRemaining
      (checkRateLimit cfg trusted storage h).2 call.key call.limit call.period h.later) := by
  unfold checkRateLimit
  rw [hcall]
  dsimp only [check]
  cases (MemoryRateLimiter.isAllowed storage call.key call.limit call.period h.now).1 with
  | false => rfl
  | true => rfl

/-- **What is said to remain is what the bucket has left**, the request itself included. -/
theorem Tracks.remaining (ht : Tracks cfg s' t) (hcounted : (h.call cfg trusted).isSome = true)
    (hstep : hit cfg trusted s h = some s') : (checkRateLimit cfg trusted s.storage h).1.remaining =
      some (max 0 ((pairOf cfg h.request.endpoint).1 -
        within (pairOf cfg h.request.endpoint).2 (passedTo (h.bucket trusted) s'.log) h.later)) := by
  obtain ⟨call, hcall⟩ := Option.isSome_iff_exists.mp hcounted
  obtain ⟨hnow, hlater, hs'⟩ := hit_cases hstep
  have hb := wellFormed_bucket trusted h
  have hend : s'.now = h.later := by rw [hs']
  have hstorage : (checkRateLimit cfg trusted s.storage h).2 = s'.storage := by rw [hs']
  have hfollows := ht.follows_bucket trusted h
  have hlength : (MemoryRateLimiter.inWindow s'.storage (keyOf (h.bucket trusted)) (pairOf cfg h.request.endpoint).2
      h.later).length = within (pairOf cfg h.request.endpoint).2 (passedTo (h.bucket trusted) s'.log) h.later := by
    have hpast := ht.past hb (le_of_eq hend)
    rw [← length_inWindow hpast, ← hfollows h.later (le_of_eq hend)]
    rfl
  have hkept := @remaining_eq cfg trusted h s.storage call hcall
  rw [hstorage, call_eq hcall] at hkept
  rw [hkept, ← hlength]
  rfl

/-- Requests that differ in nothing but what a caller can write into the header. -/
def SameButTyped (trusted : List Str) (h h' : Hit) : Prop :=
  h.request = h'.request ∧ h.g = h'.g ∧ h.now = h'.now ∧ h.later = h'.later ∧ Alike trusted h.arrival h'.arrival

theorem hit_alike {h' : Hit} (hsame : SameButTyped trusted h h') : hit cfg trusted s h = hit cfg trusted s h' := by
  obtain ⟨hrequest, hg, hnow, hlater, halike⟩ := hsame
  obtain ⟨hip, hsource⟩ := getClientIp_alike halike
  have hcall : h.call cfg trusted = h'.call cfg trusted := by
    unfold Hit.call
    rw [hrequest, hg, hip]
  have hcheck : checkRateLimit cfg trusted s.storage h = checkRateLimit cfg trusted s.storage h' := by
    unfold checkRateLimit
    rw [hcall, hnow, hlater]
  have hbucket : h.bucket trusted = h'.bucket trusted := by
    unfold Hit.bucket
    rw [hrequest, hg, hsource]
  unfold hit
  rw [hcheck, hbucket, hnow, hlater]

theorem run_alike {hits hits' : List Hit} (hsame : List.Forall₂ (SameButTyped trusted) hits hits') :
    run (hit cfg trusted) s hits = run (hit cfg trusted) s hits' := by
  induction hsame generalizing s with
  | nil => rfl
  | cons hfirst _ ih =>
    unfold run
    rw [hit_alike hfirst]
    cases hit cfg trusted s _ with
    | none => rfl
    | some s₁ => exact ih

end Tracking

/-- **The throttle counts callers.** In every run of requests, and for every caller and endpoint with its limit and period: no
window holds more requests of the caller to the endpoint than the limit that were let through; the next request is let
through if and only if the caller's own window has room, and is told what the caller has left; and every answer would have
been the same whatever the callers had written into the header. -/
theorem throttle_counts_callers (cfg : Settings) (trusted : List Str) (start : Instant) (hits : List Hit) (s : Throttle)
    (hrun : run (hit cfg trusted) (Throttle.fresh start) hits = some s) :
    (∀ b : Bucket, b.WellFormed → ∀ t, (within (pairOf cfg b.endpoint).2 (passedTo b s.log) t : Int) ≤
      max 0 (pairOf cfg b.endpoint).1) ∧
    (∀ (h : Hit) (s' : Throttle), (h.call cfg trusted).isSome = true → hit cfg trusted s h = some s' →
      ((checkRateLimit cfg trusted s.storage h).1.isPassed = true ↔
        (within (pairOf cfg h.request.endpoint).2 (passedTo (h.bucket trusted) s.log) h.now : Int) <
          (pairOf cfg h.request.endpoint).1) ∧
      (checkRateLimit cfg trusted s.storage h).1.remaining = some (max 0 ((pairOf cfg h.request.endpoint).1 -
        within (pairOf cfg h.request.endpoint).2 (passedTo (h.bucket trusted) s'.log) h.later))) ∧
    ∀ hits', List.Forall₂ (SameButTyped trusted) hits hits' → run (hit cfg trusted) (Throttle.fresh start) hits' = some s := by
  obtain ⟨t, ht⟩ := run_tracks hrun
  refine ⟨fun b hb => ht.bounded hb, fun h s' hcounted hstep => ?_, fun hits' hsame => ?_⟩
  · obtain ⟨t', ht'⟩ := hit_tracks hstep ht
    exact ⟨ht.passes hcounted (hit_cases hstep).1, ht'.remaining hcounted hstep⟩
  · rw [← run_alike hsame]
    exact hrun

/-- One request a minute for everything. -/
def oneAMinute : Settings where
  libs := Urls.asciiLibraries
  key := ⟨id⟩
  decode _ _ := none
  allowedHosts := []
  allowedOrigins := []
  authDisabled := false
  rateLimits _ := none
  defaultLimit := (1, 60)
  declared _ _ := none

def sampleProxy : Str := "10.0.0.1".toList

/-- A guest at `198.51.100.4`, seen through the proxy, who has typed something into the header. -/
def guestHit (typed : Str) (now : Instant) : Hit where
  request :=
    { host := "localhost".toList, path := "/api/v1/shorten".toList, method := "POST", endpoint := some "api.shorten",
      urlRule := some "/api/v1/shorten", args := [], clientIp := "", accessCookie := none, refreshCookie := none,
      csrfCookie := none, authorization := none, origin := none, referer := none, csrfHeader := none }
  arrival := ⟨some sampleProxy, some (appended (some typed) " 198.51.100.4".toList)⟩
  g := .anonymous
  now := now
  later := now
  named := by
    intro name hname
    cases hname
    decide
  reported := by
    intro text htext
    cases htext
    exact .inr ⟨.v4 ⟨0x0A000001, by decide⟩, by decide +kernel, by decide +kernel⟩

/-- Another address in the header is no second request a minute. -/
theorem typed_header_does_not_help : ∃ s, run (hit oneAMinute [sampleProxy]) (Throttle.fresh 0)
      [guestHit "203.0.113.1".toList 0] = some s ∧
    (checkRateLimit oneAMinute [sampleProxy] s.storage (guestHit "203.0.113.2".toList 30)).1.isPassed = false := by
  have hcomputed : (run (hit oneAMinute [sampleProxy]) (Throttle.fresh 0) [guestHit "203.0.113.1".toList 0]).map (fun s =>
      (decide (s.now ≤ 30), within 60 (passedTo ((guestHit "203.0.113.2".toList 30).bucket [sampleProxy]) s.log) 30)) =
      some (true, 1) := by decide +kernel
  obtain ⟨s, hrun, hread⟩ := Option.map_eq_some_iff.mp hcomputed
  obtain ⟨hclock, hfull⟩ := Prod.mk.inj hread
  refine ⟨s, hrun, Bool.eq_false_iff.mpr ?_⟩
  intro hpassed
  have hstep : hit oneAMinute [sampleProxy] s (guestHit "203.0.113.2".toList 30) = some _ :=
    if_pos ⟨of_decide_eq_true hclock, le_refl _⟩
  have hroom := ((throttle_counts_callers oneAMinute [sampleProxy] 0 _ s hrun).2.1 (guestHit "203.0.113.2".toList 30) _
    (by decide) hstep).1.mp hpassed
  have hnone : (within 60 (passedTo ((guestHit "203.0.113.2".toList 30).bucket [sampleProxy]) s.log) 30 : Int) < 1 := hroom
  rw [hfull] at hnone
  exact absurd hnone (by decide)

end LinkShortener.Requests
