import Mathlib.Data.Int.Log
import Mathlib.Data.Rat.Floor
import LinkShortener.Lib.Dictionary
import LinkShortener.Lib.Rounding
import LinkShortener.RateLimit.Memory

/-!
# The limiter in Redis

The allowed requests are a sorted set, with their moments as scores. A member of the set is a text: the moment, which Lua
prints with 14 significant digits, and a random number, which is the same for every script. Two requests that print alike
are one member, and the second is counted in place of the first.

* `slidingWindowScript`: the script; `check`: a request, with what comes of it when the server cannot be used.
* `step`: a request to the limiter in Redis and to the one in memory, side by side.
* `Distinct`: a request that finds room finds no member that prints like it.
* `Mirrored`: the invariant. `redis_limiter_follows_memory`: the two agree about every next request, in every state of a
  run, in exactly the runs whose requests are all distinct.
-/

namespace LinkShortener.RedisRateLimiter

open Runs SlidingWindow Rounding

/-! ## The server -/

/-- The value of a number as it is printed with so many significant digits, the nearest such value. -/
def significant (digits : Nat) (v : ℚ) : ℚ :=
  let place : ℚ := 10 ^ (Int.log 10 v + 1 - digits)
  nearestEven (v / place).num (v / place).den * place

/-- `now .. ':' .. math.random()`: a text, and as such the values of two numbers that are printed with 14 digits. -/
structure Member where
  now : ℚ
  random : ℚ
  deriving DecidableEq

/-- A sorted set, each member with its score, and when it expires, in milliseconds. -/
structure SortedSet where
  entries : Dictionary Member Int
  deadline : Int

/-- One client's quota. The clock is read in ticks, of which a second has some fixed number: a power of two, where it is
read as a double, and `2 ^ 22` between 2004 and 2038. The generator of random numbers is seeded anew for every script, so
that the first one is always the same. -/
structure Quota where
  key : String
  limit : Nat
  period : Nat
  ticks : Nat
  random : ℚ
  period_pos : 0 < period
  ticks_pos : 0 < ticks

def zremrangebyscore (entries : Dictionary Member Int) (low high : Int) : Dictionary Member Int :=
  entries.filter fun e => decide ¬ (low ≤ e.2 ∧ e.2 ≤ high)

def zcard (entries : Dictionary Member Int) : Nat := entries.rows.length

section Script

variable (q : Quota)

/-- The period, in ticks. -/
def Quota.window : Int := q.period * q.ticks

def millis (t : Int) : Int := t * 1000 / q.ticks

def member (now : Nat) : Member := ⟨significant 14 (now / q.ticks), significant 14 q.random⟩

/-- A set whose time is up is gone before the script runs. -/
def SortedSet.unlessExpired (z : SortedSet) (now : Nat) : SortedSet :=
  if z.deadline < millis q now then ⟨Rows.empty, z.deadline⟩ else z

/-- What the script counts. -/
def current (z : SortedSet) (now : Nat) : Dictionary Member Int :=
  zremrangebyscore (z.unlessExpired q now).entries 0 (now - q.window)

/-- The script: the verdict, the remaining quota, and the set it leaves behind. -/
def slidingWindowScript (z : SortedSet) (now : Nat) : (Bool × Int) × SortedSet :=
  let entries := current q z now
  if zcard entries < q.limit then
    ((true, q.limit - zcard entries - 1), ⟨entries.set (member q now) now, millis q now + q.period * 1000⟩)
  else ((false, 0), ⟨entries, z.deadline⟩)

end Script

/-! ## The client -/

structure RateLimitDecision where
  allowed : Bool
  remaining : Int
  deriving DecidableEq

/-- What is remembered of failures. -/
structure Client where
  retryInterval : Int
  unreachableSince : Option Int
  refused : Bool
  deriving DecidableEq

/-- The server refuses the command, or cannot be reached. -/
inductive RedisError
  | refusal
  | outage
  deriving DecidableEq

/-- One reading of the clocks, and what goes wrong, with the set that is there afterwards. -/
structure Call where
  now : Nat
  monotonic : Int
  failure : Option (RedisError × SortedSet)

/-- Whether this caller tries the server. -/
def Client.claimAttempt (c : Client) (monotonic : Int) : Bool × Client :=
  match c.unreachableSince with
  | none => (true, c)
  | some since =>
    if monotonic - since < c.retryInterval then (false, c) else (true, { c with unreachableSince := some monotonic })

/-- **Decide on a request** and report the remaining quota. -/
def check (q : Quota) (c : Client) (z : SortedSet) (call : Call) : RateLimitDecision × Client × SortedSet :=
  match c.claimAttempt call.monotonic with
  | (false, c) => (⟨true, q.limit⟩, c, z)
  | (true, c) =>
    match call.failure with
    | some (.refusal, z) => (⟨true, q.limit⟩, { c with refused := true }, z)
    | some (.outage, z) => (⟨true, q.limit⟩, { c with unreachableSince := some call.monotonic }, z)
    | none =>
      let ((allowed, remaining), z) := slidingWindowScript q z call.now
      (⟨allowed, remaining⟩, { c with unreachableSince := none, refused := false }, z)

/-! ## Both limiters side by side -/

/-- The last reading, both limiters, and the requests the one in Redis has allowed. -/
structure State where
  now : Nat
  client : Client
  set : SortedSet
  storage : MemoryRateLimiter.Storage
  allowed : List Int

/-- Nothing has been asked, and the server can be used. -/
def State.fresh (now : Nat) (retryInterval : Int) : State :=
  ⟨now, ⟨retryInterval, none, false⟩, ⟨Rows.empty, 0⟩, fun _ => [], []⟩

section Step

variable (q : Quota)

/-- The verdict of the limiter in memory. -/
def memoryVerdict (s : State) (now : Nat) : Bool × MemoryRateLimiter.Storage :=
  MemoryRateLimiter.isAllowed s.storage q.key q.limit q.window now

def decision (s : State) (call : Call) : RateLimitDecision := (check q s.client s.set call).1

/-- The requests that are allowed, with this one. -/
def allowedWith (s : State) (call : Call) : List Int :=
  if (decision q s call).allowed then s.allowed ++ [(call.now : Int)] else s.allowed

/-- **A request to both**, which the server answers; the clock does not go back. -/
def step (s : State) (call : Call) : Option State :=
  if s.now ≤ call.now ∧ call.failure.isNone then
    some ⟨call.now, (check q s.client s.set call).2.1, (check q s.client s.set call).2.2, (memoryVerdict q s call.now).2,
      allowedWith q s call⟩
  else none

/-- **What is claimed of a request**: the verdict is that of the limiter in memory, and what remains is the limit less the
allowed requests in the window. -/
structure Agrees (s : State) (call : Call) : Prop where
  verdict : (decision q s call).allowed = (memoryVerdict q s call.now).1
  remaining : (decision q s call).remaining = q.limit - (within q.window (allowedWith q s call) call.now : Int)

/-- **The condition**: if there is room for a request, there is no member yet that prints like it. -/
def Distinct (s : State) (call : Call) : Prop :=
  zcard (current q s.set call.now) < q.limit → (current q s.set call.now).lookup (member q call.now) = none

instance (s : State) (call : Call) : Decidable (Distinct q s call) := inferInstanceAs (Decidable (_ → _))

end Step

/-! ## The invariant -/

def scores (entries : Dictionary Member Int) : List Int := entries.rows.map (·.2)

/-- **The sorted set mirrors the history**: it shows as many moments as there are in every window from now on, and it does
not expire before they are out of it. -/
structure Mirrored (q : Quota) (s : State) : Prop where
  reachable : s.client.unreachableSince = none
  counted : ∀ now : Int, s.now ≤ now →
    (inWindow q.window now (scores s.set.entries)).length = (inWindow q.window now s.allowed).length
  dated : ∀ score ∈ scores s.set.entries, 0 ≤ score ∧ score ≤ s.now ∧ millis q score + q.period * 1000 ≤ s.set.deadline
  bounded : Bounded q.limit q.window s.allowed
  past : ∀ ts ∈ s.allowed, ts ≤ s.now
  memory : Follows q.window s.now (s.storage q.key) s.allowed

section Invariant

variable {q : Quota} {s s' : State} {call : Call}

theorem window_pos (q : Quota) : 0 < q.window :=
  Int.mul_pos (Int.natCast_pos.mpr q.period_pos) (Int.natCast_pos.mpr q.ticks_pos)

theorem mirrored_fresh (q : Quota) (now : Nat) (retryInterval : Int) : Mirrored q (State.fresh now retryInterval) := by
  refine ⟨rfl, fun _ _ => rfl, nofun, ?_, nofun, Follows.refl _ _ _⟩
  intro t
  exact le_max_left _ _

/-- What has expired is out of the window. -/
theorem out_of_window {score now : Int} (h : millis q score + q.period * 1000 < millis q now) :
    score ≤ now - q.window := by
  by_contra hin
  have hticks : (0 : Int) < q.ticks := Int.natCast_pos.mpr q.ticks_pos
  have hwindow : q.window = q.period * q.ticks := rfl
  have hlate : millis q now ≤ millis q score + q.period * 1000 := by
    unfold millis
    rw [← Int.add_mul_ediv_right _ _ hticks.ne']
    refine Int.ediv_le_ediv hticks ?_
    calc now * 1000 ≤ (score + q.period * q.ticks) * 1000 := by
          refine Int.mul_le_mul_of_nonneg_right ?_ (by decide)
          omega
      _ = score * 1000 + q.period * 1000 * q.ticks := by
          rw [Int.add_mul, Int.mul_right_comm]
  omega

/-- **What the script counts** is the current window. -/
theorem scores_current (h : Mirrored q s) (now : Nat) :
    scores (current q s.set now) = inWindow q.window now (scores s.set.entries) := by
  have hscores : scores (zremrangebyscore s.set.entries 0 (now - q.window)) =
      inWindow q.window now (scores s.set.entries) := by
    unfold scores zremrangebyscore inWindow Rows.filter
    rw [List.filter_map]
    congr 1
    apply List.filter_congr
    intro e he
    have hnonneg := (h.dated e.2 (List.mem_map_of_mem he)).1
    simp only [Function.comp, decide_eq_decide]
    omega
  unfold current SortedSet.unlessExpired
  split
  · rename_i hexpired
    symm
    unfold inWindow
    rw [List.filter_eq_nil_iff.mpr]
    · rfl
    · intro score hscore hin
      have hout := out_of_window (lt_of_le_of_lt (h.dated score hscore).2.2 hexpired)
      have hin := of_decide_eq_true hin
      omega
  · exact hscores

theorem zcard_current (h : Mirrored q s) (hle : s.now ≤ call.now) :
    zcard (current q s.set call.now) = (inWindow q.window call.now s.allowed).length := by
  rw [← h.counted call.now (Int.ofNat_le.mpr hle), ← scores_current h]
  unfold zcard scores
  rw [List.length_map]

/-- A request that finds room is recorded. -/
theorem check_room (h : s.client.unreachableSince = none) (hok : call.failure = none)
    (hroom : zcard (current q s.set call.now) < q.limit) :
    check q s.client s.set call =
      (⟨true, q.limit - zcard (current q s.set call.now) - 1⟩, { s.client with unreachableSince := none, refused := false },
        ⟨(current q s.set call.now).set (member q call.now) call.now, millis q call.now + q.period * 1000⟩) := by
  unfold check Client.claimAttempt slidingWindowScript
  rw [h, hok]
  simp only [if_pos hroom]

theorem check_full (h : s.client.unreachableSince = none) (hok : call.failure = none)
    (hfull : ¬ zcard (current q s.set call.now) < q.limit) :
    check q s.client s.set call =
      (⟨false, 0⟩, { s.client with unreachableSince := none, refused := false },
        ⟨current q s.set call.now, s.set.deadline⟩) := by
  unfold check Client.claimAttempt slidingWindowScript
  rw [h, hok]
  simp only [if_neg hfull]

/-- **The verdict is that of the sliding window** over what was allowed. -/
theorem decision_allowed (h : Mirrored q s) (hok : call.failure = none) (hle : s.now ≤ call.now) :
    (decision q s call).allowed = allows q.limit q.window s.allowed call.now := by
  have hcard := zcard_current h hle
  unfold decision allows
  by_cases hroom : zcard (current q s.set call.now) < q.limit
  · rw [check_room h.reachable hok hroom]
    rw [hcard] at hroom
    exact (decide_eq_true (Int.ofNat_lt.mpr hroom)).symm
  · rw [check_full h.reachable hok hroom]
    rw [hcard] at hroom
    exact (decide_eq_false fun hlt => hroom (Int.ofNat_lt.mp hlt)).symm

theorem allowedWith_eq (h : Mirrored q s) (hok : call.failure = none) (hle : s.now ≤ call.now) :
    allowedWith q s call = serve q.limit q.window s.allowed call.now := by
  unfold allowedWith serve
  rw [decision_allowed h hok hle]

theorem Mirrored.past_of_le (h : Mirrored q s) (hle : s.now ≤ call.now) : ∀ ts ∈ s.allowed, ts ≤ (call.now : Int) := by
  intro ts hts
  exact le_trans (h.past ts hts) (Int.ofNat_le.mpr hle)

/-- A moment is in the window that ends with it. -/
theorem within_concat (q : Quota) (moments : List Int) (now : Int) :
    within q.window (moments ++ [now]) now = within q.window moments now + 1 := by
  have hwindow := window_pos q
  unfold within
  rw [List.countP_append, List.countP_singleton, if_pos]
  exact decide_eq_true ⟨by omega, le_rfl⟩

/-- **A mirrored state agrees with the limiter in memory** about every next request. -/
theorem Mirrored.agrees (h : Mirrored q s) (hok : call.failure = none) (hle : s.now ≤ call.now) : Agrees q s call := by
  have hcard := zcard_current h hle
  rw [length_inWindow (h.past_of_le hle)] at hcard
  constructor
  · unfold memoryVerdict
    rw [decision_allowed h hok hle, MemoryRateLimiter.isAllowed_fst, (h.memory.later (Int.ofNat_le.mpr hle)).allows]
  · unfold allowedWith decision
    by_cases hroom : zcard (current q s.set call.now) < q.limit
    · rw [check_room h.reachable hok hroom]
      simp only [if_true]
      rw [within_concat, hcard]
      omega
    · rw [check_full h.reachable hok hroom]
      -- The window is full, and no window is overfull.
      have hbound := h.bounded call.now
      simp only [Bool.false_eq_true, if_false]
      omega

/-- **A distinct request keeps the set a mirror of the history.** -/
theorem step_mirrored (hdistinct : Distinct q s call) (hstep : step q s call = some s') (h : Mirrored q s) :
    Mirrored q s' := by
  unfold step at hstep
  split at hstep
  · rename_i hnext
    obtain ⟨hle, hok⟩ := hnext
    have hok := Option.isNone_iff_eq_none.mp hok
    cases hstep
    have hlater : (s.now : Int) ≤ call.now := Int.ofNat_le.mpr hle
    have hscores := scores_current h call.now
    have hserve := allowedWith_eq h hok hle
    have hmemory : Follows q.window call.now ((memoryVerdict q s call.now).2 q.key) (allowedWith q s call) := by
      have hfollows := h.memory.later hlater
      unfold memoryVerdict
      rw [MemoryRateLimiter.isAllowed_snd, Function.update_self, hserve, hfollows.allows]
      unfold serve
      split
      · exact hfollows.prune.record _
      · rw [List.append_nil]
        exact hfollows.prune
    have hbounded : Bounded q.limit q.window (allowedWith q s call) := by
      rw [hserve]
      exact admit_bounded h.bounded _
    have hcounted : ∀ now : Int, call.now ≤ now → (inWindow q.window now (scores (current q s.set call.now))).length =
        (inWindow q.window now s.allowed).length := by
      intro now hnow
      rw [hscores, inWindow_inWindow hnow]
      exact h.counted now (le_trans hlater hnow)
    have hdated : ∀ score ∈ scores (current q s.set call.now),
        0 ≤ score ∧ score ≤ call.now ∧ millis q score + q.period * 1000 ≤ s.set.deadline := by
      intro score hscore
      rw [hscores] at hscore
      obtain ⟨hnonneg, hold, hdeadline⟩ := h.dated score (List.mem_filter.mp hscore).1
      exact ⟨hnonneg, le_trans hold hlater, hdeadline⟩
    by_cases hroom : zcard (current q s.set call.now) < q.limit
    · have hnew : scores ((current q s.set call.now).set (member q call.now) call.now) =
          (call.now : Int) :: scores (current q s.set call.now) := by
        have hfree : (current q s.set call.now).get (member q call.now) =
            none := Option.map_eq_none_iff.mp (hdistinct hroom)
        unfold scores Dictionary.set
        rw [Rows.upsert_new hfree]
        rfl
      have hallowed : allowedWith q s call = s.allowed ++ [(call.now : Int)] := by
        unfold allowedWith decision
        rw [check_room h.reachable hok hroom]
        rfl
      rw [hallowed] at hmemory hbounded ⊢
      rw [check_room h.reachable hok hroom]
      refine ⟨rfl, ?_, ?_, hbounded, ?_, hmemory⟩
      · intro now hnow
        show (inWindow q.window now (scores _)).length = _
        rw [hnew, inWindow_append, List.length_append, ← hcounted now hnow, ← List.length_append, ← inWindow_append]
        unfold inWindow
        exact ((List.perm_append_singleton _ _).symm.filter _).length_eq
      · intro score hscore
        have hscore : score ∈ scores ((current q s.set call.now).set (member q call.now) call.now) := hscore
        rw [hnew] at hscore
        rcases List.mem_cons.mp hscore with rfl | hold
        · exact ⟨Int.natCast_nonneg _, le_rfl, le_rfl⟩
        · obtain ⟨hnonneg, hpast, -⟩ := hdated score hold
          refine ⟨hnonneg, hpast, Int.add_le_add_right ?_ _⟩
          exact Int.ediv_le_ediv (Int.natCast_pos.mpr q.ticks_pos) (Int.mul_le_mul_of_nonneg_right hpast (by decide))
      · intro ts hts
        rcases List.mem_append.mp hts with hold | hnew
        · exact h.past_of_le hle ts hold
        · exact (List.mem_singleton.mp hnew).le
    · have hallowed : allowedWith q s call = s.allowed := by
        unfold allowedWith decision
        rw [check_full h.reachable hok hroom]
        rfl
      rw [hallowed] at hmemory hbounded ⊢
      rw [check_full h.reachable hok hroom]
      exact ⟨rfl, hcounted, hdated, hbounded, h.past_of_le hle, hmemory⟩
  · cases hstep

/-- What the script counts when it runs again at once. -/
theorem zcard_current_again {z : SortedSet} {now : Nat} (hdeadline : millis q now ≤ z.deadline)
    (hin : ∀ score ∈ scores z.entries, now - q.window < score) : zcard (current q z now) = zcard z.entries := by
  unfold current SortedSet.unlessExpired
  rw [if_neg (not_lt.mpr hdeadline)]
  refine congrArg List.length (List.filter_eq_self.mpr ?_)
  intro e he
  have hscore := hin e.2 (List.mem_map_of_mem he)
  exact decide_eq_true fun hout => absurd hscore (not_lt.mpr hout.2)

/-- **A request that prints like another one is counted in its place**: the same request again is told that one more
remains than does. -/
theorem collision_disagrees (hstep : step q s call = some s') (h : Mirrored q s) (hsame : ¬ Distinct q s call) :
    ¬ Agrees q s' call := by
  unfold step at hstep
  split at hstep
  · rename_i hnext
    obtain ⟨hle, hok⟩ := hnext
    have hok := Option.isNone_iff_eq_none.mp hok
    obtain ⟨hroom, htaken⟩ := Classical.not_imp.mp hsame
    have hstate := Option.some.inj hstep
    have hset : s'.set = ⟨(current q s.set call.now).set (member q call.now) call.now,
        millis q call.now + q.period * 1000⟩ := by
      rw [← hstate, check_room h.reachable hok hroom]
    have hclient : s'.client.unreachableSince = none := by
      rw [← hstate, check_room h.reachable hok hroom]
    have hallowed : s'.allowed = s.allowed ++ [(call.now : Int)] := by
      rw [← hstate]
      unfold allowedWith decision
      rw [check_room h.reachable hok hroom]
      rfl
    -- Nothing has left the window in between, and the member that was there has a new score.
    have hcard : zcard (current q s'.set call.now) = zcard (current q s.set call.now) := by
      rw [hset, zcard_current_again]
      · refine Rows.length_upsert ?_
        intro hfree
        exact htaken (Option.map_eq_none_iff.mpr hfree)
      · have hperiod := q.period_pos
        show millis q call.now ≤ millis q call.now + q.period * 1000
        omega
      · intro score hscore
        have hwindow := window_pos q
        obtain ⟨e, he, rfl⟩ := List.mem_map.mp hscore
        rcases Rows.mem_upsert he with rfl | hold
        · show (call.now : Int) - q.window < call.now
          omega
        · have hold : e.2 ∈ scores (current q s.set call.now) := List.mem_map_of_mem hold
          rw [scores_current h] at hold
          exact of_decide_eq_true (List.mem_filter.mp hold).2
    have hroom' : zcard (current q s'.set call.now) < q.limit := by
      rw [hcard]
      exact hroom
    intro hagrees
    have hremaining := hagrees.remaining
    unfold allowedWith decision at hremaining
    rw [check_room hclient hok hroom'] at hremaining
    simp only [if_true] at hremaining
    rw [hallowed, within_concat, within_concat, hcard] at hremaining
    have hcount := zcard_current h hle
    rw [length_inWindow (h.past_of_le hle)] at hcount
    omega
  · cases hstep

end Invariant

/-! ## Every run -/

/-- **The limiter in Redis enforces the window of the one in memory in the runs whose requests are distinct, and in no
others**: in every state of such a run, every next request gets the verdict of the limiter in memory, and is told the limit
less the allowed requests in the window. -/
theorem redis_limiter_follows_memory (q : Quota) (start : Nat) (retryInterval : Int) (calls : List Call) (s : State)
    (hrun : run (step q) (State.fresh start retryInterval) calls = some s) :
    (∀ p s', p <+: calls → run (step q) (State.fresh start retryInterval) p = some s' →
      ∀ call, call.failure = none → s'.now ≤ call.now → Agrees q s' call) ↔
    Meets (step q) (Distinct q) (State.fresh start retryInterval) calls := by
  refine meets_iff_of_exact (I := Mirrored q)
    (A := fun s' => ∀ call, call.failure = none → s'.now ≤ call.now → Agrees q s' call) ?_ step_mirrored ?_ hrun
    (mirrored_fresh q start retryInterval)
  · intro s h call hok hle
    exact h.agrees hok hle
  · intro s call s' hstep h hagrees
    by_contra hsame
    have hstep' := hstep
    unfold step at hstep'
    split at hstep'
    · rename_i hnext
      cases hstep'
      exact collision_disagrees hstep h hsame (hagrees call (Option.isNone_iff_eq_none.mp hnext.2) le_rfl)
    · cases hstep'

/-! Three requests of two a minute, on a clock that is read as a double. -/

def twoAMinute : Quota := ⟨"client", 2, 60, 4194304, 1/3, by decide, by decide⟩

/-- A request some ticks after a full second in 2026. Ten microseconds are 42 of them. -/
def requestAfter (ticks : Nat) : Call := ⟨1785538800 * 4194304 + ticks, 0, none⟩

/-- **A burst within a tenth of a millisecond is not limited**: the third request is the last one's member again. -/
theorem burst_escapes_the_limit :
    ∃ s, run (step twoAMinute) (State.fresh 0 10) [requestAfter 42, requestAfter 84] = some s ∧
      decision twoAMinute s (requestAfter 126) = ⟨true, 0⟩ ∧ (memoryVerdict twoAMinute s (requestAfter 126).now).1 = false ∧
      ¬ Agrees twoAMinute s (requestAfter 126) := by
  have hrun : ((run (step twoAMinute) (State.fresh 0 10) [requestAfter 42, requestAfter 84]).map fun s =>
      (decision twoAMinute s (requestAfter 126), (memoryVerdict twoAMinute s (requestAfter 126).now).1)) =
        some (⟨true, 0⟩, false) := by
    decide +kernel
  obtain ⟨s, hs, heq⟩ := Option.map_eq_some_iff.mp hrun
  obtain ⟨hdecision, hmemory⟩ := Prod.mk.inj heq
  refine ⟨s, hs, hdecision, hmemory, ?_⟩
  intro hagrees
  have hverdict := hagrees.verdict
  rw [hdecision, hmemory] at hverdict
  cases hverdict

/-- Requests that are a tenth of a millisecond apart are limited. -/
theorem redis_limiter_follows_memory_tenths :
    ∃ s, run (step twoAMinute) (State.fresh 0 10) [requestAfter 0, requestAfter 419] = some s ∧
      decision twoAMinute s (requestAfter 839) = ⟨false, 0⟩ ∧ Agrees twoAMinute s (requestAfter 839) := by
  have hrun : ((run (step twoAMinute) (State.fresh 0 10) [requestAfter 0, requestAfter 419]).map fun s =>
      (decision twoAMinute s (requestAfter 839), s.now)) = some (⟨false, 0⟩, (requestAfter 419).now) := by decide +kernel
  have hdistinct : Meets (step twoAMinute) (Distinct twoAMinute) (State.fresh 0 10)
      [requestAfter 0, requestAfter 419] := by decide +kernel
  obtain ⟨s, hs, heq⟩ := Option.map_eq_some_iff.mp hrun
  obtain ⟨hdecision, hnow⟩ := Prod.mk.inj heq
  refine ⟨s, hs, hdecision, ?_⟩
  refine (redis_limiter_follows_memory twoAMinute 0 10 _ s hs).mpr hdistinct _ s (List.prefix_refl _) hs
    (requestAfter 839) rfl ?_
  rw [hnow]
  decide

end LinkShortener.RedisRateLimiter
