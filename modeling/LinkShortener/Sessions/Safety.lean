import Mathlib.Data.Fin.VecNotation
import LinkShortener.Sessions.Invariant

/-!
# One usable session per chain

* `step_inv`: every step of every call keeps the invariant, by cases on the point the call has reached.
* `one_usable_per_chain`: in every state of every run, a chain has at most one usable session, and `replaced_by` of a
  row is set by one transaction at most.
-/

namespace LinkShortener.Sessions

open ReadCommitted Runs

/-! ## The step lemma -/

section Step

variable {n : Nat} {refreshExpire : Int} {s s' : State n} {i : Fin n} {now : Instant} {fresh : Uuid}

theorem refreshFound_inv (h : Inv s) {call : Call} (hp : s.procs i = .ready call) {userId jti : Uuid} :
    Inv (refreshFound s i userId jti now (s.sessions.view i jti)) := by
  have hw : ∀ {k old w}, ¬ (s.procs i).Writes k old w := by simp [hp, Proc.Writes]
  rw [Store.view_of_clean (h.clean hw jti)]
  cases hv : s.sessions.committed jti with
  | none => exact h.answer hw _
  | some session =>
    simp only [refreshFound]
    split
    · exact h.answer hw _
    · split
      · refine h.goto (.of_clean (h.clean hw) rfl rfl ?_) (by simp [Proc.minted]) ?_
        · rintro _ _ v ⟨⟩ hv'
          rw [hv] at hv'
          cases hv'
          rfl
        · rintro _ _ ⟨⟩
          exact h.settled_of_committed hv
      · split
        · exact h.goto (.of_clean (h.clean hw) rfl rfl (by simp [Proc.read])) (by simp [Proc.minted])
            (by simp [Proc.read])
        · exact h.answer hw _

/-- A call that has written nothing goes on to a point where nothing is drawn, read or claimed. -/
theorem goto_idle_inv (h : Inv s) {p : Proc} (hw : ∀ {k old w}, ¬ (s.procs i).Writes k old w) (hm : p.minted = none)
    (hr : p.read = none) (hc : p.claimedRow = none) : Inv (s.goto i p) :=
  h.goto (.of_clean (h.clean hw) hc hm (by simp [hr])) (by simp [hm]) (by simp [hr])

theorem begin_inv (h : Inv s) {call : Call} (hp : s.procs i = .ready call)
    (hs : begin refreshExpire s i now fresh call = some s') : Inv s' := by
  have hw : ∀ {k old w}, ¬ (s.procs i).Writes k old w := by simp [hp, Proc.Writes]
  cases call with
  | createSessionTokens userId =>
    simp only [begin] at hs
    split at hs
    · simp at hs
    · rename_i hf
      cases hs
      exact h.mint hf hw rfl (by rw [hp]; rfl) rfl
  | refreshAccessToken token =>
    simp only [begin] at hs
    split at hs <;> cases hs
    · exact refreshFound_inv h hp
    · exact h.answer hw _
  | revokeRefreshToken token =>
    simp only [begin] at hs
    split at hs
    · split at hs
      · split at hs <;> cases hs
        · exact h.answer hw _
        · exact goto_idle_inv h hw rfl rfl rfl
      · cases hs
        exact h.answer hw _
    · cases hs
      exact h.answer hw _
  | revokeSessionChain chain =>
    cases hs
    exact goto_idle_inv h hw rfl rfl rfl
  | deleteExpired =>
    cases hs
    exact goto_idle_inv h hw rfl rfl rfl

theorem next_inv (h : Inv s) (hs : next refreshExpire s i now fresh (s.procs i) = some s') : Inv s' := by
  cases hp : s.procs i with
  | ready call =>
    rw [hp] at hs
    exact begin_inv h hp hs
  | opening userId new expiresAt =>
    rw [hp] at hs
    cases hs
    refine h.insert (by rw [hp]; rfl) (by rw [hp]; rfl) (by rw [hp]; rfl) (by rw [hp]; rfl) (by simp [hp, Proc.Writes]) ?_
    exact ⟨rfl, rfl, _, rfl, rfl, rfl⟩
  | opened new =>
    rw [hp] at hs
    cases hs
    exact h.commit rfl rfl rfl rfl
  | loading userId jti session =>
    have hw : ∀ {k old w}, ¬ (s.procs i).Writes k old w := by simp [hp, Proc.Writes]
    have hread : (s.procs i).read = some (jti, session) := by rw [hp]; rfl
    rw [hp] at hs
    simp only [next] at hs
    split at hs
    · split at hs <;> cases hs
      · refine h.goto (.of_clean (h.clean hw) rfl rfl ?_) (by simp [Proc.minted]) ?_
        · rintro _ _ v ⟨⟩ hv
          exact (h.procs i).read_chain hread hv
        · rintro _ _ ⟨⟩
          exact h.read_settled hread
      · exact h.answer hw _
    · cases hs
      exact h.answer hw _
  | minting jti session =>
    rw [hp] at hs
    simp only [next] at hs
    split at hs
    · simp at hs
    · rename_i hf
      cases hs
      exact h.mint hf (by simp [hp, Proc.Writes]) rfl (by rw [hp]; rfl) rfl
  | toClaim jti new session expiresAt =>
    have hw : ∀ {k old w}, ¬ (s.procs i).Writes k old w := by simp [hp, Proc.Writes]
    have hpi := h.procs i
    have hread : (s.procs i).read = some (jti, session) := by rw [hp]; rfl
    have hset := h.read_settled hread
    rw [hp] at hs hpi
    cases hs
    refine h.goto ⟨?_, by simp [Proc.claimedRow], ?_, by simp [Proc.opens], ?_⟩ ?_ ?_
    · intro k w hd
      rw [h.clean hw k] at hd
      simp at hd
    · rintro k ⟨⟩
      exact hpi.minted rfl
    · rintro _ _ v ⟨⟩ hv
      exact hpi.read_chain rfl hv
    · rintro k ⟨⟩
      rw [hp]
      rfl
    · rintro _ _ ⟨⟩
      exact hset
  | claiming jti new session expiresAt now' todo claimed =>
    rw [hp] at hs
    cases todo with
    | cons k todo => simp [next] at hs
    | nil =>
      simp only [next] at hs
      split at hs <;> cases hs
      · rename_i hc
        subst hc
        refine h.insert (by rw [hp]; rfl) (by rw [hp]; rfl) (by rw [hp]; rfl) (by rw [hp]; rfl) ?_ ?_
        · intro k' old w hk'
          rw [hp] at hk'
          exact .inl hk'
        · exact .inr ⟨rfl, rfl, _, rfl, rfl, rfl⟩
      · exact h.rollback _
  | rotated jti new session =>
    rw [hp] at hs
    cases hs
    exact h.commit rfl rfl rfl rfl
  | toRevoke chain why =>
    rw [hp] at hs
    cases hs
    exact goto_idle_inv h (by simp [hp, Proc.Writes]) rfl rfl rfl
  | revoking chain why now' todo revoked =>
    rw [hp] at hs
    cases todo with
    | cons k todo => simp [next] at hs
    | nil =>
      cases hs
      exact h.commit rfl rfl rfl rfl
  | sweeping now' todo deleted =>
    rw [hp] at hs
    cases todo with
    | cons k todo => simp [next] at hs
    | nil =>
      cases hs
      exact h.commit rfl rfl rfl rfl
  | done o => simp [hp, next] at hs

theorem row_inv (h : Inv s) {k : Uuid} (hs : row s i k (s.procs i) = some s') : Inv s' := by
  cases hp : s.procs i with
  | claiming jti new session expiresAt now' todo claimed =>
    simp only [hp, row] at hs
    split at hs <;> cases hs
    rename_i hk
    refine h.exec hk.2 (by rw [hp]; rfl) (by rw [hp]; rfl) (by rw [hp]; rfl) ?_ ?_ ?_ ?_
    · intro k' old w hw
      rw [hp] at hw
      exact hw
    · intro old v hw
      rw [hp] at hw
      obtain ⟨-, v₀, -, -, -, hv⟩ := hw
      cases hv
      simp [claimForRotation, RefreshSession.isUsable]
    · intro v hv hcond
      simp only [claimForRotation, Bool.and_eq_true, decide_eq_true_eq, RefreshSession.isUsable] at hcond
      obtain ⟨rfl, ⟨hrev, hrep⟩, -⟩ := hcond
      refine ⟨rfl, v, rfl, by simp [RefreshSession.spendable, hrev, hrep], ?_, rfl⟩
      have hpi := h.procs i
      rw [hp] at hpi
      exact hpi.read_chain rfl hv
    · intro j hj
      cases hmn : s.sessions.matchesNow i (claimForRotation jti new now') k with
      | false =>
        simp only [hmn, Proc.claimedRow] at hj
        exact .inl (by rw [hp]; exact hj)
      | true =>
        simp only [hmn, Proc.claimedRow] at hj
        have hkj : k = jti := by
          simp only [Store.matchesNow, Option.any_eq_true, claimForRotation, Bool.and_eq_true, decide_eq_true_eq] at hmn
          obtain ⟨_, _, hk, -⟩ := hmn
          exact hk
        refine .inr ⟨?_, rfl, ?_⟩
        · simp at hj
          rw [hkj, hj]
        · intro v hv
          simp only [claimForRotation, Bool.and_eq_true, RefreshSession.isUsable] at hv
          simp [RefreshSession.spendable, hv.2.1.1, hv.2.1.2]
  | revoking chain why now' todo revoked =>
    simp only [hp, row] at hs
    split at hs <;> cases hs
    rename_i hk
    refine h.exec hk.2 (by rw [hp]; rfl) (by rw [hp]; rfl) (by rw [hp]; rfl) ?_ ?_ ?_ (by simp [Proc.claimedRow])
    · intro k' old w hw
      rw [hp] at hw
      exact hw
    · intro old v hw
      rw [hp] at hw
      obtain ⟨v₀, _, -, -, hv⟩ := hw
      cases hv
      simp [revokeChain]
    · intro v hv hcond
      simp only [revokeChain, Bool.and_eq_true, decide_eq_true_eq] at hcond
      exact ⟨v, now', rfl, hcond.1, rfl⟩
  | sweeping now' todo deleted =>
    simp only [hp, row] at hs
    split at hs <;> cases hs
    rename_i hk
    refine h.exec hk.2 (by rw [hp]; rfl) (by rw [hp]; rfl) (by rw [hp]; rfl) ?_ ?_ ?_ (by simp [Proc.claimedRow])
    · intro k' old w hw
      rw [hp] at hw
      exact hw
    · intro old v hw
      rw [hp] at hw
      obtain ⟨v₀, -, hv⟩ := hw
      simp at hv
    · intro v hv _
      exact ⟨v, rfl, rfl⟩
  | _ => simp [hp, row] at hs

/-- **Every step keeps the invariant.** -/
theorem step_inv {e : Event n} (hs : step refreshExpire s e = some s') (h : Inv s) : Inv s' := by
  cases e with
  | next i now fresh => exact next_inv h hs
  | row i k => exact row_inv h hs
  | fail i =>
    simp only [step] at hs
    split at hs
    · simp at hs
    · cases hs
      exact h.rollback _
  | account u a =>
    cases hs
    exact ⟨h.rows_used, h.one_spendable, h.procs, h.minted_inj, h.read_settled, h.set_settled, h.set_replaced, h.set_once⟩

end Step

/-! ## Whole runs -/

section Runs

variable {n : Nat} {refreshExpire : Int}

/-- Before the first call: a table at rest with at most one spendable session a chain, all of whose identifiers have
been handed out. -/
structure Start (s : State n) : Prop where
  ready : ∀ i, ∃ call, s.procs i = .ready call
  clean : ∀ i k, s.sessions.dirtyBy i k = none
  rows_used : ∀ {k v}, s.sessions.committed k = some v → k ∈ s.used ∧ v.chainId ∈ s.used
  one_spendable : ∀ {k k' v v'}, s.sessions.committed k = some v → s.sessions.committed k' = some v' →
    v.spendable = true → v'.spendable = true → v.chainId = v'.chainId → k = k'
  setBy : s.setBy = []
  revoked : s.revoked = []

theorem Start.inv {s : State n} (h : Start s) : Inv s where
  rows_used := h.rows_used
  one_spendable := h.one_spendable
  procs t := by
    obtain ⟨call, hp⟩ := h.ready t
    rw [hp]
    exact .of_clean (h.clean t) rfl rfl (by simp [Proc.read])
  minted_inj {t _ _} ht := by
    obtain ⟨call, hp⟩ := h.ready t
    simp [hp, Proc.minted] at ht
  read_settled {t _ _} ht := by
    obtain ⟨call, hp⟩ := h.ready t
    simp [hp, Proc.read] at ht
  set_settled hk := by simp [h.setBy] at hk
  set_replaced hk := by simp [h.setBy] at hk
  set_once hk := by simp [h.setBy] at hk

theorem run_session_inv {s s' : State n} {es : List (Event n)} (h₀ : Start s)
    (h : run (step refreshExpire) s es = some s') : Inv s' :=
  run_inv step_inv h h₀.inv

/-- A usable session is spendable. -/
theorem spendable_of_isUsable {now : Instant} {v : RefreshSession} (h : v.isUsable now = true) :
    v.spendable = true := by
  simp only [RefreshSession.isUsable, Bool.and_eq_true] at h
  simp [RefreshSession.spendable, h.1.1, h.1.2]

/-- **One usable session per chain**, whatever the calls and their interleaving, and one rotation per session. -/
theorem one_usable_per_chain {s s' : State n} {es : List (Event n)} (h₀ : Start s)
    (h : run (step refreshExpire) s es = some s') :
    (∀ now k k' v v', s'.sessions.committed k = some v → s'.sessions.committed k' = some v' →
      v.isUsable now = true → v'.isUsable now = true → v.chainId = v'.chainId → k = k') ∧
    ∀ k t t', (k, t) ∈ s'.setBy → (k, t') ∈ s'.setBy → t = t' := by
  have hinv := run_session_inv h₀ h
  refine ⟨?_, fun k t t' ht ht' => hinv.set_once ht ht'⟩
  intro now k k' v v' hv hv' hu hu' hc
  exact hinv.one_spendable hv hv' (spendable_of_isUsable hu) (spendable_of_isUsable hu') hc

/-- An empty table before the given calls; account 7 is active. -/
def State.init (calls : Fin n → Call) : State n where
  sessions := Store.load [] List.nodup_nil fun _ => none
  users := fun u => if u = 7 then some ⟨true⟩ else none
  used := []
  procs := fun i => .ready (calls i)
  setBy := []
  revoked := []

theorem start_init (calls : Fin n → Call) : Start (State.init calls) where
  ready i := ⟨calls i, rfl⟩
  clean i k := Store.dirtyBy_load i k
  rows_used h := by simp [State.init, Store.committed_load] at h
  one_spendable h := by simp [State.init, Store.committed_load] at h
  setBy := rfl
  revoked := rfl

/-- A login, two refreshes of its token at once, and a replay of it. -/
def raceCalls : Fin 4 → Call :=
  ![.createSessionTokens 7, .refreshAccessToken (some ⟨some 7, .refresh, some 0⟩),
    .refreshAccessToken (some ⟨some 7, .refresh, some 0⟩), .refreshAccessToken (some ⟨some 7, .refresh, some 0⟩)]

/-- Both refreshes find the session usable and start their claims before either has claimed it. -/
def raceEvents : List (Event 4) :=
  [.next 0 0 0, .next 0 0 0, .next 0 0 0, .next 1 1 0, .next 2 1 0, .next 1 1 0, .next 2 1 0, .next 1 1 1, .next 2 1 2,
    .next 1 2 0, .next 2 2 0, .row 1 0, .next 1 2 0, .next 1 2 0, .row 2 0, .next 2 3 0, .next 3 4 0, .next 3 4 0,
    .row 3 0, .row 3 1, .next 3 4 0]

theorem one_usable_per_chain_race : ∃ s', run (step 100) (State.init raceCalls) raceEvents = some s' ∧
    s'.procs 1 = .done (.tokens 0 1) ∧ s'.procs 2 = .done .refused ∧ s'.procs 3 = .done (.replayed 7 0) ∧
    (∀ now k k' v v', s'.sessions.committed k = some v → s'.sessions.committed k' = some v' →
      v.isUsable now = true → v'.isUsable now = true → v.chainId = v'.chainId → k = k') ∧
    ∀ k t t', (k, t) ∈ s'.setBy → (k, t') ∈ s'.setBy → t = t' := by
  have hrun : ((run (step 100) (State.init raceCalls) raceEvents).map fun s' => (s'.procs 1, s'.procs 2, s'.procs 3)) =
      some (.done (.tokens 0 1), .done .refused, .done (.replayed 7 0)) := by decide +kernel
  obtain ⟨s', h, hp⟩ := Option.map_eq_some_iff.mp hrun
  simp only [Prod.mk.injEq] at hp
  exact ⟨s', h, hp.1, hp.2.1, hp.2.2, one_usable_per_chain (start_init raceCalls) h⟩

end Runs

end LinkShortener.Sessions
