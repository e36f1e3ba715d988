import LinkShortener.Sessions.Safety

/-!
# A revoked chain

`revoke_chain` is one `UPDATE`, and the rows it works on are those its snapshot has found. A rotation that had inserted
its successor and commits after the snapshot leaves a live session in a chain whose revocation then commits
(`revoked_chain_revived`).

That order is the only way: in a run where no rotation of a chain commits while a revocation of it is under way
(`Undisturbed`), a chain stays dead once its revocation has committed (`revoked_chain_dead`). The invariant is that a
revocation under way has revoked, or still has before it, every live session of its chain (`Covers`).
-/

namespace LinkShortener.Sessions

open ReadCommitted Runs

/-! ## The invariant -/

namespace Proc

/-- The call is a login. -/
def logsIn : Proc → Bool
  | .ready (.createSessionTokens _) | .opening .. | .opened _ => true
  | _ => false

/-- The chain whose revocation is under way. -/
def revokes : Proc → Option Uuid
  | .revoking chain .. => some chain
  | _ => none

end Proc

section Invariant

variable {n : Nat}

/-- A revocation under way has written, or still has before it, every live session of its chain. -/
def Covers (S : Table n) (j : Fin n) : Proc → Prop
  | .revoking chain _ _ todo _ =>
    ∀ k v, S.committed k = some v → v.chainId = chain → v.revokedAt = none → k ∈ todo ∨ S.dirtyBy j k ≠ none
  | _ => True

/-- No session of the chain is live. -/
def Dead (S : Table n) (chain : Uuid) : Prop :=
  ∀ k v, S.committed k = some v → v.chainId = chain → v.revokedAt ≠ none

/-- The invariant, for runs without logins. -/
structure RevInv (s : State n) : Prop where
  inv : Inv s
  dead : ∀ c ∈ s.revoked, Dead s.sessions c
  covers : ∀ j, Covers s.sessions j (s.procs j)
  calls : ∀ i, (s.procs i).logsIn = false

/-- The condition: a rotation commits only while no revocation of its chain is under way. -/
def Undisturbed (s : State n) : Event n → Prop
  | .next i _ _ => match s.procs i with
    | .rotated _ _ session => ∀ j, (s.procs j).revokes ≠ some session.chainId
    | _ => True
  | _ => True

instance (s : State n) (e : Event n) : Decidable (Undisturbed s e) := by
  unfold Undisturbed
  split
  · split <;> infer_instance
  · infer_instance

theorem covers_of_revokes {S : Table n} {j : Fin n} {p : Proc} (h : p.revokes = none) : Covers S j p := by
  cases p with
  | revoking => simp [Proc.revokes] at h
  | _ => trivial

theorem Covers.mono {S S' : Table n} {j : Fin n} {p : Proc} (h : Covers S j p)
    (hc : ∀ k, S'.committed k = S.committed k) (hd : ∀ k, S'.dirtyBy j k = S.dirtyBy j k) : Covers S' j p := by
  cases p with
  | revoking chain why now todo revoked =>
    intro k v hv
    rw [hc] at hv
    rw [hd]
    exact h k v hv
  | _ => trivial

/-- Steps that commit nothing. -/
theorem RevInv.goes {s s' : State n} (h : RevInv s) {i : Fin n} {p : Proc} (hg : Goes s s' i p) (hinv : Inv s')
    (hc : Covers s'.sessions i p) (hl : p.logsIn = false) : RevInv s' where
  inv := hinv
  dead c hcr k v hv := by
    rw [hg.revoked] at hcr
    rw [hg.committed] at hv
    exact h.dead c hcr k v hv
  covers j := by
    rw [hg.procs]
    by_cases hj : j = i
    · rw [hj, Function.update_self]
      exact hc
    · rw [Function.update_of_ne hj]
      exact (h.covers j).mono hg.committed (hg.dirtyBy j hj)
  calls j := by
    rw [hg.procs]
    by_cases hj : j = i
    · rw [hj, Function.update_self]
      exact hl
    · rw [Function.update_of_ne hj]
      exact h.calls j

/-! ## Commit -/

section Commit

variable {s : State n} {i : Fin n}

/-- A row that is live after the commit of `i` was live before, in the same chain, or is the successor that `i` has
inserted in the chain of a live session. -/
theorem live_commit (h : RevInv s) {k : Uuid} {v : RefreshSession} (hv : (s.sessions.commit i).committed k = some v)
    (hlive : v.revokedAt = none) :
    (∃ v₀, s.sessions.committed k = some v₀ ∧ v₀.chainId = v.chainId ∧ v₀.revokedAt = none) ∨
    ∃ jti new session v₀, s.procs i = .rotated jti new session ∧ session.chainId = v.chainId ∧
      s.sessions.committed jti = some v₀ ∧ v₀.chainId = v.chainId ∧ v₀.revokedAt = none := by
  rw [Store.committed_commit] at hv
  cases hw : s.sessions.dirtyBy i k with
  | none =>
    rw [hw] at hv
    exact .inl ⟨v, hv, rfl, hlive⟩
  | some w =>
    rw [hw, Option.getD_some] at hv
    have hwr := (h.inv.procs i).written hw
    rcases Proc.writes_cases hwr with ⟨-, hnone, -⟩ | ⟨v₀, hv₀, hret⟩
    · have hnl := h.calls i
      cases hp : s.procs i with
      | rotated jti new session =>
        rw [hp] at hwr
        obtain ⟨-, v₁, hv₁, -⟩ | ⟨-, -, v₁, rfl, hch, -⟩ := hwr
        · rw [hnone] at hv₁
          simp at hv₁
        · cases hv
          obtain ⟨v₀, -, -, hv₀, hs⟩ := (h.inv.procs i).claimed (k := jti) (by rw [hp]; rfl)
          have hread : (s.procs i).read = some (jti, session) := by rw [hp]; rfl
          have hch₀ := (h.inv.procs i).read_chain hread hv₀
          simp only [RefreshSession.spendable, Bool.and_eq_true, Option.isNone_iff_eq_none] at hs
          exact .inr ⟨jti, new, session, v₀, rfl, hch.symm, hv₀, hch₀.trans hch.symm, hs.1⟩
      | opened new => simp [hp, Proc.logsIn] at hnl
      | claiming =>
        rw [hp] at hwr
        obtain ⟨-, v₁, hv₁, -⟩ := hwr
        rw [hnone] at hv₁
        simp at hv₁
      | revoking =>
        rw [hp] at hwr
        obtain ⟨v₁, -, hv₁, -⟩ := hwr
        rw [hnone] at hv₁
        simp at hv₁
      | sweeping =>
        rw [hp] at hwr
        obtain ⟨v₁, hv₁, -⟩ := hwr
        rw [hnone] at hv₁
        simp at hv₁
      | _ => simp [hp, Proc.Writes] at hwr
    · refine .inl ⟨v₀, hv₀, ((hret v hv).1).symm, ?_⟩
      by_contra hr
      exact (hret v hv).2.2.2 hr hlive

/-- A dead chain stays dead over a commit. -/
theorem dead_commit (h : RevInv s) {c : Uuid} (hd : Dead s.sessions c) : Dead (s.sessions.commit i) c := by
  intro k v hv hc hlive
  rcases live_commit h hv hlive with ⟨v₀, hv₀, hch, hl₀⟩ | ⟨_, _, _, v₀, -, -, hv₀, hch, hl₀⟩
  · exact hd _ v₀ hv₀ (hch.trans hc) hl₀
  · exact hd _ v₀ hv₀ (hch.trans hc) hl₀

/-- A revocation that has come to all its rows kills its chain. -/
theorem dead_of_revoking (h : RevInv s) {chain : Uuid} {why : Revoker} {now : Instant} {revoked : Nat}
    (hp : s.procs i = .revoking chain why now [] revoked) : Dead (s.sessions.commit i) chain := by
  intro k v hv hc hlive
  have hcov := h.covers i
  rw [hp] at hcov
  rcases live_commit h hv hlive with ⟨v₀, hv₀, hch, hl₀⟩ | ⟨_, _, _, _, hp', -⟩
  · rcases hcov k v₀ hv₀ (hch.trans hc) hl₀ with hm | hd
    · simp at hm
    · obtain ⟨w, hw⟩ := Option.ne_none_iff_exists'.mp hd
      have hwr := (h.inv.procs i).written hw
      rw [hp] at hwr
      obtain ⟨v₁, now', -, -, rfl⟩ := hwr
      rw [Store.committed_commit, hw] at hv
      cases hv
      simp at hlive
  · rw [hp] at hp'
    simp at hp'

theorem covers_commit (h : RevInv s) {j : Fin n} (hj : j ≠ i)
    (hund : ∀ jti new session, s.procs i = .rotated jti new session → (s.procs j).revokes ≠ some session.chainId) :
    Covers (s.sessions.commit i) j (s.procs j) := by
  cases hp : s.procs j with
  | revoking chain why now todo revoked =>
    intro k v hv hc hlive
    have hcov := h.covers j
    rw [hp] at hcov
    rw [Store.dirtyBy_commit_ne hj]
    rcases live_commit h hv hlive with ⟨v₀, hv₀, hch, hl₀⟩ | ⟨jti, new, session, _, hp', hch, -⟩
    · exact hcov k v₀ hv₀ (hch.trans hc) hl₀
    · refine absurd ?_ (hund jti new session hp')
      rw [hp, hch, hc]
      rfl
  | _ => trivial

/-- Commit. -/
theorem RevInv.commit (h : RevInv s) {s' : State n} {o : Outcome} (hinv : Inv s')
    (hprocs : s'.procs = Function.update s.procs i (.done o)) (hS : s'.sessions = s.sessions.commit i)
    (hdead : ∀ c ∈ s'.revoked, c ∈ s.revoked ∨ Dead (s.sessions.commit i) c)
    (hund : ∀ jti new session, s.procs i = .rotated jti new session →
      ∀ j, (s.procs j).revokes ≠ some session.chainId) : RevInv s' where
  inv := hinv
  dead c hc := by
    rw [hS]
    rcases hdead c hc with hold | hnew
    · exact dead_commit h (h.dead c hold)
    · exact hnew
  covers j := by
    rw [hprocs, hS]
    by_cases hj : j = i
    · rw [hj, Function.update_self]
      trivial
    · rw [Function.update_of_ne hj]
      exact covers_commit h hj fun jti new session hp => hund jti new session hp j
  calls j := by
    rw [hprocs]
    by_cases hj : j = i
    · rw [hj, Function.update_self]
      rfl
    · rw [Function.update_of_ne hj]
      exact h.calls j

end Commit

/-! ## The step lemma -/

section Step

variable {refreshExpire : Int} {s s' : State n} {i : Fin n} {now : Instant} {fresh : Uuid}

/-- The call goes on at a point that is not a revocation under way. -/
theorem RevInv.goto (h : RevInv s) {p : Proc} (hinv : Inv (s.goto i p)) (hr : p.revokes = none)
    (hl : p.logsIn = false) : RevInv (s.goto i p) :=
  h.goes (goes_goto s i p) hinv (covers_of_revokes hr) hl

theorem RevInv.rollback (h : RevInv s) (o : Outcome) : RevInv (s.rollback i o) :=
  h.goes (goes_rollback s i o) (h.inv.rollback o) trivial rfl

/-- The snapshot of a revocation has every live session of the chain. -/
theorem covers_targets (h : RevInv s) (hw : ∀ {k old w}, ¬ (s.procs i).Writes k old w) (chain : Uuid) (why : Revoker) :
    Covers s.sessions i (.revoking chain why now (s.sessions.targets i (revokeChain chain now)) 0) := by
  intro k v hv hc hlive
  refine .inl (Store.mem_targets.mpr ⟨Store.mem_keys_of_committed hv, v, ?_, ?_⟩)
  · rw [Store.view_of_clean (h.inv.clean hw k), hv]
  · simp [revokeChain, hc, hlive]

/-- A refresh that has looked its session up revokes nothing yet. -/
theorem refreshFound_eq (s : State n) (i : Fin n) (userId jti : Uuid) (now : Instant) (found : Option RefreshSession) :
    ∃ p, refreshFound s i userId jti now found = s.goto i p ∧ p.revokes = none ∧ p.logsIn = false := by
  unfold refreshFound
  split
  · exact ⟨_, rfl, rfl, rfl⟩
  · split
    · exact ⟨_, rfl, rfl, rfl⟩
    · split
      · exact ⟨_, rfl, rfl, rfl⟩
      · split <;> exact ⟨_, rfl, rfl, rfl⟩

theorem begin_rev (h : RevInv s) {call : Call} (hp : s.procs i = .ready call) (hinv : Inv s')
    (hs : begin refreshExpire s i now fresh call = some s') : RevInv s' := by
  cases call with
  | createSessionTokens userId =>
    have hnl := h.calls i
    simp [hp, Proc.logsIn] at hnl
  | refreshAccessToken token =>
    simp only [begin] at hs
    split at hs <;> cases hs
    · obtain ⟨p, he, hr, hl⟩ := refreshFound_eq s i _ _ now _
      rw [he] at hinv ⊢
      exact h.goto hinv hr hl
    · exact h.goto hinv rfl rfl
  | revokeRefreshToken token =>
    simp only [begin] at hs
    split at hs
    · split at hs
      · split at hs <;> cases hs <;> exact h.goto hinv rfl rfl
      · cases hs
        exact h.goto hinv rfl rfl
    · cases hs
      exact h.goto hinv rfl rfl
  | revokeSessionChain chain =>
    cases hs
    exact h.goes (goes_goto s i _) hinv (covers_targets h (by simp [hp, Proc.Writes]) chain _) rfl
  | deleteExpired =>
    cases hs
    exact h.goto hinv rfl rfl

theorem next_rev (h : RevInv s) (hund : Undisturbed s (.next i now fresh)) (hinv : Inv s')
    (hs : next refreshExpire s i now fresh (s.procs i) = some s') : RevInv s' := by
  have hnl := h.calls i
  cases hp : s.procs i with
  | ready call =>
    rw [hp] at hs
    exact begin_rev h hp hinv hs
  | opening => simp [hp, Proc.logsIn] at hnl
  | opened => simp [hp, Proc.logsIn] at hnl
  | loading userId jti session =>
    rw [hp] at hs
    simp only [next] at hs
    split at hs
    · split at hs <;> cases hs <;> exact h.goto hinv rfl rfl
    · cases hs
      exact h.goto hinv rfl rfl
  | minting jti session =>
    rw [hp] at hs
    simp only [next] at hs
    split at hs
    · simp at hs
    · cases hs
      exact h.goes (goes_mint s i _ fresh) hinv trivial rfl
  | toClaim jti new session expiresAt =>
    rw [hp] at hs
    cases hs
    exact h.goto hinv rfl rfl
  | claiming jti new session expiresAt now' todo claimed =>
    rw [hp] at hs
    cases todo with
    | cons k todo => simp [next] at hs
    | nil =>
      simp only [next] at hs
      split at hs <;> cases hs
      · rcases insert_cases s i new
          (.create session.userId new expiresAt now (some session.chainId)) (.rotated jti new session) with
          ⟨-, -, hfree, he⟩ | he
        · rw [he] at hinv ⊢
          exact h.goes (goes_put _ hfree _) hinv trivial rfl
        · rw [he]
          exact h.rollback _
      · exact h.rollback _
  | rotated jti new session =>
    rw [hp] at hs
    cases hs
    refine h.commit hinv rfl rfl (fun c hc => .inl hc) ?_
    intro jti' new' session' hp' j
    simp only [Undisturbed, hp'] at hund
    exact hund j
  | toRevoke chain why =>
    rw [hp] at hs
    cases hs
    exact h.goes (goes_goto s i _) hinv (covers_targets h (by simp [hp, Proc.Writes]) chain why) rfl
  | revoking chain why now' todo revoked =>
    rw [hp] at hs
    cases todo with
    | cons k todo => simp [next] at hs
    | nil =>
      cases hs
      refine h.commit hinv rfl rfl ?_ (by simp [hp])
      intro c hc
      rcases List.mem_cons.mp hc with rfl | hc
      · exact .inr (dead_of_revoking h hp)
      · exact .inl hc
  | sweeping now' todo deleted =>
    rw [hp] at hs
    cases todo with
    | cons k todo => simp [next] at hs
    | nil =>
      cases hs
      exact h.commit hinv rfl rfl (fun c hc => .inl hc) (by simp [hp])
  | done o => simp [hp, next] at hs

/-- A statement's work on a row commits nothing. -/
theorem goes_exec (p : Proc) {k : Uuid} (hf : s.sessions.free i k = true)
    (u : Stmt fun _ : Uuid => RefreshSession) : Goes s { s.goto i p with sessions := s.sessions.exec i u k } i p := by
  rcases Store.exec_cases s.sessions i u k with ⟨v, -, -, he, -⟩ | ⟨he, -⟩
  · rw [he]
    exact goes_put p hf _
  · rw [he]
    exact goes_goto s i p

/-- Working on a row keeps the live sessions of the chain covered: the row has been revoked, or was not live. -/
theorem covers_exec (h : RevInv s) {chain : Uuid} {why : Revoker} {now : Instant} {todo : List Uuid}
    {revoked : Nat} (hp : s.procs i = .revoking chain why now todo revoked) {k : Uuid} (c : Nat) :
    Covers (s.sessions.exec i (revokeChain chain now) k) i (.revoking chain why now (todo.erase k) (revoked + c)) := by
  have hcov := h.covers i
  rw [hp] at hcov
  intro k' v hv hc hlive
  rcases Store.exec_cases s.sessions i (revokeChain chain now) k with ⟨v₁, -, -, he, -⟩ | ⟨he, hno⟩
  · rw [he] at hv ⊢
    rw [Store.committed_put] at hv
    by_cases hk : k' = k
    · subst hk
      exact .inr (by simp)
    · rw [Store.dirtyBy_put_of_ne hk, List.mem_erase_of_ne hk]
      exact hcov k' v hv hc hlive
  · rw [he] at hv ⊢
    by_cases hk : k' = k
    · subst hk
      right
      intro hclean
      simp [Store.matchesNow, Store.view_of_clean hclean, hv, revokeChain, hc, hlive] at hno
    · rw [List.mem_erase_of_ne hk]
      exact hcov k' v hv hc hlive

theorem row_rev (h : RevInv s) {k : Uuid} (hinv : Inv s') (hs : row s i k (s.procs i) = some s') : RevInv s' := by
  cases hp : s.procs i with
  | claiming jti new session expiresAt now' todo claimed =>
    simp only [hp, row] at hs
    split at hs <;> cases hs
    rename_i hk
    exact h.goes (goes_exec _ hk.2 _) hinv trivial rfl
  | revoking chain why now' todo revoked =>
    simp only [hp, row] at hs
    split at hs <;> cases hs
    rename_i hk
    exact h.goes (goes_exec _ hk.2 _) hinv (covers_exec h hp _) rfl
  | sweeping now' todo deleted =>
    simp only [hp, row] at hs
    split at hs <;> cases hs
    rename_i hk
    exact h.goes (goes_exec _ hk.2 _) hinv trivial rfl
  | _ => simp [hp, row] at hs

/-- **Every undisturbed step keeps the invariant.** -/
theorem step_rev {e : Event n} (hund : Undisturbed s e) (hs : step refreshExpire s e = some s') (h : RevInv s) :
    RevInv s' := by
  have hinv := step_inv hs h.inv
  cases e with
  | next i now fresh => exact next_rev h hund hinv hs
  | row i k => exact row_rev h hinv hs
  | fail i =>
    simp only [step] at hs
    split at hs
    · simp at hs
    · cases hs
      exact h.rollback _
  | account u a =>
    cases hs
    exact ⟨hinv, h.dead, h.covers, h.calls⟩

end Step

end Invariant

/-! ## Whole runs -/

section Runs

variable {n : Nat} {refreshExpire : Int}

/-- The calls are refreshes, logouts and sweeps of an existing table. -/
structure StartRevoking (s : State n) : Prop extends Start s where
  calls : ∀ i, (s.procs i).logsIn = false

theorem StartRevoking.revInv {s : State n} (h : StartRevoking s) : RevInv s where
  inv := h.toStart.inv
  dead c hc := by simp [h.revoked] at hc
  covers j := by
    obtain ⟨call, hp⟩ := h.ready j
    rw [hp]
    trivial
  calls := h.calls

/-- **A revoked chain stays dead** in every run in which no rotation of a chain commits while a revocation of it is
under way: no session of the chain is usable, and the chain is not live. -/
theorem revoked_chain_dead {s s' : State n} {es : List (Event n)} (h₀ : StartRevoking s)
    (hund : Meets (step refreshExpire) Undisturbed s es) (h : run (step refreshExpire) s es = some s') :
    ∀ chain ∈ s'.revoked, ∀ now,
      (∀ k v, s'.sessions.committed k = some v → v.chainId = chain → v.isUsable now = false) ∧
      chainIsLive s'.sessions chain now = false := by
  have hinv : RevInv s' := run_inv_of_meets step_rev hund h h₀.revInv
  intro chain hc now
  have hdead : Dead s'.sessions chain := hinv.dead chain hc
  refine ⟨?_, ?_⟩
  · intro k v hv hch
    have hr := hdead k v hv hch
    simp [RefreshSession.isUsable, hr]
  · simp only [chainIsLive, List.any_eq_false, Bool.not_eq_true]
    intro k _
    cases hv : s'.sessions.committed k with
    | none => rfl
    | some v =>
      by_cases hch : v.chainId = chain
      · simp [hdead k v hv hch]
      · simp [hch]

/-- One live session, chain and token 0 of account 7. -/
def oneSession (calls : Fin n → Call) : State n :=
  { State.init calls with
    sessions := Store.load [0] (List.nodup_singleton 0) fun _ => some (.create 7 0 100 0 none)
    used := [0] }

theorem start_oneSession (calls : Fin n → Call) : Start (oneSession calls) where
  ready i := ⟨calls i, rfl⟩
  clean i k := Store.dirtyBy_load i k
  rows_used {k v} h := by
    simp only [oneSession, Store.committed_load, List.mem_singleton] at h ⊢
    split at h <;> cases h
    rename_i hk
    exact ⟨hk, rfl⟩
  one_spendable {k k' v v'} h h' _ _ _ := by
    simp only [oneSession, Store.committed_load, List.mem_singleton] at h h'
    split at h <;> cases h
    split at h' <;> cases h'
    simp_all
  setBy := rfl
  revoked := rfl

/-- A refresh of the token and a logout that names the chain. -/
def logoutCalls : Fin 2 → Call :=
  ![.refreshAccessToken (some ⟨some 7, .refresh, some 0⟩), .revokeSessionChain 0]

theorem start_logout : StartRevoking (oneSession logoutCalls) where
  toStart := start_oneSession _
  calls := by decide

/-- The logout starts when the rotation has committed. -/
def logoutAfter : List (Event 2) :=
  [.next 0 1 0, .next 0 1 0, .next 0 1 1, .next 0 1 0, .row 0 0, .next 0 1 0, .next 0 1 0, .next 1 2 0, .row 1 0,
    .row 1 1, .next 1 2 0]

theorem revoked_chain_dead_logoutAfter : ∃ s', run (step 100) (oneSession logoutCalls) logoutAfter = some s' ∧
    s'.procs 0 = .done (.tokens 0 1) ∧ s'.procs 1 = .done (.count 2) ∧ chainIsLive s'.sessions 0 3 = false := by
  have hrun : ((run (step 100) (oneSession logoutCalls) logoutAfter).map fun s' =>
      (s'.procs 0, s'.procs 1, s'.revoked)) = some (.done (.tokens 0 1), .done (.count 2), [0]) := by decide +kernel
  obtain ⟨s', h, hp⟩ := Option.map_eq_some_iff.mp hrun
  simp only [Prod.mk.injEq] at hp
  exact ⟨s', h, hp.1, hp.2.1, (revoked_chain_dead start_logout (by decide +kernel) h 0 (by simp [hp.2.2]) 3).2⟩

/-- The logout takes its snapshot when the successor is inserted and not committed, and comes to the claimed row when
the rotation has committed. -/
def logoutBetween : List (Event 2) :=
  [.next 0 1 0, .next 0 1 0, .next 0 1 1, .next 0 1 0, .row 0 0, .next 0 1 0, .next 1 2 0, .next 0 1 0, .row 1 0,
    .next 1 2 0]

/-- **The revoked chain lives on**: the logout has revoked the chain and everything is over, but the successor is
usable. -/
theorem revoked_chain_revived : ∃ s', StartRevoking (oneSession logoutCalls) ∧
    run (step 100) (oneSession logoutCalls) logoutBetween = some s' ∧
    s'.procs 0 = .done (.tokens 0 1) ∧ s'.procs 1 = .done (.count 1) ∧ 0 ∈ s'.revoked ∧
    (∃ v, s'.sessions.committed 1 = some v ∧ v.chainId = 0 ∧ v.isUsable 3 = true) ∧
    chainIsLive s'.sessions 0 3 = true := by
  have hrun : ((run (step 100) (oneSession logoutCalls) logoutBetween).map fun s' =>
      (s'.procs 0, s'.procs 1, s'.revoked, s'.sessions.committed 1, chainIsLive s'.sessions 0 3)) =
      some (.done (.tokens 0 1), .done (.count 1), [0], some (.create 7 1 101 1 (some 0)), true) := by decide +kernel
  obtain ⟨s', h, hp⟩ := Option.map_eq_some_iff.mp hrun
  simp only [Prod.mk.injEq] at hp
  obtain ⟨h₀, h₁, hr, hv, hl⟩ := hp
  exact ⟨s', start_logout, h, h₀, h₁, by simp [hr], ⟨_, hv, rfl, rfl⟩, hl⟩

end Runs

end LinkShortener.Sessions
