import LinkShortener.Sessions.Model

/-!
# The invariant of the session table

A chain never has two sessions that could both be spent. A successor that is inserted but not committed is covered
too: the call that inserted it holds the row it replaces (`ProcInv.claimed`), which is the one spendable session of the
chain until the commit swaps the two.

* `Proc.Writes`: what a call at a given point may have written. Either a new session under an identifier nobody else
  can use, or a version that takes an existing session out of use (`writes_cases`).
* `Inv`: the invariant. `Inv.commit` keeps it over a commit, `Inv.goes` over any other step; `Inv.goto`,
  `Inv.mint`, `Inv.put`, `Inv.insert`, `Inv.exec` and `Inv.rollback` are the ways a step changes the state.
-/

namespace LinkShortener.Sessions

open ReadCommitted

/-! ## What a call holds and has written -/

namespace Proc

/-- The identifier drawn for a session that is not committed yet. -/
def minted : Proc → Option Uuid
  | .opening _ new _ | .opened new | .toClaim _ new .. | .claiming _ new .. | .rotated _ new _ => some new
  | _ => none

/-- The chain a login is about to start. -/
def opens : Proc → Option Uuid
  | .opening _ new _ | .opened new => some new
  | _ => none

/-- The session a refresh has read, with its key. -/
def read : Proc → Option (Uuid × RefreshSession)
  | .loading _ jti session | .minting jti session | .toClaim jti _ session _ | .claiming jti _ session ..
  | .rotated jti _ session => some (jti, session)
  | _ => none

/-- The row a refresh has claimed. -/
def claimedRow : Proc → Option Uuid
  | .claiming jti _ _ _ _ _ claimed => if claimed = 0 then none else some jti
  | .rotated jti .. => some jti
  | _ => none

/-- The claim of `jti`: a spendable session of the chain, replaced by `new`. -/
def Claims (jti new chain k : Uuid) (old w : Option RefreshSession) : Prop :=
  k = jti ∧ ∃ v, old = some v ∧ v.spendable = true ∧ v.chainId = chain ∧ w = some { v with replacedBy := some new }

/-- A new session of the chain. -/
def Inserts (new chain k : Uuid) (old w : Option RefreshSession) : Prop :=
  k = new ∧ old = none ∧ ∃ v, w = some v ∧ v.chainId = chain ∧ v.replacedBy = none

/-- What a call at this point may have written in row `k`, over the committed version `old`. -/
def Writes (k : Uuid) (old w : Option RefreshSession) : Proc → Prop
  | .opened new => Inserts new new k old w
  | .claiming jti new session .. => Claims jti new session.chainId k old w
  | .rotated jti new session => Claims jti new session.chainId k old w ∨ Inserts new session.chainId k old w
  | .revoking chain .. =>
    ∃ v now, old = some v ∧ v.chainId = chain ∧ w = some { v with revokedAt := some now }
  | .sweeping .. => ∃ v, old = some v ∧ w = none
  | _ => False

/-- A version that takes the session `v` out of use. -/
def Retires (v : RefreshSession) (w : Option RefreshSession) : Prop :=
  ∀ v', w = some v' → v'.chainId = v.chainId ∧ v'.spendable = false ∧
    (v'.replacedBy = v.replacedBy ∨ v.replacedBy = none) ∧ (v.revokedAt ≠ none → v'.revokedAt ≠ none)

/-- **Every write** inserts the session the call drew an identifier for, or takes an existing session out of use. -/
theorem writes_cases {p : Proc} {k : Uuid} {old w : Option RefreshSession} (h : p.Writes k old w) :
    (p.minted = some k ∧ old = none ∧ ∃ v, w = some v ∧ v.replacedBy = none ∧
      (p.opens = some v.chainId ∨
        ∃ jti session, p.claimedRow = some jti ∧ p.read = some (jti, session) ∧ v.chainId = session.chainId)) ∨
    ∃ v, old = some v ∧ Retires v w := by
  have of_claims : ∀ {jti new chain}, Claims jti new chain k old w → ∃ v, old = some v ∧ Retires v w := by
    rintro _ new _ ⟨-, v, hv, hs, -, rfl⟩
    refine ⟨v, hv, ?_⟩
    rintro v' ⟨⟩
    simp only [RefreshSession.spendable, Bool.and_eq_true, Option.isNone_iff_eq_none] at hs
    exact ⟨rfl, by simp [RefreshSession.spendable], .inr hs.2, fun hr => hr⟩
  cases p with
  | opened new =>
    obtain ⟨rfl, ho, v, hw, hc, hr⟩ := h
    exact .inl ⟨rfl, ho, v, hw, hr, .inl (by rw [hc]; rfl)⟩
  | claiming => exact .inr (of_claims h)
  | rotated jti new session =>
    obtain h | ⟨rfl, ho, v, hw, hc, hr⟩ := h
    · exact .inr (of_claims h)
    · exact .inl ⟨rfl, ho, v, hw, hr, .inr ⟨jti, session, rfl, rfl, hc⟩⟩
  | revoking chain =>
    obtain ⟨v, now, hv, -, rfl⟩ := h
    refine .inr ⟨v, hv, ?_⟩
    rintro v' ⟨⟩
    exact ⟨rfl, by simp [RefreshSession.spendable], .inl rfl, by simp⟩
  | sweeping =>
    obtain ⟨v, hv, rfl⟩ := h
    exact .inr ⟨v, hv, by rintro v' ⟨⟩⟩
  | _ => exact h.elim

/-- A login's chain is named after the identifier it drew. -/
theorem minted_of_opens {p : Proc} {c : Uuid} (h : p.opens = some c) : p.minted = some c := by
  cases p <;> simp_all [opens, minted]

end Proc

/-! ## The invariant -/

section Invariant

variable {n : Nat}

/-- What holds of a call at point `p`, in terms of the table and the identifiers handed out. -/
structure ProcInv (S : Table n) (used : List Uuid) (i : Fin n) (p : Proc) : Prop where
  written : ∀ {k w}, S.dirtyBy i k = some w → p.Writes k (S.committed k) w
  claimed : ∀ {k}, p.claimedRow = some k → ∃ v w, S.dirtyBy i k = some w ∧ S.committed k = some v ∧ v.spendable = true
  minted : ∀ {k}, p.minted = some k → k ∈ used ∧ S.committed k = none
  opens : ∀ {c k v}, p.opens = some c → S.committed k = some v → v.chainId ≠ c
  read_chain : ∀ {jti session v}, p.read = some (jti, session) → S.committed jti = some v →
    v.chainId = session.chainId

/-- The identifier has been handed out and nobody is about to insert a session under it. -/
def Settled (s : State n) (k : Uuid) : Prop := k ∈ s.used ∧ ∀ t, (s.procs t).minted ≠ some k

/-- **The invariant.** -/
structure Inv (s : State n) : Prop where
  rows_used : ∀ {k v}, s.sessions.committed k = some v → k ∈ s.used ∧ v.chainId ∈ s.used
  one_spendable : ∀ {k k' v v'}, s.sessions.committed k = some v → s.sessions.committed k' = some v' →
    v.spendable = true → v'.spendable = true → v.chainId = v'.chainId → k = k'
  procs : ∀ t, ProcInv s.sessions s.used t (s.procs t)
  minted_inj : ∀ {t t' k}, (s.procs t).minted = some k → (s.procs t').minted = some k → t = t'
  read_settled : ∀ {t jti session}, (s.procs t).read = some (jti, session) → Settled s jti
  set_settled : ∀ {k t}, (k, t) ∈ s.setBy → Settled s k
  set_replaced : ∀ {k t v}, (k, t) ∈ s.setBy → s.sessions.committed k = some v → v.replacedBy ≠ none
  set_once : ∀ {k t t'}, (k, t) ∈ s.setBy → (k, t') ∈ s.setBy → t = t'

/-- A committed session's identifier is settled. -/
theorem Inv.settled_of_committed {s : State n} (h : Inv s) {k : Uuid} {v : RefreshSession}
    (hv : s.sessions.committed k = some v) : Settled s k := by
  refine ⟨(h.rows_used hv).1, fun t ht => ?_⟩
  rw [((h.procs t).minted ht).2] at hv
  simp at hv

/-- A call that has written nothing and draws nothing. -/
theorem ProcInv.of_clean {S : Table n} {used : List Uuid} {i : Fin n} {p : Proc}
    (hw : ∀ k, S.dirtyBy i k = none) (hc : p.claimedRow = none) (hm : p.minted = none)
    (hr : ∀ {jti session v}, p.read = some (jti, session) → S.committed jti = some v → v.chainId = session.chainId) :
    ProcInv S used i p where
  written h := by simp [hw] at h
  claimed h := by simp [hc] at h
  minted h := by simp [hm] at h
  opens h := by
    have := Proc.minted_of_opens h
    simp [hm] at this
  read_chain := hr

/-- What holds of a call does not depend on what other calls do, as long as they commit nothing. -/
theorem ProcInv.mono {S S' : Table n} {used used' : List Uuid} {t : Fin n} {p : Proc} (h : ProcInv S used t p)
    (hc : ∀ k, S'.committed k = S.committed k) (hd : ∀ k, S'.dirtyBy t k = S.dirtyBy t k)
    (hu : ∀ k ∈ used, k ∈ used') : ProcInv S' used' t p where
  written hw := by
    rw [hd] at hw
    rw [hc]
    exact h.written hw
  claimed hk := by
    rw [hd, hc]
    exact h.claimed hk
  minted hk := by
    rw [hc]
    exact ⟨hu _ (h.minted hk).1, (h.minted hk).2⟩
  opens ho hv := by
    rw [hc] at hv
    exact h.opens ho hv
  read_chain hr hv := by
    rw [hc] at hv
    exact h.read_chain hr hv

/-- A step of call `i` that commits nothing: it goes on at `p`, and has drawn identifiers or written rows that nobody
else holds. -/
structure Goes (s s' : State n) (i : Fin n) (p : Proc) : Prop where
  procs : s'.procs = Function.update s.procs i p
  committed : ∀ k, s'.sessions.committed k = s.sessions.committed k
  dirtyBy : ∀ t, t ≠ i → ∀ k, s'.sessions.dirtyBy t k = s.sessions.dirtyBy t k
  used : ∀ k ∈ s.used, k ∈ s'.used
  setBy : s'.setBy = s.setBy
  revoked : s'.revoked = s.revoked

/-- **Steps that commit nothing.** -/
theorem Inv.goes {s s' : State n} (h : Inv s) {i : Fin n} {p : Proc} (hg : Goes s s' i p)
    (hp : ProcInv s'.sessions s'.used i p) (hm : ∀ k, p.minted = some k → (s.procs i).minted = some k ∨ k ∉ s.used)
    (hr : ∀ {jti session}, p.read = some (jti, session) → Settled s jti) : Inv s' := by
  obtain ⟨hprocs, hc, hd, hu, hset, -⟩ := hg
  have hpi : s'.procs i = p := by rw [hprocs, Function.update_self]
  have hpt : ∀ {t}, t ≠ i → s'.procs t = s.procs t := fun ht => by rw [hprocs, Function.update_of_ne ht]
  have settled : ∀ {k}, Settled s k → Settled s' k := by
    intro k hk
    refine ⟨hu k hk.1, fun t ht => ?_⟩
    by_cases hti : t = i
    · subst hti
      rw [hpi] at ht
      rcases hm k ht with h' | h'
      · exact hk.2 t h'
      · exact h' hk.1
    · rw [hpt hti] at ht
      exact hk.2 t ht
  -- An identifier that `p` has drawn belongs to no other call.
  have own : ∀ {t k}, p.minted = some k → t ≠ i → (s.procs t).minted ≠ some k := by
    intro t k hk hti ht
    rcases hm k hk with h' | h'
    · exact hti (h.minted_inj ht h')
    · exact h' ((h.procs t).minted ht).1
  refine ⟨?_, ?_, ?_, ?_, ?_, ?_, ?_, ?_⟩
  · intro k v hv
    rw [hc] at hv
    exact ⟨hu _ (h.rows_used hv).1, hu _ (h.rows_used hv).2⟩
  · intro k k' v v' hv hv'
    rw [hc] at hv hv'
    exact h.one_spendable hv hv'
  · intro t
    by_cases hti : t = i
    · rw [hti, hpi]
      exact hp
    · rw [hpt hti]
      exact (h.procs t).mono hc (hd t hti) hu
  · intro t t' k ht ht'
    by_cases hti : t = i <;> by_cases hti' : t' = i
    · rw [hti, hti']
    · rw [hti, hpi] at ht
      rw [hpt hti'] at ht'
      exact absurd ht' (own ht hti')
    · rw [hti', hpi] at ht'
      rw [hpt hti] at ht
      exact absurd ht (own ht' hti)
    · rw [hpt hti] at ht
      rw [hpt hti'] at ht'
      exact h.minted_inj ht ht'
  · intro t jti session ht
    by_cases hti : t = i
    · rw [hti, hpi] at ht
      exact settled (hr ht)
    · rw [hpt hti] at ht
      exact settled (h.read_settled ht)
  · intro k t hk
    rw [hset] at hk
    exact settled (h.set_settled hk)
  · intro k t v hk hv
    rw [hset] at hk
    rw [hc] at hv
    exact h.set_replaced hk hv
  · intro k t t' hk hk'
    rw [hset] at hk hk'
    exact h.set_once hk hk'

end Invariant

/-! ## Commit -/

section Commit

variable {n : Nat} {s : State n} {i : Fin n}

/-- What the commit of `i` makes of a row. -/
theorem committed_commit_cases (h : Inv s) (k : Uuid) :
    (s.sessions.commit i).committed k = s.sessions.committed k ∨
    (∃ v, (s.sessions.commit i).committed k = some v ∧ s.sessions.committed k = none ∧ v.replacedBy = none ∧
      (s.procs i).minted = some k ∧
      ((s.procs i).opens = some v.chainId ∨ ∃ jti v₀, (s.procs i).claimedRow = some jti ∧
        s.sessions.committed jti = some v₀ ∧ v₀.spendable = true ∧ v.chainId = v₀.chainId)) ∨
    ∃ v, s.sessions.committed k = some v ∧ Proc.Retires v ((s.sessions.commit i).committed k) := by
  rw [Store.committed_commit]
  cases hw : s.sessions.dirtyBy i k with
  | none => exact .inl rfl
  | some w =>
    rcases Proc.writes_cases ((h.procs i).written hw) with ⟨hm, ho, v, rfl, hr, hc⟩ | hret
    · refine .inr (.inl ⟨v, rfl, ho, hr, hm, ?_⟩)
      rcases hc with hc | ⟨jti, session, hcl, hread, hc⟩
      · exact .inl hc
      · obtain ⟨v₀, -, -, hv₀, hsp⟩ := (h.procs i).claimed hcl
        exact .inr ⟨jti, v₀, hcl, hv₀, hsp, hc.trans ((h.procs i).read_chain hread hv₀).symm⟩
    · exact .inr (.inr hret)

/-- A claimed row is out of use after the commit. -/
theorem claimed_retired (h : Inv s) {jti : Uuid} (hc : (s.procs i).claimedRow = some jti) {v : RefreshSession}
    (hv : (s.sessions.commit i).committed jti = some v) : v.spendable = false := by
  obtain ⟨v₀, w, hw, hv₀, -⟩ := (h.procs i).claimed hc
  rw [Store.committed_commit, hw] at hv
  rcases Proc.writes_cases ((h.procs i).written hw) with ⟨-, ho, -⟩ | ⟨v₁, -, hret⟩
  · rw [hv₀] at ho
    simp at ho
  · exact (hret v hv).2.1

/-- A row that is spendable after the commit was spendable before, or is the session inserted. -/
theorem spendable_commit (h : Inv s) {k : Uuid} {v : RefreshSession} (hv : (s.sessions.commit i).committed k = some v)
    (hs : v.spendable = true) : s.sessions.committed k = some v ∨ (s.procs i).minted = some k := by
  rcases committed_commit_cases (i := i) h k with hk | ⟨-, -, -, -, hm, -⟩ | ⟨v₀, -, hret⟩
  · exact .inl (hk ▸ hv)
  · exact .inr hm
  · rw [(hret v hv).2.1] at hs
    simp at hs

/-- The session inserted is the only spendable one of its chain. -/
theorem inserted_alone (h : Inv s) {k k' : Uuid} {v v' : RefreshSession} (hm : (s.procs i).minted = some k)
    (hv : (s.sessions.commit i).committed k = some v) (hv' : (s.sessions.commit i).committed k' = some v')
    (hold : s.sessions.committed k' = some v') (hs' : v'.spendable = true) : v.chainId ≠ v'.chainId := by
  have hnone := ((h.procs i).minted hm).2
  intro hc
  rcases committed_commit_cases (i := i) h k with hk | ⟨v₁, hv₁, -, -, -, hch⟩ | ⟨v₀, hv₀, -⟩
  · rw [hk, hnone] at hv
    simp at hv
  · rw [hv] at hv₁
    cases hv₁
    rcases hch with hch | ⟨jti, v₀, hcl, hv₀, hs₀, hch⟩
    · exact (h.procs i).opens hch hold hc.symm
    · have hk' : k' = jti := h.one_spendable hold hv₀ hs' hs₀ (hc.symm.trans hch)
      subst hk'
      rw [claimed_retired h hcl hv'] at hs'
      simp at hs'
  · rw [hnone] at hv₀
    simp at hv₀

theorem one_spendable_commit (h : Inv s) {k k' : Uuid} {v v' : RefreshSession}
    (hv : (s.sessions.commit i).committed k = some v) (hv' : (s.sessions.commit i).committed k' = some v')
    (hs : v.spendable = true) (hs' : v'.spendable = true) (hc : v.chainId = v'.chainId) : k = k' := by
  rcases spendable_commit h hv hs with hold | hm <;> rcases spendable_commit h hv' hs' with hold' | hm'
  · exact h.one_spendable hold hold' hs hs' hc
  · exact absurd hc.symm (inserted_alone h hm' hv' hv hold hs)
  · exact absurd hc (inserted_alone h hm hv hv' hold' hs')
  · exact Option.some.inj (hm.symm.trans hm')

/-- The other calls do not see the commit of `i` in what holds of them. -/
theorem ProcInv.commit (h : Inv s) {t : Fin n} (ht : t ≠ i) :
    ProcInv (s.sessions.commit i) s.used t (s.procs t) where
  written {k w} hw := by
    rw [Store.dirtyBy_commit_ne ht] at hw
    have hclean : s.sessions.dirtyBy i k = none := by
      cases hi : s.sessions.dirtyBy i k with
      | none => rfl
      | some w' => exact absurd (Store.dirtyBy_unique hw hi) ht
    rw [Store.committed_commit, hclean]
    exact (h.procs t).written hw
  claimed {k} hk := by
    obtain ⟨v, w, hw, hv, hs⟩ := (h.procs t).claimed hk
    have hclean : s.sessions.dirtyBy i k = none := by
      cases hi : s.sessions.dirtyBy i k with
      | none => rfl
      | some w' => exact absurd (Store.dirtyBy_unique hw hi) ht
    refine ⟨v, w, ?_, ?_, hs⟩
    · rw [Store.dirtyBy_commit_ne ht, hw]
    · rw [Store.committed_commit, hclean]
      exact hv
  minted {k} hk := by
    refine ⟨((h.procs t).minted hk).1, ?_⟩
    have hnone := ((h.procs t).minted hk).2
    rcases committed_commit_cases (i := i) h k with hk' | ⟨v, -, -, -, hm, -⟩ | ⟨v₀, hv₀, -⟩
    · rw [hk', hnone]
    · exact absurd (h.minted_inj hk hm) ht
    · rw [hnone] at hv₀
      simp at hv₀
  opens {c k v} ho hv := by
    rcases committed_commit_cases (i := i) h k with hk | ⟨v₁, hv₁, -, -, -, hch⟩ | ⟨v₀, hv₀, hret⟩
    · exact (h.procs t).opens ho (hk ▸ hv)
    · rw [hv] at hv₁
      cases hv₁
      rcases hch with hch | ⟨jti, v₀, -, hv₀, -, hch⟩
      · rintro rfl
        exact ht (h.minted_inj (Proc.minted_of_opens ho) (Proc.minted_of_opens hch))
      · rw [hch]
        exact (h.procs t).opens ho hv₀
    · rw [(hret v hv).1]
      exact (h.procs t).opens ho hv₀
  read_chain {jti session v} hr hv := by
    rcases committed_commit_cases (i := i) h jti with hk | ⟨v₁, -, -, -, hm, -⟩ | ⟨v₀, hv₀, hret⟩
    · exact (h.procs t).read_chain hr (hk ▸ hv)
    · exact absurd hm ((h.read_settled hr).2 i)
    · rw [(hret v hv).1]
      exact (h.procs t).read_chain hr hv₀

/-- A row whose `replaced_by` a commit sets: it was free to claim, and settled. -/
theorem rotations_spec (h : Inv s) {k : Uuid} (hk : k ∈ State.rotations s.sessions i) :
    Settled s k ∧ (∀ v, s.sessions.committed k = some v → v.replacedBy = none) ∧
      ∀ v, (s.sessions.commit i).committed k = some v → v.replacedBy ≠ none := by
  simp only [State.rotations, List.mem_filter] at hk
  obtain ⟨-, hk⟩ := hk
  split at hk
  · rename_i v' hw
    simp only [Bool.and_eq_true, Option.isSome_iff_ne_none, decide_eq_true_eq] at hk
    rcases Proc.writes_cases ((h.procs i).written hw) with ⟨-, -, v, hv, hr, -⟩ | ⟨v₀, hv₀, hret⟩
    · cases hv
      exact absurd hr hk.1
    · refine ⟨h.settled_of_committed hv₀, ?_, ?_⟩
      · intro v hv
        rw [hv₀] at hv hk
        cases hv
        rcases (hret v' rfl).2.2.1 with he | he
        · exact absurd he.symm hk.2
        · exact he
      · intro v hv
        rw [Store.committed_commit, hw] at hv
        cases hv
        exact hk.1
  · simp at hk

/-- **Commit.** -/
theorem Inv.commit (h : Inv s) {s' : State n} {o : Outcome} (hprocs : s'.procs = Function.update s.procs i (.done o))
    (hS : s'.sessions = s.sessions.commit i) (hused : s'.used = s.used)
    (hset : s'.setBy = (State.rotations s.sessions i).map (·, i) ++ s.setBy) : Inv s' := by
  have hpi : s'.procs i = .done o := by rw [hprocs, Function.update_self]
  have hpt : ∀ {t}, t ≠ i → s'.procs t = s.procs t := fun ht => by rw [hprocs, Function.update_of_ne ht]
  have minted : ∀ {t k}, (s'.procs t).minted = some k → t ≠ i ∧ (s.procs t).minted = some k := by
    intro t k ht
    by_cases hti : t = i
    · rw [hti, hpi] at ht
      simp [Proc.minted] at ht
    · rw [hpt hti] at ht
      exact ⟨hti, ht⟩
  have settled : ∀ {k}, Settled s k → Settled s' k := by
    intro k hk
    refine ⟨hused ▸ hk.1, fun t ht => hk.2 t (minted ht).2⟩
  have mem_setBy : ∀ {k t}, (k, t) ∈ s'.setBy → (k ∈ State.rotations s.sessions i ∧ t = i) ∨ (k, t) ∈ s.setBy := by
    intro k t hk
    simpa [hset, eq_comm] using hk
  -- The row of an earlier rotation is not rotated again.
  have once : ∀ {k t}, k ∈ State.rotations s.sessions i → (k, t) ∉ s.setBy := by
    intro k t hk hkt
    obtain ⟨-, hfree, -⟩ := rotations_spec h hk
    simp only [State.rotations, List.mem_filter] at hk
    obtain ⟨-, hk⟩ := hk
    split at hk
    · rename_i v' hw
      rcases Proc.writes_cases ((h.procs i).written hw) with ⟨hm, -⟩ | ⟨v₀, hv₀, -⟩
      · exact (h.set_settled hkt).2 i hm
      · exact h.set_replaced hkt hv₀ (hfree v₀ hv₀)
    · simp at hk
  refine ⟨?_, ?_, ?_, ?_, ?_, ?_, ?_, ?_⟩
  · intro k v hv
    rw [hS] at hv
    rw [hused]
    rcases committed_commit_cases (i := i) h k with hk | ⟨v₁, hv₁, -, -, hm, hch⟩ | ⟨v₀, hv₀, hret⟩
    · exact h.rows_used (hk ▸ hv)
    · rw [hv] at hv₁
      cases hv₁
      refine ⟨((h.procs i).minted hm).1, ?_⟩
      rcases hch with hch | ⟨jti, v₀, -, hv₀, -, hch⟩
      · exact ((h.procs i).minted (Proc.minted_of_opens hch)).1
      · rw [hch]
        exact (h.rows_used hv₀).2
    · rw [(hret v hv).1]
      exact h.rows_used hv₀
  · intro k k' v v' hv hv'
    rw [hS] at hv hv'
    exact one_spendable_commit h hv hv'
  · intro t
    rw [hS, hused]
    by_cases hti : t = i
    · rw [hti, hpi]
      exact .of_clean (by simp) rfl rfl (by simp [Proc.read])
    · rw [hpt hti]
      exact .commit h hti
  · intro t t' k ht ht'
    exact h.minted_inj (minted ht).2 (minted ht').2
  · intro t jti session ht
    by_cases hti : t = i
    · rw [hti, hpi] at ht
      simp [Proc.read] at ht
    · rw [hpt hti] at ht
      exact settled (h.read_settled ht)
  · intro k t hk
    rcases mem_setBy hk with ⟨hk, -⟩ | hk
    · exact settled (rotations_spec h hk).1
    · exact settled (h.set_settled hk)
  · intro k t v hk hv
    rw [hS] at hv
    rcases mem_setBy hk with ⟨hk, -⟩ | hk
    · exact (rotations_spec h hk).2.2 v hv
    · rcases committed_commit_cases (i := i) h k with hk' | ⟨-, -, -, -, hm, -⟩ | ⟨v₀, hv₀, hret⟩
      · exact h.set_replaced hk (hk' ▸ hv)
      · exact absurd hm ((h.set_settled hk).2 i)
      · have hne := h.set_replaced hk hv₀
        rcases (hret v hv).2.2.1 with he | he
        · rwa [he]
        · exact absurd he hne
  · intro k t t' hk hk'
    rcases mem_setBy hk with ⟨hr, rfl⟩ | hk <;> rcases mem_setBy hk' with ⟨hr', rfl⟩ | hk'
    · rfl
    · exact absurd hk' (once hr)
    · exact absurd hk (once hr')
    · exact h.set_once hk hk'

end Commit

/-! ## The other ways a step changes the state -/

section Kinds

variable {n : Nat} {s : State n} {i : Fin n} {p q : Proc}

theorem goes_goto (s : State n) (i : Fin n) (p : Proc) : Goes s (s.goto i p) i p :=
  ⟨rfl, fun _ => rfl, fun _ _ _ => rfl, fun _ hk => hk, rfl, rfl⟩

theorem goes_rollback (s : State n) (i : Fin n) (o : Outcome) : Goes s (s.rollback i o) i (.done o) :=
  ⟨rfl, fun k => Store.committed_abort i k, fun _ ht k => Store.dirtyBy_abort_ne ht k, fun _ hk => hk, rfl, rfl⟩

theorem goes_mint (s : State n) (i : Fin n) (p : Proc) (fresh : Uuid) :
    Goes s { s.goto i p with used := fresh :: s.used } i p :=
  ⟨rfl, fun _ => rfl, fun _ _ _ => rfl, fun _ hk => List.mem_cons_of_mem _ hk, rfl, rfl⟩

theorem goes_put (p : Proc) {k : Uuid} (hf : s.sessions.free i k = true) (w : Option RefreshSession) :
    Goes s { s.goto i p with sessions := s.sessions.put i k w } i p :=
  ⟨rfl, fun k' => Store.committed_put (S := s.sessions) w k',
    fun _ ht k' => Store.dirtyBy_put_other (S := s.sessions) hf ht w k', fun _ hk => hk, rfl, rfl⟩

/-- An insert writes the row, or finds the key taken and rolls back. -/
theorem insert_cases (s : State n) (i : Fin n) (k : Uuid) (v : RefreshSession) (p : Proc) :
    (s.sessions.committed k = none ∧ s.sessions.dirtyBy i k = none ∧ s.sessions.free i k = true ∧
      insert s i k v p = { s.goto i p with sessions := s.sessions.put i k (some v) }) ∨
    insert s i k v p = s.rollback i .failed := by
  unfold Sessions.insert
  split
  · rename_i S hS
    obtain ⟨hnone, hclean, hfree, rfl⟩ := Store.insert_eq_some hS
    exact .inl ⟨hnone, hclean, hfree, rfl⟩
  · exact .inr rfl

/-- A call that may not have written anything has not. -/
theorem Inv.clean (h : Inv s) (hw : ∀ {k old w}, ¬ (s.procs i).Writes k old w) (k : Uuid) :
    s.sessions.dirtyBy i k = none := by
  cases hd : s.sessions.dirtyBy i k with
  | none => rfl
  | some w => exact absurd ((h.procs i).written hd) hw

/-- Reading: the call goes on, having drawn and written nothing new. -/
theorem Inv.goto (h : Inv s) (hp : ProcInv s.sessions s.used i p)
    (hm : ∀ k, p.minted = some k → (s.procs i).minted = some k)
    (hr : ∀ {jti session}, p.read = some (jti, session) → Settled s jti) : Inv (s.goto i p) :=
  h.goes (goes_goto s i p) hp (fun k hk => .inl (hm k hk)) hr

/-- The call ends without having written anything. -/
theorem Inv.answer (h : Inv s) (hw : ∀ {k old w}, ¬ (s.procs i).Writes k old w) (o : Outcome) : Inv (s.answer i o) :=
  h.goto (.of_clean (h.clean hw) rfl rfl (by simp [Proc.read])) (by simp [Proc.minted]) (by simp [Proc.read])

/-- The call rolls back. -/
theorem Inv.rollback (h : Inv s) (o : Outcome) : Inv (s.rollback i o) := by
  refine h.goes (goes_rollback s i o) (.of_clean ?_ rfl rfl (by simp [Proc.read])) (by simp [Proc.minted])
    (by simp [Proc.read])
  intro k
  exact Store.dirtyBy_abort_self i k

/-- The call draws a fresh identifier. -/
theorem Inv.mint (h : Inv s) {fresh : Uuid} (hf : fresh ∉ s.used) (hw : ∀ {k old w}, ¬ (s.procs i).Writes k old w)
    (hm : p.minted = some fresh) (hr : p.read = (s.procs i).read) (hc : p.claimedRow = none) :
    Inv { s.goto i p with used := fresh :: s.used } := by
  have hp : ProcInv s.sessions (fresh :: s.used) i p := by
    refine ⟨?_, ?_, ?_, ?_, ?_⟩
    · intro k w hd
      rw [h.clean hw k] at hd
      simp at hd
    · intro k hk
      rw [hc] at hk
      simp at hk
    · intro k hk
      rw [hm] at hk
      cases hk
      refine ⟨List.mem_cons_self, ?_⟩
      cases hv : s.sessions.committed fresh with
      | none => rfl
      | some v => exact absurd (h.rows_used hv).1 hf
    · intro c k v ho hv
      have hcm := Proc.minted_of_opens ho
      rw [hm] at hcm
      cases hcm
      rintro rfl
      exact hf (h.rows_used hv).2
    · intro jti session v hjti hv
      rw [hr] at hjti
      exact (h.procs i).read_chain hjti hv
  refine h.goes (goes_mint s i p fresh) hp ?_ ?_
  · intro k hk
    rw [hm] at hk
    cases hk
    exact .inr hf
  · intro jti session hjti
    rw [hr] at hjti
    exact h.read_settled hjti

/-- The call writes a row it has not written before. -/
theorem Inv.put (h : Inv s) {k : Uuid} {w : Option RefreshSession} (hf : s.sessions.free i k = true)
    (hclean : s.sessions.dirtyBy i k = none) (hm : p.minted = (s.procs i).minted) (hr : p.read = (s.procs i).read)
    (ho : p.opens = (s.procs i).opens) (hw : ∀ {k' old w}, (s.procs i).Writes k' old w → p.Writes k' old w)
    (hnew : p.Writes k (s.sessions.committed k) w)
    (hc : ∀ {j}, p.claimedRow = some j → (s.procs i).claimedRow = some j ∨
      j = k ∧ ∃ v, s.sessions.committed k = some v ∧ v.spendable = true) :
    Inv { s.goto i p with sessions := s.sessions.put i k w } := by
  have hp : ProcInv (s.sessions.put i k w) s.used i p := by
    refine ⟨?_, ?_, ?_, ?_, ?_⟩
    · intro k' w' hd
      rw [Store.committed_put]
      by_cases hk : k' = k
      · subst hk
        simp only [Store.dirtyBy_put_self, Option.some.injEq] at hd
        rw [← hd]
        exact hnew
      · rw [Store.dirtyBy_put_of_ne hk] at hd
        exact hw ((h.procs i).written hd)
    · intro k' hk'
      rw [Store.committed_put]
      rcases hc hk' with hold | ⟨rfl, v, hv, hs⟩
      · obtain ⟨v₀, w', hd, hv₀, hs⟩ := (h.procs i).claimed hold
        have hk : k' ≠ k := by
          rintro rfl
          rw [hclean] at hd
          simp at hd
        exact ⟨v₀, w', by rw [Store.dirtyBy_put_of_ne hk, hd], hv₀, hs⟩
      · exact ⟨v, w, Store.dirtyBy_put_self (S := s.sessions) w, hv, hs⟩
    · intro k' hk'
      rw [Store.committed_put]
      exact (h.procs i).minted (hm ▸ hk')
    · intro c k' v' hc' hv'
      rw [Store.committed_put] at hv'
      exact (h.procs i).opens (ho ▸ hc') hv'
    · intro jti session v' hjti hv'
      rw [Store.committed_put] at hv'
      exact (h.procs i).read_chain (hr ▸ hjti) hv'
  refine h.goes (goes_put p hf w) hp ?_ ?_
  · intro k' hk'
    exact .inl (hm ▸ hk')
  · intro jti session hjti
    exact h.read_settled (hr ▸ hjti)

/-- The call inserts the session it drew an identifier for. -/
theorem Inv.insert (h : Inv s) {k : Uuid} {v : RefreshSession} (hm : p.minted = (s.procs i).minted)
    (hr : p.read = (s.procs i).read) (ho : p.opens = (s.procs i).opens)
    (hc : p.claimedRow = (s.procs i).claimedRow)
    (hw : ∀ {k' old w}, (s.procs i).Writes k' old w → p.Writes k' old w) (hv : p.Writes k none (some v)) :
    Inv (insert s i k v p) := by
  rcases insert_cases s i k v p with ⟨hnone, hclean, hfree, he⟩ | he
  · rw [he]
    refine h.put hfree hclean hm hr ho hw ?_ ?_
    · rw [hnone]
      exact hv
    · intro j hj
      exact .inl (hc ▸ hj)
  · rw [he]
    exact h.rollback .failed

/-- The statement under way works on a row. A row it has written does not satisfy its `WHERE` any more. -/
theorem Inv.exec (h : Inv s) {k : Uuid} {u : Stmt fun _ : Uuid => RefreshSession} (hf : s.sessions.free i k = true)
    (hm : p.minted = (s.procs i).minted) (hr : p.read = (s.procs i).read) (ho : p.opens = (s.procs i).opens)
    (hw : ∀ {k' old w}, (s.procs i).Writes k' old w → p.Writes k' old w)
    (hagain : ∀ {old v}, (s.procs i).Writes k old (some v) → u.cond k v = false)
    (hnew : ∀ {v}, s.sessions.committed k = some v → u.cond k v = true → p.Writes k (some v) (u.set k v))
    (hc : ∀ {j}, p.claimedRow = some j → (s.procs i).claimedRow = some j ∨
      j = k ∧ s.sessions.matchesNow i u k = true ∧ ∀ v, u.cond k v = true → v.spendable = true) :
    Inv { s.goto i p with sessions := s.sessions.exec i u k } := by
  rcases Store.exec_cases s.sessions i u k with ⟨v, hv, hcond, he, -⟩ | ⟨he, hno⟩
  · -- What the call sees of a row it has not written is the committed version.
    have hclean : s.sessions.dirtyBy i k = none := by
      cases hd : s.sessions.dirtyBy i k with
      | none => rfl
      | some w =>
        rw [Store.view_of_dirtyBy hd] at hv
        subst hv
        rw [hagain ((h.procs i).written hd)] at hcond
        simp at hcond
    rw [Store.view_of_clean hclean] at hv
    rw [he]
    refine h.put hf hclean hm hr ho hw ?_ ?_
    · rw [hv]
      exact hnew hv hcond
    · intro j hj
      rcases hc hj with hold | ⟨rfl, -, hs⟩
      · exact .inl hold
      · exact .inr ⟨rfl, v, hv, hs v hcond⟩
  · rw [he]
    refine h.goto ⟨fun hd => hw ((h.procs i).written hd), ?_, ?_, ?_, ?_⟩ ?_ ?_
    · intro k' hk'
      rcases hc hk' with hold | ⟨-, hyes, -⟩
      · exact (h.procs i).claimed hold
      · rw [hno] at hyes
        simp at hyes
    · intro k' hk'
      exact (h.procs i).minted (hm ▸ hk')
    · intro c k' v' hc' hv'
      exact (h.procs i).opens (ho ▸ hc') hv'
    · intro jti session v' hjti hv'
      exact (h.procs i).read_chain (hr ▸ hjti) hv'
    · intro k' hk'
      exact hm ▸ hk'
    · intro jti session hjti
      exact h.read_settled (hr ▸ hjti)

end Kinds

end LinkShortener.Sessions
