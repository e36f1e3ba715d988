import LinkShortener.Credentials.Retirement

/-!
# What a change of the account revokes

`ChangePassword`, `ResetPassword` and `DeactivateUser` revoke the sessions of the account with one statement, which does
not see what is committed after its snapshot. A login compares the password in one transaction and opens the session in
another; a refresh inserts the successor of a session it holds.

* `Current`: no session that is not revoked stems from a comparison that a committed change has followed. A session that
  a refresh opens stems from what its parent stems from; the session `ChangePassword` opens stems from its own change.
* `InTime`: the condition. A session is committed only when no change has been since the comparison it stems from, and a
  change only when no session has been since it took its snapshot.
* `revocation_is_complete`: runs in which every commit is in time keep `Current`.
* `login_outlives_the_change`: a login that is overtaken by a password change leaves an open session.
-/

namespace LinkShortener.Credentials

open ReadCommitted Transactions Runs

/-! ## What is open -/

/-- A change of the account that revokes its sessions. -/
def Entry.changes (u : Uuid) : Entry → Bool
  | .passwordChanged u' | .deactivated u' => decide (u' = u)
  | _ => false

def Entry.opensFor (u : Uuid) : Entry → Bool
  | .opened u' _ => decide (u' = u)
  | _ => false

/-- No change of its account has been committed since the comparison an open session stems from. -/
def Current {T : Type} (s : System T) : Prop :=
  ∀ u tokenId r, s.state.store.committed (.session u tokenId) = some r → r.row.revokedAt = none →
    noneSince (Entry.changes u) s.log r.origin = true

/-- Whether the commit of an execution is in time: of a session after a comparison, and of a change. -/
def Pc.inTime (log : List Entry) : Pc → Bool
  | .opened u _ origin => noneSince (Entry.changes u) log origin
  | .revoking u _ asOf _ [] => noneSince (Entry.opensFor u) log asOf
  | _ => true

/-- The commits of sessions and changes are in time. -/
def InTime {T : Type} (s : System T) : Event T → Prop
  | .step t _ => (s.state.procs t).pc.inTime s.log = true
  | .fail _ => True

instance decidableInTime {T : Type} (s : System T) : ∀ e, Decidable (InTime s e)
  | .step t _ => inferInstanceAs (Decidable ((s.state.procs t).pc.inTime s.log = true))
  | .fail _ => isTrue trivial

/-! ## What the executions have written -/

/-- The session an execution has just opened, and what it stems from. -/
def Pc.opens : Pc → Option (Uuid × Uuid × Nat)
  | .opened u tokenId origin | .rotated u _ tokenId origin => some (u, tokenId, origin)
  | _ => none

/-- The session a refresh has claimed, and what it stems from. -/
def Pc.parent : Pc → Option (Uuid × Uuid × Nat)
  | .rotate u tokenId _ _ _ origin | .rotated u tokenId _ origin => some (u, tokenId, origin)
  | _ => none

/-- The account whose sessions an execution revokes, how much had been committed when it took its snapshot, and the
sessions it has not come to. -/
def Pc.revokes : Pc → Option (Uuid × Nat × List Key)
  | .revoking u _ asOf _ todo => some (u, asOf, todo)
  | _ => none

/-- A session that is written and not revoked was not revoked before, or has just been opened. -/
def Opening (p : Proc) : (k : Key) → Option (Value k) → Option (Value k) → Prop
  | .session u tokenId, c, w => ∀ r, w = some r → r.row.revokedAt = none →
    (∃ r₀, c = some r₀ ∧ r₀.row.revokedAt = none ∧ r₀.origin = r.origin) ∨ p.pc.opens = some (u, tokenId, r.origin)
  | _, _, _ => True

section Steps

variable {T : Type} [DecidableEq T] {cfg : Config} {s s' : System T} {t : T} {input : Input} {v : Seen} {op : Operation}
  {pc : Pc} {a : Act}

theorem afterSave_revokes (p : Proc) (u : Uuid) :
    (afterSave p u).revokes = none ∧ (afterSave p u).parent = none := by
  unfold afterSave
  split <;> exact ⟨rfl, rfl⟩

theorem afterInvalidate_revokes (p : Proc) (u : Uuid) (asOf : Nat) :
    (afterInvalidate p u asOf).revokes = none ∧ (afterInvalidate p u asOf).parent = none := by
  unfold afterInvalidate
  split <;> exact ⟨rfl, rfl⟩

theorem afterChange_revokes (p : Proc) (u : Uuid) :
    (afterChange v p u).revokes = none ∧ (afterChange v p u).parent = none := by
  unfold afterChange
  split <;> exact ⟨rfl, rfl⟩

theorem Takes.ends_of_opens {x : Uuid × Uuid × Nat} (h : Takes cfg v op pc a) (hopens : pc.opens = some x) :
    a.ends = true := by
  cases h with
  | refuse hended => rfl
  | opened => rfl
  | rotated => rfl
  | _ => cases hopens

/-- **How a refresh comes to hold a session**: it claims it, and goes on to insert its successor. -/
theorem Takes.parent {u tokenId : Uuid} {origin : Nat} (h : Takes cfg v op pc a)
    (hq : a.point.pc.parent = some (u, tokenId, origin)) :
    (∃ r new q, pc.opens = none ∧ v.row (.session u tokenId) = some r ∧ r.row.isUsable v.now = true ∧ r.origin = origin ∧
      a = .write (.session u tokenId) (some (r.replace new)) q) ∨
      (pc.parent = some (u, tokenId, origin) ∧ ∃ new w q, a = .write (.session u new) w q ∧ .session u new ∉ v.keys) := by
  cases h with
  | claimForRotation hrow husable =>
    cases hq
    exact .inl ⟨_, _, _, rfl, hrow, husable, rfl, rfl⟩
  | rotate hnew =>
    cases hq
    exact .inr ⟨rfl, _, _, _, rfl, hnew⟩
  | flushNothing => cases (afterSave_revokes _ _).2.symm.trans hq
  | flushRow => cases (afterSave_revokes _ _).2.symm.trans hq
  | invalidated => cases (afterInvalidate_revokes _ _ _).2.symm.trans hq
  | revoked => cases (afterChange_revokes _ _).2.symm.trans hq
  | _ => cases hq

/-- **How an execution comes to revoke sessions**: it takes its snapshot, passes a row, or revokes one. -/
theorem Takes.revokes {u : Uuid} {asOf : Nat} {todo' : List Key} (h : Takes cfg v op pc a)
    (hq : a.point.pc.revokes = some (u, asOf, todo')) :
    (∃ q, a = .goto q ∧ asOf = v.moment ∧ todo' = v.targets (revokeAllForUser u v.now)) ∨
      ∃ todo, pc.revokes = some (u, asOf, todo) ∧ Advances (unrevokedOf u) v todo todo' a := by
  cases h with
  | revoke =>
    cases hq
    exact .inl ⟨_, rfl, rfl, rfl⟩
  | revokeRow hrow =>
    cases hq
    refine .inr ⟨_, rfl, .retire ?_⟩
    intro row hw
    cases hw
    simp [unrevokedOf, Session.revoke]
  | passRevoked hpass =>
    cases hq
    exact .inr ⟨_, rfl, .pass hpass⟩
  | flushNothing => cases (afterSave_revokes _ _).1.symm.trans hq
  | flushRow => cases (afterSave_revokes _ _).1.symm.trans hq
  | invalidated => cases (afterInvalidate_revokes _ _ _).1.symm.trans hq
  | revoked => cases (afterChange_revokes _ _).1.symm.trans hq
  | _ => cases hq

/-- A session that an execution finds open is open in its committed version, unless the execution has just opened it. -/
theorem committed_of_view {u tokenId : Uuid} {r : Session u} (hwritten : Written Opening s.state)
    (hopens : (s.state.procs t).pc.opens = none) (hrow : s.state.store.view t (.session u tokenId) = some r)
    (hopen : r.row.revokedAt = none) :
    ∃ r₀, s.state.store.committed (.session u tokenId) = some r₀ ∧ r₀.row.revokedAt = none ∧ r₀.origin = r.origin := by
  cases hd : s.state.store.dirtyBy t (.session u tokenId) with
  | none => exact ⟨r, (Store.view_of_clean hd).symm.trans hrow, hopen, rfl⟩
  | some w =>
    rcases hwritten t _ w hd r ((Store.view_of_dirtyBy hd).symm.trans hrow) hopen with hbefore | hnew
    · exact hbefore
    · rw [hopens] at hnew
      cases hnew

theorem revokedAt_of_isUsable {r : Sessions.RefreshSession} {now : Instant} (h : r.isUsable now = true) :
    r.revokedAt = none := by
  simp only [Sessions.RefreshSession.isUsable, Bool.and_eq_true, Option.isNone_iff_eq_none] at h
  exact h.1.1

/-- What an execution writes, it may have written. -/
theorem Takes.allowed_opening (hwritten : Written Opening s.state)
    (h : Takes cfg (seenBy s t input) (s.state.procs t).op (s.state.procs t).pc a) : Allowed Opening s.state t a := by
  have hkeep : a.ends = false → ∀ k c w, Opening (s.state.procs t) k c w → Opening a.point k c w := by
    intro hends k c w hopening
    cases k with
    | session u tokenId =>
      intro r hw hopen
      rcases hopening r hw hopen with hbefore | hopens
      · exact .inl hbefore
      · rw [h.ends_of_opens hopens] at hends
        cases hends
    | user u => trivial
    | token kind hash => trivial
  refine Allowed.of_keeps hkeep ?_
  rintro k w q rfl
  cases k with
  | session u tokenId =>
    rintro r rfl hopen
    generalize hpc : (s.state.procs t).pc = pc at h
    cases h with
    | openSession hnew => exact .inr rfl
    | rotate hnew => exact .inr rfl
    | claimForRotation hrow husable =>
      obtain ⟨r₀, hbefore, hopen₀, horigin⟩ :=
        committed_of_view hwritten (by rw [hpc]; rfl) hrow (revokedAt_of_isUsable husable)
      exact .inl ⟨r₀, hbefore, hopen₀, horigin⟩
    | revokeOfChain hrow => cases hopen
    | revokeRow hrow => cases hopen
  | user u => trivial
  | token kind hash => trivial

end Steps

/-- `revoke_all_for_user`. -/
def revocation : Retirement where
  kind := unrevokedOf
  adds := Entry.opensFor
  under := Pc.revokes
  begins op := by cases op <;> rfl
  goesOn := Takes.revokes

/-! ## Runs -/

/-- What holds along the runs whose commits are in time. -/
structure Revocable {T : Type} [DecidableEq T] (s : System T) : Prop where
  written : Written Opening s.state
  parents : ∀ t u tokenId origin, (s.state.procs t).pc.parent = some (u, tokenId, origin) →
    ∃ r₀ w, Holds s.state t (.session u tokenId) (some r₀) w ∧ r₀.row.revokedAt = none ∧ r₀.origin = origin
  current : Current s
  covered : revocation.Covers s

section Runs

variable {T : Type} [DecidableEq T] {cfg : Config} {s s' : System T} {e : Event T} {t : T} {input : Input} {a : Act}
  {u tokenId : Uuid} {origin asOf : Nat} {todo : List Key} {p : Proc}

theorem publishes_of_opens (h : p.pc.opens = some (u, tokenId, origin)) : Entry.opened u tokenId ∈ p.publishes := by
  obtain ⟨op, pc⟩ := p
  cases pc with
  | opened u' tokenId' origin' =>
    cases h
    exact List.mem_singleton.mpr rfl
  | rotated u' tokenId' new origin' =>
    cases h
    exact List.mem_singleton.mpr rfl
  | _ => cases h

theorem publishes_change {x : Entry} (hx : x ∈ p.publishes) (hchange : x.changes u = true) :
    ∃ since asOf now, p.pc = .revoking u since asOf now [] := by
  rcases publishes_cases hx with ⟨u', tokenId, rfl⟩ | ⟨u', hash, asOf, issued, rfl, -⟩ |
    ⟨u', asOf, asOf', now, rfl, hpc⟩ | ⟨u', asOf, now, rfl, hpc⟩
  · cases hchange
  · cases hchange
  · have hu : u' = u := by simpa [Entry.changes] using hchange
    subst hu
    exact ⟨_, _, _, hpc⟩
  · have hu : u' = u := by simpa [Entry.changes] using hchange
    subst hu
    exact ⟨_, _, _, hpc⟩

theorem AtRest.revocable (h : AtRest s) (hcurrent : Current s) : Revocable s := by
  refine ⟨.of_clean h.1, ?_, hcurrent, Retirement.covers_of_atRest h⟩
  intro t u tokenId origin hparent
  obtain ⟨op, hbegin⟩ := h.2 t
  rw [hbegin] at hparent
  cases op <;> cases hparent

/-- A refresh goes on to hold the session it has claimed. -/
theorem Revocable.parents_self (hs : Revocable s)
    (htakes : Takes cfg (seenBy s t input) (s.state.procs t).op (s.state.procs t).pc a)
    (hact : act s.state t a = some s'.state) (hparent : a.point.pc.parent = some (u, tokenId, origin)) :
    ∃ r₀ w, Holds s'.state t (.session u tokenId) (some r₀) w ∧ r₀.row.revokedAt = none ∧ r₀.origin = origin := by
  rcases htakes.parent hparent with ⟨r, new, q, hopens, hrow, husable, rfl, rfl⟩ | ⟨hbefore, new, w, q, rfl, hnew⟩
  · obtain ⟨r₀, hcommitted, hopen, horigin⟩ :=
      committed_of_view hs.written hopens hrow (revokedAt_of_isUsable husable)
    refine ⟨r₀, some (r.replace new), ?_, hopen, horigin⟩
    rw [← hcommitted]
    exact .of_write hact
  · obtain ⟨r₀, w', hholds, hopen, horigin⟩ := hs.parents t u tokenId origin hbefore
    have hne : Key.session u tokenId ≠ .session u new := by
      intro heq
      rw [← heq] at hnew
      exact hnew hholds.mem_keys
    exact ⟨r₀, w', hholds.write_ne hact hne, hopen, horigin⟩

/-- A session that is committed open was open before, or is logged as opened. -/
theorem logs_of_written (hwritten : Written Opening s.state) : revocation.Logs s := by
  intro t u k row hd hunrevoked
  cases k with
  | session u' tokenId =>
    have hkind := hunrevoked
    simp only [revocation, unrevokedOf, Bool.and_eq_true, decide_eq_true_eq, Option.isNone_iff_eq_none] at hkind
    obtain ⟨rfl, hopen⟩ := hkind
    rcases hwritten t _ _ hd row rfl hopen with ⟨r₀, hcommitted, hopen₀, -⟩ | hopens
    · refine .inl ⟨r₀, hcommitted, ?_⟩
      simp [revocation, unrevokedOf, hopen₀]
    · refine .inr ⟨_, publishes_of_opens hopens, ?_⟩
      simp [revocation, Entry.opensFor]
  | user u' => cases hunrevoked
  | token kind hash => cases hunrevoked

/-- A change that is in time leaves no session of its account open. -/
theorem Revocable.revoked {since : Option Nat} {now : Instant} {r : Session u} (hs : Revocable s)
    (hpc : (s.state.procs t).pc = .revoking u since asOf now [])
    (hnone : noneSince (Entry.opensFor u) s.log asOf = true)
    (hr : (s.state.store.commit t).committed (.session u tokenId) = some r) : r.row.revokedAt ≠ none := by
  intro hopen
  have hcovered := (hs.covered t u asOf [] (by rw [hpc]; rfl)).2 hnone
  have hunrevoked : ∀ r' : Session u, r'.row.revokedAt = none → unrevokedOf u (.session u tokenId) r' = true := by
    intro r' hopen'
    simp [unrevokedOf, hopen']
  have hd := hcovered.commit hr (hunrevoked r hopen)
  rcases hs.written t _ _ hd r rfl hopen with ⟨r₀, hcommitted, hopen₀, -⟩ | hopens
  · rcases hcovered _ r₀ hcommitted (hunrevoked r₀ hopen₀) with hin | ⟨w, hw, hno⟩
    · cases hin
    · rw [hd] at hw
      cases hw
      cases (hunrevoked r hopen).symm.trans (hno r rfl)
  · rw [hpc] at hopens
    cases hopens

/-- A commit that is in time opens nothing that a change has overtaken. -/
theorem Revocable.current_step (hs : Revocable s) (htime : InTime s e) (h : step cfg s e = some s') : Current s' := by
  intro u tokenId r hr hopen
  obtain ⟨t, input, rfl, hstore, hlog⟩ | ⟨hsame, hlog⟩ := step_commits h
  · rw [hstore] at hr
    rw [hlog]
    refine noneSince_append ?_ ?_
    · -- Up to the commit: the session was open before, has just been opened, or succeeds one that was open.
      rw [Store.committed_commit] at hr
      cases hd : s.state.store.dirtyBy t (.session u tokenId) with
      | none =>
        rw [hd] at hr
        exact hs.current u tokenId r hr hopen
      | some w =>
        rw [hd] at hr
        rcases hs.written t _ w hd r hr hopen with ⟨r₀, hcommitted, hopen₀, horigin⟩ | hopens
        · rw [← horigin]
          exact hs.current u tokenId r₀ hcommitted hopen₀
        · cases hpc : (s.state.procs t).pc with
          | opened u' tokenId' origin =>
            rw [hpc] at hopens
            cases hopens
            simp only [InTime, hpc] at htime
            exact htime
          | rotated u' parent new origin =>
            rw [hpc] at hopens
            cases hopens
            obtain ⟨r₀, w', hholds, hopen₀, horigin⟩ := hs.parents t _ parent _ (by rw [hpc]; rfl)
            rw [← horigin]
            exact hs.current _ parent r₀ hholds.1 hopen₀
          | _ => rw [hpc] at hopens; cases hopens
    · -- The commit is no change of the account, since it would have revoked the session.
      intro x hx
      by_contra hchange
      obtain ⟨since, asOf, now, hpc⟩ := publishes_change hx (by simpa using hchange)
      simp only [InTime, hpc] at htime
      exact hs.revoked hpc htime hr hopen
  · rw [hlog]
    exact hs.current u tokenId r ((hsame _).symm.trans hr) hopen

/-- **Step lemma.** -/
theorem Revocable.step (hs : Revocable s) (htime : InTime s e) (h : Credentials.step cfg s e = some s') :
    Revocable s' := by
  obtain ⟨input, a, htakes, hact, -⟩ := step_takes h
  refine ⟨hs.written.act (htakes.allowed_opening hs.written) hact, ?_, hs.current_step htime h,
    hs.covered.step (logs_of_written hs.written) h⟩
  intro t u tokenId origin hparent
  by_cases ht : t = e.proc
  · subst ht
    rw [act_procs_self hact] at hparent
    exact hs.parents_self htakes hact hparent
  · rw [act_procs_ne hact ht] at hparent
    obtain ⟨r₀, w, hholds, hopen, horigin⟩ := hs.parents t u tokenId origin hparent
    exact ⟨r₀, w, hholds.act_other hact ht, hopen, horigin⟩

end Runs

/-- **Revocation is complete.** Where no open session stems from before a change of its account to begin with, and every
commit is in time, it stays so, in whatever order the statements come. -/
theorem revocation_is_complete {T : Type} [DecidableEq T] (cfg : Config) {s s' : System T} {es : List (Event T)}
    (hrest : AtRest s) (hcurrent : Current s) (htime : Meets (step cfg) InTime s es)
    (hrun : run (step cfg) s es = some s') : Current s' :=
  (run_inv_of_meets (fun htime h hs => Revocable.step hs htime h) htime hrun (hrest.revocable hcurrent)).current

/-! ## A session that outlives the change -/

section Samples

/-- A login, and a password change of the same account. -/
def loginAndChange : System Bool :=
  sampleSystem (.login 1 "old password") (.changePassword 1 "old password" "new password")

theorem loginAndChange_current : Current loginAndChange := by
  intro u tokenId r _ _
  have hempty : noneSince (Entry.changes u) [] r.origin = true := noneSince_of_length_le (Nat.zero_le _)
  have hrequest : ∀ x ∈ [Entry.requested 1 7], x.changes u = false := by
    intro x hx
    cases List.mem_singleton.mp hx
    rfl
  exact noneSince_append hempty hrequest

/-- The login compares the password, the change is made and opens the session of its caller, and the login goes on. -/
def overtaken : List (Event Bool) :=
  statements false 1 0 (.user 1) ++ statements true 6 0 (.token .reset 7) ++ statements true 3 0 (.session 1 5) ++
    statements true 2 11 (.user 1) ++ statements false 4 12 (.user 1)

/-- **A login outlives the change**: its session can be used, and stems from a comparison that preceded the change. -/
theorem login_outlives_the_change :
    (run (step sampleConfig) loginAndChange overtaken).map (fun s =>
      ((s.state.procs false).pc, (s.state.procs true).pc, (s.state.store.committed (.session 1 12)).map fun r =>
        (r.row.isUsable 10, noneSince (Entry.changes 1) s.log r.origin))) =
      some (.done, .done, some (true, false)) := by
  decide +kernel

/-- The login is over before the change begins. -/
def loginFirst : List (Event Bool) :=
  statements false 5 12 (.user 1) ++ statements true 7 0 (.token .reset 7) ++ statements true 1 0 (.session 1 5) ++
    statements true 1 0 (.session 1 12) ++ statements true 3 11 (.user 1)

theorem change_revokes_the_login :
    ∃ s', run (step sampleConfig) loginAndChange loginFirst = some s' ∧
      s'.log = [.opened 1 11, .passwordChanged 1, .opened 1 12, .requested 1 7] ∧
      (s'.state.store.committed (.session 1 12)).map (·.row.revokedAt) = some (some 10) ∧ Current s' := by
  have hruns : (run (step sampleConfig) loginAndChange loginFirst).map (fun s =>
      (s.log, (s.state.store.committed (.session 1 12)).map (·.row.revokedAt))) =
      some ([.opened 1 11, .passwordChanged 1, .opened 1 12, .requested 1 7], some (some 10)) := by decide +kernel
  have htime : Meets (step sampleConfig) InTime loginAndChange loginFirst := by decide +kernel
  obtain ⟨s', hrun, hends⟩ := Option.map_eq_some_iff.mp hruns
  exact ⟨s', hrun, congrArg Prod.fst hends, congrArg Prod.snd hends,
    revocation_is_complete sampleConfig (sampleSystem_atRest _ _) loginAndChange_current htime hrun⟩

end Samples

end LinkShortener.Credentials
