import LinkShortener.Credentials.Statements

/-!
# What a retiring statement has come to

`revoke_all_for_user` and `invalidate_for_user` retire the rows of an account with one statement, which does not see what
is committed after its snapshot. A `Retirement` is such a statement: its rows, what adds such a row to the log, and at
which points an execution is retiring them, with the proof that it gets on with them from one point to the next.

* `Advances`: what an execution does about the rows it has not come to. `Advances.covered`: it goes on to cover them.
* `Covers`: an execution that is retiring rows has come to all but those it has left, unless one has been added since its
  snapshot. `Covers.step` keeps it as long as whatever is committed anew is logged (`Logs`).
-/

namespace LinkShortener.Credentials

open ReadCommitted Transactions

/-- What an execution does about the rows of the kind `C` it has not come to: it goes on, passes one over, retires one,
or makes a new one. -/
inductive Advances (C : (k : Key) → Value k → Bool) (v : Seen) (todo : List Key) : List Key → Act → Prop
  | goto {q} : Advances C v todo todo (.goto q)
  | pass {k q} : (∀ row, v.row k = some row → C k row = false) → Advances C v todo (todo.erase k) (.goto q)
  | retire {k w q} : (∀ row, w = some row → C k row = false) → Advances C v todo (todo.erase k) (.write k w q)
  | insert {k w q} : k ∉ v.keys → Advances C v todo todo (.write k w q)

/-- **A statement that retires rows of an account.** `under` is the account whose rows an execution retires, how much had
been committed when it took its snapshot, and the rows it has not come to. -/
structure Retirement where
  kind : Uuid → (k : Key) → Value k → Bool
  adds : Uuid → Entry → Bool
  under : Pc → Option (Uuid × Nat × List Key)
  begins : ∀ op, under (Proc.begin op).pc = none
  goesOn : ∀ {cfg v op pc a u asOf todo'}, Takes cfg v op pc a → under a.point.pc = some (u, asOf, todo') →
    (∃ q, a = .goto q ∧ asOf = v.moment ∧ todo' = v.targets ⟨kind u, retire v.now⟩) ∨
      ∃ todo, under pc = some (u, asOf, todo) ∧ Advances (kind u) v todo todo' a

namespace Retirement

/-- An execution that is retiring rows has come to all but those it has left, unless one has been added since its
snapshot. -/
def Covers {T : Type} [DecidableEq T] (R : Retirement) (s : System T) : Prop :=
  ∀ t u asOf todo, R.under (s.state.procs t).pc = some (u, asOf, todo) → asOf ≤ s.log.length ∧
    (noneSince (R.adds u) s.log asOf = true → Covered (R.kind u) todo t s.state.store)

/-- What an execution will commit was of the kind before, or its commit is logged as adding a row. -/
def Logs {T : Type} [DecidableEq T] (R : Retirement) (s : System T) : Prop :=
  ∀ t u k row, s.state.store.dirtyBy t k = some (some row) → R.kind u k row = true →
    (∃ row₀, s.state.store.committed k = some row₀ ∧ R.kind u k row₀ = true) ∨
      ∃ x ∈ (s.state.procs t).publishes, R.adds u x = true

end Retirement

variable {T : Type} [DecidableEq T] {cfg : Config} {s s' : System T} {e : Event T} {t : T} {input : Input} {a : Act}
  {R : Retirement} {u : Uuid} {asOf : Nat} {todo todo' : List Key}

theorem Advances.covered {C : (k : Key) → Value k → Bool} (h : Advances C (seenBy s t input) todo todo' a)
    (hcovered : Covered C todo t s.state.store) (hact : act s.state t a = some s'.state) :
    Covered C todo' t s'.state.store := by
  have hleft : ∀ k k', k' ≠ k → k' ∈ todo → k' ∈ todo.erase k := fun k k' hk' hin => (List.mem_erase_of_ne hk').mpr hin
  cases h with
  | goto =>
    rw [act_goto_store hact]
    exact hcovered
  | pass hpass =>
    rw [act_goto_store hact]
    exact hcovered.pass hpass (hleft _)
  | retire hretired =>
    obtain ⟨-, hstate⟩ := act_write_some hact
    rw [hstate]
    exact hcovered.write hretired (hleft _)
  | @insert k w q hnew =>
    obtain ⟨-, hstate⟩ := act_write_some hact
    rw [hstate]
    refine hcovered.insert ?_ w
    cases hc : s.state.store.committed k with
    | none => rfl
    | some row => exact absurd (Store.mem_keys_of_committed hc) hnew

namespace Retirement

theorem covers_of_atRest (h : AtRest s) : R.Covers s := by
  intro t u asOf todo hunder
  obtain ⟨op, hbegin⟩ := h.2 t
  rw [hbegin, R.begins op] at hunder
  cases hunder

/-- The execution itself goes on with the rows of its account. -/
theorem Covers.self (hs : R.Covers s)
    (htakes : Takes cfg (seenBy s t input) (s.state.procs t).op (s.state.procs t).pc a)
    (hact : act s.state t a = some s'.state) (hunder : R.under a.point.pc = some (u, asOf, todo)) :
    asOf ≤ s.log.length ∧
      (noneSince (R.adds u) s.log asOf = true → Covered (R.kind u) todo t s'.state.store) := by
  rcases R.goesOn htakes hunder with ⟨q, rfl, rfl, rfl⟩ | ⟨todo₀, hbefore, hadvances⟩
  · refine ⟨le_rfl, fun _ => ?_⟩
    rw [act_goto_store hact]
    exact covered_snapshot ⟨R.kind u, _⟩
  · obtain ⟨hlength, hcovered⟩ := hs t u asOf todo₀ hbefore
    exact ⟨hlength, fun hnone => hadvances.covered (hcovered hnone) hact⟩

/-- The commit of somebody else adds no row of an account without that being logged. -/
theorem Logs.covered_other (hlogs : R.Logs s) (h : step cfg s e = some s') (hne : t ≠ e.proc)
    (hlength : asOf ≤ s.log.length) (hcovered : Covered (R.kind u) todo t s.state.store)
    (hnone : noneSince (R.adds u) s'.log asOf = true) : Covered (R.kind u) todo t s'.state.store := by
  obtain ⟨input, a, -, hact, -⟩ := step_takes h
  refine hcovered.act_other hact hne ?_
  intro k row hrow hkind
  obtain ⟨t', input', rfl, hstore, hlog⟩ | ⟨hsame, -⟩ := step_commits h
  · rw [hstore, Store.committed_commit] at hrow
    cases hd : s.state.store.dirtyBy t' k with
    | none =>
      rw [hd] at hrow
      exact ⟨row, hrow, hkind⟩
    | some w =>
      rw [hd] at hrow
      have hw : w = some row := hrow
      subst hw
      rcases hlogs t' u k row hd hkind with hbefore | ⟨x, hx, hadds⟩
      · exact hbefore
      · rw [hlog] at hnone
        rw [noneSince_mem hnone hlength hx] at hadds
        cases hadds
  · exact ⟨row, (hsame k).symm.trans hrow, hkind⟩

/-- **Step lemma.** -/
theorem Covers.step (hs : R.Covers s) (hlogs : R.Logs s) (h : Credentials.step cfg s e = some s') : R.Covers s' := by
  obtain ⟨input, a, htakes, hact, hlog⟩ := step_takes h
  intro t u asOf todo hunder
  have hlength : s.log.length ≤ s'.log.length := by
    rw [hlog, List.length_append]
    omega
  have hearlier : noneSince (R.adds u) s'.log asOf = true → noneSince (R.adds u) s.log asOf = true := by
    rw [hlog]
    exact noneSince_of_append
  by_cases ht : t = e.proc
  · subst ht
    rw [act_procs_self hact] at hunder
    obtain ⟨hasOf, hcovered⟩ := hs.self htakes hact hunder
    exact ⟨hasOf.trans hlength, fun hnone => hcovered (hearlier hnone)⟩
  · rw [act_procs_ne hact ht] at hunder
    obtain ⟨hasOf, hcovered⟩ := hs t u asOf todo hunder
    exact ⟨hasOf.trans hlength, fun hnone => hlogs.covered_other h ht hasOf (hcovered (hearlier hnone)) hnone⟩

end Retirement

end LinkShortener.Credentials
