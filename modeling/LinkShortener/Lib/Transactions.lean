import LinkShortener.Lib.ReadCommitted

/-!
# Programs that run in transactions

A process `t : T` is a program in one transaction: from the point `P` it has reached it takes one `Action` at a time.
It reads and goes on, takes an advisory lock, writes a row, changes the memory `M` outside the database, commits or
rolls back. An action that has to wait is not enabled (`act` gives `none`). Advisory locks are named by `L`; they and
the row locks are held until the transaction ends.

* `act_lock_some`, `act_write_some`: the two actions that may have to wait, once they are taken.
* `act_procs_self`, `act_procs_ne`, `act_committed`, `act_mem`, `act_locks_self`, `act_locks_ne`: what an action leaves
  alone.
* `take_some`, `fail_some`: a system whose step is the next action of a process, or a failure of one that has not ended.
* `Written W`: every uncommitted row stands to its committed version as `W` allows at the point its writer has
  reached. `Written.act` is the rule that keeps it; `Written.committed` says what a commit then publishes.
* `Owned own`: of some of the rows, the point a process has reached says exactly which it has written. `Owned.act` is the
  rule that keeps it, and `Owned.committed` says what a commit then publishes.
-/

namespace Transactions

open ReadCommitted

/-- What a process does next, with the point it goes on from. -/
inductive Action (L : Type) {K : Type} (V : K → Type) (M P : Type)
  | goto (p : P)
  | lock (l : L) (p : P)
  | write (k : K) (v : Option (V k)) (p : P)
  | touch (m : M) (p : P)
  | commit (p : P)
  | rollback (p : P)

/-- The database, the holders of the advisory locks, the memory outside the database, and where each process is. -/
structure State (T L : Type) {K : Type} (V : K → Type) (M P : Type) where
  store : Store T V
  locks : L → Option T
  mem : M
  procs : T → P

variable {T L K : Type} {V : K → Type} {M P : Type}

/-- The point an action goes on from. -/
def Action.point : Action L V M P → P
  | .goto p | .lock _ p | .write _ _ p | .touch _ p | .commit p | .rollback p => p

/-- Whether an action ends the transaction. -/
def Action.ends : Action L V M P → Bool
  | .commit _ | .rollback _ => true
  | _ => false

variable [DecidableEq T] [DecidableEq L] [DecidableEq K]

/-- The end of `t` frees its advisory locks. -/
def release (locks : L → Option T) (t : T) : L → Option T :=
  fun l => if locks l = some t then none else locks l

/-- **One action of process `t`**; `none` when it has to wait. -/
def act (s : State T L V M P) (t : T) : Action L V M P → Option (State T L V M P)
  | .goto p => some { s with procs := Function.update s.procs t p }
  | .lock l p =>
    if s.locks l = none ∨ s.locks l = some t then
      some { s with locks := Function.update s.locks l (some t), procs := Function.update s.procs t p }
    else none
  | .write k v p =>
    if s.store.free t k then some { s with store := s.store.put t k v, procs := Function.update s.procs t p }
    else none
  | .touch m p => some { s with mem := m, procs := Function.update s.procs t p }
  | .commit p =>
    some { s with
      store := s.store.commit t
      locks := release s.locks t
      procs := Function.update s.procs t p }
  | .rollback p =>
    some { s with
      store := s.store.abort t
      locks := release s.locks t
      procs := Function.update s.procs t p }

section Act

variable {s s' : State T L V M P} {t t' : T} {a : Action L V M P}

/-- A lock that was taken was free, or held by the process itself. -/
theorem act_lock_some {l : L} {p : P} (h : act s t (.lock l p) = some s') :
    (s.locks l = none ∨ s.locks l = some t) ∧
      s' = { s with locks := Function.update s.locks l (some t), procs := Function.update s.procs t p } := by
  simp only [act] at h
  split at h
  · rename_i hfree
    cases h
    exact ⟨hfree, rfl⟩
  · cases h

/-- A row that was written was held by nobody else. -/
theorem act_write_some {k : K} {v : Option (V k)} {p : P} (h : act s t (.write k v p) = some s') :
    s.store.free t k = true ∧ s' = { s with store := s.store.put t k v, procs := Function.update s.procs t p } := by
  simp only [act] at h
  split at h
  · rename_i hfree
    cases h
    exact ⟨hfree, rfl⟩
  · cases h

theorem act_procs (h : act s t a = some s') : s'.procs = Function.update s.procs t a.point := by
  cases a with
  | lock l p =>
    obtain ⟨-, rfl⟩ := act_lock_some h
    rfl
  | write k v p =>
    obtain ⟨-, rfl⟩ := act_write_some h
    rfl
  | _ => cases h; rfl

theorem act_procs_self (h : act s t a = some s') : s'.procs t = a.point := by
  rw [act_procs h, Function.update_self]

theorem act_procs_ne (h : act s t a = some s') (hne : t' ≠ t) : s'.procs t' = s.procs t' := by
  rw [act_procs h, Function.update_of_ne hne]

/-- Only a commit changes what is committed. -/
theorem act_committed (h : act s t a = some s') (hne : ∀ p, a ≠ .commit p) (k : K) :
    s'.store.committed k = s.store.committed k := by
  cases a with
  | goto p => cases h; rfl
  | lock l p =>
    obtain ⟨-, rfl⟩ := act_lock_some h
    rfl
  | write k' v p =>
    obtain ⟨-, rfl⟩ := act_write_some h
    exact Store.committed_put v k
  | touch m p => cases h; rfl
  | commit p => exact absurd rfl (hne p)
  | rollback p => cases h; exact Store.committed_abort t k

theorem act_rowsBy (h : act s t a = some s') (hne : ∀ p, a ≠ .commit p) :
    s'.store.rowsBy s'.store.committed = s.store.rowsBy s.store.committed := by
  cases a with
  | goto p => cases h; rfl
  | lock l p =>
    obtain ⟨-, rfl⟩ := act_lock_some h
    rfl
  | write k v p =>
    obtain ⟨-, rfl⟩ := act_write_some h
    exact Store.rowsBy_put t k v
  | touch m p => cases h; rfl
  | commit p => exact absurd rfl (hne p)
  | rollback p =>
    cases h
    have hsame : (s.store.abort t).committed = s.store.committed := funext fun k => Store.committed_abort t k
    unfold Store.rowsBy
    rw [hsame]
    rfl

theorem act_committed_cases (h : act s t a = some s') :
    (∀ k, s'.store.committed k = s.store.committed k) ∨ s'.store = s.store.commit t := by
  by_cases hcommit : ∃ p, a = .commit p
  · obtain ⟨p, rfl⟩ := hcommit
    cases h
    exact .inr rfl
  · exact .inl fun k => act_committed h (fun p hp => hcommit ⟨p, hp⟩) k

/-- Only a touch changes the memory. -/
theorem act_mem (h : act s t a = some s') (hne : ∀ m p, a ≠ .touch m p) : s'.mem = s.mem := by
  cases a with
  | lock l p =>
    obtain ⟨-, rfl⟩ := act_lock_some h
    rfl
  | write k v p =>
    obtain ⟨-, rfl⟩ := act_write_some h
    rfl
  | touch m p => exact absurd rfl (hne m p)
  | _ => cases h; rfl

/-- A lock somebody else holds stays where it is. -/
theorem act_locks_ne (h : act s t a = some s') (hne : t' ≠ t) {l : L} (hl : s.locks l = some t') :
    s'.locks l = some t' := by
  have hkeep : release s.locks t l = some t' := by
    have hno : s.locks l ≠ some t := by
      rw [hl]
      intro e
      exact hne (Option.some.inj e)
    rw [release, if_neg hno, hl]
  cases a with
  | goto p => cases h; exact hl
  | lock l' p =>
    obtain ⟨hfree, rfl⟩ := act_lock_some h
    have hne' : l ≠ l' := by
      rintro rfl
      rw [hl] at hfree
      rcases hfree with hf | hf
      · cases hf
      · exact hne (Option.some.inj hf)
    rw [← hl]
    exact Function.update_of_ne hne' _ _
  | write k v p =>
    obtain ⟨-, rfl⟩ := act_write_some h
    exact hl
  | touch m p => cases h; exact hl
  | commit p => cases h; exact hkeep
  | rollback p => cases h; exact hkeep

/-- A process keeps its locks until its transaction ends. -/
theorem act_locks_self (h : act s t a = some s') (hends : a.ends = false) {l : L} (hl : s.locks l = some t) :
    s'.locks l = some t := by
  cases a with
  | goto p => cases h; exact hl
  | lock l' p =>
    obtain ⟨-, rfl⟩ := act_lock_some h
    by_cases hl' : l = l'
    · subst hl'
      exact Function.update_self _ _ _
    · rw [← hl]
      exact Function.update_of_ne hl' _ _
  | write k v p =>
    obtain ⟨-, rfl⟩ := act_write_some h
    exact hl
  | touch m p => cases h; exact hl
  | commit p => cases hends
  | rollback p => cases hends

theorem act_lock {l : L} {p : P} (h : act s t (.lock l p) = some s') : s'.locks l = some t := by
  obtain ⟨-, rfl⟩ := act_lock_some h
  exact Function.update_self _ _ _

end Act

section Take

variable {S : Type} {f : State T L V M P → S} {s : State T L V M P} {s' : S} {t : T} {a : Action L V M P}

/-- A process that has taken its next action had one, and it did not have to wait. -/
theorem take_some {next : Option (Action L V M P)} (h : (next.bind (act s t)).map f = some s') :
    ∃ a state, next = some a ∧ act s t a = some state ∧ f state = s' := by
  obtain ⟨state, hstep, hs'⟩ := Option.map_eq_some_iff.mp h
  obtain ⟨a, hnext, hact⟩ := Option.bind_eq_some_iff.mp hstep
  exact ⟨a, state, hnext, hact, hs'⟩

/-- A process that has failed had not ended. -/
theorem fail_some {ended : Bool} (h : (if ended then none else (act s t a).map f) = some s') :
    ended = false ∧ ∃ state, act s t a = some state ∧ f state = s' := by
  cases ended with
  | true => cases h
  | false => exact ⟨rfl, Option.map_eq_some_iff.mp h⟩

end Take

/-! ## What has been written -/

/-- Every uncommitted row stands to its committed version as `W` allows where its writer is. -/
def Written (W : P → (k : K) → Option (V k) → Option (V k) → Prop) (s : State T L V M P) : Prop :=
  ∀ t k w, s.store.dirtyBy t k = some w → W (s.procs t) k (s.store.committed k) w

/-- What an action has to show so that `Written W` is kept: the old writes are still allowed where it goes on, and so
is the new one. -/
def Allowed (W : P → (k : K) → Option (V k) → Option (V k) → Prop) (s : State T L V M P) (t : T) :
    Action L V M P → Prop
  | .goto p | .lock _ p | .touch _ p => ∀ k c w, W (s.procs t) k c w → W p k c w
  | .write k v p => (∀ k c w, W (s.procs t) k c w → W p k c w) ∧ W p k (s.store.committed k) v
  | .commit _ | .rollback _ => True

omit [DecidableEq K] [DecidableEq T] [DecidableEq L] in
/-- An action that does not end the transaction keeps what was allowed; one that writes shows besides that it may. -/
theorem Allowed.of_keeps {W : P → (k : K) → Option (V k) → Option (V k) → Prop} {s : State T L V M P} {t : T}
    {a : Action L V M P} (hkeep : a.ends = false → ∀ k c w, W (s.procs t) k c w → W a.point k c w)
    (hwrite : ∀ k v p, a = .write k v p → W p k (s.store.committed k) v) : Allowed W s t a := by
  cases a with
  | goto p => exact hkeep rfl
  | lock l p => exact hkeep rfl
  | touch m p => exact hkeep rfl
  | write k v p => exact ⟨hkeep rfl, hwrite k v p rfl⟩
  | commit p => trivial
  | rollback p => trivial

namespace Written

variable {W : P → (k : K) → Option (V k) → Option (V k) → Prop} {s s' : State T L V M P} {t : T}
  {a : Action L V M P}

omit [DecidableEq K] [DecidableEq L] in
/-- A database at rest. -/
theorem of_clean (h : ∀ t k, s.store.dirtyBy t k = none) : Written W s := by
  intro t k w hd
  rw [h t k] at hd
  cases hd

omit [DecidableEq K] [DecidableEq L] in
/-- The process moves on and the rows stay as they are. -/
theorem move {p : P} (hw : Written W s) (hp : ∀ k c w, W (s.procs t) k c w → W p k c w)
    (hstore : s'.store = s.store) (hprocs : s'.procs = Function.update s.procs t p) : Written W s' := by
  intro t' k w hd
  rw [hstore] at hd ⊢
  rw [hprocs]
  by_cases ht : t' = t
  · subst ht
    rw [Function.update_self]
    exact hp k _ w (hw t' k w hd)
  · rw [Function.update_of_ne ht]
    exact hw t' k w hd

omit [DecidableEq K] [DecidableEq L] in
/-- The process ends: it has nothing uncommitted, and the rows of the others are where they were. -/
theorem finish {p : P} (hw : Written W s) (hself : ∀ k, s'.store.dirtyBy t k = none)
    (hother : ∀ t', t' ≠ t → ∀ k, s'.store.dirtyBy t' k = s.store.dirtyBy t' k)
    (hcommitted : ∀ k, s.store.dirtyBy t k = none → s'.store.committed k = s.store.committed k)
    (hprocs : s'.procs = Function.update s.procs t p) : Written W s' := by
  intro t' k w hd
  by_cases ht : t' = t
  · subst ht
    rw [hself k] at hd
    cases hd
  · rw [hother t' ht k] at hd
    have hclean : s.store.dirtyBy t k = none := by
      cases hd' : s.store.dirtyBy t k with
      | none => rfl
      | some w' => exact absurd (Store.dirtyBy_unique hd hd') ht
    rw [hprocs, Function.update_of_ne ht, hcommitted k hclean]
    exact hw t' k w hd

/-- **The rule for `Written`.** -/
theorem act (hw : Written W s) (ha : Allowed W s t a) (h : Transactions.act s t a = some s') : Written W s' := by
  have hprocs := act_procs h
  cases a with
  | goto p =>
    cases h
    exact hw.move ha rfl rfl
  | lock l p =>
    obtain ⟨-, rfl⟩ := act_lock_some h
    exact hw.move ha rfl rfl
  | touch m p =>
    cases h
    exact hw.move ha rfl rfl
  | write k v p =>
    obtain ⟨hfree, rfl⟩ := act_write_some h
    intro t' k' w hd
    simp only [Store.committed_put]
    by_cases ht : t' = t
    · subst ht
      simp only [Function.update_self]
      by_cases hk : k' = k
      · subst hk
        have hv : v = w := by simpa using hd
        rw [← hv]
        exact ha.2
      · rw [Store.dirtyBy_put_of_ne hk] at hd
        exact ha.1 k' _ w (hw t' k' w hd)
    · rw [Store.dirtyBy_put_other hfree ht] at hd
      simp only [Function.update_of_ne ht]
      exact hw t' k' w hd
  | commit p =>
    cases h
    refine hw.finish (Store.dirtyBy_commit_self t) ?_ ?_ hprocs
    · intro t' ht k
      exact Store.dirtyBy_commit_ne ht k
    · intro k hclean
      rw [Store.committed_commit, hclean, Option.getD_none]
  | rollback p =>
    cases h
    refine hw.finish (Store.dirtyBy_abort_self t) ?_ ?_ hprocs
    · intro t' ht k
      exact Store.dirtyBy_abort_ne ht k
    · intro k _
      exact Store.committed_abort t k

omit [DecidableEq K] [DecidableEq L] in
/-- A commit publishes what `W` allows, and leaves every other row. -/
theorem committed (hw : Written W s) (t : T) (k : K) :
    W (s.procs t) k (s.store.committed k) ((s.store.commit t).committed k) ∨
      (s.store.commit t).committed k = s.store.committed k := by
  rw [Store.committed_commit]
  cases hd : s.store.dirtyBy t k with
  | none => exact .inr rfl
  | some w => exact .inl (hw t k w hd)

end Written

/-! ## Exactly what has been written -/

/-- Of the rows in `Q`, where a process is says which it has written, and as what. -/
def Owned (Q : K → Prop) (own : P → (k : K) → Option (Option (V k))) (s : State T L V M P) : Prop :=
  ∀ t k, Q k → s.store.dirtyBy t k = own (s.procs t) k

/-- What an action from `p₀` has to show so that `Owned own` is kept. -/
def Tracked (Q : K → Prop) (own : P → (k : K) → Option (Option (V k))) (p₀ : P) : Action L V M P → Prop
  | .goto p | .lock _ p | .touch _ p => ∀ k, Q k → own p k = own p₀ k
  | .write k v p => (Q k → own p k = some v) ∧ ∀ k', k' ≠ k → Q k' → own p k' = own p₀ k'
  | .commit p | .rollback p => ∀ k, Q k → own p k = none

namespace Owned

variable {Q : K → Prop} {own : P → (k : K) → Option (Option (V k))} {s s' : State T L V M P} {t : T} {a : Action L V M P}

/-- **The rule for `Owned`.** -/
theorem act (ho : Owned Q own s) (ha : Tracked Q own (s.procs t) a) (h : Transactions.act s t a = some s') :
    Owned Q own s' := by
  have hself : ∀ k, Q k → s'.store.dirtyBy t k = own a.point k := by
    intro k hk
    cases a with
    | goto p => cases h; exact (ho t k hk).trans (ha k hk).symm
    | lock l p =>
      obtain ⟨-, rfl⟩ := act_lock_some h
      exact (ho t k hk).trans (ha k hk).symm
    | touch m p => cases h; exact (ho t k hk).trans (ha k hk).symm
    | write k' v p =>
      obtain ⟨-, rfl⟩ := act_write_some h
      by_cases hne : k = k'
      · subst hne
        exact (Store.dirtyBy_put_self v).trans (ha.1 hk).symm
      · exact (Store.dirtyBy_put_of_ne hne v).trans ((ho t k hk).trans (ha.2 k hne hk).symm)
    | commit p => cases h; exact (Store.dirtyBy_commit_self t k).trans (ha k hk).symm
    | rollback p => cases h; exact (Store.dirtyBy_abort_self t k).trans (ha k hk).symm
  have hother : ∀ t', t' ≠ t → ∀ k, s'.store.dirtyBy t' k = s.store.dirtyBy t' k := by
    intro t' ht k
    cases a with
    | lock l p =>
      obtain ⟨-, rfl⟩ := act_lock_some h
      rfl
    | write k' v p =>
      obtain ⟨hfree, rfl⟩ := act_write_some h
      exact Store.dirtyBy_put_other hfree ht v k
    | commit p => cases h; exact Store.dirtyBy_commit_ne ht k
    | rollback p => cases h; exact Store.dirtyBy_abort_ne ht k
    | _ => cases h; rfl
  intro t' k hk
  by_cases ht : t' = t
  · subst ht
    rw [act_procs_self h]
    exact hself k hk
  · rw [act_procs_ne h ht, hother t' ht k]
    exact ho t' k hk

omit [DecidableEq K] [DecidableEq L] in
/-- A commit publishes what the process has written, and nothing else. -/
theorem committed (ho : Owned Q own s) (t : T) {k : K} (hk : Q k) :
    (s.store.commit t).committed k = (own (s.procs t) k).getD (s.store.committed k) := by
  rw [Store.committed_commit, ho t k hk]

omit [DecidableEq K] [DecidableEq L] in
/-- Two processes never have written the same row. -/
theorem unique (ho : Owned Q own s) {t t' : T} {k : K} (hk : Q k) {w w' : Option (V k)} (h : own (s.procs t) k = some w)
    (h' : own (s.procs t') k = some w') : t = t' :=
  Store.dirtyBy_unique ((ho t k hk).trans h) ((ho t' k hk).trans h')

omit [DecidableEq K] [DecidableEq L] in
theorem view_of_none (ho : Owned Q own s) {k : K} (hk : Q k) (h : own (s.procs t) k = none) :
    s.store.view t k = s.store.committed k :=
  Store.view_of_clean ((ho t k hk).trans h)

end Owned

end Transactions
