import LinkShortener.Lib.Run
import LinkShortener.Lib.Transactions

/-!
# Rows that are held, statements over many rows, and executions that come to nothing

What a run of transactions remembers beside its rows.

* `noneSince`: nothing of a kind has been added to a log, newest entry first, since it had a given length.
* `Holds`: a row that a process has written is out of reach of the others. `AllVersions`: what is true of all versions of
  a row, committed or not, is true of what is written next.
* `Covered C todo t`: of the committed rows that satisfy `P`, process `t` has written all but `todo` to versions that do
  not. The snapshot of a statement covers (`covered_targets`), its work on a row keeps it (`Covered.write`,
  `Covered.pass`), and so does whatever another process does that makes no new row of the kind (`Covered.act_other`).
  Once nothing is left to do, a commit publishes no row of the kind but those the process itself has made so
  (`Covered.commit`).
* `erase t p`: the state without what `t` has written, and with `t` at the point `p`. Nobody else can tell the difference
  (`act_erase_other`), and `t` itself changes nothing but its own part as long as it does not commit (`act_erase_self`).
-/

namespace Transactions

open ReadCommitted

/-! ## What has been logged since -/

section Since

variable {E : Type} {Q : E → Bool} {e : E} {es log : List E} {n : Nat}

/-- The entries added since the log had length `n`. -/
def since (log : List E) (n : Nat) : List E := log.take (log.length - n)

/-- Nothing of the kind `Q` has been added since the log had length `n`. -/
def noneSince (Q : E → Bool) (log : List E) (n : Nat) : Bool := (since log n).all fun e => !Q e

theorem since_cons (h : n ≤ log.length) : since (e :: log) n = e :: since log n := by
  unfold since
  have hlength : (e :: log).length - n = log.length - n + 1 := by
    rw [List.length_cons]
    omega
  rw [hlength, List.take_succ_cons]

theorem since_of_length_le (h : log.length ≤ n) : since log n = [] := by
  unfold since
  rw [Nat.sub_eq_zero_of_le h, List.take_zero]

theorem noneSince_cons (h : n ≤ log.length) :
    noneSince Q (e :: log) n = true ↔ Q e = false ∧ noneSince Q log n = true := by
  unfold noneSince
  rw [since_cons h, List.all_cons, Bool.and_eq_true, Bool.not_eq_true']

theorem noneSince_of_length_le (h : log.length ≤ n) : noneSince Q log n = true := by
  unfold noneSince
  rw [since_of_length_le h]
  rfl

theorem noneSince_of_append (h : noneSince Q (es ++ log) n = true) : noneSince Q log n = true := by
  induction es with
  | nil => exact h
  | cons e es ih =>
    by_cases hn : n ≤ (es ++ log).length
    · exact ih ((noneSince_cons hn).mp h).2
    · refine noneSince_of_length_le ?_
      rw [List.length_append] at hn
      omega

theorem noneSince_append (h : noneSince Q log n = true) (hes : ∀ e ∈ es, Q e = false) :
    noneSince Q (es ++ log) n = true := by
  induction es with
  | nil => exact h
  | cons e es ih =>
    have hrest := ih fun e' he' => hes e' (List.mem_cons_of_mem e he')
    by_cases hn : n ≤ (es ++ log).length
    · exact (noneSince_cons hn).mpr ⟨hes e List.mem_cons_self, hrest⟩
    · refine noneSince_of_length_le ?_
      show (es ++ log).length + 1 ≤ n
      omega

/-- What has been added after the log had length `n` is none of the kind. -/
theorem noneSince_mem (h : noneSince Q (es ++ log) n = true) (hn : n ≤ log.length) (he : e ∈ es) : Q e = false := by
  induction es with
  | nil => cases he
  | cons e' es ih =>
    have hle : n ≤ (es ++ log).length := by
      rw [List.length_append]
      omega
    obtain ⟨hhead, htail⟩ := (noneSince_cons hle).mp h
    rcases List.mem_cons.mp he with rfl | hmem
    · exact hhead
    · exact ih htail hmem

end Since

variable {T L K : Type} {V : K → Type} {M P : Type} [DecidableEq T] [DecidableEq L] [DecidableEq K]

section Others

variable {s s' : State T L V M P} {t t' : T} {a : Action L V M P}

theorem act_goto_store {p : P} (h : act s t (.goto p) = some s') : s'.store = s.store := by
  cases h
  rfl

theorem act_commit_store {p : P} (h : act s t (.commit p) = some s') : s'.store = s.store.commit t := by
  cases h
  rfl

/-- A process that has ended has nothing uncommitted. -/
theorem act_dirtyBy_of_ends (h : act s t a = some s') (hends : a.ends = true) (k : K) :
    s'.store.dirtyBy t k = none := by
  cases a with
  | commit p => cases h; exact Store.dirtyBy_commit_self t k
  | rollback p => cases h; exact Store.dirtyBy_abort_self t k
  | _ => cases hends

/-- What a process has written is its own. -/
theorem act_dirtyBy_ne (h : act s t a = some s') (hne : t' ≠ t) (k : K) :
    s'.store.dirtyBy t' k = s.store.dirtyBy t' k := by
  cases a with
  | lock l p =>
    obtain ⟨-, rfl⟩ := act_lock_some h
    rfl
  | write k' v p =>
    obtain ⟨hfree, rfl⟩ := act_write_some h
    exact Store.dirtyBy_put_other hfree hne v k
  | commit p => cases h; exact Store.dirtyBy_commit_ne hne k
  | rollback p => cases h; exact Store.dirtyBy_abort_ne hne k
  | _ => cases h; rfl

/-- What is uncommitted was uncommitted before, or has just been written. -/
theorem act_dirtyBy_cases (h : act s t a = some s') {k : K} {w : Option (V k)} (hd : s'.store.dirtyBy t' k = some w) :
    s.store.dirtyBy t' k = some w ∨ ∃ p, t' = t ∧ a = .write k w p := by
  by_cases ht : t' = t
  · subst ht
    cases a with
    | lock l p =>
      obtain ⟨-, rfl⟩ := act_lock_some h
      exact .inl hd
    | write k' v p =>
      obtain ⟨-, rfl⟩ := act_write_some h
      by_cases hk : k = k'
      · subst hk
        rw [Store.dirtyBy_put_self] at hd
        cases hd
        exact .inr ⟨p, rfl, rfl⟩
      · rw [Store.dirtyBy_put_of_ne hk] at hd
        exact .inl hd
    | commit p =>
      cases h
      rw [Store.dirtyBy_commit_self] at hd
      cases hd
    | rollback p =>
      cases h
      rw [Store.dirtyBy_abort_self] at hd
      cases hd
    | _ => cases h; exact .inl hd
  · rw [act_dirtyBy_ne h ht] at hd
    exact .inl hd

/-- No key is forgotten. -/
theorem act_keys (h : act s t a = some s') {k : K} (hk : k ∈ s.store.keys) : k ∈ s'.store.keys := by
  cases a with
  | lock l p =>
    obtain ⟨-, rfl⟩ := act_lock_some h
    exact hk
  | write k' v p =>
    obtain ⟨-, rfl⟩ := act_write_some h
    show k ∈ (if k' ∈ s.store.keys then s.store.keys else k' :: s.store.keys)
    split
    · exact hk
    · exact List.mem_cons_of_mem k' hk
  | commit p => cases h; exact hk
  | rollback p => cases h; exact hk
  | _ => cases h; exact hk

/-- The committed version of a row whose lock somebody else holds stays. -/
theorem act_committed_of_held (h : act s t a = some s') (hne : t' ≠ t) {k : K} {w : Option (V k)}
    (hd : s.store.dirtyBy t' k = some w) : s'.store.committed k = s.store.committed k := by
  rcases act_committed_cases h with hsame | hcommit
  · exact hsame k
  · rw [hcommit, Store.committed_commit]
    cases hd' : s.store.dirtyBy t k with
    | none => rfl
    | some w' => exact absurd (Store.dirtyBy_unique hd hd') hne

end Others

/-! ## One row -/

/-- Process `t` holds the row `k`, has written `w` to it and will replace `c`. -/
def Holds (s : State T L V M P) (t : T) (k : K) (c w : Option (V k)) : Prop :=
  s.store.committed k = c ∧ s.store.dirtyBy t k = some w

namespace Holds

variable {s s' : State T L V M P} {t t' : T} {k : K} {c w : Option (V k)} {a : Action L V M P}

/-- A row that is held is out of reach of the others. -/
theorem act_other (h : Holds s t k c w) (hact : act s t' a = some s') (hne : t ≠ t') : Holds s' t k c w :=
  ⟨(act_committed_of_held hact hne h.2).trans h.1, (act_dirtyBy_ne hact hne k).trans h.2⟩

/-- The process goes on. -/
theorem goto {p : P} (h : Holds s t k c w) (hact : act s t (.goto p) = some s') : Holds s' t k c w := by
  cases hact
  exact h

/-- The process writes another row. -/
theorem write_ne {k' : K} {v : Option (V k')} {p : P} (h : Holds s t k c w) (hact : act s t (.write k' v p) = some s')
    (hne : k ≠ k') : Holds s' t k c w := by
  obtain ⟨-, rfl⟩ := act_write_some hact
  exact ⟨(Store.committed_put v k).trans h.1, (Store.dirtyBy_put_of_ne hne v).trans h.2⟩

omit [DecidableEq K] [DecidableEq L] in
theorem mem_keys (h : Holds s t k c w) : k ∈ s.store.keys := by
  by_contra hk
  have hnone : s.store.dirtyBy t k = none := by
    unfold Store.dirtyBy
    rw [s.store.support k hk]
    rfl
  have hd := h.2
  rw [hnone] at hd
  cases hd

/-- The process commits: what it has written is the only version. -/
theorem commit {p : P} (h : Holds s t k c w) (hact : act s t (.commit p) = some s') :
    s'.store.committed k = w ∧ ∀ t', s'.store.dirtyBy t' k = none := by
  have hstore := act_commit_store hact
  constructor
  · rw [hstore, Store.committed_commit, h.2]
    rfl
  · intro t'
    by_cases ht : t' = t
    · subst ht
      exact act_dirtyBy_of_ends hact rfl k
    · rw [act_dirtyBy_ne hact ht k]
      cases hd : s.store.dirtyBy t' k with
      | none => rfl
      | some w' => exact absurd (Store.dirtyBy_unique hd h.2) ht

/-- The process writes the row. -/
theorem of_write {p : P} (hact : act s t (.write k w p) = some s') : Holds s' t k (s.store.committed k) w := by
  obtain ⟨-, rfl⟩ := act_write_some hact
  exact ⟨Store.committed_put w k, Store.dirtyBy_put_self w⟩

end Holds

/-- Every version of the row `k`, committed or not, satisfies `Q`. -/
def AllVersions (k : K) (Q : V k → Prop) (S : Store T V) : Prop :=
  (∀ v, S.committed k = some v → Q v) ∧ ∀ t v, S.dirtyBy t k = some (some v) → Q v

/-- What is written to the row satisfies `Q`. -/
theorem AllVersions.act {k : K} {Q : V k → Prop} {s s' : State T L V M P} {t : T} {a : Action L V M P}
    (h : AllVersions k Q s.store) (hact : Transactions.act s t a = some s')
    (hw : ∀ v p, a = .write k (some v) p → Q v) : AllVersions k Q s'.store := by
  constructor
  · intro v hv
    rcases act_committed_cases hact with hsame | hcommit
    · exact h.1 v ((hsame k).symm.trans hv)
    · rw [hcommit, Store.committed_commit] at hv
      cases hd : s.store.dirtyBy t k with
      | none =>
        rw [hd] at hv
        exact h.1 v hv
      | some w =>
        rw [hd] at hv
        exact h.2 t v (hd.trans (congrArg some hv))
  · intro t' v hv
    by_cases ht : t' = t
    · subst ht
      cases a with
      | lock l p =>
        obtain ⟨-, rfl⟩ := act_lock_some hact
        exact h.2 t' v hv
      | write k' w p =>
        obtain ⟨-, rfl⟩ := act_write_some hact
        by_cases hk : k = k'
        · subst hk
          rw [Store.dirtyBy_put_self] at hv
          cases hv
          exact hw v p rfl
        · rw [Store.dirtyBy_put_of_ne hk] at hv
          exact h.2 t' v hv
      | commit p =>
        cases hact
        rw [Store.dirtyBy_commit_self] at hv
        cases hv
      | rollback p =>
        cases hact
        rw [Store.dirtyBy_abort_self] at hv
        cases hv
      | _ => cases hact; exact h.2 t' v hv
    · rw [act_dirtyBy_ne hact ht k] at hv
      exact h.2 t' v hv

/-! ## Statements over many rows -/

/-- Of the committed rows that satisfy `C`, process `t` has written all but `todo`, and to something else. -/
def Covered (C : (k : K) → V k → Bool) (todo : List K) (t : T) (S : Store T V) : Prop :=
  ∀ k v, S.committed k = some v → C k v = true →
    k ∈ todo ∨ ∃ w, S.dirtyBy t k = some w ∧ ∀ v', w = some v' → C k v' = false

section Covered

variable {C : (k : K) → V k → Bool} {todo todo' : List K} {t t' : T} {S : Store T V}

omit [DecidableEq K] in
/-- The snapshot of a statement. -/
theorem covered_targets (hC : ∀ k v, S.view t k = some v → C k v = true → k ∈ todo) : Covered C todo t S := by
  intro k v hv hc
  cases hd : S.dirtyBy t k with
  | none => exact .inl (hC k v ((Store.view_of_clean hd).trans hv) hc)
  | some w =>
    by_cases hw : ∃ v', w = some v' ∧ C k v' = true
    · obtain ⟨v', rfl, hc'⟩ := hw
      exact .inl (hC k v' (Store.view_of_dirtyBy hd) hc')
    · refine .inr ⟨w, rfl, ?_⟩
      intro v' hv'
      by_contra hc'
      exact hw ⟨v', hv', by simpa using hc'⟩

/-- The statement has done its work on a row. -/
theorem Covered.write (h : Covered C todo t S) {k : K} {w : Option (V k)} (hw : ∀ v', w = some v' → C k v' = false)
    (htodo : ∀ k', k' ≠ k → k' ∈ todo → k' ∈ todo') : Covered C todo' t (S.put t k w) := by
  intro k' v hv hc
  by_cases hk : k' = k
  · subst hk
    exact .inr ⟨w, Store.dirtyBy_put_self w, hw⟩
  · rw [Store.committed_put] at hv
    rw [Store.dirtyBy_put_of_ne hk]
    exact (h k' v hv hc).imp_left (htodo k' hk)

omit [DecidableEq K] in
/-- The statement has nothing to do on a row. -/
theorem Covered.pass (h : Covered C todo t S) {k : K} (hpass : ∀ v, S.view t k = some v → C k v = false)
    (htodo : ∀ k', k' ≠ k → k' ∈ todo → k' ∈ todo') : Covered C todo' t S := by
  intro k' v hv hc
  by_cases hk : k' = k
  · subst hk
    cases hd : S.dirtyBy t k' with
    | none =>
      have hno := hpass v ((Store.view_of_clean hd).trans hv)
      rw [hc] at hno
      cases hno
    | some w =>
      refine .inr ⟨w, rfl, ?_⟩
      intro v' hv'
      exact hpass v' ((Store.view_of_dirtyBy hd).trans hv')
  · exact (h k' v hv hc).imp_left (htodo k' hk)

/-- Another process has made no row of the kind. -/
theorem Covered.act_other {s s' : State T L V M P} {a : Action L V M P} (h : Covered C todo t s.store)
    (hact : act s t' a = some s') (hne : t ≠ t')
    (hnew : ∀ k v, s'.store.committed k = some v → C k v = true → ∃ v₀, s.store.committed k = some v₀ ∧ C k v₀ = true) :
    Covered C todo t s'.store := by
  intro k v hv hc
  obtain ⟨v₀, hv₀, hc₀⟩ := hnew k v hv hc
  rw [act_dirtyBy_ne hact hne k]
  exact h k v₀ hv₀ hc₀

/-- The process makes a new row. -/
theorem Covered.insert (h : Covered C todo t S) {k : K} (hnew : S.committed k = none) (w : Option (V k)) :
    Covered C todo t (S.put t k w) := by
  intro k' v hv hc
  rw [Store.committed_put] at hv
  have hne : k' ≠ k := by
    rintro rfl
    rw [hnew] at hv
    cases hv
  rw [Store.dirtyBy_put_of_ne hne]
  exact h k' v hv hc

omit [DecidableEq K] in
/-- What is of the kind once the statement is done and its process commits, the process has made so itself. -/
theorem Covered.commit (h : Covered C [] t S) {k : K} {v : V k} (hv : (S.commit t).committed k = some v)
    (hc : C k v = true) : S.dirtyBy t k = some (some v) := by
  rw [Store.committed_commit] at hv
  cases hd : S.dirtyBy t k with
  | some w =>
    rw [hd] at hv
    exact congrArg some hv
  | none =>
    rw [hd] at hv
    rcases h k v hv hc with hin | ⟨w, hw, -⟩
    · cases hin
    · rw [hd] at hw
      cases hw

end Covered

/-! ## Executions that come to nothing -/

/-- The state without what `t` has written, and with `t` at `p`. -/
def erase (t : T) (p : P) (s : State T L V M P) : State T L V M P where
  store := s.store.abort t
  locks := release s.locks t
  mem := s.mem
  procs := Function.update s.procs t p

section Erase

variable {s s' : State T L V M P} {t t' : T} {p : P} {a : Action L V M P}

omit [DecidableEq K] [DecidableEq L] in
theorem erase_of_clean (hp : s.procs t = p) (hlocks : ∀ l, s.locks l ≠ some t) (hd : ∀ k, s.store.dirtyBy t k = none) :
    erase t p s = s := by
  have hsame : release s.locks t = s.locks := funext fun l => if_neg (hlocks l)
  unfold erase
  rw [Store.abort_of_clean hd, hsame, ← hp, Function.update_eq_self]

omit [DecidableEq L] in
theorem release_release (t t' : T) (locks : L → Option T) :
    release (release locks t') t = release (release locks t) t' := by
  funext l
  unfold release
  by_cases h : locks l = some t
  · simp [h]
  · simp [h]

/-- What one process has written, the others do not see. -/
theorem act_erase_other (h : act s t' a = some s') (hne : t' ≠ t) : act (erase t p s) t' a = some (erase t p s') := by
  have hprocs : ∀ q, Function.update (Function.update s.procs t p) t' q =
      Function.update (Function.update s.procs t' q) t p :=
    fun q => Function.update_comm (Ne.symm hne) p q s.procs
  cases a with
  | goto q =>
    cases h
    simp only [act, erase, hprocs]
  | touch m q =>
    cases h
    simp only [act, erase, hprocs]
  | lock l q =>
    obtain ⟨hfree, rfl⟩ := act_lock_some h
    have hother : s.locks l ≠ some t := by
      rcases hfree with hf | hf
      · rw [hf]
        exact Option.some_ne_none t ∘ Eq.symm
      · rw [hf]
        exact fun e => hne (Option.some.inj e)
    have hreleased : release s.locks t l = s.locks l := if_neg hother
    have hlocks : Function.update (release s.locks t) l (some t') = release (Function.update s.locks l (some t')) t := by
      funext l'
      by_cases hl : l' = l
      · subst hl
        simp [release, hne]
      · simp [release, Function.update_of_ne hl]
    simp only [act, erase, hreleased, if_pos hfree, hprocs, hlocks]
  | write k v q =>
    obtain ⟨hfree, rfl⟩ := act_write_some h
    have hfree' : (s.store.abort t).free t' k = true := Store.free_abort hfree
    simp only [act, erase, if_pos hfree', hprocs, Store.abort_put_ne hne]
  | commit q =>
    cases h
    simp only [act, erase, hprocs, Store.abort_commit_ne hne, release_release t t']
  | rollback q =>
    cases h
    simp only [act, erase, hprocs, Store.abort_abort t t', release_release t t']

/-- A process that does not commit leaves no trace on the rows that were there. -/
theorem act_erase_self (h : act s t a = some s') (hcommit : ∀ q, a ≠ .commit q) (htouch : ∀ m q, a ≠ .touch m q)
    (hlock : ∀ l q, a ≠ .lock l q) (hkeys : ∀ k v q, a = .write k v q → k ∈ s.store.keys) :
    erase t p s' = erase t p s := by
  cases a with
  | goto q =>
    cases h
    simp only [erase, Function.update_idem]
  | lock l q => exact absurd rfl (hlock l q)
  | touch m q => exact absurd rfl (htouch m q)
  | commit q => exact absurd rfl (hcommit q)
  | write k v q =>
    obtain ⟨hfree, rfl⟩ := act_write_some h
    simp only [erase, Function.update_idem, Store.abort_put_self hfree (hkeys k v q rfl)]
  | rollback q =>
    cases h
    have hstore : (s.store.abort t).abort t = s.store.abort t := Store.abort_of_clean (Store.dirtyBy_abort_self t)
    have hlocks : release (release s.locks t) t = release s.locks t := by
      funext l
      by_cases hl : s.locks l = some t
      · simp [release, hl]
      · simp [release, hl]
    simp only [erase, Function.update_idem, hstore, hlocks]

end Erase

end Transactions
