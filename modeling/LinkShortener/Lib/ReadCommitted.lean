import Mathlib.Data.List.Nodup
import Mathlib.Logic.Function.Basic

/-!
# Rows under READ COMMITTED

A row (`Cell`) is its newest committed version and, when some transaction has written it and not yet ended, that
transaction's version. There is room for one writer only: the writer holds the row's lock until it ends, so two
uncommitted versions of one row cannot be built.

A `Store` is a finite map of rows, the value type depending on the key (one store holds all tables of a database).
Transactions are named by a type `T`.

* A statement reads through `Store.view`: its own writes, else the newest committed version.
* `Store.targets` is the snapshot of an `UPDATE` or `DELETE` statement, the rows that satisfy its `WHERE` when it
  starts. `Store.exec` is its work on one of them; it may run only when no other transaction holds the row
  (`Store.free`), and evaluates the `WHERE` again on the version it finds then.
* `Store.commit` and `Store.abort` end a transaction and release its locks.
-/

namespace ReadCommitted

/-! ## One row -/

/-- The newest committed version of a row, and the uncommitted version of the transaction that holds its lock.
A version is `none` when the row is absent or deleted. -/
structure Cell (T α : Type) where
  committed : Option α
  dirty : Option (T × Option α)
  deriving DecidableEq

namespace Cell

variable {T α : Type}

/-- A row that never was. -/
def empty : Cell T α := ⟨none, none⟩

variable [DecidableEq T]

/-- The version transaction `t` has written and not yet committed. -/
def dirtyBy (t : T) (c : Cell T α) : Option (Option α) :=
  match c.dirty with
  | some (t', v) => if t' = t then some v else none
  | none => none

/-- No other transaction than `t` holds the row. -/
def free (t : T) (c : Cell T α) : Bool :=
  match c.dirty with
  | some (t', _) => decide (t' = t)
  | none => true

/-- The version a statement of `t` sees. -/
def view (t : T) (c : Cell T α) : Option α := (c.dirtyBy t).getD c.committed

/-- Write the row, taking its lock. -/
def put (t : T) (v : Option α) (c : Cell T α) : Cell T α := { c with dirty := some (t, v) }

/-- The version of `t` becomes the committed one. -/
def commit (t : T) (c : Cell T α) : Cell T α :=
  match c.dirtyBy t with
  | some v => ⟨v, none⟩
  | none => c

/-- The version of `t` is dropped. -/
def abort (t : T) (c : Cell T α) : Cell T α :=
  match c.dirtyBy t with
  | some _ => ⟨c.committed, none⟩
  | none => c

@[simp] theorem dirtyBy_put_self (t : T) (v : Option α) (c : Cell T α) : (c.put t v).dirtyBy t = some v := by
  simp [put, dirtyBy]

theorem dirtyBy_put_ne {t t' : T} (h : t' ≠ t) (v : Option α) (c : Cell T α) : (c.put t v).dirtyBy t' = none := by
  simp [put, dirtyBy, Ne.symm h]

/-- Two transactions never hold the same row. -/
theorem dirtyBy_unique {t t' : T} {c : Cell T α} {v v' : Option α} (h : c.dirtyBy t = some v)
    (h' : c.dirtyBy t' = some v') : t = t' := by
  unfold dirtyBy at h h'
  split at h
  · split at h <;> split at h' <;> simp_all
  · simp at h

/-- A row that `t` may lock is held by nobody else. -/
theorem dirtyBy_of_free {t t' : T} {c : Cell T α} (hf : c.free t = true) (h : t' ≠ t) : c.dirtyBy t' = none := by
  unfold free at hf
  unfold dirtyBy
  split at hf
  · simp only [decide_eq_true_eq] at hf
    simp only [hf, Ne.symm h, if_false]
  · rfl

theorem view_of_dirtyBy {t : T} {c : Cell T α} {v : Option α} (h : c.dirtyBy t = some v) : c.view t = v := by
  simp [view, h]

theorem view_of_clean {t : T} {c : Cell T α} (h : c.dirtyBy t = none) : c.view t = c.committed := by
  simp [view, h]

theorem committed_commit (t : T) (c : Cell T α) : (c.commit t).committed = (c.dirtyBy t).getD c.committed := by
  unfold commit
  split <;> simp_all

theorem dirtyBy_commit_self (t : T) (c : Cell T α) : (c.commit t).dirtyBy t = none := by
  unfold commit
  split
  · rfl
  · assumption

theorem dirtyBy_commit_ne {t t' : T} (h : t' ≠ t) (c : Cell T α) : (c.commit t).dirtyBy t' = c.dirtyBy t' := by
  unfold commit
  split
  · rename_i v hv
    cases hv' : c.dirtyBy t' with
    | none => rfl
    | some v' => exact absurd (dirtyBy_unique hv' hv) h
  · rfl

@[simp] theorem committed_abort (t : T) (c : Cell T α) : (c.abort t).committed = c.committed := by
  unfold abort
  split <;> rfl

theorem dirtyBy_abort_self (t : T) (c : Cell T α) : (c.abort t).dirtyBy t = none := by
  unfold abort
  split
  · rfl
  · assumption

theorem dirtyBy_abort_ne {t t' : T} (h : t' ≠ t) (c : Cell T α) : (c.abort t).dirtyBy t' = c.dirtyBy t' := by
  unfold abort
  split
  · rename_i v hv
    cases hv' : c.dirtyBy t' with
    | none => rfl
    | some v' => exact absurd (dirtyBy_unique hv' hv) h
  · rfl

theorem free_abort {t t' : T} {c : Cell T α} (hf : c.free t' = true) : (c.abort t).free t' = true := by
  unfold abort
  split
  · rfl
  · exact hf

theorem view_abort_ne {t t' : T} (h : t' ≠ t) (c : Cell T α) : (c.abort t).view t' = c.view t' := by
  unfold view
  rw [dirtyBy_abort_ne h, committed_abort]

theorem abort_of_clean {t : T} {c : Cell T α} (h : c.dirtyBy t = none) : c.abort t = c := by
  unfold abort
  rw [h]

theorem abort_of_dirtyBy {t : T} {c : Cell T α} {v : Option α} (h : c.dirtyBy t = some v) :
    c.abort t = ⟨c.committed, none⟩ := by
  unfold abort
  rw [h]

/-- What a transaction writes is dropped with it. -/
theorem abort_put_self {t : T} {c : Cell T α} (hf : c.free t = true) (v : Option α) :
    (c.put t v).abort t = c.abort t := by
  rw [abort_of_dirtyBy (dirtyBy_put_self t v c)]
  obtain ⟨committed, dirty⟩ := c
  cases dirty with
  | none => rfl
  | some d =>
    obtain ⟨t', v'⟩ := d
    have ht : t' = t := by simpa [free] using hf
    subst ht
    have hd : dirtyBy t' (⟨committed, some (t', v')⟩ : Cell T α) = some v' := by simp [dirtyBy]
    exact (abort_of_dirtyBy hd).symm

theorem abort_put_ne {t t' : T} (h : t' ≠ t) (c : Cell T α) (v : Option α) :
    (c.put t' v).abort t = (c.abort t).put t' v := by
  rw [abort_of_clean (dirtyBy_put_ne (Ne.symm h) v c)]
  cases hd : c.dirtyBy t with
  | none => rw [abort_of_clean hd]
  | some v' => rw [abort_of_dirtyBy hd]; rfl

theorem abort_commit_ne {t t' : T} (h : t' ≠ t) (c : Cell T α) : (c.commit t').abort t = (c.abort t).commit t' := by
  cases hd : c.dirtyBy t with
  | none =>
    have hclean : (c.commit t').dirtyBy t = none := (dirtyBy_commit_ne (Ne.symm h) c).trans hd
    rw [abort_of_clean hd, abort_of_clean hclean]
  | some v =>
    have hother : c.dirtyBy t' = none := by
      cases hd' : c.dirtyBy t' with
      | none => rfl
      | some v' => exact absurd (dirtyBy_unique hd' hd) h
    rw [abort_of_dirtyBy hd]
    unfold commit
    rw [hother]
    exact abort_of_dirtyBy hd

theorem abort_abort (t t' : T) (c : Cell T α) : (c.abort t').abort t = (c.abort t).abort t' := by
  cases hd : c.dirtyBy t with
  | none =>
    have hclean : (c.abort t').dirtyBy t = none := by
      by_cases h : t = t'
      · subst h
        exact dirtyBy_abort_self t c
      · exact (dirtyBy_abort_ne h c).trans hd
    rw [abort_of_clean hd, abort_of_clean hclean]
  | some v =>
    cases hd' : c.dirtyBy t' with
    | none =>
      have hclean : (c.abort t).dirtyBy t' = none := by
        rw [abort_of_dirtyBy hd]
        rfl
      rw [abort_of_clean hd', abort_of_clean hclean]
    | some v' => rw [dirtyBy_unique hd hd']

end Cell

/-! ## The store -/

/-- A database: finitely many rows, each with its committed and its uncommitted version. -/
structure Store (T : Type) {K : Type} (V : K → Type) where
  cells : (k : K) → Cell T (V k)
  keys : List K
  nodup : keys.Nodup
  support : ∀ k, k ∉ keys → cells k = Cell.empty

/-- An `UPDATE` (`set` gives the new version) or a `DELETE` (`set` gives `none`). -/
structure Stmt {K : Type} (V : K → Type) where
  cond : (k : K) → V k → Bool
  set : (k : K) → V k → Option (V k)

namespace Store

variable {T K : Type} {V : K → Type} [DecidableEq T]

/-- The newest committed version of a row. -/
def committed (S : Store T V) (k : K) : Option (V k) := (S.cells k).committed

/-- The uncommitted version of a row that `t` has written. -/
def dirtyBy (S : Store T V) (t : T) (k : K) : Option (Option (V k)) := (S.cells k).dirtyBy t

/-- The version of a row that a statement of `t` sees. -/
def view (S : Store T V) (t : T) (k : K) : Option (V k) := (S.cells k).view t

/-- No other transaction than `t` holds the row. -/
def free (S : Store T V) (t : T) (k : K) : Bool := (S.cells k).free t

/-- A database at rest: the rows given, all committed. -/
def load [DecidableEq K] (keys : List K) (nodup : keys.Nodup) (rows : (k : K) → Option (V k)) : Store T V where
  cells := fun k => if k ∈ keys then ⟨rows k, none⟩ else Cell.empty
  keys := keys
  nodup := nodup
  support := by
    intro k hk
    rw [if_neg hk]

/-- Write a row in transaction `t`. -/
def put [DecidableEq K] (S : Store T V) (t : T) (k : K) (v : Option (V k)) : Store T V where
  cells := Function.update S.cells k ((S.cells k).put t v)
  keys := if k ∈ S.keys then S.keys else k :: S.keys
  nodup := by
    split
    · exact S.nodup
    · rename_i h
      exact List.nodup_cons.mpr ⟨h, S.nodup⟩
  support := by
    intro k' hk'
    have hne : k' ≠ k := by
      rintro rfl
      split at hk' <;> simp_all
    rw [Function.update_of_ne hne]
    apply S.support
    split at hk' <;> simp_all

/-- Insert a row under a key no row has; `none` when the key is taken. -/
def insert [DecidableEq K] (S : Store T V) (t : T) (k : K) (v : V k) : Option (Store T V) :=
  if (S.cells k).committed.isNone && (S.cells k).dirty.isNone then some (S.put t k (some v)) else none

/-- Transaction `t` commits. -/
def commit (S : Store T V) (t : T) : Store T V where
  cells := fun k => (S.cells k).commit t
  keys := S.keys
  nodup := S.nodup
  support := by
    intro k hk
    rw [S.support k hk]
    rfl

/-- Transaction `t` rolls back. -/
def abort (S : Store T V) (t : T) : Store T V where
  cells := fun k => (S.cells k).abort t
  keys := S.keys
  nodup := S.nodup
  support := by
    intro k hk
    rw [S.support k hk]
    rfl

/-- The rows that are there, each with its key, as `get` reads them. -/
def rowsBy (S : Store T V) (get : (k : K) → Option (V k)) : List ((k : K) × V k) :=
  S.keys.filterMap fun k => (get k).map (Sigma.mk k)

/-- The rows a query of `t` returns. -/
def select (S : Store T V) (t : T) (cond : (k : K) → V k → Bool) : List K :=
  S.keys.filter fun k => (S.view t k).any (cond k)

/-- The snapshot of a statement: the rows that satisfy its `WHERE` when it starts. -/
def targets (S : Store T V) (t : T) (u : Stmt V) : List K := S.select t u.cond

/-- Whether the row satisfies the `WHERE` in the version the statement finds once it has the lock. -/
def matchesNow (S : Store T V) (t : T) (u : Stmt V) (k : K) : Bool := (S.view t k).any (u.cond k)

/-- The statement's work on one row. -/
def exec [DecidableEq K] (S : Store T V) (t : T) (u : Stmt V) (k : K) : Store T V :=
  match S.view t k with
  | some v => if u.cond k v then S.put t k (u.set k v) else S
  | none => S

section Load

variable [DecidableEq K] {keys : List K} {nodup : keys.Nodup} {rows : (k : K) → Option (V k)}

omit [DecidableEq T] in
theorem committed_load (k : K) :
    (load keys nodup rows : Store T V).committed k = if k ∈ keys then rows k else none := by
  simp only [committed, load]
  split <;> rfl

@[simp] theorem dirtyBy_load (t : T) (k : K) : (load keys nodup rows : Store T V).dirtyBy t k = none := by
  simp only [dirtyBy, load]
  split <;> rfl

end Load

/-! ### Reading after writing -/

section Writes

variable [DecidableEq K] {S : Store T V} {t t' : T} {k k' : K}

omit [DecidableEq T] in
@[simp] theorem committed_put (v : Option (V k)) (k' : K) : (S.put t k v).committed k' = S.committed k' := by
  by_cases h : k' = k
  · subst h
    simp [committed, put, Cell.put]
  · simp [committed, put, Function.update_of_ne h]

@[simp] theorem dirtyBy_put_self (v : Option (V k)) : (S.put t k v).dirtyBy t k = some v := by
  simp [dirtyBy, put]

theorem dirtyBy_put_of_ne (h : k' ≠ k) (v : Option (V k)) : (S.put t k v).dirtyBy t' k' = S.dirtyBy t' k' := by
  simp [dirtyBy, put, Function.update_of_ne h]

/-- A row that was free is held by the writer alone. -/
theorem dirtyBy_put_other (hf : S.free t k = true) (h : t' ≠ t) (v : Option (V k)) (k' : K) :
    (S.put t k v).dirtyBy t' k' = S.dirtyBy t' k' := by
  by_cases hk : k' = k
  · subst hk
    simp only [dirtyBy, put, Function.update_self]
    rw [Cell.dirtyBy_put_ne h, Cell.dirtyBy_of_free hf h]
  · exact dirtyBy_put_of_ne hk v

/-- The statement changes the row in the version it sees, or leaves the store alone. -/
theorem exec_cases (S : Store T V) (t : T) (u : Stmt V) (k : K) :
    (∃ v, S.view t k = some v ∧ u.cond k v = true ∧ S.exec t u k = S.put t k (u.set k v) ∧ S.matchesNow t u k = true) ∨
      S.exec t u k = S ∧ S.matchesNow t u k = false := by
  unfold exec matchesNow
  cases hv : S.view t k with
  | none => exact .inr ⟨rfl, rfl⟩
  | some v =>
    by_cases hc : u.cond k v = true
    · exact .inl ⟨v, rfl, hc, by simp [hc], by simpa using hc⟩
    · exact .inr ⟨by simp [hc], by simpa using hc⟩

/-- Only a row that is absent and unlocked can be inserted. -/
theorem insert_eq_some {v : V k} {S' : Store T V} (h : S.insert t k v = some S') :
    S.committed k = none ∧ S.dirtyBy t k = none ∧ S.free t k = true ∧ S' = S.put t k (some v) := by
  unfold insert at h
  split at h
  · rename_i hc
    simp only [Bool.and_eq_true, Option.isNone_iff_eq_none] at hc
    refine ⟨hc.1, ?_, ?_, (Option.some.inj h).symm⟩
    · simp [dirtyBy, Cell.dirtyBy, hc.2]
    · simp [free, Cell.free, hc.2]
  · simp at h

end Writes

theorem mem_targets {S : Store T V} {t : T} {u : Stmt V} {k : K} :
    k ∈ S.targets t u ↔ k ∈ S.keys ∧ ∃ v, S.view t k = some v ∧ u.cond k v = true := by
  simp [targets, select, Option.any_eq_true]

omit [DecidableEq T] in
theorem mem_keys_of_committed {S : Store T V} {k : K} {v : V k} (h : S.committed k = some v) : k ∈ S.keys := by
  by_contra hk
  simp [committed, S.support k hk, Cell.empty] at h

/-- What a statement sees is there. -/
theorem mem_keys_of_view {S : Store T V} {t : T} {k : K} (h : (S.view t k).isSome = true) : k ∈ S.keys := by
  by_contra hk
  have hnone : S.view t k = none := by
    unfold view
    rw [S.support k hk]
    rfl
  rw [hnone] at h
  cases h

/-! ### All rows -/

section Rows

variable {S : Store T V} {get : (k : K) → Option (V k)}

omit [DecidableEq T] in
theorem mem_rowsBy {x : (k : K) × V k} : x ∈ S.rowsBy get ↔ x.1 ∈ S.keys ∧ get x.1 = some x.2 := by
  obtain ⟨k, v⟩ := x
  simp only [rowsBy, List.mem_filterMap, Option.map_eq_some_iff]
  constructor
  · rintro ⟨k', hk', v', hv', heq⟩
    cases heq
    exact ⟨hk', hv'⟩
  · rintro ⟨hk, hv⟩
    exact ⟨k, hk, v, hv, rfl⟩

omit [DecidableEq T] in
theorem mem_committedRows {x : (k : K) × V k} : x ∈ S.rowsBy S.committed ↔ S.committed x.1 = some x.2 :=
  mem_rowsBy.trans ⟨fun h => h.2, fun h => ⟨mem_keys_of_committed h, h⟩⟩

omit [DecidableEq T] in
/-- A key has one row. -/
theorem nodup_rowsBy : ((S.rowsBy get).map Sigma.fst).Nodup := by
  have hsub : ((S.rowsBy get).map Sigma.fst).Sublist S.keys := by
    unfold rowsBy
    rw [List.map_filterMap]
    induction S.keys with
    | nil => exact .slnil
    | cons k keys ih =>
      cases h : get k with
      | none =>
        rw [List.filterMap_cons_none (by simp [h])]
        exact ih.cons k
      | some v =>
        rw [List.filterMap_cons_some (b := k) (by simp [h])]
        exact ih.cons_cons k
  exact S.nodup.sublist hsub

omit [DecidableEq T] in
/-- Nothing is committed by a write. -/
theorem rowsBy_put [DecidableEq K] (t : T) (k : K) (v : Option (V k)) :
    (S.put t k v).rowsBy (S.put t k v).committed = S.rowsBy S.committed := by
  have hsame : (S.put t k v).committed = S.committed := funext fun k' => committed_put v k'
  have hkeys : (S.put t k v).keys = if k ∈ S.keys then S.keys else k :: S.keys := rfl
  unfold rowsBy
  rw [hsame, hkeys]
  split
  · rfl
  · rename_i hk
    have hnone : S.committed k = none := by
      unfold committed
      rw [S.support k hk]
      rfl
    rw [List.filterMap_cons_none (by rw [hnone]; rfl)]

end Rows

/-! ### Locks, views and the end of a transaction -/

section Ends

variable {S : Store T V} {t t' : T} {k : K}

theorem dirtyBy_unique {v v' : Option (V k)} (h : S.dirtyBy t k = some v) (h' : S.dirtyBy t' k = some v') : t = t' :=
  Cell.dirtyBy_unique h h'

theorem dirtyBy_of_free (hf : S.free t k = true) (h : t' ≠ t) : S.dirtyBy t' k = none := Cell.dirtyBy_of_free hf h

theorem view_of_dirtyBy {v : Option (V k)} (h : S.dirtyBy t k = some v) : S.view t k = v := Cell.view_of_dirtyBy h

theorem view_of_clean (h : S.dirtyBy t k = none) : S.view t k = S.committed k := Cell.view_of_clean h

theorem committed_commit (t : T) (k : K) : (S.commit t).committed k = (S.dirtyBy t k).getD (S.committed k) :=
  Cell.committed_commit t _

@[simp] theorem dirtyBy_commit_self (t : T) (k : K) : (S.commit t).dirtyBy t k = none :=
  Cell.dirtyBy_commit_self t _

theorem dirtyBy_commit_ne (h : t' ≠ t) (k : K) : (S.commit t).dirtyBy t' k = S.dirtyBy t' k :=
  Cell.dirtyBy_commit_ne h _

@[simp] theorem committed_abort (t : T) (k : K) : (S.abort t).committed k = S.committed k := Cell.committed_abort t _

@[simp] theorem dirtyBy_abort_self (t : T) (k : K) : (S.abort t).dirtyBy t k = none := Cell.dirtyBy_abort_self t _

theorem dirtyBy_abort_ne (h : t' ≠ t) (k : K) : (S.abort t).dirtyBy t' k = S.dirtyBy t' k :=
  Cell.dirtyBy_abort_ne h _

end Ends

/-! ### Without one transaction -/

section Without

variable {S : Store T V} {t t' : T} {k : K}

omit [DecidableEq T] in
theorem ext_cells {S' : Store T V} (hcells : S.cells = S'.cells) (hkeys : S.keys = S'.keys) : S = S' := by
  obtain ⟨cells, keys, _, _⟩ := S
  obtain ⟨cells', keys', _, _⟩ := S'
  cases hcells
  cases hkeys
  rfl

theorem free_abort (hf : S.free t' k = true) : (S.abort t).free t' k = true := Cell.free_abort hf

theorem view_abort_ne (h : t' ≠ t) (k : K) : (S.abort t).view t' k = S.view t' k := Cell.view_abort_ne h _

theorem abort_of_clean (h : ∀ k, S.dirtyBy t k = none) : S.abort t = S :=
  ext_cells (funext fun k => Cell.abort_of_clean (h k)) rfl

theorem abort_put_self [DecidableEq K] (hf : S.free t k = true) (hk : k ∈ S.keys) (v : Option (V k)) :
    (S.put t k v).abort t = S.abort t := by
  refine ext_cells (funext fun k' => ?_) (if_pos hk)
  by_cases h : k' = k
  · subst h
    simp only [put, abort, Function.update_self]
    exact Cell.abort_put_self hf v
  · simp only [put, abort, Function.update_of_ne h]

theorem abort_put_ne [DecidableEq K] (h : t' ≠ t) (v : Option (V k)) :
    (S.put t' k v).abort t = (S.abort t).put t' k v := by
  refine ext_cells (funext fun k' => ?_) rfl
  by_cases hk : k' = k
  · subst hk
    simp only [put, abort, Function.update_self]
    exact Cell.abort_put_ne h _ v
  · simp only [put, abort, Function.update_of_ne hk]

theorem abort_commit_ne (h : t' ≠ t) : (S.commit t').abort t = (S.abort t).commit t' :=
  ext_cells (funext fun k => Cell.abort_commit_ne h (S.cells k)) rfl

theorem abort_abort (t t' : T) : (S.abort t').abort t = (S.abort t).abort t' :=
  ext_cells (funext fun k => Cell.abort_abort t t' (S.cells k)) rfl

end Without

end Store

end ReadCommitted
