import Mathlib.Data.List.Nodup

/-!
# Tables with a primary key

`Rows key` is a finite table whose rows have pairwise different keys. `get` looks a row up, `insert` adds one under a
key that is free, `modify` rewrites rows without touching their keys (an `UPDATE`) and `filter` keeps some of them (a
`DELETE`). Each operation has one lemma that says what `get` finds afterwards.
-/

/-- A table in which no two rows have the same key. -/
structure Rows {K α : Type} (key : α → K) where
  rows : List α
  nodup : (rows.map key).Nodup

namespace Rows

variable {K α : Type} {key : α → K} [DecidableEq K]

def empty : Rows key := ⟨[], List.nodup_nil⟩

/-- The row with the given key. -/
def get (t : Rows key) (k : K) : Option α := t.rows.find? fun r => decide (key r = k)

/-- Add a row; `none` when its key is taken. -/
def insert (t : Rows key) (r : α) : Option (Rows key) :=
  if h : key r ∈ t.rows.map key then none else some ⟨r :: t.rows, List.nodup_cons.mpr ⟨h, t.nodup⟩⟩

/-- Add all rows or none; `none` when a key is taken, or named twice. -/
def insertAll (t : Rows key) (rs : List α) : Option (Rows key) :=
  if h : ((rs ++ t.rows).map key).Nodup then some ⟨rs ++ t.rows, h⟩ else none

/-- Rewrite the rows, each under its key. -/
def modify (t : Rows key) (f : α → α) (hf : ∀ r, key (f r) = key r) : Rows key where
  rows := t.rows.map f
  nodup := by
    have h : (t.rows.map f).map key = t.rows.map key := by simp [hf]
    rw [h]
    exact t.nodup

/-- Write a row over the one with its key, or add it. -/
def upsert (t : Rows key) (r : α) : Rows key :=
  match t.insert r with
  | some t' => t'
  | none => t.modify (fun r' => if key r' = key r then r else r') (by intro r'; split <;> simp_all)

/-- Keep the rows that satisfy `p`. -/
def filter (t : Rows key) (p : α → Bool) : Rows key where
  rows := t.rows.filter p
  nodup := t.nodup.sublist (List.filter_sublist.map key)

/-! ## What `get` finds -/

section Get

variable {t : Rows key} {k : K} {r : α}

theorem get_eq_some : t.get k = some r ↔ r ∈ t.rows ∧ key r = k := by
  unfold get
  constructor
  · intro h
    exact ⟨List.mem_of_find?_eq_some h, by simpa using List.find?_some h⟩
  · rintro ⟨hr, rfl⟩
    cases hf : t.rows.find? fun r' => decide (key r' = key r) with
    | none =>
      have := List.find?_eq_none.mp hf r hr
      simp at this
    | some r' =>
      have hk : key r' = key r := by simpa using List.find?_some hf
      rw [List.inj_on_of_nodup_map t.nodup (List.mem_of_find?_eq_some hf) hr hk]

theorem get_eq_none : t.get k = none ↔ ∀ r ∈ t.rows, key r ≠ k := by
  simp [get]

theorem key_of_get (h : t.get k = some r) : key r = k := (get_eq_some.mp h).2

@[simp] theorem get_empty (k : K) : (empty : Rows key).get k = none := rfl

theorem get_insert {t' : Rows key} (h : t.insert r = some t') (k : K) :
    t'.get k = if key r = k then some r else t.get k := by
  unfold insert at h
  split at h
  · simp at h
  · cases h
    simp only [get, List.find?_cons]
    by_cases hk : key r = k <;> simp [hk]

theorem insert_eq_none : t.insert r = none ↔ t.get (key r) ≠ none := by
  unfold insert
  split
  · rename_i h
    simp only [true_iff]
    intro hn
    obtain ⟨r', hr', hk⟩ := List.mem_map.mp h
    exact get_eq_none.mp hn r' hr' hk
  · rename_i h
    simp only [reduceCtorEq, false_iff, not_not]
    rw [get_eq_none]
    intro r' hr' hk
    exact h (List.mem_map.mpr ⟨r', hr', hk⟩)

@[simp] theorem get_modify (f : α → α) (hf : ∀ r, key (f r) = key r) (k : K) :
    (t.modify f hf).get k = (t.get k).map f := by
  simp only [get, modify, List.find?_map]
  congr 2
  funext r
  simp [hf]

@[simp] theorem get_filter (p : α → Bool) (k : K) : (t.filter p).get k = (t.get k).filter p := by
  cases h : t.get k with
  | none =>
    rw [Option.filter_none, get_eq_none]
    intro r hr
    exact get_eq_none.mp h r (List.mem_filter.mp hr).1
  | some r =>
    obtain ⟨hr, hk⟩ := get_eq_some.mp h
    by_cases hp : p r = true
    · rw [Option.filter_some, if_pos hp, get_eq_some]
      exact ⟨List.mem_filter.mpr ⟨hr, hp⟩, hk⟩
    · rw [Option.filter_some, if_neg hp, get_eq_none]
      intro r' hr' hk'
      obtain ⟨hm, hp'⟩ := List.mem_filter.mp hr'
      rw [List.inj_on_of_nodup_map t.nodup hm hr (hk'.trans hk.symm)] at hp'
      exact hp hp'

@[simp] theorem get_upsert (r : α) (k : K) : (t.upsert r).get k = if key r = k then some r else t.get k := by
  unfold upsert
  split
  · rename_i t' h
    exact get_insert h k
  · rename_i h
    rw [get_modify]
    by_cases hk : key r = k
    · subst hk
      obtain ⟨r', hr'⟩ := Option.ne_none_iff_exists'.mp (insert_eq_none.mp h)
      simp [hr', key_of_get hr']
    · rw [if_neg hk]
      cases hr' : t.get k with
      | none => rfl
      | some r' =>
        have hne : key r' ≠ key r := by
          rw [key_of_get hr']
          exact Ne.symm hk
        simp [hne]

/-- A row under a free key is added. -/
theorem upsert_new (h : t.get (key r) = none) : (t.upsert r).rows = r :: t.rows := by
  have hfree : key r ∉ t.rows.map key := by
    intro hin
    obtain ⟨r', hr', hk⟩ := List.mem_map.mp hin
    exact get_eq_none.mp h r' hr' hk
  have hinsert : t.insert r = some ⟨r :: t.rows, List.nodup_cons.mpr ⟨hfree, t.nodup⟩⟩ := dif_neg hfree
  unfold upsert
  rw [hinsert]

/-- A row under a key that is taken replaces the one that is there. -/
theorem length_upsert (h : t.get (key r) ≠ none) : (t.upsert r).rows.length = t.rows.length := by
  have hinsert : t.insert r = none := insert_eq_none.mpr h
  unfold upsert
  rw [hinsert]
  exact List.length_map _

/-- Writing a row over itself changes nothing. -/
theorem upsert_self (h : r ∈ t.rows) : (t.upsert r).rows = t.rows := by
  have hinsert : t.insert r = none := dif_pos (List.mem_map_of_mem h)
  unfold upsert
  rw [hinsert]
  show (t.rows.map fun r' => if key r' = key r then r else r') = t.rows
  conv_rhs => rw [← List.map_id t.rows]
  apply List.map_congr_left
  intro r' hr'
  split
  · rename_i hk
    exact List.inj_on_of_nodup_map t.nodup h hr' hk.symm
  · rfl

theorem mem_iff_get : r ∈ t.rows ↔ t.get (key r) = some r := by
  simp [get_eq_some]

theorem mem_upsert {r' : α} (h : r' ∈ (t.upsert r).rows) : r' = r ∨ r' ∈ t.rows := by
  rw [mem_iff_get, get_upsert] at h
  split at h
  · cases h
    exact .inl rfl
  · exact .inr (mem_iff_get.mpr h)

end Get

end Rows
