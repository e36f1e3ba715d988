import Mathlib.Data.List.Sort
import LinkShortener.Lib.Dictionary

/-!
# Queries over tables with missing values

The conditions of a `WHERE` clause are three-valued: a comparison with a missing value is neither true nor false, and a
row is selected when its condition is true. `first le rows` is `ORDER BY … LIMIT 1`.

* `holds_eq`, `holds_isNull`, `holds_or`: when a condition is true.
* `first_filter`: the first row of a part of the rows is the first such row of the whole, when no two rows tie.
* `first_least`, `first_eq_none`: the first row is in front of every other; there is none only of no rows.
* `lookup_firstOf`, `lookup_complete`: a dictionary that keeps the first row seen for each key, and one in which every
  key of a list has a value.
-/

namespace Query

/-! ## Conditions -/

section Conditions

variable {α : Type}

/-- A condition: true, false, or unknown. -/
abbrev Condition := Option Bool

/-- `column = value`; unknown where the column is missing. -/
def eq [DecidableEq α] (column : Option α) (value : α) : Condition := column.map fun x => decide (x = value)

/-- `column > value`; unknown where the column is missing. -/
def gt [LT α] [DecidableLT α] (column : Option α) (value : α) : Condition := column.map fun x => decide (value < x)

/-- `column IS NULL`. -/
def isNull (column : Option α) : Condition := some column.isNone

/-- `column IS NOT NULL`. -/
def isNotNull (column : Option α) : Condition := some column.isSome

/-- `column <= value`; unknown where the column is missing. -/
def le [LE α] [DecidableLE α] (column : Option α) (value : α) : Condition := column.map fun x => decide (x ≤ value)

/-- `AND`: false as soon as one side is. -/
def and : Condition → Condition → Condition
  | some false, _ => some false
  | _, some false => some false
  | some true, some true => some true
  | _, _ => none

/-- `OR`: true as soon as one side is. -/
def or : Condition → Condition → Condition
  | some true, _ => some true
  | _, some true => some true
  | some false, some false => some false
  | _, _ => none

/-- A row is selected where its condition is true. -/
def holds (condition : Condition) : Bool := decide (condition = some true)

@[simp] theorem holds_eq [DecidableEq α] {column : Option α} {value : α} :
    holds (eq column value) = true ↔ column = some value := by
  cases column with
  | none => simp [holds, eq]
  | some x => simp [holds, eq]

@[simp] theorem holds_isNull {column : Option α} : holds (isNull column) = true ↔ column = none := by
  simp [holds, isNull]

@[simp] theorem holds_gt [LT α] [DecidableLT α] {column : Option α} {value : α} :
    holds (gt column value) = true ↔ ∃ x, column = some x ∧ value < x := by
  cases column with
  | none => simp [holds, gt]
  | some x => simp [holds, gt]

@[simp] theorem holds_isNotNull {column : Option α} : holds (isNotNull column) = true ↔ ∃ x, column = some x := by
  cases column with
  | none => simp [holds, isNotNull]
  | some x => simp [holds, isNotNull]

@[simp] theorem holds_le [LE α] [DecidableLE α] {column : Option α} {value : α} :
    holds (le column value) = true ↔ ∃ x, column = some x ∧ x ≤ value := by
  cases column with
  | none => simp [holds, le]
  | some x => simp [holds, le]

@[simp] theorem holds_and {a b : Condition} : holds (and a b) = true ↔ holds a = true ∧ holds b = true := by
  unfold holds and
  rcases a with _ | _ | _ <;> rcases b with _ | _ | _ <;> simp

@[simp] theorem holds_or {a b : Condition} : holds (or a b) = true ↔ holds a = true ∨ holds b = true := by
  unfold holds or
  rcases a with _ | _ | _ <;> rcases b with _ | _ | _ <;> simp

end Conditions

/-! ## Order -/

section Order

variable {α : Type} {le : α → α → Prop} [DecidableRel le] {rows : List α} {p q : α → Bool}

/-- `ORDER BY`. -/
def orderBy (le : α → α → Prop) [DecidableRel le] (rows : List α) : List α := rows.insertionSort le

/-- `ORDER BY … LIMIT 1`. -/
def first (le : α → α → Prop) [DecidableRel le] (rows : List α) : Option α := (orderBy le rows).head?

theorem first_eq_none : first le rows = none ↔ rows = [] := by
  unfold first orderBy
  rw [List.head?_eq_none_iff, ← List.length_eq_zero_iff, List.length_insertionSort, List.length_eq_zero_iff]

theorem mem_of_first {r : α} (h : first le rows = some r) : r ∈ rows :=
  (List.mem_insertionSort le).mp (List.mem_of_head? h)

variable [Std.Total le] [IsTrans α le]

theorem first_least {r : α} (h : first le rows = some r) : ∀ r' ∈ rows, le r r' := by
  have hsorted : (rows.insertionSort le).Pairwise le := List.pairwise_insertionSort le rows
  unfold first orderBy at h
  intro r' hr'
  have hmem : r' ∈ rows.insertionSort le := (List.mem_insertionSort le).mpr hr'
  cases hs : rows.insertionSort le with
  | nil =>
    rw [hs] at hmem
    cases hmem
  | cons x xs =>
    rw [hs] at h hmem hsorted
    cases h
    rcases List.mem_cons.mp hmem with rfl | hxs
    · exact (Std.Total.total r' r').elim id id
    · exact (List.pairwise_cons.mp hsorted).1 r' hxs

/-- Sorting and selecting commute where no two rows tie. -/
theorem orderBy_filter (hanti : ∀ a ∈ rows, ∀ b ∈ rows, le a b → le b a → a = b) (p : α → Bool) :
    orderBy le (rows.filter p) = (orderBy le rows).filter p := by
  have hperm : (orderBy le (rows.filter p)).Perm ((orderBy le rows).filter p) :=
    (List.perm_insertionSort le _).trans ((List.perm_insertionSort le rows).filter p).symm
  refine List.Perm.eq_of_pairwise ?_ (List.pairwise_insertionSort le _)
    ((List.pairwise_insertionSort le rows).filter p) hperm
  intro a b ha hb hab hba
  have ha' : a ∈ rows := (List.mem_filter.mp ((List.mem_insertionSort le).mp ha)).1
  have hb' : b ∈ rows := (List.mem_insertionSort le).mp (List.mem_filter.mp hb).1
  exact hanti a ha' b hb' hab hba

/-- The first row of a part is the first of that part in any larger one. -/
theorem first_filter (hanti : ∀ a ∈ rows, ∀ b ∈ rows, le a b → le b a → a = b) (p : α → Bool) :
    first le (rows.filter p) = (orderBy le rows).find? p := by
  unfold first
  rw [orderBy_filter hanti, List.head?_filter]

end Order

/-! ## Some rows, and their deletion -/

section Limits

variable {α κ : Type} [DecidableEq κ]

/-- An order in which the rows of a query may be handed out. Without `ORDER BY` it is any. -/
structure Handout (α : Type) where
  order : List α → List α
  perm : ∀ rows, (order rows).Perm rows

/-- `LIMIT n`. -/
def Handout.limit (handout : Handout α) (n : Nat) (rows : List α) : List α := (handout.order rows).take n

/-- `DELETE … WHERE key IN (keys)`. -/
def deleteIn (key : α → κ) (keys : List κ) (rows : List α) : List α := rows.filter fun r => decide (key r ∉ keys)

variable {handout : Handout α} {key : α → κ} {p : α → Bool} {n : Nat} {rows : List α}

theorem length_limit : (handout.limit n rows).length = min n rows.length := by
  unfold Handout.limit
  rw [List.length_take, (handout.perm rows).length_eq]

theorem mem_of_mem_limit {r : α} (h : r ∈ handout.limit n rows) : r ∈ rows :=
  (handout.perm rows).mem_iff.mp (List.mem_of_mem_take h)

omit [DecidableEq κ] in
/-- With a key of their own, the rows whose keys were selected are the rows that were selected. -/
theorem mem_keys_iff (hkeys : (rows.map key).Nodup) {chunk : List α} (hchunk : chunk ⊆ rows) {r : α} (hr : r ∈ rows) :
    key r ∈ chunk.map key ↔ r ∈ chunk := by
  refine ⟨fun h => ?_, fun h => List.mem_map_of_mem h⟩
  obtain ⟨r', hr', hsame⟩ := List.mem_map.mp h
  rwa [List.inj_on_of_nodup_map hkeys hr (hchunk hr') hsame.symm]

variable (handout n)

/-- **What was selected and what is left of it are what there was to select.** -/
theorem perm_limit_deleteIn (hkeys : (rows.map key).Nodup) :
    (handout.limit n (rows.filter p) ++
      (deleteIn key ((handout.limit n (rows.filter p)).map key) rows).filter p).Perm (rows.filter p) := by
  have hnodup : ((handout.order (rows.filter p)).map key).Nodup :=
    ((handout.perm _).map key).nodup_iff.mpr (hkeys.sublist (List.filter_sublist.map key))
  have hleft : ((deleteIn key ((handout.limit n (rows.filter p)).map key) rows).filter p).Perm
      ((handout.order (rows.filter p)).drop n) := by
    have hsplit := List.take_append_drop n (handout.order (rows.filter p))
    rw [← hsplit, List.map_append, List.nodup_append] at hnodup
    unfold deleteIn
    rw [List.filter_comm]
    refine ((handout.perm _).symm.filter _).trans ?_
    conv_lhs => rw [← hsplit]
    rw [List.filter_append]
    have hgone : ((handout.order (rows.filter p)).take n).filter
        (fun r => decide (key r ∉ (handout.limit n (rows.filter p)).map key)) = [] := by
      apply List.filter_eq_nil_iff.mpr
      intro r hr
      simpa using ⟨r, hr, rfl⟩
    have hkept : ((handout.order (rows.filter p)).drop n).filter
        (fun r => decide (key r ∉ (handout.limit n (rows.filter p)).map key)) = (handout.order (rows.filter p)).drop n := by
      apply List.filter_eq_self.mpr
      intro r hr
      refine decide_eq_true fun hmem => ?_
      exact hnodup.2.2 _ hmem _ (List.mem_map_of_mem hr) rfl
    rw [hgone, hkept, List.nil_append]
  exact (hleft.append_left _).trans (by rw [Handout.limit, List.take_append_drop]; exact handout.perm _)

/-- What was not to be selected stays as it is. -/
theorem filter_not_deleteIn (hkeys : (rows.map key).Nodup) :
    (deleteIn key ((handout.limit n (rows.filter p)).map key) rows).filter (fun r => !p r) = rows.filter fun r => !p r := by
  unfold deleteIn
  rw [List.filter_filter]
  apply List.filter_congr
  intro r hr
  have hsub : handout.limit n (rows.filter p) ⊆ rows := fun x hx => (List.mem_filter.mp (mem_of_mem_limit hx)).1
  cases hp : p r with
  | true => rfl
  | false =>
    have hnot : r ∉ handout.limit n (rows.filter p) := by
      intro hmem
      have hpr := (List.mem_filter.mp (mem_of_mem_limit hmem)).2
      rw [hp] at hpr
      cases hpr
    simp [mem_keys_iff hkeys hsub hr, hnot]

end Limits

/-! ## The first row of each key -/

section Grouping

variable {α K V : Type} [DecidableEq K] (key : α → K) (value : α → V)

/-- Keep the first row seen for each key. -/
def firstOf (d : Dictionary K V) (rows : List α) : Dictionary K V :=
  rows.foldl (fun d r => Dictionary.setDefault d (key r) (value r)) d

theorem lookup_firstOf (d : Dictionary K V) (rows : List α) (k : K) :
    Dictionary.lookup (firstOf key value d rows) k =
      (Dictionary.lookup d k).or ((rows.find? fun r => decide (key r = k)).map value) := by
  unfold firstOf
  induction rows generalizing d with
  | nil => simp
  | cons r rows ih =>
    rw [List.foldl_cons, ih, Dictionary.lookup_setDefault, List.find?_cons]
    by_cases hk : key r = k
    · subst hk
      cases h : Dictionary.lookup d (key r) with
      | none => simp
      | some v => simp
    · simp [hk]

/-- Give a value to each of the keys that has none. -/
def complete (v : V) (d : Dictionary K V) (ks : List K) : Dictionary K V := firstOf id (fun _ => v) d ks

theorem lookup_complete {v : V} {d : Dictionary K V} {ks : List K} {k : K} (h : k ∈ ks) :
    Dictionary.lookup (complete v d ks) k = some ((Dictionary.lookup d k).getD v) := by
  unfold complete
  rw [lookup_firstOf]
  cases hf : ks.find? fun k' => decide (id k' = k) with
  | none => exact absurd (List.find?_eq_none.mp hf k h) (by simp)
  | some k' => cases Dictionary.lookup d k <;> rfl

end Grouping

end Query
