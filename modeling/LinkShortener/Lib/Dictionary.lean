import LinkShortener.Lib.Rows

/-!
# Dictionaries

A dictionary is a table of pairs whose keys are their first components. `lookup` reads, `set` assigns, `setDefault`
assigns what is missing and `erase` deletes. Each operation has one lemma that says what `lookup` finds afterwards;
`mem_keys` reads the keys off `lookup`, and `lookup_foldl_set` is about a dictionary that is built pair by pair.
-/

/-- A dictionary. -/
abbrev Dictionary (K V : Type) := Rows (fun e : K × V => e.1)

namespace Dictionary

variable {K V : Type} [DecidableEq K] (d : Dictionary K V) (k k' : K) (v : V)

def lookup : Option V := (d.get k).map (·.2)

def set : Dictionary K V := d.upsert (k, v)

/-- Assign a key that has no value yet. -/
def setDefault : Dictionary K V := if (d.lookup k).isSome then d else d.set k v

def erase : Dictionary K V := d.filter fun e => decide (e.1 ≠ k)

omit [DecidableEq K] in
/-- The keys, each once. -/
def keys : List K := d.rows.map (·.1)

@[simp] theorem lookup_empty : lookup (Rows.empty : Dictionary K V) k = none := rfl

@[simp] theorem lookup_set : lookup (set d k v) k' = if k = k' then some v else lookup d k' := by
  unfold lookup set
  rw [Rows.get_upsert]
  split <;> rfl

@[simp] theorem lookup_setDefault :
    lookup (setDefault d k v) k' = if k = k' ∧ lookup d k = none then some v else lookup d k' := by
  unfold setDefault
  cases hk : lookup d k with
  | none => simp
  | some w => simp

@[simp] theorem lookup_erase : lookup (erase d k) k' = if k = k' then none else lookup d k' := by
  unfold lookup erase
  rw [Rows.get_filter]
  cases h : d.get k' with
  | none => simp
  | some e =>
    have hkey : e.1 = k' := Rows.key_of_get h
    by_cases hk : k = k'
    · rw [if_pos hk, Option.filter_some, if_neg]
      · rfl
      · simp [hkey, hk]
    · rw [if_neg hk, Option.filter_some, if_pos]
      simp [hkey, Ne.symm hk]

theorem mem_keys : k ∈ keys d ↔ (lookup d k).isSome = true := by
  unfold keys lookup
  rw [Option.isSome_map, List.mem_map]
  constructor
  · rintro ⟨e, he, rfl⟩
    rw [Rows.mem_iff_get.mp he]
    rfl
  · intro h
    obtain ⟨e, he⟩ := Option.isSome_iff_exists.mp h
    obtain ⟨hmem, hkey⟩ := Rows.get_eq_some.mp he
    exact ⟨e, hmem, hkey⟩

theorem lookup_eq_some {d : Dictionary K V} {k : K} {v : V} : lookup d k = some v ↔ (k, v) ∈ d.rows := by
  unfold lookup
  rw [Option.map_eq_some_iff]
  constructor
  · rintro ⟨e, he, rfl⟩
    obtain ⟨hmem, hkey⟩ := Rows.get_eq_some.mp he
    rw [← hkey]
    exact hmem
  · intro h
    exact ⟨(k, v), Rows.mem_iff_get.mp h, rfl⟩

/-- The keys that have a value, with it. -/
def present (d : Dictionary K (Option V)) : Dictionary K V where
  rows := d.rows.filterMap fun e => e.2.map fun v => (e.1, v)
  nodup := by
    have hkeys : (d.rows.filterMap fun e => e.2.map fun v => (e.1, v)).map (·.1) =
        (d.rows.filter fun e => e.2.isSome).map (·.1) := by
      induction d.rows with
      | nil => rfl
      | cons e es ih =>
        obtain ⟨k, v⟩ := e
        cases v with
        | none => simpa using ih
        | some v => simpa using ih
    rw [hkeys]
    exact d.nodup.sublist (List.filter_sublist.map _)

@[simp] theorem lookup_present (d : Dictionary K (Option V)) (k : K) : lookup (present d) k = (lookup d k).join := by
  ext v
  rw [lookup_eq_some, Option.join_eq_some_iff, lookup_eq_some]
  simp only [present, List.mem_filterMap, Option.map_eq_some_iff, Prod.mk.injEq]
  constructor
  · rintro ⟨⟨k', o⟩, hmem, v', ho, rfl, rfl⟩
    rw [← ho]
    exact hmem
  · intro h
    exact ⟨(k, some v), h, v, rfl, rfl, rfl⟩

/-- Assigning pairs with different keys. -/
theorem lookup_foldl_set {α : Type} {key : α → K} {value : α → V} {xs : List α} (hn : (xs.map key).Nodup)
    (d : Dictionary K V) (k : K) : lookup (xs.foldl (fun d x => set d (key x) (value x)) d) k =
      ((xs.find? fun x => decide (key x = k)).map value).or (lookup d k) := by
  induction xs generalizing d with
  | nil => simp
  | cons x xs ih =>
    obtain ⟨hx, hn⟩ := List.nodup_cons.mp hn
    rw [List.foldl_cons, ih hn, lookup_set, List.find?_cons]
    by_cases hk : key x = k
    · subst hk
      have hnone : xs.find? (fun y => decide (key y = key x)) = none := by
        rw [List.find?_eq_none]
        intro y hy hkey
        exact hx (List.mem_map.mpr ⟨y, hy, of_decide_eq_true hkey⟩)
      simp [hnone]
    · simp [hk]

/-- A dictionary that is built from keys, some of them more than once. -/
theorem lookup_foldl_set_keys (value : K → V) (ks : List K) (d : Dictionary K V) (k : K) :
    lookup (ks.foldl (fun d k => set d k (value k)) d) k = if k ∈ ks then some (value k) else lookup d k := by
  induction ks generalizing d with
  | nil => simp
  | cons x ks ih =>
    rw [List.foldl_cons, ih, lookup_set]
    by_cases hx : x = k
    · simp [hx]
    · simp [hx, Ne.symm hx]

/-- A dictionary that is built from its keys holds what belongs to each of them. -/
theorem eq_of_lookup_foldl_set {value : K → V} {ks : List K} {d : Dictionary K V} {k : K} {v : V}
    (h : lookup (ks.foldl (fun d k => set d k (value k)) d) k = some v) : v = value k ∨ lookup d k = some v := by
  induction ks generalizing d with
  | nil => exact .inr h
  | cons x ks ih =>
    rcases ih h with hvalue | hbefore
    · exact .inl hvalue
    · rw [lookup_set] at hbefore
      split at hbefore
      · rename_i heq
        exact .inl (heq ▸ (Option.some.inj hbefore).symm)
      · exact .inr hbefore

end Dictionary
