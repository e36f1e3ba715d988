import Mathlib.Data.List.Nodup
import Mathlib.Data.List.Forall2
import Mathlib.Order.Defs.Unbundled

/-!
# Upserts

Rows have an identifier and a name. An upsert looks a name up among the stored rows; it rewrites the row it finds, under
its identifier, or adds one under an identifier that is drawn. What is rewritten and what is added is not stored yet, so
that an upsert sees only what was stored before the first one.

* `Step`: one upsert, with what it leaves of a row (`Settles`), what it adds (`Makes`) and how far it may change one
  (`Keeps`). `Step.keep`: one that finds its row as it should be.
* `Done`: what holds after some upserts. `Done.step`: one more, of a name that was not among them.
* `Done.ids_nodup`, `Done.names_nodup`: the rows have identifiers and names of their own again. `Done.forall_mem`: what
  all of them have in common.
* `map_modify_eq_self`: rewriting a row to itself changes nothing.
-/

namespace Upserts

variable {α δ : Type} {id name : α → String} {nameOf : δ → String} {draw : Nat → String}

/-- Rewrite the row with an identifier. -/
def modify (id : α → String) (k : String) (f : α → α) (rows : List α) : List α :=
  rows.map fun x => if id x = k then f x else x

/-- The stored rows, the same rows as they are to be stored, those to be added, and how many identifiers were drawn. -/
structure State (α : Type) where
  stored : List α
  rows : List α
  added : List α
  drawn : Nat

section Keys

variable {rows : List α}

theorem eq_of_key (h : (rows.map id).Nodup) {x y : α} (hx : x ∈ rows) (hy : y ∈ rows) (he : id x = id y) : x = y :=
  List.inj_on_of_nodup_map h hx hy he

/-- Rewriting a row to itself changes nothing. -/
theorem map_modify_eq_self (h : (rows.map id).Nodup) {x : α} (hx : x ∈ rows) {f : α → α} (hf : f x = x) :
    modify id (id x) f rows = rows := by
  unfold modify
  conv_rhs => rw [← List.map_id rows]
  apply List.map_congr_left
  intro y hy
  split
  · rename_i he
    rw [eq_of_key h hy hx he, hf]
    rfl
  · rfl

theorem modify_modify {k : String} {f g : α → α} (hf : ∀ x, id (f x) = id x) :
    modify id k g (modify id k f rows) = modify id k (fun x => g (f x)) rows := by
  unfold modify
  rw [List.map_map]
  apply List.map_congr_left
  intro x _
  rw [Function.comp_apply]
  split
  · rename_i he
    rw [if_pos ((hf x).trans he)]
  · rfl

theorem modify_id {k : String} : modify id k (fun x => x) rows = rows := by
  unfold modify
  conv_rhs => rw [← List.map_id rows]
  apply List.map_congr_left
  intro x _
  exact ite_self x

/-- The row that a lookup by name finds. -/
theorem find?_name (h : (rows.map name).Nodup) {x : α} (hx : x ∈ rows) {n : String} (hn : name x = n) :
    rows.find? (fun y => decide (name y = n)) = some x := by
  subst hn
  cases hfind : rows.find? fun y => decide (name y = name x) with
  | none => exact absurd (List.find?_eq_none.mp hfind x hx) (by simp)
  | some y =>
    have hy : name y = name x := by simpa using List.find?_some hfind
    rw [eq_of_key h (List.mem_of_find?_eq_some hfind) hx hy]

theorem exists_left_of_mem {R : α → α → Prop} {xs ys : List α} (h : List.Forall₂ R xs ys) {y : α} (hy : y ∈ ys) :
    ∃ x ∈ xs, R x y := by
  induction h with
  | nil => cases hy
  | @cons x z xs ys hxz _ ih =>
    rcases List.mem_cons.mp hy with rfl | hy
    · exact ⟨x, List.mem_cons_self, hxz⟩
    · obtain ⟨x', hx', hr⟩ := ih hy
      exact ⟨x', List.mem_cons_of_mem _ hx', hr⟩

theorem exists_right_of_mem {R : α → α → Prop} {xs ys : List α} (h : List.Forall₂ R xs ys) {x : α} (hx : x ∈ xs) :
    ∃ y ∈ ys, R x y := exists_left_of_mem h.flip hx

end Keys

variable (id name nameOf draw) (Settles Makes : δ → α → Prop) (Keeps : α → α → Prop)

/-- **One upsert.** -/
inductive Step : State α → δ → State α → Prop
  | change {st : State α} {d : δ} {x : α} {f : α → α} (stored : x ∈ st.stored) (named : name x = nameOf d)
      (key : ∀ y, id (f y) = id y) (settles : ∀ y, name y = nameOf d → y ∈ st.rows → Settles d (f y))
      (keeps : ∀ y, Keeps y (f y)) : Step st d { st with rows := modify id (id x) f st.rows }
  | add {st : State α} {d : δ} {x : α} (missing : ∀ y ∈ st.stored, name y ≠ nameOf d) (key : id x = draw st.drawn)
      (makes : Makes d x) : Step st d { st with added := st.added ++ [x], drawn := st.drawn + 1 }

/-- **What holds after some upserts.** -/
structure Done (start : List α) (first : Nat) (ds : List δ) (st : State α) : Prop where
  stored : st.stored = start
  aligned : st.rows.map (fun x => (id x, name x)) = start.map fun x => (id x, name x)
  kept : List.Forall₂ Keeps start st.rows
  settled : ∀ d ∈ ds, ∃ x ∈ st.rows ++ st.added, Settles d x
  origin : ∀ x ∈ st.added, ∃ d ∈ ds, Makes d x
  fresh : ∀ x ∈ st.added, name x ∉ start.map name
  names : (st.added.map name).Nodup
  drawn : st.drawn = first + st.added.length
  keys : st.added.map id = (List.range' first st.added.length).map draw

variable {id name nameOf draw Settles Makes Keeps} {start : List α} {first : Nat} {ds : List δ} {st st' : State α} {d : δ}

/-- An upsert that leaves the row it finds as it is. -/
theorem Step.keep [Std.Refl Keeps] {x : α} (stored : x ∈ st.stored) (named : name x = nameOf d)
    (settles : ∀ y, name y = nameOf d → y ∈ st.rows → Settles d y) :
    Step id name nameOf draw Settles Makes Keeps st d st := by
  have hsame : st = { st with rows := modify id (id x) (fun y => y) st.rows } := by
    rw [modify_id]
  conv => rhs; rw [hsame]
  exact .change stored named (fun _ => rfl) settles fun y => Std.Refl.refl y

/-- The name that comes next is not among those before it. -/
theorem new_of_nodup {rest : List δ} (h : ((ds ++ [d] ++ rest).map nameOf).Nodup) : nameOf d ∉ ds.map nameOf := by
  rw [List.map_append, List.map_append, List.append_assoc] at h
  intro hmem
  exact (List.nodup_append.mp h).2.2 _ hmem _ (List.mem_append_left _ (List.mem_singleton_self _)) rfl

theorem done_nil [Std.Refl Keeps] (start : List α) (first : Nat) :
    Done id name draw Settles Makes Keeps start first [] ⟨start, start, [], first⟩ where
  stored := rfl
  aligned := rfl
  kept := List.forall₂_same.mpr fun x _ => Std.Refl.refl x
  settled := by rintro _ ⟨⟩
  origin := by rintro _ ⟨⟩
  fresh := by rintro _ ⟨⟩
  names := List.nodup_nil
  drawn := rfl
  keys := rfl

namespace Done

variable (h : Done id name draw Settles Makes Keeps start first ds st)
include h

theorem exists_start {y : α} (hy : y ∈ st.rows) : ∃ x ∈ start, id x = id y ∧ name x = name y := by
  have hmem : (id y, name y) ∈ start.map fun x => (id x, name x) := by
    rw [← h.aligned]
    exact List.mem_map_of_mem (f := fun x => (id x, name x)) hy
  obtain ⟨x, hx, hxy⟩ := List.mem_map.mp hmem
  exact ⟨x, hx, Prod.mk.inj hxy⟩

theorem exists_row {x : α} (hx : x ∈ start) : ∃ y ∈ st.rows, id y = id x ∧ name y = name x := by
  have hmem : (id x, name x) ∈ st.rows.map fun x => (id x, name x) := by
    rw [h.aligned]
    exact List.mem_map_of_mem (f := fun x => (id x, name x)) hx
  obtain ⟨y, hy, hyx⟩ := List.mem_map.mp hmem
  exact ⟨y, hy, Prod.mk.inj hyx⟩

/-- The row of a name is under the identifier it had. -/
theorem id_eq (hstart : (start.map name).Nodup) {x y : α} (hx : x ∈ start) (hy : y ∈ st.rows) (he : name y = name x) :
    id y = id x := by
  obtain ⟨z, hz, hid, hname⟩ := h.exists_start hy
  rw [← hid, eq_of_key hstart hz hx (hname.trans he)]

variable (hids : (start.map id).Nodup)
include hids

/-- A row keeps its name. -/
theorem name_eq {x y : α} (hx : x ∈ start) (hy : y ∈ st.rows) (he : id y = id x) : name y = name x := by
  obtain ⟨z, hz, hid, hname⟩ := h.exists_start hy
  rw [← hname, eq_of_key hids hz hx (hid.trans he)]

/-- An upsert that rewrites a row. -/
theorem change [IsTrans α Keeps] (hnames : ∀ d x, Settles d x → name x = nameOf d) (hnew : nameOf d ∉ ds.map nameOf)
    {x : α} {f : α → α} (stored : x ∈ st.stored) (named : name x = nameOf d) (key : ∀ y, id (f y) = id y)
    (settles : ∀ y, name y = nameOf d → y ∈ st.rows → Settles d (f y)) (keeps : ∀ y, Keeps y (f y)) :
    Done id name draw Settles Makes Keeps start first (ds ++ [d]) { st with rows := modify id (id x) f st.rows } := by
  have hx : x ∈ start := h.stored ▸ stored
  have hnamed : ∀ y ∈ st.rows, id y = id x → name y = nameOf d := fun y hy he =>
    (h.name_eq hids hx hy he).trans named
  refine ⟨h.stored, ?_, ?_, ?_, ?_, h.fresh, h.names, h.drawn, h.keys⟩
  · rw [← h.aligned]
    unfold modify
    rw [List.map_map]
    apply List.map_congr_left
    intro y hy
    rw [Function.comp_apply]
    split
    · rename_i he
      have hy' := hnamed y hy he
      rw [key, hnames d (f y) (settles y hy' hy), hy']
    · rfl
  · refine List.forall₂_map_right_iff.mpr (h.kept.imp fun y z hyz => ?_)
    split
    · exact IsTrans.trans _ _ _ hyz (keeps z)
    · exact hyz
  · intro d' hd'
    rcases List.mem_append.mp hd' with hd' | hd'
    · -- The row that was settled before has another name, so that it is not the one that is rewritten.
      obtain ⟨y, hy, hsettled⟩ := h.settled d' hd'
      refine ⟨y, ?_, hsettled⟩
      rcases List.mem_append.mp hy with hy | hy
      · refine List.mem_append_left _ (List.mem_map.mpr ⟨y, hy, if_neg fun he => ?_⟩)
        refine hnew ?_
        rw [← hnamed y hy he, hnames d' y hsettled]
        exact List.mem_map_of_mem hd'
      · exact List.mem_append_right _ hy
    · rw [List.mem_singleton.mp hd']
      obtain ⟨y, hy, hid, hname⟩ := h.exists_row hx
      refine ⟨f y, List.mem_append_left _ (List.mem_map.mpr ⟨y, hy, if_pos hid⟩), ?_⟩
      exact settles y (hname.trans named) hy
  · intro y hy
    obtain ⟨d', hd', hmade⟩ := h.origin y hy
    exact ⟨d', List.mem_append_left _ hd', hmade⟩

omit hids

/-- An upsert that adds a row. -/
theorem add (hnames : ∀ d x, Settles d x → name x = nameOf d) (hmakes : ∀ d x, Makes d x → Settles d x)
    (hnew : nameOf d ∉ ds.map nameOf) {x : α} (missing : ∀ y ∈ st.stored, name y ≠ nameOf d) (key : id x = draw st.drawn)
    (makes : Makes d x) : Done id name draw Settles Makes Keeps start first (ds ++ [d])
      { st with added := st.added ++ [x], drawn := st.drawn + 1 } := by
  have hname := hnames d x (hmakes d x makes)
  refine ⟨h.stored, h.aligned, h.kept, ?_, ?_, ?_, ?_, ?_, ?_⟩
  · intro d' hd'
    rcases List.mem_append.mp hd' with hd' | hd'
    · obtain ⟨y, hy, hsettled⟩ := h.settled d' hd'
      refine ⟨y, ?_, hsettled⟩
      rw [← List.append_assoc]
      exact List.mem_append_left _ hy
    · rw [List.mem_singleton.mp hd']
      exact ⟨x, List.mem_append_right _ (List.mem_append_right _ (List.mem_singleton_self x)), hmakes d x makes⟩
  · intro y hy
    rcases List.mem_append.mp hy with hy | hy
    · obtain ⟨d', hd', hmade⟩ := h.origin y hy
      exact ⟨d', List.mem_append_left _ hd', hmade⟩
    · rw [List.mem_singleton.mp hy]
      exact ⟨d, List.mem_append_right _ (List.mem_singleton_self d), makes⟩
  · intro y hy
    rcases List.mem_append.mp hy with hy | hy
    · exact h.fresh y hy
    · rw [List.mem_singleton.mp hy, hname]
      intro hmem
      obtain ⟨z, hz, hzd⟩ := List.mem_map.mp hmem
      exact missing z (h.stored ▸ hz) hzd
  · rw [List.map_append, List.nodup_append]
    refine ⟨h.names, List.nodup_singleton _, ?_⟩
    intro n hn m hm he
    obtain ⟨y, hy, rfl⟩ := List.mem_map.mp hn
    obtain ⟨d', hd', hmade⟩ := h.origin y hy
    rw [List.map_singleton, List.mem_singleton] at hm
    refine hnew ?_
    rw [← hname, ← hm, ← he, hnames d' y (hmakes d' y hmade)]
    exact List.mem_map_of_mem hd'
  · show st.drawn + 1 = first + (st.added ++ [x]).length
    rw [List.length_append, List.length_singleton, h.drawn, Nat.add_assoc]
  · rw [List.map_append, h.keys, List.map_singleton, key, h.drawn, List.length_append, List.length_singleton,
      List.range'_concat, List.map_append]
    simp

/-- **One more upsert**, of a name that was not among them. -/
theorem step [IsTrans α Keeps] (hids : (start.map id).Nodup) (hnames : ∀ d x, Settles d x → name x = nameOf d)
    (hmakes : ∀ d x, Makes d x → Settles d x) (hnew : nameOf d ∉ ds.map nameOf)
    (hstep : Step id name nameOf draw Settles Makes Keeps st d st') :
    Done id name draw Settles Makes Keeps start first (ds ++ [d]) st' := by
  cases hstep with
  | change stored named key settles keeps => exact h.change hids hnames hnew stored named key settles keeps
  | add missing key makes => exact h.add hnames hmakes hnew missing key makes

theorem ids_eq : st.rows.map id = start.map id := by
  have haligned := congrArg (List.map Prod.fst) h.aligned
  rwa [List.map_map, List.map_map] at haligned

theorem names_eq : st.rows.map name = start.map name := by
  have haligned := congrArg (List.map Prod.snd) h.aligned
  rwa [List.map_map, List.map_map] at haligned

/-- Names stay apart: what is added had no row under its name. -/
theorem names_nodup (hstart : (start.map name).Nodup) : ((st.rows ++ st.added).map name).Nodup := by
  rw [List.map_append, h.names_eq, List.nodup_append]
  refine ⟨hstart, h.names, ?_⟩
  rintro n hn m hm rfl
  obtain ⟨x, hx, rfl⟩ := List.mem_map.mp hm
  exact h.fresh x hx hn

/-- So do identifiers, if those that are drawn are new. -/
theorem ids_nodup (hstart : (start.map id).Nodup) (hdraw : Function.Injective draw)
    (hfresh : ∀ n, draw n ∉ start.map id) : ((st.rows ++ st.added).map id).Nodup := by
  rw [List.map_append, h.ids_eq, h.keys, List.nodup_append]
  refine ⟨hstart, (List.nodup_range').map hdraw, ?_⟩
  rintro k hk m hm rfl
  obtain ⟨n, -, rfl⟩ := List.mem_map.mp hm
  exact hfresh n hk

/-- What holds of the rows before and is kept, and of the rows that are made, holds of all. -/
theorem forall_mem {P : α → Prop} (hrows : ∀ x ∈ start, P x) (hkeeps : ∀ x y, Keeps x y → P x → P y)
    (hmakes : ∀ d ∈ ds, ∀ x, Makes d x → P x) : ∀ x ∈ st.rows ++ st.added, P x := by
  intro x hx
  rcases List.mem_append.mp hx with hx | hx
  · obtain ⟨y, hy, hkept⟩ := exists_left_of_mem h.kept hx
    exact hkeeps y x hkept (hrows y hy)
  · obtain ⟨d, hd, hmade⟩ := h.origin x hx
    exact hmakes d hd x hmade

end Done

end Upserts
