import Mathlib.Data.PNat.Basic
import LinkShortener.Links.ScopeQueries

/-!
# Deletions in chunks

The links of an account, and the links whose expiry has passed, are deleted a chunk at a time: select some of them, delete
those by their keys, and select again, until nothing is selected. No order is asked for, so each query may hand out any of
the rows that are left.

* `deleteChunks`: the loop of both, with `deleteByOwner` and `deleteExpired` for its two conditions. The size of a chunk
  and the number of queries it may make are arguments.
* `deleteChunks_spec`: with enough of them the loop ends; it has removed what its condition selects and nothing else.
* `chunked_deletions_are_exact`: the result for both.
-/

namespace LinkShortener

open Query

namespace LinkTable

variable {engine : Engine} {libs : Urls.Libraries}

/-! ## The loop -/

section Loop

variable (engine libs) (chunkSize : Nat) (handouts : Nat → Handout LinkModel)

/-- Select, delete, and go on. `queries` is how many the loop may still make, `turn` how many it has made; `none` means
that it has not come to its end. An entity that cannot be built leaves the loop as an exception. -/
def deleteChunks (selected : LinkModel → Bool) (queries turn : Nat) (rows : List LinkModel)
    (deleted : List (LinkEntity libs)) : Option (Except DomainError (List (LinkEntity libs)) × List LinkModel) :=
  match queries with
  | 0 => none
  | queries + 1 =>
    let models := (handouts turn).limit chunkSize (rows.filter selected)
    if models.isEmpty then some (.ok deleted, rows)
    else
      match models.mapM (·.toDomain engine libs) with
      | .error e => some (.error e, rows)
      | .ok chunk =>
        deleteChunks selected queries (turn + 1) (deleteIn (·.id) (chunk.map (·.id)) rows) (deleted ++ chunk)

/-- Delete every link of one account. -/
def deleteByOwner (userId : String) (queries : Nat) (rows : List LinkModel) :
    Option (Except DomainError (List (LinkEntity libs)) × List LinkModel) :=
  deleteChunks engine libs chunkSize handouts (fun m => holds (eq m.ownerId userId)) queries 0 rows []

/-- Delete the links whose expiry has passed. -/
def deleteExpired (now : Instant) (queries : Nat) (rows : List LinkModel) :
    Option (Except DomainError (List (LinkEntity libs)) × List LinkModel) :=
  deleteChunks engine libs chunkSize handouts (fun m => holds (and (isNotNull m.expiresAt) (le m.expiresAt now))) queries 0
    rows []

end Loop

/-! ## What the loop does -/

theorem toDomain_id {m : LinkModel} {link : LinkEntity libs} (h : m.toDomain engine libs = .ok link) :
    link.id = m.id := by
  unfold LinkModel.toDomain at h
  obtain ⟨urlHash, -, h⟩ := bind_eq_ok.mp h
  obtain ⟨shortCode, -, h⟩ := bind_eq_ok.mp h
  obtain ⟨originalUrl, -, h⟩ := bind_eq_ok.mp h
  obtain ⟨owner, -, h⟩ := bind_eq_ok.mp h
  cases h
  rfl

/-- Rows under their primary key that can be read. -/
structure Readable (engine : Engine) (libs : Urls.Libraries) (rows : List LinkModel) : Prop where
  ids : (rows.map (·.id)).Nodup
  reads : ∀ m ∈ rows, ∃ link, m.toDomain engine libs = .ok link

theorem readable (table : LinkTable engine libs) : Readable engine libs table.rows := by
  refine ⟨table.ids, ?_⟩
  intro m hm
  obtain ⟨link, rfl⟩ := table.written m hm
  exact ⟨_, toDomain_toModel engine link⟩

theorem Readable.sublist {rows rows' : List LinkModel} (h : Readable engine libs rows) (hsub : rows'.Sublist rows) :
    Readable engine libs rows' :=
  ⟨h.ids.sublist (hsub.map _), fun m hm => h.reads m (hsub.subset hm)⟩

section Spec

variable {chunkSize : Nat} {selected : LinkModel → Bool} (handouts : Nat → Handout LinkModel)

/-- **The loop ends and removes what is selected**: each row is read once, in the order they were handed out, and the
other rows stay. One query more than there are chunks is enough. -/
theorem deleteChunks_spec (hchunk : 0 < chunkSize) {queries : Nat} (turn : Nat) {rows : List LinkModel}
    (deleted : List (LinkEntity libs)) (hrows : Readable engine libs rows)
    (hqueries : (rows.filter selected).length + chunkSize ≤ queries * chunkSize) :
    ∃ (removed : List LinkModel) (links : List (LinkEntity libs)),
      deleteChunks engine libs chunkSize handouts selected queries turn rows deleted =
        some (.ok (deleted ++ links), rows.filter fun m => !selected m) ∧
      removed.Perm (rows.filter selected) ∧ links.map Except.ok = removed.map (·.toDomain engine libs) ∧
      links.map (·.id) = removed.map (·.id) := by
  induction queries generalizing turn rows deleted with
  | zero => omega
  | succ queries ih =>
    rw [Nat.add_one_mul] at hqueries
    unfold deleteChunks
    have hlength : ((handouts turn).limit chunkSize (rows.filter selected)).length =
        min chunkSize (rows.filter selected).length := length_limit
    set models := (handouts turn).limit chunkSize (rows.filter selected) with hmodels
    by_cases hempty : models = []
    · -- Nothing was selected: there is nothing left to select.
      rw [hempty, List.length_nil] at hlength
      have hnone : rows.filter selected = [] := List.length_eq_zero_iff.mp (by omega)
      refine ⟨[], [], ?_, ?_, rfl, rfl⟩
      · have hall : rows.filter (fun m => !selected m) = rows := by
          apply List.filter_eq_self.mpr
          intro m hm
          simpa using List.filter_eq_nil_iff.mp hnone m hm
        simp [hempty, hall]
      · rw [hnone]
    · have hpos : 0 < models.length := List.length_pos_iff.mpr hempty
      obtain ⟨chunk, hread⟩ : ∃ chunk, models.mapM (·.toDomain engine libs) = .ok chunk := by
        apply mapM_total
        intro m hm
        exact hrows.reads m (List.mem_filter.mp (mem_of_mem_limit hm)).1
      have hids : chunk.map (·.id) = models.map (·.id) := mapM_ok_map hread fun _ _ => toDomain_id
      have hplaces : chunk.map Except.ok = models.map (·.toDomain engine libs) := mapM_ok_map hread fun _ _ h => h.symm
      have hsub : (deleteIn (·.id) (models.map (·.id)) rows).Sublist rows := List.filter_sublist
      have hperm := perm_limit_deleteIn (handouts turn) chunkSize (p := selected) hrows.ids
      rw [← hmodels] at hperm
      have hcount := hperm.length_eq
      rw [List.length_append] at hcount
      have hroom : chunkSize ≤ queries * chunkSize := by
        refine Nat.le_mul_of_pos_left _ (Nat.pos_of_ne_zero ?_)
        rintro rfl
        omega
      obtain ⟨removed, links, hrest, hremoved, hlinks, hkeys⟩ :=
        ih (turn + 1) (deleted ++ chunk) (hrows.sublist hsub) (by omega)
      refine ⟨models ++ removed, chunk ++ links, ?_, (hremoved.append_left models).trans hperm, ?_, ?_⟩
      · simp only [List.isEmpty_iff, hempty, if_false, hread, hids]
        rw [hrest, List.append_assoc, filter_not_deleteIn (handouts turn) chunkSize hrows.ids]
      · rw [List.map_append, List.map_append, hplaces, hlinks]
      · rw [List.map_append, List.map_append, hids, hkeys]

end Spec

/-! ## The result -/

/-- A deletion came to its end, removed exactly the selected rows, returned each of them once, and left every other row as
it was. -/
def DeletesExactly (table : LinkTable engine libs) (selected : LinkModel → Prop) [DecidablePred selected]
    (outcome : Option (Except DomainError (List (LinkEntity libs)) × List LinkModel)) : Prop :=
  ∃ (removed : List LinkModel) (links : List (LinkEntity libs)),
    outcome = some (.ok links, table.rows.filter fun m => ¬ selected m) ∧
    removed.Perm (table.rows.filter fun m => selected m) ∧ links.map Except.ok = removed.map (·.toDomain engine libs) ∧
    (links.map (·.id)).Nodup

/-- As many queries as there are chunks, and one that selects nothing. -/
def queriesFor (table : LinkTable engine libs) (selected : LinkModel → Prop) [DecidablePred selected]
    (chunkSize : Nat) : Nat :=
  ((table.rows.filter fun m => selected m).length + chunkSize - 1) / chunkSize + 1

section Results

variable (table : LinkTable engine libs) (chunkSize : ℕ+) (handouts : Nat → Handout LinkModel)

theorem deleteChunks_exact {condition : LinkModel → Bool} {selected : LinkModel → Prop} [DecidablePred selected]
    (hcondition : ∀ m, condition m = true ↔ selected m) (more : Nat) :
    table.DeletesExactly selected (deleteChunks engine libs chunkSize handouts condition
      (table.queriesFor selected chunkSize + more) 0 table.rows []) := by
  have hsame : condition = fun m => decide (selected m) := by
    funext m
    rw [Bool.eq_iff_iff, hcondition, decide_eq_true_iff]
  subst hsame
  have hpos : 0 < (chunkSize : Nat) := chunkSize.pos
  have henough : (table.rows.filter fun m => selected m).length + chunkSize ≤
      (table.queriesFor selected chunkSize + more) * chunkSize := by
    unfold queriesFor
    have hdiv := Nat.div_add_mod ((table.rows.filter fun m => selected m).length + chunkSize - 1) chunkSize
    have hmod := Nat.mod_lt ((table.rows.filter fun m => selected m).length + chunkSize - 1) hpos
    rw [Nat.mul_comm] at hdiv
    rw [Nat.add_mul, Nat.add_one_mul]
    omega
  obtain ⟨removed, links, hends, hremoved, hlinks, hkeys⟩ := deleteChunks_spec handouts hpos 0 [] table.readable henough
  refine ⟨removed, links, ?_, hremoved, hlinks, ?_⟩
  · rw [hends, List.nil_append]
    simp
  · rw [hkeys, (hremoved.map _).nodup_iff]
    exact table.ids.sublist (List.filter_sublist.map _)

/-- **The chunked deletions end, and delete exactly what they should**, whatever order the rows are handed out in: the links
whose expiry is set and has passed, or the links of one account. -/
theorem chunked_deletions_are_exact :
    (∀ now more, table.DeletesExactly (fun m => ∃ t ∈ m.expiresAt, t ≤ now)
      (deleteExpired engine libs chunkSize handouts now
        (table.queriesFor (fun m => ∃ t ∈ m.expiresAt, t ≤ now) chunkSize + more) table.rows)) ∧
    ∀ userId more, table.DeletesExactly (fun m => m.ownerId = some userId)
      (deleteByOwner engine libs chunkSize handouts userId
        (table.queriesFor (fun m => m.ownerId = some userId) chunkSize + more) table.rows) := by
  refine ⟨fun now more => table.deleteChunks_exact chunkSize handouts ?_ more,
    fun userId more => table.deleteChunks_exact chunkSize handouts ?_ more⟩
  · intro m
    rw [holds_and, holds_isNotNull, holds_le]
    refine ⟨fun h => h.2, ?_⟩
    rintro ⟨t, ht, hle⟩
    exact ⟨⟨t, ht⟩, t, ht, hle⟩
  · intro m
    exact holds_eq

end Results

end LinkTable

/-! ## The repository of the use cases -/

section Numbers

variable (spell : Uuid → String)

theorem Link.expired_row (now : Instant) (link : Link) :
    (∃ t ∈ (link.row spell).expiresAt, t ≤ now) ↔ link.isExpired now = true := by
  unfold Link.isExpired Link.row
  cases link.expiresAt with
  | none => simp
  | some t => simp

/-- **The repository of the use cases deletes what the loop does**: the rows that are selected are those of the links it
names, and the rows that stay are those of the links it keeps. -/
theorem deleteExpired_rows (db : Db) (now : Instant) :
    ((db.links.rows.map (Link.row spell)).filter fun m => ∃ t ∈ m.expiresAt, t ≤ now) =
        (db.deleteExpired now).1.map (Link.row spell) ∧
      ((db.links.rows.map (Link.row spell)).filter fun m => ¬ ∃ t ∈ m.expiresAt, t ≤ now) =
        (db.deleteExpired now).2.links.rows.map (Link.row spell) := by
  refine ⟨?_, ?_⟩
  · rw [List.filter_map]
    congr 1
    apply List.filter_congr
    intro link _
    rw [Function.comp_apply, Bool.eq_iff_iff, decide_eq_true_iff]
    exact Link.expired_row spell now link
  · rw [List.filter_map]
    congr 1
    apply List.filter_congr
    intro link _
    rw [Function.comp_apply, Bool.eq_iff_iff, decide_eq_true_iff, Bool.not_eq_true', ← Bool.not_eq_true]
    exact not_congr (Link.expired_row spell now link)

end Numbers

end LinkShortener
