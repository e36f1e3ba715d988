import LinkShortener.Storage.Database

/-!
# The link repository

What the use cases read and write of the `urls` table, each statement on the database as one transaction sees it.

* `findByCode`, `findLiveByHash`, `countGuestLinksByIdentifier`: the reads.
* `saveLink`, `saveMany`, `incrementClicks`, `deleteLink`, `deleteExpired`: the writes, with what each does to
  `findByCode`.
-/

namespace LinkShortener

namespace Link

/-- The order in which a URL's duplicates are handed out. -/
def older (a b : Link) : Bool := decide (a.createdAt < b.createdAt ∨ a.createdAt = b.createdAt ∧ a.id < b.id)

/-- The older of the oldest link so far and the next one. -/
def keepOlder (best : Option Link) (link : Link) : Option Link :=
  match best with
  | none => some link
  | some first => if link.older first then some link else some first

/-- `ORDER BY created_at, id LIMIT 1`. -/
def oldest (links : List Link) : Option Link := links.foldl keepOlder none

/-- A link without owner that the identifier has created at or after the cutoff. -/
def countsFor (identifier : String) (cutoff : Instant) (link : Link) : Bool :=
  decide (link.owner = none ∧ link.guestIdentifier = some identifier ∧ cutoff ≤ link.createdAt)

/-- A link that a URL deduplicates against. -/
def liveIn (hash : String) (scope : DedupScope) (now : Instant) (link : Link) : Bool :=
  decide (link.urlHash = hash ∧ link.dedupScope = scope) && !link.isExpired now

/-- The link among the rows that a URL deduplicates against. -/
def firstLive (rows : List Link) (hash : String) (scope : DedupScope) (now : Instant) : Option Link :=
  oldest (rows.filter (liveIn hash scope now))

/-- What is live stays what it is while the clock goes back. -/
theorem liveIn_mono {hash : String} {scope : DedupScope} {now now' : Instant} (hle : now ≤ now') {link : Link}
    (h : link.liveIn hash scope now' = true) : link.liveIn hash scope now = true := by
  simp only [liveIn, isExpired, Bool.and_eq_true, Bool.not_eq_true'] at h ⊢
  refine ⟨h.1, ?_⟩
  have hlate := h.2
  cases he : link.expiresAt with
  | none => rfl
  | some expiresAt =>
    rw [he] at hlate
    simp only [decide_eq_false_iff_not, not_le] at hlate ⊢
    exact lt_of_le_of_lt hle hlate

/-- A day, in the unit of `Instant`. -/
def day : Int := 86400 * second

/-- The beginning of the window the guest quota looks back on. -/
def windowStart (now : Instant) (sinceDays : Int) : Instant := now - sinceDays * day

theorem keepOlder_cases (best : Option Link) (link : Link) : keepOlder best link = some link ∨
    ∃ first, best = some first ∧ keepOlder best link = some first := by
  cases best with
  | none => exact .inl rfl
  | some first =>
    by_cases h : link.older first
    · exact .inl (if_pos h)
    · exact .inr ⟨first, rfl, if_neg h⟩

theorem foldl_keepOlder (links : List Link) (best : Option Link) :
    (∀ l, links.foldl keepOlder best = some l → l ∈ links ∨ best = some l) ∧
      (links.foldl keepOlder best = none → links = [] ∧ best = none) := by
  induction links generalizing best with
  | nil => exact ⟨fun l h => .inr h, fun h => ⟨rfl, h⟩⟩
  | cons x xs ih =>
    obtain ⟨hmem, hnone⟩ := ih (keepOlder best x)
    constructor
    · intro l h
      rcases hmem l h with hl | hl
      · exact .inl (List.mem_cons_of_mem x hl)
      · rcases keepOlder_cases best x with hx | ⟨first, rfl, hx⟩
        · rw [hx] at hl
          cases hl
          exact .inl List.mem_cons_self
        · rw [hx] at hl
          exact .inr hl
    · intro h
      have hx := (hnone h).2
      rcases keepOlder_cases best x with hx' | ⟨first, _, hx'⟩
      · rw [hx'] at hx
        cases hx
      · rw [hx'] at hx
        cases hx

/-- The link a URL deduplicates against is a live row. -/
theorem firstLive_some {rows : List Link} {hash : String} {scope : DedupScope} {now : Instant} {link : Link}
    (h : firstLive rows hash scope now = some link) : link ∈ rows ∧ liveIn hash scope now link = true := by
  rcases (foldl_keepOlder _ none).1 link h with hl | hl
  · exact List.mem_filter.mp hl
  · cases hl

/-- There is one as soon as some row is live. -/
theorem firstLive_none {rows : List Link} {hash : String} {scope : DedupScope} {now : Instant}
    (h : firstLive rows hash scope now = none) : ∀ l ∈ rows, liveIn hash scope now l = false := by
  have hnil := ((foldl_keepOlder _ none).2 h).1
  intro l hl
  simpa using List.filter_eq_nil_iff.mp hnil l hl

theorem older_trans {a b c : Link} (hab : ¬ b.older a = true) (hbc : ¬ c.older b = true) : ¬ c.older a = true := by
  have horder : ∀ (t₁ t₂ t₃ : Int) (i₁ i₂ i₃ : Nat), ¬ (t₂ < t₁ ∨ t₂ = t₁ ∧ i₂ < i₁) → ¬ (t₃ < t₂ ∨ t₃ = t₂ ∧ i₃ < i₂) →
      ¬ (t₃ < t₁ ∨ t₃ = t₁ ∧ i₃ < i₁) := by omega
  simp only [older, decide_eq_true_eq] at *
  exact horder _ _ _ _ _ _ hab hbc

theorem older_asymm {a b : Link} (h : a.older b = true) : ¬ b.older a = true := by
  have horder : ∀ (t₁ t₂ : Int) (i₁ i₂ : Nat), (t₁ < t₂ ∨ t₁ = t₂ ∧ i₁ < i₂) → ¬ (t₂ < t₁ ∨ t₂ = t₁ ∧ i₂ < i₁) := by omega
  simp only [older, decide_eq_true_eq] at *
  exact horder _ _ _ _ h

/-- The order is total on different identifiers. -/
theorem id_eq_of_not_older {a b : Link} (hab : ¬ a.older b = true) (hba : ¬ b.older a = true) : a.id = b.id := by
  have horder : ∀ (t₁ t₂ : Int) (i₁ i₂ : Nat), ¬ (t₁ < t₂ ∨ t₁ = t₂ ∧ i₁ < i₂) → ¬ (t₂ < t₁ ∨ t₂ = t₁ ∧ i₂ < i₁) → i₁ =
      i₂ := by
    omega
  simp only [older, decide_eq_true_eq] at *
  exact horder _ _ _ _ hab hba

theorem foldl_keepOlder_least (links : List Link) (best : Option Link) {l : Link}
    (h : links.foldl keepOlder best = some l) :
    (∀ m ∈ links, ¬ m.older l = true) ∧ ∀ m, best = some m → ¬ m.older l = true := by
  induction links generalizing best with
  | nil =>
    refine ⟨?_, ?_⟩
    · intro m hm
      cases hm
    · intro m hm
      cases hm.symm.trans h
      simp [older]
  | cons x xs ih =>
    obtain ⟨hrest, hbest⟩ := ih (keepOlder best x) h
    cases best with
    | none =>
      refine ⟨?_, nofun⟩
      intro m hm
      rcases List.mem_cons.mp hm with rfl | hm
      · exact hbest m rfl
      · exact hrest m hm
    | some first =>
      by_cases hx : x.older first = true
      · have hkept : keepOlder (some first) x = some x := if_pos hx
        have hxl := hbest x hkept
        refine ⟨?_, ?_⟩
        · intro m hm
          rcases List.mem_cons.mp hm with rfl | hm
          · exact hxl
          · exact hrest m hm
        · intro m hm
          cases hm
          exact older_trans hxl (older_asymm hx)
      · have hkept : keepOlder (some first) x = some first := if_neg hx
        have hfirst := hbest first hkept
        refine ⟨?_, ?_⟩
        · intro m hm
          rcases List.mem_cons.mp hm with rfl | hm
          · exact older_trans hfirst hx
          · exact hrest m hm
        · intro m hm
          cases hm
          exact hfirst

/-- The link a URL deduplicates against is the oldest of those that are live. -/
theorem firstLive_oldest {rows : List Link} {hash : String} {scope : DedupScope} {now : Instant} {link : Link}
    (h : firstLive rows hash scope now = some link) :
    ∀ l ∈ rows, liveIn hash scope now l = true → ¬ l.older link = true := by
  intro l hl hlive
  exact (foldl_keepOlder_least _ none h).1 l (List.mem_filter.mpr ⟨hl, hlive⟩)

end Link

namespace Db

/-! ## Reads -/

def findByCode (db : Db) (c : ShortCode) : Option Link := db.links.get c

def findLiveByHash (db : Db) (hash : String) (scope : DedupScope) (now : Instant) : Option Link :=
  Link.firstLive db.links.rows hash scope now

def countGuestLinksByIdentifier (db : Db) (identifier : String) (sinceDays : Int) (now : Instant) : Nat :=
  (db.links.rows.filter (Link.countsFor identifier (Link.windowStart now sinceDays))).length

/-! ## Writes -/

/-- The message of an integrity error that no handler turns into a refusal of its own. -/
def integrityError : DomainError := .plain "Internal server error" "INTERNAL_ERROR"

/-- Insert a link. A code that is taken is a conflict; any other violation leaves as it came. Identifiers are drawn
afresh for every link, so that `merge` finds no row to overwrite. -/
def saveLink (db : Db) (link : Link) : Except DomainError Db :=
  match hi : db.links.insert link with
  | none => .error (.linkConflict "Link conflicts with one stored concurrently")
  | some links =>
    if h : (∀ u, link.owner = some u → db.users.get u ≠ none) ∧ ∀ l ∈ db.links.rows, l.id ≠ link.id then
      .ok { db with
        links := links
        links_fk := by
          intro c l u hl ho
          rw [Rows.get_insert hi] at hl
          split at hl
          · cases hl
            exact h.1 u ho
          · exact db.links_fk hl ho
        linkIds := by
          have hnew : ∀ {c l}, db.links.get c = some l → l.id ≠ link.id := by
            intro c l hl
            exact h.2 l (Rows.get_eq_some.mp hl).1
          intro c c' l l' hl hl' hid
          rw [Rows.get_insert hi] at hl hl'
          split at hl <;> split at hl'
          · rename_i hc hc'
            exact hc.symm.trans hc'
          · cases hl
            exact absurd hid.symm (hnew hl')
          · cases hl'
            exact absurd hid (hnew hl)
          · exact db.linkIds hl hl' hid }
    else .error integrityError

/-- Insert all links or none. -/
def saveMany (db : Db) (links : List Link) : Except DomainError Db := links.foldlM saveLink db

/-- Rewrite links, each under its code, identifier and owner. -/
def modifyLinks (db : Db) (f : Link → Link)
    (hf : ∀ l, (f l).shortCode = l.shortCode ∧ (f l).owner = l.owner ∧ (f l).id = l.id) : Db :=
  { db with
    links := db.links.modify f fun l => (hf l).1
    links_fk := by
      intro c l u hl ho
      simp only [Rows.get_modify, Option.map_eq_some_iff] at hl
      obtain ⟨l', hl', rfl⟩ := hl
      rw [(hf l').2.1] at ho
      exact db.links_fk hl' ho
    linkIds := by
      intro c c' l l' hl hl' hid
      simp only [Rows.get_modify, Option.map_eq_some_iff] at hl hl'
      obtain ⟨m, hm, rfl⟩ := hl
      obtain ⟨m', hm', rfl⟩ := hl'
      rw [(hf m).2.2, (hf m').2.2] at hid
      exact db.linkIds hm hm' hid }

/-- Count one opening; `none` when no link carries the code. -/
def incrementClicks (db : Db) (c : ShortCode) (now : Instant) : Option Db :=
  if (db.findByCode c).isNone then none
  else some (db.modifyLinks
    (fun l => if l.shortCode = c then { l with clicks := l.clicks + 1, lastAccessed := some now } else l)
    (by intro l; split <;> simp))

/-- Delete a link by its identifier, and say whether there was one. -/
def deleteLink (db : Db) (id : Uuid) : Bool × Db :=
  (db.links.rows.any fun l => decide (l.id = id), db.filterLinks fun l => decide (l.id ≠ id))

/-- Delete the links whose expiry has passed, and name them. -/
def deleteExpired (db : Db) (now : Instant) : List Link × Db :=
  (db.links.rows.filter (·.isExpired now), db.filterLinks fun l => !l.isExpired now)

/-! ## What the writes do -/

section Writes

variable {db db' : Db} {link : Link} {c : ShortCode}

theorem findByCode_shortCode {l : Link} (h : db.findByCode c = some l) : l.shortCode = c := Rows.key_of_get h

/-- An inserted link takes a free code; every other link and every account stay. -/
theorem saveLink_ok (h : db.saveLink link = .ok db') :
    db.findByCode link.shortCode = none ∧ db'.users = db.users ∧
      ∀ c, db'.findByCode c = if link.shortCode = c then some link else db.findByCode c := by
  unfold saveLink at h
  split at h
  · cases h
  · rename_i links hi
    split at h
    · cases h
      refine ⟨?_, rfl, ?_⟩
      · by_contra hne
        rw [Rows.insert_eq_none.mpr hne] at hi
        cases hi
      · intro c
        exact Rows.get_insert hi c
    · cases h

theorem saveLink_rows (h : db.saveLink link = .ok db') : db'.links.rows = link :: db.links.rows := by
  unfold saveLink at h
  split at h
  · cases h
  · rename_i links hi
    split at h
    · cases h
      unfold Rows.insert at hi
      split at hi
      · cases hi
      · cases hi
        rfl
    · cases h

/-- All links are added, and nothing else is. -/
theorem saveMany_rows {links : List Link} (h : db.saveMany links = .ok db') :
    db'.links.rows = links.reverse ++ db.links.rows := by
  induction links generalizing db with
  | nil =>
    cases h
    rfl
  | cons link links ih =>
    obtain ⟨db₁, h₁, h₂⟩ := bind_eq_ok.mp h
    rw [ih h₂, saveLink_rows h₁, List.reverse_cons, List.append_assoc]
    rfl

/-- Inserting links keeps the accounts and every link that was there, and adds no other links. -/
theorem saveMany_ok {links : List Link} (h : db.saveMany links = .ok db') :
    db'.users = db.users ∧ (∀ c l, db.findByCode c = some l → db'.findByCode c = some l) ∧
      ∀ c l, db'.findByCode c = some l → db.findByCode c = some l ∨ l ∈ links := by
  induction links generalizing db with
  | nil =>
    cases h
    exact ⟨rfl, fun _ _ h => h, fun _ _ h => .inl h⟩
  | cons link links ih =>
    obtain ⟨db₁, h₁, h₂⟩ := bind_eq_ok.mp h
    obtain ⟨hfree, husers, hget⟩ := saveLink_ok h₁
    obtain ⟨husers', hkept, hadded⟩ := ih h₂
    refine ⟨husers'.trans husers, ?_, ?_⟩
    · intro c l hl
      apply hkept
      rw [hget]
      split
      · rename_i hc
        rw [← hc, hfree] at hl
        cases hl
      · exact hl
    · intro c l hl
      rcases hadded c l hl with hl | hl
      · rw [hget] at hl
        split at hl
        · cases hl
          exact .inr List.mem_cons_self
        · exact .inl hl
      · exact .inr (List.mem_cons_of_mem link hl)

/-- Counting an opening changes nothing a redirect reads. -/
theorem incrementClicks_some {now : Instant} (h : db.incrementClicks c now = some db') :
    db'.users = db.users ∧ ∀ c', (db'.findByCode c').map (fun l => (l.originalUrl, l.expiresAt, l.owner)) =
      (db.findByCode c').map (fun l => (l.originalUrl, l.expiresAt, l.owner)) := by
  unfold incrementClicks at h
  split at h
  · cases h
  · cases h
    refine ⟨rfl, ?_⟩
    intro c'
    simp only [findByCode, modifyLinks, Rows.get_modify, Option.map_map]
    congr 1
    funext l
    simp only [Function.comp]
    split <;> rfl

/-- Deleting a stored link frees its code and no other. -/
theorem findByCode_deleteLink (hl : db.findByCode c = some link) (c' : ShortCode) :
    (db.deleteLink link.id).2.findByCode c' = if c' = c then none else db.findByCode c' := by
  simp only [findByCode, deleteLink, filterLinks, Rows.get_filter]
  split
  · rename_i hc
    subst hc
    rw [show db.links.get c' = some link from hl]
    simp
  · rename_i hc
    cases hl' : db.links.get c' with
    | none => rfl
    | some l =>
      have hne : l.id ≠ link.id := by
        intro hid
        exact hc (db.linkIds hl' hl hid)
      simp [hne]

/-- A link survives a filter when it passes it. -/
theorem findByCode_filterLinks (p : Link → Bool) (c : ShortCode) :
    (db.filterLinks p).findByCode c = (db.findByCode c).filter p := Rows.get_filter p c

/-- The rows of the table are what its codes find. -/
theorem mem_links_iff {l : Link} : l ∈ db.links.rows ↔ db.findByCode l.shortCode = some l := Rows.mem_iff_get

end Writes

/-! ## When an insert goes through -/

section Inserts

variable {db : Db}

/-- A code that is free is no conflict. -/
theorem saveLink_error {link : Link} {e : DomainError} (hfree : db.findByCode link.shortCode = none)
    (h : db.saveLink link = .error e) : e = integrityError := by
  unfold saveLink at h
  split at h
  · rename_i hi
    exact absurd hfree (Rows.insert_eq_none.mp hi)
  · split at h
    · cases h
    · cases h
      rfl

/-- A new link of an account that is there. -/
def Admits (db : Db) (link : Link) : Prop :=
  db.findByCode link.shortCode = none ∧ (∀ u, link.owner = some u → db.users.get u ≠ none) ∧
    ∀ l ∈ db.links.rows, l.id ≠ link.id

theorem saveLink_total {link : Link} (h : db.Admits link) : ∃ db', db.saveLink link = .ok db' := by
  unfold saveLink
  split
  · rename_i hi
    exact absurd h.1 (Rows.insert_eq_none.mp hi)
  · rw [dif_pos h.2]
    exact ⟨_, rfl⟩

section Many

variable {links : List Link}

/-- Codes that are free stay free for the links that come after. -/
theorem free_after {link : Link} {db' : Db} (hn : ((link :: links).map (·.shortCode)).Nodup)
    (hfree : ∀ l ∈ link :: links, db.findByCode l.shortCode = none) (h : db.saveLink link = .ok db') :
    ∀ l ∈ links, db'.findByCode l.shortCode = none := by
  intro l hl
  rw [(saveLink_ok h).2.2, if_neg]
  · exact hfree l (List.mem_cons_of_mem link hl)
  · intro hcode
    exact (List.nodup_cons.mp hn).1 (List.mem_map.mpr ⟨l, hl, hcode.symm⟩)

theorem saveMany_error {e : DomainError} (hn : (links.map (·.shortCode)).Nodup)
    (hfree : ∀ l ∈ links, db.findByCode l.shortCode = none) (h : db.saveMany links = .error e) :
    e = integrityError := by
  induction links generalizing db with
  | nil => cases h
  | cons link links ih =>
    cases hsave : db.saveLink link with
    | error e' =>
      have hfirst : db.saveMany (link :: links) = .error e' := by simp [saveMany, hsave, bind, Except.bind]
      cases hfirst.symm.trans h
      exact saveLink_error (hfree link List.mem_cons_self) hsave
    | ok db' =>
      have hrest : db.saveMany (link :: links) = db'.saveMany links := by simp [saveMany, hsave, bind, Except.bind]
      exact ih (List.nodup_cons.mp hn).2 (free_after hn hfree hsave) (hrest.symm.trans h)

theorem saveMany_total (hn : (links.map (·.shortCode)).Nodup) (hids : (links.map (·.id)).Nodup)
    (h : ∀ l ∈ links, db.Admits l) : ∃ db', db.saveMany links = .ok db' := by
  induction links generalizing db with
  | nil => exact ⟨db, rfl⟩
  | cons link links ih =>
    obtain ⟨db', hsave⟩ := saveLink_total (h link List.mem_cons_self)
    have hrest : db.saveMany (link :: links) = db'.saveMany links := by simp [saveMany, hsave, bind, Except.bind]
    rw [hrest]
    refine ih (List.nodup_cons.mp hn).2 (List.nodup_cons.mp hids).2 ?_
    intro l hl
    obtain ⟨-, howner, hid⟩ := h l (List.mem_cons_of_mem link hl)
    refine ⟨free_after hn (fun l hl => (h l hl).1) hsave l hl, ?_, ?_⟩
    · rw [(saveLink_ok hsave).2.1]
      exact howner
    · rw [saveLink_rows hsave]
      intro l' hl'
      rcases List.mem_cons.mp hl' with rfl | hl'
      · intro hsame
        exact (List.nodup_cons.mp hids).1 (List.mem_map.mpr ⟨l, hl, hsame.symm⟩)
      · exact hid l' hl'

end Many

end Inserts

end Db

end LinkShortener
