import Mathlib.Data.String.Basic
import LinkShortener.Links.Records
import LinkShortener.Links.Repository

/-!
# What a URL deduplicates against, three times

The same condition is written in SQL, on the entity, and in the check of a cached link. `LinkTable` is the `urls` table:
rows the repository has written, under its primary key and its unique index.

* `mem_liveInScope`: the rows the query selects are those whose entities say so.
* `lookup_findLiveByHashes`: the bulk lookup answers for every hash what the single one does.
* `lookup_confirmAll`: the bulk check of cached links keeps what the single one keeps.
* `lookUpAll_eq`: so a batch and a single creation find the same link, or both find none.
-/

namespace LinkShortener

/-- The `urls` table. -/
structure LinkTable (engine : Engine) (libs : Urls.Libraries) where
  rows : List LinkModel
  ids : (rows.map (·.id)).Nodup
  codes : (rows.map (·.shortCode)).Nodup
  written : ∀ m ∈ rows, ∃ link : LinkEntity libs, m = link.toModel engine

namespace LinkModel

/-- `ORDER BY created_at, id`. -/
def NotAfter (a b : LinkModel) : Prop := a.createdAt < b.createdAt ∨ a.createdAt = b.createdAt ∧ a.id ≤ b.id

instance : DecidableRel NotAfter := fun a b =>
  inferInstanceAs (Decidable (a.createdAt < b.createdAt ∨ a.createdAt = b.createdAt ∧ a.id ≤ b.id))

instance : Std.Total NotAfter where
  total a b := by
    unfold NotAfter
    rcases lt_trichotomy a.createdAt b.createdAt with h | h | h
    · exact .inl (.inl h)
    · rcases le_total a.id b.id with hid | hid
      · exact .inl (.inr ⟨h, hid⟩)
      · exact .inr (.inr ⟨h.symm, hid⟩)
    · exact .inr (.inl h)

instance : IsTrans LinkModel NotAfter where
  trans a b c hab hbc := by
    unfold NotAfter at *
    rcases hab with hab | ⟨hab, hid⟩
    · rcases hbc with hbc | ⟨hbc, -⟩
      · exact .inl (lt_trans hab hbc)
      · exact .inl (hbc ▸ hab)
    · rcases hbc with hbc | ⟨hbc, hid'⟩
      · exact .inl (hab ▸ hbc)
      · exact .inr ⟨hab.trans hbc, le_trans hid hid'⟩

theorem NotAfter.antisymm {a b : LinkModel} (hab : a.NotAfter b) (hba : b.NotAfter a) : a.id = b.id := by
  unfold NotAfter at *
  rcases hab with hab | ⟨hab, hid⟩
  · rcases hba with hba | ⟨hba, -⟩
    · exact absurd (lt_trans hab hba) (lt_irrefl _)
    · exact absurd (hba ▸ hab) (lt_irrefl _)
  · rcases hba with hba | ⟨-, hid'⟩
    · exact absurd (hab ▸ hba) (lt_irrefl _)
    · exact le_antisymm hid hid'

/-- Not expired, and of the owner of a scope, or of nobody and of the address of the scope. -/
def Live (scope : Scope) (now : Instant) (m : LinkModel) : Prop :=
  (∀ t ∈ m.expiresAt, now < t) ∧ m.ownerId = scope.ownerId ∧
    (scope.ownerId = none → m.guestIdentifier = scope.guestIdentifier)

instance (scope : Scope) (now : Instant) (m : LinkModel) : Decidable (m.Live scope now) :=
  inferInstanceAs (Decidable ((∀ t ∈ m.expiresAt, now < t) ∧ _ ∧ (_ → _)))

end LinkModel

/-! ## The statements -/

namespace LinkTable

section Reading

variable (engine : Engine) (libs : Urls.Libraries)

/-- A row under its hash. -/
def underHash (m : LinkModel) : Except DomainError (UrlHash × LinkEntity libs) := do
  let urlHash ← UrlHash.parse m.urlHash
  return (urlHash, ← m.toDomain engine libs)

/-- A row under its code. -/
def underCode (m : LinkModel) : Except DomainError (ShortCode × LinkEntity libs) := do
  let shortCode ← ShortCode.parse m.shortCode
  return (shortCode, ← m.toDomain engine libs)

end Reading

/-- The query for unexpired links inside one scope. -/
def liveRows (rows : List LinkModel) (scope : Scope) (now : Instant) : List LinkModel :=
  let query := rows.filter fun m => Query.holds (Query.or (Query.isNull m.expiresAt) (Query.gt m.expiresAt now))
  match scope.ownerId with
  | some ownerId => query.filter fun m => Query.holds (Query.eq m.ownerId ownerId)
  | none =>
    -- A scope without an owner has to say so: an owned link may share the address it was created from.
    let query := query.filter fun m => Query.holds (Query.isNull m.ownerId)
    match scope.guestIdentifier with
    | some guestIdentifier => query.filter fun m => Query.holds (Query.eq m.guestIdentifier guestIdentifier)
    | none => query.filter fun m => Query.holds (Query.isNull m.guestIdentifier)

section Statements

variable {engine : Engine} {libs : Urls.Libraries} (table : LinkTable engine libs) (scope : Scope) (now : Instant)

def liveInScope : List LinkModel := liveRows table.rows scope now

/-- The oldest live link of one hash. -/
def findLiveByHash (urlHash : UrlHash) : Except DomainError (Option (LinkEntity libs)) :=
  (Query.first LinkModel.NotAfter
    ((table.liveInScope scope now).filter fun m => decide (m.urlHash = urlHash.val))).mapM (·.toDomain engine libs)

/-- The live links of several hashes: the rows come oldest first, and the first one of a hash stays. -/
def findLiveByHashes (urlHashes : List UrlHash) :
    Except DomainError (Dictionary UrlHash (Option (LinkEntity libs))) := do
  let models := Query.orderBy LinkModel.NotAfter
    ((table.liveInScope scope now).filter fun m => decide (m.urlHash ∈ urlHashes.map (·.val)))
  let found ← models.mapM (underHash engine libs)
  return Query.complete none (Query.firstOf (·.1) (fun r => some r.2) Rows.empty found) urlHashes

/-- The link that carries a code. -/
def findByCode (shortCode : ShortCode) : Except DomainError (Option (LinkEntity libs)) :=
  (table.rows.find? fun m => decide (m.shortCode = shortCode.val)).mapM (·.toDomain engine libs)

/-- The links that carry several codes. -/
def findByCodes (shortCodes : List ShortCode) :
    Except DomainError (Dictionary ShortCode (Option (LinkEntity libs))) := do
  let models := table.rows.filter fun m => decide (m.shortCode ∈ shortCodes.map (·.val))
  let found ← models.mapM (underCode engine libs)
  let result := found.foldl (fun d r => Dictionary.set d r.1 (some r.2)) Rows.empty
  return Query.complete none result shortCodes

/-! ## The checks of cached links -/

/-- Whether a stored link backs what was claimed for a hash and a scope. -/
def backs (urlHash : UrlHash) (stored : LinkEntity libs) : Bool :=
  decide (stored.urlHash = urlHash) && decide (stored.dedupScope = scope) && !stored.isExpired now

/-- The stored link a cached one claims to be, if it still is: the check of a single creation. -/
def confirmOne (urlHash : UrlHash) (cached : LinkEntity libs) : Except DomainError (Option (LinkEntity libs)) := do
  match ← table.findByCode cached.shortCode with
  | none => return none
  | some stored =>
    if stored.urlHash ≠ urlHash then return none
    else if stored.dedupScope ≠ scope then return none
    else if stored.isExpired now then return none
    else return some stored

/-- One cached link of a batch is kept, or dropped from the cache. -/
def confirmStep (stored : Dictionary ShortCode (Option (LinkEntity libs)))
    (acc : Dictionary UrlHash (LinkEntity libs) × List (LinkEntity libs)) (r : UrlHash × LinkEntity libs) :
    Dictionary UrlHash (LinkEntity libs) × List (LinkEntity libs) :=
  match (Dictionary.lookup stored r.2.shortCode).join.filter (backs scope now r.1) with
  | some link => (Dictionary.set acc.1 r.1 link, acc.2)
  | none => (acc.1, acc.2 ++ [r.2])

/-- The cached links that are still what they claim to be, and those that are not: the check of a batch. -/
def confirmAll (cached : Dictionary UrlHash (Option (LinkEntity libs))) :
    Except DomainError (Dictionary UrlHash (LinkEntity libs) × List (LinkEntity libs)) := do
  let candidates := Dictionary.present cached
  if candidates.rows.isEmpty then return (Rows.empty, [])
  let stored ← table.findByCodes (candidates.rows.map (·.2.shortCode))
  return candidates.rows.foldl (confirmStep scope now stored) (Rows.empty, [])

/-! ## Both ways to look a URL up -/

/-- A single creation: the cached link if it is confirmed, else the oldest live one. -/
def lookUp (cached : Option (LinkEntity libs)) (urlHash : UrlHash) : Except DomainError (Option (LinkEntity libs)) := do
  let existing ← match cached with
    | none => pure none
    | some link => table.confirmOne scope now urlHash link
  match existing with
  | some link => return some link
  | none => table.findLiveByHash scope now urlHash

/-- A batch: the confirmed cached links, and the live ones of the other hashes. -/
def lookUpAll (cached : Dictionary UrlHash (Option (LinkEntity libs))) (urlHashes : List UrlHash) :
    Except DomainError (List (UrlHash × Option (LinkEntity libs))) := do
  let (confirmed, _) ← table.confirmAll scope now cached
  let missing := urlHashes.filter fun h => (Dictionary.lookup confirmed h).isNone
  if missing.isEmpty then return urlHashes.map fun h => (h, Dictionary.lookup confirmed h)
  let found ← table.findLiveByHashes scope now missing
  return urlHashes.map fun h => (h, (Dictionary.lookup confirmed h).or (Dictionary.lookup found h).join)

end Statements

/-! ## The rows of a query and their entities -/

section Selecting

variable {engine : Engine} {libs : Urls.Libraries} {table : LinkTable engine libs} {scope : Scope} {now : Instant}
  {m : LinkModel}

/-- What the conditions of the query come to. -/
theorem liveRows_eq (rows : List LinkModel) (scope : Scope) (now : Instant) :
    liveRows rows scope now = rows.filter fun m => decide (m.Live scope now) := by
  have hexpiry : ∀ m : LinkModel,
      (m.expiresAt = none ∨ ∃ t, m.expiresAt = some t ∧ now < t) ↔ ∀ t ∈ m.expiresAt, now < t := by
    intro m
    cases m.expiresAt with
    | none => simp
    | some t => simp
  unfold liveRows
  dsimp only
  split
  · rename_i ownerId ho
    rw [List.filter_filter]
    apply List.filter_congr
    intro m _
    rw [Bool.eq_iff_iff, decide_eq_true_iff, LinkModel.Live, ho]
    simp only [Bool.and_eq_true, Query.holds_or, Query.holds_isNull, Query.holds_gt, Query.holds_eq, hexpiry,
      reduceCtorEq, false_implies, and_true]
    exact and_comm
  · rename_i ho
    split
    · rename_i guestIdentifier hg
      rw [List.filter_filter, List.filter_filter]
      apply List.filter_congr
      intro m _
      rw [Bool.eq_iff_iff, decide_eq_true_iff, LinkModel.Live, ho, hg]
      simp only [Bool.and_eq_true, Query.holds_or, Query.holds_isNull, Query.holds_gt, Query.holds_eq, hexpiry,
        true_implies]
      tauto
    · rename_i hg
      rw [List.filter_filter, List.filter_filter]
      apply List.filter_congr
      intro m _
      rw [Bool.eq_iff_iff, decide_eq_true_iff, LinkModel.Live, ho, hg]
      simp only [Bool.and_eq_true, Query.holds_or, Query.holds_isNull, Query.holds_gt, hexpiry, true_implies]
      tauto

theorem mem_liveInScope_iff : m ∈ table.liveInScope scope now ↔ m ∈ table.rows ∧ m.Live scope now := by
  rw [liveInScope, liveRows_eq, List.mem_filter, decide_eq_true_iff]

theorem ids_inj {m' : LinkModel} (hm : m ∈ table.rows) (hm' : m' ∈ table.rows) (h : m.id = m'.id) : m = m' :=
  List.inj_on_of_nodup_map table.ids hm hm' h

/-- No two rows tie. -/
theorem notAfter_antisymm {rows : List LinkModel} (hrows : ∀ m ∈ rows, m ∈ table.rows) :
    ∀ a ∈ rows, ∀ b ∈ rows, a.NotAfter b → b.NotAfter a → a = b := by
  intro a ha b hb hab hba
  exact ids_inj (hrows a ha) (hrows b hb) (hab.antisymm hba)

/-- The scope of an entity, by its owner and its address. -/
theorem dedupScope_eq_iff {link : LinkEntity libs} : link.dedupScope = scope ↔
    link.owner.map (·.val) = scope.ownerId ∧ (scope.ownerId = none → link.guestIdentifier = scope.guestIdentifier) := by
  obtain ⟨ownerId, guestIdentifier, owned⟩ := scope
  unfold LinkEntity.dedupScope Scope.forOwner Scope.forGuest Scope.make
  cases link.owner with
  | none =>
    cases ownerId with
    | none => simp
    | some o => simp
  | some owner =>
    cases ownerId with
    | none => simp
    | some o =>
      have hguest : guestIdentifier = none := owned rfl
      simp [hguest]

/-- **The query selects the rows whose entities are live and in the scope.** -/
theorem mem_liveInScope (link : LinkEntity libs) (hm : link.toModel engine ∈ table.rows) :
    link.toModel engine ∈ table.liveInScope scope now ↔
      (link.reread engine).dedupScope = scope ∧ (link.reread engine).isExpired now = false := by
  have hexpired : (link.reread engine).isExpired now = false ↔ ∀ t ∈ (link.toModel engine).expiresAt, now < t := by
    unfold LinkEntity.isExpired LinkEntity.reread LinkEntity.toModel
    cases link.expiresAt with
    | none => simp
    | some d => simp [Datetime.instant_asUtc, Engine.instant_load]
  rw [mem_liveInScope_iff, LinkModel.Live, hexpired, dedupScope_reread, dedupScope_eq_iff]
  simp only [hm, true_and]
  exact and_comm

end Selecting

/-! ## Reading rows in bulk -/

/-- The first of the rows that are read is the first row, read. -/
theorem mapM_find? {α β : Type} {f : α → Except DomainError β} {p : α → Bool} {q : β → Bool} {xs : List α} {ys : List β}
    (h : xs.mapM f = .ok ys) (hpq : ∀ x y, f x = .ok y → q y = p x) : (xs.find? p).mapM f = .ok (ys.find? q) := by
  induction xs generalizing ys with
  | nil =>
    cases h
    rfl
  | cons x xs ih =>
    rw [List.mapM_cons] at h
    obtain ⟨y, hx, h⟩ := bind_eq_ok.mp h
    obtain ⟨ys', hxs, h⟩ := bind_eq_ok.mp h
    cases h
    rw [List.find?_cons, List.find?_cons, hpq x y hx]
    cases p x with
    | true =>
      show some <$> f x = _
      rw [hx]
      rfl
    | false => exact ih hxs

section Bulk

variable {engine : Engine} {libs : Urls.Libraries} {table : LinkTable engine libs} {scope : Scope} {now : Instant}
  {m : LinkModel}

theorem underHash_spec {r : UrlHash × LinkEntity libs} (h : underHash engine libs m = .ok r) :
    r.1.val = m.urlHash ∧ m.toDomain engine libs = .ok r.2 := by
  obtain ⟨urlHash, hhash, h⟩ := bind_eq_ok.mp h
  obtain ⟨link, hlink, h⟩ := bind_eq_ok.mp h
  cases h
  refine ⟨?_, hlink⟩
  unfold UrlHash.parse at hhash
  split at hhash
  · cases hhash
    rfl
  · cases hhash

theorem underCode_spec {r : ShortCode × LinkEntity libs} (h : underCode engine libs m = .ok r) :
    r.1.val = m.shortCode ∧ m.toDomain engine libs = .ok r.2 := by
  obtain ⟨shortCode, hcode, h⟩ := bind_eq_ok.mp h
  obtain ⟨link, hlink, h⟩ := bind_eq_ok.mp h
  cases h
  refine ⟨?_, hlink⟩
  unfold ShortCode.parse at hcode
  split at hcode
  · cases hcode
    rfl
  · cases hcode

/-- Every row of the table can be read under its hash, and under its code. -/
theorem reads (hm : m ∈ table.rows) :
    (∃ r, underHash engine libs m = .ok r) ∧ ∃ r, underCode engine libs m = .ok r := by
  obtain ⟨link, rfl⟩ := table.written m hm
  have hlink := toDomain_toModel engine link
  constructor
  · exact ⟨(link.urlHash, link.reread engine), bind_eq_ok.mpr ⟨link.urlHash, UrlHash.parse_val _,
      bind_eq_ok.mpr ⟨_, hlink, rfl⟩⟩⟩
  · exact ⟨(link.shortCode, link.reread engine), bind_eq_ok.mpr ⟨link.shortCode, ShortCode.parse_val _,
      bind_eq_ok.mpr ⟨_, hlink, rfl⟩⟩⟩

/-- A row that is read under some key is read. -/
theorem mapM_toDomain {K : Type} {f : LinkModel → Except DomainError (K × LinkEntity libs)}
    (hf : ∀ m r, f m = .ok r → m.toDomain engine libs = .ok r.2) {row : Option LinkModel}
    {r : Option (K × LinkEntity libs)} (h : row.mapM f = .ok r) :
    row.mapM (·.toDomain engine libs) = .ok (r.map (·.2)) := by
  cases row with
  | none =>
    cases h
    rfl
  | some m =>
    change some <$> f m = .ok r at h
    show some <$> m.toDomain engine libs = _
    cases hm : f m with
    | error e =>
      rw [hm] at h
      cases h
    | ok x =>
      rw [hm] at h
      cases h
      rw [hf m x hm]
      rfl

theorem mem_rows_of_live (hm : m ∈ table.liveInScope scope now) : m ∈ table.rows := (mem_liveInScope_iff.mp hm).1

/-- **The bulk lookup answers for each hash what the single one does.** -/
theorem lookup_findLiveByHashes (table : LinkTable engine libs) (scope : Scope) (now : Instant) (hs : List UrlHash) :
    ∃ found, table.findLiveByHashes scope now hs = .ok found ∧
      ∀ h ∈ hs, ∃ answer, table.findLiveByHash scope now h = .ok answer ∧ Dictionary.lookup found h = some answer := by
  set live := (table.liveInScope scope now).filter fun m => decide (m.urlHash ∈ hs.map (·.val)) with hlive
  have hrows : ∀ m ∈ live, m ∈ table.rows := fun m hm => mem_rows_of_live (List.mem_filter.mp hm).1
  obtain ⟨found, hfound⟩ : ∃ found, (Query.orderBy LinkModel.NotAfter live).mapM (underHash engine libs) = .ok found := by
    apply mapM_total
    intro m hm
    exact (reads (hrows m ((List.mem_insertionSort _).mp hm))).1
  refine ⟨_, bind_eq_ok.mpr ⟨found, hfound, rfl⟩, ?_⟩
  intro h hh
  -- The first row of the hash among all that were selected is the first of those selected for it alone.
  have hpart : (table.liveInScope scope now).filter (fun m => decide (m.urlHash = h.val)) =
      live.filter fun m => decide (m.urlHash = h.val) := by
    rw [hlive, List.filter_filter]
    apply List.filter_congr
    intro m _
    by_cases he : m.urlHash = h.val
    · simp only [he, decide_true, Bool.true_and]
      exact (decide_eq_true (List.mem_map_of_mem hh)).symm
    · simp [he]
  have hread : (Query.first LinkModel.NotAfter ((table.liveInScope scope now).filter fun m => decide (m.urlHash = h.val))).mapM
      (underHash engine libs) = .ok (found.find? fun r => decide (r.1 = h)) := by
    rw [hpart, Query.first_filter (notAfter_antisymm hrows)]
    apply mapM_find? hfound
    intro m r hr
    rw [← (underHash_spec hr).1]
    simp [Subtype.ext_iff]
  refine ⟨_, mapM_toDomain (fun m r hr => (underHash_spec hr).2) hread, ?_⟩
  rw [Query.lookup_complete hh, Query.lookup_firstOf, Dictionary.lookup_empty]
  cases found.find? fun r => decide (r.1 = h) with
  | none => rfl
  | some r => rfl

/-- A row that a URL with the given hash deduplicates against. -/
def Offers (table : LinkTable engine libs) (scope : Scope) (now : Instant) (h : UrlHash) (m : LinkModel) : Prop :=
  m ∈ table.liveInScope scope now ∧ m.urlHash = h.val

/-- The link of the oldest such row, or nothing where there is no such row. -/
def Oldest (table : LinkTable engine libs) (scope : Scope) (now : Instant) (h : UrlHash) :
    Option (LinkEntity libs) → Prop
  | none => ∀ m, ¬ table.Offers scope now h m
  | some link => ∃ m, table.Offers scope now h m ∧ m.toDomain engine libs = .ok link ∧
      ∀ m', table.Offers scope now h m' → m.NotAfter m'

/-- The single lookup finds the oldest such row. -/
theorem findLiveByHash_oldest {h : UrlHash} {answer : Option (LinkEntity libs)}
    (ha : table.findLiveByHash scope now h = .ok answer) : table.Oldest scope now h answer := by
  have hmem : ∀ m, m ∈ (table.liveInScope scope now).filter (fun m => decide (m.urlHash = h.val)) ↔
      table.Offers scope now h m := by
    intro m
    rw [List.mem_filter, decide_eq_true_iff]
    exact Iff.rfl
  unfold findLiveByHash at ha
  cases hf : Query.first LinkModel.NotAfter
      ((table.liveInScope scope now).filter fun m => decide (m.urlHash = h.val)) with
  | none =>
    rw [hf] at ha
    cases ha
    intro m hm
    have hin := (hmem m).mpr hm
    rw [Query.first_eq_none.mp hf] at hin
    cases hin
  | some m =>
    rw [hf] at ha
    change some <$> m.toDomain engine libs = .ok answer at ha
    cases hm : m.toDomain engine libs with
    | error e =>
      rw [hm] at ha
      cases ha
    | ok link =>
      rw [hm] at ha
      cases ha
      refine ⟨m, (hmem m).mp (Query.mem_of_first hf), hm, ?_⟩
      intro m' hm'
      exact Query.first_least hf m' ((hmem m').mpr hm')

/-! ## Cached links -/

/-- **The bulk lookup by codes answers for each code what the single one does.** -/
theorem lookup_findByCodes (table : LinkTable engine libs) (cs : List ShortCode) :
    ∃ found, table.findByCodes cs = .ok found ∧
      ∀ c ∈ cs, ∃ answer, table.findByCode c = .ok answer ∧ Dictionary.lookup found c = some answer := by
  set named := table.rows.filter fun m => decide (m.shortCode ∈ cs.map (·.val)) with hnamed
  obtain ⟨found, hfound⟩ : ∃ found, named.mapM (underCode engine libs) = .ok found := by
    apply mapM_total
    intro m hm
    exact (reads (List.mem_filter.mp hm).1).2
  refine ⟨_, bind_eq_ok.mpr ⟨found, hfound, rfl⟩, ?_⟩
  intro c hc
  have hpart : (table.rows.find? fun m => decide (m.shortCode = c.val)) =
      named.find? fun m => decide (m.shortCode = c.val) := by
    rw [hnamed, List.find?_filter]
    congr 1
    funext m
    by_cases he : m.shortCode = c.val
    · have hin : c.val ∈ cs.map (·.val) := List.mem_map_of_mem hc
      simp only [he, hin, decide_true, and_self]
    · simp [he]
  have hread : (table.rows.find? fun m => decide (m.shortCode = c.val)).mapM (underCode engine libs) =
      .ok (found.find? fun r => decide (r.1 = c)) := by
    rw [hpart]
    apply mapM_find? hfound
    intro m r hr
    rw [← (underCode_spec hr).1]
    simp [Subtype.ext_iff]
  -- The unique index: no code is read twice.
  have hcodes : (found.map (·.1)).Nodup := by
    have hvals : found.map (fun r => r.1.val) = named.map (·.shortCode) :=
      mapM_ok_map hfound fun m r hr => (underCode_spec hr).1
    have hn : (found.map fun r => r.1.val).Nodup := by
      rw [hvals]
      exact table.codes.sublist (List.filter_sublist.map _)
    rw [show (fun r : ShortCode × LinkEntity libs => r.1.val) = Subtype.val ∘ Prod.fst from rfl, ← List.map_map] at hn
    exact hn.of_map
  refine ⟨_, mapM_toDomain (fun m r hr => (underCode_spec hr).2) hread, ?_⟩
  rw [Query.lookup_complete hc, Dictionary.lookup_foldl_set hcodes, Dictionary.lookup_empty]
  cases found.find? fun r => decide (r.1 = c) with
  | none => rfl
  | some r => rfl

/-- The single check keeps what the table has under the code when it backs the claim. -/
theorem confirmOne_eq {h : UrlHash} {cached : LinkEntity libs} {answer : Option (LinkEntity libs)}
    (ha : table.findByCode cached.shortCode = .ok answer) :
    table.confirmOne scope now h cached = .ok (answer.filter (backs scope now h)) := by
  refine bind_eq_ok.mpr ⟨answer, ha, ?_⟩
  cases answer with
  | none => rfl
  | some stored =>
    rw [Option.filter_some]
    by_cases hhash : stored.urlHash = h
    · by_cases hscope : stored.dedupScope = scope
      · cases hexpired : stored.isExpired now with
        | true => simp [backs, hhash, hscope, hexpired, pure, Except.pure]
        | false => simp [backs, hhash, hscope, hexpired, pure, Except.pure]
      · simp [backs, hhash, hscope, pure, Except.pure]
    · simp [backs, hhash, pure, Except.pure]

/-! ### In bulk -/

theorem lookup_foldl_confirmStep {stored : Dictionary ShortCode (Option (LinkEntity libs))}
    {candidates : List (UrlHash × LinkEntity libs)} (hn : (candidates.map (·.1)).Nodup)
    (acc : Dictionary UrlHash (LinkEntity libs) × List (LinkEntity libs)) (h : UrlHash) :
    Dictionary.lookup (candidates.foldl (confirmStep scope now stored) acc).1 h =
      ((candidates.find? fun r => decide (r.1 = h)).bind fun r =>
        (Dictionary.lookup stored r.2.shortCode).join.filter (backs scope now h)).or (Dictionary.lookup acc.1 h) := by
  induction candidates generalizing acc with
  | nil => rfl
  | cons r candidates ih =>
    obtain ⟨hr, hn⟩ := List.nodup_cons.mp hn
    rw [List.foldl_cons, ih hn, List.find?_cons]
    by_cases hk : r.1 = h
    · have hnone : candidates.find? (fun r => decide (r.1 = h)) = none := by
        rw [List.find?_eq_none]
        intro r' hr' hkey
        exact hr (List.mem_map.mpr ⟨r', hr', (of_decide_eq_true hkey).trans hk.symm⟩)
      rw [hnone]
      simp only [hk, decide_true, confirmStep, Option.bind_none, Option.none_or, Option.bind_some]
      cases (Dictionary.lookup stored r.2.shortCode).join.filter (backs scope now h) with
      | none => rfl
      | some link => simp
    · have hother : Dictionary.lookup (confirmStep scope now stored acc r).1 h = Dictionary.lookup acc.1 h := by
        unfold confirmStep
        split
        · rw [Dictionary.lookup_set, if_neg hk]
        · rfl
      simp only [hk, decide_false, hother]

/-- What is kept of a cached link is what the single check answers; nothing is kept where nothing was cached. -/
def Kept (table : LinkTable engine libs) (scope : Scope) (now : Instant) (h : UrlHash)
    (cached kept : Option (LinkEntity libs)) : Prop :=
  (cached = none → kept = none) ∧ ∀ link, cached = some link → table.confirmOne scope now h link = .ok kept

/-- **The bulk check keeps of each cached link what the single one does.** -/
theorem lookup_confirmAll (table : LinkTable engine libs) (scope : Scope) (now : Instant)
    (cached : Dictionary UrlHash (Option (LinkEntity libs))) :
    ∃ confirmed, table.confirmAll scope now cached = .ok confirmed ∧ ∀ h,
      table.Kept scope now h (Dictionary.lookup cached h).join (Dictionary.lookup confirmed.1 h) := by
  obtain ⟨stored, hstored, hcodes⟩ :=
    lookup_findByCodes table ((Dictionary.present cached).rows.map (·.2.shortCode))
  by_cases hempty : (Dictionary.present cached).rows.isEmpty = true
  · refine ⟨(Rows.empty, []), if_pos hempty, ?_⟩
    intro h
    have hnone : Dictionary.lookup (Dictionary.present cached) h = none := by
      rw [Dictionary.lookup, Rows.get, List.isEmpty_iff.mp hempty]
      rfl
    rw [← Dictionary.lookup_present, hnone]
    refine ⟨fun _ => rfl, ?_⟩
    intro link hlink
    cases hlink
  · refine ⟨_, (if_neg hempty).trans (bind_eq_ok.mpr ⟨stored, hstored, rfl⟩), ?_⟩
    intro h
    rw [lookup_foldl_confirmStep (Dictionary.present cached).nodup, Dictionary.lookup_empty, Option.or_none,
      ← Dictionary.lookup_present]
    cases hfind : (Dictionary.present cached).get h with
    | none =>
      have hnone : Dictionary.lookup (Dictionary.present cached) h = none := by
        rw [Dictionary.lookup, hfind]
        rfl
      rw [hnone]
      constructor
      · intro _
        show (Option.bind ((Dictionary.present cached).get h) _) = none
        rw [hfind]
        rfl
      · intro link hlink
        cases hlink
    | some r =>
      have hsome : Dictionary.lookup (Dictionary.present cached) h = some r.2 := by
        rw [Dictionary.lookup, hfind]
        rfl
      obtain ⟨answer, hanswer, hlookup⟩ :=
        hcodes r.2.shortCode (List.mem_map.mpr ⟨r, (Rows.get_eq_some.mp hfind).1, rfl⟩)
      rw [hsome]
      constructor
      · intro hlink
        cases hlink
      · intro link hlink
        cases hlink
        show table.confirmOne scope now h r.2 = .ok (Option.bind ((Dictionary.present cached).get h) _)
        rw [hfind, confirmOne_eq hanswer, Option.bind_some, hlookup]
        rfl

/-- A single creation looks further only where nothing was confirmed. -/
theorem lookUp_eq {cached kept : Option (LinkEntity libs)} {h : UrlHash} (hkept : table.Kept scope now h cached kept) :
    (∀ link, kept = some link → table.lookUp scope now cached h = .ok (some link)) ∧
      (kept = none → table.lookUp scope now cached h = table.findLiveByHash scope now h) := by
  unfold lookUp
  cases cached with
  | none =>
    have hnone := hkept.1 rfl
    subst hnone
    constructor
    · intro link hlink
      cases hlink
    · intro _
      rfl
  | some link =>
    simp only [hkept.2 link rfl]
    constructor
    · rintro stored rfl
      rfl
    · rintro rfl
      rfl

/-- **A batch finds for each URL what a single creation finds.** -/
theorem lookUpAll_eq (table : LinkTable engine libs) (scope : Scope) (now : Instant)
    (cached : Dictionary UrlHash (Option (LinkEntity libs))) (hs : List UrlHash) :
    ∃ answers, table.lookUpAll scope now cached hs = .ok answers ∧ answers.map (·.1) = hs ∧
      ∀ r ∈ answers, table.lookUp scope now (Dictionary.lookup cached r.1).join r.1 = .ok r.2 := by
  obtain ⟨⟨confirmed, dropped⟩, hconfirmed, hkept⟩ := lookup_confirmAll table scope now cached
  set missing := hs.filter fun h => (Dictionary.lookup confirmed h).isNone with hmissing
  obtain ⟨found, hfound, hlive⟩ := lookup_findLiveByHashes table scope now missing
  by_cases hempty : missing.isEmpty = true
  · refine ⟨_, bind_eq_ok.mpr ⟨_, hconfirmed, if_pos hempty⟩, by simp [Function.comp_def], ?_⟩
    intro r hr
    obtain ⟨h, hh, rfl⟩ := List.mem_map.mp hr
    have hsome : ¬ (Dictionary.lookup confirmed h).isNone = true := by
      intro hnone
      have hin : h ∈ missing := List.mem_filter.mpr ⟨hh, hnone⟩
      rw [List.isEmpty_iff.mp hempty] at hin
      cases hin
    cases hc : Dictionary.lookup confirmed h with
    | none => exact absurd (Option.isNone_iff_eq_none.mpr hc) hsome
    | some link => exact (lookUp_eq (hkept h)).1 link hc
  · refine ⟨_, bind_eq_ok.mpr ⟨_, hconfirmed, (if_neg hempty).trans (bind_eq_ok.mpr ⟨found, hfound, rfl⟩)⟩,
      by simp [Function.comp_def], ?_⟩
    intro r hr
    obtain ⟨h, hh, rfl⟩ := List.mem_map.mp hr
    cases hc : Dictionary.lookup confirmed h with
    | some link => exact (lookUp_eq (hkept h)).1 link hc
    | none =>
      obtain ⟨answer, hanswer, hlookup⟩ := hlive h (List.mem_filter.mpr ⟨hh, Option.isNone_iff_eq_none.mpr hc⟩)
      rw [(lookUp_eq (hkept h)).2 hc, hlookup]
      exact hanswer

/-- **The three writings of "live in scope" agree.** On every table, at every instant and for every scope: the query
selects the rows whose entities are in the scope and not expired; the bulk lookup gives every hash what the single
lookup gives it, which is the oldest such link or none; the bulk check of cached links keeps what the single check
keeps; and a batch so finds for each hash what a single creation finds. -/
theorem live_in_scope_agrees (table : LinkTable engine libs) (scope : Scope) (now : Instant) (hs : List UrlHash)
    (cached : Dictionary UrlHash (Option (LinkEntity libs))) :
    (∀ m, m ∈ table.liveInScope scope now ↔ m ∈ table.rows ∧
      ∃ link, m.toDomain engine libs = .ok link ∧ link.dedupScope = scope ∧ link.isExpired now = false) ∧
    (∃ found, table.findLiveByHashes scope now hs = .ok found ∧ ∀ h ∈ hs, ∃ answer,
      table.findLiveByHash scope now h = .ok answer ∧ Dictionary.lookup found h = some answer ∧
        table.Oldest scope now h answer) ∧
    (∃ confirmed, table.confirmAll scope now cached = .ok confirmed ∧ ∀ h,
      table.Kept scope now h (Dictionary.lookup cached h).join (Dictionary.lookup confirmed.1 h)) ∧
    ∃ answers, table.lookUpAll scope now cached hs = .ok answers ∧ answers.map (·.1) = hs ∧
      ∀ r ∈ answers, table.lookUp scope now (Dictionary.lookup cached r.1).join r.1 = .ok r.2 := by
  refine ⟨?_, ?_, lookup_confirmAll table scope now cached, lookUpAll_eq table scope now cached hs⟩
  · intro m
    constructor
    · intro hm
      obtain ⟨link, rfl⟩ := table.written m (mem_rows_of_live hm)
      obtain ⟨hscope, hexpired⟩ := (mem_liveInScope link (mem_rows_of_live hm)).mp hm
      exact ⟨mem_rows_of_live hm, link.reread engine, toDomain_toModel engine link, hscope, hexpired⟩
    · rintro ⟨hm, link', hlink, hscope, hexpired⟩
      obtain ⟨link, rfl⟩ := table.written m hm
      rw [toDomain_toModel] at hlink
      cases hlink
      exact (mem_liveInScope link hm).mpr ⟨hscope, hexpired⟩
  · obtain ⟨found, hfound, hall⟩ := lookup_findLiveByHashes table scope now hs
    refine ⟨found, hfound, ?_⟩
    intro h hh
    obtain ⟨answer, hanswer, hlookup⟩ := hall h hh
    exact ⟨answer, hanswer, hlookup, findLiveByHash_oldest hanswer⟩

end Bulk

end LinkTable

/-! ## The repository that names owners by numbers -/

section Numbers

variable (spell : Uuid → String)

/-- The row of a link, with its identifiers spelled out. -/
def Link.row (link : Link) : LinkModel where
  id := spell link.id
  urlHash := link.urlHash
  shortCode := link.shortCode.val
  originalUrl := link.originalUrl
  createdAt := link.createdAt
  clicks := link.clicks
  lastAccessed := link.lastAccessed
  ownerId := link.owner.map spell
  expiresAt := link.expiresAt
  guestIdentifier := link.guestIdentifier

def DedupScope.spelled : DedupScope → Scope
  | .owner id => .forOwner (spell id)
  | .guest identifier => .forGuest identifier

/-- The first of a link and the oldest of those after it. -/
def Link.olderOf (link : Link) : Option Link → Link
  | none => link
  | some other => if other.older link then other else link

theorem Link.foldl_keepOlder_some (links : List Link) (first : Link) :
    links.foldl Link.keepOlder (some first) = some (first.olderOf (Link.oldest links)) := by
  induction links generalizing first with
  | nil => rfl
  | cons x xs ih =>
    have hxs : Link.oldest (x :: xs) = some (x.olderOf (Link.oldest xs)) := ih x
    rw [hxs, List.foldl_cons]
    by_cases hx : x.older first = true
    · have hkeep : Link.keepOlder (some first) x = some x := if_pos hx
      rw [hkeep, ih]
      cases Link.oldest xs with
      | none => simp only [olderOf, hx, if_true]
      | some y =>
        by_cases hy : y.older x = true
        · have hyf : y.older first = true := by
            by_contra hyf
            exact Link.older_trans hyf (Link.older_asymm hy) hx
          simp only [olderOf, hy, hyf, if_true]
        · simp only [olderOf, hy, hx, if_true, if_false, Bool.false_eq_true]
    · have hkeep : Link.keepOlder (some first) x = some first := if_neg hx
      rw [hkeep, ih]
      cases Link.oldest xs with
      | none => simp only [olderOf, hx, if_false, Bool.false_eq_true]
      | some y =>
        by_cases hy : y.older x = true
        · simp only [olderOf, hy, if_true]
        · have hyf : ¬ y.older first = true := Link.older_trans hx hy
          simp only [olderOf, hy, hx, hyf, if_false, Bool.false_eq_true]

/-- The fold over the rows finds what sorting them does. -/
theorem Link.oldest_eq_first (links : List Link) :
    Link.oldest links = Query.first (fun a b => ¬ b.older a = true) links := by
  unfold Query.first Query.orderBy
  induction links with
  | nil => rfl
  | cons x xs ih =>
    have hfold : Link.oldest (x :: xs) = some (x.olderOf (Link.oldest xs)) := Link.foldl_keepOlder_some xs x
    rw [hfold, ih, List.insertionSort_cons]
    cases List.insertionSort (fun a b : Link => ¬ b.older a = true) xs with
    | nil => rfl
    | cons y ys =>
      rw [List.orderedInsert_cons]
      by_cases hy : y.older x = true
      · simp [olderOf, hy]
      · simp [olderOf, hy]

variable {spell}

theorem Link.notAfter_row (hspell : StrictMono spell) (a b : Link) :
    ¬ b.older a = true ↔ (a.row spell).NotAfter (b.row spell) := by
  have hid : spell a.id ≤ spell b.id ↔ a.id ≤ b.id := hspell.le_iff_le
  simp only [Link.older, decide_eq_true_eq, LinkModel.NotAfter, Link.row, hid]
  constructor
  · intro h
    rcases lt_trichotomy a.createdAt b.createdAt with ht | ht | ht
    · exact .inl ht
    · exact .inr ⟨ht, not_lt.mp fun hlt => h (.inr ⟨ht.symm, hlt⟩)⟩
    · exact absurd (.inl ht) h
  · rintro (ht | ⟨ht, hle⟩) (ht' | ⟨ht', hlt⟩)
    · exact lt_irrefl _ (lt_trans ht ht')
    · exact lt_irrefl _ (ht' ▸ ht)
    · exact lt_irrefl _ (ht ▸ ht')
    · exact lt_irrefl _ (lt_of_lt_of_le hlt hle)

theorem Link.live_row (hspell : StrictMono spell) (scope : DedupScope) (now : Instant) (hash : String) (link : Link) :
    (decide ((link.row spell).urlHash = hash) && decide ((link.row spell).Live (scope.spelled spell) now)) =
      link.liveIn hash scope now := by
  have hexpired : (∀ t ∈ link.expiresAt, now < t) ↔ link.isExpired now = false := by
    unfold Link.isExpired
    cases link.expiresAt with
    | none => simp
    | some t => simp
  have hscope : link.owner.map spell = (scope.spelled spell).ownerId ∧
      ((scope.spelled spell).ownerId = none → link.guestIdentifier = (scope.spelled spell).guestIdentifier) ↔
        link.dedupScope = scope := by
    unfold Link.dedupScope DedupScope.spelled Scope.forOwner Scope.forGuest Scope.make
    cases link.owner with
    | none => cases scope <;> simp
    | some owner =>
      cases scope with
      | owner id => simp [hspell.injective.eq_iff]
      | guest identifier => simp
  rw [Bool.eq_iff_iff]
  simp only [Link.liveIn, Bool.and_eq_true, decide_eq_true_eq, Bool.not_eq_true']
  simp only [LinkModel.Live, Link.row, hexpired, hscope]
  tauto

/-- **The repository of the use cases runs this query**: whatever monotone spelling the identifiers have, the oldest live
link it finds is the first row of the statement. -/
theorem firstLive_row (hspell : StrictMono spell) (rows : List Link) (hash : String) (scope : DedupScope)
    (now : Instant) :
    Query.first LinkModel.NotAfter ((LinkTable.liveRows (rows.map (Link.row spell)) (scope.spelled spell) now).filter
      fun m => decide (m.urlHash = hash)) = (Link.firstLive rows hash scope now).map (Link.row spell) := by
  have hselect : (LinkTable.liveRows (rows.map (Link.row spell)) (scope.spelled spell) now).filter
      (fun m => decide (m.urlHash = hash)) = (rows.filter (Link.liveIn hash scope now)).map (Link.row spell) := by
    rw [LinkTable.liveRows_eq, List.filter_filter, List.filter_map]
    congr 1
    apply List.filter_congr
    intro link _
    exact Link.live_row hspell scope now hash link
  rw [hselect, Link.firstLive, Link.oldest_eq_first]
  unfold Query.first Query.orderBy
  rw [← List.map_insertionSort (fun a b : Link => ¬ b.older a = true), List.head?_map]
  intro a _ b _
  exact Link.notAfter_row hspell a b

end Numbers

end LinkShortener
