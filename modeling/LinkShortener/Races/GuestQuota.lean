import LinkShortener.Races.Writes

/-!
# The guest quota under any interleaving

* `guestLinks`: the committed links of a guest inside the window.
* `Room`: a creation that has counted holds the lock of its guest until it ends, and what it is going to add still fits
  into the limit. While it holds the lock nobody else adds links of the guest, so that the count it has made stays an
  upper bound; deletions and the clock only make room.
* `Fine`: the room each point of a creation has, kept by every step (`step_fine`).
* `guest_quota_holds`: after every step the number of links is at most the limit, or what it was at the start.
-/

namespace LinkShortener.Races

open ReadCommitted Transactions Links Runs

/-! ## Counting -/

section Counting

variable {T : Type} (s : System T) (sinceDays : Int) (guestId : String)

/-- The row of a code counts for the guest. -/
def countsNow (c : ShortCode) : Bool :=
  (s.state.store.committed c).any fun row => row.val.countsFor guestId (Link.windowStart s.now sinceDays)

/-- The committed links without owner that the guest has created inside the window. -/
def guestLinks : Nat := (s.state.store.keys.filter (countsNow s sinceDays guestId)).length

variable {s sinceDays guestId}

/-- Whatever counts after a step counted before, or is one of `extra`. -/
theorem guestLinks_le {s' : System T} {extra : List ShortCode}
    (h : ∀ c, countsNow s' sinceDays guestId c = true → countsNow s sinceDays guestId c = true ∨ c ∈ extra) :
    guestLinks s' sinceDays guestId ≤ guestLinks s sinceDays guestId + extra.length := by
  have hsub : s'.state.store.keys.filter (countsNow s' sinceDays guestId) ⊆
      s.state.store.keys.filter (countsNow s sinceDays guestId) ++ extra := by
    intro c hc
    rcases h c (List.mem_filter.mp hc).2 with hold | hextra
    · have hrow := hold
      unfold countsNow at hrow
      rw [Option.any_eq_true] at hrow
      obtain ⟨row, hrow, -⟩ := hrow
      exact List.mem_append_left _ (List.mem_filter.mpr ⟨Store.mem_keys_of_committed hrow, hold⟩)
    · exact List.mem_append_right _ hextra
  have hnodup := s'.state.store.nodup.filter (countsNow s' sinceDays guestId)
  have hlength := hnodup.length_le_of_subset hsub
  rw [List.length_append] at hlength
  exact hlength

theorem guestLinks_mono {s' : System T}
    (h : ∀ c, countsNow s' sinceDays guestId c = true → countsNow s sinceDays guestId c = true) :
    guestLinks s' sinceDays guestId ≤ guestLinks s sinceDays guestId := by
  have hle : guestLinks s' sinceDays guestId ≤ guestLinks s sinceDays guestId + ([] : List ShortCode).length :=
    guestLinks_le fun c hc => .inl (h c hc)
  exact hle

/-- The clock only takes links out of the window. -/
theorem guestLinks_tick {s' : System T} (hstate : s'.state = s.state) (hnow : s.now ≤ s'.now) :
    guestLinks s' sinceDays guestId ≤ guestLinks s sinceDays guestId := by
  refine guestLinks_mono fun c hc => ?_
  unfold countsNow at hc ⊢
  rw [hstate, Option.any_eq_true] at hc
  obtain ⟨row, hrow, hcounts⟩ := hc
  rw [hrow, Option.any_some]
  unfold Link.countsFor Link.windowStart at hcounts ⊢
  rw [decide_eq_true_iff] at hcounts ⊢
  obtain ⟨howner, hguest, hwindow⟩ := hcounts
  exact ⟨howner, hguest, (Int.sub_le_sub_right hnow _).trans hwindow⟩

end Counting

section Steps

variable {T : Type} [DecidableEq T] {svc : LinkServices} {lockKey : String → Int} {s s' : System T} {t t' : T}

/-- What an operation counts is what is committed, when it has written nothing. -/
theorem countGuestLinks_eq (hq : Quiet (s.state.procs t)) (hw : Written Wrote s.state) (guestId : String)
    (sinceDays : Int) : (seenBy s t).countGuestLinksByIdentifier guestId sinceDays = guestLinks s sinceDays guestId := by
  have hrows : ∀ (p : Link → Bool) (keys : List ShortCode),
      ((keys.filterMap fun c => (s.state.store.view t c).map Subtype.val).filter p).length =
        (keys.filter fun c => (s.state.store.committed c).any fun row => p row.val).length := by
    intro p keys
    induction keys with
    | nil => rfl
    | cons c keys ih =>
      rw [List.filterMap_cons, List.filter_cons, hq.view hw c]
      cases s.state.store.committed c with
      | none => simpa using ih
      | some row =>
        simp only [Option.map_some, List.filter_cons, Option.any_some]
        split <;> simpa using ih
  exact hrows _ _

/-- A commit publishes no links of the guest but those the operation added. -/
theorem guestLinks_act {a : Act} (hw : Written Wrote s.state) (hact : act s.state t a = some s'.state)
    (hnow : s'.now = s.now) (sinceDays : Int) (guestId : String) :
    guestLinks s' sinceDays guestId ≤ guestLinks s sinceDays guestId +
      ((adding (s.state.procs t)).filter fun l => decide (l.guestIdentifier = some guestId)).length := by
  rw [← List.length_map (f := Link.shortCode)]
  apply guestLinks_le
  intro c hc
  unfold countsNow at hc ⊢
  rw [hnow, Option.any_eq_true] at hc
  obtain ⟨row, hrow, hcounts⟩ := hc
  rcases act_committed_cases hact with hsame | hcommit
  · rw [hsame] at hrow
    rw [hrow]
    exact .inl hcounts
  · rw [hcommit] at hrow
    rcases hw.committed t c with hwrote | hsame
    · rw [hrow] at hwrote
      rcases hwrote with ⟨-, old, now, hold, hnew⟩ | ⟨hno, -⟩ | ⟨-, new, hnew, hadd⟩
      · rw [hold]
        cases hnew
        exact .inl hcounts
      · cases hno
      · cases hnew
        unfold Link.countsFor at hcounts
        rw [decide_eq_true_iff] at hcounts
        refine .inr (List.mem_map.mpr ⟨row.val, ?_, row.property⟩)
        rw [List.mem_filter, decide_eq_true_iff]
        exact ⟨hadd, hcounts.2.1⟩
    · rw [hsame] at hrow
      rw [hrow]
      exact .inl hcounts

/-! ## Room -/

/-- A creation of `n` links: when it is a guest's, the guest's lock is held and the links fit into the limit. -/
def Room (svc : LinkServices) (lockKey : String → Int) (s : System T) (t : T) (guestId : Option String) (n : Nat) :
    Prop :=
  ∀ g, guestId = some g → s.state.locks (lockKey g) = some t ∧
    (n = 0 ∨ (guestLinks s svc.guestLinkWindowDays g + n : Int) ≤ svc.guestLinkLimit)

/-- The room a creation has at the point it has reached, and whose links it adds. -/
def Fine (svc : LinkServices) (lockKey : String → Int) (s : System T) (t : T) : Pc → Prop
  | .create j (.lock g) => j.q.guestId = some g
  | .create j (.count g) => j.q.guestId = some g ∧ s.state.locks (lockKey g) = some t
  | .create j (.pick _) | .create j (.build _) => Room svc lockKey s t j.q.guestId 1
  | .create j (.insert link) | .create j (.commit link) =>
    Room svc lockKey s t j.q.guestId 1 ∧ link.guestIdentifier = j.q.guestId
  | .batch j (.lock g _) => j.q.guestId = some g
  | .batch j (.count g _) => j.q.guestId = some g ∧ s.state.locks (lockKey g) = some t
  | .batch j (.resolve groups _) => Room svc lockKey s t j.q.guestId groups.length
  | .batch j (.build planned links) =>
    Room svc lockKey s t j.q.guestId (planned.length + links.length) ∧ ∀ l ∈ links, l.guestIdentifier = j.q.guestId
  | .batch j (.insert done links) =>
    Room svc lockKey s t j.q.guestId (done.length + links.length) ∧
      ∀ l ∈ done ++ links, l.guestIdentifier = j.q.guestId
  | _ => True

omit [DecidableEq T] in
theorem Room.mono {guestId : Option String} {n n' : Nat} (h : Room svc lockKey s t guestId n) (hn : n' ≤ n) :
    Room svc lockKey s t guestId n' := by
  intro g hg
  obtain ⟨hlock, hroom⟩ := h g hg
  exact ⟨hlock, by omega⟩

omit [DecidableEq T] in
/-- Nobody's quota applies. -/
theorem Room.of_none (n : Nat) : Room svc lockKey s t none n := by
  intro g hg
  cases hg

omit [DecidableEq T] in
/-- The room stays while the lock is held and no links of the guest are added. -/
theorem Room.keep {guestId : Option String} {n : Nat}
    (hlocks : ∀ l, s.state.locks l = some t → s'.state.locks l = some t)
    (hcount : ∀ g, s.state.locks (lockKey g) = some t →
      guestLinks s' svc.guestLinkWindowDays g ≤ guestLinks s svc.guestLinkWindowDays g)
    (h : Room svc lockKey s t guestId n) : Room svc lockKey s' t guestId n := by
  intro g hg
  obtain ⟨hlock, hroom⟩ := h g hg
  have hle := hcount g hlock
  exact ⟨hlocks _ hlock, by omega⟩

omit [DecidableEq T] in
theorem Fine.keep {p : Pc} (hlocks : ∀ l, s.state.locks l = some t → s'.state.locks l = some t)
    (hcount : ∀ g, s.state.locks (lockKey g) = some t →
      guestLinks s' svc.guestLinkWindowDays g ≤ guestLinks s svc.guestLinkWindowDays g)
    (h : Fine svc lockKey s t p) : Fine svc lockKey s' t p := by
  have hroom : ∀ {guestId n}, Room svc lockKey s t guestId n → Room svc lockKey s' t guestId n :=
    Room.keep hlocks hcount
  cases p with
  | create j p =>
    cases p with
    | lock g => exact h
    | count g => exact ⟨h.1, hlocks _ h.2⟩
    | pick codes => exact hroom h
    | build code => exact hroom h
    | insert link => exact ⟨hroom h.1, h.2⟩
    | commit link => exact ⟨hroom h.1, h.2⟩
    | _ => trivial
  | batch j p =>
    cases p with
    | lock g groups => exact h
    | count g groups => exact ⟨h.1, hlocks _ h.2⟩
    | resolve groups r => exact hroom h
    | build planned links => exact ⟨hroom h.1, h.2⟩
    | insert done links => exact ⟨hroom h.1, h.2⟩
    | _ => trivial
  | _ => trivial

omit [DecidableEq T] in
/-- The links an operation is adding belong to the guest whose lock it holds, and fit. -/
theorem Fine.adding {p : Pc} (h : Fine svc lockKey s t p) {link : Link} (hl : link ∈ adding p) {g : String}
    (hg : link.guestIdentifier = some g) : s.state.locks (lockKey g) = some t ∧
      (guestLinks s svc.guestLinkWindowDays g + (Races.adding p).length : Int) ≤ svc.guestLinkLimit := by
  cases p with
  | create j p =>
    cases p with
    | commit link' =>
      obtain ⟨hroom, hguest⟩ := h
      cases List.mem_singleton.mp hl
      obtain ⟨hlock, hfit⟩ := hroom g (hguest.symm.trans hg)
      refine ⟨hlock, ?_⟩
      simp only [Races.adding, List.length_singleton]
      omega
    | _ => cases hl
  | batch j p =>
    cases p with
    | insert done links =>
      obtain ⟨hroom, hguest⟩ := h
      obtain ⟨hlock, hfit⟩ := hroom g ((hguest link (List.mem_append_left _ hl)).symm.trans hg)
      refine ⟨hlock, ?_⟩
      have hpos := List.length_pos_of_mem hl
      simp only [Races.adding] at hpos ⊢
      omega
    | _ => cases hl
  | _ => cases hl

/-! ## One step -/

/-- What a step has to show for the process that takes it: room at the point it goes on from, the lock it takes counted
in; a transaction that ends leaves no room behind. -/
def FineAfter (svc : LinkServices) (lockKey : String → Int) (s : System T) (t : T) : Act → Prop
  | .goto p | .write _ _ p | .touch _ p => Fine svc lockKey s t p
  | .lock l p => ∀ s' : System T, s'.state.locks l = some t → Fine svc lockKey s' t p
  | .commit p | .rollback p => ∀ s' : System T, Fine svc lockKey s' t p

theorem fineAfter_insertRow {link : Link} {p : Pc} {conflict a : Act}
    (ha : insertRow (seenBy s t) link p conflict = some a) (hp : Fine svc lockKey s t p)
    (hconflict : FineAfter svc lockKey s t conflict) : FineAfter svc lockKey s t a := by
  unfold insertRow at ha
  split at ha
  · cases ha
    exact hp
  · split at ha
    · cases ha
      exact hconflict
    · cases ha

theorem fine_create {j : Creating} {p : CreatePc} {a : Act} (hw : Written Wrote s.state)
    (hp : s.state.procs t = .create j p) (hf : Fine svc lockKey s t (.create j p))
    (ha : nextCreate svc lockKey (seenBy s t) j p = some a) : FineAfter svc lockKey s t a := by
  cases p with
  | askHash =>
    simp only [nextCreate] at ha
    split at ha <;> cases ha <;> trivial
  | confirm cached =>
    simp only [nextCreate] at ha
    split at ha <;> cases ha <;> trivial
  | dropStale cached => cases ha; trivial
  | search =>
    simp only [nextCreate] at ha
    split at ha
    · cases ha; trivial
    · split at ha
      · rename_i g hg
        cases ha
        exact hg
      · rename_i hnone
        cases ha
        show Room svc lockKey s t j.q.guestId 1
        rw [hnone]
        exact Room.of_none 1
  | fillExisting existing => cases ha; trivial
  | lock g =>
    cases ha
    intro s' hlock
    exact ⟨hf, hlock⟩
  | count g =>
    obtain ⟨hg, hlock⟩ := hf
    have hq : Quiet (s.state.procs t) := by
      rw [hp]
      exact ⟨rfl, rfl, rfl⟩
    simp only [nextCreate, countGuestLinks_eq hq hw] at ha
    split at ha
    · rename_i hleft
      cases ha
      intro g' hg'
      rw [hg] at hg'
      cases hg'
      unfold linksLeftForGuest at hleft
      exact ⟨hlock, .inr (by omega)⟩
    · cases ha
      intro s'
      trivial
  | pick codes =>
    cases codes with
    | nil =>
      cases ha
      intro s'
      trivial
    | cons code codes =>
      simp only [nextCreate] at ha
      split at ha
      · cases ha
        exact hf
      · cases ha
        exact hf
  | build code =>
    simp only [nextCreate] at ha
    split at ha
    · rename_i link hcreate
      cases ha
      exact ⟨hf, (Link.create_ok hcreate).2.2.2⟩
    · cases ha
      intro s'
      trivial
  | insert link =>
    apply fineAfter_insertRow ha hf
    intro s'
    split <;> trivial
  | commit link =>
    cases ha
    intro s'
    trivial
  | fillNew link => cases ha; trivial
  | close =>
    cases ha
    intro s'
    trivial

theorem plan_length_le (draws : Draws) (attempt : Nat) (groups : List UrlGroup) (resolved : List (String × ShortCode)) :
    (plan draws attempt groups resolved).length ≤ groups.length := by
  unfold plan
  refine (List.length_filterMap_le _ _).trans ?_
  rw [List.length_zipIdx]

theorem fine_batch {j : Batching} {p : BatchPc} {a : Act} (hw : Written Wrote s.state)
    (hp : s.state.procs t = .batch j p) (hf : Fine svc lockKey s t (.batch j p))
    (ha : nextBatch svc lockKey (seenBy s t) j p = some a) : FineAfter svc lockKey s t a := by
  cases p with
  | askHashes => cases ha; trivial
  | confirm cached => cases ha; trivial
  | dropStale stale missing =>
    cases stale with
    | nil => cases ha; trivial
    | cons link stale => cases ha; trivial
  | search missing =>
    simp only [nextBatch] at ha
    split at ha
    · rename_i g hg
      cases ha
      exact hg
    · rename_i hnone
      cases ha
      show Room svc lockKey s t j.q.guestId _
      rw [hnone]
      exact Room.of_none _
  | lock g groups =>
    cases ha
    intro s' hlock
    exact ⟨hf, hlock⟩
  | count g groups =>
    obtain ⟨hg, hlock⟩ := hf
    have hq : Quiet (s.state.procs t) := by
      rw [hp]
      exact ⟨rfl, rfl, rfl⟩
    simp only [nextBatch, countGuestLinks_eq hq hw] at ha
    cases ha
    intro g' hg'
    rw [hg] at hg'
    cases hg'
    refine ⟨hlock, ?_⟩
    simp only [withinQuota, List.length_take, linksLeftForGuest]
    omega
  | resolve groups r =>
    simp only [nextBatch] at ha
    split at ha
    · cases ha
      refine ⟨hf.mono ?_, List.forall_mem_nil _⟩
      exact plan_length_le j.draws j.attempt groups r.resolved
    · cases ha
      exact hf
  | build planned links =>
    obtain ⟨hroom, hguest⟩ := hf
    cases planned with
    | nil =>
      cases ha
      refine ⟨hroom, ?_⟩
      rw [List.nil_append]
      exact hguest
    | cons p planned =>
      simp only [nextBatch] at ha
      split at ha
      · rename_i link hcreate
        cases ha
        refine ⟨hroom.mono ?_, ?_⟩
        · simp only [List.length_append, List.length_cons, List.length_nil]
          omega
        · intro l hl
          rcases List.mem_append.mp hl with hl | hl
          · exact hguest l hl
          · cases List.mem_singleton.mp hl
            exact (Link.create_ok hcreate).2.2.2
      · cases ha
        intro s'
        trivial
  | insert done links =>
    obtain ⟨hroom, hguest⟩ := hf
    cases links with
    | nil =>
      cases ha
      intro s'
      trivial
    | cons link links =>
      refine fineAfter_insertRow ha ⟨hroom.mono ?_, ?_⟩ ?_
      · simp only [List.length_cons]
        omega
      · intro l hl
        apply hguest
        simp only [List.mem_append, List.mem_cons] at hl ⊢
        tauto
      · intro s'
        split <;> trivial

/-- The points of the operations that create links. -/
def creates : Pc → Bool
  | .create _ _ | .batch _ _ => true
  | _ => false

theorem creates_answer (c : ShortCode) (enqueued : Bool) : creates (answer c enqueued) = false := by
  cases enqueued <;> rfl

theorem creates_redirect (v : Seen) (c : ShortCode) (enqueued : Bool) (p : RedirectPc c) :
    creates (nextRedirect svc v c enqueued p).point = false := by
  cases p with
  | askRedirect =>
    simp only [nextRedirect]
    split
    · split
      · rfl
      · exact creates_answer c enqueued
    · rfl
  | askCode =>
    simp only [nextRedirect]
    split
    · split <;> rfl
    · rfl
  | warm link => exact creates_answer c enqueued
  | askTable =>
    simp only [nextRedirect]
    split
    · split <;> rfl
    · rfl
  | fill row => exact creates_answer c enqueued

theorem creates_count (v : Seen) (c : ShortCode) (p : CountPc) : creates (nextCount svc v c p).point = false := by
  cases p with
  | update =>
    simp only [nextCount]
    split <;> rfl
  | _ => rfl

theorem creates_delete (v : Seen) (c : ShortCode) (permitted : Link → Bool) (p : DeletePc) :
    creates (nextDelete svc v c permitted p).point = false := by
  cases p with
  | find =>
    simp only [nextDelete]
    split
    · split <;> rfl
    · rfl
  | remove link =>
    simp only [nextDelete]
    split
    · split <;> rfl
    · rfl
  | _ => rfl

theorem creates_sweep (v : Seen) (p : SweepPc) : creates (nextSweep svc v p).point = false := by
  cases p with
  | begin => rfl
  | select now deleted =>
    simp only [nextSweep]
    split <;> rfl
  | remove now chunk deleted =>
    cases chunk with
    | nil => rfl
    | cons link chunk =>
      simp only [nextSweep]
      split
      · split <;> rfl
      · rfl
  | drop deleted => cases deleted <;> rfl

omit [DecidableEq T] in
/-- Operations that create nothing need no room. -/
theorem fineAfter_of_not_creates {a : Act} (h : creates a.point = false) : FineAfter svc lockKey s t a := by
  have hfine : ∀ s' : System T, Fine svc lockKey s' t a.point := by
    intro s'
    cases hp : a.point with
    | create j p =>
      rw [hp] at h
      cases h
    | batch j p =>
      rw [hp] at h
      cases h
    | _ => trivial
  cases a with
  | lock l p => exact fun s' _ => hfine s'
  | commit p => exact hfine
  | rollback p => exact hfine
  | goto p => exact hfine s
  | write c v p => exact hfine s
  | touch m p => exact hfine s

theorem fine_next {a : Act} (hw : Written Wrote s.state) (ha : nextOf svc lockKey s t = some a)
    (hf : Fine svc lockKey s t (s.state.procs t)) : FineAfter svc lockKey s t a := by
  unfold nextOf at ha
  cases hp : s.state.procs t with
  | create j p =>
    rw [hp] at ha hf
    exact fine_create hw hp hf ha
  | batch j p =>
    rw [hp] at ha hf
    exact fine_batch hw hp hf ha
  | idle =>
    rw [hp] at ha
    cases ha
  | redirect c enqueued p =>
    rw [hp] at ha
    cases ha
    exact fineAfter_of_not_creates (creates_redirect _ c enqueued p)
  | count c p =>
    rw [hp] at ha
    cases ha
    exact fineAfter_of_not_creates (creates_count _ c p)
  | info c =>
    rw [hp] at ha
    cases ha
    exact fineAfter_of_not_creates rfl
  | delete c permitted p =>
    rw [hp] at ha
    cases ha
    exact fineAfter_of_not_creates (creates_delete _ c permitted p)
  | sweep p =>
    rw [hp] at ha
    cases ha
    exact fineAfter_of_not_creates (creates_sweep _ p)

/-- An action within the transaction leaves every count alone. -/
theorem guestLinks_within {a : Act} (hact : act s.state t a = some s'.state) (hnow : s'.now = s.now)
    (hends : a.ends = false) (sinceDays : Int) (g : String) :
    guestLinks s' sinceDays g ≤ guestLinks s sinceDays g := by
  have hne : ∀ p, a ≠ .commit p := by
    rintro p rfl
    cases hends
  refine guestLinks_mono fun c hc => ?_
  unfold countsNow at hc ⊢
  rw [act_committed hact hne, hnow] at hc
  exact hc

/-- The process that takes the step keeps its room. -/
theorem fine_self {a : Act} (hact : act s.state t a = some s'.state) (hnow : s'.now = s.now)
    (hafter : FineAfter svc lockKey s t a) : Fine svc lockKey s' t (s'.state.procs t) := by
  have hkeep : a.ends = false → Fine svc lockKey s t a.point → Fine svc lockKey s' t a.point := by
    intro hends
    apply Fine.keep
    · intro l hl
      exact act_locks_self hact hends hl
    · intro g _
      exact guestLinks_within hact hnow hends _ g
  rw [act_procs_self hact]
  cases a with
  | goto p => exact hkeep rfl hafter
  | lock l p => exact hafter s' (act_lock hact)
  | write c v p => exact hkeep rfl hafter
  | touch m p => exact hkeep rfl hafter
  | commit p => exact hafter s'
  | rollback p => exact hafter s'

/-- Nobody adds links of a guest whose lock somebody else holds. -/
theorem fine_other {a : Act} (hw : Written Wrote s.state) (hact : act s.state t a = some s'.state)
    (hnow : s'.now = s.now) (hself : Fine svc lockKey s t (s.state.procs t)) (hne : t' ≠ t)
    (hf : Fine svc lockKey s t' (s.state.procs t')) : Fine svc lockKey s' t' (s'.state.procs t') := by
  rw [act_procs_ne hact hne]
  refine hf.keep ?_ ?_
  · intro l hl
    exact act_locks_ne hact hne hl
  · intro g hlock
    have hle := guestLinks_act hw hact hnow svc.guestLinkWindowDays g
    have hnone : (adding (s.state.procs t)).filter (fun l => decide (l.guestIdentifier = some g)) = [] := by
      rw [List.filter_eq_nil_iff]
      intro link hl
      rw [decide_eq_true_iff]
      intro hg
      have hmine := (hself.adding hl hg).1
      rw [hlock] at hmine
      exact hne (Option.some.inj hmine)
    rw [hnone, List.length_nil, Nat.add_zero] at hle
    exact hle

/-! ## Runs -/

/-- What holds in every state of a run that began with `start g` links of each guest. -/
structure Inv (svc : LinkServices) (lockKey : String → Int) (start : String → Nat) (s : System T) : Prop where
  written : Written Wrote s.state
  fine : ∀ t, Fine svc lockKey s t (s.state.procs t)
  bound : ∀ g, (guestLinks s svc.guestLinkWindowDays g : Int) ≤ max svc.guestLinkLimit (start g)

theorem step_fine {e : Event T} (h : step svc lockKey s e = some s') (hw : Written Wrote s.state)
    (hf : ∀ t, Fine svc lockKey s t (s.state.procs t)) : ∀ t, Fine svc lockKey s' t (s'.state.procs t) := by
  intro t'
  rcases step_cases h with ⟨t, op, -, hact, hnow⟩ | ⟨t, a, -, hnext, hact, hnow⟩ | ⟨hstate, hle⟩
  · by_cases ht : t' = t
    · subst ht
      apply fine_self hact hnow
      cases op <;> trivial
    · exact fine_other hw hact hnow (hf t) ht (hf t')
  · by_cases ht : t' = t
    · subst ht
      exact fine_self hact hnow (fine_next hw hnext (hf t'))
    · exact fine_other hw hact hnow (hf t) ht (hf t')
  · rw [hstate]
    refine (hf t').keep ?_ ?_
    · intro l hl
      rw [hstate]
      exact hl
    · intro g _
      exact guestLinks_tick hstate hle

/-- What a commit adds had room. -/
theorem bound_act {a : Act} {n : Int} (hw : Written Wrote s.state) (hact : act s.state t a = some s'.state)
    (hnow : s'.now = s.now) (hf : Fine svc lockKey s t (s.state.procs t)) (g : String)
    (hbound : (guestLinks s svc.guestLinkWindowDays g : Int) ≤ max svc.guestLinkLimit n) :
    (guestLinks s' svc.guestLinkWindowDays g : Int) ≤ max svc.guestLinkLimit n := by
  have hle := guestLinks_act hw hact hnow svc.guestLinkWindowDays g
  cases hadd : (adding (s.state.procs t)).filter fun l => decide (l.guestIdentifier = some g) with
  | nil =>
    rw [hadd, List.length_nil] at hle
    omega
  | cons link links =>
    have hmem : link ∈ (adding (s.state.procs t)).filter fun l => decide (l.guestIdentifier = some g) := by
      rw [hadd]
      exact List.mem_cons_self
    rw [List.mem_filter, decide_eq_true_iff] at hmem
    have hfit := (hf.adding hmem.1 hmem.2).2
    have hlength := List.length_filter_le (fun l => decide (l.guestIdentifier = some g)) (adding (s.state.procs t))
    omega

theorem step_inv {start : String → Nat} {e : Event T} (h : step svc lockKey s e = some s')
    (hi : Inv svc lockKey start s) : Inv svc lockKey start s' := by
  refine ⟨step_written h hi.written, step_fine h hi.written hi.fine, ?_⟩
  intro g
  rcases step_cases h with ⟨t, op, -, hact, hnow⟩ | ⟨t, a, -, -, hact, hnow⟩ | ⟨hstate, hle⟩
  · exact bound_act hi.written hact hnow (hi.fine t) g (hi.bound g)
  · exact bound_act hi.written hact hnow (hi.fine t) g (hi.bound g)
  · have htick : guestLinks s' svc.guestLinkWindowDays g ≤ guestLinks s svc.guestLinkWindowDays g :=
      guestLinks_tick hstate hle
    have hbound := hi.bound g
    omega

/-- **The guest quota holds under any interleaving.** For every limit and window, after every step of every run of any
number of processes the links of a guest inside the window are at most the limit, or as many as there were at the start
if these were more. -/
theorem guest_quota_holds (svc : LinkServices) (lockKey : String → Int) (start s : System T) (hrest : AtRest start)
    (events : List (Event T)) (h : run (step svc lockKey) start events = some s) (g : String) :
    (guestLinks s svc.guestLinkWindowDays g : Int) ≤
      max svc.guestLinkLimit (guestLinks start svc.guestLinkWindowDays g) := by
  have hstart : Inv svc lockKey (guestLinks start svc.guestLinkWindowDays) start := by
    refine ⟨hrest.written, ?_, ?_⟩
    · intro t
      rw [hrest.idle t]
      trivial
    · intro g
      exact le_max_right _ _
  exact (run_inv (I := Inv svc lockKey (guestLinks start svc.guestLinkWindowDays)) step_inv h hstart).bound g

end Steps

/-! Two creations by one guest who may have one link: the second has searched for its URL before the first has counted,
and is refused. -/

def oneLinkEach : LinkServices := { sampleServices with guestLinkLimit := 1 }

def guestCreation (url : String) : Operation :=
  .createShortLink ⟨url, url, .guest (some "192.0.2.1"), none, some "192.0.2.1", 0, none⟩
    ⟨fun _ => 1, fun _ _ => ⟨"cccccc", isCode_cccccc⟩⟩

def twoCreations : List (Event Bool) :=
  [.start false (guestCreation "https://one.example"), .start true (guestCreation "https://two.example")] ++
    steps false 3 ++ steps true 2 ++ [.tick 1] ++ steps false 6 ++ steps true 2

theorem guest_quota_holds_for_two_creations :
    ∃ s, run (step oneLinkEach fun _ => 0) (System.empty 0) twoCreations = some s ∧
      guestLinks s oneLinkEach.guestLinkWindowDays "192.0.2.1" = 1 ∧
      (guestLinks s oneLinkEach.guestLinkWindowDays "192.0.2.1" : Int) ≤
        max oneLinkEach.guestLinkLimit
          (guestLinks (System.empty 0 : System Bool) oneLinkEach.guestLinkWindowDays "192.0.2.1") := by
  have hrun : (run (step oneLinkEach fun _ => 0) (System.empty 0) twoCreations).map
      (fun s => guestLinks s oneLinkEach.guestLinkWindowDays "192.0.2.1") = some 1 := by
    decide +kernel
  obtain ⟨s, hs, hcount⟩ := Option.map_eq_some_iff.mp hrun
  exact ⟨s, hs, hcount, guest_quota_holds oneLinkEach _ _ s (atRest_empty 0) twoCreations hs "192.0.2.1"⟩

end LinkShortener.Races
