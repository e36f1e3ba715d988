import LinkShortener.Visits.Model

/-!
# The daily chart

The two tables are a book that is folded by the day: visits are its entries, links its accounts, and the days its totals.

* `dailyTotals_eq`: the chart is what the book says.
* `Accounted`: the book is faithful to the visits that were recorded, and the counters count them. Every operation keeps
  it (`step_accounted`), as long as the database numbers the days of the visits (`StampsInItsDay`).
* `daily_chart_shows_what_was_recorded`: folding and sweeping are then invisible, and the chart agrees with the counters.
* `late_stamps_are_counted_a_day_later`: SQLite, and a visit in the last half millisecond of a day.
-/

namespace LinkShortener.Visits

open Links Folding Runs Ledger

/-! ## What the chart reads -/

section Chart

variable {dialect : Dialect} {t : Tables dialect}

theorem amount_visits (visits : List LinkVisit) (p : Uuid → Bool) (d : Int) : amount (layout dialect).view visits p d =
    counts (visits.filter fun v => p v.linkId && decide (dayIndex dialect v.occurredAt = d)) :=
  amount_view visits p d

theorem clamped_eq (visits : List LinkVisit) (index : LinkVisit → Int) (buckets slot : Nat) :
    clamped ((visits.map index).dedup.map fun i => (i, counts (visits.filter fun v => decide (index v = i)))) buckets slot =
      counts (visits.filter fun v => decide (min (max (index v) 0) ((buckets : Int) - 1) = slot)) := by
  unfold clamped
  rw [List.filter_map, List.map_map]
  exact tally_groups (layout .postgresql) visits index fun i => decide (min (max i 0) ((buckets : Int) - 1) = slot)

/-- The visits of a day, read in a span of whole days. -/
theorem clamped_day (h : Dated t) (admitted : Uuid → Bool) (a : Int) {n i : Nat} (hi : i < n) :
    clamped (bucketCounts t admitted (midnight a) (midnight (a + n)) DAY) n i =
      amount (layout dialect).view t.raw admitted (a + i) := by
  unfold bucketCounts
  rw [clamped_eq, List.filter_filter, amount_visits]
  congr 1
  apply List.filter_congr
  intro v hv
  have hdatable : Datable dialect v.occurredAt := h.raw v hv
  have hday := dayIndex_eq hdatable
  by_cases hin : midnight a ≤ v.occurredAt ∧ v.occurredAt < midnight (a + n)
  · have hlow := midnight_le_iff.mp hin.1
    have hhigh := lt_midnight_iff.mp hin.2
    rw [bucketIndex_eq dialect hdatable.1 hin.1, decide_eq_true hin.1, decide_eq_true hin.2, Bool.true_and, Bool.true_and,
      Bool.and_comm]
    congr 1
    rw [decide_eq_decide, hday]
    omega
  · have hout : ¬ dayIndex dialect v.occurredAt = a + i := by
      intro heq
      rw [hday] at heq
      apply hin
      rw [midnight_le_iff, lt_midnight_iff]
      omega
    have hspan : (decide (midnight a ≤ v.occurredAt) && decide (v.occurredAt < midnight (a + n))) = false := by
      rw [← Bool.decide_and]
      exact decide_eq_false hin
    rw [hspan, decide_eq_false hout]
    simp

/-- **The chart is what the book says**, day by day. -/
theorem dailyTotals_eq (h : Dated t) (links : List Link) (scope : Scope) (a : Int) {n : Nat} (hn : 0 < n) :
    dailyTotals t links (midnight a) (midnight (a + n)) scope = (List.range n).map fun i : Nat =>
      ⟨midnight (a + i), ((book t).read (layout dialect).view (scope.admits links) (a + i)).1,
        ((book t).read (layout dialect).view (scope.admits links) (a + i)).2⟩ := by
  have hdays : max 1 ((midnight (a + n) - midnight a + (dayLength - 1)) / dayLength).toNat = n := by
    have hspan : midnight (a + n) - midnight a + (dayLength - 1) = (dayLength - 1) + n * dayLength := by
      rw [← midnight_add, add_sub_cancel_left, Int.add_comm]
    have hrest : (dayLength - 1) / dayLength = 0 := by decide
    rw [hspan, Int.add_mul_ediv_right _ _ dayLength_pos.ne', hrest]
    omega
  unfold dailyTotals
  rw [midnightOf_midnight]
  simp only [hdays]
  apply List.map_congr_left
  intro i hi
  have hi := List.mem_range.mp hi
  rw [midnight_add]
  -- The folded rows of the day in question.
  have hrows : (t.days.rows.filter fun r => decide (midnight a ≤ r.day) && decide (r.day < midnight (a + n)) &&
      scope.admits links r.linkId && decide (r.day = midnight (a + i))) =
        t.days.rows.filter fun r => scope.admits links r.linkId && decide (dayOf r.day = a + i) := by
    apply List.filter_congr
    intro r hr
    by_cases hday : r.day = midnight (a + i)
    · have hlow : midnight a ≤ r.day := by
        rw [hday, midnight_le_iff, dayOf_midnight]
        omega
      have hhigh : r.day < midnight (a + n) := by
        rw [hday, lt_midnight_iff, dayOf_midnight]
        omega
      rw [decide_eq_true hlow, decide_eq_true hhigh, hday, dayOf_midnight]
      simp
    · have hindex : ¬ dayOf r.day = a + i := by
        intro heq
        have hmidnight : midnight (dayOf r.day) = r.day := h.days r hr
        rw [← heq, hmidnight] at hday
        exact hday rfl
      simp [hday, hindex]
  have htotals : (book t).totalsOf (scope.admits links) (a + i) =
      (t.days.rows.filter fun r => scope.admits links r.linkId && decide (dayOf r.day = a + i)).map
        (layout dialect).toTotal := by
    unfold Book.totalsOf book
    rw [List.filter_map]
    rfl
  unfold rolledTotals Book.read
  rw [hrows, htotals]
  cases t.days.rows.filter fun r => scope.admits links r.linkId && decide (dayOf r.day = a + i) with
  | nil =>
    simp only [List.map_nil, List.isEmpty_nil, if_true]
    rw [clamped_day h _ a hi]
    rfl
  | cons r rows =>
    have hsum : ∀ rows : List VisitsOnADay, ((rows.map (layout dialect).toTotal).map (·.total)).sum =
        ((rows.map (·.total)).sum, (rows.map (·.bots)).sum) := by
      intro rows
      induction rows with
      | nil => rfl
      | cons r rows ih =>
        simp only [List.map_cons, List.sum_cons, ih]
        rfl
    rw [if_neg (by simp), hsum]

/-- The visits of a day to the links in question. -/
def recordedOn (recorded : List LinkVisit) (links : List Link) (scope : Scope) (d : Int) : List LinkVisit :=
  recorded.filter fun v => scope.admits links v.linkId && decide (dayOf v.occurredAt = d)

/-- **A faithful book gives a faithful chart.** -/
theorem dailyTotals_of_faithful {recorded : List LinkVisit} {F : Int} (h : Dated t)
    (hb : Faithful (layout dialect).view (book t) recorded F) (hstamps : ∀ v ∈ recorded, Datable dialect v.occurredAt)
    (links : List Link) (scope : Scope) (a : Int) {n : Nat} (hn : 0 < n) :
    dailyTotals t links (midnight a) (midnight (a + n)) scope = (List.range n).map fun i : Nat =>
      ⟨midnight (a + i), (recordedOn recorded links scope (a + i)).length,
        (recordedOn recorded links scope (a + i)).countP (·.isBot)⟩ := by
  have hread : ∀ d : Int, (book t).read (layout dialect).view (scope.admits links) d =
      counts (recordedOn recorded links scope d) := by
    intro d
    rw [hb.read_eq, amount_visits]
    congr 1
    apply List.filter_congr
    intro v hv
    rw [dayIndex_eq (hstamps v hv)]
  rw [dailyTotals_eq h links scope a hn]
  simp only [hread]
  rfl

end Chart

theorem sum_fst (xs : List (Nat × Nat)) : (xs.map Prod.fst).sum = xs.sum.1 := by
  induction xs with
  | nil => rfl
  | cons x xs ih =>
    rw [List.map_cons, List.sum_cons, List.sum_cons, ih]
    rfl

/-! ## What the operations on links do to the counters -/

/-- Links are added that nobody has opened, or links go. -/
def Unopened (db db' : Db) : Prop :=
  (∃ links, db'.links.rows = links ++ db.links.rows ∧ ∀ l ∈ links, l.clicks = 0) ∨
    db'.links.rows.Sublist db.links.rows

section Counters

variable {svc : LinkServices} {w : World} {now : Instant}

theorem Unopened.refl (db : Db) : Unopened db db := .inr (.refl _)

theorem findOrCreate_unopened {q : Creation} (svc : LinkServices) (w : World) (now : Instant) (draws : Draws)
    (attempt : Nat) : (∀ e, (findOrCreate svc w now q draws attempt).2 = .error e →
        (findOrCreate svc w now q draws attempt).1.db = w.db) ∧
      Unopened w.db (findOrCreate svc w now q draws attempt).1.db := by
  unfold findOrCreate
  dsimp only
  split
  · exact ⟨fun _ _ => rfl, .refl _⟩
  · split
    · exact ⟨fun _ _ => rfl, .refl _⟩
    · split
      · exact ⟨fun _ _ => rfl, .refl _⟩
      · rename_i db link hnew
        refine ⟨nofun, .inl ⟨[link], Db.saveLink_rows (newLink_ok hnew).1, ?_⟩⟩
        intro l hl
        rw [List.mem_singleton.mp hl]
        unfold newLink at hnew
        obtain ⟨-, -, hnew⟩ := bind_eq_ok.mp hnew
        obtain ⟨code, -, hnew⟩ := bind_eq_ok.mp hnew
        obtain ⟨link', hcreate, hnew⟩ := bind_eq_ok.mp hnew
        obtain ⟨db₁, -, hnew⟩ := bind_eq_ok.mp hnew
        cases hnew
        exact Link.create_clicks hcreate

theorem createShortLink_unopened (svc : LinkServices) (w : World) (now : Instant) (ctx : Context) (url : String)
    (ttlSeconds : Int) (customCode : Option String) (draws : Draws) :
    Unopened w.db (createShortLink svc w now ctx url ttlSeconds customCode draws).1.db := by
  have hretrying : ∀ (q : Creation) (n : Nat) (w : World),
      Unopened w.db (findOrCreateRetrying svc now q draws n w).1.db := by
    intro q n
    induction n with
    | zero =>
      intro w
      exact .refl _
    | succ n ih =>
      intro w
      unfold findOrCreateRetrying
      obtain ⟨herror, hone⟩ := findOrCreate_unopened (q := q) svc w now draws (svc.maxCollisionAttempts - (n + 1))
      split
      · rename_i w' e heq
        rw [heq] at herror hone
        split
        · rw [← herror e rfl]
          exact ih w'
        · exact hone
      · exact hone
  unfold createShortLink
  split
  · exact .refl _
  · rename_i q _
    exact hretrying q svc.maxCollisionAttempts w

theorem batchCreateLinks_unopened (svc : LinkServices) (w : World) (now : Instant) (ctx : Context) (urls : List String)
    (draws : Draws) : Unopened w.db (batchCreateLinks svc w now ctx urls draws).1.db := by
  have hattempt : ∀ (q : Batch) (w : World) (attempt : Nat),
      (∀ e, (lookUpAndCreate svc w now q draws attempt).2 = .error e →
        (lookUpAndCreate svc w now q draws attempt).1.db = w.db) ∧
      Unopened w.db (lookUpAndCreate svc w now q draws attempt).1.db := by
    intro q w attempt
    obtain ⟨hanswer, hdb⟩ := lookUpAndCreate_store svc w now q draws attempt
    rw [hanswer, hdb]
    cases hstore : store w.db now q (lookUp svc w now q draws attempt).planned with
    | error e => exact ⟨fun _ _ => rfl, .refl _⟩
    | ok r =>
      obtain ⟨saved, db⟩ := r
      obtain ⟨hlinks, hsave⟩ := store_ok hstore
      refine ⟨nofun, .inl ⟨saved.reverse, Db.saveMany_rows hsave, ?_⟩⟩
      intro l hl
      obtain ⟨p, -, hp⟩ := mapM_ok_mem hlinks (List.mem_reverse.mp hl)
      exact Link.create_clicks hp
  have hretrying : ∀ (q : Batch) (n : Nat) (w : World),
      Unopened w.db (lookUpAndCreateRetrying svc now q draws n w).1.db := by
    intro q n
    induction n with
    | zero =>
      intro w
      exact .refl _
    | succ n ih =>
      intro w
      unfold lookUpAndCreateRetrying
      obtain ⟨herror, hone⟩ := hattempt q w (svc.maxCollisionAttempts - (n + 1))
      split
      · rename_i w' e heq
        rw [heq] at herror hone
        split
        · rw [← herror e rfl]
          exact ih w'
        · exact hone
      · exact hone
  rw [batchCreateLinks_fst]
  split
  · exact .refl _
  · split
    · exact .refl _
    · split
      · exact .refl _
      · exact hretrying _ _ w

/-- **No operation on links and accounts touches a counter.** -/
theorem serviceStep_unopened {accounts : Services} {s s' : Links.State} {e : Links.Event}
    (h : serviceStep svc accounts s e = some s') : Unopened s.world.db s'.world.db ∧ s.now ≤ s'.now := by
  cases e with
  | createShortLink ctx url ttlSeconds customCode draws =>
    cases h
    exact ⟨createShortLink_unopened svc s.world s.now ctx url ttlSeconds customCode draws, le_rfl⟩
  | batchCreateLinks ctx urls draws =>
    cases h
    exact ⟨batchCreateLinks_unopened svc s.world s.now ctx urls draws, le_rfl⟩
  | redirectLink code enqueued =>
    cases h
    refine ⟨?_, le_rfl⟩
    rw [db_redirectLink]
    exact .refl _
  | deleteLink ctx code enforceOwnership authorizedLinkId =>
    cases h
    exact ⟨.inr (deleteLink_rows svc.backend s.world ctx code enforceOwnership authorizedLinkId), le_rfl⟩
  | deleteUser actor userId =>
    cases h
    exact ⟨.inr (deleteUser_rows svc.backend s.world actor userId), le_rfl⟩
  | cleanExpiredLinks =>
    cases h
    exact ⟨.inr List.filter_sublist, le_rfl⟩
  | cleanUnverifiedAccounts =>
    cases h
    exact ⟨.inr List.filter_sublist, le_rfl⟩
  | evict codes hashes redirects =>
    cases h
    exact ⟨.refl _, le_rfl⟩
  | tick now =>
    simp only [serviceStep, anyStep, Links.step] at h
    split at h
    · rename_i hle
      cases h
      exact ⟨.refl _, hle⟩
    · cases h

end Counters

/-! ## Whole histories -/

section Accounts

variable {dialect : Dialect}

/-- A visit is stamped at a moment whose day the database numbers: not in the last half millisecond of it, in SQLite. -/
def StampsInItsDay (s : State dialect) : Event → Prop
  | .updateLinkStats code isBot =>
    visitOf s.db code s.now isBot ≠ none → dialect = .sqlite → s.now % dayLength < dayLength - 500
  | _ => True

instance decidableStampsInItsDay (s : State dialect) : ∀ e, Decidable (StampsInItsDay s e)
  | .updateLinkStats _ _ => inferInstanceAs (Decidable (_ → _ → _))
  | .service _ => isTrue trivial
  | .rollUpVisits _ => isTrue trivial

/-- The tables account for the visits that were recorded, and the counters count them. -/
structure Accounted (s : State dialect) : Prop where
  clock : 0 ≤ s.now
  dated : Dated s.tables
  faithful : ∃ F : Int, F ≤ dayOf s.now ∧ Faithful (layout dialect).view (book s.tables) s.recorded F
  stamps : ∀ v ∈ s.recorded, Datable dialect v.occurredAt ∧ v.occurredAt ≤ s.now ∧ hasLink s.db v.linkId = true
  clicks : ∀ l ∈ s.db.links.rows, l.clicks = (s.recorded.filter fun v => decide (v.linkId = l.id)).length

end Accounts

theorem hasLink_iff {db : Db} {id : Uuid} : hasLink db id = true ↔ ∃ l ∈ db.links.rows, l.id = id := by
  simp [hasLink]

/-- A link has one row. -/
theorem eq_of_id {db : Db} {l l' : Link} (hl : l ∈ db.links.rows) (hl' : l' ∈ db.links.rows) (hid : l.id = l'.id) :
    l = l' :=
  List.inj_on_of_nodup_map db.links.nodup hl hl' (db.linkIds (Db.mem_links_iff.mp hl) (Db.mem_links_iff.mp hl') hid)

section Histories

variable {dialect : Dialect} {svc : LinkServices} {accounts : Services} {s s' : State dialect}

theorem service_accounted {e : Links.Event} (hstep : step svc accounts s (.service e) = some s') (h : Accounted s) :
    Accounted s' := by
  obtain ⟨service, hservice, hs'⟩ := Option.bind_eq_some_iff.mp hstep
  cases hs'
  obtain ⟨hrows, hnow⟩ := serviceStep_unopened hservice
  have hrows : Unopened s.db service.world.db := hrows
  obtain ⟨F, hF, hfaithful⟩ := h.faithful
  have hnow' : dayOf s.now ≤ dayOf service.now := dayOf_mono hnow
  refine ⟨le_trans h.clock hnow, h.dated.cascade _, ⟨F, hF.trans hnow', ?_⟩, ?_, ?_⟩
  · show Faithful (layout dialect).view (book (cascade s.tables _)) _ F
    rw [book_cascade]
    exact hfaithful.drop _
  · intro v hv
    obtain ⟨hv, hthere⟩ := List.mem_filter.mp hv
    obtain ⟨hdatable, hpast, -⟩ := h.stamps v hv
    exact ⟨hdatable, le_trans hpast hnow, hthere⟩
  · intro l hl
    -- Only the visits of links that are there are left, and this one is.
    have hthere : hasLink service.world.db l.id = true := hasLink_iff.mpr ⟨l, hl, rfl⟩
    have hsame : (s.recorded.filter fun v => hasLink service.world.db v.linkId).filter
        (fun v => decide (v.linkId = l.id)) = s.recorded.filter fun v => decide (v.linkId = l.id) := by
      rw [List.filter_filter]
      apply List.filter_congr
      intro v _
      by_cases hid : v.linkId = l.id
      · simp [hid, hthere]
      · simp [hid]
    show l.clicks = _
    rw [hsame]
    rcases hrows with ⟨links, hrows, hclicks⟩ | hsub
    · have hl : l ∈ links ++ s.db.links.rows := by
        rw [← hrows]
        exact hl
      rcases List.mem_append.mp hl with hnew | hold
      · rw [hclicks l hnew, List.length_eq_zero_iff.mpr]
        rw [List.filter_eq_nil_iff]
        intro v hv hid
        obtain ⟨l', hl', hid'⟩ := hasLink_iff.mp (h.stamps v hv).2.2
        have hin : l' ∈ service.world.db.links.rows := by
          rw [hrows]
          exact List.mem_append_right _ hl'
        have heq : l = l' := by
          refine eq_of_id ?_ hin (hid'.trans (of_decide_eq_true hid)).symm
          rw [hrows]
          exact hl
        have hn : (links ++ s.db.links.rows).Nodup := by
          rw [← hrows]
          exact service.world.db.links.nodup.of_map
        exact (List.nodup_append.mp hn).2.2 l hnew l' hl' heq
      · exact h.clicks l hold
    · exact h.clicks l (hsub.subset hl)

/-- **The click task**: nothing is counted and nothing recorded, or a link is counted and its visit recorded. -/
theorem updateLinkStats_cases (b : Backend) (w : World) (code : String) (now : Instant) (isBot : Bool) :
    (visitOf w.db code now isBot = none ∧ (Links.updateLinkStats b w now code).db = w.db) ∨
      ∃ l ∈ w.db.links.rows, visitOf w.db code now isBot = some ⟨l.id, now, isBot⟩ ∧
        (Links.updateLinkStats b w now code).db.links.rows = w.db.links.rows.map fun l' =>
          if l'.shortCode = l.shortCode then { l' with clicks := l'.clicks + 1, lastAccessed := some now } else l' := by
  unfold visitOf Links.updateLinkStats
  cases ShortCode.parse code with
  | error e => exact .inl ⟨rfl, rfl⟩
  | ok c =>
    simp only
    cases hl : w.db.findByCode c with
    | none =>
      have hnone : w.db.incrementClicks c now = none := by
        unfold Db.incrementClicks
        rw [hl]
        rfl
      rw [hnone]
      exact .inl ⟨rfl, rfl⟩
    | some l =>
      obtain ⟨hrow, hcode⟩ := Rows.get_eq_some.mp hl
      have hsome : w.db.incrementClicks c now = some (w.db.modifyLinks
          (fun l => if l.shortCode = c then { l with clicks := l.clicks + 1, lastAccessed := some now } else l)
          (by intro l; split <;> simp)) := by
        unfold Db.incrementClicks
        rw [hl]
        rfl
      right
      refine ⟨l, hrow, ?_, ?_⟩
      · rw [hsome, Option.bind_eq_bind, Option.bind_some]
        have hfind : w.db.links.get c = some l := hl
        simp only [Db.findByCode, Db.modifyLinks, Rows.get_modify, hfind, Option.map_some, if_pos hcode]
        rfl
      · rw [hsome, hcode]
        rfl

theorem updateLinkStats_accounted (b : Backend) (h : Accounted s) {code : String} {isBot : Bool}
    (hstamps : StampsInItsDay s (.updateLinkStats code isBot)) : Accounted (updateLinkStats b s code isBot) := by
  obtain ⟨F, hF, hfaithful⟩ := h.faithful
  rcases updateLinkStats_cases b s.service.world code s.now isBot with ⟨hnone, hdb⟩ | ⟨l, hl, hvisit, hrows⟩
  · have hvisit : visitOf s.db code s.now isBot = none := hnone
    have hdb' : (updateLinkStats b s code isBot).db = s.db := hdb
    have htables : (updateLinkStats b s code isBot).tables = s.tables := by
      unfold updateLinkStats
      rw [hvisit]
      rfl
    have hrecorded : (updateLinkStats b s code isBot).recorded = s.recorded := by
      unfold updateLinkStats
      rw [hvisit]
      rfl
    constructor
    · exact h.clock
    · rw [htables]
      exact h.dated
    · rw [htables, hrecorded]
      exact ⟨F, hF, hfaithful⟩
    · rw [hrecorded, hdb']
      exact h.stamps
    · rw [hrecorded, hdb']
      exact h.clicks
  · have hvisit : visitOf s.db code s.now isBot = some ⟨l.id, s.now, isBot⟩ := hvisit
    have hdatable : Datable dialect s.now := ⟨h.clock, hstamps (by rw [hvisit]; exact Option.some_ne_none _)⟩
    have hl : l ∈ s.db.links.rows := hl
    have hrows : (updateLinkStats b s code isBot).db.links.rows = s.db.links.rows.map fun l' =>
      if l'.shortCode = l.shortCode then { l' with clicks := l'.clicks + 1, lastAccessed := some s.now } else l' := hrows
    have htables : (updateLinkStats b s code isBot).tables =
        { s.tables with raw := ⟨l.id, s.now, isBot⟩ :: s.tables.raw } := by
      unfold updateLinkStats
      rw [hvisit]
      rfl
    have hrecorded : (updateLinkStats b s code isBot).recorded = ⟨l.id, s.now, isBot⟩ :: s.recorded := by
      unfold updateLinkStats
      rw [hvisit]
      rfl
    have hthere : ∀ {id}, hasLink s.db id = true → hasLink (updateLinkStats b s code isBot).db id = true := by
      intro id hid
      obtain ⟨l', hl', rfl⟩ := hasLink_iff.mp hid
      rw [hasLink_iff, hrows]
      refine ⟨_, List.mem_map_of_mem hl', ?_⟩
      split <;> rfl
    constructor
    · exact h.clock
    · rw [htables]
      refine ⟨?_, h.dated.days⟩
      intro v hv
      rcases List.mem_cons.mp hv with rfl | hv
      · exact hdatable
      · exact h.dated.raw v hv
    · rw [htables, hrecorded]
      refine ⟨F, hF, hfaithful.record ?_⟩
      exact hF.trans (dayIndex_eq hdatable).ge
    · rw [hrecorded]
      intro v hv
      rcases List.mem_cons.mp hv with rfl | hv
      · exact ⟨hdatable, le_rfl, hthere (hasLink_iff.mpr ⟨l, hl, rfl⟩)⟩
      · obtain ⟨hold, hpast, hin⟩ := h.stamps v hv
        exact ⟨hold, hpast, hthere hin⟩
    · rw [hrecorded, hrows]
      intro l₁ hl₁
      obtain ⟨l', hl', rfl⟩ := List.mem_map.mp hl₁
      split
      · rename_i hcode
        have heq : l' = l := List.inj_on_of_nodup_map s.db.links.nodup hl' hl hcode
        subst heq
        rw [List.filter_cons_of_pos (by simp), List.length_cons, ← h.clicks l' hl']
      · rename_i hcode
        have hid : ¬ l.id = l'.id := by
          intro hid
          exact hcode (congrArg Link.shortCode (eq_of_id hl hl' hid).symm)
        rw [List.filter_cons_of_neg (by simpa using hid)]
        exact h.clicks l' hl'

/-- **Every operation keeps the books.** -/
theorem step_accounted {e : Event} (hstamps : StampsInItsDay s e) (hstep : step svc accounts s e = some s')
    (h : Accounted s) : Accounted s' := by
  cases e with
  | service e => exact service_accounted hstep h
  | updateLinkStats code isBot =>
    cases hstep
    exact updateLinkStats_accounted svc.backend h hstamps
  | rollUpVisits retentionDays =>
    cases hstep
    obtain ⟨F, hF, hfaithful⟩ := h.faithful
    obtain ⟨hdated, hfolded⟩ := rollUp_faithful h.dated hfaithful hF retentionDays
    exact ⟨h.clock, hdated, ⟨_, le_rfl, hfolded⟩, h.stamps, h.clicks⟩

end Histories

section Whole

variable {dialect : Dialect}

/-- A service in which no link has been opened yet. -/
structure Unused (s : State dialect) : Prop where
  visits : s.tables.raw = []
  days : s.tables.days.rows = []
  recorded : s.recorded = []
  clicks : ∀ l ∈ s.db.links.rows, l.clicks = 0
  /-- The clock does not go back behind 1970. -/
  clock : 0 ≤ s.now

theorem Unused.accounted {s : State dialect} (h : Unused s) : Accounted s := by
  refine ⟨h.clock, ⟨?_, ?_⟩, ⟨dayOf s.now, le_rfl, ?_⟩, ?_, ?_⟩
  · rw [h.visits]
    nofun
  · rw [h.days]
    nofun
  · have hbook : book s.tables = ⟨[], []⟩ := by
      unfold book
      rw [h.visits, h.days]
      rfl
    rw [hbook, h.recorded]
    exact .empty _
  · rw [h.recorded]
    nofun
  · intro l hl
    rw [h.recorded, h.clicks l hl]
    rfl

/-- The visits that were recorded on a day for the links in question. -/
def State.recordedOn (s : State dialect) (scope : Scope) (d : Int) : List LinkVisit :=
  Visits.recordedOn s.recorded s.db.links.rows scope d

/-- **Folding and sweeping are invisible to the daily chart**, over every history whose visits are stamped in their days:
for any link, any owner or all of them it shows for each day of a span how many visits were recorded, and how many by
robots; and over all days, from 1970 to today, the visits of a link add up to its counter. -/
theorem daily_chart_shows_what_was_recorded (svc : LinkServices) (accounts : Services) (s s' : State dialect)
    (events : List Event) (hstart : Unused s) (hstamps : Meets (step svc accounts) StampsInItsDay s events)
    (hrun : run (step svc accounts) s events = some s') :
    (∀ (scope : Scope) (a : Int) (n : Nat), 0 < n →
      dailyTotals s'.tables s'.db.links.rows (midnight a) (midnight (a + n)) scope =
        (List.range n).map fun i : Nat => ⟨midnight (a + i), (s'.recordedOn scope (a + i)).length,
          (s'.recordedOn scope (a + i)).countP (·.isBot)⟩) ∧
    ∀ link ∈ s'.db.links.rows, ∀ (a : Int) (n : Nat), a ≤ 0 → dayOf s'.now < a + n →
      ((dailyTotals s'.tables s'.db.links.rows (midnight a) (midnight (a + n)) ⟨some link.id, none⟩).map (·.total)).sum =
        link.clicks := by
  have h : Accounted s' := run_inv_of_meets (I := Accounted) step_accounted hstamps hrun hstart.accounted
  obtain ⟨F, hF, hfaithful⟩ := h.faithful
  refine ⟨?_, ?_⟩
  · intro scope a n hn
    exact dailyTotals_of_faithful h.dated hfaithful (fun v hv => (h.stamps v hv).1) _ scope a hn
  · intro link hlink a n ha hn
    have hspan : ∀ v ∈ s'.recorded, a ≤ (layout dialect).view.day v ∧ (layout dialect).view.day v < a + n := by
      intro v hv
      obtain ⟨hdatable, hpast, -⟩ := h.stamps v hv
      have hlow : 0 ≤ dayOf v.occurredAt := dayOf_nonneg hdatable.1
      have hhigh : dayOf v.occurredAt ≤ dayOf s'.now := dayOf_mono hpast
      have hview : (layout dialect).view.day v = dayOf v.occurredAt := dayIndex_eq hdatable
      omega
    have hn : 0 < n := by
      have hnow : 0 ≤ dayOf s'.now := dayOf_nonneg h.clock
      omega
    have hof : ∀ v : LinkVisit, (⟨some link.id, none⟩ : Scope).admits s'.db.links.rows ((layout dialect).view.key v) =
        decide (v.linkId = link.id) := by
      intro v
      unfold Scope.admits
      simp only [Option.all_some, Option.all_none, Bool.and_true]
      rfl
    have hsum := sum_amount_days (p := (⟨some link.id, none⟩ : Scope).admits s'.db.links.rows) fun v hv _ => hspan v hv
    simp only [hof] at hsum
    rw [dailyTotals_eq h.dated _ _ a hn, List.map_map, h.clicks link hlink]
    calc ((List.range n).map _).sum
        = (((List.range n).map fun i : Nat => amount (layout dialect).view s'.recorded
            ((⟨some link.id, none⟩ : Scope).admits s'.db.links.rows) (a + i)).map Prod.fst).sum := by
          rw [List.map_map]
          congr 1
          apply List.map_congr_left
          intro i _
          simp only [Function.comp, hfaithful.read_eq]
      _ = (counts (s'.recorded.filter fun v => decide (v.linkId = link.id))).1 := by
          rw [sum_fst, hsum, counts_eq]
          rfl

end Whole

/-! ## Two histories -/

def freshService (dialect : Dialect) : State dialect := ⟨⟨⟨Db.empty [], Cache.empty⟩, 0⟩, ⟨[], .empty⟩, []⟩

/-- A guest shortens a URL for a week. -/
def creation : Event :=
  .service (.createShortLink ⟨none, some "192.0.2.1"⟩ "https://one.example" 604800 (some "my-link")
    ⟨fun _ => 1, fun _ _ => ⟨"cccccc", isCode_cccccc⟩⟩)

/-- A link is opened on three days; the first two days are folded, and the first is swept. -/
def openedOnThreeDays : List Event :=
  [creation, .updateLinkStats "my-link" false, .updateLinkStats "my-link" true, .service (.tick (dayLength + 1)),
    .updateLinkStats "my-link" false, .rollUpVisits 1, .service (.tick (2 * dayLength)), .updateLinkStats "my-link" true,
    .rollUpVisits 1]

/-- What is left of the visits, and how many there were each day. -/
def threeDays (s : State .sqlite) : Nat × List (Nat × Nat) :=
  (s.tables.raw.length, (List.range 3).map fun i : Nat => counts (s.recordedOn ⟨none, none⟩ (0 + i)))

theorem daily_chart_of_three_days :
    ∃ s', run (step sampleServices sampleAccounts) (freshService .sqlite) openedOnThreeDays = some s' ∧
      s'.tables.raw.length = 2 ∧
      (dailyTotals s'.tables s'.db.links.rows (midnight 0) (midnight 3) ⟨none, none⟩).map (fun b => (b.total, b.bots)) =
        [(2, 1), (1, 0), (1, 1)] := by
  have hrun : (run (step sampleServices sampleAccounts) (freshService .sqlite) openedOnThreeDays).map threeDays =
      some (2, [(2, 1), (1, 0), (1, 1)]) := by decide +kernel
  have hstamps : Meets (step sampleServices sampleAccounts) StampsInItsDay (freshService .sqlite) openedOnThreeDays := by
    decide +kernel
  obtain ⟨s', hs', hthree⟩ := Option.map_eq_some_iff.mp hrun
  have hfresh : Unused (freshService .sqlite) := by
    refine ⟨rfl, rfl, rfl, ?_, le_rfl⟩
    intro l hl
    cases hl
  have hchart := (daily_chart_shows_what_was_recorded sampleServices sampleAccounts (freshService .sqlite) s'
    openedOnThreeDays hfresh hstamps hs').1 ⟨none, none⟩ 0 3 (by decide)
  refine ⟨s', hs', congrArg Prod.fst hthree, ?_⟩
  have hmap := congrArg (List.map fun b : VisitBucket => (b.total, b.bots)) hchart
  rw [List.map_map] at hmap
  exact hmap.trans (congrArg Prod.snd hthree)

/-- A link is opened 300 microseconds before the end of a day and twice on the next one, and the maintenance runs on that
day and the two days after. -/
def openedBeforeMidnight : List Event :=
  [creation, .service (.tick (midnight 20514 - 300)), .updateLinkStats "my-link" false, .service (.tick (midnight 20514)),
    .rollUpVisits 1, .updateLinkStats "my-link" false, .updateLinkStats "my-link" false,
    .service (.tick (midnight 20515)), .rollUpVisits 1, .service (.tick (midnight 20516)), .rollUpVisits 1]

/-- The counter of the link, and of the two days how many visits there were and how many the chart shows. -/
def twoDays {dialect : Dialect} (s : State dialect) : List Nat × List Nat × List Nat :=
  (s.db.links.rows.map (·.clicks), (List.range 2).map fun i : Nat => (s.recordedOn ⟨none, none⟩ (20513 + i)).length,
    (dailyTotals s.tables s.db.links.rows (midnight 20513) (midnight 20515) ⟨none, none⟩).map (·.total))

/-- **SQLite counts the last half millisecond of a day on the next one**, and folds that day before it is over: its other
visits are never folded and are swept. PostgreSQL does neither. -/
theorem late_stamps_are_counted_a_day_later :
    (run (step sampleServices sampleAccounts) (freshService .sqlite) openedBeforeMidnight).map twoDays =
        some ([3], [1, 2], [0, 1]) ∧
      (run (step sampleServices sampleAccounts) (freshService .postgresql) openedBeforeMidnight).map twoDays =
        some ([3], [1, 2], [1, 2]) := by
  decide +kernel

end LinkShortener.Visits
