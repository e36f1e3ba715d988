import LinkShortener.Lib.History
import LinkShortener.Lib.Statements
import LinkShortener.Races.Writes

/-!
# How a link goes

Redirects, clicks, creations, batches, deletions and sweeps run among each other. A code that leads to a link leads to that
link, with that destination, owner and expiry, until the link is taken away; and it is taken away by a deletion that was
permitted for this very link or by a sweep that has found it expired. A code that was freed in the meantime and given to
another link does not change who is judged: a row is removed by its identity.

* `Names`: what is removed and not committed is a row with the identity of a link the operation has judged.
* `Judged`: the links an operation is about to remove were permitted or expired, and stood in the table when they were read.
* `step_links`: what one step does to a row. `links_stay_until_taken_by_right` is about whole runs.
-/

namespace LinkShortener.Races

open ReadCommitted Transactions Links Runs

section Removals

variable {T : Type} [DecidableEq T] {svc : LinkServices} {lockKey : String → Int} {s₀ s s' : System T}
  {es : List (Event T)} {e : Event T} {t : T} {a : Act}

/-! ## What is removed -/

/-- A removed row has the identity of a link that is being taken away. -/
def Names (p : Pc) (c : ShortCode) (old new : Option (Row c)) : Prop :=
  new = none → ∃ row link, old = some row ∧ link ∈ removing p ∧ link.shortCode = c ∧ row.val.id = link.id

theorem Names.mono {p p' : Pc} {c : ShortCode} {old new : Option (Row c)} (hsub : removing p ⊆ removing p')
    (h : Names p c old new) : Names p' c old new := by
  intro hnone
  obtain ⟨row, link, hold, hlink, hcode, hid⟩ := h hnone
  exact ⟨row, link, hold, hsub hlink, hcode, hid⟩

/-- What has been removed goes on being removed until the transaction ends. -/
theorem next_removing (h : nextOf svc lockKey s t = some a) (hends : a.ends = false) :
    removing (s.state.procs t) ⊆ removing a.point := by
  unfold nextOf at h
  cases hp : s.state.procs t with
  | delete c permitted p =>
    rw [hp] at h
    cases p with
    | commit link =>
      cases h
      cases hends
    | _ => exact List.nil_subset _
  | sweep p =>
    rw [hp] at h
    cases p with
    | select now deleted =>
      simp only [next, nextSweep, Option.some.injEq] at h
      split at h
      · subst h
        cases hends
      · subst h
        exact List.Subset.refl _
    | remove now chunk deleted =>
      cases chunk with
      | nil =>
        cases h
        exact List.Subset.refl _
      | cons link chunk =>
        simp only [next, nextSweep, Option.some.injEq] at h
        split at h
        · split at h <;> subst h <;> exact List.subset_append_left _ _
        · subst h
          exact List.subset_append_left _ _
    | _ => exact List.nil_subset _
  | _ => exact List.nil_subset _

/-- An operation that counts nothing and adds nothing sees the committed rows it has not removed. -/
theorem committed_of_view_some {c : ShortCode} {row : Row c} (hw : Written Wrote s.state)
    (hcount : counting (s.state.procs t) = false) (hadd : adding (s.state.procs t) = [])
    (hv : s.state.store.view t c = some row) : s.state.store.committed c = some row := by
  cases hd : s.state.store.dirtyBy t c with
  | none => rwa [Store.view_of_clean hd] at hv
  | some w =>
    rw [Store.view_of_dirtyBy hd] at hv
    subst hv
    rcases hw t c _ hd with ⟨hno, -⟩ | ⟨hno, -⟩ | ⟨-, _, -, hno⟩
    · rw [hcount] at hno
      cases hno
    · cases hno
    · rw [hadd] at hno
      cases hno

/-- A row is removed by a deletion or by a sweep, and as the row it is seen to be. -/
theorem next_removes {c : ShortCode} {p : Pc} (h : nextOf svc lockKey s t = some (.write c none p)) :
    (counting (s.state.procs t) = false ∧ adding (s.state.procs t) = []) ∧
      ∃ row link, s.state.store.view t c = some row ∧ link ∈ removing p ∧ link.shortCode = c ∧ row.val.id = link.id := by
  unfold nextOf at h
  cases hp : s.state.procs t with
  | idle =>
    rw [hp] at h
    cases h
  | redirect c' enqueued q =>
    rw [hp] at h
    cases q <;> simp only [next, nextRedirect, Option.some.injEq] at h <;> grind
  | count c' q =>
    rw [hp] at h
    cases q with
    | update =>
      simp only [next, nextCount, Option.some.injEq] at h
      split at h <;> cases h
    | _ => cases h
  | info c' =>
    rw [hp] at h
    cases h
  | delete c' permitted q =>
    rw [hp] at h
    cases q with
    | remove link =>
      simp only [next, nextDelete, Option.some.injEq] at h
      split at h
      · rename_i l hl
        split at h
        · rename_i hid
          cases h
          obtain ⟨row, hrow, rfl⟩ := Option.map_eq_some_iff.mp hl
          exact ⟨⟨rfl, rfl⟩, row, link, hrow, List.mem_singleton.mpr rfl, rfl, hid⟩
        · cases h
      · cases h
    | _ => simp only [next, nextDelete, Option.some.injEq] at h; grind
  | sweep q =>
    rw [hp] at h
    cases q with
    | begin => cases h
    | select now deleted => simp only [next, nextSweep, Option.some.injEq] at h; grind
    | remove now chunk deleted =>
      cases chunk with
      | nil => cases h
      | cons link chunk =>
        simp only [next, nextSweep, Option.some.injEq] at h
        split at h
        · rename_i l hl
          split at h
          · rename_i hid
            cases h
            obtain ⟨row, hrow, rfl⟩ := Option.map_eq_some_iff.mp hl
            exact ⟨⟨rfl, rfl⟩, row, link, hrow, List.mem_append_right _ (List.mem_singleton.mpr rfl), rfl, hid⟩
          · cases h
        · cases h
    | drop deleted => cases deleted <;> cases h
  | create j q =>
    rw [hp] at h
    obtain ⟨link, rfl⟩ := insert_of_write_create h
    obtain ⟨-, -, row, hno, -⟩ := insertRow_write h retryCreate_ne_write
    cases hno
  | batch j q =>
    rw [hp] at h
    obtain ⟨done, link, links, rfl⟩ := insert_of_write_batch h
    obtain ⟨-, -, row, hno, -⟩ := insertRow_write h retryBatch_ne_write
    cases hno

/-- **Every step removes what it may.** -/
theorem next_names (hw : Written Wrote s.state) (h : nextOf svc lockKey s t = some a) : Allowed Names s.state t a := by
  refine Allowed.of_keeps (fun hends c old new hnames => hnames.mono (next_removing h hends)) ?_
  rintro c v p rfl rfl
  obtain ⟨⟨hcount, hadd⟩, row, link, hview, hlink, hcode, hid⟩ := next_removes h
  exact ⟨row, link, committed_of_view_some hw hcount hadd hview, hlink, hcode, hid⟩

/-! ## What is judged -/

/-- The link stood in the table at a moment of the run. -/
def Stood (svc : LinkServices) (lockKey : String → Int) (s₀ : System T) (es : List (Event T)) (link : Link) : Prop :=
  ∃ before after s₁, es = before ++ after ∧ run (step svc lockKey) s₀ before = some s₁ ∧
    ∃ row, s₁.state.store.committed link.shortCode = some row ∧ row.val = link

theorem Stood.concat {link : Link} (h : Stood svc lockKey s₀ es link) : Stood svc lockKey s₀ (es ++ [e]) link := by
  obtain ⟨before, after, s₁, rfl, hbefore, hrow⟩ := h
  exact ⟨before, after ++ [e], s₁, List.append_assoc _ _ _, hbefore, hrow⟩

/-- The links an operation is about to take away have been judged. -/
def Judged (stood : Link → Prop) : Pc → Prop
  | .delete c permitted (.remove link) | .delete c permitted (.commit link) =>
    link.shortCode = c ∧ permitted link = true ∧ stood link
  | .sweep (.select now deleted) => ∀ link ∈ deleted, link.isExpired now = true ∧ stood link
  | .sweep (.remove now chunk deleted) => ∀ link ∈ chunk ++ deleted, link.isExpired now = true ∧ stood link
  | _ => True

theorem Judged.mono {stood stood' : Link → Prop} {p : Pc} (hmono : ∀ link, stood link → stood' link) (h : Judged stood p) :
    Judged stood' p := by
  cases p with
  | delete c permitted p =>
    cases p with
    | remove link | commit link => exact ⟨h.1, h.2.1, hmono link h.2.2⟩
    | _ => trivial
  | sweep p =>
    cases p with
    | select now deleted | remove now chunk deleted => exact fun link hlink => ⟨(h link hlink).1, hmono link (h link hlink).2⟩
    | _ => trivial
  | _ => trivial

/-- A link that is read now stood in the table now. -/
theorem stood_now {link : Link} {row : Row link.shortCode} (hrun : run (step svc lockKey) s₀ es = some s)
    (hrow : s.state.store.committed link.shortCode = some row) (hsame : row.val = link) :
    Stood svc lockKey s₀ (es ++ [e]) link :=
  ⟨es, [e], s, rfl, hrun, row, hrow, hsame⟩

/-- A deletion or a sweep. -/
def takes : Pc → Bool
  | .delete _ _ _ | .sweep _ => true
  | _ => false

theorem judged_of_not_takes {stood : Link → Prop} {p : Pc} (h : takes p = false) : Judged stood p := by
  cases p with
  | delete | sweep => cases h
  | _ => trivial

/-- Nothing else becomes a deletion or a sweep on its way. -/
theorem next_takes (hnext : nextOf svc lockKey s t = some a) (h : takes (s.state.procs t) = false) :
    takes a.point = false := by
  unfold nextOf at hnext
  cases hp : s.state.procs t with
  | idle =>
    rw [hp] at hnext
    cases hnext
  | redirect c enqueued p =>
    rw [hp] at hnext
    cases hnext
    cases enqueued <;> cases p <;> simp only [nextRedirect] <;> (repeat' split) <;> rfl
  | count c p =>
    rw [hp] at hnext
    cases hnext
    cases p <;> simp only [nextCount] <;> (repeat' split) <;> rfl
  | info c =>
    rw [hp] at hnext
    cases hnext
    rfl
  | create j p =>
    rw [hp] at hnext
    cases p with
    | pick codes => cases codes <;> simp only [next, nextCreate] at hnext <;> grind [takes, Action.point]
    | _ =>
      simp only [next, nextCreate, insertRow, retryCreate] at hnext
      grind [takes, Action.point]
  | batch j p =>
    rw [hp] at hnext
    cases p with
    | dropStale stale missing => cases stale <;> simp only [next, nextBatch] at hnext <;> grind [takes, Action.point]
    | build planned links => cases planned <;> simp only [next, nextBatch] at hnext <;> grind [takes, Action.point]
    | insert done links =>
      cases links <;> simp only [next, nextBatch, insertRow, retryBatch] at hnext <;> grind [takes, Action.point]
    | _ =>
      simp only [next, nextBatch, resolveFrom] at hnext
      grind [takes, Action.point]
  | delete | sweep =>
    rw [hp] at h
    cases h

theorem next_judged (hrun : run (step svc lockKey) s₀ es = some s) (hw : Written Wrote s.state)
    (hnext : nextOf svc lockKey s t = some a) (h : Judged (Stood svc lockKey s₀ es) (s.state.procs t)) :
    Judged (Stood svc lockKey s₀ (es ++ [e])) a.point := by
  have hmono : Judged (Stood svc lockKey s₀ (es ++ [e])) (s.state.procs t) := h.mono fun _ hstood => hstood.concat
  cases hp : s.state.procs t with
  | delete c permitted p =>
    unfold nextOf at hnext
    rw [hp] at hnext hmono
    cases p with
    | find =>
      simp only [next, nextDelete, Option.some.injEq] at hnext
      split at hnext
      · rename_i link hlink
        split at hnext
        · rename_i hpermitted
          subst hnext
          obtain ⟨row, hrow, rfl⟩ := Option.map_eq_some_iff.mp hlink
          have hcommitted := committed_of_view_some hw (by rw [hp]; rfl) (by rw [hp]; rfl) hrow
          obtain ⟨link, rfl⟩ := row
          exact ⟨rfl, hpermitted, stood_now hrun hcommitted rfl⟩
        · subst hnext
          trivial
      · subst hnext
        trivial
    | remove link =>
      simp only [next, nextDelete, Option.some.injEq] at hnext
      split at hnext
      · split at hnext
        · subst hnext
          exact hmono
        · subst hnext
          trivial
      · subst hnext
        trivial
    | _ =>
      cases hnext
      trivial
  | sweep p =>
    unfold nextOf at hnext
    rw [hp] at hnext hmono
    cases p with
    | begin =>
      cases hnext
      exact fun link hlink => by cases hlink
    | select now deleted =>
      simp only [next, nextSweep, Option.some.injEq] at hnext
      split at hnext
      · subst hnext
        trivial
      · subst hnext
        intro link hlink
        rcases List.mem_append.mp hlink with hchunk | hdeleted
        · obtain ⟨hseen, hexpired⟩ := List.mem_filter.mp (List.mem_of_mem_take hchunk)
          refine ⟨hexpired, ?_⟩
          obtain ⟨c, -, hrow⟩ := List.mem_filterMap.mp hseen
          obtain ⟨row, hview, rfl⟩ := Option.map_eq_some_iff.mp hrow
          have hcommitted := committed_of_view_some hw (by rw [hp]; rfl) (by rw [hp]; rfl) hview
          obtain ⟨link, rfl⟩ := row
          exact stood_now hrun hcommitted rfl
        · exact hmono link hdeleted
    | remove now chunk deleted =>
      cases chunk with
      | nil =>
        cases hnext
        exact hmono
      | cons link chunk =>
        have hmoved : Judged (Stood svc lockKey s₀ (es ++ [e])) (.sweep (.remove now chunk (deleted ++ [link]))) := by
          intro other hother
          exact hmono other (by grind)
        simp only [next, nextSweep, Option.some.injEq] at hnext
        split at hnext
        · split at hnext <;> subst hnext <;> exact hmoved
        · subst hnext
          exact hmoved
    | drop deleted =>
      cases deleted <;> cases hnext <;> trivial
  | _ =>
    apply judged_of_not_takes
    refine next_takes hnext ?_
    rw [hp]
    rfl

/-- What is true of all operations in every state of a run. -/
structure Lawful (svc : LinkServices) (lockKey : String → Int) (s₀ : System T) (es : List (Event T)) (s : System T) :
    Prop where
  wrote : Written Wrote s.state
  names : Written Names s.state
  judged : ∀ t, Judged (Stood svc lockKey s₀ es) (s.state.procs t)

theorem AtRest.lawful (hrest : AtRest s) : Lawful svc lockKey s [] s := by
  refine ⟨hrest.written, .of_clean hrest.clean, ?_⟩
  intro t
  rw [hrest.idle t]
  trivial

theorem judged_others (hjudged : ∀ t, Judged (Stood svc lockKey s₀ es) (s.state.procs t))
    (hact : act s.state t a = some s'.state) (hown : Judged (Stood svc lockKey s₀ (es ++ [e])) a.point) (t' : T) :
    Judged (Stood svc lockKey s₀ (es ++ [e])) (s'.state.procs t') := by
  by_cases ht : t' = t
  · subst ht
    rwa [act_procs_self hact]
  · rw [act_procs_ne hact ht]
    exact (hjudged t').mono fun _ hstood => hstood.concat

theorem step_lawful (hrun : run (step svc lockKey) s₀ es = some s) (hstep : step svc lockKey s e = some s')
    (h : Lawful svc lockKey s₀ es s) : Lawful svc lockKey s₀ (es ++ [e]) s' := by
  have hwrote := step_written hstep h.wrote
  rcases step_cases hstep with ⟨t, op, hidle, hact, -⟩ | ⟨t, a, -, hnext, hact, -⟩ | ⟨hsame, -⟩
  · refine ⟨hwrote, h.names.act ?_ hact, judged_others h.judged hact (by cases op <;> trivial)⟩
    refine Allowed.of_keeps (fun _ c old new hnames => hnames.mono ?_) fun _ _ _ ha => by cases ha
    rw [hidle]
    exact List.nil_subset _
  · exact ⟨hwrote, h.names.act (next_names h.wrote hnext) hact,
      judged_others h.judged hact (next_judged hrun h.wrote hnext (h.judged t))⟩
  · refine ⟨hwrote, ?_, ?_⟩
    · rw [hsame]
      exact h.names
    · intro t
      rw [hsame]
      exact (h.judged t).mono fun _ hstood => hstood.concat

theorem lawful_run (hrest : AtRest s₀) (hrun : run (step svc lockKey) s₀ es = some s) : Lawful svc lockKey s₀ es s :=
  run_history (I := fun es s => Lawful svc lockKey s₀ es s) hrest.lawful step_lawful hrun

/-! ## What becomes of a row -/

/-- The same link, opened as often or more often. -/
def SameLink (link link' : Link) : Prop :=
  link' = { link with clicks := link'.clicks, lastAccessed := link'.lastAccessed } ∧ link.clicks ≤ link'.clicks

theorem SameLink.refl (link : Link) : SameLink link link := ⟨rfl, Nat.le_refl _⟩

theorem SameLink.trans {link link' link'' : Link} (h : SameLink link link') (h' : SameLink link' link'') :
    SameLink link link'' := by
  refine ⟨?_, Nat.le_trans h.2 h'.2⟩
  rw [h'.1, h.1]

theorem SameLink.id {link link' : Link} (h : SameLink link link') : link'.id = link.id := by
  rw [h.1]

/-- The right by which an operation takes a link away. -/
def ByRight (p : Pc) (link : Link) : Prop :=
  (∃ permitted, p = .delete link.shortCode permitted (.commit link) ∧ permitted link = true) ∨
    ∃ now deleted, p = .sweep (.select now deleted) ∧ link ∈ deleted ∧ link.isExpired now = true

/-- The row of a code is taken away, and the link that was judged for it has its identity. -/
def TakenByRight (svc : LinkServices) (lockKey : String → Int) (s₀ : System T) (past : List (Event T)) (c : ShortCode)
    (id : Uuid) (s : System T) (e : Event T) (s' : System T) : Prop :=
  s'.state.store.committed c = none ∧ ∃ t link, e = .step t ∧ link.shortCode = c ∧ link.id = id ∧
    Stood svc lockKey s₀ past link ∧ ByRight (s.state.procs t) link

theorem right_of_commit {link : Link} {q : Pc} {stood : Link → Prop} (h : Judged stood (s.state.procs t))
    (hnext : nextOf svc lockKey s t = some (.commit q)) (hlink : link ∈ removing (s.state.procs t)) :
    stood link ∧ ByRight (s.state.procs t) link := by
  unfold nextOf at hnext
  cases hp : s.state.procs t with
  | delete c permitted p =>
    rw [hp] at h hlink
    cases p with
    | commit link' =>
      obtain rfl := List.mem_singleton.mp hlink
      obtain ⟨rfl, hpermitted, hstood⟩ := h
      exact ⟨hstood, .inl ⟨permitted, rfl, hpermitted⟩⟩
    | _ => cases hlink
  | sweep p =>
    rw [hp] at h hlink hnext
    cases p with
    | select now deleted => exact ⟨(h link hlink).2, .inr ⟨now, deleted, rfl, hlink, (h link hlink).1⟩⟩
    | remove now chunk deleted =>
      cases chunk with
      | nil => cases hnext
      | cons link' chunk =>
        simp only [next, nextSweep, Option.some.injEq] at hnext
        split at hnext
        · split at hnext <;> cases hnext
        · cases hnext
    | _ => cases hlink
  | _ =>
    rw [hp] at hlink
    cases hlink

/-- **What a step does to a row**: it leaves the link as it is, counts an opening of it, or takes it away by right. -/
theorem step_links {c : ShortCode} {row : Row c} (h : Lawful svc lockKey s₀ es s) (hstep : step svc lockKey s e = some s')
    (hrow : s.state.store.committed c = some row) :
    (∃ row', s'.state.store.committed c = some row' ∧ SameLink row.val row'.val) ∨
      TakenByRight svc lockKey s₀ es c row.val.id s e s' := by
  have hsame : s'.state.store.committed c = s.state.store.committed c →
      ∃ row', s'.state.store.committed c = some row' ∧ SameLink row.val row'.val :=
    fun hc => ⟨row, hc.trans hrow, .refl _⟩
  rcases step_cases hstep with ⟨t, op, -, hact, -⟩ | ⟨t, a, rfl, hnext, hact, -⟩ | ⟨hstate, -⟩
  · exact .inl (hsame (act_committed hact (fun _ ha => by cases ha) c))
  · by_cases hcommit : ∃ q, a = .commit q
    · obtain ⟨q, rfl⟩ := hcommit
      have hstore := act_commit_store hact
      rcases h.wrote.committed t c with hpublished | hleft
      · rw [hrow] at hpublished
        rcases hpublished with ⟨-, row', now, hold, hnew⟩ | ⟨hgone, -⟩ | ⟨hno, -⟩
        · cases hold
          exact .inl ⟨counted now row, by rw [hstore, hnew], rfl, Nat.le_succ _⟩
        · right
          rcases h.names.committed t c with hnames | hleft
          · obtain ⟨row', link, hold, hlink, hcode, hid⟩ := hnames hgone
            rw [hrow] at hold
            cases hold
            obtain ⟨hstood, hright⟩ := right_of_commit (h.judged t) hnext hlink
            exact ⟨by rw [hstore, hgone], t, link, rfl, hcode, hid.symm, hstood, hright⟩
          · rw [hgone, hrow] at hleft
            cases hleft
        · cases hno
      · exact .inl (hsame (by rw [hstore, hleft]))
    · exact .inl (hsame (act_committed hact (fun q hq => hcommit ⟨q, hq⟩) c))
  · exact .inl (hsame (by rw [hstate]))

/-- **A link stays what it is until it is taken away by right.** Redirects, clicks, creations, batches, deletions and sweeps
run in any order from any database at rest. When a code leads to a link at one moment, then at any later moment it leads to
this link, with nothing changed but its counter and the time of its last opening; or a deletion has taken it away that was
permitted for a link with this identity and code, read from the table, or a sweep that had read it expired. -/
theorem links_stay_until_taken_by_right (hrest : AtRest s₀) {past later : List (Event T)} {s₁ s₂ : System T}
    (hpast : run (step svc lockKey) s₀ past = some s₁) (hlater : run (step svc lockKey) s₁ later = some s₂) {c : ShortCode}
    {row : Row c} (hrow : s₁.state.store.committed c = some row) :
    (∃ row', s₂.state.store.committed c = some row' ∧ SameLink row.val row'.val) ∨
      ∃ before e after s s', later = before ++ e :: after ∧ run (step svc lockKey) s₁ before = some s ∧
        step svc lockKey s e = some s' ∧ TakenByRight svc lockKey s₀ (past ++ before) c row.val.id s e s' := by
  refine run_history (I := fun later s₂ => (∃ row', s₂.state.store.committed c = some row' ∧ SameLink row.val row'.val) ∨
    ∃ before e after s s', later = before ++ e :: after ∧ run (step svc lockKey) s₁ before = some s ∧
      step svc lockKey s e = some s' ∧ TakenByRight svc lockKey s₀ (past ++ before) c row.val.id s e s')
    (.inl ⟨row, hrow, .refl _⟩) ?_ hlater
  intro es s e s' hes hstep h
  rcases h with ⟨row', hrow', hlink⟩ | ⟨before, e', after, s₃, s₄, rfl, hbefore, hstep', htaken⟩
  · have hlawful : Lawful svc lockKey s₀ (past ++ es) s := by
      refine lawful_run hrest ?_
      rw [run_append, hpast]
      exact hes
    rcases step_links hlawful hstep hrow' with ⟨row'', hrow'', hlink'⟩ | htaken
    · exact .inl ⟨row'', hrow'', hlink.trans hlink'⟩
    · rw [hlink.id] at htaken
      exact .inr ⟨es, e, [], s, s', rfl, hes, hstep, htaken⟩
  · exact .inr ⟨before, e', after ++ [e], s₃, s₄, List.append_assoc _ _ _, hbefore, hstep', htaken⟩

end Removals

/-! ### A link that is made and deleted -/

section Sample

def ownCode : ShortCode := ⟨"aaaaaa", isCode_aaaaaa⟩

/-- A guest shortens a URL under a code of their choice. -/
def creationOfOwn : Operation :=
  .createShortLink ⟨"https://one.example", "https://one.example", .guest (some "192.0.2.1"), none, some "192.0.2.1", 0,
    some ownCode⟩ ⟨fun n => n, fun _ _ => ownCode⟩

def madeEvents : List (Event Bool) := [.start true creationOfOwn] ++ steps true 9

/-- Somebody opens the link; then whoever made it deletes it. -/
def goneEvents : List (Event Bool) :=
  [.start true (.updateLinkStats ownCode)] ++ steps true 2 ++ [.start false (.deleteLink ownCode fun link => link.id = 0)] ++
    steps false 3

theorem madeEvents_run : (run (step sampleServices fun _ => 0) (System.empty 0) madeEvents).any (fun s =>
    (s.state.store.committed ownCode).isSome) = true := by
  decide +kernel

theorem goneEvents_run : (run (step sampleServices fun _ => 0) (System.empty 0) (madeEvents ++ goneEvents)).any (fun s =>
    (s.state.store.committed ownCode).isNone) = true := by
  decide +kernel

/-- The link is gone because a deletion was permitted for it. -/
theorem own_link_is_taken_by_right : ∃ s₁ row before e after s s', goneEvents = before ++ e :: after ∧
    run (step sampleServices fun _ => 0) (System.empty 0) madeEvents = some s₁ ∧
    s₁.state.store.committed ownCode = some row ∧ run (step sampleServices fun _ => 0) s₁ before = some s ∧
    step sampleServices (fun _ => 0) s e = some s' ∧
    TakenByRight sampleServices (fun _ => 0) (System.empty 0) (madeEvents ++ before) ownCode row.val.id s e s' := by
  obtain ⟨s₁, hmade, hthere⟩ := (Option.any_eq_true _ _).mp madeEvents_run
  obtain ⟨row, hrow⟩ := Option.isSome_iff_exists.mp hthere
  obtain ⟨s₂, hall, hgone⟩ := (Option.any_eq_true _ _).mp goneEvents_run
  rw [run_append, hmade, Option.bind_some] at hall
  rcases links_stay_until_taken_by_right (atRest_empty 0) hmade hall hrow with
    ⟨row', hrow', -⟩ | ⟨before, e, after, s, s', hevents, hbefore, hstep, htaken⟩
  · rw [hrow'] at hgone
    cases hgone
  · exact ⟨s₁, row, before, e, after, s, s', hevents, hmade, hrow, hbefore, hstep, htaken⟩

end Sample

end LinkShortener.Races
