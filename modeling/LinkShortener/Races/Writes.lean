import LinkShortener.Races.Model

/-!
# What the operations write

An operation counts an opening, takes links away or adds links; what it has not committed yet is one of these, by the
point it has reached (`Wrote`). Every step keeps that (`next_allowed`), and a commit publishes it.
-/

namespace LinkShortener.Races

open ReadCommitted Transactions Links

/-! ## Uncommitted rows -/

/-- An opening is counted and not committed. -/
def counting : Pc → Bool
  | .count _ .commit => true
  | _ => false

/-- The links that are taken away and not committed. -/
def removing : Pc → List Link
  | .delete _ _ (.commit link) => [link]
  | .sweep (.select _ deleted) => deleted
  | .sweep (.remove _ _ deleted) => deleted
  | _ => []

/-- The links that are added and not committed. -/
def adding : Pc → List Link
  | .create _ (.commit link) => [link]
  | .batch _ (.insert done _) => done
  | _ => []

/-- What an operation may have written over a committed row. -/
def Wrote (p : Pc) (c : ShortCode) (old new : Option (Row c)) : Prop :=
  (counting p = true ∧ ∃ row now, old = some row ∧ new = some (counted now row)) ∨
    (new = none ∧ ∃ link ∈ removing p, link.shortCode = c) ∨
    (old = none ∧ ∃ row : Row c, new = some row ∧ row.val ∈ adding p)

theorem Wrote.mono {p p' : Pc} (hcount : counting p = false) (hremove : removing p ⊆ removing p')
    (hadd : adding p ⊆ adding p') (c : ShortCode) (old new : Option (Row c)) (h : Wrote p c old new) :
    Wrote p' c old new := by
  rcases h with ⟨hc, -⟩ | ⟨rfl, link, hl, hcode⟩ | ⟨rfl, row, rfl, hrow⟩
  · rw [hcount] at hc
    cases hc
  · exact .inr (.inl ⟨rfl, link, hremove hl, hcode⟩)
  · exact .inr (.inr ⟨rfl, row, rfl, hadd hrow⟩)

section Steps

variable {T : Type} [DecidableEq T] {svc : LinkServices} {lockKey : String → Int} {s s' : System T} {t : T}

/-- An operation that takes nothing away and counts nothing sees a committed row as it is, or none. -/
theorem committed_of_view_none {c : ShortCode} (hw : Written Wrote s.state) (hremove : removing (s.state.procs t) = [])
    (hv : s.state.store.view t c = none) : s.state.store.committed c = none := by
  cases hd : s.state.store.dirtyBy t c with
  | none =>
    rw [Store.view_of_clean hd] at hv
    exact hv
  | some w =>
    rw [Store.view_of_dirtyBy hd] at hv
    subst hv
    rcases hw t c none hd with ⟨-, _, _, -, hno⟩ | ⟨-, link, hl, -⟩ | ⟨-, _, hno, -⟩
    · cases hno
    · rw [hremove] at hl
      cases hl
    · cases hno

/-- An operation that has written nothing. -/
def Quiet (p : Pc) : Prop := counting p = false ∧ removing p = [] ∧ adding p = []

theorem Quiet.clean (hq : Quiet (s.state.procs t)) (hw : Written Wrote s.state) (c : ShortCode) :
    s.state.store.dirtyBy t c = none := by
  cases hd : s.state.store.dirtyBy t c with
  | none => rfl
  | some w =>
    obtain ⟨hcount, hremove, hadd⟩ := hq
    rcases hw t c w hd with ⟨hc, -⟩ | ⟨-, _, hl, -⟩ | ⟨-, _, -, hl⟩
    · rw [hcount] at hc
      cases hc
    · rw [hremove] at hl
      cases hl
    · rw [hadd] at hl
      cases hl

theorem Quiet.view (hq : Quiet (s.state.procs t)) (hw : Written Wrote s.state) (c : ShortCode) :
    s.state.store.view t c = s.state.store.committed c := Store.view_of_clean (hq.clean hw c)

omit [DecidableEq T] in
/-- From a quiet point only a write has anything to show. -/
theorem Quiet.allowed {a : Act} (hq : Quiet (s.state.procs t))
    (hwrite : ∀ c v p, a = .write c v p → Wrote p c (s.state.store.committed c) v) : Allowed Wrote s.state t a := by
  have hmove : ∀ p' c old new, Wrote (s.state.procs t) c old new → Wrote p' c old new := by
    intro p' c old new
    apply Wrote.mono hq.1
    · rw [hq.2.1]
      exact List.nil_subset _
    · rw [hq.2.2]
      exact List.nil_subset _
  exact Allowed.of_keeps (fun _ => hmove a.point) hwrite

theorem allowed_redirect {c : ShortCode} {enqueued : Bool} {p : RedirectPc c}
    (hp : s.state.procs t = .redirect c enqueued p) :
    Allowed Wrote s.state t (nextRedirect svc (seenBy s t) c enqueued p) := by
  have hq : Quiet (s.state.procs t) := by
    rw [hp]
    exact ⟨rfl, rfl, rfl⟩
  apply hq.allowed
  intro c' v p' ha
  cases p with
  | askRedirect =>
    simp only [nextRedirect] at ha
    split at ha
    · split at ha <;> cases ha
    · cases ha
  | askCode =>
    simp only [nextRedirect] at ha
    split at ha
    · split at ha <;> cases ha
    · cases ha
  | warm link => cases ha
  | askTable =>
    simp only [nextRedirect] at ha
    split at ha
    · split at ha <;> cases ha
    · cases ha
  | fill row => cases ha

theorem allowed_count {c : ShortCode} {p : CountPc} (hw : Written Wrote s.state) (hp : s.state.procs t = .count c p) :
    Allowed Wrote s.state t (nextCount svc (seenBy s t) c p) := by
  cases p with
  | update =>
    have hq : Quiet (s.state.procs t) := by
      rw [hp]
      exact ⟨rfl, rfl, rfl⟩
    apply hq.allowed
    intro c' v p' ha
    simp only [nextCount] at ha
    split at ha
    · rename_i row hrow
      cases ha
      have hcommitted : s.state.store.committed c = some row := (hq.view hw c).symm.trans hrow
      exact .inl ⟨rfl, row, _, hcommitted, rfl⟩
    · cases ha
  | commit => trivial
  | dropRedirect =>
    have hq : Quiet (s.state.procs t) := by
      rw [hp]
      exact ⟨rfl, rfl, rfl⟩
    exact hq.allowed fun _ _ _ ha => by cases ha
  | dropCode =>
    have hq : Quiet (s.state.procs t) := by
      rw [hp]
      exact ⟨rfl, rfl, rfl⟩
    exact hq.allowed fun _ _ _ ha => by cases ha
  | close => trivial

theorem allowed_delete {c : ShortCode} {permitted : Link → Bool} {p : DeletePc}
    (hp : s.state.procs t = .delete c permitted p) :
    Allowed Wrote s.state t (nextDelete svc (seenBy s t) c permitted p) := by
  by_cases hcommit : ∃ link, p = .commit link
  · obtain ⟨link, rfl⟩ := hcommit
    trivial
  · have hq : Quiet (s.state.procs t) := by
      rw [hp]
      cases p with
      | commit link => exact absurd ⟨link, rfl⟩ hcommit
      | _ => exact ⟨rfl, rfl, rfl⟩
    apply hq.allowed
    intro c' v p' ha
    cases p with
    | find =>
      simp only [nextDelete] at ha
      split at ha
      · split at ha <;> cases ha
      · cases ha
    | remove link =>
      simp only [nextDelete] at ha
      split at ha
      · split at ha
        · cases ha
          exact .inr (.inl ⟨rfl, link, List.mem_singleton.mpr rfl, rfl⟩)
        · cases ha
      · cases ha
    | _ => cases ha

theorem allowed_sweep {p : SweepPc} (hp : s.state.procs t = .sweep p) :
    Allowed Wrote s.state t (nextSweep svc (seenBy s t) p) := by
  have hmove : ∀ {p' : SweepPc}, removing (.sweep p) ⊆ removing (.sweep p') →
      ∀ c old new, Wrote (s.state.procs t) c old new → Wrote (.sweep p') c old new := by
    intro p' hsub c old new h
    rw [hp] at h
    exact h.mono rfl hsub (List.nil_subset _)
  cases p with
  | begin => exact hmove (List.nil_subset _)
  | select now deleted =>
    simp only [nextSweep]
    split
    · trivial
    · exact hmove (List.Subset.refl _)
  | remove now chunk deleted =>
    cases chunk with
    | nil => exact hmove (List.Subset.refl _)
    | cons link chunk =>
      have hkeep : ∀ c old new, Wrote (s.state.procs t) c old new →
          Wrote (.sweep (.remove now chunk (deleted ++ [link]))) c old new := hmove (List.subset_append_left _ _)
      simp only [nextSweep]
      split
      · split
        · refine ⟨hkeep, .inr (.inl ⟨rfl, link, ?_, rfl⟩)⟩
          exact List.mem_append_right deleted (List.mem_singleton.mpr rfl)
        · exact hkeep
      · exact hkeep
  | drop deleted =>
    cases deleted with
    | nil =>
      intro c old new h
      rw [hp] at h
      exact h.mono rfl (List.nil_subset _) (List.nil_subset _)
    | cons link deleted => exact hmove (List.nil_subset _)

/-- An insertion goes under a code no committed row carries. -/
theorem insertRow_write {link : Link} {p : Pc} {conflict : Act} {c : ShortCode} {v : Option (Row c)} {p' : Pc}
    (h : insertRow (seenBy s t) link p conflict = some (.write c v p'))
    (hconflict : ∀ c v p', conflict ≠ .write c v p') :
    s.state.store.view t c = none ∧ p' = p ∧ ∃ row : Row c, v = some row ∧ row.val = link := by
  unfold insertRow at h
  split at h
  · rename_i hrow
    cases h
    exact ⟨hrow, rfl, _, rfl, rfl⟩
  · split at h
    · exact absurd (Option.some.inj h) (hconflict c v p')
    · cases h

theorem retryCreate_ne_write {j : Creating} (c : ShortCode) (v : Option (Row c)) (p : Pc) :
    retryCreate svc j ≠ .write c v p := by
  intro h
  cases h

theorem retryBatch_ne_write {j : Batching} (c : ShortCode) (v : Option (Row c)) (p : Pc) :
    retryBatch svc j ≠ .write c v p := by
  intro h
  cases h

/-- The only rows a creation writes are those it inserts. -/
theorem insert_of_write_create {v : Seen} {j : Creating} {p : CreatePc} {c : ShortCode} {new : Option (Row c)} {p' : Pc}
    (ha : nextCreate svc lockKey v j p = some (.write c new p')) : ∃ link, p = .insert link := by
  cases p with
  | insert link => exact ⟨link, rfl⟩
  | askHash => simp only [nextCreate] at ha; split at ha <;> cases ha
  | confirm cached => simp only [nextCreate] at ha; split at ha <;> cases ha
  | search =>
    simp only [nextCreate] at ha
    split at ha
    · cases ha
    · split at ha <;> cases ha
  | count guestId => simp only [nextCreate] at ha; split at ha <;> cases ha
  | pick codes =>
    cases codes with
    | nil => cases ha
    | cons code codes => simp only [nextCreate] at ha; split at ha <;> cases ha
  | build code => simp only [nextCreate] at ha; split at ha <;> cases ha
  | _ => cases ha

theorem insert_of_write_batch {v : Seen} {j : Batching} {p : BatchPc} {c : ShortCode} {new : Option (Row c)} {p' : Pc}
    (ha : nextBatch svc lockKey v j p = some (.write c new p')) :
    ∃ done link links, p = .insert done (link :: links) := by
  cases p with
  | insert done links =>
    cases links with
    | nil => cases ha
    | cons link links => exact ⟨done, link, links, rfl⟩
  | dropStale stale missing => cases stale <;> cases ha
  | search missing => simp only [nextBatch] at ha; split at ha <;> cases ha
  | resolve groups r => simp only [nextBatch] at ha; split at ha <;> cases ha
  | build planned links =>
    cases planned with
    | nil => cases ha
    | cons p planned => simp only [nextBatch] at ha; split at ha <;> cases ha
  | _ => cases ha

theorem allowed_create {j : Creating} {p : CreatePc} {a : Act} (hw : Written Wrote s.state)
    (hp : s.state.procs t = .create j p)
    (ha : nextCreate svc lockKey (seenBy s t) j p = some a) : Allowed Wrote s.state t a := by
  by_cases hcommit : ∃ link, p = .commit link
  · obtain ⟨link, rfl⟩ := hcommit
    cases ha
    trivial
  · have hq : Quiet (s.state.procs t) := by
      rw [hp]
      cases p with
      | commit link => exact absurd ⟨link, rfl⟩ hcommit
      | _ => exact ⟨rfl, rfl, rfl⟩
    apply hq.allowed
    intro c v p' hwrite
    subst hwrite
    obtain ⟨link, rfl⟩ := insert_of_write_create ha
    obtain ⟨hview, rfl, row, rfl, hrow⟩ := insertRow_write ha retryCreate_ne_write
    refine .inr (.inr ⟨(hq.view hw c).symm.trans hview, row, rfl, ?_⟩)
    rw [hrow]
    exact List.mem_singleton.mpr rfl

theorem allowed_batch {j : Batching} {p : BatchPc} {a : Act} (hw : Written Wrote s.state)
    (hp : s.state.procs t = .batch j p)
    (ha : nextBatch svc lockKey (seenBy s t) j p = some a) : Allowed Wrote s.state t a := by
  by_cases hinsert : ∃ done links, p = .insert done links
  · obtain ⟨done, links, rfl⟩ := hinsert
    cases links with
    | nil =>
      cases ha
      trivial
    | cons link links =>
      have hremove : removing (s.state.procs t) = [] := by
        rw [hp]
        rfl
      cases a with
      | write c v p' =>
        obtain ⟨hview, rfl, row, rfl, hrow⟩ := insertRow_write ha retryBatch_ne_write
        refine ⟨?_, .inr (.inr ⟨committed_of_view_none hw hremove hview, row, rfl, ?_⟩)⟩
        · rw [hp]
          exact fun c old new => Wrote.mono rfl (List.nil_subset _) (List.subset_cons_self _ _) c old new
        · rw [hrow]
          exact List.mem_cons_self
      | commit p' => trivial
      | rollback p' => trivial
      | _ =>
        simp only [nextBatch, insertRow] at ha
        split at ha
        · cases ha
        · split at ha <;> cases ha
  · have hq : Quiet (s.state.procs t) := by
      rw [hp]
      cases p with
      | insert done links => exact absurd ⟨done, links, rfl⟩ hinsert
      | _ => exact ⟨rfl, rfl, rfl⟩
    apply hq.allowed
    intro c v p' hwrite
    subst hwrite
    obtain ⟨done, link, links, rfl⟩ := insert_of_write_batch ha
    exact absurd ⟨done, link :: links, rfl⟩ hinsert

/-- **Every step writes what it may.** -/
theorem next_allowed {a : Act} (hw : Written Wrote s.state) (ha : nextOf svc lockKey s t = some a) :
    Allowed Wrote s.state t a := by
  unfold nextOf at ha
  cases hp : s.state.procs t with
  | idle =>
    rw [hp] at ha
    cases ha
  | redirect c enqueued p =>
    rw [hp] at ha
    cases ha
    exact allowed_redirect hp
  | count c p =>
    rw [hp] at ha
    cases ha
    exact allowed_count hw hp
  | info c =>
    rw [hp] at ha
    cases ha
    have hq : Quiet (s.state.procs t) := by
      rw [hp]
      exact ⟨rfl, rfl, rfl⟩
    exact hq.allowed fun _ _ _ ha => by cases ha
  | delete c permitted p =>
    rw [hp] at ha
    cases ha
    exact allowed_delete hp
  | sweep p =>
    rw [hp] at ha
    cases ha
    exact allowed_sweep hp
  | create j p =>
    rw [hp] at ha
    exact allowed_create hw hp ha
  | batch j p =>
    rw [hp] at ha
    exact allowed_batch hw hp ha

/-- What is written and not committed is what the operations may write. -/
theorem step_written {e : Event T} (h : step svc lockKey s e = some s') (hw : Written Wrote s.state) :
    Written Wrote s'.state := by
  rcases step_cases h with ⟨t, op, hidle, hact, -⟩ | ⟨t, a, -, hnext, hact, -⟩ | ⟨hsame, -⟩
  · refine hw.act ?_ hact
    have hq : Quiet (s.state.procs t) := by
      rw [hidle]
      exact ⟨rfl, rfl, rfl⟩
    exact hq.allowed fun _ _ _ ha => by cases ha
  · exact hw.act (next_allowed hw hnext) hact
  · rw [hsame]
    exact hw

theorem AtRest.written (hrest : AtRest s) : Written Wrote s.state := .of_clean hrest.clean

end Steps

end LinkShortener.Races
