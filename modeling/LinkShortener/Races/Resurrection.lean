import Mathlib.Data.Fintype.Basic
import LinkShortener.Races.Writes

/-!
# What the cache says of deleted links

* `toDrop`: the codes whose entries an operation is still going to drop: a deletion after its commit, a sweep after its
  commit, and the click task of a redirect until it has found the row.
* `Accounted`: a code has a row, or somebody is going to drop its entries. Every step keeps every cached code accounted
  for (`step_kept`), with one exception: a creation, or a redirect without a click task, that writes a link to the cache
  when the link has been deleted and its entries have been dropped.
* `deleted_links_stay_gone`: when none does so, and everything has come to an end, nothing is cached for a code that has
  no row.
* `deleted_link_comes_back`: those that do so.
-/

namespace LinkShortener.Races

open ReadCommitted Transactions Links Runs

/-- The codes an operation is going to drop from the cache. A redirect has filled the cache before it counts. -/
def toDrop : Pc → List ShortCode
  | .count c .update => [c]
  | .count c .dropRedirect => [c]
  | .count c .dropCode => [c]
  | .delete _ _ (.drop link) => [link.shortCode]
  | .sweep (.drop links) => links.map Link.shortCode
  | _ => []

/-- The code under which an operation is about to write to the cache, and will not look again: a creation, and a redirect
whose click task was not enqueued. -/
def filling : Pc → Option ShortCode
  | .redirect c false (.warm _) => some c
  | .redirect c false (.fill _) => some c
  | .create _ (.fillExisting link) => some link.shortCode
  | .create _ (.fillNew link) => some link.shortCode
  | _ => none

section Definitions

variable {T : Type}

/-- The code has a row, or its entries are going to be dropped. -/
def Accounted (s : System T) (c : ShortCode) : Prop :=
  (s.state.store.committed c).isSome = true ∨ ∃ t, c ∈ toDrop (s.state.procs t)

/-- The code that an event writes to the cache for good. -/
def filledBy (s : System T) : Event T → Option ShortCode
  | .step t => filling (s.state.procs t)
  | _ => none

/-- The cache is filled in time: the code still has a row, or its entries are going to be dropped. -/
def FillsInTime (s : System T) (e : Event T) : Prop := ∀ c ∈ filledBy s e, Accounted s c

/-- Everything that is cached is accounted for. -/
def Vouched (b : Backend) (s : System T) : Prop := b ≠ .null → s.state.mem.Vouches fun c _ _ => Accounted s c

end Definitions

section Steps

variable {T : Type} [DecidableEq T] {svc : LinkServices} {lockKey : String → Int} {s s' : System T} {t t' : T}

/-! ## What a step has to show -/

/-- The drops a step may not forget. What a step on the cache leaves cached was cached before, or will be dropped, or is
what is written for good; and it leaves nothing under a code that is now taken off the list. -/
def DropsAfter (b : Backend) (s : System T) (t : T) : Act → Prop
  | .goto p | .lock _ p | .write _ _ p | .rollback p =>
    ∀ c ∈ toDrop (s.state.procs t), c ∈ toDrop p ∨ (s.state.store.committed c).isSome = true
  | .touch cache p => b ≠ .null → ∀ P : ShortCode → Prop, (s.state.mem.Vouches fun c _ _ => P c) →
    (∀ c ∈ toDrop p, P c) → (∀ c, filling (s.state.procs t) = some c → P c) →
    cache.Vouches fun c _ _ => P c ∧ (c ∈ toDrop (s.state.procs t) → c ∈ toDrop p)
  | .commit p => toDrop (s.state.procs t) = [] ∧ ∀ link ∈ removing (s.state.procs t), link.shortCode ∈ toDrop p

/-- Steps that neither touch the cache nor publish anything. -/
def moves : Act → Bool
  | .touch _ _ | .commit _ => false
  | _ => true

omit [DecidableEq T] in
theorem dropsAfter_moves {b : Backend} {a : Act} (h : toDrop (s.state.procs t) = []) (ha : moves a = true) :
    DropsAfter b s t a := by
  have hnil : ∀ p, ∀ c ∈ toDrop (s.state.procs t), c ∈ toDrop p ∨ (s.state.store.committed c).isSome = true := by
    intro p c hc
    rw [h] at hc
    cases hc
  cases a with
  | touch cache p => cases ha
  | commit p => cases ha
  | goto p => exact hnil p
  | lock l p => exact hnil p
  | write c v p => exact hnil p
  | rollback p => exact hnil p

omit [DecidableEq T] in
/-- A step on the cache by an operation that has nothing to drop. -/
theorem dropsAfter_touch {b : Backend} {cache : Cache} {p : Pc} (h : toDrop (s.state.procs t) = [])
    (hcache : b ≠ .null → ∀ P : ShortCode → Prop, (s.state.mem.Vouches fun c _ _ => P c) → (∀ c ∈ toDrop p, P c) →
      (∀ c, filling (s.state.procs t) = some c → P c) → cache.Vouches fun c _ _ => P c) :
    DropsAfter b s t (.touch cache p) := by
  intro hb P hv hdrop hfill
  apply (hcache hb P hv hdrop hfill).mono
  intro c _ _ hp
  refine ⟨hp, ?_⟩
  rw [h]
  exact fun hc => absurd hc List.not_mem_nil

/-! ## The operations -/

/-- A redirect that fills the cache goes on to count the opening, or writes for good. -/
theorem drops_redirect {c : ShortCode} {enqueued : Bool} {p : RedirectPc c}
    (hp : s.state.procs t = .redirect c enqueued p) :
    DropsAfter svc.backend s t (nextRedirect svc (seenBy s t) c enqueued p) := by
  have hnil : toDrop (s.state.procs t) = [] := by
    rw [hp]
    rfl
  have hmark : ∀ P : ShortCode → Prop, (∀ c' ∈ toDrop (answer c enqueued), P c') → (enqueued = false → P c) → P c := by
    intro P hdrop hfill
    cases enqueued with
    | true => exact hdrop c (List.mem_singleton.mpr rfl)
    | false => exact hfill rfl
  cases p with
  | warm link =>
    refine dropsAfter_touch hnil fun _ P hv hdrop hfill => hv.saveRedirect (hmark P hdrop ?_)
    rintro rfl
    exact hfill c (by rw [hp]; rfl)
  | fill row =>
    refine dropsAfter_touch hnil fun _ P hv hdrop hfill => hv.save ?_
    rw [row.property]
    apply hmark P hdrop
    rintro rfl
    exact hfill c (by rw [hp]; rfl)
  | askRedirect =>
    simp only [nextRedirect]
    split
    · split <;> exact dropsAfter_moves hnil rfl
    · exact dropsAfter_moves hnil rfl
  | askCode =>
    simp only [nextRedirect]
    split
    · split <;> exact dropsAfter_moves hnil rfl
    · exact dropsAfter_moves hnil rfl
  | askTable =>
    simp only [nextRedirect]
    split
    · split <;> exact dropsAfter_moves hnil rfl
    · exact dropsAfter_moves hnil rfl

/-- The click task finds the row, or drops both levels. -/
theorem drops_count {c : ShortCode} {p : CountPc} (hw : Written Wrote s.state) (hp : s.state.procs t = .count c p) :
    DropsAfter svc.backend s t (nextCount svc (seenBy s t) c p) := by
  cases p with
  | update =>
    have hq : Quiet (s.state.procs t) := by
      rw [hp]
      exact ⟨rfl, rfl, rfl⟩
    simp only [nextCount]
    split
    · rename_i row hrow
      intro c' hc'
      rw [hp] at hc'
      cases List.mem_singleton.mp hc'
      have hcommitted : s.state.store.committed c = some row := (hq.view hw c).symm.trans hrow
      rw [hcommitted]
      exact .inr rfl
    · intro c' hc'
      rw [hp] at hc'
      exact .inl hc'
  | commit =>
    refine ⟨by rw [hp]; rfl, ?_⟩
    rw [hp]
    exact List.forall_mem_nil _
  | dropRedirect =>
    intro hb P hv _ _
    apply hv.deleteRedirect.mono
    intro c' _ _ hp'
    refine ⟨hp', ?_⟩
    rw [hp]
    exact id
  | dropCode =>
    intro hb P hv _ _
    apply (hv.deleteByCode hb).mono
    intro c' _ _ hp'
    refine ⟨hp'.1, ?_⟩
    rw [hp]
    intro hc'
    exact absurd (List.mem_singleton.mp hc') hp'.2
  | close =>
    refine dropsAfter_moves ?_ rfl
    rw [hp]
    rfl

theorem drops_delete {c : ShortCode} {permitted : Link → Bool} {p : DeletePc}
    (hp : s.state.procs t = .delete c permitted p) :
    DropsAfter svc.backend s t (nextDelete svc (seenBy s t) c permitted p) := by
  cases p with
  | drop link =>
    intro hb P hv _ _
    apply (hv.delete hb link).mono
    intro c' _ _ hp'
    refine ⟨hp'.1, ?_⟩
    rw [hp]
    intro hc'
    exact absurd (List.mem_singleton.mp hc') hp'.2
  | commit link =>
    refine ⟨by rw [hp]; rfl, ?_⟩
    rw [hp]
    intro l hl
    cases List.mem_singleton.mp hl
    exact List.mem_singleton.mpr rfl
  | find =>
    have hnil : toDrop (s.state.procs t) = [] := by rw [hp]; rfl
    simp only [nextDelete]
    split
    · split <;> exact dropsAfter_moves hnil rfl
    · exact dropsAfter_moves hnil rfl
  | remove link =>
    have hnil : toDrop (s.state.procs t) = [] := by rw [hp]; rfl
    simp only [nextDelete]
    split
    · split <;> exact dropsAfter_moves hnil rfl
    · exact dropsAfter_moves hnil rfl
  | dropMissing =>
    refine dropsAfter_touch (by rw [hp]; rfl) fun hb P hv _ _ => ?_
    exact (hv.deleteByCode hb).mono fun _ _ _ hp' => hp'.1
  | dropRedirect =>
    refine dropsAfter_touch (by rw [hp]; rfl) fun _ P hv _ _ => ?_
    exact hv.deleteRedirect
  | close => exact dropsAfter_moves (by rw [hp]; rfl) rfl

/-- A sweep drops what it reports, whoever has deleted it. -/
theorem drops_sweep {p : SweepPc} (hp : s.state.procs t = .sweep p) :
    DropsAfter svc.backend s t (nextSweep svc (seenBy s t) p) := by
  cases p with
  | begin => exact dropsAfter_moves (by rw [hp]; rfl) rfl
  | select now deleted =>
    have hnil : toDrop (s.state.procs t) = [] := by rw [hp]; rfl
    simp only [nextSweep]
    split
    · refine ⟨hnil, ?_⟩
      rw [hp]
      intro link hl
      exact List.mem_map_of_mem hl
    · exact dropsAfter_moves hnil rfl
  | remove now chunk deleted =>
    have hnil : toDrop (s.state.procs t) = [] := by rw [hp]; rfl
    cases chunk with
    | nil => exact dropsAfter_moves hnil rfl
    | cons link chunk =>
      simp only [nextSweep]
      split
      · split <;> exact dropsAfter_moves hnil rfl
      · exact dropsAfter_moves hnil rfl
  | drop deleted =>
    cases deleted with
    | nil => exact dropsAfter_moves (by rw [hp]; rfl) rfl
    | cons link deleted =>
      intro hb P hv _ _
      apply (hv.delete hb link).mono
      intro c _ _ hp'
      refine ⟨hp'.1, ?_⟩
      rw [hp]
      intro hc
      rcases List.mem_cons.mp hc with hc | hc
      · exact absurd hc hp'.2
      · exact hc

theorem moves_insertRow {v : Seen} {link : Link} {p : Pc} {conflict a : Act}
    (ha : insertRow v link p conflict = some a) (hconflict : moves conflict = true) : moves a = true := by
  unfold insertRow at ha
  split at ha
  · cases ha
    rfl
  · split at ha
    · cases ha
      exact hconflict
    · cases ha

/-- A creation drops what is stale and writes one link to the cache. -/
theorem drops_create {j : Creating} {p : CreatePc} {a : Act} (hp : s.state.procs t = .create j p)
    (ha : nextCreate svc lockKey (seenBy s t) j p = some a) : DropsAfter svc.backend s t a := by
  have hnil : toDrop (s.state.procs t) = [] := by rw [hp]; rfl
  cases p with
  | dropStale cached =>
    cases ha
    refine dropsAfter_touch hnil fun hb P hv _ _ => ?_
    exact (hv.delete hb cached).mono fun _ _ _ hp' => hp'.1
  | fillExisting existing =>
    cases ha
    refine dropsAfter_touch hnil fun _ P hv _ hfill => hv.save ?_
    exact hfill existing.shortCode (by rw [hp]; rfl)
  | fillNew link =>
    cases ha
    refine dropsAfter_touch hnil fun _ P hv _ hfill => hv.save ?_
    exact hfill link.shortCode (by rw [hp]; rfl)
  | commit link =>
    cases ha
    refine ⟨hnil, ?_⟩
    rw [hp]
    exact List.forall_mem_nil _
  | insert link => exact dropsAfter_moves hnil (moves_insertRow ha rfl)
  | askHash =>
    simp only [nextCreate] at ha
    split at ha <;> cases ha <;> exact dropsAfter_moves hnil rfl
  | confirm cached =>
    simp only [nextCreate] at ha
    split at ha <;> cases ha <;> exact dropsAfter_moves hnil rfl
  | search =>
    simp only [nextCreate] at ha
    split at ha
    · cases ha
      exact dropsAfter_moves hnil rfl
    · split at ha <;> cases ha <;> exact dropsAfter_moves hnil rfl
  | lock g =>
    cases ha
    exact dropsAfter_moves hnil rfl
  | count g =>
    simp only [nextCreate] at ha
    split at ha <;> cases ha <;> exact dropsAfter_moves hnil rfl
  | pick codes =>
    cases codes with
    | nil =>
      cases ha
      exact dropsAfter_moves hnil rfl
    | cons code codes =>
      simp only [nextCreate] at ha
      split at ha <;> cases ha <;> exact dropsAfter_moves hnil rfl
  | build code =>
    simp only [nextCreate] at ha
    split at ha <;> cases ha <;> exact dropsAfter_moves hnil rfl
  | close =>
    cases ha
    exact dropsAfter_moves hnil rfl

/-- A batch writes nothing to the cache. -/
theorem drops_batch {j : Batching} {p : BatchPc} {a : Act} (hp : s.state.procs t = .batch j p)
    (ha : nextBatch svc lockKey (seenBy s t) j p = some a) : DropsAfter svc.backend s t a := by
  have hnil : toDrop (s.state.procs t) = [] := by rw [hp]; rfl
  cases p with
  | dropStale stale missing =>
    cases stale with
    | nil =>
      cases ha
      exact dropsAfter_moves hnil rfl
    | cons link stale =>
      cases ha
      refine dropsAfter_touch hnil fun hb P hv _ _ => ?_
      exact (hv.delete hb link).mono fun _ _ _ hp' => hp'.1
  | insert done links =>
    cases links with
    | nil =>
      cases ha
      refine ⟨hnil, ?_⟩
      rw [hp]
      exact List.forall_mem_nil _
    | cons link links => exact dropsAfter_moves hnil (moves_insertRow ha rfl)
  | askHashes =>
    cases ha
    exact dropsAfter_moves hnil rfl
  | confirm cached =>
    cases ha
    exact dropsAfter_moves hnil rfl
  | search missing =>
    simp only [nextBatch] at ha
    split at ha <;> cases ha <;> exact dropsAfter_moves hnil rfl
  | lock g groups =>
    cases ha
    exact dropsAfter_moves hnil rfl
  | count g groups =>
    cases ha
    exact dropsAfter_moves hnil rfl
  | resolve groups r =>
    simp only [nextBatch] at ha
    split at ha <;> cases ha <;> exact dropsAfter_moves hnil rfl
  | build planned links =>
    cases planned with
    | nil =>
      cases ha
      exact dropsAfter_moves hnil rfl
    | cons p planned =>
      simp only [nextBatch] at ha
      split at ha <;> cases ha <;> exact dropsAfter_moves hnil rfl

/-- **No step forgets a drop.** -/
theorem drops_next {a : Act} (hw : Written Wrote s.state) (ha : nextOf svc lockKey s t = some a) :
    DropsAfter svc.backend s t a := by
  unfold nextOf at ha
  cases hp : s.state.procs t with
  | idle =>
    rw [hp] at ha
    cases ha
  | redirect c enqueued p =>
    rw [hp] at ha
    cases ha
    exact drops_redirect hp
  | count c p =>
    rw [hp] at ha
    cases ha
    exact drops_count hw hp
  | info c =>
    rw [hp] at ha
    cases ha
    exact dropsAfter_moves (by rw [hp]; rfl) rfl
  | delete c permitted p =>
    rw [hp] at ha
    cases ha
    exact drops_delete hp
  | sweep p =>
    rw [hp] at ha
    cases ha
    exact drops_sweep hp
  | create j p =>
    rw [hp] at ha
    exact drops_create hp ha
  | batch j p =>
    rw [hp] at ha
    exact drops_batch hp ha

/-! ## Runs -/

/-- A code stays accounted for unless the process that steps was to drop its entries and is not any more. -/
theorem accounted_within {a : Act} {c : ShortCode} (hact : act s.state t a = some s'.state) (hne : ∀ p, a ≠ .commit p)
    (h : Accounted s c)
    (hdrop : c ∈ toDrop (s.state.procs t) → c ∈ toDrop a.point ∨ (s.state.store.committed c).isSome = true) :
    Accounted s' c := by
  have hrow : (s.state.store.committed c).isSome = true → Accounted s' c := by
    intro hrow
    left
    rw [act_committed hact hne]
    exact hrow
  rcases h with hr | ⟨t', ht'⟩
  · exact hrow hr
  · by_cases ht : t' = t
    · subst ht
      rcases hdrop ht' with hc | hr
      · exact .inr ⟨t', by rw [act_procs_self hact]; exact hc⟩
      · exact hrow hr
    · exact .inr ⟨t', by rw [act_procs_ne hact ht]; exact ht'⟩

/-- A commit takes away no row without going on to drop its entries. -/
theorem accounted_commit {p : Pc} {c : ShortCode} (hw : Written Wrote s.state)
    (hact : act s.state t (.commit p) = some s'.state) (hnil : toDrop (s.state.procs t) = [])
    (hremove : ∀ link ∈ removing (s.state.procs t), link.shortCode ∈ toDrop p) (h : Accounted s c) :
    Accounted s' c := by
  have hself : s'.state.procs t = p := act_procs_self hact
  rcases h with hr | ⟨t', ht'⟩
  · obtain ⟨row, hrow⟩ := Option.isSome_iff_exists.mp hr
    have hstore : s'.state.store = s.state.store.commit t := by
      rw [← Option.some.inj hact]
    rcases hw.committed t c with hwrote | hsame
    · rw [← hstore] at hwrote
      rcases hwrote with ⟨-, _, _, -, hnew⟩ | ⟨-, link, hl, hcode⟩ | ⟨hnone, -⟩
      · left
        rw [hnew]
        rfl
      · refine .inr ⟨t, ?_⟩
        rw [hself, ← hcode]
        exact hremove link hl
      · rw [hrow] at hnone
        cases hnone
    · left
      rw [hstore, hsame]
      exact hr
  · have ht : t' ≠ t := by
      rintro rfl
      rw [hnil] at ht'
      cases ht'
    exact .inr ⟨t', by rw [act_procs_ne hact ht]; exact ht'⟩

/-- What a step has to show is enough to keep everything that is cached accounted for. -/
theorem vouched_act {b : Backend} {a : Act} (hw : Written Wrote s.state) (hact : act s.state t a = some s'.state)
    (hdrops : DropsAfter b s t a)
    (hfill : ∀ c, filling (s.state.procs t) = some c → Accounted s c) (hv : Vouched b s) :
    Vouched b s' := by
  intro hb
  have hsame : (∀ p, a ≠ .commit p) → s'.state.mem = s.state.mem →
      (∀ c ∈ toDrop (s.state.procs t), c ∈ toDrop a.point ∨ (s.state.store.committed c).isSome = true) →
      s'.state.mem.Vouches fun c _ _ => Accounted s' c := by
    intro hne hmem hdrop
    rw [hmem]
    exact (hv hb).mono fun c _ _ hc => accounted_within hact hne hc (hdrop c)
  cases a with
  | goto p => exact hsame (fun _ h => by cases h) (act_mem hact fun _ _ h => by cases h) hdrops
  | lock l p => exact hsame (fun _ h => by cases h) (act_mem hact fun _ _ h => by cases h) hdrops
  | write c v p => exact hsame (fun _ h => by cases h) (act_mem hact fun _ _ h => by cases h) hdrops
  | rollback p => exact hsame (fun _ h => by cases h) (act_mem hact fun _ _ h => by cases h) hdrops
  | commit p =>
    obtain ⟨hnil, hremove⟩ := hdrops
    have hmem : s'.state.mem = s.state.mem := act_mem hact fun _ _ h => by cases h
    rw [hmem]
    exact (hv hb).mono fun c _ _ hc => accounted_commit hw hact hnil hremove hc
  | touch cache p =>
    have hmem : s'.state.mem = cache := by
      rw [← Option.some.inj hact]
    have hcached := hdrops hb (fun c => Accounted s c ∨ c ∈ toDrop p) ((hv hb).mono fun _ _ _ hc => .inl hc)
      (fun c hc => .inr hc) (fun c hc => .inl (hfill c hc))
    rw [hmem]
    apply hcached.mono
    rintro c _ _ ⟨hc | hc, hlist⟩
    · exact accounted_within hact (fun _ h => by cases h) hc fun h => .inl (hlist h)
    · exact .inr ⟨t, by rw [act_procs_self hact]; exact hc⟩

/-- What holds in every state of a run in which the cache is filled in time. -/
structure Kept (b : Backend) (s : System T) : Prop where
  written : Written Wrote s.state
  vouched : Vouched b s

theorem step_kept {e : Event T} (hfill : FillsInTime s e) (h : step svc lockKey s e = some s')
    (hk : Kept svc.backend s) : Kept svc.backend s' := by
  refine ⟨step_written h hk.written, ?_⟩
  rcases step_cases h with ⟨t, op, hidle, hact, -⟩ | ⟨t, a, rfl, hnext, hact, -⟩ | ⟨hstate, -⟩
  · refine vouched_act hk.written hact (dropsAfter_moves ?_ rfl) ?_ hk.vouched
    · rw [hidle]
      rfl
    · rw [hidle]
      intro c hc
      cases hc
  · refine vouched_act hk.written hact (drops_next hk.written hnext) ?_ hk.vouched
    exact hfill
  · intro hb
    have hsame : ∀ c, Accounted s' c ↔ Accounted s c := by
      intro c
      unfold Accounted
      rw [hstate]
    rw [hstate]
    exact (hk.vouched hb).mono fun c _ _ hc => (hsame c).mpr hc

/-- **Deleted links stay gone when the cache is filled in time.** Start from a table and a cache that holds entries of
stored links only, run any operations in any order, and let every creation, and every redirect without a click task, that
writes to the cache find the code still there, or its entries still to be dropped. When everything has come to an end,
neither level of the cache answers for a code that has no row. -/
theorem deleted_links_stay_gone (svc : LinkServices) (lockKey : String → Int) (start s : System T)
    (hrest : AtRest start)
    (hcache : start.state.mem.Vouches fun c _ _ => (start.state.store.committed c).isSome = true)
    (events : List (Event T)) (hfills : Meets (step svc lockKey) FillsInTime start events)
    (h : run (step svc lockKey) start events = some s) (hidle : ∀ t, s.state.procs t = .idle) (c : ShortCode)
    (hgone : s.state.store.committed c = none) :
    s.state.mem.getRedirect svc.backend s.now c = none ∧ s.state.mem.getByCode svc.backend c = none := by
  have hstart : Kept svc.backend start := by
    refine ⟨hrest.written, fun _ => ?_⟩
    exact hcache.mono fun c _ _ hc => .inl hc
  have hkept := run_inv_of_meets (I := Kept svc.backend) step_kept hfills h hstart
  have hno : ¬Accounted s c := by
    rintro (hrow | ⟨t, ht⟩)
    · rw [hgone] at hrow
      cases hrow
    · rw [hidle t] at ht
      cases ht
  constructor
  · cases hr : s.state.mem.getRedirect svc.backend s.now c with
    | none => rfl
    | some entry =>
      obtain ⟨hb, hentry⟩ := Cache.getRedirect_some hr
      exact absurd ((hkept.vouched hb).redirects c entry hentry).2 hno
  · cases hl : s.state.mem.getByCode svc.backend c with
    | none => rfl
    | some link =>
      obtain ⟨hb, hlink⟩ := Cache.getByCode_some hl
      exact absurd ((hkept.vouched hb).byCode c link hlink) hno

end Steps

/-! ## A deleted link comes back -/

instance decidableAccounted {T : Type} [Fintype T] (s : System T) (c : ShortCode) : Decidable (Accounted s c) :=
  inferInstanceAs (Decidable (_ ∨ _))

instance decidableFillsInTime {T : Type} [Fintype T] (s : System T) (e : Event T) : Decidable (FillsInTime s e) :=
  inferInstanceAs (Decidable (∀ c ∈ filledBy s e, Accounted s c))

section Samples

def sampleCode : ShortCode := ⟨"aaaaaa", isCode_aaaaaa⟩

def sampleDraws : Draws := ⟨fun n => n, fun _ _ => ⟨"cccccc", isCode_cccccc⟩⟩

/-- A guest shortens a URL in a batch; `sampleCode` is its code. -/
def batchOfOne : Operation :=
  .batchCreateLinks ⟨[⟨"https://one.example", "https://one.example", ["https://one.example"]⟩],
    .guest (some "192.0.2.1"), none, some "192.0.2.1", 0⟩ sampleDraws

/-- The guest shortens the same URL by itself, under the code if it is a new link. -/
def creationOfOne : Operation :=
  .createShortLink ⟨"https://one.example", "https://one.example", .guest (some "192.0.2.1"), none, some "192.0.2.1", 0,
    some sampleCode⟩ sampleDraws

def deletionOfOne : Operation := .deleteLink sampleCode fun _ => true

/-- After the events everything is over, the code has no row, and both levels of the cache answer for it. -/
def ComesBack (events : List (Event Bool)) : Prop :=
  ∃ s, run (step sampleServices fun _ => 0) (System.empty 0) events = some s ∧ (∀ t, s.state.procs t = .idle) ∧
    s.state.store.committed sampleCode = none ∧
    s.state.mem.getRedirect sampleServices.backend s.now sampleCode ≠ none ∧
    s.state.mem.getByCode sampleServices.backend sampleCode ≠ none

theorem comesBack_of_run {events : List (Event Bool)}
    (h : (run (step sampleServices fun _ => 0) (System.empty 0) events).map (fun s =>
      ((s.state.procs false).isIdle, (s.state.procs true).isIdle, (s.state.store.committed sampleCode).isSome,
        (s.state.mem.getRedirect sampleServices.backend s.now sampleCode).isSome,
        (s.state.mem.getByCode sampleServices.backend sampleCode).isSome)) = some (true, true, false, true, true)) :
    ComesBack events := by
  obtain ⟨s, hs, heq⟩ := Option.map_eq_some_iff.mp h
  simp only [Prod.mk.injEq] at heq
  obtain ⟨hfalse, htrue, hrow, hredirect, hcode⟩ := heq
  refine ⟨s, hs, ?_, ?_, ?_, ?_⟩
  · intro t
    cases t with
    | false => exact Pc.eq_idle hfalse
    | true => exact Pc.eq_idle htrue
  · exact Option.not_isSome_iff_eq_none.mp (by rw [hrow]; exact Bool.false_ne_true)
  · exact Option.isSome_iff_ne_none.mp hredirect
  · exact Option.isSome_iff_ne_none.mp hcode

/-- A creation finds the link in the table, the link is deleted and its entries are dropped, and the creation writes it
to the cache. -/
def raceOfReuse : List (Event Bool) :=
  [.start false batchOfOne] ++ steps false 12 ++ [.start true creationOfOne] ++ steps true 2 ++
    [.start false deletionOfOne] ++ steps false 6 ++ steps true 2

/-- A creation commits its link, the link is deleted and its entries are dropped, and the creation writes it to the
cache. -/
def raceOfCreation : List (Event Bool) :=
  [.start true creationOfOne] ++ steps true 8 ++ [.start false deletionOfOne] ++ steps false 6 ++ steps true 1

/-- A redirect has read the row, the link is deleted and its entries are dropped, and the redirect fills the cache. Its
click task is not enqueued. -/
def raceOfUncountedRedirect : List (Event Bool) :=
  [.start false batchOfOne] ++ steps false 12 ++ [.start true (.redirectLink sampleCode false)] ++ steps true 3 ++
    [.start false deletionOfOne] ++ steps false 6 ++ steps true 1

/-- **Both ways in which a creation fills the cache bring a deleted link back**, and so does a redirect that is not
counted. -/
theorem deleted_link_comes_back :
    ComesBack raceOfReuse ∧ ComesBack raceOfCreation ∧ ComesBack raceOfUncountedRedirect := by
  refine ⟨?_, ?_, ?_⟩
  · apply comesBack_of_run
    decide +kernel
  · apply comesBack_of_run
    decide +kernel
  · apply comesBack_of_run
    decide +kernel

/-- A redirect has read the row and fills the cache after the deletion; its click task drops the entries. A redirect that is
not counted fills the cache while the row is there. -/
def raceOfRedirect : List (Event Bool) :=
  [.start false batchOfOne] ++ steps false 12 ++ [.start true (.redirectLink sampleCode true)] ++ steps true 3 ++
    [.start false (.redirectLink sampleCode false)] ++ steps false 4 ++ [.start false deletionOfOne] ++ steps false 6 ++
    steps true 5

theorem deleted_links_stay_gone_after_a_redirect :
    ∃ s, run (step sampleServices fun _ => 0) (System.empty 0) raceOfRedirect = some s ∧
      s.state.store.committed sampleCode = none ∧
      s.state.mem.getRedirect sampleServices.backend s.now sampleCode = none ∧
      s.state.mem.getByCode sampleServices.backend sampleCode = none := by
  have hrun : (run (step sampleServices fun _ => 0) (System.empty 0) raceOfRedirect).map (fun s =>
      ((s.state.procs false).isIdle, (s.state.procs true).isIdle, (s.state.store.committed sampleCode).isSome)) =
      some (true, true, false) := by
    decide +kernel
  have hfills : Meets (step sampleServices fun _ => 0) FillsInTime (System.empty 0) raceOfRedirect := by
    decide +kernel
  obtain ⟨s, hs, heq⟩ := Option.map_eq_some_iff.mp hrun
  simp only [Prod.mk.injEq] at heq
  obtain ⟨hfalse, htrue, hrow⟩ := heq
  have hidle : ∀ t, s.state.procs t = .idle := by
    intro t
    cases t with
    | false => exact Pc.eq_idle hfalse
    | true => exact Pc.eq_idle htrue
  have hgone : s.state.store.committed sampleCode = none :=
    Option.not_isSome_iff_eq_none.mp (by rw [hrow]; exact Bool.false_ne_true)
  have hcache := deleted_links_stay_gone sampleServices (fun _ => 0) (System.empty 0) s (atRest_empty 0) (.empty _)
    raceOfRedirect hfills hs hidle sampleCode hgone
  exact ⟨s, hs, hgone, hcache.1, hcache.2⟩

end Samples

end LinkShortener.Races
