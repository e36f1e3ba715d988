import Mathlib.Data.Fintype.Basic
import LinkShortener.Visits.Tasks

/-!
# Visits that are committed late

A visit is stamped before its transaction commits. A fold that reads the visits in between, after midnight, folds the day
without it, and no later fold goes back to that day.

* `FoldsInTime`: when a fold reads the visits, no visit with an older stamp is still uncommitted.
* `Sound`: the tables are a faithful book of the visits that were committed, folded up to a day which no uncommitted visit
  and no visit that is still to be stamped comes before. `step_sound`: a step that meets the condition keeps it.
* `visits_are_counted_once`: every committed visit is counted on its day, in every state of such a run.
* `late_visit_is_not_counted`: what happens otherwise.
-/

namespace LinkShortener.VisitTasks

open ReadCommitted Transactions Folding Links Ledger Runs
open Visits (LinkVisit VisitsOnADay dailyTotals)

/-! ## What the tasks have written -/

/-- The visit a task has stamped and not yet committed. -/
def Pc.stamped : Pc → Option LinkVisit
  | .stats _ _ _ (.insert visit) => some visit
  | .stats _ _ _ (.commit visit) => visit
  | _ => none

/-- The rows of the statistics. -/
def Statistic : Key → Prop
  | .link _ => False
  | _ => True

/-- The visit a task has written, or the visits it has deleted. -/
def ownVisit : Pc → Uuid → Option (Option LinkVisit)
  | .stats _ id _ (.commit (some visit)) => fun id' => if id' = id then some (some visit) else none
  | .rollUp _ (.delete _ done _) => fun id => if id ∈ done then some none else none
  | _ => fun _ => none

/-- The days a task has written. -/
def ownDay : Pc → Uuid → Instant → Option (Option (Nat × Nat))
  | .rollUp _ (.insert _ done _) => fun linkId day =>
    (done.find? fun r => decide (r.linkId = linkId ∧ r.day = day)).map fun r => some (r.total, r.bots)
  | _ => fun _ _ => none

/-- What a task has written to the statistics. -/
def own (p : Pc) : (k : Key) → Option (Option (Value k))
  | .link _ => none
  | .visit id => ownVisit p id
  | .day linkId day => ownDay p linkId day

section Written

variable {v : Seen} {p p' : Pc} {a : Act}

theorem own_congr (hvisit : ownVisit p = ownVisit p') (hday : ownDay p = ownDay p') (k : Key) : own p k = own p' k := by
  cases k with
  | link c => rfl
  | visit id => exact congrFun hvisit id
  | day linkId day => exact congrFun (congrFun hday linkId) day

theorem own_none (hvisit : ownVisit p = fun _ => none) (hday : ownDay p = fun _ _ => none) (k : Key) :
    own p k = none := by
  have hidle : own p k = own .idle k := own_congr hvisit hday k
  rw [hidle]
  cases k <;> rfl

theorem own_statistic {k : Key} (h : own p k ≠ none) : Statistic k := by
  cases k with
  | link c => exact h rfl
  | visit id => trivial
  | day linkId day => trivial

theorem tracked_insertRow {k : Key} {row : Value k} {p₀ p : Pc} (h : insertRow v k row p = some a)
    (hk : own p k = some (some row)) (hother : ∀ k', k' ≠ k → own p k' = own p₀ k') : Tracked Statistic own p₀ a := by
  unfold insertRow at h
  split at h
  · cases h
    exact ⟨fun _ => hk, fun k' hne _ => hother k' hne⟩
  · split at h
    · cases h
      exact fun k _ => own_none rfl rfl k
    · cases h

/-- A task knows what it has written. -/
theorem next_tracked (h : next v p = some a) : Tracked Statistic own p a := by
  cases p with
  | idle => cases h
  | stats c id isBot p =>
    cases p with
    | update =>
      simp only [next, nextStats] at h
      split at h
      · cases h
        exact ⟨False.elim, fun k _ _ => own_congr rfl rfl k⟩
      · cases h
        exact fun k _ => own_none rfl rfl k
    | find =>
      simp only [next, nextStats] at h
      split at h
      · cases h
        exact fun k _ => own_congr rfl rfl k
      · cases h
        exact fun k _ => own_congr rfl rfl k
    | record link =>
      cases h
      exact fun k _ => own_congr rfl rfl k
    | insert visit =>
      refine tracked_insertRow h (if_pos rfl) ?_
      intro k' hne
      cases k' with
      | visit id' =>
        have hid : ¬ id' = id := by
          rintro rfl
          exact hne rfl
        exact if_neg hid
      | link c => rfl
      | day linkId day => rfl
    | commit visit =>
      cases h
      exact fun k _ => own_none rfl rfl k
  | rollUp retentionDays p =>
    cases p with
    | begin =>
      cases h
      exact fun k _ => own_congr rfl rfl k
    | latest today =>
      cases h
      exact fun k _ => own_congr rfl rfl k
    | group today since =>
      cases h
      exact fun k _ => own_congr rfl rfl k
    | insert today done rest =>
      cases rest with
      | nil =>
        cases h
        intro k _
        by_cases hpos : 0 < retentionDays
        · rw [if_pos hpos]
          exact own_none rfl rfl k
        · rw [if_neg hpos]
          exact own_none rfl rfl k
      | cons r rest =>
        refine tracked_insertRow h ?_ ?_
        · simp [own, ownDay]
        · intro k' hne
          cases k' with
          | day linkId day =>
            have hr : ¬ (r.linkId = linkId ∧ r.day = day) := by
              rintro ⟨rfl, rfl⟩
              exact hne rfl
            simp only [own, ownDay]
            rw [List.find?_cons_of_neg (by simpa using hr)]
          | link c => rfl
          | visit id => rfl
    | sweep cutoff =>
      cases h
      exact fun k _ => own_congr (by simp [ownVisit]) rfl k
    | delete cutoff done rest =>
      cases rest with
      | nil =>
        cases h
        exact fun k _ => own_none rfl rfl k
      | cons id rest =>
        simp only [next, nextRollUp] at h
        split at h
        · split at h
          · cases h
            refine ⟨fun _ => if_pos List.mem_cons_self, ?_⟩
            intro k' hne _
            cases k' with
            | visit id' =>
              have hid : ¬ id' = id := by
                rintro rfl
                exact hne rfl
              simp only [own, ownVisit, List.mem_cons, hid, false_or]
            | link c => rfl
            | day linkId day => rfl
          · cases h
            exact fun k _ => own_congr rfl rfl k
        · cases h
          exact fun k _ => own_congr rfl rfl k

end Written

/-! ## The condition and the invariant -/

/-- The midnight before which a fold is about to read the visits. -/
def readsBefore {T : Type} (s : System T) : Event T → Option Instant
  | .step t =>
    match s.state.procs t with
    | .rollUp _ (.group today _) => some today
    | _ => none
  | _ => none

/-- **When a fold reads the visits, no visit from before its midnight is still uncommitted.** -/
def FoldsInTime {T : Type} (s : System T) (e : Event T) : Prop :=
  ∀ today ∈ readsBefore s e, ∀ t, ∀ visit ∈ (s.state.procs t).stamped, today ≤ visit.occurredAt

/-- The rows come from all the visits there are between day `F` and day `d`, and from older ones. -/
structure HasRead (recorded : List LinkVisit) (F d : Int) (rows : List VisitsOnADay) : Prop where
  due : ∃ due : List LinkVisit, rows.Perm (dayRows layout due) ∧ (∀ v ∈ due, v ∈ recorded ∧ layout.view.day v < d) ∧
    (due.filter fun v => decide (F ≤ layout.view.day v)).Perm
      ((recorded.filter fun v => decide (F ≤ layout.view.day v)).filter fun v => decide (layout.view.day v < d))

section Fine

variable {T : Type}

/-- What a task relies on when days before `F` are folded. -/
def Fine (s : System T) (F : Int) : Pc → Prop
  | .stats _ id _ (.commit (some _)) => s.state.store.committed (.visit id) = none
  | .rollUp _ (.latest today) => ∃ d ≤ dayOf s.now, today = midnight d
  | .rollUp _ (.group today since) =>
    (∃ d ≤ dayOf s.now, today = midnight d) ∧ ∀ x, since = some x → ∃ m < F, x = midnight (m + 1)
  | .rollUp _ (.insert today done rest) =>
    ∃ d ≤ dayOf s.now, today = midnight d ∧ HasRead s.recorded F d (done ++ rest) ∧
      (∀ r ∈ done, s.state.store.committed (.day r.linkId r.day) = none) ∧
      ∀ t visit, (s.state.procs t).stamped = some visit → d ≤ layout.view.day visit
  | .rollUp _ (.sweep cutoff) => ∃ c ≤ F, cutoff = midnight c
  | .rollUp _ (.delete cutoff done _) =>
    (∃ c ≤ F, cutoff = midnight c) ∧
      ∀ id ∈ done, ∀ visit, s.state.store.committed (.visit id) = some visit → visit.occurredAt < cutoff
  | _ => True

/-- The tables account for the visits that were committed, and no visit is still to come from a day that is folded. -/
structure Sound [DecidableEq T] (s : System T) : Prop where
  owned : Owned Statistic own s.state
  clock : 0 ≤ s.now
  dated : Dated (tables s)
  stamps : ∀ v ∈ s.recorded, 0 ≤ v.occurredAt
  floor : ∃ F ≤ dayOf s.now, Faithful layout.view (book (tables s)) s.recorded F ∧
    (∀ t visit, (s.state.procs t).stamped = some visit → 0 ≤ visit.occurredAt ∧ F ≤ layout.view.day visit) ∧
    ∀ t, Fine s F (s.state.procs t)

theorem HasRead.mono {recorded : List LinkVisit} {F F' d : Int} {rows : List VisitsOnADay}
    (h : HasRead recorded F d rows) (hF : F ≤ F') : HasRead recorded F' d rows := by
  obtain ⟨due, hrows, hbefore, hperm⟩ := h.due
  have hlate : ∀ xs : List LinkVisit, xs.filter (fun v => decide (F' ≤ layout.view.day v)) =
      (xs.filter fun v => decide (F ≤ layout.view.day v)).filter fun v => decide (F' ≤ layout.view.day v) := by
    intro xs
    rw [List.filter_filter]
    apply List.filter_congr
    intro v _
    by_cases hv : F' ≤ layout.view.day v
    · simp [hv, Int.le_trans hF hv]
    · simp [hv]
  refine ⟨due, hrows, hbefore, ?_⟩
  rw [hlate due, hlate recorded]
  exact (hperm.filter _).trans (List.Perm.of_eq (List.filter_comm _ _ _))

/-- A visit that is committed later is not from before that day. -/
theorem HasRead.record {recorded : List LinkVisit} {F d : Int} {rows : List VisitsOnADay}
    (h : HasRead recorded F d rows) {visit : LinkVisit} (hvisit : d ≤ layout.view.day visit) :
    HasRead (visit :: recorded) F d rows := by
  obtain ⟨due, hrows, hbefore, hperm⟩ := h.due
  refine ⟨due, hrows, fun v hv => ⟨List.mem_cons_of_mem visit (hbefore v hv).1, (hbefore v hv).2⟩, ?_⟩
  have hlate : ¬ layout.view.day visit < d := by omega
  have hsame : ((visit :: recorded).filter fun v => decide (F ≤ layout.view.day v)).filter
      (fun v => decide (layout.view.day v < d)) =
        (recorded.filter fun v => decide (F ≤ layout.view.day v)).filter fun v => decide (layout.view.day v < d) := by
    rw [List.filter_filter, List.filter_filter, List.filter_cons_of_neg (by simp [hlate])]
  rw [hsame]
  exact hperm

/-- What a task relies on is left alone by the steps of the others. -/
theorem Fine.frame {s s' : System T} {F F' : Int} {p : Pc} (h : Fine s F p) (hF : F ≤ F') (hnow : s.now ≤ s'.now)
    (hrecorded : s'.recorded = s.recorded ∨
      ∃ t visit, (s.state.procs t).stamped = some visit ∧ s'.recorded = visit :: s.recorded)
    (hstamped : ∀ t visit, (s'.state.procs t).stamped = some visit →
      (∃ t', (s.state.procs t').stamped = some visit) ∨ dayOf s.now ≤ layout.view.day visit)
    (hcommitted : ∀ k, own p k ≠ none → s'.state.store.committed k = s.state.store.committed k) : Fine s' F' p := by
  have hday : dayOf s.now ≤ dayOf s'.now := dayOf_mono hnow
  cases p with
  | idle => trivial
  | stats c id isBot p =>
    cases p with
    | commit visit =>
      cases visit with
      | none => trivial
      | some visit =>
        show s'.state.store.committed (.visit id) = none
        rw [hcommitted (.visit id) (by simp [own, ownVisit])]
        exact h
    | _ => trivial
  | rollUp retentionDays p =>
    cases p with
    | begin => trivial
    | latest today =>
      obtain ⟨d, hd, htoday⟩ := h
      exact ⟨d, hd.trans hday, htoday⟩
    | group today since =>
      obtain ⟨⟨d, hd, htoday⟩, hsince⟩ := h
      refine ⟨⟨d, hd.trans hday, htoday⟩, ?_⟩
      intro x hx
      obtain ⟨m, hm, hmidnight⟩ := hsince x hx
      exact ⟨m, by omega, hmidnight⟩
    | insert today done rest =>
      obtain ⟨d, hd, htoday, hread, hdone, hpending⟩ := h
      refine ⟨d, hd.trans hday, htoday, ?_, ?_, ?_⟩
      · rcases hrecorded with hsame | ⟨t, visit, hvisit, hmore⟩
        · rw [hsame]
          exact hread.mono hF
        · rw [hmore]
          exact (hread.mono hF).record (hpending t visit hvisit)
      · intro r hr
        rw [hcommitted, hdone r hr]
        simp only [own, ownDay, ne_eq, Option.map_eq_none_iff, List.find?_eq_none]
        intro hnone
        exact hnone r hr (by simp)
      · intro t visit hvisit
        rcases hstamped t visit hvisit with ⟨t', hold⟩ | hnew
        · exact hpending t' visit hold
        · exact hd.trans hnew
    | sweep cutoff =>
      obtain ⟨c, hc, hcutoff⟩ := h
      exact ⟨c, hc.trans hF, hcutoff⟩
    | delete cutoff done rest =>
      obtain ⟨⟨c, hc, hcutoff⟩, hdone⟩ := h
      refine ⟨⟨c, hc.trans hF, hcutoff⟩, ?_⟩
      intro id hid visit hvisit
      rw [hcommitted (.visit id) (by simp [own, ownVisit, hid])] at hvisit
      exact hdone id hid visit hvisit

end Fine

/-! ## What a step does to the tables -/

section Tables

variable {T : Type} {s s' : System T}

theorem tables_congr (h : committedRows s' = committedRows s) : tables s' = tables s := by
  unfold tables visitRows days
  simp only [h]

theorem visitRows_perm {rows : List (Uuid × LinkVisit)} (hn : rows.Nodup)
    (h : ∀ id visit, (id, visit) ∈ rows ↔ s.state.store.committed (.visit id) = some visit) :
    (visitRows s).Perm rows := by
  rw [List.perm_ext_iff_of_nodup (nodup_visitRows s) hn]
  rintro ⟨id, visit⟩
  rw [mem_visitRows, h]

theorem days_perm {rows : List VisitsOnADay} (hn : rows.Nodup)
    (h : ∀ r, r ∈ rows ↔ s.state.store.committed (.day r.linkId r.day) = some (r.total, r.bots)) :
    (days s).Perm rows := by
  rw [List.perm_ext_iff_of_nodup (nodup_days s).of_map hn]
  intro r
  rw [mem_days, h]

end Tables

section Steps

variable {T : Type} [DecidableEq T] {s s' : System T} {t : T} {a : Act}

/-- What an action other than a commit has to show. -/
theorem Sound.quiet (hs : Sound s) (htracked : Tracked Statistic own (s.state.procs t) a)
    (hact : act s.state t a = some s'.state) (hne : ∀ p, a ≠ .commit p) (hnow : s'.now = s.now)
    (hrecorded : s'.recorded = s.recorded)
    (hstamped : ∀ visit, a.point.stamped = some visit →
      (s.state.procs t).stamped = some visit ∨ 0 ≤ visit.occurredAt ∧ dayOf s.now ≤ layout.view.day visit)
    (hfine : ∀ F ≤ dayOf s.now, Faithful layout.view (book (tables s)) s.recorded F →
      (∀ t visit, (s.state.procs t).stamped = some visit → 0 ≤ visit.occurredAt ∧ F ≤ layout.view.day visit) →
      Fine s F (s.state.procs t) → Fine s F a.point) : Sound s' := by
  have htables : tables s' = tables s := tables_congr (act_rowsBy hact hne)
  have hcommitted : ∀ k, s'.state.store.committed k = s.state.store.committed k := act_committed hact hne
  obtain ⟨F, hF, hfaithful, hpending, hprocs⟩ := hs.floor
  have hold : ∀ t' visit, (s'.state.procs t').stamped = some visit →
      (∃ t₀, (s.state.procs t₀).stamped = some visit) ∨ 0 ≤ visit.occurredAt ∧ dayOf s.now ≤ layout.view.day visit := by
    intro t' visit hvisit
    by_cases ht : t' = t
    · subst ht
      rw [act_procs_self hact] at hvisit
      rcases hstamped visit hvisit with hsame | hnew
      · exact .inl ⟨t', hsame⟩
      · exact .inr hnew
    · rw [act_procs_ne hact ht] at hvisit
      exact .inl ⟨t', hvisit⟩
  refine ⟨hs.owned.act htracked hact, ?_, ?_, ?_, F, ?_, ?_, ?_, ?_⟩
  · rw [hnow]
    exact hs.clock
  · rw [htables]
    exact hs.dated
  · rw [hrecorded]
    exact hs.stamps
  · rw [hnow]
    exact hF
  · rw [htables, hrecorded]
    exact hfaithful
  · intro t' visit hvisit
    rcases hold t' visit hvisit with ⟨t₀, hsame⟩ | ⟨hpositive, hnew⟩
    · exact hpending t₀ visit hsame
    · exact ⟨hpositive, hF.trans hnew⟩
  · intro t'
    have hframe : ∀ {p}, Fine s F p → Fine s' F p := by
      intro p hp
      refine hp.frame le_rfl (le_of_eq hnow.symm) (.inl hrecorded) ?_ fun k _ => hcommitted k
      intro t' visit hvisit
      exact (hold t' visit hvisit).imp_right And.right
    by_cases ht : t' = t
    · subst ht
      rw [act_procs_self hact]
      exact hframe (hfine F hF hfaithful hpending (hprocs t'))
    · rw [act_procs_ne hact ht]
      exact hframe (hprocs t')

/-- A task goes where it relies on nothing. -/
theorem Sound.passes (hs : Sound s) (htracked : Tracked Statistic own (s.state.procs t) a)
    (hact : act s.state t a = some s'.state) (hne : ∀ p, a ≠ .commit p) (hnow : s'.now = s.now)
    (hrecorded : s'.recorded = s.recorded) (hstamped : a.point.stamped = none) (hfine : ∀ F, Fine s F a.point) :
    Sound s' := by
  refine hs.quiet htracked hact hne hnow hrecorded ?_ fun F _ _ _ _ => hfine F
  intro visit hvisit
  rw [hstamped] at hvisit
  cases hvisit

/-- What a commit has to show. -/
theorem Sound.commits {p : Pc} (hs : Sound s) (hact : act s.state t (.commit p) = some s'.state) (hnow : s'.now = s.now)
    (hown : ∀ k, Statistic k → own p k = none) (hstamped : p.stamped = none)
    (hrecorded : s'.recorded = s.recorded ∨
      ∃ visit, (s.state.procs t).stamped = some visit ∧ s'.recorded = visit :: s.recorded)
    (hfloor : ∀ F ≤ dayOf s.now, Faithful layout.view (book (tables s)) s.recorded F →
      (∀ t visit, (s.state.procs t).stamped = some visit → 0 ≤ visit.occurredAt ∧ F ≤ layout.view.day visit) →
      Fine s F (s.state.procs t) → Dated (tables s') ∧ ∃ F' ≤ dayOf s.now, F ≤ F' ∧
        Faithful layout.view (book (tables s')) s'.recorded F' ∧
        (∀ t visit, (s.state.procs t).stamped = some visit → F' ≤ layout.view.day visit) ∧ Fine s' F' p) : Sound s' := by
  obtain ⟨F, hF, hfaithful, hpending, hprocs⟩ := hs.floor
  obtain ⟨hdated, F', hF', hle, hfaithful', hpending', hself⟩ := hfloor F hF hfaithful hpending (hprocs t)
  have hold : ∀ t' visit, (s'.state.procs t').stamped = some visit → ∃ t₀, (s.state.procs t₀).stamped = some visit := by
    intro t' visit hvisit
    by_cases ht : t' = t
    · subst ht
      rw [act_procs_self hact] at hvisit
      rw [Action.point, hstamped] at hvisit
      cases hvisit
    · rw [act_procs_ne hact ht] at hvisit
      exact ⟨t', hvisit⟩
  refine ⟨hs.owned.act (a := .commit p) hown hact, ?_, hdated, ?_, F', ?_, hfaithful', ?_, ?_⟩
  · rw [hnow]
    exact hs.clock
  · intro v hv
    rcases hrecorded with hsame | ⟨visit, hvisit, hmore⟩
    · rw [hsame] at hv
      exact hs.stamps v hv
    · rw [hmore] at hv
      rcases List.mem_cons.mp hv with rfl | hv
      · exact (hpending t v hvisit).1
      · exact hs.stamps v hv
  · rw [hnow]
    exact hF'
  · intro t' visit hvisit
    obtain ⟨t₀, hvisit⟩ := hold t' visit hvisit
    exact ⟨(hpending t₀ visit hvisit).1, hpending' t₀ visit hvisit⟩
  · intro t'
    by_cases ht : t' = t
    · subst ht
      rw [act_procs_self hact]
      exact hself
    · rw [act_procs_ne hact ht]
      refine (hprocs t').frame hle (le_of_eq hnow.symm) ?_ ?_ ?_
      · rcases hrecorded with hsame | ⟨visit, hvisit, hmore⟩
        · exact .inl hsame
        · exact .inr ⟨t, visit, hvisit, hmore⟩
      · intro t₀ visit hvisit
        exact .inl (hold t₀ visit hvisit)
      · intro k hk
        -- What the others have written is nothing of what this one commits.
        have hstat := own_statistic hk
        have hnone : own (s.state.procs t) k = none := by
          cases hw : own (s.state.procs t) k with
          | none => rfl
          | some w =>
            obtain ⟨w', hw'⟩ := Option.ne_none_iff_exists'.mp hk
            exact absurd (hs.owned.unique hstat hw' hw) ht
        have hstore : s'.state.store = s.state.store.commit t := by
          rw [← Option.some.inj hact]
        rw [hstore, hs.owned.committed t hstat, hnone]
        rfl

/-- What the rows of the statistics are after a commit. -/
theorem Sound.committed {p : Pc} (hs : Sound s) (hact : act s.state t (.commit p) = some s'.state) {k : Key}
    (hk : Statistic k) : s'.state.store.committed k = (own (s.state.procs t) k).getD (s.state.store.committed k) := by
  have hstore : s'.state.store = s.state.store.commit t := by
    rw [← Option.some.inj hact]
  rw [hstore]
  exact hs.owned.committed t hk

theorem Sound.dated_of (hs : Sound s) (hvisits : ∀ x ∈ visitRows s', x ∈ visitRows s ∨ 0 ≤ x.2.occurredAt)
    (hdays : ∀ r ∈ days s', r ∈ days s ∨ midnight (dayOf r.day) = r.day) : Dated (tables s') := by
  constructor
  · intro v hv
    obtain ⟨x, hx, rfl⟩ := List.mem_map.mp hv
    rcases hvisits x hx with hold | hnew
    · exact hs.dated.raw _ (List.mem_map_of_mem hold)
    · exact datable_postgresql hnew
  · intro r hr
    rcases hdays r hr with hold | hnew
    · exact hs.dated.days r hold
    · exact hnew

/-- Days that nobody has written stay. -/
theorem Sound.days_same {p : Pc} (hs : Sound s) (hact : act s.state t (.commit p) = some s'.state)
    (hnone : ownDay (s.state.procs t) = fun _ _ => none) : (days s').Perm (days s) := by
  refine days_perm (nodup_days s).of_map ?_
  intro r
  rw [mem_days, hs.committed hact (k := .day r.linkId r.day) trivial, own, hnone]
  rfl

/-- Visits that nobody has written stay. -/
theorem Sound.visitRows_same {p : Pc} (hs : Sound s) (hact : act s.state t (.commit p) = some s'.state)
    (hnone : ownVisit (s.state.procs t) = fun _ => none) : (visitRows s').Perm (visitRows s) := by
  refine visitRows_perm (nodup_visitRows s) ?_
  intro id visit
  rw [mem_visitRows, hs.committed hact (k := .visit id) trivial, own, hnone]
  rfl

/-- **The click task commits**: its visit is recorded, and it is from a day that is not folded. -/
theorem Sound.commit_stats {c : ShortCode} {id : Uuid} {isBot : Bool} {visit : LinkVisit} (hs : Sound s)
    (hat : s.state.procs t = .stats c id isBot (.commit (some visit)))
    (hact : act s.state t (.commit .idle) = some s'.state)
    (hnow : s'.now = s.now) (hrecorded : s'.recorded = visit :: s.recorded) : Sound s' := by
  have hstamped : (s.state.procs t).stamped = some visit := by
    rw [hat]
    rfl
  refine hs.commits hact hnow (fun k _ => own_none rfl rfl k) rfl (.inr ⟨visit, hstamped, hrecorded⟩) ?_
  intro F hF hfaithful hpending hfine
  rw [hat] at hfine
  obtain ⟨hpositive, hlate⟩ := hpending t visit hstamped
  have hfree : s.state.store.committed (.visit id) = none := hfine
  have hdays : (days s').Perm (days s) := hs.days_same hact (by rw [hat]; rfl)
  have hvisits : (visitRows s').Perm ((id, visit) :: visitRows s) := by
    refine visitRows_perm (List.nodup_cons.mpr ⟨?_, nodup_visitRows s⟩) ?_
    · rw [mem_visitRows, hfree]
      nofun
    · intro id' visit'
      rw [hs.committed hact (k := .visit id') trivial, List.mem_cons, mem_visitRows, hat]
      by_cases hid : id' = id
      · subst hid
        simp [own, ownVisit, hfree, eq_comm]
      · simp [own, ownVisit, hid]
  refine ⟨hs.dated_of ?_ fun r hr => .inl (hdays.mem_iff.mp hr), F, hF, le_rfl, ?_, fun t v hv => (hpending t v hv).2,
    trivial⟩
  · intro x hx
    rcases List.mem_cons.mp (hvisits.mem_iff.mp hx) with rfl | hx
    · exact .inr hpositive
    · exact .inl hx
  · rw [hrecorded]
    exact (hfaithful.record hlate).perm (hvisits.map Prod.snd) (hdays.map layout.toTotal)

/-- **The sweep commits**: what it has deleted is folded. -/
theorem Sound.commit_sweep {retentionDays : Int} {cutoff : Instant} {done : List Uuid} (hs : Sound s)
    (hat : s.state.procs t = .rollUp retentionDays (.delete cutoff done []))
    (hact : act s.state t (.commit .idle) = some s'.state)
    (hnow : s'.now = s.now) (hrecorded : s'.recorded = s.recorded) : Sound s' := by
  refine hs.commits hact hnow (fun k _ => own_none rfl rfl k) rfl (.inl hrecorded) ?_
  intro F hF hfaithful hpending hfine
  rw [hat] at hfine
  obtain ⟨⟨c, hc, rfl⟩, hdone⟩ := hfine
  have hdays : (days s').Perm (days s) := hs.days_same hact (by rw [hat]; rfl)
  have hvisits : (visitRows s').Perm ((visitRows s).filter fun x => decide (x.1 ∉ done)) := by
    refine visitRows_perm ((nodup_visitRows s).filter _) ?_
    intro id visit
    rw [hs.committed hact (k := .visit id) trivial, List.mem_filter, mem_visitRows, hat]
    by_cases hid : id ∈ done
    · simp [own, ownVisit, hid]
    · simp [own, ownVisit, hid]
  refine ⟨hs.dated_of (fun x hx => .inl (List.mem_filter.mp (hvisits.mem_iff.mp hx)).1)
    fun r hr => .inl (hdays.mem_iff.mp hr), F, hF, le_rfl, ?_, fun t v hv => (hpending t v hv).2, trivial⟩
  rw [hrecorded]
  have hpruned := hfaithful.prune (((visitRows s).filter fun x => decide (x.1 ∉ done)).map Prod.snd) ?_ ?_
  · exact hpruned.perm (hvisits.map Prod.snd) (hdays.map layout.toTotal)
  · intro v hv
    obtain ⟨x, hx, rfl⟩ := List.mem_map.mp hv
    exact List.mem_map_of_mem (List.mem_filter.mp hx).1
  · -- What is not folded has not been deleted.
    refine List.Perm.of_eq ?_
    show _ = ((visitRows s).map Prod.snd).filter _
    rw [List.filter_map, List.filter_map, List.filter_filter]
    congr 1
    apply List.filter_congr
    rintro ⟨id, visit⟩ hx
    by_cases hday : F ≤ layout.view.day visit
    · have hid : id ∉ done := by
        intro hid
        have hold := hdone id hid visit (mem_visitRows.mp hx)
        have hdatable : Datable .postgresql visit.occurredAt := hs.dated.raw visit (List.mem_map_of_mem hx)
        have hview : layout.view.day visit = dayOf visit.occurredAt := dayIndex_eq hdatable
        rw [lt_midnight_iff] at hold
        omega
      simp [hday, hid]
    · simp [hday]

/-- The rows a fold publishes, when nobody has published one of them before. -/
theorem Sound.days_folded {p : Pc} {retentionDays : Int} {today : Instant} {done : List VisitsOnADay} (hs : Sound s)
    (hat : s.state.procs t = .rollUp retentionDays (.insert today done []))
    (hact : act s.state t (.commit p) = some s'.state)
    (hn : (done.map layout.dayKey).Nodup) (hfree : ∀ r ∈ done, s.state.store.committed (.day r.linkId r.day) = none) :
    (days s').Perm (done ++ days s) := by
  refine days_perm (List.nodup_append.mpr ⟨hn.of_map, (nodup_days s).of_map, ?_⟩) ?_
  · rintro r hr r' hr' rfl
    have hrow := mem_days.mp hr'
    rw [hfree r hr] at hrow
    cases hrow
  · intro r
    rw [hs.committed hact (k := .day r.linkId r.day) trivial, List.mem_append, mem_days, hat]
    simp only [own, ownDay]
    cases hfind : done.find? fun r' => decide (r'.linkId = r.linkId ∧ r'.day = r.day) with
    | none =>
      have hout : r ∉ done := by
        intro hr
        have := List.find?_eq_none.mp hfind r hr
        simp at this
      simp [hout]
    | some r' =>
      have hkey := List.find?_some hfind
      obtain ⟨hlink, hday⟩ := of_decide_eq_true hkey
      have hr' : r' ∈ done := List.mem_of_find?_eq_some hfind
      have hnone : s.state.store.committed (.day r.linkId r.day) = none := by
        rw [← hlink, ← hday]
        exact hfree r' hr'
      rw [hnone]
      simp only [Option.map_some, Option.getD_some, Option.some.injEq, reduceCtorEq, or_false]
      constructor
      · intro hr
        rw [List.inj_on_of_nodup_map hn hr' hr (Prod.ext hlink hday)]
      · intro hsame
        have heq : r' = r := by
          obtain ⟨linkId, day, total, bots⟩ := r
          obtain ⟨linkId', day', total', bots'⟩ := r'
          cases hlink
          cases hday
          cases hsame
          rfl
        rw [← heq]
        exact hr'

/-- **The fold commits**: nobody has folded what it has read, and it has read all there is. -/
theorem Sound.commit_fold {p : Pc} {retentionDays : Int} {today : Instant} {done : List VisitsOnADay} (hs : Sound s)
    (hat : s.state.procs t = .rollUp retentionDays (.insert today done []))
    (hact : act s.state t (.commit p) = some s'.state)
    (hp : p = if 0 < retentionDays then .rollUp retentionDays (.sweep (today - retentionDays * dayLength)) else .idle)
    (hnow : s'.now = s.now) (hrecorded : s'.recorded = s.recorded) : Sound s' := by
  have hown : ∀ k, own p k = none := by
    intro k
    rw [hp]
    split
    · exact own_none rfl rfl k
    · exact own_none rfl rfl k
  have hstamped : p.stamped = none := by
    rw [hp]
    split
    · rfl
    · rfl
  refine hs.commits hact hnow (fun k _ => hown k) hstamped (.inl hrecorded) ?_
  intro F hF hfaithful hpending hfine
  rw [hat] at hfine
  obtain ⟨d, hd, rfl, ⟨due, hrows, hdue, hperm⟩, hfree, hlater⟩ := hfine
  rw [List.append_nil] at hrows
  have hn : (done.map layout.dayKey).Nodup := (hrows.map _).nodup_iff.mpr (nodup_dayRows due)
  have hdays := hs.days_folded hat hact hn hfree
  have hvisits : (visitRows s').Perm (visitRows s) := hs.visitRows_same hact (by rw [hat]; rfl)
  -- A visit of a day that is folded would have met the row of that day.
  have hunfolded : ∀ v ∈ due, F ≤ layout.view.day v := by
    intro v hv
    by_contra hlt
    obtain ⟨x, hx, hkey, hday⟩ := hfaithful.folded v (hdue v hv).1 (by omega)
    obtain ⟨r₀, hr₀, rfl⟩ := List.mem_map.mp hx
    obtain ⟨r, hr, hlink, hmidnight⟩ := mem_dayRows (L := layout) hv
    have hnone := hfree r (hrows.mem_iff.mpr hr)
    have hsome := mem_days.mp hr₀
    have hr₀day : midnight (dayOf r₀.day) = r₀.day := hs.dated.days r₀ hr₀
    have hsameDay : r₀.day = r.day := by
      rw [← hr₀day]
      exact (congrArg midnight hday).trans hmidnight.symm
    have hsameLink : r₀.linkId = r.linkId := hkey.trans hlink.symm
    rw [hsameDay, hsameLink, hnone] at hsome
    cases hsome
  have hall : due.filter (fun v => decide (F ≤ layout.view.day v)) = due :=
    List.filter_eq_self.mpr fun v hv => decide_eq_true (hunfolded v hv)
  rw [hall] at hperm
  have htotals : (book (tables s')).totals.Perm (groupTotals layout.view due ++ (book (tables s)).totals) := by
    have hfolded := (hrows.map layout.toTotal).trans (List.Perm.of_eq (dayRows_toTotal due))
    refine (hdays.map layout.toTotal).trans ?_
    rw [List.map_append]
    exact hfolded.append_right _
  refine ⟨hs.dated_of (fun x hx => .inl (hvisits.mem_iff.mp hx)) ?_, max F d, ?_, le_max_left F d, ?_, ?_, ?_⟩
  · intro r hr
    rcases List.mem_append.mp (hdays.mem_iff.mp hr) with hr | hr
    · exact .inr (midnight_of_mem_dayRows (hrows.mem_iff.mp hr))
    · exact .inl hr
  · exact max_le hF hd
  · rw [hrecorded]
    by_cases hle : F ≤ d
    · rw [max_eq_right hle]
      exact (hfaithful.extend hle hperm).perm (hvisits.map Prod.snd) htotals
    · -- Others have folded these days, and there was nothing left to fold.
      have hnil : due = [] := by
        rw [List.eq_nil_iff_forall_not_mem]
        intro v hv
        have := hunfolded v hv
        have := (hdue v hv).2
        omega
      rw [hnil] at htotals
      rw [max_eq_left (by omega)]
      exact hfaithful.perm (hvisits.map Prod.snd) htotals
  · intro t' visit hvisit
    exact max_le (hpending t' visit hvisit).2 (hlater t' visit hvisit)
  · rw [hp]
    split
    · rename_i hpos
      refine ⟨d - retentionDays, ?_, midnight_sub d retentionDays⟩
      have := le_max_right F d
      omega
    · trivial

/-- What a fold reads is what is committed. -/
theorem seen_visits (hs : Sound s) (hnone : ∀ k, own (s.state.procs t) k = none) :
    (seenBy s t).visits = visitRows s ∧ (seenBy s t).days = days s := by
  have hview : ∀ k, Statistic k → s.state.store.view t k = s.state.store.committed k := by
    intro k hk
    exact hs.owned.view_of_none hk (hnone k)
  unfold Seen.visits Seen.days visitRows days committedRows seenBy Store.rowsBy
  constructor
  · rw [List.filterMap_filterMap, List.filterMap_filterMap]
    apply List.filterMap_congr
    intro k _
    cases k with
    | visit id => rw [hview (.visit id) trivial]
    | link c => cases s.state.store.view t (.link c) <;> cases s.state.store.committed (.link c) <;> rfl
    | day linkId day => rw [hview (.day linkId day) trivial]
  · rw [List.filterMap_filterMap, List.filterMap_filterMap]
    apply List.filterMap_congr
    intro k _
    cases k with
    | visit id => rw [hview (.visit id) trivial]
    | link c => cases s.state.store.view t (.link c) <;> cases s.state.store.committed (.link c) <;> rfl
    | day linkId day => rw [hview (.day linkId day) trivial]

/-- A row that can be inserted is not there. -/
theorem insertRow_cases {v : Seen} {k : Key} {row : Value k} {p : Pc} (h : insertRow v k row p = some a) :
    (v.row k = none ∧ a = .write k (some row) p) ∨ a = .rollback .idle := by
  unfold insertRow at h
  split at h
  · rename_i hrow
    cases h
    exact .inl ⟨hrow, rfl⟩
  · split at h
    · cases h
      exact .inr rfl
    · cases h

theorem committed_of_row (hs : Sound s) {k : Key} (hk : Statistic k) (hnone : own (s.state.procs t) k = none)
    (hrow : (seenBy s t).row k = none) : s.state.store.committed k = none :=
  (hs.owned.view_of_none hk hnone).symm.trans hrow

theorem stats_sound {c : ShortCode} {id : Uuid} {isBot : Bool} {p : StatsPc} (hs : Sound s)
    (hat : s.state.procs t = .stats c id isBot p) (hnext : nextStats (seenBy s t) c id isBot p = some a)
    (hact : act s.state t a = some s'.state) (hnow : s'.now = s.now)
    (hrecorded : s'.recorded = (s.state.procs t).publishes ++ s.recorded) : Sound s' := by
  have htracked : Tracked Statistic own (s.state.procs t) a := by
    rw [hat]
    exact next_tracked (v := seenBy s t) hnext
  rw [hat] at hrecorded
  cases p with
  | update =>
    simp only [nextStats] at hnext
    split at hnext
    · cases hnext
      exact hs.passes htracked hact (fun _ h => by cases h) hnow hrecorded rfl fun _ => trivial
    · cases hnext
      exact hs.passes htracked hact (fun _ h => by cases h) hnow hrecorded rfl fun _ => trivial
  | find =>
    simp only [nextStats] at hnext
    split at hnext
    · cases hnext
      exact hs.passes htracked hact (fun _ h => by cases h) hnow hrecorded rfl fun _ => trivial
    · cases hnext
      exact hs.passes htracked hact (fun _ h => by cases h) hnow hrecorded rfl fun _ => trivial
  | record link =>
    cases hnext
    refine hs.quiet htracked hact (fun _ h => by cases h) hnow hrecorded ?_ fun _ _ _ _ _ => trivial
    intro visit hvisit
    cases hvisit
    exact .inr ⟨hs.clock, (dayIndex_eq (datable_postgresql hs.clock)).ge⟩
  | insert visit =>
    rcases insertRow_cases hnext with ⟨hrow, rfl⟩ | rfl
    · refine hs.quiet htracked hact (fun _ h => by cases h) hnow hrecorded ?_ ?_
      · intro visit' hvisit
        rw [hat]
        exact .inl hvisit
      · intro F _ _ _ _
        exact committed_of_row hs (k := .visit id) trivial (by rw [hat]; rfl) hrow
    · exact hs.passes htracked hact (fun _ h => by cases h) hnow hrecorded rfl fun _ => trivial
  | commit visit =>
    cases hnext
    cases visit with
    | some visit => exact hs.commit_stats hat hact hnow hrecorded
    | none =>
      refine hs.commits hact hnow (fun k _ => own_none rfl rfl k) rfl (.inl hrecorded) ?_
      intro F hF hfaithful hpending _
      have hdays : (days s').Perm (days s) := hs.days_same hact (by rw [hat]; rfl)
      have hvisits : (visitRows s').Perm (visitRows s) := hs.visitRows_same hact (by rw [hat]; rfl)
      refine ⟨hs.dated_of (fun x hx => .inl (hvisits.mem_iff.mp hx)) fun r hr => .inl (hdays.mem_iff.mp hr), F, hF, le_rfl, ?_,
        fun t v hv => (hpending t v hv).2, trivial⟩
      rw [show s'.recorded = s.recorded from hrecorded]
      exact hfaithful.perm (hvisits.map Prod.snd) (hdays.map layout.toTotal)

/-- The bound a fold has read lies after a day that is folded. -/
theorem firstUnfoldedDay_floor (hs : Sound s) {F : Int}
    (hfaithful : Faithful layout.view (book (tables s)) s.recorded F)
    {x : Instant} (hx : firstUnfoldedDay layout (days s) = some x) : ∃ m < F, x = midnight (m + 1) := by
  unfold firstUnfoldedDay at hx
  obtain ⟨m, hm, rfl⟩ := Option.map_eq_some_iff.mp hx
  obtain ⟨r, hr, rfl⟩ := List.mem_map.mp (List.max?_eq_some_iff.mp hm).1
  have htotal := (hfaithful.totals (layout.toTotal r) (List.mem_map_of_mem hr)).1
  have hmidnight : midnight (dayOf r.day) = r.day := hs.dated.days r hr
  refine ⟨dayOf r.day, htotal, ?_⟩
  show r.day + dayLength = _
  rw [← midnight_add, hmidnight, Int.one_mul]

/-- **The fold reads all there is**, when nothing older is still uncommitted. -/
theorem hasRead_of_reads (hs : Sound s) {F d : Int} (hfaithful : Faithful layout.view (book (tables s)) s.recorded F)
    {since : Option Instant} (hsince : ∀ x, since = some x → ∃ m < F, x = midnight (m + 1)) :
    HasRead s.recorded F d (dayRows layout (toFold layout ((visitRows s).map Prod.snd) (midnight d) since)) := by
  have hday : ∀ v ∈ (visitRows s).map Prod.snd, layout.view.day v = dayOf v.occurredAt := by
    intro v hv
    exact dayIndex_eq (hs.dated.raw v hv)
  refine ⟨_, .refl _, ?_, ?_⟩
  · intro v hv
    obtain ⟨hv, hbounds⟩ := List.mem_filter.mp hv
    simp only [Bool.and_eq_true, decide_eq_true_eq] at hbounds
    rw [hday v hv]
    exact ⟨hfaithful.recorded v hv, lt_midnight_iff.mp hbounds.1⟩
  · have hsame : (toFold layout ((visitRows s).map Prod.snd) (midnight d) since).filter
        (fun v => decide (F ≤ layout.view.day v)) =
          (((visitRows s).map Prod.snd).filter fun v => decide (F ≤ layout.view.day v)).filter
            fun v => decide (layout.view.day v < d) := by
      unfold toFold
      rw [List.filter_filter, List.filter_filter]
      apply List.filter_congr
      intro v hv
      rw [Bool.eq_iff_iff]
      simp only [Bool.and_eq_true, decide_eq_true_eq, hday v hv]
      rw [show layout.occurredAt v = v.occurredAt from rfl, lt_midnight_iff]
      constructor
      · rintro ⟨hF, hbefore, -⟩
        exact ⟨hbefore, hF⟩
      · rintro ⟨hbefore, hF⟩
        refine ⟨hF, hbefore, ?_⟩
        cases hx : since with
        | none => rfl
        | some x =>
          obtain ⟨m, hm, rfl⟩ := hsince x hx
          rw [Option.all_some, decide_eq_true_eq, midnight_le_iff]
          omega
    rw [hsame]
    exact hfaithful.kept.filter _

theorem rollUp_sound {retentionDays : Int} {p : RollUpPc} (hs : Sound s)
    (hat : s.state.procs t = .rollUp retentionDays p)
    (hintime : FoldsInTime s (.step t)) (hnext : nextRollUp (seenBy s t) retentionDays p = some a)
    (hact : act s.state t a = some s'.state) (hnow : s'.now = s.now)
    (hrecorded : s'.recorded = (s.state.procs t).publishes ++ s.recorded) : Sound s' := by
  have htracked : Tracked Statistic own (s.state.procs t) a := by
    rw [hat]
    exact next_tracked (v := seenBy s t) hnext
  rw [hat] at hrecorded
  cases p with
  | begin =>
    cases hnext
    refine hs.passes htracked hact (fun _ h => by cases h) hnow hrecorded rfl fun F => ?_
    exact ⟨dayOf s.now, le_rfl, midnightOf_eq s.now⟩
  | latest today =>
    cases hnext
    have hseen := (seen_visits hs (t := t) (by rw [hat]; exact own_none rfl rfl)).2
    refine hs.quiet htracked hact (fun _ h => by cases h) hnow hrecorded (fun _ h => by cases h) ?_
    intro F _ hfaithful _ hfine
    rw [hat] at hfine
    refine ⟨hfine, ?_⟩
    intro x hx
    rw [hseen] at hx
    exact firstUnfoldedDay_floor hs hfaithful hx
  | group today since =>
    cases hnext
    have hseen := (seen_visits hs (t := t) (by rw [hat]; exact own_none rfl rfl)).1
    refine hs.quiet htracked hact (fun _ h => by cases h) hnow hrecorded (fun _ h => by cases h) ?_
    intro F _ hfaithful hpending hfine
    rw [hat] at hfine
    obtain ⟨⟨d, hd, rfl⟩, hsince⟩ := hfine
    refine ⟨d, hd, rfl, ?_, ?_, ?_⟩
    · rw [hseen, List.nil_append]
      exact hasRead_of_reads hs hfaithful hsince
    · intro r hr
      cases hr
    · intro t' visit hvisit
      have hreads : readsBefore s (.step t) = some (midnight d) := by
        simp only [readsBefore, hat]
      have hlate := midnight_le_iff.mp (hintime _ hreads t' visit hvisit)
      exact hlate.trans (dayIndex_eq (datable_postgresql (hpending t' visit hvisit).1)).ge
  | insert today done rest =>
    cases rest with
    | nil =>
      cases hnext
      exact hs.commit_fold hat hact rfl hnow hrecorded
    | cons r rest =>
      rcases insertRow_cases hnext with ⟨hrow, rfl⟩ | rfl
      · refine hs.quiet htracked hact (fun _ h => by cases h) hnow hrecorded (fun _ h => by cases h) ?_
        intro F _ hfaithful _ hfine
        rw [hat] at hfine
        obtain ⟨d, hd, htoday, ⟨due, hrows, hdue⟩, hfree, hlater⟩ := hfine
        -- Had it written the row before, it would see it.
        have hnone : own (s.state.procs t) (.day r.linkId r.day) = none := by
          cases hw : own (s.state.procs t) (.day r.linkId r.day) with
          | none => rfl
          | some w =>
            have hview := Store.view_of_dirtyBy ((hs.owned t (.day r.linkId r.day) trivial).trans hw)
            have hwrote : w = none := hview.symm.trans hrow
            rw [hwrote, hat] at hw
            simp only [own, ownDay, Option.map_eq_some_iff] at hw
            obtain ⟨r', -, hr'⟩ := hw
            cases hr'
        refine ⟨d, hd, htoday, ⟨due, List.perm_middle.symm.trans hrows, hdue⟩, ?_, hlater⟩
        intro r' hr'
        rcases List.mem_cons.mp hr' with rfl | hr'
        · exact committed_of_row hs trivial hnone hrow
        · exact hfree r' hr'
      · exact hs.passes htracked hact (fun _ h => by cases h) hnow hrecorded rfl fun _ => trivial
  | sweep cutoff =>
    cases hnext
    refine hs.quiet htracked hact (fun _ h => by cases h) hnow hrecorded (fun _ h => by cases h) ?_
    intro F _ _ _ hfine
    rw [hat] at hfine
    refine ⟨hfine, ?_⟩
    intro id hid
    cases hid
  | delete cutoff done rest =>
    cases rest with
    | nil =>
      cases hnext
      exact hs.commit_sweep hat hact hnow hrecorded
    | cons id rest =>
      have hskip : ∀ F, Fine s F (s.state.procs t) → Fine s F (.rollUp retentionDays (.delete cutoff done rest)) := by
        intro F hfine
        rw [hat] at hfine
        exact hfine
      simp only [nextRollUp] at hnext
      split at hnext
      · rename_i visit hrow
        split at hnext
        · rename_i hold
          cases hnext
          refine hs.quiet htracked hact (fun _ h => by cases h) hnow hrecorded (fun _ h => by cases h) ?_
          intro F _ _ _ hfine
          rw [hat] at hfine
          refine ⟨hfine.1, ?_⟩
          intro id' hid' visit' hvisit'
          rcases List.mem_cons.mp hid' with rfl | hid'
          · by_cases hdone : id' ∈ done
            · exact hfine.2 id' hdone visit' hvisit'
            · have hnone : own (s.state.procs t) (.visit id') = none := by
                rw [hat]
                exact if_neg hdone
              have hview := hs.owned.view_of_none (k := .visit id') trivial hnone
              have hsame : some visit = some visit' := hrow.symm.trans (hview.trans hvisit')
              cases hsame
              exact hold
          · exact hfine.2 id' hid' visit' hvisit'
        · cases hnext
          exact hs.quiet htracked hact (fun _ h => by cases h) hnow hrecorded (fun _ h => by cases h)
            fun F _ _ _ => hskip F
      · cases hnext
        exact hs.quiet htracked hact (fun _ h => by cases h) hnow hrecorded (fun _ h => by cases h)
          fun F _ _ _ => hskip F

/-- **Every step keeps the books**, when folds read in time. -/
theorem step_sound {e : Event T} (hintime : FoldsInTime s e) (h : step s e = some s') (hs : Sound s) : Sound s' := by
  rcases step_cases h with ⟨t, op, hidle, hact, hnow, hrecorded⟩ | ⟨t, a, rfl, hnext, hact, hnow, hrecorded⟩ |
    ⟨hstate, hnow, hrecorded⟩
  · have htracked : Tracked Statistic own (s.state.procs t) (.goto (begin op) : Act) := by
      rw [hidle]
      cases op with
      | updateLinkStats c id isBot => exact fun k _ => own_congr rfl rfl k
      | rollUpVisits retentionDays => exact fun k _ => own_congr rfl rfl k
    cases op with
    | updateLinkStats c id isBot =>
      exact hs.passes htracked hact (fun _ h => by cases h) hnow hrecorded rfl fun _ => trivial
    | rollUpVisits retentionDays =>
      exact hs.passes htracked hact (fun _ h => by cases h) hnow hrecorded rfl fun _ => trivial
  · unfold nextOf at hnext
    cases hat : s.state.procs t with
    | idle =>
      rw [hat] at hnext
      cases hnext
    | stats c id isBot p =>
      rw [hat] at hnext
      exact stats_sound hs hat hnext hact hnow hrecorded
    | rollUp retentionDays p =>
      rw [hat] at hnext
      exact rollUp_sound hs hat hintime hnext hact hnow hrecorded
  · have htables : tables s' = tables s := tables_congr (by unfold committedRows; rw [hstate])
    obtain ⟨F, hF, hfaithful, hpending, hprocs⟩ := hs.floor
    refine ⟨?_, hs.clock.trans hnow, ?_, ?_, F, hF.trans (dayOf_mono hnow), ?_, ?_, ?_⟩
    · rw [hstate]
      exact hs.owned
    · rw [htables]
      exact hs.dated
    · rw [hrecorded]
      exact hs.stamps
    · rw [htables, hrecorded]
      exact hfaithful
    · rw [hstate]
      exact hpending
    · intro t
      rw [hstate]
      refine (hprocs t).frame le_rfl hnow (.inl hrecorded) ?_ ?_
      · intro t' visit hvisit
        rw [hstate] at hvisit
        exact .inl ⟨t', hvisit⟩
      · intro k _
        rw [hstate]

end Steps

/-! ## Every committed visit is counted -/

/-- Nothing is under way, and the tables account for the visits that were recorded. -/
structure AtRest {T : Type} [DecidableEq T] (s : System T) : Prop where
  idle : ∀ t, s.state.procs t = .idle
  clean : ∀ t k, s.state.store.dirtyBy t k = none
  /-- The clock does not go back behind 1970. -/
  clock : 0 ≤ s.now
  dated : Dated (tables s)
  stamps : ∀ v ∈ s.recorded, 0 ≤ v.occurredAt
  accounted : ∃ F ≤ dayOf s.now, Faithful layout.view (book (tables s)) s.recorded F

section Counted

variable {T : Type} [DecidableEq T]

theorem AtRest.sound {s : System T} (h : AtRest s) : Sound s := by
  obtain ⟨F, hF, hfaithful⟩ := h.accounted
  refine ⟨?_, h.clock, h.dated, h.stamps, F, hF, hfaithful, ?_, ?_⟩
  · intro t k _
    rw [h.clean t k, h.idle t]
    exact (own_none rfl rfl k).symm
  · intro t visit hvisit
    rw [h.idle t] at hvisit
    cases hvisit
  · intro t
    rw [h.idle t]
    trivial

/-- **Every committed visit is counted once on its day when folds read in time**, in every state of every run, and after
the maintenance has run once more at any time. -/
theorem visits_are_counted_once (start s : System T) (hrest : AtRest start) (events : List (Event T))
    (hintime : Meets step FoldsInTime start events) (h : run step start events = some s) (scope : Visits.Scope)
    (a : Int) (n : Nat)
    (hn : 0 < n) :
    let counted : List Visits.VisitBucket := (List.range n).map fun i : Nat =>
      ⟨midnight (a + i), (Visits.recordedOn s.recorded (links s) scope (a + i)).length,
        (Visits.recordedOn s.recorded (links s) scope (a + i)).countP (·.isBot)⟩
    dailyTotals (tables s) (links s) (midnight a) (midnight (a + n)) scope = counted ∧
      ∀ later, s.now ≤ later → ∀ retentionDays,
        dailyTotals (Visits.rollUpVisits (tables s) later retentionDays) (links s) (midnight a) (midnight (a + n)) scope =
          counted := by
  have hs := run_inv_of_meets (I := Sound) step_sound hintime h hrest.sound
  obtain ⟨F, hF, hfaithful, -, -⟩ := hs.floor
  have hstamps : ∀ v ∈ s.recorded, Datable .postgresql v.occurredAt := fun v hv => datable_postgresql (hs.stamps v hv)
  constructor
  · exact Visits.dailyTotals_of_faithful hs.dated hfaithful hstamps (links s) scope a hn
  · intro later hlater retentionDays
    obtain ⟨hdated, hfolded⟩ := rollUp_faithful hs.dated hfaithful (hF.trans (dayOf_mono hlater)) retentionDays
    exact Visits.dailyTotals_of_faithful hdated hfolded hstamps (links s) scope a hn

end Counted

/-! ## A visit that is not counted -/

instance decidableFoldsInTime {T : Type} [Fintype T] (s : System T) (e : Event T) : Decidable (FoldsInTime s e) :=
  inferInstanceAs (Decidable (∀ today ∈ readsBefore s e, ∀ t, ∀ visit ∈ (s.state.procs t).stamped, today ≤ visit.occurredAt))

section Samples

def sampleLink : Link :=
  ⟨1, "https://one.example", ⟨"aaaaaa", isCode_aaaaaa⟩, "https://one.example", 0, 0, none, none, none, some "192.0.2.1"⟩

/-- One link, which nobody has opened. -/
def oneLink : System Bool where
  state := {
    store := Store.load [.link sampleLink.shortCode] (List.nodup_singleton _) fun
      | .link c => if h : sampleLink.shortCode = c then some ⟨sampleLink, h⟩ else none
      | _ => none
    locks := Empty.elim
    mem := ()
    procs := fun _ => .idle }
  now := 0
  recorded := []

theorem oneLink_atRest : AtRest oneLink := by
  refine ⟨fun _ => rfl, fun t k => Store.dirtyBy_load t k, le_rfl, ⟨?_, ?_⟩, ?_, 0, le_rfl, .empty 0⟩
  · intro v hv
    cases hv
  · intro r hr
    cases hr
  · intro v hv
    cases hv

/-- `n` steps of one process. -/
def steps (t : Bool) (n : Nat) : List (Event Bool) := List.replicate n (.step t)

/-- The link is opened for the `id`-th time. -/
def opening (id : Uuid) : Operation := .updateLinkStats sampleLink.shortCode id false

/-- Two visits, and a fold after midnight that reads the visits while the second is not committed yet. -/
def lateVisit : List (Event Bool) :=
  [.start false (opening 1)] ++ steps false 5 ++ [.start false (opening 2)] ++ steps false 3 ++ [.tick dayLength] ++
    [.start true (.rollUpVisits 1)] ++ steps true 7 ++ steps false 2

/-- Whether everything is over, how many visits of the first day were committed, and what the chart says of that day: now,
and after the maintenance has run again a week later. -/
def firstDay (s : System Bool) : Bool × Nat × List Nat × List Nat :=
  let chart (t : Visits.Tables .postgresql) := (dailyTotals t (links s) (midnight 0) (midnight 1) ⟨none, none⟩).map (·.total)
  ((s.state.procs false).isIdle && (s.state.procs true).isIdle,
    (Visits.recordedOn s.recorded (links s) ⟨none, none⟩ 0).length, chart (tables s),
    chart (Visits.rollUpVisits (tables s) (midnight 7) 1))

/-- **A visit that is committed late is not counted**, and never will be: both visits are committed, one is counted. -/
theorem late_visit_is_not_counted : (run step oneLink lateVisit).map firstDay = some (true, 2, [1], [1]) := by
  decide +kernel

/-- The second visit is committed before the fold reads the visits, and a third is stamped after midnight. -/
def visitsInTime : List (Event Bool) :=
  [.start false (opening 1)] ++ steps false 5 ++ [.start false (opening 2)] ++ steps false 3 ++ [.tick dayLength] ++
    [.start true (.rollUpVisits 1)] ++ steps true 2 ++ steps false 2 ++ [.start false (opening 3)] ++ steps false 3 ++
    steps true 5 ++ steps false 2

theorem visits_are_counted_in_time : ∃ s, run step oneLink visitsInTime = some s ∧ s.recorded.length = 3 ∧
    dailyTotals (tables s) (links s) (midnight 0) (midnight (0 + (2 : Nat))) ⟨none, none⟩ =
      [⟨midnight 0, 2, 0⟩, ⟨midnight 1, 1, 0⟩] := by
  have hrun : (run step oneLink visitsInTime).map (fun s => (s.recorded.length, (List.range 2).map fun i : Nat =>
      (⟨midnight (0 + i), (Visits.recordedOn s.recorded (links s) ⟨none, none⟩ (0 + i)).length,
        (Visits.recordedOn s.recorded (links s) ⟨none, none⟩ (0 + i)).countP (·.isBot)⟩ : Visits.VisitBucket))) =
      some (3, [⟨midnight 0, 2, 0⟩, ⟨midnight 1, 1, 0⟩]) := by decide +kernel
  have hintime : Meets step FoldsInTime oneLink visitsInTime := by decide +kernel
  obtain ⟨s, hs, heq⟩ := Option.map_eq_some_iff.mp hrun
  have hcounted := (visits_are_counted_once oneLink s oneLink_atRest visitsInTime hintime hs ⟨none, none⟩ 0 2 (by decide)).1
  exact ⟨s, hs, congrArg Prod.fst heq, hcounted.trans (congrArg Prod.snd heq)⟩

end Samples

end LinkShortener.VisitTasks
