import Mathlib.Data.List.Nodup
import Mathlib.Data.List.Perm.Subperm
import LinkShortener.Lib.Processes
import LinkShortener.Failover.Model

/-!
# A call is dropped only after the last service refused it

The index is moved by other threads between any two steps of a call. While nobody moves it up, every turn of a call reads
a higher index than the turn before: at the end of a turn the index has left what the call has read. One move up divides
what the call has read into two such descents (`Descends`). Each of them has at most as many indices as there are
services, so a call that has spent its two turns for each service has been to the last one.

* `Lawful`: what holds of a call at each of its points; `next_lawful` for its own steps, `Lawful.down` and
  `Lawful.climbed` for the moves of others.
* `dropped_only_after_the_last_service`: the result. It holds as long as what the services raise can be put into words; the
  line about an exception that has no text is where a call ends without an answer, and with nobody told.
-/

namespace LinkShortener.Failover

open Runs

variable {V : Type}

/-! ## Descents -/

/-- What a call has read, latest first: a descent after the last move up, whose indices satisfy `P`, and one before it. -/
def Descends (reads : List Nat) (climbs : Nat) (P : Nat → Prop) : Prop :=
  ∃ recent former, reads = recent ++ former ∧ recent.Pairwise (· > ·) ∧ former.Pairwise (· > ·) ∧
    (climbs = 0 → former = []) ∧ ∀ r ∈ recent, P r

namespace Descends

variable {reads : List Nat} {climbs i current : Nat} {P Q : Nat → Prop}

theorem nil (climbs : Nat) (P : Nat → Prop) : Descends [] climbs P :=
  ⟨[], [], rfl, .nil, .nil, fun _ => rfl, by rintro _ ⟨⟩⟩

theorem mono (h : Descends reads climbs P) (hpq : ∀ r, P r → Q r) : Descends reads climbs Q := by
  obtain ⟨recent, former, hreads, hrecent, hformer, hzero, hp⟩ := h
  exact ⟨recent, former, hreads, hrecent, hformer, hzero, fun r hr => hpq r (hp r hr)⟩

/-- The next index read is higher. -/
theorem read (h : Descends reads climbs (· < current)) : Descends (current :: reads) climbs (· ≤ current) := by
  obtain ⟨recent, former, rfl, hrecent, hformer, hzero, hp⟩ := h
  refine ⟨current :: recent, former, rfl, List.pairwise_cons.mpr ⟨hp, hrecent⟩, hformer, hzero, ?_⟩
  intro r hr
  rcases List.mem_cons.mp hr with rfl | hr
  · exact Nat.le_refl _
  · exact Nat.le_of_lt (hp r hr)

/-- The index has left what was read last. -/
theorem left (h : Descends (i :: reads) climbs (· ≤ current)) (hi : i ≠ current) :
    Descends (i :: reads) climbs (· < current) := by
  obtain ⟨recent, former, hreads, hrecent, hformer, hzero, hp⟩ := h
  refine ⟨recent, former, hreads, hrecent, hformer, hzero, ?_⟩
  cases recent with
  | nil => rintro _ ⟨⟩
  | cons j recent =>
    cases hreads
    have hlt : i < current := Nat.lt_of_le_of_ne (hp i List.mem_cons_self) hi
    intro r hr
    rcases List.mem_cons.mp hr with rfl | hr
    · exact hlt
    · exact Nat.lt_trans ((List.pairwise_cons.mp hrecent).1 r hr) hlt

/-- The first move up ends a descent. -/
theorem climb (h : Descends reads 0 P) : Descends reads 1 Q := by
  obtain ⟨recent, former, rfl, hrecent, -, hzero, -⟩ := h
  refine ⟨[], recent ++ former, rfl, .nil, ?_, fun h => absurd h Nat.one_ne_zero, by rintro _ ⟨⟩⟩
  rw [hzero rfl, List.append_nil]
  exact hrecent

end Descends

/-- A list without repeats of as many numbers below `n` as there are holds all of them. -/
theorem mem_of_nodup_full {l : List Nat} {n m : Nat} (hnodup : l.Nodup) (hlt : ∀ x ∈ l, x < n) (hlen : n ≤ l.length)
    (hm : m < n) : m ∈ l := by
  have hsub : l.Subperm (List.range n) := List.subperm_of_subset hnodup fun x hx => List.mem_range.mpr (hlt x hx)
  have hperm : l.Perm (List.range n) := hsub.perm_of_length_le (by rw [List.length_range]; exact hlen)
  exact hperm.mem_iff.mpr (List.mem_range.mpr hm)

/-- Two turns for each service, in two descents, have been everywhere. -/
theorem Descends.full {reads : List Nat} {climbs n m : Nat} {P : Nat → Prop} (h : Descends reads climbs P)
    (hlt : ∀ x ∈ reads, x < n) (hlen : reads.length = 2 * n) (hm : m < n) : m ∈ reads := by
  obtain ⟨recent, former, rfl, hrecent, hformer, -, -⟩ := h
  have hnodup : ∀ {l : List Nat}, l.Pairwise (· > ·) → l.Nodup := fun h => h.imp fun hgt => Nat.ne_of_gt hgt
  rw [List.length_append] at hlen
  by_cases hfull : n ≤ recent.length
  · refine List.mem_append_left _ (mem_of_nodup_full (hnodup hrecent) ?_ hfull hm)
    intro x hx
    exact hlt x (List.mem_append_left _ hx)
  · refine List.mem_append_right _ (mem_of_nodup_full (hnodup hformer) ?_ (by omega) hm)
    intro x hx
    exact hlt x (List.mem_append_right _ hx)

/-! ## What holds of a call -/

/-- What holds of a call at the point it has reached, with the index where it is. -/
def Stands (cfg : Settings) (current : Nat) (c : Call V) : Pc V → Prop
  | .turn => c.reads ⊆ c.tried ∧ (c.climbs ≤ 1 → Descends c.reads c.climbs (· < current))
  | .ask i =>
    i < cfg.services.length ∧ i ∉ c.tried ∧ c.reads.head? = some i ∧ c.reads ⊆ i :: c.tried ∧
      (c.climbs ≤ 1 → Descends c.reads c.climbs (· ≤ current))
  | .moveOn i =>
    c.reads.head? = some i ∧ c.reads ⊆ c.tried ∧ (c.climbs ≤ 1 → Descends c.reads c.climbs (· ≤ current))
  | .drop | .announce | .ended .allServicesFailed => c.climbs ≤ 1 → cfg.services.length - 1 ∈ c.tried
  | .ended (.returned _) => True
  | .ended (.threw _) => False

/-- A service is asked. -/
def Pc.asks : Pc V → Bool
  | .ask _ => true
  | _ => false

/-- What a service raises when it is asked has no text. -/
def unsayable (c : Call V) : Except Raised V → Bool
  | .error (.unsaid _) => c.point.asks
  | _ => false

/-- A call has got its answer. -/
def Pc.answered : Pc V → Bool
  | .ended (.returned _) => true
  | _ => false

/-- A call has been counted as dropped. -/
def Pc.dropped : Pc V → Bool
  | .announce | .ended .allServicesFailed => true
  | _ => false

/-- **What holds of a call.** -/
structure Lawful (cfg : Settings) (current : Nat) (c : Call V) : Prop where
  asked : c.asked.map Prod.fst = c.tried
  once : c.tried.Nodup
  known : ∀ i ∈ c.tried, i < cfg.services.length
  read : ∀ i ∈ c.reads, i < cfg.services.length
  turns : c.reads.length + c.turnsLeft = 2 * cfg.services.length
  refused : c.point.answered = false → ∀ x ∈ c.asked, ∃ e, x.2 = .error e
  stands : Stands cfg current c c.point

section Calls

variable {cfg : Settings} {f f' : FailoverService} {c c' : Call V} {current current' : Nat}

theorem Lawful.new (cfg : Settings) (current : Nat) : Lawful cfg current (Call.new cfg : Call V) := by
  refine ⟨rfl, .nil, by rintro _ ⟨⟩, by rintro _ ⟨⟩, Nat.zero_add _, by rintro _ _ ⟨⟩, ?_⟩
  exact ⟨List.Subset.refl _, fun _ => .nil _ _⟩

/-- The work moves down. -/
theorem Lawful.down (h : Lawful cfg current c) (hle : current ≤ current') : Lawful cfg current' c := by
  refine ⟨h.asked, h.once, h.known, h.read, h.turns, h.refused, ?_⟩
  have hstands := h.stands
  cases hp : c.point with
  | turn =>
    rw [hp] at hstands
    exact ⟨hstands.1, fun hc => (hstands.2 hc).mono fun r hr => Nat.lt_of_lt_of_le hr hle⟩
  | ask i =>
    rw [hp] at hstands
    obtain ⟨hlt, hnew, hhead, hsub, hdesc⟩ := hstands
    exact ⟨hlt, hnew, hhead, hsub, fun hc => (hdesc hc).mono fun r hr => Nat.le_trans hr hle⟩
  | moveOn i =>
    rw [hp] at hstands
    obtain ⟨hhead, hsub, hdesc⟩ := hstands
    exact ⟨hhead, hsub, fun hc => (hdesc hc).mono fun r hr => Nat.le_trans hr hle⟩
  | drop =>
    rw [hp] at hstands
    exact hstands
  | announce =>
    rw [hp] at hstands
    exact hstands
  | ended o =>
    rw [hp] at hstands
    cases o <;> exact hstands

/-- The work moves up. -/
theorem Lawful.climbed (h : Lawful cfg current c) : Lawful cfg current' c.climbed := by
  have hdescends : ∀ {P Q : Nat → Prop}, (c.climbs ≤ 1 → Descends c.reads c.climbs P) →
      c.climbs + 1 ≤ 1 → Descends c.reads (c.climbs + 1) Q := by
    intro P Q hdesc hc
    have hzero : c.climbs = 0 := by omega
    have h0 := hdesc (by omega)
    rw [hzero] at h0 ⊢
    exact h0.climb
  have hstands := h.stands
  unfold Call.climbed
  split
  · rename_i hrunning
    refine ⟨h.asked, h.once, h.known, h.read, h.turns, h.refused, ?_⟩
    show Stands cfg current' { c with climbs := c.climbs + 1 } c.point
    cases hp : c.point with
    | turn =>
      rw [hp] at hstands
      exact ⟨hstands.1, hdescends hstands.2⟩
    | ask i =>
      rw [hp] at hstands
      obtain ⟨hlt, hnew, hhead, hsub, hdesc⟩ := hstands
      exact ⟨hlt, hnew, hhead, hsub, hdescends hdesc⟩
    | moveOn i =>
      rw [hp] at hstands
      obtain ⟨hhead, hsub, hdesc⟩ := hstands
      exact ⟨hhead, hsub, hdescends hdesc⟩
    | drop =>
      rw [hp] at hstands
      exact fun hc => hstands (Nat.le_of_succ_le hc)
    | announce =>
      rw [hp] at hstands
      exact fun hc => hstands (Nat.le_of_succ_le hc)
    | ended o =>
      rw [hp] at hrunning
      cases hrunning
  · rename_i hended
    refine ⟨h.asked, h.once, h.known, h.read, h.turns, h.refused, ?_⟩
    cases hp : c.point with
    | ended o =>
      rw [hp] at hstands
      cases o <;> exact hstands
    | turn => rw [hp] at hended; exact absurd rfl hended
    | ask i => rw [hp] at hended; exact absurd rfl hended
    | moveOn i => rw [hp] at hended; exact absurd rfl hended
    | drop => rw [hp] at hended; exact absurd rfl hended
    | announce => rw [hp] at hended; exact absurd rfl hended

/-- **A step of a call**, by the point it is taken from. -/
theorem next_lawful {answer : Except Raised V} (hsaid : unsayable c answer = false) (h : Lawful cfg f.currentIndex c)
    (hindex : f.currentIndex < cfg.services.length) (hnext : c.next cfg f answer = some (f', c')) :
    Lawful cfg f'.currentIndex c' := by
  have hstands := h.stands
  cases hp : c.point with
  | turn =>
    rw [hp] at hstands
    have hrefused := h.refused (by rw [hp]; rfl)
    simp only [Call.next, hp] at hnext
    split at hnext
    · rename_i hturn
      have hservice : cfg.services[f.currentIndex]? = some cfg.services[f.currentIndex] :=
        List.getElem?_eq_getElem hindex
      rw [hservice] at hnext
      cases hnext
      have hread : ∀ i ∈ f.currentIndex :: c.reads, i < cfg.services.length := by
        intro i hi
        rcases List.mem_cons.mp hi with rfl | hi
        · exact hindex
        · exact h.read i hi
      have hturns : (f.currentIndex :: c.reads).length + (c.turnsLeft - 1) = 2 * cfg.services.length := by
        have hturns := h.turns
        rw [List.length_cons]
        omega
      refine ⟨h.asked, h.once, h.known, hread, hturns, fun _ => hrefused, ?_⟩
      show Stands cfg f.currentIndex _ (if f.currentIndex ∈ c.tried then _ else _)
      split
      · rename_i htried
        refine ⟨rfl, ?_, fun hc => (hstands.2 hc).read⟩
        exact List.cons_subset.mpr ⟨htried, hstands.1⟩
      · rename_i hnew
        refine ⟨hindex, hnew, rfl, ?_, fun hc => (hstands.2 hc).read⟩
        exact List.cons_subset_cons _ hstands.1
    · -- All services were tried, or the turns are spent.
      rename_i hover
      cases hnext
      refine ⟨h.asked, h.once, h.known, h.read, h.turns, fun _ => hrefused, fun hc => ?_⟩
      have hlast : cfg.services.length - 1 < cfg.services.length := by omega
      by_cases hall : cfg.services.length ≤ c.tried.length
      · exact mem_of_nodup_full h.once h.known hall hlast
      · have hturns := h.turns
        exact hstands.1 ((hstands.2 hc).full h.read (by omega) hlast)
  | ask i =>
    rw [hp] at hstands
    have hrefused := h.refused (by rw [hp]; rfl)
    obtain ⟨hlt, hnew, hhead, hsub, hdesc⟩ := hstands
    have hknown : ∀ j ∈ i :: c.tried, j < cfg.services.length := by
      intro j hj
      rcases List.mem_cons.mp hj with rfl | hj
      · exact hlt
      · exact h.known j hj
    have hasked : ((i, answer) :: c.asked).map Prod.fst = i :: c.tried := by
      rw [List.map_cons, h.asked]
    have honce : (i :: c.tried).Nodup := List.nodup_cons.mpr ⟨hnew, h.once⟩
    simp only [Call.next, hp] at hnext
    split at hnext
    · cases hnext
      exact ⟨hasked, honce, hknown, h.read, h.turns, nofun, trivial⟩
    · rename_i text
      cases hnext
      refine ⟨hasked, honce, hknown, h.read, h.turns, ?_, hhead, hsub, hdesc⟩
      intro _ x hx
      rcases List.mem_cons.mp hx with rfl | hx
      · exact ⟨.said text, rfl⟩
      · exact hrefused x hx
    · simp only [unsayable, hp, Pc.asks, Bool.true_eq_false] at hsaid
  | moveOn i =>
    rw [hp] at hstands
    have hrefused := h.refused (by rw [hp]; rfl)
    obtain ⟨hhead, hsub, hdesc⟩ := hstands
    obtain ⟨reads, hreads⟩ : ∃ reads, c.reads = i :: reads := by
      cases hr : c.reads with
      | nil => rw [hr] at hhead; cases hhead
      | cons j reads =>
        rw [hr] at hhead
        cases hhead
        exact ⟨reads, rfl⟩
    simp only [Call.next, hp, switchToNext] at hnext
    split at hnext
    · rename_i hsame
      split at hnext
      · -- The call moves the index itself.
        rename_i f₁ hswitch
        cases hnext
        split at hswitch
        · cases hswitch
          refine ⟨h.asked, h.once, h.known, h.read, h.turns, fun _ => hrefused, hsub, fun hc => ?_⟩
          show Descends c.reads c.climbs (· < f.currentIndex + 1)
          exact (hdesc hc).mono fun r hr => Nat.lt_succ_of_le hr
        · cases hswitch
      · -- There is nowhere to move it: the call has been to the last service.
        rename_i f₁ hswitch
        cases hnext
        split at hswitch
        · cases hswitch
        · refine ⟨h.asked, h.once, h.known, h.read, h.turns, fun _ => hrefused, fun _ => ?_⟩
          have hi : cfg.services.length - 1 = i := by omega
          rw [hi]
          exact hsub (by rw [hreads]; exact List.mem_cons_self)
    · rename_i hmoved
      cases hnext
      refine ⟨h.asked, h.once, h.known, h.read, h.turns, fun _ => hrefused, hsub, fun hc => ?_⟩
      have hdescends := hdesc hc
      show Descends c.reads c.climbs (· < f.currentIndex)
      rw [hreads] at hdescends ⊢
      exact hdescends.left (Ne.symm hmoved)
  | drop =>
    rw [hp] at hstands
    have hrefused := h.refused (by rw [hp]; rfl)
    simp only [Call.next, hp] at hnext
    cases hnext
    exact ⟨h.asked, h.once, h.known, h.read, h.turns, fun _ => hrefused, hstands⟩
  | announce =>
    rw [hp] at hstands
    have hrefused := h.refused (by rw [hp]; rfl)
    simp only [Call.next, hp] at hnext
    cases hnext
    exact ⟨h.asked, h.once, h.known, h.read, h.turns, fun _ => hrefused, hstands⟩
  | ended o =>
    simp only [Call.next, hp] at hnext
    cases hnext

/-- A call moves the index down or leaves it, and counts itself when it is dropped. -/
theorem next_service {answer : Except Raised V} (hindex : f.currentIndex < cfg.services.length)
    (hnext : c.next cfg f answer = some (f', c')) :
    f.currentIndex ≤ f'.currentIndex ∧ f'.currentIndex < cfg.services.length ∧
      f'.droppedCalls + c.point.dropped.toNat = f.droppedCalls + c'.point.dropped.toNat := by
  cases hp : c.point with
  | turn =>
    simp only [Call.next, hp] at hnext
    split at hnext
    · split at hnext
      · cases hnext
        exact ⟨Nat.le_refl _, hindex, rfl⟩
      · cases hnext
        refine ⟨Nat.le_refl _, hindex, ?_⟩
        dsimp only
        split <;> rfl
    · cases hnext
      exact ⟨Nat.le_refl _, hindex, rfl⟩
  | ask i =>
    simp only [Call.next, hp] at hnext
    split at hnext <;> cases hnext <;> exact ⟨Nat.le_refl _, hindex, rfl⟩
  | moveOn i =>
    simp only [Call.next, hp, switchToNext] at hnext
    split at hnext
    · split at hnext
      · rename_i f₁ hswitch
        cases hnext
        split at hswitch
        · rename_i hbelow
          cases hswitch
          exact ⟨Nat.le_succ _, hbelow, rfl⟩
        · cases hswitch
      · cases hnext
        exact ⟨Nat.le_refl _, hindex, rfl⟩
    · cases hnext
      exact ⟨Nat.le_refl _, hindex, rfl⟩
  | drop =>
    simp only [Call.next, hp] at hnext
    cases hnext
    exact ⟨Nat.le_refl _, hindex, rfl⟩
  | announce =>
    simp only [Call.next, hp] at hnext
    cases hnext
    exact ⟨Nat.le_refl _, hindex, rfl⟩
  | ended o =>
    simp only [Call.next, hp] at hnext
    cases hnext

end Calls

/-! ## The system -/

section Steps

variable {cfg : Settings} {s s' : System V}

/-- **What holds of the system.** -/
structure Sound (cfg : Settings) (s : System V) : Prop where
  index : s.service.currentIndex < cfg.services.length
  calls : ∀ c ∈ s.calls, Lawful cfg s.service.currentIndex c
  dropped : s.service.droppedCalls = s.calls.countP fun c => c.point.dropped

theorem sound_new (cfg : Settings) : Sound cfg (System.new : System V) := by
  refine ⟨?_, by rintro _ ⟨⟩, rfl⟩
  exact List.length_pos_iff.mpr cfg.nonempty

/-- One call takes its next step. -/
theorem Sound.call (h : Sound cfg s) {i : Nat} {c c' : Call V} {f : FailoverService} {answer : Except Raised V}
    (hsaid : unsayable c answer = false) (hc : s.calls[i]? = some c)
    (hnext : c.next cfg s.service answer = some (f, c')) :
    Sound cfg { s with service := f, calls := s.calls.set i c' } := by
  obtain ⟨hle, hlt, hdropped⟩ := next_service h.index hnext
  refine ⟨hlt, ?_, ?_⟩
  · refine Processes.forall_mem_set (fun d hd => (h.calls d hd).down hle) ?_
    exact next_lawful hsaid (h.calls c (List.mem_of_getElem? hc)) h.index hnext
  · have hcount := Processes.countP_set_add (p := fun c : Call V => c.point.dropped) (b := c') hc
    have hbefore := h.dropped
    show f.droppedCalls = (s.calls.set i c').countP fun c => c.point.dropped
    omega

/-- The work moves down, or stays. -/
theorem Sound.down (h : Sound cfg s) {f : FailoverService} {rounds : List Round}
    (hle : s.service.currentIndex ≤ f.currentIndex)
    (hlt : f.currentIndex < cfg.services.length) (hdropped : f.droppedCalls = s.service.droppedCalls) :
    Sound cfg { s with service := f, rounds := rounds } :=
  ⟨hlt, fun c hc => (h.calls c hc).down hle, hdropped.trans h.dropped⟩

/-- The work moves up. -/
theorem Sound.up (h : Sound cfg s) {f : FailoverService} {rounds : List Round}
    (hlt : f.currentIndex < cfg.services.length)
    (hdropped : f.droppedCalls = s.service.droppedCalls) : Sound cfg ⟨f, s.calls.map Call.climbed, rounds⟩ := by
  refine ⟨hlt, ?_, ?_⟩
  · intro c hc
    obtain ⟨d, hd, rfl⟩ := List.mem_map.mp hc
    exact (h.calls d hd).climbed
  · rw [hdropped, h.dropped, List.countP_map]
    apply List.countP_congr
    intro c _
    simp only [Function.comp_apply, Call.climbed]
    split <;> exact Iff.rfl

/-- Who is found is one of those that were to be asked. -/
theorem mem_of_firstWell {probe : Nat → Probe} {indices : List Nat} {idx : Nat}
    (h : firstWell cfg probe indices = .ok (some idx)) : idx ∈ indices := by
  induction indices with
  | nil => cases h
  | cons i rest ih =>
    unfold firstWell at h
    split at h
    · split at h
      · cases h
        exact List.mem_cons_self
      · cases h
      · exact List.mem_cons_of_mem _ (ih h)
    · cases h
      exact List.mem_cons_self

/-- A demotion moves the index down, or not at all. -/
theorem attemptDemotion_service (cfg : Settings) {f : FailoverService} (probe : Nat → Probe)
    (hindex : f.currentIndex < cfg.services.length) :
    f.currentIndex ≤ (attemptDemotion cfg f probe).2.currentIndex ∧
      (attemptDemotion cfg f probe).2.currentIndex < cfg.services.length ∧
      (attemptDemotion cfg f probe).2.droppedCalls = f.droppedCalls := by
  unfold attemptDemotion
  split
  · split
    · exact ⟨Nat.le_refl _, hindex, rfl⟩
    · exact ⟨Nat.le_refl _, hindex, rfl⟩
    · exact ⟨Nat.le_refl _, hindex, rfl⟩
    · split
      · rename_i idx hidx
        have hmem := List.mem_range'_1.mp (mem_of_firstWell hidx)
        refine ⟨?_, ?_, rfl⟩
        · exact Nat.le_of_succ_le hmem.1
        · show idx < cfg.services.length
          omega
      · exact ⟨Nat.le_refl _, hindex, rfl⟩
      · exact ⟨Nat.le_refl _, hindex, rfl⟩
  · exact ⟨Nat.le_refl _, hindex, rfl⟩

/-- An upgrade moves the index up, or not at all. -/
theorem attemptUpgrade_service (cfg : Settings) (f : FailoverService) (probe : Nat → Probe) (now : Instant) :
    (attemptUpgrade cfg f probe now).currentIndex ≤ f.currentIndex ∧
      (attemptUpgrade cfg f probe now).droppedCalls = f.droppedCalls := by
  unfold attemptUpgrade
  split
  · exact ⟨Nat.le_refl _, rfl⟩
  · split
    · exact ⟨Nat.le_refl _, rfl⟩
    · dsimp only
      split
      · rename_i idx hidx
        exact ⟨Nat.le_of_lt (List.mem_range.mp (mem_of_firstWell hidx)), rfl⟩
      · exact ⟨Nat.le_refl _, rfl⟩

/-- A service is about to raise what has no text. -/
def raisesUnsayable (s : System V) : Event V → Bool
  | .step i answer => (s.calls[i]?).any (unsayable · answer)
  | _ => false

/-- **Every step** that raises nothing without a text. -/
theorem step_sound {e : Event V} (hsaid : raisesUnsayable s e = false) (h : step cfg s e = some s') (hs : Sound cfg s) :
    Sound cfg s' := by
  cases e with
  | call =>
    cases h
    refine ⟨hs.index, ?_, ?_⟩
    · intro c hc
      rcases List.mem_append.mp hc with hc | hc
      · exact hs.calls c hc
      · rw [List.mem_singleton.mp hc]
        exact .new cfg _
    · show s.service.droppedCalls = _
      rw [List.countP_append, hs.dropped]
      rfl
  | round =>
    cases h
    exact ⟨hs.index, hs.calls, hs.dropped⟩
  | step i answer =>
    obtain ⟨c, hc, h⟩ := Option.bind_eq_some_iff.mp h
    obtain ⟨⟨f, c'⟩, hnext, h⟩ := Option.bind_eq_some_iff.mp h
    cases h
    simp only [raisesUnsayable, hc, Option.any_some] at hsaid
    exact hs.call hsaid hc hnext
  | check j probe now =>
    obtain ⟨round, -, h⟩ := Option.bind_eq_some_iff.mp h
    cases round with
    | demote =>
      obtain ⟨hle, hlt, hdropped⟩ := attemptDemotion_service cfg probe hs.index
      simp only [checkStep] at h
      split at h
      · rename_i f hdemote
        cases h
        rw [hdemote] at hle hlt hdropped
        exact hs.down hle hlt hdropped
      · rename_i f hdemote
        cases h
        rw [hdemote] at hle hlt hdropped
        exact hs.down hle hlt hdropped
    | upgrade =>
      obtain ⟨hle, hdropped⟩ := attemptUpgrade_service cfg s.service probe now
      cases h
      split
      · exact hs.up (Nat.lt_of_le_of_lt hle hs.index) hdropped
      · rename_i hnot
        exact hs.down (Nat.le_of_not_lt hnot) (Nat.lt_of_le_of_lt hle hs.index) hdropped
    | ended => cases h

end Steps

/-! ## The result -/

/-- A call has come back with `ALL_SERVICES_FAILED`. -/
def Pc.failedAll : Pc V → Bool
  | .ended .allServicesFailed => true
  | _ => false

/-- **Calls are dropped as promised.** No call has asked a service twice or let an exception out. A call during which the
work has moved up at most once has come back with `ALL_SERVICES_FAILED` only after it had asked the last service of the
list and that had thrown. When no call is under way, those that came back with it are those that were counted. -/
structure DropsAsPromised (cfg : Settings) (s : System V) : Prop where
  once : ∀ c ∈ s.calls, (c.asked.map Prod.fst).Nodup
  quiet : ∀ c ∈ s.calls, ∀ e, c.point ≠ .ended (.threw e)
  last : ∀ c ∈ s.calls, c.point = .ended .allServicesFailed → c.climbs ≤ 1 →
    ∃ e, (cfg.services.length - 1, .error e) ∈ c.asked
  counted : (∀ c ∈ s.calls, c.point.running = false) →
    s.service.droppedCalls = s.calls.countP fun c => c.point.failedAll

section Result

variable {cfg : Settings} {s s' : System V}

theorem Sound.dropsAsPromised (hs : Sound cfg s) : DropsAsPromised cfg s := by
  refine ⟨?_, ?_, ?_, ?_⟩
  · intro c hc
    rw [(hs.calls c hc).asked]
    exact (hs.calls c hc).once
  · intro c hc e hp
    have hstands := (hs.calls c hc).stands
    rw [hp] at hstands
    exact hstands
  · intro c hc hp hclimbs
    have hlawful := hs.calls c hc
    have hstands := hlawful.stands
    rw [hp] at hstands
    have hlast := hstands hclimbs
    rw [← hlawful.asked] at hlast
    obtain ⟨⟨i, answer⟩, hasked, rfl⟩ := List.mem_map.mp hlast
    obtain ⟨e, he⟩ := hlawful.refused (by rw [hp]; rfl) _ hasked
    refine ⟨e, ?_⟩
    rw [← he]
    exact hasked
  · intro hidle
    rw [hs.dropped]
    apply List.countP_congr
    intro c hc
    have hended := hidle c hc
    cases hp : c.point with
    | ended o => cases o <;> exact Iff.rfl
    | turn => rw [hp] at hended; cases hended
    | ask i => rw [hp] at hended; cases hended
    | moveOn i => rw [hp] at hended; cases hended
    | drop => rw [hp] at hended; cases hended
    | announce => rw [hp] at hended; cases hended

/-- What has no text leaves the call. -/
theorem next_unsayable {f f' : FailoverService} {c c' : Call V} {answer : Except Raised V}
    (hunsaid : unsayable c answer = true) (hnext : c.next cfg f answer = some (f', c')) :
    ∃ e, c'.point = .ended (.threw e) := by
  cases hp : c.point with
  | ask index =>
    simp only [Call.next, hp] at hnext
    split at hnext
    · cases hunsaid
    · cases hunsaid
    · cases hnext
      exact ⟨_, rfl⟩
  | _ =>
    unfold unsayable at hunsaid
    rw [hp] at hunsaid
    split at hunsaid <;> cases hunsaid

theorem step_unsayable {e : Event V} (h : step cfg s e = some s') (hpromised : DropsAsPromised cfg s') :
    raisesUnsayable s e = false := by
  cases e with
  | step i answer =>
    obtain ⟨c, hc, h⟩ := Option.bind_eq_some_iff.mp h
    obtain ⟨⟨f, c'⟩, hnext, h⟩ := Option.bind_eq_some_iff.mp h
    cases h
    simp only [raisesUnsayable, hc, Option.any_some]
    by_contra hunsaid
    rw [Bool.not_eq_false] at hunsaid
    obtain ⟨e, he⟩ := next_unsayable hunsaid hnext
    have hlt : i < s.calls.length := (List.getElem?_eq_some_iff.mp hc).1
    exact hpromised.quiet c' (List.mem_of_getElem? (List.getElem?_set_self hlt)) e he
  | call => rfl
  | round => rfl
  | check j probe now => rfl

end Result

/-- **A call is dropped only after the last service refused it, in exactly those runs in which whatever a service raises to
a call has a text.** The runs are those of any number of calls and rounds among each other, with whatever services, probes
and clocks answer, and every state they come through is asked. -/
theorem dropped_only_after_the_last_service {cfg : Settings} {events : List (Event V)} {s : System V}
    (hrun : run (step cfg) System.new events = some s) :
    (∀ past t, past <+: events → run (step cfg) System.new past = some t → DropsAsPromised cfg t) ↔
      Meets (step cfg) (fun s e => raisesUnsayable s e = false) System.new events :=
  meets_iff_of_exact (I := Sound cfg) Sound.dropsAsPromised step_sound (fun h _ hpromised => step_unsayable h hpromised)
    hrun (sound_new cfg)

def twoServices : Settings := ⟨["primary", "standby"], false, 300, by decide⟩

/-- A call is refused by both services, and a round moves the work up before the second refuses it. -/
def refusedTwice : List (Event Unit) :=
  [.call, .step 0 (.ok ()), .step 0 (.error (.said "disk full")), .step 0 (.ok ()), .step 0 (.ok ()), .round,
    .check 0 (fun _ => .well) 1000, .check 0 (fun _ => .well) 1000, .step 0 (.error (.said "disk full")), .step 0 (.ok ()),
    .step 0 (.ok ()), .step 0 (.ok ()), .step 0 (.ok ())]

theorem dropped_only_after_the_last_service_refused : ∃ s c, run (step twoServices) System.new refusedTwice = some s ∧
    s.calls = [c] ∧ c.climbs = 1 ∧ c.point = .ended .allServicesFailed ∧ (∃ e, (1, .error e) ∈ c.asked) ∧
    s.service.droppedCalls = 1 := by
  have hrun : (run (step twoServices) System.new refusedTwice).map (fun s =>
      s.calls.map fun c => (c.climbs, c.point.dropped && !c.point.running)) = some [(1, true)] := by decide +kernel
  obtain ⟨s, hs, heq⟩ := Option.map_eq_some_iff.mp hrun
  obtain ⟨c, hcalls, hc⟩ := List.map_eq_singleton_iff.mp heq
  simp only [Prod.mk.injEq] at hc
  have hpoint : c.point = .ended .allServicesFailed := by
    obtain ⟨hdropped, hended⟩ := Bool.and_eq_true_iff.mp hc.2
    cases hp : c.point with
    | ended outcome =>
      cases outcome with
      | allServicesFailed => rfl
      | _ => simp [hp, Pc.dropped] at hdropped
    | _ => simp [hp, Pc.running] at hended
  have hmeets : Meets (step twoServices) (fun s e => raisesUnsayable s e = false) System.new refusedTwice := by
    decide +kernel
  have hpromised := (dropped_only_after_the_last_service hs).mpr hmeets refusedTwice s List.prefix_rfl hs
  refine ⟨s, c, hs, hcalls, hc.1, hpoint, ?_, ?_⟩
  · exact hpromised.last c (by rw [hcalls]; exact List.mem_cons_self) hpoint (Nat.le_of_eq hc.1)
  · rw [hpromised.counted ?_, hcalls, List.countP_singleton, hpoint]
    · rfl
    · intro d hd
      rw [hcalls, List.mem_singleton] at hd
      rw [hd, hpoint]
      rfl

/-- The first service raises what has no text, and `str` of it raises in its turn. -/
def refusedUnsaid : List (Event Unit) :=
  [.call, .step 0 (.ok ()), .step 0 (.error (.unsaid (.said "no text")))]

/-- **An exception leaves the call**: the second service is not asked, and the call is not counted. -/
theorem unsaid_exception_escapes :
    (run (step twoServices) System.new refusedUnsaid).map (fun s =>
        (s.service.droppedCalls, s.calls.map fun c => (c.tried, c.point.running || c.point.answered || c.point.failedAll))) =
      some (0, [([0], false)]) ∧
    ¬ ∀ s, run (step twoServices) System.new refusedUnsaid = some s → DropsAsPromised twoServices s := by
  refine ⟨rfl, ?_⟩
  intro h
  exact (h _ rfl).quiet _ List.mem_cons_self _ rfl

end LinkShortener.Failover
