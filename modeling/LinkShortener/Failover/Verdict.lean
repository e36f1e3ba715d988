import LinkShortener.Failover.Model

/-!
# What the last check found was asked for

`last_check` is read without the lock, so a reader sees every write of a round as it is made, and not only what the
round leaves behind. This module has the steps of the system in these smaller parts.

* `demotionActs`, `upgradeActs`: what a round asks and writes, in the order of the source. `attemptDemotion_eq_replay`,
  `attemptUpgrade_eq_replay`: it comes to what the methods do.
* `history`: the acts of a run, each with the number of its step. What a reader sees is the replay of a part of it;
  `replay_history` says that the replay of the whole is the state after the run.
* `Truthful`: a verdict was given by the service that held the work when it was written, and without a health checker
  there is none.
* `truthful_iff_asked`: the result. A service without a checker takes the work back up unasked, and calls it healthy.
-/

namespace LinkShortener.Failover

open Runs

variable {V : Type}

/-! ## Acts -/

/-- A question to a service, or a write. -/
inductive Act
  | ask (index : Nat) (answer : Probe)
  | find (verdict : CheckOutcome)
  | move (index : Nat)
  | stamp (now : Instant)
  | drop
  deriving DecidableEq

/-- What an act leaves behind the lock. -/
def FailoverService.after (f : FailoverService) : Act → FailoverService
  | .ask _ _ => f
  | .find verdict => { f with lastCheck := verdict }
  | .move index => { f with currentIndex := index }
  | .stamp now => { f with lastUpgradeAttempt := now }
  | .drop => { f with droppedCalls := f.droppedCalls + 1 }

/-- Several acts in a row. -/
def replay (f : FailoverService) (acts : List Act) : FailoverService := acts.foldl FailoverService.after f

@[simp] theorem replay_nil (f : FailoverService) : replay f [] = f := rfl

@[simp] theorem replay_cons (f : FailoverService) (a : Act) (acts : List Act) :
    replay f (a :: acts) = replay (f.after a) acts := rfl

@[simp] theorem replay_append (f : FailoverService) (acts acts' : List Act) :
    replay f (acts ++ acts') = replay (replay f acts) acts' := List.foldl_append

def Act.finds : Act → Bool
  | .find _ => true
  | _ => false

def Act.moves : Act → Bool
  | .move _ => true
  | _ => false

section Rounds

variable (cfg : Settings) (f : FailoverService) (probe : Nat → Probe)

/-- Try one index after the other until one answers for itself, or raises what has no text. Without a checker the first one
does, unasked. -/
def tryEach : List Nat → List Act × Option Nat
  | [] => ([], none)
  | idx :: rest =>
    if cfg.hasHealthChecker then
      match probe idx with
      | .well => ([.ask idx (probe idx)], some idx)
      | .raised (.unsaid _) => ([.ask idx (probe idx)], none)
      | _ => (.ask idx (probe idx) :: (tryEach rest).1, (tryEach rest).2)
    else ([], some idx)

/-- The work goes to whoever was found, and the round's finding is about that one. -/
def takeOver : Option Nat → List Act
  | some idx => [.move idx, .find .healthy]
  | none => []

/-- What `_attempt_demotion` asks and writes. -/
def demotionActs : List Act :=
  if cfg.hasHealthChecker then
    .ask f.currentIndex (probe f.currentIndex) ::
      match probe f.currentIndex with
      | .well => [.find .healthy]
      | .raised _ => [.find .probeFailed]
      | .unwell =>
        let (acts, found) := tryEach cfg probe
          (List.range' (f.currentIndex + 1) (cfg.services.length - (f.currentIndex + 1)))
        .find .unhealthy :: (acts ++ takeOver found)
  else []

/-- What `_attempt_upgrade` asks and writes. -/
def upgradeActs (now : Instant) : List Act :=
  if f.currentIndex = 0 then []
  else if now - f.lastUpgradeAttempt < cfg.upgradeCooldown then []
  else
    let (acts, found) := tryEach cfg probe (List.range f.currentIndex)
    .stamp now :: (acts ++ takeOver found)

end Rounds

/-- What a call writes when it takes its next step. -/
def callActs (cfg : Settings) (f : FailoverService) (c : Call V) : List Act :=
  match c.point with
  | .moveOn index =>
    if f.currentIndex = index ∧ f.currentIndex + 1 < cfg.services.length then [.move (f.currentIndex + 1)] else []
  | .drop => [.drop]
  | _ => []

/-- What a step of the system asks and writes. -/
def stepActs (cfg : Settings) (s : System V) : Event V → List Act
  | .call | .round => []
  | .step i _ =>
    match s.calls[i]? with
    | some c => callActs cfg s.service c
    | none => []
  | .check j probe now =>
    match s.rounds[j]? with
    | some .demote => demotionActs cfg s.service probe
    | some .upgrade => upgradeActs cfg s.service probe now
    | _ => []

/-! ## The acts are the steps -/

section Acts

variable (cfg : Settings) (f : FailoverService) (probe : Nat → Probe)

/-- Asking changes nothing. -/
@[simp] theorem replay_tryEach (indices : List Nat) : replay f (tryEach cfg probe indices).1 = f := by
  induction indices with
  | nil => rfl
  | cons idx rest ih =>
    unfold tryEach
    split
    · split
      · rfl
      · rfl
      · exact ih
    · rfl

theorem tryEach_found (indices : List Nat) :
    (tryEach cfg probe indices).2 = (firstWell cfg probe indices).toOption.join := by
  induction indices with
  | nil => rfl
  | cons idx rest ih =>
    unfold tryEach firstWell
    split
    · cases probe idx with
      | well => rfl
      | unwell => exact ih
      | raised e =>
        cases e with
        | said text => exact ih
        | unsaid e => rfl
    · rfl

/-- Whoever takes over has just answered for itself. -/
theorem ask_mem_tryEach (hchecker : cfg.hasHealthChecker = true) {indices : List Nat} {idx : Nat}
    (h : (tryEach cfg probe indices).2 = some idx) : .ask idx .well ∈ (tryEach cfg probe indices).1 := by
  induction indices with
  | nil => cases h
  | cons i rest ih =>
    unfold tryEach at h ⊢
    rw [if_pos hchecker] at h ⊢
    split at h
    · rename_i hwell
      cases h
      rw [hwell]
      exact List.mem_singleton_self _
    · cases h
    · exact List.mem_cons_of_mem _ (ih h)

theorem eq_ask_of_mem_tryEach {indices : List Nat} {a : Act} (h : a ∈ (tryEach cfg probe indices).1) :
    ∃ idx answer, a = .ask idx answer := by
  induction indices with
  | nil => cases h
  | cons i rest ih =>
    unfold tryEach at h
    split at h
    · split at h
      · exact ⟨i, probe i, List.mem_singleton.mp h⟩
      · exact ⟨i, probe i, List.mem_singleton.mp h⟩
      · rcases List.mem_cons.mp h with rfl | h
        · exact ⟨i, probe i, rfl⟩
        · exact ih h
    · cases h

theorem finds_tryEach {indices : List Nat} {a : Act} (h : a ∈ (tryEach cfg probe indices).1) : a.finds = false := by
  obtain ⟨idx, answer, rfl⟩ := eq_ask_of_mem_tryEach cfg probe h
  rfl

theorem moves_tryEach {indices : List Nat} {a : Act} (h : a ∈ (tryEach cfg probe indices).1) : a.moves = false := by
  obtain ⟨idx, answer, rfl⟩ := eq_ask_of_mem_tryEach cfg probe h
  rfl

/-- **The acts of a demotion are the demotion.** -/
theorem attemptDemotion_eq_replay : (attemptDemotion cfg f probe).2 = replay f (demotionActs cfg f probe) := by
  unfold attemptDemotion demotionActs
  by_cases hchecker : cfg.hasHealthChecker = true
  · rw [if_pos hchecker, if_pos hchecker]
    cases probe f.currentIndex with
    | well => rfl
    | raised e => cases e <;> rfl
    | unwell =>
      simp only [replay_cons, replay_append, replay_tryEach, tryEach_found]
      cases firstWell cfg probe (List.range' (f.currentIndex + 1) (cfg.services.length - (f.currentIndex + 1))) with
      | error e => rfl
      | ok found => cases found <;> rfl
  · rw [if_neg hchecker, if_neg hchecker]
    rfl

/-- **The acts of an upgrade are the upgrade.** -/
theorem attemptUpgrade_eq_replay (now : Instant) :
    attemptUpgrade cfg f probe now = replay f (upgradeActs cfg f probe now) := by
  unfold attemptUpgrade upgradeActs
  split
  · rfl
  · split
    · rfl
    · simp only [replay_cons, replay_append, replay_tryEach, tryEach_found]
      cases firstWell cfg probe (List.range f.currentIndex) with
      | error e => rfl
      | ok found => cases found <;> rfl

variable {cfg f}

theorem next_eq_replay {c c' : Call V} {f' : FailoverService} {answer : Except Raised V}
    (h : c.next cfg f answer = some (f', c')) : f' = replay f (callActs cfg f c) := by
  unfold callActs
  cases hp : c.point with
  | turn =>
    simp only [Call.next, hp] at h
    split at h
    · split at h <;> cases h <;> rfl
    · cases h
      rfl
  | ask i =>
    simp only [Call.next, hp] at h
    split at h <;> cases h <;> rfl
  | moveOn i =>
    simp only [Call.next, hp, switchToNext] at h
    dsimp only
    split at h
    · rename_i hsame
      by_cases hbelow : f.currentIndex + 1 < cfg.services.length
      · rw [if_pos hbelow] at h
        cases h
        rw [if_pos ⟨hsame, hbelow⟩]
        rfl
      · rw [if_neg hbelow] at h
        cases h
        rw [if_neg fun hboth => hbelow hboth.2]
        rfl
    · rename_i hmoved
      cases h
      rw [if_neg fun hboth => hmoved hboth.1]
      rfl
  | drop =>
    simp only [Call.next, hp] at h
    cases h
    rfl
  | announce =>
    simp only [Call.next, hp] at h
    cases h
    rfl
  | ended o =>
    simp only [Call.next, hp] at h
    cases h

/-- **The acts of a step are the step.** -/
theorem step_eq_replay {s s' : System V} {e : Event V} (h : step cfg s e = some s') :
    s'.service = replay s.service (stepActs cfg s e) := by
  cases e with
  | call =>
    cases h
    rfl
  | round =>
    cases h
    rfl
  | step i answer =>
    obtain ⟨c, hc, h⟩ := Option.bind_eq_some_iff.mp h
    obtain ⟨⟨f, c'⟩, hnext, h⟩ := Option.bind_eq_some_iff.mp h
    cases h
    simp only [stepActs, hc]
    exact next_eq_replay hnext
  | check j probe now =>
    obtain ⟨round, hround, h⟩ := Option.bind_eq_some_iff.mp h
    simp only [stepActs, hround]
    cases round with
    | demote =>
      rw [← attemptDemotion_eq_replay]
      simp only [checkStep] at h
      split at h
      · rename_i hdemote
        cases h
        rw [hdemote]
      · rename_i hdemote
        cases h
        rw [hdemote]
    | upgrade =>
      rw [← attemptUpgrade_eq_replay]
      cases h
      rfl
    | ended => cases h

end Acts

/-! ## What a reader sees -/

/-- The acts of a run, each with the number of the step it belongs to. -/
def historyFrom (cfg : Settings) : Nat → System V → List (Event V) → List (Nat × Act)
  | _, _, [] => []
  | n, s, e :: es =>
    match step cfg s e with
    | some s' => (stepActs cfg s e).map (n, ·) ++ historyFrom cfg (n + 1) s' es
    | none => []

def history (cfg : Settings) (es : List (Event V)) : List (Nat × Act) := historyFrom cfg 0 System.new es

/-- What is behind the lock after a part of a history. -/
def seen (past : List (Nat × Act)) : FailoverService := replay .new (past.map Prod.snd)

/-- The verdict that is read after `past` was written by a step that had asked the service that holds the work from then
on, and was answered so. `rest` is what is still to come; a step that is over has left the work there. -/
def Told (verdict : CheckOutcome) (answer : Probe) (past rest : List (Nat × Act)) : Prop :=
  ∃ before n after, past = before ++ (n, .find verdict) :: after ∧ (∀ a ∈ after, a.2.finds = false) ∧
    (n, .ask (seen (before ++ [(n, .find verdict)])).currentIndex answer) ∈ before ∧
    ((∀ a ∈ rest, a.1 ≠ n) → ∀ a ∈ after, a.1 = n → a.2.moves = false)

/-- **What the last check found was asked for.** -/
structure Truthful (cfg : Settings) (past rest : List (Nat × Act)) : Prop where
  healthy : (seen past).lastCheck = .healthy → Told .healthy .well past rest
  unhealthy : (seen past).lastCheck = .unhealthy → Told .unhealthy .unwell past rest
  notRun : cfg.hasHealthChecker = false → (seen past).lastCheck = .notRun

section Histories

variable {cfg : Settings}

theorem map_snd_tag (n : Nat) (acts : List Act) : (acts.map (n, ·)).map Prod.snd = acts := by
  rw [List.map_map]
  exact List.map_id acts

/-- The replay of a whole history is the state after the run. -/
theorem replay_historyFrom {es : List (Event V)} {n : Nat} {s s' : System V} (h : run (step cfg) s es = some s') :
    replay s.service ((historyFrom cfg n s es).map Prod.snd) = s'.service := by
  induction es generalizing n s with
  | nil =>
    cases h
    rfl
  | cons e es ih =>
    obtain ⟨s₁, h₁, h⟩ := run_cons h
    simp only [historyFrom, h₁]
    rw [List.map_append, replay_append, map_snd_tag, ← step_eq_replay h₁]
    exact ih h

/-- **A reader who waits for the end of a step sees the state of the system.** -/
theorem replay_history {es : List (Event V)} {s : System V} (h : run (step cfg) System.new es = some s) :
    seen (history cfg es) = s.service := replay_historyFrom h

/-- Later steps have higher numbers. -/
theorem le_of_mem_historyFrom {es : List (Event V)} {n : Nat} {s : System V} {a : Nat × Act}
    (h : a ∈ historyFrom cfg n s es) : n ≤ a.1 := by
  induction es generalizing n s with
  | nil => cases h
  | cons e es ih =>
    unfold historyFrom at h
    split at h
    · rcases List.mem_append.mp h with h | h
      · obtain ⟨act, -, rfl⟩ := List.mem_map.mp h
        exact Nat.le_refl n
      · exact Nat.le_of_succ_le (ih h)
    · cases h

/-- The last verdict written is the one that is read. -/
theorem lastCheck_replay (f : FailoverService) (acts : List (Nat × Act)) :
    (replay f (acts.map Prod.snd)).lastCheck = f.lastCheck ∧ (∀ a ∈ acts, a.2.finds = false) ∨
      ∃ before n after, acts = before ++ (n, .find (replay f (acts.map Prod.snd)).lastCheck) :: after ∧
        ∀ a ∈ after, a.2.finds = false := by
  induction acts generalizing f with
  | nil => exact .inl ⟨rfl, by rintro _ ⟨⟩⟩
  | cons a acts ih =>
    obtain ⟨n, act⟩ := a
    rw [List.map_cons, replay_cons]
    rcases ih (f.after act) with ⟨hlast, hnone⟩ | ⟨before, m, after, hacts, hnone⟩
    · cases act with
      | find verdict => exact .inr ⟨[], n, acts, by rw [hlast]; rfl, hnone⟩
      | ask i answer => exact .inl ⟨hlast, List.forall_mem_cons.mpr ⟨rfl, hnone⟩⟩
      | move i => exact .inl ⟨hlast, List.forall_mem_cons.mpr ⟨rfl, hnone⟩⟩
      | stamp now => exact .inl ⟨hlast, List.forall_mem_cons.mpr ⟨rfl, hnone⟩⟩
      | drop => exact .inl ⟨hlast, List.forall_mem_cons.mpr ⟨rfl, hnone⟩⟩
    · refine .inr ⟨(n, act) :: before, m, after, ?_, hnone⟩
      rw [List.cons_append, ← hacts]

end Histories

/-! ## Rounds with a health checker -/

/-- The answer a verdict stands for. -/
def CheckOutcome.answer : CheckOutcome → Option Probe
  | .healthy => some .well
  | .unhealthy => some .unwell
  | .notRun | .probeFailed => none

/-- After `past`, each verdict among the acts is the answer of the service that holds the work, and a step does not move
the work after its last verdict. -/
def WellTold (past : List Act) (f : FailoverService) : List Act → Prop
  | [] => True
  | a :: acts =>
    (∀ verdict, a = .find verdict → (∀ p ∈ verdict.answer, .ask f.currentIndex p ∈ past) ∧
      ((∀ x ∈ acts, x.finds = false) → ∀ x ∈ acts, x.moves = false)) ∧
    WellTold (past ++ [a]) (f.after a) acts

section Blocks

variable {cfg : Settings} {f : FailoverService} {probe : Nat → Probe} {past acts tail : List Act}

/-- Acts that find nothing have nothing to tell. -/
theorem wellTold_append (hnone : ∀ a ∈ acts, a.finds = false) :
    WellTold past f (acts ++ tail) ↔ WellTold (past ++ acts) (replay f acts) tail := by
  induction acts generalizing past f with
  | nil => simp
  | cons a acts ih =>
    have hfirst : ∀ verdict, a ≠ .find verdict := by
      rintro verdict rfl
      cases hnone _ List.mem_cons_self
    rw [List.cons_append, WellTold, ih fun x hx => hnone x (List.mem_cons_of_mem _ hx), replay_cons,
      List.append_cons past a acts]
    refine ⟨fun h => h.2, fun h => ⟨?_, h⟩⟩
    intro verdict hverdict
    exact absurd hverdict (hfirst verdict)

/-- What holds of a verdict wherever it stands among the acts. -/
theorem WellTold.split {a b : List Act} {verdict : CheckOutcome} (h : WellTold past f (a ++ .find verdict :: b)) :
    (∀ p ∈ verdict.answer, .ask (replay f a).currentIndex p ∈ past ++ a) ∧
      ((∀ x ∈ b, x.finds = false) → ∀ x ∈ b, x.moves = false) := by
  induction a generalizing past f with
  | nil =>
    obtain ⟨htold, hstays⟩ := h.1 verdict rfl
    exact ⟨by simpa using htold, hstays⟩
  | cons x a ih =>
    obtain ⟨htold, hstays⟩ := ih h.2
    refine ⟨?_, hstays⟩
    rwa [List.append_cons past x a, replay_cons]

/-- The work goes to a service that was just asked. -/
theorem wellTold_takeOver {found : Option Nat} (h : ∀ idx ∈ found, .ask idx .well ∈ past) :
    WellTold past f (takeOver found) := by
  cases found with
  | none => trivial
  | some idx =>
    refine ⟨nofun, ?_, trivial⟩
    rintro verdict hverdict
    cases hverdict
    refine ⟨?_, fun _ => by rintro _ ⟨⟩⟩
    intro p hp
    cases hp
    exact List.mem_append_left _ (h idx rfl)

variable (hchecker : cfg.hasHealthChecker = true)
include hchecker

theorem wellTold_tryEach (indices : List Nat) :
    WellTold past f ((tryEach cfg probe indices).1 ++ takeOver (tryEach cfg probe indices).2) := by
  rw [wellTold_append fun a ha => finds_tryEach cfg probe ha]
  apply wellTold_takeOver
  intro idx hidx
  exact List.mem_append_right _ (ask_mem_tryEach cfg probe hchecker hidx)

theorem wellTold_demotion : WellTold [] f (demotionActs cfg f probe) := by
  unfold demotionActs
  rw [if_pos hchecker]
  refine ⟨nofun, ?_⟩
  cases hprobe : probe f.currentIndex with
  | well =>
    refine ⟨?_, trivial⟩
    rintro verdict hverdict
    cases hverdict
    refine ⟨?_, fun _ => by rintro _ ⟨⟩⟩
    intro p hp
    cases hp
    exact List.mem_singleton_self _
  | raised e =>
    refine ⟨?_, trivial⟩
    rintro verdict hverdict
    cases hverdict
    exact ⟨nofun, fun _ => by rintro _ ⟨⟩⟩
  | unwell =>
    refine ⟨?_, wellTold_tryEach hchecker _⟩
    rintro verdict hverdict
    cases hverdict
    refine ⟨?_, ?_⟩
    · intro p hp
      cases hp
      exact List.mem_singleton_self _
    · -- A candidate that takes over is found healthy, so a step that ends in this verdict moves nothing.
      intro hnone x hx
      rcases List.mem_append.mp hx with hx | hx
      · exact moves_tryEach cfg probe hx
      · cases hfound : (tryEach cfg probe
          (List.range' (f.currentIndex + 1) (cfg.services.length - (f.currentIndex + 1)))).2 with
        | none =>
          rw [hfound] at hx
          cases hx
        | some idx =>
          rw [hfound] at hnone
          cases hnone (.find .healthy) (List.mem_append_right _ (List.mem_cons_of_mem _ List.mem_cons_self))

theorem wellTold_upgrade (now : Instant) : WellTold [] f (upgradeActs cfg f probe now) := by
  unfold upgradeActs
  split
  · trivial
  · split
    · trivial
    · exact ⟨nofun, wellTold_tryEach hchecker _⟩

omit hchecker in
theorem wellTold_call (c : Call V) : WellTold [] f (callActs cfg f c) := by
  unfold callActs
  split
  · split
    · exact ⟨nofun, trivial⟩
    · trivial
  · exact ⟨nofun, trivial⟩
  · trivial

/-- **Every step.** -/
theorem wellTold_step (s : System V) (e : Event V) : WellTold [] s.service (stepActs cfg s e) := by
  cases e with
  | call => trivial
  | round => trivial
  | step i answer =>
    rw [stepActs]
    split
    · exact wellTold_call _
    · trivial
  | check j probe now =>
    rw [stepActs]
    split
    · exact wellTold_demotion hchecker
    · exact wellTold_upgrade hchecker now
    · trivial

end Blocks

/-- A part of a tagged list is tagged. -/
theorem map_tag_eq_append {n m : Nat} {acts : List Act} {a : Act} {before after : List (Nat × Act)}
    (h : acts.map (n, ·) = before ++ (m, a) :: after) :
    n = m ∧ ∃ b c, acts = b ++ a :: c ∧ before = b.map (n, ·) ∧ after = c.map (n, ·) := by
  obtain ⟨b, l, rfl, hb, hl⟩ := List.map_eq_append_iff.mp h
  obtain ⟨x, c, rfl, hx, hc⟩ := List.map_eq_cons_iff.mp hl
  cases hx
  exact ⟨rfl, b, c, rfl, hb.symm, hc.symm⟩

section Runs

variable {cfg : Settings}

/-- **Every run of a service with a checker**: wherever a verdict stands in the history. -/
theorem told_historyFrom (hchecker : cfg.hasHealthChecker = true) {es : List (Event V)} {n m : Nat} {s : System V}
    {before rest : List (Nat × Act)} {verdict : CheckOutcome}
    (h : historyFrom cfg n s es = before ++ (m, .find verdict) :: rest) :
    (∀ p ∈ verdict.answer, (m, .ask (replay s.service (before.map Prod.snd)).currentIndex p) ∈ before) ∧
      ((∀ a ∈ rest, a.1 = m → a.2.finds = false) → ∀ a ∈ rest, a.1 = m → a.2.moves = false) := by
  induction es generalizing n s before with
  | nil => exact absurd h.symm (List.append_ne_nil_of_right_ne_nil _ (List.cons_ne_nil _ _))
  | cons e es ih =>
    unfold historyFrom at h
    split at h
    · rename_i s' hstep
      rcases List.append_eq_append_iff.mp h with ⟨c, hbefore, htail⟩ | ⟨c, hblock, hrest⟩
      · -- The verdict stands in a later step.
        obtain ⟨htold, hstays⟩ := ih htail
        refine ⟨fun p hp => ?_, hstays⟩
        rw [hbefore, List.map_append, map_snd_tag, replay_append, ← step_eq_replay hstep]
        exact List.mem_append_right _ (htold p hp)
      · cases c with
        | nil =>
          rw [List.append_nil] at hblock
          have htail : historyFrom cfg (n + 1) s' es = [] ++ (m, .find verdict) :: rest := hrest.symm
          obtain ⟨htold, hstays⟩ := ih htail
          refine ⟨fun p hp => ?_, hstays⟩
          cases htold p hp
        | cons x c =>
          -- It stands in this one.
          obtain ⟨rfl, rfl⟩ := List.cons_eq_cons.mp hrest
          obtain ⟨rfl, b, d, hacts, rfl, rfl⟩ := map_tag_eq_append hblock
          have hwell := wellTold_step hchecker s e
          rw [hacts] at hwell
          obtain ⟨htold, hstays⟩ := hwell.split
          refine ⟨?_, ?_⟩
          · intro p hp
            rw [map_snd_tag]
            exact List.mem_map.mpr ⟨_, htold p hp, rfl⟩
          · intro hnone a ha htag
            have hmoves := hstays fun x hx =>
              hnone (n, x) (List.mem_append_left _ (List.mem_map.mpr ⟨x, hx, rfl⟩)) rfl
            rcases List.mem_append.mp ha with ha | ha
            · obtain ⟨x, hx, rfl⟩ := List.mem_map.mp ha
              exact hmoves x hx
            · have hlater := le_of_mem_historyFrom ha
              omega
    · exact absurd h.symm (List.append_ne_nil_of_right_ne_nil _ (List.cons_ne_nil _ _))

/-- A verdict that is read at any moment of a run was asked for. -/
theorem told_of_lastCheck (hchecker : cfg.hasHealthChecker = true) {es : List (Event V)} {past rest : List (Nat × Act)}
    (h : history cfg es = past ++ rest) {p : Probe} (hp : p ∈ (seen past).lastCheck.answer) :
    Told (seen past).lastCheck p past rest := by
  rcases lastCheck_replay .new past with ⟨hlast, -⟩ | ⟨before, n, after, hpast, hnone⟩
  · unfold seen at hp
    rw [hlast] at hp
    cases hp
  · replace hpast : past = before ++ (n, .find (seen past).lastCheck) :: after := hpast
    have hsplit : historyFrom cfg 0 System.new es = before ++ (n, .find (seen past).lastCheck) :: (after ++ rest) := by
      rw [← List.cons_append, ← List.append_assoc, ← hpast]
      exact h
    obtain ⟨htold, hstays⟩ := told_historyFrom hchecker hsplit
    refine ⟨before, n, after, hpast, hnone, ?_, ?_⟩
    · have hsame : (seen (before ++ [(n, .find (seen past).lastCheck)])).currentIndex =
          (replay .new (before.map Prod.snd)).currentIndex := by
        unfold seen
        rw [List.map_append, replay_append]
        rfl
      rw [hsame]
      exact htold p hp
    · intro hover a ha htag
      refine hstays ?_ a (List.mem_append_left _ ha) htag
      intro x hx hxtag
      rcases List.mem_append.mp hx with hx | hx
      · exact hnone x hx
      · exact absurd hxtag (hover x hx)

end Runs

/-! ## The result -/

/-- A round is about to take the work back up, and there is nobody to ask: the work is not on the first service, and the
cooldown has run out. -/
def climbsUnasked (cfg : Settings) (s : System V) : Event V → Bool
  | .check j _ now =>
    !cfg.hasHealthChecker && decide (s.rounds[j]? = some .upgrade) && decide (s.service.currentIndex ≠ 0) &&
      !decide (now - s.service.lastUpgradeAttempt < cfg.upgradeCooldown)
  | _ => false

section Unasked

variable {cfg : Settings} {s : System V} {e : Event V}

/-- Without a checker the climb is the one place that finds anything. -/
theorem finds_stepActs (hchecker : cfg.hasHealthChecker = false) (h : climbsUnasked cfg s e = false) :
    ∀ a ∈ stepActs cfg s e, a.finds = false := by
  intro a ha
  cases e with
  | call => cases ha
  | round => cases ha
  | step i answer =>
    rw [stepActs] at ha
    split at ha
    · unfold callActs at ha
      split at ha
      · split at ha
        · rw [List.mem_singleton.mp ha]
          rfl
        · cases ha
      · rw [List.mem_singleton.mp ha]
        rfl
      · cases ha
    · cases ha
  | check j probe now =>
    rw [stepActs] at ha
    split at ha
    · simp [demotionActs, hchecker] at ha
    · rename_i hround
      unfold upgradeActs at ha
      split at ha
      · cases ha
      · rename_i hindex
        split at ha
        · cases ha
        · rename_i hcooldown
          simp [climbsUnasked, hchecker, hround, hindex, hcooldown] at h
    · cases ha

/-- The work is back on the first service, and nobody was asked. -/
theorem replay_climbsUnasked (h : climbsUnasked cfg s e = true) (f : FailoverService) :
    (replay f (stepActs cfg s e)).lastCheck = .healthy := by
  cases e with
  | call => cases h
  | round => cases h
  | step i answer => cases h
  | check j probe now =>
    simp only [climbsUnasked, Bool.and_eq_true, Bool.not_eq_true', decide_eq_true_eq, decide_eq_false_iff_not] at h
    obtain ⟨⟨⟨hchecker, hround⟩, hindex⟩, hcooldown⟩ := h
    have hindices : List.range s.service.currentIndex = 0 :: (List.range (s.service.currentIndex - 1)).map Nat.succ := by
      rw [← List.range_succ_eq_map, Nat.sub_add_cancel (Nat.pos_of_ne_zero hindex)]
    simp only [stepActs, hround, upgradeActs, if_neg hindex, if_neg hcooldown, hindices, tryEach, hchecker,
      Bool.false_eq_true, if_false]
    rfl

/-- Such a step is enabled. -/
theorem step_climbsUnasked (h : climbsUnasked cfg s e = true) : ∃ s', step cfg s e = some s' := by
  cases e with
  | call => cases h
  | round => cases h
  | step i answer => cases h
  | check j probe now =>
    simp only [climbsUnasked, Bool.and_eq_true, decide_eq_true_eq] at h
    have hround := h.1.1.2
    exact ⟨_, by rw [step, hround]; rfl⟩

/-- A run in which nobody climbs unasked finds nothing. -/
theorem finds_historyFrom (hchecker : cfg.hasHealthChecker = false) {es : List (Event V)} {n : Nat} {s : System V}
    (h : Meets (step cfg) (fun s e => climbsUnasked cfg s e = false) s es) :
    ∀ a ∈ historyFrom cfg n s es, a.2.finds = false := by
  induction es generalizing n s with
  | nil => rintro _ ⟨⟩
  | cons e es ih =>
    intro a ha
    unfold historyFrom at ha
    split at ha
    · rename_i s' hstep
      rw [Meets, hstep] at h
      rcases List.mem_append.mp ha with ha | ha
      · obtain ⟨act, hact, rfl⟩ := List.mem_map.mp ha
        exact finds_stepActs hchecker h.1 act hact
      · exact ih h.2 a ha
    · cases ha

/-- A run in which nothing is ever found climbs nowhere unasked. -/
theorem meets_of_notRun {es : List (Event V)} {n : Nat} {s : System V}
    (h : ∀ past rest, historyFrom cfg n s es = past ++ rest → (replay s.service (past.map Prod.snd)).lastCheck = .notRun) :
    Meets (step cfg) (fun s e => climbsUnasked cfg s e = false) s es := by
  induction es generalizing n s with
  | nil => trivial
  | cons e es ih =>
    have hasked : climbsUnasked cfg s e = false := by
      by_contra hclimb
      rw [Bool.not_eq_false] at hclimb
      obtain ⟨s', hstep⟩ := step_climbsUnasked hclimb
      have hread := h ((stepActs cfg s e).map (n, ·)) (historyFrom cfg (n + 1) s' es) (by rw [historyFrom, hstep])
      rw [map_snd_tag, replay_climbsUnasked hclimb] at hread
      cases hread
    refine ⟨hasked, ?_⟩
    cases hstep : step cfg s e with
    | none => trivial
    | some s' =>
      refine ih (n := n + 1) fun past rest hsplit => ?_
      have hread := h ((stepActs cfg s e).map (n, ·) ++ past) rest (by
        rw [historyFrom, hstep, List.append_assoc, ← hsplit])
      rwa [List.map_append, map_snd_tag, replay_append, ← step_eq_replay hstep] at hread

theorem meets_of_checker (hchecker : cfg.hasHealthChecker = true) (es : List (Event V)) (s : System V) :
    Meets (step cfg) (fun s e => climbsUnasked cfg s e = false) s es := by
  induction es generalizing s with
  | nil => trivial
  | cons e es ih =>
    refine ⟨?_, ?_⟩
    · cases e <;> simp [climbsUnasked, hchecker]
    · split
      · exact ih _
      · trivial

end Unasked

/-- **The last check reports what was asked, and nothing else, in exactly those runs in which no round takes the work back
up without a checker to ask.** The runs are those of any number of calls and rounds among each other, with whatever
services, probes and clocks answer; `past` is what has happened at any moment of such a run. -/
theorem truthful_iff_asked (cfg : Settings) (es : List (Event V)) :
    (∀ past rest, history cfg es = past ++ rest → Truthful cfg past rest) ↔
      Meets (step cfg) (fun s e => climbsUnasked cfg s e = false) System.new es := by
  cases hchecker : cfg.hasHealthChecker with
  | true =>
    refine ⟨fun _ => meets_of_checker hchecker es _, fun _ past rest hsplit => ⟨?_, ?_, ?_⟩⟩
    · intro hread
      have htold := told_of_lastCheck hchecker hsplit (p := .well) (by rw [hread]; rfl)
      rwa [hread] at htold
    · intro hread
      have htold := told_of_lastCheck hchecker hsplit (p := .unwell) (by rw [hread]; rfl)
      rwa [hread] at htold
    · intro hnone
      rw [hchecker] at hnone
      cases hnone
  | false =>
    refine ⟨fun h => meets_of_notRun fun past rest hsplit => (h past rest hsplit).notRun hchecker, ?_⟩
    intro hmeets past rest hsplit
    have hnone : ∀ a ∈ past, a.2.finds = false := by
      intro a ha
      refine finds_historyFrom (n := 0) hchecker hmeets a ?_
      rw [history] at hsplit
      rw [hsplit]
      exact List.mem_append_left _ ha
    have hread : (seen past).lastCheck = .notRun := by
      rcases lastCheck_replay .new past with ⟨hlast, -⟩ | ⟨before, n, after, hpast, -⟩
      · exact hlast
      · have hfind := hnone (n, _) (by rw [hpast]; exact List.mem_append_right _ List.mem_cons_self)
        cases hfind
    refine ⟨?_, ?_, fun _ => hread⟩
    · intro hhealthy
      rw [hread] at hhealthy
      cases hhealthy
    · intro hunhealthy
      rw [hread] at hunhealthy
      cases hunhealthy

/-- Two services and nobody to ask. -/
def Settings.twoUnasked : Settings := ⟨["structured", "plain"], false, 300, by decide⟩

/-- The first service throws, the second takes over, and after the cooldown a round takes the work back. -/
def climbAfterCooldown : List (Event Unit) :=
  [.call, .step 0 (.error (.said "broken")), .step 0 (.error (.said "broken")), .step 0 (.error (.said "broken")), .round,
    .check 0 (fun _ => .unwell) 301, .check 0 (fun _ => .unwell) 301]

/-- **A service without a checker is found healthy**, and nobody was asked. -/
theorem found_healthy_unasked :
    Settings.twoUnasked.hasHealthChecker = false ∧
      (run (step Settings.twoUnasked) System.new climbAfterCooldown).map (·.service.lastCheck) = some .healthy ∧
      ¬ ∀ past rest, history Settings.twoUnasked climbAfterCooldown = past ++ rest →
        Truthful Settings.twoUnasked past rest := by
  refine ⟨rfl, rfl, ?_⟩
  intro h
  have hread := (h (history Settings.twoUnasked climbAfterCooldown) [] (List.append_nil _).symm).notRun rfl
  have hfound : (seen (history Settings.twoUnasked climbAfterCooldown)).lastCheck = .healthy := rfl
  rw [hfound] at hread
  cases hread

end LinkShortener.Failover
