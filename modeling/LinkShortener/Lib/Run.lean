import Mathlib.Data.Option.Basic

/-!
# Runs of a partial step function

A system is a partial step function `step : S → E → Option S`; an event that is not enabled gives `none`. A run is a
list of events that are all enabled one after the other (`run`).

* `run_inv`: what every step keeps, every run keeps.
* `Meets C s es`: every step of the run of `es` from `s` is taken from a state that meets the condition `C`;
  `run_inv_of_meets` is the invariant rule for such runs, and `meets_iff_of_exact` is about conditions that are exact.
* `run_sim`: a system that follows every step of another follows its runs.
-/

namespace Runs

variable {S E : Type} {step : S → E → Option S}

/-- The state after a list of events, if all of them are enabled. -/
def run (step : S → E → Option S) : S → List E → Option S
  | s, [] => some s
  | s, e :: es => (step s e).bind (run step · es)

/-- The condition `C` holds of every state of the run with the event taken from it. -/
def Meets (step : S → E → Option S) (C : S → E → Prop) : S → List E → Prop
  | _, [] => True
  | s, e :: es => C s e ∧ match step s e with
    | some s' => Meets step C s' es
    | none => True

instance decidableMeets (step : S → E → Option S) (C : S → E → Prop) [∀ s e, Decidable (C s e)] :
    ∀ s es, Decidable (Meets step C s es)
  | _, [] => isTrue trivial
  | s, e :: es => by
    unfold Meets
    cases step s e with
    | none => exact inferInstanceAs (Decidable (C s e ∧ True))
    | some s' =>
      have := decidableMeets step C s' es
      exact inferInstanceAs (Decidable (C s e ∧ Meets step C s' es))

theorem run_cons {s s' : S} {e : E} {es : List E} (h : run step s (e :: es) = some s') :
    ∃ s₁, step s e = some s₁ ∧ run step s₁ es = some s' := by
  simpa [run, Option.bind_eq_some_iff] using h

/-- **Invariant rule.** -/
theorem run_inv {I : S → Prop} (hstep : ∀ {s e s'}, step s e = some s' → I s → I s') :
    ∀ {es : List E} {s s' : S}, run step s es = some s' → I s → I s'
  | [], _, _, h, hi => by
    cases h
    exact hi
  | _ :: _, _, _, h, hi => by
    obtain ⟨_, h₁, h₂⟩ := run_cons h
    exact run_inv hstep h₂ (hstep h₁ hi)

/-- **Invariant rule for conditional runs**: only the steps that meet the condition have to keep the invariant. -/
theorem run_inv_of_meets {C : S → E → Prop} {I : S → Prop}
    (hstep : ∀ {s e s'}, C s e → step s e = some s' → I s → I s') :
    ∀ {es : List E} {s s' : S}, Meets step C s es → run step s es = some s' → I s → I s'
  | [], _, _, _, h, hi => by
    cases h
    exact hi
  | _ :: _, _, _, hc, h, hi => by
    obtain ⟨_, h₁, h₂⟩ := run_cons h
    rw [Meets, h₁] at hc
    exact run_inv_of_meets hstep hc.2 h₂ (hstep hc.1 h₁ hi)

/-- **Rule for exact conditions**: the runs that meet a condition are those that reach good states only, if the condition
keeps an invariant that makes states good, and a good state is not reached without it. -/
theorem meets_iff_of_exact {C : S → E → Prop} {I A : S → Prop} (hgood : ∀ {s}, I s → A s)
    (hkeep : ∀ {s e s'}, C s e → step s e = some s' → I s → I s')
    (hexact : ∀ {s e s'}, step s e = some s' → I s → A s' → C s e) :
    ∀ {es : List E} {s t : S}, run step s es = some t → I s →
      ((∀ p s', p <+: es → run step s p = some s' → A s') ↔ Meets step C s es)
  | [], s, _, _, hi => by
    refine ⟨fun _ => trivial, ?_⟩
    intro _ p s' hp hs'
    obtain rfl := List.prefix_nil.mp hp
    cases hs'
    exact hgood hi
  | e :: es, s, t, h, hi => by
    obtain ⟨s₁, h₁, hrest⟩ := run_cons h
    constructor
    · intro hall
      have hnext : A s₁ := hall [e] s₁ (List.prefix_append [e] es) (by rw [run, h₁]; rfl)
      have hc := hexact h₁ hi hnext
      rw [Meets, h₁]
      refine ⟨hc, (meets_iff_of_exact hgood hkeep hexact hrest (hkeep hc h₁ hi)).mp ?_⟩
      intro p s' hp hs'
      refine hall (e :: p) s' (List.cons_prefix_cons.mpr ⟨rfl, hp⟩) ?_
      rw [run, h₁, Option.bind_some, hs']
    · intro hmeets p s' hp hs'
      rw [Meets, h₁] at hmeets
      cases p with
      | nil =>
        cases hs'
        exact hgood hi
      | cons e' p =>
        obtain ⟨rfl, hrestp⟩ := List.cons_prefix_cons.mp hp
        rw [run, h₁, Option.bind_some] at hs'
        exact (meets_iff_of_exact hgood hkeep hexact hrest (hkeep hmeets.1 h₁ hi)).mpr hmeets.2 p s' hrestp hs'

/-- **Simulation rule.** -/
theorem run_sim {S₀ : Type} {step₀ : S₀ → E → Option S₀} {R : S → S₀ → Prop}
    (hstep : ∀ {s e s' s₀}, step s e = some s' → R s s₀ → ∃ s₀', step₀ s₀ e = some s₀' ∧ R s' s₀') :
    ∀ {es : List E} {s s' : S} {s₀ : S₀}, run step s es = some s' → R s s₀ → ∃ s₀', run step₀ s₀ es = some s₀' ∧ R s' s₀'
  | [], _, _, s₀, h, hr => by
    cases h
    exact ⟨s₀, rfl, hr⟩
  | _ :: _, _, _, _, h, hr => by
    obtain ⟨_, h₁, h₂⟩ := run_cons h
    obtain ⟨s₁, h₁', hr₁⟩ := hstep h₁ hr
    obtain ⟨s₂, h₂', hr₂⟩ := run_sim hstep h₂ hr₁
    exact ⟨s₂, by rw [run, h₁', Option.bind_some, h₂'], hr₂⟩

end Runs
