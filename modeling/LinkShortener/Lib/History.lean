import Mathlib.Data.List.Induction
import LinkShortener.Lib.Run

/-!
# What a run has been through

`Passed P s es`: the run of `es` from `s` has taken a step of the kind `P`. `run_history` is the invariant rule for what is
true of a state and of the run that has led to it.
-/

namespace Runs

variable {S E : Type} {step : S → E → Option S} {P : S → E → S → Prop} {s s₁ s₂ : S} {e : E}
  {es : List E}

theorem run_append (before after : List E) (s : S) :
    run step s (before ++ after) = (run step s before).bind (run step · after) := by
  induction before generalizing s with
  | nil => rfl
  | cons e before ih =>
    rw [List.cons_append, run, run, Option.bind_assoc]
    exact congrArg _ (funext ih)

theorem run_concat (es : List E) (s : S) (e : E) : run step s (es ++ [e]) = (run step s es).bind (step · e) := by
  rw [run_append]
  exact congrArg _ (funext fun s => Option.bind_fun_some (step s e))

/-- The run of `es` from `s` has taken a step of the kind `P`. -/
def Passed (step : S → E → Option S) (P : S → E → S → Prop) (s : S) (es : List E) : Prop :=
  ∃ before e after s₁ s₂, es = before ++ e :: after ∧ run step s before = some s₁ ∧ step s₁ e = some s₂ ∧ P s₁ e s₂

/-- What a run has been through it goes on having been through. -/
theorem Passed.concat (h : Passed step P s es) : Passed step P s (es ++ [e]) := by
  obtain ⟨before, e', after, s₁, s₂, rfl, hbefore, hstep, hP⟩ := h
  exact ⟨before, e', after ++ [e], s₁, s₂, List.append_assoc _ _ _, hbefore, hstep, hP⟩

theorem Passed.last (hrun : run step s es = some s₁) (hstep : step s₁ e = some s₂) (hP : P s₁ e s₂) :
    Passed step P s (es ++ [e]) :=
  ⟨es, e, [], s₁, s₂, rfl, hrun, hstep, hP⟩

/-- **Invariant rule with the past**: a step may look at the run that has led to it. -/
theorem run_history {I : List E → S → Prop} (hnil : I [] s)
    (hstep : ∀ {es s₁ e s₂}, run step s es = some s₁ → step s₁ e = some s₂ → I es s₁ → I (es ++ [e]) s₂)
    (hrun : run step s es = some s₁) : I es s₁ := by
  induction es using List.reverseRecOn generalizing s₁ with
  | nil =>
    cases hrun
    exact hnil
  | append_singleton es e ih =>
    rw [run_concat] at hrun
    obtain ⟨s₀, hbefore, hlast⟩ := Option.bind_eq_some_iff.mp hrun
    exact hstep hbefore hlast (ih hbefore)

end Runs
