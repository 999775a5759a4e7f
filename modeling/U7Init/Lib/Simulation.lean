import Mathlib.Tactic

/-!
# Runs and Simulations

A run of a labelled step relation is recorded with its steps: the state each of them was
taken in, and its label. A simulation relates the states of two step relations so that
every step of the first is matched by a step of the second, or is silent and matched by
none; it then matches whole runs.

## Main results

* `Run.invariant`: the rule for invariants.
* `Simulates.run`: a simulation of steps is a simulation of runs.
-/

namespace Simulation

variable {A B E F : Type*}

/-- The runs from `a₀`: the steps that were taken, and the state that is reached. -/
inductive Run (Step : A → E → A → Prop) (a₀ : A) : List (A × E) → A → Prop
  | nil : Run Step a₀ [] a₀
  | snoc {trace : List (A × E)} {a a' : A} {e : E} :
      Run Step a₀ trace a → Step a e a' → Run Step a₀ (trace ++ [(a, e)]) a'

variable {Step : A → E → A → Prop} {a₀ a a' : A} {trace trace' : List (A × E)}

/-- **The invariant rule.** What holds at the start and is kept by every step holds in
every state that is reached. -/
theorem Run.invariant {I : A → Prop} (hstart : I a₀)
    (hstep : ∀ a e a', I a → Step a e a' → I a') (h : Run Step a₀ trace a) : I a := by
  induction h with
  | nil => exact hstart
  | snoc _ h ih => exact hstep _ _ _ ih h

/-! ### Simulations -/

/-- The steps of one run and those of another that match them: every step is silent, or
the next step of the other run matches it. -/
inductive Matched (M : A × E → B × F → Prop) (Silent : A × E → Prop) :
    List (A × E) → List (B × F) → Prop
  | nil : Matched M Silent [] []
  | visible {trace : List (A × E)} {other : List (B × F)} {step : A × E} {step' : B × F} :
      Matched M Silent trace other → M step step' →
      Matched M Silent (trace ++ [step]) (other ++ [step'])
  | silent {trace : List (A × E)} {other : List (B × F)} {step : A × E} :
      Matched M Silent trace other → Silent step →
      Matched M Silent (trace ++ [step]) other

theorem Matched.mono {M M' : A × E → B × F → Prop} {Silent Silent' : A × E → Prop}
    {trace : List (A × E)} {other : List (B × F)} (h : Matched M Silent trace other)
    (hM : ∀ step step', M step step' → M' step step')
    (hSilent : ∀ step, Silent step → Silent' step) : Matched M' Silent' trace other := by
  induction h with
  | nil => exact .nil
  | visible _ hstep ih => exact ih.visible (hM _ _ hstep)
  | silent _ hstep ih => exact ih.silent (hSilent _ hstep)

/-- From related states every step is matched, and related states are reached. -/
def Simulates (Step : A → E → A → Prop) (Step' : B → F → B → Prop) (R : A → B → Prop)
    (M : A × E → B × F → Prop) (Silent : A × E → Prop) : Prop :=
  ∀ a b e a', R a b → Step a e a' →
    (∃ f b', M (a, e) (b, f) ∧ Step' b f b' ∧ R a' b') ∨ (Silent (a, e) ∧ R a' b)

variable {Step' : B → F → B → Prop} {R : A → B → Prop} {M : A × E → B × F → Prop}
  {Silent : A × E → Prop} {b₀ : B}

/-- **A simulation of steps is a simulation of runs.** -/
theorem Simulates.run (h : Simulates Step Step' R M Silent) (hstart : R a₀ b₀)
    (hrun : Run Step a₀ trace a) :
    ∃ other b, Run Step' b₀ other b ∧ R a b ∧ Matched M Silent trace other := by
  induction hrun with
  | nil => exact ⟨[], b₀, .nil, hstart, .nil⟩
  | snoc _ hstep ih =>
      obtain ⟨other, b, hrun', hrel, hmatched⟩ := ih
      rcases h _ _ _ _ hrel hstep with ⟨f, b', hmatch, hstep', hrel'⟩ | ⟨hsilent, hrel'⟩
      · exact ⟨_, b', hrun'.snoc hstep', hrel', hmatched.visible hmatch⟩
      · exact ⟨other, b, hrun', hrel', hmatched.silent hsilent⟩

end Simulation
