import Mathlib.Data.List.Basic
/-!
# Runs of a system

A system takes one input at a time. A run is good if all its states are, and it is allowed if
all its steps are. Where a step from a good state leads to a good state exactly if it is
allowed, the good runs are exactly the allowed ones. A system may be watched: a record that
does not influence it is kept next to its state.
-/

namespace Fly2040.Runs

variable {σ ι γ : Type}

/-- Every state of a run is good. -/
def Always (next : σ → ι → σ) (good : σ → Prop) : σ → List ι → Prop
  | state, [] => good state
  | state, input :: rest => good state ∧ Always next good (next state input) rest

/-- Every step of a run is allowed. -/
def EachStep (next : σ → ι → σ) (allowed : σ → ι → Prop) : σ → List ι → Prop
  | _, [] => True
  | state, input :: rest => allowed state input ∧ EachStep next allowed (next state input) rest

/-- A system with a record of what it does. -/
def watched (next : σ → ι → σ) (watch : γ → σ → ι → γ) (state : σ × γ) (input : ι) : σ × γ :=
  (next state.1 input, watch state.2 state.1 input)

section Rules

variable {next : σ → ι → σ} {good better inv : σ → Prop} {allowed expected possible : σ → ι → Prop}
  {state : σ} {inputs : List ι}

/-- The first state of a good run is good. -/
theorem Always.first (always : Always next good state inputs) : good state := by
  cases inputs with
  | nil => exact always
  | cons input rest => exact always.1

/-- Good states may be read as less. -/
theorem Always.mono (always : Always next good state inputs)
    (weaker : ∀ state, good state → better state) : Always next better state inputs := by
  induction inputs generalizing state with
  | nil => exact weaker state always
  | cons input rest ih => exact ⟨weaker state always.1, ih always.2⟩

/-- What every step keeps holds throughout. -/
theorem always_of_step (keeps : ∀ state input, inv state → possible state input →
      inv (next state input)) (now : inv state) (steps : EachStep next possible state inputs) :
    Always next inv state inputs := by
  induction inputs generalizing state with
  | nil => exact now
  | cons input rest ih => exact ⟨now, ih (keeps state input now steps.1) steps.2⟩

/-- Every step is a step. -/
theorem eachStep_true : EachStep next (fun _ _ => True) state inputs := by
  induction inputs generalizing state with
  | nil => trivial
  | cons input rest ih => exact ⟨trivial, ih⟩

/-- What is allowed may be read as less. -/
theorem EachStep.mono (steps : EachStep next allowed state inputs)
    (weaker : ∀ state input, allowed state input → possible state input) :
    EachStep next possible state inputs := by
  induction inputs generalizing state with
  | nil => trivial
  | cons input rest ih => exact ⟨weaker state input steps.1, ih steps.2⟩

/-- Each step of a good run leads from a good state to a good state. -/
theorem Always.steps (always : Always next good state inputs) :
    EachStep next (fun state input => good state ∧ good (next state input)) state inputs := by
  induction inputs generalizing state with
  | nil => trivial
  | cons input rest ih => exact ⟨⟨always.1, always.2.first⟩, ih always.2⟩

/-- Where the invariant makes two properties of a step the same, they are the same for each step. -/
theorem eachStep_congr (keeps : ∀ state input, inv state → possible state input →
      inv (next state input))
    (same : ∀ state input, inv state → possible state input →
      (allowed state input ↔ expected state input))
    (now : inv state) (steps : EachStep next possible state inputs) :
    EachStep next allowed state inputs ↔ EachStep next expected state inputs := by
  induction inputs generalizing state with
  | nil => exact Iff.rfl
  | cons input rest ih =>
    exact and_congr (same state input now steps.1) (ih (keeps state input now steps.1) steps.2)

/-- Where the invariant makes two properties of a step the same and a step with one of them keeps
it, they are the same for each step. -/
theorem eachStep_congr_of_kept (keeps : ∀ state input, inv state → allowed state input →
      inv (next state input))
    (same : ∀ state input, inv state → (allowed state input ↔ expected state input))
    (now : inv state) :
    EachStep next allowed state inputs ↔ EachStep next expected state inputs := by
  induction inputs generalizing state with
  | nil => exact Iff.rfl
  | cons input rest ih =>
    constructor
    · intro each
      exact ⟨(same state input now).mp each.1, (ih (keeps state input now each.1)).mp each.2⟩
    · intro each
      have first := (same state input now).mpr each.1
      exact ⟨first, (ih (keeps state input now first)).mpr each.2⟩

/-- Where exactly the allowed steps lead from good states to good states, exactly the allowed
runs are good. -/
theorem always_iff_eachStep (keeps : ∀ state input, inv state → possible state input →
      inv (next state input))
    (exactly : ∀ state input, inv state → good state → possible state input →
      (good (next state input) ↔ allowed state input))
    (now : inv state) (start : good state) (steps : EachStep next possible state inputs) :
    Always next good state inputs ↔ EachStep next allowed state inputs := by
  induction inputs generalizing state with
  | nil => exact iff_of_true start trivial
  | cons input rest ih =>
    have one := exactly state input now start steps.1
    have rest' := fun after => ih (keeps state input now steps.1) after steps.2
    constructor
    · intro always
      have after := always.2.first
      exact ⟨one.mp after, (rest' after).mp always.2⟩
    · intro each
      have after := one.mpr each.1
      exact ⟨start, (rest' after).mpr each.2⟩

/-- Without an invariant, and with every step possible. -/
theorem always_iff_eachStep_of_good
    (exactly : ∀ state input, good state → (good (next state input) ↔ allowed state input))
    (start : good state) : Always next good state inputs ↔ EachStep next allowed state inputs := by
  have keeps : ∀ (state : σ) (input : ι), True → True → True := fun _ _ _ _ => trivial
  exact always_iff_eachStep keeps (fun state input _ now _ => exactly state input now) trivial
    start eachStep_true

end Rules

end Fly2040.Runs
