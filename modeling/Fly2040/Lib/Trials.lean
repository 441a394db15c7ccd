import Fly2040.Lib.Moments
/-!
# Trials until one succeeds

A plan of trials is made one after another until one succeeds; whether a trial does depends on its
number. Plans are put together: what a plan makes after another one starts with the number that the
first one leaves, if none of its trials succeeds. Programs that make trials are compared with their
plan by what they do: the operations of the run, how it ends and the state that is left.
-/

namespace Fly2040.Trials

variable {α : Type}

/-- The trials that are made, up to the first that succeeds. -/
def upTo (succeeds : Nat → α → Bool) : (number : Nat) → (plan : List α) → List α
  | _, [] => []
  | number, trial :: rest =>
    if succeeds number trial then [trial] else trial :: upTo succeeds (number + 1) rest

/-- The trial that succeeds. -/
def success (succeeds : Nat → α → Bool) : (number : Nat) → (plan : List α) → Option α
  | _, [] => none
  | number, trial :: rest =>
    if succeeds number trial then some trial else success succeeds (number + 1) rest

section

variable {succeeds : Nat → α → Bool} {number : Nat} {plan next : List α} {trial : α}

/-- All of a plan is made if none of its trials succeeds, and then what comes after it. -/
theorem append_of_none (failed : success succeeds number plan = none) :
    success succeeds number (plan ++ next) = success succeeds (number + plan.length) next ∧
      upTo succeeds number (plan ++ next) = plan ++ upTo succeeds (number + plan.length) next := by
  induction plan generalizing number with
  | nil => exact ⟨rfl, rfl⟩
  | cons first rest ih =>
    have count : number + 1 + rest.length = number + (rest.length + 1) := by omega
    rw [success] at failed
    rw [List.cons_append, success, upTo]
    split at failed
    · exact nomatch failed
    · rename_i fails
      have both := ih failed
      rw [if_neg fails, if_neg fails, both.1, both.2, List.length_cons, count]
      exact ⟨rfl, rfl⟩

/-- If no trial succeeds, all are made. -/
theorem upTo_of_none (failed : success succeeds number plan = none) :
    upTo succeeds number plan = plan := by
  have all := (append_of_none failed : _ ∧ upTo succeeds number (plan ++ []) = _).2
  rwa [upTo, List.append_nil] at all

/-- A trial that succeeds leaves nothing to what comes after the plan. -/
theorem append_of_some (worked : success succeeds number plan = some trial) :
    success succeeds number (plan ++ next) = some trial ∧
      upTo succeeds number (plan ++ next) = upTo succeeds number plan := by
  induction plan generalizing number with
  | nil => exact nomatch worked
  | cons first rest ih =>
    rw [success] at worked
    rw [List.cons_append, success, upTo, upTo]
    split at worked
    · rename_i works
      rw [if_pos works, if_pos works, if_pos works]
      exact ⟨worked, rfl⟩
    · rename_i fails
      have both := ih worked
      rw [if_neg fails, if_neg fails, if_neg fails, both.1, both.2]
      exact ⟨rfl, rfl⟩

/-- The trial that succeeds is one of the plan. -/
theorem success_mem (worked : success succeeds number plan = some trial) : trial ∈ plan := by
  induction plan generalizing number with
  | nil => exact nomatch worked
  | cons first rest ih =>
    rw [success] at worked
    split at worked
    · exact List.mem_cons.mpr (.inl (Option.some.inj worked).symm)
    · exact List.mem_cons.mpr (.inr (ih worked))

/-- If no trial that is made succeeds, none of the plan does. -/
theorem success_none (failed : ∀ index trial, (upTo succeeds number plan)[index]? = some trial →
    succeeds (number + index) trial = false) : success succeeds number plan = none := by
  induction plan generalizing number with
  | nil => rfl
  | cons first rest ih =>
    rw [upTo] at failed
    by_cases works : succeeds number first = true
    · rw [if_pos works] at failed
      exact nomatch works.symm.trans (failed 0 first rfl)
    · rw [if_neg works] at failed
      rw [success, if_neg works]
      apply ih
      intro index trial made
      have fails := failed (index + 1) trial made
      rwa [← Nat.add_assoc, Nat.add_right_comm] at fails

/-- A trial that succeeds is the last one that is made. -/
theorem success_some {index : Nat} (made : (upTo succeeds number plan)[index]? = some trial)
    (works : succeeds (number + index) trial = true) :
    success succeeds number plan = some trial ∧
      (upTo succeeds number plan).length = index + 1 := by
  induction plan generalizing number index with
  | nil => exact nomatch made
  | cons first rest ih =>
    rw [upTo] at made ⊢
    rw [success]
    by_cases begins : succeeds number first = true
    · rw [if_pos begins] at made ⊢
      rw [if_pos begins]
      cases index with
      | zero => exact ⟨made, rfl⟩
      | succ index => exact nomatch made
    · rw [if_neg begins] at made ⊢
      rw [if_neg begins]
      cases index with
      | zero =>
        cases made
        exact absurd works begins
      | succ index =>
        have later : succeeds (number + 1 + index) trial = true := by
          rwa [Nat.add_right_comm, Nat.add_assoc]
        have rest' := ih made later
        exact ⟨rest'.1, by rw [List.length_cons, rest'.2]⟩

end

end Fly2040.Trials

namespace Fly2040.Durable.Prog

variable {σ τ ω ω' ε α β : Type}

/-- What a program does: the operations of its run, how it ends and the state that is left. -/
structure Does (program : Prog σ ω ε α) (state : σ) (operations : List ω) (outcome : Except ε α)
    (later : σ) : Prop where
  /-- The operations. -/
  trace : (program state).trace.map Prod.snd = operations
  /-- The end. -/
  outcome : (program state).outcome = outcome
  /-- The state that is left. -/
  final : (program state).final = later

section Rules

variable {state later last : σ} {operations rest : List ω} {value : α}

/-- A pure program does nothing. -/
theorem does_pure (value : α) : (pure value : Prog σ ω ε α).Does state [] (.ok value) state :=
  ⟨rfl, rfl, rfl⟩

/-- A volatile change. -/
theorem does_update (change : σ → σ) :
    (update change : Prog σ ω ε Unit).Does state [] (.ok ()) (change state) := ⟨rfl, rfl, rfl⟩

/-- An operation. -/
theorem does_issue (operation : ω) (effect : σ → σ) :
    (issue operation effect : Prog σ ω ε Unit).Does state [operation] (.ok ()) (effect state) :=
  ⟨rfl, rfl, rfl⟩

/-- A stop. -/
theorem does_stop (reason : ε) : (stop reason : Prog σ ω ε α).Does state [] (.error reason) state :=
  ⟨rfl, rfl, rfl⟩

/-- What a program does is a matter of its run. -/
theorem Does.of_run {program program' : Prog σ ω ε α} {start : σ} {outcome : Except ε α}
    (does : program.Does start operations outcome later) (same : program' state = program start) :
    program'.Does state operations outcome later :=
  ⟨by rw [same]; exact does.trace, by rw [same]; exact does.outcome, by rw [same]; exact does.final⟩

/-- A sequence does what its parts do. -/
theorem Does.bind {first : Prog σ ω ε α} {next : α → Prog σ ω ε β} {outcome : Except ε β}
    (head : first.Does state operations (.ok value) later)
    (tail : (next value).Does later rest outcome last) :
    (first >>= next).Does state (operations ++ rest) outcome last := by
  have run := bind_of_ok next head.outcome
  rw [head.final] at run
  refine ⟨?_, ?_, ?_⟩
  · rw [run, List.map_append, head.trace, tail.trace]
  · rw [run, tail.outcome]
  · rw [run, tail.final]

/-- A sequence that begins with a look does what the rest does with what it sees. -/
theorem does_read {read : σ → α} {next : α → Prog σ ω ε β} {outcome : Except ε β}
    (tail : (next (read state)).Does state operations outcome last) :
    (gets read >>= next).Does state operations outcome last :=
  ⟨tail.trace, tail.outcome, tail.final⟩

/-- A sequence that begins with an operation does it, and then what the rest does. -/
theorem does_then {operation : ω} {effect : σ → σ} {next : Unit → Prog σ ω ε β}
    {outcome : Except ε β} (tail : (next ()).Does (effect state) operations outcome last) :
    (issue operation effect >>= next).Does state (operation :: operations) outcome last :=
  ⟨congrArg (operation :: ·) tail.trace, tail.outcome, tail.final⟩

/-- A sequence whose first part stops does no more. -/
theorem Does.bind_stop {first : Prog σ ω ε α} {next : α → Prog σ ω ε β} {reason : ε}
    (head : first.Does state operations (.error reason) later) :
    (first >>= next).Does state operations (.error reason) later := by
  have run := bind_of_error next head.outcome
  refine ⟨?_, ?_, ?_⟩
  · rw [run, head.trace]
  · rw [run]
  · rw [run, head.final]

/-- A program on a component does there what it does. -/
theorem Does.zoom {view : τ → σ} {put : τ → σ → τ} {embed : ω → ω'} {program : Prog σ ω ε α}
    {whole : τ} {outcome : Except ε α} (does : program.Does (view whole) operations outcome later) :
    (program.zoom view put embed).Does whole (operations.map embed) outcome (put whole later) := by
  refine ⟨?_, does.outcome, congrArg (put whole) does.final⟩
  rw [← does.trace]
  simp [Prog.zoom]

end Rules

end Fly2040.Durable.Prog
