import Fly2040.Lib.Moments
/-!
# Views of a run

A program that does more than another, or keeps more, may be seen through a view: the state is
reduced to a part of it, and operations that do not belong to that part are left out. A program
shows another one if what is seen of its run is the run of that one. The rules follow the program
combinators, so that a program in which more is visible is compared with the plain one part by
part.
-/

namespace Fly2040.Durable

variable {σ τ ω ω' ε α β : Type}

/-- What is seen of a run. -/
def Run.seen (view : τ → σ) (visible : ω' → Option ω) (run : Run τ ω' ε α) : Run σ ω ε α where
  trace := run.trace.filterMap fun event => (visible event.2).map fun operation =>
    (view event.1, operation)
  outcome := run.outcome
  final := view run.final

namespace Prog

/-- What is seen of the run of a program is the run of another one. -/
def Shows (view : τ → σ) (visible : ω' → Option ω) (program : Prog τ ω' ε α) (state : τ)
    (shown : Prog σ ω ε α) : Prop :=
  (program state).seen view visible = shown (view state)

section Rules

variable {view : τ → σ} {visible : ω' → Option ω} {state : τ}

/-- What is seen is compared part by part. -/
theorem shows_of_parts {program : Prog τ ω' ε α} {shown : Prog σ ω ε α}
    (trace : ((program state).trace.filterMap fun event => (visible event.2).map fun operation =>
      (view event.1, operation)) = (shown (view state)).trace)
    (outcome : (program state).outcome = (shown (view state)).outcome)
    (final : view (program state).final = (shown (view state)).final) :
    program.Shows view visible state shown := by
  unfold Shows Run.seen
  rw [trace, outcome, final]

/-- The run of a sequence is a matter of the run of its first part. -/
theorem bind_run {first first' : Prog σ ω ε α} {next : α → Prog σ ω ε β} {start : σ}
    (same : first start = first' start) : (first >>= next) start = (first' >>= next) start := by
  change andThen first next start = andThen first' next start
  rw [andThen, andThen, same]

/-- What a program shows is a matter of the two runs. -/
theorem Shows.of_run {program program' : Prog τ ω' ε α} {shown shown' : Prog σ ω ε α} {start : τ}
    (shows : program.Shows view visible start shown) (same : program' state = program start)
    (same' : shown' (view state) = shown (view start)) :
    program'.Shows view visible state shown' := by
  unfold Shows
  rw [same, same']
  exact shows

/-- A pure program shows itself. -/
theorem shows_pure (value : α) :
    (pure value : Prog τ ω' ε α).Shows view visible state (pure value) := rfl

/-- A stop shows itself. -/
theorem shows_stop (reason : ε) :
    (stop reason : Prog τ ω' ε α).Shows view visible state (stop reason) := rfl

/-- A look at the part that is seen shows itself. -/
theorem shows_gets (read : σ → α) :
    (gets fun whole => read (view whole) : Prog τ ω' ε α).Shows view visible state (gets read) :=
  rfl

/-- An operation that is not visible shows nothing. -/
theorem shows_hidden {operation : ω'} {effect : τ → τ} (hidden : visible operation = none)
    (same : view (effect state) = view state) :
    (issue operation effect : Prog τ ω' ε Unit).Shows view visible state (pure ()) := by
  apply shows_of_parts _ rfl same
  change [(state, operation)].filterMap _ = []
  simp [hidden]

/-- A sequence shows the sequence of what its parts show. -/
theorem shows_bind {first : Prog τ ω' ε α} {next : α → Prog τ ω' ε β} {shown : Prog σ ω ε α}
    {nextShown : α → Prog σ ω ε β} (head : first.Shows view visible state shown)
    (rest : ∀ value later, first.Leaves state value later →
      (next value).Shows view visible later (nextShown value)) :
    (first >>= next).Shows view visible state (shown >>= nextShown) := by
  change (andThen first next state).seen view visible = andThen shown nextShown (view state)
  have part : (first state).seen view visible = shown (view state) := head
  unfold andThen
  rw [← part]
  cases ended : (first state).outcome with
  | error reason => simp only [Run.seen, ended]
  | ok value =>
    have tail : (next value (first state).final).seen view visible =
        nextShown value (view (first state).final) := rest value _ ⟨ended, rfl⟩
    simp only [Run.seen, ended] at tail ⊢
    rw [← tail, List.filterMap_append]

/-- What shows nothing in front of a program leaves what the program shows. -/
theorem shows_quiet {first : Prog τ ω' ε α} {next : α → Prog τ ω' ε β} {shown : Prog σ ω ε β}
    {value : α} (head : first.Shows view visible state (pure value))
    (rest : ∀ later, first.Leaves state value later →
      (next value).Shows view visible later shown) :
    (first >>= next).Shows view visible state shown := by
  have all : (first >>= next).Shows view visible state (pure value >>= fun _ => shown) := by
    apply shows_bind head
    intro value' later leaves
    have same : value' = value := by
      have outcome : (first state).outcome = .ok value := congrArg Run.outcome head
      exact Except.ok.inj (leaves.returned.symm.trans outcome)
    subst same
    exact rest later leaves
  exact all

/-- A program on a component shows itself, where the component is what is seen. -/
theorem shows_zoom {put : τ → σ → τ} {embed : ω → ω'} {program : Prog σ ω ε α}
    (lens : ∀ part, view (put state part) = part)
    (plain : ∀ operation, visible (embed operation) = some operation) :
    (program.zoom view put embed).Shows view visible state program := by
  apply shows_of_parts _ rfl (lens _)
  change ((program (view state)).trace.map fun event =>
    (put state event.1, embed event.2)).filterMap _ = _
  rw [List.filterMap_map]
  simp [lens, plain]

/-- A program returns exactly what it shows. -/
theorem Shows.leaves_iff {program : Prog τ ω' ε α} {shown : Prog σ ω ε α} {value : α} {part : σ}
    (shows : program.Shows view visible state shown) :
    shown.Leaves (view state) value part ↔
      ∃ later, program.Leaves state value later ∧ view later = part := by
  have seen : (program state).seen view visible = shown (view state) := shows
  have outcome : (program state).outcome = (shown (view state)).outcome := congrArg Run.outcome seen
  have final : view (program state).final = (shown (view state)).final := congrArg Run.final seen
  constructor
  · intro leaves
    exact ⟨_, ⟨outcome.trans leaves.returned, rfl⟩, final.trans leaves.final⟩
  · intro given
    obtain ⟨later, leaves, rfl⟩ := given
    exact ⟨outcome.symm.trans leaves.returned, by rw [← leaves.final, final]⟩

/-- A loop shows the loop of what its rounds show. -/
theorem shows_forRange {body : Nat → Prog τ ω' ε Unit} {shown : Nat → Prog σ ω ε Unit}
    (first count : Nat) (each : ∀ index later, first ≤ index → index < first + count →
      (body index).Shows view visible later (shown index)) :
    (forRange first count body).Shows view visible state (forRange first count shown) := by
  induction count generalizing first state with
  | zero => exact shows_pure ()
  | succ count ih =>
    apply shows_bind (each first state (Nat.le_refl _) (by omega))
    intro _ later _
    exact ih (first + 1) fun index after low high => each index after (by omega) (by omega)

/-- A loop over the same indices with the same rounds is the same loop. -/
theorem forRange_congr {body body' : Nat → Prog σ ω ε Unit} (first count : Nat)
    (same : ∀ index, first ≤ index → index < first + count → body index = body' index) :
    forRange first count body = forRange first count body' := by
  induction count generalizing first with
  | zero => rfl
  | succ count ih =>
    have rest := ih (first + 1) fun index low high => same index (by omega) (by omega)
    rw [forRange, forRange, same first (Nat.le_refl _) (by omega), rest]

end Rules

/-- A program with a known number of operations returns. -/
theorem Counts.leaves {program : Prog σ ω ε α} {state : σ} {count : Nat} {guarantee : σ → ω → Prop}
    {post : α → σ → Prop} (spec : program.Counts state count guarantee post) :
    ∃ value later, program.Leaves state value later ∧ post value later := by
  cases ended : (program state).outcome with
  | error reason => exact (spec.ensures.halted reason ended).elim
  | ok value => exact ⟨value, _, ⟨ended, rfl⟩, spec.ensures.returned value ended⟩

end Prog

end Fly2040.Durable
