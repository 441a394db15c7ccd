import Mathlib.Data.List.Basic
/-!
# Programs over durable state

A program computes on a state and issues operations on the part of that state that outlives
a power loss. A run records each operation with the state it was issued in, so that losing
power after any number of operations is a state read off the record. `Ensures` is the
judgement of such programs: a guarantee on every operation at the moment it is issued, a
postcondition on a normal return and one on an early stop. Its rules follow the program
combinators, so a specification of a program is assembled from those of its parts.
-/

namespace Fly2040.Durable

/-- What one run of a program leaves behind. -/
structure Run (σ ω ε α : Type) where
  /-- Every operation issued, in order, with the state in which it was issued. -/
  trace : List (σ × ω)
  /-- The value returned, or the reason the program stopped for good. -/
  outcome : Except ε α
  /-- The state after the last step. -/
  final : σ

namespace Run

variable {σ ω ε α : Type}

/-- The state that remains when power is lost after `performed` operations. -/
def cutAt (run : Run σ ω ε α) (performed : Nat) : σ :=
  match run.trace[performed]? with
  | some (state, _) => state
  | none => run.final

/-- The first operation that a power loss after `performed` operations prevents. -/
def lostAt (run : Run σ ω ε α) (performed : Nat) : Option ω :=
  run.trace[performed]?.map Prod.snd

/-- Losing power after all operations leaves the final state. -/
theorem cutAt_length (run : Run σ ω ε α) : run.cutAt run.trace.length = run.final := by
  simp [cutAt]

end Run

/-- A program from states to runs. -/
def Prog (σ ω ε α : Type) : Type := σ → Run σ ω ε α

namespace Prog

variable {σ τ ω ω' ε α β : Type}

/-- Run one program, then the next from the state it returned in. -/
def andThen (first : Prog σ ω ε α) (next : α → Prog σ ω ε β) : Prog σ ω ε β := fun state =>
  let run := first state
  match run.outcome with
  | .ok value =>
    let rest := next value run.final
    ⟨run.trace ++ rest.trace, rest.outcome, rest.final⟩
  | .error reason => ⟨run.trace, .error reason, run.final⟩

instance : Monad (Prog σ ω ε) where
  pure value := fun state => ⟨[], .ok value, state⟩
  bind := andThen

instance : LawfulMonad (Prog σ ω ε) := by
  refine LawfulMonad.mk' _ ?_ ?_ ?_
  · intro α program
    funext state
    change andThen program (fun value => pure (id value)) state = program state
    cases run : program state with
    | mk trace outcome final =>
      cases outcome with
      | ok value => simp only [andThen, run, pure, List.append_nil, id]
      | error reason => simp only [andThen, run]
  · intro α β value next
    rfl
  · intro α β γ first next last
    funext state
    change andThen (andThen first next) last state =
      andThen first (fun value => andThen (next value) last) state
    cases ended : (first state).outcome with
    | error reason => simp only [andThen, ended]
    | ok value =>
      cases later : (next value (first state).final).outcome with
      | ok value' => simp only [andThen, ended, later, List.append_assoc]
      | error reason => simp only [andThen, ended, later]

/-- Read the state through a function. -/
def gets (read : σ → α) : Prog σ ω ε α := fun state => ⟨[], .ok (read state), state⟩

/-- Change the volatile part of the state. -/
def update (change : σ → σ) : Prog σ ω ε Unit := fun state => ⟨[], .ok (), change state⟩

/-- Issue one durable operation with its effect. -/
def issue (operation : ω) (effect : σ → σ) : Prog σ ω ε Unit := fun state =>
  ⟨[(state, operation)], .ok (), effect state⟩

/-- Stop for good. -/
def stop (reason : ε) : Prog σ ω ε α := fun state => ⟨[], .error reason, state⟩

/-- Run the body for `count` consecutive indices from `first`. -/
def forRange (first : Nat) : (count : Nat) → (Nat → Prog σ ω ε Unit) → Prog σ ω ε Unit
  | 0, _ => pure ()
  | count + 1, body => do
    body first
    forRange (first + 1) count body

/-- Run a program only under a condition. -/
def runIf (condition : Bool) (program : Prog σ ω ε Unit) : Prog σ ω ε Unit :=
  if condition then program else pure ()

/-- Run a program, and another one for the reason if it stops. -/
def recover (program : Prog σ ω ε α) (handler : ε → Prog σ ω ε α) : Prog σ ω ε α := fun state =>
  let run := program state
  match run.outcome with
  | .ok value => ⟨run.trace, .ok value, run.final⟩
  | .error reason =>
    let rest := handler reason run.final
    ⟨run.trace ++ rest.trace, rest.outcome, rest.final⟩

section Outcomes

variable {first program : Prog σ ω ε α} {state : σ}

/-- A sequence goes on if its first part returns. -/
theorem bind_of_ok (next : α → Prog σ ω ε β) {value : α}
    (ended : (first state).outcome = .ok value) :
    (first >>= next) state =
      ⟨(first state).trace ++ (next value (first state).final).trace,
        (next value (first state).final).outcome, (next value (first state).final).final⟩ := by
  show andThen first next state = _
  simp only [andThen, ended]

/-- A sequence stops if its first part does. -/
theorem bind_of_error (next : α → Prog σ ω ε β) {reason : ε}
    (ended : (first state).outcome = .error reason) :
    (first >>= next) state = ⟨(first state).trace, .error reason, (first state).final⟩ := by
  show andThen first next state = _
  simp only [andThen, ended]

/-- A handler is not run if the program returns. -/
theorem recover_of_ok (handler : ε → Prog σ ω ε α) {value : α}
    (ended : (program state).outcome = .ok value) :
    recover program handler state = program state := by
  simp only [recover, ended]
  rw [← ended]

/-- A handler is run behind a stop. -/
theorem recover_of_error (handler : ε → Prog σ ω ε α) {reason : ε}
    (ended : (program state).outcome = .error reason) :
    recover program handler state =
      ⟨(program state).trace ++ (handler reason (program state).final).trace,
        (handler reason (program state).final).outcome,
        (handler reason (program state).final).final⟩ := by
  simp only [recover, ended]

/-- A handler that passes on the stops of the first part is one of the rest. -/
theorem recover_bind {next : α → Prog σ ω ε β} {handler : ε → Prog σ ω ε β}
    (passes : ∀ reason, (first state).outcome = .error reason → handler reason = stop reason) :
    recover (first >>= next) handler state =
      (first >>= fun value => recover (next value) handler) state := by
  cases ended : (first state).outcome with
  | error reason =>
    have run := bind_of_error next ended
    have stopped : ((first >>= next) state).outcome = .error reason := by rw [run]
    rw [recover_of_error handler stopped, passes reason ended, run, bind_of_error _ ended]
    simp [stop]
  | ok value =>
    have run := bind_of_ok next ended
    rw [bind_of_ok _ ended]
    cases rest : (next value (first state).final).outcome with
    | ok result =>
      have returned : ((first >>= next) state).outcome = .ok result := by rw [run, rest]
      rw [recover_of_ok handler returned, recover_of_ok handler rest, run]
    | error reason =>
      have stopped : ((first >>= next) state).outcome = .error reason := by rw [run, rest]
      rw [recover_of_error handler stopped, recover_of_error handler rest, run, List.append_assoc]

end Outcomes

/-- The last round of a loop. -/
theorem forRange_succ (first count : Nat) (body : Nat → Prog σ ω ε Unit) :
    forRange first (count + 1) body =
      forRange first count body >>= fun _ => body (first + count) := by
  induction count generalizing first with
  | zero =>
    rw [forRange, forRange, pure_bind]
    exact bind_pure (body first)
  | succ count ih =>
    rw [forRange, ih, forRange, bind_assoc, show first + 1 + count = first + (count + 1) by omega]

/-- Run a program on one component of a larger state. -/
def zoom (view : τ → σ) (put : τ → σ → τ) (embed : ω → ω') (program : Prog σ ω ε α) :
    Prog τ ω' ε α := fun state =>
  let run := program (view state)
  ⟨run.trace.map fun event => (put state event.1, embed event.2), run.outcome,
    put state run.final⟩

/-- A read hands its value to the rest. -/
theorem gets_bind (read : σ → α) (next : α → Prog σ ω ε β) (state : σ) :
    (gets read >>= next) state = next (read state) state := rfl

/-- A volatile change hands the changed state to the rest. -/
theorem update_bind (change : σ → σ) (next : Unit → Prog σ ω ε β) (state : σ) :
    (update change >>= next) state = next () (change state) := rfl

/-- An operation stands first in the run and hands its effect to the rest. -/
theorem issue_bind (operation : ω) (effect : σ → σ) (next : Unit → Prog σ ω ε β) (state : σ) :
    (issue operation effect >>= next) state =
      ⟨(state, operation) :: (next () (effect state)).trace, (next () (effect state)).outcome,
        (next () (effect state)).final⟩ := rfl

/-- Every operation meets the guarantee in the state it is issued in, a returned value and its
state meet the postcondition, and an early stop meets its own. -/
structure Ensures (program : Prog σ ω ε α) (state : σ) (guarantee : σ → ω → Prop)
    (post : α → σ → Prop) (stopped : ε → σ → Prop) : Prop where
  /-- The guarantee on operations. -/
  issued : ∀ event ∈ (program state).trace, guarantee event.1 event.2
  /-- The postcondition on a normal return. -/
  returned : ∀ value, (program state).outcome = .ok value → post value (program state).final
  /-- The postcondition on an early stop. -/
  halted : ∀ reason, (program state).outcome = .error reason → stopped reason (program state).final

section Rules

variable {guarantee : σ → ω → Prop} {stopped : ε → σ → Prop} {state : σ}

/-- A run without operations meets a specification exactly when its return does. -/
theorem ensures_quiet {program : Prog σ ω ε α} {post : α → σ → Prop} {value : α} {after : σ}
    (run : program state = ⟨[], .ok value, after⟩) :
    program.Ensures state guarantee post stopped ↔ post value after := by
  constructor
  · intro spec
    have holds := spec.returned value (by rw [run])
    rwa [run] at holds
  · intro holds
    refine ⟨?_, ?_, ?_⟩
    · intro event member
      simp [run] at member
    · intro found same
      rw [run] at same ⊢
      cases same
      exact holds
    · intro reason same
      rw [run] at same
      cases same

/-- A pure program returns its value in the same state. -/
@[simp] theorem ensures_pure {post : α → σ → Prop} (value : α) :
    (pure value : Prog σ ω ε α).Ensures state guarantee post stopped ↔ post value state :=
  ensures_quiet rfl

/-- A read returns the value read in the same state. -/
@[simp] theorem ensures_gets {post : α → σ → Prop} (read : σ → α) :
    (gets read : Prog σ ω ε α).Ensures state guarantee post stopped ↔ post (read state) state :=
  ensures_quiet rfl

/-- A volatile change returns in the changed state. -/
@[simp] theorem ensures_update {post : Unit → σ → Prop} (change : σ → σ) :
    (update change : Prog σ ω ε Unit).Ensures state guarantee post stopped ↔
      post () (change state) :=
  ensures_quiet rfl

/-- An operation meets the guarantee where it is issued and returns after its effect. -/
@[simp] theorem ensures_issue {post : Unit → σ → Prop} (operation : ω) (effect : σ → σ) :
    (issue operation effect : Prog σ ω ε Unit).Ensures state guarantee post stopped ↔
      guarantee state operation ∧ post () (effect state) := by
  constructor
  · exact fun spec => ⟨spec.issued (state, operation) (List.mem_singleton.mpr rfl),
      spec.returned () rfl⟩
  · intro given
    obtain ⟨now, after⟩ := given
    refine ⟨fun event member => ?_, fun found same => ?_, fun reason same => ?_⟩
    · obtain rfl := List.mem_singleton.mp member
      exact now
    · cases same
      exact after
    · cases same

/-- A stop meets the postcondition of stops. -/
@[simp] theorem ensures_stop {post : α → σ → Prop} (reason : ε) :
    (stop reason : Prog σ ω ε α).Ensures state guarantee post stopped ↔ stopped reason state := by
  constructor
  · exact fun spec => spec.halted reason rfl
  · intro holds
    refine ⟨?_, ?_, ?_⟩
    · intro event member
      cases member
    · intro value same
      cases same
    · intro found same
      cases same
      exact holds

/-- A run that goes on with another one meets its specification, if what is issued before it is
guaranteed. -/
theorem Ensures.of_append {program rest : Prog σ ω ε α} {post : α → σ → Prop} {later : σ}
    {trace : List (σ × ω)} (spec : rest.Ensures later guarantee post stopped)
    (run : program state = ⟨trace ++ (rest later).trace, (rest later).outcome, (rest later).final⟩)
    (issued : ∀ event ∈ trace, guarantee event.1 event.2) :
    program.Ensures state guarantee post stopped := by
  constructor
  · intro event member
    rw [run] at member
    rcases List.mem_append.mp member with early | late
    · exact issued event early
    · exact spec.issued event late
  · rw [run]
    exact spec.returned
  · rw [run]
    exact spec.halted

/-- A sequence meets a specification when its first part does, with the specification of the
rest as its postcondition. -/
theorem ensures_bind {first : Prog σ ω ε α} {next : α → Prog σ ω ε β} {post : β → σ → Prop}
    (spec : first.Ensures state guarantee
      (fun value later => (next value).Ensures later guarantee post stopped) stopped) :
    (first >>= next).Ensures state guarantee post stopped := by
  cases ended : (first state).outcome with
  | error reason =>
    have run := bind_of_error next ended
    refine ⟨?_, ?_, ?_⟩
    · rw [run]
      exact spec.issued
    · intro value same
      rw [run] at same
      cases same
    · intro found same
      rw [run] at same ⊢
      cases same
      exact spec.halted reason ended
  | ok value =>
    exact (spec.returned value ended).of_append (bind_of_ok next ended) spec.issued

/-- A program that begins with a look at the state does what the rest does with what it sees. -/
theorem ensures_read {read : σ → α} {next : α → Prog σ ω ε β} {post : β → σ → Prop}
    (rest : (next (read state)).Ensures state guarantee post stopped) :
    (gets read >>= next).Ensures state guarantee post stopped :=
  ensures_bind ((ensures_gets read).mpr rest)

/-- A program that begins with a volatile change does what the rest does from the changed state. -/
theorem ensures_change {change : σ → σ} {next : Unit → Prog σ ω ε β} {post : β → σ → Prop}
    (rest : (next ()).Ensures (change state) guarantee post stopped) :
    (update change >>= next).Ensures state guarantee post stopped :=
  ensures_bind ((ensures_update change).mpr rest)

/-- A program under a condition meets a specification if it does so whenever it is run, and its
postcondition holds already otherwise. -/
theorem ensures_runIf {condition : Bool} {program : Prog σ ω ε Unit} {post : Unit → σ → Prop}
    (taken : condition = true → program.Ensures state guarantee post stopped)
    (skipped : condition = false → post () state) :
    (runIf condition program).Ensures state guarantee post stopped := by
  cases condition with
  | true => exact taken rfl
  | false => exact (ensures_pure ()).mpr (skipped rfl)

/-- A program with a handler for its stops meets a specification when the handler does so from
every state in which the program can stop. -/
theorem ensures_recover {program : Prog σ ω ε α} {handler : ε → Prog σ ω ε α}
    {post : α → σ → Prop} {stopped' : ε → σ → Prop}
    (spec : program.Ensures state guarantee post stopped')
    (handled : ∀ reason later, stopped' reason later →
      (handler reason).Ensures later guarantee post stopped) :
    (recover program handler).Ensures state guarantee post stopped := by
  cases ended : (program state).outcome with
  | ok value =>
    have run := recover_of_ok handler ended
    refine ⟨?_, ?_, ?_⟩
    · rw [run]
      exact spec.issued
    · rw [run]
      exact spec.returned
    · intro reason same
      rw [run, ended] at same
      cases same
  | error reason =>
    have rest := handled reason _ (spec.halted reason ended)
    exact rest.of_append (recover_of_error handler ended) spec.issued

/-- A specification is about the run from the given state only. -/
theorem Ensures.of_run_eq {program program' : Prog σ ω ε α} {post : α → σ → Prop}
    (same : program state = program' state)
    (spec : program'.Ensures state guarantee post stopped) :
    program.Ensures state guarantee post stopped :=
  ⟨same ▸ spec.issued, same ▸ spec.returned, same ▸ spec.halted⟩

/-- A weaker guarantee and weaker postconditions are met as well. -/
theorem Ensures.mono {program : Prog σ ω ε α} {post post' : α → σ → Prop}
    {guarantee' : σ → ω → Prop} {stopped' : ε → σ → Prop}
    (spec : program.Ensures state guarantee post stopped)
    (weaker : ∀ later operation, guarantee later operation → guarantee' later operation)
    (returns : ∀ value later, post value later → post' value later)
    (stops : ∀ reason later, stopped reason later → stopped' reason later) :
    program.Ensures state guarantee' post' stopped' :=
  ⟨fun event member => weaker _ _ (spec.issued event member),
    fun value same => returns _ _ (spec.returned value same),
    fun reason same => stops _ _ (spec.halted reason same)⟩

/-- A weaker postcondition of the normal return is met as well. -/
theorem Ensures.weaken {program : Prog σ ω ε α} {post post' : α → σ → Prop}
    (spec : program.Ensures state guarantee post stopped)
    (returns : ∀ value later, post value later → post' value later) :
    program.Ensures state guarantee post' stopped :=
  spec.mono (fun _ _ holds => holds) returns (fun _ _ holds => holds)

/-- A weaker condition of a stop is met as well. -/
theorem Ensures.weakenStop {program : Prog σ ω ε α} {post : α → σ → Prop}
    {stopped' : ε → σ → Prop} (spec : program.Ensures state guarantee post stopped)
    (stops : ∀ reason later, stopped reason later → stopped' reason later) :
    program.Ensures state guarantee post stopped' :=
  spec.mono (fun _ _ holds => holds) (fun _ _ holds => holds) stops

/-- What holds of a normal return alone. -/
theorem Ensures.onReturn {program : Prog σ ω ε α} {post : α → σ → Prop}
    (spec : program.Ensures state guarantee post stopped) :
    program.Ensures state (fun _ _ => True) post fun _ _ => True :=
  spec.mono (fun _ _ _ => trivial) (fun _ _ holds => holds) fun _ _ _ => trivial

/-- What holds of every end of a program holds of its last state. -/
theorem Ensures.atEnd {program : Prog σ ω ε α} {holds : σ → Prop}
    (spec : program.Ensures state guarantee (fun _ later => holds later)
      fun _ later => holds later) : holds (program state).final := by
  cases ended : (program state).outcome with
  | ok value => exact spec.returned value ended
  | error reason => exact spec.halted reason ended

/-- Two specifications of one program hold together. -/
theorem Ensures.both {program : Prog σ ω ε α} {post post' : α → σ → Prop}
    {guarantee' : σ → ω → Prop} {stopped' : ε → σ → Prop}
    (left : program.Ensures state guarantee post stopped)
    (right : program.Ensures state guarantee' post' stopped') :
    program.Ensures state (fun later operation => guarantee later operation ∧
      guarantee' later operation) (fun value later => post value later ∧ post' value later)
      (fun reason later => stopped reason later ∧ stopped' reason later) :=
  ⟨fun event member => ⟨left.issued event member, right.issued event member⟩,
    fun value same => ⟨left.returned value same, right.returned value same⟩,
    fun reason same => ⟨left.halted reason same, right.halted reason same⟩⟩

/-- A sequence from a specification of its first part and one of the rest from every state the
first part can return in. -/
theorem Ensures.andThen {first : Prog σ ω ε α} {next : α → Prog σ ω ε β} {middle : α → σ → Prop}
    {post : β → σ → Prop} (spec : first.Ensures state guarantee middle stopped)
    (rest : ∀ value later, middle value later →
      (next value).Ensures later guarantee post stopped) :
    (first >>= next).Ensures state guarantee post stopped :=
  ensures_bind (spec.weaken rest)

/-- A sequence through a stated condition between its parts. -/
theorem ensures_via {first : Prog σ ω ε α} {next : α → Prog σ ω ε β} {post : β → σ → Prop}
    (middle : α → σ → Prop) (spec : first.Ensures state guarantee middle stopped)
    (rest : ∀ value later, middle value later →
      (next value).Ensures later guarantee post stopped) :
    (first >>= next).Ensures state guarantee post stopped :=
  spec.andThen rest

/-- A loop over indices keeps an invariant that the body carries from each index to the next. -/
theorem ensures_forRange {body : Nat → Prog σ ω ε Unit} (invariant : Nat → σ → Prop)
    (first count : Nat) (start : invariant first state)
    (step : ∀ index later, first ≤ index → index < first + count → invariant index later →
      (body index).Ensures later guarantee (fun _ after => invariant (index + 1) after) stopped) :
    (forRange first count body).Ensures state guarantee
      (fun _ after => invariant (first + count) after) stopped := by
  induction count generalizing first state with
  | zero => exact (ensures_pure ()).mpr start
  | succ count ih =>
    refine (step first state (Nat.le_refl _) (by omega) start).andThen fun _ later kept => ?_
    have rest := ih (first + 1) kept fun index after low high =>
      step index after (by omega) (by omega)
    rwa [show first + 1 + count = first + (count + 1) by omega] at rest

/-- An invariant of every moment of a run holds in whatever state a power loss leaves. -/
theorem Ensures.cutAt {program : Prog σ ω ε α} {post : α → σ → Prop}
    (spec : program.Ensures state guarantee post stopped) {invariant : σ → Prop}
    (before : ∀ later operation, guarantee later operation → invariant later)
    (returns : ∀ value later, post value later → invariant later)
    (stops : ∀ reason later, stopped reason later → invariant later) (performed : Nat) :
    invariant ((program state).cutAt performed) := by
  unfold Run.cutAt
  split
  · rename_i found read
    exact before _ _ (spec.issued _ (List.mem_of_getElem? read))
  · cases ended : (program state).outcome with
    | ok value => exact returns value _ (spec.returned value ended)
    | error reason => exact stops reason _ (spec.halted reason ended)

/-- A program on one component meets there the specification of the whole state read through
that component. -/
theorem Ensures.zoom {view : τ → σ} {put : τ → σ → τ} {embed : ω → ω'}
    {program : Prog σ ω ε α} {whole : τ} {guarantee' : τ → ω' → Prop} {post : α → τ → Prop}
    {stopped' : ε → τ → Prop}
    (spec : program.Ensures (view whole)
      (fun part operation => guarantee' (put whole part) (embed operation))
      (fun value part => post value (put whole part))
      (fun reason part => stopped' reason (put whole part))) :
    (program.zoom view put embed).Ensures whole guarantee' post stopped' := by
  refine ⟨fun event member => ?_, spec.returned, spec.halted⟩
  obtain ⟨inner, listed, rfl⟩ := List.mem_map.mp member
  exact spec.issued inner listed

/-- A program on one component keeps whatever does not depend on that component. -/
theorem ensures_zoom_frame {view : τ → σ} {put : τ → σ → τ} {embed : ω → ω'}
    (program : Prog σ ω ε α) {whole : τ} (keep : τ → Prop) (kept : ∀ part, keep (put whole part)) :
    (program.zoom view put embed).Ensures whole (fun later _ => keep later)
      (fun _ later => keep later) (fun _ later => keep later) := by
  refine ⟨fun event member => ?_, fun _ _ => kept _, fun _ _ => kept _⟩
  obtain ⟨inner, -, rfl⟩ := List.mem_map.mp member
  exact kept inner.1

end Rules

end Prog

end Fly2040.Durable
