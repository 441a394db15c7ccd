import Fly2040.Lib.Durable
/-!
# Moments of a run

Properties of the order and the number of operations in a run, with rules that follow the program
combinators: from the first watched operation on every state is settled; some wanted operation is
issued at all; a program returns after a known number of operations; and what may be left of a
power loss depends on how many operations were performed; and every operation is a permitted one,
where the rules are exact.
-/

namespace Fly2040.Durable

namespace Run

variable {σ ω ε α β : Type}

/-- From the first watched operation on, every state that a power loss can leave is settled. -/
def Settles (run : Run σ ω ε α) (watched : ω → Prop) (settled : σ → Prop) : Prop :=
  ∀ issued state operation, run.trace[issued]? = some (state, operation) → watched operation →
    ∀ performed, issued ≤ performed → settled (run.cutAt performed)

/-- What may be left when power is lost: for each number of operations performed, the state and the
first operation that is lost. -/
def Cuts (run : Run σ ω ε α) (allowed : Nat → σ → Option ω → Prop) : Prop :=
  ∀ performed, allowed performed (run.cutAt performed) (run.lostAt performed)

/-- A run without watched operations settles anyhow. -/
theorem settles_unwatched {run : Run σ ω ε α} {watched : ω → Prop} {settled : σ → Prop}
    (none : ∀ event ∈ run.trace, ¬ watched event.2) : run.Settles watched settled :=
  fun _ _ _ read seen => absurd seen (none _ (List.mem_of_getElem? read))

/-- Operations in front of a run move its cuts back. -/
theorem cutAt_append (front : List (σ × ω)) (run : Run σ ω ε α) {performed : Nat}
    (after : front.length ≤ performed) :
    (Run.mk (front ++ run.trace) run.outcome run.final).cutAt performed =
      run.cutAt (performed - front.length) := by
  simp only [cutAt, List.getElem?_append_right after]

/-- Operations behind a run do not change its cuts, until it has ended. -/
theorem cutAt_before (run : Run σ ω ε α) (back : List (σ × ω)) (outcome : Except ε β) (final : σ)
    {performed : Nat} (before : performed < run.trace.length) :
    (Run.mk (run.trace ++ back) outcome final).cutAt performed = run.cutAt performed := by
  simp only [cutAt, List.getElem?_append_left before]
  rw [List.getElem?_eq_getElem before]

end Run

namespace Prog

variable {σ ω ε α β : Type} {watched : ω → Prop} {settled : σ → Prop} {state : σ}

/-- The run of a program settles. -/
def Settles (program : Prog σ ω ε α) (state : σ) (watched : ω → Prop) (settled : σ → Prop) : Prop :=
  (program state).Settles watched settled

/-- A program that issues nothing watched settles anyhow. -/
theorem settles_unwatched {program : Prog σ ω ε α} {post : α → σ → Prop} {stopped : ε → σ → Prop}
    (spec : program.Ensures state (fun _ operation => ¬ watched operation) post stopped) :
    program.Settles state watched settled :=
  Run.settles_unwatched spec.issued

/-- A program that keeps its states settled settles. -/
theorem settles_throughout {program : Prog σ ω ε α}
    (spec : program.Ensures state (fun later _ => settled later) (fun _ => settled)
      (fun _ => settled)) : program.Settles state watched settled :=
  fun _ _ _ _ _ performed _ => spec.cutAt (fun _ _ kept => kept) (fun _ _ kept => kept)
    (fun _ _ kept => kept) performed

/-- A sequence that begins with a read settles if the rest does with the value read. -/
theorem settles_gets {read : σ → α} {next : α → Prog σ ω ε β} :
    (gets read >>= next).Settles state watched settled ↔
      (next (read state)).Settles state watched settled := Iff.rfl

/-- A sequence that begins with a volatile change settles if the rest does after the change. -/
theorem settles_update {change : σ → σ} {next : Unit → Prog σ ω ε β} :
    (update change >>= next).Settles state watched settled ↔
      (next ()).Settles (change state) watched settled := Iff.rfl

/-- A sequence settles if its first part issues nothing watched and the rest settles from every
state the first part returns in. -/
theorem settles_bind {first : Prog σ ω ε α} {next : α → Prog σ ω ε β} {middle : α → σ → Prop}
    {stopped : ε → σ → Prop}
    (spec : first.Ensures state (fun _ operation => ¬ watched operation) middle stopped)
    (rest : ∀ value later, middle value later → (next value).Settles later watched settled) :
    (first >>= next).Settles state watched settled := by
  cases ended : (first state).outcome with
  | error reason =>
    rw [Settles, bind_of_error next ended]
    exact Run.settles_unwatched spec.issued
  | ok value =>
    have tail := rest value _ (spec.returned value ended)
    have run := bind_of_ok next ended
    rw [Settles, run]
    intro issued moment operation read seen performed later
    by_cases early : issued < (first state).trace.length
    · rw [List.getElem?_append_left early] at read
      exact absurd seen (spec.issued _ (List.mem_of_getElem? read))
    · rw [List.getElem?_append_right (Nat.le_of_not_lt early)] at read
      rw [Run.cutAt_append _ _ (by omega)]
      exact tail _ _ _ read seen _ (by omega)

/-- A program with a handler settles if the program does and the handler issues nothing watched and
keeps the states settled. -/
theorem settles_recover {program : Prog σ ω ε α} {handler : ε → Prog σ ω ε α}
    (spec : program.Settles state watched settled)
    (handled : ∀ reason later, (handler reason).Ensures later
      (fun moment operation => ¬ watched operation ∧ (settled later → settled moment))
      (fun _ moment => settled later → settled moment)
      (fun _ moment => settled later → settled moment)) :
    (recover program handler).Settles state watched settled := by
  cases ended : (program state).outcome with
  | ok value =>
    have run := recover_of_ok handler ended
    rwa [Settles, run]
  | error reason =>
    have rest := handled reason (program state).final
    have run := recover_of_error handler ended
    rw [Settles, run]
    intro issued moment operation read seen performed later
    by_cases early : issued < (program state).trace.length
    · rw [List.getElem?_append_left early] at read
      have at' := spec issued moment operation read seen
      by_cases before : performed < (program state).trace.length
      · rw [Run.cutAt_before _ _ _ _ before]
        exact at' performed later
      · rw [Run.cutAt_append _ _ (by omega)]
        have final := at' (program state).trace.length (Nat.le_of_lt early)
        rw [Run.cutAt_length] at final
        exact rest.cutAt (fun _ _ kept => kept.2) (fun _ _ kept => kept) (fun _ _ kept => kept) _
          final
    · rw [List.getElem?_append_right (Nat.le_of_not_lt early)] at read
      exact absurd seen (rest.issued _ (List.mem_of_getElem? read)).1

/-- Some operation of the run is a wanted one, in a wanted state. -/
def Issues (program : Prog σ ω ε α) (state : σ) (wanted : σ → ω → Prop) : Prop :=
  ∃ event ∈ (program state).trace, wanted event.1 event.2

variable {wanted : σ → ω → Prop}

/-- An operation issues itself. -/
theorem issues_issue {operation : ω} {effect : σ → σ} (here : wanted state operation) :
    (issue operation effect : Prog σ ω ε Unit).Issues state wanted :=
  ⟨(state, operation), List.mem_singleton.mpr rfl, here⟩

/-- A sequence that begins with a read issues what the rest does with the value read. -/
theorem issues_gets {read : σ → α} {next : α → Prog σ ω ε β} :
    (gets read >>= next).Issues state wanted ↔ (next (read state)).Issues state wanted := Iff.rfl

/-- A sequence that begins with a volatile change issues what the rest does after the change. -/
theorem issues_update {change : σ → σ} {next : Unit → Prog σ ω ε β} :
    (update change >>= next).Issues state wanted ↔ (next ()).Issues (change state) wanted := Iff.rfl

/-- A sequence issues what its first part does. -/
theorem issues_left {first : Prog σ ω ε α} {next : α → Prog σ ω ε β}
    (issues : first.Issues state wanted) : (first >>= next).Issues state wanted := by
  obtain ⟨event, member, found⟩ := issues
  refine ⟨event, ?_, found⟩
  change event ∈ (andThen first next state).trace
  cases ended : (first state).outcome with
  | ok value => simpa only [andThen, ended] using List.mem_append.mpr (.inl member)
  | error reason => simpa only [andThen, ended] using member

/-- A sequence whose first part returns issues what the rest issues from there. -/
theorem issues_right {first : Prog σ ω ε α} {next : α → Prog σ ω ε β} {middle : α → σ → Prop}
    (spec : first.Ensures state (fun _ _ => True) middle fun _ _ => False)
    (rest : ∀ value later, middle value later → (next value).Issues later wanted) :
    (first >>= next).Issues state wanted := by
  cases ended : (first state).outcome with
  | error reason => exact (spec.halted reason ended).elim
  | ok value =>
    obtain ⟨event, member, found⟩ := rest value _ (spec.returned value ended)
    refine ⟨event, ?_, found⟩
    change event ∈ (andThen first next state).trace
    simpa only [andThen, ended] using List.mem_append.mpr (.inr member)

/-- A program with a handler issues what the program does. -/
theorem issues_recover {program : Prog σ ω ε α} {handler : ε → Prog σ ω ε α}
    (issues : program.Issues state wanted) : (recover program handler).Issues state wanted := by
  obtain ⟨event, member, found⟩ := issues
  refine ⟨event, ?_, found⟩
  cases ended : (program state).outcome with
  | ok value => simpa only [recover, ended] using member
  | error reason => simpa only [recover, ended] using List.mem_append.mpr (.inl member)

/-- A program on one component issues what it issues there. -/
theorem issues_zoom {τ ω' : Type} {view : τ → σ} {put : τ → σ → τ} {embed : ω → ω'}
    {program : Prog σ ω ε α} {whole : τ} {wanted : τ → ω' → Prop}
    (issues : program.Issues (view whole) fun part operation =>
      wanted (put whole part) (embed operation)) :
    (program.zoom view put embed).Issues whole wanted := by
  obtain ⟨event, member, found⟩ := issues
  exact ⟨_, List.mem_map.mpr ⟨event, member, rfl⟩, found⟩

/-- A program that meets a specification and returns after a known number of operations. -/
structure Counts (program : Prog σ ω ε α) (state : σ) (count : Nat) (guarantee : σ → ω → Prop)
    (post : α → σ → Prop) : Prop where
  /-- The specification; the program does not stop. -/
  ensures : program.Ensures state guarantee post fun _ _ => False
  /-- The number of operations. -/
  length : (program state).trace.length = count

variable {guarantee : σ → ω → Prop}

/-- A run without operations. -/
theorem counts_quiet {program : Prog σ ω ε α} {post : α → σ → Prop} {value : α} {after : σ}
    (run : program state = ⟨[], .ok value, after⟩) (holds : post value after) :
    program.Counts state 0 guarantee post :=
  ⟨(ensures_quiet run).mpr holds, by rw [run]; rfl⟩

/-- A pure program. -/
theorem counts_pure {post : α → σ → Prop} {value : α} (holds : post value state) :
    (pure value : Prog σ ω ε α).Counts state 0 guarantee post := counts_quiet rfl holds

/-- One operation. -/
theorem counts_issue {post : Unit → σ → Prop} {operation : ω} {effect : σ → σ}
    (now : guarantee state operation) (after : post () (effect state)) :
    (issue operation effect : Prog σ ω ε Unit).Counts state 1 guarantee post :=
  ⟨(ensures_issue _ _).mpr ⟨now, after⟩, rfl⟩

/-- A specification is about the run alone. -/
theorem Counts.of_run {program program' : Prog σ ω ε α} {state' : σ} {post : α → σ → Prop}
    {count : Nat} (same : program state = program' state')
    (spec : program'.Counts state' count guarantee post) :
    program.Counts state count guarantee post :=
  ⟨⟨same ▸ spec.ensures.issued, same ▸ spec.ensures.returned, same ▸ spec.ensures.halted⟩,
    same ▸ spec.length⟩

/-- A sequence that begins with a read. -/
theorem counts_gets {read : σ → α} {next : α → Prog σ ω ε β} {post : β → σ → Prop} {count : Nat}
    (spec : (next (read state)).Counts state count guarantee post) :
    (gets read >>= next).Counts state count guarantee post :=
  spec.of_run (gets_bind read next state)

/-- A sequence that begins with a volatile change. -/
theorem counts_update {change : σ → σ} {next : Unit → Prog σ ω ε β} {post : β → σ → Prop}
    {count : Nat} (spec : (next ()).Counts (change state) count guarantee post) :
    (update change >>= next).Counts state count guarantee post :=
  spec.of_run (update_bind change next state)

/-- The operations of a sequence are those of its parts. -/
theorem Counts.andThen {first : Prog σ ω ε α} {next : α → Prog σ ω ε β} {middle : α → σ → Prop}
    {post : β → σ → Prop} {count count' : Nat} (spec : first.Counts state count guarantee middle)
    (rest : ∀ value later, middle value later →
      (next value).Counts later count' guarantee post) :
    (first >>= next).Counts state (count + count') guarantee post := by
  refine ⟨spec.ensures.andThen fun value later holds => (rest value later holds).ensures, ?_⟩
  change (Prog.andThen first next state).trace.length = count + count'
  cases ended : (first state).outcome with
  | error reason => exact (spec.ensures.halted reason ended).elim
  | ok value =>
    have tail := (rest value _ (spec.ensures.returned value ended)).length
    simp only [Prog.andThen, ended, List.length_append, spec.length, tail]

/-- A first part without operations does not count. -/
theorem counts_quietLeft {first : Prog σ ω ε α} {next : α → Prog σ ω ε β} {post : β → σ → Prop}
    {count : Nat} (middle : α → σ → Prop) (spec : first.Counts state 0 guarantee middle)
    (rest : ∀ value later, middle value later → (next value).Counts later count guarantee post) :
    (first >>= next).Counts state count guarantee post := by
  have all := spec.andThen rest
  rwa [Nat.zero_add] at all

/-- A rest without operations does not count. -/
theorem counts_quietRight {first : Prog σ ω ε α} {next : α → Prog σ ω ε β} {post : β → σ → Prop}
    {count : Nat} (middle : α → σ → Prop) (spec : first.Counts state count guarantee middle)
    (rest : ∀ value later, middle value later → (next value).Counts later 0 guarantee post) :
    (first >>= next).Counts state count guarantee post := spec.andThen rest

/-- A weaker guarantee and a weaker postcondition are met as well. -/
theorem Counts.mono {program : Prog σ ω ε α} {guarantee' : σ → ω → Prop} {post post' : α → σ → Prop}
    {count : Nat} (spec : program.Counts state count guarantee post)
    (weaker : ∀ later operation, guarantee later operation → guarantee' later operation)
    (returns : ∀ value later, post value later → post' value later) :
    program.Counts state count guarantee' post' :=
  ⟨spec.ensures.mono weaker returns fun _ _ never => never, spec.length⟩

/-- Another specification of the program holds as well. -/
theorem Counts.both {program : Prog σ ω ε α} {guarantee' : σ → ω → Prop}
    {post post' : α → σ → Prop} {stopped : ε → σ → Prop} {count : Nat}
    (spec : program.Counts state count guarantee post)
    (other : program.Ensures state guarantee' post' stopped) :
    program.Counts state count (fun later operation => guarantee later operation ∧
      guarantee' later operation) fun value later => post value later ∧ post' value later :=
  ⟨(spec.ensures.both other).mono (fun _ _ issued => issued) (fun _ _ after => after)
    fun _ _ never => never.1, spec.length⟩

/-- A loop whose body takes one operation and carries an invariant from each index to the next takes
one operation for each index. -/
theorem counts_forRange {body : Nat → Prog σ ω ε Unit} (invariant : Nat → σ → Prop)
    (first count : Nat) (start : invariant first state)
    (step : ∀ index later, first ≤ index → index < first + count → invariant index later →
      (body index).Counts later 1 guarantee fun _ after => invariant (index + 1) after) :
    (forRange first count body).Counts state count guarantee
      fun _ after => invariant (first + count) after := by
  induction count generalizing first state with
  | zero => exact counts_pure start
  | succ count ih =>
    have all := (step first state (Nat.le_refl _) (by omega) start).andThen fun _ later kept =>
      ih (first + 1) kept fun index after low high => step index after (by omega) (by omega)
    rw [Nat.add_comm 1 count, show first + 1 + count = first + (count + 1) by omega] at all
    exact all

/-- A program on one component takes the operations that it takes there. -/
theorem Counts.zoom {τ ω' : Type} {view : τ → σ} {put : τ → σ → τ} {embed : ω → ω'}
    {program : Prog σ ω ε α} {whole : τ} {guarantee' : τ → ω' → Prop} {post : α → τ → Prop}
    {count : Nat} (spec : program.Counts (view whole) count
      (fun part operation => guarantee' (put whole part) (embed operation))
      fun value part => post value (put whole part)) :
    (program.zoom view put embed).Counts whole count guarantee' post :=
  ⟨spec.ensures.zoom, (List.length_map _).trans spec.length⟩

/-- What may be left when power is lost in the run of a program. -/
def Cuts (program : Prog σ ω ε α) (state : σ) (allowed : Nat → σ → Option ω → Prop) : Prop :=
  (program state).Cuts allowed

variable {allowed : Nat → σ → Option ω → Prop}

/-- What holds at every moment is left anyhow. -/
theorem cuts_throughout {program : Prog σ ω ε α}
    (spec : program.Ensures state
      (fun later operation => ∀ performed, allowed performed later (some operation))
      (fun _ later => ∀ performed, allowed performed later none)
      (fun _ later => ∀ performed, allowed performed later none)) :
    program.Cuts state allowed := by
  intro performed
  unfold Run.cutAt Run.lostAt
  cases read : (program state).trace[performed]? with
  | some event => exact spec.issued event (List.mem_of_getElem? read) performed
  | none =>
    cases ended : (program state).outcome with
    | ok value => exact spec.returned value ended performed
    | error reason => exact spec.halted reason ended performed

/-- A sequence that begins with a read is cut as the rest is with the value read. -/
theorem cuts_gets {read : σ → α} {next : α → Prog σ ω ε β} :
    (gets read >>= next).Cuts state allowed ↔ (next (read state)).Cuts state allowed := Iff.rfl

/-- A sequence that begins with a volatile change is cut as the rest is after the change. -/
theorem cuts_update {change : σ → σ} {next : Unit → Prog σ ω ε β} :
    (update change >>= next).Cuts state allowed ↔ (next ()).Cuts (change state) allowed := Iff.rfl

/-- A sequence is cut in its first part or, later, in the rest. -/
theorem cuts_bind {first : Prog σ ω ε α} {next : α → Prog σ ω ε β} {middle : α → σ → Prop}
    {count : Nat} (spec : first.Counts state count guarantee middle)
    (early : ∀ performed < count, ∀ later operation, guarantee later operation →
      allowed performed later (some operation))
    (rest : ∀ value later, middle value later →
      (next value).Cuts later fun performed => allowed (count + performed)) :
    (first >>= next).Cuts state allowed := by
  intro performed
  cases ended : (first state).outcome with
  | error reason => exact (spec.ensures.halted reason ended).elim
  | ok value =>
    have tail := rest value _ (spec.ensures.returned value ended)
    simp only [bind_of_ok next ended, Run.cutAt, Run.lostAt]
    by_cases before : performed < count
    · have inside : performed < (first state).trace.length := spec.length.symm ▸ before
      rw [List.getElem?_append_left inside, List.getElem?_eq_getElem inside]
      exact early performed before _ _ (spec.ensures.issued _ (List.getElem_mem inside))
    · have now := tail (performed - count)
      simp only [Nat.add_sub_cancel' (Nat.le_of_not_lt before)] at now
      rw [List.getElem?_append_right (by rw [spec.length]; exact Nat.le_of_not_lt before), spec.length]
      exact now

/-- A sequence whose first part issues nothing is cut in the rest. -/
theorem cuts_quiet {first : Prog σ ω ε α} {next : α → Prog σ ω ε β} {middle : α → σ → Prop}
    (spec : first.Counts state 0 (fun _ _ => True) middle)
    (rest : ∀ value later, middle value later → (next value).Cuts later allowed) :
    (first >>= next).Cuts state allowed :=
  cuts_bind spec (fun _ none => absurd none (Nat.not_lt_zero _)) fun value later holds => by
    simpa only [Nat.zero_add] using rest value later holds

/-- A program with a handler is cut as the program is, if the handler keeps what is left at the
end. -/
theorem cuts_recover {program : Prog σ ω ε α} {handler : ε → Prog σ ω ε α}
    (spec : program.Cuts state allowed)
    (handled : ∀ reason later, (handler reason).Ensures later
      (fun moment operation => ∀ performed, allowed performed later none →
        allowed performed moment (some operation))
      (fun _ moment => ∀ performed, allowed performed later none → allowed performed moment none)
      (fun _ moment => ∀ performed, allowed performed later none → allowed performed moment none)) :
    (recover program handler).Cuts state allowed := by
  cases ended : (program state).outcome with
  | ok value =>
    have run := recover_of_ok handler ended
    rw [Cuts, run]
    exact spec
  | error reason =>
    intro performed
    have now := spec performed
    simp only [recover_of_error handler ended, Run.cutAt, Run.lostAt] at now ⊢
    by_cases before : performed < (program state).trace.length
    · rw [List.getElem?_eq_getElem before] at now
      rwa [List.getElem?_append_left before, List.getElem?_eq_getElem before]
    · rw [List.getElem?_eq_none (Nat.le_of_not_lt before)] at now
      rw [List.getElem?_append_right (Nat.le_of_not_lt before)]
      have rest := handled reason (program state).final
      cases read : (handler reason (program state).final).trace[performed -
          (program state).trace.length]? with
      | some event => exact rest.issued event (List.mem_of_getElem? read) performed now
      | none =>
        cases last : (handler reason (program state).final).outcome with
        | ok value => exact rest.returned value last performed now
        | error reason' => exact rest.halted reason' last performed now

section Permitted

variable {permitted : ω → Prop}

/-- Every operation of the run is permitted. -/
def IssuesOnly (program : Prog σ ω ε α) (state : σ) (permitted : ω → Prop) : Prop :=
  ∀ event ∈ (program state).trace, permitted event.2

/-- The program returns and leaves a state. -/
structure Leaves (program : Prog σ ω ε α) (state : σ) (value : α) (later : σ) : Prop where
  /-- The value returned. -/
  returned : (program state).outcome = .ok value
  /-- The state left. -/
  final : (program state).final = later

/-- A run without operations issues only permitted ones. -/
theorem issuesOnly_of_empty {program : Prog σ ω ε α} (empty : (program state).trace = []) :
    program.IssuesOnly state permitted := by
  intro event member
  rw [empty] at member
  exact nomatch member

/-- A sequence issues only permitted operations exactly if both parts do. -/
theorem issuesOnly_bind {first : Prog σ ω ε α} {next : α → Prog σ ω ε β} :
    (first >>= next).IssuesOnly state permitted ↔ first.IssuesOnly state permitted ∧
      ∀ value later, first.Leaves state value later → (next value).IssuesOnly later permitted := by
  cases ended : (first state).outcome with
  | error reason =>
    rw [IssuesOnly, bind_of_error next ended, IssuesOnly, and_iff_left]
    intro value later leaves
    exact nomatch ended.symm.trans leaves.returned
  | ok value =>
    rw [IssuesOnly, bind_of_ok next ended]
    constructor
    · intro only
      refine ⟨fun event member => only event (List.mem_append_left _ member), ?_⟩
      intro value' later leaves event member
      obtain rfl := Except.ok.inj (ended.symm.trans leaves.returned)
      rw [← leaves.final] at member
      exact only event (List.mem_append_right _ member)
    · intro both event member
      obtain ⟨left, right⟩ := both
      rcases List.mem_append.mp member with early | late
      · exact left event early
      · exact right value _ ⟨ended, rfl⟩ event late

/-- A sequence leaves what its last part leaves. -/
theorem leaves_bind {first : Prog σ ω ε α} {next : α → Prog σ ω ε β} {value : β} {later : σ} :
    (first >>= next).Leaves state value later ↔
      ∃ between middle,
        first.Leaves state between middle ∧ (next between).Leaves middle value later := by
  cases ended : (first state).outcome with
  | error reason =>
    have run := congrArg Run.outcome (bind_of_error next ended)
    constructor
    · intro leaves
      exact nomatch run.symm.trans leaves.returned
    · intro split
      obtain ⟨between, middle, leaves, -⟩ := split
      exact nomatch ended.symm.trans leaves.returned
  | ok between =>
    have run := bind_of_ok next ended
    constructor
    · intro leaves
      obtain ⟨returned, final⟩ := leaves
      rw [run] at returned final
      exact ⟨between, _, ⟨ended, rfl⟩, returned, final⟩
    · intro split
      obtain ⟨between', middle, leaves, returned, final⟩ := split
      obtain rfl := Except.ok.inj (ended.symm.trans leaves.returned)
      rw [← leaves.final] at returned final
      exact ⟨by rw [run]; exact returned, by rw [run]; exact final⟩

/-- A loop issues only permitted operations exactly if every round does, from what the rounds before
it leave. -/
theorem issuesOnly_forRange {body : Nat → Prog σ ω ε Unit} (first count : Nat) :
    (forRange first count body).IssuesOnly state permitted ↔ ∀ index < count, ∀ later,
      (forRange first index body).Leaves state () later →
        (body (first + index)).IssuesOnly later permitted := by
  induction count generalizing first state with
  | zero =>
    exact iff_of_true (issuesOnly_of_empty rfl) fun _ none => absurd none (Nat.not_lt_zero _)
  | succ count ih =>
    rw [forRange, issuesOnly_bind]
    constructor
    · intro both index inside later leaves
      obtain ⟨now, rest⟩ := both
      cases index with
      | zero =>
        obtain rfl : state = later := leaves.final
        exact now
      | succ index =>
        obtain ⟨_, middle, round, rounds⟩ := leaves_bind.mp leaves
        have only := (ih (first + 1)).mp (rest () middle round) index (by omega) later rounds
        rwa [show first + (index + 1) = first + 1 + index by omega]
    · intro each
      refine ⟨each 0 (Nat.succ_pos _) state ⟨rfl, rfl⟩, fun _ middle round => ?_⟩
      refine (ih (first + 1)).mpr fun index inside later rounds => ?_
      have only := each (index + 1) (by omega) later (leaves_bind.mpr ⟨(), middle, round, rounds⟩)
      rwa [show first + (index + 1) = first + 1 + index by omega] at only

end Permitted

end Prog

end Fly2040.Durable
