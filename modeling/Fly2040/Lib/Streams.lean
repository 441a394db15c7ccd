import Mathlib.Data.Nat.Find
/-!
# Machines fed by a stream

A machine takes the inputs of an infinite stream one at a time, until it ends with a result, if it
ever does. What each input does is one step; an invariant of the steps holds as long as the machine
goes on. Where the state can be told from the stream as long as no exit has been met, the machine
ends exactly if it meets one.
-/

namespace Fly2040.Streams

variable {σ ι ρ : Type}

/-- The state after a number of inputs, or the result with which the machine has ended before. -/
def fed (step : σ → ι → Except ρ σ) (inputs : Nat → ι) (start : σ) : Nat → Except ρ σ
  | 0 => .ok start
  | count + 1 =>
    match fed step inputs start count with
    | .ok state => step state (inputs count)
    | .error result => .error result

/-- The machine ends. -/
def Ends (step : σ → ι → Except ρ σ) (inputs : Nat → ι) (start : σ) : Prop :=
  ∃ count result, fed step inputs start count = .error result

section Rules

variable {step : σ → ι → Except ρ σ} {inputs : Nat → ι} {start : σ}

/-- A machine that goes on takes the next input. -/
theorem fed_succ {count : Nat} {state : σ} (now : fed step inputs start count = .ok state) :
    fed step inputs start (count + 1) = step state (inputs count) := by
  rw [fed, now]

/-- A machine that has gone on to an input went on before it. -/
theorem fed_before {count : Nat} {state : σ} (now : fed step inputs start (count + 1) = .ok state) :
    ∃ before, fed step inputs start count = .ok before ∧ step before (inputs count) = .ok state := by
  rw [fed] at now
  cases earlier : fed step inputs start count with
  | ok before =>
    rw [earlier] at now
    exact ⟨before, rfl, now⟩
  | error result =>
    rw [earlier] at now
    exact nomatch now

/-- What every step keeps holds as long as the machine goes on. -/
theorem fed_invariant {holds : σ → Prop} (first : holds start)
    (keeps : ∀ state input next, holds state → step state input = .ok next → holds next)
    {count : Nat} {state : σ} (now : fed step inputs start count = .ok state) : holds state := by
  induction count generalizing state with
  | zero =>
    have same : start = state := Except.ok.inj now
    exact same ▸ first
  | succ count ih =>
    obtain ⟨before, earlier, last⟩ := fed_before now
    exact keeps before _ state (ih earlier) last

/-- A machine that has ended did so with one of the inputs before. -/
theorem fed_ended {limit : Nat} {result : ρ} (ended : fed step inputs start limit = .error result) :
    ∃ count < limit, ∃ state, fed step inputs start count = .ok state ∧
      fed step inputs start (count + 1) = .error result := by
  induction limit with
  | zero => cases ended
  | succ limit ih =>
    cases before : fed step inputs start limit with
    | ok state => exact ⟨limit, Nat.lt_succ_self limit, state, before, ended⟩
    | error earlier =>
      rw [fed, before] at ended
      rw [Except.error.inj ended] at before
      have ⟨count, below, rest⟩ := ih before
      exact ⟨count, Nat.lt_succ_of_lt below, rest⟩

section Told

variable {expected : Nat → σ} {exits : Nat → Prop} (first : expected 0 = start)
  (goes : ∀ count, ¬ exits count →
    step (expected count) (inputs count) = .ok (expected (count + 1)))
  (leaves : ∀ count, exits count → ∃ result, step (expected count) (inputs count) = .error result)

include first goes

/-- The state can be told from the stream as long as no exit has been met. -/
theorem fed_expected {count : Nat} (open' : ∀ earlier < count, ¬ exits earlier) :
    fed step inputs start count = .ok (expected count) := by
  induction count with
  | zero => exact congrArg Except.ok first.symm
  | succ count ih =>
    have before := ih fun earlier below => open' earlier (by omega)
    rw [fed_succ before]
    exact goes count (open' count (Nat.lt_succ_self count))

include leaves

/-- The machine goes on exactly as long as it meets no exit; its state is what the stream tells. -/
theorem fed_ok_iff {count : Nat} {state : σ} :
    fed step inputs start count = .ok state ↔
      (∀ earlier < count, ¬ exits earlier) ∧ expected count = state := by
  constructor
  · intro now
    induction count generalizing state with
    | zero =>
      exact ⟨fun _ never => absurd never (Nat.not_lt_zero _), first.trans (Except.ok.inj now)⟩
    | succ count ih =>
      obtain ⟨before, earlier, last⟩ := fed_before now
      obtain ⟨open', same⟩ := ih earlier
      subst same
      have stays : ¬ exits count := by
        intro exit
        obtain ⟨result, ended⟩ := leaves count exit
        exact nomatch ended.symm.trans last
      refine ⟨fun index below => ?_, Except.ok.inj ((goes count stays).symm.trans last)⟩
      rcases Nat.lt_succ_iff_lt_or_eq.mp below with inside | here
      · exact open' index inside
      · exact here ▸ stays
  · intro told
    rw [fed_expected first goes told.1, told.2]

/-- The machine ends exactly if it meets an exit. -/
theorem ends_iff : Ends step inputs start ↔ ∃ count, exits count := by
  constructor
  · intro ends
    obtain ⟨count, result, ended⟩ := ends
    by_contra never
    have running := fed_expected first goes fun earlier (_ : earlier < count) found =>
      never ⟨earlier, found⟩
    exact nomatch ended.symm.trans running
  · intro met
    classical
    -- the machine goes on to the first exit
    have earliest := Nat.find_spec met
    have running := fed_expected first goes fun earlier below => Nat.find_min met below
    obtain ⟨result, ended⟩ := leaves _ earliest
    exact ⟨Nat.find met + 1, result, (fed_succ running).trans ended⟩

end Told

end Rules

end Fly2040.Streams
