import Fly2040.Firmware.Glitch
import Mathlib.Data.List.GetD
/-!
# The glitches of a search

A search tries one offset after another. The width is carried from a call to the next, and the first
call ever makes larger steps. The call that makes an attempt and the width of the attempt are told
from what the attempts yield. A success ends the search, unless the width has reached an end of its
range: the limits are tested before the result of the attempt.
-/

namespace Fly2040.Firmware

open Streams

/-- A call that tries an offset. -/
structure GlitchCall where
  /-- Offset of the glitch. -/
  offset : Nat
  /-- Edges after which the offset is given up. -/
  edgeLimit : Nat
deriving DecidableEq

/-- State of a search between two attempts. -/
structure Hunt where
  /-- Calls made before. -/
  tries : Nat
  /-- The call that is under way. -/
  call : GlitchCall
  /-- The calls after it. -/
  plan : List GlitchCall
  /-- Its locals. -/
  glitch : GlitchState

/-- How a search ends. -/
inductive HuntEnd where
  /-- A call returns success. -/
  | glitched (offset : Nat)
  /-- All calls have returned without success. -/
  | exhausted
  /-- The firmware shows a code. -/
  | finished (err bits : Nat)
deriving DecidableEq

/-- The first call starts from some default width. -/
def huntStart (call : GlitchCall) (plan : List GlitchCall) : Hunt where
  tries := 0
  call := call
  plan := plan
  glitch := glitchStart 0 150

/-- The next call takes over the width. -/
def nextCall (tries : Nat) (width : Int) : List GlitchCall → Except HuntEnd Hunt
  | [] => .error .exhausted
  | call :: plan => .ok ⟨tries + 1, call, plan, glitchStart (tries + 1 : Nat) width⟩

/-- An attempt of a search, with what it yields. -/
def huntAttempt (hunt : Hunt) (gres : GlitchResult) : Except HuntEnd Hunt :=
  match glitchAttempt hunt.call.edgeLimit hunt.glitch gres with
  | .ok glitch => .ok { hunt with glitch := glitch }
  | .error (.returned true _) => .error (.glitched hunt.call.offset)
  | .error (.returned false width) => nextCall hunt.tries width hunt.plan
  | .error (.finished err bits) => .error (.finished err bits)

/-- The search after a number of attempts. -/
def huntAfter (call : GlitchCall) (plan : List GlitchCall) (results : Nat → GlitchResult) :
    Nat → Except HuntEnd Hunt := fed huntAttempt results (huntStart call plan)

/-- The width is positive, as it is in every run. -/
def Hunt.Positive (hunt : Hunt) : Prop := 1 ≤ hunt.glitch.width

/-- An attempt that succeeds makes its call return success. -/
def SuccessKept (call : GlitchCall) (plan : List GlitchCall) (results : Nat → GlitchResult) : Prop :=
  ∀ count hunt, huntAfter call plan results count = .ok hunt → results count = .success →
    huntAfter call plan results (count + 1) = .error (.glitched hunt.call.offset)

section Told

variable (call : GlitchCall) (plan : List GlitchCall) (results : Nat → GlitchResult)

/-- What the attempts yield from one of them on. -/
def since (first : Nat) : Nat → GlitchResult := fun count => results (first + count)

/-- The call of a number. -/
def callOf (tries : Nat) : GlitchCall := (call :: plan).getD tries call

/-- A call of a number gives its offset up in an attempt: failure and timeout have followed each
other more often than the step can be halved and the limit allows. -/
def GivesUp (tries first count : Nat) : Prop :=
  halvings tries + (callOf call plan tries).edgeLimit <
    switches (since results first) (count + 1 - first)

instance (tries first count : Nat) : Decidable (GivesUp call plan results tries first count) :=
  inferInstanceAs (Decidable (_ < _))

/-- The number of the call that makes an attempt, and its first attempt. -/
def callAt : (count : Nat) → Nat × Nat
  | 0 => (0, 0)
  | count + 1 =>
    if GivesUp call plan results (callAt count).1 (callAt count).2 count then
      ((callAt count).1 + 1, count + 1)
    else callAt count

/-- The width after a number of attempts, unless it has left its range before: the one that the
first call starts from, and what the attempts add. -/
def huntWalk (count : Nat) : Int :=
  150 + ∑ attempt ∈ Finset.range count, widening (since results (callAt call plan results attempt).2)
    (callAt call plan results attempt).1 (attempt - (callAt call plan results attempt).2)

/-- An attempt at which the search ends: a success, the fifth missing trigger in a row within a
call, a width out of its range, or the last call gives up. -/
def HuntExit (count : Nat) : Prop :=
  results count = .success ∨
    5 ≤ missed (since results (callAt call plan results count).2)
      (count + 1 - (callAt call plan results count).2) ∨
    huntWalk call plan results count ≤ 1 ∨ 1000 ≤ huntWalk call plan results count ∨
    plan.length ≤ (callAt call plan results count).1 ∧
      GivesUp call plan results (callAt call plan results count).1
        (callAt call plan results count).2 count

/-- The search after a number of attempts. -/
def expectedHunt (count : Nat) : Hunt where
  tries := (callAt call plan results count).1
  call := callOf call plan (callAt call plan results count).1
  plan := plan.drop (callAt call plan results count).1
  glitch := expectedState (since results (callAt call plan results count).2)
    (callAt call plan results count).1
    (huntWalk call plan results (callAt call plan results count).2)
    (count - (callAt call plan results count).2)

end Told

section Expected

variable {call : GlitchCall} {plan : List GlitchCall} {results : Nat → GlitchResult} {count : Nat}

/-- A call does not begin behind its attempts. -/
theorem callAt_first (count : Nat) : (callAt call plan results count).2 ≤ count := by
  induction count with
  | zero => exact Nat.le_refl 0
  | succ count ih =>
    rw [callAt]
    split
    · exact Nat.le_refl _
    · exact Nat.le_succ_of_le ih

/-- What an attempt yields, counted from the first attempt of its call. -/
theorem since_callAt (count : Nat) : since results (callAt call plan results count).2
    (count - (callAt call plan results count).2) = results count := by
  rw [since, Nat.add_sub_cancel' (callAt_first count)]

/-- An attempt changes the width. -/
theorem huntWalk_succ (count : Nat) : huntWalk call plan results (count + 1) =
    huntWalk call plan results count +
      widening (since results (callAt call plan results count).2)
        (callAt call plan results count).1 (count - (callAt call plan results count).2) := by
  rw [huntWalk, Finset.sum_range_succ, ← add_assoc, huntWalk]

/-- The width in a call, from the one with which it begins. -/
theorem huntWalk_call (count : Nat) : huntWalk call plan results count =
    walk (since results (callAt call plan results count).2) (callAt call plan results count).1
      (huntWalk call plan results (callAt call plan results count).2)
      (count - (callAt call plan results count).2) := by
  induction count with
  | zero => simp [callAt, walk]
  | succ count ih =>
    rw [callAt]
    split
    · rw [Nat.sub_self]
      simp [walk]
    · rw [huntWalk_succ, ih, Nat.succ_sub (callAt_first count), walk_succ]

/-- What an attempt does to its call, if its width is in the range and it is not the fifth missing
trigger in a row. -/
theorem glitchAttempt_call
    (few : ¬ 5 ≤ missed (since results (callAt call plan results count).2)
      (count + 1 - (callAt call plan results count).2))
    (low : ¬ huntWalk call plan results count ≤ 1)
    (high : ¬ 1000 ≤ huntWalk call plan results count) :
    glitchAttempt (expectedHunt call plan results count).call.edgeLimit
        (expectedHunt call plan results count).glitch (results count) =
      if results count = .success then
        .error (.returned true (max 1 (huntWalk call plan results (count + 1))))
      else if GivesUp call plan results (callAt call plan results count).1
          (callAt call plan results count).2 count then
        .error (.returned false (max 1 (huntWalk call plan results (count + 1))))
      else .ok (expectedState (since results (callAt call plan results count).2)
        (callAt call plan results count).1
        (huntWalk call plan results (callAt call plan results count).2)
        (count + 1 - (callAt call plan results count).2)) := by
  have width := @huntWalk_call call plan results count
  have later := @huntWalk_succ call plan results count
  have now := @since_callAt call plan results count
  rw [width] at low high later
  rw [← walk_succ] at later
  rw [Nat.succ_sub (callAt_first count)] at few
  let edgeLimit := (callOf call plan (callAt call plan results count).1).edgeLimit
  have attempt := @glitchAttempt_expected _ _ _ edgeLimit _ few low high
  rw [now, ← later] at attempt
  simp only [expectedHunt, GivesUp, Nat.succ_sub (callAt_first count)]
  exact attempt

/-- An attempt at which the search does not end leads to the state that the stream tells. -/
theorem huntAttempt_goes (open' : ¬ HuntExit call plan results count) :
    huntAttempt (expectedHunt call plan results count) (results count) =
      .ok (expectedHunt call plan results (count + 1)) := by
  simp only [HuntExit, not_or, not_and] at open'
  obtain ⟨failed, few, low, high, last⟩ := open'
  rw [huntAttempt, glitchAttempt_call few low high, if_neg failed]
  by_cases gives : GivesUp call plan results (callAt call plan results count).1
      (callAt call plan results count).2 count
  · have after : callAt call plan results (count + 1) =
        ((callAt call plan results count).1 + 1, count + 1) := if_pos gives
    have more : (callAt call plan results count).1 < plan.length :=
      Nat.lt_of_not_le fun used => last used gives
    have planned : plan.drop (callAt call plan results count).1 =
        callOf call plan ((callAt call plan results count).1 + 1) ::
          plan.drop ((callAt call plan results count).1 + 1) := by
      rw [List.drop_eq_getElem_cons more, callOf, List.getD_cons_succ, List.getD_eq_getElem _ _ more]
    have start := expectedState_zero (since results (count + 1))
      ((callAt call plan results count).1 + 1 : Nat) (huntWalk call plan results (count + 1))
    rw [if_pos gives]
    simp only [expectedHunt, planned, nextCall, after, Nat.sub_self, start]
  · have after : callAt call plan results (count + 1) = callAt call plan results count :=
      if_neg gives
    rw [if_neg gives]
    simp only [expectedHunt, after]

/-- At an exit the search ends. -/
theorem huntAttempt_leaves (exit : HuntExit call plan results count) :
    ∃ ended, huntAttempt (expectedHunt call plan results count) (results count) = .error ended := by
  by_cases shown : 5 ≤ missed (since results (callAt call plan results count).2)
      (count + 1 - (callAt call plan results count).2) ∨
      huntWalk call plan results count ≤ 1 ∨ 1000 ≤ huntWalk call plan results count
  · rw [huntWalk_call, Nat.succ_sub (callAt_first count)] at shown
    obtain ⟨err, bits, ended⟩ := @glitchAttempt_finishes _ _ _
      (callOf call plan (callAt call plan results count).1).edgeLimit _ shown
    rw [since_callAt] at ended
    refine ⟨.finished err bits, ?_⟩
    rw [huntAttempt]
    simp only [expectedHunt, ended]
  simp only [not_or] at shown
  obtain ⟨few, low, high⟩ := shown
  rw [huntAttempt, glitchAttempt_call few low high]
  by_cases worked : results count = .success
  · rw [if_pos worked]
    exact ⟨_, rfl⟩
  simp only [HuntExit, worked, few, low, high, false_or] at exit
  have none : plan.drop (callAt call plan results count).1 = [] := List.drop_eq_nil_of_le exit.1
  rw [if_neg worked, if_pos exit.2]
  refine ⟨.exhausted, ?_⟩
  simp only [expectedHunt, none, nextCall]

/-- The search goes on exactly as long as it meets no exit, and its state is what the attempts
tell. -/
theorem huntAfter_ok_iff {hunt : Hunt} : huntAfter call plan results count = .ok hunt ↔
    (∀ earlier < count, ¬ HuntExit call plan results earlier) ∧
      expectedHunt call plan results count = hunt := by
  have first : expectedHunt call plan results 0 = huntStart call plan := by
    have width : huntWalk call plan results 0 = 150 := rfl
    have start := expectedState_zero (since results 0) 0 150
    simp only [expectedHunt, huntStart, callAt, width, Nat.sub_self]
    exact congrArg (Hunt.mk 0 call plan) start
  exact fed_ok_iff first (fun _ => huntAttempt_goes) fun _ => huntAttempt_leaves

end Expected

section

variable {edgeLimit : Nat} {hunt later : Hunt} {gres : GlitchResult}

/-- A width that is changed stays positive. -/
theorem moveWidth_pos {step : Nat} {width : Int} (positive : 1 ≤ width) :
    1 ≤ moveWidth gres step width := by
  cases gres with
  | success => exact positive
  | missing => exact positive
  | failure =>
    have more : width ≤ width + step := Int.le_add_of_nonneg_right (Int.natCast_nonneg step)
    exact Int.le_trans positive more
  | timeout =>
    unfold moveWidth
    split <;> omega

/-- An attempt shows a code, or its call goes on or returns with the width that it leads to. -/
theorem glitchAttempt_cases (edgeLimit : Nat) (state : GlitchState) (gres : GlitchResult) :
    (∃ err bits, glitchAttempt edgeLimit state gres = .error (.finished err bits)) ∨
      ∃ step, (∃ glitched, glitchAttempt edgeLimit state gres =
          .error (.returned glitched (moveWidth gres step state.width))) ∨
        ∃ next, glitchAttempt edgeLimit state gres = .ok next ∧
          next.width = moveWidth gres step state.width := by
  simp only [glitchAttempt]
  generalize (if gres = .missing then state.missingCount + 1 else 0) = missingCount
  split
  · exact .inl ⟨_, _, rfl⟩
  split
  · exact .inl ⟨_, _, rfl⟩
  split
  · exact .inl ⟨_, _, rfl⟩
  refine .inr ⟨halveStep (foundEdge state.lastRes gres) state.step, ?_⟩
  split
  · exact .inl ⟨true, rfl⟩
  split
  · exact .inl ⟨false, rfl⟩
  · exact .inr ⟨_, rfl, rfl⟩

/-- An attempt keeps the width positive, whether its call goes on or the next one starts. -/
theorem huntAttempt_pos (positive : hunt.Positive) (goes : huntAttempt hunt gres = .ok later) :
    later.Positive := by
  unfold huntAttempt at goes
  rcases glitchAttempt_cases hunt.call.edgeLimit hunt.glitch gres with
    ⟨err, bits, shown⟩ | ⟨step, ⟨glitched, left⟩ | ⟨next, went, width⟩⟩
  · rw [shown] at goes
    exact nomatch goes
  · rw [left] at goes
    cases glitched with
    | true => exact nomatch goes
    | false =>
      cases planned : hunt.plan with
      | nil =>
        simp only [planned, nextCall] at goes
        exact nomatch goes
      | cons call plan =>
        simp only [planned, nextCall] at goes
        have same := Except.ok.inj goes
        subst same
        exact moveWidth_pos positive
  · rw [went] at goes
    have same := Except.ok.inj goes
    subst same
    change 1 ≤ next.width
    rw [width]
    exact moveWidth_pos positive

/-- The width of every attempt of a search is positive. -/
theorem huntAfter_pos {call : GlitchCall} {plan : List GlitchCall} {results : Nat → GlitchResult}
    {count : Nat} (now : huntAfter call plan results count = .ok hunt) : hunt.Positive := by
  have first : (huntStart call plan).Positive := by
    change (1 : Int) ≤ 150
    decide
  have keeps : ∀ (hunt : Hunt) gres later, hunt.Positive → huntAttempt hunt gres = .ok later →
      later.Positive := fun _ _ _ positive goes => huntAttempt_pos positive goes
  exact fed_invariant first keeps now

/-- An attempt that succeeds ends the search with success exactly if its width is within the range
in which no code is shown. -/
theorem huntAttempt_success_iff (positive : hunt.Positive) :
    huntAttempt hunt .success = .error (.glitched hunt.call.offset) ↔
      1 < hunt.glitch.width ∧ hunt.glitch.width < 1000 := by
  have few :
      ¬ 5 ≤ (if GlitchResult.success = .missing then hunt.glitch.missingCount + 1 else 0) := by
    rw [if_neg (by decide)]
    decide
  simp only [huntAttempt, glitchAttempt]
  rw [if_neg few]
  by_cases low : hunt.glitch.width = 1
  · rw [if_pos low]
    refine iff_of_false (by simp) ?_
    omega
  rw [if_neg low]
  by_cases high : 1000 ≤ hunt.glitch.width
  · rw [if_pos high]
    refine iff_of_false (by simp) ?_
    omega
  rw [if_neg high]
  have least : 1 ≤ hunt.glitch.width := positive
  refine iff_of_true rfl ?_
  omega

end

/-- In every search, from whatever calls, each attempt that succeeds makes its call return success
exactly if the width that the attempts before it tell is two to 999. -/
theorem success_kept_iff (call : GlitchCall) (plan : List GlitchCall)
    (results : Nat → GlitchResult) :
    SuccessKept call plan results ↔
      ∀ count, (∀ earlier < count, ¬ HuntExit call plan results earlier) →
        results count = .success →
        1 < huntWalk call plan results count ∧ huntWalk call plan results count < 1000 := by
  have each : ∀ count, (∀ earlier < count, ¬ HuntExit call plan results earlier) →
      results count = .success →
      (huntAfter call plan results (count + 1) =
          .error (.glitched (expectedHunt call plan results count).call.offset) ↔
        1 < huntWalk call plan results count ∧ huntWalk call plan results count < 1000) := by
    intro count open' worked
    have now := huntAfter_ok_iff.mpr ⟨open', rfl⟩
    have width : (expectedHunt call plan results count).glitch.width =
        max 1 (huntWalk call plan results count) := by
      rw [huntWalk_call]
      rfl
    have next : huntAfter call plan results (count + 1) =
        huntAttempt (expectedHunt call plan results count) (results count) := fed_succ now
    rw [next, worked, huntAttempt_success_iff (huntAfter_pos now), width]
    omega
  constructor
  · intro kept count open' worked
    exact (each count open' worked).mp (kept count _ (huntAfter_ok_iff.mpr ⟨open', rfl⟩) worked)
  · intro inside count hunt now worked
    obtain ⟨open', rfl⟩ := huntAfter_ok_iff.mp now
    exact (each count open' worked).mpr (inside count open' worked)

/-- A console that stalls five times and then loads the payload. -/
def lateResults (count : Nat) : GlitchResult := if count < 5 then .timeout else .success

/-- The success is shown as an error, since the width has reached one before. -/
theorem success_discarded : ¬ SuccessKept ⟨9200, 4⟩ [] lateResults ∧
    huntAfter ⟨9200, 4⟩ [] lateResults 6 = .error (.finished 5 3) := by
  have reached : huntAfter ⟨9200, 4⟩ [] lateResults 5 =
      .ok ⟨0, ⟨9200, 4⟩, [], ⟨1, .timeout, 0, 32, 0⟩⟩ := rfl
  have shown : huntAfter ⟨9200, 4⟩ [] lateResults 6 = .error (.finished 5 3) := rfl
  refine ⟨fun kept => ?_, shown⟩
  have success := kept 5 _ reached rfl
  rw [shown] at success
  exact nomatch success

end Fly2040.Firmware
