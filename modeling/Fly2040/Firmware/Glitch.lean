import Fly2040.Firmware.Config
import Fly2040.Lib.Streams
import Mathlib.Algebra.BigOperators.Group.Finset.Basic
/-!
# Glitch attempts

Trying an offset repeats a glitch and adapts its width to what the console does: a glitch without
effect is made wider and one that stalls the console narrower, in steps that are halved where the
two meet. What the attempts yield is a stream. The locals of the loop are told from the stream in
closed form, so the loop ends exactly if the stream has one of four kinds of exits. The delay of an
attempt is drawn from random bits, on top of what the local variable held before.
-/

namespace Fly2040.Firmware

open Streams

/-- What an attempt yields. -/
inductive GlitchResult where
  /-- The glitch worked and the payload was loaded. -/
  | success
  /-- The trigger is missing. -/
  | missing
  /-- The glitch did not work. -/
  | failure
  /-- The glitch worked, but timed out. -/
  | timeout
deriving DecidableEq

/-- Locals of the loop, and the width that is passed to it. -/
structure GlitchState where
  /-- Width of the next attempt. -/
  width : Int
  /-- Result of the last attempt. -/
  lastRes : GlitchResult
  /-- Edges found at the highest precision. -/
  edges : Nat
  /-- Change of the width. -/
  step : Nat
  /-- Missing triggers in a row. -/
  missingCount : Nat
deriving DecidableEq

/-- How the loop ends. -/
inductive GlitchEnd where
  /-- It returns whether the glitch worked, and leaves a width. -/
  | returned (glitched : Bool) (width : Int)
  /-- The firmware shows a code. -/
  | finished (err bits : Nat)
deriving DecidableEq

/-- Locals at the start; the first ever edge search is faster. -/
def glitchStart (tries width : Int) : GlitchState where
  width := width
  lastRes := .success
  edges := 0
  step := if tries = 0 then 32 else 8
  missingCount := 0

/-- The results of two attempts in a row enclose the edge. -/
def foundEdge (lastRes gres : GlitchResult) : Bool :=
  (lastRes = .timeout ∧ gres = .failure) ∨ (gres = .timeout ∧ lastRes = .failure)

/-- At an edge the search becomes more precise. -/
def halveStep (found : Bool) (step : Nat) : Nat := if found ∧ step ≠ 1 then step / 2 else step

/-- At the highest precision the edges are counted. -/
def countEdge (found : Bool) (step edges : Nat) : Nat :=
  if found ∧ step = 1 then edges + 1 else edges

/-- Without effect, the glitch needs more width; with too much of it, less. -/
def moveWidth (gres : GlitchResult) (step : Nat) (width : Int) : Int :=
  match gres with
  | .failure => width + step
  | .timeout => if width - step ≤ 1 then 1 else width - step
  | .success | .missing => width

/-- One round of the loop, with what the attempt yields. -/
def glitchAttempt (edgeLimit : Nat) (state : GlitchState) (gres : GlitchResult) :
    Except GlitchEnd GlitchState :=
  let missingCount := if gres = .missing then state.missingCount + 1 else 0
  -- something is wrong with the eMMC, it cannot be initialised properly
  if 5 ≤ missingCount then .error (.finished 4 3)
  else if state.width = 1 then .error (.finished 5 3)
  -- no reaction to the glitch, hardware failure or bad wire
  else if 1000 ≤ state.width then .error (.finished 6 3)
  else
    let found := foundEdge state.lastRes gres
    let edges := countEdge found state.step state.edges
    let step := halveStep found state.step
    let width := moveWidth gres step state.width
    if gres = .success then .error (.returned true width)
    else if edgeLimit < edges then .error (.returned false width)
    else .ok ⟨width, gres, edges, step, missingCount⟩

/-- Trying an offset ends: it returns, or the firmware shows a code. -/
def GlitchEnds (edgeLimit : Nat) (results : Nat → GlitchResult) (tries width : Int) : Prop :=
  Ends (glitchAttempt edgeLimit) results (glitchStart tries width)

section Closed

variable (results : Nat → GlitchResult)

/-- Attempt number `count` and the one before it enclose the edge. -/
def switched : (count : Nat) → Bool
  | 0 => false
  | count + 1 => foundEdge (results count) (results (count + 1))

/-- Number of edges among the first attempts. -/
def switches (count : Nat) : Nat := (List.range count).countP (switched results)

/-- How often the step can be halved. -/
def halvings (tries : Int) : Nat := if tries = 0 then 5 else 3

/-- What an attempt adds to the width. -/
def widening (tries : Int) (count : Nat) : Int :=
  match results count with
  | .failure => 2 ^ (halvings tries - switches results (count + 1))
  | .timeout => -2 ^ (halvings tries - switches results (count + 1))
  | .success | .missing => 0

/-- The width after a number of attempts, unless it has left its range before. -/
def walk (tries width : Int) (count : Nat) : Int :=
  width + ∑ attempt ∈ Finset.range count, widening results tries attempt

/-- Number of missing triggers in a row at the end of the first attempts. -/
def missed : (count : Nat) → Nat
  | 0 => 0
  | count + 1 => if results count = .missing then missed count + 1 else 0

/-- The locals after a number of attempts. -/
def expectedState (tries width : Int) (count : Nat) : GlitchState where
  width := max 1 (walk results tries width count)
  lastRes := if count = 0 then .success else results (count - 1)
  edges := switches results count - halvings tries
  step := 2 ^ (halvings tries - switches results count)
  missingCount := missed results count

/-- An attempt at which the loop ends. -/
def GlitchExit (edgeLimit : Nat) (tries width : Int) (count : Nat) : Prop :=
  results count = .success ∨ 5 ≤ missed results (count + 1) ∨
    walk results tries width count ≤ 1 ∨ 1000 ≤ walk results tries width count ∨
    halvings tries + edgeLimit < switches results (count + 1)

end Closed

section

variable {results : Nat → GlitchResult} {tries width : Int} {edgeLimit : Nat}

/-- The last attempt is one edge more or not. -/
theorem switches_succ (results : Nat → GlitchResult) (count : Nat) :
    switches results (count + 1) =
      switches results count + if switched results count then 1 else 0 := by
  rw [switches, List.range_succ, List.countP_append, List.countP_singleton, switches]

/-- The last attempt changes the width. -/
theorem walk_succ (results : Nat → GlitchResult) (tries width : Int) (count : Nat) :
    walk results tries width (count + 1) =
      walk results tries width count + widening results tries count := by
  rw [walk, Finset.sum_range_succ, ← add_assoc, walk]

/-- The step is one exactly once it has been halved often enough. -/
theorem step_eq_one_iff (tries : Int) (edges : Nat) :
    2 ^ (halvings tries - edges) = 1 ↔ halvings tries ≤ edges := by
  rw [Nat.pow_eq_one]
  omega

/-- An edge is found where the stream has one. -/
theorem foundEdge_expected (results : Nat → GlitchResult) (tries width : Int) (count : Nat) :
    foundEdge (expectedState results tries width count).lastRes (results count) =
      switched results count := by
  cases count with
  | zero => simp [foundEdge, switched, expectedState]
  | succ count => rfl

/-- The step after an attempt. -/
theorem halveStep_expected (results : Nat → GlitchResult) (tries : Int) (count : Nat) :
    halveStep (switched results count) (2 ^ (halvings tries - switches results count)) =
      2 ^ (halvings tries - switches results (count + 1)) := by
  rw [halveStep, switches_succ]
  cases found : switched results count with
  | false => simp
  | true =>
    simp only [true_and, if_true, ne_eq, step_eq_one_iff]
    by_cases fine : halvings tries ≤ switches results count
    · rw [if_neg (not_not.mpr fine), Nat.sub_eq_zero_of_le fine, Nat.sub_eq_zero_of_le (by omega)]
    · have more : halvings tries - switches results count =
          halvings tries - (switches results count + 1) + 1 := by omega
      rw [if_pos fine, more, Nat.pow_succ, Nat.mul_div_cancel _ (by decide)]

/-- The edges after an attempt. -/
theorem countEdge_expected (results : Nat → GlitchResult) (tries : Int) (count : Nat) :
    countEdge (switched results count) (2 ^ (halvings tries - switches results count))
        (switches results count - halvings tries) =
      switches results (count + 1) - halvings tries := by
  rw [countEdge, switches_succ]
  cases found : switched results count with
  | false => simp
  | true =>
    simp only [true_and, if_true, step_eq_one_iff]
    split <;> omega

/-- The width after an attempt. -/
theorem moveWidth_expected (results : Nat → GlitchResult) (tries : Int) {width : Int} {count : Nat}
    (low : 1 < walk results tries width count) :
    moveWidth (results count) (2 ^ (halvings tries - switches results (count + 1)))
        (walk results tries width count) = max 1 (walk results tries width (count + 1)) := by
  have positive : (0 : Int) < 2 ^ (halvings tries - switches results (count + 1)) :=
    pow_pos (by decide) _
  rw [walk_succ]
  unfold widening moveWidth
  cases results count with
  | success => simp only [add_zero]; omega
  | missing => simp only [add_zero]; omega
  | failure => simp only [Nat.cast_pow, Nat.cast_ofNat]; omega
  | timeout => simp only [Nat.cast_pow, Nat.cast_ofNat]; split <;> omega

/-- What an attempt does whose width is in the range and which is not the fifth missing trigger in a
row. -/
theorem glitchAttempt_expected {count : Nat} (few : ¬ 5 ≤ missed results (count + 1))
    (low : ¬ walk results tries width count ≤ 1) (high : ¬ 1000 ≤ walk results tries width count) :
    glitchAttempt edgeLimit (expectedState results tries width count) (results count) =
      if results count = .success then
        .error (.returned true (max 1 (walk results tries width (count + 1))))
      else if halvings tries + edgeLimit < switches results (count + 1) then
        .error (.returned false (max 1 (walk results tries width (count + 1))))
      else .ok (expectedState results tries width (count + 1)) := by
  have inside : (expectedState results tries width count).width = walk results tries width count :=
    max_eq_right (by omega)
  have missing : (if results count = .missing then
      (expectedState results tries width count).missingCount + 1 else 0) =
        missed results (count + 1) := rfl
  have step := halveStep_expected results tries count
  have edges := countEdge_expected results tries count
  have moved := moveWidth_expected results tries (not_le.mp low)
  simp only [glitchAttempt, foundEdge_expected, inside, missing]
  rw [if_neg few, if_neg (by omega), if_neg high]
  simp only [expectedState, edges, step, moved]
  by_cases worked : results count = .success
  · rw [if_pos worked, if_pos worked]
  rw [if_neg worked, if_neg worked]
  by_cases near : halvings tries + edgeLimit < switches results (count + 1)
  · rw [if_pos (by omega), if_pos near]
  · rw [if_neg (by omega), if_neg near]
    rfl

/-- An attempt at which the loop does not end leads to the locals that the stream tells. -/
theorem glitchAttempt_goes {count : Nat} (open' : ¬ GlitchExit results edgeLimit tries width count) :
    glitchAttempt edgeLimit (expectedState results tries width count) (results count) =
      .ok (expectedState results tries width (count + 1)) := by
  simp only [GlitchExit, not_or] at open'
  obtain ⟨failed, few, low, high, near⟩ := open'
  rw [glitchAttempt_expected few low high, if_neg failed, if_neg near]

/-- Five missing triggers in a row or a width out of the range make the firmware show a code. -/
theorem glitchAttempt_finishes {count : Nat} (exit : 5 ≤ missed results (count + 1) ∨
      walk results tries width count ≤ 1 ∨ 1000 ≤ walk results tries width count) :
    ∃ err bits, glitchAttempt edgeLimit (expectedState results tries width count) (results count) =
      .error (.finished err bits) := by
  have missing : (if results count = .missing then
      (expectedState results tries width count).missingCount + 1 else 0) =
        missed results (count + 1) := rfl
  simp only [glitchAttempt, missing]
  by_cases few : 5 ≤ missed results (count + 1)
  · exact ⟨_, _, if_pos few⟩
  rw [if_neg few]
  by_cases low : walk results tries width count ≤ 1
  · exact ⟨_, _, if_pos (max_eq_left low)⟩
  have inside : (expectedState results tries width count).width = walk results tries width count :=
    max_eq_right (by omega)
  rw [inside, if_neg (by omega)]
  exact ⟨_, _, if_pos ((exit.resolve_left few).resolve_left low)⟩

/-- At an exit the loop ends. -/
theorem glitchAttempt_leaves {count : Nat} (exit : GlitchExit results edgeLimit tries width count) :
    ∃ ended, glitchAttempt edgeLimit (expectedState results tries width count) (results count) =
      .error ended := by
  by_cases shown : 5 ≤ missed results (count + 1) ∨ walk results tries width count ≤ 1 ∨
      1000 ≤ walk results tries width count
  · obtain ⟨err, bits, ended⟩ := @glitchAttempt_finishes results tries width edgeLimit count shown
    exact ⟨_, ended⟩
  simp only [not_or] at shown
  obtain ⟨few, low, high⟩ := shown
  rw [glitchAttempt_expected few low high]
  by_cases worked : results count = .success
  · exact ⟨_, if_pos worked⟩
  have near : halvings tries + edgeLimit < switches results (count + 1) := by
    simp only [GlitchExit, worked, few, low, high, false_or] at exit
    exact exit
  rw [if_neg worked]
  exact ⟨_, if_pos near⟩

/-- The locals at the start are those of no attempts. -/
theorem expectedState_zero (results : Nat → GlitchResult) (tries width : Int) :
    expectedState results tries width 0 = glitchStart tries (max 1 width) := by
  have here : walk results tries width 0 = width := by simp [walk]
  have none : switches results 0 = 0 := rfl
  have step : 2 ^ halvings tries = if tries = 0 then 32 else 8 := by
    unfold halvings
    split <;> rfl
  simp only [expectedState, glitchStart, here, none, Nat.sub_zero, step, Nat.zero_sub, missed]
  rfl

/-- The loop ends exactly if it meets an exit. -/
theorem glitchEnds_iff_exit (edgeLimit : Nat) (results : Nat → GlitchResult) (tries : Int)
    (start : 2 ≤ width) :
    GlitchEnds edgeLimit results tries width ↔
      ∃ count, GlitchExit results edgeLimit tries width count := by
  have first : expectedState results tries width 0 = glitchStart tries width := by
    rw [expectedState_zero, max_eq_right (by omega)]
  exact ends_iff first (fun _ => glitchAttempt_goes) fun _ => glitchAttempt_leaves

/-- Triggers that are missing in a row are counted. -/
theorem le_missed (results : Nat → GlitchResult) (first : Nat) {count : Nat}
    (missing : ∀ attempt < count, results (first + attempt) = .missing) :
    count ≤ missed results (first + count) := by
  induction count with
  | zero => exact Nat.zero_le _
  | succ count ih =>
    have before := ih fun attempt below => missing attempt (by omega)
    rw [← Nat.add_assoc, missed, if_pos (missing count (Nat.lt_succ_self count))]
    omega

/-- Triggers that are counted were missing in a row. -/
theorem missing_of_missed {count total : Nat} (many : count ≤ missed results total) :
    ∃ first, first + count = total ∧ ∀ attempt < count, results (first + attempt) = .missing := by
  induction total generalizing count with
  | zero =>
    have none : count = 0 := Nat.le_zero.mp many
    exact ⟨0, by omega, fun attempt below => by omega⟩
  | succ total ih =>
    cases count with
    | zero => exact ⟨total + 1, rfl, fun attempt below => absurd below (Nat.not_lt_zero _)⟩
    | succ count =>
      rw [missed] at many
      by_cases last : results total = .missing
      · rw [if_pos last] at many
        obtain ⟨first, whole, missing⟩ := ih (Nat.le_of_succ_le_succ many)
        refine ⟨first, by omega, fun attempt below => ?_⟩
        by_cases here : attempt = count
        · rw [here, whole, last]
        · exact missing attempt (by omega)
      · rw [if_neg last] at many
        omega

/-- What makes the loop end: success; five missing triggers in a row; a width that leaves the range
of two to 999; or more edges than the step can be halved and the limit allows. -/
theorem exists_exit_iff (results : Nat → GlitchResult) (edgeLimit : Nat) (tries width : Int) :
    (∃ count, GlitchExit results edgeLimit tries width count) ↔
      (∃ count, results count = .success) ∨
      (∃ first, ∀ attempt < 5, results (first + attempt) = .missing) ∨
      (∃ count, walk results tries width count ≤ 1 ∨ 1000 ≤ walk results tries width count) ∨
      ∃ count, halvings tries + edgeLimit < switches results count := by
  constructor
  · intro met
    obtain ⟨count, worked | missing | low | high | edges⟩ := met
    · exact .inl ⟨count, worked⟩
    · obtain ⟨first, -, row⟩ := missing_of_missed missing
      exact .inr (.inl ⟨first, row⟩)
    · exact .inr (.inr (.inl ⟨count, .inl low⟩))
    · exact .inr (.inr (.inl ⟨count, .inr high⟩))
    · exact .inr (.inr (.inr ⟨count + 1, edges⟩))
  · intro given
    rcases given with ⟨count, worked⟩ | ⟨first, row⟩ | ⟨count, left⟩ | ⟨count, edges⟩
    · exact ⟨count, .inl worked⟩
    · exact ⟨first + 4, .inr (.inl (le_missed results first row))⟩
    · exact ⟨count, .inr (.inr (left.elim .inl fun high => .inr (.inl high)))⟩
    · cases count with
      | zero =>
        have none : switches results 0 = 0 := rfl
        omega
      | succ count => exact ⟨count, .inr (.inr (.inr (.inr edges)))⟩

end

/-- Trying an offset makes finitely many attempts exactly if one of them succeeds, or five of them
in a row miss the trigger, or the width leaves the range of two to 999, or failure and timeout
follow each other directly more often than the step can be halved and the limit allows. -/
theorem glitch_ends_iff (edgeLimit : Nat) (results : Nat → GlitchResult) (tries width : Int)
    (start : 2 ≤ width ∧ width ≤ 999) :
    GlitchEnds edgeLimit results tries width ↔
      (∃ count, results count = .success) ∨
      (∃ first, ∀ attempt < 5, results (first + attempt) = .missing) ∨
      (∃ count, walk results tries width count ≤ 1 ∨ 1000 ≤ walk results tries width count) ∨
      ∃ count, halvings tries + edgeLimit < switches results count := by
  rw [glitchEnds_iff_exit edgeLimit results tries start.1, exists_exit_iff]

/-- A stream of successes ends at once. -/
theorem glitch_ends_success : GlitchEnds 3 (fun _ => .success) 0 150 :=
  (glitch_ends_iff 3 (fun _ => .success) 0 150 (by decide)).mpr (.inl ⟨0, rfl⟩)

/-- A console that fails and times out in turn, with a missing trigger after each. -/
def endlessResults (count : Nat) : GlitchResult :=
  if count % 4 = 0 then .failure else if count % 4 = 2 then .timeout else .missing

/-- They enclose no edge. -/
theorem endlessResults_switches (count : Nat) : switches endlessResults count = 0 := by
  have never : ∀ attempt, switched endlessResults attempt = false := by
    intro attempt
    cases attempt with
    | zero => rfl
    | succ attempt =>
      rw [switched]
      unfold endlessResults
      have cycle : attempt % 4 < 4 := Nat.mod_lt _ (by decide)
      rw [Nat.add_mod]
      generalize attempt % 4 = phase at cycle
      interval_cases phase <;> rfl
  unfold switches
  rw [List.countP_eq_zero]
  intro attempt _ found
  rw [never attempt] at found
  exact nomatch found

/-- They lead the width back to where it was. -/
theorem endlessResults_walk (count : Nat) : walk endlessResults 0 150 count =
    if count % 4 = 1 ∨ count % 4 = 2 then 182 else 150 := by
  induction count with
  | zero => rfl
  | succ count ih =>
    rw [walk_succ, ih, widening, endlessResults_switches]
    unfold endlessResults
    have cycle : count % 4 < 4 := Nat.mod_lt _ (by decide)
    rw [Nat.add_mod]
    generalize count % 4 = phase at cycle
    interval_cases phase <;> rfl

/-- Trying an offset never ends on such a console. -/
theorem endless_glitch : ¬ GlitchEnds 3 endlessResults 0 150 := by
  rw [glitchEnds_iff_exit 3 endlessResults 0 (by decide), exists_exit_iff]
  intro exits
  rcases exits with ⟨count, worked⟩ | ⟨first, row⟩ | ⟨count, left⟩ | ⟨count, edges⟩
  · unfold endlessResults at worked
    split at worked
    · exact nomatch worked
    · split at worked <;> exact nomatch worked
  · -- of two attempts in a row one is not missing
    have odd : ∀ attempt, endlessResults attempt = .missing → attempt % 2 = 1 := by
      intro attempt missing
      by_contra even
      unfold endlessResults at missing
      by_cases begins : attempt % 4 = 0
      · rw [if_pos begins] at missing
        exact nomatch missing
      · rw [if_neg begins, if_pos (by omega)] at missing
        exact nomatch missing
    have one := odd (first + 0) (row 0 (by decide))
    have two := odd (first + 1) (row 1 (by decide))
    omega
  · rw [endlessResults_walk] at left
    split at left <;> omega
  · rw [endlessResults_switches] at edges
    omega

end Fly2040.Firmware
