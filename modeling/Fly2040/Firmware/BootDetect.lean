import Mathlib.Data.List.Infix
import Mathlib.Data.List.Induction
import Mathlib.Data.UInt
/-!
# Waiting for the console to boot

The firmware resets the console and listens to the words of its commands until the console reads the
second block. A console that asks for its status after it has read the first block is an erista. If
the console gets no answer, it is reset again, and what was heard before counts on: the verdict is
about all words of the call, not about those since the last reset.
-/

namespace Fly2040.Firmware

/-- What the surroundings do in one pass of the loop. Times are in microseconds. -/
structure Pass where
  /-- When the deadline of the loop is compared. -/
  fullAt : Nat
  /-- When the deadline of an answer is compared. -/
  cmd1At : Nat
  /-- A word that has been heard. -/
  word : Option UInt32
  /-- When a deadline is set. -/
  setAt : Nat
deriving DecidableEq

/-- What the loop keeps. -/
structure BootState where
  /-- Deadline of the loop. -/
  tioFull : Nat
  /-- Deadline of an answer. -/
  tioCmd1 : Nat
  /-- The word before. -/
  lastWord : UInt32 := 0
  /-- The first block has been read. -/
  wasReadZero : Bool := false
  /-- An answer has been waited for. -/
  wasCmd1 : Bool := false
  /-- Resets because of a missing answer. -/
  resetAttempts : Nat := 0
  /-- The console is taken for a mariko. -/
  mariko : Bool := true
deriving DecidableEq

/-- What happens to the console and on its line. -/
inductive BootEvent where
  /-- The console is reset. -/
  | reset
  /-- A word is heard. -/
  | word (word : UInt32)
deriving DecidableEq

/-- Where the loop is. -/
inductive Detection where
  /-- It goes on. -/
  | waiting (state : BootState)
  /-- The console has booted. -/
  | booted (mariko : Bool)
  /-- The firmware shows a code and stops. -/
  | finished (code : Nat)
deriving DecidableEq

namespace BootState

/-- A word is heard. -/
def hear (state : BootState) (setAt : Nat) (word : UInt32) : Detection :=
  -- request of the operating conditions, which is to be answered
  if state.lastWord = 0x41000000 ∧ word = 0x00F9 then
    .waiting { state with tioCmd1 := setAt + 20 * 1000, wasCmd1 := true, lastWord := word }
  else if state.lastWord = 0x00F9 ∧ word >>> 24 = 0x3F then
    .waiting { state with tioCmd1 := state.tioFull, lastWord := word }
  -- the first block is read
  else if state.lastWord = 0x51000000 ∧ word = 0x0055 then
    .waiting { state with tioFull := setAt + 100 * 1000, wasReadZero := true, lastWord := word }
  -- the status is read, which only an erista does
  else if state.wasReadZero ∧ state.lastWord = 0x4D000200 ∧ word = 0x00B1 then
    .waiting { state with mariko := false, lastWord := word }
  -- the second block is read
  else if state.lastWord = 0x51000000 ∧ word = 0x0147 then .booted state.mariko
  else .waiting { state with lastWord := word }

/-- Code of a console that has not booted in time. -/
def code (state : BootState) : Nat :=
  if state.wasReadZero then 1 else if state.wasCmd1 then 2 else 3

/-- One pass of the loop. -/
def pass (state : BootState) (env : Pass) : List BootEvent × Detection :=
  if state.tioFull ≤ env.fullAt then ([], .finished state.code)
  else if state.tioCmd1 ≤ env.cmd1At ∧ 4 < state.resetAttempts then ([], .finished 0)
  else
    let late := decide (state.tioCmd1 ≤ env.cmd1At)
    let resets := if late then [BootEvent.reset] else []
    let state := if late then
      { state with resetAttempts := state.resetAttempts + 1, tioCmd1 := state.tioFull } else state
    match env.word with
    | none => (resets, .waiting state)
    | some word => (resets ++ [.word word], state.hear env.setAt word)

/-- The loop. -/
def run : BootState → List Pass → List BootEvent × Detection
  | state, [] => ([], .waiting state)
  | state, env :: rest =>
    match state.pass env with
    | (events, .waiting later) => (events ++ (run later rest).1, (run later rest).2)
    | (events, ended) => (events, ended)

end BootState

/-- Reset the console and wait until it boots. -/
def waitForBoot (timeoutMs start : Nat) (passes : List Pass) : List BootEvent × Detection :=
  let tioFull := start + timeoutMs * 1000
  let run := BootState.run { tioFull := tioFull, tioCmd1 := tioFull } passes
  (.reset :: run.1, run.2)

/-- The words that have been heard. -/
def wordsOf (events : List BootEvent) : List UInt32 :=
  events.filterMap fun
    | .reset => none
    | .word word => some word

/-- The words that have been heard since the last reset, behind others. -/
def sinceReset (before : List UInt32) : List BootEvent → List UInt32
  | [] => before
  | .reset :: rest => sinceReset [] rest
  | .word word :: rest => sinceReset (before ++ [word]) rest

/-- The words of a read of the first block. -/
def readZero : List UInt32 := [0x51000000, 0x0055]

/-- The words of a read of the status. -/
def readStatus : List UInt32 := [0x4D000200, 0x00B1]

/-- The status has been read after the first block. -/
def StatusSeen (words : List UInt32) : Prop :=
  ∃ front rest, words = front ++ rest ∧ readZero <:+: front ∧ readStatus <:+: rest

section Pairs

variable {words : List UInt32} {word : UInt32}

/-- A pair of words ends at the last word or before it. -/
theorem pair_infix_concat_iff {first second : UInt32} :
    [first, second] <:+: words ++ [word] ↔
      [first, second] <:+: words ∨ words.getLast? = some first ∧ word = second := by
  have ends : [first, second] <:+ words ++ [word] ↔
      words.getLast? = some first ∧ word = second := by
    constructor
    · intro suffix
      have ⟨front, same⟩ := suffix
      have split : front ++ [first, second] = (front ++ [first]) ++ [second] := by simp
      rw [split] at same
      have ⟨same', last⟩ := List.append_inj' same rfl
      rw [← same', List.getLast?_concat]
      exact ⟨rfl, (List.cons.inj last).1.symm⟩
    · intro given
      have ⟨front, same⟩ := List.getLast?_eq_some_iff.mp given.1
      rw [same, given.2, List.append_assoc]
      exact List.suffix_append front _
  rw [List.infix_concat_iff, ends, or_comm]

/-- The status is seen with the last word or before it. -/
theorem statusSeen_concat_iff : StatusSeen (words ++ [word]) ↔
    StatusSeen words ∨ readZero <:+: words ∧ words.getLast? = some 0x4D000200 ∧ word = 0x00B1 := by
  constructor
  · intro seen
    have ⟨front, rest, same, zero, status⟩ := seen
    cases rest using List.reverseRecOn with
    | nil => exact absurd (List.eq_nil_of_infix_nil status) (List.cons_ne_nil _ _)
    | append_singleton rest last =>
      rw [← List.append_assoc] at same
      have ⟨same', last'⟩ := List.append_inj' same rfl
      rw [← (List.cons.inj last').1] at status
      cases pair_infix_concat_iff.mp status with
      | inl before => exact .inl ⟨front, rest, same', zero, before⟩
      | inr ends =>
        have ⟨before, same''⟩ := List.getLast?_eq_some_iff.mp ends.1
        refine .inr ⟨?_, ?_, ends.2⟩
        · rw [same']
          exact zero.trans (List.infix_append [] front rest)
        · rw [same', same'', ← List.append_assoc, List.getLast?_concat]
  · intro given
    cases given with
    | inl seen =>
      have ⟨front, rest, same, zero, status⟩ := seen
      refine ⟨front, rest ++ [word], by rw [same, List.append_assoc], zero, ?_⟩
      exact status.trans (List.infix_append [] rest [word])
    | inr ends =>
      have ⟨zero, last, same⟩ := ends
      have ⟨front, same'⟩ := List.getLast?_eq_some_iff.mp last
      rw [same'] at zero
      cases pair_infix_concat_iff.mp zero with
      | inl before =>
        refine ⟨front, [0x4D000200, word], by rw [same', List.append_assoc]; rfl, before, ?_⟩
        rw [same]
        exact List.infix_refl _
      | inr never => exact absurd never.2 (by decide)

end Pairs

namespace BootState

/-- What the loop keeps of the words that it has heard. -/
structure Tracks (state : BootState) (words : List UInt32) : Prop where
  /-- The last one. -/
  lastWord : state.lastWord = words.getLast?.getD 0
  /-- Whether the first block has been read. -/
  wasReadZero : state.wasReadZero = true ↔ readZero <:+: words
  /-- Whether the status has been read after it. -/
  mariko : state.mariko = false ↔ StatusSeen words

end BootState

/-- What the loop tells of the words that it has heard. -/
def Detection.Tells (words : List UInt32) : Detection → Prop
  | .waiting state => state.Tracks words
  | .booted mariko => mariko = false ↔ StatusSeen words
  | .finished _ => True

namespace BootState

section Hearing

variable {state : BootState} {words : List UInt32} (tracks : state.Tracks words)
include tracks

/-- The last word, unless it is zero. -/
theorem Tracks.getLast {word : UInt32} (other : word ≠ 0) :
    words.getLast? = some word ↔ state.lastWord = word := by
  rw [tracks.lastWord]
  cases words.getLast? with
  | none => exact iff_of_false nofun other.symm
  | some last => exact Option.some_inj

/-- Words that are neither the end of a read of the first block nor of a status leave what is kept
of the words before. -/
theorem Tracks.other {word : UInt32} (notZero : ¬(state.lastWord = 0x51000000 ∧ word = 0x0055))
    (notStatus : ¬(state.wasReadZero = true ∧ state.lastWord = 0x4D000200 ∧ word = 0x00B1)) :
    (readZero <:+: words ++ [word] ↔ readZero <:+: words) ∧
      (StatusSeen (words ++ [word]) ↔ StatusSeen words) := by
  constructor
  · rw [readZero, pair_infix_concat_iff, tracks.getLast (by decide), or_iff_left notZero]
  · rw [statusSeen_concat_iff, tracks.getLast (by decide), ← tracks.wasReadZero,
      or_iff_left notStatus]

/-- A state that has heard such a word and kept the rest keeps track. -/
theorem Tracks.plain {word : UInt32} {later : BootState} (heard : later.lastWord = word)
    (zero : later.wasReadZero = state.wasReadZero) (mariko : later.mariko = state.mariko)
    (notZero : ¬(state.lastWord = 0x51000000 ∧ word = 0x0055))
    (notStatus : ¬(state.wasReadZero = true ∧ state.lastWord = 0x4D000200 ∧ word = 0x00B1)) :
    later.Tracks (words ++ [word]) := by
  have ⟨same, same'⟩ := tracks.other notZero notStatus
  constructor
  · rw [heard, List.getLast?_concat, Option.getD_some]
  · rw [zero, same]
    exact tracks.wasReadZero
  · rw [mariko, same']
    exact tracks.mariko

/-- A word behind one that begins neither a read of the first block nor of a status changes nothing
either. -/
theorem Tracks.unrelated {word : UInt32} {later : BootState} (heard : later.lastWord = word)
    (zero : later.wasReadZero = state.wasReadZero) (mariko : later.mariko = state.mariko)
    (notRead : state.lastWord ≠ 0x51000000) (notStatus : state.lastWord ≠ 0x4D000200) :
    later.Tracks (words ++ [word]) :=
  tracks.plain heard zero mariko (fun read => notRead read.1) fun status => notStatus status.2.1

/-- The loop keeps track of a word that it hears, and tells at the end what it has kept. -/
theorem Tracks.hear (setAt : Nat) (word : UInt32) :
    (state.hear setAt word).Tells (words ++ [word]) := by
  unfold BootState.hear
  by_cases request : state.lastWord = 0x41000000 ∧ word = 0x00F9
  · rw [if_pos request]
    show BootState.Tracks _ _
    refine tracks.unrelated rfl rfl rfl ?_ ?_ <;> rw [request.1] <;> decide
  rw [if_neg request]
  by_cases answer : state.lastWord = 0x00F9 ∧ word >>> 24 = 0x3F
  · rw [if_pos answer]
    show BootState.Tracks _ _
    refine tracks.unrelated rfl rfl rfl ?_ ?_ <;> rw [answer.1] <;> decide
  rw [if_neg answer]
  by_cases zero : state.lastWord = 0x51000000 ∧ word = 0x0055
  · rw [if_pos zero]
    show BootState.Tracks _ _
    constructor
    · rw [List.getLast?_concat, Option.getD_some]
    · have ends : words.getLast? = some 0x51000000 := (tracks.getLast (by decide)).mpr zero.1
      exact iff_of_true rfl (pair_infix_concat_iff.mpr (.inr ⟨ends, zero.2⟩))
    · have notStatus :
          ¬(state.wasReadZero = true ∧ state.lastWord = 0x4D000200 ∧ word = 0x00B1) := by
        rw [zero.1]
        exact fun never => absurd never.2.1 (by decide)
      rw [statusSeen_concat_iff, tracks.getLast (by decide), ← tracks.wasReadZero,
        or_iff_left notStatus]
      exact tracks.mariko
  rw [if_neg zero]
  by_cases status : state.wasReadZero = true ∧ state.lastWord = 0x4D000200 ∧ word = 0x00B1
  · rw [if_pos status]
    show BootState.Tracks _ _
    constructor
    · rw [List.getLast?_concat, Option.getD_some]
    · rw [readZero, pair_infix_concat_iff, tracks.getLast (by decide), or_iff_left zero]
      exact tracks.wasReadZero
    · have ends : words.getLast? = some 0x4D000200 := (tracks.getLast (by decide)).mpr status.2.1
      exact iff_of_true rfl
        (statusSeen_concat_iff.mpr (.inr ⟨tracks.wasReadZero.mp status.1, ends, status.2.2⟩))
  rw [if_neg status]
  have ⟨_, seen⟩ := tracks.other zero status
  split
  · show state.mariko = false ↔ _
    rw [seen]
    exact tracks.mariko
  · exact tracks.plain rfl rfl rfl zero status

end Hearing

/-- The words of events are put together. -/
theorem wordsOf_append (events more : List BootEvent) :
    wordsOf (events ++ more) = wordsOf events ++ wordsOf more := List.filterMap_append

/-- A pass keeps track of the word that it hears, and a reset changes nothing of that. -/
theorem pass_tells {state : BootState} {words : List UInt32} (tracks : state.Tracks words)
    (env : Pass) : (state.pass env).2.Tells (words ++ wordsOf (state.pass env).1) := by
  unfold pass
  split
  · trivial
  · split
    · trivial
    · have quiet : ∀ late : Bool, wordsOf (if late then [.reset] else []) = [] := by
        intro late
        cases late <;> rfl
      have same : ∀ late : Bool, Tracks (if late then
          { state with resetAttempts := state.resetAttempts + 1, tioCmd1 := state.tioFull }
          else state) words := by
        intro late
        cases late with
        | true => exact ⟨tracks.lastWord, tracks.wasReadZero, tracks.mariko⟩
        | false => exact tracks
      cases env.word with
      | none =>
        simp only [quiet, List.append_nil]
        exact same _
      | some word =>
        simp only [wordsOf_append, quiet, List.nil_append]
        exact (same _).hear env.setAt word

/-- The loop keeps track of the words that it hears. -/
theorem run_tells {state : BootState} {words : List UInt32} (tracks : state.Tracks words)
    (passes : List Pass) :
    (state.run passes).2.Tells (words ++ wordsOf (state.run passes).1) := by
  induction passes generalizing state words with
  | nil =>
    show state.Tracks _
    rw [run, wordsOf, List.filterMap_nil, List.append_nil]
    exact tracks
  | cons env rest ih =>
    have one := pass_tells tracks env
    rw [run]
    cases passed : state.pass env with
    | mk events ended =>
      rw [passed] at one
      cases ended with
      | waiting later =>
        have more := ih one
        rw [List.append_assoc, ← wordsOf_append] at more
        exact more
      | booted mariko => exact one
      | finished code => trivial

end BootState

/-- The words since the last reset are the last ones. -/
theorem sinceReset_suffix (before : List UInt32) (events : List BootEvent) :
    sinceReset before events <:+ before ++ wordsOf events := by
  induction events generalizing before with
  | nil =>
    rw [sinceReset, wordsOf, List.filterMap_nil, List.append_nil]
  | cons event rest ih =>
    cases event with
    | reset => exact (ih []).trans (List.suffix_append before (wordsOf rest))
    | word word =>
      have more := ih (before ++ [word])
      rw [List.append_assoc] at more
      exact more

/-- What is seen in the last words is seen in all of them. -/
theorem StatusSeen.of_suffix {words all : List UInt32} (seen : StatusSeen words)
    (suffix : words <:+ all) : StatusSeen all := by
  have ⟨front, rest, same, zero, status⟩ := seen
  have ⟨before, same'⟩ := suffix
  refine ⟨before ++ front, rest, ?_, zero.trans (List.suffix_append before front).isInfix, status⟩
  rw [← same', same, List.append_assoc]

/-- The console is taken for an erista exactly if the status has been seen in any of the words of
the call. -/
theorem waitForBoot_mariko {timeoutMs start : Nat} {passes : List Pass} {events : List BootEvent}
    {mariko : Bool} (booted : waitForBoot timeoutMs start passes = (events, .booted mariko)) :
    mariko = false ↔ StatusSeen (wordsOf events) := by
  have nothing : ¬StatusSeen [] := by
    intro seen
    have ⟨front, rest, same, zero, _⟩ := seen
    have empty := (List.append_eq_nil_iff.mp same.symm).1
    rw [empty] at zero
    exact absurd (List.eq_nil_of_infix_nil zero) (List.cons_ne_nil _ _)
  have tracks : BootState.Tracks
      { tioFull := start + timeoutMs * 1000, tioCmd1 := start + timeoutMs * 1000 } [] := by
    refine ⟨rfl, iff_of_false nofun fun zero => ?_, iff_of_false nofun nothing⟩
    exact absurd (List.eq_nil_of_infix_nil zero) (List.cons_ne_nil _ _)
  have tells := BootState.run_tells tracks passes
  have ended := congrArg Prod.snd booted
  have heard := congrArg (wordsOf ∘ Prod.fst) booted
  change (BootState.run _ passes).2 = .booted mariko at ended
  change wordsOf (BootState.run _ passes).1 = wordsOf events at heard
  rw [ended, heard] at tells
  exact tells

/-- The verdict is about the words since the last reset exactly if those before make no difference:
the status has not been seen in all words unless it has been seen in the last ones. -/
theorem waitForBoot_sinceReset_iff (timeoutMs start : Nat) (passes : List Pass)
    (events : List BootEvent) (mariko : Bool)
    (booted : waitForBoot timeoutMs start passes = (events, .booted mariko)) :
    (mariko = false ↔ StatusSeen (sinceReset [] events)) ↔
      (StatusSeen (wordsOf events) → StatusSeen (sinceReset [] events)) := by
  have verdict := waitForBoot_mariko booted
  have suffix : sinceReset [] events <:+ wordsOf events := sinceReset_suffix [] events
  rw [verdict]
  exact ⟨Iff.mp, fun last => ⟨last, fun seen => seen.of_suffix suffix⟩⟩

/-- A pass in which a word is heard. -/
def hears (word : UInt32) : Pass := ⟨0, 0, some word, 0⟩

/-- An erista boots without a reset. -/
theorem erista_boots :
    waitForBoot 2500 0 ([0x51000000, 0x0055, 0x4D000200, 0x00B1, 0x51000000, 0x0147].map hears) =
        (.reset :: [0x51000000, 0x0055, 0x4D000200, 0x00B1, 0x51000000, 0x0147].map .word,
          .booted false) ∧
      (false = false ↔ StatusSeen (sinceReset []
        (.reset :: [0x51000000, 0x0055, 0x4D000200, 0x00B1, 0x51000000, 0x0147].map .word))) := by
  have booted : waitForBoot 2500 0
      ([0x51000000, 0x0055, 0x4D000200, 0x00B1, 0x51000000, 0x0147].map hears) =
        (.reset :: [0x51000000, 0x0055, 0x4D000200, 0x00B1, 0x51000000, 0x0147].map .word,
          .booted false) := by decide
  refine ⟨booted, (waitForBoot_sinceReset_iff 2500 0 _ _ _ booted).mpr fun seen => ?_⟩
  exact seen

/-- A console reads its status and gets no answer afterwards. It is reset, and reads the two blocks
without its status: it is taken for an erista all the same. -/
def interrupted : List Pass :=
  [0x51000000, 0x0055, 0x4D000200, 0x00B1, 0x41000000, 0x00F9].map hears ++
    [⟨30000, 30000, none, 30000⟩] ++
    [0x51000000, 0x0055, 0x51000000, 0x0147].map fun word => ⟨30000, 30000, some word, 30000⟩

/-- The verdict about it is not the one about the words since its reset. -/
theorem interrupted_erista :
    waitForBoot 2500 0 interrupted =
        (.reset :: [0x51000000, 0x0055, 0x4D000200, 0x00B1, 0x41000000, 0x00F9].map .word ++
          .reset :: [0x51000000, 0x0055, 0x51000000, 0x0147].map .word, .booted false) ∧
      ¬(false = false ↔ StatusSeen (sinceReset []
        (.reset :: [0x51000000, 0x0055, 0x4D000200, 0x00B1, 0x41000000, 0x00F9].map .word ++
          .reset :: [0x51000000, 0x0055, 0x51000000, 0x0147].map .word))) := by
  refine ⟨by decide, fun verdict => ?_⟩
  have ⟨front, rest, same, _, status⟩ := verdict.mp rfl
  have inside : readStatus <:+: [0x51000000, 0x0055, 0x51000000, 0x0147] := by
    have all : readStatus <:+: front ++ rest := status.trans (List.suffix_append front rest).isInfix
    rw [← same] at all
    exact all
  exact absurd inside (by decide)

end Fly2040.Firmware
