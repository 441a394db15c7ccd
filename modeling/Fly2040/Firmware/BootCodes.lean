import Mathlib.Data.List.Infix
import Mathlib.Data.List.Count
import Fly2040.Firmware.BootDetect
/-!
# What the codes of a missing boot tell

A console that does not boot in time makes the firmware show a code and stop. The code tells how far
the console has come: nothing of it has been heard, it has asked for the operating conditions, it
has read its first block, or it has been reset five times more for want of an answer. The deadlines
move while the console talks, so this holds because of what the loop keeps, not because of the
times.
-/

namespace Fly2040.Firmware

/-- The words of a request of the operating conditions. -/
def request : List UInt32 := [0x41000000, 0x00F9]

/-- The words of a read of the second block. -/
def readOne : List UInt32 := [0x51000000, 0x0147]

/-- How often the console has been reset. -/
def resetsOf (events : List BootEvent) : Nat := events.count .reset

/-- The clock never goes back from one pass to the next, nor in a pass. -/
def Ordered : Nat → List Pass → Prop
  | _, [] => True
  | now, env :: rest =>
    now ≤ env.fullAt ∧ env.fullAt ≤ env.cmd1At ∧ env.cmd1At ≤ env.setAt ∧ Ordered env.setAt rest

/-- Resets of events are put together. -/
theorem resetsOf_append (events more : List BootEvent) :
    resetsOf (events ++ more) = resetsOf events + resetsOf more := List.count_append

namespace BootState

/-- What the loop keeps of what it has heard and done until a moment. -/
structure Keeps (state : BootState) (words : List UInt32) (resets now : Nat) : Prop where
  /-- The words that it has heard. -/
  tracks : state.Tracks words
  /-- Whether the operating conditions have been asked for. -/
  wasCmd1 : state.wasCmd1 = true ↔ request <:+: words
  /-- The second block has not been read. -/
  unread : ¬readOne <:+: words
  /-- Each reset but the first one is for want of an answer. -/
  counted : state.resetAttempts + 1 = resets
  /-- There are five of them at most. -/
  bounded : state.resetAttempts ≤ 5
  /-- As long as the console says nothing, there is only the one in a pass in which the time is
  up. -/
  silent : state.wasCmd1 = false → state.wasReadZero = false →
    state.tioCmd1 = state.tioFull ∧
      (state.resetAttempts = 0 ∨ state.resetAttempts = 1 ∧ state.tioFull ≤ now)

end BootState

/-- What a code tells of words and resets. -/
def CodeTells (words : List UInt32) (resets : Nat) : Nat → Prop
  -- no answer came, however often the console has been reset, and it has been heard
  | 0 => resets = 6 ∧ (request <:+: words ∨ readZero <:+: words)
  -- the first block has been read
  | 1 => readZero <:+: words
  -- the console got no further than to its request
  | 2 => request <:+: words ∧ ¬readZero <:+: words
  -- it did not come so far, and it has been reset once more at most
  | 3 => ¬request <:+: words ∧ ¬readZero <:+: words ∧ resets ≤ 2
  | _ => False

/-- What an end tells: the console has booted exactly if it has read its second block. -/
def Detection.Justified (words : List UInt32) (resets : Nat) : Detection → Prop
  | .waiting _ => ¬readOne <:+: words
  | .booted _ => readOne <:+: words
  | .finished code => ¬readOne <:+: words ∧ CodeTells words resets code

/-- What the loop keeps or tells of what it has heard and done until a moment. -/
def Detection.Reports (words : List UInt32) (resets now : Nat) : Detection → Prop
  | .waiting state => state.Keeps words resets now
  | ended => resets ≤ 6 ∧ ended.Justified words resets

namespace BootState

section Keeping

variable {state : BootState} {words : List UInt32} {resets now : Nat}
  (keeps : state.Keeps words resets now)
include keeps

/-- Time goes by. -/
theorem Keeps.later {moment : Nat} (passed : now ≤ moment) : state.Keeps words resets moment := by
  refine ⟨keeps.tracks, keeps.wasCmd1, keeps.unread, keeps.counted, keeps.bounded, ?_⟩
  intro noRequest noRead
  have ⟨same, once⟩ := keeps.silent noRequest noRead
  exact ⟨same, once.imp_right fun late => ⟨late.1, le_trans late.2 passed⟩⟩

/-- The console is reset for want of an answer. -/
theorem Keeps.retry (few : state.resetAttempts ≤ 4) {moment : Nat}
    (early : now < state.tioFull) (late : state.tioCmd1 ≤ moment) :
    Keeps { state with resetAttempts := state.resetAttempts + 1, tioCmd1 := state.tioFull }
      words (resets + 1) moment := by
  refine ⟨⟨keeps.tracks.lastWord, keeps.tracks.wasReadZero, keeps.tracks.mariko⟩, keeps.wasCmd1,
    keeps.unread, congrArg (· + 1) keeps.counted, Nat.succ_le_succ few, ?_⟩
  intro noRequest noRead
  have ⟨same, once⟩ := keeps.silent noRequest noRead
  have none : state.resetAttempts = 0 := once.resolve_right fun before => by omega
  show state.tioFull = state.tioFull ∧
    (state.resetAttempts + 1 = 0 ∨ state.resetAttempts + 1 = 1 ∧ state.tioFull ≤ moment)
  refine ⟨rfl, .inr ⟨congrArg (· + 1) none, ?_⟩⟩
  rw [← same]
  exact late

end Keeping

/-- What hearing a word can do. -/
theorem hear_cases (state : BootState) (setAt : Nat) (word : UInt32) :
    (state.lastWord = 0x51000000 ∧ word = 0x0147) ∧
        state.hear setAt word = .booted state.mariko ∨
      ¬(state.lastWord = 0x51000000 ∧ word = 0x0147) ∧
        ∃ later, state.hear setAt word = .waiting later ∧
          later.resetAttempts = state.resetAttempts ∧
          (later.wasCmd1 = true ↔
            state.wasCmd1 = true ∨ state.lastWord = 0x41000000 ∧ word = 0x00F9) ∧
          (later.wasCmd1 = false → later.wasReadZero = false →
            state.wasReadZero = false ∧ later.tioFull = state.tioFull ∧
              (later.tioCmd1 = state.tioCmd1 ∨ later.tioCmd1 = state.tioFull)) := by
  unfold BootState.hear
  by_cases asks : state.lastWord = 0x41000000 ∧ word = 0x00F9
  · rw [if_pos asks]
    refine .inr ⟨?_, _, rfl, rfl, ?_, ?_⟩
    · rw [asks.1]
      exact fun never => absurd never.1 (by decide)
    · exact iff_of_true rfl (.inr asks)
    · exact fun never => Bool.noConfusion never
  rw [if_neg asks]
  have kept : state.wasCmd1 = true ↔
      state.wasCmd1 = true ∨ state.lastWord = 0x41000000 ∧ word = 0x00F9 := by
    rw [or_iff_left asks]
  by_cases answer : state.lastWord = 0x00F9 ∧ word >>> 24 = 0x3F
  · rw [if_pos answer]
    refine .inr ⟨?_, _, rfl, rfl, kept, fun _ noRead => ⟨noRead, rfl, .inr rfl⟩⟩
    rw [answer.1]
    exact fun never => absurd never.1 (by decide)
  rw [if_neg answer]
  by_cases zero : state.lastWord = 0x51000000 ∧ word = 0x0055
  · rw [if_pos zero]
    refine .inr ⟨?_, _, rfl, rfl, kept, fun _ never => Bool.noConfusion never⟩
    rw [zero.2]
    exact fun never => absurd never.2 (by decide)
  rw [if_neg zero]
  by_cases status : state.wasReadZero ∧ state.lastWord = 0x4D000200 ∧ word = 0x00B1
  · rw [if_pos status]
    refine .inr ⟨?_, _, rfl, rfl, kept, fun _ noRead => ⟨noRead, rfl, .inl rfl⟩⟩
    rw [status.2.2]
    exact fun never => absurd never.2 (by decide)
  rw [if_neg status]
  by_cases one : state.lastWord = 0x51000000 ∧ word = 0x0147
  · rw [if_pos one]
    exact .inl ⟨one, rfl⟩
  · rw [if_neg one]
    exact .inr ⟨one, _, rfl, rfl, kept, fun _ noRead => ⟨noRead, rfl, .inl rfl⟩⟩

/-- A word is heard, which ends the loop or is kept. -/
theorem Keeps.hear {state : BootState} {words : List UInt32} {resets now : Nat}
    (keeps : state.Keeps words resets now) (setAt : Nat) (word : UInt32) :
    (state.hear setAt word).Reports (words ++ [word]) resets now := by
  have tells := keeps.tracks.hear setAt word
  have bounded := keeps.bounded
  have counted := keeps.counted
  cases hear_cases state setAt word with
  | inl boots =>
    have ⟨pair, booted⟩ := boots
    rw [booted]
    have ends : words.getLast? = some 0x51000000 := (keeps.tracks.getLast (by decide)).mpr pair.1
    exact ⟨by omega, pair_infix_concat_iff.mpr (.inr ⟨ends, pair.2⟩)⟩
  | inr goesOn =>
    have ⟨pair, later, waits, attempts, asked, quiet⟩ := goesOn
    rw [waits] at tells ⊢
    refine ⟨tells, ?_, ?_, ?_, ?_, ?_⟩
    · rw [asked, keeps.wasCmd1, request, pair_infix_concat_iff, keeps.tracks.getLast (by decide)]
    · rw [readOne, pair_infix_concat_iff, keeps.tracks.getLast (by decide)]
      exact fun read => read.elim keeps.unread pair
    · rw [attempts]
      exact counted
    · rw [attempts]
      exact bounded
    · intro noRequest noRead
      have ⟨noRead', full, cmd1⟩ := quiet noRequest noRead
      have noRequest' : state.wasCmd1 = false := by
        rw [Bool.eq_false_iff] at noRequest ⊢
        exact fun before => noRequest (asked.mpr (.inl before))
      have ⟨same, once⟩ := keeps.silent noRequest' noRead'
      rw [full, attempts]
      refine ⟨cmd1.elim (fun unchanged => unchanged.trans same) id, once⟩

/-- The time is up. -/
theorem Keeps.code {state : BootState} {words : List UInt32} {resets now : Nat}
    (keeps : state.Keeps words resets now) :
    (Detection.finished state.code).Reports words resets now := by
  have bounded := keeps.bounded
  have counted := keeps.counted
  refine ⟨by omega, keeps.unread, ?_⟩
  rw [BootState.code]
  by_cases read : state.wasReadZero = true
  · rw [if_pos read]
    exact keeps.tracks.wasReadZero.mp read
  rw [if_neg read]
  have noRead : ¬readZero <:+: words := fun heard => read (keeps.tracks.wasReadZero.mpr heard)
  by_cases asked : state.wasCmd1 = true
  · rw [if_pos asked]
    exact ⟨keeps.wasCmd1.mp asked, noRead⟩
  rw [if_neg asked]
  have ⟨_, once⟩ := keeps.silent (Bool.eq_false_iff.mpr asked) (Bool.eq_false_iff.mpr read)
  exact ⟨fun heard => asked (keeps.wasCmd1.mpr heard), noRead, by omega⟩

/-- One pass of the loop, between two moments. -/
theorem Keeps.pass {state : BootState} {words : List UInt32} {resets now : Nat}
    (keeps : state.Keeps words resets now) {env : Pass} (begins : now ≤ env.fullAt)
    (goesOn : env.fullAt ≤ env.cmd1At) (ends : env.cmd1At ≤ env.setAt) :
    (state.pass env).2.Reports (words ++ wordsOf (state.pass env).1)
      (resets + resetsOf (state.pass env).1) env.setAt := by
  have bounded := keeps.bounded
  have counted := keeps.counted
  unfold BootState.pass
  by_cases up : state.tioFull ≤ env.fullAt
  · rw [if_pos up, wordsOf, List.filterMap_nil, List.append_nil]
    exact keeps.code
  rw [if_neg up]
  by_cases last : state.tioCmd1 ≤ env.cmd1At ∧ 4 < state.resetAttempts
  · rw [if_pos last, wordsOf, List.filterMap_nil, List.append_nil]
    refine ⟨by show resets + 0 ≤ 6; omega, keeps.unread, by show resets + 0 = 6; omega, ?_⟩
    -- a silent console has been reset once more at most
    by_contra heard
    obtain ⟨noRequest, noRead⟩ := not_or.mp heard
    obtain ⟨_, once⟩ := keeps.silent
      (Bool.eq_false_iff.mpr fun asked => noRequest (keeps.wasCmd1.mp asked))
      (Bool.eq_false_iff.mpr fun read => noRead (keeps.tracks.wasReadZero.mp read))
    omega
  rw [if_neg last]
  by_cases late : state.tioCmd1 ≤ env.cmd1At
  · have few : state.resetAttempts ≤ 4 := Nat.not_lt.mp fun many => last ⟨late, many⟩
    have reset := ((keeps.later begins).retry few (Nat.not_le.mp up) late).later ends
    simp only [late, decide_true, if_true]
    cases env.word with
    | none =>
      show BootState.Keeps _ (words ++ []) (resets + 1) env.setAt
      rw [List.append_nil]
      exact reset
    | some word => exact reset.hear env.setAt word
  · have same := keeps.later (begins.trans (goesOn.trans ends))
    simp only [late, decide_false, Bool.false_eq_true, if_false]
    cases env.word with
    | none =>
      show BootState.Keeps _ (words ++ []) (resets + 0) env.setAt
      rw [List.append_nil]
      exact same
    | some word => exact same.hear env.setAt word

/-- The loop, from a moment on. -/
theorem Keeps.run {state : BootState} {words : List UInt32} {resets now : Nat}
    (keeps : state.Keeps words resets now) {passes : List Pass} (ordered : Ordered now passes) :
    ∃ moment, (state.run passes).2.Reports (words ++ wordsOf (state.run passes).1)
      (resets + resetsOf (state.run passes).1) moment := by
  induction passes generalizing state words resets now with
  | nil =>
    refine ⟨now, ?_⟩
    rw [BootState.run, wordsOf, List.filterMap_nil, List.append_nil]
    exact keeps
  | cons env rest ih =>
    obtain ⟨begins, goesOn, ends, later⟩ := ordered
    have one := keeps.pass begins goesOn ends
    rw [BootState.run]
    cases passed : state.pass env with
    | mk events ended =>
      rw [passed] at one
      cases ended with
      | waiting next =>
        have more := ih one later
        rw [List.append_assoc, ← wordsOf_append, Nat.add_assoc, ← resetsOf_append] at more
        exact more
      | booted mariko => exact ⟨env.setAt, one⟩
      | finished code => exact ⟨env.setAt, one⟩

end BootState

/-- What the loop reports is justified. -/
theorem Detection.Reports.justified {words : List UInt32} {resets now : Nat} {ended : Detection}
    (reports : ended.Reports words resets now) : resets ≤ 6 ∧ ended.Justified words resets := by
  cases ended with
  | waiting state =>
    have keeps : state.Keeps words resets now := reports
    have bounded := keeps.bounded
    have counted := keeps.counted
    exact ⟨by omega, keeps.unread⟩
  | booted mariko => exact reports
  | finished code => exact reports

/-- Whatever the console says and whenever it says it, it is reset six times at most, it counts as
booted exactly if it has read its second block, and a code tells how far it has come if the wait
ends with one. A console that goes on talking can keep it waiting. -/
theorem boot_told (timeoutMs start : Nat) (passes : List Pass) (ordered : Ordered start passes) :
    resetsOf (waitForBoot timeoutMs start passes).1 ≤ 6 ∧
      (waitForBoot timeoutMs start passes).2.Justified
        (wordsOf (waitForBoot timeoutMs start passes).1)
        (resetsOf (waitForBoot timeoutMs start passes).1) := by
  have empty : ∀ {first second : UInt32}, ¬[first, second] <:+: [] := fun pair =>
    absurd (List.eq_nil_of_infix_nil pair) (List.cons_ne_nil _ _)
  have unseen : ¬StatusSeen [] := by
    intro seen
    have ⟨front, rest, same, zero, _⟩ := seen
    rw [(List.append_eq_nil_iff.mp same.symm).1] at zero
    exact empty zero
  have tracks : BootState.Tracks
      { tioFull := start + timeoutMs * 1000, tioCmd1 := start + timeoutMs * 1000 } [] :=
    ⟨rfl, iff_of_false Bool.false_ne_true empty, iff_of_false (Bool.false_ne_true ·.symm) unseen⟩
  have keeps : BootState.Keeps
      { tioFull := start + timeoutMs * 1000, tioCmd1 := start + timeoutMs * 1000 } [] 1 start :=
    ⟨tracks, iff_of_false Bool.false_ne_true empty, empty, rfl, Nat.zero_le 5,
      fun _ _ => ⟨rfl, .inl rfl⟩⟩
  have ⟨_, reports⟩ := keeps.run ordered
  have justified := reports.justified
  rw [List.nil_append, Nat.add_comm] at justified
  have resets : resetsOf (waitForBoot timeoutMs start passes).1 =
      resetsOf (BootState.run
        { tioFull := start + timeoutMs * 1000
          tioCmd1 := start + timeoutMs * 1000 } passes).1 + 1 :=
    List.count_cons_self
  rw [resets]
  exact justified

/-- A console asks six times for its operating conditions and gets no answer. -/
def unanswered : List Pass :=
  (List.range 6).flatMap fun turn =>
    [0x41000000, 0x00F9].map (fun word => ⟨turn * 30000, turn * 30000, some word, turn * 30000⟩) ++
      [⟨turn * 30000 + 20000, turn * 30000 + 20000, none, turn * 30000 + 20000⟩]

/-- It has been reset six times and heard, and shows the code of a missing answer. -/
theorem unanswered_told :
    (waitForBoot 2500 0 unanswered).2 = .finished 0 ∧
      resetsOf (waitForBoot 2500 0 unanswered).1 ≤ 6 ∧
      (waitForBoot 2500 0 unanswered).2.Justified (wordsOf (waitForBoot 2500 0 unanswered).1)
        (resetsOf (waitForBoot 2500 0 unanswered).1) := by
  have ordered : Ordered 0 unanswered := by
    simp [Ordered, unanswered, List.range_succ]
  exact ⟨by decide, boot_told 2500 0 unanswered ordered⟩

end Fly2040.Firmware
