import Fly2040.Firmware.BootDetect
import Fly2040.Firmware.Hunt
import Fly2040.Firmware.Sniffer
/-!
# An attempt to glitch

An attempt listens to the commands of the eMMC until it knows how the glitch went: a loaded payload
sends a command that nobody else sends, a console that goes on reads the next block, and one that
does neither runs into a deadline. The host takes the words one at a time. What it yields is told by
the frames that it has heard, and it always yields something.
-/

namespace Fly2040.Firmware

open Bits Streams

/-- What the surroundings do in one pass of the loop. Times are in microseconds. -/
structure Poll where
  /-- When the deadline is compared. -/
  checkAt : Nat
  /-- A word that has been heard. -/
  word : Option UInt32
  /-- When a deadline is set. -/
  setAt : Nat
deriving DecidableEq

/-- What the loop keeps. -/
structure AttemptState where
  /-- Deadline. -/
  tioTime : Nat
  /-- The glitch has been triggered. -/
  glitchStarted : Bool := false
  /-- The word before. -/
  lastWord : UInt32 := 0
  /-- Words since the trigger. -/
  dataCount : UInt32 := 0
  /-- The eMMC has answered. -/
  detected : Bool := false
deriving DecidableEq

namespace AttemptState

/-- A word is heard. -/
def hear (full after : Nat) (state : AttemptState) (setAt : Nat) (word : UInt32) :
    Except GlitchResult AttemptState :=
  -- the eMMC answers a request of its operating conditions
  let answered := !state.detected && word >>> 24 == 0x3F
  let tioTime := if answered then full else state.tioTime
  let dataCount := if state.glitchStarted then state.dataCount + 1 else state.dataCount
  -- the block before the glitch is read
  let triggered : Bool := state.lastWord = 0x51000000 ∧ word = 0x1351
  let tioTime := if triggered && !state.glitchStarted then setAt + after else tioTime
  -- the next block is read, so the glitch has had no effect
  if state.lastWord = 0x51000000 ∧ word = 0x142F then .error .failure
  -- the payload is loaded
  else if state.lastWord = 0x40aa5458 ∧ word = 0xba3b then .error .success
  else
    .ok {
      tioTime := if dataCount = 10 then full else tioTime
      glitchStarted := state.glitchStarted || triggered
      lastWord := word
      dataCount := dataCount
      detected := state.detected || answered }

/-- One pass of the loop. -/
def poll (full after : Nat) (state : AttemptState) (env : Poll) :
    Except GlitchResult AttemptState :=
  if state.tioTime ≤ env.checkAt then .error (if state.glitchStarted then .timeout else .missing)
  else
    match env.word with
    | none => .ok state
    | some word => state.hear full after env.setAt word

end AttemptState

/-- An attempt after a number of passes. -/
def doGlitch (totalMs afterMs start : Nat) (polls : Nat → Poll) :
    Nat → Except GlitchResult AttemptState :=
  fed (AttemptState.poll (start + totalMs * 1000) (afterMs * 1000)) polls
    { tioTime := start + 20 * 1000 }

/-- The words of the first passes. -/
def readWords (polls : Nat → Poll) (count : Nat) : List UInt32 :=
  (List.range count).filterMap fun index => (polls index).word

/-- An attempt ends in a pass, and has taken some words until then: that of the pass is not taken if
the deadline is over. -/
structure Attempted (totalMs afterMs start : Nat) (polls : Nat → Poll) (count : Nat)
    (result : GlitchResult) (words : List UInt32) : Prop where
  /-- It ends. -/
  ended : doGlitch totalMs afterMs start polls (count + 1) = .error result
  /-- Not before. -/
  goes : ∃ state, doGlitch totalMs afterMs start polls count = .ok state ∧
    words = readWords polls (if state.tioTime ≤ (polls count).checkAt then count else count + 1)

/-- A block is read: the block before the glitch. -/
def triggerFrame : List Bool := ofBytes [0x51, 0x00, 0x00, 0x00, 0x13, 0x51]

/-- The block behind it is read. -/
def failureFrame : List Bool := ofBytes [0x51, 0x00, 0x00, 0x00, 0x14, 0x2F]

/-- A payload tells that it is loaded. -/
def successFrame : List Bool := ofBytes [0x40, 0xAA, 0x54, 0x58, 0xBA, 0x3B]

/-- What the frames that have been heard tell. -/
def verdict (frames : List Sniffer.Frame) : GlitchResult :=
  if frames.any (·.bits = successFrame) then .success
  else if frames.any (·.bits = failureFrame) then .failure
  else if frames.any (·.bits = triggerFrame) then .timeout
  else .missing

/-- The words of a read of the block before the glitch. -/
def triggerWords : List UInt32 := [0x51000000, 0x1351]

/-- The words of a read of the block behind it. -/
def failureWords : List UInt32 := [0x51000000, 0x142F]

/-- The words of a payload that is loaded. -/
def successWords : List UInt32 := [0x40aa5458, 0xba3b]

/-- What the words that have been heard tell. -/
def wordVerdict (words : List UInt32) : GlitchResult :=
  if successWords <:+: words then .success
  else if failureWords <:+: words then .failure
  else if triggerWords <:+: words then .timeout
  else .missing

section Frames

/-- Frames have the same words if they have the same bits. -/
theorem frame_words_inj (frame other : Sniffer.Frame) :
    frame.words = other.words ↔ frame.bits = other.bits := by
  constructor
  · intro same
    have ⟨first, rest⟩ := List.cons.inj same
    have last := (List.cons.inj rest).1
    have length := frame.length
    have length' := other.length
    have front : frame.bits.take 32 = other.bits.take 32 := by
      have full (frame : Sniffer.Frame) : highFirst (packed 32 (frame.bits.take 32)) =
          frame.bits.take 32 :=
        highFirst_packed_full (by rw [List.length_take, frame.length]; rfl)
      rw [← full frame, ← full other, UInt32.ofBitVec.inj first]
    have back : frame.bits.drop 32 = other.bits.drop 32 := by
      have padded (frame : Sniffer.Frame) : highFirst (packed 32 (frame.bits.drop 32)) =
          List.replicate 16 false ++ frame.bits.drop 32 := by
        have half : (frame.bits.drop 32).length = 16 := by rw [List.length_drop, frame.length]
        rw [highFirst_packed (by omega), half]
      have same' := padded frame
      rw [UInt32.ofBitVec.inj last, padded other] at same'
      exact (List.append_cancel_left same').symm
    rw [← List.take_append_drop 32 frame.bits, front, back, List.take_append_drop]
  · intro same
    rw [Sniffer.Frame.words, Sniffer.Frame.words, same]

/-- The last word of a frame has its last sixteen bits. -/
theorem last_word_lt (frame : Sniffer.Frame) :
    (UInt32.ofBitVec (packed 32 (frame.bits.drop 32))).toNat < 65536 := by
  have half : (frame.bits.drop 32).length = 16 := by rw [List.length_drop, frame.length]
  have below : (BitVec.ofBoolListBE (frame.bits.drop 32)).toNat < 2 ^ 16 :=
    half ▸ (BitVec.ofBoolListBE (frame.bits.drop 32)).isLt
  show ((BitVec.ofBoolListBE (frame.bits.drop 32)).setWidth 32).toNat < 65536
  rw [BitVec.toNat_setWidth]
  exact Nat.lt_of_le_of_lt (Nat.mod_le _ _) below

/-- A pair of words that could begin a frame is the pair of a frame that has been heard. -/
theorem pair_of_frames (frames : List Sniffer.Frame) (count : Nat) {first second : UInt32}
    (large : 65536 ≤ first.toNat) :
    [first, second] <:+: (frames.flatMap Sniffer.Frame.words).take count ↔
      ∃ frame ∈ frames.take (count / 2), frame.words = [first, second] := by
  induction frames generalizing count with
  | nil => simp
  | cons frame frames ih =>
    match count with
    | 0 => simp
    | 1 =>
      refine iff_of_false (fun inside => ?_) (by simp)
      have length := inside.length_le
      rw [List.length_take] at length
      exact absurd (length.trans (Nat.min_le_left _ _)) (show ¬2 ≤ 1 by decide)
    | count + 2 =>
      have half : (count + 2) / 2 = count / 2 + 1 := by omega
      have other : first ≠ UInt32.ofBitVec (packed 32 (frame.bits.drop 32)) := by
        intro same
        rw [same] at large
        exact absurd (last_word_lt frame) (Nat.not_lt_of_le large)
      -- a pair is that of the first frame, or of those behind it
      rw [half, List.take_succ_cons, List.exists_mem_cons_iff, ← ih count, List.flatMap_cons,
        Sniffer.Frame.words, List.cons_append, List.cons_append, List.nil_append,
        List.take_succ_cons, List.take_succ_cons, List.infix_cons_iff, List.infix_cons_iff,
        List.cons_prefix_cons, List.cons_prefix_cons, List.cons_prefix_cons]
      simp [other, eq_comm]

/-- Some words have been heard if a frame with them has been. -/
theorem heard_iff {frames : List Sniffer.Frame} {words : List UInt32}
    (heard : words <+: frames.flatMap Sniffer.Frame.words) (other : Sniffer.Frame)
    {first second : UInt32} (pair : other.words = [first, second])
    (large : 65536 ≤ first.toNat) :
    [first, second] <:+: words ↔
      (frames.take (words.length / 2)).any (·.bits = other.bits) = true := by
  have taken := @pair_of_frames frames words.length first second large
  rw [← List.prefix_iff_eq_take.mp heard, ← pair] at taken
  rw [← pair, taken]
  simp [frame_words_inj]

/-- The words of frames tell what the frames tell. -/
theorem wordVerdict_frames {frames : List Sniffer.Frame} {words : List UInt32}
    (heard : words <+: frames.flatMap Sniffer.Frame.words) :
    wordVerdict words = verdict (frames.take (words.length / 2)) := by
  have success := heard_iff heard ⟨0, successFrame, rfl, rfl⟩
    (show _ = [0x40aa5458, 0xba3b] by decide) (by decide)
  have failure := heard_iff heard ⟨0, failureFrame, rfl, rfl⟩
    (show _ = [0x51000000, 0x142F] by decide) (by decide)
  have trigger := heard_iff heard ⟨0, triggerFrame, rfl, rfl⟩
    (show _ = [0x51000000, 0x1351] by decide) (by decide)
  simp only [wordVerdict, verdict, successWords, failureWords, triggerWords, success, failure,
    trigger]

end Frames

namespace AttemptState

/-- What the loop keeps of the words that it has heard. -/
structure Tracks (state : AttemptState) (words : List UInt32) : Prop where
  /-- The last one. -/
  lastWord : state.lastWord = words.getLast?.getD 0
  /-- Whether the block before the glitch has been read. -/
  glitchStarted : state.glitchStarted = true ↔ triggerWords <:+: words
  /-- The block behind it has not been read. -/
  failure : ¬failureWords <:+: words
  /-- No payload is loaded. -/
  success : ¬successWords <:+: words

/-- The last word, unless it is zero. -/
theorem Tracks.getLast {state : AttemptState} {words : List UInt32} (tracks : state.Tracks words)
    {word : UInt32} (other : word ≠ 0) : words.getLast? = some word ↔ state.lastWord = word := by
  rw [tracks.lastWord]
  cases words.getLast? with
  | none => exact iff_of_false (fun none => by cases none) other.symm
  | some last => exact Option.some_inj

/-- What the loop tells of the words that it has heard. -/
def Tells (words : List UInt32) : Except GlitchResult AttemptState → Prop
  | .ok state => state.Tracks words
  | .error result => result = wordVerdict words

section Hearing

variable {state : AttemptState} {words : List UInt32} (tracks : state.Tracks words)
include tracks

/-- The loop keeps track of a word that it hears, and tells at the end what it has kept. -/
theorem Tracks.hear (full after setAt : Nat) (word : UInt32) :
    Tells (words ++ [word]) (state.hear full after setAt word) := by
  have trigger : triggerWords <:+: words ++ [word] ↔
      triggerWords <:+: words ∨ state.lastWord = 0x51000000 ∧ word = 0x1351 := by
    rw [triggerWords, pair_infix_concat_iff, tracks.getLast (by decide)]
  have failure : failureWords <:+: words ++ [word] ↔
      state.lastWord = 0x51000000 ∧ word = 0x142F := by
    rw [failureWords, pair_infix_concat_iff, tracks.getLast (by decide)]
    exact or_iff_right tracks.failure
  have success : successWords <:+: words ++ [word] ↔
      state.lastWord = 0x40aa5458 ∧ word = 0xba3b := by
    rw [successWords, pair_infix_concat_iff, tracks.getLast (by decide)]
    exact or_iff_right tracks.success
  rw [AttemptState.hear]
  by_cases failed : state.lastWord = 0x51000000 ∧ word = 0x142F
  · rw [if_pos failed]
    have other : ¬(state.lastWord = 0x40aa5458 ∧ word = 0xba3b) := by
      rw [failed.1]
      exact fun never => absurd never.1 (by decide)
    show _ = wordVerdict _
    rw [wordVerdict, if_neg (fun found => other (success.mp found)), if_pos (failure.mpr failed)]
  rw [if_neg failed]
  by_cases worked : state.lastWord = 0x40aa5458 ∧ word = 0xba3b
  · rw [if_pos worked]
    show _ = wordVerdict _
    rw [wordVerdict, if_pos (success.mpr worked)]
  rw [if_neg worked]
  constructor
  · rw [List.getLast?_concat, Option.getD_some]
  · show (state.glitchStarted || decide _) = true ↔ _
    rw [Bool.or_eq_true, decide_eq_true_iff, trigger, tracks.glitchStarted]
  · exact fun found => failed (failure.mp found)
  · exact fun found => worked (success.mp found)

/-- The loop keeps track of what it hears in a pass, and tells at its deadline what it has kept. -/
theorem Tracks.poll (full after : Nat) (env : Poll) :
    Tells (words ++ if state.tioTime ≤ env.checkAt then [] else env.word.toList)
      (state.poll full after env) := by
  rw [AttemptState.poll]
  by_cases late : state.tioTime ≤ env.checkAt
  · rw [if_pos late, if_pos late, List.append_nil]
    show _ = wordVerdict _
    rw [wordVerdict, if_neg tracks.success, if_neg tracks.failure]
    by_cases started : state.glitchStarted = true
    · rw [if_pos started, if_pos (tracks.glitchStarted.mp started)]
    · rw [if_neg started, if_neg fun found => started (tracks.glitchStarted.mpr found)]
  · rw [if_neg late, if_neg late]
    cases env.word with
    | none =>
      show Tracks _ (words ++ [])
      rw [List.append_nil]
      exact tracks
    | some word => exact tracks.hear full after env.setAt word

end Hearing

end AttemptState

/-- The words of one more pass. -/
theorem readWords_succ (polls : Nat → Poll) (count : Nat) :
    readWords polls (count + 1) = readWords polls count ++ (polls count).word.toList := by
  rw [readWords, List.range_succ, List.filterMap_append]
  cases same : (polls count).word <;> simp [readWords, same]

section Runs

variable {totalMs afterMs start count : Nat} {polls : Nat → Poll} {state : AttemptState}

/-- An attempt that goes on has kept track of all words so far. -/
theorem doGlitch_tracks (now : doGlitch totalMs afterMs start polls count = .ok state) :
    state.Tracks (readWords polls count) := by
  induction count generalizing state with
  | zero =>
    rw [← Except.ok.inj now]
    exact ⟨rfl, show false = true ↔ triggerWords <:+: [] by decide,
      show ¬failureWords <:+: [] by decide, show ¬successWords <:+: [] by decide⟩
  | succ count ih =>
    have ⟨before, earlier, last⟩ := fed_before now
    have tells := (ih earlier).poll (start + totalMs * 1000) (afterMs * 1000) (polls count)
    rw [last] at tells
    have open' : ¬before.tioTime ≤ (polls count).checkAt := by
      intro late
      rw [AttemptState.poll, if_pos late] at last
      cases last
    rw [if_neg open', ← readWords_succ] at tells
    exact tells

/-- An attempt yields what its words tell. -/
theorem Attempted.eq_wordVerdict {result : GlitchResult} {words : List UInt32}
    (attempted : Attempted totalMs afterMs start polls count result words) :
    result = wordVerdict words := by
  have ⟨state, now, taken⟩ := attempted.goes
  have tells := (doGlitch_tracks now).poll (start + totalMs * 1000) (afterMs * 1000) (polls count)
  rw [← fed_succ now] at tells
  have ended := attempted.ended
  rw [doGlitch] at ended
  rw [ended] at tells
  rw [taken]
  split at tells
  next late =>
    rw [if_pos late]
    rw [List.append_nil] at tells
    exact tells
  next early =>
    rw [if_neg early, readWords_succ]
    exact tells

/-- Words so far are the first ones of those that are heard later. -/
theorem readWords_grows (polls : Nat → Poll) {count later : Nat} (early : count ≤ later) :
    readWords polls count <+: readWords polls later := by
  induction early with
  | refl => exact List.prefix_rfl
  | step _ ih =>
    rw [readWords_succ]
    exact ih.trans (List.prefix_append _ _)

/-- The words that an attempt has taken are among those of its passes. -/
theorem Attempted.words_prefix {result : GlitchResult} {words : List UInt32}
    (attempted : Attempted totalMs afterMs start polls count result words) :
    words <+: readWords polls (count + 1) := by
  have ⟨state, _, taken⟩ := attempted.goes
  rw [taken]
  apply readWords_grows
  split <;> omega

/-- How late the deadline may be: the time behind the trigger counts from when it is set. -/
structure Punctual (base after lag : Nat) (state : AttemptState) : Prop where
  /-- Before the trigger. -/
  waits : state.glitchStarted = false → state.tioTime ≤ base
  /-- In every case. -/
  bound : state.tioTime ≤ base + after + lag

/-- One of two bounded numbers. -/
theorem if_le {condition : Prop} [Decidable condition] {first second bound : Nat}
    (yes : condition → first ≤ bound) (no : second ≤ bound) :
    (if condition then first else second) ≤ bound := by
  split
  next holds => exact yes holds
  next => exact no

/-- A word keeps the bound of the deadline. -/
theorem Punctual.hear {full after lag base setAt : Nat} {word : UInt32} {next : AttemptState}
    (punctual : Punctual base after lag state) (total : full ≤ base)
    (soon : state.glitchStarted = false → setAt ≤ base + lag)
    (goes : state.hear full after setAt word = .ok next) : Punctual base after lag next := by
  have total' : full ≤ base + after + lag := by omega
  rw [AttemptState.hear] at goes
  split at goes
  next => cases goes
  split at goes
  next => cases goes
  rw [← Except.ok.inj goes]
  constructor
  · intro open'
    have ⟨before, other⟩ := Bool.or_eq_false_iff.mp open'
    refine if_le (fun _ => total) (if_le (fun never => ?_)
      (if_le (fun _ => total) (punctual.waits before)))
    rw [other] at never
    cases never
  · refine if_le (fun _ => total') (if_le (fun triggered => ?_)
      (if_le (fun _ => total') punctual.bound))
    have before := (Bool.and_eq_true_iff.mp triggered).2
    rw [Bool.not_eq_true'] at before
    have late := soon before
    omega

/-- A pass keeps the bound of the deadline. -/
theorem Punctual.poll {full after lag base : Nat} {env : Poll} {next : AttemptState}
    (punctual : Punctual base after lag state) (total : full ≤ base)
    (soon : env.setAt ≤ env.checkAt + lag) (goes : state.poll full after env = .ok next) :
    Punctual base after lag next := by
  rw [AttemptState.poll] at goes
  split at goes
  next => cases goes
  next early =>
    cases heard : env.word with
    | none =>
      rw [heard] at goes
      rw [← Except.ok.inj goes]
      exact punctual
    | some word =>
      rw [heard] at goes
      apply punctual.hear total _ goes
      intro open'
      have waits := punctual.waits open'
      omega

/-- The deadline of an attempt that goes on is bounded. -/
theorem doGlitch_punctual {lag : Nat} (slow : ∀ index, (polls index).setAt ≤
      (polls index).checkAt + lag) (now : doGlitch totalMs afterMs start polls count = .ok state) :
    Punctual (start + max 20 totalMs * 1000) (afterMs * 1000) lag state := by
  have most : 20 ≤ max 20 totalMs := Nat.le_max_left 20 totalMs
  have most' : totalMs ≤ max 20 totalMs := Nat.le_max_right 20 totalMs
  induction count generalizing state with
  | zero =>
    have first : start + 20 * 1000 ≤ start + max 20 totalMs * 1000 := by omega
    have same : state.tioTime = start + 20 * 1000 := by
      rw [← Except.ok.inj now]
    rw [← same] at first
    exact ⟨fun _ => first, first.trans (by omega)⟩
  | succ count ih =>
    have ⟨before, earlier, last⟩ := fed_before now
    exact (ih earlier).poll (by omega) (slow count) last

/-- An attempt ends in the pass in which the last deadline is over, or before. -/
theorem doGlitch_ends {lag last : Nat} (slow : ∀ index, (polls index).setAt ≤
      (polls index).checkAt + lag)
    (elapsed : start + max 20 totalMs * 1000 + afterMs * 1000 + lag ≤ (polls last).checkAt) :
    ∃ count ≤ last, ∃ result words,
      Attempted totalMs afterMs start polls count result words := by
  have ends : ∃ result, doGlitch totalMs afterMs start polls (last + 1) = .error result := by
    cases now : doGlitch totalMs afterMs start polls last with
    | error result =>
      refine ⟨result, ?_⟩
      rw [doGlitch] at now ⊢
      rw [fed, now]
    | ok state =>
      have late : state.tioTime ≤ (polls last).checkAt :=
        (doGlitch_punctual slow now).bound.trans elapsed
      exact ⟨_, (fed_succ now).trans (if_pos late)⟩
  obtain ⟨result, ended⟩ := ends
  obtain ⟨count, below, state, now, ended'⟩ := fed_ended ended
  exact ⟨count, Nat.le_of_lt_succ below, result, _, ended', state, now, rfl⟩

/-- An attempt whose passes do not lag ends in time, and yields what the frames tell whose words it
has taken until then: that the payload is loaded, that the console goes on with the next block, that
it has stalled behind the trigger, or that there has been no trigger. -/
theorem attempt_told {lag last : Nat} {frames : List Sniffer.Frame}
    (slow : ∀ index, (polls index).setAt ≤ (polls index).checkAt + lag)
    (elapsed : start + max 20 totalMs * 1000 + afterMs * 1000 + lag ≤ (polls last).checkAt)
    (heard : readWords polls (last + 1) <+: frames.flatMap Sniffer.Frame.words) :
    ∃ count ≤ last, ∃ words, words <+: frames.flatMap Sniffer.Frame.words ∧
      Attempted totalMs afterMs start polls count
        (verdict (frames.take (words.length / 2))) words := by
  have ⟨count, early, result, words, attempted⟩ := doGlitch_ends slow elapsed
  have before : words <+: frames.flatMap Sniffer.Frame.words :=
    attempted.words_prefix.trans ((readWords_grows polls (by omega)).trans heard)
  have same := attempted.eq_wordVerdict
  rw [wordVerdict_frames before] at same
  rw [same] at attempted
  exact ⟨count, early, words, before, attempted⟩

end Runs

/-- The frames of an attempt that works. -/
def workingFrames : List Sniffer.Frame :=
  [⟨3, triggerFrame, rfl, rfl⟩, ⟨0, successFrame, rfl, rfl⟩]

/-- A host that takes a word every millisecond. -/
def workingPolls (index : Nat) : Poll where
  checkAt := if index < 4 then index * 1000 else 326001
  word := (workingFrames.flatMap Sniffer.Frame.words)[index]?
  setAt := if index < 4 then index * 1000 else 326001

/-- The attempt yields that the payload is loaded. -/
theorem working_attempt_told :
    ∃ count ≤ 4, ∃ words, words <+: workingFrames.flatMap Sniffer.Frame.words ∧
      Attempted 300 6 0 workingPolls count (verdict (workingFrames.take (words.length / 2)))
        words :=
  @attempt_told 300 6 0 workingPolls 1 4 workingFrames (fun _ => Nat.le_succ _) (by decide)
    (by decide)

section Hunts

variable {hunt : Hunt} {gres : GlitchResult}

/-- Only an attempt that works makes its call return success. -/
theorem glitchAttempt_worked {edgeLimit : Nat} {state : GlitchState} {width : Int}
    (ended : glitchAttempt edgeLimit state gres = .error (.returned true width)) :
    gres = .success := by
  simp only [glitchAttempt] at ended
  generalize (if gres = .missing then state.missingCount + 1 else 0) = missingCount at ended
  split at ended
  · cases ended
  split at ended
  · cases ended
  split at ended
  · cases ended
  split at ended
  · assumption
  split at ended <;> cases ended

/-- Only an attempt that works ends a search with an offset. -/
theorem huntAttempt_glitched {offset : Nat}
    (ended : huntAttempt hunt gres = .error (.glitched offset)) : gres = .success := by
  rw [huntAttempt] at ended
  split at ended
  next => cases ended
  next worked => exact glitchAttempt_worked worked
  next =>
    cases planned : hunt.plan with
    | nil =>
      rw [planned, nextCall] at ended
      cases ended
    | cons call plan =>
      rw [planned, nextCall] at ended
      cases ended
  next => cases ended

end Hunts

/-- What every attempt of a search yields, and the frames that it has heard. -/
structure Heard (results : Nat → GlitchResult) (frames : Nat → List Sniffer.Frame) where
  /-- When an attempt begins. -/
  start : Nat → Nat
  /-- What happens in its passes. -/
  polls : Nat → Nat → Poll
  /-- The pass in which it ends. -/
  passes : Nat → Nat
  /-- The words that it takes. -/
  words : Nat → List UInt32
  /-- It yields its result. -/
  attempted : ∀ number,
    Attempted 300 6 (start number) (polls number) (passes number) (results number) (words number)
  /-- It takes the words of frames. -/
  sniffed : ∀ number, words number <+: (frames number).flatMap Sniffer.Frame.words

/-- The frames whose words an attempt has taken. -/
def Heard.frames {results : Nat → GlitchResult} {frames : Nat → List Sniffer.Frame}
    (heard : Heard results frames) (number : Nat) : List Sniffer.Frame :=
  (frames number).take ((heard.words number).length / 2)

/-- A search ends with an offset at an attempt exactly if the attempt has heard that the payload is
loaded, and its width is none of those for which a code is shown. -/
theorem glitched_iff_loaded (call : GlitchCall) (plan : List GlitchCall)
    (results : Nat → GlitchResult) (frames : Nat → List Sniffer.Frame)
    (heard : Heard results frames) (number : Nat) (hunt : Hunt)
    (now : huntAfter call plan results number = .ok hunt) :
    huntAfter call plan results (number + 1) = .error (.glitched hunt.call.offset) ↔
      (heard.frames number).any (·.bits = successFrame) = true ∧
        1 < hunt.glitch.width ∧ hunt.glitch.width < 1000 := by
  have result : results number = verdict (heard.frames number) := by
    rw [(heard.attempted number).eq_wordVerdict, wordVerdict_frames (heard.sniffed number)]
    rfl
  have loaded : results number = .success ↔
      (heard.frames number).any (·.bits = successFrame) = true := by
    rw [result, verdict]
    by_cases found : (heard.frames number).any (·.bits = successFrame) = true
    · rw [if_pos found]
      exact iff_of_true rfl found
    · rw [if_neg found]
      refine iff_of_false ?_ found
      split
      · decide
      · split <;> decide
  have next : huntAfter call plan results (number + 1) = huntAttempt hunt (results number) :=
    fed_succ now
  have kept := huntAttempt_success_iff (huntAfter_pos now)
  rw [next, ← loaded]
  constructor
  · intro ended
    have worked := huntAttempt_glitched ended
    rw [worked] at ended
    exact ⟨worked, kept.mp ended⟩
  · intro ⟨worked, inside⟩
    rw [worked]
    exact kept.mpr inside

/-- A console that always loads the payload. -/
def workingHeard : Heard (fun _ => .success) fun _ => workingFrames where
  start _ := 0
  polls _ := workingPolls
  passes _ := 3
  words _ := workingFrames.flatMap Sniffer.Frame.words
  attempted _ := ⟨rfl, _, rfl, rfl⟩
  sniffed _ := List.prefix_rfl

/-- The first attempt ends the search. -/
theorem first_glitched_iff_loaded :
    huntAfter ⟨9200, 4⟩ [] (fun _ => .success) 1 = .error (.glitched 9200) ↔
      (workingHeard.frames 0).any (·.bits = successFrame) = true ∧ 1 < (150 : Int) ∧
        (150 : Int) < 1000 :=
  glitched_iff_loaded ⟨9200, 4⟩ [] (fun _ => .success) (fun _ => workingFrames) workingHeard 0
    (huntStart ⟨9200, 4⟩ []) rfl

end Fly2040.Firmware
