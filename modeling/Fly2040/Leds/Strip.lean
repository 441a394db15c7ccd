import Fly2040.Leds.Loop
import Fly2040.Lib.Pulses
/-!
# The strip of LEDs

A machine shifts the pixel buffer out on one line. A bit takes ten cycles, of which the line is high
for seven if it is a one and for two if it is a zero. The line is low while the machine waits for a
word, and it waits between words only. Every LED of the strip takes the first bits that reach it and
passes the rest on, so what a frame puts into the buffer is what the LEDs show.
-/

namespace Fly2040.Leds

open Bits Pulses Steps

/-- Cycles for which the line is high in every bit. -/
def t1 : Nat := 2

/-- Cycles for which it is high in a one only. -/
def t2 : Nat := 5

/-- Cycles for which it is low in every bit. -/
def t3 : Nat := 3

/-- Program of the machine that drives the strip. -/
def ws2812 : List Op :=
  [⟨.out .x 1, false, t3 - 1⟩,
    ⟨.jmp (.zero .x) 3, true, t1 - 1⟩,
    ⟨.jmp .always 0, true, t2 - 1⟩,
    ⟨.nop, false, t2 - 1⟩]

/-- Set the machine up for a host that is ready to put words in some cycles. -/
def ws2812ProgramInit (rgbw : Bool) (turns : Nat → Nat) : Setting where
  program := ws2812
  threshold := if rgbw then 32 else 24
  depth := 8
  turns := turns
  released _ _ := false

/-- The machine when it is enabled, and the words that its host puts. -/
def stripStart (x y : UInt32) (words : List UInt32) : Sm where
  pc := 0
  x := x
  y := y
  delay := 0
  level := false
  wave := []
  osr := []
  tx := []
  todo := words

/-- Levels of a bit. -/
def bitWave (bit : Bool) : List Bool :=
  List.replicate t3 false ++ List.replicate t1 true ++ List.replicate t2 bit

/-- Levels carry bits, in words of some length, with pauses between words only. -/
inductive Carries (size : Nat) : (wave bits : List Bool) → Prop where
  /-- No levels. -/
  | none : Carries size [] []
  /-- The line is low behind a word. -/
  | pause {wave bits : List Bool} (before : Carries size wave bits)
      (whole : bits.length % size = 0) : Carries size (wave ++ [false]) bits
  /-- A bit. -/
  | bit {wave bits : List Bool} (before : Carries size wave bits) (bit : Bool) :
      Carries size (wave ++ bitWave bit) (bits ++ [bit])

/-- The line is low for some cycles behind a word. -/
theorem Carries.pauses {size : Nat} {wave bits : List Bool} (carries : Carries size wave bits)
    (whole : bits.length % size = 0) (count : Nat) :
    Carries size (wave ++ List.replicate count false) bits := by
  induction count with
  | zero =>
    rw [List.replicate_zero, List.append_nil]
    exact carries
  | succ count ih =>
    rw [List.replicate_succ', ← List.append_assoc]
    exact ih.pause whole

/-- Bits that an LED reads: a pulse is a one if it is long. -/
def read (wave : List Bool) : List Bool := (pulses wave).map fun high => decide (t1 < high)

/-- Pulses of levels that carry bits. -/
theorem Carries.pulses {size : Nat} {wave bits : List Bool} (carries : Carries size wave bits)
    (rest : List Bool) : pulses (wave ++ false :: rest) =
      (bits.map fun bit => if bit then t1 + t2 else t1) ++ pulses rest := by
  induction carries generalizing rest with
  | none => rfl
  | pause before whole ih =>
    rw [List.append_assoc]
    exact ih (false :: rest)
  | bit before bit ih =>
    have first := ih (List.replicate 2 false ++ List.replicate t1 true ++ List.replicate t2 bit ++
      false :: rest)
    rw [List.append_assoc, List.map_append, List.append_assoc]
    cases bit <;> exact first

/-- Levels that carry bits are read as these bits, as soon as the line is low again. -/
theorem Carries.read {size : Nat} {wave bits : List Bool} (carries : Carries size wave bits) :
    read (wave ++ [false]) = bits := by
  have lengths := carries.pulses []
  have back : ∀ bit : Bool, decide (t1 < if bit then t1 + t2 else t1) = bit := by decide
  rw [Leds.read, lengths, Pulses.pulses, pulsesFrom, List.append_nil, List.map_map]
  simp only [Function.comp_def, back, List.map_id']

section Machine

variable {rgbw : Bool} {turns : Nat → Nat} {sm : Sm}

/-- The machine is about to take a bit. -/
structure Ready (sm : Sm) : Prop where
  /-- At the first instruction. -/
  pc : sm.pc = 0
  /-- Not in a pause. -/
  delay : sm.delay = 0

/-- A bit in the counter. -/
def counter (bit : Bool) : UInt32 := UInt32.ofBitVec (packed 32 [bit])

/-- A bit is taken while the line is low. -/
theorem iterate_out (ready : Ready sm) {bit : Bool} {rest : List Bool}
    (held : sm.osr = bit :: rest) :
    ((Sm.step (ws2812ProgramInit rgbw turns))^[t3] sm).toCore =
        { sm.toCore with
          pc := 1, x := counter bit, delay := 0, level := false
          wave := sm.wave ++ List.replicate t3 false } ∧
      sm.bits (ws2812ProgramInit rgbw turns) =
        bit :: ((Sm.step (ws2812ProgramInit rgbw turns))^[t3] sm).bits
          (ws2812ProgramInit rgbw turns) := by
  have next : Core.following (ws2812ProgramInit rgbw turns).program sm.pc = 1 := by
    rw [ready.pc]
    rfl
  have done : ({ sm.toCore with
      level := false
      pc := Core.following (ws2812ProgramInit rgbw turns).program sm.pc } : Core).execute
        (ws2812ProgramInit rgbw turns) sm.osr (.out .x 1) =
      some ({ sm.toCore with level := false, pc := 1, x := counter bit }, rest) := by
    rw [next, held]
    rfl
  have ⟨core, bits⟩ := Sm.iterate_op (ws2812ProgramInit rgbw turns) ⟨.out .x 1, false, t3 - 1⟩
    ready.delay (by rw [ready.pc]; rfl) done
  refine ⟨core, ?_⟩
  show _ = bit :: ((Sm.step (ws2812ProgramInit rgbw turns))^[t3 - 1 + 1] sm).bits _
  rw [bits, Sm.bits, held]
  rfl

/-- The line is high, and the bit says how it goes on. -/
theorem iterate_branch (pc : sm.pc = 1) (delay : sm.delay = 0) {bit : Bool}
    (taken : sm.x = counter bit) :
    ((Sm.step (ws2812ProgramInit rgbw turns))^[t1] sm).toCore =
        { sm.toCore with
          pc := if bit then 2 else 3, delay := 0, level := true
          wave := sm.wave ++ List.replicate t1 true } ∧
      ((Sm.step (ws2812ProgramInit rgbw turns))^[t1] sm).bits (ws2812ProgramInit rgbw turns) =
        sm.bits (ws2812ProgramInit rgbw turns) := by
  have done : ({ sm.toCore with level := true, pc := 2 } : Core).execute
      (ws2812ProgramInit rgbw turns) sm.osr (.jmp (.zero .x) 3) =
        some ({ sm.toCore with level := true, pc := if bit then 2 else 3 }, sm.osr) := by
    have zero : decide (sm.x = 0) = !bit := by
      rw [taken]
      cases bit <;> rfl
    rw [Core.execute, Option.some.injEq, Prod.mk.injEq]
    refine ⟨?_, rfl⟩
    show (if decide (sm.x = 0) = true then _ else _) = _
    rw [zero]
    cases bit <;> rfl
  exact Sm.iterate_op (ws2812ProgramInit rgbw turns) ⟨.jmp (.zero .x) 3, true, t1 - 1⟩ delay
    (by rw [pc]; rfl) (by rw [pc]; exact done)

/-- The line is high for the rest of a one, and low for the rest of a zero. -/
theorem iterate_rest {bit : Bool} (pc : sm.pc = if bit then 2 else 3) (delay : sm.delay = 0) :
    ((Sm.step (ws2812ProgramInit rgbw turns))^[t2] sm).toCore =
        { sm.toCore with
          pc := 0, delay := 0, level := bit, wave := sm.wave ++ List.replicate t2 bit } ∧
      ((Sm.step (ws2812ProgramInit rgbw turns))^[t2] sm).bits (ws2812ProgramInit rgbw turns) =
        sm.bits (ws2812ProgramInit rgbw turns) := by
  cases bit with
  | true =>
    exact Sm.iterate_op (ws2812ProgramInit rgbw turns) ⟨.jmp .always 0, true, t2 - 1⟩ delay
      (by rw [pc]; rfl) (by rw [pc]; rfl)
  | false =>
    exact Sm.iterate_op (ws2812ProgramInit rgbw turns) ⟨.nop, false, t2 - 1⟩ delay
      (by rw [pc]; rfl) (by rw [pc]; rfl)

/-- A bit is shifted out in ten cycles. -/
theorem iterate_bit (ready : Ready sm) {bit : Bool} {rest : List Bool}
    (held : sm.osr = bit :: rest) :
    Ready ((Sm.step (ws2812ProgramInit rgbw turns))^[t2 + (t1 + t3)] sm) ∧
      ((Sm.step (ws2812ProgramInit rgbw turns))^[t2 + (t1 + t3)] sm).wave =
        sm.wave ++ bitWave bit ∧
      sm.bits (ws2812ProgramInit rgbw turns) =
        bit :: ((Sm.step (ws2812ProgramInit rgbw turns))^[t2 + (t1 + t3)] sm).bits
          (ws2812ProgramInit rgbw turns) := by
  have ⟨core, bits⟩ := @iterate_out rgbw turns sm ready bit rest held
  rw [Function.iterate_add_apply, Function.iterate_add_apply]
  generalize (Sm.step (ws2812ProgramInit rgbw turns))^[t3] sm = low at core bits ⊢
  have ⟨core', bits'⟩ :=
    @iterate_branch rgbw turns low (by rw [core]) (by rw [core]) bit (by rw [core])
  generalize (Sm.step (ws2812ProgramInit rgbw turns))^[t1] low = high at core' bits' ⊢
  have ⟨core'', bits''⟩ := @iterate_rest rgbw turns high bit (by rw [core']) (by rw [core'])
  rw [bits, bits'', bits']
  refine ⟨⟨by rw [core''], by rw [core'']⟩, ?_, rfl⟩
  rw [core'', core', core, bitWave, List.append_assoc, List.append_assoc, List.append_assoc]

/-- Without a bit the line is low for a cycle. -/
theorem step_pause (ready : Ready sm) (empty : sm.osr = []) :
    Ready (sm.step (ws2812ProgramInit rgbw turns)) ∧
      (sm.step (ws2812ProgramInit rgbw turns)).wave = sm.wave ++ [false] ∧
      (sm.step (ws2812ProgramInit rgbw turns)).bits (ws2812ProgramInit rgbw turns) =
        sm.bits (ws2812ProgramInit rgbw turns) := by
  have ⟨core, bits⟩ := Sm.step_waits (ws2812ProgramInit rgbw turns) ⟨.out .x 1, false, t3 - 1⟩
    ready.delay (by rw [ready.pc]; rfl) (by rw [empty]; rfl)
  refine ⟨⟨?_, ?_⟩, ?_, bits⟩
  · rw [core]
    exact ready.pc
  · rw [core]
    exact ready.delay
  · rw [core]

/-- Words have some bits each. -/
theorem threshold_bounds : 0 < (ws2812ProgramInit rgbw turns).threshold ∧
    (ws2812ProgramInit rgbw turns).threshold ≤ 32 := by
  show 0 < (if rgbw then 32 else 24) ∧ (if rgbw then 32 else 24) ≤ 32
  cases rgbw <;> decide

/-- A machine that is about to take a bit has put on the line what it has taken from some words. -/
structure Shifting (setting : Setting) (words : List UInt32) (sm : Sm) : Prop where
  /-- About to take a bit. -/
  ready : Ready sm
  /-- What is on the line, and what is left. -/
  carries : ∃ sent, Carries setting.threshold sm.wave sent ∧
    sent ++ sm.bits setting = Sm.behind setting words
  /-- Nothing is queued behind an empty register. -/
  dry : sm.osr = [] → sm.tx = []

variable {words : List UInt32}

/-- The machine begins so. -/
theorem shifting_start (x y : UInt32) :
    Shifting (ws2812ProgramInit rgbw turns) words (stripStart x y words) :=
  ⟨⟨rfl, rfl⟩, ⟨[], .none, rfl⟩, fun _ => rfl⟩

/-- With an empty register, what has been sent are whole words. -/
theorem whole_of_empty {sent : List Bool} (empty : sm.osr = [])
    (whole : sent ++ sm.bits (ws2812ProgramInit rgbw turns) =
      Sm.behind (ws2812ProgramInit rgbw turns) words) :
    sent.length % (ws2812ProgramInit rgbw turns).threshold = 0 := by
  have ⟨_, fits⟩ := @threshold_bounds rgbw turns
  have length := congrArg List.length whole
  rw [Sm.bits, empty, List.nil_append, List.length_append, Sm.behind_length fits,
    Sm.behind_length fits] at length
  have multiple : (ws2812ProgramInit rgbw turns).threshold ∣ sent.length :=
    (Nat.dvd_add_left (Dvd.intro _ rfl)).mp (Dvd.intro _ length.symm)
  exact Nat.mod_eq_zero_of_dvd multiple

/-- A cycle without a bit. -/
theorem shifting_pause (now : Shifting (ws2812ProgramInit rgbw turns) words sm)
    (empty : sm.osr = []) :
    Shifting (ws2812ProgramInit rgbw turns) words (sm.step (ws2812ProgramInit rgbw turns)) := by
  have ⟨ready, wave, bits⟩ := @step_pause rgbw turns sm now.ready empty
  have ⟨sent, carries, whole⟩ := now.carries
  refine ⟨ready, ⟨sent, ?_, ?_⟩, Sm.step_dry threshold_bounds.1⟩
  · rw [wave]
    exact carries.pause (whole_of_empty empty whole)
  · rw [bits]
    exact whole

/-- The cycles of a bit. -/
theorem shifting_bit (now : Shifting (ws2812ProgramInit rgbw turns) words sm) {bit : Bool}
    {rest : List Bool} (held : sm.osr = bit :: rest) :
    Shifting (ws2812ProgramInit rgbw turns) words
        ((Sm.step (ws2812ProgramInit rgbw turns))^[t2 + (t1 + t3)] sm) ∧
      sm.bits (ws2812ProgramInit rgbw turns) =
        bit :: ((Sm.step (ws2812ProgramInit rgbw turns))^[t2 + (t1 + t3)] sm).bits
          (ws2812ProgramInit rgbw turns) := by
  have ⟨ready, wave, bits⟩ := @iterate_bit rgbw turns sm now.ready bit rest held
  have ⟨sent, carries, whole⟩ := now.carries
  refine ⟨⟨ready, ⟨sent ++ [bit], ?_, ?_⟩, ?_⟩, bits⟩
  · rw [wave]
    exact carries.bit bit
  · rw [← whole, bits, List.append_assoc, List.singleton_append]
  · rw [show t2 + (t1 + t3) = 9 + 1 from rfl, Function.iterate_succ_apply']
    exact Sm.step_dry threshold_bounds.1

/-- The machine comes back to take a bit. -/
theorem shifting_next (now : Shifting (ws2812ProgramInit rgbw turns) words sm) :
    ∃ more, Shifting (ws2812ProgramInit rgbw turns) words
      ((Sm.step (ws2812ProgramInit rgbw turns))^[more + 1] sm) := by
  cases held : sm.osr with
  | nil => exact ⟨0, shifting_pause now held⟩
  | cons bit rest => exact ⟨9, (shifting_bit now held).1⟩

/-- Whatever its host does, the machine comes back to take a bit after any cycle. -/
theorem shifting_later (now : Shifting (ws2812ProgramInit rgbw turns) words sm) (count : Nat) :
    ∃ more, Shifting (ws2812ProgramInit rgbw turns) words
      ((Sm.step (ws2812ProgramInit rgbw turns))^[more + count] sm) := by
  induction count with
  | zero => exact ⟨0, now⟩
  | succ count ih =>
    have ⟨more, there⟩ := ih
    by_cases here : more = 0
    · rw [here, Nat.zero_add] at there
      have ⟨more', next⟩ := shifting_next there
      refine ⟨more', ?_⟩
      rw [← Nat.add_assoc, Nat.add_right_comm, Function.iterate_add_apply]
      exact next
    · have cycles : more - 1 + (count + 1) = more + count := by omega
      refine ⟨more - 1, ?_⟩
      rw [cycles]
      exact there

/-- What the strip has read is always the beginning of what the host puts. -/
theorem read_prefix (now : Shifting (ws2812ProgramInit rgbw turns) words sm) (count : Nat) :
    read ((Sm.step (ws2812ProgramInit rgbw turns))^[count] sm).wave <+:
      Sm.behind (ws2812ProgramInit rgbw turns) words := by
  have ⟨more, there⟩ := shifting_later now count
  have ⟨sent, carries, whole⟩ := there.carries
  rw [Function.iterate_add_apply] at carries
  have earlier := @Sm.iterate_wave_prefix (ws2812ProgramInit rgbw turns)
    ((Sm.step (ws2812ProgramInit rgbw turns))^[count] sm) more
  have pulses := pulsesFrom_grows 0 (earlier.trans (List.prefix_append _ [false]))
  have bits : read ((Sm.step (ws2812ProgramInit rgbw turns))^[count] sm).wave <+: sent := by
    rw [← carries.read]
    exact pulses.map _
  rw [← whole]
  exact bits.trans (List.prefix_append _ _)

/-- A host that is ready again and again gives the machine its next word. -/
theorem shifting_fetch (often : ∀ time, ∃ later, time ≤ later ∧ 0 < turns later)
    (now : Shifting (ws2812ProgramInit rgbw turns) words sm) (empty : sm.osr = [])
    (more : sm.todo ≠ []) :
    ∃ last, Reaches (Sm.step (ws2812ProgramInit rgbw turns)) sm last ∧
      Shifting (ws2812ProgramInit rgbw turns) words last ∧ last.osr ≠ [] ∧
      last.bits (ws2812ProgramInit rgbw turns) = sm.bits (ws2812ProgramInit rgbw turns) := by
  have ⟨count, core, held, bits⟩ := @Sm.fetch sm (ws2812ProgramInit rgbw turns) .x 1 (t3 - 1) false
    threshold_bounds (show 0 < 8 by decide) often now.ready.delay (by rw [now.ready.pc]; rfl) empty
    (now.dry empty) more
  have ⟨sent, carries, whole⟩ := now.carries
  refine ⟨_, ⟨count + 1, rfl⟩, ⟨⟨?_, ?_⟩, ⟨sent, ?_, ?_⟩, fun none => absurd none held⟩, held, bits⟩
  · rw [core]
    exact now.ready.pc
  · rw [core]
    exact now.ready.delay
  · rw [core]
    exact carries.pauses (whole_of_empty empty whole) (count + 1)
  · rw [bits]
    exact whole

/-- If its host is ready again and again, the machine shifts everything out. -/
theorem shifting_done (often : ∀ time, ∃ later, time ≤ later ∧ 0 < turns later)
    (now : Shifting (ws2812ProgramInit rgbw turns) words sm) :
    ∃ last, Reaches (Sm.step (ws2812ProgramInit rgbw turns)) sm last ∧
      Shifting (ws2812ProgramInit rgbw turns) words last ∧
      last.bits (ws2812ProgramInit rgbw turns) = [] := by
  induction size : (sm.bits (ws2812ProgramInit rgbw turns)).length using Nat.strongRecOn
    generalizing sm with
  | _ count ih =>
    have shift {sm : Sm} (now : Shifting (ws2812ProgramInit rgbw turns) words sm)
        (held : sm.osr ≠ []) (same : (sm.bits (ws2812ProgramInit rgbw turns)).length = count) :
        ∃ last, Reaches (Sm.step (ws2812ProgramInit rgbw turns)) sm last ∧
          Shifting (ws2812ProgramInit rgbw turns) words last ∧
          last.bits (ws2812ProgramInit rgbw turns) = [] := by
      obtain ⟨bit, rest, held⟩ := List.exists_cons_of_ne_nil held
      obtain ⟨next, bits⟩ := shifting_bit now held
      rw [bits, List.length_cons] at same
      obtain ⟨last, reaches, there, empty⟩ := ih _ (by omega) next rfl
      exact ⟨last, .trans ⟨_, rfl⟩ reaches, there, empty⟩
    by_cases empty : sm.osr = []
    · by_cases none : sm.todo = []
      · refine ⟨sm, .refl, now, ?_⟩
        rw [Sm.bits, empty, now.dry empty, none]
        rfl
      · obtain ⟨middle, reaches, there, held, bits⟩ := shifting_fetch often now empty none
        obtain ⟨last, reaches', there', done⟩ := shift there held (by rw [bits, size])
        exact ⟨last, reaches.trans reaches', there', done⟩
    · exact shift now empty size

/-- If its host is ready again and again, the strip has read all that the host puts from some cycle
on. -/
theorem read_all (often : ∀ time, ∃ later, time ≤ later ∧ 0 < turns later)
    (now : Shifting (ws2812ProgramInit rgbw turns) words sm) :
    ∃ count, ∀ more, read ((Sm.step (ws2812ProgramInit rgbw turns))^[count + more] sm).wave =
      Sm.behind (ws2812ProgramInit rgbw turns) words := by
  have ⟨last, ⟨count, same⟩, there, done⟩ := shifting_done often now
  have empty : last.osr = [] := (List.append_eq_nil_iff.mp done).1
  have ⟨sent, carries, whole⟩ := there.carries
  rw [done, List.append_nil] at whole
  have ⟨_, wave, _⟩ := @step_pause rgbw turns last there.ready empty
  have all : read (last.step (ws2812ProgramInit rgbw turns)).wave =
      Sm.behind (ws2812ProgramInit rgbw turns) words := by
    rw [wave, carries.read, whole]
  refine ⟨count + 1, fun more => ?_⟩
  have before := read_prefix now (count + 1 + more)
  have after := @Sm.iterate_wave_prefix (ws2812ProgramInit rgbw turns)
    (last.step (ws2812ProgramInit rgbw turns)) more
  have pulses := (pulsesFrom_grows 0 after).map fun high => decide (t1 < high)
  have cycles : (Sm.step (ws2812ProgramInit rgbw turns))^[count + 1 + more] sm =
      (Sm.step (ws2812ProgramInit rgbw turns))^[more]
        (last.step (ws2812ProgramInit rgbw turns)) := by
    rw [Nat.add_comm, Function.iterate_add_apply, Function.iterate_succ_apply', same]
  rw [cycles] at before ⊢
  have equal : read (last.step (ws2812ProgramInit rgbw turns)).wave <+:
      read ((Sm.step (ws2812ProgramInit rgbw turns))^[more]
        (last.step (ws2812ProgramInit rgbw turns))).wave := pulses
  rw [all] at equal
  exact before.eq_of_length_le equal.length_le

end Machine

section Frames

/-- Bits of a pixel that reach the strip. -/
def pixelBits (word : UInt32) : List Bool := (ofWord word).take 24

/-- Colours that the LEDs of a strip take: each of them takes the first bits that reach it and
passes the rest on. -/
def takeColours : (leds : Nat) → (bits : List Bool) → List (List Bool)
  | 0, _ => []
  | leds + 1, bits => bits.take 24 :: takeColours leds (bits.drop 24)

/-- Every LED takes the colour of its pixel. -/
theorem takeColours_pixels (words : List UInt32) :
    takeColours words.length (words.flatMap pixelBits) = words.map pixelBits := by
  induction words with
  | nil => rfl
  | cons word words ih =>
    have length : (pixelBits word).length = 24 := by
      rw [pixelBits, List.length_take, ofWord_length]
      rfl
    rw [List.length_cons, takeColours, List.flatMap_cons, List.take_left' length,
      List.drop_left' length, ih, List.map_cons]

/-- A frame shifts out the pixels that it has drawn. -/
theorem ledsMode_drawn {sin : ℚ → ℚ} {now : UInt32} {device later : Device}
    (stage : device.stage = .frame) (fits : device.state.numPixels.toNat ≤ maxPixels)
    (ran : ledsMode sin device now = .ok later) :
    draw sin device.ms device.state device.pixels = .ok later.pixels ∧
      later.shifted = later.pixels.toList.take device.state.numPixels.toNat := by
  rw [ledsMode, stage] at ran
  cases drawn : draw sin device.ms device.state device.pixels with
  | error fault =>
    rw [render, drawn] at ran
    cases ran
  | ok pixels =>
    have rendered : render sin device.ms device.state device.pixels =
        .ok (pixels, pixels.toList.take device.state.numPixels.toNat) := by
      rw [render, drawn]
      change (do return (pixels, ← Checked.take device.state.numPixels.toNat pixels)) = _
      rw [Checked.take_ok pixels fits]
      rfl
    rw [rendered] at ran
    cases ran
    exact ⟨rfl, rfl⟩

/-- If its host is ready again and again, the strip has the colours of a frame from some cycle
on. -/
theorem frame_read {sin : ℚ → ℚ} {now : UInt32} {device later : Device}
    (stage : device.stage = .frame) (fits : device.state.numPixels.toNat ≤ maxPixels)
    (ran : ledsMode sin device now = .ok later) (x y : UInt32) {turns : Nat → Nat}
    (often : ∀ time, ∃ later, time ≤ later ∧ 0 < turns later) :
    ∃ count, ∀ more, takeColours device.state.numPixels.toNat
        (read ((Sm.step (ws2812ProgramInit false turns))^[count + more]
          (stripStart x y later.shifted)).wave) =
      (later.pixels.toList.take device.state.numPixels.toNat).map pixelBits := by
  have ⟨_, shifted⟩ := ledsMode_drawn stage fits ran
  have length : later.shifted.length = device.state.numPixels.toNat := by
    rw [shifted, List.length_take, Vector.length_toList]
    exact Nat.min_eq_left fits
  have ⟨count, all⟩ := read_all often (@shifting_start false turns later.shifted x y)
  refine ⟨count, fun more => ?_⟩
  rw [all more, ← shifted, ← length]
  exact takeColours_pixels later.shifted

end Frames

/-- In every run of the device that takes drawable registers only, a frame is shown as it is drawn:
what the strip has read while the frame is shifted out is always the beginning of the pixels, and if
the loop comes to put its words, from some cycle on every LED has the colour of its pixel. -/
theorem frame_shown (sin : ℚ → ℚ) {isI2cConfigured : Bool} {device : Device}
    (run : Relation.ReflTransGen (DrawableStep sin) (initDevice isI2cConfigured) device)
    (stage : device.stage = .frame) (now x y : UInt32) {turns : Nat → Nat}
    (often : ∀ time, ∃ later, time ≤ later ∧ 0 < turns later) :
    ∃ later, ledsMode sin device now = .ok later ∧
      let wave := fun count =>
        ((Sm.step (ws2812ProgramInit false turns))^[count] (stripStart x y later.shifted)).wave
      (∀ count, read (wave count) <+: later.shifted.flatMap pixelBits) ∧
        ∃ count, ∀ more,
          takeColours device.state.numPixels.toNat (read (wave (count + more))) =
            (later.pixels.toList.take device.state.numPixels.toNat).map pixelBits := by
  have invariant := frameInvariant_of_run run
  have fits := invariant.fits (by rw [stage]; decide)
  have ⟨later, ran⟩ := ledsMode_drawable stage invariant.drawable fits sin now
  exact ⟨later, ran, fun count => read_prefix (@shifting_start false turns later.shifted x y) count,
    frame_read stage fits ran x y often⟩

/-- The first frame behind a reset. -/
theorem first_frame_shown : ∃ later,
    ledsMode id { initDevice false with stage := .frame } 0 = .ok later ∧
      ∃ count, ∀ more,
        takeColours 9 (read ((Sm.step (ws2812ProgramInit false fun _ => 1))^[count + more]
          (stripStart 0 0 later.shifted)).wave) = (later.pixels.toList.take 9).map pixelBits := by
  have tested : DrawableStep id (initDevice false) { initDevice false with stage := .frame } :=
    ⟨.advance 0, fun copies => absurd (show Stage.test = Stage.copy from copies) (by decide), rfl⟩
  have ⟨later, ran, _, shown⟩ := @frame_shown id false _ (.single tested) rfl 0 0 0 (fun _ => 1)
    fun time => ⟨time, Nat.le_refl time, Nat.one_pos⟩
  have pixels : (initDevice false).state.numPixels.toNat = 9 := by
    show (stateOf (initRegister false)).numPixels.toNat = 9
    rw [initRegister, stateOf_pack]
    rfl
  exact ⟨later, ran, by rw [← pixels]; exact shown⟩

end Fly2040.Leds
