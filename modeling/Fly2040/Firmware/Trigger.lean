import Fly2040.Firmware.Waiter
import Fly2040.Lib.Pulses
/-!
# The glitch

A machine drives the gate of the transistor that glitches the CPU. It takes a delay and a width,
waits for the commands and the data before the glitch one after the other, counts the delay down and
raises its pin for the width. It has no words for another round, so a try of the glitch has at most
one pulse, which begins a fixed time after the last flag that the machine has waited for.
-/

namespace Fly2040.Firmware

open Bits Pulses Steps

/-- Program of the machine that glitches; on a Mariko, the waits for the status are written over. -/
def glitchTrigger (mariko : Bool) : List Op :=
  [⟨.out .x 32, false, 0⟩,
    ⟨.out .y 32, false, 0⟩,
    ⟨.irqWait 0, false, 0⟩,
    ⟨.irqWait 1, false, 0⟩,
    ⟨if mariko then .nop else .irqWait 2, false, 0⟩,
    ⟨if mariko then .nop else .irqWait 2, false, 0⟩,
    ⟨.jmp (.decrement .x) 6, false, 0⟩,
    ⟨.jmp (.decrement .y) 7, true, 0⟩]

/-- Set the machine up. -/
def initTriggerPio (mariko : Bool) (turns : Nat → Nat) (released : Nat → Nat → Bool) : Setting where
  program := glitchTrigger mariko
  threshold := 32
  depth := 4
  turns := turns
  released := released

/-- The machine when it is enabled, and the words that a try of the glitch puts. -/
def triggerStart (x y delay width : UInt32) : Sm where
  pc := 0
  x := x
  y := y
  delay := 0
  level := false
  wave := []
  osr := []
  tx := []
  todo := [delay, width]

namespace Trigger

/-- A wait for a flag, if it is not written over. -/
def gate (mariko : Bool) : Nat → Option Nat
  | 0 => some 0
  | 1 => some 1
  | _ => if mariko then none else some 2

/-- A wait ends in a cycle. -/
def opens (released : Nat → Nat → Bool) (cycle : Nat) : Option Nat → Bool
  | none => true
  | some flag => released cycle flag

/-- The first cycles, one after the other, in which some waits end; each wait begins behind the one
before. -/
inductive Passes (mariko : Bool) (released : Nat → Nat → Bool) (armed : Nat) :
    (waits since : Nat) → Prop where
  /-- No wait is over. -/
  | none : Passes mariko released armed 0 armed
  /-- A wait is over. -/
  | next {waits since cycle : Nat} (before : Passes mariko released armed waits since)
      (late : since ≤ cycle)
      (first : ∀ earlier, since ≤ earlier → earlier < cycle →
        opens released earlier (gate mariko waits) = false)
      (now : opens released cycle (gate mariko waits) = true) :
      Passes mariko released armed (waits + 1) (cycle + 1)

/-- The cycle is determined by the flags. -/
theorem Passes.unique {mariko : Bool} {released : Nat → Nat → Bool} {armed waits since since' : Nat}
    (passes : Passes mariko released armed waits since)
    (passes' : Passes mariko released armed waits since') : since = since' := by
  induction passes generalizing since' with
  | none =>
    cases passes' with
    | none => rfl
  | @next waits since cycle before late first now ih =>
    cases passes' with
    | @next _ since' cycle' before' late' first' now' =>
      have same := ih before'
      rw [same] at late first
      by_cases earlier : cycle < cycle'
      · rw [first' cycle late earlier] at now
        cases now
      · by_cases later : cycle' < cycle
        · rw [first cycle' late' later] at now'
          cases now'
        · rw [show cycle = cycle' by omega]

/-- Some waits are over before more of them are. -/
theorem Passes.earlier {mariko : Bool} {released : Nat → Nat → Bool} {armed waits fewer since : Nat}
    (passes : Passes mariko released armed waits since) (few : fewer ≤ waits) :
    ∃ before, Passes mariko released armed fewer before ∧ before ≤ since := by
  induction passes with
  | none =>
    rw [Nat.le_zero.mp few]
    exact ⟨armed, .none, Nat.le_refl armed⟩
  | @next waits since cycle before late first now ih =>
    by_cases all : fewer = waits + 1
    · rw [all]
      exact ⟨_, .next before late first now, Nat.le_refl _⟩
    · have ⟨ended, passes', early⟩ := ih (by omega)
      exact ⟨ended, passes', by omega⟩

/-- A wait that has not ended ends later. -/
theorem Passes.late_of_closed {mariko : Bool} {released : Nat → Nat → Bool}
    {armed waits more since since' cycles : Nat} (passes : Passes mariko released armed waits since)
    (closed : ∀ earlier, since ≤ earlier → earlier < cycles →
      opens released earlier (gate mariko waits) = false)
    (few : waits < more) (passes' : Passes mariko released armed more since') :
    cycles < since' := by
  have ⟨before, ended, early⟩ := passes'.earlier (Nat.succ_le_of_lt few)
  cases ended with
  | @next _ since'' cycle behind late' first now =>
    rw [behind.unique passes] at late' first
    by_cases soon : cycle < cycles
    · rw [closed cycle late' soon] at now
      cases now
    · omega

section Machine

variable {mariko : Bool} {turns : Nat → Nat} {released : Nat → Nat → Bool} {delay width : UInt32}

/-- Low levels. -/
def low (count : Nat) : List Bool := List.replicate count false

/-- High levels. -/
def high (count : Nat) : List Bool := List.replicate count true

section Phases

variable (mariko : Bool) (turns : Nat → Nat) (released : Nat → Nat → Bool) (delay width : UInt32)

/-- The machine waits for the delay. -/
structure First (cycles : Nat) (sm : Sm) : Prop where
  /-- Not in a pause. -/
  ready : sm.delay = 0
  /-- At its first instruction. -/
  pc : sm.pc = 0
  /-- Its pin has been low. -/
  wave : sm.wave = low cycles
  /-- Both words are left. -/
  bits : sm.bits (initTriggerPio mariko turns released) = ofWord delay ++ ofWord width
  /-- The register is empty or holds a word. -/
  held : sm.osr = [] ∨ sm.osr.length = 32
  /-- Nothing is queued behind an empty register. -/
  dry : sm.osr = [] → sm.tx = []

/-- The machine waits for the width. -/
structure Second (cycles : Nat) (sm : Sm) : Prop where
  /-- Not in a pause. -/
  ready : sm.delay = 0
  /-- At its second instruction. -/
  pc : sm.pc = 1
  /-- The delay has been taken. -/
  x : sm.x = delay
  /-- Its pin has been low. -/
  wave : sm.wave = low cycles
  /-- The width is left. -/
  bits : sm.bits (initTriggerPio mariko turns released) = ofWord width
  /-- The register is empty or holds a word. -/
  held : sm.osr = [] ∨ sm.osr.length = 32
  /-- Nothing is queued behind an empty register. -/
  dry : sm.osr = [] → sm.tx = []

/-- The machine waits for a flag, and some waits are over. -/
structure Waits (cycles armed waits since : Nat) (sm : Sm) : Prop where
  /-- Not in a pause. -/
  ready : sm.delay = 0
  /-- At the wait. -/
  pc : sm.pc = waits + 2
  /-- Not all waits are over. -/
  few : waits < 4
  /-- The delay has been taken. -/
  x : sm.x = delay
  /-- The width has been taken. -/
  y : sm.y = width
  /-- Its pin has been low. -/
  wave : sm.wave = low cycles
  /-- No words are left. -/
  bits : sm.bits (initTriggerPio mariko turns released) = []
  /-- When the last wait was over. -/
  passes : Passes mariko released armed waits since
  /-- Before now. -/
  late : since ≤ cycles
  /-- The wait has not ended since. -/
  closed : ∀ earlier, since ≤ earlier → earlier < cycles →
    opens released earlier (gate mariko waits) = false

/-- The machine counts the delay down, for some cycles. -/
structure Counts (armed since gone : Nat) (sm : Sm) : Prop where
  /-- Not in a pause. -/
  ready : sm.delay = 0
  /-- At the loop. -/
  pc : sm.pc = 6
  /-- What is left of the delay. -/
  x : sm.x.toNat + gone = delay.toNat
  /-- The width has been taken. -/
  y : sm.y = width
  /-- Its pin has been low. -/
  wave : sm.wave = low (since + gone)
  /-- No words are left. -/
  bits : sm.bits (initTriggerPio mariko turns released) = []
  /-- When all waits were over. -/
  passes : Passes mariko released armed 4 since

/-- The pin of the machine has been high for some cycles. -/
structure Pulse (armed since gone : Nat) (sm : Sm) : Prop where
  /-- Not in a pause. -/
  ready : sm.delay = 0
  /-- At the loop. -/
  pc : sm.pc = 7
  /-- What is left of the width. -/
  y : sm.y.toNat + gone = width.toNat
  /-- Its pin has been low for the delay, and high since. -/
  wave : sm.wave = low (since + delay.toNat + 1) ++ high gone
  /-- No words are left. -/
  bits : sm.bits (initTriggerPio mariko turns released) = []
  /-- When all waits were over. -/
  passes : Passes mariko released armed 4 since

/-- The pulse has been over for some cycles. -/
structure Over (armed since cycles : Nat) (sm : Sm) : Prop where
  /-- Not in a pause. -/
  ready : sm.delay = 0
  /-- At its first instruction. -/
  pc : sm.pc = 0
  /-- Its pin has been high for the width. -/
  wave : sm.wave = low (since + delay.toNat + 1) ++ high (width.toNat + 1) ++ low cycles
  /-- No words are left. -/
  bits : sm.bits (initTriggerPio mariko turns released) = []
  /-- When all waits were over. -/
  passes : Passes mariko released armed 4 since

/-- Where the machine is that has taken both words. -/
inductive Behind (armed : Nat) (sm : Sm) : Prop where
  /-- It waits for a flag. -/
  | waits {cycles waits since : Nat}
      (now : Waits mariko turns released delay width cycles armed waits since sm)
  /-- It counts the delay down. -/
  | counts {since gone : Nat} (now : Counts mariko turns released delay width armed since gone sm)
  /-- Its pin is high. -/
  | pulse {since gone : Nat} (now : Pulse mariko turns released delay width armed since gone sm)
  /-- It waits for another delay. -/
  | ended {since cycles : Nat} (now : Over mariko turns released delay width armed since cycles sm)

/-- Where the machine is. -/
inductive Phase (sm : Sm) : Prop where
  /-- It waits for the delay. -/
  | first {cycles : Nat} (now : First mariko turns released delay width cycles sm)
  /-- It waits for the width. -/
  | second {cycles : Nat} (now : Second mariko turns released delay width cycles sm)
  /-- It has taken both. -/
  | behind {armed : Nat} (now : Behind mariko turns released delay width armed sm)

end Phases

variable {sm : Sm}

/-- One more low level. -/
theorem low_succ (count : Nat) : low count ++ [false] = low (count + 1) :=
  List.replicate_succ'.symm

/-- One more high level. -/
theorem high_succ (count : Nat) : high count ++ [true] = high (count + 1) :=
  List.replicate_succ'.symm

/-- A register holds as many bits as are taken at once, or none. -/
theorem held_words {word : UInt32} {rest : List Bool}
    (bits : sm.bits (initTriggerPio mariko turns released) = ofWord word ++ rest)
    (held : sm.osr = [] ∨ sm.osr.length = 32) :
    sm.osr = [] ∨ sm.osr = ofWord word ∧
      Sm.behind (initTriggerPio mariko turns released) (sm.tx ++ sm.todo) = rest := by
  cases held with
  | inl empty => exact .inl empty
  | inr full => exact .inr (List.append_inj bits (by rw [full, ofWord_length]))

/-- A word is taken into a register. -/
theorem execute_out (core : Core) (setting : Setting) (word : UInt32) (register : Pulses.Register) :
    core.execute setting (ofWord word) (.out register 32) =
      some (core.store word register, []) := by
  have some_bits : ofWord word ≠ [] := fun empty => by
    have length := congrArg List.length empty
    rw [ofWord_length] at length
    cases length
  have whole : (ofWord word ++ List.replicate 32 false).take 32 = ofWord word :=
    List.take_left' (ofWord_length word)
  have back : UInt32.ofBitVec (packed 32 (ofWord word)) = word := by
    rw [ofWord, packed_highFirst]
  have rest : (ofWord word).drop 32 = [] :=
    List.drop_of_length_le (Nat.le_of_eq (ofWord_length word))
  rw [Core.execute, if_neg some_bits]
  dsimp only
  rw [whole, back, rest]

/-- An empty register stays empty or takes a word. -/
theorem held_of_emptied
    (emptied : (sm.toCore.cycle (initTriggerPio mariko turns released) sm.osr).2 = []) :
    (sm.step (initTriggerPio mariko turns released)).osr = [] ∨
      (sm.step (initTriggerPio mariko turns released)).osr.length = 32 :=
  Sm.step_length (Nat.le_refl 32) emptied

/-- What a cycle that keeps the level low adds. -/
theorem low_step {core : Core} {cycles : Nat} (wave : sm.wave = low cycles)
    (same : (sm.step (initTriggerPio mariko turns released)).toCore = core)
    (added : core.wave = sm.wave ++ [false]) :
    (sm.step (initTriggerPio mariko turns released)).wave = low (cycles + 1) := by
  rw [same, added, wave]
  exact low_succ cycles

/-- While it waits for the delay. -/
theorem First.step {cycles : Nat} (now : First mariko turns released delay width cycles sm) :
    sm.osr = [] ∧ First mariko turns released delay width (cycles + 1)
        (sm.step (initTriggerPio mariko turns released)) ∨
      Second mariko turns released delay width (cycles + 1)
        (sm.step (initTriggerPio mariko turns released)) := by
  have found : (initTriggerPio mariko turns released).program[sm.pc]? =
      some ⟨.out .x 32, false, 0⟩ := by
    rw [now.pc]
    rfl
  cases held_words now.bits now.held with
  | inl empty =>
    obtain ⟨core, bits⟩ := Sm.step_waits _ _ now.ready found (by rw [empty]; rfl)
    have held := @held_of_emptied mariko turns released sm (by
      rw [Core.cycle, if_pos now.ready, Core.start, found, empty]
      rfl)
    exact .inl ⟨empty, by rw [core]; exact now.ready, by rw [core]; exact now.pc,
      low_step now.wave core rfl, bits.trans now.bits, held, Sm.step_dry (show 0 < 32 by decide)⟩
  | inr taken =>
    have done := execute_out { sm.toCore with
      level := false
      pc := Core.following (initTriggerPio mariko turns released).program sm.pc }
      (initTriggerPio mariko turns released) delay .x
    rw [← taken.1] at done
    obtain ⟨core, bits⟩ := Sm.step_op _ now.ready found done
    have held := @held_of_emptied mariko turns released sm (by
      rw [Core.cycle, if_pos now.ready, Core.start, found]
      dsimp only
      rw [done])
    rw [List.nil_append, taken.2] at bits
    exact .inr ⟨by rw [core], by rw [core, now.pc]; rfl, by rw [core]; rfl,
      low_step now.wave core rfl, bits, held, Sm.step_dry (show 0 < 32 by decide)⟩

/-- While it waits for the width. -/
theorem Second.step {cycles : Nat} (now : Second mariko turns released delay width cycles sm) :
    sm.osr = [] ∧ Second mariko turns released delay width (cycles + 1)
        (sm.step (initTriggerPio mariko turns released)) ∨
      Waits mariko turns released delay width (cycles + 1) (cycles + 1) 0 (cycles + 1)
        (sm.step (initTriggerPio mariko turns released)) := by
  have found : (initTriggerPio mariko turns released).program[sm.pc]? =
      some ⟨.out .y 32, false, 0⟩ := by
    rw [now.pc]
    rfl
  cases held_words (now.bits.trans (List.append_nil _).symm) now.held with
  | inl empty =>
    obtain ⟨core, bits⟩ := Sm.step_waits _ _ now.ready found (by rw [empty]; rfl)
    have held := @held_of_emptied mariko turns released sm (by
      rw [Core.cycle, if_pos now.ready, Core.start, found, empty]
      rfl)
    exact .inl ⟨empty, by rw [core]; exact now.ready, by rw [core]; exact now.pc,
      by rw [core]; exact now.x, low_step now.wave core rfl, bits.trans now.bits, held,
      Sm.step_dry (show 0 < 32 by decide)⟩
  | inr taken =>
    have done := execute_out { sm.toCore with
      level := false
      pc := Core.following (initTriggerPio mariko turns released).program sm.pc }
      (initTriggerPio mariko turns released) width .y
    rw [← taken.1] at done
    obtain ⟨core, bits⟩ := Sm.step_op _ now.ready found done
    rw [List.nil_append, taken.2] at bits
    exact .inr ⟨by rw [core], by rw [core, now.pc]; rfl, by decide, by rw [core]; exact now.x,
      by rw [core]; rfl, low_step now.wave core rfl, bits, .none, Nat.le_refl _,
      fun earlier late early => absurd early (by omega)⟩

/-- The instruction of a wait. -/
def waitInstr : Option Nat → Pulses.Instr
  | none => .nop
  | some flag => .irqWait flag

/-- It is in the program. -/
theorem found_gate {waits : Nat} (few : waits < 4) :
    (initTriggerPio mariko turns released).program[waits + 2]? =
      some ⟨waitInstr (gate mariko waits), false, 0⟩ := by
  interval_cases waits <;> cases mariko <;> rfl

/-- It goes on when the wait ends. -/
theorem execute_gate (core : Core) (osr : List Bool) (flag : Option Nat) :
    core.execute (initTriggerPio mariko turns released) osr (waitInstr flag) =
      if opens released core.wave.length flag then some (core, osr) else none := by
  cases flag <;> rfl

/-- While it waits for a flag. -/
theorem Waits.step {cycles armed waits since : Nat}
    (now : Waits mariko turns released delay width cycles armed waits since sm) :
    opens released cycles (gate mariko waits) = false ∧
        Waits mariko turns released delay width (cycles + 1) armed waits since
          (sm.step (initTriggerPio mariko turns released)) ∨
      Waits mariko turns released delay width (cycles + 1) armed (waits + 1) (cycles + 1)
        (sm.step (initTriggerPio mariko turns released)) ∨
      Counts mariko turns released delay width armed (cycles + 1) 0
        (sm.step (initTriggerPio mariko turns released)) := by
  have few := now.few
  have found := @found_gate mariko turns released waits few
  rw [← now.pc] at found
  have length : sm.wave.length = cycles := by rw [now.wave, low, List.length_replicate]
  have next : Core.following (initTriggerPio mariko turns released).program sm.pc = waits + 3 := by
    rw [now.pc]
    interval_cases waits <;> rfl
  have done := @execute_gate mariko turns released { sm.toCore with
    level := false
    pc := Core.following (initTriggerPio mariko turns released).program sm.pc } sm.osr
    (gate mariko waits)
  change _ = if opens released sm.wave.length _ then _ else _ at done
  rw [length] at done
  cases opened : opens released cycles (gate mariko waits) with
  | false =>
    rw [opened, if_neg Bool.false_ne_true] at done
    have ⟨core, bits⟩ := Sm.step_waits _ _ now.ready found done
    refine .inl ⟨rfl, by rw [core]; exact now.ready, by rw [core]; exact now.pc, few,
      by rw [core]; exact now.x, by rw [core]; exact now.y, low_step now.wave core rfl,
      bits.trans now.bits, now.passes, Nat.le_succ_of_le now.late, fun earlier late early => ?_⟩
    by_cases last : earlier = cycles
    · rw [last]
      exact opened
    · exact now.closed earlier late (by omega)
  | true =>
    rw [opened, if_pos rfl] at done
    have ⟨core, bits⟩ := Sm.step_op _ now.ready found done
    have passes := now.passes.next now.late now.closed opened
    have wave := low_step now.wave core rfl
    have pc : (sm.step (initTriggerPio mariko turns released)).pc = waits + 3 := by
      rw [core]
      exact next
    have x : (sm.step (initTriggerPio mariko turns released)).x = delay := by
      rw [core]
      exact now.x
    by_cases more : waits + 1 < 4
    · exact .inr (.inl ⟨by rw [core], pc, more, x, by rw [core]; exact now.y, wave,
        bits.trans now.bits, passes, Nat.le_refl _, fun earlier late early =>
          absurd early (by omega)⟩)
    · have last : waits = 3 := by omega
      rw [last] at pc passes
      exact .inr (.inr ⟨by rw [core], pc, by rw [x, Nat.add_zero], by rw [core]; exact now.y, wave,
        bits.trans now.bits, passes⟩)

/-- A register that is zero ends its loop. -/
theorem execute_last {core : Core} {register : Pulses.Register} (zero : core.register register = 0)
    (setting : Setting) (osr : List Bool) (target : Nat) :
    core.execute setting osr (.jmp (.decrement register) target) =
      some (core.store (core.register register - 1) register, osr) := by
  simp [Core.execute, Core.taken, Core.count, zero]

/-- A register that is not zero counts down. -/
theorem execute_again {core : Core} {register : Pulses.Register}
    (more : core.register register ≠ 0) (setting : Setting) (osr : List Bool) (target : Nat) :
    core.execute setting osr (.jmp (.decrement register) target) =
      some ({ core.store (core.register register - 1) register with pc := target }, osr) := by
  simp [Core.execute, Core.taken, Core.count, more]

/-- A counter that is not zero is one less behind a count. -/
theorem toNat_pred {counter : UInt32} (some : counter ≠ 0) :
    (counter - 1).toNat + 1 = counter.toNat := by
  have positive : 0 < counter.toNat := Nat.pos_of_ne_zero fun zero =>
    some (UInt32.toNat_inj.mp zero)
  have less : (1 : UInt32) ≤ counter := UInt32.le_iff_toNat_le.mpr positive
  rw [UInt32.toNat_sub_of_le _ _ less]
  show counter.toNat - 1 + 1 = _
  omega

/-- While it counts the delay down. -/
theorem Counts.step {armed since gone : Nat}
    (now : Counts mariko turns released delay width armed since gone sm) :
    Counts mariko turns released delay width armed since (gone + 1)
        (sm.step (initTriggerPio mariko turns released)) ∨
      Pulse mariko turns released delay width armed since 0
        (sm.step (initTriggerPio mariko turns released)) := by
  have found : (initTriggerPio mariko turns released).program[sm.pc]? =
      some ⟨.jmp (.decrement .x) 6, false, 0⟩ := by
    rw [now.pc]
    rfl
  by_cases zero : sm.x = 0
  · have done := @execute_last { sm.toCore with
      level := false
      pc := Core.following (initTriggerPio mariko turns released).program sm.pc } .x zero
      (initTriggerPio mariko turns released) sm.osr 6
    have ⟨core, bits⟩ := Sm.step_op _ now.ready found done
    have wave := low_step now.wave core rfl
    have pc : (sm.step (initTriggerPio mariko turns released)).pc = 7 := by
      rw [core]
      show Core.following _ sm.pc = 7
      rw [now.pc]
      rfl
    have y : (sm.step (initTriggerPio mariko turns released)).y.toNat + 0 = width.toNat := by
      rw [core, Nat.add_zero]
      exact congrArg UInt32.toNat now.y
    have all : gone = delay.toNat := by
      have x := now.x
      rw [zero, UInt32.toNat_zero, Nat.zero_add] at x
      exact x
    rw [all, ← List.append_nil (low _)] at wave
    exact .inr ⟨by rw [core], pc, y, wave, bits.trans now.bits, now.passes⟩
  · have done := @execute_again { sm.toCore with
      level := false
      pc := Core.following (initTriggerPio mariko turns released).program sm.pc } .x zero
      (initTriggerPio mariko turns released) sm.osr 6
    have ⟨core, bits⟩ := Sm.step_op _ now.ready found done
    have x : (sm.step (initTriggerPio mariko turns released)).x.toNat + (gone + 1) =
        delay.toNat := by
      rw [core, ← now.x]
      show (sm.x - 1).toNat + (gone + 1) = _
      have less := toNat_pred zero
      omega
    exact .inl ⟨by rw [core], by rw [core], x, by rw [core]; exact now.y,
      low_step now.wave core rfl, bits.trans now.bits, now.passes⟩

/-- While its pin is high. -/
theorem Pulse.step {armed since gone : Nat}
    (now : Pulse mariko turns released delay width armed since gone sm) :
    Pulse mariko turns released delay width armed since (gone + 1)
        (sm.step (initTriggerPio mariko turns released)) ∨
      Over mariko turns released delay width armed since 0
        (sm.step (initTriggerPio mariko turns released)) := by
  have found : (initTriggerPio mariko turns released).program[sm.pc]? =
      some ⟨.jmp (.decrement .y) 7, true, 0⟩ := by
    rw [now.pc]
    rfl
  have longer : sm.wave ++ [true] = low (since + delay.toNat + 1) ++ high (gone + 1) := by
    rw [now.wave, List.append_assoc, high_succ]
  by_cases zero : sm.y = 0
  · have done := @execute_last { sm.toCore with
      level := true
      pc := Core.following (initTriggerPio mariko turns released).program sm.pc } .y zero
      (initTriggerPio mariko turns released) sm.osr 7
    have ⟨core, bits⟩ := Sm.step_op _ now.ready found done
    have pc : (sm.step (initTriggerPio mariko turns released)).pc = 0 := by
      rw [core]
      show Core.following _ sm.pc = 0
      rw [now.pc]
      rfl
    have all : gone = width.toNat := by
      have y := now.y
      rw [zero, UInt32.toNat_zero, Nat.zero_add] at y
      exact y
    have wave : (sm.step (initTriggerPio mariko turns released)).wave =
        low (since + delay.toNat + 1) ++ high (width.toNat + 1) ++ low 0 := by
      rw [core, ← all, ← longer]
      exact (List.append_nil _).symm
    exact .inr ⟨by rw [core], pc, wave, bits.trans now.bits, now.passes⟩
  · have done := @execute_again { sm.toCore with
      level := true
      pc := Core.following (initTriggerPio mariko turns released).program sm.pc } .y zero
      (initTriggerPio mariko turns released) sm.osr 7
    have ⟨core, bits⟩ := Sm.step_op _ now.ready found done
    have y : (sm.step (initTriggerPio mariko turns released)).y.toNat + (gone + 1) =
        width.toNat := by
      rw [core, ← now.y]
      show (sm.y - 1).toNat + (gone + 1) = _
      have less := toNat_pred zero
      omega
    exact .inl ⟨by rw [core], by rw [core], y, by rw [core, ← longer], bits.trans now.bits,
      now.passes⟩

/-- After the pulse. -/
theorem Over.step {armed since cycles : Nat}
    (now : Over mariko turns released delay width armed since cycles sm) :
    Over mariko turns released delay width armed since (cycles + 1)
      (sm.step (initTriggerPio mariko turns released)) := by
  have empty : sm.osr = [] := (List.append_eq_nil_iff.mp now.bits).1
  have found : (initTriggerPio mariko turns released).program[sm.pc]? =
      some ⟨.out .x 32, false, 0⟩ := by
    rw [now.pc]
    rfl
  have ⟨core, bits⟩ := Sm.step_waits _ _ now.ready found (by rw [empty]; rfl)
  have wave : (sm.step (initTriggerPio mariko turns released)).wave =
      low (since + delay.toNat + 1) ++ high (width.toNat + 1) ++ low (cycles + 1) := by
    rw [core]
    show sm.wave ++ [false] = _
    rw [now.wave, List.append_assoc _ (low cycles), low_succ cycles]
  exact ⟨by rw [core]; exact now.ready, by rw [core]; exact now.pc, wave, bits.trans now.bits,
    now.passes⟩

/-- A machine that has taken both words does not take another one. -/
theorem Behind.step {armed : Nat} (behind : Behind mariko turns released delay width armed sm) :
    Behind mariko turns released delay width armed
      (sm.step (initTriggerPio mariko turns released)) := by
  cases behind with
  | waits now =>
    rcases now.step with same | next | last
    · exact .waits same.2
    · exact .waits next
    · exact .counts last
  | counts now =>
    cases now.step with
    | inl same => exact .counts same
    | inr next => exact .pulse next
  | pulse now =>
    cases now.step with
    | inl same => exact .pulse same
    | inr next => exact .ended next
  | ended now => exact .ended now.step

/-- Every cycle leads to a phase again. -/
theorem Phase.step (phase : Phase mariko turns released delay width sm) :
    Phase mariko turns released delay width (sm.step (initTriggerPio mariko turns released)) := by
  cases phase with
  | first now =>
    cases now.step with
    | inl same => exact .first same.2
    | inr next => exact .second next
  | second now =>
    cases now.step with
    | inl same => exact .second same.2
    | inr next => exact .behind (.waits next)
  | behind now => exact .behind now.step

/-- A try begins in the first phase. -/
theorem first_start (x y : UInt32) :
    First mariko turns released delay width 0 (triggerStart x y delay width) := by
  have whole (word : UInt32) : (ofWord word).take 32 = ofWord word :=
    List.take_of_length_le (Nat.le_of_eq (ofWord_length word))
  have bits : (triggerStart x y delay width).bits (initTriggerPio mariko turns released) =
      ofWord delay ++ ofWord width := by
    show (ofWord delay).take 32 ++ ((ofWord width).take 32 ++ []) = _
    rw [whole, whole, List.append_nil]
  exact ⟨rfl, rfl, rfl, bits, .inl rfl, fun _ => rfl⟩

/-- The machine is always in a phase. -/
theorem iterate_phase (x y : UInt32) (count : Nat) :
    Phase mariko turns released delay width
      ((Sm.step (initTriggerPio mariko turns released))^[count]
        (triggerStart x y delay width)) := by
  induction count with
  | zero => exact .first (first_start x y)
  | succ count ih =>
    rw [Function.iterate_succ_apply']
    exact ih.step

section Progress

/-- A word is left, so the host has it if the machine does not. -/
theorem todo_ne_nil {word : UInt32} {rest : List Bool}
    (bits : sm.bits (initTriggerPio mariko turns released) = ofWord word ++ rest)
    (empty : sm.osr = []) (dry : sm.tx = []) : sm.todo ≠ [] := by
  intro none
  rw [Sm.bits, empty, dry, none] at bits
  have length : 0 = (ofWord word ++ rest).length := congrArg List.length bits
  rw [List.length_append, ofWord_length] at length
  omega

variable (often : ∀ time, ∃ later, time ≤ later ∧ 0 < turns later)

include often in
/-- A phase that ends when a word is taken ends. -/
theorem reaches_taken {word : UInt32} {rest : List Bool} {phase : Nat → Sm → Prop}
    {next : Sm → Prop}
    (steps : ∀ cycles sm, phase cycles sm →
      sm.osr = [] ∧ phase (cycles + 1) (sm.step (initTriggerPio mariko turns released)) ∨
        next (sm.step (initTriggerPio mariko turns released)))
    (waits : ∀ cycles sm, phase cycles sm → sm.wave = low cycles ∧ (sm.osr = [] → sm.tx = []) ∧
      sm.bits (initTriggerPio mariko turns released) = ofWord word ++ rest)
    {cycles : Nat} (now : phase cycles sm) :
    ∃ last, Reaches (Sm.step (initTriggerPio mariko turns released)) sm last ∧ next last := by
  have ⟨time, later, turn⟩ := often cycles
  have ⟨left, same⟩ := Nat.exists_eq_add_of_le later
  clear later
  induction left generalizing sm cycles with
  | zero =>
    have ⟨wave, dry, bits⟩ := waits cycles sm now
    rcases steps cycles sm now with ⟨empty, again⟩ | ended
    · -- the host puts a word in this cycle, so the next one takes it
      have length : sm.wave.length = cycles := by rw [wave, low, List.length_replicate]
      have held := Sm.step_fed ⟨show 0 < 32 by decide, Nat.le_refl 32⟩ empty (dry empty)
        ((waits _ _ again).2.2.trans bits.symm) (show 0 < 4 by decide)
        (todo_ne_nil bits empty (dry empty)) (by
          show 0 < turns sm.wave.length
          rw [length, ← Nat.add_zero cycles, ← same]
          exact turn)
      rcases steps _ _ again with ⟨empty', _⟩ | ended
      · exact absurd empty' held
      · exact ⟨_, .head (.head .refl), ended⟩
    · exact ⟨_, .head .refl, ended⟩
  | succ left ih =>
    rcases steps cycles sm now with ⟨_, again⟩ | ended
    · have ⟨last, reaches, there⟩ := ih again (by omega)
      exact ⟨last, .head reaches, there⟩
    · exact ⟨_, .head .refl, ended⟩

include often in
/-- The delay comes. -/
theorem First.reaches {cycles : Nat} (now : First mariko turns released delay width cycles sm) :
    ∃ last, Reaches (Sm.step (initTriggerPio mariko turns released)) sm last ∧
      ∃ cycles', Second mariko turns released delay width cycles' last :=
  reaches_taken often (fun _ _ now => now.step.imp id fun next => ⟨_, next⟩)
    (fun _ _ now => ⟨now.wave, now.dry, now.bits⟩) now

include often in
/-- The width comes. -/
theorem Second.reaches {cycles : Nat} (now : Second mariko turns released delay width cycles sm) :
    ∃ last, Reaches (Sm.step (initTriggerPio mariko turns released)) sm last ∧
      ∃ cycles', Waits mariko turns released delay width cycles' cycles' 0 cycles' last :=
  reaches_taken often (fun _ _ now => now.step.imp id fun next => ⟨_, next⟩)
    (fun _ _ now => ⟨now.wave, now.dry, now.bits.trans (List.append_nil _).symm⟩) now

end Progress

/-- What a machine that has taken both words has put on its pin. -/
theorem Behind.wave {armed : Nat} (behind : Behind mariko turns released delay width armed sm) :
    (∃ cycles, sm.wave = low cycles ∧
        ∀ since, Passes mariko released armed 4 since → cycles < since + delay.toNat + 1) ∨
      ∃ since gone cycles, Passes mariko released armed 4 since ∧
        sm.wave = low (since + delay.toNat + 1) ++ high gone ++ low cycles ∧
        gone ≤ width.toNat + 1 ∧ (0 < cycles → gone = width.toNat + 1) := by
  cases behind with
  | @waits cycles waits since now =>
    refine .inl ⟨cycles, now.wave, fun since' passes => ?_⟩
    have later := now.passes.late_of_closed now.closed now.few passes
    omega
  | @counts since gone now =>
    refine .inl ⟨_, now.wave, fun since' passes => ?_⟩
    have x := now.x
    rw [passes.unique now.passes]
    omega
  | @pulse since gone now =>
    refine .inr ⟨since, gone, 0, now.passes, ?_, ?_, fun never => absurd never (by decide)⟩
    · rw [now.wave]
      exact (List.append_nil _).symm
    · have y := now.y
      omega
  | @ended since cycles now =>
    exact .inr ⟨since, _, cycles, now.passes, now.wave, Nat.le_refl _, fun _ => rfl⟩

/-- Pulses of such levels. -/
theorem pulses_shape (before gone cycles : Nat) :
    pulses (low before ++ high gone ++ low cycles) =
      if 0 < gone ∧ 0 < cycles then [gone] else [] := by
  have none (count : Nat) : pulsesFrom 0 (low count) = [] := by
    have ends := pulsesFrom_low count []
    rw [List.append_nil] at ends
    exact ends
  rw [pulses, List.append_assoc, low, pulsesFrom_low, high, pulsesFrom_high, Nat.zero_add]
  cases gone with
  | zero =>
    rw [if_neg fun both => Nat.lt_irrefl 0 both.1]
    exact none cycles
  | succ gone =>
    cases cycles with
    | zero =>
      rw [if_neg fun both => Nat.lt_irrefl 0 both.2]
      rfl
    | succ cycles =>
      rw [if_pos ⟨Nat.succ_pos _, Nat.succ_pos _⟩, low, List.replicate_succ,
        pulsesFrom_end (Nat.succ_pos _)]
      exact congrArg _ (none cycles)

/-- Low levels make no pulse. -/
theorem pulses_low (cycles : Nat) : Pulses.pulses (low cycles) = [] := by
  have none := pulses_shape cycles 0 0
  rw [show low cycles ++ high 0 ++ low 0 = low cycles from by
    rw [List.append_assoc]; exact List.append_nil _] at none
  exact none

/-- At most one pulse, of the width. -/
theorem Phase.pulses (phase : Phase mariko turns released delay width sm) :
    Pulses.pulses sm.wave <+: [width.toNat + 1] := by
  have none {cycles : Nat} (wave : sm.wave = low cycles) :
      Pulses.pulses sm.wave <+: [width.toNat + 1] := by
    rw [wave, pulses_low]
    exact List.nil_prefix
  cases phase with
  | first now => exact none now.wave
  | second now => exact none now.wave
  | behind now =>
    rcases now.wave with ⟨cycles, wave, _⟩ | ⟨since, gone, cycles, _, wave, _, whole⟩
    · exact none wave
    · rw [wave, pulses_shape]
      split
      next both => rw [whole both.2]
      next => exact List.nil_prefix

/-- Levels of low times and one high time. -/
theorem level_shape (before gone cycles index : Nat) :
    (low before ++ high gone ++ low cycles)[index]? = some true ↔
      before ≤ index ∧ index < before + gone := by
  have length : (low before).length = before := List.length_replicate
  have length' : (high gone).length = gone := List.length_replicate
  by_cases early : index < before
  · rw [List.append_assoc, List.getElem?_append_left (by omega), low,
      List.getElem?_replicate_of_lt early]
    simp [early]
  by_cases inside : index < before + gone
  · rw [List.getElem?_append_left (by rw [List.length_append]; omega),
      List.getElem?_append_right (by omega), high, List.getElem?_replicate_of_lt (by omega)]
    simp only [true_iff]
    omega
  · rw [List.getElem?_append_right (by rw [List.length_append]; omega), low,
      List.getElem?_replicate]
    split <;> simp [inside]

/-- Low levels are not high. -/
theorem level_low (cycles index : Nat) : (low cycles)[index]? ≠ some true := by
  intro found
  have member := List.mem_of_getElem? found
  rw [low, List.mem_replicate] at member
  cases member.2

/-- The levels that the pin has had, of a machine that has taken both words. -/
theorem Behind.level {armed : Nat} (behind : Behind mariko turns released delay width armed sm)
    {index : Nat} (inside : index < sm.wave.length) :
    sm.wave[index]? = some true ↔ ∃ since, Passes mariko released armed 4 since ∧
      since + delay.toNat + 1 ≤ index ∧ index < since + delay.toNat + 1 + (width.toNat + 1) := by
  rcases behind.wave with ⟨cycles, wave, soon⟩ | ⟨since, gone, cycles, passes, wave, few, whole⟩
  · have length : sm.wave.length = cycles := by rw [wave, low, List.length_replicate]
    constructor
    · intro up
      rw [wave] at up
      exact absurd up (level_low _ _)
    · intro ⟨since, passes, late, _⟩
      have less := soon since passes
      omega
  · have length : sm.wave.length = since + delay.toNat + 1 + gone + cycles := by
      simp only [wave, low, high, List.length_append, List.length_replicate]
    rw [wave, level_shape]
    constructor
    · intro ⟨late, early⟩
      exact ⟨since, passes, late, by omega⟩
    · intro ⟨since', passes', late, early⟩
      rw [passes'.unique passes] at late early
      refine ⟨late, ?_⟩
      by_cases ended : 0 < cycles
      · rw [whole ended]
        exact early
      · omega

/-- The pin is high for the width at most, from a fixed time behind the last wait on. -/
theorem Phase.high_at (phase : Phase mariko turns released delay width sm) {index : Nat}
    (up : sm.wave[index]? = some true) :
    ∃ armed since, Passes mariko released armed 4 since ∧ since + delay.toNat + 1 ≤ index ∧
      index < since + delay.toNat + 1 + (width.toNat + 1) := by
  cases phase with
  | first now =>
    rw [now.wave] at up
    exact absurd up (level_low _ _)
  | second now =>
    rw [now.wave] at up
    exact absurd up (level_low _ _)
  | @behind armed now =>
    have ⟨inside, _⟩ := List.getElem?_eq_some_iff.mp up
    exact ⟨armed, (now.level inside).mp up⟩

/-- A host that goes on gets both words to the machine. -/
theorem armed_of_often (often : ∀ time, ∃ later, time ≤ later ∧ 0 < turns later) (x y : UInt32) :
    ∃ count armed, Behind mariko turns released delay width armed
      ((Sm.step (initTriggerPio mariko turns released))^[count]
        (triggerStart x y delay width)) := by
  have start : First mariko turns released delay width 0 (triggerStart x y delay width) :=
    first_start x y
  have ⟨middle, ⟨count, same⟩, _, second⟩ := start.reaches often
  have ⟨last, ⟨count', same'⟩, armed, waits⟩ := second.reaches often
  refine ⟨count' + count, armed, ?_⟩
  rw [Function.iterate_add_apply, same, same']
  exact .waits waits

/-- If the host goes on, then the pin is high for exactly the cycles of the width, from a fixed time
behind the last wait on, and for no others. -/
theorem pin_exact (mariko : Bool) {turns : Nat → Nat} (released : Nat → Nat → Bool)
    (often : ∀ time, ∃ later, time ≤ later ∧ 0 < turns later) (x y delay width : UInt32) :
    ∃ armed, ∀ count index, index < count →
      (((Sm.step (initTriggerPio mariko turns released))^[count]
          (triggerStart x y delay width)).wave[index]? = some true ↔
        ∃ since, Passes mariko released armed 4 since ∧ since + delay.toNat + 1 ≤ index ∧
          index < since + delay.toNat + 1 + (width.toNat + 1)) := by
  have ⟨time, armed, taken⟩ := @armed_of_often mariko turns released delay width often x y
  refine ⟨armed, ?_⟩
  intro count index inside
  have behind : Behind mariko turns released delay width armed
      ((Sm.step (initTriggerPio mariko turns released))^[count]
        ((Sm.step (initTriggerPio mariko turns released))^[time]
          (triggerStart x y delay width))) := by
    clear inside
    induction count with
    | zero => exact taken
    | succ count ih =>
      rw [Function.iterate_succ_apply']
      exact ih.step
  rw [← Function.iterate_add_apply] at behind
  -- the levels so far are the first ones of those that are there later
  have length := @Sm.iterate_wave_length (initTriggerPio mariko turns released)
    (triggerStart x y delay width) count
  have length' := @Sm.iterate_wave_length (initTriggerPio mariko turns released)
    (triggerStart x y delay width) (count + time)
  have ⟨rest, same⟩ := @Sm.iterate_wave_prefix (initTriggerPio mariko turns released)
    ((Sm.step (initTriggerPio mariko turns released))^[count] (triggerStart x y delay width)) time
  rw [← Function.iterate_add_apply, Nat.add_comm time count] at same
  have none : (triggerStart x y delay width).wave.length = 0 := rfl
  rw [none, Nat.zero_add] at length length'
  have early : index < ((Sm.step (initTriggerPio mariko turns released))^[count]
      (triggerStart x y delay width)).wave.length := by
    rw [length]
    exact inside
  rw [← @List.getElem?_append_left _ _ rest index early, same]
  exact behind.level (by rw [length']; omega)

/-- A pulse of a machine whose host and flags do not let it wait. -/
theorem unhindered_pin_exact :
    ∃ armed, ∀ count index, index < count →
      (((Sm.step (initTriggerPio false (fun _ => 2) (fun _ _ => true)))^[count]
          (triggerStart 0 0 900 120)).wave[index]? = some true ↔
        ∃ since, Passes false (fun _ _ => true) armed 4 since ∧ since + 900 + 1 ≤ index ∧
          index < since + 900 + 1 + (120 + 1)) :=
  pin_exact false (fun _ _ => true) (fun time => ⟨time, Nat.le_refl time, Nat.two_pos⟩)
    0 0 900 120

/-- Flags that the other machines clear: the one that listens to the commands clears one for every
frame, and another one four cycles later for a frame with the pattern; the one that waits for the
end of the data clears the third one. -/
def cleared (frames : List (Nat × Sniffer.Frame)) (line : Pio.Env) (waiter : Pio.Sm)
    (cycle : Nat) : Nat → Bool
  | 0 => frames.any fun (time, frame) => time + 4 = cycle && frame.told.contains 0
  | 1 => Waiter.tells line waiter cycle
  | 2 => frames.any fun (time, _) => time = cycle
  | _ => false

section Cleared

variable {frames : List (Nat × Sniffer.Frame)} {line : Pio.Env} {waiter : Pio.Sm} {cycle : Nat}

/-- The flag of the pattern is cleared for a frame that ends with it. -/
theorem cleared_pattern (opened : cleared frames line waiter cycle 0 = true) :
    ∃ time frame, (time, frame) ∈ frames ∧ frame.bits.drop 32 = ofHalf 0x1351 ∧
      cycle = time + 4 := by
  have ⟨⟨time, frame⟩, member, both⟩ := List.any_eq_true.mp opened
  have ⟨same, told⟩ := Bool.and_eq_true_iff.mp both
  refine ⟨time, frame, member, ?_, (of_decide_eq_true same).symm⟩
  by_contra other
  rw [Sniffer.Frame.told, if_neg other] at told
  cases told

/-- The flag of the frames is cleared for a frame. -/
theorem cleared_frame (opened : cleared frames line waiter cycle 2 = true) :
    ∃ frame, (cycle, frame) ∈ frames := by
  have ⟨⟨time, frame⟩, member, same⟩ := List.any_eq_true.mp opened
  rw [← of_decide_eq_true same]
  exact ⟨frame, member⟩

end Cleared

section Told

variable {env : Pio.Env} {sm : Pio.Sm} (on : sm.enabled = true) (ready : sm.delay = 0)
  (dry : sm.tx = [])

include on ready dry

/-- The machine that listens carries out an instruction that does not wait. -/
theorem sniff_act {after : Pio.Sm} {instr : Pio.Instr}
    (found : glitchSniffCmd[sm.pc]? = some ⟨instr, 0⟩)
    (done : Pio.execute env { sm with pc := Pio.following glitchSniffCmd sm.pc } instr =
      some after) :
    Pio.step env glitchSniffCmd sm = { after with cycle := sm.cycle + 1, delay := 0 } := by
  have runs : ¬sm.enabled = false := by
    rw [on]
    decide
  rw [Pio.step, if_neg runs, if_pos ready, Pio.refill_of_dry _ dry, Pio.Sm.act, found]
  dsimp only
  rw [done]

/-- What is left of a command is compared with the pattern. -/
theorem sniff_compare (pc : sm.pc = 13) : Pio.step env glitchSniffCmd sm =
    { sm with pc := if sm.x = sm.y then 14 else 0, cycle := sm.cycle + 1 } := by
  rw [sniff_act on ready dry (by rw [pc]; rfl) rfl, ← ready]
  by_cases same : sm.x = sm.y <;>
    simp [pc, Pio.Sm.taken, Pio.Sm.count, Pio.following, glitchSniffCmd, same]

/-- The flag of the pattern is cleared, or no flag is. -/
theorem sniff_trigger (pc : sm.pc = if sm.x = sm.y then 14 else 0) :
    (Pio.step env glitchSniffCmd sm).cleared =
      sm.cleared ++ if sm.x = sm.y then [0] else [] := by
  by_cases same : sm.x = sm.y
  · rw [if_pos same] at pc ⊢
    rw [sniff_act on ready dry (by rw [pc]; rfl) rfl]
  · rw [if_neg same] at pc ⊢
    rw [sniff_act on ready dry (by rw [pc]; rfl) rfl]
    exact (List.append_nil _).symm

/-- The machine that listens clears the flag of the frames behind a frame, and the flag of the
pattern four cycles later. -/
theorem told_in_time (pc : sm.pc = 10) :
    let told := fun count => ((Pio.step env glitchSniffCmd)^[count] sm).cleared
    told 1 = sm.cleared ++ [2] ∧ told 2 = told 1 ∧ told 3 = told 1 ∧ told 4 = told 1 ∧
      told 5 = told 1 ++
        if UInt32.ofBitVec (packed 32 sm.isr) = sm.y then [0] else [] := by
  intro told
  let word := UInt32.ofBitVec (packed 32 sm.isr)
  let told1 : Pio.Sm :=
    { sm with cleared := sm.cleared ++ [2], pc := 11, cycle := sm.cycle + 1, delay := 0 }
  let told2 : Pio.Sm := { told1 with x := word, pc := 12, cycle := sm.cycle + 2 }
  let told3 : Pio.Sm :=
    { told2 with isr := [], rx := sm.rx ++ [word], pc := 13, cycle := sm.cycle + 3 }
  let told4 : Pio.Sm :=
    { told3 with pc := if word = sm.y then 14 else 0, cycle := sm.cycle + 4 }
  have first : Pio.step env glitchSniffCmd sm = told1 :=
    sniff_act on ready dry (by rw [pc]; rfl) (by rw [pc]; rfl)
  have second : Pio.step env glitchSniffCmd told1 = told2 :=
    @sniff_act env told1 on rfl dry _ _ rfl rfl
  have third : Pio.step env glitchSniffCmd told2 = told3 :=
    @sniff_act env told2 on rfl dry _ _ rfl rfl
  have fourth : Pio.step env glitchSniffCmd told3 = told4 :=
    @sniff_compare env told3 on rfl dry rfl
  have fifth : (Pio.step env glitchSniffCmd told4).cleared =
      sm.cleared ++ [2] ++ if word = sm.y then [0] else [] :=
    @sniff_trigger env told4 on rfl dry rfl
  have told_succ (count : Nat) : told (count + 1) =
      ((Pio.step env glitchSniffCmd)^[count] told1).cleared := by
    show ((Pio.step env glitchSniffCmd)^[count] (Pio.step env glitchSniffCmd sm)).cleared = _
    rw [first]
  have told_one : told 1 = sm.cleared ++ [2] := told_succ 0
  rw [told_one]
  refine ⟨rfl, ?_, ?_, ?_, ?_⟩
  · rw [told_succ, Function.iterate_one, second]
  · rw [told_succ, Function.iterate_succ_apply, second, Function.iterate_one, third]
  · rw [told_succ, Function.iterate_succ_apply, second, Function.iterate_succ_apply, third,
      Function.iterate_one, fourth]
  · rw [told_succ, Function.iterate_succ_apply, second, Function.iterate_succ_apply, third,
      Function.iterate_succ_apply, fourth, Function.iterate_one, fifth]

end Told

/-- The waits of a machine are over only behind a frame with the pattern, the end of the data and,
unless they are written over, two more frames, one after the other. -/
theorem Passes.chain {frames : List (Nat × Sniffer.Frame)} {line : Pio.Env} {waiter : Pio.Sm}
    {armed since : Nat} (passes : Passes mariko (cleared frames line waiter) armed 4 since) :
    ∃ time frame ended last, (time, frame) ∈ frames ∧ frame.bits.drop 32 = ofHalf 0x1351 ∧
      time + 4 < ended ∧ Waiter.tells line waiter ended = true ∧ since = last + 1 ∧
      if mariko then last = ended + 2
      else ∃ request reply between, ended < between ∧ between < last ∧
        (between, request) ∈ frames ∧ (last, reply) ∈ frames := by
  cases passes with
  | @next _ _ last fourth late first now =>
    cases fourth with
    | @next _ _ between third late' first' now' =>
      cases third with
      | @next _ _ ended second late'' _ now'' =>
        cases second with
        | @next _ _ told _ _ _ opened =>
          have ⟨time, frame, member, same, when⟩ := @cleared_pattern frames line waiter told opened
          refine ⟨time, frame, ended, last, member, same, by omega, now'', rfl, ?_⟩
          cases mariko with
          | true =>
            -- a wait that is written over takes a cycle
            have soon : ¬ended + 1 < between := fun later =>
              Bool.false_ne_true (first' (ended + 1) (Nat.le_refl _) later).symm
            have soon' : ¬between + 1 < last := fun later =>
              Bool.false_ne_true (first (between + 1) (Nat.le_refl _) later).symm
            rw [if_pos rfl]
            omega
          | false =>
            have ⟨request, member'⟩ := @cleared_frame frames line waiter between now'
            have ⟨reply, member''⟩ := @cleared_frame frames line waiter last now
            rw [if_neg Bool.false_ne_true]
            exact ⟨request, reply, between, late', late, member', member''⟩

end Machine

/-- Whatever the eMMC and the host do, a try of the glitch has at most one pulse, of the width. Its
pin is high only at the delay behind the last of these, each behind the one before: a frame that
ends with the pattern, the end of the data of a block, and, unless the machine is that for a Mariko,
two more frames. -/
theorem pin_behind_data (mariko : Bool) (turns : Nat → Nat) (frames : List (Nat × Sniffer.Frame))
    (line : Pio.Env) {sm : Pio.Sm} (empty : sm.isr = []) (tries : List Nat)
    (x y delay width : UInt32) (count : Nat) :
    let waiter := initDat0Pio (Waiter.tried line (uploadDatPio sm) tries)
    let wave := ((Sm.step (initTriggerPio mariko turns (cleared frames line waiter)))^[count]
      (triggerStart x y delay width)).wave
    Pulses.pulses wave <+: [width.toNat + 1] ∧
      ∀ index, wave[index]? = some true →
        ∃ time frame ended blocks last, (time, frame) ∈ frames ∧
          frame.bits.drop 32 = ofHalf 0x1351 ∧ time + 4 < ended ∧
          Waiter.Blocks line dataTicks (waiter.cycle + 1) (blocks + 1)
            (waiter.cycle + ended + 2) ∧
          (if mariko then last = ended + 2
            else ∃ request reply between, ended < between ∧ between < last ∧
              (between, request) ∈ frames ∧ (last, reply) ∈ frames) ∧
          last + 2 + delay.toNat ≤ index ∧ index ≤ last + 2 + delay.toNat + width.toNat := by
  intro waiter wave
  have phase := @iterate_phase mariko turns (cleared frames line waiter) delay width x y count
  refine ⟨phase.pulses, ?_⟩
  intro index up
  have ⟨armed, since, passes, late, early⟩ := phase.high_at up
  have ⟨time, frame, ended, last, member, same, behind, told, when, rest⟩ := passes.chain
  have learned : (Waiter.tried line (uploadDatPio sm) tries).y = dataTicks :=
    Waiter.tried_y line (by rw [Waiter.uploadDatPio_eq empty]) tries
  have ⟨blocks, passed⟩ := Waiter.tells_passed (Waiter.initDat0Pio_set learned) rfl told
  exact ⟨time, frame, ended, blocks, last, member, same, behind, passed, rest, by omega, by omega⟩

/-- The frames of a start: the block before the glitch is read, then the status is asked for. -/
def firstFrames : List (Nat × Sniffer.Frame) :=
  [0, 6500].zip Sniffer.readAndStatus ++
    [(7200, ⟨0, ofBytes [0x0D, 0x00, 0x00, 0x09, 0x00, 0x3F], rfl, rfl⟩)]

/-- A start whose block begins at once has a pulse of 121 cycles at most. -/
theorem first_pin_behind_data :
    let waiter := initDat0Pio (Waiter.tried (Waiter.lowFrom 3) (uploadDatPio startMmc) [])
    let wave := ((Sm.step (initTriggerPio false (fun _ => 1)
      (cleared firstFrames (Waiter.lowFrom 3) waiter)))^[10000] (triggerStart 0 0 900 120)).wave
    Pulses.pulses wave <+: [121] ∧
      ∀ index, wave[index]? = some true →
        ∃ time frame ended blocks last, (time, frame) ∈ firstFrames ∧
          frame.bits.drop 32 = ofHalf 0x1351 ∧ time + 4 < ended ∧
          Waiter.Blocks (Waiter.lowFrom 3) dataTicks (waiter.cycle + 1) (blocks + 1)
            (waiter.cycle + ended + 2) ∧
          (if false then last = ended + 2
            else ∃ request reply between, ended < between ∧ between < last ∧
              (between, request) ∈ firstFrames ∧ (last, reply) ∈ firstFrames) ∧
          last + 2 + 900 ≤ index ∧ index ≤ last + 2 + 900 + 120 :=
  pin_behind_data false (fun _ => 1) firstFrames (Waiter.lowFrom 3) rfl [] 0 0 900 120 10000

end Trigger

end Fly2040.Firmware
