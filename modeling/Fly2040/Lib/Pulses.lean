import Fly2040.Lib.Bits
import Fly2040.Lib.Steps
/-!
# Machines that drive a pin

A machine of a programmable port that takes words from its host and drives one pin besides. Every
instruction names the level of the pin, which holds from the first cycle of the instruction to the
last one, also while the instruction waits. What the host puts, and when, and which flags are
cleared is a parameter. The levels so far are kept, so that what a machine has put on its pin can be
told in every interleaving with its host.
-/

namespace Fly2040.Pulses

open Bits Steps

/-- A scratch register. -/
inductive Register where
  /-- The first one. -/
  | x
  /-- The second one. -/
  | y
deriving DecidableEq

/-- When a jump is taken. -/
inductive Condition where
  /-- Always. -/
  | always
  /-- If a register is zero. -/
  | zero (register : Register)
  /-- While a register is not zero, which counts down. -/
  | decrement (register : Register)
deriving DecidableEq

/-- Instructions. -/
inductive Instr where
  /-- Go on at an instruction. -/
  | jmp (condition : Condition) (target : Nat)
  /-- Shift bits out into a register. -/
  | out (destination : Register) (count : Nat)
  /-- Raise a flag and wait until it is cleared. -/
  | irqWait (flag : Nat)
  /-- Nothing. -/
  | nop
deriving DecidableEq

/-- An instruction, the level of the pin, and the cycles that pass after it. -/
structure Op where
  /-- The instruction. -/
  instr : Instr
  /-- Level of the pin. -/
  side : Bool
  /-- Cycles after it. -/
  delay : Nat
deriving DecidableEq

/-- What a machine is set up with, and what surrounds it. -/
structure Setting where
  /-- Its program. -/
  program : List Op
  /-- Bits of a word that are shifted out before the next one is taken. -/
  threshold : Nat
  /-- Words that fit into its queue. -/
  depth : Nat
  /-- Words that the host is ready to put in a cycle. -/
  turns : Nat → Nat
  /-- The wait for a flag ends in a cycle. -/
  released : (cycle flag : Nat) → Bool

/-- What a machine has besides its queue. -/
structure Core where
  /-- The next instruction. -/
  pc : Nat
  /-- First scratch register. -/
  x : UInt32
  /-- Second scratch register. -/
  y : UInt32
  /-- Cycles until the next instruction. -/
  delay : Nat
  /-- Level of the pin. -/
  level : Bool
  /-- Levels in all cycles so far. -/
  wave : List Bool
deriving DecidableEq

/-- A machine and what its host has yet to put. -/
structure Sm extends Core where
  /-- Bits that are left to shift out, the next one first. -/
  osr : List Bool
  /-- Words to send. -/
  tx : List UInt32
  /-- Words that the host puts next. -/
  todo : List UInt32
deriving DecidableEq

namespace Core

variable (core : Core)

/-- Value of a register. -/
def register : Register → UInt32
  | .x => core.x
  | .y => core.y

/-- Store a value in a register. -/
def store (value : UInt32) : Register → Core
  | .x => { core with x := value }
  | .y => { core with y := value }

/-- A jump is taken. -/
def taken : Condition → Bool
  | .always => true
  | .zero register => core.register register = 0
  | .decrement register => core.register register ≠ 0

/-- Count down behind a jump that does so. -/
def count : Condition → Core
  | .decrement register => core.store (core.register register - 1) register
  | _ => core

/-- What an instruction does, behind the step to the next one; nothing if it has to wait. -/
def execute (setting : Setting) (osr : List Bool) : Instr → Option (Core × List Bool)
  | .jmp condition target =>
    let after := core.count condition
    some (if core.taken condition then { after with pc := target } else after, osr)
  | .out destination count =>
    if osr = [] then none
    else
      let bits := (osr ++ List.replicate count false).take count
      some (core.store (UInt32.ofBitVec (packed 32 bits)) destination, osr.drop count)
  | .irqWait flag => if setting.released core.wave.length flag then some (core, osr) else none
  | .nop => some (core, osr)

/-- The instruction behind another one; behind the last one is the first one. -/
def following (program : List Op) (pc : Nat) : Nat :=
  if pc + 1 < program.length then pc + 1 else 0

/-- The first cycle of an instruction. -/
def start (setting : Setting) (osr : List Bool) : Core × List Bool :=
  match setting.program[core.pc]? with
  | some op =>
    let begun := { core with level := op.side }
    match { begun with pc := following setting.program core.pc }.execute setting osr op.instr with
    | some (after, left) => ({ after with delay := op.delay }, left)
    | none => (begun, osr)
  | none => (core, osr)

/-- The level of the cycle is kept. -/
def emit : Core := { core with wave := core.wave ++ [core.level] }

/-- A cycle, given the bits that are left. -/
def cycle (setting : Setting) (osr : List Bool) : Core × List Bool :=
  if core.delay = 0 then ((core.start setting osr).1.emit, (core.start setting osr).2)
  else ({ core with delay := core.delay - 1 }.emit, osr)

end Core

namespace Sm

variable (setting : Setting) (sm : Sm)

/-- The host puts words, as long as there is room. -/
def host : Sm :=
  let way := min (setting.turns sm.wave.length) (setting.depth - sm.tx.length)
  { sm with tx := sm.tx ++ sm.todo.take way, todo := sm.todo.drop way }

/-- An empty register takes the next word. -/
def pull : Sm :=
  match sm.osr, sm.tx with
  | [], word :: words => { sm with osr := (ofWord word).take setting.threshold, tx := words }
  | _, _ => sm

/-- A cycle of the host and the machine. -/
def step : Sm :=
  let fed := sm.host setting
  let after := fed.toCore.cycle setting fed.osr
  ({ after.1 with osr := after.2, tx := fed.tx, todo := fed.todo } : Sm).pull setting

/-- Bits of words that have not been taken. -/
def behind (words : List UInt32) : List Bool :=
  words.flatMap fun word => (ofWord word).take setting.threshold

/-- Bits that have not been shifted out. -/
def bits : List Bool := sm.osr ++ behind setting (sm.tx ++ sm.todo)

section Lemmas

variable {setting sm}

/-- The host changes the queue only. -/
@[simp] theorem host_toCore : (sm.host setting).toCore = sm.toCore := rfl

/-- The host leaves the bits that are being shifted out. -/
@[simp] theorem host_osr : (sm.host setting).osr = sm.osr := rfl

/-- What the host puts moves on. -/
theorem host_words : (sm.host setting).tx ++ (sm.host setting).todo = sm.tx ++ sm.todo := by
  rw [host, List.append_assoc, List.take_append_drop]

/-- A word that is taken changes the queue only. -/
@[simp] theorem pull_toCore : (sm.pull setting).toCore = sm.toCore := by
  unfold pull
  split <;> rfl

/-- What a word that is taken has still to send. -/
theorem pull_bits : (sm.pull setting).bits setting = sm.bits setting := by
  unfold pull
  split
  next empty some =>
    rw [bits, bits, empty, some]
    rfl
  next => rfl

/-- A register is empty behind a take only if nothing is queued. -/
theorem pull_dry (positive : 0 < setting.threshold) (empty : (sm.pull setting).osr = []) :
    (sm.pull setting).tx = [] := by
  unfold pull at empty ⊢
  split at empty
  next word _ _ _ =>
    have length := congrArg List.length empty
    rw [List.length_take, ofWord_length, List.length_nil] at length
    omega
  next none =>
    cases left : sm.tx with
    | nil => rfl
    | cons word words => exact absurd left (none word words empty)

/-- A register that was empty holds a word, or stays empty. -/
theorem pull_length (fits : setting.threshold ≤ 32) (empty : sm.osr = []) :
    (sm.pull setting).osr = [] ∨ (sm.pull setting).osr.length = setting.threshold := by
  unfold pull
  split
  next =>
    rw [List.length_take, ofWord_length]
    exact .inr (Nat.min_eq_left fits)
  next => exact .inl empty

/-- A register that a cycle has emptied holds a word, or stays empty. -/
theorem step_length (fits : setting.threshold ≤ 32)
    (emptied : (sm.toCore.cycle setting sm.osr).2 = []) :
    (sm.step setting).osr = [] ∨ (sm.step setting).osr.length = setting.threshold :=
  pull_length fits emptied

/-- The machine without its queue. -/
theorem step_toCore : (sm.step setting).toCore = (sm.toCore.cycle setting sm.osr).1 := by
  rw [step]
  exact pull_toCore

/-- The bits that are left. -/
theorem step_bits : (sm.step setting).bits setting =
    (sm.toCore.cycle setting sm.osr).2 ++ behind setting (sm.tx ++ sm.todo) := by
  rw [step, pull_bits]
  show _ ++ behind setting ((sm.host setting).tx ++ (sm.host setting).todo) = _
  rw [host_words]
  rfl

/-- A register is empty behind a cycle only if nothing is queued. -/
theorem step_dry (positive : 0 < setting.threshold) (empty : (sm.step setting).osr = []) :
    (sm.step setting).tx = [] := pull_dry positive empty

/-- The words that the host puts later. -/
theorem step_todo : (sm.step setting).todo = (sm.host setting).todo := by
  rw [step, pull]
  split <;> rfl

/-- Every word has as many bits as are shifted out of it. -/
theorem behind_length (fits : setting.threshold ≤ 32) (words : List UInt32) :
    (behind setting words).length = setting.threshold * words.length := by
  induction words with
  | nil => rfl
  | cons word words ih =>
    rw [behind, List.flatMap_cons, List.length_append, List.length_take, ofWord_length,
      Nat.min_eq_left fits]
    rw [behind] at ih
    rw [ih, List.length_cons, Nat.mul_succ, Nat.add_comm]

/-- An instruction keeps the levels so far. -/
theorem execute_kept {core after : Core} {osr left : List Bool} {instr : Instr}
    (done : core.execute setting osr instr = some (after, left)) :
    after.wave = core.wave ∧ after.level = core.level := by
  have stored (value : UInt32) (register : Register) :
      (core.store value register).wave = core.wave ∧
        (core.store value register).level = core.level := by
    cases register <;> exact ⟨rfl, rfl⟩
  have counted (condition : Condition) :
      (core.count condition).wave = core.wave ∧ (core.count condition).level = core.level := by
    cases condition with
    | decrement register => exact stored _ _
    | _ => exact ⟨rfl, rfl⟩
  cases instr with
  | jmp condition target =>
    rw [Core.execute, Option.some.injEq, Prod.mk.injEq] at done
    rw [← done.1]
    split <;> exact counted condition
  | out destination count =>
    rw [Core.execute] at done
    split at done
    next => cases done
    next =>
      rw [Option.some.injEq, Prod.mk.injEq] at done
      rw [← done.1]
      exact stored _ _
  | irqWait flag =>
    rw [Core.execute] at done
    split at done
    next =>
      rw [Option.some.injEq, Prod.mk.injEq] at done
      rw [← done.1]
      exact ⟨rfl, rfl⟩
    next => cases done
  | nop =>
    rw [Core.execute, Option.some.injEq, Prod.mk.injEq] at done
    rw [← done.1]
    exact ⟨rfl, rfl⟩

/-- The first cycle of an instruction keeps the levels so far. -/
theorem start_wave (core : Core) (osr : List Bool) :
    (core.start setting osr).1.wave = core.wave := by
  unfold Core.start
  split
  next op _ =>
    dsimp only
    split
    next done => exact (execute_kept done).1
    next => rfl
  next => rfl

/-- Every cycle adds a level. -/
theorem step_wave : ∃ level, (sm.step setting).wave = sm.wave ++ [level] := by
  rw [step_toCore, Core.cycle]
  split
  next =>
    refine ⟨(sm.toCore.start setting sm.osr).1.level, ?_⟩
    rw [Core.emit, start_wave]
  next => exact ⟨_, rfl⟩

/-- As many levels as cycles. -/
theorem iterate_wave_length (count : Nat) :
    ((Sm.step setting)^[count] sm).wave.length = sm.wave.length + count := by
  induction count with
  | zero => rfl
  | succ count ih =>
    have ⟨level, same⟩ := @step_wave setting ((Sm.step setting)^[count] sm)
    rw [Function.iterate_succ_apply', same, List.length_append, ih, List.length_singleton,
      Nat.add_assoc]

/-- Levels so far are the beginning of all later ones. -/
theorem iterate_wave_prefix (count : Nat) : sm.wave <+: ((Sm.step setting)^[count] sm).wave := by
  induction count with
  | zero => exact List.prefix_rfl
  | succ count ih =>
    have ⟨level, same⟩ := @step_wave setting ((Sm.step setting)^[count] sm)
    rw [Function.iterate_succ_apply', same]
    exact ih.trans (List.prefix_append _ _)

/-- The cycles after an instruction hold its level. -/
theorem iterate_delay {count : Nat} (pause : sm.delay = count) :
    ((Sm.step setting)^[count] sm).toCore =
        { sm.toCore with delay := 0, wave := sm.wave ++ List.replicate count sm.level } ∧
      ((Sm.step setting)^[count] sm).bits setting = sm.bits setting := by
  induction count generalizing sm with
  | zero =>
    rw [List.replicate_zero, List.append_nil]
    refine ⟨?_, rfl⟩
    show sm.toCore = { sm.toCore with delay := 0 }
    rw [← pause]
  | succ count ih =>
    have cycle : sm.toCore.cycle setting sm.osr =
        ({ sm.toCore with delay := sm.delay - 1 }.emit, sm.osr) := by
      rw [Core.cycle, if_neg (by omega)]
    have core : (sm.step setting).toCore =
        { sm.toCore with delay := count, wave := sm.wave ++ [sm.level] } := by
      rw [step_toCore, cycle, pause]
      rfl
    have ⟨later, bits⟩ := @ih (sm.step setting) (by rw [core])
    constructor
    · rw [Function.iterate_succ_apply, later, core, List.replicate_succ, List.append_assoc]
      rfl
    · rw [Function.iterate_succ_apply, bits, step_bits, cycle]
      rfl

/-- An instruction holds its level until the next one begins. -/
theorem iterate_op (setting : Setting) (op : Op) {after : Core} {left : List Bool}
    (ready : sm.delay = 0) (found : setting.program[sm.pc]? = some op)
    (done : { sm.toCore with level := op.side, pc := Core.following setting.program sm.pc }.execute
      setting sm.osr op.instr = some (after, left)) :
    ((Sm.step setting)^[op.delay + 1] sm).toCore =
        { after with delay := 0, wave := sm.wave ++ List.replicate (op.delay + 1) op.side } ∧
      ((Sm.step setting)^[op.delay + 1] sm).bits setting =
        left ++ behind setting (sm.tx ++ sm.todo) := by
  have kept := execute_kept done
  have start : sm.toCore.start setting sm.osr = ({ after with delay := op.delay }, left) := by
    rw [Core.start, found]
    dsimp only
    rw [done]
  have core : (sm.step setting).toCore =
      { after with delay := op.delay, wave := sm.wave ++ [op.side] } := by
    rw [step_toCore, Core.cycle, if_pos ready, start]
    show { after with delay := op.delay, wave := after.wave ++ [after.level] } = _
    rw [kept.1, kept.2]
  have ⟨later, bits⟩ := @iterate_delay setting (sm.step setting) op.delay (by rw [core])
  constructor
  · rw [Function.iterate_succ_apply, later, core, List.replicate_succ, List.append_assoc]
    show { after with
      delay := 0, wave := _ ++ ([op.side] ++ List.replicate op.delay after.level) } = _
    rw [kept.2]
    rfl
  · rw [Function.iterate_succ_apply, bits, step_bits, Core.cycle, if_pos ready, start]

/-- An instruction of a single cycle. -/
theorem step_op (setting : Setting) {instr : Instr} {side : Bool} {after : Core} {left : List Bool}
    (ready : sm.delay = 0) (found : setting.program[sm.pc]? = some ⟨instr, side, 0⟩)
    (done : { sm.toCore with level := side, pc := Core.following setting.program sm.pc }.execute
      setting sm.osr instr = some (after, left)) :
    (sm.step setting).toCore = { after with delay := 0, wave := sm.wave ++ [side] } ∧
      (sm.step setting).bits setting = left ++ behind setting (sm.tx ++ sm.todo) :=
  iterate_op setting ⟨instr, side, 0⟩ ready found done

/-- An instruction that waits holds its level. -/
theorem step_waits (setting : Setting) (op : Op) (ready : sm.delay = 0)
    (found : setting.program[sm.pc]? = some op)
    (waits : { sm.toCore with level := op.side, pc := Core.following setting.program sm.pc }.execute
      setting sm.osr op.instr = none) :
    (sm.step setting).toCore = { sm.toCore with level := op.side, wave := sm.wave ++ [op.side] } ∧
      (sm.step setting).bits setting = sm.bits setting := by
  have start : sm.toCore.start setting sm.osr = ({ sm.toCore with level := op.side }, sm.osr) := by
    rw [Core.start, found]
    dsimp only
    rw [waits]
  constructor
  · rw [step_toCore, Core.cycle, if_pos ready, start]
    rfl
  · rw [step_bits, Core.cycle, if_pos ready, start]
    rfl

section Queue

variable (bounds : 0 < setting.threshold ∧ setting.threshold ≤ 32) (empty : sm.osr = [])
  (dry : sm.tx = []) (same : (sm.step setting).bits setting = sm.bits setting)

include bounds empty dry same

/-- A cycle that leaves the register empty takes nothing from the host. -/
theorem step_unfed (none : (sm.step setting).osr = []) :
    (sm.step setting).todo.length = sm.todo.length := by
  rw [bits, bits, none, step_dry bounds.1 none, empty, dry] at same
  have length := congrArg List.length same
  simp only [List.nil_append, behind_length bounds.2] at length
  exact Nat.eq_of_mul_eq_mul_left bounds.1 length

/-- A host that is ready to put a word fills an empty register. -/
theorem step_fed (room : 0 < setting.depth) (more : sm.todo ≠ [])
    (turn : 0 < setting.turns sm.wave.length) : (sm.step setting).osr ≠ [] := by
  intro none
  have length := step_unfed bounds empty dry same none
  have todo : (sm.step setting).todo =
      sm.todo.drop (min (setting.turns sm.wave.length) (setting.depth - sm.tx.length)) := step_todo
  have some := List.length_pos_iff.mpr more
  rw [todo, List.length_drop, dry, List.length_nil] at length
  omega

end Queue

/-- A host that is ready again and again gives a machine that waits for it its next word. -/
theorem fetch (setting : Setting) {destination : Register} {size pause : Nat} (side : Bool)
    (bounds : 0 < setting.threshold ∧ setting.threshold ≤ 32) (room : 0 < setting.depth)
    (often : ∀ time, ∃ later, time ≤ later ∧ 0 < setting.turns later) (ready : sm.delay = 0)
    (found : setting.program[sm.pc]? = some ⟨.out destination size, side, pause⟩)
    (empty : sm.osr = []) (dry : sm.tx = []) (more : sm.todo ≠ []) :
    ∃ count, ((Sm.step setting)^[count + 1] sm).toCore =
        { sm.toCore with
          level := side, wave := sm.wave ++ List.replicate (count + 1) side } ∧
      ((Sm.step setting)^[count + 1] sm).osr ≠ [] ∧
      ((Sm.step setting)^[count + 1] sm).bits setting = sm.bits setting := by
  have ⟨time, later, turn⟩ := often sm.wave.length
  have ⟨left, same⟩ := Nat.exists_eq_add_of_le later
  clear later
  induction left generalizing sm with
  | zero =>
    have ⟨core, bits⟩ := step_waits setting _ ready found (by rw [empty]; rfl)
    rw [same] at turn
    exact ⟨0, core, step_fed bounds empty dry bits room more turn, bits⟩
  | succ left ih =>
    have ⟨core, bits⟩ := step_waits setting _ ready found (by rw [empty]; rfl)
    by_cases none : (sm.step setting).osr = []
    · have todo := step_unfed bounds empty dry bits none
      have more' : (sm.step setting).todo ≠ [] := by
        apply List.length_pos_iff.mp
        rw [todo]
        exact List.length_pos_iff.mpr more
      have ⟨count, core', held, bits'⟩ := @ih (sm.step setting) (by rw [core]; exact ready)
        (by rw [core]; exact found) none (step_dry bounds.1 none) more' (by
          rw [core]
          show time = (sm.wave ++ [side]).length + left
          rw [List.length_append, List.length_singleton]
          omega)
      refine ⟨count + 1, ?_, held, bits'.trans bits⟩
      rw [Function.iterate_succ_apply, core', core, List.replicate_succ,
        List.append_assoc]
      rfl
    · exact ⟨0, core, none, bits⟩

end Lemmas

end Sm

/-- Lengths of the times for which a pin is high and that are over, given for how long it has been
high. -/
def pulsesFrom : (high : Nat) → (wave : List Bool) → List Nat
  | _, [] => []
  | high, true :: wave => pulsesFrom (high + 1) wave
  | 0, false :: wave => pulsesFrom 0 wave
  | high + 1, false :: wave => (high + 1) :: pulsesFrom 0 wave

/-- Lengths of the times for which a pin has been high. -/
def pulses (wave : List Bool) : List Nat := pulsesFrom 0 wave

/-- High levels make a pulse longer. -/
theorem pulsesFrom_high (high count : Nat) (wave : List Bool) :
    pulsesFrom high (List.replicate count true ++ wave) = pulsesFrom (high + count) wave := by
  induction count generalizing high with
  | zero => rfl
  | succ count ih =>
    rw [List.replicate_succ, List.cons_append, pulsesFrom, ih]
    congr 1
    omega

/-- Low levels between pulses say nothing. -/
theorem pulsesFrom_low (count : Nat) (wave : List Bool) :
    pulsesFrom 0 (List.replicate count false ++ wave) = pulsesFrom 0 wave := by
  induction count with
  | zero => rfl
  | succ count ih => rw [List.replicate_succ, List.cons_append, pulsesFrom, ih]

/-- A low level ends a pulse. -/
theorem pulsesFrom_end {high : Nat} (some : 0 < high) (wave : List Bool) :
    pulsesFrom high (false :: wave) = high :: pulsesFrom 0 wave := by
  cases high with
  | zero => exact absurd some (Nat.lt_irrefl 0)
  | succ high => rfl

/-- Pulses so far are the beginning of those that are there later. -/
theorem pulsesFrom_grows (high : Nat) {wave later : List Bool} (before : wave <+: later) :
    pulsesFrom high wave <+: pulsesFrom high later := by
  induction wave generalizing high later with
  | nil => exact List.nil_prefix
  | cons level wave ih =>
    have ⟨rest, same⟩ := before
    rw [← same, List.cons_append]
    cases level with
    | true => exact ih (high + 1) (List.prefix_append wave rest)
    | false =>
      cases high with
      | zero =>
        show pulsesFrom 0 wave <+: pulsesFrom 0 (wave ++ rest)
        exact ih 0 (List.prefix_append wave rest)
      | succ high => exact List.cons_prefix_cons.mpr ⟨rfl, ih 0 (List.prefix_append wave rest)⟩

end Fly2040.Pulses
