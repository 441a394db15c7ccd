import Fly2040.Lib.Bits
import Fly2040.Lib.Steps
/-!
# Machines of a programmable port

A machine of a programmable port runs a few instructions between two queues of words and the pins.
Bits leave through a register that is filled from one queue as soon as it is empty, and enter
through a register that goes to the other queue as soon as it is full; both shift towards the
highest bit. What the pins and the other machines do in a cycle is a parameter, and so is how far a
host gets with what it does to the machine. So what is kept by every step holds in every
interleaving of the machine and its host.
-/

namespace Fly2040.Pio

open Bits

/-- When a jump is taken. -/
inductive Condition where
  /-- Always. -/
  | always
  /-- While the counter is not zero, which counts down. -/
  | xDecrement
  /-- While the two scratch registers differ. -/
  | xNotY
  /-- While the pin is high. -/
  | pin
deriving DecidableEq

/-- Where bits come from that are shifted in. -/
inductive Source where
  /-- Levels of the pins. -/
  | pins
  /-- Zeros. -/
  | null
deriving DecidableEq

/-- Where bits go that are shifted out. -/
inductive Destination where
  /-- The counter. -/
  | x
  /-- Directions of the pins. -/
  | pinDirs
  /-- Nowhere. -/
  | null
deriving DecidableEq

/-- A register that can be copied to the counter. -/
inductive Register where
  /-- The second scratch register. -/
  | y
  /-- The register of bits that leave. -/
  | osr
  /-- The register of bits that enter. -/
  | isr
deriving DecidableEq

/-- Instructions. -/
inductive Instr where
  /-- Go on at an instruction. -/
  | jmp (condition : Condition) (target : Nat)
  /-- Wait for a level of a pin. -/
  | wait (level : Bool) (index : Nat)
  /-- Shift bits in. -/
  | shiftIn (source : Source) (count : Nat)
  /-- Shift bits out. -/
  | out (destination : Destination) (count : Nat)
  /-- Send on what has been shifted in. -/
  | push
  /-- Copy a register to the counter. -/
  | movX (source : Register)
  /-- Raise a flag and wait until it is cleared. -/
  | irqWait (flag : Nat)
  /-- Clear a flag. -/
  | irqClear (flag : Nat)
deriving DecidableEq

/-- An instruction and the cycles that pass after it. -/
structure Op where
  /-- The instruction. -/
  instr : Instr
  /-- Cycles after it. -/
  delay : Nat
deriving DecidableEq

/-- What surrounds a machine in every cycle. -/
structure Env where
  /-- Level of a pin, counted from the first pin that the machine reads. -/
  pin : (cycle index : Nat) → Bool
  /-- The wait for a flag ends, since another machine clears it. -/
  released : (cycle flag : Nat) → Bool

/-- A machine. -/
structure Sm where
  /-- The next instruction. -/
  pc : Nat
  /-- Counter. -/
  x : UInt32
  /-- Second scratch register. -/
  y : UInt32
  /-- Bits that are left to shift out, the next one first. -/
  osr : List Bool
  /-- Bits that have been shifted in, the last one last. -/
  isr : List Bool
  /-- Words to send. -/
  tx : List UInt32
  /-- Words received. -/
  rx : List UInt32
  /-- The first pin whose direction is set. -/
  outBase : Nat
  /-- The machine runs. -/
  enabled : Bool
  /-- Cycles until the next instruction. -/
  delay : Nat
  /-- Cycles so far. -/
  cycle : Nat
  /-- Directions that have been set: the pin, and whether it is driven. -/
  directions : List (Nat × Bool)
  /-- Flags that have been cleared. -/
  cleared : List Nat
deriving DecidableEq

namespace Sm

/-- An empty register takes the next word to send. -/
def refill (sm : Sm) : Sm :=
  match sm.osr, sm.tx with
  | [], word :: words => { sm with osr := ofWord word, tx := words }
  | _, _ => sm

/-- Send on the bits that have been shifted in. -/
def push (sm : Sm) : Sm :=
  { sm with isr := [], rx := sm.rx ++ [UInt32.ofBitVec (packed 32 sm.isr)] }

/-- Shift bits in; a full register is sent on. -/
def shiftIn (sm : Sm) (bits : List Bool) : Sm :=
  let sm := { sm with isr := sm.isr ++ bits }
  if sm.isr.length < 32 then sm else sm.push

/-- Value of a register. -/
def register (sm : Sm) : Register → UInt32
  | .y => sm.y
  | .osr => UInt32.ofBitVec (packed 32 (sm.osr ++ List.replicate (32 - sm.osr.length) false))
  | .isr => UInt32.ofBitVec (packed 32 sm.isr)

/-- Bits that have been shifted out reach their destination. -/
def deliver (sm : Sm) (bits : List Bool) : Destination → Sm
  | .x => { sm with x := UInt32.ofBitVec (packed 32 bits) }
  | .pinDirs =>
    { sm with
      directions := sm.directions ++
        bits.reverse.zipIdx.map fun (bit, index) => (sm.outBase + index, bit) }
  | .null => sm

/-- Shift bits out; zeros follow the last one. -/
def out (sm : Sm) (destination : Destination) (count : Nat) : Sm :=
  { sm with osr := sm.osr.drop count }.deliver
    ((sm.osr ++ List.replicate count false).take count) destination

/-- A jump is taken. -/
def taken (env : Env) (sm : Sm) : Condition → Bool
  | .always => true
  | .xDecrement => sm.x ≠ 0
  | .xNotY => sm.x ≠ sm.y
  | .pin => env.pin sm.cycle 0

/-- Count down behind a jump that does so. -/
def count (sm : Sm) : Condition → Sm
  | .xDecrement => { sm with x := sm.x - 1 }
  | _ => sm

end Sm

/-- What an instruction does, behind the step to the next one; nothing if it has to wait. -/
def execute (env : Env) (sm : Sm) : Instr → Option Sm
  | .jmp condition target =>
    let after := sm.count condition
    some (if sm.taken env condition then { after with pc := target } else after)
  | .wait level index => if env.pin sm.cycle index = level then some sm else none
  | .shiftIn source count =>
    some (sm.shiftIn (match source with
      | .pins => ((List.range count).map (env.pin sm.cycle)).reverse
      | .null => List.replicate count false))
  | .out destination count => if sm.osr = [] then none else some (sm.out destination count)
  | .push => some sm.push
  | .movX source => some { sm with x := sm.register source }
  | .irqWait flag => if env.released sm.cycle flag then some sm else none
  | .irqClear flag => some { sm with cleared := sm.cleared ++ [flag] }

/-- The instruction behind another one; behind the last one is the first one. -/
def following (program : List Op) (pc : Nat) : Nat :=
  if pc + 1 < program.length then pc + 1 else 0

/-- The machine is where it was in the next cycle. -/
def Sm.idle (sm : Sm) : Sm := { sm with cycle := sm.cycle + 1 }

/-- The cycle of an instruction. -/
def Sm.act (env : Env) (program : List Op) (sm : Sm) : Sm :=
  match program[sm.pc]? with
  | some op =>
    match execute env { sm with pc := following program sm.pc } op.instr with
    | some after => { after with cycle := sm.cycle + 1, delay := op.delay }
    | none => sm.idle
  | none => sm.idle

/-- A cycle of a machine. -/
def step (env : Env) (program : List Op) (sm : Sm) : Sm :=
  if sm.enabled = false then sm.idle
  else if sm.delay = 0 then sm.refill.act env program
  else { sm.idle with delay := sm.delay - 1 }

/-- A step of a machine that is much faster than its pins: an instruction takes no time, and only
one that has to wait lets the pins go on. -/
def instant (env : Env) (program : List Op) (sm : Sm) : Sm :=
  if sm.enabled = false then sm.idle
  else
    match program[sm.refill.pc]? with
    | some op =>
      match execute env { sm.refill with pc := following program sm.refill.pc } op.instr with
      | some after => after
      | none => sm.refill.idle
    | none => sm.refill.idle

/-- What a host does to a machine. -/
inductive Action where
  /-- Let the machine run or not. -/
  | enable (on : Bool)
  /-- Choose the pin that it drives. -/
  | select (pin : Nat)
  /-- Give it a word to send. -/
  | put (word : UInt32)
deriving DecidableEq

/-- The machine after something its host does. -/
def Action.apply (sm : Sm) : Action → Sm
  | .enable on => { sm with enabled := on }
  | .select pin => { sm with outBase := pin }
  | .put word => { sm with tx := sm.tx ++ [word] }

/-- A machine and what its host has yet to do. -/
structure Driven where
  /-- The machine. -/
  sm : Sm
  /-- What the host does next. -/
  todo : List Action
deriving DecidableEq

/-- A step of both: the host gets some way, then the machine steps. A host that waits for room in
the queue gets further in a later cycle. -/
def Driven.step (env : Env) (turns : Nat → Nat) (program : List Op) (driven : Driven) : Driven :=
  let way := turns driven.sm.cycle
  { sm := Pio.step env program ((driven.todo.take way).foldl Action.apply driven.sm)
    todo := driven.todo.drop way }

/-- Words that a host has yet to put. -/
def puts (todo : List Action) : List UInt32 :=
  todo.filterMap fun
    | .put word => some word
    | _ => none

namespace Driven

/-- Words that the machine has not begun. -/
def ahead (driven : Driven) : List UInt32 := driven.sm.tx ++ puts driven.todo

/-- Bits that the machine has not shifted out. -/
def bits (driven : Driven) : List Bool := driven.sm.osr ++ ofWords driven.ahead

/-- The bits of a machine, and of what its host puts. -/
theorem bits_mk (sm : Sm) (todo : List Action) :
    (Driven.mk sm todo).bits = sm.osr ++ ofWords (Driven.mk sm todo).ahead := rfl

/-- The words of a machine, and those that its host puts. -/
theorem ahead_mk (sm : Sm) (todo : List Action) :
    (Driven.mk sm todo).ahead = sm.tx ++ puts todo := rfl

end Driven

section Refill

variable (sm : Sm)

/-- A register that holds bits is not refilled. -/
theorem refill_of_held (held : sm.osr ≠ []) : sm.refill = sm := by
  unfold Sm.refill
  split
  next empty _ => exact absurd empty held
  next => rfl

/-- Nothing is refilled from an empty queue. -/
theorem refill_of_dry (dry : sm.tx = []) : sm.refill = sm := by
  unfold Sm.refill
  split
  next some => exact absurd dry (by rw [some]; exact List.cons_ne_nil _ _)
  next => rfl

/-- Only the register and the queue are touched. -/
theorem refill_eq : sm.refill = { sm with osr := sm.refill.osr, tx := sm.refill.tx } := by
  unfold Sm.refill
  split <;> rfl

/-- The instruction stays. -/
@[simp] theorem refill_pc : sm.refill.pc = sm.pc := by rw [refill_eq]

/-- The counter stays. -/
@[simp] theorem refill_x : sm.refill.x = sm.x := by rw [refill_eq]

/-- The cycle stays. -/
@[simp] theorem refill_cycle : sm.refill.cycle = sm.cycle := by rw [refill_eq]

/-- The pause stays. -/
@[simp] theorem refill_delay : sm.refill.delay = sm.delay := by rw [refill_eq]

/-- A machine that is switched off stays so. -/
@[simp] theorem refill_enabled : sm.refill.enabled = sm.enabled := by rw [refill_eq]

/-- The pin that is chosen stays. -/
@[simp] theorem refill_outBase : sm.refill.outBase = sm.outBase := by rw [refill_eq]

/-- The pins stay. -/
@[simp] theorem refill_directions : sm.refill.directions = sm.directions := by rw [refill_eq]

/-- The register and the queue hold the same bits as before. -/
theorem refill_bits (todo : List Action) :
    (Driven.mk sm.refill todo).bits = (Driven.mk sm todo).bits := by
  unfold Sm.refill
  split
  next word words empty some =>
    simp only [Driven.bits, Driven.ahead, empty, some, List.nil_append, List.cons_append,
      ofWords_cons]
  next => rfl

/-- A register is empty behind the refill only if the queue is. -/
theorem refill_dry (empty : sm.refill.osr = []) : sm.osr = [] ∧ sm.tx = [] := by
  by_cases held : sm.osr = []
  · cases queue : sm.tx with
    | nil => exact ⟨held, rfl⟩
    | cons word words =>
      have filled := ofWord_length word
      simp only [Sm.refill, held, queue] at empty
      rw [empty] at filled
      exact absurd filled (by decide)
  · rw [refill_of_held sm held] at empty
    exact absurd empty held

/-- A register holds at most a word. -/
theorem refill_length (short : sm.osr.length ≤ 32) : sm.refill.osr.length ≤ 32 := by
  unfold Sm.refill
  split
  next => exact Nat.le_of_eq (ofWord_length _)
  next => exact short

end Refill

/-- Every step is a cycle. -/
@[simp] theorem step_cycle (env : Env) (program : List Op) (sm : Sm) :
    (step env program sm).cycle = sm.cycle + 1 := by
  unfold step
  split
  next => rfl
  split
  next =>
    rw [← refill_cycle sm]
    unfold Sm.act
    split
    next => split <;> rfl
    next => rfl
  next => rfl

/-- Bits that come in do not switch the machine off. -/
theorem shiftIn_enabled (sm : Sm) (bits : List Bool) : (sm.shiftIn bits).enabled = sm.enabled := by
  unfold Sm.shiftIn
  dsimp only
  split <;> rfl

/-- No instruction switches the machine off. -/
theorem execute_enabled {env : Env} {sm after : Sm} {instr : Instr}
    (done : execute env sm instr = some after) : after.enabled = sm.enabled := by
  cases instr with
  | jmp condition target =>
    cases done
    cases condition <;> simp only [Sm.count] <;> split <;> rfl
  | wait level index =>
    simp only [execute, Option.ite_none_right_eq_some, Option.some.injEq] at done
    rw [← done.2]
  | shiftIn source count =>
    cases done
    exact shiftIn_enabled sm _
  | out destination count =>
    simp only [execute, Option.ite_none_left_eq_some, Option.some.injEq] at done
    rw [← done.2]
    cases destination <;> rfl
  | push => cases done; rfl
  | movX source => cases done; rfl
  | irqWait flag =>
    simp only [execute, Option.ite_none_right_eq_some, Option.some.injEq] at done
    rw [← done.2]
  | irqClear flag => cases done; rfl

/-- Only the host switches the machine off. -/
@[simp] theorem step_enabled (env : Env) (program : List Op) (sm : Sm) :
    (step env program sm).enabled = sm.enabled := by
  unfold step
  split
  next => rfl
  split
  next =>
    rw [← refill_enabled sm]
    unfold Sm.act
    split
    next =>
      split
      next done => exact (execute_enabled done).trans rfl
      next => rfl
    next => rfl
  next => rfl

section Host

variable {env : Env} {turns : Nat → Nat} {program : List Op}

/-- The host does not move the clock. -/
@[simp] theorem foldl_apply_cycle (sm : Sm) (todo : List Action) :
    (todo.foldl Action.apply sm).cycle = sm.cycle := by
  induction todo generalizing sm with
  | nil => rfl
  | cons action todo ih =>
    rw [List.foldl_cons, ih]
    cases action <;> rfl

/-- Whether the machine is switched on at the end depends only on whether it is now. -/
theorem foldl_apply_enabled {sm sm' : Sm} (same : sm.enabled = sm'.enabled) (todo : List Action) :
    (todo.foldl Action.apply sm).enabled = (todo.foldl Action.apply sm').enabled := by
  induction todo generalizing sm sm' with
  | nil => exact same
  | cons action todo ih =>
    apply ih
    cases action with
    | enable on => rfl
    | select pin => exact same
    | put word => exact same

/-- Every step of both is a cycle. -/
theorem Driven.step_cycle (driven : Driven) :
    (driven.step env turns program).sm.cycle = driven.sm.cycle + 1 := by
  rw [Driven.step, Pio.step_cycle, foldl_apply_cycle]

/-- What the host still does switches the machine on or off as it did before. -/
theorem Driven.step_enabled (driven : Driven) :
    let next := driven.step env turns program
    (next.todo.foldl Action.apply next.sm).enabled =
      (driven.todo.foldl Action.apply driven.sm).enabled := by
  have same := foldl_apply_enabled (Pio.step_enabled env program
    ((driven.todo.take (turns driven.sm.cycle)).foldl Action.apply driven.sm))
    (driven.todo.drop (turns driven.sm.cycle))
  rw [← List.foldl_append, List.take_append_drop] at same
  exact same

/-- What every action and every cycle of the machine keeps is kept by a step of both. -/
theorem Driven.step_kept {inv : Driven → Prop}
    (acts : ∀ sm action todo, inv ⟨sm, action :: todo⟩ → inv ⟨action.apply sm, todo⟩)
    (cycles : ∀ sm todo, inv ⟨sm, todo⟩ → inv ⟨Pio.step env program sm, todo⟩)
    (driven : Driven) (now : inv driven) : inv (driven.step env turns program) := by
  apply cycles
  have hosted : ∀ (way : Nat) (sm : Sm) (todo : List Action), inv ⟨sm, todo⟩ →
      inv ⟨(todo.take way).foldl Action.apply sm, todo.drop way⟩ := by
    intro way
    induction way with
    | zero => exact fun _ _ now => now
    | succ way ih =>
      intro sm todo now
      cases todo with
      | nil => exact now
      | cons action todo => exact ih _ todo (acts sm action todo now)
  exact hosted _ driven.sm driven.todo now

end Host

end Fly2040.Pio
