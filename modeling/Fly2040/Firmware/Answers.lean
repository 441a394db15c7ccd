import Fly2040.Firmware.Clocked
import Fly2040.Firmware.Replies
/-!
# A command and its answer

The machine that sends tells the one that receives when a frame is over: three cycles after the card
has clocked in its last bit, when the line has been released for one period. A card may answer two
periods later at the earliest, so the machine that receives waits for the start bit by then, and
takes every bit of the answer when the clock rises. What the host reads is what the card has sent.
-/

namespace Fly2040.Firmware

open Bits Pio Sender Steps

/-- Level that a card sets which answers with bits from a period of the clock on: it changes its
line when the clock falls, and releases it otherwise. -/
def answerLevel (begin : Nat) (bits : List Bool) (cycle : Nat) : Bool :=
  if (cycle + 1) / 2 < begin then true else bits.getD ((cycle + 1) / 2 - begin) true

/-- What surrounds a machine that receives from a pin: the clock, the machine that sends, which has
started in a cycle, and a card. Whoever drives the line pulls it low. -/
def answered (pin start : Nat) (run : Nat → Sm) (card : Nat → Bool) : Pio.Env where
  pin cycle _ := line pin (run (cycle - start)).directions && card cycle
  released cycle flag :=
    if flag = 1 then (run (cycle - start + 1)).cleared ≠ (run (cycle - start)).cleared
    else (clockOp cycle).instr = .irqClear flag

/-- A line that is released at the end of an answer adds ones to it. -/
theorem answerLevel_concat (begin : Nat) (bits : List Bool) :
    answerLevel begin (bits ++ [true]) = answerLevel begin bits := by
  funext cycle
  rw [answerLevel, answerLevel]
  split
  · rfl
  · generalize (cycle + 1) / 2 - begin = index
    by_cases inside : index < bits.length
    · rw [List.getD_append _ _ _ _ inside]
    · rw [List.getD_append_right _ _ _ _ (Nat.le_of_not_lt inside),
        List.getD_eq_default bits _ (Nat.le_of_not_lt inside)]
      cases index - bits.length with
      | zero => rfl
      | succ index => rfl

/-- No frame is whole before it has all its bits. -/
theorem Intake.reads_short {size : Nat} {bits : List Bool} (short : bits.length < size) :
    (reads size bits).frames = [] := by
  have both : (reads size bits).frames = [] ∧ (reads size bits).part.length ≤ bits.length := by
    induction bits using List.reverseRecOn with
    | nil => exact ⟨rfl, Nat.le_refl _⟩
    | append_singleton bits bit ih =>
      rw [List.length_append, List.length_singleton] at short
      have ⟨frames, part⟩ := ih (by omega)
      rw [reads_concat, take, List.length_append, List.length_singleton]
      split
      · exact ⟨frames, by omega⟩
      rw [if_pos (by omega)]
      refine ⟨frames, ?_⟩
      rw [List.length_append, List.length_singleton]
      omega
  exact both.1

section Machine

variable {size pin : Nat} {levels : (cycle index : Nat) → Bool} {turns : Nat → Nat} {sm : Sm}

/-- What the host leaves alone. -/
structure Hosted (sm next : Sm) : Prop where
  /-- The instruction. -/
  pc : next.pc = sm.pc
  /-- The counter. -/
  x : next.x = sm.x
  /-- The pause. -/
  delay : next.delay = sm.delay
  /-- The cycle. -/
  cycle : next.cycle = sm.cycle
  /-- The pins. -/
  directions : next.directions = sm.directions
  /-- The flags. -/
  cleared : next.cleared = sm.cleared

/-- The host leaves most of the machine alone. -/
theorem hosted_same (driven : Driven) : Hosted driven.sm (Bench.hosted turns driven) :=
  @Bench.hosted_kept turns (fun next => Hosted driven.sm next.sm)
    (fun _ action _ same => by
      cases action <;>
        exact ⟨same.pc, same.x, same.delay, same.cycle, same.directions, same.cleared⟩)
    driven ⟨rfl, rfl, rfl, rfl, rfl, rfl⟩

/-- The register that is refilled clears no flag. -/
theorem refill_cleared (sm : Sm) : sm.refill.cleared = sm.cleared := by rw [refill_eq]

/-- A flag is cleared by one instruction only. -/
theorem act_cleared (sm : Sm) (notWake : sm.pc ≠ 4) :
    (sm.act (clocked levels) outCmdOrDat).cleared = sm.cleared := by
  match place : sm.pc with
  | 0 =>
    by_cases empty : sm.osr = []
    · rw [act_dry _ sm place empty]
      rfl
    · rw [act_count _ sm place empty]
  | 1 =>
    rw [act_clock _ sm place]
    split <;> rfl
  | 2 =>
    cases held : sm.osr with
    | nil =>
      rw [act_starved _ sm place held]
      rfl
    | cons bit rest => rw [act_drive _ sm place held]
  | 3 => rw [act_loop _ sm place]
  | 4 => exact absurd place notWake
  | 5 =>
    by_cases empty : sm.osr = []
    · simp [Sm.act, place, outCmdOrDat, execute, empty, Sm.idle]
    · rw [act_drop _ sm place empty]
  | pc + 6 => simp [Sm.act, place, outCmdOrDat, Sm.idle]

/-- Pins that have been set stay, and a flag is cleared by one instruction only. -/
theorem step_grows (sm : Sm) :
    sm.directions <+: (step (clocked levels) outCmdOrDat sm).directions ∧
      (sm.pc ≠ 4 → (step (clocked levels) outCmdOrDat sm).cleared = sm.cleared) := by
  rw [step]
  split
  · exact ⟨List.prefix_refl _, fun _ => rfl⟩
  split
  · obtain ⟨_, bits, set⟩ := @act_pin (clocked levels) sm.refill
    refine ⟨?_, fun notWake => ?_⟩
    · rw [set, refill_directions]
      exact List.prefix_append _ _
    · rw [← refill_pc sm] at notWake
      rw [← refill_cleared sm]
      exact act_cleared sm.refill notWake
  · exact ⟨List.prefix_refl _, fun _ => rfl⟩

end Machine

/-- A run in which one packet is sent and nothing hinders the machine. -/
structure Course (size pin : Nat) (known : List (Nat × Bool)) (packet : Packet)
    (levels : (cycle index : Nat) → Bool) (turns : Nat → Nat) (run : Nat → Bench) : Prop where
  /-- The packet carries a frame. -/
  framed : Framed size packet
  /-- The card is in step with the machine. -/
  clocks : ∀ count, Bench.Clocks size pin known [packet] (run count)
  /-- Nothing hinders the machine. -/
  unhindered : ∀ count, Unhindered (Bench.hosted turns (run count).driven)
  /-- Cycle by cycle. -/
  next : ∀ count, run (count + 1) = (run count).step size pin levels turns

namespace Course

variable {size pin : Nat} {known : List (Nat × Bool)} {packet : Packet}
  {levels : (cycle index : Nat) → Bool} {turns : Nat → Nat} {run : Nat → Bench} {count : Nat}
  (course : Course size pin known packet levels turns run)
include course

/-- A cycle of the machine, behind what the host does. -/
theorem next_sm (count : Nat) : (run (count + 1)).driven.sm =
    step (clocked levels) outCmdOrDat (Bench.hosted turns (run count).driven) := by
  rw [course.next]
  rfl

/-- Cycles are counted from the first one. -/
theorem cycle_eq (count : Nat) :
    (run count).driven.sm.cycle = (run 0).driven.sm.cycle + count := by
  induction count with
  | zero => rfl
  | succ count ih =>
    rw [course.next_sm, step_cycle, (hosted_same _).cycle, ih, Nat.add_assoc]

/-- Pins that have been set stay. -/
theorem directions_grow {later : Nat} (passed : count ≤ later) :
    (run count).driven.sm.directions <+: (run later).driven.sm.directions := by
  induction later, passed using Nat.le_induction with
  | base => exact List.prefix_refl _
  | succ later _ ih =>
    have grows := (@step_grows levels (Bench.hosted turns (run later).driven)).1
    rw [(hosted_same _).directions, ← course.next_sm] at grows
    exact ih.trans grows

/-- A flag is cleared by one instruction only. -/
theorem cleared_same (notWake : (run count).driven.sm.pc ≠ 4) :
    (run (count + 1)).driven.sm.cleared = (run count).driven.sm.cleared := by
  rw [← (hosted_same (run count).driven).pc] at notWake
  rw [course.next_sm, (@step_grows levels _).2 notWake, (hosted_same _).cleared]

/-- A machine that runs carries out its instruction. -/
theorem acts (place : (run count).driven.sm.pc = 2 ∨ (run count).driven.sm.pc = 3 ∨
    (run count).driven.sm.pc = 4) (ready : (run count).driven.sm.delay = 0) :
    (run (count + 1)).driven.sm =
      (Bench.hosted turns (run count).driven).refill.act (clocked levels) outCmdOrDat := by
  have same : Hosted _ (Bench.hosted turns (run count).driven) := hosted_same _
  have on : ¬(Bench.hosted turns (run count).driven).enabled = false := by
    rw [(course.unhindered count).enabled (by rw [same.pc]; exact place)]
    decide
  rw [course.next_sm, step, if_neg on, if_pos (same.delay.trans ready)]

/-- The jump back. -/
theorem loop_next (place : (run count).driven.sm.pc = 3) (ready : (run count).driven.sm.delay = 0) :
    (run (count + 1)).driven.sm.pc = (if (run count).driven.sm.x = 0 then 4 else 2) ∧
      (run (count + 1)).driven.sm.x = (run count).driven.sm.x - 1 ∧
      (run (count + 1)).driven.sm.delay = 0 := by
  have same : Hosted _ (Bench.hosted turns (run count).driven) := hosted_same _
  rw [course.acts (.inr (.inl place)) ready,
    act_loop _ _ ((refill_pc _).trans (same.pc.trans place))]
  show (if (Bench.hosted turns (run count).driven).refill.x = 0 then 4 else 2) = _ ∧
    (Bench.hosted turns (run count).driven).refill.x - 1 = _ ∧ 0 = 0
  rw [refill_x, same.x]
  exact ⟨rfl, rfl, rfl⟩

/-- A bit is set. -/
theorem drive_next (place : (run count).driven.sm.pc = 2)
    (ready : (run count).driven.sm.delay = 0) :
    (run (count + 1)).driven.sm.pc = 3 ∧
      (run (count + 1)).driven.sm.x = (run count).driven.sm.x ∧
      (run (count + 1)).driven.sm.delay = 0 := by
  have same : Hosted _ (Bench.hosted turns (run count).driven) := hosted_same _
  have fed := (course.unhindered count).fed (same.pc.trans place) (same.delay.trans ready)
  have ⟨bit, rest, held⟩ := List.exists_cons_of_ne_nil fed
  rw [course.acts (.inl place) ready,
    act_drive _ _ ((refill_pc _).trans (same.pc.trans place)) held]
  show 3 = 3 ∧ (Bench.hosted turns (run count).driven).refill.x = _ ∧ 0 = 0
  rw [refill_x, same.x]
  exact ⟨rfl, rfl, rfl⟩

/-- The machine that receives is woken up. -/
theorem wake_next (place : (run count).driven.sm.pc = 4)
    (ready : (run count).driven.sm.delay = 0) :
    (run (count + 1)).driven.sm.cleared = (run count).driven.sm.cleared ++ [1] := by
  have same : Hosted _ (Bench.hosted turns (run count).driven) := hosted_same _
  rw [course.acts (.inr (.inr place)) ready,
    act_wake _ _ ((refill_pc _).trans (same.pc.trans place))]
  show (Bench.hosted turns (run count).driven).refill.cleared ++ [1] = _
  rw [refill_cleared, same.cleared]

/-- The packet is the only one: the machine is within it whenever it is not about to take a
count. -/
theorem within (place : (run count).driven.sm.pc ≠ 0) : ∃ gone left,
    packet.directions = gone ++ left ∧ Place (run count).driven.sm left ∧
      (run count).driven.sm.directions.map Prod.snd = known.map Prod.snd ++ gone := by
  cases (course.clocks count).phase with
  | between _ _ _ never => exact absurd never place
  | within done rest other gone left _ whole split busy _ _ _ _ sent =>
    cases done with
    | nil =>
      have ⟨same, _⟩ := List.cons.inj whole
      subst same
      exact ⟨gone, left, split, busy, sent⟩
    | cons first done =>
      have none := (List.cons.inj whole).2
      exact absurd none.symm (List.append_ne_nil_of_right_ne_nil _ (List.cons_ne_nil _ _))

/-- When the machine is about to wake the other one, it has set all bits of the packet, and the card
has clocked in the frame. -/
theorem whole (wake : (run count).driven.sm.pc = 4) :
    (run count).intake.frames = [frameOf packet] ∧
      (run count).driven.sm.directions =
        known ++ packet.directions.map fun bit => (pin, bit) := by
  have inside : (run count).driven.sm.pc ≠ 0 := by
    rw [wake]
    decide
  have ⟨gone, left, split, place, sent⟩ := course.within inside
  have none : left = [] := by
    cases place with
    | clock never => exact absurd (never.symm.trans wake) (by decide)
    | drive never => exact absurd (never.symm.trans wake) (by decide)
    | loop never => exact absurd (never.symm.trans wake) (by decide)
    | wake _ none => exact none
    | drop never => exact absurd (never.symm.trans wake) (by decide)
  rw [none, List.append_nil] at split
  cases (course.clocks count).timed with
  | rest bits set seen =>
    rw [set, map_snd, List.append_cancel_left_eq, ← split] at sent
    rw [seen, set, sent]
    refine ⟨?_, rfl⟩
    have framed : ∀ other ∈ [packet], Framed size other := by
      intro other inside
      rw [List.mem_singleton.mp inside]
      exact course.framed
    have all := reads_packets framed
    rw [packetDirections, List.flatMap_singleton] at all
    rw [all]
    rfl
  | drive _ _ _ never => exact absurd (never.symm.trans wake) (by decide)
  | loop _ _ _ _ never => exact absurd (never.symm.trans wake) (by decide)

/-- The card clocks in the last bit of the frame when the clock rises, and one bit is left to be
set, which releases the line. -/
theorem last_bit (before : (run count).intake.frames = [])
    (behind : (run (count + 1)).intake.frames ≠ []) :
    (run count).driven.sm.pc = 3 ∧ (run count).driven.sm.delay = 0 ∧
      (run count).driven.sm.x.toNat = 1 ∧ (run count).driven.sm.cycle % 2 = 0 := by
  have looked : (run (count + 1)).intake =
      look size pin (run count).driven.sm (run count).intake := by
    rw [course.next]
    rfl
  rw [looked] at behind
  cases (course.clocks count).timed with
  | rest bits set seen between high =>
    rw [look_rest between high] at behind
    exact absurd before behind
  | drive bits set seen place ready clock =>
    rw [look, if_neg (by rw [rises_iff]; omega)] at behind
    exact absurd before behind
  | loop bits bit set seen place ready clock =>
    refine ⟨place, ready, ?_, clock⟩
    have inside : (run count).driven.sm.pc ≠ 0 := by
      rw [place]
      decide
    obtain ⟨gone, left, split, busy, sent⟩ := course.within inside
    rw [set, map_snd, List.append_cancel_left_eq] at sent
    obtain ⟨rest, more, size', levels⟩ := course.framed
    have counted : (run count).driven.sm.x.toNat = left.length := by
      cases busy with
      | clock never => exact absurd (never.symm.trans place) (by decide)
      | drive never => exact absurd (never.symm.trans place) (by decide)
      | loop _ count => exact count
      | wake never => exact absurd (never.symm.trans place) (by decide)
      | drop never => exact absurd (never.symm.trans place) (by decide)
    have length : gone.length + left.length = size + 1 := by
      have lengths := congrArg List.length levels
      rw [split, List.length_map, List.length_append, List.length_append, List.length_cons,
        List.length_singleton, size'] at lengths
      exact lengths
    -- with fewer bits there would be no frame yet, and with more there would be one before
    have enough : ¬gone.length < size := by
      intro short
      rw [look, if_pos ((rises_iff _).mpr clock), set, line_concat, seen] at behind
      have read := @Intake.reads_concat size (bits.map (!·)) (!bit)
      rw [← read] at behind
      apply behind
      apply Intake.reads_short
      rw [List.length_append, List.length_map, List.length_singleton]
      rw [← sent, List.length_append, List.length_singleton] at short
      exact short
    have some : left ≠ [] := by
      intro none
      rw [none, List.append_nil, ← sent] at split
      rw [split, List.map_append] at levels
      obtain ⟨frame, _⟩ := List.append_inj' levels rfl
      rw [seen, frame, Intake.reads, Intake.foldl_whole more size'] at before
      exact absurd before (List.cons_ne_nil _ _)
    have positive := List.length_pos_iff.mpr some
    omega

/-- Frames that the card has clocked in stay. -/
theorem frames_grow {later : Nat} (passed : count ≤ later) :
    (run count).intake.frames <+: (run later).intake.frames := by
  induction later, passed using Nat.le_induction with
  | base => exact List.prefix_refl _
  | succ later _ ih =>
    rw [course.next]
    exact ih.trans Bench.step_frames

/-- Three cycles after the card has clocked in the last bit, the machine is about to wake the other
one, and it wakes it then for the first time. -/
theorem told (before : (run count).intake.frames = [])
    (behind : (run (count + 1)).intake.frames ≠ []) :
    (run (count + 3)).driven.sm.pc = 4 ∧
      (∀ earlier ≤ count + 2, (run (earlier + 1)).driven.sm.cleared =
        (run earlier).driven.sm.cleared) ∧
      (run (count + 4)).driven.sm.cleared = (run (count + 3)).driven.sm.cleared ++ [1] := by
  have ⟨place, ready, one, _⟩ := course.last_bit before behind
  have x : (run count).driven.sm.x = 1 := UInt32.toNat_inj.mp one
  have ⟨place₁, x₁, ready₁⟩ := course.loop_next place ready
  rw [x, if_neg (by decide)] at place₁
  have ⟨place₂, x₂, ready₂⟩ := course.drive_next place₁ ready₁
  have ⟨place₃, _, ready₃⟩ := course.loop_next place₂ ready₂
  rw [x₂, x₁, x, if_pos (by decide)] at place₃
  refine ⟨place₃, fun earlier passed => course.cleared_same fun wake => ?_,
    course.wake_next place₃ ready₃⟩
  by_cases late : earlier ≤ count
  · have none := course.frames_grow late
    rw [before, (course.whole wake).1] at none
    exact absurd (List.prefix_nil.mp none) (List.cons_ne_nil _ _)
  · by_cases first : earlier = count + 1
    · rw [first, place₁] at wake
      exact absurd wake (by decide)
    · rw [show earlier = count + 2 by omega, place₂] at wake
      exact absurd wake (by decide)

/-- Behind the packet all lines are released. -/
theorem released {last other : Nat} (wake : (run last).driven.sm.pc = 4) (passed : last ≤ count)
    (high : line other known = true) : line other (run count).driven.sm.directions = true := by
  have grows := course.directions_grow passed
  obtain ⟨bits, more, set, _, inside⟩ := (course.clocks count).set
  rw [packetDirections, List.flatMap_singleton] at inside
  rw [(course.whole wake).2, set, List.prefix_append_right_inj] at grows
  have short := grows.length_le
  rw [List.length_map, List.length_map] at short
  have all := inside.eq_of_length (Nat.le_antisymm inside.length_le short)
  obtain ⟨front, released⟩ := course.framed.directions_eq
  rw [set, all]
  by_cases same : other = pin
  · rw [released, same, line_concat]
    rfl
  · rw [line_other known packet.directions same]
    exact high

/-- A machine that receives from any line and has been asked for bytes at the start of a command
takes the bits behind the start bit of an answer, if the card answers two periods of the clock after
the last bit of the command or later. -/
theorem received {sm : Sm} {size' wait other : Nat} {data more : List Bool}
    (before : (run count).intake.frames = []) (behind : (run (count + 1)).intake.frames ≠ [])
    (high : line other known = true) (ready : Receiver.Ready sm)
    (same : sm.cycle = (run 0).driven.sm.cycle) (some : 0 < size')
    (length : data.length = size' * 8) (fits : size' * 8 < 2 ^ 32) (late : 2 ≤ wait) :
    ∃ last, Reaches (step (answered other sm.cycle (fun count => (run count).driven.sm)
        (answerLevel ((sm.cycle + count) / 2 + 1 + wait) ([false] ++ (data ++ more)))) inCmdOrDat)
        (datReadRequest size' sm) last ∧ last.pc = 0 ∧ last.rx = Receiver.pushed data := by
  have ⟨wake, quiet, told⟩ := course.told before behind
  have even : (sm.cycle + count) % 2 = 0 := by
    have rises := (course.last_bit before behind).2.2.2
    rw [course.cycle_eq, ← same] at rises
    exact rises
  apply Receiver.receives ready some length fits
  refine ⟨sm.cycle + (count + 3), (sm.cycle + count) / 2 + 1 + wait, by omega, ?_, ?_, by omega,
    ?_, ?_⟩
  · intro cycle late early
    show decide _ = true ↔ _
    rw [decide_eq_true_iff]
    by_cases now : cycle = sm.cycle + (count + 3)
    · refine iff_of_true ?_ now
      rw [show cycle - sm.cycle = count + 3 by omega, told]
      exact fun never => List.cons_ne_nil 1 [] (List.append_right_eq_self.mp never)
    · refine iff_of_false (fun changed => changed ?_) now
      exact quiet (cycle - sm.cycle) (by omega)
  · intro cycle
    exact released_iff (fun _ _ => true) cycle
  · intro period late early
    show (_ && _) = true
    rw [course.released wake (by omega) high, Bool.true_and, answerLevel, if_pos (by omega)]
  · intro index inside
    show (_ && _) = _
    rw [course.released wake (by omega) high, Bool.true_and, answerLevel, if_neg (by omega),
      show (2 * ((sm.cycle + count) / 2 + 1 + wait + index) + 1) / 2 -
        ((sm.cycle + count) / 2 + 1 + wait) = index by omega]
    exact List.getD_eq_getElem _ _ inside

end Course

namespace Transfer

/-- The machine that sends, its host and the card, some cycles after the host has begun a call. -/
def onLine (call : Transfer) (sm : Sm) (levels : (cycle index : Nat) → Bool) (turns : Nat → Nat)
    (count : Nat) : Bench :=
  (Bench.step (frameSize call.pin) call.pin levels turns)^[count] (bench sm [call])

/-- A call goes through: the machine waits for it, its line is released, the host goes on, and
nothing hinders the machine within the frame. -/
structure GoesThrough (call : Transfer) (sm : Sm) (levels : (cycle index : Nat) → Bool)
    (turns : Nat → Nat) : Prop where
  /-- A command is a number below 64. -/
  valid : call.Valid
  /-- The machine waits. -/
  idle : Idle sm
  /-- It runs. -/
  on : sm.enabled = true
  /-- The line is released. -/
  high : line call.pin sm.directions = true
  /-- The host goes on. -/
  host : ∀ time, ∃ later, time ≤ later ∧ 0 < turns later
  /-- Nothing hinders the machine. -/
  unhindered : ∀ count, Unhindered (Bench.hosted turns (call.onLine sm levels turns count).driven)

variable {call : Transfer} {sm : Sm} {levels : (cycle index : Nat) → Bool} {turns : Nat → Nat}

/-- A call that goes through keeps the card in step. -/
theorem GoesThrough.course (goes : call.GoesThrough sm levels turns) :
    Course (frameSize call.pin) call.pin sm.directions call.packet levels turns
      (call.onLine sm levels turns) := by
  have one : ∀ other ∈ [call], other.pin = call.pin := by
    intro other inside
    rw [List.mem_singleton.mp inside]
  have all : ∀ other ∈ [call].map Transfer.packet, Framed (frameSize call.pin) other := by
    intro other inside
    rw [List.mem_singleton.mp inside]
    exact framed goes.valid
  exact ⟨framed goes.valid, (start_clocks one goes.idle goes.high).iterate all goes.unhindered,
    goes.unhindered, fun count => Function.iterate_succ_apply' _ _ _⟩

/-- The card clocks in the last bit of a call that goes through. -/
theorem GoesThrough.ends (goes : call.GoesThrough sm levels turns) : ∃ last,
    (call.onLine sm levels turns last).intake.frames = [] ∧
      (call.onLine sm levels turns (last + 1)).intake.frames = [call.sent] := by
  have one : ∀ other ∈ [call], other.pin = call.pin := by
    intro other inside
    rw [List.mem_singleton.mp inside]
  have valid : ∀ other ∈ [call], other.Valid := by
    intro other inside
    rw [List.mem_singleton.mp inside]
    exact goes.valid
  have course := goes.course
  have ⟨count, all⟩ := clocked_end one valid goes.idle goes.on goes.host course.clocks
  change (call.onLine sm levels turns count).intake.frames = [call.sent] at all
  induction count with
  | zero => exact absurd all.symm (List.cons_ne_nil _ _)
  | succ count ih =>
    have grows := course.frames_grow (Nat.le_succ count)
    rw [all] at grows
    cases frames : (call.onLine sm levels turns count).intake.frames with
    | nil => exact ⟨count, frames, all⟩
    | cons frame frames' =>
      rw [frames, List.cons_prefix_cons, List.prefix_nil] at grows
      rw [grows.1, grows.2] at frames
      exact ih frames

/-- A call goes through whose host hands over everything in the first cycle. -/
theorem eager_goes (valid : call.Valid) (idle : Idle sm) (on : sm.enabled = true)
    (high : line call.pin sm.directions = true)
    (eager : ∀ cycle, call.actions.length ≤ turns cycle) :
    call.GoesThrough sm levels turns := by
  have whole : ([call].flatMap actions).length ≤ turns sm.cycle := by
    rw [List.flatMap_singleton]
    exact eager sm.cycle
  refine ⟨valid, idle, on, high, fun time => ⟨time, Nat.le_refl _, ?_⟩,
    eager_unhindered levels idle on whole⟩
  have some : 0 < call.actions.length := by
    rw [actions_eq]
    exact Nat.succ_pos _
  exact Nat.lt_of_lt_of_le some (eager time)

end Transfer

/-- A command goes out and its answer comes in: if the command goes through and the machine that
receives holds no bits from before, the card clocks in the frame of the command, and if it answers
two periods of the clock later or any time after that, then the host reads the bytes of the answer,
if it finds them in time. -/
theorem command_answered (cmd : UInt8) (argument : UInt32) (sm sm' : Sm)
    (levels : (cycle index : Nat) → Bool) (turns : Nat → Nat)
    (goes : (Transfer.cmdWrite cmd argument).GoesThrough sm levels turns)
    (ready : Receiver.Ready sm') (same : sm'.cycle = sm.cycle) (reply : List UInt8)
    (begins : (ofBytes reply).head? = some false) (fits : reply.length * 8 < 2 ^ 32) :
    let run := (Transfer.cmdWrite cmd argument).onLine sm levels turns
    ∃ last, (run last).intake.frames = [] ∧
      (run (last + 1)).intake.frames = [ofBytes (cmdWriteData cmd argument)] ∧
      ∀ wait, 2 ≤ wait → ∃ heard,
        Reaches (step (answered pinCmd sm'.cycle (fun count => (run count).driven.sm)
          (answerLevel ((sm'.cycle + last) / 2 + 1 + wait) (ofBytes reply))) inCmdOrDat)
          (cmdReadRequest reply.length sm') heard ∧ heard.pc = 0 ∧
        ∀ polls, heard.rx.take ((reply.length + 3) / 4) <+: polls.filterMap id →
          cmdReadData reply.length polls = (reply, true) := by
  intro run
  have ⟨last, before, behind⟩ := goes.ends
  have course := goes.course
  have frame : (Transfer.cmdWrite cmd argument).sent = ofBytes (cmdWriteData cmd argument) :=
    List.dropLast_concat
  rw [frame] at behind
  refine ⟨last, before, behind, fun wait late => ?_⟩
  have ⟨rest, bits⟩ : ∃ rest, ofBytes reply = false :: rest := by
    cases bits : ofBytes reply with
    | nil =>
      rw [bits] at begins
      exact absurd begins.symm (Option.some_ne_none _)
    | cons first rest =>
      rw [bits] at begins
      exact ⟨rest, congrArg (· :: rest) (Option.some.inj begins)⟩
  have length : (rest ++ [true]).length = reply.length * 8 := by
    have lengths := congrArg List.length bits
    rw [ofBytes_length, List.length_cons] at lengths
    rw [List.length_append, List.length_singleton]
    omega
  have some : 0 < reply.length := by
    rw [List.length_append, List.length_singleton] at length
    omega
  have ⟨heard, reaches, place, rx⟩ := @Course.received _ _ _ _ _ _ _ _ course sm' reply.length wait
    pinCmd (rest ++ [true]) [] before (by rw [behind]; exact List.cons_ne_nil _ _) goes.high ready
    same some length fits late
  rw [List.append_nil, List.singleton_append, ← List.cons_append, ← bits, answerLevel_concat]
    at reaches
  refine ⟨heard, reaches, place, fun polls found => ?_⟩
  rw [rx] at found
  have ⟨bytes, all⟩ := Replies.cmdReadLoop_found false
    (Receiver.found_of_pushed (length.trans (Nat.mul_comm _ 8)) found)
  have whole : (false :: (rest ++ [true])).take (8 * reply.length) = ofBytes reply := by
    rw [← List.cons_append, ← bits, ← ofBytes_length, List.take_left]
  rw [whole] at bytes
  exact Prod.ext (ofBytes_injective bytes) all

/-- The request of the operating conditions goes out, and what a card answers at once comes in. -/
theorem request_answered :
    let run := (Transfer.cmdWrite 1 0).onLine startMmc (fun _ _ => true) fun _ => 6
    ∃ last heard, (run (last + 1)).intake.frames = [ofBytes (cmdWriteData 1 0)] ∧
      Reaches (step (answered pinCmd 0 (fun count => (run count).driven.sm)
        (answerLevel ((0 + last) / 2 + 1 + 2) (ofBytes [0x3F, 0x80, 0xFF, 0x80, 0x80, 0xFF])))
        inCmdOrDat) (cmdReadRequest 6 startMmc) heard ∧
      cmdReadData 6 (heard.rx.map some) = ([0x3F, 0x80, 0xFF, 0x80, 0x80, 0xFF], true) := by
  have goes : (Transfer.cmdWrite 1 0).GoesThrough startMmc (fun _ _ => true) fun _ => 6 :=
    Transfer.eager_goes (show (1 : UInt8) < 64 by decide) ⟨rfl, rfl, rfl⟩ rfl rfl
      fun _ => Nat.le_refl 6
  have ⟨last, _, clocked, answers⟩ := command_answered 1 0 startMmc startMmc (fun _ _ => true)
    (fun _ => 6) goes ⟨rfl, rfl, rfl, rfl⟩ rfl [0x3F, 0x80, 0xFF, 0x80, 0x80, 0xFF] (by decide)
    (by decide)
  have ⟨heard, reaches, _, read⟩ := answers 2 (Nat.le_refl 2)
  refine ⟨last, heard, clocked, reaches, read _ ?_⟩
  rw [List.filterMap_map]
  exact List.filterMap_some.symm ▸ List.take_prefix _ _

/-- A read of a block: if the command goes through and the machine that receives holds no bits from
before, the card clocks in the command on its line, and if it sends a block with its checksum on the
other line two periods of the clock later or any time after that, then the host has the block, and
its checksum is right, if its polls find all words in time. -/
theorem block_answered (block : UInt32) (sm sm' : Sm) (levels : (cycle index : Nat) → Bool)
    (turns : Nat → Nat) (goes : (Transfer.cmdWrite 17 block).GoesThrough sm levels turns)
    (high : line pinDat sm.directions = true) (ready : Receiver.Ready sm')
    (same : sm'.cycle = sm.cycle) (buffer : Block) :
    let run := (Transfer.cmdWrite 17 block).onLine sm levels turns
    ∃ last, (run last).intake.frames = [] ∧
      (run (last + 1)).intake.frames = [ofBytes (cmdWriteData 17 block)] ∧
      ∀ wait, 2 ≤ wait → ∃ heard,
        Reaches (step (answered pinDat sm'.cycle (fun count => (run count).driven.sm)
          (answerLevel ((sm'.cycle + last) / 2 + 1 + wait) (datFrame buffer))) inCmdOrDat)
          (datReadRequest 514 sm') heard ∧ heard.pc = 0 ∧
        ∀ (held : Block) polls, heard.rx.take ((514 + 3) / 4) <+: polls.filterMap id →
          mmcReceived held (datReadData 514 polls) = ⟨true, buffer, crcItuT (List.ofFn buffer)⟩ ∧
            (mmcReceived held (datReadData 514 polls)).valid = true := by
  intro run
  have ⟨last, before, behind⟩ := goes.ends
  have course := goes.course
  have frame : (Transfer.cmdWrite 17 block).sent = ofBytes (cmdWriteData 17 block) :=
    List.dropLast_concat
  rw [frame] at behind
  refine ⟨last, before, behind, fun wait late => ?_⟩
  have length : (ofBytes (List.ofFn buffer) ++ ofHalf (crcItuT (List.ofFn buffer))).length =
      514 * 8 := by
    rw [List.length_append, ofBytes_length, List.length_ofFn, ofHalf_length]
  have ⟨heard, reaches, place, rx⟩ := @Course.received _ _ _ _ _ _ _ _ course sm' 514 wait pinDat
    (ofBytes (List.ofFn buffer) ++ ofHalf (crcItuT (List.ofFn buffer))) [true, true] before
    (by rw [behind]; exact List.cons_ne_nil _ _) high ready same (by decide) length (by decide) late
  rw [List.append_assoc] at reaches
  refine ⟨heard, reaches, place, fun held polls found => ?_⟩
  rw [rx] at found
  have ⟨bits, all⟩ := Receiver.datReadData_found
    (Receiver.found_of_pushed (length.trans (Nat.mul_comm _ 8)) found)
  rw [ofHalf_bytes, ← ofBytes_append] at bits
  have bytes := ofBytes_injective bits
  have whole : datReadData 514 polls =
      (List.ofFn buffer ++ [(crcItuT (List.ofFn buffer) >>> 8).toUInt8,
        (crcItuT (List.ofFn buffer)).toUInt8], true) := Prod.ext bytes all
  rw [whole, mmcReceived_block]
  exact ⟨rfl, Received.valid_whole buffer⟩

/-- The first block is read, which is all zeros, from a card that answers at once. -/
theorem zeros_answered :
    let run := (Transfer.cmdWrite 17 0).onLine startMmc (fun _ _ => true) fun _ => 6
    ∃ last heard, Reaches (step (answered pinDat 0 (fun count => (run count).driven.sm)
        (answerLevel ((0 + last) / 2 + 1 + 2) (datFrame fun _ => 0))) inCmdOrDat)
        (datReadRequest 514 startMmc) heard ∧
      (mmcReceived (fun _ => 0xFF) (datReadData 514 (heard.rx.map some))).valid = true := by
  have goes : (Transfer.cmdWrite 17 0).GoesThrough startMmc (fun _ _ => true) fun _ => 6 :=
    Transfer.eager_goes (show (17 : UInt8) < 64 by decide) ⟨rfl, rfl, rfl⟩ rfl rfl
      fun _ => Nat.le_refl 6
  have ⟨last, _, _, answers⟩ := block_answered 0 startMmc startMmc (fun _ _ => true) (fun _ => 6)
    goes rfl ⟨rfl, rfl, rfl, rfl⟩ rfl fun _ => 0
  have ⟨heard, reaches, _, read⟩ := answers 2 (Nat.le_refl 2)
  refine ⟨last, heard, reaches, (read _ _ ?_).2⟩
  rw [List.filterMap_map]
  exact List.filterMap_some.symm ▸ List.take_prefix _ _

end Fly2040.Firmware
