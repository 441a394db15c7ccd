import Fly2040.Lib.Pio
/-!
# Sending on the lines of the eMMC

One machine sends on both lines of the eMMC. It takes a count from the words of its host, drives a
line with as many bits, and drops the rest of the last word. A packet is the words of one transfer
with the bits they are to drive. In every interleaving of the host and the machine the bits that
have been driven are those of the packets so far, and whenever the machine is about to take a count
it has taken whole packets. A host that goes on and a clock that ticks bring it to the end of all
packets.
-/

namespace Fly2040.Firmware

open Bits Pio Steps

/-- Program of the machine that sends. -/
def outCmdOrDat : List Op :=
  [⟨.out .x 16, 0⟩,
    ⟨.irqWait 0, 1⟩,
    ⟨.out .pinDirs 1, 0⟩,
    ⟨.jmp .xDecrement 2, 0⟩,
    ⟨.irqClear 1, 0⟩,
    ⟨.out .null 32, 0⟩]

/-- Words of a transfer: a count, the bits to drive, and some bits that are dropped. -/
structure Packet where
  /-- Words that the host puts. -/
  words : List UInt32
  /-- Bits that set the direction of the line. -/
  directions : List Bool
  /-- The count comes first, the dropped bits do not fill a word. -/
  layout : ∃ count pad, ofWords words = count ++ (directions ++ pad) ∧ count.length = 16 ∧
    (packed 32 count).toNat + 1 = directions.length ∧ 0 < pad.length ∧ pad.length < 32

/-- Words of packets. -/
def packetWords (packets : List Packet) : List UInt32 := packets.flatMap Packet.words

/-- Directions that packets set. -/
def packetDirections (packets : List Packet) : List Bool := packets.flatMap Packet.directions

/-- A packet has words. -/
theorem Packet.words_ne_nil (packet : Packet) : packet.words ≠ [] := by
  intro none
  have ⟨count, pad, layout, _, value, nonempty, _⟩ := packet.layout
  have lengths := congrArg List.length layout
  rw [none] at lengths
  simp only [ofWords_nil, List.length_nil, List.length_append] at lengths
  omega

/-- Only no packets have no words. -/
theorem eq_nil_of_packetWords {packets : List Packet} (none : packetWords packets = []) :
    packets = [] := by
  cases packets with
  | nil => rfl
  | cons packet packets => exact absurd (List.append_eq_nil_iff.mp none).1 packet.words_ne_nil

namespace Sender

section Instructions

variable (env : Env) (sm : Sm)

/-- The count is taken. -/
theorem act_count (place : sm.pc = 0) (held : sm.osr ≠ []) :
    sm.act env outCmdOrDat =
      { sm with
        pc := 1
        x := UInt32.ofBitVec (packed 32 ((sm.osr ++ List.replicate 16 false).take 16))
        osr := sm.osr.drop 16
        cycle := sm.cycle + 1
        delay := 0 } := by
  simp [Sm.act, place, outCmdOrDat, execute, held, Sm.out, Sm.deliver, following]

/-- The machine waits for words. -/
theorem act_dry (place : sm.pc = 0) (dry : sm.osr = []) : sm.act env outCmdOrDat = sm.idle := by
  simp [Sm.act, place, outCmdOrDat, execute, dry]

/-- The wait for the clock. -/
theorem act_clock (place : sm.pc = 1) :
    sm.act env outCmdOrDat =
      if env.released sm.cycle 0 then { sm with pc := 2, cycle := sm.cycle + 1, delay := 1 }
      else sm.idle := by
  cases released : env.released sm.cycle 0 <;>
    simp [Sm.act, place, outCmdOrDat, execute, following, released]

/-- A bit is driven. -/
theorem act_drive (place : sm.pc = 2) {bit : Bool} {rest : List Bool}
    (held : sm.osr = bit :: rest) :
    sm.act env outCmdOrDat =
      { sm with
        pc := 3
        osr := rest
        directions := sm.directions ++ [(sm.outBase, bit)]
        cycle := sm.cycle + 1
        delay := 0 } := by
  simp [Sm.act, place, outCmdOrDat, execute, held, Sm.out, Sm.deliver, following]

/-- The machine waits for a word within a transfer. -/
theorem act_starved (place : sm.pc = 2) (dry : sm.osr = []) :
    sm.act env outCmdOrDat = sm.idle := by
  simp [Sm.act, place, outCmdOrDat, execute, dry]

/-- The jump back, as long as bits are left. -/
theorem act_loop (place : sm.pc = 3) :
    sm.act env outCmdOrDat =
      { sm with
        pc := if sm.x = 0 then 4 else 2
        x := sm.x - 1
        cycle := sm.cycle + 1
        delay := 0 } := by
  by_cases zero : sm.x = 0 <;>
    simp [Sm.act, place, outCmdOrDat, execute, following, Sm.taken, Sm.count, zero]

/-- The reader is woken up. -/
theorem act_wake (place : sm.pc = 4) :
    sm.act env outCmdOrDat =
      { sm with
        pc := 5
        cleared := sm.cleared ++ [1]
        cycle := sm.cycle + 1
        delay := 0 } := by
  simp [Sm.act, place, outCmdOrDat, execute, following]

/-- The rest of the last word is dropped. -/
theorem act_drop (place : sm.pc = 5) (held : sm.osr ≠ []) :
    sm.act env outCmdOrDat =
      { sm with pc := 0, osr := sm.osr.drop 32, cycle := sm.cycle + 1, delay := 0 } := by
  simp [Sm.act, place, outCmdOrDat, execute, following, held, Sm.out, Sm.deliver]

end Instructions

/-- Where the machine is within a packet, by the directions that are left to set. -/
inductive Place (sm : Sm) (left : List Bool) : Prop where
  /-- The count has been taken. -/
  | clock (pc : sm.pc = 1) (count : sm.x.toNat + 1 = left.length)
  /-- A direction is set next. -/
  | drive (pc : sm.pc = 2) (count : sm.x.toNat + 1 = left.length)
  /-- A direction has been set. -/
  | loop (pc : sm.pc = 3) (count : sm.x.toNat = left.length)
  /-- All directions have been set. -/
  | wake (pc : sm.pc = 4) (none : left = [])
  /-- The rest of the word is dropped next. -/
  | drop (pc : sm.pc = 5) (none : left = [])

/-- Within a packet the machine does not take a count. -/
theorem Place.pc_ne {sm : Sm} {left : List Bool} (place : Place sm left) : sm.pc ≠ 0 := by
  cases place with
  | clock pc => rw [pc]; decide
  | drive pc => rw [pc]; decide
  | loop pc => rw [pc]; decide
  | wake pc => rw [pc]; decide
  | drop pc => rw [pc]; decide

/-- A place is told by the instruction and the counter. -/
theorem Place.of_same {sm sm' : Sm} {left : List Bool} (place : Place sm left)
    (pc : sm'.pc = sm.pc) (x : sm'.x = sm.x) : Place sm' left := by
  cases place with
  | clock place count => exact .clock (pc.trans place) (by rw [← x] at count; exact count)
  | drive place count => exact .drive (pc.trans place) (by rw [← x] at count; exact count)
  | loop place count => exact .loop (pc.trans place) (by rw [← x] at count; exact count)
  | wake place none => exact .wake (pc.trans place) none
  | drop place none => exact .drop (pc.trans place) none

variable (before : List Bool) (packets : List Packet)

/-- How far the machine has come with packets, from what was driven before them. -/
inductive Phase (driven : Driven) : Prop where
  /-- The machine has taken whole packets. -/
  | between (done rest : List Packet) (whole : packets = done ++ rest)
    (place : driven.sm.pc = 0) (empty : driven.sm.osr = [])
    (ahead : driven.ahead = packetWords rest)
    (sent : driven.sm.directions.map Prod.snd = before ++ packetDirections done)
  /-- The machine is within a packet. -/
  | within (done rest : List Packet) (packet : Packet) (gone left pad : List Bool)
    (whole : packets = done ++ packet :: rest) (split : packet.directions = gone ++ left)
    (place : Place driven.sm left)
    (bits : driven.bits = left ++ (pad ++ ofWords (packetWords rest)))
    (some : 0 < pad.length) (short : pad.length < 32) (held : driven.sm.osr.length ≤ 32)
    (sent : driven.sm.directions.map Prod.snd = before ++ (packetDirections done ++ gone))

/-- Steps that an instruction is away from one that takes bits. -/
def rank : Nat → Nat
  | 1 => 3
  | 2 => 1
  | 3 => 2
  | 4 => 1
  | _ => 0

/-- Bits that are left, and the steps between them. -/
def work (driven : Driven) : Nat :=
  4 * driven.bits.length + rank driven.sm.pc + driven.sm.delay

/-- Why the machine does not go on. -/
inductive Stuck (env : Env) (driven : Driven) : Prop where
  /-- It is switched off. -/
  | off (disabled : driven.sm.enabled = false)
  /-- The clock has not ticked. -/
  | clock (place : driven.sm.pc = 1) (quiet : env.released driven.sm.cycle 0 = false)
  /-- There is no word to go on with. -/
  | dry (place : driven.sm.pc = 0 ∨ driven.sm.pc = 2) (empty : driven.sm.osr = [])
    (queue : driven.sm.tx = [])

/-- What a cycle does: the phase is kept, and work is done unless the machine is stuck. -/
structure Outcome (env : Env) (driven : Driven) (next : Sm) : Prop where
  /-- The machine is still in a phase of the packets. -/
  phase : Phase before packets ⟨next, driven.todo⟩
  /-- Less work is left, or the machine was stuck. -/
  effort : work ⟨next, driven.todo⟩ < work driven ∨
    work ⟨next, driven.todo⟩ = work driven ∧ Stuck env driven

variable {before packets}

section Steps

variable {env : Env} {sm sm' : Sm} {todo todo' : List Action}

/-- A phase is told by the instruction, the counter, the bits ahead and the directions. -/
theorem Phase.of_same (phase : Phase before packets ⟨sm, todo⟩) (pc : sm'.pc = sm.pc)
    (x : sm'.x = sm.x) (osr : sm'.osr = sm.osr) (directions : sm'.directions = sm.directions)
    (ahead : (Driven.mk sm' todo').ahead = (Driven.mk sm todo).ahead) :
    Phase before packets ⟨sm', todo'⟩ := by
  have bits : (Driven.mk sm' todo').bits = (Driven.mk sm todo).bits := by
    simp only [Driven.bits, osr, ahead]
  cases phase with
  | between done rest whole place empty words sent =>
    exact .between done rest whole (pc.trans place) (osr.trans empty) (ahead.trans words)
      (by rw [← sent]; exact congrArg _ directions)
  | within done rest packet gone left pad whole split place rest' some short held sent =>
    exact .within done rest packet gone left pad whole split (place.of_same pc x) (bits.trans rest')
      some short (by rw [← osr] at held; exact held) (by rw [← sent]; exact congrArg _ directions)

/-- What the host does keeps the phase. -/
theorem Phase.apply {action : Action} (phase : Phase before packets ⟨sm, action :: todo⟩) :
    Phase before packets ⟨action.apply sm, todo⟩ := by
  cases action with
  | enable on => exact phase.of_same rfl rfl rfl rfl rfl
  | select pin => exact phase.of_same rfl rfl rfl rfl rfl
  | put word =>
    have ahead : sm.tx ++ [word] ++ puts todo = sm.tx ++ word :: puts todo := by
      rw [List.append_assoc, List.singleton_append]
    exact phase.of_same rfl rfl rfl rfl ahead

/-- A cycle without an instruction. -/
theorem Phase.idle (phase : Phase before packets ⟨sm, todo⟩) :
    Phase before packets ⟨sm.idle, todo⟩ := phase.of_same rfl rfl rfl rfl rfl

/-- Work that is left, by the words ahead. -/
theorem work_mk (sm : Sm) (todo : List Action) :
    work ⟨sm, todo⟩ =
      4 * (sm.osr.length + 32 * (sm.tx.length + (puts todo).length)) + rank sm.pc + sm.delay := by
  rw [work, Driven.bits_mk, Driven.ahead_mk, List.length_append, ofWords_length, List.length_append]

/-- A refill does no work. -/
theorem work_refill (sm : Sm) (todo : List Action) : work ⟨sm.refill, todo⟩ = work ⟨sm, todo⟩ := by
  rw [work, work, refill_bits]
  show 4 * _ + rank sm.refill.pc + sm.refill.delay = 4 * _ + rank sm.pc + sm.delay
  rw [refill_pc, refill_delay]

/-- Bits that are shifted out are no longer ahead. -/
theorem bits_drop {count : Nat} (osr : sm'.osr = sm.osr.drop count) (tx : sm'.tx = sm.tx)
    (inside : count ≤ sm.osr.length) :
    (Driven.mk sm' todo).bits = (Driven.mk sm todo).bits.drop count := by
  rw [Driven.bits_mk, Driven.bits_mk, Driven.ahead_mk, Driven.ahead_mk, osr, tx,
    List.drop_append_of_le_length inside]

/-- The bits of the packets ahead end where the register does. -/
theorem held_of_bits {pad : List Bool} {words : List UInt32}
    (bits : (Driven.mk sm todo).bits = pad ++ ofWords words) (some : 0 < pad.length)
    (short : pad.length < 32) (held : sm.osr.length ≤ 32) :
    sm.osr = pad ∧ (Driven.mk sm todo).ahead = words := by
  rw [Driven.bits_mk] at bits
  have lengths := congrArg List.length bits
  rw [List.length_append, List.length_append, ofWords_length, ofWords_length] at lengths
  have ⟨first, rest⟩ := List.append_inj bits (by omega)
  exact ⟨first, ofWords_injective rest⟩

/-- Between packets the machine takes the count of the next one, or it waits. -/
theorem between_outcome {done rest : List Packet} (whole : packets = done ++ rest)
    (place : sm.pc = 0) (empty : sm.osr = []) (ahead : (Driven.mk sm todo).ahead = packetWords rest)
    (sent : sm.directions.map Prod.snd = before ++ packetDirections done) :
    Outcome before packets env ⟨sm, todo⟩ (sm.refill.act env outCmdOrDat) := by
  have phase : Phase before packets ⟨sm, todo⟩ := .between done rest whole place empty ahead sent
  cases queue : sm.tx with
  | nil =>
    rw [refill_of_dry sm queue, act_dry env sm place empty]
    exact ⟨phase.idle, .inr ⟨rfl, .dry (.inl place) empty queue⟩⟩
  | cons word words =>
    cases rest with
    | nil =>
      change sm.tx ++ puts todo = [] at ahead
      rw [queue] at ahead
      exact absurd ahead (List.cons_ne_nil _ _)
    | cons packet rest =>
      have ⟨count, pad, layout, sixteen, value, nonempty, short⟩ := packet.layout
      have filled : sm.refill.osr = ofWord word := by simp only [Sm.refill, empty, queue]
      have length : sm.refill.osr.length = 32 := by rw [filled, ofWord_length]
      have bits : (Driven.mk sm.refill todo).bits =
          count ++ (packet.directions ++ (pad ++ ofWords (packetWords rest))) := by
        rw [refill_bits, Driven.bits, ahead, empty, List.nil_append, packetWords, List.flatMap_cons,
          ofWords_append, layout, List.append_assoc, List.append_assoc]
        rfl
      have taken : sm.refill.osr.take 16 = count := by
        have first := congrArg (List.take 16) bits
        rw [Driven.bits_mk, List.take_append_of_le_length (by omega),
          List.take_left' sixteen] at first
        exact first
      have held : sm.refill.osr ≠ [] := List.ne_nil_of_length_pos (by omega)
      rw [act_count env sm.refill ((refill_pc sm).trans place) held,
        List.take_append_of_le_length (by omega), taken]
      have fewer : (Driven.mk { sm.refill with
          pc := 1
          x := UInt32.ofBitVec (packed 32 count)
          osr := sm.refill.osr.drop 16
          cycle := sm.refill.cycle + 1
          delay := 0 } todo).bits = (Driven.mk sm.refill todo).bits.drop 16 :=
        bits_drop rfl rfl (by omega)
      have short' : (sm.refill.osr.drop 16).length ≤ 32 := by
        rw [List.length_drop]
        omega
      have sent' : sm.refill.directions.map Prod.snd = before ++ (packetDirections done ++ []) := by
        rw [refill_directions, sent, List.append_nil]
      refine ⟨.within done rest packet [] packet.directions pad whole rfl (.clock rfl value) ?_
        nonempty short short' sent', .inl ?_⟩
      · rw [fewer, bits, List.drop_left' sixteen]
      · rw [← work_refill sm, work_mk, work_mk, refill_pc, place]
        simp only [List.length_drop, rank]
        omega

section Within

variable {done rest : List Packet} {packet : Packet} {gone left pad : List Bool}
  (whole : packets = done ++ packet :: rest) (split : packet.directions = gone ++ left)
  (bits : (Driven.mk sm todo).bits = left ++ (pad ++ ofWords (packetWords rest)))
  (nonempty : 0 < pad.length) (short : pad.length < 32) (held : sm.osr.length ≤ 32)
  (sent : sm.directions.map Prod.snd = before ++ (packetDirections done ++ gone))

include whole split bits nonempty short held sent

/-- An instruction that takes no bits goes on within the packet. -/
theorem on_outcome (place : Place sm' left) (osr : sm'.osr = sm.osr) (tx : sm'.tx = sm.tx)
    (directions : sm'.directions = sm.directions)
    (less : rank sm'.pc + sm'.delay < rank sm.pc + sm.delay) :
    Outcome before packets env ⟨sm, todo⟩ sm' := by
  have same : (Driven.mk sm' todo).bits = (Driven.mk sm todo).bits := by
    rw [Driven.bits_mk, Driven.bits_mk, Driven.ahead_mk, Driven.ahead_mk, osr, tx]
  constructor
  · apply Phase.within done rest packet gone left pad whole split place (same.trans bits) nonempty
      short
    · rw [← osr] at held
      exact held
    · rw [← directions] at sent
      exact sent
  · apply Or.inl
    rw [work, work, same]
    show 4 * _ + rank sm'.pc + sm'.delay < 4 * _ + rank sm.pc + sm.delay
    omega

/-- A bit of the packet is driven, unless there is no word to take it from. -/
theorem drive_outcome (pc : sm.pc = 2) (count : sm.x.toNat + 1 = left.length)
    (filled : sm.osr = [] → sm.tx = []) :
    Outcome before packets env ⟨sm, todo⟩ (sm.act env outCmdOrDat) := by
  have phase : Phase before packets ⟨sm, todo⟩ :=
    .within done rest packet gone left pad whole split (.drive pc count) bits nonempty short held sent
  cases left with
  | nil => exact absurd count (Nat.succ_ne_zero _)
  | cons bit left =>
    cases osr : sm.osr with
    | nil =>
      rw [act_starved env sm pc osr]
      exact ⟨phase.idle, .inr ⟨rfl, .dry (.inr pc) osr (filled osr)⟩⟩
    | cons bit' osr' =>
      rw [Driven.bits_mk, osr, List.cons_append, List.cons_append, List.cons.injEq] at bits
      have ⟨same, rest'⟩ := bits
      subst same
      rw [osr, List.length_cons] at held
      have split' : packet.directions = (gone ++ [bit']) ++ left := by
        rw [split, List.append_assoc, List.singleton_append]
      have sent' : (sm.directions ++ [(sm.outBase, bit')]).map Prod.snd =
          before ++ (packetDirections done ++ (gone ++ [bit'])) := by
        rw [List.map_append, sent]
        simp only [List.map_cons, List.map_nil, List.append_assoc]
      rw [act_drive env sm pc osr]
      constructor
      · exact .within done rest packet (gone ++ [bit']) left pad whole split'
          (.loop rfl (Nat.succ.inj count)) rest' nonempty short (Nat.le_of_succ_le held) sent'
      · apply Or.inl
        simp only [work_mk, pc, rank, osr, List.length_cons]
        omega

/-- Behind the last bit the rest of the word is dropped, and the packet is done. -/
theorem drop_outcome (pc : sm.pc = 5) (none : left = []) :
    Outcome before packets env ⟨sm, todo⟩ (sm.act env outCmdOrDat) := by
  rw [none, List.nil_append] at bits
  rw [none, List.append_nil] at split
  have ⟨osr, ahead⟩ := held_of_bits bits nonempty short held
  have some : sm.osr ≠ [] := by
    rw [osr]
    exact List.ne_nil_of_length_pos nonempty
  have empty : sm.osr.drop 32 = [] := List.drop_of_length_le held
  have whole' : packets = (done ++ [packet]) ++ rest := by
    rw [whole, List.append_assoc, List.singleton_append]
  have sent' : sm.directions.map Prod.snd = before ++ packetDirections (done ++ [packet]) := by
    rw [sent, ← split, packetDirections, packetDirections, List.flatMap_append,
      List.flatMap_singleton]
  rw [act_drop env sm pc some]
  constructor
  · exact .between (done ++ [packet]) rest whole' rfl empty ahead sent'
  · apply Or.inl
    have length := congrArg List.length osr
    simp only [work_mk, pc, rank, empty, List.length_nil]
    omega

/-- Within a packet the machine goes on to the next instruction, or it waits. -/
theorem within_outcome (place : Place sm left) (filled : sm.osr = [] → sm.tx = []) :
    Outcome before packets env ⟨sm, todo⟩ (sm.act env outCmdOrDat) := by
  have phase : Phase before packets ⟨sm, todo⟩ :=
    .within done rest packet gone left pad whole split place bits nonempty short held sent
  have on : ∀ {sm' : Sm}, Place sm' left → sm'.osr = sm.osr → sm'.tx = sm.tx →
      sm'.directions = sm.directions → rank sm'.pc + sm'.delay < rank sm.pc + sm.delay →
      Outcome before packets env ⟨sm, todo⟩ sm' :=
    on_outcome whole split bits nonempty short held sent
  cases place with
  | clock pc count =>
    rw [act_clock env sm pc]
    cases released : env.released sm.cycle 0 with
    | false => exact ⟨phase.idle, .inr ⟨rfl, .clock pc released⟩⟩
    | true =>
      rw [if_pos rfl]
      refine on (.drive rfl count) rfl rfl rfl ?_
      simp only [pc, rank]
      omega
  | drive pc count => exact drive_outcome whole split bits nonempty short held sent pc count filled
  | loop pc count =>
    rw [act_loop env sm pc]
    by_cases zero : sm.x = 0
    · rw [zero] at count
      rw [if_pos zero]
      refine on (.wake rfl (List.length_eq_zero_iff.mp count.symm)) rfl rfl rfl ?_
      simp only [pc, rank]
      omega
    · have positive : 0 < sm.x.toNat :=
        Nat.pos_of_ne_zero fun none => zero (UInt32.toNat_inj.mp none)
      have less : (sm.x - 1).toNat = sm.x.toNat - 1 :=
        UInt32.toNat_sub_of_le _ _ (UInt32.le_iff_toNat_le.mpr positive)
      have count' : (sm.x - 1).toNat + 1 = left.length := by omega
      rw [if_neg zero]
      refine on (.drive rfl count') rfl rfl rfl ?_
      simp only [pc, rank]
      omega
  | wake pc none =>
    rw [act_wake env sm pc]
    refine on (.drop rfl none) rfl rfl rfl ?_
    simp only [pc, rank]
    omega
  | drop pc none => exact drop_outcome whole split bits nonempty short held sent pc none

end Within

/-- What a cycle does does not depend on whether the register has been refilled before. -/
theorem Outcome.of_refill {next : Sm}
    (outcome : Outcome before packets env ⟨sm.refill, todo⟩ next) :
    Outcome before packets env ⟨sm, todo⟩ next := by
  have ⟨phase, effort⟩ := outcome
  rw [work_refill] at effort
  refine ⟨phase, effort.imp_right fun ⟨same, stuck⟩ => ⟨same, ?_⟩⟩
  cases stuck with
  | off disabled => exact .off ((refill_enabled sm).symm.trans disabled)
  | clock place quiet =>
    change env.released sm.refill.cycle 0 = false at quiet
    rw [refill_cycle] at quiet
    exact .clock ((refill_pc sm).symm.trans place) quiet
  | dry place empty queue =>
    change sm.refill.pc = 0 ∨ sm.refill.pc = 2 at place
    rw [refill_pc] at place
    have ⟨empty', queue'⟩ := refill_dry sm empty
    exact .dry place empty' queue'

/-- A cycle of the machine keeps the phase, and does work unless the machine is stuck. -/
theorem step_outcome (phase : Phase before packets ⟨sm, todo⟩) :
    Outcome before packets env ⟨sm, todo⟩ (step env outCmdOrDat sm) := by
  unfold step
  by_cases off : sm.enabled = false
  · rw [if_pos off]
    exact ⟨phase.idle, .inr ⟨rfl, .off off⟩⟩
  rw [if_neg off]
  by_cases ready : sm.delay = 0
  · rw [if_pos ready]
    cases phase with
    | between done rest whole place empty ahead sent =>
      exact between_outcome whole place empty ahead sent
    | within done rest packet gone left pad whole split place bits nonempty short held sent =>
      have place' : Place sm.refill left := place.of_same (refill_pc sm) (refill_x sm)
      have sent' : sm.refill.directions.map Prod.snd =
          before ++ (packetDirections done ++ gone) := by
        rw [refill_directions]
        exact sent
      apply Outcome.of_refill
      apply within_outcome whole split ((refill_bits sm todo).trans bits) nonempty short
        (refill_length sm held) sent' place'
      intro empty
      have ⟨empty', queue⟩ := refill_dry sm empty
      rw [refill_of_dry sm queue]
      exact queue
  · rw [if_neg ready]
    refine ⟨phase.of_same rfl rfl rfl rfl rfl, .inl ?_⟩
    simp only [work_mk, Sm.idle]
    omega

end Steps

/-- The host goes on and the clock ticks. -/
structure Fair (env : Env) (turns : Nat → Nat) : Prop where
  /-- The host gets some way again and again. -/
  host : ∀ time, ∃ later, time ≤ later ∧ 0 < turns later
  /-- The clock ticks again and again. -/
  clock : ∀ time, ∃ later, time ≤ later ∧ env.released later 0 = true

/-- The machine waits for a packet. -/
structure Idle (sm : Sm) : Prop where
  /-- The count is taken next. -/
  pc : sm.pc = 0
  /-- No bits are left. -/
  osr : sm.osr = []
  /-- No words are left. -/
  tx : sm.tx = []

section Runs

variable {env : Env} {turns : Nat → Nat} {driven last : Driven}

/-- A step of the machine and its host keeps the phase. -/
theorem Phase.step (phase : Phase before packets driven) :
    Phase before packets (driven.step env turns outCmdOrDat) :=
  Driven.step_kept (fun _ _ _ => Phase.apply) (fun _ _ now => (step_outcome now).phase) driven phase

/-- In every interleaving the machine is in a phase of the packets. -/
theorem Phase.reached (reaches : Reaches (Driven.step env turns outCmdOrDat) driven last)
    (phase : Phase before packets driven) : Phase before packets last :=
  reaches.kept (fun _ => Phase.step) phase

/-- The machine is in a phase, and its host leaves it switched on. -/
structure Goes (before : List Bool) (packets : List Packet) (driven : Driven) : Prop where
  /-- The machine is in a phase of the packets. -/
  phase : Phase before packets driven
  /-- The machine runs when the host is done. -/
  on : (driven.todo.foldl Action.apply driven.sm).enabled = true

/-- A step keeps both. -/
theorem Goes.step (goes : Goes before packets driven) :
    Goes before packets (driven.step env turns outCmdOrDat) :=
  ⟨goes.phase.step, (Driven.step_enabled driven).trans goes.on⟩

/-- A host that goes on gets to its end. -/
theorem host_ends (fair : Fair env turns) (goes : Goes before packets driven) :
    ∃ last, Reaches (Driven.step env turns outCmdOrDat) driven last ∧
      Goes before packets last ∧ last.todo = [] := by
  apply Reaches.of_often (fun driven => driven.sm.cycle) (fun driven => driven.todo.length)
    Driven.step_cycle ?_ fair.host ?_ goes
  · intro driven goes
    refine ⟨goes.step, ?_⟩
    show (driven.todo.drop _).length ≤ driven.todo.length
    rw [List.length_drop]
    omega
  · intro driven _ turn some
    show (driven.todo.drop (turns driven.sm.cycle)).length < driven.todo.length
    have length := List.length_pos_iff.mpr some
    rw [List.length_drop]
    omega

/-- A step of a machine whose host is done is a cycle. -/
theorem step_done (done : driven.todo = []) :
    driven.step env turns outCmdOrDat = ⟨step env outCmdOrDat driven.sm, []⟩ := by
  simp only [Driven.step, done, List.take_nil, List.drop_nil, List.foldl_nil]

/-- A machine that waits for words when its host is done waits for a packet. -/
theorem idle_of_dry (phase : Phase before packets driven) (done : driven.todo = [])
    (empty : driven.sm.osr = []) (queue : driven.sm.tx = []) : Idle driven.sm := by
  cases phase with
  | between _ _ _ first => exact ⟨first, empty, queue⟩
  | within _ rest _ _ left pad _ _ _ bits nonempty =>
    have none : driven.bits = [] := by
      simp only [Driven.bits, Driven.ahead, done, empty, queue, puts, List.filterMap_nil,
        List.append_nil, ofWords_nil]
    rw [none] at bits
    have lengths := congrArg List.length bits
    simp only [List.length_nil, List.length_append] at lengths
    omega

/-- A machine whose host is done sends what it was given, if the clock ticks. -/
theorem sender_ends (fair : Fair env turns) (goes : Goes before packets driven)
    (done : driven.todo = []) :
    ∃ last, Reaches (Driven.step env turns outCmdOrDat) driven last ∧
      (Goes before packets last ∧ last.todo = []) ∧ Idle last.sm := by
  have outcome : ∀ driven : Driven, Goes before packets driven ∧ driven.todo = [] →
      Outcome before packets env driven (driven.step env turns outCmdOrDat).sm := by
    intro driven ⟨goes, done⟩
    rw [step_done done]
    exact step_outcome goes.phase
  have quiet : ∀ driven : Driven, driven.todo = [] →
      driven.step env turns outCmdOrDat =
        ⟨(driven.step env turns outCmdOrDat).sm, driven.todo⟩ := by
    intro driven done
    rw [step_done done, done]
  apply Reaches.of_often (fun driven => driven.sm.cycle) work Driven.step_cycle ?_ fair.clock ?_
    ⟨goes, done⟩
  · intro driven ⟨goes, done⟩
    refine ⟨⟨goes.step, by rw [step_done done]⟩, ?_⟩
    rw [quiet driven done]
    cases (outcome driven ⟨goes, done⟩).effort with
    | inl less => exact Nat.le_of_lt less
    | inr same => exact Nat.le_of_eq same.1
  · intro driven ⟨goes, done⟩ tick busy
    rw [quiet driven done]
    cases (outcome driven ⟨goes, done⟩).effort with
    | inl less => exact less
    | inr same =>
      have on := goes.on
      rw [done] at on
      cases same.2 with
      | off disabled => exact absurd (disabled.symm.trans on) Bool.false_ne_true
      | clock _ quiet => exact absurd (quiet.symm.trans tick) Bool.false_ne_true
      | dry _ empty queue => exact absurd (idle_of_dry goes.phase done empty queue) busy

/-- Between packets at the end, all of them have been sent. -/
theorem sent_of_idle (phase : Phase before packets driven) (done : driven.todo = [])
    (idle : Idle driven.sm) :
    driven.sm.directions.map Prod.snd = before ++ packetDirections packets := by
  cases phase with
  | between gone rest whole place empty ahead sent =>
    have none : driven.ahead = [] := by
      simp only [Driven.ahead, done, idle.tx, puts, List.filterMap_nil, List.append_nil]
    rw [none] at ahead
    rw [eq_nil_of_packetWords ahead.symm, List.append_nil] at whole
    rw [whole]
    exact sent
  | within _ _ _ _ _ _ _ _ busy => exact absurd idle.pc busy.pc_ne

/-- A machine that waits for packets is between them. -/
theorem start_phase (idle : Idle driven.sm) (words : puts driven.todo = packetWords packets) :
    Phase (driven.sm.directions.map Prod.snd) packets driven := by
  apply Phase.between [] packets rfl idle.pc idle.osr
  · rw [Driven.ahead, idle.tx, words, List.nil_append]
  · simp only [packetDirections, List.flatMap_nil, List.append_nil]

/-- A machine that waits for packets sends those that its host puts, whatever the host and the clock
do in between, as long as they go on. -/
theorem sends (fair : Fair env turns) (idle : Idle driven.sm)
    (words : puts driven.todo = packetWords packets)
    (on : (driven.todo.foldl Action.apply driven.sm).enabled = true) :
    ∃ last, Reaches (Driven.step env turns outCmdOrDat) driven last ∧ last.todo = [] ∧
      Idle last.sm ∧
      last.sm.directions.map Prod.snd =
        driven.sm.directions.map Prod.snd ++ packetDirections packets := by
  have ⟨middle, first, goes, done⟩ := host_ends fair ⟨start_phase idle words, on⟩
  have ⟨last, second, ⟨goes', done'⟩, idle'⟩ := sender_ends fair goes done
  exact ⟨last, first.trans second, done', idle', sent_of_idle goes'.phase done' idle'⟩

/-- Whenever the machine is about to take a count it has taken whole packets, and has driven what
they say: the words that are left begin with the count of the next one. -/
theorem aligned (idle : Idle driven.sm) (words : puts driven.todo = packetWords packets)
    (reaches : Reaches (Driven.step env turns outCmdOrDat) driven last) (place : last.sm.pc = 0) :
    ∃ done rest, packets = done ++ rest ∧ last.sm.osr = [] ∧ last.ahead = packetWords rest ∧
      last.sm.directions.map Prod.snd =
        driven.sm.directions.map Prod.snd ++ packetDirections done := by
  have phase : Phase (driven.sm.directions.map Prod.snd) packets driven := start_phase idle words
  cases phase.reached reaches with
  | between done rest whole _ empty ahead sent => exact ⟨done, rest, whole, empty, ahead, sent⟩
  | within _ _ _ _ _ _ _ _ busy => exact absurd place busy.pc_ne

end Runs

section Pins

variable {env : Env} {turns : Nat → Nat} {pin : Nat} {known : List (Nat × Bool)}

/-- The machine drives only one pin: it waits for a packet until its host has chosen the pin. -/
inductive OnPin (pin : Nat) (known : List (Nat × Bool)) (driven : Driven) : Prop where
  /-- The host chooses the pin before it puts a word. -/
  | waiting (early late : List Action) (idle : Idle driven.sm)
    (todo : driven.todo = early ++ .select pin :: late) (quiet : puts early = [])
    (only : ∀ other, .select other ∈ late → other = pin) (same : driven.sm.directions = known)
  /-- The host has chosen the pin, and chooses no other. -/
  | selected (bits : List Bool) (base : driven.sm.outBase = pin)
    (only : ∀ other, .select other ∈ driven.todo → other = pin)
    (driven : driven.sm.directions = known ++ bits.map fun bit => (pin, bit))

/-- What the host does keeps the pin. -/
theorem OnPin.apply {sm : Sm} {action : Action} {todo : List Action}
    (on : OnPin pin known ⟨sm, action :: todo⟩) : OnPin pin known ⟨action.apply sm, todo⟩ := by
  cases on with
  | waiting early late idle order quiet only same =>
    cases early with
    | nil =>
      have ⟨first, rest⟩ := List.cons.inj order
      subst first rest
      exact .selected [] rfl only (same.trans (List.append_nil _).symm)
    | cons early₀ early =>
      have ⟨first, rest⟩ := List.cons.inj order
      subst first
      cases action with
      | enable on => exact .waiting early late ⟨idle.pc, idle.osr, idle.tx⟩ rest quiet only same
      | select other => exact .waiting early late ⟨idle.pc, idle.osr, idle.tx⟩ rest quiet only same
      | put word => exact absurd quiet (List.cons_ne_nil _ _)
  | selected bits base only directions =>
    have only' : ∀ other, .select other ∈ todo → other = pin :=
      fun other inside => only other (List.mem_cons_of_mem _ inside)
    cases action with
    | enable on => exact .selected bits base only' directions
    | select other => exact .selected bits (only other List.mem_cons_self) only' directions
    | put word => exact .selected bits base only' directions

/-- An instruction drives at most the pin that is chosen. -/
theorem act_pin (sm : Sm) :
    (sm.act env outCmdOrDat).outBase = sm.outBase ∧
      ∃ bits : List Bool, (sm.act env outCmdOrDat).directions =
        sm.directions ++ bits.map fun bit => (sm.outBase, bit) := by
  have still : sm.directions = sm.directions ++ [].map fun bit : Bool => (sm.outBase, bit) :=
    (List.append_nil _).symm
  match place : sm.pc with
  | 0 =>
    by_cases empty : sm.osr = []
    · rw [act_dry env sm place empty]
      exact ⟨rfl, [], still⟩
    · rw [act_count env sm place empty]
      exact ⟨rfl, [], still⟩
  | 1 =>
    rw [act_clock env sm place]
    split <;> exact ⟨rfl, [], still⟩
  | 2 =>
    cases held : sm.osr with
    | nil =>
      rw [act_starved env sm place held]
      exact ⟨rfl, [], still⟩
    | cons bit rest =>
      rw [act_drive env sm place held]
      exact ⟨rfl, [bit], rfl⟩
  | 3 =>
    rw [act_loop env sm place]
    exact ⟨rfl, [], still⟩
  | 4 =>
    rw [act_wake env sm place]
    exact ⟨rfl, [], still⟩
  | 5 =>
    by_cases empty : sm.osr = []
    · simp [Sm.act, place, outCmdOrDat, execute, empty, Sm.idle]
    · rw [act_drop env sm place empty]
      exact ⟨rfl, [], still⟩
  | pc + 6 => simp [Sm.act, place, outCmdOrDat, Sm.idle]

/-- A cycle of the machine keeps the pin. -/
theorem OnPin.cycle {sm : Sm} {todo : List Action} (on : OnPin pin known ⟨sm, todo⟩) :
    OnPin pin known ⟨step env outCmdOrDat sm, todo⟩ := by
  cases on with
  | waiting early late idle order quiet only same =>
    have still : step env outCmdOrDat sm = sm.idle ∨
        step env outCmdOrDat sm = { sm.idle with delay := sm.delay - 1 } := by
      unfold step
      rw [refill_of_dry sm idle.tx, act_dry env sm idle.pc idle.osr]
      split
      next => exact .inl rfl
      next => split <;> simp
    cases still with
    | inl still =>
      rw [still]
      exact .waiting early late ⟨idle.pc, idle.osr, idle.tx⟩ order quiet only same
    | inr still =>
      rw [still]
      exact .waiting early late ⟨idle.pc, idle.osr, idle.tx⟩ order quiet only same
  | selected bits base only directions =>
    unfold step
    split
    next => exact .selected bits base only directions
    split
    next =>
      have ⟨base', more, same⟩ := @act_pin env sm.refill
      change sm.outBase = pin at base
      change sm.directions = known ++ bits.map fun bit => (pin, bit) at directions
      rw [refill_outBase] at base' same
      rw [refill_directions, directions, base, List.append_assoc, ← List.map_append] at same
      exact .selected (bits ++ more) (base'.trans base) only same
    next => exact .selected bits base only directions

/-- A step of the machine and its host keeps the pin. -/
theorem OnPin.step {driven : Driven} (on : OnPin pin known driven) :
    OnPin pin known (driven.step env turns outCmdOrDat) :=
  Driven.step_kept (fun _ _ _ => OnPin.apply) (fun _ _ => OnPin.cycle) driven on

/-- All that a machine sends for a host that chooses one pin first goes to that pin. -/
theorem sends_on {driven : Driven} {early late : List Action} (fair : Fair env turns)
    (idle : Idle driven.sm) (words : puts driven.todo = packetWords packets)
    (on : (driven.todo.foldl Action.apply driven.sm).enabled = true)
    (order : driven.todo = early ++ .select pin :: late) (quiet : puts early = [])
    (only : ∀ other, .select other ∈ late → other = pin) :
    ∃ last, Reaches (Driven.step env turns outCmdOrDat) driven last ∧ last.todo = [] ∧
      Idle last.sm ∧
      last.sm.directions =
        driven.sm.directions ++ (packetDirections packets).map fun bit => (pin, bit) := by
  have ⟨last, reaches, done, idle', sent⟩ := sends fair idle words on
  have first : OnPin pin driven.sm.directions driven :=
    .waiting early late idle order quiet only rfl
  refine ⟨last, reaches, done, idle', ?_⟩
  cases reaches.kept (fun _ => OnPin.step) first with
  | waiting early' late' _ order' =>
    rw [done] at order'
    exact absurd order'.symm (List.append_ne_nil_of_right_ne_nil _ (List.cons_ne_nil _ _))
  | selected bits _ _ directions =>
    have snd : (bits.map fun bit => (pin, bit)).map Prod.snd = bits := by
      rw [List.map_map]
      exact List.map_id bits
    rw [directions, List.map_append, snd, List.append_cancel_left_eq] at sent
    rw [directions, sent]

end Pins

end Sender

end Fly2040.Firmware
