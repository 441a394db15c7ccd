import Fly2040.Firmware.Frames
import Fly2040.Firmware.Receiver
/-!
# Transfers to and from the eMMC

Commands and blocks are packets of the machine that sends, so each of them comes out of it bit by
bit, and any number of them in order. What comes out for a block is what the machines that receive
take in as the same block with its checksum.
-/

namespace Fly2040.Firmware

open Bits Pio Remainder Sender Steps

/-- Levels of lines: a pin that is driven is low, and one that is released is pulled up. -/
def levels (directions : List (Nat × Bool)) : List (Nat × Bool) :=
  directions.map fun (pin, driven) => (pin, !driven)

/-- Levels are the opposite of directions. -/
theorem levels_snd (directions : List (Nat × Bool)) :
    (levels directions).map Prod.snd = (directions.map Prod.snd).map (!·) := by
  rw [levels, List.map_map, List.map_map]
  rfl

/-- Calls that send. -/
inductive Transfer where
  /-- A command is sent. -/
  | cmdWrite (cmd : UInt8) (argument : UInt32)
  /-- A block is sent. -/
  | datWrite (buffer : Block)

namespace Transfer

/-- What the host does. -/
def actions : Transfer → List Action
  | cmdWrite cmd argument => Firmware.cmdWrite cmd argument
  | datWrite buffer => Firmware.datWrite buffer

/-- The pin of the line. -/
def pin : Transfer → Nat
  | cmdWrite _ _ => pinCmd
  | datWrite _ => pinDat

/-- Bits on the line. -/
def frame : Transfer → List Bool
  | cmdWrite cmd argument => cmdFrame cmd argument
  | datWrite buffer => datFrame buffer

/-- The packet of the machine that sends. -/
def packet : Transfer → Packet
  | cmdWrite cmd argument => cmdPacket cmd argument
  | datWrite buffer => datPacket buffer

/-- The words that are put are the inverse ones. -/
theorem map_put (words : List UInt32) :
    words.map (fun word => Action.put (~~~word)) = (words.map (~~~·)).map .put := by
  rw [List.map_map]
  rfl

/-- The host chooses the pin while the machine is switched off, and puts the words of the packet. -/
theorem actions_eq (call : Transfer) :
    call.actions =
      [.enable false, .select call.pin, .enable true] ++ call.packet.words.map .put := by
  cases call with
  | cmdWrite cmd argument => rw [actions, Firmware.cmdWrite, map_put, pin, packet, cmdPacket]
  | datWrite buffer => rw [actions, Firmware.datWrite, map_put, pin, packet, datPacket]

/-- The packet drives the line where the frame has a zero. -/
theorem packet_directions (call : Transfer) : call.packet.directions = call.frame.map (!·) := by
  cases call with
  | cmdWrite => rfl
  | datWrite => rfl

/-- The words that the host puts are those of the packet. -/
theorem puts_actions (call : Transfer) : puts call.actions = call.packet.words := by
  rw [actions_eq]
  show puts (call.packet.words.map .put) = _
  rw [puts, List.filterMap_map]
  exact List.filterMap_some

/-- The words of calls in order. -/
theorem puts_calls (calls : List Transfer) :
    puts (calls.flatMap actions) = packetWords (calls.map packet) := by
  induction calls with
  | nil => rfl
  | cons call calls ih =>
    rw [List.flatMap_cons, puts, List.filterMap_append]
    show puts call.actions ++ puts (calls.flatMap actions) = _
    rw [puts_actions, ih]
    rfl

/-- The directions of calls in order are the opposite of their frames. -/
theorem directions_calls (calls : List Transfer) :
    (packetDirections (calls.map packet)).map (!·) = calls.flatMap frame := by
  induction calls with
  | nil => rfl
  | cons call calls ih =>
    show (call.packet.directions ++ packetDirections (calls.map packet)).map (!·) = _
    rw [List.map_append, ih, packet_directions, List.flatMap_cons, List.map_map,
      List.append_cancel_right_eq]
    exact (List.map_congr_left fun bit _ => Bool.not_not bit).trans (List.map_id _)

/-- Words that are put do not switch the machine off. -/
theorem foldl_puts (words : List UInt32) (sm : Sm) :
    ((words.map Action.put).foldl Action.apply sm).enabled = sm.enabled := by
  induction words generalizing sm with
  | nil => rfl
  | cons word words ih => exact ih _

/-- Every call leaves the machine switched on. -/
theorem foldl_calls (calls : List Transfer) {sm : Sm} (on : sm.enabled = true) :
    ((calls.flatMap actions).foldl Action.apply sm).enabled = true := by
  induction calls generalizing sm with
  | nil => exact on
  | cons call calls ih =>
    rw [List.flatMap_cons, List.foldl_append]
    apply ih
    rw [actions_eq, List.foldl_append, foldl_puts]
    rfl

section Runs

variable {env : Env} {turns : Nat → Nat} {sm : Sm}

/-- A call from a machine that waits sends its frame on its line. -/
theorem sends (call : Transfer) (idle : Idle sm) (on : sm.enabled = true) (fair : Fair env turns) :
    ∃ last, Reaches (Driven.step env turns outCmdOrDat) ⟨sm, call.actions⟩ last ∧
      last.todo = [] ∧ Idle last.sm ∧
      levels last.sm.directions =
        levels sm.directions ++ call.frame.map fun bit => (call.pin, bit) := by
  have words : puts call.actions = packetWords [call.packet] := by
    rw [puts_actions, packetWords, List.flatMap_singleton]
  have on' : (call.actions.foldl Action.apply sm).enabled = true := by
    have single := foldl_calls [call] on
    rw [List.flatMap_singleton] at single
    exact single
  have only : ∀ other, .select other ∈ Action.enable true :: call.packet.words.map .put →
      other = call.pin := by
    intro other inside
    simp at inside
  obtain ⟨last, reaches, done, idle', sent⟩ :=
    @sends_on [call.packet] env turns call.pin ⟨sm, call.actions⟩ [.enable false] _ fair idle words
      on' (actions_eq call) rfl only
  refine ⟨last, reaches, done, idle', ?_⟩
  rw [sent, levels, levels, List.map_append, packetDirections, List.flatMap_singleton,
    packet_directions]
  rw [List.map_map, List.map_map, List.append_cancel_left_eq]
  apply List.map_congr_left
  intro bit _
  simp

/-- Calls one after the other send their frames, however far the host gets ahead of the machine. -/
theorem all_sent (calls : List Transfer) (idle : Idle sm) (on : sm.enabled = true)
    (fair : Fair env turns) :
    ∃ last, Reaches (Driven.step env turns outCmdOrDat) ⟨sm, calls.flatMap actions⟩ last ∧
      last.todo = [] ∧ Idle last.sm ∧
      (levels last.sm.directions).map Prod.snd =
        (levels sm.directions).map Prod.snd ++ calls.flatMap frame := by
  have ⟨last, reaches, done, idle', sent⟩ :=
    @Sender.sends (calls.map packet) env turns ⟨sm, calls.flatMap actions⟩ fair idle
      (puts_calls calls) (foldl_calls calls on)
  refine ⟨last, reaches, done, idle', ?_⟩
  rw [levels_snd, sent, List.map_append, directions_calls, levels_snd]

/-- Whenever the machine is about to take a count, it has taken the words of whole calls and sent
their frames; the words that are left are those of the other calls. -/
theorem calls_aligned (calls : List Transfer) {last : Driven} (idle : Idle sm)
    (reaches : Reaches (Driven.step env turns outCmdOrDat) ⟨sm, calls.flatMap actions⟩ last)
    (place : last.sm.pc = 0) :
    ∃ done rest, calls = done ++ rest ∧ last.sm.osr = [] ∧
      last.ahead = puts (rest.flatMap actions) ∧
      (levels last.sm.directions).map Prod.snd =
        (levels sm.directions).map Prod.snd ++ done.flatMap frame := by
  have ⟨done, rest, whole, empty, ahead, sent⟩ := aligned idle (puts_calls calls) reaches place
  have ⟨done', rest', split, first, second⟩ := List.map_eq_append_iff.mp whole
  subst first second
  refine ⟨done', rest', split, empty, ?_, ?_⟩
  · rw [ahead, puts_calls]
  · rw [levels_snd, sent, List.map_append, directions_calls, levels_snd]

end Runs

end Transfer

/-- The machine that sends as it is set up. -/
def startMmc : Sm where
  pc := 0
  x := 0
  y := 0
  osr := []
  isr := []
  tx := []
  rx := []
  outBase := pinCmd
  enabled := true
  delay := 0
  cycle := 0
  directions := []
  cleared := []

/-- A clock that ticks in the second cycle of every period, and lines that are released. -/
def ticking : Env where
  pin _ _ := true
  released cycle _ := cycle % 2 = 1

/-- A host that gets one action further in every cycle goes on. -/
theorem ticking_fair : Fair ticking fun _ => 1 where
  host time := ⟨time, Nat.le_refl _, Nat.one_pos⟩
  clock time := ⟨2 * time + 1, by omega, by simp [ticking]⟩

/-- A command below 64 comes out of the machine as its number, its argument and the remainder of
both between fixed bits, and the released line; and however many commands and blocks are sent, and
however far the host gets ahead, the machine takes the words of each as a whole. -/
theorem command_framed (cmd : UInt8) (argument : UInt32) (small : cmd < 64) (sm : Sm)
    (idle : Idle sm) (on : sm.enabled = true) (calls : List Transfer) :
    (∃ crc : List Bool, crc.length = 7 ∧
      ofBits crc =
        (ofBits ([false, true] ++ ((ofByte cmd).drop 2 ++ ofWord argument)) * Polynomial.X ^ 7) %ₘ
          (Polynomial.X ^ 7 + Polynomial.X ^ 3 + 1) ∧
      ∀ env turns, Fair env turns → ∃ last,
        Reaches (Driven.step env turns outCmdOrDat) ⟨sm, cmdWrite cmd argument⟩ last ∧
        last.todo = [] ∧ Idle last.sm ∧
        levels last.sm.directions =
          levels sm.directions ++
            ([false, true] ++ ((ofByte cmd).drop 2 ++ ofWord argument) ++ (crc ++ [true, true])).map
              fun bit => (pinCmd, bit)) ∧
    (∀ env turns last,
      Reaches (Driven.step env turns outCmdOrDat) ⟨sm, calls.flatMap Transfer.actions⟩ last →
      last.sm.pc = 0 → ∃ done rest, calls = done ++ rest ∧ last.sm.osr = [] ∧
        last.ahead = puts (rest.flatMap Transfer.actions) ∧
        (levels last.sm.directions).map Prod.snd =
          (levels sm.directions).map Prod.snd ++ done.flatMap Transfer.frame) ∧
    ∀ env turns, Fair env turns → ∃ last,
      Reaches (Driven.step env turns outCmdOrDat) ⟨sm, calls.flatMap Transfer.actions⟩ last ∧
      last.todo = [] ∧ Idle last.sm ∧
      (levels last.sm.directions).map Prod.snd =
        (levels sm.directions).map Prod.snd ++ calls.flatMap Transfer.frame := by
  refine ⟨⟨crc7Bits (cmdHead cmd argument), highFirst_length _, ?_, ?_⟩, ?_, ?_⟩
  · rw [crc7Bits_remainder, cmdHead_bits cmd argument small]
  · intro env turns fair
    rw [← cmdHead_bits cmd argument small, ← cmdFrame_eq]
    exact Transfer.sends (.cmdWrite cmd argument) idle on fair
  · intro env turns last reaches place
    exact Transfer.calls_aligned calls idle reaches place
  · intro env turns fair
    exact Transfer.all_sent calls idle on fair

/-- A read command comes out of the machine as it is set up. -/
theorem read_framed :
    ∃ crc : List Bool, crc.length = 7 ∧ ∃ last,
      Reaches (Driven.step ticking (fun _ => 1) outCmdOrDat) ⟨startMmc, cmdWrite 17 0⟩ last ∧
      levels last.sm.directions =
        ([false, true] ++ ((ofByte 17).drop 2 ++ ofWord 0) ++ (crc ++ [true, true])).map
          fun bit => (pinCmd, bit) := by
  have ⟨⟨crc, seven, _, sent⟩, _⟩ :=
    command_framed 17 0 (by decide) startMmc ⟨rfl, rfl, rfl⟩ rfl []
  have ⟨last, reaches, _, _, same⟩ := sent ticking (fun _ => 1) ticking_fair
  exact ⟨crc, seven, last, reaches, same⟩

section Received

variable (buffer : Block)

/-- Bits of a half word are those of its bytes, the higher one first. -/
theorem ofHalf_bytes (half : UInt16) :
    ofHalf half = ofBytes [(half >>> 8).toUInt8, half.toUInt8] := by
  simp [-BitVec.getLsbD_eq_getElem, ofHalf_eq, ofByte_eq]

/-- Bytes in a half word, the higher one first. -/
theorem ofHalf_of_bytes (high low : UInt8) :
    ofHalf (high.toUInt16 <<< 8 ||| low.toUInt16) = ofBytes [high, low] := by
  simp [-BitVec.getLsbD_eq_getElem, ofHalf_eq, ofByte_eq]

/-- A half word is put together again from its bytes. -/
theorem half_join (half : UInt16) :
    (half >>> 8).toUInt8.toUInt16 <<< 8 ||| half.toUInt8.toUInt16 = half := by
  apply UInt16.toBitVec_inj.mp
  apply highFirst_injective
  show ofHalf _ = ofHalf half
  rw [ofHalf_of_bytes, ofHalf_bytes]

/-- A block with its checksum is received as the block, with a checksum that is right. -/
theorem mmcReceived_block (held : Block) :
    mmcReceived held (List.ofFn buffer ++ [(crcItuT (List.ofFn buffer) >>> 8).toUInt8,
        (crcItuT (List.ofFn buffer)).toUInt8], true) =
      ⟨true, buffer, crcItuT (List.ofFn buffer)⟩ := by
  have length : (List.ofFn buffer).length = 512 := List.length_ofFn
  generalize crcItuT (List.ofFn buffer) = crc
  have data : ∀ index : Fin 512,
      (List.ofFn buffer ++ [(crc >>> 8).toUInt8, crc.toUInt8]).getD index (held index) =
        buffer index := by
    intro index
    rw [List.getD_append _ _ _ _ (by rw [length]; exact index.isLt),
      List.getD_eq_getElem _ _ (by rw [length]; exact index.isLt), List.getElem_ofFn]
  have high : (List.ofFn buffer ++ [(crc >>> 8).toUInt8, crc.toUInt8]).getD 512 0 =
      (crc >>> 8).toUInt8 := by
    rw [List.getD_append_right _ _ _ _ (Nat.le_of_eq length), length]
    rfl
  have low : (List.ofFn buffer ++ [(crc >>> 8).toUInt8, crc.toUInt8]).getD 513 0 = crc.toUInt8 := by
    rw [List.getD_append_right _ _ _ _ (by rw [length]; decide), length]
    rfl
  rw [mmcReceived]
  dsimp only
  rw [high, low, half_join, funext data]

end Received

/-- A block comes out of the machine that sends as a start bit, its data, its checksum, a stop bit
and the released line, and what comes out is received as the same block with a checksum that is
right, if no time runs out. -/
theorem block_framed (buffer : Block) :
    (datWriteWords buffer).length = 130 ∧
    (∀ sm env turns, Idle sm → sm.enabled = true → Fair env turns → ∃ last,
      Reaches (Driven.step env turns outCmdOrDat) ⟨sm, datWrite buffer⟩ last ∧
      last.todo = [] ∧ Idle last.sm ∧
      levels last.sm.directions =
        levels sm.directions ++
          ([false] ++ (ofBytes (List.ofFn buffer) ++
            (ofHalf (crcItuT (List.ofFn buffer)) ++ [true, true]))).map fun bit => (pinDat, bit)) ∧
    ∀ sm env, Receiver.Ready sm →
      Receiver.Reception env sm.cycle
        ([false] ++ (ofBytes (List.ofFn buffer) ++
          (ofHalf (crcItuT (List.ofFn buffer)) ++ [true, true]))) →
      ∃ last, Reaches (step env inCmdOrDat) (datReadRequest 514 sm) last ∧ last.pc = 0 ∧
        ∀ (held : Block) polls, polls.filterMap id = last.rx →
          (datReadData 514 polls).2 = true ∧ (datReadData 514 polls).1.length = 514 ∧
          (datReadData 514 polls).1.take 512 = List.ofFn buffer ∧
          (mmcReceived held (datReadData 514 polls)).block = buffer ∧
          (mmcReceived held (datReadData 514 polls)).valid = true := by
  refine ⟨datWriteWords_length buffer, ?_, ?_⟩
  · intro sm env turns idle on fair
    exact Transfer.sends (.datWrite buffer) idle on fair
  · intro sm env ready reception
    have size : (ofBytes (List.ofFn buffer) ++ ofHalf (crcItuT (List.ofFn buffer))).length =
        514 * 8 := by
      rw [List.length_append, ofBytes_length, List.length_ofFn, ofHalf_length]
    rw [← List.append_assoc (ofBytes _)] at reception
    have ⟨last, reaches, place, rx⟩ :=
      Receiver.receives ready (by decide) size (by decide) reception
    refine ⟨last, reaches, place, ?_⟩
    intro held polls found
    have inside := List.take_prefix ((514 + 3) / 4) last.rx
    nth_rewrite 1 [rx] at inside
    rw [← found] at inside
    have ⟨bits, all⟩ := Receiver.datReadData_found
      (Receiver.found_of_pushed (size.trans (Nat.mul_comm _ _)) inside)
    rw [ofHalf_bytes, ← ofBytes_append] at bits
    have bytes := ofBytes_injective bits
    have whole : datReadData 514 polls =
        (List.ofFn buffer ++ [(crcItuT (List.ofFn buffer) >>> 8).toUInt8,
          (crcItuT (List.ofFn buffer)).toUInt8], true) := Prod.ext bytes all
    have length : (List.ofFn buffer).length = 512 := List.length_ofFn
    rw [whole, mmcReceived_block]
    refine ⟨rfl, ?_, List.take_left' length, rfl, Received.valid_whole buffer⟩
    rw [List.length_append, length]
    rfl

/-- A block of zeros comes out of the machine as it is set up, and is received again from a line
that carries it. -/
theorem zeros_framed :
    (∃ last, Reaches (Driven.step ticking (fun _ => 1) outCmdOrDat)
        ⟨startMmc, datWrite fun _ => 0⟩ last ∧ last.sm.pc = 0) ∧
      ∃ line last, Reaches (step line inCmdOrDat) (datReadRequest 514 startMmc) last ∧
        (mmcReceived (fun _ => 0xFF) (datReadData 514 (last.rx.map some))).valid = true := by
  have ⟨_, sent, received⟩ := block_framed fun _ => 0
  have ⟨last, reaches, _, idle, _⟩ :=
    sent startMmc ticking (fun _ => 1) ⟨rfl, rfl, rfl⟩ rfl ticking_fair
  have ⟨last', reaches', _, read⟩ := received startMmc _ ⟨rfl, rfl, rfl, rfl⟩
    (Receiver.replayReception 0 _)
  have found : (last'.rx.map some).filterMap id = last'.rx := by
    rw [List.filterMap_map]
    exact List.filterMap_some
  exact ⟨⟨last, reaches, idle.pc⟩, _, last', reaches', (read _ _ found).2.2.2.2⟩

end Fly2040.Firmware
