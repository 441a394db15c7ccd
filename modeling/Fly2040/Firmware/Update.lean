import Fly2040.Firmware.Busk
import Fly2040.Firmware.Mmc
/-!
# Firmware update

The boot block of the eMMC may carry a command. An update command names blocks that hold a new
image; the firmware first replaces the command by the chip-reset word, then writes the image to
the slot that is not running. The image is checked by the bootloader, not here.
-/

namespace Fly2040.Firmware

open Bytes Durable Nor

/-- Command word: chip reset. -/
def chipReset : UInt32 := 0x515205c5

/-- Command word: firmware update. -/
def firmwareUpdate : UInt32 := 0x6db92148

/-- Mark of the payload in the boot block. -/
def payloadMark (mariko : Bool) : UInt32 := if mariko then 0xA56CA203 else 0x69696969

/-- Position of the mark. -/
def markAt : Nat := 0x20

/-- The second buffer with its first half cleared and the chip-reset word in front. -/
def chipResetBlock (tempBuf : Block) : Block := fun index =>
  if index.val < 4 then byte32 chipReset index
  else if index.val < 256 then 0
  else tempBuf index

/-- Read a block in two tries. -/
def readTwice (link : Link) (block : Nat) (failure : Stop) : Boot Unit := do
  if ← cmdMmcRead link block then return
  if ← cmdMmcRead link block then return
  Prog.stop failure

/-- Write a block of the image to flash; the first block of a sector erases it. -/
def programBlock {ε : Type} (offset : Nat) (data : Block) : FlashProg ε Unit := do
  if offset % 0x1000 = 0 then flashRangeErase offset 0x1000
  flashRangeProgram offset (List.ofFn data)

/-- Write `left` blocks of the image from `block` on. -/
def updateBlocks (link : Link) (bootSlot : Slot) (startBlock : Nat) :
    (left block : Nat) → Boot Bool
  | 0, _ => return true
  | left + 1, block => do
    readTwice link block (.finish 12 4)
    let data ← Prog.gets fun world => world.bus.dataBuf
    let curCrc ← Prog.gets fun world => fwCrc world.flash bootSlot
    -- do not allow to write the same firmware twice
    if block = startBlock ∧ curCrc = data.word 4 then return false
    else do
      onFlash (programBlock (fwSlot bootSlot.other + (block - startBlock) * 0x200) data)
      updateBlocks link bootSlot startBlock left (block + 1)

/-- Replace the command by the chip-reset word. -/
def consumeCommand (link : Link) : Boot Unit := do
  let temp ← Prog.gets fun world => chipResetBlock world.bus.tempBuf
  setTempBuf temp
  writeData link 1 temp.memory 512

/-- Write the image if there is one in range; both words all ones ask for the slot that is not
running as it is. -/
def writeImage (link : Link) (bootSlot : Slot) (startBlock sizeBlocks : UInt32) : Boot Bool :=
  -- input validation, in 32-bit arithmetic
  if startBlock = 0xFFFFFFFF ∧ sizeBlocks = 0xFFFFFFFF then return true
  else if startBlock + sizeBlocks > 0x1FFF then return false
  else if sizeBlocks > 0x1C0 ∨ startBlock > 0x1FFF then return false
  else updateBlocks link bootSlot startBlock.toNat sizeBlocks.toNat startBlock.toNat

/-- Consume the command, then write the image. -/
def updateFirmware (link : Link) (bootSlot : Slot) (startBlock sizeBlocks : UInt32) :
    Boot Bool := do
  consumeCommand link
  writeImage link bootSlot startBlock sizeBlocks

/-- Carry out the command of the boot block; the result is whether the boot block carries the
mark of the payload. -/
def fastCheck (link : Link) (mariko : Bool) (bootSlot : Slot) (bootTry : UInt32) : Boot Bool := do
  reinitMmc link
  readTwice link 1 (.finish 11 4)
  let data ← Prog.gets fun world => world.bus.dataBuf
  setVars fun vars => { vars with
    isSpaceBl := vars.isSpaceBl || data.word markAt == payloadMark mariko
    isCommand := vars.isCommand || data.word 0 == chipReset || data.word 0 == firmwareUpdate }
  let update ← if data.word 0 = firmwareUpdate ∧ bootTry = 0 then
      updateFirmware link bootSlot (data.word 4) (data.word 8)
    else pure false
  if update then Prog.stop .reboot -- go to the bootloader and load new firmware
  else Prog.gets fun world => world.vars.isSpaceBl

/-- The first `written` blocks of an image are in flash, and the rest of the sector that the next
one goes to is erased. -/
structure Updated (base : Nat) (image : Nat → UInt8) (written : Nat) (flash : Memory) : Prop where
  /-- The bytes written. -/
  data : ∀ index < 512 * written, flash (base + index) = image index
  /-- The bytes erased. -/
  erased : ∀ index, 512 * written ≤ index → index < 0x1000 * ((written + 7) / 8) →
    flash (base + index) = 0xFF

/-- Only one slot and buffers have changed. -/
structure SlotOnly (slot : Slot) (before after : World) : Prop where
  /-- The eMMC is the same. -/
  mmc : after.mmc = before.mmc
  /-- The variables are the same. -/
  vars : after.vars = before.vars
  /-- Flash outside the slot is the same. -/
  flash : SameOutside (fwSlot slot) (fwSlot slot + slotSize) before.flash after.flash

/-- The image in consecutive blocks of the eMMC. -/
def blockBytes (mmc : Nat → Block) (start index : Nat) : UInt8 :=
  mmc (start + index / 512) ⟨index % 512, Nat.mod_lt _ (by decide)⟩

section Specifications

variable {link : Link} {cid : Cid} {world origin : World} {bootSlot : Slot}

/-- If one of two tries succeeds, the buffer holds the block. -/
theorem readTwice_spec {guarantee : World → BootOp → Prop} (block : Nat) (failure : Stop) :
    (readTwice link block failure).Ensures world guarantee
      (fun _ later => BusOnly world later ∧ later.bus.dataBuf = world.mmc block)
      (fun _ later => BusOnly world later) := by
  refine cmdMmcRead_spec.andThen fun valid second after => ?_
  obtain ⟨same, read, _, _⟩ := after
  cases valid with
  | true => exact (Prog.ensures_pure _).mpr ⟨same, read rfl⟩
  | false =>
    refine cmdMmcRead_spec.andThen fun valid third after => ?_
    obtain ⟨same', read', _, _⟩ := after
    have both := same.trans same'
    cases valid with
    | true => exact (Prog.ensures_pure _).mpr ⟨both, by rw [read' rfl, same.mmc]⟩
    | false => exact (Prog.ensures_stop _).mpr both

/-- The next block of an image is written where the erase of its sector has made room for it. -/
theorem programBlock_spec {ε : Type} {stopped : ε → Memory → Prop} {base written : Nat}
    {image : Nat → UInt8} {flash before : Memory} {data : Block} (aligned : base % 0x1000 = 0)
    (room : written < 0x1C0) (here : ∀ index : Fin 512, data index = image (512 * written + index))
    (updated : Updated base image written flash)
    (agree : SameOutside base (base + slotSize) before flash) :
    (programBlock (ε := ε) (base + written * 0x200) data).Ensures flash
      (fun later operation => operation.Within base (base + slotSize) ∧
        SameOutside base (base + slotSize) before later)
      (fun _ later => SameOutside base (base + slotSize) before later ∧
        Updated base image (written + 1) later) stopped := by
  -- the program of the data into an erased block
  have programmed : ∀ later : Memory, SameOutside base (base + slotSize) before later →
      (∀ index < 512 * written, later (base + index) = image index) →
      (∀ index, 512 * written ≤ index → index < 0x1000 * ((written + 8) / 8) →
        later (base + index) = 0xFF) →
      (flashRangeProgram (ε := ε) (base + written * 0x200) (List.ofFn data)).Ensures later
        (fun later operation => operation.Within base (base + slotSize) ∧
          SameOutside base (base + slotSize) before later)
        (fun _ later => SameOutside base (base + slotSize) before later ∧
          Updated base image (written + 1) later) stopped := by
    intro later agree old erased
    have within : (Op.program (base + written * 0x200) (List.ofFn data)).Within base
        (base + slotSize) := by
      refine ⟨by omega, ?_⟩
      rw [List.length_ofFn]
      unfold slotSize
      omega
    refine (Prog.ensures_issue _ _).mpr ⟨⟨within, agree⟩,
      agree.trans (Op.apply_sameOutside within later), fun index below => ?_,
      fun index low high => ?_⟩
    · by_cases before' : index < 512 * written
      · exact (program_outside later (.inl (by omega))).trans (old index before')
      · have inside : index - 512 * written < 512 := by omega
        have value := program_inside later (base + written * 0x200) (List.ofFn data)
          (index - 512 * written)
        rw [show base + written * 0x200 + (index - 512 * written) = base + index by omega,
          erased index (by omega) (by omega), ones_and, List.getD, List.getElem?_eq_getElem
            (by rw [List.length_ofFn]; exact inside), Option.getD_some, List.getElem_ofFn,
          here] at value
        exact value.trans (congrArg image (by simp only; omega))
    · refine (program_outside later (.inr ?_)).trans (erased index (by omega) (by omega))
      rw [List.length_ofFn]
      omega
  unfold programBlock
  split
  · have within : (Op.erase (base + written * 0x200) 0x1000).Within base (base + slotSize) := by
      refine ⟨by omega, ?_⟩
      unfold slotSize
      omega
    refine Prog.ensures_bind ((Prog.ensures_issue _ _).mpr ⟨⟨within, agree⟩,
      programmed _ (agree.trans (Op.apply_sameOutside within flash)) ?_ ?_⟩)
    · exact fun index below => (erase_outside flash (by omega)).trans (updated.data index below)
    · exact fun index low high => erase_inside flash (by omega) (by omega)
  · exact programmed flash agree updated.data fun index low high =>
      updated.erased index low (by omega)

/-- Slots start with a sector. -/
theorem fwSlot_aligned (slot : Slot) : fwSlot slot % 0x1000 = 0 := by
  unfold fwSlot
  split <;> rfl

/-- A read between two blocks changes buffers alone. -/
theorem SlotOnly.bus {slot : Slot} {later : World} (frame : SlotOnly slot origin world)
    (same : BusOnly world later) : SlotOnly slot origin later :=
  ⟨same.mmc.trans frame.mmc, same.vars.trans frame.vars, by rw [same.flash]; exact frame.flash⟩

/-- The blocks of an image are written to the other slot; nothing else changes, and the whole image
is there if the loop runs to its end. -/
theorem updateBlocks_spec {start : Nat} (left written : Nat) (fits : written + left ≤ 0x1C0)
    (frame : SlotOnly bootSlot.other origin world)
    (updated : Updated (fwSlot bootSlot.other) (blockBytes origin.mmc start) written
      world.flash) :
    (updateBlocks link bootSlot start left (start + written)).Ensures world
      (fun later operation => SlotOnly bootSlot.other origin later ∧ ∃ o, operation = .flash o ∧
        o.Within (fwSlot bootSlot.other) (fwSlot bootSlot.other + slotSize))
      (fun done later => SlotOnly bootSlot.other origin later ∧ (done = true →
        Updated (fwSlot bootSlot.other) (blockBytes origin.mmc start) (written + left)
          later.flash))
      (fun _ later => SlotOnly bootSlot.other origin later) := by
  induction left generalizing world written with
  | zero => exact (Prog.ensures_pure _).mpr ⟨frame, fun _ => updated⟩
  | succ left ih =>
    rw [updateBlocks]
    apply Prog.Ensures.andThen ((readTwice_spec _ _).weakenStop fun _ later same => frame.bus same)
    intro _ later after
    obtain ⟨same, buffer⟩ := after
    have frame' := frame.bus same
    apply Prog.ensures_read
    apply Prog.ensures_read
    split
    · exact (Prog.ensures_pure _).mpr ⟨frame', fun never => nomatch never⟩
    · have here : ∀ index : Fin 512, later.bus.dataBuf index =
          blockBytes origin.mmc start (512 * written + index) := by
        intro index
        have block : start + (512 * written + index.val) / 512 = start + written := by omega
        have byte : (512 * written + index.val) % 512 = index := by omega
        simp only [buffer, frame.mmc, blockBytes, block, byte]
      rw [Nat.add_sub_cancel_left]
      refine Prog.ensures_via (fun _ after =>
        SlotOnly bootSlot.other origin after ∧
          Updated (fwSlot bootSlot.other) (blockBytes origin.mmc start) (written + 1)
            after.flash) (Prog.Ensures.zoom ?_) ?_
      · refine (programBlock_spec (fwSlot_aligned _) (by omega) here
          (by rw [same.flash]; exact updated) frame'.flash).mono ?_ ?_
            fun _ _ (never : False) => never.elim
        · exact fun flash o issued => ⟨⟨frame'.mmc, frame'.vars, issued.2⟩, o, rfl, issued.1⟩
        · exact fun _ flash after => ⟨⟨frame'.mmc, frame'.vars, after.1⟩, after.2⟩
      · intro _ after given
        obtain ⟨frame'', updated'⟩ := given
        have rest := ih (written + 1) (by omega) frame'' updated'
        rwa [show written + 1 + left = written + (left + 1) by omega] at rest

/-- The eMMC stays as it is, and after the first block the image is not refused any more. -/
theorem updateBlocks_done {start : Nat} (left block : Nat) :
    (updateBlocks link bootSlot start left block).Ensures world
      (fun later _ => later.mmc = world.mmc)
      (fun done later => later.mmc = world.mmc ∧ (start < block → done = true))
      (fun _ later => later.mmc = world.mmc) := by
  induction left generalizing world block with
  | zero => exact (Prog.ensures_pure _).mpr ⟨rfl, fun _ => rfl⟩
  | succ left ih =>
    rw [updateBlocks]
    refine Prog.Ensures.andThen ((readTwice_spec _ _).mono (fun _ _ none => none)
      (fun _ _ after => after.1.mmc) fun _ _ same => same.mmc) fun _ second mmc => ?_
    apply Prog.ensures_read
    apply Prog.ensures_read
    split
    · rename_i same
      exact (Prog.ensures_pure _).mpr ⟨mmc, fun later => absurd same.1 (by omega)⟩
    · refine Prog.Ensures.andThen (Prog.ensures_zoom_frame _
        (fun later : World => later.mmc = world.mmc) fun _ => mmc) fun _ third mmc' => ?_
      refine (ih (block + 1)).mono (fun _ _ same => same.trans mmc') ?_
        fun _ _ same => same.trans mmc'
      exact fun done _ after => ⟨after.1.trans mmc', fun later => after.2 (by omega)⟩

/-- The property of the boot block among those of all blocks. -/
def AtBoot (holds : Block → Prop) (block : Nat) (content : Block) : Prop :=
  block = 1 → holds content

/-- Transfers that keep a property of the boot block keep it among those of all blocks. -/
theorem Link.Keeps.atBoot {holds : Block → Prop} (keeps : link.Keeps 1 holds) (block : Nat) :
    link.Keeps block (AtBoot holds block) := by
  refine ⟨fun clock buffer stored old now boot => ?_, fun clock stored buffer old now boot => ?_⟩
  · subst boot
    exact keeps.received _ _ _ (old rfl) (now rfl)
  · subst boot
    exact keeps.written _ _ _ (old rfl) (now rfl)

/-- The eMMC once the command is consumed. -/
def World.consumed (world : World) : Nat → Block :=
  Function.update world.mmc 1 (chipResetBlock world.bus.tempBuf)

/-- Consuming the command writes the boot block alone; if it returns, the command is consumed. -/
theorem consumeCommand_spec {holds : Block → Prop} (keeps : link.Keeps 1 holds)
    (sends : holds (chipResetBlock world.bus.tempBuf)) (stored : holds (world.mmc 1)) :
    (consumeCommand link).Ensures world
      (fun later operation => later.flash = world.flash ∧ holds (later.mmc 1) ∧
        ∃ sent, operation = .write 1 sent)
      (fun _ later => later.flash = world.flash ∧ later.mmc = world.consumed ∧
        later.vars = world.vars)
      (fun _ later => later.flash = world.flash ∧ holds (later.mmc 1)) := by
  apply Prog.ensures_read
  apply Prog.ensures_change
  refine (writeData_spec (AtBoot holds) rfl (fun block _ => keeps.atBoot block) ?_ ?_).mono ?_ ?_
    fun _ later after => ⟨after.1.flash, after.2 1 rfl⟩
  · intro index low _
    obtain rfl : index = 0 := by omega
    rw [Nat.mul_zero, chunk_memory]
    exact sends
  · intro block same
    subst same
    exact stored
  · intro later operation after
    obtain ⟨only, kept, block, sent, rfl, inside, -⟩ := after
    obtain rfl : block = 1 := by unfold InBlocks at inside; omega
    exact ⟨only.flash, kept 1 rfl, sent, rfl⟩
  · intro _ later after
    obtain ⟨only, kept, written⟩ := after
    refine ⟨only.flash, funext fun block => ?_, only.vars⟩
    by_cases boot : block = 1
    · subst boot
      have now := written 0 (by decide)
      rw [Nat.mul_zero, chunk_memory] at now
      rw [World.consumed, Function.update_self]
      exact now
    · refine (only.mmc block fun inside => boot ?_).trans (Function.update_of_ne boot _ _).symm
      unfold InBlocks at inside
      omega

/-- On a reliable line the first of two tries succeeds. -/
theorem readTwice_counts (reliable : link.Reliable cid) {guarantee : World → BootOp → Prop}
    (block : Nat) (failure : Stop) :
    (readTwice link block failure).Counts world 0 guarantee fun _ later =>
      BusOnly world later ∧ later.bus.dataBuf = world.mmc block ∧
        later.bus.cidBuf = world.bus.cidBuf := by
  refine Prog.counts_quietLeft _ (cmdMmcRead_counts reliable) ?_
  intro _ second after
  obtain ⟨rfl, same, buffer, -, card⟩ := after
  exact Prog.counts_pure ⟨same, buffer, card⟩

/-- On a reliable line the command is consumed. -/
theorem consumeCommand_counts (reliable : link.Reliable cid) :
    (consumeCommand link).Counts world 1 (fun _ _ => True) fun _ later =>
      later.flash = world.flash ∧ later.mmc = world.consumed := by
  have kept : ∀ (mmc : Nat → Block) index, 0 ≤ index → index < 0 + 1 → True → True :=
    fun _ _ _ _ _ => trivial
  have counts : (consumeCommand link).Counts world 1 _ _ :=
    Prog.counts_gets (Prog.counts_update (writeBlocks_counts reliable trivial kept))
  refine (counts.both (consumeCommand_spec (link.keeps_true 1) trivial trivial)).mono
    (fun _ _ _ => trivial) fun _ _ after => ⟨after.2.1, after.2.2.1⟩

/-- The range check in 32-bit arithmetic is the one on numbers, because each word is bounded
too. -/
theorem updateRange {startBlock sizeBlocks : UInt32} (sum : ¬ startBlock + sizeBlocks > 0x1FFF)
    (each : ¬ (sizeBlocks > 0x1C0 ∨ startBlock > 0x1FFF)) :
    startBlock.toNat + sizeBlocks.toNat ≤ 0x1FFF ∧ sizeBlocks.toNat ≤ 0x1C0 := by
  simp only [gt_iff_lt, not_or, UInt32.not_lt, UInt32.le_iff_toNat_le, UInt32.toNat_add] at sum each
  have start : startBlock.toNat ≤ 0x1FFF := each.2
  have size : sizeBlocks.toNat ≤ 0x1C0 := each.1
  have total : (startBlock.toNat + sizeBlocks.toNat) % 2 ^ 32 ≤ 0x1FFF := sum
  omega

/-- An operation that changes a slot, in the range of the command. -/
def ImageOp (bootSlot : Slot) (startBlock sizeBlocks : UInt32) (operation : BootOp) : Prop :=
  startBlock.toNat + sizeBlocks.toNat ≤ 0x1FFF ∧ sizeBlocks.toNat ≤ 0x1C0 ∧
    ∃ o, operation = .flash o ∧
      o.Within (fwSlot bootSlot.other) (fwSlot bootSlot.other + slotSize)

/-- Writing the image changes the other slot alone, and if it reports success the whole image is
there, or there was none to write. -/
theorem writeImage_spec (startBlock sizeBlocks : UInt32) :
    (writeImage link bootSlot startBlock sizeBlocks).Ensures world
      (fun later operation => SlotOnly bootSlot.other world later ∧
        ImageOp bootSlot startBlock sizeBlocks operation)
      (fun done later => SlotOnly bootSlot.other world later ∧
        (done = true → ¬ (startBlock = 0xFFFFFFFF ∧ sizeBlocks = 0xFFFFFFFF) →
          ∀ index < sizeBlocks.toNat * 512, later.flash (fwSlot bootSlot.other + index) =
            blockBytes later.mmc startBlock.toNat index))
      (fun _ later => SlotOnly bootSlot.other world later) := by
  have same : SlotOnly bootSlot.other world world := ⟨rfl, rfl, SameOutside.refl _⟩
  rw [writeImage]
  split
  · rename_i rollback
    exact (Prog.ensures_pure _).mpr ⟨same, fun _ other => absurd rollback other⟩
  split
  · exact (Prog.ensures_pure _).mpr ⟨same, fun never => nomatch never⟩
  split
  · exact (Prog.ensures_pure _).mpr ⟨same, fun never => nomatch never⟩
  rename_i sum each
  obtain ⟨range, size⟩ := updateRange sum each
  refine (updateBlocks_spec sizeBlocks.toNat 0 (by omega) same
    ⟨fun _ none => absurd none (by omega), fun _ low none => absurd none (by omega)⟩).mono ?_ ?_
    fun _ _ frame => frame
  · exact fun later operation issued => ⟨issued.1, range, size, issued.2⟩
  · intro done later after
    obtain ⟨frame, updated⟩ := after
    refine ⟨frame, fun success _ index below => ?_⟩
    rw [frame.mmc]
    exact (updated success).data index (by omega)

/-- What holds at each operation of an update: it is a write that consumes the command, or it
changes the other slot after the command was consumed. -/
def UpdateIssued (holds : Block → Prop) (bootSlot : Slot) (startBlock sizeBlocks : UInt32)
    (origin later : World) (operation : BootOp) : Prop :=
  SameOutside (fwSlot bootSlot.other) (fwSlot bootSlot.other + slotSize) origin.flash later.flash ∧
    ((holds (later.mmc 1) ∧ ∃ sent, operation = .write 1 sent) ∨
      (later.mmc = origin.consumed ∧ ImageOp bootSlot startBlock sizeBlocks operation))

/-- An update consumes the command before it changes the other slot, changes nothing else, and if
it reports success it has written the whole image, or there was none to write. -/
theorem updateFirmware_spec {holds : Block → Prop} (startBlock sizeBlocks : UInt32)
    (keeps : link.Keeps 1 holds) (sends : holds (chipResetBlock world.bus.tempBuf))
    (stored : holds (world.mmc 1)) :
    (updateFirmware link bootSlot startBlock sizeBlocks).Ensures world
      (UpdateIssued holds bootSlot startBlock sizeBlocks world)
      (fun done later => SameOutside (fwSlot bootSlot.other) (fwSlot bootSlot.other + slotSize)
          world.flash later.flash ∧
        later.mmc = world.consumed ∧ later.vars = world.vars ∧
        (done = true → ¬ (startBlock = 0xFFFFFFFF ∧ sizeBlocks = 0xFFFFFFFF) →
          ∀ index < sizeBlocks.toNat * 512, later.flash (fwSlot bootSlot.other + index) =
            blockBytes later.mmc startBlock.toNat index))
      (fun _ later => SameOutside (fwSlot bootSlot.other) (fwSlot bootSlot.other + slotSize)
          world.flash later.flash ∧ holds (later.mmc 1)) := by
  have kept : ∀ later : World, later.flash = world.flash → SameOutside (fwSlot bootSlot.other)
      (fwSlot bootSlot.other + slotSize) world.flash later.flash := by
    intro later flash
    rw [flash]
    exact SameOutside.refl _
  refine Prog.Ensures.andThen ((consumeCommand_spec keeps sends stored).mono
    (fun later _ issued => ⟨kept later issued.1, .inl issued.2⟩) (fun _ _ after => after)
    fun _ later after => ⟨kept later after.1, after.2⟩) ?_
  intro _ second after
  obtain ⟨flash, mmc, vars⟩ := after
  have consumed : holds (second.mmc 1) := by
    rw [mmc, World.consumed, Function.update_self]
    exact sends
  refine (writeImage_spec startBlock sizeBlocks).mono ?_ ?_ ?_
  · intro later operation after
    obtain ⟨frame, image⟩ := after
    exact ⟨flash ▸ frame.flash, .inr ⟨frame.mmc.trans mmc, image⟩⟩
  · intro done later after
    obtain ⟨frame, copied⟩ := after
    exact ⟨flash ▸ frame.flash, frame.mmc.trans mmc, frame.vars.trans vars, copied⟩
  · intro _ later frame
    exact ⟨flash ▸ frame.flash, by rw [frame.mmc]; exact consumed⟩

/-- The block that replaces a command carries the chip-reset word. -/
theorem chipResetBlock_word (tempBuf : Block) : (chipResetBlock tempBuf).word 0 = chipReset := by
  refine word32_of_bytes fun offset inside => ?_
  rw [Nat.zero_add, Block.memory, dif_pos (by omega), chipResetBlock, if_pos inside]

/-- The boot block asks for an update that the firmware carries out. -/
def UpdateAsked (bootTry : UInt32) (world : World) : Prop :=
  (world.mmc 1).word 0 = firmwareUpdate ∧ bootTry = 0

/-- What the check of the boot block has changed so far: nothing if no update is asked for, else
the boot block and the other slot. -/
structure CheckOnly (holds : Block → Prop) (bootSlot : Slot) (bootTry : UInt32)
    (before after : World) : Prop where
  /-- Flash outside the other slot is the same. -/
  flash : SameOutside (fwSlot bootSlot.other) (fwSlot bootSlot.other + slotSize) before.flash
    after.flash
  /-- The boot block has the property. -/
  boot : holds (after.mmc 1)
  /-- Without an update nothing durable has changed. -/
  idle : ¬ UpdateAsked bootTry before → after.flash = before.flash ∧ after.mmc = before.mmc

/-- What holds at each operation of the check: an update is asked for, and the operation consumes
the command or, once it is consumed, changes the other slot. -/
def CheckIssued (holds : Block → Prop) (bootSlot : Slot) (bootTry : UInt32)
    (origin later : World) (operation : BootOp) : Prop :=
  UpdateAsked bootTry origin ∧ CheckOnly holds bootSlot bootTry origin later ∧
    ((∃ sent, operation = .write 1 sent) ∨ (later.mmc 1).word 0 = chipReset ∧
      ∃ o, operation = .flash o ∧
        o.Within (fwSlot bootSlot.other) (fwSlot bootSlot.other + slotSize))

/-- The check of the boot block changes something only for an update, and its flags are those of
the boot block at its start. -/
theorem fastCheck_spec {holds : Block → Prop} (mariko : Bool) (bootTry : UInt32)
    (keeps : link.Keeps 1 holds) (sends : ∀ tempBuf, holds (chipResetBlock tempBuf))
    (stored : holds (world.mmc 1)) :
    (fastCheck link mariko bootSlot bootTry).Ensures world
      (CheckIssued holds bootSlot bootTry world)
      (fun space later => CheckOnly holds bootSlot bootTry world later ∧
        space = later.vars.isSpaceBl ∧
        later.vars.isSpaceBl = (world.vars.isSpaceBl ||
          (world.mmc 1).word markAt == payloadMark mariko) ∧
        later.vars.isCommand = (world.vars.isCommand || (world.mmc 1).word 0 == chipReset ||
          (world.mmc 1).word 0 == firmwareUpdate) ∧
        later.vars.wasSelfReset = world.vars.wasSelfReset)
      (fun _ later => CheckOnly holds bootSlot bootTry world later) := by
  have quiet : ∀ later : World, later.flash = world.flash → later.mmc = world.mmc →
      CheckOnly holds bootSlot bootTry world later := fun later flash mmc =>
    ⟨by rw [flash]; exact SameOutside.refl _, by rw [mmc]; exact stored, fun _ => ⟨flash, mmc⟩⟩
  rw [fastCheck]
  apply Prog.Ensures.andThen ((reinitMmcTries_spec 10).weakenStop
    fun _ later same => quiet later same.flash same.mmc)
  intro _ second after
  obtain ⟨same, -⟩ := after
  apply Prog.Ensures.andThen ((readTwice_spec _ _).weakenStop
    fun _ later same' => quiet later (same.trans same').flash (same.trans same').mmc)
  intro _ third after
  obtain ⟨same', buffer⟩ := after
  have both := same.trans same'
  have boot : third.bus.dataBuf = world.mmc 1 := by rw [buffer, same.mmc]
  apply Prog.ensures_read
  apply Prog.ensures_change
  rw [boot]
  split
  · -- the update, from a world that differs from the first one in memory alone
    rename_i asked
    have mine : UpdateAsked bootTry world := asked
    refine Prog.Ensures.andThen ((updateFirmware_spec _ _ keeps (sends _)
      (by rw [both.mmc]; exact stored)).mono ?_ (fun _ _ after => after) ?_) ?_
    · intro later operation after
      obtain ⟨flash, issued⟩ := after
      rw [both.flash] at flash
      rcases issued with ⟨kept, sent, rfl⟩ | ⟨mmc, -, -, issued⟩
      · exact ⟨mine, ⟨flash, kept, fun idle => absurd mine idle⟩, .inl ⟨sent, rfl⟩⟩
      · have now : later.mmc 1 = _ := (congrFun mmc 1).trans (Function.update_self _ _ _)
        exact ⟨mine, ⟨flash, now ▸ sends _, fun idle => absurd mine idle⟩,
          .inr ⟨now ▸ chipResetBlock_word _, issued⟩⟩
    · intro _ later after
      obtain ⟨flash, kept⟩ := after
      rw [both.flash] at flash
      exact ⟨flash, kept, fun idle => absurd mine idle⟩
    · intro done later after
      obtain ⟨flash, mmc, vars, -⟩ := after
      rw [both.flash] at flash
      have now : later.mmc 1 = _ := (congrFun mmc 1).trans (Function.update_self _ _ _)
      have only : CheckOnly holds bootSlot bootTry world later :=
        ⟨flash, now ▸ sends _, fun idle => absurd mine idle⟩
      cases done with
      | true => exact (Prog.ensures_stop _).mpr only
      | false =>
        refine (Prog.ensures_gets _).mpr ⟨only, rfl, ?_⟩
        rw [vars]
        exact ⟨by rw [← both.vars], by rw [← both.vars], by rw [← both.vars]⟩
  · refine Prog.ensures_bind ((Prog.ensures_pure _).mpr ((Prog.ensures_gets _).mpr
      ⟨quiet _ both.flash both.mmc, rfl, ?_⟩))
    exact ⟨by rw [← both.vars], by rw [← both.vars], by rw [← both.vars]⟩

/-- For every running slot, command, eMMC and flash: flash is only changed for an image inside the
command area that fits the slot, and only in the slot that is not running; and an update that
reports success has copied every byte of the image as it is stored once the command is consumed. -/
theorem updateFirmware_correct (link : Link) (bootSlot : Slot) (startBlock sizeBlocks : UInt32)
    (world : World) :
    let run := updateFirmware link bootSlot startBlock sizeBlocks world
    (∀ event ∈ run.trace, ∀ operation, event.2 = .flash operation →
      startBlock.toNat + sizeBlocks.toNat ≤ 0x1FFF ∧ sizeBlocks.toNat ≤ 0x1C0 ∧
      operation.Within (fwSlot bootSlot.other) (fwSlot bootSlot.other + 0x38000)) ∧
    (∀ performed, SameOutside (fwSlot bootSlot.other) (fwSlot bootSlot.other + 0x38000)
      world.flash (run.cutAt performed).flash) ∧
    (run.outcome = .ok true → ¬ (startBlock = 0xFFFFFFFF ∧ sizeBlocks = 0xFFFFFFFF) →
      run.final.mmc = Function.update world.mmc 1 (chipResetBlock world.bus.tempBuf) ∧
      ∀ index < sizeBlocks.toNat * 512, run.final.flash (fwSlot bootSlot.other + index) =
        blockBytes run.final.mmc startBlock.toNat index) := by
  intro run
  have spec : (updateFirmware link bootSlot startBlock sizeBlocks).Ensures world _ _ _ :=
    updateFirmware_spec startBlock sizeBlocks (link.keeps_true 1) trivial trivial
  refine ⟨fun event member operation same => ?_, fun performed => ?_, fun success image => ?_⟩
  · rcases (spec.issued event member).2 with ⟨-, sent, write⟩ | ⟨-, range, size, o, flash, within⟩
    · rw [write] at same
      cases same
    · rw [flash] at same
      cases same
      exact ⟨range, size, within⟩
  · exact spec.cutAt (fun _ _ issued => issued.1) (fun _ _ after => after.1)
      (fun _ _ after => after.1) performed
  · obtain ⟨-, mmc, -, copied⟩ := spec.returned true success
    exact ⟨mmc, copied rfl image⟩

end Specifications

end Fly2040.Firmware
