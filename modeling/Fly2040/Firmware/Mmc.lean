import Fly2040.Firmware.Config
import Fly2040.Lib.Moments
import Mathlib.Data.Fintype.Pi
/-!
# eMMC access

The firmware reads and writes single blocks of the eMMC over a line it drives itself. The line
is a parameter: it says what each transfer does, and it may fail at any time. Its one law is
that a block received with a correct checksum is the block that is stored. Every write is
read back, so a write that returns has stored its data, whatever failed on the way.
-/

namespace Fly2040.Firmware

open Bytes Durable Nor

/-- A block of the eMMC. -/
abbrev Block := Fin 512 → UInt8

namespace Block

/-- The bytes of a block from address zero. -/
def memory (block : Block) : Memory := fun address =>
  if inside : address < 512 then block ⟨address, inside⟩ else 0

/-- The word at an offset of a block. -/
def word (block : Block) (offset : Nat) : UInt32 := word32 block.memory offset

end Block

/-- The 512 bytes from an offset of a byte array. -/
def chunk (data : Memory) (offset : Nat) : Block := fun index => data (offset + index)

/-- The first bytes of a block are the block. -/
@[simp] theorem chunk_memory (block : Block) : chunk block.memory 0 = block := by
  funext index
  simp [chunk, Block.memory]

/-- Entry of the checksum table. -/
def crcItuTEntry (index : UInt8) : UInt16 :=
  (List.range 8).foldl (fun crc _ =>
    if crc &&& 0x8000 ≠ 0 then (crc <<< 1) ^^^ 0x1021 else crc <<< 1) (index.toUInt16 <<< 8)

/-- Advance the checksum by one byte. -/
def crcItuTByte (crc : UInt16) (data : UInt8) : UInt16 :=
  (crc <<< 8) ^^^ crcItuTEntry ((crc >>> 8) ^^^ data.toUInt16).toUInt8

/-- Checksum of eMMC data. -/
def crcItuT (bytes : List UInt8) : UInt16 := bytes.foldl crcItuTByte 0

/-- What a read transfer leaves in the buffer. -/
structure Received where
  /-- All bytes have arrived before the timeout. -/
  completed : Bool
  /-- The data in the buffer. -/
  block : Block
  /-- The checksum in the buffer. -/
  crc : UInt16

/-- What a write transfer does. -/
structure Written where
  /-- The command was answered, so the data is sent. -/
  answered : Bool
  /-- The contents of the block after the data was sent. -/
  stored : Block
  /-- The data line was released in time. -/
  released : Bool

/-- The checksum at the end of the data is the checksum of the data. -/
def Received.valid (got : Received) : Bool :=
  got.completed && crcItuT (List.ofFn got.block) == got.crc

/-- Data that has arrived with its own checksum is valid. -/
theorem Received.valid_whole (block : Block) :
    (Received.mk true block (crcItuT (List.ofFn block))).valid = true := by
  simp only [Received.valid, beq_self_eq_true, Bool.and_true]

/-- The line to the eMMC: what each transfer does, given the number of transfers before it. -/
structure Link where
  /-- Initialisation, with the card identification if it succeeds. -/
  init : Nat → Option Cid
  /-- A read of a block with given contents into a buffer with given contents. -/
  receive : (clock block : Nat) → (buffer stored : Block) → Received
  /-- A write to a block with given contents of the contents of the buffer. -/
  write : (clock block : Nat) → (stored buffer : Block) → Written
  /-- Data received with its checksum is the data stored. -/
  sound : ∀ clock block buffer stored, (receive clock block buffer stored).valid = true →
    (receive clock block buffer stored).block = stored

/-- Buffers of the firmware. -/
structure Bus where
  /-- Number of transfers so far. -/
  clock : Nat
  /-- Data buffer of all transfers. -/
  dataBuf : Block
  /-- Second block buffer. -/
  tempBuf : Block
  /-- Card identification of the last initialisation. -/
  cidBuf : Cid

/-- Flags of a boot. -/
structure Vars where
  /-- The boot block carries the mark of the payload. -/
  isSpaceBl : Bool
  /-- The boot block carries a command. -/
  isCommand : Bool
  /-- This boot rewrites the payload of its own accord. -/
  wasSelfReset : Bool

/-- All that a boot works on: flash and eMMC, which outlive it, and its memory. -/
structure World where
  /-- NOR flash. -/
  flash : Memory
  /-- Contents of every eMMC block. -/
  mmc : Nat → Block
  /-- Buffers. -/
  bus : Bus
  /-- Flags. -/
  vars : Vars

/-- Something a boot does that outlives it, or that marks a point of its run. -/
inductive BootOp where
  /-- An operation of the flash controller. -/
  | flash (operation : Nor.Op)
  /-- The data of an eMMC write is sent. -/
  | write (block : Nat) (data : Block)
  /-- A payload rewrite has made its last write. -/
  | rewritten

/-- Why a boot ends. -/
inductive Stop where
  /-- The firmware shows a code. -/
  | finish (err bits : Nat)
  /-- The firmware reboots into the bootloader. -/
  | reboot
deriving DecidableEq

/-- A program of the firmware. -/
abbrev Boot (α : Type) := Prog World BootOp Stop α

/-- A program on the flash alone. -/
def onFlash {α : Type} (program : FlashProg Stop α) : Boot α :=
  Prog.zoom World.flash (fun world flash => { world with flash }) BootOp.flash program

/-- Change a flag. -/
def setVars (change : Vars → Vars) : Boot Unit :=
  Prog.update fun world => { world with vars := change world.vars }

/-- Fill the data buffer. -/
def setDataBuf (data : Block) : Boot Unit :=
  Prog.update fun world => { world with bus.dataBuf := data }

/-- Fill the second buffer. -/
def setTempBuf (data : Block) : Boot Unit :=
  Prog.update fun world => { world with bus.tempBuf := data }

section Transfers

variable (link : Link)

/-- Initialise the eMMC. -/
def mmcInitialize : Boot Bool := do
  let answer ← Prog.gets fun world => link.init world.bus.clock
  Prog.update fun world => { world with
    bus.clock := world.bus.clock + 1
    bus.cidBuf := answer.getD world.bus.cidBuf }
  return answer.isSome

/-- Try the initialisation a number of times. -/
def reinitMmcTries : (tries : Nat) → Boot Unit
  | 0 => Prog.stop (.finish 8 4)
  | tries + 1 => do
    if ← mmcInitialize link then return
    reinitMmcTries tries

/-- Initialise the eMMC, in at most ten tries. -/
def reinitMmc : Boot Unit := reinitMmcTries link 10

/-- Read a block into the data buffer. -/
def cmdMmcRead (block : Nat) : Boot Bool := do
  let got ← Prog.gets fun world =>
    link.receive world.bus.clock block world.bus.dataBuf (world.mmc block)
  Prog.update fun world => { world with
    bus.clock := world.bus.clock + 1
    bus.dataBuf := got.block }
  return got.valid

/-- Write the data buffer to a block. -/
def cmdMmcWrite (block : Nat) : Boot Bool := do
  let sent ← Prog.gets fun world => world.bus.dataBuf
  let done ← Prog.gets fun world => link.write world.bus.clock block (world.mmc block) sent
  Prog.update fun world => { world with bus.clock := world.bus.clock + 1 }
  if !done.answered then return false
  Prog.issue (.write block sent) fun world =>
    { world with mmc := Function.update world.mmc block done.stored }
  return done.released

/-- The progress with which a try begins: the fourth try initialises the eMMC anew and forgets
what the tries before it did. -/
def startTry {α : Type} (number : Nat) (fresh progress : α) : Boot α :=
  if number = 3 then do
    reinitMmc link
    return fresh
  else return progress

/-- A step that is skipped once it is done. -/
def unlessDone (done : Bool) (step : Boot Bool) : Boot Bool := if done then pure true else step

/-- The tries of one block from try number `number` on. -/
def writeTries (block : Nat) (data : Block) :
    (tries number : Nat) → (copyDone writeDone : Bool) → Boot Unit
  | 0, _, _, writeDone => Prog.stop (if writeDone then .finish 9 4 else .finish 10 4)
  | tries + 1, number, copyDone, writeDone => do
    let writeDone ← startTry link number false writeDone
    -- copied once; a later try sends what the read back has left in the buffer
    let _ ← unlessDone copyDone (do setDataBuf data; return true)
    if !(← unlessDone writeDone (cmdMmcWrite link block)) then
      writeTries block data tries (number + 1) true false
    else if !(← cmdMmcRead link block) then writeTries block data tries (number + 1) true true
    else if (← Prog.gets fun world => world.bus.dataBuf) = data then return
    else writeTries block data tries (number + 1) true false

/-- Write one block and read it back, in at most six tries. -/
def writeBlock (block : Nat) (data : Block) : Boot Unit :=
  writeTries link block data 6 0 false false

/-- Write an array to consecutive blocks. -/
def writeData (block : Nat) (data : Memory) (size : Nat) : Boot Unit :=
  Prog.forRange 0 ((size + 511) / 512) fun index =>
    writeBlock link (block + index) (chunk data (512 * index))

end Transfers

/-- Only buffers have changed. -/
structure BusOnly (before after : World) : Prop where
  /-- Flash is the same. -/
  flash : after.flash = before.flash
  /-- The eMMC is the same. -/
  mmc : after.mmc = before.mmc
  /-- The flags are the same. -/
  vars : after.vars = before.vars

/-- Only buffers and some eMMC blocks have changed. -/
structure BlocksOnly (blocks : Nat → Prop) (before after : World) : Prop where
  /-- Flash is the same. -/
  flash : after.flash = before.flash
  /-- The other blocks are the same. -/
  mmc : ∀ block, ¬ blocks block → after.mmc block = before.mmc block
  /-- The flags are the same. -/
  vars : after.vars = before.vars

/-- A property of the contents of a block that no transfer on it breaks: what is received has it
if the buffer and the block had it, and what is stored has it if the block and the data had it. -/
structure Link.Keeps (link : Link) (block : Nat) (holds : Block → Prop) : Prop where
  /-- A read keeps the property. -/
  received : ∀ clock buffer stored, holds buffer → holds stored →
    holds (link.receive clock block buffer stored).block
  /-- A write keeps the property. -/
  written : ∀ clock stored buffer, holds stored → holds buffer →
    holds (link.write clock block stored buffer).stored

/-- Every line keeps what always holds. -/
theorem Link.keeps_true (link : Link) (block : Nat) : link.Keeps block fun _ => True :=
  ⟨fun _ _ _ _ _ => trivial, fun _ _ _ _ _ => trivial⟩

section Frames

variable {first second third : World} {blocks : Nat → Prop}

/-- A world is only itself. -/
theorem BusOnly.refl (world : World) : BusOnly world world := ⟨rfl, rfl, rfl⟩

/-- Changes of buffers compose. -/
theorem BusOnly.trans (left : BusOnly first second) (right : BusOnly second third) :
    BusOnly first third :=
  ⟨right.flash.trans left.flash, right.mmc.trans left.mmc, right.vars.trans left.vars⟩

/-- A world is only itself. -/
theorem BlocksOnly.refl (world : World) : BlocksOnly blocks world world :=
  ⟨rfl, fun _ _ => rfl, rfl⟩

/-- Changes inside the same blocks compose. -/
theorem BlocksOnly.trans (left : BlocksOnly blocks first second)
    (right : BlocksOnly blocks second third) : BlocksOnly blocks first third :=
  ⟨right.flash.trans left.flash,
    fun block other => (right.mmc block other).trans (left.mmc block other),
    right.vars.trans left.vars⟩

/-- A change of buffers changes no block. -/
theorem BusOnly.blocksOnly (same : BusOnly first second) : BlocksOnly blocks first second :=
  ⟨same.flash, fun _ _ => by rw [same.mmc], same.vars⟩

/-- Changes inside some blocks are changes inside more of them. -/
theorem BlocksOnly.widen {blocks' : Nat → Prop} (same : BlocksOnly blocks first second)
    (more : ∀ block, blocks block → blocks' block) : BlocksOnly blocks' first second :=
  ⟨same.flash, fun block other => same.mmc block fun inside => other (more block inside),
    same.vars⟩

end Frames

section Specifications

variable {link : Link} {cid : Cid} {world : World} {block : Nat}

/-- Initialisation issues no operation. -/
theorem mmcInitialize_run : mmcInitialize link world =
    ⟨[], .ok (link.init world.bus.clock).isSome, { world with
      bus.clock := world.bus.clock + 1
      bus.cidBuf := (link.init world.bus.clock).getD world.bus.cidBuf }⟩ := rfl

/-- A read issues no operation. -/
theorem cmdMmcRead_run : cmdMmcRead link block world =
    let got := link.receive world.bus.clock block world.bus.dataBuf (world.mmc block)
    ⟨[], .ok got.valid, { world with
      bus.clock := world.bus.clock + 1
      bus.dataBuf := got.block }⟩ := rfl

/-- Initialisation changes neither flash nor eMMC nor the block buffers. -/
theorem reinitMmcTries_spec {guarantee : World → BootOp → Prop} (tries : Nat) :
    (reinitMmcTries link tries).Ensures world guarantee
      (fun _ later => BusOnly world later ∧ later.bus.dataBuf = world.bus.dataBuf ∧
        later.bus.tempBuf = world.bus.tempBuf)
      (fun _ later => BusOnly world later) := by
  induction tries generalizing world with
  | zero => exact (Prog.ensures_stop _).mpr (BusOnly.refl world)
  | succ tries ih =>
    refine Prog.ensures_via (fun _ later => BusOnly world later ∧
      later.bus.dataBuf = world.bus.dataBuf ∧ later.bus.tempBuf = world.bus.tempBuf) ?_ ?_
    · exact (Prog.ensures_quiet mmcInitialize_run).mpr ⟨⟨rfl, rfl, rfl⟩, rfl, rfl⟩
    · intro answered later after
      obtain ⟨same, data, temp⟩ := after
      cases answered with
      | true => exact (Prog.ensures_pure _).mpr ⟨same, data, temp⟩
      | false =>
        exact ih.mono (fun _ _ issued => issued)
          (fun _ _ after => ⟨same.trans after.1, after.2.1.trans data, after.2.2.trans temp⟩)
          (fun _ _ after => same.trans after)

/-- A read changes buffers alone. If it reports success, the buffer holds the block. -/
theorem cmdMmcRead_spec {guarantee : World → BootOp → Prop} {stopped : Stop → World → Prop} :
    (cmdMmcRead link block).Ensures world guarantee
      (fun valid later => BusOnly world later ∧
        (valid = true → later.bus.dataBuf = world.mmc block) ∧
        later.bus.tempBuf = world.bus.tempBuf ∧
        ∀ holds : Block → Prop, link.Keeps block holds → holds world.bus.dataBuf →
          holds (world.mmc block) → holds later.bus.dataBuf) stopped :=
  (Prog.ensures_quiet cmdMmcRead_run).mpr ⟨⟨rfl, rfl, rfl⟩, link.sound _ _ _ _, rfl,
    fun _ keeps buffer stored => keeps.received _ _ _ buffer stored⟩

/-- A write sends the data buffer at most once and changes no other block. -/
theorem cmdMmcWrite_spec {stopped : Stop → World → Prop} :
    (cmdMmcWrite link block).Ensures world
      (fun later operation => BusOnly world later ∧ operation = .write block world.bus.dataBuf)
      (fun _ later => BlocksOnly (· = block) world later ∧
        later.bus.dataBuf = world.bus.dataBuf ∧ later.bus.tempBuf = world.bus.tempBuf ∧
        ∀ holds : Block → Prop, link.Keeps block holds → holds world.bus.dataBuf →
          holds (world.mmc block) → holds (later.mmc block)) stopped := by
  apply Prog.ensures_read
  apply Prog.ensures_read
  apply Prog.ensures_change
  cases answered : (link.write world.bus.clock block (world.mmc block)
      world.bus.dataBuf).answered with
  | false =>
    simp only [Bool.not_false, if_true]
    exact (Prog.ensures_pure _).mpr
      ⟨⟨rfl, fun _ _ => rfl, rfl⟩, rfl, rfl, fun _ _ _ stored => stored⟩
  | true =>
    simp only [Bool.not_true, Bool.false_eq_true, if_false]
    refine Prog.ensures_bind ((Prog.ensures_issue _ _).mpr ⟨⟨⟨rfl, rfl, rfl⟩, rfl⟩,
      (Prog.ensures_pure _).mpr ⟨⟨rfl, fun other apart => ?_, rfl⟩, rfl, rfl, ?_⟩⟩)
    · exact Function.update_of_ne apart _ _
    · intro holds keeps buffer stored
      change holds (Function.update world.mmc block _ block)
      rw [Function.update_self]
      exact keeps.written _ _ _ stored buffer

/-- A try begins with buffers changed alone. -/
theorem startTry_spec {α : Type} {guarantee : World → BootOp → Prop} (number : Nat)
    (fresh progress : α) :
    (startTry link number fresh progress).Ensures world guarantee
      (fun begun later => (begun = fresh ∨ begun = progress) ∧ BusOnly world later ∧
        later.bus.dataBuf = world.bus.dataBuf ∧ later.bus.tempBuf = world.bus.tempBuf)
      (fun _ later => BusOnly world later) := by
  unfold startTry
  split
  · exact (reinitMmcTries_spec 10).andThen fun _ later after =>
      (Prog.ensures_pure _).mpr ⟨.inl rfl, after⟩
  · exact (Prog.ensures_pure _).mpr ⟨.inr rfl, BusOnly.refl world, rfl, rfl⟩

/-- What holds at each operation of a write of one block. -/
def WriteIssued (block : Nat) (holds : Block → Prop) (origin later : World) (operation : BootOp) :
    Prop :=
  BlocksOnly (· = block) origin later ∧ holds (later.mmc block) ∧
    ∃ sent, operation = .write block sent ∧ holds sent

/-- Whatever fails on the way, the tries of a block change no other block and keep every property
that transfers keep; if they return, the block holds the data. -/
theorem writeTries_spec {holds : Block → Prop} {data : Block} {origin : World}
    (keeps : link.Keeps block holds) (sends : holds data) (tries number : Nat)
    (copyDone writeDone : Bool) (frame : BlocksOnly (· = block) origin world)
    (stored : holds (world.mmc block)) (copied : copyDone = true → holds world.bus.dataBuf) :
    (writeTries link block data tries number copyDone writeDone).Ensures world
      (WriteIssued block holds origin)
      (fun _ later => BlocksOnly (· = block) origin later ∧ later.mmc block = data)
      (fun _ later => BlocksOnly (· = block) origin later ∧ holds (later.mmc block)) := by
  induction tries generalizing world number copyDone writeDone with
  | zero => exact (Prog.ensures_stop _).mpr ⟨frame, stored⟩
  | succ tries ih =>
    rw [writeTries]
    apply Prog.Ensures.andThen ((startTry_spec number false writeDone).weakenStop
      fun _ later same => ⟨frame.trans same.blocksOnly, by rw [same.mmc]; exact stored⟩)
    intro writeDone second after
    obtain ⟨-, same, buffer, -⟩ := after
    have frame2 := frame.trans same.blocksOnly
    have stored2 : holds (second.mmc block) := by rw [same.mmc]; exact stored
    -- the copy into the data buffer
    refine Prog.ensures_via (fun _ later => BlocksOnly (· = block) origin later ∧
      holds (later.mmc block) ∧ holds later.bus.dataBuf) ?_ ?_
    · cases copyDone with
      | true => exact (Prog.ensures_pure _).mpr ⟨frame2, stored2, by rw [buffer]; exact copied rfl⟩
      | false =>
        exact Prog.ensures_bind ((Prog.ensures_update _).mpr ((Prog.ensures_pure _).mpr
          ⟨⟨frame2.flash, frame2.mmc, frame2.vars⟩, stored2, sends⟩))
    intro _ third after
    obtain ⟨frame3, stored3, buffer3⟩ := after
    -- the transfer
    refine Prog.ensures_via (fun _ later => BlocksOnly (· = block) origin later ∧
      holds (later.mmc block) ∧ holds later.bus.dataBuf) ?_ ?_
    · cases writeDone with
      | true => exact (Prog.ensures_pure _).mpr ⟨frame3, stored3, buffer3⟩
      | false =>
        refine cmdMmcWrite_spec.mono ?_ ?_ (fun _ _ never => never)
        · intro later operation after
          obtain ⟨same, rfl⟩ := after
          exact ⟨frame3.trans same.blocksOnly, by rw [same.mmc]; exact stored3, _, rfl, buffer3⟩
        · intro _ later after
          obtain ⟨only, buffer, -, kept⟩ := after
          exact ⟨frame3.trans only, kept holds keeps buffer3 stored3, by rw [buffer]; exact buffer3⟩
    intro written fourth after
    obtain ⟨frame4, stored4, buffer4⟩ := after
    cases written with
    | false => exact ih (number + 1) true false frame4 stored4 fun _ => buffer4
    | true =>
      -- the read back
      refine cmdMmcRead_spec.andThen fun valid fifth after => ?_
      obtain ⟨same, read, _, kept⟩ := after
      have frame5 := frame4.trans same.blocksOnly
      have stored5 : holds (fifth.mmc block) := by rw [same.mmc]; exact stored4
      have buffer5 := kept holds keeps buffer4 stored4
      cases valid with
      | false => exact ih (number + 1) true true frame5 stored5 fun _ => buffer5
      | true =>
        apply Prog.ensures_read
        split
        · rename_i equal
          refine (Prog.ensures_pure _).mpr ⟨frame5, ?_⟩
          rw [same.mmc, ← read rfl]
          exact equal
        · exact ih (number + 1) true false frame5 stored5 fun _ => buffer5

/-- The blocks of an array. -/
def InBlocks (start count block : Nat) : Prop := start ≤ block ∧ block < start + count

/-- What holds at each operation of a write to several blocks, for a property of each block that
transfers keep. -/
def DataIssued (blocks : Nat → Prop) (holds : Nat → Block → Prop) (origin later : World)
    (operation : BootOp) : Prop :=
  BlocksOnly blocks origin later ∧ (∀ block, holds block (later.mmc block)) ∧
    ∃ block sent, operation = .write block sent ∧ blocks block ∧ holds block sent

/-- A property of all blocks that holds outside one block and in it. -/
theorem BlocksOnly.holds {holds : Nat → Block → Prop} {before after : World}
    (only : BlocksOnly (· = block) before after) (others : ∀ other, holds other (before.mmc other))
    (stored : holds block (after.mmc block)) (other : Nat) : holds other (after.mmc other) := by
  by_cases same : other = block
  · exact same ▸ stored
  · rw [only.mmc other same]
    exact others other

/-- Whatever fails on the way, writing an array changes only its blocks and keeps every property
that transfers keep; if it returns, the blocks hold the array. -/
theorem writeData_spec (holds : Nat → Block → Prop) {data : Memory} {size count : Nat}
    {start : Nat} (blocks : (size + 511) / 512 = count)
    (keeps : ∀ block, InBlocks start count block → link.Keeps block (holds block))
    (sends : ∀ index < count, holds (start + index) (chunk data (512 * index)))
    (stored : ∀ block, holds block (world.mmc block)) :
    (writeData link start data size).Ensures world
      (DataIssued (InBlocks start count) holds world)
      (fun _ later => BlocksOnly (InBlocks start count) world later ∧
        (∀ block, holds block (later.mmc block)) ∧
        ∀ index < count, later.mmc (start + index) = chunk data (512 * index))
      (fun _ later => BlocksOnly (InBlocks start count) world later ∧
        ∀ block, holds block (later.mmc block)) := by
  rw [writeData, blocks]
  refine (Prog.ensures_forRange (fun index later => BlocksOnly (InBlocks start count) world later ∧
    (∀ block, holds block (later.mmc block)) ∧
    ∀ earlier < index, later.mmc (start + earlier) = chunk data (512 * earlier)) 0 count
    ⟨BlocksOnly.refl world, stored, fun _ none => absurd none (by omega)⟩ ?_).weaken ?_
  · intro index later _ high after
    obtain ⟨only, kept, written⟩ := after
    have inside : InBlocks start count (start + index) := ⟨by omega, by omega⟩
    have within : ∀ other, other = start + index → InBlocks start count other :=
      fun _ same => same ▸ inside
    refine (writeTries_spec (keeps _ inside) (sends index (by omega)) 6 0 false false
      (BlocksOnly.refl later) (kept _) (fun never => nomatch never)).mono ?_ ?_ ?_
    · intro moment operation after
      obtain ⟨only', now, sent, rfl, sends⟩ := after
      exact ⟨only.trans (only'.widen within), only'.holds kept now, _, sent, rfl, inside, sends⟩
    · intro _ after given
      obtain ⟨only', now⟩ := given
      refine ⟨only.trans (only'.widen within), only'.holds kept ?_, fun earlier before => ?_⟩
      · rw [now]
        exact sends index (by omega)
      · by_cases same : earlier = index
        · rw [same, now]
        · rw [only'.mmc _ (by omega), written earlier (by omega)]
    · intro _ after given
      obtain ⟨only', now⟩ := given
      exact ⟨only.trans (only'.widen within), only'.holds kept now⟩
  · intro _ later after
    obtain ⟨only, kept, written⟩ := after
    exact ⟨only, kept, fun index inside => written index (by omega)⟩

/-- A line on which every transfer succeeds, to a card with a given identification. -/
structure Link.Reliable (link : Link) (cid : Cid) : Prop where
  /-- Initialisation succeeds. -/
  init : ∀ clock, link.init clock = some cid
  /-- Reads succeed. -/
  received : ∀ clock block buffer stored,
    (link.receive clock block buffer stored).valid = true
  /-- Writes are answered. -/
  answered : ∀ clock block stored buffer,
    (link.write clock block stored buffer).answered = true
  /-- Writes store the buffer. -/
  written : ∀ clock block stored buffer,
    (link.write clock block stored buffer).stored = buffer
  /-- Writes are acknowledged. -/
  released : ∀ clock block stored buffer,
    (link.write clock block stored buffer).released = true

/-- A line that never fails, to a card with a given identification. -/
def perfectLink (cid : Cid) : Link where
  init _ := some cid
  receive _ _ _ stored := ⟨true, stored, crcItuT (List.ofFn stored)⟩
  write _ _ _ buffer := ⟨true, buffer, true⟩
  sound _ _ _ _ _ := rfl

/-- It is reliable. -/
theorem perfectLink_reliable (cid : Cid) : (perfectLink cid).Reliable cid :=
  ⟨fun _ => rfl, fun _ _ _ _ => Received.valid_whole _, fun _ _ _ _ => rfl, fun _ _ _ _ => rfl,
    fun _ _ _ _ => rfl⟩

/-- Only one block has changed, and this is its new contents. -/
structure Stored (block : Nat) (data : Block) (before after : World) : Prop where
  /-- Flash is the same. -/
  flash : after.flash = before.flash
  /-- The eMMC but for the block is the same. -/
  mmc : after.mmc = Function.update before.mmc block data
  /-- The flags are the same. -/
  vars : after.vars = before.vars
  /-- The card identification is the same. -/
  cid : after.bus.cidBuf = before.bus.cidBuf

/-- On a reliable line initialisation learns the card identification. -/
theorem reinitMmc_counts (reliable : link.Reliable cid) {guarantee : World → BootOp → Prop} :
    (reinitMmc link).Counts world 0 guarantee fun _ later =>
      BusOnly world later ∧ later.bus.cidBuf = cid ∧ later.bus.tempBuf = world.bus.tempBuf := by
  have first : (mmcInitialize link).Counts world 0 guarantee fun answered later =>
      answered = true ∧ BusOnly world later ∧ later.bus.cidBuf = cid ∧
        later.bus.tempBuf = world.bus.tempBuf := by
    refine Prog.counts_quiet mmcInitialize_run ?_
    rw [reliable.init]
    exact ⟨rfl, ⟨rfl, rfl, rfl⟩, rfl, rfl⟩
  refine Prog.counts_quietLeft _ first ?_
  intro _ later after
  obtain ⟨rfl, same⟩ := after
  exact Prog.counts_pure same

/-- On a reliable line a read leaves the block in the buffer. -/
theorem cmdMmcRead_counts (reliable : link.Reliable cid) {guarantee : World → BootOp → Prop} :
    (cmdMmcRead link block).Counts world 0 guarantee fun valid later =>
      valid = true ∧ BusOnly world later ∧ later.bus.dataBuf = world.mmc block ∧
        later.bus.tempBuf = world.bus.tempBuf ∧ later.bus.cidBuf = world.bus.cidBuf :=
  Prog.counts_quiet cmdMmcRead_run ⟨reliable.received _ _ _ _, ⟨rfl, rfl, rfl⟩,
    link.sound _ _ _ _ (reliable.received _ _ _ _), rfl, rfl⟩

/-- On a reliable line a write stores the buffer. -/
theorem cmdMmcWrite_counts (reliable : link.Reliable cid) :
    (cmdMmcWrite link block).Counts world 1
      (fun later operation => BusOnly world later ∧ operation = .write block world.bus.dataBuf)
      fun done later => done = true ∧ Stored block world.bus.dataBuf world later ∧
        later.bus.tempBuf = world.bus.tempBuf := by
  refine Prog.counts_gets (Prog.counts_gets (Prog.counts_update ?_))
  rw [reliable.answered]
  refine Prog.counts_quietRight (fun _ later => Stored block world.bus.dataBuf world later ∧
    later.bus.tempBuf = world.bus.tempBuf) (Prog.counts_issue ⟨⟨rfl, rfl, rfl⟩, rfl⟩
      ⟨⟨rfl, ?_, rfl, rfl⟩, rfl⟩)
    fun _ later stored => Prog.counts_pure ⟨reliable.released _ _ _ _, stored⟩
  rw [reliable.written]

/-- On a reliable line a block is written by one transfer. -/
theorem writeBlock_counts (reliable : link.Reliable cid) (data : Block) :
    (writeBlock link block data).Counts world 1
      (fun later operation => BusOnly world later ∧ operation = .write block data)
      fun _ later => Stored block data world later := by
  rw [writeBlock, writeTries]
  refine Prog.counts_quietLeft (fun done later => done = false ∧ world = later)
    (Prog.counts_pure ⟨rfl, rfl⟩) ?_
  intro _ _ after
  obtain ⟨rfl, rfl⟩ := after
  refine Prog.counts_quietLeft (fun _ later => BusOnly world later ∧ later.bus.dataBuf = data ∧
    later.bus.cidBuf = world.bus.cidBuf)
    (Prog.counts_update (Prog.counts_pure ⟨⟨rfl, rfl, rfl⟩, rfl, rfl⟩)) ?_
  intro _ second after
  obtain ⟨same, copied, card⟩ := after
  refine Prog.counts_quietRight (fun done later => done = true ∧ Stored block data world later)
    ((cmdMmcWrite_counts reliable).mono ?_ ?_) ?_
  · intro later operation after
    obtain ⟨same', rfl⟩ := after
    exact ⟨same.trans same', by rw [copied]⟩
  · intro _ later after
    obtain ⟨rfl, stored, -⟩ := after
    rw [copied] at stored
    exact ⟨rfl, stored.flash.trans same.flash, by rw [stored.mmc, same.mmc],
      stored.vars.trans same.vars, stored.cid.trans card⟩
  intro _ third after
  obtain ⟨rfl, stored⟩ := after
  refine Prog.counts_quietLeft _ (cmdMmcRead_counts reliable) ?_
  intro _ fourth after
  obtain ⟨rfl, same', buffer, -, card'⟩ := after
  refine Prog.counts_gets ?_
  rw [buffer, stored.mmc, Function.update_self, if_pos rfl]
  exact Prog.counts_pure ⟨same'.flash.trans stored.flash, same'.mmc.trans stored.mmc,
    same'.vars.trans stored.vars, card'.trans stored.cid⟩

/-- What a sequence of block writes has kept so far. -/
structure MmcKept (holds : (Nat → Block) → Prop) (before after : World) : Prop where
  /-- A property of the eMMC. -/
  mmc : holds after.mmc
  /-- Flash is the same. -/
  flash : after.flash = before.flash
  /-- The flags are the same. -/
  vars : after.vars = before.vars
  /-- The card identification is the same. -/
  cid : after.bus.cidBuf = before.bus.cidBuf

/-- What two sequences keep, one after the other. -/
theorem MmcKept.trans {first second : (Nat → Block) → Prop} {before middle after : World}
    (kept : MmcKept first before middle) (kept' : MmcKept second middle after) :
    MmcKept second before after :=
  ⟨kept'.mmc, kept'.flash.trans kept.flash, kept'.vars.trans kept.vars, kept'.cid.trans kept.cid⟩

/-- On a reliable line consecutive blocks of an array are written by one transfer each, and keep
what each of them keeps. -/
theorem writeBlocks_counts (reliable : link.Reliable cid) {holds : (Nat → Block) → Prop}
    {start first count : Nat} {data : Memory} (stored : holds world.mmc)
    (step : ∀ mmc index, first ≤ index → index < first + count → holds mmc →
      holds (Function.update mmc (start + index) (chunk data (512 * index)))) :
    (Prog.forRange first count fun index =>
      writeBlock link (start + index) (chunk data (512 * index))).Counts world count
      (fun later operation => holds later.mmc ∧ ∃ block sent, operation = .write block sent)
      fun _ later => MmcKept holds world later := by
  refine Prog.counts_forRange (fun _ later => MmcKept holds world later) first count
    ⟨stored, rfl, rfl, rfl⟩ ?_
  intro index later low high kept
  refine (writeBlock_counts reliable _).mono ?_ ?_
  · intro moment operation after
    obtain ⟨same, rfl⟩ := after
    exact ⟨same.mmc ▸ kept.mmc, _, _, rfl⟩
  · intro _ after now
    exact ⟨now.mmc ▸ step _ _ low high kept.mmc, now.flash.trans kept.flash,
      now.vars.trans kept.vars, now.cid.trans kept.cid⟩

end Specifications

end Fly2040.Firmware
