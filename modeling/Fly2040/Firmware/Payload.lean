import Fly2040.Firmware.Update
/-!
# Payload rewrite

The firmware keeps its payload and a boot configuration table on the eMMC. A rewrite saves the
console's own tables first, unless the boot block shows that they were replaced before, then
writes payload, tables and a descriptor of the firmware.
-/

namespace Fly2040.Firmware

open Bytes Durable Nor

/-- Data built into the firmware. -/
structure Images where
  /-- The payload and what follows it in memory. -/
  payload : Memory
  /-- Signature of the erista table. -/
  eristaBctSign : Memory
  /-- Second signature of the erista table. -/
  eristaBctSdSign : Memory
  /-- Signature of the mariko table. -/
  marikoBctSign : Memory
  /-- Body of the mariko table. -/
  marikoBctData : Memory
  /-- The mariko signature begins with the mark of the payload. -/
  marikoMark : word32 marikoBctSign 0 = payloadMark true

/-- Data that is zero but for the mark. -/
def blankImages : Images where
  payload _ := 0
  eristaBctSign _ := 0
  eristaBctSdSign _ := 0
  marikoBctSign address := byte32 (payloadMark true) address
  marikoBctData _ := 0
  marikoMark := word32_of_bytes fun _ _ => by rw [Nat.zero_add]

/-- Bytes of the payload. -/
def payloadSize : Nat := 29952

/-- Checksum of the payload. -/
def payloadCrc (images : Images) : UInt16 := crcItuT (readBytes images.payload 0 payloadSize)

/-- Set a range of bytes to one value. -/
def memset (start : Nat) (value : UInt8) (count : Nat) (memory : Memory) : Memory := fun address =>
  if start ≤ address ∧ address < start + count then value else memory address

/-- Copy bytes into a range. -/
def memcpy (start : Nat) (source : Memory) (count : Nat) (memory : Memory) : Memory := fun address =>
  if start ≤ address ∧ address < start + count then source (address - start) else memory address

/-- Set one byte. -/
def poke (address : Nat) (value : UInt8) : Memory → Memory := memset address value 1

/-- Bytes of a boot configuration table. -/
def bctSize : Nat := 0x2800

/-- The table written to an erista console. -/
def prepareEristaBct (images : Images) : Memory :=
  (fun _ => 0) |> poke 1 2 |> poke 4 0xF |> poke 5 0xE |> poke 0x210 0x59
    |> memset 0x211 0x69 0xFE |> poke 0x30F 0xFF
    |> memcpy 0x320 images.eristaBctSign 0x100 |> memcpy 0x232C images.eristaBctSdSign 0x130
    |> poke 0x530 0x1 |> poke 0x53F 0x1 |> poke 0x540 0x1 |> poke 0x532 0x21
    |> poke 0x534 0x0E |> poke 0x544 0x04 |> poke 0x538 0x09 |> poke 0x548 0x09
    |> poke 0x54C 0x02 |> poke 0x27EC 0x80

/-- The table written to a mariko console. -/
def prepareMarikoBct (images : Images) : Memory :=
  (fun _ => 0) |> poke 1 8 |> poke 0x10 0x59 |> memset 0x11 0x69 0xFE |> poke 0x10F 0xFF
    |> memcpy 0x220 images.marikoBctSign 0x100 |> memcpy 0x480 images.marikoBctData 0x2380

/-- The table written to a console. -/
def dataBct (images : Images) (mariko : Bool) : Memory :=
  if mariko then prepareMarikoBct images else prepareEristaBct images

/-- The tries of copying one block from try number `number` on. -/
def copyTries (link : Link) (start stop : Nat) :
    (tries number : Nat) → (wasRead wasWrite : Bool) → Boot Unit
  | 0, _, wasRead, wasWrite =>
    Prog.stop (if wasRead && !wasWrite then .finish 13 4
      else if wasWrite then .finish 14 4 else .finish 15 4)
  | tries + 1, number, wasRead, wasWrite => do
    let (wasRead, wasWrite) ← startTry link number (false, false) (wasRead, wasWrite)
    let read : Boot Bool := do
      if !(← cmdMmcRead link start) then return false
      let data ← Prog.gets fun world => world.bus.dataBuf
      setTempBuf data
      return true
    if !(← unlessDone wasRead read) then copyTries link start stop tries (number + 1) false wasWrite
    else if !(← unlessDone wasWrite (cmdMmcWrite link stop)) then
      copyTries link start stop tries (number + 1) true false
    else if !(← cmdMmcRead link stop) then copyTries link start stop tries (number + 1) true true
    else if ← Prog.gets fun world => world.bus.dataBuf == world.bus.tempBuf then return
    else copyTries link start stop tries (number + 1) false false

/-- Copy a boot configuration table. -/
def copyBct (link : Link) (start stop : Nat) : Boot Unit :=
  Prog.forRange 0 ((bctSize + 0x1FF) / 0x200) fun index =>
    copyTries link (start + index) (stop + index) 6 0 false false

/-- A block that begins with given words, followed by zeros. -/
def wordsBlock (words : List UInt32) : Block := fun index =>
  if inside : index.val / 4 < words.length then byte32 words[index.val / 4] (index.val % 4) else 0

/-- The description of the running firmware. -/
def fwInfo (images : Images) (bootSlot : Slot) (flash : Memory) : Block :=
  let count := countFuses flash
  let fuseCount := if count % 2 ≠ bootSlot.val then count + 1 else count
  wordsBlock [0x9cabe959, verHi.toUInt32, verLo.toUInt32, (payloadCrc images).toUInt32,
    fwCrc flash bootSlot, UInt32.ofNat fuseCount]

/-- Write the description of the running firmware. -/
def writeDescriptor (link : Link) (images : Images) (bootSlot : Slot) : Boot Unit := do
  let temp ← Prog.gets fun world => fwInfo images bootSlot world.flash
  setTempBuf temp
  writeData link 0x1FFF temp.memory 512

/-- Save the console's tables, unless the boot block was written by the firmware or by a
command. -/
def saveBct (link : Link) : Boot Unit := do
  let vars ← Prog.gets World.vars
  if !vars.isSpaceBl && !vars.isCommand then
    copyBct link 0x0 0x7A0
    copyBct link 0x20 0x7C0

/-- Write everything that the payload needs. The first rewrite of a console ends the boot. -/
def writePayload (link : Link) (images : Images) (mariko : Bool) (bootSlot : Slot) :
    Boot Unit := do
  reinitMmc link
  saveBct link
  writeData link 0x1F80 images.payload payloadSize
  writeData link 0x0 (dataBct images mariko) bctSize
  writeData link 0x20 (dataBct images mariko) bctSize
  writeDescriptor link images bootSlot
  Prog.issue .rewritten id
  let vars ← Prog.gets World.vars
  if !vars.isSpaceBl && !vars.isCommand && !vars.wasSelfReset then Prog.stop (.finish 0 0)

/-- A word of a table in the block that begins at an offset of it. -/
theorem chunk_word (data : Memory) (start offset : Nat) (inside : offset + 4 ≤ 512) :
    (chunk data start).word offset = word32 data (start + offset) := by
  have byte :
      ∀ address, address < 512 → (chunk data start).memory address = data (start + address) :=
    fun address below => by rw [Block.memory, dif_pos below, chunk]
  simp only [Block.word, word32, byte offset (by omega), byte (offset + 1) (by omega),
    byte (offset + 2) (by omega), byte (offset + 3) (by omega), Nat.add_assoc]

/-- The boot block of a table carries the mark of the payload and no command. -/
theorem dataBct_boot (images : Images) (mariko : Bool) :
    (chunk (dataBct images mariko) 512).word 0 = 0 ∧
      (chunk (dataBct images mariko) 512).word markAt = payloadMark mariko := by
  rw [chunk_word _ _ _ (by decide), chunk_word _ _ _ (by decide)]
  cases mariko with
  | true =>
    refine ⟨by simp [dataBct, prepareMarikoBct, poke, memset, memcpy, word32, le32], ?_⟩
    rw [← images.marikoMark]
    simp [dataBct, prepareMarikoBct, memcpy, word32, markAt]
  | false =>
    constructor
    · simp [dataBct, prepareEristaBct, poke, memset, memcpy, word32, le32]
    · simp [dataBct, prepareEristaBct, poke, memset, memcpy, word32, le32, markAt, payloadMark]

section Specifications

variable {link : Link} {cid : Cid} {world origin : World} {images : Images} {bootSlot : Slot}

/-- Whatever fails on the way, copying a block changes no block but the target; if it returns, the
target holds the source. -/
theorem copyTries_spec {start stop : Nat} (apart : start ≠ stop) (tries number : Nat)
    (wasRead wasWrite : Bool) (frame : BlocksOnly (· = stop) origin world)
    (held : wasRead = true → world.bus.tempBuf = origin.mmc start) :
    (copyTries link start stop tries number wasRead wasWrite).Ensures world
      (fun later operation => BlocksOnly (· = stop) origin later ∧
        ∃ sent, operation = .write stop sent)
      (fun _ later => BlocksOnly (· = stop) origin later ∧ later.mmc stop = origin.mmc start)
      (fun _ later => BlocksOnly (· = stop) origin later) := by
  induction tries generalizing world number wasRead wasWrite with
  | zero => exact (Prog.ensures_stop _).mpr frame
  | succ tries ih =>
    rw [copyTries]
    apply Prog.Ensures.andThen ((startTry_spec number (false, false) (wasRead, wasWrite)).weakenStop
      fun _ later same => frame.trans same.blocksOnly)
    intro after second given
    obtain ⟨wasRead', wasWrite'⟩ := after
    obtain ⟨begun, same, -, temp⟩ := given
    have frame2 := frame.trans same.blocksOnly
    have held2 : wasRead' = true → second.bus.tempBuf = origin.mmc start := by
      intro done
      rcases begun with fresh | kept
      · rw [(Prod.mk.inj fresh).1] at done
        cases done
      · rw [temp]
        exact held ((Prod.mk.inj kept).1 ▸ done)
    -- the read of the source
    refine Prog.ensures_via (fun read later => BlocksOnly (· = stop) origin later ∧
      (read = true → later.bus.tempBuf = origin.mmc start)) ?_ ?_
    · cases wasRead' with
      | true => exact (Prog.ensures_pure _).mpr ⟨frame2, fun _ => held2 rfl⟩
      | false =>
        refine cmdMmcRead_spec.andThen fun valid later after => ?_
        obtain ⟨same, read, _, _⟩ := after
        have frame' := frame2.trans same.blocksOnly
        cases valid with
        | false => exact (Prog.ensures_pure _).mpr ⟨frame', fun never => nomatch never⟩
        | true =>
          apply Prog.ensures_read
          apply Prog.ensures_change
          refine (Prog.ensures_pure _).mpr ⟨⟨frame'.flash, frame'.mmc, frame'.vars⟩, fun _ => ?_⟩
          exact (read rfl).trans (frame2.mmc start apart)
    intro read third after
    obtain ⟨frame3, held3⟩ := after
    cases read with
    | false => exact ih (number + 1) false wasWrite' frame3 fun never => nomatch never
    | true =>
      -- the transfer to the target
      refine Prog.ensures_via (fun _ later => BlocksOnly (· = stop) origin later ∧
        later.bus.tempBuf = origin.mmc start) ?_ ?_
      · cases wasWrite' with
        | true => exact (Prog.ensures_pure _).mpr ⟨frame3, held3 rfl⟩
        | false =>
          refine cmdMmcWrite_spec.mono ?_ ?_ (fun _ _ never => never)
          · intro later operation after
            obtain ⟨same, rfl⟩ := after
            exact ⟨frame3.trans same.blocksOnly, _, rfl⟩
          · intro _ later after
            obtain ⟨only, -, temp, -⟩ := after
            exact ⟨frame3.trans only, temp.trans (held3 rfl)⟩
      intro written fourth after
      obtain ⟨frame4, held4⟩ := after
      cases written with
      | false => exact ih (number + 1) true false frame4 fun _ => held4
      | true =>
        -- the read back
        refine cmdMmcRead_spec.andThen fun valid fifth after => ?_
        obtain ⟨same, read, temp, _⟩ := after
        have frame5 := frame4.trans same.blocksOnly
        have held5 := temp.trans held4
        cases valid with
        | false => exact ih (number + 1) true true frame5 fun _ => held5
        | true =>
          apply Prog.ensures_read
          split
          · rename_i equal
            refine (Prog.ensures_pure _).mpr ⟨frame5, ?_⟩
            rw [same.mmc, ← read rfl, beq_iff_eq.mp equal, held5]
          · exact ih (number + 1) false false frame5 fun never => nomatch never

/-- On a reliable line a block is copied by one transfer. -/
theorem copyTries_counts (reliable : link.Reliable cid) (start stop : Nat) :
    (copyTries link start stop 6 0 false false).Counts world 1
      (fun later operation => BusOnly world later ∧ ∃ sent, operation = .write stop sent)
      fun _ later => later.bus.cidBuf = world.bus.cidBuf := by
  rw [copyTries]
  refine Prog.counts_quietLeft (fun begun later => begun = (false, false) ∧ world = later)
    (Prog.counts_pure ⟨rfl, rfl⟩) ?_
  intro _ _ after
  obtain ⟨rfl, rfl⟩ := after
  refine Prog.counts_quietLeft (fun read later => read = true ∧ BusOnly world later ∧
    later.bus.dataBuf = later.bus.tempBuf ∧ later.bus.cidBuf = world.bus.cidBuf) ?_ ?_
  · refine Prog.counts_quietLeft _ (cmdMmcRead_counts reliable) ?_
    intro _ second after
    obtain ⟨rfl, same, -, -, card⟩ := after
    exact Prog.counts_gets (Prog.counts_update (Prog.counts_pure
      ⟨rfl, ⟨same.flash, same.mmc, same.vars⟩, rfl, card⟩))
  intro _ second after
  obtain ⟨rfl, same, buffers, card⟩ := after
  refine Prog.counts_quietRight (fun written later => written = true ∧
      later.mmc stop = later.bus.tempBuf ∧ later.bus.cidBuf = world.bus.cidBuf)
    ((cmdMmcWrite_counts reliable).mono ?_ ?_) ?_
  · intro later operation after
    obtain ⟨same', rfl⟩ := after
    exact ⟨same.trans same', _, rfl⟩
  · intro _ later after
    obtain ⟨rfl, stored, temp⟩ := after
    exact ⟨rfl, by rw [stored.mmc, Function.update_self, buffers, temp], stored.cid.trans card⟩
  intro _ third after
  obtain ⟨rfl, stored, card'⟩ := after
  refine Prog.counts_quietLeft _ (cmdMmcRead_counts reliable) ?_
  intro _ fourth after
  obtain ⟨rfl, -, buffer, temp, card''⟩ := after
  refine Prog.counts_gets ?_
  rw [if_pos (beq_iff_eq.mpr (by rw [buffer, stored, temp]))]
  exact Prog.counts_pure (card''.trans card')

/-- Number of blocks of a table. -/
def bctBlocks : Nat := 20

/-- Whatever fails on the way, copying a table changes only the blocks of the copy; if it returns,
they hold the table. -/
theorem copyBct_spec {start stop : Nat}
    (apart : start + bctBlocks ≤ stop ∨ stop + bctBlocks ≤ start) :
    (copyBct link start stop).Ensures world
      (fun later operation => BlocksOnly (InBlocks stop bctBlocks) world later ∧
        ∃ block sent, operation = .write block sent ∧ InBlocks stop bctBlocks block)
      (fun _ later => BlocksOnly (InBlocks stop bctBlocks) world later ∧
        ∀ index < bctBlocks, later.mmc (stop + index) = world.mmc (start + index))
      (fun _ later => BlocksOnly (InBlocks stop bctBlocks) world later) := by
  refine (Prog.ensures_forRange (fun index later =>
    BlocksOnly (InBlocks stop bctBlocks) world later ∧
    ∀ earlier < index, later.mmc (stop + earlier) = world.mmc (start + earlier)) 0 bctBlocks
    ⟨BlocksOnly.refl world, fun _ none => absurd none (by omega)⟩ ?_).weaken ?_
  · intro index later _ high after
    obtain ⟨only, copied⟩ := after
    unfold bctBlocks at apart high
    have inside : InBlocks stop bctBlocks (stop + index) := by
      unfold InBlocks bctBlocks
      omega
    have within : ∀ other, other = stop + index → InBlocks stop bctBlocks other :=
      fun _ same => same ▸ inside
    refine (copyTries_spec (by omega) 6 0 false false (BlocksOnly.refl later)
      (fun never => nomatch never)).mono ?_ ?_ ?_
    · intro moment operation after
      obtain ⟨only', sent, rfl⟩ := after
      exact ⟨only.trans (only'.widen within), _, sent, rfl, inside⟩
    · intro _ after given
      obtain ⟨only', now⟩ := given
      refine ⟨only.trans (only'.widen within), fun earlier before => ?_⟩
      by_cases same : earlier = index
      · rw [same, now, only.mmc]
        unfold InBlocks bctBlocks
        omega
      · rw [only'.mmc _ (by omega), copied earlier (by omega)]
    · exact fun _ after only' => only.trans (only'.widen within)
  · intro _ later after
    obtain ⟨only, copied⟩ := after
    exact ⟨only, fun index inside => copied index (by omega)⟩

/-- A block of the saved tables. -/
def SavedBlock (block : Nat) : Prop :=
  InBlocks 0x7A0 bctBlocks block ∨ InBlocks 0x7C0 bctBlocks block

/-- A block that a rewrite writes besides the saved tables. -/
def PayloadBlock (block : Nat) : Prop :=
  InBlocks 0x1F80 59 block ∨ InBlocks 0x0 bctBlocks block ∨ InBlocks 0x20 bctBlocks block ∨
    InBlocks 0x1FFF 1 block

/-- The console's tables are saved in this boot. -/
def SavesBct (vars : Vars) : Prop := vars.isSpaceBl = false ∧ vars.isCommand = false

/-- A block that a boot with the given flags saves tables to. -/
def SavesTo (vars : Vars) (block : Nat) : Prop := SavesBct vars ∧ SavedBlock block

/-- Saving the tables changes only their copies, and nothing if the boot block was replaced
before. -/
theorem saveBct_spec :
    (saveBct link).Ensures world
      (fun later operation => BlocksOnly (SavesTo world.vars) world later ∧
        ∃ block sent, operation = .write block sent ∧ SavesTo world.vars block)
      (fun _ later => BlocksOnly (SavesTo world.vars) world later ∧ (SavesBct world.vars →
        ∀ index < bctBlocks, later.mmc (0x7A0 + index) = world.mmc index ∧
          later.mmc (0x7C0 + index) = world.mmc (0x20 + index)))
      (fun _ later => BlocksOnly (SavesTo world.vars) world later) := by
  apply Prog.ensures_read
  split
  · rename_i unmarked
    have saves : SavesBct world.vars := by simpa [SavesBct] using unmarked
    have first : ∀ block, InBlocks 0x7A0 bctBlocks block → SavesTo world.vars block :=
      fun _ inside => ⟨saves, .inl inside⟩
    have second : ∀ block, InBlocks 0x7C0 bctBlocks block → SavesTo world.vars block :=
      fun _ inside => ⟨saves, .inr inside⟩
    refine Prog.Ensures.andThen ((copyBct_spec (by decide)).mono ?_ (fun _ _ after => after)
      fun _ _ only => only.widen first) ?_
    · intro later operation after
      obtain ⟨only, block, sent, rfl, inside⟩ := after
      exact ⟨only.widen first, block, sent, rfl, first block inside⟩
    intro _ middle after
    obtain ⟨only, copied⟩ := after
    refine (copyBct_spec (by decide)).mono ?_ ?_ ?_
    · intro later operation after
      obtain ⟨only', block, sent, rfl, inside⟩ := after
      exact ⟨(only.widen first).trans (only'.widen second), block, sent, rfl,
        second block inside⟩
    · intro _ later after
      obtain ⟨only', copied'⟩ := after
      refine ⟨(only.widen first).trans (only'.widen second), fun _ index inside => ⟨?_, ?_⟩⟩
      · unfold bctBlocks at inside
        rw [only'.mmc _ (by unfold InBlocks; omega), copied index inside, Nat.zero_add]
      · unfold bctBlocks at inside
        rw [copied' index inside, only.mmc]
        unfold InBlocks bctBlocks
        omega
    · exact fun _ _ only' => (only.widen first).trans (only'.widen second)
  · rename_i marked
    refine (Prog.ensures_pure _).mpr ⟨BlocksOnly.refl world, fun saves => absurd ?_ marked⟩
    simpa [SavesBct] using saves

/-- On a reliable line saving the tables takes one transfer for each block. -/
theorem saveBct_counts (reliable : link.Reliable cid) (saves : SavesBct world.vars) :
    (saveBct link).Counts world (bctBlocks + bctBlocks) (fun _ _ => True)
      fun _ later => later.bus.cidBuf = world.bus.cidBuf := by
  have copy : ∀ start stop (first : World), (copyBct link start stop).Counts first bctBlocks
      (fun _ _ => True) fun _ later => later.bus.cidBuf = first.bus.cidBuf := by
    intro start stop first
    refine Prog.counts_forRange (fun _ (later : World) => later.bus.cidBuf = first.bus.cidBuf) 0
      bctBlocks rfl fun _ _ _ _ card => ?_
    exact (copyTries_counts reliable _ _).mono (fun _ _ _ => trivial)
      fun _ _ card' => card'.trans card
  refine Prog.counts_gets ?_
  rw [if_pos (by simpa [SavesBct] using saves)]
  exact (copy _ _ _).andThen fun _ later card =>
    (copy _ _ later).mono (fun _ _ _ => trivial) fun _ _ card' => card'.trans card

/-- On a reliable line the descriptor takes one transfer. -/
theorem writeDescriptor_counts (reliable : link.Reliable cid) {holds : (Nat → Block) → Prop}
    (stored : holds world.mmc)
    (step : ∀ mmc content, holds mmc → holds (Function.update mmc 0x1FFF content)) :
    (writeDescriptor link images bootSlot).Counts world 1
      (fun later operation => holds later.mmc ∧ ∃ block sent, operation = .write block sent)
      fun _ later => MmcKept holds world later := by
  have counts : ∀ (data : Memory) (first : World), holds first.mmc →
      (writeData link 0x1FFF data 512).Counts first 1
        (fun later operation => holds later.mmc ∧ ∃ block sent, operation = .write block sent)
        fun _ later => MmcKept holds first later := by
    refine fun data first now => writeBlocks_counts reliable now ?_
    intro mmc index _ below
    obtain rfl : index = 0 := by omega
    exact step mmc _
  refine Prog.counts_gets (Prog.counts_update ((counts _ _ ?_).mono (fun _ _ issued => issued)
    fun _ later after => ?_))
  · exact stored
  · exact ⟨after.mmc, after.flash, after.vars, after.cid⟩

/-- What a rewrite has changed so far: no flash, no flag, and of the eMMC only its own blocks, with
a property of the boot block kept. -/
structure PayloadOnly (holds : Block → Prop) (before after : World) : Prop where
  /-- The blocks of a rewrite; the saved tables are among them only if the boot saves them. -/
  blocks : BlocksOnly (fun block => SavesTo before.vars block ∨ PayloadBlock block) before after
  /-- The boot block has the property. -/
  boot : holds (after.mmc 1)

/-- What holds at each operation of a rewrite. -/
def PayloadIssued (holds : Block → Prop) (origin later : World) (operation : BootOp) : Prop :=
  PayloadOnly holds origin later ∧ (operation = .rewritten ∨
    ∃ block sent, operation = .write block sent ∧ (SavesTo origin.vars block ∨ PayloadBlock block))

/-- The boot block is not among the saved tables. -/
theorem boot_not_saved (vars : Vars) : ¬ SavesTo vars 1 := by
  unfold SavesTo SavedBlock InBlocks
  omega

/-- Changing more blocks of a rewrite goes on with it. -/
theorem PayloadOnly.go {holds : Block → Prop} {blocks : Nat → Prop}
    (only : PayloadOnly holds origin world) {later : World}
    (within : ∀ block, blocks block → SavesTo origin.vars block ∨ PayloadBlock block)
    (next : BlocksOnly blocks world later) (boot : holds (later.mmc 1)) :
    PayloadOnly holds origin later :=
  ⟨only.blocks.trans (next.widen within), boot⟩

/-- A part of a rewrite that writes an array to payload blocks. -/
theorem PayloadOnly.writeData {holds : Block → Prop} (only : PayloadOnly holds origin world)
    {data : Memory} {start size count : Nat} (blocks : (size + 511) / 512 = count)
    (within : ∀ block, InBlocks start count block → PayloadBlock block)
    (keeps : link.Keeps 1 holds)
    (sends : ∀ index < count, start + index = 1 → holds (chunk data (512 * index))) :
    (Firmware.writeData link start data size).Ensures world (PayloadIssued holds origin)
      (fun _ later => PayloadOnly holds origin later)
      (fun _ later => PayloadOnly holds origin later) := by
  refine (writeData_spec (AtBoot holds) blocks (fun block _ => keeps.atBoot block) sends
    fun block boot => boot ▸ only.boot).mono ?_ ?_ ?_
  · intro later operation after
    obtain ⟨next, kept, block, sent, rfl, member, -⟩ := after
    exact ⟨only.go (fun _ inside => .inr (within _ inside)) next (kept 1 rfl),
      .inr ⟨block, sent, rfl, .inr (within block member)⟩⟩
  · intro _ later after
    exact only.go (fun _ inside => .inr (within _ inside)) after.1 (after.2.1 1 rfl)
  · intro _ later after
    exact only.go (fun _ inside => .inr (within _ inside)) after.1 (after.2 1 rfl)

/-- The part of a rewrite that saves the tables. -/
theorem PayloadOnly.saveBct {holds : Block → Prop} (only : PayloadOnly holds origin world) :
    (Firmware.saveBct link).Ensures world (PayloadIssued holds origin)
      (fun _ later => PayloadOnly holds origin later)
      (fun _ later => PayloadOnly holds origin later) := by
  have saved : ∀ later, BlocksOnly (SavesTo world.vars) world later →
      PayloadOnly holds origin later := by
    intro later next
    refine only.go (fun _ inside => .inl (only.blocks.vars ▸ inside)) next ?_
    rw [next.mmc 1 (boot_not_saved _)]
    exact only.boot
  refine saveBct_spec.mono ?_ (fun _ later after => saved later after.1)
    fun _ later next => saved later next
  intro later operation after
  obtain ⟨next, block, sent, rfl, inside⟩ := after
  exact ⟨saved later next, .inr ⟨block, sent, rfl, .inl (only.blocks.vars ▸ inside)⟩⟩

/-- The part of a rewrite that writes the descriptor. -/
theorem PayloadOnly.writeDescriptor {holds : Block → Prop} (only : PayloadOnly holds origin world)
    (keeps : link.Keeps 1 holds) :
    (Firmware.writeDescriptor link images bootSlot).Ensures world (PayloadIssued holds origin)
      (fun _ later => PayloadOnly holds origin later)
      (fun _ later => PayloadOnly holds origin later) := by
  have within : ∀ block, InBlocks 0x1FFF 1 block → PayloadBlock block :=
    fun _ inside => .inr (.inr (.inr inside))
  apply Prog.ensures_read
  apply Prog.ensures_change
  have prepared : PayloadOnly holds origin
      { world with bus.tempBuf := fwInfo images bootSlot world.flash } :=
    ⟨⟨only.blocks.flash, only.blocks.mmc, only.blocks.vars⟩, only.boot⟩
  have blocks : (512 + 511) / 512 = 1 := rfl
  exact prepared.writeData blocks within keeps fun _ _ boot => absurd boot (by omega)

/-- Whatever fails on the way, a rewrite changes only its own blocks, and the saved tables only if
the boot saves them. -/
theorem writePayload_spec {holds : Block → Prop} (mariko : Bool) (keeps : link.Keeps 1 holds)
    (sends : holds (chunk (dataBct images mariko) 512)) (stored : holds (world.mmc 1)) :
    (writePayload link images mariko bootSlot).Ensures world (PayloadIssued holds world)
      (fun _ later => PayloadOnly holds world later)
      (fun _ later => PayloadOnly holds world later) := by
  have idle : ∀ later, BusOnly world later → PayloadOnly holds world later := fun later same =>
    ⟨same.blocksOnly, by rw [same.mmc]; exact stored⟩
  have payload : ∀ block, InBlocks 0x1F80 59 block → PayloadBlock block := fun _ => .inl
  have first : ∀ block, InBlocks 0x0 bctBlocks block → PayloadBlock block :=
    fun _ inside => .inr (.inl inside)
  have second : ∀ block, InBlocks 0x20 bctBlocks block → PayloadBlock block :=
    fun _ inside => .inr (.inr (.inl inside))
  rw [writePayload]
  refine Prog.Ensures.andThen ((reinitMmcTries_spec 10).mono (fun _ _ issued => issued)
    (fun _ _ after => idle _ after.1) fun _ _ same => idle _ same) fun _ _ only => ?_
  refine only.saveBct.andThen fun _ _ only => ?_
  refine Prog.Ensures.andThen (only.writeData rfl payload keeps
    fun _ _ boot => absurd boot (by omega)) fun _ _ only => ?_
  refine Prog.Ensures.andThen (only.writeData rfl first keeps fun index _ boot => ?_)
    fun _ _ only => ?_
  · obtain rfl : index = 1 := by omega
    exact sends
  refine Prog.Ensures.andThen (only.writeData rfl second keeps
    fun _ _ boot => absurd boot (by omega)) fun _ _ only => ?_
  refine (only.writeDescriptor keeps).andThen fun _ _ only => ?_
  refine Prog.ensures_bind ((Prog.ensures_issue _ _).mpr ⟨⟨only, .inl rfl⟩, Prog.ensures_bind
    ((Prog.ensures_gets _).mpr ?_)⟩)
  split
  · exact (Prog.ensures_stop _).mpr only
  · exact (Prog.ensures_pure _).mpr only

end Specifications

end Fly2040.Firmware
