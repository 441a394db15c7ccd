import Fly2040.Firmware.Payload
import Fly2040.Firmware.Retry
import Fly2040.Lib.Views
/-!
# What transfers touch

Writing an array and copying a table address write commands only to their own blocks: whatever the
line would do with a write to another block has no influence on them. What they return with has
been verified. The array itself is read in whole blocks, which is more than it has where its length
is not a multiple of the block size; the program is given here with its reads of the array.
-/

namespace Fly2040.Firmware

open Bytes Durable

/-- Two lines that differ at most in what a write to a block other than the given ones does. -/
structure Link.AgreeOn (link other : Link) (blocks : Nat → Prop) : Prop where
  /-- Initialisation is the same. -/
  init : other.init = link.init
  /-- Reads are the same. -/
  receive : other.receive = link.receive
  /-- Writes to the given blocks are the same. -/
  write : ∀ block, blocks block → ∀ clock, other.write clock block = link.write clock block

/-- A program on a line addresses write commands to the given blocks only: it sends data to no other
block, and the answer to a write command to another block has no influence on its run. -/
structure WritesOnly (program : Link → Boot Unit) (blocks : Nat → Prop) (link : Link)
    (world : World) : Prop where
  /-- The data that is sent. -/
  sent : ∀ event ∈ (program link world).trace,
    ∃ block data, event.2 = .write block data ∧ blocks block
  /-- The commands, answered or not. -/
  commanded : ∀ other, link.AgreeOn other blocks → program other world = program link world

section Agreement

variable {link other : Link} {blocks : Nat → Prop} {block start stop : Nat}

/-- Initialisation does not write. -/
theorem reinitMmc_agree (agree : link.AgreeOn other blocks) : reinitMmc other = reinitMmc link := by
  have tries : ∀ tries, reinitMmcTries other tries = reinitMmcTries link tries := by
    intro tries
    induction tries with
    | zero => rfl
    | succ tries ih =>
      rw [reinitMmcTries, reinitMmcTries, ih, mmcInitialize, mmcInitialize, agree.init]
  exact tries 10

/-- A try begins without a write. -/
theorem startTry_agree {α : Type} (agree : link.AgreeOn other blocks) (number : Nat)
    (fresh progress : α) :
    startTry other number fresh progress = startTry link number fresh progress := by
  rw [startTry, startTry, reinitMmc_agree agree]

/-- A read does not write. -/
theorem cmdMmcRead_agree (agree : link.AgreeOn other blocks) (block : Nat) :
    cmdMmcRead other block = cmdMmcRead link block := by
  rw [cmdMmcRead, cmdMmcRead, agree.receive]

/-- A write is addressed to its block. -/
theorem cmdMmcWrite_agree (agree : link.AgreeOn other blocks) (inside : blocks block) :
    cmdMmcWrite other block = cmdMmcWrite link block := by
  simp only [cmdMmcWrite, agree.write block inside]

/-- The tries of a block address it only. -/
theorem writeTries_agree (agree : link.AgreeOn other blocks) (inside : blocks block) (data : Block)
    (tries number : Nat) (copyDone writeDone : Bool) :
    writeTries other block data tries number copyDone writeDone =
      writeTries link block data tries number copyDone writeDone := by
  induction tries generalizing number copyDone writeDone with
  | zero => rfl
  | succ tries ih =>
    simp only [writeTries, startTry_agree agree, cmdMmcWrite_agree agree inside,
      cmdMmcRead_agree agree, ih]

/-- The tries of a copy address its target only. -/
theorem copyTries_agree (agree : link.AgreeOn other blocks) (inside : blocks stop)
    (tries number : Nat) (wasRead wasWrite : Bool) :
    copyTries other start stop tries number wasRead wasWrite =
      copyTries link start stop tries number wasRead wasWrite := by
  induction tries generalizing number wasRead wasWrite with
  | zero => rfl
  | succ tries ih =>
    simp only [copyTries, startTry_agree agree, cmdMmcWrite_agree agree inside,
      cmdMmcRead_agree agree, ih]

/-- Writing an array addresses its blocks only. -/
theorem writeData_writesOnly (link : Link) (block : Nat) (data : Memory) (size : Nat)
    (world : World) : WritesOnly (fun link => writeData link block data size)
      (InBlocks block ((size + 511) / 512)) link world := by
  constructor
  · have spec : (writeData link block data size).Ensures world _ _ _ :=
      writeData_spec (fun _ _ => True) rfl (fun other _ => link.keeps_true other)
        (fun _ _ => trivial) fun _ => trivial
    intro event member
    obtain ⟨-, -, target, sent, same, inside, -⟩ := spec.issued event member
    exact ⟨target, sent, same, inside⟩
  · intro other agree
    have same : writeData other block data size = writeData link block data size := by
      apply Prog.forRange_congr
      intro index _ below
      exact writeTries_agree agree ⟨by omega, by omega⟩ _ 6 0 false false
    exact congrFun same world

/-- Copying a table addresses the blocks of the copy only. -/
theorem copyBct_writesOnly (link : Link)
    (apart : start + bctBlocks ≤ stop ∨ stop + bctBlocks ≤ start) (world : World) :
    WritesOnly (fun link => copyBct link start stop) (InBlocks stop bctBlocks) link world := by
  constructor
  · have spec : (copyBct link start stop).Ensures world _ _ _ := copyBct_spec apart
    intro event member
    obtain ⟨-, target, sent, same, inside⟩ := spec.issued event member
    exact ⟨target, sent, same, inside⟩
  · intro other agree
    have same : copyBct other start stop = copyBct link start stop := by
      apply Prog.forRange_congr
      intro index _ below
      have inside : InBlocks stop bctBlocks (stop + index) := by
        unfold InBlocks bctBlocks
        unfold bctSize at below
        omega
      exact copyTries_agree agree inside 6 0 false false
    exact congrFun same world

/-- A write of whole blocks that returns has stored the array. -/
theorem writeData_stored {link : Link} {world later : World} {data : Memory} {size : Nat}
    (whole : size % 512 = 0) (leaves : (writeData link block data size).Leaves world () later)
    {index : Nat} (inside : index < size / 512) :
    later.mmc (block + index) = chunk data (512 * index) := by
  have spec : (writeData link block data size).Ensures world _ _ _ :=
    writeData_spec (fun _ _ => True) rfl (fun other _ => link.keeps_true other)
      (fun _ _ => trivial) fun _ => trivial
  have returned := spec.returned () leaves.returned
  rw [leaves.final] at returned
  have count : (size + 511) / 512 = size / 512 := by omega
  rw [count] at returned
  exact returned.2.2 index inside

/-- A copy of a table that returns has stored the table, and has left it where it was. -/
theorem copyBct_stored {link : Link} {world later : World}
    (apart : start + bctBlocks ≤ stop ∨ stop + bctBlocks ≤ start)
    (leaves : (copyBct link start stop).Leaves world () later) {index : Nat}
    (inside : index < bctBlocks) :
    later.mmc (stop + index) = world.mmc (start + index) ∧
      later.mmc (start + index) = world.mmc (start + index) := by
  have spec : (copyBct link start stop).Ensures world _ _ _ := copyBct_spec apart
  have returned := spec.returned () leaves.returned
  rw [leaves.final] at returned
  have other : ¬ InBlocks stop bctBlocks (start + index) := by
    unfold InBlocks
    omega
  exact ⟨returned.2 index inside, returned.1.mmc _ other⟩

end Agreement

/-- On every line: a write of whole blocks addresses write commands to the blocks of the array only,
and if it returns they hold the array; a copy of a table to blocks apart from it addresses write
commands to the blocks of the copy only, and if it returns they hold what the table holds. -/
theorem transfers_verified (link : Link) (world : World) :
    (∀ block data size, size % 512 = 0 →
      WritesOnly (fun link => writeData link block data size) (InBlocks block (size / 512)) link
          world ∧
        ∀ later, (writeData link block data size).Leaves world () later →
          ∀ index < size / 512, later.mmc (block + index) = chunk data (512 * index)) ∧
    ∀ start stop, start + bctBlocks ≤ stop ∨ stop + bctBlocks ≤ start →
      WritesOnly (fun link => copyBct link start stop) (InBlocks stop bctBlocks) link world ∧
        ∀ later, (copyBct link start stop).Leaves world () later → ∀ index < bctBlocks,
          later.mmc (stop + index) = world.mmc (start + index) ∧
            later.mmc (start + index) = world.mmc (start + index) := by
  constructor
  · intro block data size whole
    have only := writeData_writesOnly link block data size world
    have count : (size + 511) / 512 = size / 512 := by omega
    rw [count] at only
    exact ⟨only, fun later leaves index inside => writeData_stored whole leaves inside⟩
  · intro start stop apart
    exact ⟨copyBct_writesOnly link apart world, fun later leaves index inside =>
      copyBct_stored apart leaves inside⟩

/-- On a line that never fails, a write of one block returns and stores it, and a copy of a table
returns and stores the table. -/
theorem transfers_verified_perfect :
    (∃ later, (writeData (perfectLink fun _ => 0) 7 (fun _ => 1) 512).Leaves blankWorld () later ∧
      later.mmc 7 = fun _ => 1) ∧
    ∃ later, (copyBct (perfectLink fun _ => 0) 0 0x7A0).Leaves blankWorld () later ∧
      later.mmc 0x7B3 = blankWorld.mmc 0x13 := by
  have reliable := perfectLink_reliable fun _ => 0
  constructor
  · have counts : (writeData (perfectLink fun _ => 0) 7 (fun _ => 1) 512).Counts blankWorld 1 _
        fun _ later => MmcKept (fun _ => True) blankWorld later :=
      writeBlocks_counts reliable trivial fun _ _ _ _ _ => trivial
    obtain ⟨_, later, leaves, -⟩ := counts.leaves
    have stored := ((transfers_verified _ _).1 7 (fun _ => 1) 512 rfl).2 later leaves 0 (by decide)
    exact ⟨later, leaves, stored⟩
  · have counts : (copyBct (perfectLink fun _ => 0) 0 0x7A0).Counts blankWorld bctBlocks
        (fun _ _ => True) fun _ _ => True := by
      apply Prog.counts_forRange (fun _ _ => True) 0 bctBlocks trivial
      intro index later _ _ _
      exact (copyTries_counts reliable _ _).mono (fun _ _ _ => trivial) fun _ _ _ => trivial
    obtain ⟨_, later, leaves, -⟩ := counts.leaves
    have stored := ((transfers_verified _ _).2 0 0x7A0 (by decide)).2 later leaves 0x13 (by decide)
    exact ⟨later, leaves, stored.1⟩

section Reading

/-- Bytes of the array that are read. -/
structure SourceRead where
  /-- The first of them. -/
  offset : Nat
  /-- Their number. -/
  count : Nat
deriving DecidableEq

/-- A program of the firmware whose reads of an array are visible. -/
abbrev Reading (α : Type) := Prog World (BootOp ⊕ SourceRead) Stop α

/-- A program that does not read the array. -/
def plain {α : Type} (program : Boot α) : Reading α :=
  Prog.zoom id (fun _ world => world) .inl program

/-- Read bytes of the array. -/
def readSource (offset count : Nat) : Reading Unit := Prog.issue (.inr ⟨offset, count⟩) id

/-- What is left without the reads. -/
def withoutReads : BootOp ⊕ SourceRead → Option BootOp
  | .inl operation => some operation
  | .inr _ => none

variable (link : Link) (block : Nat) (data : Memory)

/-- Copy a block of the array into the data buffer, unless that is done. -/
def copyChunk (offset : Nat) (copyDone : Bool) : Reading Bool :=
  if copyDone then pure true else do
    readSource offset 512
    plain (do setDataBuf (chunk data offset); return true)

/-- The tries of one block, with the reads of the array: the block is copied from it and what is
read back is compared with it. -/
def writeTriesReading (offset : Nat) :
    (tries number : Nat) → (copyDone writeDone : Bool) → Reading Unit
  | 0, _, _, writeDone => Prog.stop (if writeDone then .finish 9 4 else .finish 10 4)
  | tries + 1, number, copyDone, writeDone => do
    let writeDone ← plain (startTry link number false writeDone)
    let _ ← copyChunk data offset copyDone
    if !(← plain (unlessDone writeDone (cmdMmcWrite link block))) then
      writeTriesReading offset tries (number + 1) true false
    else if !(← plain (cmdMmcRead link block)) then
      writeTriesReading offset tries (number + 1) true true
    else do
      readSource offset 512
      if (← Prog.gets fun world => world.bus.dataBuf) = chunk data offset then return
      else writeTriesReading offset tries (number + 1) true false

/-- Write an array to consecutive blocks, with the reads of the array. -/
def writeDataReading (size : Nat) : Reading Unit :=
  Prog.forRange 0 ((size + 511) / 512) fun index =>
    writeTriesReading link (block + index) data (512 * index) 6 0 false false

/-- The bytes that are read are bytes of an array of the given length. -/
def WithinSource (size : Nat) : BootOp ⊕ SourceRead → Prop
  | .inl _ => True
  | .inr read => read.offset + read.count ≤ size

variable {link block data}

/-- A program that does not read the array is itself without its reads. -/
theorem plain_shows {α : Type} (program : Boot α) (world : World) :
    (plain program).Shows id withoutReads world program :=
  Prog.shows_zoom (fun _ => rfl) fun _ => rfl

/-- Reads of the array change nothing. -/
theorem readSource_shows (offset count : Nat) (world : World) :
    (readSource offset count).Shows id withoutReads world (pure ()) := Prog.shows_hidden rfl rfl

/-- Without its reads of the array, this is the program that writes a block. -/
theorem writeTriesReading_shows (offset tries number : Nat) (copyDone writeDone : Bool)
    (world : World) :
    (writeTriesReading link block data offset tries number copyDone writeDone).Shows id withoutReads
      world (writeTries link block (chunk data offset) tries number copyDone writeDone) := by
  induction tries generalizing number copyDone writeDone world with
  | zero => exact Prog.shows_stop _
  | succ tries ih =>
    rw [writeTriesReading, writeTries]
    apply Prog.shows_bind (plain_shows _ _)
    intro writeDone second _
    -- the copy into the data buffer
    apply Prog.shows_bind
    · unfold copyChunk unlessDone
      cases copyDone with
      | true => exact Prog.shows_pure true
      | false => exact Prog.shows_quiet (readSource_shows _ _ _) fun later _ => plain_shows _ later
    intro _ third _
    -- the transfer
    apply Prog.shows_bind (plain_shows _ _)
    intro written fourth _
    cases written with
    | false => exact ih _ _ _ _
    | true =>
      -- the read back
      apply Prog.shows_bind (plain_shows _ _)
      intro valid fifth _
      cases valid with
      | false => exact ih _ _ _ _
      | true =>
        apply Prog.shows_quiet (readSource_shows _ _ _)
        intro later _
        apply Prog.shows_bind (Prog.shows_gets fun world : World => world.bus.dataBuf)
        intro buffer last _
        by_cases same : buffer = chunk data offset
        · rw [if_pos same, if_pos same]
          exact Prog.shows_pure ()
        · rw [if_neg same, if_neg same]
          exact ih _ _ _ _

/-- A program that does not read the array reads nothing of it. -/
theorem plain_reads {α : Type} (program : Boot α) (world : World) (reads : SourceRead → Prop) :
    (plain program).Ensures world (fun _ operation => ∀ read, operation = .inr read → reads read)
      (fun _ _ => True) fun _ _ => True := by
  constructor
  · intro event member read same
    obtain ⟨inner, -, rfl⟩ := List.mem_map.mp member
    exact nomatch same
  · exact fun _ _ => trivial
  · exact fun _ _ => trivial

/-- The tries of a block read that block of the array and nothing else. -/
theorem writeTriesReading_reads (offset tries number : Nat) (copyDone writeDone : Bool)
    (world : World) :
    (writeTriesReading link block data offset tries number copyDone writeDone).Ensures world
      (fun _ operation => ∀ read, operation = .inr read → read = ⟨offset, 512⟩) (fun _ _ => True)
      fun _ _ => True := by
  have source : ∀ world : World, (readSource offset 512).Ensures world
      (fun _ operation => ∀ read, operation = .inr read → read = ⟨offset, 512⟩) (fun _ _ => True)
      fun _ _ => True := by
    intro world
    apply (Prog.ensures_issue _ _).mpr
    exact ⟨fun read same => (Sum.inr.inj same).symm, trivial⟩
  induction tries generalizing number copyDone writeDone world with
  | zero => exact (Prog.ensures_stop _).mpr trivial
  | succ tries ih =>
    rw [writeTriesReading]
    apply (plain_reads _ _ _).andThen
    intro writeDone second _
    have copy : (copyChunk data offset copyDone).Ensures second
        (fun _ operation => ∀ read, operation = .inr read → read = ⟨offset, 512⟩) (fun _ _ => True)
        fun _ _ => True := by
      unfold copyChunk
      cases copyDone with
      | true => exact (Prog.ensures_pure _).mpr trivial
      | false => exact (source second).andThen fun _ later _ => plain_reads _ later _
    apply copy.andThen
    intro _ third _
    apply (plain_reads _ _ _).andThen
    intro written fourth _
    cases written with
    | false => exact ih _ _ _ _
    | true =>
      apply (plain_reads _ _ _).andThen
      intro valid fifth _
      cases valid with
      | false => exact ih _ _ _ _
      | true =>
        apply (source fifth).andThen
        intro _ sixth _
        apply Prog.ensures_read
        by_cases same : sixth.bus.dataBuf = chunk data offset
        · rw [if_pos same]
          exact (Prog.ensures_pure _).mpr trivial
        · rw [if_neg same]
          exact ih _ _ _ _

/-- The first try of a block reads that block of the array, before anything can fail. -/
theorem writeTriesReading_issues (offset : Nat) (world : World) :
    (writeTriesReading link block data offset 6 0 false false).Issues world
      fun _ operation => operation = .inr ⟨offset, 512⟩ := by
  have begun : plain (startTry link 0 false false) = (pure false : Reading Bool) := rfl
  rw [writeTriesReading, begun, pure_bind]
  exact Prog.issues_left (Prog.issues_left (Prog.issues_issue rfl))

/-- The tries of a block stay within the array exactly if the array reaches to the end of the
block. -/
theorem writeTriesReading_within_iff (offset size : Nat) (world : World) :
    (writeTriesReading link block data offset 6 0 false false).IssuesOnly world (WithinSource size) ↔
      offset + 512 ≤ size := by
  constructor
  · intro within
    obtain ⟨event, member, read⟩ := writeTriesReading_issues offset world
    have bound := within event member
    rw [read] at bound
    exact bound
  · intro bound event member
    have reads := (writeTriesReading_reads offset 6 0 false false world).issued event member
    cases operation : event.2 with
    | inl _ => trivial
    | inr read =>
      have whole := reads read operation
      rw [whole]
      exact bound

/-- Without its reads of the array, this is the program that writes it. -/
theorem writeDataReading_shows (size : Nat) (world : World) :
    (writeDataReading link block data size).Shows id withoutReads world
      (writeData link block data size) :=
  Prog.shows_forRange 0 _ fun _ later _ _ => writeTriesReading_shows _ _ _ _ _ later

/-- A run stays within the array exactly if the array has a whole number of blocks, or writing its
whole blocks does not return, so that the run does not come to the last one. -/
theorem writeDataReading_within_iff (size : Nat) (world : World) :
    (writeDataReading link block data size).IssuesOnly world (WithinSource size) ↔
      size % 512 = 0 ∨
        ∀ later, ¬ (writeData link block data (512 * (size / 512))).Leaves world () later := by
  -- the rounds before the last block are those of the whole blocks
  have whole : (512 * (size / 512) + 511) / 512 = size / 512 := by omega
  have reaches : ∀ later, (writeData link block data (512 * (size / 512))).Leaves world () later ↔
      (Prog.forRange 0 (size / 512) fun index => writeTriesReading link (block + index) data
        (512 * index) 6 0 false false).Leaves world () later := by
    intro later
    have shows : (writeDataReading link block data (512 * (size / 512))).Shows id withoutReads world
        (writeData link block data (512 * (size / 512))) := writeDataReading_shows _ world
    rw [writeDataReading, whole] at shows
    apply shows.leaves_iff.trans
    constructor
    · intro given
      obtain ⟨_, leaves, rfl⟩ := given
      exact leaves
    · exact fun leaves => ⟨later, leaves, rfl⟩
  rw [writeDataReading, Prog.issuesOnly_forRange]
  simp only [writeTriesReading_within_iff, Nat.zero_add, reaches]
  constructor
  · intro within
    by_cases rest : size % 512 = 0
    · exact .inl rest
    right
    intro later leaves
    have bound := within (size / 512) (by omega) later leaves
    omega
  · intro given index inside later reached
    by_cases last : index = size / 512
    · subst last
      have rest : size % 512 = 0 := given.resolve_right fun never => never later reached
      omega
    · omega

end Reading

/-- On a line that never fails, writing an array returns. -/
theorem writeData_returns (block : Nat) (data : Memory) (size : Nat) (world : World) :
    ∃ later, (writeData (perfectLink fun _ => 0) block data size).Leaves world () later := by
  have counts : (writeData (perfectLink fun _ => 0) block data size).Counts world _ _
      fun _ later => MmcKept (fun _ => True) world later :=
    writeBlocks_counts (perfectLink_reliable fun _ => 0) trivial fun _ _ _ _ _ => trivial
  obtain ⟨_, later, leaves, -⟩ := counts.leaves
  exact ⟨later, leaves⟩

/-- No run reads beyond the array exactly if the array has a whole number of blocks. -/
theorem writeData_within_source_iff (size : Nat) :
    (∀ link block data world,
      (writeDataReading link block data size).IssuesOnly world (WithinSource size)) ↔
      size % 512 = 0 := by
  constructor
  · intro within
    have one := within (perfectLink fun _ => 0) 0 (fun _ => 0) blankWorld
    rw [writeDataReading_within_iff] at one
    obtain ⟨later, leaves⟩ := writeData_returns 0 (fun _ => 0) (512 * (size / 512)) blankWorld
    exact one.resolve_right fun never => never later leaves
  · intro whole link block data world
    exact (writeDataReading_within_iff size world).mpr (.inl whole)

/-- Writing the payload, the firmware reads beyond it. -/
theorem payload_read_beyond :
    ¬ (writeDataReading (perfectLink fun _ => 0) 0x1F80 blankImages.payload payloadSize).IssuesOnly
      blankWorld (WithinSource payloadSize) := by
  rw [writeDataReading_within_iff]
  intro either
  have never := either.resolve_left (by decide)
  obtain ⟨later, leaves⟩ := writeData_returns 0x1F80 blankImages.payload (512 * (payloadSize / 512))
    blankWorld
  exact never later leaves

end Fly2040.Firmware
