import Fly2040.Firmware.Busk
/-!
# Flash image

The build script lays the bootloader and the firmware out in blocks of 256 bytes, fills the gap
between them with ones and packs the blocks into a file for the boot loader of the chip. The
firmware is preceded by its length and its checksum, which the bootloader checks.
-/

namespace Fly2040.Firmware

open Bytes Nor Unary Crc

/-- Address of the flash. -/
def xipBase : Nat := 0x10000000

/-- Checksum of the library that the script uses. -/
def zlibCrc32 (bytes : List UInt8) : UInt32 :=
  UInt32.ofBitVec (reflected 0xEDB88320#32 0xFFFFFFFF#32 0xFFFFFFFF#32 bytes)

/-- Pack numbers as words, if they are small enough. -/
def packWords (numbers : List Nat) : Option (List UInt8) :=
  if ∀ number ∈ numbers, number < 2 ^ 32 then
    some (numbers.flatMap fun number => wordBytes (UInt32.ofNat number))
  else none

/-- Blocks with their addresses. -/
structure Blocks where
  /-- The blocks so far. -/
  blocks : List (List UInt8 × Nat)
  /-- Address behind the last block. -/
  lastOff : Nat

/-- A block of ones. -/
def blankBlock : List UInt8 := List.replicate 256 0xFF

/-- Add a block, after blank ones up to its address. -/
def addBlock (data : List UInt8) (offset : Nat) (state : Blocks) : Option Blocks :=
  let blank := if state.lastOff ≠ offset then
      (List.range ((offset - state.lastOff) / 256)).map fun i =>
        (blankBlock, state.lastOff + i * 256)
    else []
  if data.length = 256 then some ⟨state.blocks ++ blank ++ [(data, offset)], offset + 256⟩
  else none

/-- Data filled up to a whole number of blocks. -/
def padded (data : List UInt8) : List UInt8 :=
  if data.length % 256 ≠ 0 then data ++ List.replicate (256 - data.length % 256) 0xFF else data

/-- Add data in blocks. -/
def addBlocks (data : List UInt8) (offset : Nat) (state : Blocks) : Option Blocks :=
  (List.range (((padded data).length + 255) / 256)).foldlM (fun state index =>
    addBlock (((padded data).drop (256 * index)).take 256) (offset + 256 * index) state) state

/-- Numbers in front of the data of a block. -/
def uf2Head (total number : Nat) (block : List UInt8 × Nat) : List Nat :=
  [0x0A324655, 0x9E5D5157, 0x00002000, block.2, 256, number, total, 0xe48bff56]

/-- A block of the file. -/
def uf2Block (total number : Nat) (block : List UInt8 × Nat) : Option (List UInt8) := do
  let head ← packWords (uf2Head total number block)
  let tail ← packWords [0x0AB16F30]
  let uf2 := head ++ block.1 ++ List.replicate (476 - 256) 0 ++ tail
  if uf2.length = 512 then some uf2 else none

/-- The file of the blocks. -/
def getUf2 (state : Blocks) : Option (List UInt8) := do
  let packed ← state.blocks.zipIdx.mapM fun numbered =>
    uf2Block state.blocks.length numbered.2 numbered.1
  some packed.flatten

/-- Files that the script writes. -/
structure Prepared where
  /-- The firmware with its header. -/
  updateBin : List UInt8
  /-- The flash image. -/
  firmwareUf2 : List UInt8

/-- The build script. -/
def prepare (busk usk : List UInt8) : Option Prepared := do
  let state ← addBlocks busk xipBase ⟨[], xipBase⟩
  let state ← addBlocks blankBlock (xipBase + 0xFF00) state
  let header ← packWords [usk.length, (zlibCrc32 usk).toNat]
  let fw := header ++ usk
  let state ← addBlocks (fw ++ List.replicate 3 0xFF) (xipBase + 0x10000) state
  let firmwareUf2 ← getUf2 state
  some ⟨fw, firmwareUf2⟩

section Writing

variable (file : List UInt8)

/-- Bytes of a file as memory. -/
def fileMemory : Memory := fun index => file.getD index 0

/-- A word of the header of a block of the file. -/
def uf2Word (number field : Nat) : UInt32 := word32 (fileMemory file) (512 * number + 4 * field)

/-- Write a block of the file to flash. -/
def writeUf2Block (flash : Memory) (number : Nat) : Memory :=
  let offset := (uf2Word file number 3).toNat - xipBase
  let data := readBytes (fileMemory file) (512 * number + 32) (uf2Word file number 4).toNat
  program (erase flash offset data.length) offset data

/-- Write a file to flash. -/
def writeUf2 (flash : Memory) : Memory :=
  (List.range (file.length / 512)).foldl (writeUf2Block file) flash

end Writing

/-- Blocks that follow each other hold an image. -/
structure Covers (state : Blocks) (image : List UInt8) : Prop where
  /-- The next block follows. -/
  lastOff : state.lastOff = xipBase + 256 * state.blocks.length
  /-- The blocks follow each other. -/
  targets : ∀ index block, state.blocks[index]? = some block → block.2 = xipBase + 256 * index
  /-- The blocks have one size. -/
  sized : ∀ block ∈ state.blocks, block.1.length = 256
  /-- They are the image. -/
  image : state.blocks.flatMap Prod.fst = image

section Layout

variable {state : Blocks} {image data : List UInt8}

/-- The image is as long as its blocks. -/
theorem Covers.length (covers : Covers state image) : image.length = 256 * state.blocks.length := by
  rw [← covers.image]
  exact flatMap_length covers.sized

/-- One more block. -/
theorem Covers.push (covers : Covers state image) (sized : data.length = 256) :
    Covers ⟨state.blocks ++ [(data, state.lastOff)], state.lastOff + 256⟩ (image ++ data) := by
  constructor
  case lastOff =>
    rw [covers.lastOff, List.length_append, List.length_singleton, Nat.mul_succ, Nat.add_assoc]
  case targets =>
    intro index block found
    by_cases earlier : index < state.blocks.length
    · rw [List.getElem?_append_left earlier] at found
      exact covers.targets index block found
    · rw [List.getElem?_append_right (Nat.le_of_not_lt earlier)] at found
      have inside := (List.getElem?_eq_some_iff.mp found).1
      obtain rfl : index = state.blocks.length := by
        rw [List.length_singleton] at inside
        omega
      rw [Nat.sub_self] at found
      obtain rfl := Option.some.inj found
      exact covers.lastOff
  case sized =>
    intro block member
    rcases List.mem_append.mp member with earlier | last
    · exact covers.sized block earlier
    · obtain rfl := List.mem_singleton.mp last
      exact sized
  case image => rw [List.flatMap_append, covers.image, List.flatMap_singleton]

/-- A blank block has the size of a block. -/
theorem blankBlock_length : blankBlock.length = 256 := List.length_replicate

/-- Blank blocks. -/
theorem Covers.blank (covers : Covers state image) (count : Nat) :
    Covers ⟨state.blocks ++ (List.range count).map fun i => (blankBlock, state.lastOff + i * 256),
      state.lastOff + 256 * count⟩ (image ++ List.replicate (256 * count) 0xFF) := by
  induction count with
  | zero => simpa using covers
  | succ count ih =>
    have next := ih.push blankBlock_length
    have ones : List.replicate (256 * (count + 1)) (0xFF : UInt8) =
        List.replicate (256 * count) 0xFF ++ blankBlock := by
      rw [blankBlock, List.replicate_append_replicate, Nat.mul_succ]
    have place : state.lastOff + count * 256 = state.lastOff + 256 * count := by
      rw [Nat.mul_comm]
    rw [List.range_succ, List.map_append, List.map_singleton, ones, ← List.append_assoc,
      ← List.append_assoc, place, Nat.mul_succ, ← Nat.add_assoc]
    exact next

/-- Adding a block behind a gap of whole blocks. -/
theorem addBlock_spec (covers : Covers state image) (sized : data.length = 256) (gap : Nat) :
    ∃ after, addBlock data (state.lastOff + 256 * gap) state = some after ∧
      after.lastOff = state.lastOff + 256 * gap + 256 ∧
      Covers after (image ++ List.replicate (256 * gap) 0xFF ++ data) := by
  have after := (covers.blank gap).push sized
  refine ⟨_, ?_, rfl, after⟩
  unfold addBlock
  rw [if_pos sized]
  by_cases none : gap = 0
  · subst none
    simp
  · have apart : state.lastOff ≠ state.lastOff + 256 * gap := by omega
    rw [if_pos apart, Nat.add_sub_cancel_left, Nat.mul_div_cancel_left _ (by decide)]

/-- Padded data are whole blocks. -/
theorem padded_length (data : List UInt8) : (padded data).length % 256 = 0 := by
  unfold padded
  split
  · rw [List.length_append, List.length_replicate]
    omega
  · omega

/-- Padding adds ones. -/
theorem padded_eq (data : List UInt8) :
    padded data = data ++ List.replicate ((padded data).length - data.length) 0xFF := by
  unfold padded
  split
  · rw [List.length_append, Nat.add_sub_cancel_left, List.length_replicate]
  · rw [Nat.sub_self, List.replicate_zero, List.append_nil]

/-- Adding data that follows the last block. -/
theorem addBlocks_spec (covers : Covers state image) (data : List UInt8) :
    ∃ after, addBlocks data state.lastOff state = some after ∧
      after.lastOff = state.lastOff + (padded data).length ∧
      Covers after (image ++ padded data) := by
  have whole := padded_length data
  generalize bytes : padded data = whole' at whole
  have rounds : ∀ count, 256 * count ≤ whole'.length → ∃ after,
      (List.range count).foldlM (fun state' index =>
        addBlock ((whole'.drop (256 * index)).take 256) (state.lastOff + 256 * index) state')
        state = some after ∧ after.lastOff = state.lastOff + 256 * count ∧
      Covers after (image ++ whole'.take (256 * count)) := by
    intro count
    induction count with
    | zero =>
      intro _
      exact ⟨state, rfl, rfl, by simpa using covers⟩
    | succ count ih =>
      intro inside
      obtain ⟨middle, run, lastOff, covers'⟩ := ih (by omega)
      have sized : ((whole'.drop (256 * count)).take 256).length = 256 := by
        rw [List.length_take, List.length_drop]
        omega
      obtain ⟨after, added, lastOff', covered⟩ := addBlock_spec covers' sized 0
      refine ⟨after, ?_, ?_, ?_⟩
      · rw [lastOff, Nat.mul_zero, Nat.add_zero] at added
        rw [List.range_succ, List.foldlM_append, run]
        simp only [Option.bind_eq_bind, Option.bind_some, List.foldlM_cons, List.foldlM_nil, added]
        rfl
      · rw [lastOff', lastOff, Nat.mul_zero, Nat.add_zero, Nat.mul_succ, Nat.add_assoc]
      · have taken : whole'.take (256 * (count + 1)) =
            whole'.take (256 * count) ++ (whole'.drop (256 * count)).take 256 := by
          rw [Nat.mul_succ, List.take_add]
        rw [taken, ← List.append_assoc]
        rw [Nat.mul_zero, List.replicate_zero, List.append_nil] at covered
        exact covered
  obtain ⟨after, run, lastOff, covered⟩ := rounds (whole'.length / 256) (by omega)
  have count : (whole'.length + 255) / 256 = whole'.length / 256 := by omega
  have all : 256 * (whole'.length / 256) = whole'.length := by omega
  rw [all] at lastOff covered
  rw [List.take_length] at covered
  refine ⟨after, ?_, lastOff, covered⟩
  rw [addBlocks, bytes, count]
  exact run

end Layout

/-- Bytes of a number. -/
def numberBytes (number : Nat) : List UInt8 := wordBytes (UInt32.ofNat number)

/-- Bytes of a block of the file. -/
def uf2Bytes (total number : Nat) (block : List UInt8 × Nat) : List UInt8 :=
  (uf2Head total number block).flatMap numberBytes ++ block.1 ++ List.replicate (476 - 256) 0 ++
    numberBytes 0x0AB16F30

section File

variable {state : Blocks} {image : List UInt8} {total number : Nat} {block : List UInt8 × Nat}

/-- The numbers in front of the data are eight words. -/
theorem uf2Head_length : ((uf2Head total number block).flatMap numberBytes).length = 32 := rfl

/-- A block of the file is as long as it has to be. -/
theorem uf2Bytes_length (sized : block.1.length = 256) :
    (uf2Bytes total number block).length = 512 := by
  have tail : (numberBytes 0x0AB16F30).length = 4 := rfl
  rw [uf2Bytes, List.length_append, List.length_append, List.length_append, uf2Head_length, sized,
    List.length_replicate, tail]

/-- Blocks with small numbers are packed. -/
theorem uf2Block_eq (sized : block.1.length = 256) (target : block.2 < 2 ^ 32)
    (low : number < 2 ^ 32) (high : total < 2 ^ 32) :
    uf2Block total number block = some (uf2Bytes total number block) := by
  have small : ∀ word ∈ uf2Head total number block, word < 2 ^ 32 := by
    simp only [uf2Head, List.forall_mem_cons]
    exact ⟨by decide, by decide, by decide, target, by decide, low, high, by decide, nofun⟩
  have head : packWords (uf2Head total number block) = some _ := if_pos small
  have tail : packWords [0x0AB16F30] = some (numberBytes 0x0AB16F30) := rfl
  rw [uf2Block, head, tail, Option.bind_eq_bind, Option.bind_some, Option.bind_some]
  exact if_pos (uf2Bytes_length sized)

/-- The words in front of the data of a block. -/
theorem uf2Bytes_word {field offset word : Nat} (small : offset < 4)
    (found : (uf2Head total number block)[field]? = some word) :
    (uf2Bytes total number block)[4 * field + offset]? =
      some (byte32 (UInt32.ofNat word) offset) := by
  have inside : field < 8 := (List.getElem?_eq_some_iff.mp found).1
  have sized : ∀ word ∈ uf2Head total number block, (numberBytes word).length = 4 := fun _ _ => rfl
  unfold uf2Bytes
  rw [List.append_assoc, List.append_assoc,
    List.getElem?_append_left (by rw [uf2Head_length]; omega), flatMap_getElem? sized small, found]
  exact wordBytes_getElem? _ small

/-- The data of a block. -/
theorem uf2Bytes_data {offset : Nat} (inside : offset < block.1.length) :
    (uf2Bytes total number block)[32 + offset]? = block.1[offset]? := by
  unfold uf2Bytes
  rw [List.append_assoc, List.append_assoc,
    List.getElem?_append_right (by rw [uf2Head_length]; omega), uf2Head_length,
    Nat.add_sub_cancel_left, List.getElem?_append_left inside]

/-- A function that succeeds on all elements of a list. -/
theorem mapM_some {α β : Type} {function : α → Option β} {result : α → β} {list : List α}
    (each : ∀ value ∈ list, function value = some (result value)) :
    list.mapM function = some (list.map result) := by
  induction list with
  | nil => rfl
  | cons value rest ih =>
    rw [List.mapM_cons, each value (List.mem_cons_self ..),
      ih fun value member => each value (List.mem_cons_of_mem _ member)]
    rfl

/-- The file of blocks that follow each other. -/
theorem getUf2_spec (covers : Covers state image) (fits : image.length ≤ 0x100000) :
    getUf2 state = some (state.blocks.zipIdx.flatMap fun numbered =>
      uf2Bytes state.blocks.length numbered.2 numbered.1) := by
  have length := covers.length
  have each : ∀ numbered ∈ state.blocks.zipIdx,
      uf2Block state.blocks.length numbered.2 numbered.1 =
        some (uf2Bytes state.blocks.length numbered.2 numbered.1) := by
    intro numbered member
    have found := List.mem_zipIdx_iff_getElem?.mp member
    have inside := (List.getElem?_eq_some_iff.mp found).1
    have target := covers.targets _ _ found
    unfold xipBase at target
    exact uf2Block_eq (covers.sized _ (List.mem_of_getElem? found)) (by omega) (by omega) (by omega)
  rw [getUf2, mapM_some each]
  rfl

/-- The blocks of the file have 512 bytes each. -/
theorem Covers.numbered_length (covers : Covers state image) :
    ∀ numbered ∈ state.blocks.zipIdx,
      (uf2Bytes state.blocks.length numbered.2 numbered.1).length = 512 := by
  intro numbered member
  have found := List.mem_zipIdx_iff_getElem?.mp member
  exact uf2Bytes_length (covers.sized _ (List.mem_of_getElem? found))

/-- A byte of the file. -/
theorem file_getElem? (covers : Covers state image) {index offset : Nat}
    (found : state.blocks[index]? = some block) (inside : offset < 512) :
    (state.blocks.zipIdx.flatMap fun numbered =>
        uf2Bytes state.blocks.length numbered.2 numbered.1)[512 * index + offset]? =
      (uf2Bytes state.blocks.length index block)[offset]? := by
  rw [flatMap_getElem? covers.numbered_length inside, List.getElem?_zipIdx, found, Option.map_some,
    Option.bind_some, Nat.zero_add]

end File

/-- A file of numbered blocks with consecutive addresses. -/
structure Consecutive (file : List UInt8) (total : Nat) : Prop where
  /-- The blocks have 512 bytes each. -/
  length : file.length = 512 * total
  /-- The addresses follow each other. -/
  target : ∀ number < total, (uf2Word file number 3).toNat = xipBase + 256 * number
  /-- The data of a block reach up to the address of the next one. -/
  size : ∀ number < total, (uf2Word file number 4).toNat = 256
  /-- The blocks are numbered. -/
  number : ∀ number < total, (uf2Word file number 5).toNat = number
  /-- The number of all blocks is in each of them. -/
  total : ∀ number < total, (uf2Word file number 6).toNat = total

/-- A file of the blocks of an image. -/
structure Uf2File (file image : List UInt8) : Prop extends
    Consecutive file (image.length / 256) where
  /-- The blocks of the image are whole. -/
  whole : image.length % 256 = 0
  /-- The data are those of the image. -/
  data : ∀ number < image.length / 256, ∀ offset < 256,
    fileMemory file (512 * number + 32 + offset) = image.getD (256 * number + offset) 0

/-- The file of blocks that follow each other says what they hold. -/
theorem Covers.uf2File {state : Blocks} {image : List UInt8} (covers : Covers state image)
    (fits : image.length ≤ 0x100000) :
    ∃ file, getUf2 state = some file ∧ Uf2File file image := by
  have length := covers.length
  refine ⟨_, getUf2_spec covers fits, ?_⟩
  generalize made : (state.blocks.zipIdx.flatMap fun numbered =>
    uf2Bytes state.blocks.length numbered.2 numbered.1) = file
  have count : image.length / 256 = state.blocks.length := by omega
  have word : ∀ number < state.blocks.length, ∀ field value,
      (∀ block, state.blocks[number]? = some block →
        (uf2Head state.blocks.length number block)[field]? = some value) → field < 8 →
      uf2Word file number field = UInt32.ofNat value := by
    intro number inside field value found small
    have block := List.getElem?_eq_getElem inside
    refine word32_of_bytes fun offset low => ?_
    have byte := (file_getElem? covers block (by omega)).trans (uf2Bytes_word low (found _ block))
    rw [fileMemory, List.getD_eq_getElem?_getD, Nat.add_assoc, ← made, byte]
    rfl
  have small : ∀ value < 2 ^ 32, (UInt32.ofNat value).toNat = value := fun value low =>
    UInt32.toNat_ofNat_of_lt' low
  refine ⟨⟨?length, ?target, ?size, ?number, ?total⟩, ?whole, ?data⟩
  case length =>
    rw [← made, flatMap_length covers.numbered_length, List.length_zipIdx, count]
  case whole => omega
  case target =>
    intro number inside
    have target := word number (by omega) 3 (xipBase + 256 * number)
      (fun block found => congrArg some (covers.targets _ _ found)) (by decide)
    rw [target, small _ (by unfold xipBase; omega)]
  case size =>
    intro number inside
    rw [word number (by omega) 4 256 (fun _ _ => rfl) (by decide)]
    rfl
  case number =>
    intro number inside
    rw [word number (by omega) 5 number (fun _ _ => rfl) (by decide), small _ (by omega)]
  case total =>
    intro number inside
    rw [word number (by omega) 6 state.blocks.length (fun _ _ => rfl) (by decide),
      small _ (by omega), count]
  case data =>
    intro number inside offset low
    have block := List.getElem?_eq_getElem (show number < state.blocks.length by omega)
    have sized := covers.sized _ (List.mem_of_getElem? block)
    have byte := (file_getElem? covers block (show 32 + offset < 512 by omega)).trans
      (uf2Bytes_data (by omega))
    have here := flatMap_getElem? covers.sized low number
    rw [covers.image, block, Option.bind_some] at here
    rw [fileMemory, List.getD_eq_getElem?_getD, List.getD_eq_getElem?_getD, Nat.add_assoc, ← made,
      byte, here]

/-- Writing a block of the file puts its part of the image in place. -/
theorem Uf2File.writeUf2Block {file image : List UInt8} (uf2 : Uf2File file image) (flash : Memory)
    {number : Nat} (inside : number < image.length / 256) (address : Nat) :
    writeUf2Block file flash number address =
      if 256 * number ≤ address ∧ address < 256 * number + 256 then image.getD address 0
      else flash address := by
  unfold Firmware.writeUf2Block
  rw [uf2.size number inside, uf2.target number inside, Nat.add_sub_cancel_left, readBytes_length]
  by_cases within : 256 * number ≤ address ∧ address < 256 * number + 256
  · obtain ⟨low, high⟩ := within
    have split : address = 256 * number + (address - 256 * number) := by omega
    rw [if_pos ⟨low, high⟩, split, program_inside, ← split, erase_inside _ low high, ones_and,
      readBytes_getD, if_pos (by omega), uf2.data number inside _ (by omega), ← split]
  · rw [if_neg within, program_outside _ (by rw [readBytes_length]; omega),
      erase_outside _ (by omega)]

/-- Writing the file puts the image in place. -/
theorem Uf2File.writeUf2 {file image : List UInt8} (uf2 : Uf2File file image) (flash : Memory)
    {address : Nat} (inside : address < image.length) :
    writeUf2 file flash address = image.getD address 0 := by
  have rounds : ∀ count ≤ image.length / 256, ∀ address,
      (List.range count).foldl (Firmware.writeUf2Block file) flash address =
        if address < 256 * count then image.getD address 0 else flash address := by
    intro count
    induction count with
    | zero =>
      intro _ address
      rw [if_neg (by omega)]
      rfl
    | succ count ih =>
      intro enough address
      rw [List.range_succ, List.foldl_append, List.foldl_cons, List.foldl_nil,
        uf2.writeUf2Block _ (by omega), ih (by omega)]
      by_cases earlier : address < 256 * count
      · rw [if_neg (by omega), if_pos earlier, if_pos (by omega)]
      · by_cases here : address < 256 * count + 256
        · rw [if_pos (by omega), if_pos (by omega)]
        · rw [if_neg (by omega), if_neg earlier, if_neg (by omega)]
  have whole := uf2.whole
  have total : file.length / 512 = image.length / 256 := by
    rw [uf2.length]
    omega
  rw [Firmware.writeUf2, total, rounds _ (Nat.le_refl _), if_pos (by omega)]

/-- The header of the firmware. -/
def updateHeader (usk : List UInt8) : List UInt8 :=
  [usk.length, (zlibCrc32 usk).toNat].flatMap numberBytes

/-- What the flash holds after it has been written. -/
def flashImage (busk usk : List UInt8) : List UInt8 :=
  busk ++ List.replicate (0x10000 - busk.length) 0xFF ++
    padded (updateHeader usk ++ usk ++ List.replicate 3 0xFF)

section Prepare

variable {busk usk : List UInt8}

/-- Adding a single block. -/
theorem addBlocks_one {data : List UInt8} (sized : data.length = 256) (offset : Nat)
    (state : Blocks) : addBlocks data offset state = addBlock data offset state := by
  have same : padded data = data := if_neg (by rw [sized]; decide)
  have one : (256 + 255) / 256 = 1 := rfl
  rw [addBlocks, same, sized, one, List.range_one]
  simp only [List.foldlM_cons, List.foldlM_nil, Nat.mul_zero, Nat.add_zero, List.drop_zero]
  rw [List.take_of_length_le (Nat.le_of_eq sized), bind_pure]

/-- Padding adds less than a block. -/
theorem padded_le (data : List UInt8) :
    data.length ≤ (padded data).length ∧ (padded data).length < data.length + 256 := by
  unfold padded
  split
  · rw [List.length_append, List.length_replicate]
    omega
  · omega

/-- The bootloader with the blank blocks behind it. -/
theorem padded_blank (small : busk.length ≤ 0x8000) :
    padded busk ++ List.replicate (0xFF00 - (padded busk).length) 0xFF ++ blankBlock =
      busk ++ List.replicate (0x10000 - busk.length) 0xFF := by
  have longer := padded_le busk
  have ones := padded_eq busk
  generalize (padded busk).length = length at longer ones
  have count : length - busk.length + (0xFF00 - length) + 256 = 0x10000 - busk.length := by omega
  rw [ones, blankBlock, List.append_assoc, List.append_assoc, List.replicate_append_replicate,
    List.replicate_append_replicate, ← Nat.add_assoc, count]

/-- The script lays the image out and packs it. -/
theorem prepare_spec (small : busk.length ≤ 0x8000) (fits : usk.length ≤ 0x37FF8) :
    ∃ file, prepare busk usk = some ⟨updateHeader usk ++ usk, file⟩ ∧
      Uf2File file (flashImage busk usk) := by
  have start : Covers ⟨[], xipBase⟩ [] := ⟨rfl, nofun, nofun, rfl⟩
  have whole := padded_length busk
  have longer := padded_le busk
  -- the bootloader
  obtain ⟨first, run, lastOff, covers⟩ := addBlocks_spec start busk
  -- the blank block in front of the firmware, behind the gap
  have gap : 256 * ((0xFF00 - (padded busk).length) / 256) = 0xFF00 - (padded busk).length := by
    omega
  obtain ⟨second, run', lastOff', covers'⟩ :=
    addBlock_spec covers blankBlock_length ((0xFF00 - (padded busk).length) / 256)
  have blank : first.lastOff + 256 * ((0xFF00 - (padded busk).length) / 256) = xipBase + 0xFF00 := by
    rw [gap, lastOff]
    change xipBase + (padded busk).length + _ = _
    omega
  rw [blank] at run' lastOff'
  rw [gap, List.nil_append, padded_blank small] at covers'
  -- the firmware
  have header : packWords [usk.length, (zlibCrc32 usk).toNat] = some (updateHeader usk) := by
    refine if_pos ?_
    simp only [List.forall_mem_cons]
    exact ⟨by omega, UInt32.toNat_lt _, nofun⟩
  obtain ⟨third, run'', -, covers''⟩ :=
    addBlocks_spec covers' (updateHeader usk ++ usk ++ List.replicate 3 0xFF)
  have length : (flashImage busk usk).length ≤ 0x100000 := by
    have longer' := padded_le (updateHeader usk ++ usk ++ List.replicate 3 0xFF)
    have eight : (updateHeader usk).length = 8 := rfl
    rw [List.length_append, List.length_append, eight, List.length_replicate] at longer'
    rw [flashImage, List.length_append, List.length_append, List.length_replicate]
    omega
  obtain ⟨file, packed, uf2⟩ := covers''.uf2File length
  refine ⟨file, ?_, uf2⟩
  have run2 : addBlocks blankBlock (xipBase + 0xFF00) first = some second :=
    (addBlocks_one blankBlock_length _ _).trans run'
  have run3 : addBlocks (updateHeader usk ++ usk ++ List.replicate 3 0xFF) (xipBase + 0x10000)
      second = some third := by
    rw [lastOff'] at run''
    exact run''
  change addBlocks busk xipBase ⟨[], xipBase⟩ = some first at run
  simp only [prepare, run, run2, header, run3, packed, Option.bind_eq_bind, Option.bind_some]

/-- The bootloader stands in front. -/
theorem flashImage_busk {address : Nat} (inside : address < busk.length) :
    (flashImage busk usk).getD address 0 = busk.getD address 0 := by
  rw [flashImage, List.append_assoc, List.getD_eq_getElem?_getD, List.getElem?_append_left inside,
    List.getD_eq_getElem?_getD]

/-- Behind it there are ones up to the firmware. -/
theorem flashImage_blank {address : Nat} (behind : busk.length ≤ address)
    (before : address < 0x10000) : (flashImage busk usk).getD address 0 = 0xFF := by
  have inside : address - busk.length < 0x10000 - busk.length := by omega
  rw [flashImage, List.append_assoc, List.getD_eq_getElem?_getD, List.getElem?_append_right behind,
    List.getElem?_append_left (by rwa [List.length_replicate]), List.getElem?_replicate,
    if_pos inside]
  rfl

/-- The firmware does not start before its slot. -/
theorem flashImage_front (small : busk.length ≤ 0x8000) :
    (busk ++ List.replicate (0x10000 - busk.length) (0xFF : UInt8)).length = 0x10000 := by
  rw [List.length_append, List.length_replicate]
  omega

/-- The firmware with its header follows. -/
theorem flashImage_update (small : busk.length ≤ 0x8000) {index : Nat}
    (inside : index < (updateHeader usk ++ usk).length) :
    (flashImage busk usk).getD (0x10000 + index) 0 = (updateHeader usk ++ usk).getD index 0 := by
  have front := flashImage_front small
  rw [flashImage, List.getD_eq_getElem?_getD, List.getElem?_append_right (by rw [front]; omega),
    front, Nat.add_sub_cancel_left, padded_eq, List.append_assoc (_ ++ _),
    List.getElem?_append_left inside, List.getD_eq_getElem?_getD]

end Prepare

/-- What the flash of a console holds that starts for the first time. -/
structure Bootable (busk usk : List UInt8) (flash : Memory) : Prop where
  /-- The bootloader. -/
  bootloader : readBytes flash 0 busk.length = busk
  /-- Ones up to the firmware, also where the configuration is. -/
  blank : ∀ address, busk.length ≤ address → address < 0x10000 → flash address = 0xFF
  /-- No fuse is burnt. -/
  fuses : countFuses flash = 0
  /-- The bootloader copies and runs the firmware. -/
  boots : ∀ watchdogEnableCaused watchdogCaused scratch0,
    watchdogEnableCaused = false ∨ watchdogCaused = false →
    buskMain watchdogEnableCaused watchdogCaused scratch0 flash = .tried 0 0 ⟨usk, true⟩

section Boot

variable {busk usk : List UInt8} {flash : Memory}

/-- The checksum of the script is the one that the bootloader computes. -/
theorem crc32_eq_zlibCrc32 (bytes : List UInt8) : crc32 bytes = zlibCrc32 bytes :=
  UInt32.toBitVec_inj.mp (crc32_toBitVec bytes)

/-- Bytes of a list that lie in memory are read. -/
theorem readBytes_eq_of_getD {memory : Memory} {address : Nat} {bytes : List UInt8}
    (same : ∀ index < bytes.length, memory (address + index) = bytes.getD index 0) :
    readBytes memory address bytes.length = bytes := by
  apply List.ext_getElem (readBytes_length ..)
  intro index low high
  have byte := same index high
  rw [List.getD_eq_getElem?_getD, List.getElem?_eq_getElem high] at byte
  simpa [readBytes] using byte

/-- A header and an image behind it start the image. -/
theorem startupFromSlot_of_update (nonempty : 0 < usk.length) (fits : usk.length ≤ 0x37FF8)
    {slot : Slot} (update : ∀ index < (updateHeader usk ++ usk).length,
      flash (fwSlot slot + index) = (updateHeader usk ++ usk).getD index 0) :
    startupFromSlot slot flash = ⟨usk, true⟩ := by
  have eight : (updateHeader usk).length = 8 := rfl
  have length : (updateHeader usk ++ usk).length = 8 + usk.length := by
    rw [List.length_append, eight]
  have sized : ∀ number ∈ [usk.length, (zlibCrc32 usk).toNat], (numberBytes number).length = 4 :=
    fun _ _ => rfl
  have header : ∀ field < 2, ∀ number,
      [usk.length, (zlibCrc32 usk).toNat][field]? = some number →
      word32 flash (fwSlot slot + 4 * field) = UInt32.ofNat number := by
    intro field two number found
    refine word32_of_bytes fun offset small => ?_
    have byte := (flatMap_getElem? sized small field).trans
      ((congrArg (Option.bind · _) found).trans (wordBytes_getElem? _ small))
    rw [Nat.add_assoc, update _ (by omega), List.getD_eq_getElem?_getD,
      List.getElem?_append_left (by rw [eight]; omega), updateHeader, byte]
    rfl
  have size : fwSize flash slot = UInt32.ofNat usk.length := header 0 (by decide) _ rfl
  have count : (fwSize flash slot).toNat = usk.length := by
    rw [size]
    exact UInt32.toNat_ofNat_of_lt' (Nat.lt_of_le_of_lt fits (by decide))
  have crc : fwCrc flash slot = zlibCrc32 usk :=
    (header 1 (by decide) _ rfl).trans (UInt32.ofNat_toNat)
  have data : fwData flash slot = usk := by
    rw [fwData, count]
    refine readBytes_eq_of_getD fun index inside => ?_
    rw [Nat.add_assoc, update _ (by omega), List.getD_eq_getElem?_getD,
      List.getElem?_append_right (by rw [eight]; omega), eight, Nat.add_sub_cancel_left,
      List.getD_eq_getElem?_getD]
  have accepted : (decide (fwSize flash slot > 0x38000) || fwSize flash slot == 0) = false := by
    have large : ¬ fwSize flash slot > 0x38000 := by
      intro larger
      have beyond := UInt32.lt_iff_toNat_lt.mp larger
      rw [count] at beyond
      change 0x38000 < _ at beyond
      omega
    have zero : fwSize flash slot ≠ 0 := by
      intro none
      rw [none] at count
      change 0 = _ at count
      omega
    simp [large, zero]
  rw [startupFromSlot, accepted, if_neg Bool.false_ne_true, data, crc, ← crc32_eq_zlibCrc32]
  exact congrArg (Start.mk usk) (beq_self_eq_true _)

/-- Flash with the image starts the firmware. -/
theorem bootable_of_image (small : busk.length ≤ 0x8000) (nonempty : 0 < usk.length)
    (fits : usk.length ≤ 0x37FF8)
    (holds : ∀ address < (flashImage busk usk).length,
      flash address = (flashImage busk usk).getD address 0) : Bootable busk usk flash := by
  have length : 0x10000 + (updateHeader usk ++ usk).length ≤ (flashImage busk usk).length := by
    have longer := (padded_le (updateHeader usk ++ usk ++ List.replicate 3 0xFF)).1
    have filled : (updateHeader usk ++ usk ++ List.replicate 3 (0xFF : UInt8)).length =
        (updateHeader usk ++ usk).length + 3 :=
      List.length_append.trans (congrArg _ List.length_replicate)
    have whole : (flashImage busk usk).length =
        0x10000 + (padded (updateHeader usk ++ usk ++ List.replicate 3 0xFF)).length :=
      List.length_append.trans (congrArg (· + _) (flashImage_front small))
    omega
  have blank : ∀ address, busk.length ≤ address → address < 0x10000 → flash address = 0xFF := by
    intro address behind before
    rw [holds address (by omega), flashImage_blank behind before]
  have fuses : countFuses flash = 0 := by
    have page : FusePage flash 0 := holds_zero fun offset inside =>
      blank _ (by unfold fuseOff; omega) (by unfold fuseOff; omega)
    exact page.countFuses
  have started : startupFromSlot 0 flash = ⟨usk, true⟩ := by
    refine startupFromSlot_of_update nonempty fits fun index inside => ?_
    change flash (0x10000 + index) = _
    rw [holds _ (by omega), flashImage_update small inside]
  have slot : fuseSlot flash = 0 := by
    rw [fuseSlot]
    simp [fuses]
  refine ⟨?_, blank, fuses, ?_⟩
  · refine readBytes_eq_of_getD fun index inside => ?_
    rw [Nat.zero_add, holds index (by omega), flashImage_busk inside]
  · intro watchdogEnableCaused watchdogCaused scratch0 cold
    have first : (!watchdogEnableCaused || !watchdogCaused) = true := by
      rcases cold with rfl | rfl
      · rfl
      · cases watchdogEnableCaused <;> rfl
    rw [buskMain, if_pos first, slot, started]

end Boot

/-- The build script succeeds. Its file consists of consecutive numbered blocks, and flash that it
is written to holds the bootloader, a blank configuration and a firmware that the bootloader
starts. -/
theorem prepare_boots (busk usk : List UInt8) (small : busk.length ≤ 0x8000)
    (nonempty : 0 < usk.length) (fits : usk.length ≤ 0x37FF8) :
    ∃ prepared total, prepare busk usk = some prepared ∧
      Consecutive prepared.firmwareUf2 total ∧
      ∀ flash, Bootable busk usk (writeUf2 prepared.firmwareUf2 flash) := by
  obtain ⟨file, run, uf2⟩ := @prepare_spec busk usk small fits
  refine ⟨_, _, run, uf2.toConsecutive, fun flash => ?_⟩
  exact bootable_of_image small nonempty fits fun address inside => uf2.writeUf2 flash inside

/-- A bootloader and a firmware of one byte each. -/
theorem prepare_boots_bytes : ∃ prepared total, prepare [1] [2] = some prepared ∧
    Consecutive prepared.firmwareUf2 total ∧
    ∀ flash, Bootable [1] [2] (writeUf2 prepared.firmwareUf2 flash) :=
  prepare_boots [1] [2] (by decide) (by decide) (by decide)

end Fly2040.Firmware
