import Fly2040.Firmware.Fuses
import Fly2040.Lib.Crc
/-!
# Bootloader

The bootloader counts the fuses, picks a slot from the count and from the number of the boot
attempt, and starts the firmware of that slot: the image is copied to RAM and run if its
checksum is the one in its header. A refused image reboots through the watchdog.
-/

namespace Fly2040.Firmware

open Bytes Crc

/-- Checksum table of the bootloader. -/
def crc32Table : List UInt32 := [
  0x00000000, 0x77073096, 0xee0e612c, 0x990951ba, 0x076dc419, 0x706af48f, 0xe963a535, 0x9e6495a3,
  0x0edb8832, 0x79dcb8a4, 0xe0d5e91e, 0x97d2d988, 0x09b64c2b, 0x7eb17cbd, 0xe7b82d07, 0x90bf1d91,
  0x1db71064, 0x6ab020f2, 0xf3b97148, 0x84be41de, 0x1adad47d, 0x6ddde4eb, 0xf4d4b551, 0x83d385c7,
  0x136c9856, 0x646ba8c0, 0xfd62f97a, 0x8a65c9ec, 0x14015c4f, 0x63066cd9, 0xfa0f3d63, 0x8d080df5,
  0x3b6e20c8, 0x4c69105e, 0xd56041e4, 0xa2677172, 0x3c03e4d1, 0x4b04d447, 0xd20d85fd, 0xa50ab56b,
  0x35b5a8fa, 0x42b2986c, 0xdbbbc9d6, 0xacbcf940, 0x32d86ce3, 0x45df5c75, 0xdcd60dcf, 0xabd13d59,
  0x26d930ac, 0x51de003a, 0xc8d75180, 0xbfd06116, 0x21b4f4b5, 0x56b3c423, 0xcfba9599, 0xb8bda50f,
  0x2802b89e, 0x5f058808, 0xc60cd9b2, 0xb10be924, 0x2f6f7c87, 0x58684c11, 0xc1611dab, 0xb6662d3d,
  0x76dc4190, 0x01db7106, 0x98d220bc, 0xefd5102a, 0x71b18589, 0x06b6b51f, 0x9fbfe4a5, 0xe8b8d433,
  0x7807c9a2, 0x0f00f934, 0x9609a88e, 0xe10e9818, 0x7f6a0dbb, 0x086d3d2d, 0x91646c97, 0xe6635c01,
  0x6b6b51f4, 0x1c6c6162, 0x856530d8, 0xf262004e, 0x6c0695ed, 0x1b01a57b, 0x8208f4c1, 0xf50fc457,
  0x65b0d9c6, 0x12b7e950, 0x8bbeb8ea, 0xfcb9887c, 0x62dd1ddf, 0x15da2d49, 0x8cd37cf3, 0xfbd44c65,
  0x4db26158, 0x3ab551ce, 0xa3bc0074, 0xd4bb30e2, 0x4adfa541, 0x3dd895d7, 0xa4d1c46d, 0xd3d6f4fb,
  0x4369e96a, 0x346ed9fc, 0xad678846, 0xda60b8d0, 0x44042d73, 0x33031de5, 0xaa0a4c5f, 0xdd0d7cc9,
  0x5005713c, 0x270241aa, 0xbe0b1010, 0xc90c2086, 0x5768b525, 0x206f85b3, 0xb966d409, 0xce61e49f,
  0x5edef90e, 0x29d9c998, 0xb0d09822, 0xc7d7a8b4, 0x59b33d17, 0x2eb40d81, 0xb7bd5c3b, 0xc0ba6cad,
  0xedb88320, 0x9abfb3b6, 0x03b6e20c, 0x74b1d29a, 0xead54739, 0x9dd277af, 0x04db2615, 0x73dc1683,
  0xe3630b12, 0x94643b84, 0x0d6d6a3e, 0x7a6a5aa8, 0xe40ecf0b, 0x9309ff9d, 0x0a00ae27, 0x7d079eb1,
  0xf00f9344, 0x8708a3d2, 0x1e01f268, 0x6906c2fe, 0xf762575d, 0x806567cb, 0x196c3671, 0x6e6b06e7,
  0xfed41b76, 0x89d32be0, 0x10da7a5a, 0x67dd4acc, 0xf9b9df6f, 0x8ebeeff9, 0x17b7be43, 0x60b08ed5,
  0xd6d6a3e8, 0xa1d1937e, 0x38d8c2c4, 0x4fdff252, 0xd1bb67f1, 0xa6bc5767, 0x3fb506dd, 0x48b2364b,
  0xd80d2bda, 0xaf0a1b4c, 0x36034af6, 0x41047a60, 0xdf60efc3, 0xa867df55, 0x316e8eef, 0x4669be79,
  0xcb61b38c, 0xbc66831a, 0x256fd2a0, 0x5268e236, 0xcc0c7795, 0xbb0b4703, 0x220216b9, 0x5505262f,
  0xc5ba3bbe, 0xb2bd0b28, 0x2bb45a92, 0x5cb36a04, 0xc2d7ffa7, 0xb5d0cf31, 0x2cd99e8b, 0x5bdeae1d,
  0x9b64c2b0, 0xec63f226, 0x756aa39c, 0x026d930a, 0x9c0906a9, 0xeb0e363f, 0x72076785, 0x05005713,
  0x95bf4a82, 0xe2b87a14, 0x7bb12bae, 0x0cb61b38, 0x92d28e9b, 0xe5d5be0d, 0x7cdcefb7, 0x0bdbdf21,
  0x86d3d2d4, 0xf1d4e242, 0x68ddb3f8, 0x1fda836e, 0x81be16cd, 0xf6b9265b, 0x6fb077e1, 0x18b74777,
  0x88085ae6, 0xff0f6a70, 0x66063bca, 0x11010b5c, 0x8f659eff, 0xf862ae69, 0x616bffd3, 0x166ccf45,
  0xa00ae278, 0xd70dd2ee, 0x4e048354, 0x3903b3c2, 0xa7672661, 0xd06016f7, 0x4969474d, 0x3e6e77db,
  0xaed16a4a, 0xd9d65adc, 0x40df0b66, 0x37d83bf0, 0xa9bcae53, 0xdebb9ec5, 0x47b2cf7f, 0x30b5ffe9,
  0xbdbdf21c, 0xcabac28a, 0x53b39330, 0x24b4a3a6, 0xbad03605, 0xcdd70693, 0x54de5729, 0x23d967bf,
  0xb3667a2e, 0xc4614ab8, 0x5d681b02, 0x2a6f2b94, 0xb40bbe37, 0xc30c8ea1, 0x5a05df1b, 0x2d02ef8d]

/-- Advance the checksum by one byte. -/
def crc32Step (crc : UInt32) (byte : UInt8) : UInt32 :=
  crc32Table.getD ((crc ^^^ byte.toUInt32) &&& 0xFF).toNat 0 ^^^ (crc >>> 8)

/-- Checksum of a firmware image. -/
def crc32 (bytes : List UInt8) : UInt32 := bytes.foldl crc32Step (~~~0) ^^^ ~~~0

/-- What an attempt to start a slot has done when it either runs the image or reboots. -/
structure Start where
  /-- The bytes copied to RAM. -/
  copied : List UInt8
  /-- The copied image is run. -/
  accepted : Bool
deriving DecidableEq

/-- Size in the header of a slot. -/
def fwSize (memory : Memory) (slot : Slot) : UInt32 := word32 memory (fwSlot slot)

/-- Checksum in the header of a slot. -/
def fwCrc (memory : Memory) (slot : Slot) : UInt32 := word32 memory (fwSlot slot + 4)

/-- The image of a slot, as long as its header says. -/
def fwData (memory : Memory) (slot : Slot) : List UInt8 :=
  readBytes memory (fwSlot slot + 8) (fwSize memory slot).toNat

/-- Start the firmware of a slot. -/
def startupFromSlot (slot : Slot) (memory : Memory) : Start :=
  -- check the size
  if fwSize memory slot > 0x38000 || fwSize memory slot == 0 then ⟨[], false⟩
  else
    -- copy data into the RAM
    let ram := fwData memory slot
    ⟨ram, crc32 ram == fwCrc memory slot⟩

/-- The slot of a later boot attempt. -/
def retrySlot (bootSlot : Slot) (bootTry : UInt32) : Slot :=
  ⟨(UInt32.ofNat bootSlot ^^^ bootTry ^^^ 1).toNat % 2, Nat.mod_lt _ (by decide)⟩

/-- How the bootloader ends. -/
inductive BuskEnd where
  /-- All pins are off for good. -/
  | halted
  /-- An attempt was made with the number of the attempt and the slot in the scratch
  registers. -/
  | tried (scratch0 : UInt32) (slot : Slot) (start : Start)

/-- The bootloader, given what the watchdog says about the last reset and the scratch register
that counts the attempts. -/
def buskMain (watchdogEnableCaused watchdogCaused : Bool) (scratch0 : UInt32)
    (memory : Memory) : BuskEnd :=
  let bootSlot := fuseSlot memory
  -- first boot attempt
  if !watchdogEnableCaused || !watchdogCaused then
    .tried 0 bootSlot (startupFromSlot bootSlot memory)
  -- next boot attempt: 1 update or failed boot, 2 rollback after update, 3 total fail
  else if scratch0 = 3 then .halted
  else
    let slot := retrySlot bootSlot scratch0
    .tried (scratch0 + 1) slot (startupFromSlot slot memory)

/-- The attempt that restarts the count is made on the slot of the fuses. -/
theorem retrySlot_zero (bootSlot : Slot) {bootTry : UInt32} (restart : bootTry + 1 = 0) :
    retrySlot bootSlot bootTry = bootSlot := by
  have back : bootTry + 1 - 1 = 0 - 1 := by rw [restart]
  have last : bootTry = -1 := by simpa using back
  subst last
  revert bootSlot
  decide

/-- An image that the loader does not refuse for its size fits its slot with its header. -/
def ImageFits (memory : Memory) (slot : Slot) : Prop :=
  fwSize memory slot ≤ 0x38000 → fwSize memory slot ≤ 0x37FF8

instance (memory : Memory) (slot : Slot) : Decidable (ImageFits memory slot) :=
  inferInstanceAs (Decidable (_ → _))

/-- Two memories hold the same bytes in a slot. -/
def SameSlot (slot : Slot) (before after : Memory) : Prop :=
  ∀ address, fwSlot slot ≤ address → address < fwSlot slot + slotSize →
    after address = before address

section Isolation

variable {memory memory' : Memory} {slot : Slot}

/-- The header of a slot is read from the slot. -/
theorem SameSlot.header (same : SameSlot slot memory memory') :
    fwSize memory' slot = fwSize memory slot ∧ fwCrc memory' slot = fwCrc memory slot :=
  ⟨word32_congr fun offset inside => same _ (by omega) (by unfold slotSize; omega),
    word32_congr fun offset inside => same _ (by omega) (by unfold slotSize; omega)⟩

/-- An image that fits its slot is started from the bytes of the slot alone. -/
theorem startupFromSlot_congr (fits : ImageFits memory slot) (same : SameSlot slot memory memory') :
    startupFromSlot slot memory' = startupFromSlot slot memory := by
  obtain ⟨size, crc⟩ := same.header
  have data : fwSize memory slot ≤ 0x38000 → fwData memory' slot = fwData memory slot := by
    intro small
    have inside : (fwSize memory slot).toNat ≤ 0x37FF8 := fits small
    rw [fwData, fwData, size]
    exact (readBytes_eq_iff _ _ _ _).mpr fun offset below =>
      same _ (by omega) (by unfold slotSize; omega)
  simp only [startupFromSlot, size, crc]
  by_cases large : fwSize memory slot > 0x38000
  · simp [large]
  · rw [data (UInt32.not_lt.mp large)]

/-- Images that differ in a copied byte are started from different bytes. -/
theorem copied_ne (beyond : 0x37FF8 < fwSize memory slot) (small : fwSize memory slot ≤ 0x38000)
    (size : fwSize memory' slot = fwSize memory slot) {offset : Nat}
    (inside : offset < (fwSize memory slot).toNat)
    (differ : memory' (fwSlot slot + 8 + offset) ≠ memory (fwSlot slot + 8 + offset)) :
    (startupFromSlot slot memory').copied ≠ (startupFromSlot slot memory).copied := by
  have nonzero : fwSize memory slot ≠ 0 := by
    intro zero
    rw [zero] at beyond
    exact absurd beyond (by decide)
  simp only [startupFromSlot, size, UInt32.not_lt.mpr small, decide_false,
    beq_eq_false_iff_ne.mpr nonzero, Bool.or_self, Bool.false_eq_true, if_false, fwData]
  exact fun same => differ ((readBytes_eq_iff _ _ _ _).mp same offset inside)

/-- Starting slot 0 depends on the bytes of slot 0 alone exactly when the size in its header is
not one of those that the loader accepts and the slot cannot hold. -/
theorem startup_isolated_iff (memory : Memory) :
    (∀ memory', SameSlot 0 memory memory' →
      startupFromSlot 0 memory' = startupFromSlot 0 memory) ↔
      ¬ (0x37FF8 < fwSize memory 0 ∧ fwSize memory 0 ≤ 0x38000) := by
  constructor
  · intro isolated after
    obtain ⟨beyond, small⟩ := after
    -- the byte after the slot is the first one of slot 1
    let memory' : Memory := fun address =>
      if address = 0x48000 then memory address + 1 else memory address
    have same : SameSlot 0 memory memory' := fun address _ high =>
      if_neg (by simp only [fwSlot, if_true, slotSize] at high; omega)
    have inside := UInt32.lt_iff_toNat_lt.mp beyond
    refine copied_ne beyond small same.header.1 inside ?_ (congrArg Start.copied (isolated _ same))
    change memory 0x48000 + 1 ≠ memory 0x48000
    intro equal
    simp at equal
  · intro fits memory' same
    refine startupFromSlot_congr (fun small => ?_) same
    exact UInt32.not_lt.mp fun beyond => fits ⟨beyond, small⟩

end Isolation

/-- The index into the checksum table is the low byte of the checksum combined with the data. -/
theorem crc32_index (crc : UInt32) (byte : UInt8) :
    ((crc ^^^ byte.toUInt32) &&& 0xFF).toNat = (crc.toUInt8 ^^^ byte).toNat := by
  have low : (crc ^^^ byte.toUInt32).toUInt8 = crc.toUInt8 ^^^ byte := by simp
  rw [← low, UInt32.toNat_toUInt8, UInt32.toNat_and]
  exact Nat.and_two_pow_sub_one_eq_mod _ 8

/-- The table of the bootloader holds the moves of every byte. -/
theorem crc32Table_entries (index : BitVec 8) :
    (crc32Table.getD index.toNat 0).toBitVec =
      reflectedBits 0xEDB88320#32 8 (index.setWidth 32) := by
  have entries : ∀ index : Fin 256, (crc32Table.getD index.val 0).toBitVec =
      reflectedBits 0xEDB88320#32 8 ((BitVec.ofFin index : BitVec 8).setWidth 32) := by
    decide +kernel
  exact entries index.toFin

/-- A step of the bootloader takes in a byte bit by bit. -/
theorem crc32Step_toBitVec (crc : UInt32) (byte : UInt8) :
    (crc32Step crc byte).toBitVec = reflectedByte 0xEDB88320#32 crc.toBitVec byte := by
  rw [reflectedByte_table _ crc32Table_entries, crc32Step, crc32_index]
  rfl

/-- The checksum of the bootloader is the standard one. -/
theorem crc32_toBitVec (bytes : List UInt8) : (crc32 bytes).toBitVec =
    reflected 0xEDB88320#32 0xFFFFFFFF#32 0xFFFFFFFF#32 bytes := by
  have steps : ∀ crc : UInt32, (bytes.foldl crc32Step crc).toBitVec =
      bytes.foldl (reflectedByte 0xEDB88320#32) crc.toBitVec := by
    induction bytes with
    | nil => exact fun _ => rfl
    | cons byte rest ih =>
      intro crc
      rw [List.foldl_cons, ih, crc32Step_toBitVec, List.foldl_cons]
  rw [crc32, UInt32.toBitVec_xor, steps]
  rfl

/-- Images that differ in the lowest bit of their last byte have different checksums. -/
theorem crc32_last_ne (bytes : List UInt8) : crc32 (bytes ++ [1]) ≠ crc32 (bytes ++ [0]) := by
  have table : ∀ index : Fin 256,
      crc32Table.getD (UInt8.ofFin index ^^^ 1).toNat 0 ≠
        crc32Table.getD (UInt8.ofFin index ^^^ 0).toNat 0 := by
    decide +kernel
  intro same
  simp only [crc32, List.foldl_append, List.foldl_cons, List.foldl_nil] at same
  have steps := (UInt32.xor_left_inj _).mp same
  simp only [crc32Step, crc32_index] at steps
  exact table _ ((UInt32.xor_left_inj _).mp steps)

/-- A flash image whose slot 0 claims the whole slot as data: the last eight bytes of its data are
the header of slot 1. -/
def overlongFlash (last : UInt8) : Memory := fun address =>
  if address < 0x10004 then byte32 0x38000 (address - 0x10000)
  else if address < 0x10008 then
    byte32 (crc32 (List.replicate 0x37FFF 0 ++ [0])) (address - 0x10004)
  else if address = 0x48007 then last
  else 0

/-- The header of the image. -/
theorem overlongFlash_header (last : UInt8) :
    fwSize (overlongFlash last) 0 = 0x38000 ∧
      fwCrc (overlongFlash last) 0 = crc32 (List.replicate 0x37FFF 0 ++ [0]) := by
  constructor
  · refine word32_of_bytes fun offset inside => ?_
    rw [fwSlot, if_pos rfl, overlongFlash, if_pos (by omega), Nat.add_sub_cancel_left]
  · refine word32_of_bytes fun offset inside => ?_
    rw [fwSlot, if_pos rfl, overlongFlash, if_neg (by omega), if_pos (by omega),
      Nat.add_sub_cancel_left]

/-- The data of the image: zeros up to the last byte. -/
theorem overlongFlash_data (last : UInt8) :
    fwData (overlongFlash last) 0 = List.replicate 0x37FFF 0 ++ [last] := by
  have length : (0x38000 : UInt32).toNat = 0x37FFF + 1 := rfl
  rw [fwData, (overlongFlash_header last).1, length, readBytes, List.range_succ, List.map_append]
  refine congrArg₂ (· ++ ·) ?_ ?_
  · refine List.eq_replicate_iff.mpr
      ⟨by rw [List.length_map, List.length_range], fun byte member => ?_⟩
    obtain ⟨offset, listed, rfl⟩ := List.mem_map.mp member
    have inside := List.mem_range.mp listed
    rw [fwSlot, if_pos rfl, overlongFlash, if_neg (by omega), if_neg (by omega),
      if_neg (by omega)]
  · rw [List.map_singleton, fwSlot, if_pos rfl, overlongFlash, if_neg (by decide),
      if_neg (by decide), if_pos rfl]

/-- The image is accepted with one byte in slot 1 and refused with another. -/
theorem startup_not_isolated :
    SameSlot 0 (overlongFlash 0) (overlongFlash 1) ∧
      (startupFromSlot 0 (overlongFlash 0)).accepted = true ∧
      (startupFromSlot 0 (overlongFlash 1)).accepted = false := by
  have started : ∀ last, (startupFromSlot 0 (overlongFlash last)).accepted =
      (crc32 (List.replicate 0x37FFF 0 ++ [last]) == crc32 (List.replicate 0x37FFF 0 ++ [0])) := by
    intro last
    obtain ⟨size, crc⟩ := overlongFlash_header last
    rw [startupFromSlot, size, crc, overlongFlash_data]
    rfl
  refine ⟨fun address low high => ?_, ?_, ?_⟩
  · have before : address < 0x48000 := high
    simp only [overlongFlash, show address ≠ 0x48007 by omega, if_false]
  · rw [started, beq_self_eq_true]
  · rw [started]
    exact beq_eq_false_iff_ne.mpr (crc32_last_ne _)

end Fly2040.Firmware
