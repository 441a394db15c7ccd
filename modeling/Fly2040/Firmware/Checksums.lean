import Fly2040.Firmware.Busk
import Fly2040.Firmware.Transfers
/-!
# Checksums by tables

The firmware computes its checksums byte by byte with tables: that of eMMC data with a table that is
prepared by moving a register, that of a firmware image with a table of constants. Both are the
remainders of a division of polynomials, as a register computes them bit by bit: the one from the
highest bit of each byte on, the other one from the lowest.
-/

namespace Fly2040.Firmware

open Bits Remainder

/-- Prepare the table of the checksum of eMMC data. -/
def crcPrepareTable (table : Vector UInt16 256) : Vector UInt16 256 :=
  (List.finRange 256).foldl
    (fun table (i : Fin 256) => table.set i (crcItuTEntry (UInt8.ofFin i))) table

/-- Advance the checksum by one byte with a table. -/
def crcItuTLookup (table : Vector UInt16 256) (crc : UInt16) (data : UInt8) : UInt16 :=
  (crc <<< 8) ^^^ table.get ((crc >>> 8) ^^^ data.toUInt16).toUInt8.toFin

/-- Checksum of eMMC data from a value on, with the table prepared before. -/
def crcItuTFrom (table : Vector UInt16 256) (crc : UInt16) (buffer : List UInt8) : UInt16 :=
  buffer.foldl (crcItuTLookup (crcPrepareTable table)) crc

namespace Checksums

/-- What has been written to a table stays, and the rest is what was there. -/
theorem foldl_set_get {size : Nat} (entry : Fin size → UInt16) (indices : List (Fin size))
    (table : Vector UInt16 size) (index : Fin size) :
    (indices.foldl (fun table i => table.set i (entry i)) table).get index =
      if index ∈ indices then entry index else table.get index := by
  induction indices generalizing table with
  | nil => rfl
  | cons first indices ih =>
    rw [List.foldl_cons, ih]
    by_cases inside : index ∈ indices
    · rw [if_pos inside, if_pos (List.mem_cons_of_mem first inside)]
    · rw [if_neg inside]
      by_cases same : index = first
      · rw [same, if_pos List.mem_cons_self]
        exact Vector.getElem_set_self _
      · rw [if_neg (by rw [List.mem_cons]; exact not_or.mpr ⟨same, inside⟩)]
        exact Vector.getElem_set_ne _ _ (fun equal => same (Fin.ext equal.symm))

/-- Every entry of the table is prepared. -/
theorem crcPrepareTable_get (table : Vector UInt16 256) (index : UInt8) :
    (crcPrepareTable table).get index.toFin = crcItuTEntry index := by
  rw [crcPrepareTable, foldl_set_get fun i => crcItuTEntry (UInt8.ofFin i),
    if_pos (List.mem_finRange _)]
  rfl

/-- The checksum takes its bytes through the entries, whatever was in the table before. -/
theorem crcItuTFrom_eq (table : Vector UInt16 256) (crc : UInt16) (buffer : List UInt8) :
    crcItuTFrom table crc buffer = buffer.foldl crcItuTByte crc := by
  have lookup : crcItuTLookup (crcPrepareTable table) = crcItuTByte := by
    funext crc data
    rw [crcItuTLookup, crcPrepareTable_get, crcItuTByte]
  rw [crcItuTFrom, lookup]

/-- The highest bit of a half word is tested with a mask. -/
theorem and_mask (crc : UInt16) : crc &&& 0x8000 ≠ 0 ↔ crc.toBitVec.msb = true := by
  rw [ne_eq, ← UInt16.toBitVec_inj, BitVec.msb_eq_getLsbD_last]
  exact and_twoPow_ne_zero crc.toBitVec (show 15 < 16 by decide)

/-- A move of the half word is a move of the register. -/
theorem half_shiftLeft (crc : UInt16) : (crc <<< 1).toBitVec = crc.toBitVec <<< 1 := rfl

/-- A move in the loop that prepares the table takes in a zero. -/
theorem crcItuTBit_shift (crc : UInt16) :
    (if crc &&& 0x8000 ≠ 0 then (crc <<< 1) ^^^ 0x1021 else crc <<< 1).toBitVec =
      shift 0x1021 crc.toBitVec false := by
  rw [shift, Bool.xor_false]
  cases top : crc.toBitVec.msb with
  | false =>
    rw [if_neg (fun out => Bool.false_ne_true (top.symm.trans ((and_mask crc).mp out))),
      half_shiftLeft]
    exact BitVec.xor_zero.symm
  | true =>
    rw [if_pos ((and_mask crc).mpr top), if_pos rfl, UInt16.toBitVec_xor, half_shiftLeft]
    rfl

/-- An entry is eight moves of the register. -/
theorem crcItuTEntry_shift (index : UInt8) :
    (crcItuTEntry index).toBitVec =
      (List.replicate 8 false).foldl (shift 0x1021) (index.toUInt16 <<< 8).toBitVec := by
  have moves (count : Nat) (crc : UInt16) :
      ((List.range count).foldl (fun (crc : UInt16) _ =>
        if crc &&& 0x8000 ≠ 0 then (crc <<< 1) ^^^ 0x1021 else crc <<< 1) crc).toBitVec =
      (List.replicate count false).foldl (shift 0x1021) crc.toBitVec := by
    induction count with
    | zero => rfl
    | succ count ih =>
      rw [List.range_succ, List.foldl_append, List.foldl_cons, List.foldl_nil, crcItuTBit_shift, ih,
        List.replicate_succ', List.foldl_append, List.foldl_cons, List.foldl_nil]
  exact moves 8 _

/-- The polynomial of a half word in terms of its bytes. -/
theorem value_half (half : UInt16) :
    value half.toBitVec =
      value (half >>> 8).toUInt8.toBitVec * Polynomial.X ^ 8 + value half.toUInt8.toBitVec := by
  have split := ofBits_append (ofByte (half >>> 8).toUInt8) (ofByte half.toUInt8)
  rw [ofByte_length] at split
  show ofBits (ofHalf half) = _
  rw [ofHalf_bytes, ofBytes_cons, ofBytes_cons, ofBytes_nil, List.append_nil, split]
  rfl

/-- A byte in the higher half of a register. -/
theorem value_high (byte : UInt8) :
    value (byte.toUInt16 <<< 8).toBitVec = value byte.toBitVec * Polynomial.X ^ 8 := by
  have zeros : List.replicate 8 false = ofByte 0 := by decide
  have bits : ofHalf (byte.toUInt16 <<< 8) = ofByte byte ++ List.replicate 8 false := by
    have same := ofHalf_of_bytes byte 0
    rw [ofBytes_cons, ofBytes_cons, ofBytes_nil, List.append_nil, ← zeros] at same
    rw [← same]
    simp
  show ofBits (ofHalf (byte.toUInt16 <<< 8)) = _
  rw [bits, ofBits_append, ofBits_replicate, add_zero, List.length_replicate]
  rfl

/-- The lower half of a register moved up. -/
theorem value_moved (crc : UInt16) :
    value (crc <<< 8).toBitVec = value crc.toUInt8.toBitVec * Polynomial.X ^ 8 := by
  have moved : (crc <<< 8).toBitVec = crc.toBitVec <<< 8 := rfl
  rw [moved, value_shiftLeft_drop _ (by decide)]
  show ofBits ((ofHalf crc).drop 8) * _ = _
  rw [ofHalf_bytes, ofBytes_cons, List.drop_left' (ofByte_length _), ofBytes_cons, ofBytes_nil,
    List.append_nil]
  rfl

/-- An entry is the remainder of its index. -/
theorem crcItuTEntry_value (index : UInt8) :
    value (crcItuTEntry index).toBitVec =
      (value index.toBitVec * Polynomial.X ^ 8 * Polynomial.X ^ 8) %ₘ
        divisor (0x1021 : BitVec 16) := by
  rw [crcItuTEntry_shift, value_remainder, value_high, ofBits_replicate, List.length_replicate,
    zero_mul, add_zero]

/-- A byte is taken in by eight moves. -/
theorem crcItuTByte_shift (crc : UInt16) (data : UInt8) :
    (crcItuTByte crc data).toBitVec = (ofByte data).foldl (shift 0x1021) crc.toBitVec := by
  have index : ((crc >>> 8) ^^^ data.toUInt16).toUInt8 = (crc >>> 8).toUInt8 ^^^ data := by
    rw [UInt16.toUInt8_xor]
    simp
  have small : (value (crc <<< 8).toBitVec) %ₘ divisor (0x1021 : BitVec 16) =
      value (crc <<< 8).toBitVec := by
    apply (Polynomial.modByMonic_eq_self_iff (divisor_monic _)).mpr
    rw [divisor_degree]
    exact value_degree _
  have taken := value_remainder (0x1021 : BitVec 16) crc.toBitVec (ofByte data)
  have bits : ofBits (ofByte data) = value data.toBitVec := rfl
  have sum (high low data : Polynomial (ZMod 2)) :
      low * Polynomial.X ^ 8 + (high + data) * Polynomial.X ^ 8 * Polynomial.X ^ 8 =
        (high * Polynomial.X ^ 8 + low) * Polynomial.X ^ 8 + data * Polynomial.X ^ 16 := by
    ring
  rw [ofByte_length, value_half crc, bits, ← sum] at taken
  apply value_injective
  rw [taken, crcItuTByte, index, UInt16.toBitVec_xor, value_xor, crcItuTEntry_value, ← small,
    ← Polynomial.add_modByMonic, value_moved, UInt8.toBitVec_xor, value_xor]

/-- The checksum takes in its bytes bit by bit. -/
theorem foldl_crcItuTByte (crc : UInt16) (bytes : List UInt8) :
    (bytes.foldl crcItuTByte crc).toBitVec =
      (ofBytes bytes).foldl (shift 0x1021) crc.toBitVec := by
  induction bytes generalizing crc with
  | nil => rfl
  | cons byte bytes ih =>
    rw [List.foldl_cons, ih, crcItuTByte_shift, ofBytes_cons, List.foldl_append]

/-- The polynomial that the checksum of eMMC data divides by. -/
theorem divisor_crcItuT : divisor (0x1021 : BitVec 16) =
    Polynomial.X ^ 16 + Polynomial.X ^ 12 + Polynomial.X ^ 5 + 1 := by
  have bits : highFirst (0x1021 : BitVec 16) = [false, false, false, true, false, false, false,
      false, false, false, true, false, false, false, false, true] := by
    decide
  rw [divisor, value, bits]
  simp [ofBits, coefficient]
  ring

/-- The checksum of a received block is the one that begins with zero. -/
theorem crcItuT_eq (table : Vector UInt16 256) (bytes : List UInt8) :
    crcItuT bytes = crcItuTFrom table 0 bytes := (crcItuTFrom_eq table 0 bytes).symm

/-- The polynomial that the checksum of a firmware image divides by. -/
theorem divisor_crc32 : divisor (0xEDB88320 : BitVec 32).reverse =
    Polynomial.X ^ 32 + Polynomial.X ^ 26 + Polynomial.X ^ 23 + Polynomial.X ^ 22 +
      Polynomial.X ^ 16 + Polynomial.X ^ 12 + Polynomial.X ^ 11 + Polynomial.X ^ 10 +
      Polynomial.X ^ 8 + Polynomial.X ^ 7 + Polynomial.X ^ 5 + Polynomial.X ^ 4 +
      Polynomial.X ^ 2 + Polynomial.X + 1 := by
  have bits : highFirst (0xEDB88320 : BitVec 32).reverse = [false, false, false, false, false, true,
      false, false, true, true, false, false, false, false, false, true, false, false, false, true,
      true, true, false, true, true, false, true, true, false, true, true, true] := by
    decide +kernel
  rw [divisor, value, bits]
  simp [ofBits, coefficient]
  ring

end Checksums

section ItuT

variable (table : Vector UInt16 256) (crc : UInt16)

/-- The checksum of eMMC data is the register that takes in the bits of all bytes, the highest bit
of each first, and so the remainder of a division, from whatever value it begins. Bytes in two parts
continue where the first part ends, and a checksum behind its own bytes leaves nothing. -/
theorem crcItuT_remainder (buffer : List UInt8) :
    (crcItuTFrom table crc buffer).toBitVec =
        (ofBytes buffer).foldl (shift 0x1021) crc.toBitVec ∧
      value (crcItuTFrom table crc buffer).toBitVec =
        (value crc.toBitVec * Polynomial.X ^ (8 * buffer.length) +
          ofBits (ofBytes buffer) * Polynomial.X ^ 16) %ₘ
            (Polynomial.X ^ 16 + Polynomial.X ^ 12 + Polynomial.X ^ 5 + 1) ∧
      (∀ behind, crcItuTFrom table crc (buffer ++ behind) =
        crcItuTFrom table (crcItuTFrom table crc buffer) behind) ∧
      crcItuTFrom table crc (buffer ++
        [(crcItuTFrom table crc buffer >>> 8).toUInt8, (crcItuTFrom table crc buffer).toUInt8]) =
          0 := by
  have serial := Checksums.foldl_crcItuTByte crc buffer
  have remainder := value_remainder (0x1021 : BitVec 16) crc.toBitVec (ofBytes buffer)
  rw [← serial, ofBytes_length, Checksums.divisor_crcItuT] at remainder
  have parts (behind : List UInt8) : (buffer ++ behind).foldl crcItuTByte crc =
      behind.foldl crcItuTByte (buffer.foldl crcItuTByte crc) := List.foldl_append
  simp only [Checksums.crcItuTFrom_eq]
  refine ⟨serial, remainder, parts, ?_⟩
  rw [parts]
  apply UInt16.toBitVec_inj.mp
  rw [Checksums.foldl_crcItuTByte, ← ofHalf_bytes]
  exact foldl_shift_self _ _

end ItuT

/-- The checksum of a firmware image is the inverse of the register that takes in the bits of all
bytes, the lowest bit of each first, from ones on; the register is the remainder of a division with
its highest coefficient at its lowest bit. -/
theorem crc32_serial (buf : List UInt8) :
    (crc32 buf).toBitVec =
        ~~~(Crc.lowFirst buf).foldl (Crc.reflectedShift 0xEDB88320) (BitVec.allOnes 32) ∧
      value (~~~(crc32 buf).toBitVec).reverse =
        (value (BitVec.allOnes 32) * Polynomial.X ^ (8 * buf.length) +
          ofBits (Crc.lowFirst buf) * Polynomial.X ^ 32) %ₘ
            (Polynomial.X ^ 32 + Polynomial.X ^ 26 + Polynomial.X ^ 23 + Polynomial.X ^ 22 +
              Polynomial.X ^ 16 + Polynomial.X ^ 12 + Polynomial.X ^ 11 + Polynomial.X ^ 10 +
              Polynomial.X ^ 8 + Polynomial.X ^ 7 + Polynomial.X ^ 5 + Polynomial.X ^ 4 +
              Polynomial.X ^ 2 + Polynomial.X + 1) := by
  have serial : (crc32 buf).toBitVec =
      ~~~(Crc.lowFirst buf).foldl (Crc.reflectedShift 0xEDB88320) (BitVec.allOnes 32) := by
    rw [crc32_toBitVec, Crc.reflected_bits _ (by decide)]
    exact BitVec.xor_allOnes
  have ones : (BitVec.allOnes 32).reverse = BitVec.allOnes 32 := by decide +kernel
  refine ⟨serial, ?_⟩
  rw [serial, BitVec.not_not, foldl_reflectedShift_reverse, ones, value_remainder,
    Crc.lowFirst_length, Checksums.divisor_crc32]

/-- The check value of the standard. -/
example : crc32 [0x31, 0x32, 0x33, 0x34, 0x35, 0x36, 0x37, 0x38, 0x39] = 0xCBF43926 := by
  decide +kernel

end Fly2040.Firmware
