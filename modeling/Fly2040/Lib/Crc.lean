import Fly2040.Lib.Bits
/-!
# Checksums of reflected shift registers

A reflected register moves towards its lowest bit and combines with a polynomial whenever a one
falls out. The move is linear, so the eight moves of a byte are one look-up for the bits that fall
out, combined with the rest of the register moved down. A table that holds the moves of every
byte therefore computes the same checksum as the single bits.
-/

namespace Fly2040.Crc

variable {width : Nat} (poly : BitVec width)

/-- Move the register by one bit. -/
def reflectedBit (register : BitVec width) : BitVec width :=
  if register.getLsbD 0 then (register >>> 1) ^^^ poly else register >>> 1

/-- Take in a bit. -/
def reflectedShift (register : BitVec width) (bit : Bool) : BitVec width :=
  (register >>> 1) ^^^ if register.getLsbD 0 ^^ bit then poly else 0

/-- Move the register by a number of bits. -/
def reflectedBits : (count : Nat) → BitVec width → BitVec width
  | 0, register => register
  | count + 1, register => reflectedBits count (reflectedBit poly register)

/-- Take in a byte, its lowest bit first. -/
def reflectedByte (register : BitVec width) (byte : UInt8) : BitVec width :=
  reflectedBits poly 8 (register ^^^ byte.toBitVec.setWidth width)

/-- Checksum of bytes, from a register and combined with a mask at the end. -/
def reflected (start mask : BitVec width) (bytes : List UInt8) : BitVec width :=
  bytes.foldl (reflectedByte poly) start ^^^ mask

/-- Bits of bytes one after the other, the lowest one of each first. -/
def lowFirst (bytes : List UInt8) : List Bool :=
  bytes.flatMap fun byte => (Bits.ofByte byte).reverse

/-- Bytes have eight bits each. -/
@[simp] theorem lowFirst_length (bytes : List UInt8) :
    (lowFirst bytes).length = 8 * bytes.length := by
  induction bytes with
  | nil => rfl
  | cons byte bytes ih =>
    rw [lowFirst, List.flatMap_cons, List.length_append, List.length_reverse, Bits.ofByte_length]
    rw [lowFirst] at ih
    rw [ih, List.length_cons]
    omega

/-- Moving by one bit is linear. -/
theorem reflectedBit_xor (left right : BitVec width) :
    reflectedBit poly (left ^^^ right) = reflectedBit poly left ^^^ reflectedBit poly right := by
  unfold reflectedBit
  rw [BitVec.getLsbD_xor, BitVec.ushiftRight_xor_distrib]
  cases left.getLsbD 0 <;> cases right.getLsbD 0
  case false.false => rfl
  case false.true => exact BitVec.xor_assoc _ _ _
  case true.false =>
    change left >>> 1 ^^^ right >>> 1 ^^^ poly = left >>> 1 ^^^ poly ^^^ right >>> 1
    rw [BitVec.xor_assoc, BitVec.xor_comm (right >>> 1), BitVec.xor_assoc]
  case true.true =>
    change left >>> 1 ^^^ right >>> 1 = left >>> 1 ^^^ poly ^^^ (right >>> 1 ^^^ poly)
    rw [BitVec.xor_comm (right >>> 1) poly, BitVec.xor_assoc, ← BitVec.xor_assoc poly,
      BitVec.xor_self, BitVec.zero_xor]

/-- Moving by several bits is linear. -/
theorem reflectedBits_xor (count : Nat) (left right : BitVec width) :
    reflectedBits poly count (left ^^^ right) =
      reflectedBits poly count left ^^^ reflectedBits poly count right := by
  induction count generalizing left right with
  | zero => rfl
  | succ count ih => rw [reflectedBits, reflectedBit_xor, ih, reflectedBits, reflectedBits]

/-- A register whose falling bits are all zero is only moved down. -/
theorem reflectedBits_of_low_zero {count : Nat} {register : BitVec width}
    (low : ∀ index < count, register.getLsbD index = false) :
    reflectedBits poly count register = register >>> count := by
  induction count generalizing register with
  | zero => rw [reflectedBits, BitVec.ushiftRight_zero]
  | succ count ih =>
    have first : reflectedBit poly register = register >>> 1 :=
      if_neg (by rw [low 0 (Nat.succ_pos _)]; exact Bool.false_ne_true)
    rw [reflectedBits, first, ih, ← BitVec.shiftRight_add, Nat.add_comm]
    intro index inside
    rw [BitVec.getLsbD_ushiftRight]
    exact low (1 + index) (by omega)

/-- The moves depend on the falling bits through a look-up, and on the others through a shift. -/
theorem reflectedBits_split {count : Nat} {register low : BitVec width}
    (falls : ∀ index, low.getLsbD index = (decide (index < count) && register.getLsbD index)) :
    reflectedBits poly count register = reflectedBits poly count low ^^^ (register >>> count) := by
  have high : ∀ index < count, (low ^^^ register).getLsbD index = false := by
    intro index inside
    rw [BitVec.getLsbD_xor, falls, decide_eq_true inside, Bool.true_and, Bool.xor_self]
  have gone : low >>> count = BitVec.ofNat width 0 := by
    apply BitVec.eq_of_getLsbD_eq
    intro index _
    rw [BitVec.getLsbD_ushiftRight, falls, decide_eq_false (by omega), Bool.false_and]
    exact BitVec.getLsbD_zero.symm
  have parts : register = low ^^^ (low ^^^ register) := by
    rw [← BitVec.xor_assoc, BitVec.xor_self, BitVec.zero_xor]
  calc reflectedBits poly count register
      = reflectedBits poly count low ^^^ reflectedBits poly count (low ^^^ register) := by
        rw [← reflectedBits_xor, ← parts]
    _ = reflectedBits poly count low ^^^ (register >>> count) := by
        rw [reflectedBits_of_low_zero poly high, BitVec.ushiftRight_xor_distrib, gone,
          BitVec.zero_xor]

/-- A byte by a table: the entry of the low byte combined with the rest of the register. -/
theorem reflectedByte_table {table : BitVec 8 → BitVec width}
    (entries : ∀ index, table index = reflectedBits poly 8 (index.setWidth width))
    (register : BitVec width) (byte : UInt8) :
    reflectedByte poly register byte =
      table (register.setWidth 8 ^^^ byte.toBitVec) ^^^ (register >>> 8) := by
  have beyond : ∀ index, ¬ index < 8 → byte.toBitVec.getLsbD index = false :=
    fun index outside => BitVec.getLsbD_of_ge _ _ (Nat.le_of_not_lt outside)
  have falls : ∀ index, ((register.setWidth 8 ^^^ byte.toBitVec).setWidth width).getLsbD index =
      (decide (index < 8) && (register ^^^ byte.toBitVec.setWidth width).getLsbD index) := by
    intro index
    simp only [BitVec.getLsbD_setWidth, BitVec.getLsbD_xor]
    by_cases inside : index < width
    · by_cases low : index < 8
      · simp [inside, low]
      · simp [low, beyond index low]
    · simp [inside, BitVec.getLsbD_of_ge register index (Nat.le_of_not_lt inside)]
  have rest : (register ^^^ byte.toBitVec.setWidth width) >>> 8 = register >>> 8 := by
    apply BitVec.eq_of_getLsbD_eq
    intro index _
    simp
  rw [reflectedByte, reflectedBits_split poly falls, rest, entries]

/-- Bits that have been combined with the lowest ones of a register are taken in by moving it. -/
theorem reflectedBits_taken {count : Nat} (register low : BitVec width)
    (few : ∀ index, count ≤ index → low.getLsbD index = false) :
    reflectedBits poly count (register ^^^ low) =
      ((List.range count).map low.getLsbD).foldl (reflectedShift poly) register := by
  induction count generalizing register low with
  | zero =>
    have none : low = BitVec.ofNat width 0 := by
      apply BitVec.eq_of_getLsbD_eq
      intro index _
      rw [few index (Nat.zero_le _), BitVec.getLsbD_zero]
    rw [none, BitVec.xor_zero]
    rfl
  | succ count ih =>
    have bit : reflectedBit poly (register ^^^ low) =
        reflectedShift poly register (low.getLsbD 0) ^^^ (low >>> 1) := by
      rw [reflectedBit, reflectedShift, BitVec.getLsbD_xor, BitVec.ushiftRight_xor_distrib]
      split
      next => rw [BitVec.xor_assoc, BitVec.xor_comm (low >>> 1), BitVec.xor_assoc]
      next => rw [show (0 : BitVec width) = BitVec.ofNat width 0 from rfl, BitVec.xor_zero]
    have rest : (List.range (count + 1)).map low.getLsbD =
        low.getLsbD 0 :: (List.range count).map (low >>> 1).getLsbD := by
      rw [List.range_succ_eq_map, List.map_cons, List.map_map]
      congr 1
      apply List.map_congr_left
      intro index _
      rw [BitVec.getLsbD_ushiftRight, Nat.add_comm]
      rfl
    rw [reflectedBits, bit, ih, rest, List.foldl_cons]
    intro index above
    rw [BitVec.getLsbD_ushiftRight]
    exact few (1 + index) (by omega)

/-- A byte is taken in bit by bit, the lowest one first. -/
theorem reflectedByte_bits (wide : 8 ≤ width) (register : BitVec width) (byte : UInt8) :
    reflectedByte poly register byte =
      (Bits.ofByte byte).reverse.foldl (reflectedShift poly) register := by
  have bits : (Bits.ofByte byte).reverse =
      (List.range 8).map (byte.toBitVec.setWidth width).getLsbD := by
    rw [Bits.ofByte_eq]
    show [0, 1, 2, 3, 4, 5, 6, 7].map byte.toBitVec.getLsbD =
      [0, 1, 2, 3, 4, 5, 6, 7].map (byte.toBitVec.setWidth width).getLsbD
    apply List.map_congr_left
    intro index inside
    have below : index < width := by
      have := List.mem_range.mp (show index ∈ List.range 8 from inside)
      omega
    rw [BitVec.getLsbD_setWidth, decide_eq_true below, Bool.true_and]
  rw [reflectedByte, bits]
  apply reflectedBits_taken
  intro index above
  rw [BitVec.getLsbD_setWidth, BitVec.getLsbD_of_ge _ _ above, Bool.and_false]

/-- Bytes are taken in bit by bit. -/
theorem reflected_bits (wide : 8 ≤ width) (start mask : BitVec width) (bytes : List UInt8) :
    reflected poly start mask bytes =
      (lowFirst bytes).foldl (reflectedShift poly) start ^^^ mask := by
  rw [reflected, lowFirst]
  congr 1
  induction bytes generalizing start with
  | nil => rfl
  | cons byte bytes ih =>
    rw [List.foldl_cons, ih, reflectedByte_bits poly wide, List.flatMap_cons, List.foldl_append]

end Fly2040.Crc
