import Mathlib.Data.Nat.Basic
import Mathlib.Tactic.IntervalCases
/-!
# Little-endian words in byte memory

A memory is a function from addresses to bytes. Words are read from four consecutive bytes,
lowest byte first, and a word is split into the same bytes again. Every fact about the two
directions follows from one reading of single bits.
-/

namespace Fly2040.Bytes

/-- Byte memory: a value at every address. -/
abbrev Memory := Nat → UInt8

/-- The word whose bytes are given from the lowest to the highest. -/
def le32 (b0 b1 b2 b3 : UInt8) : UInt32 :=
  UInt32.ofBitVec (b3.toBitVec ++ b2.toBitVec ++ b1.toBitVec ++ b0.toBitVec)

/-- The half word whose bytes are given from the lowest to the highest. -/
def le16 (b0 b1 : UInt8) : UInt16 := UInt16.ofBitVec (b1.toBitVec ++ b0.toBitVec)

/-- Byte `index` of a word, the lowest byte first. -/
def byte32 (word : UInt32) (index : Nat) : UInt8 :=
  UInt8.ofBitVec (word.toBitVec.extractLsb' (8 * index) 8)

/-- Byte `index` of a half word, the lowest byte first. -/
def byte16 (word : UInt16) (index : Nat) : UInt8 :=
  UInt8.ofBitVec (word.toBitVec.extractLsb' (8 * index) 8)

/-- The word stored at an address. -/
def word32 (memory : Memory) (address : Nat) : UInt32 :=
  le32 (memory address) (memory (address + 1)) (memory (address + 2)) (memory (address + 3))

/-- Bit `index` counted from the lowest bit of the byte at an address. -/
def bit (memory : Memory) (address index : Nat) : Bool :=
  (memory (address + index / 8)).toBitVec.getLsbD (index % 8)

/-- A byte is determined by its eight bits. -/
theorem byte_ext {left right : UInt8}
    (bits : ∀ index < 8, left.toBitVec.getLsbD index = right.toBitVec.getLsbD index) :
    left = right :=
  UInt8.toBitVec_inj.mp (BitVec.eq_of_getLsbD_eq bits)

/-- A word is determined by its thirty-two bits. -/
theorem word_ext {left right : UInt32}
    (bits : ∀ index < 32, left.toBitVec.getLsbD index = right.toBitVec.getLsbD index) :
    left = right :=
  UInt32.toBitVec_inj.mp (BitVec.eq_of_getLsbD_eq bits)

/-- Bit `index` of a stored word is the same bit counted from its address. -/
theorem word32_bit (memory : Memory) (address index : Nat) (inside : index < 32) :
    (word32 memory address).toBitVec.getLsbD index = bit memory address index := by
  simp only [word32, le32, bit, UInt32.toBitVec_ofBitVec, BitVec.getLsbD_append]
  by_cases first : index < 8
  · rw [if_pos first, Nat.div_eq_of_lt first, Nat.mod_eq_of_lt first, Nat.add_zero]
  rw [if_neg first]
  by_cases second : index < 16
  · rw [if_pos (by omega), show index / 8 = 1 by omega, show index % 8 = index - 8 by omega]
  rw [if_neg (by omega)]
  by_cases third : index < 24
  · rw [if_pos (by omega), show index / 8 = 2 by omega,
      show index % 8 = index - 8 - 8 by omega]
  rw [if_neg (by omega), show index / 8 = 3 by omega,
    show index % 8 = index - 8 - 8 - 8 by omega]

/-- Bits of one byte of a word. -/
theorem byte32_bit (word : UInt32) (index position : Nat) (inside : position < 8) :
    (byte32 word index).toBitVec.getLsbD position =
      word.toBitVec.getLsbD (8 * index + position) := by
  simp [byte32, inside]

/-- The bytes of a stored word are the bytes of the memory. -/
theorem byte32_word32 (memory : Memory) (address index : Nat) (inside : index < 4) :
    byte32 (word32 memory address) index = memory (address + index) := by
  apply byte_ext
  intro position low
  rw [byte32_bit _ _ _ low, word32_bit _ _ _ (by omega), bit,
    show (8 * index + position) / 8 = index by omega,
    show (8 * index + position) % 8 = position by omega]

/-- A word is put together again from its four bytes. -/
theorem le32_byte32 (word : UInt32) :
    le32 (byte32 word 0) (byte32 word 1) (byte32 word 2) (byte32 word 3) = word := by
  apply word_ext
  intro index inside
  have stored := word32_bit (byte32 word) 0 index inside
  rw [bit, byte32_bit _ _ _ (Nat.mod_lt _ (by decide)), Nat.zero_add, Nat.div_add_mod] at stored
  exact stored

/-- A word whose four bytes are stored in order is read back. -/
theorem word32_of_bytes {memory : Memory} {address : Nat} {word : UInt32}
    (stored : ∀ offset < 4, memory (address + offset) = byte32 word offset) :
    word32 memory address = word := by
  rw [← le32_byte32 word, ← stored 0 (by decide), ← stored 1 (by decide), ← stored 2 (by decide),
    ← stored 3 (by decide)]
  rfl

/-- A half word is put together again from its two bytes. -/
theorem le16_byte16 (word : UInt16) : le16 (byte16 word 0) (byte16 word 1) = word := by
  apply UInt16.toBitVec_inj.mp
  apply BitVec.eq_of_getLsbD_eq
  intro index inside
  simp only [le16, byte16, UInt16.toBitVec_ofBitVec, UInt8.toBitVec_ofBitVec,
    BitVec.getLsbD_append, BitVec.getLsbD_extractLsb']
  by_cases low : index < 8
  · simp [low]
  · simp [low, show index - 8 < 8 by omega, show 8 + (index - 8) = index by omega]

/-- The word at an address depends on its four bytes only. -/
theorem word32_congr {left right : Memory} {address : Nat}
    (same : ∀ offset < 4, left (address + offset) = right (address + offset)) :
    word32 left address = word32 right address := by
  have s0 := same 0 (by decide)
  have s1 := same 1 (by decide)
  have s2 := same 2 (by decide)
  have s3 := same 3 (by decide)
  simp only [Nat.add_zero] at s0
  simp only [word32, s0, s1, s2, s3]

/-- Bytes of a word, the lowest first. -/
def wordBytes (word : UInt32) : List UInt8 := (List.range 4).map (byte32 word)

/-- A word has four bytes. -/
@[simp] theorem wordBytes_length (word : UInt32) : (wordBytes word).length = 4 := rfl

/-- A byte of a word. -/
theorem wordBytes_getElem? (word : UInt32) {offset : Nat} (small : offset < 4) :
    (wordBytes word)[offset]? = some (byte32 word offset) := by
  simp [wordBytes, small]

/-- The bytes of pieces of one size that follow each other. -/
theorem flatMap_getElem? {α : Type} {bytes : α → List UInt8} {size offset : Nat} {pieces : List α}
    (sized : ∀ piece ∈ pieces, (bytes piece).length = size) (small : offset < size) (index : Nat) :
    (pieces.flatMap bytes)[size * index + offset]? =
      pieces[index]?.bind fun piece => (bytes piece)[offset]? := by
  induction pieces generalizing index with
  | nil => rfl
  | cons piece rest ih =>
    have first := sized piece (List.mem_cons_self ..)
    rw [List.flatMap_cons]
    cases index with
    | zero =>
      rw [List.getElem?_append_left (by rw [first]; omega), Nat.mul_zero, Nat.zero_add]
      rfl
    | succ index =>
      have place : size * (index + 1) + offset - size = size * index + offset := by
        rw [Nat.mul_succ]
        omega
      rw [List.getElem?_append_right (by rw [first, Nat.mul_succ]; omega), first, place,
        List.getElem?_cons_succ]
      exact ih (fun piece member => sized piece (List.mem_cons_of_mem _ member)) index

/-- Pieces of one size that follow each other have that many bytes each. -/
theorem flatMap_length {α : Type} {bytes : α → List UInt8} {size : Nat} {pieces : List α}
    (sized : ∀ piece ∈ pieces, (bytes piece).length = size) :
    (pieces.flatMap bytes).length = size * pieces.length := by
  rw [List.length_flatMap, List.map_congr_left sized, List.map_const', List.sum_replicate_nat,
    Nat.mul_comm]

/-- Consecutive bytes of a memory. -/
def readBytes (memory : Memory) (address count : Nat) : List UInt8 :=
  (List.range count).map fun offset => memory (address + offset)

/-- As many bytes are read as were asked for. -/
@[simp] theorem readBytes_length (memory : Memory) (address count : Nat) :
    (readBytes memory address count).length = count := by simp [readBytes]

/-- Bytes in two parts. -/
theorem readBytes_append (memory : Memory) (address front back : Nat) :
    readBytes memory address (front + back) =
      readBytes memory address front ++ readBytes memory (address + front) back := by
  simp only [readBytes, List.range_add, List.map_append, List.map_map, Nat.add_assoc,
    Function.comp_def]

/-- Reading twice gives the same bytes exactly when the two memories agree there. -/
theorem readBytes_eq_iff (left right : Memory) (address count : Nat) :
    readBytes left address count = readBytes right address count ↔
      ∀ offset < count, left (address + offset) = right (address + offset) := by
  simp [readBytes, List.map_inj_left]

/-- A byte that was read is the byte of the memory. -/
theorem readBytes_getD (memory : Memory) (address count index : Nat) (other : UInt8) :
    (readBytes memory address count).getD index other =
      if index < count then memory (address + index) else other := by
  by_cases inside : index < count
  · simp [readBytes, List.getD, inside]
  · simp [readBytes, List.getD, inside]

end Fly2040.Bytes
