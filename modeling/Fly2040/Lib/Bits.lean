import Mathlib.Data.BitVec
import Mathlib.Data.List.GetD
/-!
# Bits in the order of a wire

A register that shifts towards its highest bit sends the highest bit first, and what it shifts in
ends up in the same order. So a word is the list of its bits from the highest to the lowest: words
next to each other are lists one after the other, and a list that fits is a word again.
-/

namespace Fly2040.Bits

variable {width count : Nat}

/-- Bits of a vector, the highest first. -/
def highFirst (word : BitVec width) : List Bool :=
  List.ofFn fun index : Fin width => word.getMsbD index

/-- A vector after bits have been shifted into it. -/
def packed (width : Nat) (bits : List Bool) : BitVec width :=
  (BitVec.ofBoolListBE bits).setWidth width

/-- A vector has one bit for each place. -/
@[simp] theorem highFirst_length (word : BitVec width) : (highFirst word).length = width :=
  List.length_ofFn

/-- A bit of the list is the bit at that place from the highest. -/
@[simp] theorem highFirst_getElem (word : BitVec width) (index : Nat)
    (inside : index < (highFirst word).length) :
    (highFirst word)[index] = word.getMsbD index := by
  simp only [highFirst, List.getElem_ofFn]

/-- A list is that of a vector if it agrees at every place. -/
theorem highFirst_eq {word : BitVec width} {bits : List Bool} (same : bits.length = width)
    (agree : ∀ index < width, word.getMsbD index = bits.getD index false) :
    highFirst word = bits := by
  apply List.ext_getElem
  · rw [highFirst_length, same]
  · intro index inside inside'
    rw [highFirst_getElem, agree index (by omega), List.getD_eq_getElem _ _ inside']

/-- Different vectors have different bits. -/
theorem highFirst_injective : Function.Injective (@highFirst width) := by
  intro left right same
  apply BitVec.eq_of_getMsbD_eq
  intro index inside
  have left' := highFirst_getElem left index (by simpa using inside)
  have right' := highFirst_getElem right index (by simpa using inside)
  rw [← left', ← right']
  simp only [same]

/-- Vectors next to each other. -/
@[simp] theorem highFirst_append (left : BitVec width) (right : BitVec count) :
    highFirst (left ++ right) = highFirst left ++ highFirst right := by
  apply highFirst_eq (by simp)
  intro index inside
  rw [BitVec.getMsbD_append]
  by_cases first : index < width
  · rw [if_neg (by omega), List.getD_append _ _ _ _ (by simpa using first),
      List.getD_eq_getElem _ _ (by simpa using first), highFirst_getElem]
  · rw [if_pos (by omega), List.getD_append_right _ _ _ _ (by simpa using first),
      List.getD_eq_getElem _ _ (by simp only [highFirst_length]; omega), highFirst_getElem,
      highFirst_length]

/-- The inverse of every bit. -/
@[simp] theorem highFirst_not (word : BitVec width) :
    highFirst (~~~word) = (highFirst word).map (!·) := by
  apply highFirst_eq (by simp)
  intro index inside
  simp [inside]

/-- Bits that are shifted out are followed by zeros. -/
theorem highFirst_shiftLeft (word : BitVec width) (inside : count ≤ width) :
    highFirst (word <<< count) = (highFirst word).drop count ++ List.replicate count false := by
  apply highFirst_eq
  · simp only [List.length_append, List.length_drop, highFirst_length, List.length_replicate]
    omega
  intro index below
  rw [BitVec.getMsbD_shiftLeft]
  by_cases first : index + count < width
  · rw [List.getD_append _ _ _ _ (by simp; omega), List.getD_eq_getElem _ _ (by simp; omega),
      List.getElem_drop, highFirst_getElem, Nat.add_comm]
  · rw [List.getD_append_right _ _ _ _ (by simp; omega), BitVec.getMsbD_of_ge _ _ (by omega)]
    simp

/-- Bits that are taken out of a vector are next to each other in it. -/
theorem highFirst_extract (word : BitVec width) {start : Nat} (inside : start + count ≤ width) :
    highFirst (word.extractLsb' start count) =
      ((highFirst word).drop (width - (start + count))).take count := by
  have length : ((highFirst word).drop (width - (start + count))).length = start + count := by
    rw [List.length_drop, highFirst_length]
    omega
  apply highFirst_eq
  · rw [List.length_take, length]
    omega
  · intro index below
    rw [List.getD_eq_getElem _ _ (by rw [List.length_take, length]; omega), List.getElem_take,
      List.getElem_drop, highFirst_getElem, BitVec.getMsbD_eq_getLsbD, BitVec.getMsbD_eq_getLsbD,
      BitVec.getLsbD_extractLsb', decide_eq_true below, decide_eq_true (by omega),
      decide_eq_true (by omega), Bool.true_and, Bool.true_and, Bool.true_and,
      show start + (count - 1 - index) = width - 1 - (width - (start + count) + index) by omega]

/-- The bits that have been shifted in are the lowest of the vector. -/
theorem highFirst_packed {bits : List Bool} (fits : bits.length ≤ width) :
    highFirst (packed width bits) = List.replicate (width - bits.length) false ++ bits := by
  apply highFirst_eq (by simp; omega)
  intro index inside
  rw [packed, BitVec.getMsbD_setWidth, BitVec.getMsbD_ofBoolListBE]
  by_cases above : index < width - bits.length
  · rw [List.getD_append _ _ _ _ (by simpa using above), List.getD_replicate _ above,
      decide_eq_false (by omega), Bool.false_and]
  · rw [List.getD_append_right _ _ _ _ (by simpa using above), List.length_replicate,
      decide_eq_true (by omega), Bool.true_and,
      show index + bits.length - width = index - (width - bits.length) by omega]

/-- Bits that fill a vector are its bits. -/
theorem highFirst_packed_full {bits : List Bool} (full : bits.length = width) :
    highFirst (packed width bits) = bits := by
  rw [highFirst_packed (Nat.le_of_eq full), full, Nat.sub_self, List.replicate_zero,
    List.nil_append]

/-- A vector is what its own bits are packed to. -/
@[simp] theorem packed_highFirst (word : BitVec width) : packed width (highFirst word) = word :=
  highFirst_injective (highFirst_packed_full (highFirst_length word))

/-- A mask of one bit tests that bit. -/
theorem and_twoPow_ne_zero (word : BitVec width) {index : Nat} (inside : index < width) :
    word &&& BitVec.twoPow width index ≠ 0 ↔ word.getLsbD index = true := by
  rw [BitVec.and_twoPow]
  cases word.getLsbD index with
  | false => simp
  | true =>
    have kept : (BitVec.twoPow width index).getLsbD index = true := by
      rw [BitVec.getLsbD_twoPow, decide_eq_true inside, decide_eq_true rfl, Bool.and_self]
    have some : BitVec.twoPow width index ≠ 0 := by
      intro zero
      rw [zero] at kept
      exact absurd kept (by simp)
    simpa using some

/-- Bits of a word. -/
def ofWord (word : UInt32) : List Bool := highFirst word.toBitVec

/-- Bits of a byte. -/
def ofByte (byte : UInt8) : List Bool := highFirst byte.toBitVec

/-- Bits of a half word. -/
def ofHalf (half : UInt16) : List Bool := highFirst half.toBitVec

/-- Bits of words, one after the other. -/
def ofWords (words : List UInt32) : List Bool := words.flatMap ofWord

/-- Bits of bytes, one after the other. -/
def ofBytes (bytes : List UInt8) : List Bool := bytes.flatMap ofByte

/-- The bits of a word one by one. -/
theorem ofWord_eq (word : UInt32) :
    ofWord word =
      [31, 30, 29, 28, 27, 26, 25, 24, 23, 22, 21, 20, 19, 18, 17, 16, 15, 14, 13, 12, 11, 10, 9, 8,
        7, 6, 5, 4, 3, 2, 1, 0].map word.toBitVec.getLsbD := rfl

/-- The bits of a half word one by one. -/
theorem ofHalf_eq (half : UInt16) :
    ofHalf half =
      [15, 14, 13, 12, 11, 10, 9, 8, 7, 6, 5, 4, 3, 2, 1, 0].map half.toBitVec.getLsbD := rfl

/-- The bits of a byte one by one. -/
theorem ofByte_eq (byte : UInt8) :
    ofByte byte = [7, 6, 5, 4, 3, 2, 1, 0].map byte.toBitVec.getLsbD := rfl

/-- A word has thirty-two bits. -/
@[simp] theorem ofWord_length (word : UInt32) : (ofWord word).length = 32 := highFirst_length _

/-- A byte has eight bits. -/
@[simp] theorem ofByte_length (byte : UInt8) : (ofByte byte).length = 8 := highFirst_length _

/-- A half word has sixteen bits. -/
@[simp] theorem ofHalf_length (half : UInt16) : (ofHalf half).length = 16 := highFirst_length _

/-- No words have no bits. -/
@[simp] theorem ofWords_nil : ofWords [] = [] := rfl

/-- The bits of the first word come first. -/
@[simp] theorem ofWords_cons (word : UInt32) (words : List UInt32) :
    ofWords (word :: words) = ofWord word ++ ofWords words := rfl

/-- Words in two parts. -/
@[simp] theorem ofWords_append (front back : List UInt32) :
    ofWords (front ++ back) = ofWords front ++ ofWords back := List.flatMap_append

/-- Words have thirty-two bits each. -/
@[simp] theorem ofWords_length (words : List UInt32) :
    (ofWords words).length = 32 * words.length := by
  induction words with
  | nil => rfl
  | cons word words ih => rw [ofWords_cons, List.length_append, ofWord_length, ih]; simp; omega

/-- The inverse of every bit of a word. -/
@[simp] theorem ofWord_not (word : UInt32) : ofWord (~~~word) = (ofWord word).map (!·) :=
  highFirst_not word.toBitVec

/-- Bits that are shifted out of a word are followed by zeros. -/
theorem ofWord_shiftLeft (word : UInt32) (inside : count < 32) :
    ofWord (word <<< UInt32.ofNat count) =
      (ofWord word).drop count ++ List.replicate count false := by
  have same : (word <<< UInt32.ofNat count).toBitVec = word.toBitVec <<< count := by
    rw [UInt32.toBitVec_shiftLeft, BitVec.shiftLeft_eq']
    simp [Nat.mod_eq_of_lt inside]
  rw [ofWord, same]
  exact highFirst_shiftLeft word.toBitVec (Nat.le_of_lt inside)

/-- A word that is shifted down. -/
theorem shiftRight_toBitVec (word : UInt32) (inside : count < 32) :
    (word >>> UInt32.ofNat count).toBitVec = word.toBitVec >>> count := by
  rw [UInt32.toBitVec_shiftRight, BitVec.ushiftRight_eq']
  simp [Nat.mod_eq_of_lt inside]
/-- The inverse of every bit of words. -/
theorem ofWords_not (words : List UInt32) :
    ofWords (words.map (~~~·)) = (ofWords words).map (!·) := by
  induction words with
  | nil => rfl
  | cons word words ih =>
    rw [List.map_cons, ofWords_cons, ih, ofWord_not, ofWords_cons, List.map_append]

/-- Bytes in two parts. -/
@[simp] theorem ofBytes_append (front back : List UInt8) :
    ofBytes (front ++ back) = ofBytes front ++ ofBytes back := List.flatMap_append

/-- The bits of the first byte come first. -/
@[simp] theorem ofBytes_cons (byte : UInt8) (bytes : List UInt8) :
    ofBytes (byte :: bytes) = ofByte byte ++ ofBytes bytes := rfl

/-- No bytes have no bits. -/
@[simp] theorem ofBytes_nil : ofBytes [] = [] := rfl

/-- Bytes have eight bits each. -/
@[simp] theorem ofBytes_length (bytes : List UInt8) :
    (ofBytes bytes).length = 8 * bytes.length := by
  induction bytes with
  | nil => rfl
  | cons byte bytes ih => rw [ofBytes_cons, List.length_append, ofByte_length, ih]; simp; omega

/-- Different words have different bits. -/
theorem ofWord_injective : Function.Injective ofWord := by
  intro left right same
  exact UInt32.toBitVec_inj.mp (highFirst_injective same)

/-- Different bytes have different bits. -/
theorem ofByte_injective : Function.Injective ofByte := by
  intro left right same
  exact UInt8.toBitVec_inj.mp (highFirst_injective same)

/-- Different lists of pieces of one length have different bits. -/
theorem flatMap_injective {α : Type} {bits : α → List Bool} {size : Nat}
    (sizes : ∀ piece, (bits piece).length = size) (positive : 0 < size)
    (injective : Function.Injective bits) : Function.Injective (List.flatMap bits) := by
  have length (pieces : List α) (piece : α) :
      ((piece :: pieces).flatMap bits).length ≠ ([] : List Bool).length := by
    rw [List.flatMap_cons, List.length_append, sizes, List.length_nil]
    omega
  intro left
  induction left with
  | nil =>
    intro right same
    cases right with
    | nil => rfl
    | cons piece right => exact absurd (congrArg List.length same).symm (length right piece)
  | cons piece left ih =>
    intro right same
    cases right with
    | nil => exact absurd (congrArg List.length same) (length left piece)
    | cons piece' right =>
      have ⟨first, rest⟩ := List.append_inj same (by rw [sizes, sizes])
      rw [injective first, ih rest]

/-- Different lists of words have different bits. -/
theorem ofWords_injective : Function.Injective ofWords :=
  flatMap_injective ofWord_length (by decide) ofWord_injective

/-- Different lists of bytes have different bits. -/
theorem ofBytes_injective : Function.Injective ofBytes :=
  flatMap_injective ofByte_length (by decide) ofByte_injective

end Fly2040.Bits
