import Fly2040.Lib.Nor
/-!
# Unary counters in NOR pages

A page of words holds a number in unary: its bits, counted from the lowest bit of the first
word, are cleared one after another. Counting reads whole words and then the trailing zeros of
the first word that is not zero; burning clears that word's lowest bit and programs the page
again. Both are shown to be the number and its successor for every page of this shape, which
erasing establishes.
-/

namespace Fly2040.Unary

open Bytes

/-- Word `index` of the page at an address. -/
def pageWord (memory : Memory) (base index : Nat) : UInt32 := word32 memory (base + 4 * index)

/-- Number of zero bits below the lowest one bit. -/
def ctz (word : UInt32) : Nat := word.toBitVec.ctz.toNat

/-- The word without its lowest one bit. -/
def clearLowest (word : UInt32) : UInt32 := word &&& ~~~(1 <<< UInt32.ofNat (ctz word))

/-- Add up zero words from `index` on, and the trailing zeros of the first other word. -/
def scanWeight (page : Nat → UInt32) (index : Nat) : (count weight : Nat) → Nat
  | 0, weight => weight
  | count + 1, weight =>
    if page index = 0 then scanWeight page (index + 1) count (weight + 32)
    else weight + ctz (page index)

/-- The first word from `index` on that is not zero. -/
def firstWord (page : Nat → UInt32) (index : Nat) : (count : Nat) → Option Nat
  | 0 => none
  | count + 1 => if page index ≠ 0 then some index else firstWord page (index + 1) count

/-- The page with the lowest one bit of one word cleared. -/
def burnWord (page : Nat → UInt32) (index : Nat) : Nat → UInt32 := fun other =>
  if other = index then clearLowest (page other) else page other

/-- The bytes of the first `count` words of a page. -/
def pageBytes (page : Nat → UInt32) (count : Nat) : List UInt8 :=
  (List.range (4 * count)).map fun offset => byte32 (page (offset / 4)) (offset % 4)

/-- The page of `words` words at an address holds `value` in unary: exactly its first `value`
bits are cleared. -/
structure Holds (memory : Memory) (base words value : Nat) : Prop where
  /-- The number fits the page. -/
  fits : value ≤ 32 * words
  /-- The cleared bits. -/
  bits : ∀ index < 32 * words, bit memory base index = decide (value ≤ index)

/-- The trailing zeros of a word are the position of its lowest one bit. -/
theorem ctz_eq (word : UInt32) (position : Nat)
    (below : ∀ index < position, word.toBitVec.getLsbD index = false)
    (set : word.toBitVec.getLsbD position = true) : ctz word = position := by
  have nonzero : word.toBitVec ≠ 0#32 := by
    intro zero
    simp [zero] at set
  rcases Nat.lt_trichotomy (ctz word) position with less | same | more
  · have lowest := BitVec.getLsbD_true_ctz_of_ne_zero nonzero
    rw [ctz] at less
    rw [below _ less] at lowest
    contradiction
  · exact same
  · have zero := BitVec.getLsbD_false_of_lt_ctz more
    rw [zero] at set
    contradiction

/-- Bits of a word whose lowest one bit was cleared. -/
theorem clearLowest_bit (word : UInt32) (position index : Nat) (lowest : ctz word = position)
    (small : position < 32) (inside : index < 32) :
    (clearLowest word).toBitVec.getLsbD index =
      (word.toBitVec.getLsbD index && decide (index ≠ position)) := by
  have shift : (UInt32.ofNat position).toBitVec % 32 = BitVec.ofNat 32 position := by
    apply BitVec.eq_of_toNat_eq
    simp only [BitVec.toNat_umod, UInt32.toNat_toBitVec, UInt32.toNat_ofNat', BitVec.toNat_ofNat,
      show (32 : BitVec 32).toNat = 32 from rfl]
    omega
  simp only [clearLowest, lowest, UInt32.toBitVec_and, UInt32.toBitVec_not,
    UInt32.toBitVec_shiftLeft, shift, BitVec.getLsbD_and, BitVec.getLsbD_not, inside,
    decide_true, Bool.true_and]
  congr 1
  rw [BitVec.shiftLeft_eq', BitVec.getLsbD_shiftLeft]
  have amount : (BitVec.ofNat 32 position).toNat = position := by simp; omega
  rw [amount]
  by_cases before : index < position
  · simp [before, inside, Nat.ne_of_lt before]
  · by_cases same : index = position
    · subst same
      simp [inside]
    · have above : index - position ≠ 0 := by omega
      simp [inside, before, same, above]

/-- An offset below four bytes of a word stays in that word. -/
theorem pageWord_bit (memory : Memory) (base index position : Nat) (inside : position < 32) :
    (pageWord memory base index).toBitVec.getLsbD position =
      bit memory base (32 * index + position) := by
  rw [pageWord, word32_bit _ _ _ inside, bit, bit,
    show base + 4 * index + position / 8 = base + (32 * index + position) / 8 by omega,
    show (32 * index + position) % 8 = position % 8 by omega]

section Counter

variable {memory : Memory} {base words value : Nat}

/-- A word of the page is zero exactly when all its bits have been counted. -/
theorem Holds.word_zero_iff (holds : Holds memory base words value) {index : Nat}
    (inside : index < words) : pageWord memory base index = 0 ↔ 32 * (index + 1) ≤ value := by
  constructor
  · intro zero
    have top := pageWord_bit memory base index 31 (by decide)
    rw [zero, holds.bits _ (by omega)] at top
    have counted := of_decide_eq_false top.symm
    omega
  · intro counted
    apply word_ext
    intro position small
    rw [pageWord_bit _ _ _ _ small, holds.bits _ (by omega)]
    simp
    omega

/-- The trailing zeros of the first word that is not fully counted complete the number. -/
theorem Holds.word_ctz (holds : Holds memory base words value) (index : Nat)
    (low : 32 * index ≤ value) (high : value < 32 * (index + 1)) (inside : index < words) :
    ctz (pageWord memory base index) = value - 32 * index := by
  apply ctz_eq
  · intro position below
    rw [pageWord_bit _ _ _ _ (by omega), holds.bits _ (by omega)]
    simp
    omega
  · rw [pageWord_bit _ _ _ _ (by omega), holds.bits _ (by omega)]
    simp
    omega

/-- Counting from a word that the number reaches continues the count to the number. -/
theorem Holds.scanWeight_from (holds : Holds memory base words value) (index count : Nat)
    (whole : index + count = words) (reached : 32 * index ≤ value) :
    scanWeight (pageWord memory base) index count (32 * index) = value := by
  induction count generalizing index with
  | zero =>
    have fits := holds.fits
    simp only [scanWeight]
    omega
  | succ count ih =>
    simp only [scanWeight]
    split
    · rename_i zero
      have counted := (holds.word_zero_iff (by omega)).mp zero
      exact ih (index + 1) (by omega) counted
    · rename_i nonzero
      have open' : ¬ 32 * (index + 1) ≤ value := fun counted =>
        nonzero ((holds.word_zero_iff (by omega)).mpr counted)
      rw [holds.word_ctz index reached (by omega) (by omega)]
      omega

/-- Counting a page that holds a number in unary gives the number. -/
theorem Holds.weight (holds : Holds memory base words value) :
    scanWeight (pageWord memory base) 0 words 0 = value :=
  holds.scanWeight_from 0 words (by omega) (Nat.zero_le _)

/-- The search from a word that the number reaches finds the word with its lowest one bit. -/
theorem Holds.firstWord_from (holds : Holds memory base words value) (index count : Nat)
    (whole : index + count = words) (reached : 32 * index ≤ value) :
    firstWord (pageWord memory base) index count =
      if value = 32 * words then none else some (value / 32) := by
  induction count generalizing index with
  | zero =>
    have fits := holds.fits
    rw [if_pos (by omega)]
    rfl
  | succ count ih =>
    simp only [firstWord]
    split
    · rename_i nonzero
      have open' : ¬ 32 * (index + 1) ≤ value := fun counted =>
        nonzero ((holds.word_zero_iff (by omega)).mpr counted)
      rw [if_neg (by omega), show value / 32 = index by omega]
    · rename_i zero
      have counted := (holds.word_zero_iff (by omega)).mp (not_not.mp zero)
      exact ih (index + 1) (by omega) counted

/-- The search finds no word exactly in a full page. -/
theorem Holds.firstWord (holds : Holds memory base words value) :
    firstWord (pageWord memory base) 0 words =
      if value = 32 * words then none else some (value / 32) :=
  holds.firstWord_from 0 words (by omega) (Nat.zero_le _)

/-- Programming the page with its lowest one bit cleared counts one further. -/
theorem Holds.burn (holds : Holds memory base words value) (open' : value < 32 * words) :
    Holds (Nor.program memory base
      (pageBytes (burnWord (pageWord memory base) (value / 32)) words)) base words (value + 1) := by
  refine ⟨open', fun index inside => ?_⟩
  have old := holds.bits index inside
  have lowest := holds.word_ctz (value / 32) (by omega) (by omega) (by omega)
  have data : (pageBytes (burnWord (pageWord memory base) (value / 32)) words).getD (index / 8)
      0xFF = byte32 (burnWord (pageWord memory base) (value / 32) (index / 32)) (index / 8 % 4) := by
    rw [pageBytes, List.getD, List.getElem?_map, List.getElem?_range (by omega)]
    simp [Nat.div_div_eq_div_mul]
  rw [bit, Nor.program_inside, data, UInt8.toBitVec_and, BitVec.getLsbD_and, ← bit, old,
    byte32_bit _ _ _ (Nat.mod_lt _ (by decide)),
    show 8 * (index / 8 % 4) + index % 8 = index % 32 by omega, burnWord]
  have word := pageWord_bit memory base (index / 32) (index % 32) (Nat.mod_lt _ (by decide))
  rw [Nat.div_add_mod, old] at word
  split
  · rename_i same
    rw [same] at word ⊢
    rw [clearLowest_bit _ _ _ lowest (by omega) (Nat.mod_lt _ (by decide)), word]
    simp only [← Bool.decide_and, decide_eq_decide]
    omega
  · rw [word, ← Bool.decide_and, decide_eq_decide]
    omega

/-- A page of all ones holds zero. -/
theorem holds_zero (ones : ∀ offset < 4 * words, memory (base + offset) = 0xFF) :
    Holds memory base words 0 := by
  refine ⟨Nat.zero_le _, fun index inside => ?_⟩
  rw [bit, ones _ (by omega)]
  have small : index % 8 < 8 := Nat.mod_lt _ (by decide)
  generalize index % 8 = position at small
  interval_cases position <;> simp

/-- The number depends on the bytes of the page only. -/
theorem Holds.congr {memory' : Memory} (holds : Holds memory base words value)
    (same : ∀ offset < 4 * words, memory' (base + offset) = memory (base + offset)) :
    Holds memory' base words value := by
  refine ⟨holds.fits, fun index inside => ?_⟩
  rw [bit, same _ (by omega), ← bit]
  exact holds.bits index inside

/-- The page data programmed by a burn covers exactly the page. -/
@[simp] theorem pageBytes_length (page : Nat → UInt32) (count : Nat) :
    (pageBytes page count).length = 4 * count := by simp [pageBytes]

end Counter

end Fly2040.Unary
