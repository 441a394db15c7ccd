import Fly2040.Firmware.Config
import Mathlib.Tactic.Ring
/-!
# Random words

A random word is shifted together from single bits, in a local variable that is never set. As many
bits of it are drawn as there are cycles; the bits above them are those that the variable held
before, moved up. The delay of a glitch is such a word on top of its offset, and the offsets are
brought into a random order by words of full length, which keep nothing of that variable.
-/

namespace Fly2040.Firmware

/-- A random word, with what the local variable holds at the start. -/
def getRandomWord (byte : UInt32) (randombit : Nat → Bool) (cycles : Nat) : UInt32 :=
  (List.range cycles).foldl (fun byte cycle => (byte <<< 1) ||| (randombit cycle).toUInt32) byte

/-- The delay of an attempt, where the sum is taken of unsigned words and read as a signed one. -/
def glitchDelay (offset : Nat) (word : UInt32) : Int := (UInt32.ofNat offset + word).toBitVec.toInt

/-- The index that the element of an index is exchanged with. -/
def drawnIndex (word : UInt32) (index : Nat) : Nat := word.toNat % (index + 1)

/-- It is at most that index. -/
theorem drawnIndex_le (word : UInt32) (index : Nat) : drawnIndex word index ≤ index :=
  Nat.lt_succ_iff.mp (Nat.mod_lt _ (Nat.succ_pos index))

/-- The rounds of the shuffle from an index downwards, with the word that is drawn in each. -/
def shuffleFrom (words : Nat → UInt32) :
    (index : Nat) → index < offsetCnt → Vector Nat offsetCnt → Vector Nat offsetCnt
  | 0, _, offsets => offsets
  | index + 1, inside, offsets =>
    shuffleFrom words index (Nat.lt_of_succ_lt inside)
      (offsets.swap (drawnIndex (words (index + 1)) (index + 1)) (index + 1)
        (Nat.lt_of_le_of_lt (drawnIndex_le (words (index + 1)) (index + 1)) inside) inside)

/-- The offsets of the grid in a random order. -/
def prepareRandomArray (words : Nat → UInt32) : Vector Nat offsetCnt :=
  shuffleFrom words 109 (by decide) (Vector.ofFn gridOffset)

/-- The number that the bits of the first cycles make. -/
def drawn (randombit : Nat → Bool) : (cycles : Nat) → Nat
  | 0 => 0
  | cycles + 1 => 2 * drawn randombit cycles + (randombit cycles).toNat

section

variable {byte : UInt32} {randombit : Nat → Bool} {cycles : Nat}

/-- The number has as many bits as were drawn. -/
theorem drawn_lt (randombit : Nat → Bool) (cycles : Nat) : drawn randombit cycles < 2 ^ cycles := by
  induction cycles with
  | zero => exact Nat.one_pos
  | succ cycles ih =>
    have bit : (randombit cycles).toNat ≤ 1 := Bool.toNat_le _
    rw [drawn, Nat.pow_succ]
    omega

/-- A bit is shifted in. -/
theorem shiftIn_toNat (byte : UInt32) (bit : Bool) :
    ((byte <<< 1) ||| bit.toUInt32).toNat = (2 * byte.toNat + bit.toNat) % 2 ^ 32 := by
  have small : bit.toNat < 2 ^ 1 := Bool.toNat_lt bit
  have half : 2 * byte.toNat % 2 ^ 32 = 2 ^ 1 * (byte.toNat % 2 ^ 31) := by omega
  have one : (1 : UInt32).toNat % 32 = 1 := rfl
  have word : bit.toUInt32.toNat = bit.toNat := by cases bit <;> rfl
  rw [UInt32.toNat_or, UInt32.toNat_shiftLeft, one, Nat.shiftLeft_eq, word, Nat.mul_comm, Nat.pow_one,
    half, ← Nat.two_pow_add_eq_or_of_lt small]
  omega

/-- A random word is what was drawn, below what the variable held at the start. -/
theorem getRandomWord_toNat (byte : UInt32) (randombit : Nat → Bool) (cycles : Nat) :
    (getRandomWord byte randombit cycles).toNat =
      (byte.toNat * 2 ^ cycles + drawn randombit cycles) % 2 ^ 32 := by
  induction cycles with
  | zero =>
    have bound : byte.toNat < 2 ^ 32 := byte.toNat_lt
    rw [Nat.pow_zero, Nat.mul_one, drawn, Nat.add_zero, Nat.mod_eq_of_lt bound]
    rfl
  | succ cycles ih =>
    have last : getRandomWord byte randombit (cycles + 1) =
        (getRandomWord byte randombit cycles <<< 1) ||| (randombit cycles).toUInt32 := by
      rw [getRandomWord, List.range_succ, List.foldl_append]
      rfl
    have doubled : byte.toNat * 2 ^ (cycles + 1) = 2 * (byte.toNat * 2 ^ cycles) := by
      rw [Nat.pow_succ, ← Nat.mul_assoc, Nat.mul_comm]
    rw [last, shiftIn_toNat, ih, drawn, doubled]
    omega

/-- For a word of at most full length, the parts are apart. -/
theorem getRandomWord_parts (byte : UInt32) (randombit : Nat → Bool) (short : cycles ≤ 32) :
    (getRandomWord byte randombit cycles).toNat =
      byte.toNat % 2 ^ (32 - cycles) * 2 ^ cycles + drawn randombit cycles := by
  have low := drawn_lt randombit cycles
  have whole : 2 ^ 32 = 2 ^ (32 - cycles) * 2 ^ cycles := by
    rw [← Nat.pow_add, Nat.sub_add_cancel short]
  have kept : byte.toNat % 2 ^ (32 - cycles) < 2 ^ (32 - cycles) :=
    Nat.mod_lt _ (Nat.two_pow_pos _)
  have split := Nat.div_add_mod byte.toNat (2 ^ (32 - cycles))
  have room : (byte.toNat % 2 ^ (32 - cycles) + 1) * 2 ^ cycles ≤ 2 ^ (32 - cycles) * 2 ^ cycles :=
    Nat.mul_le_mul_right _ kept
  have below : byte.toNat % 2 ^ (32 - cycles) * 2 ^ cycles + drawn randombit cycles <
      2 ^ (32 - cycles) * 2 ^ cycles := by
    rw [Nat.succ_mul] at room
    omega
  have sum : byte.toNat * 2 ^ cycles + drawn randombit cycles =
      2 ^ (32 - cycles) * 2 ^ cycles * (byte.toNat / 2 ^ (32 - cycles)) +
        (byte.toNat % 2 ^ (32 - cycles) * 2 ^ cycles + drawn randombit cycles) := by
    conv_lhs => rw [← split]
    ring
  rw [getRandomWord_toNat, whole, sum, Nat.mul_add_mod, Nat.mod_eq_of_lt below]

/-- A word of full length does not depend on what the variable held. -/
theorem getRandomWord_full (byte : UInt32) (randombit : Nat → Bool) :
    (getRandomWord byte randombit 32).toNat = drawn randombit 32 := by
  rw [getRandomWord_parts byte randombit (Nat.le_refl 32), Nat.sub_self, Nat.pow_zero, Nat.mod_one,
    Nat.zero_mul, Nat.zero_add]

/-- A word is as short as it should be exactly if the variable held zeros where they remain. -/
theorem getRandomWord_short_iff (byte : UInt32) (randombit : Nat → Bool) (short : cycles ≤ 32) :
    (getRandomWord byte randombit cycles).toNat < 2 ^ cycles ↔
      byte.toNat % 2 ^ (32 - cycles) = 0 := by
  have low := drawn_lt randombit cycles
  rw [getRandomWord_parts byte randombit short]
  constructor
  · intro small
    by_contra rest
    have more : 1 * 2 ^ cycles ≤ byte.toNat % 2 ^ (32 - cycles) * 2 ^ cycles :=
      Nat.mul_le_mul_right _ (Nat.pos_of_ne_zero rest)
    omega
  · intro zero
    rw [zero, Nat.zero_mul, Nat.zero_add]
    exact low

/-- The delay lies within seven of its offset exactly if the word is less than eight. -/
theorem glitchDelay_near_iff (index : Fin offsetCnt) (word : UInt32) :
    ((gridOffset index : Int) ≤ glitchDelay (gridOffset index) word ∧
      glitchDelay (gridOffset index) word ≤ gridOffset index + 7) ↔ word.toNat < 8 := by
  have grid : index.val < 110 := index.isLt
  have bound := word.toNat_lt
  have sum : (UInt32.ofNat (gridOffset index) + word).toBitVec.toNat =
      (gridOffset index + word.toNat) % 2 ^ 32 := by
    rw [UInt32.toBitVec_add, BitVec.toNat_add]
    simp
  unfold glitchDelay
  rw [BitVec.toInt_eq_toNat_cond, sum]
  unfold gridOffset offsetMin offsetDiv
  split <;> omega

/-- A round loses no offset and repeats none. -/
theorem shuffleFrom_perm (words : Nat → UInt32) (index : Nat) (inside : index < offsetCnt)
    (offsets : Vector Nat offsetCnt) :
    (shuffleFrom words index inside offsets).toList.Perm offsets.toList := by
  induction index generalizing offsets with
  | zero => exact List.Perm.refl _
  | succ index ih =>
    rw [shuffleFrom]
    exact (ih _ _).trans (Vector.swap_perm _ _).toList

/-- The random order holds every offset of the grid once. -/
theorem prepareRandomArray_perm (words : Nat → UInt32) :
    (prepareRandomArray words).toList.Perm (List.ofFn gridOffset) := by
  have start : (Vector.ofFn gridOffset).toList = List.ofFn gridOffset := Vector.toList_ofFn
  rw [← start]
  exact shuffleFrom_perm words 109 _ _

end

/-- A random word of some cycles is as short as it should be exactly if the local variable that it
is shifted into started with zeros in the bits that remain. The delay of an attempt lies within
seven of its offset, and below the next one, exactly if that holds for a word of three cycles. -/
theorem random_word_iff (byte : UInt32) (randombit : Nat → Bool) (cycles : Nat)
    (range : 1 ≤ cycles ∧ cycles ≤ 32) :
    ((getRandomWord byte randombit cycles).toNat < 2 ^ cycles ↔
      byte.toNat % 2 ^ (32 - cycles) = 0) ∧
    ∀ index : Fin offsetCnt,
      ((gridOffset index ≤ glitchDelay (gridOffset index) (getRandomWord byte randombit 3) ∧
        glitchDelay (gridOffset index) (getRandomWord byte randombit 3) ≤ gridOffset index + 7 ∧
        glitchDelay (gridOffset index) (getRandomWord byte randombit 3) <
          gridOffset index + offsetDiv) ↔ byte.toNat % 2 ^ (32 - 3) = 0) := by
  refine ⟨getRandomWord_short_iff byte randombit range.2, fun index => ?_⟩
  have near := glitchDelay_near_iff index (getRandomWord byte randombit 3)
  have short : (getRandomWord byte randombit 3).toNat < 2 ^ 3 ↔ _ :=
    getRandomWord_short_iff byte randombit (by decide)
  rw [← short]
  refine Iff.trans
    ⟨fun bounds => ⟨bounds.1, bounds.2.1⟩, fun bounds => ⟨bounds.1, bounds.2, ?_⟩⟩ near
  unfold offsetDiv
  omega

/-- Three one bits are a word of three bits if the variable held zero, and none if it held one. -/
theorem random_word_full : (getRandomWord 0 (fun _ => true) 3).toNat < 2 ^ 3 ∧
    ¬ (getRandomWord 1 (fun _ => true) 3).toNat < 2 ^ 3 := by
  constructor
  · exact (random_word_iff 0 (fun _ => true) 3 (by decide)).1.mpr (Nat.zero_mod _)
  · intro short
    have held := (random_word_iff 1 (fun _ => true) 3 (by decide)).1.mp short
    exact absurd held (by decide)

/-- A variable that held two makes a word of three zero bits sixteen, and the delay of the first
offset one of the offset after it. -/
theorem random_word_long :
    ¬ (getRandomWord 2 (fun _ => false) 3).toNat < 2 ^ 3 ∧
    ¬ (glitchDelay 9200 (getRandomWord 2 (fun _ => false) 3) ≤ 9200 + 7 ∧
      glitchDelay 9200 (getRandomWord 2 (fun _ => false) 3) < 9200 + offsetDiv) := by decide

end Fly2040.Firmware
