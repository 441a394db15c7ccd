import Fly2040.Leds.Render
import Mathlib.Algebra.Order.Floor.Semiring
import Mathlib.Data.Rat.Floor
import Mathlib.Tactic.Linarith
/-!
# Colours

A colour is drawn by hue, saturation and value. Whatever the hue, one channel has the value, one has
what the saturation leaves of it, and the third one is between the two. So every channel is a byte,
and the colour is a word that has room for the shift of a pixel.
-/

namespace Fly2040.Leds

/-- Three channels between two bounds, both of which are taken. -/
structure Spread (low high r g b : ℚ) : Prop where
  /-- Red is between the bounds. -/
  red : low ≤ r ∧ r ≤ high
  /-- Green is between the bounds. -/
  green : low ≤ g ∧ g ≤ high
  /-- Blue is between the bounds. -/
  blue : low ≤ b ∧ b ≤ high
  /-- A channel has the higher bound. -/
  highest : r = high ∨ g = high ∨ b = high
  /-- A channel has the lower bound. -/
  lowest : r = low ∨ g = low ∨ b = low

/-- A channel as a byte. -/
def channel (x : ℚ) : Nat := ⌊255 * x⌋.toNat

/-- A float that is not negative becomes the whole number below it. -/
theorem toInt_eq_floor {x : ℚ} (positive : 0 ≤ x) : toInt x = ⌊x⌋ := by
  rw [toInt, Int.tdiv_eq_ediv_of_nonneg (Rat.num_nonneg.mpr positive), Rat.floor_def']

/-- A channel between zero and one is a byte. -/
theorem channel_spec {x : ℚ} (positive : 0 ≤ x) (small : x ≤ 1) :
    channel x ≤ 255 ∧ (channel x : Int) = ⌊255 * x⌋ ∧
      toU32 (x * 255) = UInt32.ofNat (channel x) := by
  have below : ⌊255 * x⌋ ≤ 255 := Int.floor_le_iff.mpr (by push_cast; linarith)
  have above : 0 ≤ ⌊255 * x⌋ := Int.floor_nonneg.mpr (by linarith)
  have small' : channel x ≤ 255 := Int.toNat_le.mpr below
  refine ⟨small', Int.toNat_of_nonneg above, ?_⟩
  rw [toU32, mul_comm]
  show UInt32.ofNat (min (channel x) 0xFFFFFFFF) = _
  rw [Nat.min_eq_left (Nat.le_trans small' (by decide))]

/-- Larger channels are larger bytes. -/
theorem channel_mono {x y : ℚ} (less : x ≤ y) : channel x ≤ channel y :=
  Int.toNat_le_toNat (Int.floor_le_floor (by linarith))

/-- The greatest and the least byte are those of the bounds. -/
theorem Spread.bounds {low high r g b : ℚ} (spread : Spread low high r g b) :
    max (channel r) (max (channel g) (channel b)) = channel high ∧
      min (channel r) (min (channel g) (channel b)) = channel low := by
  have red := channel_mono spread.red.1
  have red' := channel_mono spread.red.2
  have green := channel_mono spread.green.1
  have green' := channel_mono spread.green.2
  have blue := channel_mono spread.blue.1
  have blue' := channel_mono spread.blue.2
  constructor
  · have taken : channel r = channel high ∨ channel g = channel high ∨ channel b = channel high :=
      spread.highest.imp (congrArg channel) (Or.imp (congrArg channel) (congrArg channel))
    omega
  · have taken : channel r = channel low ∨ channel g = channel low ∨ channel b = channel low :=
      spread.lowest.imp (congrArg channel) (Or.imp (congrArg channel) (congrArg channel))
    omega

/-- Bytes next to each other do not reach the highest byte of a word. -/
theorem packed_bytes {r g b : Nat} (red : r ≤ 255) (green : g ≤ 255) (blue : b ≤ 255) :
    (UInt32.ofNat r <<< 16 ||| UInt32.ofNat g <<< 8 ||| UInt32.ofNat b).toNat < 2 ^ 24 := by
  have byte {x : Nat} (small : x ≤ 255) : (UInt32.ofNat x).toNat = x :=
    UInt32.toNat_ofNat_of_lt' (Nat.lt_of_le_of_lt small (by decide))
  have moved (count : Nat) {x : Nat} (small : x ≤ 255) (inside : count ≤ 16) :
      x <<< count < 2 ^ 24 := by
    have power : 2 ^ count ≤ 2 ^ 16 := Nat.pow_le_pow_right (by decide) inside
    rw [Nat.shiftLeft_eq]
    calc
      x * 2 ^ count ≤ 255 * 2 ^ 16 := Nat.mul_le_mul small power
      _ < 2 ^ 24 := by decide
  rw [UInt32.toNat_or, UInt32.toNat_or, UInt32.toNat_shiftLeft, UInt32.toNat_shiftLeft, byte red,
    byte green, byte blue]
  apply Nat.or_lt_two_pow (Nat.or_lt_two_pow _ _) (Nat.lt_of_le_of_lt blue (by decide))
  · exact Nat.lt_of_le_of_lt (Nat.mod_le _ _) (moved 16 red (by decide))
  · exact Nat.lt_of_le_of_lt (Nat.mod_le _ _) (moved 8 green (by decide))

/-- A word of three bytes is not changed by the shift of a pixel and back. -/
theorem shift_back {word : UInt32} (small : word.toNat < 2 ^ 24) : (word <<< 8) >>> 8 = word := by
  apply UInt32.toNat_inj.mp
  rw [UInt32.toNat_shiftRight, UInt32.toNat_shiftLeft, Nat.shiftLeft_eq, Nat.shiftRight_eq_div_pow]
  show word.toNat * 2 ^ 8 % 2 ^ 32 / 2 ^ 8 = word.toNat
  omega

/-- A colour is packed from three channels between the value and what the saturation leaves of
it. -/
theorem hsvToRgb_spread {h s v : ℚ} (hue : 0 ≤ h) (colour : 0 < s) (dark : 0 ≤ v) :
    ∃ r g b, hsvToRgb h s v = packRgb r g b ∧ Spread (v * (1 - s)) v r g b := by
  have sector : 0 ≤ (if h ≥ 360 then 0 else h) / 60 := by
    split
    next => exact le_of_eq (zero_div 60).symm
    next => exact div_nonneg hue (by norm_num)
  rw [hsvToRgb, if_neg (not_le.mpr colour)]
  generalize (if h ≥ 360 then 0 else h) / 60 = fH at sector
  dsimp only
  rw [toInt_eq_floor sector]
  -- the third channel leaves the value or comes to it with the rest of the hue
  have between {x : ℚ} (more : 0 ≤ x) (less : x ≤ 1) :
      v * (1 - s) ≤ v * (1 - s * x) ∧ v * (1 - s * x) ≤ v := by
    have part : s * x ≤ s := mul_le_of_le_one_right (le_of_lt colour) less
    have some : 0 ≤ s * x := mul_nonneg (le_of_lt colour) more
    exact ⟨mul_le_mul_of_nonneg_left (by linarith) dark,
      mul_le_of_le_one_right dark (by linarith)⟩
  have least : v * (1 - s) ≤ v := mul_le_of_le_one_right dark (by linarith)
  have value : v * (1 - s) ≤ v ∧ v ≤ v := ⟨least, le_rfl⟩
  have rest : v * (1 - s) ≤ v * (1 - s) ∧ v * (1 - s) ≤ v := ⟨le_rfl, least⟩
  have below : 0 ≤ fH - ⌊fH⌋ := Int.fract_nonneg fH
  have above : fH - ⌊fH⌋ ≤ 1 := le_of_lt (Int.fract_lt_one fH)
  have falls := between below above
  have rises := between (sub_nonneg.mpr above) (sub_le_self 1 below)
  split
  next => exact ⟨_, _, _, rfl, value, rises, rest, .inl rfl, .inr (.inr rfl)⟩
  next => exact ⟨_, _, _, rfl, falls, value, rest, .inr (.inl rfl), .inr (.inr rfl)⟩
  next => exact ⟨_, _, _, rfl, rest, value, rises, .inr (.inl rfl), .inl rfl⟩
  next => exact ⟨_, _, _, rfl, rest, falls, value, .inr (.inr rfl), .inl rfl⟩
  next => exact ⟨_, _, _, rfl, rises, rest, value, .inr (.inr rfl), .inr (.inl rfl)⟩
  next => exact ⟨_, _, _, rfl, value, rest, falls, .inl rfl, .inr (.inl rfl)⟩

section Packed

variable {h s v : ℚ}

/-- A colour is packed from three bytes, of which the greatest is the value and the least what the
saturation leaves of it. So it leaves room for the shift of a pixel, and the hue is a circle. -/
theorem hsvToRgb_packs (hue : 0 ≤ h) (colour : 0 < s) (full : s ≤ 1) (dark : 0 ≤ v)
    (bright : v ≤ 1) :
    (∃ r g b : Nat,
      hsvToRgb h s v = UInt32.ofNat r <<< 16 ||| UInt32.ofNat g <<< 8 ||| UInt32.ofNat b ∧
      (r ≤ 255 ∧ g ≤ 255 ∧ b ≤ 255) ∧
      (max r (max g b) : Nat) = ⌊255 * v⌋ ∧
      (min r (min g b) : Nat) = ⌊255 * v * (1 - s)⌋) ∧
    (hsvToRgb h s v).toNat < 2 ^ 24 ∧
    (hsvToRgb h s v <<< 8) >>> 8 = hsvToRgb h s v ∧
    hsvToRgb 360 s v = hsvToRgb 0 s v := by
  have ⟨r, g, b, packed, spread⟩ := hsvToRgb_spread hue colour dark
  have low : 0 ≤ v * (1 - s) := mul_nonneg dark (by linarith)
  have byte {x : ℚ} (inside : v * (1 - s) ≤ x ∧ x ≤ v) :=
    channel_spec (le_trans low inside.1) (le_trans inside.2 bright)
  have ⟨red, _, redWord⟩ := byte spread.red
  have ⟨green, _, greenWord⟩ := byte spread.green
  have ⟨blue, _, blueWord⟩ := byte spread.blue
  have bounds := spread.bounds
  rw [packRgb, redWord, greenWord, blueWord] at packed
  have small : (hsvToRgb h s v).toNat < 2 ^ 24 := by
    rw [packed]
    exact packed_bytes red green blue
  refine ⟨⟨_, _, _, packed, ⟨red, green, blue⟩, ?_, ?_⟩, small, shift_back small, ?_⟩
  · rw [bounds.1]
    exact (channel_spec dark bright).2.1
  · rw [bounds.2, mul_assoc]
    exact (channel_spec low (le_trans spread.red.1 (le_trans spread.red.2 bright))).2.1
  · rw [hsvToRgb, hsvToRgb, if_pos (le_refl (360 : ℚ)), if_neg (by norm_num : ¬(0 : ℚ) ≥ 360)]

end Packed

/-- Orange at half of the value. -/
theorem orange_packs : (hsvToRgb 30 1 (1 / 2)).toNat < 2 ^ 24 ∧ hsvToRgb 360 1 (1 / 2) = 0x7F0000 :=
  have packs := hsvToRgb_packs (show (0 : ℚ) ≤ 30 by norm_num) (show (0 : ℚ) < 1 by norm_num)
    (le_refl 1) (show (0 : ℚ) ≤ 1 / 2 by norm_num) (show (1 / 2 : ℚ) ≤ 1 by norm_num)
  ⟨packs.2.1, packs.2.2.2.trans (by decide +kernel)⟩

end Fly2040.Leds
