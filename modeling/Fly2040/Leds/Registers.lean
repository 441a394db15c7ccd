import Fly2040.Lib.Bytes
import Mathlib.Algebra.Order.Floor.Semifield
import Mathlib.Data.Rat.Floor
import Mathlib.Logic.Function.Basic
/-!
# LED registers

The registers of the LED device are shared by the firmware and the console application: an
18-byte packed state at the start of a 256-byte memory. Fractions are stored as 32-bit words in
units of 1/10000; floats are read as exact rationals.
-/

namespace Fly2040.Leds

open Bytes

/-- LED modes. -/
inductive RgbMode where
  /-- Dark. -/
  | off
  /-- One pulsing colour. -/
  | pulse
  /-- All colours in turn. -/
  | cycle
  /-- All colours side by side. -/
  | rainbow
  /-- Colour by load. -/
  | load
  /-- Colour by temperature. -/
  | temperature
deriving DecidableEq, Repr

namespace RgbMode

/-- Number of a mode. -/
def number : RgbMode → Nat
  | off => 0
  | pulse => 1
  | cycle => 2
  | rainbow => 3
  | load => 4
  | temperature => 5

/-- Mode of a number, if it is one. -/
def ofNumber : Nat → Option RgbMode
  | 0 => some off
  | 1 => some pulse
  | 2 => some cycle
  | 3 => some rainbow
  | 4 => some load
  | 5 => some temperature
  | _ => none

/-- A mode is found by its number. -/
@[simp] theorem ofNumber_number (mode : RgbMode) : ofNumber mode.number = some mode := by
  cases mode <;> rfl

/-- Only the number of a mode finds it. -/
theorem ofNumber_eq_some {value : Nat} {mode : RgbMode} (found : ofNumber value = some mode) :
    value = mode.number := by
  unfold ofNumber at found
  split at found <;> cases found <;> rfl

end RgbMode

/-- The state that the registers hold. -/
structure RgbState where
  /-- Number of the mode. -/
  mode : UInt8
  /-- Number of pixels. -/
  numPixels : UInt8
  /-- Brightness. -/
  brightness : UInt32
  /-- Scale, the colour of the load and temperature modes. -/
  scale : UInt32
  /-- Milliseconds of a period. -/
  speed : UInt32
  /-- Colour of the pulse mode. -/
  hue : UInt32
deriving DecidableEq

/-- A field of the packed state. -/
inductive Field where
  /-- Mode. -/
  | mode
  /-- Number of pixels. -/
  | numPixels
  /-- Brightness. -/
  | brightness
  /-- Scale. -/
  | scale
  /-- Speed. -/
  | speed
  /-- Hue. -/
  | hue
deriving DecidableEq

namespace Field

/-- Offset of a field. -/
def offset : Field → Nat
  | mode => 0
  | numPixels => 1
  | brightness => 2
  | scale => 6
  | speed => 10
  | hue => 14

/-- Bytes of a field. -/
def size : Field → Nat
  | mode => 1
  | numPixels => 1
  | brightness => 4
  | scale => 4
  | speed => 4
  | hue => 4

/-- Whether an address belongs to a field. -/
def Holds (field : Field) (address : Nat) : Prop :=
  field.offset ≤ address ∧ address < field.offset + field.size

instance (field : Field) (address : Nat) : Decidable (field.Holds address) :=
  inferInstanceAs (Decidable (_ ∧ _))

end Field

/-- Bytes of the packed state. -/
def stateSize : Nat := 18

/-- Every field lies inside the state. -/
theorem Field.inside (field : Field) : field.offset + field.size ≤ stateSize := by
  cases field <;> decide

/-- Every address of the state belongs to a field. -/
theorem Field.cover {address : Nat} (inside : address < stateSize) :
    ∃ field : Field, field.Holds address := by
  have cover : ∀ address < stateSize, Field.mode.Holds address ∨ Field.numPixels.Holds address ∨
      Field.brightness.Holds address ∨ Field.scale.Holds address ∨ Field.speed.Holds address ∨
      Field.hue.Holds address := by decide
  rcases cover address inside with h | h | h | h | h | h
  all_goals exact ⟨_, h⟩

/-- The state in the first bytes of a register memory. -/
def stateOf (mem : Memory) : RgbState where
  mode := mem Field.mode.offset
  numPixels := mem Field.numPixels.offset
  brightness := word32 mem Field.brightness.offset
  scale := word32 mem Field.scale.offset
  speed := word32 mem Field.speed.offset
  hue := word32 mem Field.hue.offset

/-- Memories that agree on the first bytes hold the same state. -/
theorem stateOf_congr {left right : Memory}
    (same : ∀ address < stateSize, left address = right address) : stateOf left = stateOf right := by
  have word : ∀ field : Field, field.size = 4 →
      word32 left field.offset = word32 right field.offset := by
    intro field size
    apply word32_congr
    intro offset inside
    have fits := field.inside
    exact same _ (by omega)
  simp only [stateOf, word .brightness rfl, word .scale rfl, word .speed rfl, word .hue rfl,
    same Field.mode.offset (by decide), same Field.numPixels.offset (by decide)]

/-- The packed state, followed by zeros. -/
def pack (state : RgbState) : Memory := fun address =>
  if address = 0 then state.mode
  else if address = 1 then state.numPixels
  else if address < 6 then byte32 state.brightness (address - 2)
  else if address < 10 then byte32 state.scale (address - 6)
  else if address < 14 then byte32 state.speed (address - 10)
  else if address < 18 then byte32 state.hue (address - 14)
  else 0

/-- A state is read back from its packed form. -/
@[simp] theorem stateOf_pack (state : RgbState) : stateOf (pack state) = state := by
  have brightness : word32 (pack state) 2 = state.brightness := by
    apply word32_of_bytes
    intro offset inside
    rw [pack, if_neg (by omega), if_neg (by omega), if_pos (by omega), Nat.add_sub_cancel_left]
  have scale : word32 (pack state) 6 = state.scale := by
    apply word32_of_bytes
    intro offset inside
    rw [pack, if_neg (by omega), if_neg (by omega), if_neg (by omega), if_pos (by omega),
      Nat.add_sub_cancel_left]
  have speed : word32 (pack state) 10 = state.speed := by
    apply word32_of_bytes
    intro offset inside
    rw [pack, if_neg (by omega), if_neg (by omega), if_neg (by omega), if_neg (by omega),
      if_pos (by omega), Nat.add_sub_cancel_left]
  have hue : word32 (pack state) 14 = state.hue := by
    apply word32_of_bytes
    intro offset inside
    rw [pack, if_neg (by omega), if_neg (by omega), if_neg (by omega), if_neg (by omega),
      if_neg (by omega), if_pos (by omega), Nat.add_sub_cancel_left]
  simp only [stateOf, Field.offset, brightness, scale, speed, hue]
  rfl

/-- A memory that holds the bytes of a state holds the state. -/
theorem stateOf_of_packed {mem : Memory} {state : RgbState}
    (same : ∀ address < stateSize, mem address = pack state address) : stateOf mem = state := by
  rw [stateOf_congr same, stateOf_pack]

/-- Units of a stored fraction. -/
def u32fScale : Nat := 10000

/-- A float as an unsigned word: its integral part, or the end of the range it lies beyond. -/
def toU32 (x : ℚ) : UInt32 := UInt32.ofNat (min ⌊x⌋.toNat 0xFFFFFFFF)

/-- A float as a stored fraction. -/
def f2u32 (f : ℚ) : UInt32 := toU32 (f * u32fScale)

/-- A stored fraction as a float. -/
def u322f (u : UInt32) : ℚ := u.toNat / u32fScale

/-- The smaller of two words. -/
def minU32 (x y : UInt32) : UInt32 := if x < y then x else y

/-- The larger of two words. -/
def maxU32 (x y : UInt32) : UInt32 := if x > y then x else y

/-- A word brought into a range. -/
def clamp (x lower upper : UInt32) : UInt32 := minU32 upper (maxU32 x lower)

/-- A float that fits is rounded down. -/
theorem toU32_toNat {x : ℚ} (fits : ⌊x⌋.toNat ≤ 0xFFFFFFFF) : (toU32 x).toNat = ⌊x⌋.toNat := by
  rw [toU32, min_eq_left fits, UInt32.toNat_ofNat']
  omega

/-- The integral part of a stored fraction. -/
theorem toU32_u322f (u : UInt32) : (toU32 (u322f u)).toNat = u.toNat / u32fScale := by
  have floor : ⌊u322f u⌋.toNat = u.toNat / u32fScale := by
    rw [u322f, Rat.floor_natCast_div_natCast]
    rfl
  rw [toU32_toNat, floor]
  rw [floor]
  have bound := u.toNat_lt
  unfold u32fScale
  omega

/-- A fraction that fits is rounded down to whole units. -/
theorem f2u32_toNat {x : ℚ} (fits : ⌊x * u32fScale⌋₊ ≤ 0xFFFFFFFF) :
    (f2u32 x).toNat = ⌊x * u32fScale⌋₊ := by
  rw [f2u32, toU32_toNat (by rwa [Int.floor_toNat]), Int.floor_toNat]

/-- The integral part of a fraction survives being stored. -/
theorem f2u32_div {x : ℚ} (fits : ⌊x * u32fScale⌋₊ ≤ 0xFFFFFFFF) :
    (f2u32 x).toNat / u32fScale = ⌊x⌋₊ := by
  have scale : (u32fScale : ℚ) ≠ 0 := by unfold u32fScale; norm_num
  rw [f2u32_toNat fits, ← Nat.floor_div_natCast, mul_div_cancel_right₀ x scale]

/-- A stored fraction differs from the float by less than one unit. -/
theorem f2u32_near {x : ℚ} (positive : 0 ≤ x) (fits : ⌊x * u32fScale⌋₊ ≤ 0xFFFFFFFF) :
    u322f (f2u32 x) ≤ x ∧ x < u322f (f2u32 x) + 1 / u32fScale := by
  have scale : (0 : ℚ) < u32fScale := by unfold u32fScale; norm_num
  rw [u322f, f2u32_toNat fits, ← add_div, div_le_iff₀ scale, lt_div_iff₀ scale]
  exact ⟨Nat.floor_le (by positivity), Nat.lt_floor_add_one _⟩

/-- The smaller word in terms of numbers. -/
theorem minU32_toNat (x y : UInt32) : (minU32 x y).toNat = min x.toNat y.toNat := by
  rw [minU32]
  split
  · rename_i less
    have less' : x.toNat < y.toNat := less
    omega
  · rename_i more
    have more' : ¬ x.toNat < y.toNat := more
    omega

/-- The larger word in terms of numbers. -/
theorem maxU32_toNat (x y : UInt32) : (maxU32 x y).toNat = max x.toNat y.toNat := by
  rw [maxU32]
  split
  · rename_i more
    have more' : y.toNat < x.toNat := more
    omega
  · rename_i less
    have less' : ¬ y.toNat < x.toNat := less
    omega

/-- A clamped word in terms of numbers. -/
theorem clamp_toNat (x lower upper : UInt32) :
    (clamp x lower upper).toNat = min upper.toNat (max x.toNat lower.toNat) := by
  rw [clamp, minU32_toNat, maxU32_toNat]

end Fly2040.Leds
