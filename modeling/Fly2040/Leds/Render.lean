import Fly2040.Leds.Registers
import Fly2040.Lib.Checked
import Mathlib.Algebra.Order.Field.Rat
import Mathlib.Tactic.NormNum
/-!
# Frames

A frame is drawn into the pixel buffer from the state and the milliseconds since the start, and
shifted out pixel by pixel. The modes that move divide by the whole units of the speed, which
are called a period here, and the rainbow also by the number of pixels. Floats are read as exact
rationals and the sine is that of the C library.
-/

namespace Fly2040.Leds

open Checked

/-- Largest number of pixels. -/
def maxPixels : Nat := 50

/-- The pixel buffer. -/
abbrev Pixels := Vector UInt32 maxPixels

/-- A float as a signed integer: towards zero. -/
def toInt (x : ℚ) : Int := x.num.tdiv x.den

/-- A colour of three channels. -/
def packRgb (r g b : ℚ) : UInt32 :=
  toU32 (r * 255) <<< 16 ||| toU32 (g * 255) <<< 8 ||| toU32 (b * 255)

/-- A colour by hue, saturation and value. -/
def hsvToRgb (fH fS fV : ℚ) : UInt32 :=
  if fS ≤ 0 then packRgb fV fV fV
  else
    let fH := (if fH ≥ 360 then 0 else fH) / 60
    let i := toInt fH
    let ff := fH - i
    let p := fV * (1 - fS)
    let q := fV * (1 - fS * ff)
    let t := fV * (1 - fS * (1 - ff))
    match i with
    | 0 => packRgb fV t p
    | 1 => packRgb q fV p
    | 2 => packRgb p fV t
    | 3 => packRgb p q fV
    | 4 => packRgb t p fV
    | _ => packRgb fV p q

/-- Store a colour at a pixel, or at all of them if the index is negative. -/
def setPixel (state : RgbState) (pixelGrb : UInt32) (index : Int) (pixels : Pixels) :
    Except Fault Pixels :=
  if index < 0 then fill (fun _ => pixelGrb <<< 8) state.numPixels.toNat pixels
  else if index < state.numPixels.toNat then set pixels index.toNat (pixelGrb <<< 8)
  else .ok pixels

/-- The words shifted out. -/
def updatePixels (state : RgbState) (pixels : Pixels) : Except Fault (List UInt32) :=
  take state.numPixels.toNat pixels

/-- The divisor of the modes that move. -/
def period (state : RgbState) : UInt32 := toU32 (u322f state.speed)

/-- Part of the period that has passed. -/
def phase (ms : UInt32) (state : RgbState) : Except Fault ℚ := do
  let rest ← mod ms (period state)
  return rest.toNat / u322f state.speed

/-- Colour of the pulse mode. -/
def pulse (sin : ℚ → ℚ) (ms : UInt32) (state : RgbState) : Except Fault UInt32 := do
  let s := u322f state.speed
  let rest ← mod ms (period state)
  let p := |sin ((s / 2 - rest.toNat) / s) * 2|
  return hsvToRgb (u322f state.hue * 360) 1 p

/-- Colour of the cycle mode. -/
def cycle (ms : UInt32) (state : RgbState) : Except Fault UInt32 := do
  let p ← phase ms state
  return hsvToRgb (p * 360) 1 (u322f state.brightness)

/-- Pixels of the rainbow mode. -/
def rainbow (ms : UInt32) (state : RgbState) (pixels : Pixels) : Except Fault Pixels := do
  let p ← phase ms state
  let step ← div 360 state.numPixels.toUInt32
  let hue (i : Nat) : Int := (toInt (p * 360 + (step * UInt32.ofNat i).toNat)).tmod 360
  fill (fun i => hsvToRgb (hue i) 1 (u322f state.brightness) <<< 8) state.numPixels.toNat pixels

/-- Draw a frame by the mode. -/
def draw (sin : ℚ → ℚ) (ms : UInt32) (state : RgbState) (pixels : Pixels) : Except Fault Pixels :=
  match RgbMode.ofNumber state.mode.toNat with
  | some .off => setPixel state 0 (-1) pixels
  | some .pulse => do setPixel state (← pulse sin ms state) (-1) pixels
  | some .rainbow => rainbow ms state pixels
  | some .load | some .temperature =>
    setPixel state (hsvToRgb (u322f state.scale * 360) 1 (u322f state.brightness)) (-1) pixels
  | some .cycle | none => do setPixel state (← cycle ms state) (-1) pixels

/-- Draw a frame and shift it out. -/
def render (sin : ℚ → ℚ) (ms : UInt32) (state : RgbState) (pixels : Pixels) :
    Except Fault (Pixels × List UInt32) := do
  let pixels ← draw sin ms state pixels
  return (pixels, ← updatePixels state pixels)

/-- Limits of a state that comes from the registers. -/
def clampState (state : RgbState) : RgbState := { state with
  scale := clamp state.scale 0 10000
  brightness := clamp state.brightness 0 10000
  hue := clamp state.hue 0 10000
  speed := clamp state.speed 1000 (10000 * 60 * 60)
  numPixels := if 50 < state.numPixels then 50 else state.numPixels }

/-- Modes that divide by the period. -/
def Moves (mode : UInt8) : Prop :=
  RgbMode.ofNumber mode.toNat ≠ some .off ∧ RgbMode.ofNumber mode.toNat ≠ some .load ∧
    RgbMode.ofNumber mode.toNat ≠ some .temperature

instance (mode : UInt8) : Decidable (Moves mode) := inferInstanceAs (Decidable (_ ∧ _))

/-- A state whose divisors are not zero: a moving mode has a speed of at least one whole unit,
and a rainbow has pixels. -/
structure Drawable (state : RgbState) : Prop where
  /-- The speed. -/
  speed : Moves state.mode → u32fScale ≤ state.speed.toNat
  /-- The pixels. -/
  pixels : RgbMode.ofNumber state.mode.toNat = some .rainbow → state.numPixels ≠ 0

/-- The period in terms of the speed. -/
theorem period_toNat (state : RgbState) :
    (period state).toNat = state.speed.toNat / u32fScale := toU32_u322f state.speed

/-- The period is not zero for speeds of at least one whole unit. -/
theorem period_ne_zero (state : RgbState) : period state ≠ 0 ↔ u32fScale ≤ state.speed.toNat := by
  have number := period_toNat state
  have positive : 0 < u32fScale := by decide
  have whole : 0 < state.speed.toNat / u32fScale ↔ u32fScale ≤ state.speed.toNat :=
    Nat.div_pos_iff.trans (and_iff_right positive)
  rw [← whole, ← number]
  constructor
  · intro other
    exact Nat.pos_of_ne_zero fun zero => other (UInt32.toNat_inj.mp zero)
  · intro more same
    rw [same] at more
    exact absurd more (by decide)

/-- The divisor of the phase is not zero. -/
theorem phase_ok {state : RgbState} (whole : period state ≠ 0) (ms : UInt32) :
    phase ms state = .ok ((ms % period state).toNat / u322f state.speed) := by
  rw [phase, mod_ok ms whole]
  rfl

/-- The divisor of the phase is zero. -/
theorem phase_fault {state : RgbState} (zero : period state = 0) (ms : UInt32) :
    phase ms state = .error .divisionByZero := by
  rw [phase, zero, mod_zero]
  rfl

/-- Filling all pixels does not fault. -/
theorem setPixel_ok {state : RgbState} (fits : state.numPixels.toNat ≤ maxPixels)
    (pixelGrb : UInt32) (pixels : Pixels) :
    ∃ later, setPixel state pixelGrb (-1) pixels = .ok later := by
  obtain ⟨later, filled, _⟩ := fill_ok (fun _ => pixelGrb <<< 8) pixels fits
  exact ⟨later, filled⟩

/-- A rainbow with a period and pixels does not fault. -/
theorem rainbow_ok {state : RgbState} (fits : state.numPixels.toNat ≤ maxPixels)
    (whole : period state ≠ 0) (some : state.numPixels ≠ 0) (ms : UInt32) (pixels : Pixels) :
    ∃ later, rainbow ms state pixels = .ok later := by
  have divisor : state.numPixels.toUInt32 ≠ 0 := by
    intro zero
    have number := congrArg UInt32.toNat zero
    rw [UInt8.toNat_toUInt32] at number
    exact some (UInt8.toNat_inj.mp number)
  rw [rainbow, phase_ok whole ms, div_ok 360 divisor]
  obtain ⟨later, filled, _⟩ := fill_ok _ pixels fits
  exact ⟨later, filled⟩

/-- A frame of a drawable state is drawn without a fault. -/
theorem draw_ok {state : RgbState} (fits : state.numPixels.toNat ≤ maxPixels)
    (drawable : Drawable state) (sin : ℚ → ℚ) (ms : UInt32) (pixels : Pixels) :
    ∃ later, draw sin ms state pixels = .ok later := by
  have whole : Moves state.mode → period state ≠ 0 := fun moves =>
    (period_ne_zero state).mpr (drawable.speed moves)
  have some := drawable.pixels
  unfold Moves at whole
  rw [draw]
  split
  · exact setPixel_ok fits 0 pixels
  · rename_i mode
    rw [pulse, mod_ok ms (whole (by simp [mode]))]
    exact setPixel_ok fits _ pixels
  · rename_i mode
    exact rainbow_ok fits (whole (by simp [mode])) (some mode) ms pixels
  · exact setPixel_ok fits _ pixels
  · exact setPixel_ok fits _ pixels
  · rename_i mode
    rw [cycle, phase_ok (whole (by simp [mode])) ms]
    exact setPixel_ok fits _ pixels
  · rename_i mode
    rw [cycle, phase_ok (whole (by simp [mode])) ms]
    exact setPixel_ok fits _ pixels

/-- A frame of a state that is not drawable divides by zero. -/
theorem draw_fault {state : RgbState} (never : ¬ Drawable state) (sin : ℚ → ℚ) (ms : UInt32)
    (pixels : Pixels) : draw sin ms state pixels = .error .divisionByZero := by
  by_cases moves : Moves state.mode
  · by_cases zero : period state = 0
    · unfold Moves at moves
      have faulted := phase_fault zero ms
      rw [draw]
      split
      · exact absurd ‹_› moves.1
      · rw [pulse, zero, mod_zero]
        rfl
      · rw [rainbow, faulted]
        rfl
      · exact absurd ‹_› moves.2.1
      · exact absurd ‹_› moves.2.2
      · rw [cycle, faulted]
        rfl
      · rw [cycle, faulted]
        rfl
    · have none : RgbMode.ofNumber state.mode.toNat = some .rainbow ∧ state.numPixels = 0 := by
        by_contra other
        refine never ⟨fun _ => (period_ne_zero state).mp zero, fun mode same => other ⟨mode, same⟩⟩
      rw [draw, none.1, rainbow, phase_ok zero ms, none.2]
      rfl
  · have still : RgbMode.ofNumber state.mode.toNat ≠ some .rainbow := by
      intro mode
      exact moves (by simp [Moves, mode])
    exact absurd ⟨fun now => absurd now moves, fun mode => absurd mode still⟩ never

/-- Shifting out the pixels of a frame does not fault. -/
theorem render_ok {state : RgbState} (fits : state.numPixels.toNat ≤ maxPixels)
    (drawable : Drawable state) (sin : ℚ → ℚ) (ms : UInt32) (pixels : Pixels) :
    ∃ frame, render sin ms state pixels = .ok frame := by
  obtain ⟨later, drawn⟩ := draw_ok fits drawable sin ms pixels
  refine ⟨(later, later.toList.take state.numPixels.toNat), ?_⟩
  rw [render, drawn]
  change (do return (later, ← take state.numPixels.toNat later)) = _
  rw [take_ok later fits]
  rfl

/-- A clamped state has no more pixels than the buffer. -/
theorem clampState_fits (state : RgbState) : (clampState state).numPixels.toNat ≤ maxPixels := by
  change (if 50 < state.numPixels then (50 : UInt8) else state.numPixels).toNat ≤ 50
  split
  · decide
  · rename_i few
    exact Nat.le_of_not_lt few

/-- The clamped state is drawable exactly when the state of the registers is. -/
theorem drawable_clampState (state : RgbState) : Drawable (clampState state) ↔ Drawable state := by
  have speed : u32fScale ≤ (clampState state).speed.toNat ↔ u32fScale ≤ state.speed.toNat := by
    change 10000 ≤ (clamp state.speed 1000 (10000 * 60 * 60)).toNat ↔ 10000 ≤ _
    rw [clamp_toNat]
    change 10000 ≤ min 36000000 (max _ 1000) ↔ _
    omega
  have pixels : (clampState state).numPixels = 0 ↔ state.numPixels = 0 := by
    change (if 50 < state.numPixels then (50 : UInt8) else state.numPixels) = 0 ↔ _
    split
    · rename_i many
      refine ⟨fun never => absurd never (by decide), fun zero => ?_⟩
      rw [zero] at many
      exact absurd many (by decide)
    · exact Iff.rfl
  constructor
  · intro drawable
    exact ⟨fun moves => speed.mp (drawable.speed moves),
      fun mode zero => drawable.pixels mode (pixels.mpr zero)⟩
  · intro drawable
    exact ⟨fun moves => speed.mpr (drawable.speed moves),
      fun mode zero => drawable.pixels mode (pixels.mp zero)⟩

end Fly2040.Leds
