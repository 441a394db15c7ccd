import Fly2040.Leds.Render
import Fly2040.Leds.Slave
import Mathlib.Logic.Relation
/-!
# Loop of the LED device

The loop takes the published registers, limits them, draws a frame from them and shifts it out.
The interrupt handler runs between any two steps of the loop; testing the flag is one step, and
taking the registers, which holds the lock, is another. The limits let a moving mode have a
speed of less than one whole unit, and a rainbow no pixels, so the loop is free of faults as
long as no such registers are published.
-/

namespace Fly2040.Leds

open Bytes Checked

/-- Where the loop is. -/
inductive Stage where
  /-- About to read the clock and to test for published registers. -/
  | test
  /-- About to take the published registers. -/
  | copy
  /-- About to limit the state. -/
  | limit
  /-- About to draw a frame and to shift it out. -/
  | frame
deriving DecidableEq

/-- The LED device. -/
structure Device where
  /-- The interrupt handler. -/
  slave : Slave
  /-- State that frames are drawn from. -/
  state : RgbState
  /-- The pixel buffer. -/
  pixels : Pixels
  /-- Words shifted out in the last frame. -/
  shifted : List UInt32
  /-- The flash records that a master has configured the device. -/
  isI2cConfigured : Bool
  /-- Milliseconds since the start. -/
  ms : UInt32
  /-- Where the loop is. -/
  stage : Stage

/-- A step of the device. -/
inductive Action where
  /-- An interrupt. -/
  | event (event : Event)
  /-- A step of the loop at a time. -/
  | advance (now : UInt32)

/-- One step of the loop. -/
def ledsMode (sin : ℚ → ℚ) (device : Device) (now : UInt32) : Except Fault Device :=
  match device.stage with
  | .test =>
    .ok { device with
      ms := now
      stage := if device.slave.context.updateReady then .copy else .frame }
  | .copy => .ok { device with
    slave.context.updateReady := false
    state := device.slave.i2cState
    stage := .limit }
  | .limit => .ok { device with
    state := clampState device.state
    isI2cConfigured := true
    stage := .frame }
  | .frame => do
    let (pixels, shifted) ← render sin device.ms device.state device.pixels
    return { device with pixels := pixels, shifted := shifted, stage := .test }

/-- One step of the device. -/
def ledsStep (sin : ℚ → ℚ) (device : Device) : Action → Except Fault Device
  | .event event => .ok { device with slave := slaveHandler device.slave event }
  | .advance now => ledsMode sin device now

/-- The device after reset. -/
def initDevice (isI2cConfigured : Bool) : Device where
  slave := initSlave isI2cConfigured
  state := stateOf (initRegister isI2cConfigured)
  pixels := Vector.replicate maxPixels 0
  shifted := []
  isI2cConfigured := isI2cConfigured
  ms := 0
  stage := .test

/-- Steps of the device one after the other. -/
def ledsRun (sin : ℚ → ℚ) (device : Device) (actions : List Action) : Except Fault Device :=
  actions.foldlM (ledsStep sin) device

section Run

variable {sin : ℚ → ℚ} {device later : Device}

/-- A run goes on after a step of the loop. -/
theorem ledsRun_advance {now : UInt32} (ran : ledsMode sin device now = .ok later)
    (rest : List Action) : ledsRun sin device (.advance now :: rest) = ledsRun sin later rest := by
  rw [ledsRun, List.foldlM_cons, ledsStep, ran]
  rfl

/-- A run ends at a fault. -/
theorem ledsRun_advance_error {now : UInt32} {fault : Fault}
    (faulted : ledsMode sin device now = .error fault) (rest : List Action) :
    ledsRun sin device (.advance now :: rest) = .error fault := by
  rw [ledsRun, List.foldlM_cons, ledsStep, faulted]
  rfl

/-- A run goes on after interrupts. -/
theorem ledsRun_events (sin : ℚ → ℚ) (device : Device) (events : List Event)
    (rest : List Action) : ledsRun sin device (events.map .event ++ rest) =
      ledsRun sin { device with slave := slaveEvents device.slave events } rest := by
  induction events generalizing device with
  | nil => rfl
  | cons event events ih => exact ih { device with slave := slaveHandler device.slave event }

end Run

/-- If this step takes registers, they are drawable. -/
def TakesDrawable (device : Device) : Action → Prop
  | .event _ => True
  | .advance _ => device.stage = .copy → Drawable device.slave.i2cState

/-- A step of the device that takes drawable registers, if any. -/
def DrawableStep (sin : ℚ → ℚ) (device later : Device) : Prop :=
  ∃ action, TakesDrawable device action ∧ ledsStep sin device action = .ok later

/-- The state that frames are drawn from is drawable and limited. -/
structure FrameInvariant (device : Device) : Prop where
  /-- The state. -/
  drawable : Drawable device.state
  /-- Its pixels. -/
  fits : device.stage ≠ .limit → device.state.numPixels.toNat ≤ maxPixels

/-- The speed after reset. -/
theorem f2u32_speed : (f2u32 5000).toNat = 50000000 := by
  have floor : ⌊(5000 : ℚ) * u32fScale⌋.toNat = 50000000 := by
    have whole : (5000 : ℚ) * u32fScale = (50000000 : Int) := by norm_num [u32fScale]
    rw [whole, Int.floor_intCast]
    rfl
  rw [f2u32, toU32_toNat (by rw [floor]; decide), floor]

/-- The state after reset is drawable and limited. -/
theorem frameInvariant_init (isI2cConfigured : Bool) :
    FrameInvariant (initDevice isI2cConfigured) := by
  have state : (initDevice isI2cConfigured).state = ⟨_, 9, _, _, f2u32 5000, _⟩ := stateOf_pack _
  constructor
  · rw [state]
    constructor
    · intro _
      change u32fScale ≤ (f2u32 5000).toNat
      rw [f2u32_speed]
      decide
    · intro _
      change (9 : UInt8) ≠ 0
      decide
  · intro _
    rw [state]
    change (9 : UInt8).toNat ≤ maxPixels
    decide

section Step

variable {device : Device}

/-- Testing for published registers. -/
theorem ledsMode_test (stage : device.stage = .test) (sin : ℚ → ℚ) (now : UInt32) :
    ledsMode sin device now = .ok { device with
      ms := now
      stage := if device.slave.context.updateReady then .copy else .frame } := by
  rw [ledsMode, stage]

/-- Taking the published registers. -/
theorem ledsMode_copy (stage : device.stage = .copy) (sin : ℚ → ℚ) (now : UInt32) :
    ledsMode sin device now = .ok { device with
      slave.context.updateReady := false
      state := device.slave.i2cState
      stage := .limit } := by
  rw [ledsMode, stage]

/-- Limiting the state. -/
theorem ledsMode_limit (stage : device.stage = .limit) (sin : ℚ → ℚ) (now : UInt32) :
    ledsMode sin device now = .ok { device with
      state := clampState device.state
      isI2cConfigured := true
      stage := .frame } := by
  rw [ledsMode, stage]

/-- Drawing a frame keeps all but the pixels. -/
theorem ledsMode_frame (stage : device.stage = .frame) {sin : ℚ → ℚ} {now : UInt32}
    {later : Device} (ran : ledsMode sin device now = .ok later) :
    ∃ pixels shifted, later =
      { device with pixels := pixels, shifted := shifted, stage := .test } := by
  rw [ledsMode, stage] at ran
  cases rendered : render sin device.ms device.state device.pixels with
  | error fault =>
    rw [rendered] at ran
    cases ran
  | ok frame =>
    obtain ⟨pixels, shifted⟩ := frame
    rw [rendered] at ran
    cases ran
    exact ⟨pixels, shifted, rfl⟩

/-- A frame of a drawable state is drawn. -/
theorem ledsMode_drawable (stage : device.stage = .frame) (drawable : Drawable device.state)
    (fits : device.state.numPixels.toNat ≤ maxPixels) (sin : ℚ → ℚ) (now : UInt32) :
    ∃ later, ledsMode sin device now = .ok later := by
  obtain ⟨⟨pixels, shifted⟩, rendered⟩ := render_ok fits drawable sin device.ms device.pixels
  refine ⟨{ device with pixels := pixels, shifted := shifted, stage := .test }, ?_⟩
  rw [ledsMode, stage]
  change (do
    let (pixels, shifted) ← render sin device.ms device.state device.pixels
    return { device with pixels := pixels, shifted := shifted, stage := .test }) = _
  rw [rendered]
  rfl

/-- A frame of another state divides by zero. -/
theorem ledsMode_fault (stage : device.stage = .frame) (never : ¬ Drawable device.state)
    (sin : ℚ → ℚ) (now : UInt32) : ledsMode sin device now = .error .divisionByZero := by
  have faulted : render sin device.ms device.state device.pixels = .error .divisionByZero := by
    rw [render, draw_fault never]
    rfl
  rw [ledsMode, stage]
  change (do
    let (pixels, shifted) ← render sin device.ms device.state device.pixels
    return { device with pixels := pixels, shifted := shifted, stage := .test }) = _
  rw [faulted]
  rfl

/-- A step of the loop that takes drawable registers, if any, does not fault. -/
theorem ledsMode_ok (now : FrameInvariant device)
    (takes : device.stage = .copy → Drawable device.slave.i2cState) (sin : ℚ → ℚ) (ms : UInt32) :
    ∃ later, ledsMode sin device ms = .ok later ∧ FrameInvariant later := by
  cases stage : device.stage with
  | test =>
    exact ⟨_, ledsMode_test stage sin ms, now.drawable, fun _ => now.fits (by simp [stage])⟩
  | copy =>
    exact ⟨_, ledsMode_copy stage sin ms, takes stage, fun other => absurd rfl other⟩
  | limit =>
    exact ⟨_, ledsMode_limit stage sin ms, (drawable_clampState _).mpr now.drawable,
      fun _ => clampState_fits _⟩
  | frame =>
    have fits := now.fits (by simp [stage])
    obtain ⟨later, ran⟩ := ledsMode_drawable stage now.drawable fits sin ms
    obtain ⟨pixels, shifted, same⟩ := ledsMode_frame stage ran
    refine ⟨later, ran, ?_⟩
    rw [same]
    exact ⟨now.drawable, fun _ => fits⟩

end Step

/-- The invariant holds in every run that takes drawable registers only. -/
theorem frameInvariant_of_run {sin : ℚ → ℚ} {isI2cConfigured : Bool} {device : Device}
    (run : Relation.ReflTransGen (DrawableStep sin) (initDevice isI2cConfigured) device) :
    FrameInvariant device := by
  induction run with
  | refl => exact frameInvariant_init isI2cConfigured
  | tail _ step ih =>
    obtain ⟨action, takes, stepped⟩ := step
    cases action with
    | event event =>
      cases stepped
      exact ⟨ih.drawable, ih.fits⟩
    | advance ms =>
      obtain ⟨later, ran, kept⟩ := ledsMode_ok ih takes sin ms
      rw [ledsStep, ran] at stepped
      cases stepped
      exact kept

/-- As long as the loop takes drawable registers only, none of its steps faults. -/
theorem loop_free_of_faults (sin : ℚ → ℚ) {isI2cConfigured : Bool} {device : Device}
    (run : Relation.ReflTransGen (DrawableStep sin) (initDevice isI2cConfigured) device)
    {action : Action} (takes : TakesDrawable device action) :
    ∃ later, ledsStep sin device action = .ok later := by
  cases action with
  | event event => exact ⟨_, rfl⟩
  | advance ms =>
    obtain ⟨later, ran, _⟩ := ledsMode_ok (frameInvariant_of_run run) takes sin ms
    exact ⟨later, ran⟩

/-- Interrupts are steps of a run. -/
theorem run_of_events (sin : ℚ → ℚ) (device : Device) (events : List Event) :
    Relation.ReflTransGen (DrawableStep sin) device
      { device with slave := slaveEvents device.slave events } := by
  induction events generalizing device with
  | nil => exact .refl
  | cons event events ih =>
    have first : DrawableStep sin device
        { device with slave := slaveHandler device.slave event } := ⟨.event event, trivial, rfl⟩
    exact .head first (ih _)

/-- Finding published registers is a step of a run. -/
theorem drawableStep_test {device : Device} (stage : device.stage = .test)
    (ready : device.slave.context.updateReady = true) (sin : ℚ → ℚ) (now : UInt32) :
    DrawableStep sin device { device with ms := now, stage := .copy } := by
  have ran := ledsMode_test stage sin now
  rw [if_pos ready] at ran
  refine ⟨.advance now, fun other => ?_, ran⟩
  rw [stage] at other
  cases other

/-- Registers after reset with the mode of the rainbow. -/
def rainbowRegister : Memory := storeBytes (initRegister false) 0 [3]

/-- They are drawable. -/
theorem rainbowRegister_drawable : Drawable (stateOf rainbowRegister) := by
  have speed : (stateOf rainbowRegister).speed = (stateOf (initRegister false)).speed := rfl
  have pixels : (stateOf rainbowRegister).numPixels = 9 := rfl
  constructor
  · intro _
    rw [speed, initRegister, stateOf_pack]
    change 10000 ≤ (f2u32 5000).toNat
    rw [f2u32_speed]
    decide
  · intro _
    rw [pixels]
    decide

/-- A master switches to the rainbow, and the loop takes the registers. -/
theorem rainbow_free_of_faults : ∃ later, ledsStep id { initDevice false with
    slave := slaveEvents (initDevice false).slave (writeTransaction 0 [3])
    stage := .copy } (.advance 50) = .ok later := by
  obtain ⟨next, stored⟩ : ∃ next, slaveEvents (initDevice false).slave (writeTransaction 0 [3]) =
      ⟨⟨rainbowRegister, next, false, true, true⟩, stateOf rainbowRegister⟩ :=
    slaveEvents_writeTransaction rfl (by simp) (by decide)
  have received := run_of_events id (initDevice false) (writeTransaction 0 [3])
  rw [stored] at received ⊢
  have tested := received.tail (drawableStep_test rfl rfl id 0)
  exact loop_free_of_faults id tested fun _ => rainbowRegister_drawable

/-- Once the loop takes registers that are not drawable, its frame divides by zero. -/
theorem ledsRun_fault {device : Device} (stage : device.stage = .copy)
    (never : ¬ Drawable device.slave.i2cState) (sin : ℚ → ℚ) (first second third : UInt32) :
    ledsRun sin device [.advance first, .advance second, .advance third] =
      .error .divisionByZero := by
  have never' : ¬ Drawable (clampState device.slave.i2cState) := fun drawable =>
    never ((drawable_clampState _).mp drawable)
  rw [ledsRun_advance (ledsMode_copy stage sin first), ledsRun_advance (ledsMode_limit rfl sin second),
    ledsRun_advance_error (ledsMode_fault rfl never' sin third)]

/-- Registers after reset with a speed of zero. -/
def zeroSpeed : Memory := storeBytes (initRegister false) 10 [0, 0, 0, 0]

/-- They are not drawable. -/
theorem zeroSpeed_not_drawable : ¬ Drawable (stateOf zeroSpeed) := by
  intro drawable
  have mode : (stateOf zeroSpeed).mode = 2 := rfl
  have speed : (stateOf zeroSpeed).speed = 0 := rfl
  have whole := drawable.speed (by rw [mode]; decide)
  rw [speed] at whole
  exact absurd whole (by decide)

/-- A master stops the loop: after the four bytes of the speed have been written with zeros, the
cycle that shows on a device that has never been configured divides by zero. -/
theorem zero_speed_fault : ledsRun id (initDevice false)
    ((writeTransaction 10 [0, 0, 0, 0]).map .event ++
      [.advance 0, .advance 0, .advance 0, .advance 0]) = .error .divisionByZero := by
  obtain ⟨next, stored⟩ : ∃ next, slaveEvents (initDevice false).slave
      (writeTransaction 10 [0, 0, 0, 0]) =
        ⟨⟨zeroSpeed, next, false, true, true⟩, stateOf zeroSpeed⟩ :=
    slaveEvents_writeTransaction rfl (by simp) (by decide)
  rw [ledsRun_events, stored, ledsRun_advance (ledsMode_test rfl id 0)]
  exact ledsRun_fault rfl zeroSpeed_not_drawable id 0 0 0

end Fly2040.Leds
