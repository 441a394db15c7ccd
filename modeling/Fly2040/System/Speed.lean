import Fly2040.Leds.Loop
import Fly2040.System.Converge
/-!
# Speed of the modes that move

The configuration menu sets a period of one to eleven seconds, in milliseconds. The system
module stores it in units of 1/10000 and sends it to the device, whose loop limits it to 3600
whole units: the limit is meant to be an hour, in seconds. So the device shows a configuration
exactly when its period is shorter than 3601 milliseconds; the other settings always arrive.
-/

namespace Fly2040.System

open Bytes Leds App

/-- Speed of a position of the menu. -/
def progressToSpeed (progress : ℚ) : ℚ := progress * 10000 + 1000

/-- Position of the menu for a speed. -/
def speedToProgress (speed : ℚ) : ℚ := (speed - 1000) / 10000

/-- The menu shows the position that has been set. -/
theorem speedToProgress_progressToSpeed (progress : ℚ) :
    speedToProgress (progressToSpeed progress) = progress := by
  unfold speedToProgress progressToSpeed
  ring

/-- A configuration of a mode that moves, as the menu sets it. -/
structure Manageable (cfg : CfgSet) (speed : ℚ) : Prop where
  /-- The mode has the speed. -/
  moves : cfg.speed = some speed
  /-- The speed is one of the menu. -/
  progress : ∃ progress, 0 ≤ progress ∧ progress ≤ 1 ∧ speed = progressToSpeed progress
  /-- There are pixels, and no more than the device has. -/
  numPixels : 1 ≤ cfg.numPixels.toNat ∧ cfg.numPixels.toNat ≤ maxPixels
  /-- The brightness lies in the unit interval. -/
  brightness : ∀ value, cfg.brightness = some value → 0 ≤ value ∧ value ≤ 1
  /-- The colour lies in the unit interval. -/
  hue : ∀ value, cfg.hue = some value → 0 ≤ value ∧ value ≤ 1

/-- A stored fraction is a value up to one unit. -/
def Near (stored : UInt32) (value : ℚ) : Prop :=
  u322f stored ≤ value ∧ value < u322f stored + 1 / u32fScale

/-- Frames of a state show a configuration. -/
structure Shows (state : RgbState) (cfg : CfgSet) (speed : ℚ) : Prop where
  /-- The period is the speed in whole milliseconds. -/
  period : (period state).toNat = ⌊speed⌋
  /-- The mode. -/
  mode : state.mode.toNat = cfg.mode.toNat
  /-- The number of pixels. -/
  numPixels : state.numPixels.toNat = cfg.numPixels.toNat
  /-- The brightness. -/
  brightness : ∀ value, cfg.brightness = some value → Near state.brightness value
  /-- The colour. -/
  hue : ∀ value, cfg.hue = some value → Near state.hue value

section Limits

variable {cfg : CfgSet} {speed : ℚ} {reg : RgbState}

/-- A fraction of the unit interval arrives. -/
theorem near_clamp {value : ℚ} (unit : 0 ≤ value ∧ value ≤ 1) :
    Near (clamp (f2u32 value) 0 10000) value := by
  have bound : ⌊value * u32fScale⌋₊ ≤ 10000 := by
    apply Nat.floor_le_of_le
    unfold u32fScale
    norm_num
    linarith [unit.2]
  have fits : ⌊value * u32fScale⌋₊ ≤ 0xFFFFFFFF := bound.trans (by decide)
  have same : clamp (f2u32 value) 0 10000 = f2u32 value := by
    apply UInt32.toNat_inj.mp
    rw [clamp_toNat, f2u32_toNat fits]
    change min 10000 (max _ 0) = _
    omega
  rw [same]
  exact f2u32_near unit.1 fits

/-- The speed of a moving mode needs no more than 32 bits. -/
theorem Manageable.bounds (manageable : Manageable cfg speed) : 1000 ≤ speed ∧ speed ≤ 11000 := by
  obtain ⟨progress, low, high, same⟩ := manageable.progress
  rw [same, progressToSpeed]
  constructor <;> linarith

/-- The period after the limits. -/
theorem Manageable.period (manageable : Manageable cfg speed) (shown : Matches reg cfg) :
    (period (clampState reg)).toNat = min 3600 ⌊speed⌋₊ := by
  obtain ⟨low, high⟩ := manageable.bounds
  have fits : ⌊speed * u32fScale⌋₊ ≤ 0xFFFFFFFF := by
    apply Nat.floor_le_of_le
    unfold u32fScale
    norm_num
    linarith
  have whole : 1000 ≤ ⌊speed⌋₊ := Nat.le_floor (by exact_mod_cast low)
  have stored := f2u32_div fits
  rw [period_toNat]
  change (clamp reg.speed 1000 (10000 * 60 * 60)).toNat / u32fScale = _
  rw [shown.speed _ manageable.moves, clamp_toNat]
  change min 36000000 (max _ 1000) / 10000 = _
  change _ / 10000 = _ at stored
  omega

/-- The modes that move are numbers of a byte. -/
theorem Manageable.mode (manageable : Manageable cfg speed) : cfg.mode.toNat < 256 := by
  have moving := manageable.moves
  unfold CfgSet.speed at moving
  cases mode : cfg.rgbMode with
  | none => simp [mode] at moving
  | some rgbMode =>
    rw [RgbMode.ofNumber_eq_some mode]
    cases rgbMode <;> decide

/-- After the limits, registers of a configuration show it exactly when the speed is below the
limit. -/
theorem Manageable.shows_iff (manageable : Manageable cfg speed) (shown : Matches reg cfg) :
    Shows (clampState reg) cfg speed ↔ speed < 3601 := by
  have period := manageable.period shown
  obtain ⟨low, high⟩ := manageable.bounds
  have floor : ((⌊speed⌋₊ : Nat) : Int) = ⌊speed⌋ := Int.natCast_floor_eq_floor (by linarith)
  have limit : ⌊speed⌋ ≤ 3600 ↔ speed < 3601 := by
    rw [← Int.lt_add_one_iff, Int.floor_lt]
    norm_num
  constructor
  · intro shows
    rw [← limit]
    have same := shows.period
    omega
  · intro below
    have below' := limit.mpr below
    constructor
    · omega
    · have mode : (clampState reg).mode.toNat = cfg.mode.toNat % 256 := shown.mode
      rw [mode, Nat.mod_eq_of_lt manageable.mode]
    · obtain ⟨_, few⟩ := manageable.numPixels
      have few' : cfg.numPixels.toNat ≤ 50 := few
      have pixels := shown.numPixels
      change (if 50 < reg.numPixels then (50 : UInt8) else reg.numPixels).toNat = _
      rw [if_neg]
      · omega
      · intro many
        have many' : 50 < reg.numPixels.toNat := many
        omega
    · intro value bright
      change Near (clamp reg.brightness 0 10000) value
      rw [shown.brightness value bright]
      exact near_clamp (manageable.brightness value bright)
    · intro value coloured
      change Near (clamp reg.hue 0 10000) value
      rw [shown.hue value coloured]
      exact near_clamp (manageable.hue value coloured)

end Limits

section Applying

variable {codec : Codec} {env env' : SysEnv} {sys : Sys} {device : Device} {cfg : CfgSet}

/-- Transfers of a command and a tick. -/
def applied (codec : Codec) (env env' : SysEnv) (cfg : CfgSet) (sys : Sys) : List Transmission :=
  let set := sys.setConfigValues codec env cfg
  set.2 ++ (set.1.tick codec env').2

/-- The file is not read again in the tick after a command. -/
def NotReloaded (codec : Codec) (env env' : SysEnv) (cfg : CfgSet) (sys : Sys) : Prop :=
  let saved := (sys.setConfigValues codec env cfg).1.saveChanged codec env'
  (ConfigImpl.refresh codec env'.clock env'.files saved.file saved.config).1 = false

/-- A command and a tick send the registers of the configuration. -/
theorem applied_sent (awake : sys.sleeping = false) (opens : env'.opens = true)
    (sends : ∀ number, env'.sends number = true) (kept : NotReloaded codec env env' cfg sys) :
    applied codec env env' cfg sys =
      sendOrder.map (Sys.sendI2C (Sys.setupReg cfg sys.reg) · true) := by
  obtain ⟨cpuMon, genMon, set⟩ := Sys.setConfigValues_eq codec env cfg sys
  have saved : ∃ config file changed, (sys.setConfigValues codec env cfg).1.saveChanged codec env' =
      { (sys.setConfigValues codec env cfg).1 with
        config := config, file := file, cfgChanged := changed } := by
    rw [Sys.saveChanged]
    split
    · exact ⟨_, _, _, rfl⟩
    · exact ⟨_, _, _, rfl⟩
  obtain ⟨config, file, changed, saved⟩ := saved
  have ticked : ∃ middle : Sys, middle.reg = Sys.setupReg cfg sys.reg ∧
      middle.cfgState = .update ∧ middle.sendState = .none ∧
      applied codec env env' cfg sys = (middle.send env').2 := by
    unfold NotReloaded at kept
    cases read : ConfigImpl.refresh codec env'.clock env'.files
        ((sys.setConfigValues codec env cfg).1.saveChanged codec env').file
        ((sys.setConfigValues codec env cfg).1.saveChanged codec env').config with
    | mk found later =>
      simp only [read] at kept
      subst kept
      have looked : ((sys.setConfigValues codec env cfg).1.saveChanged codec env').refreshFile
          codec env' = { (sys.setConfigValues codec env cfg).1.saveChanged codec env' with
            config := later } := by
        rw [Sys.refreshFile, read]
      refine ⟨{ (sys.setConfigValues codec env cfg).1.saveChanged codec env' with
        config := later }, by rw [saved, set], by rw [saved, set], by rw [saved, set], ?_⟩
      rw [applied, Sys.tick, Sys.handleConfig]
      simp only [looked]
      rw [saved, set]
      simp [awake]
  obtain ⟨middle, reg, state, start, ticked⟩ := ticked
  rw [ticked, Sys.send_update env' state start opens, reg]
  simp [sendOrder, sends]

/-- The next turn of the loop takes what has been published. -/
theorem ledsRun_published (device : Device) (test : device.stage = .test)
    (published : Published device.slave)
    (sin : ℚ → ℚ) (first second third : UInt32) :
    ∃ later, ledsRun sin device [.advance first, .advance second, .advance third] = .ok later ∧
      later.stage = .frame ∧ later.state = clampState (stateOf device.slave.context.reg) := by
  have tested := ledsMode_test test sin first
  rw [if_pos published.2] at tested
  rw [ledsRun_advance tested, ledsRun_advance (ledsMode_copy rfl sin second),
    ledsRun_advance (ledsMode_limit rfl sin third)]
  exact ⟨_, rfl, rfl, by rw [← published.1]⟩

/-- A frame started after a command and a tick is drawn from the limited registers of the
configuration. -/
theorem ledsRun_applied (awake : sys.sleeping = false) (opens : env'.opens = true)
    (sends : ∀ number, env'.sends number = true) (kept : NotReloaded codec env env' cfg sys)
    (idle : device.slave.Idle) (test : device.stage = .test) (sin : ℚ → ℚ)
    (first second third : UInt32) :
    ∃ later, ledsRun sin { device with
        slave := (applied codec env env' cfg sys).foldl transmit device.slave }
        [.advance first, .advance second, .advance third] = .ok later ∧
      later.stage = .frame ∧ later.state = clampState (Sys.setupReg cfg sys.reg) := by
  rw [applied_sent awake opens sends kept]
  have fields := transmit_fields idle (Sys.setupReg cfg sys.reg) sendOrder
  have state : stateOf ((sendOrder.map (Sys.sendI2C (Sys.setupReg cfg sys.reg) · true)).foldl
      transmit device.slave).context.reg = Sys.setupReg cfg sys.reg :=
    stateOf_of_packed fun address inside => transmit_all idle _ inside
  have published := fields.2.1 (by simp [sendOrder])
  generalize (sendOrder.map (Sys.sendI2C (Sys.setupReg cfg sys.reg) · true)).foldl transmit
    device.slave = slave at published state ⊢
  obtain ⟨later, ran, drawing, limited⟩ := ledsRun_published { device with slave := slave } test
    published sin first second third
  exact ⟨later, ran, drawing, limited.trans (congrArg clampState state)⟩

/-- A configuration of the menu is shown, once it has been applied, exactly when its period is
below the limit of the device. -/
theorem speed_shown_iff {speed : ℚ} (manageable : Manageable cfg speed)
    (awake : sys.sleeping = false) (opens : env'.opens = true)
    (sends : ∀ number, env'.sends number = true) (kept : NotReloaded codec env env' cfg sys)
    (idle : device.slave.Idle) (test : device.stage = .test) (sin : ℚ → ℚ)
    (first second third : UInt32) :
    ∃ later, ledsRun sin { device with
        slave := (applied codec env env' cfg sys).foldl transmit device.slave }
        [.advance first, .advance second, .advance third] = .ok later ∧
      later.stage = .frame ∧ (Shows later.state cfg speed ↔ speed < 3601) := by
  obtain ⟨later, ran, drawing, state⟩ := ledsRun_applied awake opens sends kept idle test
    sin first second third
  refine ⟨later, ran, drawing, ?_⟩
  rw [state]
  exact manageable.shows_iff (Sys.setupReg_matches cfg sys.reg)

end Applying

/-- A cycle at a position of the menu. -/
def cycleCfg (progress : ℚ) : CfgSet := { mode := 2, cycle := { speed := progressToSpeed progress } }

/-- It is a configuration of the menu. -/
theorem cycleCfg_manageable {progress : ℚ} (low : 0 ≤ progress) (high : progress ≤ 1) :
    Manageable (cycleCfg progress) (progressToSpeed progress) where
  moves := rfl
  progress := ⟨progress, low, high, rfl⟩
  numPixels := by
    change 1 ≤ (9 : UInt32).toNat ∧ (9 : UInt32).toNat ≤ 50
    decide
  brightness := by
    intro value bright
    have one : value = 1 := (Option.some.inj bright).symm
    rw [one]
    norm_num
  hue := fun _ never => by cases never

/-- The file is not read again right after the start. -/
theorem init_notReloaded (cfg : CfgSet) :
    NotReloaded plainCodec calmEnv calmEnv cfg (Sys.init none) := by
  obtain ⟨cpuMon, genMon, set⟩ := Sys.setConfigValues_eq plainCodec calmEnv cfg (Sys.init none)
  have start : ((Sys.init none).setConfigValues plainCodec calmEnv cfg).1.config.lastCheck = 0 := by
    rw [set]
    rfl
  have early : (((Sys.init none).setConfigValues plainCodec calmEnv cfg).1.saveChanged plainCodec
      calmEnv).config.lastCheck = 0 := by
    rw [Sys.saveChanged]
    split
    · rw [← start]
      exact ConfigImpl.saveConfig_lastCheck _ _ _ _
    · exact start
  simp only [NotReloaded]
  rw [ConfigImpl.refresh, early, if_pos (by decide)]

/-- A cycle of three and a half seconds is shown. -/
theorem cycle_shown : ∃ later, ledsRun id { initDevice false with
      slave := (applied plainCodec calmEnv calmEnv (cycleCfg (1 / 4)) (Sys.init none)).foldl
        transmit (initDevice false).slave } [.advance 0, .advance 0, .advance 0] = .ok later ∧
    later.stage = .frame ∧ (Shows later.state (cycleCfg (1 / 4)) (progressToSpeed (1 / 4)) ↔
      progressToSpeed (1 / 4) < 3601) := by
  have idle : (initDevice false).slave.Idle := rfl
  have test : (initDevice false).stage = .test := rfl
  have awake : (Sys.init none).sleeping = false := rfl
  exact speed_shown_iff (cycleCfg_manageable (by norm_num) (by norm_num)) awake rfl (fun _ => rfl)
    (init_notReloaded _) idle test id 0 0 0

/-- A cycle of eleven seconds is shown with a period of 3600 milliseconds. -/
theorem slow_cycle_not_shown : ∃ later, ledsRun id { initDevice false with
      slave := (applied plainCodec calmEnv calmEnv (cycleCfg 1) (Sys.init none)).foldl
        transmit (initDevice false).slave } [.advance 0, .advance 0, .advance 0] = .ok later ∧
    later.stage = .frame ∧ (period later.state).toNat = 3600 ∧
      ¬ Shows later.state (cycleCfg 1) (progressToSpeed 1) := by
  have idle : (initDevice false).slave.Idle := rfl
  have test : (initDevice false).stage = .test := rfl
  have awake : (Sys.init none).sleeping = false := rfl
  have manageable := cycleCfg_manageable (by norm_num : (0 : ℚ) ≤ 1) le_rfl
  have shown := Sys.setupReg_matches (cycleCfg 1) (Sys.init none).reg
  obtain ⟨later, ran, drawing, state⟩ := ledsRun_applied awake rfl (fun _ => rfl)
    (init_notReloaded (cycleCfg 1)) idle test id 0 0 0
  have floor : ⌊progressToSpeed 1⌋₊ = 11000 := by
    have whole : progressToSpeed 1 = (11000 : Nat) := by norm_num [progressToSpeed]
    rw [whole, Nat.floor_natCast]
  refine ⟨later, ran, drawing, ?_, ?_⟩
  · rw [state, manageable.period shown, floor]
    rfl
  · rw [state, manageable.shows_iff shown]
    norm_num [progressToSpeed]

end Fly2040.System
