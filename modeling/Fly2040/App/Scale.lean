import Fly2040.App.Turns
import Mathlib.Data.Rat.Floor
/-!
# The scale between two set-ups

While nothing is set up, each tick compares what the monitors read with the scale in the copy of the
registers, and sends the scale if the two differ. The reading is a fraction, the register holds its
units. The load mode compares the fraction with the units, and the temperature mode stores the
fraction where units belong.
-/

namespace Fly2040.App

open Leds Runs

namespace Sys

/-- After a tick the scale shows a reading, and has been sent if it differs from the one before. -/
def ShowsReading (val : ℚ) (before : UInt32) (result : Sys × List Transmission) : Prop :=
  result.1.reg.scale = f2u32 val ∧
    (f2u32 val ≠ before → ∃ sent, sendI2C result.1.reg .scale sent ∈ result.2)

/-- A mode shows a reading: one that fills less than a unit for temperatures; for the load, any but
a full one when the scale holds a single unit. -/
def ReadsWell (mode : Option RgbMode) (val : ℚ) (before : UInt32) : Prop :=
  if mode = some .temperature then val < 1 / 10000 else ¬ (val = 1 ∧ before = 1)

section

variable {codec : Codec} {env : SysEnv} {sys : Sys} {val : ℚ} {before : UInt32}

/-- A reading is rounded down to whole units. -/
theorem f2u32_reading (unit : 0 ≤ val ∧ val ≤ 1) : (f2u32 val).toNat = ⌊val * u32fScale⌋₊ := by
  apply f2u32_toNat
  have scaled : val * u32fScale ≤ u32fScale := mul_le_of_le_one_left (Nat.cast_nonneg _) unit.2
  have floor : ⌊val * u32fScale⌋₊ ≤ u32fScale := Nat.floor_le_of_le scaled
  exact Nat.le_trans floor (by decide)

/-- A reading without a whole unit is stored as zero. -/
theorem f2u32_eq_zero_iff (unit : 0 ≤ val ∧ val ≤ 1) : f2u32 val = 0 ↔ val < 1 / 10000 := by
  have zero : f2u32 val = 0 ↔ (f2u32 val).toNat = 0 := by
    rw [← UInt32.toNat_inj]
    rfl
  rw [zero, f2u32_reading unit, Nat.floor_eq_zero]
  unfold u32fScale
  rw [lt_div_iff₀ (by norm_num)]
  norm_num

/-- A full reading is stored as the whole scale. -/
theorem f2u32_one : f2u32 1 = 10000 := by
  rw [← UInt32.toNat_inj, f2u32_reading ⟨zero_le_one, le_refl 1⟩, one_mul, Nat.floor_natCast]
  rfl

/-- As a fraction a register is a reading only if both are zero or both are one. -/
theorem reading_eq_register (unit : 0 ≤ val ∧ val ≤ 1) (same : val = before.toNat) :
    (val = 0 ∧ before = 0) ∨ (val = 1 ∧ before = 1) := by
  have small : before.toNat ≤ 1 := by
    have bound : (before.toNat : ℚ) ≤ 1 := same ▸ unit.2
    exact_mod_cast bound
  have cases' : before.toNat = 0 ∨ before.toNat = 1 := by omega
  rw [same, ← UInt32.toNat_inj, ← UInt32.toNat_inj]
  rcases cases' with none | one
  · exact .inl ⟨by rw [none]; rfl, none⟩
  · exact .inr ⟨by rw [one]; rfl, one⟩

/-- Without its units, a reading below the full one is stored as zero. -/
theorem toU32_reading (unit : 0 ≤ val ∧ val ≤ 1) : toU32 val = if val = 1 then 1 else 0 := by
  by_cases full : val = 1
  · rw [if_pos full, full]
    rfl
  · have below : val < 1 := lt_of_le_of_ne unit.2 full
    have floor : ⌊val⌋ = 0 := Int.floor_eq_zero_iff.mpr ⟨unit.1, below⟩
    rw [if_neg full, toU32, floor]
    rfl

/-- Stored without its units, a reading shows itself only if it has less than one. -/
theorem toU32_eq_f2u32_iff (unit : 0 ≤ val ∧ val ≤ 1) :
    toU32 val = f2u32 val ↔ val < 1 / 10000 := by
  rw [toU32_reading unit, ← f2u32_eq_zero_iff unit]
  by_cases full : val = 1
  · rw [if_pos full, full, f2u32_one]
    decide
  · rw [if_neg full, eq_comm]

/-- What the scale is after a refresh, and whether it has been sent. -/
theorem tick_refresh (codec : Codec) (env : SysEnv) (sys : Sys)
    (refreshes : (sys.looked codec env).cfgState = .refresh) (awake : sys.sleeping = false) :
    match (sys.looked codec env).refreshScale env.measured with
    | some scale => (sys.tick codec env).1.reg.scale = scale ∧ (sys.tick codec env).2 =
        if env.opens then [sendI2C (sys.tick codec env).1.reg .scale (env.sends 0)] else []
    | none => (sys.tick codec env).1.reg.scale = sys.reg.scale ∧ (sys.tick codec env).2 = [] := by
  obtain ⟨config, file, state, same⟩ := looked_frame codec env sys
  have reg : (sys.looked codec env).reg = sys.reg := by rw [same]
  have sleeping : (sys.looked codec env).sleeping = false := by
    rw [same]
    exact awake
  have ticks : sys.tick codec env = (sys.looked codec env).send env := by
    rw [tick_eq, refreshes, sleeping, if_neg (by decide), if_neg (by decide)]
  rw [ticks, send, refreshes]
  cases (sys.looked codec env).refreshScale env.measured with
  | some scale => exact ⟨rfl, rfl⟩
  | none => exact ⟨by rw [reg], rfl⟩

/-- What a reading does to the scale: it is compared with the register, and stored in units unless
it is a temperature. -/
theorem refreshScale_of_reading {measured : Measured} (reading : sys.scaleOf measured = some val) :
    sys.refreshScale measured = if val ≠ sys.reg.scale.toNat then
      some (if sys.config.config.rgbMode = some .temperature then toU32 val else f2u32 val)
    else none := by
  unfold refreshScale
  cases mode : sys.config.config.rgbMode with
  | none => simp [scaleOf, mode] at reading
  | some rgbMode =>
    cases rgbMode with
    | load => simp [reading]
    | temperature => simp [reading]
    | _ => simp [scaleOf, mode] at reading

/-- A scale that is stored and sent shows a reading if it is the reading in units and the session
opens, unless nothing has changed. -/
theorem showsReading_sent {result : Sys × List Transmission} {scale : UInt32}
    (stored : result.1.reg.scale = scale) (sends : result.2 =
      if env.opens then [sendI2C result.1.reg .scale (env.sends 0)] else []) :
    ShowsReading val before result ↔
      scale = f2u32 val ∧ (f2u32 val = before ∨ env.opens = true) := by
  rw [ShowsReading, stored, sends]
  refine and_congr_right fun _ => ?_
  cases env.opens with
  | true => exact iff_of_true (fun _ => ⟨_, List.mem_singleton.mpr rfl⟩) (.inr rfl)
  | false =>
    constructor
    · intro shown
      by_contra other
      obtain ⟨sent, member⟩ := shown fun same => other (.inl same)
      exact absurd member List.not_mem_nil
    · intro given changed
      rcases given with same | never
      · exact absurd same changed
      · exact nomatch never

/-- A scale that is left shows a reading if it is the reading in units. -/
theorem showsReading_left {result : Sys × List Transmission}
    (stored : result.1.reg.scale = before) (sends : result.2 = []) :
    ShowsReading val before result ↔ before = f2u32 val := by
  rw [ShowsReading, stored, sends, and_iff_left_of_imp]
  exact fun same changed => absurd same.symm changed

end

/-- A tick that refreshes shows a reading of the unit interval exactly if the mode does and, unless
the scale stays the same, a session with the device is opened. -/
theorem refresh_shows_iff (codec : Codec) (env : SysEnv) (sys : Sys) (val : ℚ)
    (refreshes : (sys.looked codec env).cfgState = .refresh) (awake : sys.sleeping = false)
    (reading : (sys.looked codec env).scaleOf env.measured = some val)
    (unit : 0 ≤ val ∧ val ≤ 1) :
    (f2u32 val).toNat = ⌊val * 10000⌋₊ ∧
    (ShowsReading val sys.reg.scale (sys.tick codec env) ↔
      ReadsWell (sys.looked codec env).config.config.rgbMode val sys.reg.scale ∧
        (f2u32 val = sys.reg.scale ∨ env.opens = true)) := by
  refine ⟨f2u32_reading unit, ?_⟩
  have reg : (sys.looked codec env).reg = sys.reg := by
    obtain ⟨config, file, state, same⟩ := looked_frame codec env sys
    rw [same]
  have outcome := tick_refresh codec env sys refreshes awake
  rw [refreshScale_of_reading reading, reg] at outcome
  by_cases same : val = sys.reg.scale.toNat
  · rw [if_neg (not_not.mpr same)] at outcome
    rw [showsReading_left outcome.1 outcome.2, ReadsWell]
    rcases reading_eq_register unit same with ⟨rfl, zero⟩ | ⟨rfl, one⟩
    · have shown : f2u32 0 = 0 := (f2u32_eq_zero_iff unit).mpr (by norm_num)
      rw [zero, shown]
      refine iff_of_true rfl ⟨?_, .inl rfl⟩
      split <;> norm_num
    · rw [one, f2u32_one]
      refine iff_of_false (by decide) ?_
      split
      · norm_num
      · exact fun given => given.1 ⟨rfl, rfl⟩
  · rw [if_pos same] at outcome
    rw [showsReading_sent outcome.1 outcome.2, ReadsWell]
    refine and_congr_left fun _ => ?_
    split
    · exact toU32_eq_f2u32_iff unit
    · refine iff_of_true rfl fun full => same ?_
      rw [full.1, full.2]
      rfl

/-- A codec that reads every file as the default configuration. -/
def emptyCodec : Codec := ⟨fun _ => [], fun _ => {}⟩

/-- Surroundings of a console with 21 degrees whose graphics processor is half busy. -/
def warmEnv : SysEnv where
  clock := 0
  files := ⟨true, true, true, true, true, true, true, true, ⟨[], 0⟩, 1⟩
  saves := ⟨true, true, true, true, true, true, true, true, ⟨[], 0⟩, 1⟩
  measured := ⟨fun _ => 0, 500, 21000⟩
  opens := true
  sends := fun _ => true

/-- The console refreshes the scale of its load. -/
def busySys : Sys := { init none with
  cfgState := .refresh
  config.config.mode := 4
  config.config.loadCpu := false
  config.config.loadGpu := true
  genMon := ⟨true, .gpu⟩ }

/-- It does so with any scale. -/
def busyAt (scale : UInt32) : Sys := { busySys with reg.scale := scale }

/-- A tick that comes early leaves the file alone. -/
theorem looked_early (codec : Codec) {env : SysEnv} {sys : Sys} (unchanged : sys.cfgChanged = false)
    (early : env.clock - sys.config.lastCheck < fileCfgCheckIntervalNs) :
    sys.looked codec env = sys := by
  rw [looked, saveChanged, if_neg (by rw [unchanged]; decide), refreshFile, ConfigImpl.refresh,
    if_pos early]

/-- The reading of its load is one half. -/
theorem busyAt_reading (scale : UInt32) : (busyAt scale).looked emptyCodec warmEnv = busyAt scale ∧
    ((busyAt scale).looked emptyCodec warmEnv).scaleOf warmEnv.measured = some (1 / 2) := by
  have early : warmEnv.clock - (busyAt scale).config.lastCheck < fileCfgCheckIntervalNs := by
    show (0 : UInt64) - 0 < fileCfgCheckIntervalNs
    decide
  have looked := looked_early emptyCodec (rfl : (busyAt scale).cfgChanged = false) early
  have mode : (busyAt scale).config.config.rgbMode = some .load := rfl
  refine ⟨looked, ?_⟩
  rw [looked]
  simp only [scaleOf, mode]
  have thousandths : (500 : UInt32).toNat = 500 := rfl
  norm_num [GenMon.get, busyAt, busySys, warmEnv, clampUnit, thousandths]

/-- A load of one half is shown. -/
theorem refresh_shows_half : ShowsReading (1 / 2) busySys.reg.scale
    (busySys.tick emptyCodec warmEnv) := by
  have reading : (busySys.looked emptyCodec warmEnv).scaleOf warmEnv.measured =
      some (1 / 2) := (busyAt_reading _).2
  have load : ReadsWell (busySys.looked emptyCodec warmEnv).config.config.rgbMode
      (1 / 2) busySys.reg.scale := by
    rw [ReadsWell, if_neg (by decide)]
    norm_num
  exact (refresh_shows_iff emptyCodec warmEnv busySys (1 / 2) rfl rfl reading
    (by norm_num)).2.mpr ⟨load, .inr rfl⟩

/-- The console refreshes the scale of its temperature. -/
def warmSys : Sys := { init none with
  cfgState := .refresh
  config.config.mode := 5
  genMon := ⟨true, .socTemperature⟩ }

/-- A temperature of 21 degrees, a reading of 21 hundredths, leaves the scale at zero. -/
theorem temperature_not_shown :
    (warmSys.looked emptyCodec warmEnv).scaleOf warmEnv.measured = some (21 / 100) ∧
      ¬ ShowsReading (21 / 100) warmSys.reg.scale
        (warmSys.tick emptyCodec warmEnv) := by
  have looked : warmSys.looked emptyCodec warmEnv = warmSys := rfl
  have mode : warmSys.config.config.rgbMode = some .temperature := rfl
  have reading : warmSys.scaleOf warmEnv.measured = some (21 / 100) := by
    simp only [scaleOf, mode]
    norm_num [GenMon.get, warmSys, warmEnv, clampUnit]
  refine ⟨looked ▸ reading, fun shown => ?_⟩
  have unit : (0 : ℚ) ≤ 21 / 100 ∧ (21 / 100 : ℚ) ≤ 1 := by norm_num
  have differs : (21 / 100 : ℚ) ≠ warmSys.reg.scale.toNat := by
    intro same
    rcases reading_eq_register unit same with zero | one
    · exact absurd zero.1 (by norm_num)
    · exact absurd one.1 (by norm_num)
  have outcome := tick_refresh emptyCodec warmEnv warmSys rfl rfl
  rw [looked, refreshScale_of_reading reading, if_pos differs, if_pos mode] at outcome
  have small := ((showsReading_sent outcome.1 outcome.2).mp shown).1
  rw [toU32_eq_f2u32_iff unit] at small
  norm_num at small

/-- A tick refreshes the scale. -/
def Refreshes (codec : Codec) (sys : Sys) (env : SysEnv) : Prop :=
  (sys.looked codec env).cfgState = .refresh ∧ sys.sleeping = false

/-- The state after a tick. -/
def ticked (codec : Codec) (sys : Sys) (env : SysEnv) : Sys := (sys.tick codec env).1

/-- A tick sends something only if it changes the scale. -/
def SendsChange (codec : Codec) (sys : Sys) (env : SysEnv) : Prop :=
  (sys.tick codec env).2 ≠ [] → (sys.ticked codec env).reg.scale ≠ sys.reg.scale

/-- What a mode stores for a reading. -/
def storedScale (mode : Option RgbMode) (val : ℚ) : UInt32 :=
  if mode = some .temperature then toU32 val else f2u32 val

/-- A reading that differs from the register as a number is not stored as what the register holds,
unless the session with the device cannot be opened. -/
def StoresChange (codec : Codec) (sys : Sys) (env : SysEnv) : Prop :=
  env.opens = true → ∀ val, (sys.looked codec env).scaleOf env.measured = some val →
    val ≠ sys.reg.scale.toNat →
      storedScale (sys.looked codec env).config.config.rgbMode val ≠ sys.reg.scale

section

variable {codec : Codec} {env : SysEnv} {sys : Sys} {val : ℚ} {before : UInt32}

/-- Where nothing is read, the scale is set to zero unless it is zero already. -/
theorem refreshScale_of_none {measured : Measured} (nothing : sys.scaleOf measured = none)
    {scale : UInt32} (refreshed : sys.refreshScale measured = some scale) :
    scale = 0 ∧ sys.reg.scale ≠ 0 := by
  unfold refreshScale at refreshed
  rw [nothing] at refreshed
  cases mode : sys.config.config.rgbMode with
  | none => simp [mode] at refreshed
  | some rgbMode =>
    cases rgbMode with
    | load =>
      by_cases zero : sys.reg.scale = 0
      · simp [mode, zero] at refreshed
      · simp only [mode, ne_eq, zero, not_false_eq_true, if_true, Option.some.injEq] at refreshed
        exact ⟨refreshed.symm, zero⟩
    | _ => simp [mode] at refreshed

/-- A tick that refreshes sends only what it changes exactly if its reading does. -/
theorem sendsChange_iff (refreshes : Refreshes codec sys env) :
    SendsChange codec sys env ↔ StoresChange codec sys env := by
  have reg : (sys.looked codec env).reg = sys.reg := by
    obtain ⟨config, file, state, same⟩ := looked_frame codec env sys
    rw [same]
  have outcome := tick_refresh codec env sys refreshes.1 refreshes.2
  unfold SendsChange StoresChange ticked
  cases reading : (sys.looked codec env).scaleOf env.measured with
  | none =>
    refine iff_of_true ?_ fun _ _ never => nomatch never
    cases refreshed : (sys.looked codec env).refreshScale env.measured with
    | none =>
      rw [refreshed] at outcome
      exact fun sends => absurd outcome.2 sends
    | some scale =>
      rw [refreshed] at outcome
      obtain ⟨zero, other⟩ := refreshScale_of_none reading refreshed
      rw [outcome.1, zero, ← reg]
      exact fun _ => other.symm
  | some val =>
    rw [refreshScale_of_reading reading, reg] at outcome
    by_cases same : val = sys.reg.scale.toNat
    · rw [if_neg (not_not.mpr same)] at outcome
      refine iff_of_true (fun sends => absurd outcome.2 sends) ?_
      intro _ _ found differs
      rw [← Option.some.inj found] at differs
      exact absurd same differs
    · rw [if_pos same] at outcome
      rw [outcome.1, outcome.2]
      cases env.opens with
      | false => exact iff_of_true (fun never => absurd rfl never) fun never => nomatch never
      | true =>
        constructor
        · intro change _ _ found _
          rw [← Option.some.inj found]
          exact change (List.cons_ne_nil _ _)
        · exact fun change _ => change rfl val rfl same

/-- What a load is stored as is what the register holds already: a change is seen unless the load is
zero. -/
theorem storedScale_load (unit : 0 ≤ val ∧ val ≤ 1) :
    (val ≠ before.toNat → f2u32 val ≠ before) ↔ val = 0 ∨ f2u32 val ≠ before := by
  by_cases stored : f2u32 val = before
  · rw [or_iff_left (not_not.mpr stored)]
    constructor
    · intro same
      by_contra positive
      have equal : val = before.toNat := by
        by_contra differs
        exact same differs stored
      rcases reading_eq_register unit equal with zero | one
      · exact positive zero.1
      · rw [one.1, f2u32_one, one.2] at stored
        exact absurd stored (by decide)
    · intro zero differs
      rw [zero, (f2u32_eq_zero_iff ⟨le_refl 0, zero_le_one⟩).mpr (by norm_num)] at stored
      rw [zero, ← stored] at differs
      exact absurd rfl differs
  · exact iff_of_true (fun _ => stored) (.inr stored)

/-- What a temperature is stored as is what the register holds already only if it does not fill a
unit and the register holds none. -/
theorem storedScale_temperature (unit : 0 ≤ val ∧ val ≤ 1) :
    (val ≠ before.toNat → toU32 val ≠ before) ↔ val = 0 ∨ val = 1 ∨ before ≠ 0 := by
  rw [toU32_reading unit]
  by_cases full : val = 1
  · refine iff_of_true ?_ (.inr (.inl full))
    rw [if_pos full, full]
    intro differs same
    rw [← same] at differs
    exact differs rfl
  · rw [if_neg full, or_iff_right full]
    by_cases none : before = 0
    · rw [none, or_iff_left (not_not.mpr rfl)]
      have zero : (((0 : UInt32).toNat : Nat) : ℚ) = 0 := rfl
      rw [zero]
      constructor
      · intro same
        exact not_not.mp fun differs => same differs rfl
      · intro same differs
        exact absurd same differs
    · exact iff_of_true (fun _ => Ne.symm none) (.inr none)

/-- What the condition on a reading of the unit interval comes to: a load is zero or has another
encoding than what the register holds; a temperature is zero or one, or the register is not zero. -/
theorem storesChange_reading (reading : (sys.looked codec env).scaleOf env.measured = some val)
    (unit : 0 ≤ val ∧ val ≤ 1) : StoresChange codec sys env ↔ (env.opens = true →
      if (sys.looked codec env).config.config.rgbMode = some .temperature then
        val = 0 ∨ val = 1 ∨ sys.reg.scale ≠ 0
      else val = 0 ∨ f2u32 val ≠ sys.reg.scale) := by
  unfold StoresChange storedScale
  refine imp_congr_right fun _ => ?_
  simp only [reading, Option.some.injEq, forall_eq']
  split
  · exact storedScale_temperature unit
  · exact storedScale_load unit

end

/-- In every run of ticks that refresh, each sends something only if it changes the scale, exactly
if the readings do so: none of them differs from the register as a number and is stored as what the
register holds. -/
theorem sends_changes_iff (codec : Codec) (sys : Sys) (envs : List SysEnv)
    (refreshes : EachStep (ticked codec) (Refreshes codec) sys envs) :
    EachStep (ticked codec) (SendsChange codec) sys envs ↔
      EachStep (ticked codec) (StoresChange codec) sys envs := by
  have keeps : ∀ (sys : Sys) (env : SysEnv), True → Refreshes codec sys env → True :=
    fun _ _ _ _ => trivial
  exact eachStep_congr keeps (fun _ _ _ refreshes => sendsChange_iff refreshes) trivial refreshes

/-- The busy console refreshes. -/
theorem busyAt_refreshes (scale : UInt32) : Refreshes emptyCodec (busyAt scale) warmEnv := by
  rw [Refreshes, (busyAt_reading scale).1]
  exact ⟨rfl, rfl⟩

/-- Its load of one half is a change if the scale is another. -/
theorem busyAt_storesChange (scale : UInt32) :
    StoresChange emptyCodec (busyAt scale) warmEnv ↔ f2u32 (1 / 2) ≠ scale := by
  have load : ¬ (((busyAt scale).looked emptyCodec warmEnv).config.config.rgbMode =
      some .temperature) := by
    rw [(busyAt_reading scale).1]
    show ¬ some RgbMode.load = some .temperature
    decide
  rw [storesChange_reading (busyAt_reading scale).2 (by norm_num), if_neg load]
  have opens : warmEnv.opens = true := rfl
  have positive : ¬ (1 / 2 : ℚ) = 0 := by norm_num
  rw [opens, or_iff_right positive]
  exact ⟨fun change => change rfl, fun change _ => change⟩

/-- A load of one half is stored as half of the scale. -/
theorem f2u32_half : f2u32 (1 / 2) = 5000 := by
  rw [← UInt32.toNat_inj, f2u32_reading (by norm_num)]
  norm_num [u32fScale]
  rfl

/-- One tick of it sends a load that it stores. -/
theorem sends_changes_once :
    EachStep (ticked emptyCodec) (SendsChange emptyCodec) busySys [warmEnv] := by
  have change : StoresChange emptyCodec busySys warmEnv := by
    apply (busyAt_storesChange busySys.reg.scale).mpr
    have full : busySys.reg.scale = 10000 := f2u32_one
    rw [f2u32_half, full]
    decide
  have refreshes := busyAt_refreshes busySys.reg.scale
  exact (sends_changes_iff emptyCodec busySys [warmEnv] ⟨refreshes, trivial⟩).mpr ⟨change, trivial⟩

/-- A second tick with the same load sends what the device has. -/
theorem sends_again :
    EachStep (ticked emptyCodec) (Refreshes emptyCodec) busySys [warmEnv, warmEnv] ∧
      ¬ EachStep (ticked emptyCodec) (SendsChange emptyCodec) busySys [warmEnv, warmEnv] := by
  have second : ticked emptyCodec busySys warmEnv = busyAt 5000 := by
    have reading := busyAt_reading busySys.reg.scale
    have looked : busySys.looked emptyCodec warmEnv = busySys := reading.1
    have half : busySys.scaleOf warmEnv.measured = some (1 / 2) := looked ▸ reading.2
    have full : busySys.reg.scale = 10000 := f2u32_one
    have differs : (1 / 2 : ℚ) ≠ busySys.reg.scale.toNat := by
      have units : ((10000 : UInt32).toNat : ℚ) = 10000 := rfl
      rw [full, units]
      norm_num
    have load : ¬ busySys.config.config.rgbMode = some .temperature := by decide
    have refreshed := refreshScale_of_reading half
    rw [if_pos differs, if_neg load, f2u32_half] at refreshed
    rw [ticked, tick_eq, looked]
    show (send warmEnv busySys).1 = _
    have state : busySys.cfgState = .refresh := rfl
    simp only [send, state, refreshed]
    rfl
  rw [EachStep, EachStep, EachStep, EachStep, second]
  refine ⟨⟨busyAt_refreshes busySys.reg.scale, busyAt_refreshes 5000, trivial⟩, fun each => ?_⟩
  have change := (sendsChange_iff (busyAt_refreshes 5000)).mp each.2.1
  exact (busyAt_storesChange 5000).mp change f2u32_half

end Sys

end Fly2040.App
