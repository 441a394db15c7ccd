import Fly2040.App.Threads
import Fly2040.App.Turns
import Mathlib.Algebra.Order.BigOperators.Group.Finset
import Mathlib.Data.Rat.Floor
import Mathlib.Tactic.FieldSimp
/-!
# Readings of the monitors

The threads of the monitors read counters and sensors. A sensor gives whole degrees on some versions
of the console and thousandths on others; the monitor treats both alike, and shows its range from 21
to 60 degrees on neither. The counters of a core give the share of the time in which it was idle,
which is shown as if it were its load.
-/

namespace Fly2040.App

open Leds Runs

/-- Places of the sensors of the console. -/
inductive TsLocation where
  /-- The board. -/
  | internal
  /-- The processor. -/
  | external

/-- What the sensors give, if they can be read. -/
structure Sensors where
  /-- Load of the graphics processor in thousandths. -/
  gpuLoad : Option UInt32
  /-- Temperature in degrees. -/
  tsGetTemperature : TsLocation → Option Int
  /-- Temperature in thousandths of degrees. -/
  tsGetTemperatureMilliC : TsLocation → Option Int
  /-- Temperature of the case in thousandths of degrees. -/
  tcGetSkinTemperatureMilliC : Option Int

namespace GenMon

/-- Temperature of a place, in the unit of the version. -/
def tsRead (checks : GenMonChecks) (sensors : Sensors) (location : TsLocation) : Option Int :=
  if checks.hosGt14 then sensors.tsGetTemperature location
  else sensors.tsGetTemperatureMilliC location

/-- One pass of the thread. -/
def measure (checks : GenMonChecks) (sensors : Sensors) (measured : Measured) (mon : GenMon) :
    Measured :=
  let store (temperature : Option Int) : Measured :=
    { measured with temperature := temperature.getD measured.temperature }
  match mon.mode with
  | .gpu =>
    if checks.nvCheck then { measured with gpuLoad := sensors.gpuLoad.getD measured.gpuLoad }
    else measured
  | .socTemperature => if checks.tsCheck then store (tsRead checks sensors .external) else measured
  | .pcbTemperature => if checks.tsCheck then store (tsRead checks sensors .internal) else measured
  | .skinTemperature =>
    if checks.tcCheck then store sensors.tcGetSkinTemperatureMilliC else measured

end GenMon

section Temperature

/-- A value given in a unit is a temperature. -/
def Gives (value : Option Int) (unit temperature : ℚ) : Prop :=
  ∃ number : Int, value = some number ∧ (number : ℚ) = temperature * unit

/-- A mode reads degrees, and not thousandths. -/
def GenMonMode.wholeDegrees (hosGt14 : Bool) (mode : GenMonMode) : Bool :=
  hosGt14 && decide (mode ≠ .skinTemperature)

/-- The sensor of a temperature mode can be read, and gives a temperature. -/
def Reads (checks : GenMonChecks) (sensors : Sensors) (temperature : ℚ) : GenMonMode → Prop
  | .gpu => False
  | .socTemperature => checks.tsCheck = true ∧
    Gives (GenMon.tsRead checks sensors .external) (if checks.hosGt14 then 1 else 1000) temperature
  | .pcbTemperature => checks.tsCheck = true ∧
    Gives (GenMon.tsRead checks sensors .internal) (if checks.hosGt14 then 1 else 1000) temperature
  | .skinTemperature => checks.tcCheck = true ∧
    Gives sensors.tcGetSkinTemperatureMilliC 1000 temperature

/-- Temperatures that are shown in the range from 21 to 60 degrees. -/
def InRange (wholeDegrees : Bool) (temperature : ℚ) : Prop :=
  if wholeDegrees then temperature ≤ 21 ∨ 51810 ≤ temperature
  else temperature ≤ 1281 / 100 ∨ 60 ≤ temperature

/-- Values of the unit interval are the same if the values are, or both lie on one side of it. -/
theorem clampUnit_eq_iff {x y : ℚ} :
    clampUnit x = clampUnit y ↔ x = y ∨ x ≤ 0 ∧ y ≤ 0 ∨ 1 ≤ x ∧ 1 ≤ y := by
  unfold clampUnit
  split_ifs <;> grind

/-- What a pass stores in a temperature mode. -/
theorem measure_temperature {checks : GenMonChecks} {sensors : Sensors} {temperature : ℚ}
    {mon : GenMon} (reads : Reads checks sensors temperature mon.mode) (measured : Measured) :
    ((mon.measure checks sensors measured).temperature : ℚ) =
      temperature * if mon.mode.wholeDegrees checks.hosGt14 then 1 else 1000 := by
  unfold GenMon.measure
  cases mode : mon.mode with
  | gpu =>
    rw [mode] at reads
    exact reads.elim
  | socTemperature | pcbTemperature =>
    rw [mode] at reads
    have ⟨check, number, read, same⟩ := reads
    simp only [check, if_true, read, Option.getD_some, same, GenMonMode.wholeDegrees]
    cases checks.hosGt14 <;> rfl
  | skinTemperature =>
    rw [mode] at reads
    have ⟨check, number, read, same⟩ := reads
    simp only [check, if_true, read, Option.getD_some, same, GenMonMode.wholeDegrees]
    cases checks.hosGt14 <;> rfl

/-- What is shown of a temperature. -/
theorem get_temperature {mon : GenMon} (mode : mon.mode ≠ .gpu) (measured : Measured) :
    mon.get measured =
      clampUnit ((measured.temperature / 100000 - 21 / 100) / (6 / 10 - 21 / 100) + 21 / 100) := by
  unfold GenMon.get
  cases same : mon.mode with
  | gpu => exact absurd same mode
  | _ => rfl

/-- Degrees are shown in the range only below it and far above. -/
theorem clampUnit_degrees_iff (temperature : ℚ) :
    clampUnit ((temperature / 100000 - 21 / 100) / (6 / 10 - 21 / 100) + 21 / 100) =
      clampUnit ((temperature - 21) / 39) ↔ temperature ≤ 21 ∨ 51810 ≤ temperature := by
  have shown : (temperature / 100000 - 21 / 100) / (6 / 10 - 21 / 100) + 21 / 100 =
      (temperature - 12810) / 39000 := by ring
  rw [shown, clampUnit_eq_iff]
  grind

/-- Thousandths are shown in the range only outside of it. -/
theorem clampUnit_thousandths_iff (temperature : ℚ) :
    clampUnit ((temperature * 1000 / 100000 - 21 / 100) / (6 / 10 - 21 / 100) + 21 / 100) =
      clampUnit ((temperature - 21) / 39) ↔ temperature ≤ 1281 / 100 ∨ 60 ≤ temperature := by
  have shown : (temperature * 1000 / 100000 - 21 / 100) / (6 / 10 - 21 / 100) + 21 / 100 =
      (temperature - 1281 / 100) / 39 := by ring
  rw [shown, clampUnit_eq_iff]
  grind

/-- What is shown of a temperature after a pass, on both kinds of versions. -/
def shownOn (checks : GenMonChecks) (sensors : Sensors) (measured : Measured) (mon : GenMon)
    (hosGt14 : Bool) : ℚ :=
  mon.get (mon.measure { checks with hosGt14 := hosGt14 } sensors measured)

/-- A temperature is shown in the range exactly if it is not between its lower end and the
temperature that the unit puts at the upper end. -/
theorem shownOn_iff {checks : GenMonChecks} {sensors : Sensors} {temperature : ℚ} {mon : GenMon}
    {hosGt14 : Bool} (reads : Reads { checks with hosGt14 := hosGt14 } sensors temperature mon.mode)
    (measured : Measured) :
    shownOn checks sensors measured mon hosGt14 = clampUnit ((temperature - 21) / 39) ↔
      InRange (mon.mode.wholeDegrees hosGt14) temperature := by
  have mode : mon.mode ≠ .gpu := by
    intro gpu
    rw [gpu] at reads
    exact reads
  rw [shownOn, get_temperature mode, measure_temperature reads, InRange]
  cases mon.mode.wholeDegrees hosGt14 with
  | true =>
    simp only [if_true, mul_one]
    exact clampUnit_degrees_iff temperature
  | false =>
    simp only [Bool.false_eq_true, if_false]
    exact clampUnit_thousandths_iff temperature

/-- A temperature is shown the same on all versions, as its place in the range from 21 to 60
degrees, exactly if it is outside of the range as the sensors give it; and so it is on each version
that gives it. -/
theorem temperature_shown_iff (checks : GenMonChecks) (sensors : Sensors) (measured : Measured)
    (mon : GenMon) (temperature : ℚ) :
    (∀ hosGt14, Reads { checks with hosGt14 := hosGt14 } sensors temperature mon.mode →
      (shownOn checks sensors measured mon hosGt14 = clampUnit ((temperature - 21) / 39) ↔
        InRange (mon.mode.wholeDegrees hosGt14) temperature)) ∧
    ((∀ hosGt14, Reads { checks with hosGt14 := hosGt14 } sensors temperature mon.mode) →
      ((shownOn checks sensors measured mon true = shownOn checks sensors measured mon false ∧
          ∀ hosGt14, shownOn checks sensors measured mon hosGt14 =
            clampUnit ((temperature - 21) / 39)) ↔
        ∀ hosGt14, InRange (mon.mode.wholeDegrees hosGt14) temperature)) := by
  refine ⟨fun _ reads => shownOn_iff reads measured, fun reads => ?_⟩
  have each : ∀ hosGt14, shownOn checks sensors measured mon hosGt14 =
      clampUnit ((temperature - 21) / 39) ↔ InRange (mon.mode.wholeDegrees hosGt14) temperature :=
    fun hosGt14 => shownOn_iff (reads hosGt14) measured
  constructor
  · exact fun shown hosGt14 => (each hosGt14).mp (shown.2 hosGt14)
  · intro inRange
    have shown := fun hosGt14 => (each hosGt14).mpr (inRange hosGt14)
    exact ⟨(shown true).trans (shown false).symm, shown⟩

/-- All sensors can be read. -/
def allChecks : GenMonChecks := { tsCheck := true, tcCheck := true }

/-- All sensors give the same temperature in whole degrees. -/
def warmSensors (degrees : Int) : Sensors where
  gpuLoad := none
  tsGetTemperature _ := some degrees
  tsGetTemperatureMilliC _ := some (degrees * 1000)
  tcGetSkinTemperatureMilliC := some (degrees * 1000)

/-- Nothing has been measured. -/
def unmeasured : Measured := ⟨fun _ => 0, 0, 0⟩

/-- The sensors give their temperature. -/
theorem warmSensors_reads (degrees : Int) (hosGt14 : Bool) :
    Reads { allChecks with hosGt14 := hosGt14 } (warmSensors degrees) degrees .socTemperature := by
  cases hosGt14 with
  | true => exact ⟨rfl, degrees, rfl, (mul_one _).symm⟩
  | false => exact ⟨rfl, degrees * 1000, rfl, by push_cast; rfl⟩

/-- Twelve degrees are shown as nothing on all versions. -/
theorem twelve_degrees :
    (∀ hosGt14, Reads { allChecks with hosGt14 := hosGt14 } (warmSensors 12) (12 : Int)
      .socTemperature) ∧
    shownOn allChecks (warmSensors 12) unmeasured ⟨true, .socTemperature⟩ true =
      shownOn allChecks (warmSensors 12) unmeasured ⟨true, .socTemperature⟩ false ∧
    ∀ hosGt14, shownOn allChecks (warmSensors 12) unmeasured ⟨true, .socTemperature⟩ hosGt14 =
      clampUnit (((12 : Int) - 21) / 39) := by
  have inRange : ∀ hosGt14, InRange (GenMonMode.socTemperature.wholeDegrees hosGt14)
      ((12 : Int) : ℚ) := by
    intro hosGt14
    cases hosGt14 <;> norm_num [InRange, GenMonMode.wholeDegrees]
  exact ⟨warmSensors_reads 12, ((temperature_shown_iff allChecks (warmSensors 12) unmeasured
    ⟨true, .socTemperature⟩ (12 : Int)).2 (warmSensors_reads 12)).mpr inRange⟩

/-- Thirty degrees of the processor are shown as nothing on some versions, and as too much on the
others. -/
theorem thirty_degrees :
    (∀ hosGt14, Reads { allChecks with hosGt14 := hosGt14 } (warmSensors 30) (30 : Int)
      .socTemperature) ∧
    shownOn allChecks (warmSensors 30) unmeasured ⟨true, .socTemperature⟩ true <
      clampUnit (((30 : Int) - 21) / 39) ∧
    clampUnit (((30 : Int) - 21) / 39) <
      shownOn allChecks (warmSensors 30) unmeasured ⟨true, .socTemperature⟩ false := by
  refine ⟨warmSensors_reads 30, ?_, ?_⟩ <;>
    norm_num [shownOn, GenMon.get, GenMon.measure, GenMon.tsRead, allChecks, warmSensors, clampUnit]

end Temperature

section Load

/-- The next whole number, a half upwards in size. -/
def cround (x : ℚ) : ℤ := if 0 ≤ x then ⌊x + 1 / 2⌋ else ⌈x - 1 / 2⌉

/-- A count of parts brought into the unit interval. -/
theorem clampUnit_div (count parts : ℕ) (some : 0 < parts) :
    clampUnit (count / parts) = (min count parts : ℕ) / parts := by
  have positive : (0 : ℚ) < parts := Nat.cast_pos.mpr some
  have nonneg : ¬((count : ℚ) / parts < 0) := not_lt.mpr (by positivity)
  rw [clampUnit, if_neg nonneg]
  by_cases large : parts < count
  · have above : 1 < (count : ℚ) / parts := by
      rw [lt_div_iff₀ positive, one_mul]
      exact_mod_cast large
    rw [if_pos above, Nat.min_eq_right (Nat.le_of_lt large), div_self positive.ne']
  · have below : ¬1 < (count : ℚ) / parts := by
      rw [not_lt, div_le_iff₀ positive, one_mul]
      exact_mod_cast Nat.le_of_not_lt large
    rw [if_neg below, Nat.min_eq_left (Nat.le_of_not_lt large)]

/-- Counters of a core at the beginning and at the end of an interval. -/
structure CoreTicks where
  /-- Time at the beginning. -/
  sysA : UInt64
  /-- Idle time at the beginning. -/
  idleA : UInt64
  /-- Time at the end. -/
  sysB : UInt64
  /-- Idle time at the end. -/
  idleB : UInt64

namespace CoreTicks

variable (ticks : CoreTicks)

/-- Share of the interval in which the core was idle. -/
def share : ℚ := (ticks.idleB - ticks.idleA).toNat / (ticks.sysB - ticks.sysA).toNat

/-- Whole percents of it, as the thread computes them. -/
def percent : UInt64 := (ticks.idleB - ticks.idleA) * 100 / (ticks.sysB - ticks.sysA)

/-- What a pass of the thread stores. -/
def idle : ℚ := cround (clampUnit (ticks.percent.toNat / 100) * 1000) / 1000

/-- The whole percents are stored, at most all of them. -/
theorem idle_eq : ticks.idle = (min ticks.percent.toNat 100 : ℕ) / 100 := by
  have clamped := clampUnit_div ticks.percent.toNat 100 (by decide)
  rw [Nat.cast_ofNat] at clamped
  have whole : clampUnit (ticks.percent.toNat / 100) * 1000 =
      ((min ticks.percent.toNat 100 * 10 : ℕ) : ℤ) := by
    rw [clamped]
    push_cast
    ring
  have rounded : cround (clampUnit (ticks.percent.toNat / 100) * 1000) =
      ((min ticks.percent.toNat 100 * 10 : ℕ) : ℤ) := by
    rw [cround, whole, if_pos (by positivity), Int.floor_intCast_add]
    norm_num
  rw [idle, rounded]
  push_cast
  ring

/-- The idle time of the interval can be counted in hundredths. -/
def Countable : Prop := (ticks.idleB - ticks.idleA).toNat * 100 < 2 ^ 64

/-- Then the whole percents are the share, rounded downwards. -/
theorem Countable.percent {ticks : CoreTicks} (countable : ticks.Countable) :
    ticks.percent.toNat = ⌊ticks.share * 100⌋₊ := by
  have product : ((ticks.idleB - ticks.idleA) * 100).toNat =
      (ticks.idleB - ticks.idleA).toNat * 100 := by
    rw [UInt64.toNat_mul]
    exact Nat.mod_eq_of_lt countable
  have share : ticks.share * 100 =
      (((ticks.idleB - ticks.idleA).toNat * 100 : ℕ) : ℚ) / (ticks.sysB - ticks.sysA).toNat := by
    rw [CoreTicks.share]
    push_cast
    ring
  rw [CoreTicks.percent, UInt64.toNat_div, product, share, Nat.floor_div_eq_div]
end CoreTicks

/-- What is measured of the load. -/
structure Sample where
  /-- Counters of each core. -/
  ticks : Fin 4 → CoreTicks
  /-- Load of the graphics processor in thousandths. -/
  gpuLoad : UInt32

namespace Sample

/-- What the threads have stored. -/
def measured (sample : Sample) : Measured where
  idle core := (sample.ticks core).idle
  gpuLoad := sample.gpuLoad
  temperature := 0

/-- No core is idle for a larger share, and the graphics processor has no smaller load. -/
structure NoLessLoad (before after : Sample) : Prop where
  /-- The cores. -/
  cores : ∀ core, (after.ticks core).share ≤ (before.ticks core).share
  /-- The graphics processor. -/
  gpu : before.gpuLoad ≤ after.gpuLoad

/-- Whole percents in which the cores are idle. -/
def idlePercents (sample : Sample) : ℕ := ∑ core, min (sample.ticks core).percent.toNat 100

/-- Thousandths of the load of the graphics processor. -/
def gpuThousandths (sample : Sample) : ℕ := min sample.gpuLoad.toNat 1000

end Sample

/-- The load that is shown does not fall when the load does not. -/
def Sys.ShowsLoad (sys : Sys) (before after : Sample) : Prop :=
  before.NoLessLoad after → ∀ val, sys.scaleOf before.measured = some val →
    ∀ val', sys.scaleOf after.measured = some val' → val ≤ val'

/-- The cores are not shown, or their idle time does not fall by more than the load of the graphics
processor that is shown with it rises. -/
def CfgSet.HidesIdle (cfg : CfgSet) (before after : Sample) : Prop :=
  cfg.loadCpu = true →
    if cfg.loadGpu then 5 * before.idlePercents + 2 * before.gpuThousandths ≤
      5 * after.idlePercents + 2 * after.gpuThousandths
    else before.idlePercents ≤ after.idlePercents

/-- If only the cores are shown, their idle time is hidden as long as no core is idle for fewer
whole percents. -/
theorem CfgSet.hidesIdle_iff_cores {cfg : CfgSet} (cpu : cfg.loadCpu = true)
    (gpu : cfg.loadGpu = false) {before after : Sample} (more : before.NoLessLoad after)
    (countable : ∀ core, (before.ticks core).Countable ∧ (after.ticks core).Countable) :
    cfg.HidesIdle before after ↔ ∀ core,
      min (before.ticks core).percent.toNat 100 = min (after.ticks core).percent.toNat 100 := by
  have less : ∀ core ∈ Finset.univ, min (after.ticks core).percent.toNat 100 ≤
      min (before.ticks core).percent.toNat 100 := by
    intro core _
    rw [(countable core).1.percent, (countable core).2.percent]
    refine min_le_min (Nat.floor_mono ?_) (le_refl 100)
    exact mul_le_mul_of_nonneg_right (more.cores core) (by norm_num)
  rw [HidesIdle, gpu, if_neg Bool.false_ne_true, imp_iff_right cpu]
  have sums := Finset.sum_eq_sum_iff_of_le less
  have total := Finset.sum_le_sum less
  constructor
  · intro held core
    exact (sums.mp (Nat.le_antisymm total held) core (Finset.mem_univ core)).symm
  · exact fun same => (sums.mpr fun core _ => (same core).symm).ge

/-- The mode in which the other monitor measures what the load mode shows. -/
def Sys.GpuMeasured (sys : Sys) : Prop :=
  sys.config.config.rgbMode = some .load → sys.config.config.loadGpu = true → sys.genMon.mode = .gpu

/-- The load of the cores is their idle time. -/
theorem cpu_get (sample : Sample) :
    CpuMon.get sample.measured (-1) = (sample.idlePercents : ℚ) / 400 := by
  have outside : ¬((0 : Int) ≤ -1 ∧ (-1 : Int) < 4) := by decide
  rw [CpuMon.get, dif_neg outside, Sample.idlePercents, Fin.sum_univ_four, Fin.sum_univ_four]
  simp only [Sample.measured, CoreTicks.idle_eq]
  push_cast
  ring

/-- The load of the graphics processor. -/
theorem gpu_get (sample : Sample) {mon : GenMon} (mode : mon.mode = .gpu) :
    mon.get sample.measured = (sample.gpuThousandths : ℚ) / 1000 := by
  have clamped := clampUnit_div sample.gpuLoad.toNat 1000 (by decide)
  rw [Nat.cast_ofNat] at clamped
  rw [GenMon.get, mode]
  exact clamped

/-- A load of the graphics processor that does not fall is not shown as falling. -/
theorem Sample.NoLessLoad.thousandths {before after : Sample} (more : before.NoLessLoad after) :
    before.gpuThousandths ≤ after.gpuThousandths := by
  have load : before.gpuLoad.toNat ≤ after.gpuLoad.toNat := more.gpu
  exact min_le_min load (le_refl _)

namespace Sys

variable {codec : Codec} {sys : Sys}

/-- The load mode shows a load that does not fall as not falling exactly if the idle time of the
cores is hidden. -/
theorem showsLoad_iff (gpu : sys.GpuMeasured) (mode : sys.config.config.rgbMode = some .load)
    (before after : Sample) : sys.ShowsLoad before after ↔
      (before.NoLessLoad after → sys.config.config.HidesIdle before after) := by
  apply imp_congr_right
  intro more
  have cores := cpu_get before
  have cores' := cpu_get after
  unfold CfgSet.HidesIdle scaleOf
  simp only [mode, cores, cores']
  cases cpu : sys.config.config.loadCpu with
  | true =>
    cases both : sys.config.config.loadGpu with
    | true =>
      simp only [Bool.and_self, if_true, Option.some.injEq, forall_eq', forall_const,
        gpu_get _ (gpu mode both)]
      rw [← Nat.cast_le (α := ℚ)]
      push_cast
      constructor <;> intro _ <;> linarith
    | false =>
      simp only [Bool.and_false, Bool.false_eq_true, if_false, if_true, Option.some.injEq,
        forall_eq', forall_const]
      rw [← Nat.cast_le (α := ℚ)]
      constructor <;> intro _ <;> linarith
  | false =>
    simp only [Bool.false_and, Bool.false_eq_true, if_false, false_imp_iff, iff_true]
    cases only : sys.config.config.loadGpu with
    | true =>
      simp only [if_true, Option.some.injEq, forall_eq', gpu_get _ (gpu mode only)]
      have thousandths : (before.gpuThousandths : ℚ) ≤ after.gpuThousandths :=
        Nat.cast_le.mpr more.thousandths
      linarith
    | false => exact fun _ never => nomatch never

/-- Starting the monitors of a mode sets what the other one measures. -/
theorem startMode_gpuMeasured (sys : Sys) : sys.startMode.GpuMeasured := by
  intro mode gpu
  have ⟨cpuMon, genMon, frame⟩ := startMode_frame sys
  rw [frame] at mode gpu
  change sys.config.config.rgbMode = some .load at mode
  change sys.config.config.loadGpu = true at gpu
  unfold startMode
  simp only [mode, gpu, if_true]
  cases sys.config.config.loadCpu <;> rfl

/-- So does setting up. -/
theorem setup_gpuMeasured (oldCfg : Option CfgSet) (sys : Sys) : (sys.setup oldCfg).GpuMeasured :=
  startMode_gpuMeasured _

/-- A file that cannot be loaded leaves the defaults. -/
theorem load_config {env : FileEnv} {file : Option ConfigFile} {impl : ConfigImpl}
    (unread : (ConfigImpl.load codec env file impl).1 = false) :
    (ConfigImpl.load codec env file impl).2.config = {} := by
  unfold ConfigImpl.load at unread ⊢
  cases file with
  | none => rfl
  | some file =>
    by_cases readable : ConfigImpl.readable env file = true
    · simp only [readable, if_true] at unread
      exact nomatch unread
    · simp only [readable, Bool.false_eq_true, if_false]
      rfl

/-- A file that is not read leaves the configuration, or the defaults. -/
theorem refresh_config {clock : UInt64} {env : FileEnv} {file : Option ConfigFile}
    {impl : ConfigImpl} (unread : (ConfigImpl.refresh codec clock env file impl).1 = false) :
    (ConfigImpl.refresh codec clock env file impl).2.config = impl.config ∨
      (ConfigImpl.refresh codec clock env file impl).2.config = {} := by
  rw [ConfigImpl.refresh] at unread ⊢
  split
  · exact .inl rfl
  · rename_i late
    rw [if_neg late] at unread
    simp only [] at unread ⊢
    split
    · rename_i look
      rw [if_pos look] at unread
      cases loaded : ConfigImpl.load codec env file { impl with lastCheck := clock } with
      | mk found later =>
        rw [loaded] at unread
        cases found with
        | true => cases unread
        | false =>
          have defaults := load_config (congrArg Prod.fst loaded)
          rw [loaded] at defaults
          exact .inr defaults
    · exact .inl rfl

/-- The defaults measure nothing of the graphics processor. -/
theorem gpuMeasured_of_config {sys later : Sys} (now : sys.GpuMeasured)
    (config : later.config.config = sys.config.config ∨ later.config.config = {})
    (genMon : later.genMon.mode = sys.genMon.mode) : later.GpuMeasured := by
  intro mode gpu
  cases config with
  | inl same =>
    rw [same] at mode gpu
    exact genMon.trans (now mode gpu)
  | inr defaults =>
    rw [defaults] at mode
    exact nomatch mode

/-- A tick that does not set up has looked at the file without reading it. -/
theorem looked_gpuMeasured (now : sys.GpuMeasured) {env : SysEnv}
    (unread : (sys.looked codec env).cfgState ≠ .init) : (sys.looked codec env).GpuMeasured := by
  have ⟨config, file, saved, same⟩ := saveChanged_frame codec env sys
  rw [looked, refreshFile_frame, saved] at unread ⊢
  apply gpuMeasured_of_config now
  · cases read : (ConfigImpl.refresh codec env.clock env.files file config).1 with
    | true =>
      simp only [read, if_true] at unread
      exact absurd rfl unread
    | false =>
      rw [← same]
      exact refresh_config read
  · rfl

/-- A turn leaves the mode of the other monitor as the load mode needs it. -/
theorem next_gpuMeasured (now : sys.GpuMeasured) (turn : Turn) :
    (next codec sys turn).GpuMeasured := by
  have ⟨env, event⟩ := turn
  cases event with
  | setConfigValues cfg =>
    show (sys.setConfigValues codec env cfg).1.GpuMeasured
    rw [setConfigValues_setup]
    -- the pair is reduced first: unifying under it would compare two whole systems
    dsimp only
    exact setup_gpuMeasured _ _
  | sendI2c bytes => exact now
  | tick =>
    show (sys.tick codec env).1.GpuMeasured
    rw [tick_eq]
    split
    · show ((sys.looked codec env).setup none).GpuMeasured
      exact setup_gpuMeasured _ _
    · rename_i unread
      have looked := looked_gpuMeasured now unread
      split
      · exact looked
      · have ⟨state, sendState, reg, sent⟩ := send_frame env (sys.looked codec env)
        rw [sent]
        exact gpuMeasured_of_config looked (.inl rfl) rfl
  | power state =>
    show (sys.power env state).1.GpuMeasured
    cases asleep : sys.sleeping with
    | true =>
      rw [power_of_asleep env sys asleep]
      cases state.asksWaking <;> exact gpuMeasured_of_config now (.inl rfl) rfl
    | false =>
      rw [power_of_awake env sys asleep]
      cases state.asksSleep <;> exact gpuMeasured_of_config now (.inl rfl) rfl
  | edit file => exact now

end Sys

/-- In every state of a run the load that is shown does not fall when the load does not, exactly if
the idle time of the cores is hidden. -/
theorem load_shown_iff (codec : Codec) (file : Option ConfigFile) (turns : List Turn) :
    Always (Sys.next codec) (fun sys => sys.config.config.rgbMode = some .load →
      ∀ before after, sys.ShowsLoad before after ↔
        (before.NoLessLoad after → sys.config.config.HidesIdle before after))
      (Sys.init file) turns := by
  have keeps : ∀ (sys : Sys) (turn : Turn), sys.GpuMeasured → True →
      (Sys.next codec sys turn).GpuMeasured := fun _ turn now _ => Sys.next_gpuMeasured now turn
  have start : (Sys.init file).GpuMeasured := fun _ _ => rfl
  have steps : EachStep (Sys.next codec) (fun _ _ => True) (Sys.init file) turns := eachStep_true
  have measured := always_of_step keeps start steps
  exact measured.mono fun _ gpu mode before after => Sys.showsLoad_iff gpu mode before after

/-- Four cores that are idle for a part of an interval of a hundred. -/
def idleFor (part : UInt64) : Sample := ⟨fun _ => ⟨0, 0, 100, part⟩, 0⟩

/-- The console after a command that chooses the load mode. -/
def loadSys : Sys :=
  ((Sys.init none).setConfigValues ⟨fun _ => [], fun _ => {}⟩
    ⟨0, ⟨true, true, true, true, true, true, true, true, ⟨[], 0⟩, 0⟩,
      ⟨true, true, true, true, true, true, true, true, ⟨[], 0⟩, 0⟩, unmeasured, true,
      fun _ => true⟩ { mode := 4 }).1

/-- What it shows of such cores. -/
theorem loadSys_scaleOf (part : UInt64) : loadSys.scaleOf (idleFor part).measured =
    some (((4 * min (part * 100 / 100).toNat 100 : ℕ) : ℚ) / 400) := by
  have percents : (idleFor part).idlePercents = 4 * min (part * 100 / 100).toNat 100 := by
    rw [Sample.idlePercents, Fin.sum_univ_four]
    simp only [idleFor, CoreTicks.percent, UInt64.sub_zero]
    omega
  show some (CpuMon.get (idleFor part).measured (-1)) = _
  rw [cpu_get, percents]

/-- The load of cores that stop being idle is shown as falling from all to nothing. -/
theorem busy_cores_shown :
    (idleFor 100).NoLessLoad (idleFor 0) ∧ loadSys.scaleOf (idleFor 100).measured = some 1 ∧
      loadSys.scaleOf (idleFor 0).measured = some 0 ∧
      ¬loadSys.ShowsLoad (idleFor 100) (idleFor 0) := by
  have full : loadSys.scaleOf (idleFor 100).measured = some 1 := by
    have percents : 4 * min ((100 : UInt64) * 100 / 100).toNat 100 = 400 := by decide
    rw [loadSys_scaleOf, percents]
    norm_num
  have none : loadSys.scaleOf (idleFor 0).measured = some 0 := by
    have percents : 4 * min ((0 : UInt64) * 100 / 100).toNat 100 = 0 := by decide
    rw [loadSys_scaleOf, percents]
    norm_num
  have more : (idleFor 100).NoLessLoad (idleFor 0) := by
    constructor
    · intro core
      have nothing : ((idleFor 0).ticks core).share = 0 := by
        simp [CoreTicks.share, idleFor]
      rw [nothing, CoreTicks.share]
      positivity
    · exact UInt32.le_refl _
  refine ⟨more, full, none, fun shows => ?_⟩
  exact absurd (shows more 1 full 0 none) (by norm_num)

end Load

end Fly2040.App
