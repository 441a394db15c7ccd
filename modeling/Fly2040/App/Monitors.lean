import Mathlib.Algebra.Order.Field.Rat
import Mathlib.Algebra.BigOperators.Fin
import Mathlib.Tactic.Linarith
/-!
# Monitors

Two monitors measure the load of the cores and the load of the graphics processor or a
temperature. Their threads store what they measure; reading a monitor brings it into the unit
interval. Floats are read as exact rationals.
-/

namespace Fly2040.App

/-- What the threads of the monitors have stored. -/
structure Measured where
  /-- Load of each core. -/
  idle : Fin 4 → ℚ
  /-- Load of the graphics processor in thousandths. -/
  gpuLoad : UInt32
  /-- Temperature. -/
  temperature : Int

/-- A value brought into the unit interval. -/
def clampUnit (x : ℚ) : ℚ := if x < 0 then 0 else if 1 < x then 1 else x

/-- Monitor of the cores. -/
structure CpuMon where
  /-- Its threads run. -/
  running : Bool

namespace CpuMon

/-- Start the threads. -/
def start (_ : CpuMon) : CpuMon := ⟨true⟩

/-- Stop the threads. -/
def stop (_ : CpuMon) : CpuMon := ⟨false⟩

/-- Load of a core, or of all of them. -/
def get (measured : Measured) (id : Int) : ℚ :=
  if inside : 0 ≤ id ∧ id < 4 then measured.idle ⟨id.toNat, by omega⟩
  else (∑ core, measured.idle core) / 4

end CpuMon

/-- What the other monitor measures. -/
inductive GenMonMode where
  /-- Load of the graphics processor. -/
  | gpu
  /-- Temperature of the processor. -/
  | socTemperature
  /-- Temperature of the board. -/
  | pcbTemperature
  /-- Temperature of the case. -/
  | skinTemperature
deriving DecidableEq

/-- The other monitor. -/
structure GenMon where
  /-- Its thread runs. -/
  running : Bool
  /-- What it measures. -/
  mode : GenMonMode

namespace GenMon

/-- Start the thread. -/
def start (mon : GenMon) : GenMon := { mon with running := true }

/-- Stop the thread. -/
def stop (mon : GenMon) : GenMon := { mon with running := false }

/-- Choose what is measured. -/
def setMode (mode : GenMonMode) (mon : GenMon) : GenMon := { mon with mode := mode }

/-- What is measured. -/
def get (measured : Measured) (mon : GenMon) : ℚ :=
  match mon.mode with
  | .gpu => clampUnit (measured.gpuLoad.toNat / 1000)
  | .socTemperature | .pcbTemperature | .skinTemperature =>
    clampUnit ((measured.temperature / 100000 - 21 / 100) / (6 / 10 - 21 / 100) + 21 / 100)

end GenMon

/-- The unit interval holds what is brought into it. -/
theorem clampUnit_mem (x : ℚ) : 0 ≤ clampUnit x ∧ clampUnit x ≤ 1 := by
  unfold clampUnit
  split
  · norm_num
  · split
    · norm_num
    · constructor <;> linarith

/-- The other monitor reads values of the unit interval. -/
theorem GenMon.get_mem (measured : Measured) (mon : GenMon) :
    0 ≤ mon.get measured ∧ mon.get measured ≤ 1 := by
  unfold GenMon.get
  split <;> exact clampUnit_mem _

/-- The load of the cores lies in the unit interval if the load of each core does. -/
theorem CpuMon.get_mem {measured : Measured}
    (unit : ∀ core, 0 ≤ measured.idle core ∧ measured.idle core ≤ 1) (id : Int) :
    0 ≤ CpuMon.get measured id ∧ CpuMon.get measured id ≤ 1 := by
  unfold CpuMon.get
  split
  · exact unit _
  · have first := unit 0
    have second := unit 1
    have third := unit 2
    have fourth := unit 3
    rw [Fin.sum_univ_four]
    constructor <;> linarith

end Fly2040.App
