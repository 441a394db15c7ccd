import Fly2040.App.Turns
import Fly2040.System.Converge
/-!
# Monitors in use

Only the load and the temperature mode measure anything. A mode is set up by a command, by a
tick that has read the file, and by the first tick after the console has slept. Only a command
stops monitors, and it decides which ones from the former configuration and the new one. The
monitors that run are therefore those of the configuration set up last exactly as long as no set
up drops a monitor that it does not stop.
-/

namespace Fly2040.System

open App Leds Runs

/-- The configuration shows the load of the cores. -/
def usesCpu (cfg : CfgSet) : Bool := cfg.rgbMode = some .load && cfg.loadCpu

/-- The configuration shows the load of the graphics processor or a temperature. -/
def usesGen (cfg : CfgSet) : Bool :=
  cfg.rgbMode = some .temperature || (cfg.rgbMode = some .load && cfg.loadGpu)

/-- Setting up a configuration stops the monitor of the cores. -/
def stopsCpu (oldCfg : Option CfgSet) (cfg : CfgSet) : Bool :=
  oldCfg.any fun old =>
    if old.mode ≠ cfg.mode then old.rgbMode = some .load else old.loadCpu && !cfg.loadCpu

/-- Setting up a configuration stops the other monitor. -/
def stopsGen (oldCfg : Option CfgSet) (cfg : CfgSet) : Bool :=
  oldCfg.any fun old =>
    if old.mode ≠ cfg.mode then
      (old.rgbMode = some .load && old.loadGpu && cfg.rgbMode ≠ some .temperature) ||
        (old.rgbMode = some .temperature && cfg.rgbMode ≠ some .load && !cfg.loadGpu)
    else old.loadGpu && !cfg.loadGpu

/-- Exactly the monitors of a configuration run, and none if there is no configuration. -/
structure MonitorsOf (cfg : Option CfgSet) (sys : Sys) : Prop where
  /-- The monitor of the cores. -/
  cpu : sys.cpuMon.running = cfg.any usesCpu
  /-- The other monitor. -/
  gen : sys.genMon.running = cfg.any usesGen

/-- The configuration set up last, if the console has not fallen asleep since. -/
def shown (codec : Codec) (cfg : Option CfgSet) (sys : Sys) : Turn → Option CfgSet
  | (_, .setConfigValues new) => some new
  | (env, .tick) =>
    if (sys.looked codec env).cfgState = .init then some (sys.looked codec env).config.config
    else cfg
  | (_, .power state) => if state.asksSleep && !sys.sleeping then none else cfg
  | _ => cfg

/-- A set up stops the monitors that it drops. -/
structure StopsDropped (shown oldCfg : Option CfgSet) (cfg : CfgSet) : Prop where
  /-- The monitor of the cores. -/
  cpu : shown.any usesCpu = true → usesCpu cfg = true ∨ stopsCpu oldCfg cfg = true
  /-- The other monitor. -/
  gen : shown.any usesGen = true → usesGen cfg = true ∨ stopsGen oldCfg cfg = true

/-- A turn that sets up stops the monitors that it drops. -/
def DropsStopped (codec : Codec) (state : Sys × Option CfgSet) : Turn → Prop
  | (_, .setConfigValues cfg) => StopsDropped state.2 (some state.1.config.config) cfg
  | (env, .tick) => (state.1.looked codec env).cfgState = .init →
      StopsDropped state.2 none (state.1.looked codec env).config.config
  | _ => True

section Setup

variable {codec : Codec} {env : SysEnv} {sys : Sys} {cfg : CfgSet}

/-- Which monitors stopping the former configuration leaves. -/
theorem stopMode_monitors (old : CfgSet) (sys : Sys) :
    (sys.stopMode old).cpuMon.running =
        (sys.cpuMon.running && !stopsCpu (some old) sys.config.config) ∧
      (sys.stopMode old).genMon.running =
        (sys.genMon.running && !stopsGen (some old) sys.config.config) := by
  have changed : ∀ running old new : Bool,
      (if (decide (old ≠ new) && !new) = true then false else running) =
        (running && !(old && !new)) := by decide
  unfold Sys.stopMode stopsCpu stopsGen
  by_cases mode : old.mode = sys.config.config.mode
  · rw [if_neg (not_not_intro mode)]
    simp only [apply_ite Sys.cpuMon, apply_ite CpuMon.running, apply_ite Sys.genMon,
      apply_ite GenMon.running, CpuMon.stop, GenMon.stop, ite_self, changed, Option.any_some, mode,
      ne_eq, not_true_eq_false, if_false]
    exact ⟨trivial, trivial⟩
  · rw [if_pos mode]
    cases former : old.rgbMode with
    | none => simp [former, mode]
    | some rgbMode =>
      cases rgbMode <;>
        simp [former, mode, apply_ite Sys.cpuMon, apply_ite Sys.genMon, apply_ite GenMon.running,
          CpuMon.stop, GenMon.stop, Bool.and_comm]

/-- Which monitors run after those of the configuration have been started. -/
theorem startMode_monitors (sys : Sys) :
    (sys.startMode).cpuMon.running = (sys.cpuMon.running || usesCpu sys.config.config) ∧
      (sys.startMode).genMon.running = (sys.genMon.running || usesGen sys.config.config) := by
  unfold Sys.startMode usesCpu usesGen
  cases mode : sys.config.config.rgbMode with
  | none => simp [mode]
  | some rgbMode =>
    cases rgbMode with
    | load =>
      simp [mode, apply_ite Sys.cpuMon, apply_ite CpuMon.running, apply_ite Sys.genMon,
        apply_ite GenMon.running, CpuMon.start, GenMon.start, GenMon.setMode, Bool.or_comm]
    | temperature => simp [mode, GenMon.start, GenMon.setMode]
    | _ => simp [mode]

/-- Which monitors run after a set up. -/
theorem setup_monitors (oldCfg : Option CfgSet) (sys : Sys) :
    (sys.setup oldCfg).cpuMon.running = (sys.cpuMon.running &&
        !stopsCpu oldCfg sys.config.config || usesCpu sys.config.config) ∧
      (sys.setup oldCfg).genMon.running = (sys.genMon.running &&
        !stopsGen oldCfg sys.config.config || usesGen sys.config.config) := by
  cases oldCfg with
  | none =>
    have started := startMode_monitors { sys with reg := Sys.setupReg sys.config.config sys.reg }
    simpa [Sys.setup, stopsCpu, stopsGen] using started
  | some old =>
    obtain ⟨cpuMon, genMon, stopped⟩ := Sys.stopMode_frame old sys
    have left := stopMode_monitors old sys
    simp only [stopped] at left
    have started := startMode_monitors { sys.stopMode old with
      reg := Sys.setupReg sys.config.config sys.reg }
    rw [stopped] at started
    rw [← left.1, ← left.2]
    simpa [Sys.setup, stopped] using started

/-- A set up leaves exactly the monitors of the configuration running if it stops those that it
drops. -/
theorem setup_monitorsOf {shown : Option CfgSet} (before : MonitorsOf shown sys)
    (oldCfg : Option CfgSet) : MonitorsOf (some sys.config.config) (sys.setup oldCfg) ↔
      StopsDropped shown oldCfg sys.config.config := by
  obtain ⟨cpu, gen⟩ := setup_monitors oldCfg sys
  have one : ∀ running stops uses : Bool, (running && !stops || uses) = uses ↔
      (running = true → uses = true ∨ stops = true) := by decide
  constructor
  · intro after
    have cpu' := after.cpu
    have gen' := after.gen
    rw [cpu, before.cpu, Option.any_some] at cpu'
    rw [gen, before.gen, Option.any_some] at gen'
    exact ⟨(one _ _ _).mp cpu', (one _ _ _).mp gen'⟩
  · intro stops
    constructor
    · rw [cpu, before.cpu, Option.any_some]
      exact (one _ _ _).mpr stops.cpu
    · rw [gen, before.gen, Option.any_some]
      exact (one _ _ _).mpr stops.gen

/-- Other monitors than those of the configuration in memory, if it was the one set up last, are
left running by a command only where it turns the temperature mode into a load mode without the
graphics processor, or into another mode with the graphics processor. -/
theorem stopsDropped_iff (old new : CfgSet) : StopsDropped (some old) (some old) new ↔
    ¬ (old.rgbMode = some .temperature ∧ new.mode ≠ old.mode ∧
      (new.rgbMode = some .load ↔ new.loadGpu = false)) := by
  by_cases mode : old.mode = new.mode
  · have same : old.rgbMode = new.rgbMode := by rw [CfgSet.rgbMode, mode, CfgSet.rgbMode]
    refine iff_of_true ⟨fun cpu => ?_, fun gen => ?_⟩ fun never => never.2.1 mode.symm
    · simp only [Option.any_some, usesCpu, stopsCpu, mode, same] at cpu ⊢
      cases new.loadCpu <;> simp_all
    · simp only [Option.any_some, usesGen, stopsGen, mode, same, Bool.or_eq_true,
        Bool.and_eq_true, decide_eq_true_eq] at gen ⊢
      cases now : new.loadGpu with
      | false => exact gen.elim (fun now => .inl (.inl now)) fun load => .inr (by simp [load.2])
      | true => exact .inl (gen.imp_right fun load => ⟨load.1, rfl⟩)
  · have other : old.rgbMode = some .temperature → new.rgbMode ≠ some .temperature := by
      intro former now
      have numbers := (RgbMode.ofNumber_eq_some former).trans (RgbMode.ofNumber_eq_some now).symm
      exact mode (UInt32.toNat_inj.mp numbers)
    constructor
    · intro stops after
      obtain ⟨former, -, leak⟩ := after
      have gen := stops.gen (by simp [usesGen, former])
      simp only [usesGen, stopsGen, Option.any_some, former, other former] at gen
      cases gpu : new.loadGpu <;> simp_all
    · intro clean
      constructor
      · intro cpu
        simp only [Option.any_some, usesCpu] at cpu
        simp_all [stopsCpu]
      · intro gen
        simp only [Option.any_some, usesGen] at gen
        cases former : old.rgbMode with
        | none => simp [former] at gen
        | some rgbMode =>
          cases rgbMode with
          | load =>
            simp only [usesGen, stopsGen]
            by_cases now : new.rgbMode = some .temperature <;> simp_all
          | temperature =>
            have now := other former
            simp only [usesGen, stopsGen]
            cases gpu : new.loadGpu <;> by_cases load : new.rgbMode = some .load <;> simp_all
          | _ => simp [former] at gen

end Setup

section Turns

variable {codec : Codec} {env : SysEnv} {sys later : Sys} {cfg : Option CfgSet}

/-- What keeps the monitors keeps which of them run. -/
theorem MonitorsOf.keep (monitors : MonitorsOf cfg sys) (cpu : later.cpuMon = sys.cpuMon)
    (gen : later.genMon = sys.genMon) : MonitorsOf cfg later :=
  ⟨cpu ▸ monitors.cpu, gen ▸ monitors.gen⟩

/-- Until a tick decides, it leaves the monitors. -/
theorem MonitorsOf.looked (monitors : MonitorsOf cfg sys) (codec : Codec) (env : SysEnv) :
    MonitorsOf cfg (sys.looked codec env) := by
  obtain ⟨config, file, state, same⟩ := Sys.looked_frame codec env sys
  exact monitors.keep (by rw [same]) (by rw [same])

/-- Sending leaves the monitors. -/
theorem MonitorsOf.send (monitors : MonitorsOf cfg sys) (env : SysEnv) :
    MonitorsOf cfg (sys.send env).1 := by
  obtain ⟨state, sendState, reg, same⟩ := Sys.send_frame env sys
  exact monitors.keep (by rw [same]) (by rw [same])

/-- A tick that does not set up leaves the monitors. -/
theorem MonitorsOf.tick (monitors : MonitorsOf cfg sys)
    (other : (sys.looked codec env).cfgState ≠ .init) :
    MonitorsOf cfg (sys.tick codec env).1 := by
  rw [Sys.tick_eq, if_neg other]
  split
  · exact monitors.looked codec env
  · exact (monitors.looked codec env).send env

/-- Falling asleep stops all monitors, and the other requests leave them. -/
theorem MonitorsOf.power (monitors : MonitorsOf cfg sys) (env : SysEnv) (state : Sys.PmState) :
    MonitorsOf (shown codec cfg sys (env, .power state)) (sys.power env state).1 := by
  cases asleep : sys.sleeping with
  | true =>
    have kept : shown codec cfg sys (env, .power state) = cfg := by simp [shown, asleep]
    rw [kept, Sys.power_of_asleep env sys asleep]
    split <;> exact monitors.keep rfl rfl
  | false =>
    have after : shown codec cfg sys (env, .power state) =
        if state.asksSleep then none else cfg := by simp [shown, asleep]
    rw [after, Sys.power_of_awake env sys asleep]
    split
    · exact ⟨rfl, rfl⟩
    · exact monitors

/-- A turn from a state in which exactly the monitors of the configuration set up last run leads
to such a state exactly if it stops the monitors that it drops. -/
theorem next_monitorsOf {codec : Codec} (monitors : MonitorsOf cfg sys) (turn : Turn) :
    MonitorsOf (shown codec cfg sys turn) (sys.next codec turn) ↔
      DropsStopped codec (sys, cfg) turn := by
  obtain ⟨env, event⟩ := turn
  cases event with
  | setConfigValues new =>
    have before : MonitorsOf cfg { sys with
        config.config := new
        cfgChanged := sys.cfgChanged || new ≠ sys.config.config } := ⟨monitors.cpu, monitors.gen⟩
    have set := congrArg Prod.fst (Sys.setConfigValues_setup codec env sys new)
    rw [Sys.next, Sys.step, set]
    exact setup_monitorsOf before (some sys.config.config)
  | sendI2c bytes => exact iff_of_true monitors trivial
  | tick =>
    by_cases set : (sys.looked codec env).cfgState = .init
    · have now : (sys.next codec (env, .tick)) = (sys.looked codec env).setup none := by
        rw [Sys.next, Sys.step, Sys.tick_eq, if_pos set]
      rw [now, shown, if_pos set, setup_monitorsOf (monitors.looked codec env)]
      exact ⟨fun stops _ => stops, fun stops => stops set⟩
    · refine iff_of_true ?_ fun never => absurd never set
      rw [shown, if_neg set]
      exact monitors.tick set
  | power state => exact iff_of_true (monitors.power env state) trivial
  | edit file => exact iff_of_true ⟨monitors.cpu, monitors.gen⟩ trivial

end Turns

/-- A set up of an awake console leaves exactly the monitors of its configuration running. -/
def SetUpMeasures (codec : Codec) (state : Sys × Option CfgSet) (turn : Turn) : Prop :=
  state.1.SetsUp codec turn → state.1.sleeping = false →
    MonitorsOf (some (state.1.next codec turn).config.config) (state.1.next codec turn)

/-- The configuration set up last is the one in memory. -/
theorem shown_of_setsUp {codec : Codec} {sys : Sys} {turn : Turn} (set : sys.SetsUp codec turn)
    (cfg : Option CfgSet) :
    shown codec cfg sys turn = some (sys.next codec turn).config.config := by
  obtain ⟨env, event⟩ := turn
  cases event with
  | setConfigValues new =>
    obtain ⟨cpuMon, genMon, same⟩ := Sys.setConfigValues_eq codec env new sys
    rw [Sys.next, Sys.step, same, shown]
  | tick =>
    have set : (sys.looked codec env).cfgState = .init := set
    obtain ⟨cpuMon, genMon, same⟩ := Sys.setup_eq none (sys.looked codec env)
    rw [Sys.next, Sys.step, Sys.tick_eq, if_pos set, same, shown, if_pos set]
  | sendI2c bytes => exact set.elim
  | power state => exact set.elim
  | edit file => exact set.elim

/-- Exactly the monitors of the configuration set up last run throughout a run, exactly if every
set up stops the monitors that it drops; and then every set up of an awake console leaves exactly
the monitors of its configuration running. -/
theorem monitors_follow_configuration (codec : Codec) (file : Option ConfigFile)
    (turns : List Turn) :
    (Always (watched (Sys.next codec) (shown codec)) (fun state => MonitorsOf state.2 state.1)
        (Sys.init file, none) turns ↔
      EachStep (watched (Sys.next codec) (shown codec)) (DropsStopped codec)
        (Sys.init file, none) turns) ∧
    (EachStep (watched (Sys.next codec) (shown codec)) (DropsStopped codec)
        (Sys.init file, none) turns →
      EachStep (watched (Sys.next codec) (shown codec)) (SetUpMeasures codec)
        (Sys.init file, none) turns) := by
  have exactly : Always (watched (Sys.next codec) (shown codec))
      (fun state => MonitorsOf state.2 state.1) (Sys.init file, none) turns ↔
      EachStep (watched (Sys.next codec) (shown codec)) (DropsStopped codec)
        (Sys.init file, none) turns :=
    always_iff_eachStep_of_good (fun _ turn monitors => next_monitorsOf monitors turn) ⟨rfl, rfl⟩
  refine ⟨exactly, fun stops => (exactly.mpr stops).steps.mono ?_⟩
  intro state turn monitors set _
  have later := monitors.2
  rw [watched, shown_of_setsUp set state.2] at later
  exact later

/-- Temperature, and then a pulse with the flag of the graphics processor set. -/
def temperatureThenPulse : List Turn :=
  [(calmEnv, .setConfigValues { mode := 5 }),
    (calmEnv, .setConfigValues { mode := 1, loadGpu := true })]

/-- The monitor of the temperature goes on. -/
theorem temperature_monitor_goes_on :
    ¬ EachStep (watched (Sys.next plainCodec) (shown plainCodec)) (SetUpMeasures plainCodec)
      (Sys.init none, none) temperatureThenPulse := by
  intro each
  have measures := each.2.1 trivial rfl
  exact absurd measures.gen (by decide)

end Fly2040.System
