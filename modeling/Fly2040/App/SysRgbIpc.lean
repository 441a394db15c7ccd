import Fly2040.App.Config
import Fly2040.App.Monitors
/-!
# System module

The system module of the console keeps a copy of the registers of the LED device. A new
configuration is first brought into the copy; the next tick sends all registers, and each tick
after it the scale if that has changed. Ticks also write the configuration file once a command
has changed the configuration, and look at the file. Sleep turns the device off, and nothing but
that is sent until the console wakes.
-/

namespace Fly2040.App

open Bytes Leds

/-- What is to be done about the registers. -/
inductive I2CConfigState where
  /-- Nothing yet. -/
  | none
  /-- Bring the configuration into the copy. -/
  | init
  /-- Send all registers. -/
  | update
  /-- Send the scale when it changes. -/
  | refresh
deriving DecidableEq

/-- Which register is sent next. -/
inductive I2CSendState where
  /-- None has been sent. -/
  | none
  /-- Number of pixels. -/
  | numPixels
  /-- Brightness. -/
  | brightness
  /-- Scale. -/
  | scale
  /-- Speed. -/
  | speed
  /-- Hue. -/
  | hue
  /-- Mode. -/
  | mode
  /-- All have been sent. -/
  | done
deriving DecidableEq

/-- Position in the order of sending. -/
def I2CSendState.number : I2CSendState → Nat
  | none => 0
  | numPixels => 1
  | brightness => 2
  | scale => 3
  | speed => 4
  | hue => 5
  | mode => 6
  | done => 7

/-- State of the system module, and the configuration file. -/
structure Sys where
  /-- What is to be done about the registers. -/
  cfgState : I2CConfigState
  /-- Which register is sent next. -/
  sendState : I2CSendState
  /-- A command has changed the configuration since it was written. -/
  cfgChanged : Bool
  /-- The console sleeps. -/
  sleeping : Bool
  /-- Copy of the registers. -/
  reg : RgbState
  /-- Configuration in memory. -/
  config : ConfigImpl
  /-- Monitor of the cores. -/
  cpuMon : CpuMon
  /-- The other monitor. -/
  genMon : GenMon
  /-- Milliseconds between two ticks, while the timer runs. -/
  timer : Option UInt32
  /-- The configuration file. -/
  file : Option ConfigFile

/-- What the surroundings do in a call. -/
structure SysEnv where
  /-- Nanoseconds since the start. -/
  clock : UInt64
  /-- The file system when the file is looked at. -/
  files : FileEnv
  /-- The file system when the file is written. -/
  saves : FileEnv
  /-- What the threads of the monitors have stored. -/
  measured : Measured
  /-- A session with the device is opened. -/
  opens : Bool
  /-- Whether each transfer of the call is acknowledged. -/
  sends : Nat → Bool

/-- A transfer to the device. -/
structure Transmission where
  /-- Address and data. -/
  bytes : List UInt8
  /-- The device has acknowledged it. -/
  sent : Bool

namespace Sys

/-- The system module at the start. -/
def init (file : Option ConfigFile) : Sys where
  cfgState := .none
  sendState := .none
  cfgChanged := false
  sleeping := false
  reg :=
    { mode := 0
      numPixels := 9
      brightness := f2u32 1
      scale := f2u32 1
      speed := f2u32 5000
      hue := f2u32 0 }
  config := .init
  cpuMon := ⟨false⟩
  genMon := ⟨false, .gpu⟩
  timer := some 200
  file := file

/-- Transfer of a register. -/
def sendI2C (reg : RgbState) (field : Field) (sent : Bool) : Transmission :=
  ⟨UInt8.ofNat field.offset :: readBytes (pack reg) field.offset field.size, sent⟩

/-- Stop the monitors that the former configuration used. -/
def stopMode (oldCfg : CfgSet) (sys : Sys) : Sys :=
  let cfg := sys.config.config
  if oldCfg.mode ≠ cfg.mode then
    match oldCfg.rgbMode with
    | some .load =>
      let sys := { sys with cpuMon := sys.cpuMon.stop }
      if oldCfg.loadGpu && cfg.rgbMode ≠ some .temperature then
        { sys with genMon := sys.genMon.stop } else sys
    | some .temperature =>
      if cfg.rgbMode ≠ some .load && !cfg.loadGpu then
        { sys with genMon := sys.genMon.stop } else sys
    | _ => sys
  else
    let sys := if oldCfg.loadGpu ≠ cfg.loadGpu && !cfg.loadGpu then
      { sys with genMon := sys.genMon.stop } else sys
    if oldCfg.loadCpu ≠ cfg.loadCpu && !cfg.loadCpu then
      { sys with cpuMon := sys.cpuMon.stop } else sys

/-- Registers of a configuration. -/
def setupReg (cfg : CfgSet) (reg : RgbState) : RgbState :=
  let reg := { reg with mode := cfg.mode.toUInt8, numPixels := cfg.numPixels.toUInt8 }
  match cfg.rgbMode with
  | some .pulse => { reg with
    hue := f2u32 cfg.pulse.hue
    speed := f2u32 cfg.pulse.speed
    brightness := f2u32 cfg.pulse.brightness }
  | some .cycle => { reg with
    speed := f2u32 cfg.cycle.speed
    brightness := f2u32 cfg.cycle.brightness }
  | some .rainbow => { reg with
    speed := f2u32 cfg.rainbow.speed
    brightness := f2u32 cfg.rainbow.brightness }
  | some .load => { reg with brightness := f2u32 cfg.load.brightness }
  | some .temperature => { reg with brightness := f2u32 cfg.temperature.brightness }
  | some .off | none => reg

/-- Start the monitors that the configuration uses. -/
def startMode (sys : Sys) : Sys :=
  let cfg := sys.config.config
  match cfg.rgbMode with
  | some .load =>
    let sys := if cfg.loadGpu then
      { sys with genMon := (sys.genMon.setMode .gpu).start } else sys
    if cfg.loadCpu then { sys with cpuMon := sys.cpuMon.start } else sys
  | some .temperature => { sys with genMon := (sys.genMon.setMode .socTemperature).start }
  | _ => sys

/-- Bring the configuration into the copy of the registers. -/
def setup (oldCfg : Option CfgSet) (sys : Sys) : Sys :=
  let sys := match oldCfg with
    | some oldCfg => sys.stopMode oldCfg
    | none => sys
  let sys := startMode { sys with reg := setupReg sys.config.config sys.reg }
  { sys with cfgState := .update, sendState := .none }

/-- What the scale shows, if the configuration measures anything. -/
def scaleOf (measured : Measured) (sys : Sys) : Option ℚ :=
  let cfg := sys.config.config
  match cfg.rgbMode with
  | some .load =>
    if cfg.loadCpu && cfg.loadGpu then
      some ((CpuMon.get measured (-1) + sys.genMon.get measured) / 2)
    else if cfg.loadGpu then some (sys.genMon.get measured)
    else if cfg.loadCpu then some (CpuMon.get measured (-1))
    else none
  | some .temperature => some (sys.genMon.get measured)
  | _ => none

/-- Scale of the registers after a refresh, if it is to be sent. -/
def refreshScale (measured : Measured) (sys : Sys) : Option UInt32 :=
  match sys.config.config.rgbMode, sys.scaleOf measured with
  | some .load, some val => if val ≠ sys.reg.scale.toNat then some (f2u32 val) else none
  | some .load, none => if sys.reg.scale ≠ 0 then some 0 else none
  | some .temperature, some val => if val ≠ sys.reg.scale.toNat then some (toU32 val) else none
  | _, _ => none

/-- Send the next register. -/
def sendNext (env : SysEnv) (sys : Sys) (sent : List Transmission) : Sys × List Transmission :=
  let send (field : Field) : List Transmission :=
    sent ++ [sendI2C sys.reg field (env.sends sent.length)]
  match sys.sendState with
  | .none => ({ sys with sendState := .numPixels }, sent)
  | .numPixels => ({ sys with sendState := .brightness }, send .numPixels)
  | .brightness => ({ sys with sendState := .scale }, send .brightness)
  | .scale => ({ sys with sendState := .speed }, send .scale)
  | .speed => ({ sys with sendState := .hue }, send .speed)
  | .hue => ({ sys with sendState := .mode }, send .hue)
  | .mode => ({ sys with sendState := .done, cfgState := .refresh }, send .mode)
  | .done => ({ sys with cfgState := .refresh }, sent)

/-- The order of sending goes on. -/
theorem sendNext_number (env : SysEnv) {sys : Sys} (sent : List Transmission)
    (more : sys.sendState ≠ .done) :
    (sendNext env sys sent).1.sendState.number = sys.sendState.number + 1 := by
  unfold sendNext
  cases state : sys.sendState with
  | done => exact absurd state more
  | _ => rfl

/-- Send registers until all have been sent. -/
def sendAll (env : SysEnv) (sys : Sys) (sent : List Transmission) : Sys × List Transmission :=
  if sys.sendState = .done then (sys, sent)
  else sendAll env (sendNext env sys sent).1 (sendNext env sys sent).2
termination_by 7 - sys.sendState.number
decreasing_by
  rename_i more
  have next := sendNext_number env sent more
  have bound : sys.sendState.number < 7 := by
    cases state : sys.sendState with
    | done => exact absurd state more
    | _ => decide
  omega

/-- Look at the configuration file. -/
def refreshFile (codec : Codec) (env : SysEnv) (sys : Sys) : Sys :=
  match ConfigImpl.refresh codec env.clock env.files sys.file sys.config with
  | (true, config) => { sys with config := config, cfgState := .init }
  | (false, config) => { sys with config := config }

/-- Send what the state asks for. -/
def send (env : SysEnv) (sys : Sys) : Sys × List Transmission :=
  match sys.cfgState with
  | .refresh =>
    match sys.refreshScale env.measured with
    | some scale =>
      let sys := { sys with reg.scale := scale }
      (sys, if env.opens then [sendI2C sys.reg .scale (env.sends 0)] else [])
    | none => (sys, [])
  | .init | .update => if env.opens then sendAll env sys [] else (sys, [])
  | .none => (sys, [])

/-- Handle the configuration, which has changed if a former one is given. -/
def handleConfig (codec : Codec) (env : SysEnv) (oldCfg : Option CfgSet) (sys : Sys) :
    Sys × List Transmission :=
  let sys := match oldCfg with
    | some _ => sys
    | none => sys.refreshFile codec env
  if sys.cfgState = .init ∨ oldCfg.isSome then (sys.setup oldCfg, [])
  else if sys.sleeping then (sys, [])
  else sys.send env

/-- Handle the power state. -/
def handleSleep (env : SysEnv) (sleep : Bool) (sys : Sys) : Sys × List Transmission :=
  if sleep && sys.sleeping != sleep then
    let sys := { sys with
      cfgState := .init
      reg.mode := 0
      genMon := sys.genMon.stop
      cpuMon := sys.cpuMon.stop
      sleeping := sleep }
    (sys, if env.opens then [sendI2C sys.reg .mode (env.sends 0)] else [])
  else ({ sys with sleeping := sleep }, [])

/-- Command that replaces the configuration. -/
def setConfigValues (codec : Codec) (env : SysEnv) (cfg : CfgSet) (sys : Sys) :
    Sys × List Transmission :=
  let curCfg := sys.config.config
  let sys := { sys with
    config.config := cfg
    cfgChanged := sys.cfgChanged || cfg ≠ curCfg }
  sys.handleConfig codec env (some curCfg)

/-- Write the configuration file, if a command has changed the configuration. -/
def saveChanged (codec : Codec) (env : SysEnv) (sys : Sys) : Sys :=
  if sys.cfgChanged then
    let saved := ConfigImpl.saveConfig codec env.saves sys.file sys.config
    { sys with config := saved.1, file := saved.2, cfgChanged := false }
  else sys

/-- A tick of the timer. -/
def tick (codec : Codec) (env : SysEnv) (sys : Sys) : Sys × List Transmission :=
  (sys.saveChanged codec env).handleConfig codec env none

/-- Power states of the console that the system module tells apart. -/
inductive PmState where
  /-- Awake. -/
  | fullAwake
  /-- About to sleep. -/
  | sleepReady
  /-- About to shut down. -/
  | shutdownReady
  /-- Any other. -/
  | other

/-- A request of the power manager. -/
def power (env : SysEnv) (state : PmState) (sys : Sys) : Sys × List Transmission :=
  match state with
  | .fullAwake =>
    if sys.sleeping then
      let woken := sys.handleSleep env false
      ({ woken.1 with timer := some woken.1.config.config.updateMs }, woken.2)
    else (sys, [])
  | .sleepReady | .shutdownReady =>
    if !sys.sleeping then
      let asleep := sys.handleSleep env true
      ({ asleep.1 with timer := none }, asleep.2)
    else (sys, [])
  | .other => (sys, [])

/-- Command that sends bytes to the device. -/
def sendI2c (env : SysEnv) (bytes : List UInt8) (sys : Sys) : Sys × List Transmission :=
  (sys, if env.opens then [⟨bytes, env.sends 0⟩] else [])

end Sys

/-- What the system module waits for. -/
inductive SysEvent where
  /-- Command that replaces the configuration. -/
  | setConfigValues (cfg : CfgSet)
  /-- Command that sends bytes to the device. -/
  | sendI2c (bytes : List UInt8)
  /-- Tick of the timer. -/
  | tick
  /-- Request of the power manager. -/
  | power (state : Sys.PmState)
  /-- Somebody else changes the configuration file. -/
  | edit (file : Option ConfigFile)

/-- One turn of the server loop. -/
def Sys.step (codec : Codec) (env : SysEnv) (sys : Sys) : SysEvent → Sys × List Transmission
  | .setConfigValues cfg => sys.setConfigValues codec env cfg
  | .sendI2c bytes => sys.sendI2c env bytes
  | .tick => sys.tick codec env
  | .power state => sys.power env state
  | .edit file => ({ sys with file := file }, [])

/-- Order in which all registers are sent. -/
def sendOrder : List Field := [.numPixels, .brightness, .scale, .speed, .hue, .mode]

/-- Every register is sent. -/
theorem mem_sendOrder (field : Field) : field ∈ sendOrder := by
  cases field <;> decide

/-- Registers that show a configuration. -/
structure Matches (reg : RgbState) (cfg : CfgSet) : Prop where
  /-- The mode. -/
  mode : reg.mode.toNat = cfg.mode.toNat % 256
  /-- The number of pixels. -/
  numPixels : reg.numPixels.toNat = cfg.numPixels.toNat % 256
  /-- The brightness, if the mode has one. -/
  brightness : ∀ value, cfg.brightness = some value → reg.brightness = f2u32 value
  /-- The speed, if the mode has one. -/
  speed : ∀ value, cfg.speed = some value → reg.speed = f2u32 value
  /-- The colour, if the mode has one. -/
  hue : ∀ value, cfg.hue = some value → reg.hue = f2u32 value

/-- The scale is not configured. -/
theorem Matches.scale {reg : RgbState} {cfg : CfgSet} (matched : Matches reg cfg) (scale : UInt32) :
    Matches { reg with scale := scale } cfg := { matched with }

namespace Sys

variable {sys : Sys} {env : SysEnv} {codec : Codec}

/-- The registers of a configuration show it. -/
theorem setupReg_matches (cfg : CfgSet) (reg : RgbState) : Matches (setupReg cfg reg) cfg := by
  unfold setupReg
  cases mode : cfg.rgbMode with
  | none =>
    constructor <;> simp [CfgSet.brightness, CfgSet.speed, CfgSet.hue, mode]
  | some rgbMode =>
    cases rgbMode <;> constructor <;>
      simp [CfgSet.brightness, CfgSet.speed, CfgSet.hue, mode]

/-- Stopping monitors changes nothing else. -/
theorem stopMode_frame (oldCfg : CfgSet) (sys : Sys) :
    ∃ cpuMon genMon, sys.stopMode oldCfg = { sys with cpuMon := cpuMon, genMon := genMon } := by
  unfold stopMode
  simp only []
  split
  · split
    · split <;> exact ⟨_, _, rfl⟩
    · split <;> exact ⟨_, _, rfl⟩
    · exact ⟨_, _, rfl⟩
  · split <;> split <;> exact ⟨_, _, rfl⟩

/-- Starting monitors changes nothing else. -/
theorem startMode_frame (sys : Sys) :
    ∃ cpuMon genMon, sys.startMode = { sys with cpuMon := cpuMon, genMon := genMon } := by
  unfold startMode
  simp only []
  split
  · split <;> split <;> exact ⟨_, _, rfl⟩
  · exact ⟨_, _, rfl⟩
  · exact ⟨_, _, rfl⟩

/-- All registers are sent in order. -/
theorem sendAll_none (state : sys.sendState = .none) :
    sendAll env sys [] = ({ sys with sendState := .done, cfgState := .refresh },
      sendOrder.zipIdx.map fun next => sendI2C sys.reg next.1 (env.sends next.2)) := by
  have step : ∀ (sys : Sys) (sent : List Transmission), sys.sendState ≠ .done →
      sendAll env sys sent = sendAll env (sendNext env sys sent).1 (sendNext env sys sent).2 := by
    intro sys sent more
    rw [sendAll, if_neg more]
  rw [step sys [] (by simp [state])]
  simp only [sendNext, state]
  iterate 6
    rw [step _ _ (by simp)]
    simp only [sendNext]
  rw [sendAll, if_pos rfl]
  rfl

/-- Setting up brings the configuration into the registers, which are to be sent. -/
theorem setup_eq (oldCfg : Option CfgSet) (sys : Sys) :
    ∃ cpuMon genMon, sys.setup oldCfg = { sys with
      cpuMon := cpuMon
      genMon := genMon
      reg := setupReg sys.config.config sys.reg
      cfgState := .update
      sendState := .none } := by
  have stopped : ∃ cpuMon genMon, (match oldCfg with
      | some oldCfg => sys.stopMode oldCfg
      | none => sys) = { sys with cpuMon := cpuMon, genMon := genMon } := by
    cases oldCfg with
    | none => exact ⟨_, _, rfl⟩
    | some oldCfg => exact stopMode_frame oldCfg sys
  obtain ⟨cpuMon, genMon, stopped⟩ := stopped
  obtain ⟨cpuMon', genMon', started⟩ := startMode_frame { sys with
    cpuMon := cpuMon, genMon := genMon, reg := setupReg sys.config.config sys.reg }
  refine ⟨cpuMon', genMon', ?_⟩
  unfold setup
  rw [stopped]
  simp only [started]

/-- A new configuration is brought into the registers. -/
theorem setConfigValues_eq (codec : Codec) (env : SysEnv) (cfg : CfgSet) (sys : Sys) :
    ∃ cpuMon genMon, sys.setConfigValues codec env cfg = ({ sys with
      cpuMon := cpuMon
      genMon := genMon
      reg := setupReg cfg sys.reg
      cfgState := .update
      sendState := .none
      config.config := cfg
      cfgChanged := sys.cfgChanged || cfg ≠ sys.config.config }, []) := by
  rw [setConfigValues, handleConfig, if_pos (.inr rfl)]
  obtain ⟨cpuMon, genMon, set⟩ := setup_eq (some sys.config.config) { sys with
    config.config := cfg, cfgChanged := sys.cfgChanged || cfg ≠ sys.config.config }
  exact ⟨cpuMon, genMon, by rw [set]⟩

/-- A request of the power manager does nothing, wakes the console, or puts it to sleep. -/
theorem power_cases (env : SysEnv) (state : PmState) (sys : Sys) :
    sys.power env state = (sys, []) ∨
    (∃ timer, sys.power env state = ({ sys with sleeping := false, timer := timer }, [])) ∨
    ∃ cpuMon genMon, sys.power env state = ({ sys with
      cpuMon := cpuMon
      genMon := genMon
      cfgState := .init
      reg.mode := 0
      sleeping := true
      timer := none },
        if env.opens then [sendI2C { sys.reg with mode := 0 } .mode (env.sends 0)] else []) := by
  have wake : sys.sleeping = true → ∃ timer,
      sys.power env .fullAwake = ({ sys with sleeping := false, timer := timer }, []) := by
    intro asleep
    exact ⟨some sys.config.config.updateMs, by simp [power, handleSleep, asleep]⟩
  have sleep : ∀ state, state = .sleepReady ∨ state = .shutdownReady → sys.sleeping = false →
      ∃ cpuMon genMon, sys.power env state = ({ sys with
        cpuMon := cpuMon
        genMon := genMon
        cfgState := .init
        reg.mode := 0
        sleeping := true
        timer := none },
          if env.opens then [sendI2C { sys.reg with mode := 0 } .mode (env.sends 0)] else []) := by
    intro state ready awake
    rcases ready with rfl | rfl <;>
      exact ⟨sys.cpuMon.stop, sys.genMon.stop, by simp [power, handleSleep, awake]⟩
  cases asleep : sys.sleeping with
  | true =>
    cases state with
    | fullAwake => exact .inr (.inl (wake asleep))
    | _ => exact .inl (by simp [power, asleep])
  | false =>
    cases state with
    | sleepReady => exact .inr (.inr (sleep _ (.inl rfl) asleep))
    | shutdownReady => exact .inr (.inr (sleep _ (.inr rfl) asleep))
    | _ => exact .inl (by simp [power, asleep])

/-- Sending the scale changes nothing else. -/
theorem send_refresh (env : SysEnv) (state : sys.cfgState = .refresh) :
    sys.send env = (sys, []) ∨ ∃ scale, sys.send env = ({ sys with reg.scale := scale },
      if env.opens then [sendI2C { sys.reg with scale := scale } .scale (env.sends 0)] else []) := by
  rw [send]
  simp only [state]
  cases sys.refreshScale env.measured with
  | none => exact .inl rfl
  | some scale => exact .inr ⟨scale, rfl⟩

/-- All registers are sent. -/
theorem send_update (env : SysEnv) (state : sys.cfgState = .update)
    (start : sys.sendState = .none) (opens : env.opens = true) :
    sys.send env = ({ sys with sendState := .done, cfgState := .refresh },
      sendOrder.zipIdx.map fun next => sendI2C sys.reg next.1 (env.sends next.2)) := by
  rw [send]
  simp only [state, opens, if_true]
  exact sendAll_none start

/-- Writing the file, if that succeeds, keeps the configuration and leaves it loaded. -/
theorem saveChanged_cases (saves : sys.cfgChanged = true →
      (ConfigImpl.save codec env.saves sys.config.config sys.file).1 = true)
    (stamps : env.saves.stamps = true) :
    (sys.cfgChanged = false ∧ sys.saveChanged codec env = sys) ∨
      ∃ config file, sys.saveChanged codec env =
          { sys with config := config, file := file, cfgChanged := false } ∧
        config.config = sys.config.config ∧ config.loaded = true ∧ config.Current file := by
  cases changed : sys.cfgChanged with
  | false => exact .inl ⟨rfl, by simp [saveChanged, changed]⟩
  | true =>
    obtain ⟨same, loaded, current⟩ := ConfigImpl.saveConfig_saved (saves changed) stamps
    exact .inr ⟨_, _, by simp [saveChanged, changed], same, loaded, current⟩

/-- Looking at the file asks for setting up if it has been read, and leaves the state otherwise. -/
theorem refreshFile_cases (codec : Codec) (env : SysEnv) (stamps : env.files.stamps = true)
    (sys : Sys) :
    (∃ config, sys.refreshFile codec env = { sys with config := config, cfgState := .init } ∧
        config.Current sys.file) ∨
      (∃ lastCheck, sys.refreshFile codec env =
        { sys with config.lastCheck := lastCheck }) ∨
      ∃ config, sys.refreshFile codec env = { sys with config := config } ∧
        config.loaded = false := by
  rcases ConfigImpl.refresh_cases codec env.clock stamps sys.file sys.config with
    ⟨config, read, current⟩ | ⟨lastCheck, same⟩ | ⟨config, failed, closed⟩
  · exact .inl ⟨config, by rw [refreshFile, read], current⟩
  · exact .inr (.inl ⟨lastCheck, by rw [refreshFile, same]⟩)
  · exact .inr (.inr ⟨config, by rw [refreshFile, failed], closed⟩)

/-- A file that has been loaded and not changed is not read again. -/
theorem refreshFile_loaded (current : sys.config.Current sys.file)
    (loaded : sys.config.loaded = true) (stamps : env.files.stamps = true) (codec : Codec) :
    ∃ lastCheck, sys.refreshFile codec env = { sys with config.lastCheck := lastCheck } := by
  obtain ⟨lastCheck, same⟩ := ConfigImpl.refresh_loaded current loaded stamps codec env.clock
  exact ⟨lastCheck, by rw [refreshFile, same]⟩

end Sys

end Fly2040.App
