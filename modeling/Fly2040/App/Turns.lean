import Fly2040.App.SysRgbIpc
import Fly2040.Lib.Runs
/-!
# Turns of the server loop

A turn handles one event in some surroundings. A tick first writes the file, then looks at it,
and only then decides whether to set up or to send; what it decides on is named here, so that
facts about turns are facts about that state.
-/

namespace Fly2040.App

open Runs

/-- An event, and what the surroundings do while it is handled. -/
abbrev Turn := SysEnv × SysEvent

namespace Sys

/-- The state after a turn. -/
def next (codec : Codec) (sys : Sys) (turn : Turn) : Sys := (sys.step codec turn.1 turn.2).1

/-- What a turn transfers to the device. -/
def transfers (codec : Codec) (sys : Sys) (turn : Turn) : List Transmission :=
  (sys.step codec turn.1 turn.2).2

/-- The state of a tick that has written the file and looked at it. -/
def looked (codec : Codec) (env : SysEnv) (sys : Sys) : Sys :=
  (sys.saveChanged codec env).refreshFile codec env

/-- A turn sets up the mode. -/
def SetsUp (codec : Codec) (sys : Sys) : Turn → Prop
  | (_, .setConfigValues _) => True
  | (env, .tick) => (sys.looked codec env).cfgState = .init
  | _ => False

/-- A request to fall asleep. -/
def PmState.asksSleep : PmState → Bool
  | .sleepReady | .shutdownReady => true
  | .fullAwake | .other => false

/-- A request to wake. -/
def PmState.asksWaking : PmState → Bool
  | .fullAwake => true
  | .sleepReady | .shutdownReady | .other => false

/-- The timer ticks only while it runs. -/
def Possible (sys : Sys) (turn : Turn) : Prop := turn.2 = .tick → sys.timer ≠ none

section Looking

variable (codec : Codec) (env : SysEnv) (sys : Sys)

/-- Writing the file leaves the configuration and all that is not about the file. -/
theorem saveChanged_frame : ∃ config file, sys.saveChanged codec env =
    { sys with config := config, file := file, cfgChanged := false } ∧
      config.config = sys.config.config := by
  unfold saveChanged
  cases changed : sys.cfgChanged with
  | false => exact ⟨sys.config, sys.file, by simp [← changed], rfl⟩
  | true =>
    refine ⟨_, _, rfl, ?_⟩
    unfold ConfigImpl.saveConfig
    split <;> rfl

/-- Looking at the file changes the configuration, and asks for setting up if it has been read. -/
theorem refreshFile_frame : sys.refreshFile codec env = { sys with
    config := (ConfigImpl.refresh codec env.clock env.files sys.file sys.config).2
    cfgState := if (ConfigImpl.refresh codec env.clock env.files sys.file sys.config).1 then .init
      else sys.cfgState } := by
  unfold refreshFile
  rcases ConfigImpl.refresh codec env.clock env.files sys.file sys.config with ⟨read, config⟩
  cases read <;> rfl

/-- Until it decides, a tick changes the configuration, the file, and what is to be done. -/
theorem looked_frame : ∃ config file state, sys.looked codec env =
    { sys with config := config, file := file, cfgChanged := false, cfgState := state } := by
  obtain ⟨config, file, saved, -⟩ := saveChanged_frame codec env sys
  rw [looked, refreshFile_frame, saved]
  exact ⟨_, _, _, rfl⟩

/-- A tick sets up what it has read, and otherwise does what was to be done. -/
theorem looked_cfgState :
    (sys.looked codec env).cfgState = .init ∨ (sys.looked codec env).cfgState = sys.cfgState := by
  obtain ⟨config, file, saved, -⟩ := saveChanged_frame codec env sys
  rw [looked, refreshFile_frame, saved]
  split
  · exact .inl rfl
  · exact .inr rfl

/-- What a tick decides. -/
theorem tick_eq : sys.tick codec env =
    if (sys.looked codec env).cfgState = .init then ((sys.looked codec env).setup none, [])
    else if (sys.looked codec env).sleeping then (sys.looked codec env, [])
    else (sys.looked codec env).send env := by
  rw [tick, handleConfig]
  simp only [Option.isSome_none, Bool.false_eq_true, or_false]
  rfl

/-- What a tick does: it sets up, or does nothing, or sends all registers, or sends the scale. -/
theorem tick_cases :
    ((sys.looked codec env).cfgState = .init ∧
      sys.tick codec env = ((sys.looked codec env).setup none, [])) ∨
    ((sys.looked codec env).cfgState = sys.cfgState ∧ sys.cfgState ≠ .init ∧
      (sys.sleeping = true ∨ sys.cfgState = .none) ∧
      sys.tick codec env = (sys.looked codec env, [])) ∨
    ((sys.looked codec env).cfgState = .update ∧ sys.cfgState = .update ∧ sys.sleeping = false ∧
      sys.tick codec env = if env.opens then sendAll env (sys.looked codec env) []
        else (sys.looked codec env, [])) ∨
    ((sys.looked codec env).cfgState = .refresh ∧ sys.cfgState = .refresh ∧
      sys.sleeping = false ∧ sys.tick codec env = (sys.looked codec env).send env) := by
  have sleeping : (sys.looked codec env).sleeping = sys.sleeping := by
    obtain ⟨config, file, state, same⟩ := looked_frame codec env sys
    rw [same]
  rw [tick_eq, sleeping]
  by_cases set : (sys.looked codec env).cfgState = .init
  · exact .inl ⟨set, if_pos set⟩
  have same := (looked_cfgState codec env sys).resolve_left set
  have other : sys.cfgState ≠ .init := same ▸ set
  rw [if_neg set]
  cases asleep : sys.sleeping with
  | true => exact .inr (.inl ⟨same, other, .inl rfl, if_pos rfl⟩)
  | false =>
    rw [if_neg Bool.false_ne_true]
    cases state : sys.cfgState with
    | init => exact absurd state other
    | none =>
      rw [state] at same
      refine .inr (.inl ⟨same, nofun, .inr rfl, ?_⟩)
      rw [send, same]
    | update =>
      rw [state] at same
      refine .inr (.inr (.inl ⟨same, rfl, rfl, ?_⟩))
      rw [send, same]
    | refresh =>
      rw [state] at same
      exact .inr (.inr (.inr ⟨same, rfl, rfl, rfl⟩))

/-- A command replaces the configuration and sets it up. -/
theorem setConfigValues_setup (cfg : CfgSet) : sys.setConfigValues codec env cfg =
    (({ sys with
      config.config := cfg
      cfgChanged := sys.cfgChanged || cfg ≠ sys.config.config } : Sys).setup
        (some sys.config.config), []) := by
  rw [setConfigValues, handleConfig, if_pos (.inr rfl)]

/-- Sending leaves everything but the copy of the registers and the phase of sending. -/
theorem send_frame : ∃ state sendState reg, (sys.send env).1 =
    { sys with cfgState := state, sendState := sendState, reg := reg } := by
  have all : ∀ (sys : Sys) (sent : List Transmission), ∃ state sendState reg,
      (sendAll env sys sent).1 = { sys with
        cfgState := state, sendState := sendState, reg := reg } := by
    intro sys sent
    induction sys, sent using sendAll.induct env with
    | case1 sys sent done =>
      rw [sendAll, if_pos done]
      exact ⟨_, _, _, rfl⟩
    | case2 sys sent more ih =>
      obtain ⟨state, sendState, reg, same⟩ := ih
      have one : ∃ state sendState, (sendNext env sys sent).1 =
          { sys with cfgState := state, sendState := sendState } := by
        unfold sendNext
        split <;> exact ⟨_, _, rfl⟩
      obtain ⟨state', sendState', one⟩ := one
      rw [sendAll, if_neg more, same, one]
      exact ⟨_, _, _, rfl⟩
  unfold send
  split
  · split <;> exact ⟨_, _, _, rfl⟩
  · split
    · exact all sys []
    · exact ⟨_, _, _, rfl⟩
  · split
    · exact all sys []
    · exact ⟨_, _, _, rfl⟩
  · exact ⟨_, _, _, rfl⟩

/-- What a request does to a console that is awake. -/
theorem power_of_awake (awake : sys.sleeping = false) (state : PmState) :
    sys.power env state = if state.asksSleep then ({ sys with
        cpuMon := sys.cpuMon.stop
        genMon := sys.genMon.stop
        cfgState := .init
        reg.mode := 0
        sleeping := true
        timer := none },
          if env.opens then [sendI2C { sys.reg with mode := 0 } .mode (env.sends 0)] else [])
      else (sys, []) := by
  cases state <;> simp [power, handleSleep, awake, PmState.asksSleep]

/-- What a request does to a console that sleeps. -/
theorem power_of_asleep (asleep : sys.sleeping = true) (state : PmState) :
    sys.power env state = if state.asksWaking then
        ({ sys with sleeping := false, timer := some sys.config.config.updateMs }, [])
      else (sys, []) := by
  cases state <;> simp [power, handleSleep, asleep, PmState.asksWaking]

/-- A request leaves the configuration, and whether it is to be written. -/
theorem power_config (state : PmState) : (sys.power env state).1.config = sys.config ∧
    (sys.power env state).1.cfgChanged = sys.cfgChanged := by
  rcases power_cases env state sys with same | ⟨timer, woken⟩ | ⟨cpuMon, genMon, asleep⟩
  · rw [same]
    exact ⟨rfl, rfl⟩
  · rw [woken]
    exact ⟨rfl, rfl⟩
  · rw [asleep]
    exact ⟨rfl, rfl⟩

end Looking

/-- The same sleep, timer, configuration and file. -/
structure SameSettings (sys later : Sys) : Prop where
  /-- Sleep. -/
  sleeping : later.sleeping = sys.sleeping
  /-- The timer. -/
  timer : later.timer = sys.timer
  /-- The configuration. -/
  config : later.config = sys.config
  /-- The file. -/
  file : later.file = sys.file
  /-- Whether the configuration is to be written. -/
  cfgChanged : later.cfgChanged = sys.cfgChanged

/-- Setting up leaves the settings. -/
theorem setup_settings (oldCfg : Option CfgSet) (sys : Sys) :
    SameSettings sys (sys.setup oldCfg) := by
  obtain ⟨cpuMon, genMon, same⟩ := setup_eq oldCfg sys
  rw [same]
  exact ⟨rfl, rfl, rfl, rfl, rfl⟩

/-- Once a tick has looked at the file, it leaves the settings. -/
theorem tick_settings (codec : Codec) (env : SysEnv) (sys : Sys) :
    SameSettings (sys.looked codec env) (sys.tick codec env).1 := by
  rw [tick_eq]
  split
  · exact setup_settings none _
  · split
    · exact ⟨rfl, rfl, rfl, rfl, rfl⟩
    · obtain ⟨state, sendState, reg, sent⟩ := send_frame env (sys.looked codec env)
      rw [sent]
      exact ⟨rfl, rfl, rfl, rfl, rfl⟩

end Sys

end Fly2040.App
