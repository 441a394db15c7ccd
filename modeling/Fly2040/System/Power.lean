import Fly2040.System.Modes
/-!
# Sleep

While the console sleeps the timer is stopped, so that no tick sets up a mode, and nothing is
transferred to the device. A command is still set up at once, and starts the monitors of its
configuration. The timer keeps the period it was started with, at the start of the loop or when
the console last woke.
-/

namespace Fly2040.System

open App Leds Runs

/-- A command to a sleeping console brings a configuration that measures nothing. -/
def MeasuresNothing (sys : Sys) : Turn → Prop
  | (_, .setConfigValues cfg) => sys.sleeping = true → usesCpu cfg = false ∧ usesGen cfg = false
  | _ => True

/-- Handling the configuration of a sleeping console transfers nothing. -/
def HandlesQuietly (codec : Codec) (sys : Sys) : Turn → Prop
  | (env, .setConfigValues cfg) =>
    sys.sleeping = true → sys.transfers codec (env, .setConfigValues cfg) = []
  | (env, .tick) => sys.sleeping = true → sys.transfers codec (env, .tick) = []
  | _ => True

/-- The update time when the timer was last started. -/
def started (period : UInt32) (sys : Sys) : Turn → UInt32
  | (_, .power state) =>
    if state.asksWaking && sys.sleeping then sys.config.config.updateMs else period
  | _ => period

/-- After a tick of an awake console the timer runs with the update time of the configuration. -/
def TicksOnTime (codec : Codec) (state : Sys × UInt32) : Turn → Prop
  | (env, .tick) => state.1.sleeping = false →
    (state.1.next codec (env, .tick)).timer =
      some (state.1.next codec (env, .tick)).config.config.updateMs
  | _ => True

/-- A tick of an awake console finds the update time with which the timer was started. -/
def KeepsPeriod (codec : Codec) (state : Sys × UInt32) : Turn → Prop
  | (env, .tick) => state.1.sleeping = false →
    (state.1.looked codec env).config.config.updateMs = state.2
  | _ => True

section Turns

variable {codec : Codec} {env : SysEnv} {sys : Sys}

/-- A tick leaves what the power manager changes, and the configuration that it has found. -/
theorem tick_power (codec : Codec) (env : SysEnv) (sys : Sys) :
    (sys.tick codec env).1.sleeping = sys.sleeping ∧ (sys.tick codec env).1.timer = sys.timer ∧
      (sys.tick codec env).1.config = (sys.looked codec env).config := by
  have same := Sys.tick_settings codec env sys
  obtain ⟨config, file, state, looked⟩ := Sys.looked_frame codec env sys
  exact ⟨same.sleeping.trans (by rw [looked]), same.timer.trans (by rw [looked]), same.config⟩

/-- A command leaves what the power manager changes. -/
theorem setConfigValues_power (codec : Codec) (env : SysEnv) (cfg : CfgSet) (sys : Sys) :
    (sys.setConfigValues codec env cfg).1.sleeping = sys.sleeping ∧
      (sys.setConfigValues codec env cfg).1.timer = sys.timer := by
  obtain ⟨cpuMon, genMon, same⟩ := Sys.setConfigValues_eq codec env cfg sys
  rw [same]
  exact ⟨rfl, rfl⟩

/-- The timer runs with the period it was started with, unless the console sleeps. -/
structure TimerOf (period : UInt32) (sys : Sys) : Prop where
  /-- An awake console. -/
  awake : sys.sleeping = false → sys.timer = some period
  /-- A sleeping console. -/
  asleep : sys.sleeping = true → sys.timer = none

/-- What leaves sleep and timer alone leaves the timer as it was started. -/
theorem TimerOf.keep {period : UInt32} (running : TimerOf period sys) {later : Sys}
    (sleeping : later.sleeping = sys.sleeping) (timer : later.timer = sys.timer) :
    TimerOf period later :=
  ⟨fun awake => timer.trans (running.awake (sleeping ▸ awake)),
    fun asleep => timer.trans (running.asleep (sleeping ▸ asleep))⟩

/-- Only waking starts the timer, and only falling asleep stops it. -/
theorem TimerOf.next {period : UInt32} (running : TimerOf period sys) (codec : Codec)
    (turn : Turn) : TimerOf (started period sys turn) (sys.next codec turn) := by
  obtain ⟨env, event⟩ := turn
  cases event with
  | setConfigValues cfg =>
    obtain ⟨sleeping, timer⟩ := setConfigValues_power codec env cfg sys
    exact running.keep sleeping timer
  | sendI2c bytes => exact running
  | tick =>
    obtain ⟨sleeping, timer, -⟩ := tick_power codec env sys
    exact running.keep sleeping timer
  | edit file => exact running.keep rfl rfl
  | power state =>
    rw [Sys.next, Sys.step]
    cases asleep : sys.sleeping with
    | false =>
      have kept : started period sys (env, .power state) = period := by simp [started, asleep]
      rw [kept, Sys.power_of_awake env sys asleep]
      split
      · exact ⟨fun awake => Bool.noConfusion awake, fun _ => rfl⟩
      · exact running
    | true =>
      have after : started period sys (env, .power state) =
          if state.asksWaking then sys.config.config.updateMs else period := by
        simp [started, asleep]
      rw [after, Sys.power_of_asleep env sys asleep]
      split
      · exact ⟨fun _ => rfl, fun asleep => Bool.noConfusion asleep⟩
      · exact running

/-- Handling the configuration of a sleeping console transfers nothing. -/
theorem handles_quietly (codec : Codec) (sys : Sys) (turn : Turn) :
    HandlesQuietly codec sys turn := by
  obtain ⟨env, event⟩ := turn
  cases event with
  | setConfigValues cfg =>
    intro _
    rw [Sys.transfers, Sys.step, Sys.setConfigValues_setup]
  | tick =>
    intro asleep
    obtain ⟨config, file, state, same⟩ := Sys.looked_frame codec env sys
    have asleep' : (sys.looked codec env).sleeping = true := by rw [same, asleep]
    rw [Sys.transfers, Sys.step, Sys.tick_eq, if_pos asleep']
    split <;> rfl
  | _ => trivial

/-- A sleeping console keeps its monitors stopped exactly if a command measures nothing. -/
theorem next_asleep (stopped : sys.sleeping = true → MonitorsOf none sys)
    (timer : sys.sleeping = true → sys.timer = none) {turn : Turn} (possible : sys.Possible turn) :
    ((sys.next codec turn).sleeping = true → MonitorsOf none (sys.next codec turn)) ↔
      MeasuresNothing sys turn := by
  obtain ⟨env, event⟩ := turn
  cases event with
  | setConfigValues cfg =>
    have sleeping : (sys.next codec (env, .setConfigValues cfg)).sleeping = sys.sleeping :=
      (setConfigValues_power codec env cfg sys).1
    have set := congrArg Prod.fst (Sys.setConfigValues_setup codec env sys cfg)
    rw [MeasuresNothing, sleeping, Sys.next, Sys.step, set]
    refine forall_congr' fun asleep => ?_
    -- no monitor runs before, so those that run afterwards are those of the configuration
    obtain ⟨cpu, gen⟩ := setup_monitors (some sys.config.config) { sys with
      config.config := cfg
      cfgChanged := sys.cfgChanged || cfg ≠ sys.config.config }
    have cpu' := (stopped asleep).cpu
    have gen' := (stopped asleep).gen
    simp only [cpu', gen', Option.any_none, Bool.false_and, Bool.false_or] at cpu gen
    exact ⟨fun after => ⟨cpu.symm.trans after.cpu, gen.symm.trans after.gen⟩,
      fun none => ⟨cpu.trans none.1, gen.trans none.2⟩⟩
  | sendI2c bytes => exact iff_of_true stopped trivial
  | tick =>
    refine iff_of_true ?_ trivial
    intro asleep
    rw [Sys.next, Sys.step, (tick_power codec env sys).1] at asleep
    exact absurd (timer asleep) (possible rfl)
  | edit file =>
    exact iff_of_true (fun asleep => ⟨(stopped asleep).cpu, (stopped asleep).gen⟩) trivial
  | power state =>
    refine iff_of_true ?_ trivial
    rw [Sys.next, Sys.step]
    cases asleep : sys.sleeping with
    | true =>
      have monitors := stopped asleep
      rw [Sys.power_of_asleep env sys asleep]
      split
      · exact fun never => Bool.noConfusion never
      · exact fun _ => monitors
    | false =>
      rw [Sys.power_of_awake env sys asleep]
      split
      · exact fun _ => ⟨rfl, rfl⟩
      · exact fun now => absurd (asleep.symm.trans now) Bool.false_ne_true

/-- A tick of an awake console leaves the timer on time exactly if it finds the update time with
which the timer was started. -/
theorem ticksOnTime_iff {state : Sys × UInt32} (running : TimerOf state.2 state.1) (turn : Turn) :
    TicksOnTime codec state turn ↔ KeepsPeriod codec state turn := by
  obtain ⟨env, event⟩ := turn
  cases event with
  | tick =>
    refine forall_congr' fun awake => ?_
    obtain ⟨-, timer, config⟩ := tick_power codec env state.1
    have timer' : (state.1.next codec (env, .tick)).timer = some state.2 :=
      timer.trans (running.awake awake)
    have config' : (state.1.next codec (env, .tick)).config = (state.1.looked codec env).config :=
      config
    rw [timer', config', Option.some.injEq]
    exact eq_comm
  | _ => exact Iff.rfl

end Turns

/-- At the start the timer runs with the update time of the configuration. -/
theorem TimerOf.init (file : Option ConfigFile) :
    TimerOf (Sys.init file).config.config.updateMs (Sys.init file) :=
  ⟨fun _ => rfl, fun asleep => Bool.noConfusion asleep⟩

/-- While the console sleeps no monitor runs, exactly if every command in that time brings a
configuration that measures nothing; and handling the configuration transfers nothing. -/
theorem asleep_measures_nothing (codec : Codec) (file : Option ConfigFile) (turns : List Turn)
    (possible : EachStep (Sys.next codec) Sys.Possible (Sys.init file) turns) :
    (Always (Sys.next codec) (fun sys => sys.sleeping = true → MonitorsOf none sys)
        (Sys.init file) turns ↔
      EachStep (Sys.next codec) MeasuresNothing (Sys.init file) turns) ∧
    EachStep (Sys.next codec) (HandlesQuietly codec) (Sys.init file) turns := by
  have keeps : ∀ sys turn, (∃ period, TimerOf period sys) → sys.Possible turn →
      ∃ period, TimerOf period (sys.next codec turn) := by
    intro sys turn running _
    obtain ⟨period, running⟩ := running
    exact ⟨_, running.next codec turn⟩
  constructor
  · refine always_iff_eachStep keeps ?_ ⟨_, TimerOf.init file⟩
      (fun asleep => Bool.noConfusion asleep) possible
    intro sys turn running stopped possible
    obtain ⟨period, running⟩ := running
    exact next_asleep stopped running.asleep possible
  · exact eachStep_true.mono fun sys turn _ => handles_quietly codec sys turn

/-- A console falls asleep and is told to pulse. -/
def asleepThenPulse : List Turn :=
  [(calmEnv, .power .sleepReady), (calmEnv, .setConfigValues { mode := 1 })]

/-- No monitor runs while it sleeps. -/
theorem asleep_measures_nothing_pulse :
    Always (Sys.next plainCodec) (fun sys => sys.sleeping = true → MonitorsOf none sys)
      (Sys.init none) asleepThenPulse := by
  have possible : EachStep (Sys.next plainCodec) Sys.Possible (Sys.init none) asleepThenPulse :=
    ⟨nofun, nofun, trivial⟩
  refine (asleep_measures_nothing plainCodec none asleepThenPulse possible).1.mpr ?_
  exact ⟨trivial, fun _ => ⟨by decide, by decide⟩, trivial⟩

/-- A console falls asleep and is told to show the temperature. -/
def asleepThenTemperature : List Turn :=
  [(calmEnv, .power .sleepReady), (calmEnv, .setConfigValues { mode := 5 })]

/-- The monitor of the temperature is started while it sleeps. -/
theorem asleep_measures_temperature :
    EachStep (Sys.next plainCodec) Sys.Possible (Sys.init none) asleepThenTemperature ∧
      ¬ Always (Sys.next plainCodec) (fun sys => sys.sleeping = true → MonitorsOf none sys)
        (Sys.init none) asleepThenTemperature := by
  refine ⟨⟨nofun, nofun, trivial⟩, fun always => ?_⟩
  have measures := always.2.2 (by decide)
  exact absurd measures.gen (by decide)

/-- While the console is awake every tick leaves the timer running with the update time of the
configuration, exactly if every such tick finds the update time with which the timer was started;
and while it sleeps the timer is stopped. -/
theorem timer_keeps_period (codec : Codec) (file : Option ConfigFile) (turns : List Turn) :
    (EachStep (watched (Sys.next codec) started) (TicksOnTime codec)
        (Sys.init file, (Sys.init file).config.config.updateMs) turns ↔
      EachStep (watched (Sys.next codec) started) (KeepsPeriod codec)
        (Sys.init file, (Sys.init file).config.config.updateMs) turns) ∧
    Always (watched (Sys.next codec) started)
      (fun state => state.1.sleeping = true → state.1.timer = none)
      (Sys.init file, (Sys.init file).config.config.updateMs) turns := by
  have keeps : ∀ (state : Sys × UInt32) turn, TimerOf state.2 state.1 → True →
      TimerOf (watched (Sys.next codec) started state turn).2
        (watched (Sys.next codec) started state turn).1 :=
    fun state turn running _ => running.next codec turn
  constructor
  · exact eachStep_congr keeps (fun state turn running _ => ticksOnTime_iff running turn)
      (TimerOf.init file) eachStep_true
  · exact (always_of_step keeps (TimerOf.init file) eachStep_true).mono
      fun state running => running.asleep

/-- A command that changes the update time, and a tick. -/
def slowerThenTick : List Turn :=
  [(calmEnv, .setConfigValues { updateMs := 500 }), (calmEnv, .tick)]

/-- The timer goes on as before. -/
theorem timer_not_restarted :
    ¬ EachStep (watched (Sys.next plainCodec) started) (TicksOnTime plainCodec)
      (Sys.init none, (Sys.init none).config.config.updateMs) slowerThenTick := by
  intro each
  have running := (TimerOf.init none).next plainCodec (calmEnv, .setConfigValues { updateMs := 500 })
  have found := (ticksOnTime_iff running (calmEnv, .tick)).mp each.2.1 rfl
  exact absurd found (by decide)

end Fly2040.System
