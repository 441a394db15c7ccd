import Fly2040.App.SysRgbIpc
import Fly2040.Leds.Slave
import Mathlib.Logic.Relation
/-!
# The device follows the configuration

The system module and the interrupt handler of the LED device are joined by the bus: every transfer
of the one is a write transaction of the other. While transfers and saves succeed, the file shows
its time of modification and nobody else writes to the bus or to the file, the device holds the
registers of the configuration two ticks after the last command, and its other bytes never change. A
file that does not show its time is read again as if it had changed, which puts off what is to be
sent.
-/

namespace Fly2040.System

open Bytes Leds App

/-- The system module and the device. -/
structure Joint where
  /-- The system module. -/
  sys : Sys
  /-- The interrupt handler of the device. -/
  slave : Slave

/-- An acknowledged transfer is a transaction of the device. -/
def transmit (slave : Slave) (transmission : Transmission) : Slave :=
  if transmission.sent then slaveEvents slave (transmission.bytes.map .receive ++ [.finish])
  else slave

/-- One turn of the server loop, and the transfers it makes. -/
def Joint.step (codec : Codec) (env : SysEnv) (joint : Joint) (event : SysEvent) : Joint :=
  let turn := joint.sys.step codec env event
  ⟨turn.1, turn.2.foldl transmit joint.slave⟩

/-- Transfers and saves succeed, and nobody else writes to the bus or to the file. -/
structure Unopposed (codec : Codec) (env : SysEnv) (sys : Sys) (event : SysEvent) : Prop where
  /-- Sessions with the device are opened. -/
  opens : env.opens = true
  /-- Transfers are acknowledged. -/
  sends : ∀ number, env.sends number = true
  /-- The file is written. -/
  saves : event = .tick → sys.cfgChanged = true →
    (ConfigImpl.save codec env.saves sys.config.config sys.file).1 = true
  /-- No other transfers. -/
  bus : ∀ bytes, event ≠ .sendI2c bytes
  /-- No other changes of the file. -/
  edits : ∀ file, event ≠ .edit file

/-- And the file shows its time of modification. -/
structure Undisturbed (codec : Codec) (env : SysEnv) (sys : Sys) (event : SysEvent) : Prop
    extends Unopposed codec env sys event where
  /-- When it is looked at, and when it has been saved. -/
  stamps : env.files.stamps = true ∧ env.saves.stamps = true

/-- An unopposed turn. -/
def UnopposedStep (codec : Codec) (joint later : Joint) : Prop :=
  ∃ env event, Unopposed codec env joint.sys event ∧ later = joint.step codec env event

/-- An undisturbed turn. -/
def UndisturbedStep (codec : Codec) (joint later : Joint) : Prop :=
  ∃ env event, Undisturbed codec env joint.sys event ∧ later = joint.step codec env event

section Transfers

variable {slave : Slave}

/-- The handler has published its registers. -/
def Published (slave : Slave) : Prop :=
  slave.i2cState = stateOf slave.context.reg ∧ slave.context.updateReady = true

/-- A transferred register reaches the device, and nothing else changes. -/
theorem transmit_field (idle : slave.Idle) (reg : RgbState) (field : Field) :
    (transmit slave (Sys.sendI2C reg field true)).Idle ∧
      Published (transmit slave (Sys.sendI2C reg field true)) ∧
      ∀ address, (transmit slave (Sys.sendI2C reg field true)).context.reg address =
        if field.Holds address then pack reg address else slave.context.reg address := by
  have inside := field.inside
  have offset : (UInt8.ofNat field.offset).toNat = field.offset := by
    cases field <;> rfl
  have some : readBytes (pack reg) field.offset field.size ≠ [] := by
    cases field <;> simp [readBytes, Field.size]
  obtain ⟨next, stored⟩ : ∃ next, slaveEvents slave (writeTransaction (UInt8.ofNat field.offset)
      (readBytes (pack reg) field.offset field.size)) = _ :=
    slaveEvents_writeTransaction idle some (by
      rw [offset, readBytes_length]
      exact inside.trans (by decide))
  have sent : transmit slave (Sys.sendI2C reg field true) = _ := stored
  rw [sent]
  refine ⟨rfl, ⟨rfl, rfl⟩, fun address => ?_⟩
  rw [offset]
  split
  · rename_i held
    exact storeBytes_readBytes _ _ held
  · rename_i other
    rw [Field.Holds, not_and_or, not_le, not_lt] at other
    exact storeBytes_outside _ (by rwa [readBytes_length])

/-- Transferred registers reach the device, and nothing else changes. -/
theorem transmit_fields (idle : slave.Idle) (reg : RgbState) (fields : List Field) :
    ((fields.map (Sys.sendI2C reg · true)).foldl transmit slave).Idle ∧
      (fields ≠ [] → Published ((fields.map (Sys.sendI2C reg · true)).foldl transmit slave)) ∧
      ∀ address, ((fields.map (Sys.sendI2C reg · true)).foldl transmit slave).context.reg address =
        if ∃ field ∈ fields, field.Holds address then pack reg address
        else slave.context.reg address := by
  induction fields generalizing slave with
  | nil => exact ⟨idle, fun never => absurd rfl never, fun address => by simp⟩
  | cons field rest ih =>
    obtain ⟨idle', published, held⟩ := transmit_field idle reg field
    obtain ⟨idle'', published', held'⟩ := ih idle'
    refine ⟨idle'', fun _ => ?_, fun address => ?_⟩
    · cases rest with
      | nil => exact published
      | cons second others => exact published' (by simp)
    · rw [List.map_cons, List.foldl_cons, held', held]
      by_cases later : ∃ field ∈ rest, field.Holds address
      · rw [if_pos later, if_pos (by simp [later])]
      · rw [if_neg later]
        by_cases first : field.Holds address
        · rw [if_pos first, if_pos (by simp [first])]
        · rw [if_neg first, if_neg]
          rw [List.exists_mem_cons_iff]
          exact not_or.mpr ⟨first, later⟩

/-- Transferred registers keep the other bytes. -/
theorem transmit_outside (idle : slave.Idle) (reg : RgbState) (fields : List Field) {address : Nat}
    (outside : stateSize ≤ address) :
    ((fields.map (Sys.sendI2C reg · true)).foldl transmit slave).context.reg address =
      slave.context.reg address := by
  rw [(transmit_fields idle reg fields).2.2, if_neg]
  intro held
  obtain ⟨field, _, low, high⟩ := held
  have inside := field.inside
  omega

/-- After all registers have been transferred, the device holds them. -/
theorem transmit_all (idle : slave.Idle) (reg : RgbState) {address : Nat}
    (inside : address < stateSize) :
    ((sendOrder.map (Sys.sendI2C reg · true)).foldl transmit slave).context.reg address =
      pack reg address := by
  obtain ⟨field, held⟩ := Field.cover inside
  rw [(transmit_fields idle reg sendOrder).2.2, if_pos ⟨field, mem_sendOrder field, held⟩]

end Transfers

/-- The scale occupies its own bytes. -/
theorem pack_scale (reg : RgbState) (scale : UInt32) {address : Nat}
    (apart : ¬ Field.scale.Holds address) :
    pack { reg with scale := scale } address = pack reg address := by
  have apart' : ¬ (6 ≤ address ∧ address < 6 + 4) := apart
  unfold pack
  split_ifs <;> first | rfl | omega

/-- A configuration that has been loaded, or that is to be saved. -/
def Applied (sys : Sys) : Prop := sys.config.loaded = true ∨ sys.cfgChanged = true

/-- What holds in every run. -/
structure Invariant (first : Memory) (joint : Joint) : Prop where
  /-- The device waits for a transaction. -/
  idle : joint.slave.Idle
  /-- The bytes after the state never change. -/
  outside : ∀ address, stateSize ≤ address → joint.slave.context.reg address = first address
  /-- A loaded configuration is that of the file. -/
  current : joint.sys.config.Current joint.sys.file
  /-- Registers are to be sent once there is a configuration. -/
  started : Applied joint.sys → joint.sys.cfgState ≠ .none
  /-- The copy of the registers shows the configuration. -/
  shown : Applied joint.sys → joint.sys.cfgState = .update ∨ joint.sys.cfgState = .refresh →
    Matches joint.sys.reg joint.sys.config.config
  /-- An update starts from the first register. -/
  start : joint.sys.cfgState = .update → joint.sys.sendState = .none
  /-- Once an update has been made, the device holds the copy. -/
  held : joint.sys.cfgState = .refresh → ∀ address < stateSize,
    joint.slave.context.reg address = pack joint.sys.reg address

section Steps

variable {first : Memory} {sys : Sys} {slave : Slave} {codec : Codec} {env : SysEnv}

/-- A configuration has been brought into the registers. -/
theorem Invariant.update (invariant : Invariant first ⟨sys, slave⟩) {later : Sys}
    (state : later.cfgState = .update) (start : later.sendState = .none)
    (current : later.config.Current later.file)
    (shown : Matches later.reg later.config.config) : Invariant first ⟨later, slave⟩ where
  idle := invariant.idle
  outside := invariant.outside
  current := current
  started := fun _ never => by simp [state] at never
  shown := fun _ _ => shown
  start := fun _ => start
  held := fun never => by simp [state] at never

/-- Setting up keeps the invariant. -/
theorem Invariant.setup (invariant : Invariant first ⟨sys, slave⟩) {sys' : Sys}
    (current : sys'.config.Current sys'.file) (oldCfg : Option CfgSet) :
    Invariant first ⟨sys'.setup oldCfg, slave⟩ := by
  obtain ⟨cpuMon, genMon, set⟩ := Sys.setup_eq oldCfg sys'
  rw [set]
  exact invariant.update rfl rfl current (Sys.setupReg_matches _ _)

/-- A command keeps the invariant. -/
theorem Invariant.setConfigValues (invariant : Invariant first ⟨sys, slave⟩) (cfg : CfgSet) :
    Invariant first ⟨(sys.setConfigValues codec env cfg).1, slave⟩ := by
  obtain ⟨cpuMon, genMon, set⟩ := Sys.setConfigValues_eq codec env cfg sys
  rw [set]
  exact invariant.update rfl rfl invariant.current (Sys.setupReg_matches _ _)

/-- A request of the power manager keeps the invariant. -/
theorem Invariant.power (invariant : Invariant first ⟨sys, slave⟩) (opens : env.opens = true)
    (sends : ∀ number, env.sends number = true) (state : Sys.PmState) :
    Invariant first ⟨(sys.power env state).1,
      (sys.power env state).2.foldl transmit slave⟩ := by
  rcases Sys.power_cases env state sys with same | ⟨timer, woken⟩ | ⟨cpuMon, genMon, asleep⟩
  · rw [same]
    exact invariant
  · rw [woken]
    exact { invariant with }
  · rw [asleep, opens, sends]
    have sent := transmit_fields invariant.idle { sys.reg with mode := 0 } [.mode]
    exact {
      idle := sent.1
      outside := fun address outside =>
        (transmit_outside invariant.idle { sys.reg with mode := 0 } [.mode] outside).trans
          (invariant.outside address outside)
      current := invariant.current
      started := fun _ never => by simp at never
      shown := fun _ never => by simp at never
      start := fun never => by simp at never
      held := fun never => by simp at never }

/-- Sending keeps the invariant. -/
theorem Invariant.send (invariant : Invariant first ⟨sys, slave⟩) (opens : env.opens = true)
    (sends : ∀ number, env.sends number = true) (other : sys.cfgState ≠ .init) :
    Invariant first ⟨(sys.send env).1, (sys.send env).2.foldl transmit slave⟩ := by
  cases state : sys.cfgState with
  | none =>
    have quiet : sys.send env = (sys, []) := by rw [Sys.send]; simp only [state]
    rw [quiet]
    exact invariant
  | init => exact absurd state other
  | update =>
    have order : sendOrder.zipIdx.map
        (fun next => Sys.sendI2C sys.reg next.1 (env.sends next.2)) =
        sendOrder.map (Sys.sendI2C sys.reg · true) := by
      simp [sendOrder, sends]
    rw [Sys.send_update env state (invariant.start state) opens, order]
    exact {
      idle := (transmit_fields invariant.idle sys.reg sendOrder).1
      outside := fun address outside =>
        (transmit_outside invariant.idle sys.reg sendOrder outside).trans
          (invariant.outside address outside)
      current := invariant.current
      started := fun _ never => by simp at never
      shown := fun applied _ => invariant.shown applied (.inl state)
      start := fun never => by simp at never
      held := fun _ address inside => transmit_all invariant.idle sys.reg inside }
  | refresh =>
    rcases Sys.send_refresh env state with same | ⟨scale, sent⟩
    · rw [same]
      exact invariant
    · rw [sent, opens, sends]
      have fields := transmit_fields invariant.idle { sys.reg with scale := scale } [.scale]
      exact {
        idle := fields.1
        outside := fun address outside =>
          (transmit_outside invariant.idle { sys.reg with scale := scale } [.scale] outside).trans
            (invariant.outside address outside)
        current := invariant.current
        started := invariant.started
        shown := fun applied _ => (invariant.shown applied (.inr state)).scale scale
        start := fun never => by simp [state] at never
        held := fun _ address inside => by
          refine (fields.2.2 address).trans ?_
          split
          · rfl
          · rename_i other
            have apart : ¬ Field.scale.Holds address := fun held => other ⟨_, by simp, held⟩
            rw [pack_scale sys.reg scale apart]
            exact invariant.held state address inside }

/-- A turn after looking at the file keeps the invariant. -/
theorem Invariant.turn (invariant : Invariant first ⟨sys, slave⟩) (opens : env.opens = true)
    (sends : ∀ number, env.sends number = true) {later : Sys × List Transmission}
    (turn : later = if sys.cfgState = .init ∨ (none : Option CfgSet).isSome then
        (sys.setup none, []) else if sys.sleeping then (sys, []) else sys.send env) :
    Invariant first ⟨later.1, later.2.foldl transmit slave⟩ := by
  rw [turn]
  split
  · exact invariant.setup invariant.current none
  · rename_i other
    split
    · exact invariant
    · exact invariant.send opens sends fun init => other (.inl init)

/-- Handling the configuration keeps the invariant. -/
theorem Invariant.handleConfig (invariant : Invariant first ⟨sys, slave⟩)
    (opens : env.opens = true) (sends : ∀ number, env.sends number = true)
    (stamps : env.files.stamps = true) (saved : sys.cfgChanged = false) :
    Invariant first ⟨(sys.handleConfig codec env none).1,
      (sys.handleConfig codec env none).2.foldl transmit slave⟩ := by
  rcases Sys.refreshFile_cases codec env stamps sys with
    ⟨config, read, current⟩ | ⟨lastCheck, same⟩ | ⟨config, failed, closed⟩
  · have set : sys.handleConfig codec env none =
        (({ sys with config := config, cfgState := .init } : Sys).setup none, []) := by
      simp [Sys.handleConfig, read]
    rw [set]
    exact invariant.setup current none
  · have kept : Invariant first ⟨{ sys with config.lastCheck := lastCheck }, slave⟩ :=
      { invariant with }
    exact kept.turn opens sends (by rw [Sys.handleConfig]; simp only [same])
  · have kept : Invariant first ⟨{ sys with config := config }, slave⟩ := by
      have never : ¬ Applied { sys with config := config } := by
        simp [Applied, closed, saved]
      exact { invariant with
        current := fun loaded => by rw [closed] at loaded; cases loaded
        started := fun applied => absurd applied never
        shown := fun applied => absurd applied never }
    exact kept.turn opens sends (by rw [Sys.handleConfig]; simp only [failed])

/-- Writing the file keeps the invariant. -/
theorem Invariant.saveChanged (invariant : Invariant first ⟨sys, slave⟩)
    (saves : sys.cfgChanged = true →
      (ConfigImpl.save codec env.saves sys.config.config sys.file).1 = true)
    (stamps : env.saves.stamps = true) :
    Invariant first ⟨sys.saveChanged codec env, slave⟩ ∧
      (sys.saveChanged codec env).cfgChanged = false := by
  cases changed : sys.cfgChanged with
  | false =>
    have same : sys.saveChanged codec env = sys := by simp [Sys.saveChanged, changed]
    rw [same]
    exact ⟨invariant, changed⟩
  | true =>
    rcases Sys.saveChanged_cases saves stamps with
      ⟨never, _⟩ | ⟨config, file, saved, same, _, current⟩
    · rw [changed] at never
      cases never
    · rw [saved]
      have applied : Applied sys := .inr changed
      exact ⟨{ invariant with
        current := current
        started := fun _ => invariant.started applied
        shown := fun _ state => by
          change Matches sys.reg config.config
          rw [same]
          exact invariant.shown applied state }, rfl⟩

/-- A tick keeps the invariant. -/
theorem Invariant.tick (invariant : Invariant first ⟨sys, slave⟩)
    (undisturbed : Undisturbed codec env sys .tick) :
    Invariant first ⟨(sys.tick codec env).1, (sys.tick codec env).2.foldl transmit slave⟩ := by
  obtain ⟨saved, unchanged⟩ :=
    invariant.saveChanged (undisturbed.saves rfl) undisturbed.stamps.2
  exact saved.handleConfig undisturbed.opens undisturbed.sends undisturbed.stamps.1 unchanged

/-- A tick of a console that is awake brings an applied configuration one phase further. -/
theorem Invariant.tick_progress (invariant : Invariant first ⟨sys, slave⟩) (applied : Applied sys)
    (awake : sys.sleeping = false) (undisturbed : Undisturbed codec env sys .tick) :
    ((sys.tick codec env).1.config.config = sys.config.config ∧
      (sys.tick codec env).1.config.loaded = true ∧ (sys.tick codec env).1.sleeping = false) ∧
    (sys.cfgState = .init → (sys.tick codec env).1.cfgState = .update) ∧
    (sys.cfgState = .update ∨ sys.cfgState = .refresh →
      (sys.tick codec env).1.cfgState = .refresh) := by
  have saved : ∃ config file, sys.saveChanged codec env =
      { sys with config := config, file := file, cfgChanged := false } ∧
        config.config = sys.config.config ∧ config.loaded = true ∧ config.Current file := by
    rcases Sys.saveChanged_cases (undisturbed.saves rfl) undisturbed.stamps.2 with
      ⟨unchanged, same⟩ | saved
    · have loaded : sys.config.loaded = true := applied.resolve_right (by simp [unchanged])
      exact ⟨sys.config, sys.file, by rw [same, ← unchanged], rfl, loaded, invariant.current⟩
    · exact saved
  obtain ⟨config, file, saved, same, loaded, current⟩ := saved
  obtain ⟨lastCheck, read⟩ : ∃ lastCheck, (sys.saveChanged codec env).refreshFile codec env =
      { sys.saveChanged codec env with config.lastCheck := lastCheck } :=
    Sys.refreshFile_loaded (by rw [saved]; exact current) (by rw [saved]; exact loaded)
      undisturbed.stamps.1 codec
  rw [saved] at read
  have ticked : ∃ middle : Sys, middle.config.config = sys.config.config ∧
      middle.config.loaded = true ∧ middle.sleeping = false ∧ middle.cfgState = sys.cfgState ∧
      middle.sendState = sys.sendState ∧ sys.tick codec env =
        if sys.cfgState = .init then (middle.setup none, []) else middle.send env := by
    refine ⟨{ sys with
      config := { config with lastCheck := lastCheck }
      file := file
      cfgChanged := false }, same, loaded, awake, rfl, rfl, ?_⟩
    rw [Sys.tick, saved, Sys.handleConfig]
    simp only [read, Option.isSome_none, Bool.false_eq_true, or_false]
    simp only [awake, Bool.false_eq_true, if_false]
  obtain ⟨middle, same, loaded, awake, state, start, ticked⟩ := ticked
  rw [ticked]
  cases phase : sys.cfgState with
  | none => exact absurd phase (invariant.started applied)
  | init =>
    obtain ⟨cpuMon, genMon, set⟩ := Sys.setup_eq none middle
    rw [if_pos rfl, set]
    exact ⟨⟨same, loaded, awake⟩, fun _ => rfl, fun never => by simp at never⟩
  | update =>
    rw [phase] at state
    have start' := start.trans (invariant.start phase)
    rw [if_neg (by simp), Sys.send_update env state start' undisturbed.opens]
    exact ⟨⟨same, loaded, awake⟩, fun never => by simp at never, fun _ => rfl⟩
  | refresh =>
    rw [phase] at state
    rw [if_neg (by simp)]
    rcases Sys.send_refresh env state with quiet | ⟨scale, sent⟩
    · rw [quiet]
      exact ⟨⟨same, loaded, awake⟩, fun never => by simp at never, fun _ => state⟩
    · rw [sent]
      exact ⟨⟨same, loaded, awake⟩, fun never => by simp at never, fun _ => state⟩

end Steps

section Runs

variable {codec : Codec} {first joint : Joint}

/-- An undisturbed turn keeps the invariant. -/
theorem Invariant.step {mem : Memory} (invariant : Invariant mem joint) {env : SysEnv}
    {event : SysEvent} (undisturbed : Undisturbed codec env joint.sys event) :
    Invariant mem (joint.step codec env event) := by
  cases event with
  | setConfigValues cfg =>
    obtain ⟨cpuMon, genMon, set⟩ := Sys.setConfigValues_eq codec env cfg joint.sys
    have quiet : (joint.sys.setConfigValues codec env cfg).2 = [] := by rw [set]
    have kept : Invariant mem ⟨(joint.sys.setConfigValues codec env cfg).1, joint.slave⟩ :=
      invariant.setConfigValues cfg
    rw [Joint.step, Sys.step, quiet]
    exact kept
  | sendI2c bytes => exact absurd rfl (undisturbed.bus bytes)
  | tick => exact invariant.tick undisturbed
  | power state => exact invariant.power undisturbed.opens undisturbed.sends state
  | edit file => exact absurd rfl (undisturbed.edits file)

/-- At the start, whatever the registers of the device hold. -/
theorem Invariant.init {slave : Slave} (idle : slave.Idle) (file : Option ConfigFile) :
    Invariant slave.context.reg ⟨Sys.init file, slave⟩ where
  idle := idle
  outside := fun _ _ => rfl
  current := fun never => by simp [Sys.init, ConfigImpl.init] at never
  started := fun never => by simp [Applied, Sys.init, ConfigImpl.init] at never
  shown := fun _ never => by simp [Sys.init] at never
  start := fun never => by simp [Sys.init] at never
  held := fun never => by simp [Sys.init] at never

/-- The invariant holds in every undisturbed run. -/
theorem invariant_of_run {file : Option ConfigFile} {slave : Slave} (idle : slave.Idle)
    (run : Relation.ReflTransGen (UndisturbedStep codec) ⟨Sys.init file, slave⟩ joint) :
    Invariant slave.context.reg joint := by
  induction run with
  | refl => exact .init idle file
  | tail _ step ih =>
    obtain ⟨env, event, undisturbed, rfl⟩ := step
    exact ih.step undisturbed

/-- The device shows a configuration. -/
structure Synced (joint : Joint) (cfg : CfgSet) : Prop where
  /-- The device holds the copy of the registers. -/
  held : ∀ address < stateSize, joint.slave.context.reg address = pack joint.sys.reg address
  /-- The copy shows the configuration. -/
  shown : Matches joint.sys.reg cfg
  /-- It is the one in memory. -/
  config : joint.sys.config.config = cfg

/-- Two ticks after the last command, a console that is awake and has a configuration has brought
it to the device; and the bytes of the device after the state never change. -/
theorem device_converges {file : Option ConfigFile} {slave : Slave} (idle : slave.Idle)
    (run : Relation.ReflTransGen (UndisturbedStep codec) ⟨Sys.init file, slave⟩ joint) :
    (∀ address, stateSize ≤ address →
      joint.slave.context.reg address = slave.context.reg address) ∧
    (joint.sys.sleeping = false → joint.sys.config.loaded = true → ∀ env env',
      Undisturbed codec env joint.sys .tick →
      Undisturbed codec env' (joint.step codec env .tick).sys .tick →
      Synced ((joint.step codec env .tick).step codec env' .tick) joint.sys.config.config) := by
  have invariant := invariant_of_run idle run
  refine ⟨invariant.outside, fun awake loaded env env' undisturbed undisturbed' => ?_⟩
  have second := invariant.step undisturbed
  have third := second.step undisturbed'
  obtain ⟨⟨same, loaded', awake'⟩, init, refresh⟩ :=
    invariant.tick_progress (.inl loaded) awake undisturbed
  obtain ⟨⟨same', loaded'', _⟩, _, refresh'⟩ :=
    second.tick_progress (.inl loaded') awake' undisturbed'
  have phase : (joint.step codec env .tick).sys.cfgState = .update ∨
      (joint.step codec env .tick).sys.cfgState = .refresh := by
    cases state : joint.sys.cfgState with
    | none => exact absurd state (invariant.started (.inl loaded))
    | init => exact .inl (init state)
    | update => exact .inr (refresh (.inl state))
    | refresh => exact .inr (refresh (.inr state))
  have config := same'.trans same
  exact {
    held := third.held (refresh' phase)
    shown := config ▸ third.shown (.inl loaded'') (.inr (refresh' phase))
    config := config }

end Runs

/-- Surroundings in which every call succeeds. -/
def calmEnv : SysEnv where
  clock := 0
  files := ⟨true, true, true, true, true, true, true, true, ⟨[], 0⟩, 1⟩
  saves := ⟨true, true, true, true, true, true, true, true, ⟨[], 0⟩, 1⟩
  measured := ⟨fun _ => 0, 0, 0⟩
  opens := true
  sends := fun _ => true

/-- They disturb neither commands nor ticks nor the power manager. -/
theorem calm_undisturbed (codec : Codec) (sys : Sys) {event : SysEvent}
    (bus : ∀ bytes, event ≠ .sendI2c bytes) (edits : ∀ file, event ≠ .edit file) :
    Undisturbed codec calmEnv sys event where
  opens := rfl
  sends := fun _ => rfl
  saves := fun _ _ => rfl
  stamps := ⟨rfl, rfl⟩
  bus := bus
  edits := edits

/-- A codec of one text. -/
def plainCodec : Codec := ⟨fun _ => [0], fun _ => {}⟩

/-- The console has just saved a rainbow. -/
def rainbowJoint : Joint :=
  ((⟨Sys.init none, initSlave false⟩ : Joint).step plainCodec calmEnv
    (.setConfigValues { mode := 3 })).step plainCodec calmEnv .tick

/-- Two ticks later the device shows it. -/
theorem device_converges_rainbow : Synced ((rainbowJoint.step plainCodec calmEnv .tick).step
    plainCodec calmEnv .tick) rainbowJoint.sys.config.config := by
  have idle : (initSlave false).Idle := rfl
  have calm : ∀ sys, Undisturbed plainCodec calmEnv sys .tick := fun sys =>
    calm_undisturbed plainCodec sys (by simp) (by simp)
  have command : Undisturbed plainCodec calmEnv (Sys.init none) (.setConfigValues { mode := 3 }) :=
    calm_undisturbed plainCodec _ (by simp) (by simp)
  have commanded : UndisturbedStep plainCodec ⟨Sys.init none, initSlave false⟩ _ :=
    ⟨calmEnv, _, command, rfl⟩
  have run : Relation.ReflTransGen (UndisturbedStep plainCodec)
      ⟨Sys.init none, initSlave false⟩ rainbowJoint :=
    (Relation.ReflTransGen.refl.tail commanded).tail ⟨calmEnv, .tick, calm _, rfl⟩
  have ticked := ((Invariant.init idle none).step command).tick_progress (.inr rfl) rfl (calm _)
  exact (device_converges idle run).2 ticked.1.2.2 ticked.1.2.1 calmEnv calmEnv (calm _) (calm _)

/-- A codec of one text, which stands for a rainbow. -/
def rainbowCodec : Codec := ⟨fun _ => [0], fun _ => { mode := 3 }⟩

/-- Surroundings in which every call succeeds, a number of seconds after the start, but for the time
of the file. -/
def stampedEnv (seconds : UInt64) (stamps : Bool) : SysEnv :=
  { calmEnv with clock := seconds * 1000000000, files := { calmEnv.files with stamps := stamps } }

/-- They write nothing to the bus or to the file. -/
theorem stamped_unopposed (codec : Codec) (sys : Sys) (seconds : UInt64) (stamps : Bool) :
    Unopposed codec (stampedEnv seconds stamps) sys .tick where
  opens := rfl
  sends := fun _ => rfl
  saves := fun _ _ => rfl
  bus := fun _ => by simp
  edits := fun _ => by simp

/-- The console has just read a rainbow from the file. -/
def readJoint : Joint :=
  (⟨Sys.init (some ⟨[0], 1⟩), initSlave false⟩ : Joint).step rainbowCodec (stampedEnv 5 true) .tick

/-- If the file does not show its time once, it is read again in both ticks, and the device keeps
the registers that it had. -/
theorem stamp_missed : ¬∀ joint : Joint, Relation.ReflTransGen (UnopposedStep rainbowCodec)
      ⟨Sys.init (some ⟨[0], 1⟩), initSlave false⟩ joint →
    joint.sys.sleeping = false → joint.sys.config.loaded = true → ∀ env env',
      Unopposed rainbowCodec env joint.sys .tick →
      Unopposed rainbowCodec env' (joint.step rainbowCodec env .tick).sys .tick →
      Synced ((joint.step rainbowCodec env .tick).step rainbowCodec env' .tick)
        joint.sys.config.config := by
  intro converges
  have run : Relation.ReflTransGen (UnopposedStep rainbowCodec)
      ⟨Sys.init (some ⟨[0], 1⟩), initSlave false⟩ readJoint :=
    Relation.ReflTransGen.refl.tail ⟨stampedEnv 5 true, .tick, stamped_unopposed _ _ _ _, rfl⟩
  have synced := converges readJoint run rfl rfl (stampedEnv 10 false) (stampedEnv 15 true)
    (stamped_unopposed _ _ _ _) (stamped_unopposed _ _ _ _)
  have mode := synced.held 0 (by decide)
  exact absurd mode (by decide)

end Fly2040.System
