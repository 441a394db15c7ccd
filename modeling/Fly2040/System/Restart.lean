import Fly2040.App.CfgJson
import Fly2040.System.Console
/-!
# From one start of the console to the next

A command leaves its configuration in memory only. The next tick writes it to the file, where it
stays as long as nobody changes it. A console that starts again looks at the file once five seconds
have passed, sets up what it reads, and sends it with the tick after that. So the strip shows the
configuration again.
-/

namespace Fly2040.System

open App Leds Runs

/-- Every step of writing the file succeeds. -/
structure Saves (env : FileEnv) : Prop where
  /-- The file is deleted. -/
  deletes : env.deletes = true
  /-- An empty one is created. -/
  creates : env.creates = true
  /-- It is opened. -/
  opens : env.opens = true
  /-- Its contents are written. -/
  writes : env.writes = true

/-- A turn that leaves the configuration and the file to the console. -/
def LeavesFile (turn : Turn) : Prop :=
  (∀ cfg, turn.2 ≠ .setConfigValues cfg) ∧ ∀ file, turn.2 ≠ .edit file

section Saving

variable {codec : Codec} {env env' : SysEnv} {sys : Sys} {cfg : CfgSet}

/-- A tick leaves the file that it has written, if it has written one. -/
theorem tick_file (codec : Codec) (env : SysEnv) (sys : Sys) :
    (sys.next codec (env, .tick)).file = (sys.saveChanged codec env).file ∧
      (sys.next codec (env, .tick)).cfgChanged = false := by
  have ⟨_, _, saved, _⟩ := Sys.saveChanged_frame codec env sys
  have settings := Sys.tick_settings codec env sys
  constructor
  · show (sys.tick codec env).1.file = _
    rw [settings.file, Sys.looked, Sys.refreshFile_frame]
  · show (sys.tick codec env).1.cfgChanged = false
    rw [settings.cfgChanged, Sys.looked, Sys.refreshFile_frame, saved]

/-- The tick behind a command that changes the configuration writes it to the file. -/
theorem tick_saved (changed : sys.cfgChanged = true ∨ cfg ≠ sys.config.config)
    (saves : Saves env'.saves) :
    ((sys.next codec (env, .setConfigValues cfg)).next codec (env', .tick)).file =
      some ⟨codec.text cfg, env'.saves.now⟩ := by
  obtain ⟨cpuMon, genMon, set⟩ := Sys.setConfigValues_eq codec env cfg sys
  have flagged : (sys.cfgChanged || decide (cfg ≠ sys.config.config)) = true := by
    rcases changed with before | now
    · rw [before, Bool.true_or]
    · rw [decide_eq_true now, Bool.or_true]
  have written : ConfigImpl.save codec env'.saves cfg sys.file =
      (true, some ⟨codec.text cfg, env'.saves.now⟩) := by
    simp [ConfigImpl.save, ConfigImpl.fresh, ConfigImpl.overwrite, saves.deletes, saves.creates,
      saves.opens, saves.writes]
  rw [(tick_file codec env' _).1, Sys.next, Sys.step, set, Sys.saveChanged]
  dsimp only
  rw [if_pos flagged, ConfigImpl.saveConfig, written]

/-- What has been written stays in the file. -/
theorem file_kept {turns : List Turn} (leaves : ∀ turn ∈ turns, LeavesFile turn)
    (saved : sys.cfgChanged = false) : (turns.foldl (Sys.next codec) sys).file = sys.file := by
  induction turns generalizing sys with
  | nil => rfl
  | cons turn rest ih =>
    have one : (sys.next codec turn).file = sys.file ∧
        (sys.next codec turn).cfgChanged = false := by
      obtain ⟨env, event⟩ := turn
      have leaves := leaves (env, event) List.mem_cons_self
      cases event with
      | setConfigValues cfg => exact absurd rfl (leaves.1 cfg)
      | sendI2c bytes => exact ⟨rfl, saved⟩
      | edit file => exact absurd rfl (leaves.2 file)
      | tick =>
        have nothing : sys.saveChanged codec env = sys := by
          rw [Sys.saveChanged, saved, if_neg Bool.false_ne_true]
        obtain ⟨same, unchanged⟩ := tick_file codec env sys
        rw [nothing] at same
        exact ⟨same, unchanged⟩
      | power state =>
        show (sys.power env state).1.file = sys.file ∧ (sys.power env state).1.cfgChanged = false
        rcases Sys.power_cases env state sys with same | ⟨timer, same⟩ | ⟨cpuMon, genMon, same⟩ <;>
          rw [same] <;> exact ⟨rfl, saved⟩
    rw [List.foldl_cons, ih (fun later inside => leaves later (List.mem_cons_of_mem _ inside)) one.2]
    exact one.1

end Saving

section Starting

variable {codec : Codec} {first second : SysEnv} {file : ConfigFile}

/-- A configuration that has been read from the file. -/
def configOf (codec : Codec) (env : SysEnv) (file : ConfigFile) : ConfigImpl where
  config := codec.parse file.text
  lastCheck := env.clock
  loaded := true
  mtime := ConfigImpl.checkModificationTime env.files (some file)

/-- A console that has read the file after its start and is about to send it. -/
def restarted (codec : Codec) (env : SysEnv) (file : ConfigFile) (cpuMon : CpuMon)
    (genMon : GenMon) : Sys :=
  { Sys.init (some file) with
    cpuMon := cpuMon
    genMon := genMon
    cfgState := .update
    sendState := .none
    reg := Sys.setupReg (codec.parse file.text) (Sys.init none).reg
    config := configOf codec env file }

/-- The first look at the file that comes five seconds after the start reads it. -/
theorem init_refresh (codec : Codec) (accessible : first.files.Accessible)
    (late : ¬first.clock < fileCfgCheckIntervalNs) (filled : 0 < file.text.length)
    (fits : file.text.length < cfgBufMax - 1) :
    ConfigImpl.refresh codec first.clock first.files (some file) .init =
      (true, configOf codec first file) := by
  have loads := load_accessible accessible filled fits codec
    { ConfigImpl.init with lastCheck := first.clock }
  have late : ¬first.clock - ConfigImpl.init.lastCheck < fileCfgCheckIntervalNs := by
    rw [show ConfigImpl.init.lastCheck = 0 from rfl, UInt64.sub_zero]
    exact late
  rw [ConfigImpl.refresh, if_neg late]
  dsimp only
  rw [if_pos (by rfl), loads]
  rfl

/-- The tick that does so sets it up. -/
theorem start_loaded (accessible : first.files.Accessible)
    (late : ¬first.clock < fileCfgCheckIntervalNs) (filled : 0 < file.text.length)
    (fits : file.text.length < cfgBufMax - 1) :
    ∃ cpuMon genMon, (Sys.init (some file)).tick codec first =
      (restarted codec first file cpuMon genMon, []) := by
  have nothing : (Sys.init (some file)).saveChanged codec first = Sys.init (some file) := rfl
  have read : ConfigImpl.refresh codec first.clock first.files (Sys.init (some file)).file
      (Sys.init (some file)).config = (true, configOf codec first file) :=
    init_refresh codec accessible late filled fits
  have looked : (Sys.init (some file)).looked codec first = { Sys.init (some file) with
      config := configOf codec first file
      cfgState := .init } := by
    rw [Sys.looked, nothing, Sys.refreshFile, read]
  obtain ⟨cpuMon, genMon, set⟩ := Sys.setup_eq none { Sys.init (some file) with
    config := configOf codec first file
    cfgState := .init }
  rw [Sys.tick_eq, looked, if_pos rfl, set]
  exact ⟨cpuMon, genMon, rfl⟩

/-- A file whose time of modification is that of the first look is not read again. -/
theorem configOf_refresh (codec : Codec) (file : ConfigFile)
    (stamps : second.files.stamps = first.files.stamps) :
    ∃ lastCheck, ConfigImpl.refresh codec second.clock second.files (some file)
      (configOf codec first file) =
        (false, { configOf codec first file with lastCheck := lastCheck }) := by
  have same : ConfigImpl.checkModificationTime second.files (some file) =
      ConfigImpl.checkModificationTime first.files (some file) := by
    rw [ConfigImpl.checkModificationTime, ConfigImpl.checkModificationTime, stamps]
  rw [ConfigImpl.refresh]
  split
  · exact ⟨_, rfl⟩
  · exact ⟨second.clock, by simp [configOf, same]⟩

/-- So a second look leaves what is to be sent. -/
theorem restarted_looked (codec : Codec) (file : ConfigFile) (cpuMon : CpuMon) (genMon : GenMon)
    (stamps : second.files.stamps = first.files.stamps) :
    ∃ config, (restarted codec first file cpuMon genMon).looked codec second =
      { restarted codec first file cpuMon genMon with config := config } := by
  obtain ⟨lastCheck, again⟩ := configOf_refresh codec file stamps
  have nothing : (restarted codec first file cpuMon genMon).saveChanged codec second =
      restarted codec first file cpuMon genMon := rfl
  have unread : ConfigImpl.refresh codec second.clock second.files
      (restarted codec first file cpuMon genMon).file
      (restarted codec first file cpuMon genMon).config =
        (false, { configOf codec first file with lastCheck := lastCheck }) := again
  rw [Sys.looked, nothing, Sys.refreshFile, unread]
  exact ⟨_, rfl⟩

/-- The tick after that sends all registers of what has been read. -/
theorem start_sent (accessible : first.files.Accessible)
    (late : ¬first.clock < fileCfgCheckIntervalNs) (filled : 0 < file.text.length)
    (fits : file.text.length < cfgBufMax - 1) (stamps : second.files.stamps = first.files.stamps)
    (opens : second.opens = true) (sends : ∀ number, second.sends number = true) :
    transfersOf codec (Sys.init (some file)) [(first, .tick), (second, .tick)] = sendOrder.map
      (Sys.sendI2C (Sys.setupReg (codec.parse file.text) (Sys.init none).reg) · true) := by
  obtain ⟨cpuMon, genMon, loaded⟩ := @start_loaded codec first file accessible late filled fits
  obtain ⟨config, looked⟩ := restarted_looked codec file cpuMon genMon stamps
  have update : ({ restarted codec first file cpuMon genMon with config := config } : Sys).cfgState =
      .update := rfl
  have awake : ({ restarted codec first file cpuMon genMon with config := config } : Sys).sleeping =
      false := rfl
  rw [transfersOf, transfersOf, transfersOf, List.append_nil, Sys.next, Sys.transfers,
    Sys.transfers, Sys.step, Sys.step, loaded, List.nil_append, Sys.tick_eq, looked, update,
    if_neg (by decide), awake, if_neg Bool.false_ne_true, Sys.send_update second update rfl opens]
  simp [restarted, sendOrder, sends]

end Starting

/-- The text of a configuration has a length that is read, and is read as the configuration. -/
theorem jsonCodec_text {floats : FloatText} {stream : Memstream} {cfg : CfgSet}
    (known : cfg.rgbMode ≠ none) (keeps : cfg.Keeps floats) (len : stream.len = cfgBufMax) :
    let codec := jsonCodec floats stream
    0 < (codec.text cfg).length ∧ (codec.text cfg).length < cfgBufMax - 1 ∧
      codec.parse (codec.text cfg) = { cfg with padding := 0 } := by
  have text : (jsonCodec floats stream).text cfg =
      Json.text floats.numbers (.pretty 4) 0 cfg.toJson ++ [0x0A] := by
    simp only [jsonCodec]
    exact (keeps.toStream_holds len).contents
  have short := keeps.length_le
  have fits : 656 + 1 < cfgBufMax - 1 := by decide
  intro codec
  rw [text, List.length_append, List.length_singleton]
  refine ⟨Nat.succ_pos _, by omega, ?_⟩
  simp only [codec, jsonCodec]
  exact keeps.parse_text known

/-- A sound configuration with a known mode and floats that their text keeps, which a command brings
to the console as a change and the next tick writes to the file, is shown by the strip after the
next start of the console: the first tick five seconds after the start reads it, if the file can be
read, and the one after that sends it, if the file is the same and every transfer is acknowledged,
whatever steps the loop of the device takes between the signals. -/
theorem configuration_restored (sin : ℚ → ℚ) (isI2cConfigured : Bool) {floats : FloatText}
    {stream : Memstream} (len : stream.len = cfgBufMax) (sys : Sys) (env env' : SysEnv)
    {cfg : CfgSet} (known : cfg.rgbMode ≠ none) (keeps : cfg.Keeps floats) (sound : Sound cfg)
    (changed : sys.cfgChanged = true ∨ cfg ≠ sys.config.config) (saves : Saves env'.saves)
    {turns : List Turn} (leaves : ∀ turn ∈ turns, LeavesFile turn) (first second : SysEnv)
    (accessible : first.files.Accessible) (late : fileCfgCheckIntervalNs ≤ first.clock)
    (stamps : second.files.stamps = first.files.stamps) (opens : second.opens = true)
    (sends : ∀ number, second.sends number = true) (moves : List Move)
    (same : let codec := jsonCodec floats stream
      let file := (turns.foldl (Sys.next codec) ((sys.next codec
        (env, .setConfigValues cfg)).next codec (env', .tick))).file
      signalsOf moves = (transfersOf codec (Sys.init file)
        [(first, .tick), (second, .tick)]).flatMap signalsSent) :
    ∃ rig, (initRig isI2cConfigured).run sin moves = .ok rig ∧
      ∀ times : List UInt32, 4 ≤ times.length →
        ∃ quiet, ledsRun sin rig.device (times.map .advance) = .ok quiet ∧
          (quiet.stage = .frame → ∃ registers, Matches registers cfg ∧
            quiet.state = clampState registers ∧ Lit sin quiet quiet.state) ∧
          (quiet.stage ≠ .frame → ∀ now, ∃ next, ledsMode sin quiet now = .ok next ∧
            next.stage = .frame) := by
  obtain ⟨filled, fits, parsed⟩ := jsonCodec_text known keeps len
  dsimp only at same
  generalize jsonCodec floats stream = codec at same filled fits parsed
  have file : (turns.foldl (Sys.next codec) ((sys.next codec
      (env, .setConfigValues cfg)).next codec (env', .tick))).file =
        some ⟨codec.text cfg, env'.saves.now⟩ := by
    rw [file_kept leaves (tick_file codec env' _).2]
    exact tick_saved changed saves
  have sent := @start_sent codec first second ⟨codec.text cfg, env'.saves.now⟩ accessible
    (UInt64.not_lt.mpr late) filled fits stamps opens sends
  rw [file, sent, parsed] at same
  have steady : Steady (Sys.setupReg { cfg with padding := 0 } (Sys.init none).reg) :=
    steady_setupReg (steady_init none) ⟨sound.speed, sound.pixels⟩
  have matched := Sys.setupReg_matches { cfg with padding := 0 } (Sys.init none).reg
  have matched' : Matches (Sys.setupReg { cfg with padding := 0 } (Sys.init none).reg) cfg :=
    { matched with }
  generalize Sys.setupReg { cfg with padding := 0 } (Sys.init none).reg = registers
    at same steady matched'
  have sends : ∀ transmission ∈ [] ++ sendOrder.map (Sys.sendI2C registers · true),
      ∃ reg, Steady reg ∧ FieldOf reg transmission := by
    intro transmission inside
    obtain ⟨field, _, sent⟩ := List.mem_map.mp inside
    exact ⟨_, steady, field, true, sent.symm⟩
  have ⟨rig, ran, shown⟩ := sent_displayed sin isI2cConfigured sends same
  refine ⟨rig, ran, fun times late => ?_⟩
  have ⟨quiet, went, drawn, next⟩ := shown times late
  exact ⟨quiet, went, fun stage => ⟨_, matched', drawn stage⟩, next⟩

/-- The console starts again after it has been told to show a rainbow and to sleep. -/
def rainbowFile : Option ConfigFile :=
  let codec := jsonCodec someFloatText unusedStream
  ([(calmEnv, .power .sleepReady)].foldl (Sys.next codec) (((Sys.init none).next codec
    (calmEnv, .setConfigValues someRainbow)).next codec (calmEnv, .tick))).file

/-- Five seconds after the start. -/
def startedEnv : SysEnv := { calmEnv with clock := fileCfgCheckIntervalNs }

/-- The rainbow is shown again. -/
theorem rainbow_restored :
    ∃ rig, (initRig true).run id (looped ((transfersOf (jsonCodec someFloatText unusedStream)
        (Sys.init rainbowFile) [(startedEnv, .tick), (startedEnv, .tick)]).flatMap
          signalsSent)) = .ok rig ∧
      ∀ times : List UInt32, 4 ≤ times.length →
        ∃ quiet, ledsRun id rig.device (times.map .advance) = .ok quiet ∧
          (quiet.stage = .frame → ∃ registers, Matches registers someRainbow ∧
            quiet.state = clampState registers ∧ Lit id quiet quiet.state) ∧
          (quiet.stage ≠ .frame → ∀ now, ∃ next, ledsMode id quiet now = .ok next ∧
            next.stage = .frame) := by
  have sound : Sound someRainbow := by
    refine ⟨fun value same => ?_, by decide⟩
    rw [← Option.some.inj same]
    norm_num [someRainbow]
  have len : unusedStream.len = cfgBufMax := List.length_replicate
  have leaves : ∀ turn ∈ [((calmEnv, .power .sleepReady) : Turn)], LeavesFile turn := by
    intro turn inside
    rw [List.mem_singleton.mp inside]
    constructor
    · intro cfg same
      cases same
    · intro file same
      cases same
  exact configuration_restored id true len (Sys.init none) calmEnv calmEnv (by decide)
    someRainbow_keeps sound (.inr (by decide)) ⟨rfl, rfl, rfl, rfl⟩ leaves startedEnv startedEnv
    ⟨rfl, rfl, rfl, rfl⟩ (by decide) rfl rfl (fun _ => rfl) _ (signalsOf_looped _)

end Fly2040.System
