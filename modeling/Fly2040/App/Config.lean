import Fly2040.Leds.Registers
/-!
# Configuration

The console keeps the configuration in memory and in a file. The file is read again when its
time of modification is not the one seen last, at most once in five seconds, and written after a
command has changed the configuration. Operations on the file may fail. The conversion between a
configuration and its text is a parameter.
-/

namespace Fly2040.App

open Leds

/-- A mode with a brightness. -/
structure CfgItem where
  /-- Brightness. -/
  brightness : ℚ := 1
deriving DecidableEq

/-- A mode with a speed. -/
structure CfgItemSpd extends CfgItem where
  /-- Milliseconds of a period. -/
  speed : ℚ := 5000
deriving DecidableEq

/-- A mode with a colour. -/
structure CfgItemHue extends CfgItemSpd where
  /-- Colour. -/
  hue : ℚ := 1 / 2
deriving DecidableEq

/-- A configuration, as it lies in memory. -/
structure CfgSet where
  /-- Number of the mode. -/
  mode : UInt32 := 0
  /-- The load mode shows the load of the cores. -/
  loadCpu : Bool := true
  /-- The load mode shows the load of the graphics processor. -/
  loadGpu : Bool := false
  /-- Bytes between two fields. -/
  padding : UInt16 := 0
  /-- Milliseconds between two ticks. -/
  updateMs : UInt32 := 200
  /-- Number of pixels. -/
  numPixels : UInt32 := 9
  /-- The load mode. -/
  load : CfgItem := {}
  /-- The temperature mode. -/
  temperature : CfgItem := {}
  /-- The cycle mode. -/
  cycle : CfgItemSpd := {}
  /-- The rainbow mode. -/
  rainbow : CfgItemSpd := {}
  /-- The pulse mode. -/
  pulse : CfgItemHue := {}
deriving DecidableEq

namespace CfgSet

/-- The mode, if its number is one. -/
def rgbMode (cfg : CfgSet) : Option RgbMode := RgbMode.ofNumber cfg.mode.toNat

/-- Brightness of the mode, if it has one. -/
def brightness (cfg : CfgSet) : Option ℚ :=
  match cfg.rgbMode with
  | some .pulse => some cfg.pulse.brightness
  | some .cycle => some cfg.cycle.brightness
  | some .rainbow => some cfg.rainbow.brightness
  | some .load => some cfg.load.brightness
  | some .temperature => some cfg.temperature.brightness
  | some .off | none => none

/-- Speed of the mode, if it has one. -/
def speed (cfg : CfgSet) : Option ℚ :=
  match cfg.rgbMode with
  | some .pulse => some cfg.pulse.speed
  | some .cycle => some cfg.cycle.speed
  | some .rainbow => some cfg.rainbow.speed
  | _ => none

/-- Colour of the mode, if it has one. -/
def hue (cfg : CfgSet) : Option ℚ :=
  match cfg.rgbMode with
  | some .pulse => some cfg.pulse.hue
  | _ => none

end CfgSet

/-- Conversion between a configuration and its text. -/
structure Codec where
  /-- Text of a configuration. -/
  text : CfgSet → List UInt8
  /-- Configuration of a text; the default one if it is not well formed. -/
  parse : List UInt8 → CfgSet

/-- The configuration file. -/
structure ConfigFile where
  /-- Contents. -/
  text : List UInt8
  /-- Time of modification. -/
  modified : Int

/-- What the file system does in a call. -/
structure FileEnv where
  /-- The file is looked for. -/
  finds : Bool
  /-- The file is opened. -/
  opens : Bool
  /-- The size is known. -/
  sizes : Bool
  /-- The contents are read. -/
  reads : Bool
  /-- The time of modification is known. -/
  stamps : Bool
  /-- The file is deleted. -/
  deletes : Bool
  /-- An empty file is created. -/
  creates : Bool
  /-- The contents are written. -/
  writes : Bool
  /-- What a write that fails leaves. -/
  torn : ConfigFile
  /-- Time of the modifications. -/
  now : Int

/-- The configuration in memory. -/
structure ConfigImpl where
  /-- Configuration. -/
  config : CfgSet
  /-- Nanoseconds at the last look at the file. -/
  lastCheck : UInt64
  /-- The configuration is that of the file. -/
  loaded : Bool
  /-- Time of modification of the file when it was loaded or saved. -/
  mtime : Int

/-- Bytes of the text buffer. -/
def cfgBufMax : Nat := 1024

/-- Nanoseconds between two looks at the file. -/
def fileCfgCheckIntervalNs : UInt64 := 5000000000

namespace ConfigImpl

/-- The configuration at the start. -/
def init : ConfigImpl := ⟨{}, 0, false, 0⟩

/-- Forget the configuration. -/
def close (impl : ConfigImpl) : ConfigImpl := { impl with loaded := false, config := {} }

/-- Whether a file is read, with what the file system does. -/
def readable (env : FileEnv) (file : ConfigFile) : Bool :=
  env.finds && env.opens && env.sizes && (0 < file.text.length && file.text.length < cfgBufMax - 1)
    && env.reads

/-- Read the file, or forget the configuration. -/
def load (codec : Codec) (env : FileEnv) (file : Option ConfigFile) (impl : ConfigImpl) :
    Bool × ConfigImpl :=
  match file with
  | none => (false, impl.close)
  | some file =>
    if readable env file then
      (true, { impl.close with config := codec.parse file.text, loaded := true })
    else (false, impl.close)

/-- Time of modification, or zero if it is not known. -/
def checkModificationTime (env : FileEnv) (file : Option ConfigFile) : Int :=
  if env.stamps then (file.map ConfigFile.modified).getD 0 else 0

/-- Look at the file, if it is time to. -/
def refresh (codec : Codec) (clock : UInt64) (env : FileEnv) (file : Option ConfigFile)
    (impl : ConfigImpl) : Bool × ConfigImpl :=
  if clock - impl.lastCheck < fileCfgCheckIntervalNs then (false, impl)
  else
    let impl := { impl with lastCheck := clock }
    let modTime := checkModificationTime env file
    if !impl.loaded || impl.mtime != modTime then
      match load codec env file impl with
      | (true, impl) => (true, { impl with mtime := modTime })
      | (false, impl) => (false, impl)
    else (false, impl)

/-- Contents after a write from the start. -/
def overwrite (before text : List UInt8) : List UInt8 := text ++ before.drop text.length

/-- The file before its contents are written. -/
def fresh (env : FileEnv) (file : Option ConfigFile) : Option ConfigFile :=
  match if env.deletes then none else file with
  | some file => some file
  | none => if env.creates then some ⟨[], env.now⟩ else none

/-- Write a configuration to the file. -/
def save (codec : Codec) (env : FileEnv) (config : CfgSet) (file : Option ConfigFile) :
    Bool × Option ConfigFile :=
  match fresh env file with
  | none => (false, none)
  | some file =>
    if !env.opens then (false, some file)
    else if env.writes then
      (true, some ⟨overwrite file.text (codec.text config), env.now⟩)
    else (false, some env.torn)

/-- Write the configuration to the file. -/
def saveConfig (codec : Codec) (env : FileEnv) (file : Option ConfigFile) (impl : ConfigImpl) :
    ConfigImpl × Option ConfigFile :=
  match save codec env impl.config file with
  | (true, file) =>
    ({ impl with mtime := checkModificationTime env file, loaded := true }, file)
  | (false, file) => (impl, file)

/-- Writing the file is no look at it. -/
@[simp] theorem saveConfig_lastCheck (codec : Codec) (env : FileEnv) (file : Option ConfigFile)
    (impl : ConfigImpl) : (saveConfig codec env file impl).1.lastCheck = impl.lastCheck := by
  unfold saveConfig
  split <;> rfl

/-- The configuration has been seen at the file's time of modification. -/
def Current (impl : ConfigImpl) (file : Option ConfigFile) : Prop :=
  impl.loaded = true → impl.mtime = (file.map ConfigFile.modified).getD 0

/-- The time of modification, once it is known. -/
theorem checkModificationTime_known {env : FileEnv} (stamps : env.stamps = true)
    (file : Option ConfigFile) :
    checkModificationTime env file = (file.map ConfigFile.modified).getD 0 := if_pos stamps

/-- A file that has been loaded and not changed is not read again. -/
theorem refresh_loaded {impl : ConfigImpl} {file : Option ConfigFile} (current : impl.Current file)
    (loaded : impl.loaded = true) {env : FileEnv} (stamps : env.stamps = true) (codec : Codec)
    (clock : UInt64) :
    ∃ lastCheck,
      refresh codec clock env file impl = (false, { impl with lastCheck := lastCheck }) := by
  rw [refresh]
  split
  · exact ⟨impl.lastCheck, rfl⟩
  · have same : impl.mtime = checkModificationTime env file := by
      rw [checkModificationTime_known stamps, current loaded]
    refine ⟨clock, ?_⟩
    simp [loaded, same]

/-- A file that is not loaded leaves the configuration forgotten. -/
theorem load_failed {impl later : ConfigImpl} {file : Option ConfigFile} {env : FileEnv}
    {codec : Codec} (failed : load codec env file impl = (false, later)) :
    later = impl.close := by
  unfold load at failed
  split at failed
  · exact (congrArg Prod.snd failed).symm
  · split at failed
    · exact absurd (congrArg Prod.fst failed) (by simp)
    · exact (congrArg Prod.snd failed).symm

/-- Looking at the file either loads it, or leaves the configuration, or forgets it. -/
theorem refresh_cases (codec : Codec) (clock : UInt64) {env : FileEnv} (stamps : env.stamps = true)
    (file : Option ConfigFile) (impl : ConfigImpl) :
    (∃ later, refresh codec clock env file impl = (true, later) ∧ later.Current file) ∨
      (∃ lastCheck, refresh codec clock env file impl =
        (false, { impl with lastCheck := lastCheck })) ∨
      ∃ later, refresh codec clock env file impl = (false, later) ∧ later.loaded = false := by
  rw [refresh]
  split
  · exact .inr (.inl ⟨impl.lastCheck, rfl⟩)
  · simp only []
    split
    · cases read : load codec env file { impl with lastCheck := clock } with
      | mk found later =>
        cases found with
        | true =>
          exact .inl ⟨_, rfl, fun _ => checkModificationTime_known stamps file⟩
        | false =>
          refine .inr (.inr ⟨later, rfl, ?_⟩)
          rw [load_failed read]
          rfl
    · exact .inr (.inl ⟨clock, rfl⟩)

/-- A configuration that has been saved is loaded and seen. -/
theorem saveConfig_saved {codec : Codec} {env : FileEnv} {file : Option ConfigFile}
    {impl : ConfigImpl} (saved : (save codec env impl.config file).1 = true)
    (stamps : env.stamps = true) :
    (saveConfig codec env file impl).1.config = impl.config ∧
      (saveConfig codec env file impl).1.loaded = true ∧
      (saveConfig codec env file impl).1.Current (saveConfig codec env file impl).2 := by
  unfold saveConfig
  cases written : save codec env impl.config file with
  | mk done later =>
    rw [written] at saved
    have done' : done = true := saved
    subst done'
    exact ⟨rfl, rfl, fun _ => checkModificationTime_known stamps later⟩

end ConfigImpl

end Fly2040.App
