import Fly2040.App.Config
import Fly2040.App.Memstream
import Fly2040.Lib.JsonParse
/-!
# Text of a configuration

A configuration is written as an object with a member for each field, through a stream over the
text buffer, and read back from such an object. A member that is missing at the top leaves the
default of its field; one that is missing in a mode, or has another type, leaves the whole
configuration at its defaults. Floats are written as doubles; their text and the conversions from
doubles are parameters.
-/

namespace Fly2040.App

open Json Leds

/-- Text of doubles and conversions from them. -/
structure FloatText where
  /-- Text of a double. -/
  numbers : Numbers ℚ
  /-- The float next to a double. -/
  single : ℚ → ℚ
  /-- Unsigned number of a double. -/
  unsigned : ℚ → UInt32

section Conversions

variable (floats : FloatText)

/-- Read a truth value. -/
def getBool : Value ℚ → Option Bool
  | .bool flag => some flag
  | _ => none

/-- Read a float. -/
def getFloat : Value ℚ → Option ℚ
  | .unsigned number => some (floats.single number)
  | .integer number => some (floats.single number)
  | .float number => some (floats.single number)
  | .bool flag => some (if flag then 1 else 0)
  | _ => none

/-- Read an unsigned number. -/
def getUint : Value ℚ → Option UInt32
  | .unsigned number => some (UInt32.ofNat number)
  | .integer number => some (UInt32.ofInt number)
  | .float number => some (floats.unsigned number)
  | .bool flag => some (if flag then 1 else 0)
  | _ => none

/-- Read the member of a key. -/
def atKey {α : Type} (get : Value ℚ → Option α) (key : String) : Value ℚ → Option α
  | .object members => (find (ascii key) members).bind get
  | _ => none

/-- Read the member of a key, if there is one. -/
def valueOr {α : Type} (get : Value ℚ → Option α) (key : String) (default : α) :
    Value ℚ → Option α
  | .object members =>
    match find (ascii key) members with
    | some value => get value
    | none => some default
  | _ => none

/-- Numbers of the modes and their names. -/
def rgbModeNames : List (UInt32 × String) :=
  [(0, "off"), (1, "pulse"), (2, "cycle"), (3, "rainbow"), (4, "load"), (5, "temperature")]

/-- Write a mode. -/
def modeToJson (mode : UInt32) : Value ℚ :=
  .string (ascii ((rgbModeNames.find? fun entry => entry.1 = mode).getD (0, "off")).2)

/-- Read a mode. -/
def getMode : Value ℚ → Option UInt32
  | .string text =>
    some ((rgbModeNames.find? fun entry => ascii entry.2 = text).getD (0, "off")).1
  | _ => some 0

/-- Write a mode with a brightness. -/
def CfgItem.toJson (item : CfgItem) : Value ℚ :=
  .object (ofMembers [(ascii "brightness", .float item.brightness)])

/-- Read a mode with a brightness. -/
def CfgItem.ofJson (json : Value ℚ) : Option CfgItem := do
  let brightness ← atKey (getFloat floats) "brightness" json
  some ⟨brightness⟩

/-- Write a mode with a speed. -/
def CfgItemSpd.toJson (item : CfgItemSpd) : Value ℚ :=
  .object (ofMembers [(ascii "brightness", .float item.brightness),
    (ascii "speed", .float item.speed)])

/-- Read a mode with a speed. -/
def CfgItemSpd.ofJson (json : Value ℚ) : Option CfgItemSpd := do
  let brightness ← atKey (getFloat floats) "brightness" json
  let speed ← atKey (getFloat floats) "speed" json
  some ⟨⟨brightness⟩, speed⟩

/-- Write a mode with a colour. -/
def CfgItemHue.toJson (item : CfgItemHue) : Value ℚ :=
  .object (ofMembers [(ascii "hue", .float item.hue), (ascii "brightness", .float item.brightness),
    (ascii "speed", .float item.speed)])

/-- Read a mode with a colour. -/
def CfgItemHue.ofJson (json : Value ℚ) : Option CfgItemHue := do
  let hue ← atKey (getFloat floats) "hue" json
  let brightness ← atKey (getFloat floats) "brightness" json
  let speed ← atKey (getFloat floats) "speed" json
  some ⟨⟨⟨brightness⟩, speed⟩, hue⟩

/-- Write a configuration. -/
def CfgSet.toJson (cfg : CfgSet) : Value ℚ :=
  .object (ofMembers [
    (ascii "mode", modeToJson cfg.mode),
    (ascii "load_cpu", .bool cfg.loadCpu),
    (ascii "load_gpu", .bool cfg.loadGpu),
    (ascii "update_ms", .unsigned cfg.updateMs.toNat),
    (ascii "num_pixels", .unsigned cfg.numPixels.toNat),
    (ascii "load", cfg.load.toJson),
    (ascii "temperature", cfg.temperature.toJson),
    (ascii "cycle", cfg.cycle.toJson),
    (ascii "rainbow", cfg.rainbow.toJson),
    (ascii "pulse", cfg.pulse.toJson)])

/-- Read a configuration. -/
def CfgSet.ofJson (json : Value ℚ) : Option CfgSet := do
  let defaults : CfgSet := {}
  let mode ← valueOr getMode "mode" defaults.mode json
  let loadCpu ← valueOr getBool "load_cpu" defaults.loadCpu json
  let loadGpu ← valueOr getBool "load_gpu" defaults.loadGpu json
  let updateMs ← valueOr (getUint floats) "update_ms" defaults.updateMs json
  let numPixels ← valueOr (getUint floats) "num_pixels" defaults.numPixels json
  let load ← valueOr (CfgItem.ofJson floats) "load" defaults.load json
  let temperature ← valueOr (CfgItem.ofJson floats) "temperature" defaults.temperature json
  let cycle ← valueOr (CfgItemSpd.ofJson floats) "cycle" defaults.cycle json
  let rainbow ← valueOr (CfgItemSpd.ofJson floats) "rainbow" defaults.rainbow json
  let pulse ← valueOr (CfgItemHue.ofJson floats) "pulse" defaults.pulse json
  some { defaults with
    mode, loadCpu, loadGpu, updateMs, numPixels, load, temperature, cycle, rainbow, pulse }

/-- Write a configuration to a stream. -/
def toStream (cfg : CfgSet) (indent : Int) (stream : Memstream) : Memstream :=
  let layout := if 0 < indent then Layout.pretty indent.toNat else Layout.compact
  ((stream.clear.setPos 0 0).write (text floats.numbers layout 0 cfg.toJson)).putChar 0x0A

/-- Read a configuration; the default one if the text is none. -/
def parseCfg (text : List UInt8) : CfgSet :=
  ((parse floats.numbers text).bind (CfgSet.ofJson floats)).getD {}

/-- The conversion between a configuration and its text, through the stream of the text buffer. -/
def jsonCodec (stream : Memstream) : Codec where
  text cfg := (toStream floats cfg 4 stream).contents
  parse := parseCfg floats

end Conversions

section Objects

/-- A mode with a brightness as an object. -/
theorem CfgItem.toJson_eq (item : CfgItem) :
    item.toJson = .object [(ascii "brightness", .float item.brightness)] := rfl

/-- A mode with a speed as an object. -/
theorem CfgItemSpd.toJson_eq (item : CfgItemSpd) : item.toJson = .object [
    (ascii "brightness", .float item.brightness),
    (ascii "speed", .float item.speed)] := by
  unfold toJson
  rfl

/-- A mode with a colour as an object. -/
theorem CfgItemHue.toJson_eq (item : CfgItemHue) : item.toJson = .object [
    (ascii "brightness", .float item.brightness),
    (ascii "hue", .float item.hue),
    (ascii "speed", .float item.speed)] := by
  unfold toJson
  rfl

/-- A configuration as an object. -/
theorem CfgSet.toJson_eq (cfg : CfgSet) : cfg.toJson = .object [
    (ascii "cycle", cfg.cycle.toJson),
    (ascii "load", cfg.load.toJson),
    (ascii "load_cpu", .bool cfg.loadCpu),
    (ascii "load_gpu", .bool cfg.loadGpu),
    (ascii "mode", modeToJson cfg.mode),
    (ascii "num_pixels", .unsigned cfg.numPixels.toNat),
    (ascii "pulse", cfg.pulse.toJson),
    (ascii "rainbow", cfg.rainbow.toJson),
    (ascii "temperature", cfg.temperature.toJson),
    (ascii "update_ms", .unsigned cfg.updateMs.toNat)] := by
  unfold toJson
  rfl

end Objects

section RoundTrip

variable {floats : FloatText}

/-- A float survives the text of its double, which is short. -/
structure FloatText.Keeps (floats : FloatText) (number : ℚ) : Prop where
  /-- The double is read back from its text. -/
  exact : floats.numbers.Exact number
  /-- The text is short. -/
  short : (floats.numbers.print number).length ≤ 24
  /-- The number is a float. -/
  single : floats.single number = number

/-- A float is read back. -/
theorem FloatText.Keeps.getFloat {number : ℚ} (keeps : floats.Keeps number) :
    getFloat floats (.float number) = some number := congrArg some keeps.single

/-- An unsigned number is read back. -/
theorem getUint_toNat (floats : FloatText) (number : UInt32) :
    getUint floats (.unsigned number.toNat) = some number := by
  rw [getUint, UInt32.ofNat_toNat]

/-- Floats of a mode with a brightness survive. -/
structure CfgItem.Keeps (floats : FloatText) (item : CfgItem) : Prop where
  /-- Brightness. -/
  brightness : floats.Keeps item.brightness

/-- Floats of a mode with a speed survive. -/
structure CfgItemSpd.Keeps (floats : FloatText) (item : CfgItemSpd) : Prop where
  /-- Brightness. -/
  brightness : floats.Keeps item.brightness
  /-- Speed. -/
  speed : floats.Keeps item.speed

/-- Floats of a mode with a colour survive. -/
structure CfgItemHue.Keeps (floats : FloatText) (item : CfgItemHue) : Prop where
  /-- Brightness. -/
  brightness : floats.Keeps item.brightness
  /-- Speed. -/
  speed : floats.Keeps item.speed
  /-- Colour. -/
  hue : floats.Keeps item.hue

/-- Floats of a configuration survive. -/
structure CfgSet.Keeps (floats : FloatText) (cfg : CfgSet) : Prop where
  /-- The load mode. -/
  load : cfg.load.Keeps floats
  /-- The temperature mode. -/
  temperature : cfg.temperature.Keeps floats
  /-- The cycle mode. -/
  cycle : cfg.cycle.Keeps floats
  /-- The rainbow mode. -/
  rainbow : cfg.rainbow.Keeps floats
  /-- The pulse mode. -/
  pulse : cfg.pulse.Keeps floats

/-- A mode with a brightness is read back. -/
theorem CfgItem.ofJson_toJson {item : CfgItem} (keeps : item.Keeps floats) :
    CfgItem.ofJson floats item.toJson = some item := by
  have brightness : atKey (getFloat floats) "brightness" item.toJson = some item.brightness :=
    keeps.brightness.getFloat
  rw [ofJson, brightness]
  rfl

/-- A mode with a speed is read back. -/
theorem CfgItemSpd.ofJson_toJson {item : CfgItemSpd} (keeps : item.Keeps floats) :
    CfgItemSpd.ofJson floats item.toJson = some item := by
  have brightness : atKey (getFloat floats) "brightness" item.toJson = some item.brightness :=
    keeps.brightness.getFloat
  have speed : atKey (getFloat floats) "speed" item.toJson = some item.speed :=
    keeps.speed.getFloat
  rw [ofJson, brightness, speed]
  rfl

/-- A mode with a colour is read back. -/
theorem CfgItemHue.ofJson_toJson {item : CfgItemHue} (keeps : item.Keeps floats) :
    CfgItemHue.ofJson floats item.toJson = some item := by
  have hue : atKey (getFloat floats) "hue" item.toJson = some item.hue := keeps.hue.getFloat
  have brightness : atKey (getFloat floats) "brightness" item.toJson = some item.brightness :=
    keeps.brightness.getFloat
  have speed : atKey (getFloat floats) "speed" item.toJson = some item.speed :=
    keeps.speed.getFloat
  rw [ofJson, hue, brightness, speed]
  rfl

/-- The numbers of the modes. -/
theorem mode_cases {mode : UInt32} (known : RgbMode.ofNumber mode.toNat ≠ none) :
    mode ∈ rgbModeNames.map Prod.fst := by
  have small : mode.toNat < 6 := by
    by_contra large
    refine known ?_
    obtain ⟨more, same⟩ := Nat.exists_eq_add_of_le (Nat.le_of_not_lt large)
    rw [same, Nat.add_comm]
    rfl
  have all : ∀ number < 6, UInt32.ofNat number ∈ rgbModeNames.map Prod.fst := by decide
  have inside := all _ small
  rwa [UInt32.ofNat_toNat] at inside

/-- A mode is read back from its name. -/
theorem getMode_modeToJson {mode : UInt32} (known : RgbMode.ofNumber mode.toNat ≠ none) :
    getMode (modeToJson mode) = some mode := by
  have all : (rgbModeNames.map Prod.fst).all (fun mode => getMode (modeToJson mode) = some mode) =
      true := by decide
  exact of_decide_eq_true (List.all_eq_true.mp all mode (mode_cases known))

/-- A configuration is read back. -/
theorem CfgSet.ofJson_toJson {cfg : CfgSet} (known : cfg.rgbMode ≠ none)
    (keeps : cfg.Keeps floats) :
    CfgSet.ofJson floats cfg.toJson = some { cfg with padding := 0 } := by
  have mode (default : UInt32) : valueOr getMode "mode" default cfg.toJson = some cfg.mode := by
    rw [toJson_eq]
    exact getMode_modeToJson known
  have loadCpu (default : Bool) :
      valueOr getBool "load_cpu" default cfg.toJson = some cfg.loadCpu := by
    rw [toJson_eq]
    rfl
  have loadGpu (default : Bool) :
      valueOr getBool "load_gpu" default cfg.toJson = some cfg.loadGpu := by
    rw [toJson_eq]
    rfl
  have updateMs (default : UInt32) :
      valueOr (getUint floats) "update_ms" default cfg.toJson = some cfg.updateMs := by
    rw [toJson_eq]
    exact getUint_toNat floats cfg.updateMs
  have numPixels (default : UInt32) :
      valueOr (getUint floats) "num_pixels" default cfg.toJson = some cfg.numPixels := by
    rw [toJson_eq]
    exact getUint_toNat floats cfg.numPixels
  have load (default : CfgItem) :
      valueOr (CfgItem.ofJson floats) "load" default cfg.toJson = some cfg.load := by
    rw [toJson_eq]
    exact CfgItem.ofJson_toJson keeps.load
  have temperature (default : CfgItem) :
      valueOr (CfgItem.ofJson floats) "temperature" default cfg.toJson = some cfg.temperature := by
    rw [toJson_eq]
    exact CfgItem.ofJson_toJson keeps.temperature
  have cycle (default : CfgItemSpd) :
      valueOr (CfgItemSpd.ofJson floats) "cycle" default cfg.toJson = some cfg.cycle := by
    rw [toJson_eq]
    exact CfgItemSpd.ofJson_toJson keeps.cycle
  have rainbow (default : CfgItemSpd) :
      valueOr (CfgItemSpd.ofJson floats) "rainbow" default cfg.toJson = some cfg.rainbow := by
    rw [toJson_eq]
    exact CfgItemSpd.ofJson_toJson keeps.rainbow
  have pulse (default : CfgItemHue) :
      valueOr (CfgItemHue.ofJson floats) "pulse" default cfg.toJson = some cfg.pulse := by
    rw [toJson_eq]
    exact CfgItemHue.ofJson_toJson keeps.pulse
  simp only [ofJson, mode, loadCpu, loadGpu, updateMs, numPixels, load, temperature, cycle, rainbow,
    pulse, Option.bind_eq_bind, Option.bind_some]

/-- Plain keys are characters. -/
theorem utf8_keys {keys : List (List UInt8)} (plain : keys.all isPlain = true) :
    ∀ key ∈ keys, Utf8 key := fun key inside => utf8_plain (List.all_eq_true.mp plain key inside)

/-- A mode with a brightness can be written. -/
theorem CfgItem.Keeps.wellFormed {item : CfgItem} (keeps : item.Keeps floats) :
    item.toJson.WellFormed floats.numbers := by
  have keys : ∀ key ∈ ["brightness"].map ascii, Utf8 key := utf8_keys (by decide)
  refine wellFormed_ofMembers keys ?_
  exact List.forall_mem_singleton.mpr (.float keeps.brightness.exact)

/-- A mode with a speed can be written. -/
theorem CfgItemSpd.Keeps.wellFormed {item : CfgItemSpd} (keeps : item.Keeps floats) :
    item.toJson.WellFormed floats.numbers := by
  have keys : ∀ key ∈ ["brightness", "speed"].map ascii, Utf8 key := utf8_keys (by decide)
  refine wellFormed_ofMembers keys ?_
  simp only [List.map_cons, List.map_nil, List.forall_mem_cons]
  exact ⟨.float keeps.brightness.exact, .float keeps.speed.exact, nofun⟩

/-- A mode with a colour can be written. -/
theorem CfgItemHue.Keeps.wellFormed {item : CfgItemHue} (keeps : item.Keeps floats) :
    item.toJson.WellFormed floats.numbers := by
  have keys : ∀ key ∈ ["hue", "brightness", "speed"].map ascii, Utf8 key := utf8_keys (by decide)
  refine wellFormed_ofMembers keys ?_
  simp only [List.map_cons, List.map_nil, List.forall_mem_cons]
  exact ⟨.float keeps.hue.exact, .float keeps.brightness.exact, .float keeps.speed.exact, nofun⟩

/-- The name of a mode is in the table. -/
theorem modeToJson_name (mode : UInt32) :
    ∃ entry ∈ rgbModeNames, modeToJson mode = .string (ascii entry.2) := by
  unfold modeToJson
  cases found : rgbModeNames.find? fun entry => entry.1 = mode with
  | none => exact ⟨(0, "off"), by decide, rfl⟩
  | some entry => exact ⟨entry, List.mem_of_find?_eq_some found, rfl⟩

/-- A mode can be written. -/
theorem modeToJson_wellFormed (mode : UInt32) : (modeToJson mode).WellFormed floats.numbers := by
  have plain : rgbModeNames.all (fun entry => isPlain (ascii entry.2)) = true := by decide
  obtain ⟨entry, inside, same⟩ := modeToJson_name mode
  rw [same]
  exact .string (utf8_plain (List.all_eq_true.mp plain entry inside))

/-- An unsigned number can be written. -/
theorem unsigned_wellFormed (number : UInt32) :
    Value.WellFormed floats.numbers (.unsigned number.toNat) :=
  .unsigned (Nat.lt_trans number.toNat_lt (by decide))

/-- A configuration can be written. -/
theorem CfgSet.Keeps.wellFormed {cfg : CfgSet} (keeps : cfg.Keeps floats) :
    cfg.toJson.WellFormed floats.numbers := by
  have keys : ∀ key ∈ ["mode", "load_cpu", "load_gpu", "update_ms", "num_pixels", "load",
      "temperature", "cycle", "rainbow", "pulse"].map ascii, Utf8 key := utf8_keys (by decide)
  refine wellFormed_ofMembers keys ?_
  simp only [List.map_cons, List.map_nil, List.forall_mem_cons]
  exact ⟨modeToJson_wellFormed cfg.mode, .bool _, .bool _, unsigned_wellFormed cfg.updateMs,
    unsigned_wellFormed cfg.numPixels, keeps.load.wellFormed, keeps.temperature.wellFormed,
    keeps.cycle.wellFormed, keeps.rainbow.wellFormed, keeps.pulse.wellFormed, nofun⟩

/-- A truth value is short. -/
theorem length_bool (numbers : Numbers ℚ) (layout : Layout) (depth : Nat) (flag : Bool) :
    (text numbers layout depth (.bool flag)).length ≤ 5 := by
  cases flag with
  | false => exact Nat.le_refl 5
  | true => exact Nat.le_succ 4

/-- An unsigned number is short. -/
theorem length_unsigned (numbers : Numbers ℚ) (layout : Layout) (depth : Nat) (number : UInt32) :
    (text numbers layout depth (.unsigned number.toNat)).length ≤ 10 := by
  rw [text]
  exact decimal_length (by decide) (Nat.lt_trans number.toNat_lt (by decide))

/-- A mode is short. -/
theorem length_mode (numbers : Numbers ℚ) (layout : Layout) (depth : Nat) (mode : UInt32) :
    (text numbers layout depth (modeToJson mode)).length ≤ 13 := by
  have short : rgbModeNames.all (fun entry => (quoted (ascii entry.2)).length ≤ 13) = true := by
    decide
  obtain ⟨entry, inside, same⟩ := modeToJson_name mode
  rw [same, text]
  exact of_decide_eq_true (List.all_eq_true.mp short entry inside)

/-- A float is short. -/
theorem FloatText.Keeps.length_le {number : ℚ} (keeps : floats.Keeps number) (layout : Layout)
    (depth : Nat) : (text floats.numbers layout depth (.float number)).length ≤ 24 := by
  rw [text]
  exact keeps.short

/-- Lengths of the keys of the modes. -/
theorem length_itemKeys : (quoted (ascii "brightness")).length = 12 ∧
    (quoted (ascii "speed")).length = 7 ∧ (quoted (ascii "hue")).length = 5 := by decide

/-- A mode with a brightness is short. -/
theorem CfgItem.Keeps.length_le {item : CfgItem} (keeps : item.Keeps floats) :
    (text floats.numbers (.pretty 4) 1 item.toJson).length ≤ 54 := by
  have brightness := keeps.brightness.length_le (.pretty 4) 2
  obtain ⟨key, _⟩ := length_itemKeys
  rw [toJson_eq]
  simp only [length_object, length_textMembers_cons, length_textMembers_nil, Layout.length_lead,
    Layout.length_gap, Nat.reduceAdd, key]
  omega

/-- A mode with a speed is short. -/
theorem CfgItemSpd.Keeps.length_le {item : CfgItemSpd} (keeps : item.Keeps floats) :
    (text floats.numbers (.pretty 4) 1 item.toJson).length ≤ 97 := by
  have brightness := keeps.brightness.length_le (.pretty 4) 2
  have speed := keeps.speed.length_le (.pretty 4) 2
  obtain ⟨key, key', _⟩ := length_itemKeys
  rw [toJson_eq]
  simp only [length_object, length_textMembers_cons, length_textMembers_nil, Layout.length_lead,
    Layout.length_gap, Nat.reduceAdd, key, key']
  omega

/-- A mode with a colour is short. -/
theorem CfgItemHue.Keeps.length_le {item : CfgItemHue} (keeps : item.Keeps floats) :
    (text floats.numbers (.pretty 4) 1 item.toJson).length ≤ 138 := by
  have brightness := keeps.brightness.length_le (.pretty 4) 2
  have speed := keeps.speed.length_le (.pretty 4) 2
  have hue := keeps.hue.length_le (.pretty 4) 2
  obtain ⟨key, key', key''⟩ := length_itemKeys
  rw [toJson_eq]
  simp only [length_object, length_textMembers_cons, length_textMembers_nil, Layout.length_lead,
    Layout.length_gap, Nat.reduceAdd, key, key', key'']
  omega

/-- Lengths of the keys of a configuration. -/
theorem length_cfgKeys : ["cycle", "load", "load_cpu", "load_gpu", "mode", "num_pixels", "pulse",
    "rainbow", "temperature", "update_ms"].map (fun key => (quoted (ascii key)).length) =
    [7, 6, 10, 10, 6, 12, 7, 9, 13, 11] := by decide

/-- A configuration is short. -/
theorem CfgSet.Keeps.length_le {cfg : CfgSet} (keeps : cfg.Keeps floats) :
    (text floats.numbers (.pretty 4) 0 cfg.toJson).length ≤ 656 := by
  have mode := length_mode floats.numbers (.pretty 4) 1 cfg.mode
  have loadCpu := length_bool floats.numbers (.pretty 4) 1 cfg.loadCpu
  have loadGpu := length_bool floats.numbers (.pretty 4) 1 cfg.loadGpu
  have updateMs := length_unsigned floats.numbers (.pretty 4) 1 cfg.updateMs
  have numPixels := length_unsigned floats.numbers (.pretty 4) 1 cfg.numPixels
  have load := keeps.load.length_le
  have temperature := keeps.temperature.length_le
  have cycle := keeps.cycle.length_le
  have rainbow := keeps.rainbow.length_le
  have pulse := keeps.pulse.length_le
  have keys := length_cfgKeys
  simp only [List.map_cons, List.map_nil, List.cons.injEq] at keys
  rw [toJson_eq]
  simp only [length_object, length_textMembers_cons, length_textMembers_nil, Layout.length_lead,
    Layout.length_gap, Nat.reduceAdd, keys]
  omega

/-- The text of a configuration is written whole, with a line break behind it. -/
theorem CfgSet.Keeps.toStream_holds {cfg : CfgSet} (keeps : cfg.Keeps floats) {stream : Memstream}
    (len : stream.len = cfgBufMax) : (toStream floats cfg 4 stream).Holds cfgBufMax
      (text floats.numbers (.pretty 4) 0 cfg.toJson ++ [0x0A]) := by
  have short := keeps.length_le
  have room : 0 + (text floats.numbers (.pretty 4) 0 cfg.toJson).length < cfgBufMax := by
    rw [cfgBufMax]
    omega
  have room' : (text floats.numbers (.pretty 4) 0 cfg.toJson).length + 1 < cfgBufMax := by
    rw [cfgBufMax]
    omega
  have start := Memstream.holds_nil len (by decide)
  have written := start.write room
  rw [List.nil_append] at written
  exact written.putChar 0x0A room'

/-- A configuration is read back from its text. -/
theorem CfgSet.Keeps.parse_text {cfg : CfgSet} (keeps : cfg.Keeps floats)
    (known : cfg.rgbMode ≠ none) :
    parseCfg floats (text floats.numbers (.pretty 4) 0 cfg.toJson ++ [0x0A]) =
      { cfg with padding := 0 } := by
  have blanks : ∀ byte ∈ [(0x0A : UInt8)], isBlank byte = true :=
    List.forall_mem_singleton.mpr rfl
  rw [parseCfg, Json.parse_text keeps.wellFormed blanks, Option.bind_some,
    CfgSet.ofJson_toJson known keeps]
  rfl

open ConfigImpl

/-- The file is found, opened and read. -/
def FileEnv.Accessible (env : FileEnv) : Prop :=
  env.finds = true ∧ env.opens = true ∧ env.sizes = true ∧ env.reads = true

/-- An accessible file with a length that is read is loaded. -/
theorem load_accessible {env : FileEnv} (accessible : env.Accessible) {file : ConfigFile}
    (filled : 0 < file.text.length) (fits : file.text.length < cfgBufMax - 1) (codec : Codec)
    (impl : ConfigImpl) : load codec env (some file) impl =
      (true, { impl with config := codec.parse file.text, loaded := true }) := by
  obtain ⟨finds, opens, sizes, reads⟩ := accessible
  have readable : readable env file = true := by
    rw [ConfigImpl.readable, finds, opens, sizes, reads, decide_eq_true filled,
      decide_eq_true fits]
    rfl
  rw [load, if_pos readable]
  rfl

/-- A file that has been saved over nothing longer than the text holds the text. -/
theorem save_text {codec : Codec} {env : FileEnv} {cfg : CfgSet} {file saved : Option ConfigFile}
    (shorter : ∀ before, fresh env file = some before →
      before.text.length ≤ (codec.text cfg).length)
    (done : save codec env cfg file = (true, saved)) :
    ∃ after, saved = some after ∧ after.text = codec.text cfg := by
  unfold save at done
  cases before : fresh env file with
  | none =>
    rw [before] at done
    exact absurd (congrArg Prod.fst done) Bool.false_ne_true
  | some before' =>
    rw [before] at done
    simp only [] at done
    split at done
    · exact absurd (congrArg Prod.fst done) Bool.false_ne_true
    · split at done
      · refine ⟨_, (congrArg Prod.snd done).symm, ?_⟩
        rw [overwrite, List.drop_of_length_le (shorter before' before), List.append_nil]
      · exact absurd (congrArg Prod.fst done) Bool.false_ne_true

/-- The text of a configuration with a known mode has a length that is read, it is what a save
leaves that finds nothing longer, and a file of it is loaded with all fields. -/
theorem load_toStream {cfg : CfgSet} (known : cfg.rgbMode ≠ none) (keeps : cfg.Keeps floats)
    {stream : Memstream} (len : stream.len = cfgBufMax) :
    (0 < (toStream floats cfg 4 stream).available ∧
      (toStream floats cfg 4 stream).available < cfgBufMax - 1) ∧
    (∀ env file saved, (∀ before, fresh env file = some before →
        before.text.length ≤ (toStream floats cfg 4 stream).available) →
      save (jsonCodec floats stream) env cfg file = (true, saved) →
      ∃ after, saved = some after ∧ after.text = (toStream floats cfg 4 stream).contents) ∧
    ∀ (file : ConfigFile) (env : FileEnv) (impl : ConfigImpl) (stream' : Memstream),
      file.text = (toStream floats cfg 4 stream).contents → env.Accessible →
      load (jsonCodec floats stream') env (some file) impl =
        (true, { impl with config := { cfg with padding := 0 }, loaded := true }) := by
  have holds := keeps.toStream_holds len
  have short := keeps.length_le
  have size : (toStream floats cfg 4 stream).contents.length =
      (toStream floats cfg 4 stream).available := by
    rw [holds.contents, holds.available]
  have filled : 0 < (toStream floats cfg 4 stream).available := by
    rw [holds.available, List.length_append, List.length_singleton]
    omega
  have fits : (toStream floats cfg 4 stream).available < cfgBufMax - 1 := by
    rw [holds.available, List.length_append, List.length_singleton, cfgBufMax]
    omega
  refine ⟨⟨filled, fits⟩, ?_, ?_⟩
  · intro env file saved shorter done
    have text : (jsonCodec floats stream).text cfg = (toStream floats cfg 4 stream).contents := by
      simp only [jsonCodec]
    rw [← size, ← text] at shorter
    have left := save_text shorter done
    rwa [text] at left
  · intro file env impl stream' same accessible
    rw [← size, ← same] at filled fits
    rw [load_accessible accessible filled fits]
    simp only [jsonCodec, same, holds.contents, keeps.parse_text known]

/-- Some floats and their text. -/
def someFloats : List (ℚ × String) :=
  [(1, "1.0"), (1 / 4, "0.25"), (3 / 4, "0.75"), (1500, "1500.0"), (5000, "5000.0")]

/-- The text of some floats, and their conversions. -/
def someFloatText : FloatText where
  numbers := {
    print number := ascii ((someFloats.find? fun entry => entry.1 = number).getD (0, "0.0")).2
    read text := (someFloats.find? fun entry => ascii entry.2 = text).map Prod.fst }
  single number := number
  unsigned number := UInt32.ofInt number.floor

/-- Some floats survive. -/
theorem someFloatText_keeps {number : ℚ} (inside : number ∈ someFloats.map Prod.fst) :
    someFloatText.Keeps number where
  exact := by
    have scanned : ∀ number ∈ someFloats.map Prod.fst,
        scanNumber .init (someFloatText.numbers.print number) =
          (someFloatText.numbers.print number, .decimal2, []) := by decide +kernel
    have read : ∀ number ∈ someFloats.map Prod.fst,
        someFloatText.numbers.read (someFloatText.numbers.print number) = some number := by
      decide +kernel
    exact ⟨⟨_, .inl rfl, scanned number inside⟩, read number inside⟩
  short := by
    have short : ∀ number ∈ someFloats.map Prod.fst,
        (someFloatText.numbers.print number).length ≤ 24 := by decide +kernel
    exact short number inside
  single := rfl

/-- A rainbow at a quarter of the brightness. -/
def someRainbow : CfgSet :=
  { mode := 3, loadGpu := true, rainbow := ⟨⟨1 / 4⟩, 1500⟩, pulse := ⟨⟨⟨1⟩, 5000⟩, 3 / 4⟩ }

/-- The floats of the rainbow survive. -/
theorem someRainbow_keeps : someRainbow.Keeps someFloatText where
  load := ⟨someFloatText_keeps (by decide +kernel)⟩
  temperature := ⟨someFloatText_keeps (by decide +kernel)⟩
  cycle := ⟨someFloatText_keeps (by decide +kernel), someFloatText_keeps (by decide +kernel)⟩
  rainbow := ⟨someFloatText_keeps (by decide +kernel), someFloatText_keeps (by decide +kernel)⟩
  pulse := ⟨someFloatText_keeps (by decide +kernel), someFloatText_keeps (by decide +kernel),
    someFloatText_keeps (by decide +kernel)⟩

/-- A text buffer that has not been used. -/
def unusedStream : Memstream := ⟨List.replicate cfgBufMax 0, 0, 0, false⟩

/-- The rainbow is loaded from a file of its text. -/
theorem load_toStream_rainbow :
    load (jsonCodec someFloatText unusedStream)
      ⟨true, true, true, true, true, true, true, true, ⟨[], 0⟩, 0⟩
      (some ⟨(toStream someFloatText someRainbow 4 unusedStream).contents, 0⟩) .init =
      (true, { ConfigImpl.init with config := someRainbow, loaded := true }) := by
  have known : someRainbow.rgbMode ≠ none := by decide
  have len : unusedStream.len = cfgBufMax := List.length_replicate
  obtain ⟨_, _, loads⟩ := load_toStream known someRainbow_keeps len
  generalize (toStream someFloatText someRainbow 4 unusedStream).contents = text at loads ⊢
  exact loads ⟨text, 0⟩ _ _ unusedStream rfl ⟨rfl, rfl, rfl, rfl⟩

end RoundTrip

end Fly2040.App
