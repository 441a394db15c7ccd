import Fly2040.App.CfgJson
/-!
# Keys of a configuration

Each key of a configuration promises a value of its field: its own value if it is present and has
the type of the field, the default if it is absent. The promises are to be kept whatever the other
keys are. A text that lacks a key of a mode that it has, or has a value of another type, is read as
the defaults: then they are kept only if every value of the text happens to be a default.
-/

namespace Fly2040.App

open Json

section Promises

variable (floats : FloatText) (members : List (List UInt8 × Value ℚ))

/-- What a key promises. -/
def promised {α : Type} (get : Value ℚ → Option α) (key : String) (default : α)
    (members : List (List UInt8 × Value ℚ)) : Option α :=
  match find (ascii key) members with
  | none => some default
  | some value => get value

/-- What a key of a mode promises. -/
def promisedIn (mode key : String) (default : ℚ) : Option ℚ :=
  match find (ascii mode) members with
  | none => some default
  | some (.object members) => promised (getFloat floats) key default members
  | some _ => none

/-- A mode with a brightness has what its keys promise. -/
structure CfgItem.Promised (mode : String) (item : CfgItem) : Prop where
  /-- Brightness. -/
  brightness : ∀ number ∈ promisedIn floats members mode "brightness" ({} : CfgItem).brightness,
    item.brightness = number

/-- A mode with a speed has what its keys promise. -/
structure CfgItemSpd.Promised (mode : String) (item : CfgItemSpd) : Prop where
  /-- Its brightness. -/
  dimmed : item.toCfgItem.Promised floats members mode
  /-- Speed. -/
  speed : ∀ number ∈ promisedIn floats members mode "speed" ({} : CfgItemSpd).speed,
    item.speed = number

/-- A mode with a colour has what its keys promise. -/
structure CfgItemHue.Promised (mode : String) (item : CfgItemHue) : Prop where
  /-- Its brightness and its speed. -/
  moving : item.toCfgItemSpd.Promised floats members mode
  /-- Colour. -/
  hue : ∀ number ∈ promisedIn floats members mode "hue" ({} : CfgItemHue).hue, item.hue = number

/-- A configuration has what its keys promise. -/
structure CfgSet.Promised (cfg : CfgSet) : Prop where
  /-- The mode. -/
  mode : ∀ mode ∈ promised getMode "mode" ({} : CfgSet).mode members, cfg.mode = mode
  /-- The load of the cores is shown. -/
  loadCpu : ∀ flag ∈ promised getBool "load_cpu" ({} : CfgSet).loadCpu members, cfg.loadCpu = flag
  /-- The load of the graphics processor is shown. -/
  loadGpu : ∀ flag ∈ promised getBool "load_gpu" ({} : CfgSet).loadGpu members, cfg.loadGpu = flag
  /-- Milliseconds between two ticks. -/
  updateMs : ∀ number ∈ promised (getUint floats) "update_ms" ({} : CfgSet).updateMs members,
    cfg.updateMs = number
  /-- Number of pixels. -/
  numPixels : ∀ number ∈ promised (getUint floats) "num_pixels" ({} : CfgSet).numPixels members,
    cfg.numPixels = number
  /-- The load mode. -/
  load : cfg.load.Promised floats members "load"
  /-- The temperature mode. -/
  temperature : cfg.temperature.Promised floats members "temperature"
  /-- The cycle mode. -/
  cycle : cfg.cycle.Promised floats members "cycle"
  /-- The rainbow mode. -/
  rainbow : cfg.rainbow.Promised floats members "rainbow"
  /-- The pulse mode. -/
  pulse : cfg.pulse.Promised floats members "pulse"

/-- The value of a key has the type of its field, if the key is present. -/
def WellTyped {α : Type} (get : Value ℚ → Option α) (key : String)
    (members : List (List UInt8 × Value ℚ)) : Prop :=
  ∀ value, find (ascii key) members = some value → get value ≠ none

/-- A value is an object that has some keys, with floats. -/
def HasKeys (keys : List String) (value : Value ℚ) : Prop :=
  ∃ members, value = .object members ∧ ∀ key ∈ keys, ∃ number,
    find (ascii key) members = some number ∧ getFloat floats number ≠ none

/-- A mode has all its keys, if it is present. -/
def WholeMode (mode : String) (keys : List String) : Prop :=
  ∀ value, find (ascii mode) members = some value → HasKeys floats keys value

/-- Every value has the type of its field, and every mode that is present has all its keys. -/
structure Whole : Prop where
  /-- The load of the cores is shown. -/
  loadCpu : WellTyped getBool "load_cpu" members
  /-- The load of the graphics processor is shown. -/
  loadGpu : WellTyped getBool "load_gpu" members
  /-- Milliseconds between two ticks. -/
  updateMs : WellTyped (getUint floats) "update_ms" members
  /-- Number of pixels. -/
  numPixels : WellTyped (getUint floats) "num_pixels" members
  /-- The load mode. -/
  load : WholeMode floats members "load" ["brightness"]
  /-- The temperature mode. -/
  temperature : WholeMode floats members "temperature" ["brightness"]
  /-- The cycle mode. -/
  cycle : WholeMode floats members "cycle" ["brightness", "speed"]
  /-- The rainbow mode. -/
  rainbow : WholeMode floats members "rainbow" ["brightness", "speed"]
  /-- The pulse mode. -/
  pulse : WholeMode floats members "pulse" ["hue", "brightness", "speed"]

end Promises

attribute [ext] CfgItem CfgItemSpd CfgItemHue

section Reading

variable {floats : FloatText} {members : List (List UInt8 × Value ℚ)} {value : Value ℚ} {α : Type}
  {get : Value ℚ → Option α} {key mode : String} {default : α} {keys : List String}

/-- A value that is read is what its key promises. -/
theorem promised_of_valueOr {value : α} (read : valueOr get key default (.object members) =
    some value) : ∀ other ∈ promised get key default members, value = other := by
  intro other promise
  have same : promised get key default members = valueOr get key default (.object members) := by
    rw [promised, valueOr]
    cases find (ascii key) members <;> rfl
  rw [same, read] at promise
  exact Option.some.inj promise

/-- A key of an absent mode promises the default. -/
theorem promisedIn_absent (absent : find (ascii mode) members = none) {default : ℚ} :
    ∀ other ∈ promisedIn floats members mode key default, default = other := by
  intro other promise
  rw [promisedIn, absent] at promise
  exact Option.some.inj promise

/-- A number that is read from a mode is what its key promises. -/
theorem promisedIn_present (present : find (ascii mode) members = some value) {default number : ℚ}
    (read : atKey (getFloat floats) key value = some number) :
    ∀ other ∈ promisedIn floats members mode key default, number = other := by
  intro other promise
  cases value with
  | object inner =>
    rw [promisedIn, present] at promise
    change promised (getFloat floats) key default inner = some other at promise
    change (find (ascii key) inner).bind (getFloat floats) = some number at read
    cases found : find (ascii key) inner with
    | none =>
      rw [found] at read
      exact nomatch read
    | some value =>
      rw [found] at read
      rw [promised, found] at promise
      exact Option.some.inj (read.symm.trans promise)
  | _ => exact nomatch read

/-- A value is read exactly if it has the type of its field. -/
theorem valueOr_ne_none_iff :
    valueOr get key default (.object members) ≠ none ↔ WellTyped get key members := by
  rw [valueOr, WellTyped]
  cases find (ascii key) members <;> simp

/-- Floats are read from a value exactly if it has their keys. -/
theorem hasKeys_iff (some : keys ≠ []) :
    HasKeys floats keys value ↔ ∀ key ∈ keys, atKey (getFloat floats) key value ≠ none := by
  constructor
  · intro has key inside
    have ⟨members, object, all⟩ := has
    have ⟨number, found, float⟩ := all key inside
    rw [object, atKey, found, Option.bind_some]
    exact float
  · intro all
    cases value with
    | object members =>
      refine ⟨members, rfl, fun key inside => ?_⟩
      have read := all key inside
      rw [atKey] at read
      cases found : find (ascii key) members with
      | none =>
        rw [found] at read
        exact absurd rfl read
      | some number =>
        rw [found] at read
        exact ⟨number, rfl, read⟩
    | _ =>
      have ⟨key, inside⟩ := List.exists_mem_of_ne_nil keys some
      exact absurd rfl (all key inside)

/-- What is read of a mode with a brightness. -/
theorem CfgItem.ofJson_eq_some_iff {item : CfgItem} : CfgItem.ofJson floats value = some item ↔
    atKey (getFloat floats) "brightness" value = some item.brightness := by
  simp [ofJson, Option.bind_eq_some_iff, CfgItem.ext_iff]

/-- What is read of a mode with a speed. -/
theorem CfgItemSpd.ofJson_eq_some_iff {item : CfgItemSpd} :
    CfgItemSpd.ofJson floats value = some item ↔
      atKey (getFloat floats) "brightness" value = some item.brightness ∧
        atKey (getFloat floats) "speed" value = some item.speed := by
  simp [ofJson, Option.bind_eq_some_iff, CfgItemSpd.ext_iff]

/-- What is read of a mode with a colour. -/
theorem CfgItemHue.ofJson_eq_some_iff {item : CfgItemHue} :
    CfgItemHue.ofJson floats value = some item ↔
      atKey (getFloat floats) "hue" value = some item.hue ∧
        atKey (getFloat floats) "brightness" value = some item.brightness ∧
        atKey (getFloat floats) "speed" value = some item.speed := by
  simp [ofJson, Option.bind_eq_some_iff, CfgItemHue.ext_iff]

/-- A mode with a brightness is read exactly from its keys. -/
theorem CfgItem.ofJson_ne_none_iff :
    CfgItem.ofJson floats value ≠ none ↔ HasKeys floats ["brightness"] value := by
  rw [hasKeys_iff (List.cons_ne_nil _ _), List.forall_mem_singleton, Option.ne_none_iff_exists',
    Option.ne_none_iff_exists']
  simp only [ofJson_eq_some_iff]
  constructor
  · intro read
    have ⟨item, brightness⟩ := read
    exact ⟨_, brightness⟩
  · intro read
    have ⟨number, brightness⟩ := read
    exact ⟨⟨number⟩, brightness⟩

/-- A mode with a speed is read exactly from its keys. -/
theorem CfgItemSpd.ofJson_ne_none_iff :
    CfgItemSpd.ofJson floats value ≠ none ↔ HasKeys floats ["brightness", "speed"] value := by
  rw [hasKeys_iff (List.cons_ne_nil _ _), List.forall_mem_cons, List.forall_mem_singleton,
    Option.ne_none_iff_exists', Option.ne_none_iff_exists', Option.ne_none_iff_exists']
  simp only [ofJson_eq_some_iff]
  constructor
  · intro read
    have ⟨item, brightness, speed⟩ := read
    exact ⟨⟨_, brightness⟩, _, speed⟩
  · intro read
    have ⟨⟨number, brightness⟩, number', speed⟩ := read
    exact ⟨⟨⟨number⟩, number'⟩, brightness, speed⟩

/-- A mode with a colour is read exactly from its keys. -/
theorem CfgItemHue.ofJson_ne_none_iff :
    CfgItemHue.ofJson floats value ≠ none ↔
      HasKeys floats ["hue", "brightness", "speed"] value := by
  rw [hasKeys_iff (List.cons_ne_nil _ _), List.forall_mem_cons, List.forall_mem_cons,
    List.forall_mem_singleton, Option.ne_none_iff_exists', Option.ne_none_iff_exists',
    Option.ne_none_iff_exists', Option.ne_none_iff_exists']
  simp only [ofJson_eq_some_iff]
  constructor
  · intro read
    have ⟨item, hue, brightness, speed⟩ := read
    exact ⟨⟨_, hue⟩, ⟨_, brightness⟩, _, speed⟩
  · intro read
    have ⟨⟨number, hue⟩, ⟨number', brightness⟩, number'', speed⟩ := read
    exact ⟨⟨⟨⟨number'⟩, number''⟩, number⟩, hue, brightness, speed⟩

/-- What is read at a key is the default or read from its value. -/
theorem valueOr_cases {value : α} (read : valueOr get key default (.object members) = some value) :
    find (ascii key) members = none ∧ value = default ∨
      ∃ json, find (ascii key) members = some json ∧ get json = some value := by
  rw [valueOr] at read
  cases found : find (ascii key) members with
  | none =>
    rw [found] at read
    exact .inl ⟨rfl, (Option.some.inj read).symm⟩
  | some json =>
    rw [found] at read
    exact .inr ⟨json, rfl, read⟩

/-- A mode with a brightness that is read has what its keys promise. -/
theorem CfgItem.promised_of_valueOr {item : CfgItem}
    (read : valueOr (CfgItem.ofJson floats) mode {} (.object members) = some item) :
    item.Promised floats members mode := by
  cases valueOr_cases read with
  | inl absent =>
    rw [absent.2]
    exact ⟨promisedIn_absent absent.1⟩
  | inr present =>
    have ⟨json, found, fromJson⟩ := present
    exact ⟨promisedIn_present found (ofJson_eq_some_iff.mp fromJson)⟩

/-- A mode with a speed that is read has what its keys promise. -/
theorem CfgItemSpd.promised_of_valueOr {item : CfgItemSpd}
    (read : valueOr (CfgItemSpd.ofJson floats) mode {} (.object members) = some item) :
    item.Promised floats members mode := by
  cases valueOr_cases read with
  | inl absent =>
    rw [absent.2]
    exact ⟨⟨promisedIn_absent absent.1⟩, promisedIn_absent absent.1⟩
  | inr present =>
    have ⟨json, found, fromJson⟩ := present
    have ⟨brightness, speed⟩ := ofJson_eq_some_iff.mp fromJson
    exact ⟨⟨promisedIn_present found brightness⟩, promisedIn_present found speed⟩

/-- A mode with a colour that is read has what its keys promise. -/
theorem CfgItemHue.promised_of_valueOr {item : CfgItemHue}
    (read : valueOr (CfgItemHue.ofJson floats) mode {} (.object members) = some item) :
    item.Promised floats members mode := by
  cases valueOr_cases read with
  | inl absent =>
    rw [absent.2]
    exact ⟨⟨⟨promisedIn_absent absent.1⟩, promisedIn_absent absent.1⟩, promisedIn_absent absent.1⟩
  | inr present =>
    have ⟨json, found, fromJson⟩ := present
    have ⟨hue, brightness, speed⟩ := ofJson_eq_some_iff.mp fromJson
    exact ⟨⟨⟨promisedIn_present found brightness⟩, promisedIn_present found speed⟩,
      promisedIn_present found hue⟩

/-- A configuration that is read has what its keys promise. -/
theorem CfgSet.promised_of_ofJson {cfg : CfgSet}
    (read : CfgSet.ofJson floats (.object members) = some cfg) : cfg.Promised floats members := by
  simp only [ofJson, Option.bind_eq_bind, Option.bind_eq_some_iff] at read
  obtain ⟨_, mode, _, loadCpu, _, loadGpu, _, updateMs, _, numPixels, _, load, _, temperature, _,
    cycle, _, rainbow, _, pulse, same⟩ := read
  rw [← Option.some.inj same]
  exact {
    mode := App.promised_of_valueOr mode
    loadCpu := App.promised_of_valueOr loadCpu
    loadGpu := App.promised_of_valueOr loadGpu
    updateMs := App.promised_of_valueOr updateMs
    numPixels := App.promised_of_valueOr numPixels
    load := CfgItem.promised_of_valueOr load
    temperature := CfgItem.promised_of_valueOr temperature
    cycle := CfgItemSpd.promised_of_valueOr cycle
    rainbow := CfgItemSpd.promised_of_valueOr rainbow
    pulse := CfgItemHue.promised_of_valueOr pulse }

/-- A sequence returns exactly if its first part and the rest do. -/
theorem bind_ne_none_iff {β : Type} {first : Option α} {next : α → Option β} {rest : Prop}
    (same : ∀ value, next value ≠ none ↔ rest) :
    (first >>= next) ≠ none ↔ first ≠ none ∧ rest := by
  cases first with
  | none => simp
  | some value => simp [same]

/-- A mode is always read. -/
theorem wellTyped_getMode : WellTyped getMode key members := by
  intro value _
  cases value <;> exact Option.some_ne_none _

/-- A configuration is read exactly from a whole object. -/
theorem CfgSet.ofJson_ne_none_iff :
    CfgSet.ofJson floats (.object members) ≠ none ↔ Whole floats members := by
  rw [ofJson]
  apply Iff.trans
  · exact bind_ne_none_iff fun _ => bind_ne_none_iff fun _ => bind_ne_none_iff fun _ =>
      bind_ne_none_iff fun _ => bind_ne_none_iff fun _ => bind_ne_none_iff fun _ =>
      bind_ne_none_iff fun _ => bind_ne_none_iff fun _ => bind_ne_none_iff fun _ =>
      bind_ne_none_iff fun _ => iff_true_intro (Option.some_ne_none _)
  · simp only [valueOr_ne_none_iff, and_true]
    constructor
    · intro typed
      obtain ⟨_, loadCpu, loadGpu, updateMs, numPixels, load, temperature, cycle, rainbow, pulse⟩ :=
        typed
      exact {
        loadCpu, loadGpu, updateMs, numPixels
        load := fun value found => CfgItem.ofJson_ne_none_iff.mp (load value found)
        temperature := fun value found => CfgItem.ofJson_ne_none_iff.mp (temperature value found)
        cycle := fun value found => CfgItemSpd.ofJson_ne_none_iff.mp (cycle value found)
        rainbow := fun value found => CfgItemSpd.ofJson_ne_none_iff.mp (rainbow value found)
        pulse := fun value found => CfgItemHue.ofJson_ne_none_iff.mp (pulse value found) }
    · intro whole
      exact ⟨wellTyped_getMode, whole.loadCpu, whole.loadGpu, whole.updateMs, whole.numPixels,
        fun value found => CfgItem.ofJson_ne_none_iff.mpr (whole.load value found),
        fun value found => CfgItem.ofJson_ne_none_iff.mpr (whole.temperature value found),
        fun value found => CfgItemSpd.ofJson_ne_none_iff.mpr (whole.cycle value found),
        fun value found => CfgItemSpd.ofJson_ne_none_iff.mpr (whole.rainbow value found),
        fun value found => CfgItemHue.ofJson_ne_none_iff.mpr (whole.pulse value found)⟩

end Reading

/-- The keys of an object are treated independently exactly if it is whole, or the defaults are what
its keys promise. -/
theorem parseCfg_promised_iff (floats : FloatText) (text : List UInt8)
    (members : List (List UInt8 × Value ℚ))
    (object : parse floats.numbers text = some (.object members)) :
    (parseCfg floats text).Promised floats members ↔
      Whole floats members ∨ ({} : CfgSet).Promised floats members := by
  rw [parseCfg, object, Option.bind_some]
  cases read : CfgSet.ofJson floats (.object members) with
  | none =>
    have part : ¬Whole floats members := fun whole => CfgSet.ofJson_ne_none_iff.mpr whole read
    rw [or_iff_right part]
    rfl
  | some cfg =>
    have whole : Whole floats members := by
      apply CfgSet.ofJson_ne_none_iff.mp
      rw [read]
      exact Option.some_ne_none _
    exact iff_of_true (CfgSet.promised_of_ofJson read) (.inl whole)

/-- The cycle mode, with a rainbow that has some keys. -/
def cycleMembers (rainbow : List (List UInt8 × Value ℚ)) : List (List UInt8 × Value ℚ) :=
  ofMembers [(ascii "mode", .string (ascii "cycle")),
    (ascii "rainbow", .object (ofMembers rainbow))]

/-- Its text is read back. -/
theorem parse_cycle {rainbow : List (List UInt8 × Value ℚ)}
    (keys : ∀ key ∈ rainbow.map Prod.fst, Utf8 key)
    (all : ∀ value ∈ rainbow.map Prod.snd, value.WellFormed someFloatText.numbers) :
    parse someFloatText.numbers
      (text someFloatText.numbers .compact 0 (.object (cycleMembers rainbow)) ++ []) =
      some (.object (cycleMembers rainbow)) := by
  have topKeys : ∀ key ∈ ["mode", "rainbow"].map ascii, Utf8 key := utf8_keys (by decide)
  have wellFormed : Value.WellFormed someFloatText.numbers (.object (cycleMembers rainbow)) := by
    refine wellFormed_ofMembers topKeys ?_
    simp only [List.map_cons, List.map_nil, List.forall_mem_cons]
    exact ⟨.string (utf8_plain (by decide)), wellFormed_ofMembers keys all, List.forall_mem_nil _⟩
  exact Json.parse_text wellFormed (List.forall_mem_nil _)

/-- A rainbow without a speed. -/
def noSpeed : List (List UInt8 × Value ℚ) := [(ascii "brightness", .float (1 / 4))]

/-- A rainbow with a speed. -/
def withSpeed : List (List UInt8 × Value ℚ) :=
  [(ascii "brightness", .float (1 / 4)), (ascii "speed", .float 1500)]

/-- The text of the cycle mode with a rainbow without a speed. -/
def noSpeedText : List UInt8 :=
  ascii "\x7b\"mode\":\"cycle\",\"rainbow\":\x7b\"brightness\":0.25\x7d\x7d"

/-- The text of the cycle mode with a rainbow with a speed. -/
def withSpeedText : List UInt8 :=
  ascii "\x7b\"mode\":\"cycle\",\"rainbow\":\x7b\"brightness\":0.25,\"speed\":1500.0\x7d\x7d"

/-- The text with a speed is an object. -/
theorem withSpeed_parse :
    parse someFloatText.numbers withSpeedText = some (.object (cycleMembers withSpeed)) := by
  have same : text someFloatText.numbers .compact 0 (.object (cycleMembers withSpeed)) ++ [] =
      withSpeedText := by decide +kernel
  have keys : ∀ key ∈ ["brightness", "speed"].map ascii, Utf8 key := utf8_keys (by decide)
  rw [← same]
  refine parse_cycle keys ?_
  simp only [withSpeed, List.map_cons, List.map_nil, List.forall_mem_cons]
  exact ⟨.float (someFloatText_keeps (by decide +kernel)).exact,
    .float (someFloatText_keeps (by decide +kernel)).exact, List.forall_mem_nil _⟩

/-- The text without a speed is an object. -/
theorem noSpeed_parse :
    parse someFloatText.numbers noSpeedText = some (.object (cycleMembers noSpeed)) := by
  have same : text someFloatText.numbers .compact 0 (.object (cycleMembers noSpeed)) ++ [] =
      noSpeedText := by decide +kernel
  have keys : ∀ key ∈ ["brightness"].map ascii, Utf8 key := utf8_keys (by decide)
  rw [← same]
  refine parse_cycle keys ?_
  exact List.forall_mem_singleton.mpr (.float (someFloatText_keeps (by decide +kernel)).exact)

/-- The keys of the text with a speed are treated independently. -/
theorem withSpeed_promised :
    parse someFloatText.numbers withSpeedText = some (.object (cycleMembers withSpeed)) ∧
      (parseCfg someFloatText withSpeedText).Promised someFloatText (cycleMembers withSpeed) := by
  have whole : Whole someFloatText (cycleMembers withSpeed) := by
    apply CfgSet.ofJson_ne_none_iff.mp
    decide +kernel
  exact ⟨withSpeed_parse,
    (parseCfg_promised_iff someFloatText withSpeedText _ withSpeed_parse).mpr (.inl whole)⟩

/-- Without a speed, the mode is not the one of the text. -/
theorem noSpeed_not_promised :
    parse someFloatText.numbers noSpeedText = some (.object (cycleMembers noSpeed)) ∧
      ¬(parseCfg someFloatText noSpeedText).Promised someFloatText (cycleMembers noSpeed) := by
  refine ⟨noSpeed_parse, fun kept => ?_⟩
  have unread : CfgSet.ofJson someFloatText (.object (cycleMembers noSpeed)) = none := by
    decide +kernel
  have defaults : parseCfg someFloatText noSpeedText = {} := by
    rw [parseCfg, noSpeed_parse, Option.bind_some, unread, Option.getD_none]
  have cycle : promised getMode "mode" ({} : CfgSet).mode (cycleMembers noSpeed) = some 2 := by
    decide +kernel
  have mode := kept.mode 2 cycle
  rw [defaults] at mode
  exact absurd mode (by decide)

end Fly2040.App
