import Fly2040.System.Modes
/-!
# The configuration and its file

Looking at the file forgets the configuration before it is known whether the file can be read,
so that a look that fails may leave a configuration that nobody has applied. Writing the file
deletes it first, and is not repeated if it fails, although the configuration then counts as
written. Both laws hold of the runs in which this does not happen.
-/

namespace Fly2040.System

open App Leds Runs

/-- A look at the file that fails and forgets a configuration. -/
structure Forgets (clock : UInt64) (env : FileEnv) (file : Option ConfigFile) (impl : ConfigImpl) :
    Prop where
  /-- It is time to look at the file. -/
  due : ¬ clock - impl.lastCheck < fileCfgCheckIntervalNs
  /-- The file seems to have changed. -/
  stale : impl.loaded = false ∨ impl.mtime ≠ ConfigImpl.checkModificationTime env file
  /-- The file is not read. -/
  unread : ∀ found, file = some found → ConfigImpl.readable env found = false
  /-- The configuration is not the default one. -/
  configured : impl.config ≠ {}

/-- The configuration applied last: by a command, or by a look at the file that succeeded. -/
def lastApplied (codec : Codec) (cfg : CfgSet) (sys : Sys) : Turn → CfgSet
  | (_, .setConfigValues new) => new
  | (env, .tick) =>
    let saved := sys.saveChanged codec env
    let look := ConfigImpl.refresh codec env.clock env.files saved.file saved.config
    if look.1 then look.2.config else cfg
  | _ => cfg

/-- A tick does not forget the configuration. -/
def Remembers (codec : Codec) (sys : Sys) : Turn → Prop
  | (env, .tick) =>
    ¬ Forgets env.clock env.files (sys.saveChanged codec env).file
      (sys.saveChanged codec env).config
  | _ => True

section Looking

variable {codec : Codec} {clock : UInt64} {env : FileEnv} {file : Option ConfigFile}
  {impl : ConfigImpl}

/-- A file is read if it is there and readable, and otherwise the configuration is forgotten. -/
theorem load_cases (codec : Codec) (env : FileEnv) (file : Option ConfigFile) (impl : ConfigImpl) :
    (∃ found, file = some found ∧ ConfigImpl.readable env found = true ∧
      (ConfigImpl.load codec env file impl).1 = true) ∨
    ((∀ found, file = some found → ConfigImpl.readable env found = false) ∧
      ConfigImpl.load codec env file impl = (false, impl.close)) := by
  cases file with
  | none => exact .inr ⟨nofun, rfl⟩
  | some found =>
    cases read : ConfigImpl.readable env found with
    | true => exact .inl ⟨found, rfl, read, by simp [ConfigImpl.load, read]⟩
    | false =>
      refine .inr ⟨fun _ same => Option.some.inj same ▸ read, ?_⟩
      simp [ConfigImpl.load, read]

/-- A look at the file that reports nothing keeps the configuration exactly if it does not forget
it. -/
theorem refresh_keeps_iff (codec : Codec) (clock : UInt64) (env : FileEnv)
    (file : Option ConfigFile) (impl : ConfigImpl) :
    ((ConfigImpl.refresh codec clock env file impl).1 = false →
      (ConfigImpl.refresh codec clock env file impl).2.config = impl.config) ↔
      ¬ Forgets clock env file impl := by
  rw [ConfigImpl.refresh]
  by_cases early : clock - impl.lastCheck < fileCfgCheckIntervalNs
  · rw [if_pos early]
    exact iff_of_true (fun _ => rfl) fun forgets => forgets.due early
  rw [if_neg early]
  by_cases stale : impl.loaded = false ∨ impl.mtime ≠ ConfigImpl.checkModificationTime env file
  · have stale' : (!impl.loaded || impl.mtime != ConfigImpl.checkModificationTime env file) = true :=
      by simpa using stale
    simp only [stale', if_true]
    rcases load_cases codec env file { impl with lastCheck := clock } with
      ⟨found, here, readable, loaded⟩ | ⟨unread, failed⟩
    · refine iff_of_true ?_ fun forgets => ?_
      · cases read : ConfigImpl.load codec env file { impl with lastCheck := clock } with
        | mk done later =>
          rw [read] at loaded
          have done' : done = true := loaded
          subst done'
          exact fun never => absurd never.symm Bool.false_ne_true
      · exact absurd (readable.symm.trans (forgets.unread found here)) (by decide)
    · rw [failed]
      constructor
      · intro kept forgets
        exact forgets.configured (kept rfl).symm
      · intro remembers _
        by_contra configured
        exact remembers ⟨early, stale, unread, fun same => configured same.symm⟩
  · have fresh : (!impl.loaded || impl.mtime != ConfigImpl.checkModificationTime env file) = false :=
      by simpa using stale
    simp only [fresh, Bool.false_eq_true, if_false, imp_self, true_iff]
    exact fun forgets => stale forgets.stale

end Looking

/-- A turn leaves the configuration that was applied last exactly if it does not forget it. -/
theorem next_applied (codec : Codec) {sys : Sys} {cfg : CfgSet}
    (current : sys.config.config = cfg) (turn : Turn) :
    (sys.next codec turn).config.config = lastApplied codec cfg sys turn ↔
      Remembers codec sys turn := by
  obtain ⟨env, event⟩ := turn
  cases event with
  | setConfigValues new =>
    obtain ⟨cpuMon, genMon, set⟩ := Sys.setConfigValues_eq codec env new sys
    refine iff_of_true ?_ trivial
    rw [Sys.next, Sys.step, set, lastApplied]
  | sendI2c bytes => exact iff_of_true current trivial
  | edit file => exact iff_of_true current trivial
  | power state =>
    have same : (sys.next codec (env, .power state)).config = sys.config :=
      (Sys.power_config env sys state).1
    have kept : (sys.next codec (env, .power state)).config.config = cfg := by rw [same, current]
    exact iff_of_true kept trivial
  | tick =>
    obtain ⟨config, file, saved, same⟩ := Sys.saveChanged_frame codec env sys
    have found : (sys.next codec (env, .tick)).config.config =
        (ConfigImpl.refresh codec env.clock env.files (sys.saveChanged codec env).file
          (sys.saveChanged codec env).config).2.config := by
      rw [Sys.next, Sys.step, (Sys.tick_settings codec env sys).config, Sys.looked,
        Sys.refreshFile_frame]
    have kept : (sys.saveChanged codec env).config.config = cfg := by rw [saved, same, current]
    have look := refresh_keeps_iff codec env.clock env.files (sys.saveChanged codec env).file
      (sys.saveChanged codec env).config
    rw [kept] at look
    rw [found, lastApplied, Remembers]
    refine Iff.trans ?_ look
    cases (ConfigImpl.refresh codec env.clock env.files (sys.saveChanged codec env).file
      (sys.saveChanged codec env).config).1 with
    | true => exact iff_of_true rfl fun never => absurd never.symm Bool.false_ne_true
    | false => exact ⟨fun now _ => now, fun now => now rfl⟩

/-- A look at the file that reports nothing keeps the configuration exactly if it does not forget
it; and the configuration is the one applied last throughout a run, exactly if no tick forgets
it. -/
theorem configuration_applied_last (codec : Codec) :
    (∀ clock env file impl,
      ((ConfigImpl.refresh codec clock env file impl).1 = false →
        (ConfigImpl.refresh codec clock env file impl).2.config = impl.config) ↔
      ¬ Forgets clock env file impl) ∧
    ∀ file turns,
      Always (watched (Sys.next codec) (lastApplied codec))
          (fun state => state.1.config.config = state.2)
          (Sys.init file, (Sys.init file).config.config) turns ↔
        EachStep (watched (Sys.next codec) (lastApplied codec))
          (fun state => Remembers codec state.1)
          (Sys.init file, (Sys.init file).config.config) turns :=
  ⟨refresh_keeps_iff codec, fun _ _ =>
    always_iff_eachStep_of_good (fun _ turn current => next_applied codec current turn) rfl⟩

/-- Surroundings five seconds later, in which the file cannot be created. -/
def fullEnv : SysEnv :=
  { calmEnv with clock := 5000000000, saves := { calmEnv.saves with creates := false } }

/-- A command, and a tick that cannot create the file. -/
def rainbowNotSaved : List Turn := [(calmEnv, .setConfigValues { mode := 3 }), (fullEnv, .tick)]

/-- The configuration of the command is forgotten. -/
theorem rainbow_forgotten :
    ¬ Always (watched (Sys.next plainCodec) (lastApplied plainCodec))
      (fun state => state.1.config.config = state.2)
      (Sys.init none, (Sys.init none).config.config) rainbowNotSaved := by
  intro always
  have remembers := (next_applied plainCodec always.2.1 (fullEnv, .tick)).mp always.2.2
  exact remembers ⟨by decide, .inl (by decide), by decide, by decide⟩

/-- The file is written. -/
structure Writes (env : FileEnv) (file : Option ConfigFile) : Prop where
  /-- There is a file to write to. -/
  there : env.creates = true ∨ (env.deletes = false ∧ file.isSome = true)
  /-- It is opened. -/
  opens : env.opens = true
  /-- Its contents are written. -/
  writes : env.writes = true

/-- A write that fails leaves the contents of a file. -/
inductive Spares (env : FileEnv) (before : ConfigFile) : Prop where
  /-- The file is neither deleted nor opened. -/
  | untouched : env.deletes = false → env.opens = false → Spares env before
  /-- The new file is as empty as the one before. -/
  | empty : env.deletes = true → env.creates = true → env.opens = false → before.text = [] →
      Spares env before
  /-- What is written in part are the contents before. -/
  | torn : env.opens = true → (env.deletes = false ∨ env.creates = true) →
      env.torn.text = before.text → Spares env before

/-- A command has changed the configuration since it was last read from the file or written. -/
def unsaved (codec : Codec) (changed : Bool) (sys : Sys) : Turn → Bool
  | (_, .setConfigValues cfg) => changed || cfg ≠ sys.config.config
  | (env, .tick) =>
    let saved := sys.saveChanged codec env
    changed && !(sys.cfgChanged &&
        (ConfigImpl.save codec env.saves sys.config.config sys.file).1) &&
      !(ConfigImpl.refresh codec env.clock env.files saved.file saved.config).1
  | _ => changed

/-- What is not flagged as changed has not been changed since it was last read or written. -/
def Flagged (state : Sys × Bool) : Prop := state.1.cfgChanged = false → state.2 = false

/-- What is not flagged as changed is in the file, or has not been changed since it was last read
or written. -/
def SavedOrFlagged (codec : Codec) (state : Sys × Bool) : Prop :=
  state.1.cfgChanged = false →
    state.1.file.map ConfigFile.text = some (codec.text state.1.config.config) ∨ state.2 = false

/-- A tick writes a changed configuration, or reads the file. -/
def WritesChanged (codec : Codec) (sys : Sys) : Turn → Prop
  | (env, .tick) => sys.cfgChanged = true → Writes env.saves sys.file ∨
      (ConfigImpl.refresh codec env.clock env.files (sys.saveChanged codec env).file
        (sys.saveChanged codec env).config).1 = true
  | _ => True

section Writing

variable {codec : Codec} {env : FileEnv} {cfg : CfgSet} {file : Option ConfigFile}

/-- There is a file to write to. -/
theorem fresh_isSome (env : FileEnv) (file : Option ConfigFile) :
    (ConfigImpl.fresh env file).isSome = true ↔
      env.creates = true ∨ (env.deletes = false ∧ file.isSome = true) := by
  unfold ConfigImpl.fresh
  cases env.deletes <;> cases env.creates <;> cases file <;> simp

/-- Saving succeeds exactly if the file is written. -/
theorem save_iff (codec : Codec) (env : FileEnv) (cfg : CfgSet) (file : Option ConfigFile) :
    (ConfigImpl.save codec env cfg file).1 = true ↔ Writes env file := by
  have there := fresh_isSome env file
  unfold ConfigImpl.save
  cases fresh : ConfigImpl.fresh env file with
  | none =>
    rw [fresh] at there
    exact iff_of_false nofun fun writes => nomatch there.mpr writes.there
  | some found =>
    rw [fresh] at there
    have there' := there.mp rfl
    cases opens : env.opens with
    | false => exact iff_of_false nofun fun writes => nomatch opens.symm.trans writes.opens
    | true =>
      cases writes : env.writes with
      | false => exact iff_of_false (by simp) fun done => nomatch writes.symm.trans done.writes
      | true => exact iff_of_true (by simp) ⟨there', opens, writes⟩

/-- What saving leaves when the file is not written. -/
theorem save_unwritten (codec : Codec) (cfg : CfgSet) (unwritten : ¬ Writes env file) :
    ConfigImpl.save codec env cfg file = (false, (ConfigImpl.fresh env file).map fun fresh =>
      if env.opens then env.torn else fresh) := by
  have failed := mt (save_iff codec env cfg file).mp unwritten
  unfold ConfigImpl.save at failed ⊢
  cases fresh : ConfigImpl.fresh env file with
  | none => rfl
  | some found =>
    rw [fresh] at failed
    cases opens : env.opens with
    | false => rfl
    | true =>
      cases writes : env.writes with
      | false => rfl
      | true => exact absurd (by simp [opens, writes]) failed

/-- A file that stays is spared if it is not opened, or if a torn write leaves its contents. -/
theorem spares_kept (before : ConfigFile) (kept : env.deletes = false) :
    Spares env before ↔ (if env.opens then env.torn else before).text = before.text := by
  have untorn : ¬ env.deletes = true := by
    rw [kept]
    exact Bool.false_ne_true
  cases opens : env.opens with
  | false => exact iff_of_true (.untouched kept opens) rfl
  | true =>
    constructor
    · intro spares
      cases spares with
      | untouched _ closed => exact absurd (closed.symm.trans opens) Bool.false_ne_true
      | empty deleted _ _ _ => exact absurd deleted untorn
      | torn _ _ same => exact same
    · exact .torn opens (.inl kept)

/-- A file that is created anew is spared if what is left of it has its contents. -/
theorem spares_created (before : ConfigFile) (deleted : env.deletes = true)
    (created : env.creates = true) :
    Spares env before ↔
      (if env.opens then env.torn else ⟨[], env.now⟩).text = before.text := by
  constructor
  · intro spares
    cases spares with
    | untouched kept _ => exact absurd (kept.symm.trans deleted) Bool.false_ne_true
    | empty _ _ closed empty =>
      rw [closed, empty]
      rfl
    | torn opened _ same =>
      rw [opened]
      exact same
  · intro same
    cases opens : env.opens with
    | false =>
      rw [opens] at same
      exact .empty deleted created opens same.symm
    | true =>
      rw [opens] at same
      exact .torn opens (.inr created) same

/-- A file that is deleted and not created anew is not spared. -/
theorem not_spares (before : ConfigFile) (deleted : env.deletes = true)
    (missing : env.creates = false) : ¬ Spares env before := by
  have gone : ¬ env.deletes = false := by
    rw [deleted]
    exact Bool.false_ne_true.symm
  have never : ¬ env.creates = true := by
    rw [missing]
    exact Bool.false_ne_true
  intro spares
  cases spares with
  | untouched kept _ => exact gone kept
  | empty _ created _ _ => exact never created
  | torn _ there _ => exact there.elim gone never

/-- Saving that fails leaves the contents of the file exactly if its steps spare them. -/
theorem save_failed_iff (codec : Codec) (env : FileEnv) (cfg : CfgSet) (before : ConfigFile) :
    ((ConfigImpl.save codec env cfg (some before)).1 = false →
      (ConfigImpl.save codec env cfg (some before)).2.map ConfigFile.text = some before.text) ↔
      Writes env (some before) ∨ Spares env before := by
  by_cases written : Writes env (some before)
  · have done := (save_iff codec env cfg (some before)).mpr written
    have kept : (ConfigImpl.save codec env cfg (some before)).1 ≠ false := by
      rw [done]
      exact Bool.false_ne_true.symm
    exact iff_of_true (fun failed => absurd failed kept) (.inl written)
  · have spares : ((ConfigImpl.fresh env (some before)).map fun fresh =>
        (if env.opens then env.torn else fresh).text) = some before.text ↔ Spares env before := by
      unfold ConfigImpl.fresh
      cases deletes : env.deletes with
      | false =>
        rw [spares_kept before deletes]
        exact Option.some_inj
      | true =>
        cases creates : env.creates with
        | false =>
          have nothing : none ≠ some before.text := (Option.some_ne_none _).symm
          exact iff_of_false nothing (not_spares before deletes creates)
        | true =>
          rw [spares_created before deletes creates]
          exact Option.some_inj
    rw [save_unwritten codec cfg written, Option.map_map]
    constructor
    · intro kept
      exact .inr (spares.mp (kept rfl))
    · intro done _
      exact spares.mpr (done.resolve_left written)

end Writing

section Turns

variable {codec : Codec}

/-- A tick leaves no configuration flagged as changed. -/
theorem tick_cfgChanged (codec : Codec) (env : SysEnv) (sys : Sys) :
    (sys.tick codec env).1.cfgChanged = false := by
  obtain ⟨config, file, state, looked⟩ := Sys.looked_frame codec env sys
  rw [(Sys.tick_settings codec env sys).cfgChanged, looked]

/-- What is flagged as changed has been changed since it was last read or written. -/
theorem next_changed {state : Sys × Bool} (changed : state.1.cfgChanged = true → state.2 = true)
    (turn : Turn) : (state.1.next codec turn).cfgChanged = true →
      unsaved codec state.2 state.1 turn = true := by
  obtain ⟨sys, unsaved'⟩ := state
  obtain ⟨env, event⟩ := turn
  cases event with
  | setConfigValues cfg =>
    obtain ⟨cpuMon, genMon, set⟩ := Sys.setConfigValues_eq codec env cfg sys
    rw [Sys.next, Sys.step, set, unsaved, Bool.or_eq_true, Bool.or_eq_true]
    exact Or.imp_left changed
  | sendI2c bytes => exact changed
  | edit file => exact changed
  | power state =>
    have same : (sys.next codec (env, .power state)).cfgChanged = sys.cfgChanged :=
      (Sys.power_config env sys state).2
    rw [same]
    exact changed
  | tick =>
    intro flagged
    rw [Sys.next, Sys.step, tick_cfgChanged] at flagged
    cases flagged

/-- A turn leaves nothing unflagged that has been changed, exactly if it writes or reads what it
unflags. -/
theorem next_flagged {state : Sys × Bool} (changed : state.1.cfgChanged = true → state.2 = true)
    (flagged : Flagged state) (turn : Turn) :
    Flagged (watched (Sys.next codec) (unsaved codec) state turn) ↔
      WritesChanged codec state.1 turn := by
  obtain ⟨sys, unsaved'⟩ := state
  obtain ⟨env, event⟩ := turn
  cases event with
  | setConfigValues cfg =>
    obtain ⟨cpuMon, genMon, set⟩ := Sys.setConfigValues_eq codec env cfg sys
    refine iff_of_true ?_ trivial
    simp only [Flagged, watched, Sys.next, Sys.step, set, unsaved, Bool.or_eq_false_iff]
    exact And.imp_left flagged
  | sendI2c bytes => exact iff_of_true flagged trivial
  | edit file => exact iff_of_true flagged trivial
  | power state =>
    have same : (sys.next codec (env, .power state)).cfgChanged = sys.cfgChanged :=
      (Sys.power_config env sys state).2
    have still : Flagged (sys.next codec (env, .power state), unsaved') := by
      rw [Flagged, same]
      exact flagged
    exact iff_of_true still trivial
  | tick =>
    have written := save_iff codec env.saves sys.config.config sys.file
    simp only [Flagged, watched, Sys.next, Sys.step, tick_cfgChanged, unsaved, WritesChanged,
      ← written, true_implies]
    cases state : sys.cfgChanged with
    | false =>
      have nothing : unsaved' = false := flagged state
      exact iff_of_true (by rw [nothing]; rfl) fun never => absurd never Bool.false_ne_true
    | true =>
      have dirty : unsaved' = true := changed state
      rw [dirty]
      simp only [Bool.true_and, Bool.and_eq_false_iff, Bool.not_eq_false', true_implies]

end Turns

/-- What is not flagged as changed has not been changed since it was last read or written, exactly
if every tick writes a changed configuration or reads the file; then it is in the file or has not
been changed; and saving that fails leaves the contents of the file exactly if its steps spare
them. -/
theorem changes_not_lost (codec : Codec) :
    (∀ file turns,
      (Always (watched (Sys.next codec) (unsaved codec)) Flagged (Sys.init file, false) turns ↔
        EachStep (watched (Sys.next codec) (unsaved codec))
          (fun state => WritesChanged codec state.1) (Sys.init file, false) turns) ∧
      (EachStep (watched (Sys.next codec) (unsaved codec))
          (fun state => WritesChanged codec state.1) (Sys.init file, false) turns →
        Always (watched (Sys.next codec) (unsaved codec)) (SavedOrFlagged codec)
          (Sys.init file, false) turns)) ∧
    ∀ env cfg before,
      ((ConfigImpl.save codec env cfg (some before)).1 = false →
        (ConfigImpl.save codec env cfg (some before)).2.map ConfigFile.text = some before.text) ↔
        Writes env (some before) ∨ Spares env before := by
  refine ⟨fun file turns => ?_, fun env cfg before => save_failed_iff codec env cfg before⟩
  have keeps : ∀ (state : Sys × Bool) turn, (state.1.cfgChanged = true → state.2 = true) → True →
      ((watched (Sys.next codec) (unsaved codec) state turn).1.cfgChanged = true →
        (watched (Sys.next codec) (unsaved codec) state turn).2 = true) :=
    fun _ turn changed _ => next_changed changed turn
  have exactly : Always (watched (Sys.next codec) (unsaved codec)) Flagged
      (Sys.init file, false) turns ↔ EachStep (watched (Sys.next codec) (unsaved codec))
        (fun state => WritesChanged codec state.1) (Sys.init file, false) turns :=
    always_iff_eachStep keeps (fun _ turn changed flagged _ => next_flagged changed flagged turn)
      nofun (fun _ => rfl) eachStep_true
  exact ⟨exactly, fun writes => (exactly.mpr writes).mono fun _ flagged same => .inr (flagged same)⟩

/-- A file of one byte. -/
def oldFile : ConfigFile := ⟨[7], 1⟩

/-- The console has been told to show a rainbow. -/
def rainbowCommanded : Sys :=
  (Sys.init (some oldFile)).next plainCodec (calmEnv, .setConfigValues { mode := 3 })

/-- A rainbow that cannot be written is lost, and the file with it. -/
theorem rainbow_lost :
    ¬ Always (watched (Sys.next plainCodec) (unsaved plainCodec)) (SavedOrFlagged plainCodec)
        (Sys.init (some oldFile), false) rainbowNotSaved ∧
      (ConfigImpl.save plainCodec fullEnv.saves { mode := 3 } (some oldFile)).1 = false ∧
      (ConfigImpl.save plainCodec fullEnv.saves { mode := 3 } (some oldFile)).2.map
        ConfigFile.text = none := by
  refine ⟨fun always => ?_, rfl, rfl⟩
  have gone : (rainbowCommanded.next plainCodec (fullEnv, .tick)).file = none :=
    (Sys.tick_settings plainCodec fullEnv rainbowCommanded).file.trans (by decide)
  have flagged := tick_cfgChanged plainCodec fullEnv rainbowCommanded
  rcases always.2.2 flagged with same | same
  · have same' : (rainbowCommanded.next plainCodec (fullEnv, .tick)).file.map ConfigFile.text =
        some (plainCodec.text _) := same
    rw [gone] at same'
    cases same'
  · exact absurd same (by decide)

end Fly2040.System
