import Fly2040.System.Command
/-!
# The console's own tables

Before the first rewrite of the payload the firmware saves the boot configuration tables of the
console, and the mark in the boot block tells later rewrites not to save them again. The mark
reaches the eMMC with the second block of the new table, so a power loss right before that
block, and a second rewrite in the boot that saved the tables, save the firmware's own tables
over those of the console. Apart from these two, saved tables are never lost.
-/

namespace Fly2040.System

open Bytes Durable Nor Firmware

/-- The copies of the tables are those of the console. -/
def Saved (own mmc : Nat → Block) : Prop :=
  ∀ index < bctBlocks, mmc (0x7A0 + index) = own index ∧ mmc (0x7C0 + index) = own (0x20 + index)

/-- The console's own tables are in place. -/
def InPlace (own mmc : Nat → Block) : Prop :=
  ∀ block, InBlocks 0 bctBlocks block ∨ InBlocks 0x20 bctBlocks block → mmc block = own block

/-- The tables are saved, and the boot block tells so. -/
structure Backed (images : Images) (mariko : Bool) (own mmc : Nat → Block) : Prop where
  /-- The saved tables. -/
  saved : Saved own mmc
  /-- The boot block. -/
  boot : mmc 1 = chunk (dataBct images mariko) 512

/-- Before the new table is written, the tables are saved and still in place. -/
def Copied (own mmc : Nat → Block) : Prop := Saved own mmc ∧ InPlace own mmc

/-- A write elsewhere keeps the saved tables. -/
theorem Saved.update {own mmc : Nat → Block} {block : Nat} {content : Block} (saved : Saved own mmc)
    (apart : ¬ SavedBlock block) : Saved own (Function.update mmc block content) := by
  unfold SavedBlock InBlocks at apart
  intro index inside
  rw [Function.update_of_ne (by omega), Function.update_of_ne (by omega)]
  exact saved index inside

/-- A write elsewhere keeps the saved tables and those in place. -/
theorem Copied.update {own mmc : Nat → Block} {block : Nat} {content : Block}
    (copied : Copied own mmc) (apart : ¬ SavedBlock block)
    (apart' : ¬ (InBlocks 0 bctBlocks block ∨ InBlocks 0x20 bctBlocks block)) :
    Copied own (Function.update mmc block content) := by
  refine ⟨copied.1.update apart, fun other inside => ?_⟩
  have different : other ≠ block := fun same => apart' (by rwa [← same])
  rw [Function.update_of_ne different]
  exact copied.2 other inside

/-- A write elsewhere, or of the marked boot block, keeps the saved tables and the mark. -/
theorem Backed.update {images : Images} {mariko : Bool} {own mmc : Nat → Block} {block : Nat}
    {content : Block} (backed : Backed images mariko own mmc) (apart : ¬ SavedBlock block)
    (boot : block = 1 → content = chunk (dataBct images mariko) 512) :
    Backed images mariko own (Function.update mmc block content) := by
  refine ⟨backed.saved.update apart, ?_⟩
  by_cases same : block = 1
  · rw [← same, Function.update_self, boot same]
  · rw [Function.update_of_ne (Ne.symm same), backed.boot]

/-- Whether an operation is the end of a rewrite. -/
def isRewritten : BootOp → Bool
  | .rewritten => true
  | _ => false

/-- Whether a rewrite has ended before power is lost. -/
def rewrote (run : Run World BootOp Stop Unit) (performed : Nat) : Bool :=
  (run.trace.take performed).any fun event => isRewritten event.2

/-- A boot rewrites the payload of its own accord. -/
def selfReset (images : Images) (cid : Cid) (env : Env) (flash : Memory) : Bool :=
  env.forceButton || !isConfigured (payloadCrc images) cid flash

/-- Starting an empty record store. -/
def emptyStore (images : Images) (cid : Cid) : FlashProg Stop Unit :=
  initConfig (payloadCrc images) cid

/-- A boot rewrites the payload, does not find a glitch and rewrites it again. -/
def RewritesTwice (images : Images) (cid : Cid) (env : Env) (flash : Memory) : Prop :=
  selfReset images cid env flash = true ∧
    env.search 0 (emptyStore images cid flash).final = .ok none

/-- Number of operations until the first rewrite of a console has ended and the record store is
empty. -/
def opsToSearch (images : Images) (cid : Cid) (flash : Memory) : Nat :=
  141 + (emptyStore images cid flash).trace.length

/-- A boot that finds the console's own tables is not cut right before the transfer of the boot
block, nor after a second rewrite has begun. -/
def SafeBoot (images : Images) (cid : Cid) (machine : Machine) (env : Env) (performed : Nat) :
    Prop :=
  Unmarked env.mariko (machine.mmc 1) → performed ≠ 100 ∧
    (performed ≤ opsToSearch images cid machine.flash ∨
      ¬ RewritesTwice images cid env machine.flash)

/-- Boots of one console on a line that does not fail, each cut after some operations under a
condition, and whether a rewrite has ended in one of them. -/
inductive Rewrites (images : Images) (mariko : Bool) (cid : Cid)
    (safe : Machine → Env → Nat → Prop) (first : Machine) : Machine → Bool → Prop where
  /-- The first state. -/
  | refl : Rewrites images mariko cid safe first first false
  /-- One more boot. -/
  | boot {machine : Machine} {ended : Bool} (env : Env) (performed : Nat) :
      Rewrites images mariko cid safe first machine ended → env.mariko = mariko →
      env.link.Reliable cid → safe machine env performed →
      Rewrites images mariko cid safe first (machine.afterBoot images env performed)
        (ended || rewrote (machine.firmwareRun images env) performed)

section Marked

variable {images : Images} {env : Env} {bootSlot : Slot} {bootTry : UInt32} {cid : Cid}
  {own : Nat → Block} {world : World}

/-- A line that does not fail keeps every property. -/
theorem keeps_reliable {link : Link} (reliable : link.Reliable cid) (block : Nat)
    (holds : Block → Prop) : link.Keeps block holds := by
  refine ⟨fun clock buffer stored _ now => ?_, fun clock stored buffer _ sent => ?_⟩
  · rw [link.sound _ _ _ _ (reliable.received _ _ _ _)]
    exact now
  · rw [reliable.written]
    exact sent

/-- The boot block of the payload is marked and carries no command. -/
theorem marked_boot (images : Images) (mariko : Bool) {content : Block}
    (boot : content = chunk (dataBct images mariko) 512) :
    content.word markAt = payloadMark mariko ∧ content.word 0 = 0 := by
  rw [boot]
  exact (dataBct_boot images mariko).symm

/-- A rewrite that does not save the tables keeps them. -/
theorem rewritePayload_backed (reliable : env.link.Reliable cid) (marked : ¬ SavesBct world.vars)
    (backed : Backed images env.mariko own world.mmc) :
    (rewritePayload images env bootSlot).Ensures world
      (fun later _ => Backed images env.mariko own later.mmc)
      (fun _ later => Backed images env.mariko own later.mmc ∧ later.vars = world.vars)
      (fun _ later => Backed images env.mariko own later.mmc) := by
  have kept : ∀ later, PayloadOnly (· = chunk (dataBct images env.mariko) 512) world later →
      Backed images env.mariko own later.mmc := by
    intro later after
    obtain ⟨blocks, boot⟩ := after
    have other : ∀ block, SavedBlock block → later.mmc block = world.mmc block := by
      intro block saved
      refine blocks.mmc block (not_or.mpr ⟨fun saves => marked saves.1, ?_⟩)
      unfold SavedBlock PayloadBlock InBlocks bctBlocks at *
      omega
    refine ⟨fun index inside => ?_, boot⟩
    rw [other _ (.inl ⟨Nat.le_add_right _ _, Nat.add_lt_add_left inside _⟩),
      other _ (.inr ⟨Nat.le_add_right _ _, Nat.add_lt_add_left inside _⟩)]
    exact backed.saved index inside
  have spec : (writePayload env.link images env.mariko bootSlot).Ensures world
      (PayloadIssued (· = chunk (dataBct images env.mariko) 512) world) _ _ :=
    writePayload_spec env.mariko (keeps_reliable reliable 1 _) rfl backed.boot
  refine Prog.Ensures.andThen (spec.mono (fun later _ issued => kept later issued.1)
    (fun _ _ only => only) fun _ later only => kept later only) fun _ second only => ?_
  apply Prog.ensures_read
  exact (Prog.ensures_zoom_frame _ (fun later : World => Backed images env.mariko own later.mmc ∧
    later.vars = world.vars) fun _ => ⟨kept second only, only.blocks.vars⟩).mono
      (fun _ _ now => now.1) (fun _ _ after => after) fun _ _ after => after.1

/-- A full try keeps the eMMC and the flags. -/
theorem fullTry_frame (keep : (Nat → Block) → Prop) (number : Nat) (now : keep world.mmc) :
    (fullTry env bootSlot number).Ensures world (fun later _ => keep later.mmc)
      (fun _ later => keep later.mmc ∧ later.vars = world.vars ∧
        env.search number world.flash = .ok none)
      (fun _ later => keep later.mmc) := by
  apply Prog.ensures_read
  split
  · exact (Prog.ensures_stop _).mpr now
  · rename_i found
    exact (Prog.ensures_pure _).mpr ⟨now, rfl, found⟩
  · refine Prog.ensures_via (fun _ later => keep later.mmc) ?_ fun _ second now => ?_
    · apply Prog.ensures_read
      refine Prog.ensures_runIf (fun _ => ?_) fun _ => now
      exact Prog.ensures_zoom_frame _ (fun later : World => keep later.mmc) fun _ => now
    · refine Prog.ensures_via (fun _ later => keep later.mmc) ?_ fun _ _ now =>
        (Prog.ensures_stop _).mpr now
      exact Prog.ensures_zoom_frame _ (fun later : World => keep later.mmc) fun _ => now

/-- Once the check has found the mark, the firmware keeps the tables. -/
theorem afterCheck_backed (reliable : env.link.Reliable cid) (forceCheck : Bool)
    (marked : world.vars.isSpaceBl = true) (backed : Backed images env.mariko own world.mmc) :
    (afterCheck images env bootSlot forceCheck).Ensures world
      (fun later _ => Backed images env.mariko own later.mmc)
      (fun _ later => Backed images env.mariko own later.mmc)
      (fun _ later => Backed images env.mariko own later.mmc) := by
  have rewrite' : ∀ later : World, later.vars.isSpaceBl = true →
      Backed images env.mariko own later.mmc →
      (rewritePayload images env bootSlot).Ensures later
        (fun later _ => Backed images env.mariko own later.mmc)
        (fun _ later => Backed images env.mariko own later.mmc ∧ later.vars.isSpaceBl = true)
        (fun _ later => Backed images env.mariko own later.mmc) := by
    intro later marked now
    have idle : ¬ SavesBct later.vars := fun saves => by simp [SavesBct, marked] at saves
    exact (rewritePayload_backed reliable idle now).weaken fun _ _ after =>
      ⟨after.1, after.2 ▸ marked⟩
  apply Prog.ensures_read
  refine Prog.ensures_via (fun _ later => Backed images env.mariko own later.mmc ∧
    later.vars.isSpaceBl = true) ((Prog.ensures_update _).mpr ⟨backed, marked⟩)
    fun _ second after => ?_
  obtain ⟨now, marked⟩ := after
  refine Prog.ensures_via (fun _ later => Backed images env.mariko own later.mmc ∧
    later.vars.isSpaceBl = true) (Prog.ensures_runIf (fun _ => rewrite' second marked now)
      fun _ => ⟨now, marked⟩) fun _ third after => ?_
  obtain ⟨now, marked⟩ := after
  refine (fullTry_frame _ 0 now).andThen fun _ fourth after => ?_
  obtain ⟨now, same, _⟩ := after
  refine (rewrite' fourth (same ▸ marked) now).andThen fun _ fifth after => ?_
  obtain ⟨now, _⟩ := after
  exact (fullTry_frame _ 1 now).andThen fun _ _ after =>
    (Prog.ensures_stop _).mpr after.1

/-- Configuring the LEDs after the boot keeps the eMMC. -/
theorem ledsConfigured_frame (keep : (Nat → Block) → Prop) (condition : Bool) (reason : Stop)
    (now : keep world.mmc) :
    (do Prog.runIf condition (onFlash setI2cConfigured); Prog.stop reason : Boot Unit).Ensures world
      (fun later operation => keep later.mmc ∧ ∃ o, operation = .flash o)
      (fun _ later => keep later.mmc) (fun _ later => keep later.mmc) := by
  refine Prog.ensures_via (fun _ later => keep later.mmc) (Prog.ensures_runIf (fun _ => ?_)
    fun _ => now) fun _ _ now => (Prog.ensures_stop _).mpr now
  exact ⟨fun event member => by
    obtain ⟨inner, -, rfl⟩ := List.mem_map.mp member
    exact ⟨now, _, rfl⟩, fun _ _ => now, fun _ _ => now⟩

/-- A boot that starts with saved tables and a marked boot block keeps both. -/
theorem boot_backed (reliable : env.link.Reliable cid)
    (backed : Backed images env.mariko own world.mmc) :
    (boot images env bootSlot bootTry).Ensures world
      (fun later _ => Backed images env.mariko own later.mmc)
      (fun _ later => Backed images env.mariko own later.mmc)
      (fun _ later => Backed images env.mariko own later.mmc) := by
  obtain ⟨mark, none⟩ := marked_boot images env.mariko backed.boot
  have idle : ¬ UpdateAsked bootTry world :=
    fun asked => absurd (none.symm.trans asked.1) (by decide)
  have checked : ∀ later, CheckOnly (fun _ => True) bootSlot bootTry world later →
      Backed images env.mariko own later.mmc := by
    intro later only
    rw [(only.idle idle).2]
    exact backed
  have spec : (main images env bootSlot bootTry).Ensures world
      (fun later _ => Backed images env.mariko own later.mmc)
      (fun _ later => Backed images env.mariko own later.mmc)
      (fun _ later => Backed images env.mariko own later.mmc) := by
    apply Prog.Ensures.andThen (startChecks_spec.weakenStop fun _ _ same => same ▸ backed)
    intro _ _ same
    subst same
    refine Prog.Ensures.andThen ((fastCheck_spec env.mariko bootTry (env.link.keeps_true 1)
      (fun _ => trivial) trivial).mono (fun later _ issued => checked later issued.2.1)
      (fun _ _ after => after) fun _ later only => checked later only) ?_
    intro space second after
    obtain ⟨only, -, marked, -⟩ := after
    rw [mark, beq_self_eq_true, Bool.or_true] at marked
    exact afterCheck_backed reliable space marked (checked second only)
  exact Prog.ensures_recover spec fun reason later now =>
    (ledsConfigured_frame _ _ reason now).mono (fun _ _ issued => issued.1) (fun _ _ after => after)
      fun _ _ after => after

end Marked

/-- What may be left of a boot that saves the tables, for each number of operations performed. -/
structure FirstCuts (images : Images) (mariko : Bool) (own : Nat → Block) (safe : Nat → Prop)
    (performed : Nat) (left : World) (lost : Option BootOp) : Prop where
  /-- The tables are in place until the first block of the new table. -/
  before : performed < 100 → InPlace own left.mmc
  /-- Then the first block is the new one, but the boot block is not marked yet. -/
  torn : performed = 100 → left.mmc 0 = chunk (dataBct images mariko) 0 ∧ left.mmc 1 = own 1
  /-- From the boot block on, the tables are saved. -/
  after : 100 < performed → safe performed → Backed images mariko own left.mmc
  /-- The rewrite does not end before. -/
  unfinished : performed ≤ 100 → lost ≠ some .rewritten
  /-- The rewrite ends here. -/
  finished : performed = 140 → lost = some .rewritten

section First

variable {images : Images} {mariko : Bool} {own : Nat → Block} {safe : Nat → Prop}
  {performed : Nat} {left : World}

/-- A moment before the new table. -/
theorem FirstCuts.early {operation : BootOp} (early : performed < 100)
    (place : InPlace own left.mmc) (other : operation ≠ .rewritten) :
    FirstCuts images mariko own safe performed left (some operation) :=
  ⟨fun _ => place, fun now => absurd early (by omega), fun late => absurd early (by omega),
    fun _ same => other (Option.some.inj same), fun late => absurd early (by omega)⟩

/-- A moment after the boot block. -/
theorem FirstCuts.late {lost : Option BootOp} (late : 100 < performed)
    (backed : safe performed → Backed images mariko own left.mmc)
    (finished : performed = 140 → lost = some .rewritten) :
    FirstCuts images mariko own safe performed left lost :=
  ⟨fun early => absurd late (by omega), fun now => absurd late (by omega), fun _ => backed,
    fun early => absurd late (by omega), finished⟩

variable {link : Link} {cid : Cid} {bootSlot : Slot} {world : World}

/-- The part of a rewrite before the new table. -/
def beforeTable (link : Link) (images : Images) : Boot Unit := do
  reinitMmc link
  saveBct link
  writeData link 0x1F80 images.payload payloadSize

/-- The part of a rewrite after the boot block. -/
def afterBootBlock (link : Link) (images : Images) (mariko : Bool) (bootSlot : Slot) :
    Boot Unit := do
  Prog.forRange 2 18 fun index =>
    writeBlock link (0 + index) (chunk (dataBct images mariko) (512 * index))
  writeData link 0x20 (dataBct images mariko) bctSize
  writeDescriptor link images bootSlot

/-- The parts of a rewrite. -/
theorem writePayload_parts (link : Link) (images : Images) (mariko : Bool) (bootSlot : Slot) :
    writePayload link images mariko bootSlot = (do
      beforeTable link images
      writeBlock link 0 (chunk (dataBct images mariko) 0)
      writeBlock link 1 (chunk (dataBct images mariko) 512)
      afterBootBlock link images mariko bootSlot
      Prog.issue .rewritten id
      let vars ← Prog.gets World.vars
      if !vars.isSpaceBl && !vars.isCommand && !vars.wasSelfReset then
        Prog.stop (.finish 0 0)) := by
  have split : writeData link 0x0 (dataBct images mariko) bctSize = (do
      writeBlock link 0 (chunk (dataBct images mariko) 0)
      writeBlock link 1 (chunk (dataBct images mariko) 512)
      Prog.forRange 2 18 fun index =>
        writeBlock link (0 + index) (chunk (dataBct images mariko) (512 * index))) := rfl
  simp only [writePayload, beforeTable, afterBootBlock, split, bind_assoc]

/-- Before the new table, the tables stay in place, and then they are copied. -/
theorem beforeTable_counts (reliable : link.Reliable cid) (saves : SavesBct world.vars) :
    (beforeTable link images).Counts world 99
      (fun later operation => InPlace world.mmc later.mmc ∧ operation ≠ .rewritten)
      fun _ later => Copied world.mmc later.mmc ∧ later.bus.cidBuf = cid ∧
        later.flash = world.flash ∧ later.vars = world.vars := by
  refine Prog.counts_quietLeft _ (reinitMmc_counts reliable) ?_
  intro _ second after
  obtain ⟨same, card, -⟩ := after
  have saves' : SavesBct second.vars := same.vars ▸ saves
  have place : ∀ later, BlocksOnly (SavesTo second.vars) second later →
      InPlace world.mmc later.mmc := by
    intro later only block inside
    rw [only.mmc block, same.mmc]
    intro after
    obtain ⟨-, saved⟩ := after
    unfold SavedBlock InBlocks bctBlocks at *
    omega
  have copies : (saveBct link).Counts second 40
      (fun later operation => InPlace world.mmc later.mmc ∧ operation ≠ .rewritten)
      fun _ later => Copied world.mmc later.mmc ∧ later.bus.cidBuf = cid ∧
        later.flash = world.flash ∧ later.vars = world.vars := by
    refine ((saveBct_counts reliable saves').both saveBct_spec).mono ?_ ?_
    · intro later operation issued
      obtain ⟨-, only, block, sent, rfl, -⟩ := issued
      exact ⟨place later only, by simp⟩
    · intro _ later after
      obtain ⟨card', only, copied⟩ := after
      refine ⟨⟨fun index inside => ?_, place later only⟩, card'.trans card,
        only.flash.trans same.flash, only.vars.trans same.vars⟩
      rw [← same.mmc]
      exact copied saves' index inside
  change Prog.Counts _ _ (40 + 59) _ _
  refine copies.andThen fun _ third after => ?_
  obtain ⟨copied, card', flash, vars⟩ := after
  have payload : (writeData link 0x1F80 images.payload payloadSize).Counts third 59 _ _ :=
    writeBlocks_counts reliable copied fun mmc index _ below now => now.update
      (by unfold SavedBlock InBlocks bctBlocks; omega) (by unfold InBlocks bctBlocks; omega)
  refine payload.mono ?_ ?_
  · intro later operation issued
    obtain ⟨now, block, sent, rfl⟩ := issued
    exact ⟨now.2, by simp⟩
  · intro _ later kept
    exact ⟨kept.mmc, kept.cid.trans card', kept.flash.trans flash, kept.vars.trans vars⟩

/-- After the boot block, the tables stay saved and marked. -/
theorem afterBootBlock_counts (reliable : link.Reliable cid) {own : Nat → Block}
    (backed : Backed images mariko own world.mmc) :
    (afterBootBlock link images mariko bootSlot).Counts world 39
      (fun later _ => Backed images mariko own later.mmc)
      fun _ later => MmcKept (Backed images mariko own) world later := by
  have apart : ∀ index < 20, ¬ SavedBlock (0x20 + index) ∧ 0x20 + index ≠ 1 := by
    intro index inside
    unfold SavedBlock InBlocks bctBlocks
    omega
  have table : (Prog.forRange 2 18 fun index =>
      writeBlock link (0 + index) (chunk (dataBct images mariko) (512 * index))).Counts world 18
      (fun later _ => Backed images mariko own later.mmc)
      fun _ later => MmcKept (Backed images mariko own) world later :=
    (writeBlocks_counts reliable backed fun mmc index low below now => now.update
      (by unfold SavedBlock InBlocks bctBlocks; omega) (by omega)).mono
        (fun _ _ issued => issued.1) fun _ _ kept => kept
  have copy : ∀ later : World, Backed images mariko own later.mmc →
      (writeData link 0x20 (dataBct images mariko) bctSize).Counts later 20
        (fun later _ => Backed images mariko own later.mmc)
        fun _ last => MmcKept (Backed images mariko own) later last := by
    intro later now
    exact (writeBlocks_counts reliable now fun mmc index _ (below : index < 20) now => now.update
      (apart index below).1 fun boot => absurd boot (apart index below).2).mono
        (fun _ _ issued => issued.1) fun _ _ kept => kept
  have descriptor : ∀ later : World, Backed images mariko own later.mmc →
      (writeDescriptor link images bootSlot).Counts later 1
        (fun later _ => Backed images mariko own later.mmc)
        fun _ last => MmcKept (Backed images mariko own) later last := by
    intro later now
    exact (writeDescriptor_counts reliable now fun mmc content now => now.update
      (by unfold SavedBlock InBlocks bctBlocks; omega) (by omega)).mono
        (fun _ _ issued => issued.1) fun _ _ kept => kept
  change Prog.Counts _ _ (18 + (20 + 1)) _ _
  refine table.andThen fun _ second kept => ?_
  refine (copy second kept.mmc).andThen fun _ third kept' => ?_
  refine (descriptor third kept'.mmc).mono (fun _ _ issued => issued) fun _ later kept'' => ?_
  exact (kept.trans kept').trans kept''

/-- The operations of a rewrite that saves the tables, up to a program that goes on from there. -/
theorem writePayload_cuts {rest : Unit → Boot Unit} (reliable : link.Reliable cid)
    (saves : SavesBct world.vars)
    (again : world.vars.wasSelfReset = true → ∀ later, later.bus.cidBuf = cid →
      later.flash = world.flash → later.vars = world.vars →
      Backed images mariko world.mmc later.mmc → (rest ()).Cuts later fun performed =>
        FirstCuts images mariko world.mmc safe (141 + performed)) :
    (writePayload link images mariko bootSlot >>= rest).Cuts world
      (FirstCuts images mariko world.mmc safe) := by
  rw [writePayload_parts]
  simp only [bind_assoc]
  refine Prog.cuts_bind (beforeTable_counts reliable saves) ?_ ?_
  · intro performed below later operation issued
    exact FirstCuts.early (by omega) issued.1 issued.2
  intro _ second after
  obtain ⟨copied, card, flash, vars⟩ := after
  -- the new table, its first two blocks apart
  refine Prog.cuts_bind (writeBlock_counts reliable _) ?_ ?_
  · intro performed below later operation issued
    obtain ⟨same, rfl⟩ := issued
    refine FirstCuts.early (by omega) ?_ (by simp)
    rw [same.mmc]
    exact copied.2
  intro _ third stored
  refine Prog.cuts_bind (writeBlock_counts reliable _) ?_ ?_
  · intro performed below later operation issued
    obtain ⟨same, rfl⟩ := issued
    refine ⟨fun early => absurd early (by omega), fun _ => ?_,
      fun late => absurd late (by omega), fun _ => by simp, fun late => absurd late (by omega)⟩
    rw [same.mmc, stored.mmc, Function.update_self, Function.update_of_ne (by decide)]
    exact ⟨rfl, copied.2 1 (.inl (by unfold InBlocks bctBlocks; omega))⟩
  intro _ fourth stored'
  have backed : Backed images mariko world.mmc fourth.mmc := by
    rw [stored'.mmc, stored.mmc]
    exact ⟨(copied.1.update (by unfold SavedBlock InBlocks; omega)).update
      (by unfold SavedBlock InBlocks; omega), Function.update_self _ _ _⟩
  refine Prog.cuts_bind (afterBootBlock_counts reliable backed) ?_ ?_
  · intro performed below later operation now
    exact FirstCuts.late (by omega) (fun _ => now) fun end' => absurd end' (by omega)
  intro _ fifth kept
  -- the end of the rewrite
  have mark : (Prog.issue BootOp.rewritten id : Boot Unit).Counts fifth 1
      (fun later operation => fifth = later ∧ operation = .rewritten) fun _ later => fifth = later :=
    Prog.counts_issue ⟨rfl, rfl⟩ rfl
  refine Prog.cuts_bind mark ?_ ?_
  · intro performed below _ operation issued
    obtain ⟨rfl, rfl⟩ := issued
    exact FirstCuts.late (by omega) (fun _ => kept.mmc) fun _ => rfl
  intro _ _ same
  subst same
  have card' : fifth.bus.cidBuf = cid := by rw [kept.cid, stored'.cid, stored.cid, card]
  have flash' : fifth.flash = world.flash := by rw [kept.flash, stored'.flash, stored.flash, flash]
  have vars' : fifth.vars = world.vars := by rw [kept.vars, stored'.vars, stored.vars, vars]
  refine Prog.cuts_gets.mpr ?_
  rw [vars', saves.1, saves.2]
  have total : ∀ performed, 99 + (1 + (1 + (39 + (1 + performed)))) = 141 + performed := by
    intro performed
    omega
  cases own : world.vars.wasSelfReset with
  | true =>
    intro performed
    have now := again own fifth card' flash' vars' kept.mmc performed
    simp only [← total] at now
    exact now
  | false =>
    refine Prog.cuts_throughout (Prog.ensures_bind ((Prog.ensures_stop _).mpr fun performed => ?_))
    exact FirstCuts.late (by omega) (fun _ => kept.mmc) fun end' => absurd end' (by omega)

/-- A program on flash that does not stop takes its operations and keeps the eMMC. -/
theorem onFlash_counts {program : FlashProg Stop Unit}
    (returns : ∀ reason, (program world.flash).outcome ≠ .error reason) :
    (onFlash program).Counts world (program world.flash).trace.length
      (fun later operation => later.mmc = world.mmc ∧ ∃ o, operation = .flash o)
      fun _ later => later.mmc = world.mmc ∧ later.vars = world.vars ∧
        later.flash = (program world.flash).final := by
  refine Prog.Counts.zoom ⟨⟨fun _ _ => ⟨rfl, _, rfl⟩, fun _ _ => ⟨rfl, rfl, rfl⟩, ?_⟩, rfl⟩
  exact fun reason ended => returns reason ended

/-- Starting an empty record store does not stop. -/
theorem emptyStore_returns (images : Images) (cid : Cid) (flash : Memory) (reason : Stop) :
    (emptyStore images cid flash).outcome ≠ .error reason := by
  have spec : (emptyStore images cid).Ensures flash _ _ fun _ _ => False := initConfig_spec flash
  exact fun ended => spec.halted reason ended

/-- The check finds nothing in an unmarked boot block and learns the card identification. -/
theorem fastCheck_counts (reliable : link.Reliable cid) (bootTry : UInt32)
    (fresh : world.vars = ⟨false, false, false⟩) (unmarked : Unmarked mariko (world.mmc 1)) :
    (fastCheck link mariko bootSlot bootTry).Counts world 0 (fun _ _ => True) fun space later =>
      space = false ∧ later.flash = world.flash ∧ later.mmc = world.mmc ∧
        later.bus.cidBuf = cid ∧ SavesBct later.vars := by
  rw [fastCheck]
  refine Prog.counts_quietLeft _ (reinitMmc_counts reliable) ?_
  intro _ second after
  obtain ⟨same, card, -⟩ := after
  refine Prog.counts_quietLeft _ (readTwice_counts reliable _ _) ?_
  intro _ third after
  obtain ⟨same', buffer, card'⟩ := after
  have both := same.trans same'
  have boot : third.bus.dataBuf = world.mmc 1 := by rw [buffer, same.mmc]
  refine Prog.counts_gets (Prog.counts_update ?_)
  have idle : ¬ ((world.mmc 1).word 0 = firmwareUpdate ∧ bootTry = 0) := fun asked =>
    unmarked.2.2 asked.1
  have vars : third.vars = ⟨false, false, false⟩ := both.vars.trans fresh
  have mark : ((world.mmc 1).word markAt == payloadMark mariko) = false := beq_false_of_ne unmarked.1
  have reset : ((world.mmc 1).word 0 == chipReset) = false := beq_false_of_ne unmarked.2.1
  have update : ((world.mmc 1).word 0 == firmwareUpdate) = false := beq_false_of_ne unmarked.2.2
  rw [boot, if_neg idle, vars, mark, reset, update]
  exact Prog.counts_quiet rfl ⟨rfl, both.flash, both.mmc, card'.trans card, rfl, rfl⟩

end First

section FirstBoot

variable {images : Images} {cid : Cid} {env : Env} {bootSlot : Slot} {bootTry : UInt32}
  {world : World}

/-- The cuts of a boot that are safe: up to the end of the first rewrite, or all of them if there is
no second one. -/
def SafeCut (images : Images) (cid : Cid) (env : Env) (flash : Memory) (performed : Nat) : Prop :=
  performed ≤ opsToSearch images cid flash ∨ ¬ RewritesTwice images cid env flash

/-- What may be left of a boot that starts with a given flash and given tables of the console. -/
abbrev BootCuts (images : Images) (cid : Cid) (env : Env) (flash : Memory) (own : Nat → Block) :
    Nat → World → Option BootOp → Prop :=
  FirstCuts images env.mariko own (SafeCut images cid env flash)

/-- The second rewrite of a boot has changed nothing before its first operation. -/
theorem rewritePayload_again {rest : Boot Unit} {flash : Memory} {own : Nat → Block}
    {before : Nat} (reliable : env.link.Reliable cid) (saves : SavesBct world.vars)
    (backed : Backed images env.mariko own world.mmc) (twice : RewritesTwice images cid env flash)
    (reached : before = opsToSearch images cid flash) :
    (rewritePayload images env bootSlot >>= fun _ => rest).Cuts world fun performed =>
      BootCuts images cid env flash own (before + performed) := by
  have late : 140 < before := by
    rw [reached, opsToSearch]
    omega
  simp only [rewritePayload, writePayload, bind_assoc]
  refine Prog.cuts_quiet (reinitMmc_counts reliable) ?_
  intro _ second after
  obtain ⟨same, -⟩ := after
  rw [saveBct, bind_assoc]
  refine Prog.cuts_gets.mpr ?_
  rw [same.vars, if_pos (by simpa [SavesBct] using saves), bind_assoc]
  have split : copyBct env.link 0x0 0x7A0 = (do
      copyTries env.link (0 + 0) (0x7A0 + 0) 6 0 false false
      Prog.forRange 1 19 fun index =>
        copyTries env.link (0 + index) (0x7A0 + index) 6 0 false false) := rfl
  rw [split, bind_assoc]
  refine Prog.cuts_bind (copyTries_counts reliable _ _) ?_ ?_
  · intro performed below later operation after
    obtain ⟨same', -⟩ := after
    refine FirstCuts.late (by omega) (fun _ => ?_) fun end' => absurd end' (by omega)
    rw [same'.mmc, same.mmc]
    exact backed
  · intro _ third _ performed
    refine FirstCuts.late (by omega) (fun safe => ?_) fun end' => absurd end' (by omega)
    exact (safe.elim (fun few => absurd few (by omega)) fun once => once twice).elim

/-- What follows the first rewrite of a boot. -/
theorem search_cuts {rest : Boot Unit} {flash : Memory} {own : Nat → Block}
    (reliable : env.link.Reliable cid) (reset : selfReset images cid env flash = true)
    (same : world.flash = flash) (card : world.bus.cidBuf = cid) (saves : SavesBct world.vars)
    (backed : Backed images env.mariko own world.mmc) :
    ((do
      let cid ← Prog.gets fun world => world.bus.cidBuf
      onFlash (initConfig (payloadCrc images) cid)
      fullTry env bootSlot 0
      rewritePayload images env bootSlot
      rest) : Boot Unit).Cuts world fun performed =>
        BootCuts images cid env flash own (141 + performed) := by
  refine Prog.cuts_gets.mpr ?_
  rw [card]
  change (onFlash (emptyStore images cid) >>= _).Cuts world _
  refine Prog.cuts_bind (onFlash_counts (emptyStore_returns images cid world.flash)) ?_ ?_
  · intro performed below later operation after
    obtain ⟨mmc, o, rfl⟩ := after
    refine FirstCuts.late (by omega) (fun _ => by rw [mmc]; exact backed)
      fun end' => absurd end' (by omega)
  intro _ second after
  obtain ⟨mmc, vars, stored⟩ := after
  have backed2 : Backed images env.mariko own second.mmc := mmc ▸ backed
  have saves2 : SavesBct second.vars := vars ▸ saves
  have ops : 141 + (emptyStore images cid world.flash).trace.length =
      opsToSearch images cid flash := by rw [same, opsToSearch]
  by_cases missed : env.search 0 second.flash = .ok none
  · have tried : (fullTry env bootSlot 0).Counts second 0 (fun _ _ => True)
        fun _ later => second = later := by
      refine Prog.counts_gets ?_
      rw [missed]
      exact Prog.counts_pure rfl
    refine Prog.cuts_quiet tried ?_
    intro _ _ same
    subst same
    have twice : RewritesTwice images cid env flash :=
      ⟨reset, by rw [← same, ← stored]; exact missed⟩
    have again : (rewritePayload images env bootSlot >>= fun _ => rest).Cuts second _ :=
      rewritePayload_again reliable saves2 backed2 twice ops
    intro performed
    have now := again performed
    simp only [Nat.add_assoc] at now
    exact now
  · refine Prog.cuts_throughout (Prog.Ensures.andThen ((fullTry_frame
      (Backed images env.mariko own) 0 backed2).mono ?_ (fun _ _ after => after) ?_)
        fun _ _ after => absurd after.2.2 missed)
    · exact fun later operation now performed => FirstCuts.late (by omega) (fun _ => now)
        fun end' => absurd end' (by unfold opsToSearch at ops; omega)
    · exact fun _ later now performed => FirstCuts.late (by omega) (fun _ => now)
        fun end' => absurd end' (by omega)

/-- What may be left of the firmware once the check has found an unmarked boot block. -/
theorem afterCheck_cuts (reliable : env.link.Reliable cid) (saves : SavesBct world.vars)
    (card : world.bus.cidBuf = cid) :
    (afterCheck images env bootSlot false).Cuts world
      (BootCuts images cid env world.flash world.mmc) := by
  rw [afterCheck]
  refine Prog.cuts_gets.mpr (Prog.cuts_update.mpr ?_)
  rw [card]
  change (rewritePayload images env bootSlot >>= _).Cuts _ _
  rw [rewritePayload, bind_assoc]
  refine writePayload_cuts reliable saves fun reset later card' flash vars backed => ?_
  rw [bind_assoc]
  exact search_cuts reliable reset flash card' (by rw [vars]; exact saves) backed

/-- What may be left of a boot that starts with the console's own tables and passes the first
checks. -/
theorem boot_cuts (reliable : env.link.Reliable cid) (fresh : world.vars = ⟨false, false, false⟩)
    (unmarked : Unmarked env.mariko (world.mmc 1)) (passed : startChecks env bootTry = pure ()) :
    (boot images env bootSlot bootTry).Cuts world
      (BootCuts images cid env world.flash world.mmc) := by
  refine Prog.cuts_recover ?_ fun reason later => ?_
  · rw [main, passed, pure_bind]
    refine Prog.cuts_quiet (fastCheck_counts reliable bootTry fresh unmarked) ?_
    intro _ second after
    obtain ⟨rfl, flash, mmc, card, saves⟩ := after
    rw [← flash, ← mmc]
    exact afterCheck_cuts reliable saves card
  · refine (ledsConfigured_frame (· = later.mmc) _ reason rfl).mono ?_ ?_ ?_
    · intro moment operation after performed cuts
      obtain ⟨mmc, o, rfl⟩ := after
      refine ⟨?_, ?_, ?_, fun _ => by simp, fun end' => absurd (cuts.finished end') (by simp)⟩
      all_goals rw [mmc]
      exacts [cuts.before, cuts.torn, cuts.after]
    all_goals
      intro _ moment mmc performed cuts
      refine ⟨?_, ?_, ?_, cuts.unfinished, cuts.finished⟩
      all_goals rw [mmc]
      exacts [cuts.before, cuts.torn, cuts.after]

/-- A boot that does not pass the first checks leaves the eMMC alone. -/
theorem boot_refused {reason : Stop} (refused : startChecks env bootTry = Prog.stop reason) :
    (boot images env bootSlot bootTry).Cuts world fun _ left lost =>
      left.mmc = world.mmc ∧ lost ≠ some .rewritten := by
  have spec : ∀ (guarantee : World → BootOp → Prop) (post : Unit → World → Prop),
      (main images env bootSlot bootTry).Ensures world guarantee post
        fun _ later => world = later := by
    intro guarantee post
    rw [main, refused]
    exact Prog.ensures_bind ((Prog.ensures_stop _).mpr rfl)
  refine Prog.cuts_throughout (Prog.ensures_recover (spec _ _) ?_)
  intro reason' _ same
  subst same
  refine (ledsConfigured_frame (· = world.mmc) _ reason' rfl).mono ?_ ?_ ?_
  · intro later operation after _
    obtain ⟨mmc, o, rfl⟩ := after
    exact ⟨mmc, by simp⟩
  · exact fun _ _ mmc _ => ⟨mmc, by simp⟩
  · exact fun _ _ mmc _ => ⟨mmc, by simp⟩

/-- The first checks pass or stop. -/
theorem startChecks_cases (env : Env) (bootTry : UInt32) :
    startChecks env bootTry = pure () ∨ ∃ reason, startChecks env bootTry = Prog.stop reason := by
  unfold startChecks
  split
  · exact .inr ⟨_, rfl⟩
  · split
    · exact .inr ⟨_, rfl⟩
    · exact .inl rfl

end FirstBoot

/-- A rewrite has ended before power is lost exactly if its end is among the operations
performed. -/
theorem rewrote_iff (run : Run World BootOp Stop Unit) (performed : Nat) :
    rewrote run performed = true ↔ ∃ number < performed, run.lostAt number = some .rewritten := by
  have ended : ∀ operation, isRewritten operation = true ↔ operation = .rewritten := by
    intro operation
    cases operation <;> simp [isRewritten]
  simp only [rewrote, List.any_eq_true, ended, Run.lostAt]
  constructor
  · intro after
    obtain ⟨event, member, same⟩ := after
    obtain ⟨number, read⟩ := List.mem_iff_getElem?.mp member
    rw [List.getElem?_take] at read
    split at read
    · rename_i below
      exact ⟨number, below, by rw [read, Option.map_some, same]⟩
    · cases read
  · intro after
    obtain ⟨number, below, lost⟩ := after
    obtain ⟨event, read, same⟩ := Option.map_eq_some_iff.mp lost
    refine ⟨event, List.mem_iff_getElem?.mpr ⟨number, ?_⟩, same⟩
    rw [List.getElem?_take_of_lt below, read]

section Runs

variable {images : Images} {mariko : Bool} {cid : Cid} {first machine : Machine} {ended : Bool}

/-- Tables in place are those of every state in which they were in place before. -/
theorem InPlace.trans {own between after : Nat → Block} (left : InPlace own between)
    (right : InPlace between after) : InPlace own after :=
  fun block inside => (right block inside).trans (left block inside)

/-- Tables saved from where they were in place are the console's own. -/
theorem Backed.own {own between after : Nat → Block} (place : InPlace own between)
    (backed : Backed images mariko between after) : Backed images mariko own after := by
  refine ⟨fun index inside => ?_, backed.boot⟩
  obtain ⟨copy, copy'⟩ := backed.saved index inside
  unfold bctBlocks at inside
  rw [copy, copy', place index (.inl (by unfold InBlocks bctBlocks; omega)),
    place (0x20 + index) (.inr (by unfold InBlocks bctBlocks; omega))]
  exact ⟨rfl, rfl⟩

/-- The tables of the console are saved, or in place while no rewrite has ended. -/
def TablesKept (images : Images) (mariko : Bool) (own : Nat → Block) (machine : Machine)
    (ended : Bool) : Prop :=
  Backed images mariko own machine.mmc ∨ InPlace own machine.mmc ∧ ended = false

/-- A boot under the condition keeps the tables of the console. -/
theorem TablesKept.boot {own : Nat → Block} {env : Env} {performed : Nat}
    (kept : TablesKept images env.mariko own machine ended) (unmarked : Unmarked env.mariko (own 1))
    (reliable : env.link.Reliable cid) (safe : SafeBoot images cid machine env performed) :
    TablesKept images env.mariko own (machine.afterBoot images env performed)
      (ended || rewrote (machine.firmwareRun images env) performed) := by
  rcases firmwareRun_cases images env machine with idle | run
  · have none : rewrote (machine.firmwareRun images env) performed = false := by
      rw [idle, rewrote, List.take_nil]
      rfl
    have same : (machine.afterBoot images env performed).mmc = machine.mmc := by
      rw [Machine.afterBoot, idle]
      rfl
    rw [none, Bool.or_false, TablesKept, same]
    exact kept
  · have left : (machine.afterBoot images env performed).mmc =
      ((Firmware.boot images env (machine.scratchAfter env).2 (machine.scratchAfter env).1
        machine.world).cutAt performed).mmc := by rw [Machine.afterBoot, run]
    rcases kept with backed | ⟨place, rfl⟩
    · refine .inl ?_
      rw [left]
      exact (boot_backed reliable backed).cutAt (fun _ _ now => now) (fun _ _ now => now)
        (fun _ _ now => now) performed
    · have boot : machine.mmc 1 = own 1 := place 1 (.inl (by unfold InBlocks bctBlocks; omega))
      have unmarked' : Unmarked env.mariko (machine.world.mmc 1) := by
        change Unmarked env.mariko (machine.mmc 1)
        rw [boot]
        exact unmarked
      rw [TablesKept, left, run, Bool.false_or]
      rcases startChecks_cases env (machine.scratchAfter env).1 with passed | ⟨reason, refused⟩
      · have cuts : (Firmware.boot images env (machine.scratchAfter env).2
            (machine.scratchAfter env).1).Cuts machine.world _ :=
          boot_cuts reliable rfl unmarked' passed
        obtain ⟨apart, safe'⟩ := safe unmarked'
        rcases Nat.lt_or_gt_of_ne apart with early | late
        · refine .inr ⟨place.trans ((cuts performed).before early), ?_⟩
          refine Bool.eq_false_iff.mpr fun done => ?_
          obtain ⟨number, below, lost⟩ := (rewrote_iff _ _).mp done
          exact (cuts number).unfinished (by omega) lost
        · exact .inl (((cuts performed).after late safe').own place)
      · have cuts : (Firmware.boot images env (machine.scratchAfter env).2
            (machine.scratchAfter env).1).Cuts machine.world _ := boot_refused refused
        refine .inr ⟨by rw [(cuts performed).1]; exact place, Bool.eq_false_iff.mpr fun done => ?_⟩
        obtain ⟨number, -, lost⟩ := (rewrote_iff _ _).mp done
        exact (cuts number).2 lost

/-- In every run of boots that meet the condition, once a rewrite has ended, the saved tables are
the console's own. -/
theorem saved_tables_kept (unmarked : Unmarked mariko (first.mmc 1))
    (boots : Rewrites images mariko cid (SafeBoot images cid) first machine true) :
    ∀ index < 20, machine.mmc (0x7A0 + index) = first.mmc index ∧
      machine.mmc (0x7C0 + index) = first.mmc (0x20 + index) := by
  have kept : ∀ machine ended, Rewrites images mariko cid (SafeBoot images cid) first machine ended →
      TablesKept images mariko first.mmc machine ended := by
    intro machine ended boots
    induction boots with
    | refl => exact .inr ⟨fun _ _ => rfl, rfl⟩
    | boot env performed _ same reliable safe ih =>
      subst same
      exact ih.boot unmarked reliable safe
  rcases kept machine true boots with backed | ⟨-, never⟩
  · exact backed.saved
  · cases never

end Runs

/-- The end of the first rewrite is a safe cut. -/
theorem safeBoot_rewritten (images : Images) (cid : Cid) (machine : Machine) (env : Env) :
    SafeBoot images cid machine env 141 :=
  fun _ => ⟨by decide, .inl (Nat.le_add_right _ _)⟩

/-- Card identification of the cold boots. -/
def idleCid : Cid := fun _ => 0

/-- A cold boot of a console whose tables are in place saves them, replaces the first block of the
table before the boot block, and ends its rewrite. -/
theorem idle_boot {machine : Machine} (bootable : Bootable machine.flash)
    (unmarked : Unmarked true (machine.mmc 1)) :
    (machine.afterBoot blankImages idleEnv 100).mmc 0 = chunk (dataBct blankImages true) 0 ∧
      (machine.afterBoot blankImages idleEnv 100).mmc 1 = machine.mmc 1 ∧
      Saved machine.mmc (machine.afterBoot blankImages idleEnv 141).mmc ∧
      rewrote (machine.firmwareRun blankImages idleEnv) 141 = true := by
  have reliable : idleEnv.link.Reliable idleCid := perfectLink_reliable _
  have start : Unmarked idleEnv.mariko (machine.world.mmc 1) := unmarked
  have passed : startChecks idleEnv 0 = pure () := rfl
  have cuts : (machine.firmwareRun blankImages idleEnv).Cuts
      (BootCuts blankImages idleCid idleEnv machine.world.flash machine.world.mmc) := by
    rw [firmwareRun_cold blankImages idleEnv rfl bootable.2]
    exact boot_cuts reliable rfl start passed
  obtain ⟨first, boot⟩ := (cuts 100).torn rfl
  have few : SafeCut blankImages idleCid idleEnv machine.world.flash 141 :=
    .inl (Nat.le_add_right _ _)
  exact ⟨first, boot, ((cuts 141).after (by decide) few).saved,
    (rewrote_iff _ _).mpr ⟨140, by decide, (cuts 140).finished rfl⟩⟩

/-- A boot that is cut right before the transfer of the boot block, and one more: a rewrite has
ended, and the first saved block is that of the firmware's own table. -/
theorem torn_boots {machine : Machine} (bootable : Bootable machine.flash)
    (fits : ∀ slot, ImageFits machine.flash slot) (unmarked : Unmarked true (machine.mmc 1)) :
    ∃ later, Rewrites blankImages true idleCid (fun _ _ _ => True) machine later true ∧
      later.mmc 0x7A0 = chunk (dataBct blankImages true) 0 := by
  obtain ⟨first, boot, -⟩ := idle_boot bootable unmarked
  have bootable' := afterBoot_bootable blankImages idleEnv 100 fits bootable
  have torn : Rewrites blankImages true idleCid (fun _ _ _ => True) machine
      (machine.afterBoot blankImages idleEnv 100) _ :=
    .boot idleEnv 100 .refl rfl (perfectLink_reliable _) trivial
  generalize machine.afterBoot blankImages idleEnv 100 = second at *
  obtain ⟨-, -, saved, ended⟩ := idle_boot bootable' (by rw [boot]; exact unmarked)
  have boots := torn.boot idleEnv 141 rfl (perfectLink_reliable _) trivial
  rw [ended, Bool.or_true] at boots
  exact ⟨_, boots, (saved 0 (by decide)).1.trans first⟩

/-- A machine with an eMMC of zeros can boot, and its tables are not marked. -/
theorem oneByteMachine_ready : Bootable oneByteMachine.flash ∧
    Unmarked true (oneByteMachine.mmc 1) := by
  obtain ⟨burnt, accepted, -⟩ := oneByteMachine_valid
  refine ⟨⟨burnt.fusePage, accepted⟩, ?_⟩
  unfold Unmarked
  decide +kernel

/-- Saved tables after one boot of this machine that meets the condition. -/
theorem saved_tables_kept_once :
    Saved oneByteMachine.mmc (oneByteMachine.afterBoot blankImages idleEnv 141).mmc := by
  obtain ⟨bootable, unmarked⟩ := oneByteMachine_ready
  have ended := (idle_boot bootable unmarked).2.2.2
  have boot : Rewrites blankImages true idleCid (SafeBoot blankImages idleCid) oneByteMachine
      (oneByteMachine.afterBoot blankImages idleEnv 141) _ :=
    .boot idleEnv 141 .refl rfl (perfectLink_reliable _) (safeBoot_rewritten _ _ _ _)
  rw [ended] at boot
  exact saved_tables_kept unmarked boot

/-- Without the condition, the first saved block of this machine can be lost after a rewrite has
ended. -/
theorem saved_tables_lost : ∃ machine,
    Rewrites blankImages true idleCid (fun _ _ _ => True) oneByteMachine machine true ∧
      machine.mmc 0x7A0 ≠ oneByteMachine.mmc 0 := by
  obtain ⟨bootable, unmarked⟩ := oneByteMachine_ready
  obtain ⟨later, boots, lost⟩ := torn_boots bootable oneByteMachine_valid.2.2 unmarked
  refine ⟨later, boots, fun same => ?_⟩
  have byte : chunk (dataBct blankImages true) 0 1 = 8 := by decide +kernel
  rw [← lost, same] at byte
  cases byte

end Fly2040.System
