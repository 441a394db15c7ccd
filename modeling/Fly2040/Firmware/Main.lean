import Fly2040.Firmware.Payload
import Fly2040.Firmware.Records
/-!
# The firmware of one boot

The firmware carries out the command of the boot block, rewrites the payload where that is
needed, and searches for a glitch. A success commits the running slot by a fuse and is
learned. What the outside world does in a boot is an environment of the program.
-/

namespace Fly2040.Firmware

open Bytes Durable Nor

/-- What the outside world does in one boot. -/
structure Env where
  /-- The watchdog was enabled before the last reset. -/
  watchdogEnableCaused : Bool
  /-- The last reset was one of the watchdog. -/
  watchdogCaused : Bool
  /-- The line to the eMMC. -/
  link : Link
  /-- The console is a mariko. -/
  mariko : Bool
  /-- The reset button is held. -/
  forceButton : Bool
  /-- The code shown by the self test or by waiting for the console, if one of them fails. -/
  failure : Option (Nat × Nat)
  /-- The search of a full try, given flash: the offset of a glitch, none, or the code it shows. -/
  search : Nat → Memory → Except (Nat × Nat) (Option (Fin offsetCnt))
  /-- An i2c master configures the LEDs after the boot. -/
  ledsConfigured : Bool

/-- A cold boot of a mariko on a line that never fails, with given results of the searches. -/
def coldEnv (search : Nat → Memory → Except (Nat × Nat) (Option (Fin offsetCnt))) : Env where
  watchdogEnableCaused := false
  watchdogCaused := false
  link := perfectLink fun _ => 0
  mariko := true
  forceButton := false
  failure := none
  search := search
  ledsConfigured := false

/-- Stop with a code. -/
def finishWithCode {α : Type} (code : Nat × Nat) : Boot α := Prog.stop (.finish code.1 code.2)

/-- The checks before the eMMC is used. -/
def startChecks (env : Env) (bootTry : UInt32) : Boot Unit :=
  if env.watchdogCaused && bootTry == 0 then finishWithCode (1, 1)
  else match env.failure with
    | some code => finishWithCode code
    | none => pure ()

/-- Rewrite the payload and start an empty record store. -/
def rewritePayload (images : Images) (env : Env) (bootSlot : Slot) : Boot Unit := do
  writePayload env.link images env.mariko bootSlot
  let cid ← Prog.gets fun world => world.bus.cidBuf
  onFlash (initConfig (payloadCrc images) cid)

/-- Finish an update or a rollback. -/
def commitSlot (bootSlot : Slot) : Boot Unit := do
  let boot ← Prog.gets fun world => fuseSlot world.flash
  Prog.runIf (boot != bootSlot) (onFlash burnFuse)

/-- One full try: a search, which on success commits the slot and learns the offset. -/
def fullTry (env : Env) (bootSlot : Slot) (number : Nat) : Boot Unit := do
  let found ← Prog.gets fun world => env.search number world.flash
  match found with
  | .error code => finishWithCode code
  | .ok none => pure ()
  | .ok (some index) => do
    commitSlot bootSlot
    onFlash (addBootRecord (gridOffset index))
    finishWithCode (0, 1)

/-- The firmware once the boot block has been checked. -/
def afterCheck (images : Images) (env : Env) (bootSlot : Slot) (forceCheck : Bool) : Boot Unit := do
  let selfReset ← Prog.gets fun world =>
    env.forceButton || !isConfigured (payloadCrc images) world.bus.cidBuf world.flash
  setVars fun vars => { vars with wasSelfReset := selfReset }
  -- perform payload rewrite if required
  Prog.runIf (!forceCheck || selfReset) (rewritePayload images env bootSlot)
  fullTry env bootSlot 0
  rewritePayload images env bootSlot
  fullTry env bootSlot 1
  -- attempts limit
  finishWithCode (7, 3)

/-- The firmware. -/
def main (images : Images) (env : Env) (bootSlot : Slot) (bootTry : UInt32) : Boot Unit := do
  startChecks env bootTry
  let forceCheck ← fastCheck env.link env.mariko bootSlot bootTry
  afterCheck images env bootSlot forceCheck

/-- A boot: the firmware, and after it showed a code the LEDs, which an i2c master may
configure. -/
def boot (images : Images) (env : Env) (bootSlot : Slot) (bootTry : UInt32) : Boot Unit :=
  Prog.recover (main images env bootSlot bootTry) fun reason => do
    Prog.runIf (env.ledsConfigured && reason != .reboot) (onFlash setI2cConfigured)
    Prog.stop reason

/-- A property of flash that the firmware of a slot keeps: changes of the record store keep it, an
update of the other slot does in a first attempt, and so does a commit of the slot. -/
structure FlashInvariant (bootSlot : Slot) (bootTry : UInt32) (invariant : Memory → Prop) :
    Prop where
  /-- Changes of the record store. -/
  records : ∀ before after, SameOutside configStart fuseOff before after → invariant before →
    invariant after
  /-- An update. -/
  update : bootTry = 0 → ∀ before after, SameOutside (fwSlot bootSlot.other)
    (fwSlot bootSlot.other + slotSize) before after → invariant before → invariant after
  /-- A commit. -/
  burn : ∀ before, invariant before → fuseSlot before ≠ bootSlot →
    (burnFuse : FlashProg Stop Unit).Ensures before (fun later _ => invariant later)
      (fun _ later => invariant later) (fun _ later => invariant later)

/-- A property of the boot block that a boot keeps: transfers keep it, and the firmware's own boot
blocks have it. -/
structure BootInvariant (images : Images) (env : Env) (holds : Block → Prop) : Prop where
  /-- Transfers. -/
  keeps : env.link.Keeps 1 holds
  /-- The block that replaces a command. -/
  reset : ∀ tempBuf, holds (chipResetBlock tempBuf)
  /-- The boot block of the payload. -/
  payload : holds (chunk (dataBct images env.mariko) 512)

/-- The boot block carries neither the mark of the payload nor a command. -/
def Unmarked (mariko : Bool) (content : Block) : Prop :=
  content.word markAt ≠ payloadMark mariko ∧ content.word 0 ≠ chipReset ∧
    content.word 0 ≠ firmwareUpdate

/-- The flags of a boot are those of the boot block at its start. -/
def FlagsOf (mariko : Bool) (content : Block) (vars : Vars) : Prop :=
  vars.isSpaceBl = (content.word markAt == payloadMark mariko) ∧
    vars.isCommand = (content.word 0 == chipReset || content.word 0 == firmwareUpdate)

/-- Tables are saved by the boots that start from an unmarked boot block. -/
theorem FlagsOf.saves {mariko : Bool} {content : Block} {vars : Vars}
    (flags : FlagsOf mariko content vars) : SavesBct vars ↔ Unmarked mariko content := by
  simp [SavesBct, flags.1, flags.2, Unmarked]

/-- The operations that a boot may issue: tables are saved from an unmarked boot block only, and a
slot is changed only by an update that was asked for, once its command is consumed. -/
def MayIssue (mariko : Bool) (bootSlot : Slot) (bootTry : UInt32) (origin later : World) :
    BootOp → Prop
  | .write block _ => SavedBlock block → Unmarked mariko (origin.mmc 1)
  | .flash operation => operation.Within configStart fuseOff ∨
      operation.Within fuseOff (fuseOff + 0x1000) ∨
      (UpdateAsked bootTry origin ∧ (later.mmc 1).word 0 = chipReset ∧
        operation.Within (fwSlot bootSlot.other) (fwSlot bootSlot.other + slotSize))
  | .rewritten => True

/-- A property of flash and one of the boot block. -/
def BootHolds (invariant : Memory → Prop) (holds : Block → Prop) (world : World) : Prop :=
  invariant world.flash ∧ holds (world.mmc 1)

/-- What holds at each operation of a boot. -/
def BootIssued (invariant : Memory → Prop) (holds : Block → Prop) (mariko : Bool)
    (bootSlot : Slot) (bootTry : UInt32) (origin later : World) (operation : BootOp) : Prop :=
  BootHolds invariant holds later ∧ MayIssue mariko bootSlot bootTry origin later operation

section Specifications

variable {images : Images} {env : Env} {bootSlot : Slot} {bootTry : UInt32}
  {invariant : Memory → Prop} {holds : Block → Prop} {origin world : World}

/-- A program on the record store keeps the invariants of a boot. -/
theorem records_spec (flash : FlashInvariant bootSlot bootTry invariant)
    {program : FlashProg Stop Unit}
    (confined : Confined configStart fuseOff world.flash program world.flash)
    (start : BootHolds invariant holds world) :
    (onFlash program).Ensures world
      (BootIssued invariant holds env.mariko bootSlot bootTry origin)
      (fun _ later => BootHolds invariant holds later ∧ later.vars = world.vars)
      (fun _ later => BootHolds invariant holds later) := by
  refine Prog.Ensures.zoom (confined.mono ?_ ?_ ?_)
  · exact fun later operation issued =>
      ⟨⟨flash.records _ _ issued.2 start.1, start.2⟩, .inl issued.1⟩
  · exact fun _ later same => ⟨⟨flash.records _ _ same start.1, start.2⟩, rfl⟩
  · exact fun _ later same => ⟨flash.records _ _ same start.1, start.2⟩

/-- A rewrite keeps the invariants of a boot. -/
theorem rewritePayload_spec (flash : FlashInvariant bootSlot bootTry invariant)
    (block : BootInvariant images env holds) (start : BootHolds invariant holds world)
    (flags : FlagsOf env.mariko (origin.mmc 1) world.vars) :
    (rewritePayload images env bootSlot).Ensures world
      (BootIssued invariant holds env.mariko bootSlot bootTry origin)
      (fun _ later => BootHolds invariant holds later ∧ later.vars = world.vars)
      (fun _ later => BootHolds invariant holds later) := by
  have kept : ∀ later, PayloadOnly holds world later → BootHolds invariant holds later :=
    fun later only => ⟨by rw [only.blocks.flash]; exact start.1, only.boot⟩
  refine Prog.Ensures.andThen ((writePayload_spec env.mariko block.keeps block.payload
    start.2).mono ?_ (fun _ _ only => only) fun _ later only => kept later only) ?_
  · intro later operation after
    obtain ⟨only, rfl | ⟨number, sent, rfl, inside⟩⟩ := after
    · exact ⟨kept later only, trivial⟩
    · refine ⟨kept later only, fun saved => flags.saves.mp ?_⟩
      rcases inside with ⟨saves, -⟩ | payload
      · exact saves
      · unfold SavedBlock PayloadBlock InBlocks bctBlocks at *
        omega
  intro _ second only
  apply Prog.ensures_read
  refine (records_spec flash (initConfig_confined _ _ _) (kept second only)).weaken ?_
  exact fun _ _ after => ⟨after.1, after.2.trans only.blocks.vars⟩

/-- A commit keeps the invariants of a boot. -/
theorem commitSlot_spec (flash : FlashInvariant bootSlot bootTry invariant)
    (start : BootHolds invariant holds world) :
    (commitSlot bootSlot).Ensures world
      (BootIssued invariant holds env.mariko bootSlot bootTry origin)
      (fun _ later => BootHolds invariant holds later)
      (fun _ later => BootHolds invariant holds later) := by
  apply Prog.ensures_read
  refine Prog.ensures_runIf (fun other => ?_) fun _ => start
  have burn := (flash.burn world.flash start.1 (by simpa using other)).both
    (burnFuse_confined (SameOutside.refl world.flash))
  refine Prog.Ensures.zoom (burn.mono ?_ ?_ ?_)
  · exact fun later operation issued => ⟨⟨issued.1, start.2⟩, .inr (.inl issued.2.1)⟩
  · exact fun _ later after => ⟨after.1, start.2⟩
  · exact fun _ later after => ⟨after.1, start.2⟩

/-- A full try keeps the invariants of a boot. -/
theorem fullTry_spec (flash : FlashInvariant bootSlot bootTry invariant) (number : Nat)
    (start : BootHolds invariant holds world) :
    (fullTry env bootSlot number).Ensures world
      (BootIssued invariant holds env.mariko bootSlot bootTry origin)
      (fun _ later => BootHolds invariant holds later ∧ later.vars = world.vars)
      (fun _ later => BootHolds invariant holds later) := by
  apply Prog.ensures_read
  split
  · exact (Prog.ensures_stop _).mpr start
  · exact (Prog.ensures_pure _).mpr ⟨start, rfl⟩
  · rename_i index _
    refine (commitSlot_spec flash start).andThen fun _ later kept => ?_
    refine Prog.Ensures.andThen (records_spec flash (addBootRecord_confined index
      (SameOutside.refl _)) kept) fun _ _ after => ?_
    exact (Prog.ensures_stop _).mpr after.1

/-- The check of the boot block keeps the invariants of a boot, whether or not it updates. -/
theorem CheckOnly.bootHolds (flash : FlashInvariant bootSlot bootTry invariant)
    (start : BootHolds invariant holds world) {later : World}
    (only : CheckOnly holds bootSlot bootTry world later) : BootHolds invariant holds later := by
  refine ⟨?_, only.boot⟩
  by_cases asked : UpdateAsked bootTry world
  · exact flash.update asked.2 _ _ only.flash start.1
  · rw [(only.idle asked).1]
    exact start.1

/-- The check issues only what a boot may issue. -/
theorem CheckIssued.bootIssued (flash : FlashInvariant bootSlot bootTry invariant)
    (start : BootHolds invariant holds world) {later : World} {operation : BootOp}
    (issued : CheckIssued holds bootSlot bootTry world later operation) :
    BootIssued invariant holds env.mariko bootSlot bootTry world later operation := by
  obtain ⟨asked, only, ⟨sent, rfl⟩ | ⟨reset, o, rfl, within⟩⟩ := issued
  · refine ⟨only.bootHolds flash start, fun saved => ?_⟩
    unfold SavedBlock InBlocks at saved
    omega
  · exact ⟨only.bootHolds flash start, .inr (.inr ⟨asked, reset, within⟩)⟩

/-- Once the boot block has been checked, the firmware issues only what it may issue, and keeps the
invariants of a boot at every moment. -/
theorem afterCheck_spec (flash : FlashInvariant bootSlot bootTry invariant)
    (block : BootInvariant images env holds) (kept : BootHolds invariant holds world)
    (flags : FlagsOf env.mariko (origin.mmc 1) world.vars) (forceCheck : Bool) :
    (afterCheck images env bootSlot forceCheck).Ensures world
      (BootIssued invariant holds env.mariko bootSlot bootTry origin)
      (fun _ later => BootHolds invariant holds later)
      (fun _ later => BootHolds invariant holds later) := by
  apply Prog.ensures_read
  apply Prog.ensures_change
  refine Prog.ensures_via (fun _ later => BootHolds invariant holds later ∧
    FlagsOf env.mariko (origin.mmc 1) later.vars) (Prog.ensures_runIf (fun _ => ?_)
      fun _ => ⟨kept, flags⟩) ?_
  · refine Prog.Ensures.weaken (rewritePayload_spec flash block kept flags) ?_
    intro _ later after
    obtain ⟨kept, same⟩ := after
    exact ⟨kept, same ▸ flags⟩
  intro _ second after
  obtain ⟨kept, flags⟩ := after
  refine (fullTry_spec flash 0 kept).andThen fun _ third after => ?_
  obtain ⟨kept, same⟩ := after
  refine Prog.Ensures.andThen (rewritePayload_spec flash block kept (same ▸ flags))
    fun _ fourth after => ?_
  obtain ⟨kept, _⟩ := after
  exact (fullTry_spec flash 1 kept).andThen fun _ _ after =>
    (Prog.ensures_stop _).mpr after.1

/-- The first checks change nothing. -/
theorem startChecks_spec {guarantee : World → BootOp → Prop} :
    (startChecks env bootTry).Ensures world guarantee (fun _ later => world = later)
      (fun _ later => world = later) := by
  unfold startChecks
  split
  · exact (Prog.ensures_stop _).mpr rfl
  · split
    · exact (Prog.ensures_stop _).mpr rfl
    · exact (Prog.ensures_pure _).mpr rfl

/-- From a world in which no flag is set, so does the firmware from its start. -/
theorem main_spec (flash : FlashInvariant bootSlot bootTry invariant)
    (block : BootInvariant images env holds) (start : BootHolds invariant holds world)
    (fresh : world.vars = ⟨false, false, false⟩) :
    (main images env bootSlot bootTry).Ensures world
      (BootIssued invariant holds env.mariko bootSlot bootTry world)
      (fun _ later => BootHolds invariant holds later)
      (fun _ later => BootHolds invariant holds later) := by
  apply Prog.Ensures.andThen (startChecks_spec.weakenStop fun _ _ same => same ▸ start)
  intro _ _ same
  subst same
  refine Prog.Ensures.andThen ((fastCheck_spec env.mariko bootTry block.keeps block.reset
    start.2).mono (fun _ _ issued => issued.bootIssued flash start) (fun _ _ after => after)
    fun _ _ only => only.bootHolds flash start) ?_
  intro space second after
  obtain ⟨only, -, marked, command, -⟩ := after
  rw [fresh, Bool.false_or] at marked command
  exact afterCheck_spec flash block (only.bootHolds flash start) ⟨marked, command⟩ space

/-- So does the whole boot. -/
theorem boot_spec (flash : FlashInvariant bootSlot bootTry invariant)
    (block : BootInvariant images env holds) (start : BootHolds invariant holds world)
    (fresh : world.vars = ⟨false, false, false⟩) :
    (boot images env bootSlot bootTry).Ensures world
      (BootIssued invariant holds env.mariko bootSlot bootTry world)
      (fun _ later => BootHolds invariant holds later)
      (fun _ later => BootHolds invariant holds later) := by
  refine Prog.ensures_recover (main_spec flash block start fresh) fun reason later kept => ?_
  refine Prog.ensures_via (fun _ after => BootHolds invariant holds after)
    (Prog.ensures_runIf (fun _ => ?_) fun _ => kept) fun _ _ after => (Prog.ensures_stop _).mpr after
  exact (records_spec flash (clearFlag_confined i2cAt (SameOutside.refl _)) kept).weaken
    fun _ _ after => after.1

end Specifications

end Fly2040.Firmware
