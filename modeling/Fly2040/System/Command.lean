import Fly2040.Lib.Moments
import Fly2040.System.Boot
/-!
# Commands are consumed once

The update command lies on the eMMC, where it would be found again by every later boot. The
firmware replaces it by the chip-reset word before it changes a slot, so an update that was cut
at any point is not started again, and the boot after it does not save the tables that the
firmware itself has written.
-/

namespace Fly2040.System

open Bytes Durable Nor Firmware

/-- A flash operation that stays neither in the record store nor in the fuse sector. -/
def SlotOp (operation : BootOp) : Prop :=
  ∃ o, operation = .flash o ∧ ¬ o.Within configStart fuseOff ∧
    ¬ o.Within fuseOff (fuseOff + 0x1000)

/-- The boot block carries the chip-reset word. -/
def Consumed (world : World) : Prop := (world.mmc 1).word 0 = chipReset

section Settling

variable {link : Link} {cid : Cid} {images : Images} {env : Env} {bootSlot : Slot}
  {bootTry : UInt32} {world : World}

/-- Everything is an invariant. -/
theorem flashInvariant_true (bootSlot : Slot) (bootTry : UInt32) :
    FlashInvariant bootSlot bootTry fun _ => True :=
  ⟨fun _ _ _ _ => trivial, fun _ _ _ _ _ => trivial, fun before _ _ =>
    (burnFuse_confined (SameOutside.refl before)).mono (fun _ _ _ => trivial)
      (fun _ _ _ => trivial) fun _ _ _ => trivial⟩

/-- Whatever always holds is a property of the boot block that a boot keeps. -/
theorem bootInvariant_true (images : Images) (env : Env) : BootInvariant images env fun _ => True :=
  ⟨env.link.keeps_true 1, fun _ => trivial, trivial⟩

/-- Only a boot that is asked for an update may issue a slot operation. -/
theorem slotOp_asked {mariko : Bool} {origin later : World} {operation : BootOp}
    (may : MayIssue mariko bootSlot bootTry origin later operation) (slot : SlotOp operation) :
    UpdateAsked bootTry origin := by
  obtain ⟨o, rfl, beyond, beyond'⟩ := slot
  rcases may with records | fuses | ⟨asked, -⟩
  · exact absurd records beyond
  · exact absurd fuses beyond'
  · exact asked

/-- Once the boot block has been checked, no slot operation is issued. -/
theorem afterCheck_quiet {origin : World} (forceCheck : Bool)
    (flags : FlagsOf env.mariko (origin.mmc 1) world.vars) :
    (afterCheck images env bootSlot forceCheck).Ensures world
      (fun _ operation => ¬ SlotOp operation) (fun _ _ => True) (fun _ _ => True) := by
  -- the number of the attempt plays no role any more
  have idle : ¬ UpdateAsked 1 origin := fun asked => absurd asked.2 (by decide)
  refine (afterCheck_spec (flashInvariant_true bootSlot 1) (bootInvariant_true images env)
    ⟨trivial, trivial⟩ flags forceCheck).mono (fun _ _ issued slot => ?_)
    (fun _ _ _ => trivial) fun _ _ _ => trivial
  exact idle (slotOp_asked issued.2 slot)

/-- Writing the image settles: from the first block on the boot block stays consumed until the
boot ends, and an image that is refused leaves the rest of the boot without slot operations. -/
theorem writeImage_settles (startBlock sizeBlocks : UInt32) {rest : Bool → Boot Unit}
    (consumed : Consumed world) (success : rest true = Prog.stop .reboot)
    (refused : ∀ later, SlotOnly bootSlot.other world later →
      (rest false).Ensures later (fun _ operation => ¬ SlotOp operation) (fun _ _ => True)
        (fun _ _ => True)) :
    (writeImage link bootSlot startBlock sizeBlocks >>= rest).Settles world SlotOp Consumed := by
  have same : SlotOnly bootSlot.other world world := ⟨rfl, rfl, SameOutside.refl _⟩
  have accepted : ∀ later, (rest true).Settles later SlotOp Consumed := by
    intro later
    rw [success]
    exact Run.settles_unwatched fun event member => by cases member
  have idle : ∀ later, SlotOnly bootSlot.other world later →
      (rest false).Settles later SlotOp Consumed :=
    fun later frame => Prog.settles_unwatched (refused later frame)
  rw [writeImage]
  split
  · rw [pure_bind]
    exact accepted world
  split
  · rw [pure_bind]
    exact idle world same
  split
  · rw [pure_bind]
    exact idle world same
  rename_i sum each
  obtain ⟨-, size⟩ := updateRange sum each
  cases blocks : sizeBlocks.toNat with
  | zero =>
    rw [updateBlocks, pure_bind]
    exact accepted world
  | succ left =>
    rw [updateBlocks, bind_assoc]
    refine Prog.settles_bind (readTwice_spec _ _) fun _ second after => ?_
    obtain ⟨bus, buffer⟩ := after
    have frame := same.bus bus
    rw [bind_assoc]
    refine Prog.settles_gets.mpr ?_
    rw [bind_assoc]
    refine Prog.settles_gets.mpr ?_
    split
    · rw [pure_bind]
      exact idle second frame
    -- from here on every state is consumed, and the image is not refused any more
    have always : ∀ moment : World, moment.mmc = second.mmc → Consumed moment := by
      intro moment mmc
      rw [Consumed, mmc, bus.mmc]
      exact consumed
    rw [bind_assoc]
    refine Prog.settles_throughout (Prog.ensures_via (fun _ later => later.mmc = second.mmc) ?_ ?_)
    · exact (Prog.ensures_zoom_frame _ (fun later : World => later.mmc = second.mmc) fun _ => rfl).mono
        (fun later _ => always later) (fun _ _ same => same) fun _ later => always later
    · intro _ third mmc
      refine Prog.Ensures.andThen ((updateBlocks_done _ _).mono
        (fun _ _ same => always _ (same.trans mmc)) (fun _ _ after => after)
        fun _ _ same => always _ (same.trans mmc)) ?_
      intro done fourth after
      obtain ⟨mmc', success'⟩ := after
      obtain rfl : done = true := success' (Nat.lt_succ_self _)
      rw [success]
      exact (Prog.ensures_stop _).mpr (always _ (mmc'.trans mmc))

/-- The firmware settles: from the first slot operation on the boot block stays consumed. -/
theorem main_settles (fresh : world.vars = ⟨false, false, false⟩) :
    (main images env bootSlot bootTry).Settles world SlotOp Consumed := by
  by_cases asked : UpdateAsked bootTry world
  · rw [main]
    refine Prog.settles_bind startChecks_spec ?_
    intro _ _ same
    subst same
    rw [fastCheck, bind_assoc]
    refine Prog.settles_bind (reinitMmcTries_spec 10) fun _ second after => ?_
    obtain ⟨first, _⟩ := after
    rw [bind_assoc]
    refine Prog.settles_bind (readTwice_spec _ _) fun _ third after => ?_
    obtain ⟨next, buffer⟩ := after
    have same := first.trans next
    have boot : third.bus.dataBuf = world.mmc 1 := by rw [buffer, first.mmc]
    rw [bind_assoc]
    refine Prog.settles_gets.mpr ?_
    rw [bind_assoc]
    refine Prog.settles_update.mpr ?_
    rw [boot]
    split
    · rw [bind_assoc, updateFirmware, bind_assoc]
      refine Prog.settles_bind ((consumeCommand_spec (env.link.keeps_true 1) trivial trivial).mono
        ?_ (fun _ _ after => after) fun _ _ after => after) ?_
      · intro later operation after given
        obtain ⟨-, -, sent, rfl⟩ := after
        obtain ⟨o, never, -⟩ := given
        cases never
      intro _ fifth after
      obtain ⟨-, mmc, vars⟩ := after
      refine writeImage_settles _ _ ?_ rfl ?_
      · rw [Consumed, mmc, World.consumed, Function.update_self]
        exact chipResetBlock_word _
      · intro later frame
        have flags : FlagsOf env.mariko (world.mmc 1) later.vars := by
          rw [frame.vars, vars]
          simp only [same.vars, fresh, Bool.false_or]
          exact ⟨rfl, rfl⟩
        exact Prog.ensures_read (afterCheck_quiet _ flags)
    · rename_i idle
      exact absurd asked idle
  · refine Prog.settles_unwatched ((main_spec (flashInvariant_true bootSlot bootTry)
      (bootInvariant_true images env) ⟨trivial, trivial⟩ fresh).mono (fun _ _ issued slot => ?_)
      (fun _ _ after => after) fun _ _ after => after)
    exact asked (slotOp_asked issued.2 slot)

/-- So does the whole boot: configuring the LEDs is no slot operation. -/
theorem boot_settles (fresh : world.vars = ⟨false, false, false⟩) :
    (boot images env bootSlot bootTry).Settles world SlotOp Consumed := by
  refine Prog.settles_recover (main_settles fresh) fun reason later => ?_
  refine Prog.ensures_via (fun _ after => Consumed later → Consumed after)
    (Prog.ensures_runIf (fun _ => ?_) fun _ kept => kept)
    fun _ _ after => (Prog.ensures_stop _).mpr after
  refine Prog.Ensures.zoom ((clearFlag_confined i2cAt (SameOutside.refl _)).mono ?_ ?_ ?_)
  · intro flash operation after
    obtain ⟨within, -⟩ := after
    refine ⟨?_, fun kept => kept⟩
    intro after
    obtain ⟨o, same, beyond, -⟩ := after
    cases same
    exact beyond within
  · exact fun _ _ _ kept => kept
  · exact fun _ _ _ kept => kept

/-- The first block of an image is written after an erase of its sector. -/
theorem programBlock_issues {ε : Type} {flash : Memory} (data : Block) :
    (programBlock (ε := ε) (fwSlot bootSlot.other + 0 * 0x200) data).Issues flash
      fun _ operation => SlotOp (.flash operation) := by
  obtain ⟨above, -⟩ := fwSlot_other bootSlot.other
  rw [programBlock, if_pos (by rw [Nat.zero_mul, Nat.add_zero]; exact fwSlot_aligned _)]
  refine Prog.issues_left (Prog.issues_issue ⟨_, rfl, fun within => ?_, fun within => ?_⟩)
  · exact absurd within.2 (by unfold fuseOff at *; omega)
  · exact absurd within.2 (by omega)

/-- A cold boot passes the first checks. -/
theorem startChecks_cold (cold : env.watchdogCaused = false) (tested : env.failure = none) :
    (startChecks env bootTry).Ensures world (fun _ _ => True) (fun _ later => world = later)
      fun _ _ => False := by
  rw [startChecks, cold, tested]
  exact (Prog.ensures_pure _).mpr rfl

/-- On a reliable line, an image that is in range and not the running one is written to flash. -/
theorem writeImage_issues (reliable : link.Reliable cid) {startBlock sizeBlocks : UInt32}
    (some : sizeBlocks ≠ 0) (sum : startBlock + sizeBlocks ≤ 0x1FFF)
    (small : sizeBlocks ≤ 0x1C0) (low : startBlock ≤ 0x1FFF)
    (different : fwCrc world.flash bootSlot ≠ (world.mmc startBlock.toNat).word 4) :
    (writeImage link bootSlot startBlock sizeBlocks).Issues world
      fun _ operation => SlotOp operation := by
  have low' : startBlock.toNat ≤ 0x1FFF := UInt32.le_iff_toNat_le.mp low
  have image : ¬ (startBlock = 0xFFFFFFFF ∧ sizeBlocks = 0xFFFFFFFF) := by
    intro after
    obtain ⟨rfl, -⟩ := after
    exact absurd low' (by decide)
  have range : ¬ startBlock + sizeBlocks > 0x1FFF := UInt32.not_lt.mpr sum
  have each : ¬ (sizeBlocks > 0x1C0 ∨ startBlock > 0x1FFF) :=
    not_or.mpr ⟨UInt32.not_lt.mpr small, UInt32.not_lt.mpr low⟩
  rw [writeImage, if_neg image, if_neg range, if_neg each]
  cases blocks : sizeBlocks.toNat with
  | zero => exact absurd (UInt32.toNat_inj.mp blocks) some
  | succ left =>
    rw [updateBlocks]
    refine Prog.issues_right (readTwice_counts reliable _ _).ensures ?_
    intro _ second after
    obtain ⟨same, buffer, -⟩ := after
    refine Prog.issues_gets.mpr (Prog.issues_gets.mpr ?_)
    rw [if_neg (by rw [same.flash, buffer]; exact fun refused => different refused.2),
      Nat.sub_self]
    exact Prog.issues_left (Prog.issues_zoom (programBlock_issues _))

/-- On a reliable line, a cold boot writes the image that an update command names, if the command
is in range and the image is not the running one. -/
theorem boot_issues (reliable : env.link.Reliable cid) (cold : env.watchdogCaused = false)
    (tested : env.failure = none) (asked : UpdateAsked bootTry world)
    {startBlock sizeBlocks : UInt32} (start : (world.mmc 1).word 4 = startBlock)
    (size : (world.mmc 1).word 8 = sizeBlocks) (some : sizeBlocks ≠ 0)
    (sum : startBlock + sizeBlocks ≤ 0x1FFF) (small : sizeBlocks ≤ 0x1C0)
    (low : startBlock ≤ 0x1FFF) (beyond : startBlock.toNat ≠ 1)
    (different : fwCrc world.flash bootSlot ≠ (world.mmc startBlock.toNat).word 4) :
    (boot images env bootSlot bootTry).Issues world fun _ operation => SlotOp operation := by
  refine Prog.issues_recover (Prog.issues_right (startChecks_cold cold tested) ?_)
  intro _ _ same
  subst same
  refine Prog.issues_left ?_
  rw [fastCheck]
  refine Prog.issues_right (reinitMmc_counts reliable).ensures ?_
  intro _ second after
  obtain ⟨same, -⟩ := after
  refine Prog.issues_right (readTwice_counts reliable 1 _).ensures ?_
  intro _ third after
  obtain ⟨same', buffer, -⟩ := after
  have both := same.trans same'
  have boot : third.bus.dataBuf = world.mmc 1 := by rw [buffer, same.mmc]
  refine Prog.issues_gets.mpr (Prog.issues_update.mpr ?_)
  have command : (world.mmc 1).word 0 = firmwareUpdate ∧ bootTry = 0 := asked
  rw [boot, if_pos command, start, size]
  refine Prog.issues_left (Prog.issues_right (consumeCommand_counts reliable).ensures ?_)
  intro _ fourth after
  obtain ⟨flash, mmc⟩ := after
  refine writeImage_issues reliable some sum small low ?_
  rw [flash, mmc, World.consumed, Function.update_of_ne beyond]
  change fwCrc third.flash bootSlot ≠ (third.mmc startBlock.toNat).word 4
  rw [both.flash, both.mmc]
  exact different

end Settling

/-- No transfer on the boot block makes up an update command. -/
def NoForge (link : Link) : Prop := link.Keeps 1 fun content => content.word 0 ≠ firmwareUpdate

/-- A line that never fails makes up nothing. -/
theorem perfectLink_noForge (cid : Cid) : NoForge (perfectLink cid) :=
  ⟨fun _ _ _ _ stored => stored, fun _ _ _ _ sent => sent⟩

/-- The states reached by boots alone, each cut after some operations. -/
inductive Boots (images : Images) (first : Machine) : Machine → Prop where
  /-- The first state. -/
  | refl : Boots images first first
  /-- One more boot. -/
  | boot {machine : Machine} (env : Env) (performed : Nat) : Boots images first machine →
      NoForge env.link → Boots images first (machine.afterBoot images env performed)

section Runs

variable {images : Images} {env : Env} {machine : Machine}

/-- The firmware of a boot that does anything runs from the slot and with the attempt that the
bootloader left in the scratch registers. -/
theorem firmwareRun_cases (images : Images) (env : Env) (machine : Machine) :
    machine.firmwareRun images env = ⟨[], .ok (), machine.world⟩ ∨
      machine.firmwareRun images env = boot images env (machine.scratchAfter env).2
        (machine.scratchAfter env).1 machine.world := by
  unfold Machine.firmwareRun Machine.scratchAfter
  cases machine.busk env with
  | halted => exact .inl rfl
  | tried scratch0 slot start =>
    match start with
    | ⟨_, true⟩ => exact .inr rfl
    | ⟨_, false⟩ => exact .inl rfl

/-- A cold boot whose selected image is startable runs it in a first attempt. -/
theorem firmwareRun_cold (images : Images) (env : Env) (cold : env.watchdogCaused = false)
    (valid : (startupFromSlot (fuseSlot machine.flash) machine.flash).accepted = true) :
    machine.firmwareRun images env =
      boot images env (fuseSlot machine.flash) 0 machine.world := by
  have tried : machine.busk env = .tried 0 (fuseSlot machine.flash)
      ⟨(startupFromSlot (fuseSlot machine.flash) machine.flash).copied, true⟩ := by
    rw [Machine.busk, buskMain, cold, if_pos (by simp), ← valid]
  rw [Machine.firmwareRun, tried]

/-- A boot issues only what the firmware may issue. -/
theorem firmwareRun_issues (images : Images) (env : Env) (machine : Machine) :
    ∀ event ∈ (machine.firmwareRun images env).trace,
      MayIssue env.mariko (machine.scratchAfter env).2 (machine.scratchAfter env).1 machine.world
        event.1 event.2 := by
  intro event member
  rcases firmwareRun_cases images env machine with idle | run
  · rw [idle] at member
    cases member
  · rw [run] at member
    exact ((boot_spec (flashInvariant_true _ _) (bootInvariant_true images env) ⟨trivial, trivial⟩
      rfl).issued event member).2

/-- A boot without a command issues no slot operation and leaves no command, wherever it is
cut. -/
theorem boot_without_command (images : Images) (env : Env) (machine : Machine)
    (none : (machine.mmc 1).word 0 ≠ firmwareUpdate) :
    (∀ event ∈ (machine.firmwareRun images env).trace, ¬ SlotOp event.2) ∧
      (NoForge env.link → ∀ performed,
        ((machine.afterBoot images env performed).mmc 1).word 0 ≠ firmwareUpdate) := by
  refine ⟨fun event member slot => ?_, fun noForge performed => ?_⟩
  · exact none (slotOp_asked (firmwareRun_issues images env machine event member) slot).1
  have payload : (chunk (dataBct images env.mariko) 512).word 0 ≠ firmwareUpdate := by
    rw [(dataBct_boot images env.mariko).1]
    decide
  have reset : ∀ tempBuf, (chipResetBlock tempBuf).word 0 ≠ firmwareUpdate := by
    intro tempBuf
    rw [chipResetBlock_word]
    decide
  have start : BootHolds (fun _ => True) (fun content => content.word 0 ≠ firmwareUpdate)
      machine.world := ⟨trivial, none⟩
  rw [Machine.afterBoot]
  rcases firmwareRun_cases images env machine with nothing | run
  · rw [nothing]
    exact none
  · rw [run]
    exact (boot_spec (flashInvariant_true _ _) ⟨noForge, reset, payload⟩ start rfl).cutAt
      (fun _ _ issued => issued.1.2) (fun _ _ after => after.2) (fun _ _ after => after.2) performed

/-- Boots alone bring no command back. -/
theorem Boots.without_command {first : Machine} (boots : Boots images first machine)
    (none : (first.mmc 1).word 0 ≠ firmwareUpdate) :
    (machine.mmc 1).word 0 ≠ firmwareUpdate := by
  induction boots with
  | refl => exact none
  | boot env performed _ noForge ih =>
    exact (boot_without_command images env _ ih).2 noForge performed

/-- A boot that starts with the chip-reset word does not touch the saved tables. -/
theorem boot_keeps_saved (images : Images) (env : Env) (machine : Machine)
    (reset : (machine.mmc 1).word 0 = chipReset) :
    ∀ event ∈ (machine.firmwareRun images env).trace, ∀ block sent,
      event.2 = .write block sent → ¬ SavedBlock block := by
  intro event member block sent write saved
  have issued := firmwareRun_issues images env machine event member
  rw [write] at issued
  exact (issued saved).2.1 reset

end Runs

/-- Once a boot changes a slot, the command that it carries out is consumed, and it was carried out
in a first attempt. Wherever the boot is cut from then on, the next boot leaves the saved tables
alone, and no boot after it changes a slot again. -/
theorem update_at_most_once (images : Images) (machine : Machine) (env : Env) {issued : Nat}
    {state : World} {operation : BootOp}
    (read : (machine.firmwareRun images env).trace[issued]? = some (state, operation))
    (slot : SlotOp operation) :
    (state.mmc 1).word 0 = chipReset ∧ (machine.mmc 1).word 0 = firmwareUpdate ∧
      (machine.scratchAfter env).1 = 0 ∧ ∀ performed ≥ issued,
        (∀ next, ∀ event ∈ ((machine.afterBoot images env performed).firmwareRun images next).trace,
          ∀ block sent, event.2 = .write block sent → ¬ SavedBlock block) ∧
        ∀ later, Boots images (machine.afterBoot images env performed) later → ∀ next,
          ∀ event ∈ (later.firmwareRun images next).trace, ¬ SlotOp event.2 := by
  have asked : UpdateAsked (machine.scratchAfter env).1 machine.world :=
    slotOp_asked (firmwareRun_issues images env machine _ (List.mem_of_getElem? read)) slot
  have consumed : ∀ performed ≥ issued,
      ((machine.afterBoot images env performed).mmc 1).word 0 = chipReset := by
    intro performed later
    rw [Machine.afterBoot]
    rcases firmwareRun_cases images env machine with nothing | run
    · rw [nothing] at read
      cases read
    · rw [run] at read ⊢
      exact boot_settles rfl issued state operation read slot performed later
  refine ⟨?_, asked.1, asked.2,
    fun performed later => ⟨fun next => ?_, fun reached boots next => ?_⟩⟩
  · have now := consumed issued (Nat.le_refl _)
    rw [Machine.afterBoot, Run.cutAt, read] at now
    exact now
  · exact boot_keeps_saved images next _ (consumed performed later)
  · refine (boot_without_command images next reached (boots.without_command ?_)).1
    rw [consumed performed later]
    decide

/-- A boot block with an update command for one block from block 2 on. -/
def commandBlock : Block := wordsBlock [firmwareUpdate, 2, 1]

/-- A machine with this command. -/
def commandMachine : Machine :=
  { oneByteMachine with mmc := fun block => if block = 1 then commandBlock else fun _ => 0 }

/-- Its cold boot changes a slot, and all this holds. -/
theorem update_at_most_once_command : ∃ issued state operation,
    (commandMachine.firmwareRun blankImages idleEnv).trace[issued]? = some (state, operation) ∧
      SlotOp operation ∧ (state.mmc 1).word 0 = chipReset ∧
      (commandMachine.mmc 1).word 0 = firmwareUpdate ∧
      (commandMachine.scratchAfter idleEnv).1 = 0 ∧ ∀ performed ≥ issued,
        (∀ next, ∀ event ∈ ((commandMachine.afterBoot blankImages idleEnv performed).firmwareRun
            blankImages next).trace,
          ∀ block sent, event.2 = .write block sent → ¬ SavedBlock block) ∧
        ∀ later, Boots blankImages (commandMachine.afterBoot blankImages idleEnv performed) later →
          ∀ next, ∀ event ∈ (later.firmwareRun blankImages next).trace, ¬ SlotOp event.2 := by
  have command : (commandMachine.world.mmc 1).word 0 = firmwareUpdate := by decide +kernel
  have start : (commandMachine.world.mmc 1).word 4 = 2 := by decide +kernel
  have size : (commandMachine.world.mmc 1).word 8 = 1 := by decide +kernel
  have different : fwCrc commandMachine.world.flash (fuseSlot commandMachine.flash) ≠
      (commandMachine.world.mmc (2 : UInt32).toNat).word 4 := by decide +kernel
  have run := firmwareRun_cold blankImages idleEnv rfl
    (show (startupFromSlot (fuseSlot commandMachine.flash) commandMachine.flash).accepted = true
      from oneByteMachine_valid.2.1)
  have issues : (boot blankImages idleEnv (fuseSlot commandMachine.flash) 0).Issues
      commandMachine.world fun _ operation => SlotOp operation :=
    boot_issues (perfectLink_reliable _) rfl rfl ⟨command, rfl⟩ start size (by decide) (by decide)
      (by decide) (by decide) (by decide) different
  obtain ⟨⟨state, operation⟩, member, slot⟩ := issues
  rw [← run] at member
  obtain ⟨issued, read⟩ := List.mem_iff_getElem?.mp member
  exact ⟨issued, state, operation, read, slot, update_at_most_once _ _ _ read slot⟩

end Fly2040.System
