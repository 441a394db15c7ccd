import Fly2040.Firmware.Prepare
import Fly2040.System.Attempts
import Fly2040.System.Command
/-!
# Installing an update

The build script makes a file of a firmware, and the host lays it on the eMMC behind a command. The
firmware that runs consumes the command, writes the file to the other slot and resets the chip, and
the bootloader starts the new firmware in its next attempt. Wherever that is cut short, both images
are still there, so the next boot from power on starts one of the two.
-/

namespace Fly2040.System

open Bytes Durable Nor Firmware

section Returning

variable {link : Link} {cid : Cid} {bootSlot : Slot} {world : World}

/-- Writing a block to flash returns. -/
theorem programBlock_returns {ε : Type} {stopped : ε → Memory → Prop} (offset : Nat) (data : Block)
    (flash : Memory) : (programBlock (ε := ε) offset data).Ensures flash (fun _ _ => True)
      (fun _ _ => True) stopped := by
  unfold programBlock
  split
  · refine Prog.ensures_bind ((Prog.ensures_issue _ _).mpr ⟨trivial, ?_⟩)
    exact (Prog.ensures_issue _ _).mpr ⟨trivial, trivial⟩
  · exact (Prog.ensures_issue _ _).mpr ⟨trivial, trivial⟩

/-- On a reliable line, writing an image that is not the running one returns with success. -/
theorem updateBlocks_returns (reliable : link.Reliable cid) {start : Nat} (left : Nat) {block : Nat}
    (inside : start ≤ block)
    (different : block = start → fwCrc world.flash bootSlot ≠ (world.mmc start).word 4) :
    (updateBlocks link bootSlot start left block).Ensures world (fun _ _ => True)
      (fun done _ => done = true) fun _ _ => False := by
  induction left generalizing world block with
  | zero => exact (Prog.ensures_pure _).mpr rfl
  | succ left ih =>
    rw [updateBlocks]
    apply Prog.Ensures.andThen (readTwice_counts reliable _ _).ensures
    intro _ later after
    obtain ⟨same, buffer, _⟩ := after
    apply Prog.ensures_read
    apply Prog.ensures_read
    split
    · rename_i refused
      refine absurd refused.2 ?_
      rw [same.flash, buffer, refused.1]
      exact different refused.1
    · apply Prog.ensures_via (fun _ _ => True) (Prog.Ensures.zoom (programBlock_returns _ _ _))
      intro _ last _
      exact ih (by omega) fun never => absurd never (by omega)

/-- What an update has done: only the other slot of flash has changed, and it begins with the
blocks of the image. -/
structure Installed (slot : Slot) (start size : Nat) (before after : World) : Prop where
  /-- The rest of flash. -/
  flash : SameOutside (fwSlot slot.other) (fwSlot slot.other + slotSize) before.flash after.flash
  /-- The image. -/
  image : ∀ index < size * 512, after.flash (fwSlot slot.other + index) =
    blockBytes before.mmc start index

/-- A command that names an image in the command area which fits a slot. -/
structure InRange (startBlock sizeBlocks : UInt32) : Prop where
  /-- It does not lie on the command. -/
  behind : 2 ≤ startBlock.toNat
  /-- It lies in the area. -/
  inside : startBlock.toNat + sizeBlocks.toNat ≤ 0x1FFF
  /-- It fits. -/
  fits : sizeBlocks.toNat ≤ 0x1C0

variable {startBlock sizeBlocks : UInt32}

/-- On a reliable line, an image in range that is not the running one is written. -/
theorem writeImage_returns (reliable : link.Reliable cid) (range : InRange startBlock sizeBlocks)
    (different : fwCrc world.flash bootSlot ≠ (world.mmc startBlock.toNat).word 4) :
    (writeImage link bootSlot startBlock sizeBlocks).Ensures world (fun _ _ => True)
      (fun done later => done = true ∧
        Installed bootSlot startBlock.toNat sizeBlocks.toNat world later) fun _ _ => False := by
  obtain ⟨_, inside, fits⟩ := range
  have image : ¬(startBlock = 0xFFFFFFFF ∧ sizeBlocks = 0xFFFFFFFF) := by
    intro both
    rw [both.1, show (0xFFFFFFFF : UInt32).toNat = 0xFFFFFFFF from rfl] at inside
    omega
  have sum : ¬startBlock + sizeBlocks > 0x1FFF := by
    rw [gt_iff_lt, UInt32.lt_iff_toNat_lt, UInt32.toNat_add]
    show ¬0x1FFF < _
    omega
  have each : ¬(sizeBlocks > 0x1C0 ∨ startBlock > 0x1FFF) := by
    rw [gt_iff_lt, gt_iff_lt, UInt32.lt_iff_toNat_lt, UInt32.lt_iff_toNat_lt]
    show ¬(0x1C0 < _ ∨ 0x1FFF < _)
    omega
  have returns : (writeImage link bootSlot startBlock sizeBlocks).Ensures world (fun _ _ => True)
      (fun done _ => done = true) fun _ _ => False := by
    rw [writeImage, if_neg image, if_neg sum, if_neg each]
    exact updateBlocks_returns reliable _ (Nat.le_refl _) fun _ => different
  refine (returns.both (writeImage_spec startBlock sizeBlocks)).mono (fun _ _ _ => trivial) ?_
    fun _ _ never => never.1
  intro done later after
  obtain ⟨success, only, written⟩ := after
  refine ⟨success, only.flash, ?_⟩
  rw [← only.mmc]
  exact written success image

/-- On a reliable line, so is one that a command names, and the command is consumed. -/
theorem updateFirmware_returns (reliable : link.Reliable cid)
    (range : InRange startBlock sizeBlocks)
    (different : fwCrc world.flash bootSlot ≠ (world.mmc startBlock.toNat).word 4) :
    (updateFirmware link bootSlot startBlock sizeBlocks).Ensures world (fun _ _ => True)
      (fun done later => done = true ∧
        Installed bootSlot startBlock.toNat sizeBlocks.toNat world later) fun _ _ => False := by
  have elsewhere {block : Nat} (behind : 2 ≤ block) : world.consumed block = world.mmc block :=
    Function.update_of_ne (by omega) _ _
  rw [updateFirmware]
  apply Prog.Ensures.andThen ((consumeCommand_counts reliable).ensures)
  intro _ second after
  obtain ⟨flash, mmc⟩ := after
  apply (writeImage_returns reliable range ?_).weaken
  · intro done later after
    obtain ⟨success, installed⟩ := after
    refine ⟨success, flash ▸ installed.flash, fun index below => ?_⟩
    rw [installed.image index below, mmc, blockBytes, blockBytes,
      elsewhere (range.behind.trans (Nat.le_add_right _ _))]
  · rw [flash, mmc, elsewhere range.behind]
    exact different

variable {images : Images} {env : Env}

/-- On a reliable line, a boot from power on that finds such a command installs the image and resets
the chip. -/
theorem boot_installs (reliable : env.link.Reliable cid) (cold : env.watchdogCaused = false)
    (tested : env.failure = none) (command : (world.mmc 1).word 0 = firmwareUpdate)
    (start : (world.mmc 1).word 4 = startBlock) (size : (world.mmc 1).word 8 = sizeBlocks)
    (range : InRange startBlock sizeBlocks)
    (different : fwCrc world.flash bootSlot ≠ (world.mmc startBlock.toNat).word 4) :
    (boot images env bootSlot 0).Ensures world (fun _ _ => True) (fun _ _ => False)
      fun reason later => reason = .reboot ∧
        Installed bootSlot startBlock.toNat sizeBlocks.toNat world later := by
  have checked : (main images env bootSlot 0).Ensures world (fun _ _ => True) (fun _ _ => False)
      fun reason later => reason = .reboot ∧
        Installed bootSlot startBlock.toNat sizeBlocks.toNat world later := by
    rw [main]
    apply Prog.Ensures.andThen
      ((startChecks_cold cold tested).weakenStop fun _ _ never => never.elim)
    intro _ _ same
    subst same
    apply Prog.ensures_bind
    rw [fastCheck]
    apply Prog.Ensures.andThen
      ((reinitMmc_counts reliable).ensures.weakenStop fun _ _ never => never.elim)
    intro _ second after
    obtain ⟨same, _⟩ := after
    apply Prog.Ensures.andThen
      ((readTwice_counts reliable 1 _).ensures.weakenStop fun _ _ never => never.elim)
    intro _ third after
    obtain ⟨same', buffer, _⟩ := after
    have both := same.trans same'
    have block : third.bus.dataBuf = world.mmc 1 := by rw [buffer, same.mmc]
    apply Prog.ensures_read
    apply Prog.ensures_change
    rw [block, if_pos ⟨command, rfl⟩, start, size]
    refine Prog.Ensures.andThen ((updateFirmware_returns reliable range ?_).weakenStop
      fun _ _ never => never.elim) ?_
    · change fwCrc third.flash bootSlot ≠ (third.mmc startBlock.toNat).word 4
      rw [both.flash, both.mmc]
      exact different
    · intro done later after
      obtain ⟨success, flash, image⟩ := after
      rw [success]
      refine (Prog.ensures_stop _).mpr ⟨rfl, both.flash ▸ flash, fun index below => ?_⟩
      rw [image index below]
      show blockBytes third.mmc _ _ = _
      rw [both.mmc]
  refine Prog.ensures_recover checked fun reason later after => ?_
  obtain ⟨reset, installed⟩ := after
  rw [reset]
  apply Prog.ensures_bind
  apply Prog.ensures_runIf
  · intro never
    rw [Bool.and_eq_true] at never
    exact absurd never.2 (by decide)
  · exact fun _ => (Prog.ensures_stop _).mpr ⟨rfl, installed⟩

end Returning

section Machines

variable {machine : Machine} {images : Images} {env : Env}

/-- A boot keeps the slot of the fuses and the one that it runs from, and the fuses select one of
the two, wherever it is cut. -/
theorem afterBoot_running (page : ∃ count, FusePage machine.flash count) {scratch0 : UInt32}
    {slot : Slot} {start : Start} (tried : machine.busk env = .tried scratch0 slot start)
    (performed : Nat) : Running (fuseSlot machine.flash) slot machine.flash
      (machine.afterBoot images env performed).flash := by
  have running : Running (fuseSlot machine.flash) slot machine.flash machine.flash :=
    ⟨page, .inl rfl, fun _ _ _ => rfl, fun _ _ _ => rfl⟩
  have ⟨_, attempt⟩ := busk_tried tried
  cases accepted : start.accepted with
  | false =>
    rw [afterBoot_refused performed tried accepted]
    exact running
  | true =>
    have run : machine.firmwareRun images env = boot images env slot scratch0 machine.world := by
      obtain ⟨copied, _⟩ := start
      have same : _ = true := accepted
      subst same
      rw [Machine.firmwareRun, tried]
    show Running _ _ _ ((machine.firmwareRun images env).cutAt performed).flash
    rw [run]
    have holds : BootHolds (Running (fuseSlot machine.flash) slot machine.flash) (fun _ => True)
        machine.world := ⟨running, trivial⟩
    exact ((boot_spec (running_invariant machine.flash attempt) (bootInvariant_true images env)
      holds rfl).cutAt (fun _ _ issued => issued.1) (fun _ _ after => after)
      (fun _ _ after => after) performed).1

/-- An image that is started and not too long fits its slot. -/
theorem imageFits_of_started {memory : Memory} {slot : Slot} {usk : List UInt8}
    (started : startupFromSlot slot memory = ⟨usk, true⟩) (fits : usk.length ≤ 0x37FF8) :
    ImageFits memory slot := by
  intro _
  rw [startupFromSlot] at started
  split at started
  · cases started
  · have copied : fwData memory slot = usk := congrArg Start.copied started
    rw [← copied, fwData, readBytes_length] at fits
    exact UInt32.le_iff_toNat_le.mpr fits

/-- What the host has laid on the eMMC for an update with a file. -/
structure Offered (machine : Machine) (file : List UInt8) (startBlock sizeBlocks : UInt32) : Prop
    where
  /-- The command. -/
  command : (machine.mmc 1).word 0 = firmwareUpdate
  /-- Where the file begins. -/
  start : (machine.mmc 1).word 4 = startBlock
  /-- Its blocks. -/
  size : (machine.mmc 1).word 8 = sizeBlocks
  /-- The blocks are in range. -/
  range : InRange startBlock sizeBlocks
  /-- The file is not longer than they are. -/
  fits : file.length ≤ sizeBlocks.toNat * 512
  /-- They begin with the file. -/
  stored : ∀ index < file.length, blockBytes machine.mmc startBlock.toNat index = file.getD index 0

/-- A file of the build script that a host offers to a chip, whose line to the eMMC is reliable and
which runs another image, is installed by the boot from power on, and the boot that the chip then
makes by its watchdog starts the new firmware. Wherever that one is cut, and whatever it does, the
old and the new image are both there, and the fuses select one of the two slots. -/
theorem update_installed (images : Images) {busk usk : List UInt8} {prepared : Prepared}
    (small : busk.length ≤ 0x8000) (nonempty : 0 < usk.length) (fits : usk.length ≤ 0x37FF8)
    (built : prepare busk usk = some prepared) {cid : Cid} (reliable : env.link.Reliable cid)
    (cold : env.watchdogCaused = false) (tested : env.failure = none)
    (bootable : Bootable machine.flash) (old : ImageFits machine.flash (fuseSlot machine.flash))
    {startBlock sizeBlocks : UInt32}
    (offered : Offered machine prepared.updateBin startBlock sizeBlocks)
    (different : fwCrc machine.flash (fuseSlot machine.flash) ≠
      (machine.mmc startBlock.toNat).word 4) {performed : Nat}
    (whole : (machine.firmwareRun images env).trace.length ≤ performed) (warm : WarmBoot) :
    let slot := fuseSlot machine.flash
    let updated := machine.afterBoot images env performed
    let next := updated.afterBoot images warm.env warm.performed
    updated.busk warm.env = .tried 1 slot.other ⟨usk, true⟩ ∧
      startupFromSlot slot.other next.flash = ⟨usk, true⟩ ∧
      startupFromSlot slot next.flash = startupFromSlot slot machine.flash ∧
      (fuseSlot next.flash = slot ∨ fuseSlot next.flash = slot.other) := by
  intro slot updated next
  have ⟨⟨count, page⟩, valid⟩ := bootable
  have file : prepared.updateBin = updateHeader usk ++ usk := by
    have ⟨_, run, _⟩ := @prepare_spec busk usk small fits
    rw [built] at run
    cases run
    rfl
  have ⟨above, apart⟩ := fwSlot_other slot
  have ⟨above', _⟩ := fwSlot_other slot.other
  -- the boot from power on
  have installs : (boot images env slot 0).Ensures machine.world _ _ _ :=
    boot_installs reliable cold tested offered.command offered.start offered.size offered.range
      different
  have installed : Installed slot startBlock.toNat sizeBlocks.toNat machine.world
      (boot images env slot 0 machine.world).final :=
    (installs.mono (fun _ _ after => after) (fun _ _ never => never.elim)
      fun _ _ after => after.2).atEnd
  have flash : updated.flash = (boot images env slot 0 machine.world).final.flash := by
    show ((machine.firmwareRun images env).cutAt performed).flash = _
    rw [Run.cutAt, List.getElem?_eq_none whole, firmwareRun_cold images env cold valid]
  have outside : SameOutside (fwSlot slot.other) (fwSlot slot.other + slotSize) machine.flash
      updated.flash := flash ▸ installed.flash
  have page' : FusePage updated.flash count :=
    page.congr fun address _ high => outside address (.inl (by omega))
  have selected : fuseSlot updated.flash = slot :=
    Fin.ext (by rw [page.fuseSlot, page'.fuseSlot])
  have started : startupFromSlot slot.other updated.flash = ⟨usk, true⟩ := by
    apply startupFromSlot_of_update nonempty fits
    rw [← file]
    intro index inside
    rw [flash, installed.image index (Nat.lt_of_lt_of_le inside offered.fits)]
    exact offered.stored index inside
  -- the boot that the watchdog makes
  have counted : updated.scratch0 = UInt32.ofNat 0 := by
    show (machine.scratchAfter env).1 = _
    rw [Machine.scratchAfter, busk_cold (by rw [cold, Bool.and_false])]
    rfl
  have turn : attemptSlot updated.flash 1 = slot.other := by
    rw [attemptSlot, if_neg (by decide), selected]
  have tried : updated.busk warm.env = .tried 1 slot.other ⟨usk, true⟩ := by
    rw [busk_warm warm (by decide) counted, if_pos (by decide), turn, started]
    rfl
  have running :=
    @afterBoot_running updated images warm.env ⟨count, page'⟩ _ _ _ tried warm.performed
  rw [selected] at running
  refine ⟨tried, ?_, ?_, running.selected⟩
  · rw [startupFromSlot_congr (imageFits_of_started started fits) running.slotSame, started]
  · apply startupFromSlot_congr old
    exact fun address low high => (running.fuseSame address low high).trans
      (sameSlot_of_outside outside slot apart address low high)

/-- The file of a firmware of one byte. -/
def byteFile : List UInt8 := updateHeader [2] ++ [2]

/-- A machine to which it is offered. -/
def offeredMachine : Machine :=
  { oneByteMachine with mmc := fun block => if block = 1 then commandBlock
      else if block = 2 then fun index => byteFile.getD index 0 else fun _ => 0 }

/-- It is offered. -/
theorem offered_byteFile : Offered offeredMachine byteFile 2 1 where
  command := by decide +kernel
  start := by decide +kernel
  size := by decide +kernel
  range := ⟨by decide, by decide, by decide⟩
  fits := by decide
  stored := by
    intro index inside
    have few : index < 512 := Nat.lt_of_lt_of_le inside (by decide)
    rw [blockBytes, Nat.div_eq_of_lt few]
    show byteFile.getD (index % 512) 0 = _
    rw [Nat.mod_eq_of_lt few]

/-- The firmware of one byte is installed. -/
theorem byte_installed :
    let slot := fuseSlot offeredMachine.flash
    let updated := offeredMachine.afterBoot blankImages idleEnv
      (offeredMachine.firmwareRun blankImages idleEnv).trace.length
    let next := updated.afterBoot blankImages aloneReset.env aloneReset.performed
    updated.busk aloneReset.env = .tried 1 slot.other ⟨[2], true⟩ ∧
      startupFromSlot slot.other next.flash = ⟨[2], true⟩ ∧
      startupFromSlot slot next.flash = startupFromSlot slot offeredMachine.flash ∧
      (fuseSlot next.flash = slot ∨ fuseSlot next.flash = slot.other) := by
  have ⟨file, built, _⟩ := @prepare_spec [1] [2] (by decide) (by decide)
  have ⟨burnt, valid, fits⟩ := oneByteMachine_valid
  have bootable : Bootable offeredMachine.flash := ⟨burnt.fusePage, valid⟩
  have old : ImageFits offeredMachine.flash (fuseSlot offeredMachine.flash) := fits _
  have different : fwCrc offeredMachine.flash (fuseSlot offeredMachine.flash) ≠
      (offeredMachine.mmc (2 : UInt32).toNat).word 4 := by decide +kernel
  exact @update_installed offeredMachine idleEnv blankImages [1] [2] _ (by decide) (by decide)
    (by decide) built _ (perfectLink_reliable _) rfl rfl bootable old 2 1 offered_byteFile different
    _ (Nat.le_refl _) aloneReset

end Machines

end Fly2040.System
