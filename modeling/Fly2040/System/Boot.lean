import Fly2040.Firmware.Main
/-!
# The chip over any sequence of boots

Flash, eMMC and the scratch registers outlive a boot. A boot runs the bootloader and, if it
starts an image, the firmware of that slot; power may be lost after any number of operations.
Between boots the host may write anything to the eMMC. The slot that the fuses select holds a
startable image in every state that can be reached.
-/

namespace Fly2040.System

open Bytes Durable Nor Firmware

/-- What outlives a boot. -/
structure Machine where
  /-- NOR flash. -/
  flash : Memory
  /-- Contents of every eMMC block. -/
  mmc : Nat → Block
  /-- Number of the boot attempt. -/
  scratch0 : UInt32
  /-- Slot of the boot attempt. -/
  scratch1 : Slot

namespace Machine

/-- The world in which the firmware starts. -/
def world (machine : Machine) : World where
  flash := machine.flash
  mmc := machine.mmc
  bus := ⟨0, fun _ => 0, fun _ => 0, fun _ => 0⟩
  vars := ⟨false, false, false⟩

/-- How the bootloader ends in a boot. -/
def busk (machine : Machine) (env : Env) : BuskEnd :=
  buskMain env.watchdogEnableCaused env.watchdogCaused machine.scratch0 machine.flash

/-- What the firmware does in a boot; it does nothing if no image is started. -/
def firmwareRun (machine : Machine) (images : Images) (env : Env) :
    Run World BootOp Stop Unit :=
  match machine.busk env with
  | .tried scratch0 slot ⟨_, true⟩ => boot images env slot scratch0 machine.world
  | _ => ⟨[], .ok (), machine.world⟩

/-- The scratch registers after the bootloader. -/
def scratchAfter (machine : Machine) (env : Env) : UInt32 × Slot :=
  match machine.busk env with
  | .tried scratch0 slot _ => (scratch0, slot)
  | .halted => (machine.scratch0, machine.scratch1)

/-- What is left of a boot in which power was lost after some operations. -/
def afterBoot (machine : Machine) (images : Images) (env : Env) (performed : Nat) : Machine :=
  let left := (machine.firmwareRun images env).cutAt performed
  let scratch := machine.scratchAfter env
  ⟨left.flash, left.mmc, scratch.1, scratch.2⟩

end Machine

/-- A boot, or new eMMC contents from the host. -/
inductive Step (images : Images) (machine : Machine) : Machine → Prop where
  /-- A boot, cut after some operations. -/
  | boot (env : Env) (performed : Nat) : Step images machine (machine.afterBoot images env performed)
  /-- The host writes the eMMC. -/
  | host (mmc : Nat → Block) : Step images machine { machine with mmc }

/-- The states reached from a first one while every image header fits its slot. -/
inductive Reachable (images : Images) (first : Machine) : Machine → Prop where
  /-- The first state. -/
  | refl : Reachable images first first
  /-- One more step. -/
  | step {machine next : Machine} : Reachable images first machine →
      (∀ slot, ImageFits machine.flash slot) → Step images machine next →
      Reachable images first next

/-- The fuse page is erased or the result of completed burns. -/
inductive Burnt : Memory → Prop where
  /-- An erased page. -/
  | erased {memory : Memory} : (∀ offset < 256, memory (fuseOff + offset) = 0xFF) → Burnt memory
  /-- One more burn. -/
  | burn {memory : Memory} : Burnt memory → Burnt ((burnFuse : FlashProg Stop Unit) memory).final
  /-- A change elsewhere. -/
  | elsewhere {memory memory' : Memory} : Burnt memory →
      (∀ offset < 256, memory' (fuseOff + offset) = memory (fuseOff + offset)) → Burnt memory'

/-- Completed burns leave a count. -/
theorem Burnt.fusePage {memory : Memory} (burnt : Burnt memory) :
    ∃ count, FusePage memory count := by
  induction burnt with
  | erased ones => exact ⟨0, Unary.holds_zero ones⟩
  | @burn memory _ ih =>
    obtain ⟨count, page⟩ := ih
    have spec : (burnFuse : FlashProg Stop Unit).Ensures memory _ _ fun _ _ => False :=
      burnFuse_spec page
    cases ended : ((burnFuse : FlashProg Stop Unit) memory).outcome with
    | ok value => exact ⟨_, (spec.returned value ended).2⟩
    | error reason => exact (spec.halted reason ended).elim
  | elsewhere _ same ih =>
    obtain ⟨count, page⟩ := ih
    exact ⟨count, Unary.Holds.congr page same⟩

/-- The slot of the fuses holds an image that the bootloader starts, and the fuse page a count. -/
def Bootable (flash : Memory) : Prop :=
  (∃ count, FusePage flash count) ∧ (startupFromSlot (fuseSlot flash) flash).accepted = true

/-- While the firmware of a slot runs, the fuses select that slot or the one they selected at first,
and neither of the two has changed. -/
structure Running (fuse slot : Slot) (first flash : Memory) : Prop where
  /-- The fuse page holds a count. -/
  page : ∃ count, FusePage flash count
  /-- The selected slot. -/
  selected : fuseSlot flash = fuse ∨ fuseSlot flash = slot
  /-- The slot selected at first is the same. -/
  fuseSame : SameSlot fuse first flash
  /-- The running slot is the same. -/
  slotSame : SameSlot slot first flash

/-- A change outside the fuse sector and the two slots keeps all this. -/
theorem Running.congr {fuse slot : Slot} {first before after : Memory}
    (running : Running fuse slot first before)
    (sector : ∀ address, fuseOff ≤ address → address < fuseOff + 0x1000 →
      after address = before address)
    (fuseKept : SameSlot fuse before after) (slotKept : SameSlot slot before after) :
    Running fuse slot first after := by
  obtain ⟨count, page⟩ := running.page
  have page' : FusePage after count := page.congr sector
  have same : fuseSlot after = fuseSlot before := Fin.ext (by rw [page.fuseSlot, page'.fuseSlot])
  refine ⟨⟨count, page'⟩, by rw [same]; exact running.selected, ?_, ?_⟩
  · exact fun address low high =>
      (fuseKept address low high).trans (running.fuseSame address low high)
  · exact fun address low high =>
      (slotKept address low high).trans (running.slotSame address low high)

/-- A slot is the same after a change elsewhere. -/
theorem sameSlot_of_outside {low high : Nat} {before after : Memory}
    (same : SameOutside low high before after) (slot : Slot)
    (apart : high ≤ fwSlot slot ∨ fwSlot slot + slotSize ≤ low) : SameSlot slot before after :=
  fun address above below => same address (by omega)

/-- The other slot lies above the fuses and apart from the running one. -/
theorem fwSlot_other (slot : Slot) : fuseOff + 0x1000 ≤ fwSlot slot ∧
    (fwSlot slot.other + slotSize ≤ fwSlot slot ∨ fwSlot slot + slotSize ≤ fwSlot slot.other) := by
  revert slot
  decide

/-- The firmware keeps all this, because it updates the other slot only when it runs from the
selected one, and a burn turns the selection to the running slot. -/
theorem running_invariant {fuse slot : Slot} {bootTry : UInt32} (first : Memory)
    (attempt : bootTry = 0 → slot = fuse) :
    FlashInvariant slot bootTry (Running fuse slot first) := by
  refine ⟨fun before after same running => ?_, fun zero before after same running => ?_,
    fun before running other => ?_⟩
  · exact running.congr (fun address low _ => same address (.inr low))
      (sameSlot_of_outside same fuse (.inl (Nat.le_of_add_right_le (fwSlot_other fuse).1)))
      (sameSlot_of_outside same slot (.inl (Nat.le_of_add_right_le (fwSlot_other slot).1)))
  · obtain rfl := attempt zero
    obtain ⟨above, apart⟩ := fwSlot_other slot
    have above' := (fwSlot_other slot.other).1
    exact running.congr (fun address _ high => same address (.inl (by omega)))
      (sameSlot_of_outside same slot apart) (sameSlot_of_outside same slot apart)
  · obtain ⟨count, page⟩ := running.page
    have sector : ∀ flash, SameOutside fuseOff (fuseOff + 0x1000) before flash →
        SameSlot fuse first flash ∧ SameSlot slot first flash := by
      intro flash same
      have fuseKept := sameSlot_of_outside same fuse (.inl (fwSlot_other fuse).1)
      have slotKept := sameSlot_of_outside same slot (.inl (fwSlot_other slot).1)
      exact ⟨fun address low high =>
          (fuseKept address low high).trans (running.fuseSame address low high),
        fun address low high =>
          (slotKept address low high).trans (running.slotSame address low high)⟩
    refine (burnFuse_spec page).mono ?_ ?_ fun _ _ (never : False) => never.elim
    · intro flash _ after
      obtain ⟨-, same, between, page', parity⟩ := after
      have selected : fuseSlot flash = fuseSlot before :=
        Fin.ext (by rw [page.fuseSlot, page'.fuseSlot, parity])
      exact ⟨⟨between, page'⟩, by rw [selected]; exact running.selected, (sector flash same).1,
        (sector flash same).2⟩
    · intro _ flash after
      obtain ⟨same, page'⟩ := after
      refine ⟨⟨_, page'⟩, .inr (Fin.ext ?_), (sector flash same).1, (sector flash same).2⟩
      -- two slots: the burn leaves the one that is not the running one
      have different : (fuseSlot before).val ≠ slot.val := fun same => other (Fin.ext same)
      rw [page.fuseSlot] at different
      rw [page'.fuseSlot, burntCount_parity]
      omega

/-- The bootloader tries the slot it names, and that is the selected one in a first attempt. -/
theorem busk_tried {machine : Machine} {env : Env} {scratch0 : UInt32} {slot : Slot}
    {start : Start} (tried : machine.busk env = .tried scratch0 slot start) :
    start = startupFromSlot slot machine.flash ∧
      (scratch0 = 0 → slot = fuseSlot machine.flash) := by
  unfold Machine.busk buskMain at tried
  split at tried
  · cases tried
    exact ⟨rfl, fun _ => rfl⟩
  · split at tried
    · cases tried
    · cases tried
      exact ⟨rfl, retrySlot_zero _⟩

/-- Every boot from a bootable state whose images fit leaves a bootable state, wherever it is
cut. -/
theorem afterBoot_bootable {machine : Machine} (images : Images) (env : Env) (performed : Nat)
    (fits : ∀ slot, ImageFits machine.flash slot) (bootable : Bootable machine.flash) :
    Bootable (machine.afterBoot images env performed).flash := by
  change Bootable ((machine.firmwareRun images env).cutAt performed).flash
  unfold Machine.firmwareRun
  split
  · rename_i scratch0 slot copied tried
    obtain ⟨start, attempt⟩ := busk_tried tried
    obtain ⟨page, accepted⟩ := bootable
    have running : BootHolds (Running (fuseSlot machine.flash) slot machine.flash) (fun _ => True)
        machine.world := ⟨⟨page, .inl rfl, fun _ _ _ => rfl, fun _ _ _ => rfl⟩, trivial⟩
    have block : BootInvariant images env fun _ => True :=
      ⟨env.link.keeps_true 1, fun _ => trivial, trivial⟩
    have kept := (boot_spec (running_invariant machine.flash attempt) block running rfl).cutAt
      (fun _ _ issued => issued.1) (fun _ _ after => after) (fun _ _ after => after) performed
    refine ⟨kept.1.page, ?_⟩
    rcases kept.1.selected with same | same
    · rw [same, startupFromSlot_congr (fits _) kept.1.fuseSame]
      exact accepted
    · rw [same, startupFromSlot_congr (fits _) kept.1.slotSame, ← start]
  · exact bootable

/-- Whatever happens in boots and between them, the slot selected by the fuses holds a startable
image, and every cold boot starts it at its first attempt. -/
theorem selected_slot_valid (images : Images) {first machine : Machine}
    (burnt : Burnt first.flash)
    (valid : (startupFromSlot (fuseSlot first.flash) first.flash).accepted = true)
    (reached : Reachable images first machine) :
    (startupFromSlot (fuseSlot machine.flash) machine.flash).accepted = true ∧
      ∀ watchdogEnableCaused watchdogCaused,
        (watchdogEnableCaused && watchdogCaused) = false → ∃ start, start.accepted = true ∧
          buskMain watchdogEnableCaused watchdogCaused machine.scratch0 machine.flash =
            .tried 0 (fuseSlot machine.flash) start := by
  have bootable : Bootable machine.flash := by
    induction reached with
    | refl => exact ⟨burnt.fusePage, valid⟩
    | step _ fits step ih =>
      cases step with
      | boot env performed => exact afterBoot_bootable images env performed fits ih
      | host mmc => exact ih
  refine ⟨bootable.2, fun enabled caused cold => ⟨_, bootable.2, ?_⟩⟩
  rw [buskMain, if_pos (by rw [← Bool.not_and, cold]; rfl)]

/-- Flash with erased fuses and an image of one zero byte in slot 0. -/
def oneByteFlash : Memory := fun address =>
  if address < 0x10000 then 0xFF
  else if address < 0x10004 then byte32 1 (address - 0x10000)
  else if address < 0x10008 then byte32 (crc32 [0]) (address - 0x10004)
  else 0

/-- A machine with this flash. -/
def oneByteMachine : Machine := ⟨oneByteFlash, fun _ _ => 0, 0, ⟨0, Nat.zero_lt_two⟩⟩

/-- The fuses of this machine are erased, its image is startable, and no header is too large. -/
theorem oneByteMachine_valid : Burnt oneByteMachine.flash ∧
    (startupFromSlot (fuseSlot oneByteMachine.flash) oneByteMachine.flash).accepted = true ∧
    ∀ slot, ImageFits oneByteMachine.flash slot := by
  refine ⟨.erased fun offset inside => if_pos (by unfold fuseOff; omega), ?_, fun slot => ?_⟩
  · decide +kernel
  · match slot with
    | 0 => decide +kernel
    | 1 => decide +kernel

/-- A cold boot whose searches find nothing. -/
def idleEnv : Env := coldEnv fun _ _ => .ok none

/-- The machine after a cold boot on an eMMC that answers every transfer, cut after three
operations. -/
def oneByteLater : Machine := oneByteMachine.afterBoot blankImages idleEnv 3

/-- The selected slot is valid in that state. -/
theorem selected_slot_valid_cold :
    (startupFromSlot (fuseSlot oneByteLater.flash) oneByteLater.flash).accepted = true ∧
      ∀ watchdogEnableCaused watchdogCaused,
        (watchdogEnableCaused && watchdogCaused) = false → ∃ start, start.accepted = true ∧
          buskMain watchdogEnableCaused watchdogCaused oneByteLater.scratch0 oneByteLater.flash =
            .tried 0 (fuseSlot oneByteLater.flash) start := by
  obtain ⟨burnt, accepted, fits⟩ := oneByteMachine_valid
  have reached : Reachable blankImages oneByteMachine oneByteLater :=
    .step .refl fits (.boot _ 3)
  exact selected_slot_valid blankImages burnt accepted reached

end Fly2040.System
