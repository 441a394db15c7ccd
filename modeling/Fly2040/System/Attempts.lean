import Fly2040.System.Boot
/-!
# The attempts of a boot

A firmware that does not start, or that hangs, lets the watchdog reset the chip. The bootloader
counts these resets in a register that outlives them, and tries the two slots in turn; after four
attempts it gives up until the power is switched off. What the firmwares that it starts do to the
flash in the meantime, a fuse that is burnt included, does not disturb the count.
-/

namespace Fly2040.System

open Bytes Durable Nor Firmware

/-- A boot that the watchdog has caused, and what the host writes behind it. -/
structure WarmBoot where
  /-- The surroundings. -/
  env : Env
  /-- The watchdog has been enabled. -/
  enabled : env.watchdogEnableCaused = true
  /-- It has caused the boot. -/
  caused : env.watchdogCaused = true
  /-- Operations that are performed until the next reset. -/
  performed : Nat
  /-- The eMMC behind the boot. -/
  host : (Nat → Block) → Nat → Block

/-- Boots that the watchdog has caused, one after the other. -/
def Machine.warmBoots (machine : Machine) (images : Images) (boots : List WarmBoot) : Machine :=
  boots.foldl (fun machine boot =>
    let left := machine.afterBoot images boot.env boot.performed
    { left with mmc := boot.host left.mmc }) machine

/-- The slot of an attempt: that of the fuses and the other one in turn. -/
def attemptSlot (memory : Memory) (attempt : Nat) : Slot :=
  if attempt % 2 = 0 then fuseSlot memory else (fuseSlot memory).other

/-- The bootloader takes the slots in turn. -/
theorem retrySlot_turn (bootSlot : Slot) {attempt : Nat} (few : attempt < 3) :
    retrySlot bootSlot (UInt32.ofNat attempt) =
      if (attempt + 1) % 2 = 0 then bootSlot else bootSlot.other := by
  revert bootSlot
  interval_cases attempt <;> decide

section Boots

variable {machine : Machine} {images : Images} {env : Env}

/-- A first boot tries the slot of the fuses. -/
theorem busk_cold (cold : (env.watchdogEnableCaused && env.watchdogCaused) = false) :
    machine.busk env =
      .tried 0 (attemptSlot machine.flash 0)
        (startupFromSlot (attemptSlot machine.flash 0) machine.flash) := by
  have first : (!env.watchdogEnableCaused || !env.watchdogCaused) = true := by
    rw [← Bool.not_and, cold]
    rfl
  rw [Machine.busk, buskMain, if_pos first]
  rfl

/-- A boot that the watchdog has caused makes the next attempt, or none. -/
theorem busk_warm (boot : WarmBoot) {attempt : Nat} (few : attempt ≤ 3)
    (counted : machine.scratch0 = UInt32.ofNat attempt) :
    machine.busk boot.env =
      if attempt < 3 then
        .tried (UInt32.ofNat (attempt + 1)) (attemptSlot machine.flash (attempt + 1))
          (startupFromSlot (attemptSlot machine.flash (attempt + 1)) machine.flash)
      else .halted := by
  have later : ¬(!boot.env.watchdogEnableCaused || !boot.env.watchdogCaused) = true := by
    rw [boot.enabled, boot.caused]
    decide
  rw [Machine.busk, buskMain, if_neg later, counted]
  by_cases more : attempt < 3
  · have open' : ¬UInt32.ofNat attempt = 3 := by
      interval_cases attempt <;> decide
    have next : UInt32.ofNat attempt + 1 = UInt32.ofNat (attempt + 1) := by
      interval_cases attempt <;> decide
    rw [if_neg open', if_pos more, retrySlot_turn _ more, next]
    rfl
  · have last : attempt = 3 := by omega
    rw [last, if_pos (by decide), if_neg (by decide)]

/-- The count behind a boot that the watchdog has caused. -/
theorem scratch_warm (boot : WarmBoot) {attempt : Nat} (few : attempt ≤ 3)
    (counted : machine.scratch0 = UInt32.ofNat attempt) :
    (machine.afterBoot images boot.env boot.performed).scratch0 =
      UInt32.ofNat (min (attempt + 1) 3) := by
  show (machine.scratchAfter boot.env).1 = _
  rw [Machine.scratchAfter, busk_warm boot few counted]
  by_cases more : attempt < 3
  · rw [if_pos more, Nat.min_eq_left more]
  · have last : attempt = 3 := by omega
    rw [if_neg more, last]
    exact counted.trans (by rw [last]; rfl)

/-- The count behind a first boot and some that the watchdog has caused. -/
theorem scratch_warmBoots {attempt : Nat} (few : attempt ≤ 3)
    (counted : machine.scratch0 = UInt32.ofNat attempt) (boots : List WarmBoot) :
    (machine.warmBoots images boots).scratch0 = UInt32.ofNat (min (attempt + boots.length) 3) := by
  induction boots generalizing machine attempt with
  | nil =>
    rw [List.length_nil, Nat.add_zero, Nat.min_eq_left few]
    exact counted
  | cons boot boots ih =>
    let left := machine.afterBoot images boot.env boot.performed
    have next : ({ left with mmc := boot.host left.mmc } : Machine).scratch0 =
        UInt32.ofNat (min (attempt + 1) 3) :=
      @scratch_warm machine images boot attempt few counted
    have rest := @ih { left with mmc := boot.host left.mmc } _ (Nat.min_le_right _ _) next
    have same : min (min (attempt + 1) 3 + boots.length) 3 =
        min (attempt + (boot :: boots).length) 3 := by
      rw [List.length_cons]
      omega
    rw [← same]
    exact rest

/-- A chip that has halted leaves everything as it is. -/
theorem afterBoot_halted (performed : Nat) (halted : machine.busk env = .halted) :
    machine.afterBoot images env performed = machine := by
  have nothing : machine.firmwareRun images env = ⟨[], .ok (), machine.world⟩ := by
    rw [Machine.firmwareRun, halted]
  have scratch : machine.scratchAfter env = (machine.scratch0, machine.scratch1) := by
    rw [Machine.scratchAfter, halted]
  rw [Machine.afterBoot, nothing, scratch]
  cases performed <;> rfl

/-- A boot that starts no image leaves flash and eMMC as they are. -/
theorem afterBoot_refused (performed : Nat) {scratch0 : UInt32} {slot : Slot} {start : Start}
    (tried : machine.busk env = .tried scratch0 slot start) (refused : start.accepted = false) :
    machine.afterBoot images env performed =
      { machine with scratch0 := scratch0, scratch1 := slot } := by
  obtain ⟨copied, accepted⟩ := start
  have same : accepted = false := refused
  subst same
  have nothing : machine.firmwareRun images env = ⟨[], .ok (), machine.world⟩ := by
    rw [Machine.firmwareRun, tried]
  have scratch : machine.scratchAfter env = (scratch0, slot) := by
    rw [Machine.scratchAfter, tried]
  rw [Machine.afterBoot, nothing, scratch]
  cases performed <;> rfl

end Boots

/-- From when the power is switched on, the chip makes four attempts at most: the first one with the
slot of the fuses, and each time the watchdog resets it, one with the slot whose turn it is then,
whatever the firmwares before have done to the flash and the host to the eMMC. If the first image is
refused, the other one is tried next, with nothing changed. After four attempts the chip halts, and
changes nothing more. -/
theorem attempts_in_turn (machine : Machine) (images : Images) (env : Env) (performed : Nat)
    (cold : (env.watchdogEnableCaused && env.watchdogCaused) = false) (boots : List WarmBoot)
    (boot : WarmBoot) :
    let first := machine.afterBoot images env performed
    let now := first.warmBoots images boots
    machine.busk env = .tried 0 (fuseSlot machine.flash)
        (startupFromSlot (fuseSlot machine.flash) machine.flash) ∧
      ((startupFromSlot (fuseSlot machine.flash) machine.flash).accepted = false →
        first.busk boot.env = .tried 1 (fuseSlot machine.flash).other
          (startupFromSlot (fuseSlot machine.flash).other machine.flash)) ∧
      (boots.length < 3 → now.busk boot.env =
        .tried (UInt32.ofNat (boots.length + 1)) (attemptSlot now.flash (boots.length + 1))
          (startupFromSlot (attemptSlot now.flash (boots.length + 1)) now.flash)) ∧
      (3 ≤ boots.length → now.busk boot.env = .halted ∧
        now.afterBoot images boot.env boot.performed = now) := by
  intro first now
  have started := @busk_cold machine env cold
  have counted : first.scratch0 = UInt32.ofNat 0 := by
    show (machine.scratchAfter env).1 = _
    rw [Machine.scratchAfter, started]
    rfl
  have counted' : now.scratch0 = UInt32.ofNat (min boots.length 3) := by
    have count := @scratch_warmBoots first images 0 (by decide) counted boots
    rw [Nat.zero_add] at count
    exact count
  have next := busk_warm boot (Nat.min_le_right boots.length 3) counted'
  refine ⟨started, ?_, ?_, ?_⟩
  · intro refused
    have same : first = { machine with scratch0 := 0, scratch1 := fuseSlot machine.flash } :=
      afterBoot_refused performed started refused
    have second := busk_warm boot (Nat.zero_le 3) counted
    rw [if_pos (by decide)] at second
    rw [second, same]
    rfl
  · intro few
    rw [Nat.min_eq_left (Nat.le_of_lt few), if_pos few] at next
    exact next
  · intro many
    rw [Nat.min_eq_right many, if_neg (by decide)] at next
    exact ⟨next, afterBoot_halted boot.performed next⟩

/-- A chip with erased flash. -/
def erasedMachine : Machine := ⟨fun _ => 0xFF, fun _ _ => 0, 0, ⟨0, Nat.two_pos⟩⟩

/-- A cold boot whose searches find nothing. -/
def aloneEnv : Env := coldEnv fun _ _ => .ok none

/-- A reset of the watchdog, behind which nothing happens. -/
def aloneReset : WarmBoot :=
  ⟨{ aloneEnv with watchdogEnableCaused := true, watchdogCaused := true }, rfl, rfl, 0, id⟩

/-- A chip with erased flash makes its fourth attempt behind two warm boots, and then halts. -/
theorem erased_attempts_in_turn :
    let first := erasedMachine.afterBoot blankImages aloneEnv 0
    let third := first.warmBoots blankImages [aloneReset, aloneReset]
    let last := first.warmBoots blankImages [aloneReset, aloneReset, aloneReset]
    erasedMachine.busk aloneEnv = .tried 0 (fuseSlot erasedMachine.flash)
        (startupFromSlot (fuseSlot erasedMachine.flash) erasedMachine.flash) ∧
      ((startupFromSlot (fuseSlot erasedMachine.flash) erasedMachine.flash).accepted = false →
        first.busk aloneReset.env = .tried 1 (fuseSlot erasedMachine.flash).other
          (startupFromSlot (fuseSlot erasedMachine.flash).other erasedMachine.flash)) ∧
      third.busk aloneReset.env = .tried 3 (attemptSlot third.flash 3)
        (startupFromSlot (attemptSlot third.flash 3) third.flash) ∧
      last.busk aloneReset.env = .halted ∧
      last.afterBoot blankImages aloneReset.env 0 = last := by
  intro first third last
  obtain ⟨cold, refused, next, -⟩ := attempts_in_turn erasedMachine blankImages aloneEnv 0 rfl
    [aloneReset, aloneReset] aloneReset
  obtain ⟨-, -, -, halts⟩ := attempts_in_turn erasedMachine blankImages aloneEnv 0 rfl
    [aloneReset, aloneReset, aloneReset] aloneReset
  obtain ⟨halted, kept⟩ := halts (by decide)
  exact ⟨cold, refused, next (by decide), halted, kept⟩

end Fly2040.System
