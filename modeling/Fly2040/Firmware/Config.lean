import Fly2040.Firmware.Fuses
/-!
# Learned-record store

Seven flash sectors hold a header page and one unary counter page for every glitch offset of
the grid. The header identifies the console, the firmware version and the payload it was
written for; its lock and i2c bytes are flags that programming clears. The definitions follow
the firmware, with the payload checksum as a parameter.
-/

namespace Fly2040.Firmware

open Bytes Durable Nor Unary

/-- Grid step between glitch offsets. -/
def offsetDiv : Nat := 10

/-- First glitch offset. -/
def offsetMin : Nat := 9200

/-- End of the glitch offsets. -/
def offsetMax : Nat := 10300

/-- Major firmware version. -/
def verHi : UInt8 := 2

/-- Minor firmware version. -/
def verLo : UInt8 := 76

/-- Page of an offset; the header page comes first. -/
def configIdx (offset : Nat) : Nat := (offset - offsetMin) / offsetDiv + 1

/-- Number of pages. -/
def configCnt : Nat := configIdx offsetMax

/-- Number of offsets. -/
def offsetCnt : Nat := configCnt - 1

/-- Bytes of all pages. -/
def configSize : Nat := configCnt * 256

/-- Offset number `index` of the grid. -/
def gridOffset (index : Fin offsetCnt) : Nat := offsetMin + offsetDiv * index

/-- An eMMC card identification. -/
abbrev Cid := Fin 16 → UInt8

/-- Position of the signature byte in the header, after the card identification. -/
def signAt : Nat := 16

/-- Position of the lock byte. -/
def lockAt : Nat := 19

/-- Position of the i2c byte. -/
def i2cAt : Nat := 22

/-- The header signature is the size of the header structure. -/
def verSign : UInt8 := 24

/-- Whether the header was written by this firmware for this payload. -/
def isInited (payloadCrc : UInt16) (memory : Memory) : Bool :=
  memory (configStart + signAt) == verSign && memory (configStart + 17) == verHi &&
    memory (configStart + 18) == verLo &&
    payloadCrc == le16 (memory (configStart + 20)) (memory (configStart + 21))

/-- Whether the header was written for this console. -/
def isConfigured (payloadCrc : UInt16) (cid : Cid) (memory : Memory) : Bool :=
  let cidOk := decide (∀ index : Fin 16, memory (configStart + index) = cid index)
  let initOk := isInited payloadCrc memory
  cidOk && initOk

/-- Whether every word of a range of the store is all ones. -/
def checkBlankConfig (start size : Nat) (memory : Memory) : Bool :=
  (List.range (size / 4)).all fun index =>
    word32 memory (configStart + start + 4 * index) == 0xFFFFFFFF

/-- Erase the sectors of the store that are not blank. -/
def eraseConfig {ε : Type} : FlashProg ε Unit :=
  Prog.forRange 0 ((configSize + 0xFFF) / 0x1000) fun index => do
    let blank ← Prog.gets (checkBlankConfig (0x1000 * index) 0x1000)
    if !blank then flashRangeErase (configStart + 0x1000 * index) 0x1000

/-- Whether a flag byte of the header has been cleared. -/
def flagCleared (position : Nat) (memory : Memory) : Bool :=
  memory (configStart + position) != 0xFF

/-- Whether no further record is learned. -/
def isLocked (memory : Memory) : Bool := flagCleared lockAt memory

/-- Whether an i2c master has configured the LEDs. -/
def isI2cConfigured (memory : Memory) : Bool := flagCleared i2cAt memory

/-- Program the header page with one flag byte zeroed, unless it is cleared already. -/
def clearFlag {ε : Type} (position : Nat) : FlashProg ε Unit := do
  if ← Prog.gets (flagCleared position) then return
  let buf ← Prog.gets fun memory : Memory => readBytes memory configStart 256
  flashRangeProgram configStart (buf.set position 0)

/-- Stop learning records. -/
def lockConfig {ε : Type} : FlashProg ε Unit := clearFlag lockAt

/-- Remember that an i2c master has configured the LEDs. -/
def setI2cConfigured {ε : Type} : FlashProg ε Unit := clearFlag i2cAt

/-- Byte of a fresh header page. -/
def headerByte (payloadCrc : UInt16) (cid : Cid) (index : Nat) : UInt8 :=
  if inside : index < 16 then cid ⟨index, inside⟩
  else if index = signAt then verSign
  else if index = 17 then verHi
  else if index = 18 then verLo
  else if index = 20 then byte16 payloadCrc 0
  else if index = 21 then byte16 payloadCrc 1
  else 0xFF

/-- Start an empty store for a console. -/
def initConfig {ε : Type} (payloadCrc : UInt16) (cid : Cid) : FlashProg ε Unit := do
  eraseConfig
  flashRangeProgram configStart ((List.range 256).map (headerByte payloadCrc cid))

/-- Flash offset of the counter page of an offset. -/
def recordPage (offset : Nat) : Nat := configStart + configIdx offset * 256

/-- Learn one more success of an offset; a full page locks the store. -/
def addBootRecord {ε : Type} (offset : Nat) : FlashProg ε Unit := do
  if ← Prog.gets isLocked then return
  let buf ← Prog.gets fun memory : Memory => pageWord memory (recordPage offset)
  match firstWord buf 0 64 with
  | some index => flashRangeProgram (recordPage offset) (pageBytes (burnWord buf index) 64)
  | none => lockConfig

/-- Number of successes learned for an offset. -/
def getWeigth (memory : Memory) (offset : Nat) : Nat :=
  scanWeight (pageWord memory (recordPage offset)) 0 64 0

/-- A grid offset is kept in the page after its index. -/
theorem configIdx_gridOffset (index : Fin offsetCnt) :
    configIdx (gridOffset index) = index + 1 := by
  unfold configIdx gridOffset offsetMin offsetDiv
  omega

/-- A counter page lies inside the store, after the header page. -/
theorem recordPage_bounds (index : Fin offsetCnt) :
    recordPage (gridOffset index) = configStart + (index + 1) * 256 ∧
      configStart + 256 ≤ recordPage (gridOffset index) ∧
      recordPage (gridOffset index) + 256 ≤ fuseOff := by
  have small : index.val < 110 := index.isLt
  rw [recordPage, configIdx_gridOffset]
  unfold configStart fuseOff
  omega

/-- Whatever flash holds, clearing a flag addresses the store only. -/
theorem clearFlag_confined {ε : Type} {origin memory : Memory} (position : Nat)
    (agree : SameOutside configStart fuseOff origin memory) :
    Confined configStart fuseOff origin (clearFlag (ε := ε) position) memory := by
  apply Prog.ensures_read
  split
  · exact Confined.pure () agree
  · exact Prog.ensures_read
      (Confined.issue (by simp [Op.Within, configStart, fuseOff]) agree)

/-- Whatever flash holds, counting a success addresses the store only. -/
theorem addBootRecord_confined {ε : Type} {origin memory : Memory} (index : Fin offsetCnt)
    (agree : SameOutside configStart fuseOff origin memory) :
    Confined configStart fuseOff origin (addBootRecord (ε := ε) (gridOffset index)) memory := by
  obtain ⟨-, low, high⟩ := recordPage_bounds index
  apply Prog.ensures_read
  split
  · exact Confined.pure () agree
  · apply Prog.ensures_read
    split
    · refine Confined.issue ⟨Nat.le_trans (Nat.le_add_right _ _) low, ?_⟩ agree
      rw [pageBytes_length]
      exact high
    · exact clearFlag_confined lockAt agree

/-- Programming a page with its own bytes and one of them zeroed clears that byte alone. -/
theorem program_flag (memory : Memory) (position : Nat) (inside : position < 256) :
    program memory configStart ((readBytes memory configStart 256).set position 0) =
      fun address => if address = configStart + position then 0 else memory address := by
  funext address
  unfold program
  by_cases low : configStart ≤ address
  · rw [if_pos low, List.getD, List.getElem?_set, readBytes_length]
    by_cases same : position = address - configStart
    · rw [if_pos same, if_pos inside, if_pos (by omega), Option.getD_some, UInt8.and_zero]
    · rw [if_neg same, if_neg (by omega)]
      change memory address &&& (readBytes memory configStart 256).getD _ _ = _
      rw [readBytes_getD]
      split
      · rw [show configStart + (address - configStart) = address by omega, UInt8.and_self]
      · exact and_ones _
  · rw [if_neg low, if_neg (by omega)]

/-- A blank range of the store is all ones in every byte. -/
theorem checkBlankConfig_bytes {memory : Memory} {start size : Nat}
    (blank : checkBlankConfig start size memory = true) (index : Nat)
    (inside : index < 4 * (size / 4)) : memory (configStart + start + index) = 0xFF := by
  have word := List.all_eq_true.mp blank (index / 4) (List.mem_range.mpr (by omega))
  have stored := byte32_word32 memory (configStart + start + 4 * (index / 4)) (index % 4)
    (Nat.mod_lt _ (by decide))
  rw [beq_iff_eq.mp word, show configStart + start + 4 * (index / 4) + index % 4 =
    configStart + start + index by omega] at stored
  rw [← stored]
  have small : index % 4 < 4 := Nat.mod_lt _ (by decide)
  generalize index % 4 = byte at small
  interval_cases byte <;> decide

/-- Erasing the store leaves it all ones and changes nothing else. -/
theorem eraseConfig_spec {ε : Type} {stopped : ε → Memory → Prop} (memory : Memory) :
    (eraseConfig (ε := ε)).Ensures memory
      (fun later operation => operation.Within configStart fuseOff ∧
        SameOutside configStart fuseOff memory later)
      (fun _ later => SameOutside configStart fuseOff memory later ∧
        ∀ index < 0x7000, later (configStart + index) = 0xFF) stopped := by
  refine (Prog.ensures_forRange (fun index later => SameOutside configStart fuseOff memory later ∧
    ∀ offset < 0x1000 * index, later (configStart + offset) = 0xFF) 0 _
    ⟨SameOutside.refl memory, fun _ none => absurd none (by omega)⟩ ?_).weaken ?_
  · intro index later _ high after
    obtain ⟨agree, ones⟩ := after
    have small : index < 7 := high
    have within : (Op.erase (configStart + 0x1000 * index) 0x1000).Within configStart fuseOff := by
      unfold Op.Within configStart fuseOff
      omega
    apply Prog.ensures_bind
    rw [Prog.ensures_gets]
    cases blank : checkBlankConfig (0x1000 * index) 0x1000 later with
    | true =>
      refine (Prog.ensures_pure _).mpr ⟨agree, fun offset inside => ?_⟩
      by_cases before : offset < 0x1000 * index
      · exact ones offset before
      · have byte := checkBlankConfig_bytes blank (offset - 0x1000 * index) (by omega)
        rwa [show configStart + 0x1000 * index + (offset - 0x1000 * index) =
          configStart + offset by omega] at byte
    | false =>
      refine (Prog.ensures_issue _ _).mpr ⟨⟨within, agree⟩,
        agree.trans (Op.apply_sameOutside within later), fun offset inside => ?_⟩
      by_cases before : offset < 0x1000 * index
      · exact (erase_outside later (by omega)).trans (ones offset before)
      · exact erase_inside later (by omega) (by omega)
  · intro _ later after
    obtain ⟨agree, ones⟩ := after
    exact ⟨agree, fun index inside => ones index inside⟩

end Fly2040.Firmware
