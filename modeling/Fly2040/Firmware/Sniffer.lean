import Fly2040.Firmware.Transfers
/-!
# Listening to the commands of the eMMC

A machine listens to the CMD line of the eMMC without taking part. It takes a frame from the low
level of its start bit on, bit by bit with the rising edges of the clock, and sends it on as two
words, so that its host finds the words of a frame side by side. A frame that ends with a pattern
triggers the glitch. What the machine counts and compares with has been put into its registers
beforehand. It is much faster than the clock that it follows, and its host takes the words in time.
-/

namespace Fly2040.Firmware

open Bits Pio Steps

/-- Place of the clock of the eMMC, counted from the CMD line on. -/
def clkIndex : Nat := 31

/-- Program of the machine that listens to the commands. -/
def glitchSniffCmd : List Op :=
  [⟨.movX .osr, 0⟩,
    ⟨.wait false clkIndex, 0⟩,
    ⟨.wait true clkIndex, 0⟩,
    ⟨.jmp .pin 1, 0⟩,
    ⟨.wait false clkIndex, 0⟩,
    ⟨.shiftIn .null 1, 0⟩,
    ⟨.wait true clkIndex, 0⟩,
    ⟨.shiftIn .pins 1, 0⟩,
    ⟨.wait false clkIndex, 0⟩,
    ⟨.jmp .xDecrement 6, 0⟩,
    ⟨.irqClear 2, 0⟩,
    ⟨.movX .isr, 0⟩,
    ⟨.push, 0⟩,
    ⟨.jmp .xNotY 0, 0⟩,
    ⟨.irqClear 0, 0⟩]

/-- Shift a value in through the second scratch register, in pieces of four bits. -/
def loadDigits (value : UInt32) : (digits : Nat) → Sm → Sm
  | 0, sm => sm
  | left + 1, sm =>
    let y := (value >>> UInt32.ofNat (left * 4)) &&& 15
    loadDigits value left ({ sm with y := y }.shiftIn ((ofWord y).drop 28))

/-- Number of bits behind the first two of a command. -/
def sniffCount : UInt32 := 46

/-- Last byte of the block that is read before the glitch, and the checksum behind it. -/
def sniffPattern : UInt32 := 0x1351

/-- Put the number of bits and the pattern into the registers of the machine. -/
def uploadPio (sm : Sm) : Sm :=
  let counted := loadDigits sniffCount 2 sm
  let cleared := { counted with osr := ofWord (counted.register .isr), isr := [] }
  let compared := loadDigits sniffPattern 4 cleared
  { compared with y := compared.register .isr }

/-- Let the machine listen: what it has shifted in and its queues are cleared, its other registers
stay. -/
def initGsniffPio (sm : Sm) : Sm :=
  { sm with isr := [], tx := [], rx := [], delay := 0, pc := 0, enabled := true }

/-- The place of the clock is that of its pin. -/
example : (pinCmd + clkIndex) % 32 = 27 := by decide

namespace Sniffer

open Receiver (place pushed pushed_full pushed_short shiftIn_pushed)

/-- The machine listens, and no bits are left from before. -/
structure Aligned (sm : Sm) : Prop where
  /-- It runs. -/
  enabled : sm.enabled = true
  /-- It is given no words. -/
  tx : sm.tx = []
  /-- It knows how many bits a command has. -/
  osr : sm.osr = ofWord sniffCount
  /-- It knows the pattern. -/
  y : sm.y = sniffPattern
  /-- No bits are left. -/
  isr : sm.isr = []

/-- A machine that has been set up listens, also when it is set up again. -/
theorem initGsniffPio_aligned {sm : Sm} (osr : sm.osr = ofWord sniffCount)
    (y : sm.y = sniffPattern) : Aligned (initGsniffPio sm) :=
  ⟨rfl, rfl, osr, y, rfl⟩

/-- Four bits of a word, at their place. -/
theorem ofWord_digit (value : UInt32) (left : Nat) (inside : left < 8) :
    (ofWord ((value >>> UInt32.ofNat (left * 4)) &&& 15)).drop 28 =
      ((ofWord value).drop (32 - 4 * (left + 1))).take 4 := by
  have digit : ((value >>> UInt32.ofNat (left * 4)) &&& 15).toBitVec.extractLsb' 0 4 =
      value.toBitVec.extractLsb' (left * 4) 4 := by
    have mask : ∀ place < 4, (15 : UInt32).toBitVec.getLsbD place = true := by decide
    apply BitVec.eq_of_getLsbD_eq
    intro index below
    rw [BitVec.getLsbD_extractLsb', BitVec.getLsbD_extractLsb', UInt32.toBitVec_and,
      BitVec.getLsbD_and, shiftRight_toBitVec _ (by omega), BitVec.getLsbD_ushiftRight,
      Nat.zero_add, mask index below, Bool.and_true]
  have lowest := highFirst_extract ((value >>> UInt32.ofNat (left * 4)) &&& 15).toBitVec
    (show 0 + 4 ≤ 32 by decide)
  have count (word : UInt32) : (((ofWord word).drop 28).take 4) = (ofWord word).drop 28 :=
    List.take_of_length_le (by rw [List.length_drop, ofWord_length])
  rw [digit, highFirst_extract _ (by omega)] at lowest
  rw [← count, show 4 * (left + 1) = left * 4 + 4 by omega]
  exact lowest.symm

/-- Bits that do not fill the register stay in it. -/
theorem shiftIn_short {sm : Sm} {bits : List Bool} (short : sm.isr.length + bits.length < 32) :
    sm.shiftIn bits = { sm with isr := sm.isr ++ bits } :=
  if_pos (by rw [List.length_append]; exact short)

/-- A value is shifted in as its lowest bits. -/
theorem loadDigits_eq (value : UInt32) {digits : Nat} {sm : Sm}
    (fits : sm.isr.length + 4 * digits < 32) :
    ∃ y, loadDigits value digits sm =
      { sm with y := y, isr := sm.isr ++ (ofWord value).drop (32 - 4 * digits) } := by
  induction digits generalizing sm with
  | zero =>
    have all : (ofWord value).drop 32 = [] :=
      List.drop_of_length_le (Nat.le_of_eq (ofWord_length value))
    rw [loadDigits, Nat.mul_zero, Nat.sub_zero, all, List.append_nil]
    exact ⟨sm.y, rfl⟩
  | succ left ih =>
    have digit := ofWord_digit value left (by omega)
    have length (y : UInt32) : ((ofWord y).drop 28).length = 4 := by
      rw [List.length_drop, ofWord_length]
    have short (y : UInt32) :
        ({ sm with y := y } : Sm).isr.length + ((ofWord y).drop 28).length < 32 := by
      show sm.isr.length + _ < 32
      rw [length]
      omega
    rw [loadDigits, shiftIn_short (short _)]
    have ⟨y, same⟩ := @ih { sm with
      y := (value >>> UInt32.ofNat (left * 4)) &&& 15
      isr := sm.isr ++ (ofWord ((value >>> UInt32.ofNat (left * 4)) &&& 15)).drop 28 }
      (by rw [List.length_append, length]; omega)
    rw [same, List.append_assoc, digit, show 32 - 4 * left = 32 - 4 * (left + 1) + 4 by omega,
      ← List.drop_drop, List.take_append_drop]
    exact ⟨y, rfl⟩

/-- The registers are set up with the number of bits and the pattern, and nothing else is. -/
theorem uploadPio_eq {sm : Sm} (empty : sm.isr = []) :
    uploadPio sm =
      { sm with y := sniffPattern, osr := ofWord sniffCount, isr := (uploadPio sm).isr } := by
  have ⟨y, counted⟩ := @loadDigits_eq sniffCount 2 sm (by rw [empty]; decide)
  have count : (loadDigits sniffCount 2 sm).register .isr = sniffCount := by
    rw [Sm.register, counted, empty]
    show UInt32.ofBitVec (packed 32 ([] ++ (ofWord sniffCount).drop 24)) = sniffCount
    decide
  have ⟨y', compared⟩ := @loadDigits_eq sniffPattern 4
    { loadDigits sniffCount 2 sm with osr := ofWord sniffCount, isr := [] }
    (show 0 + 4 * 4 < 32 by decide)
  have pattern : (loadDigits sniffPattern 4 { loadDigits sniffCount 2 sm with
      osr := ofWord sniffCount, isr := [] }).register .isr = sniffPattern := by
    rw [Sm.register, compared]
    show UInt32.ofBitVec (packed 32 ([] ++ (ofWord sniffPattern).drop 16)) = sniffPattern
    decide
  rw [uploadPio, count]
  dsimp only
  rw [pattern, compared, counted]

section Instructions

variable {env : Env} {sm : Sm} (on : sm.enabled = true) (dry : sm.tx = [])

include on dry

/-- A machine that listens carries out the instruction that it is at. -/
theorem instant_place (pc half : Nat) :
    instant env glitchSniffCmd (place sm pc half) =
      match glitchSniffCmd[pc]? with
      | some op =>
        match execute env (place sm (following glitchSniffCmd pc) half) op.instr with
        | some after => after
        | none => place sm pc (half + 1)
      | none => place sm pc (half + 1) := by
  have runs : ¬(place sm pc half).enabled = false := by
    show ¬sm.enabled = false
    rw [on]
    decide
  rw [instant, if_neg runs, refill_of_dry (place sm pc half) dry]
  rfl

/-- A wait for the clock. -/
theorem instant_wait {pc : Nat} {level : Bool}
    (here : glitchSniffCmd[pc]? = some ⟨.wait level clkIndex, 0⟩) (half : Nat)
    (ticks : env.pin half clkIndex = decide (half % 2 = 1)) :
    instant env glitchSniffCmd (place sm pc half) =
      if decide (half % 2 = 1) = level then place sm (following glitchSniffCmd pc) half
      else place sm pc (half + 1) := by
  rw [instant_place on dry, here, ← ticks]
  by_cases now : env.pin half clkIndex = level
  · rw [if_pos now]
    simp [execute, place, now]
  · rw [if_neg now]
    simp [execute, place, now]

/-- The number of bits is taken. -/
theorem instant_count (osr : sm.osr = ofWord sniffCount) (half : Nat) :
    instant env glitchSniffCmd (place sm 0 half) = place { sm with x := sniffCount } 1 half := by
  have count : (place sm 1 half).register .osr = sniffCount := by
    show UInt32.ofBitVec (packed 32 (sm.osr ++ List.replicate (32 - sm.osr.length) false)) = _
    rw [osr]
    decide
  rw [instant_place on dry]
  show { place sm 1 half with x := (place sm 1 half).register .osr } = _
  rw [count]
  rfl

/-- The wait for the start bit. -/
theorem instant_poll (half : Nat) :
    instant env glitchSniffCmd (place sm 3 half) =
      place sm (if env.pin half 0 then 1 else 4) half := by
  rw [instant_place on dry]
  cases level : env.pin half 0 <;>
    simp [glitchSniffCmd, execute, following, place, Sm.taken, Sm.count, level]

/-- The start bit is put in. -/
theorem instant_start (half : Nat) :
    instant env glitchSniffCmd (place sm 5 half) = place (sm.shiftIn [false]) 6 half := by
  rw [instant_place on dry]
  by_cases fits : sm.isr.length + 1 < 32 <;>
    simp [glitchSniffCmd, execute, following, place, Sm.shiftIn, Sm.push, fits]

/-- A bit is taken. -/
theorem instant_bit (half : Nat) :
    instant env glitchSniffCmd (place sm 7 half) = place (sm.shiftIn [env.pin half 0]) 8 half := by
  rw [instant_place on dry]
  by_cases fits : sm.isr.length + 1 < 32 <;>
    simp [glitchSniffCmd, execute, following, place, Sm.shiftIn, Sm.push, fits]

/-- The jump back, as long as bits are left. -/
theorem instant_loop (half : Nat) :
    instant env glitchSniffCmd (place sm 9 half) =
      place { sm with x := sm.x - 1 } (if sm.x = 0 then 10 else 6) half := by
  rw [instant_place on dry]
  by_cases zero : sm.x = 0 <;>
    simp [glitchSniffCmd, execute, following, place, Sm.taken, Sm.count, zero]

/-- Every command is told. -/
theorem instant_told (half : Nat) :
    instant env glitchSniffCmd (place sm 10 half) =
      place { sm with cleared := sm.cleared ++ [2] } 11 half := by
  rw [instant_place on dry]
  rfl

/-- What is left of a command is kept. -/
theorem instant_kept (half : Nat) :
    instant env glitchSniffCmd (place sm 11 half) =
      place { sm with x := UInt32.ofBitVec (packed 32 sm.isr) } 12 half := by
  rw [instant_place on dry]
  rfl

/-- What is left of a command is sent on. -/
theorem instant_push (half : Nat) :
    instant env glitchSniffCmd (place sm 12 half) = place sm.push 13 half := by
  rw [instant_place on dry]
  rfl

/-- What is left of a command is compared with the pattern. -/
theorem instant_compare (half : Nat) :
    instant env glitchSniffCmd (place sm 13 half) =
      place sm (if sm.x = sm.y then 14 else 0) half := by
  rw [instant_place on dry]
  by_cases same : sm.x = sm.y <;>
    simp [glitchSniffCmd, execute, following, place, Sm.taken, Sm.count, same]

/-- The pattern is told. -/
theorem instant_trigger (half : Nat) :
    instant env glitchSniffCmd (place sm 14 half) =
      place { sm with cleared := sm.cleared ++ [0] } 0 half := by
  rw [instant_place on dry]
  rfl

end Instructions

/-- A frame on the CMD line, and for how many periods the line is idle before it. -/
structure Frame where
  /-- Periods in which the line is idle. -/
  idle : Nat
  /-- Bits of the frame. -/
  bits : List Bool
  /-- A frame has forty-eight bits. -/
  length : bits.length = 48
  /-- The first one is low. -/
  start : bits.head? = some false

namespace Frame

variable (frame : Frame)

/-- Levels of the line. -/
def line : List Bool := List.replicate frame.idle true ++ frame.bits

/-- The words of a frame: its first thirty-two bits and its last sixteen. -/
def words : List UInt32 :=
  [UInt32.ofBitVec (packed 32 (frame.bits.take 32)),
    UInt32.ofBitVec (packed 32 (frame.bits.drop 32))]

/-- Flags that are cleared behind a frame: that of every command, and that of the pattern. -/
def told : List Nat := 2 :: if frame.bits.drop 32 = ofHalf 0x1351 then [0] else []

/-- A frame begins with a low bit, and forty-seven bits are behind it. -/
theorem parts : ∃ first rest, frame.bits = [false] ++ first :: rest ∧ rest.length = 46 := by
  have length := frame.length
  have start := frame.start
  cases bits : frame.bits with
  | nil =>
    rw [bits] at length
    cases length
  | cons low bits' =>
    rw [bits] at length start
    cases bits' with
    | nil => cases length
    | cons first rest =>
      rw [Option.some.inj start]
      exact ⟨first, rest, rfl, Nat.succ.inj (Nat.succ.inj length)⟩

/-- The words are those that are sent on for the bits. -/
theorem words_eq : frame.words = pushed frame.bits := by
  have length := frame.length
  have full : (frame.bits.take 32).length = 32 := by
    rw [List.length_take]
    omega
  conv_rhs => rw [← List.take_append_drop 32 frame.bits]
  rw [pushed_full _ full, pushed_short (by rw [List.length_drop]; omega)]
  rfl

/-- The last word is the pattern if the last bits are. -/
theorem last_eq_iff : UInt32.ofBitVec (packed 32 (frame.bits.drop 32)) = sniffPattern ↔
    frame.bits.drop 32 = ofHalf 0x1351 := by
  have length : (frame.bits.drop 32).length = 16 := by rw [List.length_drop, frame.length]
  have padded : ofWord (UInt32.ofBitVec (packed 32 (frame.bits.drop 32))) =
      List.replicate 16 false ++ frame.bits.drop 32 := by
    show highFirst (packed 32 _) = _
    rw [highFirst_packed (by omega), length]
  have pattern : ofWord sniffPattern = List.replicate 16 false ++ ofHalf 0x1351 := by decide
  rw [← ofWord_injective.eq_iff, padded, pattern, List.append_right_inj]

/-- The last word that is sent on for a frame is that of its last bits. -/
theorem last_word {front before : List UInt32} {word : UInt32}
    (sent : front ++ [word] = before ++ frame.words) :
    word = UInt32.ofBitVec (packed 32 (frame.bits.drop 32)) := by
  have pair : front ++ [word] = before ++ [UInt32.ofBitVec (packed 32 (frame.bits.take 32))] ++
      [UInt32.ofBitVec (packed 32 (frame.bits.drop 32))] := by
    rw [sent, List.append_assoc]
    rfl
  exact List.singleton_inj.mp (List.append_inj' pair rfl).2

end Frame

/-- A clock ticks, and bits are on the line from a period on, in the high half of each. -/
structure Carries (env : Env) (period : Nat) (bits : List Bool) : Prop where
  /-- The clock ticks. -/
  ticks : ∀ half, env.pin half clkIndex = decide (half % 2 = 1)
  /-- A bit is on the line in every period. -/
  data : ∀ index (inside : index < bits.length), env.pin (2 * (period + index) + 1) 0 = bits[index]

section Runs

variable {env : Env} {sm : Sm} {period : Nat}

/-- The first bits are on the line. -/
theorem Carries.front {front back : List Bool} (carries : Carries env period (front ++ back)) :
    Carries env period front := by
  refine ⟨carries.ticks, ?_⟩
  intro index inside
  rw [carries.data index (by rw [List.length_append]; omega)]
  exact List.getElem_append_left inside

/-- The bits behind them are on the line later. -/
theorem Carries.back {front back : List Bool} (carries : Carries env period (front ++ back)) :
    Carries env (period + front.length) back := by
  refine ⟨carries.ticks, ?_⟩
  intro index inside
  rw [Nat.add_assoc, carries.data (front.length + index) (by rw [List.length_append]; omega),
    List.getElem_append_right (Nat.le_add_right _ _)]
  simp only [Nat.add_sub_cancel_left]

/-- A wait for the high level ends in the same period. -/
theorem reaches_high (on : sm.enabled = true) (dry : sm.tx = []) {bits : List Bool}
    (carries : Carries env period bits) {pc : Nat}
    (here : glitchSniffCmd[pc]? = some ⟨.wait true clkIndex, 0⟩) :
    Reaches (instant env glitchSniffCmd) (place sm pc (2 * period))
      (place sm (following glitchSniffCmd pc) (2 * period + 1)) := by
  apply Reaches.head
  rw [instant_wait on dry here _ (carries.ticks _), if_neg (by simp)]
  apply Reaches.head
  rw [instant_wait on dry here _ (carries.ticks _), if_pos (by simp)]
  exact .refl

/-- A wait for the low level ends in the next period. -/
theorem reaches_low (on : sm.enabled = true) (dry : sm.tx = []) {bits : List Bool}
    (carries : Carries env period bits) {pc : Nat}
    (here : glitchSniffCmd[pc]? = some ⟨.wait false clkIndex, 0⟩) :
    Reaches (instant env glitchSniffCmd) (place sm pc (2 * period + 1))
      (place sm (following glitchSniffCmd pc) (2 * (period + 1))) := by
  apply Reaches.head
  rw [instant_wait on dry here _ (carries.ticks _), if_neg (by simp)]
  apply Reaches.head
  rw [instant_wait on dry here _ (carries.ticks _), if_pos (by simp; omega)]
  exact .refl

/-- The machine waits for the low level before it looks at the line. -/
theorem poll : glitchSniffCmd[1]? = some ⟨.wait false clkIndex, 0⟩ := rfl

/-- The line is looked at in the high half of a period. -/
theorem reaches_poll (on : sm.enabled = true) (dry : sm.tx = []) {bit : Bool} {rest : List Bool}
    (carries : Carries env period (bit :: rest)) :
    Reaches (instant env glitchSniffCmd) (place sm 1 (2 * period))
      (place sm (if bit then 1 else 4) (2 * period + 1)) := by
  have level : env.pin (2 * period + 1) 0 = bit := carries.data 0 (Nat.succ_pos _)
  apply Reaches.head
  rw [instant_wait on dry poll _ (carries.ticks _), if_pos (by simp)]
  apply (reaches_high on dry carries rfl).trans
  apply Reaches.head
  show Reaches _ (instant env glitchSniffCmd (place sm 3 (2 * period + 1))) _
  rw [instant_poll on dry, level]
  exact .refl

/-- The machine waits while the line is idle. -/
theorem reaches_idle (on : sm.enabled = true) (dry : sm.tx = []) {idle : Nat} {rest : List Bool}
    (carries : Carries env period (List.replicate idle true ++ rest)) :
    Reaches (instant env glitchSniffCmd) (place sm 1 (2 * period))
      (place sm 1 (2 * (period + idle))) := by
  induction idle generalizing period with
  | zero => exact .refl
  | succ idle ih =>
    rw [List.replicate_succ, List.cons_append] at carries
    apply (reaches_poll on dry carries).trans
    rw [if_pos rfl]
    apply Reaches.head
    rw [instant_wait on dry poll _ (carries.ticks _), if_neg (by simp),
      show 2 * period + 1 + 1 = 2 * (period + 1) by omega,
      show period + (idle + 1) = period + 1 + idle by omega]
    exact ih (@Carries.back _ _ [true] _ carries)

/-- The machine takes a start bit. -/
theorem reaches_start (on : sm.enabled = true) (dry : sm.tx = []) {rest : List Bool}
    (carries : Carries env period (false :: rest)) :
    Reaches (instant env glitchSniffCmd) (place sm 1 (2 * period))
      (place (sm.shiftIn [false]) 6 (2 * (period + 1))) := by
  apply (reaches_poll on dry carries).trans
  apply (reaches_low on dry carries rfl).trans
  apply Reaches.head
  show Reaches _ (instant env glitchSniffCmd (place sm 5 _)) _
  rw [instant_start on dry]
  exact .refl

/-- Bits that come in change nothing but where they go to. -/
theorem shiftIn_eq (sm : Sm) (bits : List Bool) :
    sm.shiftIn bits = { sm with isr := (sm.shiftIn bits).isr, rx := (sm.shiftIn bits).rx } := by
  unfold Sm.shiftIn
  dsimp only
  split <;> rfl

/-- The machine takes a bit. -/
theorem reaches_bit (on : sm.enabled = true) (dry : sm.tx = []) {bit : Bool} {rest : List Bool}
    (carries : Carries env period (bit :: rest)) :
    Reaches (instant env glitchSniffCmd) (place sm 6 (2 * period))
      (place { sm.shiftIn [bit] with x := sm.x - 1 } (if sm.x = 0 then 10 else 6)
        (2 * (period + 1))) := by
  have level : env.pin (2 * period + 1) 0 = bit := carries.data 0 (Nat.succ_pos _)
  have same := shiftIn_eq sm [bit]
  generalize (sm.shiftIn [bit]).isr = isr at same
  generalize (sm.shiftIn [bit]).rx = rx at same
  apply (reaches_high on dry carries rfl).trans
  apply Reaches.head
  show Reaches _ (instant env glitchSniffCmd (place sm 7 _)) _
  rw [instant_bit on dry, level, same]
  apply (@reaches_low env { sm with isr := isr, rx := rx } period on dry _ carries 8 rfl).trans
  apply Reaches.head
  show Reaches _ (instant env glitchSniffCmd (place { sm with isr := isr, rx := rx } 9 _)) _
  rw [@instant_loop env { sm with isr := isr, rx := rx } on dry]
  exact .refl

/-- The machine takes a bit, and the bits that are left. -/
theorem reaches_read (on : sm.enabled = true) (dry : sm.tx = []) {first : Bool} {rest : List Bool}
    (carries : Carries env period (first :: rest)) (count : sm.x.toNat = rest.length)
    (held : sm.isr.length < 32) :
    ∃ x isr rx, Reaches (instant env glitchSniffCmd) (place sm 6 (2 * period))
        (place { sm with x := x, isr := isr, rx := rx } 10
          (2 * (period + (first :: rest).length))) ∧
      rx ++ pushed isr = sm.rx ++ pushed (sm.isr ++ first :: rest) ∧ isr.length < 32 := by
  induction rest generalizing first sm period with
  | nil =>
    have bit := reaches_bit on dry carries
    have ⟨sent, held'⟩ := shiftIn_pushed first [] held
    rw [if_pos (UInt32.toNat_inj.mp count), shiftIn_eq sm [first]] at bit
    rw [List.append_nil] at sent
    exact ⟨_, _, _, bit, sent, held'⟩
  | cons second rest ih =>
    have bit := reaches_bit on dry carries
    have ⟨sent, held'⟩ := shiftIn_pushed first (second :: rest) held
    have some : ¬sm.x = 0 := fun zero => by
      rw [zero] at count
      exact absurd count.symm (Nat.succ_ne_zero _)
    have count' : (sm.x - 1).toNat = rest.length := by
      have positive : 1 ≤ sm.x := UInt32.le_iff_toNat_le.mpr (by rw [count]; exact Nat.succ_pos _)
      rw [UInt32.toNat_sub_of_le _ _ positive, count]
      rfl
    rw [if_neg some, shiftIn_eq sm [first]] at bit
    have ⟨x, isr, rx, reaches, same, short⟩ := @ih
      { sm with x := sm.x - 1, isr := (sm.shiftIn [first]).isr, rx := (sm.shiftIn [first]).rx }
      (period + 1) on dry second (@Carries.back _ _ [first] _ carries) count' held'
    refine ⟨x, isr, rx, bit.trans ?_, same.trans sent, short⟩
    rw [List.length_cons, show period + ((second :: rest).length + 1) =
      period + 1 + (second :: rest).length by omega]
    exact reaches

/-- The machine tells that a frame has passed, and whether it ended with the pattern. -/
theorem reaches_told (on : sm.enabled = true) (dry : sm.tx = []) (half : Nat) :
    let word := UInt32.ofBitVec (packed 32 sm.isr)
    Reaches (instant env glitchSniffCmd) (place sm 10 half)
      (place { sm with
        x := word, isr := [], rx := sm.rx ++ [word]
        cleared := sm.cleared ++ 2 :: if word = sm.y then [0] else [] } 0 half) := by
  intro word
  let told := { sm with cleared := sm.cleared ++ [2] }
  let kept := { told with x := word }
  apply Reaches.next (instant_told on dry half)
  apply Reaches.next (@instant_kept env told on dry half)
  apply Reaches.next (@instant_push env kept on dry half)
  apply Reaches.next (@instant_compare env kept.push on dry half)
  show Reaches _ (place kept.push (if word = sm.y then 14 else 0) half) _
  by_cases same : word = sm.y
  · rw [if_pos same, if_pos same]
    apply Reaches.next (@instant_trigger env kept.push on dry half)
    show Reaches _ (place { kept.push with cleared := sm.cleared ++ [2] ++ [0] } 0 half) _
    rw [List.append_assoc]
    exact .refl
  · rw [if_neg same, if_neg same]
    exact .refl

/-- The machine comes to the low half of a period, and waits for a frame. -/
theorem reaches_wait (aligned : Aligned sm) {half : Nat} {bits : List Bool}
    (carries : Carries env ((half + 1) / 2) bits) :
    Reaches (instant env glitchSniffCmd) (place sm 0 half)
      (place { sm with x := sniffCount } 1 (2 * ((half + 1) / 2))) := by
  let counted := { sm with x := sniffCount }
  apply Reaches.next (instant_count aligned.enabled aligned.tx aligned.osr half)
  by_cases odd : half % 2 = 1
  · apply Reaches.head
    rw [@instant_wait env counted aligned.enabled aligned.tx _ _ poll _ (carries.ticks _),
      if_neg (by simp [odd]), show 2 * ((half + 1) / 2) = half + 1 by omega]
    exact .refl
  · rw [show 2 * ((half + 1) / 2) = half by omega]
    exact .refl

/-- A machine that waits for a frame takes its bits, and what it has left makes the last word. -/
theorem reaches_taken (aligned : Aligned sm) (frame : Frame)
    (carries : Carries env period frame.line) :
    ∃ x isr rx, Reaches (instant env glitchSniffCmd)
        (place { sm with x := sniffCount } 1 (2 * period))
        (place { sm with x := x, isr := isr, rx := rx } 10 (2 * (period + frame.line.length))) ∧
      rx ++ [UInt32.ofBitVec (packed 32 isr)] = sm.rx ++ frame.words := by
  let counted := { sm with x := sniffCount }
  let started := { counted with isr := [false] }
  have on : started.enabled = true := aligned.enabled
  have dry : started.tx = [] := aligned.tx
  have taken : counted.shiftIn [false] = started := by
    rw [shiftIn_short (by show sm.isr.length + 1 < 32; rw [aligned.isr]; decide)]
    show { counted with isr := sm.isr ++ [false] } = started
    rw [aligned.isr]
    rfl
  have ⟨first, rest, bits, count⟩ := frame.parts
  rw [Frame.line, bits] at carries
  have idle := @reaches_idle env counted _ on dry _ _ carries
  have start := @reaches_start env counted _ on dry _ carries.back
  have behind := carries.back.back
  rw [List.length_replicate, taken] at start
  rw [List.length_replicate] at behind
  have ⟨x, isr, rx, read, sent, short⟩ := @reaches_read env started _ on dry first rest behind
    count.symm (show 1 < 32 by decide)
  refine ⟨x, isr, rx, idle.trans (start.trans ?_), ?_⟩
  · rw [Frame.line, bits, List.length_append, List.length_replicate, List.length_append,
      ← Nat.add_assoc, ← Nat.add_assoc]
    exact read
  · rw [← pushed_short short, frame.words_eq, bits]
    exact sent

/-- A frame is sent on as its words, its flags are cleared, and the machine waits for the next one
behind it. -/
theorem reaches_frame (aligned : Aligned sm) (frame : Frame) {half : Nat}
    (carries : Carries env ((half + 1) / 2) frame.line) :
    ∃ next, Reaches (instant env glitchSniffCmd) (place sm 0 half)
        (place next 0 (2 * ((half + 1) / 2 + frame.line.length))) ∧
      Aligned next ∧ next.rx = sm.rx ++ frame.words ∧
      next.cleared = sm.cleared ++ frame.told := by
  have wait := reaches_wait aligned carries
  have ⟨x, isr, rx, taken, words⟩ := reaches_taken aligned frame carries
  have flags : (2 :: if UInt32.ofBitVec (packed 32 isr) = sm.y then [0] else []) = frame.told := by
    rw [Frame.told, frame.last_word words, aligned.y]
    simp only [frame.last_eq_iff]
  have told := @reaches_told env { sm with x := x, isr := isr, rx := rx } aligned.enabled aligned.tx
    (2 * ((half + 1) / 2 + frame.line.length))
  dsimp only at told
  rw [words, flags] at told
  exact ⟨_, wait.trans (taken.trans told),
    ⟨aligned.enabled, aligned.tx, aligned.osr, aligned.y, rfl⟩, rfl, rfl⟩

/-- Frames are sent on one after the other, and the machine is ready for the next one behind
each. -/
theorem reaches_frames (aligned : Aligned sm) (frames : List Frame) {half : Nat}
    (carries : Carries env ((half + 1) / 2) (frames.flatMap Frame.line)) :
    ∃ next half', Reaches (instant env glitchSniffCmd) (place sm 0 half) (place next 0 half') ∧
      (half' + 1) / 2 = (half + 1) / 2 + (frames.flatMap Frame.line).length ∧
      Aligned next ∧ next.rx = sm.rx ++ frames.flatMap Frame.words ∧
      next.cleared = sm.cleared ++ frames.flatMap Frame.told := by
  induction frames generalizing sm half with
  | nil =>
    rw [List.flatMap_nil, List.flatMap_nil, List.flatMap_nil, List.append_nil, List.append_nil]
    exact ⟨sm, half, .refl, rfl, aligned, rfl, rfl⟩
  | cons frame frames ih =>
    rw [List.flatMap_cons] at carries
    have ⟨next, reaches, aligned', rx, cleared⟩ := reaches_frame aligned frame carries.front
    have behind : (2 * ((half + 1) / 2 + frame.line.length) + 1) / 2 =
        (half + 1) / 2 + frame.line.length := by omega
    have ⟨last, half', reaches', late, aligned'', rx', cleared'⟩ :=
      ih aligned' (behind.symm ▸ carries.back)
    refine ⟨last, half', reaches.trans reaches', ?_, aligned'', ?_, ?_⟩
    · rw [late, behind, List.flatMap_cons, List.length_append, Nat.add_assoc]
    · rw [rx', rx, List.flatMap_cons, List.append_assoc]
    · rw [cleared', cleared, List.flatMap_cons, List.append_assoc]

/-- Where a machine is that waits for a frame on a line that is idle from a period on. -/
inductive Waits (sm : Sm) (period : Nat) : Sm → Prop where
  /-- It is about to take the number of bits. -/
  | count (half : Nat) (late : period ≤ (half + 1) / 2) : Waits sm period (place sm 0 half)
  /-- It waits for the low level of the clock. -/
  | low (half : Nat) (late : period ≤ (half + 1) / 2) :
      Waits sm period (place { sm with x := sniffCount } 1 half)
  /-- It waits for the high level of the clock. -/
  | high (half : Nat) (late : period ≤ half / 2) :
      Waits sm period (place { sm with x := sniffCount } 2 half)
  /-- It looks at the line. -/
  | look (half : Nat) (late : period ≤ half / 2) (high : half % 2 = 1) :
      Waits sm period (place { sm with x := sniffCount } 3 half)

/-- A machine that waits for a frame does so until the line is low. -/
theorem waits_kept (aligned : Aligned sm)
    (ticks : ∀ half, env.pin half clkIndex = decide (half % 2 = 1))
    (quiet : ∀ later, period ≤ later → env.pin (2 * later + 1) 0 = true) {state : Sm}
    (waits : Waits sm period state) : Waits sm period (instant env glitchSniffCmd state) := by
  have on : ({ sm with x := sniffCount } : Sm).enabled = true := aligned.enabled
  have dry : ({ sm with x := sniffCount } : Sm).tx = [] := aligned.tx
  cases waits with
  | count half late =>
    rw [instant_count aligned.enabled aligned.tx aligned.osr]
    exact .low half late
  | low half late =>
    rw [instant_wait on dry poll _ (ticks half)]
    split
    next even =>
      have even : ¬half % 2 = 1 := of_decide_eq_false even
      exact .high half (by omega)
    next => exact .low (half + 1) (by omega)
  | high half late =>
    rw [@instant_wait env _ on dry 2 true rfl _ (ticks half)]
    split
    next odd => exact .look half late (of_decide_eq_true odd)
    next => exact .high (half + 1) (by omega)
  | look half late odd =>
    have level := quiet (half / 2) late
    rw [show 2 * (half / 2) + 1 = half by omega] at level
    rw [instant_poll on dry, if_pos level]
    exact .low half (by omega)

/-- Nothing is sent on and no flag is cleared while the line is idle. -/
theorem quiet_kept (aligned : Aligned sm)
    (ticks : ∀ half, env.pin half clkIndex = decide (half % 2 = 1)) {half : Nat}
    (quiet : ∀ later, (half + 1) / 2 ≤ later → env.pin (2 * later + 1) 0 = true) {last : Sm}
    (reaches : Reaches (instant env glitchSniffCmd) (place sm 0 half) last) :
    last.rx = sm.rx ∧ last.cleared = sm.cleared := by
  have waits := reaches.kept (fun _ now => waits_kept aligned ticks quiet now)
    (Waits.count half (Nat.le_refl _))
  cases waits <;> exact ⟨rfl, rfl⟩

end Runs

section Sniffed

variable {env : Env} {sm : Sm}

/-- The machine as it is set up sends on the two words of every frame, clears the flag of the
pattern behind those frames that end with it, is ready for the next frame behind each, and does
nothing while the line is idle. -/
theorem frames_sniffed (frames : List Frame) (empty : sm.isr = [])
    (carries : Carries env ((sm.cycle + 1) / 2) (frames.flatMap Frame.line)) :
    ∃ last, Reaches (instant env glitchSniffCmd) (initGsniffPio (uploadPio sm)) last ∧
      last.pc = 0 ∧ Aligned last ∧
      (last.cycle + 1) / 2 = (sm.cycle + 1) / 2 + (frames.flatMap Frame.line).length ∧
      last.rx = frames.flatMap Frame.words ∧
      last.cleared = sm.cleared ++ frames.flatMap Frame.told ∧
      ((∀ later, (last.cycle + 1) / 2 ≤ later → env.pin (2 * later + 1) 0 = true) →
        ∀ next, Reaches (instant env glitchSniffCmd) last next →
          next.rx = last.rx ∧ next.cleared = last.cleared) := by
  have start : initGsniffPio (uploadPio sm) = place (initGsniffPio (uploadPio sm)) 0 sm.cycle := by
    rw [uploadPio_eq empty]
    rfl
  have cleared : (initGsniffPio (uploadPio sm)).cleared = sm.cleared := by
    rw [uploadPio_eq empty]
    rfl
  have aligned : Aligned (initGsniffPio (uploadPio sm)) := by
    apply initGsniffPio_aligned
    · rw [uploadPio_eq empty]
    · rw [uploadPio_eq empty]
  have ⟨next, half, reaches, late, aligned', rx, told⟩ := reaches_frames aligned frames carries
  rw [start]
  refine ⟨place next 0 half, reaches, rfl,
    ⟨aligned'.enabled, aligned'.tx, aligned'.osr, aligned'.y, aligned'.isr⟩, late,
    rx.trans (List.nil_append _), told.trans (by rw [cleared]), ?_⟩
  intro quiet last reaches'
  exact quiet_kept aligned' carries.ticks quiet reaches'

end Sniffed

/-- A line that carries bits and then is idle. -/
def playback (bits : List Bool) : Env where
  pin half index := if index = clkIndex then half % 2 = 1 else bits.getD (half / 2) true
  released _ _ := false

/-- Bits that are played are on the line. -/
theorem playback_carries (bits : List Bool) : Carries (playback bits) 0 bits := by
  constructor
  · intro half
    rfl
  · intro index inside
    show bits.getD ((2 * (0 + index) + 1) / 2) true = _
    rw [show (2 * (0 + index) + 1) / 2 = index by omega]
    exact List.getD_eq_getElem bits true inside

/-- The command that reads a block, and the next one right behind it. -/
def readAndStatus : List Frame :=
  [⟨3, ofBytes [0x51, 0x00, 0x00, 0x00, 0x13, 0x51], rfl, rfl⟩,
    ⟨0, ofBytes [0x4D, 0x00, 0x02, 0x00, 0x00, 0xB1], rfl, rfl⟩]

/-- Two commands are told, and the pattern behind the first one. -/
theorem readAndStatus_sniffed :
    ∃ last, Reaches (instant (playback (readAndStatus.flatMap Frame.line)) glitchSniffCmd)
        (initGsniffPio (uploadPio startMmc)) last ∧
      last.rx = [0x51000000, 0x1351, 0x4D000200, 0xB1] ∧ last.cleared = [2, 0, 2] := by
  have ⟨last, reaches, _, _, _, rx, cleared, _⟩ :=
    @frames_sniffed _ startMmc readAndStatus rfl (playback_carries _)
  exact ⟨last, reaches, rx.trans (by decide), cleared.trans (by decide)⟩

end Sniffer

end Fly2040.Firmware
