import Fly2040.Lib.Bits
/-!
# Codes of the light

The firmware ends with a code that it shows with its light: long and short flashes, one for each
digit, and all of them three times, with a longer pause between. Whoever watches the light and knows
nothing else can tell the code, and how many digits it has.
-/

namespace Fly2040.Firmware

open Bits

/-- What the firmware does with its light. -/
inductive Show where
  /-- The light gets a colour. -/
  | putPixel (color : UInt32)
  /-- Some milliseconds pass. -/
  | sleepMs (ms : Nat)
deriving DecidableEq

/-- Milliseconds of a digit. -/
def blinkTime : Nat := 700

/-- A short flash. -/
def shortTime : Nat := blinkTime * 2 / 10

/-- The pause on both sides of a short flash. -/
def shortPauseTime : Nat := (blinkTime - shortTime) / 2

/-- A long flash. -/
def longTime : Nat := blinkTime * 8 / 10

/-- The pause on both sides of a long flash. -/
def longPauseTime : Nat := (blinkTime - longTime) / 2

/-- The pause between two repeats. -/
def pauseBetween : Nat := 2000

/-- The pause before a code. -/
def pauseBefore : Nat := 750

/-- How often a code is shown. -/
def codeRepeats : Nat := 3

/-- Yellow. -/
def pixYel : UInt32 := 0x151500

/-- White. -/
def pixWhi : UInt32 := 0x111111

section Display

variable (err bits : UInt32)

/-- A digit is shown with a long flash. -/
def isLong (i : Nat) : Bool := err &&& (1 <<< (bits - UInt32.ofNat i - 1)) ≠ 0

/-- The pause on both sides of the flash of a digit. -/
def flashPause (i : Nat) : Nat := if isLong err bits i then longPauseTime else shortPauseTime

/-- A digit of a repeat. -/
def displayDigit (j i : Nat) : List Show :=
  let success := bits = 1 ∧ isLong err bits i = false
  let last := i = bits.toNat - 1
  [.sleepMs (flashPause err bits i), .putPixel (if success then pixWhi else pixYel),
    .sleepMs (if isLong err bits i then longTime else if success then shortTime * 2
      else shortTime), .putPixel 0] ++
  (if ¬last ∨ j ≠ codeRepeats - 1 then [.sleepMs (flashPause err bits i)] else []) ++
  if last ∧ j ≠ codeRepeats - 1 then [.sleepMs pauseBetween] else []

/-- A repeat of a code. -/
def displayRepeat (j : Nat) : List Show := (List.range bits.toNat).flatMap (displayDigit err bits j)

/-- Show a code. -/
def displayCode : List Show :=
  (if bits ≠ 1 then [.putPixel 0, .sleepMs pauseBefore] else []) ++
  -- first write case, do not repeat this kind of error code
  (List.range (if bits = 1 then 1 else codeRepeats)).flatMap (displayRepeat err bits) ++
  [.sleepMs longTime]

end Display

/-- What a watcher of the light tells: for how long the light has been on or off, and the flashes
since the last long pause; a flash is long if it lasts for half a second. -/
def watch : (lit : Bool) → (time : Nat) → (group : List Bool) → List Show → List (List Bool)
  | _, _, group, [] => [group]
  | lit, time, group, .sleepMs ms :: rest => watch lit (time + ms) group rest
  | true, time, group, .putPixel color :: rest =>
    if color = 0 then watch false 0 (group ++ [decide (500 ≤ time)]) rest
    else watch true time group rest
  | false, time, group, .putPixel color :: rest =>
    if color = 0 then watch false time group rest
    else if 1000 ≤ time ∧ group ≠ [] then group :: watch true 0 [] rest
    else watch true 0 group rest

/-- The digits of a code, the highest one first. -/
def digits (err bits : UInt32) : List Bool :=
  (List.range bits.toNat).map fun i => err.toBitVec.getLsbD (bits.toNat - 1 - i)

section Watching

variable {err bits : UInt32}

/-- The digit of a flash. -/
theorem isLong_eq {i : Nat} (inside : i < bits.toNat) (few : bits.toNat < 32) :
    isLong err bits i = err.toBitVec.getLsbD (bits.toNat - 1 - i) := by
  have index : (UInt32.ofNat i).toNat = i := UInt32.toNat_ofNat_of_lt' (by
    show i < 4294967296
    omega)
  have before : UInt32.ofNat i ≤ bits := UInt32.le_iff_toNat_le.mpr (by omega)
  have left : (bits - UInt32.ofNat i).toNat = bits.toNat - i := by
    rw [UInt32.toNat_sub_of_le _ _ before, index]
  have some : (1 : UInt32) ≤ bits - UInt32.ofNat i := UInt32.le_iff_toNat_le.mpr (by
    rw [left]
    show 1 ≤ bits.toNat - i
    omega)
  have place : (bits - UInt32.ofNat i - 1).toNat = bits.toNat - 1 - i := by
    rw [UInt32.toNat_sub_of_le _ _ some, left]
    show bits.toNat - i - 1 = _
    omega
  have shifted : ((1 : UInt32) <<< (bits - UInt32.ofNat i - 1)).toBitVec =
      BitVec.twoPow 32 (bits.toNat - 1 - i) := by
    have amount : ((bits - UInt32.ofNat i - 1).toBitVec % 32).toNat = bits.toNat - 1 - i := by
      rw [BitVec.toNat_umod]
      show (bits - UInt32.ofNat i - 1).toNat % 32 = _
      rw [place, Nat.mod_eq_of_lt (by omega)]
    rw [UInt32.toBitVec_shiftLeft, BitVec.shiftLeft_eq', amount, BitVec.twoPow_eq]
    rfl
  have digit : (err &&& (1 <<< (bits - UInt32.ofNat i - 1))).toBitVec =
      if err.toBitVec.getLsbD (bits.toNat - 1 - i) then BitVec.twoPow 32 (bits.toNat - 1 - i)
      else 0 := by
    rw [UInt32.toBitVec_and, shifted, BitVec.and_twoPow]
    rfl
  rw [isLong]
  cases same : err.toBitVec.getLsbD (bits.toNat - 1 - i) with
  | true =>
    rw [same, if_pos rfl] at digit
    apply decide_eq_true
    intro zero
    rw [zero] at digit
    have power := congrArg BitVec.toNat digit
    rw [BitVec.toNat_twoPow_of_lt (by omega)] at power
    exact absurd power (Nat.two_pow_pos _).ne
  | false =>
    rw [same, if_neg Bool.false_ne_true] at digit
    exact decide_eq_false (not_not_intro (UInt32.toBitVec_inj.mp digit))

/-- A pause while the light is off. -/
theorem watch_pause (condition : Prop) [Decidable condition] (ms time : Nat) (group : List Bool)
    (rest : List Show) :
    watch false time group ((if condition then [.sleepMs ms] else []) ++ rest) =
      watch false (time + if condition then ms else 0) group rest := by
  split <;> rfl

/-- A flash. -/
theorem watch_flash {color : UInt32} (lit : color ≠ 0) (time pause ms : Nat) (group : List Bool)
    (rest : List Show) :
    watch false time group (.sleepMs pause :: .putPixel color :: .sleepMs ms :: .putPixel 0 ::
        rest) =
      if 1000 ≤ time + pause ∧ group ≠ [] then
        group :: watch false 0 [decide (500 ≤ ms)] rest
      else watch false 0 (group ++ [decide (500 ≤ ms)]) rest := by
  rw [watch, watch, if_neg lit]
  split <;> rw [watch, watch, if_pos rfl, Nat.zero_add]
  rfl

/-- The pause behind the flash of a digit. -/
def pauseBehind (err bits : UInt32) (j i : Nat) : Nat :=
  (if ¬i = bits.toNat - 1 ∨ j ≠ codeRepeats - 1 then flashPause err bits i else 0) +
    if i = bits.toNat - 1 ∧ j ≠ codeRepeats - 1 then pauseBetween else 0

/-- What a digit shows. -/
theorem watch_digit (j i time : Nat) (group : List Bool) (rest : List Show) :
    watch false time group (displayDigit err bits j i ++ rest) =
      if 1000 ≤ time + flashPause err bits i ∧ group ≠ [] then
        group :: watch false (pauseBehind err bits j i) [isLong err bits i] rest
      else watch false (pauseBehind err bits j i) (group ++ [isLong err bits i]) rest := by
  have lit (success : Prop) [Decidable success] : (if success then pixWhi else pixYel) ≠ 0 := by
    split <;> decide
  have long : decide (500 ≤ if isLong err bits i then longTime
      else if bits = 1 ∧ isLong err bits i = false then shortTime * 2 else shortTime) =
      isLong err bits i := by
    cases isLong err bits i with
    | true => rfl
    | false =>
      rw [if_neg Bool.false_ne_true]
      split <;> rfl
  rw [displayDigit, List.append_assoc, List.append_assoc, List.cons_append, List.cons_append,
    List.cons_append, List.cons_append, List.nil_append, watch_flash (lit _), long, watch_pause,
    watch_pause, watch_pause, watch_pause, Nat.zero_add]
  rfl

/-- The pause before the flash of a digit is too short to end a repeat. -/
theorem flashPause_le (i : Nat) : flashPause err bits i ≤ 280 := by
  rw [flashPause]
  split <;> decide

/-- The last digits of a repeat belong to it. -/
theorem watch_digits (j start count time : Nat) (rest : List Show) {group : List Bool}
    (soon : time ≤ 280) (all : start + count = bits.toNat) (some : 0 < count) :
    watch false time group ((List.range' start count).flatMap (displayDigit err bits j) ++ rest) =
      watch false (pauseBehind err bits j (bits.toNat - 1))
        (group ++ (List.range' start count).map (isLong err bits)) rest := by
  induction count generalizing start time group with
  | zero => cases some
  | succ count ih =>
    have short := @flashPause_le err bits start
    have same : ¬(1000 ≤ time + flashPause err bits start ∧ group ≠ []) := by omega
    rw [List.range'_succ, List.flatMap_cons, List.append_assoc, watch_digit, if_neg same]
    cases count with
    | zero =>
      have last : start = bits.toNat - 1 := by omega
      rw [last]
      rfl
    | succ count =>
      have more : ¬start = bits.toNat - 1 := by omega
      have soon' : pauseBehind err bits j start ≤ 280 := by
        rw [pauseBehind, if_pos (.inl more), if_neg (fun both => more both.1)]
        exact short
      rw [ih (start + 1) _ soon' (by omega) (Nat.succ_pos _), List.map_cons, List.append_assoc]
      rfl

/-- The digits of a code are those of its flashes. -/
theorem digits_eq (few : bits.toNat < 32) :
    digits err bits = (List.range bits.toNat).map (isLong err bits) := by
  apply List.map_congr_left
  intro i inside
  exact (isLong_eq (List.mem_range.mp inside) few).symm

/-- A repeat of a code begins a new group, unless nothing has been shown before. -/
theorem watch_repeat (j time : Nat) {group : List Bool} (rest : List Show)
    (some : 0 < bits.toNat) (few : bits.toNat < 32) (late : group = [] ∨ 1000 ≤ time) :
    watch false time group (displayRepeat err bits j ++ rest) =
      (if group = [] then [] else [group]) ++
        watch false (pauseBehind err bits j (bits.toNat - 1)) (digits err bits) rest := by
  have first (rest : List Show) : watch false time group (displayDigit err bits j 0 ++ rest) =
      (if group = [] then [] else [group]) ++
        watch false (pauseBehind err bits j 0) [isLong err bits 0] rest := by
    rw [watch_digit]
    by_cases none : group = []
    · rw [if_neg (fun both => both.2 none), if_pos none, none]
      rfl
    · have beyond : 1000 ≤ time + flashPause err bits 0 ∧ group ≠ [] :=
        ⟨(late.resolve_left none).trans (Nat.le_add_right _ _), none⟩
      rw [if_pos beyond, if_neg none]
      rfl
  have ⟨left, size⟩ : ∃ left, bits.toNat = left + 1 := ⟨bits.toNat - 1, by omega⟩
  rw [digits_eq few, displayRepeat, size, List.range_eq_range', List.range'_succ,
    List.flatMap_cons, List.append_assoc, first]
  congr 1
  cases left with
  | zero => rfl
  | succ left =>
    have more : ¬0 = bits.toNat - 1 := by omega
    have short := @flashPause_le err bits 0
    have soon : pauseBehind err bits j 0 ≤ 280 := by
      rw [pauseBehind, if_pos (.inl more), if_neg (fun both => more both.1)]
      exact short
    rw [watch_digits j (0 + 1) (left + 1) _ rest soon (by omega) (Nat.succ_pos _), size]
    rfl

/-- Behind all repeats but the last one, the pause is long. -/
theorem pauseBehind_repeat {j : Nat} (more : j ≠ codeRepeats - 1) :
    1000 ≤ pauseBehind err bits j (bits.toNat - 1) := by
  have long : 1000 ≤ pauseBetween := by decide
  rw [pauseBehind, if_pos (.inr more), if_pos ⟨rfl, more⟩]
  exact long.trans (Nat.le_add_left _ _)

/-- Whoever watches the light sees the digits of the code, once if the code has one digit and three
times if it has more. -/
theorem watch_displayCode (err bits : UInt32) (some : 0 < bits.toNat) (few : bits.toNat < 32) :
    watch false 0 [] (displayCode err bits) =
      List.replicate (if bits = 1 then 1 else codeRepeats) (digits err bits) := by
  have length : (digits err bits).length = bits.toNat := by
    rw [digits, List.length_map, List.length_range]
  have shown : digits err bits ≠ [] := fun none => by
    rw [none] at length
    exact absurd length some.ne
  by_cases one : bits = 1
  · rw [displayCode, if_neg (not_not_intro one), if_pos one]
    show watch false 0 [] (displayRepeat err bits 0 ++ [] ++ [.sleepMs longTime]) = _
    rw [List.append_nil, watch_repeat 0 0 _ some few (.inl rfl), if_pos rfl]
    rfl
  · rw [displayCode, if_pos one, if_neg one]
    show watch false pauseBefore [] ((displayRepeat err bits 0 ++ (displayRepeat err bits 1 ++
      (displayRepeat err bits 2 ++ []))) ++ [.sleepMs longTime]) = _
    rw [List.append_nil, List.append_assoc, List.append_assoc,
      watch_repeat 0 _ _ some few (.inl rfl), if_pos rfl, List.nil_append,
      watch_repeat 1 _ _ some few (.inr (pauseBehind_repeat (by decide))), if_neg shown,
      watch_repeat 2 _ _ some few (.inr (pauseBehind_repeat (by decide))), if_neg shown]
    rfl

/-- Codes with the same digits are the same. -/
theorem digits_injective {err' bits' : UInt32} (fits : err.toNat < 2 ^ bits.toNat)
    (fits' : err'.toNat < 2 ^ bits'.toNat) (same : digits err bits = digits err' bits') :
    err = err' ∧ bits = bits' := by
  have length (err bits : UInt32) : (digits err bits).length = bits.toNat := by
    rw [digits, List.length_map, List.length_range]
  have count := congrArg List.length same
  rw [length, length] at count
  refine ⟨UInt32.toNat_inj.mp (Nat.eq_of_testBit_eq fun place => ?_), UInt32.toNat_inj.mp count⟩
  by_cases inside : place < bits.toNat
  · have digit := congrArg (·[bits.toNat - 1 - place]?) same
    rw [digits, digits, ← count] at digit
    simp only [List.getElem?_map] at digit
    rw [List.getElem?_range (by omega), Option.map_some, Option.map_some,
      show bits.toNat - 1 - (bits.toNat - 1 - place) = place by omega] at digit
    exact Option.some.inj digit
  · have beyond : 2 ^ bits.toNat ≤ 2 ^ place :=
      Nat.pow_le_pow_right Nat.two_pos (Nat.le_of_not_lt inside)
    rw [Nat.testBit_lt_two_pow (fits.trans_le beyond),
      Nat.testBit_lt_two_pow ((count ▸ fits').trans_le beyond)]

/-- Whoever watches the light sees the digits of the code, once if the code has one digit and three
times if it has more; and codes that differ in their digits or in the number of them look
different. -/
theorem code_told (err bits : UInt32) (some : 0 < bits.toNat) (few : bits.toNat < 32)
    (fits : err.toNat < 2 ^ bits.toNat) :
    watch false 0 [] (displayCode err bits) =
        List.replicate (if bits = 1 then 1 else codeRepeats) (digits err bits) ∧
      ∀ err' bits' : UInt32, 0 < bits'.toNat → bits'.toNat < 32 → err'.toNat < 2 ^ bits'.toNat →
        watch false 0 [] (displayCode err bits) = watch false 0 [] (displayCode err' bits') →
        err = err' ∧ bits = bits' := by
  refine ⟨watch_displayCode err bits some few, ?_⟩
  intro err' bits' some' few' fits' same
  have head (err bits : UInt32) : (List.replicate (if bits = 1 then 1 else codeRepeats)
      (digits err bits)).head? = Option.some (digits err bits) := by
    split <;> rfl
  have first := congrArg List.head? same
  rw [watch_displayCode err bits some few, watch_displayCode err' bits' some' few', head, head]
    at first
  exact digits_injective fits fits' (Option.some.inj first)

/-- The code of an eMMC that does not work is told. -/
theorem emmc_code_told :
    watch false 0 [] (displayCode 4 3) = List.replicate 3 (digits 4 3) ∧
      ∀ err' bits' : UInt32, 0 < bits'.toNat → bits'.toNat < 32 → err'.toNat < 2 ^ bits'.toNat →
        watch false 0 [] (displayCode 4 3) = watch false 0 [] (displayCode err' bits') →
        4 = err' ∧ 3 = bits' :=
  code_told 4 3 (by decide) (by decide) (by decide)

end Watching

end Fly2040.Firmware
