import Fly2040.Lib.Steps
import Mathlib.Data.List.Induction
/-!
# Bytes as hexadecimal text

The manager prints bytes with two digits and a space each, and reads such a text back: it skips
spaces, takes two characters, and goes on. The character is looked at before the bound is, so a text
that ends in a space throws, unless the space is the second character of a pair. The position is an
unsigned number of 32 bits.
-/

namespace Fly2040.App

open Steps

/-- A space. -/
def space : UInt8 := 0x20

/-- White space of the C library. -/
def isSpace (char : UInt8) : Bool := char = 0x20 || (0x09 ≤ char && char ≤ 0x0D)

/-- Value of a hexadecimal digit. -/
def hexDigit (char : UInt8) : Option Nat :=
  if 0x30 ≤ char ∧ char ≤ 0x39 then some (char.toNat - 0x30)
  else if 0x41 ≤ char ∧ char ≤ 0x46 then some (char.toNat - 0x41 + 10)
  else if 0x61 ≤ char ∧ char ≤ 0x66 then some (char.toNat - 0x61 + 10)
  else none

/-- Value of the digits in front of a text, behind those that have been read. -/
def digitsValue (before : Nat) : List UInt8 → Nat
  | [] => before
  | char :: rest =>
    match hexDigit char with
    | some digit => digitsValue (16 * before + digit) rest
    | none => before

/-- The text behind a mark of hexadecimal digits. -/
def skipMark : List UInt8 → List UInt8
  | zero :: mark :: digit :: rest =>
    if zero = 0x30 ∧ (mark = 0x78 ∨ mark = 0x58) ∧ (hexDigit digit).isSome then digit :: rest
    else zero :: mark :: digit :: rest
  | text => text

/-- Number in front of a short text. -/
def strtol16 (text : List UInt8) : Int :=
  match text.dropWhile isSpace with
  | sign :: rest =>
    if sign = 0x2D then -digitsValue 0 (skipMark rest)
    else if sign = 0x2B then digitsValue 0 (skipMark rest)
    else digitsValue 0 (skipMark (sign :: rest))
  | [] => 0

/-- Byte of a pair of characters. -/
def pairByte (pair : List UInt8) : UInt8 := UInt8.ofInt (strtol16 pair)

/-- State of the scan. -/
inductive HexState where
  /-- The position is compared with the length. -/
  | outer (i : UInt32) (bytes : List UInt8)
  /-- The character at the position is compared with a space. -/
  | inner (i : UInt32) (bytes : List UInt8)
  /-- The bytes are returned. -/
  | returned (bytes : List UInt8)
  /-- There is no character at the position. -/
  | thrown
deriving DecidableEq

/-- A step of the scan. -/
def hexStep (hex : List UInt8) : HexState → HexState
  | .outer i bytes => if i.toNat < hex.length then .inner i bytes else .returned bytes
  | .inner i bytes =>
    match hex[i.toNat]? with
    | none => .thrown
    | some char =>
      if char = space ∧ i.toNat < hex.length then .inner (i + 1) bytes
      else if i.toNat < hex.length then
        .outer (i + 2) (bytes ++ [pairByte ((hex.drop i.toNat).take 2)])
      else .outer (i + 2) bytes
  | .returned bytes => .returned bytes
  | .thrown => .thrown

/-- A text is read as bytes. -/
def HexToBytes (hex bytes : List UInt8) : Prop :=
  Reaches (hexStep hex) (.outer 0 []) (.returned bytes)

/-- Digit of a number below sixteen. -/
def printDigit (digit : Nat) : UInt8 :=
  if digit < 10 then UInt8.ofNat (0x30 + digit) else UInt8.ofNat (0x61 + digit - 10)

/-- The two digits of a byte. -/
def printByte (byte : UInt8) : List UInt8 :=
  [printDigit (byte.toNat / 16), printDigit (byte.toNat % 16)]

/-- The text that is printed for bytes that are sent. -/
def i2cText (bytes : List UInt8) : List UInt8 := bytes.flatMap fun byte => printByte byte ++ [space]

/-- Bytes as digits, each with some spaces in front, and with some spaces behind the last one. -/
def spacedText (pairs : List (Nat × UInt8)) (behind : Nat) : List UInt8 :=
  (pairs.flatMap fun pair => List.replicate pair.1 space ++ printByte pair.2) ++
    List.replicate behind space

/-- What a scan without bounds on the position returns, unless it throws. -/
def scan : List UInt8 → Option (List UInt8)
  | [] => some []
  | [char] => if char = space then none else some [pairByte [char]]
  | char :: next :: rest =>
    if char = space then scan (next :: rest)
    else (scan rest).map fun bytes => pairByte [char, next] :: bytes

/-- Length of the run of other characters than spaces at the end of a text. -/
def endRun (hex : List UInt8) : Nat := (hex.reverse.takeWhile fun char => char ≠ space).length

/-- A text does not end in a space, or an odd number of other characters stands right before it. -/
def EndsInPair (hex : List UInt8) : Prop :=
  hex.getLast? = some space → endRun hex.dropLast % 2 = 1

section Pairs

variable {hex rest : List UInt8} {char : UInt8}

/-- What a scan has read. -/
structure Pairing where
  /-- The first character of a pair. -/
  half : Bool
  /-- A space in front of a pair. -/
  skipped : Bool

/-- One more character. -/
def Pairing.read (pairing : Pairing) (char : UInt8) : Pairing :=
  if pairing.half then ⟨false, false⟩
  else if char = space then ⟨false, true⟩
  else ⟨true, false⟩

/-- What a scan has read of a whole text. -/
def pairing (hex : List UInt8) : Pairing := hex.foldl Pairing.read ⟨false, false⟩

/-- Two characters from the first one of a pair. -/
theorem pairing_pair (dark : char ≠ space) (next : UInt8) (rest : List UInt8) :
    pairing (char :: next :: rest) = pairing rest := by
  show rest.foldl Pairing.read ((Pairing.read ⟨false, false⟩ char).read next) = _
  have one : Pairing.read ⟨false, false⟩ char = ⟨true, false⟩ := by
    rw [Pairing.read, if_neg Bool.false_ne_true, if_neg dark]
  rw [one]
  rfl

/-- A space in front of more. -/
theorem pairing_space (next : UInt8) (rest : List UInt8) :
    pairing (space :: next :: rest) = pairing (next :: rest) := rfl

/-- A scan throws exactly if it has skipped a space last. -/
theorem scan_eq_none_iff (hex : List UInt8) : scan hex = none ↔ (pairing hex).skipped = true := by
  induction hex using scan.induct with
  | case1 => exact iff_of_false nofun nofun
  | case2 => exact iff_of_true rfl rfl
  | case3 char dark =>
    have one : pairing [char] = ⟨true, false⟩ := by
      show Pairing.read ⟨false, false⟩ char = _
      rw [Pairing.read, if_neg Bool.false_ne_true, if_neg dark]
    rw [scan, if_neg dark, one]
    exact iff_of_false nofun nofun
  | case4 next rest ih =>
    rw [scan, if_pos rfl, pairing_space]
    exact ih
  | case5 char next rest dark ih =>
    rw [scan, if_neg dark, pairing_pair dark, Option.map_eq_none_iff]
    exact ih

/-- The run at the end of a text that ends in a space. -/
theorem endRun_space (front : List UInt8) : endRun (front ++ [space]) = 0 := by
  simp [endRun]

/-- The run at the end of a text that does not. -/
theorem endRun_dark (front : List UInt8) (dark : char ≠ space) :
    endRun (front ++ [char]) = endRun front + 1 := by
  simp [endRun, dark]

/-- What a scan has read is told by the end of the text. -/
theorem pairing_eq (hex : List UInt8) :
    ((pairing hex).half = true ↔ endRun hex % 2 = 1) ∧
      ((pairing hex).skipped = true ↔ ¬EndsInPair hex) := by
  induction hex using List.reverseRecOn with
  | nil => exact ⟨iff_of_false nofun nofun, iff_of_false nofun (not_not.mpr nofun)⟩
  | append_singleton front char ih =>
    have last : (front ++ [char]).getLast? = some char := List.getLast?_concat
    have init : (front ++ [char]).dropLast = front := List.dropLast_concat
    have step : pairing (front ++ [char]) = (pairing front).read char := by
      rw [pairing, List.foldl_append]
      rfl
    rw [step, EndsInPair, last, init, Option.some.injEq]
    by_cases dark : char = space
    · rw [dark, endRun_space]
      cases half : (pairing front).half with
      | true =>
        have odd := ih.1.mp half
        simp [Pairing.read, half, odd]
      | false =>
        have even : ¬endRun front % 2 = 1 := fun odd => by
          rw [ih.1.mpr odd] at half
          exact nomatch half
        simp [Pairing.read, half, even]
    · rw [endRun_dark front dark]
      cases half : (pairing front).half with
      | true =>
        have odd := ih.1.mp half
        have even : ¬(endRun front + 1) % 2 = 1 := by omega
        simp [Pairing.read, half, dark, even]
      | false =>
        have even : ¬endRun front % 2 = 1 := fun odd => by
          rw [ih.1.mpr odd] at half
          exact nomatch half
        have odd : (endRun front + 1) % 2 = 1 := by omega
        simp [Pairing.read, half, dark, odd]

/-- A scan throws exactly at a text that does not end in a pair. -/
theorem scan_eq_none (hex : List UInt8) : scan hex = none ↔ ¬EndsInPair hex :=
  (scan_eq_none_iff hex).trans (pairing_eq hex).2

end Pairs

section Steps

variable {hex front rest bytes : List UInt8} {char : UInt8}

/-- Largest number of positions, and one more. -/
abbrev positions : Nat := UInt32.size

/-- A position in front of the bound is itself. -/
theorem toNat_position {i : Nat} (small : i < positions) : (UInt32.ofNat i).toNat = i :=
  UInt32.toNat_ofNat_of_lt' small

/-- A round begins in front of the end. -/
theorem hexStep_outer {i : Nat} (bytes : List UInt8) (small : i < positions)
    (inside : i < hex.length) :
    hexStep hex (.outer (UInt32.ofNat i) bytes) = .inner (UInt32.ofNat i) bytes := by
  rw [hexStep, toNat_position small, if_pos inside]

/-- The scan returns at the end. -/
theorem hexStep_returned {i : Nat} (bytes : List UInt8) (small : i < positions)
    (outside : hex.length ≤ i) :
    hexStep hex (.outer (UInt32.ofNat i) bytes) = .returned bytes := by
  rw [hexStep, toNat_position small, if_neg (Nat.not_lt.mpr outside)]

/-- There is no character at the end. -/
theorem hexStep_thrown (small : hex.length < positions) :
    hexStep hex (.inner (UInt32.ofNat hex.length) bytes) = .thrown := by
  rw [hexStep, toNat_position small, List.getElem?_eq_none (Nat.le_refl _)]

section Front

variable (same : hex = front ++ char :: rest) (small : hex.length < positions)
include same small

/-- The character at a position. -/
theorem at_position : (UInt32.ofNat front.length).toNat = front.length ∧
    front.length < hex.length ∧ hex[front.length]? = some char := by
  have inside : front.length < hex.length := by
    rw [same, List.length_append, List.length_cons]
    omega
  refine ⟨toNat_position (Nat.lt_trans inside small), inside, ?_⟩
  rw [same, List.getElem?_append_right (Nat.le_refl _), Nat.sub_self, List.getElem?_cons_zero]

/-- A space is skipped. -/
theorem hexStep_space (bytes : List UInt8) (blank : char = space) :
    hexStep hex (.inner (UInt32.ofNat front.length) bytes) =
      .inner (UInt32.ofNat (front.length + 1)) bytes := by
  have ⟨position, inside, found⟩ := at_position same small
  rw [hexStep, position, found]
  simp only [blank, inside, and_self, if_true, UInt32.ofNat_add, UInt32.ofNat_one]

/-- Two characters are read. -/
theorem hexStep_pair (bytes : List UInt8) (dark : char ≠ space) :
    hexStep hex (.inner (UInt32.ofNat front.length) bytes) =
      .outer (UInt32.ofNat (front.length + 2)) (bytes ++ [pairByte ((char :: rest).take 2)]) := by
  have ⟨position, inside, found⟩ := at_position same small
  have behind : hex.drop front.length = char :: rest := by rw [same, List.drop_left]
  rw [hexStep, position, found]
  simp only [dark, inside, false_and, if_false, if_true, behind, UInt32.ofNat_add]
  rfl

end Front

/-- The position at which a scan ends. -/
def endPosition (hex rest : List UInt8) : Nat :=
  hex.length + if (pairing rest).half then 1 else 0

/-- Where the program gets to, by what a scan finds that ends at a position. -/
def leaving (position : Nat) (bytes : List UInt8) : Option (List UInt8) → HexState
  | some found => .outer (UInt32.ofNat position) (bytes ++ found)
  | none => .thrown

/-- A byte that is read goes behind those before it. -/
theorem leaving_map (position : Nat) (bytes : List UInt8) (byte : UInt8)
    (found : Option (List UInt8)) :
    leaving position bytes (found.map (byte :: ·)) = leaving position (bytes ++ [byte]) found := by
  cases found with
  | none => rfl
  | some found => rw [Option.map_some, leaving, leaving, List.append_cons]

/-- What the program does behind a position is what the scan does there. -/
theorem run_scan (more : rest ≠ []) (same : hex = front ++ rest) (small : hex.length < positions)
    (bytes : List UInt8) :
    Reaches (hexStep hex) (.inner (UInt32.ofNat front.length) bytes)
      (leaving (endPosition hex rest) bytes (scan rest)) := by
  induction rest using scan.induct generalizing front bytes with
  | case1 => exact absurd rfl more
  | case2 =>
    have last : front.length + 1 = hex.length := by rw [same, List.length_append]; rfl
    have skipped := hexStep_space same small bytes rfl
    rw [last] at skipped
    exact .next skipped (.next (hexStep_thrown small) .refl)
  | case3 char dark =>
    have last : front.length + 2 = endPosition hex [char] := by
      have half : (pairing [char]).half = true := by simp [pairing, Pairing.read, dark]
      rw [endPosition, if_pos half, same, List.length_append]
      rfl
    have read := hexStep_pair same small bytes dark
    rw [last] at read
    rw [scan, if_neg dark]
    exact .next read .refl
  | case4 next rest ih =>
    have same' : hex = (front ++ [space]) ++ next :: rest := by
      rw [same, List.append_assoc, List.singleton_append]
    have ih' := ih (List.cons_ne_nil _ _) same' bytes
    have position : endPosition hex (space :: next :: rest) = endPosition hex (next :: rest) := rfl
    rw [List.length_append, List.length_singleton] at ih'
    rw [scan, if_pos rfl, position]
    exact .next (hexStep_space same small bytes rfl) ih'
  | case5 char next rest dark ih =>
    have same' : hex = (front ++ [char, next]) ++ rest := by
      rw [same, List.append_assoc]
      rfl
    have length : (front ++ [char, next]).length = front.length + 2 := List.length_append
    have read := hexStep_pair same small bytes dark
    have position : endPosition hex (char :: next :: rest) = endPosition hex rest := by
      rw [endPosition, pairing_pair dark]
      rfl
    rw [scan, if_neg dark, position, leaving_map]
    cases rest with
    | nil =>
      have last : front.length + 2 = endPosition hex [] := by
        rw [← length, endPosition, same', List.append_nil]
        rfl
      rw [last] at read
      rw [scan, leaving, List.append_nil]
      exact .next read .refl
    | cons first rest =>
      have ih' := ih (List.cons_ne_nil _ _) same' (bytes ++ [pairByte [char, next]])
      have inside : front.length + 2 < hex.length := by
        rw [same', List.length_append, length, List.length_cons]
        omega
      have begin := hexStep_outer (bytes ++ [pairByte [char, next]]) (Nat.lt_trans inside small)
        inside
      rw [length] at ih'
      exact .next read (.next begin ih')

/-- A program on a text that is not shorter than the positions does not return. -/
theorem not_returned_of_long (long : positions ≤ hex.length) : ¬HexToBytes hex bytes := by
  intro returns
  have keeps : ∀ state : HexState,
      (∃ i bytes, state = .outer i bytes ∨ state = .inner i bytes) →
        ∃ i bytes, hexStep hex state = .outer i bytes ∨ hexStep hex state = .inner i bytes := by
    intro state runs
    have ⟨i, bytes, cases'⟩ := runs
    have inside : i.toNat < hex.length := Nat.lt_of_lt_of_le i.toNat_lt long
    cases cases' with
    | inl outer =>
      rw [outer, hexStep, if_pos inside]
      exact ⟨i, bytes, .inr rfl⟩
    | inr inner =>
      rw [inner, hexStep, List.getElem?_eq_getElem inside]
      simp only []
      split
      · exact ⟨_, _, .inr rfl⟩
      · exact ⟨_, _, .inl rfl⟩
  have ⟨_, _, runs⟩ := returns.kept keeps ⟨0, [], .inl rfl⟩
  cases runs with
  | inl outer => exact nomatch outer
  | inr inner => exact nomatch inner

/-- The end of the whole scan. -/
theorem endPosition_self (hex : List UInt8) :
    endPosition hex hex = hex.length + endRun hex % 2 := by
  have parity := Nat.mod_two_eq_zero_or_one (endRun hex)
  have half := (pairing_eq hex).1
  rw [endPosition]
  split
  · rename_i odd
    rw [half.mp odd]
  · rename_i even
    have zero : endRun hex % 2 = 0 := parity.resolve_right fun odd => even (half.mpr odd)
    rw [zero]

/-- The run of the program on a text that is shorter than the positions. -/
theorem run_whole (filled : hex ≠ []) (small : hex.length < positions) (bytes : List UInt8) :
    hexStep hex (.outer 0 bytes) = .inner 0 bytes ∧
      Reaches (hexStep hex) (.inner 0 bytes)
        (leaving (hex.length + endRun hex % 2) bytes (scan hex)) := by
  have run := run_scan filled (List.nil_append hex).symm small bytes
  rw [endPosition_self] at run
  exact ⟨@hexStep_outer hex 0 bytes (by decide) (List.length_pos_iff.mpr filled), run⟩

/-- A program whose scan ends behind the last position begins again. -/
theorem not_returned_of_turn {more : List UInt8} (filled : hex ≠ [])
    (small : hex.length < positions) (found : scan hex = some more)
    (turn : hex.length + endRun hex % 2 = positions) : ¬HexToBytes hex bytes := by
  have again : ∀ state : HexState, (∃ bytes, state = .outer 0 bytes) →
      ∃ back : HexState, (∃ bytes, back = .outer 0 bytes) ∧
        Reaches (hexStep hex) (hexStep hex state) back := by
    intro state start
    have ⟨bytes, start'⟩ := start
    have ⟨begin, run⟩ := run_whole filled small bytes
    rw [found, turn] at run
    rw [start', begin]
    exact ⟨_, ⟨_, rfl⟩, run⟩
  exact not_reaches_of_return again rfl (fun outside => nomatch outside) ⟨[], rfl⟩

/-- A program returns exactly what the scan finds, if the position at which the scan ends is one. -/
theorem hexToBytes_iff : HexToBytes hex bytes ↔
    scan hex = some bytes ∧ hex.length + endRun hex % 2 < positions := by
  have parity := Nat.mod_two_eq_zero_or_one (endRun hex)
  by_cases long : positions ≤ hex.length
  · refine iff_of_false (not_returned_of_long long) fun fits => ?_
    have bound := fits.2
    omega
  have small := Nat.lt_of_not_le long
  by_cases empty : hex = []
  · have nothing : HexToBytes [] [] := .next rfl .refl
    rw [empty]
    constructor
    · intro returns
      have same := returns.halted_unique nothing rfl rfl
      rw [HexState.returned.inj same]
      exact ⟨rfl, by decide⟩
    · intro fits
      rw [← Option.some.inj fits.1]
      exact nothing
  have ⟨begin, run⟩ := run_whole empty small []
  cases found : scan hex with
  | none =>
    rw [found] at run
    refine iff_of_false (fun returns => ?_) fun fits => nomatch fits.1
    have thrown : Reaches (hexStep hex) (.outer 0 []) .thrown := .next begin run
    exact nomatch returns.halted_unique thrown rfl rfl
  | some more =>
    by_cases fits : hex.length + endRun hex % 2 < positions
    · rw [found] at run
      have ends := hexStep_returned more fits (Nat.le_add_right hex.length _)
      have returns : HexToBytes hex more := .next begin (run.trans (.next ends .refl))
      constructor
      · intro returns'
        have same := returns'.halted_unique returns rfl rfl
        rw [HexState.returned.inj same]
        exact ⟨rfl, fits⟩
      · intro given
        rw [← Option.some.inj given.1]
        exact returns
    · exact iff_of_false (not_returned_of_turn empty small found (by omega))
        fun given => fits given.2

end Steps

section Texts

/-- Spaces in front of more are skipped. -/
theorem scan_spaces (count : Nat) {rest : List UInt8} (more : rest ≠ []) :
    scan (List.replicate count space ++ rest) = scan rest ∧
      pairing (List.replicate count space ++ rest) = pairing rest := by
  induction count with
  | zero => exact ⟨rfl, rfl⟩
  | succ count ih =>
    rw [List.replicate_succ, List.cons_append]
    cases next : List.replicate count space ++ rest with
    | nil => exact absurd (List.append_eq_nil_iff.mp next).2 more
    | cons char rest' =>
      rw [next] at ih
      rw [scan, if_pos rfl, pairing_space]
      exact ih

/-- Nothing but spaces throws, if there are any. -/
theorem scan_replicate (count : Nat) :
    scan (List.replicate count space) = if count = 0 then some [] else none := by
  cases count with
  | zero => rfl
  | succ count =>
    have more := (scan_spaces count (List.cons_ne_nil space [])).1
    rw [← List.replicate_succ'] at more
    exact more

/-- Each digit is printed as a digit, and each byte is read back from its digits. -/
theorem printByte_read : ∀ number < 256,
    printDigit (number / 16) ≠ space ∧
      pairByte [printDigit (number / 16), printDigit (number % 16)] = UInt8.ofNat number := by
  decide +kernel

/-- The digits of a byte are read. -/
theorem scan_printByte (byte : UInt8) (rest : List UInt8) :
    scan (printByte byte ++ rest) = (scan rest).map (byte :: ·) ∧
      pairing (printByte byte ++ rest) = pairing rest := by
  have ⟨dark, same⟩ := printByte_read byte.toNat byte.toNat_lt
  rw [UInt8.ofNat_toNat] at same
  constructor
  · show scan (printDigit (byte.toNat / 16) :: printDigit (byte.toNat % 16) :: rest) = _
    rw [scan, if_neg dark, same]
  · exact pairing_pair dark _ rest

/-- Bytes are read from their digits, unless spaces follow. -/
theorem scan_spacedText (pairs : List (Nat × UInt8)) (behind : Nat) :
    scan (spacedText pairs behind) = (if behind = 0 then some (pairs.map Prod.snd) else none) ∧
      (pairing (spacedText pairs behind)).half = false := by
  induction pairs with
  | nil =>
    refine ⟨scan_replicate behind, ?_⟩
    cases behind with
    | zero => rfl
    | succ count =>
      have more := (scan_spaces count (List.cons_ne_nil space [])).2
      rw [← List.replicate_succ'] at more
      exact congrArg Pairing.half more
  | cons pair pairs ih =>
    have text : spacedText (pair :: pairs) behind =
        List.replicate pair.1 space ++ (printByte pair.2 ++ spacedText pairs behind) := by
      simp [spacedText]
    have more : printByte pair.2 ++ spacedText pairs behind ≠ [] := List.cons_ne_nil _ _
    have ⟨skipped, skipped'⟩ := scan_spaces pair.1 more
    have ⟨read, read'⟩ := scan_printByte pair.2 (spacedText pairs behind)
    rw [text, skipped, skipped', read, read', ih.1]
    refine ⟨?_, ih.2⟩
    split <;> rfl

/-- What is printed for bytes are their digits, with a space between two and behind the last one. -/
theorem i2cText_eq (byte : UInt8) (bytes : List UInt8) :
    i2cText (byte :: bytes) = spacedText ((0, byte) :: bytes.map fun byte => (1, byte)) 1 := by
  have rest : [space] ++ i2cText bytes = spacedText (bytes.map fun byte => (1, byte)) 1 := by
    induction bytes with
    | nil => rfl
    | cons byte bytes ih =>
      have text : i2cText (byte :: bytes) = printByte byte ++ ([space] ++ i2cText bytes) := by
        simp [i2cText]
      rw [text, ih]
      simp [spacedText]
  have text : i2cText (byte :: bytes) = printByte byte ++ ([space] ++ i2cText bytes) := by
    simp [i2cText]
  rw [text, rest]
  simp [spacedText]

end Texts

/-- A text is read without throwing exactly if it ends in a pair, and positions are enough for it;
bytes are read back from their digits exactly if no space follows the last ones. -/
theorem hexToBytes_returns_iff (hex : List UInt8) (pairs : List (Nat × UInt8)) (behind : Nat) :
    ((∃ bytes, HexToBytes hex bytes) ↔
      EndsInPair hex ∧ hex.length + endRun hex % 2 < positions) ∧
    (HexToBytes (spacedText pairs behind) (pairs.map Prod.snd) ↔
      behind = 0 ∧ (spacedText pairs behind).length < positions) := by
  constructor
  · simp only [hexToBytes_iff]
    constructor
    · intro returns
      have ⟨bytes, found, fits⟩ := returns
      refine ⟨not_not.mp fun alone => ?_, fits⟩
      rw [(scan_eq_none hex).mpr alone] at found
      exact nomatch found
    · intro given
      cases found : scan hex with
      | none => exact absurd given.1 ((scan_eq_none hex).mp found)
      | some bytes => exact ⟨bytes, rfl, given.2⟩
  · have ⟨found, half⟩ := scan_spacedText pairs behind
    have even : endRun (spacedText pairs behind) % 2 = 0 := by
      apply (Nat.mod_two_eq_zero_or_one _).resolve_right
      intro odd
      rw [(pairing_eq _).1.mpr odd] at half
      exact nomatch half
    rw [hexToBytes_iff, found, even, Nat.add_zero]
    by_cases last : behind = 0
    · rw [if_pos last]
      exact and_congr_left fun _ => iff_of_true rfl last
    · rw [if_neg last]
      exact and_congr_left fun _ => iff_of_false nofun last

/-- What is printed for a single zero is not read back. -/
theorem printed_zero_throws :
    i2cText [0] = [0x30, 0x30, 0x20] ∧ Reaches (hexStep (i2cText [0])) (.outer 0 []) .thrown ∧
      ¬∃ bytes, HexToBytes (i2cText [0]) bytes := by
  have thrown : Reaches (hexStep (i2cText [0])) (.outer 0 []) .thrown :=
    ⟨5, by decide +kernel⟩
  refine ⟨by decide, thrown, fun returns => ?_⟩
  have ⟨bytes, returned⟩ := returns
  exact nomatch returned.halted_unique thrown rfl rfl

end Fly2040.App
