import Mathlib.Data.List.Basic
/-!
# JSON values and their text

Values, the text of a value in a layout, and the tokens of a text: white space, strings with their
escape sequences, and numbers. Numbers with a fraction or an exponent are of a type of their own,
whose text is a parameter. A token that is followed by something that cannot continue it is read
back from its text.
-/

namespace Fly2040.Json

/-- Bytes of a text of plain characters. -/
def ascii (text : String) : List UInt8 := text.toList.map fun char => UInt8.ofNat char.toNat

/-- A value. -/
inductive Value (φ : Type) where
  /-- Nothing. -/
  | null
  /-- A truth value. -/
  | bool (flag : Bool)
  /-- A number that is not negative, without fraction and exponent. -/
  | unsigned (number : Nat)
  /-- A number with a sign, without fraction and exponent. -/
  | integer (number : Int)
  /-- A number with a fraction or an exponent. -/
  | float (number : φ)
  /-- A string. -/
  | string (text : List UInt8)
  /-- A list. -/
  | array (elements : List (Value φ))
  /-- Values by their keys, in the order of the keys. -/
  | object (members : List (List UInt8 × Value φ))

/-- Text of numbers with a fraction or an exponent. -/
structure Numbers (φ : Type) where
  /-- Text of a number. -/
  print : φ → List UInt8
  /-- Number of a text, if it is finite. -/
  read : List UInt8 → Option φ

section Whitespace

/-- White space. -/
def isBlank (byte : UInt8) : Bool := byte = 0x20 || byte = 0x09 || byte = 0x0A || byte = 0x0D

/-- The text behind white space. -/
def skip : List UInt8 → List UInt8
  | [] => []
  | byte :: rest => if isBlank byte then skip rest else byte :: rest

/-- White space in front of a text is skipped. -/
theorem skip_append {blank : List UInt8} (blanks : ∀ byte ∈ blank, isBlank byte = true)
    (rest : List UInt8) : skip (blank ++ rest) = skip rest := by
  induction blank with
  | nil => rfl
  | cons byte blank ih =>
    rw [List.cons_append, skip, if_pos (blanks byte (List.mem_cons_self ..))]
    exact ih fun byte member => blanks byte (List.mem_cons_of_mem _ member)

/-- A text that starts with something else stays. -/
theorem skip_cons {byte : UInt8} (dark : isBlank byte = false) (rest : List UInt8) :
    skip (byte :: rest) = byte :: rest := by
  rw [skip, if_neg (by rw [dark]; exact Bool.false_ne_true)]

end Whitespace

section Decimal

/-- Digits of a number. -/
def decimal (number : Nat) : List UInt8 :=
  if number < 10 then [UInt8.ofNat (0x30 + number)]
  else decimal (number / 10) ++ [UInt8.ofNat (0x30 + number % 10)]

/-- Number of some digits. -/
def digitsValue (digits : List UInt8) : Nat :=
  digits.foldl (fun value digit => 10 * value + (digit.toNat - 0x30)) 0

/-- The digits of a number are read back. -/
theorem digitsValue_decimal (number : Nat) : digitsValue (decimal number) = number := by
  have digit : ∀ value < 10, (UInt8.ofNat (0x30 + value)).toNat - 0x30 = value := by decide
  induction number using decimal.induct with
  | case1 number small =>
    rw [decimal, if_pos small]
    change 10 * 0 + ((UInt8.ofNat (0x30 + number)).toNat - 0x30) = number
    rw [digit _ small, Nat.mul_zero, Nat.zero_add]
  | case2 number large ih =>
    rw [decimal, if_neg large, digitsValue, List.foldl_append]
    change 10 * digitsValue (decimal (number / 10)) + _ = number
    rw [ih, digit _ (Nat.mod_lt _ (by decide)), Nat.div_add_mod]

/-- A number below a power of ten has as many digits at most. -/
theorem decimal_length {number count : Nat} (positive : 0 < count)
    (small : number < Nat.pow 10 count) : (decimal number).length ≤ count := by
  induction count generalizing number with
  | zero => exact absurd positive (Nat.lt_irrefl 0)
  | succ count ih =>
    rw [decimal]
    by_cases single : number < 10
    · rw [if_pos single]
      exact Nat.succ_le_succ (Nat.zero_le count)
    · rw [if_neg single, List.length_append, List.length_singleton]
      have more : 0 < count := by
        refine Nat.pos_of_ne_zero fun none => single ?_
        rwa [none] at small
      have tail : number / 10 < Nat.pow 10 count := by
        change number < Nat.pow 10 count * 10 at small
        omega
      exact Nat.succ_le_succ (ih more tail)

end Decimal

section Number

/-- Where the scanner of a number stands. -/
inductive NumberState where
  /-- Before the number. -/
  | init
  /-- After the sign. -/
  | minus
  /-- After a leading zero. -/
  | zero
  /-- In the integral part. -/
  | any1
  /-- After the point. -/
  | decimal1
  /-- In the fraction. -/
  | decimal2
  /-- After the letter of the exponent. -/
  | exponent
  /-- After the sign of the exponent. -/
  | sign
  /-- In the exponent. -/
  | any2
deriving DecidableEq

/-- A digit. -/
def isDigit (byte : UInt8) : Bool := 0x30 ≤ byte && byte ≤ 0x39

/-- The scanner after one more byte, if it belongs to the number. -/
def NumberState.step (state : NumberState) (byte : UInt8) : Option NumberState :=
  match state with
  | init =>
    if byte = 0x2D then some minus else if byte = 0x30 then some zero
    else if isDigit byte then some any1 else none
  | minus => if byte = 0x30 then some zero else if isDigit byte then some any1 else none
  | zero =>
    if byte = 0x2E then some decimal1
    else if byte = 0x65 || byte = 0x45 then some exponent else none
  | any1 =>
    if isDigit byte then some any1 else if byte = 0x2E then some decimal1
    else if byte = 0x65 || byte = 0x45 then some exponent else none
  | decimal1 => if isDigit byte then some decimal2 else none
  | decimal2 =>
    if isDigit byte then some decimal2
    else if byte = 0x65 || byte = 0x45 then some exponent else none
  | exponent =>
    if byte = 0x2B || byte = 0x2D then some sign else if isDigit byte then some any2 else none
  | sign => if isDigit byte then some any2 else none
  | any2 => if isDigit byte then some any2 else none

/-- The bytes of a number, the state of the scanner behind them, and what follows. -/
def scanNumber (state : NumberState) : List UInt8 → List UInt8 × NumberState × List UInt8
  | [] => ([], state, [])
  | byte :: rest =>
    match state.step byte with
    | none => ([], state, byte :: rest)
    | some next =>
      let (token, last, rest) := scanNumber next rest
      (byte :: token, last, rest)

/-- What follows cannot continue a number. -/
def EndsNumber (rest : List UInt8) : Prop := ∀ byte ∈ rest.head?, ∀ state : NumberState,
  state ≠ .init → state ≠ .minus → state.step byte = none

/-- Scanning goes on behind what belongs to the number. -/
theorem scanNumber_append {left right token rest : List UInt8} {state middle last : NumberState}
    (scanned : scanNumber state left = (left, middle, []))
    (goes : scanNumber middle right = (token, last, rest)) :
    scanNumber state (left ++ right) = (left ++ token, last, rest) := by
  induction left generalizing state with
  | nil =>
    obtain rfl : state = middle := congrArg (fun result => result.2.1) scanned
    exact goes
  | cons byte left ih =>
    rw [scanNumber] at scanned
    rw [List.cons_append, scanNumber]
    cases step : state.step byte with
    | none =>
      rw [step] at scanned
      exact absurd (congrArg Prod.fst scanned) (by simp)
    | some next =>
      rw [step] at scanned
      have first := congrArg Prod.fst scanned
      have others := congrArg Prod.snd scanned
      have tail : scanNumber next left = (left, middle, []) :=
        Prod.ext (List.cons.inj first).2 others
      simp only [ih tail, List.cons_append]

/-- Scanning stops at what cannot continue a number. -/
theorem scanNumber_ends {rest : List UInt8} (ends : EndsNumber rest) {state : NumberState}
    (started : state ≠ .init) (unsigned : state ≠ .minus) :
    scanNumber state rest = ([], state, rest) := by
  cases rest with
  | nil => rfl
  | cons byte rest =>
    have stops := ends byte rfl state started unsigned
    rw [scanNumber, stops]

/-- A number is scanned as it is alone, if what follows cannot continue it. -/
theorem scanNumber_token {token rest : List UInt8} {last : NumberState}
    (scanned : scanNumber .init token = (token, last, [])) (started : last ≠ .init)
    (unsigned : last ≠ .minus) (ends : EndsNumber rest) :
    scanNumber .init (token ++ rest) = (token, last, rest) := by
  have whole := scanNumber_append scanned (scanNumber_ends ends started unsigned)
  rwa [List.append_nil] at whole

/-- Digits of a number are scanned from before it or behind its sign. -/
theorem scanNumber_decimal {state : NumberState} (start : state = .init ∨ state = .minus)
    (number : Nat) : scanNumber state (decimal number) =
      (decimal number, if number = 0 then .zero else .any1, []) := by
  induction number using decimal.induct with
  | case1 number small =>
    rw [decimal, if_pos small]
    rcases start with rfl | rfl
    · revert number
      decide
    · revert number
      decide
  | case2 number large ih =>
    have digit : ∀ value < 10, scanNumber .any1 [UInt8.ofNat (0x30 + value)] =
        ([UInt8.ofNat (0x30 + value)], .any1, []) := by decide
    rw [if_neg (by omega)] at ih
    rw [decimal, if_neg large, if_neg (by omega)]
    exact scanNumber_append ih (digit _ (Nat.mod_lt _ (by decide)))

variable {φ : Type} (numbers : Numbers φ)

/-- Read a number. -/
def readNumber (bytes : List UInt8) : Option (Value φ × List UInt8) :=
  let (token, last, rest) := scanNumber .init bytes
  let float := (numbers.read token).map fun number => (Value.float number, rest)
  match last with
  | .zero | .any1 =>
    -- numbers that are too large are read as floats
    if token.head? = some 0x2D then
      if digitsValue token.tail ≤ UInt64.size / 2 then some (.integer (-digitsValue token.tail), rest)
      else float
    else if digitsValue token < UInt64.size then some (.unsigned (digitsValue token), rest)
    else float
  | .decimal2 | .any2 => float
  | _ => none

/-- The text of a number is one with a fraction or an exponent, and the number is read back. -/
structure Numbers.Exact (number : φ) : Prop where
  /-- The text is a number with a fraction or an exponent. -/
  scanned : ∃ last, (last = NumberState.decimal2 ∨ last = .any2) ∧
    scanNumber .init (numbers.print number) = (numbers.print number, last, [])
  /-- The number is read back. -/
  read : numbers.read (numbers.print number) = some number

variable {numbers} {rest : List UInt8}

/-- A number with a fraction or an exponent is read back. -/
theorem readNumber_float {number : φ} (exact : numbers.Exact number) (ends : EndsNumber rest) :
    readNumber numbers (numbers.print number ++ rest) = some (.float number, rest) := by
  obtain ⟨last, kind, scanned⟩ := exact.scanned
  unfold readNumber
  rcases kind with rfl | rfl
  · rw [scanNumber_token scanned nofun nofun ends]
    simp only [exact.read, Option.map_some]
  · rw [scanNumber_token scanned nofun nofun ends]
    simp only [exact.read, Option.map_some]

/-- The first byte of a number is a digit. -/
theorem decimal_head (number : Nat) :
    ∃ digit rest, decimal number = digit :: rest ∧ isDigit digit = true := by
  have digit : ∀ value < 10, isDigit (UInt8.ofNat (0x30 + value)) = true := by decide
  induction number using decimal.induct with
  | case1 number small =>
    rw [decimal, if_pos small]
    exact ⟨_, _, rfl, digit number small⟩
  | case2 number large ih =>
    obtain ⟨first, rest, same, isDigit⟩ := ih
    rw [decimal, if_neg large, same]
    exact ⟨first, _, rfl, isDigit⟩

/-- A number has no sign. -/
theorem decimal_unsigned (number : Nat) : (decimal number).head? ≠ some 0x2D := by
  obtain ⟨digit, rest, same, isDigit⟩ := decimal_head number
  rw [same]
  intro sign
  obtain rfl := Option.some.inj sign
  exact absurd isDigit (by decide)

/-- Digits of a number are scanned as a number without fraction and exponent. -/
theorem scanNumber_integral {state : NumberState} (start : state = .init ∨ state = .minus)
    (number : Nat) : ∃ last, (last = NumberState.zero ∨ last = .any1) ∧
      scanNumber state (decimal number) = (decimal number, last, []) := by
  refine ⟨if number = 0 then .zero else .any1, ?_, scanNumber_decimal start number⟩
  by_cases zero : number = 0
  · exact .inl (if_pos zero)
  · exact .inr (if_neg zero)

/-- A number without fraction and exponent is not only a sign. -/
theorem integral_ne {last : NumberState} (integral : last = .zero ∨ last = .any1) :
    last ≠ .init ∧ last ≠ .minus := by
  rcases integral with rfl | rfl
  · decide
  · decide

/-- A number that is not negative is read back. -/
theorem readNumber_unsigned {number : Nat} (small : number < UInt64.size) (ends : EndsNumber rest) :
    readNumber numbers (decimal number ++ rest) = some (.unsigned number, rest) := by
  obtain ⟨last, integral, scanned⟩ := scanNumber_integral (.inl rfl) number
  obtain ⟨started, unsigned⟩ := integral_ne integral
  have whole := scanNumber_token scanned started unsigned ends
  rw [readNumber, whole]
  rcases integral with rfl | rfl
  · simp only [decimal_unsigned, if_false, digitsValue_decimal, if_pos small]
  · simp only [decimal_unsigned, if_false, digitsValue_decimal, if_pos small]

/-- A number with a sign is read back. -/
theorem readNumber_integer {number : Nat} (small : number ≤ UInt64.size / 2)
    (ends : EndsNumber rest) :
    readNumber numbers (0x2D :: (decimal number ++ rest)) = some (.integer (-number), rest) := by
  obtain ⟨last, integral, digits⟩ := scanNumber_integral (.inr rfl) number
  obtain ⟨started, unsigned⟩ := integral_ne integral
  have sign : scanNumber .init [0x2D] = ([0x2D], .minus, []) := by decide
  have scanned := scanNumber_append sign digits
  have whole := scanNumber_token scanned started unsigned ends
  rw [List.singleton_append] at whole
  rw [← List.cons_append, readNumber, whole]
  rcases integral with rfl | rfl
  · simp only [List.head?_cons, if_true, List.tail_cons, digitsValue_decimal, if_pos small]
  · simp only [List.head?_cons, if_true, List.tail_cons, digitsValue_decimal, if_pos small]

end Number

section Strings

/-- Ranges of the bytes behind the first one of a character. -/
def tailRanges (byte : UInt8) : Option (List (UInt8 × UInt8)) :=
  if 0xC2 ≤ byte && byte ≤ 0xDF then some [(0x80, 0xBF)]
  else if byte = 0xE0 then some [(0xA0, 0xBF), (0x80, 0xBF)]
  else if byte = 0xED then some [(0x80, 0x9F), (0x80, 0xBF)]
  else if 0xE1 ≤ byte && byte ≤ 0xEF then some [(0x80, 0xBF), (0x80, 0xBF)]
  else if byte = 0xF0 then some [(0x90, 0xBF), (0x80, 0xBF), (0x80, 0xBF)]
  else if 0xF1 ≤ byte && byte ≤ 0xF3 then some [(0x80, 0xBF), (0x80, 0xBF), (0x80, 0xBF)]
  else if byte = 0xF4 then some [(0x80, 0x8F), (0x80, 0xBF), (0x80, 0xBF)]
  else none

/-- Bytes in ranges, and what follows. -/
def takeRanges : List (UInt8 × UInt8) → List UInt8 → Option (List UInt8 × List UInt8)
  | [], rest => some ([], rest)
  | _ :: _, [] => none
  | (low, high) :: ranges, byte :: rest =>
    if low ≤ byte && byte ≤ high then do
      let (taken, rest) ← takeRanges ranges rest
      some (byte :: taken, rest)
    else none

/-- A character that starts with a byte, and what follows. -/
def character (byte : UInt8) (rest : List UInt8) : Option (List UInt8 × List UInt8) :=
  if byte < 0x80 then some ([byte], rest)
  else do
    let ranges ← tailRanges byte
    let (taken, rest) ← takeRanges ranges rest
    some (byte :: taken, rest)

/-- Bytes that are characters. -/
inductive Utf8 : List UInt8 → Prop where
  /-- No character. -/
  | nil : Utf8 []
  /-- One more character. -/
  | cons {byte : UInt8} {taken rest rest' : List UInt8}
    (first : character byte rest = some (taken, rest')) (others : Utf8 rest') : Utf8 (byte :: rest)

/-- A hexadecimal digit. -/
def hexDigit (value : Nat) : UInt8 :=
  UInt8.ofNat (if value < 10 then 0x30 + value else 0x57 + value)

/-- A byte of a string as it is written. -/
def escape (byte : UInt8) : List UInt8 :=
  if byte = 0x08 then [0x5C, 0x62]
  else if byte = 0x09 then [0x5C, 0x74]
  else if byte = 0x0A then [0x5C, 0x6E]
  else if byte = 0x0C then [0x5C, 0x66]
  else if byte = 0x0D then [0x5C, 0x72]
  else if byte = 0x22 then [0x5C, 0x22]
  else if byte = 0x5C then [0x5C, 0x5C]
  else if byte < 0x20 then
    [0x5C, 0x75, 0x30, 0x30, hexDigit (byte.toNat / 16), hexDigit (byte.toNat % 16)]
  else [byte]

/-- A string as it is written. -/
def quoted (text : List UInt8) : List UInt8 := 0x22 :: (text.flatMap escape ++ [0x22])

/-- Value of a hexadecimal digit. -/
def hexValue (byte : UInt8) : Option Nat :=
  if isDigit byte then some (byte.toNat - 0x30)
  else if 0x41 ≤ byte && byte ≤ 0x46 then some (byte.toNat - 0x37)
  else if 0x61 ≤ byte && byte ≤ 0x66 then some (byte.toNat - 0x57)
  else none

/-- Number of four hexadecimal digits, and what follows. -/
def getCodepoint : List UInt8 → Option (Nat × List UInt8)
  | a :: b :: c :: d :: rest => do
    let a ← hexValue a
    let b ← hexValue b
    let c ← hexValue c
    let d ← hexValue d
    some (4096 * a + 256 * b + 16 * c + d, rest)
  | _ => none

/-- Bytes of a character. -/
def codepointBytes (codepoint : Nat) : List UInt8 :=
  if codepoint < 0x80 then [UInt8.ofNat codepoint]
  else if codepoint ≤ 0x7FF then
    [UInt8.ofNat (0xC0 + codepoint / 64), UInt8.ofNat (0x80 + codepoint % 64)]
  else if codepoint ≤ 0xFFFF then
    [UInt8.ofNat (0xE0 + codepoint / 4096), UInt8.ofNat (0x80 + codepoint / 64 % 64),
      UInt8.ofNat (0x80 + codepoint % 64)]
  else
    [UInt8.ofNat (0xF0 + codepoint / 262144), UInt8.ofNat (0x80 + codepoint / 4096 % 64),
      UInt8.ofNat (0x80 + codepoint / 64 % 64), UInt8.ofNat (0x80 + codepoint % 64)]

/-- The character of a number behind a backslash, and what follows. -/
def unicodeEscape (rest : List UInt8) : Option (List UInt8 × List UInt8) := do
  let (codepoint, rest) ← getCodepoint rest
  if 0xD800 ≤ codepoint && codepoint ≤ 0xDBFF then
    -- the first half of a character has to be followed by the second one
    match rest with
    | 0x5C :: 0x75 :: rest => do
      let (codepoint', rest) ← getCodepoint rest
      if 0xDC00 ≤ codepoint' && codepoint' ≤ 0xDFFF then
        some (codepointBytes (codepoint * 1024 + codepoint' - 0x35FDC00), rest)
      else none
    | _ => none
  else if 0xDC00 ≤ codepoint && codepoint ≤ 0xDFFF then none
  else some (codepointBytes codepoint, rest)

/-- The character behind a backslash, and what follows. -/
def unescape : List UInt8 → Option (List UInt8 × List UInt8)
  | [] => none
  | byte :: rest =>
    if byte = 0x22 || byte = 0x5C || byte = 0x2F then some ([byte], rest)
    else if byte = 0x62 then some ([0x08], rest)
    else if byte = 0x66 then some ([0x0C], rest)
    else if byte = 0x6E then some ([0x0A], rest)
    else if byte = 0x72 then some ([0x0D], rest)
    else if byte = 0x74 then some ([0x09], rest)
    else if byte = 0x75 then unicodeEscape rest
    else none

/-- A character of a string, and what follows. -/
def scanCharacter (byte : UInt8) (rest : List UInt8) : Option (List UInt8 × List UInt8) :=
  if byte = 0x5C then unescape rest
  else if byte < 0x20 then none
  else character byte rest

/-- A string up to its closing quote, and what follows. -/
def scanString : (fuel : Nat) → List UInt8 → Option (List UInt8 × List UInt8)
  | 0, _ => none
  | _ + 1, [] => none
  | fuel + 1, byte :: rest =>
    if byte = 0x22 then some ([], rest)
    else do
      let (first, rest) ← scanCharacter byte rest
      let (others, rest) ← scanString fuel rest
      some (first ++ others, rest)

/-- Fuel for a text is not used up. -/
theorem exists_fuel {size fuel : Nat} (enough : size < fuel) : ∃ less, fuel = less + 1 :=
  Nat.exists_eq_add_one_of_ne_zero (Nat.ne_of_gt (Nat.zero_lt_of_lt enough))

/-- A text of plain characters. -/
def isPlain (text : List UInt8) : Bool := text.all fun byte => byte < 0x80

/-- Plain characters are characters. -/
theorem utf8_plain {text : List UInt8} (plain : isPlain text = true) : Utf8 text := by
  induction text with
  | nil => exact .nil
  | cons byte text ih =>
    rw [isPlain, List.all_cons, Bool.and_eq_true] at plain
    have first : character byte text = some ([byte], text) := if_pos (of_decide_eq_true plain.1)
    exact .cons first (ih plain.2)

/-- The bytes behind the first one of a character are not plain ones. -/
theorem tailRanges_high {byte : UInt8} {ranges : List (UInt8 × UInt8)}
    (found : tailRanges byte = some ranges) : ∀ range ∈ ranges, 0x80 ≤ range.1 := by
  unfold tailRanges at found
  repeat' split at found
  all_goals cases found
  all_goals simp

/-- Bytes in ranges are taken from any text that starts with them. -/
theorem takeRanges_taken {ranges : List (UInt8 × UInt8)} {bytes taken rest : List UInt8}
    (high : ∀ range ∈ ranges, 0x80 ≤ range.1)
    (found : takeRanges ranges bytes = some (taken, rest)) :
    bytes = taken ++ rest ∧ (∀ byte ∈ taken, 0x80 ≤ byte) ∧
      ∀ other, takeRanges ranges (taken ++ other) = some (taken, other) := by
  induction ranges generalizing bytes taken with
  | nil =>
    rw [takeRanges] at found
    obtain ⟨rfl, rfl⟩ := Prod.mk.inj (Option.some.inj found)
    exact ⟨rfl, nofun, fun _ => rfl⟩
  | cons range ranges ih =>
    obtain ⟨low, top⟩ := range
    cases bytes with
    | nil => exact absurd found nofun
    | cons byte bytes =>
      rw [takeRanges] at found
      split at found
      next inside =>
        cases more : takeRanges ranges bytes with
        | none =>
          rw [more] at found
          exact absurd found nofun
        | some result =>
          obtain ⟨taken', rest'⟩ := result
          rw [more] at found
          obtain ⟨rfl, rfl⟩ := Prod.mk.inj (Option.some.inj found)
          have high' : ∀ range ∈ ranges, 0x80 ≤ range.1 :=
            fun range member => high range (List.mem_cons_of_mem _ member)
          obtain ⟨same, above, again⟩ := ih high' more
          have first : 0x80 ≤ byte := by
            have bound : low ≤ byte := by
              rw [Bool.and_eq_true] at inside
              exact of_decide_eq_true inside.1
            exact UInt8.le_trans (high (low, top) (List.mem_cons_self ..)) bound
          refine ⟨by rw [same, List.cons_append], ?_, fun other => ?_⟩
          · intro other member
            rcases List.mem_cons.mp member with rfl | member
            · exact first
            · exact above other member
          · rw [List.cons_append, takeRanges, if_pos inside, again]
            rfl
      next => exact absurd found nofun

/-- A byte that is not plain is written as it is. -/
theorem escape_high {byte : UInt8} (high : 0x80 ≤ byte) : escape byte = [byte] := by
  have apart : ∀ other : UInt8, other < 0x80 → byte ≠ other := by
    rintro other low rfl
    exact UInt8.not_lt.mpr high low
  have large : ¬byte < 0x20 := UInt8.not_lt.mpr (UInt8.le_trans (by decide) high)
  unfold escape
  rw [if_neg (apart _ (by decide)), if_neg (apart _ (by decide)), if_neg (apart _ (by decide)),
    if_neg (apart _ (by decide)), if_neg (apart _ (by decide)), if_neg (apart _ (by decide)),
    if_neg (apart _ (by decide)), if_neg large]

/-- The value of a hexadecimal digit is read back. -/
theorem hexValue_hexDigit : ∀ value < 16, hexValue (hexDigit value) = some value := by decide

/-- A character that has a letter of its own is read back. -/
theorem escape_letter {byte : UInt8}
    (short : byte ∈ ([0x08, 0x09, 0x0A, 0x0C, 0x0D, 0x22, 0x5C] : List UInt8)) :
    ∃ first tail, escape byte = first :: tail ∧ first ≠ 0x22 ∧
      ∀ rest, scanCharacter first (tail ++ rest) = some ([byte], rest) := by
  simp only [List.mem_cons, List.not_mem_nil, or_false] at short
  rcases short with rfl | rfl | rfl | rfl | rfl | rfl | rfl
  · exact ⟨0x5C, [0x62], rfl, by decide, fun _ => rfl⟩
  · exact ⟨0x5C, [0x74], rfl, by decide, fun _ => rfl⟩
  · exact ⟨0x5C, [0x6E], rfl, by decide, fun _ => rfl⟩
  · exact ⟨0x5C, [0x66], rfl, by decide, fun _ => rfl⟩
  · exact ⟨0x5C, [0x72], rfl, by decide, fun _ => rfl⟩
  · exact ⟨0x5C, [0x22], rfl, by decide, fun _ => rfl⟩
  · exact ⟨0x5C, [0x5C], rfl, by decide, fun _ => rfl⟩

/-- A plain character is read back. -/
theorem escape_plain {byte : UInt8} (plain : byte < 0x80) :
    ∃ first tail, escape byte = first :: tail ∧ first ≠ 0x22 ∧
      ∀ rest, scanCharacter first (tail ++ rest) = some ([byte], rest) := by
  by_cases short : byte ∈ ([0x08, 0x09, 0x0A, 0x0C, 0x0D, 0x22, 0x5C] : List UInt8)
  · exact escape_letter short
  simp only [List.mem_cons, List.not_mem_nil, or_false, not_or] at short
  obtain ⟨backspace, tab, newline, feed, carriage, quote, backslash⟩ := short
  rw [escape, if_neg backspace, if_neg tab, if_neg newline, if_neg feed, if_neg carriage,
    if_neg quote, if_neg backslash]
  by_cases control : byte < 0x20
  · rw [if_pos control]
    refine ⟨_, _, rfl, by decide, fun rest => ?_⟩
    have small : byte.toNat < 32 := control
    have high := hexValue_hexDigit (byte.toNat / 16) (by omega)
    have low := hexValue_hexDigit (byte.toNat % 16) (by omega)
    have zero : hexValue 0x30 = some 0 := by decide
    have number : 4096 * 0 + 256 * 0 + 16 * (byte.toNat / 16) + byte.toNat % 16 = byte.toNat := by
      omega
    change unicodeEscape (0x30 :: 0x30 :: hexDigit (byte.toNat / 16) ::
      hexDigit (byte.toNat % 16) :: rest) = _
    simp only [unicodeEscape, getCodepoint, zero, high, low, number, Option.bind_eq_bind,
      Option.bind_some]
    have below : ¬(decide (0xD800 ≤ byte.toNat) && decide (byte.toNat ≤ 0xDBFF)) = true := by
      simp; omega
    have below' : ¬(decide (0xDC00 ≤ byte.toNat) && decide (byte.toNat ≤ 0xDFFF)) = true := by
      simp; omega
    rw [if_neg below, if_neg below', codepointBytes, if_pos (by omega), UInt8.ofNat_toNat]
  · rw [if_neg control]
    refine ⟨byte, [], rfl, quote, fun rest => ?_⟩
    rw [scanCharacter, if_neg backslash, if_neg control, character, if_pos plain]
    rfl

/-- A character that is not plain is taken from any text that starts with it. -/
theorem character_high {byte : UInt8} {bytes taken rest : List UInt8} (high : ¬byte < 0x80)
    (found : character byte bytes = some (taken, rest)) :
    ∃ tail, bytes = tail ++ rest ∧ (byte :: tail).flatMap escape = byte :: tail ∧
      ∀ other, scanCharacter byte (tail ++ other) = some (byte :: tail, other) := by
  rw [character, if_neg high] at found
  cases ranges : tailRanges byte with
  | none =>
    rw [ranges] at found
    exact absurd found nofun
  | some ranges' =>
    rw [ranges] at found
    cases more : takeRanges ranges' bytes with
    | none =>
      simp only [Option.bind_eq_bind, Option.bind_some, more, Option.bind_none] at found
      exact absurd found nofun
    | some result =>
      obtain ⟨tail, rest'⟩ := result
      simp only [Option.bind_eq_bind, Option.bind_some, more] at found
      obtain ⟨rfl, rfl⟩ := Prod.mk.inj (Option.some.inj found)
      obtain ⟨same, above, again⟩ := takeRanges_taken (tailRanges_high ranges) more
      have large : 0x80 ≤ byte := UInt8.not_lt.mp high
      refine ⟨tail, same, ?_, fun other => ?_⟩
      · have each : (byte :: tail).flatMap escape = (byte :: tail).flatMap fun byte => [byte] := by
          refine List.flatMap_congr fun other member => escape_high ?_
          rcases List.mem_cons.mp member with rfl | member
          · exact large
          · exact above other member
        rw [each, List.flatMap_singleton']
      · have backslash : byte ≠ 0x5C := by
          rintro rfl
          exact absurd large (by decide)
        have control : ¬byte < 0x20 := UInt8.not_lt.mpr (UInt8.le_trans (by decide) large)
        rw [scanCharacter, if_neg backslash, if_neg control, character, if_neg high, ranges]
        simp only [Option.bind_eq_bind, Option.bind_some, again]

/-- A string is read back up to its closing quote. -/
theorem scanString_escape {text : List UInt8} (utf8 : Utf8 text) {fuel : Nat}
    (enough : text.length < fuel) (rest : List UInt8) :
    scanString fuel (text.flatMap escape ++ 0x22 :: rest) = some (text, rest) := by
  induction utf8 generalizing fuel with
  | nil =>
    obtain ⟨fuel, rfl⟩ := exists_fuel enough
    rfl
  | @cons byte taken after others first _ ih =>
    obtain ⟨fuel, rfl⟩ := exists_fuel enough
    rw [List.length_cons, Nat.add_lt_add_iff_right] at enough
    by_cases plain : byte < 0x80
    · rw [character, if_pos plain] at first
      obtain ⟨rfl, rfl⟩ := Prod.mk.inj (Option.some.inj first)
      obtain ⟨lead, tail, same, notQuote, scanned⟩ := escape_plain plain
      rw [List.flatMap_cons, same, List.append_assoc, List.cons_append, scanString,
        if_neg notQuote, scanned]
      simp only [Option.bind_eq_bind, Option.bind_some, ih enough, List.singleton_append]
    · obtain ⟨tail, rfl, written, scanned⟩ := character_high plain first
      have notQuote : byte ≠ 0x22 := by
        rintro rfl
        exact plain (by decide)
      have enough' : others.length < fuel := by
        rw [List.length_append] at enough
        omega
      rw [← List.cons_append, List.flatMap_append, written, List.append_assoc, List.cons_append,
        scanString, if_neg notQuote, scanned]
      simp only [Option.bind_eq_bind, Option.bind_some, ih enough', List.cons_append]

/-- A string is written with one byte for each of its own at least. -/
theorem length_le_escape (text : List UInt8) : text.length ≤ (text.flatMap escape).length := by
  have each : ∀ byte, 1 ≤ (escape byte).length := by
    intro byte
    unfold escape
    split_ifs <;> simp
  induction text with
  | nil => exact Nat.le_refl 0
  | cons byte text ih =>
    have first := each byte
    rw [List.flatMap_cons, List.length_cons, List.length_append]
    omega

end Strings

end Fly2040.Json
