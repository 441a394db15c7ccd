import Fly2040.Lib.Json
import Mathlib.Tactic.SplitIfs
/-!
# Writing and reading of JSON values

A value is written in a layout: what stands in front of each element of a list or an object, and
between a key and its value. It is read by descent over the text; of two members with one key the
later one counts, and members are kept in the order of their keys. A well-formed value is read
back from its text in every layout.
-/

namespace Fly2040.Json

variable {φ : Type}

section Members

/-- Members with one more, which replaces the one of its key. -/
def insertMember (key : List UInt8) (value : Value φ) :
    List (List UInt8 × Value φ) → List (List UInt8 × Value φ)
  | [] => [(key, value)]
  | (key', value') :: members =>
    if key < key' then (key, value) :: (key', value') :: members
    else if key = key' then (key, value) :: members
    else (key', value') :: insertMember key value members

/-- Members in the order of their keys; of one key, the last one. -/
def ofMembers (members : List (List UInt8 × Value φ)) : List (List UInt8 × Value φ) :=
  members.foldl (fun members member => insertMember member.1 member.2 members) []

/-- Keys in their order, each once. -/
def Sorted (members : List (List UInt8 × Value φ)) : Prop :=
  members.Pairwise fun left right => left.1 < right.1

/-- A member behind all others is inserted behind them. -/
theorem insertMember_last {members : List (List UInt8 × Value φ)} {key : List UInt8}
    (after : ∀ member ∈ members, member.1 < key) (value : Value φ) :
    insertMember key value members = members ++ [(key, value)] := by
  induction members with
  | nil => rfl
  | cons member members ih =>
    have first : member.1 < key := after member (List.mem_cons_self ..)
    have apart : key ≠ member.1 := by
      intro same
      rw [same] at first
      exact List.lt_irrefl _ first
    rw [insertMember, if_neg (List.lt_asymm first), if_neg apart,
      ih fun other inside => after other (List.mem_cons_of_mem _ inside), List.cons_append]

/-- Members in order stay as they are. -/
theorem ofMembers_sorted {members : List (List UInt8 × Value φ)} (sorted : Sorted members) :
    ofMembers members = members := by
  suffices general : ∀ before : List (List UInt8 × Value φ), Sorted (before ++ members) →
      members.foldl (fun members member => insertMember member.1 member.2 members) before =
        before ++ members from general [] sorted
  induction members with
  | nil =>
    intro before _
    rw [List.append_nil, List.foldl_nil]
  | cons member members ih =>
    intro before ordered
    have after : ∀ other ∈ before, other.1 < member.1 := fun other inside =>
      (List.pairwise_append.mp ordered).2.2 other inside member (List.mem_cons_self ..)
    have regrouped : before ++ member :: members = (before ++ [member]) ++ members := by
      rw [List.append_assoc, List.singleton_append]
    rw [regrouped] at ordered ⊢
    rw [List.foldl_cons, insertMember_last after]
    exact ih (List.Pairwise.tail sorted) _ ordered

/-- A member is among the others or the one that has been inserted. -/
theorem mem_insertMember {key : List UInt8} {value : Value φ}
    {members : List (List UInt8 × Value φ)} {member : List UInt8 × Value φ}
    (inside : member ∈ insertMember key value members) :
    member = (key, value) ∨ member ∈ members := by
  induction members with
  | nil => exact .inl (List.mem_singleton.mp inside)
  | cons first members ih =>
    rw [insertMember] at inside
    split at inside
    · exact List.mem_cons.mp inside
    · split at inside
      · exact (List.mem_cons.mp inside).imp_right (List.mem_cons_of_mem _)
      · rcases List.mem_cons.mp inside with rfl | inside
        · exact .inr (List.mem_cons_self ..)
        · exact (ih inside).imp_right (List.mem_cons_of_mem _)

/-- Members in order stay in order. -/
theorem Sorted.insertMember {members : List (List UInt8 × Value φ)} (sorted : Sorted members)
    (key : List UInt8) (value : Value φ) : Sorted (insertMember key value members) := by
  induction members with
  | nil => exact List.pairwise_singleton ..
  | cons first members ih =>
    obtain ⟨after, others⟩ := List.pairwise_cons.mp sorted
    rw [Json.insertMember]
    split
    next before =>
      refine List.pairwise_cons.mpr ⟨fun member inside => ?_, sorted⟩
      rcases List.mem_cons.mp inside with rfl | inside
      · exact before
      · exact List.lt_trans before (after member inside)
    next notBefore =>
      split
      next same => exact List.pairwise_cons.mpr ⟨by rwa [same], others⟩
      next apart =>
        refine List.pairwise_cons.mpr ⟨fun member inside => ?_, ih others⟩
        rcases mem_insertMember inside with rfl | inside
        · exact List.not_le.mp fun le => apart (List.le_antisymm le (List.not_lt.mp notBefore))
        · exact after member inside

/-- Members have been put in order. -/
theorem sorted_ofMembers (members : List (List UInt8 × Value φ)) : Sorted (ofMembers members) := by
  suffices general : ∀ before : List (List UInt8 × Value φ), Sorted before →
      Sorted (members.foldl (fun members member => insertMember member.1 member.2 members) before)
      from general [] List.Pairwise.nil
  induction members with
  | nil => exact fun _ sorted => sorted
  | cons member members ih => exact fun before sorted => ih _ (sorted.insertMember ..)

/-- The members are those that have been put in order. -/
theorem mem_ofMembers {members : List (List UInt8 × Value φ)} {member : List UInt8 × Value φ}
    (inside : member ∈ ofMembers members) : member ∈ members := by
  suffices general : ∀ before : List (List UInt8 × Value φ),
      member ∈ members.foldl (fun members member => insertMember member.1 member.2 members) before →
        member ∈ before ∨ member ∈ members from (general [] inside).resolve_left nofun
  clear inside
  induction members with
  | nil => exact fun _ inside => .inl inside
  | cons first members ih =>
    intro before inside
    rcases ih _ inside with inside | inside
    · rcases mem_insertMember inside with rfl | inside
      · exact .inr (List.mem_cons_self ..)
      · exact .inl inside
    · exact .inr (List.mem_cons_of_mem _ inside)

/-- Value of a key. -/
def find (key : List UInt8) : List (List UInt8 × Value φ) → Option (Value φ)
  | [] => none
  | (key', value) :: members => if key = key' then some value else find key members

end Members

section Writing

/-- White space in a text. -/
structure Layout where
  /-- In front of an element at a depth, and behind the last one. -/
  lead : Nat → List UInt8
  /-- Behind the colon of a member. -/
  gap : List UInt8
  /-- The first one is white space. -/
  leads : ∀ depth, ∀ byte ∈ lead depth, isBlank byte = true
  /-- The second one is white space. -/
  gaps : ∀ byte ∈ gap, isBlank byte = true

namespace Layout

/-- No white space. -/
def compact : Layout := ⟨fun _ => [], [], nofun, nofun⟩

/-- A line for each element, indented by its depth. -/
def pretty (step : Nat) : Layout where
  lead depth := 0x0A :: List.replicate (depth * step) 0x20
  gap := [0x20]
  leads depth byte member := by
    rcases List.mem_cons.mp member with rfl | member
    · decide
    · rw [List.eq_of_mem_replicate member]
      decide
  gaps byte member := by
    rw [List.mem_singleton.mp member]
    decide

end Layout

variable (numbers : Numbers φ) (layout : Layout)

mutual

/-- A value as it is written. -/
def text (depth : Nat) : Value φ → List UInt8
  | .null => ascii "null"
  | .bool true => ascii "true"
  | .bool false => ascii "false"
  | .unsigned number => decimal number
  | .integer number =>
    if number < 0 then 0x2D :: decimal number.natAbs else decimal number.natAbs
  | .float number => numbers.print number
  | .string text => quoted text
  | .array [] => ascii "[]"
  | .array (element :: elements) =>
    0x5B :: (layout.lead (depth + 1) ++ (text (depth + 1) element ++
      (textElements (depth + 1) elements ++ (layout.lead depth ++ [0x5D]))))
  | .object [] => ascii "{}"
  | .object ((key, value) :: members) =>
    0x7B :: (layout.lead (depth + 1) ++ (quoted key ++ 0x3A :: (layout.gap ++
      (text (depth + 1) value ++ (textMembers (depth + 1) members ++
        (layout.lead depth ++ [0x7D]))))))

/-- The elements of a list behind its first one. -/
def textElements (depth : Nat) : List (Value φ) → List UInt8
  | [] => []
  | element :: elements =>
    0x2C :: (layout.lead depth ++ (text depth element ++ textElements depth elements))

/-- The members of an object behind its first one. -/
def textMembers (depth : Nat) : List (List UInt8 × Value φ) → List UInt8
  | [] => []
  | (key, value) :: members =>
    0x2C :: (layout.lead depth ++ (quoted key ++ 0x3A :: (layout.gap ++
      (text depth value ++ textMembers depth members))))

end

variable {numbers : Numbers φ} {layout : Layout}

/-- Length of a line break and its indentation. -/
theorem Layout.length_lead (step depth : Nat) :
    ((Layout.pretty step).lead depth).length = depth * step + 1 := by
  rw [pretty, List.length_cons, List.length_replicate]

/-- Length of the blank behind a colon. -/
theorem Layout.length_gap (step : Nat) : (Layout.pretty step).gap.length = 1 := rfl

/-- Length of no members. -/
theorem length_textMembers_nil (depth : Nat) :
    (textMembers numbers layout depth []).length = 0 := rfl

/-- Length of one more member. -/
theorem length_textMembers_cons (depth : Nat) (key : List UInt8) (value : Value φ)
    (members : List (List UInt8 × Value φ)) :
    (textMembers numbers layout depth ((key, value) :: members)).length =
      2 + (layout.lead depth).length + (quoted key).length + layout.gap.length +
        (text numbers layout depth value).length +
        (textMembers numbers layout depth members).length := by
  simp only [textMembers, List.length_cons, List.length_append]
  omega

/-- Length of an object: each member has a separator in front, the first one a brace. -/
theorem length_object (depth : Nat) (key : List UInt8) (value : Value φ)
    (members : List (List UInt8 × Value φ)) :
    (text numbers layout depth (.object ((key, value) :: members))).length =
      (textMembers numbers layout (depth + 1) ((key, value) :: members)).length +
        (layout.lead depth).length + 1 := by
  simp only [text, textMembers, List.length_cons, List.length_append, List.length_nil]
  omega

end Writing

section Reading

/-- The text behind a byte that has to follow. -/
def expect (byte : UInt8) (bytes : List UInt8) : Option (List UInt8) :=
  match skip bytes with
  | [] => none
  | first :: rest => if first = byte then some rest else none

/-- The text behind a word that has to follow. -/
def literal (word bytes : List UInt8) (value : Value φ) : Option (Value φ × List UInt8) :=
  (word.isPrefixOf? bytes).map fun rest => (value, rest)

variable (numbers : Numbers φ)

mutual

/-- Read a value. -/
def parseValue : (fuel : Nat) → List UInt8 → Option (Value φ × List UInt8)
  | 0, _ => none
  | fuel + 1, bytes =>
    match skip bytes with
    | [] => none
    | byte :: rest =>
      if byte = 0x7B then
        match expect 0x7D rest with
        | some rest => some (.object [], rest)
        | none => do
          let (members, rest) ← parseMembers fuel rest
          some (.object (ofMembers members), rest)
      else if byte = 0x5B then
        match expect 0x5D rest with
        | some rest => some (.array [], rest)
        | none => do
          let (elements, rest) ← parseElements fuel rest
          some (.array elements, rest)
      else if byte = 0x22 then
        (scanString (rest.length + 1) rest).map fun (text, rest) => (.string text, rest)
      else if byte = 0x74 then literal (ascii "rue") rest (.bool true)
      else if byte = 0x66 then literal (ascii "alse") rest (.bool false)
      else if byte = 0x6E then literal (ascii "ull") rest .null
      else readNumber numbers (byte :: rest)

/-- Read members up to the end of their object. -/
def parseMembers : (fuel : Nat) → List UInt8 → Option (List (List UInt8 × Value φ) × List UInt8)
  | 0, _ => none
  | fuel + 1, bytes => do
    let rest ← expect 0x22 bytes
    let (key, rest) ← scanString (rest.length + 1) rest
    let rest ← expect 0x3A rest
    let (value, rest) ← parseValue fuel rest
    match expect 0x2C rest with
    | some rest => do
      let (members, rest) ← parseMembers fuel rest
      some ((key, value) :: members, rest)
    | none => do
      let rest ← expect 0x7D rest
      some ([(key, value)], rest)

/-- Read elements up to the end of their list. -/
def parseElements : (fuel : Nat) → List UInt8 → Option (List (Value φ) × List UInt8)
  | 0, _ => none
  | fuel + 1, bytes => do
    let (value, rest) ← parseValue fuel bytes
    match expect 0x2C rest with
    | some rest => do
      let (elements, rest) ← parseElements fuel rest
      some (value :: elements, rest)
    | none => do
      let rest ← expect 0x5D rest
      some ([value], rest)

end

/-- The text behind a byte order mark. -/
def skipBom (bytes : List UInt8) : Option (List UInt8) :=
  if bytes.head? = some 0xEF then [0xEF, 0xBB, 0xBF].isPrefixOf? bytes else some bytes

/-- Read a text that is one value. -/
def parse (bytes : List UInt8) : Option (Value φ) := do
  let bytes ← skipBom bytes
  let (value, rest) ← parseValue numbers (bytes.length + 1) bytes
  -- a zero ends the text too
  match skip rest with
  | [] | 0 :: _ => some value
  | _ => none

end Reading

section RoundTrip

/-- What can be written and read back. -/
inductive Value.WellFormed (numbers : Numbers φ) : Value φ → Prop
  /-- Nothing. -/
  | null : WellFormed numbers .null
  /-- A truth value. -/
  | bool (flag : Bool) : WellFormed numbers (.bool flag)
  /-- A number of 64 bits. -/
  | unsigned {number : Nat} (small : number < UInt64.size) : WellFormed numbers (.unsigned number)
  /-- A negative number of 64 bits. -/
  | integer {number : Nat} (negative : 0 < number) (small : number ≤ UInt64.size / 2) :
    WellFormed numbers (.integer (-number))
  /-- A number whose text is read back. -/
  | float {number : φ} (exact : numbers.Exact number) : WellFormed numbers (.float number)
  /-- A string of characters. -/
  | string {text : List UInt8} (utf8 : Utf8 text) : WellFormed numbers (.string text)
  /-- A list. -/
  | array {elements : List (Value φ)} (all : ∀ element ∈ elements, WellFormed numbers element) :
    WellFormed numbers (.array elements)
  /-- An object. -/
  | object {members : List (List UInt8 × Value φ)} (sorted : Sorted members)
    (keys : ∀ member ∈ members, Utf8 member.1)
    (all : ∀ member ∈ members, WellFormed numbers member.2) : WellFormed numbers (.object members)

/-- An object of members that can be written is one that can be written. -/
theorem wellFormed_ofMembers {numbers : Numbers φ} {members : List (List UInt8 × Value φ)}
    (keys : ∀ key ∈ members.map Prod.fst, Utf8 key)
    (all : ∀ value ∈ members.map Prod.snd, value.WellFormed numbers) :
    Value.WellFormed numbers (.object (ofMembers members)) :=
  .object (sorted_ofMembers members)
    (fun _ inside => keys _ (List.mem_map_of_mem (mem_ofMembers inside)))
    fun _ inside => all _ (List.mem_map_of_mem (mem_ofMembers inside))

/-- The byte that has to follow is found behind white space. -/
theorem expect_append {blank : List UInt8} (blanks : ∀ byte ∈ blank, isBlank byte = true)
    {byte : UInt8} (dark : isBlank byte = false) (rest : List UInt8) :
    expect byte (blank ++ byte :: rest) = some rest := by
  rw [expect, skip_append blanks, skip_cons dark]
  exact if_pos rfl

/-- Another byte is found behind white space. -/
theorem expect_other {blank : List UInt8} (blanks : ∀ byte ∈ blank, isBlank byte = true)
    {byte other : UInt8} (dark : isBlank other = false) (apart : other ≠ byte)
    (rest : List UInt8) : expect byte (blank ++ other :: rest) = none := by
  rw [expect, skip_append blanks, skip_cons dark]
  exact if_neg apart

/-- The byte that has to follow is found at once. -/
theorem expect_cons {byte : UInt8} (dark : isBlank byte = false) (rest : List UInt8) :
    expect byte (byte :: rest) = some rest := by
  rw [expect, skip_cons dark]
  exact if_pos rfl

/-- A number is not continued by what separates or ends elements. -/
theorem endsNumber_cons {byte : UInt8}
    (ends : isBlank byte = true ∨ byte = 0x2C ∨ byte = 0x5D ∨ byte = 0x7D) (rest : List UInt8) :
    EndsNumber (byte :: rest) := by
  rw [isBlank] at ends
  simp only [Bool.or_eq_true, decide_eq_true_eq] at ends
  rintro other ⟨⟩ state _ _
  rcases ends with (((rfl | rfl) | rfl) | rfl) | rfl | rfl | rfl <;> cases state <;> rfl

/-- A number is not continued by the end of a list or an object behind white space. -/
theorem endsNumber_append {blank : List UInt8} (blanks : ∀ byte ∈ blank, isBlank byte = true)
    {byte : UInt8} (ends : byte = 0x2C ∨ byte = 0x5D ∨ byte = 0x7D) (rest : List UInt8) :
    EndsNumber (blank ++ byte :: rest) := by
  cases blank with
  | nil => exact endsNumber_cons (.inr ends) rest
  | cons first blank => exact endsNumber_cons (.inl (blanks first (List.mem_cons_self ..))) _

/-- What a number starts with. -/
def StartsNumber (byte : UInt8) : Prop := byte = 0x2D ∨ isDigit byte = true

/-- A number starts with no white space. -/
theorem StartsNumber.dark {byte : UInt8} (starts : StartsNumber byte) : isBlank byte = false := by
  refine Bool.eq_false_iff.mpr fun blank => ?_
  rw [isBlank] at blank
  simp only [Bool.or_eq_true, decide_eq_true_eq] at blank
  unfold StartsNumber at starts
  revert starts
  rcases blank with ((rfl | rfl) | rfl) | rfl <;> decide

/-- The digits of a number start with what a number starts with. -/
theorem decimal_starts (number : Nat) :
    ∃ byte rest, decimal number = byte :: rest ∧ StartsNumber byte := by
  obtain ⟨digit, rest, same, isDigit⟩ := decimal_head number
  exact ⟨digit, rest, same, .inr isDigit⟩

/-- A token starts with what a number starts with. -/
theorem scanNumber_starts {token : List UInt8} {last : NumberState}
    (scanned : scanNumber .init token = (token, last, [])) (started : last ≠ .init) :
    ∃ byte rest, token = byte :: rest ∧ StartsNumber byte := by
  cases token with
  | nil => exact absurd (congrArg (fun result => result.2.1) scanned).symm started
  | cons byte rest =>
    refine ⟨byte, rest, rfl, ?_⟩
    by_contra other
    rw [StartsNumber, not_or] at other
    have zero : byte ≠ 0x30 := by
      rintro rfl
      exact other.2 (by decide)
    rw [scanNumber, NumberState.step, if_neg other.1, if_neg zero, if_neg other.2] at scanned
    have none : [] = byte :: rest := congrArg Prod.fst scanned
    exact List.cons_ne_nil _ _ none.symm

variable {numbers : Numbers φ}

/-- What starts a number is read as one. -/
theorem parseValue_number {byte : UInt8} (starts : StartsNumber byte) (fuel : Nat)
    (rest : List UInt8) :
    parseValue numbers (fuel + 1) (byte :: rest) = readNumber numbers (byte :: rest) := by
  have apart : ∀ other, isDigit other = false → other ≠ 0x2D → byte ≠ other := by
    rintro other digit sign rfl
    rcases starts with minus | isDigit
    · exact sign minus
    · exact absurd isDigit (Bool.eq_false_iff.mp digit)
  rw [parseValue, skip_cons starts.dark]
  simp only [if_neg (apart 0x7B rfl (by decide)), if_neg (apart 0x5B rfl (by decide)),
    if_neg (apart 0x22 rfl (by decide)), if_neg (apart 0x74 rfl (by decide)),
    if_neg (apart 0x66 rfl (by decide)), if_neg (apart 0x6E rfl (by decide))]

/-- White space in front of a value is skipped. -/
theorem parseValue_blank {blank : List UInt8} (blanks : ∀ byte ∈ blank, isBlank byte = true)
    (fuel : Nat) (bytes : List UInt8) :
    parseValue numbers fuel (blank ++ bytes) = parseValue numbers fuel bytes := by
  cases fuel with
  | zero => rfl
  | succ fuel => rw [parseValue, parseValue, skip_append blanks]

/-- White space in front of members is skipped. -/
theorem parseMembers_blank {blank : List UInt8} (blanks : ∀ byte ∈ blank, isBlank byte = true)
    (fuel : Nat) (bytes : List UInt8) :
    parseMembers numbers fuel (blank ++ bytes) = parseMembers numbers fuel bytes := by
  cases fuel with
  | zero => rfl
  | succ fuel => rw [parseMembers, parseMembers, expect, expect, skip_append blanks]

/-- White space in front of elements is skipped. -/
theorem parseElements_blank {blank : List UInt8} (blanks : ∀ byte ∈ blank, isBlank byte = true)
    (fuel : Nat) (bytes : List UInt8) :
    parseElements numbers fuel (blank ++ bytes) = parseElements numbers fuel bytes := by
  cases fuel with
  | zero => rfl
  | succ fuel => rw [parseElements, parseElements, parseValue_blank blanks]

variable {layout : Layout}

/-- A value is read back, in front of what cannot continue a number. -/
def ReadBack (numbers : Numbers φ) (layout : Layout) (value : Value φ) : Prop :=
  ∀ (depth fuel : Nat) (rest : List UInt8), (text numbers layout depth value).length < fuel →
    EndsNumber rest →
    parseValue numbers fuel (text numbers layout depth value ++ rest) = some (value, rest)

/-- A quoted string is read back. -/
theorem scanString_quoted {text : List UInt8} (utf8 : Utf8 text) (rest : List UInt8) :
    scanString ((text.flatMap escape ++ 0x22 :: rest).length + 1)
      (text.flatMap escape ++ 0x22 :: rest) = some (text, rest) := by
  refine scanString_escape utf8 ?_ rest
  have short := length_le_escape text
  rw [List.length_append]
  omega

section Closing

variable {closing : List UInt8} (closes : ∀ byte ∈ closing, isBlank byte = true)
include closes

/-- Elements are read back up to the end of their list. -/
theorem parseElements_text {element : Value φ} {elements : List (Value φ)}
    (first : ReadBack numbers layout element)
    (others : ∀ element ∈ elements, ReadBack numbers layout element) (depth : Nat) {fuel : Nat}
    (enough : (text numbers layout depth element).length +
      (textElements numbers layout depth elements).length + 1 < fuel) (rest : List UInt8) :
    parseElements numbers fuel (text numbers layout depth element ++
      (textElements numbers layout depth elements ++ (closing ++ 0x5D :: rest))) =
      some (element :: elements, rest) := by
  induction elements generalizing element fuel with
  | nil =>
    obtain ⟨fuel, rfl⟩ := exists_fuel enough
    have read := first depth fuel _ (by omega) (endsNumber_append closes (.inr (.inl rfl)) rest)
    have comma := expect_other closes (by decide : isBlank 0x5D = false)
      (by decide : (0x5D : UInt8) ≠ 0x2C) rest
    have bracket := expect_append closes (by decide : isBlank 0x5D = false) rest
    rw [textElements, List.nil_append, parseElements, read]
    simp only [Option.bind_eq_bind, Option.bind_some, comma, bracket]
  | cons next elements ih =>
    obtain ⟨fuel, rfl⟩ := exists_fuel enough
    simp only [textElements, List.length_cons, List.length_append] at enough
    have read := first depth fuel _ (by omega) (endsNumber_cons (.inr (.inl rfl))
      (layout.lead depth ++ (text numbers layout depth next ++
        (textElements numbers layout depth elements ++ (closing ++ 0x5D :: rest)))))
    have enough' : (text numbers layout depth next).length +
        (textElements numbers layout depth elements).length + 1 < fuel := by omega
    have more := ih (others next (List.mem_cons_self ..))
      (fun other member => others other (List.mem_cons_of_mem _ member)) enough'
    have comma := expect_cons (by decide : isBlank 0x2C = false)
    simp only [textElements, List.cons_append, List.append_assoc]
    rw [parseElements, read]
    simp only [Option.bind_eq_bind, Option.bind_some, comma, parseElements_blank (layout.leads _),
      more]

/-- Members are read back up to the end of their object. -/
theorem parseMembers_text {key : List UInt8} {value : Value φ}
    {members : List (List UInt8 × Value φ)} (utf8 : Utf8 key)
    (first : ReadBack numbers layout value) (keys : ∀ member ∈ members, Utf8 member.1)
    (others : ∀ member ∈ members, ReadBack numbers layout member.2) (depth : Nat) {fuel : Nat}
    (enough : (text numbers layout depth value).length +
      (textMembers numbers layout depth members).length + 1 < fuel) (rest : List UInt8) :
    parseMembers numbers fuel (quoted key ++ 0x3A :: (layout.gap ++
      (text numbers layout depth value ++ (textMembers numbers layout depth members ++
        (closing ++ 0x7D :: rest))))) = some ((key, value) :: members, rest) := by
  have quote := expect_cons (by decide : isBlank 0x22 = false)
  have colon := expect_cons (by decide : isBlank 0x3A = false)
  induction members generalizing key value fuel with
  | nil =>
    obtain ⟨fuel, rfl⟩ := exists_fuel enough
    have read := first depth fuel _ (by omega) (endsNumber_append closes (.inr (.inr rfl)) rest)
    have comma := expect_other closes (by decide : isBlank 0x7D = false)
      (by decide : (0x7D : UInt8) ≠ 0x2C) rest
    have brace := expect_append closes (by decide : isBlank 0x7D = false) rest
    simp only [textMembers, List.nil_append, quoted, List.cons_append, List.append_assoc]
    rw [parseMembers, quote, Option.bind_eq_bind, Option.bind_some, scanString_quoted utf8]
    simp only [Option.bind_eq_bind, Option.bind_some, colon, parseValue_blank layout.gaps, read,
      comma, brace]
  | cons next members ih =>
    obtain ⟨fuel, rfl⟩ := exists_fuel enough
    obtain ⟨nextKey, nextValue⟩ := next
    simp only [textMembers, List.length_cons, List.length_append] at enough
    have read := first depth fuel _ (by omega) (endsNumber_cons (.inr (.inl rfl))
      (layout.lead depth ++ (quoted nextKey ++ 0x3A :: (layout.gap ++
        (text numbers layout depth nextValue ++ (textMembers numbers layout depth members ++
          (closing ++ 0x7D :: rest)))))))
    have enough' : (text numbers layout depth nextValue).length +
        (textMembers numbers layout depth members).length + 1 < fuel := by omega
    have nextUtf8 : Utf8 nextKey := keys _ (List.mem_cons_self ..)
    have nextRead : ReadBack numbers layout nextValue := others _ (List.mem_cons_self ..)
    have more := ih nextUtf8 nextRead
      (fun other member => keys other (List.mem_cons_of_mem _ member))
      (fun other member => others other (List.mem_cons_of_mem _ member)) enough'
    have comma := expect_cons (by decide : isBlank 0x2C = false)
    rw [quoted]
    simp only [textMembers, List.nil_append, List.cons_append, List.append_assoc]
    rw [parseMembers, quote, Option.bind_eq_bind, Option.bind_some, scanString_quoted utf8]
    simp only [Option.bind_eq_bind, Option.bind_some, colon, parseValue_blank layout.gaps, read,
      comma, parseMembers_blank (layout.leads _), more]

end Closing

/-- A number is read back if its text is read as it. -/
theorem readBack_number {value : Value φ} {token : List UInt8}
    (written : ∀ depth, text numbers layout depth value = token)
    (starts : ∃ byte rest, token = byte :: rest ∧ StartsNumber byte)
    (read : ∀ rest, EndsNumber rest → readNumber numbers (token ++ rest) = some (value, rest)) :
    ReadBack numbers layout value := by
  intro depth fuel rest enough ends
  obtain ⟨fuel, rfl⟩ := exists_fuel enough
  obtain ⟨byte, tail, same, start⟩ := starts
  have whole := read rest ends
  rw [same] at whole
  rw [written, same, List.cons_append, parseValue_number start]
  exact whole

/-- A truth value is read back. -/
theorem readBack_bool (flag : Bool) : ReadBack numbers layout (.bool flag) := by
  intro depth fuel rest enough _
  obtain ⟨fuel, rfl⟩ := exists_fuel enough
  cases flag <;> rfl

/-- A text starts neither with white space nor with the end of a list or a byte order mark. -/
def Opens (text : List UInt8) : Prop :=
  ∃ byte rest, text = byte :: rest ∧ isBlank byte = false ∧ byte ≠ 0x5D ∧ byte ≠ 0xEF

/-- A list is read back if its elements are. -/
theorem readBack_array {elements : List (Value φ)}
    (all : ∀ element ∈ elements, ReadBack numbers layout element)
    (heads : ∀ element ∈ elements, ∀ depth, Opens (text numbers layout depth element)) :
    ReadBack numbers layout (.array elements) := by
  intro depth fuel rest enough _
  obtain ⟨fuel, rfl⟩ := exists_fuel enough
  cases elements with
  | nil => rfl
  | cons element elements =>
    have open' : isBlank 0x5B = false := by decide
    obtain ⟨byte, tail, same, dark, apart, _⟩ := heads _ (List.mem_cons_self ..) (depth + 1)
    simp only [text, List.length_cons, List.length_append, List.length_nil] at enough
    have enough' : (text numbers layout (depth + 1) element).length +
        (textElements numbers layout (depth + 1) elements).length + 1 < fuel := by omega
    have read := parseElements_text (layout.leads depth) (all _ (List.mem_cons_self ..))
      (fun other member => all other (List.mem_cons_of_mem _ member)) _ enough' rest
    have bracket := expect_other (layout.leads (depth + 1)) dark apart (tail ++
      (textElements numbers layout (depth + 1) elements ++ (layout.lead depth ++ 0x5D :: rest)))
    rw [← List.cons_append, ← same] at bracket
    simp only [text, List.cons_append, List.append_assoc, List.nil_append]
    rw [parseValue, skip_cons open']
    simp only [if_neg (by decide : (0x5B : UInt8) ≠ 0x7B), if_true, bracket,
      parseElements_blank (layout.leads _), read, Option.bind_eq_bind, Option.bind_some]

/-- An object is read back if its values are. -/
theorem readBack_object {members : List (List UInt8 × Value φ)} (sorted : Sorted members)
    (keys : ∀ member ∈ members, Utf8 member.1)
    (all : ∀ member ∈ members, ReadBack numbers layout member.2) :
    ReadBack numbers layout (.object members) := by
  intro depth fuel rest enough _
  obtain ⟨fuel, rfl⟩ := exists_fuel enough
  cases members with
  | nil => rfl
  | cons member members =>
    obtain ⟨key, value⟩ := member
    have open' : isBlank 0x7B = false := by decide
    have utf8 : Utf8 key := keys _ (List.mem_cons_self ..)
    have first : ReadBack numbers layout value := all _ (List.mem_cons_self ..)
    simp only [text, List.length_cons, List.length_append, List.length_nil] at enough
    have enough' : (text numbers layout (depth + 1) value).length +
        (textMembers numbers layout (depth + 1) members).length + 1 < fuel := by omega
    have read := parseMembers_text (layout.leads depth) utf8 first
      (fun other member => keys other (List.mem_cons_of_mem _ member))
      (fun other member => all other (List.mem_cons_of_mem _ member)) _ enough' rest
    have brace (rest : List UInt8) :
        expect 0x7D (layout.lead (depth + 1) ++ (quoted key ++ rest)) = none :=
      expect_other (layout.leads (depth + 1)) (by decide) (by decide) _
    simp only [text, List.cons_append, List.append_assoc, List.nil_append]
    rw [parseValue, skip_cons open']
    simp only [if_true, brace, parseMembers_blank (layout.leads _), read, Option.bind_eq_bind,
      Option.bind_some, ofMembers_sorted sorted]

/-- Text of a negative number. -/
theorem text_negative {number : Nat} (negative : 0 < number) (depth : Nat) :
    text numbers layout depth (.integer (-number)) = 0x2D :: decimal number := by
  rw [text, if_pos (by omega), Int.natAbs_neg, Int.natAbs_natCast]

/-- The text of a float starts with what a number starts with. -/
theorem Numbers.Exact.starts {number : φ} (exact : numbers.Exact number) :
    ∃ byte rest, numbers.print number = byte :: rest ∧ StartsNumber byte := by
  obtain ⟨last, kind, scanned⟩ := exact.scanned
  refine scanNumber_starts scanned ?_
  rcases kind with rfl | rfl <;> nofun

/-- What a well-formed value starts with. -/
theorem text_opens {value : Value φ} (wellFormed : value.WellFormed numbers) (depth : Nat) :
    Opens (text numbers layout depth value) := by
  have number {token : List UInt8} (head : ∃ byte rest, token = byte :: rest ∧ StartsNumber byte) :
      Opens token := by
    obtain ⟨byte, rest, same, starts⟩ := head
    have apart : ∀ other, ¬StartsNumber other → byte ≠ other := by
      rintro other no rfl
      exact no starts
    exact ⟨byte, rest, same, starts.dark, apart _ (by unfold StartsNumber; decide),
      apart _ (by unfold StartsNumber; decide)⟩
  cases wellFormed with
  | null => exact ⟨_, _, rfl, by decide⟩
  | bool flag => cases flag <;> exact ⟨_, _, rfl, by decide⟩
  | @unsigned value small =>
    rw [text]
    exact number (decimal_starts value)
  | integer negative small =>
    rw [text_negative negative]
    exact number ⟨_, _, rfl, .inl rfl⟩
  | float exact =>
    rw [text]
    exact number exact.starts
  | string utf8 => exact ⟨_, _, rfl, by decide⟩
  | @array elements all => cases elements <;> exact ⟨_, _, rfl, by decide⟩
  | @object members sorted keys all => cases members <;> exact ⟨_, _, rfl, by decide⟩

/-- A well-formed value is read back. -/
theorem readBack {value : Value φ} (wellFormed : value.WellFormed numbers) :
    ReadBack numbers layout value := by
  induction wellFormed with
  | null =>
    intro depth fuel rest enough _
    obtain ⟨fuel, rfl⟩ := exists_fuel enough
    rfl
  | bool flag => exact readBack_bool flag
  | @unsigned number small =>
    exact readBack_number (fun _ => by rw [text]) (decimal_starts number)
      fun _ ends => readNumber_unsigned small ends
  | @integer number negative small =>
    exact readBack_number (text_negative negative) ⟨_, _, rfl, .inl rfl⟩
      fun _ ends => readNumber_integer small ends
  | float exact =>
    exact readBack_number (fun _ => by rw [text]) exact.starts
      fun _ ends => readNumber_float exact ends
  | @string value utf8 =>
    intro depth fuel rest enough _
    obtain ⟨fuel, rfl⟩ := exists_fuel enough
    have dark : isBlank 0x22 = false := by decide
    simp only [text, quoted, List.cons_append, List.append_assoc, List.nil_append]
    rw [parseValue, skip_cons dark]
    simp only [if_neg (by decide : (0x22 : UInt8) ≠ 0x7B),
      if_neg (by decide : (0x22 : UInt8) ≠ 0x5B), if_true, scanString_quoted utf8, Option.map_some]
  | array all ih =>
    exact readBack_array ih fun element member depth => text_opens (all element member) depth
  | object sorted keys _ ih => exact readBack_object sorted keys ih

/-- The text of a well-formed value is read as the value, with white space behind it. -/
theorem parse_text {value : Value φ} (wellFormed : value.WellFormed numbers)
    {blank : List UInt8} (blanks : ∀ byte ∈ blank, isBlank byte = true) :
    parse numbers (text numbers layout 0 value ++ blank) = some value := by
  have ends : EndsNumber blank := by
    cases blank with
    | nil => nofun
    | cons byte blank => exact endsNumber_cons (.inl (blanks byte (List.mem_cons_self ..))) blank
  have enough : (text numbers layout 0 value).length <
      (text numbers layout 0 value ++ blank).length + 1 := by
    rw [List.length_append]
    omega
  have read := readBack wellFormed 0 _ blank enough ends
  have rest : skip blank = [] := by
    have whole := skip_append blanks []
    rwa [List.append_nil] at whole
  have bom : skipBom (text numbers layout 0 value ++ blank) =
      some (text numbers layout 0 value ++ blank) := by
    have opens : Opens (text numbers layout 0 value) := text_opens wellFormed 0
    obtain ⟨byte, tail, same, _, _, mark⟩ := opens
    have first : (byte :: (tail ++ blank)).head? ≠ some 0xEF :=
      fun first => mark (Option.some.inj first)
    rw [same, List.cons_append, skipBom, if_neg first]
  rw [parse, bom]
  simp only [Option.bind_eq_bind, Option.bind_some, read, rest]

example : text (⟨fun _ => [], fun _ => none⟩ : Numbers Nat) (.pretty 4) 0
    (.array [.bool true, .string (ascii "a\tb"), .array []]) =
      ascii "[\n    true,\n    \"a\\tb\",\n    []\n]" := by decide

end RoundTrip

end Fly2040.Json
