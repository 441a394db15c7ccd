import Fly2040.Lib.Bytes
import Fly2040.Lib.Durable
/-!
# NOR flash memory

Erasing sets a range to all ones; programming can only clear bits. Both are operations of
`Durable` programs over a byte memory, so what a program leaves after a power loss between two
of them is read off its run. A program whose operations stay inside a range leaves every other
byte alone, at every moment and in whatever order the operations came.
-/

namespace Fly2040.Nor

open Bytes Durable

/-- An operation of the flash controller. -/
inductive Op where
  /-- Set `length` bytes from `offset` to all ones. -/
  | erase (offset length : Nat)
  /-- Clear, from `offset` on, the bits that are zero in the data. -/
  | program (offset : Nat) (data : List UInt8)
deriving DecidableEq, Repr

/-- The memory after an erase. -/
def erase (memory : Memory) (offset length : Nat) : Memory := fun address =>
  if offset ≤ address ∧ address < offset + length then 0xFF else memory address

/-- The memory after programming: each byte is masked by the data, and by ones beyond it. -/
def program (memory : Memory) (offset : Nat) (data : List UInt8) : Memory := fun address =>
  if offset ≤ address then memory address &&& data.getD (address - offset) 0xFF
  else memory address

/-- The effect of an operation. -/
def Op.apply : Op → Memory → Memory
  | .erase offset length, memory => Nor.erase memory offset length
  | .program offset data, memory => Nor.program memory offset data

/-- The operation addresses only bytes from `low` up to but not including `high`. -/
def Op.Within (low high : Nat) : Op → Prop
  | .erase offset length => low ≤ offset ∧ offset + length ≤ high
  | .program offset data => low ≤ offset ∧ offset + data.length ≤ high

/-- Two memories hold the same bytes outside a range. -/
def SameOutside (low high : Nat) (before after : Memory) : Prop :=
  ∀ address, address < low ∨ high ≤ address → after address = before address

/-- Masking with all ones changes nothing. -/
@[simp] theorem and_ones (value : UInt8) : value &&& 0xFF = value := by
  apply byte_ext
  intro index inside
  rw [UInt8.toBitVec_and, BitVec.getLsbD_and]
  interval_cases index <;> simp

/-- All ones masked with a value is the value. -/
@[simp] theorem ones_and (value : UInt8) : 0xFF &&& value = value := by
  rw [UInt8.and_comm, and_ones]

/-- An erased byte is all ones. -/
theorem erase_inside (memory : Memory) {offset length address : Nat} (low : offset ≤ address)
    (high : address < offset + length) : erase memory offset length address = 0xFF :=
  if_pos ⟨low, high⟩

/-- A byte beyond the erased range is kept. -/
theorem erase_outside (memory : Memory) {offset length address : Nat}
    (outside : address < offset ∨ offset + length ≤ address) :
    erase memory offset length address = memory address :=
  if_neg (by omega)

/-- A programmed byte is the old byte masked by the data. -/
theorem program_inside (memory : Memory) (offset : Nat) (data : List UInt8) (index : Nat) :
    program memory offset data (offset + index) =
      memory (offset + index) &&& data.getD index 0xFF := by
  simp [program]

/-- A byte beyond the programmed data is kept. -/
theorem program_outside (memory : Memory) {offset address : Nat} {data : List UInt8}
    (outside : address < offset ∨ offset + data.length ≤ address) :
    program memory offset data address = memory address := by
  unfold program
  split
  · rw [List.getD, List.getElem?_eq_none (by omega), Option.getD_none, and_ones]
  · rfl

/-- An operation inside a range changes nothing outside it. -/
theorem Op.apply_sameOutside {low high : Nat} {operation : Op}
    (within : operation.Within low high) (memory : Memory) :
    SameOutside low high memory (operation.apply memory) := by
  intro address outside
  cases operation with
  | erase offset length =>
    obtain ⟨above, below⟩ := within
    exact erase_outside memory (by omega)
  | program offset data =>
    obtain ⟨above, below⟩ := within
    exact program_outside memory (by omega)

namespace SameOutside

variable {low high : Nat} {first second third : Memory}

/-- A memory agrees with itself. -/
theorem refl (memory : Memory) : SameOutside low high memory memory := fun _ _ => rfl

/-- Agreement outside one range composes. -/
theorem trans (left : SameOutside low high first second)
    (right : SameOutside low high second third) : SameOutside low high first third :=
  fun address outside => (right address outside).trans (left address outside)

/-- Agreement outside a range is agreement outside every larger one. -/
theorem widen {low' high' : Nat} (agree : SameOutside low high first second)
    (below : low' ≤ low) (above : high ≤ high') : SameOutside low' high' first second :=
  fun address outside => agree address (by omega)

end SameOutside

/-- A program over flash memory. -/
abbrev FlashProg (ε α : Type) := Prog Memory Op ε α

variable {ε α β : Type}

/-- Erase a range. -/
def flashRangeErase (offset length : Nat) : FlashProg ε Unit :=
  Prog.issue (.erase offset length) (Op.erase offset length).apply

/-- Program data. -/
def flashRangeProgram (offset : Nat) (data : List UInt8) : FlashProg ε Unit :=
  Prog.issue (.program offset data) (Op.program offset data).apply

/-- Every operation of the program lies inside a range, and at every moment of its run the
memory agrees outside that range with a given one. -/
def Confined (low high : Nat) (origin : Memory) (program : FlashProg ε α) (memory : Memory) :
    Prop :=
  program.Ensures memory
    (fun later operation => operation.Within low high ∧ SameOutside low high origin later)
    (fun _ later => SameOutside low high origin later)
    (fun _ later => SameOutside low high origin later)

namespace Confined

variable {low high : Nat} {origin memory : Memory}

/-- A single operation inside the range is confined to it. -/
theorem issue {operation : Op} (within : operation.Within low high)
    (agree : SameOutside low high origin memory) :
    Confined low high origin (Prog.issue operation operation.apply : FlashProg ε Unit) memory :=
  (Prog.ensures_issue _ _).mpr
    ⟨⟨within, agree⟩, agree.trans (Op.apply_sameOutside within memory)⟩

/-- A program without operations is confined to any range. -/
theorem pure (value : α) (agree : SameOutside low high origin memory) :
    Confined low high origin (Pure.pure value : FlashProg ε α) memory :=
  (Prog.ensures_pure value).mpr agree

/-- Confinement composes, whatever the first part returns. -/
theorem bind {first : FlashProg ε α} {next : α → FlashProg ε β}
    (head : Confined low high origin first memory)
    (tail : ∀ value later, SameOutside low high origin later →
      Confined low high origin (next value) later) :
    Confined low high origin (first >>= next) memory :=
  Prog.Ensures.andThen head tail

/-- A loop of confined bodies is confined. -/
theorem forRange {body : Nat → FlashProg ε Unit} (first count : Nat)
    (agree : SameOutside low high origin memory)
    (step : ∀ index later, first ≤ index → index < first + count →
      SameOutside low high origin later → Confined low high origin (body index) later) :
    Confined low high origin (Prog.forRange first count body) memory :=
  Prog.ensures_forRange (fun _ later => SameOutside low high origin later) first count agree step

end Confined

end Fly2040.Nor
