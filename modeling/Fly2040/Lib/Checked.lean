import Mathlib.Data.Nat.Basic
/-!
# Checked operations

Operations that are undefined for some operands stop with a fault there: division and remainder
by zero, and accesses beyond the end of a buffer. A counted loop runs without a fault whenever
an invariant carries each of its rounds.
-/

namespace Fly2040.Checked

/-- Why an operation is undefined. -/
inductive Fault where
  /-- Division or remainder by zero. -/
  | divisionByZero
  /-- Access beyond the end of a buffer. -/
  | outOfBounds
deriving DecidableEq, Repr

/-- Quotient. -/
def div (left right : UInt32) : Except Fault UInt32 :=
  if right = 0 then .error .divisionByZero else .ok (left / right)

/-- Remainder. -/
def mod (left right : UInt32) : Except Fault UInt32 :=
  if right = 0 then .error .divisionByZero else .ok (left % right)

/-- A quotient by a divisor that is not zero. -/
theorem div_ok (left : UInt32) {right : UInt32} (divisor : right ≠ 0) :
    div left right = .ok (left / right) := if_neg divisor

/-- A remainder by a divisor that is not zero. -/
theorem mod_ok (left : UInt32) {right : UInt32} (divisor : right ≠ 0) :
    mod left right = .ok (left % right) := if_neg divisor

/-- A remainder by zero. -/
theorem mod_zero (left : UInt32) : mod left 0 = .error .divisionByZero := if_pos rfl

section Buffer

variable {α : Type} {size : Nat}

/-- Element of a buffer. -/
def get (buffer : Vector α size) (index : Nat) : Except Fault α :=
  if inside : index < size then .ok buffer[index] else .error .outOfBounds

/-- Replace an element of a buffer. -/
def set (buffer : Vector α size) (index : Nat) (value : α) : Except Fault (Vector α size) :=
  if inside : index < size then .ok (buffer.set index value inside) else .error .outOfBounds

/-- An element inside the buffer. -/
theorem get_ok (buffer : Vector α size) {index : Nat} (inside : index < size) :
    get buffer index = .ok buffer[index] := dif_pos inside

/-- Replacing an element inside the buffer. -/
theorem set_ok (buffer : Vector α size) {index : Nat} (value : α) (inside : index < size) :
    set buffer index value = .ok (buffer.set index value inside) := dif_pos inside

end Buffer

section Loop

variable {State : Type}

/-- Rounds of a loop, numbered from zero. -/
def loop (body : Nat → State → Except Fault State) : Nat → State → Except Fault State
  | 0, state => .ok state
  | count + 1, state => do body count (← loop body count state)

/-- A loop whose rounds keep an invariant runs without a fault. -/
theorem loop_ok (holds : Nat → State → Prop) {body : Nat → State → Except Fault State}
    {count : Nat} {state : State} (initial : holds 0 state)
    (round : ∀ index < count, ∀ state, holds index state →
      ∃ later, body index state = .ok later ∧ holds (index + 1) later) :
    ∃ later, loop body count state = .ok later ∧ holds count later := by
  induction count with
  | zero => exact ⟨state, rfl, initial⟩
  | succ count ih =>
    obtain ⟨middle, ran, holds'⟩ := ih fun index inside => round index (by omega)
    obtain ⟨later, last, holds''⟩ := round count (by omega) middle holds'
    exact ⟨later, by rw [loop, ran]; exact last, holds''⟩

end Loop

section Fill

variable {α : Type} {size : Nat}

/-- Store values at the first places of a buffer. -/
def fill (value : Nat → α) (count : Nat) (buffer : Vector α size) : Except Fault (Vector α size) :=
  loop (fun index buffer => set buffer index (value index)) count buffer

/-- The elements at the first places of a buffer. -/
def take (count : Nat) (buffer : Vector α size) : Except Fault (List α) :=
  loop (fun index taken => do return taken ++ [← get buffer index]) count []

/-- Filling a part of a buffer replaces that part. -/
theorem fill_ok (value : Nat → α) {count : Nat} (buffer : Vector α size) (fits : count ≤ size) :
    ∃ later, fill value count buffer = .ok later ∧ ∀ index (inside : index < size),
      later[index] = if index < count then value index else buffer[index] := by
  apply loop_ok fun count later => ∀ index (inside : index < size),
    later[index] = if index < count then value index else buffer[index]
  · intro index inside
    rw [if_neg (Nat.not_lt_zero _)]
  · intro round below state filled
    have fits' : round < size := by omega
    refine ⟨_, set_ok state (value round) fits', ?_⟩
    intro index inside
    rw [Vector.getElem_set]
    split
    · rename_i same
      rw [if_pos (by omega), same]
    · rename_i other
      rw [filled index inside]
      by_cases earlier : index < round
      · rw [if_pos earlier, if_pos (by omega)]
      · rw [if_neg earlier, if_neg (by omega)]

/-- The first places of a buffer are read in order. -/
theorem take_ok {count : Nat} (buffer : Vector α size) (fits : count ≤ size) :
    take count buffer = .ok (buffer.toList.take count) := by
  have read : ∃ taken, take count buffer = .ok taken ∧ taken = buffer.toList.take count := by
    apply loop_ok fun count taken => taken = buffer.toList.take count
    · rfl
    · intro round below taken same
      have fits' : round < size := by omega
      refine ⟨taken ++ [buffer[round]], by rw [get_ok buffer fits']; rfl, ?_⟩
      rw [same, List.take_add_one, Vector.getElem?_toList, Vector.getElem?_eq_getElem fits']
      rfl
  obtain ⟨taken, ran, same⟩ := read
  rw [ran, same]

end Fill

end Fly2040.Checked
