import Fly2040.Lib.Bits
import Fly2040.Lib.Crc
import Mathlib.Algebra.CharP.Two
import Mathlib.Algebra.Field.ZMod
import Mathlib.Algebra.Polynomial.Div
import Mathlib.Tactic.LinearCombination
/-!
# Checksums as remainders

Bits are the coefficients of a polynomial modulo two, the highest first. A register that moves
towards its highest bit and combines with a polynomial whenever what falls out differs from the
bit that comes in divides by that polynomial with the power of its width in front: each move is a
multiplication by the variable up to a multiple of the divisor, so after any bits the register is
the remainder.
-/

namespace Fly2040.Remainder

open Bits Polynomial

variable {width : Nat}

/-- Coefficient that a bit stands for. -/
def coefficient (bit : Bool) : ZMod 2 := if bit then 1 else 0

/-- Polynomial that bits stand for, the highest coefficient first. -/
noncomputable def ofBits (bits : List Bool) : (ZMod 2)[X] :=
  bits.foldl (fun value bit => value * X + C (coefficient bit)) 0

/-- Polynomial that a register stands for. -/
noncomputable def value (register : BitVec width) : (ZMod 2)[X] := ofBits (highFirst register)

/-- Take a bit into the register. -/
def shift (poly register : BitVec width) (bit : Bool) : BitVec width :=
  register <<< 1 ^^^ if register.msb ^^ bit then poly else 0

/-- The polynomial that a register divides by. -/
noncomputable def divisor (poly : BitVec width) : (ZMod 2)[X] := X ^ width + value poly

/-- Bits add as coefficients. -/
theorem coefficient_xor (left right : Bool) :
    coefficient (left ^^ right) = coefficient left + coefficient right := by
  cases left <;> cases right <;> decide

/-- No bits stand for zero. -/
@[simp] theorem ofBits_nil : ofBits [] = 0 := rfl

/-- A bit at the end. -/
theorem ofBits_concat (bits : List Bool) (bit : Bool) :
    ofBits (bits ++ [bit]) = ofBits bits * X + C (coefficient bit) := by
  simp only [ofBits, List.foldl_append, List.foldl_cons, List.foldl_nil]

/-- Bits in two parts. -/
theorem ofBits_append (front back : List Bool) :
    ofBits (front ++ back) = ofBits front * X ^ back.length + ofBits back := by
  induction back using List.reverseRecOn with
  | nil => simp
  | append_singleton back bit ih =>
    rw [← List.append_assoc, ofBits_concat, ih, ofBits_concat, List.length_append,
      List.length_singleton]
    ring

/-- A bit in front. -/
theorem ofBits_cons (bit : Bool) (bits : List Bool) :
    ofBits (bit :: bits) = C (coefficient bit) * X ^ bits.length + ofBits bits := by
  have split := ofBits_append [bit] bits
  rw [List.singleton_append] at split
  rw [split, show [bit] = [] ++ [bit] from rfl, ofBits_concat, ofBits_nil, zero_mul, zero_add]

/-- A coefficient is the bit at that place from the end. -/
theorem ofBits_coeff (bits : List Bool) (index : Nat) :
    (ofBits bits).coeff index = coefficient (bits.reverse.getD index false) := by
  induction bits using List.reverseRecOn generalizing index with
  | nil => simp [coefficient]
  | append_singleton bits bit ih =>
    rw [ofBits_concat, coeff_add, List.reverse_concat]
    cases index with
    | zero => simp
    | succ index => rw [coeff_mul_X, ih, coeff_C_succ, add_zero, List.getD_cons_succ]

/-- A coefficient of a register is the bit at that place from the lowest. -/
@[simp] theorem value_coeff (register : BitVec width) (index : Nat) :
    (value register).coeff index = coefficient (register.getLsbD index) := by
  rw [value, ofBits_coeff]
  by_cases inside : index < width
  · rw [List.getD_eq_getElem _ _ (by simpa using inside), List.getElem_reverse, highFirst_getElem,
      BitVec.getMsbD_eq_getLsbD, highFirst_length, decide_eq_true (by omega), Bool.true_and,
      show width - 1 - (width - 1 - index) = index by omega]
  · rw [List.getD_eq_default _ _ (by simpa using inside), BitVec.getLsbD_of_ge _ _ (by omega)]

/-- A register stands for a polynomial below its width. -/
theorem value_degree (register : BitVec width) : (value register).degree < width := by
  apply (degree_lt_iff_coeff_zero _ _).mpr
  intro index above
  rw [value_coeff, BitVec.getLsbD_of_ge _ _ above]
  rfl

/-- Registers combine as polynomials. -/
theorem value_xor (left right : BitVec width) :
    value (left ^^^ right) = value left + value right := by
  ext index
  rw [coeff_add, value_coeff, value_coeff, value_coeff, BitVec.getLsbD_xor, coefficient_xor]

/-- The empty register. -/
@[simp] theorem value_zero : value (BitVec.ofNat width 0) = 0 := by
  ext index
  rw [value_coeff, coeff_zero, BitVec.getLsbD_zero]
  rfl

/-- Different registers stand for different polynomials. -/
theorem value_injective : Function.Injective (@value width) := by
  intro left right same
  apply BitVec.eq_of_getLsbD_eq
  intro index _
  have bits := congrArg (Polynomial.coeff · index) same
  rw [value_coeff, value_coeff] at bits
  revert bits
  cases left.getLsbD index <;> cases right.getLsbD index <;> decide

/-- Zeros stand for zero. -/
@[simp] theorem ofBits_replicate (count : Nat) : ofBits (List.replicate count false) = 0 := by
  induction count with
  | zero => rfl
  | succ count ih =>
    rw [List.replicate_succ, ofBits_cons, ih, coefficient, if_neg Bool.false_ne_true, C_0, zero_mul,
      zero_add]

/-- A register moved by some places, without what falls out. -/
theorem value_shiftLeft_drop (register : BitVec width) {count : Nat} (inside : count ≤ width) :
    value (register <<< count) = ofBits ((highFirst register).drop count) * X ^ count := by
  rw [value, highFirst_shiftLeft register inside, ofBits_append, List.length_replicate,
    ofBits_replicate, add_zero]

/-- The register moved by one place: a multiplication, without what falls out. -/
theorem value_shiftLeft (register : BitVec width) :
    value (register <<< 1) =
      value register * X + C (coefficient register.msb) * X ^ width := by
  ext index
  rw [coeff_add, value_coeff, coeff_C_mul_X_pow]
  cases index with
  | zero =>
    rw [mul_coeff_zero, coeff_X_zero, mul_zero, zero_add]
    by_cases empty : 0 = width
    · subst empty
      rw [if_pos rfl, BitVec.eq_nil register]
      rfl
    · rw [if_neg empty, BitVec.getLsbD_shiftLeft, decide_eq_true (show 0 < 1 by omega),
        Bool.not_true, Bool.and_false, Bool.false_and]
      rfl
  | succ index =>
    rw [coeff_mul_X, value_coeff, BitVec.getLsbD_shiftLeft,
      decide_eq_false (show ¬index + 1 < 1 by omega), Bool.not_false, Bool.and_true,
      Nat.add_sub_cancel]
    by_cases top : index + 1 = width
    · subst top
      rw [if_pos rfl, BitVec.msb_eq_getLsbD_last, Nat.add_sub_cancel, CharTwo.add_self_eq_zero,
        decide_eq_false (by omega), Bool.false_and]
      rfl
    · rw [if_neg top, add_zero]
      by_cases inside : index + 1 < width
      · rw [decide_eq_true inside, Bool.true_and]
      · rw [decide_eq_false inside, Bool.false_and, BitVec.getLsbD_of_ge _ _ (by omega)]

/-- The divisor is of the width of the register. -/
theorem divisor_degree (poly : BitVec width) : (divisor poly).degree = width := by
  rw [divisor, degree_add_eq_left_of_degree_lt, degree_X_pow]
  rw [degree_X_pow]
  exact value_degree poly

/-- The divisor has the leading coefficient one. -/
theorem divisor_monic (poly : BitVec width) : (divisor poly).Monic :=
  monic_X_pow_add (value_degree poly)

/-- A bit that is taken in: the register is multiplied, the bit enters at the width, and the divisor
is taken off if it fits. -/
theorem value_shift (poly register : BitVec width) (bit : Bool) :
    value (shift poly register bit) =
      value register * X + C (coefficient bit) * X ^ width +
        C (coefficient (register.msb ^^ bit)) * divisor poly := by
  have fits : value (if register.msb ^^ bit then poly else 0) =
      C (coefficient (register.msb ^^ bit)) * value poly := by
    cases register.msb ^^ bit with
    | false => simp [coefficient]
    | true => simp [coefficient]
  have twice : (2 : (ZMod 2)[X]) = 0 := CharTwo.two_eq_zero
  rw [shift, value_xor, value_shiftLeft, fits, divisor, coefficient_xor, C_add]
  linear_combination (-C (coefficient bit) * X ^ width) * twice

/-- After any bits the register is what was in it and the bits behind it, up to a multiple of the
divisor. -/
theorem value_foldl (poly register : BitVec width) (bits : List Bool) :
    ∃ quotient, value (bits.foldl (shift poly) register) + divisor poly * quotient =
      value register * X ^ bits.length + ofBits bits * X ^ width := by
  induction bits generalizing register with
  | nil => exact ⟨0, by simp⟩
  | cons bit bits ih =>
    have ⟨quotient, same⟩ := ih (shift poly register bit)
    refine ⟨quotient - C (coefficient (register.msb ^^ bit)) * X ^ bits.length, ?_⟩
    rw [List.foldl_cons, ofBits_cons, List.length_cons]
    rw [value_shift] at same
    linear_combination same

/-- After any bits the register is the remainder of what was in it and the bits behind it, moved by
the width. -/
theorem value_remainder (poly register : BitVec width) (bits : List Bool) :
    value (bits.foldl (shift poly) register) =
      (value register * X ^ bits.length + ofBits bits * X ^ width) %ₘ divisor poly := by
  have ⟨quotient, same⟩ := value_foldl poly register bits
  have below : (value (bits.foldl (shift poly) register)).degree < (divisor poly).degree := by
    rw [divisor_degree]
    exact value_degree _
  exact (div_modByMonic_unique quotient _ (divisor_monic poly) ⟨same, below⟩).2.symm

/-- A register that takes in its own bits is empty. -/
theorem foldl_shift_self (poly register : BitVec width) :
    (highFirst register).foldl (shift poly) register = BitVec.ofNat width 0 := by
  apply value_injective
  rw [value_remainder, highFirst_length]
  show (value register * X ^ width + value register * X ^ width) %ₘ divisor poly = _
  rw [CharTwo.add_self_eq_zero, zero_modByMonic, value_zero]

/-- A register that moves towards its lowest bit does the same with its bits in the other order. -/
theorem reflectedShift_reverse (poly register : BitVec width) (bit : Bool) :
    (Crc.reflectedShift poly register bit).reverse =
      shift poly.reverse register.reverse bit := by
  have moved : (register >>> 1).reverse = register.reverse <<< 1 := by
    apply BitVec.eq_of_getLsbD_eq
    intro index inside
    rw [BitVec.getLsbD_reverse, BitVec.getMsbD_ushiftRight, BitVec.getLsbD_shiftLeft,
      BitVec.getLsbD_reverse]
    simp [inside]
  have combined (left right : BitVec width) :
      (left ^^^ right).reverse = left.reverse ^^^ right.reverse := by
    apply BitVec.eq_of_getLsbD_eq
    intro index _
    rw [BitVec.getLsbD_reverse, BitVec.getMsbD_xor, BitVec.getLsbD_xor, BitVec.getLsbD_reverse,
      BitVec.getLsbD_reverse]
  have empty : (0 : BitVec width).reverse = 0 := BitVec.reverse_eq_zero_iff.mpr rfl
  rw [Crc.reflectedShift, shift, combined, moved, BitVec.msb_reverse]
  split
  next => rfl
  next => rw [empty]

/-- The two registers agree after any bits. -/
theorem foldl_reflectedShift_reverse (poly register : BitVec width) (bits : List Bool) :
    (bits.foldl (Crc.reflectedShift poly) register).reverse =
      bits.foldl (shift poly.reverse) register.reverse := by
  induction bits generalizing register with
  | nil => rfl
  | cons bit bits ih => rw [List.foldl_cons, ih, reflectedShift_reverse, List.foldl_cons]

end Fly2040.Remainder
