import Fly2040.Lib.Remainder
import Mathlib.GroupTheory.OrderOfElement
import Mathlib.RingTheory.AdjoinRoot
/-!
# Errors that a remainder finds

Two messages of one length leave the same register if the divisor divides the polynomial of the
places in which they differ. A divisor that ends in a one divides no burst that is as short as the
register, a divisor with the root one divides no odd number of places, and two places are found as
long as their distance is below the order of the variable modulo the divisor. The order is told
from a few powers, which the register computes itself.
-/

namespace Fly2040.Remainder

open Bits Polynomial

variable {width : Nat}

/-- Places in which two messages differ. -/
def differences (left right : List Bool) : List Bool := List.zipWith (· ^^ ·) left right

/-- As many places as in both messages. -/
theorem differences_length {left right : List Bool} (same : left.length = right.length) :
    (differences left right).length = left.length := by
  rw [differences, List.length_zipWith, ← same, Nat.min_self]

/-- Differences of messages in two parts. -/
theorem differences_append {left right : List Bool} (left' right' : List Bool)
    (same : left.length = right.length) :
    differences (left ++ left') (right ++ right') =
      differences left right ++ differences left' right' :=
  List.zipWith_append same

/-- A message does not differ from itself. -/
theorem differences_self (bits : List Bool) :
    differences bits bits = List.replicate bits.length false := by
  induction bits with
  | nil => rfl
  | cons bit bits ih =>
    show (bit ^^ bit) :: differences bits bits = false :: List.replicate bits.length false
    rw [Bool.xor_self, ih]

/-- Messages that differ in no place are equal. -/
theorem eq_of_differences {left right : List Bool} (same : left.length = right.length)
    (none : true ∉ differences left right) : left = right := by
  induction left generalizing right with
  | nil => exact (List.length_eq_zero_iff.mp same.symm).symm
  | cons bit left ih =>
    cases right with
    | nil => cases same
    | cons bit' right =>
      have parts : true ∉ (bit ^^ bit') :: differences left right := none
      rw [List.mem_cons, not_or] at parts
      have first : bit = bit' := by
        cases bit <;> cases bit' <;> simp_all
      rw [first, ih (Nat.succ_injective same) parts.2]

section Registers

variable {poly : BitVec width}

/-- Taking in a bit is linear. -/
theorem shift_xor (left right : BitVec width) (bit bit' : Bool) :
    shift poly (left ^^^ right) (bit ^^ bit') = shift poly left bit ^^^ shift poly right bit' := by
  have out : ((left ^^^ right).msb ^^ (bit ^^ bit')) =
      ((left.msb ^^ bit) ^^ (right.msb ^^ bit')) := by
    rw [BitVec.msb_xor]
    cases left.msb <;> cases right.msb <;> cases bit <;> cases bit' <;> rfl
  apply value_injective
  rw [value_xor, value_shift, value_shift, value_shift, value_xor, out, coefficient_xor,
    coefficient_xor, C_add, C_add]
  ring

/-- Taking in messages is linear. -/
theorem foldl_shift_xor {left right : List Bool} (same : left.length = right.length)
    (register register' : BitVec width) :
    (differences left right).foldl (shift poly) (register ^^^ register') =
      left.foldl (shift poly) register ^^^ right.foldl (shift poly) register' := by
  induction left generalizing right register register' with
  | nil =>
    rw [List.length_eq_zero_iff.mp same.symm]
    rfl
  | cons bit left ih =>
    cases right with
    | nil => cases same
    | cons bit' right =>
      show (differences left right).foldl (shift poly)
        (shift poly (register ^^^ register') (bit ^^ bit')) = _
      rw [shift_xor, ih (Nat.succ_injective same), List.foldl_cons, List.foldl_cons]

/-- Messages lead to the same register if their differences leave an empty one. -/
theorem foldl_shift_eq_iff {left right : List Bool} (same : left.length = right.length)
    (register : BitVec width) :
    left.foldl (shift poly) register = right.foldl (shift poly) register ↔
      (differences left right).foldl (shift poly) (BitVec.ofNat width 0) =
        BitVec.ofNat width 0 := by
  have linear := @foldl_shift_xor width poly left right same register register
  rw [BitVec.xor_self] at linear
  rw [linear]
  exact BitVec.xor_eq_zero_iff.symm

/-- A register with a lowest bit has a width. -/
theorem width_pos (ends : poly.getLsbD 0 = true) : 0 < width := by
  apply Nat.pos_of_ne_zero
  intro empty
  rw [BitVec.getLsbD_of_ge _ _ (Nat.le_of_eq empty)] at ends
  cases ends

/-- The lowest coefficient of a divisor that ends in a one. -/
theorem divisor_coeff_zero (ends : poly.getLsbD 0 = true) : (divisor poly).coeff 0 = 1 := by
  rw [divisor, coeff_add, coeff_X_pow, if_neg (Nat.ne_of_lt (width_pos ends)), value_coeff, ends,
    zero_add]
  rfl

/-- A divisor that ends in a one has no factor with a power of the variable. -/
theorem divisor_coprime (ends : poly.getLsbD 0 = true) (count : Nat) :
    IsCoprime (divisor poly) (X ^ count) := by
  apply IsCoprime.pow_right
  refine ⟨1, -divX (divisor poly), ?_⟩
  have split := divX_mul_X_add (divisor poly)
  rw [divisor_coeff_zero ends, C_1] at split
  linear_combination -split

/-- Bits leave an empty register if the divisor divides their polynomial. -/
theorem foldl_shift_zero_iff (ends : poly.getLsbD 0 = true) (bits : List Bool) :
    bits.foldl (shift poly) (BitVec.ofNat width 0) = BitVec.ofNat width 0 ↔
      divisor poly ∣ ofBits bits := by
  have remainder := value_remainder poly (BitVec.ofNat width 0) bits
  rw [value_zero, zero_mul, zero_add] at remainder
  rw [← value_injective.eq_iff, remainder, value_zero,
    modByMonic_eq_zero_iff_dvd (divisor_monic poly)]
  exact ⟨fun divides => (divisor_coprime ends width).dvd_of_dvd_mul_right divides,
    fun divides => Dvd.dvd.mul_right divides _⟩

/-- Messages of one length lead to the same register if the divisor divides their differences. -/
theorem foldl_shift_eq_iff_dvd (ends : poly.getLsbD 0 = true) {left right : List Bool}
    (same : left.length = right.length) (register : BitVec width) :
    left.foldl (shift poly) register = right.foldl (shift poly) register ↔
      divisor poly ∣ ofBits (differences left right) := by
  rw [foldl_shift_eq_iff same, foldl_shift_zero_iff ends]

/-- A message with a checksum behind it leaves nothing if the checksum is that of the message. -/
theorem foldl_shift_check_iff (ends : poly.getLsbD 0 = true) (bits : List Bool)
    (register check : BitVec width) :
    (bits ++ highFirst check).foldl (shift poly) register = BitVec.ofNat width 0 ↔
      bits.foldl (shift poly) register = check := by
  rw [List.foldl_append]
  generalize bits.foldl (shift poly) register = left
  constructor
  · intro empty
    have remainder := value_remainder poly left (highFirst check)
    rw [empty, value_zero, highFirst_length, ← add_mul] at remainder
    have divides := (modByMonic_eq_zero_iff_dvd (divisor_monic poly)).mp remainder.symm
    have sum := (divisor_coprime ends width).dvd_of_dvd_mul_right divides
    have none : value left + value check = 0 := by
      apply eq_zero_of_dvd_of_degree_lt sum
      rw [divisor_degree]
      exact lt_of_le_of_lt (degree_add_le _ _) (max_lt (value_degree _) (value_degree _))
    exact value_injective (CharTwo.add_eq_zero.mp none)
  · intro same
    rw [same]
    exact foldl_shift_self poly check

/-- Inverted messages differ in the same places. -/
theorem differences_not (left right : List Bool) :
    differences (left.map (!·)) (right.map (!·)) = differences left right := by
  have bits : (fun bit bit' => !bit ^^ !bit') = fun bit bit' : Bool => bit ^^ bit' := by
    funext bit bit'
    cases bit <;> cases bit' <;> rfl
  rw [differences, differences, List.zipWith_map, bits]

end Registers

section Bursts

/-- All ones lie within some places in a row, and there is one. -/
def Burst (count : Nat) (bits : List Bool) : Prop :=
  ∃ front middle back, bits = List.replicate front false ++ middle ++ List.replicate back false ∧
    middle.length ≤ count ∧ true ∈ middle

/-- A burst within more places. -/
theorem Burst.mono {count count' : Nat} {bits : List Bool} (burst : Burst count bits)
    (wider : count ≤ count') : Burst count' bits := by
  have ⟨front, middle, back, same, short, one⟩ := burst
  exact ⟨front, middle, back, same, Nat.le_trans short wider, one⟩

/-- A burst with zeros behind it. -/
theorem Burst.append {count : Nat} {bits : List Bool} (burst : Burst count bits) (zeros : Nat) :
    Burst count (bits ++ List.replicate zeros false) := by
  have ⟨front, middle, back, same, short, one⟩ := burst
  refine ⟨front, middle, back + zeros, ?_, short, one⟩
  rw [same, List.append_assoc, List.replicate_add]

/-- Some places behind zeros. -/
theorem burst_of_mem {count : Nat} {bits : List Bool} (short : bits.length ≤ count)
    (one : true ∈ bits) (zeros : Nat) : Burst count (List.replicate zeros false ++ bits) :=
  ⟨zeros, bits, 0, (List.append_nil _).symm, short, one⟩

/-- Bits stand for a polynomial below their number. -/
theorem ofBits_degree (bits : List Bool) : (ofBits bits).degree < bits.length := by
  apply (degree_lt_iff_coeff_zero _ _).mpr
  intro index above
  rw [ofBits_coeff, List.getD_eq_default _ _ (by rw [List.length_reverse]; exact above)]
  rfl

/-- Only zeros stand for zero. -/
theorem ofBits_ne_zero {bits : List Bool} (one : true ∈ bits) : ofBits bits ≠ 0 := by
  intro zero
  have ⟨index, inside, found⟩ := List.getElem_of_mem (List.mem_reverse.mpr one)
  have none : (ofBits bits).coeff index = 0 := by rw [zero, coeff_zero]
  rw [ofBits_coeff, List.getD_eq_getElem _ _ inside, found] at none
  exact one_ne_zero none

/-- A burst with zeros around it. -/
theorem ofBits_surrounded (front back : Nat) (middle : List Bool) :
    ofBits (List.replicate front false ++ middle ++ List.replicate back false) =
      ofBits middle * X ^ back := by
  rw [ofBits_append, ofBits_append, ofBits_replicate, ofBits_replicate, zero_mul, zero_add,
    List.length_replicate, add_zero]

/-- No burst that fits into the register is divided. -/
theorem Burst.not_dvd {poly : BitVec width} (ends : poly.getLsbD 0 = true) {bits : List Bool}
    (burst : Burst width bits) : ¬divisor poly ∣ ofBits bits := by
  intro divides
  have ⟨front, middle, back, same, short, one⟩ := burst
  rw [same, ofBits_surrounded] at divides
  have core := (divisor_coprime ends back).dvd_of_dvd_mul_right divides
  apply ofBits_ne_zero one
  apply eq_zero_of_dvd_of_degree_lt core
  rw [divisor_degree]
  exact lt_of_lt_of_le (ofBits_degree middle) (WithBot.coe_le_coe.mpr short)

/-- A polynomial at one is the number of its ones. -/
theorem eval_ofBits (bits : List Bool) : (ofBits bits).eval 1 = (bits.count true : ZMod 2) := by
  induction bits with
  | nil => simp
  | cons bit bits ih =>
    rw [ofBits_cons, eval_add, eval_mul, eval_C, eval_pow, eval_X, one_pow, mul_one, ih,
      List.count_cons]
    cases bit with
    | false => simp [coefficient]
    | true =>
      show 1 + (bits.count true : ZMod 2) = ((bits.count true + 1 : Nat) : ZMod 2)
      rw [Nat.cast_succ, add_comm]

/-- A divisor with the root one divides no odd number of places. -/
theorem odd_not_dvd {poly : BitVec width} (even : (highFirst poly).count true % 2 = 1)
    {bits : List Bool} (odd : bits.count true % 2 = 1) : ¬divisor poly ∣ ofBits bits := by
  intro divides
  have one_of_odd {count : Nat} (odd : count % 2 = 1) : (count : ZMod 2) = 1 :=
    (ZMod.natCast_eq_one_iff_odd).mpr (Nat.odd_iff.mpr odd)
  have root : (divisor poly).eval 1 = 0 := by
    rw [divisor, eval_add, eval_pow, eval_X, one_pow, value, eval_ofBits, one_of_odd even]
    decide
  obtain ⟨quotient, product⟩ := divides
  have both := congrArg (Polynomial.eval 1) product
  rw [eval_mul, root, zero_mul, eval_ofBits, one_of_odd odd] at both
  exact one_ne_zero both

/-- Messages that differ in at most two places, or within a short burst. -/
def Slight (count : Nat) (places : List Bool) : Prop :=
  Burst count places ∨ places.count true ≤ 2

/-- One place is a burst. -/
theorem burst_of_count_one {bits : List Bool} (one : bits.count true = 1) : Burst 1 bits := by
  induction bits with
  | nil => cases one
  | cons bit bits ih =>
    rw [List.count_cons] at one
    cases bit with
    | true =>
      have none : bits.count true = 0 := Nat.succ_injective one
      have zeros : bits = List.replicate bits.length false := by
        apply List.eq_replicate_of_mem
        intro bit inside
        have absent := List.count_eq_zero.mp none
        cases bit with
        | false => rfl
        | true => exact absurd inside absent
      refine ⟨0, [true], bits.length, ?_, Nat.le_refl 1, List.mem_singleton_self true⟩
      rw [← zeros]
      rfl
    | false =>
      have ⟨front, middle, back, same, short, found⟩ := ih one
      refine ⟨front + 1, middle, back, ?_, short, found⟩
      rw [same, List.replicate_succ, List.cons_append, List.cons_append]

/-- Two places, with a distance between them. -/
theorem ofBits_of_count_two {bits : List Bool} (two : bits.count true = 2) :
    ∃ distance back, 0 < distance ∧ distance < bits.length ∧
      ofBits bits = (X ^ distance + 1) * X ^ back := by
  induction bits with
  | nil => cases two
  | cons bit bits ih =>
    rw [List.count_cons] at two
    cases bit with
    | true =>
      obtain ⟨front, middle, back, same, short, found⟩ :=
        burst_of_count_one (show bits.count true = 1 from Nat.succ_injective two)
      have single : middle = [true] := by
        cases middle with
        | nil => cases found
        | cons bit rest =>
          have empty : rest = [] :=
            List.length_eq_zero_iff.mp (Nat.le_zero.mp (Nat.le_of_succ_le_succ short))
          rw [empty] at found ⊢
          rw [List.mem_singleton.mp found]
      have length : bits.length = front + 1 + back := by
        rw [same, single, List.length_append, List.length_append, List.length_replicate,
          List.length_replicate, List.length_singleton]
      refine ⟨front + 1, back, Nat.succ_pos _, ?_, ?_⟩
      · rw [List.length_cons, length]
        omega
      · have tail : ofBits bits = X ^ back := by
          rw [same, ofBits_surrounded, single, ofBits_cons]
          simp [coefficient]
        rw [ofBits_cons, tail, length]
        simp only [coefficient, if_true, C_1]
        ring
    | false =>
      obtain ⟨distance, back, positive, inside, same⟩ := ih two
      refine ⟨distance, back, positive, Nat.lt_succ_of_lt inside, ?_⟩
      rw [ofBits_cons, same]
      simp [coefficient]

end Bursts

section Orders

variable (poly : BitVec width)

/-- Product of two registers. -/
def times (left right : BitVec width) : BitVec width :=
  (highFirst left).foldl
    (fun total bit => shift poly total false ^^^ if bit then right else BitVec.ofNat width 0)
    (BitVec.ofNat width 0)

/-- Power of the variable, for exponents with a number of binary digits. -/
def power : (digits exponent : Nat) → BitVec width
  | 0, _ => BitVec.ofNat width 1
  | digits + 1, exponent =>
    let half := power digits (exponent / 2)
    if exponent % 2 = 1 then shift poly (times poly half half) false else times poly half half

/-- What a register stands for, modulo the divisor. -/
noncomputable def residue (register : BitVec width) : AdjoinRoot (divisor poly) :=
  AdjoinRoot.mk (divisor poly) (value register)

/-- A move without a bit is a multiplication by the variable. -/
theorem residue_shift (register : BitVec width) :
    residue poly (shift poly register false) =
      residue poly register * AdjoinRoot.root (divisor poly) := by
  have none : coefficient false = 0 := rfl
  rw [residue, value_shift, none, C_0, zero_mul, add_zero, map_add, map_mul, map_mul,
    AdjoinRoot.mk_self, mul_zero, add_zero, AdjoinRoot.mk_X]
  rfl

/-- A product stands for the product. -/
theorem residue_times (left right : BitVec width) :
    residue poly (times poly left right) = residue poly left * residue poly right := by
  have steps (bits : List Bool) :
      residue poly (bits.foldl
        (fun total bit => shift poly total false ^^^ if bit then right else BitVec.ofNat width 0)
        (BitVec.ofNat width 0)) =
      AdjoinRoot.mk (divisor poly) (ofBits bits) * residue poly right := by
    induction bits using List.reverseRecOn with
    | nil =>
      rw [List.foldl_nil, residue, value_zero, ofBits_nil, map_zero, zero_mul]
    | append_singleton bits bit ih =>
      have entering : value (if bit then right else BitVec.ofNat width 0) =
          C (coefficient bit) * value right := by
        cases bit <;> simp [coefficient]
      rw [List.foldl_append, List.foldl_cons, List.foldl_nil, residue, value_xor, map_add, entering,
        map_mul]
      have shifted := residue_shift poly (bits.foldl
        (fun total bit => shift poly total false ^^^ if bit then right else BitVec.ofNat width 0)
        (BitVec.ofNat width 0))
      rw [residue] at shifted
      rw [shifted, ih, ofBits_concat, map_add, map_mul, AdjoinRoot.mk_X]
      show _ + _ * residue poly right = _
      ring
  exact steps (highFirst left)

/-- A register below the divisor stands for one only if it is one. -/
theorem residue_eq_one_iff (ends : poly.getLsbD 0 = true) (register : BitVec width) :
    residue poly register = 1 ↔ register = BitVec.ofNat width 1 := by
  have wide := width_pos ends
  have one : value (BitVec.ofNat width 1) = 1 := by
    ext index
    rw [value_coeff, coeff_one, BitVec.getLsbD_ofNat]
    cases index with
    | zero => simp [wide, coefficient]
    | succ index => simp [coefficient, Nat.testBit_succ]
  constructor
  · intro same
    rw [residue, ← map_one (AdjoinRoot.mk (divisor poly)), AdjoinRoot.mk_eq_mk] at same
    apply value_injective
    rw [one]
    apply sub_eq_zero.mp
    apply eq_zero_of_dvd_of_degree_lt same
    rw [divisor_degree, ← one]
    exact lt_of_le_of_lt (degree_sub_le _ _) (max_lt (value_degree _) (value_degree _))
  · intro same
    rw [residue, same, one, map_one]

/-- A power stands for the power. -/
theorem residue_power (ends : poly.getLsbD 0 = true) {digits exponent : Nat}
    (fits : exponent < 2 ^ digits) :
    residue poly (power poly digits exponent) = AdjoinRoot.root (divisor poly) ^ exponent := by
  induction digits generalizing exponent with
  | zero =>
    rw [Nat.lt_one_iff.mp fits, pow_zero]
    exact (residue_eq_one_iff poly ends _).mpr rfl
  | succ digits ih =>
    have half := ih (show exponent / 2 < 2 ^ digits by rw [Nat.pow_succ] at fits; omega)
    rw [power]
    split
    next odd =>
      rw [residue_shift, residue_times, half, ← pow_add, ← pow_succ]
      congr 1
      omega
    next even =>
      rw [residue_times, half, ← pow_add]
      congr 1
      omega

/-- The order of the variable, told from its powers. -/
theorem orderOf_root (ends : poly.getLsbD 0 = true) (digits : Nat) {order : Nat}
    (positive : 0 < order) (fits : order < 2 ^ digits)
    (whole : power poly digits order = BitVec.ofNat width 1)
    (parts : ∀ factor, factor.Prime → factor ∣ order →
      power poly digits (order / factor) ≠ BitVec.ofNat width 1) :
    orderOf (AdjoinRoot.root (divisor poly)) = order := by
  apply orderOf_eq_of_pow_and_pow_div_prime positive
  · rw [← residue_power poly ends fits]
    exact (residue_eq_one_iff poly ends _).mpr whole
  · intro factor prime divides one
    have below : order / factor < 2 ^ digits := lt_of_le_of_lt (Nat.div_le_self _ _) fits
    rw [← residue_power poly ends below] at one
    exact parts factor prime divides ((residue_eq_one_iff poly ends _).mp one)

/-- Two places are found in messages that are not longer than the order. -/
theorem pair_not_dvd {order : Nat} (ends : poly.getLsbD 0 = true)
    (period : orderOf (AdjoinRoot.root (divisor poly)) = order) {bits : List Bool}
    (short : bits.length ≤ order) (two : bits.count true = 2) : ¬divisor poly ∣ ofBits bits := by
  intro divides
  have ⟨distance, back, positive, inside, same⟩ := ofBits_of_count_two two
  rw [same] at divides
  have core := (divisor_coprime ends back).dvd_of_dvd_mul_right divides
  have one : AdjoinRoot.root (divisor poly) ^ distance = 1 := by
    rw [← AdjoinRoot.mk_X, ← map_pow, ← map_one (AdjoinRoot.mk (divisor poly)),
      AdjoinRoot.mk_eq_mk, CharTwo.sub_eq_add]
    exact core
  have multiple := orderOf_dvd_of_pow_eq_one one
  rw [period] at multiple
  exact absurd (Nat.le_of_dvd positive multiple) (by omega)

/-- Slight damage is found, in messages that are not longer than the order: two of them lead to the
same register only if they are equal. -/
theorem foldl_shift_eq_iff_of_slight {order : Nat} {poly : BitVec width}
    (ends : poly.getLsbD 0 = true)
    (period : orderOf (AdjoinRoot.root (divisor poly)) = order) {left right : List Bool}
    (same : left.length = right.length) (short : left.length ≤ order)
    (slight : Slight width (differences left right)) (register : BitVec width) :
    left.foldl (shift poly) register = right.foldl (shift poly) register ↔ left = right := by
  constructor
  · intro collides
    have divides := (foldl_shift_eq_iff_dvd ends same register).mp collides
    cases slight with
    | inl burst => exact absurd divides (burst.not_dvd ends)
    | inr few =>
      apply eq_of_differences same
      intro one
      have some := List.count_pos_iff.mpr one
      have cases : (differences left right).count true = 1 ∨
          (differences left right).count true = 2 := by omega
      cases cases with
      | inl single =>
        have wide := width_pos ends
        exact ((burst_of_count_one single).mono wide).not_dvd ends divides
      | inr two =>
        apply pair_not_dvd poly ends period _ two divides
        rw [differences_length same]
        exact short
  · intro equal
    rw [equal]

end Orders

end Fly2040.Remainder
