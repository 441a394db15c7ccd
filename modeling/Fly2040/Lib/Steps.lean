import Mathlib.Logic.Function.Iterate
/-!
# Machines that step

A machine goes from one state to the next. It reaches the states that it is in after some steps; a
state that it does not leave is the only such state that it reaches. A machine that comes back again
and again reaches none outside of where it comes back to.
-/

namespace Fly2040.Steps

variable {σ : Type} {step : σ → σ} {state middle last other : σ}

/-- A state that is reached after some steps. -/
def Reaches (step : σ → σ) (state last : σ) : Prop := ∃ count : Nat, step^[count] state = last

/-- A state is reached from itself. -/
theorem Reaches.refl : Reaches step state state := ⟨0, rfl⟩

/-- What is reached after one step. -/
theorem Reaches.head (rest : Reaches step (step state) last) : Reaches step state last := by
  have ⟨count, same⟩ := rest
  exact ⟨count + 1, same⟩

/-- A step that is known. -/
theorem Reaches.next (one : step state = middle) (rest : Reaches step middle last) :
    Reaches step state last := by
  apply Reaches.head
  rw [one]
  exact rest

/-- One run after the other. -/
theorem Reaches.trans (first : Reaches step state middle) (rest : Reaches step middle last) :
    Reaches step state last := by
  have ⟨count, same⟩ := first
  have ⟨count', same'⟩ := rest
  refine ⟨count' + count, ?_⟩
  rw [Function.iterate_add_apply, same, same']

/-- What every step keeps holds of what is reached. -/
theorem Reaches.kept {inv : σ → Prop} (keeps : ∀ state, inv state → inv (step state))
    (reaches : Reaches step state last) (now : inv state) : inv last := by
  have ⟨count, same⟩ := reaches
  rw [← same]
  clear same reaches
  induction count generalizing state with
  | zero => exact now
  | succ count ih => exact ih (keeps state now)

/-- At most one state that is not left is reached. -/
theorem Reaches.halted_unique (reaches : Reaches step state last)
    (reaches' : Reaches step state other) (halted : step last = last)
    (halted' : step other = other) : last = other := by
  have ⟨count, same⟩ := reaches
  have ⟨count', same'⟩ := reaches'
  calc
    last = step^[count'] last := (Function.iterate_fixed halted count').symm
    _ = step^[count' + count] state := by rw [Function.iterate_add_apply, same]
    _ = step^[count] (step^[count'] state) := by rw [Nat.add_comm, Function.iterate_add_apply]
    _ = step^[count] other := by rw [same']
    _ = other := Function.iterate_fixed halted' count

/-- A machine that comes back to some states does not reach one outside of them that it would not
leave. -/
theorem not_reaches_of_return {states : σ → Prop}
    (again : ∀ state, states state → ∃ back, states back ∧ Reaches step (step state) back)
    (halted : step last = last) (outside : ¬states last) (inside : states state) :
    ¬Reaches step state last := by
  intro reaches
  have ⟨count, same⟩ := reaches
  clear reaches
  induction count using Nat.strongRecOn generalizing state with
  | _ count ih =>
    have ⟨back, inside', count', same'⟩ := again state inside
    change step^[count' + 1] state = back at same'
    by_cases early : count ≤ count' + 1
    · have whole : count' + 1 = (count' + 1 - count) + count := by omega
      rw [whole, Function.iterate_add_apply, same, Function.iterate_fixed halted] at same'
      rw [← same'] at inside'
      exact outside inside'
    · have whole : count = (count - (count' + 1)) + (count' + 1) := by omega
      rw [whole, Function.iterate_add_apply, same'] at same
      exact ih (count - (count' + 1)) (by omega) inside' same

section Clocks

variable {inv goal : σ → Prop} {good : Nat → Prop} (clock measure : σ → Nat)
  (ticks : ∀ state, clock (step state) = clock state + 1)
  (keeps : ∀ state, inv state → inv (step state) ∧ measure (step state) ≤ measure state)

include ticks keeps in
/-- A machine with a clock is there at any later time, and a measure that never grows is no larger
than now. -/
theorem Reaches.at_time {time : Nat} (later : clock state ≤ time) (now : inv state) :
    ∃ next, Reaches step state next ∧ inv next ∧ measure next ≤ measure state ∧
      clock next = time := by
  have ⟨left, same⟩ := Nat.exists_eq_add_of_le later
  clear later
  induction left generalizing state with
  | zero => exact ⟨state, .refl, now, Nat.le_refl _, by omega⟩
  | succ left ih =>
    have ⟨after, less⟩ := keeps state now
    have ⟨next, reaches, after', less', last⟩ := ih after (by rw [ticks]; omega)
    exact ⟨next, reaches.head, after', Nat.le_trans less' less, last⟩

include ticks keeps in
/-- A machine with a clock and a measure that never grows, and that shrinks at moments that come
again and again, reaches what ends the shrinking. -/
theorem Reaches.of_often (often : ∀ time, ∃ later, time ≤ later ∧ good later)
    (shrinks : ∀ state, inv state → good (clock state) → ¬goal state →
      measure (step state) < measure state)
    (now : inv state) : ∃ last, Reaches step state last ∧ inv last ∧ goal last := by
  induction size : measure state using Nat.strongRecOn generalizing state with
  | _ size ih =>
    have ⟨time, later, moment⟩ := often (clock state)
    have ⟨next, reaches, inside, less, same⟩ := Reaches.at_time clock measure ticks keeps later now
    by_cases done : goal next
    · exact ⟨next, reaches, inside, done⟩
    rw [← same] at moment
    have shrunk := shrinks next inside moment done
    have ⟨last, reaches', inside', done'⟩ :=
      ih (measure (step next)) (by omega) (keeps next inside).1 rfl
    exact ⟨last, reaches.trans reaches'.head, inside', done'⟩

end Clocks

end Fly2040.Steps
