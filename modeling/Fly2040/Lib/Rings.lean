import Mathlib.Data.List.Basic
import Mathlib.Data.Nat.ModEq
/-!
# Items in a ring

A list whose front follows its end holds items from a place on. An item is added behind the last
one and removed from the front.
-/

namespace Fly2040.Rings

variable {α : Type} {ring items : List α} {start : Nat} {item : α}

/-- The items stand in a ring, one behind the other from a place on. -/
structure Holds (ring : List α) (start : Nat) (items : List α) : Prop where
  /-- There are no more items than places. -/
  fits : items.length ≤ ring.length
  /-- Each item stands in its place. -/
  place : ∀ index < items.length, ring[(start + index) % ring.length]? = items[index]?

/-- Different items have different places. -/
theorem place_ne {size index other : Nat} (before : index < other) (fits : other < size) :
    (start + index) % size ≠ (start + other) % size := by
  intro same
  have residues : index ≡ other [MOD size] := Nat.ModEq.add_left_cancel' start same
  have equal : index = other := residues.eq_of_lt_of_lt (by omega) fits
  omega

/-- Nothing stands everywhere. -/
theorem holds_nil : Holds ring start [] where
  fits := Nat.zero_le _
  place _ absurd := (Nat.not_lt_zero _ absurd).elim

/-- One more item is put behind the last one. -/
theorem Holds.push (holds : Holds ring start items) (room : items.length < ring.length) (item : α) :
    Holds (ring.set ((start + items.length) % ring.length) item) start (items ++ [item]) where
  fits := by
    rw [List.length_append, List.length_singleton, List.length_set]
    exact room
  place index inside := by
    rw [List.length_append, List.length_singleton] at inside
    rw [List.length_set]
    have places : 0 < ring.length := Nat.zero_lt_of_lt room
    by_cases last : index = items.length
    · rw [last, List.getElem?_set_self (Nat.mod_lt _ places),
        List.getElem?_append_right (Nat.le_refl _), Nat.sub_self, List.getElem?_cons_zero]
    · have before : index < items.length := by omega
      rw [List.getElem?_set_ne (place_ne before room).symm, List.getElem?_append_left before]
      exact holds.place index before

/-- The first item is removed. -/
theorem Holds.pop (holds : Holds ring start (item :: items)) :
    ring[start % ring.length]? = some item ∧ Holds ring ((start + 1) % ring.length) items := by
  constructor
  · have first := holds.place 0 (Nat.zero_lt_succ _)
    rw [Nat.add_zero, List.getElem?_cons_zero] at first
    exact first
  · constructor
    · exact Nat.le_of_succ_le holds.fits
    · intro index inside
      have next := holds.place (index + 1) (Nat.succ_lt_succ inside)
      rw [List.getElem?_cons_succ] at next
      rw [Nat.mod_add_mod, Nat.add_assoc, Nat.add_comm 1 index]
      exact next

end Fly2040.Rings
