import Fly2040.Firmware.Random
import Fly2040.Lib.Checked
/-!
# The random order of the grid

The offsets of the grid are written to an array, and each of them from the last one on is exchanged
with one that a random word picks among those up to it. With checked accesses no index is out of
bounds. A round may bring any of the offsets that are left to its place, so no order is out of
reach.
-/

namespace Fly2040.Firmware

open Checked

/-- A round of the shuffle: the element of an index is exchanged with the one that a word picks. -/
def exchange (word : UInt32) (i : Nat) (offsets : Vector Nat offsetCnt) :
    Except Fault (Vector Nat offsetCnt) := do
  let j ← mod word (UInt32.ofNat (i + 1))
  let t ← get offsets j.toNat
  let offsets ← set offsets j.toNat (← get offsets i)
  set offsets i t

/-- The rounds from an index downwards, with the word of each. -/
def exchangeFrom (words : Nat → UInt32) :
    (i : Nat) → Vector Nat offsetCnt → Except Fault (Vector Nat offsetCnt)
  | 0, offsets => .ok offsets
  | i + 1, offsets => do exchangeFrom words i (← exchange (words (i + 1)) (i + 1) offsets)

/-- Write the grid to the array and shuffle it, with words in the order in which they are drawn. -/
def prepareRandomArrayInPlace (stream : Nat → UInt32) (offsetsArray : Vector Nat offsetCnt) :
    Except Fault (Vector Nat offsetCnt) := do
  let offsets ← fill (fun i => offsetMin + offsetDiv * i) offsetCnt offsetsArray
  exchangeFrom (fun i => stream (offsetCnt - 1 - i)) (offsetCnt - 1) offsets

section Rounds

variable {words words' : Nat → UInt32} {index : Nat} {offsets order : Vector Nat offsetCnt}

/-- A round uses only indices in bounds, and exchanges the two elements. -/
theorem exchange_ok (word : UInt32) (inside : index < offsetCnt) (offsets : Vector Nat offsetCnt) :
    exchange word index offsets = .ok (offsets.swap (drawnIndex word index) index
      (Nat.lt_of_le_of_lt (drawnIndex_le word index) inside) inside) := by
  have count : (UInt32.ofNat (index + 1)).toNat = index + 1 :=
    UInt32.toNat_ofNat_of_lt' (Nat.lt_of_le_of_lt inside (by decide))
  have divisor : UInt32.ofNat (index + 1) ≠ 0 := by
    intro zero
    rw [zero] at count
    exact absurd count (Nat.succ_ne_zero index).symm
  have pick : (word % UInt32.ofNat (index + 1)).toNat = drawnIndex word index := by
    rw [UInt32.toNat_mod, count, drawnIndex]
  have picked := Nat.lt_of_le_of_lt (drawnIndex_le word index) inside
  have remainder : mod word (UInt32.ofNat (index + 1)) =
      pure (word % UInt32.ofNat (index + 1)) := mod_ok word divisor
  have old : get offsets (drawnIndex word index) = pure offsets[drawnIndex word index] :=
    get_ok offsets picked
  have last : get offsets index = pure offsets[index] := get_ok offsets inside
  have stored : set offsets (drawnIndex word index) offsets[index] =
      pure (offsets.set (drawnIndex word index) offsets[index] picked) := set_ok offsets _ picked
  rw [exchange, remainder, pure_bind, pick, old, pure_bind, last, pure_bind, stored, pure_bind]
  exact set_ok _ _ inside

/-- The rounds use only indices in bounds, and are those of the shuffle. -/
theorem exchangeFrom_ok (words : Nat → UInt32) (inside : index < offsetCnt)
    (offsets : Vector Nat offsetCnt) :
    exchangeFrom words index offsets = .ok (shuffleFrom words index inside offsets) := by
  induction index generalizing offsets with
  | zero => rfl
  | succ index ih =>
    rw [exchangeFrom, exchange_ok _ inside]
    exact ih (Nat.lt_of_succ_lt inside) _

/-- The whole shuffle uses only indices in bounds, whatever was in the array. -/
theorem prepareRandomArrayInPlace_ok (stream : Nat → UInt32)
    (offsetsArray : Vector Nat offsetCnt) :
    prepareRandomArrayInPlace stream offsetsArray =
      .ok (prepareRandomArray fun i => stream (offsetCnt - 1 - i)) := by
  have ⟨grid, filled, values⟩ :=
    fill_ok (fun i => offsetMin + offsetDiv * i) offsetsArray (Nat.le_refl offsetCnt)
  have same : grid = Vector.ofFn gridOffset := by
    apply Vector.ext
    intro i inside
    rw [values i inside, if_pos inside, Vector.getElem_ofFn]
    rfl
  have ran : fill (fun i => offsetMin + offsetDiv * i) offsetCnt offsetsArray =
      pure (Vector.ofFn gridOffset) := by
    rw [filled, same]
    rfl
  have last : offsetCnt - 1 = 109 := by decide
  rw [prepareRandomArrayInPlace, ran, pure_bind, last, prepareRandomArray]
  exact exchangeFrom_ok _ _ _

/-- Rounds depend on their own words only. -/
theorem shuffleFrom_congr (inside : index < offsetCnt) (offsets : Vector Nat offsetCnt)
    (same : ∀ i ≤ index, words i = words' i) :
    shuffleFrom words index inside offsets = shuffleFrom words' index inside offsets := by
  induction index generalizing offsets with
  | zero => rfl
  | succ index ih =>
    rw [shuffleFrom, shuffleFrom, ih _ _ fun i below => same i (Nat.le_succ_of_le below)]
    simp only [same (index + 1) (Nat.le_refl _)]

/-- The word of an index picks it. -/
theorem drawnIndex_ofNat {pick : Nat} (inside : index < offsetCnt) (below : pick ≤ index) :
    drawnIndex (UInt32.ofNat pick) index = pick := by
  have small : pick < UInt32.size :=
    Nat.lt_trans (Nat.lt_of_le_of_lt below inside) (by decide)
  rw [drawnIndex, UInt32.toNat_ofNat_of_lt' small, Nat.mod_eq_of_lt (Nat.lt_succ_of_le below)]

/-- Where two orders agree behind an index, the element that one has there is among those that the
other has up to it. -/
theorem pick_exists (inside : index < offsetCnt) (perm : order.toList.Perm offsets.toList)
    (settled : ∀ k (bound : k < offsetCnt), index < k → order[k] = offsets[k]) :
    ∃ pick, ∃ bound : pick < offsetCnt, pick ≤ index ∧ offsets[pick] = order[index] := by
  have tails : order.toList.drop (index + 1) = offsets.toList.drop (index + 1) := by
    apply List.ext_getElem
    · rw [List.length_drop, List.length_drop, Vector.length_toList, Vector.length_toList]
    · intro k here there
      rw [List.getElem_drop, List.getElem_drop, Vector.getElem_toList, Vector.getElem_toList]
      exact settled _ _ (by omega)
  have heads : (order.toList.take (index + 1)).Perm (offsets.toList.take (index + 1)) := by
    rw [← List.perm_append_right_iff (order.toList.drop (index + 1)), List.take_append_drop,
      tails, List.take_append_drop]
    exact perm
  have here : order[index] ∈ order.toList.take (index + 1) := by
    apply List.mem_take_iff_getElem.mpr
    refine ⟨index, ?_, Vector.getElem_toList _⟩
    rw [Vector.length_toList]
    omega
  have ⟨pick, bound, found⟩ := List.mem_take_iff_getElem.mp (heads.mem_iff.mp here)
  exact ⟨pick, by omega, by omega, found⟩

/-- Every order that agrees behind an index is reached by the words of some rounds. -/
theorem shuffleFrom_reaches (inside : index < offsetCnt) (perm : order.toList.Perm offsets.toList)
    (settled : ∀ k (bound : k < offsetCnt), index < k → order[k] = offsets[k]) :
    ∃ words, shuffleFrom words index inside offsets = order := by
  induction index generalizing offsets with
  | zero =>
    have ⟨pick, _, below, found⟩ := pick_exists inside perm settled
    have same : offsets = order := by
      apply Vector.ext
      intro k bound
      by_cases first : k = 0
      · subst first
        cases Nat.le_zero.mp below
        exact found
      · exact (settled k bound (Nat.pos_of_ne_zero first)).symm
    exact ⟨fun _ => 0, same⟩
  | succ index ih =>
    have ⟨pick, picked, below, found⟩ := pick_exists inside perm settled
    have ⟨words, reached⟩ := ih (Nat.lt_of_succ_lt inside)
      (perm.trans (Vector.swap_perm picked inside).symm.toList) (by
        intro k bound behind
        by_cases last : k = index + 1
        · subst last
          rw [Vector.getElem_swap_right, found]
        · rw [Vector.getElem_swap_of_ne (by omega) last]
          exact settled k bound (by omega))
    refine ⟨Function.update words (index + 1) (UInt32.ofNat pick), ?_⟩
    rw [shuffleFrom, ← reached]
    simp only [Function.update_self, drawnIndex_ofNat inside below]
    apply shuffleFrom_congr
    intro i bound
    exact Function.update_of_ne (by omega) _ _

end Rounds

/-- Whatever words are drawn and whatever was in the array, the shuffle uses only indices in bounds
and leaves every offset of the grid once. Every order of the grid is left for some words. -/
theorem every_order_prepared :
    (∀ stream offsetsArray, ∃ order, prepareRandomArrayInPlace stream offsetsArray = .ok order ∧
      order.toList.Perm (List.ofFn gridOffset)) ∧
    ∀ order : Vector Nat offsetCnt, order.toList.Perm (List.ofFn gridOffset) →
      ∃ stream, ∀ offsetsArray, prepareRandomArrayInPlace stream offsetsArray = .ok order := by
  constructor
  · intro stream offsetsArray
    exact ⟨_, prepareRandomArrayInPlace_ok stream offsetsArray, prepareRandomArray_perm _⟩
  · intro order perm
    have grid : order.toList.Perm (Vector.ofFn gridOffset).toList := by
      rw [Vector.toList_ofFn]
      exact perm
    have ⟨words, reached⟩ := shuffleFrom_reaches (show 109 < offsetCnt by decide) grid (by
      intro k bound behind
      have last : offsetCnt = 110 := by decide
      omega)
    refine ⟨fun drawn => words (offsetCnt - 1 - drawn), fun offsetsArray => ?_⟩
    rw [prepareRandomArrayInPlace_ok, ← reached, prepareRandomArray]
    apply congrArg
    apply shuffleFrom_congr
    intro i below
    have last : offsetCnt - 1 = 109 := by decide
    rw [last, Nat.sub_sub_self below]

/-- The grid is left from the last offset to the first one for some words. -/
theorem reverse_prepared :
    ∃ stream, ∀ offsetsArray,
      prepareRandomArrayInPlace stream offsetsArray = .ok (Vector.ofFn gridOffset).reverse :=
  every_order_prepared.2 _ (by
    rw [Vector.toList_reverse, Vector.toList_ofFn]
    exact List.reverse_perm _)

end Fly2040.Firmware
