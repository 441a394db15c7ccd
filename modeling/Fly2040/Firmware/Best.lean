import Fly2040.Firmware.Config
import Fly2040.Lib.Cursors
/-!
# The best record

Each call for the best record goes through the grid and picks an offset by its weight: the caller
keeps the weight of the last one, and two statics keep the weight and the offset of the last call.
The statics break ties. From the first call on, whatever they held before, the calls go through the
recorded offsets by weight, and through those of one weight by offset.
-/

namespace Fly2040.Firmware

open Cursors

/-- The offsets of the grid, as the loop takes them. -/
def grid : List Nat := List.range' offsetMin ((offsetMax - offsetMin) / offsetDiv) offsetDiv

/-- Statics of the search for the best record. -/
structure BestStatics where
  /-- Weight that the last call found. -/
  lastWeight : Int
  /-- Offset that the last call found. -/
  lastOffset : Int
deriving DecidableEq

/-- Locals of the loop. -/
structure Best where
  /-- Offset of the best record so far, or -1. -/
  offset : Int
  /-- Its weight. -/
  weight : Int
deriving DecidableEq

/-- Whether a record of a weight has not been returned before. -/
def isCandidate (statics : BestStatics) (maxWeight curWeight : Int) (offset : Nat) : Prop :=
  maxWeight = -1 ∨ curWeight < maxWeight ∨
    (curWeight = maxWeight ∧ maxWeight = statics.lastWeight ∧ statics.lastOffset < offset)

instance (statics : BestStatics) (maxWeight curWeight : Int) (offset : Nat) :
    Decidable (isCandidate statics maxWeight curWeight offset) :=
  inferInstanceAs (Decidable (_ ∨ _ ∨ _))

/-- A round of the loop. -/
def considerRecord (weights : Nat → Nat) (statics : BestStatics) (maxWeight : Int) (best : Best)
    (offset : Nat) : Best :=
  if best.weight < weights offset ∧ isCandidate statics maxWeight (weights offset) offset then
    ⟨offset, weights offset⟩
  else best

/-- What a call returns and leaves. -/
structure BestRecord where
  /-- Offset that is returned, or -1. -/
  offset : Int
  /-- Value of the caller's variable. -/
  maxWeight : Int
  /-- The statics. -/
  statics : BestStatics
deriving DecidableEq

/-- Best record after the last one. -/
def findBestRecord (weights : Nat → Nat) (statics : BestStatics) (maxWeight : Int) : BestRecord :=
  let best := grid.foldl (considerRecord weights statics maxWeight) ⟨-1, 0⟩
  { offset := best.offset
    maxWeight := if best.offset ≠ -1 then best.weight else maxWeight
    statics := ⟨best.weight, best.offset⟩ }

/-- What the calls carry: the caller's variable and the statics. -/
structure BestCursor where
  /-- Value of the caller's variable. -/
  maxWeight : Int
  /-- The statics. -/
  statics : BestStatics

/-- A call as a step, which finds an offset unless it returns -1. -/
def nextRecord (weights : Nat → Nat) (cursor : BestCursor) : Option Nat × BestCursor :=
  let record := findBestRecord weights cursor.statics cursor.maxWeight
  (if record.offset = -1 then none else some record.offset.toNat, ⟨record.maxWeight, record.statics⟩)

/-- Recorded offsets in order: by falling weight, then by rising offset. -/
def Heavier (weights : Nat → Nat) (offset other : Nat) : Prop :=
  weights other < weights offset ∨ (weights other = weights offset ∧ offset < other)

instance (weights : Nat → Nat) : IsTrans Nat (Heavier weights) where
  trans first second third left right := by
    unfold Heavier at *
    omega

instance (weights : Nat → Nat) : Std.Irrefl (Heavier weights) where
  irrefl offset same := by
    unfold Heavier at same
    omega

/-- The offsets of the grid that have a record. -/
def recorded (weights : Nat → Nat) : Finset Nat := grid.toFinset.filter (0 < weights ·)

/-- What the cursor knows: that no call was made, or which offset the last one found. -/
def KnowsLast (weights : Nat → Nat) : Option Nat → BestCursor → Prop
  | none, cursor => cursor.maxWeight = -1
  | some last, cursor =>
    cursor.maxWeight = weights last ∧ cursor.statics = ⟨weights last, last⟩

section

variable {weights : Nat → Nat} {statics : BestStatics} {maxWeight : Int} {best : Best}
  {offset other : Nat}

/-- The loop takes the offsets of the grid. -/
theorem mem_grid : offset ∈ grid ↔ ∃ index : Fin offsetCnt, gridOffset index = offset := by
  unfold grid
  rw [List.mem_range']
  constructor
  · intro listed
    obtain ⟨index, below, same⟩ := listed
    exact ⟨⟨index, below⟩, same.symm⟩
  · intro listed
    obtain ⟨index, same⟩ := listed
    exact ⟨index, index.isLt, same.symm⟩

/-- It takes them in rising order. -/
theorem grid_sorted : grid.Pairwise (· < ·) := List.pairwise_lt_range' _ (by decide)

/-- A candidate is what comes after the last offset. -/
theorem isCandidate_iff {last : Option Nat} {cursor : BestCursor}
    (known : KnowsLast weights last cursor)
    (offset : Nat) : isCandidate cursor.statics cursor.maxWeight (weights offset) offset ↔
      After (Heavier weights) last offset := by
  cases last with
  | none =>
    have start : cursor.maxWeight = -1 := known
    exact iff_of_true (.inl start) fun _ never => nomatch never
  | some last =>
    obtain ⟨weight, kept⟩ := known
    have one : After (Heavier weights) (some last) offset ↔ Heavier weights last offset :=
      ⟨fun after => after last rfl, fun heavier _ same => Option.some.inj same ▸ heavier⟩
    rw [one, isCandidate, weight, kept, Heavier]
    simp only [Nat.cast_inj, Nat.cast_lt, true_and]
    omega

/-- What the loop holds after some offsets: none if there is no candidate among them with a record,
and otherwise the first by order. -/
def Best.Of (weights : Nat → Nat) (candidate : Nat → Prop) (seen : List Nat) (best : Best) : Prop :=
  (best = ⟨-1, 0⟩ ∧ ∀ offset ∈ seen, candidate offset → weights offset = 0) ∨
    ∃ offset ∈ seen, best = ⟨offset, weights offset⟩ ∧ 0 < weights offset ∧ candidate offset ∧
      ∀ other ∈ seen, candidate other → other = offset ∨ Heavier weights offset other

/-- A round of the loop takes one more offset into account. -/
theorem considerRecord_spec {candidate : Nat → Prop} {seen : List Nat}
    (same : ∀ offset, isCandidate statics maxWeight (weights offset) offset ↔ candidate offset)
    (now : best.Of weights candidate seen) (larger : ∀ earlier ∈ seen, earlier < offset) :
    (considerRecord weights statics maxWeight best offset).Of weights candidate
      (seen ++ [offset]) := by
  have last : offset ∈ seen ++ [offset] := List.mem_append_right _ (List.mem_singleton.mpr rfl)
  have cases' : ∀ {other}, other ∈ seen ++ [offset] → other ∈ seen ∨ other = offset := by
    intro other listed
    exact (List.mem_append.mp listed).imp_right List.mem_singleton.mp
  unfold considerRecord
  by_cases better : best.weight < weights offset ∧
      isCandidate statics maxWeight (weights offset) offset
  · -- the offset is heavier than all before it
    rw [if_pos better]
    refine .inr ⟨offset, last, rfl, ?_, (same offset).mp better.2, fun other listed candidate => ?_⟩
    · rcases now with ⟨rfl, -⟩ | ⟨kept, -, rfl, positive, -⟩
      · exact Int.ofNat_lt.mp better.1
      · exact Nat.lt_trans positive (Int.ofNat_lt.mp better.1)
    · rcases cases' listed with before | here
      · refine .inr (.inl ?_)
        rcases now with ⟨rfl, none⟩ | ⟨kept, -, rfl, positive, -, first⟩
        · rw [none other before candidate]
          exact Int.ofNat_lt.mp better.1
        · have heavier := Int.ofNat_lt.mp better.1
          rcases first other before candidate with rfl | more
          · exact heavier
          · unfold Heavier at more
            omega
      · exact .inl here
  · -- what was kept is as heavy, and comes first
    rw [if_neg better]
    rcases now with ⟨rfl, none⟩ | ⟨kept, member, rfl, positive, chosen, first⟩
    · refine .inl ⟨rfl, fun other listed candidate => ?_⟩
      rcases cases' listed with before | rfl
      · exact none other before candidate
      · exact Nat.eq_zero_of_not_pos fun more =>
          better ⟨Int.ofNat_lt.mpr more, (same _).mpr candidate⟩
    · refine .inr ⟨kept, List.mem_append_left _ member, rfl, positive, chosen, ?_⟩
      intro other listed candidate
      rcases cases' listed with before | rfl
      · exact first other before candidate
      · have lighter : ¬ weights kept < weights other :=
          fun more => better ⟨Int.ofNat_lt.mpr more, (same _).mpr candidate⟩
        have earlier := larger kept member
        refine .inr ?_
        unfold Heavier
        omega

/-- The loop finds the first candidate with a record. -/
theorem findBestRecord_spec {candidate : Nat → Prop}
    (same : ∀ offset, isCandidate statics maxWeight (weights offset) offset ↔ candidate offset) :
    (grid.foldl (considerRecord weights statics maxWeight) ⟨-1, 0⟩).Of weights candidate grid := by
  have prefixes : ∀ count, ((grid.take count).foldl (considerRecord weights statics maxWeight)
      ⟨-1, 0⟩).Of weights candidate (grid.take count) := by
    intro count
    induction count with
    | zero => exact .inl ⟨rfl, fun _ never => absurd never List.not_mem_nil⟩
    | succ count ih =>
      by_cases inside : count < grid.length
      · rw [List.take_succ_eq_append_getElem inside, List.foldl_append]
        apply considerRecord_spec same ih
        intro earlier listed
        obtain ⟨index, below, rfl⟩ := List.getElem_of_mem listed
        rw [List.getElem_take]
        rw [List.length_take] at below
        exact List.pairwise_iff_getElem.mp grid_sorted index count (by omega) inside (by omega)
      · have all : grid.take (count + 1) = grid.take count := by
          rw [List.take_of_length_le (by omega), List.take_of_length_le (by omega)]
        rw [all]
        exact ih
  have whole := prefixes grid.length
  rwa [List.take_length] at whole

/-- A call returns -1 or an offset of the grid. -/
theorem findBestRecord_offset (weights : Nat → Nat) (statics : BestStatics) (maxWeight : Int) :
    (findBestRecord weights statics maxWeight).offset = -1 ∨
      ∃ offset ∈ grid, (findBestRecord weights statics maxWeight).offset = (offset : Nat) := by
  have found : Best.Of weights _ grid
      (grid.foldl (considerRecord weights statics maxWeight) ⟨-1, 0⟩) :=
    findBestRecord_spec fun _ => Iff.rfl
  unfold findBestRecord
  generalize grid.foldl _ _ = best at found
  rcases found with ⟨rfl, -⟩ | ⟨offset, listed, rfl, -⟩
  · exact .inl rfl
  · exact .inr ⟨offset, listed, rfl⟩

/-- Nothing is found if the call returns -1. -/
theorem nextRecord_none {cursor : BestCursor} (nothing : (nextRecord weights cursor).1 = none) :
    (findBestRecord weights cursor.statics cursor.maxWeight).offset = -1 := by
  by_contra valid
  simp only [nextRecord, if_neg valid] at nothing
  exact nomatch nothing

/-- What is found is the offset that the call returns. -/
theorem nextRecord_some {cursor : BestCursor} (found : (nextRecord weights cursor).1 = some offset) :
    (findBestRecord weights cursor.statics cursor.maxWeight).offset = offset := by
  rcases findBestRecord_offset weights cursor.statics cursor.maxWeight with absent | ⟨other, -, same⟩
  · simp only [nextRecord, if_pos absent] at found
    exact nomatch found
  · have valid : ¬ ((other : Nat) : Int) = -1 := by omega
    simp only [nextRecord, same, if_neg valid, Int.toNat_natCast] at found
    rw [same, Option.some.inj found]

/-- The calls follow the recorded offsets. -/
theorem nextRecord_follows (weights : Nat → Nat) :
    Follows (Heavier weights) (recorded weights) (KnowsLast weights) (nextRecord weights) := by
  have spec : ∀ last cursor, KnowsLast weights last cursor →
      (∀ offset, (nextRecord weights cursor).1 = some offset →
        offset ∈ recorded weights ∧ After (Heavier weights) last offset ∧
        (∀ other ∈ recorded weights, After (Heavier weights) last other →
          other = offset ∨ Heavier weights offset other) ∧
        KnowsLast weights (some offset) (nextRecord weights cursor).2) ∧
      ((nextRecord weights cursor).1 = none →
        ∀ offset ∈ recorded weights, ¬ After (Heavier weights) last offset) := by
    intro last cursor known
    have found := findBestRecord_spec (isCandidate_iff known)
    unfold nextRecord findBestRecord
    generalize grid.foldl _ _ = best at found
    rcases found with ⟨rfl, none⟩ | ⟨offset, listed, rfl, positive, after, first⟩
    · refine ⟨fun offset never => (nomatch never), fun _ offset member after => ?_⟩
      have split := Finset.mem_filter.mp member
      have zero := none offset (List.mem_toFinset.mp split.1) after
      omega
    · have valid : ¬ (offset : Int) = -1 := by omega
      simp only [ne_eq, valid, not_false_eq_true, if_true, Int.toNat_natCast]
      refine ⟨fun offset' same => ?_, fun never => nomatch never⟩
      cases same
      have member : offset ∈ recorded weights :=
        Finset.mem_filter.mpr ⟨List.mem_toFinset.mpr listed, positive⟩
      refine ⟨member, after, fun other given => ?_, rfl, rfl⟩
      exact first other (List.mem_toFinset.mp (Finset.mem_filter.mp given).1)
  exact {
    nothing := fun last cursor known => (spec last cursor known).2
    mem := fun last cursor offset known found => ((spec last cursor known).1 offset found).1
    after := fun last cursor offset known found => ((spec last cursor known).1 offset found).2.1
    first := fun last cursor offset known found =>
      ((spec last cursor known).1 offset found).2.2.1
    knows := fun last cursor offset known found =>
      ((spec last cursor known).1 offset found).2.2.2 }

/-- The calls that start from a weight of -1 visit the recorded offsets in order. -/
theorem records_visited (weights : Nat → Nat) (statics : BestStatics) :
    ∃ found last, Visits (nextRecord weights) ⟨-1, statics⟩ found last ∧
      found.Pairwise (Heavier weights) ∧ ∀ offset, offset ∈ found ↔ offset ∈ recorded weights := by
  have start : KnowsLast weights none ⟨-1, statics⟩ := rfl
  obtain ⟨found, last, visits, sorted, members⟩ := (nextRecord_follows weights).visits start
  refine ⟨found, last, visits, sorted, fun offset => ?_⟩
  have anyhow : After (Heavier weights) none offset := fun _ never => nomatch never
  rw [members, and_iff_left anyhow]

/-- What is visited in order is visited once. -/
theorem nodup_of_heavier {found : List Nat} (sorted : found.Pairwise (Heavier weights)) :
    found.Nodup := by
  refine sorted.imp fun {offset other} heavier same => ?_
  subst same
  exact Std.Irrefl.irrefl offset heavier

/-- The order is the same whatever the statics hold. -/
theorem records_order (weights : Nat → Nat) :
    ∃ found : List Nat, found.Nodup ∧ (∀ offset, offset ∈ found ↔ offset ∈ recorded weights) ∧
      ∀ statics, ∃ last, Visits (nextRecord weights) ⟨-1, statics⟩ found last := by
  obtain ⟨found, -, -, sorted, members⟩ := records_visited weights ⟨-1, 0⟩
  have once := nodup_of_heavier sorted
  refine ⟨found, once, members, fun statics => ?_⟩
  obtain ⟨found', last, visits, sorted', members'⟩ := records_visited weights statics
  have perm : found'.Perm found := (List.perm_ext_iff_of_nodup (nodup_of_heavier sorted') once).mpr
    fun offset => (members' offset).trans (members offset).symm
  have same : found' = found := perm.eq_of_pairwise (fun offset other _ _ heavier lighter =>
    absurd (IsTrans.trans _ _ _ heavier lighter) (Std.Irrefl.irrefl offset)) sorted' sorted
  exact ⟨last, same ▸ visits⟩

/-- Recorded offsets are those of the grid with a positive weight. -/
theorem mem_recorded : offset ∈ recorded weights ↔
    (∃ index : Fin offsetCnt, gridOffset index = offset) ∧ 0 < weights offset := by
  rw [recorded, Finset.mem_filter, List.mem_toFinset, mem_grid]

end

/-- Whatever the statics hold, the calls that start from a weight of -1 come to an end, and have
then returned each offset of the grid that has a record once and no other offset, by falling weight,
and among those of one weight by rising offset. -/
theorem records_enumerated (weights : Nat → Nat) (statics : BestStatics) :
    ∃ found last, Visits (nextRecord weights) ⟨-1, statics⟩ found last ∧ found.Nodup ∧
      (∀ offset, offset ∈ found ↔
        (∃ index : Fin offsetCnt, gridOffset index = offset) ∧ 0 < weights offset) ∧
      found.Pairwise fun offset other => weights other < weights offset ∨
        (weights other = weights offset ∧ offset < other) := by
  obtain ⟨found, last, visits, sorted, members⟩ := records_visited weights statics
  refine ⟨found, last, visits, nodup_of_heavier sorted, fun offset => ?_, sorted⟩
  rw [members, mem_recorded]

end Fly2040.Firmware
