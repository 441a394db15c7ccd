import Fly2040.Firmware.Covers
import Fly2040.System.Boot
/-!
# The fuse count of the descriptor

A rewrite of the payload tells the host which firmware runs, and how many fuses are burnt once a
success commits it. The count is predicted before the success: a fuse is added if the commit has to
change the parity. The burner does the same, but behind the last fuse it starts a new round, so the
prediction fails exactly there.
-/

namespace Fly2040.System

open Bytes Durable Nor Firmware

/-- Offset of the fuse count in the descriptor. -/
def fuseCountAt : Nat := 20

/-- The fuse count that a descriptor tells. -/
def describedCount (count : Nat) (bootSlot : Slot) : Nat :=
  if count % 2 ≠ bootSlot.val then count + 1 else count

/-- The count of the fuses behind a commit. -/
def committedCount (count : Nat) (bootSlot : Slot) : Nat :=
  if count % 2 ≠ bootSlot.val then burntCount count else count

/-- Words are found where a block begins with them. -/
theorem wordsBlock_word (words : List UInt32) (index : Nat) (inside : index < words.length)
    (fits : index < 128) : (wordsBlock words).word (4 * index) = words[index] := by
  apply word32_of_bytes
  intro offset below
  have place : (4 * index + offset) / 4 = index := by omega
  rw [Block.memory, dif_pos (by omega), wordsBlock]
  dsimp only
  simp only [place]
  rw [dif_pos inside, show (4 * index + offset) % 4 = offset by omega]

/-- The descriptor tells a count for the fuses at that time. -/
theorem fwInfo_fuseCount (images : Images) (bootSlot : Slot) (flash : Memory) :
    (fwInfo images bootSlot flash).word fuseCountAt =
      UInt32.ofNat (describedCount (countFuses flash) bootSlot) :=
  wordsBlock_word _ 5 (by simp) (by decide)

/-- The two counts agree unless a burn starts a new round. -/
theorem describedCount_eq_iff {count : Nat} (fits : count ≤ 2048) (bootSlot : Slot) :
    UInt32.ofNat (describedCount count bootSlot) = UInt32.ofNat (committedCount count bootSlot) ↔
      ¬(count = 2048 ∧ bootSlot = 1) := by
  have counts {left right : Nat} (small : left < 4096) (small' : right < 4096) :
      UInt32.ofNat left = UInt32.ofNat right ↔ left = right := by
    rw [← UInt32.toNat_inj, UInt32.toNat_ofNat_of_lt' (Nat.lt_trans small (by decide)),
      UInt32.toNat_ofNat_of_lt' (Nat.lt_trans small' (by decide))]
  have slot : bootSlot = 1 ↔ bootSlot.val = 1 := Fin.ext_iff
  rw [describedCount, committedCount]
  split
  next differs =>
    have less : burntCount count < 4096 := by
      rw [burntCount]
      split <;> omega
    rw [counts (by omega) less, burntCount, slot]
    split <;> omega
  next same => exact iff_of_true rfl (by rw [slot]; omega)

section Commits

variable {images : Images} {env : Env} {bootSlot : Slot} {world : World} {count : Nat}

/-- A commit leaves the count that a burn leaves, and the eMMC as it was. -/
theorem commitSlot_count (page : FusePage world.flash count) :
    (commitSlot bootSlot).Ensures world (fun _ _ => True)
      (fun _ later => later.mmc = world.mmc ∧
        FusePage later.flash (committedCount count bootSlot))
      (fun _ _ => False) := by
  apply Prog.ensures_read
  have slot : fuseSlot world.flash ≠ bootSlot ↔ count % 2 ≠ bootSlot.val := by
    rw [ne_eq, Fin.ext_iff, page.fuseSlot]
  apply Prog.ensures_runIf
  · intro other
    rw [committedCount, if_pos (slot.mp (by simpa using other))]
    exact Prog.Ensures.zoom ((burnFuse_spec page).mono (fun _ _ _ => trivial)
      (fun _ _ after => ⟨rfl, after.2⟩) fun _ _ never => never)
  · intro same
    rw [committedCount, if_neg (fun differs => slot.mpr differs (by simpa using same))]
    exact ⟨rfl, page⟩

/-- A full try that succeeds ends with the success kept: the fuses are counted as a commit leaves
them, and the eMMC is as it was. -/
theorem fullTry_count (page : FusePage world.flash count) {number : Nat} {index : Fin offsetCnt}
    (success : env.search number world.flash = .ok (some index)) :
    (fullTry env bootSlot number).Ensures world (fun _ _ => True) (fun _ _ => False)
      fun _ later => later.mmc = world.mmc ∧
        FusePage later.flash (committedCount count bootSlot) := by
  apply Prog.ensures_read
  rw [success]
  apply Prog.Ensures.andThen ((commitSlot_count page).weakenStop fun _ _ never => never.elim)
  intro _ second after
  have ⟨mmc, page'⟩ := after
  have recorded := addBootRecord_confined index (SameOutside.refl second.flash) (ε := Stop)
  apply Prog.ensures_via (fun _ later => later.mmc = world.mmc ∧
    FusePage later.flash (committedCount count bootSlot))
  · apply Prog.Ensures.zoom
    apply recorded.mono (fun _ _ _ => trivial)
    · intro _ later same
      exact ⟨mmc, page'.congr fun address low _ => same address (.inr low)⟩
    · intro _ later same
      exact ⟨mmc, page'.congr fun address low _ => same address (.inr low)⟩
  · intro _ third after
    exact (Prog.ensures_stop _).mpr after

/-- The descriptor that is written is that of flash as it is. -/
theorem writeDescriptor_stores (link : Link) :
    (writeDescriptor link images bootSlot).Ensures world (fun _ _ => True)
      (fun _ later => later.mmc 0x1FFF = fwInfo images bootSlot world.flash) fun _ _ => True := by
  apply Prog.ensures_read
  apply Prog.ensures_change
  have blocks : (512 + 511) / 512 = 1 := rfl
  apply (writeData_spec (fun _ _ => True) blocks (fun _ _ => link.keeps_true _)
    (fun _ _ => trivial) fun _ => trivial).mono (fun _ _ _ => trivial) _ fun _ _ _ => trivial
  intro _ later after
  rw [after.2.2 0 (by decide), Nat.mul_zero, chunk_memory]

/-- A rewrite that returns has stored the descriptor of flash as it was before. -/
theorem rewritePayload_described :
    (rewritePayload images env bootSlot).Ensures world (fun _ _ => True)
      (fun _ later => later.mmc 0x1FFF = fwInfo images bootSlot world.flash) fun _ _ => True := by
  have keeps := env.link.keeps_true 1
  have idle : ∀ later, BusOnly world later → PayloadOnly (fun _ => True) world later :=
    fun later same => ⟨same.blocksOnly, trivial⟩
  have payload : ∀ block, InBlocks 0x1F80 59 block → PayloadBlock block := fun _ => .inl
  have first : ∀ block, InBlocks 0x0 bctBlocks block → PayloadBlock block :=
    fun _ inside => .inr (.inl inside)
  have second : ∀ block, InBlocks 0x20 bctBlocks block → PayloadBlock block :=
    fun _ inside => .inr (.inr (.inl inside))
  have begun : (reinitMmc env.link).Ensures world (fun _ _ => True)
      (fun _ later => PayloadOnly (fun _ => True) world later) fun _ _ => True :=
    (reinitMmcTries_spec 10).mono (fun _ _ issued => issued) (fun _ _ after => idle _ after.1)
      fun _ _ _ => trivial
  simp only [rewritePayload, writePayload, bind_assoc]
  apply begun.andThen
  intro _ _ only
  apply only.saveBct.onReturn.andThen
  intro _ _ only
  apply (only.writeData rfl payload keeps fun _ _ _ => trivial).onReturn.andThen
  intro _ _ only
  apply (only.writeData rfl first keeps fun _ _ _ => trivial).onReturn.andThen
  intro _ _ only
  apply (only.writeData rfl second keeps fun _ _ _ => trivial).onReturn.andThen
  intro _ _ only
  apply (writeDescriptor_stores env.link).andThen
  intro _ last stored
  rw [only.blocks.flash] at stored
  apply Prog.ensures_via fun _ later => later.mmc 0x1FFF = fwInfo images bootSlot world.flash
  · exact (Prog.ensures_issue _ _).mpr ⟨trivial, stored⟩
  intro _ last stored
  apply Prog.ensures_read
  apply Prog.ensures_via fun _ later => later.mmc 0x1FFF = fwInfo images bootSlot world.flash
  · split
    · exact (Prog.ensures_stop _).mpr trivial
    · exact (Prog.ensures_pure _).mpr stored
  · intro _ last stored
    apply Prog.ensures_read
    exact Prog.Ensures.zoom ((initConfig_confined _ _ _).mono (fun _ _ _ => trivial)
      (fun _ _ _ => stored) fun _ _ _ => trivial)

/-- The fuse count of the descriptor is the one that the commit of a success leaves in the same run,
unless all fuses are burnt and the second slot runs: then the commit starts a new round. -/
theorem descriptor_predicts_iff (burnt : Burnt world.flash) :
    ((fwInfo images bootSlot world.flash).word fuseCountAt =
        UInt32.ofNat (countFuses (commitSlot bootSlot world).final.flash) ↔
      ¬(countFuses world.flash = 2048 ∧ bootSlot = 1)) ∧
    ∀ number index, (rewritePayload images env bootSlot world).outcome = .ok () →
      let rewritten := (rewritePayload images env bootSlot world).final
      env.search number rewritten.flash = .ok (some index) →
      let last := (fullTry env bootSlot number rewritten).final
      ((last.mmc 0x1FFF).word fuseCountAt = UInt32.ofNat (countFuses last.flash) ↔
        ¬(countFuses world.flash = 2048 ∧ bootSlot = 1)) := by
  have ⟨count, page⟩ := burnt.fusePage
  have fits : count ≤ 2048 := page.fits
  rw [page.countFuses]
  constructor
  · have commit : _ ∧ FusePage (commitSlot bootSlot world).final.flash _ :=
      ((commitSlot_count page).weakenStop fun _ _ never => never.elim).atEnd
    rw [commit.2.countFuses, fwInfo_fuseCount, page.countFuses]
    exact describedCount_eq_iff fits bootSlot
  · intro number index returns rewritten success last
    have described : rewritten.mmc 0x1FFF = _ := rewritePayload_described.returned () returns
    have same := (rewritePayload_outside images env bootSlot world).returned () returns
    have page' : FusePage rewritten.flash count := (page.fuseSlot_records same).1
    have ended : last.mmc = rewritten.mmc ∧ FusePage last.flash _ :=
      ((fullTry_count page' success).weaken fun _ _ never => never.elim).atEnd
    rw [ended.2.countFuses, ended.1, described, fwInfo_fuseCount, page.countFuses]
    exact describedCount_eq_iff fits bootSlot

end Commits

/-- A console whose first full try succeeds. -/
def luckyEnv : Env := coldEnv fun _ _ => .ok (some ⟨0, by decide⟩)

/-- The first commit of the second slot is predicted. -/
theorem first_commit_predicted :
    let last :=
      (fullTry luckyEnv 1 0 (rewritePayload blankImages luckyEnv 1 markedWorld).final).final
    (last.mmc 0x1FFF).word fuseCountAt = UInt32.ofNat (countFuses last.flash) := by
  have blank : ∀ offset < 256, markedWorld.flash (fuseOff + offset) = 0xFF := fun _ _ => rfl
  have returns : (rewritePayload blankImages luckyEnv 1 markedWorld).outcome = .ok () :=
    rewritePayload_returns _ _ _ _ (perfectLink_reliable _) rfl
  have unspent : ¬(countFuses markedWorld.flash = 2048 ∧ (1 : Slot) = 1) := by
    have page : FusePage markedWorld.flash 0 := Unary.holds_zero blank
    rw [page.countFuses]
    decide
  exact ((descriptor_predicts_iff (.erased blank)).2 0 _ returns rfl).mpr unspent

/-- Burns lead to every count. -/
theorem burnt_count {count : Nat} (fits : count ≤ 2048) :
    ∃ flash, Burnt flash ∧ FusePage flash count := by
  induction count with
  | zero =>
    have blank : ∀ offset < 256, (fun _ => 0xFF : Memory) (fuseOff + offset) = 0xFF :=
      fun _ _ => rfl
    exact ⟨fun _ => 0xFF, .erased blank, Unary.holds_zero blank⟩
  | succ count ih =>
    have ⟨flash, burnt, page⟩ := ih (by omega)
    have next := (burnFuse_completes (ε := Stop) page).2
    rw [burntCount, if_neg (by omega)] at next
    exact ⟨_, burnt.burn, next⟩

/-- A world whose fuses are all burnt. -/
def spentWorld : World := { markedWorld with flash := fun _ => 0 }

/-- All fuses are burnt there. -/
theorem spentWorld_page : FusePage spentWorld.flash 2048 := by
  refine ⟨by decide, fun index inside => ?_⟩
  rw [decide_eq_false (by omega)]
  exact BitVec.getLsbD_zero

/-- Burns lead there. -/
theorem spentWorld_burnt : Burnt spentWorld.flash := by
  have ⟨flash, burnt, page⟩ := burnt_count (Nat.le_refl 2048)
  apply burnt.elsewhere
  intro offset inside
  apply UInt8.toBitVec_inj.mp
  apply BitVec.eq_of_getLsbD_eq
  intro index small
  have spent := page.bits (8 * offset + index) (by omega)
  rw [bit, show (8 * offset + index) / 8 = offset by omega,
    show (8 * offset + index) % 8 = index by omega, decide_eq_false (by omega)] at spent
  rw [spent]
  exact BitVec.getLsbD_zero

/-- The last commit of the second slot is not: the descriptor tells one fuse more than there are,
and one is burnt. -/
theorem last_commit_mispredicted : Burnt spentWorld.flash ∧ countFuses spentWorld.flash = 2048 ∧
    let rewritten := rewritePayload blankImages luckyEnv 1 spentWorld
    let last := (fullTry luckyEnv 1 0 rewritten.final).final
    rewritten.outcome = .ok () ∧ (last.mmc 0x1FFF).word fuseCountAt = 2049 ∧
      countFuses last.flash = 1 := by
  have page := spentWorld_page
  have returns : (rewritePayload blankImages luckyEnv 1 spentWorld).outcome = .ok () :=
    rewritePayload_returns _ _ _ _ (perfectLink_reliable _) rfl
  have described := rewritePayload_described.returned () returns
  have same := (rewritePayload_outside blankImages luckyEnv 1 spentWorld).returned () returns
  have page' := (page.fuseSlot_records same).1
  have tried : (fullTry luckyEnv 1 0).Ensures _ _ _ _ := fullTry_count page' rfl
  have ended := (tried.weaken fun _ _ never => never.elim).atEnd
  refine ⟨spentWorld_burnt, page.countFuses, returns, ?_, ended.2.countFuses⟩
  rw [ended.1, described, fwInfo_fuseCount, page.countFuses]
  decide

end Fly2040.System
