import Fly2040.Firmware.Fuses
/-!
# Burns and power losses

A fuse sector starts erased. Fuses are burnt one after another, and power may be lost between any
two flash operations of a burn; the next burn finds what was left. The page holds a count all the
same, so that a burn that completes changes the slot of the next cold boot, and one that is cut
off either has changed it or has not.
-/

namespace Fly2040.Firmware

open Bytes Durable Nor Unary

/-- Flash that burns lead to from an erased fuse sector, each of them cut off after some number of
its operations or completed. -/
inductive BurnReach : Memory → Prop where
  /-- The sector is erased. -/
  | erased (memory : Memory) (blank : ∀ offset < 0x1000, memory (fuseOff + offset) = 0xFF) :
    BurnReach memory
  /-- A burn, of which so many operations are performed. -/
  | burn (memory : Memory) (performed : Nat) (reached : BurnReach memory) :
    BurnReach ((burnFuse (ε := Empty) memory).cutAt performed)

section

variable {memory : Memory} {count : Nat}

/-- A burn ends, with one fuse more or the first one of a new round. -/
theorem burnFuse_completes {ε : Type} (page : FusePage memory count) :
    (burnFuse (ε := ε) memory).outcome = .ok () ∧
      FusePage (burnFuse (ε := ε) memory).final (burntCount count) := by
  have spec : Prog.Ensures (burnFuse (ε := ε)) memory _ _ (fun _ _ => False) :=
    burnFuse_spec page
  cases ended : (burnFuse (ε := ε) memory).outcome with
  | error reason => exact (spec.halted reason ended).elim
  | ok value => exact ⟨rfl, (spec.returned value ended).2⟩

/-- What may be left of a burn of a page with a given count: only the fuse sector has changed, and
it holds a count of the old or of the new parity. -/
structure LeftByBurn (memory : Memory) (count : Nat) (later : Memory) : Prop where
  /-- The rest of flash is as it was. -/
  outside : SameOutside fuseOff (fuseOff + 0x1000) memory later
  /-- The count that is left. -/
  page : ∃ left, FusePage later left ∧ (left % 2 = count % 2 ∨ left % 2 = (count + 1) % 2)

/-- This is what a burn leaves that is cut off, or not. -/
theorem burnFuse_cut (page : FusePage memory count) (performed : Nat) :
    LeftByBurn memory count ((burnFuse (ε := Empty) memory).cutAt performed) := by
  have spec : Prog.Ensures (burnFuse (ε := Empty)) memory _ _ (fun _ _ => False) :=
    burnFuse_spec page
  apply spec.cutAt
  · intro later operation issued
    obtain ⟨-, agree, between, held, parity⟩ := issued
    exact ⟨agree, between, held, .inl parity⟩
  · intro _ later after
    exact ⟨after.1, burntCount count, after.2, .inr (burntCount_parity count)⟩
  · exact fun _ _ never => never.elim

/-- Whatever the burns and the power losses, the fuse page holds a count. -/
theorem BurnReach.page (reached : BurnReach memory) : ∃ count, FusePage memory count := by
  induction reached with
  | erased memory blank =>
    exact ⟨0, holds_zero fun offset inside => blank offset (by omega)⟩
  | burn memory performed _ ih =>
    obtain ⟨count, page⟩ := ih
    obtain ⟨left, held, -⟩ := (burnFuse_cut page performed).page
    exact ⟨left, held⟩

/-- A call of the burner that finds a bit left, or that erases the sector first, does not call
itself more than once: whatever a third call would do, it does not come to it. -/
theorem burnFuse_calls (page : FusePage memory count) (third : FlashProg Empty Unit) :
    burnFuseBody (burnFuseBody third) memory = burnFuse memory := by
  change _ = burnFuseBody (burnFuseBody (pure ())) memory
  by_cases full : count = 2048
  · have spent : firstWord (pageWord memory fuseOff) 0 64 = none := by
      rw [page.firstWord, if_pos full]
    have erased := fusePage_erased memory
    rw [burnFuseBody_erase _ spent, burnFuseBody_erase _ spent]
    simp only [flashRangeErase, Prog.issue_bind, Op.apply]
    rw [burnFuseBody_program erased (by decide), burnFuseBody_program erased (by decide)]
  · have fits : count ≤ 32 * 64 := page.fits
    have open' : count < 2048 := by omega
    rw [burnFuseBody_program page open', burnFuseBody_program page open']

end

/-- After any burns and power losses, a burn ends after at most two nested calls and changes the
parity of the count, also where it starts a new round; cut off anywhere, it leaves the old parity
or the new one, and it never changes flash outside its sector. -/
theorem burns_survive_power_loss (memory : Memory) (reached : BurnReach memory) :
    (∀ third, burnFuseBody (burnFuseBody third) memory = burnFuse (ε := Empty) memory) ∧
    (burnFuse (ε := Empty) memory).outcome = .ok () ∧
    countFuses (burnFuse (ε := Empty) memory).final = burntCount (countFuses memory) ∧
    countFuses (burnFuse (ε := Empty) memory).final % 2 = (countFuses memory + 1) % 2 ∧
    ∀ performed,
      (countFuses ((burnFuse (ε := Empty) memory).cutAt performed) % 2 = countFuses memory % 2 ∨
        countFuses ((burnFuse (ε := Empty) memory).cutAt performed) % 2 =
          (countFuses memory + 1) % 2) ∧
      SameOutside fuseOff (fuseOff + 0x1000) memory
        ((burnFuse (ε := Empty) memory).cutAt performed) := by
  obtain ⟨count, page⟩ := reached.page
  have completes := burnFuse_completes (ε := Empty) page
  rw [page.countFuses, completes.2.countFuses]
  have parity := burntCount_parity count
  refine ⟨burnFuse_calls page, completes.1, rfl, parity, fun performed => ?_⟩
  have cut := burnFuse_cut page performed
  obtain ⟨left, held, old⟩ := cut.page
  rw [held.countFuses]
  exact ⟨old, cut.outside⟩

/-- The first burn of an erased flash. -/
theorem burns_survive_power_loss_erased :
    countFuses (burnFuse (ε := Empty) fun _ => 0xFF).final % 2 =
      (countFuses (fun _ => 0xFF) + 1) % 2 :=
  (burns_survive_power_loss (fun _ => 0xFF) (.erased _ fun _ _ => rfl)).2.2.2.1

end Fly2040.Firmware
