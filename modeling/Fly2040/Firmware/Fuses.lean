import Fly2040.Lib.Unary
import Mathlib.Data.Fin.Basic
/-!
# Flash layout and the fuse page

The flash holds the bootloader, the learned records, the fuse page and two firmware slots.
The fuses are a unary counter in one page of their own sector; its parity selects the slot of
the next cold boot. Burning one more fuse programs the page again, or, once all bits are
spent, erases the sector and burns the first bit. The burn is one recursion of the source; it
is total here because the page it recurses on has just been erased.
-/

namespace Fly2040.Firmware

open Bytes Durable Nor Unary

/-- Flash offset of the learned records. -/
def configStart : Nat := 0x8000

/-- Flash offset of the fuse sector. -/
def fuseOff : Nat := 0xF000

/-- One of the two firmware slots. -/
abbrev Slot := Fin 2

/-- The slot that is not running. -/
def Slot.other (slot : Slot) : Slot := 1 - slot

/-- Flash offset of the header of a firmware slot. -/
def fwSlot (slot : Slot) : Nat := if slot = 0 then 0x10000 else 0x48000

/-- Bytes of a firmware slot, header included. -/
def slotSize : Nat := 0x38000

/-- Firmware update fuse count. -/
def countFuses (memory : Memory) : Nat := scanWeight (pageWord memory fuseOff) 0 64 0

/-- The slot that the fuse count selects for a cold boot. -/
def fuseSlot (memory : Memory) : Slot := ⟨countFuses memory % 2, Nat.mod_lt _ (by decide)⟩

/-- The fuse page holds a count. -/
def FusePage (memory : Memory) (count : Nat) : Prop := Holds memory fuseOff 64 count

/-- The fuse sector just erased counts no fuse. -/
theorem fusePage_erased (memory : Memory) : FusePage (erase memory fuseOff 0x1000) 0 :=
  holds_zero fun offset inside => erase_inside memory (by omega) (by omega)

/-- The body of the fuse burner, with the program that its recursive call runs. -/
def burnFuseBody {ε : Type} (again : FlashProg ε Unit) : FlashProg ε Unit := do
  let page ← Prog.gets fun memory : Memory => pageWord memory fuseOff
  match firstWord page 0 64 with
  | some index => flashRangeProgram fuseOff (pageBytes (burnWord page index) 64)
  | none =>
    flashRangeErase fuseOff 0x1000
    again -- burn one more because both 0 and 256*8 are even

/-- The fuse burner with its calls nested at most `depth` deep. -/
def burnFuseCalls {ε : Type} : (depth : Nat) → FlashProg ε Unit
  | 0 => pure ()
  | depth + 1 => burnFuseBody (burnFuseCalls depth)

/-- Firmware update fuse burner. -/
def burnFuse {ε : Type} : FlashProg ε Unit := burnFuseCalls 2

/-- The count after one more burn. -/
def burntCount (count : Nat) : Nat := if count = 2048 then 1 else count + 1

/-- A burn always changes the parity of the count. -/
theorem burntCount_parity (count : Nat) : burntCount count % 2 = (count + 1) % 2 := by
  unfold burntCount
  split <;> omega

/-- Whatever flash holds, the burner addresses the fuse sector only. -/
theorem burnFuse_confined {ε : Type} {origin memory : Memory}
    (agree : SameOutside fuseOff (fuseOff + 0x1000) origin memory) :
    Confined fuseOff (fuseOff + 0x1000) origin (burnFuse (ε := ε)) memory := by
  have calls : ∀ depth memory, SameOutside fuseOff (fuseOff + 0x1000) origin memory →
      Confined fuseOff (fuseOff + 0x1000) origin (burnFuseCalls (ε := ε) depth) memory := by
    intro depth
    induction depth with
    | zero => exact fun memory agree => Confined.pure () agree
    | succ depth ih =>
      intro memory agree
      apply Prog.ensures_read
      split
      · exact Confined.issue (by simp [Op.Within]) agree
      · exact (Confined.issue (by simp [Op.Within]) agree).bind fun _ later => ih later
  exact calls 2 memory agree

section

variable {memory : Memory} {count : Nat}

/-- A fuse page is counted by its count. -/
theorem FusePage.countFuses (page : FusePage memory count) : countFuses memory = count :=
  page.weight

/-- The slot selected by a fuse page. -/
theorem FusePage.fuseSlot (page : FusePage memory count) :
    (Firmware.fuseSlot memory).val = count % 2 := by
  simp [Firmware.fuseSlot, page.countFuses]

/-- The fuse page is kept by changes outside its sector. -/
theorem FusePage.congr {memory' : Memory} (page : FusePage memory count)
    (same : ∀ address, fuseOff ≤ address → address < fuseOff + 0x1000 →
      memory' address = memory address) : FusePage memory' count :=
  Holds.congr page fun offset inside => same _ (by omega) (by omega)

/-- The body on a page with a bit left programs the page once. -/
theorem burnFuseBody_program {ε : Type} (page : FusePage memory count) (open' : count < 2048)
    (again : FlashProg ε Unit) :
    burnFuseBody again memory = flashRangeProgram fuseOff
      (pageBytes (burnWord (pageWord memory fuseOff) (count / 32)) 64) memory := by
  rw [burnFuseBody, Prog.gets_bind, page.firstWord, if_neg (by omega)]

/-- The body on a page whose bits are all spent erases the sector and calls again. -/
theorem burnFuseBody_erase {ε : Type} (again : FlashProg ε Unit)
    (spent : firstWord (pageWord memory fuseOff) 0 64 = none) :
    burnFuseBody again memory =
      ((flashRangeErase fuseOff 0x1000 : FlashProg ε Unit) >>= fun _ => again) memory := by
  rw [burnFuseBody, Prog.gets_bind, spent]

/-- Two calls are as deep as the recursion goes: on every flash contents the burner satisfies
its own recursive equation. -/
theorem burnFuse_unfold {ε : Type} (memory : Memory) :
    burnFuse (ε := ε) memory = burnFuseBody burnFuse memory := by
  cases found : firstWord (pageWord memory fuseOff) 0 64 with
  | some index =>
    change burnFuseBody (burnFuseCalls 1) memory = _
    rw [burnFuseBody, burnFuseBody, Prog.gets_bind, Prog.gets_bind, found]
  | none =>
    have inner : ∀ again : FlashProg ε Unit, burnFuseBody again (erase memory fuseOff 0x1000) =
        flashRangeProgram fuseOff (pageBytes (burnWord (pageWord (erase memory fuseOff 0x1000)
          fuseOff) (0 / 32)) 64) (erase memory fuseOff 0x1000) :=
      burnFuseBody_program (fusePage_erased memory) (by decide)
    have calls : ∀ again : FlashProg ε Unit, again (erase memory fuseOff 0x1000) =
        burnFuseBody (pure ()) (erase memory fuseOff 0x1000) →
        burnFuseBody again memory = burnFuseBody (burnFuseBody (pure ())) memory := by
      intro again same
      rw [burnFuseBody_erase _ found, burnFuseBody_erase _ found]
      simp only [flashRangeErase, Prog.issue_bind, Op.apply, same]
    refine (calls burnFuse ?_).symm
    change burnFuseBody (burnFuseBody (pure ())) _ = _
    rw [inner, inner]

/-- Between any two operations of a burn the page holds a count of the old parity, after it the
count is one further or restarts at one, and only the fuse sector is addressed. -/
theorem burnFuse_spec {ε : Type} {stopped : ε → Memory → Prop} (page : FusePage memory count) :
    Prog.Ensures (burnFuse (ε := ε)) memory
      (fun later operation => operation.Within fuseOff (fuseOff + 0x1000) ∧
        SameOutside fuseOff (fuseOff + 0x1000) memory later ∧
        ∃ between, FusePage later between ∧ between % 2 = count % 2)
      (fun _ later => SameOutside fuseOff (fuseOff + 0x1000) memory later ∧
        FusePage later (burntCount count)) stopped := by
  -- the call that finds a bit left, from any page of the old parity
  have programmed : ∀ (again : FlashProg ε Unit) (start : Memory) (value : Nat),
      FusePage start value → value < 2048 → value % 2 = count % 2 →
      SameOutside fuseOff (fuseOff + 0x1000) memory start →
      (burnFuseBody again).Ensures start
        (fun later operation => operation.Within fuseOff (fuseOff + 0x1000) ∧
          SameOutside fuseOff (fuseOff + 0x1000) memory later ∧
          ∃ between, FusePage later between ∧ between % 2 = count % 2)
        (fun _ later => SameOutside fuseOff (fuseOff + 0x1000) memory later ∧
          FusePage later (value + 1)) stopped := by
    intro again start value now open' parity agree
    have within : (Op.program fuseOff (pageBytes (burnWord (pageWord start fuseOff)
        (value / 32)) 64)).Within fuseOff (fuseOff + 0x1000) := by
      simp [Op.Within]
    refine Prog.Ensures.of_run_eq (burnFuseBody_program now open' again) ?_
    exact (Prog.ensures_issue _ _).mpr ⟨⟨within, agree, value, now, parity⟩,
      agree.trans (Op.apply_sameOutside within start), now.burn open'⟩
  by_cases full : count = 2048
  · subst full
    have within : (Op.erase fuseOff 0x1000).Within fuseOff (fuseOff + 0x1000) := by
      simp [Op.Within]
    have spent : firstWord (pageWord memory fuseOff) 0 64 = none := by
      rw [page.firstWord, if_pos (by decide)]
    refine Prog.Ensures.of_run_eq (burnFuseBody_erase (burnFuseCalls 1) spent)
      (Prog.ensures_via (fun _ later =>
        SameOutside fuseOff (fuseOff + 0x1000) memory later ∧ FusePage later 0) ?_ ?_)
    · exact (Prog.ensures_issue _ _).mpr
        ⟨⟨within, SameOutside.refl memory, 2048, page, rfl⟩,
          Op.apply_sameOutside within memory, fusePage_erased memory⟩
    · intro _ later after
      obtain ⟨agree, erased⟩ := after
      exact programmed _ later 0 erased (by decide) rfl agree
  · have open' : count < 2048 := by
      have fits : count ≤ 32 * 64 := page.fits
      omega
    rw [burntCount, if_neg full]
    exact programmed (burnFuseCalls 1) memory count page open' rfl (SameOutside.refl memory)

end

end Fly2040.Firmware
