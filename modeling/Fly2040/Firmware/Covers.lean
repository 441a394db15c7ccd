import Fly2040.Firmware.Search
import Fly2040.Lib.Views
/-!
# What a search covers

A search ends with its limit of attempts or with a success, which is committed by a fuse, if the
count selects another slot, and recorded. The attempts are those of two plans, one for each full
try, up to the first success. What is seen of a search in flash and eMMC is a boot with some result
of its two searches, so that whatever holds of a boot for any search holds of this one.
-/

namespace Fly2040.Firmware

open Bytes Durable Nor Trials

/-- The attempt that a step of a search makes. -/
def SearchOp.tried? : SearchOp → Option GlitchTry
  | .tryOffset attempt => some attempt
  | .boot _ | .commit _ => none

/-- The call that a step of a search makes to keep a success. -/
def SearchOp.commit? : SearchOp → Option Commit
  | .commit call => some call
  | .boot _ | .tryOffset _ => none

/-- Calls that keep a success: a fuse is burnt if the count selects another slot, and the offset is
recorded. -/
def commitsOf (memory : Memory) (bootSlot : Slot) (offset : Int) : List Commit :=
  (if fuseSlot memory = bootSlot then [] else [.burnFuse]) ++ [.addBootRecord offset]

/-- A program makes the attempts of a plan and ends as the search does: at the limit of attempts, or
with a success that has been kept. -/
structure Concludes (glitches : Nat → GlitchTry → Bool) (bootSlot : Slot)
    (program : SearchProg Unit) (state : Searching) (plan : List GlitchTry)
    (operations : List SearchOp) (outcome : Except Stop Unit) (final : Searching) : Prop where
  /-- What it does. -/
  does : program.Does state operations outcome final
  /-- The attempts. -/
  tried : operations.filterMap SearchOp.tried? = upTo glitches state.tries plan
  /-- Without success. -/
  failed : success glitches state.tries plan = none →
    outcome = .error (.finish 7 3) ∧ operations.filterMap SearchOp.commit? = []
  /-- With success. -/
  worked : ∀ attempt, success glitches state.tries plan = some attempt →
    outcome = .error (.finish 0 1) ∧
      operations.filterMap SearchOp.commit? = commitsOf state.world.flash bootSlot attempt.offset ∧
      fuseSlot final.world.flash = bootSlot

section

variable {glitches : Nat → GlitchTry → Bool} {state later : Searching} {bootSlot : Slot}
  {count : Nat}

/-- The attempts of a run that makes only attempts. -/
theorem tried_attempts (plan : List GlitchTry) :
    (plan.map SearchOp.tryOffset).filterMap SearchOp.tried? = plan ∧
      (plan.map SearchOp.tryOffset).filterMap SearchOp.commit? = [] := by
  rw [List.filterMap_map, List.filterMap_map]
  exact ⟨List.filterMap_some .., List.filterMap_none ..⟩

/-- The firmware's own operations are neither. -/
theorem tried_boot (operations : List BootOp) :
    (operations.map SearchOp.boot).filterMap SearchOp.tried? = [] ∧
      (operations.map SearchOp.boot).filterMap SearchOp.commit? = [] := by
  rw [List.filterMap_map, List.filterMap_map]
  exact ⟨List.filterMap_none .., List.filterMap_none ..⟩

/-- Counting a success always returns. -/
theorem addBootRecord_returns {ε : Type} (offset : Nat) (memory : Memory) :
    (addBootRecord (ε := ε) offset memory).outcome = .ok () := by
  have flag : ∀ position, (clearFlag (ε := ε) position memory).outcome = .ok () := by
    intro position
    rw [clearFlag, Prog.gets_bind]
    split <;> rfl
  rw [addBootRecord, Prog.gets_bind]
  split
  · rfl
  · rw [Prog.gets_bind]
    cases Unary.firstWord (Unary.pageWord memory (recordPage offset)) 0 64 with
    | some index => rfl
    | none => exact flag lockAt

/-- A program on flash as a part of the search. -/
theorem does_onFlash {program : FlashProg Stop Unit} {state : Searching}
    (returns : (program state.world.flash).outcome = .ok ()) :
    (onWorld (onFlash program)).Does state
      ((((program state.world.flash).trace.map Prod.snd).map BootOp.flash).map SearchOp.boot)
      (.ok ()) (state.withFlash (program state.world.flash).final) := by
  have inner : program.Does state.world.flash ((program state.world.flash).trace.map Prod.snd)
      (.ok ()) (program state.world.flash).final := ⟨rfl, returns, rfl⟩
  exact inner.zoom.zoom

/-- The slot that the fuses select does not depend on the records. -/
theorem FusePage.fuseSlot_records {memory memory' : Memory} (page : FusePage memory count)
    (same : SameOutside configStart fuseOff memory memory') :
    FusePage memory' count ∧ Firmware.fuseSlot memory' = Firmware.fuseSlot memory := by
  have page' : FusePage memory' count := page.congr fun address low _ => same address (.inr low)
  exact ⟨page', Fin.ext (page'.fuseSlot.trans page.fuseSlot.symm)⟩

/-- A burn selects the other slot. -/
theorem burnt_slot {memory memory' : Memory} (page : FusePage memory count)
    (burnt : FusePage memory' (burntCount count)) (other : fuseSlot memory ≠ bootSlot) :
    fuseSlot memory' = bootSlot := by
  have before := page.fuseSlot
  have after := burnt.fuseSlot
  have parity := burntCount_parity count
  have differs : (fuseSlot memory).val ≠ bootSlot.val := fun same => other (Fin.ext same)
  have one := (fuseSlot memory).isLt
  have two := bootSlot.isLt
  apply Fin.ext
  omega

/-- The offset of a success is recorded, on whatever flash. -/
theorem recordGlitch_does (page : FusePage state.world.flash count)
    (onGrid : ∃ index : Fin offsetCnt, state.offset = gridOffset index) :
    ∃ (operations : List BootOp) (final : Searching),
      recordGlitch.Does state (.commit (.addBootRecord state.offset) :: operations.map .boot)
        (.error (.finish 0 1)) final ∧
      fuseSlot final.world.flash = fuseSlot state.world.flash := by
  obtain ⟨index, same⟩ := onGrid
  have natural : state.offset.toNat = gridOffset index := by rw [same, Int.toNat_natCast]
  have returns : (addBootRecord (ε := Stop) state.offset.toNat state.world.flash).outcome = .ok () :=
    addBootRecord_returns _ _
  have confined : Confined configStart fuseOff state.world.flash
      (addBootRecord (ε := Stop) state.offset.toNat) state.world.flash := by
    rw [natural]
    exact addBootRecord_confined index (SameOutside.refl _)
  have outside := confined.returned () returns
  have run : recordGlitch state = (Prog.issue (.commit (.addBootRecord state.offset)) id >>= fun _ =>
      onWorld (onFlash (addBootRecord state.offset.toNat)) >>= fun _ =>
        Prog.stop (.finish 0 1) : SearchProg Unit) state := by
    rw [recordGlitch, Prog.gets_bind]
  have slot := (page.fuseSlot_records outside).2
  generalize addBootRecord (ε := Stop) state.offset.toNat = program at returns run slot
  have does : Prog.Does (Prog.issue (.commit (.addBootRecord state.offset)) id >>= fun _ =>
      onWorld (onFlash program) >>= fun _ => Prog.stop (.finish 0 1) : SearchProg Unit) state _
      (.error (.finish 0 1)) _ :=
    Prog.does_then ((does_onFlash returns).bind (Prog.does_stop _))
  rw [List.append_nil] at does
  exact ⟨_, _, does.of_run run, slot⟩

/-- A fuse is burnt. -/
theorem burn_does (page : FusePage state.world.flash count) :
    ∃ (operations : List BootOp) (flash : Memory),
      Prog.Does (Prog.issue (.commit .burnFuse) id >>= fun _ =>
        onWorld (onFlash burnFuse) : SearchProg Unit) state
        (.commit .burnFuse :: operations.map .boot) (.ok ()) (state.withFlash flash) ∧
      FusePage flash (burntCount count) := by
  have completes := burnFuse_completes (ε := Stop) page
  exact ⟨_, _, Prog.does_then (does_onFlash completes.1), completes.2⟩

/-- A success is kept. -/
theorem commitGlitch_does (page : FusePage state.world.flash count)
    (onGrid : ∃ index : Fin offsetCnt, state.offset = gridOffset index) :
    ∃ operations final, (commitGlitch bootSlot).Does state operations (.error (.finish 0 1)) final ∧
      operations.filterMap SearchOp.tried? = [] ∧
      operations.filterMap SearchOp.commit? = commitsOf state.world.flash bootSlot state.offset ∧
      fuseSlot final.world.flash = bootSlot := by
  by_cases same : fuseSlot state.world.flash = bootSlot
  · have skipped : commitGlitch bootSlot state = recordGlitch state := by
      rw [commitGlitch, Prog.gets_bind, same, bne_self_eq_false]
      rfl
    obtain ⟨boot, final, does, slot⟩ := recordGlitch_does page onGrid
    refine ⟨_, final, does.of_run skipped, (tried_boot boot).1, ?_, slot.trans same⟩
    rw [commitsOf, if_pos same]
    exact congrArg _ (tried_boot boot).2
  · have differs : (fuseSlot state.world.flash != bootSlot) = true := bne_iff_ne.mpr same
    have taken : commitGlitch bootSlot state = ((Prog.issue (.commit .burnFuse) id >>= fun _ =>
        onWorld (onFlash burnFuse)) >>= fun _ => recordGlitch : SearchProg Unit) state := by
      rw [commitGlitch, Prog.gets_bind, differs]
      rfl
    obtain ⟨burn, flash, burns, burnt⟩ := burn_does page
    have page' : FusePage (state.withFlash flash).world.flash (burntCount count) := burnt
    obtain ⟨boot, final, does, slot⟩ := recordGlitch_does page' onGrid
    refine ⟨_, final, (burns.bind does).of_run taken, ?_, ?_, ?_⟩
    · rw [List.filterMap_append, List.append_eq_nil_iff]
      exact ⟨(tried_boot burn).1, (tried_boot boot).1⟩
    · rw [List.filterMap_append, commitsOf, if_neg same]
      exact congrArg₂ (· ++ ·) (congrArg _ (tried_boot burn).2) (congrArg _ (tried_boot boot).2)
    · exact slot.trans (burnt_slot page burnt same)

end

section

variable {glitches : Nat → GlitchTry → Bool} {words : Nat → Nat → Nat → UInt32} {images : Images}
  {env : Env} {bootSlot : Slot} {rounds count : Nat} {state later : Searching}
  {next : SearchProg Unit} {plan rest : List GlitchTry}

/-- Without success, a full try ends with the rewrite, if it is the first one. -/
theorem afterTry_open (fullTry : Nat) (open' : later.glitched = false) :
    afterTry images env bootSlot fullTry later =
      Prog.runIf (fullTry == 0) (onWorld (rewritePayload images env bootSlot)) later := by
  rw [afterTry, Prog.gets_bind, open']
  rfl

/-- A success is kept, and nothing comes after it. -/
theorem afterTry_done (fullTry : Nat) {operations : List SearchOp} {reason : Stop}
    {final : Searching} (done : later.glitched = true)
    (does : (commitGlitch bootSlot).Does later operations (.error reason) final) :
    (afterTry images env bootSlot fullTry).Does later operations (.error reason) final := by
  apply Prog.does_read
  rw [done]
  exact does.bind_stop

/-- A full try makes the attempts of its plan and keeps a success; without one, the search goes on
behind it. -/
theorem searchTry_concludes {fullTry : Nat}
    (performs :
      Performs glitches (tryAll (returning glitches) words rounds fullTry) state plan later)
    (onGrid : ∀ attempt ∈ plan, ∃ index : Fin offsetCnt, attempt.offset = gridOffset index)
    (page : FusePage state.world.flash count)
    (goes : success glitches state.tries plan = none → ∃ operations outcome final,
      Concludes glitches bootSlot (afterTry images env bootSlot fullTry >>= fun _ => next) later rest
        operations outcome final) :
    ∃ operations outcome final, Concludes glitches bootSlot
      (searchTry (returning glitches) words images env bootSlot rounds fullTry >>= fun _ => next)
      state (plan ++ rest) operations outcome final := by
  have split : (searchTry (returning glitches) words images env bootSlot rounds fullTry >>= fun _ =>
      next) = tryAll (returning glitches) words rounds fullTry >>= fun _ =>
        afterTry images env bootSlot fullTry >>= fun _ => next := by
    rw [searchTry, bind_assoc]
  have does := performs.does
  rw [split]
  cases result : success glitches state.tries plan with
  | none =>
    obtain ⟨open', count⟩ := performs.failed result
    obtain ⟨operations, outcome, final, concludes⟩ := goes result
    have both : success glitches state.tries (plan ++ rest) = _ ∧ _ := append_of_none result
    rw [upTo_of_none result] at does
    rw [← count] at both
    refine ⟨_, outcome, final, ⟨does.bind concludes.does, ?_, ?_, ?_⟩⟩
    · rw [List.filterMap_append, (tried_attempts plan).1, concludes.tried, both.2]
    · rw [both.1, List.filterMap_append, (tried_attempts plan).2]
      exact concludes.failed
    · rw [both.1, List.filterMap_append, (tried_attempts plan).2, ← performs.world]
      exact concludes.worked
  | some attempt =>
    obtain ⟨done, offset⟩ := performs.worked attempt result
    have both : success glitches state.tries (plan ++ rest) = _ ∧ _ := append_of_some result
    have page' : FusePage later.world.flash count := by
      rw [performs.world]
      exact page
    have here : ∃ index : Fin offsetCnt, later.offset = gridOffset index := by
      rw [offset]
      exact onGrid attempt (success_mem result)
    obtain ⟨operations, final, commits, tried, calls, slot⟩ := commitGlitch_does page' here
    have kept :
        (afterTry images env bootSlot fullTry >>= fun _ => next).Does later operations _ final :=
      (afterTry_done fullTry done commits).bind_stop
    refine ⟨_, _, final, ⟨does.bind kept, ?_, ?_, ?_⟩⟩
    · rw [List.filterMap_append, (tried_attempts _).1, tried, both.2, List.append_nil]
    · rw [both.1]
      exact fun never => nomatch never
    · rw [both.1]
      intro attempt' same
      cases same
      rw [List.filterMap_append, (tried_attempts _).2, calls, performs.world, offset]
      exact ⟨rfl, rfl, slot⟩

/-- A rewrite leaves flash as it was, but for the records. -/
theorem rewritePayload_outside (images : Images) (env : Env) (bootSlot : Slot) (world : World) :
    (rewritePayload images env bootSlot).Ensures world (fun _ _ => True)
      (fun _ later => SameOutside configStart fuseOff world.flash later.flash) fun _ _ => True := by
  refine Prog.Ensures.andThen ((writePayload_spec env.mariko (Link.keeps_true _ _) trivial
    trivial).mono (fun _ _ _ => trivial) (fun _ _ only => only.blocks.flash)
    fun _ _ _ => trivial) fun _ second same => ?_
  apply Prog.ensures_read
  refine Prog.Ensures.zoom ((initConfig_confined _ _ _).mono (fun _ _ _ => trivial)
    (fun _ later agree => ?_) fun _ _ _ => trivial)
  rw [← same]
  exact agree

/-- The last full try, and the limit of attempts behind it. -/
theorem lastTry_concludes
    (performs : Performs glitches (tryAll (returning glitches) words rounds 1) state plan later)
    (onGrid : ∀ attempt ∈ plan, ∃ index : Fin offsetCnt, attempt.offset = gridOffset index)
    (page : FusePage state.world.flash count) :
    ∃ operations outcome final, Concludes glitches bootSlot
      (searchTry (returning glitches) words images env bootSlot rounds 1 >>= fun _ =>
        Prog.stop (.finish 7 3)) state plan operations outcome final := by
  have goes : success glitches state.tries plan = none → ∃ operations outcome final,
      Concludes glitches bootSlot (afterTry images env bootSlot 1 >>= fun _ =>
        Prog.stop (.finish 7 3)) later [] operations outcome final := by
    intro failed
    have skipped : (afterTry images env bootSlot 1).Does later [] (.ok ()) later :=
      (Prog.does_pure ()).of_run (afterTry_open 1 (performs.failed failed).1)
    refine ⟨_, _, later, skipped.bind (Prog.does_stop _), rfl, fun _ => ⟨rfl, rfl⟩, ?_⟩
    exact fun _ never => nomatch never
  have all := searchTry_concludes performs onGrid page goes
  rwa [List.append_nil] at all

/-- Behind the rewrite, the search concludes as it does from there. -/
theorem Concludes.after_rewrite {operations : List SearchOp} {outcome : Except Stop Unit}
    {final : Searching} (open' : later.glitched = false) (page : FusePage later.world.flash count)
    (rewrites : (rewritePayload images env bootSlot later.world).outcome = .ok ())
    (concludes : Concludes glitches bootSlot next
      { later with world := (rewritePayload images env bootSlot later.world).final } rest operations
      outcome final) :
    ∃ operations, Concludes glitches bootSlot (afterTry images env bootSlot 0 >>= fun _ => next) later
      rest operations outcome final := by
  have same := (page.fuseSlot_records
    ((rewritePayload_outside images env bootSlot later.world).returned () rewrites)).2
  have calls : ∀ offset, commitsOf (rewritePayload images env bootSlot later.world).final.flash
      bootSlot offset = commitsOf later.world.flash bootSlot offset := by
    intro offset
    rw [commitsOf, same, commitsOf]
  have inner : (rewritePayload images env bootSlot).Does later.world _ (.ok ()) _ :=
    ⟨rfl, rewrites, rfl⟩
  have zoomed : (onWorld (rewritePayload images env bootSlot)).Does later _ (.ok ())
      { later with world := (rewritePayload images env bootSlot later.world).final } := inner.zoom
  have rewritten := zoomed.of_run (afterTry_open 0 open')
  have boot := tried_boot ((rewritePayload images env bootSlot later.world).trace.map Prod.snd)
  refine ⟨_, rewritten.bind concludes.does, ?_, ?_, ?_⟩
  · rw [List.filterMap_append, boot.1]
    exact concludes.tried
  · rw [List.filterMap_append, boot.2]
    exact concludes.failed
  · rw [List.filterMap_append, boot.2]
    intro attempt worked
    rw [← calls]
    exact concludes.worked attempt worked

/-- The search makes the attempts of two plans, of which the second one knows the weights that the
rewrite leaves. -/
theorem search_concludes (glitches : Nat → GlitchTry → Bool) (words : Nat → Nat → Nat → UInt32)
    (enough : offsetCnt < rounds) (page : FusePage state.world.flash count)
    (rewrites : (rewritePayload images env bootSlot state.world).outcome = .ok ()) :
    ∃ plan, IsPlan 0 (getWeigth state.world.flash) plan ∧ ∃ again,
      IsPlan 1 (getWeigth (rewritePayload images env bootSlot state.world).final.flash) again ∧
      ∃ operations outcome final, Concludes glitches bootSlot
        (search (returning glitches) words images env bootSlot rounds) state (plan ++ again)
        operations outcome final := by
  obtain ⟨plan, isPlan, tries⟩ :=
    tryAll_performs glitches words 0 (getWeigth state.world.flash) enough
  obtain ⟨again, isPlan', tries'⟩ := tryAll_performs glitches words 1
    (getWeigth (rewritePayload images env bootSlot state.world).final.flash) enough
  refine ⟨plan, isPlan, again, isPlan', ?_⟩
  obtain ⟨later, performs⟩ := tries { state with glitched := false, offset := 0 } rfl rfl
  have world : later.world = state.world := performs.world
  have page' : FusePage later.world.flash count := by rwa [world]
  have last : later.glitched = false → ∃ operations outcome final, Concludes glitches bootSlot
      (searchTry (returning glitches) words images env bootSlot rounds 1 >>= fun _ =>
        Prog.stop (.finish 7 3))
      { later with world := (rewritePayload images env bootSlot later.world).final } again
      operations outcome final := by
    intro open'
    have outside :=
      (rewritePayload_outside images env bootSlot later.world).returned () (by rwa [world])
    obtain ⟨last, performs'⟩ := tries' { later with
      world := (rewritePayload images env bootSlot later.world).final } (by rw [world]) open'
    exact lastTry_concludes performs' isPlan'.grid (page'.fuseSlot_records outside).1
  obtain ⟨operations, outcome, final, concludes⟩ := searchTry_concludes performs isPlan.grid page
    fun failed => by
      obtain ⟨open', -⟩ := performs.failed failed
      obtain ⟨operations, outcome, final, concludes⟩ := last open'
      obtain ⟨operations', concludes'⟩ := concludes.after_rewrite open' page' (by rwa [world])
      exact ⟨operations', outcome, final, concludes'⟩
  have run : search (returning glitches) words images env bootSlot rounds state =
      (searchTry (returning glitches) words images env bootSlot rounds 0 >>= fun _ =>
        searchTry (returning glitches) words images env bootSlot rounds 1 >>= fun _ =>
          Prog.stop (.finish 7 3)) { state with glitched := false, offset := 0 } := by
    rw [search, Prog.update_bind]
    simp only [Prog.forRange, bind_assoc, pure_bind, Nat.zero_add]
  exact ⟨operations, outcome, final, concludes.does.of_run run, concludes.tried, concludes.failed,
    concludes.worked⟩

end

/-- The attempts of a search, in order. -/
def triesOf (run : Run Searching SearchOp Stop Unit) : List GlitchTry :=
  (run.trace.map Prod.snd).filterMap SearchOp.tried?

/-- The calls of a search that keep a success, in order. -/
def callsOf (run : Run Searching SearchOp Stop Unit) : List Commit :=
  (run.trace.map Prod.snd).filterMap SearchOp.commit?

/-- Flash at the start of a full try: the second one comes after the rewrite. -/
def flashOf (images : Images) (env : Env) (bootSlot : Slot) (world : World) (fullTry : Nat) :
    Memory :=
  if fullTry = 0 then world.flash else (rewritePayload images env bootSlot world).final.flash

/-- What a search does, from what its attempts do: the attempt with a number succeeds or not. -/
structure SearchCovers (glitches : Nat → GlitchTry → Bool) (images : Images) (env : Env)
    (bootSlot : Slot) (state : Searching) (run : Run Searching SearchOp Stop Unit) : Prop where
  /-- If no attempt succeeds, then each full try makes two attempts with each offset that is recorded
  at that time, and two more with each offset of the grid, and the search ends at its limit. -/
  failed : (∀ number attempt, (triesOf run)[number]? = some attempt →
      glitches (state.tries + number) attempt = false) →
    run.outcome = .error (.finish 7 3) ∧ callsOf run = [] ∧
    ∀ fullTry < 2, ∀ offset,
      (triesOf run).count (savedAttempt fullTry offset) =
        (if offset ∈ grid ∧ 0 < getWeigth (flashOf images env bootSlot state.world fullTry) offset
          then 2 else 0) ∧
      (triesOf run).count (randomAttempt fullTry offset) = if offset ∈ grid then 2 else 0
  /-- If an attempt succeeds, then it is the last one, on an offset of the grid; a fuse is burnt if
  the count selects another slot, the offset is recorded once, and the count selects the slot. -/
  worked : ∀ number attempt, (triesOf run)[number]? = some attempt →
    glitches (state.tries + number) attempt = true →
    (triesOf run).length = number + 1 ∧ run.outcome = .error (.finish 0 1) ∧
    (∃ index : Fin offsetCnt, attempt.offset = gridOffset index) ∧
    callsOf run = (if fuseSlot state.world.flash = bootSlot then [] else [.burnFuse]) ++
      [.addBootRecord attempt.offset] ∧
    fuseSlot run.final.world.flash = bootSlot

section

variable {plan again : List GlitchTry} {weights weights' : Nat → Nat}

/-- Two plans, one after the other, count for their own full tries. -/
theorem IsPlan.count_two (isPlan : IsPlan 0 weights plan) (isPlan' : IsPlan 1 weights' again)
    {fullTry : Nat} (below : fullTry < 2) (offset : Nat) :
    (plan ++ again).count (savedAttempt fullTry offset) =
        (if offset ∈ recorded (if fullTry = 0 then weights else weights') then 2 else 0) ∧
      (plan ++ again).count (randomAttempt fullTry offset) =
        if offset ∈ Firmware.grid then 2 else 0 := by
  have none : ∀ (attempt : GlitchTry) (number : Nat) (list : List GlitchTry),
      (∀ attempt ∈ list, attempt.fullTry = number) → attempt.fullTry ≠ number →
      list.count attempt = 0 := by
    intro attempt number list all other
    exact List.count_eq_zero_of_not_mem fun member => other (all attempt member)
  rw [List.count_append, List.count_append]
  interval_cases fullTry
  · rw [none (savedAttempt 0 offset) 1 again isPlan'.fullTry Nat.zero_ne_one,
      none (randomAttempt 0 offset) 1 again isPlan'.fullTry Nat.zero_ne_one, isPlan.saved,
      isPlan.random, if_pos rfl, Nat.add_zero, Nat.add_zero]
    exact ⟨rfl, rfl⟩
  · rw [none (savedAttempt 1 offset) 0 plan isPlan.fullTry Nat.one_ne_zero,
      none (randomAttempt 1 offset) 0 plan isPlan.fullTry Nat.one_ne_zero, isPlan'.saved,
      isPlan'.random, if_neg Nat.one_ne_zero, Nat.zero_add, Nat.zero_add]
    exact ⟨rfl, rfl⟩

end

/-- Whatever attempts succeed, whatever is recorded and whichever of the reachable fuse counts the
page holds: if the rewrite returns, then the search makes the attempts that it should, and ends as
it should. -/
theorem search_covers (glitches : Nat → GlitchTry → Bool) (words : Nat → Nat → Nat → UInt32)
    (images : Images) (env : Env) (bootSlot : Slot) (rounds : Nat) (state : Searching)
    (enough : offsetCnt < rounds) (reached : BurnReach state.world.flash)
    (rewrites : (rewritePayload images env bootSlot state.world).outcome = .ok ()) :
    SearchCovers glitches images env bootSlot state
      (search (fun number attempt => .ok (glitches number attempt)) words images env bootSlot rounds
        state) := by
  obtain ⟨count, page⟩ := reached.page
  obtain ⟨plan, isPlan, again, isPlan', operations, outcome, final, concludes⟩ :=
    search_concludes glitches words enough page rewrites
  have does := concludes.does
  have tries : triesOf (search (returning glitches) words images env bootSlot rounds state) =
      upTo glitches state.tries (plan ++ again) := by
    rw [triesOf, does.trace, concludes.tried]
  have calls : callsOf (search (returning glitches) words images env bootSlot rounds state) =
      operations.filterMap SearchOp.commit? := by
    rw [callsOf, does.trace]
  refine ⟨fun none => ?_, fun number attempt made works => ?_⟩
  · rw [tries] at none ⊢
    have failed := success_none none
    have ends := concludes.failed failed
    rw [upTo_of_none failed, calls]
    refine ⟨does.outcome.trans ends.1, ends.2, fun fullTry below offset => ?_⟩
    have counts := isPlan.count_two isPlan' below offset
    have same : (if fullTry = 0 then getWeigth state.world.flash
        else getWeigth (rewritePayload images env bootSlot state.world).final.flash) =
        getWeigth (flashOf images env bootSlot state.world fullTry) := by
      rw [flashOf]
      split <;> rfl
    rw [same] at counts
    refine ⟨counts.1.trans (if_congr ?_ rfl rfl), counts.2⟩
    rw [mem_recorded, mem_grid]
  · rw [tries] at made ⊢
    obtain ⟨worked, length⟩ := success_some made works
    obtain ⟨ends, kept, slot⟩ := concludes.worked attempt worked
    rw [calls, does.final]
    have listed : attempt ∈ plan ++ again := success_mem worked
    have onGrid := (List.mem_append.mp listed).elim (isPlan.grid attempt) (isPlan'.grid attempt)
    exact ⟨length, does.outcome.trans ends, onGrid, kept, slot⟩

/-- A program returns and leaves the flags of the boot. -/
def Steady {α : Type} (program : Boot α) (world : World) (vars : Vars) : Prop :=
  program.Ensures world (fun _ _ => True) (fun _ later => later.vars = vars) fun _ _ => False

section

variable {link : Link} {cid : Cid} {world : World} {vars : Vars}

/-- Initialisation on a line that never fails. -/
theorem reinitMmc_steady (reliable : link.Reliable cid) (same : world.vars = vars) :
    Steady (reinitMmc link) world vars :=
  (reinitMmc_counts reliable).ensures.weaken fun _ _ after => after.1.vars.trans same

/-- A boot that carries the mark of the payload saves no tables. -/
theorem saveBct_steady (marked : vars.isSpaceBl = true) (same : world.vars = vars) :
    Steady (saveBct link) world vars := by
  apply Prog.ensures_read
  rw [same, marked]
  exact (Prog.ensures_pure _).mpr same

/-- Writing an array on a line that never fails. -/
theorem writeData_steady (reliable : link.Reliable cid) (block : Nat) (data : Memory) (size : Nat)
    (same : world.vars = vars) : Steady (writeData link block data size) world vars := by
  have counts : (writeData link block data size).Counts world _ _ fun _ last =>
      MmcKept (fun _ => True) world last :=
    writeBlocks_counts reliable trivial fun _ _ _ _ _ => trivial
  exact counts.ensures.mono (fun _ _ _ => trivial) (fun _ _ kept => kept.vars.trans same)
    fun _ _ never => never

end

/-- A rewrite in a boot that does not save tables returns on a line that never fails. -/
theorem rewritePayload_returns {cid : Cid} (images : Images) (env : Env) (bootSlot : Slot)
    (world : World) (reliable : env.link.Reliable cid) (marked : world.vars.isSpaceBl = true) :
    (rewritePayload images env bootSlot world).outcome = .ok () := by
  have spec : (rewritePayload images env bootSlot).Ensures world (fun _ _ => True)
      (fun _ _ => True) fun _ _ => False := by
    simp only [rewritePayload, writePayload, writeDescriptor, bind_assoc]
    refine Prog.Ensures.andThen (reinitMmc_steady reliable rfl) fun _ second same => ?_
    refine Prog.Ensures.andThen (saveBct_steady marked same) fun _ third same => ?_
    refine Prog.Ensures.andThen (writeData_steady reliable _ _ _ same) fun _ fourth same => ?_
    refine Prog.Ensures.andThen (writeData_steady reliable _ _ _ same) fun _ fifth same => ?_
    refine Prog.Ensures.andThen (writeData_steady reliable _ _ _ same) fun _ sixth same => ?_
    apply Prog.ensures_read
    apply Prog.ensures_change
    refine Prog.Ensures.andThen (writeData_steady reliable _ _ _ same) fun _ seventh same => ?_
    refine Prog.ensures_bind ((Prog.ensures_issue _ _).mpr ⟨trivial, ?_⟩)
    apply Prog.ensures_read
    rw [id_eq, same, marked]
    apply Prog.ensures_bind ((Prog.ensures_pure _).mpr ?_)
    apply Prog.ensures_read
    exact Prog.Ensures.zoom ((initConfig_spec _).mono (fun _ _ _ => trivial)
      (fun _ _ _ => trivial) fun _ _ never => never)
  cases ended : (rewritePayload images env bootSlot world).outcome with
  | error reason => exact (spec.halted reason ended).elim
  | ok value => rfl

/-- A world whose boot block carries the mark of the payload. -/
def markedWorld : World where
  flash := fun _ => 0xFF
  mmc := fun _ _ => 0
  bus := ⟨0, fun _ => 0, fun _ => 0, fun _ => 0⟩
  vars := ⟨true, false, false⟩

/-- A search before its first attempt. -/
def searchStart : Searching := ⟨markedWorld, ⟨-1, 0⟩, Vector.ofFn gridOffset, 0, 0, false⟩

/-- A search of a blank store. -/
theorem search_covers_blank :
    SearchCovers (fun _ _ => false) blankImages (coldEnv fun _ _ => .ok none) 0 searchStart
      (search (fun _ _ => .ok false) (fun _ _ _ => 0) blankImages (coldEnv fun _ _ => .ok none) 0 111
        searchStart) :=
  search_covers (fun _ _ => false) (fun _ _ _ => 0) blankImages (coldEnv fun _ _ => .ok none) 0 111
    searchStart (by decide) (.erased _ fun _ _ => rfl)
    (rewritePayload_returns _ _ _ _ (perfectLink_reliable _) rfl)

/-- What is seen of a search: the operations of the firmware. -/
def SearchOp.boot? : SearchOp → Option BootOp
  | .boot operation => some operation
  | .tryOffset _ | .commit _ => none

/-- What is seen of a search in flash and eMMC is a program of the firmware. -/
abbrev Seen {α : Type} (program : SearchProg α) (state : Searching) (shown : Boot α) : Prop :=
  program.Shows Searching.world SearchOp.boot? state shown

section

variable {glitches : Nat → GlitchTry → Bool} {words : Nat → Nat → Nat → UInt32} {images : Images}
  {env : Env} {bootSlot : Slot} {rounds : Nat} {state later : Searching}
  {program : SearchProg Unit} {plan : List GlitchTry}

/-- Nothing is seen of attempts. -/
theorem Performs.seen (performs : Performs glitches program state plan later) :
    Seen program state (pure ()) := by
  have does := performs.does
  have world := (congrArg Searching.world does.final).trans performs.world
  refine Prog.shows_of_parts ?_ does.outcome world
  have hidden : ∀ event ∈ (program state).trace, SearchOp.boot? event.2 = none := by
    intro event member
    have listed : event.2 ∈ (program state).trace.map Prod.snd := List.mem_map_of_mem member
    rw [does.trace] at listed
    obtain ⟨attempt, -, same⟩ := List.mem_map.mp listed
    rw [← same]
    rfl
  change List.filterMap _ _ = []
  rw [List.filterMap_eq_nil_iff]
  intro event member
  rw [hidden event member]
  rfl

/-- A program of the firmware is seen as itself. -/
theorem onWorld_seen {α : Type} (program : Boot α) : Seen (onWorld program) state program :=
  Prog.shows_zoom (fun _ => rfl) fun _ => rfl

/-- It changes nothing but the world. -/
theorem onWorld_leaves {α : Type} {program : Boot α} {value : α}
    (leaves : (onWorld program).Leaves state value later) :
    later.offset = state.offset ∧ later.glitched = state.glitched := by
  rw [← leaves.final]
  exact ⟨rfl, rfl⟩

/-- The offset of a success is recorded. -/
theorem recordGlitch_seen {index : Fin offsetCnt} (offset : state.offset = gridOffset index) :
    Seen recordGlitch state (onFlash (addBootRecord (gridOffset index)) >>= fun _ =>
      finishWithCode (0, 1)) := by
  have natural : state.offset.toNat = gridOffset index := by rw [offset, Int.toNat_natCast]
  have looks : Seen (Prog.gets Searching.offset) state (pure state.offset) := rfl
  have marks : Seen (Prog.issue (.commit (.addBootRecord state.offset)) id) state (pure ()) :=
    Prog.shows_hidden rfl rfl
  rw [← natural]
  refine Prog.shows_quiet looks fun middle leaves => ?_
  have same : state = middle := leaves.final
  subst same
  refine Prog.shows_quiet marks fun _ _ => ?_
  exact Prog.shows_bind (onWorld_seen _) fun _ _ _ => Prog.shows_stop _

/-- A fuse is burnt as the boot burns it, and the offset stays. -/
theorem burn_seen (state : Searching) (taken : Bool) :
    Seen (Prog.runIf taken (Prog.issue (.commit .burnFuse) id >>= fun _ =>
      onWorld (onFlash burnFuse))) state (Prog.runIf taken (onFlash burnFuse)) ∧
    ∀ later, (Prog.runIf taken (Prog.issue (.commit .burnFuse) id >>= fun _ =>
      onWorld (onFlash burnFuse)) : SearchProg Unit).Leaves state () later →
        later.offset = state.offset := by
  cases taken with
  | false =>
    refine ⟨Prog.shows_pure (), fun later leaves => ?_⟩
    rw [← leaves.final]
    rfl
  | true =>
    have marks : Seen (Prog.issue (.commit .burnFuse) id) state (pure ()) :=
      Prog.shows_hidden rfl rfl
    constructor
    · exact Prog.shows_quiet marks fun _ _ => onWorld_seen _
    · intro later leaves
      obtain ⟨_, middle, mark, burn⟩ := Prog.leaves_bind.mp leaves
      have same : state = middle := mark.final
      rw [same]
      exact (onWorld_leaves burn).1

/-- A success is kept as the boot keeps it. -/
theorem commitGlitch_seen {index : Fin offsetCnt} (offset : state.offset = gridOffset index) :
    Seen (commitGlitch bootSlot) state (do
      commitSlot bootSlot
      onFlash (addBootRecord (gridOffset index))
      finishWithCode (0, 1)) := by
  simp only [commitGlitch, commitSlot, bind_assoc]
  refine Prog.shows_bind (Prog.shows_gets fun world : World => fuseSlot world.flash)
    fun boot middle leaves => ?_
  have same : state = middle := leaves.final
  subst same
  obtain ⟨burns, stays⟩ := burn_seen state (boot != bootSlot)
  refine Prog.shows_bind burns fun _ later leaves => ?_
  exact recordGlitch_seen ((stays later leaves).trans offset)

/-- A full try of a boot whose search finds nothing. -/
theorem fullTry_none {number : Nat} {world : World}
    (finds : env.search number world.flash = .ok none) :
    fullTry env bootSlot number world = (pure () : Boot Unit) world := by
  rw [fullTry, Prog.gets_bind, finds]

/-- A full try of a boot whose search finds an offset. -/
theorem fullTry_some {number : Nat} {world : World} {index : Fin offsetCnt}
    (finds : env.search number world.flash = .ok (some index)) :
    fullTry env bootSlot number world = (do
      commitSlot bootSlot
      onFlash (addBootRecord (gridOffset index))
      finishWithCode (0, 1) : Boot Unit) world := by
  rw [fullTry, Prog.gets_bind, finds]

/-- A rewrite is seen as itself. -/
theorem rewrite_seen (taken : Bool) :
    Seen (Prog.runIf taken (onWorld (rewritePayload images env bootSlot))) state
      (Prog.runIf taken (rewritePayload images env bootSlot)) := by
  cases taken with
  | true => exact onWorld_seen _
  | false => exact Prog.shows_pure ()

/-- A full try is seen as that of a boot whose search finds what the plan yields. -/
theorem searchTry_seen {number : Nat}
    (performs : Performs glitches (tryAll (returning glitches) words rounds number) state plan later)
    (onGrid : ∀ attempt ∈ plan, ∃ index : Fin offsetCnt, attempt.offset = gridOffset index) :
    ∃ result : Option (Fin offsetCnt), ∀ env : Env,
      env.search number state.world.flash = .ok result →
      Seen (searchTry (returning glitches) words images env bootSlot rounds number) state (do
        fullTry env bootSlot number
        Prog.runIf (number == 0) (rewritePayload images env bootSlot)) := by
  cases result : success glitches state.tries plan with
  | none =>
    obtain ⟨open', -⟩ := performs.failed result
    refine ⟨none, fun env finds => Prog.shows_quiet performs.seen fun middle leaves => ?_⟩
    have same : later = middle := performs.does.final.symm.trans leaves.final
    subst same
    rw [← performs.world] at finds
    refine (rewrite_seen (number == 0)).of_run (afterTry_open number open') ?_
    exact Prog.bind_run (fullTry_none finds)
  | some attempt =>
    obtain ⟨done, offset⟩ := performs.worked attempt result
    obtain ⟨index, here⟩ := onGrid attempt (success_mem result)
    refine ⟨some index, fun env finds => Prog.shows_quiet performs.seen fun middle leaves => ?_⟩
    have same : later = middle := performs.does.final.symm.trans leaves.final
    subst same
    rw [← performs.world] at finds
    have kept : Seen (commitGlitch bootSlot >>= fun _ =>
        Prog.runIf (number == 0) (onWorld (rewritePayload images env bootSlot))) later _ :=
      Prog.shows_bind (commitGlitch_seen (offset.trans here)) fun _ _ _ => rewrite_seen (number == 0)
    refine kept.of_run ?_ (Prog.bind_run (fullTry_some finds))
    rw [afterTry, Prog.gets_bind, done]
    rfl

/-- A success never lets the search go on. -/
theorem commitGlitch_stops (state later : Searching) :
    ¬ (commitGlitch bootSlot).Leaves state () later := by
  intro leaves
  obtain ⟨_, _, -, leaves⟩ := Prog.leaves_bind.mp leaves
  obtain ⟨_, _, -, leaves⟩ := Prog.leaves_bind.mp leaves
  obtain ⟨_, _, -, leaves⟩ := Prog.leaves_bind.mp leaves
  obtain ⟨_, _, -, leaves⟩ := Prog.leaves_bind.mp leaves
  obtain ⟨_, _, -, leaves⟩ := Prog.leaves_bind.mp leaves
  exact nomatch leaves.returned

/-- A full try that returns leaves the search without success. -/
theorem searchTry_leaves {number : Nat}
    (leaves : (searchTry (returning glitches) words images env bootSlot rounds number).Leaves state ()
      later) : later.glitched = false := by
  obtain ⟨_, middle, -, after⟩ := Prog.leaves_bind.mp leaves
  cases glitched : middle.glitched with
  | false =>
    obtain ⟨-, final⟩ := after
    rw [afterTry_open number glitched] at final
    subst final
    cases number == 0 <;> exact glitched
  | true =>
    obtain ⟨value, _, looks, rest⟩ := Prog.leaves_bind.mp after
    have seen : value = true := (Except.ok.inj looks.returned).symm.trans glitched
    subst seen
    obtain ⟨_, _, kept, -⟩ := Prog.leaves_bind.mp rest
    exact absurd kept (commitGlitch_stops _ _)

/-- A full try that is entered without success is seen as that of a boot, with some result of its
search. -/
theorem openTry_seen (glitches : Nat → GlitchTry → Bool) (words : Nat → Nat → Nat → UInt32)
    (images : Images) (bootSlot : Slot) (enough : offsetCnt < rounds) (number : Nat)
    (open' : state.glitched = false) :
    ∃ result : Option (Fin offsetCnt), ∀ env : Env,
      env.search number state.world.flash = .ok result →
      Seen (searchTry (returning glitches) words images env bootSlot rounds number) state (do
        fullTry env bootSlot number
        Prog.runIf (number == 0) (rewritePayload images env bootSlot)) := by
  obtain ⟨plan, isPlan, tries⟩ :=
    tryAll_performs glitches words number (getWeigth state.world.flash) enough
  obtain ⟨later, performs⟩ := tries state rfl open'
  exact searchTry_seen performs isPlan.grid

/-- So is a full try after one that returns. -/
theorem nextTry_seen (glitches : Nat → GlitchTry → Bool) (words : Nat → Nat → Nat → UInt32)
    (images : Images) (env : Env) (bootSlot : Slot) (state : Searching) (enough : offsetCnt < rounds)
    (number next : Nat) :
    ∃ result : Option (Fin offsetCnt), ∀ later,
      (searchTry (returning glitches) words images env bootSlot rounds number).Leaves state () later →
      ∀ env : Env, env.search next later.world.flash = .ok result →
      Seen (searchTry (returning glitches) words images env bootSlot rounds next) later (do
        fullTry env bootSlot next
        Prog.runIf (next == 0) (rewritePayload images env bootSlot)) := by
  generalize last : (searchTry (returning glitches) words images env bootSlot rounds number
    state).final = final
  cases glitched : final.glitched with
  | false =>
    obtain ⟨result, shows⟩ := openTry_seen glitches words images bootSlot enough next glitched
    refine ⟨result, fun later leaves => ?_⟩
    rw [← leaves.final.symm.trans last] at shows
    exact shows
  | true =>
    refine ⟨none, fun later leaves => ?_⟩
    have failed := searchTry_leaves leaves
    rw [leaves.final.symm.trans last, glitched] at failed
    exact nomatch failed

/-- What is seen of the search is a boot with some result of its two searches. -/
theorem search_seen (glitches : Nat → GlitchTry → Bool) (words : Nat → Nat → Nat → UInt32)
    (images : Images) (env : Env) (bootSlot : Slot) (state : Searching)
    (enough : offsetCnt < rounds) :
    ∃ found : Nat → Memory → Except (Nat × Nat) (Option (Fin offsetCnt)),
      Seen (search (returning glitches) words images env bootSlot rounds) state (do
        fullTry { env with search := found } bootSlot 0
        rewritePayload images { env with search := found } bootSlot
        fullTry { env with search := found } bootSlot 1
        finishWithCode (7, 3)) := by
  let start : Searching := { state with glitched := false, offset := 0 }
  obtain ⟨result, shows⟩ :=
    (openTry_seen glitches words images bootSlot enough 0 rfl : ∃ result, ∀ env : Env,
      env.search 0 start.world.flash = .ok result → Seen _ start _)
  -- the second full try starts where the first one ends, if it returns
  obtain ⟨result', shows'⟩ := nextTry_seen glitches words images env bootSlot start enough 0 1
  let found : Nat → Memory → Except (Nat × Nat) (Option (Fin offsetCnt)) := fun number _ =>
    .ok (if number = 0 then result else result')
  have parts : Seen (searchTry (returning glitches) words images { env with search := found } bootSlot
      rounds 0 >>= fun _ => searchTry (returning glitches) words images { env with search := found }
        bootSlot rounds 1 >>= fun _ => (Prog.stop (.finish 7 3) : SearchProg Unit))
      { state with glitched := false, offset := 0 } _ :=
    Prog.shows_bind (shows { env with search := found } rfl) fun _ later leaves =>
      Prog.shows_bind (shows' later leaves { env with search := found } rfl) fun _ _ _ =>
        Prog.shows_stop _
  refine ⟨found, parts.of_run ?_ ?_⟩
  · rw [search, Prog.update_bind]
    simp only [Prog.forRange, bind_assoc, pure_bind, Nat.zero_add]
    rfl
  · simp only [bind_assoc]
    rfl

end

end Fly2040.Firmware
