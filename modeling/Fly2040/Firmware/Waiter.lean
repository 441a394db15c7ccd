import Fly2040.Firmware.Sniffer
/-!
# The end of the data

A machine tells when the data of a block has passed. It waits until the data line is low for three
cycles in a row, which is the start bit of the data, and lets as many cycles pass as the block and
its checksum last. A line that is low for a shorter time does not count, and no start bit is missed.
-/

namespace Fly2040.Firmware

open Bits Pio

/-- Program of the machine that waits for the end of the data. -/
def glitchDatWaiter : List Op :=
  [⟨.movX .y, 0⟩,
    ⟨.jmp .pin 1, 0⟩,
    ⟨.jmp .pin 1, 0⟩,
    ⟨.jmp .pin 1, 0⟩,
    ⟨.jmp .xDecrement 4, 0⟩,
    ⟨.irqClear 1, 0⟩]

/-- Cycles that the data of a block lasts. -/
def dataTicks : UInt32 := 528 * 300 / 25

/-- Put the number of cycles into the register of the machine. -/
def uploadDatPio (sm : Sm) : Sm :=
  let counted := loadDigits dataTicks 6 sm
  { counted with y := counted.register .isr }

/-- Let the machine wait: what it has shifted in and its queues are cleared, its other registers
stay. -/
def initDat0Pio (sm : Sm) : Sm :=
  { sm with isr := [], tx := [], rx := [], delay := 0, pc := 0, enabled := true }

namespace Waiter

/-- The line is low for three cycles. -/
def Low (env : Pio.Env) (cycle : Nat) : Prop := ∀ index < 3, env.pin (cycle + index) 0 = false

/-- The machine runs, and knows how long the data lasts. -/
structure Set (ticks : UInt32) (sm : Sm) : Prop where
  /-- It runs. -/
  enabled : sm.enabled = true
  /-- Not in a pause. -/
  delay : sm.delay = 0
  /-- It is given no words. -/
  tx : sm.tx = []
  /-- It knows how long the data lasts. -/
  y : sm.y = ticks

/-- The number of cycles is put into the register, and nothing else but what is shifted in on the
way. -/
theorem uploadDatPio_eq {sm : Sm} (empty : sm.isr = []) :
    uploadDatPio sm = { sm with y := dataTicks, isr := (uploadDatPio sm).isr } := by
  have ⟨y, counted⟩ := @Sniffer.loadDigits_eq dataTicks 6 sm (by rw [empty]; decide)
  have count : (loadDigits dataTicks 6 sm).register .isr = dataTicks := by
    rw [Sm.register, counted, empty]
    show UInt32.ofBitVec (packed 32 ([] ++ (ofWord dataTicks).drop 8)) = dataTicks
    decide
  rw [uploadDatPio]
  dsimp only
  rw [count, counted]

section Instructions

variable {env : Pio.Env} {ticks : UInt32} {sm : Sm} (set : Set ticks sm)

include set

/-- A machine at an instruction carries it out. -/
theorem step_act : step env glitchDatWaiter sm = sm.act env glitchDatWaiter := by
  have runs : ¬sm.enabled = false := by
    rw [set.enabled]
    decide
  rw [step, if_neg runs, if_pos set.delay, refill_of_dry _ set.tx]

/-- The number of cycles is taken. -/
theorem step_load (pc : sm.pc = 0) : step env glitchDatWaiter sm =
    { sm with pc := 1, x := ticks, cycle := sm.cycle + 1 } := by
  have delay := set.delay
  rw [step_act set]
  simp [Sm.act, pc, glitchDatWaiter, execute, following, Sm.register, set.y, delay]

/-- The line is tested; a high level lets the machine begin again. -/
theorem step_test {lows : Nat} (few : lows < 3) (pc : sm.pc = lows + 1) :
    step env glitchDatWaiter sm =
      { sm with
        pc := if env.pin sm.cycle 0 then 1 else lows + 2
        cycle := sm.cycle + 1 } := by
  have delay := set.delay
  rw [step_act set]
  interval_cases lows <;> cases level : env.pin sm.cycle 0 <;>
    simp [Sm.act, pc, glitchDatWaiter, execute, following, Sm.taken, Sm.count, level, delay]

/-- A cycle of the data passes. -/
theorem step_tick (pc : sm.pc = 4) : step env glitchDatWaiter sm =
    { sm with
      x := sm.x - 1
      pc := if sm.x = 0 then 5 else 4
      cycle := sm.cycle + 1 } := by
  have delay := set.delay
  rw [step_act set]
  by_cases zero : sm.x = 0 <;>
    simp [Sm.act, pc, glitchDatWaiter, execute, following, Sm.taken, Sm.count, zero, delay]

/-- The end of the data is told. -/
theorem step_tell (pc : sm.pc = 5) : step env glitchDatWaiter sm =
    { sm with cleared := sm.cleared ++ [1], pc := 0, cycle := sm.cycle + 1 } := by
  have delay := set.delay
  rw [step_act set]
  simp [Sm.act, pc, glitchDatWaiter, execute, following, delay]

end Instructions

/-- The data of some blocks has passed, one after the other: each begins with the first low level
that is long enough behind the one before, and the machine listens again from a cycle on. -/
inductive Blocks (env : Pio.Env) (ticks : UInt32) (since : Nat) : (blocks next : Nat) → Prop where
  /-- No data has passed. -/
  | none : Blocks env ticks since 0 since
  /-- The data of a block has passed. -/
  | next {blocks next start : Nat} (before : Blocks env ticks since blocks next)
      (after : next ≤ start) (first : ∀ cycle, next ≤ cycle → cycle < start → ¬Low env cycle)
      (low : Low env start) : Blocks env ticks since (blocks + 1) (start + ticks.toNat + 6)

namespace Blocks

variable {env : Pio.Env} {ticks : UInt32} {since : Nat}

/-- The cycles are determined by the line. -/
theorem unique {blocks next next' : Nat} (passed : Blocks env ticks since blocks next)
    (passed' : Blocks env ticks since blocks next') : next = next' := by
  induction passed generalizing next' with
  | none =>
    cases passed' with
    | none => rfl
  | @next blocks next start before after first low ih =>
    cases passed' with
    | @next _ next' start' before' after' first' low' =>
      have same := ih before'
      rw [same] at after first
      have late : ¬start < start' := fun earlier => first' start after earlier low
      have early : ¬start' < start := fun later => first start' after' later low'
      rw [show start = start' by omega]

/-- A number of blocks has passed before a larger one. -/
theorem earlier {blocks fewer next : Nat} (passed : Blocks env ticks since blocks next)
    (few : fewer ≤ blocks) : ∃ before, Blocks env ticks since fewer before ∧ before ≤ next := by
  induction passed with
  | none =>
    rw [Nat.le_zero.mp few]
    exact ⟨since, .none, Nat.le_refl since⟩
  | @next blocks next start before after first low ih =>
    by_cases all : fewer = blocks + 1
    · rw [all]
      exact ⟨_, .next before after first low, Nat.le_refl _⟩
    · have ⟨ended, passed', early⟩ := ih (by omega)
      exact ⟨ended, passed', by omega⟩

end Blocks

/-- Where the machine is that listens from a cycle on. -/
inductive Phase (env : Pio.Env) (ticks : UInt32) (next : Nat) (sm : Sm) : Prop where
  /-- It takes the number of cycles. -/
  | load (pc : sm.pc = 0) (time : sm.cycle + 1 = next)
  /-- The line has been low for some cycles, and high before. -/
  | test {lows : Nat} (few : lows < 3) (pc : sm.pc = lows + 1) (x : sm.x = ticks)
      (begun : next + lows ≤ sm.cycle)
      (low : ∀ cycle, cycle < sm.cycle → sm.cycle ≤ cycle + lows → env.pin cycle 0 = false)
      (edge : sm.cycle = next + lows ∨ env.pin (sm.cycle - lows - 1) 0 = true)
      (none : ∀ cycle, next ≤ cycle → cycle + 3 ≤ sm.cycle → ¬Low env cycle)
  /-- The data passes. -/
  | tick {start gone : Nat} (pc : sm.pc = 4) (after : next ≤ start)
      (first : ∀ cycle, next ≤ cycle → cycle < start → ¬Low env cycle) (low : Low env start)
      (x : sm.x.toNat + gone = ticks.toNat) (time : sm.cycle = start + 3 + gone)
  /-- The end of the data is told next. -/
  | tell {start : Nat} (pc : sm.pc = 5) (after : next ≤ start)
      (first : ∀ cycle, next ≤ cycle → cycle < start → ¬Low env cycle) (low : Low env start)
      (time : sm.cycle = start + ticks.toNat + 4)

/-- A block that passes has not passed yet. -/
theorem Phase.early {env : Pio.Env} {ticks : UInt32} {next start : Nat} {sm : Sm}
    (phase : Phase env ticks next sm) (after : next ≤ start) (low : Low env start) :
    sm.cycle + 1 < start + ticks.toNat + 6 := by
  cases phase with
  | load pc time => omega
  | @test lows few pc x begun _ _ none =>
    have late : ¬start + 3 ≤ sm.cycle := fun past => none start after past low
    omega
  | @tick start' gone pc after' first low' x time =>
    have late : ¬start < start' := fun earlier => first start after earlier low
    omega
  | @tell start' pc after' first low' time =>
    have late : ¬start < start' := fun earlier => first start after earlier low
    omega

section Steps

variable {env : Pio.Env} {ticks : UInt32} {next : Nat} {sm : Sm} (set : Set ticks sm)

include set

/-- A high level lets the machine begin again. -/
theorem Phase.test_high {lows : Nat} (few : lows < 3) (pc : sm.pc = lows + 1) (x : sm.x = ticks)
    (begun : next + lows ≤ sm.cycle)
    (none : ∀ cycle, next ≤ cycle → cycle + 3 ≤ sm.cycle → ¬Low env cycle)
    (level : env.pin sm.cycle 0 = true) :
    Phase env ticks next (step env glitchDatWaiter sm) := by
  rw [@step_test env _ _ set _ few pc, level, if_pos rfl]
  have late : next + 0 ≤ sm.cycle + 1 := by omega
  refine @Phase.test env ticks next _ 0 (show 0 < 3 by decide) rfl x late ?_ (.inr level) ?_
  · intro cycle early past
    change cycle < sm.cycle + 1 at early
    change sm.cycle + 1 ≤ cycle + 0 at past
    omega
  · intro cycle after past all
    change cycle + 3 ≤ sm.cycle + 1 at past
    by_cases last : cycle + 2 = sm.cycle
    · have low := all 2 (show 2 < 3 by decide)
      rw [last, level] at low
      cases low
    · exact none cycle after (by omega) all

/-- A low level is counted, and the third one in a row is the start bit. -/
theorem Phase.test_low {lows : Nat} (few : lows < 3) (pc : sm.pc = lows + 1) (x : sm.x = ticks)
    (begun : next + lows ≤ sm.cycle)
    (low : ∀ cycle, cycle < sm.cycle → sm.cycle ≤ cycle + lows → env.pin cycle 0 = false)
    (edge : sm.cycle = next + lows ∨ env.pin (sm.cycle - lows - 1) 0 = true)
    (none : ∀ cycle, next ≤ cycle → cycle + 3 ≤ sm.cycle → ¬Low env cycle)
    (level : env.pin sm.cycle 0 = false) :
    Phase env ticks next (step env glitchDatWaiter sm) := by
  have lower : ∀ cycle, cycle < sm.cycle + 1 → sm.cycle + 1 ≤ cycle + (lows + 1) →
      env.pin cycle 0 = false := by
    intro cycle early late
    by_cases now : cycle = sm.cycle
    · rw [now]
      exact level
    · exact low cycle (by omega) (by omega)
  rw [@step_test env _ _ set _ few pc, level, if_neg Bool.false_ne_true]
  by_cases third : lows = 2
  · subst third
    have all : Low env (sm.cycle - 2) := fun index inside =>
      lower _ (by omega) (by omega)
    have first : ∀ cycle, next ≤ cycle → cycle < sm.cycle - 2 → ¬Low env cycle :=
      fun cycle after before => none cycle after (by omega)
    have time : sm.cycle + 1 = sm.cycle - 2 + 3 + 0 := by omega
    exact @Phase.tick env ticks next _ (sm.cycle - 2) 0 rfl (by omega) first all
      (congrArg UInt32.toNat x) time
  · have late : next + (lows + 1) ≤ sm.cycle + 1 := by omega
    refine @Phase.test env ticks next _ (lows + 1) (by omega) rfl x late lower ?_ ?_
    · show sm.cycle + 1 = next + (lows + 1) ∨ env.pin (sm.cycle + 1 - (lows + 1) - 1) 0 = true
      rw [Nat.add_sub_add_right]
      exact edge.imp (congrArg (· + 1)) id
    · intro cycle after past all
      change cycle + 3 ≤ sm.cycle + 1 at past
      by_cases last : cycle + 2 = sm.cycle
      · -- the level before the low ones is one of the three
        cases edge with
        | inl early => omega
        | inr high =>
          have among := all (2 - lows - 1) (by omega)
          rw [show cycle + (2 - lows - 1) = sm.cycle - lows - 1 by omega, high] at among
          cases among
      · exact none cycle after (by omega) all

/-- A cycle leads to a phase again and tells nothing, or the end of a block is told. -/
theorem Phase.step (phase : Phase env ticks next sm) :
    Set ticks (step env glitchDatWaiter sm) ∧
      (Phase env ticks next (Pio.step env glitchDatWaiter sm) ∧
          (Pio.step env glitchDatWaiter sm).cleared = sm.cleared ∨
        ∃ start, next ≤ start ∧ (∀ cycle, next ≤ cycle → cycle < start → ¬Low env cycle) ∧
          Low env start ∧ (Pio.step env glitchDatWaiter sm).pc = 0 ∧
          (Pio.step env glitchDatWaiter sm).cycle + 1 = start + ticks.toNat + 6 ∧
          (Pio.step env glitchDatWaiter sm).cleared = sm.cleared ++ [1]) := by
  cases phase with
  | load pc time =>
    have loaded := @step_load env _ _ set pc
    refine ⟨by rw [loaded]; exact ⟨set.enabled, set.delay, set.tx, set.y⟩, .inl ⟨?_, ?_⟩⟩
    · rw [loaded]
      refine @Phase.test env ticks next _ 0 (show 0 < 3 by decide) rfl rfl (Nat.le_of_eq time.symm)
        ?_ (.inl time) ?_
      · intro cycle early late
        change cycle < sm.cycle + 1 at early
        change sm.cycle + 1 ≤ cycle + 0 at late
        omega
      · intro cycle after past
        change cycle + 3 ≤ sm.cycle + 1 at past
        omega
    · rw [loaded]
  | @test lows few pc x begun low edge none =>
    have tested := @step_test env _ _ set _ few pc
    refine ⟨by rw [tested]; exact ⟨set.enabled, set.delay, set.tx, set.y⟩, .inl ⟨?_, ?_⟩⟩
    · cases level : env.pin sm.cycle 0 with
      | true => exact Phase.test_high set few pc x begun none level
      | false => exact Phase.test_low set few pc x begun low edge none level
    · rw [tested]
  | @tick start gone pc after first low x time =>
    have ticked := @step_tick env _ _ set pc
    refine ⟨by rw [ticked]; exact ⟨set.enabled, set.delay, set.tx, set.y⟩, .inl ⟨?_, ?_⟩⟩
    · rw [ticked]
      by_cases zero : sm.x = 0
      · rw [if_pos zero]
        have none : sm.x.toNat = 0 := by rw [zero, UInt32.toNat_zero]
        have last : sm.cycle + 1 = start + ticks.toNat + 4 := by omega
        exact .tell rfl after first low last
      · rw [if_neg zero]
        have some : sm.x.toNat ≠ 0 := fun none => zero (UInt32.toNat_inj.mp none)
        have less : (sm.x - 1).toNat = sm.x.toNat - 1 := UInt32.toNat_sub_of_le _ _
          (UInt32.le_iff_toNat_le.mpr (Nat.pos_of_ne_zero some))
        have left : (sm.x - 1).toNat + (gone + 1) = ticks.toNat := by omega
        have later : sm.cycle + 1 = start + 3 + (gone + 1) := by omega
        exact .tick rfl after first low left later
    · rw [ticked]
  | @tell start pc after first low time =>
    have told := @step_tell env _ _ set pc
    refine ⟨by rw [told]; exact ⟨set.enabled, set.delay, set.tx, set.y⟩,
      .inr ⟨start, after, first, low, ?_, ?_, ?_⟩⟩
    · rw [told]
    · rw [step_cycle]
      omega
    · rw [told]

/-- In every cycle the machine is in a phase, and has told the blocks that have passed. -/
theorem iterate_phase (pc : sm.pc = 0) (count : Nat) :
    let last := (Pio.step env glitchDatWaiter)^[count] sm
    Set ticks last ∧ ∃ blocks next, Blocks env ticks (sm.cycle + 1) blocks next ∧
      next ≤ last.cycle + 1 ∧ Phase env ticks next last ∧
      last.cleared = sm.cleared ++ List.replicate blocks 1 := by
  induction count with
  | zero =>
    exact ⟨set, 0, sm.cycle + 1, .none, Nat.le_refl _, .load pc rfl, (List.append_nil _).symm⟩
  | succ count ih =>
    have ⟨set', blocks, next, passed, late, phase, cleared⟩ := ih
    have ⟨set'', after⟩ := phase.step set'
    rw [Function.iterate_succ_apply']
    refine ⟨set'', ?_⟩
    rcases after with ⟨phase', same⟩ | ⟨start, after, first, low, pc', time, told⟩
    · refine ⟨blocks, next, passed, ?_, phase', same.trans cleared⟩
      rw [step_cycle]
      omega
    · refine ⟨blocks + 1, _, .next passed after first low, Nat.le_of_eq time.symm,
        .load pc' time, ?_⟩
      rw [told, cleared, List.append_assoc, List.replicate_succ']

/-- The blocks that have been told are exactly those that have passed. -/
theorem iterate_told (pc : sm.pc = 0) (count : Nat) :
    let last := (Pio.step env glitchDatWaiter)^[count] sm
    ∃ told, last.cleared = sm.cleared ++ List.replicate told 1 ∧
      ∀ blocks, blocks ≤ told ↔
        ∃ next, Blocks env ticks (sm.cycle + 1) blocks next ∧ next ≤ last.cycle + 1 := by
  intro last
  have ⟨_, told, next, passed, late, phase, cleared⟩ := @iterate_phase env _ _ set pc count
  refine ⟨told, cleared, ?_⟩
  intro blocks
  constructor
  · intro few
    have ⟨before, passed', early⟩ := passed.earlier few
    exact ⟨before, passed', early.trans late⟩
  · intro ⟨next', passed', late'⟩
    by_contra more
    -- the block behind those that are told has not passed yet
    have ⟨between, behind, early⟩ := passed'.earlier (Nat.lt_of_not_le more)
    cases behind with
    | @next _ _ start before after first low =>
      rw [before.unique passed] at after
      have soon : last.cycle + 1 < start + ticks.toNat + 6 := phase.early after low
      exact absurd (early.trans late') (Nat.not_le_of_lt soon)

end Steps

/-- A machine that knows how long the data lasts runs as soon as it is set up. -/
theorem initDat0Pio_set {ticks : UInt32} {sm : Sm} (y : sm.y = ticks) :
    Set ticks (initDat0Pio sm) :=
  ⟨rfl, rfl, rfl, y⟩

/-- The machine in tries of the glitch, each of which sets it up again and lasts for some cycles. -/
def tried (env : Pio.Env) (sm : Sm) (tries : List Nat) : Sm :=
  tries.foldl (fun sm count => (step env glitchDatWaiter)^[count] (initDat0Pio sm)) sm

/-- The machine knows how long the data lasts in every try. -/
theorem tried_y (env : Pio.Env) {ticks : UInt32} {sm : Sm} (y : sm.y = ticks) (tries : List Nat) :
    (tried env sm tries).y = ticks := by
  induction tries generalizing sm with
  | nil => exact y
  | cons count tries ih =>
    have ⟨set, _⟩ := @iterate_phase env _ _ (initDat0Pio_set y) rfl count
    exact ih set.y

/-- The machine tells the end of the data in a cycle of a try. -/
def tells (env : Pio.Env) (sm : Sm) (count : Nat) : Bool :=
  ((step env glitchDatWaiter)^[count + 1] sm).cleared ≠
    ((step env glitchDatWaiter)^[count] sm).cleared

/-- As many cycles pass as are run. -/
theorem iterate_cycle (env : Pio.Env) (sm : Sm) (count : Nat) :
    ((step env glitchDatWaiter)^[count] sm).cycle = sm.cycle + count := by
  induction count with
  | zero => rfl
  | succ count ih =>
    rw [Function.iterate_succ_apply', step_cycle, ih]
    rfl

/-- The end of the data is told when a block has passed. -/
theorem tells_passed {env : Pio.Env} {ticks : UInt32} {sm : Sm} (set : Set ticks sm)
    (pc : sm.pc = 0) {count : Nat} (tells : tells env sm count = true) :
    ∃ blocks, Blocks env ticks (sm.cycle + 1) (blocks + 1) (sm.cycle + count + 2) := by
  have ⟨told, cleared, passed⟩ := @iterate_told env _ _ set pc count
  have ⟨told', cleared', passed'⟩ := @iterate_told env _ _ set pc (count + 1)
  rw [iterate_cycle] at passed passed'
  have other : told' ≠ told := by
    intro same
    have differ := of_decide_eq_true tells
    rw [cleared, cleared', same] at differ
    exact differ rfl
  have more : told + 1 ≤ told' := by
    have ⟨next, before, late⟩ := (passed told).mp (Nat.le_refl told)
    have fewer := (passed' told).mpr ⟨next, before, late.trans (by omega)⟩
    omega
  have ⟨next, behind, late⟩ := (passed' (told + 1)).mp more
  have early : ¬next ≤ sm.cycle + count + 1 := fun early =>
    absurd ((passed (told + 1)).mpr ⟨next, behind, early⟩) (Nat.not_succ_le_self told)
  rw [show next = sm.cycle + count + 2 by omega] at behind
  exact ⟨told, behind⟩

/-- In every try, the machine has told the end of the data of exactly those blocks that have passed:
a block begins with the first three low levels in a row behind the block before, and its end is told
a fixed time later. Shorter low levels and the levels within the data do not count. -/
theorem data_told (env : Pio.Env) {sm : Sm} (empty : sm.isr = []) (tries : List Nat) (count : Nat) :
    let begun := tried env (uploadDatPio sm) tries
    let last := (step env glitchDatWaiter)^[count] (initDat0Pio begun)
    ∃ told, last.cleared = begun.cleared ++ List.replicate told 1 ∧
      ∀ blocks, blocks ≤ told ↔
        ∃ next, Blocks env dataTicks (begun.cycle + 1) blocks next ∧ next ≤ last.cycle + 1 := by
  intro begun last
  have y : (uploadDatPio sm).y = dataTicks := by rw [uploadDatPio_eq empty]
  exact iterate_told (initDat0Pio_set (tried_y env y tries)) rfl count

/-- A line that is low from a cycle on. -/
def lowFrom (start : Nat) : Pio.Env where
  pin cycle _ := decide (cycle < start)
  released _ _ := false

/-- The end of a block that begins at once has been told when it is due. -/
theorem first_data_told :
    let begun := tried (lowFrom 3) (uploadDatPio startMmc) [5]
    let last := (step (lowFrom 3) glitchDatWaiter)^[dataTicks.toNat + 5] (initDat0Pio begun)
    ∃ told, last.cleared = begun.cleared ++ List.replicate told 1 ∧
      ∀ blocks, blocks ≤ told ↔
        ∃ next, Blocks (lowFrom 3) dataTicks (begun.cycle + 1) blocks next ∧
          next ≤ last.cycle + 1 :=
  data_told (lowFrom 3) rfl [5] (dataTicks.toNat + 5)

end Waiter

end Fly2040.Firmware
