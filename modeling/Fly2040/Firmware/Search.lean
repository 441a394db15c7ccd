import Fly2040.Firmware.Best
import Fly2040.Firmware.Burns
import Fly2040.Firmware.Main
import Fly2040.Firmware.Random
import Fly2040.Lib.Trials
/-!
# The search for a glitch

The search makes two full tries. Each goes twice through the saved records, from the heaviest to the
lightest, and then twice through the whole grid in a random order; the payload is rewritten between
the two. All loops share the variables that hold the offset and the success, and break off at a
success, which is committed and recorded. Calls that try an offset, burn a fuse or add a record are
marked in the run.
-/

namespace Fly2040.Firmware

open Bytes Cursors Durable Nor Trials

/-- A call that tries an offset, with the loop that it stands in. -/
structure GlitchTry where
  /-- Number of the full try. -/
  fullTry : Nat
  /-- The offset is that of a saved record. -/
  saved : Bool
  /-- Offset of the glitch. -/
  offset : Int
  /-- Edges after which the offset is given up. -/
  edgeLimit : Nat
deriving DecidableEq

/-- A call that keeps a success. -/
inductive Commit where
  /-- A fuse is burnt. -/
  | burnFuse
  /-- A record is added. -/
  | addBootRecord (offset : Int)
deriving DecidableEq

/-- What a search does. -/
inductive SearchOp where
  /-- An operation of the firmware. -/
  | boot (operation : BootOp)
  /-- A call that tries an offset. -/
  | tryOffset (attempt : GlitchTry)
  /-- A call that keeps a success. -/
  | commit (call : Commit)

/-- State of a search. -/
structure Searching where
  /-- Flash, eMMC and memory. -/
  world : World
  /-- Statics of the search for the best record. -/
  statics : BestStatics
  /-- The offsets in random order. -/
  offsetsArray : Vector Nat offsetCnt
  /-- Offsets tried so far. -/
  tries : Nat
  /-- The offset that is tried. -/
  offset : Int
  /-- An attempt has succeeded. -/
  glitched : Bool

/-- Other contents of flash. -/
def Searching.withFlash (state : Searching) (flash : Memory) : Searching :=
  { state with world.flash := flash }

/-- A program of the search. -/
abbrev SearchProg (α : Type) := Prog Searching SearchOp Stop α

/-- A program of the firmware as a part of the search. -/
def onWorld {α : Type} (program : Boot α) : SearchProg α :=
  Prog.zoom Searching.world (fun state world => { state with world }) SearchOp.boot program

/-- Go on only if no attempt has succeeded. -/
def unlessGlitched (program : SearchProg Unit) : SearchProg Unit := do
  let glitched ← Prog.gets Searching.glitched
  Prog.runIf (!glitched) program

/-- Do something twice, unless an attempt succeeds. -/
def twice (body : Nat → SearchProg Unit) : SearchProg Unit :=
  Prog.forRange 0 2 fun index => unlessGlitched (body index)

/-- Best record after the last one, with the caller's variable. -/
def findRecord (maxWeight : Int) : SearchProg Int := do
  let record ← Prog.gets fun state : Searching =>
    findBestRecord (getWeigth state.world.flash) state.statics maxWeight
  Prog.update fun state => { state with statics := record.statics, offset := record.offset }
  pure record.maxWeight

section Programs

variable (outcomes : Nat → GlitchTry → Except (Nat × Nat) Bool)

/-- Try an offset: whether it succeeds or shows a code depends on the number of the call. -/
def tryOffset (attempt : GlitchTry) : SearchProg Unit := do
  Prog.issue (.tryOffset attempt) id
  let number ← Prog.gets Searching.tries
  Prog.update fun state => { state with tries := state.tries + 1 }
  match outcomes number attempt with
  | .error code => Prog.stop (.finish code.1 code.2)
  | .ok glitched => Prog.update fun state => { state with glitched }

/-- Try saved records, with a bound on the rounds of the loop. -/
def trySaved (fullTry : Nat) : (rounds : Nat) → (maxWeight : Int) → SearchProg Unit
  | 0, _ => pure ()
  | rounds + 1, maxWeight => do
    let maxWeight ← findRecord maxWeight
    let offset ← Prog.gets Searching.offset
    Prog.runIf (offset != -1) do
      tryOffset outcomes ⟨fullTry, true, offset, 3⟩
      unlessGlitched (trySaved fullTry rounds maxWeight)

/-- Try given offsets. -/
def tryList (fullTry : Nat) : List Nat → SearchProg Unit
  | [] => pure ()
  | offset :: rest => do
    Prog.update fun state => { state with offset }
    tryOffset outcomes ⟨fullTry, false, offset, 4⟩
    unlessGlitched (tryList fullTry rest)

variable (words : Nat → Nat → Nat → UInt32)

/-- Try all offsets in a random order. -/
def tryRandom (fullTry index : Nat) : SearchProg Unit := do
  Prog.update fun state => { state with offsetsArray := prepareRandomArray (words fullTry index) }
  let offsets ← Prog.gets fun state : Searching => state.offsetsArray.toList
  tryList outcomes fullTry offsets

/-- The attempts of a full try. -/
def tryAll (rounds fullTry : Nat) : SearchProg Unit := do
  twice fun _ => trySaved outcomes fullTry rounds (-1)
  unlessGlitched (twice (tryRandom outcomes words fullTry))

/-- Keep the offset. -/
def recordGlitch : SearchProg Unit := do
  let offset ← Prog.gets Searching.offset
  Prog.issue (.commit (.addBootRecord offset)) id
  onWorld (onFlash (addBootRecord offset.toNat))
  Prog.stop (.finish 0 1)

/-- Finish an update or a rollback, and keep the offset. -/
def commitGlitch (bootSlot : Slot) : SearchProg Unit := do
  let boot ← Prog.gets fun state : Searching => fuseSlot state.world.flash
  Prog.runIf (boot != bootSlot) do
    Prog.issue (.commit .burnFuse) id
    onWorld (onFlash burnFuse)
  recordGlitch

variable (images : Images) (env : Env) (bootSlot : Slot)

/-- Keep a success, or go on. -/
def afterTry (fullTry : Nat) : SearchProg Unit := do
  let glitched ← Prog.gets Searching.glitched
  Prog.runIf glitched (commitGlitch bootSlot)
  Prog.runIf (fullTry == 0) (onWorld (rewritePayload images env bootSlot))

/-- A full try. -/
def searchTry (rounds fullTry : Nat) : SearchProg Unit := do
  tryAll outcomes words rounds fullTry
  afterTry images env bootSlot fullTry

/-- The search of the firmware. -/
def search (rounds : Nat) : SearchProg Unit := do
  Prog.update fun state => { state with glitched := false, offset := 0 }
  Prog.forRange 0 2 (searchTry outcomes words images env bootSlot rounds)
  -- attempts limit
  Prog.stop (.finish 7 3)

end Programs

/-- A call of the saved records. -/
def savedAttempt (fullTry offset : Nat) : GlitchTry := ⟨fullTry, true, offset, 3⟩

/-- A call of the random order. -/
def randomAttempt (fullTry offset : Nat) : GlitchTry := ⟨fullTry, false, offset, 4⟩

/-- The attempts of a full try that knows some weights: each recorded offset twice in the loop of
the saved records, each offset of the grid twice in a random order, and no others. -/
structure IsPlan (fullTry : Nat) (weights : Nat → Nat) (plan : List GlitchTry) : Prop where
  /-- Saved records. -/
  saved : ∀ offset, plan.count (savedAttempt fullTry offset) =
    if offset ∈ recorded weights then 2 else 0
  /-- The grid. -/
  random : ∀ offset, plan.count (randomAttempt fullTry offset) = if offset ∈ grid then 2 else 0
  /-- Number of the full try. -/
  fullTry : ∀ attempt ∈ plan, attempt.fullTry = fullTry
  /-- Offsets are on the grid. -/
  grid : ∀ attempt ∈ plan, ∃ index : Fin offsetCnt, attempt.offset = gridOffset index

/-- A program makes the attempts of a plan, up to the first that succeeds. -/
structure Performs (glitches : Nat → GlitchTry → Bool) (program : SearchProg Unit)
    (state : Searching) (plan : List GlitchTry) (later : Searching) : Prop where
  /-- What it does. -/
  does : program.Does state ((upTo glitches state.tries plan).map .tryOffset) (.ok ()) later
  /-- It leaves the world as it was. -/
  world : later.world = state.world
  /-- Without success, all is open. -/
  failed : success glitches state.tries plan = none →
    later.glitched = false ∧ later.tries = state.tries + plan.length
  /-- A success is kept, with its offset. -/
  worked : ∀ attempt, success glitches state.tries plan = some attempt →
    later.glitched = true ∧ later.offset = attempt.offset

/-- Every call returns, and whether it succeeds is given. -/
abbrev returning (glitches : Nat → GlitchTry → Bool) (number : Nat) (attempt : GlitchTry) :
    Except (Nat × Nat) Bool := .ok (glitches number attempt)

section

variable {glitches : Nat → GlitchTry → Bool} {state later middle : Searching}
  {program first next : SearchProg Unit} {plan rest : List GlitchTry} {attempt : GlitchTry}

/-- A program that is reached without success is carried out. -/
theorem unlessGlitched_open (open' : state.glitched = false) :
    unlessGlitched program state = program state := by
  rw [unlessGlitched, Prog.gets_bind, open']
  rfl

/-- A program that is reached after a success is left out. -/
theorem unlessGlitched_done (done : state.glitched = true) :
    (unlessGlitched program).Does state [] (.ok ()) state := by
  refine (Prog.does_pure ()).of_run ?_
  rw [unlessGlitched, Prog.gets_bind, done]
  rfl

/-- A program makes the attempts of another one that it comes to without any. -/
theorem Performs.of_start {start : Searching} {program' : SearchProg Unit}
    (performs : Performs glitches program start plan later) (same : program' state = program start)
    (world : start.world = state.world) (tries : start.tries = state.tries) :
    Performs glitches program' state plan later := by
  have does := performs.does
  rw [tries] at does
  refine ⟨does.of_run same, performs.world.trans world, ?_, ?_⟩
  · rw [← tries]
    exact performs.failed
  · rw [← tries]
    exact performs.worked

/-- A program that attempts nothing. -/
theorem performs_nothing (open' : state.glitched = false) :
    Performs glitches (pure ()) state [] state where
  does := Prog.does_pure ()
  world := rfl
  failed _ := ⟨open', rfl⟩
  worked _ never := nomatch never

/-- Plans are made one after another. -/
theorem Performs.andThen (head : Performs glitches first state plan middle)
    (tail : middle.glitched = false → middle.tries = state.tries + plan.length →
      ∃ later, Performs glitches next middle rest later) :
    ∃ later,
      Performs glitches (first >>= fun _ => unlessGlitched next) state (plan ++ rest) later := by
  cases result : success glitches state.tries plan with
  | none =>
    obtain ⟨open', count⟩ := head.failed result
    obtain ⟨later, performs⟩ := tail open' count
    have run : unlessGlitched next middle = next middle := unlessGlitched_open open'
    have does : (first >>= fun _ => unlessGlitched next).Does state _ (.ok ()) later :=
      head.does.bind (performs.of_start run rfl rfl).does
    have both : success glitches state.tries (plan ++ rest) = _ ∧ _ := append_of_none result
    rw [upTo_of_none result, ← List.map_append, count, ← both.2] at does
    refine ⟨later, does, performs.world.trans head.world, ?_, ?_⟩
    · rw [both.1, ← count, List.length_append, ← Nat.add_assoc, ← count]
      exact performs.failed
    · rw [both.1, ← count]
      exact performs.worked
  | some attempt =>
    obtain ⟨done, offset⟩ := head.worked attempt result
    have does : (first >>= fun _ => unlessGlitched next).Does state _ (.ok ()) middle :=
      head.does.bind (unlessGlitched_done done)
    have both : success glitches state.tries (plan ++ rest) = _ ∧ _ := append_of_some result
    rw [List.append_nil, ← both.2] at does
    refine ⟨middle, does, head.world, ?_, ?_⟩
    · rw [both.1]
      exact fun never => nomatch never
    · rw [both.1]
      intro attempt' same
      cases same
      exact ⟨done, offset⟩

/-- A call that tries an offset. -/
theorem tryOffset_performs (offset : state.offset = attempt.offset) :
    Performs glitches (tryOffset (returning glitches) attempt) state [attempt]
      { state with tries := state.tries + 1, glitched := glitches state.tries attempt } where
  does := by
    have made : upTo glitches state.tries [attempt] = [attempt] := by
      rw [upTo]
      split <;> rfl
    rw [made]
    exact ⟨rfl, rfl, rfl⟩
  world := rfl
  failed result := by
    rw [success] at result
    split at result
    · exact absurd result (Option.some_ne_none _)
    · rename_i fails
      exact ⟨by simpa using fails, rfl⟩
  worked attempt' result := by
    rw [success] at result
    split at result
    · rename_i works
      cases result
      exact ⟨works, offset⟩
    · cases result

/-- A round of the loop of the saved records, with what the call for the best record returns. -/
theorem trySaved_round (outcomes : Nat → GlitchTry → Except (Nat × Nat) Bool) (fullTry rounds : Nat)
    (maxWeight : Int) {record : BestRecord}
    (found : findBestRecord (getWeigth state.world.flash) state.statics maxWeight = record) :
    trySaved outcomes fullTry (rounds + 1) maxWeight state =
      Prog.runIf (record.offset != -1) (do
        tryOffset outcomes ⟨fullTry, true, record.offset, 3⟩
        unlessGlitched (trySaved outcomes fullTry rounds record.maxWeight))
        { state with statics := record.statics, offset := record.offset } := by
  rw [trySaved, findRecord, bind_assoc, Prog.gets_bind, found]
  rfl

/-- Saved records are tried as the calls for the best record find them, if there are rounds
enough. -/
theorem trySaved_performs (fullTry : Nat) {weights : Nat → Nat} {cursor last : BestCursor}
    {found : List Nat} {rounds : Nat} (visits : Visits (nextRecord weights) cursor found last)
    (known : getWeigth state.world.flash = weights) (statics : state.statics = cursor.statics)
    (open' : state.glitched = false) (enough : found.length < rounds) :
    ∃ later, Performs glitches (trySaved (returning glitches) fullTry rounds cursor.maxWeight) state
      (found.map (savedAttempt fullTry)) later := by
  induction visits generalizing state rounds with
  | @done cursor nothing =>
    cases rounds with
    | zero => exact absurd enough (Nat.not_lt_zero _)
    | succ rounds =>
      have none := nextRecord_none nothing
      generalize result : findBestRecord weights cursor.statics cursor.maxWeight = record at none
      rw [← statics, ← known] at result
      have quiet : Performs glitches (pure ()) { state with
          statics := record.statics, offset := record.offset } [] _ := performs_nothing open'
      refine ⟨_, quiet.of_start ?_ rfl rfl⟩
      rw [trySaved_round _ _ _ _ result, none]
      rfl
  | @more cursor final offset found first rest ih =>
    cases rounds with
    | zero => exact absurd enough (Nat.not_lt_zero _)
    | succ rounds =>
      have here := nextRecord_some first
      have left : (nextRecord weights cursor).2 =
          ⟨(findBestRecord weights cursor.statics cursor.maxWeight).maxWeight,
            (findBestRecord weights cursor.statics cursor.maxWeight).statics⟩ := rfl
      rw [left] at ih
      generalize result : findBestRecord weights cursor.statics cursor.maxWeight = record at here ih
      rw [← statics, ← known] at result
      have one : Performs glitches (tryOffset (returning glitches) (savedAttempt fullTry offset))
        { state with statics := record.statics, offset := record.offset } _ _ :=
          tryOffset_performs here
      obtain ⟨later, performs⟩ := one.andThen fun failed _ =>
        ih known rfl failed (Nat.lt_of_succ_lt_succ enough)
      refine ⟨later, performs.of_start ?_ rfl rfl⟩
      have valid : (record.offset != -1) = true := by
        rw [here, bne_iff_ne]
        omega
      rw [trySaved_round _ _ _ _ result, valid, here]
      rfl

/-- Given offsets are tried one after another. -/
theorem tryList_performs (fullTry : Nat) (offsets : List Nat) (open' : state.glitched = false) :
    ∃ later, Performs glitches (tryList (returning glitches) fullTry offsets) state
      (offsets.map (randomAttempt fullTry)) later := by
  induction offsets generalizing state with
  | nil => exact ⟨state, performs_nothing open'⟩
  | cons offset rest ih =>
    have one : Performs glitches (tryOffset (returning glitches) (randomAttempt fullTry offset))
      { state with offset := offset } _ _ := tryOffset_performs rfl
    obtain ⟨later, performs⟩ := one.andThen fun failed _ => ih failed
    exact ⟨later, performs.of_start rfl rfl rfl⟩

/-- What is done twice follows two plans. -/
theorem twice_performs {body : Nat → SearchProg Unit} {second : List GlitchTry}
    (open' : state.glitched = false)
    (head : ∃ middle, Performs glitches (body 0) state plan middle)
    (tail : ∀ middle, middle.world = state.world → middle.glitched = false →
      ∃ later, Performs glitches (body 1) middle second later) :
    ∃ later, Performs glitches (twice body) state (plan ++ second) later := by
  obtain ⟨middle, first⟩ := head
  have once : Performs glitches (unlessGlitched (body 0)) state plan middle :=
    first.of_start (unlessGlitched_open open') rfl rfl
  obtain ⟨later, performs⟩ := once.andThen fun failed _ => tail middle first.world failed
  refine ⟨later, performs.of_start ?_ rfl rfl⟩
  rw [twice]
  simp only [Prog.forRange, bind_pure_unit, Nat.zero_add]

/-- All offsets are tried in a random order. -/
theorem tryRandom_performs (words : Nat → Nat → Nat → UInt32) (fullTry index : Nat)
    (open' : state.glitched = false) :
    ∃ later, Performs glitches (tryRandom (returning glitches) words fullTry index) state
      ((prepareRandomArray (words fullTry index)).toList.map (randomAttempt fullTry)) later := by
  generalize order : prepareRandomArray (words fullTry index) = offsets
  have tried : ∃ later, Performs glitches (tryList (returning glitches) fullTry offsets.toList)
    { state with offsetsArray := offsets } _ later := tryList_performs fullTry offsets.toList open'
  obtain ⟨later, performs⟩ := tried
  refine ⟨later, performs.of_start ?_ rfl rfl⟩
  rw [tryRandom, order]
  rfl

end

section Plans

variable {fullTry offset : Nat} {offsets : List Nat}

/-- A list of saved records that repeats none. -/
theorem count_savedAttempt (once : offsets.Nodup) :
    (offsets.map (savedAttempt fullTry)).count (savedAttempt fullTry offset) =
      if offset ∈ offsets then 1 else 0 := by
  have apart : Function.Injective (savedAttempt fullTry) := by
    intro left right same
    exact Int.ofNat.inj (congrArg GlitchTry.offset same)
  rw [List.count_map_of_injective _ _ apart, once.count]

/-- A random order that repeats no offset. -/
theorem count_randomAttempt (once : offsets.Nodup) :
    (offsets.map (randomAttempt fullTry)).count (randomAttempt fullTry offset) =
      if offset ∈ offsets then 1 else 0 := by
  have apart : Function.Injective (randomAttempt fullTry) := by
    intro left right same
    exact Int.ofNat.inj (congrArg GlitchTry.offset same)
  rw [List.count_map_of_injective _ _ apart, once.count]

/-- Attempts of the one loop are none of the other. -/
theorem count_other (fullTry offset : Nat) (offsets : List Nat) :
    (offsets.map (savedAttempt fullTry)).count (randomAttempt fullTry offset) = 0 ∧
      (offsets.map (randomAttempt fullTry)).count (savedAttempt fullTry offset) = 0 := by
  constructor
  · apply List.count_eq_zero_of_not_mem
    intro member
    obtain ⟨other, -, same⟩ := List.mem_map.mp member
    exact nomatch congrArg GlitchTry.saved same
  · apply List.count_eq_zero_of_not_mem
    intro member
    obtain ⟨other, -, same⟩ := List.mem_map.mp member
    exact nomatch congrArg GlitchTry.saved same

/-- The random order holds each offset of the grid once. -/
theorem randomArray_grid (words : Nat → UInt32) :
    (prepareRandomArray words).toList.Nodup ∧
      ∀ offset, offset ∈ (prepareRandomArray words).toList ↔ offset ∈ grid := by
  have perm := prepareRandomArray_perm words
  constructor
  · refine perm.nodup_iff.mpr (List.nodup_ofFn.mpr fun left right same => ?_)
    unfold gridOffset offsetDiv at same
    exact Fin.ext (by omega)
  · intro offset
    rw [perm.mem_iff, List.mem_ofFn, mem_grid]

/-- Twice the saved records and twice the grid are a plan. -/
theorem isPlan_of {weights : Nat → Nat} {found found' order order' : List Nat}
    (saved : found.Nodup ∧ ∀ offset, offset ∈ found ↔ offset ∈ recorded weights)
    (saved' : found'.Nodup ∧ ∀ offset, offset ∈ found' ↔ offset ∈ recorded weights)
    (random : order.Nodup ∧ ∀ offset, offset ∈ order ↔ offset ∈ grid)
    (random' : order'.Nodup ∧ ∀ offset, offset ∈ order' ↔ offset ∈ grid) (fullTry : Nat) :
    IsPlan fullTry weights
      ((found.map (savedAttempt fullTry) ++ found'.map (savedAttempt fullTry)) ++
        (order.map (randomAttempt fullTry) ++ order'.map (randomAttempt fullTry))) where
  saved offset := by
    rw [List.count_append, List.count_append, List.count_append, count_savedAttempt saved.1,
      count_savedAttempt saved'.1, (count_other fullTry offset order).2,
      (count_other fullTry offset order').2]
    simp only [saved.2, saved'.2]
    split <;> rfl
  random offset := by
    rw [List.count_append, List.count_append, List.count_append, count_randomAttempt random.1,
      count_randomAttempt random'.1, (count_other fullTry offset found).1,
      (count_other fullTry offset found').1]
    simp only [random.2, random'.2]
    split <;> rfl
  fullTry attempt member := by
    simp only [List.mem_append, List.mem_map] at member
    rcases member with (⟨_, -, rfl⟩ | ⟨_, -, rfl⟩) | (⟨_, -, rfl⟩ | ⟨_, -, rfl⟩) <;> rfl
  grid attempt member := by
    have onGrid : ∀ offset ∈ grid, ∃ index : Fin offsetCnt, (offset : Int) = gridOffset index := by
      intro offset listed
      obtain ⟨index, same⟩ := mem_grid.mp listed
      exact ⟨index, congrArg Nat.cast same.symm⟩
    have kept : ∀ offset ∈ recorded weights, offset ∈ grid :=
      fun offset listed => List.mem_toFinset.mp (Finset.mem_filter.mp listed).1
    simp only [List.mem_append, List.mem_map] at member
    rcases member with (⟨offset, listed, rfl⟩ | ⟨offset, listed, rfl⟩) |
      (⟨offset, listed, rfl⟩ | ⟨offset, listed, rfl⟩)
    · exact onGrid offset (kept offset ((saved.2 offset).mp listed))
    · exact onGrid offset (kept offset ((saved'.2 offset).mp listed))
    · exact onGrid offset ((random.2 offset).mp listed)
    · exact onGrid offset ((random'.2 offset).mp listed)

end Plans

section

variable {rounds : Nat}

/-- There are no more saved records than offsets in the grid. -/
theorem length_recorded {weights : Nat → Nat} {found : List Nat} (once : found.Nodup)
    (members : ∀ offset, offset ∈ found ↔ offset ∈ recorded weights) : found.length ≤ offsetCnt := by
  have inside : found ⊆ grid := fun offset listed =>
    List.mem_toFinset.mp (Finset.mem_filter.mp ((members offset).mp listed)).1
  have fits := (List.subperm_of_subset once inside).length_le
  have size : grid.length = offsetCnt := List.length_range' ..
  rwa [size] at fits

/-- The attempts of a full try are a plan for the weights at its start, and the same for all that it
may start from. -/
theorem tryAll_performs (glitches : Nat → GlitchTry → Bool) (words : Nat → Nat → Nat → UInt32)
    (fullTry : Nat) (weights : Nat → Nat) (enough : offsetCnt < rounds) :
    ∃ plan, IsPlan fullTry weights plan ∧ ∀ state : Searching,
      getWeigth state.world.flash = weights → state.glitched = false →
      ∃ later,
        Performs glitches (tryAll (returning glitches) words rounds fullTry) state plan later := by
  obtain ⟨found, once, members, visits⟩ := records_order weights
  have few := length_recorded once members
  have saved : ∀ state : Searching, getWeigth state.world.flash = weights → state.glitched = false →
      ∃ later, Performs glitches (trySaved (returning glitches) fullTry rounds (-1)) state
        (found.map (savedAttempt fullTry)) later := by
    intro state known open'
    obtain ⟨last, visited⟩ := visits state.statics
    exact trySaved_performs fullTry visited known rfl open' (Nat.lt_of_le_of_lt few enough)
  refine ⟨_, isPlan_of ⟨once, members⟩ ⟨once, members⟩ (randomArray_grid (words fullTry 0))
    (randomArray_grid (words fullTry 1)) fullTry, fun state known open' => ?_⟩
  have before : ∃ middle, Performs glitches
      (twice fun _ => trySaved (returning glitches) fullTry rounds (-1)) state _ middle :=
    twice_performs open' (saved state known open') fun middle same failed =>
      saved middle (same ▸ known) failed
  obtain ⟨middle, first⟩ := before
  exact first.andThen fun failed _ => twice_performs failed
    (tryRandom_performs words fullTry 0 failed) fun _ _ failed =>
      tryRandom_performs words fullTry 1 failed

end

end Fly2040.Firmware
