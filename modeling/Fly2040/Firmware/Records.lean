import Fly2040.Firmware.Config
import Mathlib.Data.List.Induction
/-!
# What the record store keeps

The store keeps a success count for every offset of the grid, a lock and an i2c mark. The
firmware keeps them in NOR flash, where only whole sectors can be reset. Each call of the
firmware refines the same call on the plain values, so the contents after any sequence of
calls are read off the plain values, and flash outside the store stays as it was.
-/

namespace Fly2040.Firmware

open Bytes Durable Nor Unary

/-- The plain values of a store. -/
structure Store where
  /-- Successes counted for each offset of the grid. -/
  weights : Fin offsetCnt → Nat
  /-- No further success is counted. -/
  locked : Bool
  /-- An i2c master has configured the LEDs. -/
  i2c : Bool

/-- A call made on a store after it was initialised. -/
inductive Call where
  /-- Count a success of an offset of the grid. -/
  | addBootRecord (index : Fin offsetCnt)
  /-- Lock the store. -/
  | lockConfig
  /-- Mark the LEDs as configured. -/
  | setI2cConfigured
deriving DecidableEq

/-- A value and what precedes it in a list with one more value at its end: either both are found
in the list itself, or the value is the last one. -/
theorem exists_split_append {α : Type} {holds : List α → α → Prop} (values : List α) (last : α) :
    (∃ past value rest, values ++ [last] = past ++ value :: rest ∧ holds past value) ↔
      (∃ past value rest, values = past ++ value :: rest ∧ holds past value) ∨
        holds values last := by
  constructor
  · intro after
    obtain ⟨past, value, rest, split, found⟩ := after
    rcases List.eq_nil_or_concat rest with rfl | ⟨rest, final, rfl⟩
    · obtain ⟨rfl, same⟩ := List.append_inj' split rfl
      obtain rfl := List.singleton_inj.mp same
      exact .inr found
    · rw [List.concat_eq_append, ← List.cons_append, ← List.append_assoc] at split
      exact .inl ⟨past, value, rest, (List.append_inj' split rfl).1, found⟩
  · rintro (⟨past, value, rest, rfl, found⟩ | found)
    · exact ⟨past, value, rest ++ [last], by simp, found⟩
    · exact ⟨values, last, [], rfl, found⟩

/-- The number of successes of an offset that a sequence of calls counts before the store is
locked, where `locked` says whether the calls so far have locked it. -/
def countedBeforeLock (locked : List Call → Bool) (calls : List Call)
    (index : Fin offsetCnt) : Nat :=
  (List.range calls.length).countP fun made =>
    !locked (calls.take made) && calls[made]? == some (.addBootRecord index)

/-- The last call adds one if it is a success of the offset and the store is not locked yet. -/
theorem countedBeforeLock_append (locked : List Call → Bool) (calls : List Call) (call : Call)
    (index : Fin offsetCnt) :
    countedBeforeLock locked (calls ++ [call]) index = countedBeforeLock locked calls index +
      if locked calls = false ∧ call = .addBootRecord index then 1 else 0 := by
  have earlier : (List.range calls.length).countP (fun made =>
      !locked ((calls ++ [call]).take made) &&
        (calls ++ [call])[made]? == some (.addBootRecord index)) =
      countedBeforeLock locked calls index := by
    refine List.countP_congr fun made member => ?_
    have inside := List.mem_range.mp member
    rw [List.take_append_of_le_length (Nat.le_of_lt inside), List.getElem?_append_left inside]
  rw [countedBeforeLock, List.length_append, List.length_singleton, List.range_succ,
    List.countP_append, earlier, List.countP_singleton]
  simp

namespace Store

/-- The store of a console that has just been initialised. -/
def fresh : Store := ⟨fun _ => 0, false, false⟩

/-- The effect of a call. -/
def step (store : Store) : Call → Store
  | .addBootRecord index =>
    if store.locked then store
    else if store.weights index = 2048 then { store with locked := true }
    else { store with weights := Function.update store.weights index (store.weights index + 1) }
  | .lockConfig => { store with locked := true }
  | .setI2cConfigured => { store with i2c := true }

/-- The store after a sequence of calls. -/
def after (calls : List Call) : Store := calls.foldl step fresh

/-- The last call is made on the store after the others. -/
theorem after_append (calls : List Call) (call : Call) :
    after (calls ++ [call]) = (after calls).step call := by
  simp [after]

/-- The mark is set exactly by the call that sets it. -/
theorem after_i2c (calls : List Call) :
    (after calls).i2c = true ↔ Call.setI2cConfigured ∈ calls := by
  induction calls using List.reverseRecOn with
  | nil => simp [after, fresh]
  | append_singleton calls call ih =>
    rw [after_append, List.mem_append, ← ih]
    cases call with
    | addBootRecord index =>
      simp only [step]
      split
      · simp
      · split <;> simp
    | lockConfig => simp [step]
    | setI2cConfigured => simp [step]

/-- The store is locked exactly by the call that locks it, or by a success of an offset whose
count is full. -/
theorem after_locked (calls : List Call) :
    (after calls).locked = true ↔ Call.lockConfig ∈ calls ∨
      ∃ past call rest, calls = past ++ call :: rest ∧ (after past).locked = false ∧
        ∃ index, call = .addBootRecord index ∧ (after past).weights index = 2048 := by
  induction calls using List.reverseRecOn with
  | nil => simp [after, fresh]
  | append_singleton calls call ih =>
    rw [exists_split_append, after_append, List.mem_append, List.mem_singleton, or_or_or_comm,
      ← ih]
    cases call with
    | addBootRecord index =>
      cases locked : (after calls).locked with
      | true => simp [step, locked]
      | false => by_cases full : (after calls).weights index = 2048 <;> simp [step, locked, full]
    | lockConfig => simp [step]
    | setI2cConfigured => simp [step]

/-- Each count is the number of successes before the lock, up to the bits of a page. -/
theorem after_weights (calls : List Call) (index : Fin offsetCnt) :
    (after calls).weights index =
      min 2048 (countedBeforeLock (fun past => (after past).locked) calls index) := by
  induction calls using List.reverseRecOn with
  | nil => simp [after, fresh, countedBeforeLock]
  | append_singleton calls call ih =>
    rw [countedBeforeLock_append, after_append]
    cases call with
    | addBootRecord other =>
      cases locked : (after calls).locked with
      | true => simpa [step, locked] using ih
      | false =>
        by_cases same : other = index
        · subst same
          by_cases full : (after calls).weights other = 2048
          · simp only [step, locked, full, if_true, if_false, and_self, Bool.false_eq_true]
            omega
          · simp only [step, locked, full, if_true, if_false, and_self, Bool.false_eq_true,
              Function.update_self]
            omega
        · have kept : ((after calls).step (.addBootRecord other)).weights index =
              (after calls).weights index := by
            simp only [step, locked, Bool.false_eq_true, if_false]
            split
            · rfl
            · exact Function.update_of_ne (Ne.symm same) _ _
          rw [kept, if_neg (by simp [same])]
          exact ih
    | lockConfig => simpa [step] using ih
    | setI2cConfigured => simpa [step] using ih

end Store

/-- The call of the firmware. -/
def Call.run {ε : Type} : Call → FlashProg ε Unit
  | .addBootRecord index => Firmware.addBootRecord (gridOffset index)
  | .lockConfig => Firmware.lockConfig
  | .setI2cConfigured => Firmware.setI2cConfigured

/-- Calls one after another. -/
def runCalls {ε : Type} : List Call → FlashProg ε Unit
  | [] => pure ()
  | call :: calls => do
    call.run
    runCalls calls

/-- Initialise the store for a console, then make a sequence of calls. -/
def storeProgram (payloadCrc : UInt16) (cid : Cid) (calls : List Call) : FlashProg Empty Unit := do
  initConfig payloadCrc cid
  runCalls calls

/-- Flash after that. -/
def storedAfter (payloadCrc : UInt16) (cid : Cid) (memory : Memory) (calls : List Call) : Memory :=
  (storeProgram payloadCrc cid calls memory).final

/-- Byte that stands for a flag. -/
def flagByte (cleared : Bool) : UInt8 := if cleared then 0 else 0xFF

/-- Flash holds the values of a store, and is otherwise as it was. -/
structure Refines (origin : Memory) (payloadCrc : UInt16) (cid : Cid) (memory : Memory)
    (store : Store) : Prop where
  /-- Only the store has changed. -/
  outside : SameOutside configStart fuseOff origin memory
  /-- The identity of the header. -/
  header : ∀ index < 22, index ≠ lockAt →
    memory (configStart + index) = headerByte payloadCrc cid index
  /-- The lock. -/
  lock : memory (configStart + lockAt) = flagByte store.locked
  /-- The i2c mark. -/
  i2c : memory (configStart + i2cAt) = flagByte store.i2c
  /-- The counters. -/
  pages : ∀ index, Holds memory (recordPage (gridOffset index)) 64 (store.weights index)

/-- A flag byte is cleared exactly for a set flag. -/
theorem flagByte_cleared (flag : Bool) : (flagByte flag != 0xFF) = flag := by
  cases flag <;> rfl

section Refinement

variable {origin memory : Memory} {payloadCrc : UInt16} {cid : Cid} {store : Store}

/-- The lock is read back. -/
theorem Refines.isLocked (refines : Refines origin payloadCrc cid memory store) :
    Firmware.isLocked memory = store.locked := by
  rw [Firmware.isLocked, flagCleared, refines.lock, flagByte_cleared]

/-- The i2c mark is read back. -/
theorem Refines.isI2cConfigured (refines : Refines origin payloadCrc cid memory store) :
    Firmware.isI2cConfigured memory = store.i2c := by
  rw [Firmware.isI2cConfigured, flagCleared, refines.i2c, flagByte_cleared]

/-- The counters are read back. -/
theorem Refines.getWeigth (refines : Refines origin payloadCrc cid memory store)
    (index : Fin offsetCnt) :
    Firmware.getWeigth memory (gridOffset index) = store.weights index :=
  (refines.pages index).weight

/-- The store is configured for its own console and for no other. -/
theorem Refines.isConfigured (refines : Refines origin payloadCrc cid memory store) (cid' : Cid) :
    Firmware.isConfigured payloadCrc cid' memory = true ↔ cid' = cid := by
  have inited : isInited payloadCrc memory = true := by
    rw [isInited, signAt, refines.header 16 (by decide) (by decide),
      refines.header 17 (by decide) (by decide), refines.header 18 (by decide) (by decide),
      refines.header 20 (by decide) (by decide), refines.header 21 (by decide) (by decide)]
    simp [headerByte, signAt, le16_byte16]
  have identity : ∀ index : Fin 16, memory (configStart + index) = cid index := by
    intro index
    rw [refines.header index (by omega) (by unfold lockAt; omega), headerByte,
      dif_pos index.isLt]
  simp only [Firmware.isConfigured, inited, Bool.and_true, decide_eq_true_eq, identity]
  constructor
  · exact fun same => (funext same).symm
  · intro same index
    subst same
    rfl

/-- Programming a fresh header into an erased store writes exactly the header. -/
theorem program_header (payloadCrc : UInt16) (cid : Cid)
    (blank : ∀ index < 0x7000, memory (configStart + index) = 0xFF) (index : Nat)
    (inside : index < 0x7000) :
    program memory configStart ((List.range 256).map (headerByte payloadCrc cid))
      (configStart + index) = if index < 256 then headerByte payloadCrc cid index else 0xFF := by
  rw [program_inside, blank index inside, ones_and, List.getD, List.getElem?_map]
  by_cases header : index < 256
  · rw [List.getElem?_range header, if_pos header]
    rfl
  · rw [List.getElem?_eq_none (by simpa using header), if_neg header]
    rfl

/-- Initialising the store, whatever flash held, leaves the values of a fresh store. -/
theorem initConfig_spec {ε : Type} {stopped : ε → Memory → Prop} (memory : Memory) :
    (initConfig (ε := ε) payloadCrc cid).Ensures memory
      (fun later operation => operation.Within configStart fuseOff ∧
        SameOutside configStart fuseOff memory later)
      (fun _ later => Refines memory payloadCrc cid later Store.fresh) stopped := by
  refine (eraseConfig_spec memory).andThen fun _ later after => ?_
  obtain ⟨agree, blank⟩ := after
  have within : (Op.program configStart ((List.range 256).map
      (headerByte payloadCrc cid))).Within configStart fuseOff := by
    simp [Op.Within, configStart, fuseOff]
  refine (Prog.ensures_issue _ _).mpr ⟨⟨within, agree⟩,
    agree.trans (Op.apply_sameOutside within later), ?_, ?_, ?_, ?_⟩
  · intro index small _
    exact (program_header payloadCrc cid blank index (by omega)).trans (if_pos (by omega))
  · exact (program_header payloadCrc cid blank lockAt (by decide)).trans rfl
  · exact (program_header payloadCrc cid blank i2cAt (by decide)).trans rfl
  · intro index
    obtain ⟨base, low, high⟩ := recordPage_bounds index
    refine holds_zero fun offset inside => ?_
    have page := program_header payloadCrc cid blank ((index + 1) * 256 + offset)
      (by unfold configStart fuseOff at *; omega)
    rw [if_neg (by omega), ← Nat.add_assoc, ← base] at page
    exact page

/-- Whatever flash holds, initialising the store addresses the store only. -/
theorem initConfig_confined {ε : Type} (payloadCrc : UInt16) (cid : Cid) (memory : Memory) :
    Confined configStart fuseOff memory (initConfig (ε := ε) payloadCrc cid) memory :=
  (initConfig_spec memory).weaken fun _ _ refines => refines.outside

/-- Clearing a flag of the header changes that byte alone, unless it is cleared already. -/
theorem clearFlag_spec {ε : Type} {stopped : ε → Memory → Prop} {position : Nat}
    (inside : position < 256) (flag : Bool)
    (stored : memory (configStart + position) = flagByte flag)
    (agree : SameOutside configStart fuseOff origin memory) :
    (clearFlag (ε := ε) position).Ensures memory
      (fun later operation => operation.Within configStart fuseOff ∧
        SameOutside configStart fuseOff origin later)
      (fun _ later => later = fun address =>
        if address = configStart + position then 0 else memory address) stopped := by
  apply Prog.ensures_bind
  rw [Prog.ensures_gets, flagCleared, stored, flagByte_cleared]
  cases flag with
  | true =>
    refine (Prog.ensures_pure _).mpr (funext fun address => ?_)
    split
    · rename_i same
      rw [same, stored]
      rfl
    · rfl
  | false =>
    have within : (Op.program configStart ((readBytes memory configStart 256).set position 0)).Within
        configStart fuseOff := by
      simp [Op.Within, configStart, fuseOff]
    apply Prog.ensures_bind
    rw [Prog.ensures_gets]
    exact (Prog.ensures_issue _ _).mpr ⟨⟨within, agree⟩, program_flag memory position inside⟩

/-- Changing bytes of the store outside the counters keeps the counters. -/
theorem Refines.pages_congr {memory' : Memory} (refines : Refines origin payloadCrc cid memory store)
    (same : ∀ address, configStart + 256 ≤ address → address < fuseOff →
      memory' address = memory address) (index : Fin offsetCnt) :
    Holds memory' (recordPage (gridOffset index)) 64 (store.weights index) := by
  obtain ⟨-, low, high⟩ := recordPage_bounds index
  exact (refines.pages index).congr fun offset inside => same _ (by omega) (by omega)

/-- The lock refines the lock. -/
theorem lockConfig_spec {ε : Type} {stopped : ε → Memory → Prop}
    (refines : Refines origin payloadCrc cid memory store) :
    (lockConfig (ε := ε)).Ensures memory
      (fun later operation => operation.Within configStart fuseOff ∧
        SameOutside configStart fuseOff origin later)
      (fun _ later => Refines origin payloadCrc cid later { store with locked := true })
      stopped := by
  refine (clearFlag_spec (by decide) store.locked refines.lock refines.outside).weaken ?_
  intro _ later same
  subst same
  refine ⟨fun address outside => ?_, fun index small other => ?_, if_pos rfl, ?_, ?_⟩
  · rw [if_neg (by unfold configStart fuseOff lockAt at *; omega)]
    exact refines.outside address outside
  · rw [if_neg (by omega)]
    exact refines.header index small other
  · rw [if_neg (by unfold lockAt i2cAt; omega)]
    exact refines.i2c
  · exact refines.pages_congr fun address low _ => if_neg (by unfold lockAt; omega)

/-- The i2c mark refines the i2c mark. -/
theorem setI2cConfigured_spec {ε : Type} {stopped : ε → Memory → Prop}
    (refines : Refines origin payloadCrc cid memory store) :
    (setI2cConfigured (ε := ε)).Ensures memory
      (fun later operation => operation.Within configStart fuseOff ∧
        SameOutside configStart fuseOff origin later)
      (fun _ later => Refines origin payloadCrc cid later { store with i2c := true })
      stopped := by
  refine (clearFlag_spec (by decide) store.i2c refines.i2c refines.outside).weaken ?_
  intro _ later same
  subst same
  refine ⟨fun address outside => ?_, fun index small other => ?_, ?_, if_pos rfl, ?_⟩
  · rw [if_neg (by unfold configStart fuseOff i2cAt at *; omega)]
    exact refines.outside address outside
  · rw [if_neg (by unfold i2cAt; omega)]
    exact refines.header index small other
  · rw [if_neg (by unfold lockAt i2cAt; omega)]
    exact refines.lock
  · exact refines.pages_congr fun address low _ => if_neg (by unfold i2cAt; omega)

/-- Counting a success in the page of its offset leaves the header and the other pages alone. -/
theorem Refines.burn (refines : Refines origin payloadCrc cid memory store) (index : Fin offsetCnt)
    (open' : store.weights index < 2048) :
    Refines origin payloadCrc cid (program memory (recordPage (gridOffset index))
        (pageBytes (burnWord (pageWord memory (recordPage (gridOffset index)))
          (store.weights index / 32)) 64))
      { store with weights := Function.update store.weights index (store.weights index + 1) } := by
  obtain ⟨base, low, high⟩ := recordPage_bounds index
  have beyond : ∀ address, address < recordPage (gridOffset index) ∨
      recordPage (gridOffset index) + 256 ≤ address →
      program memory (recordPage (gridOffset index))
        (pageBytes (burnWord (pageWord memory (recordPage (gridOffset index)))
          (store.weights index / 32)) 64) address = memory address :=
    fun address outside => program_outside memory (by simpa using outside)
  refine ⟨fun address outside => ?_, fun position small other => ?_, ?_, ?_, fun other => ?_⟩
  · exact (beyond address (by omega)).trans (refines.outside address outside)
  · exact (beyond _ (by omega)).trans (refines.header position small other)
  · exact (beyond _ (by unfold lockAt; omega)).trans refines.lock
  · exact (beyond _ (by unfold i2cAt; omega)).trans refines.i2c
  · by_cases same : other = index
    · subst same
      simp only [Function.update_self]
      exact (refines.pages other).burn open'
    · have apart : other.val ≠ index.val := fun equal => same (Fin.ext equal)
      obtain ⟨base', -, -⟩ := recordPage_bounds other
      simp only [Function.update_of_ne same]
      exact (refines.pages other).congr fun offset inside => beyond _ (by omega)

/-- Counting a success refines counting a success. -/
theorem addBootRecord_spec {ε : Type} {stopped : ε → Memory → Prop}
    (refines : Refines origin payloadCrc cid memory store) (index : Fin offsetCnt) :
    (addBootRecord (ε := ε) (gridOffset index)).Ensures memory
      (fun later operation => operation.Within configStart fuseOff ∧
        SameOutside configStart fuseOff origin later)
      (fun _ later => Refines origin payloadCrc cid later (store.step (.addBootRecord index)))
      stopped := by
  apply Prog.ensures_bind
  rw [Prog.ensures_gets, refines.isLocked]
  cases locked : store.locked with
  | true =>
    refine (Prog.ensures_pure _).mpr ?_
    simpa [Store.step, locked] using refines
  | false =>
    apply Prog.ensures_bind
    rw [Prog.ensures_gets, (refines.pages index).firstWord]
    by_cases full : store.weights index = 2048
    · rw [if_pos full, Store.step, if_neg (by simp [locked]), if_pos full]
      exact lockConfig_spec refines
    · have fits : store.weights index ≤ 32 * 64 := (refines.pages index).fits
      obtain ⟨-, low, high⟩ := recordPage_bounds index
      rw [if_neg full, Store.step, if_neg (by simp [locked]), if_neg full]
      have within : (Op.program (recordPage (gridOffset index)) (pageBytes (burnWord
          (pageWord memory (recordPage (gridOffset index))) (store.weights index / 32)) 64)).Within
          configStart fuseOff := by
        refine ⟨Nat.le_trans (Nat.le_add_right _ _) low, ?_⟩
        rw [pageBytes_length]
        exact high
      exact (Prog.ensures_issue _ _).mpr ⟨⟨within, refines.outside⟩, refines.burn index (by omega)⟩

/-- Every call refines the same call on the plain values. -/
theorem Call.run_spec {ε : Type} {stopped : ε → Memory → Prop}
    (refines : Refines origin payloadCrc cid memory store) (call : Call) :
    (call.run (ε := ε)).Ensures memory
      (fun later operation => operation.Within configStart fuseOff ∧
        SameOutside configStart fuseOff origin later)
      (fun _ later => Refines origin payloadCrc cid later (store.step call)) stopped := by
  cases call with
  | addBootRecord index => exact addBootRecord_spec refines index
  | lockConfig => exact lockConfig_spec refines
  | setI2cConfigured => exact setI2cConfigured_spec refines

/-- A sequence of calls refines the same sequence on the plain values. -/
theorem runCalls_spec {ε : Type} {stopped : ε → Memory → Prop} (calls : List Call)
    (refines : Refines origin payloadCrc cid memory store) :
    (runCalls (ε := ε) calls).Ensures memory
      (fun later operation => operation.Within configStart fuseOff ∧
        SameOutside configStart fuseOff origin later)
      (fun _ later => Refines origin payloadCrc cid later (calls.foldl Store.step store))
      stopped := by
  induction calls generalizing memory store with
  | nil => exact (Prog.ensures_pure _).mpr refines
  | cons call calls ih => exact (call.run_spec refines).andThen fun _ _ next => ih next

end Refinement

/-- The whole program, from any contents of flash. -/
theorem storeProgram_spec (payloadCrc : UInt16) (cid : Cid) (memory : Memory) (calls : List Call) :
    (storeProgram payloadCrc cid calls).Ensures memory
      (fun later operation => operation.Within configStart fuseOff ∧
        SameOutside configStart fuseOff memory later)
      (fun _ later => Refines memory payloadCrc cid later (Store.after calls))
      (fun _ _ => False) :=
  (initConfig_spec memory).andThen fun _ _ fresh => runCalls_spec calls fresh

/-- Flash after a sequence of calls refines the plain values after it. -/
theorem storedAfter_refines (payloadCrc : UInt16) (cid : Cid) (memory : Memory)
    (calls : List Call) :
    Refines memory payloadCrc cid (storedAfter payloadCrc cid memory calls) (Store.after calls) :=
  (storeProgram_spec payloadCrc cid memory calls).returned () (by
    cases ended : (storeProgram payloadCrc cid calls memory).outcome with
    | ok value => rfl
    | error reason => exact reason.elim)

/-- After initialisation and any calls the store answers by the calls made: it is configured for
its console alone, marked and locked by the calls that do so, and each count is the number of
successes before the lock. Nothing outside the store changes at any moment. -/
theorem record_store (payloadCrc : UInt16) (cid : Cid) (memory : Memory) (calls : List Call) :
    let stored := storedAfter payloadCrc cid memory
    (∀ cid', isConfigured payloadCrc cid' (stored calls) = true ↔ cid' = cid) ∧
      (isI2cConfigured (stored calls) = true ↔ Call.setI2cConfigured ∈ calls) ∧
      (isLocked (stored calls) = true ↔ Call.lockConfig ∈ calls ∨
        ∃ past call rest, calls = past ++ call :: rest ∧ isLocked (stored past) = false ∧
          ∃ index, call = .addBootRecord index ∧
            getWeigth (stored past) (gridOffset index) = 2048) ∧
      (∀ index, getWeigth (stored calls) (gridOffset index) =
        min 2048 (countedBeforeLock (fun past => isLocked (stored past)) calls index)) ∧
      ∀ performed, SameOutside configStart fuseOff memory
        ((storeProgram payloadCrc cid calls memory).cutAt performed) := by
  intro stored
  have holds := storedAfter_refines payloadCrc cid memory
  have lock : ∀ past, isLocked (stored past) = (Store.after past).locked :=
    fun past => (holds past).isLocked
  have weight : ∀ past index, getWeigth (stored past) (gridOffset index) =
      (Store.after past).weights index := fun past index => (holds past).getWeigth index
  refine ⟨(holds calls).isConfigured, ?_, ?_, ?_, fun performed => ?_⟩
  · rw [(holds calls).isI2cConfigured, Store.after_i2c]
  · simp only [lock, weight]
    exact Store.after_locked calls
  · simp only [lock, weight]
    exact Store.after_weights calls
  · exact (storeProgram_spec payloadCrc cid memory calls).cutAt (fun _ _ issued => issued.2)
      (fun _ _ after => after.outside) (fun _ _ never => never.elim) performed

end Fly2040.Firmware
