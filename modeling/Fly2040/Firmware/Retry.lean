import Fly2040.Firmware.Mmc
/-!
# Repeated writes

The data buffer is filled once for each chunk of an array. The read back after a write receives
into the same buffer, so a later try sends what the last read back has left there. What the line
answers in the tries of a chunk is a stream. It tells which tries are made, which of them read back,
and whether one sends other bytes than those of the chunk.
-/

namespace Fly2040.Firmware

open Bytes Durable

/-- What the line answers in one try of a chunk. -/
structure TryAnswers where
  /-- The initialisation succeeds that the fourth try makes. -/
  initialised : Bool
  /-- The write is answered. -/
  answered : Bool
  /-- The line is released behind its data. -/
  released : Bool
  /-- The read back arrives in time and with its checksum. -/
  valid : Bool
  /-- What the read back leaves in the data buffer. -/
  block : Block

section Told

variable (answers : Nat → TryAnswers) (data : Block)

/-- A write is done when a try reads back: it has been answered and the line released in this try or
in an earlier one, with invalid read backs only in between. The fourth try writes anew. -/
def WriteDone (number : Nat) : Prop :=
  ∃ earlier ≤ number, (number < 3 ∨ 3 ≤ earlier) ∧ (answers earlier).answered = true ∧
    (answers earlier).released = true ∧
    ∀ between, earlier ≤ between → between < number → (answers between).valid = false

/-- A try reads back the chunk. -/
def Verified (number : Nat) : Prop :=
  WriteDone answers number ∧ (answers number).valid = true ∧ (answers number).block = data

/-- A try is made: no earlier one has read back the chunk, and the initialisation has succeeded. -/
def Made (number : Nat) : Prop :=
  (∀ earlier < number, ¬ Verified answers data earlier) ∧
    (3 ≤ number → (answers 3).initialised = true)

/-- A try that is made is answered although an earlier one has read back other bytes, with a right
checksum or right before the eMMC is initialised anew. -/
def SpoiltResend : Prop :=
  ∃ first later, first < later ∧ later < 6 ∧ Made answers data later ∧
    WriteDone answers first ∧ (answers first).block ≠ data ∧
    ((answers first).valid = true ∨ first = 2) ∧ (answers later).answered = true

/-- The chunk is read back in one of its six tries. -/
def Through : Prop := ∃ number < 6, Made answers data number ∧ Verified answers data number

/-- What the last read back before a try has left in the data buffer, or the chunk. -/
def BufferedAt : Nat → Block → Prop
  | 0, buffer => buffer = data
  | number + 1, buffer =>
    WriteDone answers number ∧ buffer = (answers number).block ∨
      ¬ WriteDone answers number ∧ BufferedAt number buffer

/-- The write is done when a try begins. -/
def CarriedOver : Nat → Prop
  | 0 => False
  | number + 1 => WriteDone answers number ∧ (answers number).valid = false

/-- A try writes. -/
def Writes (number : Nat) : Prop :=
  ¬ (CarriedOver answers number ∧ number ≠ 3) ∧ (answers number).answered = true

/-- A try is due: no earlier one has read back the chunk or failed to initialise. -/
def Due (number : Nat) : Prop :=
  (∀ earlier < number, ¬ Verified answers data earlier) ∧
    (3 < number → (answers 3).initialised = true)

end Told

section Buffered

variable {answers : Nat → TryAnswers} {data : Block}

/-- A write is done when it was before and the eMMC is not initialised anew, or when it is answered
and the line released. -/
theorem writeDone_iff (number : Nat) :
    WriteDone answers number ↔ CarriedOver answers number ∧ number ≠ 3 ∨
      (answers number).answered = true ∧ (answers number).released = true := by
  constructor
  · intro done
    obtain ⟨earlier, low, side, answered, released, invalid⟩ := done
    rcases Nat.eq_or_lt_of_le low with rfl | before
    · exact .inr ⟨answered, released⟩
    · obtain ⟨previous, rfl⟩ : ∃ previous, number = previous + 1 := ⟨number - 1, by omega⟩
      have carried : WriteDone answers previous :=
        ⟨earlier, by omega, by omega, answered, released,
          fun between high low => invalid between high (by omega)⟩
      exact .inl ⟨⟨carried, invalid previous (by omega) (by omega)⟩, by omega⟩
  · intro either
    rcases either with ⟨carried, other⟩ | ⟨answered, released⟩
    · cases number with
      | zero => exact carried.elim
      | succ previous =>
        obtain ⟨⟨earlier, low, side, answered, released, invalid⟩, last⟩ := carried
        refine ⟨earlier, by omega, by omega, answered, released, fun between high low => ?_⟩
        rcases Nat.eq_or_lt_of_le (Nat.le_of_lt_succ low) with rfl | before
        · exact last
        · exact invalid between high before
    · exact ⟨number, Nat.le_refl _, by omega, answered, released, by omega⟩

/-- A try is made when it is due, and the fourth one when the initialisation succeeds. -/
theorem made_iff (number : Nat) : Made answers data number ↔
    Due answers data number ∧ (number = 3 → (answers 3).initialised = true) := by
  constructor
  · exact fun made => ⟨⟨made.1, fun behind => made.2 (by omega)⟩, fun fourth => made.2 (by omega)⟩
  · intro both
    obtain ⟨⟨unread, behind⟩, fourth⟩ := both
    refine ⟨unread, fun least => ?_⟩
    rcases Nat.eq_or_lt_of_le least with here | after
    · exact fourth here.symm
    · exact behind after

/-- The tries before one that is made are made. -/
theorem Made.before {earlier later : Nat} (made : Made answers data later)
    (before : earlier ≤ later) : Made answers data earlier :=
  ⟨fun first low => made.1 first (by omega), fun fourth => made.2 (by omega)⟩

/-- One block is in the buffer. -/
theorem BufferedAt.unique {number : Nat} {buffer buffer' : Block}
    (one : BufferedAt answers data number buffer) (other : BufferedAt answers data number buffer') :
    buffer = buffer' := by
  induction number with
  | zero => exact one.trans other.symm
  | succ number ih =>
    rcases one with ⟨done, rfl⟩ | ⟨undone, one⟩
    · rcases other with ⟨-, rfl⟩ | ⟨undone, -⟩
      · rfl
      · exact absurd done undone
    · rcases other with ⟨done, -⟩ | ⟨-, other⟩
      · exact absurd done undone
      · exact ih one other

/-- The buffer holds other bytes than the chunk when the last read back has received them. -/
theorem bufferedAt_spoilt (number : Nat) :
    (∃ buffer, BufferedAt answers data number buffer ∧ buffer ≠ data) ↔
      ∃ last < number, WriteDone answers last ∧ (answers last).block ≠ data ∧
        ∀ between, last < between → between < number → ¬ WriteDone answers between := by
  induction number with
  | zero =>
    constructor
    · rintro ⟨buffer, rfl, differs⟩
      exact absurd rfl differs
    · rintro ⟨last, never, -⟩
      exact absurd never (Nat.not_lt_zero _)
  | succ number ih =>
    constructor
    · rintro ⟨buffer, ⟨done, rfl⟩ | ⟨undone, held⟩, differs⟩
      · exact ⟨number, by omega, done, differs, by omega⟩
      · obtain ⟨last, low, done, differs, none⟩ := ih.mp ⟨buffer, held, differs⟩
        refine ⟨last, by omega, done, differs, fun between high low => ?_⟩
        rcases Nat.eq_or_lt_of_le (Nat.le_of_lt_succ low) with rfl | before
        · exact undone
        · exact none between high before
    · rintro ⟨last, low, done, differs, none⟩
      rcases Nat.eq_or_lt_of_le (Nat.le_of_lt_succ low) with rfl | before
      · exact ⟨_, .inl ⟨done, rfl⟩, differs⟩
      · have undone := none number before (Nat.lt_succ_self _)
        obtain ⟨buffer, held, differs⟩ := ih.mpr
          ⟨last, before, done, differs, fun between high low => none between high (by omega)⟩
        exact ⟨buffer, .inr ⟨undone, held⟩, differs⟩

/-- No write is done behind a read back that ends one, until another one is answered. -/
theorem not_writeDone_behind {first number : Nat}
    (ends : (answers first).valid = true ∨ first = 2) (behind : first < number)
    (unanswered : ∀ between, first < between → between ≤ number →
      (answers between).answered ≠ true) : ¬ WriteDone answers number := by
  rintro ⟨earlier, low, side, answered, -, invalid⟩
  by_cases after : first < earlier
  · exact unanswered earlier after low answered
  · rcases ends with valid | rfl
    · exact Bool.false_ne_true ((invalid first (by omega) behind).symm.trans valid)
    · omega

/-- A try that is made sends other bytes than the chunk exactly if one is answered behind a read
back that has spoilt the buffer. -/
theorem spoiltResend_iff :
    (∃ number < 6, Made answers data number ∧ Writes answers number ∧
      ∃ buffer, BufferedAt answers data number buffer ∧ buffer ≠ data) ↔
      SpoiltResend answers data := by
  constructor
  · rintro ⟨number, inside, made, ⟨undone, answered⟩, spoilt⟩
    obtain ⟨last, low, done, differs, none⟩ := (bufferedAt_spoilt number).mp spoilt
    refine ⟨last, number, low, inside, made, done, differs, ?_, answered⟩
    -- otherwise the write is still done in the next try
    by_contra kept
    obtain ⟨invalid, other⟩ := not_or.mp kept
    have carried : CarriedOver answers (last + 1) := ⟨done, Bool.eq_false_iff.mpr invalid⟩
    rcases Nat.eq_or_lt_of_le (Nat.succ_le_of_lt low) with rfl | before
    · exact undone ⟨carried, by omega⟩
    · exact none (last + 1) (Nat.lt_succ_self _) before
        ((writeDone_iff _).mpr (.inl ⟨carried, by omega⟩))
  · rintro ⟨first, later, before, inside, made, done, differs, ends, answered⟩
    have some : ∃ next, first < next ∧ (answers next).answered = true := ⟨later, before, answered⟩
    obtain ⟨after, sent⟩ := Nat.find_spec some
    have least : Nat.find some ≤ later := Nat.find_min' some ⟨before, answered⟩
    have unanswered {between : Nat} (high : first < between) (low : between < Nat.find some) :
        (answers between).answered ≠ true := fun earlier => Nat.find_min some low ⟨high, earlier⟩
    have undone (between : Nat) (high : first < between) (low : between < Nat.find some) :
        ¬ WriteDone answers between :=
      not_writeDone_behind ends high fun earlier high' low' => unanswered high' (by omega)
    refine ⟨Nat.find some, by omega, made.before least, ⟨fun carried => ?_, sent⟩,
      (bufferedAt_spoilt _).mpr ⟨first, after, done, differs, undone⟩⟩
    obtain ⟨previous, same⟩ : ∃ previous, Nat.find some = previous + 1 :=
      ⟨Nat.find some - 1, by omega⟩
    rw [same] at carried after undone
    obtain ⟨⟨still, invalid⟩, other⟩ := carried
    rcases Nat.eq_or_lt_of_le (Nat.le_of_lt_succ after) with rfl | between
    · rcases ends with valid | rfl
      · exact Bool.false_ne_true (invalid.symm.trans valid)
      · exact other rfl
    · exact undone previous between (Nat.lt_succ_self _) still

end Buffered

section Line

variable (link : Link) (block : Nat) (data : Block)

/-- Whether another try follows when the tries are over, and then whether the write is done. -/
def goesOn : Except Stop Unit → Option Bool
  | .error (.finish 9 4) => some true
  | .error (.finish 10 4) => some false
  | _ => none

/-- What the line answers in a try that begins in a state. -/
def answersIn (number : Nat) (writeDone : Bool) (world : World) : TryAnswers :=
  let started := if number = 3 then (reinitMmc link world).final else world
  let sent := link.write started.bus.clock block (started.mmc block) started.bus.dataBuf
  let written := if writeDone && number ≠ 3 then started else (cmdMmcWrite link block started).final
  let got := link.receive written.bus.clock block written.bus.dataBuf (written.mmc block)
  { initialised := number ≠ 3 || (reinitMmc link world).outcome.toBool
    answered := sent.answered
    released := sent.released
    valid := got.valid
    block := got.block }

/-- A number of tries of a chunk that has been copied. -/
def chunkTries (world : World) (tries : Nat) : Run World BootOp Stop Unit :=
  writeTries link block data tries 0 true false { world with bus.dataBuf := data }

/-- What the line answers in a try of a chunk, in the state that the tries before leave. -/
def tryAnswers (world : World) (number : Nat) : TryAnswers :=
  answersIn link block number (goesOn (chunkTries link block data world number).outcome = some true)
    (chunkTries link block data world number).final

/-- The read back of a try, and what follows: none, or a try with the write done or not. -/
def readBack : Boot (Option Bool) := do
  if !(← cmdMmcRead link block) then return some true
  else if (← Prog.gets fun world => world.bus.dataBuf) = data then return none
  else return some false

/-- A try that has begun. -/
def sendAndRead (writeDone : Bool) : Boot (Option Bool) := do
  if !(← unlessDone writeDone (cmdMmcWrite link block)) then return some false
  else readBack link block data

/-- One try. -/
def tryOnce (number : Nat) (writeDone : Bool) : Boot (Option Bool) := do
  let writeDone ← startTry link number false writeDone
  sendAndRead link block data writeDone

/-- One more try when others are over, if one follows. -/
def again (number : Nat) (reason : Stop) : Boot Unit :=
  match goesOn (.error reason) with
  | some writeDone => writeTries link block data 1 number true writeDone
  | none => Prog.stop reason

/-- The tries behind one. -/
def followedBy (tries number : Nat) : Option Bool → Boot Unit
  | none => pure ()
  | some writeDone => writeTries link block data tries number true writeDone

end Line

section Tries

variable {link : Link} {block : Nat} {data : Block}

/-- A step that is done is skipped. -/
theorem unlessDone_true (step : Boot Bool) : unlessDone true step = pure true := rfl

/-- The tries are one try after the other. -/
theorem writeTries_succ (tries number : Nat) (writeDone : Bool) :
    writeTries link block data (tries + 1) number true writeDone =
      tryOnce link block data number writeDone >>=
        followedBy link block data tries (number + 1) := by
  rw [writeTries, tryOnce, bind_assoc]
  refine bind_congr fun started => ?_
  rw [unlessDone_true, pure_bind, sendAndRead, bind_assoc]
  refine bind_congr fun sent => ?_
  cases sent with
  | false => rfl
  | true =>
    simp only [Bool.not_true, Bool.false_eq_true, if_false]
    rw [readBack, bind_assoc]
    refine bind_congr fun valid => ?_
    cases valid with
    | false => rfl
    | true =>
      simp only [Bool.not_true, Bool.false_eq_true, if_false]
      rw [bind_assoc]
      refine bind_congr fun buffer => ?_
      split <;> rfl

/-- Initialisation issues nothing. -/
theorem reinitMmc_silent (world : World) : (reinitMmc link world).trace = [] := by
  have spec : (reinitMmc link).Ensures world (fun _ _ => False) _ _ := reinitMmcTries_spec 10
  exact List.eq_nil_iff_forall_not_mem.mpr spec.issued

/-- Initialisation keeps the data buffer. -/
theorem reinitMmc_dataBuf {world : World} (returned : (reinitMmc link world).outcome = .ok ()) :
    (reinitMmc link world).final.bus.dataBuf = world.bus.dataBuf := by
  have spec : (reinitMmc link).Ensures world (fun _ _ => True) _ _ := reinitMmcTries_spec 10
  exact (spec.returned () returned).2.1

/-- A write that is not answered issues nothing. -/
theorem cmdMmcWrite_unanswered {world : World} (unanswered : (link.write world.bus.clock block
    (world.mmc block) world.bus.dataBuf).answered = false) : cmdMmcWrite link block world =
      ⟨[], .ok false, { world with bus.clock := world.bus.clock + 1 }⟩ := by
  simp only [cmdMmcWrite, Prog.gets_bind, Prog.update_bind, unanswered, Bool.not_false, if_true]
  rfl

/-- A write that is answered sends the data buffer. -/
theorem cmdMmcWrite_answered {world : World} (answered : (link.write world.bus.clock block
    (world.mmc block) world.bus.dataBuf).answered = true) : cmdMmcWrite link block world =
      ⟨[({ world with bus.clock := world.bus.clock + 1 }, .write block world.bus.dataBuf)],
        .ok (link.write world.bus.clock block (world.mmc block) world.bus.dataBuf).released,
        { world with
          mmc := Function.update world.mmc block
            (link.write world.bus.clock block (world.mmc block) world.bus.dataBuf).stored
          bus.clock := world.bus.clock + 1 }⟩ := by
  simp only [cmdMmcWrite, Prog.gets_bind, Prog.update_bind, answered, Bool.not_true,
    Bool.false_eq_true, if_false, Prog.issue_bind]
  rfl

/-- Initialisation stops with one code. -/
theorem reinitMmcTries_stops (tries : Nat) (world : World) :
    (reinitMmcTries link tries).Ensures world (fun _ _ => True) (fun _ _ => True)
      fun reason _ => reason = .finish 8 4 := by
  induction tries generalizing world with
  | zero => exact (Prog.ensures_stop _).mpr rfl
  | succ tries ih =>
    refine Prog.ensures_via (fun _ _ => True)
      ((Prog.ensures_quiet mmcInitialize_run).mpr trivial) ?_
    intro answered later _
    cases answered with
    | true => exact (Prog.ensures_pure _).mpr trivial
    | false => exact ih later

/-- The write of a try, with the state that it begins in. -/
theorem unlessDone_run (done : Bool) (world : World) :
    let sent := link.write world.bus.clock block (world.mmc block) world.bus.dataBuf
    let run := unlessDone done (cmdMmcWrite link block) world
    run.trace.map Prod.snd =
        (if !done && sent.answered then [.write block world.bus.dataBuf] else []) ∧
      run.outcome = .ok (done || sent.answered && sent.released) ∧
      run.final = (if done then world else (cmdMmcWrite link block world).final) ∧
      run.final.bus.dataBuf = world.bus.dataBuf := by
  intro sent run
  cases done with
  | true => exact ⟨rfl, rfl, rfl, rfl⟩
  | false =>
    have same : run = cmdMmcWrite link block world := rfl
    rw [same]
    cases answered : sent.answered with
    | false =>
      rw [cmdMmcWrite_unanswered answered]
      exact ⟨rfl, rfl, rfl, rfl⟩
    | true =>
      rw [cmdMmcWrite_answered answered]
      exact ⟨rfl, rfl, rfl, rfl⟩

/-- What follows a try, with the write done in it or not, told from its read back. -/
def follows (data : Block) (done valid : Bool) (read : Block) : Option Bool :=
  if !done then some false
  else if !valid then some true
  else if read = data then none
  else some false

/-- No try follows a read back of the chunk, and only one. -/
theorem follows_eq_none {done valid : Bool} {read : Block} :
    follows data done valid read = none ↔ done = true ∧ valid = true ∧ read = data := by
  cases done <;> cases valid <;> simp [follows]

/-- Any other try is followed by one, with the write done when the read back is invalid. -/
theorem follows_eq_some {done valid writeDone : Bool} {read : Block} :
    follows data done valid read = some writeDone ↔
      ¬ (done = true ∧ valid = true ∧ read = data) ∧
        (writeDone = true ↔ done = true ∧ valid = false) := by
  cases done <;> cases valid <;> cases writeDone <;> simp [follows]

/-- What a read back does. -/
theorem readBack_run (world : World) :
    let got := link.receive world.bus.clock block world.bus.dataBuf (world.mmc block)
    readBack link block data world = ⟨[], .ok (follows data true got.valid got.block), { world with
      bus.clock := world.bus.clock + 1
      bus.dataBuf := got.block }⟩ := by
  intro got
  have ended : (cmdMmcRead link block world).outcome = .ok got.valid := rfl
  rw [readBack, Prog.bind_of_ok _ ended, cmdMmcRead_run]
  cases valid : got.valid with
  | false => rfl
  | true =>
    have compared (later : World) : (do
          if (← Prog.gets fun world => world.bus.dataBuf) = data then return none
          else return some false : Boot (Option Bool)) later =
        ⟨[], .ok (if later.bus.dataBuf = data then none else some false), later⟩ := by
      rw [Prog.gets_bind]
      split <;> rfl
    simp only [follows, Bool.not_true, Bool.false_eq_true, if_false, compared, List.append_nil, got]

/-- What a try does that has begun. -/
theorem sendAndRead_run (done : Bool) (world : World) :
    let sent := link.write world.bus.clock block (world.mmc block) world.bus.dataBuf
    let written := if done then world else (cmdMmcWrite link block world).final
    let got := link.receive written.bus.clock block written.bus.dataBuf (written.mmc block)
    let run := sendAndRead link block data done world
    run.trace.map Prod.snd =
        (if !done && sent.answered then [.write block world.bus.dataBuf] else []) ∧
      run.outcome =
        .ok (follows data (done || sent.answered && sent.released) got.valid got.block) ∧
      run.final.bus.dataBuf =
        if done || sent.answered && sent.released then got.block else world.bus.dataBuf := by
  intro sent written got run
  obtain ⟨trace, outcome, final, buffer⟩ := @unlessDone_run link block done world
  have whole : run = _ := Prog.bind_of_ok _ outcome
  rw [whole, ← trace]
  cases through : done || sent.answered && sent.released with
  | false => exact ⟨congrArg _ (List.append_nil _), rfl, buffer⟩
  | true =>
    simp only [Bool.not_true, Bool.false_eq_true, if_false, if_true]
    rw [final, readBack_run]
    exact ⟨congrArg _ (List.append_nil _), rfl, rfl⟩

/-- What a try does, told from what the line answers in it. -/
theorem tryOnce_run (number : Nat) (writeDone : Bool) (world : World) :
    let told := answersIn link block number writeDone world
    let done := writeDone && number ≠ 3
    let run := tryOnce link block data number writeDone world
    (told.initialised = false → run.trace = [] ∧ run.outcome = .error (.finish 8 4)) ∧
      (told.initialised = true →
        run.trace.map Prod.snd =
          (if !done && told.answered then [.write block world.bus.dataBuf] else []) ∧
        run.outcome =
          .ok (follows data (done || told.answered && told.released) told.valid told.block) ∧
        run.final.bus.dataBuf =
          if done || told.answered && told.released then told.block else world.bus.dataBuf) := by
  intro told done run
  by_cases fourth : number = 3
  · subst fourth
    have undone : done = false := Bool.and_false writeDone
    have whole : told.initialised = (reinitMmc link world).outcome.toBool := rfl
    have begun : run = ((reinitMmc link >>= fun _ => pure false) >>=
        sendAndRead link block data) world := rfl
    rw [bind_assoc] at begun
    have quiet := @reinitMmc_silent link world
    cases ended : (reinitMmc link world).outcome with
    | error reason =>
      have code : reason = .finish 8 4 := (reinitMmcTries_stops 10 world).halted reason ended
      rw [ended] at whole
      rw [begun, Prog.bind_of_error _ ended]
      exact ⟨fun _ => ⟨quiet, congrArg _ code⟩, fun never => nomatch never.symm.trans whole⟩
    | ok value =>
      have sent := @sendAndRead_run link block data false (reinitMmc link world).final
      rw [ended] at whole
      rw [begun, Prog.bind_of_ok _ ended, quiet, pure_bind, undone, List.nil_append]
      refine ⟨fun never => (nomatch never.symm.trans whole), fun _ => ?_⟩
      rw [← reinitMmc_dataBuf ended]
      cases writeDone <;> exact sent
  · have begun : startTry link number false writeDone = pure writeDone := if_neg fourth
    have kept : done = writeDone := by
      show (writeDone && decide (number ≠ 3)) = writeDone
      rw [decide_eq_true fourth, Bool.and_true]
    have same : run = sendAndRead link block data writeDone world := by
      show tryOnce link block data number writeDone world = _
      rw [tryOnce, begun, pure_bind]
    have sent := @sendAndRead_run link block data writeDone world
    have initialised : told.initialised = true := by
      show (decide (number ≠ 3) || _) = true
      rw [decide_eq_true fourth, Bool.true_or]
    refine ⟨fun never => (nomatch never.symm.trans initialised), fun _ => ?_⟩
    rw [same, kept]
    have started : (if number = 3 then (reinitMmc link world).final else world) = world :=
      if_neg fourth
    simp only [told, answersIn, started, decide_eq_true fourth, Bool.and_true]
    exact sent

/-- How tries end behind one that has been made. -/
def endedBy : Option Bool → Except Stop Unit
  | none => .ok ()
  | some writeDone => .error (if writeDone then .finish 9 4 else .finish 10 4)

/-- Another try follows as the last one has left it. -/
theorem goesOn_endedBy (next : Option Bool) : goesOn (endedBy next) = next := by
  rcases next with _ | (_ | _) <;> rfl

/-- Tries return when none follows. -/
theorem endedBy_eq_ok {next : Option Bool} : endedBy next = .ok () ↔ next = none := by
  rcases next with _ | (_ | _) <;> simp [endedBy]

/-- The last of some tries. -/
theorem writeTries_last (tries number : Nat) (writeDone : Bool) :
    writeTries link block data (tries + 1) number true writeDone =
      Prog.recover (writeTries link block data tries number true writeDone)
        (again link block data (number + tries)) := by
  induction tries generalizing number writeDone with
  | zero => cases writeDone <;> rfl
  | succ tries ih =>
    funext world
    have passes : ∀ reason, (tryOnce link block data number writeDone world).outcome =
        .error reason → again link block data (number + (tries + 1)) reason = Prog.stop reason := by
      intro reason stopped
      obtain ⟨failed, went⟩ := @tryOnce_run link block data number writeDone world
      cases told : (answersIn link block number writeDone world).initialised with
      | false =>
        obtain rfl := Except.error.inj (stopped.symm.trans (failed told).2)
        rfl
      | true => exact nomatch stopped.symm.trans (went told).2.1
    have rest : followedBy link block data (tries + 1) (number + 1) = fun next =>
        Prog.recover (followedBy link block data tries (number + 1) next)
          (again link block data (number + (tries + 1))) := by
      funext next
      cases next with
      | none => rfl
      | some writeDone =>
        rw [show number + (tries + 1) = number + 1 + tries by omega]
        exact ih (number + 1) writeDone
    rw [writeTries_succ, rest, writeTries_succ tries, Prog.recover_bind passes]

/-- No try is left. -/
theorem followedBy_none (number : Nat) (next : Option Bool) (world : World) :
    followedBy link block data 0 number next world = ⟨[], endedBy next, world⟩ := by
  rcases next with _ | (_ | _) <;> rfl

section Stream

variable (link : Link) (block : Nat) (data : Block) (world : World)

/-- Nothing is done any more once no try follows. -/
theorem chunkTries_over {number : Nat}
    (concluded : goesOn (chunkTries link block data world number).outcome = none) :
    chunkTries link block data world (number + 1) = chunkTries link block data world number := by
  show writeTries link block data (number + 1) 0 true false _ = _
  rw [writeTries_last]
  cases ended : (chunkTries link block data world number).outcome with
  | ok value => exact Prog.recover_of_ok _ ended
  | error reason =>
    rw [ended] at concluded
    have stops : again link block data (0 + number) reason = Prog.stop reason := by
      rw [again, concluded]
    refine (Prog.recover_of_error _ ended).trans ?_
    rw [stops]
    show Run.mk ((chunkTries link block data world number).trace ++ []) (Except.error reason)
      (chunkTries link block data world number).final = chunkTries link block data world number
    rw [List.append_nil, ← ended]

/-- A try that follows does what the line's answers tell. -/
theorem chunkTries_next {number : Nat} {writeDone : Bool}
    (goes : goesOn (chunkTries link block data world number).outcome = some writeDone) :
    let before := chunkTries link block data world number
    let later := chunkTries link block data world (number + 1)
    let told := tryAnswers link block data world number
    let done := writeDone && number ≠ 3
    (told.initialised = false →
      later.trace = before.trace ∧ later.outcome = .error (.finish 8 4)) ∧
      (told.initialised = true →
        later.trace.map Prod.snd = before.trace.map Prod.snd ++
          (if !done && told.answered then [.write block before.final.bus.dataBuf] else []) ∧
        later.outcome =
          endedBy (follows data (done || told.answered && told.released) told.valid told.block) ∧
        later.final.bus.dataBuf =
          if done || told.answered && told.released then told.block
          else before.final.bus.dataBuf) := by
  intro before later told done
  cases ended : before.outcome with
  | ok value => exact nomatch (congrArg goesOn ended).symm.trans goes
  | error reason =>
    have follows : goesOn (.error reason) = some writeDone :=
      (congrArg goesOn ended).symm.trans goes
    have begins : again link block data (0 + number) reason =
        tryOnce link block data number writeDone >>= followedBy link block data 0 (number + 1) := by
      rw [again, follows, Nat.zero_add]
      exact writeTries_succ 0 number writeDone
    let rest := (tryOnce link block data number writeDone >>=
      followedBy link block data 0 (number + 1)) before.final
    have whole : later = ⟨before.trace ++ rest.trace, rest.outcome, rest.final⟩ := by
      show writeTries link block data (number + 1) 0 true false _ = _
      rw [writeTries_last, Prog.recover_of_error _ ended, begins]
      rfl
    have made : told = answersIn link block number writeDone before.final := by
      show answersIn link block number (decide (goesOn before.outcome = some true)) _ = _
      rw [goes]
      cases writeDone <;> rfl
    obtain ⟨failed, went⟩ := @tryOnce_run link block data number writeDone before.final
    rw [← made] at failed went
    rw [whole]
    constructor
    · intro unprepared
      obtain ⟨silent, stopped⟩ := failed unprepared
      have ran : rest = _ := Prog.bind_of_error _ stopped
      rw [ran, silent, List.append_nil]
      exact ⟨rfl, rfl⟩
    · intro prepared
      obtain ⟨sent, outcome, buffer⟩ := went prepared
      have ran : rest = _ := Prog.bind_of_ok _ outcome
      rw [ran, followedBy_none, List.append_nil, List.map_append, sent]
      exact ⟨rfl, rfl, buffer⟩

/-- Only the fourth try initialises. -/
theorem tryAnswers_initialised {number : Nat} (other : number ≠ 3) :
    (tryAnswers link block data world number).initialised = true := by
  show (decide (number ≠ 3) || _) = true
  rw [decide_eq_true other, Bool.true_or]

/-- What tries of a chunk do, told from what the line answers in them. -/
structure TriesTold (number : Nat) : Prop where
  /-- Another try follows when it is due, with the write done when it is carried over. -/
  goes : ∀ writeDone, goesOn (chunkTries link block data world number).outcome = some writeDone ↔
    Due (tryAnswers link block data world) data number ∧
      (writeDone = true ↔ CarriedOver (tryAnswers link block data world) number)
  /-- It finds what the last read back has left. -/
  buffered : Due (tryAnswers link block data world) data number →
    BufferedAt (tryAnswers link block data world) data number
      (chunkTries link block data world number).final.bus.dataBuf
  /-- The tries return when one has read back the chunk. -/
  returned : (chunkTries link block data world number).outcome = .ok () ↔ ∃ earlier < number,
    Made (tryAnswers link block data world) data earlier ∧
      Verified (tryAnswers link block data world) data earlier
  /-- A try that is made and writes sends the buffer. -/
  issued : ∀ operation,
    operation ∈ (chunkTries link block data world number).trace.map Prod.snd ↔
      ∃ earlier < number, Made (tryAnswers link block data world) data earlier ∧
        Writes (tryAnswers link block data world) earlier ∧ ∃ buffer,
          BufferedAt (tryAnswers link block data world) data earlier buffer ∧
            operation = .write block buffer

variable {link block data world}

/-- Nothing changes behind tries that none follows. -/
theorem TriesTold.concluded {number : Nat} (told : TriesTold link block data world number)
    (concluded : goesOn (chunkTries link block data world number).outcome = none) :
    TriesTold link block data world (number + 1) := by
  have undue : ¬ Due (tryAnswers link block data world) data number := by
    classical
    intro due
    have goes := (told.goes (decide (CarriedOver (tryAnswers link block data world) number))).mpr
      ⟨due, decide_eq_true_iff⟩
    exact nomatch concluded.symm.trans goes
  have unmade : ¬ Made (tryAnswers link block data world) data number :=
    fun made => undue ((made_iff number).mp made).1
  have undue' : ¬ Due (tryAnswers link block data world) data (number + 1) := by
    intro due
    exact undue ⟨fun earlier low => due.1 earlier (by omega), fun behind => due.2 (by omega)⟩
  have same := chunkTries_over link block data world concluded
  refine ⟨fun writeDone => ?_, fun due => absurd due undue', ?_, fun operation => ?_⟩
  · rw [same, concluded]
    exact iff_of_false nofun fun both => undue' both.1
  · rw [same, told.returned, Nat.exists_lt_succ_right, or_iff_left fun both => unmade both.1]
  · rw [same, told.issued, Nat.exists_lt_succ_right, or_iff_left fun both => unmade both.1]

/-- A fourth try that fails to initialise ends the tries. -/
theorem TriesTold.unprepared {number : Nat} (told : TriesTold link block data world number)
    {writeDone : Bool}
    (goes : goesOn (chunkTries link block data world number).outcome = some writeDone)
    (unprepared : (tryAnswers link block data world number).initialised = false) :
    TriesTold link block data world (number + 1) := by
  obtain ⟨silent, stopped⟩ := (chunkTries_next link block data world goes).1 unprepared
  obtain rfl : number = 3 := by
    by_contra other
    have prepared := tryAnswers_initialised link block data world other
    exact Bool.false_ne_true (unprepared.symm.trans prepared)
  have unmade : ¬ Made (tryAnswers link block data world) data 3 :=
    fun made => Bool.false_ne_true (unprepared.symm.trans (made.2 (Nat.le_refl _)))
  have undue : ¬ Due (tryAnswers link block data world) data 4 :=
    fun due => Bool.false_ne_true (unprepared.symm.trans (due.2 (Nat.lt_succ_self _)))
  have unended : (chunkTries link block data world 3).outcome ≠ .ok () := by
    intro ended
    rw [ended] at goes
    exact nomatch goes
  refine ⟨fun writeDone => ?_, fun due => absurd due undue, ?_, fun operation => ?_⟩
  · rw [stopped]
    exact iff_of_false nofun fun both => undue both.1
  · rw [stopped, Nat.exists_lt_succ_right, or_iff_left fun both => unmade both.1]
    exact iff_of_false nofun fun earlier => unended (told.returned.mpr earlier)
  · rw [silent, told.issued, Nat.exists_lt_succ_right (n := 3),
      or_iff_left fun both => unmade both.1]

/-- A try that follows does what the line's answers tell of it. -/
theorem TriesTold.prepared {number : Nat} (told : TriesTold link block data world number)
    {writeDone : Bool}
    (goes : goesOn (chunkTries link block data world number).outcome = some writeDone)
    (prepared : (tryAnswers link block data world number).initialised = true) :
    TriesTold link block data world (number + 1) := by
  obtain ⟨sent, ended, left⟩ := (chunkTries_next link block data world goes).2 prepared
  obtain ⟨due, carried⟩ := (told.goes writeDone).mp goes
  have made : Made (tryAnswers link block data world) data number :=
    (made_iff number).mpr ⟨due, fun fourth => fourth ▸ prepared⟩
  have skips : (writeDone && decide (number ≠ 3)) = true ↔
      CarriedOver (tryAnswers link block data world) number ∧ number ≠ 3 := by
    rw [Bool.and_eq_true, decide_eq_true_iff, carried]
  have done : (writeDone && decide (number ≠ 3) ||
      (tryAnswers link block data world number).answered &&
        (tryAnswers link block data world number).released) = true ↔
      WriteDone (tryAnswers link block data world) number := by
    rw [writeDone_iff, Bool.or_eq_true, skips, Bool.and_eq_true]
  have due' : Due (tryAnswers link block data world) data (number + 1) ↔
      ¬ Verified (tryAnswers link block data world) data number := by
    constructor
    · exact fun later => later.1 number (Nat.lt_succ_self _)
    · refine fun differs => ⟨fun earlier low => ?_, fun behind => made.2 (by omega)⟩
      rcases Nat.eq_or_lt_of_le (Nat.le_of_lt_succ low) with rfl | before
      · exact differs
      · exact due.1 earlier before
  have buffered := told.buffered due
  refine ⟨fun writeDone' => ?_, fun _ => ?_, ?_, fun operation => ?_⟩
  · rw [ended, goesOn_endedBy, follows_eq_some, done, due']
    rfl
  · show WriteDone _ number ∧ _ ∨ ¬ WriteDone _ number ∧ _
    rw [left, ← done]
    split
    · rename_i through
      exact .inl ⟨through, rfl⟩
    · rename_i undone
      exact .inr ⟨undone, buffered⟩
  · have unended : ¬ ∃ earlier < number, Made (tryAnswers link block data world) data earlier ∧
        Verified (tryAnswers link block data world) data earlier := by
      rintro ⟨earlier, low, -, read⟩
      exact due.1 earlier low read
    rw [ended, Nat.exists_lt_succ_right, or_iff_right unended, and_iff_right made, endedBy_eq_ok,
      follows_eq_none, done]
    rfl
  · rw [sent, List.mem_append, told.issued, Nat.exists_lt_succ_right, and_iff_right made]
    refine or_congr_right ?_
    have writes : (!(writeDone && decide (number ≠ 3)) &&
        (tryAnswers link block data world number).answered) = true ↔
        Writes (tryAnswers link block data world) number := by
      rw [Bool.and_eq_true, Bool.not_eq_true', ← Bool.not_eq_true, skips]
      rfl
    rw [← writes]
    split
    · rename_i through
      rw [List.mem_singleton, and_iff_right through]
      exact ⟨fun same => ⟨_, buffered, same⟩,
        fun ⟨buffer, held, same⟩ => held.unique buffered ▸ same⟩
    · rename_i silent
      exact iff_of_false List.not_mem_nil fun both => silent both.1

variable (link block data world)

/-- What tries of a chunk do is told by what the line answers in them. -/
theorem triesTold (number : Nat) : TriesTold link block data world number := by
  induction number with
  | zero =>
    refine ⟨fun writeDone => ?_, fun _ => rfl, iff_of_false nofun ?_, fun operation => ?_⟩
    · have due : Due (tryAnswers link block data world) data 0 :=
        ⟨fun _ never => absurd never (Nat.not_lt_zero _), fun never => absurd never (by decide)⟩
      rw [and_iff_right due]
      cases writeDone with
      | false => exact iff_of_true rfl (iff_of_false Bool.false_ne_true id)
      | true =>
        exact iff_of_false (fun never : some false = some true => nomatch never)
          fun both => both.mp rfl
    · rintro ⟨earlier, never, -⟩
      exact Nat.not_lt_zero _ never
    · refine iff_of_false List.not_mem_nil ?_
      rintro ⟨earlier, never, -⟩
      exact Nat.not_lt_zero _ never
  | succ number told =>
    cases goes : goesOn (chunkTries link block data world number).outcome with
    | none => exact told.concluded goes
    | some writeDone =>
      cases initialised : (tryAnswers link block data world number).initialised with
      | false => exact told.unprepared goes initialised
      | true => exact told.prepared goes initialised

/-- The tries of a chunk are six. -/
theorem writeBlock_run :
    writeBlock link block data world = chunkTries link block data world 6 := rfl

/-- The tries of a chunk send the chunk only, exactly if no try that is made is answered behind a
read back that has spoilt the buffer. -/
theorem writeBlock_issuesOnly :
    (writeBlock link block data).IssuesOnly world (· = .write block data) ↔
      ¬ SpoiltResend (tryAnswers link block data world) data := by
  rw [← spoiltResend_iff, Prog.IssuesOnly, writeBlock_run]
  constructor
  · rintro only ⟨number, inside, made, writes, buffer, held, differs⟩
    obtain ⟨event, member, same⟩ := List.mem_map.mp
      (((triesTold link block data world 6).issued (.write block buffer)).mpr
        ⟨number, inside, made, writes, buffer, held, rfl⟩)
    exact differs (BootOp.write.inj (same.symm.trans (only event member))).2
  · intro unspoilt event member
    obtain ⟨number, inside, made, writes, buffer, held, same⟩ :=
      ((triesTold link block data world 6).issued event.2).mp (List.mem_map_of_mem member)
    by_contra differs
    refine unspoilt ⟨number, inside, made, writes, buffer, held, fun whole => differs ?_⟩
    rw [same, whole]

/-- The tries of a chunk return exactly if it is read back in one of them. -/
theorem writeBlock_returns : (writeBlock link block data world).outcome = .ok () ↔
    Through (tryAnswers link block data world) data := by
  rw [writeBlock_run, (triesTold link block data world 6).returned]
  rfl

end Stream

/-- The tries of a chunk write its block only. -/
theorem writeBlock_block {world : World} {event : World × BootOp}
    (member : event ∈ (writeBlock link block data world).trace) :
    ∃ sent, event.2 = .write block sent := by
  have spec : (writeBlock link block data).Ensures world _ _ _ :=
    writeTries_spec (link.keeps_true block) trivial 6 0 false false (BlocksOnly.refl world) trivial
      nofun
  obtain ⟨-, -, sent, same, -⟩ := spec.issued event member
  exact ⟨sent, same⟩

end Tries

section Array

variable (link : Link) (block : Nat) (data : Memory) (world : World)

/-- What the line answers in the tries of a chunk of an array, in the state that the chunks before
leave. -/
def lineAnswers (index : Nat) : Nat → TryAnswers :=
  tryAnswers link (block + index) (chunk data (512 * index))
    (writeData link block data (512 * index) world).final

variable {link block data world}

/-- An array of whole chunks is one chunk behind the others. -/
theorem writeData_chunk (index : Nat) : writeData link block data (512 * (index + 1)) =
    writeData link block data (512 * index) >>= fun _ =>
      writeBlock link (block + index) (chunk data (512 * index)) := by
  rw [writeData, show (512 * (index + 1) + 511) / 512 = index + 1 by omega, Prog.forRange_succ,
    writeData, show (512 * index + 511) / 512 = index by omega, Nat.zero_add]

/-- Whole chunks return exactly if each of them is read back. -/
theorem writeData_returns_iff (index : Nat) :
    (writeData link block data (512 * index) world).outcome = .ok () ↔ ∀ earlier < index,
      Through (lineAnswers link block data world earlier) (chunk data (512 * earlier)) := by
  induction index with
  | zero => exact iff_of_true rfl fun _ never => absurd never (Nat.not_lt_zero _)
  | succ index ih =>
    rw [writeData_chunk, Nat.forall_lt_succ_right, ← ih]
    cases ended : (writeData link block data (512 * index) world).outcome with
    | error reason =>
      rw [Prog.bind_of_error _ ended]
      exact iff_of_false nofun fun both => nomatch both.1
    | ok value =>
      rw [Prog.bind_of_ok _ ended, and_iff_right rfl]
      exact writeBlock_returns link (block + index) (chunk data (512 * index)) _

variable (link block data world)

/-- Every write of an array sends the bytes of its chunk, exactly if this holds of what the line
answers in each chunk that is reached: no try that is made is answered behind a read back that has
spoilt the buffer. A chunk is reached when each earlier one has been read back. -/
theorem writeData_sends_chunks_iff (size : Nat) :
    (writeData link block data size).IssuesOnly world (fun operation =>
        ∃ index < (size + 511) / 512,
          operation = .write (block + index) (chunk data (512 * index))) ↔
      ∀ index < (size + 511) / 512,
        (∀ earlier < index,
          Through (lineAnswers link block data world earlier) (chunk data (512 * earlier))) →
        ¬ SpoiltResend (lineAnswers link block data world index) (chunk data (512 * index)) := by
  rw [writeData, Prog.issuesOnly_forRange]
  refine forall₂_congr fun index inside => ?_
  have whole : (Prog.forRange 0 index fun earlier =>
      writeBlock link (block + earlier) (chunk data (512 * earlier))) =
        writeData link block data (512 * index) := by
    rw [writeData, show (512 * index + 511) / 512 = index by omega]
  have sends := writeBlock_issuesOnly link (block + index) (chunk data (512 * index))
    (writeData link block data (512 * index) world).final
  rw [whole, Nat.zero_add, ← writeData_returns_iff]
  constructor
  · intro only returned
    refine sends.mp fun event member => ?_
    obtain ⟨found, _, same⟩ := only _ ⟨returned, rfl⟩ event member
    obtain ⟨sent, here⟩ := writeBlock_block member
    obtain rfl : found = index := by
      have blocks := (BootOp.write.inj (same.symm.trans here)).1
      omega
    exact same
  · rintro unspoilt later ⟨returned, rfl⟩ event member
    exact ⟨index, inside, sends.mpr (unspoilt returned) event member⟩

end Array

/-- A line to a card that stores zeros instead of what is sent. -/
def zeroingLink : Link :=
  { perfectLink fun _ => 0 with
    init := fun _ => none
    write := fun _ _ _ _ => ⟨true, fun _ => 0, true⟩ }

/-- The state of a boot before anything has happened. -/
def blankWorld : World where
  flash := fun _ => 0xFF
  mmc := fun _ _ => 0
  bus := ⟨0, fun _ => 0, fun _ => 0, fun _ => 0⟩
  vars := ⟨false, false, false⟩

/-- The second try of a block sends the zeros that the first one has read back. -/
theorem zeros_resent :
    ¬ (writeData zeroingLink 0 (fun _ => 1) 512).IssuesOnly blankWorld (fun operation =>
      ∃ index < (512 + 511) / 512,
        operation = .write (0 + index) (chunk (fun _ => 1) (512 * index))) := by
  intro only
  rw [writeData, Prog.issuesOnly_forRange] at only
  have round := only 0 (by decide) blankWorld ⟨rfl, rfl⟩
  have chunk : (writeBlock zeroingLink 0 fun _ => 1).IssuesOnly blankWorld
      (· = .write 0 fun _ => 1) := by
    intro event member
    obtain ⟨index, inside, same⟩ := round event member
    obtain rfl : index = 0 := by omega
    exact same
  let answers := tryAnswers zeroingLink 0 (fun _ => 1) blankWorld
  -- the first try reads back the zeros that the card has stored
  have zeros : (answers 0).block = fun _ => 0 := rfl
  have differs : (answers 0).block ≠ fun _ => 1 := by
    rw [zeros]
    exact fun same => absurd (congrFun same 0) (by decide)
  have done : WriteDone answers 0 := (writeDone_iff 0).mpr (.inr ⟨rfl, rfl⟩)
  have made : Made answers (fun _ => 1) 1 := by
    refine ⟨fun earlier first => ?_, by omega⟩
    obtain rfl : earlier = 0 := by omega
    exact fun read => differs read.2.2
  exact (writeBlock_issuesOnly zeroingLink 0 _ blankWorld).mp chunk
    ⟨0, 1, by omega, by omega, made, done, differs, .inl (Received.valid_whole _), rfl⟩

end Fly2040.Firmware
