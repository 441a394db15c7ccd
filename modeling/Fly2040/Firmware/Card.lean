import Fly2040.Firmware.Mmc
import Fly2040.Lib.Trials
import Mathlib.Data.List.Forall2
/-!
# Initialisation of the eMMC

The card is powered up, identified and selected by a sequence of commands, each sent again once if
it is not answered. What the card sends is a stream, and whether the initialisation succeeds is told
from the stream. A table says in which state the card must be at each command, but the comparison of
an answer with the table looks at its lowest bit alone.
-/

namespace Fly2040.Firmware

open Bytes Durable

namespace Card

/-- What the card sends. -/
structure Line where
  /-- The bytes that arrive in time after a command whose answer is read. -/
  answers : Nat → List UInt8
  /-- Level of the data line at a poll. -/
  dat : Nat → Bool

/-- What the firmware does on the command line. -/
inductive CardOp where
  /-- A command is sent. -/
  | send (cmd : UInt8) (arg : UInt32)
  /-- A command is answered. -/
  | answer (cmd : UInt8) (arg response : UInt32)
deriving DecidableEq

/-- Memory of the firmware, and how much of what the card sends has been read. -/
structure Session where
  /-- Number of answers that have been read. -/
  commands : Nat
  /-- Number of polls of the data line. -/
  polls : Nat
  /-- The answer with the card identification. -/
  cidBuf : Fin 17 → UInt8

/-- A program on the lines to the card. -/
abbrev CardProg (α : Type) := Prog Session CardOp Empty α

/-- One byte of a checksum. -/
def crc7Byte (crc c : UInt8) : UInt8 :=
  let shifted := (List.range 8).foldl (fun (state : UInt8 × UInt8) _ =>
    let crc := state.1 <<< 1
    (if (crc ^^^ state.2) &&& 0x80 ≠ 0 then crc ^^^ 9 else crc, state.2 <<< 1)) (crc, c)
  shifted.1 &&& 0x7F

/-- Checksum on the command line. -/
def crc7 (buffer : List UInt8) : UInt8 := buffer.foldl crc7Byte 0

/-- A word with its bytes in the opposite order. -/
def bswap32 (word : UInt32) : UInt32 :=
  le32 (byte32 word 3) (byte32 word 2) (byte32 word 1) (byte32 word 0)

/-- The word in an answer, behind the byte of the command. -/
def responseWord (buffer : Fin 6 → UInt8) : UInt32 :=
  bswap32 (le32 (buffer 1) (buffer 2) (buffer 3) (buffer 4))

/-- The checksum in an answer is that of the identification. -/
def cidChecks (buffer : Fin 17 → UInt8) : Bool :=
  crc7 (((List.ofFn buffer).drop 1).take 15) == buffer 16 >>> 1

/-- A command of the initialisation, and the state in which it finds the card. -/
structure InitEntry where
  /-- The command. -/
  cmd : UInt8
  /-- Its argument. -/
  arg : UInt32
  /-- The bits of the answer that show the state. -/
  mask : UInt32
  /-- These bits for the state that is required. -/
  expected : UInt32
deriving DecidableEq

/-- The card is ready. -/
def r1StateReady : UInt32 := 1

/-- The card is identified. -/
def r1StateIdent : UInt32 := 2

/-- The card is selected. -/
def r1StateTran : UInt32 := 4

/-- Commands of the initialisation, from the relative address to the access to the boot
partition. -/
def mmcInitTable : List InitEntry :=
  [⟨3, (2 : UInt32) <<< 16, 0x1E00, r1StateIdent <<< 9⟩,
    ⟨7, (2 : UInt32) <<< 16, 0x1E00, (r1StateIdent ||| r1StateReady) <<< 9⟩,
    ⟨13, (2 : UInt32) <<< 16, 0x1E00, r1StateTran <<< 9⟩,
    ⟨16, 512, 0x1E00, r1StateTran <<< 9⟩,
    ⟨6, (3 : UInt32) <<< 24 ||| (179 : UInt32) <<< 16 ||| (1 : UInt32) <<< 8, 0x1E00,
      r1StateTran <<< 9⟩]

/-- An answer shows the state that is required. -/
def InitEntry.InState (entry : InitEntry) (response : UInt32) : Prop :=
  response &&& entry.mask = entry.expected

instance (entry : InitEntry) (response : UInt32) : Decidable (entry.InState response) :=
  inferInstanceAs (Decidable (_ = _))

/-- The test for a wrong state: the comparison binds more tightly than the mask. -/
def InitEntry.rejects (entry : InitEntry) (response : UInt32) : Bool :=
  response &&& (if entry.mask ≠ entry.expected then 1 else 0) ≠ 0

/-- The card is addressed by blocks. -/
def sdOcrCcs : UInt32 := (1 : UInt32) <<< 30

/-- The card works at 1.8 volts. -/
def sdOcrVdd18 : UInt32 := (1 : UInt32) <<< 7

/-- The card is powered up. -/
def mmcCardBusy : UInt32 := 0x80000000

/-- The card is powered up and addressed by blocks. -/
def opCondReady (res : UInt32) : Bool := (res &&& 0xFF000000) == (mmcCardBusy ||| sdOcrCcs)

section Programs

variable (line : Line)

/-- Read an answer into a buffer: bytes that do not arrive are left as they were. -/
def cmdReadData {size : Nat} (buffer : Fin size → UInt8) :
    CardProg ((Fin size → UInt8) × Bool) := do
  let arrived ← Prog.gets fun session : Session => line.answers session.commands
  Prog.update fun session => { session with commands := session.commands + 1 }
  pure (fun index => arrived[index.val]?.getD (buffer index), size ≤ arrived.length)

/-- Send a command without an answer. -/
def simpleCmdExec (cmd : UInt8) (arg : UInt32) : CardProg Unit := Prog.issue (.send cmd arg) id

/-- Send a command and read the answer. -/
def simpleCmdExecWithRetS (cmd : UInt8) (arg : UInt32) : CardProg (Option UInt32) := do
  Prog.issue (.send cmd arg) id
  let (buffer, result) ← cmdReadData line fun _ : Fin 6 => 0
  if result then
    Prog.issue (.answer cmd arg (responseWord buffer)) id
    return some (responseWord buffer)
  else return none

/-- Send a command until it is answered. -/
def simpleCmdExecTries (cmd : UInt8) (arg : UInt32) : (tries : Nat) → CardProg (Option UInt32)
  | 0 => pure none
  | tries + 1 => do
    match ← simpleCmdExecWithRetS line cmd arg with
    | some ret => return some ret
    | none => simpleCmdExecTries cmd arg tries

/-- Send a command, and once more if it is not answered. -/
def simpleCmdExecWithRet (cmd : UInt8) (arg : UInt32) : CardProg (Option UInt32) :=
  simpleCmdExecTries line cmd arg 2

/-- Ask for the card identification. -/
def cmdExecCid : CardProg Bool := do
  Prog.issue (.send 2 0) id
  let buffer ← Prog.gets Session.cidBuf
  let (buffer, result) ← cmdReadData line buffer
  Prog.update fun session => { session with cidBuf := buffer }
  pure (result && cidChecks buffer)

/-- Power the card up, in a number of rounds. -/
def opCondRounds : (rounds : Nat) → CardProg Bool
  | 0 => pure false
  | rounds + 1 => do
    match ← simpleCmdExecWithRet line 1 (sdOcrCcs ||| sdOcrVdd18) with
    | none => return false
    | some res => if opCondReady res then return true else opCondRounds rounds

/-- Reset the card and power it up. -/
def initOpCond : CardProg Bool := do
  simpleCmdExec 0 0
  match ← simpleCmdExecWithRet line 1 0 with
  | none => return false
  | some _ => opCondRounds line 99

/-- Send commands of the initialisation. -/
def initCommands : List InitEntry → CardProg Bool
  | [] => pure true
  | entry :: rest => do
    match ← simpleCmdExecWithRet line entry.cmd entry.arg with
    | none => return false
    | some res => if entry.rejects res then return false else initCommands rest

/-- Wait for the data line, in a number of polls. -/
def waitDat : (polls : Nat) → CardProg Bool
  | 0 => pure false
  | polls + 1 => do
    let level ← Prog.gets fun session : Session => line.dat session.polls
    Prog.update fun session => { session with polls := session.polls + 1 }
    if level then return true else waitDat polls

/-- Initialise the card. -/
def mmcInitialize : CardProg Bool := do
  if !(← initOpCond line) then return false
  else if !(← cmdExecCid line) then return false
  else if !(← initCommands line mmcInitTable) then return false
  else waitDat line 100

end Programs

/-- The word with which the card answers a command, if it does. -/
def Line.response (line : Line) (number : Nat) : Option UInt32 :=
  if 6 ≤ (line.answers number).length then
    some (responseWord fun index => (line.answers number)[index.val]?.getD 0)
  else none

/-- The first answer to a command that is sent a number of times, and the number of the answer that
is read next. -/
def Line.tried (line : Line) : (tries number : Nat) → Option (UInt32 × Nat)
  | 0, _ => none
  | tries + 1, number =>
    match line.response number with
    | some response => some (response, number + 1)
    | none => line.tried tries (number + 1)

/-- The card answers a sequence of commands, each of them when it is sent for the second time at the
latest. -/
inductive Line.Answers (line : Line) : (first : Nat) → List UInt32 → (next : Nat) → Prop where
  /-- No commands. -/
  | nil (first : Nat) : line.Answers first [] first
  /-- A command, and the commands after it. -/
  | cons {first middle next : Nat} {response : UInt32} {responses : List UInt32}
      (head : line.tried 2 first = some (response, middle))
      (tail : line.Answers middle responses next) : line.Answers first (response :: responses) next

/-- The answer with the card identification. -/
def Line.cid (line : Line) (number : Nat) (buffer : Fin 17 → UInt8) : Fin 17 → UInt8 := fun index =>
  (line.answers number)[index.val]?.getD (buffer index)

/-- The card gets through the initialisation, unless its answers to the commands of the table are
rejected. -/
structure Completes (line : Line) (start : Session) (waits : List UInt32) (cidAt : Nat)
    (responses : List UInt32) : Prop where
  /-- It answers until it is powered up. -/
  powered : ∃ query ready, line.Answers start.commands (query :: (waits ++ [ready])) cidAt ∧
    opCondReady ready = true
  /-- It is not powered up before, but in time. -/
  patient : waits.length < 99 ∧ ∀ response ∈ waits, opCondReady response = false
  /-- It identifies itself. -/
  identified : 17 ≤ (line.answers cidAt).length ∧ cidChecks (line.cid cidAt start.cidBuf) = true
  /-- It answers the commands of the table. -/
  commanded : responses.length = mmcInitTable.length ∧
    ∃ next, line.Answers (cidAt + 1) responses next
  /-- It releases the data line in time. -/
  released : ∃ poll < 100, line.dat (start.polls + poll) = true

/-- The answer that an operation accepts. -/
def CardOp.answered : CardOp → Option (UInt8 × UInt32 × UInt32)
  | .send _ _ => none
  | .answer cmd arg response => some (cmd, arg, response)

/-- A program accepts answers, returns a value and leaves a state. -/
def Accepts {α : Type} (program : CardProg α) (session : Session)
    (accepted : List (UInt8 × UInt32 × UInt32)) (value : α) (later : Session) : Prop :=
  ∃ operations, program.Does session operations (.ok value) later ∧
    operations.filterMap CardOp.answered = accepted

section Rules

variable {α β : Type} {program : CardProg α} {session later last : Session} {value : α}
  {accepted rest : List (UInt8 × UInt32 × UInt32)}

/-- A pure program accepts nothing. -/
theorem accepts_pure (value : α) : Accepts (pure value : CardProg α) session [] value session :=
  ⟨[], Prog.does_pure value, rfl⟩

/-- A sequence accepts what its parts accept. -/
theorem Accepts.bind {next : α → CardProg β} {result : β}
    (head : Accepts program session accepted value later)
    (tail : Accepts (next value) later rest result last) :
    Accepts (program >>= next) session (accepted ++ rest) result last := by
  obtain ⟨front, does, same⟩ := head
  obtain ⟨back, does', same'⟩ := tail
  refine ⟨front ++ back, does.bind does', ?_⟩
  rw [List.filterMap_append, same, same']

/-- What a program returns and leaves is told from what it does. -/
theorem Accepts.leaves {value' : α} {later' : Session}
    (accepts : Accepts program session accepted value later)
    (leaves : program.Leaves session value' later') : value' = value ∧ later' = later := by
  obtain ⟨operations, does, -⟩ := accepts
  have returned : value' = value := Except.ok.inj (leaves.returned.symm.trans does.outcome)
  have final : later' = later := leaves.final.symm.trans does.final
  exact ⟨returned, final⟩

/-- A sequence leaves what its rest leaves, if it is known what its first part does. -/
theorem Accepts.leaves_bind {next : α → CardProg β} {result : β}
    (head : Accepts program session accepted value later)
    (leaves : (program >>= next).Leaves session result last) :
    (next value).Leaves later result last := by
  obtain ⟨between, middle, first, rest⟩ := Prog.leaves_bind.mp leaves
  have same := head.leaves first
  rw [same.1, same.2] at rest
  exact rest

variable {check next : CardProg Bool}

/-- After a check that succeeds comes what stands behind it. -/
theorem Accepts.guard {result : Bool} (head : Accepts check session accepted true later)
    (tail : Accepts next later rest result last) :
    Accepts (do if !(← check) then return false else next) session (accepted ++ rest) result
      last := by
  apply head.bind
  rw [if_neg (by decide)]
  exact tail

/-- A sequence succeeds only if its check does. -/
theorem leaves_guard
    (leaves :
      (do if !(← check) then return false else next : CardProg Bool).Leaves session true last) :
    ∃ middle, check.Leaves session true middle ∧ next.Leaves middle true last := by
  obtain ⟨checked, middle, head, tail⟩ := Prog.leaves_bind.mp leaves
  cases checked with
  | false => cases tail.returned
  | true =>
    rw [if_neg (by decide)] at tail
    exact ⟨middle, head, tail⟩

end Rules

section Commands

variable {line : Line} {session later : Session} {cmd : UInt8} {arg : UInt32}

/-- A command without an answer. -/
theorem simpleCmdExec_accepts (cmd : UInt8) (arg : UInt32) (session : Session) :
    Accepts (simpleCmdExec cmd arg) session [] () session :=
  ⟨[.send cmd arg], Prog.does_issue _ _, rfl⟩

/-- Reading an answer takes the next one. -/
theorem cmdReadData_does {size : Nat} (buffer : Fin size → UInt8) {result : Bool}
    (arrived : decide (size ≤ (line.answers session.commands).length) = result) :
    (cmdReadData line buffer).Does session []
      (.ok (fun index => (line.answers session.commands)[index.val]?.getD (buffer index), result))
      { session with commands := session.commands + 1 } := by
  subst arrived
  exact ⟨rfl, rfl, rfl⟩

/-- Sending a command once reads one answer. -/
theorem simpleCmdExecWithRetS_accepts (line : Line) (cmd : UInt8) (arg : UInt32)
    (session : Session) :
    Accepts (simpleCmdExecWithRetS line cmd arg) session
      ((line.response session.commands).toList.map fun response => (cmd, arg, response))
      (line.response session.commands) { session with commands := session.commands + 1 } := by
  by_cases arrived : 6 ≤ (line.answers session.commands).length
  · rw [Line.response, if_pos arrived]
    refine ⟨[.send cmd arg, .answer cmd arg _], ?_, rfl⟩
    apply Prog.does_then
    apply (cmdReadData_does _ (decide_eq_true arrived)).bind
    exact Prog.does_then (Prog.does_pure _)
  · rw [Line.response, if_neg arrived]
    refine ⟨[.send cmd arg], ?_, rfl⟩
    apply Prog.does_then
    exact (cmdReadData_does _ (decide_eq_false arrived)).bind (Prog.does_pure _)

/-- A command that is answered. -/
theorem simpleCmdExecTries_accepts {tries next : Nat} {response : UInt32}
    (answered : line.tried tries session.commands = some (response, next)) :
    Accepts (simpleCmdExecTries line cmd arg tries) session [(cmd, arg, response)] (some response)
      { session with commands := next } := by
  induction tries generalizing session with
  | zero => cases answered
  | succ tries ih =>
    have once := simpleCmdExecWithRetS_accepts line cmd arg session
    rw [Line.tried] at answered
    cases reply : line.response session.commands with
    | some found =>
      rw [reply] at answered once
      cases answered
      exact once.bind (accepts_pure (some response))
    | none =>
      rw [reply] at answered once
      exact once.bind (ih answered)

/-- A command that is not answered. -/
theorem simpleCmdExecTries_silent {tries : Nat} (silent : line.tried tries session.commands = none) :
    Accepts (simpleCmdExecTries line cmd arg tries) session [] none
      { session with commands := session.commands + tries } := by
  induction tries generalizing session with
  | zero => exact accepts_pure none
  | succ tries ih =>
    have once := simpleCmdExecWithRetS_accepts line cmd arg session
    rw [Line.tried] at silent
    cases reply : line.response session.commands with
    | some found =>
      rw [reply] at silent
      cases silent
    | none =>
      rw [reply] at silent once
      have rest : Accepts (simpleCmdExecTries line cmd arg tries)
          { session with commands := session.commands + 1 } [] none
          { session with commands := session.commands + 1 + tries } := ih silent
      have count : session.commands + 1 + tries = session.commands + (tries + 1) := by omega
      rw [count] at rest
      exact once.bind rest

/-- What comes after a command goes on only if the command is answered. -/
theorem leaves_answered {next : UInt32 → CardProg Bool}
    (leaves : (do
      match ← simpleCmdExecWithRet line cmd arg with
      | none => return false
      | some response => next response : CardProg Bool).Leaves session true later) :
    ∃ response number, line.tried 2 session.commands = some (response, number) ∧
      (next response).Leaves { session with commands := number } true later := by
  cases reply : line.tried 2 session.commands with
  | none =>
    have stopped := (simpleCmdExecTries_silent reply).leaves_bind leaves
    cases stopped.returned
  | some found =>
    have rest := (simpleCmdExecTries_accepts reply).leaves_bind leaves
    exact ⟨found.1, found.2, rfl, rest⟩

/-- An answer is rejected for its lowest bit alone. -/
theorem rejects_eq_false_iff {entry : InitEntry} (member : entry ∈ mmcInitTable)
    (response : UInt32) : entry.rejects response = false ↔ response &&& 1 = 0 := by
  have differs : ∀ entry ∈ mmcInitTable, entry.mask ≠ entry.expected := by decide
  rw [InitEntry.rejects, if_pos (differs entry member), decide_eq_false_iff_not, not_not]

/-- The answers to the commands of the initialisation. -/
def tableAnswers (entries : List InitEntry) (responses : List UInt32) :
    List (UInt8 × UInt32 × UInt32) :=
  List.zipWith (fun entry response => (entry.cmd, entry.arg, response)) entries responses

/-- Commands whose answers are not rejected are all sent. -/
theorem initCommands_accepts {entries : List InitEntry} {responses : List UInt32} {next : Nat}
    (answers : line.Answers session.commands responses next)
    (taken : List.Forall₂ (fun entry response => InitEntry.rejects entry response = false)
      entries responses) :
    Accepts (initCommands line entries) session (tableAnswers entries responses) true
      { session with commands := next } := by
  induction taken generalizing session with
  | nil =>
    cases answers
    exact accepts_pure true
  | @cons entry response entries responses first _ ih =>
    cases answers with
    | cons head tail =>
      apply (simpleCmdExecTries_accepts head).bind
      show Accepts (if entry.rejects response then pure false else initCommands line entries) _ _ _ _
      rw [first]
      exact ih tail

/-- The commands are all sent only if each is answered and no answer is rejected. -/
theorem initCommands_leaves {entries : List InitEntry}
    (leaves : (initCommands line entries).Leaves session true later) :
    ∃ responses next, line.Answers session.commands responses next ∧
      List.Forall₂ (fun entry response => InitEntry.rejects entry response = false)
        entries responses ∧ later = { session with commands := next } := by
  induction entries generalizing session with
  | nil => exact ⟨[], session.commands, .nil _, .nil, leaves.final.symm⟩
  | cons entry entries ih =>
    obtain ⟨response, number, head, rest⟩ := leaves_answered leaves
    by_cases rejected : entry.rejects response = true
    · rw [if_pos rejected] at rest
      cases rest.returned
    · rw [if_neg rejected] at rest
      obtain ⟨responses, next, answers, taken, left⟩ := ih rest
      exact ⟨response :: responses, next, .cons head answers,
        .cons (eq_false_of_ne_true rejected) taken, left⟩

/-- The answers while the card is powered up. -/
def powerAnswers (responses : List UInt32) : List (UInt8 × UInt32 × UInt32) :=
  responses.map fun response => (1, sdOcrCcs ||| sdOcrVdd18, response)

/-- The card is powered up if it is so in time. -/
theorem opCondRounds_accepts {waits : List UInt32} {ready : UInt32} {next rounds : Nat}
    (answers : line.Answers session.commands (waits ++ [ready]) next)
    (isReady : opCondReady ready = true) (few : waits.length < rounds)
    (busy : ∀ response ∈ waits, opCondReady response = false) :
    Accepts (opCondRounds line rounds) session (powerAnswers (waits ++ [ready])) true
      { session with commands := next } := by
  induction rounds generalizing session waits with
  | zero => exact absurd few (Nat.not_lt_zero _)
  | succ rounds ih =>
    cases waits with
    | nil =>
      cases answers with
      | cons head tail =>
        cases tail
        apply (simpleCmdExecTries_accepts head).bind
        show Accepts (if opCondReady ready then pure true else opCondRounds line rounds) _ _ _ _
        rw [isReady]
        exact accepts_pure true
    | cons response waits =>
      cases answers with
      | cons head tail =>
        apply (simpleCmdExecTries_accepts head).bind
        show Accepts (if opCondReady response then pure true else opCondRounds line rounds) _ _ _ _
        rw [busy response List.mem_cons_self]
        exact ih tail (Nat.lt_of_succ_lt_succ few) fun later member =>
          busy later (List.mem_cons_of_mem _ member)

/-- The rounds succeed only if the card is powered up in time. -/
theorem opCondRounds_leaves {rounds : Nat}
    (leaves : (opCondRounds line rounds).Leaves session true later) :
    ∃ waits ready next, line.Answers session.commands (waits ++ [ready]) next ∧
      opCondReady ready = true ∧ waits.length < rounds ∧
      (∀ response ∈ waits, opCondReady response = false) ∧
      later = { session with commands := next } := by
  induction rounds generalizing session with
  | zero => cases leaves.returned
  | succ rounds ih =>
    obtain ⟨response, number, head, rest⟩ := leaves_answered leaves
    by_cases isReady : opCondReady response = true
    · rw [if_pos isReady] at rest
      exact ⟨[], response, number, .cons head (.nil _), isReady, Nat.succ_pos _,
        fun _ member => absurd member List.not_mem_nil, rest.final.symm⟩
    · rw [if_neg isReady] at rest
      obtain ⟨waits, ready, next, answers, last, few, busy, left⟩ := ih rest
      refine ⟨response :: waits, ready, next, .cons head answers, last, Nat.succ_lt_succ few, ?_,
        left⟩
      exact List.forall_mem_cons.mpr ⟨eq_false_of_ne_true isReady, busy⟩

/-- The identification is one answer, and is checked. -/
theorem cmdExecCid_accepts (line : Line) (session : Session) :
    Accepts (cmdExecCid line) session []
      (decide (17 ≤ (line.answers session.commands).length) &&
        cidChecks (line.cid session.commands session.cidBuf))
      { session with
        commands := session.commands + 1
        cidBuf := line.cid session.commands session.cidBuf } := by
  refine ⟨[.send 2 0], ?_, rfl⟩
  apply Prog.does_then
  apply Prog.does_read
  apply (cmdReadData_does _ rfl).bind
  exact (Prog.does_update _).bind (Prog.does_pure _)

/-- Waiting for the data line succeeds if it is released at one of the polls. -/
theorem waitDat_accepts (line : Line) (polls : Nat) (session : Session) :
    ∃ released after, Accepts (waitDat line polls) session [] released
        { session with polls := after } ∧
      (released = true ↔ ∃ poll < polls, line.dat (session.polls + poll) = true) := by
  induction polls generalizing session with
  | zero => exact ⟨false, session.polls, accepts_pure false, by simp⟩
  | succ polls ih =>
    have polled : waitDat line (polls + 1) session = (if line.dat session.polls then pure true
      else waitDat line polls : CardProg Bool) { session with polls := session.polls + 1 } := rfl
    rw [Nat.exists_lt_succ_left, Nat.add_zero]
    cases level : line.dat session.polls with
    | true =>
      rw [level] at polled
      refine ⟨true, session.polls + 1, ⟨[], ?_, rfl⟩, by simp⟩
      exact (Prog.does_pure true).of_run polled
    | false =>
      rw [level] at polled
      obtain ⟨released, after, ⟨operations, does, same⟩, iff⟩ :=
        ih { session with polls := session.polls + 1 }
      refine ⟨released, after, ⟨operations, does.of_run polled, same⟩, ?_⟩
      rw [iff]
      simp [Nat.add_assoc, Nat.add_comm 1]

end Commands

section Initialisation

variable {line : Line} {start later : Session} {waits responses : List UInt32} {cidAt : Nat}

/-- An answer of the table is taken if its lowest bit is clear. -/
theorem taken_iff {entries : List InitEntry} (members : ∀ entry ∈ entries, entry ∈ mmcInitTable) :
    List.Forall₂ (fun entry response => InitEntry.rejects entry response = false)
        entries responses ↔
      responses.length = entries.length ∧ ∀ response ∈ responses, response &&& 1 = 0 := by
  induction entries generalizing responses with
  | nil =>
    rw [List.forall₂_nil_left_iff, List.length_nil, List.length_eq_zero_iff]
    constructor
    · intro none
      subst none
      exact ⟨rfl, fun _ member => absurd member List.not_mem_nil⟩
    · exact And.left
  | cons entry entries ih =>
    cases responses with
    | nil => simp
    | cons response responses =>
      rw [List.forall₂_cons, rejects_eq_false_iff (members entry List.mem_cons_self),
        ih fun entry' member => members entry' (List.mem_cons_of_mem _ member),
        List.forall_mem_cons, List.length_cons, List.length_cons, Nat.add_right_cancel_iff]
      tauto

/-- A card that is powered up in time is found to be. -/
theorem initOpCond_accepts {query ready : UInt32}
    (answers : line.Answers start.commands (query :: (waits ++ [ready])) cidAt)
    (isReady : opCondReady ready = true)
    (patient : waits.length < 99 ∧ ∀ response ∈ waits, opCondReady response = false) :
    Accepts (initOpCond line) start ((1, 0, query) :: powerAnswers (waits ++ [ready])) true
      { start with commands := cidAt } := by
  cases answers with
  | cons head tail =>
    apply (simpleCmdExec_accepts 0 0 start).bind
    apply (simpleCmdExecTries_accepts head).bind
    exact opCondRounds_accepts tail isReady patient.1 patient.2

/-- Only a card that is powered up in time is found to be. -/
theorem initOpCond_leaves (leaves : (initOpCond line).Leaves start true later) :
    ∃ query waits ready cidAt, line.Answers start.commands (query :: (waits ++ [ready])) cidAt ∧
      opCondReady ready = true ∧
      (waits.length < 99 ∧ ∀ response ∈ waits, opCondReady response = false) ∧
      later = { start with commands := cidAt } := by
  have afterReset := (simpleCmdExec_accepts 0 0 start).leaves_bind leaves
  obtain ⟨query, number, head, rest⟩ := leaves_answered afterReset
  obtain ⟨waits, ready, cidAt, answers, isReady, few, busy, left⟩ := opCondRounds_leaves rest
  exact ⟨query, waits, ready, cidAt, .cons head answers, isReady, ⟨few, busy⟩, left⟩

/-- A card that gets through is initialised if the lowest bit of each answer is clear; what is
accepted are its answers. -/
theorem mmcInitialize_accepts (completes : Completes line start waits cidAt responses)
    (clear : ∀ response ∈ responses, response &&& 1 = 0) :
    ∃ query ready after, Accepts (mmcInitialize line) start
      ((1, 0, query) ::
        (powerAnswers (waits ++ [ready]) ++ tableAnswers mmcInitTable responses)) true
      after := by
  obtain ⟨query, ready, answers, isReady⟩ := completes.powered
  obtain ⟨all, next, commanded⟩ := completes.commanded
  have power := initOpCond_accepts answers isReady completes.patient
  have cid := cmdExecCid_accepts line { start with commands := cidAt }
  have taken := (taken_iff fun _ member => member).mpr ⟨all, clear⟩
  have commands : Accepts (initCommands line mmcInitTable)
      { start with commands := cidAt + 1, cidBuf := line.cid cidAt start.cidBuf }
      (tableAnswers mmcInitTable responses) true
      { start with commands := next, cidBuf := line.cid cidAt start.cidBuf } :=
    initCommands_accepts commanded taken
  obtain ⟨released, polls, wait, iff⟩ := waitDat_accepts line 100
    { start with commands := next, cidBuf := line.cid cidAt start.cidBuf }
  rw [iff.mpr completes.released] at wait
  rw [decide_eq_true completes.identified.1, Bool.true_and, completes.identified.2] at cid
  have order : (1, 0, query) :: (powerAnswers (waits ++ [ready]) ++
      tableAnswers mmcInitTable responses) = ((1, 0, query) :: powerAnswers (waits ++ [ready])) ++
        ([] ++ (tableAnswers mmcInitTable responses ++ [])) := by
    rw [List.append_nil, List.nil_append, List.cons_append]
  have run := power.guard (cid.guard (commands.guard wait))
  rw [← order] at run
  exact ⟨query, ready, _, run⟩

/-- Only a card that gets through with such answers is initialised; the identification is its
answer. -/
theorem mmcInitialize_leaves (leaves : (mmcInitialize line).Leaves start true later) :
    ∃ waits cidAt responses, Completes line start waits cidAt responses ∧
      (∀ response ∈ responses, response &&& 1 = 0) ∧
      later.cidBuf = line.cid cidAt start.cidBuf := by
  obtain ⟨_, power, afterPower⟩ := leaves_guard leaves
  obtain ⟨query, waits, ready, cidAt, answers, isReady, patient, rfl⟩ := initOpCond_leaves power
  obtain ⟨_, identify, afterCid⟩ := leaves_guard afterPower
  obtain ⟨valid, rfl⟩ := (cmdExecCid_accepts line { start with commands := cidAt }).leaves identify
  obtain ⟨_, command, afterCommands⟩ := leaves_guard afterCid
  obtain ⟨responses, next, commanded, taken, rfl⟩ := initCommands_leaves command
  obtain ⟨released, polls, wait, iff⟩ := waitDat_accepts line 100
    { start with commands := next, cidBuf := line.cid cidAt start.cidBuf }
  obtain ⟨ended, rfl⟩ := wait.leaves afterCommands
  rw [eq_comm, Bool.and_eq_true, decide_eq_true_iff] at valid
  obtain ⟨all, clear⟩ := (taken_iff fun _ member => member).mp taken
  exact ⟨waits, cidAt, responses, ⟨⟨query, ready, answers, isReady⟩, patient, valid,
    ⟨all, next, commanded⟩, iff.mp ended.symm⟩, clear, rfl⟩

end Initialisation

/-- Memory before an initialisation. -/
def freshSession : Session := ⟨0, 0, fun _ => 0⟩

/-- The card identification in an answer, behind its first byte. -/
def identification (answer : Fin 17 → UInt8) : Cid := fun index => answer index.succ

/-- The identification that an initialisation yields, if it succeeds. -/
def identified (line : Line) : Option Cid :=
  let run := mmcInitialize line freshSession
  match run.outcome with
  | .ok true => some (identification run.final.cidBuf)
  | .ok false => none

/-- An identification is yielded by an initialisation that succeeds. -/
theorem leaves_of_identified {line : Line} {cid : Cid} (yields : identified line = some cid) :
    ∃ last, (mmcInitialize line).Leaves freshSession true last ∧
      cid = identification last.cidBuf := by
  rw [identified] at yields
  split at yields
  · rename_i succeeded
    exact ⟨_, ⟨succeeded, rfl⟩, (Option.some.inj yields).symm⟩
  · cases yields

/-- A link to a card that sends at each initialisation what is given for its number. -/
def onLink (link : Link) (lines : Nat → Line) : Link :=
  { link with init := fun clock => identified (lines clock) }

/-- If the card is initialised, the firmware holds the identification that it has sent, and that it
has sent with its checksum. -/
theorem mmcInitialize_onLink {link : Link} {lines : Nat → Line} {world after : World}
    (leaves : (Firmware.mmcInitialize (onLink link lines)).Leaves world true after) :
    ∃ waits cidAt responses,
      Completes (lines world.bus.clock) freshSession waits cidAt responses ∧
      after.bus.cidBuf =
        identification ((lines world.bus.clock).cid cidAt freshSession.cidBuf) := by
  have returned : (identified (lines world.bus.clock)).isSome = true :=
    Except.ok.inj leaves.returned
  obtain ⟨cid, yields⟩ := Option.isSome_iff_exists.mp returned
  have held : after.bus.cidBuf = cid := by
    rw [← leaves.final]
    show (identified (lines world.bus.clock)).getD world.bus.cidBuf = cid
    rw [yields, Option.getD_some]
  obtain ⟨last, ended, same⟩ := leaves_of_identified yields
  obtain ⟨waits, cidAt, responses, completes, -, buffer⟩ := mmcInitialize_leaves ended
  exact ⟨waits, cidAt, responses, completes, by rw [held, same, buffer]⟩

/-- What the firmware does on the command line in an initialisation. -/
def operations (line : Line) (start : Session) : List CardOp :=
  (mmcInitialize line start).trace.map Prod.snd

/-- If the initialisation succeeds, every answer that it accepts for a command of the table shows
the state that the table requires. -/
def StatesChecked (line : Line) (start : Session) : Prop :=
  (mmcInitialize line start).outcome = .ok true → ∀ entry ∈ mmcInitTable, ∀ response,
    .answer entry.cmd entry.arg response ∈ operations line start → entry.InState response

section Checked

variable {line : Line} {start : Session} {waits responses : List UInt32} {cidAt : Nat}

/-- An answer that is accepted is among those of the run. -/
theorem mem_operations_iff {accepted : List (UInt8 × UInt32 × UInt32)} {later : Session}
    (accepts : Accepts (mmcInitialize line) start accepted true later) (cmd : UInt8)
    (arg response : UInt32) :
    .answer cmd arg response ∈ operations line start ↔ (cmd, arg, response) ∈ accepted := by
  obtain ⟨issued, does, same⟩ := accepts
  have issued' : operations line start = issued := does.trace
  rw [issued', ← same, List.mem_filterMap]
  constructor
  · intro member
    exact ⟨_, member, rfl⟩
  · intro found
    obtain ⟨operation, member, answered⟩ := found
    cases operation with
    | send cmd' arg' => cases answered
    | answer cmd' arg' response' =>
      cases answered
      exact member

/-- The commands of the table differ. -/
theorem mem_tableAnswers_iff {entry : InitEntry} (member : entry ∈ mmcInitTable)
    (response : UInt32) :
    (entry.cmd, entry.arg, response) ∈ tableAnswers mmcInitTable responses ↔
      (entry, response) ∈ mmcInitTable.zip responses := by
  have distinct : ∀ left ∈ mmcInitTable, ∀ right ∈ mmcInitTable, left.cmd = right.cmd →
      left = right := by decide
  rw [tableAnswers, ← List.map_uncurry_zip_eq_zipWith, List.mem_map]
  constructor
  · intro found
    obtain ⟨⟨entry', response'⟩, inZip, same⟩ := found
    have named : entry'.cmd = entry.cmd := congrArg Prod.fst same
    have answered : response' = response := congrArg (fun answer => answer.2.2) same
    rwa [distinct entry' (List.of_mem_zip inZip).1 entry member named, answered] at inZip
  · exact fun inZip => ⟨_, inZip, rfl⟩

/-- The answers accepted for the commands of the table are those of the card. -/
theorem answered_iff (completes : Completes line start waits cidAt responses)
    (clear : ∀ response ∈ responses, response &&& 1 = 0) {entry : InitEntry}
    (member : entry ∈ mmcInitTable) (response : UInt32) :
    .answer entry.cmd entry.arg response ∈ operations line start ↔
      (entry, response) ∈ mmcInitTable.zip responses := by
  obtain ⟨query, ready, later, accepts⟩ := mmcInitialize_accepts completes clear
  have other : ∀ entry ∈ mmcInitTable, entry.cmd ≠ 1 := by decide
  have setup : (entry.cmd, entry.arg, response) ∉ powerAnswers (waits ++ [ready]) := by
    intro found
    obtain ⟨_, _, same⟩ := List.mem_map.mp found
    exact other entry member (congrArg Prod.fst same).symm
  have queried : (entry.cmd, entry.arg, response) ≠ (1, 0, query) := fun same =>
    other entry member (congrArg Prod.fst same)
  rw [mem_operations_iff accepts, List.mem_cons, or_iff_right queried, List.mem_append,
    or_iff_right setup, mem_tableAnswers_iff member]

end Checked

/-- The states are checked exactly if every card that gets through shows them, or gives an answer
whose lowest bit is set. -/
theorem statesChecked_iff (line : Line) (start : Session) :
    StatesChecked line start ↔ ∀ waits cidAt responses,
      Completes line start waits cidAt responses →
        (∃ response ∈ responses, response &&& 1 ≠ 0) ∨
          List.Forall₂ InitEntry.InState mmcInitTable responses := by
  constructor
  · intro checked waits cidAt responses completes
    by_cases clear : ∀ response ∈ responses, response &&& 1 = 0
    · obtain ⟨query, ready, later, ⟨issued, does, -⟩⟩ := mmcInitialize_accepts completes clear
      have states : ∀ entry response, (entry, response) ∈ mmcInitTable.zip responses →
          entry.InState response := by
        intro entry response paired
        have inTable : entry ∈ mmcInitTable := (List.of_mem_zip paired).1
        exact checked does.outcome entry inTable response
          ((answered_iff completes clear inTable response).mpr paired)
      exact .inr (List.forall₂_iff_zip.mpr ⟨completes.commanded.1.symm, fun {_ _} => states _ _⟩)
    · push Not at clear
      exact .inl clear
  · intro shows succeeded entry inTable response accepted
    obtain ⟨waits, cidAt, responses, completes, clear, -⟩ :=
      mmcInitialize_leaves ⟨succeeded, rfl⟩
    have paired := (answered_iff completes clear inTable response).mp accepted
    rcases shows waits cidAt responses completes with set | states
    · obtain ⟨found, member, set⟩ := set
      exact absurd (clear found member) set
    · exact (List.forall₂_iff_zip.mp states).2 paired

/-- An answer with a word, between the byte of the command and the checksum. -/
def answerBytes (cmd b3 b2 b1 b0 : UInt8) : List UInt8 := [cmd, b3, b2, b1, b0, 1]

/-- A card that stays in standby: it is not selected, and it says so. -/
def unselectedLine : Line where
  answers := fun number => [
    answerBytes 0x3F 0x40 0xFF 0x80 0x80,
    answerBytes 0x3F 0xC0 0xFF 0x80 0x80,
    [0x3F, 0, 0, 0, 0, 0, 0, 0, 0, 0, 0, 0, 0, 0, 0, 0, 1],
    answerBytes 3 0 0 5 0,
    answerBytes 7 0 0 7 0,
    answerBytes 13 0 0 7 0,
    answerBytes 16 0 0 9 0,
    answerBytes 6 0 0 9 0].getD number []
  dat := fun _ => true

/-- The card gets through. -/
theorem unselectedLine_completes :
    Completes unselectedLine freshSession [] 2 [0x500, 0x700, 0x700, 0x900, 0x900] where
  powered := ⟨0x40FF8080, 0xC0FF8080, .cons rfl (.cons rfl (.nil 2)), by decide⟩
  patient := ⟨by decide, by simp⟩
  identified := ⟨by decide, by decide +kernel⟩
  commanded := ⟨rfl, 8, .cons rfl (.cons rfl (.cons rfl (.cons rfl (.cons rfl (.nil 8)))))⟩
  released := ⟨0, by decide, rfl⟩

/-- The initialisation succeeds, but the answer to the third command does not show that the card is
selected. -/
theorem standby_accepted : ¬ StatesChecked unselectedLine freshSession := by
  intro checked
  have clear : ∀ response ∈ ([0x500, 0x700, 0x700, 0x900, 0x900] : List UInt32),
      response &&& 1 = 0 := by
    simp only [List.forall_mem_cons, List.not_mem_nil, IsEmpty.forall_iff, implies_true, and_true]
    decide
  obtain ⟨query, ready, later, ⟨issued, does, -⟩⟩ :=
    mmcInitialize_accepts unselectedLine_completes clear
  have third : InitEntry.mk 13 ((2 : UInt32) <<< 16) 0x1E00 (r1StateTran <<< 9) ∈ mmcInitTable := by
    decide
  have accepted := (answered_iff unselectedLine_completes clear third 0x700).mpr (by decide)
  exact absurd (checked does.outcome _ third 0x700 accepted) (by decide)

end Card

end Fly2040.Firmware
