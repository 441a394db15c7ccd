import Fly2040.Leds.Loop
import Mathlib.Data.List.GetD
/-!
# Snapshots of the registers

Whatever the order of interrupts and steps of the loop, a frame shows the registers as they were at
the end of one transaction that wrote data, and later frames never show earlier registers. A loop
that is not interrupted shows the last of these transactions, unless a byte was requested in it
behind its data: then the handler takes it for a read and its data wait for the next write. On the
bus a restart ends the transaction between writing and reading, so there is none that does both.
-/

namespace Fly2040.Leds

open Bytes

/-- What has happened on the bus and to the frames. -/
structure History where
  /-- The transaction in progress has written data. -/
  written : Bool
  /-- A byte has been requested in it since. -/
  requested : Bool
  /-- Registers at the end of each transaction that wrote data, the first one first. -/
  snapshots : List RgbState
  /-- In the last transaction that wrote data, a byte was requested behind them. -/
  readBack : Bool
  /-- States that frames have been started from, the first one first. -/
  frames : List RgbState

namespace History

/-- Nothing has happened. -/
def empty : History := ⟨false, false, [], false, []⟩

/-- Snapshots at the end of a transaction. -/
def finished (history : History) (slave : Slave) : List RgbState :=
  if history.written then history.snapshots ++ [stateOf slave.context.reg] else history.snapshots

/-- An event that the handler meets in a state. -/
def event (history : History) (slave : Slave) : Event → History
  | .receive _ => { history with written := history.written || slave.context.memAddressWritten }
  | .request => { history with requested := history.written }
  | .finish => { history with
    written := false
    requested := false
    snapshots := history.finished slave
    readBack := if history.written then history.requested else history.readBack }

/-- Events one after the other. -/
def events (history : History) (slave : Slave) : List Event → History
  | [] => history
  | first :: rest => (history.event slave first).events (slaveHandler slave first) rest

/-- A step between two states of the device. -/
def record (history : History) (before later : Device) : Action → History
  | .event event => history.event before.slave event
  | .advance _ => if later.stage = .frame then
      { history with frames := history.frames ++ [later.state] } else history

end History

/-- Registers of a snapshot; the first one is the state after reset. -/
def registers (initial : RgbState) (snapshots : List RgbState) (index : Nat) : RgbState :=
  (initial :: snapshots).getD index initial

/-- What a frame shows of a snapshot; the state after reset is not limited. -/
def shown (initial : RgbState) (snapshots : List RgbState) (index : Nat) : RgbState :=
  if index = 0 then initial else clampState (registers initial snapshots index)

section Registers

variable {initial state : RgbState} {snapshots : List RgbState}

/-- A new snapshot keeps the earlier ones. -/
theorem registers_append {index : Nat} (earlier : index ≤ snapshots.length) (state : RgbState) :
    registers initial (snapshots ++ [state]) index = registers initial snapshots index := by
  have inside : index < (initial :: snapshots).length := Nat.lt_succ_of_le earlier
  rw [registers, ← List.cons_append, List.getD_append _ _ _ _ inside]
  rfl

/-- A new snapshot keeps what is shown of the earlier ones. -/
theorem shown_append {index : Nat} (earlier : index ≤ snapshots.length) (state : RgbState) :
    shown initial (snapshots ++ [state]) index = shown initial snapshots index := by
  rw [shown, shown, registers_append earlier]

/-- The last snapshot. -/
theorem registers_last (last : snapshots.getLast? = some state) :
    registers initial snapshots snapshots.length = state := by
  obtain ⟨earlier, rfl⟩ := List.getLast?_eq_some_iff.mp last
  rw [registers, List.getD_eq_getElem?_getD, ← List.cons_append,
    List.getElem?_append_right (by simp)]
  simp

/-- There is no last snapshot of none. -/
theorem length_ne_zero (last : snapshots.getLast? = some state) : snapshots.length ≠ 0 := by
  obtain ⟨earlier, rfl⟩ := List.getLast?_eq_some_iff.mp last
  simp

end Registers

/-- How the device follows the history: frames are drawn from one snapshot, and the handler has
published one that is at least as late. -/
structure Follows (initial : RgbState) (device : Device) (history : History)
    (taken published : Nat) : Prop where
  /-- If the last data was written, it belongs to the transaction in progress or to the last
  snapshot. -/
  fresh : device.slave.context.write = true → history.written = true ∨
    history.snapshots.getLast? = some (stateOf device.slave.context.reg)
  /-- The published snapshot is one of the snapshots. -/
  inside : published ≤ history.snapshots.length
  /-- The loop is not ahead of the handler. -/
  behind : taken ≤ published
  /-- The published snapshot. -/
  i2cState : device.slave.i2cState = registers initial history.snapshots published
  /-- Once the flag is reset, the loop has taken what is published. -/
  idle : device.slave.context.updateReady = false → taken = published
  /-- The flag announces a snapshot. -/
  ready : device.slave.context.updateReady = true → published ≠ 0
  /-- The loop takes what is announced. -/
  copy : device.stage = .copy → device.slave.context.updateReady = true
  /-- The state before it is limited. -/
  limit : device.stage = .limit →
    taken ≠ 0 ∧ device.state = registers initial history.snapshots taken
  /-- The state of the frames. -/
  state : device.stage ≠ .limit → device.state = shown initial history.snapshots taken
  /-- Frames in order. -/
  frames : ∃ origins : List Nat, origins.Pairwise (· ≤ ·) ∧ (∀ index ∈ origins, index ≤ taken) ∧
    history.frames = origins.map (shown initial history.snapshots)
  /-- The last data of a write transaction was written. -/
  write : history.written = true → history.requested = false →
    device.slave.context.write = true
  /-- Unless it was read back, the last snapshot is published. -/
  latest : history.readBack = false → published = history.snapshots.length

section Step

variable {initial : RgbState} {device : Device} {history : History} {taken published : Nat}

/-- One more snapshot keeps the frames. -/
theorem Follows.frames_append (follows : Follows initial device history taken published)
    (state : RgbState) : ∃ origins : List Nat, origins.Pairwise (· ≤ ·) ∧
      (∀ index ∈ origins, index ≤ taken) ∧
        history.frames = origins.map (shown initial (history.snapshots ++ [state])) := by
  obtain ⟨origins, ordered, bound, frames⟩ := follows.frames
  refine ⟨origins, ordered, bound, frames.trans ?_⟩
  apply List.map_congr_left
  intro index member
  have inside := bound index member
  have behind := follows.behind
  have inside' := follows.inside
  exact (shown_append (by omega) state).symm

/-- A byte received. -/
theorem Follows.receive (follows : Follows initial device history taken published) (byte : UInt8) :
    Follows initial { device with slave := slaveHandler device.slave (.receive byte) }
      (history.event device.slave (.receive byte)) taken published := by
  obtain ⟨⟨⟨reg, memAddress, addressed, updateReady, write⟩, i2cState⟩, _, _, _, _, _, _⟩ := device
  cases addressed with
  | false =>
    have same : history.event ⟨⟨reg, memAddress, false, updateReady, write⟩, i2cState⟩
        (.receive byte) = history := by
      simp [History.event]
    rw [same]
    exact { follows with }
  | true =>
    exact { follows with
      fresh := fun _ => .inl (Bool.or_true _)
      write := fun _ _ => rfl }

/-- A byte requested. -/
theorem Follows.request (follows : Follows initial device history taken published) :
    Follows initial { device with slave := slaveHandler device.slave .request }
      (history.event device.slave .request) taken published := by
  exact { follows with
    fresh := fun never => absurd never (by simp [slaveHandler])
    write := fun written quiet => absurd (written.symm.trans quiet) (by decide) }

/-- The end of a transaction whose last data was written publishes the last snapshot. -/
theorem Follows.publish (follows : Follows initial device history taken published)
    (write : device.slave.context.write = true) {snapshots : List RgbState} (readBack : Bool)
    (last : snapshots.getLast? = some (stateOf device.slave.context.reg))
    (longer : history.snapshots.length ≤ snapshots.length)
    (registers' : ∀ index ≤ history.snapshots.length,
      registers initial snapshots index = registers initial history.snapshots index)
    (frames : ∃ origins : List Nat, origins.Pairwise (· ≤ ·) ∧ (∀ index ∈ origins, index ≤ taken) ∧
      history.frames = origins.map (shown initial snapshots)) :
    Follows initial { device with slave := slaveHandler device.slave .finish }
      ⟨false, false, snapshots, readBack, history.frames⟩ taken snapshots.length := by
  obtain ⟨⟨⟨reg, memAddress, addressed, updateReady, _⟩, i2cState⟩, _, _, _, _, _, _⟩ := device
  have write' : _ = true := write
  subst write'
  have behind := follows.behind
  have inside := follows.inside
  exact {
    fresh := fun _ => .inr last
    inside := le_rfl
    behind := by omega
    i2cState := (registers_last last).symm
    idle := fun never => absurd never (by simp [slaveHandler])
    ready := fun _ => length_ne_zero last
    copy := fun _ => rfl
    limit := fun stage => ⟨(follows.limit stage).1,
      (follows.limit stage).2.trans (registers' taken (by omega)).symm⟩
    state := fun stage => (follows.state stage).trans (by
      rw [shown, shown, registers' taken (by omega)])
    frames := frames
    write := fun never => (Bool.false_ne_true never).elim
    latest := fun _ => rfl }

/-- The end of another transaction publishes nothing. -/
theorem Follows.pass (follows : Follows initial device history taken published)
    (read : device.slave.context.write = false) :
    Follows initial { device with slave := slaveHandler device.slave .finish }
      (history.event device.slave .finish) taken published := by
  have behind := follows.behind
  have inside := follows.inside
  have quiet : slaveHandler device.slave .finish =
      { device.slave with context.memAddressWritten := false } := by
    simp [slaveHandler, read]
  have fresh : device.slave.context.write = true → false = true ∨
      (history.finished device.slave).getLast? = some (stateOf device.slave.context.reg) :=
    fun now => absurd (read.symm.trans now) (by decide)
  rw [quiet]
  cases written : history.written with
  | true =>
    have requested : history.requested = true := by
      by_contra other
      have now := follows.write written (by simpa using other)
      exact absurd (read.symm.trans now) (by decide)
    have event : history.event device.slave .finish = ⟨false, false,
        history.snapshots ++ [stateOf device.slave.context.reg], true, history.frames⟩ := by
      simp [History.event, History.finished, written, requested]
    rw [History.finished, if_pos written] at fresh
    rw [event]
    exact { follows with
      fresh := fresh
      inside := by simp; omega
      i2cState := follows.i2cState.trans (registers_append inside _).symm
      limit := fun stage => ⟨(follows.limit stage).1,
        (follows.limit stage).2.trans (registers_append (by omega) _).symm⟩
      state := fun stage => (follows.state stage).trans (shown_append (by omega) _).symm
      frames := follows.frames_append _
      write := fun never => (Bool.false_ne_true never).elim
      latest := fun never => absurd never.symm Bool.false_ne_true }
  | false =>
    have event : history.event device.slave .finish =
        { history with written := false, requested := false } := by
      simp [History.event, History.finished, written]
    rw [History.finished, written, if_neg (by decide)] at fresh
    rw [event]
    exact { follows with
      fresh := fresh
      write := fun never => (Bool.false_ne_true never).elim }

/-- The end of a transaction. -/
theorem Follows.finish (follows : Follows initial device history taken published) :
    ∃ published', Follows initial { device with slave := slaveHandler device.slave .finish }
      (history.event device.slave .finish) taken published' := by
  cases write : device.slave.context.write with
  | true =>
    cases written : history.written with
    | true =>
      have event : history.event device.slave .finish = ⟨false, false,
          history.snapshots ++ [stateOf device.slave.context.reg], history.requested,
          history.frames⟩ := by
        simp [History.event, History.finished, written]
      rw [event]
      exact ⟨_, follows.publish write _ List.getLast?_concat (by simp)
        (fun index earlier => registers_append earlier _) (follows.frames_append _)⟩
    | false =>
      have event : history.event device.slave .finish = ⟨false, false, history.snapshots,
          history.readBack, history.frames⟩ := by
        simp [History.event, History.finished, written]
      rw [event]
      have last := (follows.fresh write).resolve_left (by simp [written])
      exact ⟨_, follows.publish write _ last le_rfl (fun _ _ => rfl) follows.frames⟩
  | false => exact ⟨published, follows.pass write⟩

/-- An event. -/
theorem Follows.event (follows : Follows initial device history taken published) (event : Event) :
    ∃ published', Follows initial { device with slave := slaveHandler device.slave event }
      (history.event device.slave event) taken published' := by
  cases event with
  | receive byte => exact ⟨published, follows.receive byte⟩
  | request => exact ⟨published, follows.request⟩
  | finish => exact follows.finish

/-- A frame is started. -/
theorem Follows.start (follows : Follows initial device history taken published)
    {state : RgbState} (now : state = shown initial history.snapshots taken) :
    ∃ origins : List Nat, origins.Pairwise (· ≤ ·) ∧ (∀ index ∈ origins, index ≤ taken) ∧
      history.frames ++ [state] = origins.map (shown initial history.snapshots) := by
  obtain ⟨origins, ordered, bound, frames⟩ := follows.frames
  refine ⟨origins ++ [taken], ?_, ?_, ?_⟩
  · rw [List.pairwise_append]
    refine ⟨ordered, List.pairwise_singleton _ _, ?_⟩
    intro index member last same
    rw [List.mem_singleton.mp same]
    exact bound index member
  · intro index member
    rcases List.mem_append.mp member with earlier | last
    · exact bound index earlier
    · exact (List.mem_singleton.mp last).le
  · rw [List.map_append, ← frames, now]
    rfl

/-- The loop has taken what is published when it draws. -/
def Settled (device : Device) (taken published : Nat) : Prop :=
  device.stage = .limit ∨ device.stage = .frame → taken = published

/-- A step of the loop. -/
theorem Follows.advance (follows : Follows initial device history taken published)
    {sin : ℚ → ℚ} {now : UInt32} {later : Device} (ran : ledsMode sin device now = .ok later) :
    ∃ taken', Follows initial later (history.record device later (.advance now)) taken' published ∧
      (Settled device taken published → Settled later taken' published) := by
  cases stage : device.stage with
  | test =>
    rw [ledsMode_test stage] at ran
    cases ran
    have state := follows.state (by simp [stage])
    cases ready : device.slave.context.updateReady with
    | true =>
      refine ⟨taken, { follows with
        copy := fun _ => ready
        limit := fun never => absurd never (by simp)
        state := fun _ => state }, ?_⟩
      intro _ drawing
      rcases drawing with never | never <;> cases never
    | false =>
      refine ⟨taken, { follows with
        copy := fun never => absurd never (by simp)
        limit := fun never => absurd never (by simp)
        state := fun _ => state
        frames := follows.start state }, fun _ _ => follows.idle ready⟩
  | copy =>
    rw [ledsMode_copy stage] at ran
    cases ran
    have announced := follows.ready (follows.copy stage)
    refine ⟨published, { follows with
      behind := le_rfl
      idle := fun _ => rfl
      ready := fun never => absurd never (by simp)
      copy := fun never => absurd never (by simp)
      limit := fun _ => ⟨announced, follows.i2cState⟩
      state := fun never => absurd rfl never
      frames := ?_ }, fun _ _ => rfl⟩
    obtain ⟨origins, ordered, bound, frames⟩ := follows.frames
    exact ⟨origins, ordered, fun index member => (bound index member).trans follows.behind, frames⟩
  | limit =>
    rw [ledsMode_limit stage] at ran
    cases ran
    obtain ⟨later, registers'⟩ := follows.limit stage
    have state : clampState device.state = shown initial history.snapshots taken := by
      rw [shown, if_neg later, registers']
    refine ⟨taken, { follows with
      copy := fun never => absurd never (by simp)
      limit := fun never => absurd never (by simp)
      state := fun _ => state
      frames := follows.start state }, fun settled _ => settled (.inl stage)⟩
  | frame =>
    obtain ⟨pixels, shifted, same⟩ := ledsMode_frame stage ran
    have state := follows.state (by simp [stage])
    subst same
    refine ⟨taken, { follows with
      copy := fun never => absurd never (by simp)
      limit := fun never => absurd never (by simp)
      state := fun _ => state }, ?_⟩
    intro _ drawing
    rcases drawing with never | never <;> cases never

end Step

section Runs

variable {sin : ℚ → ℚ} {isI2cConfigured : Bool} {device : Device} {history : History}

/-- A step of a bus whose transactions write or read, but not both: no byte is requested in one that
has written data. -/
def OneWayStep (sin : ℚ → ℚ) (before later : Device × History) : Prop :=
  ∃ action, ledsStep sin before.1 action = .ok later.1 ∧
    later.2 = before.2.record before.1 later.1 action ∧
    (action = .event .request → before.2.written = false)

/-- On such a bus no transaction that wrote data is read back. -/
theorem readBack_of_oneWay (run : Relation.ReflTransGen (OneWayStep sin)
    (initDevice isI2cConfigured, History.empty) (device, history)) :
    history.readBack = false := by
  have quiet : ∀ last, Relation.ReflTransGen (OneWayStep sin)
      (initDevice isI2cConfigured, History.empty) last →
        last.2.requested = false ∧ last.2.readBack = false := by
    intro last run
    induction run with
    | refl => exact ⟨rfl, rfl⟩
    | @tail before after _ step ih =>
      obtain ⟨unasked, whole⟩ := ih
      obtain ⟨action, _, recorded, apart⟩ := step
      rw [recorded]
      cases action with
      | event event =>
        cases event with
        | receive byte => exact ⟨unasked, whole⟩
        | request => exact ⟨apart rfl, whole⟩
        | finish =>
          refine ⟨rfl, ?_⟩
          show (if before.2.written then before.2.requested else before.2.readBack) = false
          rw [unasked, whole, ite_self]
      | advance now =>
        rw [History.record]
        split <;> exact ⟨unasked, whole⟩
  exact (quiet _ run).2

end Runs

end Fly2040.Leds
