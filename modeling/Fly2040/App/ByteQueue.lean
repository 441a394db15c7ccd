import Fly2040.Lib.Rings
import Fly2040.Lib.Runs
import Fly2040.App.Memstream
/-!
# Stream in memory as a queue of bytes

The bytes that a stream in memory takes are to be read from it once, in the order in which they
were written. The stream has no count of its bytes: as many bytes as the buffer has look like none.
It never refuses a byte, and it is a queue exactly as long as every write leaves a byte free.
-/

namespace Fly2040.App.Memstream

open Runs

/-- A call of the stream. -/
inductive Call where
  /-- Write a byte. -/
  | overflow (char : UInt8)
  /-- Write a text. -/
  | xsputn (text : List UInt8)
  /-- Read a byte. -/
  | uflow
  /-- Read a text of at most so many bytes. -/
  | xsgetn (size : Nat)
  /-- Read everything. -/
  | str

/-- The stream after a call. -/
def after (stream : Memstream) : Call → Memstream
  | .overflow char => (stream.overflow char).2
  | .xsputn text => (stream.xsputn text).2
  | .uflow => stream.uflow.2
  | .xsgetn size => (xsgetn size stream).2
  | .str => stream.str.2

/-- Bytes that a call reports as written. -/
def accepted (stream : Memstream) : Call → List UInt8
  | .overflow char => (stream.overflow char).1.toList
  | .xsputn text => text.take (stream.xsputn text).1
  | _ => []

/-- Bytes that a call reads. -/
def delivered (stream : Memstream) : Call → List UInt8
  | .uflow => stream.uflow.1.toList
  | .xsgetn size => (xsgetn size stream).1
  | .str => stream.str.1
  | _ => []

/-- Bytes that a call offers to write. -/
def Call.offered : Call → List UInt8
  | .overflow char => [char]
  | .xsputn text => text
  | _ => []

/-- What has gone through a stream. -/
structure Traffic where
  /-- All bytes reported as written. -/
  accepted : List UInt8
  /-- All bytes read. -/
  delivered : List UInt8

/-- What has gone through a stream after one more call. -/
def Traffic.more (traffic : Traffic) (stream : Memstream) (call : Call) : Traffic where
  accepted := traffic.accepted ++ stream.accepted call
  delivered := traffic.delivered ++ stream.delivered call

/-- A call, watched. -/
def step : Memstream × Traffic → Call → Memstream × Traffic :=
  watched after Traffic.more

/-- An empty stream over a buffer, through which nothing has gone. -/
def opened (buf : List UInt8) : Memstream × Traffic := (⟨buf, 0, 0, false⟩, ⟨[], []⟩)

/-- Bytes are available, in order, at the place where the stream reads. -/
structure Pending (stream : Memstream) (unread : List UInt8) : Prop where
  /-- They are counted. -/
  available : stream.available = unread.length
  /-- They are in the buffer. -/
  held : Rings.Holds stream.buf stream.get unread

/-- A stream is a queue: what has been read is the front of what has been written, and the stream
has the rest. -/
def IsQueue (state : Memstream × Traffic) : Prop :=
  ∃ unread, state.2.accepted = state.2.delivered ++ unread ∧ state.1.Pending unread

/-- The stream reads and writes inside its buffer. -/
structure Placed (stream : Memstream) : Prop where
  /-- Where it writes. -/
  put : stream.put < stream.len
  /-- Where it reads. -/
  get : stream.get < stream.len

variable {stream : Memstream} {unread text : List UInt8} {char : UInt8}

/-- There is never as much available as the buffer has. -/
theorem Placed.available_lt (placed : stream.Placed) : stream.available < stream.len := by
  have put := placed.put
  have get := placed.get
  unfold available
  split <;> omega

/-- A byte is written inside the buffer. -/
theorem Placed.store (placed : stream.Placed) (char : UInt8) : (stream.store char).Placed where
  put := by
    show (stream.put + 1) % stream.len < (stream.buf.set stream.put char).length
    rw [List.length_set]
    exact Nat.mod_lt _ (Nat.zero_lt_of_lt placed.put)
  get := by
    show stream.get < (stream.buf.set stream.put char).length
    rw [List.length_set]
    exact placed.get

/-- A byte is read inside the buffer. -/
theorem Placed.skip (placed : stream.Placed) : stream.skip.Placed where
  put := placed.put
  get := Nat.mod_lt _ (Nat.zero_lt_of_lt placed.put)

/-- A text is never refused, not even in part. -/
theorem Placed.xsputn (placed : stream.Placed) :
    (stream.xsputn text).1 = text.length ∧ (stream.xsputn text).2.Placed := by
  induction text generalizing stream with
  | nil => exact ⟨rfl, placed⟩
  | cons char text ih =>
    have rest := ih (placed.store char)
    rw [Memstream.xsputn, if_pos placed.available_lt]
    exact ⟨congrArg (· + 1) rest.1, rest.2⟩

/-- A text is read inside the buffer. -/
theorem Placed.xsgetn (placed : stream.Placed) (size : Nat) : (xsgetn size stream).2.Placed := by
  induction size generalizing stream with
  | zero => exact placed
  | succ size ih =>
    rw [Memstream.xsgetn]
    split
    · exact placed
    · exact ih placed.skip

/-- Writing a byte is writing a text of one byte. -/
theorem Placed.overflow (placed : stream.Placed) :
    stream.overflow char = (some char, stream.store char) := by
  rw [Memstream.overflow, if_pos placed.available_lt]

/-- A text is stored in a buffer of the same length. -/
theorem xsputn_len (stream : Memstream) (text : List UInt8) :
    (stream.xsputn text).2.len = stream.len := by
  induction text generalizing stream with
  | nil => rfl
  | cons char text ih =>
    rw [Memstream.xsputn]
    split
    · exact (ih (stream.store char)).trans List.length_set
    · rfl

/-- Reading leaves the buffer as it is. -/
theorem xsgetn_buf (stream : Memstream) (size : Nat) :
    (Memstream.xsgetn size stream).2.buf = stream.buf := by
  induction size generalizing stream with
  | zero => rfl
  | succ size ih =>
    rw [Memstream.xsgetn]
    split
    · rfl
    · exact ih stream.skip

/-- The buffer has always the same length. -/
theorem after_len (stream : Memstream) (call : Call) : (stream.after call).len = stream.len := by
  cases call with
  | overflow char =>
    rw [after, Memstream.overflow]
    split
    · exact List.length_set
    · rfl
  | xsputn text => exact stream.xsputn_len text
  | uflow =>
    rw [after, uflow]
    split <;> rfl
  | xsgetn size => exact congrArg List.length (stream.xsgetn_buf size)
  | str => exact congrArg List.length (stream.xsgetn_buf _)

/-- The stream stays inside its buffer. -/
theorem Placed.after (placed : stream.Placed) (call : Call) : (stream.after call).Placed := by
  cases call with
  | overflow char =>
    rw [Memstream.after, placed.overflow]
    exact placed.store _
  | xsputn text => exact placed.xsputn.2
  | uflow =>
    rw [Memstream.after, uflow]
    split
    · exact placed
    · exact placed.skip
  | xsgetn size => exact placed.xsgetn size
  | str => exact placed.xsgetn _

/-- All that is offered is reported as written. -/
theorem Placed.accepted (placed : stream.Placed) (call : Call) :
    stream.accepted call = call.offered := by
  cases call with
  | overflow char =>
    rw [Memstream.accepted, placed.overflow]
    rfl
  | xsputn text =>
    rw [Memstream.accepted, placed.xsputn.1]
    exact List.take_length
  | uflow | xsgetn size | str => rfl

namespace Pending

variable (pending : stream.Pending unread) (placed : stream.Placed)
include pending placed

/-- The stream writes behind the last byte that is available. -/
theorem put : stream.put = (stream.get + unread.length) % stream.len := by
  have count := pending.available
  have inside := placed.put
  have inside' := placed.get
  unfold Memstream.available at count
  split at count
  · rw [← count, Nat.add_sub_cancel' ‹_›, Nat.mod_eq_of_lt inside]
  · have turn : stream.get + unread.length = stream.put + stream.len := by omega
    rw [turn, Nat.add_mod_right, Nat.mod_eq_of_lt inside]

/-- A byte is added, if another one stays free. -/
theorem store (char : UInt8) (room : unread.length + 1 < stream.len) :
    (stream.store char).Pending (unread ++ [char]) where
  available := by
    show (if stream.get ≤ (stream.put + 1) % stream.len then
        (stream.put + 1) % stream.len - stream.get
      else (stream.buf.set stream.put char).length - (stream.get - (stream.put + 1) % stream.len)) =
      _
    rw [List.length_set, List.length_append, List.length_singleton, pending.put placed,
      Nat.mod_add_mod, Nat.add_assoc]
    have inside := placed.get
    by_cases turn : stream.get + (unread.length + 1) < stream.len
    · rw [Nat.mod_eq_of_lt turn, if_pos (Nat.le_add_right _ _), Nat.add_sub_cancel_left]
    · have small : stream.get + (unread.length + 1) - stream.len < stream.len := by omega
      rw [Nat.mod_eq_sub_mod (Nat.le_of_not_lt turn), Nat.mod_eq_of_lt small,
        if_neg (by omega)]
      show stream.len - _ = _
      omega
  held := by
    have added := pending.held.push (Nat.lt_of_succ_lt room) char
    have place := pending.put placed
    unfold len at place
    rw [← place] at added
    exact added

/-- A text is added, if a byte stays free. -/
theorem xsputn (room : unread.length + text.length < stream.len) :
    (stream.xsputn text).2.Pending (unread ++ text) := by
  induction text generalizing stream unread with
  | nil =>
    rw [List.append_nil]
    exact pending
  | cons char text ih =>
    rw [List.length_cons] at room
    have one := pending.store placed char (by omega)
    have length : (stream.store char).len = stream.len := List.length_set
    have rest := ih one (placed.store char) (by
      rw [List.length_append, List.length_singleton, length]
      omega)
    rw [List.append_assoc, List.singleton_append] at rest
    rw [Memstream.xsputn, if_pos placed.available_lt]
    exact rest

end Pending

/-- The first available byte is read. -/
theorem Pending.skip (pending : stream.Pending (char :: unread)) (placed : stream.Placed) :
    stream.front = char ∧ stream.skip.Pending unread := by
  have inside := placed.get
  have place : stream.get % stream.buf.length = stream.get := Nat.mod_eq_of_lt inside
  have first := pending.held.pop
  rw [place] at first
  constructor
  · rw [front, List.getD_eq_getElem?_getD, first.1, Option.getD_some]
  · constructor
    · have count := pending.available
      have put := placed.put
      rw [List.length_cons] at count
      show (if (stream.get + 1) % stream.len ≤ stream.put then
          stream.put - (stream.get + 1) % stream.len
        else stream.len - ((stream.get + 1) % stream.len - stream.put)) = _
      unfold Memstream.available at count
      by_cases turn : stream.get + 1 < stream.len
      · rw [Nat.mod_eq_of_lt turn]
        split at count <;> split <;> omega
      · have last : stream.get + 1 = stream.len := by omega
        rw [last, Nat.mod_self, if_pos (Nat.zero_le _)]
        split at count <;> omega
    · exact first.2

/-- The first available bytes are read. -/
theorem Pending.xsgetn (pending : stream.Pending unread) (placed : stream.Placed) (size : Nat) :
    (xsgetn size stream).1 = unread.take size ∧
      (xsgetn size stream).2.Pending (unread.drop size) := by
  induction size generalizing stream unread with
  | zero => exact ⟨rfl, pending⟩
  | succ size ih =>
    cases unread with
    | nil =>
      have none : stream.available = 0 := pending.available
      rw [Memstream.xsgetn, if_pos none]
      exact ⟨rfl, pending⟩
    | cons char unread =>
      have first := pending.skip placed
      have rest := ih first.2 placed.skip
      rw [Memstream.xsgetn, if_neg (by rw [pending.available]; exact Nat.succ_ne_zero _)]
      exact ⟨congrArg₂ List.cons first.1 rest.1, rest.2⟩

/-- Nothing is available after everything has been read. -/
theorem Pending.str (pending : stream.Pending unread) (placed : stream.Placed) :
    stream.str.1 = unread ∧ stream.str.2.available = 0 := by
  have all : unread.length ≤ stream.len := pending.held.fits
  have read := pending.xsgetn placed stream.len
  rw [List.take_of_length_le all, List.drop_of_length_le all] at read
  exact ⟨read.1, read.2.available⟩

/-- The first available byte is read, if there is one. -/
theorem Pending.uflow (pending : stream.Pending unread) (placed : stream.Placed) :
    stream.uflow.1.toList = unread.take 1 ∧ stream.uflow.2.Pending (unread.drop 1) := by
  cases unread with
  | nil =>
    have none : stream.available = 0 := pending.available
    rw [Memstream.uflow, if_pos none]
    exact ⟨rfl, pending⟩
  | cons char unread =>
    have first := pending.skip placed
    rw [Memstream.uflow, if_neg (by rw [pending.available]; exact Nat.succ_ne_zero _)]
    exact ⟨congrArg (fun char => [char]) first.1, first.2⟩

/-- A call leaves a byte free. -/
def LeavesFree (stream : Memstream) (call : Call) : Prop :=
  stream.available + call.offered.length < stream.len

/-- A call that leaves a byte free takes from the front of what is available and what is offered,
and the rest is available. -/
theorem Pending.after (pending : stream.Pending unread) (placed : stream.Placed) {call : Call}
    (free : stream.LeavesFree call) :
    ∃ rest, unread ++ call.offered = stream.delivered call ++ rest ∧
      (stream.after call).Pending rest := by
  unfold LeavesFree at free
  rw [pending.available] at free
  cases call with
  | overflow char =>
    have added := pending.store placed char free
    rw [Memstream.after, placed.overflow]
    exact ⟨_, rfl, added⟩
  | xsputn text => exact ⟨_, rfl, pending.xsputn placed free⟩
  | uflow =>
    have read := pending.uflow placed
    have parts := (List.append_nil unread).trans (List.take_append_drop 1 unread).symm
    rw [← read.1] at parts
    exact ⟨_, parts, read.2⟩
  | xsgetn size =>
    have read := pending.xsgetn placed size
    have parts := (List.append_nil unread).trans (List.take_append_drop size unread).symm
    rw [← read.1] at parts
    exact ⟨_, parts, read.2⟩
  | str =>
    have read := pending.xsgetn placed stream.len
    have parts := (List.append_nil unread).trans (List.take_append_drop stream.len unread).symm
    rw [← read.1] at parts
    exact ⟨_, parts, read.2⟩

/-- A call that delivers offers nothing. -/
theorem delivered_or_offered (stream : Memstream) (call : Call) :
    stream.delivered call = [] ∨ call.offered = [] := by
  cases call with
  | overflow char | xsputn text => exact .inl rfl
  | uflow | xsgetn size | str => exact .inr rfl

/-- From a queue exactly a call that leaves a byte free leads to a queue. -/
theorem isQueue_step_iff {state : Memstream × Traffic} {call : Call} (placed : state.1.Placed)
    (queue : IsQueue state) : IsQueue (step state call) ↔ state.1.LeavesFree call := by
  have written := placed.accepted call
  have ⟨unread, parts, pending⟩ := queue
  constructor
  · intro queue'
    have ⟨rest, parts', pending'⟩ := queue'
    change state.2.accepted ++ state.1.accepted call =
      state.2.delivered ++ state.1.delivered call ++ rest at parts'
    rw [written, parts, List.append_assoc, List.append_assoc, List.append_cancel_left_eq] at parts'
    unfold LeavesFree
    rw [pending.available]
    cases state.1.delivered_or_offered call with
    | inl nothing =>
      have bound := (placed.after call).available_lt
      have length : (state.1.after call).len = state.1.len := state.1.after_len call
      have available : (state.1.after call).available = rest.length := pending'.available
      rw [nothing, List.nil_append] at parts'
      rw [length, available, ← parts', List.length_append] at bound
      exact bound
    | inr nothing =>
      have bound := placed.available_lt
      rw [pending.available] at bound
      rw [nothing]
      exact bound
  · intro free
    have ⟨rest, parts', pending'⟩ := pending.after placed free
    have all : state.2.accepted ++ state.1.accepted call =
        state.2.delivered ++ state.1.delivered call ++ rest := by
      rw [written, parts, List.append_assoc, parts', List.append_assoc]
    exact ⟨rest, all, pending'⟩

/-- A stream over a buffer is a queue throughout a sequence of calls exactly if each call leaves a
byte of the buffer free. -/
theorem isQueue_iff (buf : List UInt8) (room : 0 < buf.length) (calls : List Call) :
    Always step IsQueue (opened buf) calls ↔
      EachStep step (fun state call => state.1.LeavesFree call) (opened buf) calls := by
  have keeps : ∀ (state : Memstream × Traffic) (call : Call), state.1.Placed → True →
      (step state call).1.Placed := fun _ call placed _ => placed.after call
  have start : IsQueue (opened buf) := ⟨[], rfl, ⟨rfl, Rings.holds_nil⟩⟩
  exact always_iff_eachStep keeps (fun _ _ placed queue _ => isQueue_step_iff placed queue)
    ⟨room, room⟩ start eachStep_true

/-- Two bytes are written to a buffer of three and read. -/
theorem isQueue_two :
    0 < [(0 : UInt8), 0, 0].length ∧
      Always step IsQueue (opened [0, 0, 0]) [.xsputn [1, 2], .uflow, .str] := by
  have free : EachStep step (fun state call => state.1.LeavesFree call) (opened [0, 0, 0])
      [.xsputn [1, 2], .uflow, .str] :=
    ⟨show 0 + 2 < 3 by decide, show 2 + 0 < 3 by decide, show 1 + 0 < 3 by decide, trivial⟩
  exact ⟨by decide, (isQueue_iff [0, 0, 0] (by decide) _).mpr free⟩

/-- A full buffer looks empty: two bytes are written to a buffer of two, and none is read. -/
theorem full_looks_empty :
    ¬Always step IsQueue (opened [0, 0]) [.xsputn [1, 2], .str] ∧
      (step (step (opened [0, 0]) (.xsputn [1, 2])) .str).2 = ⟨[1, 2], []⟩ := by
  constructor
  · intro always
    have ⟨unread, parts, pending⟩ := always.2.first
    change [1, 2] = unread at parts
    have available : 0 = unread.length := pending.available
    rw [← parts] at available
    exact absurd available (by decide)
  · rfl

end Fly2040.App.Memstream
