import Mathlib.Data.List.Basic
/-!
# Stream in memory

A stream writes into a buffer of fixed length and starts again at its front when it reaches its
end. The bytes between where it reads and where it writes are available. A write that the buffer
does not take marks the stream, which then takes no more until the mark is cleared.
-/

namespace Fly2040.App

/-- A stream in memory. -/
structure Memstream where
  /-- The buffer. -/
  buf : List UInt8
  /-- Where it is written. -/
  put : Nat
  /-- Where it is read. -/
  get : Nat
  /-- A write has failed. -/
  bad : Bool

namespace Memstream

/-- Length of the buffer. -/
def len (stream : Memstream) : Nat := stream.buf.length

/-- Bytes that have not been read. -/
def available (stream : Memstream) : Nat :=
  if stream.get ≤ stream.put then stream.put - stream.get
  else stream.len - (stream.get - stream.put)

/-- Clear the mark. -/
def clear (stream : Memstream) : Memstream := { stream with bad := false }

/-- Write and read elsewhere. -/
def setPos (put get : Nat) (stream : Memstream) : Memstream :=
  { stream with put := put, get := get }

/-- Store a byte. -/
def store (char : UInt8) (stream : Memstream) : Memstream :=
  { stream with buf := stream.buf.set stream.put char, put := (stream.put + 1) % stream.len }

/-- Store a byte, if there is room. -/
def overflow (char : UInt8) (stream : Memstream) : Option UInt8 × Memstream :=
  if stream.available < stream.len then (some char, stream.store char) else (none, stream)

/-- Store bytes while there is room, and count them. -/
def xsputn : List UInt8 → Memstream → Nat × Memstream
  | [], stream => (0, stream)
  | char :: text, stream =>
    if stream.available < stream.len then
      let (count, stream) := xsputn text (stream.store char)
      (count + 1, stream)
    else (0, stream)

/-- The byte that is read next. -/
def front (stream : Memstream) : UInt8 := stream.buf.getD stream.get 0

/-- Read the next byte later. -/
def skip (stream : Memstream) : Memstream :=
  { stream with get := (stream.get + 1) % stream.len }

/-- Read a byte, if one is available. -/
def uflow (stream : Memstream) : Option UInt8 × Memstream :=
  if stream.available = 0 then (none, stream) else (some stream.front, stream.skip)

/-- Read bytes while one is available, at most so many. -/
def xsgetn : Nat → Memstream → List UInt8 × Memstream
  | 0, stream => ([], stream)
  | count + 1, stream =>
    if stream.available = 0 then ([], stream)
    else
      let (text, rest) := xsgetn count stream.skip
      (stream.front :: text, rest)

/-- Read bytes until none is available, which is so after as many as the buffer has. -/
def str (stream : Memstream) : List UInt8 × Memstream := xsgetn stream.len stream

/-- Write a byte. -/
def putChar (char : UInt8) (stream : Memstream) : Memstream :=
  if stream.bad then stream
  else
    match stream.overflow char with
    | (some _, stream) => stream
    | (none, stream) => { stream with bad := true }

/-- Write a text. -/
def write (text : List UInt8) (stream : Memstream) : Memstream :=
  if stream.bad then stream
  else
    let (count, stream) := stream.xsputn text
    if count = text.length then stream else { stream with bad := true }

/-- The bytes at the front of the buffer, as many as are available. -/
def contents (stream : Memstream) : List UInt8 := stream.buf.take stream.available

/-- A text has been written from the front of a buffer, and nothing has been read. -/
structure Holds (stream : Memstream) (capacity : Nat) (text : List UInt8) : Prop where
  /-- Length of the buffer. -/
  len : stream.len = capacity
  /-- Nothing has been read. -/
  get : stream.get = 0
  /-- The text ends where the next byte is written. -/
  put : stream.put = text.length
  /-- The text stands at the front of the buffer. -/
  front : stream.buf.take text.length = text
  /-- There is room behind it. -/
  room : text.length < capacity
  /-- Nothing has failed. -/
  good : stream.bad = false

variable {stream : Memstream} {capacity : Nat}

/-- A stream that starts anew holds nothing. -/
theorem holds_nil (len : stream.len = capacity) (room : 0 < capacity) :
    (stream.clear.setPos 0 0).Holds capacity [] := ⟨len, rfl, rfl, rfl, room, rfl⟩

namespace Holds

variable {before : List UInt8} (holds : stream.Holds capacity before)
include holds

/-- What is held is available. -/
theorem available : stream.available = before.length := by
  rw [Memstream.available, holds.get, holds.put, if_pos (Nat.zero_le _), Nat.sub_zero]

/-- What is held is read back. -/
theorem contents : stream.contents = before := by
  rw [Memstream.contents, holds.available, holds.front]

/-- There is room for one more byte. -/
theorem free : stream.available < stream.len := by
  rw [holds.available, holds.len]
  exact holds.room

/-- The stream is not marked. -/
theorem unmarked : ¬stream.bad = true := by
  rw [holds.good]
  exact Bool.false_ne_true

/-- One more byte is held. -/
theorem store (char : UInt8) (room : before.length + 1 < capacity) :
    (stream.store char).Holds capacity (before ++ [char]) where
  len := List.length_set.trans holds.len
  get := holds.get
  put := by
    change (stream.put + 1) % stream.len = _
    rw [holds.put, holds.len, Nat.mod_eq_of_lt room, List.length_append, List.length_singleton]
  front := by
    change (stream.buf.set stream.put char).take _ = _
    have inside : before.length < stream.buf.length := Nat.lt_of_lt_of_eq holds.room holds.len.symm
    rw [holds.put, List.length_append, List.length_singleton, List.take_add_one,
      List.take_set_of_le (Nat.le_refl _), holds.front, List.getElem?_set_self inside]
    rfl
  room := by
    rw [List.length_append, List.length_singleton]
    exact room
  good := holds.good

/-- A text that fits is stored whole. -/
theorem xsputn {text : List UInt8} (room : before.length + text.length < capacity) :
    (stream.xsputn text).1 = text.length ∧
      (stream.xsputn text).2.Holds capacity (before ++ text) := by
  induction text generalizing stream before with
  | nil =>
    rw [List.append_nil]
    exact ⟨rfl, holds⟩
  | cons char text ih =>
    rw [List.length_cons] at room
    have rest : (before ++ [char]).length + text.length < capacity := by
      rw [List.length_append, List.length_singleton]
      omega
    obtain ⟨count, all⟩ := ih (holds.store char (by omega)) rest
    rw [List.append_assoc, List.singleton_append] at all
    rw [Memstream.xsputn, if_pos holds.free]
    exact ⟨congrArg (· + 1) count, all⟩

/-- A text that fits is written whole. -/
theorem write {text : List UInt8} (room : before.length + text.length < capacity) :
    (stream.write text).Holds capacity (before ++ text) := by
  obtain ⟨count, all⟩ := holds.xsputn room
  rw [Memstream.write, if_neg holds.unmarked]
  simp only [count, if_true]
  exact all

/-- A byte that fits is written. -/
theorem putChar (char : UInt8) (room : before.length + 1 < capacity) :
    (stream.putChar char).Holds capacity (before ++ [char]) := by
  rw [Memstream.putChar, if_neg holds.unmarked, overflow, if_pos holds.free]
  exact holds.store char room

end Holds

end Memstream

end Fly2040.App
