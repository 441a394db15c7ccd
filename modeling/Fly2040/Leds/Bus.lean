import Fly2040.Leds.Slave
/-!
# The bus of the LED device

What a master sees of the device is a memory of 256 bytes with a pointer: a write begins with an
address, which sets the pointer, and every byte behind it is stored and every byte that is read is
taken from where the pointer is, which goes on and wraps. The device is told that a transfer is over
when the master stops or starts again, and takes over what has been written only then.
-/

namespace Fly2040.Leds

open Bytes

/-- A signal of the master, once it has chosen the device. -/
inductive Signal where
  /-- Begin a transfer; without a stop before, this is a restart. -/
  | start
  /-- End a transfer. -/
  | stop
  /-- Send a byte. -/
  | send (byte : UInt8)
  /-- Take a byte. -/
  | take

/-- The device at the bus. -/
structure Port where
  /-- The interrupt handler. -/
  slave : Slave
  /-- Bytes have been transferred since the handler has been told that a transfer is over. -/
  transferInProgress : Bool

/-- The handler is told that a transfer is over, if there has been one. -/
def Port.finishTransfer (port : Port) : Port :=
  if port.transferInProgress then ⟨slaveHandler port.slave .finish, false⟩ else port

/-- A signal of the master. -/
def Port.signal (port : Port) : Signal → Port
  | .start | .stop => port.finishTransfer
  | .send byte => ⟨slaveHandler port.slave (.receive byte), true⟩
  | .take => ⟨slaveHandler port.slave .request, true⟩

/-- The byte that the device sends with a signal. -/
def Port.reply (port : Port) : Signal → Option UInt8
  | .take => slaveReply port.slave .request
  | _ => none

/-- The device after some signals. -/
def Port.signals (port : Port) (signals : List Signal) : Port := signals.foldl Port.signal port

/-- The bytes that the device sends with some signals. -/
def Port.replies : Port → List Signal → List UInt8
  | _, [] => []
  | port, signal :: rest => (port.reply signal).toList ++ (port.signal signal).replies rest

/-- What a master does in a transfer. -/
inductive Message where
  /-- Send bytes, the first of which is an address. -/
  | write (data : List UInt8)
  /-- Take bytes. -/
  | read (count : Nat)
deriving DecidableEq

/-- Signals of a message. -/
def Message.signals : Message → List Signal
  | .write data => data.map .send
  | .read count => List.replicate count .take

/-- A message, and whether the master stops behind it. -/
structure Transfer where
  /-- The message. -/
  message : Message
  /-- The master stops behind it, and does not keep the bus. -/
  stopped : Bool
deriving DecidableEq

/-- Signals of a transfer. -/
def Transfer.signals (transfer : Transfer) : List Signal :=
  .start :: (transfer.message.signals ++ if transfer.stopped then [.stop] else [])

/-- A memory that is read and written where a pointer is. -/
structure File where
  /-- The bytes. -/
  cells : Memory
  /-- The pointer. -/
  pointer : UInt8

namespace File

/-- Store a byte. -/
def store (file : File) (byte : UInt8) : File :=
  ⟨Function.update file.cells file.pointer.toNat byte, file.pointer + 1⟩

/-- A message. -/
def message (file : File) : Message → File
  | .write [] => file
  | .write (address :: data) => data.foldl store { file with pointer := address }
  | .read count => { file with pointer := file.pointer + UInt8.ofNat count }

/-- The bytes that a message takes. -/
def replies (file : File) : Message → List UInt8
  | .write _ => []
  | .read count =>
    (List.range count).map fun index => file.cells (file.pointer + UInt8.ofNat index).toNat

end File

/-- A file, and the bytes that have been taken over from it. -/
structure Shown where
  /-- The file. -/
  file : File
  /-- Its bytes at the end of the last transfer of which the device knows. -/
  shown : Memory

/-- A transfer: what has been written before is taken over, and what it writes only if it is
stopped. -/
def Shown.transfer (shown : Shown) (transfer : Transfer) : Shown :=
  let next := shown.file.message transfer.message
  ⟨next, if transfer.stopped then next.cells else shown.file.cells⟩

/-- Bytes that some transfers take, one list for each. -/
def Shown.replies : Shown → List Transfer → List (List UInt8)
  | _, [] => []
  | shown, transfer :: rest =>
    shown.file.replies transfer.message :: (shown.transfer transfer).replies rest

/-- Bytes that the device sends in some transfers, one list for each. -/
def Port.transferReplies : Port → List Transfer → List (List UInt8)
  | _, [] => []
  | port, transfer :: rest =>
    port.replies transfer.signals :: (port.signals transfer.signals).transferReplies rest

/-- Between two transfers, the device is a file of which some bytes have been taken over. -/
structure Between (port : Port) (shown : Shown) : Prop where
  /-- The bytes. -/
  cells : port.slave.context.reg = shown.file.cells
  /-- The pointer. -/
  pointer : port.slave.context.memAddress = shown.file.pointer
  /-- A write begins with an address. -/
  addressed : port.transferInProgress = false → port.slave.context.memAddressWritten = false
  /-- The bytes that have been taken over. -/
  taken : port.slave.i2cState = stateOf shown.shown
  /-- All of them, unless the last transfer has not been stopped and has written some. -/
  whole : (port.transferInProgress = false ∨ port.slave.context.write = false) →
    stateOf shown.shown = stateOf shown.file.cells

section Signals

variable {reg : Memory} {address : UInt8} {updateReady write : Bool} {state : RgbState}

/-- Signals one after the other. -/
theorem signals_append (port : Port) (front back : List Signal) :
    port.signals (front ++ back) = (port.signals front).signals back :=
  List.foldl_append

/-- Bytes that are sent with signals one after the other. -/
theorem replies_append (port : Port) (front back : List Signal) :
    port.replies (front ++ back) = port.replies front ++ (port.signals front).replies back := by
  induction front generalizing port with
  | nil => rfl
  | cons signal front ih =>
    rw [List.cons_append, Port.replies, Port.replies, ih, List.append_assoc]
    rfl

/-- No bytes are sent while bytes are received. -/
theorem replies_send (port : Port) (data : List UInt8) : port.replies (data.map .send) = [] := by
  induction data generalizing port with
  | nil => rfl
  | cons byte data ih => exact ih _

/-- Bytes behind the address are stored. -/
theorem signals_send (data : List UInt8) :
    Port.signals ⟨⟨⟨reg, address, true, updateReady, write⟩, state⟩, true⟩ (data.map .send) =
      ⟨⟨⟨(data.foldl File.store ⟨reg, address⟩).cells,
        (data.foldl File.store ⟨reg, address⟩).pointer, true, updateReady,
        write || !data.isEmpty⟩, state⟩, true⟩ := by
  induction data generalizing reg address write with
  | nil => simp [Port.signals]
  | cons byte data ih =>
    have stored :
        Port.signal ⟨⟨⟨reg, address, true, updateReady, write⟩, state⟩, true⟩ (.send byte) =
        ⟨⟨⟨Function.update reg address.toNat byte, address + 1, true, updateReady, true⟩, state⟩,
          true⟩ := rfl
    rw [List.map_cons, Port.signals, List.foldl_cons, stored]
    have rest := @ih (Function.update reg address.toNat byte) (address + 1) true
    rw [Port.signals] at rest
    rw [rest]
    simp [File.store]

/-- The next address. -/
theorem one_add_ofNat (count : Nat) :
    (1 : UInt8) + UInt8.ofNat count = UInt8.ofNat (count + 1) := by
  rw [UInt8.ofNat_add, UInt8.add_comm]
  rfl

/-- Bytes are taken from the pointer on. -/
theorem signals_take {written inProgress : Bool} (count : Nat) :
    Port.signals ⟨⟨⟨reg, address, written, updateReady, write⟩, state⟩, inProgress⟩
        (List.replicate (count + 1) .take) =
      ⟨⟨⟨reg, address + UInt8.ofNat (count + 1), written, updateReady, false⟩, state⟩, true⟩ := by
  induction count generalizing address write inProgress with
  | zero => rfl
  | succ count ih =>
    have taken :
        Port.signal ⟨⟨⟨reg, address, written, updateReady, write⟩, state⟩, inProgress⟩ .take =
        ⟨⟨⟨reg, address + 1, written, updateReady, false⟩, state⟩, true⟩ := rfl
    rw [List.replicate_succ, Port.signals, List.foldl_cons, taken]
    have rest := @ih (address + 1) false true
    rw [Port.signals] at rest
    rw [rest, UInt8.add_assoc, one_add_ofNat]

/-- The bytes that are taken are those from the pointer on. -/
theorem replies_take {port : Port} (count : Nat) :
    port.replies (List.replicate count .take) =
      (List.range count).map fun index =>
        port.slave.context.reg (port.slave.context.memAddress + UInt8.ofNat index).toNat := by
  induction count generalizing port with
  | zero => rfl
  | succ count ih =>
    have first : port.reply .take =
        some (port.slave.context.reg (port.slave.context.memAddress + UInt8.ofNat 0).toNat) := by
      show some _ = _
      rw [show UInt8.ofNat 0 = 0 from rfl, UInt8.add_zero]
    have next (index : Nat) : port.slave.context.memAddress + 1 + UInt8.ofNat index =
        port.slave.context.memAddress + UInt8.ofNat (index + 1) := by
      rw [UInt8.add_assoc, one_add_ofNat]
    rw [List.replicate_succ, Port.replies, first, ih, List.range_succ_eq_map, List.map_cons,
      List.map_map]
    simp only [Port.signal, slaveHandler, next]
    rfl

/-- The device at the end of a transfer has taken over all bytes. -/
theorem Between.finish {port : Port} {shown : Shown} (between : Between port shown) :
    Between port.finishTransfer ⟨shown.file, shown.file.cells⟩ ∧
      port.finishTransfer.transferInProgress = false := by
  rw [Port.finishTransfer]
  by_cases ended : port.transferInProgress = true
  · rw [if_pos ended, slaveHandler]
    by_cases written : port.slave.context.write = true
    · rw [if_pos written]
      refine ⟨⟨between.cells, between.pointer, fun _ => rfl, ?_, fun _ => rfl⟩, rfl⟩
      show stateOf port.slave.context.reg = _
      rw [between.cells]
    · rw [if_neg written]
      refine ⟨⟨between.cells, between.pointer, fun _ => rfl, ?_, fun _ => rfl⟩, rfl⟩
      rw [Bool.not_eq_true] at written
      exact between.taken.trans (between.whole (.inr written))
  · rw [if_neg ended]
    rw [Bool.not_eq_true] at ended
    exact ⟨⟨between.cells, between.pointer, between.addressed,
      between.taken.trans (between.whole (.inl ended)), fun _ => rfl⟩, ended⟩

/-- A message is one to the file, and is not taken over yet. -/
theorem Between.message {port : Port} {file : File} (between : Between port ⟨file, file.cells⟩)
    (ended : port.transferInProgress = false) (message : Message) :
    Between (port.signals message.signals) ⟨file.message message, file.cells⟩ ∧
      port.replies message.signals = file.replies message := by
  have addressed := between.addressed ended
  obtain ⟨⟨⟨reg, memAddress, memAddressWritten, updateReady, write⟩, i2cState⟩, inProgress⟩ := port
  obtain ⟨cells, pointer, _, taken, whole⟩ := between
  dsimp only at cells pointer taken whole addressed ended
  subst addressed ended cells pointer
  cases message with
  | write data =>
    refine ⟨?_, replies_send _ data⟩
    cases data with
    | nil => exact ⟨rfl, rfl, fun _ => rfl, taken, whole⟩
    | cons address data =>
      have first : Port.signals
            ⟨⟨⟨file.cells, file.pointer, false, updateReady, write⟩, i2cState⟩, false⟩
            (Message.write (address :: data)).signals =
          Port.signals ⟨⟨⟨file.cells, address, true, updateReady, write⟩, i2cState⟩, true⟩
            (data.map .send) := by
        simp [Message.signals, Port.signals, Port.signal, slaveHandler]
      rw [first, signals_send]
      refine ⟨rfl, rfl, fun never => (by cases never), taken, ?_⟩
      intro none
      cases data with
      | nil => rfl
      | cons byte data =>
        rw [List.isEmpty_cons, Bool.not_false, Bool.or_true] at none
        rcases none with never | never <;> cases never
  | read count =>
    refine ⟨?_, replies_take count⟩
    cases count with
    | zero => exact ⟨rfl, (UInt8.add_zero file.pointer).symm, fun _ => rfl, taken, fun _ => rfl⟩
    | succ count =>
      rw [Message.signals, signals_take]
      exact ⟨rfl, rfl, fun never => (by cases never), taken, fun _ => rfl⟩

/-- A transfer is one to the file. -/
theorem Between.transfer {port : Port} {shown : Shown} (between : Between port shown)
    (transfer : Transfer) :
    Between (port.signals transfer.signals) (shown.transfer transfer) ∧
      port.replies transfer.signals = shown.file.replies transfer.message := by
  have ⟨begun, ended⟩ := between.finish
  have ⟨done, replies⟩ := begun.message ended transfer.message
  have signals : port.signals transfer.signals = (port.finishTransfer.signals
      transfer.message.signals).signals (if transfer.stopped then [.stop] else []) := by
    rw [← signals_append]
    rfl
  have replies' : port.replies transfer.signals =
      port.finishTransfer.replies transfer.message.signals := by
    rw [Transfer.signals, Port.replies]
    show port.finishTransfer.replies _ = _
    rw [replies_append]
    cases transfer.stopped <;> exact List.append_nil _
  rw [signals, replies', replies]
  cases stopped : transfer.stopped with
  | true =>
    rw [Shown.transfer, stopped, if_pos rfl, if_pos rfl]
    exact ⟨done.finish.1, rfl⟩
  | false =>
    rw [Shown.transfer, stopped, if_neg Bool.false_ne_true, if_neg Bool.false_ne_true]
    exact ⟨done, rfl⟩

/-- Transfers are those to the file. -/
theorem Between.transfers {port : Port} {shown : Shown} (between : Between port shown)
    (transfers : List Transfer) :
    Between (transfers.foldl (fun port transfer => port.signals transfer.signals) port)
        (transfers.foldl Shown.transfer shown) ∧
      port.transferReplies transfers = shown.replies transfers := by
  induction transfers generalizing port shown with
  | nil => exact ⟨between, rfl⟩
  | cons transfer transfers ih =>
    have ⟨next, replies⟩ := between.transfer transfer
    have ⟨last, rest⟩ := ih next
    refine ⟨last, ?_⟩
    rw [Port.transferReplies, Shown.replies, replies, rest]

end Signals

namespace File

variable (file : File)

/-- The bytes of a write that do not lie at an address leave it as it is. -/
theorem store_other {data : List UInt8} {address : UInt8}
    (other : ∀ index < data.length, address ≠ file.pointer + UInt8.ofNat index) :
    (data.foldl store file).cells address.toNat = file.cells address.toNat := by
  induction data generalizing file with
  | nil => rfl
  | cons byte data ih =>
    have here := other 0 (Nat.succ_pos _)
    rw [show UInt8.ofNat 0 = 0 from rfl, UInt8.add_zero] at here
    rw [List.foldl_cons, ih]
    · exact Function.update_of_ne (fun same => here (UInt8.toNat_inj.mp same)) _ _
    · intro index inside
      rw [store, UInt8.add_assoc, one_add_ofNat]
      exact other (index + 1) (Nat.succ_lt_succ inside)

/-- The bytes of a write lie one behind the other, if they do not lie over each other. -/
theorem store_inside {data : List UInt8} (fits : data.length ≤ 256) {index : Nat}
    (inside : index < data.length) :
    (data.foldl store file).cells (file.pointer + UInt8.ofNat index).toNat = data[index] := by
  induction data generalizing file index with
  | nil => cases inside
  | cons byte data ih =>
    rw [List.length_cons] at fits
    cases index with
    | zero =>
      have apart : ∀ later < data.length, file.pointer + UInt8.ofNat 0 ≠
          (file.store byte).pointer + UInt8.ofNat later := by
        intro later below same
        rw [store, UInt8.add_assoc, one_add_ofNat] at same
        have same' := congrArg UInt8.toNat ((UInt8.add_right_inj _).mp same)
        rw [UInt8.toNat_ofNat', UInt8.toNat_ofNat', Nat.mod_eq_of_lt (by omega)] at same'
        rw [Nat.mod_eq_of_lt (by omega)] at same'
        cases same'
      rw [List.foldl_cons, store_other (file.store byte) apart]
      rw [show UInt8.ofNat 0 = 0 from rfl, UInt8.add_zero]
      exact Function.update_self ..
    | succ index =>
      rw [List.foldl_cons, ← one_add_ofNat, ← UInt8.add_assoc]
      exact ih (file.store byte) (by omega) (Nat.lt_of_succ_lt_succ inside)

/-- What has been written from an address on is read from there. -/
theorem read_back (address : UInt8) {data : List UInt8} (fits : data.length ≤ 256) :
    ((file.message (.write (address :: data))).message (.write [address])).replies
      (.read data.length) = data := by
  apply List.ext_getElem
  · rw [replies, List.length_map, List.length_range]
  · intro index inside inside'
    simp only [replies, List.getElem_map, List.getElem_range]
    exact store_inside ⟨file.cells, address⟩ fits inside'

end File

/-- The device after reset. -/
def initPort (isI2cConfigured : Bool) : Port := ⟨initSlave isI2cConfigured, false⟩

/-- The file of the device after reset. -/
def initShown (isI2cConfigured : Bool) : Shown :=
  ⟨⟨initRegister isI2cConfigured, 0⟩, initRegister isI2cConfigured⟩

/-- In any sequence of transfers, with a stop or a restart behind each, the device sends what a
memory of 256 bytes with a wrapping pointer holds, stores what the memory stores, and has taken over
what has been stored until the end of the last transfer of which it knows. -/
theorem device_is_file (isI2cConfigured : Bool) (transfers : List Transfer) :
    let last := transfers.foldl (fun port transfer => port.signals transfer.signals)
      (initPort isI2cConfigured)
    let shown := transfers.foldl Shown.transfer (initShown isI2cConfigured)
    (initPort isI2cConfigured).transferReplies transfers =
        (initShown isI2cConfigured).replies transfers ∧
      last.slave.context.reg = shown.file.cells ∧
      last.slave.i2cState = stateOf shown.shown := by
  intro last shown
  have first : Between (initPort isI2cConfigured) (initShown isI2cConfigured) :=
    ⟨rfl, rfl, fun _ => rfl, rfl, fun _ => rfl⟩
  have ⟨between, replies⟩ := first.transfers transfers
  exact ⟨replies, between.cells, between.taken⟩

end Fly2040.Leds
