import Fly2040.Leds.Bus
/-!
# The adapter

A host reaches the LED device through an adapter, which takes requests from USB and is the master of
the bus. A message of the host is one request. What the request tells about the end of a transaction
is passed on the other way round: the adapter keeps the bus behind the last message and stops behind
all others, so the device takes over the last write of a host only when the next message begins.
-/

namespace Fly2040.System

open Bytes Leds

/-- Address of the LED device on the bus. -/
def i2cSlaveAddress : UInt8 := 0x52

/-- Stages of a control request. -/
inductive Stage where
  /-- The request has come. -/
  | setup
  /-- The data has been transferred. -/
  | data
  /-- The request is over. -/
  | ack
deriving DecidableEq

/-- A control request. -/
structure Request where
  /-- It is one of the vendor. -/
  vendor : Bool
  /-- Data goes to the host. -/
  deviceToHost : Bool
  /-- The command. -/
  bRequest : UInt8
  /-- A value. -/
  wValue : UInt16
  /-- An address. -/
  wIndex : UInt16
  /-- Length of the data. -/
  wLength : UInt16
deriving DecidableEq

/-- What a request transfers. -/
inductive Buffer where
  /-- The value of the request. -/
  | value
  /-- What the adapter can do. -/
  | func
  /-- The status. -/
  | status
  /-- The bytes of a message. -/
  | data
deriving DecidableEq

/-- The adapter, and the device at its bus. -/
structure Adapter where
  /-- Whether the last message has been acknowledged. -/
  i2cState : UInt8
  /-- Bytes of a message. -/
  i2cData : Vector UInt8 1024
  /-- Speed of the bus. -/
  baudrate : Nat
  /-- The device. -/
  port : Port

namespace Adapter

/-- No message yet. -/
def statusIdle : UInt8 := 0

/-- A device has acknowledged its address. -/
def statusAddressAck : UInt8 := 1

/-- No device has. -/
def statusAddressNak : UInt8 := 2

/-- What the adapter can do: transfers, and what can be made of them. -/
def i2cFunc : UInt32 := 0x8EFF0001

/-- First bytes of a message. -/
def first (adapter : Adapter) (count : Nat) : List UInt8 := adapter.i2cData.toList.take count

/-- Bytes over the first ones of a message. -/
def fill (buffer : Vector UInt8 1024) (data : List UInt8) : Vector UInt8 1024 :=
  Vector.ofFn fun index => data.getD index (buffer.get index)

/-- Send a message; a master that does not stop keeps the bus. Reserved addresses and those from
0x80 on are outside the contract of the SDK; here they find no device. -/
def i2cWriteBlocking (adapter : Adapter) (addr : UInt8) (count : Nat) (nostop : Bool) : Adapter :=
  if addr = i2cSlaveAddress then
    { adapter with
      i2cState := statusAddressAck
      port := adapter.port.signals (Transfer.signals ⟨.write (adapter.first count), !nostop⟩) }
  else
    { adapter with
      i2cState := statusAddressNak
      port := adapter.port.signals [.start, .stop] }

/-- Take a message, as the bytes that the device sends. The contract is the same, and wants a byte
at least. -/
def i2cReadBlocking (adapter : Adapter) (addr : UInt8) (count : Nat) (nostop : Bool) :
    Adapter × List UInt8 :=
  if addr = i2cSlaveAddress then
    let signals := Transfer.signals ⟨.read count, !nostop⟩
    ({ adapter with i2cState := statusAddressAck, port := adapter.port.signals signals },
      adapter.port.replies signals)
  else
    ({ adapter with
      i2cState := statusAddressNak
      port := adapter.port.signals [.start, .stop] }, [])

/-- The stage of a request that transfers a message. -/
def messageStage (adapter : Adapter) (stage : Stage) (request : Request) :
    Adapter × Bool × Option Buffer :=
  let stop : Bool := request.bRequest &&& 2 ≠ 0
  let read : Bool := request.wValue &&& 1 ≠ 0
  let addr := request.wIndex.toUInt8
  let count := request.wLength.toNat
  if stage = .ack then (adapter, true, none)
  -- an impossible request
  else if 1024 < count then (adapter, false, none)
  else if stage = .setup then
    if read then
      let (after, bytes) := adapter.i2cReadBlocking addr count stop
      ({ after with i2cData := fill adapter.i2cData bytes }, true, some .data)
    else if count = 0 then
      -- a dummy read, used for scanning the bus
      ((adapter.i2cReadBlocking addr 1 stop).1, true, some .data)
    else (adapter, true, some .data)
  else if read then (adapter, true, none)
  else (adapter.i2cWriteBlocking addr count stop, true, none)

/-- A stage of a request: the adapter after it, whether the request goes on, and what it
transfers. -/
def tudVendorControlXferCb (adapter : Adapter) (stage : Stage) (request : Request) :
    Adapter × Bool × Option Buffer :=
  if request.vendor then
    if request.bRequest = 0 then (adapter, true, if stage = .setup then some .value else none)
    else if request.bRequest = 1 then (adapter, true, if stage = .setup then some .func else none)
    else if request.bRequest = 2 then
      if stage = .setup then
        let baudrate := if request.wValue = 0 then 100000
          else min (1000000 / request.wValue.toNat) 400000
        ({ adapter with baudrate := baudrate }, true, none)
      else (adapter, true, none)
    else if request.bRequest = 3 then (adapter, true, if stage = .setup then some .status else none)
    else if request.bRequest = 4 ∨ request.bRequest = 5 ∨ request.bRequest = 6 ∨
        request.bRequest = 7 then adapter.messageStage stage request
    -- stall unknown request
    else (adapter, stage ≠ .setup, none)
  else (adapter, stage ≠ .setup, none)

/-- Bytes of a buffer. -/
def content (adapter : Adapter) (request : Request) : Buffer → List UInt8
  | .value => [request.wValue.toUInt8, (request.wValue >>> 8).toUInt8]
  | .func => (List.range 4).map fun index => (i2cFunc >>> UInt32.ofNat (8 * index)).toUInt8
  | .status => [adapter.i2cState]
  | .data => adapter.i2cData.toList

/-- Bytes of the host come into a buffer. -/
def receive (adapter : Adapter) (bytes : List UInt8) : Buffer → Adapter
  | .data => { adapter with i2cData := fill adapter.i2cData bytes }
  | .status => { adapter with i2cState := bytes.headD adapter.i2cState }
  | _ => adapter

/-- A control request with what the host sends, as the bytes that it gets, or nothing if it is
stalled. -/
def controlTransfer (adapter : Adapter) (request : Request) (sent : List UInt8) :
    Adapter × Option (List UInt8) :=
  let (after, accepted, buffer) := adapter.tudVendorControlXferCb .setup request
  if !accepted then (after, none)
  else
    let count := request.wLength.toNat
    let got := if request.deviceToHost then
      (buffer.map fun buffer => (after.content request buffer).take count).getD [] else []
    let after := if request.deviceToHost then after
      else (buffer.map (after.receive (sent.take count))).getD after
    if count = 0 then ((after.tudVendorControlXferCb .ack request).1, some got)
    else
      let (after, accepted, _) := after.tudVendorControlXferCb .data request
      if !accepted then (after, none)
      else ((after.tudVendorControlXferCb .ack request).1, some got)

end Adapter

/-- Length of a message. -/
def length : Message → Nat
  | .write data => data.length
  | .read count => count

/-- A message of a host. -/
structure HostMessage where
  /-- It is the first one of a transaction. -/
  begins : Bool
  /-- It is the last one of a transaction. -/
  ends : Bool
  /-- Address of a device. -/
  address : UInt16
  /-- The message. -/
  message : Message
  /-- The request tells its length. -/
  fits : length message < 65536
  /-- A read takes something: the SDK does not allow one of no bytes. -/
  some : message ≠ .read 0

namespace HostMessage

/-- The message is taken from a device. -/
def reads (host : HostMessage) : Bool :=
  match host.message with
  | .write _ => false
  | .read _ => true

/-- The request of a message. -/
def request (host : HostMessage) : Request where
  vendor := true
  deviceToHost := host.reads
  bRequest := 4 + (if host.begins then 1 else 0) + (if host.ends then 2 else 0)
  wValue := if host.reads then 1 else 0
  wIndex := host.address
  wLength := UInt16.ofNat (length host.message)

/-- What a host sends with a message. -/
def sent (host : HostMessage) : List UInt8 :=
  match host.message with
  | .write data => data
  | .read _ => []

/-- What becomes of a message on the bus: the adapter scans with a read. -/
def onBus (host : HostMessage) : Transfer :=
  ⟨match host.message with
    | .write [] => .read 1
    | message => message, !host.ends⟩

end HostMessage

/-- What a message does to the file of the device: one that is too long does nothing, and one to
another device only lets the device know that the last transfer is over. -/
def hostShown (shown : Shown) (host : HostMessage) : Shown :=
  if 1024 < length host.message then shown
  else if host.address.toUInt8 = i2cSlaveAddress then shown.transfer host.onBus
  else ⟨shown.file, shown.file.cells⟩

/-- What a host gets: nothing if a message is too long, else whether a device has acknowledged it,
and the bytes if one has. -/
def Answers (shown : Shown) (host : HostMessage) (status : UInt8) : Option (List UInt8) → Prop
  | none => 1024 < length host.message
  | some bytes => length host.message ≤ 1024 ∧
      if host.address.toUInt8 = i2cSlaveAddress then
        status = Adapter.statusAddressAck ∧ bytes = shown.file.replies host.message
      else status = Adapter.statusAddressNak

section Buffers

/-- The first bytes are those that have been filled in. -/
theorem first_fill (adapter : Adapter) {data : List UInt8} (fits : data.length ≤ 1024) :
    (Adapter.fill adapter.i2cData data).toList.take data.length = data := by
  apply List.ext_getElem
  · simp [fits]
  · intro index inside inside'
    rw [List.getElem_take]
    simp [Adapter.fill, inside']

end Buffers

section Requests

variable (adapter : Adapter) (host : HostMessage)

/-- The length of a message is that of its request. -/
theorem request_length : host.request.wLength.toNat = length host.message := by
  show (UInt16.ofNat (length host.message)).toNat = _
  rw [UInt16.toNat_ofNat']
  exact Nat.mod_eq_of_lt host.fits

/-- A request that is the last one of a transaction says so. -/
theorem request_ends : decide (host.request.bRequest &&& 2 ≠ 0) = host.ends := by
  show decide ((4 + (if host.begins then 1 else 0) + (if host.ends then 2 else 0) : UInt8) &&& 2 ≠
    0) = host.ends
  cases host.begins <;> cases host.ends <;> decide

/-- A request to read says so. -/
theorem request_reads : decide (host.request.wValue &&& 1 ≠ 0) = host.reads := by
  show decide ((if host.reads then 1 else 0 : UInt16) &&& 1 ≠ 0) = host.reads
  cases host.reads <;> decide

/-- The request of a message is one that transfers a message. -/
theorem xferCb_message (stage : Stage) :
    adapter.tudVendorControlXferCb stage host.request =
      adapter.messageStage stage host.request := by
  have commands : host.request.bRequest = 4 ∨ host.request.bRequest = 5 ∨
      host.request.bRequest = 6 ∨ host.request.bRequest = 7 := by
    have some (begins ends : Bool) :
        let command : UInt8 := 4 + (if begins then 1 else 0) + (if ends then 2 else 0)
        command = 4 ∨ command = 5 ∨ command = 6 ∨ command = 7 := by
      cases begins <;> cases ends <;> decide
    exact some host.begins host.ends
  have vendor : host.request.vendor = true := rfl
  rw [Adapter.tudVendorControlXferCb, if_pos vendor]
  rcases commands with same | same | same | same <;> simp [same]

/-- A stage of a message. -/
theorem messageStage_request (stage : Stage) :
    adapter.messageStage stage host.request =
      if stage = .ack then (adapter, true, none)
      else if 1024 < length host.message then (adapter, false, none)
      else if stage = .setup then
        if host.reads then
          let (after, bytes) := adapter.i2cReadBlocking host.address.toUInt8 (length host.message)
            host.ends
          ({ after with i2cData := Adapter.fill adapter.i2cData bytes }, true, some .data)
        else if length host.message = 0 then
          ((adapter.i2cReadBlocking host.address.toUInt8 1 host.ends).1, true, some .data)
        else (adapter, true, some .data)
      else if host.reads then (adapter, true, none)
      else (adapter.i2cWriteBlocking host.address.toUInt8 (length host.message) host.ends, true,
        none) := by
  rw [Adapter.messageStage]
  dsimp only
  rw [request_length, request_ends, request_reads]
  rfl

/-- A request that is too long is refused, and does nothing. -/
theorem controlTransfer_long (long : 1024 < length host.message) :
    adapter.controlTransfer host.request host.sent = (adapter, none) := by
  rw [Adapter.controlTransfer, xferCb_message, messageStage_request, if_neg (by decide),
    if_pos long]
  rfl

variable {host}

/-- A read of a host takes bytes from the bus. -/
theorem controlTransfer_read {count : Nat} (read : host.message = .read count) (some : count ≠ 0)
    (fits : count ≤ 1024) :
    let read := adapter.i2cReadBlocking host.address.toUInt8 count host.ends
    adapter.controlTransfer host.request host.sent =
      ({ read.1 with i2cData := Adapter.fill adapter.i2cData read.2 },
        Option.some ((Adapter.fill adapter.i2cData read.2).toList.take count)) := by
  have reads : host.reads = true := by rw [HostMessage.reads, read]
  have size : length host.message = count := by rw [read]; rfl
  have toHost : host.request.deviceToHost = true := reads
  have short : ¬1024 < count := Nat.not_lt_of_le fits
  rw [Adapter.controlTransfer]
  simp [xferCb_message, messageStage_request, reads, size, toHost, short, some, request_length,
    Adapter.content]

/-- A scan of a host takes a byte from the bus. -/
theorem controlTransfer_scan (scan : host.message = .write []) :
    ∃ i2cData, adapter.controlTransfer host.request host.sent =
      ({ (adapter.i2cReadBlocking host.address.toUInt8 1 host.ends).1 with i2cData := i2cData },
        Option.some []) := by
  have reads : host.reads = false := by rw [HostMessage.reads, scan]
  have size : length host.message = 0 := by rw [scan]; rfl
  have toHost : host.request.deviceToHost = false := reads
  rw [Adapter.controlTransfer]
  simp [xferCb_message, messageStage_request, reads, size, toHost, request_length, Adapter.receive]

/-- A write of a host sends bytes to the bus. -/
theorem controlTransfer_write {data : List UInt8} (write : host.message = .write data)
    (some : data ≠ []) (fits : data.length ≤ 1024) :
    let filled := { adapter with i2cData := Adapter.fill adapter.i2cData data }
    adapter.controlTransfer host.request host.sent =
      (filled.i2cWriteBlocking host.address.toUInt8 data.length host.ends, Option.some []) := by
  have reads : host.reads = false := by rw [HostMessage.reads, write]
  have size : length host.message = data.length := by rw [write]; rfl
  have sent : host.sent = data := by rw [HostMessage.sent, write]
  have toHost : host.request.deviceToHost = false := reads
  have short : ¬1024 < data.length := Nat.not_lt_of_le fits
  rw [Adapter.controlTransfer]
  simp [xferCb_message, messageStage_request, reads, size, toHost, short, some, request_length,
    Adapter.receive, sent]

end Requests

section Steps

variable {adapter : Adapter} {shown : Shown}

/-- A transfer to another device lets the device know that the last one is over. -/
theorem signals_other {port : Port} (between : Between port shown) :
    Between (port.signals [.start, .stop]) ⟨shown.file, shown.file.cells⟩ :=
  between.finish.1.finish.1

/-- A read sends what the file holds. -/
theorem i2cRead_between (between : Between adapter.port shown) (addr : UInt8) (count : Nat)
    (nostop : Bool) :
    let read := adapter.i2cReadBlocking addr count nostop
    if addr = i2cSlaveAddress then
      Between read.1.port (shown.transfer ⟨.read count, !nostop⟩) ∧
        read.1.i2cState = Adapter.statusAddressAck ∧ read.2 = shown.file.replies (.read count)
    else Between read.1.port ⟨shown.file, shown.file.cells⟩ ∧
      read.1.i2cState = Adapter.statusAddressNak := by
  rw [Adapter.i2cReadBlocking]
  dsimp only
  by_cases device : addr = i2cSlaveAddress
  · rw [if_pos device, if_pos device]
    have ⟨next, replies⟩ := between.transfer ⟨.read count, !nostop⟩
    exact ⟨next, rfl, replies⟩
  · rw [if_neg device, if_neg device]
    exact ⟨signals_other between, rfl⟩

/-- A write stores what has been filled in. -/
theorem i2cWrite_between (between : Between adapter.port shown) (addr : UInt8) (count : Nat)
    (nostop : Bool) :
    let after := adapter.i2cWriteBlocking addr count nostop
    if addr = i2cSlaveAddress then
      Between after.port (shown.transfer ⟨.write (adapter.first count), !nostop⟩) ∧
        after.i2cState = Adapter.statusAddressAck
    else Between after.port ⟨shown.file, shown.file.cells⟩ ∧
      after.i2cState = Adapter.statusAddressNak := by
  rw [Adapter.i2cWriteBlocking]
  dsimp only
  by_cases device : addr = i2cSlaveAddress
  · rw [if_pos device, if_pos device]
    exact ⟨(between.transfer _).1, rfl⟩
  · rw [if_neg device, if_neg device]
    exact ⟨signals_other between, rfl⟩

/-- A read takes as many bytes as it is to take. -/
theorem replies_length (file : File) (count : Nat) :
    (file.replies (.read count)).length = count := by
  rw [File.replies, List.length_map, List.length_range]

/-- A message of a host is one to the file. -/
theorem host_step (between : Between adapter.port shown) (host : HostMessage) :
    let done := adapter.controlTransfer host.request host.sent
    Between done.1.port (hostShown shown host) ∧ Answers shown host done.1.i2cState done.2 := by
  by_cases long : 1024 < length host.message
  · rw [controlTransfer_long adapter host long, hostShown, if_pos long]
    exact ⟨between, long⟩
  have fits := Nat.le_of_not_lt long
  rw [hostShown, if_neg long]
  cases message : host.message with
  | read count =>
    have size : length host.message = count := by rw [message]; rfl
    have some : count ≠ 0 := fun none => host.some (by rw [message, none])
    have bus : host.onBus = ⟨.read count, !host.ends⟩ := by rw [HostMessage.onBus, message]
    have read := i2cRead_between between host.address.toUInt8 count host.ends
    rw [controlTransfer_read adapter message some (size ▸ fits), bus]
    dsimp only [Answers] at read ⊢
    rw [message]
    by_cases device : host.address.toUInt8 = i2cSlaveAddress
    · rw [if_pos device] at read ⊢
      rw [if_pos device]
      have length := replies_length shown.file count
      rw [← read.2.2] at length
      have first := first_fill adapter (length.trans_le (size ▸ fits))
      rw [length] at first
      exact ⟨read.1, size ▸ fits, read.2.1, first.trans read.2.2⟩
    · rw [if_neg device] at read ⊢
      rw [if_neg device]
      exact ⟨read.1, size ▸ fits, read.2⟩
  | write data =>
    have size : length host.message = data.length := by rw [message]; rfl
    by_cases scan : data = []
    · rw [scan] at message
      have bus : host.onBus = ⟨.read 1, !host.ends⟩ := by rw [HostMessage.onBus, message]
      have ⟨i2cData, scanned⟩ := controlTransfer_scan adapter message
      have read := i2cRead_between between host.address.toUInt8 1 host.ends
      rw [scanned, bus]
      dsimp only [Answers] at read ⊢
      rw [message]
      by_cases device : host.address.toUInt8 = i2cSlaveAddress
      · rw [if_pos device] at read ⊢
        rw [if_pos device]
        exact ⟨read.1, Nat.zero_le _, read.2.1, rfl⟩
      · rw [if_neg device] at read ⊢
        rw [if_neg device]
        exact ⟨read.1, Nat.zero_le _, read.2⟩
    · have bus : host.onBus = ⟨.write data, !host.ends⟩ := by
        rw [HostMessage.onBus, message]
        cases data with
        | nil => exact absurd rfl scan
        | cons byte data => rfl
      have short : data.length ≤ 1024 := size ▸ fits
      have write := @i2cWrite_between
        { adapter with i2cData := Adapter.fill adapter.i2cData data } shown between
        host.address.toUInt8 data.length host.ends
      have first : Adapter.first { adapter with i2cData := Adapter.fill adapter.i2cData data }
          data.length = data := first_fill adapter short
      rw [first] at write
      rw [controlTransfer_write adapter message scan short, bus]
      dsimp only [Answers] at write ⊢
      rw [message]
      by_cases device : host.address.toUInt8 = i2cSlaveAddress
      · rw [if_pos device] at write ⊢
        rw [if_pos device]
        exact ⟨write.1, short, write.2, rfl⟩
      · rw [if_neg device] at write ⊢
        rw [if_neg device]
        exact ⟨write.1, short, write.2⟩

end Steps

/-- The messages of a host are answered one after the other as a file answers them, and the device
takes over what has been written as it is told that a transfer is over. -/
def Served : Adapter → Shown → List HostMessage → Prop
  | _, _, [] => True
  | adapter, shown, host :: rest =>
    let done := adapter.controlTransfer host.request host.sent
    let next := hostShown shown host
    Answers shown host done.1.i2cState done.2 ∧ done.1.port.slave.context.reg = next.file.cells ∧
      done.1.port.slave.i2cState = stateOf next.shown ∧ Served done.1 next rest

/-- The adapter after reset, with the device at its bus. -/
def initAdapter (isI2cConfigured : Bool) : Adapter where
  i2cState := Adapter.statusIdle
  i2cData := Vector.replicate 1024 0
  baudrate := 100000
  port := initPort isI2cConfigured

/-- The adapter and the device after some messages. -/
def served (adapter : Adapter) (hosts : List HostMessage) : Adapter :=
  hosts.foldl (fun adapter host => (adapter.controlTransfer host.request host.sent).1) adapter

/-- Any sequence of messages of a host, whatever their lengths, flags and addresses, is served as by
a file: a message that is too long is refused and does nothing, one to another device is not
acknowledged, and a message that ends a transaction is taken over when the next one begins. -/
theorem host_served (isI2cConfigured : Bool) (hosts : List HostMessage) :
    Served (initAdapter isI2cConfigured) (initShown isI2cConfigured) hosts := by
  have first : Between (initAdapter isI2cConfigured).port (initShown isI2cConfigured) :=
    ⟨rfl, rfl, fun _ => rfl, rfl, fun _ => rfl⟩
  generalize initAdapter isI2cConfigured = adapter at first
  generalize initShown isI2cConfigured = shown at first
  induction hosts generalizing adapter shown with
  | nil => trivial
  | cons host rest ih =>
    have ⟨next, answer⟩ := host_step first host
    exact ⟨answer, next.cells, next.taken, ih _ _ next⟩

/-- After any messages, the device is a file of which some bytes have been taken over. -/
theorem served_between (isI2cConfigured : Bool) (hosts : List HostMessage) :
    ∃ shown, Between (served (initAdapter isI2cConfigured) hosts).port shown := by
  have first : Between (initAdapter isI2cConfigured).port (initShown isI2cConfigured) :=
    ⟨rfl, rfl, fun _ => rfl, rfl, fun _ => rfl⟩
  generalize initAdapter isI2cConfigured = adapter at first
  generalize initShown isI2cConfigured = shown at first
  induction hosts generalizing adapter shown with
  | nil => exact ⟨shown, first⟩
  | cons host rest ih => exact ih _ _ (host_step first host).1

/-- A message to the device, with its flags. -/
def deviceMessage (begins ends : Bool) (message : Message) (fits : length message < 65536)
    (some : message ≠ .read 0) : HostMessage :=
  ⟨begins, ends, 0x52, message, fits, some⟩

/-- Its address is that of the device. -/
theorem deviceMessage_address (begins ends : Bool) (message : Message)
    (fits : length message < 65536) (some : message ≠ .read 0) :
    (deviceMessage begins ends message fits some).address.toUInt8 = i2cSlaveAddress := by
  show (0x52 : UInt16).toUInt8 = i2cSlaveAddress
  decide

/-- A write of some bytes to the device is one to its file. -/
theorem hostShown_write (shown : Shown) (begins ends : Bool) (byte : UInt8) {data : List UInt8}
    (short : data.length < 1024) (fits : length (.write (byte :: data)) < 65536)
    (some : Message.write (byte :: data) ≠ .read 0) :
    (hostShown shown (deviceMessage begins ends (.write (byte :: data)) fits some)).file =
      shown.file.message (.write (byte :: data)) := by
  have short' :
      ¬1024 < length (deviceMessage begins ends (.write (byte :: data)) fits some).message :=
    Nat.not_lt_of_le (Nat.succ_le_of_lt short)
  rw [hostShown, if_neg short', if_pos (deviceMessage_address ..)]
  rfl

/-- A read of the device is answered by its file. -/
theorem answers_read {shown : Shown} {begins ends : Bool} {count : Nat}
    (short : count ≤ 1024) {fits : length (.read count) < 65536}
    {some : Message.read count ≠ .read 0} {status : UInt8} {answer : Option (List UInt8)}
    (answers : Answers shown (deviceMessage begins ends (.read count) fits some) status answer) :
    answer = Option.some (shown.file.replies (.read count)) := by
  cases answer with
  | none => exact absurd answers (Nat.not_lt_of_le short)
  | some bytes =>
    have rest := answers.2
    rw [if_pos (deviceMessage_address ..)] at rest
    exact congrArg _ rest.2

/-- A block of data, at most as large as the memory of the device, is read back as it has been
written, whatever has been done before and whatever flags the messages have. -/
theorem block_read_back (isI2cConfigured : Bool) (hosts : List HostMessage) (address : UInt8)
    {data : List UInt8} (some : data ≠ []) (fits : data.length ≤ 256)
    (first second third : Bool × Bool) :
    let write := deviceMessage first.1 first.2 (.write (address :: data))
      (by simp only [length, List.length_cons]; omega) (by simp)
    let point := deviceMessage second.1 second.2 (.write [address])
      (show 1 < 65536 by decide) (by simp)
    let read := deviceMessage third.1 third.2 (.read data.length)
      (by simp only [length]; omega) (by simpa using some)
    let before := served (initAdapter isI2cConfigured) (hosts ++ [write, point])
    (before.controlTransfer read.request read.sent).2 = Option.some data := by
  intro write point read before
  have ⟨shown, between⟩ := served_between isI2cConfigured hosts
  have ⟨written, _⟩ := host_step between write
  have ⟨pointed, _⟩ := host_step written point
  have ⟨_, answer⟩ := host_step pointed read
  have before_eq : before = ((((served (initAdapter isI2cConfigured) hosts).controlTransfer
      write.request write.sent).1).controlTransfer point.request point.sent).1 := by
    show List.foldl _ _ _ = _
    rw [List.foldl_append]
    rfl
  have stored : (hostShown shown write).file = shown.file.message (.write (address :: data)) :=
    hostShown_write _ _ _ _ (by omega) _ _
  have selected : (hostShown (hostShown shown write) point).file =
      (hostShown shown write).file.message (.write [address]) :=
    hostShown_write _ _ _ _ (show ([] : List UInt8).length < 1024 by decide) _ _
  rw [before_eq, answers_read (by omega) answer, selected, stored,
    shown.file.read_back address fits]

/-- A block that wraps is read back. -/
theorem wrapped_block_read_back :
    let write := deviceMessage true true (.write [255, 1, 2, 3]) (by decide) (by decide)
    let point := deviceMessage true false (.write [255]) (by decide) (by decide)
    let read := deviceMessage false true (.read 3) (by decide) (by decide)
    let before := served (initAdapter false) ([] ++ [write, point])
    (before.controlTransfer read.request read.sent).2 = some [1, 2, 3] :=
  @block_read_back false [] 255 [1, 2, 3] (by decide) (by decide) (true, true) (true, false)
    (false, true)

end Fly2040.System
