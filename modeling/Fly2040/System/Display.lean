import Fly2040.Leds.Strip
import Fly2040.System.Adapter
/-!
# From a host to the strip

What a host writes reaches the device signal by signal, and between any two signals the loop may
take steps, which only reset the flag that the interrupt handler sets. So the device holds what the
messages leave, whatever the order. Once the bus is quiet for four steps of the loop, which is one
pass that is not yet limited and one test, every frame is drawn from what has been taken over last.
-/

namespace Fly2040.System

open Bytes Checked Leds Pulses

/-- What happens at the device. -/
inductive Move where
  /-- The master signals on the bus. -/
  | signal (signal : Signal)
  /-- The loop takes a step at a time. -/
  | loop (now : UInt32)

/-- The device, and what is at its bus. -/
structure Rig where
  /-- The device. -/
  device : Device
  /-- Bytes have been transferred since the handler has been told that a transfer is over. -/
  transferInProgress : Bool

/-- What the bus sees of the device. -/
def Rig.port (rig : Rig) : Port := ⟨rig.device.slave, rig.transferInProgress⟩

/-- A signal of the master. -/
def Rig.signal (rig : Rig) (signal : Signal) : Rig where
  device := { rig.device with slave := (rig.port.signal signal).slave }
  transferInProgress := (rig.port.signal signal).transferInProgress

/-- A move of the bus or of the loop. -/
def Rig.move (sin : ℚ → ℚ) (rig : Rig) : Move → Except Fault Rig
  | .signal signal => .ok (rig.signal signal)
  | .loop now => do
    let device ← ledsMode sin rig.device now
    return { rig with device := device }

/-- Moves one after the other. -/
def Rig.run (sin : ℚ → ℚ) (rig : Rig) (moves : List Move) : Except Fault Rig :=
  moves.foldlM (Rig.move sin) rig

/-- Signals of some moves. -/
def signalsOf (moves : List Move) : List Signal :=
  moves.filterMap fun move => match move with
    | .signal signal => some signal
    | .loop _ => none

/-- The device after reset. -/
def initRig (isI2cConfigured : Bool) : Rig := ⟨initDevice isI2cConfigured, false⟩

section Signals

/-- A device but for the flag, which the loop resets. -/
def unflagged (port : Port) : Port := { port with slave.context.updateReady := false }

/-- A signal does not depend on the flag. -/
theorem unflagged_signal (port : Port) (signal : Signal) :
    unflagged (port.signal signal) = unflagged ((unflagged port).signal signal) := by
  obtain ⟨⟨⟨reg, memAddress, memAddressWritten, updateReady, write⟩, i2cState⟩, inProgress⟩ := port
  cases signal with
  | start => cases inProgress <;> cases write <;> rfl
  | stop => cases inProgress <;> cases write <;> rfl
  | send byte => cases memAddressWritten <;> rfl
  | take => rfl

/-- Signals do not depend on it. -/
theorem unflagged_signals {port port' : Port} (same : unflagged port = unflagged port')
    (signals : List Signal) :
    unflagged (port.signals signals) = unflagged (port'.signals signals) := by
  induction signals generalizing port port' with
  | nil => exact same
  | cons signal rest ih =>
    apply ih
    rw [unflagged_signal port, unflagged_signal port', same]

/-- What the device holds and has taken over does not depend on it. -/
theorem between_unflagged {port port' : Port} {shown : Shown}
    (same : unflagged port = unflagged port') (between : Between port shown) :
    Between port' shown := by
  have bare : Between (unflagged port) shown :=
    ⟨between.cells, between.pointer, between.addressed, between.taken, between.whole⟩
  rw [same] at bare
  exact ⟨bare.cells, bare.pointer, bare.addressed, bare.taken, bare.whole⟩

/-- All that is published on the way through some signals is allowed. -/
def Publishes (allowed : RgbState → Prop) : Port → List Signal → Prop
  | port, [] => allowed port.slave.i2cState
  | port, signal :: rest =>
    allowed port.slave.i2cState ∧ Publishes allowed (port.signal signal) rest

variable {allowed : RgbState → Prop}

/-- What is published first. -/
theorem Publishes.first {port : Port} {signals : List Signal}
    (publishes : Publishes allowed port signals) : allowed port.slave.i2cState := by
  cases signals with
  | nil => exact publishes
  | cons signal rest => exact publishes.1

/-- Signals one after the other. -/
theorem Publishes.append {port : Port} {front back : List Signal}
    (early : Publishes allowed port front)
    (late : Publishes allowed (port.signals front) back) :
    Publishes allowed port (front ++ back) := by
  induction front generalizing port with
  | nil => exact late
  | cons signal front ih => exact ⟨early.1, ih early.2 late⟩

/-- The loop publishes nothing. -/
theorem Publishes.unflagged {port port' : Port} {signals : List Signal}
    (publishes : Publishes allowed port signals)
    (same : System.unflagged port = System.unflagged port') :
    Publishes allowed port' signals := by
  have published {left right : Port} (same : System.unflagged left = System.unflagged right) :
      left.slave.i2cState = right.slave.i2cState :=
    congrArg (fun port => port.slave.i2cState) same
  induction signals generalizing port port' with
  | nil =>
    rw [Publishes, ← published same]
    exact publishes
  | cons signal rest ih =>
    rw [Publishes, ← published same]
    exact ⟨publishes.1, ih publishes.2 (unflagged_signals same [signal])⟩

/-- The bytes of a message publish nothing. -/
theorem publishes_message {port : Port} (message : Message)
    (now : allowed port.slave.i2cState) : Publishes allowed port message.signals := by
  have bytes {signals : List Signal} (inside : ∀ signal ∈ signals,
      signal = .take ∨ ∃ byte, signal = .send byte) : Publishes allowed port signals := by
    induction signals generalizing port with
    | nil => exact now
    | cons signal rest ih =>
      refine ⟨now, ih ?_ fun other later => inside other (List.mem_cons_of_mem _ later)⟩
      rcases inside signal List.mem_cons_self with same | ⟨byte, same⟩
      · rw [same]
        exact now
      · rw [same]
        show allowed (slaveHandler port.slave (.receive byte)).i2cState
        rw [slaveHandler]
        split <;> exact now
  apply bytes
  cases message with
  | write data =>
    intro signal inside
    obtain ⟨byte, _, same⟩ := List.mem_map.mp inside
    exact .inr ⟨byte, same.symm⟩
  | read count =>
    intro signal inside
    exact .inl (List.eq_of_mem_replicate inside)

/-- A transfer publishes what has been written before and, if it is stopped, what it writes. -/
theorem publishes_transfer {port : Port} {shown : Shown} (between : Between port shown)
    (transfer : Transfer) (now : allowed (stateOf shown.shown))
    (before : allowed (stateOf shown.file.cells))
    (behind : allowed (stateOf (shown.transfer transfer).file.cells)) :
    Publishes allowed port transfer.signals := by
  have ⟨begun, ended⟩ := between.finish
  have ⟨done, _⟩ := begun.message ended transfer.message
  have started : allowed port.finishTransfer.slave.i2cState := by
    rw [begun.taken]
    exact before
  have sent : allowed (port.finishTransfer.signals transfer.message.signals).slave.i2cState := by
    rw [done.taken]
    exact before
  refine ⟨by rw [between.taken]; exact now, ?_⟩
  apply (publishes_message transfer.message started).append
  cases transfer.stopped with
  | true =>
    refine ⟨sent, ?_⟩
    show allowed (port.finishTransfer.signals transfer.message.signals).finishTransfer.slave.i2cState
    rw [done.finish.1.taken]
    exact behind
  | false => exact sent

end Signals

section Loop

variable {sin : ℚ → ℚ} {initial : RgbState} {device : Device}

/-- What is drawn of published registers: they are limited, unless they are those after reset and
have never been taken. -/
def Drawn (initial published state : RgbState) : Prop :=
  state = clampState published ∨ published = initial ∧ state = initial

/-- What the loop has taken, unless published registers wait for it. -/
structure Taken (initial : RgbState) (device : Device) : Prop where
  /-- The loop takes what waits. -/
  copy : device.stage = .copy → device.slave.context.updateReady = true
  /-- What it has just taken. -/
  limit : device.stage = .limit → device.slave.context.updateReady = false →
    device.state = device.slave.i2cState
  /-- What it draws. -/
  state : device.stage ≠ .limit → device.slave.context.updateReady = false →
    Drawn initial device.slave.i2cState device.state

/-- Steps of the loop until it has taken what waits. -/
def awaited (device : Device) : Nat :=
  if device.slave.context.updateReady then
    match device.stage with
    | .copy => 1
    | .test => 2
    | .frame => 3
    | .limit => 4
  else 0

/-- Nothing waits if there is nothing to await. -/
theorem unready_of_awaited (none : awaited device = 0) :
    device.slave.context.updateReady = false := by
  rw [awaited] at none
  cases ready : device.slave.context.updateReady with
  | false => rfl
  | true =>
    rw [if_pos ready] at none
    cases stage : device.stage <;> rw [stage] at none <;> cases none

/-- At most a pass is awaited. -/
theorem awaited_le (device : Device) : awaited device ≤ 4 := by
  rw [awaited]
  split
  · cases device.stage <;> decide
  · exact Nat.zero_le 4

/-- A step of the loop takes what waits, and resets the flag only. -/
theorem Taken.loop (taken : Taken initial device) {now : UInt32} {later : Device}
    (ran : ledsMode sin device now = .ok later) :
    Taken initial later ∧ (∀ inProgress,
      unflagged ⟨device.slave, inProgress⟩ = unflagged ⟨later.slave, inProgress⟩) ∧
      awaited later = awaited device - 1 := by
  cases stage : device.stage with
  | test =>
    rw [ledsMode_test stage] at ran
    cases ran
    have state := taken.state (by rw [stage]; decide)
    cases ready : device.slave.context.updateReady with
    | true =>
      refine ⟨⟨fun _ => ready, fun never => absurd never (by simp), fun _ none => ?_⟩,
        fun _ => rfl, ?_⟩
      · exact absurd (ready.symm.trans none) (by decide)
      · simp [awaited, ready, stage]
    | false =>
      refine ⟨⟨fun never => absurd never (by simp), fun never => absurd never (by simp),
        fun _ none => state none⟩, fun _ => rfl, ?_⟩
      simp [awaited, ready]
  | copy =>
    rw [ledsMode_copy stage] at ran
    cases ran
    refine ⟨⟨fun never => absurd never (by simp), fun _ _ => rfl,
      fun never => absurd rfl never⟩, fun _ => rfl, ?_⟩
    simp [awaited, taken.copy stage, stage]
  | limit =>
    rw [ledsMode_limit stage] at ran
    cases ran
    refine ⟨⟨fun never => absurd never (by simp), fun never => absurd never (by simp),
      fun _ none => .inl (congrArg clampState (taken.limit stage none))⟩, fun _ => rfl, ?_⟩
    cases ready : device.slave.context.updateReady <;> simp [awaited, ready, stage]
  | frame =>
    have ⟨pixels, shifted, same⟩ := ledsMode_frame stage ran
    have state := taken.state (by rw [stage]; decide)
    subst same
    refine ⟨⟨fun never => absurd never (by simp), fun never => absurd never (by simp),
      fun _ none => state none⟩, fun _ => rfl, ?_⟩
    cases ready : device.slave.context.updateReady <;> simp [awaited, ready, stage]

/-- What the loop has taken after an event, unless the handler has just published registers. -/
theorem Taken.event (taken : Taken initial device) (event : Event) :
    Taken initial { device with slave := slaveHandler device.slave event } := by
  have quiet {slave : Slave} (ready : slave.context.updateReady = device.slave.context.updateReady)
      (published : slave.i2cState = device.slave.i2cState) :
      Taken initial { device with slave := slave } := by
    refine ⟨fun stage => ready.trans (taken.copy stage), fun stage none => ?_,
      fun stage none => ?_⟩
    · exact (taken.limit stage (ready.symm.trans none)).trans published.symm
    · rw [published]
      exact taken.state stage (ready.symm.trans none)
  cases event with
  | receive byte =>
    rw [slaveHandler]
    split <;> exact quiet rfl rfl
  | request => exact quiet rfl rfl
  | finish =>
    rw [slaveHandler]
    split
    · exact ⟨fun _ => rfl, fun _ never => (by cases never), fun _ never => (by cases never)⟩
    · exact quiet rfl rfl

/-- What it has taken after a signal. -/
theorem Taken.signal {rig : Rig} (taken : Taken initial rig.device) (signal : Signal) :
    Taken initial (rig.signal signal).device := by
  have finished : Taken initial { rig.device with slave := rig.port.finishTransfer.slave } := by
    rw [Port.finishTransfer]
    split
    · exact taken.event .finish
    · exact taken
  cases signal with
  | start => exact finished
  | stop => exact finished
  | send byte => exact taken.event (.receive byte)
  | take => exact taken.event .request

/-- If all that is published is drawable, no move faults, and the device holds and publishes what
the signals say. -/
theorem run_ok {rig : Rig} (frame : FrameInvariant rig.device) (taken : Taken initial rig.device)
    {moves : List Move} (publishes : Publishes Drawable rig.port (signalsOf moves)) :
    ∃ later, rig.run sin moves = .ok later ∧ FrameInvariant later.device ∧
      Taken initial later.device ∧
      unflagged (rig.port.signals (signalsOf moves)) = unflagged later.port := by
  induction moves generalizing rig with
  | nil => exact ⟨rig, rfl, frame, taken, rfl⟩
  | cons move rest ih =>
    cases move with
    | signal signal =>
      have frame' : FrameInvariant (rig.signal signal).device := ⟨frame.drawable, frame.fits⟩
      exact ih frame' (taken.signal signal) publishes.2
    | loop now =>
      have ⟨device, ran, frame'⟩ := ledsMode_ok frame (fun _ => publishes.first) sin now
      have ⟨taken', same, _⟩ := taken.loop ran
      have flagged : unflagged rig.port = unflagged (Rig.port { rig with device := device }) :=
        same rig.transferInProgress
      have ⟨later, went, frame'', taken'', last⟩ :=
        @ih { rig with device := device } frame' taken' (publishes.unflagged flagged)
      refine ⟨later, ?_, frame'', taken'', (unflagged_signals flagged _).trans last⟩
      rw [Rig.run, List.foldlM_cons, Rig.move, ran]
      exact went

/-- While the bus is quiet, the loop goes on, and takes what waits. -/
theorem quiet_ok (frame : FrameInvariant device) (taken : Taken initial device)
    (drawable : Drawable device.slave.i2cState) (times : List UInt32) :
    ∃ quiet, ledsRun sin device (times.map .advance) = .ok quiet ∧ FrameInvariant quiet ∧
      Taken initial quiet ∧ quiet.slave.i2cState = device.slave.i2cState ∧
      awaited quiet = awaited device - times.length := by
  induction times generalizing device with
  | nil => exact ⟨device, rfl, frame, taken, rfl, rfl⟩
  | cons now rest ih =>
    have ⟨next, ran, frame'⟩ := ledsMode_ok frame (fun _ => drawable) sin now
    have ⟨taken', same, fewer⟩ := taken.loop ran
    have published : device.slave.i2cState = next.slave.i2cState :=
      congrArg (fun port => port.slave.i2cState) (same false)
    have ⟨quiet, went, frame'', taken'', last, left⟩ := ih frame' taken' (published ▸ drawable)
    refine ⟨quiet, (ledsRun_advance ran _).trans went, frame'', taken'',
      last.trans published.symm, ?_⟩
    rw [left, fewer, List.length_cons]
    omega

/-- Behind a frame comes a test, so of two steps one draws a frame. -/
theorem frame_next (taken : Taken initial device) (none : device.slave.context.updateReady = false)
    (stage : device.stage ≠ .frame) (now : UInt32) :
    ∃ next, ledsMode sin device now = .ok next ∧ next.stage = .frame := by
  cases place : device.stage with
  | test =>
    refine ⟨_, ledsMode_test place sin now, ?_⟩
    rw [none]
    rfl
  | copy => exact absurd ((taken.copy place).symm.trans none) (by decide)
  | limit => exact ⟨_, ledsMode_limit place sin now, rfl⟩
  | frame => exact absurd place stage

/-- The strip shows a frame of a state: from some cycle on, its LEDs have the colours of the pixels
that are drawn from the state. -/
def Lit (sin : ℚ → ℚ) (device : Device) (state : RgbState) : Prop :=
  ∀ (now x y : UInt32) (turns : Nat → Nat), (∀ time, ∃ later, time ≤ later ∧ 0 < turns later) →
    ∃ later, ledsMode sin device now = .ok later ∧
      draw sin device.ms state device.pixels = .ok later.pixels ∧
      ∃ count, ∀ more, takeColours state.numPixels.toNat
          (read ((Sm.step (ws2812ProgramInit false turns))^[count + more]
            (stripStart x y later.shifted)).wave) =
        (later.pixels.toList.take state.numPixels.toNat).map pixelBits

/-- A frame of a drawable state is shown. -/
theorem lit_frame (frame : FrameInvariant device) (stage : device.stage = .frame) :
    Lit sin device device.state := by
  intro now x y turns often
  have fits := frame.fits (by rw [stage]; decide)
  have ⟨later, ran⟩ := ledsMode_drawable stage frame.drawable fits sin now
  exact ⟨later, ran, (ledsMode_drawn stage fits ran).1, frame_read stage fits ran x y often⟩

/-- Once the bus has been quiet for four steps of the loop, of two steps one draws a frame, and the
strip shows every frame, drawn from what has been published last. -/
theorem quiet_lit (frame : FrameInvariant device) (taken : Taken initial device)
    (drawable : Drawable device.slave.i2cState) {times : List UInt32} (late : 4 ≤ times.length) :
    ∃ quiet, ledsRun sin device (times.map .advance) = .ok quiet ∧
      (quiet.stage = .frame →
        Drawn initial device.slave.i2cState quiet.state ∧ Lit sin quiet quiet.state) ∧
      (quiet.stage ≠ .frame → ∀ now, ∃ next, ledsMode sin quiet now = .ok next ∧
        next.stage = .frame) := by
  have ⟨quiet, went, frame', taken', published, left⟩ :=
    @quiet_ok sin _ device frame taken drawable times
  have none : quiet.slave.context.updateReady = false := by
    apply unready_of_awaited
    have few := awaited_le device
    omega
  refine ⟨quiet, went, fun stage => ⟨?_, lit_frame frame' stage⟩,
    fun stage now => frame_next taken' none stage now⟩
  have drawn := taken'.state (by rw [stage]; decide) none
  rw [published] at drawn
  exact drawn

end Loop

section Reset

/-- What the loop draws after reset. -/
theorem taken_init (isI2cConfigured : Bool) :
    Taken (stateOf (initRegister isI2cConfigured)) (initDevice isI2cConfigured) where
  copy := fun never => absurd never (by simp [initDevice])
  limit := fun never => absurd never (by simp [initDevice])
  state := fun _ _ => .inr ⟨rfl, rfl⟩

end Reset

section Hosts

/-- Signals of a message of a host: none if it is too long, and if no device acknowledges its
address, only its start and its stop. -/
def HostMessage.signals (host : HostMessage) : List Signal :=
  if 1024 < length host.message then []
  else if host.address.toUInt8 = i2cSlaveAddress then host.onBus.signals
  else [.start, .stop]

/-- The file of the device after some messages. -/
def hostsShown (isI2cConfigured : Bool) (hosts : List HostMessage) : Shown :=
  hosts.foldl hostShown (initShown isI2cConfigured)

/-- The adapter makes these signals. -/
theorem controlTransfer_signals (adapter : Adapter) (host : HostMessage) :
    (adapter.controlTransfer host.request host.sent).1.port =
      adapter.port.signals host.signals := by
  have read (count : Nat) :
      (adapter.i2cReadBlocking host.address.toUInt8 count host.ends).1.port =
        adapter.port.signals (if host.address.toUInt8 = i2cSlaveAddress then
          Transfer.signals ⟨.read count, !host.ends⟩ else [.start, .stop]) := by
    rw [Adapter.i2cReadBlocking]
    split <;> rfl
  by_cases long : 1024 < length host.message
  · rw [controlTransfer_long adapter host long, HostMessage.signals, if_pos long]
    rfl
  have fits := Nat.le_of_not_lt long
  rw [HostMessage.signals, if_neg long]
  cases message : host.message with
  | read count =>
    have size : length host.message = count := by rw [message]; rfl
    have some : count ≠ 0 := fun none => host.some (by rw [message, none])
    have bus : host.onBus = ⟨.read count, !host.ends⟩ := by rw [HostMessage.onBus, message]
    rw [controlTransfer_read adapter message some (size ▸ fits), bus]
    exact read count
  | write data =>
    have size : length host.message = data.length := by rw [message]; rfl
    by_cases scan : data = []
    · rw [scan] at message
      have bus : host.onBus = ⟨.read 1, !host.ends⟩ := by rw [HostMessage.onBus, message]
      obtain ⟨i2cData, scanned⟩ := controlTransfer_scan adapter message
      rw [scanned, bus]
      exact read 1
    · have bus : host.onBus = ⟨.write data, !host.ends⟩ := by
        rw [HostMessage.onBus, message]
        cases data with
        | nil => exact absurd rfl scan
        | cons byte data => rfl
      have first : Adapter.first { adapter with i2cData := Adapter.fill adapter.i2cData data }
          data.length = data := first_fill adapter (size ▸ fits)
      rw [controlTransfer_write adapter message scan (size ▸ fits), bus]
      dsimp only
      rw [Adapter.i2cWriteBlocking, first]
      split <;> rfl

/-- The adapter makes the signals of the messages one after the other. -/
theorem served_signals (adapter : Adapter) (hosts : List HostMessage) :
    (served adapter hosts).port = adapter.port.signals (hosts.flatMap HostMessage.signals) := by
  induction hosts generalizing adapter with
  | nil => rfl
  | cons host rest ih =>
    rw [List.flatMap_cons, signals_append, ← controlTransfer_signals, ← ih]
    rfl

/-- A message of a host publishes what has been written before or what it leaves, if at all. -/
theorem publishes_host {allowed : RgbState → Prop} {port : Port} {shown : Shown}
    (between : Between port shown) (host : HostMessage) (now : allowed (stateOf shown.shown))
    (before : allowed (stateOf shown.file.cells))
    (behind : allowed (stateOf (hostShown shown host).file.cells)) :
    Publishes allowed port host.signals ∧ Between (port.signals host.signals)
      (hostShown shown host) ∧ allowed (stateOf (hostShown shown host).shown) := by
  have taken : allowed port.slave.i2cState := by
    rw [between.taken]
    exact now
  rw [HostMessage.signals]
  rw [hostShown] at behind ⊢
  by_cases long : 1024 < length host.message
  · rw [if_pos long, if_pos long]
    exact ⟨taken, between, now⟩
  rw [if_neg long] at behind ⊢
  rw [if_neg long]
  by_cases device : host.address.toUInt8 = i2cSlaveAddress
  · rw [if_pos device] at behind ⊢
    rw [if_pos device]
    refine ⟨publishes_transfer between host.onBus now before behind,
      (between.transfer host.onBus).1, ?_⟩
    rw [Shown.transfer]
    split
    · exact behind
    · exact before
  · rw [if_neg device, if_neg device]
    obtain ⟨finished, _⟩ := between.finish
    have told {port : Port} (between : Between port ⟨shown.file, shown.file.cells⟩) :
        allowed port.slave.i2cState := by
      rw [between.taken]
      exact before
    exact ⟨⟨taken, told finished, told finished.finish.1⟩, finished.finish.1, before⟩

/-- The messages of a host publish what they leave, if at all. -/
theorem publishes_hosts {allowed : RgbState → Prop} {port : Port} {shown : Shown}
    (between : Between port shown) (now : allowed (stateOf shown.shown)) {hosts : List HostMessage}
    (each : ∀ front, front <+: hosts → allowed (stateOf (front.foldl hostShown shown).file.cells)) :
    Publishes allowed port (hosts.flatMap HostMessage.signals) ∧
      Between (port.signals (hosts.flatMap HostMessage.signals)) (hosts.foldl hostShown shown) ∧
      allowed (stateOf (hosts.foldl hostShown shown).shown) := by
  induction hosts generalizing port shown with
  | nil =>
    refine ⟨?_, between, now⟩
    show allowed port.slave.i2cState
    rw [between.taken]
    exact now
  | cons host rest ih =>
    have ⟨published, next, now'⟩ := publishes_host between host now (each [] List.nil_prefix)
      (each [host] (List.prefix_append [host] rest))
    have ⟨later, last⟩ := ih next now' fun front inside =>
      each (host :: front) (List.cons_prefix_cons.mpr ⟨rfl, inside⟩)
    rw [List.flatMap_cons, signals_append]
    exact ⟨published.append later, last⟩

/-- If every message of a host leaves drawable registers, then whatever steps the loop takes between
the signals that the adapter makes, it does not fault, and the device is left as by the adapter
alone. Once the bus has been quiet for four steps of the loop, of two steps one draws a frame, and
the strip shows every frame, drawn from the limited registers that the device has taken over last,
or from those after reset if it has taken over none. -/
theorem hosts_displayed (sin : ℚ → ℚ) (isI2cConfigured : Bool) (hosts : List HostMessage)
    (drawable : ∀ front, front <+: hosts →
      Drawable (stateOf (hostsShown isI2cConfigured front).file.cells))
    (moves : List Move) (same : signalsOf moves = hosts.flatMap HostMessage.signals) :
    ∃ rig, (initRig isI2cConfigured).run sin moves = .ok rig ∧
      unflagged (served (initAdapter isI2cConfigured) hosts).port = unflagged rig.port ∧
      ∀ times : List UInt32, 4 ≤ times.length →
        ∃ quiet, ledsRun sin rig.device (times.map .advance) = .ok quiet ∧
          (quiet.stage = .frame →
            Drawn (stateOf (initRegister isI2cConfigured))
                (stateOf (hostsShown isI2cConfigured hosts).shown) quiet.state ∧
              Lit sin quiet quiet.state) ∧
          (quiet.stage ≠ .frame → ∀ now, ∃ next, ledsMode sin quiet now = .ok next ∧
            next.stage = .frame) := by
  have first : Between (initRig isI2cConfigured).port (initShown isI2cConfigured) :=
    ⟨rfl, rfl, fun _ => rfl, rfl, fun _ => rfl⟩
  have ⟨publishes, between, drawable'⟩ :=
    publishes_hosts first (drawable [] List.nil_prefix) drawable
  rw [← same] at publishes between
  have ⟨rig, ran, frame, taken, unflagged⟩ := @run_ok sin _ (initRig isI2cConfigured)
    (frameInvariant_init isI2cConfigured) (taken_init isI2cConfigured) moves publishes
  have shown : rig.device.slave.i2cState = stateOf (hostsShown isI2cConfigured hosts).shown :=
    (between_unflagged unflagged between).taken
  refine ⟨rig, ran, ?_, fun times late => ?_⟩
  · rw [served_signals, ← same]
    exact unflagged
  have quiet := @quiet_lit sin _ rig.device frame taken (shown ▸ drawable') times late
  rw [shown] at quiet
  exact quiet

/-- A host switches to the rainbow. -/
def rainbowMessage : HostMessage :=
  deviceMessage true false (.write [0, 3]) (by decide) (by decide)

/-- The loop draws while it does. -/
def rainbowMoves : List Move :=
  [.loop 0, .signal .start, .signal (.send 0), .loop 1, .signal (.send 3), .loop 2, .signal .stop]

/-- The rainbow is shown. -/
theorem rainbow_displayed :
    ∃ rig, (initRig false).run id rainbowMoves = .ok rig ∧
      unflagged (served (initAdapter false) [rainbowMessage]).port = unflagged rig.port ∧
      ∀ times : List UInt32, 4 ≤ times.length →
        ∃ quiet, ledsRun id rig.device (times.map .advance) = .ok quiet ∧
          (quiet.stage = .frame →
            Drawn (stateOf (initRegister false))
                (stateOf (hostsShown false [rainbowMessage]).shown) quiet.state ∧
              Lit id quiet quiet.state) ∧
          (quiet.stage ≠ .frame → ∀ now, ∃ next, ledsMode id quiet now = .ok next ∧
            next.stage = .frame) := by
  apply hosts_displayed id false [rainbowMessage] _ rainbowMoves rfl
  intro front inside
  rcases List.prefix_cons_iff.mp inside with none | ⟨rest, one, none⟩
  · rw [none]
    exact (frameInvariant_init false).drawable
  · rw [one, List.prefix_nil.mp none]
    have stored : (hostsShown false [rainbowMessage]).file.cells = rainbowRegister := by
      rw [rainbowRegister, storeBytes_cons, storeBytes_nil]
      rfl
    rw [stored]
    exact rainbowRegister_drawable

end Hosts

end Fly2040.System
