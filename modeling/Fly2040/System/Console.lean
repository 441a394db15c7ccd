import Fly2040.App.Turns
import Fly2040.System.Display
import Fly2040.System.Speed
/-!
# From the console to the strip

The system module sends one register at a time, and the device publishes its registers behind each
of them, so between two transfers it shows a mixture of two configurations. A mixture of sound
configurations is still drawable, since what a frame divides by is sound by itself. So the loop does
not fault, whatever is lost on the way and wherever its steps lie; and once a configuration has been
sent as a whole, the strip shows it.
-/

namespace Fly2040.System

open Bytes Checked App Leds Pulses Runs

/-- A configuration whose pixels and whose speed, if its mode has one, are not too few. -/
structure Sound (cfg : CfgSet) : Prop where
  /-- A period of at least one millisecond. -/
  speed : ∀ value, cfg.speed = some value → 1 ≤ value
  /-- At least one pixel in the register. -/
  pixels : cfg.numPixels.toUInt8 ≠ 0

/-- Registers that are drawable in every mode. -/
structure Steady (state : RgbState) : Prop where
  /-- The speed is at least one whole unit. -/
  speed : u32fScale ≤ state.speed.toNat
  /-- There are pixels. -/
  pixels : state.numPixels ≠ 0

/-- A turn that sends no bytes of somebody else, and leaves a sound configuration. -/
def SoundTurn (codec : Codec) (sys : Sys) (turn : Turn) : Prop :=
  (∀ bytes, turn.2 ≠ .sendI2c bytes) ∧ Sound (sys.next codec turn).config.config

/-- What is transferred in some turns. -/
def transfersOf (codec : Codec) : Sys → List Turn → List Transmission
  | _, [] => []
  | sys, turn :: rest => sys.transfers codec turn ++ transfersOf codec (sys.next codec turn) rest

/-- Signals of a transfer: if it is not acknowledged, the address has found no device. -/
def signalsSent (transmission : Transmission) : List Signal :=
  if transmission.sent then Transfer.signals ⟨.write transmission.bytes, true⟩ else [.start, .stop]

/-- A transfer of a register of steady ones. -/
def FieldOf (reg : RgbState) (transmission : Transmission) : Prop :=
  ∃ field sent, transmission = Sys.sendI2C reg field sent

/-- The device waits for a transfer, and what it holds and has published is steady. -/
structure Prepared (slave : Slave) : Prop where
  /-- It waits for an address. -/
  idle : slave.Idle
  /-- What it holds. -/
  held : Steady (stateOf slave.context.reg)
  /-- What it has published. -/
  shown : Steady slave.i2cState

section Registers

variable {codec : Codec} {env : SysEnv} {sys : Sys} {reg : RgbState} {cfg : CfgSet}

/-- Steady registers are drawable. -/
theorem Steady.drawable {state : RgbState} (steady : Steady state) : Drawable state :=
  ⟨fun _ => steady.speed, fun _ => steady.pixels⟩

/-- A float of at least one is stored as at least one whole unit. -/
theorem f2u32_whole {value : ℚ} (whole : 1 ≤ value) : u32fScale ≤ (f2u32 value).toNat := by
  have scaled : ((u32fScale : Int) : ℚ) ≤ value * u32fScale := by
    unfold u32fScale
    push_cast
    linarith
  have floor : (u32fScale : Int) ≤ ⌊value * u32fScale⌋ := Int.le_floor.mpr scaled
  have stored : (f2u32 value).toNat = min ⌊value * u32fScale⌋.toNat 0xFFFFFFFF := by
    rw [f2u32, toU32, UInt32.toNat_ofNat']
    omega
  unfold u32fScale at *
  omega

/-- The registers of a sound configuration are steady. -/
theorem steady_setupReg (steady : Steady reg) (sound : Sound cfg) :
    Steady (Sys.setupReg cfg reg) := by
  have speed := sound.speed
  have pixels : (Sys.setupReg cfg reg).numPixels = cfg.numPixels.toUInt8 := by
    unfold Sys.setupReg
    cases cfg.rgbMode with
    | none => rfl
    | some mode => cases mode <;> rfl
  refine ⟨?_, pixels ▸ sound.pixels⟩
  unfold CfgSet.speed at speed
  unfold Sys.setupReg
  cases mode : cfg.rgbMode with
  | none => exact steady.speed
  | some rgbMode =>
    rw [mode] at speed
    cases rgbMode with
    | pulse => exact f2u32_whole (speed _ rfl)
    | cycle => exact f2u32_whole (speed _ rfl)
    | rainbow => exact f2u32_whole (speed _ rfl)
    | off => exact steady.speed
    | load => exact steady.speed
    | temperature => exact steady.speed

/-- One call sends at most one register, and leaves the registers as they are. -/
theorem sendNext_fields (env : SysEnv) (sys : Sys) (sent : List Transmission) :
    (Sys.sendNext env sys sent).1.reg = sys.reg ∧
      ∀ transmission ∈ (Sys.sendNext env sys sent).2,
        transmission ∈ sent ∨ FieldOf sys.reg transmission := by
  have field (field : Field) : ∀ transmission ∈
      sent ++ [Sys.sendI2C sys.reg field (env.sends sent.length)],
      transmission ∈ sent ∨ FieldOf sys.reg transmission := by
    intro transmission inside
    rcases List.mem_append.mp inside with before | last
    · exact .inl before
    · exact .inr ⟨field, _, List.mem_singleton.mp last⟩
  unfold Sys.sendNext
  cases sys.sendState with
  | none => exact ⟨rfl, fun _ before => .inl before⟩
  | done => exact ⟨rfl, fun _ before => .inl before⟩
  | numPixels => exact ⟨rfl, field _⟩
  | brightness => exact ⟨rfl, field _⟩
  | scale => exact ⟨rfl, field _⟩
  | speed => exact ⟨rfl, field _⟩
  | hue => exact ⟨rfl, field _⟩
  | mode => exact ⟨rfl, field _⟩

/-- So do all calls together. -/
theorem sendAll_fields (env : SysEnv) (sys : Sys) (sent : List Transmission) :
    (Sys.sendAll env sys sent).1.reg = sys.reg ∧
      ∀ transmission ∈ (Sys.sendAll env sys sent).2,
        transmission ∈ sent ∨ FieldOf sys.reg transmission := by
  induction sys, sent using Sys.sendAll.induct env with
  | case1 sys sent done =>
    rw [Sys.sendAll, if_pos done]
    exact ⟨rfl, fun _ before => .inl before⟩
  | case2 sys sent more ih =>
    obtain ⟨same, now⟩ := sendNext_fields env sys sent
    rw [Sys.sendAll, if_neg more]
    refine ⟨ih.1.trans same, fun transmission inside => ?_⟩
    rcases ih.2 transmission inside with before | later
    · exact now transmission before
    · exact .inr (same ▸ later)

/-- Of nothing that is sent, each is a register. -/
theorem FieldOf.nil (reg : RgbState) :
    ∀ transmission ∈ ([] : List Transmission), FieldOf reg transmission :=
  fun _ never => absurd never List.not_mem_nil

/-- What is sent are registers, and neither the speed nor the pixels change. -/
theorem send_fields (env : SysEnv) (sys : Sys) :
    ((sys.send env).1.reg.speed = sys.reg.speed ∧
      (sys.send env).1.reg.numPixels = sys.reg.numPixels) ∧
      ∀ transmission ∈ (sys.send env).2, FieldOf (sys.send env).1.reg transmission := by
  have opened {sent : List Transmission} {reg : RgbState}
      (fields : ∀ transmission ∈ sent, FieldOf reg transmission) (opens : Bool) :
      ∀ transmission ∈ (if opens then sent else []), FieldOf reg transmission := by
    cases opens with
    | true => exact fields
    | false => exact FieldOf.nil reg
  have all : ((if env.opens then Sys.sendAll env sys [] else (sys, [])).1.reg = sys.reg) ∧
      ∀ transmission ∈ (if env.opens then Sys.sendAll env sys [] else (sys, [])).2,
        FieldOf sys.reg transmission := by
    cases env.opens with
    | true =>
      have sent := sendAll_fields env sys []
      exact ⟨sent.1, fun transmission inside =>
        (sent.2 transmission inside).resolve_left List.not_mem_nil⟩
    | false => exact ⟨rfl, FieldOf.nil _⟩
  rw [Sys.send]
  split
  · split
    · refine ⟨⟨rfl, rfl⟩, opened (fun transmission inside => ?_) _⟩
      exact ⟨.scale, _, List.mem_singleton.mp inside⟩
    · exact ⟨⟨rfl, rfl⟩, FieldOf.nil _⟩
  · rw [all.1]
    exact ⟨⟨rfl, rfl⟩, all.2⟩
  · rw [all.1]
    exact ⟨⟨rfl, rfl⟩, all.2⟩
  · exact ⟨⟨rfl, rfl⟩, FieldOf.nil _⟩

/-- What a tick sends are registers, and it leaves steady ones if the configuration is sound. -/
theorem tick_fields (steady : Steady sys.reg)
    (sound : Sound (sys.next codec (env, .tick)).config.config) :
    Steady (sys.next codec (env, .tick)).reg ∧
      ∀ transmission ∈ sys.transfers codec (env, .tick),
        FieldOf (sys.next codec (env, .tick)).reg transmission := by
  obtain ⟨config, file, state, looked⟩ := Sys.looked_frame codec env sys
  have reg : (sys.looked codec env).reg = sys.reg := by rw [looked]
  simp only [Sys.next, Sys.transfers, Sys.step] at sound ⊢
  rw [Sys.tick_eq] at sound ⊢
  split
  · rename_i set
    obtain ⟨cpuMon, genMon, setup⟩ := Sys.setup_eq none (sys.looked codec env)
    rw [if_pos set, setup] at sound
    rw [setup, reg]
    exact ⟨steady_setupReg steady sound, FieldOf.nil _⟩
  · split
    · rw [reg]
      exact ⟨steady, FieldOf.nil _⟩
    · obtain ⟨⟨speed, pixels⟩, fields⟩ := send_fields env (sys.looked codec env)
      rw [reg] at speed pixels
      exact ⟨⟨speed ▸ steady.speed, pixels ▸ steady.pixels⟩, fields⟩

/-- A change of power sends the mode at most, and leaves what is steady. -/
theorem power_fields (codec : Codec) (env : SysEnv) (steady : Steady sys.reg)
    (state : Sys.PmState) :
    Steady (sys.next codec (env, .power state)).reg ∧
      ∀ transmission ∈ sys.transfers codec (env, .power state),
        FieldOf (sys.next codec (env, .power state)).reg transmission := by
  simp only [Sys.next, Sys.transfers, Sys.step]
  rcases Sys.power_cases env state sys with same | ⟨timer, woken⟩ | ⟨cpuMon, genMon, asleep⟩
  · rw [same]
    exact ⟨steady, FieldOf.nil _⟩
  · rw [woken]
    exact ⟨steady, FieldOf.nil _⟩
  · rw [asleep]
    refine ⟨⟨steady.speed, steady.pixels⟩, fun transmission inside => ?_⟩
    split at inside
    · exact ⟨.mode, _, List.mem_singleton.mp inside⟩
    · exact absurd inside List.not_mem_nil

/-- What a sound turn sends are registers, and it leaves steady ones. -/
theorem turn_fields (steady : Steady sys.reg) {turn : Turn} (sound : SoundTurn codec sys turn) :
    Steady (sys.next codec turn).reg ∧
      ∀ transmission ∈ sys.transfers codec turn, FieldOf (sys.next codec turn).reg transmission := by
  obtain ⟨env, event⟩ := turn
  obtain ⟨quiet, sound⟩ := sound
  cases event with
  | setConfigValues cfg =>
    obtain ⟨cpuMon, genMon, set⟩ := Sys.setConfigValues_eq codec env cfg sys
    simp only [Sys.next, Sys.transfers, Sys.step, set] at sound ⊢
    exact ⟨steady_setupReg steady sound, FieldOf.nil _⟩
  | sendI2c bytes => exact absurd rfl (quiet bytes)
  | tick => exact tick_fields steady sound
  | power state => exact power_fields codec env steady state
  | edit file => exact ⟨steady, FieldOf.nil _⟩

/-- All that sound turns send are steady registers. -/
theorem transfers_steady {turns : List Turn} (steady : Steady sys.reg)
    (sound : EachStep (Sys.next codec) (SoundTurn codec) sys turns) :
    ∀ transmission ∈ transfersOf codec sys turns,
      ∃ reg, Steady reg ∧ FieldOf reg transmission := by
  induction turns generalizing sys with
  | nil => exact fun _ never => absurd never List.not_mem_nil
  | cons turn rest ih =>
    have ⟨steady', fields⟩ := turn_fields steady sound.1
    intro transmission inside
    rcases List.mem_append.mp inside with now | later
    · exact ⟨_, steady', fields transmission now⟩
    · exact ih steady' sound.2 transmission later

/-- What is transferred in turns one after the other. -/
theorem transfersOf_append (codec : Codec) (sys : Sys) (front back : List Turn) :
    transfersOf codec sys (front ++ back) =
      transfersOf codec sys front ++ transfersOf codec (front.foldl (Sys.next codec) sys) back := by
  induction front generalizing sys with
  | nil => rfl
  | cons turn front ih =>
    rw [List.cons_append, transfersOf, ih, transfersOf, List.append_assoc]
    rfl

end Registers

section Transfers

variable {slave : Slave} {reg : RgbState} {transmission : Transmission}

/-- A device that holds the bytes of one field from some registers and all others from other ones
has each of its fields from one of the two. -/
theorem stateOf_merged {mem old : Memory} {field : Field}
    (merged : ∀ address, mem address =
      if field.Holds address then pack reg address else old address) :
    ((stateOf mem).speed = reg.speed ∨ (stateOf mem).speed = (stateOf old).speed) ∧
      ((stateOf mem).numPixels = reg.numPixels ∨
        (stateOf mem).numPixels = (stateOf old).numPixels) := by
  have word (base : Nat) :
      (∀ offset < 4, field.Holds (base + offset)) ∨ (∀ offset < 4, ¬field.Holds (base + offset)) →
      word32 mem base = word32 (pack reg) base ∨ word32 mem base = word32 old base := by
    rintro (inside | outside)
    · exact .inl (word32_congr fun offset small =>
        (merged _).trans (if_pos (inside offset small)))
    · exact .inr (word32_congr fun offset small =>
        (merged _).trans (if_neg (outside offset small)))
  have packed := stateOf_pack reg
  constructor
  · rw [← congrArg RgbState.speed packed]
    apply word
    cases field <;> decide
  · rw [← congrArg RgbState.numPixels packed]
    by_cases held : field.Holds Field.numPixels.offset
    · exact .inl ((merged _).trans (if_pos held))
    · exact .inr ((merged _).trans (if_neg held))

/-- A transfer of a register of steady ones leaves the device prepared. -/
theorem Prepared.transmit (prepared : Prepared slave) (steady : Steady reg)
    (field : FieldOf reg transmission) : Prepared (transmit slave transmission) := by
  obtain ⟨field, sent, same⟩ := field
  subst same
  cases sent with
  | false => exact prepared
  | true =>
    have ⟨idle, published, held⟩ := transmit_field prepared.idle reg field
    have ⟨speed, pixels⟩ := stateOf_merged held
    have steady' : Steady (stateOf (System.transmit slave
        (Sys.sendI2C reg field true)).context.reg) := by
      constructor
      · rcases speed with new | old
        · exact new ▸ steady.speed
        · exact old ▸ prepared.held.speed
      · rcases pixels with new | old
        · exact new ▸ steady.pixels
        · exact old ▸ prepared.held.pixels
    exact ⟨idle, steady', published.1 ▸ steady'⟩

/-- Bytes that are sent are received by the handler, and nothing is published. -/
theorem signals_received (slave : Slave) (inProgress : Bool) (data : List UInt8) :
    Port.signals ⟨slave, inProgress⟩ (data.map .send) =
        ⟨slaveEvents slave (data.map .receive), inProgress || !data.isEmpty⟩ ∧
      (slaveEvents slave (data.map .receive)).i2cState = slave.i2cState := by
  induction data generalizing slave inProgress with
  | nil => exact ⟨by simp [Port.signals, slaveEvents], rfl⟩
  | cons byte data ih =>
    obtain ⟨rest, published⟩ := ih (slaveHandler slave (.receive byte)) true
    have first : (slaveHandler slave (.receive byte)).i2cState = slave.i2cState := by
      rw [slaveHandler]
      split <;> rfl
    constructor
    · rw [List.isEmpty_cons, Bool.not_false, Bool.or_true, ← Bool.true_or (!data.isEmpty)]
      exact rest
    · exact published.trans first

/-- A transfer is one to the device, if it has an address. -/
theorem signals_transmit (some : transmission.bytes ≠ []) :
    Port.signals ⟨slave, false⟩ (signalsSent transmission) =
      ⟨transmit slave transmission, false⟩ := by
  rw [signalsSent, System.transmit]
  cases transmission.sent with
  | false => rfl
  | true =>
    have begun : Port.signals ⟨slave, false⟩
          (Transfer.signals ⟨.write transmission.bytes, true⟩) =
        (Port.signals ⟨slave, false⟩ (transmission.bytes.map .send)).finishTransfer := by
      show Port.signals ⟨slave, false⟩ (transmission.bytes.map .send ++ [.stop]) = _
      rw [signals_append]
      rfl
    have written : (false || !transmission.bytes.isEmpty) = true := by simp [some]
    have ended : slaveEvents slave (transmission.bytes.map .receive ++ [.finish]) =
        slaveHandler (slaveEvents slave (transmission.bytes.map .receive)) .finish :=
      List.foldl_append
    rw [if_pos rfl, if_pos rfl, begun, (signals_received slave false _).1, written, ended]
    rfl

/-- What a transfer publishes has been published before, or is what it leaves. -/
theorem publishes_transmit {allowed : RgbState → Prop} (some : transmission.bytes ≠ [])
    (before : allowed slave.i2cState) (behind : allowed (transmit slave transmission).i2cState) :
    Publishes allowed ⟨slave, false⟩ (signalsSent transmission) := by
  have last := congrArg (fun port => port.slave.i2cState) (@signals_transmit slave _ some)
  cases sent : transmission.sent with
  | false =>
    rw [signalsSent, sent]
    exact ⟨before, before, before⟩
  | true =>
    rw [signalsSent, sent, if_pos rfl] at last ⊢
    refine ⟨before, (publishes_message (.write transmission.bytes) before).append ⟨?_, ?_⟩⟩
    · show allowed (Port.signals ⟨slave, false⟩ (transmission.bytes.map .send)).slave.i2cState
      rw [(signals_received slave false _).1]
      exact (signals_received slave false _).2 ▸ before
    · show allowed (Port.signals ((Port.signals ⟨slave, false⟩
        (transmission.bytes.map .send))) [.stop]).slave.i2cState
      rw [← signals_append]
      exact last ▸ behind

/-- A register has an address. -/
theorem FieldOf.some (field : FieldOf reg transmission) : transmission.bytes ≠ [] := by
  obtain ⟨field, sent, same⟩ := field
  rw [same]
  exact List.cons_ne_nil _ _

/-- Transfers of steady registers publish drawable ones only. -/
theorem publishes_transfers (prepared : Prepared slave) {transfers : List Transmission}
    (steady : ∀ transmission ∈ transfers, ∃ reg, Steady reg ∧ FieldOf reg transmission) :
    Publishes Drawable ⟨slave, false⟩ (transfers.flatMap signalsSent) ∧
      Port.signals ⟨slave, false⟩ (transfers.flatMap signalsSent) =
        ⟨transfers.foldl transmit slave, false⟩ ∧
      Prepared (transfers.foldl transmit slave) := by
  induction transfers generalizing slave with
  | nil => exact ⟨prepared.shown.drawable, rfl, prepared⟩
  | cons transmission rest ih =>
    obtain ⟨reg, steady', field⟩ := steady transmission List.mem_cons_self
    have prepared' := prepared.transmit steady' field
    have first := publishes_transmit field.some prepared.shown.drawable prepared'.shown.drawable
    have ⟨later, last, held⟩ := ih prepared' fun other inside =>
      steady other (List.mem_cons_of_mem _ inside)
    rw [List.flatMap_cons, List.foldl_cons]
    refine ⟨first.append ?_, ?_, held⟩
    · rw [signals_transmit field.some]
      exact later
    · rw [signals_append, signals_transmit field.some]
      exact last

end Transfers

section Stop

variable {sin : ℚ → ℚ}

/-- The parts of what is published. -/
theorem Publishes.parts {allowed : RgbState → Prop} {port : Port} {front back : List Signal}
    (publishes : Publishes allowed port (front ++ back)) :
    Publishes allowed port front ∧ Publishes allowed (port.signals front) back := by
  induction front generalizing port with
  | nil => exact ⟨publishes.first, publishes⟩
  | cons signal front ih =>
    have ⟨early, late⟩ := ih publishes.2
    exact ⟨⟨publishes.1, early⟩, late⟩

/-- What waits behind a stop has not been taken. -/
theorem taken_stop {rig : Rig} (inProgress : rig.transferInProgress = true)
    (write : rig.device.slave.context.write = true) (initial : RgbState) :
    Taken initial (rig.signal .stop).device := by
  have ready : (rig.signal .stop).device.slave.context.updateReady = true := by
    show rig.port.finishTransfer.slave.context.updateReady = true
    rw [Port.finishTransfer, if_pos (show rig.port.transferInProgress = true from inProgress)]
    show (slaveHandler rig.device.slave .finish).context.updateReady = true
    rw [slaveHandler, if_pos write]
  exact ⟨fun _ => ready, fun _ never => absurd (ready.symm.trans never) (by decide),
    fun _ never => absurd (ready.symm.trans never) (by decide)⟩

/-- Moves whose last signal stops a write: what it publishes waits or has been taken, whatever was
taken before. -/
theorem run_stopped {initial : RgbState} {rig : Rig} (frame : FrameInvariant rig.device)
    (taken : Taken initial rig.device) {moves : List Move} {front : List Signal}
    (same : signalsOf moves = front ++ [.stop])
    (publishes : Publishes Drawable rig.port (front ++ [.stop]))
    (inProgress : (rig.port.signals front).transferInProgress = true)
    (write : (rig.port.signals front).slave.context.write = true) (initial' : RgbState) :
    ∃ later, rig.run sin moves = .ok later ∧ FrameInvariant later.device ∧
      Taken initial' later.device ∧
      unflagged (rig.port.signals (front ++ [.stop])) = unflagged later.port := by
  obtain ⟨early, rest, split, signals, stopped⟩ := List.filterMap_eq_append_iff.mp same
  obtain ⟨loops, move, late, split', looped, stop, quiet⟩ := List.filterMap_eq_cons_iff.mp stopped
  have here : move = .signal .stop := by
    cases move with
    | signal signal => rw [Option.some.inj stop]
    | loop now => cases stop
  have upTo : signalsOf (early ++ loops) = front := by
    have none : signalsOf loops = [] := List.filterMap_eq_nil_iff.mpr looped
    rw [signalsOf, List.filterMap_append]
    show signalsOf early ++ signalsOf loops = front
    rw [none, List.append_nil]
    exact signals
  have ⟨before, behind⟩ := publishes.parts
  rw [← upTo] at before
  have ⟨middle, ran, frame', _, flagged⟩ := @run_ok sin _ rig frame taken _ before
  rw [upTo] at flagged
  have inProgress' : middle.transferInProgress = true :=
    (congrArg Port.transferInProgress flagged).symm.trans inProgress
  have write' : middle.device.slave.context.write = true :=
    (congrArg (fun port => port.slave.context.write) flagged).symm.trans write
  have after := unflagged_signals flagged [.stop]
  have last : Publishes Drawable (middle.signal .stop).port (signalsOf late) := by
    rw [signalsOf, quiet]
    exact Publishes.unflagged behind.2 after
  have ⟨later, went, framed, taken', flagged'⟩ := @run_ok sin _ (middle.signal .stop)
    ⟨frame'.drawable, frame'.fits⟩ (taken_stop inProgress' write' initial') _ last
  refine ⟨later, ?_, framed, taken', ?_⟩
  · rw [split, split', here, ← List.append_assoc, Rig.run, List.foldlM_append]
    rw [Rig.run] at ran
    rw [ran]
    exact went
  · rw [signals_append]
    rw [signalsOf, quiet] at flagged'
    exact after.trans flagged'

/-- Once all registers have been sent, the last signal stops a write, and what it publishes are
they. -/
theorem sent_stopped {slave : Slave} (prepared : Prepared slave) {earlier : List Transmission}
    {reg : RgbState}
    (steady : ∀ transmission ∈ earlier ++ sendOrder.map (Sys.sendI2C reg · true),
      ∃ reg, Steady reg ∧ FieldOf reg transmission) :
    ∃ front, (earlier ++ sendOrder.map (Sys.sendI2C reg · true)).flatMap signalsSent =
        front ++ [.stop] ∧
      (Port.signals ⟨slave, false⟩ front).transferInProgress = true ∧
      (Port.signals ⟨slave, false⟩ front).slave.context.write = true ∧
      (Port.signals ⟨slave, false⟩ (front ++ [.stop])).slave.i2cState = reg := by
  let early := earlier ++ [Field.numPixels, .brightness, .scale, .speed, .hue].map
    (Sys.sendI2C reg · true)
  let last : List Signal := .start :: (Sys.sendI2C reg .mode true).bytes.map .send
  have order : earlier ++ sendOrder.map (Sys.sendI2C reg · true) =
      early ++ [Sys.sendI2C reg .mode true] := by
    simp [early, sendOrder]
  have signals : (earlier ++ sendOrder.map (Sys.sendI2C reg · true)).flatMap signalsSent =
      (early.flatMap signalsSent ++ last) ++ [.stop] := by
    rw [order, List.flatMap_append, List.append_assoc]
    rfl
  obtain ⟨_, before, ⟨idle, _, _⟩⟩ := publishes_transfers prepared
    fun transmission inside => steady transmission (order ▸ List.mem_append_left _ inside)
  obtain ⟨_, all, _⟩ := publishes_transfers prepared steady
  obtain ⟨_, _, ⟨idle', _, _⟩⟩ := publishes_transfers prepared
    fun transmission inside => steady transmission (List.mem_append_left _ inside)
  have written : (Port.signals ⟨early.foldl transmit slave, false⟩ last).transferInProgress = true ∧
      (Port.signals ⟨early.foldl transmit slave, false⟩ last).slave.context.write = true := by
    generalize early.foldl transmit slave = middle at idle
    obtain ⟨⟨memory, address, addressed, ready, write⟩, state⟩ := middle
    have idle : addressed = false := idle
    rw [idle]
    exact ⟨rfl, rfl⟩
  refine ⟨early.flatMap signalsSent ++ last, signals, ?_, ?_, ?_⟩
  · rw [signals_append, before]
    exact written.1
  · rw [signals_append, before]
    exact written.2
  · rw [← signals, all]
    show ((earlier ++ sendOrder.map (Sys.sendI2C reg · true)).foldl transmit slave).i2cState = reg
    rw [List.foldl_append, ((transmit_fields idle' reg sendOrder).2.1 (by simp [sendOrder])).1]
    exact stateOf_of_packed fun address inside => transmit_all idle' reg inside

end Stop

/-- The device after reset is prepared. -/
theorem prepared_init (isI2cConfigured : Bool) : Prepared (initSlave isI2cConfigured) := by
  have steady : Steady (stateOf (initRegister isI2cConfigured)) := by
    rw [initRegister, stateOf_pack]
    exact ⟨f2u32_speed ▸ (by decide), show (9 : UInt8) ≠ 0 by decide⟩
  exact ⟨rfl, steady, steady⟩

/-- The registers of the system module are steady at the start. -/
theorem steady_init (file : Option ConfigFile) : Steady (Sys.init file).reg :=
  ⟨show u32fScale ≤ (f2u32 5000).toNat from f2u32_speed ▸ (by decide),
    show (9 : UInt8) ≠ 0 by decide⟩

/-- While nobody else writes to the bus and every configuration of the console is sound, the device
does not fault, whatever transfers are lost, whatever happens to the file, and whatever steps the
loop takes between the signals. It holds what the transfers have left; once the bus has been quiet
for four steps of the loop, of two steps one draws a frame, and the strip shows every frame, drawn
from the registers that have been published last. -/
theorem console_displayed (sin : ℚ → ℚ) (isI2cConfigured : Bool) (codec : Codec)
    (file : Option ConfigFile) (turns : List Turn)
    (sound : EachStep (Sys.next codec) (SoundTurn codec) (Sys.init file) turns)
    (moves : List Move)
    (same : signalsOf moves = (transfersOf codec (Sys.init file) turns).flatMap signalsSent) :
    ∃ rig, (initRig isI2cConfigured).run sin moves = .ok rig ∧
      unflagged rig.port = unflagged
        ⟨(transfersOf codec (Sys.init file) turns).foldl transmit (initSlave isI2cConfigured),
          false⟩ ∧
      ∀ times : List UInt32, 4 ≤ times.length →
        ∃ quiet, ledsRun sin rig.device (times.map .advance) = .ok quiet ∧
          (quiet.stage = .frame →
            Drawn (stateOf (initRegister isI2cConfigured)) rig.device.slave.i2cState quiet.state ∧
              Lit sin quiet quiet.state) ∧
          (quiet.stage ≠ .frame → ∀ now, ∃ next, ledsMode sin quiet now = .ok next ∧
            next.stage = .frame) := by
  have ⟨publishes, last, prepared⟩ := publishes_transfers (prepared_init isI2cConfigured)
    (transfers_steady (steady_init file) sound)
  rw [← same] at publishes last
  have ⟨rig, ran, frame, taken, flagged⟩ := @run_ok sin _ (initRig isI2cConfigured)
    (frameInvariant_init isI2cConfigured) (taken_init isI2cConfigured) moves publishes
  have left : unflagged rig.port = _ := flagged.symm.trans (congrArg unflagged last)
  have drawable : Drawable rig.device.slave.i2cState := by
    have published := congrArg (fun port => port.slave.i2cState) left
    exact published ▸ prepared.shown.drawable
  exact ⟨rig, ran, left, fun times late => quiet_lit frame taken drawable late⟩

/-- A step of the loop before each signal. -/
def looped (signals : List Signal) : List Move :=
  signals.flatMap fun signal => [.loop 0, .signal signal]

/-- The steps of the loop are no signals. -/
theorem signalsOf_looped (signals : List Signal) : signalsOf (looped signals) = signals := by
  induction signals with
  | nil => rfl
  | cons signal rest ih => exact congrArg (signal :: ·) ih

/-- The rainbow at its usual speed is sound. -/
theorem rainbow_sound : Sound { mode := 3 } where
  speed := by
    intro value same
    rw [← Option.some.inj same]
    norm_num
  pixels := by decide

/-- A command, and a tick in some surroundings. -/
def rainbowTurns (env : SysEnv) : List Turn :=
  [(calmEnv, .setConfigValues { mode := 3 }), (env, .tick)]

/-- Surroundings in which the transfer of the brightness is lost. -/
def lossyEnv : SysEnv := { calmEnv with sends := fun number => number ≠ 1 }

/-- A tick leaves the configuration, unless it is time to look at the file. -/
theorem tick_config {codec : Codec} {env : SysEnv} {sys : Sys}
    (early : env.clock - sys.config.lastCheck < fileCfgCheckIntervalNs) :
    (sys.next codec (env, .tick)).config.config = sys.config.config := by
  have ⟨_, _, saved, same⟩ := Sys.saveChanged_frame codec env sys
  have checked : (sys.saveChanged codec env).config.lastCheck = sys.config.lastCheck := by
    rw [Sys.saveChanged]
    split
    · exact ConfigImpl.saveConfig_lastCheck _ _ _ _
    · rfl
  rw [← checked] at early
  show (sys.tick codec env).1.config.config = _
  rw [(Sys.tick_settings codec env sys).config, Sys.looked, Sys.refreshFile_frame]
  dsimp only
  rw [ConfigImpl.refresh, if_pos early, saved]
  exact same

/-- They leave the rainbow in memory, whatever is lost. -/
theorem rainbowTurns_sound (sends : Nat → Bool) :
    EachStep (Sys.next plainCodec) (SoundTurn plainCodec) (Sys.init none)
      (rainbowTurns { calmEnv with sends := sends }) := by
  have checked : ((Sys.init none).next plainCodec
      (calmEnv, .setConfigValues { mode := 3 })).config.lastCheck = 0 := rfl
  have kept : ((Sys.init none).next plainCodec
      (calmEnv, .setConfigValues { mode := 3 })).config.config = { mode := 3 } := rfl
  refine ⟨⟨nofun, ?_⟩, ⟨nofun, ?_⟩, trivial⟩
  · rw [kept]
    exact rainbow_sound
  · rw [tick_config, kept]
    · exact rainbow_sound
    · rw [checked]
      exact show (0 : UInt64) - 0 < fileCfgCheckIntervalNs by decide

/-- The device draws while a transfer is lost. -/
theorem lossy_displayed :
    ∃ rig, (initRig false).run id (looped ((transfersOf plainCodec (Sys.init none)
        (rainbowTurns lossyEnv)).flatMap signalsSent)) = .ok rig ∧
      unflagged rig.port = unflagged
        ⟨(transfersOf plainCodec (Sys.init none) (rainbowTurns lossyEnv)).foldl transmit
          (initSlave false), false⟩ ∧
      ∀ times : List UInt32, 4 ≤ times.length →
        ∃ quiet, ledsRun id rig.device (times.map .advance) = .ok quiet ∧
          (quiet.stage = .frame →
            Drawn (stateOf (initRegister false)) rig.device.slave.i2cState quiet.state ∧
              Lit id quiet quiet.state) ∧
          (quiet.stage ≠ .frame → ∀ now, ∃ next, ledsMode id quiet now = .ok next ∧
            next.stage = .frame) :=
  console_displayed id false plainCodec none (rainbowTurns lossyEnv) (rainbowTurns_sound _) _
    (signalsOf_looped _)

/-- Once registers have been sent as a whole, the strip shows them as soon as the bus has been quiet
for four steps of the loop. -/
theorem sent_displayed (sin : ℚ → ℚ) (isI2cConfigured : Bool) {earlier : List Transmission}
    {registers : RgbState}
    (steady : ∀ transmission ∈ earlier ++ sendOrder.map (Sys.sendI2C registers · true),
      ∃ reg, Steady reg ∧ FieldOf reg transmission) {moves : List Move}
    (same : signalsOf moves =
      (earlier ++ sendOrder.map (Sys.sendI2C registers · true)).flatMap signalsSent) :
    ∃ rig, (initRig isI2cConfigured).run sin moves = .ok rig ∧
      ∀ times : List UInt32, 4 ≤ times.length →
        ∃ quiet, ledsRun sin rig.device (times.map .advance) = .ok quiet ∧
          (quiet.stage = .frame → quiet.state = clampState registers ∧ Lit sin quiet quiet.state) ∧
          (quiet.stage ≠ .frame → ∀ now, ∃ next, ledsMode sin quiet now = .ok next ∧
            next.stage = .frame) := by
  have ⟨publishes, _, _⟩ := publishes_transfers (prepared_init isI2cConfigured) steady
  obtain ⟨front, signals, inProgress, write, published⟩ :=
    sent_stopped (prepared_init isI2cConfigured) steady
  -- no frame is drawn from the registers after reset any more, so any others stand for them
  have apart : registers ≠ { registers with mode := registers.mode + 1 } := by
    intro never
    have number := congrArg (fun state => state.mode.toNat) never
    simp only [UInt8.toNat_add, UInt8.toNat_one] at number
    omega
  rw [signals] at publishes same
  obtain ⟨rig, ran, frame, taken, flagged⟩ := @run_stopped sin _ (initRig isI2cConfigured)
    (frameInvariant_init isI2cConfigured) (taken_init isI2cConfigured) moves front same publishes
    inProgress write { registers with mode := registers.mode + 1 }
  have shown : rig.device.slave.i2cState = registers :=
    (congrArg (fun port => port.slave.i2cState) flagged).symm.trans published
  have drawable : Drawable rig.device.slave.i2cState := by
    have last := publishes.parts.2.2
    rw [signals_append] at published
    rw [shown, ← published]
    exact last
  refine ⟨rig, ran, fun times late => ?_⟩
  obtain ⟨quiet, went, drawn, next⟩ := @quiet_lit sin _ _ frame taken drawable times late
  refine ⟨quiet, went, fun stage => ?_, next⟩
  have ⟨state, lit⟩ := drawn stage
  rw [shown] at state
  exact ⟨state.resolve_right fun never => apart never.1, lit⟩

/-- Once a command and a tick of a console that is awake have sent a configuration, the strip shows
it as soon as the bus has been quiet for four steps of the loop, whatever has been lost before and
whatever steps the loop has taken between the signals, if nobody has sent raw bytes and every
configuration has been sound. -/
theorem configuration_displayed (sin : ℚ → ℚ) (isI2cConfigured : Bool) (codec : Codec)
    (file : Option ConfigFile) (front : List Turn) (env env' : SysEnv) (cfg : CfgSet)
    (sound : EachStep (Sys.next codec) (SoundTurn codec) (Sys.init file)
      (front ++ [(env, .setConfigValues cfg), (env', .tick)]))
    (awake : (front.foldl (Sys.next codec) (Sys.init file)).sleeping = false)
    (opens : env'.opens = true) (sends : ∀ number, env'.sends number = true)
    (kept : NotReloaded codec env env' cfg (front.foldl (Sys.next codec) (Sys.init file)))
    (moves : List Move)
    (same : signalsOf moves = (transfersOf codec (Sys.init file)
      (front ++ [(env, .setConfigValues cfg), (env', .tick)])).flatMap signalsSent) :
    ∃ rig, (initRig isI2cConfigured).run sin moves = .ok rig ∧
      ∀ times : List UInt32, 4 ≤ times.length →
        ∃ quiet, ledsRun sin rig.device (times.map .advance) = .ok quiet ∧
          (quiet.stage = .frame → ∃ registers, Matches registers cfg ∧
            quiet.state = clampState registers ∧ Lit sin quiet quiet.state) ∧
          (quiet.stage ≠ .frame → ∀ now, ∃ next, ledsMode sin quiet now = .ok next ∧
            next.stage = .frame) := by
  let sys := front.foldl (Sys.next codec) (Sys.init file)
  have sent : transfersOf codec (Sys.init file)
      (front ++ [(env, .setConfigValues cfg), (env', .tick)]) =
        transfersOf codec (Sys.init file) front ++
          sendOrder.map (Sys.sendI2C (Sys.setupReg cfg sys.reg) · true) := by
    have both : transfersOf codec sys [(env, .setConfigValues cfg), (env', .tick)] =
        applied codec env env' cfg sys := by
      rw [transfersOf, transfersOf, transfersOf, List.append_nil]
      rfl
    rw [transfersOf_append, both, applied_sent awake opens sends kept]
  have steady := transfers_steady (steady_init file) sound
  rw [sent] at steady same
  have ⟨rig, ran, shown⟩ := sent_displayed sin isI2cConfigured steady same
  refine ⟨rig, ran, fun times late => ?_⟩
  have ⟨quiet, went, drawn, next⟩ := shown times late
  exact ⟨quiet, went, fun stage => ⟨_, Sys.setupReg_matches cfg sys.reg, drawn stage⟩, next⟩

/-- The rainbow is shown. -/
theorem rainbow_configured :
    ∃ rig, (initRig true).run id (looped ((transfersOf plainCodec (Sys.init none)
        (rainbowTurns calmEnv)).flatMap signalsSent)) = .ok rig ∧
      ∀ times : List UInt32, 4 ≤ times.length →
        ∃ quiet, ledsRun id rig.device (times.map .advance) = .ok quiet ∧
          (quiet.stage = .frame → ∃ registers, Matches registers { mode := 3 } ∧
            quiet.state = clampState registers ∧ Lit id quiet quiet.state) ∧
          (quiet.stage ≠ .frame → ∀ now, ∃ next, ledsMode id quiet now = .ok next ∧
            next.stage = .frame) :=
  configuration_displayed id true plainCodec none [] calmEnv calmEnv { mode := 3 }
    (rainbowTurns_sound _) rfl rfl (fun _ => rfl) (init_notReloaded _) _ (signalsOf_looped _)

end Fly2040.System
