import Fly2040.Leds.Registers
/-!
# I2C slave

The interrupt handler of the LED device implements a byte memory: a write transaction names an
address and stores the bytes after it at consecutive addresses, wrapping at 256. At the end of
a transaction it publishes the registers as a whole, if the last data transferred was written.
-/

namespace Fly2040.Leds

open Bytes

/-- State of the interrupt handler. -/
structure I2cContext where
  /-- Register memory. -/
  reg : Memory
  /-- Address of the next byte. -/
  memAddress : UInt8
  /-- The address of this transaction has been received. -/
  memAddressWritten : Bool
  /-- Registers have been published and not taken yet. -/
  updateReady : Bool
  /-- The last data transferred was written. -/
  write : Bool

/-- The interrupt handler and the registers it has published. -/
structure Slave where
  /-- State of the handler. -/
  context : I2cContext
  /-- Published registers. -/
  i2cState : RgbState

/-- An event of the bus. -/
inductive Event where
  /-- The master has written a byte. -/
  | receive (byte : UInt8)
  /-- The master requests a byte. -/
  | request
  /-- The master has signalled a stop or a restart. -/
  | finish

/-- The handler. -/
def slaveHandler (slave : Slave) : Event → Slave
  | .receive byte =>
    if !slave.context.memAddressWritten then
      { slave with context.memAddress := byte, context.memAddressWritten := true }
    else
      { slave with
        context.reg := Function.update slave.context.reg slave.context.memAddress.toNat byte
        context.memAddress := slave.context.memAddress + 1
        context.write := true }
  | .request =>
    { slave with
      context.memAddress := slave.context.memAddress + 1
      context.write := false }
  | .finish =>
    if slave.context.write then
      { slave with
        context.memAddressWritten := false
        i2cState := stateOf slave.context.reg
        context.updateReady := true }
    else { slave with context.memAddressWritten := false }

/-- The byte sent to the master in an event. -/
def slaveReply (slave : Slave) : Event → Option UInt8
  | .request => some (slave.context.reg slave.context.memAddress.toNat)
  | _ => none

/-- The handler over a sequence of events. -/
def slaveEvents (slave : Slave) (events : List Event) : Slave := events.foldl slaveHandler slave

/-- Registers after reset, dark once an i2c master has configured the device. -/
def initRegister (isI2cConfigured : Bool) : Memory := pack {
  mode := UInt8.ofNat (if isI2cConfigured then RgbMode.off else RgbMode.cycle).number
  numPixels := 9
  brightness := f2u32 1
  scale := f2u32 0
  speed := f2u32 5000
  hue := f2u32 0 }

/-- The handler after reset. -/
def initSlave (isI2cConfigured : Bool) : Slave where
  context := ⟨initRegister isI2cConfigured, 0, false, false, false⟩
  i2cState := stateOf (initRegister isI2cConfigured)

/-- A transaction that writes bytes from an address on. -/
def writeTransaction (address : UInt8) (data : List UInt8) : List Event :=
  .receive address :: (data.map .receive ++ [.finish])

/-- Store bytes from an address on. -/
def storeBytes (mem : Memory) (address : Nat) (data : List UInt8) : Memory := fun index =>
  if address ≤ index ∧ index < address + data.length then data.getD (index - address) 0
  else mem index

/-- Storing bytes one after the other. -/
theorem storeBytes_cons (mem : Memory) (address : Nat) (byte : UInt8) (rest : List UInt8) :
    storeBytes mem address (byte :: rest) =
      storeBytes (Function.update mem address byte) (address + 1) rest := by
  funext index
  simp only [storeBytes, List.length_cons]
  by_cases first : index = address
  · subst first
    rw [if_pos (by omega), if_neg (by omega), Function.update_self, Nat.sub_self]
    rfl
  · rw [Function.update_of_ne first]
    by_cases inside : address ≤ index ∧ index < address + (rest.length + 1)
    · have split : index - address = (index - (address + 1)) + 1 := by omega
      rw [if_pos inside, if_pos (by omega), split, List.getD_cons_succ]
    · rw [if_neg inside, if_neg (by omega)]

/-- Storing nothing. -/
@[simp] theorem storeBytes_nil (mem : Memory) (address : Nat) : storeBytes mem address [] = mem := by
  funext index
  rw [storeBytes, if_neg (by simp)]

/-- Storing keeps the bytes elsewhere. -/
theorem storeBytes_outside (mem : Memory) {address index : Nat} {data : List UInt8}
    (outside : index < address ∨ address + data.length ≤ index) :
    storeBytes mem address data index = mem index := by
  rw [storeBytes, if_neg (by omega)]

/-- Bytes stored from another memory at the same address are those of that memory. -/
theorem storeBytes_readBytes (mem other : Memory) {address count index : Nat}
    (inside : address ≤ index ∧ index < address + count) :
    storeBytes mem address (readBytes other address count) index = other index := by
  rw [storeBytes, readBytes_length, if_pos inside, readBytes_getD, if_pos (by omega),
    Nat.add_sub_cancel' inside.1]

/-- Data bytes that do not wrap are stored in order. -/
theorem slaveEvents_receive (data : List UInt8) (reg : Memory) (address : UInt8)
    (updateReady write : Bool) (state : RgbState) (fits : address.toNat + data.length ≤ 256) :
    ∃ next, slaveEvents ⟨⟨reg, address, true, updateReady, write⟩, state⟩ (data.map .receive) =
      ⟨⟨storeBytes reg address.toNat data, next, true, updateReady, write || !data.isEmpty⟩,
        state⟩ := by
  induction data generalizing reg address write with
  | nil => exact ⟨address, by simp [slaveEvents]⟩
  | cons byte rest ih =>
    rw [List.length_cons] at fits
    have stored : slaveHandler ⟨⟨reg, address, true, updateReady, write⟩, state⟩ (.receive byte) =
        ⟨⟨Function.update reg address.toNat byte, address + 1, true, updateReady, true⟩, state⟩ :=
      rfl
    rw [List.map_cons, slaveEvents, List.foldl_cons, storeBytes_cons, stored]
    cases rest with
    | nil => exact ⟨address + 1, by simp⟩
    | cons second others =>
      rw [List.length_cons] at fits
      have next : (address + 1).toNat = address.toNat + 1 := by
        rw [UInt8.toNat_add]
        exact Nat.mod_eq_of_lt (by change _ + 1 < 256; omega)
      have tail := ih (Function.update reg address.toNat byte) (address + 1) true
        (by rw [next, List.length_cons]; omega)
      rw [next] at tail
      simpa [slaveEvents] using tail

/-- Between transactions the handler waits for an address. -/
def Slave.Idle (slave : Slave) : Prop := slave.context.memAddressWritten = false

/-- A transaction that writes data stores it and publishes the registers. -/
theorem slaveEvents_writeTransaction {slave : Slave} {address : UInt8} {data : List UInt8}
    (idle : slave.Idle) (some : data ≠ []) (fits : address.toNat + data.length ≤ 256) :
    ∃ next, slaveEvents slave (writeTransaction address data) =
      ⟨⟨storeBytes slave.context.reg address.toNat data, next, false, true, true⟩,
        stateOf (storeBytes slave.context.reg address.toNat data)⟩ := by
  obtain ⟨⟨reg, memAddress, memAddressWritten, updateReady, write⟩, state⟩ := slave
  have idle' : memAddressWritten = false := idle
  subst idle'
  obtain ⟨next, stored⟩ := slaveEvents_receive data reg address updateReady write state fits
  have written : (!data.isEmpty) = true := by simp [some]
  rw [written, Bool.or_true] at stored
  refine ⟨next, ?_⟩
  rw [slaveEvents] at stored
  rw [writeTransaction, slaveEvents, List.foldl_cons, List.foldl_append]
  have addressed : slaveHandler ⟨⟨reg, memAddress, false, updateReady, write⟩, state⟩
      (.receive address) = ⟨⟨reg, address, true, updateReady, write⟩, state⟩ := by
    simp [slaveHandler]
  rw [addressed, stored]
  simp [slaveHandler]

end Fly2040.Leds
