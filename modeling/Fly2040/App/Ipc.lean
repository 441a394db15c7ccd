import Fly2040.App.SysRgbIpc
import Fly2040.Leds.Slave
/-!
# Commands of clients

A client hands the system module a buffer with each command that carries a structure. The module
reads or writes the structure at the address of the buffer. Only the command that asks for the
context compares the length of the buffer with the size of the structure. The representation of
floats is a parameter.
-/

namespace Fly2040.App

open Bytes Leds

/-- Representation of floats. -/
structure FloatBits where
  /-- Bits of a float. -/
  bits : ℚ → UInt32
  /-- Float of some bits. -/
  value : UInt32 → ℚ

/-- Bytes of a flag in memory. -/
def flagByte (flag : Bool) : UInt8 := if flag then 1 else 0

namespace CfgSet

/-- Bytes of a configuration in memory. -/
def size : Nat := 52

/-- Words of a configuration in memory. -/
def words (floats : FloatBits) (cfg : CfgSet) : List UInt32 := [
  cfg.mode,
  le32 (flagByte cfg.loadCpu) (flagByte cfg.loadGpu) (byte16 cfg.padding 0) (byte16 cfg.padding 1),
  cfg.updateMs,
  cfg.numPixels,
  floats.bits cfg.load.brightness,
  floats.bits cfg.temperature.brightness,
  floats.bits cfg.cycle.brightness,
  floats.bits cfg.cycle.speed,
  floats.bits cfg.rainbow.brightness,
  floats.bits cfg.rainbow.speed,
  floats.bits cfg.pulse.brightness,
  floats.bits cfg.pulse.speed,
  floats.bits cfg.pulse.hue]

/-- The configuration at an address. -/
def ofMemory (floats : FloatBits) (memory : Memory) (address : Nat) : CfgSet where
  mode := word32 memory address
  loadCpu := memory (address + 4) ≠ 0
  loadGpu := memory (address + 5) ≠ 0
  padding := le16 (memory (address + 6)) (memory (address + 7))
  updateMs := word32 memory (address + 8)
  numPixels := word32 memory (address + 12)
  load := ⟨floats.value (word32 memory (address + 16))⟩
  temperature := ⟨floats.value (word32 memory (address + 20))⟩
  cycle := ⟨⟨floats.value (word32 memory (address + 24))⟩,
    floats.value (word32 memory (address + 28))⟩
  rainbow := ⟨⟨floats.value (word32 memory (address + 32))⟩,
    floats.value (word32 memory (address + 36))⟩
  pulse := ⟨⟨⟨floats.value (word32 memory (address + 40))⟩,
    floats.value (word32 memory (address + 44))⟩, floats.value (word32 memory (address + 48))⟩

end CfgSet

/-- Bytes of the log. -/
def maxLog : Nat := 512

/-- What the system module tells about itself. -/
structure SysRgbContext where
  /-- The monitor of the cores runs. -/
  cpumon : UInt8
  /-- The other monitor runs. -/
  genmon : UInt8
  /-- Not used. -/
  config : UInt8
  /-- The device is used. -/
  i2c : UInt8
  /-- Load of each core. -/
  cpumonValues : Fin 4 → ℚ
  /-- Average load of the cores. -/
  cpumonAverage : ℚ
  /-- Value of the other monitor. -/
  genmonValue : ℚ
  /-- Where the log is written. -/
  put : UInt32
  /-- Where the log is read. -/
  get : UInt32
  /-- The log. -/
  log : Fin maxLog → UInt8

namespace SysRgbContext

/-- Bytes of the context in memory. -/
def size : Nat := 548

/-- The context in memory. -/
def toBytes (floats : FloatBits) (context : SysRgbContext) : List UInt8 :=
  [context.cpumon, context.genmon, context.config, context.i2c] ++
    (List.ofFn context.cpumonValues).flatMap (fun load => wordBytes (floats.bits load)) ++
    wordBytes (floats.bits context.cpumonAverage) ++ wordBytes (floats.bits context.genmonValue) ++
    wordBytes context.put ++ wordBytes context.get ++ List.ofFn context.log

end SysRgbContext

/-- The number of a core is one of four. -/
theorem toNat_lt_four {id : Int} (inside : 0 ≤ id ∧ id < 4) : id.toNat < 4 := by omega

/-- Average load of a core over time, or of all of them. -/
def CpuMon.avg (idleAvg : Fin 4 → ℚ) (id : Int) : ℚ :=
  if inside : 0 ≤ id ∧ id < 4 then idleAvg ⟨id.toNat, toNat_lt_four inside⟩
  else (∑ core, idleAvg core) / 4

/-- The system module as its clients see it. -/
structure Server where
  /-- The system module. -/
  sys : Sys
  /-- What it tells about itself. -/
  context : SysRgbContext
  /-- Where the log stream is written and read. -/
  logPos : UInt32 × UInt32

/-- A buffer of a client. -/
structure IpcBuffer where
  /-- Its address. -/
  pointer : Nat
  /-- Its length. -/
  size : Nat

/-- Commands that carry a structure. -/
inductive IpcCommand where
  /-- Tell about the system module. -/
  | getCurrentContext
  /-- Tell the configuration. -/
  | getConfigValues
  /-- Replace the configuration. -/
  | setConfigValues
deriving DecidableEq

/-- What a command leaves. -/
structure Reply where
  /-- Result; zero is success. -/
  result : UInt32
  /-- The system module. -/
  server : Server
  /-- Memory. -/
  memory : Memory
  /-- Addresses that were read or written for the client. -/
  touched : List Nat

/-- Number of the error of a short buffer. -/
def sysRgbErrorInvalidSize : UInt32 := 2

/-- Result of an error of the system module. -/
def sysrgbError (desc : UInt32) : UInt32 :=
  ((420 : UInt32) &&& (0x1FF : UInt32)) ||| ((desc &&& (0x1FFF : UInt32)) <<< (9 : UInt32))

section Commands

variable (codec : Codec) (floats : FloatBits) (env : SysEnv) (idleAvg : Fin 4 → ℚ)
  (server : Server) (buffer : IpcBuffer) (memory : Memory)

/-- The context after it has been brought up to date. -/
def currentContext : SysRgbContext :=
  { server.context with
    put := server.logPos.1
    get := server.logPos.2
    cpumon := flagByte server.sys.cpuMon.running
    genmon := flagByte server.sys.genMon.running
    cpumonValues := fun core => CpuMon.get env.measured core.val
    cpumonAverage := CpuMon.avg idleAvg (-1)
    genmonValue := server.sys.genMon.get env.measured }

/-- Tell about the system module. -/
def getCurrentContext : Reply :=
  if buffer.size < SysRgbContext.size then
    ⟨sysrgbError sysRgbErrorInvalidSize, server, memory, []⟩
  else
    let context := currentContext env idleAvg server
    ⟨0, { server with context := context },
      storeBytes memory buffer.pointer (context.toBytes floats),
      List.range' buffer.pointer SysRgbContext.size⟩

/-- Tell the configuration. -/
def getConfigValues : Reply :=
  ⟨0, server, storeBytes memory buffer.pointer
    ((server.sys.config.config.words floats).flatMap wordBytes),
    List.range' buffer.pointer CfgSet.size⟩

/-- Replace the configuration. -/
def setConfigValues : Reply :=
  ⟨0, { server with
      sys := (server.sys.setConfigValues codec env (.ofMemory floats memory buffer.pointer)).1 },
    memory, List.range' buffer.pointer CfgSet.size⟩

/-- Carry out a command. -/
def IpcCommand.run : IpcCommand → Reply
  | getCurrentContext => App.getCurrentContext floats env idleAvg server buffer memory
  | getConfigValues => App.getConfigValues floats server buffer memory
  | setConfigValues => App.setConfigValues codec floats env server buffer memory

end Commands

/-- Bytes of the structure that a command carries. -/
def IpcCommand.structureSize : IpcCommand → Nat
  | getCurrentContext => SysRgbContext.size
  | getConfigValues | setConfigValues => CfgSet.size

section Layout

variable {floats : FloatBits}

/-- The words of a configuration are as many bytes as the structure has. -/
theorem words_length (floats : FloatBits) (cfg : CfgSet) :
    ((cfg.words floats).flatMap wordBytes).length = CfgSet.size := rfl

/-- The bytes of the context are as many as the structure has. -/
theorem toBytes_length (floats : FloatBits) (context : SysRgbContext) :
    (context.toBytes floats).length = SysRgbContext.size := by
  have log : (List.ofFn context.log).length = 512 := List.length_ofFn
  simp only [SysRgbContext.toBytes, List.length_append, log]
  rfl

/-- Words that are stored one after the other are read back. -/
theorem word32_storeBytes (memory : Memory) (address : Nat) (words : List UInt32) {index : Nat}
    (inside : index < words.length) :
    word32 (storeBytes memory address (words.flatMap wordBytes)) (address + 4 * index) =
      words.get ⟨index, inside⟩ := by
  have sized : ∀ word ∈ words, (wordBytes word).length = 4 := fun word _ => wordBytes_length word
  have count := flatMap_length sized
  apply word32_of_bytes
  intro offset small
  have place : address + 4 * index + offset - address = 4 * index + offset := by omega
  rw [storeBytes, if_pos (by omega), place, List.getD_eq_getElem?_getD,
    flatMap_getElem? sized small, List.getElem?_eq_getElem inside, Option.bind_some,
    wordBytes_getElem? _ small]
  rfl

/-- A flag is read back. -/
theorem flagByte_ne_zero (flag : Bool) : decide (flagByte flag ≠ 0) = flag := by
  cases flag <;> rfl

/-- The bytes of a word that is put together. -/
theorem byte32_le32 (b0 b1 b2 b3 : UInt8) {offset : Nat} (small : offset < 4) :
    byte32 (le32 b0 b1 b2 b3) offset = [b0, b1, b2, b3].getD offset 0 := by
  have stored := byte32_word32 (fun address => [b0, b1, b2, b3].getD address 0) 0 offset small
  rw [Nat.zero_add] at stored
  exact stored

attribute [ext] CfgSet

/-- A configuration that is stored is read back. -/
theorem ofMemory_storeBytes (faithful : ∀ float, floats.value (floats.bits float) = float)
    (memory : Memory) (address : Nat) (cfg : CfgSet) :
    CfgSet.ofMemory floats
      (storeBytes memory address ((cfg.words floats).flatMap wordBytes)) address = cfg := by
  have word : ∀ index (inside : index < 13),
      word32 (storeBytes memory address ((cfg.words floats).flatMap wordBytes))
        (address + 4 * index) = (cfg.words floats).get ⟨index, inside⟩ :=
    fun _ inside => word32_storeBytes memory address (cfg.words floats) inside
  have byte : ∀ offset < 4,
      storeBytes memory address ((cfg.words floats).flatMap wordBytes) (address + 4 + offset) =
        [flagByte cfg.loadCpu, flagByte cfg.loadGpu, byte16 cfg.padding 0,
          byte16 cfg.padding 1].getD offset 0 := by
    intro offset small
    have first := congrArg (fun word => byte32 word offset) (word 1 (by omega))
    exact (byte32_word32 _ _ _ small).symm.trans (first.trans (byte32_le32 _ _ _ _ small))
  have float : ∀ index (inside : index < 13) (float : ℚ),
      (cfg.words floats).get ⟨index, inside⟩ = floats.bits float → floats.value
        (word32 (storeBytes memory address ((cfg.words floats).flatMap wordBytes))
          (address + 4 * index)) = float := by
    intro index inside float bits
    rw [word index inside, bits, faithful]
  apply CfgSet.ext
  case mode => exact word 0 (by omega)
  case loadCpu =>
    have flag := congrArg (decide <| · ≠ 0) (byte 0 (by omega))
    exact flag.trans (flagByte_ne_zero _)
  case loadGpu =>
    have flag := congrArg (decide <| · ≠ 0) (byte 1 (by omega))
    exact flag.trans (flagByte_ne_zero _)
  case padding =>
    have halves := congrArg₂ le16 (byte 2 (by omega)) (byte 3 (by omega))
    exact halves.trans (le16_byte16 _)
  case updateMs => exact word 2 (by omega)
  case numPixels => exact word 3 (by omega)
  case load => exact congrArg CfgItem.mk (float 4 (by omega) _ rfl)
  case temperature => exact congrArg CfgItem.mk (float 5 (by omega) _ rfl)
  case cycle =>
    exact congrArg₂ (fun brightness => CfgItemSpd.mk ⟨brightness⟩) (float 6 (by omega) _ rfl)
      (float 7 (by omega) _ rfl)
  case rainbow =>
    exact congrArg₂ (fun brightness => CfgItemSpd.mk ⟨brightness⟩) (float 8 (by omega) _ rfl)
      (float 9 (by omega) _ rfl)
  case pulse =>
    have cycle := congrArg₂ (fun brightness => CfgItemSpd.mk ⟨brightness⟩)
      (float 10 (by omega) _ rfl) (float 11 (by omega) _ rfl)
    exact congrArg₂ CfgItemHue.mk cycle (float 12 (by omega) _ rfl)

end Layout

end Fly2040.App
