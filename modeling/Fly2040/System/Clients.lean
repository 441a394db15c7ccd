import Fly2040.App.Ipc
import Fly2040.System.Converge
/-!
# Buffers of clients

The buffer of a client has the length that the client says. A command that compares it with the
size of its structure refuses a short buffer without any effect. The commands that do not compare
read or write the bytes behind the buffer.
-/

namespace Fly2040.System

open Bytes Leds App

/-- A buffer that is too short is refused without effect, and only the buffer is touched. -/
structure BufferRespected (size : Nat) (buffer : IpcBuffer) (before : Server) (reply : Reply) :
    Prop where
  /-- A short buffer is an error. -/
  error : buffer.size < size → reply.result ≠ 0
  /-- The configuration is the same. -/
  config : buffer.size < size → reply.server.sys.config.config = before.sys.config.config
  /-- Whether it is to be written is the same. -/
  cfgChanged : buffer.size < size → reply.server.sys.cfgChanged = before.sys.cfgChanged
  /-- The copy of the registers is the same. -/
  reg : buffer.size < size → reply.server.sys.reg = before.sys.reg
  /-- Only bytes of the buffer are read or written. -/
  inside : ∀ address ∈ reply.touched,
    buffer.pointer ≤ address ∧ address < buffer.pointer + buffer.size

section Handlers

variable {codec : Codec} {floats : FloatBits} {env : SysEnv} {idleAvg : Fin 4 → ℚ}
  {server : Server} {buffer : IpcBuffer} {memory : Memory}

/-- What is touched inside a range. -/
theorem range'_inside_iff (pointer count size : Nat) (some : 0 < count) :
    (∀ address ∈ List.range' pointer count, pointer ≤ address ∧ address < pointer + size) ↔
      count ≤ size := by
  constructor
  · intro inside
    have last := inside (pointer + (count - 1)) (List.mem_range'_1.mpr ⟨by omega, by omega⟩)
    omega
  · intro enough address touched
    have range := List.mem_range'_1.mp touched
    omega

/-- The command that asks for the context respects every buffer. -/
theorem getCurrentContext_respects :
    BufferRespected SysRgbContext.size buffer server
      (getCurrentContext floats env idleAvg server buffer memory) := by
  have refused : sysrgbError sysRgbErrorInvalidSize ≠ 0 := by decide
  by_cases short : buffer.size < SysRgbContext.size
  · rw [getCurrentContext, if_pos short]
    exact ⟨fun _ => refused, fun _ => rfl, fun _ => rfl, fun _ => rfl, nofun⟩
  · rw [getCurrentContext, if_neg short]
    have inside := (range'_inside_iff buffer.pointer SysRgbContext.size buffer.size
      (by decide)).mpr (Nat.le_of_not_lt short)
    exact ⟨fun less => absurd less short, fun less => absurd less short,
      fun less => absurd less short, fun less => absurd less short, inside⟩

/-- A command that succeeds without comparing lengths respects the buffers that are long
enough. -/
theorem respects_iff_of_success {size : Nat} {reply : Reply} (some : 0 < size)
    (success : reply.result = 0) (touched : reply.touched = List.range' buffer.pointer size) :
    BufferRespected size buffer server reply ↔ size ≤ buffer.size := by
  constructor
  · intro respected
    by_contra short
    exact respected.error (Nat.lt_of_not_le short) success
  · intro enough
    have inside := (range'_inside_iff buffer.pointer size buffer.size some).mpr enough
    rw [← touched] at inside
    have short : ¬ buffer.size < size := Nat.not_lt.mpr enough
    exact ⟨fun less => absurd less short, fun less => absurd less short,
      fun less => absurd less short, fun less => absurd less short, inside⟩

end Handlers

/-- A command respects the buffer of its client exactly if it asks for the context or the buffer
is long enough. -/
theorem buffer_respected_iff (codec : Codec) (floats : FloatBits) (env : SysEnv)
    (idleAvg : Fin 4 → ℚ) (server : Server) (buffer : IpcBuffer) (memory : Memory)
    (command : IpcCommand) :
    BufferRespected command.structureSize buffer server
        (command.run codec floats env idleAvg server buffer memory) ↔
      command = .getCurrentContext ∨ command.structureSize ≤ buffer.size := by
  cases command with
  | getCurrentContext => exact iff_of_true getCurrentContext_respects (.inl rfl)
  | getConfigValues =>
    rw [or_iff_right nofun]
    exact respects_iff_of_success (by decide) rfl rfl
  | setConfigValues =>
    rw [or_iff_right nofun]
    exact respects_iff_of_success (by decide) rfl rfl

/-- Floats that are all zero. -/
def zeroFloats : FloatBits := ⟨fun _ => 0, fun _ => 0⟩

/-- The system module after it has started. -/
def startedServer : Server where
  sys := Sys.init none
  context := ⟨0, 0, 0, 0, fun _ => 0, 0, 0, 0, 0, fun _ => 0⟩
  logPos := (0, 0)

/-- A buffer of one byte replaces the configuration by what lies behind it. -/
theorem short_buffer_accepted :
    ¬ BufferRespected CfgSet.size ⟨0x1000, 1⟩ startedServer
      (setConfigValues plainCodec zeroFloats calmEnv startedServer ⟨0x1000, 1⟩ fun _ => 3) := by
  intro respected
  exact absurd rfl (respected.error (by decide))

end Fly2040.System
