import Fly2040.Firmware.Transfers
/-!
# Bytes that are read from the lines

What a machine has received from the DAT line is read as the bytes that its bits spell. A reply on
the CMD line is read together with its start bit, which the machine has dropped: the host moves
every word by one bit, puts the last bit of the word before in front, and so loses the last bit of
all.
-/

namespace Fly2040.Firmware

open Bits Pio Steps

/-- Ask the machine of the CMD line for bytes. -/
def cmdReadRequest (size : Nat) (sm : Sm) : Sm := datReadRequest size sm

/-- Take bytes from the words that polls find before the time is over, behind the last bit of the
word before; the bytes and whether they are all. -/
def cmdReadLoop : (lastBit : UInt32) → (size : Nat) → (polls : List (Option UInt32)) →
    List UInt8 × Bool
  | _, 0, _ => ([], true)
  | _, _ + 1, [] => ([], false)
  | lastBit, size + 1, none :: polls => cmdReadLoop lastBit (size + 1) polls
  | lastBit, size + 1, some data :: polls =>
    let moved := if size + 1 < 4 then data <<< UInt32.ofNat ((4 - (size + 1)) * 8) else data
    let corrected := (moved >>> 1) ||| (lastBit <<< 31)
    let stored := storeBytes corrected 4 (size + 1)
    let rest := cmdReadLoop (data &&& 1) stored.2 polls
    (stored.1 ++ rest.1, rest.2)

/-- Read a reply: the start bit is put back in front. -/
def cmdReadData (size : Nat) (polls : List (Option UInt32)) : List UInt8 × Bool :=
  cmdReadLoop 0 size polls

namespace Replies

open Receiver

/-- A bit as a word. -/
def ofBit (bit : Bool) : UInt32 := if bit then 1 else 0

/-- A word that is moved by one bit loses its last bit, behind the bit that is put in front. -/
theorem ofWord_moved (word : UInt32) (bit : Bool) :
    ofWord ((word >>> 1) ||| (ofBit bit <<< 31)) = bit :: (ofWord word).dropLast := by
  cases bit <;> simp [-BitVec.getLsbD_eq_getElem, ofWord_eq, ofBit]

/-- The last bit of a word as a word. -/
theorem ofWord_last {word : UInt32} {front : List Bool} {bit : Bool}
    (bits : ofWord word = front ++ [bit]) : word &&& 1 = ofBit bit := by
  have lowest : word.toBitVec.getLsbD 0 = bit := by
    have same := congrArg (List.getLast? ·) bits
    rw [List.getLast?_concat, ofWord_eq] at same
    exact Option.some.inj same
  apply ofWord_injective
  rw [← lowest]
  cases level : word.toBitVec.getLsbD 0 <;>
    simp [-BitVec.getLsbD_eq_getElem, ofWord_eq, ofBit, level]

/-- Bits that are moved by one are stored in front of the rest, which is moved by one too. -/
theorem take_moved {first : List Bool} (carried : Bool) (rest : List Bool) (size : Nat)
    (full : first.length = 32) :
    ∃ bit, first = first.dropLast ++ [bit] ∧
      (carried :: (first ++ rest)).take (8 * (size + 4)) =
        carried :: first.dropLast ++ (bit :: rest).take (8 * size) := by
  have some : first ≠ [] := List.ne_nil_of_length_pos (by omega)
  have last := (List.dropLast_append_getLast some).symm
  have length : (carried :: first.dropLast).length = 32 := by
    rw [List.length_cons, List.length_dropLast]
    omega
  refine ⟨first.getLast some, last, ?_⟩
  calc
    (carried :: (first ++ rest)).take (8 * (size + 4)) =
        (carried :: first.dropLast ++ first.getLast some :: rest).take (32 + 8 * size) := by
      conv_lhs => rw [last]
      rw [List.append_assoc, List.singleton_append, ← List.cons_append]
      congr 1
      omega
    _ = carried :: first.dropLast ++ (first.getLast some :: rest).take (8 * size) := by
      rw [← length, List.take_length_add_append]

/-- A word that is moved by one bit is stored without its last bit. -/
theorem storeBytes_moved (word : UInt32) (carried : Bool) (size : Nat) :
    let moved := (word >>> 1) ||| (ofBit carried <<< 31)
    ofBytes (storeBytes moved 4 size).1 =
        (carried :: (ofWord word).dropLast).take (8 * min 4 size) ∧
      (storeBytes moved 4 size).2 = size - 4 := by
  have ⟨bytes, left⟩ := storeBytes_bits ((word >>> 1) ||| (ofBit carried <<< 31)) 4 size
    (Nat.le_refl _)
  rw [ofWord_moved, Nat.sub_self, Nat.mul_zero, List.drop_zero] at bytes
  exact ⟨bytes, left⟩

/-- Bits that are sent on are read behind the bit that was left, and the last one is left. -/
theorem cmdReadLoop_found {size : Nat} {bits : List Bool} {polls : List (Option UInt32)}
    (carried : Bool) (found : Found size bits polls) :
    ofBytes (cmdReadLoop (ofBit carried) size polls).1 = (carried :: bits).take (8 * size) ∧
      (cmdReadLoop (ofBit carried) size polls).2 = true := by
  induction found generalizing carried with
  | nothing polls =>
    rw [cmdReadLoop]
    exact ⟨rfl, rfl⟩
  | later found ih =>
    rw [cmdReadLoop]
    exact ih carried
  | @last size bits polls count few =>
    have ⟨bytes, left⟩ := storeBytes_moved (UInt32.ofBitVec (packed 32 bits) <<<
      UInt32.ofNat ((4 - (size + 1)) * 8)) carried (size + 1)
    have zeros : List.replicate ((4 - (size + 1)) * 8) false ≠ [] :=
      List.ne_nil_of_length_pos (by rw [List.length_replicate]; omega)
    rw [ofWord_aligned count (Nat.succ_pos size) few, List.dropLast_append_of_ne_nil zeros,
      ← List.cons_append, Nat.min_eq_right (Nat.le_of_lt few),
      List.take_append_of_le_length (by rw [List.length_cons]; omega)] at bytes
    rw [show size + 1 - 4 = 0 by omega] at left
    rw [cmdReadLoop]
    dsimp only
    rw [if_pos few, left, cmdReadLoop, ofBytes_append, bytes]
    exact ⟨List.append_nil _, rfl⟩
  | @whole size first rest polls full found ih =>
    have ⟨bit, last, same⟩ := take_moved carried rest size full
    have bits : ofWord (UInt32.ofBitVec (packed 32 first)) = first := highFirst_packed_full full
    have ⟨bytes, left⟩ :=
      storeBytes_moved (UInt32.ofBitVec (packed 32 first)) carried (size + 4)
    have length : (carried :: first.dropLast).length = 8 * min 4 (size + 4) := by
      rw [List.length_cons, List.length_dropLast]
      omega
    rw [bits, ← length, List.take_length] at bytes
    rw [Nat.add_sub_cancel] at left
    rw [cmdReadLoop]
    dsimp only
    rw [if_neg (by omega), left, ofWord_last (bits.trans last), ofBytes_append, bytes, (ih bit).1,
      same]
    exact ⟨rfl, (ih bit).2⟩

/-- Bytes of so many bits have the bits in their order. -/
theorem bytes_of_bits {bytes : List UInt8} {bits : List Bool} {size : Nat}
    (count : bits.length = 8 * size) (same : ofBytes bytes = bits) :
    bytes.length = size ∧
      ∀ index (inside : index < bytes.length),
        ofByte bytes[index] = (bits.drop (8 * index)).take 8 := by
  constructor
  · rw [← same, ofBytes_length] at count
    omega
  rw [← same]
  clear same count
  induction bytes with
  | nil =>
    intro index inside
    exact absurd inside (Nat.not_lt_zero _)
  | cons byte bytes ih =>
    intro index inside
    cases index with
    | zero =>
      rw [Nat.mul_zero, List.drop_zero, ofBytes_cons, List.take_left' (ofByte_length byte)]
      rfl
    | succ index =>
      have length := ofByte_length byte
      rw [List.getElem_cons_succ, ih index (Nat.lt_of_succ_lt_succ inside), ofBytes_cons,
        show 8 * (index + 1) = (ofByte byte).length + 8 * index by omega,
        List.drop_length_add_append]

end Replies

section Read

variable {size : Nat} {bits : List Bool}

/-- Both lines are read as the bytes of what their machines receive, whatever their number: the DAT
line from the first bit behind the start bit on, the CMD line from the start bit on, and both reads
are complete if the words are found in time. -/
theorem bytes_read (some : 1 ≤ size) (count : bits.length = 8 * size) :
    (∀ sm env more, size * 8 < 2 ^ 32 → Receiver.Ready sm →
      Receiver.Reception env sm.cycle ([false] ++ (bits ++ more)) →
      (∃ last, Reaches (step env inCmdOrDat) (datReadRequest size sm) last ∧ last.pc = 0 ∧
        last.rx = Receiver.pushed bits) ∧
      ∃ last, Reaches (step env inCmdOrDat) (cmdReadRequest size sm) last ∧ last.pc = 0 ∧
        last.rx = Receiver.pushed bits) ∧
    ∀ polls, (Receiver.pushed bits).take ((size + 3) / 4) <+: polls.filterMap id →
      ((datReadData size polls).2 = true ∧ (datReadData size polls).1.length = size ∧
        ∀ k (inside : k < (datReadData size polls).1.length),
          ofByte (datReadData size polls).1[k] = (bits.drop (8 * k)).take 8) ∧
      (cmdReadData size polls).2 = true ∧ (cmdReadData size polls).1.length = size ∧
        ∀ k (inside : k < (cmdReadData size polls).1.length),
          ofByte (cmdReadData size polls).1[k] = ((false :: bits.dropLast).drop (8 * k)).take 8 := by
  constructor
  · intro sm env more fits ready reception
    have received := Receiver.receives ready some (count.trans (Nat.mul_comm 8 size)) fits reception
    exact ⟨received, received⟩
  · intro polls inside
    have found := Receiver.found_of_pushed count inside
    have ⟨dat, datAll⟩ := Receiver.datReadData_found found
    have ⟨cmd, cmdAll⟩ := Replies.cmdReadLoop_found false found
    have moved : (false :: bits).take (8 * size) = false :: bits.dropLast := by
      rw [show 8 * size = 8 * size - 1 + 1 by omega, List.take_succ_cons, List.dropLast_eq_take,
        count]
    have count' : (false :: bits.dropLast).length = 8 * size := by
      rw [List.length_cons, List.length_dropLast]
      omega
    exact ⟨⟨datAll, Replies.bytes_of_bits count dat⟩, cmdAll,
      Replies.bytes_of_bits count' (cmd.trans moved)⟩

end Read

/-- A reply of ones behind its start bit is received by the machine as it is set up, and read as the
bytes of a reply. -/
theorem ones_read :
    (∃ line last, Reaches (step line inCmdOrDat) (cmdReadRequest 6 startMmc) last ∧
        last.rx = Receiver.pushed (List.replicate 48 true)) ∧
      let polls := (Receiver.pushed (List.replicate 48 true)).map some
      (cmdReadData 6 polls).2 = true ∧ (cmdReadData 6 polls).1.length = 6 := by
  have ⟨received, read⟩ := @bytes_read 6 (List.replicate 48 true) (by decide) List.length_replicate
  have ⟨_, last, reaches, _, rx⟩ := received startMmc _ [] (by decide) ⟨rfl, rfl, rfl, rfl⟩
    (Receiver.replayReception 0 _)
  have inside : (Receiver.pushed (List.replicate 48 true)).take ((6 + 3) / 4) <+:
      ((Receiver.pushed (List.replicate 48 true)).map some).filterMap id := by
    rw [List.filterMap_map]
    exact List.filterMap_some.symm ▸ List.take_prefix _ _
  have ⟨_, all, length, _⟩ := read _ inside
  exact ⟨⟨_, last, reaches, rx⟩, all, length⟩

/-- The bits of a reply move by one. -/
example : cmdReadData 6 [none, some 0x7E001234, some 0x5678] =
    ([0x3F, 0x00, 0x09, 0x1A, 0x2B, 0x3C], true) := by decide

end Fly2040.Firmware
