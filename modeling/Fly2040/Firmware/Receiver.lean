import Fly2040.Firmware.Mmc
import Fly2040.Lib.Pio
/-!
# Receiving on the lines of the eMMC

A machine for each line of the eMMC waits for the low level of a start bit and then takes one bit in
every period of the clock. Its host takes bytes out of the words, the highest one first, and knows
that the last word may hold fewer than four. Bits that are on the line after a start bit become
the bytes that they spell.
-/

namespace Fly2040.Firmware

open Bits Pio Steps

/-- Program of the machine that receives. -/
def inCmdOrDat : List Op :=
  [⟨.out .x 32, 0⟩,
    ⟨.irqWait 1, 0⟩,
    ⟨.irqWait 0, 0⟩,
    ⟨.jmp .pin 3, 1⟩,
    ⟨.shiftIn .pins 1, 0⟩,
    ⟨.jmp .xDecrement 4, 0⟩,
    ⟨.push, 0⟩]

/-- Ask the machine for bytes. -/
def datReadRequest (size : Nat) (sm : Sm) : Sm :=
  { sm with tx := [UInt32.ofNat (size * 8 - 1)], rx := [], pc := 0 }

/-- Store bytes of a word, the highest one first, until all have been stored; the bytes that are
stored and the number of bytes that are not. -/
def storeBytes (word : UInt32) : (left size : Nat) → List UInt8 × Nat
  | 0, size => ([], size)
  | _ + 1, 0 => ([], 0)
  | left + 1, size + 1 =>
    let rest := storeBytes word left size
    (((word >>> UInt32.ofNat (left * 8)) &&& 0xFF).toUInt8 :: rest.1, rest.2)

/-- Take bytes from the words that polls find before the time is over; the bytes and whether they
are all. -/
def datReadData : (size : Nat) → (polls : List (Option UInt32)) → List UInt8 × Bool
  | 0, _ => ([], true)
  | _ + 1, [] => ([], false)
  | size + 1, none :: polls => datReadData (size + 1) polls
  | size + 1, some data :: polls =>
    let corrected := if size + 1 < 4 then data <<< UInt32.ofNat ((4 - (size + 1)) * 8) else data
    let stored := storeBytes corrected 4 (size + 1)
    let rest := datReadData stored.2 polls
    (stored.1 ++ rest.1, rest.2)

/-- What the buffer holds after a read of a block, and whether it is complete. Bytes that have not
come are those that it held before; a checksum that has not come is not looked at. -/
def mmcReceived (held : Block) (data : List UInt8 × Bool) : Received where
  completed := data.2
  block := fun index => data.1.getD index (held index)
  crc := (data.1.getD 512 0).toUInt16 <<< 8 ||| (data.1.getD 513 0).toUInt16

namespace Receiver

/-- Words that the machine sends on for bits: whole ones, and the rest at the end. -/
def pushed (bits : List Bool) : List UInt32 :=
  if bits.length < 32 then [UInt32.ofBitVec (packed 32 bits)]
  else UInt32.ofBitVec (packed 32 (bits.take 32)) :: pushed (bits.drop 32)
termination_by bits.length
decreasing_by
  rw [List.length_drop]
  omega

/-- Bits that do not fill a word are sent on at the end. -/
theorem pushed_short {bits : List Bool} (short : bits.length < 32) :
    pushed bits = [UInt32.ofBitVec (packed 32 bits)] := by
  rw [pushed, if_pos short]

/-- A word of bits is sent on before the rest. -/
theorem pushed_full {first : List Bool} (rest : List Bool) (full : first.length = 32) :
    pushed (first ++ rest) = UInt32.ofBitVec (packed 32 first) :: pushed rest := by
  rw [pushed, if_neg (by rw [List.length_append]; omega), List.take_left' full,
    List.drop_left' full]

/-- The machine can be asked for bytes: no bits are left from before. -/
structure Ready (sm : Sm) : Prop where
  /-- It runs. -/
  enabled : sm.enabled = true
  /-- It is not in a pause. -/
  delay : sm.delay = 0
  /-- No request is left. -/
  osr : sm.osr = []
  /-- No bits are left. -/
  isr : sm.isr = []

/-- What a machine that has been asked in a cycle finds: the command is sent, the card answers
later, and its bits are on the line, one in every period of the clock. -/
structure Reception (env : Env) (start : Nat) (bits : List Bool) where
  /-- The cycle in which the command has been sent. -/
  sent : Nat
  /-- The period of the clock in which the start bit is on the line. -/
  begin : Nat
  /-- The command is sent while the machine waits for it. -/
  after : start < sent
  /-- The machine that sends wakes this one up once. -/
  wake : ∀ cycle, start < cycle → cycle ≤ sent → (env.released cycle 1 = true ↔ cycle = sent)
  /-- The clock ticks in the second cycle of every period. -/
  clock : ∀ cycle, env.released cycle 0 = true ↔ cycle % 2 = 1
  /-- The card answers when the command has been sent. -/
  answer : (sent + 1) / 2 < begin
  /-- The line is released until then. -/
  quiet : ∀ period, (sent + 1) / 2 < period → period < begin → env.pin (2 * period) 0 = true
  /-- The bits are on the line, one in every period. -/
  data : ∀ index (inside : index < bits.length), env.pin (2 * (begin + index)) 0 = bits[index]

/-- The machine at an instruction in a cycle. -/
def place (sm : Sm) (pc cycle : Nat) : Sm := { sm with pc := pc, cycle := cycle, delay := 0 }

/-- The machine runs, and has taken its request. -/
structure Asked (sm : Sm) : Prop where
  /-- It runs. -/
  enabled : sm.enabled = true
  /-- No words are left. -/
  tx : sm.tx = []

section Instructions

variable {env : Env} {sm : Sm}

/-- A machine at an instruction carries it out. -/
theorem step_place (asked : Asked sm) (pc cycle : Nat) :
    step env inCmdOrDat (place sm pc cycle) = (place sm pc cycle).act env inCmdOrDat := by
  have dry : (place sm pc cycle).tx = [] := asked.tx
  have runs : ¬(place sm pc cycle).enabled = false := by
    show ¬sm.enabled = false
    rw [asked.enabled]
    decide
  rw [step, if_neg runs, if_pos (show (place sm pc cycle).delay = 0 from rfl), refill_of_dry _ dry]

/-- The wait for the command. -/
theorem step_wake (asked : Asked sm) (cycle : Nat) :
    step env inCmdOrDat (place sm 1 cycle) =
      if env.released cycle 1 then place sm 2 (cycle + 1) else place sm 1 (cycle + 1) := by
  rw [step_place asked]
  cases released : env.released cycle 1 <;>
    simp [Sm.act, place, inCmdOrDat, execute, following, released, Sm.idle]

/-- The wait for the clock. -/
theorem step_clock (asked : Asked sm) (cycle : Nat) :
    step env inCmdOrDat (place sm 2 cycle) =
      if env.released cycle 0 then place sm 3 (cycle + 1) else place sm 2 (cycle + 1) := by
  rw [step_place asked]
  cases released : env.released cycle 0 <;>
    simp [Sm.act, place, inCmdOrDat, execute, following, released, Sm.idle]

/-- The wait for the start bit, and the pause behind it. -/
theorem step_poll (asked : Asked sm) (cycle : Nat) :
    step env inCmdOrDat (step env inCmdOrDat (place sm 3 cycle)) =
      place sm (if env.pin cycle 0 then 3 else 4) (cycle + 2) := by
  have first : step env inCmdOrDat (place sm 3 cycle) =
      { place sm (if env.pin cycle 0 then 3 else 4) (cycle + 1) with delay := 1 } := by
    rw [step_place asked]
    cases level : env.pin cycle 0 <;>
      simp [Sm.act, place, inCmdOrDat, execute, following, Sm.taken, Sm.count, level]
  rw [first]
  simp [step, place, asked.enabled, Sm.idle]

/-- A bit is taken. -/
theorem step_bit (asked : Asked sm) (cycle : Nat) :
    step env inCmdOrDat (place sm 4 cycle) =
      place (sm.shiftIn [env.pin cycle 0]) 5 (cycle + 1) := by
  rw [step_place asked]
  by_cases fits : sm.isr.length + 1 < 32 <;>
    simp [Sm.act, place, inCmdOrDat, execute, following, Sm.shiftIn, Sm.push, fits]

/-- The jump back, as long as bits are left. -/
theorem step_loop (asked : Asked sm) (cycle : Nat) :
    step env inCmdOrDat (place sm 5 cycle) =
      place { sm with x := sm.x - 1 } (if sm.x = 0 then 6 else 4) (cycle + 1) := by
  rw [step_place asked]
  by_cases zero : sm.x = 0 <;>
    simp [Sm.act, place, inCmdOrDat, execute, following, Sm.taken, Sm.count, zero]

/-- The rest is sent on. -/
theorem step_push (asked : Asked sm) (cycle : Nat) :
    step env inCmdOrDat (place sm 6 cycle) = place sm.push 0 (cycle + 1) := by
  rw [step_place asked]
  simp [Sm.act, place, inCmdOrDat, execute, following, Sm.push]

end Instructions

/-- A line with bits on it some periods after a cycle. -/
def replay (start : Nat) (bits : List Bool) : Env where
  pin cycle _ := bits.getD (cycle / 2 - (start + 2)) true || cycle / 2 < start + 2
  released cycle flag := if flag = 0 then cycle % 2 = 1 else cycle = start + 1

/-- Bits on a line can be received. -/
def replayReception (start : Nat) (bits : List Bool) :
    Reception (replay start bits) start bits where
  sent := start + 1
  begin := start + 2
  after := Nat.lt_succ_self start
  wake cycle _ _ := by simp [replay]
  clock cycle := by simp [replay]
  answer := by omega
  quiet period _ early := by
    have early' : period < start + 2 := early
    simp [replay, early']
  data index inside := by
    have period : 2 * (start + 2 + index) / 2 = start + 2 + index := by omega
    have late : ¬start + 2 + index < start + 2 := by omega
    simp [replay, period, late, List.getElem?_eq_getElem inside]

section Runs

variable {env : Env} {sm : Sm} {start : Nat} {bits : List Bool}

/-- The machine waits until the command has been sent. -/
theorem reaches_wake (asked : Asked sm) (reception : Reception env start bits) {cycle : Nat}
    (late : start < cycle) (early : cycle ≤ reception.sent) :
    Reaches (step env inCmdOrDat) (place sm 1 cycle) (place sm 2 (reception.sent + 1)) := by
  have ⟨left, same⟩ := Nat.exists_eq_add_of_le early
  induction left generalizing cycle with
  | zero =>
    have now := (reception.wake cycle late early).mpr same.symm
    apply Reaches.head
    rw [step_wake asked, if_pos now, same]
    exact .refl
  | succ left ih =>
    have later : ¬env.released cycle 1 = true := fun now => by
      have this := (reception.wake cycle late early).mp now
      omega
    apply Reaches.head
    rw [step_wake asked, if_neg later]
    exact ih (by omega) (by omega) (by omega)

/-- The machine waits for the next period of the clock. -/
theorem reaches_clock (asked : Asked sm) (reception : Reception env start bits) (cycle : Nat) :
    Reaches (step env inCmdOrDat) (place sm 2 cycle) (place sm 3 (2 * (cycle / 2 + 1))) := by
  have tick : ∀ cycle, cycle % 2 = 1 →
      Reaches (step env inCmdOrDat) (place sm 2 cycle) (place sm 3 (cycle + 1)) := by
    intro cycle odd
    apply Reaches.head
    rw [step_clock asked, if_pos ((reception.clock cycle).mpr odd)]
    exact .refl
  by_cases odd : cycle % 2 = 1
  · rw [show 2 * (cycle / 2 + 1) = cycle + 1 by omega]
    exact tick cycle odd
  · have quiet : ¬env.released cycle 0 = true := fun now => odd ((reception.clock cycle).mp now)
    apply Reaches.head
    rw [step_clock asked, if_neg quiet, show 2 * (cycle / 2 + 1) = cycle + 1 + 1 by omega]
    exact tick (cycle + 1) (by omega)

/-- The machine waits for the start bit. -/
theorem reaches_start (asked : Asked sm) (reception : Reception env start (false :: bits))
    {period : Nat} (late : (reception.sent + 1) / 2 < period) (early : period ≤ reception.begin) :
    Reaches (step env inCmdOrDat) (place sm 3 (2 * period))
      (place sm 4 (2 * (reception.begin + 1))) := by
  have ⟨left, same⟩ := Nat.exists_eq_add_of_le early
  induction left generalizing period with
  | zero =>
    rw [Nat.add_zero] at same
    have low : ¬env.pin (2 * period) 0 = true := by
      have first := reception.data 0 (Nat.succ_pos _)
      rw [Nat.add_zero, same] at first
      rw [first]
      exact Bool.false_ne_true
    apply Reaches.head
    apply Reaches.head
    rw [step_poll asked, if_neg low, same]
    exact .refl
  | succ left ih =>
    have high := reception.quiet period late (by omega)
    apply Reaches.head
    apply Reaches.head
    rw [step_poll asked, if_pos high, show 2 * period + 2 = 2 * (period + 1) by omega]
    exact ih (by omega) (by omega) (by omega)

/-- A bit that is taken is sent on with the bits before it. -/
theorem shiftIn_pushed (bit : Bool) (rest : List Bool) (held : sm.isr.length < 32) :
    (sm.shiftIn [bit]).rx ++ pushed ((sm.shiftIn [bit]).isr ++ rest) =
        sm.rx ++ pushed (sm.isr ++ bit :: rest) ∧
      (sm.shiftIn [bit]).isr.length < 32 := by
  rw [List.append_cons]
  by_cases fits : (sm.isr ++ [bit]).length < 32
  · have same : sm.shiftIn [bit] = { sm with isr := sm.isr ++ [bit] } := if_pos fits
    rw [same]
    exact ⟨rfl, fits⟩
  · have same : sm.shiftIn [bit] = { sm with isr := sm.isr ++ [bit] }.push := if_neg fits
    have full : (sm.isr ++ [bit]).length = 32 := by
      rw [List.length_append, List.length_singleton] at fits ⊢
      omega
    rw [same, pushed_full rest full]
    refine ⟨?_, Nat.zero_lt_succ 31⟩
    show sm.rx ++ [_] ++ pushed rest = _
    rw [List.append_assoc, List.singleton_append]

/-- A bit that is taken keeps the machine running. -/
theorem Asked.shiftIn (asked : Asked sm) (bit : Bool) : Asked (sm.shiftIn [bit]) := by
  refine ⟨(shiftIn_enabled sm _).trans asked.enabled, ?_⟩
  unfold Sm.shiftIn
  dsimp only
  split <;> exact asked.tx

/-- A bit that is taken is not counted yet. -/
theorem shiftIn_x (bit : Bool) : (sm.shiftIn [bit]).x = sm.x := by
  unfold Sm.shiftIn
  dsimp only
  split <;> rfl

/-- The machine takes the bits in every period, and sends them on. -/
theorem reaches_push {first : Bool} {rest : List Bool} {period : Nat} (asked : Asked sm)
    (count : sm.x.toNat = rest.length) (held : sm.isr.length < 32)
    (data : ∀ index (inside : index < (first :: rest).length),
      env.pin (2 * (period + index)) 0 = (first :: rest)[index]) :
    ∃ last, Reaches (step env inCmdOrDat) (place sm 4 (2 * period)) last ∧ last.pc = 0 ∧
      last.rx = sm.rx ++ pushed (sm.isr ++ first :: rest) := by
  induction rest generalizing first sm period with
  | nil =>
    have level : env.pin (2 * period) 0 = first := data 0 (Nat.succ_pos _)
    have ⟨same, held'⟩ := shiftIn_pushed first [] held
    have asked' := asked.shiftIn first
    have counted : Asked { sm.shiftIn [first] with x := (sm.shiftIn [first]).x - 1 } :=
      ⟨asked'.enabled, asked'.tx⟩
    have zero : (sm.shiftIn [first]).x = 0 := UInt32.toNat_inj.mp (by rw [shiftIn_x]; exact count)
    refine ⟨_, .head (.head (.head .refl)), ?_⟩
    rw [step_bit asked, level, step_loop asked', if_pos zero, step_push counted, ← same,
      List.append_nil, pushed_short held']
    exact ⟨rfl, rfl⟩
  | cons second rest ih =>
    have level : env.pin (2 * period) 0 = first := data 0 (Nat.succ_pos _)
    have ⟨same, held'⟩ := shiftIn_pushed first (second :: rest) held
    have asked' := asked.shiftIn first
    have counted : Asked { sm.shiftIn [first] with x := (sm.shiftIn [first]).x - 1 } :=
      ⟨asked'.enabled, asked'.tx⟩
    have some : ¬(sm.shiftIn [first]).x = 0 := fun zero => by
      rw [shiftIn_x] at zero
      rw [zero] at count
      exact absurd count.symm (Nat.succ_ne_zero _)
    have count' : ((sm.shiftIn [first]).x - 1).toNat = rest.length := by
      have positive : 1 ≤ sm.x := UInt32.le_iff_toNat_le.mpr (by rw [count]; exact Nat.succ_pos _)
      rw [shiftIn_x, UInt32.toNat_sub_of_le _ _ positive, count]
      rfl
    have data' : ∀ index (inside : index < (second :: rest).length),
        env.pin (2 * (period + 1 + index)) 0 = (second :: rest)[index] := by
      intro index inside
      rw [show period + 1 + index = period + (index + 1) by omega]
      exact data (index + 1) (Nat.succ_lt_succ inside)
    have ⟨last, reaches, pc, rx⟩ := ih counted count' held' data'
    refine ⟨last, .head (.head ?_), pc, rx.trans same⟩
    rw [step_bit asked, level, step_loop asked', if_neg some,
      show 2 * period + 1 + 1 = 2 * (period + 1) by omega]
    exact reaches

/-- The machine takes its request. -/
theorem step_request (size : Nat) (ready : Ready sm) :
    step env inCmdOrDat (datReadRequest size sm) =
      place { sm with x := UInt32.ofNat (size * 8 - 1), osr := [], tx := [], rx := [] } 1
        (sm.cycle + 1) := by
  have some : ofWord (UInt32.ofNat (size * 8 - 1)) ≠ [] :=
    List.ne_nil_of_length_pos (by rw [ofWord_length]; decide)
  have all : (ofWord (UInt32.ofNat (size * 8 - 1))).drop 32 = [] :=
    List.drop_of_length_le (Nat.le_of_eq (ofWord_length _))
  have word : UInt32.ofBitVec (packed 32 (ofWord (UInt32.ofNat (size * 8 - 1)))) =
      UInt32.ofNat (size * 8 - 1) := congrArg UInt32.ofBitVec (packed_highFirst _)
  simp [step, datReadRequest, ready.delay, ready.enabled, Sm.refill, ready.osr, Sm.act, inCmdOrDat,
    execute, following, place, Sm.out, Sm.deliver, some, all, word]

/-- A machine that is asked for bytes takes the bits behind the start bit, and sends them on. -/
theorem receives {size : Nat} {data more : List Bool} (ready : Ready sm) (some : 0 < size)
    (count : data.length = size * 8) (fits : size * 8 < 2 ^ 32)
    (reception : Reception env sm.cycle ([false] ++ (data ++ more))) :
    ∃ last, Reaches (step env inCmdOrDat) (datReadRequest size sm) last ∧ last.pc = 0 ∧
      last.rx = pushed data := by
  cases data with
  | nil =>
    rw [List.length_nil] at count
    omega
  | cons first rest =>
    have asked :
        Asked { sm with x := UInt32.ofNat (size * 8 - 1), osr := [], tx := [], rx := [] } :=
      ⟨ready.enabled, rfl⟩
    have x : (UInt32.ofNat (size * 8 - 1)).toNat = rest.length := by
      rw [List.length_cons] at count
      rw [UInt32.toNat_ofNat_of_lt' (by show _ < 2 ^ 32; omega)]
      omega
    have data : ∀ index (inside : index < (first :: rest).length),
        env.pin (2 * (reception.begin + 1 + index)) 0 = (first :: rest)[index] := by
      intro index inside
      have inside' : index + 1 < ([false] ++ (first :: rest ++ more)).length := by
        simp only [List.length_cons, List.length_append, List.length_nil] at inside ⊢
        omega
      have same := reception.data (index + 1) inside'
      rw [show reception.begin + 1 + index = reception.begin + (index + 1) by omega, same]
      exact List.getElem_append_left inside
    have answer := reception.answer
    have after := reception.after
    have held : sm.isr.length < 32 := by
      rw [ready.isr]
      decide
    have ⟨last, reaches, pc, rx⟩ := reaches_push asked x held data
    refine ⟨last, ?_, pc, ?_⟩
    · apply Reaches.head
      rw [step_request size ready]
      apply (reaches_wake asked reception (Nat.lt_succ_self _) after).trans
      apply (reaches_clock asked reception _).trans
      apply (reaches_start asked reception (by omega) (by omega)).trans
      exact reaches
    · show last.rx = _
      rw [rx]
      show [] ++ pushed (sm.isr ++ _) = _
      rw [ready.isr, List.nil_append, List.nil_append]

end Runs

section Bytes

/-- A byte of a word, counted from the highest one, has the bits at its place. -/
theorem ofByte_of_word (word : UInt32) (left : Nat) (inside : left < 4) :
    ofByte ((word >>> UInt32.ofNat (left * 8)) &&& 0xFF).toUInt8 =
      ((ofWord word).drop (8 * (3 - left))).take 8 := by
  have byte : ((word >>> UInt32.ofNat (left * 8)) &&& 0xFF).toUInt8.toBitVec =
      word.toBitVec.extractLsb' (left * 8) 8 := by
    have mask : ∀ place < 8, (0xFF : UInt32).toBitVec.getLsbD place = true := by decide
    apply BitVec.eq_of_getLsbD_eq
    intro index below
    rw [BitVec.getLsbD_extractLsb', UInt32.toBitVec_toUInt8, BitVec.getLsbD_setWidth,
      UInt32.toBitVec_and, BitVec.getLsbD_and, shiftRight_toBitVec _ (by omega),
      BitVec.getLsbD_ushiftRight, mask index below, Bool.and_true]
  rw [ofByte, byte, highFirst_extract _ (by omega),
    show 32 - (left * 8 + 8) = 8 * (3 - left) by omega]
  rfl

/-- The bytes that are stored have the bits of the word from their place on. -/
theorem storeBytes_bits (word : UInt32) (left size : Nat) (inside : left ≤ 4) :
    ofBytes (storeBytes word left size).1 =
        ((ofWord word).drop (8 * (4 - left))).take (8 * min left size) ∧
      (storeBytes word left size).2 = size - left := by
  induction left generalizing size with
  | zero => simp [storeBytes]
  | succ left ih =>
    cases size with
    | zero => simp [storeBytes]
    | succ size =>
      have ⟨bits, rest⟩ := ih size (by omega)
      constructor
      · rw [storeBytes, ofBytes_cons, bits, ofByte_of_word word left (by omega),
          show 8 * min (left + 1) (size + 1) = 8 + 8 * min left size by omega, List.take_add,
          List.drop_drop, show 4 - (left + 1) = 3 - left by omega,
          show 8 * (3 - left) + 8 = 8 * (4 - left) by omega]
      · rw [storeBytes, rest]
        omega

/-- A word of bits that fill it is stored as them. -/
theorem storeBytes_full {bits : List Bool} (full : bits.length = 32) {size : Nat} (more : 4 ≤ size) :
    ofBytes (storeBytes (UInt32.ofBitVec (packed 32 bits)) 4 size).1 = bits ∧
      (storeBytes (UInt32.ofBitVec (packed 32 bits)) 4 size).2 = size - 4 := by
  have ⟨bytes, left⟩ := storeBytes_bits (UInt32.ofBitVec (packed 32 bits)) 4 size (Nat.le_refl _)
  have same : ofWord (UInt32.ofBitVec (packed 32 bits)) = bits := highFirst_packed_full full
  rw [same, Nat.sub_self, Nat.mul_zero, List.drop_zero, List.take_of_length_le (by omega)] at bytes
  exact ⟨bytes, left⟩

/-- The last word is moved up to its highest byte. -/
theorem ofWord_aligned {bits : List Bool} {size : Nat} (count : bits.length = 8 * size)
    (some : 0 < size) (few : size < 4) :
    ofWord (UInt32.ofBitVec (packed 32 bits) <<< UInt32.ofNat ((4 - size) * 8)) =
      bits ++ List.replicate ((4 - size) * 8) false := by
  rw [ofWord_shiftLeft _ (by omega)]
  show (highFirst (packed 32 bits)).drop _ ++ _ = _
  rw [highFirst_packed (by omega), List.drop_left' (by rw [List.length_replicate]; omega)]

/-- The last word is stored as the bits that it has. -/
theorem storeBytes_last {bits : List Bool} {size : Nat} (count : bits.length = 8 * size)
    (few : size < 4) :
    let word := UInt32.ofBitVec (packed 32 bits) <<< UInt32.ofNat ((4 - size) * 8)
    ofBytes (storeBytes word 4 size).1 = bits ∧ (storeBytes word 4 size).2 = 0 := by
  intro word
  have ⟨bytes, left⟩ := storeBytes_bits word 4 size (Nat.le_refl _)
  have none : size - 4 = 0 := by omega
  cases size with
  | zero =>
    rw [List.length_eq_zero_iff.mp count]
    exact ⟨rfl, rfl⟩
  | succ size =>
    rw [ofWord_aligned count (Nat.succ_pos size) few, Nat.sub_self, Nat.mul_zero, List.drop_zero,
      List.take_left' (by omega)] at bytes
    exact ⟨bytes, left.trans none⟩

/-- Polls find the words of some bits before the time is over, at least those that bytes are taken
from. -/
inductive Found : (size : Nat) → (bits : List Bool) → (polls : List (Option UInt32)) → Prop where
  /-- Nothing has to be found. -/
  | nothing (polls : List (Option UInt32)) : Found 0 [] polls
  /-- A word is found by a later poll. -/
  | later {size : Nat} {bits : List Bool} {polls : List (Option UInt32)}
      (found : Found (size + 1) bits polls) : Found (size + 1) bits (none :: polls)
  /-- The last word is found, which has fewer bytes. -/
  | last {size : Nat} {bits : List Bool} (polls : List (Option UInt32))
      (count : bits.length = 8 * (size + 1)) (few : size + 1 < 4) :
      Found (size + 1) bits (some (UInt32.ofBitVec (packed 32 bits)) :: polls)
  /-- A word of four bytes is found. -/
  | whole {size : Nat} {first rest : List Bool} {polls : List (Option UInt32)}
      (full : first.length = 32) (found : Found size rest polls) :
      Found (size + 4) (first ++ rest) (some (UInt32.ofBitVec (packed 32 first)) :: polls)

/-- Bits of some bytes go into as many words as the bytes fill, and the last one may not be full. -/
theorem found_of_pushed {size : Nat} {bits : List Bool} {polls : List (Option UInt32)}
    (count : bits.length = 8 * size)
    (found : (pushed bits).take ((size + 3) / 4) <+: polls.filterMap id) :
    Found size bits polls := by
  induction polls generalizing size bits with
  | nil =>
    have none : (pushed bits).take ((size + 3) / 4) = [] := List.prefix_nil.mp found
    have some : pushed bits ≠ [] := by
      rw [pushed]
      split <;> exact List.cons_ne_nil _ _
    have zero : size = 0 := by
      have := (List.take_eq_nil_iff.mp none).resolve_right some
      omega
    rw [zero, Nat.mul_zero] at count
    rw [zero, List.length_eq_zero_iff.mp count]
    exact .nothing []
  | cons poll polls ih =>
    cases size with
    | zero =>
      rw [List.length_eq_zero_iff.mp count]
      exact .nothing _
    | succ size =>
      cases poll with
      | none => exact .later (ih count found)
      | some word =>
        rw [List.filterMap_cons_some (f := id) rfl] at found
        by_cases few : size + 1 < 4
        · rw [pushed_short (by omega), show (size + 1 + 3) / 4 = 1 by omega,
            List.take_succ_cons, List.cons_prefix_cons] at found
          rw [← found.1]
          exact .last polls count few
        · have more : size + 1 = size - 3 + 4 := by omega
          have full : (bits.take 32).length = 32 := by
            rw [List.length_take]
            omega
          rw [← List.take_append_drop 32 bits, pushed_full _ full,
            show (size + 1 + 3) / 4 = (size - 3 + 3) / 4 + 1 by omega, List.take_succ_cons,
            List.cons_prefix_cons] at found
          rw [← List.take_append_drop 32 bits, more, ← found.1]
          exact .whole full (ih (by rw [List.length_drop]; omega) found.2)

/-- Bits that are sent on are read back as the bytes that they spell, if their words are found in
time. -/
theorem datReadData_found {size : Nat} {bits : List Bool} {polls : List (Option UInt32)}
    (found : Found size bits polls) :
    ofBytes (datReadData size polls).1 = bits ∧ (datReadData size polls).2 = true := by
  induction found with
  | nothing polls =>
    rw [datReadData]
    exact ⟨rfl, rfl⟩
  | later found ih =>
    rw [datReadData]
    exact ih
  | last polls count few =>
    have ⟨bytes, left⟩ := storeBytes_last count few
    rw [datReadData]
    dsimp only
    rw [if_pos few, left, datReadData, ofBytes_append, bytes]
    exact ⟨List.append_nil _, rfl⟩
  | @whole size first rest polls full found ih =>
    have ⟨bytes, left⟩ := storeBytes_full full (Nat.le_add_left 4 size)
    rw [Nat.add_sub_cancel] at left
    rw [datReadData]
    dsimp only
    rw [if_neg (by omega), left, ofBytes_append, bytes, ih.1]
    exact ⟨rfl, ih.2⟩

end Bytes

end Receiver

end Fly2040.Firmware
