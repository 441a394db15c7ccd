import Fly2040.Firmware.Checksums
import Fly2040.Firmware.Retry
import Fly2040.Lib.Bursts
import Mathlib.Tactic.NormNum.Prime
/-!
# Damage that the checksums find

The firmware checks a block of the eMMC, a firmware image and the identification of the card with
a checksum each. All three are remainders by a divisor that ends in a one, and the order of the
variable is longer than the message, so none of them misses a burst of its own width or two wrong
bits. The checksum of a block also finds every odd number of wrong bits.
-/

namespace Fly2040.Firmware

open Bits Bytes Remainder Card Durable

namespace Checksums

/-- The divisor of the checksum of eMMC data ends in a one. -/
theorem crcItuT_ends : (0x1021 : BitVec 16).getLsbD 0 = true := rfl

/-- Order of the variable for the checksum of eMMC data. -/
theorem crcItuT_order :
    orderOf (AdjoinRoot.root (divisor (0x1021 : BitVec 16))) = 32767 := by
  apply orderOf_root (0x1021 : BitVec 16) crcItuT_ends 15 (by decide) (by decide)
  · decide +kernel
  · intro factor prime divides
    have split : factor ∣ 7 * 31 * 151 := divides
    rw [prime.dvd_mul, prime.dvd_mul, Nat.prime_dvd_prime_iff_eq prime (by norm_num),
      Nat.prime_dvd_prime_iff_eq prime (by norm_num),
      Nat.prime_dvd_prime_iff_eq prime (by norm_num)] at split
    rcases split with (rfl | rfl) | rfl <;> decide +kernel

/-- The divisor of the checksum of an image ends in a one. -/
theorem crc32_ends : (0xEDB88320 : BitVec 32).reverse.getLsbD 0 = true := by decide +kernel

/-- Order of the variable for the checksum of an image. -/
theorem crc32_order :
    orderOf (AdjoinRoot.root (divisor (0xEDB88320 : BitVec 32).reverse)) = 4294967295 := by
  apply orderOf_root _ crc32_ends 32 (by decide) (by decide)
  · decide +kernel
  · intro factor prime divides
    have split : factor ∣ 3 * 5 * 17 * 257 * 65537 := divides
    rw [prime.dvd_mul, prime.dvd_mul, prime.dvd_mul, prime.dvd_mul,
      Nat.prime_dvd_prime_iff_eq prime (by norm_num),
      Nat.prime_dvd_prime_iff_eq prime (by norm_num),
      Nat.prime_dvd_prime_iff_eq prime (by norm_num),
      Nat.prime_dvd_prime_iff_eq prime (by norm_num),
      Nat.prime_dvd_prime_iff_eq prime (by norm_num)] at split
    rcases split with (((rfl | rfl) | rfl) | rfl) | rfl <;> decide +kernel

/-- The divisor of the checksum on the command line ends in a one. -/
theorem crc7_ends : (9 : BitVec 7).getLsbD 0 = true := rfl

/-- Order of the variable for the checksum on the command line. -/
theorem crc7_order : orderOf (AdjoinRoot.root (divisor (9 : BitVec 7))) = 127 := by
  apply orderOf_root _ crc7_ends 7 (by decide) (by decide)
  · decide +kernel
  · intro factor prime divides
    rw [Nat.prime_dvd_prime_iff_eq prime (by norm_num)] at divides
    rw [divides]
    decide +kernel

end Checksums

section Blocks

variable (buffer : Block)

/-- Bits of a block with its checksum, as they are on the data line. -/
def blockBits : List Bool :=
  ofBytes (List.ofFn buffer) ++ ofHalf (crcItuT (List.ofFn buffer))

/-- A block with its checksum. -/
theorem blockBits_length : (blockBits buffer).length = 4112 := by
  rw [blockBits, List.length_append, ofBytes_length, List.length_ofFn, ofHalf_length]

/-- It is not empty. -/
theorem blockBits_ne_nil : blockBits buffer ≠ [] := by
  intro empty
  have length := blockBits_length buffer
  rw [empty] at length
  cases length

/-- Bytes that fill the buffer are the block and the checksum in it. -/
theorem received_bits (held : Block) {data : List UInt8} (all : data.length = 514) :
    ofBytes data = ofBytes (List.ofFn (mmcReceived held (data, true)).block) ++
      ofHalf (mmcReceived held (data, true)).crc := by
  have first : List.ofFn (mmcReceived held (data, true)).block = data.take 512 := by
    apply List.ext_getElem
    · rw [List.length_ofFn, List.length_take]
      omega
    · intro index _ inside
      have below : index < data.length := by
        rw [List.length_take] at inside
        omega
      rw [List.getElem_ofFn, List.getElem_take]
      exact List.getD_eq_getElem data _ below
  have last : data.drop 512 = [data.getD 512 0, data.getD 513 0] := by
    rw [List.drop_eq_getElem_cons (by omega), List.drop_eq_getElem_cons (by omega),
      List.drop_eq_nil_of_le (by omega), List.getD_eq_getElem _ _ (by omega),
      List.getD_eq_getElem _ _ (by omega)]
  have check : ofHalf (mmcReceived held (data, true)).crc = ofBytes (data.drop 512) := by
    rw [last]
    exact ofHalf_of_bytes _ _
  rw [first, check, ← ofBytes_append, List.take_append_drop]

/-- A buffer is valid if its bits leave no remainder. -/
theorem valid_iff (held : Block) {data : List UInt8} (all : data.length = 514) :
    (mmcReceived held (data, true)).valid = true ↔
      (ofBytes data).foldl (shift 0x1021) (BitVec.ofNat 16 0) = BitVec.ofNat 16 0 := by
  have check := foldl_shift_check_iff Checksums.crcItuT_ends
    (ofBytes (List.ofFn (mmcReceived held (data, true)).block)) (BitVec.ofNat 16 0)
    (mmcReceived held (data, true)).crc.toBitVec
  have serial := Checksums.foldl_crcItuTByte 0 (List.ofFn (mmcReceived held (data, true)).block)
  rw [received_bits held all]
  show _ ↔ (_ ++ highFirst (mmcReceived held (data, true)).crc.toBitVec).foldl _ _ = _
  rw [check, ← show (0 : UInt16).toBitVec = BitVec.ofNat 16 0 from rfl, ← serial,
    UInt16.toBitVec_inj]
  show (true && (crcItuT (List.ofFn (mmcReceived held (data, true)).block) ==
    (mmcReceived held (data, true)).crc)) = true ↔ _
  rw [Bool.true_and, beq_iff_eq]
  rfl

/-- Bits of a block with its checksum leave no remainder. -/
theorem blockBits_empty :
    (blockBits buffer).foldl (shift 0x1021) (BitVec.ofNat 16 0) = BitVec.ofNat 16 0 := by
  apply (foldl_shift_check_iff Checksums.crcItuT_ends _ _
    (crcItuT (List.ofFn buffer)).toBitVec).mpr
  exact (Checksums.foldl_crcItuTByte 0 (List.ofFn buffer)).symm

/-- Bits that are found are as many as the bytes. -/
theorem found_length {size : Nat} {bits : List Bool} {polls : List (Option UInt32)}
    (found : Receiver.Found size bits polls) : bits.length = 8 * size := by
  induction found with
  | nothing => rfl
  | later _ ih => exact ih
  | last _ count _ => exact count
  | whole full _ ih =>
    rw [List.length_append, full, ih]
    omega

/-- Damage of a block on its way that its checksum finds: a burst of at most sixteen bits, at most
three bits, or an odd number of them. -/
def Damaged (bits : List Bool) : Prop :=
  Burst 16 (differences bits (blockBits buffer)) ∨
    (differences bits (blockBits buffer)).count true ≤ 3 ∨
    (differences bits (blockBits buffer)).count true % 2 = 1

variable {buffer}

/-- Bits that are damaged leave a remainder. -/
theorem damaged_empty_iff {bits : List Bool} (length : bits.length = 4112)
    (damaged : Damaged buffer bits) :
    bits.foldl (shift 0x1021) (BitVec.ofNat 16 0) = BitVec.ofNat 16 0 ↔
      bits = blockBits buffer := by
  have same : bits.length = (blockBits buffer).length := by rw [length, blockBits_length]
  have to_block : bits.foldl (shift 0x1021) (BitVec.ofNat 16 0) = BitVec.ofNat 16 0 ↔
      bits.foldl (shift 0x1021) (BitVec.ofNat 16 0) =
        (blockBits buffer).foldl (shift 0x1021) (BitVec.ofNat 16 0) := by
    rw [blockBits_empty]
  rw [to_block]
  by_cases odd : (differences bits (blockBits buffer)).count true % 2 = 1
  · have missed := @odd_not_dvd 16 0x1021 (by decide) _ odd
    rw [foldl_shift_eq_iff_dvd Checksums.crcItuT_ends same]
    constructor
    · exact fun divides => absurd divides missed
    · intro equal
      rw [equal, differences_self, ofBits_replicate]
      exact dvd_zero _
  · apply foldl_shift_eq_iff_of_slight Checksums.crcItuT_ends Checksums.crcItuT_order same
    · rw [length]
      omega
    · cases damaged with
      | inl burst => exact .inl burst
      | inr few => exact .inr (by omega)

/-- Damaged bits that are found are valid only if nothing is damaged, and then the buffer holds the
block. -/
theorem damaged_valid (held : Block) {bits : List Bool} {polls : List (Option UInt32)}
    (found : Receiver.Found 514 bits polls) (damaged : Damaged buffer bits) :
    ((mmcReceived held (datReadData 514 polls)).valid = true ↔ bits = blockBits buffer) ∧
      ((mmcReceived held (datReadData 514 polls)).valid = true →
        (mmcReceived held (datReadData 514 polls)).block = buffer) := by
  have ⟨spelt, done⟩ := Receiver.datReadData_found found
  have length := found_length found
  have all : (datReadData 514 polls).1.length = 514 := by
    rw [← spelt, ofBytes_length] at length
    omega
  have whole : datReadData 514 polls = ((datReadData 514 polls).1, true) := by rw [← done]
  have valid : (mmcReceived held (datReadData 514 polls)).valid = true ↔
      bits = blockBits buffer := by
    rw [whole, valid_iff held all, spelt, damaged_empty_iff length damaged]
  refine ⟨valid, fun accepted => ?_⟩
  have same := valid.mp accepted
  rw [← spelt, received_bits held all, ← whole, blockBits] at same
  have data := List.append_inj_left same (by simp only [ofBytes_length, List.length_ofFn])
  exact List.ofFn_injective (ofBytes_injective data)

end Blocks

/-- A line to the eMMC that damages what is read in ways that the checksum finds, if it does not
miss the time. -/
structure DamagedLine where
  /-- Initialisation, with the card identification if it succeeds. -/
  init : Nat → Option Cid
  /-- What the polls of a read find. -/
  polls : (clock block : Nat) → (stored : Block) → List (Option UInt32)
  /-- A write to a block. -/
  write : (clock block : Nat) → (stored buffer : Block) → Written
  /-- Bits that are found in time are those of the block, but for the damage. -/
  damage : ∀ clock block stored, (datReadData 514 (polls clock block stored)).2 = true →
    ∃ bits, Receiver.Found 514 bits (polls clock block stored) ∧ Damaged stored bits

/-- What the firmware makes of such a line keeps the law that valid data is the data stored. -/
def DamagedLine.link (line : DamagedLine) : Link where
  init := line.init
  receive clock block held stored :=
    mmcReceived held (datReadData 514 (line.polls clock block stored))
  write := line.write
  sound clock block held stored valid := by
    have arrived : (datReadData 514 (line.polls clock block stored)).2 = true := by
      rw [Received.valid, Bool.and_eq_true] at valid
      exact valid.1
    have ⟨bits, found, damaged⟩ := line.damage clock block stored arrived
    exact (damaged_valid held found damaged).2 valid

/-- A block that is damaged on its way is found to be invalid, if the damage is a burst of at most
sixteen bits, at most three bits, or an odd number of them. So on a line that damages what it
likes in such ways, a write that returns has stored its data, whatever failed on the way, and has
touched no other block. -/
theorem block_damaged :
    (∀ (held buffer : Block) (bits : List Bool) (polls : List (Option UInt32)),
      Receiver.Found 514 bits polls → Damaged buffer bits →
      ((mmcReceived held (datReadData 514 polls)).valid = true ↔ bits = blockBits buffer)) ∧
    ∀ (line : DamagedLine) (block : Nat) (data : Block) (world : World),
      (writeBlock line.link block data).Ensures world
        (fun later operation => BlocksOnly (· = block) world later ∧
          ∃ sent, operation = .write block sent)
        (fun _ later => BlocksOnly (· = block) world later ∧ later.mmc block = data)
        (fun _ later => BlocksOnly (· = block) world later) := by
  refine ⟨fun held buffer bits polls found damaged => (damaged_valid held found damaged).1, ?_⟩
  intro line block data world
  refine (writeTries_spec (line.link.keeps_true block) trivial 6 0 false false
    (BlocksOnly.refl world) trivial fun _ => trivial).mono ?_ ?_ ?_
  · intro later operation issued
    have ⟨only, _, sent, same, _⟩ := issued
    exact ⟨only, sent, same⟩
  · exact fun _ _ after => after
  · exact fun _ _ after => after.1

section Inverting

/-- Bits of which the first one is inverted. -/
def invertFirst : List Bool → List Bool
  | [] => []
  | first :: rest => (!first) :: rest

/-- As many bits. -/
theorem invertFirst_length (bits : List Bool) : (invertFirst bits).length = bits.length := by
  cases bits <;> rfl

/-- Some bits are other ones. -/
theorem invertFirst_ne {bits : List Bool} (some : bits ≠ []) : invertFirst bits ≠ bits := by
  cases bits with
  | nil => exact absurd rfl some
  | cons first rest => exact fun same => Bool.not_ne_self first (List.cons.inj same).1

/-- At most one place differs. -/
theorem invertFirst_damaged (buffer : Block) : Damaged buffer (invertFirst (blockBits buffer)) := by
  right
  left
  cases blockBits buffer with
  | nil => exact Nat.zero_le 3
  | cons first rest =>
    have places : differences ((!first) :: rest) (first :: rest) =
        true :: List.replicate rest.length false := by
      rw [← differences_self rest]
      show ((!first) ^^ first) :: differences rest rest = _
      cases first <;> rfl
    rw [invertFirst, places, List.count_cons, List.count_replicate]
    show 0 + 1 ≤ 3
    decide

/-- Bits that nothing has damaged. -/
theorem blockBits_damaged (buffer : Block) : Damaged buffer (blockBits buffer) := by
  refine .inr (.inl ?_)
  rw [differences_self, List.count_replicate]
  exact Nat.zero_le 3

/-- Bits of a block with its checksum are found when each word comes in time. -/
theorem found_pushed {bits : List Bool} (length : bits.length = 4112) :
    Receiver.Found 514 bits ((Receiver.pushed bits).map some) := by
  apply Receiver.found_of_pushed length
  rw [List.filterMap_map]
  show _ <+: List.filterMap some _
  rw [List.filterMap_some]
  exact List.take_prefix _ _

/-- A line that inverts the first bit of the block that is read by the second transfer. -/
def invertingLine : DamagedLine where
  init _ := none
  polls clock _ stored := (Receiver.pushed
    (if clock = 1 then invertFirst (blockBits stored) else blockBits stored)).map some
  write _ _ _ buffer := ⟨true, buffer, true⟩
  damage clock _ stored _ := by
    refine ⟨_, found_pushed ?_, ?_⟩
    · split
      · rw [invertFirst_length, blockBits_length]
      · exact blockBits_length stored
    · split
      · exact invertFirst_damaged stored
      · exact blockBits_damaged stored

/-- The first read back is invalid. -/
theorem inverting_first (held stored : Block) :
    (invertingLine.link.receive 1 0 held stored).valid = false := by
  have found := found_pushed ((invertFirst_length _).trans (blockBits_length stored))
  have polls : invertingLine.polls 1 0 stored =
      (Receiver.pushed (invertFirst (blockBits stored))).map some :=
    congrArg (fun bits => (Receiver.pushed bits).map some) (if_pos rfl)
  show (mmcReceived held (datReadData 514 (invertingLine.polls 1 0 stored))).valid = false
  rw [polls, Bool.eq_false_iff]
  exact fun valid => invertFirst_ne (blockBits_ne_nil stored)
    ((damaged_valid held found (invertFirst_damaged stored)).1.mp valid)

/-- The second read back receives what is stored. -/
theorem inverting_second (held stored : Block) :
    (invertingLine.link.receive 2 0 held stored).valid = true ∧
      (invertingLine.link.receive 2 0 held stored).block = stored := by
  obtain ⟨valid, same⟩ :=
    damaged_valid held (found_pushed (blockBits_length stored)) (blockBits_damaged stored)
  exact ⟨valid.mpr rfl, same (valid.mpr rfl)⟩

/-- Behind the first try the data is stored, and another try follows. -/
theorem inverting_try (data : Block) (world : World) (start : world.bus.clock = 0) :
    let run := tryOnce invertingLine.link 0 data 0 false world
    run.outcome = .ok (some true) ∧ run.final.bus.clock = 2 ∧
      run.final.mmc 0 = world.bus.dataBuf := by
  intro run
  let stored := Function.update world.mmc 0 world.bus.dataBuf
  have ended : (unlessDone false (cmdMmcWrite invertingLine.link 0) world).outcome = .ok true := rfl
  have whole : run = sendAndRead invertingLine.link 0 data false world := rfl
  have invalid := inverting_first world.bus.dataBuf (stored 0)
  rw [← show world.bus.clock + 1 = 1 by rw [start]] at invalid
  rw [whole, sendAndRead, Prog.bind_of_ok _ ended]
  simp only [Bool.not_true, Bool.false_eq_true, if_false]
  rw [readBack_run]
  refine ⟨?_, ?_, ?_⟩
  · show Except.ok (follows data true (invertingLine.link.receive (world.bus.clock + 1) 0
      world.bus.dataBuf (stored 0)).valid _) = _
    rw [invalid]
    rfl
  · show world.bus.clock + 1 + 1 = 2
    rw [start]
  · show stored 0 = world.bus.dataBuf
    exact Function.update_self 0 world.bus.dataBuf world.mmc

/-- So the chunk is read back in the second one. -/
theorem inverting_returns (data : Block) (world : World) (start : world.bus.clock = 0) :
    (writeBlock invertingLine.link 0 data world).outcome = .ok () := by
  let copied : World := { world with bus.dataBuf := data }
  obtain ⟨goes, clock, stored⟩ := inverting_try data copied start
  let later := (tryOnce invertingLine.link 0 data 0 false copied).final
  obtain ⟨valid, same⟩ := inverting_second later.bus.dataBuf (later.mmc 0)
  rw [← clock] at valid same
  have second : (tryOnce invertingLine.link 0 data 1 true later).outcome = .ok none :=
    ((@tryOnce_run invertingLine.link 0 data 1 true later).2 rfl).2.1.trans
      (congrArg Except.ok (follows_eq_none.mpr ⟨rfl, valid, same.trans stored⟩))
  show (writeTries invertingLine.link 0 data 6 0 true false copied).outcome = _
  rw [writeTries_succ, Prog.bind_of_ok _ goes]
  show (writeTries invertingLine.link 0 data 5 1 true true later).outcome = _
  rw [writeTries_succ, Prog.bind_of_ok _ second]
  rfl

end Inverting

/-- The first read back of a block of zeros is invalid; behind the second one they are stored. -/
theorem inverted_block_invalid :
    ¬(mmcReceived (fun _ => 0) (datReadData 514
      ((Receiver.pushed (invertFirst (blockBits fun _ => 0))).map some))).valid = true ∧
    ∃ later, (writeBlock invertingLine.link 0 fun _ => 0).Leaves blankWorld () later ∧
      later.mmc 0 = fun _ => 0 := by
  constructor
  · intro valid
    have found := found_pushed ((invertFirst_length _).trans (blockBits_length fun _ => 0))
    exact invertFirst_ne (blockBits_ne_nil _)
      ((block_damaged.1 _ (fun _ => 0) _ _ found (invertFirst_damaged _)).mp valid)
  · have returned := inverting_returns (fun _ => 0) blankWorld rfl
    have spec := block_damaged.2 invertingLine 0 (fun _ => 0) blankWorld
    exact ⟨_, ⟨returned, rfl⟩, (spec.returned () returned).2⟩

section Identifications

variable (buffer : Fin 17 → UInt8)

/-- Bits of an answer that its checksum is about: fifteen bytes and the seven bits of the checksum.
The lowest bit of the last byte only ends the answer. -/
def cidBits : List Bool :=
  ofBytes (((List.ofFn buffer).drop 1).take 15) ++ (ofByte (buffer (Fin.last 16))).take 7

/-- Fifteen bytes and the checksum. -/
theorem cidBits_length : (cidBits buffer).length = 127 := by
  rw [cidBits, List.length_append, ofBytes_length, List.length_take, List.length_take,
    List.length_drop, List.length_ofFn, ofByte_length]
  decide

/-- A byte of the checksum is below the mask. -/
theorem crc7_masked (bytes : List UInt8) : (crc7 bytes).toBitVec.getLsbD 7 = false := by
  induction bytes using List.reverseRecOn with
  | nil => rfl
  | append_singleton bytes byte ih =>
    rw [crc7, List.foldl_append, List.foldl_cons, List.foldl_nil, crc7Byte_eq, UInt8.toBitVec_and,
      BitVec.getLsbD_and]
    exact Bool.and_false _

/-- Bytes without a highest bit are the same if their other bits are. -/
theorem register7_inj {left right : UInt8} (empty : left.toBitVec.getLsbD 7 = false)
    (empty' : right.toBitVec.getLsbD 7 = false) :
    register7 left = register7 right ↔ left = right := by
  constructor
  · intro same
    apply UInt8.toBitVec_inj.mp
    apply BitVec.eq_of_getLsbD_eq
    intro index inside
    by_cases top : index = 7
    · rw [top, empty, empty']
    · have bits := congrArg (BitVec.getLsbD · index) same
      have below : index < 7 := by omega
      simp only [register7, BitVec.getLsbD_setWidth, below, decide_true, Bool.true_and] at bits
      exact bits
  · exact congrArg register7

/-- Bits of the checksum that an answer carries. -/
theorem highFirst_answered (byte : UInt8) :
    highFirst (register7 (byte >>> 1)) = (ofByte byte).take 7 := by
  show [6, 5, 4, 3, 2, 1, 0].map (register7 (byte >>> 1)).getLsbD = _
  simp [-BitVec.getLsbD_eq_getElem, ofByte_eq, register7]

/-- An answer is accepted if its bits leave no remainder. -/
theorem cidChecks_iff : cidChecks buffer = true ↔
    (cidBits buffer).foldl (shift 9) (BitVec.ofNat 7 0) = BitVec.ofNat 7 0 := by
  have top : (buffer (Fin.last 16) >>> 1).toBitVec.getLsbD 7 = false := by
    simp
  rw [cidBits, ← highFirst_answered, foldl_shift_check_iff Checksums.crc7_ends,
    ← show (0 : BitVec 7) = BitVec.ofNat 7 0 from rfl, ← crc7_register,
    register7_inj (crc7_masked _) top, cidChecks, beq_iff_eq]
  rfl

/-- Answers with the same bits carry the same identification. -/
theorem cidBits_inj {buffer buffer' : Fin 17 → UInt8} (same : cidBits buffer = cidBits buffer')
    (index : Fin 15) : identification buffer ⟨index, by omega⟩ =
      identification buffer' ⟨index, by omega⟩ := by
  have length : (ofBytes (((List.ofFn buffer).drop 1).take 15)).length =
      (ofBytes (((List.ofFn buffer').drop 1).take 15)).length := by
    rw [ofBytes_length, ofBytes_length, List.length_take, List.length_take, List.length_drop,
      List.length_drop, List.length_ofFn, List.length_ofFn]
  have bytes := ofBytes_injective (List.append_inj_left same length)
  have entry (buffer : Fin 17 → UInt8) : (((List.ofFn buffer).drop 1).take 15)[index.val]? =
      some (identification buffer ⟨index, by omega⟩) := by
    rw [List.getElem?_take_of_lt index.isLt, List.getElem?_drop, List.getElem?_ofFn,
      dif_pos (by omega), identification]
    congr 2
    apply Fin.ext
    exact Nat.add_comm _ _
  have both := congrArg (·[index.val]?) bytes
  simp only [entry, Option.some.injEq] at both
  exact both

end Identifications

/-- An identification that is damaged on its way is refused, if the damage is two bits or fewer or a
burst of at most seven bits in its fifteen bytes and the seven bits of their checksum: the command
succeeds only if nothing of these is damaged, and then the fifteen bytes of the card are learnt. -/
theorem cid_damaged (line : Line) (session : Session) {sent : Fin 17 → UInt8}
    (right : cidChecks sent = true) (arrived : 17 ≤ (line.answers session.commands).length)
    (slight : Slight 7
      (differences (cidBits (line.cid session.commands session.cidBuf)) (cidBits sent))) :
    Accepts (cmdExecCid line) session []
        (decide (cidBits (line.cid session.commands session.cidBuf) = cidBits sent))
        { session with
          commands := session.commands + 1
          cidBuf := line.cid session.commands session.cidBuf } ∧
      (cidBits (line.cid session.commands session.cidBuf) = cidBits sent →
        ∀ index : Fin 15,
          identification (line.cid session.commands session.cidBuf) ⟨index, by omega⟩ =
            identification sent ⟨index, by omega⟩) := by
  have same : (cidBits (line.cid session.commands session.cidBuf)).length =
      (cidBits sent).length := by
    rw [cidBits_length, cidBits_length]
  have found := foldl_shift_eq_iff_of_slight Checksums.crc7_ends Checksums.crc7_order same
    (Nat.le_of_eq (cidBits_length _)) slight (BitVec.ofNat 7 0)
  rw [(cidChecks_iff sent).mp right, ← cidChecks_iff] at found
  refine ⟨?_, cidBits_inj⟩
  have accepts := cmdExecCid_accepts line session
  rw [decide_eq_true arrived, Bool.true_and] at accepts
  have answer : cidChecks (line.cid session.commands session.cidBuf) =
      decide (cidBits (line.cid session.commands session.cidBuf) = cidBits sent) := by
    rw [Bool.eq_iff_iff, decide_eq_true_iff]
    exact found
  rw [← answer]
  exact accepts

/-- A line on which the identification of zeros has an inverted bit. -/
def invertedLine : Line where
  answers _ := [0, 1] ++ List.replicate 15 0
  dat _ := true

/-- It is refused. -/
theorem inverted_cid_refused : Accepts (cmdExecCid invertedLine) freshSession [] false
    { freshSession with commands := 1, cidBuf := invertedLine.cid 0 freshSession.cidBuf } :=
  (@cid_damaged invertedLine freshSession (fun _ => 0) (by decide +kernel) (by decide +kernel)
    (.inr (by decide +kernel))).1

section Images

variable (memory : Memory) (slot : Slot)

/-- Bits of an image in flash, behind its checksum, the lowest bit of each byte first. -/
def imageBits : List Bool :=
  Crc.lowFirst (readBytes memory (fwSlot slot + 4) (4 + (fwSize memory slot).toNat))

/-- The bits that the register takes in: the checksum follows the data, inverted. -/
def invertedBits : List Bool :=
  Crc.lowFirst (fwData memory slot) ++ (ofWord (fwCrc memory slot)).reverse.map (!·)

/-- Bits of a word in flash. -/
theorem lowFirst_word32 (address : Nat) :
    (ofWord (word32 memory address)).reverse = Crc.lowFirst (readBytes memory address 4) := by
  have bits : ofWord (word32 memory address) =
      [31, 30, 29, 28, 27, 26, 25, 24, 23, 22, 21, 20, 19, 18, 17, 16, 15, 14, 13, 12, 11, 10, 9, 8,
        7, 6, 5, 4, 3, 2, 1, 0].map (bit memory address) := by
    rw [ofWord_eq]
    refine List.map_congr_left fun index member => word32_bit _ _ _ ?_
    revert member index
    decide
  rw [bits]
  rfl

/-- The checksum stands before the data. -/
theorem imageBits_eq : imageBits memory slot =
    (ofWord (fwCrc memory slot)).reverse ++ Crc.lowFirst (fwData memory slot) := by
  rw [imageBits, readBytes_append, fwCrc, lowFirst_word32, fwData]
  exact List.flatMap_append

/-- As many bits as the header says. -/
theorem lowFirst_fwData_length :
    (Crc.lowFirst (fwData memory slot)).length = 8 * (fwSize memory slot).toNat := by
  rw [Crc.lowFirst_length, fwData, readBytes_length]

/-- And those of the checksum. -/
theorem invertedBits_length :
    (invertedBits memory slot).length = 8 * (fwSize memory slot).toNat + 32 := by
  rw [invertedBits, List.length_append, lowFirst_fwData_length, List.length_map,
    List.length_reverse, ofWord_length]

/-- Bits in the other order. -/
theorem highFirst_reverse {width : Nat} (word : BitVec width) :
    (highFirst word).reverse = highFirst word.reverse := by
  symm
  apply highFirst_eq (by rw [List.length_reverse, highFirst_length])
  intro index inside
  have within : index < (highFirst word).reverse.length := by
    rw [List.length_reverse, highFirst_length]
    exact inside
  rw [BitVec.getMsbD_reverse, List.getD_eq_getElem _ _ within, List.getElem_reverse,
    highFirst_getElem, highFirst_length, BitVec.getMsbD_eq_getLsbD, decide_eq_true (by omega),
    Bool.true_and]
  congr 1
  omega

/-- The checksum of an image, with its bits in the other order. -/
theorem crc32_register (bytes : List UInt8) :
    ~~~(crc32 bytes).toBitVec.reverse =
      (Crc.lowFirst bytes).foldl (shift (0xEDB88320 : BitVec 32).reverse) (BitVec.allOnes 32) := by
  have ones : (BitVec.allOnes 32).reverse = BitVec.allOnes 32 := by decide +kernel
  have inverted (word : BitVec 32) : ~~~(word ^^^ BitVec.allOnes 32).reverse = word.reverse := by
    apply BitVec.eq_of_getLsbD_eq
    intro index inside
    rw [BitVec.getLsbD_not, BitVec.getLsbD_reverse, BitVec.xor_allOnes, BitVec.getMsbD_not,
      BitVec.getLsbD_reverse]
    simp [inside]
  rw [crc32_toBitVec, Crc.reflected_bits _ (by decide),
    show 0xFFFFFFFF#32 = BitVec.allOnes 32 from rfl, inverted,
    foldl_reflectedShift_reverse, ones]
  rfl

/-- An image is accepted if its size is allowed and its bits leave no remainder. -/
theorem accepted_iff : (startupFromSlot slot memory).accepted = true ↔
    (fwSize memory slot ≤ 0x38000 ∧ fwSize memory slot ≠ 0) ∧
      (invertedBits memory slot).foldl (shift (0xEDB88320 : BitVec 32).reverse)
        (BitVec.allOnes 32) = BitVec.ofNat 32 0 := by
  have check : (ofWord (fwCrc memory slot)).reverse.map (!·) =
      highFirst (~~~(fwCrc memory slot).toBitVec.reverse) := by
    rw [highFirst_not, ofWord, highFirst_reverse]
  have reversed : ~~~(crc32 (fwData memory slot)).toBitVec.reverse =
      ~~~(fwCrc memory slot).toBitVec.reverse ↔
        crc32 (fwData memory slot) = fwCrc memory slot := by
    rw [BitVec.not_inj, ← UInt32.toBitVec_inj]
    constructor
    · intro same
      rw [← BitVec.reverse_reverse_eq (x := (crc32 (fwData memory slot)).toBitVec), same,
        BitVec.reverse_reverse_eq]
    · exact fun same => congrArg BitVec.reverse same
  rw [invertedBits, check, foldl_shift_check_iff Checksums.crc32_ends, ← crc32_register, reversed,
    startupFromSlot]
  split
  next wrong =>
    have outside : ¬(fwSize memory slot ≤ 0x38000 ∧ fwSize memory slot ≠ 0) := by
      intro allowed
      rw [Bool.or_eq_true, decide_eq_true_eq, beq_iff_eq] at wrong
      cases wrong with
      | inl long => exact UInt32.not_lt.mpr allowed.1 long
      | inr empty => exact allowed.2 empty
    exact iff_of_false Bool.false_ne_true fun both => outside both.1
  next allowed =>
    rw [Bool.or_eq_true, decide_eq_true_eq, beq_iff_eq, not_or] at allowed
    rw [beq_iff_eq]
    exact ⟨fun same => ⟨⟨UInt32.not_lt.mp allowed.1, allowed.2⟩, same⟩, fun both => both.2⟩

/-- Images with different bits differ. -/
theorem lowFirst_injective : Function.Injective Crc.lowFirst := by
  apply flatMap_injective
  · intro byte
    rw [List.length_reverse, ofByte_length]
  · decide
  · intro byte byte' same
    exact ofByte_injective (List.reverse_injective same)

variable {memory slot}

/-- Damage of an image in flash that its checksum finds: at most two bits of the checksum and the
data behind it, a burst of at most thirty-two bits in the data, or anything in the checksum. -/
def ImageDamaged (memory memory' : Memory) (slot : Slot) : Prop :=
  (differences (imageBits memory' slot) (imageBits memory slot)).count true ≤ 2 ∨
    fwCrc memory' slot = fwCrc memory slot ∧ Burst 32
      (differences (Crc.lowFirst (fwData memory' slot)) (Crc.lowFirst (fwData memory slot))) ∨
    fwData memory' slot = fwData memory slot

/-- Damage of an image is damage of what the register takes in. -/
theorem ImageDamaged.slight {memory' : Memory} (damaged : ImageDamaged memory memory' slot)
    (size : fwSize memory' slot = fwSize memory slot) :
    Slight 32 (differences (invertedBits memory' slot) (invertedBits memory slot)) := by
  have data : (Crc.lowFirst (fwData memory' slot)).length =
      (Crc.lowFirst (fwData memory slot)).length := by
    rw [lowFirst_fwData_length, lowFirst_fwData_length, size]
  have check : (ofWord (fwCrc memory' slot)).reverse.length =
      (ofWord (fwCrc memory slot)).reverse.length := by
    rw [List.length_reverse, List.length_reverse, ofWord_length, ofWord_length]
  rw [invertedBits, invertedBits, differences_append _ _ data, differences_not]
  rcases damaged with few | ⟨same, burst⟩ | same
  · rw [imageBits_eq, imageBits_eq, differences_append _ _ check, List.count_append,
      Nat.add_comm] at few
    exact .inr (by rwa [List.count_append])
  · rw [same, differences_self]
    exact .inl (burst.append _)
  · rw [same, differences_self]
    by_cases one : true ∈ differences (ofWord (fwCrc memory' slot)).reverse
        (ofWord (fwCrc memory slot)).reverse
    · refine .inl (burst_of_mem ?_ one _)
      rw [differences_length check, List.length_reverse, ofWord_length]
    · right
      rw [List.count_append, List.count_replicate, List.count_eq_zero.mpr one,
        if_neg (by decide)]
      decide

/-- Images of one size are the same if the register takes in the same. -/
theorem invertedBits_inj {memory' : Memory} (size : fwSize memory' slot = fwSize memory slot) :
    invertedBits memory' slot = invertedBits memory slot ↔
      fwData memory' slot = fwData memory slot ∧ fwCrc memory' slot = fwCrc memory slot := by
  constructor
  · intro same
    have length : (Crc.lowFirst (fwData memory' slot)).length =
        (Crc.lowFirst (fwData memory slot)).length := by
      rw [lowFirst_fwData_length, lowFirst_fwData_length, size]
    have ⟨data, check⟩ := List.append_inj same length
    have inverted : Function.Injective (!· : Bool → Bool) := by decide
    have reversed := List.map_injective_iff.mpr inverted check
    exact ⟨lowFirst_injective data, ofWord_injective (List.reverse_injective reversed)⟩
  · intro same
    rw [invertedBits, invertedBits, same.1, same.2]

end Images

/-- An image that the bootloader accepts is not accepted any more when flash has damaged it, if the
damage is two bits or fewer, a burst of at most thirty-two bits in the data, or in the checksum
only: then the bootloader starts a slot only if nothing is damaged. -/
theorem startup_damaged (slot : Slot) {memory memory' : Memory}
    (accepted : (startupFromSlot slot memory).accepted = true)
    (size : fwSize memory' slot = fwSize memory slot)
    (damaged : ImageDamaged memory memory' slot) :
    (startupFromSlot slot memory').accepted = true ↔
      fwData memory' slot = fwData memory slot ∧ fwCrc memory' slot = fwCrc memory slot := by
  have ⟨allowed, empty⟩ := (accepted_iff memory slot).mp accepted
  have long : (fwSize memory slot).toNat ≤ 0x38000 := UInt32.le_iff_toNat_le.mp allowed.1
  have same : (invertedBits memory' slot).length = (invertedBits memory slot).length := by
    rw [invertedBits_length, invertedBits_length, size]
  have short : (invertedBits memory' slot).length ≤ 4294967295 := by
    rw [invertedBits_length, size]
    omega
  have found := foldl_shift_eq_iff_of_slight Checksums.crc32_ends Checksums.crc32_order same short
    (damaged.slight size) (BitVec.allOnes 32)
  rw [accepted_iff, size, ← invertedBits_inj size, ← found, empty]
  exact ⟨fun both => both.2, fun left => ⟨allowed, left⟩⟩

/-- Flash with an image of one byte in slot 0, and its checksum. -/
def byteImage (byte : UInt8) : Memory := fun address =>
  [0x01, 0x00, 0x00, 0x00, 0xB7, 0xEF, 0xDC, 0x83, byte].getD (address - 0x10000) 0

/-- An image with an inverted bit is refused. -/
theorem inverted_image_refused : ¬(startupFromSlot 0 (byteImage 0x30)).accepted = true := by
  intro accepted
  have same := (@startup_damaged 0 (byteImage 0x31) (byteImage 0x30)
    (by decide +kernel) (by decide +kernel) (.inl (by decide +kernel))).mp accepted
  exact absurd same.1 (by decide +kernel)

end Fly2040.Firmware
