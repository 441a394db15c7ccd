import Fly2040.Firmware.Card
import Fly2040.Firmware.Sender
import Fly2040.Lib.Remainder
/-!
# Frames on the lines of the eMMC

A command is a frame of 48 bits with a checksum of seven bits, and a block is a frame of its bits
with a checksum of sixteen. Both are put into words by hand, behind a count, so that single bits of
a byte end up in different words. Bit by bit, each is a packet of the machine that sends.
-/

namespace Fly2040.Firmware

open Bits Bytes Card Pio Remainder

/-- Pin of the data line. -/
def pinDat : Nat := 29

/-- Pin of the command line. -/
def pinCmd : Nat := 28

/-- Bytes of a command. -/
def cmdWriteData (cmd : UInt8) (argument : UInt32) : List UInt8 :=
  let head := (cmd ||| 0x40) :: (List.range 4).map (byte32 (bswap32 argument))
  head ++ [(crc7 head <<< 1) ||| 1]

/-- Words of a command. -/
def cmdWriteFifo (cmd : UInt8) (argument : UInt32) : List UInt32 :=
  let data := fun index => (cmdWriteData cmd argument).getD index 0
  [(0xFFCF0000 : UInt32) ||| (data 0).toUInt32 <<< 8 ||| (data 1).toUInt32,
    bswap32 (le32 (data 2) (data 3) (data 4) (data 5)),
    0x80000000]

/-- What the host does for a command. -/
def cmdWrite (cmd : UInt8) (argument : UInt32) : List Action :=
  [.enable false, .select pinCmd, .enable true] ++
    (cmdWriteFifo cmd argument).map fun word => .put (~~~word)

/-- A byte of a block in a word. -/
def datWriteByte (buffer : Block) (index : Nat) : UInt32 := (buffer.memory index).toUInt32

/-- A word of a block and the last bit of its last byte, which the next word begins with. -/
def datWriteBody (buffer : Block) (state : List UInt32 × UInt32) (i : Nat) : List UInt32 × UInt32 :=
  let byte := datWriteByte buffer
  (state.1 ++ [state.2 <<< 31 ||| byte (i * 4 - 2) <<< 23 ||| byte (i * 4 - 1) <<< 15 |||
      byte (0 + i * 4) <<< 7 ||| byte (1 + i * 4) >>> 1],
    byte (1 + i * 4) &&& 1)

/-- Words of a block. -/
def datWriteWords (buffer : Block) : List UInt32 :=
  let byte := datWriteByte buffer
  let crc := crcItuT (List.ofFn buffer)
  let sizeBits : UInt32 := 514 * 8 + 2
  let first := (sizeBits ^^^ 0xFFFF) <<< 16 ||| byte 0 <<< 7 ||| byte 1 >>> 1
  let body := (List.range' 1 127).foldl (datWriteBody buffer) ([first], byte 1 &&& 1)
  body.1 ++
    [body.2 <<< 31 ||| byte 510 <<< 23 ||| byte 511 <<< 15 ||| (crc >>> 8).toUInt32 <<< 7 |||
        (crc &&& 0xFF).toUInt32 >>> 1,
      (crc &&& 1).toUInt32 <<< 31 ||| (3 : UInt32) <<< 29]

/-- What the host does for a block. -/
def datWrite (buffer : Block) : List Action :=
  [.enable false, .select pinDat, .enable true] ++
    (datWriteWords buffer).map fun word => .put (~~~word)

section Layout

/-- The lowest bit of a byte comes last. -/
theorem ofByte_join (byte : UInt8) :
    (ofByte byte).take 7 ++ [byte.toBitVec.getLsbD 0] = ofByte byte := rfl

/-- The lowest bit of a half word comes last. -/
theorem ofHalf_join (half : UInt16) (rest : List Bool) :
    (ofHalf half).take 15 ++ half.toBitVec.getLsbD 0 :: rest = ofHalf half ++ rest := rfl

/-- A word of the body: the last bit of a byte, three bytes, and the first bits of another one. -/
theorem ofWord_body (b₀ b₁ b₂ b₃ b₄ : UInt8) :
    ofWord ((b₀.toUInt32 &&& 1) <<< 31 ||| b₁.toUInt32 <<< 23 ||| b₂.toUInt32 <<< 15 |||
      b₃.toUInt32 <<< 7 ||| b₄.toUInt32 >>> 1) =
      [b₀.toBitVec.getLsbD 0] ++ (ofBytes [b₁, b₂, b₃] ++ (ofByte b₄).take 7) := by
  simp [-BitVec.getLsbD_eq_getElem, ofWord_eq, ofByte_eq]

/-- The first word: the count, a zero and the first bits. -/
theorem ofWord_first (b₀ b₁ : UInt8) :
    ofWord (((514 * 8 + 2 : UInt32) ^^^ 0xFFFF) <<< 16 ||| b₀.toUInt32 <<< 7 |||
      b₁.toUInt32 >>> 1) =
      ofHalf 0xEFED ++ (false :: (ofByte b₀ ++ (ofByte b₁).take 7)) := by
  simp [-BitVec.getLsbD_eq_getElem, ofWord_eq, ofByte_eq, ofHalf_eq]

/-- The last word but one: the last bit of a byte, two bytes and the first bits of the checksum. -/
theorem ofWord_check (b₀ b₁ b₂ : UInt8) (crc : UInt16) :
    ofWord ((b₀.toUInt32 &&& 1) <<< 31 ||| b₁.toUInt32 <<< 23 ||| b₂.toUInt32 <<< 15 |||
      (crc >>> 8).toUInt32 <<< 7 ||| (crc &&& 0xFF).toUInt32 >>> 1) =
      [b₀.toBitVec.getLsbD 0] ++ (ofBytes [b₁, b₂] ++ (ofHalf crc).take 15) := by
  simp [-BitVec.getLsbD_eq_getElem, ofWord_eq, ofByte_eq, ofHalf_eq]

/-- The last word: the last bit of the checksum, and two ones. -/
theorem ofWord_last (crc : UInt16) :
    ofWord ((crc &&& 1).toUInt32 <<< 31 ||| (3 : UInt32) <<< 29) =
      [crc.toBitVec.getLsbD 0] ++ (true :: true :: List.replicate 29 false) := by
  simp [-BitVec.getLsbD_eq_getElem, ofWord_eq]

end Layout

section Blocks

variable (buffer : Block)

/-- Bits of a block on the data line: a start bit, the data, its checksum, a stop bit, and a bit
that releases the line. -/
def datFrame : List Bool :=
  [false] ++ (ofBytes (List.ofFn buffer) ++ (ofHalf (crcItuT (List.ofFn buffer)) ++ [true, true]))

/-- The first words hold the first bytes but for the last bit, which is carried on. -/
theorem datWriteBody_bits (count : Nat) :
    let body := (List.range' 1 count).foldl (datWriteBody buffer)
      ([((514 * 8 + 2 : UInt32) ^^^ 0xFFFF) <<< 16 ||| datWriteByte buffer 0 <<< 7 |||
        datWriteByte buffer 1 >>> 1], datWriteByte buffer 1 &&& 1)
    body.2 = datWriteByte buffer (4 * count + 1) &&& 1 ∧
      ofWords body.1 ++ [(buffer.memory (4 * count + 1)).toBitVec.getLsbD 0] =
        ofHalf 0xEFED ++ ([false] ++ ofBytes ((List.range (4 * count + 2)).map buffer.memory)) := by
  induction count with
  | zero =>
    refine ⟨rfl, ?_⟩
    show ofWord (_ ||| (buffer.memory 0).toUInt32 <<< 7 ||| (buffer.memory 1).toUInt32 >>> 1) ++
      [] ++ [(buffer.memory 1).toBitVec.getLsbD 0] =
        ofHalf 0xEFED ++ ([false] ++ ofBytes [buffer.memory 0, buffer.memory 1])
    rw [ofWord_first]
    simp only [List.append_assoc, List.cons_append, List.nil_append, ofByte_join, ofBytes_cons,
      ofBytes_nil, List.append_nil]
  | succ count ih =>
    have ⟨carried, bits⟩ := ih
    have more : (List.range (4 * (count + 1) + 2)).map buffer.memory =
        (List.range (4 * count + 2)).map buffer.memory ++
          [buffer.memory (4 * count + 2), buffer.memory (4 * count + 3),
            buffer.memory (4 * count + 4), buffer.memory (4 * count + 5)] := by
      rw [show 4 * (count + 1) + 2 = 4 * count + 2 + 1 + 1 + 1 + 1 by omega]
      simp only [List.range_succ, List.map_append, List.map_cons, List.map_nil, List.append_assoc,
        List.cons_append, List.nil_append]
    rw [List.range'_concat, List.foldl_append, List.foldl_cons, List.foldl_nil]
    refine ⟨?_, ?_⟩
    · show datWriteByte buffer (1 + (1 + 1 * count) * 4) &&& 1 = _
      rw [show 1 + (1 + 1 * count) * 4 = 4 * (count + 1) + 1 by omega]
    · rw [datWriteBody, carried, ofWords_append, more, ofBytes_append, ← List.append_assoc [false],
        ← List.append_assoc (ofHalf _), ← bits,
        show (1 + 1 * count) * 4 - 2 = 4 * count + 2 by omega,
        show (1 + 1 * count) * 4 - 1 = 4 * count + 3 by omega,
        show 0 + (1 + 1 * count) * 4 = 4 * count + 4 by omega,
        show 1 + (1 + 1 * count) * 4 = 4 * count + 5 by omega,
        show 4 * (count + 1) + 1 = 4 * count + 5 by omega]
      simp only [datWriteByte, ofWords_cons, ofWord_body, ofWords_nil, List.append_assoc,
        List.cons_append, List.nil_append, ofByte_join, ofBytes_cons, ofBytes_nil, List.append_nil]

/-- The bytes of a block in order. -/
theorem map_memory : (List.range 512).map buffer.memory = List.ofFn buffer := by
  apply List.ext_getElem
  · simp only [List.length_map, List.length_range, List.length_ofFn]
  · intro index inside inside'
    rw [List.length_ofFn] at inside'
    simp only [List.getElem_map, List.getElem_range, List.getElem_ofFn, Block.memory,
      dif_pos inside']

/-- The words of a block hold a count, the frame of the block, and zeros. -/
theorem datWriteWords_bits :
    ofWords (datWriteWords buffer) =
      ofHalf 0xEFED ++ (datFrame buffer ++ List.replicate 29 false) := by
  have ⟨carried, bits⟩ := datWriteBody_bits buffer 127
  have whole : List.ofFn buffer =
      (List.range 510).map buffer.memory ++ [buffer.memory 510, buffer.memory 511] := by
    rw [← map_memory, show 512 = 510 + 1 + 1 from rfl, List.range_succ, List.range_succ]
    simp only [List.map_append, List.map_cons, List.map_nil, List.append_assoc, List.cons_append,
      List.nil_append]
  rw [datFrame, datWriteWords]
  generalize crcItuT (List.ofFn buffer) = crc
  rw [carried, ofWords_append, whole]
  simp only [datWriteByte, ofWords_cons, ofWord_check, ofWord_last, ofWords_nil, ofBytes_append,
    List.append_assoc, List.cons_append, List.nil_append, ofHalf_join, List.append_nil] at bits ⊢
  rw [List.append_cons, bits]
  simp only [ofBytes_cons, ofBytes_nil, List.append_assoc, List.cons_append, List.append_nil]

/-- The frame of a block has the bits of 514 bytes and three more. -/
theorem datFrame_length : (datFrame buffer).length = 514 * 8 + 3 := by
  simp only [datFrame, List.length_append, ofBytes_length, List.length_ofFn, ofHalf_length,
    List.length_cons, List.length_nil]

/-- A block is sent in 130 words. -/
theorem datWriteWords_length : (datWriteWords buffer).length = 130 := by
  have lengths := congrArg List.length (datWriteWords_bits buffer)
  rw [ofWords_length, List.length_append, ofHalf_length, List.length_append, datFrame_length,
    List.length_replicate] at lengths
  omega

/-- A block for the machine that sends. -/
def datPacket : Packet where
  words := (datWriteWords buffer).map (~~~·)
  directions := (datFrame buffer).map (!·)
  layout := by
    refine ⟨(ofHalf 0xEFED).map (!·), (List.replicate 29 false).map (!·), ?_, rfl, ?_, by decide,
      by decide⟩
    · rw [ofWords_not, datWriteWords_bits, List.map_append, List.map_append]
    · rw [List.length_map, datFrame_length]
      decide

end Blocks

section Commands

/-- A word with bytes in order has them the other way round on the line. -/
theorem ofWord_le32 (b₀ b₁ b₂ b₃ : UInt8) :
    ofWord (le32 b₀ b₁ b₂ b₃) = ofBytes [b₃, b₂, b₁, b₀] := by
  show highFirst (b₃.toBitVec ++ b₂.toBitVec ++ b₁.toBitVec ++ b₀.toBitVec) = _
  rw [highFirst_append, highFirst_append, highFirst_append]
  simp only [ofBytes_cons, ofBytes_nil, ofByte, List.append_assoc, List.append_nil]

/-- A byte of a word that is put together. -/
theorem byte32_le32 (b₀ b₁ b₂ b₃ : UInt8) (index : Nat) (inside : index < 4) :
    byte32 (le32 b₀ b₁ b₂ b₃) index = [b₀, b₁, b₂, b₃].getD (0 + index) 0 :=
  byte32_word32 (fun index => [b₀, b₁, b₂, b₃].getD index 0) 0 index inside

/-- Bytes in the opposite order are in the order of the line. -/
theorem ofWord_bswap32 (b₀ b₁ b₂ b₃ : UInt8) :
    ofWord (bswap32 (le32 b₀ b₁ b₂ b₃)) = ofBytes [b₀, b₁, b₂, b₃] := by
  rw [bswap32, ofWord_le32, byte32_le32 _ _ _ _ 0 (by decide), byte32_le32 _ _ _ _ 1 (by decide),
    byte32_le32 _ _ _ _ 2 (by decide), byte32_le32 _ _ _ _ 3 (by decide)]
  rfl

/-- The first word of a command. -/
theorem ofWord_command (b₀ b₁ : UInt8) :
    ofWord ((0xFFCF0000 : UInt32) ||| b₀.toUInt32 <<< 8 ||| b₁.toUInt32) =
      ofHalf 0xFFCF ++ ofBytes [b₀, b₁] := by
  simp [-BitVec.getLsbD_eq_getElem, ofWord_eq, ofByte_eq, ofHalf_eq]

/-- The argument of a command is stored with its highest byte first. -/
theorem ofBytes_argument (argument : UInt32) :
    ofBytes ((List.range 4).map (byte32 (bswap32 argument))) = ofWord argument := by
  have bytes : (List.range 4).map (byte32 (bswap32 argument)) =
      [byte32 argument 3, byte32 argument 2, byte32 argument 1, byte32 argument 0] := by
    show [byte32 (bswap32 argument) 0, byte32 (bswap32 argument) 1, byte32 (bswap32 argument) 2,
      byte32 (bswap32 argument) 3] = _
    rw [bswap32, byte32_le32 _ _ _ _ 0 (by decide), byte32_le32 _ _ _ _ 1 (by decide),
      byte32_le32 _ _ _ _ 2 (by decide), byte32_le32 _ _ _ _ 3 (by decide)]
    rfl
  rw [bytes, ← ofWord_le32, le32_byte32]

variable (cmd : UInt8) (argument : UInt32)

/-- Bits of a command on the command line: its bytes, and a bit that releases the line. -/
def cmdFrame : List Bool := ofBytes (cmdWriteData cmd argument) ++ [true]

/-- The words of a command hold a count, its frame, and zeros. -/
theorem cmdWriteFifo_bits :
    ofWords (cmdWriteFifo cmd argument) =
      ofHalf 0xFFCF ++ (cmdFrame cmd argument ++ List.replicate 31 false) := by
  have six : ∃ b₀ b₁ b₂ b₃ b₄ b₅, cmdWriteData cmd argument = [b₀, b₁, b₂, b₃, b₄, b₅] :=
    ⟨_, _, _, _, _, _, rfl⟩
  have ⟨b₀, b₁, b₂, b₃, b₄, b₅, data⟩ := six
  have last : ofWord 0x80000000 = true :: List.replicate 31 false := by decide
  rw [cmdFrame, cmdWriteFifo, data]
  show ofWord ((0xFFCF0000 : UInt32) ||| b₀.toUInt32 <<< 8 ||| b₁.toUInt32) ++
    (ofWord (bswap32 (le32 b₂ b₃ b₄ b₅)) ++ (ofWord 0x80000000 ++ [])) = _
  rw [ofWord_command, ofWord_bswap32, last]
  simp only [ofBytes_cons, ofBytes_nil, List.append_assoc, List.cons_append, List.nil_append,
    List.append_nil]

/-- A command for the machine that sends. -/
def cmdPacket : Packet where
  words := (cmdWriteFifo cmd argument).map (~~~·)
  directions := (cmdFrame cmd argument).map (!·)
  layout := by
    refine ⟨(ofHalf 0xFFCF).map (!·), (List.replicate 31 false).map (!·), ?_, rfl, ?_, by decide,
      by decide⟩
    · rw [ofWords_not, cmdWriteFifo_bits, List.map_append, List.map_append]
    · rw [List.length_map, cmdFrame, List.length_append, ofBytes_length]
      show (packed 32 ((ofHalf 0xFFCF).map (!·))).toNat + 1 = 8 * 6 + 1
      decide

end Commands

section Checksums

/-- The register of the checksum on the command line: the bits that the mask keeps. -/
def register7 (crc : UInt8) : BitVec 7 := crc.toBitVec.setWidth 7

/-- One bit of the checksum, and the rest of the byte. -/
def crc7Bit (state : UInt8 × UInt8) : UInt8 × UInt8 :=
  let crc := state.1 <<< 1
  (if (crc ^^^ state.2) &&& 0x80 ≠ 0 then crc ^^^ 9 else crc, state.2 <<< 1)

/-- A byte is taken in bit by bit. -/
theorem crc7Byte_eq (crc c : UInt8) :
    crc7Byte crc c = ((List.range 8).foldl (fun state _ => crc7Bit state) (crc, c)).1 &&& 0x7F :=
  rfl

/-- The test of the highest bit. -/
theorem and_top (byte : UInt8) : byte &&& 0x80 ≠ 0 ↔ byte.toBitVec.getLsbD 7 = true := by
  rw [ne_eq, ← UInt8.toBitVec_inj]
  exact and_twoPow_ne_zero byte.toBitVec (show 7 < 8 by decide)

/-- A move of the byte is a move of the register. -/
theorem register7_shiftLeft (crc : UInt8) : register7 (crc <<< 1) = register7 crc <<< 1 := by
  apply BitVec.eq_of_getLsbD_eq
  intro index inside
  have before : index - 1 < 7 := by omega
  simp [-BitVec.getLsbD_eq_getElem, register7, inside, before]

/-- A bit of the checksum is one move of its register. -/
theorem crc7Bit_register (crc c : UInt8) :
    register7 (crc7Bit (crc, c)).1 = shift 9 (register7 crc) (c.toBitVec.getLsbD 7) := by
  have top : (crc <<< 1 ^^^ c).toBitVec.getLsbD 7 =
      ((register7 crc).msb ^^ c.toBitVec.getLsbD 7) := by
    simp [-BitVec.getLsbD_eq_getElem, register7, BitVec.msb_eq_getLsbD_last]
  rw [crc7Bit, shift, ← top]
  dsimp only
  cases out : (crc <<< 1 ^^^ c).toBitVec.getLsbD 7 with
  | false =>
    rw [if_neg (by rw [and_top, out]; exact Bool.false_ne_true), register7_shiftLeft]
    exact (BitVec.xor_zero).symm
  | true =>
    rw [if_pos (by rw [and_top, out]), if_pos rfl, ← register7_shiftLeft]
    exact BitVec.setWidth_xor

/-- The mask keeps the register. -/
theorem register7_mask (crc : UInt8) : register7 (crc &&& 0x7F) = register7 crc := by
  apply BitVec.eq_of_getLsbD_eq
  intro index inside
  have kept : (0x7F : BitVec 8).getLsbD index = true := by
    interval_cases index <;> rfl
  show ((crc.toBitVec &&& 0x7F).setWidth 7).getLsbD index = (crc.toBitVec.setWidth 7).getLsbD index
  rw [BitVec.getLsbD_setWidth, BitVec.getLsbD_and, kept, Bool.and_true, BitVec.getLsbD_setWidth]

/-- The first bits of a byte are the moves of the register, and the byte has moved with them. -/
theorem crc7Bit_foldl (crc c : UInt8) (count : Nat) (inside : count ≤ 8) :
    let state := (List.range count).foldl (fun state _ => crc7Bit state) (crc, c)
    register7 state.1 = ((ofByte c).take count).foldl (shift 9) (register7 crc) ∧
      state.2.toBitVec = c.toBitVec <<< count := by
  induction count with
  | zero => exact ⟨rfl, (BitVec.shiftLeft_zero _).symm⟩
  | succ count ih =>
    have ⟨moved, rest⟩ := ih (by omega)
    have next : (ofByte c)[count]? = some (c.toBitVec.getMsbD count) := by
      rw [List.getElem?_eq_getElem (by rw [ofByte_length]; exact inside)]
      exact congrArg some (highFirst_getElem c.toBitVec count _)
    rw [List.range_succ, List.foldl_append, List.foldl_cons, List.foldl_nil, List.take_add_one,
      next, Option.toList_some, List.foldl_append, ← moved]
    generalize (List.range count).foldl (fun state _ => crc7Bit state) (crc, c) = state at rest ⊢
    constructor
    · have top : state.2.toBitVec.getLsbD 7 = c.toBitVec.getMsbD count := by
        rw [rest, BitVec.getLsbD_shiftLeft, BitVec.getMsbD_eq_getLsbD, decide_eq_true (by omega),
          decide_eq_false (by omega), decide_eq_true (show count < 8 by omega)]
        rfl
      rw [List.foldl_cons, List.foldl_nil, ← top]
      exact crc7Bit_register state.1 state.2
    · show state.2.toBitVec <<< 1 = _
      rw [rest, ← BitVec.shiftLeft_add]

/-- A byte of the checksum is the moves of its bits. -/
theorem crc7Byte_register (crc c : UInt8) :
    register7 (crc7Byte crc c) = (ofByte c).foldl (shift 9) (register7 crc) := by
  rw [crc7Byte_eq, register7_mask]
  exact (crc7Bit_foldl crc c 8 (Nat.le_refl _)).1

/-- The checksum is the moves of all bits. -/
theorem crc7_register (bytes : List UInt8) :
    register7 (crc7 bytes) = (ofBytes bytes).foldl (shift 9) 0 := by
  have from_register : ∀ crc : UInt8,
      register7 (bytes.foldl crc7Byte crc) = (ofBytes bytes).foldl (shift 9) (register7 crc) := by
    induction bytes with
    | nil => exact fun _ => rfl
    | cons byte bytes ih =>
      intro crc
      rw [List.foldl_cons, ih, crc7Byte_register, ofBytes_cons, List.foldl_append]
  exact from_register 0

/-- The polynomial that the checksum on the command line divides by. -/
theorem divisor_crc7 : divisor (9 : BitVec 7) = Polynomial.X ^ 7 + Polynomial.X ^ 3 + 1 := by
  have bits : highFirst (9 : BitVec 7) = [false, false, false, true, false, false, true] := by
    decide
  rw [divisor, value, bits]
  simp [ofBits, coefficient, pow_succ, add_assoc]

/-- Bits of the checksum on the command line, of bytes. -/
def crc7Bits (bytes : List UInt8) : List Bool := highFirst (register7 (crc7 bytes))

/-- The checksum is the remainder of the bytes, moved by its width. -/
theorem crc7Bits_remainder (bytes : List UInt8) :
    ofBits (crc7Bits bytes) =
      (ofBits (ofBytes bytes) * Polynomial.X ^ 7) %ₘ
        (Polynomial.X ^ 7 + Polynomial.X ^ 3 + 1) := by
  have remainder := value_remainder (9 : BitVec 7) 0#7 (ofBytes bytes)
  rw [value_zero, zero_mul, zero_add, divisor_crc7] at remainder
  rw [← remainder, crc7Bits, crc7_register]
  rfl

variable (cmd : UInt8) (argument : UInt32)

/-- Bytes that the checksum of a command is of. -/
def cmdHead : List UInt8 := (cmd ||| 0x40) :: (List.range 4).map (byte32 (bswap32 argument))

/-- The byte of the checksum of a command: the checksum and a one. -/
theorem ofByte_crc7 (bytes : List UInt8) :
    ofByte ((crc7 bytes <<< 1) ||| 1) = crc7Bits bytes ++ [true] := by
  show _ = [6, 5, 4, 3, 2, 1, 0].map (register7 (crc7 bytes)).getLsbD ++ [true]
  simp [-BitVec.getLsbD_eq_getElem, ofByte_eq, register7]

/-- The first bytes of a command: a zero, a one, its number and its argument. -/
theorem cmdHead_bits (small : cmd < 64) :
    ofBytes (cmdHead cmd argument) = [false, true] ++ ((ofByte cmd).drop 2 ++ ofWord argument) := by
  have below : cmd.toNat < 2 ^ 7 := Nat.lt_trans (UInt8.lt_iff_toNat_lt.mp small) (by decide)
  have top : cmd.toBitVec.getLsbD 7 = false := Nat.testBit_lt_two_pow below
  have first : ofByte (cmd ||| 0x40) = [false, true] ++ (ofByte cmd).drop 2 := by
    simp [-BitVec.getLsbD_eq_getElem, ofByte_eq, top]
  rw [cmdHead, ofBytes_cons, ofBytes_argument, first, List.append_assoc]

/-- The frame of a command: its first bytes, their checksum, a one, and the released line. -/
theorem cmdFrame_eq :
    cmdFrame cmd argument =
      ofBytes (cmdHead cmd argument) ++ (crc7Bits (cmdHead cmd argument) ++ [true, true]) := by
  have data : cmdWriteData cmd argument =
      cmdHead cmd argument ++ [(crc7 (cmdHead cmd argument) <<< 1) ||| 1] := rfl
  rw [cmdFrame, data, ofBytes_append, ofBytes_cons, ofByte_crc7, ofBytes_nil, List.append_nil,
    List.append_assoc, List.append_assoc]
  rfl

end Checksums

end Fly2040.Firmware
