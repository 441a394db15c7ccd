import Fly2040.Firmware.Transfers
/-!
# What the card clocks in

The machines of one port start in the same cycle and step at the same rate. One of them makes the
clock of the card and lets the one that sends go on when the clock falls. From then on two cycles
pass from bit to bit, so the line changes when the clock falls, and a card that looks at its line
when the clock rises gets every bit of a frame once, and nothing between two frames. All of this
holds unless the machine that sends has to wait for a word, or is switched off, within a frame.
-/

namespace Fly2040.Firmware

open Bits Pio Sender Steps

/-- Instructions of the machine that makes the clock. -/
inductive ClockInstr where
  /-- Set whether the pins are driven. -/
  | setPinDirs (driven : Bool)
  /-- Clear a flag. -/
  | irqClear (flag : Nat)
deriving DecidableEq

/-- An instruction, and the level of the clock from its cycle on. -/
structure ClockOp where
  /-- The instruction. -/
  instr : ClockInstr
  /-- Level of the clock. -/
  side : Bool
deriving DecidableEq

/-- Program of the machine that makes the clock. -/
def sdClk : List ClockOp :=
  -- the pin of the reset is driven half of the time
  [⟨.setPinDirs false, true⟩,
    ⟨.irqClear 0, false⟩,
    ⟨.setPinDirs true, true⟩,
    ⟨.irqClear 0, false⟩]

/-- The instruction of a cycle: none of them waits. -/
def clockOp (cycle : Nat) : ClockOp := sdClk.get ⟨cycle % 4, Nat.mod_lt cycle (by decide)⟩

/-- What the clock does to the machine that sends, and some levels of the pins. -/
def clocked (pin : (cycle index : Nat) → Bool) : Pio.Env where
  pin := pin
  released cycle flag := (clockOp cycle).instr = .irqClear flag

/-- The clock rises in a cycle. -/
def rises (cycle : Nat) : Bool := (clockOp cycle).side && !(clockOp (cycle + 3)).side

/-- The clock is high in every other cycle, and the flag is cleared in the others. -/
theorem clockOp_parity (cycle : Nat) :
    (clockOp cycle).side = decide (cycle % 2 = 0) ∧
      ((clockOp cycle).instr = .irqClear 0 ↔ cycle % 2 = 1) := by
  have all : ∀ place : Fin 4, (sdClk.get place).side = decide (place.val % 2 = 0) ∧
      ((sdClk.get place).instr = .irqClear 0 ↔ place.val % 2 = 1) := by decide
  have one := all ⟨cycle % 4, Nat.mod_lt cycle (by decide)⟩
  rw [show cycle % 4 % 2 = cycle % 2 by omega] at one
  exact one

/-- The clock falls, and the machine that sends goes on, in every other cycle. -/
theorem released_iff (pin : (cycle index : Nat) → Bool) (cycle : Nat) :
    (clocked pin).released cycle 0 = true ↔ cycle % 2 = 1 := by
  show decide ((clockOp cycle).instr = .irqClear 0) = true ↔ _
  rw [decide_eq_true_iff]
  exact (clockOp_parity cycle).2

/-- The clock rises in the cycles between. -/
theorem rises_iff (cycle : Nat) : rises cycle = true ↔ cycle % 2 = 0 := by
  rw [rises, (clockOp_parity cycle).1, (clockOp_parity (cycle + 3)).1, Bool.and_eq_true,
    Bool.not_eq_true', decide_eq_true_iff, decide_eq_false_iff_not]
  omega

/-- Level of a line: the last one that has been set, and high before. -/
def line (pin : Nat) (directions : List (Nat × Bool)) : Bool :=
  (((levels directions).filter (·.1 = pin)).map Prod.snd).getLastD true

/-- What a card has clocked in from a line. -/
structure Intake where
  /-- Whole frames. -/
  frames : List (List Bool)
  /-- The first bits of another one. -/
  part : List Bool
deriving DecidableEq

namespace Intake

/-- A bit of frames of a size is clocked in; between frames the line is high. -/
def take (size : Nat) (intake : Intake) (bit : Bool) : Intake :=
  if intake.part = [] ∧ bit = true then intake
  else if intake.part.length + 1 < size then { intake with part := intake.part ++ [bit] }
  else ⟨intake.frames ++ [intake.part ++ [bit]], []⟩

/-- Bits are clocked in one after the other, from the first one on. -/
def reads (size : Nat) (bits : List Bool) : Intake := bits.foldl (take size) ⟨[], []⟩

variable {size : Nat} {intake : Intake}

/-- Nothing is clocked in from a line that is released between frames. -/
theorem take_rest (rest : intake.part = []) : intake.take size true = intake := by
  rw [take, if_pos ⟨rest, rfl⟩]

/-- A bit that is clocked in behind others. -/
theorem reads_concat (bits : List Bool) (bit : Bool) :
    reads size (bits ++ [bit]) = (reads size bits).take size bit := by
  rw [reads, List.foldl_append]
  rfl

/-- Frames that have been clocked in stay. -/
theorem take_frames (bit : Bool) : intake.frames <+: (intake.take size bit).frames := by
  rw [take]
  split
  · exact List.prefix_refl _
  split
  · exact List.prefix_refl _
  · exact List.prefix_append _ _

/-- Frames stay, however many bits follow. -/
theorem reads_grows (bits more : List Bool) :
    (reads size bits).frames <+: (reads size (bits ++ more)).frames := by
  induction more using List.reverseRecOn with
  | nil =>
    rw [List.append_nil]
  | append_singleton more bit ih =>
    rw [← List.append_assoc, reads_concat]
    exact ih.trans (take_frames bit)

/-- The rest of a frame that has begun. -/
theorem foldl_rest {part rest : List Bool} (begun : part ≠ []) (more : rest ≠ [])
    (whole : part.length + rest.length = size) (frames : List (List Bool)) :
    rest.foldl (take size) ⟨frames, part⟩ = ⟨frames ++ [part ++ rest], []⟩ := by
  induction rest generalizing part with
  | nil => exact absurd rfl more
  | cons bit rest ih =>
    rw [List.length_cons] at whole
    rw [List.foldl_cons, take, if_neg fun never => begun never.1]
    cases rest with
    | nil =>
      rw [List.length_nil] at whole
      rw [if_neg (show ¬part.length + 1 < size by omega)]
      rfl
    | cons next rest =>
      rw [List.length_cons] at whole
      rw [if_pos (show part.length + 1 < size by omega)]
      have length : (part ++ [bit]).length = part.length + 1 := List.length_append
      rw [ih (List.append_ne_nil_of_right_ne_nil _ (List.cons_ne_nil _ _)) (List.cons_ne_nil _ _)
        (by rw [length, List.length_cons]; omega), List.append_assoc]
      rfl

/-- A whole frame. -/
theorem foldl_whole {rest : List Bool} (more : rest ≠ []) (whole : rest.length + 1 = size)
    (frames : List (List Bool)) :
    (false :: rest).foldl (take size) ⟨frames, []⟩ = ⟨frames ++ [false :: rest], []⟩ := by
  have length := List.length_pos_iff.mpr more
  have first : take size ⟨frames, []⟩ false = ⟨frames, [false]⟩ := by
    rw [take, if_neg fun never => Bool.false_ne_true never.2,
      if_pos (by show 0 + 1 < size; omega)]
    rfl
  rw [List.foldl_cons, first,
    foldl_rest (List.cons_ne_nil _ _) more (by rw [List.length_singleton]; omega)]
  rfl

/-- A frame and the released line behind it. -/
theorem foldl_frame {rest : List Bool} (more : rest ≠ []) (whole : rest.length + 1 = size)
    (frames : List (List Bool)) :
    (false :: rest ++ [true]).foldl (take size) ⟨frames, []⟩ =
      ⟨frames ++ [false :: rest], []⟩ := by
  have between : (⟨frames ++ [false :: rest], []⟩ : Intake).part = [] := rfl
  rw [List.foldl_append, foldl_whole more whole, List.foldl_cons, List.foldl_nil, take_rest between]

end Intake

section Frames

variable {size : Nat} {packets : List Packet}

/-- A packet carries a frame of a size: a zero, the rest, and then the released line. -/
def Framed (size : Nat) (packet : Packet) : Prop :=
  ∃ rest, rest ≠ [] ∧ rest.length + 1 = size ∧
    packet.directions.map (!·) = false :: rest ++ [true]

/-- The frame that a packet carries. -/
def frameOf (packet : Packet) : List Bool := (packet.directions.map (!·)).dropLast

/-- The frames of packets are clocked in, and nothing else. -/
theorem foldl_packets (framed : ∀ packet ∈ packets, Framed size packet)
    (frames : List (List Bool)) :
    ((packetDirections packets).map (!·)).foldl (Intake.take size) ⟨frames, []⟩ =
      ⟨frames ++ packets.map frameOf, []⟩ := by
  induction packets generalizing frames with
  | nil =>
    rw [List.map_nil, List.append_nil]
    rfl
  | cons packet packets ih =>
    have ⟨rest, more, whole, levels⟩ := framed packet List.mem_cons_self
    have frame : frameOf packet = false :: rest := by
      rw [frameOf, levels, List.dropLast_concat]
    show ((packet.directions ++ packetDirections packets).map (!·)).foldl _ _ = _
    rw [List.map_append, List.foldl_append, levels, Intake.foldl_frame more whole,
      ih fun other inside => framed other (List.mem_cons_of_mem _ inside), List.map_cons, frame,
      List.append_assoc]
    rfl

/-- The frames of packets are clocked in from the first bit on. -/
theorem reads_packets (framed : ∀ packet ∈ packets, Framed size packet) :
    Intake.reads size ((packetDirections packets).map (!·)) = ⟨packets.map frameOf, []⟩ :=
  foldl_packets framed []

/-- The last thing that a packet does is to release the line. -/
theorem Framed.directions_eq {packet : Packet} (framed : Framed size packet) :
    ∃ front, packet.directions = front ++ [false] := by
  have ⟨rest, _, _, levels⟩ := framed
  have ⟨front, last, split, _, one⟩ := List.map_eq_append_iff.mp levels
  have ⟨bit, same, released⟩ := List.map_eq_singleton_iff.mp one
  rw [Bool.not_eq_true'] at released
  rw [same, released] at split
  exact ⟨front, split⟩

/-- Bits that are set on one line, behind others. -/
theorem map_snd (pin : Nat) (known : List (Nat × Bool)) (bits : List Bool) :
    (known ++ bits.map fun bit => (pin, bit)).map Prod.snd = known.map Prod.snd ++ bits := by
  rw [List.map_append, List.append_cancel_left_eq, List.map_map]
  exact List.map_id bits

/-- The other lines stay as they were. -/
theorem line_other {pin other : Nat} (known : List (Nat × Bool)) (bits : List Bool)
    (apart : other ≠ pin) :
    line other (known ++ bits.map fun bit => (pin, bit)) = line other known := by
  have none : (levels (bits.map fun bit => (pin, bit))).filter (·.1 = other) = [] := by
    rw [List.filter_eq_nil_iff, levels, List.map_map]
    intro change inside
    obtain ⟨bit, _, same⟩ := List.mem_map.mp inside
    rw [← same]
    simpa using apart.symm
  rw [line, levels, List.map_append, List.filter_append]
  show (((levels known).filter _ ++ (levels (bits.map _)).filter _).map _).getLastD true = _
  rw [none, List.append_nil]
  rfl

/-- The level that has been set last. -/
theorem line_concat (pin : Nat) (known : List (Nat × Bool)) (bits : List Bool) (bit : Bool) :
    line pin (known ++ (bits ++ [bit]).map fun bit => (pin, bit)) = !bit := by
  rw [List.map_append, ← List.append_assoc]
  simp [line, levels]

end Frames

/-- Nothing hinders the machine within a frame: it runs, and it has a bit to set. -/
structure Unhindered (sm : Sm) : Prop where
  /-- It is switched on until it has woken the machine that receives. -/
  enabled : sm.pc = 2 ∨ sm.pc = 3 ∨ sm.pc = 4 → sm.enabled = true
  /-- It does not wait for a word. -/
  fed : sm.pc = 2 → sm.delay = 0 → sm.refill.osr ≠ []

/-- Where the machine is between two edges of the clock, and what the card has seen of the bits
that it has set since some others. -/
inductive Timed (size pin : Nat) (known : List (Nat × Bool)) (sm : Sm) (intake : Intake) :
    Prop where
  /-- The line is released, and the card waits for a frame. -/
  | rest (bits : List Bool) (set : sm.directions = known ++ bits.map fun bit => (pin, bit))
    (seen : intake = .reads size (bits.map (!·))) (between : intake.part = [])
    (high : line pin sm.directions = true) (place : sm.pc ≠ 3)
    (clock : sm.pc = 2 → sm.delay = 1 ∧ sm.cycle % 2 = 0)
  /-- A bit is set next, when the clock falls. -/
  | drive (bits : List Bool) (set : sm.directions = known ++ bits.map fun bit => (pin, bit))
    (seen : intake = .reads size (bits.map (!·))) (place : sm.pc = 2) (ready : sm.delay = 0)
    (clock : sm.cycle % 2 = 1)
  /-- A bit has been set, and the card sees it next, when the clock rises. -/
  | loop (bits : List Bool) (bit : Bool)
    (set : sm.directions = known ++ (bits ++ [bit]).map fun bit => (pin, bit))
    (seen : intake = .reads size (bits.map (!·))) (place : sm.pc = 3) (ready : sm.delay = 0)
    (clock : sm.cycle % 2 = 0)

/-- The card looks at its line in a cycle in which the clock rises. -/
def look (size pin : Nat) (sm : Sm) (intake : Intake) : Intake :=
  if rises sm.cycle then intake.take size (line pin sm.directions) else intake

section Cycles

variable {size pin : Nat} {known : List (Nat × Bool)} {packets : List Packet} {sm : Sm}
  {intake : Intake} {todo : List Action} {levels : (cycle index : Nat) → Bool}

/-- A card that waits for a frame sees nothing of a released line. -/
theorem look_rest (between : intake.part = []) (high : line pin sm.directions = true) :
    look size pin sm intake = intake := by
  rw [look, high, Intake.take_rest between, ite_self]

/-- What the host does changes nothing of it. -/
theorem Timed.apply (timed : Timed size pin known sm intake) (action : Action) :
    Timed size pin known (action.apply sm) intake := by
  cases timed with
  | rest bits set seen between high place clock =>
    cases action <;> exact .rest bits set seen between high place clock
  | drive bits set seen place ready clock =>
    cases action <;> exact .drive bits set seen place ready clock
  | loop bits bit set seen place ready clock =>
    cases action <;> exact .loop bits bit set seen place ready clock

/-- A machine that stays where the line is released. -/
theorem Timed.stay {next : Sm} {bits : List Bool}
    (set : sm.directions = known ++ bits.map fun bit => (pin, bit))
    (seen : intake = .reads size (bits.map (!·))) (between : intake.part = [])
    (high : line pin sm.directions = true) (same : next.directions = sm.directions)
    (place : next.pc ≠ 3) (clock : next.pc = 2 → next.delay = 1 ∧ next.cycle % 2 = 0) :
    Timed size pin known next (look size pin sm intake) := by
  rw [look_rest between high]
  rw [← same] at set high
  exact .rest bits set seen between high place clock

/-- A bit is set when the clock falls. -/
theorem Timed.driven (base : sm.outBase = pin) (unhindered : Unhindered sm) {bits : List Bool}
    (set : sm.directions = known ++ bits.map fun bit => (pin, bit))
    (seen : intake = .reads size (bits.map (!·))) (place : sm.pc = 2) (ready : sm.delay = 0)
    (clock : sm.cycle % 2 = 1) :
    Timed size pin known (step (clocked levels) outCmdOrDat sm) (look size pin sm intake) := by
  have low : ¬rises sm.cycle = true := by
    rw [rises_iff]
    omega
  have ⟨bit, others, held⟩ := List.exists_cons_of_ne_nil (unhindered.fed place ready)
  have runs : ¬sm.enabled = false := by
    rw [unhindered.enabled (.inl place)]
    decide
  rw [look, if_neg low, step, if_neg runs, if_pos ready,
    act_drive (clocked levels) sm.refill ((refill_pc sm).trans place) held]
  have set' : sm.refill.directions ++ [(sm.refill.outBase, bit)] =
      known ++ (bits ++ [bit]).map fun bit => (pin, bit) := by
    rw [refill_directions, refill_outBase, base, set, List.append_assoc, List.map_append]
    rfl
  refine .loop bits bit set' seen rfl rfl ?_
  show (sm.refill.cycle + 1) % 2 = 0
  rw [refill_cycle]
  omega

/-- The card sees a bit when the clock rises; behind the last bit of a packet the line is
released. -/
theorem Timed.seen (phase : Phase (known.map Prod.snd) packets ⟨sm, todo⟩)
    (framed : ∀ packet ∈ packets, Framed size packet) (unhindered : Unhindered sm)
    {bits : List Bool} {bit : Bool}
    (set : sm.directions = known ++ (bits ++ [bit]).map fun bit => (pin, bit))
    (seen : intake = .reads size (bits.map (!·))) (place : sm.pc = 3) (ready : sm.delay = 0)
    (clock : sm.cycle % 2 = 0) :
    Timed size pin known (step (clocked levels) outCmdOrDat sm) (look size pin sm intake) := by
  have seen' : look size pin sm intake = .reads size ((bits ++ [bit]).map (!·)) := by
    rw [look, if_pos ((rises_iff _).mpr clock), set, line_concat, seen, List.map_append]
    exact (Intake.reads_concat _ _).symm
  have runs : ¬sm.enabled = false := by
    rw [unhindered.enabled (.inr (.inl place))]
    decide
  have odd : (sm.refill.cycle + 1) % 2 = 1 := by
    rw [refill_cycle]
    omega
  rw [seen', step, if_neg runs, if_pos ready,
    act_loop (clocked levels) sm.refill ((refill_pc sm).trans place)]
  by_cases last : sm.refill.x = 0
  · rw [if_pos last]
    cases phase with
    | between _ _ _ place' => exact absurd (place'.symm.trans place) (by decide)
    | within done rest packet gone left pad whole split busy _ _ _ _ sent =>
      -- all directions of the packet have been set
      have none : left = [] := by
        cases busy with
        | clock place' => exact absurd (place'.symm.trans place) (by decide)
        | drive place' => exact absurd (place'.symm.trans place) (by decide)
        | wake place' => exact absurd (place'.symm.trans place) (by decide)
        | drop place' => exact absurd (place'.symm.trans place) (by decide)
        | loop _ count =>
          change sm.x.toNat = left.length at count
          rw [refill_x] at last
          rw [last] at count
          exact List.eq_nil_of_length_eq_zero count.symm
      have some : ∀ other ∈ done ++ [packet], Framed size other := by
        intro other inside
        apply framed other
        rw [whole, List.append_cons]
        exact List.mem_append_left rest inside
      have all : bits ++ [bit] = packetDirections (done ++ [packet]) := by
        change sm.directions.map Prod.snd = _ at sent
        rw [none, List.append_nil] at split
        rw [set, map_snd, List.append_cancel_left_eq] at sent
        rw [sent, ← split, packetDirections, packetDirections, List.flatMap_append,
          List.flatMap_singleton]
      obtain ⟨front, released⟩ := (some packet (by simp)).directions_eq
      have low : bit = false := by
        have ends := congrArg (List.getLast? ·) all
        rw [List.getLast?_concat, packetDirections, List.flatMap_append, List.flatMap_singleton,
          released, ← List.append_assoc, List.getLast?_concat] at ends
        exact Option.some.inj ends
      refine .rest (bits ++ [bit]) ?_ rfl ?_ ?_ (by show 4 ≠ 3; decide) fun never => ?_
      · show sm.refill.directions = _
        rw [refill_directions, set]
      · rw [all, reads_packets some]
      · show line pin sm.refill.directions = true
        rw [refill_directions, set, line_concat, low]
        rfl
      · exact absurd (show (4 : Nat) = 2 from never) (by decide)
  · rw [if_neg last]
    refine .drive (bits ++ [bit]) ?_ rfl rfl rfl odd
    show sm.refill.directions = _
    rw [refill_directions, set]

/-- Outside of the loop that sets bits, an instruction sets nothing, and leads to the loop only when
the clock falls. -/
theorem act_rest (sm : Sm) (notDrive : sm.pc ≠ 2) (notLoop : sm.pc ≠ 3) :
    (sm.act (clocked levels) outCmdOrDat).directions = sm.directions ∧
      (sm.act (clocked levels) outCmdOrDat).pc ≠ 3 ∧
      ((sm.act (clocked levels) outCmdOrDat).pc = 2 →
        (sm.act (clocked levels) outCmdOrDat).delay = 1 ∧
          (sm.act (clocked levels) outCmdOrDat).cycle % 2 = 0) := by
  have idle : sm.idle.directions = sm.directions ∧ sm.idle.pc ≠ 3 ∧
      (sm.idle.pc = 2 → sm.idle.delay = 1 ∧ sm.idle.cycle % 2 = 0) :=
    ⟨rfl, notLoop, fun drives => absurd drives notDrive⟩
  match place : sm.pc with
  | 0 =>
    by_cases empty : sm.osr = []
    · rw [act_dry _ sm place empty]
      exact idle
    · rw [act_count _ sm place empty]
      simp
  | 1 =>
    rw [act_clock _ sm place]
    by_cases falls : (clocked levels).released sm.cycle 0 = true
    · rw [if_pos falls]
      rw [released_iff] at falls
      refine ⟨rfl, by simp, fun _ => ⟨rfl, ?_⟩⟩
      show (sm.cycle + 1) % 2 = 0
      omega
    · rw [if_neg falls]
      exact idle
  | 2 => exact absurd place notDrive
  | 3 => exact absurd place notLoop
  | 4 =>
    rw [act_wake _ sm place]
    simp
  | 5 =>
    by_cases empty : sm.osr = []
    · have waits : sm.act (clocked levels) outCmdOrDat = sm.idle := by
        simp [Sm.act, place, outCmdOrDat, execute, empty]
      rw [waits]
      exact idle
    · rw [act_drop _ sm place empty]
      simp
  | pc + 6 =>
    have waits : sm.act (clocked levels) outCmdOrDat = sm.idle := by
      simp [Sm.act, place, outCmdOrDat]
    rw [waits]
    exact idle

/-- Where the line is released, a cycle sets nothing. -/
theorem Timed.quiet (unhindered : Unhindered sm) {bits : List Bool}
    (set : sm.directions = known ++ bits.map fun bit => (pin, bit))
    (seen : intake = .reads size (bits.map (!·))) (between : intake.part = [])
    (high : line pin sm.directions = true) (place : sm.pc ≠ 3)
    (clock : sm.pc = 2 → sm.delay = 1 ∧ sm.cycle % 2 = 0) :
    Timed size pin known (step (clocked levels) outCmdOrDat sm) (look size pin sm intake) := by
  rw [step]
  by_cases off : sm.enabled = false
  · rw [if_pos off]
    refine .stay set seen between high rfl place fun drives => ?_
    exact absurd (off.symm.trans (unhindered.enabled (.inl drives))) Bool.false_ne_true
  rw [if_neg off]
  by_cases ready : sm.delay = 0
  · rw [if_pos ready]
    have never : sm.pc ≠ 2 := fun drives => by
      have delayed := (clock drives).1
      omega
    rw [← refill_pc sm] at never place
    obtain ⟨same, place', clock'⟩ := @act_rest levels sm.refill never place
    exact .stay set seen between high (same.trans (refill_directions sm)) place' clock'
  · rw [if_neg ready]
    by_cases drives : sm.pc = 2
    · obtain ⟨one, even⟩ := clock drives
      rw [look_rest between high]
      refine .drive bits set seen drives ?_ ?_
      · show sm.delay - 1 = 0
        omega
      · show (sm.cycle + 1) % 2 = 1
        omega
    · exact .stay set seen between high rfl place fun never => absurd never drives

/-- A cycle of the machine, and what the card sees in it. -/
theorem Timed.cycle (phase : Phase (known.map Prod.snd) packets ⟨sm, todo⟩)
    (on : packets = [] ∨ OnPin pin known ⟨sm, todo⟩)
    (framed : ∀ packet ∈ packets, Framed size packet) (unhindered : Unhindered sm)
    (timed : Timed size pin known sm intake) :
    Timed size pin known (step (clocked levels) outCmdOrDat sm) (look size pin sm intake) := by
  cases timed with
  | rest bits set seen between high place clock =>
    exact .quiet unhindered set seen between high place clock
  | drive bits set seen place ready clock =>
    have base : sm.outBase = pin := by
      cases on with
      | inl none =>
        cases phase with
        | between _ _ _ place' => exact absurd (place'.symm.trans place) (by decide)
        | within _ _ _ _ _ _ whole =>
          rw [none] at whole
          exact absurd whole.symm (List.append_ne_nil_of_right_ne_nil _ (List.cons_ne_nil _ _))
      | inr on =>
        cases on with
        | waiting _ _ idle => exact absurd (idle.pc.symm.trans place) (by decide)
        | selected _ base => exact base
    exact .driven base unhindered set seen place ready clock
  | loop bits bit set seen place ready clock =>
    exact .seen phase framed unhindered set seen place ready clock

end Cycles

/-- The machine that sends with its host, and the card. -/
structure Bench where
  /-- The machine and its host. -/
  driven : Driven
  /-- What the card has clocked in. -/
  intake : Intake

namespace Bench

/-- A cycle of all of them. -/
def step (size pin : Nat) (levels : (cycle index : Nat) → Bool) (turns : Nat → Nat)
    (bench : Bench) : Bench where
  driven := bench.driven.step (clocked levels) turns outCmdOrDat
  intake := look size pin bench.driven.sm bench.intake

/-- The machine behind what the host does in a cycle. -/
def hosted (turns : Nat → Nat) (driven : Driven) : Sm :=
  (driven.todo.take (turns driven.sm.cycle)).foldl Action.apply driven.sm

variable {size pin : Nat} {known : List (Nat × Bool)} {packets : List Packet} {bench : Bench}
  {levels : (cycle index : Nat) → Bool} {turns : Nat → Nat}

/-- What the card has clocked in belongs to the packets. -/
structure Clocks (size pin : Nat) (known : List (Nat × Bool)) (packets : List Packet)
    (bench : Bench) : Prop where
  /-- The machine is in a phase of the packets. -/
  phase : Phase (known.map Prod.snd) packets bench.driven
  /-- It drives one line. -/
  on : packets = [] ∨ OnPin pin known bench.driven
  /-- The card is in step with it. -/
  timed : Timed size pin known bench.driven.sm bench.intake

/-- What every action keeps holds behind what the host does in a cycle. -/
theorem hosted_kept {inv : Driven → Prop}
    (acts : ∀ sm action todo, inv ⟨sm, action :: todo⟩ → inv ⟨action.apply sm, todo⟩)
    (driven : Driven) (now : inv driven) :
    inv ⟨hosted turns driven, driven.todo.drop (turns driven.sm.cycle)⟩ := by
  unfold hosted
  generalize turns driven.sm.cycle = way
  have all : ∀ (way : Nat) (sm : Sm) (todo : List Action), inv ⟨sm, todo⟩ →
      inv ⟨(todo.take way).foldl Action.apply sm, todo.drop way⟩ := by
    intro way
    induction way with
    | zero => exact fun _ _ now => now
    | succ way ih =>
      intro sm todo now
      cases todo with
      | nil => exact now
      | cons action todo => exact ih _ todo (acts sm action todo now)
  exact all way driven.sm driven.todo now

/-- The card sees the same whether it looks before or behind what the host does. -/
theorem look_hosted (driven : Driven) (intake : Intake) :
    look size pin (hosted turns driven) intake = look size pin driven.sm intake :=
  @hosted_kept turns (fun next => look size pin next.sm intake = look size pin driven.sm intake)
    (fun _ action _ same => by cases action <;> exact same) driven rfl

/-- A cycle that nothing hinders keeps the card in step. -/
theorem Clocks.step (framed : ∀ packet ∈ packets, Framed size packet)
    (unhindered : Unhindered (hosted turns bench.driven))
    (clocks : Clocks size pin known packets bench) :
    Clocks size pin known packets (bench.step size pin levels turns) := by
  have on : packets = [] ∨
      OnPin pin known (bench.driven.step (clocked levels) turns outCmdOrDat) :=
    clocks.on.imp_right OnPin.step
  refine ⟨clocks.phase.step, on, ?_⟩
  have phase := @hosted_kept turns _ (fun _ _ _ => Phase.apply) _ clocks.phase
  have on' : packets = [] ∨ OnPin pin known
      ⟨hosted turns bench.driven, bench.driven.todo.drop (turns bench.driven.sm.cycle)⟩ :=
    clocks.on.imp_right (@hosted_kept turns _ (fun _ _ _ => OnPin.apply) _)
  have timed := @hosted_kept turns (fun next => Timed size pin known next.sm bench.intake)
    (fun _ action _ timed => timed.apply action) _ clocks.timed
  have next : Timed size pin known
      (Pio.step (clocked levels) outCmdOrDat (hosted turns bench.driven))
      (look size pin (hosted turns bench.driven) bench.intake) :=
    timed.cycle phase on' framed unhindered
  rw [look_hosted] at next
  exact next

/-- The bits that have been set are the first ones of the packets, and the card has seen them but
for the last one. -/
theorem Clocks.set (clocks : Clocks size pin known packets bench) : ∃ bits more : List Bool,
    bench.driven.sm.directions = known ++ (bits ++ more).map (fun bit => (pin, bit)) ∧
      bench.intake = .reads size (bits.map (!·)) ∧ bits ++ more <+: packetDirections packets := by
  have ⟨bits, more, set, seen⟩ : ∃ bits more : List Bool,
      bench.driven.sm.directions = known ++ (bits ++ more).map (fun bit => (pin, bit)) ∧
        bench.intake = .reads size (bits.map (!·)) := by
    cases clocks.timed with
    | rest bits set seen => exact ⟨bits, [], by rw [set, List.append_nil], seen⟩
    | drive bits set seen => exact ⟨bits, [], by rw [set, List.append_nil], seen⟩
    | loop bits bit set seen => exact ⟨bits, [bit], set, seen⟩
  refine ⟨bits, more, set, seen, ?_⟩
  have snd : bench.driven.sm.directions.map Prod.snd = known.map Prod.snd ++ (bits ++ more) := by
    rw [set, map_snd]
  cases clocks.phase with
  | between done rest whole _ _ _ sent =>
    rw [snd, List.append_cancel_left_eq] at sent
    rw [sent, whole, packetDirections, packetDirections, List.flatMap_append]
    exact List.prefix_append _ _
  | within done rest packet gone left _ whole split _ _ _ _ _ sent =>
    rw [snd, List.append_cancel_left_eq] at sent
    rw [sent, whole, packetDirections, packetDirections, List.flatMap_append,
      List.flatMap_cons, split, List.append_assoc gone, ← List.append_assoc]
    exact List.prefix_append _ _

/-- The frames that the card has clocked in are the first ones of the packets. -/
theorem Clocks.frames (framed : ∀ packet ∈ packets, Framed size packet)
    (clocks : Clocks size pin known packets bench) :
    bench.intake.frames <+: packets.map frameOf := by
  have ⟨bits, more, _, seen, rest, all⟩ := clocks.set
  have frames := @Intake.reads_grows size (bits.map (!·)) ((more ++ rest).map (!·))
  rw [← List.map_append, ← List.append_assoc, all, reads_packets framed, ← seen] at frames
  exact frames

/-- When all packets have been sent the card has clocked in all their frames. -/
theorem Clocks.all (framed : ∀ packet ∈ packets, Framed size packet)
    (clocks : Clocks size pin known packets bench) (idle : Idle bench.driven.sm)
    (sent : bench.driven.sm.directions.map Prod.snd =
      known.map Prod.snd ++ packetDirections packets) :
    bench.intake.frames = packets.map frameOf := by
  cases clocks.timed with
  | rest bits set seen =>
    rw [set, map_snd, List.append_cancel_left_eq] at sent
    rw [seen, sent, reads_packets framed]
  | drive _ _ _ place => exact absurd (idle.pc.symm.trans place) (by decide)
  | loop _ _ _ _ place => exact absurd (idle.pc.symm.trans place) (by decide)

/-- The machine and its host do not depend on the card. -/
theorem iterate_driven (count : Nat) :
    ((step size pin levels turns)^[count] bench).driven =
      (Driven.step (clocked levels) turns outCmdOrDat)^[count] bench.driven := by
  induction count generalizing bench with
  | zero => rfl
  | succ count ih =>
    rw [Function.iterate_succ_apply, ih]
    rfl

/-- Frames that the card has clocked in stay in a cycle. -/
theorem step_frames :
    bench.intake.frames <+: (bench.step size pin levels turns).intake.frames := by
  show _ <+: (look _ _ _ _).frames
  rw [look]
  split
  · exact Intake.take_frames _
  · exact List.prefix_refl _

/-- Frames that the card has clocked in stay. -/
theorem iterate_frames (count : Nat) :
    bench.intake.frames <+: ((step size pin levels turns)^[count] bench).intake.frames := by
  induction count generalizing bench with
  | zero => exact List.prefix_refl _
  | succ count ih => exact step_frames.trans ih

/-- A run that nothing hinders keeps the card in step. -/
theorem Clocks.iterate (framed : ∀ packet ∈ packets, Framed size packet)
    (clocks : Clocks size pin known packets bench)
    (unhindered : ∀ count, Unhindered
      (hosted turns ((Bench.step size pin levels turns)^[count] bench).driven)) (count : Nat) :
    Clocks size pin known packets ((Bench.step size pin levels turns)^[count] bench) := by
  induction count with
  | zero => exact clocks
  | succ count ih =>
    rw [Function.iterate_succ_apply']
    exact ih.step framed (unhindered count)

end Bench

/-- Bits of a frame on a line, without the released line behind it. -/
def frameSize (pin : Nat) : Nat := if pin = pinCmd then 48 else 514 * 8 + 2

namespace Transfer

/-- The bits of a call that a card clocks in: its frame without the released line. -/
def sent (call : Transfer) : List Bool := call.frame.dropLast

/-- A command is a number below 64. -/
def Valid : Transfer → Prop
  | cmdWrite cmd _ => cmd < 64
  | datWrite _ => True

/-- The packet of a call carries its frame. -/
theorem framed {call : Transfer} (valid : call.Valid) :
    Framed (frameSize call.pin) call.packet := by
  have levels : call.packet.directions.map (!·) = call.frame := by
    rw [packet_directions, List.map_map]
    exact (List.map_congr_left fun bit _ => Bool.not_not bit).trans (List.map_id _)
  cases call with
  | cmdWrite cmd argument =>
    have whole : cmdFrame cmd argument =
        [false, true] ++ ((ofByte cmd).drop 2 ++ ofWord argument) ++
          (crc7Bits (cmdHead cmd argument) ++ [true, true]) := by
      rw [cmdFrame_eq, cmdHead_bits cmd argument valid]
    refine ⟨true :: ((ofByte cmd).drop 2 ++ ofWord argument) ++
      (crc7Bits (cmdHead cmd argument) ++ [true]), List.cons_ne_nil _ _, ?_, ?_⟩
    · have seven : (crc7Bits (cmdHead cmd argument)).length = 7 := highFirst_length _
      simp only [List.length_append, List.length_cons, List.length_nil, List.length_drop,
        ofByte_length, ofWord_length, seven]
      rfl
    · rw [levels]
      show cmdFrame cmd argument = _
      rw [whole]
      simp only [List.append_assoc, List.cons_append, List.nil_append]
  | datWrite buffer =>
    refine ⟨ofBytes (List.ofFn buffer) ++ (ofHalf (crcItuT (List.ofFn buffer)) ++ [true]), ?_, ?_,
      ?_⟩
    · exact List.append_ne_nil_of_right_ne_nil _
        (List.append_ne_nil_of_right_ne_nil _ (List.cons_ne_nil _ _))
    · simp only [List.length_append, ofBytes_length, List.length_ofFn, ofHalf_length,
        List.length_singleton]
      rfl
    · rw [levels]
      show datFrame buffer = _
      rw [datFrame]
      simp only [List.append_assoc, List.cons_append, List.nil_append]

/-- The frame that the packet of a call carries. -/
theorem frameOf_packet (call : Transfer) : frameOf call.packet = call.sent := by
  rw [frameOf, sent, packet_directions, List.map_map]
  congr 1
  exact (List.map_congr_left fun bit _ => Bool.not_not bit).trans (List.map_id _)

end Transfer

/-- Calls that send on one line, for a machine that waits. -/
def Transfer.bench (sm : Sm) (calls : List Transfer) : Bench :=
  ⟨⟨sm, calls.flatMap Transfer.actions⟩, ⟨[], []⟩⟩

section Calls

variable {pin : Nat} {calls : List Transfer} {sm : Sm}

/-- The packets of calls on a line carry frames of the size of the line. -/
theorem framed_calls (one : ∀ call ∈ calls, call.pin = pin)
    (valid : ∀ call ∈ calls, call.Valid) :
    ∀ packet ∈ calls.map Transfer.packet, Framed (frameSize pin) packet := by
  intro packet inside
  have ⟨call, inside', same⟩ := List.mem_map.mp inside
  rw [← same, ← one call inside']
  exact Transfer.framed (valid call inside')

/-- At the start the card is in step with a machine that waits and a line that is released. -/
theorem start_clocks (one : ∀ call ∈ calls, call.pin = pin) (idle : Idle sm)
    (high : line pin sm.directions = true) :
    Bench.Clocks (frameSize pin) pin sm.directions (calls.map Transfer.packet)
      (Transfer.bench sm calls) := by
  have nothing : sm.directions = sm.directions ++ [].map fun bit : Bool => (pin, bit) :=
    (List.append_nil _).symm
  have notLoop : sm.pc ≠ 3 := by
    rw [idle.pc]
    decide
  have phase := @start_phase (calls.map Transfer.packet) (Transfer.bench sm calls).driven idle
    (Transfer.puts_calls calls)
  refine ⟨phase, ?_,
    .rest [] nothing rfl rfl high notLoop fun drives => ?_⟩
  · cases calls with
    | nil => exact .inl rfl
    | cons call rest =>
      refine .inr (.waiting [.enable false]
        (.enable true :: (call.packet.words.map .put ++ rest.flatMap Transfer.actions)) idle ?_ rfl
        ?_ rfl)
      · show (call :: rest).flatMap Transfer.actions = _
        rw [List.flatMap_cons, Transfer.actions_eq, one call List.mem_cons_self]
        rfl
      · intro other inside
        simp only [List.mem_cons, reduceCtorEq, List.mem_append, List.mem_map, and_false,
          exists_false, List.mem_flatMap, false_or] at inside
        have ⟨call', inside', select⟩ := inside
        rw [Transfer.actions_eq] at select
        simp only [List.cons_append, List.nil_append, List.mem_cons, reduceCtorEq,
          Action.select.injEq, List.mem_map, and_false, exists_false, or_false, false_or] at select
        rw [select]
        exact one call' (List.mem_cons_of_mem _ inside')
  · have never := idle.pc.symm.trans drives
    exact absurd never (by decide)

variable {levels : (cycle index : Nat) → Bool} {turns : Nat → Nat}

/-- The frames that the packets of calls carry. -/
theorem frameOf_calls (calls : List Transfer) :
    (calls.map Transfer.packet).map frameOf = calls.map Transfer.sent := by
  rw [List.map_map]
  exact List.map_congr_left fun call _ => call.frameOf_packet

/-- The card clocks in all frames, as long as its frames are those of the packets. -/
theorem clocked_end (one : ∀ call ∈ calls, call.pin = pin) (valid : ∀ call ∈ calls, call.Valid)
    (idle : Idle sm) (on : sm.enabled = true)
    (goesOn : ∀ time, ∃ later, time ≤ later ∧ 0 < turns later)
    (clocks : ∀ count, Bench.Clocks (frameSize pin) pin sm.directions (calls.map Transfer.packet)
      ((Bench.step (frameSize pin) pin levels turns)^[count] (Transfer.bench sm calls))) :
    ∃ count, ((Bench.step (frameSize pin) pin levels turns)^[count]
      (Transfer.bench sm calls)).intake.frames = calls.map Transfer.sent := by
  have fair : Fair (clocked levels) turns := by
    refine ⟨goesOn, fun time => ⟨2 * time + 1, by omega, ?_⟩⟩
    rw [released_iff]
    omega
  have ⟨last, ⟨count, reached⟩, _, idle', sent⟩ :=
    @Sender.sends (calls.map Transfer.packet) (clocked levels) turns
      ⟨sm, calls.flatMap Transfer.actions⟩ fair idle (Transfer.puts_calls calls)
      (Transfer.foldl_calls calls on)
  have driven : ((Bench.step (frameSize pin) pin levels turns)^[count]
      (Transfer.bench sm calls)).driven = last :=
    (Bench.iterate_driven count).trans reached
  refine ⟨count, ?_⟩
  rw [← frameOf_calls]
  exact (clocks count).all (framed_calls one valid) (by rw [driven]; exact idle')
    (by rw [driven]; exact sent)

end Calls

/-- Commands or blocks one after the other, from a machine that waits: as long as nothing hinders
the machine within a frame, a card that looks at its line when the clock rises clocks in their
frames in order, each of them once and nothing else, and in the end all of them. -/
theorem calls_clocked (pin : Nat) (calls : List Transfer) (sm : Sm)
    (levels : (cycle index : Nat) → Bool) (turns : Nat → Nat)
    (one : ∀ call ∈ calls, call.pin = pin) (valid : ∀ call ∈ calls, call.Valid) (idle : Idle sm)
    (on : sm.enabled = true) (high : line pin sm.directions = true)
    (goesOn : ∀ time, ∃ later, time ≤ later ∧ 0 < turns later)
    (unhindered : ∀ count, Unhindered (Bench.hosted turns
      ((Bench.step (frameSize pin) pin levels turns)^[count] (Transfer.bench sm calls)).driven)) :
    (∀ count, ((Bench.step (frameSize pin) pin levels turns)^[count]
        (Transfer.bench sm calls)).intake.frames <+: calls.map Transfer.sent) ∧
      ∃ count, ∀ later, count ≤ later →
        ((Bench.step (frameSize pin) pin levels turns)^[later]
          (Transfer.bench sm calls)).intake.frames = calls.map Transfer.sent := by
  have framed := framed_calls one valid
  have clocks := (start_clocks one idle high).iterate framed unhindered
  have first : ∀ count, ((Bench.step (frameSize pin) pin levels turns)^[count]
      (Transfer.bench sm calls)).intake.frames <+: calls.map Transfer.sent := by
    intro count
    rw [← frameOf_calls]
    exact (clocks count).frames framed
  refine ⟨first, ?_⟩
  have ⟨count, all⟩ := clocked_end one valid idle on goesOn clocks
  refine ⟨count, fun later passed => ?_⟩
  have ⟨more, same⟩ := Nat.exists_eq_add_of_le passed
  have kept := @Bench.iterate_frames (frameSize pin) pin
    ((Bench.step (frameSize pin) pin levels turns)^[count] (Transfer.bench sm calls)) levels turns
    more
  rw [← Function.iterate_add_apply, Nat.add_comm more count, ← same, all] at kept
  exact (first later).eq_of_length (Nat.le_antisymm (first later).length_le kept.length_le)

/-- A host that has handed over all words does not hinder a machine that runs. -/
theorem unhindered_of_done {before : List Bool} {packets : List Packet} {sm : Sm}
    (phase : Phase before packets ⟨sm, []⟩) (on : sm.enabled = true) : Unhindered sm := by
  refine ⟨fun _ => on, fun place _ empty => ?_⟩
  have ⟨held, queue⟩ := refill_dry sm empty
  cases phase with
  | between _ _ _ place' => exact absurd (place'.symm.trans place) (by decide)
  | within _ _ _ _ _ _ _ _ _ bits some =>
    have none : (Driven.mk sm []).bits = [] := by
      rw [Driven.bits_mk, Driven.ahead_mk, held, queue]
      rfl
    rw [none] at bits
    have lengths := congrArg List.length bits
    simp only [List.length_nil, List.length_append] at lengths
    omega

/-- A host that hands over everything in the first cycle hinders nothing. -/
theorem eager_unhindered {size pin : Nat} {calls : List Transfer} {sm : Sm} {turns : Nat → Nat}
    (levels : (cycle index : Nat) → Bool) (idle : Idle sm) (on : sm.enabled = true)
    (eager : (calls.flatMap Transfer.actions).length ≤ turns sm.cycle) (count : Nat) :
    Unhindered (Bench.hosted turns
      ((Bench.step size pin levels turns)^[count] (Transfer.bench sm calls)).driven) := by
  rw [Bench.iterate_driven]
  have start : Goes (sm.directions.map Prod.snd) (calls.map Transfer.packet)
      (Transfer.bench sm calls).driven :=
    ⟨@start_phase (calls.map Transfer.packet) (Transfer.bench sm calls).driven idle
      (Transfer.puts_calls calls), Transfer.foldl_calls calls on⟩
  have reaches : Reaches (Driven.step (clocked levels) turns outCmdOrDat)
      (Transfer.bench sm calls).driven _ := ⟨count, rfl⟩
  have goes := reaches.kept (fun _ => Goes.step) start
  have done : ∀ count, ((Driven.step (clocked levels) turns outCmdOrDat)^[count]
      (Transfer.bench sm calls).driven).todo.length ≤
        turns ((Driven.step (clocked levels) turns outCmdOrDat)^[count]
          (Transfer.bench sm calls).driven).sm.cycle := by
    intro count
    induction count with
    | zero => exact eager
    | succ count ih =>
      rw [Function.iterate_succ_apply']
      show (List.drop _ _).length ≤ _
      rw [List.drop_of_length_le ih]
      exact Nat.zero_le _
  have short := done count
  generalize (Driven.step (clocked levels) turns outCmdOrDat)^[count]
    (Transfer.bench sm calls).driven = driven at goes short
  have phase := @Bench.hosted_kept turns _ (fun _ _ _ => Phase.apply) _ goes.phase
  rw [List.drop_of_length_le short] at phase
  apply unhindered_of_done phase
  have on' := goes.on
  rw [← List.take_of_length_le short] at on'
  exact on'

/-- The first two commands of the firmware are clocked in from a machine as it is set up. -/
theorem first_commands_clocked : ∃ count, ∀ later, count ≤ later →
    ((Bench.step (frameSize pinCmd) pinCmd (fun _ _ => true) fun _ => 12)^[later]
      (Transfer.bench startMmc [.cmdWrite 0 0, .cmdWrite 1 0])).intake.frames =
        [Transfer.cmdWrite 0 0, Transfer.cmdWrite 1 0].map Transfer.sent := by
  have idle : Idle startMmc := ⟨rfl, rfl, rfl⟩
  refine (calls_clocked pinCmd [.cmdWrite 0 0, .cmdWrite 1 0] startMmc (fun _ _ => true)
    (fun _ => 12) ?_ ?_ idle rfl rfl (fun time => ⟨time, Nat.le_refl _, by decide⟩) ?_).2
  · simp [Transfer.pin]
  · simp [Transfer.Valid]
  · exact eager_unhindered (fun _ _ => true) idle rfl (Nat.le_refl 12)

end Fly2040.Firmware
