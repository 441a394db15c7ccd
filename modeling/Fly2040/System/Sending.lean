import Fly2040.System.Modes
/-!
# Registers are sent

After a set up the next tick of an awake console sends all registers in one session. If the
session cannot be opened, the registers are sent by a later tick. The transfers themselves are
not looked at: one that fails is not made again, and the registers count as sent.
-/

namespace Fly2040.System

open App Leds Runs

/-- A register has been transferred. -/
def Sent (transfers : List Transmission) (field : Field) : Prop :=
  ∃ reg, Sys.sendI2C reg field true ∈ transfers

/-- What has been transferred since the last set up. -/
def sinceSetup (codec : Codec) (transfers : List Transmission) (sys : Sys) :
    Turn → List Transmission
  | (_, .setConfigValues _) => []
  | (env, .tick) =>
    if (sys.looked codec env).cfgState = .init then []
    else transfers ++ sys.transfers codec (env, .tick)
  | _ => transfers

/-- Once the registers count as sent, each of them has been transferred since the last set up. -/
def AllSent (state : Sys × List Transmission) : Prop :=
  state.1.cfgState = .refresh → ∀ field, Sent state.2 field

/-- A tick of an awake console is about to send all registers. -/
def SendsAll (codec : Codec) (env : SysEnv) (sys : Sys) : Prop :=
  (sys.looked codec env).cfgState = .update ∧ sys.sleeping = false

/-- Transfers of all registers are acknowledged, if the session is opened. -/
def Acknowledged (codec : Codec) (state : Sys × List Transmission) : Turn → Prop
  | (env, .tick) => SendsAll codec env state.1 → env.opens = true →
      ∀ number < 6, env.sends number = true
  | _ => True

/-- All registers are transferred as soon as a session is opened, and if one of them is not
acknowledged, they remain to be sent. -/
def RetriesFailed (codec : Codec) (state : Sys × List Transmission) : Turn → Prop
  | (env, .tick) => SendsAll codec env state.1 →
      (env.opens = true → ∀ field, ∃ number, Sys.sendI2C state.1.reg field (env.sends number) ∈
        state.1.transfers codec (env, .tick)) ∧
      (¬ (env.opens = true ∧ ∀ number < 6, env.sends number = true) →
        (state.1.next codec (env, .tick)).cfgState = .update)
  | _ => True

/-- Before the registers are sent, nothing has been transferred since the last set up. -/
structure ToSend (state : Sys × List Transmission) : Prop where
  /-- They are sent from the first one on. -/
  start : state.1.cfgState = .update → state.1.sendState = .none
  /-- Nothing has been transferred. -/
  nothing : state.1.cfgState = .update → state.2 = []

section Turns

variable {codec : Codec} {env : SysEnv} {sys : Sys} {transfers : List Transmission}

/-- A transfer tells its register. -/
theorem sendI2C_field {reg reg' : RgbState} {field field' : Field} {sent sent' : Bool}
    (same : Sys.sendI2C reg field sent = Sys.sendI2C reg' field' sent') :
    field = field' ∧ sent = sent' := by
  have bytes := congrArg Transmission.bytes same
  have address : UInt8.ofNat field.offset = UInt8.ofNat field'.offset :=
    (List.cons_eq_cons.mp bytes).1
  have fields : ∀ field field' : Field,
      UInt8.ofNat field.offset = UInt8.ofNat field'.offset → field = field' := by
    intro field field'
    cases field <;> cases field' <;> decide
  exact ⟨fields _ _ address, congrArg Transmission.sent same⟩

/-- All registers have been transferred exactly if every transfer is acknowledged. -/
theorem sent_all_iff (reg : RgbState) (sends : Nat → Bool) :
    (∀ field, Sent (sendOrder.zipIdx.map fun next => Sys.sendI2C reg next.1 (sends next.2)) field) ↔
      ∀ number < 6, sends number = true := by
  constructor
  · intro all number below
    obtain ⟨reg', member⟩ := all (sendOrder.getD number .mode)
    obtain ⟨⟨field, position⟩, listed, same⟩ := List.mem_map.mp member
    obtain ⟨fields, sent⟩ := sendI2C_field same
    have at' : sendOrder.getD position .mode = field ∧ position < 6 := by
      have here : sendOrder[position]? = some field := List.mem_zipIdx_iff_getElem?.mp listed
      exact ⟨by rw [List.getD_eq_getElem?_getD, here, Option.getD_some],
        (List.getElem?_eq_some_iff.mp here).1⟩
    have distinct : ∀ left < 6, ∀ right < 6,
        sendOrder.getD left .mode = sendOrder.getD right .mode → left = right := by decide
    have positions := distinct position at'.2 number below (at'.1.trans fields)
    rw [← positions]
    exact sent
  · intro all field
    refine ⟨reg, ?_⟩
    cases field <;> simp [sendOrder, all]

/-- A tick before the registers are sent. -/
theorem tick_update (toSend : ToSend (sys, transfers)) (sends : SendsAll codec env sys) :
    sys.tick codec env =
      if env.opens then ({ sys.looked codec env with sendState := .done, cfgState := .refresh },
        sendOrder.zipIdx.map fun next => Sys.sendI2C sys.reg next.1 (env.sends next.2))
      else (sys.looked codec env, []) := by
  obtain ⟨update, awake⟩ := sends
  have state : sys.cfgState = .update := by
    rcases Sys.looked_cfgState codec env sys with init | same
    · rw [update] at init
      cases init
    · rw [← same, update]
  obtain ⟨config, file, state', same⟩ := Sys.looked_frame codec env sys
  have start : (sys.looked codec env).sendState = .none := by rw [same, toSend.start state]
  have awake' : ¬ (sys.looked codec env).sleeping = true := by rw [same, awake]; decide
  have reg : (sys.looked codec env).reg = sys.reg := by rw [same]
  rw [Sys.tick_eq, if_neg (by rw [update]; decide), if_neg awake']
  cases opens : env.opens with
  | true =>
    rw [Sys.send_update env update start opens, if_pos rfl]
    exact Prod.ext rfl (by rw [reg])
  | false =>
    rw [Sys.send, update]
    simp [opens]

/-- A request leaves to be sent what is, or it asks for nothing to be sent. -/
theorem ToSend.power (toSend : ToSend (sys, transfers)) (codec : Codec) (env : SysEnv)
    (state : Sys.PmState) :
    ToSend (watched (Sys.next codec) (sinceSetup codec) (sys, transfers) (env, .power state)) := by
  rcases Sys.power_cases env state sys with same | ⟨timer, woken⟩ | ⟨cpuMon, genMon, asleep⟩
  · simp only [watched, Sys.next, Sys.step, same]
    exact ⟨toSend.start, toSend.nothing⟩
  · simp only [watched, Sys.next, Sys.step, woken]
    exact ⟨toSend.start, toSend.nothing⟩
  · simp only [watched, Sys.next, Sys.step, asleep]
    have unsettled : I2CConfigState.init ≠ .update := by decide
    exact ⟨fun never => absurd never unsettled, fun never => absurd never unsettled⟩

/-- A tick leaves to be sent what is, unless it sends it. -/
theorem ToSend.tick (toSend : ToSend (sys, transfers)) (codec : Codec) (env : SysEnv) :
    ToSend (watched (Sys.next codec) (sinceSetup codec) (sys, transfers) (env, .tick)) := by
  obtain ⟨config, file, state, frame⟩ := Sys.looked_frame codec env sys
  simp only [watched, Sys.next, Sys.step, sinceSetup, Sys.transfers]
  rcases Sys.tick_cases codec env sys with ⟨set, ticked⟩ | ⟨same, other, _, ticked⟩ |
    ⟨same, before, awake, _⟩ | ⟨same, before, awake, ticked⟩
  · obtain ⟨cpuMon, genMon, setup⟩ := Sys.setup_eq none (sys.looked codec env)
    rw [ticked, setup, if_pos set]
    exact ⟨fun _ => rfl, fun _ => rfl⟩
  · have more : (sys.looked codec env).cfgState ≠ .init := by
      rw [same]
      exact other
    rw [ticked, if_neg more]
    constructor
    · intro update
      rw [frame]
      exact toSend.start (same.symm.trans update)
    · intro update
      rw [List.append_nil]
      exact toSend.nothing (same.symm.trans update)
  · have more : (sys.looked codec env).cfgState ≠ .init := by rw [same]; decide
    have start : (sys.looked codec env).sendState = .none := by rw [frame, toSend.start before]
    have nothing : transfers ++ [] = [] :=
      (List.append_nil transfers).trans (toSend.nothing before)
    rw [tick_update toSend ⟨same, awake⟩, if_neg more]
    cases env.opens with
    | true => exact ⟨fun never => absurd never (by simp), fun never => absurd never (by simp)⟩
    | false => exact ⟨fun _ => start, fun _ => nothing⟩
  · have refresh : (sys.tick codec env).1.cfgState = .refresh := by
      rw [ticked]
      rcases Sys.send_refresh env same with quiet | ⟨scale, sent⟩
      · rw [quiet, same]
      · rw [sent, same]
    have never : (sys.tick codec env).1.cfgState ≠ .update := by rw [refresh]; decide
    exact ⟨fun update => absurd update never, fun update => absurd update never⟩

/-- What is to be sent remains to be sent. -/
theorem ToSend.next {state : Sys × List Transmission} (toSend : ToSend state) (codec : Codec)
    (turn : Turn) : ToSend (watched (Sys.next codec) (sinceSetup codec) state turn) := by
  obtain ⟨sys, transfers⟩ := state
  obtain ⟨env, event⟩ := turn
  cases event with
  | setConfigValues cfg =>
    obtain ⟨cpuMon, genMon, set⟩ := Sys.setConfigValues_eq codec env cfg sys
    have start : (sys.next codec (env, .setConfigValues cfg)).sendState = .none := by
      rw [Sys.next, Sys.step, set]
    exact ⟨fun _ => start, fun _ => rfl⟩
  | sendI2c bytes => exact ⟨toSend.start, toSend.nothing⟩
  | edit file => exact ⟨toSend.start, toSend.nothing⟩
  | power state => exact toSend.power codec env state
  | tick => exact toSend.tick codec env

/-- More transfers do not make a register less transferred. -/
theorem Sent.more {field : Field} (sent : Sent transfers field) (more : List Transmission) :
    Sent (transfers ++ more) field :=
  sent.imp fun _ member => List.mem_append_left more member

/-- A request makes nothing count as sent. -/
theorem AllSent.power (allSent : AllSent (sys, transfers)) (codec : Codec) (env : SysEnv)
    (state : Sys.PmState) :
    AllSent (watched (Sys.next codec) (sinceSetup codec) (sys, transfers) (env, .power state)) := by
  rcases Sys.power_cases env state sys with same | ⟨timer, woken⟩ | ⟨cpuMon, genMon, asleep⟩
  · rw [watched, Sys.next, Sys.step, same]
    exact allSent
  · rw [watched, Sys.next, Sys.step, woken]
    exact allSent
  · rw [watched, Sys.next, Sys.step, asleep]
    exact fun never => absurd never (by simp)

/-- A tick after which the registers count as sent has transferred them exactly if its transfers
are acknowledged. -/
theorem tick_allSent (toSend : ToSend (sys, transfers)) (allSent : AllSent (sys, transfers))
    (codec : Codec) (env : SysEnv) :
    AllSent (watched (Sys.next codec) (sinceSetup codec) (sys, transfers) (env, .tick)) ↔
      Acknowledged codec (sys, transfers) (env, .tick) := by
  simp only [watched, Sys.next, Sys.step, sinceSetup, Sys.transfers]
  rcases Sys.tick_cases codec env sys with ⟨set, ticked⟩ | ⟨same, other, quiet, ticked⟩ |
    ⟨same, before, awake, _⟩ | ⟨same, before, awake, ticked⟩
  · obtain ⟨cpuMon, genMon, setup⟩ := Sys.setup_eq none (sys.looked codec env)
    refine iff_of_true ?_ fun sends => absurd (set.symm.trans sends.1) (by decide)
    rw [ticked, setup]
    exact fun never => absurd never (by simp)
  · have more : (sys.looked codec env).cfgState ≠ .init := by
      rw [same]
      exact other
    refine iff_of_true ?_ ?_
    · rw [ticked, if_neg more, List.append_nil]
      exact fun refresh => allSent (same.symm.trans refresh)
    · intro sends
      rcases quiet with asleep | none
      · exact absurd (asleep.symm.trans sends.2) (by decide)
      · exact absurd (none.symm.trans (same.symm.trans sends.1)) (by decide)
  · have more : (sys.looked codec env).cfgState ≠ .init := by rw [same]; decide
    rw [tick_update toSend ⟨same, awake⟩, if_neg more]
    cases opens : env.opens with
    | false =>
      refine iff_of_true ?_ fun _ never => absurd (opens.symm.trans never) (by decide)
      exact fun refresh => absurd (same.symm.trans refresh) (by decide)
    | true =>
      have nothing : transfers = [] := toSend.nothing before
      have all := sent_all_iff sys.reg env.sends
      rw [nothing, if_pos rfl, List.nil_append]
      constructor
      · intro sent _ _
        exact all.mp (sent rfl)
      · intro sends _
        exact all.mpr (sends ⟨same, awake⟩ opens)
  · have more : (sys.looked codec env).cfgState ≠ .init := by rw [same]; decide
    refine iff_of_true ?_ fun sends => absurd (same.symm.trans sends.1) (by decide)
    rw [if_neg more]
    exact fun _ field => (allSent before field).more _

/-- A turn after which the registers count as sent has transferred them exactly if its transfers
are acknowledged. -/
theorem next_allSent {state : Sys × List Transmission} (toSend : ToSend state)
    (allSent : AllSent state) (turn : Turn) :
    AllSent (watched (Sys.next codec) (sinceSetup codec) state turn) ↔
      Acknowledged codec state turn := by
  obtain ⟨sys, transfers⟩ := state
  obtain ⟨env, event⟩ := turn
  cases event with
  | setConfigValues cfg =>
    obtain ⟨cpuMon, genMon, set⟩ := Sys.setConfigValues_eq codec env cfg sys
    have update : (sys.next codec (env, .setConfigValues cfg)).cfgState = .update := by
      rw [Sys.next, Sys.step, set]
    exact iff_of_true (fun refresh => absurd (update.symm.trans refresh) (by decide)) trivial
  | sendI2c bytes => exact iff_of_true allSent trivial
  | edit file => exact iff_of_true allSent trivial
  | power state => exact iff_of_true (allSent.power codec env state) trivial
  | tick => exact tick_allSent toSend allSent codec env

/-- A tick that sends the registers keeps what fails to be sent exactly if its transfers are
acknowledged. -/
theorem retriesFailed_iff {state : Sys × List Transmission} (toSend : ToSend state)
    (turn : Turn) : RetriesFailed codec state turn ↔ Acknowledged codec state turn := by
  obtain ⟨sys, transfers⟩ := state
  obtain ⟨env, event⟩ := turn
  cases event with
  | tick =>
    refine forall_congr' fun sends => ?_
    simp only [Sys.next, Sys.step, Sys.transfers, tick_update toSend sends]
    cases opens : env.opens with
    | false =>
      exact iff_of_true ⟨fun never => absurd never Bool.false_ne_true, fun _ => sends.1⟩
        fun never => absurd never Bool.false_ne_true
    | true =>
      have all : ∀ field, ∃ number, Sys.sendI2C sys.reg field (env.sends number) ∈
          sendOrder.zipIdx.map fun next => Sys.sendI2C sys.reg next.1 (env.sends next.2) := by
        intro field
        obtain ⟨number, listed⟩ := List.getElem?_of_mem (mem_sendOrder field)
        exact ⟨number, List.mem_map.mpr
          ⟨(field, number), List.mem_zipIdx_iff_getElem?.mpr listed, rfl⟩⟩
      constructor
      · intro retries _
        by_contra failed
        have pending := retries.2 fun acknowledged => failed acknowledged.2
        exact absurd pending (by simp)
      · intro acknowledged
        exact ⟨fun _ => all, fun failed => absurd ⟨rfl, acknowledged rfl⟩ failed⟩
  | _ => exact Iff.rfl

end Turns

/-- At the start nothing is to be sent. -/
theorem ToSend.init (file : Option ConfigFile) : ToSend (Sys.init file, []) :=
  ⟨nofun, fun _ => rfl⟩

/-- Whenever the registers count as sent, each of them has been transferred since the last set up,
exactly if the transfers of every tick that sends them are acknowledged; and under the same
condition what fails to be sent remains to be sent. -/
theorem registers_sent (codec : Codec) (file : Option ConfigFile) (turns : List Turn) :
    (Always (watched (Sys.next codec) (sinceSetup codec)) AllSent (Sys.init file, []) turns ↔
      EachStep (watched (Sys.next codec) (sinceSetup codec)) (Acknowledged codec)
        (Sys.init file, []) turns) ∧
    (EachStep (watched (Sys.next codec) (sinceSetup codec)) (RetriesFailed codec)
        (Sys.init file, []) turns ↔
      EachStep (watched (Sys.next codec) (sinceSetup codec)) (Acknowledged codec)
        (Sys.init file, []) turns) := by
  have keeps : ∀ (state : Sys × List Transmission) turn, ToSend state → True →
      ToSend (watched (Sys.next codec) (sinceSetup codec) state turn) :=
    fun _ turn toSend _ => toSend.next codec turn
  have start := ToSend.init file
  constructor
  · exact always_iff_eachStep keeps
      (fun _ turn toSend allSent _ => next_allSent toSend allSent turn) start nofun eachStep_true
  · exact eachStep_congr keeps (fun _ turn toSend _ => retriesFailed_iff toSend turn) start
      eachStep_true

/-- Surroundings in which the transfer of the brightness is not acknowledged. -/
def faultyEnv : SysEnv := { calmEnv with sends := fun number => number ≠ 1 }

/-- A command, and a tick in which the brightness is not acknowledged. -/
def brightnessFails : List Turn := [(calmEnv, .setConfigValues { mode := 3 }), (faultyEnv, .tick)]

/-- The brightness counts as sent. -/
theorem brightness_not_sent :
    ¬ Always (watched (Sys.next plainCodec) (sinceSetup plainCodec)) AllSent
      (Sys.init none, []) brightnessFails := by
  intro always
  have toSend := (ToSend.init none).next plainCodec (calmEnv, .setConfigValues { mode := 3 })
  have sent := (next_allSent toSend always.2.1 (faultyEnv, .tick)).mp always.2.2
  exact absurd (sent ⟨by decide, rfl⟩ rfl 1 (by decide)) (by decide)

end Fly2040.System
