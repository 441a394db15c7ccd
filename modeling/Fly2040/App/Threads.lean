import Fly2040.App.Monitors
import Fly2040.Lib.Runs
/-!
# Threads of the monitors

A monitor creates and starts its threads when it is started, and waits for them and closes them when
it is stopped. Creating or starting a thread may fail; the start then returns at once, with the flag
set that says that the threads run. The threads are handled well throughout a run exactly if no
thread of a start fails.
-/

namespace Fly2040.App

open Runs

/-- What happens to a thread of a monitor. -/
inductive ThreadEvent where
  /-- It has been created. -/
  | created (worker : Nat)
  /-- It has been started. -/
  | started (worker : Nat)
  /-- Its end has been waited for. -/
  | awaited (worker : Nat)
  /-- It has been closed. -/
  | closed (worker : Nat)
deriving DecidableEq

/-- Success of the operations on the threads of one start. -/
structure ThreadEnv where
  /-- A thread is created. -/
  creates : Nat → Bool
  /-- A thread is started. -/
  starts : Nat → Bool

/-- Create and start threads one after the other, up to the first failure. -/
def startWorkers (env : ThreadEnv) : List Nat → List ThreadEvent × Bool
  | [] => ([], true)
  | worker :: rest =>
    if env.creates worker then
      if env.starts worker then
        let (events, ok) := startWorkers env rest
        (.created worker :: .started worker :: events, ok)
      else ([.created worker], false)
    else ([], false)

/-- Wait for threads and close them. -/
def stopWorkers (workers : List Nat) : List ThreadEvent :=
  workers.flatMap fun worker => [.awaited worker, .closed worker]

/-- What a call of a monitor did. -/
structure Outcome where
  /-- The flag afterwards. -/
  running : Bool
  /-- What happened to its threads. -/
  events : List ThreadEvent
  /-- It succeeded. -/
  ok : Bool
  /-- It closed the graphics processor. -/
  nvClosed : Bool := false

/-- Start the threads of a monitor, unless they run. -/
def startThreads (workers : Nat) (env : ThreadEnv) (running : Bool) : Outcome :=
  if running then { running, events := [], ok := true }
  else
    -- the flag is set before the first thread is created
    let (events, ok) := startWorkers env (List.range workers)
    { running := true, events, ok }

/-- Stop the threads of a monitor, if they run. -/
def stopThreads (workers : Nat) (running : Bool) : Outcome :=
  if running then { running := false, events := stopWorkers (List.range workers), ok := true }
  else { running, events := [], ok := true }

/-- Number of cores. -/
def numCores : Nat := 4

/-- A call of a monitor. -/
inductive MonCall (ε : Type) where
  /-- Start. -/
  | start (env : ε)
  /-- Stop. -/
  | stop

/-- A call of the monitor of the cores. -/
def CpuMon.call (mon : CpuMon) : MonCall ThreadEnv → CpuMon × Outcome
  | .start env =>
    let outcome := startThreads numCores env mon.running
    (⟨outcome.running⟩, outcome)
  | .stop =>
    let outcome := stopThreads numCores mon.running
    (⟨outcome.running⟩, outcome)

/-- What the other monitor has found out about the console. -/
structure GenMonChecks where
  /-- The console runs version 14 or later. -/
  hosGt14 : Bool := false
  /-- The graphics processor has been opened, which is not done. -/
  nvCheck : Bool := false
  /-- The sensors of the processor and the board can be read. -/
  tsCheck : Bool := false
  /-- The sensor of the case can be read. -/
  tcCheck : Bool := false

/-- What a start of the other monitor finds. -/
structure GenEnv where
  /-- First number of the version of the console. -/
  hosVersion : Nat
  /-- The sensors of the processor and the board are set up. -/
  tsInitialize : Bool
  /-- The sensor of the case is set up. -/
  tcInitialize : Bool
  /-- Success of the operations on the thread. -/
  threads : ThreadEnv

/-- What the other monitor finds out at a start. -/
def GenMonChecks.update (env : GenEnv) (checks : GenMonChecks) : GenMonChecks where
  hosGt14 := checks.hosGt14 || decide (14 ≤ env.hosVersion)
  nvCheck := checks.nvCheck
  tsCheck := checks.tsCheck || env.tsInitialize
  tcCheck := checks.tcCheck || (decide (5 ≤ env.hosVersion) && env.tcInitialize)

/-- A call of the other monitor. -/
def GenMon.call (state : GenMon × GenMonChecks) :
    MonCall GenEnv → (GenMon × GenMonChecks) × Outcome
  | .start env =>
    let outcome := startThreads 1 env.threads state.1.running
    (({ state.1 with running := outcome.running }, state.2.update env), outcome)
  | .stop =>
    let outcome := stopThreads 1 state.1.running
    (({ state.1 with running := outcome.running }, state.2),
      { outcome with nvClosed := state.1.running && state.2.nvCheck })

/-- Whatever happens to the threads, a start raises the flag of the monitor of the cores and a stop
lowers it. -/
theorem CpuMon.call_flag (mon : CpuMon) (env : ThreadEnv) :
    (mon.call (.start env)).1 = mon.start ∧ (mon.call .stop).1 = mon.stop := by
  have flag : mon = ⟨mon.running⟩ := rfl
  cases running : mon.running <;> rw [flag, running] <;> exact ⟨rfl, rfl⟩

/-- Whatever happens to the thread, a start raises the flag of the other monitor and a stop lowers
it. -/
theorem GenMon.call_flag (state : GenMon × GenMonChecks) (env : GenEnv) :
    (GenMon.call state (.start env)).1.1 = state.1.start ∧
      (GenMon.call state .stop).1.1 = state.1.stop := by
  have flag : state = (⟨state.1.running, state.1.mode⟩, state.2) := rfl
  cases running : state.1.running <;> rw [flag, running] <;> exact ⟨rfl, rfl⟩

/-- A monitor, as far as its threads are concerned. -/
structure Monitor (σ ε : Type) where
  /-- Number of its threads. -/
  workers : Nat
  /-- Its flag. -/
  running : σ → Bool
  /-- What a start finds of the threads. -/
  threads : ε → ThreadEnv
  /-- A call. -/
  call : σ → MonCall ε → σ × Outcome
  /-- The flag is kept. -/
  call_running : ∀ state call', running (call state call').1 = (call state call').2.running
  /-- A start starts the threads. -/
  call_start : ∀ state env, { (call state (.start env)).2 with nvClosed := false } =
    startThreads workers (threads env) (running state)
  /-- A stop stops the threads. -/
  call_stop : ∀ state, { (call state .stop).2 with nvClosed := false } =
    stopThreads workers (running state)

/-- The monitor of the cores. -/
def cpuMonitor : Monitor CpuMon ThreadEnv where
  workers := numCores
  running := CpuMon.running
  threads env := env
  call := CpuMon.call
  call_running _ call := by cases call <;> rfl
  call_start mon env := by
    cases running : mon.running <;> simp only [CpuMon.call, startThreads, running] <;> rfl
  call_stop mon := by
    cases running : mon.running <;> simp only [CpuMon.call, stopThreads, running] <;> rfl

/-- The other monitor. -/
def genMonitor : Monitor (GenMon × GenMonChecks) GenEnv where
  workers := 1
  running state := state.1.running
  threads := GenEnv.threads
  call := GenMon.call
  call_running _ call := by cases call <;> rfl
  call_start state env := by
    cases running : state.1.running <;> simp only [GenMon.call, startThreads, running] <;> rfl
  call_stop state := by
    cases running : state.1.running <;> simp only [GenMon.call, stopThreads, running] <;> rfl

/-- A thread has been created and started. -/
def Up (since : List ThreadEvent) (worker : Nat) : Prop :=
  .created worker ∈ since ∧ .started worker ∈ since

instance (since : List ThreadEvent) (worker : Nat) : Decidable (Up since worker) :=
  inferInstanceAs (Decidable (_ ∧ _))

namespace Monitor

variable {σ ε : Type} (monitor : Monitor σ ε)

/-- A state of a monitor and what has happened to its threads since it was stopped last. -/
def step (state : σ × List ThreadEvent) (call : MonCall ε) : σ × List ThreadEvent :=
  let (next, outcome) := monitor.call state.1 call
  match call with
  | .start _ => (next, state.2 ++ outcome.events)
  | .stop => (next, [])

/-- A start that fails leaves no thread and the flag down; a stop waits for each thread that is up
and closes it, once, and does so to no other; while the flag is up, all threads are. -/
structure Handled (state : σ × List ThreadEvent) (call : MonCall ε) : Prop where
  /-- A call that fails. -/
  fails : (monitor.call state.1 call).2.ok = false →
    monitor.running (monitor.step state call).1 = false ∧
      ∀ worker, .created worker ∉ (monitor.step state call).2
  /-- A stop waits and closes. -/
  stops : call matches .stop → ∀ worker,
    (monitor.call state.1 call).2.events.count (.awaited worker) =
        (if Up state.2 worker then 1 else 0) ∧
      (monitor.call state.1 call).2.events.count (.closed worker) =
        if Up state.2 worker then 1 else 0
  /-- The flag is up. -/
  runs : monitor.running (monitor.step state call).1 = true →
    ∀ worker < monitor.workers, Up (monitor.step state call).2 worker

/-- No thread of a start fails. -/
def Unfailing (state : σ × List ThreadEvent) : MonCall ε → Prop
  | .start env => monitor.running state.1 = false → ∀ worker < monitor.workers,
      (monitor.threads env).creates worker = true ∧ (monitor.threads env).starts worker = true
  | .stop => True

/-- What has happened to threads that are up and not yet closed. -/
def upEvents (workers : List Nat) : List ThreadEvent :=
  workers.flatMap fun worker => [.created worker, .started worker]

/-- Threads are started exactly if none of them fails. -/
theorem startWorkers_ok_iff (env : ThreadEnv) (workers : List Nat) :
    (startWorkers env workers).2 = true ↔
      ∀ worker ∈ workers, env.creates worker = true ∧ env.starts worker = true := by
  induction workers with
  | nil => exact iff_of_true rfl nofun
  | cons worker rest ih =>
    rw [List.forall_mem_cons, ← ih, startWorkers]
    cases env.creates worker <;> cases env.starts worker <;> simp

/-- If none fails, all are up. -/
theorem startWorkers_events {env : ThreadEnv} {workers : List Nat}
    (ok : (startWorkers env workers).2 = true) :
    (startWorkers env workers).1 = upEvents workers := by
  induction workers with
  | nil => rfl
  | cons worker rest ih =>
    have all := (startWorkers_ok_iff env _).mp ok
    rw [List.forall_mem_cons] at all
    have rest' := ih ((startWorkers_ok_iff env rest).mpr all.2)
    rw [startWorkers, if_pos all.1.1, if_pos all.1.2]
    exact congrArg (fun events => .created worker :: .started worker :: events) rest'

/-- Which threads are up. -/
theorem up_upEvents_iff {workers : List Nat} {worker : Nat} :
    Up (upEvents workers) worker ↔ worker ∈ workers := by
  simp [Up, upEvents, List.mem_flatMap]

/-- Each thread is waited for and closed once. -/
theorem count_stopWorkers {workers : List Nat} (distinct : workers.Nodup) (worker : Nat) :
    (stopWorkers workers).count (.awaited worker) = (if worker ∈ workers then 1 else 0) ∧
      (stopWorkers workers).count (.closed worker) = if worker ∈ workers then 1 else 0 := by
  induction workers with
  | nil => exact ⟨rfl, rfl⟩
  | cons first rest ih =>
    have ⟨absent, distinct'⟩ := List.nodup_cons.mp distinct
    have ⟨awaited, closed⟩ := ih distinct'
    have events : stopWorkers (first :: rest) =
        .awaited first :: .closed first :: stopWorkers rest := rfl
    rw [events]
    by_cases same : first = worker
    · rw [same] at absent
      rw [if_neg absent] at awaited closed
      simp [awaited, closed, same]
    · simp [awaited, closed, same, Ne.symm same]

section Step

variable {monitor} {state : σ × List ThreadEvent}

/-- The threads of a monitor are up if its flag is, and there are none if it is not. -/
def Kept (monitor : Monitor σ ε) (state : σ × List ThreadEvent) : Prop :=
  state.2 = if monitor.running state.1 then upEvents (List.range monitor.workers) else []

/-- What a start does. -/
theorem start_eq (monitor : Monitor σ ε) (state : σ × List ThreadEvent) (env : ε) :
    (monitor.call state.1 (.start env)).2.running =
      (startThreads monitor.workers (monitor.threads env) (monitor.running state.1)).running ∧
    (monitor.call state.1 (.start env)).2.events =
      (startThreads monitor.workers (monitor.threads env) (monitor.running state.1)).events ∧
    (monitor.call state.1 (.start env)).2.ok =
      (startThreads monitor.workers (monitor.threads env) (monitor.running state.1)).ok := by
  rw [← monitor.call_start]
  exact ⟨rfl, rfl, rfl⟩

/-- What a stop does. -/
theorem stop_eq : (monitor.call state.1 .stop).2.running =
      (stopThreads monitor.workers (monitor.running state.1)).running ∧
    (monitor.call state.1 .stop).2.events =
      (stopThreads monitor.workers (monitor.running state.1)).events ∧
    (monitor.call state.1 .stop).2.ok =
      (stopThreads monitor.workers (monitor.running state.1)).ok := by
  rw [← monitor.call_stop]
  exact ⟨rfl, rfl, rfl⟩

/-- A stop leaves no threads and the flag down. -/
theorem kept_stop : Kept monitor (monitor.step state .stop) ∧
    monitor.running (monitor.step state .stop).1 = false := by
  have down : monitor.running (monitor.step state .stop).1 = false := by
    show monitor.running (monitor.call state.1 .stop).1 = false
    rw [monitor.call_running, stop_eq.1, stopThreads]
    cases monitor.running state.1 <;> rfl
  constructor
  · rw [Kept, down]
    rfl
  · exact down

/-- A stop handles the threads well. -/
theorem handled_stop (kept : Kept monitor state) : monitor.Handled state .stop where
  fails failed := by
    rw [stop_eq.2.2, stopThreads] at failed
    cases running : monitor.running state.1 <;> rw [running] at failed <;> exact nomatch failed
  stops _ worker := by
    rw [stop_eq.2.1, stopThreads, kept]
    cases monitor.running state.1 with
    | true =>
      have counts := count_stopWorkers (List.nodup_range (n := monitor.workers)) worker
      simp only [if_true, up_upEvents_iff]
      exact counts
    | false =>
      have none : ¬Up [] worker := fun up => List.not_mem_nil up.1
      simp only [Bool.false_eq_true, if_false, if_neg none]
      exact ⟨rfl, rfl⟩
  runs up := by
    rw [kept_stop.2] at up
    exact nomatch up

/-- What a start does to a monitor that runs. -/
theorem start_running (up : monitor.running state.1 = true) (env : ε) :
    (monitor.call state.1 (.start env)).2.ok = true ∧
      monitor.running (monitor.step state (.start env)).1 = true ∧
      (monitor.step state (.start env)).2 = state.2 := by
  have ⟨running, events, ok⟩ := start_eq monitor state env
  rw [startThreads, if_pos up] at running events ok
  exact ⟨ok, (monitor.call_running _ _).trans (running.trans up),
    (congrArg (state.2 ++ ·) events).trans (List.append_nil _)⟩

/-- What a start does to a monitor that does not run. -/
theorem start_stopped (kept : Kept monitor state) (down : monitor.running state.1 = false)
    (env : ε) :
    (monitor.call state.1 (.start env)).2.ok =
        (startWorkers (monitor.threads env) (List.range monitor.workers)).2 ∧
      monitor.running (monitor.step state (.start env)).1 = true ∧
      (monitor.step state (.start env)).2 =
        (startWorkers (monitor.threads env) (List.range monitor.workers)).1 := by
  have nothing : state.2 = [] := by
    rw [kept, down]
    rfl
  have ⟨running, events, ok⟩ := start_eq monitor state env
  have stopped : ¬monitor.running state.1 = true := by
    rw [down]
    exact Bool.false_ne_true
  rw [startThreads, if_neg stopped] at running events ok
  refine ⟨ok, (monitor.call_running _ _).trans running, ?_⟩
  show state.2 ++ (monitor.call state.1 (.start env)).2.events = _
  rw [nothing, events, List.nil_append]

/-- A start handles the threads well exactly if none of them fails. -/
theorem handled_start_iff (kept : Kept monitor state) (env : ε) :
    monitor.Handled state (.start env) ↔ monitor.Unfailing state (.start env) := by
  cases running : monitor.running state.1 with
  | true =>
    have ⟨ok, up, since⟩ := start_running running env
    have unfailing : monitor.Unfailing state (.start env) := by
      intro down
      rw [running] at down
      exact nomatch down
    refine iff_of_true { fails := ?_, stops := nofun, runs := ?_ } unfailing
    · intro failed
      rw [ok] at failed
      exact nomatch failed
    · intro _ worker inside
      rw [since, kept, running]
      exact up_upEvents_iff.mpr (List.mem_range.mpr inside)
  | false =>
    have ⟨ok, up, since⟩ := start_stopped kept running env
    have ok_iff := startWorkers_ok_iff (monitor.threads env) (List.range monitor.workers)
    simp only [List.mem_range] at ok_iff
    constructor
    · intro handled _
      apply ok_iff.mp
      rw [← ok]
      by_contra failed
      have down := (handled.fails (Bool.eq_false_of_not_eq_true failed)).1
      rw [up] at down
      exact nomatch down
    · intro unfailing
      have all := ok_iff.mpr (unfailing running)
      refine { fails := ?_, stops := nofun, runs := ?_ }
      · intro failed
        rw [ok, all] at failed
        exact nomatch failed
      · intro _ worker inside
        rw [since, startWorkers_events all]
        exact up_upEvents_iff.mpr (List.mem_range.mpr inside)

/-- A call handles the threads well exactly if none of them fails. -/
theorem handled_iff_unfailing (kept : Kept monitor state) (call : MonCall ε) :
    monitor.Handled state call ↔ monitor.Unfailing state call := by
  cases call with
  | start env => exact handled_start_iff kept env
  | stop => exact iff_of_true (handled_stop kept) trivial

/-- A call none of whose threads fails leaves the threads as the flag says. -/
theorem kept_step (kept : Kept monitor state) {call : MonCall ε}
    (unfailing : monitor.Unfailing state call) : Kept monitor (monitor.step state call) := by
  cases call with
  | start env =>
    cases running : monitor.running state.1 with
    | true =>
      have ⟨_, up, since⟩ := start_running running env
      rw [Kept, since, up, kept, running]
    | false =>
      have ⟨_, up, since⟩ := start_stopped kept running env
      have ok_iff := startWorkers_ok_iff (monitor.threads env) (List.range monitor.workers)
      simp only [List.mem_range] at ok_iff
      rw [Kept, since, up, startWorkers_events (ok_iff.mpr (unfailing running))]
      rfl
  | stop => exact kept_stop.1

/-- In a run from a monitor that does not run the threads are handled well exactly if no thread of a
start fails. -/
theorem eachStep_handled_iff {start : σ} (down : monitor.running start = false)
    (calls : List (MonCall ε)) :
    EachStep monitor.step monitor.Handled (start, []) calls ↔
      EachStep monitor.step monitor.Unfailing (start, []) calls := by
  have now : Kept monitor (start, []) := by
    rw [Kept, down]
    rfl
  have keeps : ∀ state call, Kept monitor state → monitor.Unfailing state call →
      Kept monitor (monitor.step state call) := fun _ _ kept unfailing => kept_step kept unfailing
  exact (eachStep_congr_of_kept keeps
    (fun _ call kept => (handled_iff_unfailing kept call).symm) now).symm

end Step

end Monitor

/-- The threads of each monitor are handled well throughout a run exactly if no thread of a start
fails. -/
theorem threads_handled_iff (cpuCalls : List (MonCall ThreadEnv)) (mode : GenMonMode)
    (genCalls : List (MonCall GenEnv)) :
    (EachStep cpuMonitor.step cpuMonitor.Handled (⟨false⟩, []) cpuCalls ↔
      EachStep cpuMonitor.step cpuMonitor.Unfailing (⟨false⟩, []) cpuCalls) ∧
    (EachStep genMonitor.step genMonitor.Handled ((⟨false, mode⟩, {}), []) genCalls ↔
      EachStep genMonitor.step genMonitor.Unfailing ((⟨false, mode⟩, {}), []) genCalls) := by
  constructor
  · exact Monitor.eachStep_handled_iff rfl cpuCalls
  · exact Monitor.eachStep_handled_iff rfl genCalls

/-- The third core gets no thread: the start fails, its flag is up, and the stop waits for four
threads of which two are up. -/
theorem third_core_fails :
    ¬EachStep cpuMonitor.step cpuMonitor.Handled (⟨false⟩, [])
        [.start ⟨fun core => decide (core ≠ 2), fun _ => true⟩, .stop] ∧
      (CpuMon.call ⟨false⟩ (.start ⟨fun core => decide (core ≠ 2), fun _ => true⟩)).2 =
        ⟨true, [.created 0, .started 0, .created 1, .started 1], false, false⟩ ∧
      (CpuMon.call ⟨true⟩ .stop).2.events = stopWorkers [0, 1, 2, 3] := by
  refine ⟨fun handled => ?_, rfl, rfl⟩
  exact absurd (handled.1.fails rfl).1 (by decide)

end Fly2040.App
