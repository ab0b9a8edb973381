import SchedMon.Driver.Sched
import SchedMon.Lib.Run

/-!
# The system

What can happen while the module is loaded: the kernel calls a hook, a timer fires, a queued
`irq_work` runs, a client registers or unregisters a task, time passes, a counter advances. A step
that meets a fault has no successor.

Which steps a kernel really takes is said separately. `Enabled` is about the hardware and the
timers, `Kernel.Consistent` about the order of its hooks; a result assumes of these what it needs.

## Main definitions

* `Label`, `State.exec` — the events and what they do
* `State.Step` — the steps of the system
* `Kernel.Consistent` — the order of the hooks
-/

namespace SchedMon

/-- What can happen. -/
inductive Label where
  /-- The monotonic clock advances. -/
  | time (d : ℕ)
  /-- A counter advances on a CPU. -/
  | count (me : Cpu) (ctr : Counter) (inc : ℕ)
  /-- A queued item runs on its CPU. -/
  | irq (me : Cpu) (w : Irq)
  /-- The PMC timer of a task expires. -/
  | tick (t : TaskId)
  /-- The RAPL timer of a task expires. -/
  | raplTick (t : TaskId)
  /-- CPU `me` switches to another process. -/
  | switch (me : Cpu) (next : Proc)
  | migrate (p : Proc) (destCpu : Cpu)
  /-- A process or thread forks. `leader` says whether the child shows up among the processes. -/
  | fork (parent child : Proc) (pid : Pid) (cpu : Cpu) (leader alloc : Bool)
  | exec (p : Proc)
  | exit (p : Proc)
  /-- A process that has exited disappears. -/
  | reap (p : Proc)
  | register (me : Cpu) (pid : Pid) (envir : SmonEnvir) (b : RbId) (alloc : Alloc)
  | unregister (pid : Pid)

namespace Kernel

/-- A new process. -/
def addProc (k : Kernel) (p : Proc) (pid : Pid) (cpu : Cpu) (leader : Bool) : Kernel :=
  { k with
    known := Function.update k.known p true
    procs := if leader then k.procs ++ [p] else k.procs
    pid := Function.update k.pid p pid
    cpu := Function.update k.cpu p cpu }

/-- How the kernel's own state changes with an event. -/
def step (k : Kernel) : Label → Kernel
  | .switch me next => { k with curr := Function.update k.curr me next }
  | .migrate p destCpu => { k with cpu := Function.update k.cpu p destCpu }
  | .fork _ child pid cpu leader _ => k.addProc child pid cpu leader
  | .reap p => { k with procs := k.procs.erase p }
  | _ => k

/-- What the kernel guarantees about its hooks: a process runs where its `task_cpu` says, hooks are
called for the running process, only a process that does not run is migrated, and a forked process
is new. -/
def Consistent (k : Kernel) : Label → Prop
  | .switch me next => k.cpu next = me
  | .migrate p _ => ∀ c, k.curr c ≠ p
  | .fork parent child _ _ _ _ => k.curr (k.cpu parent) = parent ∧ k.known child = false
  | .exec p => k.curr (k.cpu p) = p
  | .exit p => k.curr (k.cpu p) = p
  | _ => True

end Kernel

/-- The register of a counter. -/
def Counter.register : Counter → ℕ
  | fx i => ia32FxCtr i
  | gp i => ia32GpCtr i

/-- The bit of `IA32_PERF_GLOBAL_CTRL` that lets a counter advance. -/
def Counter.globalBit : Counter → ℕ
  | fx i => 32 + i
  | gp i => i

namespace State

/-- Replacing the kernel's state. -/
def withKernel (s : State) (k : Kernel) : State := { s with kernel := k }

/-- A queued item runs. -/
def runIrq (s : State) (me : Cpu) : Irq → Except Fault State
  | .startTimer t => s.startTimerPmc me t
  | .stopTimer t => s.stopTimerPmc t
  | .startRapl t => s.startTimerRapl me t

/-- What an event does. `sched_switch` and `migrate_task` are called before the kernel acts on
them, `process_fork` when the child is there. -/
def exec (s : State) (l : Label) : Except Fault State :=
  match l with
  | .time d => .ok { s with now := s.now + d }
  | .count me ctr inc =>
    let s := s.onCpu me fun msr =>
      Function.update msr ctr.register (msr ctr.register + BitVec.ofNat 64 inc)
    .ok (s.record (.count me ctr inc))
  | .irq me w => { s with irqs := s.irqs.erase (me, w) }.runIrq me w
  | .tick t => s.smonSchedTimerTick t
  | .raplTick t => s.smonSchedTimerRapl t
  | .switch me next => do
    let s ← s.smonSchedSwitch (s.kernel.curr me) next
    return s.withKernel (s.kernel.step l)
  | .migrate p destCpu => do
    let s ← s.smonSchedMigrateTask p destCpu
    return s.withKernel (s.kernel.step l)
  | .fork parent child _ _ _ alloc =>
    (s.withKernel (s.kernel.step l)).smonSchedProcessFork parent child alloc
  | .exec p => s.smonSchedProcessExec p
  | .exit p => s.smonSchedProcessExit p
  | .reap _ => .ok (s.withKernel (s.kernel.step l))
  | .register me pid envir b alloc => do
    let (_, s) ← s.smonSchedRegisterTask me pid envir b alloc
    return s
  | .unregister pid => do
    let (_, s) ← s.smonSchedUnregisterTask pid
    return s

/-- What the hardware and the timers guarantee: a counter advances only where it is enabled, and
stays below `2 ^ 48`; an item runs only if it is queued; a timer fires only when it is due. -/
def Enabled (s : State) : Label → Prop
  | .count me ctr inc => (s.msr me ia32PerfGlobalCtrl).getLsbD ctr.globalBit = true ∧
      (s.msr me ctr.register).toNat + inc < 2 ^ 48
  | .irq me w => (me, w) ∈ s.irqs
  | .tick t => (s.tasks t).any (fun task => task.timer.due s.now) = true
  | .raplTick t =>
      (s.tasks t).any (fun task => task.extra.any fun extra => extra.raplTimer.due s.now) = true
  | _ => True

instance (s : State) (l : Label) : Decidable (s.Enabled l) :=
  match l with
  | .count _ _ _ => inferInstanceAs (Decidable (_ ∧ _))
  | .irq _ _ => inferInstanceAs (Decidable (_ ∈ _))
  | .tick _ => inferInstanceAs (Decidable (_ = true))
  | .raplTick _ => inferInstanceAs (Decidable (_ = true))
  | .time _ | .switch _ _ | .migrate _ _ | .fork _ _ _ _ _ _ | .exec _ | .exit _ | .reap _
  | .register _ _ _ _ _ | .unregister _ => inferInstanceAs (Decidable True)

/-- The steps of the system. -/
def Step (s : State) (l : Label) (s' : State) : Prop := s.Enabled l ∧ s.exec l = .ok s'

/-- The CPU a hook runs on, if the event is one of the five tracepoint hooks. -/
def hookCpu? (s : State) : Label → Option Cpu
  | .switch me _ => some me
  | .migrate p _ => some (s.kernel.cpu p)
  | .fork parent _ _ _ _ _ => some (s.kernel.cpu parent)
  | .exec p => some (s.kernel.cpu p)
  | .exit p => some (s.kernel.cpu p)
  | _ => none

/-- The freshly loaded module: nothing is registered, no counter runs, every CPU runs a process. -/
structure Initial (s : State) : Prop where
  tasks : ∀ t, s.tasks t = none
  envirs : ∀ e, s.envirs e = none
  taskList : s.taskList = []
  waitList : s.waitList = []
  cpuList : ∀ c, s.cpuList c = []
  irqs : s.irqs = []
  trace : s.trace = []
  rbs : ∀ b, (s.rbs b).active = 0 ∧ (s.rbs b).log = []
  stopped : ∀ c, s.msr c ia32PerfGlobalCtrl = 0
  running : ∀ c, s.kernel.cpu (s.kernel.curr c) = c
  known : s.kernel.known initTask = true ∧ (∀ p ∈ s.kernel.procs, s.kernel.known p = true) ∧
    ∀ c, s.kernel.known (s.kernel.curr c) = true

/-- Replaying events, as long as they can happen. -/
def replay (s : State) : List Label → Option State
  | [] => some s
  | l :: ls =>
    if s.Enabled l then
      match s.exec l with
      | .ok s' => s'.replay ls
      | .error _ => none
    else none

/-- The state after some events that can happen. -/
def after (s : State) (ls : List Label) : State := (s.replay ls).getD s

theorem run_of_replay {s s' : State} {ls : List Label} (h : s.replay ls = some s') :
    Run State.Step s ls s' := by
  induction ls generalizing s with
  | nil =>
    cases h
    exact .nil
  | cons l ls ih =>
    simp only [replay] at h
    split at h
    · rename_i henabled
      split at h
      · rename_i s₁ hexec
        exact .cons ⟨henabled, hexec⟩ (ih h)
      · cases h
    · cases h

theorem run_after {s : State} {ls : List Label} (h : (s.replay ls).isSome = true) :
    Run State.Step s ls (s.after ls) := by
  obtain ⟨s', hs'⟩ := Option.isSome_iff_exists.mp h
  rw [after, hs']
  exact run_of_replay hs'

/-- An event set of the fixed counters alone. -/
def fixedOnly : SmonEvset := ⟨fun _ => -1, 0x222, 0x700000000⟩

/-- The module loaded into an idle machine. CPU `c` runs process `2 * c`; the odd ones are not
there yet, but for process `1`, which waits for CPU 0 and has pid 1. -/
def boot (events : List SmonEvent) (evsets : List SmonEvset) : State where
  kernel := {
    procs := [1]
    known := fun p => p % 2 = 0 ∨ p = 1
    pid := fun p => if p = 1 then 1 else 0
    cpu := fun p => if p = 1 then 0 else p / 2
    curr := fun c => 2 * c
    onlineCpus := 2 }
  now := 0
  clock := fun n => n + 1
  reads := 0
  msr := fun _ _ => 0
  events := events
  evsets := evsets
  tasks := fun _ => none
  envirs := fun _ => none
  rbs := fun _ => ⟨0, 100, []⟩
  fresh := 0
  taskList := []
  waitList := []
  cpuList := fun _ => []
  children := ⟨id, id⟩
  irqs := []
  trace := []

theorem initial_boot (events : List SmonEvent) (evsets : List SmonEvset) :
    (boot events evsets).Initial := by
  refine ⟨fun _ => rfl, fun _ => rfl, rfl, rfl, fun _ => rfl, rfl, rfl, fun _ => ⟨rfl, rfl⟩,
    fun _ => rfl, fun c => ?_, rfl, by simp [boot], fun c => by simp [boot]⟩
  have hne : ∀ n : ℕ, ¬ 2 * n = 1 := by omega
  simp [boot, hne c]

end State

end SchedMon
