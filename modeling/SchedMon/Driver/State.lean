import Mathlib.Algebra.Group.Nat.Defs
import Mathlib.Data.Int.Notation
import Mathlib.Logic.Function.Basic
import SchedMon.Lib.Ring
import SchedMon.Sample

/-!
# The state of the driver

The data the scheduler hooks of the module work on: `smon.h`, with the kernel and the hardware as
far as the hooks look at them. Memory is three heaps indexed by addresses that are never reused; a
freed `struct smon_task` or `struct smon_envir` is `none`, and looking at it is a fault.

The lists `task_list`, `wait_list` and `cpu_list` are sequences, in the order a traversal meets
them. The `children` node is kept as the links it is (`Links`), because it serves as head and as
element at once.

A ring buffer is seen from the side of its writers: the sequence of samples handed to
`smon_rb_write`, and the count of active writers. What becomes of a sample in the buffer is the
subject of `RingBuffer`.

`trace` is a history of what happened. No function reads it.

## Main definitions

* `SmonTask`, `SmonEnvir`, `SmonEvset`, `SamplePmc` — the structures of `smon.h`
* `Kernel` — processes, their CPUs, and what runs where
* `State` — everything together
* `Fault` — what ends a run
-/

namespace SchedMon

abbrev Cpu := ℕ
/-- The address of a `struct task_struct`. -/
abbrev Proc := ℕ
abbrev Pid := ℤ
/-- The address of a `struct smon_task`. -/
abbrev TaskId := ℕ
abbrev EnvirId := ℕ
abbrev RbId := ℕ
/-- The bits of a `long long`, or of a model-specific register. -/
abbrev I64 := BitVec 64

/-- What ends a run: the kernel would oops, or loop for ever. A null pointer that is an event set
has its own name. -/
inductive Fault where
  | nullPointer | nullEvset | useAfterFree | outOfBounds | divideByZero | diverges
  deriving DecidableEq, Repr

/-! ### Events, event sets, environments -/

/-- `MAX_FX_CTRS`. -/
abbrev maxFxCtrs : ℕ := 3

/-- `MAX_GP_CTRS`. -/
abbrev maxGpCtrs : ℕ := 4

/-- `MUX_EVSETS`. -/
def muxEvsets : ℕ := 32

/-- `DEFAULT_SAMPLE_TIME`. -/
def defaultSampleTime : U32 := 10

/-- `struct smon_event`. -/
structure SmonEvent where
  perfevtsel : I64

/-- `struct smon_evset`. An event id that is negative as an `int` is not configured. -/
structure SmonEvset where
  evids : Fin maxGpCtrs → U32
  fixedCtrl : I64
  globalCtrl : I64

/-- The option bits of `struct smon_envir`. -/
structure Options where
  inherit : Bool
  onExec : Bool
  rapl : Bool
  cpu : Bool
  fork : Bool
  sched : Bool
  stat : Bool
  deriving DecidableEq

/-- `struct smon_envir`. Of `esids` the first `MUX_EVSETS` entries exist. -/
structure SmonEnvir where
  esids : ℕ → U32
  nEsids : U32
  sampleTime : U32
  batchSize : U32
  options : Options
  count : ℤ

/-! ### Samples -/

/-- `struct smon_pmc`. -/
@[ext]
structure SmonPmc where
  fx : Fin maxFxCtrs → I64
  gp : Fin maxGpCtrs → I64

/-- `struct smon_sample_pmc`. -/
structure SamplePmc where
  timestampStart : ℤ
  timestampStop : ℤ
  duration : ℤ
  pid : Pid
  pmc : SmonPmc
  evset : ℕ

/-- A sample after `memset`. -/
def SamplePmc.zero : SamplePmc := ⟨0, 0, 0, 0, ⟨fun _ => 0, fun _ => 0⟩, 0⟩

/-- `struct smon_rapl`. -/
structure SmonRapl where
  pkg : I64
  pp0 : I64
  pp1 : I64

/-- `struct smon_sample_rapl`. -/
structure SampleRapl where
  timestamp : ℤ
  duration : ℤ
  rapl : SmonRapl

/-- `struct smon_sample_cpu`. -/
structure SampleCpu where
  timestamp : ℤ
  pid : Pid
  oldCpu : Cpu
  newCpu : Cpu

/-- `struct smon_sample_fork`. -/
structure SampleFork where
  timestamp : ℤ
  parent : Pid
  child : Pid

/-- `struct smon_sample_sched`. -/
structure SampleSched where
  timestampIn : ℤ
  timestampOut : ℤ
  pid : Pid
  cpu : Cpu

/-- `struct smon_sample_info`. -/
structure SampleInfo where
  timestamp : ℤ
  pmcSampleTime : U32
  raplSampleTime : U32
  energyUnits : ℤ
  powerUnits : ℤ
  timeUnits : ℤ
  tscFrequency : ℕ
  evsets : U32
  nCpus : ℕ

/-- A record handed to `smon_rb_write`: its header's type and its structure. -/
inductive Sample where
  | pmc (s : SamplePmc)
  | rapl (s : SampleRapl)
  | cpu (s : SampleCpu)
  | sched (s : SampleSched)
  | fork (s : SampleFork)
  | info (s : SampleInfo)
  | eof

/-- The `SAMPLE_TYPE_*` of the header. -/
def Sample.type : Sample → SampleType
  | pmc _ => .pmc
  | rapl _ => .rapl
  | cpu _ => .cpu
  | sched _ => .sched
  | fork _ => .fork
  | info _ => .info
  | eof => .eof

/-- What a writer sees of `struct smon_ring_buffer`. -/
structure Rb where
  active : ℤ
  batch : U32
  log : List Sample

/-! ### Timers and tasks -/

/-- `struct hrtimer`: whether it is queued, when it expires, and on which CPU. -/
structure Hrtimer where
  active : Bool
  expires : ℤ
  cpu : Cpu

/-- `hrtimer_init`. -/
def hrtimerInit : Hrtimer := ⟨false, 0, 0⟩

/-- `hrtimer_start` with a relative time, on CPU `me`. -/
def hrtimerStart (me : Cpu) (now kt : ℤ) : Hrtimer := ⟨true, now + kt, me⟩

/-- `hrtimer_cancel`. -/
def hrtimerCancel (timer : Hrtimer) : Hrtimer := { timer with active := false }

/-- `hrtimer_expires_remaining`. -/
def hrtimerExpiresRemaining (timer : Hrtimer) (now : ℤ) : ℤ := timer.expires - now

/-- `hrtimer_forward`: by whole intervals, to the first one behind `now`. -/
def hrtimerForward (timer : Hrtimer) (now interval : ℤ) : Hrtimer :=
  let interval := max interval 1
  if now < timer.expires then timer
  else { timer with
    expires := timer.expires + ((now - timer.expires) / interval + 1) * interval }

/-- Is it time for the timer to fire? -/
def Hrtimer.due (timer : Hrtimer) (now : ℤ) : Bool := timer.active && timer.expires ≤ now

/-- `MS_TO_NS`, on an `unsigned int`. -/
def msToNs (msec : U32) : ℤ := (msec * 1000000).toNat

/-- The part of `struct smon_task` that says whose task it is. -/
structure TaskCore where
  p : Option Proc
  pid : Pid
  envir : EnvirId
  nChildren : ℕ
  rb : Option RbId

/-- `struct smon_task_extra`. `timerFlags` is its `SMON_TIMER_ON` bit. -/
structure SmonTaskExtra where
  raplSample : SampleRapl
  raplSampleTime : U32
  raplTimer : Hrtimer
  timerFlags : Bool
  infoSample : SampleInfo
  rb : RbId

/-- `struct smon_task`. `timerFlags` is its `SMON_TIMER_ON` bit. -/
structure SmonTask extends TaskCore where
  evset : ℕ
  samplePmc : SamplePmc
  tscTmp : ℤ
  timer : Hrtimer
  ktRemain : ℤ
  timerFlags : Bool
  sampleSched : SampleSched
  extra : Option SmonTaskExtra

/-- The `irq_work` items of a task and of its extra part that are ever queued. -/
inductive Irq where
  | startTimer (t : TaskId)
  | stopTimer (t : TaskId)
  | startRapl (t : TaskId)
  deriving DecidableEq

/-! ### The kernel -/

/-- `&init_task`. -/
def initTask : Proc := 0

/-- Processes as the kernel keeps them. `procs` is what `for_each_process` goes through, `known`
tells which processes there ever were. -/
structure Kernel where
  procs : List Proc
  known : Proc → Bool
  pid : Proc → Pid
  cpu : Proc → Cpu
  curr : Cpu → Proc
  onlineCpus : ℕ

/-- `for_each_process(p)` with a `break` at the first process of that pid. A loop that finds none
ends with `p` back at its head, which is `init_task`. -/
def Kernel.forEachProcess (k : Kernel) (pid : Pid) : Proc :=
  (k.procs.find? fun p => k.pid p = pid).getD initTask

/-! ### Everything together -/

/-- The counters of one CPU. -/
inductive Counter where
  | fx (i : Fin maxFxCtrs)
  | gp (i : Fin maxGpCtrs)
  deriving DecidableEq

/-- The history of a run. -/
inductive TraceEvent where
  /-- `smon_sample_start` went through. -/
  | start (t : TaskId) (me : Cpu) (tsc : ℤ)
  /-- `smon_sample_stop` went through. -/
  | stop (t : TaskId) (me : Cpu) (tsc : ℤ)
  /-- A counter advanced. -/
  | count (me : Cpu) (ctr : Counter) (inc : ℕ)
  /-- A PMC sample of the task was written, in its environment. -/
  | save (t : TaskId) (sample : SamplePmc) (envir : SmonEnvir)
  /-- A SCHED sample of the task was written. -/
  | sched (t : TaskId) (sample : SampleSched)
  /-- A child was registered. -/
  | child (parent child : TaskId)
  | destroy (t : TaskId)
  | freeEnvir (e : EnvirId)

/-- The driver, the kernel and the hardware. `clock` gives the values that successive reads of the
time-stamp counter return, `reads` how many there were. -/
structure State where
  kernel : Kernel
  now : ℤ
  clock : ℕ → ℤ
  reads : ℕ
  msr : Cpu → ℕ → I64
  events : List SmonEvent
  evsets : List SmonEvset
  tasks : TaskId → Option SmonTask
  envirs : EnvirId → Option SmonEnvir
  rbs : RbId → Rb
  fresh : ℕ
  taskList : List TaskId
  waitList : List TaskId
  cpuList : Cpu → List TaskId
  children : Links TaskId
  irqs : List (Cpu × Irq)
  trace : List TraceEvent

namespace State

/-- Looking at a task. -/
def task (s : State) (t : TaskId) : Except Fault SmonTask :=
  match s.tasks t with
  | some task => .ok task
  | none => .error .useAfterFree

/-- Looking at an environment. -/
def envir (s : State) (e : EnvirId) : Except Fault SmonEnvir :=
  match s.envirs e with
  | some envir => .ok envir
  | none => .error .useAfterFree

/-- Writing a task back. -/
def setTask (s : State) (t : TaskId) (task : SmonTask) : State :=
  { s with tasks := Function.update s.tasks t (some task) }

/-- Working on the registers of CPU `me`. -/
def onCpu (s : State) (me : Cpu) (f : (ℕ → I64) → ℕ → I64) : State :=
  { s with msr := Function.update s.msr me (f (s.msr me)) }

/-- `if (c) f`. -/
def when (s : State) (c : Bool) (f : State → Except Fault State) : Except Fault State :=
  if c then f s else .ok s

/-- What a loop with a `break` does with the element it has found, if any. -/
def whenFound (s : State) (found : Option TaskId) (f : TaskId → State → Except Fault State) :
    Except Fault State :=
  match found with
  | some t => f t s
  | none => .ok s

/-- Adding to the history. -/
def record (s : State) (e : TraceEvent) : State := { s with trace := s.trace ++ [e] }

/-- `msr_rdtsc`. -/
def msrRdtsc (s : State) : ℤ × State := (s.clock s.reads, { s with reads := s.reads + 1 })

/-- `irq_work_queue` on CPU `me`: nothing if the item is queued already. -/
def irqWorkQueue (s : State) (me : Cpu) (w : Irq) : State :=
  if w ∈ s.irqs.map Prod.snd then s else { s with irqs := s.irqs ++ [(me, w)] }

end State

end SchedMon
