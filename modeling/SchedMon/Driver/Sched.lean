import SchedMon.Driver.Task

/-!
# The scheduler hooks

`driver/sched.c`: registration, the timers, and the five tracepoint hooks. A hook is one atomic
step; the locks are not represented. `me` stands for `smp_processor_id ()`, which for a hook of the
current process is the CPU of that process.

## Main definitions

* `State.smonSchedRegisterTask`, `State.smonSchedUnregisterTask`
* `State.smonSchedSwitch`, `smonSchedMigrateTask`, `smonSchedProcessFork`, `smonSchedProcessExec`,
  `smonSchedProcessExit`
* `State.smonSchedTimerTick`, `State.smonSchedTimerRapl`
-/

namespace SchedMon

namespace State

/-! ### Timers -/

/-- `start_timer_pmc`, run on CPU `me`. -/
def startTimerPmc (s : State) (me : Cpu) (t : TaskId) : Except Fault State := do
  let task ← s.task t
  let envir ← s.envir task.envir
  let kt := if task.ktRemain ≤ 0 then msToNs envir.sampleTime else task.ktRemain
  let s := s.setTask t { task with timerFlags := true, timer := hrtimerStart me s.now kt }
  s.smonSampleStart me t

/-- `stop_timer_pmc`. -/
def stopTimerPmc (s : State) (t : TaskId) : Except Fault State := do
  let task ← s.task t
  return s.setTask t { task with timer := hrtimerCancel task.timer }

/-- `smon_sched_task_in`. -/
def smonSchedTaskIn (s : State) (me : Cpu) (t : TaskId) : Except Fault State := do
  let task ← s.task t
  let envir ← s.envir task.envir
  let s ← s.when envir.options.sched fun s => s.smonSampleSchedIn me t
  if envir.options.stat then s.smonSampleStart me t
  else return s.irqWorkQueue me (.startTimer t)

/-- The part of `smon_sched_task_out` that is for a task whose timer is active. -/
def smonSchedTimerOut (s : State) (me : Cpu) (t : TaskId) : Except Fault State := do
  let task ← s.task t
  let remain := hrtimerExpiresRemaining task.timer s.now
  let s := s.setTask t { task with ktRemain := remain }
  let s ← s.when (remain ≤ 0) fun s => s.smonSampleSave t
  let task ← s.task t
  let s := s.setTask t { task with timerFlags := false }
  let s := s.irqWorkQueue me (.stopTimer t)
  let envir ← s.envir task.envir
  s.when envir.options.sched fun s => do
    let s ← s.smonSampleSchedOut t
    s.smonSampleSchedSave t

/-- `smon_sched_task_out`. -/
def smonSchedTaskOut (s : State) (me : Cpu) (t : TaskId) : Except Fault State := do
  let s ← s.smonSampleStop me t
  let task ← s.task t
  s.when task.timer.active fun s => s.smonSchedTimerOut me t

/-- `smon_sched_timer_tick`, run on the CPU the timer is queued on. -/
def smonSchedTimerTick (s : State) (t : TaskId) : Except Fault State := do
  let task ← s.task t
  let me := task.timer.cpu
  if task.timerFlags then
    let s ← s.smonSampleStop me t
    let s ← s.smonSampleSave t
    let task ← s.task t
    let envir ← s.envir task.envir
    let kt := msToNs envir.sampleTime
    let s := s.setTask t { task with timer := hrtimerForward task.timer s.now kt, ktRemain := kt }
    s.smonSampleStart me t
  else
    -- not restarted
    return s.setTask t { task with timer := hrtimerCancel task.timer }

/-! ### The extra part -/

/-- Looking at the extra part of a task. -/
def extra (s : State) (t : TaskId) : Except Fault SmonTaskExtra := do
  let task ← s.task t
  match task.extra with
  | some extra => return extra
  | none => throw .nullPointer

/-- Writing the extra part of a task back. -/
def setExtra (s : State) (t : TaskId) (extra : SmonTaskExtra) : Except Fault State := do
  let task ← s.task t
  return s.setTask t { task with extra := some extra }

/-- `smon_sched_timer_rapl`, run on the CPU the timer is queued on. -/
def smonSchedTimerRapl (s : State) (t : TaskId) : Except Fault State := do
  let extra ← s.extra t
  let me := extra.raplTimer.cpu
  if extra.timerFlags then
    let (sample, s) := s.smonSampleRaplStop me extra.raplSample
    let s := s.smonSampleRaplSave extra.rb sample
    let (sample, s) := s.smonSampleRaplStart me sample
    let kt := msToNs extra.raplSampleTime
    s.setExtra t { extra with
      raplSample := sample, raplTimer := hrtimerForward extra.raplTimer s.now kt }
  else s.setExtra t { extra with raplTimer := hrtimerCancel extra.raplTimer }

/-- `start_timer_rapl`, run on CPU `me`. -/
def startTimerRapl (s : State) (me : Cpu) (t : TaskId) : Except Fault State := do
  let extra ← s.extra t
  let (sample, s) := s.smonSampleRaplStart me extra.raplSample
  let kt := msToNs extra.raplSampleTime
  s.setExtra t { extra with
    timerFlags := true, raplSample := sample, raplTimer := hrtimerStart me s.now kt }

/-- `smon_task_extra_start`, on CPU `me`. -/
def smonTaskExtraStart (s : State) (me : Cpu) (t : TaskId) : Except Fault State := do
  let task ← s.task t
  let extra ← s.extra t
  let envir ← s.envir task.envir
  let (info, s) := s.smonSampleGetInfo me envir
  let s ← s.setExtra t { extra with infoSample := info }
  let s := s.smonSampleInfoSave extra.rb info
  if envir.options.rapl then return s.irqWorkQueue me (.startRapl t) else return s

/-- `if (task->extra) smon_task_extra_start (task)`. -/
def startExtra (s : State) (me : Cpu) (t : TaskId) : Except Fault State := do
  let task ← s.task t
  s.when task.extra.isSome fun s => s.smonTaskExtraStart me t

/-- `hrtimer_cancel (&task->extra->rapl_timer)`. -/
def cancelRapl (s : State) (t : TaskId) : Except Fault State := do
  let extra ← s.extra t
  s.setExtra t { extra with raplTimer := hrtimerCancel extra.raplTimer }

/-! ### The lists -/

/-- `list_add (&task->wait_list, &sched.wait_list)`. -/
def addWaitList (s : State) (t : TaskId) : State := { s with waitList := t :: s.waitList }

/-- `list_del (&task->wait_list)`. -/
def delWaitList (s : State) (t : TaskId) : State := { s with waitList := s.waitList.erase t }

/-- `list_add (&task->cpu_list, &sched.cpu_list[cpu])`. -/
def addCpuList (s : State) (cpu : Cpu) (t : TaskId) : State :=
  { s with cpuList := Function.update s.cpuList cpu (t :: s.cpuList cpu) }

/-- `list_del (&task->cpu_list)`, for a task on the list of `cpu`. -/
def delCpuList (s : State) (cpu : Cpu) (t : TaskId) : State :=
  { s with cpuList := Function.update s.cpuList cpu ((s.cpuList cpu).erase t) }

/-! ### Registration -/

/-- `smon_sched_register_task`, called on CPU `me`: the return value and the state. -/
def smonSchedRegisterTask (s : State) (me : Cpu) (pid : Pid) (envir : SmonEnvir) (b : RbId)
    (alloc : Alloc) : Except Fault (ℤ × State) := do
  match ← s.smonCreateTask pid envir b alloc with
  | (none, s) => return (-1, s)
  | (some t, s) =>
    let s := { s with taskList := t :: s.taskList }
    if envir.options.onExec then return (0, s.addWaitList t)
    else
      let s ← s.startExtra me t
      let cpu := s.kernel.cpu (s.kernel.forEachProcess pid)
      return (0, s.addCpuList cpu t)

/-- `smon_sched_register_child`. Both branches of its last `if` add to the same list; the first one
knows that its lock is held already. -/
def smonSchedRegisterChild (s : State) (parent : TaskId) (p : Proc) (alloc : Bool) :
    Except Fault State := do
  let cpu := s.kernel.cpu p
  match ← s.smonCreateChild parent p alloc with
  | (none, s) => return s
  | (some child, s) =>
    let s ← s.addChild child parent
    let task ← s.task parent
    let s := s.setTask parent { task with nChildren := task.nChildren + 1 }
    return s.addCpuList cpu child

/-- The loop of `list_for_each_entry_safe` in `smon_sched_unregister_children`, at element `pos`
with `n` behind it. The fuel is never used up on a list that is a ring. -/
def unregisterChildrenFrom (root : TaskId) : ℕ → TaskId → TaskId → State → Except Fault State
  | 0, _, _, _ => .error .diverges
  | fuel + 1, pos, n, s =>
    if pos = root then return s
    else do
      let s ← s.delChild pos
      -- `hrtimer_cancel` and `smon_destroy_task`: the timer goes with its task
      let s ← s.smonDestroyTask pos
      unregisterChildrenFrom root fuel n (← s.nextChild n) s

/-- `smon_sched_unregister_children`. -/
def smonSchedUnregisterChildren (s : State) (root : TaskId) : Except Fault State := do
  let pos ← s.nextChild root
  unregisterChildrenFrom root (s.fresh + 1) pos (← s.nextChild pos) s

/-- `smon_sched__unregister_task`. -/
def smonSchedUnregister (s : State) (t : TaskId) : Except Fault State := do
  let task ← s.task t
  let s := s.setTask t { task with timer := hrtimerCancel task.timer }
  let s ← s.smonSchedUnregisterChildren t
  let s := { s with taskList := s.taskList.erase t }
  let envir ← s.envir task.envir
  let s ← s.when envir.options.rapl fun s => s.cancelRapl t
  s.smonDestroyTask t

/-- The first task of a list that satisfies a condition on its fields, as `list_for_each_entry`
with a `break` finds it. -/
def findTask (s : State) (cond : SmonTask → Bool) : List TaskId → Except Fault (Option TaskId)
  | [] => .ok none
  | t :: ts => do
    let task ← s.task t
    if cond task then return some t else s.findTask cond ts

/-- `smon_sched_unregister_task`: the return value and the state. -/
def smonSchedUnregisterTask (s : State) (pid : Pid) : Except Fault (ℤ × State) := do
  match ← s.findTask (fun task => task.pid = pid) s.taskList with
  | some t => return (0, ← s.smonSchedUnregister t)
  | none => return (-1, s)

/-! ### Tracepoint hooks -/

/-- The task of process `p` in a list. -/
def findProc (s : State) (p : Proc) : List TaskId → Except Fault (Option TaskId) :=
  s.findTask fun task => task.p = some p

/-- `smon_sched_switch`. -/
def smonSchedSwitch (s : State) (prev next : Proc) : Except Fault State := do
  let cpu := s.kernel.cpu prev
  let found ← s.findProc prev (s.cpuList cpu)
  let s ← s.whenFound found fun t s => s.smonSchedTaskOut cpu t
  let found ← s.findProc next (s.cpuList cpu)
  s.whenFound found fun t s => s.smonSchedTaskIn cpu t

/-- `smon_sched_migrate_task`. -/
def smonSchedMigrateTask (s : State) (p : Proc) (destCpu : Cpu) : Except Fault State := do
  let oldCpu := s.kernel.cpu p
  let found ← s.findProc p (s.cpuList oldCpu)
  s.whenFound found fun t s => do
    let s := s.delCpuList oldCpu t
    let task ← s.task t
    let envir ← s.envir task.envir
    let s := if envir.options.cpu then
        let (tsc, s) := s.msrRdtsc
        s.smonSampleWrite task.rb (.cpu ⟨tsc, task.pid, oldCpu, destCpu⟩)
      else s
    return s.addCpuList destCpu t

/-- `smon_sched_process_fork`. -/
def smonSchedProcessFork (s : State) (parent child : Proc) (alloc : Bool) : Except Fault State := do
  let cpu := s.kernel.cpu parent
  let found ← s.findProc parent (s.cpuList cpu)
  s.whenFound found fun t s => do
    let task ← s.task t
    let envir ← s.envir task.envir
    let s ← s.when envir.options.inherit fun s => s.smonSchedRegisterChild t child alloc
    if envir.options.fork then
      let (tsc, s) := s.msrRdtsc
      return s.smonSampleWrite task.rb (.fork ⟨tsc, task.pid, s.kernel.pid child⟩)
    else return s

/-- `smon_sched_process_exec`. -/
def smonSchedProcessExec (s : State) (p : Proc) : Except Fault State := do
  let found ← s.findProc p s.waitList
  s.whenFound found fun t s => do
    let s := s.delWaitList t
    let cpu := s.kernel.cpu p
    let s ← s.startExtra cpu t
    let s ← s.smonSchedTaskIn cpu t
    return s.addCpuList cpu t

/-- `task->p = NULL; smon_release_rb (task->rb); task->rb = NULL`. -/
def leave (s : State) (t : TaskId) : Except Fault State := do
  let task ← s.task t
  match task.rb with
  | none => throw .nullPointer
  | some b => return (s.smonReleaseRb b).setTask t { task with p := none, rb := none }

/-- What `smon_sched_process_exit` does with a task it finds on the list of its CPU. -/
def exitRunning (s : State) (cpu : Cpu) (t : TaskId) : Except Fault State := do
  let task ← s.task t
  let s := s.setTask t { task with timer := hrtimerCancel task.timer }
  let s ← s.smonSampleStop cpu t
  let s ← s.smonSampleSave t
  let s := s.delCpuList cpu t
  let s ← s.leave t
  s.when task.extra.isSome fun s => s.cancelRapl t

/-- What `smon_sched_process_exit` does with a task it finds waiting for an `exec`. -/
def exitWaiting (s : State) (t : TaskId) : Except Fault State := (s.delWaitList t).leave t

/-- `smon_sched_process_exit`. -/
def smonSchedProcessExit (s : State) (p : Proc) : Except Fault State := do
  let cpu := s.kernel.cpu p
  match ← s.findProc p (s.cpuList cpu) with
  | some t => s.exitRunning cpu t
  | none =>
    let found ← s.findProc p s.waitList
    s.whenFound found fun t s => s.exitWaiting t

end State

end SchedMon
