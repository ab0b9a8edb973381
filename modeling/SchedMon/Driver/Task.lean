import SchedMon.Driver.Sample

/-!
# Tasks and environments

`driver/task.c`, `driver/envir.c`, and the reference count of `driver/rb.c`: how a `struct
smon_task` comes into being, registered by a user or inherited, and how it goes.

Allocations may fail; which ones do is an argument.

## Main definitions

* `State.smonCreateTask`, `State.smonCreateChild`, `State.smonDestroyTask`
* `smonCreateEnvir`, `State.smonReleaseEnvir`
* `State.smonGetRb`, `State.smonReleaseRb`
-/

namespace SchedMon

/-- Which of the allocations of a registration succeed. -/
structure Alloc where
  task : Bool
  envir : Bool
  extra : Bool

/-- `smon_create_envir`, when the allocation succeeds. -/
def smonCreateEnvir (envir : SmonEnvir) : SmonEnvir :=
  let new := { envir with
    sampleTime := if 0 < envir.sampleTime then envir.sampleTime else defaultSampleTime
    count := 1 }
  if new.options.stat then
    { new with
      nEsids := 1
      options := { new.options with rapl := false, cpu := false, fork := false, sched := false } }
  else new

/-- `smon_task_extra_create`, when the allocation succeeds. -/
def smonTaskExtraCreate (envir : SmonEnvir) (rb : RbId) : SmonTaskExtra where
  raplSample := ⟨0, 0, ⟨0, 0, 0⟩⟩
  raplSampleTime := envir.sampleTime
  raplTimer := hrtimerInit
  timerFlags := false
  infoSample := ⟨0, 0, 0, 0, 0, 0, 0, 0, 0⟩
  rb := rb

/-- The fields that `smon_create_task` and `smon_create_child` set alike, in zeroed memory. -/
def newTask (p : Proc) (pid : Pid) (envir : EnvirId) (rb : RbId) (extra : Option SmonTaskExtra) :
    SmonTask where
  p := some p
  pid := pid
  envir := envir
  nChildren := 0
  rb := some rb
  evset := 0
  samplePmc := { SamplePmc.zero with pid := pid }
  tscTmp := 0
  timer := hrtimerInit
  ktRemain := 0
  timerFlags := false
  sampleSched := ⟨0, 0, pid, 0⟩
  extra := extra

namespace State

/-! ### Reference counts -/

/-- `smon_get_rb`. -/
def smonGetRb (s : State) (b : RbId) : State :=
  { s with rbs := Function.update s.rbs b { s.rbs b with active := (s.rbs b).active + 1 } }

/-- `smon_release_rb`. -/
def smonReleaseRb (s : State) (b : RbId) : State :=
  let s := { s with rbs := Function.update s.rbs b { s.rbs b with active := (s.rbs b).active - 1 } }
  if (s.rbs b).active = 0 then s.smonRbWrite b .eof else s

/-- Writing an environment back. -/
def setEnvir (s : State) (e : EnvirId) (envir : SmonEnvir) : State :=
  { s with envirs := Function.update s.envirs e (some envir) }

/-- `smon_get_envir`. -/
def smonGetEnvir (s : State) (e : EnvirId) : Except Fault State := do
  let envir ← s.envir e
  return s.setEnvir e { envir with count := envir.count + 1 }

/-- `smon_release_envir`. -/
def smonReleaseEnvir (s : State) (e : EnvirId) : Except Fault State := do
  let envir ← s.envir e
  let envir := { envir with count := envir.count - 1 }
  if envir.count = 0 then
    return { s with envirs := Function.update s.envirs e none }.record (.freeEnvir e)
  else return s.setEnvir e envir

/-! ### Creation -/

/-- `if (envir->batch_size > 0) new->rb->batch = envir->batch_size`. -/
def setBatch (s : State) (b : RbId) (batchSize : U32) : State :=
  if 0 < batchSize then
    { s with rbs := Function.update s.rbs b { s.rbs b with batch := batchSize } }
  else s

/-- A task at the next free address, and `INIT_LIST_HEAD` on its `children` node. -/
def install (s : State) (task : SmonTask) : State :=
  { s with
    fresh := s.fresh + 1
    children := s.children.init s.fresh
    tasks := Function.update s.tasks s.fresh (some task) }

/-- `smon_create_task`. A task and its environment have the same address here. -/
def smonCreateTask (s : State) (pid : Pid) (envir : SmonEnvir) (b : RbId) (alloc : Alloc) :
    Except Fault (Option TaskId × State) :=
  let p := s.kernel.forEachProcess pid
  if !alloc.task then return (none, s)
  else if !alloc.envir then return (none, s)
  else
    let new := smonCreateEnvir envir
    let s := (s.smonGetRb b).setBatch b envir.batchSize
    -- `smon_task_extra_create` uses the memory it asked for without a check
    if !alloc.extra then throw .nullPointer
    else
      let extra := smonTaskExtraCreate new b
      return (some s.fresh, (s.setEnvir s.fresh new).install (newTask p pid s.fresh b (some extra)))

/-- `smon_create_child`. -/
def smonCreateChild (s : State) (parent : TaskId) (p : Proc) (alloc : Bool) :
    Except Fault (Option TaskId × State) :=
  if !alloc then return (none, s)
  else do
    let task ← s.task parent
    match task.rb with
    | none => throw .nullPointer
    | some b =>
      let s ← (s.smonGetRb b).smonGetEnvir task.envir
      return (some s.fresh, s.install (newTask p (s.kernel.pid p) task.envir b none))

/-! ### Destruction -/

/-- `if (task->rb) smon_release_rb (task->rb)`. -/
def releaseTaskRb (s : State) (task : SmonTask) : State :=
  match task.rb with
  | some b => s.smonReleaseRb b
  | none => s

/-- `smon_destroy_task`. The extra part is freed with its task; its timer goes with it. -/
def smonDestroyTask (s : State) (t : TaskId) : Except Fault State := do
  let task ← s.task t
  let s ← (s.releaseTaskRb task).smonReleaseEnvir task.envir
  return { s with tasks := Function.update s.tasks t none }.record (.destroy t)

/-! ### The `children` node -/

/-- The node behind that of task `t`. -/
def nextChild (s : State) (t : TaskId) : Except Fault TaskId := do
  let _ ← s.task t
  return s.children.next t

/-- `list_add (&child->children, &parent->children)`. -/
def addChild (s : State) (child parent : TaskId) : Except Fault State := do
  let next ← s.nextChild parent
  let _ ← s.task next
  return { s with children := s.children.add child parent }.record (.child parent child)

/-- `list_del (&child->children)`. -/
def delChild (s : State) (child : TaskId) : Except Fault State := do
  let next ← s.nextChild child
  let _ ← s.task next
  let _ ← s.task (s.children.prev child)
  return { s with children := s.children.del child }

end State

end SchedMon
