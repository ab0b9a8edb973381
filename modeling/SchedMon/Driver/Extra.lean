import SchedMon.Driver.Turn

/-!
# The extra part of a registered task

A task that a client registers has an extra part, with the RAPL timer and the INFO sample; inherited
tasks have none. Two functions work on it, `start_timer_rapl` and `smon_sched_timer_rapl`, and
`smon_task_extra_start` takes the INFO sample. Everything else leaves it as it is, or takes it away
with its task.

## Main definitions

* `Meter` — the part of it that sampling looks at
* `MeterTurn` — what an event is to the extra part of a task

## Main results

* `exec_meter_turn` — **every event is a turn of the extra part or leaves it as it is**
-/

namespace SchedMon

open State

/-- The part of an extra part that its sampling looks at. -/
structure Meter where
  sample : SampleRapl
  sampleTime : U32
  on : Bool
  cpu : Cpu
  info : SampleInfo
  rb : RbId

/-- The part of an extra part that its sampling looks at. -/
def SmonTaskExtra.meter (extra : SmonTaskExtra) : Meter :=
  ⟨extra.raplSample, extra.raplSampleTime, extra.timerFlags, extra.raplTimer.cpu, extra.infoSample,
    extra.rb⟩

/-- The meter of a task, if it has an extra part. -/
def SmonTask.meter? (task : SmonTask) : Option Meter := task.extra.map SmonTaskExtra.meter

/-- The meters of all tasks. -/
def State.meters (s : State) (t : TaskId) : Option Meter := (s.tasks t).bind SmonTask.meter?

/-- An INFO sample that has not been taken yet. -/
def SampleInfo.blank : SampleInfo := ⟨0, 0, 0, 0, 0, 0, 0, 0, 0⟩

/-- The INFO sample tells that sample time, for both kinds of samples. -/
structure SampleInfo.Tells (info : SampleInfo) (sampleTime : U32) : Prop where
  pmc : info.pmcSampleTime = sampleTime
  rapl : info.raplSampleTime = sampleTime

section Meters

variable {s s' : State} {t u : TaskId} {me : Cpu} {task task' : SmonTask} {p : Proc}

/-! ### Looking -/

theorem meters_of_tasks (h : s.tasks t = some task) : s.meters t = task.meter? := by
  simp only [meters, h, Option.bind_some]

theorem meters_eq_some {m : Meter} : s.meters t = some m ↔ ∃ task extra, s.tasks t = some task ∧
    task.extra = some extra ∧ extra.meter = m := by
  simp only [meters, SmonTask.meter?, Option.bind_eq_some_iff, Option.map_eq_some_iff]
  constructor
  · rintro ⟨task, htask, extra, hextra, hm⟩
    exact ⟨task, extra, htask, hextra, hm⟩
  · rintro ⟨task, extra, htask, hextra, hm⟩
    exact ⟨task, htask, extra, hextra, hm⟩

theorem meters_congr (h : s'.tasks = s.tasks) : s'.meters = s.meters := by
  funext u
  simp only [meters, h]

/-- Writing a task back with its meter as it was. -/
theorem meters_setTask (htask : s.tasks t = some task) (h : task'.meter? = task.meter?) :
    (s.setTask t task').meters = s.meters := by
  funext u
  by_cases hu : u = t
  · subst hu
    simp only [meters, setTask, Function.update_self, Option.bind_some, htask, h]
  · simp only [meters, setTask, Function.update_of_ne hu]

theorem Call.meters {es : List TraceEvent} {ws : List Sample} {qs : List Irq}
    (h : Call t me task task' es ws qs s s') (hextra : task'.extra = task.extra) :
    s'.meters = s.meters := by
  have hset : (s.setTask t task').meters = s.meters :=
    meters_setTask h.before (congrArg (Option.map SmonTaskExtra.meter) hextra)
  rw [← hset]
  exact meters_congr h.tasks

/-! ### Functions that leave the extra part alone -/

theorem SmonTask.entered_extra (task : SmonTask) (envir : SmonEnvir) (me : Cpu) (tsc : ℤ) :
    (task.entered envir me tsc).extra = task.extra := by
  unfold SmonTask.entered
  split <;> rfl

theorem SmonTask.left_extra (task : SmonTask) (envir : SmonEnvir) (now tsc : ℤ) :
    (task.left envir now tsc).extra = task.extra := by
  have hkept : (task.kept envir now).extra = task.extra := by
    unfold SmonTask.kept
    dsimp only
    split <;> rfl
  unfold SmonTask.left SmonTask.schedOut
  split
  · exact hkept
  · exact hkept

theorem meters_startTimerPmc (h : s.startTimerPmc me t = .ok s') : s'.meters = s.meters := by
  obtain ⟨task, envir, -, -, ⟨-, hcall⟩ | ⟨evset, -, hcall⟩⟩ := call_start h
  · exact hcall.meters rfl
  · exact hcall.meters rfl

theorem meters_stopTimerPmc (h : s.stopTimerPmc t = .ok s') : s'.meters = s.meters := by
  obtain ⟨task, -, hcall, -⟩ := call_stopTimerPmc 0 h
  exact hcall.meters rfl

theorem meters_smonSchedTaskIn (h : s.smonSchedTaskIn me t = .ok s') : s'.meters = s.meters := by
  obtain ⟨task, envir, -, -, ⟨-, hcall, -⟩ | ⟨-, ⟨-, hcall⟩ | ⟨evset, n, -, -, -, hcall⟩⟩⟩ :=
    call_in h
  · exact hcall.meters (task.entered_extra ..)
  · exact hcall.meters (task.entered_extra ..)
  · exact hcall.meters (task.entered_extra ..)

theorem meters_smonSchedTaskOut (h : s.smonSchedTaskOut me t = .ok s') : s'.meters = s.meters := by
  obtain ⟨task, envir, evset, tsc, pmc, -, -, -, -, -, hoff, hon⟩ := call_out h
  cases hactive : task.timer.active with
  | false => exact (hoff hactive).meters rfl
  | true => exact (hon hactive).1.meters ((task.stopped tsc pmc).left_extra ..)

theorem meters_smonSchedTimerTick (h : s.smonSchedTimerTick t = .ok s') : s'.meters = s.meters := by
  obtain ⟨task, htask, -⟩ := bind_eq_ok.mp h
  rw [task_eq_ok] at htask
  cases hflags : task.timerFlags with
  | false => exact (call_smonSchedTimerTick_off 0 htask hflags h).1.meters rfl
  | true =>
    obtain ⟨envir, evset, tsc, pmc, next, -, -, -, -, -, rfl, ⟨-, hcall⟩ | ⟨evset', -, -, hcall⟩⟩ :=
      call_tick htask hflags h
    · exact hcall.meters rfl
    · exact hcall.meters rfl

theorem meters_setExtra {extra extra' : SmonTaskExtra} {s₁ : State}
    (hextra : s.extra t = .ok extra) (htasks : s₁.tasks = s.tasks)
    (hmeter : extra'.meter = extra.meter) (h : s₁.setExtra t extra' = .ok s') :
    s'.meters = s.meters := by
  obtain ⟨task, htask, hx⟩ := extra_eq_ok.mp hextra
  obtain ⟨task₁, htask₁, rfl⟩ := setExtra_eq_ok.mp h
  obtain rfl := Option.some_inj.mp (htask₁.symm.trans ((congrFun htasks t).trans htask))
  rw [meters_setTask htask₁ (by simp [SmonTask.meter?, hx, hmeter]), meters_congr htasks]

theorem meters_cancelRapl (h : s.cancelRapl t = .ok s') : s'.meters = s.meters := by
  obtain ⟨extra, hextra, hset⟩ := bind_eq_ok.mp h
  exact meters_setExtra hextra rfl (by rfl) hset

theorem meters_leave (h : s.leave t = .ok s') : s'.meters = s.meters := by
  obtain ⟨task, b, htask, -, rfl⟩ := leave_eq_ok.mp h
  have htasks : (s.smonReleaseRb b).tasks = s.tasks := by
    unfold smonReleaseRb
    dsimp only
    split <;> rfl
  exact (meters_setTask ((congrFun htasks t).trans htask) (by rfl)).trans (meters_congr htasks)

/-- Writing the extra part of one task leaves those of the others alone. -/
theorem meters_setExtra_of_ne {extra : SmonTaskExtra} (hu : u ≠ t)
    (h : s.setExtra t extra = .ok s') : s'.meters u = s.meters u := by
  obtain ⟨task, -, rfl⟩ := setExtra_eq_ok.mp h
  simp only [meters, setTask, Function.update_of_ne hu]

theorem meters_startTimerRapl_of_ne (hu : u ≠ t) (h : s.startTimerRapl me t = .ok s') :
    s'.meters u = s.meters u := by
  obtain ⟨extra, -, h⟩ := bind_eq_ok.mp h
  exact meters_setExtra_of_ne (s := s.msrRdtsc.2) hu h

theorem meters_smonSchedTimerRapl_of_ne (hu : u ≠ t) (h : s.smonSchedTimerRapl t = .ok s') :
    s'.meters u = s.meters u := by
  obtain ⟨extra, -, h⟩ := bind_eq_ok.mp h
  dsimp only at h
  split at h
  · exact (meters_setExtra_of_ne hu h).trans rfl
  · exact meters_setExtra_of_ne hu h

/-! ### RAPL sampling -/

theorem meters_setExtra_self {extra : SmonTaskExtra} (h : s.setExtra t extra = .ok s') :
    s'.meters t = some extra.meter := by
  obtain ⟨task, -, rfl⟩ := setExtra_eq_ok.mp h
  simp only [meters, setTask, Function.update_self, Option.bind_some]
  rfl

/-- The RAPL timer starts, and with it a sample. -/
theorem meter_startTimerRapl (h : s.startTimerRapl me t = .ok s') : ∃ m, s.meters t = some m ∧
    s'.meters t = some { m with
      on := true, cpu := me, sample := (s.smonSampleRaplStart me m.sample).1 } := by
  obtain ⟨extra, hextra, hset⟩ := bind_eq_ok.mp h
  obtain ⟨task, htask, hx⟩ := extra_eq_ok.mp hextra
  exact ⟨extra.meter, meters_eq_some.mpr ⟨task, extra, htask, hx, rfl⟩,
    (meters_setExtra_self hset).trans rfl⟩

theorem SmonTaskExtra.meter_forwarded (extra : SmonTaskExtra) (sample : SampleRapl) (now kt : ℤ) :
    ({ extra with raplSample := sample, raplTimer := hrtimerForward extra.raplTimer now kt } :
      SmonTaskExtra).meter = { extra.meter with sample := sample } := by
  simp only [SmonTaskExtra.meter, hrtimerForward_cpu]

/-- The RAPL timer ticks: a sample is stopped and written, and the next one starts, unless the timer
is off. -/
theorem meter_smonSchedTimerRapl (h : s.smonSchedTimerRapl t = .ok s') : ∃ m,
    s.meters t = some m ∧ (m.on = false ∧ s'.meters t = some m ∨
      m.on = true ∧ ∃ sample, s'.meters t = some { m with sample := sample }) := by
  obtain ⟨extra, hextra, hset⟩ := bind_eq_ok.mp h
  obtain ⟨task, htask, hx⟩ := extra_eq_ok.mp hextra
  refine ⟨extra.meter, meters_eq_some.mpr ⟨task, extra, htask, hx, rfl⟩, ?_⟩
  dsimp only at hset
  split at hset
  · rename_i hon
    exact .inr ⟨hon, _, (meters_setExtra_self hset).trans
      (congrArg some (extra.meter_forwarded ..))⟩
  · rename_i hoff
    exact .inl ⟨Bool.eq_false_iff.mpr hoff, (meters_setExtra_self hset).trans rfl⟩

/-! ### Taking the INFO sample -/

/-- Starting the extra part of a task takes its INFO sample and writes it. -/
theorem meters_startExtra {m : Meter} (hm : s.meters t = some m) (h : s.startExtra me t = .ok s') :
    ∃ task envir info, s.tasks t = some task ∧ s.envirs task.envir = some envir ∧
      SampleInfo.Tells info envir.sampleTime ∧
      s'.meters = Function.update s.meters t (some { m with info := info }) := by
  obtain ⟨task, extra, htask, hextra, rfl⟩ := meters_eq_some.mp hm
  simp only [startExtra, bind_eq_ok, task_eq_ok, when_eq_ok] at h
  obtain ⟨task₁, htask₁, hwhen⟩ := h
  obtain rfl := Option.some_inj.mp (htask₁.symm.trans htask)
  rcases hwhen with ⟨hnone, -⟩ | ⟨-, h⟩
  · simp [hextra] at hnone
  simp only [smonTaskExtraStart, bind_eq_ok, task_eq_ok, envir_eq_ok] at h
  obtain ⟨task₂, htask₂, extra₁, hextra₁, envir, henvir, s₁, hset, h⟩ := h
  obtain rfl := Option.some_inj.mp (htask₂.symm.trans htask)
  obtain ⟨task₃, htask₃, hx⟩ := extra_eq_ok.mp hextra₁
  obtain rfl := Option.some_inj.mp (htask₃.symm.trans htask)
  obtain rfl := Option.some_inj.mp (hx.symm.trans hextra)
  obtain ⟨task₄, htask₄, rfl⟩ := setExtra_eq_ok.mp hset
  obtain rfl : task₄ = task₃ := Option.some_inj.mp (htask₄.symm.trans htask)
  refine ⟨task₄, envir, (s.smonSampleGetInfo me envir).1, htask, henvir, ⟨rfl, rfl⟩, ?_⟩
  have hlast : s'.tasks = Function.update s.tasks t
      (some { task₄ with extra := some { extra₁ with
        infoSample := (s.smonSampleGetInfo me envir).1 } }) := by
    split at h
    · rw [← pure_eq_ok.mp h, tasks_irqWorkQueue]
      rfl
    · rw [← pure_eq_ok.mp h]
      rfl
  funext u
  by_cases hu : u = t
  · subst hu
    simp only [meters, hlast, Function.update_self, Option.bind_some]
    rfl
  · simp only [meters, hlast, Function.update_of_ne hu]

end Meters

/-! ### Turns -/

/-- What an event is to the extra part of task `u`. -/
inductive MeterTurn (u : TaskId) (s : State) : Label → State → Prop
  | same {l : Label} {s' : State} (h : s'.meters u = s.meters u) : MeterTurn u s l s'
  | start {me : Cpu} {s' : State} (h : ({ s with
      irqs := s.irqs.erase (me, .startRapl u) } : State).startTimerRapl me u = .ok s') :
      MeterTurn u s (.irq me (.startRapl u)) s'
  | tick {s' : State} (h : s.smonSchedTimerRapl u = .ok s') : MeterTurn u s (.raplTick u) s'
  | info {l : Label} {s' : State} {task : SmonTask} {envir : SmonEnvir} {m : Meter}
      {info : SampleInfo} (htask : s.tasks u = some task)
      (henvir : s.envirs task.envir = some envir) (hm : s.meters u = some m)
      (hinfo : info.Tells envir.sampleTime) (h : s'.meters u = some { m with info := info }) : MeterTurn u s l s'
  | new {me : Cpu} {pid : Pid} {envir : SmonEnvir} {b : RbId} {alloc : Alloc} {s' : State}
      {info : SampleInfo} (hu : u = s.fresh)
      (hinfo : info = .blank ∨ info.Tells (smonCreateEnvir envir).sampleTime)
      (h : s'.meters u =
        some { (smonTaskExtraCreate (smonCreateEnvir envir) b).meter with info := info }) :
      MeterTurn u s (.register me pid envir b alloc) s'
  | gone {l : Label} {s' : State} (h : s'.meters u = none) : MeterTurn u s l s'

section Turns

variable {s s' : State} {t u : TaskId} {me : Cpu} {p : Proc} {ring : TaskId → List TaskId}

theorem meter_turn_irq {w : Irq} (u : TaskId) (h : s.exec (.irq me w) = .ok s') :
    MeterTurn u s (.irq me w) s' := by
  change ({ s with irqs := s.irqs.erase (me, w) } : State).runIrq me w = .ok s' at h
  cases w with
  | startTimer t => exact .same (congrFun (meters_startTimerPmc h) u)
  | stopTimer t => exact .same (congrFun (meters_stopTimerPmc h) u)
  | startRapl t =>
    by_cases hu : u = t
    · subst hu
      exact .start h
    · have hstart : ({ s with irqs := s.irqs.erase (me, .startRapl t) } : State).startTimerRapl me t
          = .ok s' := h
      exact .same ((meters_startTimerRapl_of_ne hu hstart).trans rfl)

theorem meter_turn_raplTick (u : TaskId) (h : s.exec (.raplTick t) = .ok s') :
    MeterTurn u s (.raplTick t) s' := by
  by_cases hu : u = t
  · subst hu
    exact .tick h
  · exact .same (meters_smonSchedTimerRapl_of_ne hu h)

theorem meters_switch {next : Proc} (h : s.exec (.switch me next) = .ok s') :
    s'.meters = s.meters := by
  obtain ⟨s₂, hswitch, hs⟩ := bind_eq_ok.mp h
  cases hs
  obtain ⟨mid, hout, hin⟩ := switch_cases hswitch
  have hmid : mid.meters = s.meters := by
    rcases hout with ⟨-, rfl⟩ | ⟨t, -, hout⟩
    · rfl
    · exact meters_smonSchedTaskOut hout
  have hlast : s₂.meters = mid.meters := by
    rcases hin with ⟨-, rfl⟩ | ⟨t, -, hin⟩
    · rfl
    · exact meters_smonSchedTaskIn hin
  exact hlast.trans hmid

theorem meters_migrate {dest : Cpu} (h : s.exec (.migrate p dest) = .ok s') :
    s'.meters = s.meters := by
  obtain ⟨s₁, hmigrate, hs⟩ := bind_eq_ok.mp h
  cases hs
  simp only [smonSchedMigrateTask, bind_eq_ok, whenFound_eq_ok] at hmigrate
  obtain ⟨found, -, ⟨rfl, rfl⟩ | ⟨t, rfl, hmigrate⟩⟩ := hmigrate
  · rfl
  simp only [pure_eq_ok] at hmigrate
  obtain ⟨task, -, envir, -, rfl⟩ := hmigrate
  split
  · have hdel : (s.delCpuList (s.kernel.cpu p) t).msrRdtsc.2.tasks = s.tasks := rfl
    exact meters_congr ((tasks_smonSampleWrite ..).trans hdel)
  · rfl

/-- The new task of a fork has no extra part, and the others keep theirs. -/
theorem meters_childAdded (hnone : s.tasks s.fresh = none) (h : ChildAdded s t p s') :
    s'.meters = s.meters := by
  obtain ⟨task, b, envir, s₁, task₁, -, -, -, hadd, htask₁, rfl⟩ := h.add
  simp only [addChild, bind_eq_ok, pure_eq_ok] at hadd
  obtain ⟨next, -, -, -, rfl⟩ := hadd
  have htasks : (s.newChild p task.envir envir b).tasks = Function.update s.tasks s.fresh
      (some (newTask p (s.kernel.pid p) task.envir b none)) := rfl
  have hnew : (s.newChild p task.envir envir b).meters = s.meters := by
    funext u
    by_cases hu : u = s.fresh
    · subst hu
      simp only [meters, htasks, hnone, Function.update_self]
      rfl
    · simp only [meters, htasks, Function.update_of_ne hu]
  rw [← hnew]
  change (State.setTask _ t { task₁ with nChildren := task₁.nChildren + 1 }).meters = _
  exact (meters_setTask htask₁ (by rfl)).trans (meters_congr rfl)

theorem meters_fork {parent child : Proc} {pid : Pid} {cpu : Cpu} {leader alloc : Bool}
    (hforest : Forest s.book ring) (h : s.exec (.fork parent child pid cpu leader alloc) = .ok s') :
    s'.meters = s.meters := by
  simp only [State.exec, smonSchedProcessFork, bind_eq_ok, whenFound_eq_ok] at h
  obtain ⟨found, -, ⟨rfl, rfl⟩ | ⟨t, rfl, h⟩⟩ := h
  · rfl
  obtain ⟨task, -, envir, -, s₁, hinherit, h⟩ := h
  have hrecord : s'.meters = s₁.meters := by
    split at h
    · rw [← pure_eq_ok.mp h]
      exact meters_congr (tasks_smonSampleWrite (s := s₁.msrRdtsc.2) ..)
    · rw [← pure_eq_ok.mp h]
  rw [hrecord]
  rcases when_eq_ok.mp hinherit with ⟨-, rfl⟩ | ⟨-, hregister⟩
  · rfl
  rcases registerChild_cases hregister with ⟨-, rfl⟩ | ⟨-, hadd⟩
  · rfl
  · have hnone : s.tasks s.fresh = none := by
      by_contra hlive
      obtain ⟨x, hx⟩ := Option.ne_none_iff_exists'.mp hlive
      exact Nat.lt_irrefl _ (hforest.bound _ x.core (entry_of_tasks hx))
    have hsame := meters_childAdded (by exact hnone) hadd
    exact hsame.trans rfl

theorem meter_turn_exec (u : TaskId) (h : s.exec (.exec p) = .ok s') :
    MeterTurn u s (.exec p) s' := by
  rcases exec_cases h with ⟨-, rfl⟩ | ⟨t, s₁, s₂, -, hextra, hin, rfl⟩
  · exact .same rfl
  have hlast : s₂.meters = s₁.meters := meters_smonSchedTaskIn hin
  cases hm : s.meters t with
  | none =>
    have hsame : s₁.meters = s.meters := by
      simp only [startExtra, bind_eq_ok, task_eq_ok, when_eq_ok] at hextra
      obtain ⟨task, htask, ⟨-, rfl⟩ | ⟨hsome, -⟩⟩ := hextra
      · rfl
      · have hnone := (meters_of_tasks (s := s) htask).symm.trans hm
        obtain ⟨x, hx⟩ := Option.isSome_iff_exists.mp hsome
        simp [SmonTask.meter?, hx] at hnone
    exact .same (congrFun (hlast.trans hsame) u)
  | some m =>
    obtain ⟨task, envir, info, htask, henvir, hinfo, hmeters⟩ :=
      meters_startExtra (s := s.delWaitList t) hm hextra
    have hall : s₂.meters = Function.update s.meters t (some { m with info := info }) :=
      hlast.trans hmeters
    by_cases hu : u = t
    · subst hu
      exact .info htask henvir hm hinfo ((congrFun hall u).trans (Function.update_self ..))
    · exact .same ((congrFun hall u).trans (Function.update_of_ne hu ..))

theorem meters_exit (h : s.exec (.exit p) = .ok s') : s'.meters = s.meters := by
  rcases exit_cases h with ⟨-, -, rfl⟩ | ⟨t, s₁, s₂, hexit⟩ | ⟨t, hexit⟩
  · rfl
  · obtain ⟨-, ⟨task, s₀, htask, hstop, hsave⟩, hleave, ⟨task', -, hcancel⟩⟩ := hexit
    obtain ⟨envir, evset, tsc, pmc, -, -, -, -, -, hcall⟩ := call_exit htask hstop hsave
    have hsample : s₁.meters = s.meters := hcall.meters rfl
    have hleft : s₂.meters = s₁.meters := (meters_leave hleave).trans rfl
    have hlast : s'.meters = s₂.meters := by
      rcases when_eq_ok.mp hcancel with ⟨-, rfl⟩ | ⟨-, hcancel⟩
      · rfl
      · exact meters_cancelRapl hcancel
    rw [hlast, hleft, hsample]
  · exact (meters_leave hexit.leave).trans rfl

theorem meter_turn_register {pid : Pid} {envir : SmonEnvir} {b : RbId} {alloc : Alloc} (u : TaskId)
    (h : s.exec (.register me pid envir b alloc) = .ok s') :
    MeterTurn u s (.register me pid envir b alloc) s' := by
  obtain ⟨⟨ret, s₁⟩, hregister, hs⟩ := bind_eq_ok.mp h
  cases hs
  rcases register_cases hregister with ⟨-, -, rfl⟩ | ⟨-, -, s₀, rfl, hwait, hstart⟩
  · exact .same rfl
  -- the new task, before its extra part is started
  let new := (smonTaskExtraCreate (smonCreateEnvir envir) b).meter
  obtain ⟨hset, htasks, hfresh⟩ := aside_setBatch u s envir b
  have hroot : (s.newRoot pid envir b).tasks = Function.update s.tasks s.fresh
      (some (newTask (s.kernel.forEachProcess pid) pid s.fresh b
        (some (smonTaskExtraCreate (smonCreateEnvir envir) b)))) := by
    simp only [State.newRoot, State.install, htasks, hfresh]
  have hbase : (s.newRoot pid envir b).meters = Function.update s.meters s.fresh (some new) := by
    funext v
    by_cases hv : v = s.fresh
    · subst hv
      simp only [meters, hroot, Function.update_self, Option.bind_some]
      rfl
    · simp only [meters, hroot, Function.update_of_ne hv]
  cases hexec : envir.options.onExec with
  | true =>
    rw [hwait hexec]
    have hall : (({ s.newRoot pid envir b with
        taskList := s.fresh :: (s.newRoot pid envir b).taskList } : State).addWaitList
          s.fresh).meters = Function.update s.meters s.fresh (some new) := hbase
    by_cases hu : u = s.fresh
    · subst hu
      exact .new rfl (.inl rfl) ((congrFun hall _).trans (Function.update_self ..))
    · exact .same ((congrFun hall u).trans (Function.update_of_ne hu ..))
  | false =>
    obtain ⟨s₂, hextra, rfl⟩ := hstart hexec
    generalize hx : ({ s.newRoot pid envir b with
      taskList := s.fresh :: (s.newRoot pid envir b).taskList } : State) = x at hextra
    have hxtasks : x.tasks = (s.newRoot pid envir b).tasks := by rw [← hx]
    have hxenvirs : x.envirs s.fresh = some (smonCreateEnvir envir) := by
      rw [← hx]
      exact Function.update_self ..
    have hxmeters : x.meters = Function.update s.meters s.fresh (some new) :=
      (meters_congr hxtasks).trans hbase
    obtain ⟨task, envir', info, htask, henvir, hinfo, hmeters⟩ :=
      meters_startExtra ((congrFun hxmeters s.fresh).trans (Function.update_self ..)) hextra
    rw [hxmeters, Function.update_idem] at hmeters
    by_cases hu : u = s.fresh
    · subst hu
      refine .new rfl (.inr ?_) ((congrFun hmeters _).trans (Function.update_self ..))
      rw [hxtasks, hroot, Function.update_self, Option.some_inj] at htask
      subst htask
      obtain rfl := Option.some_inj.mp (henvir.symm.trans hxenvirs)
      exact hinfo
    · exact .same ((congrFun hmeters u).trans (Function.update_of_ne hu ..))

theorem meter_turn_unregister {pid : Pid} (hforest : Forest s.book ring) (u : TaskId)
    (h : s.exec (.unregister pid) = .ok s') : MeterTurn u s (.unregister pid) s' := by
  obtain ⟨⟨ret, s₁⟩, hunregister, hs⟩ := bind_eq_ok.mp h
  cases hs
  simp only [smonSchedUnregisterTask, bind_eq_ok] at hunregister
  obtain ⟨found, hfound, hunregister⟩ := hunregister
  cases found with
  | none =>
    cases hunregister
    exact .same rfl
  | some r =>
    obtain ⟨hr, -⟩ := findTask_some hfound
    obtain ⟨s₂, hs₂, hun⟩ := hforest.unregister hr
    simp only [hs₂, bind, Except.bind, pure, Except.pure, Except.ok.injEq, Prod.mk.injEq]
      at hunregister
    obtain ⟨-, rfl⟩ := hunregister
    by_cases hu : u ∈ r :: ring r
    · exact .gone (by simp only [meters, hun.tasks, if_pos hu, Option.bind_none])
    · exact .same (by simp only [meters, hun.tasks, if_neg hu])

/-- **Every event is a turn of the extra part or leaves it as it is.** -/
theorem exec_meter_turn {l : Label} (hforest : Forest s.book ring) (u : TaskId)
    (h : s.exec l = .ok s') : MeterTurn u s l s' := by
  cases l with
  | time d =>
    cases h
    exact .same rfl
  | count me ctr inc =>
    cases h
    exact .same rfl
  | irq me w => exact meter_turn_irq u h
  | tick t => exact .same (congrFun (meters_smonSchedTimerTick h) u)
  | raplTick t => exact meter_turn_raplTick u h
  | switch me next => exact .same (congrFun (meters_switch h) u)
  | migrate p dest => exact .same (congrFun (meters_migrate h) u)
  | fork parent child pid cpu leader alloc => exact .same (congrFun (meters_fork hforest h) u)
  | exec p => exact meter_turn_exec u h
  | exit p => exact .same (congrFun (meters_exit h) u)
  | reap p =>
    cases h
    exact .same rfl
  | register me pid envir b alloc => exact meter_turn_register u h
  | unregister pid => exact meter_turn_unregister hforest u h

end Turns

end SchedMon
