import SchedMon.Driver.Step
import SchedMon.Lib.Fallible

/-!
# What sampling leaves alone

Most of what a hook does is sampling: programming counters, moving numbers between them and the
task, arming timers, writing records. None of it touches the lists, the reference counts, or who a
task belongs to. `Quiet K t s s'` says that once for everything a function does on behalf of task
`t`: other tasks are untouched, `t` stays whose it is, only records that satisfy `K` are written,
and only interrupts of `t` are queued.

## Main definitions

* `State.static` — the part of the state sampling never touches
* `Quiet` — the frame of sampling

## Main results

* one lemma for each function of `sample.c` and for each timer function of `sched.c`
-/

namespace SchedMon

/-- The task an interrupt belongs to. -/
def Irq.task : Irq → TaskId
  | startTimer t => t
  | stopTimer t => t
  | startRapl t => t

/-- The records that come between INFO and EOF. -/
def Sample.Middle (sample : Sample) : Prop := sample.type ≠ .info ∧ sample.type ≠ .eof

/-- Is this about tasks coming and going, rather than about samples? -/
def TraceEvent.isBook : TraceEvent → Bool
  | child _ _ => true
  | destroy _ => true
  | freeEnvir _ => true
  | _ => false

/-- What a task is to the bookkeeping: its core, and the buffer of its extra part. -/
def SmonTask.core (task : SmonTask) : TaskCore × Option RbId :=
  (task.toTaskCore, task.extra.map SmonTaskExtra.rb)

/-- The part of the state that sampling never touches. -/
structure Static where
  kernel : Kernel
  now : ℤ
  clock : ℕ → ℤ
  events : List SmonEvent
  evsets : List SmonEvset
  envirs : EnvirId → Option SmonEnvir
  fresh : ℕ
  taskList : List TaskId
  waitList : List TaskId
  cpuList : Cpu → List TaskId
  children : Links TaskId

namespace State

/-- The part of the state that sampling never touches. -/
def static (s : State) : Static where
  kernel := s.kernel
  now := s.now
  clock := s.clock
  events := s.events
  evsets := s.evsets
  envirs := s.envirs
  fresh := s.fresh
  taskList := s.taskList
  waitList := s.waitList
  cpuList := s.cpuList
  children := s.children

end State

open State

/-- What sampling on behalf of task `t` may change. -/
structure Quiet (K : Sample → Prop) (t : TaskId) (s s' : State) : Prop where
  static : s'.static = s.static
  others : ∀ u, u ≠ t → s'.tasks u = s.tasks u
  core : (s'.tasks t).map SmonTask.core = (s.tasks t).map SmonTask.core
  active : ∀ b, (s'.rbs b).active = (s.rbs b).active
  log : ∀ b, ∃ l, (s'.rbs b).log = (s.rbs b).log ++ l ∧ ∀ x ∈ l, K x
  irqs : ∀ c w, (c, w) ∈ s'.irqs → (c, w) ∈ s.irqs ∨ w.task = t
  history : s'.trace.filter TraceEvent.isBook = s.trace.filter TraceEvent.isBook

namespace Quiet

variable {K K' : Sample → Prop} {t : TaskId} {s s' s'' : State}

theorem refl (K : Sample → Prop) (t : TaskId) (s : State) : Quiet K t s s :=
  ⟨rfl, fun _ _ => rfl, rfl, fun _ => rfl, fun _ => ⟨[], by simp⟩, fun _ _ h => .inl h, rfl⟩

theorem trans (h : Quiet K t s s') (h' : Quiet K t s' s'') : Quiet K t s s'' := by
  refine ⟨h'.static.trans h.static, fun u hu => (h'.others u hu).trans (h.others u hu),
    h'.core.trans h.core, fun b => (h'.active b).trans (h.active b), fun b => ?_, fun c w hw => ?_,
    h'.history.trans h.history⟩
  · obtain ⟨l, hl, hK⟩ := h.log b
    obtain ⟨l', hl', hK'⟩ := h'.log b
    refine ⟨l ++ l', by rw [hl', hl, List.append_assoc], fun x hx => ?_⟩
    exact (List.mem_append.mp hx).elim (hK x) (hK' x)
  · exact (h'.irqs c w hw).elim (h.irqs c w) .inr

theorem mono (h : Quiet K t s s') (himp : ∀ x, K x → K' x) : Quiet K' t s s' := by
  refine ⟨h.static, h.others, h.core, h.active, fun b => ?_, h.irqs, h.history⟩
  obtain ⟨l, hl, hK⟩ := h.log b
  exact ⟨l, hl, fun x hx => himp x (hK x hx)⟩

theorem kernel (h : Quiet K t s s') : s'.kernel = s.kernel := congrArg Static.kernel h.static

theorem envirs (h : Quiet K t s s') : s'.envirs = s.envirs := congrArg Static.envirs h.static

theorem evsets (h : Quiet K t s s') : s'.evsets = s.evsets := congrArg Static.evsets h.static

theorem fresh (h : Quiet K t s s') : s'.fresh = s.fresh := congrArg Static.fresh h.static

theorem taskList (h : Quiet K t s s') : s'.taskList = s.taskList :=
  congrArg Static.taskList h.static

theorem waitList (h : Quiet K t s s') : s'.waitList = s.waitList :=
  congrArg Static.waitList h.static

theorem cpuList (h : Quiet K t s s') : s'.cpuList = s.cpuList := congrArg Static.cpuList h.static

theorem children (h : Quiet K t s s') : s'.children = s.children :=
  congrArg Static.children h.static

/-- The cores of all tasks are as they were. -/
theorem cores (h : Quiet K t s s') (u : TaskId) :
    (s'.tasks u).map SmonTask.core = (s.tasks u).map SmonTask.core := by
  by_cases hu : u = t
  · exact hu ▸ h.core
  · rw [h.others u hu]

/-- The task is still whose it was. -/
theorem exists_task {task : SmonTask} (h : Quiet K t s s') (htask : s.tasks t = some task) :
    ∃ task', s'.tasks t = some task' ∧ task'.toTaskCore = task.toTaskCore := by
  have hcore := h.core
  rw [htask, Option.map_some, Option.map_eq_some_iff] at hcore
  obtain ⟨task', htask', hcore⟩ := hcore
  exact ⟨task', htask', congrArg Prod.fst hcore⟩

/-- Writing a task back with the same core. -/
theorem of_setTask {x x' : SmonTask} (hx : s.tasks t = some x) (hcore : x'.core = x.core) :
    Quiet K t s (s.setTask t x') := by
  refine ⟨rfl, fun u hu => Function.update_of_ne hu .., ?_, fun b => rfl,
    fun b => ⟨[], by simp [setTask]⟩, fun c w hw => .inl hw, rfl⟩
  simp only [setTask, Function.update_self, hx, Option.map_some, hcore]

theorem of_onCpu (me : Cpu) (f : (ℕ → I64) → ℕ → I64) : Quiet K t s (s.onCpu me f) :=
  ⟨rfl, fun _ _ => rfl, rfl, fun _ => rfl, fun _ => ⟨[], by simp [onCpu]⟩, fun _ _ h => .inl h, rfl⟩

theorem of_record {e : TraceEvent} (he : e.isBook = false) : Quiet K t s (s.record e) :=
  ⟨rfl, fun _ _ => rfl, rfl, fun _ => rfl, fun _ => ⟨[], by simp [record]⟩, fun _ _ h => .inl h,
    by simp [record, he]⟩

theorem of_msrRdtsc : Quiet K t s s.msrRdtsc.2 :=
  ⟨rfl, fun _ _ => rfl, rfl, fun _ => rfl, fun _ => ⟨[], by simp [msrRdtsc]⟩,
    fun _ _ h => .inl h, rfl⟩

theorem of_when {c : Bool} {f : State → Except Fault State} (h : s.when c f = .ok s')
    (hf : ∀ s', f s = .ok s' → Quiet K t s s') : Quiet K t s s' := by
  unfold State.when at h
  split at h
  · exact hf s' h
  · cases h
    exact refl K t s

theorem of_write {sample : Sample} (hK : K sample) (rb : Option RbId) :
    Quiet K t s (s.smonSampleWrite rb sample) := by
  cases rb with
  | none => exact refl K t s
  | some b =>
    refine ⟨rfl, fun _ _ => rfl, rfl, fun b' => ?_, fun b' => ?_, fun _ _ h => .inl h, rfl⟩
    · by_cases hb : b' = b
      · subst hb
        simp [smonSampleWrite, smonRbWrite]
      · simp [smonSampleWrite, smonRbWrite, hb]
    · by_cases hb : b' = b
      · subst hb
        exact ⟨[sample], by simp [smonSampleWrite, smonRbWrite], by simpa using hK⟩
      · exact ⟨[], by simp [smonSampleWrite, smonRbWrite, hb]⟩

theorem of_irqWorkQueue (me : Cpu) {w : Irq} (hw : w.task = t) :
    Quiet K t s (s.irqWorkQueue me w) := by
  unfold irqWorkQueue
  split
  · exact refl K t s
  · refine ⟨rfl, fun _ _ => rfl, rfl, fun _ => rfl, fun _ => ⟨[], by simp⟩, fun c w' hw' => ?_,
      rfl⟩
    rw [List.mem_append, List.mem_singleton] at hw'
    rcases hw' with hw' | hw'
    · exact .inl hw'
    · rw [Prod.mk.injEq] at hw'
      exact .inr (by rw [hw'.2, hw])

end Quiet

/-! ### Looking -/

section Looking

variable {s : State} {t : TaskId} {task : SmonTask} {e : EnvirId} {envir : SmonEnvir}
  {extra : SmonTaskExtra}

theorem task_eq_ok : s.task t = .ok task ↔ s.tasks t = some task := by
  unfold State.task
  split <;> simp_all

theorem envir_eq_ok : s.envir e = .ok envir ↔ s.envirs e = some envir := by
  unfold State.envir
  split <;> simp_all

theorem extra_eq_ok : s.extra t = .ok extra ↔ ∃ task, s.tasks t = some task ∧
    task.extra = some extra := by
  simp only [State.extra, bind_eq_ok, task_eq_ok]
  refine exists_congr fun task => and_congr_right fun _ => ?_
  split <;> simp_all [pure_eq_ok, throw_eq_ok]

theorem setExtra_eq_ok {s' : State} : s.setExtra t extra = .ok s' ↔ ∃ task, s.tasks t = some task ∧
    s' = s.setTask t { task with extra := some extra } := by
  simp only [State.setExtra, bind_eq_ok, task_eq_ok, pure_eq_ok]
  exact exists_congr fun task => and_congr_right fun _ => eq_comm

end Looking

/-! ### The functions of `sample.c` -/

section Sampling

variable {K : Sample → Prop} {s s' : State} {me : Cpu} {t : TaskId}

theorem quiet_smonSampleStart (h : s.smonSampleStart me t = .ok s') : Quiet K t s s' := by
  simp only [smonSampleStart, bind_eq_ok, task_eq_ok] at h
  obtain ⟨task, htask, envir, -, esid, -, h⟩ := h
  split at h
  · rw [pure_eq_ok] at h
    exact h ▸ .refl K t s
  · rw [pure_eq_ok] at h
    subst h
    exact ((((Quiet.of_onCpu me _).trans (.of_onCpu me _)).trans .of_msrRdtsc).trans
      (.of_setTask htask (by rfl))).trans ((Quiet.of_onCpu me _).trans (.of_record (by rfl)))

theorem quiet_smonSampleStop (h : s.smonSampleStop me t = .ok s') : Quiet K t s s' := by
  simp only [smonSampleStop, bind_eq_ok, task_eq_ok] at h
  obtain ⟨task, htask, envir, -, evset?, -, h⟩ := h
  split at h
  · exact absurd h (by simp [throw_eq_ok])
  · rw [pure_eq_ok] at h
    subst h
    exact (((Quiet.of_onCpu me _).trans .of_msrRdtsc).trans (.of_setTask htask (by rfl))).trans
      (.of_record (by rfl))

theorem tasks_smonSampleWrite (rb : Option RbId) (sample : Sample) :
    (s.smonSampleWrite rb sample).tasks = s.tasks := by
  cases rb <;> rfl

theorem quiet_smonSampleSave (hK : ∀ x, K (.pmc x)) (h : s.smonSampleSave t = .ok s') :
    Quiet K t s s' := by
  simp only [smonSampleSave, bind_eq_ok, task_eq_ok, pure_eq_ok] at h
  obtain ⟨task, htask, envir, -, evset, -, rfl⟩ := h
  refine ((Quiet.of_write (hK _) task.rb).trans (.of_setTask (x := task) ?_ (by rfl))).trans
    (.of_record (by rfl))
  rw [tasks_smonSampleWrite, htask]

theorem quiet_smonSampleSchedIn (h : s.smonSampleSchedIn me t = .ok s') : Quiet K t s s' := by
  simp only [smonSampleSchedIn, bind_eq_ok, task_eq_ok, pure_eq_ok] at h
  obtain ⟨task, htask, rfl⟩ := h
  exact Quiet.of_msrRdtsc.trans (.of_setTask htask (by rfl))

theorem quiet_smonSampleSchedOut (h : s.smonSampleSchedOut t = .ok s') : Quiet K t s s' := by
  simp only [smonSampleSchedOut, bind_eq_ok, task_eq_ok, pure_eq_ok] at h
  obtain ⟨task, htask, rfl⟩ := h
  exact Quiet.of_msrRdtsc.trans (.of_setTask htask (by rfl))

theorem quiet_smonSampleSchedSave (hK : ∀ x, K (.sched x)) (h : s.smonSampleSchedSave t = .ok s') :
    Quiet K t s s' := by
  simp only [smonSampleSchedSave, bind_eq_ok, pure_eq_ok] at h
  obtain ⟨task, -, rfl⟩ := h
  exact (Quiet.of_write (hK _) task.rb).trans (.of_record (by rfl))

/-! ### The timers of `sched.c` -/

theorem quiet_startTimerPmc (h : s.startTimerPmc me t = .ok s') : Quiet K t s s' := by
  simp only [startTimerPmc, bind_eq_ok, task_eq_ok] at h
  obtain ⟨task, htask, envir, -, h⟩ := h
  exact (Quiet.of_setTask htask (by rfl)).trans (quiet_smonSampleStart h)

theorem quiet_stopTimerPmc (h : s.stopTimerPmc t = .ok s') : Quiet K t s s' := by
  simp only [stopTimerPmc, bind_eq_ok, task_eq_ok, pure_eq_ok] at h
  obtain ⟨task, htask, rfl⟩ := h
  exact .of_setTask htask (by rfl)

theorem quiet_smonSchedTaskIn (h : s.smonSchedTaskIn me t = .ok s') : Quiet K t s s' := by
  simp only [smonSchedTaskIn, bind_eq_ok] at h
  obtain ⟨task, -, envir, -, s₁, hin, h⟩ := h
  refine (Quiet.of_when hin fun _ => quiet_smonSampleSchedIn).trans ?_
  split at h
  · exact quiet_smonSampleStart h
  · rw [pure_eq_ok] at h
    exact h ▸ .of_irqWorkQueue me (by rfl)

theorem quiet_smonSchedTimerOut (hpmc : ∀ x, K (.pmc x)) (hsched : ∀ x, K (.sched x))
    (h : s.smonSchedTimerOut me t = .ok s') : Quiet K t s s' := by
  simp only [smonSchedTimerOut, bind_eq_ok, task_eq_ok] at h
  obtain ⟨task, htask, s₁, hsave, task₁, htask₁, envir, -, h⟩ := h
  refine (Quiet.of_setTask htask (by rfl)).trans
    ((Quiet.of_when hsave fun _ => quiet_smonSampleSave hpmc).trans
      ((Quiet.of_setTask htask₁ (by rfl)).trans ((Quiet.of_irqWorkQueue me (by rfl)).trans
        (Quiet.of_when h fun s₂ h => ?_))))
  rw [bind_eq_ok] at h
  obtain ⟨s₃, hout, h⟩ := h
  exact (quiet_smonSampleSchedOut hout).trans (quiet_smonSampleSchedSave hsched h)

theorem quiet_smonSchedTaskOut (hpmc : ∀ x, K (.pmc x)) (hsched : ∀ x, K (.sched x))
    (h : s.smonSchedTaskOut me t = .ok s') : Quiet K t s s' := by
  simp only [smonSchedTaskOut, bind_eq_ok] at h
  obtain ⟨s₁, hstop, task, -, h⟩ := h
  exact (quiet_smonSampleStop hstop).trans
    (.of_when h fun _ => quiet_smonSchedTimerOut hpmc hsched)

theorem quiet_smonSchedTimerTick (hpmc : ∀ x, K (.pmc x)) (h : s.smonSchedTimerTick t = .ok s') :
    Quiet K t s s' := by
  simp only [smonSchedTimerTick, bind_eq_ok, task_eq_ok] at h
  obtain ⟨task, htask, h⟩ := h
  split at h
  · simp only [bind_eq_ok, task_eq_ok] at h
    obtain ⟨s₁, hstop, s₂, hsave, task₂, htask₂, envir, -, h⟩ := h
    exact (quiet_smonSampleStop hstop).trans ((quiet_smonSampleSave hpmc hsave).trans
      ((Quiet.of_setTask htask₂ (by rfl)).trans (quiet_smonSampleStart h)))
  · rw [pure_eq_ok] at h
    subst h
    exact .of_setTask htask (by rfl)

/-! ### The extra part -/

/-- Writing the extra part back. -/
theorem quiet_setExtra {extra extra' : SmonTaskExtra} {s₁ : State} (hextra : s.extra t = .ok extra)
    (hrb : extra'.rb = extra.rb) (hs : Quiet K t s s₁) (htasks : s₁.tasks = s.tasks)
    (h : s₁.setExtra t extra' = .ok s') : Quiet K t s s' := by
  obtain ⟨task, htask, hx⟩ := extra_eq_ok.mp hextra
  obtain ⟨task', htask', rfl⟩ := setExtra_eq_ok.mp h
  refine hs.trans (.of_setTask htask' ?_)
  rw [htasks, htask, Option.some_inj] at htask'
  subst htask'
  simp [SmonTask.core, hx, hrb]

theorem quiet_cancelRapl (h : s.cancelRapl t = .ok s') : Quiet K t s s' := by
  simp only [cancelRapl, bind_eq_ok] at h
  obtain ⟨extra, hextra, h⟩ := h
  exact quiet_setExtra hextra (by rfl) (.refl K t s) rfl h

theorem quiet_startTimerRapl (h : s.startTimerRapl me t = .ok s') : Quiet K t s s' := by
  simp only [startTimerRapl, bind_eq_ok] at h
  obtain ⟨extra, hextra, h⟩ := h
  exact quiet_setExtra hextra (by rfl) .of_msrRdtsc rfl h

theorem quiet_smonSchedTimerRapl (hrapl : ∀ x, K (.rapl x))
    (h : s.smonSchedTimerRapl t = .ok s') : Quiet K t s s' := by
  simp only [smonSchedTimerRapl, bind_eq_ok] at h
  obtain ⟨extra, hextra, h⟩ := h
  split at h
  · exact quiet_setExtra hextra (by rfl) ((Quiet.of_msrRdtsc.trans
      (.of_write (hrapl _) (some extra.rb))).trans .of_msrRdtsc) rfl h
  · exact quiet_setExtra hextra (by rfl) (.refl K t s) rfl h

theorem quiet_runIrq {w : Irq} (h : s.runIrq me w = .ok s') : Quiet K w.task s s' := by
  cases w with
  | startTimer t => exact quiet_startTimerPmc h
  | stopTimer t => exact quiet_stopTimerPmc h
  | startRapl t => exact quiet_startTimerRapl h

end Sampling

end SchedMon
