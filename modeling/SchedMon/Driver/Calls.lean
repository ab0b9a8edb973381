import SchedMon.Driver.Effect

/-!
# What a call does to its task

`Quiet` is the frame of sampling, `Effect` has the equations of its three elementary functions. Here
is everything in between: what each function that a hook, a timer or an interrupt calls for a task
makes of that task, which events and which records it leaves, and which interrupts it queues. The
outputs accumulate, so a function's lemma is put together from those of its parts.

## Main definitions

* `Call` — the task before and after, with the outputs
* `SmonTask.entered`, `SmonTask.left`, `SmonTask.armed`, `SmonTask.ticked` — a task after each of
  the functions of `sched.c`

## Main results

* `call_smonSchedTaskIn`, `call_smonSchedTaskOut`, `call_smonSchedTimerTick`, `call_startTimerPmc`,
  `call_stopTimerPmc`
-/

namespace SchedMon

open State

/-! ### Outputs -/

/-- Queueing some items on CPU `me`, each unless it is queued already. -/
def queued (me : Cpu) (irqs : List (Cpu × Irq)) (qs : List Irq) : List (Cpu × Irq) :=
  qs.foldl (fun irqs w => if w ∈ irqs.map Prod.snd then irqs else irqs ++ [(me, w)]) irqs

theorem queued_append (me : Cpu) (irqs : List (Cpu × Irq)) (qs qs' : List Irq) :
    queued me irqs (qs ++ qs') = queued me (queued me irqs qs) qs' := List.foldl_append

/-- The buffers after some records were handed to one of them. -/
def written (rbs : RbId → Rb) (rb : Option RbId) (ws : List Sample) : RbId → Rb :=
  match rb with
  | some b => Function.update rbs b { rbs b with log := (rbs b).log ++ ws }
  | none => rbs

@[simp] theorem written_nil (rbs : RbId → Rb) (rb : Option RbId) : written rbs rb [] = rbs := by
  cases rb <;> simp [written]

theorem written_append (rbs : RbId → Rb) (rb : Option RbId) (ws ws' : List Sample) :
    written rbs rb (ws ++ ws') = written (written rbs rb ws) rb ws' := by
  cases rb <;> simp [written]

/-- A call for task `t` on CPU `me` turns `task` into `task'`, and adds to the history, to the task's
buffer and to the queue. -/
structure Call (t : TaskId) (me : Cpu) (task task' : SmonTask) (es : List TraceEvent)
    (ws : List Sample) (qs : List Irq) (s s' : State) : Prop where
  static : s'.static = s.static
  before : s.tasks t = some task
  tasks : s'.tasks = Function.update s.tasks t (some task')
  core : task'.core = task.core
  trace : s'.trace = s.trace ++ es
  rbs : s'.rbs = written s.rbs task.rb ws
  irqs : s'.irqs = queued me s.irqs qs
  reads : s.reads ≤ s'.reads
  msr : ∀ c, c ≠ me → s'.msr c = s.msr c

namespace Call

variable {t : TaskId} {me : Cpu} {task task' task'' : SmonTask} {es es' : List TraceEvent}
  {ws ws' : List Sample} {qs qs' : List Irq} {s s' s'' : State}

theorem refl (me : Cpu) (h : s.tasks t = some task) : Call t me task task [] [] [] s s :=
  ⟨rfl, h, by rw [← h, Function.update_eq_self], rfl, by simp, by simp, rfl, Nat.le_refl _,
    fun _ _ => rfl⟩

theorem after (h : Call t me task task' es ws qs s s') : s'.tasks t = some task' := by
  rw [h.tasks, Function.update_self]

theorem trans (h : Call t me task task' es ws qs s s') (h' : Call t me task' task'' es' ws' qs' s' s'') :
    Call t me task task'' (es ++ es') (ws ++ ws') (qs ++ qs') s s'' := by
  have hrb : task'.rb = task.rb := congrArg (fun c => c.1.rb) h.core
  refine ⟨h'.static.trans h.static, h.before, ?_, h'.core.trans h.core, ?_, ?_, ?_,
    Nat.le_trans h.reads h'.reads, fun c hc => (h'.msr c hc).trans (h.msr c hc)⟩
  · rw [h'.tasks, h.tasks, Function.update_idem]
  · rw [h'.trace, h.trace, List.append_assoc]
  · rw [h'.rbs, h.rbs, hrb, written_append]
  · rw [h'.irqs, h.irqs, queued_append]

theorem others (h : Call t me task task' es ws qs s s') {u : TaskId} (hu : u ≠ t) :
    s'.tasks u = s.tasks u := by rw [h.tasks, Function.update_of_ne hu]

theorem of_setTask (me : Cpu) (h : s.tasks t = some task) (hcore : task'.core = task.core) :
    Call t me task task' [] [] [] s (s.setTask t task') :=
  ⟨rfl, h, rfl, hcore, (List.append_nil _).symm, (written_nil _ _).symm, rfl, Nat.le_refl _,
    fun _ _ => rfl⟩

theorem of_msrRdtsc (me : Cpu) (h : s.tasks t = some task) :
    Call t me task task [] [] [] s s.msrRdtsc.2 :=
  ⟨rfl, h, by rw [← h, Function.update_eq_self]; rfl, rfl, (List.append_nil _).symm,
    (written_nil _ _).symm, rfl, Nat.le_succ _, fun _ _ => rfl⟩

theorem of_irqWorkQueue (me : Cpu) (h : s.tasks t = some task) (w : Irq) :
    Call t me task task [] [] [w] s (s.irqWorkQueue me w) := by
  unfold irqWorkQueue
  split
  · rename_i hmem
    refine ⟨rfl, h, by rw [← h, Function.update_eq_self], rfl, (List.append_nil _).symm,
      (written_nil _ _).symm, ?_, Nat.le_refl _, fun _ _ => rfl⟩
    simp only [queued, List.foldl_cons, List.foldl_nil, hmem, if_true]
  · rename_i hmem
    refine ⟨rfl, h, by rw [← h, Function.update_eq_self], rfl, (List.append_nil _).symm,
      (written_nil _ _).symm, ?_, Nat.le_refl _, fun _ _ => rfl⟩
    simp only [queued, List.foldl_cons, List.foldl_nil, hmem, if_false]

theorem of_write (me : Cpu) (h : s.tasks t = some task) (sample : Sample) :
    Call t me task task [] [sample] [] s (s.smonSampleWrite task.rb sample) := by
  have htasks := tasks_smonSampleWrite (s := s) task.rb sample
  have hself : (s.smonSampleWrite task.rb sample).tasks = Function.update s.tasks t (some task) := by
    rw [htasks, ← h, Function.update_eq_self]
  cases hrb : task.rb with
  | none =>
    rw [hrb] at hself
    exact ⟨rfl, h, hself, rfl, (List.append_nil _).symm, by rw [hrb]; rfl, rfl, Nat.le_refl _,
      fun _ _ => rfl⟩
  | some b =>
    rw [hrb] at hself
    exact ⟨rfl, h, hself, rfl, (List.append_nil _).symm, by rw [hrb]; rfl, rfl, Nat.le_refl _,
      fun _ _ => rfl⟩

end Call

/-! ### Tasks -/

/-- The task after `smon_sample_sched_in` on CPU `me` at `tsc`, if its environment wants that. -/
def SmonTask.entered (task : SmonTask) (envir : SmonEnvir) (me : Cpu) (tsc : ℤ) : SmonTask :=
  if envir.options.sched then
    { task with sampleSched := { task.sampleSched with cpu := me, timestampIn := tsc } }
  else task

/-- The task after `smon_sample_sched_out` at `tsc`, if its environment wants that. -/
def SmonTask.schedOut (task : SmonTask) (envir : SmonEnvir) (tsc : ℤ) : SmonTask :=
  if envir.options.sched then
    { task with sampleSched := { task.sampleSched with timestampOut := tsc } }
  else task

/-- The timer of the task starts, on CPU `me`. -/
def SmonTask.armed (task : SmonTask) (envir : SmonEnvir) (me : Cpu) (now : ℤ) : SmonTask :=
  { task with
    timerFlags := true
    timer := hrtimerStart me now
      (if task.ktRemain ≤ 0 then msToNs envir.sampleTime else task.ktRemain) }

/-- The timer of the task is cancelled. -/
def SmonTask.disarmed (task : SmonTask) : SmonTask :=
  { task with timer := hrtimerCancel task.timer }

/-- What is left of the sample time of the task. -/
def SmonTask.remain (task : SmonTask) (now : ℤ) : ℤ := hrtimerExpiresRemaining task.timer now

/-- A sample is due when the task is switched out. -/
def SmonTask.expired (task : SmonTask) (now : ℤ) : Bool := task.remain now ≤ 0

/-- The task keeps what is left of its sample time. A sample that is due is saved. -/
def SmonTask.kept (task : SmonTask) (envir : SmonEnvir) (now : ℤ) : SmonTask :=
  let kept := { task with ktRemain := task.remain now }
  if task.expired now then kept.saved envir else kept

/-- The task after it was switched out with its timer active, at `tsc`. -/
def SmonTask.left (task : SmonTask) (envir : SmonEnvir) (now tsc : ℤ) : SmonTask :=
  { task.kept envir now with timerFlags := false }.schedOut envir tsc

/-- The task moves its timer on. -/
def SmonTask.forwarded (task : SmonTask) (envir : SmonEnvir) (now : ℤ) : SmonTask :=
  { task with
    timer := hrtimerForward task.timer now (msToNs envir.sampleTime)
    ktRemain := msToNs envir.sampleTime }

/-- The counters as `smon_sample_stop` reads them. -/
def State.readout (s : State) (me : Cpu) (evset : SmonEvset) : SmonPmc :=
  smonPmcRead evset (smonPmcStop (s.msr me))

/-! ### Elementary functions -/

section Functions

variable {t : TaskId} {me : Cpu} {task : SmonTask} {envir : SmonEnvir} {evset : SmonEvset}
  {s s' : State}

/-- What starting a sample changes. -/
theorem started_eq : s.started me t task evset = { s with
    msr := (s.started me t task evset).msr
    reads := s.reads + 1
    tasks := Function.update s.tasks t (some (task.started (s.clock s.reads)))
    trace := s.trace ++ [.start t me (s.clock s.reads)] } := by
  simp only [State.started, record, onCpu, setTask, msrRdtsc]

theorem started_msr {c : Cpu} (hc : c ≠ me) : (s.started me t task evset).msr c = s.msr c := by
  simp only [State.started, record, onCpu, setTask, msrRdtsc, Function.update_of_ne hc]

/-- What stopping a sample changes. -/
theorem stopped_eq : s.stopped me t task evset = { s with
    msr := Function.update s.msr me (smonPmcStop (s.msr me))
    reads := s.reads + 1
    tasks := Function.update s.tasks t (some (task.stopped (s.clock s.reads) (s.readout me evset)))
    trace := s.trace ++ [.stop t me (s.clock s.reads)] } := by
  simp only [State.stopped, record, onCpu, setTask, msrRdtsc, State.readout]

theorem call_started (me : Cpu) (evset : SmonEvset) (h : s.tasks t = some task) :
    Call t me task (task.started (s.clock s.reads)) [.start t me (s.clock s.reads)] [] [] s
      (s.started me t task evset) := by
  have hmsr : ∀ c, c ≠ me → (s.started me t task evset).msr c = s.msr c := fun c => started_msr
  rw [started_eq]
  exact ⟨rfl, h, rfl, rfl, rfl, (written_nil s.rbs task.rb).symm, rfl, Nat.le_succ _, hmsr⟩

theorem call_stopped (me : Cpu) (evset : SmonEvset) (h : s.tasks t = some task) :
    Call t me task (task.stopped (s.clock s.reads) (s.readout me evset))
      [.stop t me (s.clock s.reads)] [] [] s (s.stopped me t task evset) := by
  rw [stopped_eq]
  exact ⟨rfl, h, rfl, rfl, rfl, (written_nil s.rbs task.rb).symm, rfl, Nat.le_succ _,
    fun c hc => Function.update_of_ne hc ..⟩

theorem call_saved (me : Cpu) (envir : SmonEnvir) (h : s.tasks t = some task) :
    Call t me task (task.saved envir) [.save t task.record envir] [.pmc task.record] [] s
      (s.saved t task envir) := by
  have hwrite := Call.of_write me h (.pmc task.record)
  have hsaved : Call t me task (task.saved envir) [] [] [] _ _ := .of_setTask me hwrite.after rfl
  have hset := hwrite.trans hsaved
  have htrace := hset.trace.trans (List.append_nil s.trace)
  exact ⟨hset.static, h, hset.tasks, rfl, congrArg (· ++ [TraceEvent.save t task.record envir]) htrace,
    hset.rbs, hset.irqs, hset.reads, hset.msr⟩

/-- Starting a sample goes through if the event set exists, and does nothing if not. -/
theorem call_smonSampleStart (h : s.smonSampleStart me t = .ok s') : ∃ task envir,
    s.tasks t = some task ∧ s.envirs task.envir = some envir ∧
    (smonGetEvset s.evsets (envir.esids task.evset) = none ∧ s' = s ∨
      ∃ evset, smonGetEvset s.evsets (envir.esids task.evset) = some evset ∧
        Call t me task (task.started (s.clock s.reads)) [.start t me (s.clock s.reads)] [] [] s s') := by
  obtain ⟨task, envir, htask, henvir, -, hnone | ⟨evset, hget, rfl⟩⟩ := smonSampleStart_eq_ok.mp h
  · exact ⟨task, envir, htask, henvir, .inl hnone⟩
  · exact ⟨task, envir, htask, henvir, .inr ⟨evset, hget, call_started me evset htask⟩⟩

theorem call_smonSampleStop (h : s.smonSampleStop me t = .ok s') : ∃ task envir evset,
    s.tasks t = some task ∧ s.envirs task.envir = some envir ∧
    smonGetEvset s.evsets (envir.esids task.evset) = some evset ∧
    Call t me task (task.stopped (s.clock s.reads) (s.readout me evset))
      [.stop t me (s.clock s.reads)] [] [] s s' := by
  obtain ⟨task, envir, evset, htask, henvir, -, -, hget, rfl⟩ := smonSampleStop_eq_ok.mp h
  exact ⟨task, envir, evset, htask, henvir, hget, call_stopped me evset htask⟩

theorem call_smonSampleSave (me : Cpu) (h : s.smonSampleSave t = .ok s') : ∃ task envir,
    s.tasks t = some task ∧ s.envirs task.envir = some envir ∧ 0 < envir.nEsids.toNat ∧
    Call t me task (task.saved envir) [.save t task.record envir] [.pmc task.record] [] s s' := by
  obtain ⟨task, envir, htask, henvir, hpos, rfl⟩ := smonSampleSave_eq_ok.mp h
  exact ⟨task, envir, htask, henvir, hpos, call_saved me envir htask⟩

/-! ### The functions of `sched.c` -/

/-- The interrupt that starts the timer: the rest is the start of a sample. -/
theorem call_startTimerPmc (h : s.startTimerPmc me t = .ok s') : ∃ task envir s₁,
    s.tasks t = some task ∧ s.envirs task.envir = some envir ∧
    Call t me task (task.armed envir me s.now) [] [] [] s s₁ ∧ s₁.reads = s.reads ∧
    s₁.msr = s.msr ∧ s₁.smonSampleStart me t = .ok s' := by
  simp only [startTimerPmc, bind_eq_ok, task_eq_ok, envir_eq_ok] at h
  obtain ⟨task, htask, envir, henvir, h⟩ := h
  exact ⟨task, envir, _, htask, henvir, .of_setTask me htask rfl, rfl, rfl, h⟩

theorem call_stopTimerPmc (me : Cpu) (h : s.stopTimerPmc t = .ok s') : ∃ task,
    s.tasks t = some task ∧ Call t me task task.disarmed [] [] [] s s' ∧ s'.msr = s.msr := by
  simp only [stopTimerPmc, bind_eq_ok, task_eq_ok, pure_eq_ok] at h
  obtain ⟨task, htask, rfl⟩ := h
  exact ⟨task, htask, .of_setTask me htask rfl, rfl⟩

theorem call_smonSampleSchedIn (h : s.smonSampleSchedIn me t = .ok s') : ∃ task,
    s.tasks t = some task ∧ Call t me task { task with
      sampleSched := { task.sampleSched with cpu := me, timestampIn := s.clock s.reads } } [] [] [] s s' ∧
    s'.msr = s.msr ∧ s'.reads = s.reads + 1 := by
  simp only [smonSampleSchedIn, bind_eq_ok, task_eq_ok, pure_eq_ok] at h
  obtain ⟨task, htask, rfl⟩ := h
  have hread := Call.of_msrRdtsc me htask
  exact ⟨task, htask, hread.trans (.of_setTask me hread.after rfl), rfl, rfl⟩

/-- A task that is switched in: outside of stat mode, its timer will be started. -/
theorem call_smonSchedTaskIn (h : s.smonSchedTaskIn me t = .ok s') : ∃ task envir,
    s.tasks t = some task ∧ s.envirs task.envir = some envir ∧
    (envir.options.stat = false → Call t me task (task.entered envir me (s.clock s.reads)) [] []
      [.startTimer t] s s' ∧ s'.msr = s.msr ∧
      (envir.options.sched = true → s'.reads = s.reads + 1)) ∧
    (envir.options.stat = true → ∃ s₁, Call t me task (task.entered envir me (s.clock s.reads)) [] []
      [] s s₁ ∧ s₁.msr = s.msr ∧ s₁.smonSampleStart me t = .ok s') := by
  simp only [smonSchedTaskIn, bind_eq_ok, task_eq_ok, envir_eq_ok] at h
  obtain ⟨task, htask, envir, henvir, s₁, hin, h⟩ := h
  have hentered : Call t me task (task.entered envir me (s.clock s.reads)) [] [] [] s s₁ ∧
      s₁.msr = s.msr ∧ (envir.options.sched = true → s₁.reads = s.reads + 1) := by
    rcases when_eq_ok.mp hin with ⟨hsched, rfl⟩ | ⟨hsched, hin⟩
    · refine ⟨?_, rfl, fun htrue => absurd (hsched.symm.trans htrue) (by simp)⟩
      simp only [SmonTask.entered, hsched, Bool.false_eq_true, if_false]
      exact .refl me htask
    · simp only [SmonTask.entered, hsched, if_true]
      obtain ⟨task', htask', hcall, hmsr, hreads⟩ := call_smonSampleSchedIn hin
      obtain rfl := Option.some_inj.mp (htask'.symm.trans htask)
      exact ⟨hcall, hmsr, fun _ => hreads⟩
  refine ⟨task, envir, htask, henvir, fun hstat => ?_, fun hstat => ?_⟩
  · rw [hstat, if_neg Bool.false_ne_true, pure_eq_ok] at h
    subst h
    have hqueue : ∀ x : State, (x.irqWorkQueue me (.startTimer t)).msr = x.msr ∧
        (x.irqWorkQueue me (.startTimer t)).reads = x.reads := by
      intro x
      unfold irqWorkQueue
      split <;> exact ⟨rfl, rfl⟩
    refine ⟨hentered.1.trans (.of_irqWorkQueue me hentered.1.after _), ?_, fun hsched => ?_⟩
    · rw [(hqueue _).1, hentered.2.1]
    · rw [(hqueue _).2, hentered.2.2 hsched]
  · rw [hstat, if_pos rfl] at h
    exact ⟨s₁, hentered.1, hentered.2.1, h⟩

theorem call_smonSampleSchedOut (me : Cpu) (h : s.smonSampleSchedOut t = .ok s') : ∃ task,
    s.tasks t = some task ∧ Call t me task { task with
      sampleSched := { task.sampleSched with timestampOut := s.clock s.reads } } [] [] [] s s' ∧
    s'.msr = s.msr ∧ s'.reads = s.reads + 1 := by
  simp only [smonSampleSchedOut, bind_eq_ok, task_eq_ok, pure_eq_ok] at h
  obtain ⟨task, htask, rfl⟩ := h
  have hread := Call.of_msrRdtsc me htask
  exact ⟨task, htask, hread.trans (.of_setTask me hread.after rfl), rfl, rfl⟩

theorem msr_smonSampleWrite (rb : Option RbId) (sample : Sample) :
    (s.smonSampleWrite rb sample).msr = s.msr := by
  cases rb <;> rfl

theorem reads_smonSampleWrite (rb : Option RbId) (sample : Sample) :
    (s.smonSampleWrite rb sample).reads = s.reads := by
  cases rb <;> rfl

theorem call_smonSampleSchedSave (me : Cpu) (h : s.smonSampleSchedSave t = .ok s') : ∃ task,
    s.tasks t = some task ∧
    Call t me task task [.sched t task.sampleSched] [.sched task.sampleSched] [] s s' ∧
    s'.msr = s.msr ∧ s'.reads = s.reads := by
  simp only [smonSampleSchedSave, bind_eq_ok, task_eq_ok, pure_eq_ok] at h
  obtain ⟨task, htask, rfl⟩ := h
  have hwrite := Call.of_write me htask (.sched task.sampleSched)
  refine ⟨task, htask, ⟨hwrite.static, htask, hwrite.tasks, rfl, ?_, hwrite.rbs, hwrite.irqs,
    hwrite.reads, hwrite.msr⟩, msr_smonSampleWrite .., reads_smonSampleWrite ..⟩
  exact congrArg (· ++ [TraceEvent.sched t task.sampleSched]) (hwrite.trace.trans (List.append_nil _))

/-- The events when the task is switched out with its timer active. -/
def SmonTask.leftEvents (task : SmonTask) (t : TaskId) (envir : SmonEnvir) (now tsc : ℤ) :
    List TraceEvent :=
  (if task.expired now then [.save t task.record envir] else []) ++
    if envir.options.sched then [.sched t (task.left envir now tsc).sampleSched] else []

/-- The records that are written when the task is switched out with its timer active. -/
def SmonTask.dueRecords (task : SmonTask) (envir : SmonEnvir) (now tsc : ℤ) : List Sample :=
  (if task.expired now then [.pmc task.record] else []) ++
    if envir.options.sched then [.sched (task.left envir now tsc).sampleSched] else []

theorem SmonTask.mem_leftEvents {e : TraceEvent} {now tsc : ℤ}
    (h : e ∈ task.leftEvents t envir now tsc) : e = .save t task.record envir ∨
      e = .sched t (task.left envir now tsc).sampleSched := by
  rcases List.mem_append.mp h with h | h
  · split at h
    · exact .inl (List.mem_singleton.mp h)
    · cases h
  · split at h
    · exact .inr (List.mem_singleton.mp h)
    · cases h

theorem SmonTask.left_timerFlags (task : SmonTask) (envir : SmonEnvir) (now tsc : ℤ) :
    (task.left envir now tsc).timerFlags = false := by
  unfold SmonTask.left SmonTask.schedOut
  split <;> rfl

/-- Keeping what is left of the sample time. -/
theorem call_kept {s₁ : State} (me : Cpu) (htask : s.tasks t = some task)
    (henvir : s.envirs task.envir = some envir)
    (h : (s.setTask t { task with ktRemain := task.remain s.now }).when (task.expired s.now)
      (fun s => s.smonSampleSave t) = .ok s₁) :
    Call t me task (task.kept envir s.now)
      (if task.expired s.now then [.save t task.record envir] else [])
      (if task.expired s.now then [.pmc task.record] else []) [] s s₁ ∧
    s₁.msr = s.msr ∧ s₁.reads = s.reads := by
  have hset : Call t me task { task with ktRemain := task.remain s.now } [] [] [] s
      (s.setTask t { task with ktRemain := task.remain s.now }) := .of_setTask me htask rfl
  unfold SmonTask.kept
  rcases when_eq_ok.mp h with ⟨hdue, rfl⟩ | ⟨hdue, hsave⟩
  · simp only [hdue, Bool.false_eq_true, if_false]
    exact ⟨hset, rfl, rfl⟩
  · obtain ⟨task₁, envir₁, htask₁, henvir₁, -, rfl⟩ := smonSampleSave_eq_ok.mp hsave
    obtain rfl := Option.some_inj.mp (htask₁.symm.trans hset.after)
    obtain rfl : envir₁ = envir := Option.some_inj.mp (henvir₁.symm.trans henvir)
    simp only [hdue, if_true]
    exact ⟨hset.trans (call_saved me envir₁ hset.after), msr_smonSampleWrite .., reads_smonSampleWrite ..⟩

/-- The last part of `smon_sched_task_out`. -/
theorem call_departed (me : Cpu) (htask : s.tasks t = some task)
    (h : (s.when envir.options.sched fun s => do
      let s ← s.smonSampleSchedOut t
      s.smonSampleSchedSave t) = .ok s') :
    Call t me task (task.schedOut envir (s.clock s.reads))
      (if envir.options.sched then [.sched t (task.schedOut envir (s.clock s.reads)).sampleSched] else [])
      (if envir.options.sched then [.sched (task.schedOut envir (s.clock s.reads)).sampleSched] else [])
      [] s s' ∧ s'.msr = s.msr ∧ (envir.options.sched = true → s'.reads = s.reads + 1) := by
  unfold SmonTask.schedOut
  rcases when_eq_ok.mp h with ⟨hsched, rfl⟩ | ⟨hsched, h⟩
  · simp only [hsched, Bool.false_eq_true, if_false]
    exact ⟨.refl me htask, trivial, fun h => h.elim⟩
  · obtain ⟨s₁, hout, hsave⟩ := bind_eq_ok.mp h
    obtain ⟨task₁, htask₁, hcall₁, hmsr₁, hreads₁⟩ := call_smonSampleSchedOut me hout
    obtain rfl := Option.some_inj.mp (htask₁.symm.trans htask)
    obtain ⟨task₂, htask₂, hcall₂, hmsr₂, hreads₂⟩ := call_smonSampleSchedSave me hsave
    obtain rfl := Option.some_inj.mp (htask₂.symm.trans hcall₁.after)
    simp only [hsched, if_true]
    exact ⟨hcall₁.trans hcall₂, hmsr₂.trans hmsr₁, fun _ => hreads₂.trans hreads₁⟩

/-- The part of `smon_sched_task_out` for an active timer. -/
theorem call_smonSchedTimerOut (h : s.smonSchedTimerOut me t = .ok s') : ∃ task envir,
    s.tasks t = some task ∧ s.envirs task.envir = some envir ∧
    Call t me task (task.left envir s.now (s.clock s.reads))
      (task.leftEvents t envir s.now (s.clock s.reads))
      (task.dueRecords envir s.now (s.clock s.reads)) [.stopTimer t] s s' ∧ s'.msr = s.msr ∧
    (envir.options.sched = true → s'.reads = s.reads + 1) := by
  simp only [smonSchedTimerOut, bind_eq_ok, task_eq_ok, envir_eq_ok] at h
  obtain ⟨task, htask, s₁, hsave, task₁, htask₁, envir, henvir, h⟩ := h
  have hquiet : Quiet (fun _ => True) t s s₁ := (Quiet.of_setTask htask (by rfl)).trans
    (.of_when hsave fun _ => quiet_smonSampleSave fun _ => trivial)
  have henvir' : s.envirs task.envir = some envir := by
    obtain ⟨task', htask', htc⟩ := hquiet.exists_task htask
    obtain rfl := Option.some_inj.mp (htask'.symm.trans htask₁)
    rw [← hquiet.envirs, ← htc]
    unfold irqWorkQueue at henvir
    split at henvir <;> exact henvir
  obtain ⟨hkept, hmsr₁, hreads₁⟩ := call_kept me htask henvir' hsave
  obtain rfl := Option.some_inj.mp (htask₁.symm.trans hkept.after)
  have hflags : Call t me (task.kept envir s.now) { task.kept envir s.now with timerFlags := false }
      [] [] [] s₁ _ := .of_setTask me htask₁ rfl
  have hirq := Call.of_irqWorkQueue me hflags.after (.stopTimer t)
  obtain ⟨hdepart, hmsr₂, hreads₂⟩ := call_departed me hirq.after h
  have hclock : ∀ x : State, (x.irqWorkQueue me (.stopTimer t)).clock = x.clock ∧
      (x.irqWorkQueue me (.stopTimer t)).reads = x.reads ∧
      (x.irqWorkQueue me (.stopTimer t)).msr = x.msr := by
    intro x
    unfold irqWorkQueue
    split <;> exact ⟨rfl, rfl, rfl⟩
  have hnow : (s₁.setTask t { task.kept envir s.now with timerFlags := false }).clock
      (s₁.setTask t { task.kept envir s.now with timerFlags := false }).reads = s.clock s.reads := by
    have hc : s₁.clock = s.clock := congrArg Static.clock hkept.static
    change s₁.clock s₁.reads = _
    rw [hc, hreads₁]
  rw [(hclock _).1, (hclock _).2.1, hnow] at hdepart
  have hall := hkept.trans (hflags.trans (hirq.trans hdepart))
  simp only [List.nil_append, List.append_nil] at hall
  refine ⟨task, envir, htask, henvir', hall, ?_, fun hsched => ?_⟩
  · rw [hmsr₂, (hclock _).2.2]
    exact hmsr₁
  · rw [hreads₂ hsched, (hclock _).2.1]
    exact congrArg (· + 1) hreads₁

/-- A task that is switched out. -/
theorem call_smonSchedTaskOut (h : s.smonSchedTaskOut me t = .ok s') : ∃ task envir evset s₁,
    s.tasks t = some task ∧ s.envirs task.envir = some envir ∧
    smonGetEvset s.evsets (envir.esids task.evset) = some evset ∧
    s₁ = s.stopped me t task evset ∧
    (task.timer.active = false → s' = s₁) ∧
    (task.timer.active = true → Call t me (task.stopped (s.clock s.reads) (s.readout me evset))
      ((task.stopped (s.clock s.reads) (s.readout me evset)).left envir s.now (s.clock (s.reads + 1)))
      ((task.stopped (s.clock s.reads) (s.readout me evset)).leftEvents t envir s.now
        (s.clock (s.reads + 1)))
      ((task.stopped (s.clock s.reads) (s.readout me evset)).dueRecords envir s.now
        (s.clock (s.reads + 1))) [.stopTimer t] s₁ s' ∧ s'.msr = s₁.msr ∧
      (envir.options.sched = true → s'.reads = s.reads + 2)) := by
  simp only [smonSchedTaskOut, bind_eq_ok, task_eq_ok] at h
  obtain ⟨s₁, hstop, task₁, htask₁, h⟩ := h
  obtain ⟨task, envir, evset, htask, henvir, -, -, hget, rfl⟩ := smonSampleStop_eq_ok.mp hstop
  have hcall := call_stopped me evset htask
  obtain rfl := Option.some_inj.mp (htask₁.symm.trans hcall.after)
  refine ⟨task, envir, evset, _, htask, henvir, hget, rfl, fun hactive => ?_, fun hactive => ?_⟩
  · rcases when_eq_ok.mp h with ⟨-, rfl⟩ | ⟨htrue, -⟩
    · rfl
    · exact absurd (hactive.symm.trans htrue) (by simp)
  · rcases when_eq_ok.mp h with ⟨hfalse, -⟩ | ⟨-, h⟩
    · exact absurd (hactive.symm.trans hfalse) (by simp)
    · obtain ⟨task₂, envir₂, htask₂, henvir₂, hleft⟩ := call_smonSchedTimerOut h
      obtain rfl := Option.some_inj.mp (htask₂.symm.trans hcall.after)
      obtain rfl : envir₂ = envir := Option.some_inj.mp (henvir₂.symm.trans henvir)
      exact hleft

/-- A tick of a task whose timer is on. -/
theorem call_smonSchedTimerTick {task : SmonTask} (htask : s.tasks t = some task)
    (hflags : task.timerFlags = true) (h : s.smonSchedTimerTick t = .ok s') :
    ∃ envir evset s₁ s₂ s₃, s.envirs task.envir = some envir ∧
    smonGetEvset s.evsets (envir.esids task.evset) = some evset ∧ 0 < envir.nEsids.toNat ∧
    s₁ = s.stopped task.timer.cpu t task evset ∧
    s₂ = s₁.saved t (task.stopped (s.clock s.reads) (s.readout task.timer.cpu evset)) envir ∧
    Call t task.timer.cpu
      ((task.stopped (s.clock s.reads) (s.readout task.timer.cpu evset)).saved envir)
      (((task.stopped (s.clock s.reads) (s.readout task.timer.cpu evset)).saved envir).forwarded envir
        s.now) [] [] [] s₂ s₃ ∧ s₃.msr = s₂.msr ∧ s₃.reads = s₂.reads ∧
    s₃.smonSampleStart task.timer.cpu t = .ok s' := by
  simp only [smonSchedTimerTick, bind_eq_ok, task_eq_ok] at h
  obtain ⟨task₀, htask₀, h⟩ := h
  obtain rfl := Option.some_inj.mp (htask₀.symm.trans htask)
  rw [if_pos hflags] at h
  simp only [bind_eq_ok, task_eq_ok, envir_eq_ok] at h
  obtain ⟨s₁, hstop, s₂, hsave, task₂, htask₂, envir₂, henvir₂, h⟩ := h
  obtain ⟨task, envir, evset, htask', henvir, -, -, hget, rfl⟩ := smonSampleStop_eq_ok.mp hstop
  obtain rfl := Option.some_inj.mp (htask'.symm.trans htask)
  have hcall₁ := call_stopped task.timer.cpu evset htask
  obtain ⟨task₁, envir₁, htask₁, henvir₁, hpos, rfl⟩ := smonSampleSave_eq_ok.mp hsave
  obtain rfl := Option.some_inj.mp (htask₁.symm.trans hcall₁.after)
  obtain rfl : envir₁ = envir := Option.some_inj.mp (henvir₁.symm.trans henvir)
  have hcall₂ := call_saved task.timer.cpu envir₁ hcall₁.after
  obtain rfl := Option.some_inj.mp (htask₂.symm.trans hcall₂.after)
  have hstatic := hcall₂.static.trans hcall₁.static
  have henvirs := congrArg Static.envirs hstatic
  obtain rfl : envir₂ = envir₁ :=
    Option.some_inj.mp (henvir₂.symm.trans ((congrFun henvirs _).trans henvir))
  have hnow : (State.saved _ t _ envir₂).now = s.now := congrArg Static.now hstatic
  rw [← hnow]
  exact ⟨envir₂, evset, _, _, _, henvir, hget, hpos, rfl, rfl, .of_setTask _ hcall₂.after rfl, rfl,
    rfl, h⟩

/-- Starting a sample leaves the task whose it is, and its timer alone. -/
theorem dial_smonSampleStart (htask : s.tasks t = some task) (h : s.smonSampleStart me t = .ok s') :
    ∃ task', s'.tasks t = some task' ∧ task'.core = task.core ∧ task'.dial = task.dial := by
  obtain ⟨task₁, envir, htask₁, -, ⟨-, rfl⟩ | ⟨evset, -, hcall⟩⟩ := call_smonSampleStart h
  · exact ⟨task, htask, rfl, rfl⟩
  · obtain rfl := Option.some_inj.mp (htask₁.symm.trans htask)
    exact ⟨_, hcall.after, rfl, rfl⟩

/-- What a tick of a task makes of its timer, if that is on. -/
theorem dial_smonSchedTimerTick {task : SmonTask} (htask : s.tasks t = some task)
    (hflags : task.timerFlags = true) (h : s.smonSchedTimerTick t = .ok s') :
    ∃ envir task', s.envirs task.envir = some envir ∧ s'.tasks t = some task' ∧
      task'.core = task.core ∧ task'.dial = ⟨(task.evset + 1) % envir.nEsids.toNat,
        hrtimerForward task.timer s.now (msToNs envir.sampleTime), msToNs envir.sampleTime, true⟩ := by
  obtain ⟨envir, evset, s₁, s₂, s₃, henvir, -, -, rfl, rfl, hcall, -, -, hstart⟩ :=
    call_smonSchedTimerTick htask hflags h
  obtain ⟨task', htask', hcore, hdial⟩ := dial_smonSampleStart hcall.after hstart
  refine ⟨envir, task', henvir, htask', hcore, hdial.trans ?_⟩
  rw [← hflags]
  rfl

/-- A tick of a task whose timer is off. -/
theorem call_smonSchedTimerTick_off {task : SmonTask} (me : Cpu) (htask : s.tasks t = some task)
    (hflags : task.timerFlags = false) (h : s.smonSchedTimerTick t = .ok s') :
    Call t me task task.disarmed [] [] [] s s' ∧ s'.msr = s.msr := by
  have h' : (pure (s.setTask t task.disarmed) : Except Fault State) = .ok s' := by
    rw [← h]
    exact ((bind_of_ok (task_eq_ok.mpr htask)).trans (if_neg (by simp [hflags]))).symm
  obtain rfl := pure_eq_ok.mp h'
  exact ⟨.of_setTask me htask rfl, rfl⟩

/-! ### Whole calls -/

theorem reads_stopped : (s.stopped me t task evset).reads = s.reads + 1 := by rw [stopped_eq]

theorem reads_saved : (s.saved t task envir).reads = s.reads := reads_smonSampleWrite ..

/-- **The interrupt that starts the timer.** -/
theorem call_start (h : s.startTimerPmc me t = .ok s') : ∃ task envir,
    s.tasks t = some task ∧ s.envirs task.envir = some envir ∧
    (smonGetEvset s.evsets (envir.esids task.evset) = none ∧
        Call t me task (task.armed envir me s.now) [] [] [] s s' ∨
      ∃ evset, smonGetEvset s.evsets (envir.esids task.evset) = some evset ∧
        Call t me task ((task.armed envir me s.now).started (s.clock s.reads))
          [.start t me (s.clock s.reads)] [] [] s s') := by
  obtain ⟨task, envir, s₁, htask, henvir, hcall, hreads, -, hstart⟩ := call_startTimerPmc h
  obtain ⟨task₁, envir₁, htask₁, henvir₁, hrest⟩ := call_smonSampleStart hstart
  obtain rfl := Option.some_inj.mp (htask₁.symm.trans hcall.after)
  have henvirs : s₁.envirs = s.envirs := congrArg Static.envirs hcall.static
  have hevsets : s₁.evsets = s.evsets := congrArg Static.evsets hcall.static
  have hclock : s₁.clock = s.clock := congrArg Static.clock hcall.static
  rw [henvirs] at henvir₁
  obtain rfl := Option.some_inj.mp (henvir₁.symm.trans henvir)
  rw [hevsets, hclock, hreads] at hrest
  refine ⟨task, envir₁, htask, henvir, ?_⟩
  rcases hrest with ⟨hnone, rfl⟩ | ⟨evset, hget, hcall'⟩
  · exact .inl ⟨hnone, hcall⟩
  · exact .inr ⟨evset, hget, hcall.trans hcall'⟩

/-- The task after it was stopped and its sample was saved. -/
def SmonTask.taken (task : SmonTask) (envir : SmonEnvir) (tsc : ℤ) (pmc : SmonPmc) : SmonTask :=
  (task.stopped tsc pmc).saved envir

/-- **A tick of a task whose timer is on**: a sample is taken, and the next one is started. -/
theorem call_tick {task : SmonTask} (htask : s.tasks t = some task) (hflags : task.timerFlags = true)
    (h : s.smonSchedTimerTick t = .ok s') : ∃ envir evset tsc pmc next,
    s.envirs task.envir = some envir ∧
    smonGetEvset s.evsets (envir.esids task.evset) = some evset ∧ 0 < envir.nEsids.toNat ∧
    tsc = s.clock s.reads ∧ pmc = s.readout task.timer.cpu evset ∧
    next = (task.taken envir tsc pmc).forwarded envir s.now ∧
    (smonGetEvset s.evsets (envir.esids next.evset) = none ∧
        Call t task.timer.cpu task next [.stop t task.timer.cpu tsc,
          .save t (task.stopped tsc pmc).record envir] [.pmc (task.stopped tsc pmc).record] [] s s' ∨
      ∃ evset', smonGetEvset s.evsets (envir.esids next.evset) = some evset' ∧
        s.reads + 1 ≤ s'.reads ∧ Call t task.timer.cpu task (next.started (s.clock (s.reads + 1))) [.stop t task.timer.cpu tsc,
          .save t (task.stopped tsc pmc).record envir,
          .start t task.timer.cpu (s.clock (s.reads + 1))]
          [.pmc (task.stopped tsc pmc).record] [] s s') := by
  obtain ⟨envir, evset, s₁, s₂, s₃, henvir, hget, hpos, hs₁, hs₂, hcall, -, hreads, hstart⟩ :=
    call_smonSchedTimerTick htask hflags h
  have hstop := call_stopped task.timer.cpu evset htask
  rw [← hs₁] at hstop
  have hsave := call_saved task.timer.cpu envir hstop.after
  rw [← hs₂] at hsave
  have hall := (hstop.trans hsave).trans hcall
  have hstatic := hall.static
  have hevsets : s₃.evsets = s.evsets := congrArg Static.evsets hstatic
  have henvirs : s₃.envirs = s.envirs := congrArg Static.envirs hstatic
  have hreads₃ : s₃.reads = s.reads + 1 := by
    have h₂ : s₂.reads = s₁.reads := by rw [hs₂, reads_saved]
    rw [hreads, h₂, hs₁, reads_stopped]
  have hclock : s₃.clock s₃.reads = s.clock (s.reads + 1) := by
    have h₃ : s₃.clock = s.clock := congrArg Static.clock hstatic
    rw [h₃, hreads₃]
  obtain ⟨next, envir₁, hnext, henvir₁, hrest⟩ := call_smonSampleStart hstart
  obtain rfl := Option.some_inj.mp (hnext.symm.trans hall.after)
  rw [henvirs] at henvir₁
  obtain rfl := Option.some_inj.mp (henvir₁.symm.trans henvir)
  rw [hevsets, hclock] at hrest
  refine ⟨envir₁, evset, _, _, _, henvir, hget, hpos, rfl, rfl, rfl, ?_⟩
  rcases hrest with ⟨hnone, rfl⟩ | ⟨evset', hget', hcall'⟩
  · exact .inl ⟨hnone, hall⟩
  · exact .inr ⟨evset', hget', hreads₃ ▸ hcall'.reads, hall.trans hcall'⟩

/-- **A task that is switched out.** -/
theorem call_out (h : s.smonSchedTaskOut me t = .ok s') : ∃ task envir evset tsc pmc,
    s.tasks t = some task ∧ s.envirs task.envir = some envir ∧
    smonGetEvset s.evsets (envir.esids task.evset) = some evset ∧
    tsc = s.clock s.reads ∧ pmc = s.readout me evset ∧
    (task.timer.active = false →
      Call t me task (task.stopped tsc pmc) [.stop t me tsc] [] [] s s') ∧
    (task.timer.active = true → Call t me task
      ((task.stopped tsc pmc).left envir s.now (s.clock (s.reads + 1)))
      (.stop t me tsc :: (task.stopped tsc pmc).leftEvents t envir s.now (s.clock (s.reads + 1)))
      ((task.stopped tsc pmc).dueRecords envir s.now (s.clock (s.reads + 1))) [.stopTimer t] s s' ∧
      (envir.options.sched = true → s'.reads = s.reads + 2)) := by
  obtain ⟨task, envir, evset, s₁, htask, henvir, hget, rfl, hoff, hon⟩ := call_smonSchedTaskOut h
  have hstop := call_stopped me evset htask
  refine ⟨task, envir, evset, _, _, htask, henvir, hget, rfl, rfl, fun hactive => ?_, fun hactive => ?_⟩
  · rw [hoff hactive]
    exact hstop
  · exact ⟨hstop.trans (hon hactive).1, (hon hactive).2.2⟩

/-- **A task that is switched in.** -/
theorem call_in (h : s.smonSchedTaskIn me t = .ok s') : ∃ task envir,
    s.tasks t = some task ∧ s.envirs task.envir = some envir ∧
    (envir.options.stat = false ∧ Call t me task (task.entered envir me (s.clock s.reads)) [] []
        [.startTimer t] s s' ∧ (envir.options.sched = true → s'.reads = s.reads + 1) ∨
      envir.options.stat = true ∧ (smonGetEvset s.evsets (envir.esids task.evset) = none ∧
          Call t me task (task.entered envir me (s.clock s.reads)) [] [] [] s s' ∨
        ∃ evset n, smonGetEvset s.evsets (envir.esids task.evset) = some evset ∧ s.reads ≤ n ∧
          n ≤ s'.reads ∧ Call t me task ((task.entered envir me (s.clock s.reads)).started (s.clock n))
            [.start t me (s.clock n)] [] [] s s')) := by
  obtain ⟨task, envir, htask, henvir, hqueue, hstart⟩ := call_smonSchedTaskIn h
  refine ⟨task, envir, htask, henvir, ?_⟩
  cases hstat : envir.options.stat with
  | false => exact .inl ⟨rfl, (hqueue hstat).1, (hqueue hstat).2.2⟩
  | true =>
    obtain ⟨s₁, hcall, -, hstart⟩ := hstart hstat
    obtain ⟨task₁, envir₁, htask₁, henvir₁, hrest⟩ := call_smonSampleStart hstart
    obtain rfl := Option.some_inj.mp (htask₁.symm.trans hcall.after)
    have henvirs : s₁.envirs = s.envirs := congrArg Static.envirs hcall.static
    have hevsets : s₁.evsets = s.evsets := congrArg Static.evsets hcall.static
    have hclock : s₁.clock = s.clock := congrArg Static.clock hcall.static
    have hsame : (task.entered envir me (s.clock s.reads)).envir = task.envir ∧
        (task.entered envir me (s.clock s.reads)).evset = task.evset := by
      unfold SmonTask.entered
      split <;> exact ⟨rfl, rfl⟩
    rw [henvirs, hsame.1] at henvir₁
    obtain rfl := Option.some_inj.mp (henvir₁.symm.trans henvir)
    rw [hevsets, hclock, hsame.2] at hrest
    rcases hrest with ⟨hnone, rfl⟩ | ⟨evset, hget, hcall'⟩
    · exact .inr ⟨rfl, .inl ⟨hnone, hcall⟩⟩
    · exact .inr ⟨rfl, .inr ⟨evset, s₁.reads, hget, hcall.reads, hcall'.reads, hcall.trans hcall'⟩⟩

/-- **A task whose process exits** is stopped and its sample is saved, with its timer off. -/
theorem call_exit {s₀ : State} (htask : s.tasks t = some task)
    (hstop : (s.setTask t task.disarmed).smonSampleStop me t = .ok s₀)
    (hsave : s₀.smonSampleSave t = .ok s') : ∃ envir evset tsc pmc,
    s.envirs task.envir = some envir ∧ smonGetEvset s.evsets (envir.esids task.evset) = some evset ∧
    0 < envir.nEsids.toNat ∧ tsc = s.clock s.reads ∧ pmc = s.readout me evset ∧
    Call t me task (task.disarmed.taken envir tsc pmc)
      [.stop t me tsc, .save t (task.stopped tsc pmc).record envir]
      [.pmc (task.stopped tsc pmc).record] [] s s' := by
  have hcancel : Call t me task task.disarmed [] [] [] s (s.setTask t task.disarmed) :=
    .of_setTask me htask rfl
  obtain ⟨task₁, envir, evset, htask₁, henvir, hget, hcall₁⟩ := call_smonSampleStop hstop
  obtain rfl := Option.some_inj.mp (htask₁.symm.trans hcancel.after)
  obtain ⟨task₂, envir₂, htask₂, henvir₂, hpos, hcall₂⟩ := call_smonSampleSave me hsave
  obtain rfl := Option.some_inj.mp (htask₂.symm.trans hcall₁.after)
  have henvirs : s₀.envirs = s.envirs := congrArg Static.envirs hcall₁.static
  rw [henvirs] at henvir₂
  obtain rfl : envir₂ = envir := Option.some_inj.mp (henvir₂.symm.trans henvir)
  exact ⟨envir₂, evset, _, _, henvir, hget, hpos, rfl, rfl, (hcancel.trans hcall₁).trans hcall₂⟩

end Functions

end SchedMon
