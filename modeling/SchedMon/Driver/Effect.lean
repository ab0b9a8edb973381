import SchedMon.Driver.Cases

/-!
# What sampling does

`Quiet` says what sampling leaves alone; here is what it does. The three functions that move numbers
between counters, task and buffer get one equation each, with the task they leave behind, and
`SmonTask.dial` is the part of a task that the timers look at.

## Main definitions

* `SmonTask.started`, `SmonTask.stopped`, `SmonTask.saved` — a task after each of the three
* `SmonTask.dial` — the timer and the event-set index of a task

## Main results

* `smonSampleStart_eq_ok`, `smonSampleStop_eq_ok`, `smonSampleSave_eq_ok`
-/

namespace SchedMon

open State

variable {s s' : State} {me : Cpu} {t : TaskId} {task : SmonTask} {envir : SmonEnvir}
  {evset : SmonEvset}

/-! ### Lookups -/

theorem esid_eq_ok {i : ℕ} {id : U32} :
    envir.esid i = .ok id ↔ i < muxEvsets ∧ envir.esids i = id := by
  unfold SmonEnvir.esid
  split
  · simp_all
  · rename_i hi
    simp [hi]

theorem smonEnvirGetEvset_eq_ok {evsets : List SmonEvset} {i : ℕ} {found : Option SmonEvset} :
    smonEnvirGetEvset evsets envir i = .ok found ↔
      envir.nEsids.toNat ≤ i ∧ found = none ∨ i < envir.nEsids.toNat ∧ i < muxEvsets ∧
        smonGetEvset evsets (envir.esids i) = found := by
  unfold smonEnvirGetEvset
  split
  · rename_i hn
    simp [hn, Nat.not_lt.mpr hn, eq_comm]
  · rename_i hn
    simp only [bind_eq_ok, esid_eq_ok, pure_eq_ok, hn, Nat.lt_of_not_le hn, true_and, false_and,
      false_or]
    constructor
    · rintro ⟨id, ⟨hi, rfl⟩, hfound⟩
      exact ⟨hi, hfound⟩
    · rintro ⟨hi, hfound⟩
      exact ⟨_, ⟨hi, rfl⟩, hfound⟩

theorem smonEnvirNextEvset_eq_ok {i j : ℕ} : smonEnvirNextEvset envir i = .ok j ↔
    0 < envir.nEsids.toNat ∧ j = (i + 1) % envir.nEsids.toNat := by
  unfold smonEnvirNextEvset
  split
  · simp_all
  · rename_i hn
    simp [Nat.pos_of_ne_zero hn, eq_comm]

/-! ### Tasks -/

/-- The task after `smon_sample_start` at `tsc`. -/
def SmonTask.started (task : SmonTask) (tsc : ℤ) : SmonTask :=
  { task with
    tscTmp := tsc
    samplePmc := { task.samplePmc with
      timestampStart :=
        if task.samplePmc.timestampStart = 0 then tsc else task.samplePmc.timestampStart } }

/-- The task after `smon_sample_stop` at `tsc`, with the counters as they were read. -/
def SmonTask.stopped (task : SmonTask) (tsc : ℤ) (pmc : SmonPmc) : SmonTask :=
  { task with
    samplePmc := { task.samplePmc with
      timestampStop := tsc
      duration := task.samplePmc.duration + (tsc - task.tscTmp)
      pmc := pmc } }

/-- The sample that `smon_sample_save` writes. -/
def SmonTask.record (task : SmonTask) : SamplePmc :=
  { task.samplePmc with pid := task.pid, evset := task.evset }

/-- The task after `smon_sample_save`. -/
def SmonTask.saved (task : SmonTask) (envir : SmonEnvir) : SmonTask :=
  { task with samplePmc := .zero, evset := (task.evset + 1) % envir.nEsids.toNat }

/-! ### States -/

namespace State

/-- The state after `smon_sample_start` on an event set that exists. -/
def started (s : State) (me : Cpu) (t : TaskId) (task : SmonTask) (evset : SmonEvset) : State :=
  ((((s.onCpu me (smonPmcSet s.events evset)).onCpu me
    (smonPmcWrite task.samplePmc.pmc)).msrRdtsc.2.setTask t (task.started (s.clock s.reads))).onCpu me
    (smonPmcStart evset)).record (.start t me (s.clock s.reads))

/-- The state after `smon_sample_stop`. -/
def stopped (s : State) (me : Cpu) (t : TaskId) (task : SmonTask) (evset : SmonEvset) : State :=
  ((s.onCpu me smonPmcStop).msrRdtsc.2.setTask t (task.stopped (s.clock s.reads)
    (smonPmcRead evset (smonPmcStop (s.msr me))))).record (.stop t me (s.clock s.reads))

/-- The state after `smon_sample_save`. -/
def saved (s : State) (t : TaskId) (task : SmonTask) (envir : SmonEnvir) : State :=
  ((s.smonSampleWrite task.rb (.pmc task.record)).setTask t (task.saved envir)).record
    (.save t task.record envir)

end State

/-- **What `smon_sample_start` does.** An event set that does not exist is passed over. -/
theorem smonSampleStart_eq_ok : s.smonSampleStart me t = .ok s' ↔ ∃ task envir,
    s.tasks t = some task ∧ s.envirs task.envir = some envir ∧ task.evset < muxEvsets ∧
    (smonGetEvset s.evsets (envir.esids task.evset) = none ∧ s' = s ∨
      ∃ evset, smonGetEvset s.evsets (envir.esids task.evset) = some evset ∧
        s' = s.started me t task evset) := by
  simp only [State.smonSampleStart, bind_eq_ok, task_eq_ok, envir_eq_ok, esid_eq_ok]
  refine exists_congr fun task => ?_
  constructor
  · rintro ⟨htask, envir, henvir, id, ⟨hmux, rfl⟩, h⟩
    refine ⟨envir, htask, henvir, hmux, ?_⟩
    split at h
    · rename_i hnone
      exact .inl ⟨hnone, (pure_eq_ok.mp h).symm⟩
    · rename_i evset hsome
      exact .inr ⟨evset, hsome, (pure_eq_ok.mp h).symm⟩
  · rintro ⟨envir, htask, henvir, hmux, h⟩
    refine ⟨htask, envir, henvir, _, ⟨hmux, rfl⟩, ?_⟩
    rcases h with ⟨hnone, rfl⟩ | ⟨evset, hsome, rfl⟩
    · rw [hnone]
      rfl
    · rw [hsome]
      rfl

/-- **What `smon_sample_stop` does.** -/
theorem smonSampleStop_eq_ok : s.smonSampleStop me t = .ok s' ↔ ∃ task envir evset,
    s.tasks t = some task ∧ s.envirs task.envir = some envir ∧ task.evset < envir.nEsids.toNat ∧
    task.evset < muxEvsets ∧ smonGetEvset s.evsets (envir.esids task.evset) = some evset ∧
    s' = s.stopped me t task evset := by
  simp only [State.smonSampleStop, bind_eq_ok, task_eq_ok, envir_eq_ok]
  constructor
  · rintro ⟨task, htask, envir, henvir, found, hfound, h⟩
    rcases smonEnvirGetEvset_eq_ok.mp hfound with ⟨-, rfl⟩ | ⟨hn, hmux, hget⟩
    · rw [throw_eq_ok] at h
      exact h.elim
    · cases found with
      | none =>
        rw [throw_eq_ok] at h
        exact h.elim
      | some evset =>
        refine ⟨task, envir, evset, htask, henvir, hn, hmux, hget, (pure_eq_ok.mp h).symm.trans ?_⟩
        simp only [State.stopped, onCpu, msrRdtsc, Function.update_self]
        rfl
  · rintro ⟨task, envir, evset, htask, henvir, hn, hmux, hget, rfl⟩
    refine ⟨task, htask, envir, henvir, some evset,
      smonEnvirGetEvset_eq_ok.mpr (.inr ⟨hn, hmux, hget⟩), pure_eq_ok.mpr ?_⟩
    simp only [State.stopped, onCpu, msrRdtsc, Function.update_self]
    rfl

/-- It reads the counters for an event set that must be there. -/
theorem smonSampleStop_error (htask : s.tasks t = some task)
    (henvir : s.envirs task.envir = some envir)
    (hget : smonEnvirGetEvset s.evsets envir task.evset = .ok none) :
    s.smonSampleStop me t = .error .nullEvset := by
  refine (bind_of_ok (task_eq_ok.mpr htask)).trans ?_
  exact (bind_of_ok (envir_eq_ok.mpr henvir)).trans (bind_of_ok hget)

/-- **What `smon_sample_save` does.** -/
theorem smonSampleSave_eq_ok : s.smonSampleSave t = .ok s' ↔ ∃ task envir,
    s.tasks t = some task ∧ s.envirs task.envir = some envir ∧ 0 < envir.nEsids.toNat ∧
    s' = s.saved t task envir := by
  have henvirs : ∀ (task : SmonTask) (x : Sample),
      (s.smonSampleWrite task.rb x).envirs = s.envirs := by
    intro task x
    cases task.rb <;> rfl
  simp only [State.smonSampleSave, bind_eq_ok, task_eq_ok, envir_eq_ok, henvirs,
    smonEnvirNextEvset_eq_ok]
  refine exists_congr fun task => ?_
  constructor
  · rintro ⟨htask, envir, henvir, j, ⟨hpos, rfl⟩, h⟩
    exact ⟨envir, htask, henvir, hpos, (pure_eq_ok.mp h).symm⟩
  · rintro ⟨envir, htask, henvir, hpos, rfl⟩
    exact ⟨htask, envir, henvir, _, ⟨hpos, rfl⟩, rfl⟩

/-! ### The dial -/

theorem hrtimerForward_active (timer : Hrtimer) (now interval : ℤ) :
    (hrtimerForward timer now interval).active = timer.active := by
  unfold hrtimerForward
  dsimp only
  split <;> rfl

theorem hrtimerForward_cpu (timer : Hrtimer) (now interval : ℤ) :
    (hrtimerForward timer now interval).cpu = timer.cpu := by
  unfold hrtimerForward
  dsimp only
  split <;> rfl

/-- The part of a task that its timer looks at. -/
structure Dial where
  evset : ℕ
  timer : Hrtimer
  ktRemain : ℤ
  timerFlags : Bool

/-- The part of a task that its timer looks at. -/
def SmonTask.dial (task : SmonTask) : Dial :=
  ⟨task.evset, task.timer, task.ktRemain, task.timerFlags⟩

@[simp] theorem SmonTask.saved_dial (task : SmonTask) (envir : SmonEnvir) :
    (task.saved envir).dial =
      { task.dial with evset := (task.evset + 1) % envir.nEsids.toNat } := rfl

@[simp] theorem saved_tasks (s : State) (t : TaskId) (task : SmonTask) (envir : SmonEnvir) :
    (s.saved t task envir).tasks = Function.update s.tasks t (some (task.saved envir)) := by
  simp only [State.saved, State.record, setTask, tasks_smonSampleWrite]

namespace State

/-- The dials of all tasks. -/
def dials (s : State) (t : TaskId) : Option Dial := (s.tasks t).map SmonTask.dial

theorem dials_of_tasks (h : s.tasks t = some task) : s.dials t = some task.dial := by
  simp only [dials, h, Option.map_some]

/-- Writing a task back with its dial as it was. -/
theorem dials_setTask {task' : SmonTask} (htask : s.tasks t = some task)
    (hdial : task'.dial = task.dial) : (s.setTask t task').dials = s.dials := by
  funext u
  by_cases hu : u = t
  · subst hu
    simp only [dials, setTask, Function.update_self, Option.map_some, hdial, htask]
  · simp only [dials, setTask, Function.update_of_ne hu]

theorem dials_congr (h : s'.tasks = s.tasks) : s'.dials = s.dials := by
  funext u
  simp only [dials, h]

end State

theorem dials_smonSampleStart (h : s.smonSampleStart me t = .ok s') : s'.dials = s.dials := by
  obtain ⟨task, envir, htask, -, -, ⟨-, rfl⟩ | ⟨evset, -, rfl⟩⟩ := smonSampleStart_eq_ok.mp h
  · rfl
  · exact dials_setTask (s := s) htask rfl

theorem dials_smonSampleStop (h : s.smonSampleStop me t = .ok s') : s'.dials = s.dials := by
  obtain ⟨task, envir, evset, htask, -, -, -, -, rfl⟩ := smonSampleStop_eq_ok.mp h
  exact dials_setTask (s := s) htask rfl

theorem dials_smonSampleSchedIn (h : s.smonSampleSchedIn me t = .ok s') : s'.dials = s.dials := by
  simp only [smonSampleSchedIn, bind_eq_ok, task_eq_ok, pure_eq_ok] at h
  obtain ⟨task, htask, rfl⟩ := h
  exact dials_setTask (s := s) htask rfl

theorem dials_setExtra {extra : SmonTaskExtra} (h : s.setExtra t extra = .ok s') :
    s'.dials = s.dials := by
  obtain ⟨task, htask, rfl⟩ := setExtra_eq_ok.mp h
  exact dials_setTask htask rfl

theorem tasks_irqWorkQueue (w : Irq) : (s.irqWorkQueue me w).tasks = s.tasks := by
  unfold irqWorkQueue
  split <;> rfl

theorem dials_startExtra (h : s.startExtra me t = .ok s') : s'.dials = s.dials := by
  simp only [startExtra, bind_eq_ok, when_eq_ok] at h
  obtain ⟨-, -, ⟨-, rfl⟩ | ⟨-, h⟩⟩ := h
  · rfl
  simp only [smonTaskExtraStart, bind_eq_ok] at h
  obtain ⟨-, -, extra, -, envir, -, s₁, hset, h⟩ := h
  have hdials : s₁.dials = s.dials := (dials_setExtra hset).trans (dials_congr rfl)
  split at h
  · rw [← pure_eq_ok.mp h]
    exact (dials_congr (tasks_irqWorkQueue ..)).trans hdials
  · rw [← pure_eq_ok.mp h]
    exact (dials_congr rfl).trans hdials

end SchedMon
