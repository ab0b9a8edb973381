import SchedMon.Driver.Cases

/-!
# Event-set indices

An environment comes from user space with up to `MUX_EVSETS` event-set indices, and nothing in the
driver checks them: `smon_create_envir` copies them, and each task goes round them for as long as it
is monitored. `Indexed` is what keeps this safe, and an environment that is `Usable` starts it.

`smon_sample_start` puts up with an event set that does not exist, `smon_sample_stop` does not; so a
client that is not `Usable` is accepted, and faults at the latest when its process exits.

## Main definitions

* `SmonEnvir.Usable` — every index an environment will use is that of an event set
* `Indexed` — every task is at an index of its environment, and each of these is an event set's

## Main results

* `Indexed.exec` — no event but a registration endangers this
-/

namespace SchedMon

open State

/-- The faults of an event-set index that leads nowhere. -/
def Fault.OfEvset : Fault → Prop
  | nullEvset | divideByZero | outOfBounds => True
  | _ => False

/-- The environment has indices, not more than there is room for, and each is an event set's. -/
structure SmonEnvir.Fits (envir : SmonEnvir) (evsets : List SmonEvset) : Prop where
  pos : 0 < envir.nEsids.toNat
  bound : envir.nEsids.toNat ≤ muxEvsets
  exist : ∀ i < envir.nEsids.toNat, (envir.esids i).toNat < evsets.length

namespace State

/-- Every task is at an index of its environment, and each of these is an event set's. -/
structure Indexed (s : State) : Prop where
  fits : ∀ e envir, s.envirs e = some envir → envir.Fits s.evsets
  evset : ∀ t task envir, s.tasks t = some task → s.envirs task.envir = some envir →
    task.evset < envir.nEsids.toNat

end State

/-- The code keeps every index in range, and does not fault for one that is not. -/
abbrev KeepsIndexed : Except Fault State → Prop := Safely Fault.OfEvset Indexed

variable {s s' : State} {t : TaskId} {me : Cpu} {p : Proc}

namespace State.Indexed

variable {task x : SmonTask} {e : EnvirId} {envir : SmonEnvir}

theorem congr (h : s.Indexed) (htasks : s'.tasks = s.tasks) (henvirs : s'.envirs = s.envirs)
    (hevsets : s'.evsets = s.evsets) : s'.Indexed :=
  ⟨by rw [henvirs, hevsets]; exact h.fits, by rw [henvirs, htasks]; exact h.evset⟩

theorem onCpu {f : (ℕ → I64) → ℕ → I64} (h : s.Indexed) : (s.onCpu me f).Indexed :=
  h.congr rfl rfl rfl

theorem record {e : TraceEvent} (h : s.Indexed) : (s.record e).Indexed := h.congr rfl rfl rfl

theorem addCpuList {c : Cpu} (h : s.Indexed) : (s.addCpuList c t).Indexed := h.congr rfl rfl rfl

theorem delCpuList {c : Cpu} (h : s.Indexed) : (s.delCpuList c t).Indexed := h.congr rfl rfl rfl

theorem withKernel (h : s.Indexed) (k : Kernel) : (s.withKernel k).Indexed := h.congr rfl rfl rfl

/-- Writing a task back with an index in range. -/
theorem setTask' (h : s.Indexed) (hevset : ∀ envir, s.envirs x.envir = some envir →
    x.evset < envir.nEsids.toNat) : (s.setTask t x).Indexed := by
  refine ⟨h.fits, fun u y envir hy henvir => ?_⟩
  by_cases hu : u = t
  · subst hu
    simp only [setTask, Function.update_self, Option.some_inj] at hy
    subst hy
    exact hevset envir henvir
  · simp only [setTask, Function.update_of_ne hu] at hy
    exact h.evset u y envir hy henvir

theorem setTask (h : s.Indexed) (htask : s.tasks t = some task) (henvir : x.envir = task.envir)
    (hevset : x.evset = task.evset) : (s.setTask t x).Indexed := by
  refine h.setTask' fun envir he => ?_
  rw [hevset]
  exact h.evset t task envir htask (henvir ▸ he)

/-- Counting the tasks of an environment. -/
theorem setEnvir (h : s.Indexed) (henvir : s.envirs e = some envir) (count : ℤ) :
    (s.setEnvir e { envir with count := count }).Indexed := by
  have hback : ∀ e' o, (s.setEnvir e { envir with count := count }).envirs e' = some o →
      ∃ o', s.envirs e' = some o' ∧ o'.nEsids = o.nEsids ∧ o'.esids = o.esids := by
    intro e' o ho
    by_cases he : e' = e
    · subst he
      simp only [State.setEnvir, Function.update_self, Option.some_inj] at ho
      subst ho
      exact ⟨envir, henvir, rfl, rfl⟩
    · simp only [State.setEnvir, Function.update_of_ne he] at ho
      exact ⟨o, ho, rfl, rfl⟩
  refine ⟨fun e' o ho => ?_, fun u x o hx ho => ?_⟩
  · obtain ⟨o', ho', hn, hesids⟩ := hback e' o ho
    obtain ⟨hpos, hbound, hexist⟩ := h.fits e' o' ho'
    exact ⟨hn ▸ hpos, hn ▸ hbound, fun i hi => hesids ▸ hexist i (hn ▸ hi)⟩
  · obtain ⟨o', ho', hn, -⟩ := hback x.envir o ho
    exact hn ▸ h.evset u x o' hx ho'

/-- A new task starts at the first index. -/
theorem install (h : s.Indexed) (hevset : task.evset = 0) : (s.install task).Indexed := by
  refine ⟨h.fits, fun u x envir hx henvir => ?_⟩
  by_cases hu : u = s.fresh
  · subst hu
    simp only [State.install, Function.update_self, Option.some_inj] at hx
    subst hx
    rw [hevset]
    exact (h.fits _ envir henvir).pos
  · simp only [State.install, Function.update_of_ne hu] at hx
    exact h.evset u x envir hx henvir

/-! ### Lookups -/

theorem task_safe (s : State) (t : TaskId) :
    Safely Fault.OfEvset (fun task => s.tasks t = some task) (s.task t) := by
  unfold State.task
  split
  · assumption
  · exact id

theorem envir_safe (s : State) (e : EnvirId) :
    Safely Fault.OfEvset (fun envir => s.envirs e = some envir) (s.envir e) := by
  unfold State.envir
  split
  · assumption
  · exact id

theorem extra_safe (s : State) (t : TaskId) :
    Safely Fault.OfEvset (fun _ => True) (s.extra t) := by
  refine (task_safe s t).bind fun task _ => ?_
  split
  · trivial
  · exact id

theorem when_safe (h : s.Indexed) {c : Bool} {f : State → Except Fault State}
    (hf : KeepsIndexed (f s)) : KeepsIndexed (s.when c f) := by
  unfold State.when
  split
  · exact hf
  · exact h

theorem whenFound_safe (h : s.Indexed) {found : Option TaskId}
    {f : TaskId → State → Except Fault State} (hf : ∀ t, KeepsIndexed (f t s)) :
    KeepsIndexed (s.whenFound found f) := by
  cases found with
  | none => exact h
  | some t => exact hf t

theorem findTask_safe (s : State) (cond : SmonTask → Bool) (l : List TaskId) :
    Safely Fault.OfEvset (fun _ => True) (s.findTask cond l) := by
  induction l with
  | nil => trivial
  | cons u us ih =>
    refine (task_safe s u).bind fun task _ => ?_
    split
    · trivial
    · exact ih

/-- An index in range is that of an event set. -/
theorem getEvset (h : s.Indexed) (htask : s.tasks t = some task)
    (henvir : s.envirs task.envir = some envir) :
    ∃ evset, smonEnvirGetEvset s.evsets envir task.evset = .ok (some evset) := by
  have hevset := h.evset t task envir htask henvir
  obtain ⟨-, hbound, hexist⟩ := h.fits _ envir henvir
  have hlt := hexist _ hevset
  refine ⟨s.evsets[(envir.esids task.evset).toNat], ?_⟩
  have hmux : task.evset < muxEvsets := Nat.lt_of_lt_of_le hevset hbound
  simp [smonEnvirGetEvset, SmonEnvir.esid, hmux, Nat.not_le.mpr hevset, smonGetEvset, hlt, bind,
    Except.bind, pure, Except.pure]

/-! ### Sampling -/

theorem smonSampleStart (h : s.Indexed) (me : Cpu) (t : TaskId) :
    KeepsIndexed (s.smonSampleStart me t) := by
  refine (task_safe s t).bind fun task htask => (envir_safe s task.envir).bind fun envir henvir => ?_
  have hmux : task.evset < muxEvsets :=
    Nat.lt_of_lt_of_le (h.evset t task envir htask henvir) (h.fits _ envir henvir).bound
  refine Safely.bind (P := fun _ => True) (by simp [SmonEnvir.esid, hmux, Safely]) fun esid _ => ?_
  split
  · exact h
  · exact .record (.onCpu (.setTask (h.congr rfl rfl rfl) htask rfl rfl))

theorem smonSampleStop (h : s.Indexed) (me : Cpu) (t : TaskId) :
    KeepsIndexed (s.smonSampleStop me t) := by
  refine (task_safe _ t).bind fun task htask => (envir_safe _ task.envir).bind fun envir henvir => ?_
  obtain ⟨evset, hget⟩ := h.getEvset htask henvir
  have hevsets : (s.onCpu me smonPmcStop).evsets = s.evsets := rfl
  rw [hevsets, hget]
  exact .record (.setTask (h.congr rfl rfl rfl) htask rfl rfl)

theorem smonSampleWrite (h : s.Indexed) (rb : Option RbId) (sample : Sample) :
    (s.smonSampleWrite rb sample).Indexed := by
  cases rb <;> exact h.congr rfl rfl rfl

/-- Going round the indices stays among them. -/
theorem smonSampleSave (h : s.Indexed) (t : TaskId) : KeepsIndexed (s.smonSampleSave t) := by
  refine (task_safe s t).bind fun task htask => ?_
  have hwrite := h.smonSampleWrite task.rb
    (.pmc { task.samplePmc with pid := task.pid, evset := task.evset })
  refine (envir_safe _ task.envir).bind fun envir henvir => ?_
  have hpos := (hwrite.fits _ envir henvir).pos
  simp only [smonEnvirNextEvset, Nat.ne_of_gt hpos, if_false]
  refine .record (hwrite.setTask' fun envir' henvir' => ?_)
  obtain rfl := Option.some_inj.mp (henvir'.symm.trans henvir)
  exact Nat.mod_lt _ hpos

theorem smonSampleSchedIn (h : s.Indexed) (me : Cpu) (t : TaskId) :
    KeepsIndexed (s.smonSampleSchedIn me t) :=
  (task_safe s t).bind fun _ htask => .setTask (h.congr rfl rfl rfl) htask rfl rfl

theorem smonSampleSchedOut (h : s.Indexed) (t : TaskId) : KeepsIndexed (s.smonSampleSchedOut t) :=
  (task_safe s t).bind fun _ htask => .setTask (h.congr rfl rfl rfl) htask rfl rfl

theorem smonSampleSchedSave (h : s.Indexed) (t : TaskId) :
    KeepsIndexed (s.smonSampleSchedSave t) :=
  (task_safe s t).bind fun task _ => (h.smonSampleWrite task.rb _).record

/-! ### Timers -/

theorem startTimerPmc (h : s.Indexed) (me : Cpu) (t : TaskId) :
    KeepsIndexed (s.startTimerPmc me t) := by
  refine (task_safe s t).bind fun task htask => (envir_safe s task.envir).bind fun envir _ => ?_
  refine State.Indexed.smonSampleStart ?_ me t
  exact h.setTask htask rfl rfl

theorem stopTimerPmc (h : s.Indexed) (t : TaskId) : KeepsIndexed (s.stopTimerPmc t) :=
  (task_safe s t).bind fun _ htask => h.setTask htask rfl rfl

theorem irqWorkQueue (h : s.Indexed) (me : Cpu) (w : Irq) : (s.irqWorkQueue me w).Indexed := by
  unfold State.irqWorkQueue
  split
  · exact h
  · exact h.congr rfl rfl rfl

theorem smonSchedTaskIn (h : s.Indexed) (me : Cpu) (t : TaskId) :
    KeepsIndexed (s.smonSchedTaskIn me t) := by
  refine (task_safe s t).bind fun task _ => (envir_safe s task.envir).bind fun envir _ => ?_
  refine (h.when_safe (h.smonSampleSchedIn me t)).bind fun s₁ h₁ => ?_
  split
  · exact h₁.smonSampleStart me t
  · exact h₁.irqWorkQueue me _

theorem smonSchedTimerOut (h : s.Indexed) (me : Cpu) (t : TaskId) :
    KeepsIndexed (s.smonSchedTimerOut me t) := by
  refine (task_safe s t).bind fun task htask => ?_
  have h₁ := h.setTask (t := t) (x := { task with
    ktRemain := hrtimerExpiresRemaining task.timer s.now }) htask rfl rfl
  refine (h₁.when_safe (h₁.smonSampleSave t)).bind fun s₂ h₂ => ?_
  refine (task_safe s₂ t).bind fun task₂ htask₂ => ?_
  have h₃ := (h₂.setTask (t := t) (x := { task₂ with timerFlags := false }) htask₂ rfl
    rfl).irqWorkQueue me (.stopTimer t)
  refine (envir_safe _ task₂.envir).bind fun envir _ => h₃.when_safe ?_
  exact (h₃.smonSampleSchedOut t).bind fun s₄ h₄ => h₄.smonSampleSchedSave t

theorem smonSchedTaskOut (h : s.Indexed) (me : Cpu) (t : TaskId) :
    KeepsIndexed (s.smonSchedTaskOut me t) :=
  (h.smonSampleStop me t).bind fun s₁ h₁ => (task_safe s₁ t).bind fun _ _ =>
    h₁.when_safe (h₁.smonSchedTimerOut me t)

theorem smonSchedTimerTick (h : s.Indexed) (t : TaskId) : KeepsIndexed (s.smonSchedTimerTick t) := by
  refine (task_safe s t).bind fun task htask => ?_
  split
  · refine (h.smonSampleStop _ t).bind fun s₁ h₁ => (h₁.smonSampleSave t).bind fun s₂ h₂ => ?_
    refine (task_safe s₂ t).bind fun task₂ htask₂ => (envir_safe s₂ _).bind fun envir _ => ?_
    refine State.Indexed.smonSampleStart ?_ _ t
    exact h₂.setTask htask₂ rfl rfl
  · exact h.setTask htask rfl rfl

/-! ### The extra part -/

theorem setExtra (h : s.Indexed) (t : TaskId) (extra : SmonTaskExtra) :
    KeepsIndexed (s.setExtra t extra) :=
  (task_safe s t).bind fun _ htask => h.setTask htask rfl rfl

theorem smonSchedTimerRapl (h : s.Indexed) (t : TaskId) : KeepsIndexed (s.smonSchedTimerRapl t) := by
  refine (extra_safe s t).bind fun extra _ => ?_
  dsimp only
  split
  · refine State.Indexed.setExtra ?_ t _
    exact h.congr rfl rfl rfl
  · exact h.setExtra t _

theorem startTimerRapl (h : s.Indexed) (me : Cpu) (t : TaskId) :
    KeepsIndexed (s.startTimerRapl me t) := by
  refine (extra_safe s t).bind fun extra _ => ?_
  refine State.Indexed.setExtra ?_ t _
  exact h.congr rfl rfl rfl

theorem startExtra (h : s.Indexed) (me : Cpu) (t : TaskId) : KeepsIndexed (s.startExtra me t) := by
  refine (task_safe s t).bind fun task _ => h.when_safe ?_
  refine (task_safe s t).bind fun task _ => (extra_safe s t).bind fun extra _ => ?_
  refine (envir_safe s _).bind fun envir _ => ?_
  refine Safely.bind (P := Indexed) ?_ fun s₁ h₁ => ?_
  · refine State.Indexed.setExtra ?_ t _
    exact h.congr rfl rfl rfl
  split
  · refine .pure (State.Indexed.irqWorkQueue ?_ me _)
    exact h₁.congr rfl rfl rfl
  · exact h₁.congr rfl rfl rfl

theorem cancelRapl (h : s.Indexed) (t : TaskId) : KeepsIndexed (s.cancelRapl t) :=
  (extra_safe s t).bind fun _ _ => h.setExtra t _

theorem runIrq (h : s.Indexed) (me : Cpu) (w : Irq) : KeepsIndexed (s.runIrq me w) := by
  cases w with
  | startTimer t => exact h.startTimerPmc me t
  | stopTimer t => exact h.stopTimerPmc t
  | startRapl t => exact h.startTimerRapl me t

/-! ### Tasks that come and go -/

theorem smonReleaseRb (h : s.Indexed) (b : RbId) : (s.smonReleaseRb b).Indexed := by
  unfold State.smonReleaseRb
  dsimp only
  split <;> exact h.congr rfl rfl rfl

theorem smonSchedRegisterChild (h : s.Indexed) (parent : TaskId) (p : Proc) (alloc : Bool) :
    KeepsIndexed (s.smonSchedRegisterChild parent p alloc) := by
  have hcreate : Safely Fault.OfEvset (fun x => x.2.Indexed) (s.smonCreateChild parent p alloc) := by
    unfold smonCreateChild
    split
    · exact h
    · refine (task_safe s parent).bind fun task _ => ?_
      split
      · exact id
      · rename_i b hrb
        refine Safely.bind (P := Indexed) ((envir_safe _ _).bind fun envir henvir => ?_)
          fun s₁ h₁ => h₁.install rfl
        have h₁ : (s.smonGetRb b).Indexed := h.congr rfl rfl rfl
        exact h₁.setEnvir henvir _
  refine hcreate.bind fun x hx => ?_
  split
  · exact hx
  · refine Safely.bind (P := Indexed) ?_ fun s₁ h₁ => (task_safe s₁ _).bind fun task htask => ?_
    · refine Safely.bind (P := fun _ => True) ((task_safe _ parent).bind fun _ _ => trivial)
        fun next _ => ?_
      exact (task_safe _ next).bind fun _ _ => .record (hx.congr rfl rfl rfl)
    · exact .pure (.addCpuList (.setTask h₁ htask rfl rfl))

theorem leave (h : s.Indexed) (t : TaskId) : KeepsIndexed (s.leave t) := by
  refine (task_safe s t).bind fun task htask => ?_
  split
  · exact id
  · rename_i b hrb
    have htasks : (s.smonReleaseRb b).tasks = s.tasks := by
      unfold State.smonReleaseRb
      dsimp only
      split <;> rfl
    have htask' : (s.smonReleaseRb b).tasks t = some task := by rw [htasks, htask]
    exact .pure (.setTask (h.smonReleaseRb b) htask' rfl rfl)

theorem smonDestroyTask (h : s.Indexed) (t : TaskId) : KeepsIndexed (s.smonDestroyTask t) := by
  refine (task_safe s t).bind fun task _ => ?_
  have h₁ : (s.releaseTaskRb task).Indexed := by
    unfold releaseTaskRb
    split
    · exact h.smonReleaseRb _
    · exact h
  refine Safely.bind (P := Indexed) ((envir_safe _ _).bind fun envir henvir => ?_) fun s₂ h₂ => ?_
  · dsimp only
    split
    · refine .record ⟨fun e o ho => ?_, fun u x o hx ho => ?_⟩
      · simp only [Function.update_apply] at ho
        split at ho
        · cases ho
        · exact h₁.fits e o ho
      · simp only [Function.update_apply] at ho
        split at ho
        · cases ho
        · exact h₁.evset u x o hx ho
    · exact h₁.setEnvir henvir _
  · refine .record ⟨h₂.fits, fun u x o hx ho => ?_⟩
    simp only [Function.update_apply] at hx
    split at hx
    · cases hx
    · exact h₂.evset u x o hx ho

theorem delChild (h : s.Indexed) (t : TaskId) : KeepsIndexed (s.delChild t) := by
  refine Safely.bind (P := fun _ => True) ((task_safe _ t).bind fun _ _ => trivial) fun next _ => ?_
  exact (task_safe s _).bind fun _ _ => (task_safe s _).bind fun _ _ => .pure (h.congr rfl rfl rfl)

theorem unregisterChildrenFrom (h : s.Indexed) (root : TaskId) (fuel : ℕ) (pos n : TaskId) :
    KeepsIndexed (unregisterChildrenFrom root fuel pos n s) := by
  induction fuel generalizing s pos n with
  | zero => exact id
  | succ fuel ih =>
    unfold State.unregisterChildrenFrom
    split
    · exact h
    · refine (h.delChild pos).bind fun s₁ h₁ => (h₁.smonDestroyTask pos).bind fun s₂ h₂ => ?_
      exact Safely.bind (P := fun _ => True) ((task_safe _ _).bind fun _ _ => trivial)
        fun next _ => ih h₂ n next

theorem smonSchedUnregisterTask (h : s.Indexed) (pid : Pid) :
    Safely Fault.OfEvset (fun x => x.2.Indexed) (s.smonSchedUnregisterTask pid) := by
  refine (findTask_safe s _ _).bind fun found _ => ?_
  split
  · rename_i t
    refine Safely.bind (P := Indexed) ((task_safe s t).bind fun task htask => ?_) fun s₁ h₁ => h₁
    refine Safely.bind (P := Indexed) ?_ fun s₁ h₁ => ?_
    · refine Safely.bind (P := fun _ => True) ((task_safe _ _).bind fun _ _ => trivial) fun pos _ => ?_
      refine Safely.bind (P := fun _ => True) ((task_safe _ _).bind fun _ _ => trivial) fun n _ => ?_
      refine State.Indexed.unregisterChildrenFrom ?_ t _ pos n
      exact h.setTask htask rfl rfl
    · refine (envir_safe _ _).bind fun envir _ => ?_
      have h₂ : ({ s₁ with taskList := s₁.taskList.erase t } : State).Indexed := h₁.congr rfl rfl rfl
      exact (h₂.when_safe (h₂.cancelRapl t)).bind fun s₃ h₃ => h₃.smonDestroyTask t
  · exact h

/-! ### Hooks -/

theorem smonSchedSwitch (h : s.Indexed) (prev next : Proc) :
    KeepsIndexed (s.smonSchedSwitch prev next) := by
  refine (findTask_safe s _ _).bind fun found _ => ?_
  refine (h.whenFound_safe fun t => h.smonSchedTaskOut _ t).bind fun s₁ h₁ => ?_
  exact (findTask_safe s₁ _ _).bind fun found _ => h₁.whenFound_safe fun t => h₁.smonSchedTaskIn _ t

theorem smonSchedMigrateTask (h : s.Indexed) (p : Proc) (dest : Cpu) :
    KeepsIndexed (s.smonSchedMigrateTask p dest) := by
  refine (findTask_safe s _ _).bind fun found _ => h.whenFound_safe fun t => ?_
  refine (task_safe _ t).bind fun task _ => (envir_safe _ _).bind fun envir _ => .addCpuList ?_
  split
  · refine State.Indexed.smonSampleWrite ?_ _ _
    exact h.congr rfl rfl rfl
  · exact h.delCpuList

theorem smonSchedProcessFork (h : s.Indexed) (parent child : Proc) (alloc : Bool) :
    KeepsIndexed (s.smonSchedProcessFork parent child alloc) := by
  refine (findTask_safe s _ _).bind fun found _ => h.whenFound_safe fun t => ?_
  refine (task_safe _ t).bind fun task _ => (envir_safe _ _).bind fun envir _ => ?_
  refine (h.when_safe (h.smonSchedRegisterChild t child alloc)).bind fun s₁ h₁ => ?_
  split
  · refine State.Indexed.smonSampleWrite ?_ _ _
    exact h₁.congr rfl rfl rfl
  · exact h₁

theorem smonSchedProcessExec (h : s.Indexed) (p : Proc) : KeepsIndexed (s.smonSchedProcessExec p) := by
  refine (findTask_safe s _ _).bind fun found _ => h.whenFound_safe fun t => ?_
  have hdel : (s.delWaitList t).Indexed := h.congr rfl rfl rfl
  refine (hdel.startExtra _ t).bind fun s₁ h₁ => ?_
  exact (h₁.smonSchedTaskIn _ t).bind fun s₂ h₂ => h₂.addCpuList

theorem smonSchedProcessExit (h : s.Indexed) (p : Proc) : KeepsIndexed (s.smonSchedProcessExit p) := by
  refine (findTask_safe s _ _).bind fun found _ => ?_
  split
  · rename_i t
    refine (task_safe _ t).bind fun task htask => ?_
    have h₁ := h.setTask (t := t) (x := { task with timer := hrtimerCancel task.timer }) htask
      rfl rfl
    refine (h₁.smonSampleStop _ t).bind fun s₂ h₂ => (h₂.smonSampleSave t).bind fun s₃ h₃ => ?_
    exact (h₃.delCpuList.leave t).bind fun s₄ h₄ => h₄.when_safe (h₄.cancelRapl t)
  · refine (findTask_safe s _ _).bind fun found _ => h.whenFound_safe fun t => ?_
    have hdel : (s.delWaitList t).Indexed := h.congr rfl rfl rfl
    exact hdel.leave t

/-- **No event but a registration endangers the indices**, and none of them faults for an index. -/
theorem exec (h : s.Indexed) {l : Label} (hl : ∀ me pid envir b alloc, l ≠ .register me pid envir b alloc) :
    KeepsIndexed (s.exec l) := by
  cases l with
  | time d => exact h.congr rfl rfl rfl
  | count me ctr inc => exact h.congr rfl rfl rfl
  | irq me w =>
    refine State.Indexed.runIrq ?_ me w
    exact h.congr rfl rfl rfl
  | tick t => exact h.smonSchedTimerTick t
  | raplTick t => exact h.smonSchedTimerRapl t
  | switch me next => exact (h.smonSchedSwitch _ next).bind fun s₁ h₁ => h₁.withKernel _
  | migrate p dest => exact (h.smonSchedMigrateTask p dest).bind fun s₁ h₁ => h₁.withKernel _
  | fork parent child pid cpu leader alloc =>
    exact (h.withKernel _).smonSchedProcessFork parent child alloc
  | exec p => exact h.smonSchedProcessExec p
  | exit p => exact h.smonSchedProcessExit p
  | reap p => exact h.withKernel _
  | register me pid envir b alloc => exact absurd rfl (hl me pid envir b alloc)
  | unregister pid => exact (h.smonSchedUnregisterTask pid).bind fun x hx => hx

end State.Indexed

end SchedMon
