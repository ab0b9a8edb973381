import SchedMon.Driver.Effect

/-!
# Who holds a ring buffer

A task holds the buffer it writes to, in its own field and in its extra part. Nothing but a
registration brings a buffer to a task that none held before, and no hook and no timer looks at a
buffer that no task holds.

## Main definitions

* `SmonTask.Holds`, `State.Held` — a task refers to a buffer
* `State.Confined` — the buffers that are held, and those that were worked on, are among some

## Main results

* `Confined.exec` — **every event keeps to the buffers that are held**, and the one it registers
-/

namespace SchedMon

open State

/-- The task refers to the buffer, itself or in its extra part. -/
def SmonTask.Holds (task : SmonTask) (b : RbId) : Prop :=
  task.rb = some b ∨ task.extra.map SmonTaskExtra.rb = some b

namespace State

/-- Some task refers to the buffer. -/
def Held (s : State) (b : RbId) : Prop := ∃ t task, s.tasks t = some task ∧ task.Holds b

/-- Every buffer that a task refers to is among those of `H`, and so is every buffer that is not as
it was in `r`. -/
structure Confined (H : RbId → Prop) (r : RbId → Rb) (s : State) : Prop where
  held : ∀ t task b, s.tasks t = some task → task.Holds b → H b
  rbs : ∀ b, s.rbs b ≠ r b → H b

end State

variable {H : RbId → Prop} {r : RbId → Rb} {s s' : State} {t : TaskId} {me : Cpu} {p : Proc}

/-- The code keeps to the buffers of `H`, if it returns. -/
abbrev KeepsConfined (H : RbId → Prop) (r : RbId → Rb) : Except Fault State → Prop :=
  Safely (fun _ => False) (Confined H r)

namespace State.Confined

variable {task x : SmonTask} {b : RbId}

theorem congr (h : s.Confined H r) (htasks : s'.tasks = s.tasks) (hrbs : s'.rbs = s.rbs) :
    s'.Confined H r :=
  ⟨by rw [htasks]; exact h.held, by rw [hrbs]; exact h.rbs⟩

theorem addCpuList {c : Cpu} (h : s.Confined H r) : (s.addCpuList c t).Confined H r :=
  h.congr rfl rfl

/-- Writing a task back that refers to no other buffer. -/
theorem setTask' (h : s.Confined H r) (hx : ∀ b, x.Holds b → H b) : (s.setTask t x).Confined H r := by
  refine ⟨fun u y b hy hb => ?_, h.rbs⟩
  by_cases hu : u = t
  · subst hu
    simp only [State.setTask, Function.update_self, Option.some_inj] at hy
    subst hy
    exact hx b hb
  · simp only [State.setTask, Function.update_of_ne hu] at hy
    exact h.held u y b hy hb

theorem setTask (h : s.Confined H r) (htask : s.tasks t = some task) (hcore : x.core = task.core) :
    (s.setTask t x).Confined H r := by
  refine h.setTask' fun b hb => h.held t task b htask ?_
  have hrb : x.rb = task.rb := congrArg (fun c => c.1.rb) hcore
  have hextra : x.extra.map SmonTaskExtra.rb = task.extra.map SmonTaskExtra.rb :=
    congrArg Prod.snd hcore
  rw [SmonTask.Holds, ← hrb, ← hextra]
  exact hb

/-- Working on a buffer of `H`. -/
theorem setRb (h : s.Confined H r) (hb : H b) (rb : Rb) :
    ({ s with rbs := Function.update s.rbs b rb } : State).Confined H r := by
  refine ⟨h.held, fun b' hne => ?_⟩
  by_cases hb' : b' = b
  · exact hb' ▸ hb
  · exact h.rbs b' (by simpa only [Function.update_of_ne hb'] using hne)

theorem smonSampleWrite (h : s.Confined H r) {rb : Option RbId} (hrb : ∀ b, rb = some b → H b)
    (sample : Sample) : (s.smonSampleWrite rb sample).Confined H r := by
  cases rb with
  | none => exact h
  | some b => exact h.setRb (hrb b rfl) _

/-- A task's own buffer is one it refers to. -/
theorem of_rb (h : s.Confined H r) (htask : s.tasks t = some task) (hrb : task.rb = some b) : H b :=
  h.held t task b htask (.inl hrb)

theorem install (h : s.Confined H r) (hx : ∀ b, x.Holds b → H b) : (s.install x).Confined H r := by
  refine ⟨fun u y b hy hb => ?_, h.rbs⟩
  by_cases hu : u = s.fresh
  · subst hu
    simp only [State.install, Function.update_self, Option.some_inj] at hy
    subst hy
    exact hx b hb
  · simp only [State.install, Function.update_of_ne hu] at hy
    exact h.held u y b hy hb

/-! ### Lookups -/

theorem task_safe (s : State) (t : TaskId) :
    Safely (fun _ : Fault => False) (fun task => s.tasks t = some task) (s.task t) :=
  .of_returned fun _ => task_eq_ok.mp

theorem envir_safe (s : State) (e : EnvirId) :
    Safely (fun _ : Fault => False) (fun envir => s.envirs e = some envir) (s.envir e) :=
  .of_returned fun _ => envir_eq_ok.mp

theorem extra_safe (h : s.Confined H r) (t : TaskId) :
    Safely (fun _ : Fault => False) (fun extra => H extra.rb) (s.extra t) := by
  refine .of_returned fun extra hextra => ?_
  obtain ⟨task, htask, hx⟩ := extra_eq_ok.mp hextra
  exact h.held t task _ htask (.inr (by rw [hx, Option.map_some]))

theorem when_safe (h : s.Confined H r) {c : Bool} {f : State → Except Fault State}
    (hf : KeepsConfined H r (f s)) : KeepsConfined H r (s.when c f) := by
  unfold State.when
  split
  · exact hf
  · exact h

theorem whenFound_safe (h : s.Confined H r) {found : Option TaskId}
    {f : TaskId → State → Except Fault State} (hf : ∀ t, KeepsConfined H r (f t s)) :
    KeepsConfined H r (s.whenFound found f) := by
  cases found with
  | none => exact h
  | some t => exact hf t

theorem findTask_safe (s : State) (cond : SmonTask → Bool) (l : List TaskId) :
    Safely (fun _ : Fault => False) (fun _ => True) (s.findTask cond l) :=
  .of_returned fun _ _ => trivial

/-! ### Sampling -/

theorem smonSampleStart (h : s.Confined H r) (me : Cpu) (t : TaskId) :
    KeepsConfined H r (s.smonSampleStart me t) := by
  refine .of_returned fun s' hs' => ?_
  obtain ⟨task, envir, htask, -, -, ⟨-, rfl⟩ | ⟨evset, -, rfl⟩⟩ := smonSampleStart_eq_ok.mp hs'
  · exact h
  · exact (h.setTask (x := task.started (s.clock s.reads)) htask rfl).congr rfl rfl

theorem smonSampleStop (h : s.Confined H r) (me : Cpu) (t : TaskId) :
    KeepsConfined H r (s.smonSampleStop me t) := by
  refine .of_returned fun s' hs' => ?_
  obtain ⟨task, envir, evset, htask, -, -, -, -, rfl⟩ := smonSampleStop_eq_ok.mp hs'
  exact (h.setTask (x := task.stopped (s.clock s.reads)
    (smonPmcRead evset (smonPmcStop (s.msr me)))) htask rfl).congr rfl rfl

theorem smonSampleSave (h : s.Confined H r) (t : TaskId) : KeepsConfined H r (s.smonSampleSave t) := by
  refine .of_returned fun s' hs' => ?_
  obtain ⟨task, envir, htask, -, -, rfl⟩ := smonSampleSave_eq_ok.mp hs'
  have hwrite := h.smonSampleWrite (fun b => h.of_rb htask) (.pmc task.record)
  have htask' : (s.smonSampleWrite task.rb (.pmc task.record)).tasks t = some task := by
    rw [tasks_smonSampleWrite, htask]
  exact (hwrite.setTask (x := task.saved envir) htask' rfl).congr rfl rfl

theorem smonSampleSchedIn (h : s.Confined H r) (me : Cpu) (t : TaskId) :
    KeepsConfined H r (s.smonSampleSchedIn me t) :=
  (task_safe s t).bind fun _ htask => .setTask (h.congr rfl rfl) htask rfl

theorem smonSampleSchedOut (h : s.Confined H r) (t : TaskId) :
    KeepsConfined H r (s.smonSampleSchedOut t) :=
  (task_safe s t).bind fun _ htask => .setTask (h.congr rfl rfl) htask rfl

theorem smonSampleSchedSave (h : s.Confined H r) (t : TaskId) :
    KeepsConfined H r (s.smonSampleSchedSave t) :=
  (task_safe s t).bind fun _ htask => (h.smonSampleWrite (fun _ => h.of_rb htask) _).congr rfl rfl

/-! ### Timers -/

theorem startTimerPmc (h : s.Confined H r) (me : Cpu) (t : TaskId) :
    KeepsConfined H r (s.startTimerPmc me t) := by
  refine (task_safe s t).bind fun task htask => (envir_safe s task.envir).bind fun envir _ => ?_
  refine State.Confined.smonSampleStart ?_ me t
  exact h.setTask htask rfl

theorem stopTimerPmc (h : s.Confined H r) (t : TaskId) : KeepsConfined H r (s.stopTimerPmc t) :=
  (task_safe s t).bind fun _ htask => h.setTask htask rfl

theorem irqWorkQueue (h : s.Confined H r) (me : Cpu) (w : Irq) :
    (s.irqWorkQueue me w).Confined H r := by
  unfold State.irqWorkQueue
  split
  · exact h
  · exact h.congr rfl rfl

theorem smonSchedTaskIn (h : s.Confined H r) (me : Cpu) (t : TaskId) :
    KeepsConfined H r (s.smonSchedTaskIn me t) := by
  refine (task_safe s t).bind fun task _ => (envir_safe s task.envir).bind fun envir _ => ?_
  refine (h.when_safe (h.smonSampleSchedIn me t)).bind fun s₁ h₁ => ?_
  split
  · exact h₁.smonSampleStart me t
  · exact h₁.irqWorkQueue me _

theorem smonSchedTimerOut (h : s.Confined H r) (me : Cpu) (t : TaskId) :
    KeepsConfined H r (s.smonSchedTimerOut me t) := by
  refine (task_safe s t).bind fun task htask => ?_
  have h₁ := h.setTask (t := t) (x := { task with
    ktRemain := hrtimerExpiresRemaining task.timer s.now }) htask rfl
  refine (h₁.when_safe (h₁.smonSampleSave t)).bind fun s₂ h₂ => ?_
  refine (task_safe s₂ t).bind fun task₂ htask₂ => ?_
  have h₃ := (h₂.setTask (t := t) (x := { task₂ with timerFlags := false }) htask₂
    rfl).irqWorkQueue me (.stopTimer t)
  refine (envir_safe _ task₂.envir).bind fun envir _ => h₃.when_safe ?_
  exact (h₃.smonSampleSchedOut t).bind fun s₄ h₄ => h₄.smonSampleSchedSave t

theorem smonSchedTaskOut (h : s.Confined H r) (me : Cpu) (t : TaskId) :
    KeepsConfined H r (s.smonSchedTaskOut me t) :=
  (h.smonSampleStop me t).bind fun s₁ h₁ => (task_safe s₁ t).bind fun _ _ =>
    h₁.when_safe (h₁.smonSchedTimerOut me t)

theorem smonSchedTimerTick (h : s.Confined H r) (t : TaskId) :
    KeepsConfined H r (s.smonSchedTimerTick t) := by
  refine (task_safe s t).bind fun task htask => ?_
  split
  · refine (h.smonSampleStop _ t).bind fun s₁ h₁ => (h₁.smonSampleSave t).bind fun s₂ h₂ => ?_
    refine (task_safe s₂ t).bind fun task₂ htask₂ => (envir_safe s₂ _).bind fun envir _ => ?_
    refine State.Confined.smonSampleStart ?_ _ t
    exact h₂.setTask htask₂ rfl
  · exact h.setTask htask rfl

/-! ### The extra part -/

theorem setExtra (h : s.Confined H r) (t : TaskId) {extra : SmonTaskExtra} (hrb : H extra.rb) :
    KeepsConfined H r (s.setExtra t extra) := by
  refine (task_safe s t).bind fun task htask => h.setTask' fun b hb => ?_
  rcases hb with hb | hb
  · exact h.of_rb htask hb
  · exact Option.some_inj.mp hb ▸ hrb

theorem smonSchedTimerRapl (h : s.Confined H r) (t : TaskId) :
    KeepsConfined H r (s.smonSchedTimerRapl t) := by
  refine (h.extra_safe t).bind fun extra hrb => ?_
  dsimp only
  split
  · refine State.Confined.setExtra ?_ t hrb
    exact State.Confined.congr (h.setRb hrb _) rfl rfl
  · exact h.setExtra t hrb

theorem startTimerRapl (h : s.Confined H r) (me : Cpu) (t : TaskId) :
    KeepsConfined H r (s.startTimerRapl me t) := by
  refine (h.extra_safe t).bind fun extra hrb => ?_
  refine State.Confined.setExtra ?_ t hrb
  exact h.congr rfl rfl

theorem startExtra (h : s.Confined H r) (me : Cpu) (t : TaskId) :
    KeepsConfined H r (s.startExtra me t) := by
  refine (task_safe s t).bind fun task _ => h.when_safe ?_
  refine (task_safe s t).bind fun task _ => (h.extra_safe t).bind fun extra hrb => ?_
  refine (envir_safe s _).bind fun envir _ => ?_
  refine Safely.bind (P := State.Confined H r) ?_ fun s₁ h₁ => ?_
  · refine State.Confined.setExtra ?_ t hrb
    exact h.congr rfl rfl
  split
  · exact State.Confined.irqWorkQueue (h₁.setRb hrb _) me _
  · exact h₁.setRb hrb _

theorem cancelRapl (h : s.Confined H r) (t : TaskId) : KeepsConfined H r (s.cancelRapl t) :=
  (h.extra_safe t).bind fun _ hrb => h.setExtra t hrb

theorem runIrq (h : s.Confined H r) (me : Cpu) (w : Irq) : KeepsConfined H r (s.runIrq me w) := by
  cases w with
  | startTimer t => exact h.startTimerPmc me t
  | stopTimer t => exact h.stopTimerPmc t
  | startRapl t => exact h.startTimerRapl me t

/-! ### Tasks that come and go -/

theorem smonReleaseRb (h : s.Confined H r) (hb : H b) : (s.smonReleaseRb b).Confined H r := by
  unfold State.smonReleaseRb
  dsimp only
  split
  · exact (h.setRb hb _).setRb hb _
  · exact h.setRb hb _

theorem smonSchedRegisterChild (h : s.Confined H r) (parent : TaskId) (p : Proc) (alloc : Bool) :
    KeepsConfined H r (s.smonSchedRegisterChild parent p alloc) := by
  have hcreate : Safely (fun _ => False) (fun x => x.2.Confined H r)
      (s.smonCreateChild parent p alloc) := by
    unfold smonCreateChild
    split
    · exact h
    · refine (task_safe s parent).bind fun task htask => ?_
      split
      · exact id
      · rename_i b hrb
        have hb : H b := h.of_rb htask hrb
        refine Safely.bind (P := State.Confined H r) ((envir_safe _ _).bind fun envir _ => ?_)
          fun s₁ h₁ => h₁.install fun b' hb' => ?_
        · exact State.Confined.congr (h.setRb hb _) rfl rfl
        · rcases hb' with hb' | hb'
          · exact Option.some_inj.mp hb' ▸ hb
          · cases hb'
  refine hcreate.bind fun x hx => ?_
  split
  · exact hx
  · refine Safely.bind (P := State.Confined H r) ?_ fun s₁ h₁ =>
      (task_safe s₁ _).bind fun task htask => ?_
    · refine Safely.bind (P := fun _ => True) (.of_returned fun _ _ => trivial) fun next _ => ?_
      exact (task_safe _ next).bind fun _ _ => hx.congr rfl rfl
    · exact .addCpuList (.setTask' h₁ fun b hb => h₁.held parent task b htask hb)

theorem leave (h : s.Confined H r) (t : TaskId) : KeepsConfined H r (s.leave t) := by
  refine (task_safe s t).bind fun task htask => ?_
  split
  · exact id
  · rename_i b hrb
    refine State.Confined.setTask' (h.smonReleaseRb (h.of_rb htask hrb)) fun b' hb' => ?_
    rcases hb' with hb' | hb'
    · cases hb'
    · exact h.held t task b' htask (.inr hb')

theorem smonDestroyTask (h : s.Confined H r) (t : TaskId) :
    KeepsConfined H r (s.smonDestroyTask t) := by
  refine (task_safe s t).bind fun task htask => ?_
  have h₁ : (s.releaseTaskRb task).Confined H r := by
    unfold releaseTaskRb
    split
    · rename_i b hrb
      exact h.smonReleaseRb (h.of_rb htask hrb)
    · exact h
  refine Safely.bind (P := State.Confined H r) ((envir_safe _ _).bind fun envir _ => ?_)
    fun s₂ h₂ => ?_
  · dsimp only
    split
    · exact h₁.congr rfl rfl
    · exact h₁.congr rfl rfl
  · refine ⟨fun u x b hx hb => ?_, h₂.rbs⟩
    simp only [State.record, Function.update_apply] at hx
    split at hx
    · cases hx
    · exact h₂.held u x b hx hb

theorem delChild (h : s.Confined H r) (t : TaskId) : KeepsConfined H r (s.delChild t) := by
  refine Safely.bind (P := fun _ => True) (.of_returned fun _ _ => trivial) fun next _ => ?_
  exact (task_safe s _).bind fun _ _ => (task_safe s _).bind fun _ _ => h.congr rfl rfl

theorem unregisterChildrenFrom (h : s.Confined H r) (root : TaskId) (fuel : ℕ) (pos n : TaskId) :
    KeepsConfined H r (unregisterChildrenFrom root fuel pos n s) := by
  induction fuel generalizing s pos n with
  | zero => exact id
  | succ fuel ih =>
    unfold State.unregisterChildrenFrom
    split
    · exact h
    · refine (h.delChild pos).bind fun s₁ h₁ => (h₁.smonDestroyTask pos).bind fun s₂ h₂ => ?_
      exact Safely.bind (P := fun _ => True) (.of_returned fun _ _ => trivial)
        fun next _ => ih h₂ n next

theorem smonSchedUnregisterTask (h : s.Confined H r) (pid : Pid) :
    Safely (fun _ => False) (fun x => x.2.Confined H r) (s.smonSchedUnregisterTask pid) := by
  refine (findTask_safe s _ _).bind fun found _ => ?_
  split
  · rename_i t
    refine Safely.bind (P := State.Confined H r) ((task_safe s t).bind fun task htask => ?_)
      fun s₁ h₁ => h₁
    refine Safely.bind (P := State.Confined H r) ?_ fun s₁ h₁ => ?_
    · refine Safely.bind (P := fun _ => True) (.of_returned fun _ _ => trivial) fun pos _ => ?_
      refine Safely.bind (P := fun _ => True) (.of_returned fun _ _ => trivial) fun n _ => ?_
      refine State.Confined.unregisterChildrenFrom ?_ t _ pos n
      exact h.setTask htask rfl
    · refine (envir_safe _ _).bind fun envir _ => ?_
      have h₂ : ({ s₁ with taskList := s₁.taskList.erase t } : State).Confined H r :=
        h₁.congr rfl rfl
      exact (h₂.when_safe (h₂.cancelRapl t)).bind fun s₃ h₃ => h₃.smonDestroyTask t
  · exact h

/-! ### Hooks -/

theorem smonSchedSwitch (h : s.Confined H r) (prev next : Proc) :
    KeepsConfined H r (s.smonSchedSwitch prev next) := by
  refine (findTask_safe s _ _).bind fun found _ => ?_
  refine (h.whenFound_safe fun t => h.smonSchedTaskOut _ t).bind fun s₁ h₁ => ?_
  exact (findTask_safe s₁ _ _).bind fun found _ => h₁.whenFound_safe fun t => h₁.smonSchedTaskIn _ t

theorem smonSchedMigrateTask (h : s.Confined H r) (p : Proc) (dest : Cpu) :
    KeepsConfined H r (s.smonSchedMigrateTask p dest) := by
  refine (findTask_safe s _ _).bind fun found _ => h.whenFound_safe fun t => ?_
  refine (task_safe _ t).bind fun task htask => (envir_safe _ _).bind fun envir _ => ?_
  refine .addCpuList ?_
  split
  · refine State.Confined.smonSampleWrite ?_ (fun b => h.of_rb htask) _
    exact h.congr rfl rfl
  · exact h.congr rfl rfl

theorem smonSchedProcessFork (h : s.Confined H r) (parent child : Proc) (alloc : Bool) :
    KeepsConfined H r (s.smonSchedProcessFork parent child alloc) := by
  refine (findTask_safe s _ _).bind fun found _ => h.whenFound_safe fun t => ?_
  refine (task_safe _ t).bind fun task htask => (envir_safe _ _).bind fun envir _ => ?_
  refine (h.when_safe (h.smonSchedRegisterChild t child alloc)).bind fun s₁ h₁ => ?_
  split
  · refine State.Confined.smonSampleWrite ?_ (fun b => h.of_rb htask) _
    exact h₁.congr rfl rfl
  · exact h₁

theorem smonSchedProcessExec (h : s.Confined H r) (p : Proc) :
    KeepsConfined H r (s.smonSchedProcessExec p) := by
  refine (findTask_safe s _ _).bind fun found _ => h.whenFound_safe fun t => ?_
  have hdel : (s.delWaitList t).Confined H r := h.congr rfl rfl
  refine (hdel.startExtra _ t).bind fun s₁ h₁ => ?_
  exact (h₁.smonSchedTaskIn _ t).bind fun s₂ h₂ => h₂.addCpuList

theorem smonSchedProcessExit (h : s.Confined H r) (p : Proc) :
    KeepsConfined H r (s.smonSchedProcessExit p) := by
  refine (findTask_safe s _ _).bind fun found _ => ?_
  split
  · rename_i t
    refine (task_safe _ t).bind fun task htask => ?_
    have h₁ := h.setTask (t := t) (x := { task with timer := hrtimerCancel task.timer }) htask rfl
    refine (h₁.smonSampleStop _ t).bind fun s₂ h₂ => (h₂.smonSampleSave t).bind fun s₃ h₃ => ?_
    have hdel : (s₃.delCpuList (s.kernel.cpu p) t).Confined H r := h₃.congr rfl rfl
    exact (hdel.leave t).bind fun s₄ h₄ => h₄.when_safe (h₄.cancelRapl t)
  · refine (findTask_safe s _ _).bind fun found _ => h.whenFound_safe fun t => ?_
    have hdel : (s.delWaitList t).Confined H r := h.congr rfl rfl
    exact hdel.leave t

/-! ### Registration -/

theorem setBatch (h : s.Confined H r) (hb : H b) (batch : U32) :
    (s.setBatch b batch).Confined H r := by
  unfold State.setBatch
  split
  · exact h.setRb hb _
  · exact h

theorem newRoot (h : s.Confined H r) (hb : H b) (pid : Pid) (envir : SmonEnvir) :
    (s.newRoot pid envir b).Confined H r := by
  have hget : (((s.smonGetRb b).setBatch b envir.batchSize).setEnvir s.fresh
      (smonCreateEnvir envir)).Confined H r :=
    State.Confined.congr ((h.setRb hb _).setBatch hb envir.batchSize) rfl rfl
  refine hget.install fun b' hb' => ?_
  rcases hb' with hb' | hb'
  · exact Option.some_inj.mp hb' ▸ hb
  · exact Option.some_inj.mp hb' ▸ hb

theorem smonSchedRegisterTask (h : s.Confined H r) (hb : H b) (me : Cpu) (pid : Pid)
    (envir : SmonEnvir) (alloc : Alloc) :
    Safely (fun _ => False) (fun x => x.2.Confined H r)
      (s.smonSchedRegisterTask me pid envir b alloc) := by
  refine .of_returned fun ⟨ret, s'⟩ hreg => ?_
  rcases register_cases hreg with ⟨-, -, rfl⟩ | ⟨-, -, s₀, rfl, hwait, hstart⟩
  · exact h
  have hroot : ({ s.newRoot pid envir b with
      taskList := s.fresh :: (s.newRoot pid envir b).taskList } : State).Confined H r :=
    (h.newRoot hb pid envir).congr rfl rfl
  cases hexec : envir.options.onExec with
  | true =>
    rw [hwait hexec]
    exact hroot.congr rfl rfl
  | false =>
    obtain ⟨s₁, hs₁, rfl⟩ := hstart hexec
    exact ((hroot.startExtra me s.fresh).of_ok hs₁).congr rfl rfl

/-- **Every event keeps to the buffers of `H`**, if a buffer it registers is one of them. -/
theorem exec (h : s.Confined H r) {l : Label}
    (hl : ∀ me pid envir b alloc, l = .register me pid envir b alloc → H b) :
    KeepsConfined H r (s.exec l) := by
  cases l with
  | time d => exact h.congr rfl rfl
  | count me ctr inc => exact h.congr rfl rfl
  | irq me w =>
    refine State.Confined.runIrq ?_ me w
    exact h.congr rfl rfl
  | tick t => exact h.smonSchedTimerTick t
  | raplTick t => exact h.smonSchedTimerRapl t
  | switch me next => exact (h.smonSchedSwitch _ next).bind fun s₁ h₁ => h₁.congr rfl rfl
  | migrate p dest => exact (h.smonSchedMigrateTask p dest).bind fun s₁ h₁ => h₁.congr rfl rfl
  | fork parent child pid cpu leader alloc =>
    refine State.Confined.smonSchedProcessFork ?_ parent child alloc
    exact h.congr rfl rfl
  | exec p => exact h.smonSchedProcessExec p
  | exit p => exact h.smonSchedProcessExit p
  | reap p => exact h.congr rfl rfl
  | register me pid envir b alloc =>
    exact (h.smonSchedRegisterTask (hl _ _ _ _ _ rfl) me pid envir alloc).bind fun x hx => hx
  | unregister pid => exact (h.smonSchedUnregisterTask pid).bind fun x hx => hx

end State.Confined

end SchedMon
