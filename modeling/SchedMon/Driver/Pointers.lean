import SchedMon.Driver.Accepted
import SchedMon.Driver.Forest

/-!
# Pointers

A function of the module faults for one of two reasons: an event-set index that leads nowhere, or a
pointer that does. Here is what each function needs to be free of the second kind: that the task it
works on is live, with its environment, its buffer and its extra part where they are used.

## Main definitions

* `Fault.OfMemory` — the faults of a pointer
* `State.Live`, `State.HasExtra`, `Book.Reaches` — what is there

## Main results

* `State.Live.smonSchedTaskOut`, `State.Live.smonSchedTaskIn`, `State.Live.smonSchedTimerTick`
* `smonSchedSwitch_safe`, `smonSchedMigrateTask_safe`, `smonSchedProcessFork_safe`,
  `smonSchedProcessExec_safe`, `smonSchedProcessExit_safe`, `smonSchedUnregisterTask_safe`
-/

namespace SchedMon

open State SchedMon.Shelf

/-- The faults of a pointer that leads nowhere, and of a list that does not end. -/
def Fault.OfMemory : Fault → Prop
  | nullPointer | useAfterFree | diverges => True
  | _ => False

theorem Fault.ofEvset_of_not_ofMemory {f : Fault} (h : ¬ f.OfMemory) : f.OfEvset := by
  cases f with
  | nullPointer | useAfterFree | diverges => exact absurd trivial h
  | nullEvset | outOfBounds | divideByZero => trivial

/-! ### Functions that work on one task -/

/-- The task is live, and so is its environment. -/
def State.Live (s : State) (t : TaskId) : Prop :=
  ∃ task envir, s.tasks t = some task ∧ s.envirs task.envir = some envir

/-- The code keeps task `t` live, and does not fault for a pointer. -/
abbrev KeepsLive (t : TaskId) : Except Fault State → Prop := Safely Fault.OfMemory (Live · t)

variable {s s' : State} {t : TaskId} {me : Cpu} {p : Proc}

namespace State.Live

variable {task x : SmonTask}

theorem of_forest {ring : TaskId → List TaskId} (hforest : Forest s.book ring)
    (htask : s.tasks t = some task) : s.Live t := by
  obtain ⟨hr, -⟩ := hforest.live t task.core (entry_of_tasks htask)
  obtain ⟨envir, henvir, -⟩ := hforest.count _ hr
  exact ⟨task, envir, htask, henvir⟩

theorem setTask (h : s.Live t) (htask : s.tasks t = some task) (henvir : x.envir = task.envir) :
    (s.setTask t x).Live t := by
  obtain ⟨y, envir, hy, he⟩ := h
  obtain rfl := Option.some_inj.mp (hy.symm.trans htask)
  refine ⟨x, envir, Function.update_self .., ?_⟩
  rw [henvir]
  exact he

theorem smonSampleWrite (h : s.Live t) (rb : Option RbId) (sample : Sample) :
    (s.smonSampleWrite rb sample).Live t := by
  cases rb <;> exact h

theorem irqWorkQueue (h : s.Live t) (me : Cpu) (w : Irq) : (s.irqWorkQueue me w).Live t := by
  unfold State.irqWorkQueue
  split <;> exact h

/-! Reading what is there. -/

theorem task_safe (h : s.Live t) : Safely Fault.OfMemory (fun task => s.tasks t = some task ∧
    ∃ envir, s.envirs task.envir = some envir) (s.task t) := by
  obtain ⟨task, envir, htask, henvir⟩ := h
  rw [task_eq_ok.mpr htask]
  exact ⟨htask, envir, henvir⟩

theorem envir_safe {e : EnvirId} (h : ∃ envir, s.envirs e = some envir) :
    Safely Fault.OfMemory (fun envir => s.envirs e = some envir) (s.envir e) := by
  obtain ⟨envir, henvir⟩ := h
  rw [envir_eq_ok.mpr henvir]
  exact henvir

theorem esid_safe (envir : SmonEnvir) (i : ℕ) :
    Safely Fault.OfMemory (fun _ => True) (envir.esid i) := by
  unfold SmonEnvir.esid
  split
  · trivial
  · exact id

theorem when_safe (h : s.Live t) {c : Bool} {f : State → Except Fault State}
    (hf : KeepsLive t (f s)) : KeepsLive t (s.when c f) := by
  unfold State.when
  split
  · exact hf
  · exact h

/-! Sampling. -/

theorem smonSampleStart (h : s.Live t) (me : Cpu) : KeepsLive t (s.smonSampleStart me t) := by
  refine h.task_safe.bind fun task ⟨htask, henvir⟩ => (envir_safe henvir).bind fun envir _ => ?_
  refine (esid_safe envir task.evset).bind fun esid _ => ?_
  split
  · exact h
  · have hset := h.setTask (x := task.started (s.clock s.reads)) htask rfl
    exact .pure hset

theorem smonSampleStop (h : s.Live t) (me : Cpu) : KeepsLive t (s.smonSampleStop me t) := by
  have hstop : ((s.onCpu me smonPmcStop).msrRdtsc.2).Live t := h
  refine hstop.task_safe.bind fun task ⟨htask, henvir⟩ => (envir_safe henvir).bind fun envir _ => ?_
  refine Safely.bind (P := fun _ => True) ?_ fun found _ => ?_
  · unfold smonEnvirGetEvset
    split
    · trivial
    · exact (esid_safe envir task.evset).bind fun _ _ => trivial
  · split
    · exact id
    · exact .pure (hstop.setTask htask rfl)

theorem smonSampleSave (h : s.Live t) : KeepsLive t (s.smonSampleSave t) := by
  refine h.task_safe.bind fun task ⟨htask, henvir⟩ => ?_
  have hwrite := h.smonSampleWrite task.rb
    (.pmc { task.samplePmc with pid := task.pid, evset := task.evset })
  refine Safely.bind (envir_safe ?_) fun envir _ => ?_
  · obtain ⟨envir, henvir⟩ := henvir
    exact ⟨envir, by cases hrb : task.rb <;> exact henvir⟩
  · refine Safely.bind (P := fun _ => True) ?_ fun evset _ => ?_
    · unfold smonEnvirNextEvset
      split
      · exact id
      · trivial
    · have htask' := htask
      rw [← tasks_smonSampleWrite task.rb] at htask'
      exact .pure (hwrite.setTask htask' rfl)

theorem smonSampleSchedIn (h : s.Live t) (me : Cpu) : KeepsLive t (s.smonSampleSchedIn me t) :=
  h.task_safe.bind fun _ ⟨htask, _⟩ =>
    .pure (State.Live.setTask (s := s.msrRdtsc.2) h htask rfl)

theorem smonSampleSchedOut (h : s.Live t) : KeepsLive t (s.smonSampleSchedOut t) :=
  h.task_safe.bind fun _ ⟨htask, _⟩ =>
    .pure (State.Live.setTask (s := s.msrRdtsc.2) h htask rfl)

theorem smonSampleSchedSave (h : s.Live t) : KeepsLive t (s.smonSampleSchedSave t) :=
  h.task_safe.bind fun task _ => .pure (h.smonSampleWrite task.rb (.sched task.sampleSched))

/-! Timers. -/

theorem startTimerPmc (h : s.Live t) (me : Cpu) : KeepsLive t (s.startTimerPmc me t) := by
  refine h.task_safe.bind fun task ⟨htask, henvir⟩ => (envir_safe henvir).bind fun envir _ => ?_
  refine State.Live.smonSampleStart ?_ me
  exact h.setTask htask rfl

theorem stopTimerPmc (h : s.Live t) : KeepsLive t (s.stopTimerPmc t) :=
  h.task_safe.bind fun _ ⟨htask, _⟩ => .pure (h.setTask htask rfl)

theorem smonSchedTaskIn (h : s.Live t) (me : Cpu) : KeepsLive t (s.smonSchedTaskIn me t) := by
  refine h.task_safe.bind fun task ⟨_, henvir⟩ => (envir_safe henvir).bind fun envir _ => ?_
  refine (h.when_safe (h.smonSampleSchedIn me)).bind fun s₁ h₁ => ?_
  split
  · exact h₁.smonSampleStart me
  · exact .pure (h₁.irqWorkQueue me _)

theorem smonSchedTimerOut (h : s.Live t) (me : Cpu) : KeepsLive t (s.smonSchedTimerOut me t) := by
  refine h.task_safe.bind fun task ⟨htask, _⟩ => ?_
  have h₁ := h.setTask (x := { task with ktRemain := hrtimerExpiresRemaining task.timer s.now })
    htask rfl
  refine (h₁.when_safe h₁.smonSampleSave).bind fun s₂ h₂ => ?_
  refine h₂.task_safe.bind fun task₂ ⟨htask₂, henvir₂⟩ => ?_
  have h₃ := (h₂.setTask (x := { task₂ with timerFlags := false }) htask₂ rfl).irqWorkQueue me
    (.stopTimer t)
  refine Safely.bind (envir_safe ?_) fun envir _ => h₃.when_safe ?_
  · obtain ⟨envir, henvir⟩ := henvir₂
    refine ⟨envir, ?_⟩
    unfold State.irqWorkQueue
    split <;> exact henvir
  · exact h₃.smonSampleSchedOut.bind fun s₄ h₄ => h₄.smonSampleSchedSave

theorem smonSchedTaskOut (h : s.Live t) (me : Cpu) : KeepsLive t (s.smonSchedTaskOut me t) := by
  refine (h.smonSampleStop me).bind fun s₁ h₁ => h₁.task_safe.bind fun task _ => ?_
  exact h₁.when_safe (h₁.smonSchedTimerOut me)

theorem smonSchedTimerTick (h : s.Live t) : KeepsLive t (s.smonSchedTimerTick t) := by
  refine h.task_safe.bind fun task ⟨htask, _⟩ => ?_
  dsimp only
  split
  · refine (h.smonSampleStop _).bind fun s₁ h₁ => h₁.smonSampleSave.bind fun s₂ h₂ => ?_
    refine h₂.task_safe.bind fun task₂ ⟨htask₂, henvir₂⟩ => (envir_safe henvir₂).bind fun envir _ => ?_
    refine State.Live.smonSampleStart ?_ _
    exact h₂.setTask htask₂ rfl
  · exact .pure (h.setTask htask rfl)

/-! The extra part. -/

theorem setExtra (h : s.Live t) (extra : SmonTaskExtra) : KeepsLive t (s.setExtra t extra) :=
  h.task_safe.bind fun _ ⟨htask, _⟩ => .pure (h.setTask htask rfl)

theorem startExtra (h : s.Live t) (me : Cpu) : KeepsLive t (s.startExtra me t) := by
  refine h.task_safe.bind fun task ⟨htask, henvir⟩ => ?_
  unfold State.when
  split
  · rename_i hsome
    obtain ⟨extra, hextra⟩ := Option.isSome_iff_exists.mp hsome
    refine h.task_safe.bind fun task' ⟨_, henvir'⟩ => ?_
    rw [bind_of_ok (extra_eq_ok.mpr ⟨task, htask, hextra⟩)]
    refine Safely.bind (P := fun _ => True) ?_ fun envir _ => ?_
    · exact (envir_safe henvir').mono fun _ _ => trivial
    · refine (State.Live.setExtra (s := (s.smonSampleGetInfo me envir).2) h _).bind fun s₁ h₁ => ?_
      have h₂ := h₁.smonSampleWrite (some extra.rb) (.info (s.smonSampleGetInfo me envir).1)
      split
      · exact .pure (h₂.irqWorkQueue me _)
      · exact .pure h₂
  · exact .pure h

end State.Live

/-- The task is live, and has an extra part. -/
def State.HasExtra (s : State) (t : TaskId) : Prop :=
  ∃ task extra, s.tasks t = some task ∧ task.extra = some extra

/-- The code does not fault for a pointer. -/
abbrev FaultFree {α : Type} : Except Fault α → Prop := Safely Fault.OfMemory fun _ => True

namespace State.HasExtra

theorem setExtra_safe (h : s.HasExtra t) (extra : SmonTaskExtra) : FaultFree (s.setExtra t extra) := by
  obtain ⟨task, -, htask, -⟩ := h
  rw [State.setExtra, bind_of_ok (task_eq_ok.mpr htask)]
  trivial

theorem smonSchedTimerRapl (h : s.HasExtra t) : FaultFree (s.smonSchedTimerRapl t) := by
  have h' := h
  obtain ⟨task, extra, htask, hextra⟩ := h'
  rw [State.smonSchedTimerRapl, bind_of_ok (extra_eq_ok.mpr ⟨task, htask, hextra⟩)]
  dsimp only
  split
  · refine setExtra_safe ?_ _
    exact h
  · exact h.setExtra_safe _

theorem startTimerRapl (h : s.HasExtra t) (me : Cpu) : FaultFree (s.startTimerRapl me t) := by
  have h' := h
  obtain ⟨task, extra, htask, hextra⟩ := h'
  rw [State.startTimerRapl, bind_of_ok (extra_eq_ok.mpr ⟨task, htask, hextra⟩)]
  refine setExtra_safe ?_ _
  exact h

theorem cancelRapl (h : s.HasExtra t) : FaultFree (s.cancelRapl t) := by
  have h' := h
  obtain ⟨task, extra, htask, hextra⟩ := h'
  rw [State.cancelRapl, bind_of_ok (extra_eq_ok.mpr ⟨task, htask, hextra⟩)]
  exact h.setExtra_safe _

end State.HasExtra

/-! ### Hooks -/

/-- Every task on a list of the scheduler is live. -/
def Book.Reaches (b : Book) : Prop := ∀ i, ∀ t ∈ b.lists i, ∃ c, b.entry t = some c

section Hooks

variable {ring : TaskId → List TaskId}

theorem findProc_safe (hreach : s.book.Reaches) (p : Proc) (i : Place) :
    Safely Fault.OfMemory (fun found => s.findProc p (s.lists i) = .ok found)
      (s.findProc p (s.lists i)) := by
  obtain ⟨found, hfound⟩ : ∃ found, s.findProc p (s.lists i) = .ok found := by
    refine exists_findTask _ fun u hu => ?_
    obtain ⟨c, hc⟩ := hreach i u hu
    obtain ⟨task, htask, -⟩ := tasks_of_entry hc
    exact ⟨task, htask⟩
  rw [hfound]
  exact rfl

theorem live_of_findProc {l : List TaskId} (hforest : Forest s.book ring)
    (h : s.findProc p l = .ok (some t)) : s.Live t := by
  obtain ⟨-, task, htask, -⟩ := findProc_some h
  exact .of_forest hforest htask

theorem smonSchedSwitch_safe (hforest : Forest s.book ring) (hreach : s.book.Reaches)
    (prev next : Proc) : FaultFree (s.smonSchedSwitch prev next) := by
  refine (findProc_safe hreach prev (.cpu (s.kernel.cpu prev))).bind fun found hfound => ?_
  refine Safely.bind (P := fun mid => mid.book = s.book) ?_ fun mid hmid => ?_
  · cases found with
    | none => exact rfl
    | some t =>
      have hlive := live_of_findProc hforest hfound
      refine ((hlive.smonSchedTaskOut _).and_of_ok fun s₁ h₁ => ?_).mono fun _ h => h.2
      exact (quiet_smonSchedTaskOut (K := fun _ => True) (fun _ => trivial) (fun _ => trivial)
        h₁).book
  · rw [← hmid] at hforest hreach
    refine (findProc_safe hreach next (.cpu (s.kernel.cpu prev))).bind fun found hfound => ?_
    cases found with
    | none => exact trivial
    | some t => exact ((live_of_findProc hforest hfound).smonSchedTaskIn _).mono fun _ _ => trivial

theorem smonSchedMigrateTask_safe (hforest : Forest s.book ring) (hreach : s.book.Reaches)
    (p : Proc) (dest : Cpu) : FaultFree (s.smonSchedMigrateTask p dest) := by
  refine (findProc_safe hreach p (.cpu (s.kernel.cpu p))).bind fun found hfound => ?_
  cases found with
  | none => exact trivial
  | some t =>
    have hfound' : s.Live t := live_of_findProc hforest hfound
    have hlive : (s.delCpuList (s.kernel.cpu p) t).Live t := hfound'
    exact hlive.task_safe.bind fun task ⟨_, henvir⟩ =>
      (Live.envir_safe henvir).bind fun envir _ => trivial

theorem smonSchedProcessExec_safe (hforest : Forest s.book ring) (hreach : s.book.Reaches)
    (p : Proc) : FaultFree (s.smonSchedProcessExec p) := by
  refine (findProc_safe hreach p .waiting).bind fun found hfound => ?_
  cases found with
  | none => exact trivial
  | some t =>
    have hfound' : s.Live t := live_of_findProc hforest hfound
    have hlive : (s.delWaitList t).Live t := hfound'
    exact (hlive.startExtra _).bind fun s₁ h₁ => (h₁.smonSchedTaskIn _).bind fun s₂ _ => trivial

/-- A task that still has its process has its buffer. -/
theorem rb_of_findProc {l : List TaskId} (hforest : Forest s.book ring)
    (h : s.findProc p l = .ok (some t)) : ∃ task b, s.tasks t = some task ∧ task.rb = some b := by
  obtain ⟨-, task, htask, hp⟩ := findProc_some h
  have hrb := (hforest.buffer t task.core (entry_of_tasks htask)).1.mpr (by
    change task.p.isSome = true
    rw [hp]
    rfl)
  obtain ⟨b, hb⟩ := Option.isSome_iff_exists.mp hrb
  exact ⟨task, b, htask, hb⟩

theorem exitRunning_safe {l : List TaskId} (hforest : Forest s.book ring)
    (hfound : s.findProc p l = .ok (some t)) (cpu : Cpu) : FaultFree (s.exitRunning cpu t) := by
  obtain ⟨task, b, htask, hrb⟩ := rb_of_findProc hforest hfound
  have hlive := live_of_findProc hforest hfound
  rw [exitRunning, bind_of_ok (task_eq_ok.mpr htask)]
  have hquiet : Quiet (fun _ => True) t s
      (s.setTask t { task with timer := hrtimerCancel task.timer }) := .of_setTask htask rfl
  have h₁ := hlive.setTask (x := { task with timer := hrtimerCancel task.timer }) htask rfl
  refine ((h₁.smonSampleStop cpu).and_of_ok fun s₂ hs₂ =>
    hquiet.trans (quiet_smonSampleStop hs₂)).bind fun s₂ hstopped => ?_
  obtain ⟨h₂, hquiet₂⟩ := hstopped
  refine (h₂.smonSampleSave.and_of_ok fun s₃ hs₃ =>
    hquiet₂.trans (quiet_smonSampleSave (fun _ => trivial) hs₃)).bind fun s₃ hsaved => ?_
  obtain ⟨h₃, hquiet₃⟩ := hsaved
  have hcore := hquiet₃.cores t
  rw [htask, Option.map_some, Option.map_eq_some_iff] at hcore
  obtain ⟨x, hx, hcore⟩ := hcore
  have hxrb : x.rb = some b := (congrArg (fun c => c.1.rb) hcore).trans hrb
  have hleave : (s₃.delCpuList cpu t).leave t = .ok (((s₃.delCpuList cpu t).smonReleaseRb b).setTask t
      { x with p := none, rb := none }) := leave_eq_ok.mpr ⟨x, b, hx, hxrb, rfl⟩
  rw [bind_of_ok hleave]
  unfold State.when
  split
  · rename_i hsome
    have hxextra : x.extra.map SmonTaskExtra.rb = task.extra.map SmonTaskExtra.rb :=
      congrArg Prod.snd hcore
    obtain ⟨extra, hextra⟩ : ∃ extra, x.extra = some extra := by
      rw [← Option.isSome_iff_exists, ← Option.isSome_map, hxextra, Option.isSome_map]
      exact hsome
    exact HasExtra.cancelRapl ⟨_, extra, Function.update_self .., hextra⟩
  · trivial

theorem smonSchedProcessExit_safe (hforest : Forest s.book ring) (hreach : s.book.Reaches)
    (p : Proc) : FaultFree (s.smonSchedProcessExit p) := by
  refine (findProc_safe hreach p (.cpu (s.kernel.cpu p))).bind fun found hfound => ?_
  cases found with
  | some t => exact exitRunning_safe hforest hfound _
  | none =>
    refine (findProc_safe hreach p .waiting).bind fun found hfound => ?_
    cases found with
    | none => exact trivial
    | some t =>
      obtain ⟨task, b, htask, hrb⟩ := rb_of_findProc hforest hfound
      have hleave : (s.delWaitList t).leave t = .ok (((s.delWaitList t).smonReleaseRb b).setTask t
          { task with p := none, rb := none }) := leave_eq_ok.mpr ⟨task, b, htask, hrb, rfl⟩
      change FaultFree (s.exitWaiting t)
      rw [exitWaiting, hleave]
      trivial

/-- The node behind that of a task is the node of a live task, also when a new node is there. -/
theorem exists_next (hforest : Forest s.book ring) {task : SmonTask} (htask : s.tasks t = some task) :
    ∃ u x, (s.children.init s.fresh).next t = u ∧ u ≠ s.fresh ∧ s.tasks u = some x := by
  obtain ⟨hr, hmem⟩ := hforest.live t task.core (entry_of_tasks htask)
  have hfresh : s.fresh ∉ task.envir :: ring task.envir := fun hmem =>
    Nat.lt_irrefl _ (hforest.lt_fresh hr hmem)
  have hring : Links.IsRing (s.children.init s.fresh) task.envir (ring task.envir) :=
    Links.init_frame (hforest.rings _ hr) hfresh
  have hnext := hring.next_mem hmem
  obtain ⟨c, hc, -⟩ := hforest.member _ hr _ hnext
  obtain ⟨x, hx, -⟩ := tasks_of_entry hc
  exact ⟨_, x, rfl, fun heq => hfresh (heq ▸ hnext), hx⟩

theorem smonSchedRegisterChild_safe {l : List TaskId} (hforest : Forest s.book ring)
    (hfound : s.findProc p l = .ok (some t)) (child : Proc) (alloc : Bool) :
    FaultFree (s.smonSchedRegisterChild t child alloc) := by
  obtain ⟨task, b, htask, hrb⟩ := rb_of_findProc hforest hfound
  obtain ⟨task', envir, htask', henvir⟩ := live_of_findProc hforest hfound
  obtain rfl := Option.some_inj.mp (htask.symm.trans htask')
  have hne : t ≠ s.fresh := Nat.ne_of_lt (hforest.bound t _ (entry_of_tasks htask))
  obtain ⟨u, x, hnext, hu, hx⟩ := exists_next hforest htask
  cases alloc with
  | false => exact trivial
  | true =>
    have hcreate : s.smonCreateChild t child true =
        .ok (some s.fresh, s.newChild child task.envir envir b) := by
      rw [smonCreateChild, if_neg (by simp), bind_of_ok (task_eq_ok.mpr htask)]
      simp only [hrb]
      have hget : (s.smonGetRb b).smonGetEnvir task.envir =
          .ok ((s.smonGetRb b).setEnvir task.envir { envir with count := envir.count + 1 }) := by
        have henvir' : (s.smonGetRb b).envirs task.envir = some envir := henvir
        rw [smonGetEnvir, bind_of_ok (envir_eq_ok.mpr henvir')]
        rfl
      rw [bind_of_ok hget]
      rfl
    have htasks : ∀ v, v ≠ s.fresh →
        (s.newChild child task.envir envir b).tasks v = s.tasks v := fun v hv =>
      Function.update_of_ne hv ..
    have hparent := (htasks t hne).trans htask
    have hadd : (s.newChild child task.envir envir b).addChild s.fresh t = .ok
        ({ s.newChild child task.envir envir b with
          children := (s.newChild child task.envir envir b).children.add s.fresh t }.record
            (.child t s.fresh)) := by
      have hnext' : (s.newChild child task.envir envir b).nextChild t = .ok u := by
        rw [nextChild, bind_of_ok (task_eq_ok.mpr hparent)]
        exact congrArg Except.ok hnext
      rw [addChild, bind_of_ok hnext', bind_of_ok (task_eq_ok.mpr ((htasks u hu).trans hx))]
      rfl
    rw [smonSchedRegisterChild]
    rw [bind_of_ok hcreate]
    dsimp only
    rw [bind_of_ok hadd]
    refine (Live.task_safe ?_).bind fun _ _ => trivial
    exact ⟨task, _, hparent, Function.update_self ..⟩

theorem smonSchedProcessFork_safe (hforest : Forest s.book ring) (hreach : s.book.Reaches)
    (parent child : Proc) (alloc : Bool) : FaultFree (s.smonSchedProcessFork parent child alloc) := by
  refine (findProc_safe hreach parent (.cpu (s.kernel.cpu parent))).bind fun found hfound => ?_
  cases found with
  | none => exact trivial
  | some t =>
    have hlive := live_of_findProc hforest hfound
    refine hlive.task_safe.bind fun task ⟨_, henvir⟩ => (Live.envir_safe henvir).bind fun envir _ => ?_
    refine Safely.bind (P := fun _ => True) ?_ fun s₁ _ => ?_
    · unfold State.when
      split
      · exact smonSchedRegisterChild_safe hforest hfound child alloc
      · trivial
    · split <;> trivial

theorem smonSchedUnregisterTask_safe (hforest : Forest s.book ring) (pid : Pid) :
    FaultFree (s.smonSchedUnregisterTask pid) := by
  obtain ⟨found, hfound⟩ : ∃ found, s.findTask (fun task => task.pid = pid) s.taskList = .ok found := by
    refine exists_findTask _ fun r hr => ?_
    obtain ⟨c, hc, -⟩ := hforest.member r hr r List.mem_cons_self
    obtain ⟨task, htask, -⟩ := tasks_of_entry hc
    exact ⟨task, htask⟩
  rw [smonSchedUnregisterTask, bind_of_ok hfound]
  cases found with
  | none => exact trivial
  | some r =>
    obtain ⟨s', hs', -⟩ := hforest.unregister (findTask_some hfound).1
    dsimp only
    rw [bind_of_ok hs']
    trivial

/-- The allocation of the extra part does not fail, if it is reached. -/
def Alloc.Extra (alloc : Alloc) : Prop :=
  alloc.task = true → alloc.envir = true → alloc.extra = true

/-- Nothing else stands in the way of a registration. -/
theorem exists_smonSchedRegisterTask {alloc : Alloc} (halloc : alloc.Extra) (me : Cpu) (pid : Pid)
    (envir : SmonEnvir) (b : RbId) : ∃ x, s.smonSchedRegisterTask me pid envir b alloc = .ok x := by
  have hfresh : ((s.smonGetRb b).setBatch b envir.batchSize).fresh = s.fresh :=
    congrArg Static.fresh (setBatch_static envir.batchSize)
  have hcreate : s.smonCreateTask pid envir b alloc = .ok (none, s) ∨
      s.smonCreateTask pid envir b alloc = .ok (some s.fresh, s.newRoot pid envir b) := by
    unfold smonCreateTask
    dsimp only
    split
    · exact .inl rfl
    split
    · exact .inl rfl
    rename_i htask henvir
    rw [Bool.not_eq_true', Bool.not_eq_false] at htask henvir
    rw [if_neg (by rw [halloc htask henvir]; simp), hfresh]
    exact .inr rfl
  rw [smonSchedRegisterTask]
  rcases hcreate with hcreate | hcreate
  · rw [bind_of_ok hcreate]
    exact ⟨_, rfl⟩
  · rw [bind_of_ok hcreate]
    dsimp only
    split
    · exact ⟨_, rfl⟩
    · obtain ⟨htask, henvir⟩ := newRoot_task s pid envir b
      obtain ⟨s₁, hs₁⟩ := exists_startExtra me (s := { s.newRoot pid envir b with
        taskList := s.fresh :: (s.newRoot pid envir b).taskList }) htask rfl henvir
      rw [bind_of_ok hs₁]
      exact ⟨_, rfl⟩

theorem extra_of_smonSchedRegisterTask {alloc : Alloc} {pid : Pid} {envir : SmonEnvir} {b : RbId}
    {x : ℤ × State} (h : s.smonSchedRegisterTask me pid envir b alloc = .ok x) : alloc.Extra := by
  intro htask henvir
  obtain ⟨found, hcreate, -⟩ := bind_eq_ok.mp h
  cases hextra : alloc.extra with
  | true => rfl
  | false =>
    simp [smonCreateTask, htask, henvir, hextra, throw_eq_ok] at hcreate

end Hooks

end SchedMon
