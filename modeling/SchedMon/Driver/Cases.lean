import SchedMon.Driver.Quiet

/-!
# What each hook can do

One inversion for every function that touches the lists, the reference counts or the tasks'
identities. Each says everything its function can do: which task was found where, what sampling
went on (`Quiet`), and how the lists changed. Invariants are proved from these, never from the
code.

## Main results

* `findTask_some`, `findTask_none` — what a traversal finds
* `migrate_cases`, `fork_cases`, `exec_cases`, `exit_cases`, `register_cases`, `switch_cases`
-/

namespace SchedMon

open State

variable {s s' : State} {t : TaskId} {p : Proc}

/-! ### Traversals -/

section Traversal

variable {cond : SmonTask → Bool} {l : List TaskId}

theorem findTask_some (h : s.findTask cond l = .ok (some t)) :
    t ∈ l ∧ ∃ task, s.tasks t = some task ∧ cond task = true := by
  induction l with
  | nil => cases h
  | cons u us ih =>
    simp only [findTask, bind_eq_ok, task_eq_ok] at h
    obtain ⟨task, htask, h⟩ := h
    split at h
    · rename_i hcond
      rw [pure_eq_ok, Option.some_inj] at h
      subst h
      exact ⟨List.mem_cons_self, task, htask, hcond⟩
    · obtain ⟨hmem, hfound⟩ := ih h
      exact ⟨List.mem_cons_of_mem _ hmem, hfound⟩

theorem findTask_none (h : s.findTask cond l = .ok none) :
    ∀ u ∈ l, ∃ task, s.tasks u = some task ∧ cond task = false := by
  induction l with
  | nil => simp
  | cons u us ih =>
    simp only [findTask, bind_eq_ok, task_eq_ok] at h
    obtain ⟨task, htask, h⟩ := h
    split at h
    · simp [pure_eq_ok] at h
    · rename_i hcond
      intro v hv
      rcases List.mem_cons.mp hv with rfl | hv
      · exact ⟨task, htask, by simpa using hcond⟩
      · exact ih h v hv

/-- A traversal of live tasks comes to an end. -/
theorem exists_findTask (cond : SmonTask → Bool) (h : ∀ u ∈ l, ∃ task, s.tasks u = some task) :
    ∃ found, s.findTask cond l = .ok found := by
  induction l with
  | nil => exact ⟨none, rfl⟩
  | cons u us ih =>
    obtain ⟨task, htask⟩ := h u List.mem_cons_self
    obtain ⟨found, hfound⟩ := ih fun v hv => h v (List.mem_cons_of_mem _ hv)
    simp only [findTask, task_eq_ok.mpr htask]
    by_cases hcond : cond task
    · exact ⟨some u, by simp [bind, Except.bind, hcond, pure, Except.pure]⟩
    · exact ⟨found, by simp [bind, Except.bind, hcond, hfound]⟩

theorem findProc_some (h : s.findProc p l = .ok (some t)) :
    t ∈ l ∧ ∃ task, s.tasks t = some task ∧ task.p = some p := by
  obtain ⟨hmem, task, htask, hcond⟩ := findTask_some h
  exact ⟨hmem, task, htask, by simpa using hcond⟩

theorem findProc_none (h : s.findProc p l = .ok none) :
    ∀ u ∈ l, ∃ task, s.tasks u = some task ∧ task.p ≠ some p := by
  intro u hu
  obtain ⟨task, htask, hcond⟩ := findTask_none h u hu
  exact ⟨task, htask, by simpa using hcond⟩

theorem whenFound_eq_ok {found : Option TaskId} {f : TaskId → State → Except Fault State} :
    s.whenFound found f = .ok s' ↔
      found = none ∧ s' = s ∨ ∃ t, found = some t ∧ f t s = .ok s' := by
  cases found with
  | none => simp [whenFound, eq_comm]
  | some t => simp [whenFound]

theorem when_eq_ok {c : Bool} {f : State → Except Fault State} :
    s.when c f = .ok s' ↔ c = false ∧ s' = s ∨ c = true ∧ f s = .ok s' := by
  cases c <;> simp [State.when, eq_comm]

end Traversal

/-! ### Switch -/

/-- A switch takes one task out and another one in, if they are found. -/
structure Switched (s : State) (prev next : Proc) (mid s' : State) : Prop where
  out : s.findProc prev (s.cpuList (s.kernel.cpu prev)) = .ok none ∧ mid = s ∨
    ∃ t, s.findProc prev (s.cpuList (s.kernel.cpu prev)) = .ok (some t) ∧
      s.smonSchedTaskOut (s.kernel.cpu prev) t = .ok mid
  in' : mid.findProc next (mid.cpuList (s.kernel.cpu prev)) = .ok none ∧ s' = mid ∨
    ∃ t, mid.findProc next (mid.cpuList (s.kernel.cpu prev)) = .ok (some t) ∧
      mid.smonSchedTaskIn (s.kernel.cpu prev) t = .ok s'

theorem switch_cases {prev next : Proc} (h : s.smonSchedSwitch prev next = .ok s') :
    ∃ mid, Switched s prev next mid s' := by
  simp only [smonSchedSwitch, bind_eq_ok, whenFound_eq_ok] at h
  obtain ⟨found, hfound, mid, hout, found', hfound', hin⟩ := h
  refine ⟨mid, ?_, ?_⟩
  · rcases hout with ⟨rfl, rfl⟩ | ⟨t, rfl, hout⟩
    · exact .inl ⟨hfound, rfl⟩
    · exact .inr ⟨t, hfound, hout⟩
  · rcases hin with ⟨rfl, rfl⟩ | ⟨t, rfl, hin⟩
    · exact .inl ⟨hfound', rfl⟩
    · exact .inr ⟨t, hfound', hin⟩

/-! ### Migration -/

/-- A migration moves the task it finds to the list of the other CPU. -/
structure Migrated (s : State) (p : Proc) (dest : Cpu) (t : TaskId) (s₁ s' : State) : Prop where
  found : s.findProc p (s.cpuList (s.kernel.cpu p)) = .ok (some t)
  quiet : Quiet Sample.Middle t (s.delCpuList (s.kernel.cpu p) t) s₁
  sample : ∀ task envir, s.tasks t = some task → s.envirs task.envir = some envir →
    envir.options.cpu = false → s₁ = s.delCpuList (s.kernel.cpu p) t
  put : s' = s₁.addCpuList dest t

theorem migrate_cases {dest : Cpu} (h : s.smonSchedMigrateTask p dest = .ok s') :
    s.findProc p (s.cpuList (s.kernel.cpu p)) = .ok none ∧ s' = s ∨
      ∃ t s₁, Migrated s p dest t s₁ s' := by
  simp only [smonSchedMigrateTask, bind_eq_ok, whenFound_eq_ok] at h
  obtain ⟨found, hfound, ⟨rfl, rfl⟩ | ⟨t, rfl, h⟩⟩ := h
  · exact .inl ⟨hfound, rfl⟩
  simp only [task_eq_ok, envir_eq_ok, pure_eq_ok] at h
  obtain ⟨task, htask, envir, henvir, rfl⟩ := h
  cases hcpu : envir.options.cpu with
  | true =>
    refine .inr ⟨t, _, hfound, Quiet.of_msrRdtsc.trans (.of_write ?_ task.rb), ?_, rfl⟩
    · exact ⟨by simp [Sample.type], by simp [Sample.type]⟩
    · intro task' envir' htask' henvir' hfalse
      obtain rfl := Option.some_inj.mp (htask'.symm.trans htask)
      obtain rfl := Option.some_inj.mp (henvir'.symm.trans henvir)
      exact absurd (hcpu.symm.trans hfalse) (by simp)
  | false => exact .inr ⟨t, _, hfound, .refl _ t _, fun _ _ _ _ _ => rfl, rfl⟩

/-! ### Exec -/

/-- Starting the extra part of a task writes one INFO sample, if the task has an extra part. -/
structure Started (s : State) (t : TaskId) (s' : State) : Prop where
  quiet : Quiet (fun x => x.type = .info) t s s'
  info : ∀ task extra, s.tasks t = some task → task.extra = some extra →
    ∃ info, s'.rbs = (s.smonRbWrite extra.rb (.info info)).rbs
  none : ∀ task, s.tasks t = some task → task.extra = none → s' = s

theorem smonTaskExtraStart_cases {me : Cpu} (h : s.smonTaskExtraStart me t = .ok s') :
    Quiet (fun x => x.type = .info) t s s' ∧ ∃ task extra info, s.tasks t = some task ∧
      task.extra = some extra ∧ s'.rbs = (s.smonRbWrite extra.rb (.info info)).rbs := by
  simp only [smonTaskExtraStart, bind_eq_ok, task_eq_ok] at h
  obtain ⟨-, -, extra, hextra, envir, -, s₁, hset, h⟩ := h
  have hquiet : Quiet (fun x => x.type = .info) t s s₁ :=
    quiet_setExtra hextra (by rfl) .of_msrRdtsc rfl hset
  obtain ⟨task, htask, hx⟩ := extra_eq_ok.mp hextra
  obtain ⟨_, -, rfl⟩ := setExtra_eq_ok.mp hset
  have hinfo : (Sample.info (s.smonSampleGetInfo me envir).1).type = .info := rfl
  have hwrite := hquiet.trans (.of_write hinfo (some extra.rb))
  split at h
  · rw [pure_eq_ok] at h
    subst h
    refine ⟨hwrite.trans (.of_irqWorkQueue me (by rfl)), task, extra,
      (s.smonSampleGetInfo me envir).1, htask, hx, ?_⟩
    unfold irqWorkQueue
    split <;> rfl
  · rw [pure_eq_ok] at h
    subst h
    exact ⟨hwrite, task, extra, (s.smonSampleGetInfo me envir).1, htask, hx, rfl⟩

theorem startExtra_cases {me : Cpu} (h : s.startExtra me t = .ok s') : Started s t s' := by
  simp only [startExtra, bind_eq_ok, task_eq_ok, when_eq_ok] at h
  obtain ⟨task, htask, ⟨hx, rfl⟩ | ⟨hx, h⟩⟩ := h
  · refine ⟨.refl _ t _, fun task' extra htask' hextra => ?_, fun _ _ _ => rfl⟩
    obtain rfl := Option.some_inj.mp (htask'.symm.trans htask)
    simp [hextra] at hx
  · obtain ⟨hquiet, task', extra, info, htask', hextra, hrbs⟩ := smonTaskExtraStart_cases h
    refine ⟨hquiet, fun task₁ extra₁ htask₁ hextra₁ => ⟨info, ?_⟩, fun task₁ htask₁ hnone => ?_⟩
    · obtain rfl := Option.some_inj.mp (htask₁.symm.trans htask')
      obtain rfl := Option.some_inj.mp (hextra₁.symm.trans hextra)
      exact hrbs
    · obtain rfl := Option.some_inj.mp (htask₁.symm.trans htask)
      simp [hnone] at hx

/-- An `exec` starts the task it finds waiting, and moves it to a CPU. -/
structure Executed (s : State) (p : Proc) (t : TaskId) (s₁ s₂ s' : State) : Prop where
  found : s.findProc p s.waitList = .ok (some t)
  extra : (s.delWaitList t).startExtra (s.kernel.cpu p) t = .ok s₁
  in' : s₁.smonSchedTaskIn (s.kernel.cpu p) t = .ok s₂
  put : s' = s₂.addCpuList (s.kernel.cpu p) t

theorem exec_cases (h : s.smonSchedProcessExec p = .ok s') :
    s.findProc p s.waitList = .ok none ∧ s' = s ∨ ∃ t s₁ s₂, Executed s p t s₁ s₂ s' := by
  simp only [smonSchedProcessExec, bind_eq_ok, whenFound_eq_ok] at h
  obtain ⟨found, hfound, ⟨rfl, rfl⟩ | ⟨t, rfl, s₁, hextra, s₂, hin, h⟩⟩ := h
  · exact .inl ⟨hfound, rfl⟩
  · rw [pure_eq_ok] at h
    exact .inr ⟨t, s₁, s₂, hfound, hextra, hin, h.symm⟩

/-! ### Exit -/

theorem leave_eq_ok : s.leave t = .ok s' ↔ ∃ task b, s.tasks t = some task ∧ task.rb = some b ∧
    s' = (s.smonReleaseRb b).setTask t { task with p := none, rb := none } := by
  simp only [leave, bind_eq_ok, task_eq_ok]
  refine exists_congr fun task => ?_
  cases hrb : task.rb with
  | none => simp [throw_eq_ok]
  | some b => simp [pure_eq_ok, eq_comm (a := s')]

/-- An `exit` takes a last sample of the task it finds running, and lets it go. -/
structure ExitedRunning (s : State) (p : Proc) (t : TaskId) (s₁ s₂ s' : State) : Prop where
  found : s.findProc p (s.cpuList (s.kernel.cpu p)) = .ok (some t)
  sample : ∃ task s₀, s.tasks t = some task ∧
    (s.setTask t { task with timer := hrtimerCancel task.timer }).smonSampleStop (s.kernel.cpu p) t
      = .ok s₀ ∧ s₀.smonSampleSave t = .ok s₁
  leave : (s₁.delCpuList (s.kernel.cpu p) t).leave t = .ok s₂
  cancel : ∃ task, s.tasks t = some task ∧
    s₂.when task.extra.isSome (fun s => s.cancelRapl t) = .ok s'

/-- An `exit` lets a task go that it finds waiting. -/
structure ExitedWaiting (s : State) (p : Proc) (t : TaskId) (s' : State) : Prop where
  notRunning : s.findProc p (s.cpuList (s.kernel.cpu p)) = .ok none
  found : s.findProc p s.waitList = .ok (some t)
  leave : (s.delWaitList t).leave t = .ok s'

theorem exit_cases (h : s.smonSchedProcessExit p = .ok s') :
    (s.findProc p (s.cpuList (s.kernel.cpu p)) = .ok none ∧ s.findProc p s.waitList = .ok none ∧
      s' = s) ∨ (∃ t s₁ s₂, ExitedRunning s p t s₁ s₂ s') ∨ ∃ t, ExitedWaiting s p t s' := by
  simp only [smonSchedProcessExit, bind_eq_ok] at h
  obtain ⟨found, hfound, h⟩ := h
  cases found with
  | some t =>
    simp only [exitRunning, bind_eq_ok, task_eq_ok] at h
    obtain ⟨task, htask, s₀, hstop, s₁, hsave, s₂, hleave, hcancel⟩ := h
    exact .inr (.inl ⟨t, s₁, s₂, hfound, ⟨task, s₀, htask, hstop, hsave⟩, hleave,
      task, htask, hcancel⟩)
  | none =>
    simp only [bind_eq_ok, whenFound_eq_ok] at h
    obtain ⟨found, hwait, ⟨rfl, rfl⟩ | ⟨t, rfl, h⟩⟩ := h
    · exact .inl ⟨hfound, hwait, rfl⟩
    · exact .inr (.inr ⟨t, hfound, hwait, h⟩)

theorem ExitedRunning.quiet {s₁ s₂ : State} (h : ExitedRunning s p t s₁ s₂ s') :
    Quiet (fun x => x.type = .pmc) t s s₁ := by
  obtain ⟨task, s₀, htask, hstop, hsave⟩ := h.sample
  exact (Quiet.of_setTask htask (by rfl)).trans
    ((quiet_smonSampleStop hstop).trans (quiet_smonSampleSave (fun _ => rfl) hsave))

theorem ExitedRunning.quiet_cancel {s₁ s₂ : State} (h : ExitedRunning s p t s₁ s₂ s') :
    Quiet (fun _ => False) t s₂ s' := by
  obtain ⟨task, -, hcancel⟩ := h.cancel
  exact .of_when hcancel fun _ => quiet_cancelRapl

/-! ### Registration -/

/-- A new task registered by a user, on its own. -/
def State.newRoot (s : State) (pid : Pid) (envir : SmonEnvir) (b : RbId) : State :=
  (((s.smonGetRb b).setBatch b envir.batchSize).setEnvir s.fresh (smonCreateEnvir envir)).install
    (newTask (s.kernel.forEachProcess pid) pid s.fresh b
      (some (smonTaskExtraCreate (smonCreateEnvir envir) b)))

section Register

variable {me : Cpu} {pid : Pid} {envir : SmonEnvir} {b : RbId} {alloc : Alloc} {ret : ℤ}

theorem setBatch_static (batchSize : U32) : (s.setBatch b batchSize).static = s.static := by
  unfold setBatch
  split <;> rfl

theorem createTask_cases {found : Option TaskId}
    (h : s.smonCreateTask pid envir b alloc = .ok (found, s')) :
    (alloc.task && alloc.envir) = false ∧ found = none ∧ s' = s ∨
      (alloc.task && alloc.envir) = true ∧ found = some s.fresh ∧ s' = s.newRoot pid envir b := by
  have hfresh : ((s.smonGetRb b).setBatch b envir.batchSize).fresh = s.fresh :=
    congrArg Static.fresh (setBatch_static envir.batchSize)
  simp only [smonCreateTask, hfresh] at h
  split at h
  · rename_i htask
    rw [pure_eq_ok, Prod.mk.injEq] at h
    exact .inl ⟨by simp_all, h.1.symm, h.2.symm⟩
  split at h
  · rename_i henvir
    rw [pure_eq_ok, Prod.mk.injEq] at h
    exact .inl ⟨by simp_all, h.1.symm, h.2.symm⟩
  split at h
  · rw [throw_eq_ok] at h
    exact h.elim
  · rw [pure_eq_ok, Prod.mk.injEq] at h
    exact .inr ⟨by simp_all, h.1.symm, h.2.symm⟩

/-- A registration either waits for an `exec`, or starts the new task where it runs. -/
structure Registered (s : State) (me : Cpu) (pid : Pid) (envir : SmonEnvir) (b : RbId)
    (s₀ s' : State) : Prop where
  new : s₀ = { s.newRoot pid envir b with taskList := s.fresh :: (s.newRoot pid envir b).taskList }
  wait : envir.options.onExec = true → s' = s₀.addWaitList s.fresh
  start : envir.options.onExec = false → ∃ s₁, s₀.startExtra me s.fresh = .ok s₁ ∧
    s' = s₁.addCpuList (s.kernel.cpu (s.kernel.forEachProcess pid)) s.fresh

theorem newRoot_kernel (pid : Pid) : (s.newRoot pid envir b).kernel = s.kernel :=
  congrArg Static.kernel (setBatch_static (s := s.smonGetRb b) envir.batchSize)

theorem register_cases (h : s.smonSchedRegisterTask me pid envir b alloc = .ok (ret, s')) :
    (alloc.task && alloc.envir) = false ∧ ret = -1 ∧ s' = s ∨
      (alloc.task && alloc.envir) = true ∧ ret = 0 ∧ ∃ s₀, Registered s me pid envir b s₀ s' := by
  simp only [smonSchedRegisterTask, bind_eq_ok, Prod.exists] at h
  obtain ⟨found, s₁, hcreate, h⟩ := h
  rcases createTask_cases hcreate with ⟨halloc, rfl, rfl⟩ | ⟨halloc, rfl, rfl⟩
  · simp only [pure_eq_ok, Prod.mk.injEq] at h
    exact .inl ⟨halloc, h.1.symm, h.2.symm⟩
  · refine .inr ⟨halloc, ?_⟩
    simp only at h
    split at h
    · rename_i hexec
      simp only [pure_eq_ok, Prod.mk.injEq] at h
      exact ⟨h.1.symm, _, rfl, fun _ => h.2.symm,
        fun hfalse => absurd (hexec.symm.trans hfalse) (by simp)⟩
    · rename_i hexec
      simp only [bind_eq_ok, pure_eq_ok, Prod.mk.injEq] at h
      obtain ⟨s₂, hstart, hret, h⟩ := h
      refine ⟨hret.symm, _, rfl, fun htrue => absurd htrue hexec, fun _ => ⟨s₂, hstart, ?_⟩⟩
      have hk : s₂.kernel = s.kernel := (startExtra_cases hstart).quiet.kernel.trans (newRoot_kernel pid)
      rw [← h, hk]

end Register

/-! ### Fork -/

/-- A new inherited task, on its own. -/
def State.newChild (s : State) (p : Proc) (e : EnvirId) (envir : SmonEnvir) (b : RbId) : State :=
  ((s.smonGetRb b).setEnvir e { envir with count := envir.count + 1 }).install
    (newTask p (s.kernel.pid p) e b none)

/-- The registration of a child links it behind its parent and puts it on its CPU. -/
structure ChildAdded (s : State) (t : TaskId) (p : Proc) (s' : State) : Prop where
  add : ∃ task b envir s₁ task₁, s.tasks t = some task ∧ task.rb = some b ∧
    s.envirs task.envir = some envir ∧
    (s.newChild p task.envir envir b).addChild s.fresh t = .ok s₁ ∧ s₁.tasks t = some task₁ ∧
    s' = (s₁.setTask t { task₁ with nChildren := task₁.nChildren + 1 }).addCpuList
      (s.kernel.cpu p) s.fresh

theorem registerChild_cases {alloc : Bool} (h : s.smonSchedRegisterChild t p alloc = .ok s') :
    alloc = false ∧ s' = s ∨ alloc = true ∧ ChildAdded s t p s' := by
  simp only [smonSchedRegisterChild, bind_eq_ok, Prod.exists] at h
  obtain ⟨found, s₁, hcreate, h⟩ := h
  unfold smonCreateChild at hcreate
  split at hcreate
  · rename_i halloc
    rw [pure_eq_ok, Prod.mk.injEq] at hcreate
    obtain ⟨rfl, rfl⟩ := hcreate
    rw [pure_eq_ok] at h
    exact .inl ⟨by simpa using halloc, h.symm⟩
  · rename_i halloc
    simp only [bind_eq_ok, task_eq_ok] at hcreate
    obtain ⟨task, htask, hcreate⟩ := hcreate
    split at hcreate
    · rw [throw_eq_ok] at hcreate
      exact hcreate.elim
    · rename_i b hrb
      simp only [smonGetEnvir, bind_eq_ok, envir_eq_ok, pure_eq_ok, Prod.mk.injEq] at hcreate
      obtain ⟨-, ⟨envir, henvir, rfl⟩, rfl, rfl⟩ := hcreate
      simp only [bind_eq_ok, task_eq_ok, pure_eq_ok] at h
      obtain ⟨s₁, hadd, task₁, htask₁, h⟩ := h
      exact .inr ⟨by simpa using halloc, task, b, envir, s₁, task₁, htask, hrb, henvir, hadd,
        htask₁, h.symm⟩

/-- A fork registers the child, if the task it finds wants that, and reports. -/
structure Forked (s : State) (parent child : Proc) (alloc : Bool) (t : TaskId) (s₁ s' : State) :
    Prop where
  found : s.findProc parent (s.cpuList (s.kernel.cpu parent)) = .ok (some t)
  register : ∃ task envir, s.tasks t = some task ∧ s.envirs task.envir = some envir ∧
    (envir.options.inherit = true ∧ alloc = true ∧ ChildAdded s t child s₁ ∨
      (envir.options.inherit = false ∨ alloc = false) ∧ s₁ = s) ∧
    (envir.options.fork = false → s' = s₁)
  quiet : Quiet Sample.Middle t s₁ s'

theorem fork_cases {parent child : Proc} {alloc : Bool}
    (h : s.smonSchedProcessFork parent child alloc = .ok s') :
    s.findProc parent (s.cpuList (s.kernel.cpu parent)) = .ok none ∧ s' = s ∨
      ∃ t s₁, Forked s parent child alloc t s₁ s' := by
  simp only [smonSchedProcessFork, bind_eq_ok, whenFound_eq_ok] at h
  obtain ⟨found, hfound, ⟨rfl, rfl⟩ | ⟨t, rfl, task, htask, envir, henvir, s₁, hinherit, h⟩⟩ := h
  · exact .inl ⟨hfound, rfl⟩
  rw [task_eq_ok] at htask
  rw [envir_eq_ok] at henvir
  refine .inr ⟨t, s₁, hfound, ⟨task, envir, htask, henvir, ?_, ?_⟩, ?_⟩
  · rcases when_eq_ok.mp hinherit with ⟨hinh, rfl⟩ | ⟨hinh, hreg⟩
    · exact .inr ⟨.inl hinh, rfl⟩
    · rcases registerChild_cases hreg with ⟨halloc, rfl⟩ | ⟨halloc, hadd⟩
      · exact .inr ⟨.inr halloc, rfl⟩
      · exact .inl ⟨hinh, halloc, hadd⟩
  · intro hfork
    rw [hfork, if_neg (by simp), pure_eq_ok] at h
    exact h.symm
  · split at h
    · rw [pure_eq_ok] at h
      subst h
      exact Quiet.of_msrRdtsc.trans
        (.of_write ⟨by simp [Sample.type], by simp [Sample.type]⟩ task.rb)
    · rw [pure_eq_ok] at h
      exact h ▸ .refl _ t s₁

end SchedMon
