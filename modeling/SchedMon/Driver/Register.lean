import SchedMon.Driver.Accepted
import SchedMon.Driver.Listed

/-!
# Registering all or nothing

`smon_create_task` looks a process up, asks for memory three times and counts a writer in between.
The loop over the processes leaves its cursor at `init_task` when it finds none, and nothing looks
at it; the memory of the extra part is used without a check. So the registration of a process that
does not exist succeeds, for `init_task`, and one without memory for the extra part never returns.

## Main definitions

* `Kernel.Present` — a process of that pid exists
* `State.AllOrNothing` — what a registration owes its caller

## Main results

* `allOrNothing_iff` — **when a registration is all or nothing**
* `not_allOrNothing_boot` — a process that does not exist, and memory that is not there
-/

namespace SchedMon

open State SchedMon.Shelf

/-! ### What a registration owes -/

/-- Some process that `for_each_process` goes through has that pid. -/
def Kernel.Present (k : Kernel) (pid : Pid) : Prop := ∃ p ∈ k.procs, k.pid p = pid

/-- Every allocation of a registration succeeds. -/
def Alloc.Succeeds (alloc : Alloc) : Prop :=
  alloc.task = true ∧ alloc.envir = true ∧ alloc.extra = true

namespace State

/-- Task `t` is new and stands for process `p`, of that pid. It is on the list of tasks and, of the
others, on the one it belongs to. -/
structure Enrolled (s s' : State) (pid : Pid) (onExec : Bool) (t : TaskId) (p : Proc) : Prop where
  new : s.tasks t = none
  process : ∃ task, s'.tasks t = some task ∧ task.p = some p
  pid : s'.kernel.pid p = pid
  taskList : t ∈ s'.taskList
  place : ∀ i, t ∈ s'.lists i ↔ i = if onExec then .waiting else .cpu (s'.kernel.cpu p)

/-- Nothing that a failed registration could have touched has changed. -/
structure Untouched (s s' : State) : Prop where
  taskList : s'.taskList = s.taskList
  waitList : s'.waitList = s.waitList
  cpuList : ∀ c, s'.cpuList c = s.cpuList c
  rbs : ∀ b, (s'.rbs b).active = (s.rbs b).active ∧ (s'.rbs b).batch = (s.rbs b).batch

/-- The registration returns. It returns zero if and only if the process exists and there is memory
for everything, and then the process is enrolled; otherwise it returns minus one, and nothing has
changed. -/
def AllOrNothing (s : State) (me : Cpu) (pid : Pid) (envir : SmonEnvir) (b : RbId)
    (alloc : Alloc) : Prop :=
  ∃ ret s', s.smonSchedRegisterTask me pid envir b alloc = .ok (ret, s') ∧
    (ret = 0 ↔ s.kernel.Present pid ∧ alloc.Succeeds) ∧
    (ret = 0 → ∃ t p, s.Enrolled s' pid envir.options.onExec t p) ∧
    (ret ≠ 0 → ret = -1 ∧ s.Untouched s')

end State

/-! ### Looking a process up -/

namespace Kernel

variable {k : Kernel} {pid : Pid}

theorem pid_forEachProcess (h : k.Present pid) : k.pid (k.forEachProcess pid) = pid := by
  obtain ⟨p, hp, hpid⟩ := h
  obtain ⟨q, hq⟩ := Option.isSome_iff_exists.mp
    (List.find?_isSome.mpr ⟨p, hp, decide_eq_true hpid⟩ :
      (k.procs.find? fun p => k.pid p = pid).isSome = true)
  have hfound : k.forEachProcess pid = q := by rw [forEachProcess, hq, Option.getD_some]
  rw [hfound]
  exact of_decide_eq_true (List.find?_some (p := fun p => decide (k.pid p = pid)) hq)

/-- The cursor is back at the head of the list. -/
theorem forEachProcess_of_not_present (h : ¬ k.Present pid) : k.forEachProcess pid = initTask := by
  have hnone : k.procs.find? (fun p => k.pid p = pid) = none :=
    List.find?_eq_none.mpr fun p hp hpid => h ⟨p, hp, of_decide_eq_true hpid⟩
  rw [forEachProcess, hnone]
  rfl

end Kernel

/-! ### The registration by its allocations -/

section Register

variable {s s' s₀ : State} {me : Cpu} {pid : Pid} {envir : SmonEnvir} {b : RbId} {alloc : Alloc}
  {ret : ℤ} {ls : List Label}

/-- Without memory for the task or its environment, nothing is done. -/
theorem register_of_not_alloc (halloc : (alloc.task && alloc.envir) = false) :
    s.smonSchedRegisterTask me pid envir b alloc = .ok (-1, s) := by
  have hcreate : s.smonCreateTask pid envir b alloc = .ok (none, s) := by
    cases htask : alloc.task with
    | false =>
      simp only [smonCreateTask, htask, Bool.not_false, if_true]
      rfl
    | true =>
      rw [htask, Bool.true_and] at halloc
      simp only [smonCreateTask, htask, halloc, Bool.not_false, Bool.not_true, if_true,
        Bool.false_eq_true, if_false]
      rfl
  exact bind_of_ok hcreate

/-- Without memory for the extra part, the null pointer is followed. -/
theorem register_of_not_extra (htask : alloc.task = true) (henvir : alloc.envir = true)
    (hextra : alloc.extra = false) :
    s.smonSchedRegisterTask me pid envir b alloc = .error .nullPointer := by
  have hcreate : s.smonCreateTask pid envir b alloc = .error .nullPointer := by
    simp only [smonCreateTask, htask, henvir, hextra, Bool.not_true, Bool.not_false,
      Bool.false_eq_true, if_false, if_true]
    rfl
  simp only [smonSchedRegisterTask, hcreate]
  rfl

/-- With all the memory it asks for, a registration returns zero. -/
theorem exists_register (h : alloc.Succeeds) :
    ∃ s', s.smonSchedRegisterTask me pid envir b alloc = .ok (0, s') := by
  obtain ⟨htask, henvir, hextra⟩ := h
  have hfresh : ((s.smonGetRb b).setBatch b envir.batchSize).fresh = s.fresh :=
    congrArg Static.fresh (setBatch_static envir.batchSize)
  have hcreate : s.smonCreateTask pid envir b alloc =
      .ok (some s.fresh, s.newRoot pid envir b) := by
    simp only [smonCreateTask, htask, henvir, hextra, hfresh, Bool.not_true, Bool.false_eq_true,
      if_false]
    rfl
  cases hexec : envir.options.onExec with
  | true => exact ⟨_, (bind_of_ok hcreate).trans (if_pos hexec)⟩
  | false =>
    have hnew := newRoot_task s pid envir b
    obtain ⟨s₁, hstart⟩ := exists_startExtra me
      (s := { s.newRoot pid envir b with
        taskList := s.fresh :: (s.newRoot pid envir b).taskList }) hnew.1 (by rfl) hnew.2
    have hno : ¬ envir.options.onExec = true := by simp [hexec]
    exact ⟨_, (bind_of_ok hcreate).trans ((if_neg hno).trans (bind_of_ok hstart))⟩

/-- What a registration that goes through leaves behind: a new task for whatever process the lookup
came up with, on the list where that process belongs. -/
theorem enrolled_of_register (hlisted : Listed s.book)
    (hpid : s.kernel.pid (s.kernel.forEachProcess pid) = pid)
    (h : s.smonSchedRegisterTask me pid envir b alloc = .ok (0, s')) :
    s.Enrolled s' pid envir.options.onExec s.fresh (s.kernel.forEachProcess pid) := by
  obtain ⟨-, hret, -⟩ | ⟨-, -, hbook⟩ := register_book h
  · exact absurd hret (by decide)
  have hkernel : s'.kernel = s.kernel := congrArg Book.kernel hbook
  have hlists : s'.lists =
      put s.lists (s.book.rootPlace (s.kernel.forEachProcess pid) envir) s.fresh :=
    congrArg Book.lists hbook
  have hentry : s'.book.entry s.fresh =
      some (⟨some (s.kernel.forEachProcess pid), pid, s.fresh, 0, some b⟩, some b) := by
    rw [hbook]
    exact Function.update_self ..
  refine ⟨?_, ?_, hkernel ▸ hpid, ?_, fun i => ?_⟩
  · by_contra hlive
    obtain ⟨task, htask⟩ := Option.ne_none_iff_exists'.mp hlive
    exact Nat.lt_irrefl _ (hlisted.fresh s.fresh task.core (entry_of_tasks htask))
  · obtain ⟨task, htask, hcore⟩ := tasks_of_entry hentry
    exact ⟨task, htask, congrArg (fun c => c.1.p) hcore⟩
  · rw [show s'.taskList = s.fresh :: s.taskList from congrArg Book.taskList hbook]
    exact List.mem_cons_self
  · rw [hlists, hkernel, mem_put]
    exact ⟨fun hi => hi.elim (fun hmem => absurd hmem (hlisted.not_mem_fresh i)) And.left,
      fun hi => .inr ⟨hi, rfl⟩⟩

/-- **When a registration is all or nothing**: when there is no memory for the task or for its
environment, or when there is memory for everything and the process exists. -/
theorem allOrNothing_iff (run : Run State.Step s₀ ls s) (init : s₀.Initial) (me : Cpu) (pid : Pid)
    (envir : SmonEnvir) (b : RbId) (alloc : Alloc) :
    s.AllOrNothing me pid envir b alloc ↔
      alloc.task = false ∨ alloc.envir = false ∨ alloc.extra = true ∧ s.kernel.Present pid := by
  have hlisted := (forest_listed run init).2
  by_cases halloc : (alloc.task && alloc.envir) = true
  · obtain ⟨htask, henvir⟩ := Bool.and_eq_true_iff.mp halloc
    constructor
    · rintro ⟨ret, s', hreg, hzero, -, hrest⟩
      cases hextra : alloc.extra with
      | false =>
        rw [register_of_not_extra htask henvir hextra] at hreg
        cases hreg
      | true =>
        have hreturns : ∃ s₁, s.smonSchedRegisterTask me pid envir b alloc = .ok (0, s₁) :=
          exists_register ⟨htask, henvir, hextra⟩
        obtain ⟨s₁, hok⟩ := hreturns
        obtain ⟨rfl, -⟩ := Prod.mk.inj (Except.ok.inj (hreg.symm.trans hok))
        exact .inr (.inr ⟨rfl, (hzero.mp rfl).1⟩)
    · rintro (h | h | ⟨hextra, hpresent⟩)
      · exact absurd (htask.symm.trans h) (by decide)
      · exact absurd (henvir.symm.trans h) (by decide)
      · have hall : alloc.Succeeds := ⟨htask, henvir, hextra⟩
        obtain ⟨s', hok⟩ := exists_register hall
        exact ⟨0, s', hok, ⟨fun _ => ⟨hpresent, hall⟩, fun _ => rfl⟩,
          fun _ => ⟨_, _, enrolled_of_register hlisted (Kernel.pid_forEachProcess hpresent) hok⟩,
          fun hne => absurd rfl hne⟩
  · have hfalse : (alloc.task && alloc.envir) = false := by simpa using halloc
    refine iff_of_true ⟨-1, s, register_of_not_alloc hfalse, ⟨fun h => absurd h (by decide),
      fun hall => absurd (Bool.and_eq_true_iff.mpr ⟨hall.2.1, hall.2.2.1⟩) halloc⟩,
      fun h => absurd h (by decide), fun _ => ⟨rfl, rfl, rfl, fun _ => rfl, fun _ => ⟨rfl, rfl⟩⟩⟩ ?_
    rcases Bool.and_eq_false_iff.mp hfalse with h | h
    · exact .inl h
    · exact .inr (.inl h)

end Register

theorem allOrNothing_iff_boot : (boot [] []).AllOrNothing 0 1 inheriting 0 ⟨true, true, true⟩ ↔
    true = false ∨ true = false ∨ true = true ∧ (boot [] []).kernel.Present 1 :=
  allOrNothing_iff .nil (initial_boot [] []) 0 1 inheriting 0 ⟨true, true, true⟩

/-- **A process that does not exist, and memory that is not there.** Pid 5 is nobody's, and its
registration returns zero for `init_task`, whose pid is another one; that of process 1 ends at the
null pointer when there is no memory for the extra part. -/
theorem not_allOrNothing_boot : (boot [] []).Initial ∧ ¬ (boot [] []).kernel.Present 5 ∧
    (boot [] []).kernel.forEachProcess 5 = initTask ∧
    (∃ s', (boot [] []).smonSchedRegisterTask 0 5 inheriting 0 ⟨true, true, true⟩ = .ok (0, s')) ∧
    ¬ (boot [] []).AllOrNothing 0 5 inheriting 0 ⟨true, true, true⟩ ∧
    (boot [] []).smonSchedRegisterTask 0 1 inheriting 0 ⟨true, true, false⟩ = .error .nullPointer ∧
    ¬ (boot [] []).AllOrNothing 0 1 inheriting 0 ⟨true, true, false⟩ := by
  have habsent : ¬ (boot [] []).kernel.Present 5 := by
    rintro ⟨p, hp, hpid⟩
    obtain rfl : p = 1 := List.mem_singleton.mp hp
    exact absurd hpid (by decide)
  have hreturns : ∃ s₁,
      (boot [] []).smonSchedRegisterTask 0 5 inheriting 0 ⟨true, true, true⟩ = .ok (0, s₁) :=
    exists_register ⟨rfl, rfl, rfl⟩
  refine ⟨initial_boot [] [], habsent, Kernel.forEachProcess_of_not_present habsent, hreturns, ?_,
    register_of_not_extra rfl rfl rfl, ?_⟩
  · rintro ⟨ret, s', hreg, hzero, -⟩
    obtain ⟨s₁, hok⟩ := hreturns
    obtain ⟨rfl, -⟩ := Prod.mk.inj (Except.ok.inj (hreg.symm.trans hok))
    exact habsent (hzero.mp rfl).1
  · rintro ⟨ret, s', hreg, -⟩
    rw [register_of_not_extra rfl rfl rfl] at hreg
    cases hreg

end SchedMon
