import SchedMon.Driver.Unregister
import SchedMon.Lib.Shelf

/-!
# The books

What the module keeps about *who is monitored*, without the samples: which tasks there are, whose
they are, on which list they stand, who counts them. `State.book` is the view of a state that shows
this and no more. `BookStep` says what each event may do to the books, and the hooks do nothing
else: `book_step`. Every invariant about lists, counts and families is proved of `BookStep`.

## Main definitions

* `Place`, `State.lists` — the lists of the scheduler as one family
* `Book`, `State.book` — the books of a state
* `BookStep` — what an event may do to them

## Main results

* `Quiet.book` — sampling leaves the books alone
* `book_step` — **the hooks keep the books as `BookStep` says**
-/

namespace SchedMon

open State SchedMon.Shelf

/-- Where a task is listed. -/
inductive Place where
  | waiting
  | cpu (c : Cpu)
  deriving DecidableEq

/-- The lists that share a task's node. -/
def State.lists (s : State) : Place → List TaskId
  | .waiting => s.waitList
  | .cpu c => s.cpuList c

/-- The part of the state that says who is monitored. -/
@[ext]
structure Book where
  kernel : Kernel
  fresh : ℕ
  entry : TaskId → Option (TaskCore × Option RbId)
  envirs : EnvirId → Option SmonEnvir
  active : RbId → ℤ
  taskList : List TaskId
  lists : Place → List TaskId
  children : Links TaskId
  history : List TraceEvent

/-- The books of a state. -/
def State.book (s : State) : Book where
  kernel := s.kernel
  fresh := s.fresh
  entry t := (s.tasks t).map SmonTask.core
  envirs := s.envirs
  active b := (s.rbs b).active
  taskList := s.taskList
  lists := s.lists
  children := s.children
  history := s.trace.filter TraceEvent.isBook

/-! ### Keeping books -/

namespace Book

variable (b : Book)

/-- Task `t` stands on list `i`, for process `p`. -/
def At (i : Place) (p : Proc) (t : TaskId) : Prop :=
  t ∈ b.lists i ∧ ∃ c, b.entry t = some c ∧ c.1.p = some p

/-- No task stands on list `i` for process `p`. -/
def Absent (i : Place) (p : Proc) : Prop :=
  ∀ u ∈ b.lists i, ∃ c, b.entry u = some c ∧ c.1.p ≠ some p

/-- What the kernel does by itself. -/
def tick (l : Label) : Book := { b with kernel := b.kernel.step l }

/-- A task goes from one list to another. -/
def move (t : TaskId) (i j : Place) : Book := { b with lists := put (take b.lists i t) j t }

/-- The process of task `t` is gone. -/
def leave (t : TaskId) (c : TaskCore × Option RbId) (rb : RbId) (i : Place) : Book :=
  { b with
    entry := Function.update b.entry t (some ({ c.1 with p := none, rb := none }, c.2))
    active := Function.update b.active rb (b.active rb - 1)
    lists := take b.lists i t }

/-- The list a newly registered task stands on. -/
def rootPlace (p : Proc) (envir : SmonEnvir) : Place :=
  if envir.options.onExec then .waiting else .cpu (b.kernel.cpu p)

/-- A user registers a process. -/
def addRoot (pid : Pid) (envir : SmonEnvir) (rb : RbId) : Book :=
  let p := b.kernel.forEachProcess pid
  { b with
    fresh := b.fresh + 1
    entry := Function.update b.entry b.fresh (some (⟨some p, pid, b.fresh, 0, some rb⟩, some rb))
    envirs := Function.update b.envirs b.fresh (some (smonCreateEnvir envir))
    active := Function.update b.active rb (b.active rb + 1)
    taskList := b.fresh :: b.taskList
    lists := put b.lists (b.rootPlace p envir) b.fresh
    children := b.children.init b.fresh }

/-- Process `p` inherits being monitored from task `t`. -/
def addChild (t : TaskId) (c : TaskCore × Option RbId) (rb : RbId) (envir : SmonEnvir) (p : Proc) :
    Book :=
  { b with
    fresh := b.fresh + 1
    entry := Function.update (Function.update b.entry b.fresh
        (some (⟨some p, b.kernel.pid p, c.1.envir, 0, some rb⟩, none))) t
      (some ({ c.1 with nChildren := c.1.nChildren + 1 }, c.2))
    envirs := Function.update b.envirs c.1.envir (some { envir with count := envir.count + 1 })
    active := Function.update b.active rb (b.active rb + 1)
    lists := put b.lists (.cpu (b.kernel.cpu p)) b.fresh
    children := (b.children.init b.fresh).add b.fresh t
    history := b.history ++ [.child t b.fresh] }

/-- Is buffer `rb` the one of task `t`? -/
def holds (rb : RbId) (t : TaskId) : Bool :=
  match b.entry t with
  | some c => c.1.rb = some rb
  | none => false

/-- The family `xs` of the registered task `r` has been destroyed. -/
structure Dropped (r : TaskId) (xs : List TaskId) (b' : Book) : Prop where
  kernel : b'.kernel = b.kernel
  fresh : b'.fresh = b.fresh
  entry : ∀ t, b'.entry t = if t ∈ r :: xs then none else b.entry t
  envirs : b'.envirs = Function.update b.envirs r none
  active : ∀ rb, b'.active rb = b.active rb - (r :: xs).countP (b.holds rb)
  taskList : b'.taskList = b.taskList.erase r
  lists : b'.lists = b.lists
  children : b.children.KeepsRings b'.children (r :: xs)
  history : b'.history = b.history ++ xs.map .destroy ++ [.freeEnvir r, .destroy r]

end Book

/-- What an event may do to the books. -/
inductive BookStep (b : Book) : Label → Book → Prop
  /-- Sampling, and what the kernel does without the module. -/
  | idle (l : Label) (hl : (∃ d, l = .time d) ∨ (∃ me ctr inc, l = .count me ctr inc) ∨
      (∃ me w, l = .irq me w) ∨ (∃ t, l = .tick t) ∨ (∃ t, l = .raplTick t) ∨
      (∃ me next, l = .switch me next) ∨ ∃ p, l = .reap p) : BookStep b l (b.tick l)
  | migrateNone (p : Proc) (dest : Cpu) (h : b.Absent (.cpu (b.kernel.cpu p)) p) :
      BookStep b (.migrate p dest) (b.tick (.migrate p dest))
  | migrate (p : Proc) (dest : Cpu) (t : TaskId) (h : b.At (.cpu (b.kernel.cpu p)) p t) :
      BookStep b (.migrate p dest)
        ((b.move t (.cpu (b.kernel.cpu p)) (.cpu dest)).tick (.migrate p dest))
  | forkNone (parent child : Proc) (pid : Pid) (cpu : Cpu) (leader alloc : Bool) (k : Kernel)
      (hk : k = b.kernel.step (.fork parent child pid cpu leader alloc))
      (h : b.Absent (.cpu (k.cpu parent)) parent ∨ alloc = false ∨
        ∃ t c envir, b.At (.cpu (k.cpu parent)) parent t ∧ b.entry t = some c ∧
          b.envirs c.1.envir = some envir ∧ envir.options.inherit = false) :
      BookStep b (.fork parent child pid cpu leader alloc) { b with kernel := k }
  | fork (parent child : Proc) (pid : Pid) (cpu : Cpu) (leader : Bool) (k : Kernel)
      (t : TaskId) (c : TaskCore × Option RbId) (rb : RbId) (envir : SmonEnvir)
      (hk : k = b.kernel.step (.fork parent child pid cpu leader true))
      (h : b.At (.cpu (k.cpu parent)) parent t) (hc : b.entry t = some c) (hrb : c.1.rb = some rb)
      (henvir : b.envirs c.1.envir = some envir) (hinherit : envir.options.inherit = true) :
      BookStep b (.fork parent child pid cpu leader true)
        ({ b with kernel := k }.addChild t c rb envir child)
  | execNone (p : Proc) (h : b.Absent .waiting p) : BookStep b (.exec p) b
  | exec (p : Proc) (t : TaskId) (h : b.At .waiting p t) :
      BookStep b (.exec p) (b.move t .waiting (.cpu (b.kernel.cpu p)))
  | exitNone (p : Proc) (h : b.Absent (.cpu (b.kernel.cpu p)) p) (h' : b.Absent .waiting p) :
      BookStep b (.exit p) b
  | exit (p : Proc) (i : Place) (t : TaskId) (c : TaskCore × Option RbId) (rb : RbId)
      (hi : i = .cpu (b.kernel.cpu p) ∨ i = .waiting ∧ b.Absent (.cpu (b.kernel.cpu p)) p)
      (h : b.At i p t) (hc : b.entry t = some c) (hrb : c.1.rb = some rb) :
      BookStep b (.exit p) (b.leave t c rb i)
  | registerNone (me : Cpu) (pid : Pid) (envir : SmonEnvir) (rb : RbId) (alloc : Alloc)
      (h : (alloc.task && alloc.envir) = false) : BookStep b (.register me pid envir rb alloc) b
  | register (me : Cpu) (pid : Pid) (envir : SmonEnvir) (rb : RbId) (alloc : Alloc)
      (h : (alloc.task && alloc.envir) = true) :
      BookStep b (.register me pid envir rb alloc) (b.addRoot pid envir rb)
  | unregisterNone (pid : Pid) : BookStep b (.unregister pid) b
  | unregister (pid : Pid) (r : TaskId) (c : TaskCore × Option RbId) (xs : List TaskId) (b' : Book)
      (hr : r ∈ b.taskList) (hc : b.entry r = some c) (hpid : c.1.pid = pid)
      (hring : b.children.IsRing r xs) (h : b.Dropped r xs b') : BookStep b (.unregister pid) b'

/-- The kernel goes its own way. -/
theorem BookStep.kernel {b b' : Book} {l : Label} (h : BookStep b l b') :
    b'.kernel = b.kernel.step l := by
  cases h with
  | forkNone parent child pid cpu leader alloc k hk => exact hk
  | fork parent child pid cpu leader k t c rb envir hk => exact hk
  | unregister pid r c xs b' hr hc hpid hring h => exact h.kernel
  | _ => rfl

/-! ### The books of a changed state -/

section Views

variable {s s' : State} {t : TaskId} {K : Sample → Prop}

/-- **Sampling leaves the books alone.** -/
theorem Quiet.book (h : Quiet K t s s') : s'.book = s.book := by
  have hlists : s'.lists = s.lists := by
    funext i
    cases i with
    | waiting => exact h.waitList
    | cpu c => exact congrFun h.cpuList c
  simp only [State.book, h.kernel, h.fresh, h.envirs, h.taskList, h.children, h.history, hlists,
    h.active, h.cores]

theorem lists_addWaitList (s : State) (t : TaskId) :
    (s.addWaitList t).lists = put s.lists .waiting t := by
  funext i
  cases i <;> simp [State.lists, addWaitList, put]

theorem lists_delWaitList (s : State) (t : TaskId) :
    (s.delWaitList t).lists = take s.lists .waiting t := by
  funext i
  cases i <;> simp [State.lists, delWaitList, take]

theorem lists_addCpuList (s : State) (c : Cpu) (t : TaskId) :
    (s.addCpuList c t).lists = put s.lists (.cpu c) t := by
  funext i
  cases i with
  | waiting => simp [State.lists, addCpuList, put]
  | cpu c' =>
    by_cases hc : c' = c
    · subst hc
      simp [State.lists, addCpuList, put]
    · simp [State.lists, addCpuList, put, hc]

theorem lists_delCpuList (s : State) (c : Cpu) (t : TaskId) :
    (s.delCpuList c t).lists = take s.lists (.cpu c) t := by
  funext i
  cases i with
  | waiting => simp [State.lists, delCpuList, take]
  | cpu c' =>
    by_cases hc : c' = c
    · subst hc
      simp [State.lists, delCpuList, take]
    · simp [State.lists, delCpuList, take, hc]

theorem book_addWaitList (s : State) (t : TaskId) :
    (s.addWaitList t).book = { s.book with lists := put s.lists .waiting t } := by
  rw [← lists_addWaitList]
  rfl

theorem book_delWaitList (s : State) (t : TaskId) :
    (s.delWaitList t).book = { s.book with lists := take s.lists .waiting t } := by
  rw [← lists_delWaitList]
  rfl

theorem book_addCpuList (s : State) (c : Cpu) (t : TaskId) :
    (s.addCpuList c t).book = { s.book with lists := put s.lists (.cpu c) t } := by
  rw [← lists_addCpuList]
  rfl

theorem book_delCpuList (s : State) (c : Cpu) (t : TaskId) :
    (s.delCpuList c t).book = { s.book with lists := take s.lists (.cpu c) t } := by
  rw [← lists_delCpuList]
  rfl

theorem book_setTask (s : State) (t : TaskId) (task : SmonTask) :
    (s.setTask t task).book =
      { s.book with entry := Function.update s.book.entry t (some task.core) } := by
  have hentry : (s.setTask t task).book.entry =
      Function.update s.book.entry t (some task.core) := by
    funext u
    by_cases hu : u = t
    · simp [State.book, setTask, hu]
    · simp [State.book, setTask, hu]
  rw [← hentry]
  rfl

theorem book_smonGetRb (s : State) (rb : RbId) : (s.smonGetRb rb).book =
    { s.book with active := Function.update s.book.active rb (s.book.active rb + 1) } := by
  have hactive : (s.smonGetRb rb).book.active =
      Function.update s.book.active rb (s.book.active rb + 1) := by
    funext rb'
    by_cases hrb : rb' = rb
    · simp [State.book, smonGetRb, hrb]
    · simp [State.book, smonGetRb, hrb]
  rw [← hactive]
  rfl

theorem book_smonReleaseRb (s : State) (rb : RbId) : (s.smonReleaseRb rb).book =
    { s.book with active := Function.update s.book.active rb (s.book.active rb - 1) } := by
  have hactive : (s.smonReleaseRb rb).book.active =
      Function.update s.book.active rb (s.book.active rb - 1) := by
    funext rb'
    by_cases hrb : rb' = rb
    · simp [State.book, smonReleaseRb_active, hrb]
    · simp [State.book, smonReleaseRb_active, hrb]
  rw [← hactive]
  unfold smonReleaseRb
  dsimp only
  split <;> rfl

theorem book_setBatch (s : State) (rb : RbId) (batch : U32) : (s.setBatch rb batch).book = s.book := by
  unfold setBatch
  split
  · have hactive : (fun rb' => (Function.update s.rbs rb { s.rbs rb with batch := batch } rb').active) =
        fun rb' => (s.rbs rb').active := by
      funext rb'
      by_cases hrb : rb' = rb
      · simp [hrb]
      · simp [hrb]
    simp only [State.book, hactive]
    rfl
  · rfl

theorem book_install (s : State) (task : SmonTask) : (s.install task).book =
    { s.book with
      fresh := s.fresh + 1
      entry := Function.update s.book.entry s.fresh (some task.core)
      children := s.children.init s.fresh } := by
  have hentry : (s.install task).book.entry =
      Function.update s.book.entry s.fresh (some task.core) := by
    funext u
    by_cases hu : u = s.fresh
    · simp [State.book, install, hu]
    · simp [State.book, install, hu]
  rw [← hentry]
  rfl

/-! ### Lookups -/

variable {p : Proc} {i : Place}

theorem entry_of_tasks {task : SmonTask} (h : s.tasks t = some task) :
    s.book.entry t = some task.core := by
  simp only [State.book, h, Option.map_some]

theorem at_of_findProc (h : s.findProc p (s.lists i) = .ok (some t)) : s.book.At i p t := by
  obtain ⟨hmem, task, htask, hp⟩ := findProc_some h
  exact ⟨hmem, task.core, entry_of_tasks htask, hp⟩

theorem absent_of_findProc (h : s.findProc p (s.lists i) = .ok none) : s.book.Absent i p := by
  intro u hu
  obtain ⟨task, htask, hp⟩ := findProc_none h u hu
  exact ⟨task.core, entry_of_tasks htask, hp⟩

end Views

/-! ### The hooks -/

section Hooks

variable {s s' : State} {t : TaskId} {p : Proc}

theorem book_withKernel (s : State) (k : Kernel) :
    (s.withKernel k).book = { s.book with kernel := k } := rfl

theorem migrate_book {dest : Cpu} (h : s.smonSchedMigrateTask p dest = .ok s') :
    BookStep s.book (.migrate p dest) (s'.book.tick (.migrate p dest)) := by
  rcases migrate_cases h with ⟨hnone, rfl⟩ | ⟨t, s₁, hfound, hquiet, -, rfl⟩
  · exact .migrateNone p dest (absent_of_findProc (i := .cpu (s'.kernel.cpu p)) hnone)
  · have hbook : (s₁.addCpuList dest t).book =
        s.book.move t (.cpu (s.kernel.cpu p)) (.cpu dest) := by
      have hlists : s₁.lists = take s.lists (.cpu (s.kernel.cpu p)) t := by
        rw [← lists_delCpuList]
        exact congrArg Book.lists hquiet.book
      rw [book_addCpuList, hquiet.book, hlists, book_delCpuList]
      rfl
    rw [hbook]
    exact .migrate p dest t (at_of_findProc (i := .cpu (s.kernel.cpu p)) hfound)

theorem exec_book (h : s.smonSchedProcessExec p = .ok s') : BookStep s.book (.exec p) s'.book := by
  rcases exec_cases h with ⟨hnone, rfl⟩ | ⟨t, s₁, s₂, hfound, hextra, hin, rfl⟩
  · exact .execNone p (absent_of_findProc (i := .waiting) hnone)
  · have hbook₂ : s₂.book = (s.delWaitList t).book :=
      (quiet_smonSchedTaskIn (K := fun _ => True) hin).book.trans (startExtra_cases hextra).quiet.book
    have hbook : (s₂.addCpuList (s.kernel.cpu p) t).book =
        s.book.move t .waiting (.cpu (s.kernel.cpu p)) := by
      have hlists : s₂.lists = take s.lists .waiting t := by
        rw [← lists_delWaitList]
        exact congrArg Book.lists hbook₂
      rw [book_addCpuList, hbook₂, hlists, book_delWaitList]
      rfl
    rw [hbook]
    exact .exec p t (at_of_findProc (i := .waiting) hfound)

/-- What leaving does to the books, after the task has been taken from its list. -/
theorem leave_book {i : Place} (h : s.leave t = .ok s') :
    ∃ c rb, s.book.entry t = some c ∧ c.1.rb = some rb ∧
      ∀ b : Book, s.book = { b with lists := take b.lists i t } → s'.book = b.leave t c rb i := by
  obtain ⟨task, rb, htask, hrb, rfl⟩ := leave_eq_ok.mp h
  refine ⟨task.core, rb, entry_of_tasks htask, hrb, fun b hb => ?_⟩
  rw [book_setTask, book_smonReleaseRb, hb]
  rfl

theorem exit_book (h : s.smonSchedProcessExit p = .ok s') : BookStep s.book (.exit p) s'.book := by
  rcases exit_cases h with ⟨hnone, hwait, rfl⟩ | ⟨t, s₁, s₂, hexit⟩ | ⟨t, hnone, hfound, hleave⟩
  · exact .exitNone p (absent_of_findProc (i := .cpu (s'.kernel.cpu p)) hnone)
      (absent_of_findProc (i := .waiting) hwait)
  · obtain ⟨c, rb, hc, hrb, hbook⟩ := leave_book (i := .cpu (s.kernel.cpu p)) hexit.leave
    have hs₁ : s₁.book = s.book := hexit.quiet.book
    rw [book_delCpuList, hs₁] at hc
    rw [hexit.quiet_cancel.book, hbook s.book ?_]
    · exact .exit p _ t c rb (.inl rfl)
        (at_of_findProc (i := .cpu (s.kernel.cpu p)) hexit.found) hc hrb
    · have hlists : s₁.lists = s.lists := congrArg Book.lists hs₁
      rw [book_delCpuList, hs₁, hlists]
      rfl
  · obtain ⟨c, rb, hc, hrb, hbook⟩ := leave_book (i := .waiting) hleave
    rw [book_delWaitList] at hc
    rw [hbook s.book (book_delWaitList s t)]
    exact .exit p _ t c rb
      (.inr ⟨rfl, absent_of_findProc (i := .cpu (s.kernel.cpu p)) hnone⟩)
      (at_of_findProc (i := .waiting) hfound) hc hrb

theorem book_setEnvir (s : State) (e : EnvirId) (envir : SmonEnvir) : (s.setEnvir e envir).book =
    { s.book with envirs := Function.update s.book.envirs e (some envir) } := rfl

theorem newRoot_book (s : State) (pid : Pid) (envir : SmonEnvir) (rb : RbId) :
    ({ s.newRoot pid envir rb with taskList := s.fresh :: (s.newRoot pid envir rb).taskList }
      : State).book = { s.book.addRoot pid envir rb with lists := s.lists } := by
  have hbook : (((s.smonGetRb rb).setBatch rb envir.batchSize).setEnvir s.fresh
      (smonCreateEnvir envir)).book = { s.book with
        envirs := Function.update s.book.envirs s.fresh (some (smonCreateEnvir envir))
        active := Function.update s.book.active rb (s.book.active rb + 1) } := by
    rw [book_setEnvir, book_setBatch, book_smonGetRb]
  unfold State.newRoot
  generalize ((s.smonGetRb rb).setBatch rb envir.batchSize).setEnvir s.fresh
    (smonCreateEnvir envir) = x at *
  have hfresh : x.fresh = s.fresh := congrArg Book.fresh hbook
  have hchildren : x.children = s.children := congrArg Book.children hbook
  have htaskList : x.taskList = s.taskList := congrArg Book.taskList hbook
  have hinstall := book_install x (newTask (s.kernel.forEachProcess pid) pid s.fresh rb
    (some (smonTaskExtraCreate (smonCreateEnvir envir) rb)))
  rw [hbook, hfresh, hchildren] at hinstall
  calc _ = { (x.install _).book with taskList := s.fresh :: x.taskList } := rfl
    _ = _ := by
      rw [hinstall, htaskList]
      rfl

theorem register_book {me : Cpu} {pid : Pid} {envir : SmonEnvir} {rb : RbId} {alloc : Alloc}
    {ret : ℤ} (h : s.smonSchedRegisterTask me pid envir rb alloc = .ok (ret, s')) :
    (alloc.task && alloc.envir) = false ∧ ret = -1 ∧ s' = s ∨
      (alloc.task && alloc.envir) = true ∧ ret = 0 ∧ s'.book = s.book.addRoot pid envir rb := by
  rcases register_cases h with hnone | ⟨halloc, rfl, s₀, rfl, hwait, hstart⟩
  · exact .inl hnone
  refine .inr ⟨halloc, rfl, ?_⟩
  have hnew := newRoot_book s pid envir rb
  have hlists := congrArg Book.lists hnew
  cases hexec : envir.options.onExec with
  | true =>
    rw [hwait hexec, book_addWaitList, hnew]
    simp only [Book.addRoot, Book.rootPlace, hexec, if_true]
    exact congrArg (fun l => { s.book.addRoot pid envir rb with
      lists := put l .waiting s.fresh }) hlists
  | false =>
    obtain ⟨s₁, hextra, rfl⟩ := hstart hexec
    have hbook := (startExtra_cases hextra).quiet.book
    rw [hnew] at hbook
    have hlists₁ : s₁.lists = s.lists := congrArg Book.lists hbook
    rw [book_addCpuList, hbook, hlists₁]
    simp only [Book.addRoot, Book.rootPlace, hexec]
    rfl

theorem newChild_book (s : State) (p : Proc) (e : EnvirId) (envir : SmonEnvir) (rb : RbId) :
    (s.newChild p e envir rb).book = { s.book with
      fresh := s.fresh + 1
      entry := Function.update s.book.entry s.fresh
        (some (⟨some p, s.kernel.pid p, e, 0, some rb⟩, none))
      envirs := Function.update s.book.envirs e (some { envir with count := envir.count + 1 })
      active := Function.update s.book.active rb (s.book.active rb + 1)
      children := s.children.init s.fresh } := by
  unfold State.newChild
  rw [book_install, book_setEnvir, book_smonGetRb]
  rfl

theorem child_book (h : ChildAdded s t p s') (ht : t ≠ s.fresh) :
    ∃ c rb envir, s.book.entry t = some c ∧ c.1.rb = some rb ∧
      s.book.envirs c.1.envir = some envir ∧ s'.book = s.book.addChild t c rb envir p := by
  obtain ⟨task, rb, envir, s₁, task₁, htask, hrb, henvir, hadd, htask₁, rfl⟩ := h.add
  refine ⟨task.core, rb, envir, entry_of_tasks htask, hrb, henvir, ?_⟩
  simp only [addChild, bind_eq_ok, pure_eq_ok] at hadd
  obtain ⟨next, -, -, -, rfl⟩ := hadd
  have hsame : task₁ = task := by
    have hold : (s.newChild p task.envir envir rb).tasks t = s.tasks t := by
      simp [State.newChild, install, setEnvir, smonGetRb, ht]
    have htask' : (s.newChild p task.envir envir rb).tasks t = some task₁ := htask₁
    rw [hold, htask, Option.some_inj] at htask'
    exact htask'.symm
  subst hsame
  have hnew := newChild_book s p task₁.envir envir rb
  generalize s.newChild p task₁.envir envir rb = x at *
  have hlists : x.lists = s.lists := congrArg Book.lists hnew
  have hchildren : x.children = s.children.init s.fresh := congrArg Book.children hnew
  have hrecord : (({ x with children := x.children.add s.fresh t } : State).record
      (.child t s.fresh)).book = { x.book with
        children := x.children.add s.fresh t
        history := x.book.history ++ [.child t s.fresh] } := by
    have hhistory : (x.trace ++ [TraceEvent.child t s.fresh]).filter TraceEvent.isBook =
        x.book.history ++ [.child t s.fresh] := by simp [State.book, TraceEvent.isBook]
    rw [← hhistory]
    rfl
  rw [book_addCpuList, book_setTask, hrecord, hnew, hchildren]
  calc _ = { s.book.addChild t task₁.core rb envir p with
      lists := put x.lists (.cpu (s.kernel.cpu p)) s.fresh } := rfl
    _ = _ := by
      rw [hlists]
      rfl

theorem fork_book {parent child : Proc} {pid : Pid} {cpu : Cpu} {leader alloc : Bool}
    (hbound : ∀ t, s.book.entry t ≠ none → t < s.fresh)
    (h : s.exec (.fork parent child pid cpu leader alloc) = .ok s') :
    BookStep s.book (.fork parent child pid cpu leader alloc) s'.book := by
  rcases fork_cases h with
    ⟨hnone, rfl⟩ | ⟨t, s₁, hfound, ⟨task, envir, htask, henvir, hreg, -⟩, hquiet⟩
  · have habsent := absent_of_findProc (s := s.withKernel _) (i := .cpu _) hnone
    exact .forkNone _ _ _ _ _ _ _ rfl (.inl habsent)
  have hat := at_of_findProc (s := s.withKernel _) (i := .cpu _) hfound
  have hentry : s.book.entry t = some task.core := entry_of_tasks htask
  rw [hquiet.book]
  rcases hreg with ⟨hinherit, rfl, hadd⟩ | ⟨hno, rfl⟩
  · have ht : t < s.fresh := hbound t (by rw [hentry]; simp)
    obtain ⟨c, rb, envir', hc, hrb, henvir', hbook⟩ := child_book hadd (by
      intro heq
      exact Nat.lt_irrefl _ (heq ▸ ht))
    rw [hbook]
    refine .fork _ _ _ _ _ _ t c rb envir' rfl hat hc hrb henvir' ?_
    obtain rfl : c = task.core := Option.some_inj.mp (hc.symm.trans hentry)
    rw [← Option.some_inj.mp (henvir.symm.trans henvir'), hinherit]
  · refine .forkNone _ _ _ _ _ _ _ rfl (.inr ?_)
    rcases hno with hno | halloc
    · exact .inr ⟨t, task.core, envir, hat, hentry, henvir, hno⟩
    · exact .inl halloc

end Hooks

end SchedMon
