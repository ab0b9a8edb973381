import SchedMon.Driver.Chronicle
import SchedMon.Lib.Log

/-!
# Where the pids come from

A client reads a buffer from its beginning, and meets the pids of processes it has never heard of.
If every session on the buffer that monitors the children of its processes has their forks reported
too, there are no such pids: each one was registered for the buffer, or a FORK record before it in the
same buffer names it as a child.

## Main definitions

* `Introduced` — a pid is known, from the registrations or from a FORK record
* `Reporting` — forks are reported where children are monitored
* `State.Lineage` — the invariant

## Main results

* `born_of_fork` — what a fork that adds a task reports
* `introduced_of_run` — **every pid is introduced before it is used**
-/

namespace SchedMon

open State

/-- The child that a FORK record reports. -/
def Sample.child? : Sample → Option Pid
  | fork s => some s.child
  | _ => none

/-- Pid `q` is registered for buffer `b`, or one of the records `pre` reports it as a child. -/
def Introduced (ls : List Label) (b : RbId) (pre : List Sample) (q : Pid) : Prop :=
  (∃ me envir alloc, Label.register me q envir b alloc ∈ ls) ∨ ∃ w ∈ pre, w.child? = some q

/-- Every record carries a pid that is introduced before. -/
def Introducing (ls : List Label) (b : RbId) : List Sample → Prop :=
  Each fun pre w => ∀ q, w.pid? = some q → Introduced ls b pre q

/-- Whoever has children monitored into buffer `b` has their forks reported, and is not in stat
mode. -/
def Reporting (ls : List Label) (b : RbId) : Prop :=
  ∀ me q envir alloc, Label.register me q envir b alloc ∈ ls → envir.options.inherit = true →
    envir.options.fork = true ∧ envir.options.stat = false

theorem Introduced.mono {ls : List Label} {b : RbId} {pre : List Sample} {q : Pid}
    (h : Introduced ls b pre q) (ls' : List Label) (pre' : List Sample) :
    Introduced (ls ++ ls') b (pre ++ pre') q := by
  rcases h with ⟨me, envir, alloc, hmem⟩ | ⟨w, hw, hchild⟩
  · exact .inl ⟨me, envir, alloc, List.mem_append_left _ hmem⟩
  · exact .inr ⟨w, List.mem_append_left _ hw, hchild⟩

theorem Introducing.mono {ls : List Label} {b : RbId} {log : List Sample}
    (h : Introducing ls b log) (ls' : List Label) : Introducing (ls ++ ls') b log := by
  refine Each.mono h fun pre w hw q hq => ?_
  simpa using (hw q hq).mono ls' []

/-- Options that go together: forks are reported where children are monitored. -/
def SmonEnvir.Reports (envir : SmonEnvir) : Prop :=
  envir.options.inherit = true → envir.options.fork = true

theorem smonCreateEnvir_reports {envir : SmonEnvir}
    (h : envir.options.inherit = true → envir.options.fork = true ∧ envir.options.stat = false) :
    (smonCreateEnvir envir).Reports := by
  intro hinherit
  unfold smonCreateEnvir at hinherit ⊢
  dsimp only at hinherit ⊢
  split at hinherit
  · rename_i hstat
    exact absurd (hstat.symm.trans (h hinherit).2) (by simp)
  · rename_i hstat
    simp only [hstat]
    exact (h hinherit).1

theorem reports_of_config {envir envir' : SmonEnvir} (h : envir'.config = envir.config)
    (hreports : envir.Reports) : envir'.Reports := by
  have hoptions := congrArg SmonEnvir.options h
  change envir'.options = envir.options at hoptions
  unfold SmonEnvir.Reports
  rw [hoptions]
  exact hreports

section Steps

variable {s s' s₀ : State} {t u : TaskId} {b c : RbId} {l : Label} {ls : List Label}
  {task : SmonTask} {envir : SmonEnvir} {ring : TaskId → List TaskId}

/-- **What a fork that adds a task reports**: the pid of the child, in the buffer of the child. -/
theorem born_of_fork {parent child : Proc} {pid : Pid} {cpu : Cpu} {leader alloc : Bool}
    {x : SmonTask} (hforest : Forest s.book ring)
    (h : s.exec (.fork parent child pid cpu leader alloc) = .ok s') (hu : s.tasks u = none)
    (hx : s'.tasks u = some x) : ∃ t task envir c, s.tasks t = some task ∧ task.rb = some c ∧
      s.envirs task.envir = some envir ∧ envir.options.inherit = true ∧ x.rb = some c ∧
      x.envir = task.envir ∧ (envir.options.fork = true → ∃ r,
        (s'.rbs c).log = (s.rbs c).log ++ [.fork r] ∧ r.child = x.pid) := by
  simp only [State.exec, smonSchedProcessFork, bind_eq_ok, whenFound_eq_ok] at h
  obtain ⟨found, hfound, ⟨rfl, rfl⟩ | ⟨t, rfl, task, htask, envir, henvir, s₁, hinherit, h⟩⟩ := h
  · exact absurd (hu.symm.trans hx) (by simp)
  rw [task_eq_ok] at htask
  rw [envir_eq_ok] at henvir
  have htasks : s'.tasks = s₁.tasks := by
    split at h
    · rw [← pure_eq_ok.mp h]
      exact tasks_smonSampleWrite ..
    · rw [← pure_eq_ok.mp h]
  rw [htasks] at hx
  have hsame : s₁.tasks ≠ s.tasks := fun heq => absurd (hu.symm.trans (heq ▸ hx)) (by simp)
  rcases when_eq_ok.mp hinherit with ⟨-, rfl⟩ | ⟨hinh, hregister⟩
  · exact absurd rfl hsame
  rcases registerChild_cases hregister with ⟨-, rfl⟩ | ⟨-, hadd⟩
  · exact absurd rfl hsame
  have hlt : t < s.fresh := lt_fresh_of_tasks hforest htask
  obtain ⟨d, c, envir', hd, hrb, henvir', hbook⟩ := child_book hadd (Nat.ne_of_lt hlt)
  obtain rfl := Option.some_inj.mp ((entry_of_tasks htask).symm.trans hd)
  have hentry := (congrFun (congrArg Book.entry hbook) u).symm.trans (entry_of_tasks hx)
  have hut : u ≠ t := by
    rintro rfl
    exact absurd (hu.symm.trans htask) (by simp)
  simp only [Book.addChild, Function.update_of_ne hut] at hentry
  change Function.update s.book.entry s.fresh _ u = _ at hentry
  have hnew : u = s.fresh := by
    by_contra hne
    rw [Function.update_of_ne hne] at hentry
    have hold : s.book.entry u = none := by simp [State.book, hu]
    exact absurd (hold.symm.trans hentry) (by simp)
  have hcore := (congrArg (Function.update s.book.entry s.fresh _) hnew).symm.trans hentry
  rw [Function.update_self, Option.some_inj] at hcore
  have hxrb : x.rb = some c := (congrArg (fun d => d.1.rb) hcore).symm
  have hpid : s₁.kernel.pid child = x.pid :=
    (congrFun (congrArg (fun b => b.kernel.pid) hbook) child).trans (congrArg (fun d => d.1.pid) hcore)
  have henvirs : x.envir = task.envir := (congrArg (fun d => d.1.envir) hcore).symm
  refine ⟨t, task, envir, c, htask, hrb, henvir, hinh, hxrb, henvirs, fun hfork => ?_⟩
  rw [if_pos hfork] at h
  rw [← pure_eq_ok.mp h, show task.rb = some c from hrb]
  refine ⟨⟨s₁.clock s₁.reads, task.pid, s₁.kernel.pid child⟩,
    (log_smonRbWrite (s := s₁.msrRdtsc.2) ..).trans ?_, hpid⟩
  rw [if_pos rfl]
  exact congrArg (· ++ _) (log_childAdded hadd c)

/-- A task comes with a fork or with a registration. -/
theorem BookStep.newcomer {b b' : Book} (h : BookStep b l b') (hu : b.entry u = none)
    (hu' : b'.entry u ≠ none) :
    (∃ parent child pid cpu leader alloc, l = .fork parent child pid cpu leader alloc) ∨
      ∃ me pid envir rb alloc, l = .register me pid envir rb alloc ∧ u = b.fresh ∧
        b' = b.addRoot pid envir rb := by
  have hnew := h.entry_new hu hu'
  have hsame : ∀ {P : Prop}, b'.entry u = b.entry u → P := fun heq => absurd (heq.trans hu) hu'
  cases h with
  | fork parent child pid cpu leader => exact .inl ⟨parent, child, pid, cpu, leader, true, rfl⟩
  | forkNone parent child pid cpu leader alloc =>
    exact .inl ⟨parent, child, pid, cpu, leader, alloc, rfl⟩
  | register me pid envir rb alloc => exact .inr ⟨me, pid, envir, rb, alloc, rfl, hnew, rfl⟩
  | exit p i t c rb hi hat hc hrb =>
    have hut : u ≠ t := by
      rintro rfl
      exact absurd (hu.symm.trans hc) (by simp)
    exact hsame (Function.update_of_ne hut ..)
  | unregister pid r c xs b' hr hc hpid hring hd =>
    refine absurd ?_ hu'
    rw [hd.entry]
    split
    · rfl
    · exact hu
  | _ => exact hsame rfl

/-- What holds of buffer `b` after the events `ls`. -/
structure State.Lineage (ls : List Label) (b : RbId) (s : State) : Prop where
  forest : ∃ ring, Forest s.book ring
  named : s.Named
  writers : ∀ t task, s.tasks t = some task → task.rb = some b →
    Introduced ls b (s.rbs b).log task.pid ∧
      ∀ envir, s.envirs task.envir = some envir → envir.Reports
  log : Introducing ls b (s.rbs b).log

/-- A task that has the buffer had it before, or is new. -/
theorem writers_step (h : s.Lineage ls b) (hreports : Reporting (ls ++ [l]) b)
    (hstep : s.exec l = .ok s') {x : SmonTask} (hx : s'.tasks u = some x) (hrb : x.rb = some b) :
    Introduced (ls ++ [l]) b (s'.rbs b).log x.pid ∧
      ∀ envir, s'.envirs x.envir = some envir → envir.Reports := by
  obtain ⟨ring, hforest⟩ := h.forest
  obtain ⟨ws, hlog, -⟩ := log_of_exec h.named (exec_clock hforest hstep).2 hstep b
  have hbook := exec_book_step hforest hstep
  cases hu : s.tasks u with
  | some task =>
    obtain ⟨henvir, hpid, hrest⟩ := hbook.entry_keeps (entry_of_tasks hu) (entry_of_tasks hx)
      (lt_fresh_of_tasks hforest hu)
    have hbefore : task.rb = some b := by
      rcases hrest with ⟨-, hsame⟩ | ⟨-, hnone, -⟩
      · exact (show x.rb = task.rb from hsame) ▸ hrb
      · exact absurd ((show x.rb = none from hnone).symm.trans hrb) (by simp)
    obtain ⟨hintro, hreport⟩ := h.writers u task hu hbefore
    refine ⟨?_, fun envir' he' => ?_⟩
    · rw [hlog, show x.pid = task.pid from hpid]
      exact hintro.mono _ _
    · rw [show x.envir = task.envir from henvir] at he'
      obtain ⟨envir, he, hconfig⟩ := exists_config hforest hstep hu he'
      exact reports_of_config hconfig (hreport envir he)
  | none =>
    have hentry : s.book.entry u = none := by simp [State.book, hu]
    have hnew := hbook.entry_new hentry (by rw [entry_of_tasks hx]; simp)
    rcases hbook.newcomer hentry (by rw [entry_of_tasks hx]; simp) with
      ⟨parent, child, pid, cpu, leader, alloc, rfl⟩ | ⟨me, pid, envir, c, alloc, rfl, rfl, hroot⟩
    · obtain ⟨t, task, envir, c, htask, htrb, henvir, hinherit, hxrb, hxenvir, hfork⟩ :=
        born_of_fork hforest hstep hu hx
      obtain rfl := Option.some_inj.mp (hxrb.symm.trans hrb)
      have hreport := (h.writers t task htask htrb).2 envir henvir
      obtain ⟨r, hr, hchild⟩ := hfork (hreport hinherit)
      refine ⟨.inr ⟨.fork r, by simp [hr], congrArg some hchild⟩, fun envir' he' => ?_⟩
      rw [hxenvir] at he'
      obtain ⟨envir₁, he, hconfig⟩ := exists_config hforest hstep htask he'
      obtain rfl := Option.some_inj.mp (he.symm.trans henvir)
      exact reports_of_config hconfig hreport
    · have hcore := (congrFun (congrArg Book.entry hroot) s.fresh).symm.trans (entry_of_tasks hx)
      have hnew : (s.book.addRoot pid envir c).entry s.fresh =
          some (⟨some (s.kernel.forEachProcess pid), pid, s.fresh, 0, some c⟩, some c) :=
        Function.update_self ..
      have hself := Option.some_inj.mp (hnew.symm.trans hcore)
      have hc : some c = x.rb := congrArg (fun d => d.1.rb) hself
      have hpid : pid = x.pid := congrArg (fun d => d.1.pid) hself
      have henvir : s.fresh = x.envir := congrArg (fun d => d.1.envir) hself
      obtain rfl := Option.some_inj.mp (hc.trans hrb)
      have hmem : Label.register me pid envir c alloc ∈ ls ++ [.register me pid envir c alloc] := by
        simp
      refine ⟨.inl ⟨me, envir, alloc, hpid ▸ hmem⟩, fun envir' he' => ?_⟩
      have hcreated := congrFun (congrArg Book.envirs hroot) s.fresh
      rw [← henvir] at he'
      have hmade : (s.book.addRoot pid envir c).envirs s.fresh = some (smonCreateEnvir envir) :=
        Function.update_self ..
      obtain rfl := Option.some_inj.mp (hmade.symm.trans (hcreated.symm.trans he'))
      exact smonCreateEnvir_reports (hreports me pid envir alloc hmem)

theorem State.Lineage.step (h : s.Lineage ls b) (hreports : Reporting (ls ++ [l]) b)
    (hstep : s.exec l = .ok s') : s'.Lineage (ls ++ [l]) b := by
  obtain ⟨ring, hforest⟩ := h.forest
  obtain ⟨ws, hlog, -, howned⟩ :=
    log_of_exec h.named (exec_clock hforest hstep).2 hstep b
  refine ⟨hforest.step (exec_book_step hforest hstep), fun t => (h.named t).step hforest hstep,
    fun t x hx hrb => writers_step h hreports hstep hx hrb, ?_⟩
  rw [hlog]
  -- a record comes from a task that had the buffer when the event began
  refine (h.log.mono [l]).append fun pre w post hws q hq => ?_
  obtain ⟨t, task, htask, hrb, rfl⟩ := howned w (by simp [hws]) q hq
  exact (h.writers t task htask hrb).1.mono _ _

/-- **Every pid is introduced before it is used**: a record of buffer `b` carries a pid that is
registered for `b`, or that a FORK record before it reports as a child. -/
theorem introduced_of_run (run : Run State.Step s₀ ls s) (init : s₀.Initial)
    (hreports : Reporting ls b) {pre post : List Sample} {w : Sample} {q : Pid}
    (hlog : (s.rbs b).log = pre ++ w :: post) (hpid : w.pid? = some q) : Introduced ls b pre q := by
  have hlineage : Reporting ls b → s.Lineage ls b := by
    refine run.induct (motive := fun ls s => Reporting ls b → s.Lineage ls b) (fun _ => ?_) ?_
    · refine ⟨⟨_, Initial.forest init⟩, fun t task ht => ?_, fun t task ht => ?_, ?_⟩
      · rw [init.tasks t] at ht
        cases ht
      · rw [init.tasks t] at ht
        cases ht
      · rw [(init.rbs b).2]
        exact each_nil
    · intro ls s l s' _ ih hstep hreports
      have hbefore : Reporting ls b := fun me q envir alloc hmem =>
        hreports me q envir alloc (List.mem_append_left _ hmem)
      exact (ih hbefore).step hreports hstep.2
  exact (hlineage hreports).log pre w post hlog q hpid

theorem introduced_of_run_talk : ∃ s, Run State.Step (boot [] [fixedOnly]) talk s ∧
    ∃ pre w post, (s.rbs 0).log = pre ++ w :: post ∧ w.pid? = some 3 ∧ Introduced talk 0 pre 3 := by
  have run : Run State.Step (boot [] [fixedOnly]) talk ((boot [] [fixedOnly]).after talk) :=
    run_after rfl
  have hreports : Reporting talk 0 := by
    intro me q envir alloc hmem _
    simp only [talk, List.mem_cons, Label.register.injEq, reduceCtorEq, List.not_mem_nil, or_false]
      at hmem
    obtain ⟨-, -, rfl, -, -⟩ := hmem
    exact ⟨rfl, rfl⟩
  have hsplit : (((boot [] [fixedOnly]).after talk).rbs 0).log =
      (((boot [] [fixedOnly]).after talk).rbs 0).log.take 7 ++
        (((boot [] [fixedOnly]).after talk).rbs 0).log.get ⟨7, by decide⟩ ::
          (((boot [] [fixedOnly]).after talk).rbs 0).log.drop 8 := by
    rfl
  exact ⟨_, run, _, _, _, hsplit, rfl, introduced_of_run run (initial_boot ..) hreports hsplit rfl⟩

end Steps

end SchedMon
