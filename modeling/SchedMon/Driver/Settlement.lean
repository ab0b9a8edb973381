import Mathlib.Algebra.BigOperators.Group.Finset.Piecewise
import SchedMon.Driver.Ledger
import SchedMon.Driver.Pace

/-!
# No time is lost

A PMC record takes the time of its sample with it, and the sample begins again with nothing. So the
times that the records of a buffer say, together with those that the samples of its tasks still hold,
are the times for which these tasks ran, whatever slices they ran in, on whatever CPUs, and however
often the timer went off in between. Once a process has exited, its sample holds nothing any more.

## Main definitions

* `State.Monitored` — a task is for a process that is there, and does not wait
* `State.held` — the time that the sample of a task holds
* `LedgerStep`, `HomedStep` — the steps of the runs that are considered here
* `Conserved` — records and samples together hold what was run

## Main results

* `settled_step` — a task that is not monitored has nothing in its account
* `exists_home` — every run has its tasks in their buffers
* `fed_of_run` — what a tally says holds of every task in a run
* `conserved_of_run` — **no time is lost**
-/

namespace SchedMon

open State

/-- Task `t` is for a process that is there, and does not wait. -/
def State.Monitored (s : State) (t : TaskId) : Prop :=
  ∃ task p, s.tasks t = some task ∧ task.p = some p ∧ t ∉ s.waitList

/-- The time that the sample of task `t` holds. -/
def State.held (s : State) (t : TaskId) : ℤ :=
  match s.tasks t with
  | some task => task.samplePmc.duration
  | none => 0

/-- A step of an orderly run in which a process is registered while it does not run, or to be
monitored from its `exec` on. -/
def LedgerStep (s : State) (l : Label) (s' : State) : Prop :=
  OrderlyStep s l s' ∧ s.Enters s.fresh l

/-! ### Tasks that have been settled -/

section Settled

variable {s s' s₁ : State} {t : TaskId} {l : Label} {p : Proc} {task task' : SmonTask}
  {ring : TaskId → List TaskId} {es : List TraceEvent} {c : Cpu} {me : Cpu} {tsc : ℤ}

theorem State.RunsOn.monitored (h : s.RunsOn t c) : s.Monitored t := by
  obtain ⟨task, p, htask, hp, hwait, -⟩ := h
  exact ⟨task, p, htask, hp, hwait⟩

/-- A task that keeps its process stays monitored. -/
theorem State.Monitored.step (h : s.Monitored t) (hforest : Forest s.book ring)
    (hstep : s.exec l = .ok s') (htask : s.tasks t = some task) (htask' : s'.tasks t = some task')
    (hp : task'.p = task.p) : s'.Monitored t := by
  obtain ⟨x, p, hx, hxp, hwait⟩ := h
  obtain rfl := Option.some_inj.mp (hx.symm.trans htask)
  have hlt := lt_fresh_of_tasks hforest htask
  exact ⟨task', p, htask', hp.trans hxp, fun hmem => hwait (mem_waitList_before hforest hstep hlt hmem)⟩

/-- A process that exits without being sampled was not monitored. -/
theorem not_monitored_of_leave (hforest : Forest s.book ring) (hl : s.kernel.Orderly (.exit p))
    (hstep : s.exec (.exit p) = .ok s') (hout : ∀ c, ¬ s.RunsOn t c) (h : Departed t s s') :
    ¬ s.Monitored t := by
  rintro ⟨task, q, htask, hq, hwait⟩
  obtain ⟨task', htask', hnone⟩ := h.after
  obtain ⟨-, -, ⟨hsame, -⟩ | ⟨-, -, p', i, heq, hmem, c, hc, hcp⟩⟩ :=
    (exec_book_step hforest hstep).entry_keeps (entry_of_tasks htask) (entry_of_tasks htask')
      (lt_fresh_of_tasks hforest htask)
  · -- its process would still be there
    have hp' : task'.p = task.p := hsame
    exact absurd (hq.symm.trans (hp'.symm.trans hnone)) (by simp)
  · obtain rfl : p' = p := (Label.exit.inj heq).symm
    obtain rfl := Option.some_inj.mp ((entry_of_tasks htask).symm.trans hc)
    exact hout (s.kernel.cpu p') ⟨task, p', htask, hcp, hwait, rfl, hl.1⟩

theorem duration_start : (account t (es ++ [.start t me tsc])).duration = (account t es).duration := by
  rw [account_concat]
  simp [Account.step]

theorem duration_count (ctr : Counter) (inc : ℕ) :
    (account t (es ++ [.count me ctr inc])).duration = (account t es).duration := by
  rw [account_concat, Account.step_count]

/-- What is said of other tasks, after an entry that leaves the duration alone. -/
theorem duration_foreign {es' : List TraceEvent}
    (h : ∀ e ∈ es', e.task? ≠ some t ∧ e.isCount = false) :
    (account t (es ++ es')).duration = (account t es).duration :=
  congrArg Account.duration (account_append_foreign h)

/-- A task that is not monitored has nothing in its account. -/
theorem settled_step (hworld : s.World) (hstep : OrderlyStep s l s') (hcourse : Course t s l s')
    (h : ¬ s.Monitored t → (account t s.trace).duration = 0) (hnot : ¬ s'.Monitored t) :
    (account t s'.trace).duration = 0 := by
  obtain ⟨⟨henabled, hexec⟩, hl, -, hallows⟩ := hstep
  obtain ⟨ring, hforest⟩ := hworld.forest
  -- where the process stays and the duration does, there is nothing to show
  have hkeep : ∀ {x y : SmonTask}, s.tasks t = some x → s'.tasks t = some y → y.p = x.p →
      (account t s'.trace).duration = (account t s.trace).duration →
      (account t s'.trace).duration = 0 := fun hx hy hp heq => by
    rw [heq]
    exact h fun hmonitored => hnot (hmonitored.step hforest hexec hx hy hp)
  cases hcourse with
  | aside hidle haside hruns =>
    obtain ⟨es, hes, hforeign⟩ := haside.trace
    have heq : (account t s'.trace).duration = (account t s.trace).duration := by
      rw [hes, duration_foreign hforeign]
    cases htask : s.tasks t with
    | some x =>
      obtain ⟨y, hy, hagrees⟩ := haside.exists_task htask
      exact hkeep htask hy hagrees.p heq
    | none =>
      rw [heq]
      refine h ?_
      rintro ⟨x, -, hx, -⟩
      cases htask.symm.trans hx
  | time d => exact h hnot
  | count me ctr inc =>
    change (account t (s.trace ++ [.count me ctr inc])).duration = 0
    rw [duration_count]
    exact h hnot
  | start hpending hstart hruns =>
    obtain ⟨x, envir, hx, -, ⟨-, hcall⟩ | ⟨evset, -, hcall⟩⟩ := call_start hstart
    · refine hkeep hx hcall.after hcall.same_p ?_
      rw [hcall.trace, List.append_nil]
    · refine hkeep hx hcall.after hcall.same_p ?_
      rw [hcall.trace, duration_start]
  | stop hpending hstop hruns =>
    obtain ⟨x, hx, hcall, -⟩ := call_stopTimerPmc 0 hstop
    refine hkeep hx hcall.after hcall.same_p ?_
    rw [hcall.trace, List.append_nil]
  | @tick task s' htask hdue htick hruns =>
    cases hflags : task.timerFlags with
    | false =>
      obtain ⟨hcall, -⟩ := call_smonSchedTimerTick_off 0 htask hflags htick
      refine hkeep htask hcall.after hcall.same_p ?_
      rw [hcall.trace, List.append_nil]
    | true =>
      obtain ⟨envir, evset, tsc, pmc, next, -, -, -, -, -, -, ⟨-, hcall⟩ | ⟨evset', -, -, hcall⟩⟩ :=
        call_tick htask hflags htick
      · rw [hcall.trace, account_taken]
        rfl
      · have htrace := hcall.trace.trans (List.append_assoc _ [_, _] [_]).symm
        rw [htrace, duration_start, account_taken]
        rfl
  | out hprompt hruns hout haside hleft =>
    -- the process is still there, and its task does not wait
    obtain ⟨x, p, hx, hp, hwait, -⟩ := hruns
    have hafter : ∃ y, s'.tasks t = some y ∧ y.p = x.p := by
      obtain ⟨z, _, _, _, _, hz, -, -, -, -, hoff, hon⟩ := call_out hout
      obtain rfl := Option.some_inj.mp (hz.symm.trans hx)
      cases hactive : z.timer.active with
      | false =>
        obtain ⟨y, hy, hagrees⟩ := haside.exists_task (hoff hactive).after
        exact ⟨y, hy, hagrees.p.trans (hoff hactive).same_p⟩
      | true =>
        obtain ⟨y, hy, hagrees⟩ := haside.exists_task (hon hactive).1.after
        exact ⟨y, hy, hagrees.p.trans (hon hactive).1.same_p⟩
    obtain ⟨y, hy, hsame⟩ := hafter
    exact absurd (State.Monitored.step ⟨x, p, hx, hp, hwait⟩ hforest hexec hx hy hsame) hnot
  | @enter l me s₁ s₂ s' hprompt hcpu hout h₁ henvirs hin h₂ hmsr hruns =>
    -- it runs now
    exact absurd ((hruns me).mpr rfl).monitored hnot
  | @exit p me task s₀ s₁ s' hprompt hruns htask hp hstop hsave hdeparted hleft =>
    obtain ⟨envir, evset, tsc, pmc, -, -, -, -, -, hcall⟩ := call_exit htask hstop hsave
    obtain ⟨_, _, haside⟩ := hdeparted
    obtain ⟨es, hes, hforeign⟩ := haside.trace
    replace hes : s'.trace = s₁.trace ++ es := hes
    rw [hes, duration_foreign hforeign, hcall.trace, account_taken]
    rfl
  | leave hout hdeparted hleft =>
    have hbefore := not_monitored_of_leave hforest hl hexec hout hdeparted
    obtain ⟨_, _, haside⟩ := hdeparted
    obtain ⟨es, hes, hforeign⟩ := haside.trace
    replace hes : s'.trace = s.trace ++ es := hes
    rw [hes, duration_foreign hforeign]
    exact h hbefore
  | new hcomes hborn =>
    obtain ⟨rfl, -, _, _, _, _, haside⟩ := hborn
    obtain ⟨es, hes, hforeign⟩ := haside.trace
    replace hes : s'.trace = s.trace ++ es := hes
    rw [hes, duration_foreign hforeign, account_eq_zero (hworld.unborn s.fresh (Nat.le_refl _)).2]
    rfl
  | gone hlt hgone htrace =>
    obtain ⟨es, hes, hforeign⟩ := htrace
    rw [hes, duration_foreign hforeign]
    refine h ?_
    rintro ⟨x, p, hx, hp, -⟩
    by_cases hunregister : ∃ pid, l = .unregister pid
    · obtain ⟨pid, rfl⟩ := hunregister
      have hnone := exited_of_unregister hforest hallows hexec hx hgone
      exact absurd (hp.symm.trans hnone) (by simp)
    · obtain ⟨y, hy⟩ := exists_task_of_step hforest hexec hx fun pid hpid => hunregister ⟨pid, hpid⟩
      exact absurd (hy.symm.trans hgone) (by simp)

end Settled

/-! ### Tasks and their buffers -/

/-- A step of such a run, after which every task has the buffer that `home` says. -/
def HomedStep (home : TaskId → RbId) (s : State) (l : Label) (s' : State) : Prop :=
  LedgerStep s l s' ∧ s'.Houses home

section Homes

variable {s s' s₀ : State} {t : TaskId} {b : RbId} {l : Label} {ls : List Label}
  {home home' : TaskId → RbId} {ring : TaskId → List TaskId}

/-- A task that is not new had its buffer before. -/
theorem BookStep.rb_before {b b' : Book} {c' : TaskCore × Option RbId} {rb : RbId}
    (h : BookStep b l b') (hc' : b'.entry t = some c') (hne : t ≠ b.fresh) (hrb : c'.1.rb = some rb) :
    ∃ c, b.entry t = some c ∧ c.1.rb = some rb := by
  cases h with
  | fork parent child pid cpu leader k u d rb' envir hk hat hd =>
    by_cases hu : t = u
    · subst hu
      simp only [Book.addChild, Function.update_self, Option.some_inj] at hc'
      subst hc'
      exact ⟨d, hd, hrb⟩
    · simp only [Book.addChild, Function.update_of_ne hu, Function.update_of_ne hne] at hc'
      exact ⟨c', hc', hrb⟩
  | exit p i u d rb' hi hat hd hrb' =>
    by_cases hu : t = u
    · subst hu
      simp only [Book.leave, Function.update_self, Option.some_inj] at hc'
      subst hc'
      cases hrb
    · exact ⟨c', (Function.update_of_ne hu ..).symm.trans hc', hrb⟩
  | register => exact ⟨c', (Function.update_of_ne hne ..).symm.trans hc', hrb⟩
  | unregister pid r d xs b' hr hd hpid hring hdropped =>
    rw [hdropped.entry] at hc'
    split at hc'
    · cases hc'
    · exact ⟨c', hc', hrb⟩
  | _ => exact ⟨c', hc', hrb⟩

/-- Only the new task has to be looked at. -/
theorem State.Houses.step (h : s.Houses home) (hforest : Forest s.book ring)
    (hstep : s.exec l = .ok s')
    (hnew : ∀ task b, s'.tasks s.fresh = some task → task.rb = some b → home s.fresh = b) :
    s'.Houses home := by
  intro t task b htask hrb
  by_cases hfresh : t = s.fresh
  · subst hfresh
    exact hnew task b htask hrb
  obtain ⟨c, hc, hcrb⟩ := (exec_book_step hforest hstep).rb_before (entry_of_tasks htask) hfresh hrb
  obtain ⟨x, hx, hcore⟩ := tasks_of_entry hc
  have hxrb : x.rb = c.1.rb := congrArg (fun c => c.1.rb) hcore
  exact h t x b hx (hxrb.trans hcrb)

theorem State.Houses.initial (init : s.Initial) : s.Houses home := by
  intro t task b htask
  rw [init.tasks t] at htask
  cases htask

theorem world_of_ledger (run : Run LedgerStep s₀ ls s) (init : s₀.Initial) : s.World :=
  world_of_run (run.mono fun _ _ _ h => ⟨h.1.1, h.1.2.1⟩) init

/-- Every run has its tasks in their buffers. -/
theorem exists_home (run : Run LedgerStep s₀ ls s) (init : s₀.Initial) :
    ∃ home, Run (HomedStep home) s₀ ls s := by
  suffices hmany : ∃ home : TaskId → RbId, ∀ home' : TaskId → RbId,
      (∀ t, t < s.fresh → home' t = home t) → Run (HomedStep home') s₀ ls s ∧ s.Houses home' by
    obtain ⟨home, hhome⟩ := hmany
    exact ⟨home, (hhome home fun _ _ => rfl).1⟩
  refine run.induct (motive := fun ls s => ∃ home : TaskId → RbId, ∀ home' : TaskId → RbId,
    (∀ t, t < s.fresh → home' t = home t) → Run (HomedStep home') s₀ ls s ∧ s.Houses home')
    ⟨fun _ => 0, fun home' _ => ⟨.nil, .initial init⟩⟩ ?_
  rintro ls s l s' run ⟨home, ih⟩ hstep
  have hworld := world_of_ledger run init
  obtain ⟨ring, hforest⟩ := hworld.forest
  obtain ⟨ring', hforest'⟩ := (hworld.step hstep.1.2.1 hstep.1.1).forest
  have hexec := hstep.1.1.2
  have hle : s.fresh ≤ s'.fresh := (exec_book_step hforest hexec).fresh_le
  -- the buffer of the task that may be new
  refine ⟨Function.update home s.fresh (((s'.tasks s.fresh).bind fun task => task.rb).getD 0),
    fun home' hhome' => ?_⟩
  have hold : ∀ t, t < s.fresh → home' t = home t := by
    intro t ht
    rw [hhome' t (Nat.lt_of_lt_of_le ht hle), Function.update_of_ne (Nat.ne_of_lt ht)]
  obtain ⟨run', houses⟩ := ih home' hold
  have houses' : s'.Houses home' := by
    refine houses.step hforest hexec fun task b htask hrb => ?_
    rw [hhome' s.fresh (lt_fresh_of_tasks hforest' htask), Function.update_self, htask]
    change task.rb.getD 0 = b
    rw [hrb]
    rfl
  exact ⟨run'.snoc ⟨hstep, houses'⟩, houses'⟩

theorem HomedStep.houses_of_run (run : Run (HomedStep home) s₀ ls s) (init : s₀.Initial) :
    s.Houses home := by
  cases run with
  | nil => exact .initial init
  | snoc run last => exact last.2

/-- The PMC records of a buffer are those of the tasks that were made for it. -/
theorem pmcs_of_run (run : Run (HomedStep home) s₀ ls s) (init : s₀.Initial) (b : RbId) :
    (s.rbs b).pmcs = recordsOf (tenants home b) s.trace := by
  refine run.induct (motive := fun _ s => (s.rbs b).pmcs = recordsOf (tenants home b) s.trace) ?_ ?_
  · rw [Rb.pmcs, (init.rbs b).2, init.trace]
    rfl
  · intro ls s l s' run ih hstep
    have run' : Run OrderlyStep s₀ ls s := run.mono fun _ _ _ h => h.1.1
    obtain ⟨ring, hforest⟩ := (world_of_ledger (run.mono fun _ _ _ h => h.1) init).forest
    have hsteered : ∀ t task, s.tasks t = some task → Steered t s := fun t =>
      steered_of_run (attended_of_orderly run' init t) init
    obtain ⟨es, hes, hpmcs⟩ :=
      pmcs_of_exec (HomedStep.houses_of_run run init) hforest hsteered hstep.1.1 b
    rw [hpmcs, hes, ih, recordsOf_append]

end Homes

/-! ### Whole runs -/

section Runs

variable {s s₀ : State} {t : TaskId} {ls : List Label} {R : ℕ → SmonTask → Account → Prop}
  {P : Account → TraceEvent → Prop}

/-- What `Tally` says holds of every task in a run, and tasks that are not monitored are settled. -/
theorem fed_of_run (T : Tally t s₀.clock R P)
    (hzero : ∀ n pid task, task.samplePmc = { SamplePmc.zero with pid := pid } → R n task .zero)
    (run : Run LedgerStep s₀ ls s) (init : s₀.Initial) :
    Each (Asked t P) s.trace ∧ (¬ s.Monitored t → (account t s.trace).duration = 0) ∧
      ∀ task, s.tasks t = some task → Fed R P t s := by
  refine (run.induct (motive := fun _ s => (Each (Asked t P) s.trace ∧
    (¬ s.Monitored t → (account t s.trace).duration = 0) ∧
    ∀ task, s.tasks t = some task → Fed R P t s) ∧ s.clock = s₀.clock ∧
    ∃ w, PlacedBook w s.book) ?_ ?_).1
  · refine ⟨⟨by simp [init.trace], fun _ => ?_, fun task htask => ?_⟩, rfl, _, Initial.placedBook init⟩
    · rw [init.trace]
      rfl
    · rw [init.tasks t] at htask
      cases htask
  rintro ls s l s' run ⟨⟨hasked, hsettled, hlive⟩, hsame, w, hplaced⟩
    ⟨⟨hstep, hl, hprompt, hallows⟩, henters⟩
  have hworld := world_of_ledger run init
  obtain ⟨ring, hforest⟩ := hworld.forest
  have hsteered : ∀ task, s.tasks t = some task → Steered t s :=
    steered_of_run (attended_of_orderly (run.mono fun _ _ _ h => h.1) init t) init
  have hreached := hplaced.reached hworld.listed t
  have hcourse := exec_course hforest hworld.listed hworld.sane hreached hl hprompt hstep
  have hplaced' := hplaced.step hworld.listed hforest (exec_book_step hforest hstep.2)
    (hplaced.allows hallows)
  rw [← hsame] at T
  have hnow : ∀ task', s'.tasks t = some task' → Fed R P t s' := by
    intro task' htask'
    cases htask : s.tasks t with
    | some task =>
      have hlt := lt_fresh_of_tasks hforest htask
      have hsteered' := (hsteered task htask).step hlt hcourse htask htask'
      exact (hlive task htask).step T (hsteered task htask) hsteered' hforest hstep.2 hlt hcourse htask
        htask'
    | none =>
      obtain ⟨p, hcomes, hborn⟩ := hcourse.born htask htask'
      obtain rfl : t = s.fresh := hborn.1
      exact .of_born hborn hworld.unborn (hzero s'.reads)
        (not_runsOn_of_born hworld hstep hl henters hcomes hborn)
  refine ⟨⟨?_, settled_step hworld ⟨hstep, hl, hprompt, hallows⟩ hcourse hsettled, hnow⟩,
    (exec_clock hforest hstep.2).1.trans hsame, _, hplaced'⟩
  cases htask' : s'.tasks t with
  | some task' => exact ((hnow task' htask').kept task' htask').asked
  | none =>
    obtain ⟨es, hes, hforeign⟩ := hcourse.trace_of_absent htask'
    rw [hes]
    exact hasked.append_of_forall fun e he _ htask => absurd htask (hforeign e he)

/-- A task has the duration of its account, and knows when its slice began. -/
structure Clocked (n : ℕ) (task : SmonTask) (a : Account) : Prop where
  duration : task.samplePmc.duration = a.duration
  since : ∀ c b, a.since = some (c, b) → task.tscTmp = b

theorem clocked_tally (t : TaskId) (clock : ℕ → ℤ) : Tally t clock Clocked Measured := by
  constructor
  case congr =>
    intro n n' task task' a h hn hpmc htsc
    refine ⟨by rw [hpmc]; exact h.duration, ?_⟩
    rw [htsc]
    exact h.since
  case count =>
    intro n task a me ctr inc h
    rw [Account.step_count]
    exact ⟨h.duration, h.since⟩
  case start =>
    intro n task a me h hsince
    have hstep : a.step t (.start t me (clock n)) =
        { a with since := some (me, clock n), first := a.first.or (some (clock n)) } := if_pos rfl
    rw [hstep]
    refine ⟨⟨h.duration, fun c b heq => ?_⟩, trivial⟩
    exact (Prod.mk.inj (Option.some_inj.mp heq)).2
  case stop =>
    intro n task a me b pmc h hsince
    have hstep : a.step t (.stop t me (clock n)) =
        { a with
          since := none, last := some (clock n), duration := a.duration + a.elapsed (clock n) } :=
      if_pos rfl
    rw [hstep]
    refine ⟨⟨?_, fun c b heq => (by cases heq)⟩, trivial⟩
    change task.samplePmc.duration + (clock n - task.tscTmp) = a.duration + a.elapsed (clock n)
    rw [h.duration, h.since me b hsince, Account.elapsed, hsince]
  case save =>
    intro n task a envir h hsince hlast
    have hstep : a.step t (.save t task.record envir) = { Account.zero with since := a.since } :=
      if_pos rfl
    rw [hstep, hsince]
    exact ⟨⟨rfl, fun c b heq => (by cases heq)⟩, h.duration⟩
  case sched => exact fun _ _ => trivial

theorem clocked_zero (n : ℕ) (pid : Pid) (task : SmonTask)
    (hpmc : task.samplePmc = { SamplePmc.zero with pid := pid }) : Clocked n task .zero :=
  ⟨by rw [hpmc]; rfl, fun c b heq => (by cases heq)⟩

/-- What the records of a task say and what its sample holds is what it ran; and the sample of a task
that is not monitored holds nothing. -/
theorem balance_of_run (run : Run LedgerStep s₀ ls s) (init : s₀.Initial) (t : TaskId) :
    timeOf (recordsOf (· = t) s.trace) + s.held t = ran t s.trace ∧
      (¬ s.Monitored t → s.held t = 0) := by
  obtain ⟨hasked, hsettled, hlive⟩ :=
    fed_of_run (t := t) (clocked_tally t s₀.clock) clocked_zero run init
  have hheld : s.held t = (account t s.trace).duration := by
    unfold State.held
    cases htask : s.tasks t with
    | some task => exact ((hlive task htask).kept task htask).data.duration
    | none =>
      refine (hsettled ?_).symm
      rintro ⟨task, -, htask', -⟩
      cases htask.symm.trans htask'
  rw [hheld]
  exact ⟨balance hasked, hsettled⟩

end Runs

/-! ### Sums -/

section Sums

variable {home : TaskId → RbId} {b : RbId} {es : List TraceEvent} {n : ℕ}

theorem timeOf_recordsOf_cons (Q : TaskId → Bool) (e : TraceEvent) (es : List TraceEvent) :
    timeOf (recordsOf Q (e :: es)) = timeOf (recordsOf Q [e]) + timeOf (recordsOf Q es) := by
  rw [← timeOf_append, ← recordsOf_append]
  rfl

theorem timeOf_recordsOf_save (Q : TaskId → Bool) (u : TaskId) (sample : SamplePmc)
    (envir : SmonEnvir) :
    timeOf (recordsOf Q [.save u sample envir]) = if Q u then sample.duration else 0 := by
  cases hu : Q u with
  | true => simp [recordsOf, TraceEvent.savedBy, hu, timeOf]
  | false => simp [recordsOf, TraceEvent.savedBy, hu, timeOf]

/-- The time of all records for a buffer, task by task. -/
theorem timeOf_tenants (h : ∀ e ∈ es, ∀ t, e.task? = some t → t < n) :
    timeOf (recordsOf (tenants home b) es) =
      ∑ t ∈ (Finset.range n).filter (fun t => home t = b), timeOf (recordsOf (· = t) es) := by
  induction es with
  | nil => exact Finset.sum_const_zero.symm
  | cons e es ih =>
    have hrest := ih fun x hx => h x (List.mem_cons_of_mem _ hx)
    have he := h e List.mem_cons_self
    simp only [timeOf_recordsOf_cons _ e es, Finset.sum_add_distrib, ← hrest]
    refine congrArg (· + _) ?_
    cases e with
    | save u sample envir =>
      simp only [timeOf_recordsOf_save, decide_eq_true_eq, Finset.sum_ite_eq, Finset.mem_filter,
        Finset.mem_range, he u rfl, true_and]
    | _ => exact Finset.sum_const_zero.symm

end Sums

/-- For every buffer, the times that its records say and those that the samples of its tasks hold are
the times for which these tasks ran. -/
def Conserved (home : TaskId → RbId) (s : State) : Prop :=
  ∀ b, timeOf (s.rbs b).pmcs + ∑ t ∈ (Finset.range s.fresh).filter (fun t => home t = b), s.held t =
    ∑ t ∈ (Finset.range s.fresh).filter (fun t => home t = b), ran t s.trace

theorem Conserved.of_run {s s₀ : State} {ls : List Label} {home : TaskId → RbId}
    (run : Run (HomedStep home) s₀ ls s) (init : s₀.Initial) : Conserved home s := by
  intro b
  have run' : Run LedgerStep s₀ ls s := run.mono fun _ _ _ h => h.1
  have hborn : ∀ e ∈ s.trace, ∀ t, e.task? = some t → t < s.fresh := by
    intro e he t ht
    by_contra hle
    exact ((world_of_ledger run' init).unborn t (Nat.not_lt.mp hle)).2 e he ht
  rw [pmcs_of_run run init b, timeOf_tenants hborn, ← Finset.sum_add_distrib]
  exact Finset.sum_congr rfl fun t _ => (balance_of_run run' init t).1

/-- **No time is lost**: in every orderly run, the PMC records of a buffer together with the samples of
its tasks hold the time for which these tasks ran, all of it and once; and the sample of a task that
waits, whose process has exited, or that is gone, holds nothing. -/
theorem conserved_of_run {s s₀ : State} {ls : List Label} (run : Run LedgerStep s₀ ls s)
    (init : s₀.Initial) :
    ∃ home, Run (HomedStep home) s₀ ls s ∧ Conserved home s ∧ ∀ t, ¬ s.Monitored t → s.held t = 0 := by
  obtain ⟨home, run'⟩ := exists_home run init
  exact ⟨home, run', .of_run run' init, fun t => (balance_of_run run init t).2⟩

/-- A process forks and is switched out; the child exits. -/
def forkedAndOut : List Label :=
  [.register 0 1 inheriting 0 ⟨true, true, true⟩, .switch 0 1, .irq 0 (.startTimer 0),
    .fork 1 3 3 0 true true, .switch 0 3, .irq 0 (.stopTimer 0), .irq 0 (.startTimer 1), .exit 3]

theorem conserved_of_run_forked : ∃ s : State, timeOf (s.rbs 0).pmcs = 1 ∧ s.held 0 = 1 ∧
    ∃ home, Run (HomedStep home) (boot [] [fixedOnly]) forkedAndOut s ∧ Conserved home s ∧
      ∀ t, ¬ s.Monitored t → s.held t = 0 := by
  have run : Run LedgerStep (boot [] [fixedOnly]) forkedAndOut _ :=
    .cons ⟨⟨⟨trivial, rfl⟩, .of_ne trivial (by simp), fun _ c w h => (by cases h),
        fun t task h => (by cases h)⟩, fun _ _ _ _ _ heq _ => .inr (by cases heq; decide)⟩ <|
    .cons ⟨⟨⟨trivial, rfl⟩, ⟨rfl, by rintro _ _ ⟨⟩; exact ⟨by decide, rfl⟩⟩,
        fun _ _ _ _ => List.not_mem_nil, trivial⟩, .of_ne (by simp)⟩ <|
    .cons ⟨⟨⟨by decide, rfl⟩, .of_ne trivial (by simp), fun _ c w h => (by cases h), trivial⟩,
        .of_ne (by simp)⟩ <|
    .cons ⟨⟨⟨trivial, rfl⟩, .of_ne ⟨rfl, rfl⟩ (by simp), fun _ _ _ _ => List.not_mem_nil, rfl⟩,
        .of_ne (by simp)⟩ <|
    .cons ⟨⟨⟨trivial, rfl⟩, ⟨rfl, by rintro _ _ ⟨⟩; exact ⟨by decide, rfl⟩⟩,
        fun _ _ _ _ => List.not_mem_nil, trivial⟩, .of_ne (by simp)⟩ <|
    .cons ⟨⟨⟨by decide, rfl⟩, .of_ne trivial (by simp), fun _ c w h => (by cases h), trivial⟩,
        .of_ne (by simp)⟩ <|
    .cons ⟨⟨⟨by decide, rfl⟩, .of_ne trivial (by simp), fun _ c w h => (by cases h), trivial⟩,
        .of_ne (by simp)⟩ <|
    .cons ⟨⟨⟨trivial, rfl⟩, .of_ne rfl (by simp), fun _ _ _ _ => List.not_mem_nil, trivial⟩,
        .of_ne (by simp)⟩ .nil
  exact ⟨_, rfl, rfl, conserved_of_run run (initial_boot ..)⟩

end SchedMon
