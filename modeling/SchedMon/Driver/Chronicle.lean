import SchedMon.Driver.Traffic

/-!
# When records are written

Every record carries the time at which it was completed, and no other record carries the same. So the
records of a buffer come in the order of their times, whatever tasks and CPUs they come from.

## Main definitions

* `State.Dating` — the invariant

## Main results

* `chronological_of_run` — **the records of a buffer are in chronological order**
-/

namespace SchedMon

open State SchedMon.Shelf

/-! ### Runs -/

section Runs

variable {s s' s₀ : State} {t : TaskId} {me : Cpu} {l : Label} {ls : List Label}
  {task task' : SmonTask} {ring : TaskId → List TaskId}

namespace State.Signed

theorem of_aside (h : s.Signed t) (haside : Aside t s s') : s'.Signed t := by
  intro task' htask'
  obtain ⟨task, htask, hagrees⟩ := haside.task_before htask'
  rw [hagrees.sampleSched, hagrees.pid]
  exact h task htask

theorem of_call {es : List TraceEvent} {ws : List Sample} {qs : List Irq} (h : s.Signed t)
    (hcall : Call t me task task' es ws qs s s')
    (hsched : task'.sampleSched.pid = task.sampleSched.pid) : s'.Signed t := by
  intro x hx
  obtain rfl := Option.some_inj.mp (hcall.after.symm.trans hx)
  have hpid : task'.pid = task.pid := congrArg (fun c => c.1.pid) hcall.core
  rw [hsched, hpid]
  exact h task hcall.before

theorem start (h : s.Signed t) (hstart : s.startTimerPmc me t = .ok s') : s'.Signed t := by
  obtain ⟨task, envir, -, -, ⟨-, hcall⟩ | ⟨evset, -, hcall⟩⟩ := call_start hstart
  · exact h.of_call hcall rfl
  · exact h.of_call hcall rfl

theorem tick (h : s.Signed t) (htick : s.smonSchedTimerTick t = .ok s') : s'.Signed t := by
  obtain ⟨task, htask, -⟩ := bind_eq_ok.mp htick
  rw [task_eq_ok] at htask
  cases hflags : task.timerFlags with
  | false => exact h.of_call (call_smonSchedTimerTick_off 0 htask hflags htick).1 rfl
  | true =>
    obtain ⟨envir, evset, tsc, pmc, next, -, -, -, -, -, rfl, ⟨-, hcall⟩ | ⟨evset', -, -, hcall⟩⟩ :=
      call_tick htask hflags htick
    · exact h.of_call hcall rfl
    · exact h.of_call hcall rfl

theorem out (h : s.Signed t) (hout : s.smonSchedTaskOut me t = .ok s') : s'.Signed t := by
  obtain ⟨task, envir, evset, tsc, pmc, -, -, -, -, -, hoff, hon⟩ := call_out hout
  cases hactive : task.timer.active with
  | false => exact h.of_call (hoff hactive) rfl
  | true => exact h.of_call (hon hactive).1 (SmonTask.left_sampleSched_pid ..)

theorem enter (h : s.Signed t) (hin : s.smonSchedTaskIn me t = .ok s') : s'.Signed t := by
  have hentered : ∀ (task : SmonTask) (envir : SmonEnvir) (tsc : ℤ),
      (task.entered envir me tsc).sampleSched.pid = task.sampleSched.pid := by
    intro task envir tsc
    unfold SmonTask.entered
    split
    · rfl
    · rfl
  obtain ⟨task, envir, -, -, ⟨-, hcall, -⟩ | ⟨-, ⟨-, hcall⟩ | ⟨evset, n, -, -, -, hcall⟩⟩⟩ :=
    call_in hin
  · exact h.of_call hcall (hentered ..)
  · exact h.of_call hcall (hentered ..)
  · exact h.of_call hcall (hentered task envir (s.clock s.reads))

theorem departed (h : s.Signed t) (hdeparted : Departed t s s') : s'.Signed t := by
  obtain ⟨task, htask, haside⟩ := hdeparted
  refine of_aside (fun x hx => ?_) haside
  simp only [setTask, Function.update_self, Option.some_inj] at hx
  subst hx
  exact h task htask

/-- The SCHED sample of a task is signed once and for all. -/
theorem step (h : s.Signed t) (hforest : Forest s.book ring) (hstep : s.exec l = .ok s') :
    s'.Signed t := by
  cases exec_turn hforest t hstep with
  | idle hidle haside => exact h.of_aside haside
  | time d => exact h
  | count me ctr inc => exact h
  | @start me s' hstart =>
    have hsame : ({ s with irqs := s.irqs.erase (me, .startTimer t) } : State).Signed t := h
    exact hsame.start hstart
  | @stop me s' hstop =>
    have hsame : ({ s with irqs := s.irqs.erase (me, .stopTimer t) } : State).Signed t := h
    obtain ⟨task, -, hcall, -⟩ := call_stopTimerPmc 0 hstop
    exact hsame.of_call hcall rfl
  | tick htick => exact h.tick htick
  | out hfound hnext hout haside => exact (h.out hout).of_aside haside
  | enter hprev hfound h₁ henvirs hin h₂ hmsr => exact ((h.of_aside h₁).enter hin).of_aside h₂
  | again hfound hnext hout hin h₂ => exact ((h.out hout).enter hin).of_aside h₂
  | exec hfound h₁ henvirs hin h₂ hmsr => exact ((h.of_aside h₁).enter hin).of_aside h₂
  | exit hfound htask hstop hsave hdeparted =>
    obtain ⟨envir, evset, tsc, pmc, -, -, -, -, -, hcall⟩ := call_exit htask hstop hsave
    exact (h.of_call hcall rfl).departed hdeparted
  | leave hnot hfound hdeparted => exact h.departed hdeparted
  | new hcomes hborn =>
    obtain ⟨-, -, pid, e, b, extra, haside⟩ := hborn
    refine of_aside (fun x hx => ?_) haside
    simp only [setTask, Function.update_self, Option.some_inj] at hx
    subst hx
    rfl
  | gone hlt hgone htrace =>
    intro x hx
    exact absurd (hgone.symm.trans hx) (by simp)

end State.Signed

/-- What is kept along a run: the clock is the same, and the records are dated up to now. -/
structure State.Dating (s₀ s : State) : Prop where
  forest : ∃ ring, Forest s.book ring
  named : s.Named
  clock : s.clock = s₀.clock
  reads : s₀.reads ≤ s.reads
  dated : ∀ b, Dated s₀.clock Sample.stamp? s₀.reads s.reads (s.rbs b).log

theorem dating_of_run (run : Run State.Step s₀ ls s) (init : s₀.Initial) : State.Dating s₀ s := by
  refine run.invariant (motive := State.Dating s₀) ⟨⟨_, Initial.forest init⟩, fun t task ht => ?_, rfl,
    Nat.le_refl _, fun b => ?_⟩ ?_
  · rw [init.tasks t] at ht
    cases ht
  · rw [(init.rbs b).2]
    exact .nil ..
  · rintro s l s' ⟨⟨ring, hforest⟩, hnamed, hclock, hreads, hdated⟩ ⟨-, hstep⟩
    obtain ⟨hclock', hreads'⟩ := exec_clock hforest hstep
    refine ⟨hforest.step (exec_book_step hforest hstep),
      fun t => (hnamed t).step hforest hstep, hclock'.trans hclock, Nat.le_trans hreads hreads',
      fun b => ?_⟩
    obtain ⟨ws, hlog, hws, -⟩ := log_of_exec hnamed hreads' hstep b
    rw [hlog]
    rw [hclock] at hws
    exact (hdated b).append hws hreads hreads'

/-- **The records of a buffer are in chronological order**: each carries the time at which it was
completed, and no two carry the same. An event reads the counter and hands its record over in one
step. -/
theorem chronological_of_run (run : Run State.Step s₀ ls s) (init : s₀.Initial)
    (hclock : ∀ i j, i < j → s₀.clock i < s₀.clock j) (b : RbId) :
    ((s.rbs b).log.filterMap Sample.stamp?).Pairwise (· < ·) :=
  ((dating_of_run run init).dated b).pairwise hclock

/-- An environment that asks for every kind of record. -/
def talkative : SmonEnvir :=
  { inheriting with options := ⟨true, false, true, true, true, true, false⟩ }

/-- A process forks, is sampled, makes room for its child, and is moved to another CPU. -/
def talk : List Label :=
  [.register 0 1 talkative 0 ⟨true, true, true⟩, .irq 0 (.startRapl 0), .switch 0 1,
    .irq 0 (.startTimer 0), .fork 1 3 3 0 true true, .time 10000000, .tick 0, .raplTick 0,
    .switch 0 3, .irq 0 (.stopTimer 0), .irq 0 (.startTimer 1), .migrate 1 1, .switch 1 1,
    .irq 1 (.startTimer 0), .exit 1, .exit 3]

theorem chronological_of_run_talk : ∃ s, Run State.Step (boot [] [fixedOnly]) talk s ∧
    (s.rbs 0).log.filterMap Sample.stamp? = [1, 5, 6, 8, 11, 14, 17, 18] ∧
    ((s.rbs 0).log.filterMap Sample.stamp?).Pairwise (· < ·) := by
  have hclock : ∀ i j : ℕ, i < j → (i : ℤ) + 1 < (j : ℤ) + 1 := by omega
  have run : Run State.Step (boot [] [fixedOnly]) talk ((boot [] [fixedOnly]).after talk) :=
    run_after rfl
  have hlog : (((boot [] [fixedOnly]).after talk).rbs 0).log.filterMap Sample.stamp? =
      [1, 5, 6, 8, 11, 14, 17, 18] := by decide
  exact ⟨_, run, hlog, chronological_of_run run (initial_boot ..) hclock 0⟩

end Runs

end SchedMon
