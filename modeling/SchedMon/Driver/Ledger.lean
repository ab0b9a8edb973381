import Mathlib.Algebra.Group.Int.Defs
import SchedMon.Driver.Counts
import SchedMon.Driver.Stream

/-!
# The ledger of a buffer

A PMC record takes the time of its sample with it, and the sample begins again with nothing. So what
the records of a task say, together with what its sample still holds, is the time for which it ran.

Every event writes the PMC records of the tasks it concerns to the buffers of these tasks, and says so
in the history. The PMC records of a buffer can be read off the history.

## Main definitions

* `recordsOf`, `timeOf` — the PMC records that the history says were written, and their time
* `ran` — for how long a task ran, by the history
* `State.Houses` — every task has the buffer it was made for
* `Booked` — what is written to a buffer is in the history

## Main results

* `balance` — what was written and what is still held is what ran
* `pmcs_of_exec` — **the PMC records of a buffer are those that the history has of its tasks**
-/

namespace SchedMon

open State

/-! ### Histories -/

/-- The record that an entry of the history is about, if it is one of the tasks that are asked for. -/
def TraceEvent.savedBy (P : TaskId → Bool) : TraceEvent → Option SamplePmc
  | .save t sample _ => if P t then some sample else none
  | _ => none

/-- The PMC records of some tasks. -/
def recordsOf (P : TaskId → Bool) (es : List TraceEvent) : List SamplePmc :=
  es.filterMap (TraceEvent.savedBy P)

/-- The time of all records together. -/
def timeOf (samples : List SamplePmc) : ℤ :=
  samples.foldr (fun sample time => sample.duration + time) 0

/-- What an entry would add to the account, if records did not take anything out of it. -/
def Account.keep (t : TaskId) (a : Account) : TraceEvent → Account
  | .save _ _ _ => a
  | e => a.step t e

/-- The account of task `t`, with nothing taken out of it. -/
def lifetime (t : TaskId) (es : List TraceEvent) : Account := es.foldl (Account.keep t) .zero

/-- For how long task `t` ran, in all the slices that have ended. -/
def ran (t : TaskId) (es : List TraceEvent) : ℤ := (lifetime t es).duration

/-- The time of a record is that of the account. -/
def Measured (a : Account) : TraceEvent → Prop
  | .save _ sample _ => sample.duration = a.duration
  | _ => True

section Histories

variable {t : TaskId} {P : TaskId → Bool} {es es' : List TraceEvent} {e : TraceEvent}
  {samples samples' : List SamplePmc}

theorem recordsOf_append : recordsOf P (es ++ es') = recordsOf P es ++ recordsOf P es' :=
  List.filterMap_append

theorem timeOf_append : timeOf (samples ++ samples') = timeOf samples + timeOf samples' := by
  induction samples with
  | nil => exact (Int.zero_add _).symm
  | cons sample samples ih =>
    change sample.duration + timeOf (samples ++ samples') =
      sample.duration + timeOf samples + timeOf samples'
    rw [ih, add_assoc]

theorem lifetime_concat (t : TaskId) (es : List TraceEvent) (e : TraceEvent) :
    lifetime t (es ++ [e]) = (lifetime t es).keep t e := List.foldl_append

/-- An account with and without the records: the open slice is the same, and the durations differ by
`d`. -/
theorem Account.keep_step {a b : Account} {d : ℤ} (hsince : b.since = a.since)
    (hduration : d + a.duration = b.duration) (he : ∀ u sample envir, e ≠ .save u sample envir) :
    (b.keep t e).since = (a.step t e).since ∧ d + (a.step t e).duration = (b.keep t e).duration := by
  cases e with
  | save u sample envir => exact absurd rfl (he u sample envir)
  | start u me tsc =>
    simp only [Account.keep, Account.step]
    split
    · exact ⟨rfl, hduration⟩
    · exact ⟨hsince, hduration⟩
  | stop u me tsc =>
    have helapsed : b.elapsed tsc = a.elapsed tsc := by simp only [Account.elapsed, hsince]
    simp only [Account.keep, Account.step, helapsed]
    split
    · refine ⟨rfl, ?_⟩
      dsimp only
      rw [← hduration, add_assoc]
    · exact ⟨hsince, hduration⟩
  | count me ctr inc =>
    simp only [Account.keep, Account.step, hsince]
    split
    · exact ⟨rfl, hduration⟩
    · exact ⟨hsince, hduration⟩
  | _ => exact ⟨hsince, hduration⟩

/-- What was written and what is still held is what ran. -/
theorem balance (h : Each (Asked t Measured) es) :
    timeOf (recordsOf (· = t) es) + (account t es).duration = ran t es := by
  suffices hboth : (lifetime t es).since = (account t es).since ∧
      timeOf (recordsOf (· = t) es) + (account t es).duration = ran t es from hboth.2
  induction es using List.reverseRecOn with
  | nil => exact ⟨rfl, rfl⟩
  | append_singleton es e ih =>
    obtain ⟨hbefore, hlast⟩ := each_concat.mp h
    obtain ⟨hsince, hduration⟩ := ih hbefore
    rw [ran, lifetime_concat, account_concat, recordsOf_append, timeOf_append]
    by_cases hsave : ∃ u sample envir, e = .save u sample envir
    · obtain ⟨u, sample, envir, rfl⟩ := hsave
      by_cases hu : u = t
      · subst hu
        -- the record says what the account has, and takes it out
        have htime : sample.duration = (account u es).duration := hlast rfl
        have hstep : (account u es).step u (.save u sample envir) =
            { Account.zero with since := (account u es).since } := if_pos rfl
        have hrecord : recordsOf (· = u) [.save u sample envir] = [sample] := by
          simp [recordsOf, TraceEvent.savedBy]
        rw [hstep, hrecord]
        refine ⟨hsince, ?_⟩
        change timeOf (recordsOf (· = u) es) + (sample.duration + 0) + 0 = (lifetime u es).duration
        rw [htime, add_zero, add_zero]
        exact hduration
      · have hstep : (account t es).step t (.save u sample envir) = account t es := if_neg hu
        have hrecord : recordsOf (· = t) [.save u sample envir] = [] := by
          simp [recordsOf, TraceEvent.savedBy, hu]
        rw [hstep, hrecord]
        refine ⟨hsince, ?_⟩
        change _ + 0 + _ = (lifetime t es).duration
        rw [add_zero]
        exact hduration
    · have hne : ∀ u sample envir, e ≠ .save u sample envir := fun u sample envir heq =>
        hsave ⟨u, sample, envir, heq⟩
      have hrecord : recordsOf (· = t) [e] = [] := by
        cases e with
        | save u sample envir => exact absurd rfl (hne u sample envir)
        | _ => rfl
      rw [hrecord]
      change _ ∧ _ + 0 + _ = _
      rw [add_zero]
      exact Account.keep_step hsince hduration hne

end Histories

/-! ### Buffers -/

/-- The PMC sample in a record. -/
def Sample.pmc? : Sample → Option SamplePmc
  | pmc sample => some sample
  | _ => none

/-- The PMC records in a buffer. -/
def Rb.pmcs (rb : Rb) : List SamplePmc := rb.log.filterMap Sample.pmc?

/-- Every task has the buffer it was made for, as long as it has one. -/
def State.Houses (home : TaskId → RbId) (s : State) : Prop :=
  ∀ t task b, s.tasks t = some task → task.rb = some b → home t = b

/-- The tasks that were made for buffer `b`. -/
abbrev tenants (home : TaskId → RbId) (b : RbId) (t : TaskId) : Bool := home t = b

/-- The PMC records that were written to buffer `b` are those in the history, for its tasks. -/
def Booked (home : TaskId → RbId) (b : RbId) (s s' : State) : Prop :=
  ∃ es, s'.trace = s.trace ++ es ∧ (s'.rbs b).pmcs = (s.rbs b).pmcs ++ recordsOf (tenants home b) es

section Buffers

variable {home : TaskId → RbId} {s s' s₁ : State} {t : TaskId} {b : RbId} {me : Cpu}
  {task task' : SmonTask} {es : List TraceEvent} {ws : List Sample} {qs : List Irq} {l : Label}
  {ring : TaskId → List TaskId} {p : Proc}

theorem recordsOf_eq_nil {P : TaskId → Bool} (h : ∀ e ∈ es, ∀ u sample envir, e ≠ .save u sample envir) :
    recordsOf P es = [] := by
  refine List.filterMap_eq_nil_iff.mpr fun e he => ?_
  cases e with
  | save u sample envir => exact absurd rfl (h _ he u sample envir)
  | _ => rfl

/-- The history of one task, for those who are asked for. -/
theorem recordsOf_of_task {P : TaskId → Bool} (h : ∀ e ∈ es, e.task? = some t) :
    recordsOf P es = if P t then recordsOf (· = t) es else [] := by
  induction es with
  | nil => simp [recordsOf]
  | cons e es ih =>
    have hrest := ih fun x hx => h x (List.mem_cons_of_mem _ hx)
    have he := h e List.mem_cons_self
    cases e with
    | save u sample envir =>
      obtain rfl := Option.some_inj.mp he
      unfold recordsOf at hrest ⊢
      cases hu : P u with
      | false => simpa [List.filterMap_cons, TraceEvent.savedBy, hu] using hrest
      | true => simpa [List.filterMap_cons, TraceEvent.savedBy, hu] using hrest
    | _ => exact hrest

theorem Rb.pmcs_append {rb rb' : Rb} (h : rb'.log = rb.log ++ ws) :
    rb'.pmcs = rb.pmcs ++ ws.filterMap Sample.pmc? := by
  rw [Rb.pmcs, h, List.filterMap_append]
  rfl

namespace Booked

theorem of_same (htrace : s'.trace = s.trace) (hrb : (s'.rbs b).pmcs = (s.rbs b).pmcs) :
    Booked home b s s' := ⟨[], htrace.trans (List.append_nil _).symm, hrb.trans (List.append_nil _).symm⟩

theorem trans (h : Booked home b s s₁) (h' : Booked home b s₁ s') : Booked home b s s' := by
  obtain ⟨es, hes, hpmcs⟩ := h
  obtain ⟨es', hes', hpmcs'⟩ := h'
  refine ⟨es ++ es', by rw [hes', hes, List.append_assoc], ?_⟩
  rw [hpmcs', hpmcs, recordsOf_append, List.append_assoc]

/-- What a call writes, it says in the history. -/
theorem of_call (h : Call t me task task' es ws qs s s') (hrb : task.rb = some (home t))
    (hes : ∀ e ∈ es, e.task? = some t)
    (hws : ws.filterMap Sample.pmc? = recordsOf (· = t) es) : Booked home b s s' := by
  refine ⟨es, h.trace, ?_⟩
  rw [Rb.pmcs_append (h.log b), hrb, recordsOf_of_task hes, ← hws]
  simp only [Option.some_inj, decide_eq_true_eq]
  split
  · rfl
  · rfl

/-- A call that writes nothing. -/
theorem of_silent (h : Call t me task task' es [] qs s s')
    (hes : ∀ e ∈ es, ∀ u sample envir, e ≠ .save u sample envir) : Booked home b s s' := by
  refine ⟨es, h.trace, ?_⟩
  rw [Rb.pmcs_append (h.log b), recordsOf_eq_nil hes, ite_self]
  rfl

end Booked

/-! ### Events -/

theorem booked_smonSchedTaskIn (h : s.smonSchedTaskIn me t = .ok s') (b : RbId) :
    Booked home b s s' := by
  obtain ⟨task, envir, -, -, ⟨-, hcall, -⟩ | ⟨-, ⟨-, hcall⟩ | ⟨evset, n, -, -, -, hcall⟩⟩⟩ :=
    call_in h
  · exact .of_silent hcall (by simp)
  · exact .of_silent hcall (by simp)
  · exact .of_silent hcall (by simp)

/-- A task that has a process has its buffer. -/
theorem State.Houses.rb (h : s.Houses home) (hforest : Forest s.book ring)
    (htask : s.tasks t = some task) (hp : task.p = some p) : task.rb = some (home t) := by
  have hsome := (hforest.buffer t task.core (entry_of_tasks htask)).1.mpr
    (Option.isSome_iff_exists.mpr ⟨p, hp⟩)
  obtain ⟨c, hc⟩ := Option.isSome_iff_exists.mp hsome
  rw [h t task c htask hc]
  exact hc

theorem SmonTask.pmc_dueRecords (task : SmonTask) (t : TaskId) (envir : SmonEnvir) (now tsc : ℤ) :
    (task.dueRecords envir now tsc).filterMap Sample.pmc? =
      recordsOf (· = t) (task.leftEvents t envir now tsc) := by
  unfold SmonTask.dueRecords SmonTask.leftEvents recordsOf
  cases task.expired now <;> cases envir.options.sched <;>
    simp [List.filterMap_cons, Sample.pmc?, TraceEvent.savedBy]

theorem booked_switch {next : Proc} (houses : s.Houses home) (hforest : Forest s.book ring)
    (h : s.exec (.switch me next) = .ok s') (b : RbId) : Booked home b s s' := by
  obtain ⟨s₂, hswitch, hs⟩ := bind_eq_ok.mp h
  cases hs
  obtain ⟨mid, hout, hin⟩ := switch_cases hswitch
  have hfirst : Booked home b s mid := by
    rcases hout with ⟨-, rfl⟩ | ⟨t, hfound, hout⟩
    · exact .of_same rfl rfl
    obtain ⟨-, x, hx, hp⟩ := findProc_some hfound
    obtain ⟨task, envir, evset, tsc, pmc, htask, -, -, -, -, hoff, hon⟩ := call_out hout
    obtain rfl := Option.some_inj.mp (hx.symm.trans htask)
    cases hactive : x.timer.active with
    | false => exact .of_silent (hoff hactive) (by simp)
    | true =>
      refine .of_call (hon hactive).1 (houses.rb hforest hx hp) (fun e he => ?_) ?_
      · rcases List.mem_cons.mp he with rfl | he
        · rfl
        · rcases SmonTask.mem_leftEvents he with rfl | rfl
          · rfl
          · rfl
      · exact SmonTask.pmc_dueRecords ..
  have hlast : Booked home b mid s₂ := by
    rcases hin with ⟨-, rfl⟩ | ⟨t, -, hin⟩
    · exact .of_same rfl rfl
    · exact booked_smonSchedTaskIn hin b
  exact (hfirst.trans hlast).trans (.of_same rfl rfl)

theorem booked_tick (houses : s.Houses home) (hforest : Forest s.book ring)
    (hsteered : ∀ task, s.tasks t = some task → Steered t s) (hstep : s.Step (.tick t) s') (b : RbId) :
    Booked home b s s' := by
  obtain ⟨henabled, hexec⟩ := hstep
  have htick : s.smonSchedTimerTick t = .ok s' := hexec
  obtain ⟨task, htask, -⟩ := bind_eq_ok.mp htick
  rw [task_eq_ok] at htask
  have hactive : task.timer.active = true := by
    have hdue : (s.tasks t).any (fun task => task.timer.due s.now) = true := henabled
    simp only [htask, Option.any_some, Hrtimer.due, Bool.and_eq_true] at hdue
    exact hdue.1
  cases hflags : task.timerFlags with
  | false => exact .of_silent (call_smonSchedTimerTick_off 0 htask hflags htick).1 (by simp)
  | true =>
    obtain ⟨⟨x, p, hx, hp, -⟩, -⟩ := (hsteered task htask).armed task htask hactive hflags
    obtain rfl := Option.some_inj.mp (hx.symm.trans htask)
    have hrb := houses.rb hforest htask hp
    obtain ⟨envir, evset, tsc, pmc, next, -, -, -, -, -, -, ⟨-, hcall⟩ | ⟨evset', -, -, hcall⟩⟩ :=
      call_tick htask hflags htick
    · exact .of_call hcall hrb (by simp [TraceEvent.task?])
        (by simp [recordsOf, List.filterMap_cons, TraceEvent.savedBy, Sample.pmc?])
    · exact .of_call hcall hrb (by simp [TraceEvent.task?])
        (by simp [recordsOf, List.filterMap_cons, TraceEvent.savedBy, Sample.pmc?])

/-- A record of another kind is written. -/
theorem booked_smonRbWrite {w : Sample} (hw : w.pmc? = none) (c b : RbId) :
    Booked home b s (s.smonRbWrite c w) := by
  refine .of_same rfl ?_
  rw [Rb.pmcs_append (log_smonRbWrite c w b)]
  split
  · rw [List.filterMap_cons_none hw]
    exact List.append_nil _
  · exact List.append_nil _

theorem trace_smonReleaseRb (c : RbId) : (s.smonReleaseRb c).trace = s.trace := by
  unfold smonReleaseRb
  dsimp only
  split
  · rfl
  · rfl

/-- The last sample of a task is in its buffer, and then the process goes. -/
theorem booked_exit (houses : s.Houses home) (hforest : Forest s.book ring)
    (h : s.exec (.exit p) = .ok s') (b : RbId) : Booked home b s s' := by
  have hleave : ∀ {t : TaskId} {x y : State}, x.leave t = .ok y → Booked home b x y := by
    intro t x y h
    obtain ⟨task, c, -, -, -, hlog⟩ := log_leave h
    obtain ⟨task', c', -, -, rfl⟩ := leave_eq_ok.mp h
    refine .of_same (trace_smonReleaseRb c') ?_
    rw [Rb.pmcs_append (hlog b)]
    split
    · exact List.append_nil _
    · exact List.append_nil _
  rcases exit_cases h with ⟨-, -, rfl⟩ | ⟨t, s₁, s₂, hexit⟩ | ⟨t, hexit⟩
  · exact .of_same rfl rfl
  · obtain ⟨-, x, hx, hp⟩ := findProc_some hexit.found
    obtain ⟨task, s₀, htask, hstop, hsave⟩ := hexit.sample
    obtain rfl := Option.some_inj.mp (hx.symm.trans htask)
    obtain ⟨envir, evset, tsc, pmc, -, -, -, -, -, hcall⟩ := call_exit htask hstop hsave
    have hsample : Booked home b s s₁ := .of_call hcall (houses.rb hforest htask hp)
      (by simp [TraceEvent.task?])
      (by simp [recordsOf, List.filterMap_cons, TraceEvent.savedBy, Sample.pmc?])
    have hdel : Booked home b s₁ (s₁.delCpuList (s.kernel.cpu p) t) := .of_same rfl rfl
    refine ((hsample.trans hdel).trans (hleave hexit.leave)).trans ?_
    obtain ⟨_, -, hcancel⟩ := hexit.cancel
    rcases when_eq_ok.mp hcancel with ⟨-, rfl⟩ | ⟨-, hcancel⟩
    · exact .of_same rfl rfl
    · obtain ⟨extra, -, hset⟩ := bind_eq_ok.mp hcancel
      obtain ⟨-, -, rfl⟩ := setExtra_eq_ok.mp hset
      exact .of_same rfl rfl
  · have hdel : Booked home b s (s.delWaitList t) := .of_same rfl rfl
    exact hdel.trans (hleave hexit.leave)

theorem booked_fork {parent child : Proc} {pid : Pid} {cpu : Cpu} {leader alloc : Bool}
    (h : s.exec (.fork parent child pid cpu leader alloc) = .ok s') (b : RbId) :
    Booked home b s s' := by
  simp only [State.exec, smonSchedProcessFork, bind_eq_ok, whenFound_eq_ok] at h
  obtain ⟨found, hfound, ⟨rfl, rfl⟩ | ⟨t, rfl, task, htask, envir, henvir, s₁, hinherit, h⟩⟩ := h
  · exact .of_same rfl rfl
  have hchild : Booked home b s s₁ := by
    rcases when_eq_ok.mp hinherit with ⟨-, rfl⟩ | ⟨-, hregister⟩
    · exact .of_same rfl rfl
    rcases registerChild_cases hregister with ⟨-, rfl⟩ | ⟨-, hchild⟩
    · exact .of_same rfl rfl
    · have hlog := log_childAdded hchild b
      obtain ⟨task', c, envir', s₂, task₂, -, -, -, hadd, -, rfl⟩ := hchild.add
      simp only [addChild, bind_eq_ok, pure_eq_ok] at hadd
      obtain ⟨next, -, -, -, rfl⟩ := hadd
      refine ⟨[.child t s.fresh], rfl, ?_⟩
      rw [Rb.pmcs, hlog]
      exact (List.append_nil _).symm
  refine hchild.trans ?_
  split at h
  · rw [← pure_eq_ok.mp h]
    cases hrb : task.rb with
    | none => exact .of_same rfl rfl
    | some c => exact booked_smonRbWrite (s := s₁.msrRdtsc.2) rfl c b
  · rw [← pure_eq_ok.mp h]
    exact .of_same rfl rfl

theorem booked_raplTick (h : s.exec (.raplTick t) = .ok s') (b : RbId) : Booked home b s s' := by
  obtain ⟨extra, -, hrest⟩ := bind_eq_ok.mp h
  dsimp only at hrest
  split at hrest
  · obtain ⟨-, -, rfl⟩ := setExtra_eq_ok.mp hrest
    exact booked_smonRbWrite (s := (s.smonSampleRaplStop extra.raplTimer.cpu extra.raplSample).2)
      (w := .rapl (s.smonSampleRaplStop extra.raplTimer.cpu extra.raplSample).1) rfl extra.rb b
  · obtain ⟨-, -, rfl⟩ := setExtra_eq_ok.mp hrest
    exact .of_same rfl rfl

theorem booked_migrate {dest : Cpu} (h : s.exec (.migrate p dest) = .ok s') (b : RbId) :
    Booked home b s s' := by
  obtain ⟨s₁, hmigrate, hs⟩ := bind_eq_ok.mp h
  cases hs
  simp only [smonSchedMigrateTask, bind_eq_ok, whenFound_eq_ok] at hmigrate
  obtain ⟨found, -, ⟨rfl, rfl⟩ | ⟨t, rfl, hmigrate⟩⟩ := hmigrate
  · exact .of_same rfl rfl
  simp only [pure_eq_ok, task_eq_ok, envir_eq_ok] at hmigrate
  obtain ⟨task, htask, envir, -, rfl⟩ := hmigrate
  cases hcpu : envir.options.cpu with
  | false => exact .of_same rfl rfl
  | true =>
    cases hrb : task.rb with
    | none => exact .of_same rfl rfl
    | some c =>
      exact booked_smonRbWrite (s := (s.delCpuList (s.kernel.cpu p) t).msrRdtsc.2)
        (w := .cpu ⟨s.clock s.reads, task.pid, s.kernel.cpu p, dest⟩) rfl c b

theorem trace_startExtra (h : s.startExtra me t = .ok s') : s'.trace = s.trace := by
  simp only [startExtra, bind_eq_ok, when_eq_ok] at h
  obtain ⟨-, -, ⟨-, rfl⟩ | ⟨-, h⟩⟩ := h
  · rfl
  simp only [smonTaskExtraStart, bind_eq_ok] at h
  obtain ⟨-, -, extra, -, envir, -, s₁, hset, h⟩ := h
  obtain ⟨_, -, rfl⟩ := setExtra_eq_ok.mp hset
  split at h
  · rw [← pure_eq_ok.mp h]
    unfold irqWorkQueue
    split
    · rfl
    · rfl
  · rw [← pure_eq_ok.mp h]
    rfl

theorem booked_startExtra (h : s.startExtra me t = .ok s') (b : RbId) : Booked home b s s' := by
  obtain ⟨ws, hws, hK⟩ := (startExtra_cases h).quiet.log b
  refine .of_same (trace_startExtra h) ?_
  have hnone : ws.filterMap Sample.pmc? = [] := by
    refine List.filterMap_eq_nil_iff.mpr fun w hw => ?_
    cases w with
    | pmc sample => cases hK _ hw
    | _ => rfl
  rw [Rb.pmcs_append hws, hnone, List.append_nil]

theorem booked_exec (h : s.exec (.exec p) = .ok s') (b : RbId) : Booked home b s s' := by
  rcases exec_cases h with ⟨-, rfl⟩ | ⟨t, s₁, s₂, hfound, hextra, hin, rfl⟩
  · exact .of_same rfl rfl
  have hdel : Booked home b s (s.delWaitList t) := .of_same rfl rfl
  exact ((hdel.trans (booked_startExtra hextra b)).trans (booked_smonSchedTaskIn hin b)).trans
    (.of_same rfl rfl)

theorem booked_register {pid : Pid} {envir : SmonEnvir} {c : RbId} {alloc : Alloc}
    (h : s.exec (.register me pid envir c alloc) = .ok s') (b : RbId) : Booked home b s s' := by
  obtain ⟨⟨ret, s₁⟩, hregister, hs⟩ := bind_eq_ok.mp h
  cases hs
  rcases register_cases hregister with ⟨-, -, rfl⟩ | ⟨-, -, s₀, rfl, hwait, hstart⟩
  · exact .of_same rfl rfl
  have hroot : Booked home b s { s.newRoot pid envir c with
      taskList := s.fresh :: (s.newRoot pid envir c).taskList } := by
    refine .of_same ?_ (congrArg (List.filterMap Sample.pmc?) (log_newRoot pid envir c b))
    change ((s.smonGetRb c).setBatch c envir.batchSize).trace = s.trace
    unfold setBatch
    split
    · rfl
    · rfl
  cases hexec : envir.options.onExec with
  | true =>
    rw [hwait hexec]
    exact hroot.trans (.of_same rfl rfl)
  | false =>
    obtain ⟨s₂, hextra, rfl⟩ := hstart hexec
    exact (hroot.trans (booked_startExtra hextra b)).trans (.of_same rfl rfl)

theorem booked_unregister {pid : Pid} (hforest : Forest s.book ring)
    (hallows : s.Allows (.unregister pid)) (h : s.exec (.unregister pid) = .ok s') (b : RbId) :
    Booked home b s s' := by
  have hpmcs : (s'.rbs b).pmcs = (s.rbs b).pmcs := by
    rw [log_unregister hforest hallows h]
  obtain ⟨⟨ret, s₁⟩, hunregister, hs⟩ := bind_eq_ok.mp h
  cases hs
  simp only [smonSchedUnregisterTask, bind_eq_ok] at hunregister
  obtain ⟨found, hfound, hunregister⟩ := hunregister
  cases found with
  | none =>
    cases hunregister
    exact .of_same rfl rfl
  | some r =>
    obtain ⟨hr, -⟩ := findTask_some hfound
    obtain ⟨s₂, hs₂, hun⟩ := hforest.unregister hr
    simp only [hs₂, bind, Except.bind, pure, Except.pure, Except.ok.injEq, Prod.mk.injEq]
      at hunregister
    obtain ⟨-, rfl⟩ := hunregister
    refine ⟨_, hun.trace.trans (List.append_assoc ..), ?_⟩
    rw [hpmcs, recordsOf_eq_nil, List.append_nil]
    simp only [List.mem_append, List.mem_map, List.mem_cons, List.not_mem_nil, or_false]
    rintro e (⟨u, -, rfl⟩ | rfl | rfl) <;> simp

theorem booked_irq {w : Irq} (h : s.exec (.irq me w) = .ok s') (b : RbId) : Booked home b s s' := by
  have hfirst : Booked home b s { s with irqs := s.irqs.erase (me, w) } := .of_same rfl rfl
  cases w with
  | startTimer t =>
    obtain ⟨task, envir, -, -, ⟨-, hcall⟩ | ⟨evset, -, hcall⟩⟩ := call_start h
    · exact hfirst.trans (.of_silent hcall (by simp))
    · exact hfirst.trans (.of_silent hcall (by simp))
  | stopTimer t =>
    obtain ⟨task, -, hcall, -⟩ := call_stopTimerPmc 0 h
    exact hfirst.trans (.of_silent hcall (by simp))
  | startRapl t =>
    obtain ⟨extra, -, hset⟩ := bind_eq_ok.mp h
    obtain ⟨-, -, rfl⟩ := setExtra_eq_ok.mp hset
    exact .of_same rfl rfl

/-- **The PMC records of a buffer are those that the history has of its tasks.** -/
theorem pmcs_of_exec (houses : s.Houses home) (hforest : Forest s.book ring)
    (hsteered : ∀ t task, s.tasks t = some task → Steered t s) (hstep : OrderlyStep s l s') (b : RbId) :
    Booked home b s s' := by
  obtain ⟨⟨henabled, h⟩, -, -, hallows⟩ := hstep
  cases l with
  | time d =>
    cases h
    exact .of_same rfl rfl
  | count me ctr inc =>
    cases h
    refine ⟨[.count me ctr inc], rfl, ?_⟩
    exact (List.append_nil _).symm
  | irq me w => exact booked_irq h b
  | tick t => exact booked_tick houses hforest (hsteered t) ⟨henabled, h⟩ b
  | raplTick t => exact booked_raplTick h b
  | switch me next => exact booked_switch houses hforest h b
  | migrate p dest => exact booked_migrate h b
  | fork parent child pid cpu leader alloc => exact booked_fork h b
  | exec p => exact booked_exec h b
  | exit p => exact booked_exit houses hforest h b
  | reap p =>
    cases h
    exact .of_same rfl rfl
  | register me pid envir c alloc => exact booked_register h b
  | unregister pid => exact booked_unregister hforest hallows h b

end Buffers

end SchedMon
