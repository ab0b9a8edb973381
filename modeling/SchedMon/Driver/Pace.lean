import SchedMon.Driver.Counts
import SchedMon.Driver.Intervals
import SchedMon.Driver.Period
import SchedMon.Lib.Rounds

/-!
# At a steady pace

A task is sampled whenever it has run for the sample time, whatever slices that time comes in. What is
left of it when the process is switched out is kept in `kt_remain`, and the timer of the next slice is
started with it. If nothing is left the sample is taken there and then, and the timer, which is due as
well, finds itself switched off.

The timer is ideal here: time does not pass it by, nor an interrupt that is pending.

## Main definitions

* `Progress` — for how long a task has run, and when its records were written
* `SmonTask.Paced` — what a task has yet to run is on its timer or in `kt_remain`

## Main results

* `SmonTask.Paced.step` — **a round goes on, or is over, or the process has exited**
-/

namespace SchedMon

open State SchedMon.Shelf

/-! ### Progress -/

/-- The time for which a task has run, and the event set of each of its records with the time at which
it was written. -/
structure Progress where
  time : ℤ
  records : List (ℕ × ℤ)

/-- The event set of an entry, if it is a PMC record of task `t`. -/
def TraceEvent.saved? (t : TaskId) : TraceEvent → Option ℕ
  | save u sample _ => if u = t then some sample.evset else none
  | _ => none

/-- How much time passes. -/
def Label.passes : Label → ℕ
  | time d => d
  | _ => 0

/-- What an event means for the progress of a task. -/
def Progress.write (t : TaskId) (s : State) (l : Label) (s' : State) (g : Progress) : Progress where
  time := g.time + if (s.runsOn? t).isSome then l.passes else 0
  records := g.records ++
    ((s'.trace.drop s.trace.length).filterMap (TraceEvent.saved? t)).map fun i => (i, g.time)

/-- Nothing has happened. -/
def Progress.zero : Progress := ⟨0, []⟩

/-- Time passes neither the expiry of the timer of task `t`, nor an interrupt that is pending. -/
def State.Ideal (s : State) (t : TaskId) (l : Label) : Prop :=
  ∀ d, l = .time d → s.irqs = [] ∧ ∀ task, s.tasks t = some task → task.timer.active = true →
    s.now + d ≤ task.timer.expires

/-- A step of a punctual run with an ideal timer, with the progress of the task. -/
def PacedStep (t : TaskId) (x : State × Progress) (l : Label) (y : State × Progress) : Prop :=
  Beside (PunctualStep t) (Progress.write t) x l y ∧ x.1.Ideal t l

/-- The sample time of an environment, in nanoseconds. -/
def SmonEnvir.round (envir : SmonEnvir) : ℤ := envir.sampleTime.toNat * 1000000

/-- The process has exited: what was left has got a record, unless it was never monitored. -/
def Ended (S : ℤ) (n : ℕ) (g : Progress) : Prop :=
  (∃ k : ℕ, k * S ≤ g.time ∧ g.time ≤ (k + 1) * S ∧ g.records = rounds S n k ++ [(k % n, g.time)]) ∨
    g.records = [] ∧ g.time = 0

/-! ### The round that has begun -/

/-- The timer is active, and not switched off. -/
def SmonTask.On (task : SmonTask) : Prop := task.timer.active = true ∧ task.timerFlags = true

/-- A task is in round `k`: what it has yet to run is on its timer or in `kt_remain`. -/
structure SmonTask.Paced (task : SmonTask) (S : ℤ) (n : ℕ) (now : ℤ) (g : Progress) (k : ℕ) : Prop where
  records : g.records = rounds S n k
  evset : task.evset = k % n
  begun : k * S ≤ g.time
  on : task.On → now ≤ task.timer.expires ∧ g.time + (task.timer.expires - now) = (k + 1) * S
  off : ¬ task.On → if task.ktRemain ≤ 0 then g.time = k * S
    else g.time + task.ktRemain = (k + 1) * S

section Rounds

variable {s s' : State} {t : TaskId} {l : Label} {task task' : SmonTask} {es : List TraceEvent}
  {g : Progress} {S now : ℤ} {n k : ℕ} {ring : TaskId → List TaskId}

@[simp] theorem saved?_save {sample : SamplePmc} {envir : SmonEnvir} :
    TraceEvent.saved? t (.save t sample envir) = some sample.evset := if_pos rfl

@[simp] theorem saved?_stop {u : TaskId} {me : Cpu} {tsc : ℤ} :
    TraceEvent.saved? t (.stop u me tsc) = none := rfl

@[simp] theorem saved?_sched {u : TaskId} {sample : SampleSched} :
    TraceEvent.saved? t (.sched u sample) = none := rfl

/-- What is written when a sample is taken. -/
theorem saved?_taken {envir : SmonEnvir} {me : Cpu} {tsc : ℤ} {pmc : SmonPmc} :
    (.stop t me tsc :: .save t (task.stopped tsc pmc).record envir :: es).filterMap
      (TraceEvent.saved? t) = task.evset :: es.filterMap (TraceEvent.saved? t) := by
  rw [List.filterMap_cons_none saved?_stop, List.filterMap_cons_some saved?_save]
  rfl

/-- What is written when a task is switched out with its timer active. -/
theorem saved?_left {envir : SmonEnvir} {tsc : ℤ} :
    (task.leftEvents t envir now tsc).filterMap (TraceEvent.saved? t) =
      if task.expired now then [task.evset] else [] := by
  rw [SmonTask.leftEvents, List.filterMap_append]
  split
  · split
    · simp [SmonTask.record]
    · simp [SmonTask.record]
  · split
    · simp
    · simp

theorem SmonTask.Paced.le (h : task.Paced S n now g k) (hS : 0 < S) : g.time ≤ (k + 1) * S := by
  by_cases hon : task.On
  · obtain ⟨hle, heq⟩ := h.on hon
    omega
  · have hoff := h.off hon
    rw [add_mul, one_mul] at hoff ⊢
    split at hoff
    · omega
    · omega

theorem Progress.write_records (htrace : s'.trace = s.trace ++ es) :
    (g.write t s l s').records = g.records ++
      (es.filterMap (TraceEvent.saved? t)).map fun i => (i, g.time) := by
  rw [Progress.write, htrace, List.drop_left]

theorem Progress.write_time (s' : State) (g : Progress) (htime : l.passes = 0 ∨ ∀ c, ¬ s.RunsOn t c) :
    (g.write t s l s').time = g.time := by
  rcases htime with htime | htime
  · simp [Progress.write, htime]
  · simp [Progress.write, runsOn?_eq_none.mpr htime]

/-- An event that writes no record of the task, and lets it run for no time. -/
theorem Progress.write_same (htrace : s'.trace = s.trace ++ es)
    (hnone : es.filterMap (TraceEvent.saved? t) = []) (htime : l.passes = 0 ∨ ∀ c, ¬ s.RunsOn t c) :
    g.write t s l s' = g := by
  have hrecords := Progress.write_records (t := t) (l := l) (g := g) htrace
  rw [hnone, List.map_nil, List.append_nil] at hrecords
  have htime' := Progress.write_time s' g htime
  generalize g.write t s l s' = g' at hrecords htime'
  cases g
  cases g'
  simp_all

theorem saved?_of_foreign (h : ∀ e ∈ es, e.task? ≠ some t) : es.filterMap (TraceEvent.saved? t) = [] := by
  rw [List.filterMap_eq_nil_iff]
  intro e he
  have hne := h e he
  cases e with
  | save u sample envir =>
    refine if_neg ?_
    rintro rfl
    exact hne rfl
  | _ => rfl

/-! ### What the functions do to a round -/

variable {envir : SmonEnvir} {me : Cpu} {tsc : ℤ} {pmc : SmonPmc}

/-- A task whose timer, if it is on, stays as it is. -/
theorem SmonTask.Paced.of_same (h : task.Paced S n now g k) (hevset : task'.evset = task.evset)
    (hremain : task'.ktRemain = task.ktRemain)
    (htimer : (task'.timer = task.timer ∧ task'.timerFlags = task.timerFlags) ∨
      ¬ task.On ∧ ¬ task'.On) : task'.Paced S n now g k := by
  refine ⟨h.records, hevset.trans h.evset, h.begun, fun hon => ?_, fun hoff => ?_⟩
  · rcases htimer with ⟨htimer, hflags⟩ | ⟨-, hnot⟩
    · rw [SmonTask.On, htimer, hflags] at hon
      rw [htimer]
      exact h.on hon
    · exact absurd hon hnot
  · rw [hremain]
    refine h.off fun hon => ?_
    rcases htimer with ⟨htimer, hflags⟩ | ⟨hnot, -⟩
    · rw [SmonTask.On, htimer, hflags] at hoff
      exact hoff hon
    · exact hnot hon

/-- Time passes while the timer is on. -/
theorem SmonTask.Paced.pass {d : ℕ} (h : task.Paced S n now g k) (hon : task.On)
    (hle : now + d ≤ task.timer.expires) : task.Paced S n (now + d) { g with time := g.time + d } k := by
  obtain ⟨-, heq⟩ := h.on hon
  refine ⟨h.records, h.evset, ?_, fun _ => ⟨hle, ?_⟩, fun hoff => absurd hon hoff⟩
  · have hbegun := h.begun
    change k * S ≤ g.time + d
    omega
  · change g.time + d + (task.timer.expires - (now + d)) = (k + 1) * S
    omega

/-- Time passes while it is not. -/
theorem SmonTask.Paced.wait {now' : ℤ} (h : task.Paced S n now g k) (hoff : ¬ task.On) :
    task.Paced S n now' g k :=
  ⟨h.records, h.evset, h.begun, fun hon => absurd hon hoff, h.off⟩

/-- The timer of a slice starts with what is left of the round. -/
theorem SmonTask.Paced.armed (h : task.Paced S n now g k) (me : Cpu) (hoff : ¬ task.On) (hS : 0 < S)
    (hround : msToNs envir.sampleTime = S) : (task.armed envir me now).Paced S n now g k := by
  refine ⟨h.records, h.evset, h.begun, fun _ => ?_, fun hnot => absurd ⟨rfl, rfl⟩ hnot⟩
  have hleft := h.off hoff
  have hexpires : (task.armed envir me now).timer.expires =
      now + if task.ktRemain ≤ 0 then S else task.ktRemain := by rw [← hround]; rfl
  rw [hexpires]
  rw [add_mul, one_mul] at hleft ⊢
  split at hleft
  · rename_i hnone
    rw [if_pos hnone]
    omega
  · rename_i hsome
    rw [if_neg hsome]
    omega

/-- A round is over when the timer is due. -/
theorem SmonTask.Paced.due (h : task.Paced S n now g k) (hon : task.On)
    (hdue : task.timer.expires ≤ now) : g.time = (k + 1) * S ∧ task.timer.expires = now := by
  obtain ⟨hle, heq⟩ := h.on hon
  omega

/-- The number of the next round. -/
theorem mod_succ (n k : ℕ) : (k % n + 1) % n = (k + 1) % n := by
  rw [Nat.add_mod, Nat.mod_mod, ← Nat.add_mod]

/-- A tick ends a round, and begins the next one. -/
theorem SmonTask.Paced.ticked (h : task.Paced S n now g k) (tsc : ℤ) (pmc : SmonPmc) (hon : task.On)
    (hS : 0 < S) (hdue : task.timer.expires ≤ now) (hround : msToNs envir.sampleTime = S)
    (hn : envir.nEsids.toNat = n) : ((task.taken envir tsc pmc).forwarded envir now).Paced S n now
      { g with records := g.records ++ [(task.evset, g.time)] } (k + 1) := by
  obtain ⟨htime, hexpires⟩ := h.due hon hdue
  have hevset : ((task.taken envir tsc pmc).forwarded envir now).evset =
      (task.evset + 1) % envir.nEsids.toNat := rfl
  have htimer : ((task.taken envir tsc pmc).forwarded envir now).timer =
      hrtimerForward task.timer now (msToNs envir.sampleTime) := rfl
  have hforward : (hrtimerForward task.timer now S).expires = now + S := by
    have hmax : max S 1 = S := by omega
    rw [hrtimerForward, hmax, if_neg (by omega), hexpires]
    simp
  have hpaced : ((task.taken envir tsc pmc).forwarded envir now).On :=
    ⟨(congrArg Hrtimer.active htimer).trans ((hrtimerForward_active ..).trans hon.1), hon.2⟩
  refine ⟨?_, ?_, ?_, fun _ => ?_, fun hoff => absurd hpaced hoff⟩
  · rw [rounds_succ, ← h.records, ← h.evset, ← htime]
  · rw [hevset, h.evset, hn, mod_succ]
  · push_cast
    exact Int.le_of_eq htime.symm
  · rw [htimer, hround, hforward]
    push_cast
    rw [add_mul _ 1 S, one_mul, ← htime]
    omega

/-- What is left of a round when a task is switched out is kept, and the round ends there and then if
that is nothing. -/
theorem SmonTask.Paced.left (h : task.Paced S n now g k) (tsc tsc' : ℤ) (pmc : SmonPmc) (hon : task.On)
    (hn : envir.nEsids.toNat = n) :
    ∃ k', ((task.stopped tsc pmc).left envir now tsc').Paced S n now { g with
      records := g.records ++ if (task.stopped tsc pmc).expired now then [(task.evset, g.time)]
        else [] } k' := by
  have hremain : (task.stopped tsc pmc).expired now = decide (task.timer.expires - now ≤ 0) := rfl
  have hout : ∀ x : SmonTask, (x.schedOut envir tsc').evset = x.evset ∧
      (x.schedOut envir tsc').ktRemain = x.ktRemain ∧
      (x.schedOut envir tsc').timerFlags = x.timerFlags := by
    intro x
    unfold SmonTask.schedOut
    split
    · exact ⟨rfl, rfl, rfl⟩
    · exact ⟨rfl, rfl, rfl⟩
  have hoff : ¬ ((task.stopped tsc pmc).left envir now tsc').On := by
    rintro ⟨-, hflags⟩
    rw [SmonTask.left, (hout _).2.2] at hflags
    cases hflags
  by_cases hdue : task.timer.expires - now ≤ 0
  · have hexpired : (task.stopped tsc pmc).expired now = true := hremain.trans (decide_eq_true hdue)
    obtain ⟨htime, -⟩ := h.due hon (by omega)
    refine ⟨k + 1, ?_, ?_, ?_, fun hon' => absurd hon' hoff, fun _ => ?_⟩
    · rw [if_pos hexpired, rounds_succ, ← h.records, ← h.evset, ← htime]
    · rw [SmonTask.left, (hout _).1, SmonTask.kept, hexpired]
      change (task.evset + 1) % envir.nEsids.toNat = (k + 1) % n
      rw [h.evset, hn, mod_succ]
    · push_cast
      exact Int.le_of_eq htime.symm
    · rw [SmonTask.left, (hout _).2.1, SmonTask.kept, hexpired]
      change if task.timer.expires - now ≤ 0 then g.time = (k + 1 : ℕ) * S else _
      rw [if_pos hdue]
      push_cast
      exact htime
  · have hexpired : (task.stopped tsc pmc).expired now = false := hremain.trans (decide_eq_false hdue)
    obtain ⟨-, heq⟩ := h.on hon
    refine ⟨k, ?_, ?_, h.begun, fun hon' => absurd hon' hoff, fun _ => ?_⟩
    · rw [hexpired, if_neg Bool.false_ne_true, List.append_nil]
      exact h.records
    · rw [SmonTask.left, (hout _).1, SmonTask.kept, hexpired]
      exact h.evset
    · rw [SmonTask.left, (hout _).2.1, SmonTask.kept, hexpired]
      change if task.timer.expires - now ≤ 0 then _ else g.time + (task.timer.expires - now) = _
      rw [if_neg hdue]
      exact heq

/-- What is left at the exit gets a record of its own. -/
theorem SmonTask.Paced.ended (h : task.Paced S n now g k) (hS : 0 < S) :
    Ended S n { g with records := g.records ++ [(task.evset, g.time)] } := by
  refine .inl ⟨k, h.begun, h.le hS, ?_⟩
  rw [h.evset, h.records]

end Rounds

/-! ### Steps -/

section Steps

variable {s s' s₀ : State} {t : TaskId} {l : Label} {ls : List Label} {task task' : SmonTask}
  {es : List TraceEvent} {g : Progress} {S : ℤ} {n k : ℕ} {ring : TaskId → List TaskId}
  {envir : SmonEnvir}

/-- Only a process that waits to be monitored exits without running. -/
theorem waiting_of_leave {p : Proc} (hforest : Forest s.book ring)
    (hl : s.kernel.Orderly (.exit p)) (hstep : s.exec (.exit p) = .ok s') (hout : ∀ c, ¬ s.RunsOn t c)
    (htask : s.tasks t = some task) (hp : task.p.isSome = true) (htask' : s'.tasks t = some task')
    (hnone : task'.p = none) : t ∈ s.waitList := by
  by_contra hwait
  obtain ⟨q, hq⟩ := Option.isSome_iff_exists.mp hp
  have hentry := entry_of_tasks htask
  have hentry' := entry_of_tasks htask'
  have hsame : s'.book.entry t = s.book.entry t → False := by
    intro heq
    rw [hentry, hentry', Option.some_inj] at heq
    have hkept : task'.p = task.p := congrArg (fun c => c.1.p) heq
    rw [hnone, hq] at hkept
    cases hkept
  have hbook := exec_book_step hforest hstep
  generalize hb : s'.book = b' at hbook hsame
  cases hbook with
  | idle l hl' => exact hsame rfl
  | exitNone => exact hsame rfl
  | exit p i u c rb hi hat hc hrb =>
    by_cases hu : t = u
    · subst hu
      obtain ⟨hmem, d, hd, hdp⟩ := hat
      obtain rfl := Option.some_inj.mp (hd.symm.trans hentry)
      rcases hi with rfl | ⟨rfl, -⟩
      · exact hout _ ⟨task, p, htask, hdp, hwait, rfl, hl.1⟩
      · exact hwait hmem
    · exact hsame (Function.update_of_ne hu ..)

/-- **A round goes on, or is over, or the process has exited.** -/
theorem SmonTask.Paced.step (h : task.Paced S n s.now g k) (hS : 0 < S)
    (hround : msToNs envir.sampleTime = S) (hn : envir.nEsids.toNat = n)
    (henvir : s.envirs task.envir = some envir) (hsteered : Steered t s) (hpunctual : Punctual t s)
    (hworld : s.World) (hstep : PunctualStep t s l s') (hideal : s.Ideal t l) (hcourse : Course t s l s')
    (htask : s.tasks t = some task) (htask' : s'.tasks t = some task') (hp : task.p.isSome = true)
    (hwait : t ∈ s.waitList → g.time = 0) :
    task'.p = task.p ∧ (∃ k', task'.Paced S n s'.now (g.write t s l s') k') ∨
      task'.p = none ∧ Ended S n (g.write t s l s') := by
  obtain ⟨ring, hforest⟩ := hworld.forest
  have hrunning : ∀ c, s.RunsOn t c → (∀ c, (c, .startTimer t) ∉ s.requests t) → task.On := by
    intro c hc hnone
    rcases hpunctual.timed c hc with hmem | ⟨x, hx, hon⟩
    · exact absurd hmem (hnone c)
    · obtain rfl := Option.some_inj.mp (hx.symm.trans htask)
      exact hon
  have hstill : (∀ c, ¬ s.RunsOn t c) → ¬ task.On := fun hout hon =>
    hout _ (hsteered.armed task htask hon.1 hon.2).1
  -- an event that writes no record, and takes no time
  have hsame : ∀ es, s'.trace = s.trace ++ es → es.filterMap (TraceEvent.saved? t) = [] →
      (l.passes = 0 ∨ ∀ c, ¬ s.RunsOn t c) → task'.p = task.p →
      task'.Paced S n s'.now g k → task'.p = task.p ∧
        (∃ k', task'.Paced S n s'.now (g.write t s l s') k') ∨ task'.p = none ∧ Ended S n (g.write t s l s') := by
    intro es htrace hnone htime hsamep hpaced
    rw [Progress.write_same htrace hnone htime]
    exact .inl ⟨hsamep, k, hpaced⟩
  -- an event that writes records, and takes no time
  have hwrite : ∀ es is, s'.trace = s.trace ++ es → es.filterMap (TraceEvent.saved? t) = is →
      l.passes = 0 → g.write t s l s' = { g with records := g.records ++ is.map fun i => (i, g.time) } := by
    intro es is htrace his htime
    have hrecords := Progress.write_records (t := t) (l := l) (g := g) htrace
    have htime' := Progress.write_time (s := s) (t := t) s' g (.inl htime)
    rw [his] at hrecords
    generalize g.write t s l s' = g' at hrecords htime'
    cases g'
    simp_all
  cases hcourse with
  | aside hidle haside hruns =>
    obtain ⟨x, hx, hagrees⟩ := haside.task_before htask'
    obtain rfl := Option.some_inj.mp (hx.symm.trans htask)
    obtain ⟨es, hes, hforeign⟩ := haside.trace
    have hpasses : l.passes = 0 := by
      cases l with
      | time d => exact hidle.elim
      | _ => rfl
    refine hsame es hes (saved?_of_foreign fun e he => (hforeign e he).1) (.inl hpasses) hagrees.p ?_
    rw [haside.now]
    exact h.of_same hagrees.evset hagrees.ktRemain (.inl ⟨hagrees.timer, hagrees.timerFlags⟩)
  | time d =>
    obtain rfl := Option.some_inj.mp (htask'.symm.trans htask)
    obtain ⟨hirqs, hexpires⟩ := hideal d rfl
    by_cases hruns : ∃ c, s.RunsOn t c
    · obtain ⟨c, hc⟩ := hruns
      have hon := hrunning c hc fun c' hc' => by
        rw [mem_requests_start, hirqs] at hc'
        cases hc'
      refine .inl ⟨rfl, k, ?_⟩
      have hwritten : g.write t s (.time d) { s with now := s.now + d } = { g with time := g.time + d } := by
        simp [Progress.write, runsOn?_eq_some.mpr hc, Label.passes]
      rw [hwritten]
      exact h.pass hon (hexpires _ htask hon.1)
    · have hout : ∀ c, ¬ s.RunsOn t c := fun c hc => hruns ⟨c, hc⟩
      exact hsame [] (List.append_nil _).symm rfl (.inr hout) rfl (h.wait (hstill hout))
  | count me ctr inc =>
    obtain rfl := Option.some_inj.mp (htask'.symm.trans htask)
    exact hsame [.count me ctr inc] rfl rfl (.inl rfl) rfl h
  | @start me s' hpending hstart hruns =>
    have hmem := mem_requests_start.mpr hpending
    have hoff : ¬ task.On := fun hon => (hsteered.armed task htask hon.1 hon.2).2 me hmem
    have harmed := h.armed me hoff hS hround
    obtain ⟨x, envir', hx, henvir', ⟨-, hcall⟩ | ⟨evset, -, hcall⟩⟩ := call_start hstart
    · obtain rfl := Option.some_inj.mp (hx.symm.trans htask)
      obtain rfl := Option.some_inj.mp (henvir'.symm.trans henvir)
      obtain rfl := Option.some_inj.mp (htask'.symm.trans hcall.after)
      have hnow : s'.now = s.now := congrArg Static.now hcall.static
      refine hsame [] hcall.trace rfl (.inl rfl) rfl ?_
      rw [hnow]
      exact harmed
    · obtain rfl := Option.some_inj.mp (hx.symm.trans htask)
      obtain rfl := Option.some_inj.mp (henvir'.symm.trans henvir)
      obtain rfl := Option.some_inj.mp (htask'.symm.trans hcall.after)
      have hnow : s'.now = s.now := congrArg Static.now hcall.static
      refine hsame _ hcall.trace rfl (.inl rfl) rfl ?_
      rw [hnow]
      exact harmed.of_same rfl rfl (.inl ⟨rfl, rfl⟩)
  | @stop me s' hpending hstop hruns =>
    have hmem := mem_requests_stop.mpr hpending
    have hoff := hstill (hpunctual.late me hmem).1
    obtain ⟨x, hx, hcall, -⟩ := call_stopTimerPmc me hstop
    obtain rfl := Option.some_inj.mp (hx.symm.trans htask)
    obtain rfl := Option.some_inj.mp (htask'.symm.trans hcall.after)
    have hnow : s'.now = s.now := congrArg Static.now hcall.static
    refine hsame [] hcall.trace rfl (.inl rfl) rfl ?_
    rw [hnow]
    exact h.of_same rfl rfl (.inr ⟨hoff, fun hon => Bool.false_ne_true hon.1⟩)
  | @tick task₀ s' htask₀ hdue htick hruns =>
    obtain rfl := Option.some_inj.mp (htask₀.symm.trans htask)
    rw [Hrtimer.due, Bool.and_eq_true, decide_eq_true_eq] at hdue
    cases hflags : task₀.timerFlags with
    | false =>
      have hoff : ¬ task₀.On := fun hon => Bool.false_ne_true (hflags.symm.trans hon.2)
      obtain ⟨hcall, -⟩ := call_smonSchedTimerTick_off 0 htask hflags htick
      obtain rfl := Option.some_inj.mp (htask'.symm.trans hcall.after)
      have hnow : s'.now = s.now := congrArg Static.now hcall.static
      refine hsame [] hcall.trace rfl (.inl rfl) rfl ?_
      rw [hnow]
      exact h.of_same rfl rfl (.inr ⟨hoff, fun hon => Bool.false_ne_true hon.1⟩)
    | true =>
      obtain ⟨envir', evset, tsc, pmc, next, henvir', -, -, -, -, rfl, hcall⟩ := call_tick htask hflags htick
      obtain rfl := Option.some_inj.mp (henvir'.symm.trans henvir)
      have hticked := h.ticked tsc pmc ⟨hdue.1, hflags⟩ hS hdue.2 hround hn
      rcases hcall with ⟨-, hcall⟩ | ⟨evset', -, -, hcall⟩
      · obtain rfl := Option.some_inj.mp (htask'.symm.trans hcall.after)
        have hnow : s'.now = s.now := congrArg Static.now hcall.static
        rw [hwrite _ [task₀.evset] hcall.trace saved?_taken rfl, hnow]
        exact .inl ⟨rfl, k + 1, hticked⟩
      · obtain rfl := Option.some_inj.mp (htask'.symm.trans hcall.after)
        have hnow : s'.now = s.now := congrArg Static.now hcall.static
        rw [hwrite _ [task₀.evset] hcall.trace saved?_taken rfl, hnow]
        exact .inl ⟨rfl, k + 1, hticked.of_same rfl rfl (.inl ⟨rfl, rfl⟩)⟩
  | @out me next mid s' hprompt hruns hout haside hleft =>
    have hon := hrunning me hruns (hsteered.not_pending hruns hprompt)
    obtain ⟨x, envir', evset, tsc, pmc, hx, henvir', -, -, -, -, hcall⟩ := call_out hout
    obtain rfl := Option.some_inj.mp (hx.symm.trans htask)
    obtain rfl := Option.some_inj.mp (henvir'.symm.trans henvir)
    obtain ⟨hcall, -⟩ := hcall hon.1
    obtain ⟨es, hes, hforeign⟩ := haside.trace
    obtain ⟨y, hy, hagrees⟩ := haside.task_before htask'
    obtain rfl := Option.some_inj.mp (hy.symm.trans hcall.after)
    have hnow : s'.now = s.now := haside.now.trans (congrArg Static.now hcall.static)
    obtain ⟨k', hpaced⟩ := h.left tsc (s.clock (s.reads + 1)) pmc hon hn
    have hwritten := hwrite (.stop t me tsc :: (x.stopped tsc pmc).leftEvents t envir' s.now
        (s.clock (s.reads + 1)) ++ es) (if (x.stopped tsc pmc).expired s.now then [x.evset] else [])
      (by rw [hes, hcall.trace, List.append_assoc]) (by
        rw [List.filterMap_append, saved?_of_foreign fun e he => (hforeign e he).1, List.append_nil,
          List.filterMap_cons_none saved?_stop, saved?_left]
        rfl) rfl
    rw [hwritten, hnow]
    refine .inl ⟨hagrees.p.trans hcall.same_p, k', ?_⟩
    have hlast := hpaced.of_same hagrees.evset hagrees.ktRemain (.inl ⟨hagrees.timer, hagrees.timerFlags⟩)
    cases hdue : (x.stopped tsc pmc).expired s.now with
    | true =>
      rw [hdue] at hlast
      exact hlast
    | false =>
      rw [hdue] at hlast
      exact hlast
  | @enter l me s₁ s₂ s' hprompt hl hout h₁ henvirs hin h₂ hmsr hruns =>
    have hoff := hstill hout
    have hpasses : l.passes = 0 := by
      cases l with
      | time d => cases hl
      | _ => rfl
    obtain ⟨x, envir', hx, henvir', hcall⟩ := call_in hin
    obtain ⟨y, hy, hagrees₂⟩ := h₂.task_before htask'
    obtain ⟨z, hz, hagrees₁⟩ := h₁.task_before hx
    obtain rfl := Option.some_inj.mp (hz.symm.trans htask)
    obtain ⟨es₁, hes₁, hforeign₁⟩ := h₁.trace
    obtain ⟨es₂, hes₂, hforeign₂⟩ := h₂.trace
    have hstat : envir'.options.stat = false := by
      rw [henvirs, hagrees₁.envir] at henvir'
      exact hstep.timed z envir' htask henvir'
    rcases hcall with ⟨-, hcall, -⟩ | ⟨htrue, -⟩
    case inr => exact absurd (hstat.symm.trans htrue) (by simp)
    obtain rfl := Option.some_inj.mp (hy.symm.trans hcall.after)
    have hnow : s'.now = s.now := (h₂.now.trans (congrArg Static.now hcall.static)).trans h₁.now
    have hentered : (x.entered envir' me (s₁.clock s₁.reads)).evset = x.evset ∧
        (x.entered envir' me (s₁.clock s₁.reads)).ktRemain = x.ktRemain ∧
        (x.entered envir' me (s₁.clock s₁.reads)).timer = x.timer ∧
        (x.entered envir' me (s₁.clock s₁.reads)).timerFlags = x.timerFlags := by
      unfold SmonTask.entered
      split
      · exact ⟨rfl, rfl, rfl, rfl⟩
      · exact ⟨rfl, rfl, rfl, rfl⟩
    have htrace : s'.trace = s.trace ++ (es₁ ++ es₂) := by
      rw [hes₂, hcall.trace, hes₁, List.append_nil, List.append_assoc]
    refine hsame _ htrace (saved?_of_foreign fun e he => ?_) (.inl hpasses)
      (hagrees₂.p.trans (hcall.same_p.trans hagrees₁.p)) ?_
    · exact (List.mem_append.mp he).elim (fun he => (hforeign₁ e he).1) fun he => (hforeign₂ e he).1
    · rw [hnow]
      exact h.of_same (hagrees₂.evset.trans (hentered.1.trans hagrees₁.evset))
        (hagrees₂.ktRemain.trans (hentered.2.1.trans hagrees₁.ktRemain))
        (.inl ⟨hagrees₂.timer.trans (hentered.2.2.1.trans hagrees₁.timer),
          hagrees₂.timerFlags.trans (hentered.2.2.2.trans hagrees₁.timerFlags)⟩)
  | @exit p me task₀ s₀ s₁ s' hprompt hruns htask₀ hp' hstop hsave hdeparted hleft =>
    obtain rfl := Option.some_inj.mp (htask₀.symm.trans htask)
    obtain ⟨envir', evset, tsc, pmc, -, -, -, -, -, hcall⟩ := call_exit htask₀ hstop hsave
    obtain ⟨x, hx, haside⟩ := hdeparted
    obtain ⟨y, hy, hagrees⟩ := haside.exists_task (Function.update_self ..)
    obtain rfl := Option.some_inj.mp (hy.symm.trans htask')
    obtain ⟨es, hes, hforeign⟩ := haside.trace
    have hes' : s'.trace = s₁.trace ++ es := hes
    have hwritten := hwrite (.stop t me tsc :: .save t (task₀.stopped tsc pmc).record envir' :: es)
      [task₀.evset] (by rw [hes', hcall.trace, List.append_assoc]; rfl)
      (by rw [saved?_taken, saved?_of_foreign fun e he => (hforeign e he).1]) rfl
    rw [hwritten]
    exact .inr ⟨hagrees.p, h.ended hS⟩
  | @leave p s' hout hdeparted hleft =>
    obtain ⟨y, hy, hnone⟩ := hdeparted.after
    obtain rfl := Option.some_inj.mp (hy.symm.trans htask')
    have htime := hwait (waiting_of_leave hforest hstep.orderly hstep.step.2 hout htask hp htask' hnone)
    obtain ⟨x, hx, haside⟩ := hdeparted
    obtain ⟨es, hes, hforeign⟩ := haside.trace
    have hes' : s'.trace = s.trace ++ es := hes
    rw [Progress.write_same hes' (saved?_of_foreign fun e he => (hforeign e he).1) (.inl rfl)]
    refine .inr ⟨hnone, .inr ⟨?_, htime⟩⟩
    have hbegun := h.begun
    rw [htime] at hbegun
    have hk : k = 0 := by
      by_contra hne
      have hpos : (0 : ℤ) < k := by omega
      exact absurd (mul_pos hpos hS) (Int.not_lt.mpr hbegun)
    rw [h.records, hk, rounds_zero]
  | new hcomes hborn => exact absurd (lt_fresh_of_tasks hforest htask) (hborn.1 ▸ Nat.lt_irrefl _)
  | gone _ hgone htrace => exact absurd (hgone.symm.trans htask') (by simp)

/-- Nothing happens to a task whose process has exited. -/
theorem Progress.write_gone (hsteered : Steered t s) (hcourse : Course t s l s')
    (hlt : t < s.fresh) (htask : s.tasks t = some task) (htask' : s'.tasks t = some task')
    (hp : task.p = none) : task'.p = none ∧ g.write t s l s' = g := by
  have hout := not_runsOn_of_gone htask hp
  cases hcourse with
  | aside hidle haside hruns =>
    obtain ⟨x, hx, hagrees⟩ := haside.task_before htask'
    obtain rfl := Option.some_inj.mp (hx.symm.trans htask)
    obtain ⟨es, hes, hforeign⟩ := haside.trace
    exact ⟨hagrees.p.trans hp, Progress.write_same hes
      (saved?_of_foreign fun e he => (hforeign e he).1) (.inr hout)⟩
  | time d =>
    obtain rfl := Option.some_inj.mp (htask'.symm.trans htask)
    exact ⟨hp, Progress.write_same (List.append_nil _).symm rfl (.inr hout)⟩
  | count me ctr inc =>
    obtain rfl := Option.some_inj.mp (htask'.symm.trans htask)
    have htrace : ∀ x : State, (x.record (.count me ctr inc)).trace = x.trace ++ [.count me ctr inc] :=
      fun _ => rfl
    exact ⟨hp, Progress.write_same (htrace _) rfl (.inr hout)⟩
  | @start me s' hpending hstart hruns =>
    exact absurd (hsteered.pending me (mem_requests_start.mpr hpending)) (hout me)
  | @stop me s' hpending hstop hruns =>
    obtain ⟨x, hx, hcall, -⟩ := call_stopTimerPmc me hstop
    obtain rfl := Option.some_inj.mp (hx.symm.trans htask)
    obtain rfl := Option.some_inj.mp (htask'.symm.trans hcall.after)
    have htrace : s'.trace = s.trace ++ [] := hcall.trace
    exact ⟨hp, Progress.write_same htrace rfl (.inr hout)⟩
  | @tick task₀ s' htask₀ hdue htick hruns =>
    obtain rfl := Option.some_inj.mp (htask₀.symm.trans htask)
    rw [Hrtimer.due, Bool.and_eq_true] at hdue
    cases hflags : task₀.timerFlags with
    | true => exact absurd (hsteered.armed task₀ htask hdue.1 hflags).1 (hout _)
    | false =>
      obtain ⟨hcall, -⟩ := call_smonSchedTimerTick_off 0 htask hflags htick
      obtain rfl := Option.some_inj.mp (htask'.symm.trans hcall.after)
      exact ⟨hp, Progress.write_same hcall.trace rfl (.inr hout)⟩
  | out hprompt hruns => exact absurd hruns (hout _)
  | @enter l me s₁ s₂ s' hprompt hl hout' h₁ henvirs hin h₂ hmsr hruns =>
    obtain ⟨y, q, hy, hq, -⟩ := (hruns me).mpr rfl
    have hsame : ∀ {x x' : SmonTask} {qs : List Irq} {es : List TraceEvent},
        Call t me x x' es [] qs s₁ s₂ → y.p = none := by
      intro x x' qs es hcall
      obtain ⟨z, hz, hagrees₁⟩ := h₁.task_before hcall.before
      obtain ⟨w, hw, hagrees₂⟩ := h₂.task_before hy
      obtain rfl := Option.some_inj.mp (hz.symm.trans htask)
      obtain rfl := Option.some_inj.mp (hw.symm.trans hcall.after)
      exact hagrees₂.p.trans (hcall.same_p.trans (hagrees₁.p.trans hp))
    obtain ⟨x, envir', -, -, ⟨-, hcall, -⟩ | ⟨-, ⟨-, hcall⟩ | ⟨_, _, -, -, -, hcall⟩⟩⟩ := call_in hin
    all_goals exact absurd (hq.symm.trans (hsame hcall)) (by simp)
  | exit hprompt hruns => exact absurd hruns (hout _)
  | leave hout' hdeparted hleft =>
    obtain ⟨y, hy, hnone⟩ := hdeparted.after
    obtain rfl := Option.some_inj.mp (hy.symm.trans htask')
    obtain ⟨x, -, haside⟩ := hdeparted
    obtain ⟨es, hes, hforeign⟩ := haside.trace
    have hes' : s'.trace = s.trace ++ es := hes
    exact ⟨hnone, Progress.write_same hes' (saved?_of_foreign fun e he => (hforeign e he).1) (.inr hout)⟩
  | new hcomes hborn => exact absurd hlt (hborn.1 ▸ Nat.lt_irrefl _)
  | gone _ hgone htrace => exact absurd (hgone.symm.trans htask') (by simp)

/-- No task begins to wait. -/
theorem mem_waitList_before (hforest : Forest s.book ring) (h : s.exec l = .ok s') (hlt : t < s.fresh)
    (hmem : t ∈ s'.waitList) : t ∈ s.waitList := by
  have hbook := exec_book_step hforest h
  change t ∈ s'.book.lists .waiting at hmem
  change t ∈ s.book.lists .waiting
  generalize s'.book = b' at hbook hmem
  cases hbook with
  | migrate q dest u hat => simpa [Book.move, Book.tick, put, take] using hmem
  | fork => simpa [Book.addChild, put] using hmem
  | exec q u hat =>
    simp only [Book.move, put, take, ne_eq, reduceCtorEq, not_false_eq_true, Function.update_of_ne,
      Function.update_self] at hmem
    exact List.mem_of_mem_erase hmem
  | exit q i u c rb hi hat hc hrb =>
    rcases hi with rfl | ⟨rfl, -⟩
    · simpa [Book.leave, take] using hmem
    · simp only [Book.leave, take, Function.update_self] at hmem
      exact List.mem_of_mem_erase hmem
  | register me pid envir rb alloc halloc =>
    simp only [Book.addRoot, Book.rootPlace, mem_put] at hmem
    exact hmem.resolve_right fun hnew => Nat.ne_of_lt hlt hnew.2
  | unregister pid r c xs b' hr hc hpid hring hd => rwa [hd.lists] at hmem
  | _ => exact hmem

/-- A task keeps its environment. -/
theorem envir_of_step (hforest : Forest s.book ring) (h : s.exec l = .ok s')
    (htask : s.tasks t = some task) (htask' : s'.tasks t = some task') : task'.envir = task.envir := by
  have hbook := exec_book_step hforest h
  have hlt := lt_fresh_of_tasks hforest htask
  have hentry := entry_of_tasks htask
  have hentry' := entry_of_tasks htask'
  have hsame : s'.book.entry t = s.book.entry t → task'.envir = task.envir := by
    intro heq
    rw [hentry, hentry', Option.some_inj] at heq
    exact congrArg (fun c => c.1.envir) heq
  generalize hb : s'.book = b' at hbook hentry' hsame
  cases hbook with
  | fork parent child pid cpu leader k u c rb envir hk hat hc =>
    by_cases hu : t = u
    · subst hu
      obtain rfl := Option.some_inj.mp (hc.symm.trans hentry)
      simp only [Book.addChild, Function.update_self, Option.some_inj] at hentry'
      exact congrArg (fun c => c.1.envir) hentry'.symm
    · exact hsame ((Function.update_of_ne hu ..).trans (Function.update_of_ne (Nat.ne_of_lt hlt) ..))
  | exit q i u c rb hi hat hc =>
    by_cases hu : t = u
    · subst hu
      obtain rfl := Option.some_inj.mp (hc.symm.trans hentry)
      simp only [Book.leave, Function.update_self, Option.some_inj] at hentry'
      exact congrArg (fun c => c.1.envir) hentry'.symm
    · exact hsame (Function.update_of_ne hu ..)
  | register => exact hsame (Function.update_of_ne (Nat.ne_of_lt hlt) ..)
  | unregister pid r c xs b' hr hc hpid hring hd =>
    have hlook := hd.entry t
    split at hlook
    · rw [hlook] at hentry'
      cases hentry'
    · exact hsame hlook
  | _ => exact hsame rfl

/-- There is no sample time of zero. -/
theorem sampleTime_pos_step (hforest : Forest s.book ring) (h : s.exec l = .ok s')
    (hpos : ∀ e envir, s.envirs e = some envir → 0 < envir.sampleTime.toNat) :
    ∀ e envir, s'.envirs e = some envir → 0 < envir.sampleTime.toNat := by
  intro e envir he
  have hbook := exec_book_step hforest h
  change s'.book.envirs e = some envir at he
  change ∀ e envir, s.book.envirs e = some envir → 0 < envir.sampleTime.toNat at hpos
  generalize s'.book = b' at hbook he
  cases hbook with
  | fork parent child pid cpu leader k t c rb envir₁ hk hat hc hrb henvir hinherit =>
    by_cases heq : e = c.1.envir
    · subst heq
      simp only [Book.addChild, Function.update_self, Option.some_inj] at he
      rw [← he]
      exact hpos _ envir₁ henvir
    · simp only [Book.addChild, Function.update_of_ne heq] at he
      exact hpos e envir he
  | register me pid envir₁ rb alloc halloc =>
    by_cases heq : e = s.book.fresh
    · subst heq
      simp only [Book.addRoot, Function.update_self, Option.some_inj] at he
      rw [← he, smonCreateEnvir_sampleTime, askedSampleTime]
      split
      · rename_i hlt
        exact hlt
      · decide
    · simp only [Book.addRoot, Function.update_of_ne heq] at he
      exact hpos e envir he
  | unregister pid r c xs b' hr hc hpid hring hd =>
    rw [hd.envirs] at he
    by_cases heq : e = r
    · rw [heq, Function.update_self] at he
      cases he
    · rw [Function.update_of_ne heq] at he
      exact hpos e envir he
  | _ => exact hpos e envir he

end Steps

end SchedMon
