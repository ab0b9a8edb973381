import SchedMon.Driver.Calls
import SchedMon.Driver.Forest

/-!
# Taking turns

An event is a turn of at most one or two tasks: those whose interrupt or timer it is, or whose
process the hook is called for. For all the others it goes by. `Turn` says which of the two an event
is for a given task, and when it is a turn, which function was called in which state. Whatever is to
be proved about one task over a run is proved from this.

## Main definitions

* `Aside` — nothing of what sampling does to a task has changed
* `Turn` — what an event is to a task

## Main results

* `exec_turn` — **every event is a turn of a task or goes by it**
-/

namespace SchedMon

open State

/-! ### Going by -/

/-- A task without the parts that have nothing to do with its samples. -/
def SmonTask.sampled (task : SmonTask) : SmonTask := { task with nChildren := 0, extra := none }

/-- Two tasks agree on everything that has to do with samples. -/
structure SmonTask.Agrees (task' task : SmonTask) : Prop where
  p : task'.p = task.p
  pid : task'.pid = task.pid
  envir : task'.envir = task.envir
  rb : task'.rb = task.rb
  evset : task'.evset = task.evset
  samplePmc : task'.samplePmc = task.samplePmc
  tscTmp : task'.tscTmp = task.tscTmp
  timer : task'.timer = task.timer
  ktRemain : task'.ktRemain = task.ktRemain
  timerFlags : task'.timerFlags = task.timerFlags
  sampleSched : task'.sampleSched = task.sampleSched

theorem agrees_of_sampled {task' task : SmonTask} (h : task'.sampled = task.sampled) :
    task'.Agrees task := by
  rw [SmonTask.sampled, SmonTask.sampled, SmonTask.mk.injEq, TaskCore.mk.injEq] at h
  obtain ⟨⟨hp, hpid, henvir, -, hrb⟩, hevset, hpmc, htsc, htimer, hkt, hflags, hsched, -⟩ := h
  exact ⟨hp, hpid, henvir, hrb, hevset, hpmc, htsc, htimer, hkt, hflags, hsched⟩

/-- The task whose sample an entry of the history is about. -/
def TraceEvent.task? : TraceEvent → Option TaskId
  | start t _ _ => some t
  | stop t _ _ => some t
  | save t _ _ => some t
  | sched t _ => some t
  | _ => none

/-- Is this about the hardware? -/
def TraceEvent.isCount : TraceEvent → Bool
  | count _ _ _ => true
  | _ => false

/-- The pending interrupts that start or stop the timer of task `u`. -/
def State.requests (s : State) (u : TaskId) : List (Cpu × Irq) :=
  s.irqs.filter fun x => x.2 = .startTimer u ∨ x.2 = .stopTimer u

/-- What happened was nothing to do with the samples of task `u`. -/
structure Aside (u : TaskId) (s s' : State) : Prop where
  now : s'.now = s.now
  clock : s'.clock = s.clock
  evsets : s'.evsets = s.evsets
  reads : s.reads ≤ s'.reads
  task : (s'.tasks u).map SmonTask.sampled = (s.tasks u).map SmonTask.sampled
  requests : s'.requests u = s.requests u
  trace : ∃ es, s'.trace = s.trace ++ es ∧ ∀ e ∈ es, e.task? ≠ some u ∧ e.isCount = false

theorem filter_queued {me : Cpu} {qs : List Irq} {irqs : List (Cpu × Irq)} {f : Cpu × Irq → Bool}
    (hf : ∀ w ∈ qs, f (me, w) = false) : (queued me irqs qs).filter f = irqs.filter f := by
  induction qs generalizing irqs with
  | nil => rfl
  | cons q qs ih =>
    have hq : f (me, q) = false := hf q List.mem_cons_self
    have hrest := @ih (if q ∈ irqs.map Prod.snd then irqs else irqs ++ [(me, q)])
      fun w hw => hf w (List.mem_cons_of_mem _ hw)
    refine hrest.trans ?_
    split
    · rfl
    · rw [List.filter_append, List.filter_cons_of_neg (by simp [hq]), List.filter_nil, List.append_nil]

namespace Aside

variable {u t : TaskId} {me : Cpu} {s s' s'' : State} {task task' : SmonTask}

theorem refl (u : TaskId) (s : State) : Aside u s s :=
  ⟨rfl, rfl, rfl, Nat.le_refl _, rfl, rfl, [], by simp⟩

theorem trans (h : Aside u s s') (h' : Aside u s' s'') : Aside u s s'' := by
  refine ⟨h'.now.trans h.now, h'.clock.trans h.clock, h'.evsets.trans h.evsets,
    Nat.le_trans h.reads h'.reads, h'.task.trans h.task, h'.requests.trans h.requests, ?_⟩
  obtain ⟨es, hes, hforeign⟩ := h.trace
  obtain ⟨es', hes', hforeign'⟩ := h'.trace
  refine ⟨es ++ es', by rw [hes', hes, List.append_assoc], fun e he => ?_⟩
  exact (List.mem_append.mp he).elim (hforeign e) (hforeign' e)

/-- Nothing that matters here has changed. -/
theorem of_eq (hnow : s'.now = s.now) (hclock : s'.clock = s.clock) (hevsets : s'.evsets = s.evsets)
    (hreads : s'.reads = s.reads) (htasks : s'.tasks = s.tasks) (hirqs : s'.irqs = s.irqs)
    (htrace : s'.trace = s.trace) : Aside u s s' :=
  ⟨hnow, hclock, hevsets, Nat.le_of_eq hreads.symm, by rw [htasks],
    by rw [State.requests, hirqs]; rfl, [], by simp [htrace]⟩

/-- A call for another task. -/
theorem of_call {es : List TraceEvent} {ws : List Sample} {qs : List Irq}
    (h : Call t me task task' es ws qs s s') (hu : u ≠ t)
    (hes : ∀ e ∈ es, e.task? = some t ∧ e.isCount = false) (hqs : ∀ w ∈ qs, w.task = t) :
    Aside u s s' := by
  refine ⟨congrArg Static.now h.static, congrArg Static.clock h.static,
    congrArg Static.evsets h.static, h.reads, by rw [h.others hu], ?_, es, h.trace,
    fun e he => ⟨?_, (hes e he).2⟩⟩
  · rw [State.requests, h.irqs]
    refine filter_queued fun w hw => ?_
    have hne : w ≠ .startTimer u ∧ w ≠ .stopTimer u := by
      constructor
      · rintro rfl
        exact hu (hqs _ hw)
      · rintro rfl
        exact hu (hqs _ hw)
    simpa using hne
  · rw [(hes e he).1]
    exact fun heq => hu (Option.some_inj.mp heq).symm

theorem of_msrRdtsc : Aside u s s.msrRdtsc.2 :=
  ⟨rfl, rfl, rfl, Nat.le_succ _, rfl, rfl, [], by simp [msrRdtsc]⟩

theorem of_write (rb : Option RbId) (sample : Sample) : Aside u s (s.smonSampleWrite rb sample) := by
  cases rb <;> exact of_eq rfl rfl rfl rfl rfl rfl rfl

/-- Writing a task back, with the same sample. -/
theorem of_setTask (htask : s.tasks t = some task) (hsampled : task'.sampled = task.sampled) :
    Aside u s (s.setTask t task') := by
  refine ⟨rfl, rfl, rfl, Nat.le_refl _, ?_, rfl, [], by simp [setTask]⟩
  by_cases hu : u = t
  · subst hu
    simp only [setTask, Function.update_self, htask, Option.map_some, hsampled]
  · simp only [setTask, Function.update_of_ne hu]

theorem of_irqWorkQueue (me : Cpu) (t : TaskId) : Aside u s (s.irqWorkQueue me (.startRapl t)) := by
  unfold irqWorkQueue
  split
  · exact refl u s
  · refine ⟨rfl, rfl, rfl, Nat.le_refl _, rfl, ?_, [], by simp⟩
    simp [State.requests]

/-- The task is still there, with the same sample. -/
theorem exists_task (h : Aside u s s') (htask : s.tasks u = some task) :
    ∃ task', s'.tasks u = some task' ∧ task'.Agrees task := by
  have hmap := h.task
  rw [htask, Option.map_some, Option.map_eq_some_iff] at hmap
  obtain ⟨task', htask', hsampled⟩ := hmap
  exact ⟨task', htask', agrees_of_sampled hsampled⟩

/-- The task was there before, with the same sample. -/
theorem task_before (h : Aside u s s') (htask' : s'.tasks u = some task') :
    ∃ task, s.tasks u = some task ∧ task'.Agrees task := by
  have hmap := h.task.symm
  rw [htask', Option.map_some, Option.map_eq_some_iff] at hmap
  obtain ⟨task, htask, hsampled⟩ := hmap
  exact ⟨task, htask, agrees_of_sampled hsampled.symm⟩

end Aside

/-! ### Calls for other tasks -/

section Others

variable {u t : TaskId} {me : Cpu} {s s' : State}

theorem aside_smonSampleStart (hu : u ≠ t) (h : s.smonSampleStart me t = .ok s') : Aside u s s' := by
  obtain ⟨task, envir, -, -, ⟨-, rfl⟩ | ⟨evset, -, hcall⟩⟩ := call_smonSampleStart h
  · exact .refl u _
  · exact .of_call hcall hu (by simp [TraceEvent.task?, TraceEvent.isCount]) (by simp)

theorem aside_smonSampleStop (hu : u ≠ t) (h : s.smonSampleStop me t = .ok s') : Aside u s s' := by
  obtain ⟨task, envir, evset, -, -, -, hcall⟩ := call_smonSampleStop h
  exact .of_call hcall hu (by simp [TraceEvent.task?, TraceEvent.isCount]) (by simp)

theorem aside_smonSampleSave (hu : u ≠ t) (h : s.smonSampleSave t = .ok s') : Aside u s s' := by
  obtain ⟨task, envir, -, -, -, hcall⟩ := call_smonSampleSave 0 h
  exact .of_call hcall hu (by simp [TraceEvent.task?, TraceEvent.isCount]) (by simp)

theorem aside_startTimerPmc (hu : u ≠ t) (h : s.startTimerPmc me t = .ok s') : Aside u s s' := by
  obtain ⟨task, envir, s₁, -, -, hcall, -, -, hstart⟩ := call_startTimerPmc h
  exact (Aside.of_call hcall hu (by simp) (by simp)).trans (aside_smonSampleStart hu hstart)

theorem aside_stopTimerPmc (hu : u ≠ t) (h : s.stopTimerPmc t = .ok s') : Aside u s s' := by
  obtain ⟨task, -, hcall, -⟩ := call_stopTimerPmc 0 h
  exact .of_call hcall hu (by simp) (by simp)

theorem aside_smonSchedTaskIn (hu : u ≠ t) (h : s.smonSchedTaskIn me t = .ok s') : Aside u s s' := by
  obtain ⟨task, envir, -, -, hqueue, hstart⟩ := call_smonSchedTaskIn h
  cases hstat : envir.options.stat with
  | false => exact .of_call (hqueue hstat).1 hu (by simp) (by simp [Irq.task])
  | true =>
    obtain ⟨s₁, hcall, -, hstart⟩ := hstart hstat
    exact (Aside.of_call hcall hu (by simp) (by simp)).trans (aside_smonSampleStart hu hstart)

theorem aside_smonSchedTaskOut (hu : u ≠ t) (h : s.smonSchedTaskOut me t = .ok s') : Aside u s s' := by
  obtain ⟨task, envir, evset, s₁, htask, -, -, rfl, hoff, hon⟩ := call_smonSchedTaskOut h
  have hstop : Aside u s (s.stopped me t task evset) := .of_call (call_stopped me evset htask) hu
    (by simp [TraceEvent.task?, TraceEvent.isCount]) (by simp)
  cases hactive : task.timer.active with
  | false => exact hoff hactive ▸ hstop
  | true =>
    refine hstop.trans (.of_call (hon hactive).1 hu (fun e he => ?_) (by simp [Irq.task]))
    rcases SmonTask.mem_leftEvents he with rfl | rfl
    · exact ⟨rfl, rfl⟩
    · exact ⟨rfl, rfl⟩

theorem aside_smonSchedTimerTick (hu : u ≠ t) (h : s.smonSchedTimerTick t = .ok s') :
    Aside u s s' := by
  obtain ⟨task, htask, -⟩ := bind_eq_ok.mp h
  rw [task_eq_ok] at htask
  cases hflags : task.timerFlags with
  | false =>
    exact .of_call (call_smonSchedTimerTick_off 0 htask hflags h).1 hu (by simp) (by simp)
  | true =>
    obtain ⟨envir, evset, s₁, s₂, s₃, -, -, -, rfl, rfl, hcall, -, -, hstart⟩ :=
      call_smonSchedTimerTick htask hflags h
    have hstop := call_stopped task.timer.cpu evset htask
    have hsave := call_saved task.timer.cpu envir hstop.after
    refine Aside.trans (.of_call hstop hu (by simp [TraceEvent.task?, TraceEvent.isCount]) (by simp)) ?_
    refine Aside.trans (.of_call hsave hu (by simp [TraceEvent.task?, TraceEvent.isCount]) (by simp)) ?_
    exact (Aside.of_call hcall hu (by simp) (by simp)).trans (aside_smonSampleStart hu hstart)

theorem aside_setExtra {extra : SmonTaskExtra} (h : s.setExtra t extra = .ok s') : Aside u s s' := by
  obtain ⟨task, htask, rfl⟩ := setExtra_eq_ok.mp h
  exact .of_setTask htask rfl

theorem aside_cancelRapl (h : s.cancelRapl t = .ok s') : Aside u s s' := by
  obtain ⟨extra, -, h⟩ := bind_eq_ok.mp h
  exact aside_setExtra h

theorem aside_startTimerRapl (h : s.startTimerRapl me t = .ok s') : Aside u s s' := by
  obtain ⟨extra, -, h⟩ := bind_eq_ok.mp h
  exact Aside.of_msrRdtsc.trans (aside_setExtra h)

theorem aside_smonSchedTimerRapl (h : s.smonSchedTimerRapl t = .ok s') : Aside u s s' := by
  obtain ⟨extra, -, h⟩ := bind_eq_ok.mp h
  dsimp only at h
  split at h
  · exact ((Aside.of_msrRdtsc.trans (.of_write (some extra.rb) _)).trans .of_msrRdtsc).trans
      (aside_setExtra h)
  · exact aside_setExtra h

theorem aside_startExtra (h : s.startExtra me t = .ok s') : Aside u s s' := by
  simp only [startExtra, bind_eq_ok, when_eq_ok] at h
  obtain ⟨-, -, ⟨-, rfl⟩ | ⟨-, h⟩⟩ := h
  · exact .refl u _
  simp only [smonTaskExtraStart, bind_eq_ok] at h
  obtain ⟨-, -, extra, -, envir, -, s₁, hset, h⟩ := h
  have hset' : Aside u s s₁ := Aside.of_msrRdtsc.trans (aside_setExtra hset)
  split at h
  · obtain rfl := pure_eq_ok.mp h
    exact (hset'.trans (.of_write (some extra.rb) _)).trans (.of_irqWorkQueue me t)
  · obtain rfl := pure_eq_ok.mp h
    exact hset'.trans (.of_write (some extra.rb) _)

end Others

/-! ### Turns -/

namespace State

/-- The task that a hook finds first for a process on the list of its CPU. -/
def Finds (s : State) (p : Proc) (u : TaskId) : Prop :=
  s.findProc p (s.cpuList (s.kernel.cpu p)) = .ok (some u)

/-- The task that a hook finds first for a process on the waiting list. -/
def FindsWaiting (s : State) (p : Proc) (u : TaskId) : Prop :=
  s.findProc p s.waitList = .ok (some u)

/-- The task on the CPU of `prev` that a switch to `next` finds. -/
def FindsNext (s : State) (prev next : Proc) (u : TaskId) : Prop :=
  s.findProc next (s.cpuList (s.kernel.cpu prev)) = .ok (some u)

/-- The event calls no function for task `u`. -/
def Idle (s : State) (u : TaskId) : Label → Prop
  | .time _ | .count _ _ _ => False
  | .irq _ w => w ≠ .startTimer u ∧ w ≠ .stopTimer u
  | .tick t => t ≠ u
  | .switch me next => ¬ s.Finds (s.kernel.curr me) u ∧ ¬ s.FindsNext (s.kernel.curr me) next u
  | .exec p => ¬ s.FindsWaiting p u
  | .exit p => ¬ s.Finds p u ∧
      (s.findProc p (s.cpuList (s.kernel.cpu p)) = .ok none → ¬ s.FindsWaiting p u)
  | _ => True

end State

/-- The process of task `u` is gone. -/
def Departed (u : TaskId) (s s' : State) : Prop :=
  ∃ task, s.tasks u = some task ∧ Aside u (s.setTask u { task with p := none, rb := none }) s'

/-- A task whose process is gone has no process. -/
theorem Departed.after {u : TaskId} {s s' : State} (h : Departed u s s') :
    ∃ task', s'.tasks u = some task' ∧ task'.p = none := by
  obtain ⟨task, -, h⟩ := h
  obtain ⟨task', htask', hagrees⟩ := h.exists_task (Function.update_self ..)
  exact ⟨task', htask', hagrees.p⟩

/-- The process that a task may be made for. -/
def Label.comes (k : Kernel) : Label → Option Proc
  | fork _ child _ _ _ _ => some child
  | register _ pid _ _ _ => some (k.forEachProcess pid)
  | _ => none

/-- Task `u` is new, for process `p`. -/
def Born (u : TaskId) (p : Proc) (s s' : State) : Prop :=
  u = s.fresh ∧ s'.fresh = s.fresh + 1 ∧ ∃ pid e b extra,
    Aside u (s.setTask u (newTask p pid e b extra)) s'

/-- What an event is to task `u`. -/
inductive Turn (u : TaskId) (s : State) : Label → State → Prop
  | idle {l : Label} {s' : State} (hidle : s.Idle u l) (h : Aside u s s') : Turn u s l s'
  | time (d : ℕ) : Turn u s (.time d) { s with now := s.now + d }
  | count (me : Cpu) (ctr : Counter) (inc : ℕ) : Turn u s (.count me ctr inc)
      ((s.onCpu me fun msr =>
        Function.update msr ctr.register (msr ctr.register + BitVec.ofNat 64 inc)).record
          (.count me ctr inc))
  | start {me : Cpu} {s' : State} (h : ({ s with
      irqs := s.irqs.erase (me, .startTimer u) } : State).startTimerPmc me u = .ok s') :
      Turn u s (.irq me (.startTimer u)) s'
  | stop {me : Cpu} {s' : State} (h : ({ s with
      irqs := s.irqs.erase (me, .stopTimer u) } : State).stopTimerPmc u = .ok s') :
      Turn u s (.irq me (.stopTimer u)) s'
  | tick {s' : State} (h : s.smonSchedTimerTick u = .ok s') : Turn u s (.tick u) s'
  | out {me : Cpu} {next : Proc} {mid s' : State} (hfound : s.Finds (s.kernel.curr me) u)
      (hnext : ¬ s.FindsNext (s.kernel.curr me) next u)
      (h : s.smonSchedTaskOut (s.kernel.cpu (s.kernel.curr me)) u = .ok mid) (h' : Aside u mid s') :
      Turn u s (.switch me next) s'
  | enter {me : Cpu} {next : Proc} {s₁ s₂ s' : State} (hprev : ¬ s.Finds (s.kernel.curr me) u)
      (hfound : s.FindsNext (s.kernel.curr me) next u) (h₁ : Aside u s s₁)
      (henvirs : s₁.envirs = s.envirs)
      (h : s₁.smonSchedTaskIn (s.kernel.cpu (s.kernel.curr me)) u = .ok s₂) (h₂ : Aside u s₂ s')
      (hmsr : s'.msr = s₂.msr) : Turn u s (.switch me next) s'
  | again {me : Cpu} {next : Proc} {mid s₂ s' : State} (hfound : s.Finds (s.kernel.curr me) u)
      (hnext : s.FindsNext (s.kernel.curr me) next u)
      (h : s.smonSchedTaskOut (s.kernel.cpu (s.kernel.curr me)) u = .ok mid)
      (h' : mid.smonSchedTaskIn (s.kernel.cpu (s.kernel.curr me)) u = .ok s₂) (h₂ : Aside u s₂ s') :
      Turn u s (.switch me next) s'
  | exec {p : Proc} {s₁ s₂ s' : State} (hfound : s.FindsWaiting p u) (h₁ : Aside u s s₁)
      (henvirs : s₁.envirs = s.envirs) (h : s₁.smonSchedTaskIn (s.kernel.cpu p) u = .ok s₂) (h₂ : Aside u s₂ s')
      (hmsr : s'.msr = s₂.msr) : Turn u s (.exec p) s'
  | exit {p : Proc} {task : SmonTask} {s₀ s₁ s' : State} (hfound : s.Finds p u)
      (htask : s.tasks u = some task)
      (hstop : (s.setTask u task.disarmed).smonSampleStop (s.kernel.cpu p) u = .ok s₀)
      (hsave : s₀.smonSampleSave u = .ok s₁) (h : Departed u s₁ s') : Turn u s (.exit p) s'
  | leave {p : Proc} {s' : State} (hnot : s.findProc p (s.cpuList (s.kernel.cpu p)) = .ok none)
      (hfound : s.FindsWaiting p u) (h : Departed u s s') : Turn u s (.exit p) s'
  | new {l : Label} {p : Proc} {s' : State} (hl : l.comes s.kernel = some p) (h : Born u p s s') :
      Turn u s l s'
  | gone {l : Label} {s' : State} (hlt : u < s.fresh) (hu : s'.tasks u = none)
      (htrace : ∃ es, s'.trace = s.trace ++ es ∧ ∀ e ∈ es, e.task? ≠ some u ∧ e.isCount = false) :
      Turn u s l s'

section Turns

variable {u t : TaskId} {me : Cpu} {s s' : State} {p : Proc} {ring : TaskId → List TaskId}

/-- A lookup looks at the processes of tasks only. -/
theorem findProc_congr {l : List TaskId}
    (h : ∀ v ∈ l, (s'.tasks v).map (fun x => x.p) = (s.tasks v).map fun x => x.p) :
    s'.findProc p l = s.findProc p l := by
  induction l with
  | nil => rfl
  | cons v l ih =>
    have hrest := ih fun w hw => h w (List.mem_cons_of_mem _ hw)
    have hv := h v List.mem_cons_self
    simp only [State.findProc, findTask, State.task] at hrest ⊢
    cases hx : s.tasks v with
    | none =>
      rw [hx, Option.map_none, Option.map_eq_none_iff] at hv
      rw [hv]
      rfl
    | some x =>
      rw [hx, Option.map_some, Option.map_eq_some_iff] at hv
      obtain ⟨x', hx', hp⟩ := hv
      simp only [hx', hrest]
      change (if decide (x'.p = some p) then _ else _) = if decide (x.p = some p) then _ else _
      rw [hp]

theorem map_p_of_core {v : TaskId} (h : (s'.tasks v).map SmonTask.core = (s.tasks v).map SmonTask.core) :
    (s'.tasks v).map (fun x => x.p) = (s.tasks v).map fun x => x.p := by
  have hmap := congrArg (Option.map fun c => c.1.p) h
  rw [Option.map_map, Option.map_map] at hmap
  exact hmap

/-- A lookup looks at nothing that sampling touches. -/
theorem Quiet.findProc {K : Sample → Prop} (h : Quiet K t s s') (p : Proc) (l : List TaskId) :
    s'.findProc p l = s.findProc p l :=
  findProc_congr fun v _ => map_p_of_core (h.cores v)

/-- An interrupt leaves the queue. -/
theorem requests_erase (w : Irq) : ({ s with irqs := s.irqs.erase (me, w) } : State).requests u =
    (s.requests u).erase (me, w) := (List.erase_filter ..).symm

theorem aside_erase {w : Irq} (hw : w ≠ .startTimer u ∧ w ≠ .stopTimer u) :
    Aside u s { s with irqs := s.irqs.erase (me, w) } := by
  refine ⟨rfl, rfl, rfl, Nat.le_refl _, rfl, ?_, [], by simp⟩
  rw [requests_erase]
  exact List.erase_of_not_mem (by simp [State.requests, hw])

theorem turn_irq {w : Irq} (u : TaskId) (h : s.exec (.irq me w) = .ok s') :
    Turn u s (.irq me w) s' := by
  change ({ s with irqs := s.irqs.erase (me, w) } : State).runIrq me w = .ok s' at h
  cases w with
  | startTimer t =>
    by_cases hu : u = t
    · subst hu
      exact .start h
    · have htu : t ≠ u := fun heq => hu heq.symm
      exact .idle (by simp [Idle, htu]) ((aside_erase (by simp [htu])).trans
        (aside_startTimerPmc hu h))
  | stopTimer t =>
    by_cases hu : u = t
    · subst hu
      exact .stop h
    · have htu : t ≠ u := fun heq => hu heq.symm
      exact .idle (by simp [Idle, htu]) ((aside_erase (by simp [htu])).trans
        (aside_stopTimerPmc hu h))
  | startRapl t =>
    exact .idle (by simp [Idle]) ((aside_erase (by simp)).trans (aside_startTimerRapl h))

theorem turn_tick (u : TaskId) (h : s.exec (.tick t) = .ok s') : Turn u s (.tick t) s' := by
  by_cases hu : u = t
  · subst hu
    exact .tick h
  · exact .idle (fun heq => hu heq.symm) (aside_smonSchedTimerTick hu h)

theorem aside_withKernel (k : Kernel) : Aside u s (s.withKernel k) :=
  .of_eq rfl rfl rfl rfl rfl rfl rfl

theorem turn_switch {next : Proc} (u : TaskId) (h : s.exec (.switch me next) = .ok s') :
    Turn u s (.switch me next) s' := by
  obtain ⟨s₂, hswitch, hs⟩ := bind_eq_ok.mp h
  cases hs
  obtain ⟨mid, hout, hin⟩ := switch_cases hswitch
  have hfind : ∀ p, mid.findProc p (mid.cpuList (s.kernel.cpu (s.kernel.curr me))) =
      s.findProc p (s.cpuList (s.kernel.cpu (s.kernel.curr me))) := by
    intro p
    rcases hout with ⟨-, rfl⟩ | ⟨t, -, hout⟩
    · rfl
    · have hquiet : Quiet (fun _ => True) t s mid :=
        quiet_smonSchedTaskOut (fun _ => trivial) (fun _ => trivial) hout
      rw [hquiet.cpuList, hquiet.findProc]
  rw [hfind] at hin
  have henvirs : mid.envirs = s.envirs := by
    rcases hout with ⟨-, rfl⟩ | ⟨t, -, hout⟩
    · rfl
    · exact (quiet_smonSchedTaskOut (fun _ => trivial) (fun _ => trivial) hout :
        Quiet (fun _ => True) t s mid).envirs
  have hfirst : (¬ s.Finds (s.kernel.curr me) u → Aside u s mid) ∧ (s.Finds (s.kernel.curr me) u →
      s.smonSchedTaskOut (s.kernel.cpu (s.kernel.curr me)) u = .ok mid) := by
    rcases hout with ⟨hnone, rfl⟩ | ⟨t, hfound, hout⟩
    · refine ⟨fun _ => .refl u _, fun hfinds => ?_⟩
      rw [Finds, hnone] at hfinds
      cases hfinds
    · refine ⟨fun hnot => aside_smonSchedTaskOut ?_ hout, fun hfinds => ?_⟩
      · rintro rfl
        exact hnot hfound
      · rw [Finds, hfound] at hfinds
        cases hfinds
        exact hout
  have hlast : (¬ s.FindsNext (s.kernel.curr me) next u → Aside u mid s₂) ∧
      (s.FindsNext (s.kernel.curr me) next u →
        mid.smonSchedTaskIn (s.kernel.cpu (s.kernel.curr me)) u = .ok s₂) := by
    rcases hin with ⟨hnone, rfl⟩ | ⟨t, hfound, hin⟩
    · refine ⟨fun _ => .refl u _, fun hfinds => ?_⟩
      rw [FindsNext, hnone] at hfinds
      cases hfinds
    · refine ⟨fun hnot => aside_smonSchedTaskIn ?_ hin, fun hfinds => ?_⟩
      · rintro rfl
        exact hnot hfound
      · rw [FindsNext, hfound] at hfinds
        cases hfinds
        exact hin
  have hkernel := aside_withKernel (u := u) (s := s₂) (s₂.kernel.step (.switch me next))
  by_cases hprev : s.Finds (s.kernel.curr me) u
  · by_cases hnext : s.FindsNext (s.kernel.curr me) next u
    · exact .again hprev hnext (hfirst.2 hprev) (hlast.2 hnext) hkernel
    · exact .out hprev hnext (hfirst.2 hprev) ((hlast.1 hnext).trans hkernel)
  · by_cases hnext : s.FindsNext (s.kernel.curr me) next u
    · exact .enter hprev hnext (hfirst.1 hprev) henvirs (hlast.2 hnext) hkernel rfl
    · exact .idle ⟨hprev, hnext⟩ (((hfirst.1 hprev).trans (hlast.1 hnext)).trans hkernel)

theorem aside_migrate {dest : Cpu} (u : TaskId) (h : s.exec (.migrate p dest) = .ok s') :
    Aside u s s' := by
  obtain ⟨s₁, hmigrate, hs⟩ := bind_eq_ok.mp h
  cases hs
  refine Aside.trans ?_ (aside_withKernel _)
  simp only [smonSchedMigrateTask, bind_eq_ok, whenFound_eq_ok] at hmigrate
  obtain ⟨found, -, ⟨rfl, rfl⟩ | ⟨t, rfl, hmigrate⟩⟩ := hmigrate
  · exact .refl u _
  simp only [pure_eq_ok] at hmigrate
  obtain ⟨task, -, envir, -, rfl⟩ := hmigrate
  have hdel : Aside u s (s.delCpuList (s.kernel.cpu p) t) := .of_eq rfl rfl rfl rfl rfl rfl rfl
  split
  · exact ((hdel.trans .of_msrRdtsc).trans (.of_write task.rb _)).trans
      (.of_eq rfl rfl rfl rfl rfl rfl rfl)
  · exact hdel.trans (.of_eq rfl rfl rfl rfl rfl rfl rfl)

theorem turn_exec (u : TaskId) (h : s.exec (.exec p) = .ok s') : Turn u s (.exec p) s' := by
  rcases exec_cases h with ⟨hnone, rfl⟩ | ⟨t, s₁, s₂, hfound, hextra, hin, rfl⟩
  · refine .idle (fun hfinds => ?_) (.refl u _)
    rw [FindsWaiting, hnone] at hfinds
    cases hfinds
  have hdel : Aside u s (s.delWaitList t) := .of_eq rfl rfl rfl rfl rfl rfl rfl
  have hadd : Aside u s₂ (s₂.addCpuList (s.kernel.cpu p) t) := .of_eq rfl rfl rfl rfl rfl rfl rfl
  by_cases hu : u = t
  · subst hu
    exact .exec hfound (hdel.trans (aside_startExtra hextra)) (startExtra_cases hextra).quiet.envirs
      hin hadd rfl
  · refine .idle (fun hfinds => ?_) (((hdel.trans (aside_startExtra hextra)).trans
      (aside_smonSchedTaskIn hu hin)).trans hadd)
    rw [FindsWaiting, hfound] at hfinds
    cases hfinds
    exact hu rfl

theorem aside_smonReleaseRb (b : RbId) : Aside u s (s.smonReleaseRb b) := by
  unfold smonReleaseRb
  dsimp only
  split <;> exact .of_eq rfl rfl rfl rfl rfl rfl rfl

/-- The process of one task goes. -/
theorem departed_leave (h : s.leave u = .ok s') : Departed u s s' := by
  obtain ⟨task, b, htask, -, rfl⟩ := leave_eq_ok.mp h
  refine ⟨task, htask, ?_⟩
  unfold smonReleaseRb
  dsimp only
  split <;> exact .of_eq rfl rfl rfl rfl rfl rfl rfl

theorem aside_leave (hu : u ≠ t) (h : s.leave t = .ok s') : Aside u s s' := by
  obtain ⟨task, b, htask, -, rfl⟩ := leave_eq_ok.mp h
  refine (aside_smonReleaseRb b).trans ⟨rfl, rfl, rfl, Nat.le_refl _, ?_, rfl, [], by simp [setTask]⟩
  simp only [setTask, Function.update_of_ne hu]

theorem Departed.trans {s'' : State} (h : Departed u s s') (h' : Aside u s' s'') :
    Departed u s s'' := by
  obtain ⟨task, htask, h⟩ := h
  exact ⟨task, htask, h.trans h'⟩

theorem turn_exit (u : TaskId) (h : s.exec (.exit p) = .ok s') : Turn u s (.exit p) s' := by
  rcases exit_cases h with ⟨hnone, hwait, rfl⟩ | ⟨t, s₁, s₂, hexit⟩ | ⟨t, hexit⟩
  · refine .idle ⟨fun hfinds => ?_, fun _ hfinds => ?_⟩ (.refl u _)
    · rw [Finds, hnone] at hfinds
      cases hfinds
    · rw [FindsWaiting, hwait] at hfinds
      cases hfinds
  · obtain ⟨hfound, ⟨task, s₀, htask, hstop, hsave⟩, hleave, ⟨task', -, hcancel⟩⟩ := hexit
    have hdel : Aside u s₁ (s₁.delCpuList (s.kernel.cpu p) t) := .of_eq rfl rfl rfl rfl rfl rfl rfl
    have hlast : Aside u s₂ s' := by
      rcases when_eq_ok.mp hcancel with ⟨-, rfl⟩ | ⟨-, hcancel⟩
      · exact .refl u _
      · exact aside_cancelRapl hcancel
    by_cases hu : u = t
    · subst hu
      refine .exit hfound htask hstop hsave (Departed.trans ?_ hlast)
      obtain ⟨task₂, htask₂, hrest⟩ := departed_leave hleave
      refine ⟨task₂, htask₂, Aside.trans ?_ hrest⟩
      exact .of_eq rfl rfl rfl rfl rfl rfl rfl
    · refine .idle ⟨fun hfinds => ?_, fun hnone => ?_⟩ ?_
      · rw [Finds, hfound] at hfinds
        cases hfinds
        exact hu rfl
      · rw [hfound] at hnone
        cases hnone
      · have hcancel : Aside u s (s.setTask t task.disarmed) := by
          refine ⟨rfl, rfl, rfl, Nat.le_refl _, ?_, rfl, [], by simp [setTask]⟩
          simp only [setTask, Function.update_of_ne hu]
        exact ((((hcancel.trans (aside_smonSampleStop hu hstop)).trans
          (aside_smonSampleSave hu hsave)).trans hdel).trans (aside_leave hu hleave)).trans hlast
  · obtain ⟨hnot, hfound, hleave⟩ := hexit
    have hdel : Aside u s (s.delWaitList t) := .of_eq rfl rfl rfl rfl rfl rfl rfl
    by_cases hu : u = t
    · subst hu
      refine .leave hnot hfound ?_
      obtain ⟨task₂, htask₂, hrest⟩ := departed_leave hleave
      refine ⟨task₂, htask₂, Aside.trans ?_ hrest⟩
      exact .of_eq rfl rfl rfl rfl rfl rfl rfl
    · refine .idle ⟨fun hfinds => ?_, fun _ hfinds => ?_⟩ (hdel.trans (aside_leave hu hleave))
      · rw [Finds, hnot] at hfinds
        cases hfinds
      · rw [FindsWaiting, hfound] at hfinds
        cases hfinds
        exact hu rfl

theorem aside_record {e : TraceEvent} (he : e.task? ≠ some u ∧ e.isCount = false) :
    Aside u s (s.record e) :=
  ⟨rfl, rfl, rfl, Nat.le_refl _, rfl, rfl, [e], rfl, by simpa using he⟩

/-- A new task is no turn of another one. -/
theorem aside_install {task : SmonTask} (hu : u ≠ s.fresh) : Aside u s (s.install task) := by
  refine ⟨rfl, rfl, rfl, Nat.le_refl _, ?_, rfl, [],
    by simp [State.install]⟩
  simp only [State.install, Function.update_of_ne hu]

/-- A new task has nothing to do with what there is. -/
theorem aside_setTask_install {x : State} {task : SmonTask} (hx : Aside u s x) (htasks : x.tasks = s.tasks)
    (hfresh : x.fresh = s.fresh) (hu : u = s.fresh) : Aside u (s.setTask u task) (x.install task) := by
  refine ⟨hx.now, hx.clock, hx.evsets, hx.reads, ?_, hx.requests, hx.trace⟩
  simp only [State.install, setTask, htasks, hfresh, hu]

/-- What comes after a child was made. -/
theorem aside_newChild {task : SmonTask} {b : RbId} {envir : SmonEnvir} {s₁ : State} {task₁ : SmonTask}
    (hadd : (s.newChild p task.envir envir b).addChild s.fresh t = .ok s₁)
    (htask₁ : s₁.tasks t = some task₁) :
    Aside u (s.newChild p task.envir envir b)
      ((s₁.setTask t { task₁ with nChildren := task₁.nChildren + 1 }).addCpuList (s.kernel.cpu p)
        s.fresh) := by
  simp only [addChild, bind_eq_ok, pure_eq_ok] at hadd
  obtain ⟨next, -, -, -, rfl⟩ := hadd
  have hlink : Aside u (s.newChild p task.envir envir b)
      ({ s.newChild p task.envir envir b with
        children := (s.newChild p task.envir envir b).children.add s.fresh t } : State) :=
    .of_eq rfl rfl rfl rfl rfl rfl rfl
  have hset : Aside u _ (State.setTask _ t { task₁ with nChildren := task₁.nChildren + 1 }) :=
    .of_setTask htask₁ rfl
  refine ((hlink.trans (aside_record ⟨by simp [TraceEvent.task?], rfl⟩)).trans hset).trans ?_
  exact .of_eq rfl rfl rfl rfl rfl rfl rfl

theorem aside_childAdded (hu : u ≠ s.fresh) (h : ChildAdded s t p s') : Aside u s s' := by
  obtain ⟨task, b, envir, s₁, task₁, -, -, -, hadd, htask₁, rfl⟩ := h.add
  have hrb : Aside u s ((s.smonGetRb b).setEnvir task.envir { envir with count := envir.count + 1 }) :=
    .of_eq rfl rfl rfl rfl rfl rfl rfl
  have hnew : Aside u s (s.newChild p task.envir envir b) := hrb.trans (aside_install hu)
  exact hnew.trans (aside_newChild hadd htask₁)

theorem born_childAdded (h : ChildAdded s t p s') (hu : u = s.fresh) : Born u p s s' := by
  obtain ⟨task, b, envir, s₁, task₁, -, -, -, hadd, htask₁, rfl⟩ := h.add
  have hrest := aside_newChild (u := u) hadd htask₁
  refine ⟨hu, ?_, s.kernel.pid p, task.envir, b, none, Aside.trans ?_ hrest⟩
  · simp only [addChild, bind_eq_ok, pure_eq_ok] at hadd
    obtain ⟨next, -, -, -, rfl⟩ := hadd
    rfl
  · exact aside_setTask_install (.of_eq rfl rfl rfl rfl rfl rfl rfl) rfl rfl hu

section Register

variable {pid : Pid} {envir : SmonEnvir} {b : RbId} {alloc : Alloc}

/-- What comes before a new task is made. -/
theorem aside_setBatch (u : TaskId) (s : State) (envir : SmonEnvir) (b : RbId) : Aside u s (((s.smonGetRb b).setBatch b envir.batchSize).setEnvir s.fresh
      (smonCreateEnvir envir)) ∧
    (((s.smonGetRb b).setBatch b envir.batchSize).setEnvir s.fresh (smonCreateEnvir envir)).tasks =
      s.tasks ∧
    (((s.smonGetRb b).setBatch b envir.batchSize).setEnvir s.fresh (smonCreateEnvir envir)).fresh =
      s.fresh := by
  unfold setBatch
  split
  · exact ⟨.of_eq rfl rfl rfl rfl rfl rfl rfl, rfl, rfl⟩
  · exact ⟨.of_eq rfl rfl rfl rfl rfl rfl rfl, rfl, rfl⟩

/-- A registration makes the task at the next address, and goes by every other one. -/
theorem turn_register (u : TaskId) (h : s.exec (.register me pid envir b alloc) = .ok s') :
    Turn u s (.register me pid envir b alloc) s' := by
  obtain ⟨⟨ret, s₁⟩, hregister, hs⟩ := bind_eq_ok.mp h
  cases hs
  rcases register_cases hregister with ⟨-, -, rfl⟩ | ⟨-, -, s₀, rfl, hwait, hstart⟩
  · exact .idle trivial (.refl u _)
  -- what comes after the new task is made
  have hrest : Aside u (s.newRoot pid envir b) s' ∧ s'.fresh = (s.newRoot pid envir b).fresh := by
    have hlist : Aside u (s.newRoot pid envir b) { s.newRoot pid envir b with
        taskList := s.fresh :: (s.newRoot pid envir b).taskList } := .of_eq rfl rfl rfl rfl rfl rfl rfl
    cases hexec : envir.options.onExec with
    | true =>
      rw [hwait hexec]
      exact ⟨hlist.trans (.of_eq rfl rfl rfl rfl rfl rfl rfl), rfl⟩
    | false =>
      obtain ⟨s₂, hextra, rfl⟩ := hstart hexec
      refine ⟨(hlist.trans (aside_startExtra hextra)).trans (.of_eq rfl rfl rfl rfl rfl rfl rfl), ?_⟩
      exact (startExtra_cases hextra).quiet.fresh
  obtain ⟨hset, htasks, hfresh⟩ := aside_setBatch u s envir b
  by_cases hu : u = s.fresh
  · refine .new rfl ⟨hu, hrest.2.trans (congrArg (· + 1) hfresh), pid, s.fresh, b,
      some (smonTaskExtraCreate (smonCreateEnvir envir) b), ?_⟩
    exact (aside_setTask_install hset htasks hfresh hu).trans hrest.1
  · exact .idle trivial ((hset.trans (aside_install (hfresh ▸ hu))).trans hrest.1)

end Register

/-- The counters, and the time-stamp counter's reads. -/
def State.hardware (s : State) : (Cpu → ℕ → I64) × ℕ := (s.msr, s.reads)

theorem hardware_smonReleaseRb (b : RbId) : (s.smonReleaseRb b).hardware = s.hardware := by
  unfold smonReleaseRb
  dsimp only
  split <;> rfl

theorem hardware_smonDestroyTask (h : s.smonDestroyTask t = .ok s') : s'.hardware = s.hardware := by
  simp only [smonDestroyTask, smonReleaseEnvir, bind_eq_ok, pure_eq_ok] at h
  obtain ⟨task, -, s₁, ⟨envir, -, hrelease⟩, rfl⟩ := h
  have hrb : (s.releaseTaskRb task).hardware = s.hardware := by
    unfold releaseTaskRb
    split
    · exact hardware_smonReleaseRb _
    · rfl
  rw [← hrb]
  split at hrelease
  · rw [← pure_eq_ok.mp hrelease]
    rfl
  · rw [← pure_eq_ok.mp hrelease]
    rfl

theorem hardware_unregisterChildrenFrom {root pos n : TaskId} {fuel : ℕ}
    (h : unregisterChildrenFrom root fuel pos n s = .ok s') : s'.hardware = s.hardware := by
  induction fuel generalizing s pos n with
  | zero => cases h
  | succ fuel ih =>
    unfold unregisterChildrenFrom at h
    split at h
    · rw [← pure_eq_ok.mp h]
    · simp only [delChild, bind_eq_ok, pure_eq_ok] at h
      obtain ⟨s₁, ⟨-, -, -, -, -, -, rfl⟩, s₂, hdestroy, next, -, h⟩ := h
      exact (ih h).trans ((hardware_smonDestroyTask hdestroy).trans rfl)

theorem hardware_smonSchedUnregister (h : s.smonSchedUnregister t = .ok s') :
    s'.hardware = s.hardware := by
  simp only [smonSchedUnregister, smonSchedUnregisterChildren, bind_eq_ok] at h
  obtain ⟨task, -, s₁, ⟨pos, -, n, -, hchildren⟩, envir, -, s₂, hcancel, hdestroy⟩ := h
  have hrapl : s₂.hardware = s₁.hardware := by
    rcases when_eq_ok.mp hcancel with ⟨-, rfl⟩ | ⟨-, hcancel⟩
    · rfl
    · obtain ⟨extra, -, hset⟩ := bind_eq_ok.mp hcancel
      obtain ⟨task, -, rfl⟩ := setExtra_eq_ok.mp hset
      rfl
  calc s'.hardware = s₂.hardware := hardware_smonDestroyTask hdestroy
    _ = s₁.hardware := hrapl
    _ = s.hardware := (hardware_unregisterChildrenFrom hchildren).trans rfl

/-- A family that is destroyed is gone, and every other task is as it was. -/
theorem turn_unregister {pid : Pid} (hforest : Forest s.book ring) (u : TaskId)
    (h : s.exec (.unregister pid) = .ok s') : Turn u s (.unregister pid) s' := by
  obtain ⟨⟨ret, s₁⟩, hunregister, hs⟩ := bind_eq_ok.mp h
  cases hs
  simp only [smonSchedUnregisterTask, bind_eq_ok] at hunregister
  obtain ⟨found, hfound, hunregister⟩ := hunregister
  cases found with
  | none =>
    cases hunregister
    exact .idle trivial (.refl u _)
  | some r =>
    obtain ⟨hr, -⟩ := findTask_some hfound
    obtain ⟨s₂, hs₂, hun⟩ := hforest.unregister hr
    simp only [hs₂, bind, Except.bind, pure, Except.pure, Except.ok.injEq, Prod.mk.injEq]
      at hunregister
    obtain ⟨-, rfl⟩ := hunregister
    have htrace : ∃ es, s₂.trace = s.trace ++ es ∧
        ∀ e ∈ es, e.task? ≠ some u ∧ e.isCount = false := by
      refine ⟨_, by rw [hun.trace, List.append_assoc], fun e he => ?_⟩
      rcases List.mem_append.mp he with he | he
      · obtain ⟨x, -, rfl⟩ := List.mem_map.mp he
        exact ⟨by simp [TraceEvent.task?], rfl⟩
      · rcases List.mem_pair.mp he with rfl | rfl
        · exact ⟨by simp [TraceEvent.task?], rfl⟩
        · exact ⟨by simp [TraceEvent.task?], rfl⟩
    by_cases hu : u ∈ r :: ring r
    · exact .gone (hforest.lt_fresh hr hu) (by rw [hun.tasks, if_pos hu]) htrace
    · refine .idle trivial ⟨congrArg Static.now hun.static, congrArg Static.clock hun.static,
        congrArg Static.evsets hun.static, ?_, ?_, ?_, htrace⟩
      · exact Nat.le_of_eq (congrArg Prod.snd (hardware_smonSchedUnregister hs₂)).symm
      · rw [hun.tasks, if_neg hu]
      · rw [State.requests, hun.irqs]
        rfl

theorem turn_fork {parent child : Proc} {pid : Pid} {cpu : Cpu} {leader alloc : Bool} (u : TaskId)
    (h : s.exec (.fork parent child pid cpu leader alloc) = .ok s') :
    Turn u s (.fork parent child pid cpu leader alloc) s' := by
  have hkernel := aside_withKernel (u := u) (s := s)
    (s.kernel.step (.fork parent child pid cpu leader alloc))
  simp only [State.exec, smonSchedProcessFork, bind_eq_ok, whenFound_eq_ok] at h
  obtain ⟨found, -, ⟨rfl, rfl⟩ | ⟨t, rfl, h⟩⟩ := h
  · exact .idle trivial hkernel
  obtain ⟨task', -, envir, -, s₁, hinherit, h⟩ := h
  have hrecord : Aside u s₁ s' ∧ s'.fresh = s₁.fresh := by
    split at h
    · obtain rfl := pure_eq_ok.mp h
      refine ⟨Aside.of_msrRdtsc.trans (.of_write task'.rb _), ?_⟩
      cases task'.rb <;> rfl
    · obtain rfl := pure_eq_ok.mp h
      exact ⟨.refl u _, rfl⟩
  rcases when_eq_ok.mp hinherit with ⟨-, rfl⟩ | ⟨-, hregister⟩
  · exact .idle trivial (hkernel.trans hrecord.1)
  rcases registerChild_cases hregister with ⟨-, rfl⟩ | ⟨-, hadd⟩
  · exact .idle trivial (hkernel.trans hrecord.1)
  by_cases hu : u = s.fresh
  · have hborn := born_childAdded hadd hu
    obtain ⟨-, hfresh, pid, e, b, extra, hnew⟩ := hborn
    refine .new rfl ⟨hu, hrecord.2.trans hfresh, pid, e, b, extra, Aside.trans ?_ (hnew.trans hrecord.1)⟩
    exact .of_eq rfl rfl rfl rfl rfl rfl rfl
  · exact .idle trivial ((hkernel.trans (aside_childAdded hu hadd)).trans hrecord.1)

/-- **Every event is a turn of a task or goes by it.** -/
theorem exec_turn {l : Label} (hforest : Forest s.book ring) (u : TaskId) (h : s.exec l = .ok s') :
    Turn u s l s' := by
  cases l with
  | time d =>
    cases h
    exact .time d
  | count me ctr inc =>
    cases h
    exact .count me ctr inc
  | irq me w => exact turn_irq u h
  | tick t => exact turn_tick u h
  | raplTick t => exact .idle trivial (aside_smonSchedTimerRapl h)
  | switch me next => exact turn_switch u h
  | migrate p dest => exact .idle trivial (aside_migrate u h)
  | fork parent child pid cpu leader alloc => exact turn_fork u h
  | exec p => exact turn_exec u h
  | exit p => exact turn_exit u h
  | reap p =>
    cases h
    exact .idle trivial (aside_withKernel _)
  | register me pid envir rb alloc => exact turn_register u h
  | unregister pid => exact turn_unregister hforest u h

end Turns

/-! ### What stays -/

/-- What a client asked for. -/
def SmonEnvir.config (envir : SmonEnvir) : SmonEnvir := { envir with count := 0 }

/-- An environment that stays is what it was, but for its reference count. -/
theorem BookStep.config {b b' : Book} {l : Label} {e : EnvirId} {envir envir' : SmonEnvir}
    (h : BookStep b l b') (he : b.envirs e = some envir) (hlt : e < b.fresh)
    (he' : b'.envirs e = some envir') : envir'.config = envir.config := by
  have hsame : b'.envirs = b.envirs → envir'.config = envir.config := by
    intro heq
    rw [heq, he, Option.some_inj] at he'
    rw [he']
  cases h with
  | fork parent child pid cpu leader k t c rb envir₁ hk hat hc hrb henvir hinherit =>
    by_cases heq : e = c.1.envir
    · subst heq
      obtain rfl := Option.some_inj.mp (henvir.symm.trans he)
      simp only [Book.addChild, Function.update_self, Option.some_inj] at he'
      subst he'
      rfl
    · simp only [Book.addChild, Function.update_of_ne heq] at he'
      rw [he, Option.some_inj] at he'
      rw [he']
  | register me pid envir₁ rb alloc halloc =>
    simp only [Book.addRoot, Function.update_of_ne (Nat.ne_of_lt hlt)] at he'
    rw [he, Option.some_inj] at he'
    rw [he']
  | unregister pid r c xs b' hr hc hpid hring hd =>
    rw [hd.envirs] at he'
    by_cases heq : e = r
    · simp [heq] at he'
    · rw [Function.update_of_ne heq, he, Option.some_inj] at he'
      rw [he']
  | _ => exact hsame rfl

/-- A task appears at the next free address. -/
theorem BookStep.entry_new {b b' : Book} {l : Label} {u : TaskId} (h : BookStep b l b')
    (hu : b.entry u = none) (hu' : b'.entry u ≠ none) : u = b.fresh := by
  have hsame : b'.entry = b.entry → u = b.fresh := fun heq => absurd (heq ▸ hu) hu'
  cases h with
  | fork parent child pid cpu leader k t c rb envir hk hat hc hrb henvir hinherit =>
    by_contra hne
    refine hu' ?_
    have hut : u ≠ t := by
      rintro rfl
      rw [hc] at hu
      cases hu
    simp only [Book.addChild, Function.update_of_ne hut, Function.update_of_ne hne, hu]
  | exit p i t c rb hi hat hc hrb =>
    have hut : u ≠ t := by
      rintro rfl
      rw [hc] at hu
      cases hu
    exact absurd (by simp only [Book.leave, Function.update_of_ne hut, hu]) hu'
  | register me pid envir rb alloc halloc =>
    by_contra hne
    exact hu' (by simp only [Book.addRoot, Function.update_of_ne hne, hu])
  | unregister pid r c xs b' hr hc hpid hring hd =>
    refine absurd ?_ hu'
    rw [hd.entry]
    split
    · rfl
    · exact hu
  | _ => exact hsame rfl

theorem BookStep.fresh_le {b b' : Book} {l : Label} (h : BookStep b l b') : b.fresh ≤ b'.fresh := by
  cases h with
  | fork => exact Nat.le_succ _
  | register => exact Nat.le_succ _
  | unregister pid r c xs b' hr hc hpid hring hd => exact Nat.le_of_eq hd.fresh.symm
  | _ => exact Nat.le_refl _

/-- The environment of a task is there, and stays as it was asked for. -/
theorem exists_config {s s' : State} {l : Label} {ring : TaskId → List TaskId} {t : TaskId}
    {task : SmonTask} {envir' : SmonEnvir} (hforest : Forest s.book ring)
    (hstep : s.exec l = .ok s') (htask : s.tasks t = some task)
    (henvir' : s'.envirs task.envir = some envir') :
    ∃ envir, s.envirs task.envir = some envir ∧ envir'.config = envir.config := by
  obtain ⟨hr, -⟩ := hforest.live t task.core (entry_of_tasks htask)
  obtain ⟨envir, he, -⟩ := hforest.count _ hr
  exact ⟨envir, he, (exec_book_step hforest hstep).config he
    (hforest.lt_fresh hr List.mem_cons_self) henvir'⟩

end SchedMon
