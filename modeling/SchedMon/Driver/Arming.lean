import SchedMon.Driver.Extra
import SchedMon.Driver.Steering
import SchedMon.Driver.Writers

/-!
# Who arms a timer

A RAPL timer is armed by one interrupt, which only the start of an extra part asks for; everything
else leaves it or cancels it. If no process exits before that interrupt has come, the timer is armed or
asked for only as long as the process of its task is monitored. The timer of a task in stat mode is never armed.

## Main definitions

* `Rests` — no RAPL timer is armed on the way
* `State.OnRapl` — a task is monitored, with RAPL records
* `State.Settled`, `SettledStep` — no process exits while its RAPL timer is yet to be armed
* `State.Still` — a task has no timer

## Main results

* `rests_of_exec` — what does not arm a RAPL timer
* `onRapl_of_armed` — **a RAPL timer is armed for monitored processes only**
* `still_of_stat` — **there is no timer in stat mode**
-/

namespace SchedMon

open State

/-! ### RAPL timers -/

/-- The RAPL timer of task `t` is queued. -/
def State.RaplArmed (s : State) (t : TaskId) : Prop :=
  ∃ task extra, s.tasks t = some task ∧ task.extra = some extra ∧ extra.raplTimer.active = true

/-- No RAPL timer is armed on the way, and none is asked for. -/
structure Rests (s s' : State) : Prop where
  armed : ∀ t, s'.RaplArmed t → s.RaplArmed t
  pending : ∀ c t, (c, .startRapl t) ∈ s'.irqs → (c, .startRapl t) ∈ s.irqs

theorem mem_queued {me c : Cpu} {irqs : List (Cpu × Irq)} {qs : List Irq} {w : Irq}
    (h : (c, w) ∈ queued me irqs qs) : (c, w) ∈ irqs ∨ w ∈ qs := by
  induction qs generalizing irqs with
  | nil => exact .inl h
  | cons q qs ih =>
    rcases ih h with hmem | hmem
    · dsimp only at hmem
      split at hmem
      · exact .inl hmem
      · rcases List.mem_append.mp hmem with hmem | hmem
        · exact .inl hmem
        · rw [List.mem_singleton, Prod.mk.injEq] at hmem
          exact .inr (hmem.2 ▸ List.mem_cons_self)
    · exact .inr (List.mem_cons_of_mem _ hmem)

namespace Rests

variable {s s' s'' : State} {t : TaskId} {me : Cpu} {task task' : SmonTask}

theorem refl (s : State) : Rests s s := ⟨fun _ => id, fun _ _ => id⟩

theorem trans (h : Rests s s') (h' : Rests s' s'') : Rests s s'' :=
  ⟨fun t ht => h.armed t (h'.armed t ht), fun c t ht => h.pending c t (h'.pending c t ht)⟩

/-- Every extra part was there before. -/
theorem of_extras (htasks : ∀ u task', s'.tasks u = some task' → task'.extra = none ∨
      ∃ task, s.tasks u = some task ∧ task'.extra = task.extra)
    (hirqs : s'.irqs = s.irqs) : Rests s s' := by
  refine ⟨fun u ⟨task', extra, htask', hextra, hactive⟩ => ?_, fun c u hmem => hirqs ▸ hmem⟩
  rcases htasks u task' htask' with hnone | ⟨task, htask, hsame⟩
  · exact absurd (hnone.symm.trans hextra) (by simp)
  · exact ⟨task, extra, htask, hsame.symm.trans hextra, hactive⟩

theorem of_eq (htasks : s'.tasks = s.tasks) (hirqs : s'.irqs = s.irqs) : Rests s s' :=
  of_extras (fun _ task' htask' => .inr ⟨task', htasks ▸ htask', rfl⟩) hirqs

/-- Writing a task back with its extra part as it was. -/
theorem of_setTask (htask : s.tasks t = some task) (hextra : task'.extra = task.extra) :
    Rests s (s.setTask t task') := by
  refine of_extras (fun u x hx => .inr ?_) rfl
  by_cases hu : u = t
  · subst hu
    simp only [setTask, Function.update_self, Option.some_inj] at hx
    exact ⟨task, htask, hx ▸ hextra⟩
  · simp only [setTask, Function.update_of_ne hu] at hx
    exact ⟨x, hx, rfl⟩

theorem of_call {es : List TraceEvent} {ws : List Sample} {qs : List Irq}
    (h : Call t me task task' es ws qs s s') (hextra : task'.extra = task.extra)
    (hqs : ∀ u, Irq.startRapl u ∉ qs) : Rests s s' := by
  have hset : Rests s (s.setTask t task') := .of_setTask h.before hextra
  refine ⟨fun u ⟨x, extra, hx, hrest⟩ => hset.armed u ⟨x, extra, ?_, hrest⟩, fun c u hmem => ?_⟩
  · rw [← hx, h.tasks]
    rfl
  · rw [h.irqs] at hmem
    exact (mem_queued hmem).resolve_right (hqs u)

/-- Writing an extra part back with a timer that is armed only if it was. -/
theorem of_setExtra {extra extra' : SmonTaskExtra} {s₁ : State} (hextra : s.extra t = .ok extra)
    (htasks : s₁.tasks = s.tasks) (hirqs : s₁.irqs = s.irqs)
    (himp : extra'.raplTimer.active = true → extra.raplTimer.active = true)
    (h : s₁.setExtra t extra' = .ok s') : Rests s s' := by
  obtain ⟨task, htask, hx⟩ := extra_eq_ok.mp hextra
  obtain ⟨task₁, -, rfl⟩ := setExtra_eq_ok.mp h
  refine ⟨fun u ⟨x, y, hux, hy, hactive⟩ => ?_, fun c u hmem => hirqs ▸ hmem⟩
  by_cases hu : u = t
  · subst hu
    simp only [setTask, Function.update_self, Option.some_inj] at hux
    subst hux
    obtain rfl := Option.some_inj.mp hy
    exact ⟨task, extra, htask, hx, himp hactive⟩
  · simp only [setTask, Function.update_of_ne hu, htasks] at hux
    exact ⟨x, y, hux, hy, hactive⟩

end Rests

section Functions

variable {s s' : State} {t : TaskId} {me : Cpu} {p : Proc} {ring : TaskId → List TaskId}

theorem rests_startTimerPmc (h : s.startTimerPmc me t = .ok s') : Rests s s' := by
  obtain ⟨task, envir, -, -, ⟨-, hcall⟩ | ⟨evset, -, hcall⟩⟩ := call_start h
  · exact .of_call hcall rfl (by simp)
  · exact .of_call hcall rfl (by simp)

theorem rests_stopTimerPmc (h : s.stopTimerPmc t = .ok s') : Rests s s' := by
  obtain ⟨task, -, hcall, -⟩ := call_stopTimerPmc 0 h
  exact .of_call hcall rfl (by simp)

theorem rests_smonSchedTaskIn (h : s.smonSchedTaskIn me t = .ok s') : Rests s s' := by
  obtain ⟨task, envir, -, -, ⟨-, hcall, -⟩ | ⟨-, ⟨-, hcall⟩ | ⟨evset, n, -, -, -, hcall⟩⟩⟩ :=
    call_in h
  · exact .of_call hcall (task.entered_extra ..) (by simp)
  · exact .of_call hcall (task.entered_extra ..) (by simp)
  · exact .of_call hcall (task.entered_extra ..) (by simp)

theorem rests_smonSchedTaskOut (h : s.smonSchedTaskOut me t = .ok s') : Rests s s' := by
  obtain ⟨task, envir, evset, tsc, pmc, -, -, -, -, -, hoff, hon⟩ := call_out h
  cases hactive : task.timer.active with
  | false => exact .of_call (hoff hactive) rfl (by simp)
  | true => exact .of_call (hon hactive).1 ((task.stopped tsc pmc).left_extra ..) (by simp)

theorem rests_smonSchedTimerTick (h : s.smonSchedTimerTick t = .ok s') : Rests s s' := by
  obtain ⟨task, htask, -⟩ := bind_eq_ok.mp h
  rw [task_eq_ok] at htask
  cases hflags : task.timerFlags with
  | false => exact .of_call (call_smonSchedTimerTick_off 0 htask hflags h).1 rfl (by simp)
  | true =>
    obtain ⟨envir, evset, tsc, pmc, next, -, -, -, -, -, rfl, ⟨-, hcall⟩ | ⟨evset', -, -, hcall⟩⟩ :=
      call_tick htask hflags h
    · exact .of_call hcall rfl (by simp)
    · exact .of_call hcall rfl (by simp)

theorem rests_cancelRapl (h : s.cancelRapl t = .ok s') : Rests s s' := by
  obtain ⟨extra, hextra, hset⟩ := bind_eq_ok.mp h
  exact .of_setExtra hextra (by rfl) (by rfl) (by simp [hrtimerCancel]) hset

theorem rests_smonSchedTimerRapl (h : s.smonSchedTimerRapl t = .ok s') : Rests s s' := by
  obtain ⟨extra, hextra, hset⟩ := bind_eq_ok.mp h
  dsimp only at hset
  split at hset
  · refine .of_setExtra hextra (by rfl) (by rfl) (by simp [hrtimerForward_active]) hset
  · exact .of_setExtra hextra (by rfl) (by rfl) (by simp [hrtimerCancel]) hset

theorem rests_smonReleaseRb (b : RbId) : Rests s (s.smonReleaseRb b) := by
  unfold smonReleaseRb
  dsimp only
  split <;> exact .of_eq rfl rfl

theorem rests_leave (h : s.leave t = .ok s') : Rests s s' := by
  obtain ⟨task, b, htask, -, rfl⟩ := leave_eq_ok.mp h
  have htask' : (s.smonReleaseRb b).tasks t = some task := by
    rw [← htask]
    unfold smonReleaseRb
    dsimp only
    split <;> rfl
  exact (rests_smonReleaseRb b).trans (.of_setTask htask' rfl)

/-- A request for the RAPL timer is the only thing that starting an extra part queues. -/
theorem rests_startExtra (h : s.startExtra me t = .ok s') :
    (∀ u, s'.RaplArmed u → s.RaplArmed u) ∧ ∀ c u, (c, .startRapl u) ∈ s'.irqs →
      (c, .startRapl u) ∈ s.irqs ∨ u = t ∧ ∃ task envir, s.tasks t = some task ∧
        s.envirs task.envir = some envir ∧ envir.options.rapl = true := by
  simp only [startExtra, bind_eq_ok, task_eq_ok, when_eq_ok] at h
  obtain ⟨task, htask, ⟨-, rfl⟩ | ⟨-, h⟩⟩ := h
  · exact ⟨fun _ => id, fun _ _ => .inl⟩
  simp only [smonTaskExtraStart, bind_eq_ok, task_eq_ok, envir_eq_ok] at h
  obtain ⟨task', htask', extra, hextra, envir, henvir, s₁, hset, h⟩ := h
  have hrests : Rests s s₁ := .of_setExtra hextra (by rfl) (by rfl) (by exact id) hset
  split at h
  · rename_i hrapl
    obtain rfl := pure_eq_ok.mp h
    refine ⟨?_, fun c u hmem => ?_⟩
    · rintro u ⟨x, y, hx, hrest⟩
      rw [tasks_irqWorkQueue] at hx
      exact hrests.armed u ⟨x, y, hx, hrest⟩
    · unfold irqWorkQueue at hmem
      split at hmem
      · exact .inl (hrests.pending c u hmem)
      · rcases List.mem_append.mp hmem with hmem | hmem
        · exact .inl (hrests.pending c u hmem)
        · rw [List.mem_singleton, Prod.mk.injEq, Irq.startRapl.injEq] at hmem
          exact .inr ⟨hmem.2, task', envir, htask', henvir, hrapl⟩
  · obtain rfl := pure_eq_ok.mp h
    exact ⟨hrests.armed, fun c u hmem => .inl (hrests.pending c u hmem)⟩

end Functions

/-! ### Events -/

section Events

variable {s s' : State} {t u : TaskId} {me : Cpu} {p : Proc} {l : Label} {ring : TaskId → List TaskId}
  {task task' : SmonTask}

theorem rests_switch {next : Proc} (h : s.exec (.switch me next) = .ok s') : Rests s s' := by
  obtain ⟨s₂, hswitch, hs⟩ := bind_eq_ok.mp h
  cases hs
  obtain ⟨mid, hout, hin⟩ := switch_cases hswitch
  have hfirst : Rests s mid := by
    rcases hout with ⟨-, rfl⟩ | ⟨t, -, hout⟩
    · exact .refl _
    · exact rests_smonSchedTaskOut hout
  have hlast : Rests mid s₂ := by
    rcases hin with ⟨-, rfl⟩ | ⟨t, -, hin⟩
    · exact .refl _
    · exact rests_smonSchedTaskIn hin
  exact (hfirst.trans hlast).trans (.of_eq rfl rfl)

theorem irqs_smonSampleWrite (rb : Option RbId) (sample : Sample) :
    (s.smonSampleWrite rb sample).irqs = s.irqs := by
  cases rb <;> rfl

theorem rests_migrate {dest : Cpu} (h : s.exec (.migrate p dest) = .ok s') : Rests s s' := by
  obtain ⟨s₁, hmigrate, hs⟩ := bind_eq_ok.mp h
  cases hs
  simp only [smonSchedMigrateTask, bind_eq_ok, whenFound_eq_ok] at hmigrate
  obtain ⟨found, -, ⟨rfl, rfl⟩ | ⟨t, rfl, hmigrate⟩⟩ := hmigrate
  · exact .of_eq rfl rfl
  simp only [pure_eq_ok] at hmigrate
  obtain ⟨task, -, envir, -, rfl⟩ := hmigrate
  split
  · exact .of_eq ((tasks_smonSampleWrite ..).trans rfl) ((irqs_smonSampleWrite ..).trans rfl)
  · exact .of_eq rfl rfl

/-- The new task of a fork has no extra part. -/
theorem rests_childAdded (h : ChildAdded s t p s') : Rests s s' := by
  obtain ⟨task, b, envir, s₁, task₁, -, -, -, hadd, htask₁, rfl⟩ := h.add
  simp only [addChild, bind_eq_ok, pure_eq_ok] at hadd
  obtain ⟨next, -, -, -, rfl⟩ := hadd
  have hnew : Rests s (s.newChild p task.envir envir b) := by
    refine .of_extras (fun u x hx => ?_) rfl
    by_cases hu : u = s.fresh
    · subst hu
      have hself : (s.newChild p task.envir envir b).tasks s.fresh =
          some (newTask p (s.kernel.pid p) task.envir b none) := Function.update_self ..
      obtain rfl := Option.some_inj.mp (hx.symm.trans hself)
      exact .inl rfl
    · have hother : (s.newChild p task.envir envir b).tasks u = s.tasks u :=
        Function.update_of_ne hu ..
      exact .inr ⟨x, hother.symm.trans hx, rfl⟩
  have hset : Rests (s.newChild p task.envir envir b) (State.setTask _ t
      { task₁ with nChildren := task₁.nChildren + 1 }) := .of_setTask htask₁ rfl
  exact (hnew.trans hset).trans (.of_eq rfl rfl)

theorem rests_fork {parent child : Proc} {pid : Pid} {cpu : Cpu} {leader alloc : Bool}
    (h : s.exec (.fork parent child pid cpu leader alloc) = .ok s') : Rests s s' := by
  simp only [State.exec, smonSchedProcessFork, bind_eq_ok, whenFound_eq_ok] at h
  obtain ⟨found, -, ⟨rfl, rfl⟩ | ⟨t, rfl, h⟩⟩ := h
  · exact .of_eq rfl rfl
  obtain ⟨task, -, envir, -, s₁, hinherit, h⟩ := h
  have hrecord : Rests s₁ s' := by
    split at h
    · rw [← pure_eq_ok.mp h]
      exact .of_eq ((tasks_smonSampleWrite (s := s₁.msrRdtsc.2) ..).trans rfl)
        ((irqs_smonSampleWrite (s := s₁.msrRdtsc.2) ..).trans rfl)
    · rw [← pure_eq_ok.mp h]
      exact .refl _
  have hkernel : Rests s (s.withKernel (s.kernel.step (.fork parent child pid cpu leader alloc))) :=
    .of_eq rfl rfl
  refine (hkernel.trans ?_).trans hrecord
  rcases when_eq_ok.mp hinherit with ⟨-, rfl⟩ | ⟨-, hregister⟩
  · exact .refl _
  rcases registerChild_cases hregister with ⟨-, rfl⟩ | ⟨-, hadd⟩
  · exact .refl _
  · exact rests_childAdded hadd

theorem rests_exit (h : s.exec (.exit p) = .ok s') : Rests s s' := by
  rcases exit_cases h with ⟨-, -, rfl⟩ | ⟨t, s₁, s₂, hexit⟩ | ⟨t, hexit⟩
  · exact .refl _
  · obtain ⟨-, ⟨task, s₀, htask, hstop, hsave⟩, hleave, ⟨task', -, hcancel⟩⟩ := hexit
    obtain ⟨envir, evset, tsc, pmc, -, -, -, -, -, hcall⟩ := call_exit htask hstop hsave
    have hsample : Rests s s₁ := .of_call hcall rfl (by simp)
    have hdel : Rests s₁ (s₁.delCpuList (s.kernel.cpu p) t) := .of_eq rfl rfl
    refine ((hsample.trans hdel).trans (rests_leave hleave)).trans ?_
    rcases when_eq_ok.mp hcancel with ⟨-, rfl⟩ | ⟨-, hcancel⟩
    · exact .refl _
    · exact rests_cancelRapl hcancel
  · have hdel : Rests s (s.delWaitList t) := .of_eq rfl rfl
    exact hdel.trans (rests_leave hexit.leave)

theorem rests_unregister {pid : Pid} (hforest : Forest s.book ring)
    (h : s.exec (.unregister pid) = .ok s') : Rests s s' := by
  obtain ⟨⟨ret, s₁⟩, hunregister, hs⟩ := bind_eq_ok.mp h
  cases hs
  simp only [smonSchedUnregisterTask, bind_eq_ok] at hunregister
  obtain ⟨found, hfound, hunregister⟩ := hunregister
  cases found with
  | none =>
    cases hunregister
    exact .refl _
  | some r =>
    obtain ⟨hr, -⟩ := findTask_some hfound
    obtain ⟨s₂, hs₂, hun⟩ := hforest.unregister hr
    simp only [hs₂, bind, Except.bind, pure, Except.pure, Except.ok.injEq, Prod.mk.injEq]
      at hunregister
    obtain ⟨-, rfl⟩ := hunregister
    refine .of_extras (fun u x hx => ?_) hun.irqs
    by_cases hu : u ∈ r :: ring r
    · rw [hun.tasks, if_pos hu] at hx
      cases hx
    · rw [hun.tasks, if_neg hu] at hx
      exact .inr ⟨x, hx, rfl⟩

/-- An event that does not start an extra part, and is not the interrupt it asks for. -/
def Label.Restful : Label → Prop
  | .irq _ (.startRapl _) | .exec _ | .register _ _ _ _ _ => False
  | _ => True

/-- **What does not arm a RAPL timer** does not ask for one either. -/
theorem rests_of_exec (hforest : Forest s.book ring) (hl : l.Restful) (h : s.exec l = .ok s') :
    Rests s s' := by
  cases l with
  | time d =>
    cases h
    exact .of_eq rfl rfl
  | count me ctr inc =>
    cases h
    exact .of_eq rfl rfl
  | irq me w =>
    have herase : Rests s { s with irqs := s.irqs.erase (me, w) } :=
      ⟨fun _ => id, fun _ _ hmem => List.mem_of_mem_erase hmem⟩
    cases w with
    | startTimer t => exact herase.trans (rests_startTimerPmc h)
    | stopTimer t => exact herase.trans (rests_stopTimerPmc h)
    | startRapl t => exact hl.elim
  | tick t => exact rests_smonSchedTimerTick h
  | raplTick t => exact rests_smonSchedTimerRapl h
  | switch me next => exact rests_switch h
  | migrate p dest => exact rests_migrate h
  | fork parent child pid cpu leader alloc => exact rests_fork h
  | exec p => exact hl.elim
  | exit p => exact rests_exit h
  | reap p =>
    cases h
    exact .of_eq rfl rfl
  | register me pid envir b alloc => exact hl.elim
  | unregister pid => exact rests_unregister hforest h

/-- The interrupt arms one timer. -/
theorem armed_startRapl (h : s.exec (.irq me (.startRapl t)) = .ok s') :
    (∀ u, s'.RaplArmed u → s.RaplArmed u ∨ u = t) ∧
      ∀ c u, (c, .startRapl u) ∈ s'.irqs → (c, .startRapl u) ∈ s.irqs := by
  obtain ⟨extra, hextra, hset⟩ := bind_eq_ok.mp h
  obtain ⟨task, htask, rfl⟩ := setExtra_eq_ok.mp hset
  refine ⟨fun u ⟨x, y, hx, hrest⟩ => ?_, fun c u hmem => List.mem_of_mem_erase hmem⟩
  by_cases hu : u = t
  · exact .inr hu
  · simp only [setTask, Function.update_of_ne hu] at hx
    exact .inl ⟨x, y, hx, hrest⟩

end Events

/-! ### Monitored tasks -/

/-- Task `t` is monitored, and there are RAPL records. -/
def State.OnRapl (s : State) (t : TaskId) : Prop :=
  ∃ task envir, s.tasks t = some task ∧ task.p.isSome = true ∧ t ∉ s.waitList ∧
    s.envirs task.envir = some envir ∧ envir.options.rapl = true

/-- The RAPL timer of a task is armed, or that is asked for, only while the task is monitored. -/
def State.RaplBound (s : State) : Prop :=
  ∀ t, (s.RaplArmed t ∨ ∃ c, (c, .startRapl t) ∈ s.irqs) → s.OnRapl t

/-- A process exits only when no interrupt is pending any more, on whatever CPU, that arms the RAPL
timer of its task. -/
def State.Settled (s : State) (l : Label) : Prop :=
  ∀ p c t task, l = .exit p → (c, .startRapl t) ∈ s.irqs → s.tasks t = some task → task.p ≠ some p

theorem State.Settled.of_ne {s : State} {l : Label} (h : ∀ p, l ≠ .exit p) : s.Settled l :=
  fun p _ _ _ heq => absurd heq (h p)

theorem State.Settled.of_irqs {s : State} (h : s.irqs = []) (l : Label) : s.Settled l := by
  intro p c t task _ hmem
  rw [h] at hmem
  cases hmem

/-- A step of a run in which the interrupts that arm RAPL timers come before the exits, and no process
that is monitored is unregistered. -/
structure SettledStep (s : State) (l : Label) (s' : State) : Prop where
  step : s.Step l s'
  settled : s.Settled l
  exited : ∀ pid, l = .unregister pid → ∀ t task, s.tasks t = some task → s'.tasks t = none →
    task.p = none

section Bound

variable {s s' s₀ : State} {t u : TaskId} {l : Label} {ls : List Label} {ring : TaskId → List TaskId}
  {task task' : SmonTask} {p : Proc}

/-- An event leaves a task to its process and in its environment, unless the process exits. -/
theorem BookStep.entry_keeps {b b' : Book} {c c' : TaskCore × Option RbId} (h : BookStep b l b')
    (hc : b.entry t = some c) (hc' : b'.entry t = some c') (hlt : t < b.fresh) :
    c'.1.envir = c.1.envir ∧ c'.1.pid = c.1.pid ∧ (c'.1.p = c.1.p ∧ c'.1.rb = c.1.rb ∨
      c'.1.p = none ∧ c'.1.rb = none ∧ ∃ p i, l = .exit p ∧ b.At i p t) := by
  have hsame : b'.entry t = b.entry t → c'.1.envir = c.1.envir ∧ c'.1.pid = c.1.pid ∧
      (c'.1.p = c.1.p ∧ c'.1.rb = c.1.rb ∨
        c'.1.p = none ∧ c'.1.rb = none ∧ ∃ p i, l = .exit p ∧ b.At i p t) := by
    intro heq
    rw [hc', hc, Option.some_inj] at heq
    subst heq
    exact ⟨rfl, rfl, .inl ⟨rfl, rfl⟩⟩
  cases h with
  | fork parent child pid cpu leader k u d rb envir hk hat hd =>
    by_cases hu : t = u
    · subst hu
      obtain rfl := Option.some_inj.mp (hd.symm.trans hc)
      simp only [Book.addChild, Function.update_self, Option.some_inj] at hc'
      subst hc'
      exact ⟨rfl, rfl, .inl ⟨rfl, rfl⟩⟩
    · refine hsame ?_
      simp only [Book.addChild, Function.update_of_ne hu, Function.update_of_ne (Nat.ne_of_lt hlt)]
  | exit p i u d rb hi hat hd hrb =>
    by_cases hu : t = u
    · subst hu
      obtain rfl := Option.some_inj.mp (hd.symm.trans hc)
      simp only [Book.leave, Function.update_self, Option.some_inj] at hc'
      subst hc'
      exact ⟨rfl, rfl, .inr ⟨rfl, rfl, p, i, rfl, hat⟩⟩
    · exact hsame (Function.update_of_ne hu ..)
  | register => exact hsame (Function.update_of_ne (Nat.ne_of_lt hlt) ..)
  | unregister pid r d xs b' hr hd hpid hring hdropped =>
    rw [hdropped.entry] at hc'
    split at hc'
    · cases hc'
    · refine hsame ?_
      rw [hdropped.entry, if_neg ‹_›]
  | _ => exact hsame rfl

/-- A task that keeps its process stays monitored. -/
theorem State.OnRapl.step (h : s.OnRapl t) (hforest : Forest s.book ring) (hstep : s.exec l = .ok s')
    (htask' : s'.tasks t = some task') (hp' : task'.p.isSome = true) : s'.OnRapl t := by
  obtain ⟨task, envir, htask, hp, hwait, henvir, hrapl⟩ := h
  have hkeeps := (exec_book_step hforest hstep).entry_keeps (entry_of_tasks htask)
    (entry_of_tasks htask') (lt_fresh_of_tasks hforest htask)
  have henvir' : task'.envir = task.envir := hkeeps.1
  have hsame : task'.p = task.p := by
    rcases hkeeps.2.2 with ⟨hsame, -⟩ | ⟨hnone, -⟩
    · exact hsame
    · have hnone' : task'.p = none := hnone
      rw [hnone'] at hp'
      cases hp'
  have hiff := mem_waitList_of_step hforest hstep htask htask' hsame
    fun q _ hfinds => hwait (findProc_some hfinds).1
  obtain ⟨ring', hforest'⟩ := hforest.step (exec_book_step hforest hstep)
  obtain ⟨hr, -⟩ := hforest'.live t task'.core (entry_of_tasks htask')
  obtain ⟨envir', he', -⟩ := hforest'.count _ hr
  have he'' : s'.envirs task'.envir = some envir' := he'
  obtain ⟨envir₀, he₀, hconfig⟩ := exists_config hforest hstep htask (henvir' ▸ he'')
  obtain rfl := Option.some_inj.mp (he₀.symm.trans henvir)
  have hoptions := congrArg SmonEnvir.options hconfig
  change envir'.options = envir₀.options at hoptions
  exact ⟨task', envir', htask', hp', fun hmem => hwait (hiff.mp hmem), he'', hoptions ▸ hrapl⟩

/-- Only `unregister` takes a task away. -/
theorem exists_task_of_step (hforest : Forest s.book ring) (hstep : s.exec l = .ok s')
    (htask : s.tasks t = some task) (hl : ∀ pid, l ≠ .unregister pid) :
    ∃ task', s'.tasks t = some task' := by
  by_contra hgone
  have hnone : s'.book.entry t = none := by
    cases htask' : s'.tasks t with
    | none => simp only [State.book, htask', Option.map_none]
    | some task' => exact absurd ⟨task', htask'⟩ hgone
  have hentry := entry_of_tasks htask
  have hbook := exec_book_step hforest hstep
  have hsame : s'.book.entry t ≠ s.book.entry t := fun heq =>
    absurd (hentry.symm.trans (heq.symm.trans hnone)) (by simp)
  generalize s'.book = b' at hbook hnone hsame
  cases hbook with
  | fork parent child pid cpu leader k u d rb envir hk hat hd =>
    by_cases hu : t = u
    · subst hu
      simp [Book.addChild] at hnone
    · have hne := Nat.ne_of_lt (lt_fresh_of_tasks hforest htask)
      refine hsame ?_
      simp only [Book.addChild, Function.update_of_ne hu]
      exact Function.update_of_ne hne ..
  | exit p i u d rb hi hat hd hrb =>
    by_cases hu : t = u
    · subst hu
      simp [Book.leave] at hnone
    · exact hsame (Function.update_of_ne hu ..)
  | register =>
    exact hsame (Function.update_of_ne (Nat.ne_of_lt (lt_fresh_of_tasks hforest htask)) ..)
  | unregister pid => exact hl pid rfl
  | _ => exact hsame rfl

/-- A task that `unregister` takes away has exited, if the step is allowed. -/
theorem exited_of_unregister {pid : Pid} (hforest : Forest s.book ring)
    (hallows : s.Allows (.unregister pid)) (h : s.exec (.unregister pid) = .ok s')
    (htask : s.tasks t = some task) (hgone : s'.tasks t = none) : task.p = none := by
  obtain ⟨⟨ret, s₁⟩, hunregister, hs⟩ := bind_eq_ok.mp h
  cases hs
  simp only [smonSchedUnregisterTask, bind_eq_ok] at hunregister
  obtain ⟨found, hfound, hunregister⟩ := hunregister
  cases found with
  | none =>
    cases hunregister
    exact absurd (htask.symm.trans hgone) (by simp)
  | some r =>
    obtain ⟨hr, root, hroot, hpid⟩ := findTask_some hfound
    obtain ⟨s₂, hs₂, hun⟩ := hforest.unregister hr
    simp only [hs₂, bind, Except.bind, pure, Except.pure, Except.ok.injEq, Prod.mk.injEq]
      at hunregister
    obtain ⟨-, rfl⟩ := hunregister
    have hmem : t ∈ r :: ring r := by
      by_contra hnot
      rw [hun.tasks, if_neg hnot] at hgone
      exact absurd (htask.symm.trans hgone) (by simp)
    rw [List.mem_cons, hforest.descent r hr, descends_book] at hmem
    have hdead := hallows r hr root hroot (by simpa using hpid) t hmem
    simpa [alive, htask] using hdead

/-- A task is monitored until its process exits or it is unregistered. -/
theorem State.OnRapl.kept (h : s.OnRapl t) (hforest : Forest s.book ring) (hstep : s.exec l = .ok s')
    (hl : ∀ pid, l ≠ .unregister pid) (hexit : ∀ p, l ≠ .exit p) : s'.OnRapl t := by
  obtain ⟨task, envir, htask, hp, hrest⟩ := h
  obtain ⟨task', htask'⟩ := exists_task_of_step hforest hstep htask hl
  have hkeeps := (exec_book_step hforest hstep).entry_keeps (entry_of_tasks htask)
    (entry_of_tasks htask') (lt_fresh_of_tasks hforest htask)
  rcases hkeeps.2.2 with ⟨hsame, -⟩ | ⟨-, -, q, i, hq, -⟩
  · have hp' : task'.p = task.p := hsame
    exact State.OnRapl.step ⟨task, envir, htask, hp, hrest⟩ hforest hstep htask' (hp' ▸ hp)
  · exact absurd hq (hexit q)

theorem tasks_leave (h : s.leave t = .ok s') (hu : u ≠ t) : s'.tasks u = s.tasks u := by
  obtain ⟨task, b, -, -, rfl⟩ := leave_eq_ok.mp h
  simp only [setTask, Function.update_of_ne hu]
  unfold smonReleaseRb
  dsimp only
  split <;> rfl

theorem ExitedRunning.others {s₁ s₂ : State} (h : ExitedRunning s p t s₁ s₂ s') (hu : u ≠ t) :
    s'.tasks u = s.tasks u := by
  have hleave := (tasks_leave h.leave hu).trans (h.quiet.others u hu)
  exact (h.quiet_cancel.others u hu).trans hleave

theorem ExitedWaiting.others (h : ExitedWaiting s p t s') (hu : u ≠ t) :
    s'.tasks u = s.tasks u := tasks_leave (s := s.delWaitList t) h.leave hu

/-- The RAPL timer of a task that exits is cancelled. -/
theorem ExitedRunning.not_armed {s₁ s₂ : State} (h : ExitedRunning s p t s₁ s₂ s') :
    ¬ s'.RaplArmed t := by
  obtain ⟨task, htask, hcancel⟩ := h.cancel
  rintro ⟨x, extra, hx, hextra, hactive⟩
  rcases when_eq_ok.mp hcancel with ⟨hnone, rfl⟩ | ⟨-, hcancel⟩
  · -- a task without an extra part had none before
    obtain ⟨task₀, s₀, htask₀, hstop, hsave⟩ := h.sample
    obtain ⟨envir, evset, tsc, pmc, -, -, -, -, -, hcall⟩ := call_exit htask₀ hstop hsave
    have hdel : Rests s₁ (s₁.delCpuList (s.kernel.cpu p) t) := .of_eq rfl rfl
    have hsample : Rests s s₁ := .of_call hcall rfl (by simp)
    obtain ⟨y, extra', hy, hextra', -⟩ := ((hsample.trans hdel).trans (rests_leave h.leave)).armed t
      ⟨x, extra, hx, hextra, hactive⟩
    obtain rfl := Option.some_inj.mp (hy.symm.trans htask)
    simp [hextra'] at hnone
  · obtain ⟨extra₂, -, hset⟩ := bind_eq_ok.mp hcancel
    obtain ⟨task₂, -, rfl⟩ := setExtra_eq_ok.mp hset
    simp only [setTask, Function.update_self, Option.some_inj] at hx
    subst hx
    obtain rfl := Option.some_inj.mp hextra
    cases hactive

/-- An extra part is started for a task that is not waiting any more. -/
theorem RaplBound.exec (hb : s.RaplBound) (hforest : Forest s.book ring) (hlisted : Listed s.book)
    (hstep : s.exec (.exec p) = .ok s') : s'.RaplBound := by
  have hkept : ∀ u, s.OnRapl u → s'.OnRapl u := fun u hu => hu.kept hforest hstep (by simp) (by simp)
  rcases exec_cases hstep with ⟨-, rfl⟩ | ⟨t, s₁, s₂, hfound, hextra, hin, rfl⟩
  · exact hb
  obtain ⟨harmed, hasked⟩ := rests_startExtra hextra
  have hrests := (rests_smonSchedTaskIn hin).trans
    (.of_eq rfl rfl : Rests s₂ (s₂.addCpuList (s.kernel.cpu p) t))
  rintro u (hu | ⟨c, hc⟩)
  · exact hkept u (hb u (.inl (harmed u (hrests.armed u hu))))
  · rcases hasked c u (hrests.pending c u hc) with hmem | ⟨rfl, task, envir, htask, henvir, hrapl⟩
    · exact hkept u (hb u (.inr ⟨c, hmem⟩))
    · obtain ⟨task', htask', hp', hnot⟩ := exists_task_exec hlisted hstep hfound
      have hkeeps := (exec_book_step hforest hstep).entry_keeps (entry_of_tasks (s := s) htask)
        (entry_of_tasks htask') (lt_fresh_of_tasks hforest htask)
      have henvir' : task'.envir = task.envir := hkeeps.1
      have henvirs := (quiet_smonSchedTaskIn (K := fun _ => True) hin).envirs.trans
        (startExtra_cases hextra).quiet.envirs
      refine ⟨task', envir, htask', by rw [hp']; rfl, hnot, ?_, hrapl⟩
      rw [henvir', ← henvir]
      exact congrFun henvirs task.envir

/-- An extra part is started for a new task that does not wait. -/
theorem RaplBound.register {me : Cpu} {pid : Pid} {envir : SmonEnvir} {b : RbId} {alloc : Alloc}
    (hb : s.RaplBound) (hforest : Forest s.book ring) (hlisted : Listed s.book)
    (hstep : s.exec (.register me pid envir b alloc) = .ok s') : s'.RaplBound := by
  have hkept : ∀ u, s.OnRapl u → s'.OnRapl u := fun u hu => hu.kept hforest hstep (by simp) (by simp)
  have hstep' := hstep
  obtain ⟨⟨ret, s₁⟩, hregister, hs⟩ := bind_eq_ok.mp hstep
  cases hs
  rcases register_cases hregister with ⟨-, -, rfl⟩ | ⟨-, -, s₀, rfl, hwait, hstart⟩
  · exact hb
  obtain ⟨-, htasks, hfresh⟩ := aside_setBatch 0 s envir b
  have hroot : (s.newRoot pid envir b).tasks = Function.update s.tasks s.fresh
      (some (newTask (s.kernel.forEachProcess pid) pid s.fresh b
        (some (smonTaskExtraCreate (smonCreateEnvir envir) b)))) := by
    simp only [State.newRoot, State.install, htasks, hfresh]
  have hirqs : (s.newRoot pid envir b).irqs = s.irqs := by
    unfold State.newRoot setBatch
    split <;> rfl
  -- the new timer is not armed
  generalize hx : ({ s.newRoot pid envir b with
    taskList := s.fresh :: (s.newRoot pid envir b).taskList } : State) = x at hwait hstart
  have hxtasks : x.tasks = Function.update s.tasks s.fresh
      (some (newTask (s.kernel.forEachProcess pid) pid s.fresh b
        (some (smonTaskExtraCreate (smonCreateEnvir envir) b)))) := by rw [← hx, ← hroot]
  have hxirqs : x.irqs = s.irqs := by rw [← hx, ← hirqs]
  have hnew : ∀ u, (x.RaplArmed u ∨ ∃ c, (c, .startRapl u) ∈ x.irqs) → s.OnRapl u := by
    rintro u (⟨y, extra, hy, hextra, hactive⟩ | ⟨c, hc⟩)
    · rw [hxtasks] at hy
      by_cases hu : u = s.fresh
      · subst hu
        rw [Function.update_self, Option.some_inj] at hy
        subst hy
        obtain rfl := Option.some_inj.mp hextra
        cases hactive
      · rw [Function.update_of_ne hu] at hy
        exact hb u (.inl ⟨y, extra, hy, hextra, hactive⟩)
    · exact hb u (.inr ⟨c, hxirqs ▸ hc⟩)
  cases hexec : envir.options.onExec with
  | true =>
    obtain rfl := hwait hexec
    exact fun u hu => hkept u (hnew u hu)
  | false =>
    obtain ⟨s₂, hextra, rfl⟩ := hstart hexec
    obtain ⟨harmed, hasked⟩ := rests_startExtra hextra
    rintro u (hu | ⟨c, hc⟩)
    · exact hkept u (hnew u (.inl (harmed u hu)))
    · rcases hasked c u hc with hmem | ⟨rfl, task, envir', htask, henvir, hrapl⟩
      · exact hkept u (hnew u (.inr ⟨c, hmem⟩))
      · have hquiet := (startExtra_cases hextra).quiet
        obtain ⟨task', htask', hcore⟩ := hquiet.exists_task htask
        rw [hxtasks, Function.update_self, Option.some_inj] at htask
        subst htask
        refine ⟨task', envir', htask', by rw [hcore]; rfl, ?_, ?_, hrapl⟩
        · change s.fresh ∉ s₂.waitList
          have hxwait : x.waitList = s.waitList := by
            rw [← hx]
            exact congrArg Static.waitList (setBatch_static (s := s.smonGetRb b) envir.batchSize)
          rw [hquiet.waitList, hxwait]
          exact hlisted.not_mem_fresh .waiting
        · rw [hcore]
          exact (congrFun hquiet.envirs _).trans henvir

/-- **A RAPL timer stays with a monitored process.** -/
theorem RaplBound.step (hb : s.RaplBound) (hforest : Forest s.book ring) (hlisted : Listed s.book)
    (h : SettledStep s l s') : s'.RaplBound := by
  obtain ⟨⟨henabled, hstep⟩, hsettled, hexited⟩ := h
  have hrest : l.Restful → (∀ pid, l ≠ .unregister pid) → (∀ p, l ≠ .exit p) → s'.RaplBound := by
    intro hl hunregister hexit u hu
    have hrests := rests_of_exec hforest hl hstep
    have hbefore : s.RaplArmed u ∨ ∃ c, (c, .startRapl u) ∈ s.irqs :=
      hu.imp (hrests.armed u) fun ⟨c, hc⟩ => ⟨c, hrests.pending c u hc⟩
    exact (hb u hbefore).kept hforest hstep hunregister hexit
  cases l with
  | exec p => exact RaplBound.exec hb hforest hlisted hstep
  | register me pid envir b alloc => exact RaplBound.register hb hforest hlisted hstep
  | irq me w =>
    cases w with
    | startRapl t =>
      obtain ⟨harmed, hpending⟩ := armed_startRapl hstep
      have hme : (me, .startRapl t) ∈ s.irqs := henabled
      intro u hu
      refine State.OnRapl.kept (hb u ?_) hforest hstep (by simp) (by simp)
      rcases hu with hu | ⟨c, hc⟩
      · rcases harmed u hu with hu | rfl
        · exact .inl hu
        · exact .inr ⟨me, hme⟩
      · exact .inr ⟨c, hpending c u hc⟩
    | startTimer t => exact hrest trivial (by simp) (by simp)
    | stopTimer t => exact hrest trivial (by simp) (by simp)
  | exit p =>
    have hrests := rests_exit hstep
    intro u hu
    have hon : s.OnRapl u :=
      hb u (hu.imp (hrests.armed u) fun ⟨c, hc⟩ => ⟨c, hrests.pending c u hc⟩)
    -- a task whose process stays is as it was
    have hsame : s'.tasks u = s.tasks u → s'.OnRapl u := by
      intro heq
      obtain ⟨task, envir, htask, hp, hrest⟩ := hon
      exact State.OnRapl.step ⟨task, envir, htask, hp, hrest⟩ hforest hstep (heq.trans htask) hp
    rcases exit_cases hstep with ⟨-, -, rfl⟩ | ⟨t, s₁, s₂, hexit⟩ | ⟨t, hexit⟩
    · exact hon
    · by_cases hut : u = t
      · subst hut
        rcases hu with hu | ⟨c, hc⟩
        · exact absurd hu hexit.not_armed
        · obtain ⟨-, task, htask, hp⟩ := findProc_some hexit.found
          exact absurd hp (hsettled p c u task rfl (hrests.pending c u hc) htask)
      · exact hsame (hexit.others hut)
    · have hut : u ≠ t := by
        rintro rfl
        obtain ⟨-, -, -, -, hnot, -⟩ := hon
        exact hnot (findProc_some hexit.found).1
      exact hsame (hexit.others hut)
  | unregister pid =>
    have hrests := rests_unregister hforest hstep
    intro u hu
    have hon := hb u (hu.imp (hrests.armed u) fun ⟨c, hc⟩ => ⟨c, hrests.pending c u hc⟩)
    obtain ⟨task, envir, htask, hp, hrest⟩ := hon
    cases htask' : s'.tasks u with
    | none =>
      rw [hexited pid rfl u task htask htask'] at hp
      cases hp
    | some task' =>
      have hkeeps := (exec_book_step hforest hstep).entry_keeps (entry_of_tasks htask)
        (entry_of_tasks htask') (lt_fresh_of_tasks hforest htask)
      rcases hkeeps.2.2 with ⟨hsame, -⟩ | ⟨-, -, q, i, hq, -⟩
      · have hp' : task'.p = task.p := hsame
        exact State.OnRapl.step ⟨task, envir, htask, hp, hrest⟩ hforest hstep htask' (hp' ▸ hp)
      · cases hq
  | _ => exact hrest trivial (by simp) (by simp)

theorem Initial.raplBound (h : s₀.Initial) : s₀.RaplBound := by
  rintro t (⟨task, -, htask, -⟩ | ⟨c, hc⟩)
  · rw [h.tasks t] at htask
    cases htask
  · rw [h.irqs] at hc
    cases hc

/-- **A RAPL timer is armed for monitored processes only**, and so is the request for that: in
every run in which no process exits before an interrupt that arms its timer has come, and nobody is
unregistered before the exit. -/
theorem onRapl_of_armed (run : Run SettledStep s₀ ls s) (init : s₀.Initial) : s.RaplBound := by
  refine (run.invariant (motive := fun s => (∃ ring, Forest s.book ring) ∧ Listed s.book ∧
    s.RaplBound) ⟨⟨_, Initial.forest init⟩, Initial.listed init, Initial.raplBound init⟩ ?_).2.2
  rintro s l s' ⟨⟨ring, hforest⟩, hlisted, hb⟩ h
  have hbook := exec_book_step hforest h.step.2
  exact ⟨hforest.step hbook, hlisted.step hbook, RaplBound.step hb hforest hlisted h⟩

/-- An environment that asks for RAPL records. -/
def measured : SmonEnvir :=
  { inheriting with options := ⟨false, false, true, false, false, false, false⟩ }

/-- The process is switched in before its timer is armed, and it is switched out while it is. -/
theorem onRapl_of_armed_measured : ∃ s, Run SettledStep (boot [] [fixedOnly])
      [.register 0 1 measured 0 ⟨true, true, true⟩, .switch 0 1, .irq 0 (.startRapl 0), .switch 0 0] s ∧
    s.RaplArmed 0 ∧ s.RaplBound := by
  have run : Run SettledStep (boot [] [fixedOnly])
      [.register 0 1 measured 0 ⟨true, true, true⟩, .switch 0 1, .irq 0 (.startRapl 0), .switch 0 0] _ :=
    .cons ⟨⟨trivial, rfl⟩, .of_ne (by simp), by simp⟩ <|
      .cons ⟨⟨trivial, rfl⟩, .of_ne (by simp), by simp⟩ <|
      .cons ⟨⟨by decide, rfl⟩, .of_ne (by simp), by simp⟩ <|
      .cons ⟨⟨trivial, rfl⟩, .of_ne (by simp), by simp⟩ .nil
  exact ⟨_, run, ⟨_, _, rfl, rfl, rfl⟩, onRapl_of_armed run (initial_boot ..)⟩

end Bound

/-! ### Stat mode -/

/-- The timer of task `t` is not queued, and no interrupt will start it. -/
structure State.Still (s : State) (t : TaskId) : Prop where
  timer : ∀ task, s.tasks t = some task → task.timer.active = false
  pending : ∀ c, (c, .startTimer t) ∉ s.requests t

/-- Task `t` is in stat mode. -/
def State.InStat (s : State) (t : TaskId) : Prop :=
  ∃ task envir, s.tasks t = some task ∧ s.envirs task.envir = some envir ∧
    envir.options.stat = true

section Stat

variable {s s' s₀ : State} {t : TaskId} {me : Cpu} {l : Label} {ls : List Label}
  {ring : TaskId → List TaskId} {task task' : SmonTask}

namespace State.Still

theorem of_aside (h : s.Still t) (haside : Aside t s s') : s'.Still t := by
  refine ⟨fun task' htask' => ?_, fun c => haside.requests ▸ h.pending c⟩
  obtain ⟨task, htask, hagrees⟩ := haside.task_before htask'
  rw [hagrees.timer]
  exact h.timer task htask

theorem of_call {es : List TraceEvent} {ws : List Sample} {qs : List Irq} (h : s.Still t)
    (hcall : Call t me task task' es ws qs s s') (htimer : task'.timer.active = false)
    (hqs : Irq.startTimer t ∉ qs) : s'.Still t := by
  refine ⟨fun x hx => ?_, fun c hmem => ?_⟩
  · rw [Option.some_inj.mp (hx.symm.trans hcall.after)]
    exact htimer
  · rw [mem_requests_start, hcall.irqs] at hmem
    exact (mem_queued hmem).elim (fun hmem => h.pending c (mem_requests_start.mpr hmem)) hqs

/-- A task that is still when it is switched out is still. -/
theorem out (h : s.Still t) (hout : s.smonSchedTaskOut me t = .ok s') : s'.Still t := by
  obtain ⟨task, envir, evset, tsc, pmc, htask, -, -, -, -, hoff, -⟩ := call_out hout
  have hinactive := h.timer task htask
  exact h.of_call (hoff hinactive) hinactive (by simp)

/-- In stat mode nothing asks for the timer when the task is switched in. -/
theorem enter (h : s.Still t) (hstat : s.InStat t) (hin : s.smonSchedTaskIn me t = .ok s') :
    s'.Still t := by
  obtain ⟨task, envir, htask, henvir, hcall⟩ := call_in hin
  obtain ⟨x, envir', hx, henvir', hstat⟩ := hstat
  obtain rfl := Option.some_inj.mp (hx.symm.trans htask)
  obtain rfl := Option.some_inj.mp (henvir'.symm.trans henvir)
  have htimer : ∀ tsc, (x.entered envir' me tsc).timer = x.timer := by
    intro tsc
    unfold SmonTask.entered
    split <;> rfl
  have hinactive : ∀ tsc, (x.entered envir' me tsc).timer.active = false := fun tsc =>
    (congrArg Hrtimer.active (htimer tsc)).trans (h.timer x htask)
  rcases hcall with ⟨hno, -⟩ | ⟨-, ⟨-, hcall⟩ | ⟨evset, n, -, -, -, hcall⟩⟩
  · exact absurd (hstat.symm.trans hno) (by simp)
  · exact h.of_call hcall (hinactive _) (by simp)
  · exact h.of_call hcall (hinactive _) (by simp)

/-- A task whose process goes. -/
theorem departed (h : s.Still t) (hdeparted : Departed t s s') : s'.Still t := by
  obtain ⟨task, htask, haside⟩ := hdeparted
  refine State.Still.of_aside (s := s.setTask t { task with p := none, rb := none }) ?_ haside
  refine ⟨fun x hx => ?_, h.pending⟩
  simp only [setTask, Function.update_self, Option.some_inj] at hx
  subst hx
  exact h.timer task htask

end State.Still

theorem State.InStat.aside (h : s.InStat t) (haside : Aside t s s') (henvirs : s'.envirs = s.envirs) :
    s'.InStat t := by
  obtain ⟨task, envir, htask, henvir, hstat⟩ := h
  obtain ⟨task', htask', hagrees⟩ := haside.exists_task htask
  exact ⟨task', envir, htask', by rw [hagrees.envir, henvirs, henvir], hstat⟩

theorem State.InStat.quiet {K : Sample → Prop} (h : s.InStat t) (hquiet : Quiet K t s s') :
    s'.InStat t := by
  obtain ⟨task, envir, htask, henvir, hstat⟩ := h
  obtain ⟨task', htask', hcore⟩ := hquiet.exists_task htask
  exact ⟨task', envir, htask', by rw [hcore, hquiet.envirs, henvir], hstat⟩

/-- A task that is there was in stat mode before, if it is after. -/
theorem State.InStat.before (h : s'.InStat t) (hforest : Forest s.book ring)
    (hstep : s.exec l = .ok s') (htask : s.tasks t = some task) : s.InStat t := by
  obtain ⟨task', envir', htask', henvir', hstat⟩ := h
  have hkeeps := (exec_book_step hforest hstep).entry_keeps (entry_of_tasks htask)
    (entry_of_tasks htask') (lt_fresh_of_tasks hforest htask)
  have henvir : task'.envir = task.envir := hkeeps.1
  obtain ⟨envir, he, hconfig⟩ := exists_config hforest hstep htask (henvir ▸ henvir')
  have hoptions := congrArg SmonEnvir.options hconfig
  change envir'.options = envir.options at hoptions
  exact ⟨task, envir, htask, he, hoptions ▸ hstat⟩

/-- A task in stat mode stays still. -/
theorem still_step (h : s.InStat t → s.Still t) (hforest : Forest s.book ring) (hunborn : s.Unborn)
    (hstep : s.Step l s') (hstat' : s'.InStat t) : s'.Still t := by
  obtain ⟨henabled, hexec⟩ := hstep
  have hold : ∀ task, s.tasks t = some task → s.InStat t ∧ s.Still t := fun task htask =>
    have hstat := hstat'.before hforest hexec htask
    ⟨hstat, h hstat⟩
  cases exec_turn hforest t hexec with
  | idle hidle haside =>
    obtain ⟨task', envir', htask', -⟩ := hstat'
    obtain ⟨task, htask, -⟩ := haside.task_before htask'
    exact (hold task htask).2.of_aside haside
  | time d =>
    obtain ⟨task, envir, htask, -⟩ := hstat'
    exact ⟨(hold task htask).2.timer, (hold task htask).2.pending⟩
  | count me ctr inc =>
    obtain ⟨task, envir, htask, -⟩ := hstat'
    exact ⟨(hold task htask).2.timer, (hold task htask).2.pending⟩
  | @start me s' hstart =>
    obtain ⟨task, envir, s₁, htask, -⟩ := call_startTimerPmc hstart
    exact absurd (mem_requests_start.mpr henabled) ((hold task htask).2.pending me)
  | @stop me s' hstop =>
    obtain ⟨task, htask, hcall, -⟩ := call_stopTimerPmc me hstop
    have hstill := (hold task htask).2
    have herased : ({ s with irqs := s.irqs.erase (me, .stopTimer t) } : State).Still t := by
      refine ⟨hstill.timer, fun c hmem => ?_⟩
      rw [requests_erase] at hmem
      exact hstill.pending c (List.mem_of_mem_erase hmem)
    exact herased.of_call hcall rfl (by simp)
  | tick htick =>
    obtain ⟨task, htask, -⟩ := bind_eq_ok.mp htick
    rw [task_eq_ok] at htask
    have hdue : (s.tasks t).any (fun task => task.timer.due s.now) = true := henabled
    have hinactive := (hold task htask).2.timer task htask
    simp [htask, Hrtimer.due, hinactive] at hdue
  | out hfound hnext hout haside =>
    obtain ⟨-, task, htask, -⟩ := findProc_some hfound
    exact ((hold task htask).2.out hout).of_aside haside
  | enter hprev hfound h₁ henvirs hin h₂ hmsr =>
    obtain ⟨-, task, htask, -⟩ := findProc_some hfound
    obtain ⟨hstat, hstill⟩ := hold task htask
    exact ((hstill.of_aside h₁).enter (hstat.aside h₁ henvirs) hin).of_aside h₂
  | again hfound hnext hout hin h₂ =>
    obtain ⟨-, task, htask, -⟩ := findProc_some hfound
    obtain ⟨hstat, hstill⟩ := hold task htask
    have hquiet : Quiet (fun _ => True) t s _ :=
      quiet_smonSchedTaskOut (fun _ => trivial) (fun _ => trivial) hout
    exact ((hstill.out hout).enter (hstat.quiet hquiet) hin).of_aside h₂
  | exec hfound h₁ henvirs hin h₂ hmsr =>
    obtain ⟨-, task, htask, -⟩ := findProc_some hfound
    obtain ⟨hstat, hstill⟩ := hold task htask
    exact ((hstill.of_aside h₁).enter (hstat.aside h₁ henvirs) hin).of_aside h₂
  | exit hfound htask hstop hsave hdeparted =>
    obtain ⟨envir, evset, tsc, pmc, -, -, -, -, -, hcall⟩ := call_exit htask hstop hsave
    exact ((hold _ htask).2.of_call hcall rfl (by simp)).departed hdeparted
  | leave hnot hfound hdeparted =>
    obtain ⟨-, task, htask, -⟩ := findProc_some hfound
    exact (hold task htask).2.departed hdeparted
  | new hcomes hborn =>
    obtain ⟨pid, e, b, extra, task, htask, hagrees⟩ := hborn.exists_task
    obtain ⟨rfl, -, _, _, _, _, haside⟩ := hborn
    have hrequests : s'.requests s.fresh = [] :=
      haside.requests.trans (hunborn s.fresh (Nat.le_refl _)).1
    refine ⟨fun x hx => ?_, by simp [hrequests]⟩
    rw [Option.some_inj.mp (hx.symm.trans htask), hagrees.timer]
    rfl
  | gone hlt hgone htrace =>
    obtain ⟨task', envir', htask', -⟩ := hstat'
    exact absurd (hgone.symm.trans htask') (by simp)

theorem Initial.unborn (h : s₀.Initial) : s₀.Unborn := fun u _ =>
  ⟨by simp [State.requests, h.irqs], by simp [h.trace]⟩

/-- **There is no timer in stat mode**: no task in stat mode ever has its timer queued, and no
interrupt is pending that would start it. -/
theorem still_of_stat (run : Run State.Step s₀ ls s) (init : s₀.Initial) (hstat : s.InStat t) :
    s.Still t := by
  refine (run.invariant (motive := fun s => (∃ ring, Forest s.book ring) ∧ s.Unborn ∧
    (s.InStat t → s.Still t)) ⟨⟨_, Initial.forest init⟩, Initial.unborn init, ?_⟩ ?_).2.2 hstat
  · rintro ⟨task, -, htask, -⟩
    rw [init.tasks t] at htask
    cases htask
  · rintro s l s' ⟨⟨ring, hforest⟩, hunborn, h⟩ hstep
    exact ⟨hforest.step (exec_book_step hforest hstep.2), Unborn.step hforest hunborn hstep.2,
      still_step h hforest hunborn hstep⟩

/-- An environment in stat mode. -/
def counting : SmonEnvir :=
  { inheriting with options := ⟨false, false, false, false, false, false, true⟩ }

theorem still_of_stat_counting : ∃ s, Run State.Step (boot [] [fixedOnly])
    [.register 0 1 counting 0 ⟨true, true, true⟩, .switch 0 1] s ∧ s.InStat 0 ∧ s.Still 0 := by
  have run : Run State.Step (boot [] [fixedOnly])
      [.register 0 1 counting 0 ⟨true, true, true⟩, .switch 0 1] _ :=
    .cons ⟨trivial, rfl⟩ <| .cons ⟨trivial, rfl⟩ .nil
  exact ⟨_, run, ⟨_, _, rfl, rfl, rfl⟩, still_of_stat run (initial_boot ..) ⟨_, _, rfl, rfl, rfl⟩⟩

end Stat

end SchedMon
