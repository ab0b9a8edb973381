import SchedMon.Driver.Turn
import SchedMon.Driver.Descendants

/-!
# Deferred timer requests

A hook does not start or stop the timer of a task itself: it queues an interrupt on its CPU, and
that may be late. A slice of a process is a time on one CPU. The request to start the timer is meant
for the slice that begins, the one to stop it for the slice that ends; but neither says which, and
both work on the one timer of the task.

`smon_sched_timer_tick` looks at `SMON_TIMER_ON` before it touches the timer; `stop_timer_pmc` does
not. So a request to stop that comes after the next start stops the wrong timer, and only then.

## Main definitions

* `Delivered` — whose start request has been delivered in the slice that lasts
* `Ticking` — the timers run that should
* `InOrder` — an interrupt comes in its slice

## Main results

* `ticking_iff_inOrder` — **the timers run in exactly the runs whose requests come in order**
* `not_ticking_late` — a stop request that waits on the old CPU
-/

namespace SchedMon

open State

/-! ### Slices -/

/-- The event begins or ends a slice of task `t`, whose process is `p`. An `exec` begins one for a task
that waits for it, and goes by in the slice of any other. -/
def Label.cuts (s : State) (t : TaskId) (p : Proc) : Label → Bool
  | switch me next => p = s.kernel.curr me ∨ p = next
  | migrate q _ => p = q
  | fork _ child _ _ _ _ => p = child
  | exec q => p = q ∧ t ∈ s.waitList
  | exit q => p = q
  | _ => false

/-- The tasks whose start request has been delivered in the slice that lasts. -/
abbrev Delivered := TaskId → Bool

/-- An event delivers a start request, or it begins or ends slices. -/
def Delivered.write (s : State) (l : Label) (_ : State) (d : Delivered) : Delivered :=
  match l with
  | .irq _ (.startTimer u) => Function.update d u true
  | l => fun t => d t && !(s.tasks t).any fun task => task.p.any fun p => l.cuts s t p

/-- The process of a task outside of stat mode is on a CPU. -/
def State.OnCpu (s : State) (t : TaskId) : Prop :=
  ∃ task envir p, s.tasks t = some task ∧ s.envirs task.envir = some envir ∧
    envir.options.stat = false ∧ task.p = some p ∧ s.kernel.curr (s.kernel.cpu p) = p

/-- Where the process of a task is on a CPU, and the start request of its slice has been delivered,
the timer is active and `SMON_TIMER_ON` is set. -/
def Ticking (x : State × Delivered) : Prop :=
  ∀ t, x.1.OnCpu t → x.2 t = true → ∃ task, x.1.tasks t = some task ∧ task.timer.active = true ∧
    task.timerFlags = true

/-- No stop request comes in a slice after that slice's start request. -/
def InOrder (x : State × Delivered) (l : Label) : Prop :=
  ∀ me t, l = .irq me (.stopTimer t) → x.1.OnCpu t → x.2 t = false

/-- The system with the history of its slices. -/
def SliceStep : State × Delivered → Label → State × Delivered → Prop :=
  Beside State.Step Delivered.write

theorem SliceStep.of_step {s s' : State} {d : Delivered} {l : Label} (h : s.Step l s') :
    SliceStep (s, d) l (s', Delivered.write s l s' d) := ⟨h, rfl⟩

/-- A process that is on a CPU without a slice beginning was there before. -/
theorem curr_of_step {s : State} {l : Label} {t : TaskId} {p : Proc} (hcuts : l.cuts s t p = false)
    (hcurr : (s.kernel.step l).curr ((s.kernel.step l).cpu p) = p) :
    s.kernel.curr (s.kernel.cpu p) = p := by
  cases l with
  | switch me next =>
    simp only [Label.cuts, decide_eq_false_iff_not, not_or] at hcuts
    by_cases hcpu : s.kernel.cpu p = me
    · simp only [Kernel.step, hcpu, Function.update_self] at hcurr
      exact absurd hcurr.symm hcuts.2
    · simpa only [Kernel.step, Function.update_of_ne hcpu] using hcurr
  | migrate q dest =>
    simp only [Label.cuts, decide_eq_false_iff_not] at hcuts
    simpa only [Kernel.step, Function.update_of_ne hcuts] using hcurr
  | fork parent child pid cpu leader alloc =>
    simp only [Label.cuts, decide_eq_false_iff_not] at hcuts
    simpa only [Kernel.step, Kernel.addProc, Function.update_of_ne hcuts] using hcurr
  | _ => exact hcurr

section Steps

variable {s s' : State} {d : Delivered} {l : Label} {t : TaskId} {ring : TaskId → List TaskId}

/-- What is there of an old task after a step, on a CPU in the same slice, was there before. -/
theorem onCpu_of_step (hforest : Forest s.book ring) (hstep : s.exec l = .ok s')
    {task task' : SmonTask} (htask : s.tasks t = some task) (htask' : s'.tasks t = some task')
    (hp : task'.p = task.p) (henvir : task'.envir = task.envir)
    (hcuts : ∀ p, task.p = some p → l.cuts s t p = false) (h : s'.OnCpu t) : s.OnCpu t := by
  obtain ⟨x, envir', p, hx, henvir', hstat, hxp, hcurr⟩ := h
  obtain rfl := Option.some_inj.mp (hx.symm.trans htask')
  obtain ⟨envir, he, hconfig⟩ := exists_config hforest hstep htask (henvir ▸ henvir')
  have hopt := congrArg SmonEnvir.options hconfig
  have hkernel : s'.kernel = s.kernel.step l := (exec_book_step hforest hstep).kernel
  rw [hkernel] at hcurr
  have hstat' : envir.options.stat = false := (congrArg Options.stat hopt).symm.trans hstat
  exact ⟨task, envir, p, htask, he, hstat', hp ▸ hxp,
    curr_of_step (hcuts p (hp ▸ hxp)) hcurr⟩

/-- A delivered request survives an event only in the slice it was for. -/
theorem write_eq_true (hl : ∀ me, l ≠ .irq me (.startTimer t))
    (h : Delivered.write s l s' d t = true) : d t = true ∧
      ((∃ me u, l = .irq me (.startTimer u)) ∨
        ∀ task p, s.tasks t = some task → task.p = some p → l.cuts s t p = false) := by
  have hother : (d t && !(s.tasks t).any fun task => task.p.any fun p => l.cuts s t p) = true →
      d t = true ∧ ∀ task p, s.tasks t = some task → task.p = some p →
        l.cuts s t p = false := by
    intro h
    rw [Bool.and_eq_true] at h
    refine ⟨h.1, fun task p htask hp => ?_⟩
    simpa [htask, hp] using h.2
  unfold Delivered.write at h
  split at h
  · rename_i me u
    have hut : t ≠ u := by
      rintro rfl
      exact hl me rfl
    rw [Function.update_of_ne hut] at h
    exact ⟨h, .inl ⟨me, u, rfl⟩⟩
  · exact ⟨(hother h).1, .inr (hother h).2⟩

/-- The start requests that were delivered were those of live tasks. -/
def Bounded (s : State) (d : Delivered) : Prop := ∀ t, d t = true → t < s.fresh

/-- One step keeps the timers running, if it is in order. -/
theorem Ticking.step (hforest : Forest s.book ring) (hbound : Bounded s d) (h : Ticking (s, d))
    (hstep : s.Step l s') (horder : InOrder (s, d) l) :
    Ticking (s', Delivered.write s l s' d) := by
  intro t honCpu hdelivered
  replace hdelivered : Delivered.write s l s' d t = true := hdelivered
  have hback : (∀ me, l ≠ .irq me (.startTimer t)) → d t = true := fun hl =>
    (write_eq_true hl hdelivered).1
  have hcut : ∀ task p, s.tasks t = some task → task.p = some p → l.cuts s t p = true →
      (∀ me u, l ≠ .irq me (.startTimer u)) → False := by
    intro task p htask hp hcuts hl
    rcases (write_eq_true (fun me => hl me t) hdelivered).2 with ⟨me, u, rfl⟩ | hnot
    · exact hl me u rfl
    · exact absurd (hcuts.symm.trans (hnot task p htask hp)) (by simp)
  -- a task that goes on as it did
  have hkeep : ∀ task task', s.tasks t = some task → s'.tasks t = some task' →
      task'.p = task.p → task'.envir = task.envir → (∀ me, l ≠ .irq me (.startTimer t)) →
      (task.timer.active = true → task.timerFlags = true →
        task'.timer.active = true ∧ task'.timerFlags = true) →
      ∃ task, s'.tasks t = some task ∧ task.timer.active = true ∧ task.timerFlags = true := by
    intro task task' htask htask' hp henvir hl himp
    obtain ⟨hd, hcuts⟩ := write_eq_true hl hdelivered
    have hold : s.OnCpu t := by
      refine onCpu_of_step hforest hstep.2 htask htask' hp henvir (fun p hp => ?_) honCpu
      rcases hcuts with ⟨me, u, rfl⟩ | hcuts
      · rfl
      · exact hcuts task p htask hp
    obtain ⟨x, hx, hactive, hflags⟩ := h t hold hd
    obtain rfl := Option.some_inj.mp (hx.symm.trans htask)
    exact ⟨task', htask', himp hactive hflags⟩
  obtain ⟨now, envir, p, hnow, -, -, hp, -⟩ := id honCpu
  replace hnow : s'.tasks t = some now := hnow
  cases exec_turn hforest t hstep.2 with
  | idle hidle haside =>
    obtain ⟨task, htask, hagrees⟩ := haside.task_before hnow
    refine hkeep task now htask hnow hagrees.p hagrees.envir ?_ fun hactive hflags => ⟨?_, ?_⟩
    · rintro me rfl
      exact hidle.1 rfl
    · rw [hagrees.timer, hactive]
    · rw [hagrees.timerFlags, hflags]
  | time d =>
    exact hkeep now now hnow hnow rfl rfl (by simp) fun hactive hflags => ⟨hactive, hflags⟩
  | count me ctr inc =>
    exact hkeep now now hnow hnow rfl rfl (by simp) fun hactive hflags => ⟨hactive, hflags⟩
  | start hstart =>
    obtain ⟨task, envir, s₁, -, -, hcall, -, -, hsample⟩ := call_startTimerPmc hstart
    obtain ⟨task₁, envir₁, htask₁, -, ⟨-, rfl⟩ | ⟨evset, -, hcall₁⟩⟩ := call_smonSampleStart hsample
    · exact ⟨_, hcall.after, rfl, rfl⟩
    · obtain rfl := Option.some_inj.mp (htask₁.symm.trans hcall.after)
      exact ⟨_, hcall₁.after, rfl, rfl⟩
  | @stop me s' hstop =>
    obtain ⟨task, htask, hcall, -⟩ := call_stopTimerPmc me hstop
    obtain rfl := Option.some_inj.mp (hnow.symm.trans hcall.after)
    have hd := hback (by simp)
    have hold : s.OnCpu t := onCpu_of_step hforest hstep.2 htask hnow rfl rfl (fun _ _ => rfl) honCpu
    exact absurd (hd.symm.trans (horder me t rfl hold)) (by simp)
  | tick htick =>
    obtain ⟨task, htask, -⟩ := bind_eq_ok.mp htick
    rw [task_eq_ok] at htask
    cases hflags : task.timerFlags with
    | true =>
      obtain ⟨envir, task', -, htask', hcore, hdial⟩ := dial_smonSchedTimerTick htask hflags htick
      obtain rfl := Option.some_inj.mp (hnow.symm.trans htask')
      refine hkeep task now htask hnow (congrArg (fun c => c.1.p) hcore)
        (congrArg (fun c => c.1.envir) hcore) (by simp) fun hactive _ => ⟨?_, ?_⟩
      · have htimer := congrArg (fun d => d.timer.active) hdial
        exact (htimer.trans (hrtimerForward_active ..)).trans hactive
      · exact congrArg Dial.timerFlags hdial
    | false =>
      obtain ⟨hcall, -⟩ := call_smonSchedTimerTick_off 0 htask hflags htick
      obtain rfl := Option.some_inj.mp (hnow.symm.trans hcall.after)
      refine hkeep task _ htask hnow rfl rfl (by simp) fun _ htrue => ?_
      rw [hflags] at htrue
      cases htrue
  | out hfound =>
    obtain ⟨-, task, htask, hprev⟩ := findProc_some hfound
    exact (hcut task _ htask hprev (by simp [Label.cuts]) (by simp)).elim
  | enter hprev hfound =>
    obtain ⟨-, task, htask, hnext⟩ := findProc_some hfound
    exact (hcut task _ htask hnext (by simp [Label.cuts]) (by simp)).elim
  | again hfound =>
    obtain ⟨-, task, htask, hprev⟩ := findProc_some hfound
    exact (hcut task _ htask hprev (by simp [Label.cuts]) (by simp)).elim
  | exec hfound =>
    obtain ⟨hwaits, task, htask, hexec⟩ := findProc_some hfound
    exact (hcut task _ htask hexec (by simpa [Label.cuts] using hwaits) (by simp)).elim
  | exit hfound htask hstop hsave hgone =>
    obtain ⟨task', htask', hnone⟩ := hgone.after
    obtain rfl := Option.some_inj.mp (htask'.symm.trans hnow)
    exact absurd (hp.symm.trans hnone) (by simp)
  | leave hnot hfound hgone =>
    obtain ⟨task', htask', hnone⟩ := hgone.after
    obtain rfl := Option.some_inj.mp (htask'.symm.trans hnow)
    exact absurd (hp.symm.trans hnone) (by simp)
  | new hcomes hborn =>
    obtain ⟨rfl, -⟩ := hborn
    have hl : ∀ me, l ≠ .irq me (.startTimer s.fresh) := by
      rintro me rfl
      obtain ⟨task, envir, s₁, htask, -⟩ := call_startTimerPmc (hstep.2 : State.startTimerPmc _ me _ = _)
      exact absurd (hforest.bound _ task.core (entry_of_tasks htask)) (Nat.lt_irrefl _)
    exact absurd (hbound _ (hback hl)) (Nat.lt_irrefl _)
  | gone hlt hu htrace =>
    rw [hnow] at hu
    cases hu

theorem Bounded.step (hforest : Forest s.book ring) (hbound : Bounded s d) (hstep : s.Step l s') :
    Bounded s' (Delivered.write s l s' d) := by
  have hle : s.fresh ≤ s'.fresh := (exec_book_step hforest hstep.2).fresh_le
  intro t ht
  refine Nat.lt_of_lt_of_le ?_ hle
  by_cases hl : ∃ me, l = .irq me (.startTimer t)
  · obtain ⟨me, rfl⟩ := hl
    obtain ⟨task, envir, s₁, htask, -⟩ := call_startTimerPmc (hstep.2 : State.startTimerPmc _ me t = _)
    exact hforest.bound t task.core (entry_of_tasks htask)
  · exact hbound t (write_eq_true (fun me heq => hl ⟨me, heq⟩) ht).1

/-- A timer that runs was not stopped out of order. -/
theorem InOrder.of_ticking (hstep : s.Step l s') (h : Ticking (s', Delivered.write s l s' d)) :
    InOrder (s, d) l := by
  rintro me t rfl ⟨task, envir, p, htask, henvir, hstat, hp, hcurr⟩
  by_contra hd
  obtain ⟨task', htask', hcall, -⟩ := call_stopTimerPmc me (hstep.2 : State.stopTimerPmc _ t = _)
  obtain rfl := Option.some_inj.mp (htask'.symm.trans htask)
  have hkernel : s'.kernel = s.kernel := congrArg Static.kernel hcall.static
  have henvirs : s'.envirs = s.envirs := congrArg Static.envirs hcall.static
  have honCpu : s'.OnCpu t := ⟨task'.disarmed, envir, p, hcall.after, by rw [henvirs]; exact henvir,
    hstat, hp, by rw [hkernel, hcurr]⟩
  have hdelivered : Delivered.write s (.irq me (.stopTimer t)) s' d t = true := by
    have htrue : d t = true := by simpa using hd
    simp [Delivered.write, htrue, Label.cuts]
  obtain ⟨x, hx, hactive, -⟩ := h t honCpu hdelivered
  obtain rfl := Option.some_inj.mp (hx.symm.trans hcall.after)
  cases hactive

end Steps

/-- **The timers run in exactly the runs whose requests come in order**: a stop request comes before
the start request of the next slice, or after that slice. -/
theorem ticking_iff_inOrder {s₀ : State} {ls : List Label} {x : State × Delivered}
    (init : s₀.Initial) :
    Run (fun x l y => SliceStep x l y ∧ Ticking y) (s₀, fun _ => false) ls x ↔
      Run (fun x l y => SliceStep x l y ∧ InOrder x l) (s₀, fun _ => false) ls x := by
  refine Run.restrict_iff
    (fun x => (∃ ring, Forest x.1.book ring) ∧ Bounded x.1 x.2 ∧ Ticking x) ?_ ?_ ?_
  · exact ⟨⟨_, Initial.forest init⟩, by simp [Bounded], by simp [Ticking]⟩
  · rintro ⟨s, d⟩ l ⟨s', d'⟩ ⟨⟨ring, hforest⟩, hbound, h⟩ ⟨hstep, hd⟩ horder
    obtain rfl : d' = Delivered.write s l s' d := hd
    exact ⟨hforest.step (exec_book_step hforest hstep.2), hbound.step hforest hstep,
      h.step hforest hbound hstep horder⟩
  · rintro ⟨s, d⟩ l ⟨s', d'⟩ ⟨⟨ring, hforest⟩, hbound, h⟩ ⟨hstep, hd⟩
    obtain rfl : d' = Delivered.write s l s' d := hd
    exact ⟨InOrder.of_ticking hstep, h.step hforest hbound hstep⟩

/-- A process is watched, runs on CPU 0, then on CPU 1. -/
def twoSlices : List Label :=
  [.register 0 1 inheriting 0 ⟨true, true, true⟩, .switch 0 1, .irq 0 (.startTimer 0), .switch 0 0,
    .migrate 1 1, .switch 1 1]

/-- Both requests of the first slice come before those of the second. -/
theorem ticking_iff_inOrder_twoSlices : ∃ x,
    Run (fun x l y => SliceStep x l y ∧ Ticking y) (boot [] [fixedOnly], fun _ => false)
      (twoSlices ++ [.irq 0 (.stopTimer 0), .irq 1 (.startTimer 0)]) x ∧ x.1.OnCpu 0 ∧
    x.2 0 = true := by
  have horder : ∀ {x : State × Delivered} {l}, (∀ me t, l ≠ .irq me (.stopTimer t)) → InOrder x l :=
    fun hl me t heq => absurd heq (hl me t)
  have hfirst : ∀ {x : State × Delivered} {me t}, x.2 t = false → InOrder x (.irq me (.stopTimer t)) := by
    intro x me t hd me' t' heq _
    cases heq
    exact hd
  obtain ⟨x, run, honCpu, hd⟩ : ∃ x, Run (fun x l y => SliceStep x l y ∧ InOrder x l)
      (boot [] [fixedOnly], fun _ => false)
      (twoSlices ++ [.irq 0 (.stopTimer 0), .irq 1 (.startTimer 0)]) x ∧ x.1.OnCpu 0 ∧
      x.2 0 = true :=
    ⟨_, .cons ⟨.of_step ⟨trivial, rfl⟩, horder (by simp)⟩ <|
      .cons ⟨.of_step ⟨trivial, rfl⟩, horder (by simp)⟩ <|
      .cons ⟨.of_step ⟨by decide, rfl⟩, horder (by simp)⟩ <|
      .cons ⟨.of_step ⟨trivial, rfl⟩, horder (by simp)⟩ <|
      .cons ⟨.of_step ⟨trivial, rfl⟩, horder (by simp)⟩ <|
      .cons ⟨.of_step ⟨trivial, rfl⟩, horder (by simp)⟩ <|
      .cons ⟨.of_step ⟨by decide, rfl⟩, hfirst rfl⟩ <|
      .cons ⟨.of_step ⟨by decide, rfl⟩, horder (by simp)⟩ .nil,
      ⟨_, _, 1, rfl, rfl, rfl, rfl, rfl⟩, rfl⟩
  exact ⟨x, (ticking_iff_inOrder (initial_boot ..)).mpr run, honCpu, hd⟩

/-- **A stop request that waits on the old CPU** cancels the timer of the next slice. -/
theorem not_ticking_late : (boot [] [fixedOnly]).Initial ∧ ∃ x,
    Run (fun x l y => SliceStep x l y ∧ x.1.kernel.Consistent l)
      (boot [] [fixedOnly], fun _ => false)
      (twoSlices ++ [.irq 1 (.startTimer 0), .irq 0 (.stopTimer 0)]) x ∧ ¬ Ticking x := by
  have hidle : ∀ c, Function.update (Function.update (fun c => 2 * c) 0 1) 0 0 c ≠ 1 := by
    intro c
    rw [Function.update_idem, Function.update_apply]
    split <;> omega
  refine ⟨initial_boot .., _, .cons ⟨.of_step ⟨trivial, rfl⟩, trivial⟩ <|
    .cons ⟨.of_step ⟨trivial, rfl⟩, rfl⟩ <| .cons ⟨.of_step ⟨by decide, rfl⟩, trivial⟩ <|
    .cons ⟨.of_step ⟨trivial, rfl⟩, rfl⟩ <| .cons ⟨.of_step ⟨trivial, rfl⟩, hidle⟩ <|
    .cons ⟨.of_step ⟨trivial, rfl⟩, rfl⟩ <| .cons ⟨.of_step ⟨by decide, rfl⟩, trivial⟩ <|
    .cons ⟨.of_step ⟨by decide, rfl⟩, trivial⟩ .nil, fun h => ?_⟩
  obtain ⟨task, htask, hactive, -⟩ := h 0 ⟨_, _, 1, rfl, rfl, rfl, rfl, rfl⟩ rfl
  cases htask
  cases hactive

end SchedMon
