import SchedMon.Driver.Course

/-!
# Who steers the timer

In an orderly run every task keeps to its course, and its timer is under control: a request to start
it waits on the CPU that the process runs on, and as long as it is active and not switched off, the
process runs on its CPU. So the samples that a timer takes are taken while their process runs.

## Main definitions

* `AttendedStep`, `OrderlyStep` — the steps of orderly runs
* `State.Unborn`, `State.World` — what holds in every run
* `Steered` — the timer of a task is under control

## Main results

* `course_induct` — **what the steps of its course keep, holds of a task in every run**
* `steered_of_run` — **the timer is under control**
-/

namespace SchedMon

open State SchedMon.Shelf

/-! ### Known processes -/

/-- The processes there are tasks for are, or were, there. -/
structure Known (b : Book) : Prop where
  init : b.kernel.known initTask = true
  procs : ∀ p ∈ b.kernel.procs, b.kernel.known p = true
  tasks : ∀ t c p, b.entry t = some c → c.1.p = some p → b.kernel.known p = true

section KnownSteps

variable {b b' : Book} {l : Label} {k : Kernel} {p : Proc}

theorem Kernel.known_step (l : Label) (h : k.known p = true) : (k.step l).known p = true := by
  cases l with
  | fork parent child pid cpu leader alloc =>
    by_cases hp : p = child
    · subst hp
      exact Function.update_self ..
    · exact (Function.update_of_ne hp ..).trans h
  | _ => exact h

theorem Kernel.procs_step (l : Label) (h : ∀ p ∈ k.procs, k.known p = true) :
    ∀ p ∈ (k.step l).procs, (k.step l).known p = true := by
  intro p hp
  cases l with
  | fork parent child pid cpu leader alloc =>
    by_cases hchild : p = child
    · subst hchild
      exact Function.update_self ..
    · refine (Function.update_of_ne hchild ..).trans (h p ?_)
      cases leader
      · exact hp
      · exact (List.mem_append.mp hp).resolve_right (by simpa using hchild)
  | reap q => exact h p (List.mem_of_mem_erase hp)
  | _ => exact h p hp

theorem Known.step (h : Known b) (hstep : BookStep b l b') : Known b' := by
  have hkernel := hstep.kernel
  refine ⟨?_, ?_, fun t c p hc hp => ?_⟩
  · rw [hkernel]
    exact Kernel.known_step l h.init
  · rw [hkernel]
    exact Kernel.procs_step l h.procs
  have hold : ∀ u d, b.entry u = some d → d.1.p = some p → b'.kernel.known p = true :=
    fun u d hd hp => by
      rw [hkernel]
      exact Kernel.known_step l (h.tasks u d p hd hp)
  have hsame : b'.entry = b.entry → b'.kernel.known p = true := fun heq =>
    hold t c ((congrFun heq t).symm.trans hc) hp
  cases hstep with
  | fork parent child pid cpu leader k u d rb envir hk hat hd hrb henvir hinherit =>
    by_cases htu : t = u
    · subst htu
      simp only [Book.addChild, Function.update_self, Option.some_inj] at hc
      subst hc
      exact hold t d hd hp
    · by_cases ht : t = b.fresh
      · subst ht
        simp only [Book.addChild, Function.update_of_ne htu, Function.update_self, Option.some_inj] at hc
        subst hc
        obtain rfl := Option.some_inj.mp hp
        change k.known child = true
        rw [hk]
        exact Function.update_self ..
      · simp only [Book.addChild, Function.update_of_ne htu, Function.update_of_ne ht] at hc
        exact hold t c hc hp
  | exit q i u d rb hi hat hd hrb =>
    by_cases htu : t = u
    · subst htu
      simp only [Book.leave, Function.update_self, Option.some_inj] at hc
      subst hc
      cases hp
    · simp only [Book.leave, Function.update_of_ne htu] at hc
      exact hold t c hc hp
  | register me pid envir rb alloc halloc =>
    by_cases ht : t = b.fresh
    · subst ht
      simp only [Book.addRoot, Function.update_self, Option.some_inj] at hc
      subst hc
      obtain rfl := Option.some_inj.mp hp
      exact Kernel.forEachProcess_known h.init h.procs pid
    · simp only [Book.addRoot, Function.update_of_ne ht] at hc
      exact hold t c hc hp
  | unregister pid r d xs b' hr hd hpid hring hdropped =>
    rw [hdropped.entry] at hc
    split at hc
    · cases hc
    · exact hold t c hc hp
  | _ => exact hsame rfl

end KnownSteps

/-! ### The world -/

/-- Nothing is pending for the tasks that are not there yet, and nothing has happened to them. -/
def State.Unborn (s : State) : Prop :=
  ∀ u, s.fresh ≤ u → s.requests u = [] ∧ ∀ e ∈ s.trace, e.task? ≠ some u

/-- What holds in every run with an orderly kernel. -/
structure State.World (s : State) : Prop where
  forest : ∃ ring, Forest s.book ring
  listed : Listed s.book
  sane : s.kernel.Sane
  known : Known s.book
  unborn : s.Unborn

/-- A step that task `t` takes part in as it should: the hooks come in order, interrupts do not wait
for the next hook of their CPU, and the hooks of its process find the task. -/
structure AttendedStep (t : TaskId) (s : State) (l : Label) (s' : State) : Prop where
  step : s.Step l s'
  orderly : s.kernel.Orderly l
  prompt : s.Prompt l
  reached : s.Reached t

/-- A step of an orderly run: the hooks come in order, interrupts do not wait for the next hook of
their CPU, no process gets a second task, and a family is unregistered only when all its members have
exited. -/
def OrderlyStep (s : State) (l : Label) (s' : State) : Prop :=
  s.Step l s' ∧ s.kernel.Orderly l ∧ s.Prompt l ∧ s.Allows l

section World

variable {s s' s₀ : State} {l : Label} {ls : List Label} {t u : TaskId} {ring : TaskId → List TaskId}
  {task : SmonTask}

theorem lt_fresh_of_tasks (hforest : Forest s.book ring) (htask : s.tasks t = some task) :
    t < s.fresh := hforest.bound t task.core (entry_of_tasks htask)

/-- What an event is to a task that is not there. -/
theorem Turn.of_absent (h : Turn u s l s') (hu : s.tasks u = none) :
    Aside u s s' ∨ (∃ d, s' = { s with now := s.now + d }) ∨
      (∃ me ctr f inc, s' = (s.onCpu me f).record (.count me ctr inc)) ∨
      (∃ p, l.comes s.kernel = some p ∧ Born u p s s') ∨ u < s.fresh := by
  have hlive : ∀ task, s.tasks u ≠ some task := by simp [hu]
  cases h with
  | idle hidle haside => exact .inl haside
  | time d => exact .inr (.inl ⟨d, rfl⟩)
  | count me ctr inc => exact .inr (.inr (.inl ⟨me, ctr, _, inc, rfl⟩))
  | start hstart =>
    obtain ⟨task, envir, s₁, htask, -⟩ := call_startTimerPmc hstart
    exact absurd htask (hlive task)
  | stop hstop =>
    obtain ⟨task, htask, -⟩ := call_stopTimerPmc 0 hstop
    exact absurd htask (hlive task)
  | tick htick =>
    obtain ⟨task, htask, -⟩ := bind_eq_ok.mp htick
    exact absurd (task_eq_ok.mp htask) (hlive task)
  | out hfound =>
    obtain ⟨-, task, htask, -⟩ := findProc_some hfound
    exact absurd htask (hlive task)
  | enter hprev hfound =>
    obtain ⟨-, task, htask, -⟩ := findProc_some hfound
    exact absurd htask (hlive task)
  | again hfound =>
    obtain ⟨-, task, htask, -⟩ := findProc_some hfound
    exact absurd htask (hlive task)
  | exec hfound =>
    obtain ⟨-, task, htask, -⟩ := findProc_some hfound
    exact absurd htask (hlive task)
  | @exit p task s₀ s₁ s' hfound htask => exact absurd htask (hlive task)
  | leave hnot hfound =>
    obtain ⟨-, task, htask, -⟩ := findProc_some hfound
    exact absurd htask (hlive task)
  | new hcomes hborn => exact .inr (.inr (.inr (.inl ⟨_, hcomes, hborn⟩)))
  | gone hlt => exact .inr (.inr (.inr (.inr hlt)))

theorem tasks_of_fresh_le (hforest : Forest s.book ring) (hu : s.fresh ≤ u) : s.tasks u = none := by
  cases htask : s.tasks u with
  | none => rfl
  | some task => exact absurd (lt_fresh_of_tasks hforest htask) (Nat.not_lt.mpr hu)

/-- The time-stamp counter goes its own way, and is read now and then. -/
theorem exec_clock (hforest : Forest s.book ring) (hstep : s.exec l = .ok s') :
    s'.clock = s.clock ∧ s.reads ≤ s'.reads := by
  have hgone := tasks_of_fresh_le hforest (Nat.le_succ s.fresh)
  rcases (exec_turn hforest _ hstep).of_absent hgone with
    haside | ⟨d, rfl⟩ | ⟨me, ctr, f, inc, rfl⟩ | ⟨p, -, hborn⟩ | hlt
  · exact ⟨haside.clock, haside.reads⟩
  · exact ⟨rfl, Nat.le_refl _⟩
  · exact ⟨rfl, Nat.le_refl _⟩
  · exact absurd hborn.1 (Nat.succ_ne_self _)
  · exact absurd hlt (Nat.not_lt.mpr (Nat.le_succ _))

theorem Unborn.step (hforest : Forest s.book ring) (h : s.Unborn) (hstep : s.exec l = .ok s') :
    s'.Unborn := by
  intro u hu
  have hle : s.fresh ≤ s'.fresh := (exec_book_step hforest hstep).fresh_le
  have hle' := Nat.le_trans hle hu
  obtain ⟨hrequests, htrace⟩ := h u hle'
  rcases (exec_turn hforest u hstep).of_absent (tasks_of_fresh_le hforest hle') with
    haside | ⟨d, rfl⟩ | ⟨me, ctr, f, inc, rfl⟩ | ⟨p, -, hborn⟩ | hlt
  · obtain ⟨es, hes, hforeign⟩ := haside.trace
    refine ⟨haside.requests.trans hrequests, fun e he => ?_⟩
    rw [hes] at he
    exact (List.mem_append.mp he).elim (htrace e) fun he => (hforeign e he).1
  · exact ⟨hrequests, htrace⟩
  · refine ⟨hrequests, fun e he => ?_⟩
    rcases List.mem_append.mp he with he | he
    · exact htrace e he
    · rw [List.mem_singleton.mp he]
      simp [TraceEvent.task?]
  · obtain ⟨rfl, hfresh, -⟩ := hborn
    rw [hfresh] at hu
    exact absurd hu (Nat.not_succ_le_self _)
  · exact absurd hlt (Nat.not_lt.mpr hle')

theorem State.Initial.world (h : s₀.Initial) : s₀.World := by
  refine ⟨⟨_, Initial.forest h⟩, Initial.listed h, h.sane, ⟨h.known.1, h.known.2.1, ?_⟩,
    fun u _ => ⟨?_, ?_⟩⟩
  · intro t c p hc
    simp only [State.book, h.tasks t, Option.map_none] at hc
    cases hc
  · simp [State.requests, h.irqs]
  · simp [h.trace]

theorem State.World.step (h : s.World) (hl : s.kernel.Orderly l) (hstep : s.Step l s') : s'.World := by
  obtain ⟨ring, hforest⟩ := h.forest
  have hbook := exec_book_step hforest hstep.2
  have hkernel : s'.kernel = s.kernel.step l := hbook.kernel
  refine ⟨hforest.step hbook, h.listed.step hbook, ?_, h.known.step hbook,
    Unborn.step hforest h.unborn hstep.2⟩
  rw [hkernel]
  exact h.sane.step hl

/-- The hooks find the tasks whose processes they are called for, if each process has one task. -/
theorem PlacedBook.reached {w : Watched} (h : PlacedBook w s.book) (hlisted : Listed s.book)
    (t : TaskId) : s.Reached t := by
  intro task p htask hp
  obtain ⟨x, -, hx, hmem, -⟩ := h.entry t task.core p (entry_of_tasks htask) hp
  cases hphase : x.phase with
  | waiting =>
    simp only [Watch.place, hphase] at hmem
    exact .inl hmem
  | monitored =>
    obtain ⟨found, hfound, hiff, hrest⟩ := h.findProc hlisted p (.cpu (s.kernel.cpu p))
    obtain ⟨u, rfl⟩ := Option.isSome_iff_exists.mp (hiff.mpr ⟨x, hx, by simp only [Watch.place, hphase]⟩)
    obtain ⟨other, hother, hp'⟩ := hrest u rfl
    obtain rfl := h.unique u t _ _ p (entry_of_tasks hother) (entry_of_tasks htask) hp' hp
    exact .inr hfound

/-- A run with an orderly kernel keeps the world. -/
theorem world_of_run (run : Run (fun s l s' => s.Step l s' ∧ s.kernel.Orderly l) s₀ ls s)
    (init : s₀.Initial) : s.World :=
  run.invariant init.world fun _ _ _ h ⟨hstep, hl⟩ => h.step hl hstep

/-- The time-stamp counter goes its own way. -/
theorem clock_of_run (run : Run (fun s l s' => s.Step l s' ∧ s.kernel.Orderly l) s₀ ls s)
    (init : s₀.Initial) : s.clock = s₀.clock := by
  refine run.induct (motive := fun _ s => s.clock = s₀.clock) rfl fun ls s l s' run hsame h => ?_
  obtain ⟨ring, hforest⟩ := (world_of_run run init).forest
  exact (exec_clock hforest h.1.2).1.trans hsame

/-- In an orderly run every task takes part as it should. -/
theorem attended_of_orderly (run : Run OrderlyStep s₀ ls s) (init : s₀.Initial) (t : TaskId) :
    Run (AttendedStep t) s₀ ls s := by
  refine (run.induct (motive := fun ls s => Run (AttendedStep t) s₀ ls s ∧ s.World ∧
    ∃ w, PlacedBook w s.book) ⟨.nil, init.world, _, Initial.placedBook init⟩ ?_).1
  rintro ls s l s' - ⟨run, hworld, w, hplaced⟩ ⟨hstep, hl, hprompt, hallows⟩
  obtain ⟨ring, hforest⟩ := hworld.forest
  have hplaced' := hplaced.step hworld.listed hforest (exec_book_step hforest hstep.2)
    (hplaced.allows hallows)
  exact ⟨run.snoc ⟨hstep, hl, hprompt, hplaced.reached hworld.listed t⟩, hworld.step hl hstep, _,
    hplaced'⟩

/-- A task that was not there before is new. -/
theorem Course.born (h : Course t s l s') (ht : s.tasks t = none) (htask' : s'.tasks t = some task) :
    ∃ p, l.comes s.kernel = some p ∧ Born t p s s' := by
  have hnone : ∀ x, s.tasks t ≠ some x := by simp [ht]
  cases h with
  | aside hidle h hruns =>
    obtain ⟨x, hx, -⟩ := h.task_before htask'
    exact absurd hx (hnone x)
  | time d => exact absurd htask' (hnone task)
  | count me ctr inc => exact absurd htask' (hnone task)
  | start hpending h hruns =>
    obtain ⟨x, envir, s₁, hx, -⟩ := call_startTimerPmc h
    exact absurd hx (hnone x)
  | stop hpending h hruns =>
    obtain ⟨x, hx, -⟩ := call_stopTimerPmc 0 h
    exact absurd hx (hnone x)
  | tick htask hdue h hruns => exact absurd htask (hnone _)
  | out hprompt hruns h h' hleft =>
    obtain ⟨x, p, hx, -⟩ := hruns
    exact absurd hx (hnone x)
  | enter hprompt hl hout h₁ henvirs h h₂ hmsr hruns =>
    obtain ⟨x, envir, hx, -⟩ := call_smonSchedTaskIn h
    obtain ⟨y, hy, -⟩ := h₁.task_before hx
    exact absurd hy (hnone y)
  | exit hprompt hruns htask => exact absurd htask (hnone _)
  | leave hout h hleft =>
    obtain ⟨x, hx, -⟩ := h
    exact absurd hx (hnone x)
  | new hcomes h => exact ⟨_, hcomes, h⟩
  | gone hlt hgone htrace => exact absurd (hgone.symm.trans htask') (by simp)

/-- **What the steps of its course keep, holds of a task in every run.** -/
theorem course_induct {step' : State → Label → State → Prop} {motive : State → Prop}
    (t : TaskId) (run : Run step' s₀ ls s)
    (hattended : ∀ s l s', step' s l s' → AttendedStep t s l s') (init : s₀.Initial) (base : motive s₀)
    (pres : ∀ s l s', s.World → s'.World → step' s l s' → Course t s l s' → motive s → motive s') :
    motive s := by
  refine run.induct (motive := fun _ s => motive s) base ?_
  intro ls s l s' run ih hstep
  have hworld := world_of_run (run.mono fun s l s' h => ⟨(hattended s l s' h).step,
    (hattended s l s' h).orderly⟩) init
  obtain ⟨ring, hforest⟩ := hworld.forest
  obtain ⟨hstep', hl, hprompt, hreached⟩ := hattended s l s' hstep
  exact pres s l s' hworld (hworld.step hl hstep') hstep (exec_course hforest hworld.listed
    hworld.sane hreached hl hprompt hstep') ih

end World

/-! ### New tasks -/

/-- Task `t` is not registered, without `on_exec`, for a process that is running. -/
def State.Enters (s : State) (t : TaskId) (l : Label) : Prop :=
  ∀ me pid envir b alloc, l = .register me pid envir b alloc → s.fresh = t →
    envir.options.onExec = true ∨
      s.kernel.curr (s.kernel.cpu (s.kernel.forEachProcess pid)) ≠ s.kernel.forEachProcess pid

theorem State.Enters.of_ne {s : State} {t : TaskId} {l : Label}
    (hl : ∀ me pid envir b alloc, l ≠ .register me pid envir b alloc) : s.Enters t l :=
  fun me pid envir b alloc heq => absurd heq (hl me pid envir b alloc)

section NewTasks

variable {s s' : State} {l : Label} {t : TaskId} {p : Proc}

/-- A new task, with nothing in it. -/
theorem Born.exists_task (h : Born t p s s') : ∃ pid e b extra task, s'.tasks t = some task ∧
    task.Agrees (newTask p pid e b extra) := by
  obtain ⟨-, -, pid, e, b, extra, haside⟩ := h
  obtain ⟨task, htask, hagrees⟩ := haside.exists_task (Function.update_self ..)
  exact ⟨pid, e, b, extra, task, htask, hagrees⟩

/-- The process of a task that enters does not run yet, or the task waits. -/
theorem not_runsOn_of_born (hworld : s.World) (hstep : s.Step l s') (hl : s.kernel.Orderly l)
    (henters : s.Enters s.fresh l) (hcomes : l.comes s.kernel = some p) (hborn : Born s.fresh p s s')
    (c : Cpu) : ¬ s'.RunsOn s.fresh c := by
  rintro ⟨task, q, htask, hq, hnot, hcpu, hcurr⟩
  obtain ⟨ring, hforest⟩ := hworld.forest
  have hbook := exec_book_step hforest hstep.2
  have hkernel : s'.kernel = s.kernel.step l := hbook.kernel
  obtain ⟨pid', e, b', extra, task', htask', hagrees⟩ := hborn.exists_task
  obtain rfl := Option.some_inj.mp (htask'.symm.trans htask)
  obtain rfl : p = q := Option.some_inj.mp (hagrees.p.symm.trans hq)
  rw [hkernel] at hcpu hcurr
  cases l with
  | fork parent child pid cpu leader alloc =>
    obtain rfl := Option.some_inj.mp hcomes
    have hknown := hworld.sane.known c
    rw [show s.kernel.curr c = child from hcurr, hl.1.2] at hknown
    cases hknown
  | register me pid envir b alloc =>
    obtain rfl := Option.some_inj.mp hcomes
    rcases henters me pid envir b alloc rfl rfl with hexec | hidle
    · refine hnot ?_
      change s.fresh ∈ s'.book.lists .waiting
      generalize hb : s'.book = b'' at hbook
      cases hbook with
      | idle l hl => simp at hl
      | registerNone =>
        have hsame : s'.fresh = s.fresh := congrArg Book.fresh hb
        exact absurd (hborn.2.1.symm.trans hsame) (Nat.succ_ne_self _)
      | register =>
        simp only [Book.addRoot, Book.rootPlace, hexec, if_true, mem_put]
        exact .inr ⟨trivial, rfl⟩
    · refine hidle ?_
      rw [show s.kernel.cpu (s.kernel.forEachProcess pid) = c from hcpu]
      exact hcurr
  | _ => cases hcomes

end NewTasks

/-! ### Requests -/

section Requests

variable {s s' : State} {t : TaskId} {me c : Cpu} {task task' : SmonTask} {es : List TraceEvent}
  {ws : List Sample} {w : Irq}

theorem mem_requests_start : (c, .startTimer t) ∈ s.requests t ↔ (c, .startTimer t) ∈ s.irqs := by
  simp [State.requests]

theorem mem_requests_stop : (c, .stopTimer t) ∈ s.requests t ↔ (c, .stopTimer t) ∈ s.irqs := by
  simp [State.requests]

/-- A call that queues nothing. -/
theorem requests_of_call (h : Call t me task task' es ws [] s s') : s'.requests t = s.requests t := by
  have hirqs : s'.irqs = s.irqs := h.irqs
  rw [State.requests, hirqs, State.requests]

/-- A call that queues a request. -/
theorem requests_of_call_queue (h : Call t me task task' es ws [w] s s')
    (hw : w = .startTimer t ∨ w = .stopTimer t) : s'.requests t = queued me (s.requests t) [w] := by
  have hmem : w ∈ (s.requests t).map Prod.snd ↔ w ∈ s.irqs.map Prod.snd := by
    simp only [State.requests, List.mem_map, List.mem_filter, Prod.exists]
    constructor
    · rintro ⟨c, w', ⟨hmem, -⟩, rfl⟩
      exact ⟨c, w', hmem, rfl⟩
    · rintro ⟨c, w', hmem, rfl⟩
      exact ⟨c, w', ⟨hmem, by simpa using hw⟩, rfl⟩
  rw [State.requests, h.irqs]
  simp only [queued, List.foldl_cons, List.foldl_nil, hmem]
  split
  · rfl
  · rw [List.filter_append, List.filter_cons_of_pos (by simpa using hw), List.filter_nil]
    rfl

/-- Queueing what is not queued yet. -/
theorem mem_queued_single {irqs : List (Cpu × Irq)} {w' : Irq} (h : (c, w') ∈ queued me irqs [w]) :
    (c, w') ∈ irqs ∨ c = me ∧ w' = w := by
  simp only [queued, List.foldl_cons, List.foldl_nil] at h
  split at h
  · exact .inl h
  · rcases List.mem_append.mp h with h | h
    · exact .inl h
    · exact .inr (by simpa using h)

theorem mem_queued_self {irqs : List (Cpu × Irq)} (h : ∀ c, (c, w) ∉ irqs) :
    (me, w) ∈ queued me irqs [w] := by
  have hnot : w ∉ irqs.map Prod.snd := fun hmem => by
    obtain ⟨x, hx, rfl⟩ := List.mem_map.mp hmem
    exact h x.1 hx
  simp only [queued, List.foldl_cons, List.foldl_nil, hnot, if_false]
  exact List.mem_append_right _ (List.mem_singleton_self _)

theorem nodup_queued_single {irqs : List (Cpu × Irq)} (h : (irqs.map Prod.snd).Nodup) :
    ((queued me irqs [w]).map Prod.snd).Nodup := by
  simp only [queued, List.foldl_cons, List.foldl_nil]
  split
  · exact h
  · rename_i hw
    rw [List.map_append, List.nodup_append]
    refine ⟨h, List.nodup_singleton w, ?_⟩
    rintro x hx y hy rfl
    rw [List.map_singleton, List.mem_singleton] at hy
    subst hy
    exact hw hx

/-- A request that leaves the queue is there no more. -/
theorem not_mem_erase_of_nodup {irqs : List (Cpu × Irq)} (h : (irqs.map Prod.snd).Nodup)
    (hmem : (me, w) ∈ irqs) : (c, w) ∉ irqs.erase (me, w) := by
  intro hc
  have hnodup : irqs.Nodup := h.of_map
  have hne := (hnodup.mem_erase_iff.mp hc).1
  exact hne (List.inj_on_of_nodup_map h (List.mem_of_mem_erase hc) hmem rfl)

end Requests

/-! ### The timer -/

/-- The timer of a task is under control: a request to start it waits where the process runs, and as
long as it is active and not switched off the process runs on its CPU, and no such request waits. -/
structure Steered (t : TaskId) (s : State) : Prop where
  once : ((s.requests t).map Prod.snd).Nodup
  pending : ∀ c, (c, .startTimer t) ∈ s.requests t → s.RunsOn t c
  armed : ∀ task, s.tasks t = some task → task.timer.active = true → task.timerFlags = true →
    s.RunsOn t task.timer.cpu ∧ ∀ c, (c, .startTimer t) ∉ s.requests t

section Timer

variable {s s' : State} {l : Label} {t : TaskId} {task task' : SmonTask} {p : Proc}

/-- A task runs on one CPU at a time. -/
theorem RunsOn.unique {c c' : Cpu} (h : s.RunsOn t c) (h' : s.RunsOn t c') : c = c' := by
  obtain ⟨x, p, hx, hp, -, hcpu, -⟩ := h
  obtain ⟨y, q, hy, hq, -, hcpu', -⟩ := h'
  obtain rfl := Option.some_inj.mp (hy.symm.trans hx)
  obtain rfl := Option.some_inj.mp (hq.symm.trans hp)
  exact hcpu.symm.trans hcpu'

/-- What is left of a task whose process is gone. -/
theorem Departed.exists_task (h : Departed t s s') (htask : s.tasks t = some task) :
    ∃ task', s'.tasks t = some task' ∧ task'.Agrees { task with p := none, rb := none } := by
  obtain ⟨x, hx, haside⟩ := h
  obtain rfl := Option.some_inj.mp (hx.symm.trans htask)
  exact haside.exists_task (Function.update_self ..)

theorem Departed.requests (h : Departed t s s') : s'.requests t = s.requests t := by
  obtain ⟨x, -, haside⟩ := h
  exact haside.requests

/-- Nothing is pending for a new task. -/
theorem Steered.of_born (hborn : Born s.fresh p s s') (hunborn : s.Unborn) : Steered s.fresh s' := by
  obtain ⟨pid, e, b, extra, task, htask, hagrees⟩ := hborn.exists_task
  obtain ⟨-, -, _, _, _, _, haside⟩ := hborn
  have hrequests : s'.requests s.fresh = [] :=
    haside.requests.trans (hunborn s.fresh (Nat.le_refl _)).1
  refine ⟨by simp [hrequests], by simp [hrequests], fun x hx hactive => ?_⟩
  obtain rfl := Option.some_inj.mp (hx.symm.trans htask)
  rw [hagrees.timer] at hactive
  cases hactive

/-- A task that does not run is not started, and has no timer that is active and not switched off. -/
theorem Steered.of_not_runsOn (h : Steered t s) (hout : ∀ c, ¬ s.RunsOn t c) :
    (∀ c, (c, .startTimer t) ∉ s.requests t) ∧ ∀ task, s.tasks t = some task →
      task.timer.active = true → task.timerFlags = true → False :=
  ⟨fun c hc => hout c (h.pending c hc),
    fun task htask hactive hflags => hout _ (h.armed task htask hactive hflags).1⟩

/-- No start of a task is pending when a hook is called for its process. -/
theorem Steered.not_pending {me : Cpu} (h : Steered t s) (hruns : s.RunsOn t me)
    (hprompt : ∀ w, (me, w) ∉ s.irqs) (c : Cpu) : (c, .startTimer t) ∉ s.requests t := by
  intro hc
  obtain rfl : c = me := RunsOn.unique (h.pending c hc) hruns
  exact hprompt _ (mem_requests_start.mp hc)

/-- The timers stay under control. -/
theorem Steered.step (h : Steered t s) (hlt : t < s.fresh) (hcourse : Course t s l s')
    (htask : s.tasks t = some task) (htask' : s'.tasks t = some task') : Steered t s' := by
  have hsame : s'.requests t = s.requests t → (∀ c, s'.RunsOn t c ↔ s.RunsOn t c) →
      (task'.timer.active = true → task'.timerFlags = true → task.timer.active = true ∧
        task.timerFlags = true ∧ task'.timer.cpu = task.timer.cpu) → Steered t s' := by
    intro hrequests hruns htimer
    refine ⟨by rw [hrequests]; exact h.once, fun c hc => (hruns c).mpr (h.pending c (hrequests ▸ hc)),
      fun x hx hactive hflags => ?_⟩
    obtain rfl := Option.some_inj.mp (hx.symm.trans htask')
    obtain ⟨hactive', hflags', hcpu⟩ := htimer hactive hflags
    obtain ⟨hruns', hnone⟩ := h.armed task htask hactive' hflags'
    rw [hcpu, hrequests]
    exact ⟨(hruns _).mpr hruns', hnone⟩
  -- a task that does not run afterwards
  have hrest : ((s'.requests t).map Prod.snd).Nodup → (∀ c, (c, .startTimer t) ∉ s'.requests t) →
      (task'.timer.active = true → task'.timerFlags = true → False) → Steered t s' := by
    intro honce hnone htimer
    refine ⟨honce, fun c hc => absurd hc (hnone c), fun x hx hactive hflags => ?_⟩
    obtain rfl := Option.some_inj.mp (hx.symm.trans htask')
    exact (htimer hactive hflags).elim
  have honce_erase : ∀ x, (((s.requests t).erase x).map Prod.snd).Nodup := fun x =>
    h.once.sublist ((List.erase_sublist).map _)
  cases hcourse with
  | aside hidle haside hruns =>
    obtain ⟨x, hx, hagrees⟩ := haside.task_before htask'
    obtain rfl := Option.some_inj.mp (hx.symm.trans htask)
    refine hsame haside.requests hruns fun hactive hflags => ?_
    rw [← hagrees.timer, ← hagrees.timerFlags]
    exact ⟨hactive, hflags, rfl⟩
  | time d =>
    obtain rfl := Option.some_inj.mp (htask'.symm.trans htask)
    exact hsame rfl (fun _ => Iff.rfl) fun hactive hflags => ⟨hactive, hflags, rfl⟩
  | count me ctr inc =>
    obtain rfl := Option.some_inj.mp (htask'.symm.trans htask)
    exact hsame rfl (fun _ => Iff.rfl) fun hactive hflags => ⟨hactive, hflags, rfl⟩
  | @start me s' hpending hstart hruns =>
    have hmem := mem_requests_start.mpr hpending
    have hafter : s'.requests t = (s.requests t).erase (me, .startTimer t) ∧
        task'.timer.cpu = me := by
      obtain ⟨x, envir, -, -, ⟨-, hcall⟩ | ⟨evset, -, hcall⟩⟩ := call_start hstart
      · obtain rfl := Option.some_inj.mp (htask'.symm.trans hcall.after)
        exact ⟨(requests_of_call hcall).trans (requests_erase _), rfl⟩
      · obtain rfl := Option.some_inj.mp (htask'.symm.trans hcall.after)
        exact ⟨(requests_of_call hcall).trans (requests_erase _), rfl⟩
    obtain ⟨hrequests, hcpu⟩ := hafter
    have hnone : ∀ c, (c, .startTimer t) ∉ s'.requests t := fun c => by
      rw [hrequests]
      exact not_mem_erase_of_nodup h.once hmem
    refine ⟨hrequests ▸ honce_erase _, fun c hc => absurd hc (hnone c), fun x hx _ _ => ?_⟩
    obtain rfl := Option.some_inj.mp (hx.symm.trans htask')
    rw [hcpu]
    exact ⟨(hruns me).mpr (h.pending me hmem), hnone⟩
  | @stop me s' hpending hstop hruns =>
    obtain ⟨x, hx, hcall, -⟩ := call_stopTimerPmc me hstop
    have hrequests := (requests_of_call hcall).trans (requests_erase _)
    refine ⟨hrequests ▸ honce_erase _, fun c hc => (hruns c).mpr (h.pending c ?_),
      fun y hy hactive => ?_⟩
    · rw [hrequests] at hc
      exact List.mem_of_mem_erase hc
    · obtain rfl := Option.some_inj.mp (hy.symm.trans hcall.after)
      cases hactive
  | @tick task₀ s' htask₀ hdue htick hruns =>
    obtain rfl := Option.some_inj.mp (htask₀.symm.trans htask)
    cases hflags : task₀.timerFlags with
    | true =>
      have hcpu : ∀ envir tsc pmc, ((task₀.taken envir tsc pmc).forwarded envir s.now).timer.cpu =
          task₀.timer.cpu := fun envir tsc pmc => hrtimerForward_cpu ..
      have hactive : task₀.timer.active = true := by
        rw [Hrtimer.due, Bool.and_eq_true] at hdue
        exact hdue.1
      obtain ⟨envir, evset, tsc, pmc, next, -, -, -, -, -, rfl, ⟨-, hcall⟩ | ⟨evset', -, -, hcall⟩⟩ :=
        call_tick htask hflags htick
      · obtain rfl := Option.some_inj.mp (htask'.symm.trans hcall.after)
        exact hsame (requests_of_call hcall) hruns fun _ _ => ⟨hactive, hflags, hcpu ..⟩
      · obtain rfl := Option.some_inj.mp (htask'.symm.trans hcall.after)
        exact hsame (requests_of_call hcall) hruns fun _ _ => ⟨hactive, hflags, hcpu ..⟩
    | false =>
      obtain ⟨hcall, -⟩ := call_smonSchedTimerTick_off 0 htask hflags htick
      obtain rfl := Option.some_inj.mp (htask'.symm.trans hcall.after)
      exact hsame (requests_of_call hcall) hruns fun hactive _ => by cases hactive
  | @out me next mid s' hprompt hruns hout haside hleft =>
    have hnone := h.not_pending hruns hprompt
    obtain ⟨x, envir, evset, tsc, pmc, hx, -, -, -, -, hoff, hon⟩ := call_out hout
    obtain ⟨y, hy, hagrees⟩ := haside.task_before htask'
    cases hactive : x.timer.active with
    | false =>
      have hcall := hoff hactive
      have hrequests := haside.requests.trans (requests_of_call hcall)
      obtain rfl := Option.some_inj.mp (hy.symm.trans hcall.after)
      refine hrest (hrequests ▸ h.once) (fun c => hrequests ▸ hnone c) fun htrue _ => ?_
      rw [hagrees.timer] at htrue
      exact absurd (hactive.symm.trans htrue) (by simp)
    | true =>
      obtain ⟨hcall, -⟩ := hon hactive
      have hrequests := haside.requests.trans (requests_of_call_queue hcall (.inr rfl))
      obtain rfl := Option.some_inj.mp (hy.symm.trans hcall.after)
      refine hrest (hrequests ▸ nodup_queued_single h.once) (fun c hc => ?_) fun _ htrue => ?_
      · rw [hrequests] at hc
        rcases mem_queued_single hc with hc | ⟨-, heq⟩
        · exact hnone c hc
        · cases heq
      · rw [hagrees.timerFlags, SmonTask.left_timerFlags] at htrue
        cases htrue
  | @enter l me s₁ s₂ s' hprompt hl hout h₁ henvirs hin h₂ hmsr hruns =>
    obtain ⟨hnone, htimer⟩ := h.of_not_runsOn hout
    obtain ⟨x, envir, hx, -, hcall⟩ := call_in hin
    obtain ⟨y, hy, hagrees⟩ := h₂.task_before htask'
    obtain ⟨z, hz, hagrees₁⟩ := h₁.task_before hx
    obtain rfl := Option.some_inj.mp (hz.symm.trans htask)
    have hoff : ∀ envir tsc, (x.entered envir me tsc).timer = x.timer ∧
        (x.entered envir me tsc).timerFlags = x.timerFlags := fun envir tsc => by
      unfold SmonTask.entered
      split <;> exact ⟨rfl, rfl⟩
    have hfalse : y.timer = x.timer → y.timerFlags = x.timerFlags → task'.timer.active = true →
        task'.timerFlags = true → False := fun ht hf hactive hflags => by
      rw [hagrees.timer, ht, hagrees₁.timer] at hactive
      rw [hagrees.timerFlags, hf, hagrees₁.timerFlags] at hflags
      exact htimer z htask hactive hflags
    rcases hcall with ⟨-, hcall, -⟩ | ⟨-, ⟨-, hcall⟩ | ⟨evset, n, -, -, -, hcall⟩⟩
    · have hrequests := h₂.requests.trans (requests_of_call_queue hcall (.inl rfl))
      rw [h₁.requests] at hrequests
      obtain rfl := Option.some_inj.mp (hy.symm.trans hcall.after)
      refine ⟨hrequests ▸ nodup_queued_single h.once, fun c hc => ?_, fun w hw hactive hflags => ?_⟩
      · rw [hrequests] at hc
        rcases mem_queued_single hc with hc | ⟨rfl, -⟩
        · exact absurd hc (hnone c)
        · exact (hruns c).mpr rfl
      · obtain rfl := Option.some_inj.mp (hw.symm.trans htask')
        exact (hfalse (hoff _ _).1 (hoff _ _).2 hactive hflags).elim
    · have hrequests := (h₂.requests.trans (requests_of_call hcall)).trans h₁.requests
      obtain rfl := Option.some_inj.mp (hy.symm.trans hcall.after)
      exact hrest (hrequests ▸ h.once) (fun c => hrequests ▸ hnone c) (hfalse (hoff _ _).1 (hoff _ _).2)
    · have hrequests := (h₂.requests.trans (requests_of_call hcall)).trans h₁.requests
      obtain rfl := Option.some_inj.mp (hy.symm.trans hcall.after)
      exact hrest (hrequests ▸ h.once) (fun c => hrequests ▸ hnone c) (hfalse (hoff _ _).1 (hoff _ _).2)
  | @exit p me task₀ s₀ s₁ s' hprompt hruns htask₀ hp hstop hsave hdeparted hleft =>
    have hnone := h.not_pending hruns hprompt
    obtain ⟨envir, evset, tsc, pmc, -, -, -, -, -, hcall⟩ := call_exit htask₀ hstop hsave
    have hrequests := hdeparted.requests.trans (requests_of_call hcall)
    obtain ⟨x, hx, hagrees⟩ := hdeparted.exists_task hcall.after
    obtain rfl := Option.some_inj.mp (hx.symm.trans htask')
    refine hrest (hrequests ▸ h.once) (fun c => hrequests ▸ hnone c) fun hactive _ => ?_
    rw [hagrees.timer] at hactive
    cases hactive
  | leave hout hdeparted hleft =>
    obtain ⟨hnone, htimer⟩ := h.of_not_runsOn hout
    obtain ⟨x, hx, hagrees⟩ := hdeparted.exists_task htask
    obtain rfl := Option.some_inj.mp (hx.symm.trans htask')
    refine hrest (hdeparted.requests ▸ h.once) (fun c => hdeparted.requests ▸ hnone c)
      fun hactive hflags => ?_
    rw [hagrees.timer] at hactive
    rw [hagrees.timerFlags] at hflags
    exact htimer task htask hactive hflags
  | new hcomes hborn => exact absurd hlt (hborn.1 ▸ Nat.lt_irrefl _)
  | gone _ hgone htrace => exact absurd (hgone.symm.trans htask') (by simp)

/-- **The timer is under control** in every run that the task takes part in as it should. -/
theorem steered_of_run {s₀ : State} {ls : List Label} (run : Run (AttendedStep t) s₀ ls s)
    (init : s₀.Initial) : ∀ task, s.tasks t = some task → Steered t s := by
  refine course_induct (motive := fun s => ∀ task, s.tasks t = some task → Steered t s) t run
    (fun _ _ _ => id) init ?_ ?_
  · intro task htask
    rw [init.tasks t] at htask
    cases htask
  · intro s l s' hworld hworld' hstep hcourse h task' htask'
    obtain ⟨ring, hforest⟩ := hworld.forest
    cases ht : s.tasks t with
    | some task => exact (h task ht).step (lt_fresh_of_tasks hforest ht) hcourse ht htask'
    | none =>
      obtain ⟨p, -, hborn⟩ := hcourse.born ht htask'
      obtain rfl : t = s.fresh := hborn.1
      exact .of_born hborn hworld.unborn

end Timer

end SchedMon
