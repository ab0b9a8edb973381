import SchedMon.Driver.Turn
import SchedMon.Driver.Placement

/-!
# The course of a task

`Turn` says which function an event calls for a task. When the kernel calls its hooks in a sensible
order, and interrupts do not wait for the next hook on their CPU, there is more to say: a task is
switched in when its process does not run, and out or to its end when it does. `Course` has these
steps and no others. A task takes part in them once its process is monitored, which is not as long
as it waits for an `exec`.

## Main definitions

* `Kernel.Orderly`, `Kernel.Sane` — what the kernel guarantees about its switches
* `State.Prompt` — interrupts come before the next hook on their CPU
* `State.RunsOn` — a monitored process runs on a CPU
* `Course` — the steps of one task

## Main results

* `exec_course` — **every event is a step of the course of a task**
-/

namespace SchedMon

open State SchedMon.Shelf

/-! ### Processes -/

namespace Kernel

/-- The hooks come in order, and a switch is to another process, which is there. -/
def Orderly (k : Kernel) (l : Label) : Prop :=
  k.Consistent l ∧ ∀ me next, l = .switch me next → next ≠ k.curr me ∧ k.known next = true

theorem Orderly.of_ne {k : Kernel} {l : Label} (hl : k.Consistent l)
    (hne : ∀ me next, l ≠ .switch me next) : k.Orderly l :=
  ⟨hl, fun me next heq => absurd heq (hne me next)⟩

/-- Every CPU runs a process that is there, and that the kernel keeps on this CPU. -/
structure Sane (k : Kernel) : Prop where
  cpu : ∀ c, k.cpu (k.curr c) = c
  known : ∀ c, k.known (k.curr c) = true

theorem Sane.step {k : Kernel} {l : Label} (h : k.Sane) (hl : k.Orderly l) : (k.step l).Sane := by
  obtain ⟨hcons, hswitch⟩ := hl
  cases l with
  | switch me next =>
    constructor
    case cpu =>
      intro c
      by_cases hc : c = me
      · subst hc
        have hcpu : k.cpu next = c := hcons
        simpa only [Kernel.step, Function.update_self] using hcpu
      · simpa only [Kernel.step, Function.update_of_ne hc] using h.cpu c
    case known =>
      intro c
      by_cases hc : c = me
      · subst hc
        simpa only [Kernel.step, Function.update_self] using (hswitch c next rfl).2
      · simpa only [Kernel.step, Function.update_of_ne hc] using h.known c
  | migrate p dest =>
    refine ⟨fun c => ?_, h.known⟩
    simpa only [Kernel.step, Function.update_of_ne (hcons c)] using h.cpu c
  | fork parent child pid cpu leader alloc =>
    have hne : ∀ c, k.curr c ≠ child := by
      intro c heq
      have hknown := h.known c
      rw [heq, hcons.2] at hknown
      cases hknown
    constructor
    case cpu =>
      intro c
      simpa only [Kernel.step, Kernel.addProc, Function.update_of_ne (hne c)] using h.cpu c
    case known =>
      intro c
      simpa only [Kernel.step, Kernel.addProc, Function.update_of_ne (hne c)] using h.known c
  | reap p => exact ⟨h.cpu, h.known⟩
  | _ => exact h

end Kernel

theorem State.Initial.sane {s : State} (h : s.Initial) : s.kernel.Sane := ⟨h.running, h.known.2.2⟩

namespace State

/-- Interrupts that are queued on a CPU come before the next hook of the process that runs there. A
migration is called for a process that does not run. -/
def Prompt (s : State) (l : Label) : Prop :=
  (∀ p dest, l ≠ .migrate p dest) → ∀ c w, s.hookCpu? l = some c → (c, w) ∉ s.irqs

theorem Prompt.of_irqs {s : State} (h : s.irqs = []) (l : Label) : s.Prompt l := by
  intro _ c w _ hmem
  rw [h] at hmem
  cases hmem

theorem Prompt.of_no_hook {s : State} {l : Label} (h : s.hookCpu? l = none) : s.Prompt l :=
  fun _ _ _ hc => absurd (h.symm.trans hc) (by simp)

/-- The process of task `t` is monitored and runs on CPU `c`. -/
def RunsOn (s : State) (t : TaskId) (c : Cpu) : Prop :=
  ∃ task p, s.tasks t = some task ∧ task.p = some p ∧ t ∉ s.waitList ∧ s.kernel.cpu p = c ∧
    s.kernel.curr c = p

/-- The hooks of its process find task `t`, unless it waits. -/
def Reached (s : State) (t : TaskId) : Prop :=
  ∀ task p, s.tasks t = some task → task.p = some p → t ∈ s.waitList ∨ s.Finds p t

end State

/-- Switches, migrations and exits, with timers, interrupts and the hardware. -/
def Label.Follows : Label → Prop
  | fork _ _ _ _ _ _ | exec _ | reap _ | register _ _ _ _ _ | unregister _ => False
  | _ => True

/-! ### The course -/

/-- What an event is to a task that its hooks reach. -/
inductive Course (t : TaskId) (s : State) : Label → State → Prop
  | aside {l : Label} {s' : State} (hidle : s.Idle t l) (h : Aside t s s')
      (hruns : ∀ c, s'.RunsOn t c ↔ s.RunsOn t c) : Course t s l s'
  | time (d : ℕ) : Course t s (.time d) { s with now := s.now + d }
  | count (me : Cpu) (ctr : Counter) (inc : ℕ) : Course t s (.count me ctr inc)
      ((s.onCpu me fun msr =>
        Function.update msr ctr.register (msr ctr.register + BitVec.ofNat 64 inc)).record
          (.count me ctr inc))
  | start {me : Cpu} {s' : State} (hpending : (me, .startTimer t) ∈ s.irqs) (h : ({ s with
      irqs := s.irqs.erase (me, .startTimer t) } : State).startTimerPmc me t = .ok s')
      (hruns : ∀ c, s'.RunsOn t c ↔ s.RunsOn t c) : Course t s (.irq me (.startTimer t)) s'
  | stop {me : Cpu} {s' : State} (hpending : (me, .stopTimer t) ∈ s.irqs) (h : ({ s with
      irqs := s.irqs.erase (me, .stopTimer t) } : State).stopTimerPmc t = .ok s')
      (hruns : ∀ c, s'.RunsOn t c ↔ s.RunsOn t c) : Course t s (.irq me (.stopTimer t)) s'
  | tick {task : SmonTask} {s' : State} (htask : s.tasks t = some task)
      (hdue : task.timer.due s.now = true) (h : s.smonSchedTimerTick t = .ok s')
      (hruns : ∀ c, s'.RunsOn t c ↔ s.RunsOn t c) : Course t s (.tick t) s'
  | out {me : Cpu} {next : Proc} {mid s' : State} (hprompt : ∀ w, (me, w) ∉ s.irqs)
      (hruns : s.RunsOn t me) (h : s.smonSchedTaskOut me t = .ok mid) (h' : Aside t mid s')
      (hleft : ∀ c, ¬ s'.RunsOn t c) : Course t s (.switch me next) s'
  | enter {l : Label} {me : Cpu} {s₁ s₂ s' : State} (hprompt : ∀ w, (me, w) ∉ s.irqs)
      (hl : s.hookCpu? l = some me) (hout : ∀ c, ¬ s.RunsOn t c) (h₁ : Aside t s s₁)
      (henvirs : s₁.envirs = s.envirs) (h : s₁.smonSchedTaskIn me t = .ok s₂) (h₂ : Aside t s₂ s') (hmsr : s'.msr = s₂.msr)
      (hruns : ∀ c, s'.RunsOn t c ↔ c = me) : Course t s l s'
  | exit {p : Proc} {me : Cpu} {task : SmonTask} {s₀ s₁ s' : State}
      (hprompt : ∀ w, (me, w) ∉ s.irqs) (hruns : s.RunsOn t me) (htask : s.tasks t = some task)
      (hp : task.p = some p) (hstop : (s.setTask t task.disarmed).smonSampleStop me t = .ok s₀)
      (hsave : s₀.smonSampleSave t = .ok s₁) (h : Departed t s₁ s')
      (hleft : ∀ c, ¬ s'.RunsOn t c) : Course t s (.exit p) s'
  | leave {p : Proc} {s' : State} (hout : ∀ c, ¬ s.RunsOn t c) (h : Departed t s s')
      (hleft : ∀ c, ¬ s'.RunsOn t c) : Course t s (.exit p) s'
  | new {l : Label} {p : Proc} {s' : State} (hl : l.comes s.kernel = some p) (h : Born t p s s') :
      Course t s l s'
  | gone {l : Label} {s' : State} (hlt : t < s.fresh) (ht : s'.tasks t = none)
      (htrace : ∃ es, s'.trace = s.trace ++ es ∧ ∀ e ∈ es, e.task? ≠ some t ∧ e.isCount = false) :
      Course t s l s'

section Steps

variable {t : TaskId} {s s' : State} {l : Label} {ring : TaskId → List TaskId} {task task' : SmonTask}
  {p : Proc}

/-- A task that is found on the list of a CPU does not wait. -/
theorem not_waiting_of_findProc (hlisted : Listed s.book) {c : Cpu}
    (h : s.findProc p (s.cpuList c) = .ok (some t)) : t ∉ s.waitList := by
  intro hwait
  have heq := hlisted.separate.unique .waiting (.cpu c) t hwait (findProc_some h).1
  cases heq

theorem not_runsOn_of_waiting (h : t ∈ s.waitList) (c : Cpu) : ¬ s.RunsOn t c := by
  rintro ⟨-, -, -, -, hnot, -⟩
  exact hnot h

theorem not_runsOn_of_gone (htask : s.tasks t = some task) (hp : task.p = none) (c : Cpu) :
    ¬ s.RunsOn t c := by
  rintro ⟨task', p, htask', hp', -⟩
  obtain rfl := Option.some_inj.mp (htask'.symm.trans htask)
  exact absurd (hp'.symm.trans hp) (by simp)

/-- Only an `exec` ends waiting. -/
theorem mem_waitList_of_step (hforest : Forest s.book ring) (h : s.exec l = .ok s')
    (htask : s.tasks t = some task) (htask' : s'.tasks t = some task') (hp : task'.p = task.p)
    (hexec : ∀ q, l = .exec q → ¬ s.FindsWaiting q t) : t ∈ s'.waitList ↔ t ∈ s.waitList := by
  by_cases hl : ∃ q, l = .exec q
  · obtain ⟨q, rfl⟩ := hl
    rcases exec_cases h with ⟨-, rfl⟩ | ⟨u, s₁, s₂, hfound, hextra, hin, rfl⟩
    · rfl
    · have hu : t ≠ u := by
        rintro rfl
        exact hexec q rfl hfound
      have hquiet := (startExtra_cases hextra).quiet.waitList
      have hquiet' := (quiet_smonSchedTaskIn (K := fun _ => True) hin).waitList
      change t ∈ s₂.waitList ↔ _
      rw [hquiet', hquiet]
      exact List.mem_erase_of_ne hu
  -- every other event takes at most a task whose process goes
  have hold : t ≠ s.fresh := Nat.ne_of_lt (hforest.bound t task.core (entry_of_tasks htask))
  have hentry := entry_of_tasks htask
  have hentry' := entry_of_tasks htask'
  have hbook := exec_book_step hforest h
  change t ∈ s'.book.lists .waiting ↔ t ∈ s.book.lists .waiting
  generalize s'.book = b' at hbook hentry' ⊢
  cases hbook with
  | migrate q dest u hat => simp [Book.move, Book.tick, put, take]
  | fork => simp [Book.addChild, put]
  | execNone q habsent => rfl
  | exec q u hat => exact absurd ⟨q, rfl⟩ hl
  | exit q i u c rb hi hat hc hrb =>
    have hu : t ≠ u := by
      rintro rfl
      obtain ⟨-, c', hc', hq⟩ := hat
      obtain rfl := Option.some_inj.mp (hc'.symm.trans hentry)
      simp only [Book.leave, Function.update_self, Option.some_inj] at hentry'
      have hnone : task'.p = none := congrArg (fun c => c.1.p) hentry'.symm
      exact absurd (hq.symm.trans (hp.symm.trans hnone)) (by simp)
    rcases hi with rfl | ⟨rfl, -⟩
    · simp [Book.leave, take]
    · simp [Book.leave, take, List.mem_erase_of_ne hu]
  | register me pid envir rb alloc halloc =>
    simp only [Book.addRoot, Book.rootPlace, mem_put]
    exact ⟨fun hmem => hmem.resolve_right fun hnew => hold hnew.2, .inl⟩
  | unregister pid r c xs b' hr hc hpid hring hd => rw [hd.lists]
  | _ => rfl

/-- The task is still there, for the same process or for none. -/
theorem exists_task_of_follows (hforest : Forest s.book ring) (hl : l.Follows)
    (hstep : s.exec l = .ok s') {task : SmonTask} (htask : s.tasks t = some task) :
    ∃ task', s'.tasks t = some task' ∧ (task'.p = task.p ∨ task'.p = none) := by
  have hentry := entry_of_tasks htask
  have hbook := exec_book_step hforest hstep
  have hsame : s'.book.entry = s.book.entry →
      ∃ task', s'.tasks t = some task' ∧ (task'.p = task.p ∨ task'.p = none) := by
    intro heq
    obtain ⟨task', htask', hcore⟩ := tasks_of_entry ((congrFun heq t).trans hentry)
    exact ⟨task', htask', .inl (congrArg (fun c => c.1.p) hcore)⟩
  generalize hb : s'.book = b' at hbook hsame
  cases hbook with
  | exit q i u c rb hi hat hc hrb =>
    by_cases hu : t = u
    · subst hu
      have hnew : s'.book.entry t = some ({ c.1 with p := none, rb := none }, c.2) := by
        rw [hb]
        exact Function.update_self ..
      obtain ⟨task', htask', hcore⟩ := tasks_of_entry hnew
      exact ⟨task', htask', .inr (congrArg (fun c => c.1.p) hcore)⟩
    · have hnew : s'.book.entry t = some task.core := by
        rw [hb, ← hentry]
        exact Function.update_of_ne hu ..
      obtain ⟨task', htask', hcore⟩ := tasks_of_entry hnew
      exact ⟨task', htask', .inl (congrArg (fun c => c.1.p) hcore)⟩
  | forkNone | fork | execNone | exec | register | unregister | registerNone | unregisterNone =>
    exact hl.elim
  | _ => exact hsame rfl

/-- A process that is not concerned by an event runs where it ran. -/
theorem runs_step_iff {k : Kernel} (hsane : k.Sane) (hl : k.Orderly l)
    (hswitch : ∀ me next, l = .switch me next → p ≠ k.curr me ∧ p ≠ next) {c : Cpu} :
    (k.step l).cpu p = c ∧ (k.step l).curr c = p ↔ k.cpu p = c ∧ k.curr c = p := by
  obtain ⟨hcons, -⟩ := hl
  cases l with
  | switch me next =>
    obtain ⟨hprev, hnext⟩ := hswitch me next rfl
    refine and_congr_right fun _ => ?_
    by_cases hc : c = me
    · subst hc
      simp only [Kernel.step, Function.update_self]
      exact ⟨fun heq => absurd heq.symm hnext, fun heq => absurd heq.symm hprev⟩
    · simp only [Kernel.step, Function.update_of_ne hc]
  | migrate q dest =>
    by_cases hq : p = q
    · subst hq
      exact ⟨fun h => absurd h.2 (hcons c), fun h => absurd h.2 (hcons c)⟩
    · simp only [Kernel.step, Function.update_of_ne hq]
  | fork parent child pid cpu leader alloc =>
    have hne : k.curr c = p → p ≠ child := by
      rintro hcurr rfl
      have hknown := hsane.known c
      rw [hcurr, hcons.2] at hknown
      cases hknown
    constructor
    · rintro ⟨hcpu, hcurr⟩
      refine ⟨?_, hcurr⟩
      simpa only [Kernel.step, Kernel.addProc, Function.update_of_ne (hne hcurr)] using hcpu
    · rintro ⟨hcpu, hcurr⟩
      refine ⟨?_, hcurr⟩
      simpa only [Kernel.step, Kernel.addProc, Function.update_of_ne (hne hcurr)] using hcpu
  | _ => rfl

/-- A task that an event is nothing to runs where it ran. -/
theorem runsOn_iff_of_step (hforest : Forest s.book ring) (hsane : s.kernel.Sane)
    (hl : s.kernel.Orderly l) (h : s.exec l = .ok s') (htask : s.tasks t = some task)
    (htask' : s'.tasks t = some task') (hp : task'.p = task.p)
    (hexec : ∀ q, l = .exec q → ¬ s.FindsWaiting q t)
    (hswitch : ∀ me next p, l = .switch me next → task.p = some p → t ∉ s.waitList →
      p ≠ s.kernel.curr me ∧ p ≠ next) (c : Cpu) : s'.RunsOn t c ↔ s.RunsOn t c := by
  have hwait := mem_waitList_of_step hforest h htask htask' hp hexec
  have hkernel : s'.kernel = s.kernel.step l := (exec_book_step hforest h).kernel
  constructor
  · rintro ⟨x, p, hx, hxp, hnot, hruns⟩
    obtain rfl := Option.some_inj.mp (hx.symm.trans htask')
    rw [hkernel] at hruns
    have hnot' := fun hmem => hnot (hwait.mpr hmem)
    refine ⟨task, p, htask, hp ▸ hxp, hnot', (runs_step_iff hsane hl ?_).mp hruns⟩
    exact fun me next heq => hswitch me next p heq (hp ▸ hxp) hnot'
  · rintro ⟨x, p, hx, hxp, hnot, hruns⟩
    obtain rfl := Option.some_inj.mp (hx.symm.trans htask)
    refine ⟨task', p, htask', hp.trans hxp, fun hmem => hnot (hwait.mp hmem), ?_⟩
    rw [hkernel]
    exact (runs_step_iff hsane hl fun me next heq => hswitch me next p heq hxp hnot).mpr hruns

/-- A call leaves the process of its task alone. -/
theorem Call.same_p {me : Cpu} {es : List TraceEvent} {ws : List Sample} {qs : List Irq}
    (h : Call t me task task' es ws qs s s') : task'.p = task.p := congrArg (fun c => c.1.p) h.core

theorem book_eq_of_switch {me : Cpu} {next : Proc} (hforest : Forest s.book ring)
    (h : s.exec (.switch me next) = .ok s') : s'.book = s.book.tick (.switch me next) := by
  have hbook := exec_book_step hforest h
  generalize s'.book = b' at hbook ⊢
  cases hbook
  rfl

/-- A switch leaves waiting tasks, and the processes of tasks, alone. -/
theorem book_switch {me : Cpu} {next : Proc} (hforest : Forest s.book ring)
    (h : s.exec (.switch me next) = .ok s') : s'.waitList = s.waitList ∧
      ∀ {task task'}, s.tasks t = some task → s'.tasks t = some task' → task'.p = task.p := by
  have hbook := book_eq_of_switch hforest h
  refine ⟨congrFun (congrArg Book.lists hbook) .waiting, fun htask htask' => ?_⟩
  have hentry := congrFun (congrArg Book.entry hbook) t
  have heq := (entry_of_tasks htask').symm.trans (hentry.trans (entry_of_tasks htask))
  exact congrArg (fun c => c.1.p) (Option.some_inj.mp heq)

theorem exists_task_switch {me : Cpu} {next : Proc} (hforest : Forest s.book ring)
    (h : s.exec (.switch me next) = .ok s') (htask : s.tasks t = some task) :
    ∃ task', s'.tasks t = some task' ∧ task'.p = task.p := by
  have hbook := book_eq_of_switch hforest h
  have hentry := congrFun (congrArg Book.entry hbook) t
  obtain ⟨task', htask', -⟩ := tasks_of_entry (hentry.trans (entry_of_tasks htask))
  exact ⟨task', htask', (book_switch hforest h).2 htask htask'⟩

/-- A task that was found at an `exec` is there afterwards, and waits no more. -/
theorem exists_task_exec (hlisted : Listed s.book) (h : s.exec (.exec p) = .ok s')
    (hfound : s.FindsWaiting p t) :
    ∃ task', s'.tasks t = some task' ∧ task'.p = some p ∧ t ∉ s'.waitList := by
  rcases exec_cases h with ⟨hnone, -⟩ | ⟨u, s₁, s₂, hfound', hextra, hin, rfl⟩
  · rw [FindsWaiting, hnone] at hfound
    cases hfound
  obtain rfl : u = t := Option.some_inj.mp (Except.ok.inj (hfound'.symm.trans hfound))
  obtain ⟨-, task, htask, hp⟩ := findProc_some hfound
  have hquiet := (startExtra_cases hextra).quiet
  have hquiet' : Quiet (fun _ => True) u s₁ s₂ := quiet_smonSchedTaskIn hin
  have hdel : (s.delWaitList u).tasks u = some task := htask
  obtain ⟨task₁, htask₁, hcore₁⟩ := hquiet.exists_task hdel
  obtain ⟨task₂, htask₂, hcore₂⟩ := hquiet'.exists_task htask₁
  refine ⟨task₂, htask₂, ?_, ?_⟩
  · rw [congrArg TaskCore.p hcore₂, congrArg TaskCore.p hcore₁, hp]
  · change u ∉ s₂.waitList
    rw [hquiet'.waitList, hquiet.waitList]
    exact (hlisted.separate.nodup .waiting).not_mem_erase

/-- **Every event is a step of the course of a task.** -/
theorem exec_course (hforest : Forest s.book ring) (hlisted : Listed s.book)
    (hsane : s.kernel.Sane) (hreached : s.Reached t) (hl : s.kernel.Orderly l)
    (hprompt : s.Prompt l) (hstep : s.Step l s') : Course t s l s' := by
  have hkernel : s'.kernel = s.kernel.step l := (exec_book_step hforest hstep.2).kernel
  have hsame : ∀ task task', s.tasks t = some task → s'.tasks t = some task' →
      task'.p = task.p → (∀ q, l ≠ .exec q) → (∀ me next, l ≠ .switch me next) →
      ∀ c, s'.RunsOn t c ↔ s.RunsOn t c := fun task task' htask htask' hp hexec hswitch =>
    runsOn_iff_of_step hforest hsane hl hstep.2 htask htask' hp
      (fun q heq => absurd heq (hexec q)) fun me next _ heq => absurd heq (hswitch me next)
  have hfinds : ∀ q, s.Finds q t → ∃ task, s.tasks t = some task ∧ task.p = some q ∧
      t ∉ s.waitList := fun q hq => by
    obtain ⟨-, task, htask, hp⟩ := findProc_some hq
    exact ⟨task, htask, hp, not_waiting_of_findProc hlisted hq⟩
  have hcurr : ∀ c, s.Finds (s.kernel.curr c) t → s.RunsOn t c := fun c hq => by
    obtain ⟨task, htask, hp, hnot⟩ := hfinds _ hq
    exact ⟨task, _, htask, hp, hnot, hsane.cpu c, rfl⟩
  cases exec_turn hforest t hstep.2 with
  | idle hidle haside =>
    cases ht : s.tasks t with
    | none =>
      refine .aside hidle haside fun c => ⟨?_, ?_⟩
      · rintro ⟨task', p, htask', -⟩
        obtain ⟨task, htask, -⟩ := haside.task_before htask'
        exact absurd (htask.symm.trans ht) (by simp)
      · rintro ⟨task, p, htask, -⟩
        exact absurd (htask.symm.trans ht) (by simp)
    | some task =>
      obtain ⟨task', htask', hagrees⟩ := haside.exists_task ht
      refine .aside hidle haside (runsOn_iff_of_step hforest hsane hl hstep.2 ht htask' hagrees.p ?_ ?_)
      · rintro q rfl
        exact hidle
      · rintro me next p rfl hp hnot
        have hfound := (hreached task p ht hp).resolve_left hnot
        constructor
        · rintro rfl
          exact hidle.1 hfound
        · rintro rfl
          refine hidle.2 ?_
          have hme : s.kernel.cpu p = me := hl.1
          rw [FindsNext, hsane.cpu, ← hme]
          exact hfound
  | time d => exact .time d
  | count me ctr inc => exact .count me ctr inc
  | @start me s' h =>
    have h' := h
    obtain ⟨task, envir, s₁, htask, -, hcall, -, -, hsample⟩ := call_startTimerPmc h
    obtain ⟨task', htask', hcore, -⟩ := dial_smonSampleStart hcall.after hsample
    exact .start hstep.1 h' (hsame task task' htask htask'
      ((congrArg (fun c => c.1.p) hcore).trans hcall.same_p) (by simp) (by simp))
  | @stop me s' h =>
    obtain ⟨task, htask, hcall, -⟩ := call_stopTimerPmc me h
    exact .stop hstep.1 h (hsame task _ htask hcall.after hcall.same_p (by simp) (by simp))
  | tick h =>
    obtain ⟨task, htask, -⟩ := bind_eq_ok.mp h
    rw [task_eq_ok] at htask
    have hdue : task.timer.due s.now = true := by
      have henabled : (s.tasks t).any (fun task => task.timer.due s.now) = true := hstep.1
      simpa [htask] using henabled
    have hafter : ∃ task', s'.tasks t = some task' ∧ task'.p = task.p := by
      cases hflags : task.timerFlags with
      | true =>
        obtain ⟨envir, task', -, htask', hcore, -⟩ := dial_smonSchedTimerTick htask hflags h
        exact ⟨task', htask', congrArg (fun c => c.1.p) hcore⟩
      | false =>
        obtain ⟨hcall, -⟩ := call_smonSchedTimerTick_off 0 htask hflags h
        exact ⟨_, hcall.after, hcall.same_p⟩
    obtain ⟨task', htask', hp⟩ := hafter
    exact .tick htask hdue h (hsame task task' htask htask' hp (by simp) (by simp))
  | @out me next mid s' hfound hnext h h' =>
    obtain ⟨task, htask, hp, -⟩ := hfinds _ hfound
    have hruns := hcurr me hfound
    rw [hsane.cpu] at h
    refine .out (fun w => hprompt (by simp) me w rfl) hruns h h' ?_
    rintro c ⟨task', p, htask', hp', -, hcpu, hc⟩
    have hsame_p := (book_switch hforest hstep.2).2 htask htask'
    obtain rfl : p = s.kernel.curr me := Option.some_inj.mp (hp'.symm.trans (hsame_p.trans hp))
    rw [hkernel] at hcpu hc
    obtain rfl : me = c := (hsane.cpu me).symm.trans hcpu
    have hnext : next = s.kernel.curr me := by simpa only [Kernel.step, Function.update_self] using hc
    exact (hl.2 me next rfl).1 hnext
  | @enter me next s₁ s₂ s' hprev hfound h₁ henvirs h h₂ hmsr =>
    rw [FindsNext, hsane.cpu] at hfound
    rw [hsane.cpu] at h
    obtain ⟨-, task, htask, hp⟩ := findProc_some hfound
    have hnot := not_waiting_of_findProc hlisted hfound
    have hme : s.kernel.cpu next = me := hl.1
    have hwait := (book_switch (t := t) hforest hstep.2).1
    refine .enter (fun w => hprompt (by simp) me w rfl) rfl ?_ h₁ henvirs h h₂ hmsr fun c => ⟨?_, ?_⟩
    · rintro c ⟨x, p, hx, hxp, -, hcpu, hc⟩
      obtain rfl := Option.some_inj.mp (hx.symm.trans htask)
      obtain rfl := Option.some_inj.mp (hxp.symm.trans hp)
      obtain rfl : me = c := hme.symm.trans hcpu
      exact (hl.2 me p rfl).1 hc.symm
    · rintro ⟨x, p, hx, hxp, -, hcpu, -⟩
      have hsame_p := (book_switch hforest hstep.2).2 htask hx
      obtain rfl := Option.some_inj.mp (hxp.symm.trans (hsame_p.trans hp))
      rw [hkernel] at hcpu
      exact hcpu.symm.trans hme
    · rintro rfl
      obtain ⟨x, hx, hxp⟩ := exists_task_switch hforest hstep.2 htask
      refine ⟨x, next, hx, hxp.trans hp, hwait ▸ hnot, ?_⟩
      rw [hkernel]
      exact ⟨hme, by simp only [Kernel.step, Function.update_self]⟩
  | @again me next mid s₂ s' hfound hnext h h' h₂ =>
    obtain ⟨task, htask, hp, -⟩ := hfinds _ hfound
    obtain ⟨-, x, hx, hxp⟩ := findProc_some hnext
    obtain rfl := Option.some_inj.mp (hx.symm.trans htask)
    exact absurd (Option.some_inj.mp (hxp.symm.trans hp)) (hl.2 me next rfl).1
  | @exec p s₁ s₂ s' hfound h₁ henvirs h h₂ hmsr =>
    obtain ⟨hwait, task, htask, hp⟩ := findProc_some hfound
    obtain ⟨task', htask', hp', hnot⟩ := exists_task_exec hlisted hstep.2 hfound
    refine .enter (fun w => hprompt (by simp) _ w rfl) rfl (not_runsOn_of_waiting hwait) h₁ henvirs
      h h₂ hmsr fun c => ⟨?_, ?_⟩
    · rintro ⟨x, q, hx, hxq, -, hcpu, -⟩
      obtain rfl := Option.some_inj.mp (hx.symm.trans htask')
      obtain rfl := Option.some_inj.mp (hxq.symm.trans hp')
      rw [hkernel] at hcpu
      exact hcpu.symm
    · rintro rfl
      refine ⟨task', p, htask', hp', hnot, ?_⟩
      rw [hkernel]
      exact ⟨rfl, hl.1⟩
  | @exit p task s₀ s₁ s' hfound htask hstop hsave h =>
    obtain ⟨x, hx, hp, hnot⟩ := hfinds _ hfound
    obtain rfl := Option.some_inj.mp (hx.symm.trans htask)
    obtain ⟨task', htask', hnone⟩ := h.after
    exact .exit (fun w => hprompt (by simp) _ w rfl) ⟨x, p, hx, hp, hnot, rfl, hl.1⟩ hx hp hstop hsave h
      (not_runsOn_of_gone htask' hnone)
  | leave hnot hfound h =>
    obtain ⟨task', htask', hnone⟩ := h.after
    exact .leave (not_runsOn_of_waiting (findProc_some hfound).1) h (not_runsOn_of_gone htask' hnone)
  | new hcomes h => exact .new hcomes h
  | gone hlt ht htrace => exact .gone hlt ht htrace

end Steps

end SchedMon
