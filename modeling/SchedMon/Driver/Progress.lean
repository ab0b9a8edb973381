import SchedMon.Driver.Arming
import SchedMon.Driver.Pointers

/-!
# No oops

Every task that a list, a queued interrupt or a parent refers to is live, as long as families are
unregistered when they have exited and no interrupt waits for them. So no event faults for a
pointer. Of the kernel nothing is assumed; hooks may be called in any order.

What remains are event sets that do not exist, and an allocation that the module does not check.

## Main definitions

* `State.Sound` — what is referred to is live
* `CarefulStep` — tasks are destroyed when nothing is left to happen to them

## Main results

* `State.Sound.exec`, `State.Sound.step` — no event faults for a pointer, and what it leaves is sound
* `onlyEvsets_of_run` — **the only faults are those of event sets**
* `goesOn_iff` — **with usable environments, every event goes through** but for one allocation
* `nothingLeft_of_run` — **when nothing is registered, nothing is left**
-/

namespace SchedMon

open State SchedMon.Shelf

variable {s s' : State} {t : TaskId} {me : Cpu} {p : Proc}

/-! ### Pending interrupts -/

section Asks

variable {l : Label} {ring : TaskId → List TaskId} {c : Cpu} {w : Irq}

theorem irqs_smonReleaseRb (b : RbId) : (s.smonReleaseRb b).irqs = s.irqs := by
  unfold smonReleaseRb
  dsimp only
  split <;> rfl

theorem irqs_leave (h : s.leave t = .ok s') : s'.irqs = s.irqs := by
  obtain ⟨task, b, -, -, rfl⟩ := leave_eq_ok.mp h
  exact irqs_smonReleaseRb b

theorem irqs_childAdded (h : ChildAdded s t p s') : s'.irqs = s.irqs := by
  obtain ⟨task, b, envir, s₁, task₁, -, -, -, hadd, -, rfl⟩ := h.add
  simp only [addChild, bind_eq_ok, pure_eq_ok] at hadd
  obtain ⟨next, -, -, -, rfl⟩ := hadd
  have hnew : (s.newChild p task.envir envir b).irqs = s.irqs := rfl
  exact hnew

theorem irqs_unregister {pid : Pid} (hforest : Forest s.book ring)
    (h : s.exec (.unregister pid) = .ok s') : s'.irqs = s.irqs := by
  obtain ⟨⟨ret, s₁⟩, hunregister, hs⟩ := bind_eq_ok.mp h
  cases hs
  simp only [smonSchedUnregisterTask, bind_eq_ok] at hunregister
  obtain ⟨found, hfound, hunregister⟩ := hunregister
  cases found with
  | none =>
    cases hunregister
    rfl
  | some r =>
    obtain ⟨s₂, hs₂, hun⟩ := hforest.unregister (findTask_some hfound).1
    simp only [hs₂, bind, Except.bind, pure, Except.pure, Except.ok.injEq, Prod.mk.injEq]
      at hunregister
    obtain ⟨-, rfl⟩ := hunregister
    exact hun.irqs

/-- A call for a live task queues interrupts for that task. -/
theorem Quiet.asks {K : Sample → Prop} (h : Quiet K t s s') (hlive : ∃ task, s'.tasks t = some task)
    (hmem : (c, w) ∈ s'.irqs) : (c, w) ∈ s.irqs ∨ ∃ task, s'.tasks w.task = some task := by
  rcases h.irqs c w hmem with hmem | hw
  · exact .inl hmem
  · rw [hw]
    exact .inr hlive

/-- The tasks that are live stay so. -/
theorem Quiet.exists_after {K : Sample → Prop} {u : TaskId} (h : Quiet K t s s')
    (hlive : ∃ task, s.tasks u = some task) : ∃ task, s'.tasks u = some task := by
  obtain ⟨task, htask⟩ := hlive
  have hcore := h.cores u
  rw [htask, Option.map_some, Option.map_eq_some_iff] at hcore
  obtain ⟨task', htask', -⟩ := hcore
  exact ⟨task', htask'⟩

theorem exists_task_of_findProc {us : List TaskId} (h : s.findProc p us = .ok (some t)) :
    ∃ task, s.tasks t = some task := by
  obtain ⟨-, task, htask, -⟩ := findProc_some h
  exact ⟨task, htask⟩

theorem asks_irq {w₀ : Irq} (h : s.exec (.irq me w₀) = .ok s') (hmem : (c, w) ∈ s'.irqs) :
    (c, w) ∈ s.irqs ∨ ∃ task, s'.tasks w.task = some task := by
  have hquiet : Quiet (fun _ => True) w₀.task { s with irqs := s.irqs.erase (me, w₀) } s' :=
    quiet_runIrq h
  have hlive : ∃ task, s.tasks w₀.task = some task := by
    cases w₀ with
    | startTimer t =>
      obtain ⟨task, htask, -⟩ := bind_eq_ok.mp h
      exact ⟨task, task_eq_ok.mp htask⟩
    | stopTimer t =>
      obtain ⟨task, htask, -⟩ := bind_eq_ok.mp h
      exact ⟨task, task_eq_ok.mp htask⟩
    | startRapl t =>
      obtain ⟨extra, hextra, -⟩ := bind_eq_ok.mp h
      obtain ⟨task, htask, -⟩ := extra_eq_ok.mp hextra
      exact ⟨task, htask⟩
  exact (hquiet.asks (hquiet.exists_after hlive) hmem).imp_left List.mem_of_mem_erase

theorem asks_switch {next : Proc} (h : s.exec (.switch me next) = .ok s') (hmem : (c, w) ∈ s'.irqs) :
    (c, w) ∈ s.irqs ∨ ∃ task, s'.tasks w.task = some task := by
  obtain ⟨s₁, hswitch, hs⟩ := bind_eq_ok.mp h
  cases hs
  obtain ⟨mid, hout, hin⟩ := switch_cases hswitch
  have hmid : (c, w) ∈ mid.irqs → (c, w) ∈ s.irqs ∨ ∃ task, mid.tasks w.task = some task := by
    intro hmem
    rcases hout with ⟨-, rfl⟩ | ⟨t, hfound, hout⟩
    · exact .inl hmem
    · have hquiet := quiet_smonSchedTaskOut (K := fun _ => True) (fun _ => trivial)
        (fun _ => trivial) hout
      exact hquiet.asks (hquiet.exists_after (exists_task_of_findProc hfound)) hmem
  rcases hin with ⟨-, rfl⟩ | ⟨t, hfound, hin⟩
  · exact hmid hmem
  · have hquiet := quiet_smonSchedTaskIn (K := fun _ => True) hin
    rcases hquiet.asks (hquiet.exists_after (exists_task_of_findProc hfound)) hmem with hmem | hlive
    · exact (hmid hmem).imp_right hquiet.exists_after
    · exact .inr hlive

theorem asks_migrate {dest : Cpu} (h : s.exec (.migrate p dest) = .ok s')
    (hmem : (c, w) ∈ s'.irqs) : (c, w) ∈ s.irqs ∨ ∃ task, s'.tasks w.task = some task := by
  obtain ⟨s₁, hmigrate, hs⟩ := bind_eq_ok.mp h
  cases hs
  rcases migrate_cases hmigrate with ⟨-, rfl⟩ | ⟨t, s₂, hfound, hquiet, -, rfl⟩
  · exact .inl hmem
  · have hfound' := exists_task_of_findProc hfound
    have hlive : ∃ task, (s.delCpuList (s.kernel.cpu p) t).tasks t = some task := hfound'
    exact hquiet.asks (hquiet.exists_after hlive) hmem

theorem asks_fork {parent child : Proc} {pid : Pid} {cpu : Cpu} {leader alloc : Bool}
    (hforest : Forest s.book ring) (h : s.exec (.fork parent child pid cpu leader alloc) = .ok s')
    (hmem : (c, w) ∈ s'.irqs) : (c, w) ∈ s.irqs ∨ ∃ task, s'.tasks w.task = some task := by
  rcases fork_cases h with ⟨-, rfl⟩ | ⟨t, s₁, hfound, hregister, hquiet⟩
  · exact .inl hmem
  obtain ⟨task, htask⟩ := exists_task_of_findProc hfound
  have hirqs : s₁.irqs = s.irqs := by
    obtain ⟨-, -, -, -, ⟨-, -, hadd⟩ | ⟨-, rfl⟩, -⟩ := hregister
    · exact (irqs_childAdded hadd).trans rfl
    · rfl
  rcases hquiet.irqs c w hmem with hmem | hw
  · exact .inl (hirqs ▸ hmem)
  · rw [hw]
    exact .inr (exists_task_of_step hforest h htask (by simp))

theorem asks_exec (h : s.exec (.exec p) = .ok s') (hmem : (c, w) ∈ s'.irqs) :
    (c, w) ∈ s.irqs ∨ ∃ task, s'.tasks w.task = some task := by
  rcases exec_cases h with ⟨-, rfl⟩ | ⟨t, s₁, s₂, hfound, hextra, hin, rfl⟩
  · exact .inl hmem
  · have hquiet : Quiet (fun _ => True) t (s.delWaitList t) s₁ :=
      (startExtra_cases hextra).quiet.mono fun _ _ => trivial
    have hall := hquiet.trans (quiet_smonSchedTaskIn hin)
    have hfound' := exists_task_of_findProc hfound
    have hlive : ∃ task, (s.delWaitList t).tasks t = some task := hfound'
    exact hall.asks (hall.exists_after hlive) hmem

theorem asks_exit (hforest : Forest s.book ring) (h : s.exec (.exit p) = .ok s')
    (hmem : (c, w) ∈ s'.irqs) : (c, w) ∈ s.irqs ∨ ∃ task, s'.tasks w.task = some task := by
  rcases exit_cases h with ⟨-, -, rfl⟩ | ⟨t, s₁, s₂, hexit⟩ | ⟨t, hexit⟩
  · exact .inl hmem
  · obtain ⟨task, htask⟩ := exists_task_of_findProc hexit.found
    have hlive := exists_task_of_step hforest h htask (by simp)
    rcases hexit.quiet_cancel.asks hlive hmem with hmem | hlive'
    · rw [irqs_leave hexit.leave] at hmem
      rcases hexit.quiet.irqs c w hmem with hmem | hw
      · exact .inl hmem
      · rw [hw]
        exact .inr hlive
    · exact .inr hlive'
  · rw [irqs_leave hexit.leave] at hmem
    exact .inl hmem

theorem asks_register {pid : Pid} {envir : SmonEnvir} {b : RbId} {alloc : Alloc}
    (h : s.exec (.register me pid envir b alloc) = .ok s') (hmem : (c, w) ∈ s'.irqs) :
    (c, w) ∈ s.irqs ∨ ∃ task, s'.tasks w.task = some task := by
  obtain ⟨⟨ret, s₁⟩, hregister, hs⟩ := bind_eq_ok.mp h
  cases hs
  rcases register_cases hregister with ⟨-, -, rfl⟩ | ⟨-, -, s₀, rfl, hwait, hstart⟩
  · exact .inl hmem
  have hirqs : (s.newRoot pid envir b).irqs = s.irqs := by
    unfold State.newRoot setBatch
    split <;> rfl
  cases honExec : envir.options.onExec with
  | true =>
    rw [hwait honExec] at hmem
    exact .inl (hirqs ▸ hmem)
  | false =>
    obtain ⟨s₂, hextra, rfl⟩ := hstart honExec
    have hquiet := (startExtra_cases hextra).quiet
    have hlive := hquiet.exists_after ⟨_, (newRoot_task s pid envir b).1⟩
    rcases hquiet.asks hlive hmem with hmem | hlive'
    · exact .inl (hirqs ▸ hmem)
    · exact .inr hlive'

/-- **Interrupts are queued for live tasks only.** -/
theorem asks_of_exec (hforest : Forest s.book ring) (h : s.exec l = .ok s')
    (hmem : (c, w) ∈ s'.irqs) : (c, w) ∈ s.irqs ∨ ∃ task, s'.tasks w.task = some task := by
  cases l with
  | time d =>
    cases h
    exact .inl hmem
  | count me ctr inc =>
    cases h
    exact .inl hmem
  | irq me w₀ => exact asks_irq h hmem
  | tick t =>
    have hquiet : Quiet (fun _ => True) t s s' := quiet_smonSchedTimerTick (fun _ => trivial) h
    obtain ⟨task, htask, -⟩ := bind_eq_ok.mp h
    exact hquiet.asks (hquiet.exists_after ⟨task, task_eq_ok.mp htask⟩) hmem
  | raplTick t =>
    have hquiet : Quiet (fun _ => True) t s s' := quiet_smonSchedTimerRapl (fun _ => trivial) h
    obtain ⟨extra, hextra, -⟩ := bind_eq_ok.mp h
    obtain ⟨task, htask, -⟩ := extra_eq_ok.mp hextra
    exact hquiet.asks (hquiet.exists_after ⟨task, htask⟩) hmem
  | switch me next => exact asks_switch h hmem
  | migrate p dest => exact asks_migrate h hmem
  | fork parent child pid cpu leader alloc => exact asks_fork hforest h hmem
  | exec p => exact asks_exec h hmem
  | exit p => exact asks_exit hforest h hmem
  | reap p =>
    cases h
    exact .inl hmem
  | register me pid envir b alloc => exact asks_register h hmem
  | unregister pid => exact .inl (irqs_unregister hforest h ▸ hmem)

theorem State.HasExtra.quiet {K : Sample → Prop} {u : TaskId} (h : s.HasExtra u) (hquiet : Quiet K t s s') :
    s'.HasExtra u := by
  obtain ⟨task, extra, htask, hextra⟩ := h
  have hcore := hquiet.cores u
  rw [htask, Option.map_some, Option.map_eq_some_iff] at hcore
  obtain ⟨task', htask', hcore⟩ := hcore
  have hmap : task'.extra.map SmonTaskExtra.rb = task.extra.map SmonTaskExtra.rb :=
    congrArg Prod.snd hcore
  rw [hextra, Option.map_some, Option.map_eq_some_iff] at hmap
  obtain ⟨extra', hextra', -⟩ := hmap
  exact ⟨task', extra', htask', hextra'⟩

theorem hasExtra_of_startRapl {u : TaskId} (h : s.startExtra me t = .ok s')
    (hmem : (c, .startRapl u) ∈ s'.irqs) : (c, .startRapl u) ∈ s.irqs ∨ s'.HasExtra u := by
  rcases (rests_startExtra h).2 c u hmem with hmem | ⟨rfl, task, envir, htask, -⟩
  · exact .inl hmem
  have hstarted := startExtra_cases h
  cases hextra : task.extra with
  | none => exact .inl (hstarted.none task htask hextra ▸ hmem)
  | some extra => exact .inr (HasExtra.quiet ⟨task, extra, htask, hextra⟩ hstarted.quiet)

/-- A request for a RAPL timer is for a registered task. -/
theorem taskList_of_startRapl (hforest : Forest s.book ring) (h : s.exec l = .ok s')
    (hmem : (c, .startRapl t) ∈ s'.irqs) : (c, .startRapl t) ∈ s.irqs ∨ t ∈ s'.taskList := by
  obtain ⟨ring', hforest'⟩ := hforest.step (exec_book_step hforest h)
  -- a task with an extra part is registered
  have hroot : ∀ {u : TaskId}, (s'.HasExtra u) → u ∈ s'.taskList := by
    rintro u ⟨task, extra, htask, hextra⟩
    obtain ⟨hr, hu⟩ := hforest'.live u task.core (entry_of_tasks htask)
    obtain ⟨d, hd, -, hiff⟩ := hforest'.member _ hr u hu
    obtain rfl := Option.some_inj.mp (hd.symm.trans (entry_of_tasks htask))
    have heq := hiff.mp (by simp [SmonTask.core, hextra])
    exact heq ▸ hr
  have hrests : l.Restful → (c, .startRapl t) ∈ s.irqs := fun hl =>
    (rests_of_exec hforest hl h).pending c t hmem
  cases l with
  | irq me w =>
    cases w with
    | startRapl u => exact .inl ((armed_startRapl h).2 c t hmem)
    | startTimer u => exact .inl (hrests trivial)
    | stopTimer u => exact .inl (hrests trivial)
  | exec p =>
    rcases exec_cases h with ⟨-, rfl⟩ | ⟨u, s₁, s₂, hfound, hextra, hin, rfl⟩
    · exact .inl hmem
    · have hmem₁ := (rests_smonSchedTaskIn hin).pending c t hmem
      rcases hasExtra_of_startRapl hextra hmem₁ with hmem₀ | hlive
      · exact .inl hmem₀
      · have hlive₂ := HasExtra.quiet hlive (quiet_smonSchedTaskIn (K := fun _ => True) hin)
        exact .inr (hroot hlive₂)
  | register me pid envir b alloc =>
    obtain ⟨⟨ret, s₁⟩, hregister, hs⟩ := bind_eq_ok.mp h
    cases hs
    rcases register_cases hregister with ⟨-, -, rfl⟩ | ⟨-, -, s₀, rfl, hwait, hstart⟩
    · exact .inl hmem
    have hirqs : (s.newRoot pid envir b).irqs = s.irqs := by
      unfold State.newRoot setBatch
      split <;> rfl
    cases honExec : envir.options.onExec with
    | true =>
      rw [hwait honExec] at hmem
      exact .inl (hirqs ▸ hmem)
    | false =>
      obtain ⟨s₂, hextra, rfl⟩ := hstart honExec
      rcases hasExtra_of_startRapl hextra hmem with hmem₀ | hlive
      · exact .inl (hirqs ▸ hmem₀)
      · exact .inr (hroot hlive)
  | _ => exact .inl (hrests trivial)

end Asks

/-! ### The system -/

/-- Everything that is referred to is live. -/
structure State.Sound (s : State) : Prop where
  forest : ∃ ring, Forest s.book ring
  listed : Listed s.book
  reach : s.book.Reaches
  pending : ∀ c w, (c, w) ∈ s.irqs → ∃ task, s.tasks w.task = some task
  rapl : ∀ c t, (c, .startRapl t) ∈ s.irqs → t ∈ s.taskList

/-- The event asks for no allocation that fails unnoticed. -/
def Label.Allocates : Label → Prop
  | .register _ _ _ _ alloc => alloc.Extra
  | _ => True

/-- A step of a run in which a task is destroyed only when its process has exited and no interrupt
is pending for it. -/
structure CarefulStep (s : State) (l : Label) (s' : State) : Prop where
  step : s.Step l s'
  gone : ∀ t, s.tasks t ≠ none → s'.tasks t = none →
    s.alive t = false ∧ ∀ c w, (c, w) ∈ s.irqs → w.task ≠ t

section System

variable {l : Label} {ls : List Label} {s₀ : State} {b b' : Book}

/-- **No event faults for a pointer.** -/
theorem State.Sound.exec (h : s.Sound) (henabled : s.Enabled l) (hl : l.Allocates) :
    FaultFree (s.exec l) := by
  obtain ⟨ring, hforest⟩ := h.forest
  cases l with
  | time d => exact trivial
  | count me ctr inc => exact trivial
  | irq me w =>
    have hmem : (me, w) ∈ s.irqs := henabled
    obtain ⟨task, htask⟩ := h.pending me w hmem
    have hlive : s.Live w.task := .of_forest hforest htask
    have herase : ({ s with irqs := s.irqs.erase (me, w) } : State).Live w.task := hlive
    cases w with
    | startTimer t => exact (herase.startTimerPmc me).mono fun _ _ => trivial
    | stopTimer t => exact herase.stopTimerPmc.mono fun _ _ => trivial
    | startRapl t =>
      obtain ⟨x, extra, hx, hextra⟩ := hforest.extra (h.rapl me t hmem)
      have hlive : ({ s with irqs := s.irqs.erase (me, .startRapl t) } : State).HasExtra t :=
        ⟨x, extra, hx, hextra⟩
      exact HasExtra.startTimerRapl hlive me
  | tick t =>
    obtain ⟨task, htask, -⟩ := (Option.any_eq_true _ _).mp henabled
    exact (Live.of_forest hforest htask).smonSchedTimerTick.mono fun _ _ => trivial
  | raplTick t =>
    obtain ⟨task, htask, hdue⟩ := (Option.any_eq_true _ _).mp henabled
    obtain ⟨extra, hextra, -⟩ := (Option.any_eq_true _ _).mp hdue
    exact HasExtra.smonSchedTimerRapl ⟨task, extra, htask, hextra⟩
  | switch me next => exact (smonSchedSwitch_safe hforest h.reach _ next).bind fun _ _ => trivial
  | migrate p dest => exact (smonSchedMigrateTask_safe hforest h.reach p dest).bind fun _ _ => trivial
  | fork parent child pid cpu leader alloc =>
    have hforest' : Forest (s.withKernel (s.kernel.step (.fork parent child pid cpu leader alloc))).book
        ring := hforest.congr rfl rfl rfl rfl rfl fun t => .inl rfl
    exact smonSchedProcessFork_safe hforest' h.reach parent child alloc
  | exec p => exact smonSchedProcessExec_safe hforest h.reach p
  | exit p => exact smonSchedProcessExit_safe hforest h.reach p
  | reap p => exact trivial
  | register me pid envir b alloc =>
    obtain ⟨x, hx⟩ := exists_smonSchedRegisterTask (s := s) hl me pid envir b
    rw [State.exec, bind_of_ok hx]
    trivial
  | unregister pid => exact (smonSchedUnregisterTask_safe hforest pid).bind fun _ _ => trivial

/-- Lists are kept clear of dead tasks, unless one is destroyed before its process exits. -/
theorem Book.Reaches.step (h : b.Reaches) (hlisted : Listed b) (hstep : BookStep b l b')
    (hgone : ∀ t c, b.entry t = some c → b'.entry t = none → c.1.p = none) : b'.Reaches := by
  have hadd : ∀ {i : Place} {e : TaskCore × Option RbId} {entry : TaskId → _},
      entry b.fresh = some e → (∀ t c, b.entry t = some c → ∃ c', entry t = some c') →
      ∀ j, ∀ t ∈ put b.lists i b.fresh j, ∃ c, entry t = some c := by
    intro i e entry he hentry j t ht
    rcases mem_put.mp ht with ht | ⟨-, rfl⟩
    · obtain ⟨c, hc⟩ := h j t ht
      exact hentry t c hc
    · exact ⟨e, he⟩
  cases hstep with
  | idle | migrateNone | execNone | exitNone | registerNone | unregisterNone | forkNone => exact h
  | migrate p dest t hat =>
    intro i u hu
    rcases (hlisted.separate.mem_move hat.1).mp hu with ⟨hu, -⟩ | ⟨-, rfl⟩
    · exact h i u hu
    · exact h _ u hat.1
  | exec p t hat =>
    intro i u hu
    rcases (hlisted.separate.mem_move hat.1).mp hu with ⟨hu, -⟩ | ⟨-, rfl⟩
    · exact h i u hu
    · exact h _ u hat.1
  | exit p i t c rb hi hat hc hrb =>
    intro j u hu
    obtain ⟨hu, hne⟩ := (hlisted.separate.mem_take hat.1).mp hu
    obtain ⟨d, hd⟩ := h j u hu
    exact ⟨d, (Function.update_of_ne hne ..).trans hd⟩
  | register me pid envir rb alloc halloc =>
    refine hadd (Function.update_self ..) fun t c hc => ?_
    have hne : t ≠ b.fresh := Nat.ne_of_lt (hlisted.fresh t c hc)
    exact ⟨c, (Function.update_of_ne hne ..).trans hc⟩
  | fork parent child pid cpu leader k t c rb envir hk hat hc hrb henvir hinherit =>
    have hne : b.fresh ≠ t := Nat.ne_of_gt (hlisted.fresh t c hc)
    refine hadd ((Function.update_of_ne hne ..).trans (Function.update_self ..)) fun u d hd => ?_
    by_cases hu : u = t
    · subst hu
      exact ⟨_, Function.update_self ..⟩
    · have hne' : u ≠ b.fresh := Nat.ne_of_lt (hlisted.fresh u d hd)
      exact ⟨d, ((Function.update_of_ne hu ..).trans (Function.update_of_ne hne' ..)).trans hd⟩
  | unregister pid r c xs b' hr hc hpid hring hd =>
    intro i u hu
    rw [hd.lists] at hu
    obtain ⟨d, hd'⟩ := h i u hu
    cases hu' : b'.entry u with
    | some d' => exact ⟨d', rfl⟩
    | none =>
      have hp := (hlisted.live u d hd').mp ⟨i, hu⟩
      rw [hgone u d hd' hu'] at hp
      cases hp

/-- **What is referred to stays live.** -/
theorem State.Sound.step (h : s.Sound) (hstep : CarefulStep s l s') : s'.Sound := by
  obtain ⟨⟨henabled, hexec⟩, hgone⟩ := hstep
  obtain ⟨ring, hforest⟩ := h.forest
  have hbook := exec_book_step hforest hexec
  have hforest' := hforest.step hbook
  have hdead : ∀ t task, s.tasks t = some task → s'.tasks t = none →
      s.alive t = false ∧ ∀ c w, (c, w) ∈ s.irqs → w.task ≠ t := fun t task htask =>
    hgone t (by rw [htask]; simp)
  refine ⟨hforest', h.listed.step hbook, h.reach.step h.listed hbook fun t c hc hnone => ?_,
    fun c w hmem => ?_, fun c t hmem => ?_⟩
  · obtain ⟨task, htask, rfl⟩ := tasks_of_entry hc
    have hnone' : s'.tasks t = none := Option.map_eq_none_iff.mp hnone
    have halive := (hdead t task htask hnone').1
    change task.p = none
    simpa [alive, htask] using halive
  · rcases asks_of_exec hforest hexec hmem with hmem | hlive
    · obtain ⟨task, htask⟩ := h.pending c w hmem
      cases htask' : s'.tasks w.task with
      | some task' => exact ⟨task', rfl⟩
      | none => exact absurd rfl ((hdead _ task htask htask').2 c w hmem)
    · exact hlive
  · rcases taskList_of_startRapl hforest hexec hmem with hmem | hmem
    · have hr := h.rapl c t hmem
      obtain ⟨d, hd, hroot, -⟩ := hforest.member t hr t List.mem_cons_self
      obtain ⟨task, htask, rfl⟩ := tasks_of_entry hd
      cases htask' : s'.tasks t with
      | none => exact absurd rfl ((hdead t task htask htask').2 c (.startRapl t) hmem)
      | some task' =>
        obtain ⟨ring', hforest'⟩ := hforest'
        have hkeeps := hbook.entry_keeps hd (entry_of_tasks htask') (lt_fresh_of_tasks hforest htask)
        have hlive := (hforest'.live t _ (entry_of_tasks htask')).1
        rw [hkeeps.1, hroot] at hlive
        exact hlive
    · exact hmem

theorem State.Initial.sound (h : s₀.Initial) : s₀.Sound := by
  refine ⟨⟨_, Initial.forest h⟩, Initial.listed h, fun i t ht => ?_, fun c w hmem => ?_,
    fun c t hmem => ?_⟩
  · have hlists : s₀.lists i = [] := by
      cases i with
      | waiting => exact h.waitList
      | cpu c => exact h.cpuList c
    have ht' : t ∈ s₀.lists i := ht
    rw [hlists] at ht'
    cases ht'
  · rw [h.irqs] at hmem
    cases hmem
  · rw [h.irqs] at hmem
    cases hmem

theorem sound_of_careful_run (run : Run CarefulStep s₀ ls s) (init : s₀.Initial) : s.Sound :=
  run.invariant (Initial.sound init) fun _ _ _ => State.Sound.step

/-- **The only faults are those of event sets**: whatever environments are registered, and in
whatever order the hooks are called, no event dereferences a dangling pointer. -/
theorem onlyEvsets_of_run {f : Fault} (run : Run CarefulStep s₀ ls s) (init : s₀.Initial)
    (henabled : s.Enabled l) (hl : l.Allocates) (hfault : s.exec l = .error f) : f.OfEvset :=
  Fault.ofEvset_of_not_ofMemory (((sound_of_careful_run run init).exec henabled hl).not_bad hfault)

/-- A run that unregisters nothing is careful. -/
theorem careful_of_run (run : Run State.Step s₀ ls s) (init : s₀.Initial)
    (hl : ∀ l ∈ ls, ∀ pid, l ≠ .unregister pid) : Run CarefulStep s₀ ls s := by
  refine run.induct (motive := fun ls s => (∀ l ∈ ls, ∀ pid, l ≠ .unregister pid) →
    Run CarefulStep s₀ ls s) (fun _ => .nil) ?_ hl
  intro ls s l s' run ih hstep hl
  refine (ih fun l' hl' => hl l' (List.mem_append_left _ hl')).snoc ⟨hstep, fun t hlive hgone => ?_⟩
  obtain ⟨ring, hforest⟩ := exists_forest run init
  obtain ⟨task, htask⟩ := Option.ne_none_iff_exists'.mp hlive
  obtain ⟨task', htask'⟩ := exists_task_of_step hforest hstep.2 htask (hl l (by simp))
  rw [hgone] at htask'
  cases htask'

/-- A process under an environment whose event sets do not exist, until it is about to exit. -/
def nullEvsets : State := (boot [] []).after
  [.register 0 1 roof 0 ⟨true, true, true⟩, .switch 0 1, .exec 1, .irq 0 (.startTimer 0)]

theorem onlyEvsets_of_run_nullEvsets : nullEvsets.exec (.exit 1) = .error .nullEvset ∧
    Fault.OfEvset .nullEvset := by
  have hfault : nullEvsets.exec (.exit 1) = .error .nullEvset := rfl
  have henabled : nullEvsets.Enabled (.exit 1) := trivial
  have run : Run CarefulStep (boot [] []) [.register 0 1 roof 0 ⟨true, true, true⟩, .switch 0 1,
      .exec 1, .irq 0 (.startTimer 0)] nullEvsets :=
    careful_of_run (run_after rfl) (initial_boot ..) (by simp)
  exact ⟨hfault, onlyEvsets_of_run run (initial_boot ..) henabled trivial hfault⟩

/-- A careful step that registers usable environments only. -/
structure UsableStep (s : State) (l : Label) (s' : State) : Prop where
  careful : CarefulStep s l s'
  usable : ∀ me pid envir b alloc, l = .register me pid envir b alloc → envir.Usable s.evsets

theorem State.Indexed.step {ring : TaskId → List TaskId} (h : s.Indexed) (hforest : Forest s.book ring)
    (hstep : UsableStep s l s') : s'.Indexed := by
  have hexec := hstep.careful.step.2
  by_cases hl : ∀ me pid envir b alloc, l ≠ .register me pid envir b alloc
  · exact (h.exec hl).of_ok hexec
  · push Not at hl
    obtain ⟨me, pid, envir, b, alloc, rfl⟩ := hl
    obtain ⟨⟨ret, s₁⟩, hregister, hs⟩ := bind_eq_ok.mp hexec
    cases hs
    refine h.smonSchedRegisterTask (hstep.usable me pid envir b alloc rfl) (fun t task htask => ?_)
      hregister
    have hr := (hforest.live t task.core (entry_of_tasks htask)).1
    exact Nat.ne_of_lt (hforest.lt_fresh hr List.mem_cons_self)

/-- **With usable environments, every event goes through**, but for a registration whose extra part
finds no memory. -/
theorem goesOn_iff (run : Run UsableStep s₀ ls s) (init : s₀.Initial) (henabled : s.Enabled l) :
    (∃ s', s.exec l = .ok s') ↔ l.Allocates := by
  have hinv : s.Sound ∧ s.Indexed := by
    refine run.invariant (motive := fun s => s.Sound ∧ s.Indexed)
      ⟨Initial.sound init, Initial.indexed init⟩ ?_
    rintro s l s' ⟨hsound, hindexed⟩ hstep
    obtain ⟨ring, hforest⟩ := hsound.forest
    exact ⟨hsound.step hstep.careful, hindexed.step hforest hstep⟩
  constructor
  · rintro ⟨s', hexec⟩
    cases l with
    | register me pid envir b alloc =>
      obtain ⟨x, hx, -⟩ := bind_eq_ok.mp hexec
      exact extra_of_smonSchedRegisterTask hx
    | _ => trivial
  · intro hl
    cases hexec : s.exec l with
    | ok s' => exact ⟨s', rfl⟩
    | error f =>
      have hevset := Fault.ofEvset_of_not_ofMemory ((hinv.1.exec henabled hl).not_bad hexec)
      by_cases hregister : ∀ me pid envir b alloc, l ≠ .register me pid envir b alloc
      · exact absurd hevset ((hinv.2.exec hregister).not_bad hexec)
      · push Not at hregister
        obtain ⟨me, pid, envir, b, alloc, rfl⟩ := hregister
        obtain ⟨x, hx⟩ := exists_smonSchedRegisterTask (s := s) hl me pid envir b
        rw [State.exec, bind_of_ok hx] at hexec
        cases hexec

theorem goesOn_iff_inheriting : ∃ s : State, Run UsableStep (boot [] [fixedOnly])
    [.register 0 1 inheriting 0 ⟨true, true, true⟩] s ∧
    ((∃ s', s.exec (.switch 0 1) = .ok s') ↔ Label.Allocates (.switch 0 1)) := by
  have husable : ∀ me pid envir b alloc, Label.register 0 1 inheriting 0 ⟨true, true, true⟩ =
      .register me pid envir b alloc → envir.Usable [fixedOnly] := by
    rintro me pid envir b alloc ⟨⟩
    exact ⟨by decide, by decide, fun _ _ => Nat.zero_lt_one⟩
  have run : Run UsableStep (boot [] [fixedOnly]) [.register 0 1 inheriting 0 ⟨true, true, true⟩] _ :=
    .single ⟨⟨⟨trivial, rfl⟩, fun t hlive => absurd rfl hlive⟩, husable⟩
  exact ⟨_, run, goesOn_iff run (initial_boot ..) trivial⟩

/-! ### Leaks -/

/-- Every environment is that of a registered task. -/
def Book.Owned (b : Book) : Prop := ∀ e envir, b.envirs e = some envir → e ∈ b.taskList

theorem Book.Owned.step {ring : TaskId → List TaskId} (h : b.Owned) (hforest : Forest b ring)
    (hstep : BookStep b l b') : b'.Owned := by
  cases hstep with
  | register me pid envir rb alloc halloc =>
    intro e o ho
    by_cases he : e = b.fresh
    · subst he
      exact List.mem_cons_self
    · simp only [Book.addRoot, Function.update_of_ne he] at ho
      exact List.mem_cons_of_mem _ (h e o ho)
  | fork parent child pid cpu leader k t c rb envir hk hat hc hrb henvir hinherit =>
    intro e o ho
    by_cases he : e = c.1.envir
    · subst he
      exact (hforest.live t c hc).1
    · simp only [Book.addChild, Function.update_of_ne he] at ho
      exact h e o ho
  | unregister pid r c xs b' hr hc hpid hring hd =>
    intro e o ho
    rw [hd.envirs] at ho
    by_cases he : e = r
    · simp [he] at ho
    · rw [Function.update_of_ne he] at ho
      rw [hd.taskList]
      exact (List.mem_erase_of_ne he).mpr (h e o ho)
  | _ => exact h

/-- Nothing is allocated, listed, pending or counted. -/
structure State.Empty (s : State) : Prop where
  tasks : ∀ t, s.tasks t = none
  envirs : ∀ e, s.envirs e = none
  lists : ∀ i, s.lists i = []
  irqs : s.irqs = []
  active : ∀ b, (s.rbs b).active = 0

/-- **When nothing is registered, nothing is left**: every task and every environment has been
freed, and nothing refers to one. -/
theorem nothingLeft_of_run (run : Run CarefulStep s₀ ls s) (init : s₀.Initial)
    (hnone : s.taskList = []) : s.Empty := by
  have hsound := sound_of_careful_run run init
  have hbooks : (∃ ring, Forest s.book ring) ∧ s.book.Counted ∧ s.book.Owned := by
    refine run.invariant (motive := fun s => (∃ ring, Forest s.book ring) ∧ s.book.Counted ∧
      s.book.Owned) ⟨⟨_, Initial.forest init⟩, Initial.counted init, fun e envir he => ?_⟩ ?_
    · exact absurd ((init.envirs e).symm.trans he) (by simp)
    · rintro s l s' ⟨⟨ring, hforest⟩, hcounted, howned⟩ hstep
      have hbook := exec_book_step hforest hstep.step.2
      exact ⟨hforest.step hbook, hcounted.step hforest hbook, howned.step hforest hbook⟩
  obtain ⟨⟨ring, hforest⟩, hcounted, howned⟩ := hbooks
  have htasks : ∀ t, s.tasks t = none := by
    intro t
    cases htask : s.tasks t with
    | none => rfl
    | some task =>
      have hr : task.envir ∈ s.taskList := (hforest.live t task.core (entry_of_tasks htask)).1
      rw [hnone] at hr
      cases hr
  refine ⟨htasks, fun e => ?_, fun i => ?_, ?_, fun b => ?_⟩
  · cases henvir : s.envirs e with
    | none => rfl
    | some envir =>
      have hr : e ∈ s.taskList := howned e envir henvir
      rw [hnone] at hr
      cases hr
  · refine List.eq_nil_iff_forall_not_mem.mpr fun t ht => ?_
    obtain ⟨c, hc⟩ := hsound.reach i t ht
    obtain ⟨task, htask, -⟩ := tasks_of_entry hc
    exact absurd ((htasks t).symm.trans htask) (by simp)
  · refine List.eq_nil_iff_forall_not_mem.mpr ?_
    rintro ⟨c, w⟩ hmem
    obtain ⟨task, htask⟩ := hsound.pending c w hmem
    exact absurd ((htasks _).symm.trans htask) (by simp)
  · have hzero : census (s.book.holds b) s.book.fresh = 0 :=
      census_eq_zero.mpr fun u _ => Book.holds_of_none (by simp [State.book, htasks u])
    have hactive : (s.rbs b).active = census (s.book.holds b) s.book.fresh := hcounted b
    rw [hactive, hzero]
    rfl

/-- A registered process that has run and exited. -/
def exitedTask : State := (boot [] [fixedOnly]).after
  [.register 0 1 inheriting 0 ⟨true, true, true⟩, .switch 0 1, .irq 0 (.startTimer 0), .exit 1]

theorem nothingLeft_of_run_exitedTask : ∃ s : State, exitedTask.exec (.unregister 1) = .ok s ∧
    s.Empty := by
  have run : Run State.Step (boot [] [fixedOnly]) [.register 0 1 inheriting 0 ⟨true, true, true⟩,
      .switch 0 1, .irq 0 (.startTimer 0), .exit 1] exitedTask := run_after rfl
  have careful := careful_of_run run (initial_boot ..) (by simp)
  obtain ⟨ring, hforest⟩ := exists_forest run (initial_boot ..)
  have hgone : ∀ t, exitedTask.tasks t ≠ none →
      exitedTask.alive t = false ∧ ∀ c w, (c, w) ∈ exitedTask.irqs → w.task ≠ t := by
    intro t hlive
    obtain ⟨task, htask⟩ := Option.ne_none_iff_exists'.mp hlive
    have hlt : t < 1 := lt_fresh_of_tasks hforest htask
    obtain rfl : t = 0 := Nat.lt_one_iff.mp hlt
    exact ⟨rfl, fun c w hmem => absurd hmem List.not_mem_nil⟩
  have hlast : CarefulStep exitedTask (.unregister 1) (exitedTask.after [.unregister 1]) :=
    ⟨⟨trivial, rfl⟩, fun t hlive _ => hgone t hlive⟩
  exact ⟨_, hlast.step.2, nothingLeft_of_run (careful.snoc hlast) (initial_boot ..) rfl⟩

end System

end SchedMon
