import SchedMon.Driver.Steering

/-!
# Timers that are on

A task outside of stat mode should have its timer on as long as its process runs. For that no late
request may stop it: interrupts come before the next hook on their CPU, and before the process that
they are about is migrated to another one. Then a request to stop the timer is pending only where
the process was running last and as long as it does not run again.

## Main definitions

* `PunctualStep` — the steps of a punctual run
* `Punctual` — late requests stop no timer, and the timer is on

## Main results

* `punctual_of_run` — **the timer is on while the process runs**
-/

namespace SchedMon

open State

/-- A step that finds no interrupt pending on the CPU of its hook, for a task outside of stat mode
that is not registered in the middle of a slice. -/
structure PunctualStep (t : TaskId) (s : State) (l : Label) (s' : State) : Prop
    extends AttendedStep t s l s' where
  atOnce : ∀ c w, s.hookCpu? l = some c → (c, w) ∉ s.irqs
  enters : s.Enters t l
  timed : ∀ task envir, s.tasks t = some task → s.envirs task.envir = some envir →
    envir.options.stat = false

/-- A request to stop the timer is pending only where the process was last, and while it does not
run; while it does, the timer is on or will be. -/
structure Punctual (t : TaskId) (s : State) : Prop where
  late : ∀ c, (c, .stopTimer t) ∈ s.requests t → (∀ c', ¬ s.RunsOn t c') ∧
    ∀ task p, s.tasks t = some task → task.p = some p → s.kernel.cpu p = c
  timed : ∀ c, s.RunsOn t c → (c, .startTimer t) ∈ s.requests t ∨
    ∃ task, s.tasks t = some task ∧ task.timer.active = true ∧ task.timerFlags = true

section Steps

variable {s s' s₀ : State} {l : Label} {ls : List Label} {t : TaskId} {task task' : SmonTask} {p : Proc}
  {k : Kernel}

/-- A process that is there is moved by migrations only. -/
theorem Kernel.cpu_step (hknown : k.known p = true) (hl : k.Consistent l)
    (hmigrate : ∀ dest, l ≠ .migrate p dest) : (k.step l).cpu p = k.cpu p := by
  cases l with
  | migrate q dest =>
    refine Function.update_of_ne ?_ _ _
    rintro rfl
    exact hmigrate dest rfl
  | fork parent child pid cpu leader alloc =>
    refine Function.update_of_ne ?_ _ _
    rintro rfl
    rw [hl.2] at hknown
    cases hknown
  | _ => rfl

theorem State.World.known_of_tasks (h : s.World) (htask : s.tasks t = some task)
    (hp : task.p = some p) : s.kernel.known p = true :=
  h.known.tasks t task.core p (entry_of_tasks htask) hp

/-- Nothing is pending for a new task, which does not run. -/
theorem Punctual.of_born (hborn : Born s.fresh p s s') (hunborn : s.Unborn)
    (hout : ∀ c, ¬ s'.RunsOn s.fresh c) : Punctual s.fresh s' := by
  obtain ⟨-, -, _, _, _, _, haside⟩ := hborn
  have hrequests : s'.requests s.fresh = [] :=
    haside.requests.trans (hunborn s.fresh (Nat.le_refl _)).1
  exact ⟨by simp [hrequests], fun c hc => absurd hc (hout c)⟩

/-- Late requests stop no timer, and the timer is on. -/
theorem Punctual.step (h : Punctual t s) (hsteered : Steered t s) (hworld : s.World)
    (hstep : PunctualStep t s l s') (hcourse : Course t s l s') (htask : s.tasks t = some task)
    (htask' : s'.tasks t = some task') : Punctual t s' := by
  obtain ⟨ring, hforest⟩ := hworld.forest
  have hkernel : s'.kernel = s.kernel.step l := (exec_book_step hforest hstep.step.2).kernel
  -- a stop request that stays pending
  have hlate : (∀ c, ¬ s.RunsOn t c → ¬ s'.RunsOn t c) → task'.p = task.p →
      ∀ c, (c, .stopTimer t) ∈ s.requests t → (∀ c', ¬ s'.RunsOn t c') ∧
        ∀ task p, s'.tasks t = some task → task.p = some p → s'.kernel.cpu p = c := by
    intro hruns hp c hc
    obtain ⟨hout, hcpu⟩ := h.late c hc
    refine ⟨fun c' => hruns c' (hout c'), fun x q hx hq => ?_⟩
    obtain rfl := Option.some_inj.mp (hx.symm.trans htask')
    rw [hp] at hq
    have hc' := hcpu task q htask hq
    have hknown := hworld.known_of_tasks htask hq
    rw [hkernel, ← hc']
    refine Kernel.cpu_step hknown hstep.orderly.1 ?_
    rintro dest rfl
    exact hstep.atOnce c _ (congrArg some hc') (mem_requests_stop.mp hc)
  have htimed : (∀ c, s'.RunsOn t c ↔ s.RunsOn t c) →
      (∀ c, (c, .startTimer t) ∈ s.requests t → (c, .startTimer t) ∈ s'.requests t) →
      (task.timer.active = true → task.timerFlags = true →
        task'.timer.active = true ∧ task'.timerFlags = true) →
      ∀ c, s'.RunsOn t c → (c, .startTimer t) ∈ s'.requests t ∨
        ∃ task, s'.tasks t = some task ∧ task.timer.active = true ∧ task.timerFlags = true := by
    intro hruns hrequests htimer c hc
    rcases h.timed c ((hruns c).mp hc) with hmem | ⟨x, hx, hactive, hflags⟩
    · exact .inl (hrequests c hmem)
    · obtain rfl := Option.some_inj.mp (hx.symm.trans htask)
      exact .inr ⟨task', htask', htimer hactive hflags⟩
  cases hcourse with
  | aside hidle haside hruns =>
    obtain ⟨x, hx, hagrees⟩ := haside.task_before htask'
    obtain rfl := Option.some_inj.mp (hx.symm.trans htask)
    refine ⟨fun c hc => hlate (fun c => (hruns c).not.mpr) hagrees.p c (haside.requests ▸ hc),
      htimed hruns (fun c hc => haside.requests.symm ▸ hc) fun hactive hflags => ?_⟩
    rw [hagrees.timer, hagrees.timerFlags]
    exact ⟨hactive, hflags⟩
  | time d =>
    obtain rfl := Option.some_inj.mp (htask'.symm.trans htask)
    exact ⟨hlate (fun _ => id) rfl, htimed (fun _ => Iff.rfl) (fun _ => id) fun ha hf => ⟨ha, hf⟩⟩
  | count me ctr inc =>
    obtain rfl := Option.some_inj.mp (htask'.symm.trans htask)
    exact ⟨hlate (fun _ => id) rfl, htimed (fun _ => Iff.rfl) (fun _ => id) fun ha hf => ⟨ha, hf⟩⟩
  | @start me s' hpending hstart hruns =>
    have hme := hsteered.pending me (mem_requests_start.mpr hpending)
    have hon : task'.timer.active = true ∧ task'.timerFlags = true := by
      obtain ⟨x, envir, -, -, ⟨-, hcall⟩ | ⟨evset, -, hcall⟩⟩ := call_start hstart
      · obtain rfl := Option.some_inj.mp (htask'.symm.trans hcall.after)
        exact ⟨rfl, rfl⟩
      · obtain rfl := Option.some_inj.mp (htask'.symm.trans hcall.after)
        exact ⟨rfl, rfl⟩
    refine ⟨fun c hc => ?_, fun c _ => .inr ⟨task', htask', hon⟩⟩
    have hold : (c, .stopTimer t) ∈ s.requests t := by
      obtain ⟨x, envir, -, -, ⟨-, hcall⟩ | ⟨evset, -, hcall⟩⟩ := call_start hstart
      · rw [requests_of_call hcall, requests_erase] at hc
        exact List.mem_of_mem_erase hc
      · rw [requests_of_call hcall, requests_erase] at hc
        exact List.mem_of_mem_erase hc
    exact absurd hme ((h.late c hold).1 me)
  | @stop me s' hpending hstop hruns =>
    have hmem := mem_requests_stop.mpr hpending
    have hout := (h.late me hmem).1
    obtain ⟨x, -, hcall, -⟩ := call_stopTimerPmc me hstop
    have hrequests := (requests_of_call hcall).trans (requests_erase _)
    refine ⟨fun c hc => ?_, fun c hc => absurd ((hruns c).mp hc) (hout c)⟩
    rw [hrequests] at hc
    exact absurd hc (not_mem_erase_of_nodup hsteered.once hmem)
  | @tick task₀ s' htask₀ hdue htick hruns =>
    obtain rfl := Option.some_inj.mp (htask₀.symm.trans htask)
    cases hflags : task₀.timerFlags with
    | true =>
      have hforward : ∀ envir tsc pmc, ((task₀.taken envir tsc pmc).forwarded envir s.now).timer.active =
          task₀.timer.active := fun envir tsc pmc => hrtimerForward_active ..
      obtain ⟨envir, evset, tsc, pmc, next, -, -, -, -, -, rfl, ⟨-, hcall⟩ | ⟨evset', -, -, hcall⟩⟩ :=
        call_tick htask hflags htick
      · have hrequests := requests_of_call hcall
        obtain rfl := Option.some_inj.mp (htask'.symm.trans hcall.after)
        exact ⟨fun c hc => hlate (fun c => (hruns c).not.mpr) rfl c (hrequests ▸ hc),
          htimed hruns (fun c hc => hrequests.symm ▸ hc) fun ha hf => ⟨(hforward ..).trans ha, hf⟩⟩
      · have hrequests := requests_of_call hcall
        obtain rfl := Option.some_inj.mp (htask'.symm.trans hcall.after)
        exact ⟨fun c hc => hlate (fun c => (hruns c).not.mpr) rfl c (hrequests ▸ hc),
          htimed hruns (fun c hc => hrequests.symm ▸ hc) fun ha hf => ⟨(hforward ..).trans ha, hf⟩⟩
    | false =>
      obtain ⟨hcall, -⟩ := call_smonSchedTimerTick_off 0 htask hflags htick
      have hrequests := requests_of_call hcall
      obtain rfl := Option.some_inj.mp (htask'.symm.trans hcall.after)
      refine ⟨fun c hc => hlate (fun c => (hruns c).not.mpr) rfl c (hrequests ▸ hc),
        htimed hruns (fun c hc => hrequests.symm ▸ hc) fun _ hf => ?_⟩
      rw [hflags] at hf
      cases hf
  | @out me next mid s' hprompt hruns hout haside hleft =>
    refine ⟨fun c hc => ⟨hleft, fun x p hx hp => ?_⟩, fun c hc => absurd hc (hleft c)⟩
    have hold : (c, .stopTimer t) ∉ s.requests t := fun hmem => (h.late c hmem).1 me hruns
    obtain ⟨x₀, q, hx₀, hq, -, hcpu, -⟩ := hruns
    obtain ⟨y, envir, evset, tsc, pmc, hy, -, -, -, -, hoff, hon⟩ := call_out hout
    cases hactive : y.timer.active with
    | false =>
      have hrequests := haside.requests.trans (requests_of_call (hoff hactive))
      exact absurd (hrequests ▸ hc) hold
    | true =>
      have hrequests := haside.requests.trans (requests_of_call_queue (hon hactive).1 (.inr rfl))
      rw [hrequests] at hc
      rcases mem_queued_single hc with hc | ⟨rfl, -⟩
      · exact absurd hc hold
      · have hsame := (book_switch hforest hstep.step.2).2 hx₀ hx
        obtain rfl := Option.some_inj.mp (hp.symm.trans (hsame.trans hq))
        rw [hkernel]
        exact hcpu
  | @enter l me s₁ s₂ s' hprompt hl hout h₁ henvirs hin h₂ hmsr hruns =>
    obtain ⟨x, envir, hx, henvir, hcall⟩ := call_in hin
    obtain ⟨z, hz, hagrees₁⟩ := h₁.task_before hx
    have hstat : envir.options.stat = false := by
      rw [henvirs, hagrees₁.envir] at henvir
      exact hstep.timed z envir hz henvir
    rcases hcall with ⟨-, hcall, -⟩ | ⟨htrue, -⟩
    case inr => exact absurd (hstat.symm.trans htrue) (by simp)
    have hrequests := h₂.requests.trans (requests_of_call_queue hcall (.inl rfl))
    rw [h₁.requests] at hrequests
    have hnone := (hsteered.of_not_runsOn hout).1
    refine ⟨fun c hc => ?_, fun c hc => ?_⟩
    · rw [hrequests] at hc
      rcases mem_queued_single hc with hc | ⟨-, heq⟩
      · -- the process enters where the request is pending
        obtain ⟨y, p, hy, hp, -, hcpu, -⟩ := (hruns me).mpr rfl
        obtain ⟨w, hw, hagrees₂⟩ := h₂.task_before hy
        obtain rfl := Option.some_inj.mp (hw.symm.trans hcall.after)
        have hp' : z.p = some p :=
          hagrees₁.p.symm.trans (hcall.same_p.symm.trans (hagrees₂.p.symm.trans hp))
        have hknown := hworld.known_of_tasks hz hp'
        have hc' := (h.late c hc).2 z p hz hp'
        have hme : s.kernel.cpu p = me := by
          rw [hkernel] at hcpu
          rw [← Kernel.cpu_step hknown hstep.orderly.1 ?_]
          · exact hcpu
          · rintro dest rfl
            exact hstep.atOnce c _ (congrArg some hc') (mem_requests_stop.mp hc)
        obtain rfl : me = c := hme.symm.trans hc'
        exact absurd (mem_requests_stop.mp hc) (hprompt _)
      · cases heq
    · obtain rfl := (hruns c).mp hc
      rw [hrequests]
      exact .inl (mem_queued_self fun c' => hnone c')
  | @exit p me task₀ s₀ s₁ s' hprompt hruns htask₀ hp hstop hsave hdeparted hleft =>
    obtain ⟨y, hy, hnone⟩ := hdeparted.after
    refine ⟨fun c hc => ⟨hleft, fun x q hx hq => ?_⟩, fun c hc => absurd hc (hleft c)⟩
    obtain rfl := Option.some_inj.mp (hx.symm.trans hy)
    exact absurd (hq.symm.trans hnone) (by simp)
  | leave hout hdeparted hleft =>
    obtain ⟨y, hy, hnone⟩ := hdeparted.after
    refine ⟨fun c hc => ⟨hleft, fun x q hx hq => ?_⟩, fun c hc => absurd hc (hleft c)⟩
    obtain rfl := Option.some_inj.mp (hx.symm.trans hy)
    exact absurd (hq.symm.trans hnone) (by simp)
  | new hcomes hborn =>
    exact absurd (lt_fresh_of_tasks hforest htask) (hborn.1 ▸ Nat.lt_irrefl _)
  | gone _ hgone htrace => exact absurd (hgone.symm.trans htask') (by simp)

/-- **The timer is on while the process runs**, in every punctual run. -/
theorem punctual_of_run (run : Run (PunctualStep t) s₀ ls s) (init : s₀.Initial) :
    ∀ task, s.tasks t = some task → Steered t s ∧ Punctual t s := by
  refine course_induct (motive := fun s => ∀ task, s.tasks t = some task → Steered t s ∧ Punctual t s)
    t run (fun _ _ _ h => h.toAttendedStep) init ?_ ?_
  · intro task htask
    rw [init.tasks t] at htask
    cases htask
  · intro s l s' hworld hworld' hstep hcourse h task' htask'
    obtain ⟨ring, hforest⟩ := hworld.forest
    cases ht : s.tasks t with
    | some task =>
      obtain ⟨hsteered, hpunctual⟩ := h task ht
      exact ⟨hsteered.step (lt_fresh_of_tasks hforest ht) hcourse ht htask',
        hpunctual.step hsteered hworld hstep hcourse ht htask'⟩
    | none =>
      obtain ⟨p, hcomes, hborn⟩ := hcourse.born ht htask'
      obtain rfl : t = s.fresh := hborn.1
      exact ⟨.of_born hborn hworld.unborn, .of_born hborn hworld.unborn
        (not_runsOn_of_born hworld hstep.step hstep.orderly hstep.enters hcomes hborn)⟩

end Steps

end SchedMon
