import SchedMon.Driver.Account

/-!
# The registers of a CPU

What sampling does to the registers of the CPU it runs on: starting a sample loads the counters of
the task, stopping it reads those that the event set enables, and nothing else that the driver does
writes to them. So the registers of a CPU are touched only by what happens for the process that runs
there.

## Main definitions

* `SmonPmc.get`, `SmonEvset.enabled` — the counters of a record
* `State.Touches` — the event works on the registers of a CPU

## Main results

* `msr_of_not_touches` — **the registers of a CPU that an event does not work on**
* `not_touches_of_idle` — nothing that is for others touches the CPU of a running process
-/

namespace SchedMon

open State

/-! ### Counters -/

/-- The value of a counter in a record. -/
def SmonPmc.get (pmc : SmonPmc) : Counter → I64
  | .fx i => pmc.fx i
  | .gp i => pmc.gp i

/-- The event set enables the counter, as `smon_pmc_read` has it. -/
def SmonEvset.enabled (evset : SmonEvset) : Counter → Bool
  | .fx i => evset.fxEnabled i
  | .gp i => evset.gpEnabled i

section Counters

variable {s s' : State} {me c : Cpu} {t : TaskId} {task : SmonTask} {evset : SmonEvset}
  {ctr ctr' : Counter} {msr : ℕ → I64} {pmc : SmonPmc}

theorem Counter.register_inj (h : ctr.register = ctr'.register) : ctr = ctr' := by
  have hlt : ∀ i : Fin maxFxCtrs, i.val < 3 := fun i => i.isLt
  have hlt' : ∀ i : Fin maxGpCtrs, i.val < 4 := fun i => i.isLt
  cases ctr with
  | fx i =>
    have := hlt i
    cases ctr' with
    | fx j =>
      simp only [Counter.register, ia32FxCtr] at h
      rw [Fin.ext (by omega : i.val = j.val)]
    | gp j =>
      simp only [Counter.register, ia32FxCtr, ia32GpCtr] at h
      omega
  | gp i =>
    have := hlt' i
    cases ctr' with
    | fx j =>
      have := hlt j
      simp only [Counter.register, ia32FxCtr, ia32GpCtr] at h
      omega
    | gp j =>
      simp only [Counter.register, ia32GpCtr] at h
      rw [Fin.ext (by omega : i.val = j.val)]

/-- No counter has the number of a control register. -/
theorem Counter.register_ne (ctr : Counter) : ctr.register ≠ ia32PerfGlobalCtrl ∧
    ctr.register ≠ ia32PerfGlobalOvfCtrl := by
  have hlt : ∀ i : Fin maxFxCtrs, i.val < 3 := fun i => i.isLt
  cases ctr with
  | fx i =>
    have := hlt i
    simp only [Counter.register, ia32FxCtr, ia32PerfGlobalCtrl, ia32PerfGlobalOvfCtrl]
    omega
  | gp i =>
    simp only [Counter.register, ia32GpCtr, ia32PerfGlobalCtrl, ia32PerfGlobalOvfCtrl]
    omega

theorem smonPmcStop_register (ctr : Counter) : smonPmcStop msr ctr.register = msr ctr.register :=
  Function.update_of_ne ctr.register_ne.1 ..

theorem smonPmcStart_register (ctr : Counter) :
    smonPmcStart evset msr ctr.register = msr ctr.register :=
  Function.update_of_ne ctr.register_ne.1 ..

theorem smonPmcRead_get (ctr : Counter) :
    (smonPmcRead evset msr).get ctr = if evset.enabled ctr then msr ctr.register else 0 := by
  cases ctr with
  | fx i => rfl
  | gp i => rfl

theorem foldl_load_of_ne {n : ℕ} {f : Fin n → ℕ} {g : Fin n → I64} {r : ℕ} (is : List (Fin n))
    (msr : ℕ → I64) (hr : ∀ i ∈ is, r ≠ f i) :
    is.foldl (fun msr i => msrWrite (f i) (g i) msr) msr r = msr r := by
  induction is generalizing msr with
  | nil => rfl
  | cons j is ih =>
    rw [List.foldl_cons, ih _ fun i hi => hr i (List.mem_cons_of_mem _ hi)]
    exact Function.update_of_ne (hr j List.mem_cons_self) ..

/-- Loading some registers, each with its own value. -/
theorem foldl_load {n : ℕ} {f : Fin n → ℕ} {g : Fin n → I64} (hf : Function.Injective f)
    (is : List (Fin n)) (msr : ℕ → I64) (i : Fin n) (hi : i ∈ is) :
    is.foldl (fun msr i => msrWrite (f i) (g i) msr) msr (f i) = g i := by
  induction is generalizing msr with
  | nil => cases hi
  | cons j is ih =>
    rw [List.foldl_cons]
    by_cases hmem : i ∈ is
    · exact ih _ hmem
    · obtain rfl : i = j := (List.mem_cons.mp hi).resolve_right hmem
      have hother : ∀ k ∈ is, f i ≠ f k := by
        intro k hk heq
        obtain rfl := hf heq
        exact hmem hk
      rw [foldl_load_of_ne is _ hother]
      exact Function.update_self ..

/-- `smon_pmc_write` loads every counter. -/
theorem smonPmcWrite_register (ctr : Counter) : smonPmcWrite pmc msr ctr.register = pmc.get ctr := by
  refine (Function.update_of_ne ctr.register_ne.2 ..).trans ?_
  cases ctr with
  | fx i =>
    refine (foldl_load_of_ne _ _ fun j _ heq => ?_).trans ?_
    · have heq' : (Counter.fx i).register = (Counter.gp j).register := heq
      cases Counter.register_inj heq'
    · refine foldl_load (fun j k heq => ?_) _ _ i (List.mem_finRange i)
      have heq' : (Counter.fx j).register = (Counter.fx k).register := heq
      cases Counter.register_inj heq'
      rfl
  | gp i =>
    refine foldl_load (fun j k heq => ?_) _ _ i (List.mem_finRange i)
    have heq' : (Counter.gp j).register = (Counter.gp k).register := heq
    cases Counter.register_inj heq'
    rfl

/-- Starting a sample loads the counters of the task. -/
theorem started_register (ctr : Counter) :
    (s.started me t task evset).msr me ctr.register = task.samplePmc.pmc.get ctr := by
  have hmsr : (s.started me t task evset).msr me = smonPmcStart evset
      (smonPmcWrite task.samplePmc.pmc (smonPmcSet s.events evset (s.msr me))) := by
    simp only [State.started, record, onCpu, setTask, msrRdtsc, Function.update_self]
  rw [hmsr, smonPmcStart_register, smonPmcWrite_register]

/-- What `smon_sample_stop` reads. -/
theorem readout_get (ctr : Counter) : (s.readout me evset).get ctr =
    if evset.enabled ctr then s.msr me ctr.register else 0 := by
  rw [State.readout, smonPmcRead_get, smonPmcStop_register]

end Counters

/-! ### Who touches the registers -/

namespace State

/-- The event works on the registers of CPU `c`: a switch on it, the program of a task that is running
there beginning or ending, or a timer of such a task. -/
inductive Touches (s : State) (c : Cpu) : Label → Prop
  | count (ctr : Counter) (inc : ℕ) : Touches s c (.count c ctr inc)
  | switch (next : Proc) (h : s.kernel.cpu (s.kernel.curr c) = c) : Touches s c (.switch c next)
  | start (u : TaskId) : Touches s c (.irq c (.startTimer u))
  | tick {u : TaskId} {task : SmonTask} (htask : s.tasks u = some task)
      (hflags : task.timerFlags = true) (hcpu : task.timer.cpu = c) : Touches s c (.tick u)
  | exec {p : Proc} {u : TaskId} (hfound : s.FindsWaiting p u) (hcpu : s.kernel.cpu p = c) :
      Touches s c (.exec p)
  | exit {p : Proc} {u : TaskId} (hfound : s.Finds p u) (hcpu : s.kernel.cpu p = c) :
      Touches s c (.exit p)

end State

section Frames

variable {s s' : State} {me c : Cpu} {t : TaskId} {task : SmonTask} {l : Label} {p : Proc}
  {ring : TaskId → List TaskId}

theorem msr_smonSampleStart (h : s.smonSampleStart me t = .ok s') (hc : c ≠ me) :
    s'.msr c = s.msr c := by
  obtain ⟨task, envir, -, -, ⟨-, rfl⟩ | ⟨evset, -, hcall⟩⟩ := call_smonSampleStart h
  · rfl
  · exact hcall.msr c hc

theorem msr_smonSchedTaskIn (h : s.smonSchedTaskIn me t = .ok s') (hc : c ≠ me) :
    s'.msr c = s.msr c := by
  obtain ⟨task, envir, -, -, ⟨-, hcall, -⟩ | ⟨-, ⟨-, hcall⟩ | ⟨evset, n, -, -, -, hcall⟩⟩⟩ := call_in h
  · exact hcall.msr c hc
  · exact hcall.msr c hc
  · exact hcall.msr c hc

theorem msr_smonSchedTaskOut (h : s.smonSchedTaskOut me t = .ok s') (hc : c ≠ me) :
    s'.msr c = s.msr c := by
  obtain ⟨task, envir, evset, tsc, pmc, -, -, -, -, -, hoff, hon⟩ := call_out h
  cases hactive : task.timer.active with
  | false => exact (hoff hactive).msr c hc
  | true => exact (hon hactive).1.msr c hc

theorem msr_smonSchedTimerTick (h : s.smonSchedTimerTick t = .ok s') (htask : s.tasks t = some task)
    (hc : task.timerFlags = true → c ≠ task.timer.cpu) : s'.msr c = s.msr c := by
  cases hflags : task.timerFlags with
  | false => rw [(call_smonSchedTimerTick_off 0 htask hflags h).2]
  | true =>
    obtain ⟨envir, evset, tsc, pmc, next, -, -, -, -, -, -, ⟨-, hcall⟩ | ⟨evset', -, -, hcall⟩⟩ :=
      call_tick htask hflags h
    · exact hcall.msr c (hc hflags)
    · exact hcall.msr c (hc hflags)

theorem msr_setExtra {extra : SmonTaskExtra} (h : s.setExtra t extra = .ok s') : s'.msr = s.msr := by
  obtain ⟨task, -, rfl⟩ := setExtra_eq_ok.mp h
  rfl

theorem msr_cancelRapl (h : s.cancelRapl t = .ok s') : s'.msr = s.msr := by
  obtain ⟨extra, -, h⟩ := bind_eq_ok.mp h
  exact msr_setExtra h

theorem msr_startExtra (h : s.startExtra me t = .ok s') : s'.msr = s.msr := by
  simp only [startExtra, bind_eq_ok, when_eq_ok] at h
  obtain ⟨-, -, ⟨-, rfl⟩ | ⟨-, h⟩⟩ := h
  · rfl
  simp only [smonTaskExtraStart, bind_eq_ok] at h
  obtain ⟨-, -, extra, -, envir, -, s₁, hset, h⟩ := h
  have hset' : s₁.msr = s.msr := (msr_setExtra hset).trans rfl
  have hqueue : ∀ x : State, (x.irqWorkQueue me (.startRapl t)).msr = x.msr := by
    intro x
    unfold irqWorkQueue
    split
    · rfl
    · rfl
  split at h
  · obtain rfl := pure_eq_ok.mp h
    rw [hqueue]
    exact hset'
  · obtain rfl := pure_eq_ok.mp h
    exact hset'

theorem msr_leave (h : s.leave t = .ok s') : s'.msr = s.msr := by
  obtain ⟨task, b, -, -, rfl⟩ := leave_eq_ok.mp h
  exact congrArg Prod.fst (hardware_smonReleaseRb b)

theorem msr_raplTick (h : s.smonSchedTimerRapl t = .ok s') : s'.msr = s.msr := by
  obtain ⟨extra, -, h⟩ := bind_eq_ok.mp h
  dsimp only at h
  split at h
  · exact (msr_setExtra h).trans rfl
  · exact msr_setExtra h

theorem msr_irq {w : Irq} (h : s.exec (.irq me w) = .ok s') (hc : (∃ u, w = .startTimer u) → c ≠ me) :
    s'.msr c = s.msr c := by
  change ({ s with irqs := s.irqs.erase (me, w) } : State).runIrq me w = .ok s' at h
  cases w with
  | startTimer u =>
    obtain ⟨task, envir, s₁, -, -, -, -, hmsr, hstart⟩ := call_startTimerPmc h
    rw [msr_smonSampleStart hstart (hc ⟨u, rfl⟩), hmsr]
  | stopTimer u =>
    obtain ⟨task, -, -, hmsr⟩ := call_stopTimerPmc 0 h
    rw [hmsr]
  | startRapl u =>
    obtain ⟨extra, -, h⟩ := bind_eq_ok.mp h
    exact congrFun (msr_setExtra h) c

theorem msr_switch {next : Proc} (h : s.exec (.switch me next) = .ok s')
    (hc : c ≠ s.kernel.cpu (s.kernel.curr me)) : s'.msr c = s.msr c := by
  obtain ⟨s₂, hswitch, hs⟩ := bind_eq_ok.mp h
  cases hs
  obtain ⟨mid, hout, hin⟩ := switch_cases hswitch
  have hmid : mid.msr c = s.msr c := by
    rcases hout with ⟨-, rfl⟩ | ⟨u, -, hout⟩
    · rfl
    · exact msr_smonSchedTaskOut hout hc
  rcases hin with ⟨-, rfl⟩ | ⟨u, -, hin⟩
  · exact hmid
  · exact (msr_smonSchedTaskIn hin hc).trans hmid

theorem msr_migrate {dest : Cpu} (h : s.exec (.migrate p dest) = .ok s') : s'.msr = s.msr := by
  obtain ⟨s₁, hmigrate, hs⟩ := bind_eq_ok.mp h
  cases hs
  simp only [smonSchedMigrateTask, bind_eq_ok, whenFound_eq_ok] at hmigrate
  obtain ⟨found, -, ⟨rfl, rfl⟩ | ⟨u, rfl, hmigrate⟩⟩ := hmigrate
  · rfl
  simp only [pure_eq_ok] at hmigrate
  obtain ⟨task, -, envir, -, rfl⟩ := hmigrate
  split
  · exact msr_smonSampleWrite ..
  · rfl

theorem msr_childAdded (h : ChildAdded s t p s') : s'.msr = s.msr := by
  obtain ⟨task, b, envir, s₁, task₁, -, -, -, hadd, -, rfl⟩ := h.add
  have hlink : s₁.msr = (s.newChild p task.envir envir b).msr := by
    simp only [addChild, bind_eq_ok, pure_eq_ok] at hadd
    obtain ⟨next, -, -, -, rfl⟩ := hadd
    rfl
  exact hlink

theorem msr_fork {parent child : Proc} {pid : Pid} {cpu : Cpu} {leader alloc : Bool}
    (h : s.exec (.fork parent child pid cpu leader alloc) = .ok s') : s'.msr = s.msr := by
  simp only [State.exec, smonSchedProcessFork, bind_eq_ok, whenFound_eq_ok] at h
  obtain ⟨found, -, ⟨rfl, rfl⟩ | ⟨u, rfl, task, -, envir, -, s₁, hinherit, h⟩⟩ := h
  · rfl
  have hrecord : s'.msr = s₁.msr := by
    split at h
    · obtain rfl := pure_eq_ok.mp h
      exact msr_smonSampleWrite ..
    · obtain rfl := pure_eq_ok.mp h
      rfl
  rw [hrecord]
  rcases when_eq_ok.mp hinherit with ⟨-, rfl⟩ | ⟨-, hregister⟩
  · rfl
  · rcases registerChild_cases hregister with ⟨-, rfl⟩ | ⟨-, hadd⟩
    · rfl
    · exact (msr_childAdded hadd).trans rfl

theorem msr_exec (h : s.exec (.exec p) = .ok s')
    (hc : ∀ u, s.FindsWaiting p u → c ≠ s.kernel.cpu p) : s'.msr c = s.msr c := by
  rcases exec_cases h with ⟨-, rfl⟩ | ⟨u, s₁, s₂, hfound, hextra, hin, rfl⟩
  · rfl
  · change s₂.msr c = s.msr c
    rw [msr_smonSchedTaskIn hin (hc u hfound), msr_startExtra hextra]
    rfl

theorem msr_exit (h : s.exec (.exit p) = .ok s') (hc : ∀ u, s.Finds p u → c ≠ s.kernel.cpu p) :
    s'.msr c = s.msr c := by
  rcases exit_cases h with ⟨-, -, rfl⟩ | ⟨u, s₁, s₂, hexit⟩ | ⟨u, hexit⟩
  · rfl
  · obtain ⟨hfound, ⟨task, s₀, -, hstop, hsave⟩, hleave, ⟨task', -, hcancel⟩⟩ := hexit
    have hlast : s'.msr = s₂.msr := by
      rcases when_eq_ok.mp hcancel with ⟨-, rfl⟩ | ⟨-, hcancel⟩
      · rfl
      · exact msr_cancelRapl hcancel
    have hstop' : s₀.msr c = s.msr c := by
      obtain ⟨x, envir, evset, -, -, -, hcall⟩ := call_smonSampleStop hstop
      exact hcall.msr c (hc u hfound)
    have hsave' : s₁.msr = s₀.msr := by
      obtain ⟨x, envir, -, -, -, rfl⟩ := smonSampleSave_eq_ok.mp hsave
      exact msr_smonSampleWrite ..
    rw [hlast, msr_leave hleave, ← hstop']
    exact congrFun hsave' c
  · exact congrFun (msr_leave hexit.leave) c

theorem msr_register {pid : Pid} {envir : SmonEnvir} {b : RbId} {alloc : Alloc}
    (h : s.exec (.register me pid envir b alloc) = .ok s') : s'.msr = s.msr := by
  obtain ⟨⟨ret, s₁⟩, hregister, hs⟩ := bind_eq_ok.mp h
  cases hs
  have hbatch : ∀ x : State, (x.setBatch b envir.batchSize).msr = x.msr := by
    intro x
    unfold setBatch
    split
    · rfl
    · rfl
  rcases register_cases hregister with ⟨-, -, rfl⟩ | ⟨-, -, s₀, rfl, hwait, hstart⟩
  · rfl
  cases hexec : envir.options.onExec with
  | true =>
    rw [hwait hexec]
    exact hbatch _
  | false =>
    obtain ⟨s₂, hextra, rfl⟩ := hstart hexec
    exact (msr_startExtra hextra).trans (hbatch _)

theorem msr_unregister {pid : Pid} (h : s.exec (.unregister pid) = .ok s') : s'.msr = s.msr := by
  obtain ⟨⟨ret, s₁⟩, hunregister, hs⟩ := bind_eq_ok.mp h
  cases hs
  simp only [smonSchedUnregisterTask, bind_eq_ok] at hunregister
  obtain ⟨found, -, hunregister⟩ := hunregister
  cases found with
  | none =>
    cases hunregister
    rfl
  | some r =>
    obtain ⟨s₂, hs₂, hrest⟩ := bind_eq_ok.mp hunregister
    cases hrest
    exact congrArg Prod.fst (hardware_smonSchedUnregister hs₂)

/-- **The registers of a CPU that an event does not work on** stay as they are. -/
theorem msr_of_not_touches (hsane : s.kernel.Sane) (h : s.Step l s') (hnot : ¬ s.Touches c l) :
    s'.msr c = s.msr c := by
  obtain ⟨henabled, h⟩ := h
  cases l with
  | time d =>
    cases h
    rfl
  | count me ctr inc =>
    cases h
    have hc : c ≠ me := by
      rintro rfl
      exact hnot (.count ctr inc)
    exact Function.update_of_ne hc ..
  | irq me w =>
    refine msr_irq h ?_
    rintro ⟨u, rfl⟩ rfl
    exact hnot (.start u)
  | tick u =>
    obtain ⟨task, htask, -⟩ := bind_eq_ok.mp h
    rw [task_eq_ok] at htask
    exact msr_smonSchedTimerTick h htask fun hflags heq => hnot (.tick htask hflags heq.symm)
  | raplTick u => exact congrFun (msr_raplTick h) c
  | switch me next =>
    refine msr_switch h ?_
    rintro rfl
    rw [hsane.cpu] at hnot
    exact hnot (.switch next (hsane.cpu me))
  | migrate p dest => exact congrFun (msr_migrate h) c
  | fork parent child pid cpu leader alloc => exact congrFun (msr_fork h) c
  | exec p => exact msr_exec h fun u hfound heq => hnot (.exec hfound heq.symm)
  | exit p => exact msr_exit h fun u hfound heq => hnot (.exit hfound heq.symm)
  | reap p =>
    cases h
    rfl
  | register me pid envir b alloc => exact congrFun (msr_register h) c
  | unregister pid => exact congrFun (msr_unregister h) c

end Frames

/-! ### Tasks of their own process -/

/-- No process has two tasks. -/
def State.OneEach (s : State) : Prop :=
  ∀ u v x y p, s.tasks u = some x → s.tasks v = some y → x.p = some p → y.p = some p → u = v

section Alone

variable {s s' : State} {c : Cpu} {t u : TaskId} {l : Label}

theorem PlacedBook.oneEach {w : Watched} (h : PlacedBook w s.book) : s.OneEach :=
  fun u v _ _ p hx hy hxp hyp => h.unique u v _ _ p (entry_of_tasks hx) (entry_of_tasks hy) hxp hyp

/-- Two tasks that run on one CPU are one. -/
theorem RunsOn.eq_of_oneEach (hone : s.OneEach) (ht : s.RunsOn t c) (hu : s.RunsOn u c) : u = t := by
  obtain ⟨x, p, hx, hp, -, -, hcurr⟩ := ht
  obtain ⟨y, q, hy, hq, -, -, hcurr'⟩ := hu
  obtain rfl : p = q := hcurr.symm.trans hcurr'
  exact hone u t y x p hy hx hq hp

/-- **Nothing that is for others touches the CPU of a running process.** -/
theorem not_touches_of_idle (hone : s.OneEach) (hsteered : ∀ u task, s.tasks u = some task → Steered u s)
    (hreached : s.Reached t) (hl : s.kernel.Orderly l) (hstep : s.Step l s') (hruns : s.RunsOn t c)
    (hidle : s.Idle t l) : ¬ s.Touches c l := by
  obtain ⟨x, q, hx, hq, hnot, hcpu, hcurr⟩ := id hruns
  have hfinds : s.Finds q t := (hreached x q hx hq).resolve_left hnot
  intro htouches
  cases htouches with
  | count ctr inc => exact hidle
  | switch next hc => exact hidle.1 (hcurr ▸ hfinds)
  | start u =>
    obtain ⟨task, envir, s₁, htask, -⟩ := call_startTimerPmc (s := { s with
      irqs := s.irqs.erase (c, .startTimer u) }) hstep.2
    have hpending := mem_requests_start.mpr (hstep.1 : (c, .startTimer u) ∈ s.irqs)
    obtain rfl := RunsOn.eq_of_oneEach hone hruns ((hsteered u task htask).pending c hpending)
    exact hidle.1 rfl
  | @tick u task htask hflags hc =>
    have hdue : (s.tasks u).any (fun task => task.timer.due s.now) = true := hstep.1
    rw [htask, Option.any_some, Hrtimer.due, Bool.and_eq_true] at hdue
    obtain ⟨hruns', -⟩ := (hsteered u task htask).armed task htask hdue.1 hflags
    rw [hc] at hruns'
    exact hidle (RunsOn.eq_of_oneEach hone hruns hruns')
  | @exec p u hfound hc =>
    obtain ⟨hwait, y, hy, hp⟩ := findProc_some hfound
    have hcurr' : s.kernel.curr (s.kernel.cpu p) = p := hl.1
    obtain rfl : q = p := by rw [← hcurr', hc, hcurr]
    obtain rfl := hone u t y x q hy hx hp hq
    exact hnot hwait
  | @exit p u hfound hc =>
    have hcurr' : s.kernel.curr (s.kernel.cpu p) = p := hl.1
    obtain rfl : q = p := by rw [← hcurr', hc, hcurr]
    exact hidle.1 hfinds

end Alone

end SchedMon
