import Mathlib.Data.Nat.Find
import SchedMon.Driver.Evsets
import SchedMon.Driver.Effect
import SchedMon.Driver.Placement

/-!
# Environments the driver accepts

`smon_sched_register_task` takes whatever a client passes. If every index the environment will use
is that of an event set, nothing that happens later divides by zero or reads counters for an event
set that does not exist. If not, there is a run that does: the process gets its turn, the timer goes
round the indices up to the first bad one, and the process exits there.

## Main definitions

* `SmonEnvir.Usable` — the environments a client should pass
* `State.SafeEvsets` — indices are in range, and nothing that can happen next faults for one

## Main results

* `safe_iff_usable` — **registration is safe exactly for usable environments**
* `not_safe_roof` — the environment of `smon roof`, and no event set
-/

namespace SchedMon

open State

variable {s s' s₀ s₁ : State} {me : Cpu} {t : TaskId} {p : Proc} {envir : SmonEnvir} {i : ℕ}

/-! ### What is asked of a client -/

/-- The environment uses at least one index and not more than there is room for, and each is an
event set's. In stat mode the first one alone is used. -/
def SmonEnvir.Usable (envir : SmonEnvir) (evsets : List SmonEvset) : Prop :=
  let n := if envir.options.stat then 1 else envir.nEsids.toNat
  0 < n ∧ n ≤ muxEvsets ∧ ∀ i < n, (envir.esids i).toNat < evsets.length

theorem smonCreateEnvir_nEsids (envir : SmonEnvir) : (smonCreateEnvir envir).nEsids.toNat =
    if envir.options.stat then 1 else envir.nEsids.toNat := by
  unfold smonCreateEnvir
  dsimp only
  split
  · rfl
  · rfl

theorem smonCreateEnvir_esids (envir : SmonEnvir) :
    (smonCreateEnvir envir).esids = envir.esids := by
  unfold smonCreateEnvir
  dsimp only
  split <;> rfl

theorem smonCreateEnvir_stat (envir : SmonEnvir) :
    (smonCreateEnvir envir).options.stat = envir.options.stat := by
  unfold smonCreateEnvir
  dsimp only
  split <;> rfl

theorem SmonEnvir.usable_iff_fits (envir : SmonEnvir) (evsets : List SmonEvset) :
    envir.Usable evsets ↔ (smonCreateEnvir envir).Fits evsets := by
  unfold SmonEnvir.Usable
  rw [← smonCreateEnvir_nEsids, ← smonCreateEnvir_esids]
  exact ⟨fun ⟨hpos, hbound, hexist⟩ => ⟨hpos, hbound, hexist⟩,
    fun ⟨hpos, hbound, hexist⟩ => ⟨hpos, hbound, hexist⟩⟩

/-! ### What is promised -/

namespace State

/-- What happens to the tasks of one registration: no other one. -/
def Later (s : State) (l : Label) (s' : State) : Prop :=
  s.Step l s' ∧ s.kernel.Consistent l ∧ l.registered? = none

/-- Every task is at an index of its environment, of which there is room for, and no event that can
happen divides by zero, reads an index that is not there or uses an event set that is not there. -/
structure SafeEvsets (s : State) : Prop where
  evset : ∀ t task envir, s.tasks t = some task → s.envirs task.envir = some envir →
    task.evset < envir.nEsids.toNat ∧ envir.nEsids.toNat ≤ muxEvsets
  noFault : ∀ l f, s.Enabled l → s.kernel.Consistent l → l.registered? = none →
    s.exec l = .error f → ¬ f.OfEvset

end State

theorem State.Indexed.later (h : s.Indexed) {l : Label} (hl : l.registered? = none) :
    KeepsIndexed (s.exec l) := by
  refine h.exec ?_
  rintro me pid envir b alloc rfl
  cases hl

theorem State.Indexed.safe (h : s.Indexed) : s.SafeEvsets :=
  ⟨fun t task envir htask henvir => ⟨h.evset t task envir htask henvir,
    (h.fits _ envir henvir).bound⟩, fun _ _ _ _ hl hexec => (h.later hl).not_bad hexec⟩

/-! ### Usable environments -/

/-- A registration of a usable environment endangers no index. -/
theorem State.Indexed.smonSchedRegisterTask (h : s.Indexed) {pid : Pid} {b : RbId} {alloc : Alloc}
    {ret : ℤ} (husable : envir.Usable s.evsets)
    (hfresh : ∀ t task, s.tasks t = some task → task.envir ≠ s.fresh)
    (hreg : s.smonSchedRegisterTask me pid envir b alloc = .ok (ret, s')) : s'.Indexed := by
  rcases register_cases hreg with ⟨-, -, rfl⟩ | ⟨-, -, s₀, rfl, hwait, hstart⟩
  · exact h
  have hget : ((s.smonGetRb b).setBatch b envir.batchSize).Indexed := by
    unfold setBatch
    split <;> exact h.congr rfl rfl rfl
  have htasks : ((s.smonGetRb b).setBatch b envir.batchSize).tasks = s.tasks := by
    unfold setBatch
    split <;> rfl
  have hevsets : ((s.smonGetRb b).setBatch b envir.batchSize).evsets = s.evsets :=
    congrArg Static.evsets (setBatch_static envir.batchSize)
  have henvir : (((s.smonGetRb b).setBatch b envir.batchSize).setEnvir s.fresh
      (smonCreateEnvir envir)).Indexed := by
    refine ⟨fun e o ho => ?_, fun u x o hx ho => ?_⟩
    · simp only [State.setEnvir, Function.update_apply] at ho ⊢
      split at ho
      · obtain rfl := Option.some_inj.mp ho
        rw [hevsets]
        exact (envir.usable_iff_fits s.evsets).mp husable
      · exact hget.fits e o ho
    · simp only [State.setEnvir, htasks] at hx
      simp only [State.setEnvir, Function.update_of_ne (hfresh u x hx)] at ho
      exact hget.evset u x o (htasks ▸ hx) ho
  have hroot : ({ s.newRoot pid envir b with
      taskList := s.fresh :: (s.newRoot pid envir b).taskList } : State).Indexed :=
    (henvir.install rfl).congr rfl rfl rfl
  cases hexec : envir.options.onExec with
  | true =>
    rw [hwait hexec]
    exact hroot.congr rfl rfl rfl
  | false =>
    obtain ⟨s₁, hs₁, rfl⟩ := hstart hexec
    exact ((hroot.startExtra me s.fresh).of_ok hs₁).addCpuList

theorem Initial.indexed (init : s₀.Initial) : s₀.Indexed :=
  ⟨fun e envir henvir => by simp [init.envirs e] at henvir,
    fun t task envir htask => by simp [init.tasks t] at htask⟩

/-- What a registration with a usable environment leads to is safe. -/
theorem safe_of_usable {pid : Pid} {b : RbId} {alloc : Alloc} {ret : ℤ} {ls : List Label}
    (init : s₀.Initial) (husable : envir.Usable s₀.evsets)
    (hreg : s₀.smonSchedRegisterTask me pid envir b alloc = .ok (ret, s₁))
    (run : Run State.Later s₁ ls s) : s.SafeEvsets := by
  have h₁ : s₁.Indexed := (Initial.indexed init).smonSchedRegisterTask husable
    (fun t task htask => by simp [init.tasks t] at htask) hreg
  have h : s.Indexed := run.invariant h₁ fun t l u h ⟨hstep, _, hl⟩ => (h.later hl).of_ok hstep.2
  exact h.safe

/-! ### The way to a bad index -/

/-- The process of task `t` runs, and the task is at index `i` of its environment. -/
structure Poised (s : State) (p : Proc) (t : TaskId) (envir : SmonEnvir) (i : ℕ) : Prop where
  curr : s.kernel.curr (s.kernel.cpu p) = p
  list : s.cpuList (s.kernel.cpu p) = [t]
  task : ∃ task, s.tasks t = some task ∧ task.p = some p ∧ s.envirs task.envir = some envir
  evset : ∃ dial, s.dials t = some dial ∧ dial.evset = i

theorem findProc_singleton {task : SmonTask} (htask : s.tasks t = some task) (q : Proc) :
    s.findProc q [t] = .ok (if task.p = some q then some t else none) := by
  simp only [findProc, findTask, task_eq_ok.mpr htask, bind, Except.bind, decide_eq_true_eq]
  split <;> rfl

namespace Poised

/-- Sampling keeps a process where it is. -/
theorem quiet {K : Sample → Prop} {j : ℕ} (h : Poised s p t envir i) (hquiet : Quiet K t s s')
    (hevset : ∃ dial, s'.dials t = some dial ∧ dial.evset = j) : Poised s' p t envir j := by
  obtain ⟨task, htask, hp, henvir⟩ := h.task
  obtain ⟨task', htask', htc⟩ := hquiet.exists_task htask
  refine ⟨by rw [hquiet.kernel, h.curr], by rw [hquiet.kernel, hquiet.cpuList, h.list],
    ⟨task', htask', ?_, ?_⟩, hevset⟩
  · rw [htc, hp]
  · rw [hquiet.envirs, htc, henvir]

/-- Where the process exits at a bad index, its last sample faults. -/
theorem exit_faults (h : Poised s p t envir i) (hn : i < envir.nEsids.toNat) (hmux : i < muxEvsets)
    (hbad : smonGetEvset s.evsets (envir.esids i) = none) :
    s.exec (.exit p) = .error .nullEvset := by
  obtain ⟨task, htask, hp, henvir⟩ := h.task
  obtain ⟨dial, hdial, hevset⟩ := h.evset
  rw [dials_of_tasks htask, Option.some_inj] at hdial
  subst hdial
  replace hevset : task.evset = i := hevset
  have hget : smonEnvirGetEvset s.evsets envir task.evset = .ok none := by
    rw [hevset]
    exact smonEnvirGetEvset_eq_ok.mpr (.inr ⟨hn, hmux, hbad⟩)
  have hfound : s.findProc p (s.cpuList (s.kernel.cpu p)) = .ok (some t) := by
    rw [h.list, findProc_singleton htask, if_pos hp]
  have hcancel : (s.setTask t { task with timer := hrtimerCancel task.timer }).tasks t =
      some { task with timer := hrtimerCancel task.timer } := Function.update_self ..
  refine (bind_of_ok hfound).trans ((bind_of_ok (task_eq_ok.mpr htask)).trans ?_)
  exact bind_of_error (smonSampleStop_error hcancel henvir hget)

theorem not_safe (h : Poised s p t envir i) (hn : i < envir.nEsids.toNat) (hmux : i < muxEvsets)
    (hbad : smonGetEvset s.evsets (envir.esids i) = none) : ¬ s.SafeEvsets := fun hsafe =>
  hsafe.noFault (.exit p) .nullEvset trivial h.curr rfl (h.exit_faults hn hmux hbad) trivial

end Poised

/-- The timer of task `t` will fire, and take a sample. -/
def Armed (s : State) (t : TaskId) : Prop :=
  ∃ dial, s.dials t = some dial ∧ dial.timer.active = true ∧ dial.timerFlags = true

/-- The start of a sample does not fail for an event set that is not there. -/
theorem exists_smonSampleStart (task : SmonTask) (me : Cpu) (htask : s.tasks t = some task)
    (henvir : s.envirs task.envir = some envir) (hmux : task.evset < muxEvsets) :
    ∃ s', s.smonSampleStart me t = .ok s' := by
  cases hget : smonGetEvset s.evsets (envir.esids task.evset) with
  | none => exact ⟨s, smonSampleStart_eq_ok.mpr ⟨task, envir, htask, henvir, hmux, .inl ⟨hget, rfl⟩⟩⟩
  | some evset =>
    exact ⟨_, smonSampleStart_eq_ok.mpr ⟨task, envir, htask, henvir, hmux, .inr ⟨evset, hget, rfl⟩⟩⟩

/-- A tick takes a task from a good index to the next one. -/
theorem exists_smonSchedTimerTick {task : SmonTask} {evset : SmonEvset}
    (htask : s.tasks t = some task) (henvir : s.envirs task.envir = some envir)
    (hflags : task.timerFlags = true) (hn : task.evset < envir.nEsids.toNat)
    (hbound : envir.nEsids.toNat ≤ muxEvsets)
    (hget : smonGetEvset s.evsets (envir.esids task.evset) = some evset) :
    ∃ s' dial, s.smonSchedTimerTick t = .ok s' ∧ s'.dials t = some dial ∧
      dial.evset = (task.evset + 1) % envir.nEsids.toNat ∧
      dial.timer.active = task.timer.active ∧ dial.timerFlags = true := by
  have hpos : 0 < envir.nEsids.toNat := Nat.zero_lt_of_lt hn
  have hstop : s.smonSampleStop task.timer.cpu t = .ok (s.stopped task.timer.cpu t task evset) :=
    smonSampleStop_eq_ok.mpr
      ⟨task, envir, evset, htask, henvir, hn, Nat.lt_of_lt_of_le hn hbound, hget, rfl⟩
  generalize hs₁ : s.stopped task.timer.cpu t task evset = s₁ at hstop
  obtain ⟨task₁, htask₁, hdial₁, henvir₁⟩ : ∃ task₁, s₁.tasks t = some task₁ ∧
      task₁.dial = task.dial ∧ s₁.envirs task₁.envir = some envir := by
    subst hs₁
    exact ⟨_, Function.update_self .., rfl, henvir⟩
  have hsave : s₁.smonSampleSave t = .ok (s₁.saved t task₁ envir) :=
    smonSampleSave_eq_ok.mpr ⟨task₁, envir, htask₁, henvir₁, hpos, rfl⟩
  have hquiet : Quiet (fun _ => True) t s₁ (s₁.saved t task₁ envir) :=
    quiet_smonSampleSave (fun _ => trivial) hsave
  generalize hs₂ : s₁.saved t task₁ envir = s₂ at hsave hquiet
  obtain ⟨task₂, htask₂, hdial₂, henvir₂⟩ : ∃ task₂, s₂.tasks t = some task₂ ∧
      task₂.dial = { task.dial with evset := (task.evset + 1) % envir.nEsids.toNat } ∧
      s₂.envirs task₂.envir = some envir := by
    refine ⟨task₁.saved envir, by rw [← hs₂, saved_tasks, Function.update_self], ?_, ?_⟩
    · rw [SmonTask.saved_dial, hdial₁]
      exact congrArg (fun j => { task.dial with evset := (j + 1) % envir.nEsids.toNat })
        (congrArg Dial.evset hdial₁)
    · exact (congrFun hquiet.envirs _).trans henvir₁
  have hevset₂ : task₂.evset = (task.evset + 1) % envir.nEsids.toNat := congrArg Dial.evset hdial₂
  let task₃ : SmonTask := { task₂ with
    timer := hrtimerForward task₂.timer s₂.now (msToNs envir.sampleTime)
    ktRemain := msToNs envir.sampleTime }
  obtain ⟨s₃, hstart⟩ := exists_smonSampleStart (s := s₂.setTask t task₃) task₃
    task.timer.cpu (Function.update_self ..) henvir₂
    (hevset₂ ▸ Nat.lt_of_lt_of_le (Nat.mod_lt (task.evset + 1) hpos) hbound)
  refine ⟨s₃, task₃.dial, ?_, ?_, hevset₂, ?_, ?_⟩
  · refine (bind_of_ok (task_eq_ok.mpr htask)).trans ((if_pos hflags).trans ?_)
    refine (bind_of_ok hstop).trans ((bind_of_ok hsave).trans ?_)
    exact (bind_of_ok (task_eq_ok.mpr htask₂)).trans ((bind_of_ok (envir_eq_ok.mpr henvir₂)).trans
      hstart)
  · rw [dials_smonSampleStart hstart]
    exact dials_of_tasks (Function.update_self ..)
  · exact (hrtimerForward_active ..).trans (congrArg (fun d => d.timer.active) hdial₂)
  · exact (congrArg Dial.timerFlags hdial₂).trans hflags

/-- The timer takes an armed task from a good index to the next one. -/
theorem Poised.exists_next (h : Poised s p t envir i) (harmed : Armed s t)
    (hn : i < envir.nEsids.toNat) (hbound : envir.nEsids.toNat ≤ muxEvsets) {evset : SmonEvset}
    (hget : smonGetEvset s.evsets (envir.esids i) = some evset) :
    ∃ ls s', Run State.Later s ls s' ∧ Poised s' p t envir ((i + 1) % envir.nEsids.toNat) ∧
      Armed s' t ∧ s'.evsets = s.evsets := by
  obtain ⟨task, htask, hp, henvir⟩ := h.task
  have hdial := dials_of_tasks htask
  obtain ⟨_, hdial', hevset⟩ := h.evset
  obtain rfl := Option.some_inj.mp (hdial'.symm.trans hdial)
  obtain ⟨_, hdial', hactive, hflags⟩ := harmed
  obtain rfl := Option.some_inj.mp (hdial'.symm.trans hdial)
  obtain rfl : task.evset = i := hevset
  -- wait until the timer is due
  let d := (task.timer.expires - s.now).toNat
  let s₁ : State := { s with now := s.now + d }
  have hdue : task.timer.due s₁.now = true := by
    have hle : task.timer.expires ≤ s.now + d := by
      have := Int.self_le_toNat (task.timer.expires - s.now)
      omega
    simp only [Hrtimer.due, Bool.and_eq_true, decide_eq_true_eq]
    exact ⟨hactive, hle⟩
  have htask₁ : s₁.tasks t = some task := htask
  obtain ⟨s₂, dial₂, htick, hdial₂, hevset₂, hactive₂, hflags₂⟩ :=
    exists_smonSchedTimerTick htask₁ henvir hflags hn hbound hget
  have hpoised : Poised s₁ p t envir task.evset :=
    ⟨h.curr, h.list, ⟨task, htask, hp, henvir⟩, ⟨task.dial, hdial, rfl⟩⟩
  have hquiet : Quiet (fun _ => True) t s₁ s₂ := quiet_smonSchedTimerTick (fun _ => trivial) htick
  refine ⟨[.time d, .tick t], s₂, ?_, hpoised.quiet hquiet ⟨dial₂, hdial₂, hevset₂⟩,
    ⟨dial₂, hdial₂, hactive₂.trans hactive, hflags₂⟩, hquiet.evsets⟩
  refine .cons ⟨⟨trivial, rfl⟩, trivial, rfl⟩ (.single ⟨⟨?_, htick⟩, trivial, rfl⟩)
  change (s.tasks t).any (fun task => task.timer.due s₁.now) = true
  rw [htask]
  exact hdue

/-- Going round the indices, an armed task comes to the first bad one. -/
theorem Poised.exists_at (harmed : Armed s t) (h : Poised s p t envir 0)
    (hbound : envir.nEsids.toNat ≤ muxEvsets) (hi : i < envir.nEsids.toNat)
    (hgood : ∀ j < i, ∃ evset, smonGetEvset s.evsets (envir.esids j) = some evset) :
    ∃ ls s', Run State.Later s ls s' ∧ Poised s' p t envir i ∧ Armed s' t ∧ s'.evsets = s.evsets := by
  induction i with
  | zero => exact ⟨[], s, .nil, h, harmed, rfl⟩
  | succ i ih =>
    obtain ⟨ls, s₁, run, h₁, harmed₁, hevsets₁⟩ := ih (Nat.lt_of_succ_lt hi) fun j hj =>
      hgood j (Nat.lt_succ_of_lt hj)
    obtain ⟨evset, hget⟩ := hgood i (Nat.lt_succ_self i)
    obtain ⟨ls', s₂, run', h₂, harmed₂, hevsets₂⟩ := h₁.exists_next harmed₁ (Nat.lt_of_succ_lt hi)
      hbound (hevsets₁ ▸ hget)
    rw [Nat.mod_eq_of_lt hi] at h₂
    exact ⟨ls ++ ls', s₂, run.append run', h₂, harmed₂, hevsets₂.trans hevsets₁⟩

/-- A queued request arms a task. -/
theorem Poised.exists_armed {c : Cpu} (h : Poised s p t envir i) (hirq : (c, .startTimer t) ∈ s.irqs)
    (hmux : i < muxEvsets) : ∃ ls s', Run State.Later s ls s' ∧ Poised s' p t envir i ∧
      Armed s' t ∧ s'.evsets = s.evsets := by
  obtain ⟨task, htask, hp, henvir⟩ := h.task
  obtain ⟨_, hdial, hevset⟩ := h.evset
  obtain rfl := Option.some_inj.mp (hdial.symm.trans (dials_of_tasks htask))
  replace hevset : task.evset = i := hevset
  let s₁ : State := { s with irqs := s.irqs.erase (c, .startTimer t) }
  let task₂ : SmonTask := { task with
    timerFlags := true
    timer := hrtimerStart c s.now
      (if task.ktRemain ≤ 0 then msToNs envir.sampleTime else task.ktRemain) }
  obtain ⟨s₂, hstart⟩ := exists_smonSampleStart (s := s₁.setTask t task₂) task₂ c
    (Function.update_self ..) henvir (hevset ▸ hmux)
  have hrun : s₁.startTimerPmc c t = .ok s₂ :=
    (bind_of_ok (task_eq_ok.mpr htask)).trans ((bind_of_ok (envir_eq_ok.mpr henvir)).trans hstart)
  have hdial₂ : s₂.dials t = some task₂.dial := by
    rw [dials_smonSampleStart hstart]
    exact dials_of_tasks (Function.update_self ..)
  have hquiet : Quiet (fun _ => True) t s₁ s₂ := quiet_startTimerPmc hrun
  have hpoised : Poised s₁ p t envir i :=
    ⟨h.curr, h.list, ⟨task, htask, hp, henvir⟩, ⟨task.dial, hdial, hevset⟩⟩
  exact ⟨[.irq c (.startTimer t)], s₂, .single ⟨⟨hirq, hrun⟩, trivial, rfl⟩,
    hpoised.quiet hquiet ⟨_, hdial₂, hevset⟩, ⟨_, hdial₂, rfl, rfl⟩, hquiet.evsets⟩

/-! ### The process gets its turn -/

/-- Monitoring a task starts its sample, or queues that. -/
theorem exists_smonSchedTaskIn {task : SmonTask} (me : Cpu) (htask : s.tasks t = some task)
    (henvir : s.envirs task.envir = some envir) (hmux : task.evset < muxEvsets) :
    ∃ s', s.smonSchedTaskIn me t = .ok s' ∧ s'.dials = s.dials ∧
      (envir.options.stat = false → ∃ c, (c, .startTimer t) ∈ s'.irqs) := by
  obtain ⟨s₁, task₁, hin, htask₁, hdials, henvir₁⟩ : ∃ s₁ task₁,
      (s.when envir.options.sched fun s => s.smonSampleSchedIn me t) = .ok s₁ ∧
      s₁.tasks t = some task₁ ∧ s₁.dials = s.dials ∧ s₁.envirs task₁.envir = some envir := by
    cases hsched : envir.options.sched with
    | false => exact ⟨s, task, rfl, htask, rfl, henvir⟩
    | true =>
      have hin : ∃ s₁, s.smonSampleSchedIn me t = .ok s₁ := ⟨_, bind_of_ok (task_eq_ok.mpr htask)⟩
      obtain ⟨s₁, hin⟩ := hin
      have hquiet : Quiet (fun _ => True) t s s₁ := quiet_smonSampleSchedIn hin
      obtain ⟨task₁, htask₁, htc⟩ := hquiet.exists_task htask
      refine ⟨s₁, task₁, hin, htask₁, dials_smonSampleSchedIn hin, ?_⟩
      rw [hquiet.envirs, htc, henvir]
  have hmux₁ : task₁.evset < muxEvsets := by
    have hdial := (congrFun hdials t).trans (dials_of_tasks htask)
    rw [dials_of_tasks htask₁, Option.some_inj] at hdial
    have hevset : task₁.evset = task.evset := congrArg Dial.evset hdial
    rw [hevset]
    exact hmux
  have hstep : ∀ {s' : State}, (if envir.options.stat then s₁.smonSampleStart me t
      else pure (s₁.irqWorkQueue me (.startTimer t))) = .ok s' →
      s.smonSchedTaskIn me t = .ok s' := fun h =>
    (bind_of_ok (task_eq_ok.mpr htask)).trans
      ((bind_of_ok (envir_eq_ok.mpr henvir)).trans ((bind_of_ok hin).trans h))
  cases hstat : envir.options.stat with
  | true =>
    obtain ⟨s₂, hstart⟩ := exists_smonSampleStart task₁ me htask₁ henvir₁ hmux₁
    exact ⟨s₂, hstep (by rw [hstat]; exact hstart), (dials_smonSampleStart hstart).trans hdials,
      fun hfalse => absurd hfalse (by simp)⟩
  | false =>
    refine ⟨s₁.irqWorkQueue me (.startTimer t), hstep (by rw [hstat]; rfl), ?_, fun _ => ?_⟩
    · exact (dials_congr (tasks_irqWorkQueue ..)).trans hdials
    · unfold irqWorkQueue
      split
      · rename_i hmem
        simpa using hmem
      · exact ⟨me, by simp⟩

/-- A new task on its list, with no hook called since. -/
structure Listening (s : State) (p : Proc) (t : TaskId) (envir : SmonEnvir) (l : List TaskId) :
    Prop where
  running : ∀ c, s.kernel.cpu (s.kernel.curr c) = c
  list : s.cpuList (s.kernel.cpu p) = l
  task : ∃ task, s.tasks t = some task ∧ task.p = some p ∧ s.envirs task.envir = some envir ∧
    task.evset = 0 ∧ task.timer.active = false

/-- The process of a listed task gets its turn. If it has its turn already, it has it once more,
which needs a good index to begin with. -/
theorem Listening.exists_switch (h : Listening s p t envir [t])
    (hgood : s.kernel.curr (s.kernel.cpu p) = p → 0 < envir.nEsids.toNat ∧
      ∃ evset, smonGetEvset s.evsets (envir.esids 0) = some evset) :
    ∃ ls s', Run State.Later s ls s' ∧ Poised s' p t envir 0 ∧ s'.evsets = s.evsets ∧
      (envir.options.stat = false → ∃ c, (c, .startTimer t) ∈ s'.irqs) := by
  obtain ⟨task, htask, hp, henvir, hevset, hactive⟩ := h.task
  have hmux : (0 : ℕ) < muxEvsets := by decide
  let c := s.kernel.cpu p
  have hprev : s.kernel.cpu (s.kernel.curr c) = c := h.running c
  -- the process that runs so far may be `p` itself
  obtain ⟨s₁, hout, hquiet₁, hdials₁⟩ : ∃ s₁,
      (s.whenFound (if task.p = some (s.kernel.curr c) then some t else none)
        fun t s => s.smonSchedTaskOut c t) = .ok s₁ ∧ Quiet (fun _ => True) t s s₁ ∧
      s₁.dials = s.dials := by
    by_cases hcurr : s.kernel.curr c = p
    · obtain ⟨hn, evset, hget⟩ := hgood hcurr
      have hstop : s.smonSampleStop c t = .ok (s.stopped c t task evset) := smonSampleStop_eq_ok.mpr
        ⟨task, envir, evset, htask, henvir, hevset ▸ hn, hevset ▸ hmux, hevset ▸ hget, rfl⟩
      refine ⟨_, ?_, quiet_smonSampleStop hstop, dials_smonSampleStop hstop⟩
      rw [hp, hcurr, if_pos rfl]
      refine (bind_of_ok hstop).trans ((bind_of_ok (task_eq_ok.mpr (Function.update_self ..))).trans ?_)
      exact when_eq_ok.mpr (.inl ⟨hactive, rfl⟩)
    · refine ⟨s, ?_, .refl _ t s, rfl⟩
      rw [hp, if_neg fun heq => hcurr (Option.some_inj.mp heq).symm]
      rfl
  obtain ⟨task₁, htask₁, htc₁⟩ := hquiet₁.exists_task htask
  have hp₁ : task₁.p = some p := (congrArg TaskCore.p htc₁).trans hp
  have henvir₁ : s₁.envirs task₁.envir = some envir := by rw [hquiet₁.envirs, htc₁, henvir]
  have hevset₁ : task₁.evset = 0 := by
    have hdial := (congrFun hdials₁ t).trans (dials_of_tasks htask)
    rw [dials_of_tasks htask₁, Option.some_inj] at hdial
    exact (congrArg Dial.evset hdial).trans hevset
  obtain ⟨s₂, hin, hdials₂, hirq⟩ :=
    exists_smonSchedTaskIn c htask₁ henvir₁ (hevset₁ ▸ hmux)
  have hquiet₂ : Quiet (fun _ => True) t s₁ s₂ := quiet_smonSchedTaskIn hin
  have hquiet := hquiet₁.trans hquiet₂
  have hswitch : s.smonSchedSwitch (s.kernel.curr c) p = .ok s₂ := by
    have hfound : s.findProc (s.kernel.curr c) (s.cpuList (s.kernel.cpu (s.kernel.curr c))) =
        .ok (if task.p = some (s.kernel.curr c) then some t else none) := by
      rw [hprev, h.list]
      exact findProc_singleton htask _
    have hfound₁ : s₁.findProc p (s₁.cpuList (s.kernel.cpu (s.kernel.curr c))) = .ok (some t) := by
      rw [hprev, hquiet₁.cpuList, h.list, findProc_singleton htask₁, if_pos hp₁]
    refine (bind_of_ok hfound).trans ?_
    rw [hprev] at hfound₁ ⊢
    exact (bind_of_ok hout).trans ((bind_of_ok hfound₁).trans hin)
  have hexec : s.exec (.switch c p) = .ok (s₂.withKernel (s.kernel.step (.switch c p))) := by
    refine (bind_of_ok hswitch).trans ?_
    rw [hquiet.kernel]
    rfl
  refine ⟨[.switch c p], _, .single ⟨⟨trivial, hexec⟩, rfl, rfl⟩, ⟨?_, ?_, ?_, ?_⟩, hquiet.evsets,
    hirq⟩
  · exact Function.update_self ..
  · exact (congrFun hquiet.cpuList _).trans h.list
  · obtain ⟨task₂, htask₂, htc₂⟩ := hquiet₂.exists_task htask₁
    exact ⟨task₂, htask₂, (congrArg TaskCore.p htc₂).trans hp₁, by
      rw [← htc₂, ← hquiet₂.envirs] at henvir₁
      exact henvir₁⟩
  · refine ⟨task₁.dial, ?_, hevset₁⟩
    exact (congrFun hdials₂ t).trans (dials_of_tasks htask₁)

section Registered

variable {pid : Pid} {b : RbId} {alloc : Alloc}

/-- The new task, in memory. -/
theorem newRoot_task (s : State) (pid : Pid) (envir : SmonEnvir) (b : RbId) :
    (s.newRoot pid envir b).tasks s.fresh = some (newTask (s.kernel.forEachProcess pid) pid s.fresh b
      (some (smonTaskExtraCreate (smonCreateEnvir envir) b))) ∧
    (s.newRoot pid envir b).envirs s.fresh = some (smonCreateEnvir envir) := by
  have hfresh : ((s.smonGetRb b).setBatch b envir.batchSize).fresh = s.fresh :=
    congrArg Static.fresh (setBatch_static envir.batchSize)
  constructor
  · simp only [State.newRoot, State.install, State.setEnvir, hfresh, Function.update_self]
  · simp only [State.newRoot, State.install, State.setEnvir, Function.update_self]

/-- What a registration leaves alone. -/
theorem newRoot_static (s : State) (pid : Pid) (envir : SmonEnvir) (b : RbId) :
    (s.newRoot pid envir b).kernel = s.kernel ∧ (s.newRoot pid envir b).evsets = s.evsets ∧
      (s.newRoot pid envir b).cpuList = s.cpuList ∧ (s.newRoot pid envir b).waitList = s.waitList := by
  have hstatic := setBatch_static (s := s.smonGetRb b) (b := b) envir.batchSize
  exact ⟨congrArg Static.kernel hstatic, congrArg Static.evsets hstatic,
    congrArg Static.cpuList hstatic, congrArg Static.waitList hstatic⟩

/-- The extra part of a task can always be started. -/
theorem exists_startExtra {task : SmonTask} (me : Cpu) (htask : s.tasks t = some task)
    (hextra : task.extra.isSome = true) (henvir : s.envirs task.envir = some envir) :
    ∃ s', s.startExtra me t = .ok s' := by
  obtain ⟨extra, hx⟩ := Option.isSome_iff_exists.mp hextra
  let info := s.smonSampleGetInfo me envir
  obtain ⟨s₁, hset⟩ : ∃ s₁, info.2.setExtra t { extra with infoSample := info.1 } = .ok s₁ :=
    ⟨_, setExtra_eq_ok.mpr ⟨task, htask, rfl⟩⟩
  have hstart : s.smonTaskExtraStart me t = if envir.options.rapl then
      .ok ((s₁.smonSampleInfoSave extra.rb info.1).irqWorkQueue me (.startRapl t))
      else .ok (s₁.smonSampleInfoSave extra.rb info.1) := by
    refine (bind_of_ok (task_eq_ok.mpr htask)).trans ?_
    refine (bind_of_ok (extra_eq_ok.mpr ⟨task, htask, hx⟩)).trans ?_
    exact (bind_of_ok (envir_eq_ok.mpr henvir)).trans (bind_of_ok hset)
  have hwhen : s.startExtra me t = s.smonTaskExtraStart me t :=
    (bind_of_ok (task_eq_ok.mpr htask)).trans (if_pos hextra)
  rw [hwhen, hstart]
  split
  · exact ⟨_, rfl⟩
  · exact ⟨_, rfl⟩

/-- The process of a task that waits calls `exec`. -/
theorem exists_exec {task : SmonTask} (hcurr : s.kernel.curr (s.kernel.cpu p) = p)
    (hcpu : s.cpuList (s.kernel.cpu p) = []) (hwait : s.waitList = [t])
    (htask : s.tasks t = some task) (hp : task.p = some p) (hevset : task.evset = 0)
    (hextra : task.extra.isSome = true) (henvir : s.envirs task.envir = some envir) :
    ∃ ls s', Run State.Later s ls s' ∧ Poised s' p t envir 0 ∧ s'.evsets = s.evsets ∧
      (envir.options.stat = false → ∃ c, (c, .startTimer t) ∈ s'.irqs) := by
  have hfound : s.findProc p s.waitList = .ok (some t) := by
    rw [hwait, findProc_singleton htask, if_pos hp]
  obtain ⟨s₂, hstart⟩ := exists_startExtra (s := s.delWaitList t) (s.kernel.cpu p) htask hextra henvir
  have hquiet₂ := (startExtra_cases hstart).quiet
  obtain ⟨task₂, htask₂, htc₂⟩ := hquiet₂.exists_task htask
  have hevset₂ : task₂.evset = 0 := by
    have hdial := (congrFun (dials_startExtra hstart) t).trans
      (dials_of_tasks (s := s.delWaitList t) htask)
    rw [dials_of_tasks htask₂, Option.some_inj] at hdial
    exact (congrArg Dial.evset hdial).trans hevset
  have henvir₂ : s₂.envirs task₂.envir = some envir := by
    rw [hquiet₂.envirs, htc₂]
    exact henvir
  obtain ⟨s₃, hin, hdials₃, hirq⟩ := exists_smonSchedTaskIn (s.kernel.cpu p) htask₂ henvir₂
    (hevset₂ ▸ (by decide))
  have hquiet₃ : Quiet (fun _ => True) t s₂ s₃ := quiet_smonSchedTaskIn hin
  obtain ⟨task₃, htask₃, htc₃⟩ := hquiet₃.exists_task htask₂
  have hexec : s.exec (.exec p) = .ok (s₃.addCpuList (s.kernel.cpu p) t) :=
    (bind_of_ok hfound).trans ((bind_of_ok hstart).trans (bind_of_ok hin))
  have hkernel : s₃.kernel = s.kernel := hquiet₃.kernel.trans hquiet₂.kernel
  refine ⟨[.exec p], s₃.addCpuList (s.kernel.cpu p) t,
    .single ⟨⟨trivial, hexec⟩, hcurr, rfl⟩, ⟨?_, ?_, ⟨task₃, htask₃, ?_, ?_⟩,
    ⟨task₂.dial, ?_, hevset₂⟩⟩, hquiet₃.evsets.trans hquiet₂.evsets, hirq⟩
  · change s₃.kernel.curr (s₃.kernel.cpu p) = p
    rw [hkernel, hcurr]
  · change Function.update s₃.cpuList (s.kernel.cpu p) (t :: s₃.cpuList (s.kernel.cpu p))
      (s₃.kernel.cpu p) = [t]
    have hlist₃ : s₃.cpuList (s.kernel.cpu p) = [] :=
      (congrFun hquiet₃.cpuList _).trans ((congrFun hquiet₂.cpuList _).trans hcpu)
    rw [hkernel, Function.update_self, hlist₃]
  · rw [htc₃, htc₂, hp]
  · change s₃.envirs task₃.envir = some envir
    rw [hquiet₃.envirs, htc₃, henvir₂]
  · exact (congrFun hdials₃ t).trans (dials_of_tasks htask₂)

/-- With nothing listed, a switch is the kernel's own affair. -/
theorem exec_switch_of_nil (hcpu : ∀ c, s.cpuList c = []) (c : Cpu) (next : Proc) :
    s.exec (.switch c next) = .ok (s.withKernel (s.kernel.step (.switch c next))) := by
  have hfound : ∀ q c, s.findProc q (s.cpuList c) = .ok none := by
    intro q c
    rw [hcpu]
    rfl
  have hswitch : s.smonSchedSwitch (s.kernel.curr c) next = .ok s :=
    (bind_of_ok (hfound _ _)).trans (bind_of_ok (hfound _ _))
  exact bind_of_ok hswitch

/-- **Every registered process comes to its turn**, and to its first index. -/
theorem exists_poised (init : s₀.Initial)
    (hreg : s₀.smonSchedRegisterTask me pid envir b alloc = .ok (0, s₁)) :
    ∃ p t ls s, Run State.Later s₁ ls s ∧ Poised s p t (smonCreateEnvir envir) 0 ∧
      s.evsets = s₀.evsets ∧
      (0 < (smonCreateEnvir envir).nEsids.toNat → (∃ evset,
          smonGetEvset s₀.evsets ((smonCreateEnvir envir).esids 0) = some evset) →
        (smonCreateEnvir envir).options.stat = false → ∃ c, (c, .startTimer t) ∈ s.irqs) := by
  rcases register_cases hreg with ⟨-, hret, -⟩ | ⟨-, -, s₂, hnew, hwait, hstart⟩
  · exact absurd hret (by decide)
  let p := s₀.kernel.forEachProcess pid
  let t := s₀.fresh
  obtain ⟨htask, henvir⟩ := newRoot_task s₀ pid envir b
  obtain ⟨hkernel, hevsets, hcpu, hwaitList⟩ := newRoot_static s₀ pid envir b
  obtain ⟨htask₂, henvir₂, hkernel₂, hevsets₂, hcpu₂, hwait₂⟩ :
      s₂.tasks t = some (newTask p pid t b (some (smonTaskExtraCreate (smonCreateEnvir envir) b))) ∧
      s₂.envirs t = some (smonCreateEnvir envir) ∧ s₂.kernel = s₀.kernel ∧ s₂.evsets = s₀.evsets ∧
      (∀ c, s₂.cpuList c = []) ∧ s₂.waitList = [] := by
    subst hnew
    exact ⟨htask, henvir, hkernel, hevsets, fun c => (congrFun hcpu c).trans (init.cpuList c),
      hwaitList.trans init.waitList⟩
  refine ⟨p, t, ?_⟩
  cases hexec : envir.options.onExec with
  | true =>
    obtain rfl := hwait hexec
    let c := s₀.kernel.cpu p
    let s₃ := (s₂.addWaitList t).withKernel (s₂.kernel.step (.switch c p))
    have hswitch : (s₂.addWaitList t).exec (.switch c p) = .ok s₃ :=
      exec_switch_of_nil (s := s₂.addWaitList t) hcpu₂ c p
    have hcpu₃ : s₃.kernel.cpu p = c := by
      change s₂.kernel.cpu p = c
      rw [hkernel₂]
    have hcurr₃ : s₃.kernel.curr (s₃.kernel.cpu p) = p := by
      rw [hcpu₃]
      exact Function.update_self ..
    have hwait₃ : s₃.waitList = [t] := congrArg (t :: ·) hwait₂
    obtain ⟨ls, s, run, hpoised, hevsets₃, hirq⟩ :=
      exists_exec hcurr₃ (hcpu₂ _) hwait₃ htask₂ rfl rfl rfl henvir₂
    have hlater : (s₂.addWaitList t).Later (.switch c p) s₃ := ⟨⟨trivial, hswitch⟩, hcpu₃, rfl⟩
    refine ⟨_, s, .cons hlater run, hpoised, hevsets₃.trans hevsets₂,
      fun _ _ => hirq⟩
  | false =>
    obtain ⟨s₃, hextra, rfl⟩ := hstart hexec
    have hquiet := (startExtra_cases hextra).quiet
    obtain ⟨task₃, htask₃, htc₃⟩ := hquiet.exists_task htask₂
    have hdial₃ := (congrFun (dials_startExtra hextra) t).trans (dials_of_tasks htask₂)
    rw [dials_of_tasks htask₃, Option.some_inj] at hdial₃
    have hkernel₃ : s₃.kernel = s₀.kernel := hquiet.kernel.trans hkernel₂
    have hlisten : Listening (s₃.addCpuList (s₀.kernel.cpu p) t) p t (smonCreateEnvir envir) [t] := by
      refine ⟨fun c => ?_, ?_, ⟨task₃, htask₃, ?_, ?_, congrArg Dial.evset hdial₃,
        congrArg (fun d => d.timer.active) hdial₃⟩⟩
      · change s₃.kernel.cpu (s₃.kernel.curr c) = c
        rw [hkernel₃, init.running]
      · change Function.update s₃.cpuList (s₀.kernel.cpu p) (t :: s₃.cpuList (s₀.kernel.cpu p))
          (s₃.kernel.cpu p) = [t]
        rw [hkernel₃, Function.update_self, hquiet.cpuList, hcpu₂]
      · rw [htc₃]
        rfl
      · change s₃.envirs task₃.envir = some (smonCreateEnvir envir)
        rw [hquiet.envirs, htc₃]
        exact henvir₂
    have hevsets₃ : s₃.evsets = s₀.evsets := hquiet.evsets.trans hevsets₂
    by_cases hgood : 0 < (smonCreateEnvir envir).nEsids.toNat ∧ ∃ evset,
        smonGetEvset s₀.evsets ((smonCreateEnvir envir).esids 0) = some evset
    · obtain ⟨ls, s, run, hpoised, hevsets, hirq⟩ := hlisten.exists_switch fun _ => by
        change 0 < _ ∧ ∃ evset, smonGetEvset s₃.evsets _ = some evset
        rw [hevsets₃]
        exact hgood
      exact ⟨ls, s, run, hpoised, hevsets.trans hevsets₃, fun _ _ => hirq⟩
    · by_cases hcurr : s₃.kernel.curr (s₃.kernel.cpu p) = p
      · obtain ⟨hrunning, hlist, task, htask, hp, henvir, hevset, -⟩ := hlisten
        exact ⟨[], _, .nil, ⟨hcurr, hlist, ⟨task, htask, hp, henvir⟩,
          ⟨task.dial, dials_of_tasks htask, hevset⟩⟩, hevsets₃, fun hpos hex => absurd ⟨hpos, hex⟩ hgood⟩
      · obtain ⟨ls, s, run, hpoised, hevsets, hirq⟩ := hlisten.exists_switch fun heq => absurd heq hcurr
        exact ⟨ls, s, run, hpoised, hevsets.trans hevsets₃, fun _ _ => hirq⟩

end Registered

/-! ### Exactly the usable environments -/

/-- An index is bad if it is not that of an event set. -/
theorem smonGetEvset_eq_none {evsets : List SmonEvset} {id : U32} :
    smonGetEvset evsets id = none ↔ ¬ id.toNat < evsets.length := by
  rw [smonGetEvset, List.getElem?_eq_none_iff, Nat.not_lt]

theorem exists_smonGetEvset {evsets : List SmonEvset} {id : U32} (h : id.toNat < evsets.length) :
    ∃ evset, smonGetEvset evsets id = some evset := ⟨_, List.getElem?_eq_getElem h⟩

/-- An environment with a bad index is one that a run comes to. -/
theorem exists_not_safe {pid : Pid} {b : RbId} {alloc : Alloc} (init : s₀.Initial)
    (hreg : s₀.smonSchedRegisterTask me pid envir b alloc = .ok (0, s₁))
    (husable : ¬ envir.Usable s₀.evsets) :
    ∃ ls s, Run State.Later s₁ ls s ∧ ¬ s.SafeEvsets := by
  rw [envir.usable_iff_fits] at husable
  obtain ⟨p, t, ls, s, run, hpoised, hevsets, hirq⟩ := exists_poised init hreg
  have hstat : (smonCreateEnvir envir).options.stat = true →
      (smonCreateEnvir envir).nEsids.toNat = 1 := by
    intro hstat
    rw [smonCreateEnvir_stat] at hstat
    rw [smonCreateEnvir_nEsids, if_pos hstat]
  generalize smonCreateEnvir envir = new at *
  by_cases hcount : 0 < new.nEsids.toNat ∧ new.nEsids.toNat ≤ muxEvsets
  · obtain ⟨hpos, hbound⟩ := hcount
    have hexists : ∃ i, i < new.nEsids.toNat ∧ ¬ (new.esids i).toNat < s₀.evsets.length := by
      by_contra hnone
      exact husable ⟨hpos, hbound, fun i hi => not_not.mp fun hbad => hnone ⟨i, hi, hbad⟩⟩
    -- the first bad index
    classical
    obtain ⟨hlt, hbad⟩ := Nat.find_spec hexists
    have hmin : ∀ j < Nat.find hexists, ∃ evset,
        smonGetEvset s₀.evsets (new.esids j) = some evset := by
      intro j hj
      refine exists_smonGetEvset (not_not.mp fun hnot => ?_)
      exact Nat.find_min hexists hj ⟨Nat.lt_trans hj hlt, hnot⟩
    generalize Nat.find hexists = i at *
    have hmux : i < muxEvsets := Nat.lt_of_lt_of_le hlt hbound
    rw [← smonGetEvset_eq_none, ← hevsets] at hbad
    rcases Nat.eq_zero_or_pos i with rfl | hi
    · exact ⟨ls, s, run, hpoised.not_safe hlt hmux hbad⟩
    · have hmany : new.options.stat = false := by
        rw [← Bool.not_eq_true]
        intro htrue
        have hone := hstat htrue
        omega
      obtain ⟨c, hc⟩ := hirq hpos (hmin 0 hi) hmany
      obtain ⟨ls₁, s₁, run₁, hpoised₁, harmed, hevsets₁⟩ :=
        hpoised.exists_armed hc (Nat.lt_of_lt_of_le hpos hbound)
      obtain ⟨ls₂, s₂, run₂, hpoised₂, -, hevsets₂⟩ := hpoised₁.exists_at harmed hbound hlt
        fun j hj => by
          rw [hevsets₁, hevsets]
          exact hmin j hj
      refine ⟨ls ++ (ls₁ ++ ls₂), s₂, run.append (run₁.append run₂), ?_⟩
      exact hpoised₂.not_safe hlt hmux (by rw [hevsets₂, hevsets₁, hbad])
  · obtain ⟨task, htask, -, henvir⟩ := hpoised.task
    refine ⟨ls, s, run, fun hsafe => hcount ?_⟩
    obtain ⟨hlt, hbound⟩ := hsafe.evset t task new htask henvir
    exact ⟨Nat.zero_lt_of_lt hlt, hbound⟩

/-- **Registration is safe exactly for usable environments.** -/
theorem safe_iff_usable {pid : Pid} {b : RbId} {alloc : Alloc} (init : s₀.Initial)
    (hreg : s₀.smonSchedRegisterTask me pid envir b alloc = .ok (0, s₁)) :
    (∀ ls s, Run State.Later s₁ ls s → s.SafeEvsets) ↔ envir.Usable s₀.evsets := by
  constructor
  · intro hsafe
    by_contra husable
    obtain ⟨ls, s, run, hnot⟩ := exists_not_safe init hreg husable
    exact hnot (hsafe ls s run)
  · intro husable ls s run
    exact safe_of_usable init husable hreg run

theorem safe_iff_usable_inheriting : ∃ s₁, (boot [] [fixedOnly]).smonSchedRegisterTask 0 1 inheriting
      0 ⟨true, true, true⟩ = .ok (0, s₁) ∧
    ((∀ ls s, Run State.Later s₁ ls s → s.SafeEvsets) ↔ inheriting.Usable [fixedOnly]) ∧
    inheriting.Usable [fixedOnly] := by
  obtain ⟨s₁, hreg⟩ : ∃ s₁, (boot [] [fixedOnly]).smonSchedRegisterTask 0 1 inheriting 0
      ⟨true, true, true⟩ = .ok (0, s₁) := ⟨_, rfl⟩
  have husable : inheriting.Usable [fixedOnly] :=
    ⟨by decide, by decide, fun _ _ => Nat.zero_lt_one⟩
  exact ⟨s₁, hreg, safe_iff_usable (initial_boot ..) hreg, husable⟩

/-- What `smon roof` asks for. -/
def roof : SmonEnvir where
  esids := fun i => if i = 1 then 1 else if i = 2 then -1 else 0
  nEsids := 2
  sampleTime := 10
  batchSize := 1000
  options := ⟨false, true, false, false, false, false, false⟩
  count := 0

/-- **The environment of `smon roof`, and no event set**: the process starts its program, and its
exit reads counters through a null pointer. -/
theorem not_safe_roof : ∃ s₁, (boot [] []).smonSchedRegisterTask 0 1 roof 0 ⟨true, true, true⟩ =
      .ok (0, s₁) ∧ ∃ s, Run State.Later s₁ [.switch 0 1, .exec 1, .irq 0 (.startTimer 0)] s ∧
    s.exec (.exit 1) = .error .nullEvset ∧ ¬ s.SafeEvsets := by
  refine ⟨_, rfl, _, .cons ⟨⟨trivial, rfl⟩, rfl, rfl⟩ <| .cons ⟨⟨trivial, rfl⟩, rfl, rfl⟩ <|
    .cons ⟨⟨?_, rfl⟩, trivial, rfl⟩ .nil, rfl, fun hsafe => ?_⟩
  · decide
  · exact hsafe.noFault (.exit 1) .nullEvset trivial rfl rfl rfl trivial

end SchedMon
