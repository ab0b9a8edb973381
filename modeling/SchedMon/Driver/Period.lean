import SchedMon.Driver.Extra
import SchedMon.Driver.Descendants

/-!
# The sample time that was asked for

A client asks for a sample time in milliseconds, an `unsigned int`; zero stands for the default.
`smon_create_envir` keeps it, the extra part has a copy, INFO reports it, and nothing bounds it. The
timers want nanoseconds, and `MS_TO_NS` multiplies before anything is widened: from 4295 ms on the
product wraps around.

## Main definitions

* `State.Hands` — an event hands an interval for a fresh period to a timer
* `State.Honours` — the interval is the one that was asked for, and that INFO reports

## Main results

* `timer_of_hands` — the timer is started or forwarded with the interval that is handed over
* `honours_iff` — **when the sample time that was asked for is honoured**
* `not_honours_fiveSeconds` — five seconds
-/

namespace SchedMon

open State

/-- The sample time a client gets who asks for this one. -/
def askedSampleTime (sampleTime : U32) : U32 :=
  if 0 < sampleTime then sampleTime else defaultSampleTime

theorem smonCreateEnvir_sampleTime (envir : SmonEnvir) :
    (smonCreateEnvir envir).sampleTime = askedSampleTime envir.sampleTime := by
  unfold smonCreateEnvir askedSampleTime
  dsimp only
  split <;> rfl

/-- **When `MS_TO_NS` does not wrap around.** -/
theorem msToNs_eq_iff (msec : U32) : msToNs msec = msec.toNat * 1000000 ↔ msec.toNat ≤ 4294 := by
  have hlt := msec.isLt
  have hmul : (msec * 1000000).toNat = msec.toNat * 1000000 % 2 ^ 32 := BitVec.toNat_mul ..
  rw [msToNs, hmul]
  omega

/-! ### Intervals -/

/-- What becomes of a timer that is handed an interval. -/
inductive TimerCall where
  | start (me : Cpu)
  | forward

/-- `hrtimer_start` or `hrtimer_forward`. -/
def TimerCall.apply (now kt : ℤ) (timer : Hrtimer) : TimerCall → Hrtimer
  | start me => hrtimerStart me now kt
  | forward => hrtimerForward timer now kt

namespace State

/-- The PMC timer of a task, or its RAPL timer. -/
def timer? (s : State) (rapl : Bool) (t : TaskId) : Option Hrtimer :=
  (s.tasks t).bind fun task =>
    if rapl then task.extra.map SmonTaskExtra.raplTimer else some task.timer

/-- An event hands interval `kt` for a fresh period to a timer of task `t`: the PMC timer when it is
armed with nothing left of the last period, or when it ticks, and the RAPL timer alike. -/
inductive Hands (s : State) (t : TaskId) : Label → Bool → TimerCall → ℤ → Prop
  | arm {me : Cpu} {task : SmonTask} {envir : SmonEnvir} (htask : s.tasks t = some task)
      (hfresh : task.ktRemain ≤ 0) (henvir : s.envirs task.envir = some envir) :
      Hands s t (.irq me (.startTimer t)) false (.start me) (msToNs envir.sampleTime)
  | forward {task : SmonTask} {envir : SmonEnvir} (htask : s.tasks t = some task)
      (hon : task.timerFlags = true) (henvir : s.envirs task.envir = some envir) :
      Hands s t (.tick t) false .forward (msToNs envir.sampleTime)
  | armRapl {me : Cpu} {task : SmonTask} {extra : SmonTaskExtra} (htask : s.tasks t = some task)
      (hextra : task.extra = some extra) :
      Hands s t (.irq me (.startRapl t)) true (.start me) (msToNs extra.raplSampleTime)
  | forwardRapl {task : SmonTask} {extra : SmonTaskExtra} (htask : s.tasks t = some task)
      (hextra : task.extra = some extra) (hon : extra.timerFlags = true) :
      Hands s t (.raplTick t) true .forward (msToNs extra.raplSampleTime)

/-- The INFO sample of the registered task, once it has been taken. -/
def Reported (s : State) (r : TaskId) (info : SampleInfo) : Prop :=
  ∃ task extra, s.tasks r = some task ∧ task.extra = some extra ∧ extra.infoSample = info ∧
    info ≠ .blank

/-- Interval `kt` is the sample time that was asked for at registration `r`, in nanoseconds, and so
are the sample times that INFO reports. -/
structure Honours (s : State) (r : TaskId) (sampleTime : U32) (kt : ℤ) : Prop where
  asked : kt = (askedSampleTime sampleTime).toNat * 1000000
  pmc : ∀ info, s.Reported r info → kt = info.pmcSampleTime.toNat * 1000000
  rapl : ∀ info, s.Reported r info → kt = info.raplSampleTime.toNat * 1000000

end State

section Intervals

variable {s s' : State} {t : TaskId} {l : Label} {rapl : Bool} {call : TimerCall} {kt : ℤ}
  {task : SmonTask} {extra : SmonTaskExtra}

theorem timer?_pmc (htask : s.tasks t = some task) : s.timer? false t = some task.timer := by
  simp only [timer?, htask, Option.bind_some, Bool.false_eq_true, if_false]

theorem timer?_rapl (htask : s.tasks t = some task) (hextra : task.extra = some extra) :
    s.timer? true t = some extra.raplTimer := by
  simp only [timer?, htask, hextra, Option.bind_some, Option.map_some, if_true]

/-- The extra part, written back. -/
theorem timer?_setExtra (h : s.setExtra t extra = .ok s') :
    s'.timer? true t = some extra.raplTimer := by
  obtain ⟨task, -, rfl⟩ := setExtra_eq_ok.mp h
  have hself : (s.setTask t { task with extra := some extra }).tasks t =
      some { task with extra := some extra } := Function.update_self ..
  exact timer?_rapl hself rfl

/-- **The interval that is handed over** is the one that the timer is started or forwarded with. -/
theorem timer_of_hands (h : s.Hands t l rapl call kt) (hstep : s.exec l = .ok s') :
    ∃ timer, s.timer? rapl t = some timer ∧
      s'.timer? rapl t = some (call.apply s.now kt timer) := by
  cases h with
  | @arm me task envir htask hfresh henvir =>
    refine ⟨task.timer, timer?_pmc htask, ?_⟩
    obtain ⟨x, envir', hx, henvir', hcall⟩ := call_start hstep
    obtain rfl := Option.some_inj.mp (hx.symm.trans htask)
    obtain rfl := Option.some_inj.mp (henvir'.symm.trans henvir)
    have harmed : (x.armed envir' me s.now).timer =
        hrtimerStart me s.now (msToNs envir'.sampleTime) := by
      simp only [SmonTask.armed, hfresh, if_true]
    rcases hcall with ⟨-, hcall⟩ | ⟨evset, -, hcall⟩
    · exact (timer?_pmc hcall.after).trans (congrArg some harmed)
    · exact (timer?_pmc hcall.after).trans (congrArg some harmed)
  | @forward task envir htask hon henvir =>
    refine ⟨task.timer, timer?_pmc htask, ?_⟩
    obtain ⟨envir', task', henvir', htask', -, hdial⟩ := dial_smonSchedTimerTick htask hon hstep
    obtain rfl := Option.some_inj.mp (henvir'.symm.trans henvir)
    exact (timer?_pmc htask').trans (congrArg some (congrArg Dial.timer hdial))
  | @armRapl me task extra htask hextra =>
    refine ⟨extra.raplTimer, timer?_rapl htask hextra, ?_⟩
    obtain ⟨extra', hextra', hset⟩ := bind_eq_ok.mp hstep
    obtain ⟨x, hx, hxextra⟩ := extra_eq_ok.mp hextra'
    obtain rfl := Option.some_inj.mp (hx.symm.trans htask)
    obtain rfl := Option.some_inj.mp (hxextra.symm.trans hextra)
    exact timer?_setExtra hset
  | @forwardRapl task extra htask hextra hon =>
    refine ⟨extra.raplTimer, timer?_rapl htask hextra, ?_⟩
    obtain ⟨extra', hextra', hset⟩ := bind_eq_ok.mp hstep
    obtain ⟨x, hx, hxextra⟩ := extra_eq_ok.mp hextra'
    obtain rfl := Option.some_inj.mp (hx.symm.trans htask)
    obtain rfl := Option.some_inj.mp (hxextra.symm.trans hextra)
    dsimp only at hset
    rw [if_pos hon] at hset
    exact timer?_setExtra hset

end Intervals

/-! ### What a registration keeps -/

/-- Everything that belongs to registration `r` knows the sample time that was asked for. -/
structure Keeping (r : TaskId) (sampleTime : U32) (s : State) : Prop where
  old : r < s.fresh
  envir : ∀ envir, s.envirs r = some envir → envir.sampleTime = sampleTime
  meter : ∀ m, s.meters r = some m → m.sampleTime = sampleTime ∧
    (m.info = .blank ∨ m.info.Tells sampleTime)

section Keeping

variable {s s' s₀ s₁ s₂ : State} {r t : TaskId} {l : Label} {ls ls' : List Label}
  {ring : TaskId → List TaskId} {sampleTime : U32}

/-- An environment does not come back. -/
theorem BookStep.envirs_before {b b' : Book} {e : EnvirId} {envir' : SmonEnvir}
    (h : BookStep b l b') (hlt : e < b.fresh) (he' : b'.envirs e = some envir') :
    ∃ envir, b.envirs e = some envir := by
  have hsame : b'.envirs = b.envirs → ∃ envir, b.envirs e = some envir :=
    fun heq => ⟨envir', heq ▸ he'⟩
  cases h with
  | fork parent child pid cpu leader k t c rb envir hk hat hc hrb henvir hinherit =>
    by_cases heq : e = c.1.envir
    · exact ⟨envir, heq ▸ henvir⟩
    · simp only [Book.addChild, Function.update_of_ne heq] at he'
      exact ⟨envir', he'⟩
  | register me pid envir rb alloc halloc =>
    simp only [Book.addRoot, Function.update_of_ne (Nat.ne_of_lt hlt)] at he'
    exact ⟨envir', he'⟩
  | unregister pid r c xs b' hr hc hpid hring hd =>
    rw [hd.envirs] at he'
    by_cases heq : e = r
    · simp [heq] at he'
    · exact ⟨envir', by rwa [Function.update_of_ne heq] at he'⟩
  | _ => exact hsame rfl

/-- A task with an extra part is the one that was registered. -/
theorem Forest.envir_of_extra (h : Forest s.book ring) {task : SmonTask}
    (htask : s.tasks t = some task) (hextra : task.extra.isSome = true) : task.envir = t := by
  have hentry := entry_of_tasks htask
  obtain ⟨hr, hmem⟩ := h.live t task.core hentry
  obtain ⟨c, hc, -, hroot⟩ := h.member _ hr t hmem
  obtain rfl := Option.some_inj.mp (hc.symm.trans hentry)
  have hx : task.core.2.isSome = true := by simpa [SmonTask.core] using hextra
  exact (hroot.mp hx).symm

theorem Keeping.step (h : Keeping r sampleTime s) (hforest : Forest s.book ring)
    (hstep : s.exec l = .ok s') : Keeping r sampleTime s' := by
  have hbook := exec_book_step hforest hstep
  refine ⟨Nat.lt_of_lt_of_le h.old hbook.fresh_le, fun envir' he' => ?_, fun m hm => ?_⟩
  · obtain ⟨envir, he⟩ := hbook.envirs_before h.old he'
    have hconfig := hbook.config he h.old he'
    have hkept := congrArg SmonEnvir.sampleTime hconfig
    exact hkept.trans (h.envir envir he)
  · cases exec_meter_turn hforest r hstep with
    | same hsame => exact h.meter m (hsame ▸ hm)
    | start hstart =>
      obtain ⟨m₀, hm₀, hm'⟩ := meter_startTimerRapl hstart
      obtain rfl := Option.some_inj.mp (hm'.symm.trans hm)
      exact h.meter m₀ hm₀
    | tick htick =>
      obtain ⟨m₀, hm₀, ⟨-, hm'⟩ | ⟨-, sample, hm'⟩⟩ := meter_smonSchedTimerRapl htick
      · obtain rfl := Option.some_inj.mp (hm'.symm.trans hm)
        exact h.meter _ hm₀
      · obtain rfl := Option.some_inj.mp (hm'.symm.trans hm)
        exact h.meter m₀ hm₀
    | @info _ _ task envir m₀ info htask henvir hm₀ hinfo hm' =>
      obtain rfl := Option.some_inj.mp (hm'.symm.trans hm)
      obtain ⟨x, extra, hx, hextra, -⟩ := meters_eq_some.mp hm₀
      obtain rfl := Option.some_inj.mp (hx.symm.trans htask)
      rw [hforest.envir_of_extra htask (Option.isSome_iff_exists.mpr ⟨extra, hextra⟩)] at henvir
      rw [h.envir envir henvir] at hinfo
      exact ⟨(h.meter m₀ hm₀).1, .inr hinfo⟩
    | new hu => exact absurd hu (Nat.ne_of_lt h.old)
    | gone hnone => exact absurd (hnone.symm.trans hm) (by simp)

theorem Keeping.run (h : Keeping r sampleTime s) (hforest : ∃ ring, Forest s.book ring)
    (run : Run State.Step s ls s') : Keeping r sampleTime s' := by
  have hall := run.invariant (motive := fun s =>
    (∃ ring, Forest s.book ring) ∧ Keeping r sampleTime s) ⟨hforest, h⟩ <| by
    rintro u l v ⟨⟨ring, hforest⟩, hkeeping⟩ hstep
    exact ⟨hforest.step (exec_book_step hforest hstep.2), hkeeping.step hforest hstep.2⟩
  exact hall.2

variable {me : Cpu} {pid : Pid} {envir : SmonEnvir} {b : RbId} {alloc : Alloc} {task : SmonTask}
  {rapl : Bool} {call : TimerCall} {kt : ℤ}

theorem keeping_register (hforest : Forest s.book ring)
    (h : s.smonSchedRegisterTask me pid envir b alloc = .ok (0, s₁)) :
    Keeping s.fresh (askedSampleTime envir.sampleTime) s₁ := by
  obtain ⟨-, hret, -⟩ | ⟨-, -, hbook⟩ := register_book h
  · exact absurd hret (by decide)
  have hfresh : s₁.fresh = s.fresh + 1 := congrArg Book.fresh hbook
  have henvir : s₁.envirs s.fresh = some (smonCreateEnvir envir) :=
    (congrFun (congrArg Book.envirs hbook) s.fresh).trans (Function.update_self ..)
  have hasked := smonCreateEnvir_sampleTime envir
  refine ⟨hfresh ▸ Nat.lt_succ_self _, fun envir' he' => ?_, fun m hm => ?_⟩
  · obtain rfl := Option.some_inj.mp (he'.symm.trans henvir)
    exact hasked
  · have hnone : s.meters s.fresh = none := by
      by_contra hsome
      obtain ⟨m, hm⟩ := Option.ne_none_iff_exists'.mp hsome
      obtain ⟨task, -, htask, -⟩ := meters_eq_some.mp hm
      exact Nat.lt_irrefl _ (hforest.bound _ task.core (entry_of_tasks htask))
    have hexec : s.exec (.register me pid envir b alloc) = .ok s₁ := bind_of_ok h
    cases exec_meter_turn hforest s.fresh hexec with
    | same hsame => exact absurd (hsame.symm.trans hm) (by simp [hnone])
    | info _ _ hm₀ => exact absurd (hnone.symm.trans hm₀) (by simp)
    | gone hgone => exact absurd (hgone.symm.trans hm) (by simp)
    | new _ hinfo hm' =>
      obtain rfl := Option.some_inj.mp (hm'.symm.trans hm)
      rw [hasked] at hinfo
      exact ⟨hasked, hinfo⟩

/-- What is handed to a timer is the sample time that was asked for, as `MS_TO_NS` has it. -/
theorem Keeping.hands (h : Keeping r sampleTime s) (hforest : Forest s.book ring)
    (htask : s.tasks t = some task) (henvir : task.envir = r) (hands : s.Hands t l rapl call kt) :
    kt = msToNs sampleTime := by
  have hmeter : ∀ extra, task.extra = some extra → extra.raplSampleTime = sampleTime := by
    intro extra hextra
    have hroot := hforest.envir_of_extra htask (Option.isSome_iff_exists.mpr ⟨extra, hextra⟩)
    obtain rfl : t = r := hroot.symm.trans henvir
    exact (h.meter extra.meter (meters_eq_some.mpr ⟨task, extra, htask, hextra, rfl⟩)).1
  cases hands with
  | arm htask' _ he =>
    obtain rfl := Option.some_inj.mp (htask'.symm.trans htask)
    rw [h.envir _ (henvir ▸ he)]
  | forward htask' _ he =>
    obtain rfl := Option.some_inj.mp (htask'.symm.trans htask)
    rw [h.envir _ (henvir ▸ he)]
  | armRapl htask' hextra =>
    obtain rfl := Option.some_inj.mp (htask'.symm.trans htask)
    rw [hmeter _ hextra]
  | forwardRapl htask' hextra =>
    obtain rfl := Option.some_inj.mp (htask'.symm.trans htask)
    rw [hmeter _ hextra]

theorem Keeping.reported (h : Keeping r sampleTime s) {info : SampleInfo}
    (hinfo : s.Reported r info) : info.Tells sampleTime := by
  obtain ⟨task, extra, htask, hextra, rfl, hne⟩ := hinfo
  obtain ⟨-, hblank | htells⟩ :=
    h.meter extra.meter (meters_eq_some.mpr ⟨task, extra, htask, hextra, rfl⟩)
  · exact absurd hblank hne
  · exact htells

/-- **When the sample time that was asked for is honoured**: after any registration, whatever
happens, an interval that is handed to a timer of the registered task or of one that inherits from
it is the one asked for, if and only if that is no more than 4294 ms. -/
theorem honours_iff (run : Run State.Step s₀ ls s) (init : s₀.Initial)
    (hreg : s.smonSchedRegisterTask me pid envir b alloc = .ok (0, s₁))
    (run' : Run State.Step s₁ ls' s₂) (htask : s₂.tasks t = some task)
    (henvir : task.envir = s.fresh) (hands : s₂.Hands t l rapl call kt) :
    s₂.Honours s.fresh envir.sampleTime kt ↔ (askedSampleTime envir.sampleTime).toNat ≤ 4294 := by
  obtain ⟨ring, hforest⟩ := exists_forest run init
  have hexec : s.exec (.register me pid envir b alloc) = .ok s₁ := bind_of_ok hreg
  have hforest₁ := hforest.step (exec_book_step hforest hexec)
  have hkeeping := (keeping_register hforest hreg).run hforest₁ run'
  obtain ⟨ring₂, hforest₂⟩ := run'.invariant (motive := fun s => ∃ ring, Forest s.book ring)
    hforest₁ fun _ _ _ ⟨_, hf⟩ hstep => hf.step (exec_book_step hf hstep.2)
  obtain rfl := hkeeping.hands hforest₂ htask henvir hands
  rw [← msToNs_eq_iff]
  constructor
  · exact Honours.asked
  · intro h
    refine ⟨h, fun info hinfo => ?_, fun info hinfo => ?_⟩
    · rw [(hkeeping.reported hinfo).pmc, h]
    · rw [(hkeeping.reported hinfo).rapl, h]

end Keeping

/-! ### Five seconds -/

/-- An environment with one event set, all samples, and that sample time. -/
def every (sampleTime : U32) : SmonEnvir where
  esids := fun _ => 0
  nEsids := 1
  sampleTime := sampleTime
  batchSize := 1
  options := ⟨false, false, true, false, false, false, false⟩
  count := 0

/-- Process 1 has been registered with that sample time. -/
def sampledEvery (sampleTime : U32) : State :=
  (boot [] [fixedOnly]).after [.register 0 1 (every sampleTime) 0 ⟨true, true, true⟩]

/-- It has been switched in, and the interrupt that starts its timer is queued. -/
def aboutToStart (sampleTime : U32) : State := (sampledEvery sampleTime).after [.switch 0 1]

/-- **Five seconds** become seven tenths of one, and INFO reports five thousand milliseconds. -/
theorem not_honours_fiveSeconds : (boot [] [fixedOnly]).Initial ∧
    (boot [] [fixedOnly]).smonSchedRegisterTask 0 1 (every 5000) 0 ⟨true, true, true⟩ =
      .ok (0, sampledEvery 5000) ∧
    (∃ ls, Run State.Step (sampledEvery 5000) ls (aboutToStart 5000)) ∧
    (aboutToStart 5000).Enabled (.irq 0 (.startTimer 0)) ∧
    (aboutToStart 5000).Hands 0 (.irq 0 (.startTimer 0)) false (.start 0) 705032704 ∧
    (∃ info, (aboutToStart 5000).Reported 0 info ∧ info.pmcSampleTime = 5000) ∧
    ¬ (aboutToStart 5000).Honours 0 5000 705032704 := by
  obtain ⟨task, htask, hfresh, henvir⟩ : ∃ task, (aboutToStart 5000).tasks 0 = some task ∧
      task.ktRemain ≤ 0 ∧ task.envir = 0 := ⟨_, rfl, by decide, rfl⟩
  obtain ⟨envir, he, hasked⟩ : ∃ envir, (aboutToStart 5000).envirs 0 = some envir ∧
      envir.sampleTime = 5000 := ⟨_, rfl, rfl⟩
  have hands : (aboutToStart 5000).Hands 0 (.irq 0 (.startTimer 0)) false (.start 0)
      (msToNs envir.sampleTime) := .arm htask hfresh (henvir ▸ he)
  rw [hasked, (by decide : msToNs 5000 = 705032704)] at hands
  obtain ⟨info, hinfo, hpmc⟩ : ∃ info, (∃ task extra, (aboutToStart 5000).tasks 0 = some task ∧
      task.extra = some extra ∧ extra.infoSample = info) ∧ info.pmcSampleTime = 5000 :=
    ⟨_, ⟨_, _, rfl, rfl, rfl⟩, rfl⟩
  obtain ⟨task', extra, htask', hextra, hinfo⟩ := hinfo
  have hne : info ≠ .blank := by
    rintro heq
    rw [heq] at hpmc
    exact absurd hpmc (by decide)
  exact ⟨initial_boot .., rfl, ⟨_, run_after rfl⟩, by decide, hands,
    ⟨info, ⟨task', extra, htask', hextra, hinfo, hne⟩, hpmc⟩, fun h => absurd h.asked (by decide)⟩

/-- The default is honoured. -/
theorem honours_iff_default : ∃ kt,
    (aboutToStart 0).Hands 0 (.irq 0 (.startTimer 0)) false (.start 0) kt ∧
    ((aboutToStart 0).Honours 0 0 kt ↔ (askedSampleTime 0).toNat ≤ 4294) := by
  obtain ⟨task, htask, hfresh, henvir⟩ : ∃ task, (aboutToStart 0).tasks 0 = some task ∧
      task.ktRemain ≤ 0 ∧ task.envir = 0 := ⟨_, rfl, by decide, rfl⟩
  obtain ⟨envir, he⟩ : ∃ envir, (aboutToStart 0).envirs 0 = some envir := ⟨_, rfl⟩
  have hands : (aboutToStart 0).Hands 0 (.irq 0 (.startTimer 0)) false (.start 0)
      (msToNs envir.sampleTime) := .arm htask hfresh (henvir ▸ he)
  have hreg : (boot [] [fixedOnly]).smonSchedRegisterTask 0 1 (every 0) 0 ⟨true, true, true⟩ =
      .ok (0, sampledEvery 0) := rfl
  exact ⟨_, hands, honours_iff .nil (initial_boot [] [fixedOnly]) hreg (run_after (by decide)) htask
    henvir hands⟩

end SchedMon
