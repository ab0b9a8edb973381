import SchedMon.Driver.Arming

/-!
# What reaches a buffer

The records an event appends to a buffer, said for every buffer and every event. Timers, switches,
migrations and forks append records from the middle of a stream, and those come from tasks that are
monitored outside of stat mode. An `exec` and a registration that starts a task append the INFO
record, an `exit` the last PMC record of its task. The EOF record comes when the count of the buffer
reaches zero.

## Main definitions

* `State.Feeds` — a monitored task writes to a buffer
* `Sampled` — a buffer after an event that samples
* `State.Composed` — the invariants this rests on

## Main results

* `exec_sampled` — **events that sample**
* `log_exec`, `log_exit`, `log_register`, `log_unregister` — the other events
-/

namespace SchedMon

open State

/-! ### Modest environments -/

/-- An environment in stat mode asks for nothing else. -/
def SmonEnvir.Modest (envir : SmonEnvir) : Prop :=
  envir.options.stat = true → envir.options.rapl = false ∧ envir.options.cpu = false ∧
    envir.options.fork = false ∧ envir.options.sched = false

theorem smonCreateEnvir_modest (envir : SmonEnvir) : (smonCreateEnvir envir).Modest := by
  intro hstat
  unfold smonCreateEnvir at hstat ⊢
  dsimp only at hstat ⊢
  split at hstat
  · rename_i hmode
    simp only [hmode, if_true, and_self]
  · rename_i hmode
    exact absurd hstat hmode

/-- Every environment is one that `smon_create_envir` makes. -/
def Book.Modest (b : Book) : Prop := ∀ e envir, b.envirs e = some envir → envir.Modest

theorem Book.Modest.step {b b' : Book} {l : Label} (h : b.Modest) (hstep : BookStep b l b') :
    b'.Modest := by
  intro e envir' he'
  cases hstep with
  | fork parent child pid cpu leader k t c rb envir hk hat hc hrb henvir hinherit =>
    by_cases heq : e = c.1.envir
    · subst heq
      simp only [Book.addChild, Function.update_self, Option.some_inj] at he'
      subst he'
      exact h _ envir henvir
    · simp only [Book.addChild, Function.update_of_ne heq] at he'
      exact h e envir' he'
  | register me pid envir rb alloc halloc =>
    by_cases heq : e = b.fresh
    · subst heq
      simp only [Book.addRoot, Function.update_self, Option.some_inj] at he'
      subst he'
      exact smonCreateEnvir_modest envir
    · simp only [Book.addRoot, Function.update_of_ne heq] at he'
      exact h e envir' he'
  | unregister pid r c xs b' hr hc hpid hring hd =>
    rw [hd.envirs] at he'
    by_cases heq : e = r
    · simp [heq] at he'
    · rw [Function.update_of_ne heq] at he'
      exact h e envir' he'
  | _ => exact h e envir' he'

/-! ### The invariants -/

/-- What holds in every orderly run in which no process exits while its RAPL timer is yet to be
armed. -/
structure State.Composed (s : State) : Prop where
  forest : ∃ ring, Forest s.book ring
  listed : Listed s.book
  modest : s.book.Modest
  still : ∀ t, s.InStat t → s.Still t
  bound : s.RaplBound
  steered : ∀ t task, s.tasks t = some task → Steered t s

/-- A monitored task outside of stat mode writes to buffer `b`. -/
def State.Feeds (s : State) (b : RbId) : Prop :=
  ∃ t task p envir, s.tasks t = some task ∧ task.p = some p ∧ task.rb = some b ∧ t ∉ s.waitList ∧
    s.envirs task.envir = some envir ∧ envir.options.stat = false

/-- The log of buffer `b` grows by records from the middle of a stream, if a task feeds it. -/
def Sampled (b : RbId) (s s' : State) : Prop :=
  ∃ ws, (s'.rbs b).log = (s.rbs b).log ++ ws ∧ (∀ w ∈ ws, w.Middle) ∧ (ws ≠ [] → s.Feeds b)

section Logs

variable {s s' s₁ : State} {t : TaskId} {b : RbId} {me : Cpu} {p : Proc} {task task' : SmonTask}
  {ring : TaskId → List TaskId}

theorem Sampled.of_log (h : (s'.rbs b).log = (s.rbs b).log) : Sampled b s s' :=
  ⟨[], h.trans (List.append_nil _).symm, by simp, fun hne => absurd rfl hne⟩

/-- Nothing is written on the way to where the sampling starts. -/
theorem Sampled.trans_log (h : Sampled b s s₁) (hlog : (s'.rbs b).log = (s₁.rbs b).log) :
    Sampled b s s' := by
  obtain ⟨ws, hws, hrest⟩ := h
  exact ⟨ws, hlog.trans hws, hrest⟩

theorem log_written (rbs : RbId → Rb) (rb : Option RbId) (ws : List Sample) (b : RbId) :
    (written rbs rb ws b).log = (rbs b).log ++ if rb = some b then ws else [] := by
  cases rb with
  | none => simp [written]
  | some c =>
    by_cases hc : c = b
    · subst hc
      simp [written]
    · have hb : b ≠ c := fun heq => hc heq.symm
      simp [written, hc, hb]

theorem Call.log {es : List TraceEvent} {ws : List Sample} {qs : List Irq}
    (h : Call t me task task' es ws qs s s') (b : RbId) :
    (s'.rbs b).log = (s.rbs b).log ++ if task.rb = some b then ws else [] := by
  rw [h.rbs]
  exact log_written ..

theorem Call.log_silent {es : List TraceEvent} {qs : List Irq}
    (h : Call t me task task' es [] qs s s') (b : RbId) : (s'.rbs b).log = (s.rbs b).log := by
  rw [h.log, ite_self, List.append_nil]

theorem Sampled.of_append {c : RbId} {ws : List Sample}
    (hlog : (s'.rbs b).log = (s.rbs b).log ++ if c = b then ws else []) (hws : ∀ w ∈ ws, w.Middle)
    (hfeeds : c = b → s.Feeds b) : Sampled b s s' := by
  by_cases hc : c = b
  · rw [if_pos hc] at hlog
    exact ⟨ws, hlog, hws, fun _ => hfeeds hc⟩
  · rw [if_neg hc, List.append_nil] at hlog
    exact .of_log hlog

/-- What a call writes goes to the buffer of its task. -/
theorem Sampled.of_call {es : List TraceEvent} {ws : List Sample} {qs : List Irq}
    (h : Call t me task task' es ws qs s s') (hws : ∀ w ∈ ws, w.Middle)
    (hfeeds : task.rb = some b → s.Feeds b) : Sampled b s s' := by
  have hlog := h.log b
  by_cases hrb : task.rb = some b
  · rw [if_pos hrb] at hlog
    exact ⟨ws, hlog, hws, fun _ => hfeeds hrb⟩
  · rw [if_neg hrb, List.append_nil] at hlog
    exact .of_log hlog

theorem log_smonRbWrite (c : RbId) (sample : Sample) (b : RbId) :
    ((s.smonRbWrite c sample).rbs b).log = (s.rbs b).log ++ if c = b then [sample] else [] := by
  by_cases hc : c = b
  · subst hc
    simp [smonRbWrite]
  · have hb : b ≠ c := fun heq => hc heq.symm
    simp [smonRbWrite, hc, hb]

theorem SmonTask.dueRecords_middle (task : SmonTask) (envir : SmonEnvir) (now tsc : ℤ) :
    ∀ w ∈ task.dueRecords envir now tsc, w.Middle := by
  intro w hw
  rcases List.mem_append.mp hw with hw | hw
  · split at hw
    · rw [List.mem_singleton.mp hw]
      exact ⟨by simp [Sample.type], by simp [Sample.type]⟩
    · cases hw
  · split at hw
    · rw [List.mem_singleton.mp hw]
      exact ⟨by simp [Sample.type], by simp [Sample.type]⟩
    · cases hw

theorem not_mem_waitList (hlisted : Listed s.book) {c : Cpu} (h : t ∈ s.cpuList c) :
    t ∉ s.waitList := by
  intro hwait
  have heq := hlisted.separate.unique .waiting (.cpu c) t hwait h
  cases heq

/-- The EOF record comes when the last writer lets go. -/
theorem log_smonReleaseRb (b b' : RbId) : ((s.smonReleaseRb b).rbs b').log = (s.rbs b').log ++
    if b' = b ∧ (s.rbs b).active = 1 then [.eof] else [] := by
  have hzero : (s.rbs b).active - 1 = 0 ↔ (s.rbs b).active = 1 := by omega
  unfold smonReleaseRb
  simp only [Function.update_self, hzero]
  by_cases hb : b' = b
  · subst hb
    by_cases hactive : (s.rbs b').active = 1
    · simp [hactive, smonRbWrite]
    · simp [hactive]
  · by_cases hactive : (s.rbs b).active = 1
    · simp [hactive, hb, smonRbWrite]
    · simp [hactive, hb]

theorem log_leave (h : s.leave t = .ok s') : ∃ task c, s.tasks t = some task ∧ task.rb = some c ∧
    (s'.rbs c).active = (s.rbs c).active - 1 ∧ ∀ b, (s'.rbs b).log = (s.rbs b).log ++
      if b = c ∧ (s.rbs c).active = 1 then [.eof] else [] := by
  obtain ⟨task, c, htask, hrb, rfl⟩ := leave_eq_ok.mp h
  refine ⟨task, c, htask, hrb, ?_, fun b => log_smonReleaseRb c b⟩
  exact (smonReleaseRb_active s c c).trans (by rw [if_pos rfl])

/-- A sample that is kept quiet about leaves every log alone. -/
theorem Quiet.log_silent (h : Quiet (fun _ => False) t s s') (b : RbId) :
    (s'.rbs b).log = (s.rbs b).log := by
  obtain ⟨ws, hws, hnone⟩ := h.log b
  have hnil : ws = [] := List.eq_nil_iff_forall_not_mem.mpr fun w hw => hnone w hw
  rw [hws, hnil, List.append_nil]

end Logs

/-! ### Events that sample -/

section Events

variable {s s' : State} {t : TaskId} {b : RbId} {me : Cpu} {p : Proc} {l : Label} {task : SmonTask}
  {envir : SmonEnvir} {ring : TaskId → List TaskId}

/-- A task on the list of a CPU feeds its buffer, unless it is in stat mode. -/
theorem feeds_of_mem (hlisted : Listed s.book) {c : Cpu} (hmem : t ∈ s.cpuList c)
    (htask : s.tasks t = some task) (hp : task.p = some p) (hrb : task.rb = some b)
    (henvir : s.envirs task.envir = some envir) (hstat : envir.options.stat = false) : s.Feeds b :=
  ⟨t, task, p, envir, htask, hp, hrb, not_mem_waitList hlisted hmem, henvir, hstat⟩

/-- A timer that is active belongs to a task outside of stat mode. -/
theorem not_stat_of_active (hstill : ∀ t, s.InStat t → s.Still t) (htask : s.tasks t = some task)
    (henvir : s.envirs task.envir = some envir) (hactive : task.timer.active = true) :
    envir.options.stat = false := by
  cases hstat : envir.options.stat with
  | false => rfl
  | true =>
    have hoff := (hstill t ⟨task, envir, htask, henvir, hstat⟩).timer task htask
    exact absurd (hactive.symm.trans hoff) (by simp)

theorem log_smonSchedTaskIn (h : s.smonSchedTaskIn me t = .ok s') (b : RbId) :
    (s'.rbs b).log = (s.rbs b).log := by
  obtain ⟨task, envir, -, -, ⟨-, hcall, -⟩ | ⟨-, ⟨-, hcall⟩ | ⟨evset, n, -, -, -, hcall⟩⟩⟩ :=
    call_in h
  · exact hcall.log_silent b
  · exact hcall.log_silent b
  · exact hcall.log_silent b

theorem sampled_switch {next : Proc} (hlisted : Listed s.book)
    (hstill : ∀ t, s.InStat t → s.Still t) (h : s.exec (.switch me next) = .ok s') (b : RbId) :
    Sampled b s s' := by
  obtain ⟨s₂, hswitch, hs⟩ := bind_eq_ok.mp h
  cases hs
  obtain ⟨mid, hout, hin⟩ := switch_cases hswitch
  have hlast : (s₂.rbs b).log = (mid.rbs b).log := by
    rcases hin with ⟨-, rfl⟩ | ⟨t, -, hin⟩
    · rfl
    · exact log_smonSchedTaskIn hin b
  suffices hmid : Sampled b s mid from hmid.trans_log hlast
  rcases hout with ⟨-, rfl⟩ | ⟨t, hfound, hout⟩
  · exact .of_log rfl
  obtain ⟨hmem, x, hx, hp⟩ := findProc_some hfound
  obtain ⟨task, envir, evset, tsc, pmc, htask, henvir, -, -, -, hoff, hon⟩ := call_out hout
  obtain rfl := Option.some_inj.mp (hx.symm.trans htask)
  cases hactive : x.timer.active with
  | false => exact .of_log ((hoff hactive).log_silent b)
  | true =>
    refine .of_call (hon hactive).1 (SmonTask.dueRecords_middle _ _ _ _) fun hrb => ?_
    exact feeds_of_mem hlisted hmem htask hp hrb henvir
      (not_stat_of_active hstill htask henvir hactive)

theorem sampled_tick (h : s.Composed) (hstep : s.Step (.tick t) s') (b : RbId) :
    Sampled b s s' := by
  obtain ⟨henabled, hexec⟩ := hstep
  have htick : s.smonSchedTimerTick t = .ok s' := hexec
  obtain ⟨task, htask, -⟩ := bind_eq_ok.mp htick
  rw [task_eq_ok] at htask
  have hactive : task.timer.active = true := by
    have hdue : (s.tasks t).any (fun task => task.timer.due s.now) = true := henabled
    simp only [htask, Option.any_some, Hrtimer.due, Bool.and_eq_true] at hdue
    exact hdue.1
  cases hflags : task.timerFlags with
  | false => exact .of_log ((call_smonSchedTimerTick_off 0 htask hflags htick).1.log_silent b)
  | true =>
    obtain ⟨⟨x, p, hx, hp, hwait, -⟩, -⟩ := (h.steered t task htask).armed task htask hactive hflags
    obtain rfl := Option.some_inj.mp (hx.symm.trans htask)
    obtain ⟨envir, evset, tsc, pmc, next, henvir, -, -, -, -, -, hcall⟩ := call_tick htask hflags htick
    have hstat := not_stat_of_active h.still htask henvir hactive
    have hmiddle : ∀ w ∈ [Sample.pmc (x.stopped tsc pmc).record], w.Middle := by
      simp [Sample.Middle, Sample.type]
    rcases hcall with ⟨-, hcall⟩ | ⟨evset', -, -, hcall⟩
    · exact .of_call hcall hmiddle fun hrb => ⟨t, x, p, envir, htask, hp, hrb, hwait, henvir, hstat⟩
    · exact .of_call hcall hmiddle fun hrb => ⟨t, x, p, envir, htask, hp, hrb, hwait, henvir, hstat⟩

/-- A task that has a process writes to the buffer of its extra part. -/
theorem rb_of_extra (hforest : Forest s.book ring) {extra : SmonTaskExtra}
    (htask : s.tasks t = some task) (hextra : task.extra = some extra) (hp : task.p = some p) :
    task.rb = some extra.rb := by
  have hentry := entry_of_tasks htask
  obtain ⟨hiff, hbuffer⟩ := hforest.buffer t task.core hentry
  have hsome : task.core.1.p.isSome = true := Option.isSome_iff_exists.mpr ⟨p, hp⟩
  obtain ⟨c, hc⟩ := Option.isSome_iff_exists.mp (hiff.mpr hsome)
  obtain ⟨root, hroot, hrb⟩ := hbuffer c hc
  obtain ⟨hr, ht⟩ := hforest.live t task.core hentry
  obtain ⟨d, hd, -, hself⟩ := hforest.member _ hr t ht
  obtain rfl := Option.some_inj.mp (hd.symm.trans hentry)
  have hcore : task.core.2 = some extra.rb := congrArg (Option.map SmonTaskExtra.rb) hextra
  have htr : t = task.core.1.envir := hself.mp (by rw [hcore]; rfl)
  rw [← htr] at hroot
  obtain rfl := Option.some_inj.mp (hroot.symm.trans hentry)
  exact hc.trans (hrb.symm.trans hcore)

theorem sampled_raplTick (h : s.Composed) (hstep : s.Step (.raplTick t) s') (b : RbId) :
    Sampled b s s' := by
  obtain ⟨henabled, hexec⟩ := hstep
  have hdue : (s.tasks t).any
    (fun task => task.extra.any fun extra => extra.raplTimer.due s.now) = true := henabled
  obtain ⟨extra, hextra, hrest⟩ := bind_eq_ok.mp hexec
  obtain ⟨task, htask, hx⟩ := extra_eq_ok.mp hextra
  simp only [htask, hx, Option.any_some, Hrtimer.due, Bool.and_eq_true] at hdue
  obtain ⟨x, envir, hx', hp, hwait, henvir, hrapl⟩ := h.bound t (.inl ⟨task, extra, htask, hx, hdue.1⟩)
  obtain rfl := Option.some_inj.mp (hx'.symm.trans htask)
  obtain ⟨p, hp⟩ := Option.isSome_iff_exists.mp hp
  obtain ⟨ring, hforest⟩ := h.forest
  have hrb := rb_of_extra hforest htask hx hp
  have hstat : envir.options.stat = false := by
    cases hstat : envir.options.stat with
    | false => rfl
    | true => exact absurd (hrapl.symm.trans (h.modest _ envir henvir hstat).1) (by simp)
  dsimp only at hrest
  split at hrest
  · obtain ⟨-, -, rfl⟩ := setExtra_eq_ok.mp hrest
    have hmiddle : ∀ w ∈ [Sample.rapl (s.smonSampleRaplStop extra.raplTimer.cpu extra.raplSample).1],
        w.Middle := by
      simp [Sample.Middle, Sample.type]
    refine .of_append (c := extra.rb)
      (log_smonRbWrite (s := (s.smonSampleRaplStop extra.raplTimer.cpu extra.raplSample).2) ..)
      hmiddle ?_
    rintro rfl
    exact ⟨t, x, p, envir, htask, hp, hrb, hwait, henvir, hstat⟩
  · obtain ⟨-, -, rfl⟩ := setExtra_eq_ok.mp hrest
    exact .of_log rfl

theorem sampled_migrate {dest : Cpu} (hlisted : Listed s.book) (hmodest : s.book.Modest)
    (h : s.exec (.migrate p dest) = .ok s') (b : RbId) : Sampled b s s' := by
  obtain ⟨s₁, hmigrate, hs⟩ := bind_eq_ok.mp h
  cases hs
  simp only [smonSchedMigrateTask, bind_eq_ok, whenFound_eq_ok] at hmigrate
  obtain ⟨found, hfound, ⟨rfl, rfl⟩ | ⟨t, rfl, hmigrate⟩⟩ := hmigrate
  · exact .of_log rfl
  obtain ⟨hmem, x, hx, hp⟩ := findProc_some hfound
  simp only [pure_eq_ok, task_eq_ok, envir_eq_ok] at hmigrate
  obtain ⟨task, htask, envir, henvir, rfl⟩ := hmigrate
  obtain rfl : task = x := Option.some_inj.mp (htask.symm.trans hx)
  cases hcpu : envir.options.cpu with
  | false => exact .of_log rfl
  | true =>
    cases hrb : task.rb with
    | none => exact .of_log rfl
    | some c =>
      refine .of_append (c := c) (log_smonRbWrite (s := (s.delCpuList (s.kernel.cpu p) t).msrRdtsc.2) ..)
        (by simp [Sample.Middle, Sample.type]) ?_
      rintro rfl
      refine feeds_of_mem hlisted hmem hx hp hrb henvir ?_
      cases hstat : envir.options.stat with
      | false => rfl
      | true => exact absurd (hcpu.symm.trans (hmodest _ envir henvir hstat).2.1) (by simp)

theorem log_childAdded (h : ChildAdded s t p s') (b : RbId) :
    (s'.rbs b).log = (s.rbs b).log := by
  obtain ⟨task, c, envir, s₁, task₁, -, -, -, hadd, -, rfl⟩ := h.add
  simp only [addChild, bind_eq_ok, pure_eq_ok] at hadd
  obtain ⟨next, -, -, -, rfl⟩ := hadd
  change ((s.smonGetRb c).rbs b).log = _
  by_cases hc : b = c
  · subst hc
    simp [smonGetRb]
  · simp [smonGetRb, hc]

theorem sampled_fork {parent child : Proc} {pid : Pid} {cpu : Cpu} {leader alloc : Bool}
    (hlisted : Listed s.book) (hmodest : s.book.Modest)
    (h : s.exec (.fork parent child pid cpu leader alloc) = .ok s') (b : RbId) :
    Sampled b s s' := by
  simp only [State.exec, smonSchedProcessFork, bind_eq_ok, whenFound_eq_ok] at h
  obtain ⟨found, hfound, ⟨rfl, rfl⟩ | ⟨t, rfl, task, htask, envir, henvir, s₁, hinherit, h⟩⟩ := h
  · exact .of_log rfl
  obtain ⟨hmem, x, hx, hp⟩ := findProc_some hfound
  rw [task_eq_ok] at htask
  rw [envir_eq_ok] at henvir
  obtain rfl : task = x := Option.some_inj.mp (htask.symm.trans hx)
  have hlog : (s₁.rbs b).log = (s.rbs b).log := by
    rcases when_eq_ok.mp hinherit with ⟨-, rfl⟩ | ⟨-, hregister⟩
    · rfl
    rcases registerChild_cases hregister with ⟨-, rfl⟩ | ⟨-, hadd⟩
    · rfl
    · exact log_childAdded hadd b
  split at h
  · rename_i hfork
    rw [← pure_eq_ok.mp h]
    cases hrb : task.rb with
    | none => exact .of_log hlog
    | some c =>
      refine .of_append (c := c) ((log_smonRbWrite (s := s₁.msrRdtsc.2) ..).trans
        (congrArg (· ++ _) hlog)) (by simp [Sample.Middle, Sample.type]) ?_
      rintro rfl
      refine feeds_of_mem hlisted hmem hx hp hrb henvir ?_
      cases hstat : envir.options.stat with
      | false => rfl
      | true => exact absurd (hfork.symm.trans (hmodest _ envir henvir hstat).2.2.1) (by simp)
  · rw [← pure_eq_ok.mp h]
    exact .of_log hlog

theorem log_irq {w : Irq} (h : s.exec (.irq me w) = .ok s') (b : RbId) :
    (s'.rbs b).log = (s.rbs b).log := by
  cases w with
  | startTimer t =>
    obtain ⟨task, envir, -, -, ⟨-, hcall⟩ | ⟨evset, -, hcall⟩⟩ := call_start h
    · exact hcall.log_silent b
    · exact hcall.log_silent b
  | stopTimer t =>
    obtain ⟨task, -, hcall, -⟩ := call_stopTimerPmc 0 h
    exact hcall.log_silent b
  | startRapl t =>
    obtain ⟨extra, -, hset⟩ := bind_eq_ok.mp h
    obtain ⟨-, -, rfl⟩ := setExtra_eq_ok.mp hset
    rfl

/-- An event that only samples: it starts no session and ends none. -/
def Label.Samples : Label → Prop
  | .exec _ | .exit _ | .register _ _ _ _ _ | .unregister _ => False
  | _ => True

/-- **Events that sample** append records from the middle of a stream, and only to a buffer that a
monitored task feeds. -/
theorem exec_sampled (h : s.Composed) (hl : l.Samples) (hstep : s.Step l s') (b : RbId) :
    Sampled b s s' := by
  cases l with
  | time d =>
    cases hstep.2
    exact .of_log rfl
  | count me ctr inc =>
    cases hstep.2
    exact .of_log rfl
  | irq me w => exact .of_log (log_irq hstep.2 b)
  | tick t => exact sampled_tick h hstep b
  | raplTick t => exact sampled_raplTick h hstep b
  | switch me next => exact sampled_switch h.listed h.still hstep.2 b
  | migrate p dest => exact sampled_migrate h.listed h.modest hstep.2 b
  | fork parent child pid cpu leader alloc => exact sampled_fork h.listed h.modest hstep.2 b
  | reap p =>
    cases hstep.2
    exact .of_log rfl
  | exec p => exact hl.elim
  | exit p => exact hl.elim
  | register me pid envir c alloc => exact hl.elim
  | unregister pid => exact hl.elim

/-! ### Events that start and end streams -/

/-- Starting an extra part appends one INFO record to its buffer. -/
theorem log_startExtra (htask : s.tasks t = some task) (h : s.startExtra me t = .ok s') :
    ∃ info, ∀ b, (s'.rbs b).log = (s.rbs b).log ++
      if task.extra.map SmonTaskExtra.rb = some b then [.info info] else [] := by
  have hstarted := startExtra_cases h
  cases hextra : task.extra with
  | none =>
    rw [hstarted.none task htask hextra]
    exact ⟨SampleInfo.blank, fun b => by simp⟩
  | some extra =>
    obtain ⟨info, hrbs⟩ := hstarted.info task extra htask hextra
    refine ⟨info, fun b => ?_⟩
    rw [hrbs, log_smonRbWrite]
    simp

/-- **An `exec`** appends the INFO record of the task it finds waiting. -/
theorem log_exec (h : s.exec (.exec p) = .ok s') :
    (s.findProc p s.waitList = .ok none ∧ s' = s) ∨ ∃ t task info, s.FindsWaiting p t ∧
      s.tasks t = some task ∧ ∀ b, (s'.rbs b).log = (s.rbs b).log ++
        if task.extra.map SmonTaskExtra.rb = some b then [.info info] else [] := by
  rcases exec_cases h with hnone | ⟨t, s₁, s₂, hfound, hextra, hin, rfl⟩
  · exact .inl hnone
  obtain ⟨-, task, htask, -⟩ := findProc_some hfound
  obtain ⟨info, hinfo⟩ := log_startExtra (s := s.delWaitList t) htask hextra
  exact .inr ⟨t, task, info, hfound, htask, fun b => (log_smonSchedTaskIn hin b).trans (hinfo b)⟩

/-- **An `exit`** appends the last PMC record of a task that it finds monitored, and the EOF record
if the task is the last writer. -/
theorem log_exit (h : s.exec (.exit p) = .ok s') :
    (s.findProc p (s.cpuList (s.kernel.cpu p)) = .ok none ∧ s.findProc p s.waitList = .ok none ∧
      s' = s) ∨ ∃ t task c pre, s.tasks t = some task ∧ task.rb = some c ∧
        (s.Finds p t ∧ (∃ r, pre = [.pmc r] ∧ r.pid = task.pid) ∨
          s.findProc p (s.cpuList (s.kernel.cpu p)) = .ok none ∧ s.FindsWaiting p t ∧ pre = []) ∧
        (s'.rbs c).active = (s.rbs c).active - 1 ∧ ∀ b, (s'.rbs b).log = (s.rbs b).log ++
          if c = b then pre ++ if (s.rbs c).active = 1 then [.eof] else [] else [] := by
  rcases exit_cases h with hnone | ⟨t, s₁, s₂, hexit⟩ | ⟨t, hexit⟩
  · exact .inl hnone
  · obtain ⟨task, s₀, htask, hstop, hsave⟩ := hexit.sample
    obtain ⟨envir, evset, tsc, pmc, -, -, -, -, -, hcall⟩ := call_exit htask hstop hsave
    obtain ⟨task₁, c, htask₁, hrb, hcount, hlog⟩ := log_leave hexit.leave
    have hactive : (s₁.rbs c).active = (s.rbs c).active := hexit.quiet.active c
    obtain rfl := Option.some_inj.mp (hcall.after.symm.trans htask₁)
    have hrb' : task.rb = some c := hrb
    refine .inr ⟨t, task, c, [.pmc (task.stopped tsc pmc).record], htask, hrb',
      .inl ⟨hexit.found, _, rfl, rfl⟩, ?_, fun b => ?_⟩
    · rw [hexit.quiet_cancel.active c, hcount, ← hactive]
      rfl
    have hdel : ((s₁.delCpuList (s.kernel.cpu p) t).rbs b).log = (s₁.rbs b).log := rfl
    have hdel' : ((s₁.delCpuList (s.kernel.cpu p) t).rbs c).active = (s.rbs c).active := hactive
    rw [hexit.quiet_cancel.log_silent b, hlog b, hdel, hcall.log b, hrb', hdel']
    by_cases hb : c = b
    · subst hb
      simp
    · have hb' : b ≠ c := fun heq => hb heq.symm
      simp [hb, hb']
  · obtain ⟨task, c, htask, hrb, hcount, hlog⟩ := log_leave hexit.leave
    refine .inr ⟨t, task, c, [], htask, hrb, .inr ⟨hexit.notRunning, hexit.found, rfl⟩, hcount,
      fun b => ?_⟩
    have hdel : ((s.delWaitList t).rbs b).log = (s.rbs b).log := rfl
    have hdel' : ((s.delWaitList t).rbs c).active = (s.rbs c).active := rfl
    rw [hlog b, hdel, hdel']
    by_cases hb : c = b
    · subst hb
      simp
    · have hb' : b ≠ c := fun heq => hb heq.symm
      simp [hb, hb']

theorem log_setBatch (c : RbId) (batch : U32) (b : RbId) :
    ((s.setBatch c batch).rbs b).log = (s.rbs b).log := by
  unfold setBatch
  split
  · by_cases hb : b = c
    · subst hb
      simp
    · simp [hb]
  · rfl

theorem log_newRoot (pid : Pid) (envir : SmonEnvir) (c b : RbId) :
    ((s.newRoot pid envir c).rbs b).log = (s.rbs b).log := by
  refine (log_setBatch (s := s.smonGetRb c) c envir.batchSize b).trans ?_
  by_cases hb : b = c
  · subst hb
    simp [smonGetRb]
  · simp [smonGetRb, hb]

/-- **A registration** appends an INFO record if it starts the task. -/
theorem log_register {pid : Pid} {c : RbId} {alloc : Alloc}
    (h : s.exec (.register me pid envir c alloc) = .ok s') :
    (alloc.task && alloc.envir) = false ∧ s' = s ∨ (alloc.task && alloc.envir) = true ∧ ∃ info,
      ∀ b, (s'.rbs b).log = (s.rbs b).log ++
        if c = b ∧ envir.options.onExec = false then [.info info] else [] := by
  obtain ⟨⟨ret, s₁⟩, hregister, hs⟩ := bind_eq_ok.mp h
  cases hs
  rcases register_cases hregister with ⟨halloc, -, rfl⟩ | ⟨halloc, -, s₀, rfl, hwait, hstart⟩
  · exact .inl ⟨halloc, rfl⟩
  refine .inr ⟨halloc, ?_⟩
  cases hexec : envir.options.onExec with
  | true =>
    rw [hwait hexec]
    exact ⟨SampleInfo.blank, fun b => (log_newRoot pid envir c b).trans (by simp)⟩
  | false =>
    obtain ⟨s₂, hextra, rfl⟩ := hstart hexec
    obtain ⟨-, htasks, hfresh⟩ := aside_setBatch 0 s envir c
    have hroot : (s.newRoot pid envir c).tasks s.fresh =
        some (newTask (s.kernel.forEachProcess pid) pid s.fresh c
          (some (smonTaskExtraCreate (smonCreateEnvir envir) c))) := by
      simp only [State.newRoot, State.install, hfresh, Function.update_self]
    obtain ⟨info, hinfo⟩ := log_startExtra (s := { s.newRoot pid envir c with
      taskList := s.fresh :: (s.newRoot pid envir c).taskList }) hroot hextra
    refine ⟨info, fun b => ?_⟩
    refine (hinfo b).trans ?_
    have hnew : (({ s.newRoot pid envir c with
      taskList := s.fresh :: (s.newRoot pid envir c).taskList } : State).rbs b).log =
        (s.rbs b).log := log_newRoot pid envir c b
    rw [hnew]
    simp [newTask, smonTaskExtraCreate]

/-- **Unregistering a family that has exited** writes nothing. -/
theorem log_unregister {pid : Pid} (hforest : Forest s.book ring)
    (hallows : s.Allows (.unregister pid)) (h : s.exec (.unregister pid) = .ok s') :
    s'.rbs = s.rbs := by
  obtain ⟨⟨ret, s₁⟩, hunregister, hs⟩ := bind_eq_ok.mp h
  cases hs
  simp only [smonSchedUnregisterTask, bind_eq_ok] at hunregister
  obtain ⟨found, hfound, hunregister⟩ := hunregister
  cases found with
  | none =>
    cases hunregister
    rfl
  | some r =>
    obtain ⟨hr, root, hroot, hpid⟩ := findTask_some hfound
    obtain ⟨s₂, hs₂, hun⟩ := hforest.unregister hr
    simp only [hs₂, bind, Except.bind, pure, Except.pure, Except.ok.injEq, Prod.mk.injEq]
      at hunregister
    obtain ⟨-, rfl⟩ := hunregister
    refine hun.rbs fun u hu task htask => ?_
    have hdead := hallows r hr root hroot (by simpa using hpid) u (by
      rw [List.mem_cons, hforest.descent r hr, descends_book] at hu
      exact hu)
    simp only [alive, htask] at hdead
    have hrb := (hforest.buffer u task.core (entry_of_tasks htask)).1
    have hnone : task.rb.isSome = task.p.isSome := Bool.eq_iff_iff.mpr hrb
    rw [hdead] at hnone
    simpa using hnone

end Events

end SchedMon
