import SchedMon.Driver.Registers

/-!
# Counting for a task

The hardware counts for whatever runs. `smon_sample_start` loads the counters that a task has
accumulated and `smon_sample_stop` reads them back, so that a record says what was counted for its
task alone, over all the slices since the last record. The same goes for its time.

This needs that a process has one task. The driver does not look whether there is one already when it
registers another, and the second one, once it runs, loads its own counters over those of the first.

## Main definitions

* `Accounted` — a record has the times and the counts that the history says
* `Loaded` — the counters of a task are where they should be

## Main results

* `accounted_of_run` — **every record is accounted for, if no process has two tasks**
* `not_accounted_twice` — a process with two tasks
-/

namespace SchedMon

open State

/-! ### What a record should say -/

/-- The counters of a record: what was counted, where the event set enables it, and zero elsewhere. -/
def Shows (evset : SmonEvset) (pmc : SmonPmc) (counts : Counter → ℕ) : Prop :=
  ∀ ctr, if evset.enabled ctr then (pmc.get ctr).toNat = counts ctr else pmc.get ctr = 0

/-- The times of a record are those of the account. -/
def Timely (a : Account) : TraceEvent → Prop
  | .save _ sample _ => sample.duration = a.duration ∧ a.first = some sample.timestampStart ∧
      a.last = some sample.timestampStop
  | _ => True

/-- The counters of a record are those of the account, for the event set that the record names. -/
def Counted (evsets : List SmonEvset) (a : Account) : TraceEvent → Prop
  | .save _ sample envir => ∃ evset,
      smonGetEvset evsets (envir.esids sample.evset) = some evset ∧ Shows evset sample.pmc a.counts
  | _ => True

/-- A record has the times and the counts that the history says. -/
def Accounted (evsets : List SmonEvset) (a : Account) (e : TraceEvent) : Prop :=
  Timely a e ∧ Counted evsets a e

/-! ### Times -/

/-- The times of a task are those of its account. -/
structure Timed (n : ℕ) (task : SmonTask) (a : Account) : Prop where
  duration : task.samplePmc.duration = a.duration
  since : ∀ c b, a.since = some (c, b) → task.tscTmp = b ∧ a.first.isSome = true
  first : task.samplePmc.timestampStart = a.first.getD 0
  nonzero : ∀ b, a.first = some b → b ≠ 0
  last : task.samplePmc.timestampStop = a.last.getD 0
  started : a.last.isSome = true → a.first.isSome = true

/-- Starts, stops and saves keep the times, if the time-stamp counter is never zero. -/
theorem timed_tally {clock : ℕ → ℤ} (hclock : ∀ n, clock n ≠ 0) (t : TaskId) :
    Tally t clock Timed Timely := by
  constructor
  case congr =>
    intro n n' task task' a h hn hpmc htsc
    refine ⟨by rw [hpmc]; exact h.duration, ?_, by rw [hpmc]; exact h.first, h.nonzero,
      by rw [hpmc]; exact h.last, h.started⟩
    rw [htsc]
    exact h.since
  case count =>
    intro n task a me ctr inc h
    rw [Account.step_count]
    exact ⟨h.duration, h.since, h.first, h.nonzero, h.last, h.started⟩
  case start =>
    intro n task a me h hsince
    have hstep : a.step t (.start t me (clock n)) =
        { a with since := some (me, clock n), first := a.first.or (some (clock n)) } := if_pos rfl
    have hsome : (a.first.or (some (clock n))).isSome = true := by cases a.first <;> rfl
    rw [hstep]
    refine ⟨⟨h.duration, fun c b heq => ?_, ?_, fun b hb => ?_, h.last, fun _ => hsome⟩, trivial⟩
    · obtain ⟨rfl, rfl⟩ := Prod.mk.inj (Option.some_inj.mp heq)
      exact ⟨rfl, hsome⟩
    · change (if task.samplePmc.timestampStart = 0 then clock n else task.samplePmc.timestampStart) =
        (a.first.or (some (clock n))).getD 0
      rw [h.first]
      cases hfirst : a.first with
      | none => rfl
      | some b => exact if_neg (h.nonzero b hfirst)
    · cases hfirst : a.first with
      | none =>
        rw [hfirst] at hb
        obtain rfl := Option.some_inj.mp hb
        exact hclock n
      | some b' =>
        rw [hfirst] at hb
        obtain rfl := Option.some_inj.mp hb
        exact h.nonzero b' hfirst
  case stop =>
    intro n task a me b pmc h hsince
    have hstep : a.step t (.stop t me (clock n)) =
        { a with
          since := none, last := some (clock n), duration := a.duration + a.elapsed (clock n) } :=
      if_pos rfl
    obtain ⟨htsc, hfirst⟩ := h.since me b hsince
    rw [hstep]
    refine ⟨⟨?_, fun c b heq => (by cases heq), h.first, h.nonzero, rfl, fun _ => hfirst⟩, trivial⟩
    change task.samplePmc.duration + (clock n - task.tscTmp) = a.duration + a.elapsed (clock n)
    rw [h.duration, htsc, Account.elapsed, hsince]
  case save =>
    intro n task a envir h hsince hlast
    have hstep : a.step t (.save t task.record envir) = { Account.zero with since := a.since } :=
      if_pos rfl
    obtain ⟨f, hf⟩ := Option.isSome_iff_exists.mp (h.started hlast)
    obtain ⟨b, hb⟩ := Option.isSome_iff_exists.mp hlast
    rw [hstep, hsince]
    refine ⟨⟨rfl, fun c b heq => (by cases heq), rfl, fun b heq => (by cases heq), rfl,
      fun heq => (by cases heq)⟩, h.duration, ?_, ?_⟩
    · change a.first = some task.samplePmc.timestampStart
      rw [h.first, hf]
      rfl
    · change a.last = some task.samplePmc.timestampStop
      rw [h.last, hb]
      rfl
  case sched => exact fun _ _ => trivial

/-! ### Counts -/

/-- The event set that a task is at. -/
def State.Selects (s : State) (t : TaskId) (evset : SmonEvset) : Prop :=
  ∃ task envir, s.tasks t = some task ∧ s.envirs task.envir = some envir ∧
    smonGetEvset s.evsets (envir.esids task.evset) = some evset

/-- The counts of a task are in the registers of its CPU while its account runs, and in its sample
while it does not. -/
structure Loaded (t : TaskId) (s : State) : Prop where
  running : ∀ c b evset ctr, (account t s.trace).since = some (c, b) → s.Selects t evset →
    evset.enabled ctr = true → (s.msr c ctr.register).toNat = (account t s.trace).counts ctr
  still : ∀ task evset, (account t s.trace).since = none → s.tasks t = some task →
    s.Selects t evset → Shows evset task.samplePmc.pmc (account t s.trace).counts
  asked : Each (Asked t (Counted s.evsets)) s.trace

section Counts

variable {s s' : State} {t : TaskId} {task task' : SmonTask} {evset : SmonEvset} {envir : SmonEnvir}
  {l : Label} {me : Cpu} {es : List TraceEvent} {ring : TaskId → List TaskId} {a : Account}
  {tsc : ℤ} {pmc : SmonPmc}

theorem shows_zero (evset : SmonEvset) : Shows evset SamplePmc.zero.pmc Account.zero.counts := by
  intro ctr
  have hzero : SamplePmc.zero.pmc.get ctr = 0 := by cases ctr <;> rfl
  rw [hzero]
  split
  · rfl
  · rfl

/-- The event set of a task is found by looking it up. -/
theorem State.Selects.eq (h : s.Selects t evset) (htask : s.tasks t = some task)
    (henvir : s.envirs task.envir = some envir) :
    smonGetEvset s.evsets (envir.esids task.evset) = some evset := by
  obtain ⟨x, e, hx, he, hget⟩ := h
  obtain rfl := Option.some_inj.mp (hx.symm.trans htask)
  obtain rfl := Option.some_inj.mp (he.symm.trans henvir)
  exact hget

/-- The event set that a task is at was there before. -/
theorem State.Selects.config (h : s'.Selects t evset) (hforest : Forest s.book ring)
    (hstep : s.exec l = .ok s') (htask : s.tasks t = some task) (htask' : s'.tasks t = some task')
    (henvir : task'.envir = task.envir) (hevsets : s'.evsets = s.evsets) :
    ∃ envir, s.envirs task.envir = some envir ∧
      smonGetEvset s.evsets (envir.esids task'.evset) = some evset := by
  obtain ⟨x, envir', hx, henvir', hget⟩ := h
  obtain rfl := Option.some_inj.mp (hx.symm.trans htask')
  rw [henvir] at henvir'
  obtain ⟨envir, he, hconfig⟩ := exists_config hforest hstep htask henvir'
  have hesids := congrArg SmonEnvir.esids hconfig
  change envir'.esids = envir.esids at hesids
  rw [hevsets, hesids] at hget
  exact ⟨envir, he, hget⟩

/-- A task that stays at its event set selected the same one before. -/
theorem State.Selects.before (h : s'.Selects t evset) (hforest : Forest s.book ring)
    (hstep : s.exec l = .ok s') (htask : s.tasks t = some task) (htask' : s'.tasks t = some task')
    (henvir : task'.envir = task.envir) (hevset : task'.evset = task.evset)
    (hevsets : s'.evsets = s.evsets) : s.Selects t evset := by
  obtain ⟨envir, he, hget⟩ := h.config hforest hstep htask htask' henvir hevsets
  exact ⟨task, envir, htask, he, hevset ▸ hget⟩

/-- A call that leaves its task at its event set. -/
theorem State.Selects.call {ws : List Sample} {qs : List Irq} (h : s.Selects t evset)
    (hcall : Call t me task task' es ws qs s s') (hevset : task'.evset = task.evset) :
    s'.Selects t evset := by
  obtain ⟨x, envir, hx, henvir, hget⟩ := h
  obtain rfl := Option.some_inj.mp (hx.symm.trans hcall.before)
  have henvirs : s'.envirs = s.envirs := congrArg Static.envirs hcall.static
  have hevsets : s'.evsets = s.evsets := congrArg Static.evsets hcall.static
  have hsame : task'.envir = x.envir := congrArg (fun c => c.1.envir) hcall.core
  refine ⟨task', envir, hcall.after, ?_, ?_⟩
  · rw [hsame, henvirs]
    exact henvir
  · rw [hevset, hevsets]
    exact hget

/-- What is there of a task that an event leaves alone. -/
theorem Loaded.of_same (h : Loaded t s) (hforest : Forest s.book ring) (hstep : s.exec l = .ok s')
    (htask : s.tasks t = some task) (htask' : s'.tasks t = some task') (henvir : task'.envir = task.envir)
    (hevset : task'.evset = task.evset) (hpmc : task'.samplePmc = task.samplePmc)
    (hevsets : s'.evsets = s.evsets)
    (hmsr : ∀ c b, (account t s.trace).since = some (c, b) → s'.msr c = s.msr c)
    (htrace : ∃ es, s'.trace = s.trace ++ es ∧ ∀ e ∈ es, e.task? ≠ some t ∧ e.isCount = false) :
    Loaded t s' := by
  obtain ⟨es, hes, hforeign⟩ := htrace
  have haccount : account t s'.trace = account t s.trace := by rw [hes, account_append_foreign hforeign]
  constructor
  case running =>
    intro c b evset ctr hsince hselects henabled
    rw [haccount] at hsince ⊢
    rw [hmsr c b hsince]
    exact h.running c b evset ctr hsince
      (hselects.before hforest hstep htask htask' henvir hevset hevsets) henabled
  case still =>
    intro x evset hsince hx hselects
    obtain rfl := Option.some_inj.mp (hx.symm.trans htask')
    rw [haccount] at hsince ⊢
    rw [hpmc]
    exact h.still task evset hsince htask
      (hselects.before hforest hstep htask htask' henvir hevset hevsets)
  case asked =>
    rw [hevsets, hes]
    exact asked_foreign h.asked hforeign

/-- What `smon_sample_stop` reads on the CPU where the account runs is what was counted. -/
theorem Loaded.readout {b : ℤ} (h : Loaded t s) (hsince : (account t s.trace).since = some (me, b))
    (hselects : s.Selects t evset) : Shows evset (s.readout me evset) (account t s.trace).counts := by
  intro ctr
  rw [readout_get]
  cases henabled : evset.enabled ctr with
  | true =>
    simp only [if_true]
    exact h.running me b evset ctr hsince hselects henabled
  | false =>
    simp only [Bool.false_eq_true, if_false]

/-! ### What the account says of a call -/

theorem account_stop (t : TaskId) (es : List TraceEvent) (me : Cpu) (tsc : ℤ) :
    (account t (es ++ [.stop t me tsc])).since = none ∧
      (account t (es ++ [.stop t me tsc])).counts = (account t es).counts := by
  rw [account_concat]
  simp [Account.step]

theorem account_start (t : TaskId) (es : List TraceEvent) (me : Cpu) (tsc : ℤ) :
    (account t (es ++ [.start t me tsc])).since = some (me, tsc) ∧
      (account t (es ++ [.start t me tsc])).counts = (account t es).counts := by
  rw [account_concat]
  simp [Account.step]

theorem account_taken (t : TaskId) (es : List TraceEvent) (me : Cpu) (tsc : ℤ) (sample : SamplePmc)
    (envir : SmonEnvir) :
    account t (es ++ [.stop t me tsc, .save t sample envir]) = .zero := by
  rw [List.append_cons, account_concat]
  have hsince := (account_stop t es me tsc).1
  generalize account t (es ++ [.stop t me tsc]) = a at hsince
  simp [Account.step, hsince, Account.zero]

theorem asked_stop (h : Each (Asked t (Counted s.evsets)) es) (me : Cpu) (tsc : ℤ) :
    Each (Asked t (Counted s.evsets)) (es ++ [.stop t me tsc]) :=
  each_concat.mpr ⟨h, fun _ => trivial⟩

/-- A record of what `smon_sample_stop` has read. -/
theorem asked_taken (h : Each (Asked t (Counted s.evsets)) es)
    (hshows : Shows evset pmc (account t es).counts)
    (hget : smonGetEvset s.evsets (envir.esids task.evset) = some evset) :
    Each (Asked t (Counted s.evsets))
      (es ++ [.stop t me tsc, .save t (task.stopped tsc pmc).record envir]) := by
  rw [List.append_cons]
  refine each_concat.mpr ⟨asked_stop h me tsc, fun _ => ⟨evset, hget, ?_⟩⟩
  rw [(account_stop t es me tsc).2]
  exact hshows

/-- What is asked of the entries when a task is switched out with its timer active. -/
theorem asked_left {now tsc' : ℤ} (h : Each (Asked t (Counted s.evsets)) es)
    (hshows : Shows evset pmc (account t es).counts)
    (hget : smonGetEvset s.evsets (envir.esids task.evset) = some evset) :
    Each (Asked t (Counted s.evsets))
      (es ++ .stop t me tsc :: (task.stopped tsc pmc).leftEvents t envir now tsc') := by
  rw [SmonTask.leftEvents, ← List.cons_append, ← List.append_assoc]
  refine Each.append_of_forall ?_ fun e he pre _ => ?_
  · split
    · exact asked_taken h hshows hget
    · exact asked_stop h me tsc
  · split at he
    · rw [List.mem_singleton.mp he]
      trivial
    · cases he

/-- The account of a task that is switched out with its timer active. -/
theorem account_left (t : TaskId) (es : List TraceEvent) (me : Cpu) (now tsc' : ℤ) :
    account t (es ++ .stop t me tsc :: (task.stopped tsc pmc).leftEvents t envir now tsc') =
      if (task.stopped tsc pmc).expired now then .zero else account t (es ++ [.stop t me tsc]) := by
  have hsched : ∀ xs : List TraceEvent, account t (xs ++ if envir.options.sched then
      [.sched t ((task.stopped tsc pmc).left envir now tsc').sampleSched] else []) = account t xs := by
    intro xs
    split
    · rw [account_concat]
      rfl
    · rw [List.append_nil]
  rw [SmonTask.leftEvents, ← List.cons_append, ← List.append_assoc, hsched]
  split
  · exact account_taken ..
  · rfl

theorem since_left (t : TaskId) (es : List TraceEvent) (me : Cpu) (now tsc' : ℤ) :
    (account t (es ++ .stop t me tsc :: (task.stopped tsc pmc).leftEvents t envir now tsc')).since =
      none := by
  rw [account_left]
  split
  · rfl
  · exact (account_stop ..).1

/-- A task that is switched out with its timer active has its counts in its sample, or a new sample. -/
theorem shows_left {now tsc' : ℤ} {evset' : SmonEvset} (me : Cpu)
    (hshows : Shows evset pmc (account t es).counts)
    (hget : smonGetEvset s.evsets (envir.esids task.evset) = some evset)
    (hget' : smonGetEvset s.evsets
      (envir.esids ((task.stopped tsc pmc).left envir now tsc').evset) = some evset') :
    Shows evset' ((task.stopped tsc pmc).left envir now tsc').samplePmc.pmc
      (account t (es ++ .stop t me tsc ::
        (task.stopped tsc pmc).leftEvents t envir now tsc')).counts := by
  have hleft : ∀ x : SmonTask, (x.schedOut envir tsc').samplePmc = x.samplePmc ∧
      (x.schedOut envir tsc').evset = x.evset := by
    intro x
    unfold SmonTask.schedOut
    split
    · exact ⟨rfl, rfl⟩
    · exact ⟨rfl, rfl⟩
  rw [SmonTask.left, (hleft _).2] at hget'
  rw [account_left, SmonTask.left, (hleft _).1]
  cases hdue : (task.stopped tsc pmc).expired now with
  | true =>
    have hkept : ((task.stopped tsc pmc).kept envir now).samplePmc = .zero := by
      rw [SmonTask.kept, hdue]
      rfl
    simp only [if_true, hkept]
    exact shows_zero evset'
  | false =>
    have hkept : ((task.stopped tsc pmc).kept envir now).samplePmc = (task.stopped tsc pmc).samplePmc ∧
        ((task.stopped tsc pmc).kept envir now).evset = task.evset := by
      rw [SmonTask.kept, hdue]
      exact ⟨rfl, rfl⟩
    simp only [Bool.false_eq_true, if_false, hkept.1]
    rw [(account_stop t es me tsc).2]
    have heq : smonGetEvset s.evsets (envir.esids task.evset) = some evset' := by
      rw [← hget', ← hkept.2]
    obtain rfl := Option.some_inj.mp (heq.symm.trans hget)
    exact hshows

/-- Starting a sample loads the counters. -/
theorem register_smonSampleStart (h : s.smonSampleStart me t = .ok s') (htask : s.tasks t = some task)
    (hselects : s.Selects t evset) (ctr : Counter) :
    s'.msr me ctr.register = task.samplePmc.pmc.get ctr := by
  obtain ⟨x, envir, hx, henvir, -, ⟨hnone, -⟩ | ⟨evset', -, rfl⟩⟩ := smonSampleStart_eq_ok.mp h
  · rw [hselects.eq hx henvir] at hnone
    cases hnone
  · obtain rfl := Option.some_inj.mp (hx.symm.trans htask)
    exact started_register ctr

/-- After a tick the counters start from zero. -/
theorem register_smonSchedTimerTick (h : s.smonSchedTimerTick t = .ok s') (htask : s.tasks t = some task)
    (hflags : task.timerFlags = true) (hselects : s'.Selects t evset) (ctr : Counter) :
    s'.msr task.timer.cpu ctr.register = 0 := by
  obtain ⟨envir, evset, s₁, s₂, s₃, -, -, -, -, -, hcall, -, -, hstart⟩ :=
    call_smonSchedTimerTick htask hflags h
  obtain ⟨x, envir, hx, henvir, -, ⟨hnone, rfl⟩ | ⟨evset', -, rfl⟩⟩ := smonSampleStart_eq_ok.mp hstart
  · rw [hselects.eq hx henvir] at hnone
    cases hnone
  · obtain rfl := Option.some_inj.mp (hx.symm.trans hcall.after)
    rw [started_register]
    cases ctr <;> rfl

/-! ### Steps -/

/-- A task whose account stands still afterwards. -/
theorem Loaded.of_still {es' : List TraceEvent} (htrace : s'.trace = es ++ es')
    (hforeign : ∀ e ∈ es', e.task? ≠ some t ∧ e.isCount = false) (hsince : (account t es).since = none)
    (htask' : s'.tasks t = some task')
    (hshows : ∀ evset, s'.Selects t evset → Shows evset task'.samplePmc.pmc (account t es).counts)
    (hasked : Each (Asked t (Counted s'.evsets)) es) : Loaded t s' := by
  have haccount : account t s'.trace = account t es := by rw [htrace, account_append_foreign hforeign]
  refine ⟨fun c b evset ctr h => ?_, fun x evset _ hx hselects => ?_, ?_⟩
  · rw [haccount, hsince] at h
    cases h
  · obtain rfl := Option.some_inj.mp (hx.symm.trans htask')
    rw [haccount]
    exact hshows evset hselects
  · rw [htrace]
    exact asked_foreign hasked hforeign

/-- A task whose account runs afterwards. -/
theorem Loaded.of_started {es' : List TraceEvent} (htrace : s'.trace = es ++ [.start t me tsc] ++ es')
    (hforeign : ∀ e ∈ es', e.task? ≠ some t ∧ e.isCount = false)
    (hloaded : ∀ evset ctr, s'.Selects t evset → evset.enabled ctr = true →
      (s'.msr me ctr.register).toNat = (account t es).counts ctr)
    (hasked : Each (Asked t (Counted s'.evsets)) es) : Loaded t s' := by
  have haccount : account t s'.trace = account t (es ++ [.start t me tsc]) := by
    rw [htrace, account_append_foreign hforeign]
  obtain ⟨hsince, hcounts⟩ := account_start t es me tsc
  refine ⟨fun c b evset ctr h hselects henabled => ?_, fun x evset h => ?_, ?_⟩
  · rw [haccount] at h ⊢
    rw [hsince, Option.some_inj, Prod.mk.injEq] at h
    rw [hcounts, ← h.1]
    exact hloaded evset ctr hselects henabled
  · rw [haccount, hsince] at h
    cases h
  · rw [htrace]
    exact asked_foreign (each_concat.mpr ⟨hasked, fun _ => trivial⟩) hforeign

/-- A counter that advances on the CPU where the account runs is counted, and one elsewhere is not. -/
theorem Loaded.count (h : Loaded t s) {ctr : Counter} {inc : ℕ}
    (hlt : (s.msr me ctr.register).toNat + inc < 2 ^ 48)
    (hs' : s' = (s.onCpu me fun msr =>
      Function.update msr ctr.register (msr ctr.register + BitVec.ofNat 64 inc)).record
        (.count me ctr inc)) : Loaded t s' := by
  have htrace : s'.trace = s.trace ++ [.count me ctr inc] := by
    rw [hs']
    rfl
  have hmsr : s'.msr = Function.update s.msr me
      (Function.update (s.msr me) ctr.register (s.msr me ctr.register + BitVec.ofNat 64 inc)) := by
    rw [hs']
    rfl
  have hselects' : ∀ evset, s'.Selects t evset → s.Selects t evset := by
    rw [hs']
    exact fun _ => id
  have haccount : account t s'.trace = (account t s.trace).step t (.count me ctr inc) := by
    rw [htrace, account_concat]
  have hsince : (account t s'.trace).since = (account t s.trace).since := by
    rw [haccount, Account.step_count]
  constructor
  case running =>
    intro c b evset ctr' hcb hselects henabled
    rw [hsince] at hcb
    have hold := h.running c b evset ctr' hcb (hselects' evset hselects) henabled
    rw [haccount, hmsr]
    by_cases hc : c = me
    · subst hc
      have hstep : (account t s.trace).step t (.count c ctr inc) = { account t s.trace with
          counts := Function.update (account t s.trace).counts ctr ((account t s.trace).counts ctr + inc) } :=
        if_pos (by rw [hcb]; simp)
      rw [hstep, Function.update_self]
      by_cases hctr : ctr' = ctr
      · subst hctr
        simp only [Function.update_self]
        rw [← hold, BitVec.toNat_add, BitVec.toNat_ofNat]
        omega
      · have hregister : ctr'.register ≠ ctr.register := fun heq => hctr (Counter.register_inj heq)
        simp only [Function.update_of_ne hctr, Function.update_of_ne hregister]
        exact hold
    · have hstep : (account t s.trace).step t (.count me ctr inc) = account t s.trace :=
        if_neg (by rw [hcb]; simpa using hc)
      rw [hstep, Function.update_of_ne hc]
      exact hold
  case still =>
    intro x evset hnone hx hselects
    rw [hsince] at hnone
    have hstep : (account t s.trace).step t (.count me ctr inc) = account t s.trace :=
      if_neg (by rw [hnone]; simp)
    have hx' : s.tasks t = some x := by
      rw [hs'] at hx
      exact hx
    rw [haccount, hstep]
    exact h.still x evset hnone hx' (hselects' evset hselects)
  case asked =>
    have hevsets : s'.evsets = s.evsets := by
      rw [hs']
      rfl
    rw [htrace, hevsets]
    exact each_concat.mpr ⟨h.asked, fun heq => (by cases heq)⟩

/-- **The counts of a task stay where they should be.** -/
theorem Loaded.step {R : ℕ → SmonTask → Account → Prop} {P : Account → TraceEvent → Prop}
    (h : Loaded t s) (hfed : Fed R P t s) (hone : s.OneEach)
    (hsteered : ∀ u task, s.tasks u = some task → Steered u s) (hreached : s.Reached t)
    (hl : s.kernel.Orderly l) (hsane : s.kernel.Sane) (hforest : Forest s.book ring)
    (hstep : s.Step l s') (hlt : t < s.fresh) (hcourse : Course t s l s') (htask : s.tasks t = some task)
    (htask' : s'.tasks t = some task') : Loaded t s' := by
  have hsteered' := hsteered t task htask
  have hquiet : (account t s.trace).since = none →
      ∀ c b, (account t s.trace).since = some (c, b) → s'.msr c = s.msr c := by
    intro hnone c b h
    rw [hnone] at h
    cases h
  cases hcourse with
  | aside hidle haside hruns =>
    obtain ⟨x, hx, hagrees⟩ := haside.task_before htask'
    obtain rfl := Option.some_inj.mp (hx.symm.trans htask)
    refine h.of_same hforest hstep.2 htask htask' hagrees.envir hagrees.evset hagrees.samplePmc
      haside.evsets (fun c b hsince => ?_) haside.trace
    have hc := (hfed.since c b hsince).1
    exact msr_of_not_touches hsane hstep
      (not_touches_of_idle hone hsteered hreached hl hstep hc hidle)
  | time d =>
    obtain rfl := Option.some_inj.mp (htask'.symm.trans htask)
    exact h.of_same hforest hstep.2 htask htask' rfl rfl rfl rfl (fun _ _ _ => rfl) ⟨[], by simp⟩
  | count me ctr inc => exact h.count hstep.1.2 rfl
  | @start me s' hpending hstart hruns =>
    have hmem := mem_requests_start.mpr hpending
    have hnone : (account t s.trace).since = none := by
      cases hsince : (account t s.trace).since with
      | none => rfl
      | some x => exact absurd hmem ((hfed.since x.1 x.2 hsince).2 me)
    obtain ⟨x, envir, hx, henvir, ⟨-, hcall⟩ | ⟨evset, hget, hcall⟩⟩ := call_start hstart
    · obtain rfl := Option.some_inj.mp (hx.symm.trans htask)
      obtain rfl := Option.some_inj.mp (htask'.symm.trans hcall.after)
      have hevsets : s'.evsets = s.evsets := congrArg Static.evsets hcall.static
      exact h.of_same hforest hstep.2 htask htask' rfl rfl rfl hevsets (hquiet hnone)
        ⟨[], hcall.trace, by simp⟩
    · obtain rfl := Option.some_inj.mp (hx.symm.trans htask)
      obtain rfl := Option.some_inj.mp (htask'.symm.trans hcall.after)
      have hevsets : s'.evsets = s.evsets := congrArg Static.evsets hcall.static
      have hselects : State.Selects { s with irqs := s.irqs.erase (me, .startTimer t) } t evset :=
        ⟨x, envir, htask, henvir, hget⟩
      obtain ⟨y, _, s₁, hy, -, hcall₁, -, -, hsample⟩ := call_startTimerPmc hstart
      obtain rfl := Option.some_inj.mp (hy.symm.trans htask)
      have hload := register_smonSampleStart hsample hcall₁.after (hselects.call hcall₁ rfl)
      refine .of_started (hcall.trace.trans (List.append_nil _).symm) (by simp)
        (fun evset' ctr hselects' henabled => ?_) (by rw [hevsets]; exact h.asked)
      have hbefore := hselects'.before hforest hstep.2 htask htask' rfl rfl hevsets
      have hshows := h.still y evset' hnone htask hbefore ctr
      rw [henabled] at hshows
      rw [hload ctr]
      exact hshows
  | @stop me s' hpending hstop hruns =>
    obtain ⟨x, hx, hcall, hmsr⟩ := call_stopTimerPmc me hstop
    obtain rfl := Option.some_inj.mp (hx.symm.trans htask)
    obtain rfl := Option.some_inj.mp (htask'.symm.trans hcall.after)
    have hevsets : s'.evsets = s.evsets := congrArg Static.evsets hcall.static
    exact h.of_same hforest hstep.2 htask htask' rfl rfl rfl hevsets
      (fun c _ _ => congrFun hmsr c) ⟨[], hcall.trace, by simp⟩
  | @tick task₀ s' htask₀ hdue htick hruns =>
    obtain rfl := Option.some_inj.mp (htask₀.symm.trans htask)
    cases hflags : task₀.timerFlags with
    | false =>
      obtain ⟨hcall, hmsr⟩ := call_smonSchedTimerTick_off 0 htask hflags htick
      obtain rfl := Option.some_inj.mp (htask'.symm.trans hcall.after)
      have hevsets : s'.evsets = s.evsets := congrArg Static.evsets hcall.static
      exact h.of_same hforest hstep.2 htask htask' rfl rfl rfl hevsets
        (fun c _ _ => congrFun hmsr c) ⟨[], hcall.trace, by simp⟩
    | true =>
      have hactive : task₀.timer.active = true := by
        rw [Hrtimer.due, Bool.and_eq_true] at hdue
        exact hdue.1
      obtain ⟨hruns₀, hnone⟩ := hsteered'.armed task₀ htask hactive hflags
      obtain ⟨envir, evset, tsc, pmc, next, henvir, hget, -, rfl, rfl, rfl, hrest⟩ :=
        call_tick htask hflags htick
      obtain ⟨b, hsince⟩ := hfed.exists_since hruns₀ (hnone _) htask henvir hget
      have hread := h.readout hsince ⟨task₀, envir, htask, henvir, hget⟩
      rcases hrest with ⟨hget', hcall⟩ | ⟨evset', hget', hreads, hcall⟩
      · obtain rfl := Option.some_inj.mp (htask'.symm.trans hcall.after)
        have hevsets : s'.evsets = s.evsets := congrArg Static.evsets hcall.static
        refine .of_still (hcall.trace.trans (List.append_nil _).symm) (by simp) ?_ htask'
          (fun evset'' _ => ?_) ?_
        · rw [account_taken]
          rfl
        · rw [account_taken]
          exact shows_zero evset''
        · rw [hevsets]
          exact asked_taken h.asked hread hget
      · obtain rfl := Option.some_inj.mp (htask'.symm.trans hcall.after)
        have hevsets : s'.evsets = s.evsets := congrArg Static.evsets hcall.static
        have htrace : s'.trace = s.trace ++ [.stop t task₀.timer.cpu (s.clock s.reads),
            .save t (task₀.stopped (s.clock s.reads) (s.readout task₀.timer.cpu evset)).record envir] ++
              [.start t task₀.timer.cpu (s.clock (s.reads + 1))] ++ [] := by
          rw [hcall.trace, List.append_nil, List.append_assoc]
          rfl
        refine .of_started htrace (by simp) (fun evset'' ctr hselects _ => ?_) ?_
        · rw [account_taken, register_smonSchedTimerTick htick htask hflags hselects ctr]
          rfl
        · rw [hevsets]
          exact asked_taken h.asked hread hget
  | @out me next mid s' hprompt hruns hout haside hleft =>
    obtain ⟨x, envir, evset, tsc, pmc, hx, henvir, hget, rfl, rfl, hoff, hon⟩ := call_out hout
    obtain rfl := Option.some_inj.mp (hx.symm.trans htask)
    obtain ⟨b, hsince⟩ := hfed.exists_since hruns (hsteered'.not_pending hruns hprompt _) htask henvir hget
    have hread := h.readout hsince ⟨x, envir, htask, henvir, hget⟩
    obtain ⟨es, hes, hforeign⟩ := haside.trace
    obtain ⟨y, hy, hagrees⟩ := haside.task_before htask'
    cases hactive : x.timer.active with
    | false =>
      have hcall := hoff hactive
      obtain rfl := Option.some_inj.mp (hy.symm.trans hcall.after)
      have hevsets : s'.evsets = s.evsets := haside.evsets.trans (congrArg Static.evsets hcall.static)
      obtain ⟨hstill, hcounts⟩ := account_stop t s.trace me (s.clock s.reads)
      refine .of_still (hes.trans (congrArg (· ++ es) hcall.trace)) hforeign hstill htask'
        (fun evset' hselects => ?_) (by rw [hevsets]; exact asked_stop h.asked me _)
      obtain ⟨envir', henvir', hget'⟩ := hselects.config hforest hstep.2 htask htask' hagrees.envir hevsets
      obtain rfl := Option.some_inj.mp (henvir'.symm.trans henvir)
      have hevset : task'.evset = x.evset := hagrees.evset
      rw [hevset] at hget'
      obtain rfl := Option.some_inj.mp (hget'.symm.trans hget)
      rw [hagrees.samplePmc, hcounts]
      exact hread
    | true =>
      obtain ⟨hcall, -⟩ := hon hactive
      obtain rfl := Option.some_inj.mp (hy.symm.trans hcall.after)
      have hevsets : s'.evsets = s.evsets := haside.evsets.trans (congrArg Static.evsets hcall.static)
      refine .of_still (hes.trans (congrArg (· ++ es) hcall.trace)) hforeign (since_left ..) htask'
        (fun evset' hselects => ?_) (by rw [hevsets]; exact asked_left h.asked hread hget)
      have henvir'' : task'.envir = x.envir :=
        hagrees.envir.trans (congrArg (fun c => c.1.envir) hcall.core)
      obtain ⟨envir', henvir', hget'⟩ := hselects.config hforest hstep.2 htask htask' henvir'' hevsets
      obtain rfl := Option.some_inj.mp (henvir'.symm.trans henvir)
      rw [hagrees.evset] at hget'
      rw [hagrees.samplePmc]
      exact shows_left me hread hget hget'
  | @enter l me s₁ s₂ s' hprompt hl hout h₁ henvirs hin h₂ hmsr hruns =>
    have hnone := hfed.since_eq_none hout
    obtain ⟨x, envir, hx, henvir, hcall⟩ := call_in hin
    obtain ⟨y, hy, hagrees₂⟩ := h₂.task_before htask'
    obtain ⟨z, hz, hagrees₁⟩ := h₁.task_before hx
    obtain rfl := Option.some_inj.mp (hz.symm.trans htask)
    obtain ⟨es₁, hes₁, hforeign₁⟩ := h₁.trace
    obtain ⟨es₂, hes₂, hforeign₂⟩ := h₂.trace
    have hentered : ∀ tsc, (x.entered envir me tsc).samplePmc = x.samplePmc ∧
        (x.entered envir me tsc).envir = x.envir ∧ (x.entered envir me tsc).evset = x.evset :=
      fun tsc => by
        unfold SmonTask.entered
        split <;> exact ⟨rfl, rfl, rfl⟩
    -- a task that is not started yet
    have hsame : ∀ qs, Call t me x (x.entered envir me (s₁.clock s₁.reads)) [] [] qs s₁ s₂ →
        Loaded t s' := by
      intro qs hcall
      obtain rfl := Option.some_inj.mp (hy.symm.trans hcall.after)
      have hevsets : s'.evsets = s.evsets :=
        (h₂.evsets.trans (congrArg Static.evsets hcall.static)).trans h₁.evsets
      refine h.of_same hforest hstep.2 htask htask'
        (hagrees₂.envir.trans ((hentered _).2.1.trans hagrees₁.envir))
        (hagrees₂.evset.trans ((hentered _).2.2.trans hagrees₁.evset))
        (hagrees₂.samplePmc.trans ((hentered _).1.trans hagrees₁.samplePmc)) hevsets (hquiet hnone)
        ⟨es₁ ++ es₂, ?_, fun e he => (List.mem_append.mp he).elim (hforeign₁ e) (hforeign₂ e)⟩
      rw [hes₂, hcall.trace, hes₁, List.append_nil, List.append_assoc]
    rcases hcall with ⟨-, hcall, -⟩ | ⟨hstat, ⟨-, hcall⟩ | ⟨evset, n, hget, -, -, hcall⟩⟩
    · exact hsame _ hcall
    · exact hsame _ hcall
    · obtain rfl := Option.some_inj.mp (hy.symm.trans hcall.after)
      have hevsets : s'.evsets = s.evsets :=
        (h₂.evsets.trans (congrArg Static.evsets hcall.static)).trans h₁.evsets
      obtain ⟨w, envir', hw, henvir', -, hstat'⟩ := call_smonSchedTaskIn hin
      obtain rfl := Option.some_inj.mp (hw.symm.trans hx)
      obtain rfl := Option.some_inj.mp (henvir'.symm.trans henvir)
      obtain ⟨s₃, hcall₃, -, hsample⟩ := hstat' hstat
      have hselects : s₁.Selects t evset := ⟨w, envir', hx, henvir, hget⟩
      have hload := register_smonSampleStart hsample hcall₃.after
        (hselects.call hcall₃ (hentered _).2.2)
      have htrace : s'.trace = s₁.trace ++ [.start t me (s₁.clock n)] ++ es₂ := by
        rw [hes₂, hcall.trace]
      have haccount : account t s₁.trace = account t s.trace := by
        rw [hes₁, account_append_foreign hforeign₁]
      refine .of_started htrace hforeign₂ (fun evset' ctr hselects' henabled => ?_) ?_
      · have hbefore := hselects'.before hforest hstep.2 htask htask'
          (hagrees₂.envir.trans ((hentered _).2.1.trans hagrees₁.envir))
          (hagrees₂.evset.trans ((hentered _).2.2.trans hagrees₁.evset)) hevsets
        have hshows := h.still z evset' hnone htask hbefore ctr
        rw [henabled, ← hagrees₁.samplePmc] at hshows
        rw [hmsr, hload ctr, haccount, (hentered _).1]
        exact hshows
      · rw [hevsets, hes₁]
        exact asked_foreign h.asked hforeign₁
  | @exit p me task₀ s₀ s₁ s' hprompt hruns htask₀ hp hstop hsave hdeparted hleft =>
    obtain rfl := Option.some_inj.mp (htask₀.symm.trans htask)
    obtain ⟨envir, evset, tsc, pmc, henvir, hget, -, rfl, rfl, hcall⟩ := call_exit htask₀ hstop hsave
    obtain ⟨b, hsince⟩ := hfed.exists_since hruns (hsteered'.not_pending hruns hprompt _) htask henvir hget
    have hread := h.readout hsince ⟨task₀, envir, htask, henvir, hget⟩
    obtain ⟨x, hx, haside⟩ := hdeparted
    obtain rfl := Option.some_inj.mp (hx.symm.trans hcall.after)
    obtain ⟨y, hy, hagrees⟩ := haside.exists_task (Function.update_self ..)
    obtain rfl := Option.some_inj.mp (hy.symm.trans htask')
    obtain ⟨es, hes, hforeign⟩ := haside.trace
    have hevsets : s'.evsets = s.evsets := haside.evsets.trans (congrArg Static.evsets hcall.static)
    refine .of_still (hes.trans (congrArg (· ++ es) hcall.trace)) hforeign ?_ htask'
      (fun evset' _ => ?_) ?_
    · rw [account_taken]
      rfl
    · rw [account_taken, hagrees.samplePmc]
      exact shows_zero evset'
    · rw [hevsets]
      exact asked_taken h.asked hread hget
  | leave hout hdeparted hleft =>
    obtain ⟨x, hx, haside⟩ := hdeparted
    obtain rfl := Option.some_inj.mp (hx.symm.trans htask)
    obtain ⟨y, hy, hagrees⟩ := haside.exists_task (Function.update_self ..)
    obtain rfl := Option.some_inj.mp (hy.symm.trans htask')
    exact h.of_same hforest hstep.2 htask htask' hagrees.envir hagrees.evset hagrees.samplePmc
      haside.evsets (hquiet (hfed.since_eq_none hout)) haside.trace
  | new hcomes hborn => exact absurd hlt (hborn.1 ▸ Nat.lt_irrefl _)
  | gone _ hgone htrace => exact absurd (hgone.symm.trans htask') (by simp)

/-- A new task has counted nothing. -/
theorem Loaded.of_born {p : Proc} (hborn : Born s.fresh p s s') (hunborn : s.Unborn) :
    Loaded s.fresh s' := by
  obtain ⟨pid, e, b, extra, task, htask, hagrees⟩ := hborn.exists_task
  obtain ⟨-, -, _, _, _, _, haside⟩ := hborn
  obtain ⟨es, hes, hforeign⟩ := haside.trace
  replace hes : s'.trace = s.trace ++ es := hes
  have hold := (hunborn s.fresh (Nat.le_refl _)).2
  have haccount : account s.fresh s.trace = .zero := account_eq_zero hold
  refine .of_still hes hforeign (by rw [haccount]; rfl) htask (fun evset _ => ?_) ?_
  · rw [haccount, hagrees.samplePmc]
    exact shows_zero evset
  · exact Each.append_of_forall each_nil fun e he _ htask => absurd htask (hold e he)

end Counts

/-! ### Runs -/

section Runs

variable {s s' s₀ : State} {t : TaskId} {l : Label} {ls : List Label} {ring : TaskId → List TaskId}
  {me c : Cpu} {task : SmonTask}

/-- No event of the driver adds an event set. -/
theorem exec_evsets (hforest : Forest s.book ring) (hstep : s.exec l = .ok s') :
    s'.evsets = s.evsets := by
  have hgone := tasks_of_fresh_le hforest (Nat.le_succ s.fresh)
  rcases (exec_turn hforest _ hstep).of_absent hgone with
    haside | ⟨d, rfl⟩ | ⟨me, ctr, f, inc, rfl⟩ | ⟨p, -, hborn⟩ | hlt
  · exact haside.evsets
  · rfl
  · rfl
  · exact absurd hborn.1 (Nat.succ_ne_self _)
  · exact absurd hlt (Nat.not_lt.mpr (Nat.le_succ _))

/-- Nothing is said about a task that is not there afterwards. -/
theorem Course.trace_of_absent (h : Course t s l s') (hnone : s'.tasks t = none) :
    ∃ es, s'.trace = s.trace ++ es ∧ ∀ e ∈ es, e.task? ≠ some t := by
  have hlive : ∀ x, s'.tasks t ≠ some x := by simp [hnone]
  cases h with
  | aside hidle haside hruns =>
    obtain ⟨es, hes, hforeign⟩ := haside.trace
    exact ⟨es, hes, fun e he => (hforeign e he).1⟩
  | time d => exact ⟨[], by simp⟩
  | count me ctr inc => exact ⟨[.count me ctr inc], rfl, by simp [TraceEvent.task?]⟩
  | start hpending hstart hruns =>
    obtain ⟨x, envir, -, -, ⟨-, hcall⟩ | ⟨evset, -, hcall⟩⟩ := call_start hstart
    · exact absurd hcall.after (hlive _)
    · exact absurd hcall.after (hlive _)
  | stop hpending hstop hruns =>
    obtain ⟨x, -, hcall, -⟩ := call_stopTimerPmc 0 hstop
    exact absurd hcall.after (hlive _)
  | @tick task s' htask hdue htick hruns =>
    cases hflags : task.timerFlags with
    | false => exact absurd (call_smonSchedTimerTick_off 0 htask hflags htick).1.after (hlive _)
    | true =>
      obtain ⟨_, _, _, _, _, -, -, -, -, -, -, ⟨-, hcall⟩ | ⟨_, -, -, hcall⟩⟩ :=
        call_tick htask hflags htick
      · exact absurd hcall.after (hlive _)
      · exact absurd hcall.after (hlive _)
  | out hprompt hruns hout haside hleft =>
    obtain ⟨x, _, _, _, _, -, -, -, -, -, hoff, hon⟩ := call_out hout
    cases hactive : x.timer.active with
    | false =>
      obtain ⟨y, hy, -⟩ := haside.exists_task (hoff hactive).after
      exact absurd hy (hlive y)
    | true =>
      obtain ⟨y, hy, -⟩ := haside.exists_task (hon hactive).1.after
      exact absurd hy (hlive y)
  | @enter l me s₁ s₂ s' hprompt hl hout h₁ henvirs hin h₂ hmsr hruns =>
    have hafter : ∃ y, s₂.tasks t = some y := by
      obtain ⟨x, _, -, -, ⟨-, hcall, -⟩ | ⟨-, ⟨-, hcall⟩ | ⟨_, _, -, -, -, hcall⟩⟩⟩ := call_in hin
      · exact ⟨_, hcall.after⟩
      · exact ⟨_, hcall.after⟩
      · exact ⟨_, hcall.after⟩
    obtain ⟨x, hx⟩ := hafter
    obtain ⟨y, hy, -⟩ := h₂.exists_task hx
    exact absurd hy (hlive y)
  | exit hprompt hruns htask hp hstop hsave hdeparted hleft =>
    obtain ⟨y, hy, -⟩ := hdeparted.after
    exact absurd hy (hlive y)
  | leave hout hdeparted hleft =>
    obtain ⟨y, hy, -⟩ := hdeparted.after
    exact absurd hy (hlive y)
  | new hcomes hborn =>
    obtain ⟨_, _, _, _, y, hy, -⟩ := hborn.exists_task
    exact absurd hy (hlive y)
  | gone hlt hgone htrace =>
    obtain ⟨es, hes, hforeign⟩ := htrace
    exact ⟨es, hes, fun e he => (hforeign e he).1⟩

/-- **Every record is accounted for**: it has the time and the counts of the slices since the last
record of its task, in every orderly run. -/
theorem accounted_of_run
    (run : Run (fun s l s' => OrderlyStep s l s' ∧ s.Enters t l) s₀ ls s) (init : s₀.Initial)
    (hclock : ∀ n, s₀.clock n ≠ 0) : Each (Asked t (Accounted s₀.evsets)) s.trace := by
  refine (run.induct (motive := fun _ s => Each (Asked t (Accounted s₀.evsets)) s.trace ∧
    s.clock = s₀.clock ∧ s.evsets = s₀.evsets ∧ (∃ w, PlacedBook w s.book) ∧
    ∀ task, s.tasks t = some task → Fed Timed Timely t s ∧ Loaded t s) ?_ ?_).1
  · refine ⟨by simp [init.trace], rfl, rfl, ⟨_, Initial.placedBook init⟩, fun task htask => ?_⟩
    rw [init.tasks t] at htask
    cases htask
  rintro ls s l s' run ⟨hasked, hsame, hevsets, ⟨w, hplaced⟩, hlive⟩
    ⟨⟨hstep, hl, hprompt, hallows⟩, henters⟩
  have run' : Run OrderlyStep s₀ ls s := run.mono fun _ _ _ h => h.1
  have hworld := world_of_run (run'.mono fun _ _ _ h => ⟨h.1, h.2.1⟩) init
  obtain ⟨ring, hforest⟩ := hworld.forest
  have hsteered : ∀ u task, s.tasks u = some task → Steered u s := fun u =>
    steered_of_run (attended_of_orderly run' init u) init
  have hreached := hplaced.reached hworld.listed t
  have hcourse := exec_course hforest hworld.listed hworld.sane hreached hl hprompt hstep
  have hsame' := (exec_clock hforest hstep.2).1.trans hsame
  have hevsets' := (exec_evsets hforest hstep.2).trans hevsets
  have hplaced' := hplaced.step hworld.listed hforest (exec_book_step hforest hstep.2)
    (hplaced.allows hallows)
  have T := timed_tally hclock t
  rw [← hsame] at T
  cases htask' : s'.tasks t with
  | none =>
    obtain ⟨es, hes, hforeign⟩ := hcourse.trace_of_absent htask'
    refine ⟨?_, hsame', hevsets', ⟨_, hplaced'⟩, fun task htask => (by cases htask)⟩
    rw [hes]
    exact hasked.append_of_forall fun e he _ htask => absurd htask (hforeign e he)
  | some task' =>
    have hnow : Fed Timed Timely t s' ∧ Loaded t s' := by
      cases htask : s.tasks t with
      | some task =>
        obtain ⟨hfed, hloaded⟩ := hlive task htask
        have hlt := lt_fresh_of_tasks hforest htask
        have hsteered' := (hsteered t task htask).step hlt hcourse htask htask'
        exact ⟨hfed.step T (hsteered t task htask) hsteered' hforest hstep.2 hlt hcourse htask htask',
          hloaded.step hfed (PlacedBook.oneEach hplaced) hsteered hreached hl hworld.sane hforest hstep hlt
            hcourse htask htask'⟩
      | none =>
        obtain ⟨p, hcomes, hborn⟩ := hcourse.born htask htask'
        obtain rfl : t = s.fresh := hborn.1
        refine ⟨.of_born hborn hworld.unborn (fun pid x hx => ?_)
          (not_runsOn_of_born hworld hstep hl henters hcomes hborn), .of_born hborn hworld.unborn⟩
        exact ⟨by rw [hx]; rfl, fun c b heq => (by cases heq), by rw [hx]; rfl,
          fun b heq => (by cases heq), by rw [hx]; rfl, fun heq => (by cases heq)⟩
    refine ⟨?_, hsame', hevsets', ⟨_, hplaced'⟩, fun _ _ => hnow⟩
    obtain ⟨hfed, hloaded⟩ := hnow
    have hcounted := hloaded.asked
    rw [hevsets'] at hcounted
    exact fun pre e post heq htask => ⟨(hfed.kept task' htask').asked pre e post heq htask,
      hcounted pre e post heq htask⟩

end Runs

/-- A process that is monitored once it executes a program. -/
def startingOnExec : SmonEnvir :=
  { inheriting with options := ⟨false, true, false, false, false, false, false⟩ }

/-- A process executes a program, counts five, and exits. -/
theorem accounted_of_run_exec : ∃ (s : State) (sample : SamplePmc) (envir : SmonEnvir),
    .save 0 sample envir ∈ s.trace ∧
    sample.pmc.get (.fx 0) = 5 ∧ sample.duration = 1 ∧
    Each (Asked 0 (Accounted [fixedOnly])) s.trace := by
  obtain ⟨s, run, sample, envir, hrecord⟩ : ∃ s, Run (fun s l s' => OrderlyStep s l s' ∧ s.Enters 0 l)
      (boot [] [fixedOnly]) [.register 0 1 startingOnExec 0 ⟨true, true, true⟩, .switch 0 1, .exec 1,
        .irq 0 (.startTimer 0), .count 0 (.fx 0) 5, .exit 1] s ∧
      ∃ sample envir, .save 0 sample envir ∈ s.trace ∧ sample.pmc.get (.fx 0) = 5 ∧
        sample.duration = 1 := by
    refine ⟨_, .cons ⟨⟨⟨trivial, rfl⟩, ⟨trivial, by simp⟩, fun _ c w h => (by cases h),
        fun t task h => (by cases h)⟩, ?_⟩ <|
      .cons ⟨⟨⟨trivial, rfl⟩, ⟨rfl, ?_⟩, fun _ _ _ _ => List.not_mem_nil, trivial⟩,
        .of_ne (by simp)⟩ <|
      .cons ⟨⟨⟨trivial, rfl⟩, ⟨rfl, by simp⟩, fun _ _ _ _ => List.not_mem_nil, trivial⟩,
        .of_ne (by simp)⟩ <|
      .cons ⟨⟨⟨by decide, rfl⟩, ⟨trivial, by simp⟩, fun _ c w h => (by cases h), trivial⟩,
        .of_ne (by simp)⟩ <|
      .cons ⟨⟨⟨by decide, rfl⟩, ⟨trivial, by simp⟩, fun _ c w h => (by cases h), trivial⟩,
        .of_ne (by simp)⟩ <|
      .cons ⟨⟨⟨trivial, rfl⟩, ⟨rfl, by simp⟩, fun _ _ _ _ => List.not_mem_nil, trivial⟩,
        .of_ne (by simp)⟩ .nil, ?_⟩
    · rintro me pid envir b alloc ⟨⟩ -
      exact .inl rfl
    · rintro me next ⟨⟩
      exact ⟨by decide, rfl⟩
    · exact ⟨_, _, List.mem_cons_of_mem _ (List.mem_cons_of_mem _ (List.mem_cons_of_mem _
        List.mem_cons_self)), rfl, rfl⟩
  refine ⟨s, sample, envir, hrecord.1, hrecord.2.1, hrecord.2.2, ?_⟩
  exact accounted_of_run run (initial_boot ..) fun n => by change (n : ℤ) + 1 ≠ 0; omega

/-- **A process with two tasks**: the second one that it starts loads its own counters, and the first
one saves them as its own. -/
theorem not_accounted_twice : (boot [] [fixedOnly]).Initial ∧
    (∀ n, (boot [] [fixedOnly]).clock n ≠ 0) ∧ ∃ ls s,
    Run (fun s l s' => s.Step l s' ∧ s.kernel.Orderly l ∧ s.Prompt l ∧ ∀ t, s.Enters t l)
      (boot [] [fixedOnly]) ls s ∧ ¬ Each (Asked 1 (Accounted [fixedOnly])) s.trace := by
  have hexec : ∀ (s : State) me pid b alloc t,
      s.Enters t (.register me pid startingOnExec b alloc) := by
    rintro s me pid b alloc t me' pid' envir' b' alloc' ⟨⟩ -
    exact .inl rfl
  refine ⟨initial_boot .., fun n => by change (n : ℤ) + 1 ≠ 0; omega,
    [.register 0 1 startingOnExec 0 ⟨true, true, true⟩,
      .register 0 1 startingOnExec 1 ⟨true, true, true⟩, .switch 0 1, .exec 1, .irq 0 (.startTimer 1),
      .count 0 (.fx 0) 5, .exec 1, .irq 0 (.startTimer 0), .count 0 (.fx 0) 3, .time 10000000,
      .tick 1], _,
    .cons ⟨⟨trivial, rfl⟩, ⟨trivial, by simp⟩, fun _ c w h => (by cases h), hexec _ _ _ _ _⟩ <|
    .cons ⟨⟨trivial, rfl⟩, ⟨trivial, by simp⟩, fun _ c w h => (by cases h), hexec _ _ _ _ _⟩ <|
    .cons ⟨⟨trivial, rfl⟩, ⟨rfl, ?_⟩, fun _ _ _ _ => List.not_mem_nil, fun _ => .of_ne (by simp)⟩ <|
    .cons ⟨⟨trivial, rfl⟩, ⟨rfl, by simp⟩, fun _ _ _ _ => List.not_mem_nil, fun _ => .of_ne (by simp)⟩ <|
    .cons ⟨⟨by decide, rfl⟩, ⟨trivial, by simp⟩, fun _ c w h => (by cases h), fun _ => .of_ne (by simp)⟩ <|
    .cons ⟨⟨by decide, rfl⟩, ⟨trivial, by simp⟩, fun _ c w h => (by cases h), fun _ => .of_ne (by simp)⟩ <|
    .cons ⟨⟨trivial, rfl⟩, ⟨rfl, by simp⟩, fun _ _ _ _ => List.not_mem_nil, fun _ => .of_ne (by simp)⟩ <|
    .cons ⟨⟨by decide, rfl⟩, ⟨trivial, by simp⟩, fun _ c w h => (by cases h), fun _ => .of_ne (by simp)⟩ <|
    .cons ⟨⟨by decide, rfl⟩, ⟨trivial, by simp⟩, fun _ c w h => (by cases h), fun _ => .of_ne (by simp)⟩ <|
    .cons ⟨⟨trivial, rfl⟩, ⟨trivial, by simp⟩, fun _ c w h => (by cases h), fun _ => .of_ne (by simp)⟩ <|
    .cons ⟨⟨by decide, rfl⟩, ⟨trivial, by simp⟩, fun _ c w h => (by cases h), fun _ => .of_ne (by simp)⟩ .nil,
    fun h => ?_⟩
  · rintro me next ⟨⟩
    exact ⟨by decide, rfl⟩
  · obtain ⟨-, evset, hget, hshows⟩ := h [_, _, _, _, _] (.save 1 _ _) [_] rfl rfl
    obtain rfl : fixedOnly = evset := Option.some_inj.mp hget
    have hcount := hshows (.fx 0)
    rw [if_pos (by decide)] at hcount
    have heq : (3 : ℕ) = 8 := hcount
    cases heq

end SchedMon
