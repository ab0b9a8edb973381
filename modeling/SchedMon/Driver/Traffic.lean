import Mathlib.Logic.Function.Iterate
import SchedMon.Driver.Stream
import SchedMon.Lib.Dated

/-!
# The traffic of a buffer

What an event does to a buffer is a posting: writers come, a batch size is set, records are handed
over, and writers go, in this order. Every event makes a posting to every buffer, mostly an empty one.

Every record carries the time at which it was completed, and most carry a pid. The time is a reading
of the time-stamp counter that no other record uses, taken by the hook or the timer that writes the
record. The pid is that of a task which has the buffer at that moment.

## Main definitions

* `Posting`, `Rb.post` — what an event does to a buffer
* `Sample.stamp?`, `Sample.pid?` — when a record was completed, and whose it is
* `Posts` — a posting whose records are dated, and belong to tasks of the buffer

## Main results

* `posts_of_exec` — **every event makes a posting to every buffer**
* `Posts.log` — what it appends
-/

namespace SchedMon

open State SchedMon.Shelf

/-! ### Postings -/

/-- Records are handed to the buffer. -/
def Rb.write (rb : Rb) (ws : List Sample) : Rb := { rb with log := rb.log ++ ws }

/-- A writer comes. -/
def Rb.get (rb : Rb) : Rb := { rb with active := rb.active + 1 }

/-- A writer goes. The last one leaves an EOF record behind. -/
def Rb.release (rb : Rb) : Rb :=
  { rb with
    active := rb.active - 1
    log := rb.log ++ if rb.active = 1 then [.eof] else [] }

/-- Writers that come, a batch size, records, and writers that go. -/
structure Posting where
  gets : ℕ
  batch? : Option U32
  samples : List Sample
  releases : ℕ

/-- What a posting makes of a buffer. -/
def Rb.post (rb : Rb) (p : Posting) : Rb :=
  Rb.release^[p.releases]
    { active := rb.active + p.gets, batch := p.batch?.getD rb.batch, log := rb.log ++ p.samples }

/-- Nothing but records. -/
def Posting.only (ws : List Sample) : Posting := ⟨0, none, ws, 0⟩

theorem Rb.post_only (rb : Rb) (ws : List Sample) : rb.post (.only ws) = rb.write ws := by
  simp [Rb.post, Posting.only, Rb.write]

@[simp] theorem Rb.write_nil (rb : Rb) : rb.write [] = rb := by simp [Rb.write]

/-- More writers go. -/
theorem Rb.post_releases (rb : Rb) (p : Posting) (k : ℕ) :
    Rb.release^[k] (rb.post p) = rb.post { p with releases := p.releases + k } := by
  simp only [Rb.post, ← Function.iterate_add_apply, Nat.add_comm k]

/-- Writers that go leave EOF records behind, at most. -/
theorem Rb.release_iterate_log (rb : Rb) (k : ℕ) :
    ∃ eofs, (Rb.release^[k] rb).log = rb.log ++ eofs ∧ ∀ w ∈ eofs, w = .eof := by
  induction k generalizing rb with
  | zero => exact ⟨[], (List.append_nil _).symm, by simp⟩
  | succ k ih =>
    obtain ⟨eofs, hlog, heofs⟩ := ih rb.release
    refine ⟨_, (congrArg Rb.log (Function.iterate_succ_apply ..)).trans (hlog.trans
      (List.append_assoc ..)), fun w hw => ?_⟩
    rcases List.mem_append.mp hw with hw | hw
    · split at hw
      · exact List.mem_singleton.mp hw
      · cases hw
    · exact heofs w hw

theorem Rb.release_iterate_active (rb : Rb) (k : ℕ) :
    (Rb.release^[k] rb).active = rb.active - k := by
  induction k generalizing rb with
  | zero => simp
  | succ k ih =>
    refine (congrArg Rb.active (Function.iterate_succ_apply ..)).trans ((ih rb.release).trans ?_)
    change rb.active - 1 - (k : ℤ) = rb.active - ((k + 1 : ℕ) : ℤ)
    omega

/-! ### Records -/

/-- When the record was completed. -/
def Sample.stamp? : Sample → Option ℤ
  | pmc s => some s.timestampStop
  | rapl s => some (s.timestamp + s.duration)
  | cpu s => some s.timestamp
  | sched s => some s.timestampOut
  | fork s => some s.timestamp
  | info s => some s.timestamp
  | eof => none

/-- Whose the record is. -/
def Sample.pid? : Sample → Option Pid
  | pmc s => some s.pid
  | cpu s => some s.pid
  | sched s => some s.pid
  | fork s => some s.parent
  | rapl _ | info _ | eof => none

namespace State

/-- A task of pid `q` has buffer `b`. -/
def Owns (s : State) (b : RbId) (q : Pid) : Prop :=
  ∃ t task, s.tasks t = some task ∧ task.rb = some b ∧ task.pid = q

/-- The SCHED sample of task `t` carries its pid. -/
def Signed (s : State) (t : TaskId) : Prop :=
  ∀ task, s.tasks t = some task → task.sampleSched.pid = task.pid

/-- The SCHED samples of all tasks carry their pids. -/
def Named (s : State) : Prop := ∀ t, s.Signed t

end State

/-- The posting `p` to buffer `b`: its records are completed meanwhile, one after the other, each for
a task that has the buffer. -/
structure Posts (b : RbId) (s s' : State) (p : Posting) : Prop where
  rb : s'.rbs b = (s.rbs b).post p
  ne_eof : ∀ w ∈ p.samples, w ≠ .eof
  dated : Dated s.clock Sample.stamp? s.reads s'.reads p.samples
  owned : ∀ w ∈ p.samples, ∀ q, w.pid? = some q → s.Owns b q

/-- There is a posting to buffer `b`. It leaves the batch size alone, and a writer that comes is not
the first one. -/
def Emits (b : RbId) (s s' : State) : Prop :=
  ∃ p, Posts b s s' p ∧ p.batch? = none ∧ (p.gets ≠ 0 → ∃ q, s.Owns b q)

/-- **What a posting appends.** -/
theorem Posts.log {b : RbId} {s s' : State} {p : Posting} (h : Posts b s s' p)
    (hreads : s.reads ≤ s'.reads) : ∃ ws, (s'.rbs b).log = (s.rbs b).log ++ ws ∧
      Dated s.clock Sample.stamp? s.reads s'.reads ws ∧
      ∀ w ∈ ws, ∀ q, w.pid? = some q → s.Owns b q := by
  obtain ⟨eofs, hlog, heofs⟩ := Rb.release_iterate_log ⟨(s.rbs b).active + p.gets,
    p.batch?.getD (s.rbs b).batch, (s.rbs b).log ++ p.samples⟩ p.releases
  refine ⟨p.samples ++ eofs, ?_, ?_, fun w hw q hq => ?_⟩
  · rw [h.rb, ← List.append_assoc]
    exact hlog
  · refine h.dated.append (.of_undated fun w hw => ?_) hreads (Nat.le_refl _)
    rw [heofs w hw]
    rfl
  · rcases List.mem_append.mp hw with hw | hw
    · exact h.owned w hw q hq
    · rw [heofs w hw] at hq
      cases hq

section Functions

variable {s s' s₁ : State} {t : TaskId} {b c : RbId} {me : Cpu} {p : Proc} {task task' : SmonTask}
  {ws : List Sample}

namespace Emits

theorem of_rb (h : s'.rbs b = s.rbs b) : Emits b s s' := by
  refine ⟨.only [], ⟨?_, by simp [Posting.only], .nil .., by simp [Posting.only]⟩, rfl,
    fun hgets => absurd rfl hgets⟩
  rw [Rb.post_only, Rb.write_nil, h]

/-- Nothing happens to the buffer afterwards. -/
theorem trans_rb (h : Emits b s s₁) (hrb : s'.rbs b = s₁.rbs b) (hreads : s₁.reads ≤ s'.reads) :
    Emits b s s' := by
  obtain ⟨p, ⟨hp, hsample, hdated, howned⟩, hbatch⟩ := h
  exact ⟨p, ⟨hrb.trans hp, hsample, hdated.mono (Nat.le_refl _) hreads, howned⟩, hbatch⟩

/-- Writers go afterwards. -/
theorem trans_release (h : Emits b s s₁) (k : ℕ) (hrb : s'.rbs b = Rb.release^[k] (s₁.rbs b))
    (hreads : s₁.reads ≤ s'.reads) : Emits b s s' := by
  obtain ⟨p, ⟨hp, hsample, hdated, howned⟩, hbatch⟩ := h
  refine ⟨{ p with releases := p.releases + k }, ⟨?_, hsample, hdated.mono (Nat.le_refl _) hreads,
    howned⟩, hbatch⟩
  rw [hrb, hp, Rb.post_releases]

/-- What is written to one buffer. -/
theorem of_write (hrb : s'.rbs b = if c = b then (s.rbs b).write ws else s.rbs b)
    (hsample : ∀ w ∈ ws, w ≠ .eof) (hdated : Dated s.clock Sample.stamp? s.reads s'.reads ws)
    (howned : c = b → ∀ w ∈ ws, ∀ q, w.pid? = some q → s.Owns b q) : Emits b s s' := by
  by_cases hc : c = b
  · rw [if_pos hc] at hrb
    exact ⟨.only ws, ⟨hrb.trans (Rb.post_only ..).symm, hsample, hdated, howned hc⟩, rfl,
      fun hgets => absurd rfl hgets⟩
  · rw [if_neg hc] at hrb
    exact of_rb hrb

/-- What a call writes goes to the buffer of its task. -/
theorem of_call {es : List TraceEvent} {qs : List Irq} (h : Call t me task task' es ws qs s s')
    (hsample : ∀ w ∈ ws, w ≠ .eof) (hdated : Dated s.clock Sample.stamp? s.reads s'.reads ws)
    (howned : ∀ w ∈ ws, ∀ q, w.pid? = some q → q = task.pid) (b : RbId) : Emits b s s' := by
  cases hrb : task.rb with
  | none => exact of_rb (by rw [h.rbs, hrb]; rfl)
  | some c =>
    refine of_write (c := c) ?_ hsample hdated ?_
    · rw [h.rbs, hrb]
      by_cases hc : c = b
      · subst hc
        simp [written, Rb.write]
      · simp [written, hc, Ne.symm hc]
    · rintro rfl w hw q hq
      exact ⟨t, task, h.before, hrb, (howned w hw q hq).symm⟩

end Emits

/-! ### Functions -/

theorem Call.rbs_silent {es : List TraceEvent} {qs : List Irq}
    (h : Call t me task task' es [] qs s s') : s'.rbs = s.rbs := h.rbs.trans (written_nil ..)

theorem rbs_smonRbWrite (c : RbId) (w : Sample) (b : RbId) :
    (s.smonRbWrite c w).rbs b = if c = b then (s.rbs b).write [w] else s.rbs b := by
  by_cases hc : c = b
  · subst hc
    simp [smonRbWrite, Rb.write]
  · simp [smonRbWrite, hc, Ne.symm hc]

theorem rbs_smonGetRb (c b : RbId) :
    (s.smonGetRb c).rbs b = if c = b then (s.rbs b).get else s.rbs b := by
  by_cases hc : c = b
  · subst hc
    simp [smonGetRb, Rb.get]
  · simp [smonGetRb, hc, Ne.symm hc]

theorem rbs_smonReleaseRb (c b : RbId) :
    (s.smonReleaseRb c).rbs b = if c = b then (s.rbs b).release else s.rbs b := by
  have hactive := smonReleaseRb_active s c b
  have hlog := log_smonReleaseRb (s := s) c b
  have hbatch : ((s.smonReleaseRb c).rbs b).batch = (s.rbs b).batch := by
    unfold smonReleaseRb
    dsimp only
    by_cases hc : b = c
    · subst hc
      split <;> simp [smonRbWrite]
    · split <;> simp [smonRbWrite, hc]
  generalize (s.smonReleaseRb c).rbs b = rb at hactive hlog hbatch
  obtain ⟨active, batch, log⟩ := rb
  simp only at hactive hlog hbatch
  subst hactive hlog hbatch
  by_cases hc : c = b
  · subst hc
    simp [Rb.release]
  · simp [hc, Ne.symm hc]

theorem rbs_smonSchedTaskIn (h : s.smonSchedTaskIn me t = .ok s') : s'.rbs = s.rbs := by
  obtain ⟨task, envir, -, -, ⟨-, hcall, -⟩ | ⟨-, ⟨-, hcall⟩ | ⟨evset, n, -, -, -, hcall⟩⟩⟩ :=
    call_in h
  · exact hcall.rbs_silent
  · exact hcall.rbs_silent
  · exact hcall.rbs_silent

theorem rbs_irq {w : Irq} (h : s.exec (.irq me w) = .ok s') : s'.rbs = s.rbs := by
  cases w with
  | startTimer t =>
    obtain ⟨task, envir, -, -, ⟨-, hcall⟩ | ⟨evset, -, hcall⟩⟩ := call_start h
    · exact hcall.rbs_silent
    · exact hcall.rbs_silent
  | stopTimer t =>
    obtain ⟨task, -, hcall, -⟩ := call_stopTimerPmc 0 h
    exact hcall.rbs_silent
  | startRapl t =>
    obtain ⟨extra, -, hset⟩ := bind_eq_ok.mp h
    obtain ⟨-, -, rfl⟩ := setExtra_eq_ok.mp hset
    rfl

theorem reads_smonSampleStop (h : s.smonSampleStop me t = .ok s') : s'.reads = s.reads + 1 := by
  obtain ⟨task, envir, evset, -, -, -, -, -, rfl⟩ := smonSampleStop_eq_ok.mp h
  exact reads_stopped

theorem reads_smonSampleSave (h : s.smonSampleSave t = .ok s') : s'.reads = s.reads := by
  obtain ⟨task, envir, -, -, -, rfl⟩ := smonSampleSave_eq_ok.mp h
  exact reads_saved

theorem reads_smonSampleStart (h : s.smonSampleStart me t = .ok s') : s.reads ≤ s'.reads := by
  obtain ⟨task, envir, -, -, ⟨-, rfl⟩ | ⟨evset, -, hcall⟩⟩ := call_smonSampleStart h
  · exact Nat.le_refl _
  · exact hcall.reads

theorem reads_smonSchedTaskIn (h : s.smonSchedTaskIn me t = .ok s') : s.reads ≤ s'.reads := by
  obtain ⟨task, envir, -, -, ⟨-, hcall, -⟩ | ⟨-, ⟨-, hcall⟩ | ⟨evset, n, -, -, -, hcall⟩⟩⟩ :=
    call_in h
  · exact hcall.reads
  · exact hcall.reads
  · exact hcall.reads

theorem reads_leave (h : s.leave t = .ok s') : s'.reads = s.reads := by
  obtain ⟨task, b, -, -, rfl⟩ := leave_eq_ok.mp h
  change (s.smonReleaseRb b).reads = s.reads
  unfold smonReleaseRb
  dsimp only
  split <;> rfl

theorem SmonTask.left_sampleSched_pid (task : SmonTask) (envir : SmonEnvir) (now tsc : ℤ) :
    (task.left envir now tsc).sampleSched.pid = task.sampleSched.pid := by
  unfold SmonTask.left SmonTask.schedOut SmonTask.kept
  dsimp only
  split
  · split
    · rfl
    · rfl
  · split
    · rfl
    · rfl

theorem reads_cancelRapl (h : s.cancelRapl t = .ok s') : s'.reads = s.reads ∧ s'.rbs = s.rbs := by
  obtain ⟨extra, -, hset⟩ := bind_eq_ok.mp h
  obtain ⟨task, -, rfl⟩ := setExtra_eq_ok.mp hset
  exact ⟨rfl, rfl⟩

/-- The records of a task that is switched out: a PMC record if one is due, and then a SCHED record
if the environment asks for them. -/
theorem emits_out (hnamed : s.Named) (h : s.smonSchedTaskOut me t = .ok s') (b : RbId) :
    Emits b s s' := by
  obtain ⟨task, envir, evset, s₁, htask, henvir, -, rfl, hoff, hon⟩ := call_smonSchedTaskOut h
  have hstop := call_stopped me evset htask
  have hreads : (s.stopped me t task evset).reads = s.reads + 1 := reads_stopped
  cases hactive : task.timer.active with
  | false =>
    rw [hoff hactive]
    exact .of_rb (congrFun hstop.rbs_silent b)
  | true =>
    obtain ⟨hleft, -, hsched⟩ := hon hactive
    have hle : s.reads + 1 ≤ s'.reads := hreads ▸ hleft.reads
    refine .of_call (hstop.trans hleft) ?_ ?_ ?_ b
    · intro w hw heq
      obtain ⟨-, hmiddle⟩ := SmonTask.dueRecords_middle _ _ _ _ w hw
      rw [heq] at hmiddle
      exact hmiddle rfl
    · rw [List.nil_append]
      refine Dated.append ?_ ?_ (Nat.le_succ s.reads) hle
      · split
        · exact .single rfl (Nat.le_refl _) (Nat.lt_succ_self _)
        · exact .nil ..
      · split
        · rename_i hoption
          have hstamp : ((task.stopped (s.clock s.reads) (s.readout me evset)).left envir s.now
              (s.clock (s.reads + 1))).sampleSched.timestampOut = s.clock (s.reads + 1) := by
            simp only [SmonTask.left, SmonTask.schedOut, hoption, if_true]
          refine .single (i := s.reads + 1) (congrArg some hstamp) (Nat.le_refl _) ?_
          rw [hsched hoption]
          exact Nat.lt_succ_self _
        · exact .nil ..
    · intro w hw q hq
      rw [List.nil_append] at hw
      rcases List.mem_append.mp hw with hw | hw
      · split at hw
        · rw [List.mem_singleton.mp hw] at hq
          exact (Option.some_inj.mp hq).symm
        · cases hw
      · split at hw
        · rw [List.mem_singleton.mp hw] at hq
          have hpid : ((task.stopped (s.clock s.reads) (s.readout me evset)).left envir s.now
              (s.clock (s.reads + 1))).sampleSched.pid = task.sampleSched.pid :=
            SmonTask.left_sampleSched_pid ..
          rw [← hnamed t task htask, ← hpid]
          exact (Option.some_inj.mp hq).symm
        · cases hw

/-! ### Events -/

theorem emits_switch {next : Proc} (hnamed : s.Named) (h : s.exec (.switch me next) = .ok s')
    (b : RbId) : Emits b s s' := by
  obtain ⟨s₂, hswitch, hs⟩ := bind_eq_ok.mp h
  cases hs
  obtain ⟨mid, hout, hin⟩ := switch_cases hswitch
  have hfirst : Emits b s mid := by
    rcases hout with ⟨-, rfl⟩ | ⟨t, -, hout⟩
    · exact .of_rb rfl
    · exact emits_out hnamed hout b
  have hlast : Emits b s s₂ := by
    rcases hin with ⟨-, rfl⟩ | ⟨t, -, hin⟩
    · exact hfirst
    · exact hfirst.trans_rb (congrFun (rbs_smonSchedTaskIn hin) b) (reads_smonSchedTaskIn hin)
  exact hlast.trans_rb rfl (Nat.le_refl _)

theorem emits_tick (h : s.exec (.tick t) = .ok s') (b : RbId) : Emits b s s' := by
  have htick : s.smonSchedTimerTick t = .ok s' := h
  obtain ⟨task, htask, -⟩ := bind_eq_ok.mp htick
  rw [task_eq_ok] at htask
  cases hflags : task.timerFlags with
  | false =>
    have hcall := (call_smonSchedTimerTick_off 0 htask hflags htick).1
    exact .of_rb (congrFun hcall.rbs_silent b)
  | true =>
    obtain ⟨envir, evset, s₁, s₂, s₃, -, -, -, rfl, rfl, hcall, -, hreads, hstart⟩ :=
      call_smonSchedTimerTick htask hflags htick
    have hstop := call_stopped task.timer.cpu evset htask
    have hsave := hstop.trans (call_saved task.timer.cpu envir hstop.after)
    have hlast : s'.rbs = s₃.rbs := by
      obtain ⟨task', envir', -, -, ⟨-, rfl⟩ | ⟨evset', -, hcall'⟩⟩ := call_smonSampleStart hstart
      · rfl
      · exact hcall'.rbs_silent
    have hle : s.reads + 1 ≤ s₃.reads := by
      rw [hreads, reads_saved, reads_stopped]
    have htaken : Emits b s s₃ := by
      refine .of_call (hsave.trans hcall) (by simp) ?_ ?_ b
      · exact .single rfl (Nat.le_refl _) (Nat.lt_of_succ_le hle)
      · intro w hw q hq
        rw [List.mem_singleton.mp hw] at hq
        exact (Option.some_inj.mp hq).symm
    exact htaken.trans_rb (congrFun hlast b) (reads_smonSampleStart hstart)

theorem emits_raplTick (h : s.exec (.raplTick t) = .ok s') (b : RbId) : Emits b s s' := by
  obtain ⟨extra, -, hrest⟩ := bind_eq_ok.mp h
  dsimp only at hrest
  split at hrest
  · obtain ⟨-, -, rfl⟩ := setExtra_eq_ok.mp hrest
    refine .of_write (rbs_smonRbWrite
      (s := (s.smonSampleRaplStop extra.raplTimer.cpu extra.raplSample).2) ..) (by simp) ?_
      (by simp [Sample.pid?])
    have hstamp : (Sample.rapl (s.smonSampleRaplStop extra.raplTimer.cpu extra.raplSample).1).stamp? =
        some (s.clock s.reads) := by
      refine congrArg some ?_
      change extra.raplSample.timestamp + (s.clock s.reads - extra.raplSample.timestamp) = _
      omega
    exact .single hstamp (Nat.le_refl _) (Nat.lt_succ_of_le (Nat.le_succ _))
  · obtain ⟨-, -, rfl⟩ := setExtra_eq_ok.mp hrest
    exact .of_rb rfl

theorem emits_migrate {dest : Cpu} (h : s.exec (.migrate p dest) = .ok s') (b : RbId) :
    Emits b s s' := by
  obtain ⟨s₁, hmigrate, hs⟩ := bind_eq_ok.mp h
  cases hs
  simp only [smonSchedMigrateTask, bind_eq_ok, whenFound_eq_ok] at hmigrate
  obtain ⟨found, -, ⟨rfl, rfl⟩ | ⟨t, rfl, hmigrate⟩⟩ := hmigrate
  · exact .of_rb rfl
  simp only [pure_eq_ok, task_eq_ok, envir_eq_ok] at hmigrate
  obtain ⟨task, htask, envir, -, rfl⟩ := hmigrate
  cases hcpu : envir.options.cpu with
  | false => exact .of_rb rfl
  | true =>
    cases hrb : task.rb with
    | none => exact .of_rb rfl
    | some c =>
      have hreads : Dated s.clock Sample.stamp? s.reads (s.reads + 1)
          [.cpu ⟨s.clock s.reads, task.pid, s.kernel.cpu p, dest⟩] :=
        .single rfl (Nat.le_refl _) (Nat.lt_succ_self _)
      refine .of_write
        (rbs_smonRbWrite (s := (s.delCpuList (s.kernel.cpu p) t).msrRdtsc.2) ..) (by simp) hreads ?_
      rintro rfl w hw q hq
      rw [List.mem_singleton.mp hw] at hq
      exact ⟨t, task, htask, hrb, Option.some_inj.mp hq⟩

/-- A child that is registered is one more writer of the buffer of its parent. -/
theorem rbs_childAdded (h : ChildAdded s t p s') : s'.reads = s.reads ∧ s'.clock = s.clock ∧
    ∃ task c, s.tasks t = some task ∧ task.rb = some c ∧
      ∀ b, s'.rbs b = if c = b then (s.rbs b).get else s.rbs b := by
  obtain ⟨task, c, envir, s₁, task₁, htask, hrb, -, hadd, -, rfl⟩ := h.add
  simp only [addChild, bind_eq_ok, pure_eq_ok] at hadd
  obtain ⟨next, -, -, -, rfl⟩ := hadd
  have hnew : (s.newChild p task.envir envir c).reads = s.reads ∧
      (s.newChild p task.envir envir c).clock = s.clock ∧
      (s.newChild p task.envir envir c).rbs = (s.smonGetRb c).rbs := ⟨rfl, rfl, rfl⟩
  refine ⟨hnew.1, hnew.2.1, task, c, htask, hrb, fun b => ?_⟩
  exact (congrFun hnew.2.2 b).trans (rbs_smonGetRb c b)

theorem emits_fork {parent child : Proc} {pid : Pid} {cpu : Cpu} {leader alloc : Bool}
    (h : s.exec (.fork parent child pid cpu leader alloc) = .ok s') (b : RbId) : Emits b s s' := by
  simp only [State.exec, smonSchedProcessFork, bind_eq_ok, whenFound_eq_ok] at h
  obtain ⟨found, -, ⟨rfl, rfl⟩ | ⟨t, rfl, task, htask, envir, -, s₁, hinherit, h⟩⟩ := h
  · exact .of_rb rfl
  rw [task_eq_ok] at htask
  -- the child is a writer, if it is registered
  have hmid : s₁.reads = s.reads ∧ s₁.clock = s.clock ∧ ∃ n : ℕ,
      s₁.rbs b = { s.rbs b with active := (s.rbs b).active + n } ∧ (n ≠ 0 → ∃ q, s.Owns b q) := by
    have hnone : s.rbs b = { s.rbs b with active := (s.rbs b).active + (0 : ℕ) } := by simp
    rcases when_eq_ok.mp hinherit with ⟨-, rfl⟩ | ⟨-, hregister⟩
    · exact ⟨rfl, rfl, 0, hnone, fun hn => absurd rfl hn⟩
    rcases registerChild_cases hregister with ⟨-, rfl⟩ | ⟨-, hadd⟩
    · exact ⟨rfl, rfl, 0, hnone, fun hn => absurd rfl hn⟩
    obtain ⟨hreads, hclock, task', c, htask', hrb, hget⟩ := rbs_childAdded hadd
    refine ⟨hreads, hclock, ?_⟩
    by_cases hc : c = b
    · subst hc
      exact ⟨1, (hget c).trans (if_pos rfl), fun _ => ⟨task'.pid, t, task', htask', hrb, rfl⟩⟩
    · exact ⟨0, ((hget b).trans (if_neg hc)).trans hnone, fun hn => absurd rfl hn⟩
  obtain ⟨hreads, hclock, n, hn, howner⟩ := hmid
  have hsilent : ∀ x : State, x.rbs b = s₁.rbs b → Emits b s x := by
    intro x hx
    refine ⟨⟨n, none, [], 0⟩, ⟨?_, by simp, .nil .., by simp⟩, rfl, howner⟩
    rw [hx, hn]
    simp [Rb.post]
  split at h
  · rw [← pure_eq_ok.mp h]
    cases hrb : task.rb with
    | none => exact hsilent _ rfl
    | some c =>
      have hwrite := rbs_smonRbWrite (s := s₁.msrRdtsc.2) c
        (.fork ⟨s₁.clock s₁.reads, task.pid, s₁.kernel.pid child⟩) b
      by_cases hc : c = b
      · subst hc
        refine ⟨⟨n, none, [.fork ⟨s₁.clock s₁.reads, task.pid, s₁.kernel.pid child⟩], 0⟩,
          ⟨?_, by simp, ?_, ?_⟩, rfl, howner⟩
        · refine hwrite.trans ((if_pos rfl).trans ?_)
          change (s₁.rbs c).write _ = _
          rw [hn]
          rfl
        · have hstamp : s₁.clock s₁.reads = s.clock s.reads := by rw [hclock, hreads]
          refine .single (congrArg some hstamp) (Nat.le_refl _) ?_
          exact Nat.lt_succ_of_le (Nat.le_of_eq hreads.symm)
        · intro w hw q hq
          rw [List.mem_singleton.mp hw] at hq
          exact ⟨t, task, htask, hrb, Option.some_inj.mp hq⟩
      · exact hsilent _ (hwrite.trans (if_neg hc))
  · rw [← pure_eq_ok.mp h]
    exact hsilent _ rfl

/-- The INFO record carries the time at which its session starts. -/
theorem dated_startExtra (h : s.startExtra me t = .ok s') (b : RbId) :
    ∃ ws, s'.rbs b = (s.rbs b).write ws ∧ Dated s.clock Sample.stamp? s.reads s'.reads ws ∧
      ∀ w ∈ ws, ∃ info, w = .info info := by
  simp only [startExtra, bind_eq_ok, when_eq_ok] at h
  obtain ⟨-, -, ⟨-, rfl⟩ | ⟨-, h⟩⟩ := h
  · exact ⟨[], (Rb.write_nil _).symm, Dated.nil .., by simp⟩
  simp only [smonTaskExtraStart, bind_eq_ok] at h
  obtain ⟨-, -, extra, -, envir, -, s₁, hset, h⟩ := h
  obtain ⟨_, -, rfl⟩ := setExtra_eq_ok.mp hset
  have hqueue : ∀ x : State, (x.irqWorkQueue me (.startRapl t)).rbs = x.rbs ∧
      (x.irqWorkQueue me (.startRapl t)).reads = x.reads := by
    intro x
    unfold irqWorkQueue
    split
    · exact ⟨rfl, rfl⟩
    · exact ⟨rfl, rfl⟩
  have hwritten : ∀ x : State, x.rbs = (s.smonRbWrite extra.rb
      (.info (s.smonSampleGetInfo me envir).1)).rbs → x.reads = s.reads + 1 →
      ∃ ws, x.rbs b = (s.rbs b).write ws ∧ Dated s.clock Sample.stamp? s.reads x.reads ws ∧
        ∀ w ∈ ws, ∃ info, w = .info info := by
    intro x hrbs hreads
    have hwrite := (congrFun hrbs b).trans (rbs_smonRbWrite ..)
    split at hwrite
    · refine ⟨_, hwrite, .single rfl (Nat.le_refl _) (hreads ▸ Nat.lt_succ_self _), fun w hw => ?_⟩
      exact ⟨_, List.mem_singleton.mp hw⟩
    · exact ⟨[], hwrite.trans (Rb.write_nil _).symm, .nil .., by simp⟩
  split at h
  · rw [← pure_eq_ok.mp h]
    exact hwritten _ (hqueue _).1 (hqueue _).2
  · rw [← pure_eq_ok.mp h]
    exact hwritten _ rfl rfl

theorem emits_exec (h : s.exec (.exec p) = .ok s') (b : RbId) : Emits b s s' := by
  rcases exec_cases h with ⟨-, rfl⟩ | ⟨t, s₁, s₂, hfound, hextra, hin, rfl⟩
  · exact .of_rb rfl
  obtain ⟨ws, hrb, hdated, hinfo⟩ := dated_startExtra hextra b
  have hfirst : Emits b s s₁ := by
    refine ⟨.only ws, ⟨hrb.trans (Rb.post_only ..).symm, fun w hw => ?_, hdated, fun w hw q hq => ?_⟩,
      rfl, fun hgets => absurd rfl hgets⟩
    · obtain ⟨info, rfl⟩ := hinfo w hw
      simp
    · obtain ⟨info, rfl⟩ := hinfo w hw
      cases hq
  have hlast : Emits b s s₂ :=
    hfirst.trans_rb (congrFun (rbs_smonSchedTaskIn hin) b) (reads_smonSchedTaskIn hin)
  exact hlast.trans_rb rfl (Nat.le_refl _)

/-- The process of a task goes, and perhaps its buffer ends. -/
theorem Emits.leave (h : Emits b s s₁) (hleave : s₁.leave t = .ok s') : Emits b s s' := by
  have hreads := Nat.le_of_eq (reads_leave hleave).symm
  obtain ⟨task, c, -, -, rfl⟩ := leave_eq_ok.mp hleave
  have hrb := rbs_smonReleaseRb (s := s₁) c b
  split at hrb
  · exact h.trans_release 1 hrb hreads
  · exact h.trans_rb hrb hreads

theorem emits_exit (h : s.exec (.exit p) = .ok s') (b : RbId) : Emits b s s' := by
  rcases exit_cases h with ⟨-, -, rfl⟩ | ⟨t, s₁, s₂, hexit⟩ | ⟨t, hexit⟩
  · exact .of_rb rfl
  · obtain ⟨task, s₀, htask, hstop, hsave⟩ := hexit.sample
    obtain ⟨envir, evset, tsc, pmc, -, -, -, rfl, -, hcall⟩ := call_exit htask hstop hsave
    have hreads : s₁.reads = s.reads + 1 := by
      rw [reads_smonSampleSave hsave, reads_smonSampleStop hstop]
      rfl
    have hsampled : Emits b s s₁ := by
      refine .of_call hcall (by simp) ?_ ?_ b
      · exact .single rfl (Nat.le_refl _) (hreads ▸ Nat.lt_succ_self _)
      · intro w hw q hq
        rw [List.mem_singleton.mp hw] at hq
        exact (Option.some_inj.mp hq).symm
    have hdel : Emits b s (s₁.delCpuList (s.kernel.cpu p) t) :=
      hsampled.trans_rb rfl (Nat.le_refl _)
    have hleft := hdel.leave hexit.leave
    obtain ⟨_, -, hcancel⟩ := hexit.cancel
    rcases when_eq_ok.mp hcancel with ⟨-, rfl⟩ | ⟨-, hcancel⟩
    · exact hleft
    · obtain ⟨hreads', hrbs⟩ := reads_cancelRapl hcancel
      exact hleft.trans_rb (congrFun hrbs b) (Nat.le_of_eq hreads'.symm)
  · have hdel : Emits b s (s.delWaitList t) := .of_rb rfl
    exact hdel.leave hexit.leave

/-! ### Unregistering -/

/-- Some writers of buffer `b` go. -/
def Releases (b : RbId) (s s' : State) : Prop := ∃ k, s'.rbs b = Rb.release^[k] (s.rbs b)

theorem Releases.of_rb (h : s'.rbs b = s.rbs b) : Releases b s s' := ⟨0, h⟩

theorem Releases.trans (h : Releases b s s₁) (h' : Releases b s₁ s') : Releases b s s' := by
  obtain ⟨k, hk⟩ := h
  obtain ⟨k', hk'⟩ := h'
  exact ⟨k' + k, by rw [hk', hk, Function.iterate_add_apply]⟩

theorem releases_smonDestroyTask (h : s.smonDestroyTask t = .ok s') (b : RbId) :
    Releases b s s' := by
  simp only [smonDestroyTask, smonReleaseEnvir, bind_eq_ok, pure_eq_ok] at h
  obtain ⟨task, -, s₁, ⟨envir, -, hrelease⟩, rfl⟩ := h
  have hrb : Releases b s (s.releaseTaskRb task) := by
    unfold releaseTaskRb
    split
    · rename_i c hc
      have hrb := rbs_smonReleaseRb (s := s) c b
      split at hrb
      · exact ⟨1, hrb⟩
      · exact .of_rb hrb
    · exact .of_rb rfl
  refine hrb.trans (.of_rb ?_)
  split at hrelease
  · rw [← pure_eq_ok.mp hrelease]
    rfl
  · rw [← pure_eq_ok.mp hrelease]
    rfl

theorem releases_unregisterChildrenFrom {root pos n : TaskId} {fuel : ℕ}
    (h : unregisterChildrenFrom root fuel pos n s = .ok s') (b : RbId) : Releases b s s' := by
  induction fuel generalizing s pos n with
  | zero => cases h
  | succ fuel ih =>
    unfold unregisterChildrenFrom at h
    split at h
    · rw [← pure_eq_ok.mp h]
      exact .of_rb rfl
    · simp only [delChild, bind_eq_ok, pure_eq_ok] at h
      obtain ⟨s₁, ⟨-, -, -, -, -, -, rfl⟩, s₂, hdestroy, next, -, h⟩ := h
      have hdel : Releases b s { s with children := s.children.del pos } := .of_rb rfl
      exact (hdel.trans (releases_smonDestroyTask hdestroy b)).trans (ih h)

theorem releases_smonSchedUnregister (h : s.smonSchedUnregister t = .ok s') (b : RbId) :
    Releases b s s' := by
  simp only [smonSchedUnregister, smonSchedUnregisterChildren, bind_eq_ok] at h
  obtain ⟨task, -, s₁, ⟨pos, -, n, -, hchildren⟩, envir, -, s₂, hcancel, hdestroy⟩ := h
  have hoff : Releases b s (s.setTask t { task with timer := hrtimerCancel task.timer }) :=
    .of_rb rfl
  have hsweep := hoff.trans (releases_unregisterChildrenFrom hchildren b)
  have hlist : Releases b s { s₁ with taskList := s₁.taskList.erase t } := hsweep
  have hrapl : Releases b s s₂ := by
    rcases when_eq_ok.mp hcancel with ⟨-, rfl⟩ | ⟨-, hcancel⟩
    · exact hlist
    · exact hlist.trans (.of_rb (congrFun (reads_cancelRapl hcancel).2 b))
  exact hrapl.trans (releases_smonDestroyTask hdestroy b)

theorem emits_unregister {pid : Pid} (h : s.exec (.unregister pid) = .ok s') (b : RbId) :
    Emits b s s' := by
  obtain ⟨⟨ret, s₁⟩, hunregister, hs⟩ := bind_eq_ok.mp h
  cases hs
  simp only [smonSchedUnregisterTask, bind_eq_ok] at hunregister
  obtain ⟨found, hfound, hunregister⟩ := hunregister
  cases found with
  | none =>
    cases hunregister
    exact .of_rb rfl
  | some r =>
    obtain ⟨s₂, hs₂, hpair⟩ := bind_eq_ok.mp hunregister
    cases hpair
    obtain ⟨k, hk⟩ := releases_smonSchedUnregister hs₂ b
    have hreads : s'.reads = s.reads := congrArg Prod.snd (hardware_smonSchedUnregister hs₂)
    have hself : Emits b s s := .of_rb rfl
    exact hself.trans_release k hk (Nat.le_of_eq hreads.symm)

/-! ### Registering -/

/-- The posting of a registration that goes through. -/
def Opens (b : RbId) (s : State) (envir : SmonEnvir) (s' : State) : Prop :=
  ∃ p, Posts b s s' p ∧ p.gets = 1 ∧
    p.batch? = if 0 < envir.batchSize then some envir.batchSize else none

theorem rbs_newRoot (pid : Pid) (envir : SmonEnvir) (c b : RbId) :
    (s.newRoot pid envir c).rbs b = if c = b then (s.rbs b).post
      ⟨1, if 0 < envir.batchSize then some envir.batchSize else none, [], 0⟩ else s.rbs b := by
  change ((s.smonGetRb c).setBatch c envir.batchSize).rbs b = _
  unfold setBatch
  by_cases hc : c = b
  · subst hc
    split
    · simp [Rb.post, smonGetRb]
    · simp [Rb.post, smonGetRb]
  · rw [if_neg hc]
    split
    · simp [smonGetRb, Ne.symm hc]
    · simp [smonGetRb, Ne.symm hc]

theorem opens_register {pid : Pid} {envir : SmonEnvir} {alloc : Alloc}
    (h : s.exec (.register me pid envir c alloc) = .ok s') (b : RbId) :
    Emits b s s' ∨ c = b ∧ Opens b s envir s' := by
  obtain ⟨⟨ret, s₁⟩, hregister, hs⟩ := bind_eq_ok.mp h
  cases hs
  rcases register_cases hregister with ⟨-, -, rfl⟩ | ⟨-, -, s₀, rfl, hwait, hstart⟩
  · exact .inl (.of_rb rfl)
  have hroot := rbs_newRoot (s := s) pid envir c b
  have hclock : (s.newRoot pid envir c).clock = s.clock :=
    congrArg Static.clock (setBatch_static (s := s.smonGetRb c) envir.batchSize)
  have hreads : (s.newRoot pid envir c).reads = s.reads := by
    change ((s.smonGetRb c).setBatch c envir.batchSize).reads = _
    unfold setBatch
    split
    · rfl
    · rfl
  -- the INFO record, if the task starts at once
  have hrest : ∃ ws, s'.rbs b = ((s.newRoot pid envir c).rbs b).write ws ∧
      Dated s.clock Sample.stamp? s.reads s'.reads ws ∧ ∀ w ∈ ws, ∃ info, w = .info info := by
    cases hexec : envir.options.onExec with
    | true =>
      rw [hwait hexec]
      exact ⟨[], (Rb.write_nil _).symm, .nil .., by simp⟩
    | false =>
      obtain ⟨s₂, hextra, rfl⟩ := hstart hexec
      obtain ⟨ws, hws, hdated, hinfo⟩ := dated_startExtra hextra b
      change Dated (s.newRoot pid envir c).clock Sample.stamp? (s.newRoot pid envir c).reads _ _
        at hdated
      rw [hclock, hreads] at hdated
      exact ⟨ws, hws, hdated, hinfo⟩
  obtain ⟨ws, hws, hdated, hinfo⟩ := hrest
  have hsample : ∀ w ∈ ws, w ≠ .eof := by
    intro w hw
    obtain ⟨info, rfl⟩ := hinfo w hw
    simp
  have howned : ∀ w ∈ ws, ∀ q, w.pid? = some q → s.Owns b q := by
    intro w hw q hq
    obtain ⟨info, rfl⟩ := hinfo w hw
    cases hq
  by_cases hc : c = b
  · rw [if_pos hc] at hroot
    refine .inr ⟨hc, ⟨1, if 0 < envir.batchSize then some envir.batchSize else none, ws, 0⟩,
      ⟨?_, hsample, hdated, howned⟩, rfl, rfl⟩
    rw [hws, hroot]
    simp [Rb.post, Rb.write]
  · rw [if_neg hc] at hroot
    refine .inl ⟨.only ws, ⟨?_, hsample, hdated, howned⟩, rfl, fun hgets => absurd rfl hgets⟩
    rw [hws, hroot, Rb.post_only]

/-- **Every event makes a posting to every buffer.** Only a registration for the buffer may set its
batch size, or bring its first writer. -/
theorem posts_of_exec {l : Label} (hnamed : s.Named) (h : s.exec l = .ok s') (b : RbId) :
    Emits b s s' ∨
      ∃ me pid envir alloc, l = .register me pid envir b alloc ∧ Opens b s envir s' := by
  cases l with
  | time d =>
    cases h
    exact .inl (.of_rb rfl)
  | count me ctr inc =>
    cases h
    exact .inl (.of_rb rfl)
  | irq me w => exact .inl (.of_rb (congrFun (rbs_irq h) b))
  | tick t => exact .inl (emits_tick h b)
  | raplTick t => exact .inl (emits_raplTick h b)
  | switch me next => exact .inl (emits_switch hnamed h b)
  | migrate p dest => exact .inl (emits_migrate h b)
  | fork parent child pid cpu leader alloc => exact .inl (emits_fork h b)
  | exec p => exact .inl (emits_exec h b)
  | exit p => exact .inl (emits_exit h b)
  | reap p =>
    cases h
    exact .inl (.of_rb rfl)
  | register me pid envir c alloc =>
    rcases opens_register h b with hemits | ⟨rfl, hopens⟩
    · exact .inl hemits
    · exact .inr ⟨me, pid, envir, alloc, rfl, hopens⟩
  | unregister pid => exact .inl (emits_unregister h b)

/-- What an event appends to a buffer is dated, and comes from tasks that have the buffer. -/
theorem log_of_exec {l : Label} (hnamed : s.Named) (hreads : s.reads ≤ s'.reads)
    (h : s.exec l = .ok s') (b : RbId) : ∃ ws, (s'.rbs b).log = (s.rbs b).log ++ ws ∧
      Dated s.clock Sample.stamp? s.reads s'.reads ws ∧
      ∀ w ∈ ws, ∀ q, w.pid? = some q → s.Owns b q := by
  rcases posts_of_exec hnamed h b with ⟨p, hposts, -⟩ | ⟨me, pid, envir, alloc, rfl, p, hposts, -⟩
  · exact hposts.log hreads
  · exact hposts.log hreads

end Functions

end SchedMon
