import SchedMon.Driver.Steering
import SchedMon.Lib.Log

/-!
# Keeping account

What a sample should say is computed here from the history alone: since when it has been running,
when it was first started and last stopped, for how long it ran, and what the counters of its CPU
counted meanwhile. `Account` is that, since the last record of the task.

A task keeps its own numbers, in `sample_pmc` and `tsc_tmp`. Whatever they have to do with the
account, it is enough to look at the three elementary functions: `Tally` is the rule for that. It
holds of tasks that were not registered in the middle of a slice.

## Main definitions

* `Account`, `account` — what the history says
* `Tally` — a relation between a task and its account that sampling keeps
* `Fed` — the account runs while the process does

## Main results

* `Fed.step` — **every stop closes a start, and what `Tally` asks of records holds**
-/

namespace SchedMon

open State

/-! ### Accounts -/

/-- What the history says about the sample of a task since its last record. -/
structure Account where
  /-- The start that has not been stopped: its CPU and its time. -/
  since : Option (Cpu × ℤ)
  first : Option ℤ
  last : Option ℤ
  duration : ℤ
  counts : Counter → ℕ

namespace Account

def zero : Account := ⟨none, none, none, 0, fun _ => 0⟩

/-- How long the sample has been running at `tsc`. -/
def elapsed (a : Account) (tsc : ℤ) : ℤ :=
  match a.since with
  | some (_, b) => tsc - b
  | none => 0

/-- The account of task `t` after one more entry of the history. -/
def step (t : TaskId) (a : Account) : TraceEvent → Account
  | .start u me tsc =>
    if u = t then { a with since := some (me, tsc), first := a.first.or (some tsc) } else a
  | .stop u _ tsc =>
    if u = t then { a with since := none, last := some tsc, duration := a.duration + a.elapsed tsc }
    else a
  | .count me ctr inc =>
    if a.since.any fun x => x.1 = me then
      { a with counts := Function.update a.counts ctr (a.counts ctr + inc) }
    else a
  | .save u _ _ => if u = t then { zero with since := a.since } else a
  | _ => a

end Account

/-- The account of task `t` after a history. -/
def account (t : TaskId) (es : List TraceEvent) : Account := es.foldl (Account.step t) .zero

section Accounts

variable {t : TaskId} {es es' : List TraceEvent} {e : TraceEvent} {a : Account}

theorem account_append : account t (es ++ es') = es'.foldl (Account.step t) (account t es) :=
  List.foldl_append

theorem Account.step_of_foreign (h : e.task? ≠ some t ∧ e.isCount = false) : a.step t e = a := by
  cases e <;> simp_all [Account.step, TraceEvent.task?, TraceEvent.isCount]

/-- What happens to others does not go into the account. -/
theorem account_append_foreign (h : ∀ e ∈ es', e.task? ≠ some t ∧ e.isCount = false) :
    account t (es ++ es') = account t es := by
  rw [account_append]
  induction es' with
  | nil => rfl
  | cons e es' ih =>
    rw [List.foldl_cons, Account.step_of_foreign (h e List.mem_cons_self)]
    exact ih fun e he => h e (List.mem_cons_of_mem _ he)

theorem account_eq_zero (h : ∀ e ∈ es, e.task? ≠ some t) : account t es = .zero := by
  induction es using List.reverseRecOn with
  | nil => rfl
  | append_singleton es e ih =>
    rw [account_append, ih fun e he => h e (List.mem_append_left _ he)]
    have he := h e (by simp)
    cases e <;> simp_all [Account.step, TraceEvent.task?, Account.zero]

/-- A counter that advances touches nothing but the counts. -/
theorem Account.step_count (t : TaskId) (a : Account) (me : Cpu) (ctr : Counter) (inc : ℕ) :
    a.step t (.count me ctr inc) = { a with counts := (a.step t (.count me ctr inc)).counts } := by
  unfold Account.step
  dsimp only
  split <;> rfl

end Accounts

/-! ### Tallies -/

/-- What `P` asks of the entries about task `t`, in view of the account before. -/
def Asked (t : TaskId) (P : Account → TraceEvent → Prop) (pre : List TraceEvent) (e : TraceEvent) :
    Prop :=
  e.task? = some t → P (account t pre) e

/-- A relation `R` between a task and its account that starts, stops and saves keep, and what `P`
asks of their entries. The number is how often the time-stamp counter has been read. -/
structure Tally (t : TaskId) (clock : ℕ → ℤ) (R : ℕ → SmonTask → Account → Prop)
    (P : Account → TraceEvent → Prop) : Prop where
  congr : ∀ n n' task task' a, R n task a → n ≤ n' → task'.samplePmc = task.samplePmc →
    task'.tscTmp = task.tscTmp → R n' task' a
  count : ∀ n task a me ctr inc, R n task a → R n task (a.step t (.count me ctr inc))
  start : ∀ n task a me, R n task a → a.since = none →
    R n (task.started (clock n)) (a.step t (.start t me (clock n))) ∧ P a (.start t me (clock n))
  stop : ∀ n task a me b pmc, R n task a → a.since = some (me, b) →
    R n (task.stopped (clock n) pmc) (a.step t (.stop t me (clock n))) ∧ P a (.stop t me (clock n))
  save : ∀ n task a envir, R n task a → a.since = none → a.last.isSome = true →
    R n (task.saved envir) (a.step t (.save t task.record envir)) ∧ P a (.save t task.record envir)
  sched : ∀ a sample, P a (.sched t sample)

/-- A task and its account are as `R` says, and the entries about it are as `P` asks. -/
structure Audited (t : TaskId) (R : ℕ → SmonTask → Account → Prop) (P : Account → TraceEvent → Prop)
    (n : ℕ) (task : SmonTask) (es : List TraceEvent) : Prop where
  data : R n task (account t es)
  asked : Each (Asked t P) es

section Keeping

variable {t : TaskId} {clock : ℕ → ℤ} {R : ℕ → SmonTask → Account → Prop}
  {P : Account → TraceEvent → Prop} {n n' : ℕ} {task task' : SmonTask} {es es' : List TraceEvent}
  {me : Cpu} {b : ℤ}

theorem account_concat (t : TaskId) (es : List TraceEvent) (e : TraceEvent) :
    account t (es ++ [e]) = (account t es).step t e := account_append

theorem asked_foreign (h : Each (Asked t P) es)
    (hforeign : ∀ e ∈ es', e.task? ≠ some t ∧ e.isCount = false) : Each (Asked t P) (es ++ es') :=
  h.append_of_forall fun e he _ htask => absurd htask (hforeign e he).1

theorem Audited.congr (T : Tally t clock R P) (h : Audited t R P n task es) (hn : n ≤ n')
    (hpmc : task'.samplePmc = task.samplePmc) (htsc : task'.tscTmp = task.tscTmp) :
    Audited t R P n' task' es :=
  ⟨T.congr _ _ _ _ _ h.data hn hpmc htsc, h.asked⟩

theorem Audited.foreign (h : Audited t R P n task es)
    (hforeign : ∀ e ∈ es', e.task? ≠ some t ∧ e.isCount = false) : Audited t R P n task (es ++ es') := by
  refine ⟨?_, asked_foreign h.asked hforeign⟩
  rw [account_append_foreign hforeign]
  exact h.data

theorem Audited.start (T : Tally t clock R P) (h : Audited t R P n task es)
    (hsince : (account t es).since = none) (me : Cpu) :
    Audited t R P n (task.started (clock n)) (es ++ [.start t me (clock n)]) ∧
      (account t (es ++ [.start t me (clock n)])).since = some (me, clock n) := by
  obtain ⟨hdata, hentry⟩ := T.start n task _ me h.data hsince
  rw [account_concat]
  refine ⟨⟨?_, each_concat.mpr ⟨h.asked, fun _ => hentry⟩⟩, ?_⟩
  · rw [account_concat]
    exact hdata
  · simp [Account.step]

theorem Audited.stop (T : Tally t clock R P) (h : Audited t R P n task es)
    (hsince : (account t es).since = some (me, b)) (pmc : SmonPmc) :
    Audited t R P n (task.stopped (clock n) pmc) (es ++ [.stop t me (clock n)]) ∧
      (account t (es ++ [.stop t me (clock n)])).since = none ∧
      (account t (es ++ [.stop t me (clock n)])).last.isSome = true := by
  obtain ⟨hdata, hentry⟩ := T.stop n task _ me b pmc h.data hsince
  rw [account_concat]
  refine ⟨⟨?_, each_concat.mpr ⟨h.asked, fun _ => hentry⟩⟩, ?_, ?_⟩
  · rw [account_concat]
    exact hdata
  · simp [Account.step]
  · simp [Account.step]

theorem Audited.save (T : Tally t clock R P) (h : Audited t R P n task es)
    (hsince : (account t es).since = none) (hlast : (account t es).last.isSome = true)
    (envir : SmonEnvir) :
    Audited t R P n (task.saved envir) (es ++ [.save t task.record envir]) ∧
      (account t (es ++ [.save t task.record envir])).since = none := by
  obtain ⟨hdata, hentry⟩ := T.save n task _ envir h.data hsince hlast
  rw [account_concat]
  refine ⟨⟨?_, each_concat.mpr ⟨h.asked, fun _ => hentry⟩⟩, ?_⟩
  · rw [account_concat]
    exact hdata
  · simp [Account.step, hsince]

theorem Audited.sched (T : Tally t clock R P) (h : Audited t R P n task es) (sample : SampleSched) :
    Audited t R P n task (es ++ [.sched t sample]) := by
  refine ⟨?_, each_concat.mpr ⟨h.asked, fun _ => T.sched _ sample⟩⟩
  rw [account_concat]
  exact h.data

/-- A sample is taken. -/
theorem Audited.taken (T : Tally t clock R P) (h : Audited t R P n task es)
    (hsince : (account t es).since = some (me, b)) (envir : SmonEnvir) (pmc : SmonPmc) :
    Audited t R P n (task.taken envir (clock n) pmc)
        (es ++ [.stop t me (clock n), .save t (task.stopped (clock n) pmc).record envir]) ∧
      (account t (es ++ [.stop t me (clock n),
        .save t (task.stopped (clock n) pmc).record envir])).since = none := by
  obtain ⟨hstop, hnone, hlast⟩ := h.stop T hsince pmc
  have hsave := hstop.save T hnone hlast envir
  rw [List.append_assoc] at hsave
  exact hsave

/-- A task is switched out with its timer active. -/
theorem Audited.left (T : Tally t clock R P) (h : Audited t R P n task es)
    (hsince : (account t es).since = some (me, b)) (envir : SmonEnvir) (now tsc : ℤ)
    (pmc : SmonPmc) :
    Audited t R P n ((task.stopped (clock n) pmc).left envir now tsc)
        (es ++ .stop t me (clock n) :: (task.stopped (clock n) pmc).leftEvents t envir now tsc) ∧
      (account t (es ++ .stop t me (clock n) ::
        (task.stopped (clock n) pmc).leftEvents t envir now tsc)).since = none := by
  have hleft : ∀ x : SmonTask, (x.schedOut envir tsc).samplePmc = x.samplePmc ∧
      (x.schedOut envir tsc).tscTmp = x.tscTmp := by
    intro x
    unfold SmonTask.schedOut
    split <;> exact ⟨rfl, rfl⟩
  obtain ⟨hstop, hnone, hlast⟩ := h.stop T hsince pmc
  have hdue : Audited t R P n ((task.stopped (clock n) pmc).left envir now tsc)
        (es ++ .stop t me (clock n) :: if (task.stopped (clock n) pmc).expired now then
          [.save t (task.stopped (clock n) pmc).record envir] else []) ∧
      (account t (es ++ .stop t me (clock n) :: if (task.stopped (clock n) pmc).expired now then
        [.save t (task.stopped (clock n) pmc).record envir] else [])).since = none := by
    unfold SmonTask.left SmonTask.kept
    cases hdue : (task.stopped (clock n) pmc).expired now with
    | false =>
      simp only [Bool.false_eq_true, if_false]
      exact ⟨hstop.congr T (Nat.le_refl n) (hleft _).1 (hleft _).2, hnone⟩
    | true =>
      simp only [if_true]
      obtain ⟨htaken, hsince'⟩ := h.taken T hsince envir pmc
      exact ⟨htaken.congr T (Nat.le_refl n) (hleft _).1 (hleft _).2, hsince'⟩
  unfold SmonTask.leftEvents
  rw [← List.cons_append, ← List.append_assoc]
  by_cases hsched : envir.options.sched = true
  · rw [if_pos hsched, account_concat]
    exact ⟨hdue.1.sched T _, hdue.2⟩
  · rw [if_neg hsched, List.append_nil]
    exact hdue

end Keeping

/-! ### Feeding -/

/-- The event set that the task is at does not exist. -/
def State.Starved (s : State) (t : TaskId) : Prop :=
  ∃ task, s.tasks t = some task ∧ ∀ envir, s.envirs task.envir = some envir →
    smonGetEvset s.evsets (envir.esids task.evset) = none

/-- The account of a task runs where its process does, unless the start of that is pending, or the
event set does not exist; and nowhere else. -/
structure Fed (R : ℕ → SmonTask → Account → Prop) (P : Account → TraceEvent → Prop) (t : TaskId)
    (s : State) : Prop where
  since : ∀ c b, (account t s.trace).since = some (c, b) → s.RunsOn t c ∧
    ∀ c, (c, .startTimer t) ∉ s.requests t
  runs : ∀ c, s.RunsOn t c → (c, .startTimer t) ∈ s.requests t ∨
    (account t s.trace).since.isSome = true ∨ s.Starved t
  kept : ∀ task, s.tasks t = some task → Audited t R P s.reads task s.trace

section Feeding

variable {t : TaskId} {R : ℕ → SmonTask → Account → Prop} {P : Account → TraceEvent → Prop}
  {s s' : State} {l : Label} {task task' : SmonTask} {p : Proc} {ring : TaskId → List TaskId}

/-- A starved task that is left alone stays so. -/
theorem State.Starved.step (h : s.Starved t) (hforest : Forest s.book ring) (hstep : s.exec l = .ok s')
    (htask : s.tasks t = some task) (htask' : s'.tasks t = some task')
    (henvir : task'.envir = task.envir) (hevset : task'.evset = task.evset)
    (hevsets : s'.evsets = s.evsets) : s'.Starved t := by
  obtain ⟨x, hx, hnone⟩ := h
  obtain rfl := Option.some_inj.mp (hx.symm.trans htask)
  refine ⟨task', htask', fun envir' henvir' => ?_⟩
  rw [henvir] at henvir'
  obtain ⟨envir, he, hconfig⟩ := exists_config hforest hstep htask henvir'
  have hesids := congrArg SmonEnvir.esids hconfig
  change envir'.esids = envir.esids at hesids
  rw [hevset, hevsets, hesids]
  exact hnone envir he

/-- Somebody who looks up the event set of a starved task finds none. -/
theorem State.Starved.get_eq_none {envir : SmonEnvir} (h : s.Starved t) (htask : s.tasks t = some task)
    (henvir : s.envirs task.envir = some envir) :
    smonGetEvset s.evsets (envir.esids task.evset) = none := by
  obtain ⟨x, hx, hnone⟩ := h
  obtain rfl := Option.some_inj.mp (hx.symm.trans htask)
  exact hnone envir henvir

/-- The account of a task whose process runs, and whose event set is there, runs. -/
theorem Fed.exists_since {me : Cpu} {envir : SmonEnvir} {evset : SmonEvset} (h : Fed R P t s)
    (hruns : s.RunsOn t me) (hpending : (me, .startTimer t) ∉ s.requests t)
    (htask : s.tasks t = some task) (henvir : s.envirs task.envir = some envir)
    (hget : smonGetEvset s.evsets (envir.esids task.evset) = some evset) :
    ∃ b, (account t s.trace).since = some (me, b) := by
  rcases h.runs me hruns with hmem | hsome | hstarved
  · exact absurd hmem hpending
  · obtain ⟨⟨c, b⟩, hsince⟩ := Option.isSome_iff_exists.mp hsome
    obtain rfl : c = me := RunsOn.unique (h.since c b hsince).1 hruns
    exact ⟨b, hsince⟩
  · rw [hstarved.get_eq_none htask henvir] at hget
    cases hget

/-- The account of a task whose process does not run, stands still. -/
theorem Fed.since_eq_none (h : Fed R P t s) (hout : ∀ c, ¬ s.RunsOn t c) :
    (account t s.trace).since = none := by
  cases hsince : (account t s.trace).since with
  | none => rfl
  | some x => exact absurd (h.since x.1 x.2 hsince).1 (hout x.1)

/-- What a task has after an event that leaves its sample alone, and its account. -/
theorem Fed.of_same (T : Tally t s.clock R P) (h : Fed R P t s) (htask : s.tasks t = some task)
    (htask' : s'.tasks t = some task') (hpmc : task'.samplePmc = task.samplePmc)
    (htsc : task'.tscTmp = task.tscTmp) (hreads : s.reads ≤ s'.reads)
    (hruns : ∀ c, s'.RunsOn t c ↔ s.RunsOn t c)
    (hrequests : ∀ c, (c, .startTimer t) ∈ s'.requests t ↔ (c, .startTimer t) ∈ s.requests t)
    (hstarved : s.Starved t → s'.Starved t)
    (htrace : ∃ es, s'.trace = s.trace ++ es ∧ ∀ e ∈ es, e.task? ≠ some t ∧ e.isCount = false) :
    Fed R P t s' := by
  obtain ⟨es, hes, hforeign⟩ := htrace
  have haccount : account t s'.trace = account t s.trace := by rw [hes, account_append_foreign hforeign]
  constructor
  case since =>
    intro c b hsince
    rw [haccount] at hsince
    obtain ⟨hc, hnone⟩ := h.since c b hsince
    exact ⟨(hruns c).mpr hc, fun c' hc' => hnone c' ((hrequests c').mp hc')⟩
  case runs =>
    intro c hc
    rw [haccount]
    rcases h.runs c ((hruns c).mp hc) with hmem | hsome | hs
    · exact .inl ((hrequests c).mpr hmem)
    · exact .inr (.inl hsome)
    · exact .inr (.inr (hstarved hs))
  case kept =>
    intro x hx
    obtain rfl := Option.some_inj.mp (hx.symm.trans htask')
    rw [hes]
    exact ((h.kept task htask).foreign hforeign).congr T hreads hpmc htsc

/-- A task that does not run afterwards, with its account standing still. -/
theorem Fed.of_still (hleft : ∀ c, ¬ s'.RunsOn t c) (hsince : (account t s'.trace).since = none)
    (hkept : ∀ task, s'.tasks t = some task → Audited t R P s'.reads task s'.trace) : Fed R P t s' := by
  refine ⟨fun c b h => ?_, fun c hc => absurd hc (hleft c), hkept⟩
  rw [hsince] at h
  cases h

/-- A task that runs afterwards, with its account running. -/
theorem Fed.of_running {me : Cpu} {b : ℤ} (hruns : s'.RunsOn t me)
    (hpending : ∀ c, (c, .startTimer t) ∉ s'.requests t)
    (hsince : (account t s'.trace).since = some (me, b))
    (hkept : ∀ task, s'.tasks t = some task → Audited t R P s'.reads task s'.trace) : Fed R P t s' := by
  refine ⟨fun c b h => ?_, fun c _ => .inr (.inl (by rw [hsince]; rfl)), hkept⟩
  rw [hsince, Option.some_inj, Prod.mk.injEq] at h
  rw [← h.1]
  exact ⟨hruns, hpending⟩

/-- A task that was called for, and could not be started. -/
theorem Fed.of_starved (hsince : (account t s'.trace).since = none) (hstarved : s'.Starved t)
    (hkept : ∀ task, s'.tasks t = some task → Audited t R P s'.reads task s'.trace) : Fed R P t s' := by
  refine ⟨fun c b h => ?_, fun c _ => .inr (.inr hstarved), hkept⟩
  rw [hsince] at h
  cases h

/-- A call that ends a slice. -/
theorem Fed.of_done {n : ℕ} {es : List TraceEvent} {mid : State} (T : Tally t s.clock R P)
    (haside : Aside t mid s') (hkept : Audited t R P n task (s.trace ++ es))
    (hstill : (account t (s.trace ++ es)).since = none) (htrace : mid.trace = s.trace ++ es)
    (hreads : n ≤ mid.reads) (htask' : s'.tasks t = some task') (hpmc : task'.samplePmc = task.samplePmc)
    (htsc : task'.tscTmp = task.tscTmp) (hleft : ∀ c, ¬ s'.RunsOn t c) : Fed R P t s' := by
  obtain ⟨es', hes, hforeign⟩ := haside.trace
  rw [htrace] at hes
  refine .of_still hleft (by rw [hes, account_append_foreign hforeign, hstill]) fun x hx => ?_
  obtain rfl := Option.some_inj.mp (hx.symm.trans htask')
  rw [hes]
  exact (hkept.foreign hforeign).congr T (Nat.le_trans hreads haside.reads) hpmc htsc

/-- A new task has nothing in its account. -/
theorem Fed.of_born (hborn : Born s.fresh p s s') (hunborn : s.Unborn)
    (hzero : ∀ pid task, task.samplePmc = { SamplePmc.zero with pid := pid } →
      R s'.reads task .zero) (hleft : ∀ c, ¬ s'.RunsOn s.fresh c) : Fed R P s.fresh s' := by
  obtain ⟨pid, e, b, extra, task, htask, hagrees⟩ := hborn.exists_task
  obtain ⟨-, -, _, _, _, _, haside⟩ := hborn
  obtain ⟨es, hes, hforeign⟩ := haside.trace
  replace hes : s'.trace = s.trace ++ es := hes
  have hold := (hunborn s.fresh (Nat.le_refl _)).2
  have haccount : account s.fresh s'.trace = .zero := by
    rw [hes, account_append_foreign hforeign, account_eq_zero hold]
  refine .of_still hleft (by rw [haccount]; rfl) fun x hx => ⟨?_, ?_⟩
  · obtain rfl := Option.some_inj.mp (hx.symm.trans htask)
    rw [haccount]
    exact hzero pid _ hagrees.samplePmc
  · rw [hes]
    refine asked_foreign (Each.append_of_forall each_nil fun e he _ htask => ?_) hforeign
    exact absurd htask (hold e he)

/-- The account keeps running with its process, and its task as it should be. -/
theorem Fed.step (T : Tally t s.clock R P) (h : Fed R P t s) (hsteered : Steered t s)
    (hsteered' : Steered t s') (hforest : Forest s.book ring) (hstep : s.exec l = .ok s')
    (hlt : t < s.fresh) (hcourse : Course t s l s') (htask : s.tasks t = some task)
    (htask' : s'.tasks t = some task') : Fed R P t s' := by
  have hkept := h.kept task htask
  have hstarved' : task'.envir = task.envir → task'.evset = task.evset → s'.evsets = s.evsets →
      s.Starved t → s'.Starved t := fun henvir hevset hevsets hs =>
    hs.step hforest hstep htask htask' henvir hevset hevsets
  cases hcourse with
  | aside hidle haside hruns =>
    obtain ⟨x, hx, hagrees⟩ := haside.task_before htask'
    obtain rfl := Option.some_inj.mp (hx.symm.trans htask)
    refine h.of_same T htask htask' hagrees.samplePmc hagrees.tscTmp haside.reads hruns ?_
      (hstarved' hagrees.envir hagrees.evset haside.evsets) haside.trace
    intro c
    rw [haside.requests]
  | time d =>
    refine h.of_same T htask htask' ?_ ?_ (Nat.le_refl _) (fun c => Iff.rfl) (fun c => Iff.rfl) id
      ⟨[], by simp⟩
    · rw [Option.some_inj.mp (htask'.symm.trans htask)]
    · rw [Option.some_inj.mp (htask'.symm.trans htask)]
  | count me ctr inc =>
    have htrace : ∀ x : State, (x.record (.count me ctr inc)).trace = x.trace ++ [.count me ctr inc] :=
      fun _ => rfl
    have hsince : (account t (s.trace ++ [.count me ctr inc])).since = (account t s.trace).since := by
      rw [account_concat, Account.step_count]
    refine ⟨fun c b hcb => h.since c b ?_, fun c hc => ?_, fun x hx => ?_⟩
    · rw [← hsince]
      exact hcb
    · rcases h.runs c hc with hmem | hsome | hs
      · exact .inl hmem
      · refine .inr (.inl ?_)
        rw [htrace]
        exact hsince ▸ hsome
      · exact .inr (.inr hs)
    · obtain rfl := Option.some_inj.mp (htask.symm.trans hx)
      rw [htrace]
      refine ⟨?_, each_concat.mpr ⟨hkept.asked, fun heq => ?_⟩⟩
      · rw [account_concat]
        exact T.count _ _ _ _ _ _ hkept.data
      · cases heq
  | @start me s' hpending hstart hruns =>
    have hmem := mem_requests_start.mpr hpending
    have hnone : (account t s.trace).since = none := by
      cases hsince : (account t s.trace).since with
      | none => rfl
      | some x => exact absurd hmem ((h.since x.1 x.2 hsince).2 me)
    obtain ⟨x, envir, hx, henvir, ⟨hget, hcall⟩ | ⟨evset, hget, hcall⟩⟩ := call_start hstart
    · obtain rfl := Option.some_inj.mp (hx.symm.trans htask)
      obtain rfl := Option.some_inj.mp (htask'.symm.trans hcall.after)
      have htrace := hcall.trace.trans (List.append_nil _)
      have henvirs : s'.envirs = s.envirs := congrArg Static.envirs hcall.static
      have hevsets : s'.evsets = s.evsets := congrArg Static.evsets hcall.static
      refine .of_starved (by rw [htrace]; exact hnone) ⟨_, htask', fun envir' henvir' => ?_⟩ fun y hy => ?_
      · rw [henvirs] at henvir'
        obtain rfl := Option.some_inj.mp (henvir.symm.trans henvir')
        rw [hevsets]
        exact hget
      · obtain rfl := Option.some_inj.mp (hy.symm.trans htask')
        rw [htrace]
        exact hkept.congr T hcall.reads rfl rfl
    · obtain rfl := Option.some_inj.mp (hx.symm.trans htask)
      obtain rfl := Option.some_inj.mp (htask'.symm.trans hcall.after)
      have harmed : Audited t R P s.reads (x.armed envir me s.now) s.trace :=
        hkept.congr T (Nat.le_refl _) rfl rfl
      obtain ⟨hstarted, hsince⟩ := harmed.start T hnone me
      refine .of_running ((hruns me).mpr (hsteered.pending me hmem))
        (hsteered'.armed _ htask' rfl rfl).2 (by rw [hcall.trace]; exact hsince) fun y hy => ?_
      obtain rfl := Option.some_inj.mp (hy.symm.trans htask')
      rw [hcall.trace]
      exact hstarted.congr T hcall.reads rfl rfl
  | @stop me s' hpending hstop hruns =>
    obtain ⟨x, hx, hcall, -⟩ := call_stopTimerPmc me hstop
    obtain rfl := Option.some_inj.mp (hx.symm.trans htask)
    obtain rfl := Option.some_inj.mp (htask'.symm.trans hcall.after)
    have hevsets : s'.evsets = s.evsets := congrArg Static.evsets hcall.static
    refine h.of_same T htask htask' rfl rfl hcall.reads hruns ?_ (hstarved' rfl rfl hevsets)
      ⟨[], hcall.trace, by simp⟩
    intro c
    rw [requests_of_call hcall, requests_erase]
    refine ⟨List.mem_of_mem_erase, fun hmem => (List.mem_erase_of_ne ?_).mpr hmem⟩
    simp
  | @tick task₀ s' htask₀ hdue htick hruns =>
    obtain rfl := Option.some_inj.mp (htask₀.symm.trans htask)
    cases hflags : task₀.timerFlags with
    | false =>
      obtain ⟨hcall, -⟩ := call_smonSchedTimerTick_off 0 htask hflags htick
      obtain rfl := Option.some_inj.mp (htask'.symm.trans hcall.after)
      have hevsets : s'.evsets = s.evsets := congrArg Static.evsets hcall.static
      refine h.of_same T htask htask' rfl rfl hcall.reads hruns ?_ (hstarved' rfl rfl hevsets)
        ⟨[], hcall.trace, by simp⟩
      intro c
      rw [requests_of_call hcall]
    | true =>
      have hactive : task₀.timer.active = true := by
        rw [Hrtimer.due, Bool.and_eq_true] at hdue
        exact hdue.1
      obtain ⟨hruns₀, hnone⟩ := hsteered.armed task₀ htask hactive hflags
      obtain ⟨envir, evset, tsc, pmc, next, henvir, hget, -, rfl, -, rfl, hrest⟩ :=
        call_tick htask hflags htick
      obtain ⟨b, hsince⟩ := h.exists_since hruns₀ (hnone _) htask henvir hget
      obtain ⟨htaken, hstill⟩ := hkept.taken T hsince envir pmc
      rcases hrest with ⟨hget', hcall⟩ | ⟨evset', -, hreads, hcall⟩
      · obtain rfl := Option.some_inj.mp (htask'.symm.trans hcall.after)
        have henvirs : s'.envirs = s.envirs := congrArg Static.envirs hcall.static
        have hevsets : s'.evsets = s.evsets := congrArg Static.evsets hcall.static
        refine .of_starved (by rw [hcall.trace]; exact hstill) ⟨_, htask', fun envir' henvir' => ?_⟩
          fun y hy => ?_
        · rw [henvirs] at henvir'
          obtain rfl := Option.some_inj.mp (henvir.symm.trans henvir')
          rw [hevsets]
          exact hget'
        · obtain rfl := Option.some_inj.mp (hy.symm.trans htask')
          rw [hcall.trace]
          exact htaken.congr T hcall.reads rfl rfl
      · obtain rfl := Option.some_inj.mp (htask'.symm.trans hcall.after)
        have hforwarded : Audited t R P (s.reads + 1)
            ((task₀.taken envir (s.clock s.reads) pmc).forwarded envir s.now) _ :=
          htaken.congr T (Nat.le_succ _) rfl rfl
        obtain ⟨hstarted, hsince'⟩ := hforwarded.start T hstill task₀.timer.cpu
        rw [List.append_assoc] at hstarted hsince'
        have hpending : ∀ c, (c, .startTimer t) ∉ s'.requests t := fun c => by
          rw [requests_of_call hcall]
          exact hnone c
        refine .of_running ((hruns _).mpr hruns₀) hpending (by rw [hcall.trace]; exact hsince')
          fun y hy => ?_
        obtain rfl := Option.some_inj.mp (hy.symm.trans htask')
        rw [hcall.trace]
        exact hstarted.congr T hreads rfl rfl
  | @out me next mid s' hprompt hruns hout haside hleft =>
    obtain ⟨x, envir, evset, tsc, pmc, hx, henvir, hget, rfl, -, hoff, hon⟩ := call_out hout
    obtain rfl := Option.some_inj.mp (hx.symm.trans htask)
    obtain ⟨b, hsince⟩ := h.exists_since hruns (hsteered.not_pending hruns hprompt _) htask henvir hget
    obtain ⟨es, hes, hforeign⟩ := haside.trace
    obtain ⟨y, hy, hagrees⟩ := haside.task_before htask'
    cases hactive : x.timer.active with
    | false =>
      have hcall := hoff hactive
      obtain rfl := Option.some_inj.mp (hy.symm.trans hcall.after)
      obtain ⟨hstop, hstill, -⟩ := hkept.stop T hsince pmc
      exact .of_done T haside hstop hstill hcall.trace hcall.reads htask' hagrees.samplePmc
        hagrees.tscTmp hleft
    | true =>
      obtain ⟨hcall, -⟩ := hon hactive
      obtain rfl := Option.some_inj.mp (hy.symm.trans hcall.after)
      obtain ⟨hstop, hstill⟩ := hkept.left T hsince envir s.now (s.clock (s.reads + 1)) pmc
      exact .of_done T haside hstop hstill hcall.trace hcall.reads htask' hagrees.samplePmc
        hagrees.tscTmp hleft
  | @enter l me s₁ s₂ s' hprompt hl hout h₁ henvirs hin h₂ hmsr hruns =>
    have hnone := (hsteered.of_not_runsOn hout).1
    have hsince := h.since_eq_none hout
    obtain ⟨x, envir, hx, henvir, hcall⟩ := call_in hin
    obtain ⟨y, hy, hagrees₂⟩ := h₂.task_before htask'
    obtain ⟨z, hz, hagrees₁⟩ := h₁.task_before hx
    obtain rfl := Option.some_inj.mp (hz.symm.trans htask)
    obtain ⟨es₁, hes₁, hforeign₁⟩ := h₁.trace
    obtain ⟨es₂, hes₂, hforeign₂⟩ := h₂.trace
    have hsince₁ : (account t s₁.trace).since = none := by
      rw [hes₁, account_append_foreign hforeign₁, hsince]
    have hkept₁ : Audited t R P s₁.reads x s₁.trace := by
      rw [hes₁]
      exact (hkept.foreign hforeign₁).congr T h₁.reads hagrees₁.samplePmc hagrees₁.tscTmp
    have hentered : ∀ tsc, (x.entered envir me tsc).samplePmc = x.samplePmc ∧
        (x.entered envir me tsc).tscTmp = x.tscTmp ∧ (x.entered envir me tsc).envir = x.envir ∧
        (x.entered envir me tsc).evset = x.evset := fun tsc => by
      unfold SmonTask.entered
      split <;> exact ⟨rfl, rfl, rfl, rfl⟩
    rcases hcall with ⟨-, hcall, -⟩ | ⟨-, ⟨hget, hcall⟩ | ⟨evset, n, -, hle, hle', hcall⟩⟩
    · -- the start is pending
      obtain rfl := Option.some_inj.mp (hy.symm.trans hcall.after)
      have htrace : s'.trace = s₁.trace ++ es₂ := by rw [hes₂, hcall.trace, List.append_nil]
      have hsince' : (account t s'.trace).since = none := by
        rw [htrace, account_append_foreign hforeign₂, hsince₁]
      have hrequests := h₂.requests.trans (requests_of_call_queue hcall (.inl rfl))
      refine ⟨fun c b hcb => ?_, fun c hc => ?_, fun w hw => ?_⟩
      · rw [hsince'] at hcb
        cases hcb
      · obtain rfl := (hruns c).mp hc
        rw [hrequests, h₁.requests]
        exact .inl (mem_queued_self fun c' => hnone c')
      · obtain rfl := Option.some_inj.mp (hw.symm.trans htask')
        rw [htrace]
        refine (hkept₁.foreign hforeign₂).congr T (Nat.le_trans hcall.reads h₂.reads) ?_ ?_
        · exact hagrees₂.samplePmc.trans (hentered _).1
        · exact hagrees₂.tscTmp.trans (hentered _).2.1
    · obtain rfl := Option.some_inj.mp (hy.symm.trans hcall.after)
      have hstarved : s.Starved t := by
        refine ⟨z, htask, fun envir' henvir' => ?_⟩
        rw [henvirs, hagrees₁.envir] at henvir
        obtain rfl := Option.some_inj.mp (henvir.symm.trans henvir')
        rw [← h₁.evsets, ← hagrees₁.evset]
        exact hget
      have htrace : s'.trace = s₁.trace ++ es₂ := by rw [hes₂, hcall.trace, List.append_nil]
      have hevsets : s'.evsets = s.evsets :=
        (h₂.evsets.trans (congrArg Static.evsets hcall.static)).trans h₁.evsets
      refine .of_starved ?_ (hstarved' ?_ ?_ hevsets hstarved) fun w hw => ?_
      · rw [htrace, account_append_foreign hforeign₂, hsince₁]
      · exact hagrees₂.envir.trans ((hentered _).2.2.1.trans hagrees₁.envir)
      · exact hagrees₂.evset.trans ((hentered _).2.2.2.trans hagrees₁.evset)
      · obtain rfl := Option.some_inj.mp (hw.symm.trans htask')
        rw [htrace]
        refine (hkept₁.foreign hforeign₂).congr T (Nat.le_trans hcall.reads h₂.reads) ?_ ?_
        · exact hagrees₂.samplePmc.trans (hentered _).1
        · exact hagrees₂.tscTmp.trans (hentered _).2.1
    · obtain rfl := Option.some_inj.mp (hy.symm.trans hcall.after)
      have hentered' : Audited t R P n (x.entered envir me (s₁.clock s₁.reads)) s₁.trace :=
        hkept₁.congr T hle (hentered _).1 (hentered _).2.1
      rw [h₁.clock] at hcall hentered' hagrees₂
      obtain ⟨hstarted, hsince'⟩ := hentered'.start T hsince₁ me
      have htrace : s'.trace = s₁.trace ++ [.start t me (s.clock n)] ++ es₂ := by rw [hes₂, hcall.trace]
      have hrequests := (h₂.requests.trans (requests_of_call hcall)).trans h₁.requests
      have hend : (account t s'.trace).since = some (me, s.clock n) := by
        rw [htrace, account_append_foreign hforeign₂, hsince']
      refine .of_running ((hruns me).mpr rfl) (fun c => by rw [hrequests]; exact hnone c) hend
        fun w hw => ?_
      obtain rfl := Option.some_inj.mp (hw.symm.trans htask')
      rw [htrace]
      exact (hstarted.foreign hforeign₂).congr T (Nat.le_trans hle' h₂.reads) hagrees₂.samplePmc
        hagrees₂.tscTmp
  | @exit p me task₀ s₀ s₁ s' hprompt hruns htask₀ hp hstop hsave hdeparted hleft =>
    obtain rfl := Option.some_inj.mp (htask₀.symm.trans htask)
    obtain ⟨envir, evset, tsc, pmc, henvir, hget, -, rfl, -, hcall⟩ := call_exit htask₀ hstop hsave
    obtain ⟨b, hsince⟩ := h.exists_since hruns (hsteered.not_pending hruns hprompt _) htask henvir hget
    obtain ⟨htaken, hstill⟩ := hkept.taken T hsince envir pmc
    obtain ⟨x, hx, haside⟩ := hdeparted
    obtain rfl := Option.some_inj.mp (hx.symm.trans hcall.after)
    obtain ⟨y, hy, hagrees⟩ := haside.exists_task (Function.update_self ..)
    obtain rfl := Option.some_inj.mp (hy.symm.trans htask')
    exact .of_done T haside htaken hstill hcall.trace hcall.reads htask' hagrees.samplePmc
      hagrees.tscTmp hleft
  | leave hout hdeparted hleft =>
    have hsince := h.since_eq_none hout
    obtain ⟨x, hx, haside⟩ := hdeparted
    obtain rfl := Option.some_inj.mp (hx.symm.trans htask)
    obtain ⟨y, hy, hagrees⟩ := haside.exists_task (Function.update_self ..)
    obtain rfl := Option.some_inj.mp (hy.symm.trans htask')
    have hnil : s.trace = s.trace ++ [] := (List.append_nil _).symm
    rw [hnil] at hkept hsince
    exact .of_done T haside hkept hsince hnil (Nat.le_refl _) htask' hagrees.samplePmc
      hagrees.tscTmp hleft
  | new hcomes hborn => exact absurd hlt (hborn.1 ▸ Nat.lt_irrefl _)
  | gone _ hgone htrace => exact absurd (hgone.symm.trans htask') (by simp)

end Feeding

end SchedMon
