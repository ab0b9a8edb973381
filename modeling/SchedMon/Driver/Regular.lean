import SchedMon.Driver.Pace

/-!
# Sampling and preemption

The samples of a task are those of its time on CPUs: one for every round of the sample time, and one
for what is left at the exit. How that time was cut into slices cannot be told from them.

This needs that the hooks find the task. Of two tasks for one process they find one, and the timer of
the other goes on while the process does not run.

## Main definitions

* `Regular` — a record for every round, and one for what is left at the exit

## Main results

* `regular_of_run` — **sampling does not depend on how the time is cut into slices**
* `not_regular_twice` — a process with two tasks
-/

namespace SchedMon

open State

/-- There is a record for every round of length `S` that a task has run, with the event sets going
around, and at most one round is without. -/
def Regular (S : ℤ) (n : ℕ) (task : SmonTask) (g : Progress) : Prop :=
  if task.p.isSome then
    ∃ k : ℕ, k * S ≤ g.time ∧ g.time ≤ (k + 1) * S ∧ g.records = rounds S n k ∧ task.evset = k % n
  else Ended S n g

/-- All rounds of a task, as if it ended now. -/
def Progress.cuts (task : SmonTask) (g : Progress) : List (ℕ × ℤ) :=
  if task.p.isSome then g.records ++ [(task.evset, g.time)] else g.records

section Runs

variable {s s' s₀ : State} {t : TaskId} {l : Label} {ls : List Label} {task : SmonTask} {g : Progress}
  {S : ℤ} {n : ℕ} {envir : SmonEnvir}

/-- **What has been cut off a task** depends on nothing but the time. -/
theorem Regular.trimmed_cuts (h : Regular S n task g) (hS : 0 < S) :
    trimmed (g.cuts task) = pieces S n g.time := by
  unfold Regular at h
  unfold Progress.cuts
  split at h
  · obtain ⟨k, hle, hle', hrecords, hevset⟩ := h
    rename_i hp
    rw [if_pos hp, hrecords, hevset]
    exact trimmed_rounds hS hle hle'
  · rename_i hp
    rw [if_neg hp]
    rcases h with ⟨k, hle, hle', hrecords⟩ | ⟨hrecords, htime⟩
    · rw [hrecords]
      exact trimmed_rounds hS hle hle'
    · rw [hrecords, htime]
      simp [trimmed, lastCut, pieces]

/-- What holds of a task at any time: it is in a round, or it has ended. -/
def State.Paced (t : TaskId) (x : State × Progress) : Prop :=
  ∀ task envir, x.1.tasks t = some task → x.1.envirs task.envir = some envir →
    envir.sampleTime.toNat ≤ 4294 →
      if task.p.isSome then (t ∈ x.1.waitList → x.2.time = 0) ∧
        ∃ k, task.Paced envir.round envir.nEsids.toNat x.1.now x.2 k
      else Ended envir.round envir.nEsids.toNat x.2

/-- A new task is at the beginning of its first round. -/
theorem State.Paced.of_born {p : Proc} (hborn : Born s.fresh p s s') :
    State.Paced s.fresh (s', .zero) := by
  intro task envir htask henvir hms
  obtain ⟨pid, e, b, extra, x, hx, hagrees⟩ := hborn.exists_task
  obtain rfl := Option.some_inj.mp (hx.symm.trans htask)
  have hp : x.p.isSome = true := by rw [hagrees.p]; rfl
  rw [if_pos hp]
  refine ⟨fun _ => rfl, 0, rfl, ?_, ?_, fun hon => ?_, fun _ => ?_⟩
  · rw [Nat.zero_mod]
    exact hagrees.evset
  · simp [Progress.zero]
  · have hactive := hon.1
    rw [hagrees.timer] at hactive
    cases hactive
  · have hremain : x.ktRemain = 0 := hagrees.ktRemain
    rw [hremain, if_pos (Int.le_refl 0)]
    simp [Progress.zero]

/-- What holds of the systems that the task is in, holds after a step. -/
theorem State.Paced.step (h : State.Paced t (s, g)) (hworld : s.World) (hsteered : Steered t s)
    (hpunctual : Punctual t s) (hpos : ∀ e envir, s.envirs e = some envir → 0 < envir.sampleTime.toNat)
    (hstep : PunctualStep t s l s') (hideal : s.Ideal t l) (hcourse : Course t s l s')
    (htask : s.tasks t = some task) : State.Paced t (s', g.write t s l s') := by
  intro task' envir' htask' henvir' hms
  obtain ⟨ring, hforest⟩ := hworld.forest
  have hlt := lt_fresh_of_tasks hforest htask
  change s'.envirs task'.envir = some envir' at henvir'
  have hsame : task'.envir = task.envir := envir_of_step hforest hstep.step.2 htask htask'
  rw [hsame] at henvir'
  obtain ⟨envir, henvir, hconfig⟩ := exists_config hforest hstep.step.2 htask henvir'
  have htime := congrArg SmonEnvir.sampleTime hconfig
  have hesids := congrArg SmonEnvir.nEsids hconfig
  change envir'.sampleTime = envir.sampleTime at htime
  change envir'.nEsids = envir.nEsids at hesids
  have hround : envir'.round = envir.round := by rw [SmonEnvir.round, htime, SmonEnvir.round]
  rw [htime] at hms
  rw [hround, hesids]
  have hbefore := h task envir htask henvir hms
  have hmsToNs : msToNs envir.sampleTime = envir.round := (msToNs_eq_iff _).mpr hms
  have hS : 0 < envir.round := by
    have hsample := hpos _ envir henvir
    rw [SmonEnvir.round]
    omega
  cases hp : task.p.isSome with
  | true =>
    rw [if_pos hp] at hbefore
    obtain ⟨hwait, k, hpaced⟩ := hbefore
    rcases hpaced.step hS hmsToNs rfl henvir hsteered hpunctual hworld hstep hideal hcourse htask htask' hp
      hwait with ⟨hp', hpaced'⟩ | ⟨hp', hended⟩
    · rw [if_pos (hp' ▸ hp)]
      refine ⟨fun hmem => ?_, hpaced'⟩
      have hmem' := mem_waitList_before hforest hstep.step.2 hlt hmem
      rw [Progress.write_time _ _ (.inr (not_runsOn_of_waiting hmem'))]
      exact hwait hmem'
    · rw [if_neg (by rw [hp']; exact Bool.false_ne_true)]
      exact hended
  | false =>
    rw [if_neg (by rw [hp]; exact Bool.false_ne_true)] at hbefore
    have hnone : task.p = none := Option.isNone_iff_eq_none.mp (by simpa using hp)
    obtain ⟨hp', hg⟩ := Progress.write_gone (g := g) hsteered hcourse hlt htask htask' hnone
    rw [if_neg (by rw [hp']; exact Bool.false_ne_true), hg]
    exact hbefore

/-- At any time a task is in a round, or it has ended. -/
theorem paced_of_run {x : State × Progress} (run : Run (PacedStep t) (s₀, .zero) ls x)
    (init : s₀.Initial) : State.Paced t x ∧
      ∀ e envir, x.1.envirs e = some envir → 0 < envir.sampleTime.toNat := by
  refine (run.induct (motive := fun _ x => (State.Paced t x ∧
    ∀ e envir, x.1.envirs e = some envir → 0 < envir.sampleTime.toNat) ∧
      (x.1.fresh ≤ t → x.2 = .zero)) ?_ ?_).1
  · refine ⟨⟨fun task envir htask => ?_, fun e envir he => ?_⟩, fun _ => rfl⟩
    · rw [init.tasks t] at htask
      cases htask
    · rw [init.envirs e] at he
      cases he
  rintro ls ⟨s, g⟩ l ⟨s', g'⟩ run ⟨⟨hpaced, hpos⟩, hfresh⟩ ⟨⟨hstep, hg⟩, hideal⟩
  obtain rfl : g' = g.write t s l s' := hg
  have hpunctual := punctual_of_run (Run.of_beside (run.mono fun _ _ _ h => h.1)) init
  have hworld : s.World := world_of_run ((Run.of_beside (run.mono fun _ _ _ h => h.1)).mono
    fun _ _ _ (h : PunctualStep t _ _ _) => ⟨h.step, h.orderly⟩) init
  obtain ⟨ring, hforest⟩ := hworld.forest
  have hcourse := exec_course hforest hworld.listed hworld.sane hstep.reached hstep.orderly hstep.prompt
    hstep.step
  have hpos' := sampleTime_pos_step hforest hstep.step.2 hpos
  have hle : s.fresh ≤ s'.fresh := (exec_book_step hforest hstep.step.2).fresh_le
  cases htask : s.tasks t with
  | some task =>
    have hlt := lt_fresh_of_tasks hforest htask
    obtain ⟨hsteered, hpunctual⟩ := hpunctual task htask
    exact ⟨⟨hpaced.step hworld hsteered hpunctual hpos hstep hideal hcourse htask, hpos'⟩,
      fun hnew => absurd (Nat.le_trans hle hnew) (Nat.not_le.mpr hlt)⟩
  | none =>
    have hout : ∀ c, ¬ s.RunsOn t c := by
      rintro c ⟨x, p, hx, -⟩
      rw [htask] at hx
      cases hx
    have hzero : s.fresh ≤ t → s'.tasks t = none → g.write t s l s' = .zero := by
      intro hnew hnone
      obtain ⟨es, hes, hforeign⟩ := hcourse.trace_of_absent hnone
      rw [Progress.write_same hes (saved?_of_foreign hforeign) (.inr hout)]
      exact hfresh hnew
    refine ⟨⟨fun task' envir' htask' => ?_, hpos'⟩, fun hnew => ?_⟩
    · obtain ⟨p, -, hborn⟩ := hcourse.born htask htask'
      obtain rfl : t = s.fresh := hborn.1
      have hg : g.write s.fresh s l s' = .zero := by
        obtain ⟨-, -, _, _, _, _, haside⟩ := id hborn
        obtain ⟨es, hes, hforeign⟩ := haside.trace
        have hes' : s'.trace = s.trace ++ es := hes
        rw [Progress.write_same hes' (saved?_of_foreign fun e he => (hforeign e he).1) (.inr hout)]
        exact hfresh (Nat.le_refl _)
      rw [hg]
      exact State.Paced.of_born hborn task' envir' htask'
    · refine hzero (Nat.le_trans hle hnew) ?_
      obtain ⟨ring', hforest'⟩ := (hworld.step hstep.orderly hstep.step).forest
      exact tasks_of_fresh_le hforest' hnew

/-- **Sampling does not depend on how the time is cut into slices**: there is a record for every round
of the sample time that a task has run on CPUs, with the event sets going around, and one for what is
left at the exit. So two tasks with the same sample time and number of event sets that have run for
the same time, in whatever runs, have the same rounds. -/
theorem regular_of_run (run : Run (PacedStep t) (s₀, .zero) ls (s, g)) (init : s₀.Initial)
    (htask : s.tasks t = some task) (henvir : s.envirs task.envir = some envir)
    (hms : envir.sampleTime.toNat ≤ 4294) :
    Regular envir.round envir.nEsids.toNat task g ∧
      ∀ {t' s₀' ls' s' g' task' envir'}, Run (PacedStep t') (s₀', .zero) ls' (s', g') →
        s₀'.Initial → s'.tasks t' = some task' → s'.envirs task'.envir = some envir' →
        envir'.sampleTime = envir.sampleTime → envir'.nEsids = envir.nEsids → g'.time = g.time →
        trimmed (g'.cuts task') = trimmed (g.cuts task) := by
  have hregular : ∀ {t s₀ ls s g task envir}, Run (PacedStep t) (s₀, .zero) ls (s, g) →
      s₀.Initial → s.tasks t = some task → s.envirs task.envir = some envir →
      envir.sampleTime.toNat ≤ 4294 →
      Regular envir.round envir.nEsids.toNat task g ∧ 0 < envir.round := by
    intro t s₀ ls s g task envir run init htask henvir hms
    obtain ⟨hpaced, hpos⟩ := paced_of_run run init
    have hS : 0 < envir.round := by
      have hsample := hpos _ envir henvir
      rw [SmonEnvir.round]
      omega
    refine ⟨?_, hS⟩
    have hnow := hpaced task envir htask henvir hms
    unfold Regular
    split at hnow
    · rename_i hp
      obtain ⟨-, k, hround⟩ := hnow
      rw [if_pos hp]
      exact ⟨k, hround.begun, hround.le hS, hround.records, hround.evset⟩
    · rename_i hp
      rw [if_neg hp]
      exact hnow
  obtain ⟨hthis, hS⟩ := hregular run init htask henvir hms
  refine ⟨hthis, ?_⟩
  intro t' s₀' ls' s' g' task' envir' run' init' htask' henvir' htime hesids hg
  obtain ⟨hother, -⟩ := hregular run' init' htask' henvir' (htime ▸ hms)
  have hround : envir'.round = envir.round := by rw [SmonEnvir.round, htime, SmonEnvir.round]
  rw [hround, hesids] at hother
  rw [hother.trimmed_cuts hS, hthis.trimmed_cuts hS, hg]

end Runs

/-! ### Two runs -/

/-- Whether a switch, an exit, an interrupt, a tick or a registration comes as it should, and time
passes neither an interrupt nor the timer of task `t`. -/
def State.calm (t : TaskId) (s : State) (l : Label) : Bool :=
  decide (s.Enabled l) && (s.hookCpu? l).all (fun c => s.irqs.all fun w => w.1 != c) &&
    match l with
    | .time d => s.irqs.isEmpty &&
        (s.tasks t).all fun task => !task.timer.active || decide (s.now + d ≤ task.timer.expires)
    | .irq _ _ | .tick _ => true
    | .switch me next => decide (s.kernel.cpu next = me) && next != s.kernel.curr me && s.kernel.known next
    | .exec p | .exit p => s.kernel.curr (s.kernel.cpu p) == p
    | .register _ pid envir _ _ => envir.options.onExec ||
        s.kernel.curr (s.kernel.cpu (s.kernel.forEachProcess pid)) != s.kernel.forEachProcess pid
    | _ => false

/-- Whether the hooks find a task that is not in stat mode. -/
def State.found (t : TaskId) (s : State) : Bool :=
  (s.tasks t).all fun task => (s.envirs task.envir).all (fun envir => !envir.options.stat) &&
    task.p.all fun p => s.waitList.contains t ||
      (s.findProc p (s.cpuList (s.kernel.cpu p))).toOption == some (some t)

/-- Replaying events that `ok` has looked at, with the progress of task `t`. -/
def replayPaced (t : TaskId) (ok : State → Label → Bool) (x : State × Progress) :
    List Label → Option (State × Progress)
  | [] => some x
  | l :: ls =>
    if ok x.1 l then
      match x.1.exec l with
      | .ok s => replayPaced t ok (s, x.2.write t x.1 l s) ls
      | .error _ => none
    else none

section Replays

variable {s s' : State} {t : TaskId} {l : Label} {ls : List Label} {x y : State × Progress}

theorem run_of_replayPaced {ok : State → Label → Bool}
    {step : State × Progress → Label → State × Progress → Prop}
    (hok : ∀ s l s' g, ok s l = true → s.exec l = .ok s' → step (s, g) l (s', g.write t s l s'))
    (h : replayPaced t ok x ls = some y) : Run step x ls y := by
  induction ls generalizing x with
  | nil =>
    obtain rfl := Option.some_inj.mp h
    exact .nil
  | cons l ls ih =>
    rw [replayPaced] at h
    split at h
    · rename_i hl
      split at h
      · rename_i s hs
        exact .cons (hok x.1 l s x.2 hl hs) (ih h)
      · cases h
    · cases h

/-- What is checked of an event. -/
theorem calm_step (h : s.calm t l = true) (hexec : s.exec l = .ok s') : s.Step l s' ∧
    s.kernel.Orderly l ∧ (∀ c w, s.hookCpu? l = some c → (c, w) ∉ s.irqs) ∧ (∀ u, s.Enters u l) ∧
    s.Ideal t l := by
  simp only [State.calm, Bool.and_eq_true, decide_eq_true_eq] at h
  obtain ⟨⟨henabled, hirqs⟩, hl⟩ := h
  refine ⟨⟨henabled, hexec⟩, ?_, fun c w hc hmem => ?_, ?_, ?_⟩
  · cases l with
    | switch me next =>
      simp only [Bool.and_eq_true, decide_eq_true_eq, bne_iff_ne] at hl
      exact ⟨hl.1.1, fun me' next' heq => by cases heq; exact ⟨hl.1.2, hl.2⟩⟩
    | exec p => exact ⟨eq_of_beq hl, by simp⟩
    | exit p => exact ⟨eq_of_beq hl, by simp⟩
    | time d => exact ⟨trivial, by simp⟩
    | irq me w => exact ⟨trivial, by simp⟩
    | tick u => exact ⟨trivial, by simp⟩
    | register me pid envir b alloc => exact ⟨trivial, by simp⟩
    | _ => exact absurd hl (by simp)
  · rw [hc, Option.all_some, List.all_eq_true] at hirqs
    exact absurd (hirqs (c, w) hmem) (by simp)
  · rintro u me pid envir b alloc rfl -
    rw [Bool.or_eq_true, bne_iff_ne] at hl
    exact hl
  · rintro d rfl
    rw [Bool.and_eq_true, List.isEmpty_iff] at hl
    refine ⟨hl.1, fun task htask hactive => ?_⟩
    have hexpires := hl.2
    rw [htask, Option.all_some, hactive, Bool.not_true, Bool.false_or, decide_eq_true_eq] at hexpires
    exact hexpires

theorem pacedStep_of_calm (h : (s.calm t l && s.found t) = true) (hexec : s.exec l = .ok s')
    (g : Progress) : PacedStep t (s, g) l (s', g.write t s l s') := by
  obtain ⟨hcalm, hfound⟩ := Bool.and_eq_true_iff.mp h
  obtain ⟨hstep, horderly, hatOnce, henters, hideal⟩ := calm_step hcalm hexec
  have htask : ∀ task, s.tasks t = some task →
      (s.envirs task.envir).all (fun envir => !envir.options.stat) = true ∧
      (task.p.all fun p => s.waitList.contains t ||
        (s.findProc p (s.cpuList (s.kernel.cpu p))).toOption == some (some t)) = true := by
    intro task htask
    rw [State.found, htask, Option.all_some, Bool.and_eq_true] at hfound
    exact hfound
  refine ⟨⟨⟨⟨hstep, horderly, fun _ => fun c w hc => hatOnce c w hc, fun task p htask' hp => ?_⟩,
    hatOnce, henters t, fun task envir htask' henvir => ?_⟩, rfl⟩, hideal⟩
  · have hlook := (htask task htask').2
    rw [hp, Option.all_some, Bool.or_eq_true] at hlook
    rcases hlook with hmem | hlook
    · exact .inl (List.contains_iff_mem.mp hmem)
    · refine .inr ?_
      have hsome := eq_of_beq hlook
      unfold State.Finds
      cases hfind : s.findProc p (s.cpuList (s.kernel.cpu p)) with
      | ok found =>
        rw [hfind] at hsome
        exact congrArg _ (Option.some_inj.mp hsome)
      | error => rw [hfind] at hsome; cases hsome
  · have hstat := (htask task htask').1
    rw [henvir, Option.all_some] at hstat
    simpa using hstat

end Replays

/-- Two event sets, taking turns. -/
def takingTurns : SmonEnvir := { inheriting with nEsids := 2 }

/-- Thirteen milliseconds in one slice. -/
def oneSlice : List Label :=
  [.register 0 1 takingTurns 0 ⟨true, true, true⟩, .switch 0 1, .irq 0 (.startTimer 0), .time 10000000,
    .tick 0, .time 3000000, .exit 1]

/-- The same, in slices of four, six and three. The second one ends when the timer is due. -/
def threeSlices : List Label :=
  [.register 0 1 takingTurns 0 ⟨true, true, true⟩, .switch 0 1, .irq 0 (.startTimer 0), .time 4000000,
    .switch 0 0, .irq 0 (.stopTimer 0), .time 5000000, .switch 0 1, .irq 0 (.startTimer 0),
    .time 6000000, .switch 0 0, .irq 0 (.stopTimer 0), .switch 0 1, .irq 0 (.startTimer 0),
    .time 3000000, .exit 1]

/-- Both are sampled after ten milliseconds, and at the exit. -/
theorem regular_of_run_slices : ∃ x y task task',
    Run (PacedStep 0) (boot [] [fixedOnly], .zero) oneSlice x ∧
    Run (PacedStep 0) (boot [] [fixedOnly], .zero) threeSlices y ∧
    x.1.tasks 0 = some task ∧ y.1.tasks 0 = some task' ∧
    x.2.records = [(0, 10000000), (1, 13000000)] ∧ Regular 10000000 2 task x.2 ∧
    trimmed (y.2.cuts task') = trimmed (x.2.cuts task) := by
  have hrun : ∀ {ls x}, replayPaced 0 (fun s l => s.calm 0 l && s.found 0)
      (boot [] [fixedOnly], .zero) ls = some x → Run (PacedStep 0) (boot [] [fixedOnly], .zero) ls x :=
    fun h => run_of_replayPaced (fun s l s' g hok hexec => pacedStep_of_calm hok hexec g) h
  obtain ⟨s, g, task, envir, hx, htask, henvir, htime, hesids, hg, hrecords⟩ : ∃ s g task envir,
      replayPaced 0 (fun s l => s.calm 0 l && s.found 0) (boot [] [fixedOnly], .zero) oneSlice =
        some (s, g) ∧ s.tasks 0 = some task ∧ s.envirs task.envir = some envir ∧
      envir.sampleTime = 10 ∧ envir.nEsids = 2 ∧ g.time = 13000000 ∧
      g.records = [(0, 10000000), (1, 13000000)] := ⟨_, _, _, _, rfl, rfl, rfl, rfl, rfl, rfl, rfl⟩
  obtain ⟨s', g', task', envir', hy, htask', henvir', htime', hesids', hg'⟩ : ∃ s g task envir,
      replayPaced 0 (fun s l => s.calm 0 l && s.found 0) (boot [] [fixedOnly], .zero) threeSlices =
        some (s, g) ∧ s.tasks 0 = some task ∧ s.envirs task.envir = some envir ∧
      envir.sampleTime = 10 ∧ envir.nEsids = 2 ∧ g.time = 13000000 :=
    ⟨_, _, _, _, rfl, rfl, rfl, rfl, rfl, rfl⟩
  obtain ⟨hregular, hsame⟩ := regular_of_run (hrun hx) (initial_boot ..) htask henvir
    (by rw [htime]; decide)
  have hround : envir.round = 10000000 := by rw [SmonEnvir.round, htime]; rfl
  rw [hround, hesids] at hregular
  exact ⟨(s, g), (s', g'), task, task', hrun hx, hrun hy, htask, htask', hrecords, hregular,
    hsame (hrun hy) (initial_boot ..) htask' henvir' (htime'.trans htime.symm)
      (hesids'.trans hesids.symm) (hg'.trans hg.symm)⟩

/-- Two tasks for one process, which runs for five milliseconds and is then switched out. -/
def fiveOfTen : List Label :=
  [.register 0 1 startingOnExec 0 ⟨true, true, true⟩, .register 0 1 startingOnExec 1 ⟨true, true, true⟩,
    .switch 0 1, .exec 1, .irq 0 (.startTimer 1), .exec 1, .irq 0 (.startTimer 0), .time 5000000,
    .switch 0 0, .irq 0 (.stopTimer 0), .time 5000000, .tick 1]

/-- **A process with two tasks**: the hooks find one of them, and the timer of the other goes on when
the process is switched out. -/
theorem not_regular_twice : (boot [] [fixedOnly]).Initial ∧ ∃ s g task envir,
    Run (fun x l y => Beside State.Step (Progress.write 1) x l y ∧ x.1.kernel.Orderly l ∧
        (∀ c w, x.1.hookCpu? l = some c → (c, w) ∉ x.1.irqs) ∧ (∀ u, x.1.Enters u l) ∧
        x.1.Ideal 0 l ∧ x.1.Ideal 1 l) (boot [] [fixedOnly], .zero) fiveOfTen (s, g) ∧
      s.tasks 1 = some task ∧ s.envirs task.envir = some envir ∧ envir.options.stat = false ∧
      envir.sampleTime = 10 ∧ g.records = [(0, 5000000)] ∧
      ¬ Regular envir.round envir.nEsids.toNat task g := by
  obtain ⟨s, g, task, envir, hx, htask, henvir, hp, hstat, htime, hrecords⟩ : ∃ s g task envir,
      replayPaced 1 (fun s l => s.calm 0 l && s.calm 1 l) (boot [] [fixedOnly], .zero) fiveOfTen =
        some (s, g) ∧ s.tasks 1 = some task ∧ s.envirs task.envir = some envir ∧
      task.p.isSome = true ∧ envir.options.stat = false ∧ envir.sampleTime = 10 ∧
      g.records = [(0, 5000000)] := ⟨_, _, _, _, rfl, rfl, rfl, rfl, rfl, rfl, rfl⟩
  refine ⟨initial_boot .., s, g, task, envir, run_of_replayPaced ?_ hx, htask, henvir, hstat, htime,
    hrecords, fun h => ?_⟩
  · intro s l s' g hok hexec
    obtain ⟨hcalm, hcalm'⟩ := Bool.and_eq_true_iff.mp hok
    obtain ⟨hstep, horderly, hatOnce, henters, hideal⟩ := calm_step hcalm hexec
    exact ⟨⟨hstep, rfl⟩, horderly, hatOnce, henters, hideal, (calm_step hcalm' hexec).2.2.2.2⟩
  · rw [Regular, if_pos hp, hrecords] at h
    obtain ⟨k, -, -, heq, -⟩ := h
    have hround : envir.round = 10000000 := by rw [SmonEnvir.round, htime]; rfl
    have hk := congrArg List.length heq
    rw [rounds, List.length_map, List.length_range] at hk
    obtain rfl : 1 = k := hk
    rw [hround] at heq
    have hcut : [(5000000 : ℤ)] = [10000000] := congrArg (fun cuts => cuts.map Prod.snd) heq
    exact absurd hcut (by decide)

end SchedMon
