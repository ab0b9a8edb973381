import SchedMon.Driver.Counts

/-!
# Starting the program

`start_profile` forks. The child is to execute the program, and waits for a semaphore before it does;
the parent maps the buffer, registers the child and then posts. If it cannot map or register, it kills
the child. A user may interrupt at any time, and that kills the child too. Meanwhile the rest of the
machine goes on.

However these steps come, the child gets to its `exec` only when it is registered, and if its task is
to wait for an `exec`, then it waits for just this one. So whenever the program runs, it is monitored.

## Main definitions

* `ParentPc`, `ChildPc` — where the two processes are
* `Launch`, `Launch.Step` — both of them, and the driver
* `Launch.Inv` — what holds in between

## Main results

* `Launch.Inv.step` — every step keeps the invariant
* `launched_of_run` — **a program that runs is monitored, and none runs after a failure**
-/

namespace SchedMon

open State

/-! ### The two processes -/

/-- Where the parent is in `start_profile`, behind `fork`. -/
inductive ParentPc where
  | mmap
  | setTask
  /-- The child is registered. -/
  | post
  | sampling
  | wait
  | unset
  | done
  /-- The buffer could not be mapped, and the child has been killed. -/
  | reaping
  /-- There is nothing to profile. -/
  | failed
  deriving DecidableEq

/-- The semaphore has not been posted. -/
def ParentPc.early : ParentPc → Bool
  | mmap | setTask | post | reaping | failed => true
  | sampling | wait | unset | done => false

/-- Where the child is. -/
inductive ChildPc where
  /-- On its way to `sem_wait`. -/
  | start
  | semWait
  | execv
  | running
  | gone
  deriving DecidableEq

/-- The program is executed, or about to be. -/
def ChildPc.late : ChildPc → Bool
  | execv | running => true
  | start | semWait | gone => false

/-- The driver, the two processes, the semaphore, and whether the child has been sent a signal. -/
structure Launch where
  driver : State
  parent : ParentPc
  child : ChildPc
  sem : ℕ
  killed : Bool

/-- An event that has nothing to do with process `p`, but for what it does itself when it runs. -/
def Label.Spares (k : Kernel) (p : Proc) (child : ChildPc) : Label → Prop
  | exec q => q ≠ p ∨ child = .running
  | exit q => q ≠ p
  | register _ pid _ _ _ => k.forEachProcess pid ≠ p
  | _ => True

/-- The steps of `start_profile` for a child `p`, of the user, and of everybody else. The label is what
the driver sees. -/
inductive Launch.Step (p : Proc) (pid : Pid) (envir : SmonEnvir) (b : RbId) :
    Launch → Option Label → Launch → Prop
  | mmap {s : State} {c : ChildPc} {n : ℕ} {k : Bool} :
      Step p pid envir b ⟨s, .mmap, c, n, k⟩ none ⟨s, .setTask, c, n, k⟩
  | mmapFails {s : State} {c : ChildPc} {n : ℕ} {k : Bool} :
      Step p pid envir b ⟨s, .mmap, c, n, k⟩ none ⟨s, .reaping, c, n, true⟩
  | reap {s : State} {n : ℕ} {k : Bool} :
      Step p pid envir b ⟨s, .reaping, .gone, n, k⟩ none ⟨s, .failed, .gone, n, k⟩
  | setTask {s s' : State} {c : ChildPc} {n : ℕ} {k : Bool} {me : Cpu} {alloc : Alloc}
      (hpid : s.kernel.forEachProcess pid = p)
      (hcode : s.smonSchedRegisterTask me pid envir b alloc = .ok (0, s'))
      (step : OrderlyStep s (.register me pid envir b alloc) s') :
      Step p pid envir b ⟨s, .setTask, c, n, k⟩ (some (.register me pid envir b alloc))
        ⟨s', .post, c, n, k⟩
  | setTaskFails {s s' : State} {c : ChildPc} {n : ℕ} {k : Bool} {me : Cpu} {alloc : Alloc}
      {err : ℤ}
      (hcode : s.smonSchedRegisterTask me pid envir b alloc = .ok (err, s')) (herr : err ≠ 0)
      (step : OrderlyStep s (.register me pid envir b alloc) s') :
      Step p pid envir b ⟨s, .setTask, c, n, k⟩ (some (.register me pid envir b alloc))
        ⟨s', .failed, c, n, true⟩
  | semPost {s : State} {c : ChildPc} {n : ℕ} {k : Bool} :
      Step p pid envir b ⟨s, .post, c, n, k⟩ none ⟨s, .sampling, c, n + 1, k⟩
  | sampled {s : State} {c : ChildPc} {n : ℕ} {k : Bool} :
      Step p pid envir b ⟨s, .sampling, c, n, k⟩ none ⟨s, .wait, c, n, k⟩
  | wait {s : State} {n : ℕ} {k : Bool} :
      Step p pid envir b ⟨s, .wait, .gone, n, k⟩ none ⟨s, .unset, .gone, n, k⟩
  | unset {s s' : State} {c : ChildPc} {n : ℕ} {k : Bool} (step : OrderlyStep s (.unregister pid) s') :
      Step p pid envir b ⟨s, .unset, c, n, k⟩ (some (.unregister pid)) ⟨s', .done, c, n, k⟩
  /-- The child changes the directory and its affinity. -/
  | prepare {s : State} {q : ParentPc} {n : ℕ} {k : Bool} :
      Step p pid envir b ⟨s, q, .start, n, k⟩ none ⟨s, q, .semWait, n, k⟩
  | semWait {s : State} {q : ParentPc} {n : ℕ} {k : Bool} :
      Step p pid envir b ⟨s, q, .semWait, n + 1, k⟩ none ⟨s, q, .execv, n, k⟩
  | execv {s s' : State} {q : ParentPc} {n : ℕ} {k : Bool} (step : OrderlyStep s (.exec p) s') :
      Step p pid envir b ⟨s, q, .execv, n, k⟩ (some (.exec p)) ⟨s', q, .running, n, k⟩
  /-- The program ends, `execv` fails, or the signal arrives. -/
  | exit {s s' : State} {q : ParentPc} {c : ChildPc} {n : ℕ} {k : Bool}
      (hends : k = true ∨ c.late = true) (hc : c ≠ .gone) (step : OrderlyStep s (.exit p) s') :
      Step p pid envir b ⟨s, q, c, n, k⟩ (some (.exit p)) ⟨s', q, .gone, n, k⟩
  /-- The user interrupts. -/
  | interrupt {s : State} {q : ParentPc} {c : ChildPc} {n : ℕ} {k : Bool} :
      Step p pid envir b ⟨s, q, c, n, k⟩ none ⟨s, q, c, n, true⟩
  | other {s s' : State} {q : ParentPc} {c : ChildPc} {n : ℕ} {k : Bool} {l : Label}
      (spares : l.Spares s.kernel p c) (step : OrderlyStep s l s') :
      Step p pid envir b ⟨s, q, c, n, k⟩ (some l) ⟨s', q, c, n, k⟩

/-! ### The invariant -/

/-- Process `p` is watched in a phase. -/
def Watched.In (w : Watched) (p : Proc) (phase : Phase) : Prop :=
  ∃ inherit, w p = some ⟨phase, inherit⟩

/-- What a registered process does first. -/
def SmonEnvir.phase (envir : SmonEnvir) : Phase :=
  if envir.options.onExec then .waiting else .monitored

/-- What holds while a program is started. -/
structure Launch.Inv (p : Proc) (envir : SmonEnvir) (w : Watched) (x : Launch) : Prop where
  world : x.driver.World
  placed : PlacedBook w x.driver.book
  known : x.driver.kernel.known p = true
  /-- Without a post the child does not get past the semaphore. -/
  early : x.parent.early = true → x.sem = 0 ∧ x.child.late = false
  /-- There is only one post, and a child that is past the semaphore has used it up. -/
  once : x.sem + x.child.late.toNat ≤ 1
  registered : x.parent = .post ∨ x.sem ≠ 0 ∨ x.child = .execv → x.child ≠ .gone →
    w.In p envir.phase
  running : x.child = .running → w.In p .monitored

section Steps

variable {p : Proc} {pid : Pid} {envir : SmonEnvir} {b : RbId} {w : Watched} {x y : Launch}
  {s s' : State} {l : Label} {l? : Option Label} {c : ChildPc}

/-- Others leave process `p` as it is watched, unless it executes another program itself. -/
theorem Watched.In.spared {phase : Phase} (h : w.In p phase) (spares : l.Spares s.kernel p c)
    (hknown : s.kernel.known p = true) (hallows : s.Allows l)
    (hphase : c = .running → phase = .monitored) : (w.step s.kernel l).In p phase := by
  obtain ⟨inherit, hw⟩ := h
  refine ⟨inherit, ?_⟩
  cases l with
  | exec q =>
    by_cases hq : q = p
    · subst hq
      have hrunning : c = .running := spares.resolve_left fun hne => hne rfl
      simp only [Watched.step, Function.update_self, hw, Option.map_some, hphase hrunning]
    · simp only [Watched.step, Function.update_of_ne (Ne.symm hq), hw]
  | exit q =>
    have hq : p ≠ q := Ne.symm spares
    simp only [Watched.step, Function.update_of_ne hq, hw]
  | register me pid' envir' b' alloc =>
    have hne : p ≠ s.kernel.forEachProcess pid' := Ne.symm spares
    simp only [Watched.step]
    split
    · rw [Function.update_of_ne hne, hw]
    · exact hw
  | fork parent child pid' cpu leader alloc =>
    have hne : p ≠ child := by
      rintro rfl
      have hnew : s.kernel.known p = false := hallows
      exact absurd (hknown.symm.trans hnew) (by simp)
    simp only [Watched.step]
    split
    · rw [Function.update_of_ne hne, hw]
    · exact hw
  | _ => exact hw

/-- The parts of the invariant that are about the driver. -/
theorem Launch.Inv.driver (h : Launch.Inv p envir w x) (step : OrderlyStep x.driver l s') :
    s'.World ∧ PlacedBook (w.step x.driver.kernel l) s'.book ∧ s'.kernel.known p = true := by
  obtain ⟨hstep, hl, -, hallows⟩ := step
  obtain ⟨ring, hforest⟩ := h.world.forest
  have hbook := exec_book_step hforest hstep.2
  have hkernel : s'.kernel = x.driver.kernel.step l := hbook.kernel
  refine ⟨h.world.step hl hstep,
    h.placed.step h.world.listed hforest hbook (h.placed.allows hallows), ?_⟩
  rw [hkernel]
  exact Kernel.known_step l h.known

/-- The registered clause is not about a running program. -/
theorem Launch.Inv.not_running (h : Launch.Inv p envir w x)
    (hreg : x.parent = .post ∨ x.sem ≠ 0 ∨ x.child = .execv) : x.child ≠ .running := by
  intro hc
  have honce := h.once
  have hlate : x.child.late = true := by rw [hc]; rfl
  rcases hreg with hpost | hsem | hexecv
  · have hnot := (h.early (by rw [hpost]; rfl)).2
    exact absurd (hlate.symm.trans hnot) (by simp)
  · rw [hlate, Bool.toNat_true] at honce
    omega
  · cases hc.symm.trans hexecv

/-- The parent moves on, without a post and without a registration. -/
theorem Launch.Inv.parent_moves {q q' : ParentPc} {n : ℕ} {k k' : Bool}
    (h : Launch.Inv p envir w ⟨s, q, c, n, k⟩) (hearly : q'.early = true → q.early = true)
    (hpost : q' = .post → q = .post) : Launch.Inv p envir w ⟨s, q', c, n, k'⟩ :=
  ⟨h.world, h.placed, h.known, fun he => h.early (hearly he), h.once,
    fun hreg => h.registered (hreg.imp_left hpost), h.running⟩

/-- The driver goes on, and both processes stay where they are. -/
theorem Launch.Inv.spared {q : ParentPc} {n : ℕ} {k : Bool} (h : Launch.Inv p envir w ⟨s, q, c, n, k⟩)
    (spares : l.Spares s.kernel p c) (step : OrderlyStep s l s') :
    Launch.Inv p envir (w.step s.kernel l) ⟨s', q, c, n, k⟩ := by
  obtain ⟨hworld, hplaced, hknown⟩ := h.driver step
  refine ⟨hworld, hplaced, hknown, h.early, h.once, fun hreg hc => ?_, fun hc => ?_⟩
  · exact (h.registered hreg hc).spared spares h.known step.2.2.2 fun hrunning =>
      absurd hrunning (h.not_running hreg)
  · exact (h.running hc).spared spares h.known step.2.2.2 fun _ => rfl

/-- **Every step keeps the invariant.** -/
theorem Launch.Inv.step (h : Launch.Inv p envir w x) (step : Launch.Step p pid envir b x l? y) :
    ∃ w', Launch.Inv p envir w' y := by
  cases step with
  | mmap => exact ⟨w, h.parent_moves (fun _ => rfl) (by rintro ⟨⟩)⟩
  | mmapFails => exact ⟨w, h.parent_moves (fun _ => rfl) (by rintro ⟨⟩)⟩
  | reap => exact ⟨w, h.parent_moves (fun _ => rfl) (by rintro ⟨⟩)⟩
  | @setTask s s' c n k me alloc hpid hcode step =>
    obtain ⟨hworld, hplaced, hknown⟩ := h.driver step
    obtain ⟨hsem, hlate⟩ := h.early rfl
    refine ⟨_, hworld, hplaced, hknown, fun _ => ⟨hsem, hlate⟩, h.once, fun _ _ => ?_, ?_⟩
    · rcases register_cases hcode with ⟨-, herr, -⟩ | ⟨halloc, -, -⟩
      · exact absurd herr (by decide)
      · refine ⟨envir.options.inherit, ?_⟩
        simp only [Watched.step, halloc, if_true, hpid, Function.update_self, SmonEnvir.phase]
    · rintro rfl
      cases hlate
  | @setTaskFails s s' c n k me alloc err hcode herr step =>
    obtain ⟨hworld, hplaced, hknown⟩ := h.driver step
    obtain ⟨hsem, hlate⟩ := h.early rfl
    refine ⟨_, hworld, hplaced, hknown, fun _ => ⟨hsem, hlate⟩, h.once, ?_, ?_⟩
    · rintro (hpost | hne | rfl) _
      · cases hpost
      · exact absurd hsem hne
      · cases hlate
    · rintro rfl
      cases hlate
  | semPost =>
    obtain ⟨hsem, hlate⟩ := h.early rfl
    refine ⟨w, h.world, h.placed, h.known, (by rintro ⟨⟩), ?_, fun _ => h.registered (.inl rfl),
      h.running⟩
    simp only at hsem hlate ⊢
    rw [hsem, hlate]
    exact Nat.le_refl 1
  | sampled => exact ⟨w, h.parent_moves (by rintro ⟨⟩) (by rintro ⟨⟩)⟩
  | wait => exact ⟨w, h.parent_moves (by rintro ⟨⟩) (by rintro ⟨⟩)⟩
  | unset step =>
    have h' := h.spared (l := .unregister pid) trivial step
    exact ⟨_, h'.parent_moves (by rintro ⟨⟩) (by rintro ⟨⟩)⟩
  | prepare =>
    refine ⟨w, h.world, h.placed, h.known, fun hearly => ⟨(h.early hearly).1, rfl⟩, h.once,
      fun hreg _ => ?_, (by rintro ⟨⟩)⟩
    exact h.registered (hreg.imp_right fun hreg => hreg.imp_right (by rintro ⟨⟩)) (by rintro ⟨⟩)
  | @semWait s q n k =>
    have hin := h.registered (.inr (.inl (Nat.succ_ne_zero n))) (by rintro ⟨⟩)
    refine ⟨w, h.world, h.placed, h.known, fun hearly => ?_, ?_, fun _ _ => hin, (by rintro ⟨⟩)⟩
    · exact absurd (h.early hearly).1 (Nat.succ_ne_zero n)
    · have honce : n + 1 + 0 ≤ 1 := h.once
      change n + 1 ≤ 1
      omega
  | @execv s s' q n k step =>
    obtain ⟨hworld, hplaced, hknown⟩ := h.driver step
    obtain ⟨inherit, hw⟩ := h.registered (.inr (.inr rfl)) (by rintro ⟨⟩)
    have honce : n + 1 ≤ 1 := h.once
    refine ⟨_, hworld, hplaced, hknown, fun hearly => ?_, honce, fun hreg => ?_, fun _ => ?_⟩
    · exact absurd (h.early hearly).2 (by simp [ChildPc.late])
    · rcases hreg with rfl | hsem | hexecv
      · exact absurd (h.early rfl).2 (by simp [ChildPc.late])
      · simp only at hsem
        omega
      · cases hexecv
    · refine ⟨inherit, ?_⟩
      simp only [Watched.step, Function.update_self, hw, Option.map_some]
  | @exit s s' q c n k hends hc step =>
    obtain ⟨hworld, hplaced, hknown⟩ := h.driver step
    refine ⟨_, hworld, hplaced, hknown, fun hearly => ⟨(h.early hearly).1, rfl⟩, ?_,
      fun _ hc => absurd rfl hc, (by rintro ⟨⟩)⟩
    exact Nat.le_trans (Nat.add_le_add_left (Nat.zero_le _) n) h.once
  | interrupt => exact ⟨w, h.parent_moves id id⟩
  | other spares step => exact ⟨_, h.spared spares step⟩

/-! ### Runs -/

/-- A process that is watched has a task on the list of its phase. -/
theorem Launch.Inv.exists_task {phase : Phase} (h : Launch.Inv p envir w x) (hin : w.In p phase) :
    ∃ t task, x.driver.tasks t = some task ∧ task.p = some p ∧
      (phase = .waiting → t ∈ x.driver.waitList) ∧
      (phase = .monitored → t ∈ x.driver.cpuList (x.driver.kernel.cpu p)) := by
  obtain ⟨inherit, hw⟩ := hin
  obtain ⟨t, hmem, c, hc, hp⟩ := h.placed.exists_at hw
  obtain ⟨task, htask, rfl⟩ := tasks_of_entry hc
  refine ⟨t, task, htask, hp, ?_, ?_⟩
  · rintro rfl
    exact hmem
  · rintro rfl
    exact hmem

/-- `start_profile` has forked, while the driver goes on with what it was doing. -/
structure Launch.Start (p : Proc) (x : Launch) : Prop where
  parent : x.parent = .mmap
  child : x.child = .start
  sem : x.sem = 0
  driver : ∃ s₀ ls, s₀.Initial ∧ Run OrderlyStep s₀ ls x.driver
  known : x.driver.kernel.known p = true

theorem Launch.Start.inv (start : x.Start p) (envir : SmonEnvir) : ∃ w, Launch.Inv p envir w x := by
  obtain ⟨s₀, ls, init, run⟩ := start.driver
  obtain ⟨hworld, w, hplaced⟩ : x.driver.World ∧ ∃ w, PlacedBook w x.driver.book := by
    refine run.invariant (motive := fun s => s.World ∧ ∃ w, PlacedBook w s.book)
      ⟨init.world, _, Initial.placedBook init⟩ ?_
    rintro s l s' ⟨hworld, w, hplaced⟩ ⟨hstep, hl, -, hallows⟩
    obtain ⟨ring, hforest⟩ := hworld.forest
    exact ⟨hworld.step hl hstep, _, hplaced.step hworld.listed hforest
      (exec_book_step hforest hstep.2) (hplaced.allows hallows)⟩
  refine ⟨w, hworld, hplaced, start.known, fun _ => ⟨start.sem, ?_⟩, ?_, ?_, ?_⟩
  · rw [start.child]
    rfl
  · rw [start.sem, start.child]
    exact Nat.zero_le 1
  · rintro (hpost | hsem | hexecv) _
    · cases start.parent.symm.trans hpost
    · exact absurd start.sem hsem
    · cases start.child.symm.trans hexecv
  · intro hrunning
    cases start.child.symm.trans hrunning

/-- **A program that runs is monitored**: it is executed only when it has a task, on the wait list if
it was asked for, and from then on the task is on the list of its CPU. A child that could not be
registered executes nothing. -/
theorem launched_of_run {x₀ : Launch} {ls : List (Option Label)}
    (run : Run (Launch.Step p pid envir b) x₀ ls x) (start : x₀.Start p) :
    (x.parent.early = true → x.child ≠ .execv ∧ x.child ≠ .running) ∧
    (x.child = .execv → ∃ t task, x.driver.tasks t = some task ∧ task.p = some p ∧
      t ∈ if envir.options.onExec then x.driver.waitList
        else x.driver.cpuList (x.driver.kernel.cpu p)) ∧
    (x.child = .running → ∃ t task, x.driver.tasks t = some task ∧ task.p = some p ∧
      t ∈ x.driver.cpuList (x.driver.kernel.cpu p)) := by
  obtain ⟨w, h⟩ := run.invariant (motive := fun x => ∃ w, Launch.Inv p envir w x) (start.inv envir)
    fun _ _ _ ⟨_, h⟩ step => h.step step
  refine ⟨fun hearly => ?_, fun hexecv => ?_, fun hrunning => ?_⟩
  · have hlate := (h.early hearly).2
    constructor <;> intro hc <;> rw [hc] at hlate <;> cases hlate
  · have hin := h.registered (.inr (.inr hexecv)) (by simp [hexecv])
    obtain ⟨t, task, htask, hp, hwaits, hmonitored⟩ := h.exists_task hin
    refine ⟨t, task, htask, hp, ?_⟩
    split
    · rename_i hexec
      exact hwaits (if_pos hexec)
    · rename_i hexec
      exact hmonitored (if_neg hexec)
  · obtain ⟨t, task, htask, hp, -, hmonitored⟩ := h.exists_task (h.running hrunning)
    exact ⟨t, task, htask, hp, hmonitored rfl⟩

end Steps

/-- A user starts a program, and it runs. -/
theorem launched_of_run_brief : ∃ x, Run (Launch.Step 1 1 startingOnExec 0)
      ⟨boot [] [fixedOnly], .mmap, .start, 0, false⟩
      [none, none, some (.register 0 1 startingOnExec 0 ⟨true, true, true⟩), none, none,
        some (.switch 0 1), some (.exec 1)] x ∧
    x.child = .running ∧ ∃ t task, x.driver.tasks t = some task ∧ task.p = some 1 ∧
      t ∈ x.driver.cpuList (x.driver.kernel.cpu 1) := by
  have run : ∃ x, Run (Launch.Step 1 1 startingOnExec 0)
      ⟨boot [] [fixedOnly], .mmap, .start, 0, false⟩
      [none, none, some (.register 0 1 startingOnExec 0 ⟨true, true, true⟩), none, none,
        some (.switch 0 1), some (.exec 1)] x ∧ x.child = .running := by
    refine ⟨_, .cons .mmap <| .cons .prepare <| .cons (.setTask (by decide) rfl
        ⟨⟨trivial, rfl⟩, ⟨trivial, by simp⟩, fun _ c w h => (by cases h),
          fun t task h => (by cases h)⟩) <|
      .cons .semPost <| .cons .semWait <|
      .cons (.other trivial
        ⟨⟨trivial, rfl⟩, ⟨rfl, ?_⟩, fun _ _ _ _ => List.not_mem_nil, trivial⟩) <|
      .cons (.execv
        ⟨⟨trivial, rfl⟩, ⟨rfl, by simp⟩, fun _ _ _ _ => List.not_mem_nil, trivial⟩) .nil, rfl⟩
    rintro me next ⟨⟩
    exact ⟨by decide, rfl⟩
  obtain ⟨x, run, hchild⟩ := run
  exact ⟨x, run, hchild, (launched_of_run run
    ⟨rfl, rfl, rfl, ⟨_, [], initial_boot .., .nil⟩, rfl⟩).2.2 hchild⟩

end SchedMon
