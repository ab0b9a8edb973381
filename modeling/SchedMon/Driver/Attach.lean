import Mathlib.Data.Int.ConditionallyCompleteOrder
import Mathlib.Data.Int.SuccPred
import Mathlib.Data.Nat.Basic
import Mathlib.Order.Monotone.Defs
import SchedMon.Driver.Account

/-!
# Attaching to a running process

A task that is registered without `on_exec` is put on the list of its process's CPU, and nothing is
started: the next switch to the process does that. If the process runs already, the next hook is the
end of its slice, and `smon_sched_task_out` or `smon_sched_process_exit` stops a sample that nobody
started. `smon_sched_process_exec`, for a task that waits, calls `smon_sched_task_in`.

## Main definitions

* `Opened` — a stop closes a start since the registration, and a record fits in the time since

## Main results

* `opened_of_run` — **a task is sound whose process was on no CPU when it was registered**
* `not_opened` — a process that was attached while it ran, and exits
-/

namespace SchedMon

open State SchedMon.Shelf

/-! ### Lookups -/

section Lookups

variable {s s' : State} {p : Proc} {t u : TaskId} {l : List TaskId} {task : SmonTask}

theorem findProc_cons_self (htask : s.tasks t = some task) (hp : task.p = some p) (l : List TaskId) :
    s.findProc p (t :: l) = .ok (some t) := by
  refine (bind_of_ok (task_eq_ok.mpr htask)).trans ?_
  exact if_pos (decide_eq_true hp)

theorem findProc_cons_ne (htask : s.tasks u = some task) (hp : task.p ≠ some p) (l : List TaskId) :
    s.findProc p (u :: l) = s.findProc p l := by
  refine (bind_of_ok (task_eq_ok.mpr htask)).trans ?_
  exact if_neg (by simpa using hp)

/-- A task of another process that is added to a list is no obstacle. -/
theorem findProc_put {L : Place → List TaskId} {j : Place} (htask : s.tasks u = some task)
    (hp : task.p ≠ some p) (i : Place) : s.findProc p (put L j u i) = s.findProc p (L i) := by
  by_cases hi : i = j
  · subst hi
    rw [put, Function.update_self]
    exact findProc_cons_ne htask hp _
  · rw [put, Function.update_of_ne hi]

/-- A task of another process that is taken from a list is no loss. -/
theorem findProc_erase (htask : s.tasks u = some task) (hp : task.p ≠ some p) (l : List TaskId) :
    s.findProc p (l.erase u) = s.findProc p l := by
  induction l with
  | nil => rfl
  | cons v l ih =>
    by_cases hv : v = u
    · subst hv
      rw [List.erase_cons_head, findProc_cons_ne htask hp]
    · rw [List.erase_cons_tail (by simpa using hv)]
      simp only [State.findProc, findTask] at ih ⊢
      rw [ih]

theorem findProc_take {L : Place → List TaskId} {j : Place} (htask : s.tasks u = some task)
    (hp : task.p ≠ some p) (i : Place) : s.findProc p (take L j u i) = s.findProc p (L i) := by
  by_cases hi : i = j
  · subst hi
    rw [take, Function.update_self]
    exact findProc_erase htask hp _
  · rw [take, Function.update_of_ne hi]

end Lookups

/-! ### An attached task -/

/-- The hooks of process `p` find task `t`, or the process has exited. -/
def State.Attached (s : State) (p : Proc) (t : TaskId) : Prop :=
  ∃ task, s.tasks t = some task ∧ (task.p = some p ∧ s.Finds p t ∨ task.p = none)

section Attached

variable {s s' : State} {p : Proc} {t : TaskId} {l : Label} {ring : TaskId → List TaskId}

theorem State.Attached.reached (h : s.Attached p t) : s.Reached t := by
  obtain ⟨task, htask, hp⟩ := h
  intro x q hx hxq
  obtain rfl := Option.some_inj.mp (hx.symm.trans htask)
  rcases hp with ⟨hxp, hfinds⟩ | hnone
  · obtain rfl := Option.some_inj.mp (hxp.symm.trans hxq)
    exact .inr hfinds
  · exact absurd (hxq.symm.trans hnone) (by simp)

/-- A migrated process is found at the front of its new list. -/
theorem finds_of_migrate {dest : Cpu} {task : SmonTask} (hstep : s.exec (.migrate p dest) = .ok s')
    (htask : s.tasks t = some task) (hp : task.p = some p) (hfinds : s.Finds p t) : s'.Finds p t := by
  obtain ⟨s₂, hmigrate, hs⟩ := bind_eq_ok.mp hstep
  cases hs
  rcases migrate_cases hmigrate with ⟨hnone, -⟩ | ⟨u, s₁, hfound, hquiet, -, rfl⟩
  · rw [Finds, hnone] at hfinds
    cases hfinds
  obtain rfl : u = t := Option.some_inj.mp (Except.ok.inj (hfound.symm.trans hfinds))
  have hdel : (s.delCpuList (s.kernel.cpu p) u).tasks u = some task := htask
  obtain ⟨task₁, htask₁, hcore⟩ := hquiet.exists_task hdel
  have hp₁ : task₁.p = some p := by rw [congrArg TaskCore.p hcore, hp]
  have hcpu : (s₁.kernel.step (.migrate p dest)).cpu p = dest := Function.update_self ..
  have hlist : (s₁.addCpuList dest u).cpuList dest = u :: s₁.cpuList dest := Function.update_self ..
  change State.findProc _ p ((s₁.addCpuList dest u).cpuList ((s₁.kernel.step (.migrate p dest)).cpu p)) = _
  rw [hcpu, hlist]
  exact findProc_cons_self (s := (s₁.addCpuList dest u).withKernel _) htask₁ hp₁ _

/-- A process that exits leaves the task that its hooks find. -/
theorem gone_of_exit {task' : SmonTask} (hforest : Forest s.book ring)
    (hstep : s.exec (.exit p) = .ok s') (hfinds : s.Finds p t) (htask' : s'.tasks t = some task') :
    task'.p = none := by
  have hdeparted : ∀ {x : State}, Departed t x s' → task'.p = none := by
    intro x h
    obtain ⟨y, hy, hnone⟩ := h.after
    rw [Option.some_inj.mp (htask'.symm.trans hy), hnone]
  cases exec_turn hforest t hstep with
  | idle hidle => exact absurd hfinds hidle.1
  | exit hfound htask hstop hsave h => exact hdeparted h
  | leave hnot hfound h => exact hdeparted h
  | new hcomes => cases hcomes
  | gone hlt ht => exact absurd (ht.symm.trans htask') (by simp)

/-- The hooks still find the task. -/
theorem State.Attached.step (h : s.Attached p t) (hforest : Forest s.book ring) (hlisted : Listed s.book)
    (hl : l.Follows) (hstep : s.exec l = .ok s') : s'.Attached p t := by
  obtain ⟨task, htask, hp⟩ := h
  obtain ⟨task', htask', hp'⟩ := exists_task_of_follows hforest hl hstep htask
  rcases hp' with hp' | hp'
  case inr => exact ⟨task', htask', .inr hp'⟩
  rcases hp with ⟨hp, hfinds⟩ | hp
  case inr => exact ⟨task', htask', .inr (hp'.trans hp)⟩
  refine ⟨task', htask', .inl ⟨hp'.trans hp, ?_⟩⟩
  obtain ⟨hmem, -⟩ := findProc_some hfinds
  have hbook := exec_book_step hforest hstep
  -- a lookup in the new state, seen from the old one
  have hlook : (∀ v ∈ s'.lists (.cpu (s'.kernel.cpu p)), s'.book.entry v = s.book.entry v) →
      s.findProc p (s'.lists (.cpu (s'.kernel.cpu p))) =
        s.findProc p (s.lists (.cpu (s.kernel.cpu p))) → s'.Finds p t := fun hentry hlists =>
    Eq.trans (findProc_congr fun v hv => map_p_of_core (hentry v hv)) (hlists.trans hfinds)
  have hidle : s'.book = s.book.tick l → (s.kernel.step l).cpu p = s.kernel.cpu p →
      s'.Finds p t := by
    intro hb hcpu
    have hkernel : s'.kernel = s.kernel.step l := congrArg Book.kernel hb
    have hlists : s'.lists = s.lists := congrArg Book.lists hb
    refine hlook (fun v _ => congrFun (congrArg Book.entry hb) v) ?_
    rw [hlists, hkernel, hcpu]
  generalize hb : s'.book = b' at hbook hidle
  cases hbook with
  | idle l hl' =>
    refine hidle rfl ?_
    rcases hl' with ⟨d, rfl⟩ | ⟨me, ctr, inc, rfl⟩ | ⟨me, w, rfl⟩ | ⟨u, rfl⟩ | ⟨u, rfl⟩ |
      ⟨me, next, rfl⟩ | ⟨q, rfl⟩
    all_goals rfl
  | migrateNone q dest habsent =>
    refine hidle rfl ?_
    refine Function.update_of_ne ?_ _ _
    rintro rfl
    obtain ⟨c, hc, hne⟩ := habsent t hmem
    obtain rfl := Option.some_inj.mp (hc.symm.trans (entry_of_tasks htask))
    exact hne hp
  | migrate q dest u hat =>
    by_cases hq : p = q
    · subst hq
      exact finds_of_migrate hstep htask hp hfinds
    · obtain ⟨-, c, hc, hcp⟩ := hat
      obtain ⟨x, hx, rfl⟩ := tasks_of_entry hc
      have hne : x.p ≠ some p := fun heq => hq (Option.some_inj.mp (heq.symm.trans hcp))
      have hlists : s'.lists = put (take s.lists (.cpu (s.kernel.cpu q)) u) (.cpu dest) u :=
        congrArg Book.lists hb
      have hkernel : s'.kernel.cpu p = s.kernel.cpu p := by
        have hcpu := congrFun (congrArg (fun b => b.kernel.cpu) hb) p
        exact hcpu.trans (Function.update_of_ne hq ..)
      refine hlook (fun v _ => by rw [hb]; rfl) ?_
      rw [hlists, hkernel, findProc_put hx hne, findProc_take hx hne]
  | exitNone q habsent habsent' => exact hidle rfl rfl
  | exit q i u c rb hi hat hc hrb =>
    by_cases hq : p = q
    · subst hq
      exact absurd (hp'.trans hp) (by rw [gone_of_exit hforest hstep hfinds htask']; simp)
    · obtain ⟨hu, c', hc', hcp⟩ := hat
      obtain rfl := Option.some_inj.mp (hc'.symm.trans hc)
      obtain ⟨x, hx, rfl⟩ := tasks_of_entry hc
      have hne : x.p ≠ some p := fun heq => hq (Option.some_inj.mp (heq.symm.trans hcp))
      have hlists : s'.lists = take s.lists i u := congrArg Book.lists hb
      have hkernel : s'.kernel = s.kernel := congrArg Book.kernel hb
      refine hlook (fun v hv => ?_) ?_
      · rw [hlists] at hv
        rw [hb]
        exact Function.update_of_ne ((hlisted.separate.mem_take hu).mp hv).2 ..
      · rw [hlists, hkernel, findProc_take hx hne]
  | forkNone | fork | execNone | exec | register | unregister | registerNone | unregisterNone =>
    exact hl.elim

end Attached

/-! ### Sound records -/

/-- What is asked of the entries about a task that was registered at `reg`: a stop closes a start
since then, and a record begins since then and accounts for no more time than has passed. -/
def Opened (reg : ℤ) (a : Account) : TraceEvent → Prop
  | .stop _ me _ => ∃ b, a.since = some (me, b) ∧ reg ≤ b
  | .save _ sample _ => reg ≤ sample.timestampStart ∧ sample.duration ≤ sample.timestampStop - reg
  | _ => True

/-- The numbers of a task belong to the time since `reg`. -/
structure Recent (reg : ℤ) (clock : ℕ → ℤ) (n : ℕ) (task : SmonTask) (a : Account) : Prop where
  now : reg ≤ clock n
  since : ∀ c b, a.since = some (c, b) → reg ≤ b ∧ task.tscTmp = b ∧
    task.samplePmc.duration ≤ b - reg ∧ a.first.isSome = true
  still : a.since = none → task.samplePmc.duration ≤ clock n - reg
  first : if a.first.isSome = true then reg ≤ task.samplePmc.timestampStart
    else task.samplePmc.timestampStart = 0
  last : a.last.isSome = true → a.first.isSome = true ∧
    (a.since = none → task.samplePmc.duration ≤ task.samplePmc.timestampStop - reg)

/-- Starts, stops and saves keep it so. -/
theorem recent_tally {clock : ℕ → ℤ} (hclock : Monotone clock) (reg : ℤ) (t : TaskId) :
    Tally t clock (Recent reg clock) (Opened reg) := by
  constructor
  case congr =>
    intro n n' task task' a h hn hpmc htsc
    have hmono := hclock hn
    refine ⟨le_trans h.now hmono, fun c b hsince => ?_, fun hsince => ?_, ?_, ?_⟩
    · rw [hpmc, htsc]
      exact h.since c b hsince
    · rw [hpmc]
      have := h.still hsince
      omega
    · rw [hpmc]
      exact h.first
    · rw [hpmc]
      exact h.last
  case count =>
    intro n task a me ctr inc h
    rw [Account.step_count]
    exact ⟨h.now, h.since, h.still, h.first, h.last⟩
  case start =>
    intro n task a me h hsince
    have hstep : a.step t (.start t me (clock n)) =
        { a with since := some (me, clock n), first := a.first.or (some (clock n)) } := if_pos rfl
    have hsome : (a.first.or (some (clock n))).isSome = true := by cases a.first <;> rfl
    rw [hstep]
    refine ⟨⟨h.now, fun c b heq => ?_, fun heq => (by cases heq), ?_, fun hlast => ?_⟩, trivial⟩
    · obtain ⟨rfl, rfl⟩ := Prod.mk.inj (Option.some_inj.mp heq)
      exact ⟨h.now, rfl, h.still hsince, hsome⟩
    · have hfirst := h.first
      rw [if_pos hsome]
      change reg ≤ if task.samplePmc.timestampStart = 0 then clock n else task.samplePmc.timestampStart
      split
      · exact h.now
      · rename_i hne
        by_cases hold : a.first.isSome = true
        · rwa [if_pos hold] at hfirst
        · rw [if_neg hold] at hfirst
          exact absurd hfirst hne
    · exact ⟨hsome, fun heq => (by cases heq)⟩
  case stop =>
    intro n task a me b pmc h hsince
    have hstep : a.step t (.stop t me (clock n)) =
        { a with
          since := none, last := some (clock n), duration := a.duration + a.elapsed (clock n) } :=
      if_pos rfl
    obtain ⟨hreg, htsc, hduration, hfirst⟩ := h.since me b hsince
    have hbound : (task.stopped (clock n) pmc).samplePmc.duration ≤ clock n - reg := by
      change task.samplePmc.duration + (clock n - task.tscTmp) ≤ clock n - reg
      omega
    rw [hstep]
    refine ⟨⟨h.now, fun c b heq => (by cases heq), fun _ => hbound, h.first,
      fun _ => ⟨hfirst, fun _ => hbound⟩⟩, b, hsince, hreg⟩
  case sched => exact fun _ _ => trivial
  case save =>
    intro n task a envir h hsince hlast
    have hstep : a.step t (.save t task.record envir) = { Account.zero with since := a.since } :=
      if_pos rfl
    obtain ⟨hfirst, hduration⟩ := h.last hlast
    have hstart := h.first
    rw [if_pos hfirst] at hstart
    rw [hstep, hsince]
    refine ⟨⟨h.now, fun c b heq => (by cases heq), fun _ => ?_, rfl, fun heq => (by cases heq)⟩,
      hstart, hduration hsince⟩
    have := h.now
    change (0 : ℤ) ≤ clock n - reg
    omega

/-! ### Runs -/

/-- What holds after a task was registered for a process on no CPU. -/
structure State.Watching (clock : ℕ → ℤ) (reg : ℤ) (p : Proc) (t : TaskId) (s : State) : Prop where
  world : s.World
  same : s.clock = clock
  attached : s.Attached p t
  steered : Steered t s
  fed : Fed (Recent reg clock) (Opened reg) t s

section Runs

variable {s s' s₀ s₁ : State} {p : Proc} {t : TaskId} {l : Label} {ls ls' : List Label} {reg : ℤ}
  {clock : ℕ → ℤ} {me : Cpu} {pid : Pid} {envir : SmonEnvir} {b : RbId} {alloc : Alloc}

/-- What may happen after a registration keeps it sound. -/
theorem State.Watching.step (hclock : Monotone clock) (h : State.Watching clock reg p t s)
    (hl : l.Follows) (hstep : s.Step l s') (horderly : s.kernel.Orderly l) (hprompt : s.Prompt l) :
    State.Watching clock reg p t s' := by
  obtain ⟨hworld, rfl, hattached, hsteered, hfed⟩ := h
  obtain ⟨ring, hforest⟩ := hworld.forest
  obtain ⟨task, htask, -⟩ := id hattached
  obtain ⟨task', htask', -⟩ := exists_task_of_follows hforest hl hstep.2 htask
  have hcourse := exec_course hforest hworld.listed hworld.sane hattached.reached horderly hprompt hstep
  have hlt := lt_fresh_of_tasks hforest htask
  have hsteered' := hsteered.step hlt hcourse htask htask'
  exact ⟨hworld.step horderly hstep, (exec_clock hforest hstep.2).1,
    hattached.step hforest hworld.listed hl hstep.2, hsteered',
    hfed.step (recent_tally hclock reg t) hsteered hsteered' hforest hstep.2 hlt hcourse htask htask'⟩

/-- A registration without `on_exec`, of a process on no CPU. -/
theorem watching_of_register (hworld : s.World) (hclock : Monotone s.clock)
    (hexec : envir.options.onExec = false) (halloc : alloc.task = true ∧ alloc.envir = true)
    (hidle : s.kernel.curr (s.kernel.cpu (s.kernel.forEachProcess pid)) ≠ s.kernel.forEachProcess pid)
    (hstep : s.Step (.register me pid envir b alloc) s₁) :
    State.Watching s.clock (s.clock s.reads) (s.kernel.forEachProcess pid) s.fresh s₁ := by
  obtain ⟨ring, hforest⟩ := hworld.forest
  have hbook := exec_book_step hforest hstep.2
  generalize hb : s₁.book = b' at hbook
  cases hbook with
  | idle l hl => simp at hl
  | registerNone me pid envir rb alloc hfail => simp [halloc] at hfail
  | register me pid envir rb alloc _ =>
  have hkernel : s₁.kernel = s.kernel := congrArg Book.kernel hb
  have hentry : s₁.book.entry s.fresh = some (⟨some (s.kernel.forEachProcess pid), pid, s.fresh, 0,
      some b⟩, some b) := by
    rw [hb]
    exact Function.update_self ..
  have hlists : s₁.cpuList (s.kernel.cpu (s.kernel.forEachProcess pid)) =
      s.fresh :: s.cpuList (s.kernel.cpu (s.kernel.forEachProcess pid)) := by
    have hput := congrFun (congrArg Book.lists hb) (.cpu (s.kernel.cpu (s.kernel.forEachProcess pid)))
    refine hput.trans ?_
    simp only [Book.addRoot, Book.rootPlace, hexec, Bool.false_eq_true, if_false]
    exact Function.update_self ..
  obtain ⟨task, htask, hcore⟩ := tasks_of_entry hentry
  have hp : task.p = some (s.kernel.forEachProcess pid) := congrArg (fun c => c.1.p) hcore
  have hfinds : s₁.Finds (s.kernel.forEachProcess pid) s.fresh := by
    rw [Finds, hkernel, hlists]
    exact findProc_cons_self htask hp _
  have hgone := tasks_of_fresh_le hforest (Nat.le_refl s.fresh)
  have horderly : s.kernel.Orderly (.register me pid envir b alloc) := ⟨trivial, by simp⟩
  have hcourse := exec_course (t := s.fresh) hforest hworld.listed hworld.sane
    (fun x _ hx => absurd (hx.symm.trans hgone) (by simp)) horderly (fun _ c w h => by cases h) hstep
  obtain ⟨p, hcomes, hborn⟩ := hcourse.born hgone htask
  have hreads : s.reads ≤ s₁.reads := by
    obtain ⟨-, -, _, _, _, _, haside⟩ := hborn
    exact haside.reads
  have hleft : ∀ c, ¬ s₁.RunsOn s.fresh c := by
    rintro c ⟨x, q, hx, hq, -, rfl, hcurr⟩
    obtain rfl := Option.some_inj.mp (hx.symm.trans htask)
    obtain rfl := Option.some_inj.mp (hp.symm.trans hq)
    rw [hkernel] at hcurr
    exact hidle hcurr
  refine ⟨hworld.step horderly hstep, (exec_clock hforest hstep.2).1, ⟨task, htask, .inl ⟨hp, hfinds⟩⟩,
    .of_born hborn hworld.unborn, .of_born hborn hworld.unborn (fun pid' x hx => ?_) hleft⟩
  have hnow := hclock hreads
  refine ⟨hnow, fun c b heq => (by cases heq), fun _ => ?_, ?_, fun heq => (by cases heq)⟩
  · rw [hx]
    exact Int.sub_nonneg_of_le hnow
  · simp only [hx]
    rfl

/-- **A task is sound whose process was on no CPU when it was registered.** -/
theorem opened_of_run
    (run : Run (fun s l s' => s.Step l s' ∧ s.kernel.Orderly l) s₀ ls s) (init : s₀.Initial)
    (hclock : Monotone s₀.clock) (hexec : envir.options.onExec = false)
    (halloc : alloc.task = true ∧ alloc.envir = true)
    (hregister : s.Step (.register me pid envir b alloc) s₁)
    (hidle : s.kernel.curr (s.kernel.cpu (s.kernel.forEachProcess pid)) ≠ s.kernel.forEachProcess pid)
    (run' : Run (fun s l s' => l.Follows ∧ s.Step l s' ∧ s.kernel.Orderly l ∧ s.Prompt l) s₁ ls' s') :
    Each (Asked s.fresh (Opened (s.clock s.reads))) s'.trace := by
  have hworld := world_of_run run init
  have hsame : s.clock = s₀.clock := clock_of_run run init
  rw [← hsame] at hclock
  have hwatching := watching_of_register hworld hclock hexec halloc hidle hregister
  have hend := run'.invariant (motive := State.Watching s.clock (s.clock s.reads) _ s.fresh) hwatching
    fun s l s' h ⟨hl, hstep, horderly, hprompt⟩ => h.step hclock hl hstep horderly hprompt
  obtain ⟨task, htask, -⟩ := hend.attached
  exact (hend.fed.kept task htask).asked

end Runs

theorem monotone_boot (events : List SmonEvent) (evsets : List SmonEvset) :
    Monotone (boot events evsets).clock := fun m n hmn => by
  change (m : ℤ) + 1 ≤ n + 1
  omega

/-- A process is watched from before it runs, and exits. -/
theorem opened_of_run_switch : ∃ s₁ s',
    (boot [] [fixedOnly]).Step (.register 1 1 inheriting 0 ⟨true, true, true⟩) s₁ ∧
    Run (fun s l s' => l.Follows ∧ s.Step l s' ∧ s.kernel.Orderly l ∧ s.Prompt l) s₁
      [.switch 0 1, .irq 0 (.startTimer 0), .exit 1] s' ∧
    Each (Asked 0 (Opened 1)) s'.trace ∧ s'.trace.length = 3 := by
  obtain ⟨s₁, s', hregister, run', hlength⟩ : ∃ s₁ s',
      (boot [] [fixedOnly]).Step (.register 1 1 inheriting 0 ⟨true, true, true⟩) s₁ ∧
      Run (fun s l s' => l.Follows ∧ s.Step l s' ∧ s.kernel.Orderly l ∧ s.Prompt l) s₁
        [.switch 0 1, .irq 0 (.startTimer 0), .exit 1] s' ∧ s'.trace.length = 3 := by
    refine ⟨_, _, ⟨trivial, rfl⟩, .cons ⟨trivial, ⟨trivial, rfl⟩, ⟨rfl, ?_⟩, ?_⟩ <|
      .cons ⟨trivial, ⟨by decide, rfl⟩, ⟨trivial, by simp⟩, ?_⟩ <|
      .cons ⟨trivial, ⟨trivial, rfl⟩, ⟨rfl, by simp⟩, ?_⟩ .nil, rfl⟩
    · rintro me next ⟨⟩
      exact ⟨by decide, rfl⟩
    · exact fun _ _ _ _ => List.not_mem_nil
    · exact fun _ _ _ h => by cases h
    · exact fun _ _ _ _ => List.not_mem_nil
  refine ⟨s₁, s', hregister, run', ?_, hlength⟩
  exact opened_of_run .nil (initial_boot ..) (monotone_boot ..) rfl ⟨rfl, rfl⟩ hregister (by decide) run'

/-- **A process that was attached while it ran**, and exits: the sample that is stopped was never
started. -/
theorem not_opened : (boot [] [fixedOnly]).Initial ∧ Monotone (boot [] [fixedOnly]).clock ∧
    ∃ s s₁ s', Run (fun s l s' => s.Step l s' ∧ s.kernel.Orderly l) (boot [] [fixedOnly])
      [.switch 0 1] s ∧ s.Step (.register 1 1 inheriting 0 ⟨true, true, true⟩) s₁ ∧
    Run (fun s l s' => l.Follows ∧ s.Step l s' ∧ s.kernel.Orderly l ∧ s.Prompt l) s₁ [.exit 1] s' ∧
    ¬ Each (Asked s.fresh (Opened (s.clock s.reads))) s'.trace := by
  refine ⟨initial_boot .., monotone_boot .., _, _, _, .single ⟨⟨trivial, rfl⟩, rfl, ?_⟩,
    ⟨trivial, rfl⟩, .single ⟨trivial, ⟨trivial, rfl⟩, ⟨rfl, by simp⟩, ?_⟩, fun h => ?_⟩
  · rintro me next ⟨⟩
    exact ⟨by decide, rfl⟩
  · exact fun _ _ _ _ => List.not_mem_nil
  · obtain ⟨b, hsince, -⟩ := h [] (.stop 0 0 2) _ rfl rfl
    cases hsince

end SchedMon
