import SchedMon.Driver.Descendants

/-!
# Lists and destroyed tasks

A task is on one list of the scheduler as long as its process has not exited: `Listed`. Its
destruction takes it from no list, so unregistering leaves nothing behind exactly when everything
it destroys has exited before. `smon_sched_exit` empties the lists of the CPUs before it
unregisters; `smon_sched_unregister_task` does not.

## Main results

* `Listed.step`, `exists_listed` — which tasks are on a list
* `leavesNothing_iff` — **when unregistering leaves nothing behind**
* `not_leavesNothing_running` — a task unregistered while its process runs
-/

namespace SchedMon

open State SchedMon.Shelf

/-- The live tasks whose process has not exited, and of the live tasks only these, are listed. -/
structure Listed (b : Book) : Prop where
  separate : Separate b.lists
  bound : ∀ i, ∀ t ∈ b.lists i, t < b.fresh
  fresh : ∀ t c, b.entry t = some c → t < b.fresh
  live : ∀ t c, b.entry t = some c → ((∃ i, t ∈ b.lists i) ↔ c.1.p.isSome)

namespace Listed

variable {b b' : Book} {t : TaskId}

theorem not_mem_fresh (h : Listed b) (i : Place) : b.fresh ∉ b.lists i := fun hmem =>
  Nat.lt_irrefl _ (h.bound i _ hmem)

theorem move (h : Listed b) {i : Place} (j : Place) (ht : t ∈ b.lists i) :
    Listed (b.move t i j) := by
  have hmem : ∀ u, (∃ k, u ∈ (b.move t i j).lists k) ↔ ∃ k, u ∈ b.lists k := by
    intro u
    simp only [Book.move, h.separate.mem_move ht]
    constructor
    · rintro ⟨k, ⟨hu, -⟩ | ⟨-, rfl⟩⟩
      · exact ⟨k, hu⟩
      · exact ⟨i, ht⟩
    · rintro ⟨k, hu⟩
      by_cases hut : u = t
      · exact ⟨j, .inr ⟨rfl, hut⟩⟩
      · exact ⟨k, .inl ⟨hu, hut⟩⟩
  refine ⟨h.separate.move ht, fun k u hu => ?_, h.fresh, fun u c hc => ?_⟩
  · obtain ⟨k', hu'⟩ := (hmem u).mp ⟨k, hu⟩
    exact h.bound k' u hu'
  · rw [hmem u]
    exact h.live u c hc

theorem leave (h : Listed b) {i : Place} {c : TaskCore × Option RbId} (rb : RbId)
    (ht : t ∈ b.lists i) (hc : b.entry t = some c) : Listed (b.leave t c rb i) := by
  have hmem : ∀ u, (∃ k, u ∈ (b.leave t c rb i).lists k) ↔ (∃ k, u ∈ b.lists k) ∧ u ≠ t := by
    intro u
    simp only [Book.leave, h.separate.mem_take ht, exists_and_right]
  refine ⟨h.separate.take, fun k u hu => ?_, fun u d hd => ?_, fun u d hd => ?_⟩
  · obtain ⟨⟨k', hu'⟩, -⟩ := (hmem u).mp ⟨k, hu⟩
    exact h.bound k' u hu'
  · by_cases hut : u = t
    · exact hut ▸ h.fresh t c hc
    · simp only [Book.leave, Function.update_of_ne hut] at hd
      exact h.fresh u d hd
  · rw [hmem u]
    by_cases hut : u = t
    · subst hut
      simp only [Book.leave, Function.update_self, Option.some_inj] at hd
      subst hd
      simp
    · simp only [Book.leave, Function.update_of_ne hut] at hd
      rw [← h.live u d hd]
      simp [hut]

/-- A new task on a list. -/
theorem add (h : Listed b) {i : Place} {e : TaskCore × Option RbId} (hp : e.1.p.isSome = true)
    (hfresh : b'.fresh = b.fresh + 1) (hlists : b'.lists = put b.lists i b.fresh)
    (hnew : b'.entry b.fresh = some e)
    (hold : ∀ u d', u ≠ b.fresh → b'.entry u = some d' →
      ∃ d, b.entry u = some d ∧ d'.1.p = d.1.p) : Listed b' := by
  have hmem : ∀ u, (∃ k, u ∈ b'.lists k) ↔ (∃ k, u ∈ b.lists k) ∨ u = b.fresh := by
    intro u
    simp only [hlists, mem_put]
    constructor
    · rintro ⟨k, hu | ⟨-, hu⟩⟩
      · exact .inl ⟨k, hu⟩
      · exact .inr hu
    · rintro (⟨k, hu⟩ | hu)
      · exact ⟨k, .inl hu⟩
      · exact ⟨i, .inr ⟨rfl, hu⟩⟩
  refine ⟨hlists ▸ h.separate.put h.not_mem_fresh, fun k u hu => ?_, fun u d' hd' => ?_,
    fun u d' hd' => ?_⟩
  · rw [hfresh]
    rcases (hmem u).mp ⟨k, hu⟩ with ⟨k', hu'⟩ | rfl
    · exact Nat.lt_succ_of_lt (h.bound k' u hu')
    · exact Nat.lt_succ_self _
  · rw [hfresh]
    by_cases hu : u = b.fresh
    · exact hu ▸ Nat.lt_succ_self _
    · obtain ⟨d, hd, -⟩ := hold u d' hu hd'
      exact Nat.lt_succ_of_lt (h.fresh u d hd)
  · rw [hmem u]
    by_cases hu : u = b.fresh
    · subst hu
      rw [hnew, Option.some_inj] at hd'
      subst hd'
      simp [hp]
    · obtain ⟨d, hd, hpd⟩ := hold u d' hu hd'
      rw [hpd, ← h.live u d hd]
      simp [hu]

theorem drop (h : Listed b) {r : TaskId} {xs : List TaskId} (hd : b.Dropped r xs b') :
    Listed b' := by
  have hback : ∀ u d, b'.entry u = some d → b.entry u = some d := by
    intro u d hu
    rw [hd.entry] at hu
    split at hu
    · cases hu
    · exact hu
  refine ⟨hd.lists ▸ h.separate, ?_, fun u d hu => ?_, fun u d hu => ?_⟩
  · rw [hd.lists, hd.fresh]
    exact h.bound
  · exact hd.fresh ▸ h.fresh u d (hback u d hu)
  · rw [hd.lists]
    exact h.live u d (hback u d hu)

theorem step {l : Label} (h : Listed b) (hstep : BookStep b l b') : Listed b' := by
  cases hstep with
  | idle | migrateNone | execNone | exitNone | registerNone | unregisterNone | forkNone =>
    exact ⟨h.separate, h.bound, h.fresh, h.live⟩
  | migrate p dest t hat =>
    obtain ⟨h1, h2, h3, h4⟩ := h.move (.cpu dest) hat.1
    exact ⟨h1, h2, h3, h4⟩
  | exec p t hat => exact h.move _ hat.1
  | exit p i t c rb hi hat hc hrb => exact h.leave rb hat.1 hc
  | register me pid envir rb alloc halloc =>
    refine h.add (by rfl) rfl rfl (Function.update_self ..) fun u d' hu hd' => ⟨d', ?_, rfl⟩
    simpa [Book.addRoot, hu] using hd'
  | fork parent child pid cpu leader k t c rb envir hk hat hc hrb henvir hinherit =>
    have htn : b.fresh ≠ t := fun heq => Nat.lt_irrefl _ (heq ▸ h.fresh t c hc)
    refine h.add (e := ⟨⟨some child, k.pid child, c.1.envir, 0, some rb⟩, none⟩) (by rfl) rfl rfl ?_
      fun u d' hu hd' => ?_
    · simp only [Book.addChild, Function.update_of_ne htn, Function.update_self]
    · by_cases hut : u = t
      · subst hut
        simp only [Book.addChild, Function.update_self, Option.some_inj] at hd'
        exact ⟨c, hc, by rw [← hd']⟩
      · simp only [Book.addChild, Function.update_of_ne hut, Function.update_of_ne hu] at hd'
        exact ⟨d', hd', rfl⟩
  | unregister pid r c xs b' hr hc hpid hring hd => exact h.drop hd

end Listed

variable {s s' s₀ : State} {ls : List Label}

theorem Initial.listed (h : s₀.Initial) : Listed s₀.book := by
  have hlists : ∀ i, s₀.lists i = [] := by
    intro i
    cases i with
    | waiting => exact h.waitList
    | cpu c => exact h.cpuList c
  have hentry : ∀ t, s₀.book.entry t = none := fun t => by simp [State.book, h.tasks t]
  have hbook : s₀.book.lists = s₀.lists := rfl
  refine ⟨⟨?_, ?_⟩, ?_, ?_, ?_⟩ <;> simp [hbook, hlists, hentry]

/-- In every reachable state, families are in order and tasks are listed as they should be. -/
theorem forest_listed (run : Run State.Step s₀ ls s) (init : s₀.Initial) :
    (∃ ring, Forest s.book ring) ∧ Listed s.book :=
  run.invariant (motive := fun s => (∃ ring, Forest s.book ring) ∧ Listed s.book)
    ⟨⟨_, Initial.forest init⟩, Initial.listed init⟩ <| by
    rintro t l u ⟨⟨ring, hforest⟩, hlisted⟩ hstep
    have hbook := exec_book_step hforest hstep.2
    exact ⟨hforest.step hbook, hlisted.step hbook⟩

/-! ### What unregistering leaves behind -/

/-- Task `t` is on no list at all. -/
def State.Unlisted (s : State) (t : TaskId) : Prop := t ∉ s.taskList ∧ ∀ i, t ∉ s.lists i

/-- Task `t` was live before and is not live after. -/
def Gone (s s' : State) (t : TaskId) : Prop := s.tasks t ≠ none ∧ s'.tasks t = none

/-- Destroyed tasks are on no list, now or later, and others are where they were. -/
structure LeavesNothing (s s' : State) : Prop where
  unlisted : ∀ t, Gone s s' t → s'.Unlisted t
  later : ∀ ls s'', Run State.Step s' ls s'' → ∀ t, Gone s s' t → s''.Unlisted t
  others : ∀ t, ¬ Gone s s' t → s'.tasks t = s.tasks t ∧
    s'.taskList.count t = s.taskList.count t ∧ ∀ i, (s'.lists i).count t = (s.lists i).count t

variable {b b' : Book} {t r : TaskId}

/-- A dead task on no list. -/
structure Book.Out (b : Book) (t : TaskId) : Prop where
  old : t < b.fresh
  entry : b.entry t = none
  taskList : t ∉ b.taskList
  lists : ∀ i, t ∉ b.lists i

/-- No event brings a dead task back. -/
theorem Book.Out.step {l : Label} (h : b.Out t) (hlisted : Listed b) (hstep : BookStep b l b') :
    b'.Out t := by
  obtain ⟨hold, hentry, htaskList, hlists⟩ := h
  have hne : t ≠ b.fresh := Nat.ne_of_lt hold
  have hother : ∀ u c, b.entry u = some c → t ≠ u := by
    rintro u c hc rfl
    rw [hentry] at hc
    cases hc
  cases hstep with
  | idle | migrateNone | execNone | exitNone | registerNone | unregisterNone | forkNone =>
    exact ⟨hold, hentry, htaskList, hlists⟩
  | migrate p dest u hat =>
    refine ⟨hold, hentry, htaskList, fun i hi => ?_⟩
    rcases (hlisted.separate.mem_move hat.1).mp hi with ⟨hi, -⟩ | ⟨-, rfl⟩
    · exact hlists i hi
    · exact hlists _ hat.1
  | exec p u hat =>
    refine ⟨hold, hentry, htaskList, fun i hi => ?_⟩
    rcases (hlisted.separate.mem_move hat.1).mp hi with ⟨hi, -⟩ | ⟨-, rfl⟩
    · exact hlists i hi
    · exact hlists _ hat.1
  | exit p i u c rb hi hat hc hrb =>
    refine ⟨hold, ?_, htaskList, fun j hj => ?_⟩
    · simp only [Book.leave, Function.update_of_ne (hother u c hc), hentry]
    · exact hlists j ((hlisted.separate.mem_take hat.1).mp hj).1
  | register me pid envir rb alloc halloc =>
    refine ⟨Nat.lt_succ_of_lt hold, ?_, ?_, fun i hi => ?_⟩
    · simp only [Book.addRoot, Function.update_of_ne hne, hentry]
    · simp [Book.addRoot, hne, htaskList]
    · rcases mem_put.mp hi with hi | ⟨-, hi⟩
      · exact hlists i hi
      · exact hne hi
  | fork parent child pid cpu leader k u c rb envir hk hat hc hrb henvir hinherit =>
    refine ⟨Nat.lt_succ_of_lt hold, ?_, htaskList, fun i hi => ?_⟩
    · simp only [Book.addChild, Function.update_of_ne (hother u c hc), Function.update_of_ne hne,
        hentry]
    · rcases mem_put.mp hi with hi | ⟨-, hi⟩
      · exact hlists i hi
      · exact hne hi
  | unregister pid r c xs b' hr hc hpid hring hd =>
    refine ⟨hd.fresh ▸ hold, ?_, ?_, hd.lists ▸ hlists⟩
    · rw [hd.entry, hentry, ite_self]
    · rw [hd.taskList]
      exact fun hmem => htaskList (List.mem_of_mem_erase hmem)

theorem Book.Out.run (h : s.book.Out t) (hforest : ∃ ring, Forest s.book ring)
    (hlisted : Listed s.book) (run : Run State.Step s ls s') : s'.Unlisted t := by
  have hall := run.invariant (motive := fun s =>
    ((∃ ring, Forest s.book ring) ∧ Listed s.book) ∧ s.book.Out t) ⟨⟨hforest, hlisted⟩, h⟩ <| by
    rintro u l v ⟨⟨⟨ring, hforest⟩, hlisted⟩, hout⟩ hstep
    have hbook := exec_book_step hforest hstep.2
    exact ⟨⟨hforest.step hbook, hlisted.step hbook⟩, hout.step hlisted hbook⟩
  exact ⟨hall.2.taskList, hall.2.lists⟩

theorem Listed.mem_lists_iff (h : Listed s.book) (hlive : s.tasks t ≠ none) :
    (∃ i, t ∈ s.lists i) ↔ s.alive t = true := by
  obtain ⟨task, htask⟩ := Option.ne_none_iff_exists'.mp hlive
  simp only [alive, htask]
  exact h.live t task.core (entry_of_tasks htask)

/-- **Unregistering leaves nothing behind** if and only if the processes of the registered task and
of all its descendants have exited. -/
theorem leavesNothing_iff {pid : Pid} (run : Run State.Step s₀ ls s) (init : s₀.Initial)
    (h : s.smonSchedUnregisterTask pid = .ok (0, s')) :
    ∃ r, s.findTask (fun task => task.pid = pid) s.taskList = .ok (some r) ∧
      (LeavesNothing s s' ↔ ∀ t, t = r ∨ Descends s.trace r t → s.alive t = false) := by
  obtain ⟨⟨ring, hforest⟩, hlisted⟩ := forest_listed run init
  obtain ⟨found, hfound, h⟩ := bind_eq_ok.mp h
  cases found with
  | none => cases h
  | some r =>
    obtain ⟨hr, -⟩ := findTask_some hfound
    obtain ⟨s₁, hs₁, hun⟩ := hforest.unregister hr
    obtain ⟨s₂, hs₂, h⟩ := bind_eq_ok.mp h
    obtain rfl : s₁ = s₂ := Except.ok.inj (hs₁.symm.trans hs₂)
    obtain rfl : s₁ = s' := (Prod.mk.inj (Except.ok.inj h)).2
    have hbook := hun.book
    have hlists : s₁.lists = s.lists := hbook.lists
    have htaskList : s₁.taskList = s.taskList.erase r := hbook.taskList
    have hfamily : ∀ t, t = r ∨ Descends s.trace r t ↔ t ∈ r :: ring r := fun t => by
      rw [List.mem_cons, hforest.descent r hr, descends_book]
    have hlive : ∀ t ∈ r :: ring r, s.tasks t ≠ none := by
      intro t ht
      obtain ⟨task, htask, -⟩ := (hforest.family hr).live t ht
      simp [htask]
    have hgone : ∀ t, Gone s s₁ t ↔ t ∈ r :: ring r := by
      intro t
      constructor
      · rintro ⟨hbefore, hafter⟩
        rw [hun.tasks] at hafter
        by_contra hmem
        rw [if_neg hmem] at hafter
        exact hbefore hafter
      · exact fun hmem => ⟨hlive t hmem, by rw [hun.tasks, if_pos hmem]⟩
    refine ⟨r, hfound, ?_⟩
    constructor
    · intro hleaves t ht
      rw [hfamily] at ht
      by_contra halive
      obtain ⟨i, hi⟩ := (hlisted.mem_lists_iff (hlive t ht)).mpr (by simpa using halive)
      exact (hleaves.unlisted t ((hgone t).mpr ht)).2 i (hlists ▸ hi)
    · intro hexited
      have hout : ∀ t, Gone s s₁ t → s₁.book.Out t := by
        intro t ht
        have hmem := (hgone t).mp ht
        refine ⟨hbook.fresh ▸ hforest.lt_fresh hr hmem, ?_, ?_, fun i hi => ?_⟩
        · rw [hbook.entry, if_pos hmem]
        · rw [hbook.taskList, hforest.nodup.mem_erase_iff]
          rintro ⟨hne, hroot⟩
          exact hforest.disjoint hr hroot hne List.mem_cons_self hmem
        · have halive := (hlisted.mem_lists_iff (hlive t hmem)).mp ⟨i, hlists ▸ hi⟩
          rw [hexited t ((hfamily t).mpr hmem)] at halive
          cases halive
      have hforest' := hforest.drop hr hbook
      have hlisted' := hlisted.drop hbook
      refine ⟨fun t ht => ⟨(hout t ht).taskList, (hout t ht).lists⟩, fun ls s₂ run t ht =>
        (hout t ht).run ⟨_, hforest'⟩ hlisted' run, fun t ht => ?_⟩
      rw [hgone] at ht
      have htr : t ≠ r := fun heq => ht (heq ▸ List.mem_cons_self)
      refine ⟨by rw [hun.tasks, if_neg ht], ?_, fun i => by rw [hlists]⟩
      rw [htaskList, List.count_erase_of_ne htr]

/-- A registered task, whose process runs. -/
def runningTask : State := (boot [] [fixedOnly]).after
  [.register 0 1 inheriting 0 ⟨true, true, true⟩, .switch 0 1]

/-- **A task is unregistered while its process runs**: it stays on the list of its CPU, and the
switch to another process looks at it after it has been freed. -/
theorem not_leavesNothing_runningTask :
    (∃ ls, Run State.Step (boot [] [fixedOnly]) ls runningTask) ∧ (boot [] [fixedOnly]).Initial ∧
    ∃ s', runningTask.smonSchedUnregisterTask 1 = .ok (0, s') ∧ Gone runningTask s' 0 ∧
      s'.cpuList 0 = [0] ∧ ¬ LeavesNothing runningTask s' ∧
      s'.smonSchedSwitch 1 0 = .error .useAfterFree := by
  refine ⟨⟨_, run_after rfl⟩, initial_boot .., _, rfl, ⟨by decide, rfl⟩, rfl, fun h => ?_, rfl⟩
  exact (h.unlisted 0 ⟨by decide, rfl⟩).2 (.cpu 0) (by decide)

theorem leavesNothing_iff_runningTask : ∃ s', runningTask.smonSchedUnregisterTask 1 = .ok (0, s') ∧
    ∃ r, runningTask.findTask (fun task => task.pid = 1) runningTask.taskList = .ok (some r) ∧
      (LeavesNothing runningTask s' ↔
        ∀ t, t = r ∨ Descends runningTask.trace r t → runningTask.alive t = false) :=
  ⟨_, rfl, leavesNothing_iff (run_after rfl) (initial_boot ..) rfl⟩

end SchedMon
