import SchedMon.Driver.Forest

/-!
# Unregistering a task and its descendants

The loop of `smon_sched_unregister_children` goes once round the flat ring that `Forest` describes.
Read by the history instead of by the links: it destroys the descendants of the registered task.

## Main results

* `unregister_descendants` — **descendants are destroyed exactly once, then the task, and nothing
  else**
-/

namespace SchedMon

open State

variable {s s' s₀ : State} {r t : TaskId} {ds : List TaskId}

/-- Is this a task whose process has not exited? -/
def State.alive (s : State) (t : TaskId) : Bool :=
  match s.tasks t with
  | some task => task.p.isSome
  | none => false

/-- The loop has destroyed the descendants `ds` of `root`, whose environment has one user left. -/
structure LoopDone (s : State) (root : SmonTask) (ds : List TaskId) (s' : State) : Prop where
  destroyed : s'.trace = s.trace ++ ds.map .destroy
  tasks : ∀ t, s'.tasks t = if t ∈ ds then none else s.tasks t
  count : ∃ envir, s'.envirs root.envir = some envir ∧ envir.count = 1

/-- The family of task `r` with the buffer `b` is gone, and nothing else. -/
structure FamilyGone (s : State) (r : TaskId) (root : SmonTask) (b : RbId) (ds : List TaskId)
    (s' : State) : Prop where
  /-- The environment is freed with the last user, which is `r`. -/
  destroyed : s'.trace = s.trace ++ ds.map .destroy ++ [.freeEnvir root.envir, .destroy r]
  tasks : ∀ t, s'.tasks t = if t ∈ r :: ds then none else s.tasks t
  active : ∀ b', (s'.rbs b').active =
    (s.rbs b').active - if b' = b then (r :: ds).countP s.alive else 0
  /-- The rings and counts of other registered tasks. -/
  others : ∀ r' ∈ s.taskList, r' ≠ r → r' ∈ s'.taskList ∧ (∃ ys, s.children.IsRing r' ys ∧
      s'.children.IsRing r' ys ∧ ∀ t, t ∈ ys ↔ Descends s.trace r' t) ∧
    ∀ task, s.tasks r' = some task → s'.envirs task.envir = s.envirs task.envir

theorem descends_book : Descends s.book.history r t ↔ Descends s.trace r t :=
  descends_congr fun a c => by simp [State.book, TraceEvent.isBook]

/-- A member of a family that has not exited writes to the buffer of the registered task. -/
theorem Forest.holds_iff {ring : TaskId → List TaskId} {root : SmonTask} {extra : SmonTaskExtra}
    (h : Forest s.book ring) (hr : r ∈ s.taskList) (hroot : s.tasks r = some root)
    (hextra : root.extra = some extra) (ht : t ∈ r :: ring r) (b : RbId) :
    s.holds b t = (b = extra.rb && s.alive t) := by
  obtain ⟨c, hc, henv, -⟩ := h.member r hr t ht
  obtain ⟨task, htask, rfl⟩ := tasks_of_entry hc
  obtain ⟨hiff, hbuffer⟩ := h.buffer t task.core hc
  have hrb : ∀ b', task.rb = some b' → extra.rb = b' := by
    intro b' hb'
    obtain ⟨root', hroot', hx⟩ := hbuffer b' hb'
    rw [henv, entry_of_tasks hroot, Option.some_inj] at hroot'
    subst hroot'
    simpa [SmonTask.core, hextra] using hx
  have hiff' : task.rb.isSome = task.p.isSome := Bool.eq_iff_iff.mpr hiff
  simp only [holds, alive, htask, ← hiff']
  cases hb : task.rb with
  | none => simp
  | some b' =>
    obtain rfl := hrb b' hb
    by_cases hbb : b = extra.rb
    · simp [hbb]
    · simp [hbb, eq_comm]

/-- **Unregistering a task** in any reachable state: the loop over its children ends and destroys
every descendant at every depth once, then the task goes and its environment with it, the buffer
loses as many writers as had not exited, and no other family changes. -/
theorem unregister_descendants {ls : List Label} (run : Run State.Step s₀ ls s) (init : s₀.Initial)
    (hr : r ∈ s.taskList) : ∃ root extra ds s₁ s', s.tasks r = some root ∧
      root.extra = some extra ∧ (r :: ds).Nodup ∧ (∀ t, t ∈ ds ↔ Descends s.trace r t) ∧
      s.smonSchedUnregisterChildren r = .ok s₁ ∧ LoopDone s root ds s₁ ∧
      s.smonSchedUnregister r = .ok s' ∧ FamilyGone s r root extra.rb ds s' := by
  obtain ⟨ring, h⟩ := exists_forest run init
  obtain ⟨root, extra, hroot, hextra⟩ := h.extra hr
  obtain ⟨s₁, hloop, hend, hswept, -⟩ := (h.family hr).unregisterChildren (h.length_le hr)
  obtain ⟨s', hunregister, hun⟩ := h.unregister hr
  have henvir : ∀ r' ∈ s.taskList, ∀ task, s.tasks r' = some task → task.envir = r' :=
    fun r' hr' task htask => (h.mem_iff (entry_of_tasks htask) hr').mp List.mem_cons_self
  refine ⟨root, extra, ring r, s₁, s', hroot, hextra, (h.rings r hr).nodup,
    fun t => (h.descent r hr t).trans descends_book, hloop, ?_, hunregister, ?_⟩
  · obtain ⟨envir, henvir', hcount⟩ := hend.count
    exact ⟨hswept.trace, hswept.tasks, envir, by rw [henvir r hr root hroot, henvir'],
      by simpa using hcount⟩
  · constructor
    case destroyed => rw [henvir r hr root hroot, hun.trace]
    case tasks => exact hun.tasks
    case active =>
      intro b'
      have hcount : (r :: ring r).countP (s.holds b') =
          (r :: ring r).countP fun t => b' = extra.rb && s.alive t :=
        List.countP_congr fun t ht => by rw [h.holds_iff hr hroot hextra ht]
      rw [hun.active, hcount]
      by_cases hb : b' = extra.rb
      · simp [hb]
      · simp [hb]
    case others =>
      intro r' hr' hne
      have htaskList : s'.taskList = s.taskList.erase r := congrArg Static.taskList hun.static
      refine ⟨?_, ⟨ring r', h.rings r' hr', ?_, fun t => (h.descent r' hr' t).trans descends_book⟩,
        fun task htask => ?_⟩
      · exact htaskList ▸ h.nodup.mem_erase_iff.mpr ⟨hne, hr'⟩
      · exact hun.others r' _ (h.rings r' hr') fun y hy => h.disjoint hr hr' hne hy
      · rw [henvir r' hr' task htask, hun.envirs, Function.update_of_ne hne]

/-- An environment with one event set whose tasks are inherited. -/
def inheriting : SmonEnvir where
  esids := fun _ => 0
  nEsids := 1
  sampleTime := 10
  batchSize := 1
  options := ⟨true, false, false, false, false, false, false⟩
  count := 0

/-- A registered task, its child, which has exited, and a grandchild. -/
def forkTree : State := (boot [] [fixedOnly]).after
  [.register 0 1 inheriting 0 ⟨true, true, true⟩, .switch 0 1, .fork 1 3 3 0 true true, .switch 0 3,
    .fork 3 5 5 1 true true, .exit 3]

theorem unregister_descendants_forkTree : ∃ root extra ds s₁ s', forkTree.tasks 0 = some root ∧
    root.extra = some extra ∧ (0 :: ds).Nodup ∧ (∀ t, t ∈ ds ↔ Descends forkTree.trace 0 t) ∧
    forkTree.smonSchedUnregisterChildren 0 = .ok s₁ ∧ LoopDone forkTree root ds s₁ ∧
    forkTree.smonSchedUnregister 0 = .ok s' ∧ FamilyGone forkTree 0 root extra.rb ds s' :=
  unregister_descendants (run_after rfl) (initial_boot ..) (by decide)

end SchedMon
