import SchedMon.Driver.Cases

/-!
# Unregistering a family

`smon_sched__unregister_task` destroys a registered task and everything on the ring its `children`
node is the head of. A `Family` is such a ring of live tasks that share an environment, whose count
is right. On a family the loop comes to an end, and what it has done then is `Swept`.

## Main results

* `Family.drop` — one turn of the loop
* `Family.sweep` — **the loop destroys every element of the ring, once**
* `Family.unregister` — the whole function
-/

namespace SchedMon

open State

variable {s s' s'' : State} {r t x : TaskId} {e : EnvirId} {xs ys : List TaskId} {b : RbId}

/-- Is buffer `b` the one of task `t`? -/
def State.holds (s : State) (b : RbId) (t : TaskId) : Bool :=
  match s.tasks t with
  | some task => task.rb = some b
  | none => false

theorem holds_congr (h : s'.tasks t = s.tasks t) : s'.holds b t = s.holds b t := by
  simp only [holds, h]

/-! ### Releasing -/

section Release

variable {task : SmonTask} {envir : SmonEnvir}

theorem releaseTaskRb_frame (s : State) (task : SmonTask) :
    (s.releaseTaskRb task).static = s.static ∧ (s.releaseTaskRb task).tasks = s.tasks ∧
      (s.releaseTaskRb task).irqs = s.irqs ∧ (s.releaseTaskRb task).trace = s.trace := by
  unfold releaseTaskRb
  split
  · unfold smonReleaseRb
    dsimp only
    split <;> exact ⟨rfl, rfl, rfl, rfl⟩
  · exact ⟨rfl, rfl, rfl, rfl⟩

theorem smonReleaseRb_active (s : State) (b b' : RbId) :
    ((s.smonReleaseRb b).rbs b').active = (s.rbs b').active - if b' = b then 1 else 0 := by
  unfold smonReleaseRb
  dsimp only
  by_cases hb : b' = b
  · subst hb
    split <;> simp [smonRbWrite]
  · split <;> simp [smonRbWrite, hb]

theorem releaseTaskRb_active (s : State) (task : SmonTask) (b : RbId) :
    ((s.releaseTaskRb task).rbs b).active =
      (s.rbs b).active - if task.rb = some b then 1 else 0 := by
  unfold releaseTaskRb
  split
  · rename_i b' hb'
    rw [smonReleaseRb_active, hb']
    simp [eq_comm]
  · rename_i hnone
    simp [hnone]

theorem releaseTaskRb_of_none (s : State) (hrb : task.rb = none) : s.releaseTaskRb task = s := by
  simp [releaseTaskRb, hrb]

theorem smonReleaseEnvir_eq {s : State} (henvir : s.envirs e = some envir) :
    s.smonReleaseEnvir e = .ok (if envir.count = 1 then
      { s with envirs := Function.update s.envirs e none }.record (.freeEnvir e)
    else s.setEnvir e { envir with count := envir.count - 1 }) := by
  simp only [smonReleaseEnvir, envir_eq_ok.mpr henvir, bind, Except.bind, pure, Except.pure]
  by_cases hcount : envir.count = 1
  · have h0 : envir.count - 1 = 0 := by omega
    rw [if_pos h0, if_pos hcount]
  · have h0 : ¬ envir.count - 1 = 0 := by omega
    rw [if_neg h0, if_neg hcount]

/-- Destroying a task that was the only user of its environment, or one of several. -/
structure Destroyed (s : State) (t : TaskId) (task : SmonTask) (envir : SmonEnvir) (s' : State) :
    Prop where
  static : { s'.static with envirs := s.envirs } = s.static
  tasks : s'.tasks = Function.update s.tasks t none
  envirs : s'.envirs = Function.update s.envirs task.envir
    (if envir.count = 1 then none else some { envir with count := envir.count - 1 })
  active : ∀ b, (s'.rbs b).active = (s.rbs b).active - if task.rb = some b then 1 else 0
  rbs : task.rb = none → s'.rbs = s.rbs
  irqs : s'.irqs = s.irqs
  trace : s'.trace = s.trace ++
    (if envir.count = 1 then [.freeEnvir task.envir, .destroy t] else [.destroy t])

theorem exists_destroyed (htask : s.tasks t = some task) (henvir : s.envirs task.envir = some envir) :
    ∃ s', s.smonDestroyTask t = .ok s' ∧ Destroyed s t task envir s' := by
  obtain ⟨hstatic, htasks, hirqs, htrace⟩ := releaseTaskRb_frame s task
  have hactive := releaseTaskRb_active s task
  have hrbs := fun hnone : task.rb = none => congrArg State.rbs (releaseTaskRb_of_none s hnone)
  have henvirs : (s.releaseTaskRb task).envirs = s.envirs := congrArg Static.envirs hstatic
  have hrelease := smonReleaseEnvir_eq (henvirs ▸ henvir)
  refine ⟨_, bind_eq_ok.mpr ⟨task, task_eq_ok.mpr htask, bind_eq_ok.mpr ⟨_, hrelease, rfl⟩⟩, ?_⟩
  generalize s.releaseTaskRb task = s₁ at *
  simp only [State.static, Static.mk.injEq] at hstatic
  obtain ⟨h1, h2, h3, h4, h5, h6, h7, h8, h9, h10, h11⟩ := hstatic
  by_cases hcount : envir.count = 1
  · constructor <;> simp_all [record, State.static]
  · constructor <;> simp_all [record, setEnvir, State.static]

end Release

/-! ### Families -/

/-- A ring of live tasks that share an environment, which counts them. -/
structure Family (s : State) (r : TaskId) (e : EnvirId) (xs : List TaskId) : Prop where
  ring : s.children.IsRing r xs
  live : ∀ t ∈ r :: xs, ∃ task, s.tasks t = some task ∧ task.envir = e
  count : ∃ envir, s.envirs e = some envir ∧ envir.count = xs.length + 1

/-- The tasks `xs` of an environment have been destroyed, and others use it still. -/
structure Swept (s : State) (e : EnvirId) (xs : List TaskId) (s' : State) : Prop where
  static : { s'.static with envirs := s.envirs, children := s.children } = s.static
  tasks : ∀ t, s'.tasks t = if t ∈ xs then none else s.tasks t
  envirs : ∀ envir, s.envirs e = some envir →
    s'.envirs = Function.update s.envirs e (some { envir with count := envir.count - xs.length })
  active : ∀ b, (s'.rbs b).active = (s.rbs b).active - xs.countP (s.holds b)
  rbs : (∀ t ∈ xs, ∀ task, s.tasks t = some task → task.rb = none) → s'.rbs = s.rbs
  irqs : s'.irqs = s.irqs
  trace : s'.trace = s.trace ++ xs.map .destroy

theorem Swept.nil (s : State) (e : EnvirId) : Swept s e [] s := by
  refine ⟨rfl, fun t => by simp, fun envir henvir => ?_, fun b => by simp, fun _ => rfl, rfl,
    by simp⟩
  have hsub : envir.count - ([] : List TaskId).length = envir.count := by simp
  rw [hsub]
  exact (Function.update_eq_self_iff.mpr henvir.symm).symm

theorem Swept.cons (h : Swept s e [x] s') (h' : Swept s' e xs s'') (hx : x ∉ xs) :
    Swept s e (x :: xs) s'' := by
  have hne : ∀ t ∈ xs, s'.tasks t = s.tasks t := by
    intro t ht
    rw [h.tasks, if_neg]
    intro hmem
    exact hx (List.mem_singleton.mp hmem ▸ ht)
  constructor
  case static =>
    have hs := h.static
    have hs' := h'.static
    simp only [State.static, Static.mk.injEq] at hs hs' ⊢
    obtain ⟨h1, h2, h3, h4, h5, _, h6, h7, h8, h9, _⟩ := hs
    obtain ⟨g1, g2, g3, g4, g5, _, g6, g7, g8, g9, _⟩ := hs'
    exact ⟨g1.trans h1, g2.trans h2, g3.trans h3, g4.trans h4, g5.trans h5, trivial, g6.trans h6,
      g7.trans h7, g8.trans h8, g9.trans h9, trivial⟩
  case tasks =>
    intro t
    rw [h'.tasks, h.tasks]
    by_cases htx : t = x
    · simp [htx]
    · simp [htx]
  case envirs =>
    intro envir henvir
    have h1 := h.envirs envir henvir
    rw [h'.envirs _ (by rw [h1, Function.update_self]), h1, Function.update_idem]
    congr 3
    simp only [List.length_cons, List.length_nil]
    omega
  case active =>
    intro b
    have hcount : xs.countP (s'.holds b) = xs.countP (s.holds b) :=
      List.countP_congr fun t ht => by rw [holds_congr (hne t ht)]
    rw [h'.active, h.active, hcount, List.countP_cons, List.countP_cons, List.countP_nil]
    omega
  case rbs =>
    intro hnone
    rw [h'.rbs fun t ht task htask => hnone t (List.mem_cons_of_mem _ ht) task ?_,
      h.rbs fun t ht => hnone t (List.mem_cons.mpr (.inl (List.mem_singleton.mp ht)))]
    rw [← hne t ht, htask]
  case irqs => exact h'.irqs.trans h.irqs
  case trace => rw [h'.trace, h.trace]; simp

theorem delChild_eq (h : Family s r e (x :: xs)) :
    s.delChild x = .ok { s with children := s.children.del x } := by
  obtain ⟨task, htask, -⟩ := h.live x (by simp)
  obtain ⟨root, hroot, -⟩ := h.live r (by simp)
  obtain ⟨next, hnext, -⟩ := h.live (s.children.next x) (h.ring.next_mem (by simp))
  simp only [delChild, nextChild, task_eq_ok.mpr htask, task_eq_ok.mpr hnext, h.ring.prev_head,
    task_eq_ok.mpr hroot, bind, Except.bind, pure, Except.pure]

/-- **One turn of the loop.** The first element of the ring is unlinked and destroyed. -/
theorem Family.drop (h : Family s r e (x :: xs)) : ∃ s₁ s', s.delChild x = .ok s₁ ∧
    s₁.smonDestroyTask x = .ok s' ∧ Family s' r e xs ∧ Swept s e [x] s' ∧
    s.children.KeepsRings s'.children (r :: x :: xs) := by
  have hdel := delChild_eq h
  obtain ⟨hring, hlive, envir, henvir, hcount⟩ := h
  obtain ⟨task, htask, rfl⟩ := hlive x (by simp)
  have hne : ¬ envir.count = 1 := by
    rw [hcount]
    simp only [List.length_cons]
    omega
  obtain ⟨s', hdestroy, hd⟩ :=
    exists_destroyed (s := { s with children := s.children.del x }) htask henvir
  have hnodup := hring.nodup
  simp only [List.nodup_cons, List.mem_cons, not_or] at hnodup
  have hchildren : s'.children = s.children.del x := congrArg Static.children hd.static
  have henvirs := hd.envirs
  have htrace := hd.trace
  rw [if_neg hne] at henvirs htrace
  refine ⟨_, s', hdel, hdestroy, ⟨hchildren ▸ hring.del, fun t ht => ?_, ?_⟩, ?_,
    hchildren ▸ Links.del_frame hring⟩
  · obtain ⟨task', htask', henv'⟩ := hlive t (by
      simp only [List.mem_cons] at ht ⊢
      tauto)
    have htx : t ≠ x := by
      rintro rfl
      rcases List.mem_cons.mp ht with rfl | ht
      · exact hnodup.1.1 rfl
      · exact hnodup.2.1 ht
    exact ⟨task', by rw [hd.tasks, Function.update_of_ne htx, htask'], henv'⟩
  · refine ⟨{ envir with count := envir.count - 1 }, by rw [henvirs, Function.update_self], ?_⟩
    simp only [hcount, List.length_cons]
    omega
  · constructor
    case static =>
      have hs := hd.static
      simp only [State.static, Static.mk.injEq] at hs ⊢
      tauto
    case tasks =>
      intro t
      rw [hd.tasks]
      by_cases htx : t = x
      · simp [htx]
      · simp [htx]
    case envirs =>
      intro envir' henvir'
      obtain rfl := Option.some_inj.mp (henvir'.symm.trans henvir)
      rw [henvirs]
      rfl
    case active =>
      intro b
      rw [hd.active, List.countP_cons, List.countP_nil]
      by_cases hb : task.rb = some b
      · simp [holds, htask, hb]
      · simp [holds, htask, hb]
    case rbs => exact fun hnone => hd.rbs (hnone x (by simp) task htask)
    case irqs => exact hd.irqs
    case trace => exact htrace

/-- **The loop** destroys every element of the ring, in the order of the ring. -/
theorem Family.sweep (fuel : ℕ) {n : TaskId} (h : Family s r e xs) (hfuel : xs.length < fuel)
    (hn : ∀ x xs', xs = x :: xs' → n = xs'.headD r) : ∃ s',
    unregisterChildrenFrom r fuel (xs.headD r) n s = .ok s' ∧ Family s' r e [] ∧
      Swept s e xs s' ∧ s.children.KeepsRings s'.children (r :: xs) := by
  induction xs generalizing fuel n s with
  | nil =>
    obtain ⟨fuel, rfl⟩ := Nat.exists_eq_succ_of_ne_zero (by omega : fuel ≠ 0)
    exact ⟨s, by simp [unregisterChildrenFrom, pure, Except.pure], h, .nil s e, .refl _ _⟩
  | cons x xs ih =>
    obtain ⟨fuel, rfl⟩ := Nat.exists_eq_succ_of_ne_zero (by omega : fuel ≠ 0)
    obtain ⟨s₁, s₂, hdel, hdestroy, hfamily, hswept, hkeeps⟩ := h.drop
    have hnodup := h.ring.nodup
    simp only [List.nodup_cons, List.mem_cons, not_or] at hnodup
    have hxr : x ≠ r := fun heq => hnodup.1.1 heq.symm
    have hnx : n = xs.headD r := hn x xs rfl
    have hmem : n ∈ r :: xs := by
      rw [hnx]
      cases xs <;> simp
    obtain ⟨task, htask, -⟩ := hfamily.live n hmem
    obtain ⟨s₃, hloop, hend, hrest, hkeeps'⟩ := ih fuel (n := s₂.children.next n) hfamily
      (by simpa using hfuel) fun y ys hys => by
        rw [hnx, hys]
        exact (hys ▸ hfamily.ring).next_next
    refine ⟨s₃, ?_, hend, hswept.cons hrest hnodup.2.1, hkeeps.trans hkeeps' ?_⟩
    swap
    · exact List.cons_subset_cons r (List.subset_cons_self x xs)
    rw [← hnx] at hloop
    simp only [unregisterChildrenFrom, List.headD_cons, hxr, if_false, hdel, hdestroy, nextChild,
      task_eq_ok.mpr htask, bind, Except.bind, pure, Except.pure, hloop]

/-! ### The whole function -/

/-- The family of the registered task `r` is gone, and its environment with it. -/
structure Unregistered (s : State) (r : TaskId) (e : EnvirId) (xs : List TaskId) (s' : State) :
    Prop where
  static : { s'.static with envirs := s.envirs, children := s.children } =
    { s.static with taskList := s.taskList.erase r }
  tasks : ∀ t, s'.tasks t = if t ∈ r :: xs then none else s.tasks t
  envirs : s'.envirs = Function.update s.envirs e none
  active : ∀ b, (s'.rbs b).active = (s.rbs b).active - (r :: xs).countP (s.holds b)
  rbs : (∀ t ∈ r :: xs, ∀ task, s.tasks t = some task → task.rb = none) → s'.rbs = s.rbs
  irqs : s'.irqs = s.irqs
  trace : s'.trace = s.trace ++ xs.map .destroy ++ [.freeEnvir e, .destroy r]
  others : s.children.KeepsRings s'.children (r :: xs)

theorem Family.congr (h : Family s r e xs) (hchildren : s'.children = s.children)
    (henvirs : s'.envirs = s.envirs)
    (hcores : ∀ t ∈ r :: xs, (s'.tasks t).map SmonTask.core = (s.tasks t).map SmonTask.core) :
    Family s' r e xs := by
  refine ⟨hchildren ▸ h.ring, fun t ht => ?_, henvirs ▸ h.count⟩
  obtain ⟨task, htask, henv⟩ := h.live t ht
  have hcore := hcores t ht
  rw [htask, Option.map_some, Option.map_eq_some_iff] at hcore
  obtain ⟨task', htask', hcore⟩ := hcore
  refine ⟨task', htask', ?_⟩
  rw [← henv]
  exact congrArg (fun c : TaskCore × Option RbId => c.1.envir) hcore

theorem Family.unregisterChildren (h : Family s r e xs) (hfuel : xs.length ≤ s.fresh) :
    ∃ s', s.smonSchedUnregisterChildren r = .ok s' ∧ Family s' r e [] ∧ Swept s e xs s' ∧
      s.children.KeepsRings s'.children (r :: xs) := by
  obtain ⟨root, hroot, -⟩ := h.live r (by simp)
  obtain ⟨first, hfirst, -⟩ := h.live (s.children.next r) (h.ring.next_mem (by simp))
  obtain ⟨s', hloop, hrest⟩ := h.sweep (s.fresh + 1)
    (n := s.children.next (s.children.next r)) (by omega) fun x ys hxs => by
      rw [h.ring.next_head, hxs]
      exact (hxs ▸ h.ring).next_next
  refine ⟨s', ?_, hrest⟩
  rw [← h.ring.next_head] at hloop
  simp only [smonSchedUnregisterChildren, nextChild, task_eq_ok.mpr hroot, task_eq_ok.mpr hfirst,
    bind, Except.bind, pure, Except.pure, hloop]

/-- Cancelling the RAPL timer does nothing else. -/
theorem exists_cancelRapl {task : SmonTask} {extra : SmonTaskExtra} (c : Bool)
    (htask : s.tasks t = some task) (hextra : task.extra = some extra) :
    ∃ task', task'.core = task.core ∧
      s.when c (fun s => s.cancelRapl t) = .ok (s.setTask t task') := by
  cases c with
  | false =>
    refine ⟨task, rfl, ?_⟩
    have hself : Function.update s.tasks t (some task) = s.tasks :=
      Function.update_eq_self_iff.mpr htask.symm
    simp only [State.when, setTask, hself]
    rfl
  | true =>
    have hset := setExtra_eq_ok.mpr ⟨task, htask, (by rfl : s.setTask t { task with
      extra := some { extra with raplTimer := hrtimerCancel extra.raplTimer } } = _)⟩
    refine ⟨_, ?_, bind_eq_ok.mpr ⟨extra, extra_eq_ok.mpr ⟨task, htask, hextra⟩, hset⟩⟩
    simp [SmonTask.core, hextra]

/-- **Unregistering a family** comes to an end, and leaves nothing of it in memory. -/
theorem Family.unregister (h : Family s r e xs)
    (hextra : ∃ task extra, s.tasks r = some task ∧ task.extra = some extra)
    (hfuel : xs.length ≤ s.fresh) :
    ∃ s', s.smonSchedUnregister r = .ok s' ∧ Unregistered s r e xs s' := by
  obtain ⟨task, htask, rfl⟩ := h.live r (by simp)
  obtain ⟨task', extra, htask', hextra⟩ := hextra
  obtain rfl := Option.some_inj.mp (htask'.symm.trans htask)
  obtain ⟨envir, henvir, hcount⟩ := h.count
  have hrxs : r ∉ xs := (List.nodup_cons.mp h.ring.nodup).1
  -- the timer
  let task₁ : SmonTask := { task' with timer := hrtimerCancel task'.timer }
  have hquiet : Quiet (fun _ => False) r s (s.setTask r task₁) := .of_setTask htask (by rfl)
  have hfamily : Family (s.setTask r task₁) r task'.envir xs :=
    h.congr rfl rfl fun t _ => hquiet.cores t
  have htask₁ : (s.setTask r task₁).tasks r = some task₁ := Function.update_self ..
  -- the children
  obtain ⟨s₂, hloop, hend, hswept, hkeeps⟩ := hfamily.unregisterChildren hfuel
  have htask₂ : s₂.tasks r = some task₁ := by rw [hswept.tasks, if_neg hrxs, htask₁]
  have henvirs₂ := hswept.envirs envir henvir
  -- the RAPL timer
  obtain ⟨task₃, hcore, hcancel⟩ := exists_cancelRapl envir.options.rapl
    (s := { s₂ with taskList := s₂.taskList.erase r }) htask₂ hextra
  have hcore' : task₃.toTaskCore = task'.toTaskCore := congrArg Prod.fst hcore
  -- the task itself
  have hlast : (({ s₂ with taskList := s₂.taskList.erase r } : State).setTask r task₃).envirs
      task₃.envir = some { envir with count := envir.count - xs.length } := by
    rw [hcore']
    exact (congrFun henvirs₂ _).trans (Function.update_self ..)
  obtain ⟨s', hdestroy, hd⟩ := exists_destroyed (Function.update_self ..) hlast
  have hone : envir.count - xs.length = 1 := by omega
  refine ⟨s', ?_, ?_⟩
  · refine bind_eq_ok.mpr ⟨task', task_eq_ok.mpr htask, bind_eq_ok.mpr ⟨s₂, hloop,
      bind_eq_ok.mpr ⟨{ envir with count := envir.count - xs.length }, envir_eq_ok.mpr ?_,
      bind_eq_ok.mpr ⟨_, hcancel, hdestroy⟩⟩⟩⟩
    exact (congrFun henvirs₂ _).trans (Function.update_self ..)
  · have hdenvirs := hd.envirs
    have hdtrace := hd.trace
    rw [if_pos hone] at hdenvirs hdtrace
    constructor
    case static =>
      have hs := hswept.static
      have hs' := hd.static
      simp only [State.static, setTask, Static.mk.injEq] at hs hs' ⊢
      obtain ⟨h1, h2, h3, h4, h5, _, h6, h7, h8, h9, _⟩ := hs
      obtain ⟨g1, g2, g3, g4, g5, _, g6, g7, g8, g9, _⟩ := hs'
      exact ⟨g1.trans h1, g2.trans h2, g3.trans h3, g4.trans h4, g5.trans h5, trivial,
        g6.trans h6, g7.trans (congrArg (List.erase · r) h7), g8.trans h8, g9.trans h9, trivial⟩
    case tasks =>
      intro t
      rw [hd.tasks]
      by_cases htr : t = r
      · simp [htr]
      · simp [htr, setTask, hswept.tasks]
    case envirs =>
      rw [hdenvirs, hcore']
      simp only [setTask, henvirs₂, Function.update_idem]
    case active =>
      intro b
      have hsame : xs.countP ((s.setTask r task₁).holds b) = xs.countP (s.holds b) :=
        List.countP_congr fun t ht => by
          rw [holds_congr (s := s) (hquiet.others t fun htr => hrxs (htr ▸ ht))]
      have hroot : s.holds b r = (task'.rb = some b : Bool) := by simp only [holds, htask]
      have hactive := hswept.active b
      rw [hsame] at hactive
      rw [hd.active, hcore', List.countP_cons, hroot]
      simp only [setTask] at hactive ⊢
      by_cases hb : task'.rb = some b
      · simp only [hb, decide_true, if_true, hactive]
        omega
      · simp only [hb, decide_false, if_false, hactive]
        simp
    case rbs =>
      intro hnone
      rw [hd.rbs (by rw [hcore']; exact hnone r (by simp) task' htask)]
      refine hswept.rbs fun t ht task htask' => hnone t (by simp [ht]) task ?_
      rw [← hquiet.others t fun htr => hrxs (htr ▸ ht), htask']
    case irqs => exact hd.irqs.trans hswept.irqs
    case trace =>
      rw [hdtrace, hcore']
      simp only [setTask, hswept.trace]
    case others =>
      have hchildren : s'.children = s₂.children := congrArg Static.children hd.static
      exact hchildren ▸ hkeeps

end SchedMon
