import Mathlib.Logic.Relation
import SchedMon.Driver.Book

/-!
# Families

The `children` node of a task is the head of its own list of children and an element of its
parent's. Adding a child behind any member of a ring makes the ring longer, so all descendants of a
registered task form one flat ring with that task as its head, whatever the shape of the tree. This
is the invariant `Forest`; with it a state that is reachable hands `Family.unregister` what it needs.

## Main results

* `Forest.step` — what happens keeps the families in order
* `Step.book` — **the system keeps the books as `BookStep` says**
* `exists_forest` — families are in order in every reachable state
* `unregister_family` — **unregistering destroys a task and its descendants, and nothing else**
-/

namespace SchedMon

open State SchedMon.Shelf

/-- Task `c` descends from task `a`, by the history. -/
def Descends (history : List TraceEvent) : TaskId → TaskId → Prop :=
  Relation.TransGen fun a c => TraceEvent.child a c ∈ history

/-- Every live task is on the ring of the one registered task it belongs to. -/
structure Forest (b : Book) (ring : TaskId → List TaskId) : Prop where
  nodup : b.taskList.Nodup
  bound : ∀ t c, b.entry t = some c → t < b.fresh
  rings : ∀ r ∈ b.taskList, b.children.IsRing r (ring r)
  live : ∀ t c, b.entry t = some c → c.1.envir ∈ b.taskList ∧ t ∈ c.1.envir :: ring c.1.envir
  member : ∀ r ∈ b.taskList, ∀ t ∈ r :: ring r, ∃ c, b.entry t = some c ∧ c.1.envir = r ∧
    (c.2.isSome ↔ t = r)
  buffer : ∀ t c, b.entry t = some c → (c.1.rb.isSome ↔ c.1.p.isSome) ∧
    ∀ rb, c.1.rb = some rb → ∃ root, b.entry c.1.envir = some root ∧ root.2 = some rb
  count : ∀ r ∈ b.taskList, ∃ envir, b.envirs r = some envir ∧ envir.count = (ring r).length + 1
  past : ∀ a c, TraceEvent.child a c ∈ b.history → a < b.fresh ∧ c < b.fresh
  descent : ∀ r ∈ b.taskList, ∀ t, t ∈ ring r ↔ Descends b.history r t

variable {b b' : Book} {ring : TaskId → List TaskId} {t r : TaskId}

/-! ### Descent -/

/-- A new task descends from whom its parent descends from, and from its parent. -/
theorem descends_append {history : List TraceEvent} {n x : TaskId}
    (hn : ∀ c, TraceEvent.child n c ∉ history) :
    Descends (history ++ [.child t n]) r x ↔
      Descends history r x ∨ x = n ∧ (t = r ∨ Descends history r t) := by
  constructor
  · intro h
    induction h with
    | single hstep =>
      rw [List.mem_append, List.mem_singleton, TraceEvent.child.injEq] at hstep
      rcases hstep with hstep | ⟨hrt, hx⟩
      · exact .inl (.single hstep)
      · exact .inr ⟨hx, .inl hrt.symm⟩
    | tail _ hstep ih =>
      rw [List.mem_append, List.mem_singleton, TraceEvent.child.injEq] at hstep
      rcases hstep with hstep | ⟨rfl, rfl⟩
      · rcases ih with ih | ⟨rfl, -⟩
        · exact .inl (ih.tail hstep)
        · exact absurd hstep (hn _)
      · rcases ih with ih | ⟨-, ih⟩
        · exact .inr ⟨rfl, .inr ih⟩
        · exact .inr ⟨rfl, ih⟩
  · have hmono : ∀ y, Descends history r y → Descends (history ++ [.child t n]) r y := fun y hy =>
      Relation.TransGen.mono (fun _ _ hmem => List.mem_append_left _ hmem) _ _ hy
    have hlast : TraceEvent.child t n ∈ history ++ [.child t n] := by simp
    rintro (h | ⟨rfl, rfl | h⟩)
    · exact hmono x h
    · exact .single hlast
    · exact (hmono t h).tail hlast

theorem descends_congr {history history' : List TraceEvent}
    (h : ∀ a c, TraceEvent.child a c ∈ history' ↔ TraceEvent.child a c ∈ history) :
    Descends history' r t ↔ Descends history r t := by
  have hrel : (fun a c => TraceEvent.child a c ∈ history') =
      fun a c => TraceEvent.child a c ∈ history := by
    funext a c
    exact propext (h a c)
  rw [Descends, hrel, Descends]

namespace Forest

variable (h : Forest b ring)

include h

/-- A task belongs to the registered task that its environment comes from. -/
theorem mem_iff {c : TaskCore × Option RbId} (hc : b.entry t = some c) (hr : r ∈ b.taskList) :
    t ∈ r :: ring r ↔ c.1.envir = r := by
  constructor
  · intro hmem
    obtain ⟨c', hc', henv, -⟩ := h.member r hr t hmem
    rw [hc, Option.some_inj] at hc'
    rw [hc', henv]
  · rintro rfl
    exact (h.live t c hc).2

theorem lt_fresh (hr : r ∈ b.taskList) (hmem : t ∈ r :: ring r) : t < b.fresh := by
  obtain ⟨c, hc, -⟩ := h.member r hr t hmem
  exact h.bound t c hc

theorem disjoint {r' : TaskId} (hr : r ∈ b.taskList) (hr' : r' ∈ b.taskList) (hne : r' ≠ r)
    (hmem : t ∈ r' :: ring r') : t ∉ r :: ring r := by
  intro hmem'
  obtain ⟨c, hc, henv, -⟩ := h.member r' hr' t hmem
  exact hne (henv.symm.trans ((h.mem_iff hc hr).mp hmem'))

theorem length_le (hr : r ∈ b.taskList) : (ring r).length ≤ b.fresh := by
  have hsub : (ring r).Subset (List.range b.fresh) := fun t ht =>
    List.mem_range.mpr (h.lt_fresh hr (List.mem_cons_of_mem _ ht))
  have hle := (List.subperm_of_subset (List.nodup_cons.mp (h.rings r hr).nodup).2 hsub).length_le
  simpa using hle

/-! ### What keeps families in order -/

/-- Moving tasks between lists, and letting them go. -/
theorem congr (hfresh : b'.fresh = b.fresh) (htaskList : b'.taskList = b.taskList)
    (hchildren : b'.children = b.children) (henvirs : b'.envirs = b.envirs)
    (hhistory : b'.history = b.history)
    (hentry : ∀ t, b'.entry t = b.entry t ∨ ∃ c, b.entry t = some c ∧
      b'.entry t = some ({ c.1 with p := none, rb := none }, c.2)) : Forest b' ring := by
  have hback : ∀ t c', b'.entry t = some c' → ∃ c, b.entry t = some c ∧
      c'.1.envir = c.1.envir ∧ c'.2 = c.2 := by
    intro t c' hc'
    rcases hentry t with heq | ⟨c, hc, heq⟩
    · exact ⟨c', heq ▸ hc', rfl, rfl⟩
    · rw [heq, Option.some_inj] at hc'
      exact ⟨c, hc, by rw [← hc'], by rw [← hc']⟩
  have hforth : ∀ t c, b.entry t = some c → ∃ c', b'.entry t = some c' ∧
      c'.1.envir = c.1.envir ∧ c'.2 = c.2 := by
    intro t c hc
    rcases hentry t with heq | ⟨c', hc', heq⟩
    · exact ⟨c, heq ▸ hc, rfl, rfl⟩
    · rw [hc, Option.some_inj] at hc'
      exact ⟨_, heq, by rw [hc'], by rw [hc']⟩
  refine ⟨htaskList ▸ h.nodup, fun t c' hc' => ?_, by rw [htaskList, hchildren]; exact h.rings,
    fun t c' hc' => ?_, fun r hr t ht => ?_, fun t c' hc' => ?_,
    by rw [htaskList, henvirs]; exact h.count, by rw [hhistory, hfresh]; exact h.past,
    by rw [htaskList, hhistory]; exact h.descent⟩
  · obtain ⟨c, hc, -⟩ := hback t c' hc'
    exact hfresh ▸ h.bound t c hc
  · obtain ⟨c, hc, henv, -⟩ := hback t c' hc'
    rw [htaskList, henv]
    exact h.live t c hc
  · obtain ⟨c, hc, henv, hextra⟩ := h.member r (htaskList ▸ hr) t ht
    obtain ⟨c', hc', henv', hextra'⟩ := hforth t c hc
    exact ⟨c', hc', henv'.trans henv, hextra' ▸ hextra⟩
  · rcases hentry t with heq | ⟨c, hc, heq⟩
    · obtain ⟨hiff, hroot⟩ := h.buffer t c' (heq ▸ hc')
      refine ⟨hiff, fun rb hrb => ?_⟩
      obtain ⟨root, hroot, hx⟩ := hroot rb hrb
      obtain ⟨root', hroot', -, hx'⟩ := hforth _ root hroot
      exact ⟨root', hroot', hx'.trans hx⟩
    · rw [heq, Option.some_inj] at hc'
      subst hc'
      simp

theorem addRoot (pid : Pid) (envir : SmonEnvir) (rb : RbId) :
    Forest (b.addRoot pid envir rb) (Function.update ring b.fresh []) := by
  have hne : ∀ r ∈ b.taskList, r ≠ b.fresh := fun r hr =>
    Nat.ne_of_lt (h.lt_fresh hr List.mem_cons_self)
  have hold : ∀ t c, b.entry t = some c → (b.addRoot pid envir rb).entry t = some c := by
    intro t c hc
    simp only [Book.addRoot, Function.update_of_ne (Nat.ne_of_lt (h.bound t c hc)), hc]
  have hnew : (b.addRoot pid envir rb).entry b.fresh =
      some (⟨some (b.kernel.forEachProcess pid), pid, b.fresh, 0, some rb⟩, some rb) :=
    Function.update_self ..
  have hback : ∀ t c, (b.addRoot pid envir rb).entry t = some c → t ≠ b.fresh → b.entry t = some c := by
    intro t c hc ht
    simpa [Book.addRoot, ht] using hc
  constructor
  case nodup => exact List.nodup_cons.mpr ⟨fun hmem => hne _ hmem rfl, h.nodup⟩
  case bound =>
    intro t c hc
    by_cases ht : t = b.fresh
    · exact ht ▸ Nat.lt_succ_self _
    · exact Nat.lt_succ_of_lt (h.bound t c (hback t c hc ht))
  case rings =>
    intro r hr
    rcases List.mem_cons.mp hr with rfl | hr
    · rw [Function.update_self]
      exact Links.isRing_init ..
    · rw [Function.update_of_ne (hne r hr)]
      exact Links.init_frame (h.rings r hr) fun hmem => Nat.lt_irrefl _ (h.lt_fresh hr hmem)
  case live =>
    intro t c hc
    by_cases ht : t = b.fresh
    · subst ht
      rw [hnew, Option.some_inj] at hc
      subst hc
      simp [Book.addRoot]
    · obtain ⟨hmem, hring⟩ := h.live t c (hback t c hc ht)
      rw [Function.update_of_ne (hne _ hmem)]
      exact ⟨List.mem_cons_of_mem _ hmem, hring⟩
  case member =>
    intro r hr t ht
    rcases List.mem_cons.mp hr with rfl | hr
    · rw [Function.update_self, List.mem_singleton] at ht
      subst ht
      exact ⟨_, hnew, rfl, by simp⟩
    · rw [Function.update_of_ne (hne r hr)] at ht
      obtain ⟨c, hc, hrest⟩ := h.member r hr t ht
      exact ⟨c, hold t c hc, hrest⟩
  case buffer =>
    intro t c hc
    by_cases ht : t = b.fresh
    · subst ht
      rw [hnew, Option.some_inj] at hc
      subst hc
      exact ⟨by simp, fun rb' hrb' => ⟨_, hnew, hrb'⟩⟩
    · obtain ⟨hiff, hroot⟩ := h.buffer t c (hback t c hc ht)
      refine ⟨hiff, fun rb' hrb' => ?_⟩
      obtain ⟨root, hroot, hx⟩ := hroot rb' hrb'
      exact ⟨root, hold _ root hroot, hx⟩
  case count =>
    intro r hr
    rcases List.mem_cons.mp hr with rfl | hr
    · rw [Function.update_self]
      refine ⟨smonCreateEnvir envir, Function.update_self .., ?_⟩
      unfold smonCreateEnvir
      dsimp only
      split <;> rfl
    · rw [Function.update_of_ne (hne r hr)]
      simp only [Book.addRoot, Function.update_of_ne (hne r hr)]
      exact h.count r hr
  case past =>
    intro a c hmem
    obtain ⟨ha, hc⟩ := h.past a c hmem
    exact ⟨Nat.lt_succ_of_lt ha, Nat.lt_succ_of_lt hc⟩
  case descent =>
    intro r hr t
    rcases List.mem_cons.mp hr with rfl | hr
    · rw [Function.update_self]
      simp only [List.not_mem_nil, false_iff]
      intro hdesc
      obtain ⟨c, hmem, -⟩ := Relation.TransGen.head'_iff.mp hdesc
      exact Nat.lt_irrefl _ (h.past _ _ hmem).1
    · rw [Function.update_of_ne (hne r hr)]
      exact h.descent r hr t

theorem addChild {c : TaskCore × Option RbId} {rb : RbId} {envir : SmonEnvir} (p : Proc)
    (hc : b.entry t = some c) (hrb : c.1.rb = some rb) (henvir : b.envirs c.1.envir = some envir) :
    ∃ ring', Forest (b.addChild t c rb envir p) ring' := by
  have hfresh : ∀ r ∈ b.taskList, b.fresh ∉ r :: ring r := fun r hr hmem =>
    Nat.lt_irrefl _ (h.lt_fresh hr hmem)
  obtain ⟨hr, ht⟩ := h.live t c hc
  have htn : t ≠ b.fresh := Nat.ne_of_lt (h.bound t c hc)
  have hring := Links.init_frame (h.rings _ hr) (hfresh _ hr)
  obtain ⟨ys, hys, hperm⟩ := hring.add ht (hfresh _ hr)
  have hkeeps := Links.add_frame (x := b.fresh) hring ht
  have hmem_ys : ∀ x, x ∈ ys ↔ x = b.fresh ∨ x ∈ ring c.1.envir := fun x => by
    rw [hperm.mem_iff, List.mem_cons]
  have hnew : (b.addChild t c rb envir p).entry b.fresh =
      some (⟨some p, b.kernel.pid p, c.1.envir, 0, some rb⟩, none) := by
    simp only [Book.addChild, Function.update_of_ne htn.symm, Function.update_self]
  have hforth : ∀ x d, b.entry x = some d → ∃ d', (b.addChild t c rb envir p).entry x = some d' ∧
      d'.1.envir = d.1.envir ∧ d'.2 = d.2 ∧ d'.1.p = d.1.p ∧ d'.1.rb = d.1.rb := by
    intro x d hd
    by_cases hxt : x = t
    · subst hxt
      rw [hc, Option.some_inj] at hd
      subst hd
      exact ⟨_, Function.update_self .., rfl, rfl, rfl, rfl⟩
    · refine ⟨d, ?_, rfl, rfl, rfl, rfl⟩
      simp only [Book.addChild, Function.update_of_ne hxt,
        Function.update_of_ne (Nat.ne_of_lt (h.bound x d hd)), hd]
  have hback : ∀ x d', (b.addChild t c rb envir p).entry x = some d' → x ≠ b.fresh →
      ∃ d, b.entry x = some d ∧ d'.1.envir = d.1.envir ∧ d'.2 = d.2 ∧ d'.1.p = d.1.p ∧
        d'.1.rb = d.1.rb := by
    intro x d' hd' hxn
    by_cases hxt : x = t
    · subst hxt
      simp only [Book.addChild, Function.update_self, Option.some_inj] at hd'
      subst hd'
      exact ⟨c, hc, rfl, rfl, rfl, rfl⟩
    · simp only [Book.addChild, Function.update_of_ne hxt, Function.update_of_ne hxn] at hd'
      exact ⟨d', hd', rfl, rfl, rfl, rfl⟩
  -- the ring the child is on, and the others
  have hself : Function.update ring c.1.envir ys c.1.envir = ys := Function.update_self ..
  have hother : ∀ r, r ≠ c.1.envir → Function.update ring c.1.envir ys r = ring r :=
    fun r hne => Function.update_of_ne hne ..
  refine ⟨Function.update ring c.1.envir ys, ?_⟩
  constructor
  case nodup => exact h.nodup
  case bound =>
    intro x d' hd'
    by_cases hxn : x = b.fresh
    · exact hxn ▸ Nat.lt_succ_self _
    · obtain ⟨d, hd, -⟩ := hback x d' hd' hxn
      exact Nat.lt_succ_of_lt (h.bound x d hd)
  case rings =>
    intro r hr'
    by_cases hre : r = c.1.envir
    · rw [hre, hself]
      exact hys
    · rw [hother r hre]
      refine hkeeps r _ (Links.init_frame (h.rings r hr') (hfresh r hr')) fun y hy hmem => ?_
      rcases List.mem_cons.mp hmem with rfl | hmem
      · exact hfresh r hr' hy
      · exact h.disjoint hr hr' hre hy hmem
  case live =>
    intro x d' hd'
    by_cases hxn : x = b.fresh
    · subst hxn
      rw [hnew, Option.some_inj] at hd'
      subst hd'
      refine ⟨hr, ?_⟩
      rw [hself]
      exact List.mem_cons_of_mem _ ((hmem_ys _).mpr (.inl rfl))
    · obtain ⟨d, hd, henv, -⟩ := hback x d' hd' hxn
      obtain ⟨hmem, hx⟩ := h.live x d hd
      rw [henv]
      refine ⟨hmem, ?_⟩
      by_cases hde : d.1.envir = c.1.envir
      · rw [hde, hself, List.mem_cons, hmem_ys]
        rw [hde, List.mem_cons] at hx
        tauto
      · rw [hother _ hde]
        exact hx
  case member =>
    intro r hr' x hx
    by_cases hxn : x = b.fresh
    · subst hxn
      have hre : r = c.1.envir := by
        by_contra hre
        rw [hother r hre] at hx
        exact hfresh r hr' hx
      subst hre
      have hne : b.fresh ≠ c.1.envir := fun heq => hfresh _ hr' (by
        rw [heq]
        exact List.mem_cons_self)
      exact ⟨_, hnew, rfl, by simpa using hne⟩
    · have hx' : x ∈ r :: ring r := by
        by_cases hre : r = c.1.envir
        · rw [hre, hself, List.mem_cons, hmem_ys] at hx
          rw [hre, List.mem_cons]
          tauto
        · rwa [hother r hre] at hx
      obtain ⟨d, hd, henv, hextra⟩ := h.member r hr' x hx'
      obtain ⟨d', hd', henv', hextra', -⟩ := hforth x d hd
      exact ⟨d', hd', henv'.trans henv, hextra' ▸ hextra⟩
  case buffer =>
    intro x d' hd'
    by_cases hxn : x = b.fresh
    · subst hxn
      rw [hnew, Option.some_inj] at hd'
      subst hd'
      refine ⟨by simp, fun rb' hrb' => ?_⟩
      obtain ⟨root, hroot, hx⟩ := (h.buffer t c hc).2 rb' (hrb.trans hrb')
      obtain ⟨root', hroot', -, hx', -⟩ := hforth _ root hroot
      exact ⟨root', hroot', hx'.trans hx⟩
    · obtain ⟨d, hd, henv, -, hp, hrb'⟩ := hback x d' hd' hxn
      obtain ⟨hiff, hroot⟩ := h.buffer x d hd
      rw [henv, hp, hrb']
      refine ⟨hiff, fun rb' hrb' => ?_⟩
      obtain ⟨root, hroot, hx⟩ := hroot rb' hrb'
      obtain ⟨root', hroot', -, hx', -⟩ := hforth _ root hroot
      exact ⟨root', hroot', hx'.trans hx⟩
  case count =>
    intro r hr'
    by_cases hre : r = c.1.envir
    · subst hre
      obtain ⟨envir', henvir', hcount⟩ := h.count _ hr
      obtain rfl := Option.some_inj.mp (henvir'.symm.trans henvir)
      refine ⟨_, Function.update_self .., ?_⟩
      rw [hself, hperm.length_eq, List.length_cons]
      push_cast
      omega
    · rw [hother r hre]
      simp only [Book.addChild, Function.update_of_ne hre]
      exact h.count r hr'
  case past =>
    intro a d hmem
    rw [show (b.addChild t c rb envir p).history = b.history ++ [.child t b.fresh] from rfl,
      List.mem_append, List.mem_singleton, TraceEvent.child.injEq] at hmem
    rcases hmem with hmem | ⟨rfl, rfl⟩
    · exact ⟨Nat.lt_succ_of_lt (h.past a d hmem).1, Nat.lt_succ_of_lt (h.past a d hmem).2⟩
    · exact ⟨Nat.lt_succ_of_lt (h.bound a c hc), Nat.lt_succ_self _⟩
  case descent =>
    intro r hr' x
    refine Iff.trans ?_ (descends_append fun d hmem =>
      Nat.lt_irrefl _ (h.past _ _ hmem).1).symm
    by_cases hre : r = c.1.envir
    · subst hre
      have hdx := h.descent _ hr x
      have hdt := h.descent _ hr t
      rw [hself, hmem_ys]
      rw [List.mem_cons] at ht
      tauto
    · rw [hother r hre, h.descent r hr']
      refine (or_iff_left ?_).symm
      rintro ⟨-, htr⟩
      rw [← h.descent r hr'] at htr
      exact hre ((h.mem_iff hc hr').mp (List.mem_cons.mpr htr)).symm

theorem drop (hr : r ∈ b.taskList) (hd : b.Dropped r (ring r) b') : Forest b' ring := by
  have hmem' : ∀ r', r' ∈ b'.taskList ↔ r' ≠ r ∧ r' ∈ b.taskList := fun r' => by
    rw [hd.taskList, h.nodup.mem_erase_iff]
  have hkeep : ∀ r', r' ≠ r → r' ∈ b.taskList → ∀ t ∈ r' :: ring r', b'.entry t = b.entry t := by
    intro r' hne hr' t ht
    rw [hd.entry, if_neg (h.disjoint hr hr' hne ht)]
  have hback : ∀ t c, b'.entry t = some c → b.entry t = some c ∧ t ∉ r :: ring r := by
    intro t c hc
    rw [hd.entry] at hc
    split at hc
    · cases hc
    · exact ⟨hc, ‹_›⟩
  have hhistory : ∀ a c, TraceEvent.child a c ∈ b'.history ↔ TraceEvent.child a c ∈ b.history := by
    intro a c
    simp [hd.history]
  constructor
  case nodup => exact hd.taskList ▸ h.nodup.erase r
  case bound =>
    intro t c hc
    exact hd.fresh ▸ h.bound t c (hback t c hc).1
  case rings =>
    intro r' hr'
    obtain ⟨hne, hr'⟩ := (hmem' r').mp hr'
    exact hd.children r' _ (h.rings r' hr') fun y hy => h.disjoint hr hr' hne hy
  case live =>
    intro t c hc
    obtain ⟨hc, ht⟩ := hback t c hc
    obtain ⟨hmem, hring⟩ := h.live t c hc
    refine ⟨(hmem' _).mpr ⟨fun heq => ht ?_, hmem⟩, hring⟩
    exact (h.mem_iff hc hr).mpr heq
  case member =>
    intro r' hr' t ht
    obtain ⟨hne, hr'⟩ := (hmem' r').mp hr'
    rw [hkeep r' hne hr' t ht]
    exact h.member r' hr' t ht
  case buffer =>
    intro t c hc
    obtain ⟨hc, ht⟩ := hback t c hc
    obtain ⟨hmem, -⟩ := h.live t c hc
    have hne : c.1.envir ≠ r := fun heq => ht ((h.mem_iff hc hr).mpr heq)
    rw [hkeep _ hne hmem _ List.mem_cons_self]
    exact h.buffer t c hc
  case count =>
    intro r' hr'
    obtain ⟨hne, hr'⟩ := (hmem' r').mp hr'
    rw [hd.envirs, Function.update_of_ne hne]
    exact h.count r' hr'
  case past =>
    intro a c hmem
    rw [hd.fresh]
    exact h.past a c ((hhistory a c).mp hmem)
  case descent =>
    intro r' hr' t
    rw [descends_congr hhistory]
    exact h.descent r' ((hmem' r').mp hr').2 t

end Forest

/-- **What happens keeps the families in order.** -/
theorem Forest.step {l : Label} (h : Forest b ring) (hstep : BookStep b l b') :
    ∃ ring', Forest b' ring' := by
  have hsame : ∀ b' : Book, b'.entry = b.entry → b'.fresh = b.fresh → b'.taskList = b.taskList →
      b'.children = b.children → b'.envirs = b.envirs → b'.history = b.history →
      ∃ ring', Forest b' ring' := fun b' hentry h1 h2 h3 h4 h5 =>
    ⟨ring, h.congr h1 h2 h3 h4 h5 fun t => .inl (congrFun hentry t)⟩
  cases hstep with
  | idle | migrateNone | migrate | execNone | exec | exitNone | registerNone | unregisterNone =>
    exact hsame _ rfl rfl rfl rfl rfl rfl
  | forkNone => exact hsame _ rfl rfl rfl rfl rfl rfl
  | fork parent child pid cpu leader k t c rb envir hk hat hc hrb henvir hinherit =>
    have h' : Forest { b with kernel := k } ring :=
      h.congr rfl rfl rfl rfl rfl fun t => .inl rfl
    exact h'.addChild child hc hrb henvir
  | exit p i t c rb hi hat hc hrb =>
    refine ⟨ring, h.congr rfl rfl rfl rfl rfl fun u => ?_⟩
    by_cases hu : u = t
    · subst hu
      exact .inr ⟨c, hc, Function.update_self ..⟩
    · exact .inl (Function.update_of_ne hu ..)
  | register me pid envir rb alloc halloc => exact ⟨_, h.addRoot pid envir rb⟩
  | unregister pid r c xs b' hr hc hpid hring hd =>
    obtain rfl := (h.rings r hr).unique hring
    exact ⟨ring, h.drop hr hd⟩

/-! ### Families in a state -/

variable {s s' s₀ : State}

theorem tasks_of_entry {c : TaskCore × Option RbId} (hc : s.book.entry t = some c) :
    ∃ task, s.tasks t = some task ∧ task.core = c := by
  simpa [State.book] using hc

theorem Forest.family (h : Forest s.book ring) (hr : r ∈ s.taskList) : Family s r r (ring r) := by
  refine ⟨h.rings r hr, fun t ht => ?_, h.count r hr⟩
  obtain ⟨c, hc, henv, -⟩ := h.member r hr t ht
  obtain ⟨task, htask, rfl⟩ := tasks_of_entry hc
  exact ⟨task, htask, henv⟩

theorem Forest.extra (h : Forest s.book ring) (hr : r ∈ s.taskList) :
    ∃ task extra, s.tasks r = some task ∧ task.extra = some extra := by
  obtain ⟨c, hc, -, hextra⟩ := h.member r hr r List.mem_cons_self
  obtain ⟨task, htask, rfl⟩ := tasks_of_entry hc
  have hx := hextra.mpr rfl
  simp only [SmonTask.core, Option.isSome_map, Option.isSome_iff_exists] at hx
  obtain ⟨extra, hx⟩ := hx
  exact ⟨task, extra, htask, hx⟩

theorem Forest.unregister (h : Forest s.book ring) (hr : r ∈ s.taskList) :
    ∃ s', s.smonSchedUnregister r = .ok s' ∧ Unregistered s r r (ring r) s' :=
  (h.family hr).unregister (h.extra hr) (h.length_le hr)

theorem book_holds (s : State) (rb : RbId) (t : TaskId) : s.book.holds rb t = s.holds rb t := by
  simp only [Book.holds, holds, State.book]
  cases s.tasks t <;> rfl

theorem Unregistered.book {xs : List TaskId} (h : Unregistered s r r xs s') :
    s.book.Dropped r xs s'.book := by
  have hs := h.static
  simp only [State.static, Static.mk.injEq] at hs
  obtain ⟨hkernel, -, -, -, -, -, hfresh, htaskList, hwait, hcpu, -⟩ := hs
  refine ⟨hkernel, hfresh, fun t => ?_, h.envirs, fun rb => ?_, htaskList, ?_, h.others, ?_⟩
  · simp only [State.book, h.tasks]
    split <;> rfl
  · have hholds : s.book.holds rb = s.holds rb := funext (book_holds s rb)
    rw [hholds]
    exact h.active rb
  · funext i
    cases i with
    | waiting => exact hwait
    | cpu c => exact congrFun hcpu c
  · have hdestroy : (xs.map TraceEvent.destroy).filter TraceEvent.isBook = xs.map .destroy :=
      List.filter_eq_self.mpr (by simp [TraceEvent.isBook])
    simp only [State.book, h.trace, List.filter_append, hdestroy]
    rfl

/-- **The system keeps the books as `BookStep` says.** -/
theorem exec_book_step {l : Label} (h : Forest s.book ring) (hexec : s.exec l = .ok s') :
    BookStep s.book l s'.book := by
  cases l with
  | time d =>
    cases hexec
    exact .idle _ (.inl ⟨d, rfl⟩)
  | count me ctr inc =>
    cases hexec
    have hquiet : Quiet (fun _ => True) 0 s _ := (Quiet.of_onCpu me fun msr =>
      Function.update msr ctr.register (msr ctr.register + BitVec.ofNat 64 inc)).trans
        (.of_record (e := .count me ctr inc) (by rfl))
    exact hquiet.book ▸ .idle (.count me ctr inc) (.inr (.inl ⟨me, ctr, inc, rfl⟩))
  | irq me w =>
    have hquiet : Quiet (fun _ => True) w.task _ s' := quiet_runIrq hexec
    exact hquiet.book ▸ .idle (.irq me w) (.inr (.inr (.inl ⟨me, w, rfl⟩)))
  | tick t =>
    have hquiet : Quiet (fun _ => True) t s s' :=
      quiet_smonSchedTimerTick (fun _ => trivial) hexec
    exact hquiet.book ▸ .idle (.tick t) (.inr (.inr (.inr (.inl ⟨t, rfl⟩))))
  | raplTick t =>
    have hquiet : Quiet (fun _ => True) t s s' :=
      quiet_smonSchedTimerRapl (fun _ => trivial) hexec
    exact hquiet.book ▸ .idle (.raplTick t) (.inr (.inr (.inr (.inr (.inl ⟨t, rfl⟩)))))
  | switch me next =>
    obtain ⟨s₁, hswitch, hs⟩ := bind_eq_ok.mp hexec
    cases hs
    have hbook : s₁.book = s.book := by
      obtain ⟨mid, hout, hin⟩ := switch_cases hswitch
      have hmid : mid.book = s.book := by
        rcases hout with ⟨-, rfl⟩ | ⟨t, -, hout⟩
        · rfl
        · exact (quiet_smonSchedTaskOut (K := fun _ => True) (fun _ => trivial) (fun _ => trivial)
            hout).book
      rcases hin with ⟨-, rfl⟩ | ⟨t, -, hin⟩
      · exact hmid
      · exact (quiet_smonSchedTaskIn (K := fun _ => True) hin).book.trans hmid
    have hkernel : s₁.kernel = s.kernel := congrArg Book.kernel hbook
    rw [book_withKernel, hbook, hkernel]
    exact .idle _ (.inr (.inr (.inr (.inr (.inr (.inl ⟨me, next, rfl⟩))))))
  | migrate p dest =>
    obtain ⟨s₁, hmigrate, hs⟩ := bind_eq_ok.mp hexec
    cases hs
    exact migrate_book hmigrate
  | fork parent child pid cpu leader alloc =>
    exact fork_book (fun t ht => by
      obtain ⟨c, hc⟩ := Option.ne_none_iff_exists'.mp ht
      exact h.bound t c hc) hexec
  | exec p => exact exec_book hexec
  | exit p => exact exit_book hexec
  | reap p =>
    cases hexec
    exact .idle _ (.inr (.inr (.inr (.inr (.inr (.inr ⟨p, rfl⟩))))))
  | register me pid envir rb alloc =>
    obtain ⟨⟨ret, s₁⟩, hregister, hs⟩ := bind_eq_ok.mp hexec
    cases hs
    rcases register_book hregister with ⟨halloc, -, rfl⟩ | ⟨halloc, -, hbook⟩
    · exact .registerNone _ _ _ _ _ halloc
    · exact hbook ▸ .register _ _ _ _ _ halloc
  | unregister pid =>
    obtain ⟨⟨ret, s₁⟩, hunregister, hs⟩ := bind_eq_ok.mp hexec
    cases hs
    simp only [smonSchedUnregisterTask, bind_eq_ok] at hunregister
    obtain ⟨found, hfound, hunregister⟩ := hunregister
    cases found with
    | none =>
      cases hunregister
      exact .unregisterNone pid
    | some r =>
      obtain ⟨hr, task, htask, hpid⟩ := findTask_some hfound
      obtain ⟨s₂, hs₂, hun⟩ := h.unregister hr
      simp only [hs₂, bind, Except.bind, pure, Except.pure, Except.ok.injEq, Prod.mk.injEq]
        at hunregister
      obtain ⟨-, rfl⟩ := hunregister
      have hpid' : task.pid = pid := by simpa using hpid
      exact .unregister pid r task.core (ring r) _ hr (entry_of_tasks htask) hpid'
        (h.rings r hr) hun.book

theorem Initial.forest (h : s₀.Initial) : Forest s₀.book fun _ => [] := by
  have hentry : ∀ t, s₀.book.entry t = none := fun t => by simp [State.book, h.tasks t]
  have htaskList : s₀.book.taskList = [] := h.taskList
  have hhistory : s₀.book.history = [] := by simp [State.book, h.trace]
  constructor <;> simp [hentry, htaskList, hhistory]

/-- **Families are in order** in every reachable state. -/
theorem exists_forest {ls : List Label} (run : Run State.Step s₀ ls s) (init : s₀.Initial) :
    ∃ ring, Forest s.book ring :=
  run.invariant (motive := fun s => ∃ ring, Forest s.book ring) ⟨_, Initial.forest init⟩ <| by
    rintro t l u ⟨ring, hforest⟩ hstep
    exact hforest.step (exec_book_step hforest hstep.2)

end SchedMon
