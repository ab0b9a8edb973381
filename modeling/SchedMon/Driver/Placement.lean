import SchedMon.Driver.Listed

/-!
# Where monitored processes are

What the module is for, said without lists: a process is watched from its registration or its
inheritance on, waiting for its `exec` first if it was asked for that, until it exits. `Watched`
computes this from the events alone. The lists refine it: a process that waits has its one task on
the waiting list, one that is monitored has it on the list of the CPU the kernel keeps it on, so
each hook looks at the right list.

This holds as long as a registration ends its search on a process that no task is for yet. The
search goes through the processes and takes the last value of its loop variable, `init_task`, if
none of them has the pid; and a process that is monitored by inheritance can be registered again.

## Main definitions

* `Watched.step`, `watched` — who is watched, by the events
* `Placed` — the lists and the lookups agree with that

## Main results

* `PlacedBook.step` — every event keeps tasks where they belong
* `placed_of_run` — **tasks are where the hooks look for them**
* `not_placed` — two tasks of one process
-/

namespace SchedMon

open State SchedMon.Shelf

/-! ### The purpose -/

inductive Phase where
  | waiting
  | monitored
  deriving DecidableEq

/-- How a process is watched. -/
structure Watch where
  phase : Phase
  inherit : Bool
  deriving DecidableEq

/-- Who is watched. -/
abbrev Watched := Proc → Option Watch

/-- Who is watched after an event. -/
def Watched.step (w : Watched) (k : Kernel) : Label → Watched
  | .register _ pid envir _ alloc =>
    if alloc.task && alloc.envir then
      Function.update w (k.forEachProcess pid)
        (some ⟨if envir.options.onExec then .waiting else .monitored, envir.options.inherit⟩)
    else w
  | .fork parent child _ _ _ alloc =>
    if w parent = some ⟨.monitored, true⟩ ∧ alloc = true then
      Function.update w child (some ⟨.monitored, true⟩)
    else w
  | .exec p => Function.update w p ((w p).map fun x => ⟨.monitored, x.inherit⟩)
  | .exit p => Function.update w p none
  | _ => w

/-- The kernel, and who is watched, after some events. -/
def watched (k : Kernel) (ls : List Label) : Kernel × Watched :=
  ls.foldl (fun x l => (x.1.step l, x.2.step x.1 l)) (k, fun _ => none)

theorem watched_append (k : Kernel) (ls : List Label) (l : Label) : watched k (ls ++ [l]) =
    ((watched k ls).1.step l, (watched k ls).2.step (watched k ls).1 l) := by
  simp [watched]

/-- The list a process belongs on that the kernel keeps on CPU `c`. -/
def Watch.place (x : Watch) (c : Cpu) : Place :=
  match x.phase with
  | .waiting => .waiting
  | .monitored => .cpu c

/-! ### The books -/

/-- A process that is looked up by its pid is there. -/
theorem Kernel.forEachProcess_known {k : Kernel} (hinit : k.known initTask = true)
    (hprocs : ∀ p ∈ k.procs, k.known p = true) (pid : Pid) : k.known (k.forEachProcess pid) = true := by
  unfold Kernel.forEachProcess
  cases hfind : k.procs.find? fun p => k.pid p = pid with
  | none => exact hinit
  | some p => exact hprocs p (List.mem_of_find?_eq_some hfind)

/-- Tasks are for the processes that are watched, and each is where it belongs. -/
structure PlacedBook (w : Watched) (b : Book) : Prop where
  entry : ∀ t c p, b.entry t = some c → c.1.p = some p → ∃ x envir, w p = some x ∧
    t ∈ b.lists (x.place (b.kernel.cpu p)) ∧ b.envirs c.1.envir = some envir ∧
    envir.options.inherit = x.inherit
  unique : ∀ t u c d p, b.entry t = some c → b.entry u = some d → c.1.p = some p →
    d.1.p = some p → t = u
  complete : ∀ p x, w p = some x → ∃ t c, b.entry t = some c ∧ c.1.p = some p
  listed : ∀ i, ∀ t ∈ b.lists i, ∃ c p, b.entry t = some c ∧ c.1.p = some p
  known : ∀ p x, w p = some x → b.kernel.known p = true
  procs : b.kernel.known initTask = true ∧ ∀ p ∈ b.kernel.procs, b.kernel.known p = true

namespace PlacedBook

variable {w : Watched} {b b' : Book} {ring : TaskId → List TaskId} {t : TaskId} {p : Proc}
  {x : Watch} {i : Place} {k : Kernel}

/-- A watched process has its task on its list. -/
theorem exists_at (h : PlacedBook w b) (hx : w p = some x) :
    ∃ t, b.At (x.place (b.kernel.cpu p)) p t := by
  obtain ⟨t, c, hc, hp⟩ := h.complete p x hx
  obtain ⟨x', -, hx', hmem, -⟩ := h.entry t c p hc hp
  obtain rfl := Option.some_inj.mp (hx'.symm.trans hx)
  exact ⟨t, hmem, c, hc, hp⟩

theorem not_absent (h : PlacedBook w b) (hx : w p = some x) :
    ¬ b.Absent (x.place (b.kernel.cpu p)) p := by
  intro habsent
  obtain ⟨t, hmem, c, hc, hp⟩ := h.exists_at hx
  obtain ⟨c', hc', hne⟩ := habsent t hmem
  obtain rfl := Option.some_inj.mp (hc'.symm.trans hc)
  exact hne hp

/-- A task found on a list tells how its process is watched. -/
theorem watch_of_at (h : PlacedBook w b) (hlisted : Listed b) (hat : b.At i p t) :
    ∃ x, w p = some x ∧ i = x.place (b.kernel.cpu p) := by
  obtain ⟨hmem, c, hc, hp⟩ := hat
  obtain ⟨x, -, hx, hmem', -⟩ := h.entry t c p hc hp
  exact ⟨x, hx, hlisted.separate.unique _ _ t hmem hmem'⟩

theorem forEachProcess_known (h : PlacedBook w b) (pid : Pid) :
    b.kernel.known (b.kernel.forEachProcess pid) = true :=
  Kernel.forEachProcess_known h.procs.1 h.procs.2 pid

/-! ### Steps -/

/-- The kernel moves on. -/
theorem withKernel (h : PlacedBook w b)
    (hcpu : ∀ p x, w p = some x → x.phase = .monitored → k.cpu p = b.kernel.cpu p)
    (hknown : ∀ p, b.kernel.known p = true → k.known p = true)
    (hprocs : ∀ p ∈ k.procs, k.known p = true) : PlacedBook w { b with kernel := k } := by
  refine ⟨fun t c p hc hp => ?_, h.unique, h.complete, h.listed,
    fun p x hx => hknown p (h.known p x hx), hknown _ h.procs.1, hprocs⟩
  obtain ⟨x, envir, hx, hmem, hrest⟩ := h.entry t c p hc hp
  refine ⟨x, envir, hx, ?_, hrest⟩
  have hplace : x.place (k.cpu p) = x.place (b.kernel.cpu p) := by
    unfold Watch.place
    cases hphase : x.phase with
    | waiting => rfl
    | monitored => simp only [hcpu p x hx hphase]
  exact hplace ▸ hmem

/-- A new process appears, which nobody watches. -/
theorem addProc (h : PlacedBook w b) (child : Proc) (pid : Pid) (cpu : Cpu) (leader : Bool)
    (hchild : b.kernel.known child = false) : w child = none ∧
      PlacedBook w { b with kernel := b.kernel.addProc child pid cpu leader } := by
  have hne : ∀ q, b.kernel.known q = true → q ≠ child := by
    rintro q hq rfl
    rw [hq] at hchild
    cases hchild
  have hknown : ∀ q, b.kernel.known q = true →
      (b.kernel.addProc child pid cpu leader).known q = true := fun q hq => by
    simp only [Kernel.addProc, Function.update_of_ne (hne q hq), hq]
  refine ⟨?_, h.withKernel (fun q x hx _ => Function.update_of_ne (hne q (h.known q x hx)) ..)
    hknown fun q hq => ?_⟩
  · by_contra hsome
    obtain ⟨x, hx⟩ := Option.ne_none_iff_exists'.mp hsome
    exact hne child (h.known child x hx) rfl
  · by_cases hqc : q = child
    · simp [Kernel.addProc, hqc]
    · refine hknown q (h.procs.2 q ?_)
      simp only [Kernel.addProc] at hq
      split at hq
      · exact (List.mem_append.mp hq).resolve_right (by simpa using hqc)
      · exact hq

/-- A task goes to the list its process belongs on by now. -/
theorem move (h : PlacedBook w b) (hlisted : Listed b) {w' : Watched} {y : Watch}
    (hat : b.At i p t) (hx : w p = some x) (hinherit : y.inherit = x.inherit)
    (hw : w' = Function.update w p (some y)) (hknown : k.known = b.kernel.known)
    (hprocs : k.procs = b.kernel.procs) (hcpu : ∀ q, q ≠ p → k.cpu q = b.kernel.cpu q) :
    PlacedBook w' { b.move t i (y.place (k.cpu p)) with kernel := k } := by
  obtain ⟨hmem, c, hc, hp⟩ := hat
  have hmove : ∀ {u j}, u ∈ (b.move t i (y.place (k.cpu p))).lists j ↔
      u ∈ b.lists j ∧ u ≠ t ∨ j = y.place (k.cpu p) ∧ u = t := hlisted.separate.mem_move hmem
  subst hw
  refine ⟨fun u d q hd hq => ?_, h.unique, fun q z hz => ?_, fun j u hu => ?_, fun q z hz => ?_, ?_⟩
  · obtain ⟨z, envir, hz, hmemu, henvir, hopt⟩ := h.entry u d q hd hq
    by_cases hqp : q = p
    · subst hqp
      obtain rfl := h.unique u t d c q hd hc hq hp
      obtain rfl := Option.some_inj.mp (hz.symm.trans hx)
      exact ⟨y, envir, Function.update_self .., hmove.mpr (.inr ⟨rfl, rfl⟩), henvir,
        hopt.trans hinherit.symm⟩
    · refine ⟨z, envir, by rw [Function.update_of_ne hqp, hz], hmove.mpr (.inl ⟨?_, ?_⟩), henvir, hopt⟩
      · simpa only [hcpu q hqp] using hmemu
      · rintro rfl
        obtain rfl := Option.some_inj.mp (hd.symm.trans hc)
        exact hqp (Option.some_inj.mp (hq.symm.trans hp))
  · by_cases hqp : q = p
    · exact ⟨t, c, hc, hqp ▸ hp⟩
    · rw [Function.update_of_ne hqp] at hz
      exact h.complete q z hz
  · rcases hmove.mp hu with ⟨hu, -⟩ | ⟨-, rfl⟩
    · exact h.listed j u hu
    · exact ⟨c, p, hc, hp⟩
  · simp only [hknown]
    by_cases hqp : q = p
    · exact hqp ▸ h.known p x hx
    · rw [Function.update_of_ne hqp] at hz
      exact h.known q z hz
  · simpa only [hknown, hprocs] using h.procs

/-- The process of a task exits. -/
theorem leave (h : PlacedBook w b) (hlisted : Listed b) {c : TaskCore × Option RbId} (rb : RbId)
    (hat : b.At i p t) (hc : b.entry t = some c) :
    PlacedBook (Function.update w p none) (b.leave t c rb i) := by
  obtain ⟨hmem, c', hc', hp⟩ := hat
  obtain rfl := Option.some_inj.mp (hc'.symm.trans hc)
  have htake : ∀ {u j}, u ∈ (b.leave t c' rb i).lists j ↔ u ∈ b.lists j ∧ u ≠ t :=
    hlisted.separate.mem_take hmem
  have hback : ∀ u d q, (b.leave t c' rb i).entry u = some d → d.1.p = some q →
      u ≠ t ∧ b.entry u = some d ∧ q ≠ p := by
    intro u d q hd hq
    by_cases hut : u = t
    · subst hut
      simp only [Book.leave, Function.update_self, Option.some_inj] at hd
      subst hd
      cases hq
    · simp only [Book.leave, Function.update_of_ne hut] at hd
      refine ⟨hut, hd, ?_⟩
      rintro rfl
      exact hut (h.unique u t d c' q hd hc hq hp)
  have hforth : ∀ u d, b.entry u = some d → u ≠ t → (b.leave t c' rb i).entry u = some d := by
    intro u d hd hut
    simp only [Book.leave, Function.update_of_ne hut, hd]
  refine ⟨fun u d q hd hq => ?_, fun u v d e q hd he hdq heq => ?_, fun q z hz => ?_,
    fun j u hu => ?_, fun q z hz => ?_, h.procs⟩
  · obtain ⟨hut, hd, hqp⟩ := hback u d q hd hq
    obtain ⟨z, envir, hz, hmemu, hrest⟩ := h.entry u d q hd hq
    exact ⟨z, envir, by rw [Function.update_of_ne hqp, hz], htake.mpr ⟨hmemu, hut⟩, hrest⟩
  · exact h.unique u v d e q (hback u d q hd hdq).2.1 (hback v e q he heq).2.1 hdq heq
  · have hqp : q ≠ p := by
      rintro rfl
      rw [Function.update_self] at hz
      cases hz
    rw [Function.update_of_ne hqp] at hz
    obtain ⟨u, d, hd, hq⟩ := h.complete q z hz
    refine ⟨u, d, hforth u d hd ?_, hq⟩
    rintro rfl
    obtain rfl := Option.some_inj.mp (hd.symm.trans hc)
    exact hqp (Option.some_inj.mp (hq.symm.trans hp))
  · obtain ⟨hu, hut⟩ := htake.mp hu
    obtain ⟨d, q, hd, hq⟩ := h.listed j u hu
    exact ⟨d, q, hforth u d hd hut, hq⟩
  · have hqp : q ≠ p := by
      rintro rfl
      rw [Function.update_self] at hz
      cases hz
    rw [Function.update_of_ne hqp] at hz
    exact h.known q z hz

/-- A new task, for a process that was not watched. -/
theorem add (h : PlacedBook w b) {e : TaskCore × Option RbId} {envir : SmonEnvir}
    (hw : w p = none) (hp : e.1.p = some p) (hknown : b.kernel.known p = true)
    (hkernel : b'.kernel = b.kernel)
    (hlists : b'.lists = put b.lists (x.place (b.kernel.cpu p)) b.fresh)
    (hnew : b'.entry b.fresh = some e) (henvir : b'.envirs e.1.envir = some envir)
    (hinherit : envir.options.inherit = x.inherit)
    (hback : ∀ u d', u ≠ b.fresh → b'.entry u = some d' →
      ∃ d, b.entry u = some d ∧ d'.1.p = d.1.p ∧ d'.1.envir = d.1.envir)
    (hforth : ∀ u d, b.entry u = some d → ∃ d', b'.entry u = some d' ∧ d'.1.p = d.1.p)
    (henvirs : ∀ u d o, b.entry u = some d → b.envirs d.1.envir = some o →
      ∃ o', b'.envirs d.1.envir = some o' ∧ o'.options = o.options) :
    PlacedBook (Function.update w p (some x)) b' := by
  have hput : ∀ {u j}, u ∈ b'.lists j ↔ u ∈ b.lists j ∨ j = x.place (b.kernel.cpu p) ∧ u = b.fresh := by
    intro u j
    rw [hlists]
    exact mem_put
  have hfresh : ∀ u d', b'.entry u = some d' → d'.1.p = some p → u = b.fresh := by
    intro u d' hd' hq
    by_contra hu
    obtain ⟨d, hd, hpd, -⟩ := hback u d' hu hd'
    obtain ⟨z, -, hz, -⟩ := h.entry u d p hd (hpd ▸ hq)
    rw [hw] at hz
    cases hz
  refine ⟨fun u d' q hd' hq => ?_, fun u v d' e' q hd' he' hdq heq => ?_, fun q z hz => ?_,
    fun j u hu => ?_, fun q z hz => ?_, by rw [hkernel]; exact h.procs⟩
  · by_cases hu : u = b.fresh
    · subst hu
      obtain rfl := Option.some_inj.mp (hd'.symm.trans hnew)
      obtain rfl := Option.some_inj.mp (hq.symm.trans hp)
      exact ⟨x, envir, Function.update_self .., hput.mpr (.inr ⟨by rw [hkernel], rfl⟩), henvir,
        hinherit⟩
    · obtain ⟨d, hd, hpd, henv⟩ := hback u d' hu hd'
      obtain ⟨z, o, hz, hmemu, ho, hopt⟩ := h.entry u d q hd (hpd ▸ hq)
      obtain ⟨o', ho', hopt'⟩ := henvirs u d o hd ho
      have hqp : q ≠ p := by
        rintro rfl
        rw [hw] at hz
        cases hz
      exact ⟨z, o', by rw [Function.update_of_ne hqp, hz], hput.mpr (.inl (hkernel ▸ hmemu)),
        henv ▸ ho', by rw [hopt', hopt]⟩
  · by_cases hqp : q = p
    · subst hqp
      rw [hfresh u d' hd' hdq, hfresh v e' he' heq]
    · have hne : ∀ y y', b'.entry y = some y' → y'.1.p = some q → y ≠ b.fresh := by
        rintro y y' hy hyq rfl
        obtain rfl := Option.some_inj.mp (hy.symm.trans hnew)
        exact hqp (Option.some_inj.mp (hyq.symm.trans hp))
      obtain ⟨d, hd, hpd, -⟩ := hback u d' (hne u d' hd' hdq) hd'
      obtain ⟨e, he, hpe, -⟩ := hback v e' (hne v e' he' heq) he'
      exact h.unique u v d e q hd he (hpd ▸ hdq) (hpe ▸ heq)
  · by_cases hqp : q = p
    · exact ⟨b.fresh, e, hnew, hqp ▸ hp⟩
    · rw [Function.update_of_ne hqp] at hz
      obtain ⟨u, d, hd, hq⟩ := h.complete q z hz
      obtain ⟨d', hd', hpd⟩ := hforth u d hd
      exact ⟨u, d', hd', hpd.trans hq⟩
  · rcases hput.mp hu with hu | ⟨-, rfl⟩
    · obtain ⟨d, q, hd, hq⟩ := h.listed j u hu
      obtain ⟨d', hd', hpd⟩ := hforth u d hd
      exact ⟨d', q, hd', hpd.trans hq⟩
    · exact ⟨e, p, hnew, hp⟩
  · rw [hkernel]
    by_cases hqp : q = p
    · exact hqp ▸ hknown
    · rw [Function.update_of_ne hqp] at hz
      exact h.known q z hz

theorem addRoot (h : PlacedBook w b) (hforest : Forest b ring) (pid : Pid) (envir : SmonEnvir)
    (rb : RbId) (hw : w (b.kernel.forEachProcess pid) = none) :
    PlacedBook (Function.update w (b.kernel.forEachProcess pid) (some ⟨if envir.options.onExec then
      .waiting else .monitored, envir.options.inherit⟩)) (b.addRoot pid envir rb) := by
  refine h.add hw rfl (h.forEachProcess_known pid) rfl ?_ (Function.update_self ..)
    (Function.update_self ..) ?_ (fun u d' hu hd' => ⟨d', ?_, rfl, rfl⟩) (fun u d hd => ⟨d, ?_, rfl⟩)
    fun u d o hd ho => ⟨o, ?_, rfl⟩
  · simp only [Book.addRoot, Book.rootPlace, Watch.place]
    split <;> rfl
  · unfold smonCreateEnvir
    dsimp only
    split <;> rfl
  · simpa [Book.addRoot, hu] using hd'
  · simp only [Book.addRoot, Function.update_of_ne (Nat.ne_of_lt (hforest.bound u d hd)), hd]
  · have hlt := hforest.lt_fresh (hforest.live u d hd).1 List.mem_cons_self
    simp only [Book.addRoot, Function.update_of_ne (Nat.ne_of_lt hlt), ho]

theorem addChild (h : PlacedBook w b) (hforest : Forest b ring) {c : TaskCore × Option RbId}
    {envir : SmonEnvir} (rb : RbId) (hc : b.entry t = some c)
    (henvir : b.envirs c.1.envir = some envir) (hinherit : envir.options.inherit = true)
    (hw : w p = none) (hknown : b.kernel.known p = true) :
    PlacedBook (Function.update w p (some ⟨.monitored, true⟩)) (b.addChild t c rb envir p) := by
  have htn : b.fresh ≠ t := (Nat.ne_of_lt (hforest.bound t c hc)).symm
  have hnew : (b.addChild t c rb envir p).entry b.fresh =
      some (⟨some p, b.kernel.pid p, c.1.envir, 0, some rb⟩, none) := by
    simp only [Book.addChild, Function.update_of_ne htn, Function.update_self]
  refine h.add hw rfl hknown rfl rfl hnew (Function.update_self ..) hinherit
    (fun u d' hu hd' => ?_) (fun u d hd => ?_) fun u d o hd ho => ?_
  · by_cases hut : u = t
    · subst hut
      simp only [Book.addChild, Function.update_self, Option.some_inj] at hd'
      exact ⟨c, hc, by rw [← hd'], by rw [← hd']⟩
    · simp only [Book.addChild, Function.update_of_ne hut, Function.update_of_ne hu] at hd'
      exact ⟨d', hd', rfl, rfl⟩
  · by_cases hut : u = t
    · subst hut
      obtain rfl := Option.some_inj.mp (hc.symm.trans hd)
      exact ⟨_, Function.update_self .., rfl⟩
    · refine ⟨d, ?_, rfl⟩
      simp only [Book.addChild, Function.update_of_ne hut,
        Function.update_of_ne (Nat.ne_of_lt (hforest.bound u d hd)), hd]
  · by_cases he : d.1.envir = c.1.envir
    · rw [he] at ho ⊢
      obtain rfl := Option.some_inj.mp (henvir.symm.trans ho)
      exact ⟨_, Function.update_self .., rfl⟩
    · exact ⟨o, by simp only [Book.addChild, Function.update_of_ne he, ho], rfl⟩

/-- Destroying a family that has exited. -/
theorem drop (h : PlacedBook w b) (hforest : Forest b ring) {r : TaskId} (hr : r ∈ b.taskList)
    (hd : b.Dropped r (ring r) b')
    (hexited : ∀ u ∈ r :: ring r, ∀ d, b.entry u = some d → d.1.p = none) : PlacedBook w b' := by
  have hforth : ∀ u d q, b.entry u = some d → d.1.p = some q →
      u ∉ r :: ring r ∧ b'.entry u = some d := by
    intro u d q hu hq
    have hmem : u ∉ r :: ring r := by
      intro hmem
      rw [hexited u hmem d hu] at hq
      cases hq
    exact ⟨hmem, by rw [hd.entry, if_neg hmem, hu]⟩
  have hback : ∀ u d, b'.entry u = some d → b.entry u = some d := by
    intro u d hu
    rw [hd.entry] at hu
    split at hu
    · cases hu
    · exact hu
  refine ⟨fun u d q hu hq => ?_, fun u v d e q hu hv hdq heq => ?_, fun q z hz => ?_,
    fun j u hu => ?_, by rw [hd.kernel]; exact h.known, by rw [hd.kernel]; exact h.procs⟩
  · obtain ⟨z, o, hz, hmem, ho, hopt⟩ := h.entry u d q (hback u d hu) hq
    have hne : d.1.envir ≠ r := by
      intro heq
      exact (hforth u d q (hback u d hu) hq).1 ((hforest.mem_iff (hback u d hu) hr).mpr heq)
    refine ⟨z, o, hz, ?_, ?_, hopt⟩
    · rw [hd.lists, hd.kernel]
      exact hmem
    · rw [hd.envirs, Function.update_of_ne hne, ho]
  · exact h.unique u v d e q (hback u d hu) (hback v e hv) hdq heq
  · obtain ⟨u, d, hu, hq⟩ := h.complete q z hz
    exact ⟨u, d, (hforth u d q hu hq).2, hq⟩
  · rw [hd.lists] at hu
    obtain ⟨d, q, hu, hq⟩ := h.listed j u hu
    exact ⟨d, q, (hforth u d q hu hq).2, hq⟩

end PlacedBook

/-- What is asked of the events: a forked process is new, a registration finds a process that is
not watched, and a family is unregistered after it has exited. -/
def Book.Allows (w : Watched) (b : Book) : Label → Prop
  | .fork _ child _ _ _ _ => b.kernel.known child = false
  | .register _ pid _ _ _ => w (b.kernel.forEachProcess pid) = none
  | .unregister pid => ∀ r ∈ b.taskList, ∀ c, b.entry r = some c → c.1.pid = pid →
      ∀ t, t = r ∨ Descends b.history r t → ∀ d, b.entry t = some d → d.1.p = none
  | _ => True

section Step

variable {w : Watched} {b b' : Book} {ring : TaskId → List TaskId} {l : Label}

/-- **Every event keeps tasks where they belong.** -/
theorem PlacedBook.step (h : PlacedBook w b) (hlisted : Listed b) (hforest : Forest b ring)
    (hstep : BookStep b l b') (hallows : b.Allows w l) : PlacedBook (w.step b.kernel l) b' := by
  cases hstep with
  | idle l hl =>
    have hw : w.step b.kernel l = w := by
      rcases hl with ⟨_, rfl⟩ | ⟨_, _, _, rfl⟩ | ⟨_, _, rfl⟩ | ⟨_, rfl⟩ | ⟨_, rfl⟩ | ⟨_, _, rfl⟩ |
        ⟨_, rfl⟩ <;> rfl
    rw [hw]
    refine h.withKernel (fun p x _ _ => ?_) (fun p hp => ?_) fun p hp => ?_
    · rcases hl with ⟨_, rfl⟩ | ⟨_, _, _, rfl⟩ | ⟨_, _, rfl⟩ | ⟨_, rfl⟩ | ⟨_, rfl⟩ | ⟨_, _, rfl⟩ |
        ⟨_, rfl⟩ <;> rfl
    · rcases hl with ⟨_, rfl⟩ | ⟨_, _, _, rfl⟩ | ⟨_, _, rfl⟩ | ⟨_, rfl⟩ | ⟨_, rfl⟩ | ⟨_, _, rfl⟩ |
        ⟨_, rfl⟩ <;> exact hp
    · rcases hl with ⟨_, rfl⟩ | ⟨_, _, _, rfl⟩ | ⟨_, _, rfl⟩ | ⟨_, rfl⟩ | ⟨_, rfl⟩ | ⟨_, _, rfl⟩ |
        ⟨_, rfl⟩
      case inr.inr.inr.inr.inr.inr => exact h.procs.2 p (List.mem_of_mem_erase hp)
      all_goals exact h.procs.2 p hp
  | migrateNone p dest habsent =>
    refine h.withKernel (fun q x hx hphase => ?_) (fun _ hq => hq) h.procs.2
    have hqp : q ≠ p := by
      rintro rfl
      refine h.not_absent hx ?_
      simpa only [Watch.place, hphase] using habsent
    exact Function.update_of_ne hqp ..
  | migrate p dest t hat =>
    obtain ⟨x, hx, hplace⟩ := h.watch_of_at hlisted hat
    have hphase : x.phase = .monitored := by
      cases hphase : x.phase with
      | monitored => rfl
      | waiting => simp [Watch.place, hphase] at hplace
    have hmove := h.move (k := b.kernel.step (.migrate p dest)) (y := x) hlisted hat hx rfl rfl rfl
      rfl fun q hq => Function.update_of_ne hq ..
    have hself : Function.update w p (some x) = w := Function.update_eq_self_iff.mpr hx.symm
    rw [hself] at hmove
    simp only [Watch.place, hphase, Kernel.step, Function.update_self] at hmove
    exact hmove
  | forkNone parent child pid cpu leader alloc k hk hnone =>
    obtain ⟨-, h'⟩ := h.addProc child pid cpu leader hallows
    subst hk
    have hw : w.step b.kernel (.fork parent child pid cpu leader alloc) = w := by
      refine if_neg ?_
      rintro ⟨hparent, rfl⟩
      rcases hnone with habsent | halloc | ⟨u, d, envir, hatu, hd, henvir, hno⟩
      · exact h'.not_absent hparent habsent
      · cases halloc
      · obtain ⟨hmemu, d', hd', hpu⟩ := hatu
        obtain rfl := Option.some_inj.mp (hd'.symm.trans hd)
        obtain ⟨x, o, hx, -, ho, hopt⟩ := h.entry u d' parent hd hpu
        obtain rfl := Option.some_inj.mp (hx.symm.trans hparent)
        obtain rfl := Option.some_inj.mp (ho.symm.trans henvir)
        rw [hno] at hopt
        cases hopt
    rw [hw]
    exact h'
  | fork parent child pid cpu leader k t c rb envir hk hat hc hrb henvir hinherit =>
    obtain ⟨hchild, h'⟩ := h.addProc child pid cpu leader hallows
    subst hk
    have hlisted' : Listed { b with kernel := b.kernel.addProc child pid cpu leader } :=
      ⟨hlisted.separate, hlisted.bound, hlisted.fresh, hlisted.live⟩
    have hforest' : Forest { b with kernel := b.kernel.addProc child pid cpu leader } ring :=
      hforest.congr rfl rfl rfl rfl rfl fun _ => .inl rfl
    obtain ⟨x, hx, hplace⟩ := h'.watch_of_at hlisted' hat
    have hw : w parent = some ⟨.monitored, true⟩ := by
      obtain ⟨-, d, hd, hp⟩ := hat
      obtain rfl := Option.some_inj.mp (hd.symm.trans hc)
      obtain ⟨y, o, hy, -, ho, hopt⟩ := h.entry t d parent hc hp
      obtain rfl := Option.some_inj.mp (hy.symm.trans hx)
      obtain rfl := Option.some_inj.mp (ho.symm.trans henvir)
      obtain ⟨phase, inherit⟩ := y
      cases phase with
      | monitored =>
        have htrue : inherit = true := hopt.symm.trans hinherit
        rw [hx, htrue]
      | waiting => simp [Watch.place] at hplace
    have hstep : w.step b.kernel (.fork parent child pid cpu leader true) =
        Function.update w child (some ⟨.monitored, true⟩) := if_pos ⟨hw, rfl⟩
    rw [hstep]
    refine h'.addChild hforest' rb hc henvir hinherit hchild ?_
    simp [Kernel.addProc]
  | execNone p habsent =>
    have hw : w.step b.kernel (.exec p) = w := by
      refine Function.update_eq_self_iff.mpr ?_
      cases hx : w p with
      | none => rfl
      | some x =>
        obtain ⟨phase, inherit⟩ := x
        cases phase with
        | monitored => rfl
        | waiting => exact absurd habsent (h.not_absent hx)
    rw [hw]
    exact h
  | exec p t hat =>
    obtain ⟨x, hx, hplace⟩ := h.watch_of_at hlisted hat
    refine h.move (y := ⟨.monitored, x.inherit⟩) hlisted hat hx rfl ?_ rfl rfl fun _ _ => rfl
    simp only [Watched.step, hx, Option.map_some]
  | exitNone p habsent habsent' =>
    have hw : w.step b.kernel (.exit p) = w := by
      refine Function.update_eq_self_iff.mpr ?_
      cases hx : w p with
      | none => rfl
      | some x =>
        obtain ⟨phase, inherit⟩ := x
        cases phase with
        | monitored => exact absurd habsent (h.not_absent hx)
        | waiting => exact absurd habsent' (h.not_absent hx)
    rw [hw]
    exact h
  | exit p i t c rb hi hat hc hrb => exact h.leave hlisted rb hat hc
  | registerNone me pid envir rb alloc halloc =>
    have hw : w.step b.kernel (.register me pid envir rb alloc) = w := if_neg (by simp [halloc])
    rw [hw]
    exact h
  | register me pid envir rb alloc halloc =>
    have hw : w.step b.kernel (.register me pid envir rb alloc) = Function.update w
        (b.kernel.forEachProcess pid) (some ⟨if envir.options.onExec then .waiting else .monitored,
          envir.options.inherit⟩) := if_pos halloc
    rw [hw]
    exact h.addRoot hforest pid envir rb hallows
  | unregisterNone pid => exact h
  | unregister pid r c xs b' hr hc hpid hring hd =>
    obtain rfl := (hforest.rings r hr).unique hring
    refine h.drop hforest hr hd fun u hu => hallows r hr c hc hpid u ?_
    rw [List.mem_cons, hforest.descent r hr] at hu
    exact hu

end Step

/-! ### The state -/

variable {s s₀ : State} {ls : List Label} {t : TaskId}

/-- What is asked of the events: a forked process is new, a registration finds a process that no
task is for, and a family is unregistered after it has exited. -/
def State.Allows (s : State) : Label → Prop
  | .fork _ child _ _ _ _ => s.kernel.known child = false
  | .register _ pid _ _ _ =>
    ∀ t task, s.tasks t = some task → task.p ≠ some (s.kernel.forEachProcess pid)
  | .unregister pid => ∀ r ∈ s.taskList, ∀ root, s.tasks r = some root → root.pid = pid →
      ∀ t, t = r ∨ Descends s.trace r t → s.alive t = false
  | _ => True

/-- Task `t` is on list `i`, once, and on no other. -/
def State.OnlyOn (s : State) (i : Place) (t : TaskId) : Prop :=
  (s.lists i).count t = 1 ∧ ∀ j, j ≠ i → t ∉ s.lists j

/-- Tasks are where the hooks look for them. -/
structure Placed (w : Watched) (s : State) : Prop where
  /-- A task that has not exited is for a watched process. -/
  watched : ∀ t task p, s.tasks t = some task → task.p = some p → (w p).isSome = true
  /-- A watched process has a task. -/
  task : ∀ p x, w p = some x → ∃ t task, s.tasks t = some task ∧ task.p = some p
  waiting : ∀ t task p x, s.tasks t = some task → task.p = some p → w p = some x →
    x.phase = .waiting → s.OnlyOn .waiting t
  monitored : ∀ t task p x, s.tasks t = some task → task.p = some p → w p = some x →
    x.phase = .monitored → s.OnlyOn (.cpu (s.kernel.cpu p)) t
  exited : ∀ t task, s.tasks t = some task → task.p = none → ∀ i, t ∉ s.lists i
  /-- Listed tasks are live, and no two of them are for the same process. -/
  unique : ∀ i j t u, t ∈ s.lists i → u ∈ s.lists j → ∃ task task', s.tasks t = some task ∧
    s.tasks u = some task' ∧ task.p ≠ none ∧ (task.p = task'.p → t = u)
  /-- A hook of process `p` on its CPU finds the task of `p` if it is monitored, and none if not. -/
  found : ∀ p c, s.kernel.cpu p = c → ∃ found, s.findProc p (s.cpuList c) = .ok found ∧
    (found.isSome = true ↔ ∃ x, w p = some x ∧ x.phase = .monitored) ∧
    ∀ t, found = some t → ∃ task, s.tasks t = some task ∧ task.p = some p
  /-- An `exec` finds the task of `p` if it is waiting, and none if not. -/
  foundWaiting : ∀ p, ∃ found, s.findProc p s.waitList = .ok found ∧
    (found.isSome = true ↔ ∃ x, w p = some x ∧ x.phase = .waiting) ∧
    ∀ t, found = some t → ∃ task, s.tasks t = some task ∧ task.p = some p

theorem Listed.onlyOn (h : Listed s.book) {i : Place} (ht : t ∈ s.lists i) : s.OnlyOn i t :=
  ⟨List.count_eq_one_of_mem (h.separate.nodup i) ht, fun _ hj hmem =>
    hj (h.separate.unique _ _ t hmem ht)⟩

namespace PlacedBook

variable {w : Watched} {p : Proc} {x : Watch}

theorem allows {l : Label} (h : PlacedBook w s.book) (hallows : s.Allows l) : s.book.Allows w l := by
  cases l with
  | fork => exact hallows
  | register me pid envir rb alloc =>
    change w (s.kernel.forEachProcess pid) = none
    by_contra hsome
    obtain ⟨x, hx⟩ := Option.ne_none_iff_exists'.mp hsome
    obtain ⟨t, c, hc, hp⟩ := h.complete _ x hx
    obtain ⟨task, htask, rfl⟩ := tasks_of_entry hc
    exact hallows t task htask hp
  | unregister pid =>
    intro r hr c hc hpid t ht d hd
    obtain ⟨root, hroot, rfl⟩ := tasks_of_entry hc
    obtain ⟨task, htask, rfl⟩ := tasks_of_entry hd
    rw [descends_book] at ht
    have hdead := hallows r hr root hroot hpid t ht
    simp only [alive, htask, Option.isSome_eq_false_iff, Option.isNone_iff_eq_none] at hdead
    exact hdead
  | _ => trivial

/-- A lookup finds a task if and only if its process belongs on the list. -/
theorem findProc (h : PlacedBook w s.book) (hlisted : Listed s.book) (p : Proc) (i : Place) :
    ∃ found, s.findProc p (s.lists i) = .ok found ∧
      (found.isSome = true ↔ ∃ x, w p = some x ∧ x.place (s.kernel.cpu p) = i) ∧
      ∀ t, found = some t → ∃ task, s.tasks t = some task ∧ task.p = some p := by
  obtain ⟨found, hfound⟩ := exists_findTask (fun task => task.p = some p)
    (l := s.lists i) (s := s) fun u hu => by
      obtain ⟨c, q, hc, -⟩ := h.listed i u hu
      obtain ⟨task, htask, -⟩ := tasks_of_entry hc
      exact ⟨task, htask⟩
  refine ⟨found, hfound, ?_, ?_⟩
  · cases found with
    | none =>
      simp only [Option.isSome_none, Bool.false_eq_true, false_iff]
      rintro ⟨x, hx, rfl⟩
      exact h.not_absent hx (absent_of_findProc hfound)
    | some t =>
      obtain ⟨x, hx, hplace⟩ := h.watch_of_at hlisted (at_of_findProc hfound)
      simpa using ⟨x, hx, hplace.symm⟩
  · rintro t rfl
    exact (findProc_some hfound).2

/-- The books and the state. -/
theorem placed (h : PlacedBook w s.book) (hlisted : Listed s.book) : Placed w s := by
  have hentry : ∀ t task p, s.tasks t = some task → task.p = some p → ∃ x, w p = some x ∧
      t ∈ s.lists (x.place (s.kernel.cpu p)) := by
    intro t task p htask hp
    obtain ⟨x, -, hx, hmem, -⟩ := h.entry t task.core p (entry_of_tasks htask) hp
    exact ⟨x, hx, hmem⟩
  constructor
  case watched =>
    intro t task p htask hp
    obtain ⟨x, hx, -⟩ := hentry t task p htask hp
    simp [hx]
  case task =>
    intro p x hx
    obtain ⟨t, c, hc, hp⟩ := h.complete p x hx
    obtain ⟨task, htask, rfl⟩ := tasks_of_entry hc
    exact ⟨t, task, htask, hp⟩
  case waiting =>
    intro t task p x htask hp hx hphase
    obtain ⟨y, hy, hmem⟩ := hentry t task p htask hp
    obtain rfl := Option.some_inj.mp (hy.symm.trans hx)
    simp only [Watch.place, hphase] at hmem
    exact hlisted.onlyOn hmem
  case monitored =>
    intro t task p x htask hp hx hphase
    obtain ⟨y, hy, hmem⟩ := hentry t task p htask hp
    obtain rfl := Option.some_inj.mp (hy.symm.trans hx)
    simp only [Watch.place, hphase] at hmem
    exact hlisted.onlyOn hmem
  case exited =>
    intro t task htask hp i hmem
    have halive := (hlisted.mem_lists_iff (t := t) (by simp [htask])).mp ⟨i, hmem⟩
    simp [alive, htask, hp] at halive
  case unique =>
    intro i j t u ht hu
    obtain ⟨c, p, hc, hp⟩ := h.listed i t ht
    obtain ⟨d, q, hd, hq⟩ := h.listed j u hu
    obtain ⟨task, htask, rfl⟩ := tasks_of_entry hc
    obtain ⟨task', htask', rfl⟩ := tasks_of_entry hd
    refine ⟨task, task', htask, htask', ?_, fun heq => ?_⟩
    · intro hnone
      exact absurd (hp.symm.trans hnone) (by simp)
    · exact h.unique t u _ _ p hc hd hp (heq.symm.trans hp)
  case found =>
    rintro p c rfl
    obtain ⟨found, hfound, hiff, hrest⟩ := h.findProc hlisted p (.cpu (s.kernel.cpu p))
    refine ⟨found, hfound, hiff.trans (exists_congr fun x => and_congr_right fun _ => ?_), hrest⟩
    cases hphase : x.phase <;> simp [Watch.place, hphase]
  case foundWaiting =>
    intro p
    obtain ⟨found, hfound, hiff, hrest⟩ := h.findProc hlisted p .waiting
    refine ⟨found, hfound, hiff.trans (exists_congr fun x => and_congr_right fun _ => ?_), hrest⟩
    cases hphase : x.phase <;> simp [Watch.place, hphase]

end PlacedBook

theorem Initial.placedBook (h : s₀.Initial) : PlacedBook (fun _ => none) s₀.book := by
  have hentry : ∀ t, s₀.book.entry t = none := fun t => by simp [State.book, h.tasks t]
  have hlists : ∀ i, s₀.book.lists i = [] := by
    intro i
    cases i with
    | waiting => exact h.waitList
    | cpu c => exact h.cpuList c
  refine ⟨?_, ?_, ?_, ?_, ?_, h.known.1, h.known.2.1⟩ <;> simp [hentry, hlists]

/-- **Tasks are where the hooks look for them**, after every run in which each registration finds a
process that no task is for. -/
theorem placed_of_run
    (run : Run (fun s l s' => State.Step s l s' ∧ s.Allows l) s₀ ls s) (init : s₀.Initial) :
    (watched s₀.kernel ls).1 = s.kernel ∧ Placed (watched s₀.kernel ls).2 s := by
  have hall := run.induct (motive := fun ls s => ((∃ ring, Forest s.book ring) ∧ Listed s.book) ∧
      (watched s₀.kernel ls).1 = s.kernel ∧ PlacedBook (watched s₀.kernel ls).2 s.book)
  refine (fun hall => ⟨hall.2.1, hall.2.2.placed hall.1.2⟩) (hall ?_ ?_)
  · exact ⟨⟨⟨_, Initial.forest init⟩, Initial.listed init⟩, rfl, Initial.placedBook init⟩
  · rintro ls t l u - ⟨⟨⟨ring, hforest⟩, hlisted⟩, hkernel, hplaced⟩ ⟨hstep, hallows⟩
    have hbook := exec_book_step hforest hstep.2
    have hk : u.kernel = t.kernel.step l := hbook.kernel
    refine ⟨⟨hforest.step hbook, hlisted.step hbook⟩, ?_, ?_⟩
    · rw [watched_append, hkernel, hk]
    · rw [watched_append, hkernel]
      exact hplaced.step hlisted hforest hbook (hplaced.allows hallows)

theorem placed_of_run_fork : ∃ s ls,
    Run (fun s l s' => State.Step s l s' ∧ s.Allows l) (boot [] [fixedOnly]) ls s ∧
    ls = [.register 0 1 inheriting 0 ⟨true, true, true⟩, .switch 0 1, .fork 1 3 3 1 true true,
      .exit 1] ∧
    (watched (boot [] [fixedOnly]).kernel ls).1 = s.kernel ∧
    Placed (watched (boot [] [fixedOnly]).kernel ls).2 s := by
  have hregister : (boot [] [fixedOnly]).Allows (.register 0 1 inheriting 0 ⟨true, true, true⟩) := by
    intro t task htask
    cases htask
  have run : Run (fun s l s' => State.Step s l s' ∧ s.Allows l) (boot [] [fixedOnly])
      [.register 0 1 inheriting 0 ⟨true, true, true⟩, .switch 0 1, .fork 1 3 3 1 true true, .exit 1]
      _ :=
    .cons ⟨⟨trivial, rfl⟩, hregister⟩ <| .cons ⟨⟨trivial, rfl⟩, trivial⟩ <|
      .cons ⟨⟨trivial, rfl⟩, rfl⟩ <| .cons ⟨⟨trivial, rfl⟩, trivial⟩ .nil
  exact ⟨_, _, run, rfl, placed_of_run run (initial_boot ..)⟩

/-- The pid that an event registers. -/
def Label.registered? : Label → Option Pid
  | .register _ pid _ _ _ => some pid
  | _ => none

/-- A kernel that keeps its promises, and two listed tasks of one process. -/
def TwoOfOne (ls : List Label) : Prop :=
  (ls.filterMap Label.registered?).Nodup ∧ (∀ pid, .unregister pid ∉ ls) ∧ ∃ s,
    Run (fun s l s' => State.Step s l s' ∧ s.kernel.Consistent l) (boot [] [fixedOnly]) ls s ∧
    ∃ t u task task', t ≠ u ∧ t ∈ s.cpuList 0 ∧ u ∈ s.cpuList 0 ∧ s.tasks t = some task ∧
      s.tasks u = some task' ∧ task.p ≠ none ∧ task.p = task'.p

/-- **Two tasks of one process**: two pids that no process has, which both end the search at
`init_task`; and a process that is registered after it was inherited. -/
theorem not_placed :
    TwoOfOne [.register 0 50 inheriting 0 ⟨true, true, true⟩,
      .register 0 60 inheriting 1 ⟨true, true, true⟩] ∧
    TwoOfOne [.register 0 1 inheriting 0 ⟨true, true, true⟩, .switch 0 1, .fork 1 3 3 0 true true,
      .register 0 3 inheriting 1 ⟨true, true, true⟩] := by
  constructor
  · refine ⟨by decide, by simp, _, .cons ⟨⟨trivial, rfl⟩, trivial⟩ <|
      .cons ⟨⟨trivial, rfl⟩, trivial⟩ .nil, 0, 1, _, _, by decide, by decide, by decide, rfl, rfl,
      by decide, rfl⟩
  · refine ⟨by decide, by simp, _, .cons ⟨⟨trivial, rfl⟩, trivial⟩ <|
      .cons ⟨⟨trivial, rfl⟩, rfl⟩ <| .cons ⟨⟨trivial, rfl⟩, ⟨rfl, rfl⟩⟩ <|
      .cons ⟨⟨trivial, rfl⟩, trivial⟩ .nil, 1, 2, _, _, by decide, by decide, by decide, rfl, rfl,
      by decide, rfl⟩

end SchedMon
