import SchedMon.Driver.Arming
import SchedMon.Driver.Placement

/-!
# Sessions

What happens on a buffer, said without tasks. A registration opens a session and makes its process a
member; a member that is monitored makes its children members, under their own pids, if the
session is inherited; a process that exits is no member any more. `Sessions` computes this from the
events alone, for all buffers at once, together with the pids of the monitored members that have
exited.

The tasks of the driver are a faithful picture of it: `Enrolled`.

## Main definitions

* `Member`, `Sessions`, `sessions` — who is a member of which session, by the events
* `Enrolled` — every task is for a member
* `Sessions.Proper` — what holds of sessions by themselves

## Main results

* `Enrolled.step`, `Sessions.Proper.step` — **every event keeps tasks and members together**
* `active_eq_zero_iff` — a buffer has no writer when its session has no member
-/

namespace SchedMon

open State SchedMon.Shelf

/-! ### The purpose -/

/-- A process that is watched, with the pid and the buffer its records go under. -/
structure Member where
  watch : Watch
  pid : Pid
  rb : RbId
  deriving DecidableEq

/-- The sessions on all buffers: their members, what they were opened with, and the pids of the
monitored members that have exited. -/
structure Sessions where
  members : Proc → Option Member
  opened : RbId → Option SmonEnvir
  exits : RbId → List Pid

namespace Sessions

/-- Before anything has happened. -/
def empty : Sessions := ⟨fun _ => none, fun _ => none, fun _ => []⟩

/-- The exits after that of a member. -/
def exit (x : Sessions) (m : Member) : RbId → List Pid :=
  if m.watch.phase = .monitored then Function.update x.exits m.rb (x.exits m.rb ++ [m.pid])
  else x.exits

/-- The sessions after an event. -/
def step (x : Sessions) (k : Kernel) : Label → Sessions
  | .register _ pid envir b alloc =>
    if alloc.task && alloc.envir then
      { x with
        members := Function.update x.members (k.forEachProcess pid)
          (some ⟨⟨if envir.options.onExec then .waiting else .monitored, envir.options.inherit⟩, pid, b⟩)
        opened := Function.update x.opened b (some envir) }
    else x
  | .fork parent child pid _ _ alloc =>
    match x.members parent with
    | some m =>
      if m.watch = ⟨.monitored, true⟩ ∧ alloc = true then
        { x with members := Function.update x.members child (some { m with pid := pid }) }
      else x
    | none => x
  | .exec p =>
    match x.members p with
    | some m =>
      { x with
        members := Function.update x.members p (some { m with watch := ⟨.monitored, m.watch.inherit⟩ }) }
    | none => x
  | .exit p =>
    match x.members p with
    | some m => { x with members := Function.update x.members p none, exits := x.exit m }
    | none => x
  | _ => x

/-- Who is watched, on whatever buffer. -/
def watched (x : Sessions) : Watched := fun p => (x.members p).map Member.watch

/-- The session on buffer `b` has no members. -/
def Vacant (x : Sessions) (b : RbId) : Prop := ∀ p m, x.members p = some m → m.rb ≠ b

end Sessions

/-- The kernel and the sessions after some events. -/
def sessions (k : Kernel) (ls : List Label) : Kernel × Sessions :=
  ls.foldl (fun x l => (x.1.step l, x.2.step x.1 l)) (k, .empty)

theorem sessions_append (k : Kernel) (ls : List Label) (l : Label) : sessions k (ls ++ [l]) =
    ((sessions k ls).1.step l, (sessions k ls).2.step (sessions k ls).1 l) := by
  simp [sessions]

/-- The buffer on which an event opens a session. -/
def Label.opens? : Label → Option RbId
  | .register _ _ _ b alloc => if alloc.task && alloc.envir then some b else none
  | _ => none

namespace Sessions

variable {x : Sessions} {k : Kernel} {l : Label} {b : RbId} {p q : Proc} {m n : Member}

theorem watched_eq_some {y : Watch} : x.watched p = some y ↔
    ∃ m, x.members p = some m ∧ m.watch = y := Option.map_eq_some_iff

/-- Sessions watch the processes that are watched. -/
theorem watched_step (x : Sessions) (k : Kernel) (l : Label) :
    (x.step k l).watched = x.watched.step k l := by
  funext p
  cases l with
  | register me pid envir b alloc =>
    simp only [step, Watched.step]
    split
    · by_cases hp : p = k.forEachProcess pid
      · simp [watched, hp]
      · simp [watched, hp]
    · rfl
  | fork parent child pid cpu leader alloc =>
    simp only [step, Watched.step]
    cases hm : x.members parent with
    | none => simp [watched, hm]
    | some m =>
      have hparent : x.watched parent = some m.watch := by simp only [watched, hm, Option.map_some]
      simp only [hparent, Option.some_inj]
      split
      · rename_i hwatch
        by_cases hp : p = child
        · simp [watched, hp, hwatch.1]
        · simp [watched, hp]
      · rfl
  | exec q =>
    simp only [step, Watched.step]
    by_cases hp : p = q
    · subst hp
      cases hm : x.members p <;> simp [watched, hm]
    · cases hm : x.members q <;> simp [watched, hp]
  | exit q =>
    simp only [step, Watched.step]
    by_cases hp : p = q
    · subst hp
      cases hm : x.members p <;> simp [watched, hm]
    · cases hm : x.members q <;> simp [watched, hp]
  | _ => rfl

/-- A member stays what it is, until it exits or its process becomes another member. -/
theorem members_step (hm : x.members p = some m) (hcomes : l.comes k ≠ some p) (hexit : l ≠ .exit p) :
    ∃ n, (x.step k l).members p = some n ∧ n.pid = m.pid ∧ n.rb = m.rb ∧
      (n.watch.phase = .waiting → m.watch.phase = .waiting) := by
  have hsame : (x.step k l).members p = x.members p → ∃ n, (x.step k l).members p = some n ∧
      n.pid = m.pid ∧ n.rb = m.rb ∧ (n.watch.phase = .waiting → m.watch.phase = .waiting) :=
    fun heq => ⟨m, heq.trans hm, rfl, rfl, id⟩
  cases l with
  | register me pid envir b alloc =>
    have hne : p ≠ k.forEachProcess pid := fun heq => hcomes (congrArg some heq.symm)
    refine hsame ?_
    simp only [step]
    split
    · exact Function.update_of_ne hne ..
    · rfl
  | fork parent child pid cpu leader alloc =>
    have hne : p ≠ child := fun heq => hcomes (congrArg some heq.symm)
    refine hsame ?_
    simp only [step]
    split
    · split
      · exact Function.update_of_ne hne ..
      · rfl
    · rfl
  | exec q =>
    by_cases hq : p = q
    · subst hq
      refine ⟨{ m with watch := ⟨.monitored, m.watch.inherit⟩ }, ?_, rfl, rfl, fun h => ?_⟩
      · simp only [step, hm, Function.update_self]
      · cases h
    · refine hsame ?_
      simp only [step]
      split
      · exact Function.update_of_ne hq ..
      · rfl
  | exit q =>
    have hq : p ≠ q := fun heq => hexit (congrArg Label.exit heq.symm)
    refine hsame ?_
    simp only [step]
    split
    · exact Function.update_of_ne hq ..
    · rfl
  | _ => exact hsame rfl

/-- Only a registration opens a session. -/
theorem opened_step (x : Sessions) (k : Kernel) (hl : l.opens? ≠ some b) :
    (x.step k l).opened b = x.opened b := by
  cases l with
  | register me pid envir c alloc =>
    simp only [step]
    split
    · rename_i halloc
      have hne : b ≠ c := by
        rintro rfl
        exact hl (if_pos halloc)
      exact Function.update_of_ne hne ..
    · rfl
  | fork parent child pid cpu leader alloc =>
    simp only [step]
    split
    · split <;> rfl
    · rfl
  | exec q =>
    simp only [step]
    split <;> rfl
  | exit q =>
    simp only [step]
    split <;> rfl
  | _ => rfl

/-! ### Sessions by themselves -/

/-- What holds of the session on buffer `b` if it is opened once: it has members and exits only
when it is open, and a member that waits is alone. -/
structure Proper (x : Sessions) (b : RbId) : Prop where
  unopened : x.opened b = none → x.Vacant b ∧ x.exits b = []
  alone : ∀ p q m n, x.members p = some m → x.members q = some n → m.rb = b → n.rb = b →
    m.watch.phase = .waiting → p = q
  waiting : ∀ p m, x.members p = some m → m.rb = b → m.watch.phase = .waiting → x.exits b = []

theorem proper_empty (b : RbId) : empty.Proper b := by
  constructor
  case unopened =>
    refine fun _ => ⟨fun p m hm => ?_, rfl⟩
    cases hm
  case alone =>
    intro p q m n hm
    cases hm
  case waiting =>
    intro p m hm
    cases hm

/-- The members of a session after one process has become a member, or something else. -/
theorem members_update {m' : Option Member} {p₀ : Proc}
    (hm : Function.update x.members p₀ m' p = some m) :
    p = p₀ ∧ m' = some m ∨ p ≠ p₀ ∧ x.members p = some m := by
  by_cases hp : p = p₀
  · subst hp
    rw [Function.update_self] at hm
    exact .inl ⟨rfl, hm⟩
  · rw [Function.update_of_ne hp] at hm
    exact .inr ⟨hp, hm⟩

theorem exit_of_ne (hb : m.rb ≠ b) : x.exit m b = x.exits b := by
  unfold exit
  split
  · exact Function.update_of_ne (fun heq => hb heq.symm) ..
  · rfl

/-- A process of a session, or a child of one, is monitored from now on. -/
theorem Proper.monitor {p₀ p₁ : Proc} {m₀ m' : Member} (h : x.Proper b) (hm₀ : x.members p₁ = some m₀)
    (hrb : m'.rb = m₀.rb) (hphase : m'.watch.phase = .monitored)
    (hsame : p₁ = p₀ ∨ m₀.watch.phase = .monitored) :
    Proper { x with members := Function.update x.members p₀ (some m') } b := by
  have hold : ∀ p m, Function.update x.members p₀ (some m') p = some m → m.watch.phase = .waiting →
      p ≠ p₀ ∧ x.members p = some m := by
    intro p m hm hwaiting
    rcases members_update hm with ⟨-, heq⟩ | hm
    · obtain rfl := Option.some_inj.mp heq
      exact absurd (hphase.symm.trans hwaiting) (by simp)
    · exact hm
  constructor
  case unopened =>
    intro hnone
    obtain ⟨hvacant, hexits⟩ := h.unopened hnone
    refine ⟨fun p m hm hmb => ?_, hexits⟩
    rcases members_update hm with ⟨-, heq⟩ | ⟨-, hm⟩
    · obtain rfl := Option.some_inj.mp heq
      exact hvacant p₁ m₀ hm₀ (hrb.symm.trans hmb)
    · exact hvacant p m hm hmb
  case alone =>
    intro p q m n hm hn hmb hnb hwaiting
    obtain ⟨hp, hm'⟩ := hold p m hm hwaiting
    rcases members_update hn with ⟨rfl, heq⟩ | ⟨-, hn⟩
    · obtain rfl := Option.some_inj.mp heq
      obtain rfl := h.alone p p₁ m m₀ hm' hm₀ hmb (hrb.symm.trans hnb) hwaiting
      obtain rfl := Option.some_inj.mp (hm'.symm.trans hm₀)
      rcases hsame with hsame | hmonitored
      · exact absurd hsame hp
      · exact absurd (hwaiting.symm.trans hmonitored) (by simp)
    · exact h.alone p q m n hm' hn hmb hnb hwaiting
  case waiting =>
    intro p m hm hmb hwaiting
    exact h.waiting p m (hold p m hm hwaiting).2 hmb hwaiting

/-- **Every event keeps a session proper**, if it is opened once. -/
theorem Proper.step (h : x.Proper b) (hl : l.opens? = some b → x.opened b = none) :
    (x.step k l).Proper b := by
  cases l with
  | register me pid envir c alloc =>
    simp only [Sessions.step]
    split
    case isFalse => exact h
    rename_i halloc
    by_cases hc : b = c
    · subst hc
      obtain ⟨hvacant, hexits⟩ := h.unopened (hl (if_pos halloc))
      constructor
      case unopened =>
        intro hnone
        simp at hnone
      case alone =>
        intro p q m n hm hn hmb hnb hphase
        rcases members_update hm with ⟨rfl, -⟩ | ⟨-, hm⟩
        · rcases members_update hn with ⟨rfl, -⟩ | ⟨-, hn⟩
          · rfl
          · exact absurd hnb (hvacant q n hn)
        · exact absurd hmb (hvacant p m hm)
      case waiting => exact fun _ _ _ _ _ => hexits
    · have hmember : ∀ p m, Function.update x.members (k.forEachProcess pid) (some
          ⟨⟨if envir.options.onExec then .waiting else .monitored, envir.options.inherit⟩, pid, c⟩) p
          = some m → m.rb = b → x.members p = some m := by
        intro p m hm hmb
        rcases members_update hm with ⟨-, heq⟩ | ⟨-, hm⟩
        · obtain rfl := Option.some_inj.mp heq
          exact absurd hmb.symm hc
        · exact hm
      constructor
      case unopened =>
        intro hnone
        simp only [Function.update_of_ne hc] at hnone
        obtain ⟨hvacant, hexits⟩ := h.unopened hnone
        exact ⟨fun p m hm hmb => hvacant p m (hmember p m hm hmb) hmb, hexits⟩
      case alone =>
        intro p q m n hm hn hmb hnb
        exact h.alone p q m n (hmember p m hm hmb) (hmember q n hn hnb) hmb hnb
      case waiting => exact fun p m hm hmb => h.waiting p m (hmember p m hm hmb) hmb
  | fork parent child pid cpu leader alloc =>
    simp only [Sessions.step]
    split
    case h_2 => exact h
    rename_i m₀ hm₀
    split
    case isFalse => exact h
    rename_i hwatch
    have hphase := congrArg Watch.phase hwatch.1
    exact h.monitor hm₀ rfl hphase (.inr hphase)
  | exec p₀ =>
    simp only [Sessions.step]
    split
    case h_2 => exact h
    rename_i m₀ hm₀
    exact h.monitor hm₀ rfl rfl (.inl rfl)
  | exit p₀ =>
    simp only [Sessions.step]
    split
    case h_2 => exact h
    rename_i m₀ hm₀
    have hmember : ∀ p m, Function.update x.members p₀ none p = some m →
        p ≠ p₀ ∧ x.members p = some m := by
      intro p m hm
      rcases members_update hm with ⟨-, heq⟩ | hm
      · cases heq
      · exact hm
    constructor
    case unopened =>
      intro hnone
      obtain ⟨hvacant, hexits⟩ := h.unopened hnone
      exact ⟨fun p m hm => hvacant p m (hmember p m hm).2,
        (exit_of_ne (hvacant p₀ m₀ hm₀)).trans hexits⟩
    case alone =>
      intro p q m n hm hn
      exact h.alone p q m n (hmember p m hm).2 (hmember q n hn).2
    case waiting =>
      intro p m hm hmb hphase
      obtain ⟨hp, hm⟩ := hmember p m hm
      have hother : m₀.rb ≠ b := fun heq => hp (h.alone p p₀ m m₀ hm hm₀ hmb heq hphase)
      exact (exit_of_ne hother).trans (h.waiting p m hm hmb hphase)
  | _ => exact h

end Sessions

/-! ### Tasks -/

/-- A task of process `p` is for a member, under its pid and on its buffer. A task that waits is one
that was registered. -/
def Sessions.Admits (x : Sessions) (p : Proc) (c : TaskCore × Option RbId) : Prop :=
  ∃ m, x.members p = some m ∧ c.1.pid = m.pid ∧ c.1.rb = some m.rb ∧
    (m.watch.phase = .waiting → c.2 = some m.rb)

/-- Every task that has a process is for a member. -/
def Enrolled (x : Sessions) (b : Book) : Prop :=
  ∀ t c p, b.entry t = some c → c.1.p = some p → x.Admits p c

/-- The tasks on buffer `rb` have the options its session was opened with. -/
def Chosen (x : Sessions) (rb : RbId) (b : Book) : Prop :=
  ∀ t c, b.entry t = some c → c.1.rb = some rb → ∃ o envir, x.opened rb = some o ∧
    b.envirs c.1.envir = some envir ∧ envir.options = (smonCreateEnvir o).options

section Tasks

variable {x : Sessions} {b b' : Book} {l : Label} {rb : RbId} {ring : TaskId → List TaskId}
  {t : TaskId} {c : TaskCore × Option RbId} {p : Proc}

/-- The process an event brings is not a member yet. -/
theorem not_comes (hplaced : PlacedBook x.watched b) (hallows : b.Allows x.watched l) {m : Member}
    (hm : x.members p = some m) : l.comes b.kernel ≠ some p := by
  have hw : x.watched p = some m.watch := Sessions.watched_eq_some.mpr ⟨m, hm, rfl⟩
  intro hcomes
  cases l with
  | fork parent child pid cpu leader alloc =>
    obtain rfl := Option.some_inj.mp hcomes
    have hnew : b.kernel.known child = false := hallows
    exact absurd (hnew.symm.trans (hplaced.known child _ hw)) (by simp)
  | register me pid envir rb alloc =>
    obtain rfl := Option.some_inj.mp hcomes
    have hnone : x.watched (b.kernel.forEachProcess pid) = none := hallows
    exact absurd (hnone.symm.trans hw) (by simp)
  | _ => cases hcomes

/-- The task that a hook finds on the list of a CPU, in a session that is inherited. -/
theorem member_of_at (hplaced : PlacedBook x.watched b) (hlisted : Listed b) {cpu : Cpu}
    {envir : SmonEnvir} (hat : b.At (.cpu cpu) p t) (hc : b.entry t = some c)
    (henvir : b.envirs c.1.envir = some envir) : ∃ m, x.members p = some m ∧
      m.watch = ⟨.monitored, envir.options.inherit⟩ := by
  obtain ⟨hmem, d, hd, hp⟩ := hat
  obtain rfl := Option.some_inj.mp (hd.symm.trans hc)
  obtain ⟨y, o, hy, hplace, ho, hopt⟩ := hplaced.entry t d p hc hp
  obtain rfl := Option.some_inj.mp (ho.symm.trans henvir)
  obtain ⟨m, hm, hwatch⟩ := Sessions.watched_eq_some.mp hy
  have hi := hlisted.separate.unique _ _ t hmem hplace
  obtain ⟨phase, inherit⟩ := y
  have hinherit : o.options.inherit = inherit := hopt
  cases phase with
  | waiting => cases hi
  | monitored => exact ⟨m, hm, by rw [hwatch, hinherit]⟩

/-- **Every event keeps tasks and members together.** -/
theorem Enrolled.step (h : Enrolled x b) (hplaced : PlacedBook x.watched b) (hlisted : Listed b)
    (hstep : BookStep b l b') (hallows : b.Allows x.watched l) : Enrolled (x.step b.kernel l) b' := by
  -- a task that stays, with the process it has
  have hkeep : ∀ u d (d' : TaskCore × Option RbId) q, b.entry u = some d → d.1.p = some q →
      l ≠ .exit q → d'.1.pid = d.1.pid → d'.1.rb = d.1.rb → d'.2 = d.2 →
      (x.step b.kernel l).Admits q d' := by
    intro u d d' q hd hq hexit hpid hrb hextra
    obtain ⟨m, hm, hmpid, hmrb, hwaiting⟩ := h u d q hd hq
    obtain ⟨n, hn, hnpid, hnrb, hphase⟩ :=
      Sessions.members_step (l := l) hm (not_comes hplaced hallows hm) hexit
    exact ⟨n, hn, by rw [hpid, hmpid, hnpid], by rw [hrb, hmrb, hnrb],
      fun hw => by rw [hextra, hwaiting (hphase hw), hnrb]⟩
  intro u d' q hd' hq
  have hsame : b'.entry = b.entry → l ≠ .exit q → (x.step b.kernel l).Admits q d' :=
    fun heq hexit => hkeep u d' d' q (heq ▸ hd') hq hexit rfl rfl rfl
  cases hstep with
  | idle l hl =>
    refine hsame rfl ?_
    rintro rfl
    simp at hl
  | fork parent child pid cpu leader k t c rb envir hk hat hc hrb henvir hinherit =>
    by_cases hut : u = t
    · subst hut
      simp only [Book.addChild, Function.update_self, Option.some_inj] at hd'
      subst hd'
      exact hkeep u c _ q hc hq (by simp) rfl rfl rfl
    simp only [Book.addChild, Function.update_of_ne hut] at hd'
    by_cases hu : u = b.fresh
    · subst hu
      rw [Function.update_self, Option.some_inj] at hd'
      subst hd'
      obtain rfl := Option.some_inj.mp hq
      obtain ⟨m, hm, hwatch⟩ := member_of_at hplaced hlisted hat hc henvir
      obtain ⟨-, e, he, hp⟩ := hat
      obtain rfl := Option.some_inj.mp (he.symm.trans hc)
      obtain ⟨m', hm', -, hmrb, -⟩ := h t e parent hc hp
      obtain rfl := Option.some_inj.mp (hm'.symm.trans hm)
      rw [hinherit] at hwatch
      refine ⟨{ m' with pid := pid }, ?_, ?_, hrb.symm.trans hmrb, ?_⟩
      · simp only [Sessions.step, hm, hwatch, and_self, if_true, Function.update_self]
      · simp only [hk, Kernel.step, Kernel.addProc, Function.update_self]
      · intro hphase
        exact absurd ((congrArg Watch.phase hwatch).symm.trans hphase) (by simp)
    · rw [Function.update_of_ne hu] at hd'
      exact hkeep u d' d' q hd' hq (by simp) rfl rfl rfl
  | exit p i t c rb hi hat hc hrb =>
    by_cases hut : u = t
    · subst hut
      simp only [Book.leave, Function.update_self, Option.some_inj] at hd'
      subst hd'
      cases hq
    · simp only [Book.leave, Function.update_of_ne hut] at hd'
      refine hkeep u d' d' q hd' hq ?_ rfl rfl rfl
      rintro hexit
      obtain rfl := Label.exit.inj hexit
      obtain ⟨-, e, he, hp⟩ := hat
      exact hut (hplaced.unique u t d' e p hd' he hq hp)
  | exitNone p habsent habsent' =>
    refine hsame rfl fun hexit => ?_
    obtain rfl := Label.exit.inj hexit
    obtain ⟨m, hm, -⟩ := h u d' p hd' hq
    have hw : x.watched p = some m.watch := Sessions.watched_eq_some.mpr ⟨m, hm, rfl⟩
    obtain ⟨⟨phase, inherit⟩, pid, rb⟩ := m
    cases phase with
    | waiting => exact hplaced.not_absent hw habsent'
    | monitored => exact hplaced.not_absent hw habsent
  | register me pid envir rb alloc halloc =>
    simp only [Book.addRoot] at hd'
    by_cases hu : u = b.fresh
    · subst hu
      rw [Function.update_self, Option.some_inj] at hd'
      subst hd'
      obtain rfl := Option.some_inj.mp hq
      refine ⟨⟨⟨if envir.options.onExec then .waiting else .monitored, envir.options.inherit⟩, pid, rb⟩,
        ?_, rfl, rfl, fun _ => rfl⟩
      simp only [Sessions.step, halloc, if_true]
      exact Function.update_self ..
    · rw [Function.update_of_ne hu] at hd'
      exact hkeep u d' d' q hd' hq (by simp) rfl rfl rfl
  | unregister pid r c xs b' hr hc hpid hring hd =>
    rw [hd.entry] at hd'
    split at hd'
    · cases hd'
    · exact hkeep u d' d' q hd' hq (by simp) rfl rfl rfl
  | _ => exact hsame rfl (by simp)

/-- **Every event keeps to the options of the session**, if that is opened once. -/
theorem Chosen.step (h : Chosen x rb b) (hforest : Forest b ring) (hforest' : ∃ ring, Forest b' ring)
    (hstep : BookStep b l b') (hl : l.opens? = some rb → x.opened rb = none) :
    Chosen (x.step b.kernel l) rb b' := by
  intro u d' hd' hrb'
  -- the environment of a task is there
  have hthere : ∃ envir', b'.envirs d'.1.envir = some envir' := by
    obtain ⟨ring', hforest'⟩ := hforest'
    obtain ⟨hr, -⟩ := hforest'.live u d' hd'
    obtain ⟨envir', he', -⟩ := hforest'.count _ hr
    exact ⟨envir', he'⟩
  have hold : ∀ t c, b.entry t = some c → c.1.rb = some rb → d'.1.envir = c.1.envir →
      ∃ o envir, (x.step b.kernel l).opened rb = some o ∧ b'.envirs d'.1.envir = some envir ∧
        envir.options = (smonCreateEnvir o).options := by
    intro t c hc hrb henvir
    obtain ⟨o, envir, ho, he, hoptions⟩ := h t c hc hrb
    obtain ⟨envir', he'⟩ := hthere
    have hopened : (x.step b.kernel l).opened rb = x.opened rb := by
      refine Sessions.opened_step x b.kernel fun hopens => ?_
      exact absurd ((hl hopens).symm.trans ho) (by simp)
    have hlt : c.1.envir < b.fresh := hforest.lt_fresh (hforest.live t c hc).1 List.mem_cons_self
    have hconfig := congrArg SmonEnvir.options (hstep.config he hlt (henvir ▸ he'))
    change envir'.options = envir.options at hconfig
    exact ⟨o, envir', hopened.trans ho, he', hconfig.trans hoptions⟩
  cases hd : b.entry u with
  | some d =>
    obtain ⟨henvir, -, ⟨-, hrb⟩ | ⟨-, hnone, -⟩⟩ := hstep.entry_keeps hd hd' (hforest.bound u d hd)
    · exact hold u d hd (hrb.symm.trans hrb') henvir
    · exact absurd (hnone.symm.trans hrb') (by simp)
  | none =>
    have hu : u = b.fresh := hstep.entry_new hd (by simp [hd'])
    subst hu
    have hsame : b'.entry b.fresh ≠ b.entry b.fresh := fun heq =>
      absurd (hd'.symm.trans (heq.trans hd)) (by simp)
    cases hstep with
    | fork parent child pid cpu leader k t c rb' envir hk hat hc hrb henvir hinherit =>
      have hne : b.fresh ≠ t := Nat.ne_of_gt (hforest.bound t c hc)
      simp only [Book.addChild, Function.update_of_ne hne, Function.update_self, Option.some_inj] at hd'
      subst hd'
      exact hold t c hc (hrb.trans hrb') rfl
    | register me pid envir rb' alloc halloc =>
      simp only [Book.addRoot, Function.update_self, Option.some_inj] at hd'
      subst hd'
      obtain rfl := Option.some_inj.mp hrb'
      refine ⟨envir, smonCreateEnvir envir, ?_, Function.update_self .., rfl⟩
      simp only [Sessions.step, halloc, if_true]
      exact Function.update_self ..
    | exit p i t c rb' hi hat hc hrb =>
      have hne : b.fresh ≠ t := Nat.ne_of_gt (hforest.bound t c hc)
      exact absurd (Function.update_of_ne hne ..) hsame
    | unregister pid r c xs b' hr hc hpid hring hdropped =>
      rw [hdropped.entry, hd, ite_self] at hd'
      cases hd'
    | _ => exact absurd rfl hsame

/-- **A buffer has no writer when its session has no member.** -/
theorem active_eq_zero_iff (hcounted : b.Counted) (hforest : Forest b ring)
    (hplaced : PlacedBook x.watched b) (henrolled : Enrolled x b) : b.active rb = 0 ↔ x.Vacant rb := by
  have hzero : b.active rb = 0 ↔ ∀ u, u < b.fresh → b.holds rb u = false := by
    rw [hcounted rb, ← census_eq_zero]
    exact Int.natCast_eq_zero
  rw [hzero]
  constructor
  · intro hnone p m hm hrb
    have hw : x.watched p = some m.watch := Sessions.watched_eq_some.mpr ⟨m, hm, rfl⟩
    obtain ⟨t, c, hc, hp⟩ := hplaced.complete p m.watch hw
    obtain ⟨m', hm', -, hcrb, -⟩ := henrolled t c p hc hp
    obtain rfl := Option.some_inj.mp (hm'.symm.trans hm)
    have hholds : b.holds rb t = (c.1.rb = some rb : Bool) := Book.holds_of_entry hc
    rw [hcrb, hrb, hnone t (hforest.bound t c hc)] at hholds
    simp at hholds
  · intro hvacant u hu
    cases hc : b.entry u with
    | none => exact Book.holds_of_none hc
    | some c =>
      rw [Book.holds_of_entry hc, decide_eq_false_iff_not]
      intro hrb
      have hp := (hforest.buffer u c hc).1.mp (by rw [hrb]; rfl)
      obtain ⟨p, hp⟩ := Option.isSome_iff_exists.mp hp
      obtain ⟨m, hm, -, hmrb, -⟩ := henrolled u c p hc hp
      exact hvacant p m hm (Option.some_inj.mp (hmrb.symm.trans hrb))

end Tasks

end SchedMon
