import SchedMon.Driver.Roster
import SchedMon.Driver.Stream

/-!
# The records of a session

From the opening of a session to its end, the buffer is handed a stream of one form: nothing as long
as the registered process waits for its `exec`; an INFO record, and then PMC, RAPL, CPU, SCHED and
FORK records, as long as there are monitored members; an EOF record behind that when the last
member has exited, and nothing any more. Every monitored member leaves a PMC record under its pid
when it exits, and in stat mode these are all the records there are.

The kernel calls its hooks in order, interrupts do not wait for a hook, and the session is opened
once. Other sessions may go on meanwhile.

## Main definitions

* `Sessions.Stream` — the form of a stream, in view of the session
* `SessionStep` — the steps of such a run

## Main results

* `Sessions.Stream.sample`, `Sessions.Stream.start`, `Sessions.Stream.exit` — streams grow
* `stream_of_run` — **every session has a stream of that form**
-/

namespace SchedMon

open State SchedMon.Shelf

/-! ### Streams -/

/-- The pid of a PMC record. -/
def Sample.pmcPid? : Sample → Option Pid
  | .pmc s => some s.pid
  | _ => none

namespace Sessions

/-- What stands between INFO and EOF on buffer `b`. -/
structure Body (x : Sessions) (b : RbId) (mids : List Sample) : Prop where
  middle : ∀ w ∈ mids, w.Middle
  /-- Every monitored member that has exited left a record. -/
  exits : (x.exits b).Sublist (mids.filterMap Sample.pmcPid?)
  /-- In stat mode there is no other record. -/
  stat : ∀ o, x.opened b = some o → o.options.stat = true →
    mids.map Sample.pmcPid? = (x.exits b).map some

/-- The form of the stream on buffer `b`. -/
structure Stream (x : Sessions) (b : RbId) (log : List Sample) : Prop where
  unopened : x.opened b = none → log = []
  waiting : ∀ p m, x.members p = some m → m.rb = b → m.watch.phase = .waiting → log = []
  monitored : ∀ p m, x.members p = some m → m.rb = b → m.watch.phase = .monitored →
    ∃ info mids, log = .info info :: mids ∧ x.Body b mids
  finished : x.opened b ≠ none → x.Vacant b → log = [.eof] ∧ x.exits b = [] ∨
    ∃ info mids, log = .info info :: (mids ++ [.eof]) ∧ x.Body b mids

/-- A monitored member whose session is not in stat mode. -/
def Fed (x : Sessions) (b : RbId) : Prop :=
  ∃ p m o, x.members p = some m ∧ m.rb = b ∧ m.watch.phase = .monitored ∧ x.opened b = some o ∧
    o.options.stat = false

variable {x x' : Sessions} {b : RbId} {log mids ws : List Sample} {k : Kernel} {p q : Proc}
  {m n : Member}

theorem Body.congr (h : x.Body b mids) (hopened : x'.opened b = x.opened b)
    (hexits : x'.exits b = x.exits b) : x'.Body b mids := by
  refine ⟨h.middle, hexits ▸ h.exits, fun o ho hstat => ?_⟩
  rw [hexits]
  exact h.stat o (hopened ▸ ho) hstat

/-- More records from the middle, unless the session is in stat mode. -/
theorem Body.append (h : x.Body b mids) (hws : ∀ w ∈ ws, w.Middle) (hfed : ws ≠ [] → x.Fed b) :
    x.Body b (mids ++ ws) := by
  refine ⟨?_, ?_, fun o ho hstat => ?_⟩
  · intro w hw
    exact (List.mem_append.mp hw).elim (h.middle w) (hws w)
  · rw [List.filterMap_append]
    exact h.exits.trans (List.sublist_append_left ..)
  · have hnil : ws = [] := by
      by_contra hne
      obtain ⟨-, -, o', -, -, -, ho', hno⟩ := hfed hne
      obtain rfl := Option.some_inj.mp (ho.symm.trans ho')
      exact absurd (hstat.symm.trans hno) (by simp)
    rw [hnil, List.append_nil]
    exact h.stat o ho hstat

/-- The last record of a member. -/
theorem Body.exit {r : SamplePmc} (h : x.Body b mids) (hopened : x'.opened b = x.opened b)
    (hexits : x'.exits b = x.exits b ++ [r.pid]) : x'.Body b (mids ++ [.pmc r]) := by
  refine ⟨?_, ?_, fun o ho hstat => ?_⟩
  · intro w hw
    rcases List.mem_append.mp hw with hw | hw
    · exact h.middle w hw
    · rw [List.mem_singleton.mp hw]
      exact ⟨by simp [Sample.type], by simp [Sample.type]⟩
  · rw [hexits, List.filterMap_append]
    exact h.exits.append (List.Sublist.refl _)
  · rw [hexits, List.map_append, List.map_append, h.stat o (hopened ▸ ho) hstat]
    rfl

/-- A stream whose session is as it was. -/
theorem Stream.congr (h : x.Stream b log) (hopened : x'.opened b = x.opened b)
    (hexits : x'.exits b = x.exits b)
    (hmembers : ∀ p m, m.rb = b → (x'.members p = some m ↔ x.members p = some m)) :
    x'.Stream b log := by
  constructor
  case unopened => exact fun hnone => h.unopened (hopened ▸ hnone)
  case waiting => exact fun p m hm hmb => h.waiting p m ((hmembers p m hmb).mp hm) hmb
  case monitored =>
    intro p m hm hmb hphase
    obtain ⟨info, mids, hlog, hbody⟩ := h.monitored p m ((hmembers p m hmb).mp hm) hmb hphase
    exact ⟨info, mids, hlog, hbody.congr hopened hexits⟩
  case finished =>
    intro hopen hvacant
    have hvacant' : x.Vacant b := fun p m hm hmb => hvacant p m ((hmembers p m hmb).mpr hm) hmb
    rcases h.finished (hopened ▸ hopen) hvacant' with ⟨hlog, hnil⟩ | ⟨info, mids, hlog, hbody⟩
    · exact .inl ⟨hlog, hexits.trans hnil⟩
    · exact .inr ⟨info, mids, hlog, hbody.congr hopened hexits⟩

/-- **A stream goes on** while the session gains members at most. -/
theorem Stream.sample (h : x.Stream b log) (hproper : x.Proper b) (hws : ∀ w ∈ ws, w.Middle)
    (hfed : ws ≠ [] → x.Fed b) : x.Stream b (log ++ ws) := by
  have hnil : (∀ p m, x.members p = some m → m.rb = b → m.watch.phase ≠ .monitored) → ws = [] := by
    intro hno
    by_contra hne
    obtain ⟨p, m, -, hm, hmb, hphase, -⟩ := hfed hne
    exact hno p m hm hmb hphase
  constructor
  case unopened =>
    intro hnone
    rw [h.unopened hnone, hnil fun p m hm hmb _ => (hproper.unopened hnone).1 p m hm hmb]
    rfl
  case waiting =>
    intro p m hm hmb hphase
    rw [h.waiting p m hm hmb hphase, hnil ?_]
    · rfl
    · intro q n hn hnb hmonitored
      obtain rfl := hproper.alone p q m n hm hn hmb hnb hphase
      obtain rfl := Option.some_inj.mp (hm.symm.trans hn)
      exact absurd (hphase.symm.trans hmonitored) (by simp)
  case monitored =>
    intro p m hm hmb hphase
    obtain ⟨info, mids, rfl, hbody⟩ := h.monitored p m hm hmb hphase
    exact ⟨info, mids ++ ws, rfl, hbody.append hws hfed⟩
  case finished =>
    intro hopen hvacant
    rw [hnil fun p m hm hmb _ => hvacant p m hm hmb, List.append_nil]
    exact h.finished hopen hvacant

/-- A new member under a monitored one changes nothing about the stream. -/
theorem Stream.join (h : x.Stream b log) (hm : x.members p = some m) (hphase : m.watch.phase = .monitored)
    (hq : x.members q = none) (pid : Pid) :
    Stream { x with members := Function.update x.members q (some { m with pid := pid }) } b log := by
  constructor
  case unopened => exact h.unopened
  case waiting =>
    intro p' n hn hnb hwaiting
    rcases members_update hn with ⟨-, heq⟩ | ⟨-, hn⟩
    · obtain rfl := Option.some_inj.mp heq
      exact absurd (hphase.symm.trans hwaiting) (by simp)
    · exact h.waiting p' n hn hnb hwaiting
  case monitored =>
    intro p' n hn hnb hmonitored
    rcases members_update hn with ⟨-, heq⟩ | ⟨-, hn⟩
    · obtain rfl := Option.some_inj.mp heq
      obtain ⟨info, mids, hlog, hbody⟩ := h.monitored p m hm hnb hphase
      exact ⟨info, mids, hlog, hbody.congr rfl rfl⟩
    · obtain ⟨info, mids, hlog, hbody⟩ := h.monitored p' n hn hnb hmonitored
      exact ⟨info, mids, hlog, hbody.congr rfl rfl⟩
  case finished =>
    intro hopen hvacant
    have hvacant' : x.Vacant b := by
      intro p' n hn
      refine hvacant p' n ((Function.update_of_ne ?_ ..).trans hn)
      rintro rfl
      exact absurd (hq.symm.trans hn) (by simp)
    rcases h.finished hopen hvacant' with hlog | ⟨info, mids, hlog, hbody⟩
    · exact .inl hlog
    · exact .inr ⟨info, mids, hlog, hbody.congr rfl rfl⟩

/-- **A stream starts** with the first monitored member. -/
theorem Stream.start {o : SmonEnvir} (info : SampleInfo) (hopen : x'.opened b = some o)
    (hexits : x'.exits b = []) (hm : x'.members p = some m) (hmb : m.rb = b)
    (hphase : m.watch.phase = .monitored)
    (halone : ∀ q n, x'.members q = some n → n.rb = b → q = p) : x'.Stream b [.info info] := by
  constructor
  case unopened => exact fun hnone => absurd (hopen.symm.trans hnone) (by simp)
  case waiting =>
    intro q n hn hnb hwaiting
    obtain rfl := halone q n hn hnb
    obtain rfl := Option.some_inj.mp (hn.symm.trans hm)
    exact absurd (hphase.symm.trans hwaiting) (by simp)
  case monitored =>
    refine fun _ _ _ _ _ => ⟨info, [], rfl, fun w hw => ?_, ?_, fun _ _ _ => ?_⟩
    · cases hw
    · rw [hexits]
      exact List.Sublist.refl _
    · rw [hexits]
      rfl
  case finished => exact fun _ hvacant => absurd hmb (hvacant p m hm)

/-- A session that waits has an empty stream. -/
theorem Stream.wait (hm : x'.members p = some m) (hmb : m.rb = b) (hphase : m.watch.phase = .waiting)
    (halone : ∀ q n, x'.members q = some n → n.rb = b → q = p) : x'.Stream b [] := by
  constructor
  case unopened => exact fun _ => rfl
  case waiting => exact fun _ _ _ _ _ => rfl
  case monitored =>
    intro q n hn hnb hmonitored
    obtain rfl := halone q n hn hnb
    obtain rfl := Option.some_inj.mp (hn.symm.trans hm)
    exact absurd (hphase.symm.trans hmonitored) (by simp)
  case finished => exact fun _ hvacant => absurd hmb (hvacant p m hm)

/-- **A stream takes the last record of a member** that is monitored, and ends with the last one. -/
theorem Stream.exit {r : SamplePmc} {last : List Sample} (h : x.Stream b log) (hproper : x.Proper b)
    (hm : x.members p = some m) (hmb : m.rb = b) (hphase : m.watch.phase = .monitored)
    (hopened : x'.opened b = x.opened b) (hexits : x'.exits b = x.exits b ++ [r.pid])
    (hmembers : x'.members = Function.update x.members p none)
    (hlast : x'.Vacant b ∧ last = [.eof] ∨ ¬ x'.Vacant b ∧ last = []) :
    x'.Stream b (log ++ ([.pmc r] ++ last)) := by
  obtain ⟨info, mids, rfl, hbody⟩ := h.monitored p m hm hmb hphase
  have hbody' := hbody.exit hopened hexits
  constructor
  case unopened =>
    intro hnone
    exact absurd hmb ((hproper.unopened (hopened ▸ hnone)).1 p m hm)
  case waiting =>
    intro q n hn hnb hwaiting
    rw [hmembers] at hn
    rcases members_update hn with ⟨-, heq⟩ | ⟨hq, hn⟩
    · cases heq
    · exact absurd (hproper.alone q p n m hn hm hnb hmb hwaiting) hq
  case monitored =>
    intro q n hn hnb _
    rcases hlast with ⟨hvacant, -⟩ | ⟨-, rfl⟩
    · exact absurd hnb (hvacant q n hn)
    · exact ⟨info, mids ++ [.pmc r], by simp, hbody'⟩
  case finished =>
    intro _ hvacant
    rcases hlast with ⟨-, rfl⟩ | ⟨hno, -⟩
    · exact .inr ⟨info, mids ++ [.pmc r], by simp, hbody'⟩
    · exact absurd hvacant hno

/-- What happens in other sessions. -/
theorem Stream.aside {m' : Option Member} (h : x.Stream b log) (hopened : x'.opened b = x.opened b)
    (hexits : x'.exits b = x.exits b) (hmembers : x'.members = Function.update x.members p m')
    (hold : ∀ m, x.members p = some m → m.rb ≠ b) (hnew : ∀ m, m' = some m → m.rb ≠ b) :
    x'.Stream b log := by
  refine h.congr hopened hexits fun q n hnb => ?_
  rw [hmembers]
  by_cases hq : q = p
  · subst hq
    rw [Function.update_self]
    exact ⟨fun heq => absurd hnb (hnew n heq), fun hn => absurd hnb (hold n hn)⟩
  · rw [Function.update_of_ne hq]

/-- A session that ends before its `exec`. -/
theorem Stream.leave (hexits : x'.exits b = []) (hopen : x'.opened b ≠ none) (hvacant : x'.Vacant b) :
    x'.Stream b [.eof] := by
  constructor
  case unopened => exact fun hnone => absurd hnone hopen
  case waiting => exact fun q n hn hnb => absurd hnb (hvacant q n hn)
  case monitored => exact fun q n hn hnb => absurd hnb (hvacant q n hn)
  case finished => exact fun _ _ => .inl ⟨rfl, hexits⟩

end Sessions

/-! ### Runs -/

/-- A step of an orderly run in which no process exits while its RAPL timer is yet to be armed. -/
structure SessionStep (s : State) (l : Label) (s' : State) : Prop where
  orderlyStep : OrderlyStep s l s'
  settled : s.Settled l

section Steps

variable {s s' s₀ : State} {x : Sessions} {b : RbId} {l : Label} {ls : List Label} {p : Proc}
  {ring : TaskId → List TaskId}

theorem SessionStep.step (h : SessionStep s l s') : s.Step l s' := h.orderlyStep.1

theorem SessionStep.orderly (h : SessionStep s l s') : s.kernel.Orderly l := h.orderlyStep.2.1

theorem SessionStep.allows (h : SessionStep s l s') : s.Allows l := h.orderlyStep.2.2.2

theorem SessionStep.settledStep (h : SessionStep s l s') (hforest : Forest s.book ring) :
    SettledStep s l s' := by
  refine ⟨h.step, h.settled, ?_⟩
  rintro pid rfl t task htask hgone
  exact exited_of_unregister hforest h.allows h.step.2 htask hgone

/-- The invariants of sampling hold in such a run. -/
theorem composed_of_run (run : Run SessionStep s₀ ls s) (init : s₀.Initial) : s.Composed := by
  have hinv := run.invariant (motive := fun s => s.World ∧ s.book.Modest ∧
    (∀ t, s.InStat t → s.Still t) ∧ s.RaplBound) ?_ ?_
  · obtain ⟨hworld, hmodest, hstill, hbound⟩ := hinv
    refine ⟨hworld.forest, hworld.listed, hmodest, hstill, hbound, fun t => ?_⟩
    exact steered_of_run (attended_of_orderly (run.mono fun _ _ _ => SessionStep.orderlyStep) init t)
      init
  · refine ⟨init.world, fun e envir he => ?_, fun t hstat => ?_, Initial.raplBound init⟩
    · exact absurd ((init.envirs e).symm.trans he) (by simp)
    · obtain ⟨task, -, htask, -⟩ := hstat
      exact absurd ((init.tasks t).symm.trans htask) (by simp)
  · rintro s l s' ⟨hworld, hmodest, hstill, hbound⟩ h
    obtain ⟨ring, hforest⟩ := hworld.forest
    refine ⟨hworld.step h.orderly h.step, hmodest.step (exec_book_step hforest h.step.2), fun t => ?_,
      RaplBound.step hbound hforest hworld.listed (h.settledStep hforest)⟩
    exact still_step (hstill t) hforest hworld.unborn h.step

/-- A task that feeds a buffer is for a member. -/
theorem fed_of_feeds (hplaced : PlacedBook x.watched s.book) (henrolled : Enrolled x s.book)
    (hchosen : Chosen x b s.book) (h : s.Feeds b) : x.Fed b := by
  obtain ⟨t, task, p, envir, htask, hp, hrb, hwait, henvir, hstat⟩ := h
  have hentry := entry_of_tasks htask
  obtain ⟨m, hm, -, hmrb, -⟩ := henrolled t task.core p hentry hp
  obtain ⟨o, envir', ho, he, hoptions⟩ := hchosen t task.core hentry hrb
  obtain rfl : envir' = envir := Option.some_inj.mp (he.symm.trans henvir)
  have hmb : m.rb = b := Option.some_inj.mp (hmrb.symm.trans hrb)
  refine ⟨p, m, o, hm, hmb, ?_, ho, ?_⟩
  · obtain ⟨y, -, hy, hmem, -⟩ := hplaced.entry t task.core p hentry hp
    have hw : x.watched p = some m.watch := Sessions.watched_eq_some.mpr ⟨m, hm, rfl⟩
    obtain rfl := Option.some_inj.mp (hy.symm.trans hw)
    cases hphase : m.watch.phase with
    | monitored => rfl
    | waiting =>
      simp only [Watch.place, hphase] at hmem
      exact absurd hmem hwait
  · rw [hoptions] at hstat
    unfold smonCreateEnvir at hstat
    dsimp only at hstat
    split at hstat
    · rename_i hmode
      exact absurd (hmode.symm.trans hstat) (by simp)
    · exact hstat

/-- Sessions, tasks and the stream of buffer `b` belong together. -/
structure Attends (b : RbId) (x : Sessions) (s : State) : Prop where
  placed : PlacedBook x.watched s.book
  counted : s.book.Counted
  enrolled : Enrolled x s.book
  chosen : Chosen x b s.book
  proper : x.Proper b
  stream : x.Stream b (s.rbs b).log

namespace Attends

theorem sampled (h : Attends b x s) (hc : s.Composed) (hl : l.Samples) (hstep : SessionStep s l s') :
    (x.step s.kernel l).Stream b (s'.rbs b).log := by
  obtain ⟨ws, hlog, hws, hfeeds⟩ := exec_sampled hc hl hstep.step b
  have hstream := h.stream.sample h.proper hws fun hne =>
    fed_of_feeds h.placed h.enrolled h.chosen (hfeeds hne)
  rw [← hlog] at hstream
  cases l with
  | fork parent child pid cpu leader alloc =>
    simp only [Sessions.step]
    split
    case h_2 => exact hstream
    rename_i m hm
    split
    case isFalse => exact hstream
    rename_i hwatch
    refine hstream.join hm (congrArg Watch.phase hwatch.1) ?_ pid
    cases hchild : x.members child with
    | none => rfl
    | some n =>
      have hw : x.watched child = some n.watch := Sessions.watched_eq_some.mpr ⟨n, hchild, rfl⟩
      have hknown := h.placed.known child _ hw
      have hnew : s.kernel.known child = false := hstep.allows
      exact absurd (hnew.symm.trans hknown) (by simp)
  | exec p => exact hl.elim
  | exit p => exact hl.elim
  | register me pid envir c alloc => exact hl.elim
  | unregister pid => exact hl.elim
  | _ => exact hstream

/-- The member that a task on a list is for. -/
theorem member_of_mem (h : Attends b x s) (hc : s.Composed) {t : TaskId} {task : SmonTask} {i : Place}
    (hmem : t ∈ s.lists i) (htask : s.tasks t = some task) (hp : task.p = some p) :
    ∃ m, x.members p = some m ∧ task.pid = m.pid ∧ task.rb = some m.rb ∧
      (m.watch.phase = .waiting → task.extra.map SmonTaskExtra.rb = some m.rb) ∧
      i = m.watch.place (s.kernel.cpu p) := by
  have hentry := entry_of_tasks htask
  obtain ⟨m, hm, hpid, hrb, hextra⟩ := h.enrolled t task.core p hentry hp
  obtain ⟨y, -, hy, hmem', -⟩ := h.placed.entry t task.core p hentry hp
  have hw : x.watched p = some m.watch := Sessions.watched_eq_some.mpr ⟨m, hm, rfl⟩
  obtain rfl := Option.some_inj.mp (hy.symm.trans hw)
  exact ⟨m, hm, hpid, hrb, hextra, hc.listed.separate.unique _ _ t hmem hmem'⟩

/-- No member is found where none is. -/
theorem not_member (h : Attends b x s) {m : Member} {i : Place} (hm : x.members p = some m)
    (hplace : m.watch.place (s.kernel.cpu p) = i) (hnone : s.findProc p (s.lists i) = .ok none) :
    False := by
  subst hplace
  exact h.placed.not_absent (Sessions.watched_eq_some.mpr ⟨m, hm, rfl⟩) (absent_of_findProc hnone)

theorem exec (h : Attends b x s) (hc : s.Composed) (hstep : s.exec (.exec p) = .ok s') :
    (x.step s.kernel (.exec p)).Stream b (s'.rbs b).log := by
  rcases log_exec hstep with ⟨hnone, rfl⟩ | ⟨t, task, info, hfound, htask, hlog⟩
  · -- a member that does not wait stays what it is
    cases hm : x.members p with
    | none =>
      simp only [Sessions.step, hm]
      exact h.stream
    | some m =>
      have hphase : m.watch.phase = .monitored := by
        cases hphase : m.watch.phase with
        | monitored => rfl
        | waiting => exact (h.not_member (i := .waiting) hm (by simp [Watch.place, hphase]) hnone).elim
      have hself : Function.update x.members p
          (some { m with watch := ⟨.monitored, m.watch.inherit⟩ }) = x.members := by
        rw [Function.update_eq_self_iff, hm, ← hphase]
      simp only [Sessions.step, hm, hself]
      exact h.stream
  obtain ⟨hmem, y, hy, hp⟩ := findProc_some hfound
  obtain rfl := Option.some_inj.mp (hy.symm.trans htask)
  obtain ⟨m, hm, -, hrb, hextra, hplace⟩ := h.member_of_mem hc (i := .waiting) hmem htask hp
  have hphase : m.watch.phase = .waiting := by
    cases hphase : m.watch.phase with
    | waiting => rfl
    | monitored => simp [Watch.place, hphase] at hplace
  rw [hlog b, hextra hphase]
  simp only [Sessions.step, hm]
  by_cases hb : m.rb = b
  · rw [h.stream.waiting p m hm hb hphase, if_pos (congrArg some hb), List.nil_append]
    obtain ⟨o, ho⟩ : ∃ o, x.opened b = some o := by
      refine Option.ne_none_iff_exists'.mp fun hnone => ?_
      exact (h.proper.unopened hnone).1 p m hm hb
    refine .start (p := p) info ho (h.proper.waiting p m hm hb hphase) (Function.update_self ..) hb rfl
      fun q n hn hnb => ?_
    rcases Sessions.members_update hn with ⟨hq, -⟩ | ⟨-, hn⟩
    · exact hq
    · exact (h.proper.alone p q m n hm hn hb hnb hphase).symm
  · have hb' : some m.rb ≠ some b := fun heq => hb (Option.some_inj.mp heq)
    rw [if_neg hb', List.append_nil]
    refine h.stream.aside rfl rfl rfl (fun n hn => ?_) fun n hn => ?_
    · rw [← Option.some_inj.mp (hm.symm.trans hn)]
      exact hb
    · rw [← Option.some_inj.mp hn]
      exact hb

theorem exit (h : Attends b x s) (hc : s.Composed) (hstep : s.exec (.exit p) = .ok s')
    (hvacant : (s'.rbs b).active = 0 ↔ (x.step s.kernel (.exit p)).Vacant b) :
    (x.step s.kernel (.exit p)).Stream b (s'.rbs b).log := by
  rcases log_exit hstep with ⟨hnone, hwait, rfl⟩ | ⟨t, task, c, pre, htask, hrb, hfound, hcount, hlog⟩
  · have hm : x.members p = none := by
      cases hm : x.members p with
      | none => rfl
      | some m =>
        cases hphase : m.watch.phase with
        | waiting => exact (h.not_member (i := .waiting) hm (by simp [Watch.place, hphase]) hwait).elim
        | monitored =>
          exact (h.not_member (i := .cpu (s'.kernel.cpu p)) hm (by simp [Watch.place, hphase])
            hnone).elim
    simp only [Sessions.step, hm]
    exact h.stream
  have hmember : ∃ m, x.members p = some m ∧ task.pid = m.pid ∧ m.rb = c ∧
      (m.watch.phase = .monitored ∧ (∃ r, pre = [.pmc r] ∧ r.pid = task.pid) ∨
        m.watch.phase = .waiting ∧ pre = []) := by
    rcases hfound with ⟨hfound, hpre⟩ | ⟨-, hfound, hpre⟩
    · obtain ⟨hmem, y, hy, hp⟩ := findProc_some hfound
      obtain rfl := Option.some_inj.mp (hy.symm.trans htask)
      obtain ⟨m, hm, hpid, hmrb, -, hplace⟩ :=
        h.member_of_mem hc (i := .cpu (s.kernel.cpu p)) hmem htask hp
      refine ⟨m, hm, hpid, Option.some_inj.mp (hmrb.symm.trans hrb), .inl ⟨?_, hpre⟩⟩
      cases hphase : m.watch.phase with
      | monitored => rfl
      | waiting => simp [Watch.place, hphase] at hplace
    · obtain ⟨hmem, y, hy, hp⟩ := findProc_some hfound
      obtain rfl := Option.some_inj.mp (hy.symm.trans htask)
      obtain ⟨m, hm, hpid, hmrb, -, hplace⟩ := h.member_of_mem hc (i := .waiting) hmem htask hp
      refine ⟨m, hm, hpid, Option.some_inj.mp (hmrb.symm.trans hrb), .inr ⟨?_, hpre⟩⟩
      cases hphase : m.watch.phase with
      | waiting => rfl
      | monitored => simp [Watch.place, hphase] at hplace
  obtain ⟨m, hm, hpid, rfl, hpre⟩ := hmember
  rw [hlog b]
  simp only [Sessions.step, hm] at hvacant ⊢
  by_cases hb : m.rb = b
  case neg =>
    rw [if_neg hb, List.append_nil]
    refine h.stream.aside rfl (Sessions.exit_of_ne hb) rfl (fun n hn => ?_) fun n hn => ?_
    · rw [← Option.some_inj.mp (hm.symm.trans hn)]
      exact hb
    · cases hn
  rw [if_pos hb]
  subst hb
  have hone : (s.rbs m.rb).active = 1 ↔ (s'.rbs m.rb).active = 0 := by
    rw [hcount]
    omega
  rw [hvacant] at hone
  rcases hpre with ⟨hphase, r, rfl, hr⟩ | ⟨hphase, rfl⟩
  · refine h.stream.exit h.proper hm rfl hphase rfl ?_ rfl ?_
    · simp only [Sessions.exit, hphase, if_true, Function.update_self, hr, hpid]
    · by_cases hactive : (s.rbs m.rb).active = 1
      · exact .inl ⟨hone.mp hactive, if_pos hactive⟩
      · exact .inr ⟨fun hv => hactive (hone.mpr hv), if_neg hactive⟩
  · have hempty : Sessions.Vacant { x with
        members := Function.update x.members p none, exits := x.exit m } m.rb := by
      intro q n hn hnb
      rcases Sessions.members_update hn with ⟨-, heq⟩ | ⟨hq, hn⟩
      · cases heq
      · exact hq (h.proper.alone p q m n hm hn rfl hnb hphase).symm
    rw [h.stream.waiting p m hm rfl hphase, if_pos (hone.mpr hempty)]
    refine .leave ?_ (fun hnone => ?_) hempty
    · have hexits : x.exit m = x.exits := if_neg (by rw [hphase]; simp)
      simp only [hexits]
      exact h.proper.waiting p m hm rfl hphase
    · exact (h.proper.unopened hnone).1 p m hm rfl

theorem register (h : Attends b x s) {me : Cpu} {pid : Pid} {envir : SmonEnvir} {c : RbId}
    {alloc : Alloc} (hstep : s.exec (.register me pid envir c alloc) = .ok s')
    (hallows : s.Allows (.register me pid envir c alloc))
    (hopens : (Label.register me pid envir c alloc).opens? = some b → x.opened b = none) :
    (x.step s.kernel (.register me pid envir c alloc)).Stream b (s'.rbs b).log := by
  rcases log_register hstep with ⟨halloc, rfl⟩ | ⟨halloc, info, hlog⟩
  · simp only [Sessions.step, halloc, Bool.false_eq_true, if_false]
    exact h.stream
  have hnew : x.members (s.kernel.forEachProcess pid) = none := by
    have hnone : x.watched (s.kernel.forEachProcess pid) = none := h.placed.allows hallows
    exact Option.map_eq_none_iff.mp hnone
  rw [hlog b]
  simp only [Sessions.step, halloc, if_true]
  by_cases hc : c = b
  · subst hc
    have hnone := hopens (if_pos halloc)
    obtain ⟨hvacant, hexits⟩ := h.proper.unopened hnone
    have halone : ∀ q n, Function.update x.members (s.kernel.forEachProcess pid)
        (some ⟨⟨if envir.options.onExec then .waiting else .monitored, envir.options.inherit⟩, pid, c⟩) q
          = some n → n.rb = c → q = s.kernel.forEachProcess pid := by
      intro q n hn hnb
      rcases Sessions.members_update hn with ⟨hq, -⟩ | ⟨-, hn⟩
      · exact hq
      · exact absurd hnb (hvacant q n hn)
    rw [h.stream.unopened hnone, List.nil_append]
    cases hexec : envir.options.onExec with
    | true =>
      simp only [hexec, if_true, Bool.true_eq_false, and_false, if_false] at halone ⊢
      exact .wait (Function.update_self ..) rfl rfl halone
    | false =>
      simp only [hexec, Bool.false_eq_true, if_false, and_self, if_true] at halone ⊢
      exact .start info (Function.update_self ..) hexits (Function.update_self ..) rfl rfl halone
  · have hb : b ≠ c := fun heq => hc heq.symm
    simp only [hc, false_and, if_false, List.append_nil]
    refine h.stream.aside (Function.update_of_ne hb ..) rfl rfl (fun n hn => ?_) fun n hn => ?_
    · exact absurd (hnew.symm.trans hn) (by simp)
    · rw [← Option.some_inj.mp hn]
      exact hc

/-- **Every event keeps sessions, tasks and streams together.** -/
theorem step (h : Attends b x s) (hc : s.Composed) (hc' : s'.Composed) (hstep : SessionStep s l s')
    (hopens : l.opens? = some b → x.opened b = none) : Attends b (x.step s.kernel l) s' := by
  obtain ⟨ring, hforest⟩ := hc.forest
  have hbook := exec_book_step hforest hstep.step.2
  have hallows := h.placed.allows hstep.allows
  have hplaced : PlacedBook (x.step s.kernel l).watched s'.book := by
    rw [Sessions.watched_step]
    exact h.placed.step hc.listed hforest hbook hallows
  have hcounted := h.counted.step hforest hbook
  have henrolled : Enrolled (x.step s.kernel l) s'.book :=
    h.enrolled.step h.placed hc.listed hbook hallows
  refine ⟨hplaced, hcounted, henrolled, h.chosen.step hforest hc'.forest hbook hopens,
    h.proper.step hopens, ?_⟩
  cases l with
  | exec p => exact h.exec hc hstep.step.2
  | exit p =>
    obtain ⟨ring', hforest'⟩ := hc'.forest
    exact h.exit hc hstep.step.2 (active_eq_zero_iff hcounted hforest' hplaced henrolled)
  | register me pid envir c alloc => exact h.register hstep.step.2 hstep.allows hopens
  | unregister pid =>
    have hrbs := log_unregister hforest hstep.allows hstep.step.2
    rw [hrbs]
    exact h.stream
  | _ => exact h.sampled hc trivial hstep

theorem initial (init : s.Initial) (b : RbId) : Attends b .empty s := by
  have hentry : ∀ t, s.book.entry t = none := fun t => by simp [State.book, init.tasks t]
  have hwatched : Sessions.empty.watched = fun _ => none := rfl
  constructor
  case placed =>
    rw [hwatched]
    exact Initial.placedBook init
  case counted => exact Initial.counted init
  case enrolled => exact fun t c p hc => absurd ((hentry t).symm.trans hc) (by simp)
  case chosen => exact fun t c hc => absurd ((hentry t).symm.trans hc) (by simp)
  case proper => exact Sessions.proper_empty b
  case stream =>
    rw [(init.rbs b).2]
    constructor
    case unopened => exact fun _ => rfl
    case waiting =>
      intro p m hm
      cases hm
    case monitored =>
      intro p m hm
      cases hm
    case finished => exact fun hopen => absurd rfl hopen

end Attends

/-- A session is open only if it was opened. -/
theorem opened_of_opens (k : Kernel) (h : (ls.filterMap Label.opens?).count b = 0) :
    (sessions k ls).2.opened b = none := by
  induction ls using List.reverseRecOn with
  | nil => rfl
  | append_singleton ls l ih =>
    rw [List.filterMap_append, List.count_append, Nat.add_eq_zero_iff] at h
    have hl : l.opens? ≠ some b := by
      intro hopens
      have hlast := h.2
      simp [hopens] at hlast
    rw [sessions_append]
    exact (Sessions.opened_step _ _ hl).trans (ih h.1)

/-- Sessions, tasks and streams belong together in every run. -/
theorem attends_of_run (run : Run SessionStep s₀ ls s) (init : s₀.Initial) (b : RbId)
    (once : (ls.filterMap Label.opens?).count b ≤ 1) : Attends b (sessions s₀.kernel ls).2 s := by
  have hattends := run.induct (motive := fun ls s => (ls.filterMap Label.opens?).count b ≤ 1 →
    (sessions s₀.kernel ls).1 = s.kernel ∧ Attends b (sessions s₀.kernel ls).2 s)
    (fun _ => ⟨rfl, .initial init b⟩) ?_
  · exact (hattends once).2
  rintro ls s l s' run ih hstep honce
  have hcomposed := composed_of_run run init
  have hcomposed' := composed_of_run (run.snoc hstep) init
  obtain ⟨ring, hforest⟩ := hcomposed.forest
  rw [List.filterMap_append, List.count_append] at honce
  obtain ⟨hkernel, hattends⟩ := ih (Nat.le_trans (Nat.le_add_right ..) honce)
  have hopens : l.opens? = some b → (sessions s₀.kernel ls).2.opened b = none := by
    intro hl
    have hlast : ([l].filterMap Label.opens?).count b = 1 := by simp [hl]
    exact opened_of_opens _ (by omega)
  rw [sessions_append, hkernel]
  exact ⟨(exec_book_step hforest hstep.step.2).kernel.symm,
    hattends.step hcomposed hcomposed' hstep hopens⟩

/-- **The stream of a session**: in every orderly run in which no process exits while its RAPL timer is
yet to be armed, the records handed to a buffer on which one session is opened are nothing before
it is opened and while it waits, an INFO record with records from the middle while it has monitored
members, and the same with EOF, or EOF alone, when it has no members any more. -/
theorem stream_of_run (run : Run SessionStep s₀ ls s) (init : s₀.Initial) (b : RbId)
    (once : (ls.filterMap Label.opens?).count b ≤ 1) :
    (sessions s₀.kernel ls).2.Stream b (s.rbs b).log :=
  (attends_of_run run init b once).stream

/-- A registered process and the child it forks, from the registration to the last exit. -/
def twoExits : List Label :=
  [.register 0 1 inheriting 0 ⟨true, true, true⟩, .switch 0 1, .irq 0 (.startTimer 0),
    .fork 1 3 3 0 true true, .exit 1, .switch 0 3, .irq 0 (.startTimer 1), .exit 3]

theorem stream_of_run_twoExits : ∃ s : State, (s.rbs 0).log.map Sample.type = [.info, .pmc, .pmc, .eof] ∧
    (sessions (boot [] [fixedOnly]).kernel twoExits).2.Stream 0 (s.rbs 0).log := by
  have hregister : (boot [] [fixedOnly]).Allows (.register 0 1 inheriting 0 ⟨true, true, true⟩) := by
    intro t task htask
    cases htask
  have run : Run SessionStep (boot [] [fixedOnly]) twoExits _ :=
    .cons ⟨⟨⟨trivial, rfl⟩, .of_ne trivial (by simp), Prompt.of_no_hook rfl, hregister⟩, .of_irqs rfl _⟩ <|
    .cons ⟨⟨⟨trivial, rfl⟩, ⟨rfl, by rintro _ _ ⟨⟩; exact ⟨by decide, rfl⟩⟩, Prompt.of_irqs rfl _, trivial⟩,
      .of_irqs rfl _⟩ <|
    .cons ⟨⟨⟨by decide, rfl⟩, .of_ne trivial (by simp), Prompt.of_no_hook rfl, trivial⟩, .of_ne (by simp)⟩ <|
    .cons ⟨⟨⟨trivial, rfl⟩, .of_ne ⟨rfl, rfl⟩ (by simp), Prompt.of_irqs rfl _, rfl⟩, .of_irqs rfl _⟩ <|
    .cons ⟨⟨⟨trivial, rfl⟩, .of_ne rfl (by simp), Prompt.of_irqs rfl _, trivial⟩, .of_irqs rfl _⟩ <|
    .cons ⟨⟨⟨trivial, rfl⟩, ⟨rfl, by rintro _ _ ⟨⟩; exact ⟨by decide, rfl⟩⟩, Prompt.of_irqs rfl _, trivial⟩,
      .of_irqs rfl _⟩ <|
    .cons ⟨⟨⟨by decide, rfl⟩, .of_ne trivial (by simp), Prompt.of_no_hook rfl, trivial⟩, .of_ne (by simp)⟩ <|
    .cons ⟨⟨⟨trivial, rfl⟩, .of_ne rfl (by simp), Prompt.of_irqs rfl _, trivial⟩, .of_irqs rfl _⟩ .nil
  exact ⟨_, rfl, stream_of_run run (initial_boot ..) 0 (by decide)⟩

end Steps

end SchedMon
