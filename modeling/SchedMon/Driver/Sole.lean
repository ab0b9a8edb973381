import SchedMon.Driver.Session
import SchedMon.Driver.Settlement

/-!
# One session

A client profiles one program on a buffer that nobody has used: there is a registration, then hooks and
timers in whatever order, the interrupts that a hook queues before the next one, and an
`smon_unset_task` when every process has exited. The buffer counts the tasks that have one, and its
records follow one grammar from the first to the last.

## Main definitions

* `Sessions.Whole` — the records of a whole session
* `Sessions.Grammar` — what the records so far are
* `SoleStep` — the steps of such a run

## Main results

* `Sessions.Stream.grammar` — the stream of a session follows the grammar
* `grammar_of_run` — **the records of the one session, and the count of its tasks**
-/

namespace SchedMon

open State

/-! ### What is promised -/

instance : DecidablePred Sample.Middle := fun w =>
  inferInstanceAs (Decidable (w.type ≠ .info ∧ w.type ≠ .eof))

/-- The records of a whole session: EOF alone, if the process exits before its `exec`, or INFO, records
from the middle, and one EOF. -/
inductive Sessions.Whole : List Sample → Prop
  | unstarted : Whole [.eof]
  | started {info : SampleInfo} {mids : List Sample} (hmids : ∀ w ∈ mids, w.Middle) :
      Whole (.info info :: (mids ++ [.eof]))

/-- The records of a session so far. -/
structure Sessions.Grammar (x : Sessions) (b : RbId) (log : List Sample) : Prop where
  /-- They are the first ones of a whole session. -/
  whole : ∃ all, Whole all ∧ log <+: all
  /-- EOF comes when all members have exited. -/
  eof : .eof ∈ log ↔ x.opened b ≠ none ∧ x.Vacant b
  /-- In stat mode there is a PMC record for each monitored member that has exited, and nothing else
  from the middle. -/
  stat : ∀ envir, x.opened b = some envir → envir.options.stat = true →
    (log.filter fun w => w.Middle).map Sample.pmcPid? = (x.exits b).map some

/-- Does task `t` have a buffer? -/
def State.hasRb (s : State) (t : TaskId) : Bool :=
  match s.tasks t with
  | some task => task.rb.isSome
  | none => false

/-- A step of a run in which no interrupt waits for the next hook, and nobody is unregistered before
every process has exited. -/
structure SoleStep (s : State) (l : Label) (s' : State) : Prop where
  step : s.Step l s'
  orderly : s.kernel.Orderly l
  served : s.hookCpu? l ≠ none → s.irqs = []
  exited : ∀ pid, l = .unregister pid → ∀ t, s.alive t = false

/-- The buffer that a registration is for, whether it succeeds or not. -/
def Label.registers? : Label → Option RbId
  | .register _ _ _ b _ => some b
  | _ => none

/-! ### Records -/

namespace Sessions

variable {x : Sessions} {b : RbId} {log mids : List Sample} {info : SampleInfo}

theorem filter_middle (hmids : ∀ w ∈ mids, w.Middle) :
    (.info info :: mids).filter (fun w : Sample => w.Middle) = mids := by
  rw [List.filter_cons_of_neg fun h => (of_decide_eq_true h).1 rfl]
  exact List.filter_eq_self.mpr fun w hw => decide_eq_true (hmids w hw)

theorem eof_not_mem (hmids : ∀ w ∈ mids, w.Middle) : Sample.eof ∉ Sample.info info :: mids := by
  intro hmem
  rcases List.mem_cons.mp hmem with heq | hmem
  · cases heq
  · exact (hmids _ hmem).2 rfl

/-- Nothing has been handed over. -/
theorem Grammar.nil (hexits : x.exits b = []) (hno : ¬ (x.opened b ≠ none ∧ x.Vacant b)) :
    x.Grammar b [] := by
  refine ⟨⟨_, .unstarted, List.nil_prefix⟩, iff_of_false List.not_mem_nil hno, fun _ _ _ => ?_⟩
  rw [hexits]
  rfl

/-- The session has begun. -/
theorem Grammar.begun (hbody : x.Body b mids) (hno : ¬ x.Vacant b) :
    x.Grammar b (.info info :: mids) := by
  refine ⟨⟨_, .started hbody.middle, List.prefix_append (.info info :: mids) [.eof]⟩,
    iff_of_false (eof_not_mem hbody.middle) fun hx => hno hx.2, fun envir henvir hstat => ?_⟩
  rw [filter_middle hbody.middle]
  exact hbody.stat envir henvir hstat

/-- It has ended before it began. -/
theorem Grammar.unstarted (hopen : x.opened b ≠ none) (hvacant : x.Vacant b)
    (hexits : x.exits b = []) : x.Grammar b [.eof] := by
  refine ⟨⟨_, .unstarted, List.prefix_refl _⟩, iff_of_true List.mem_cons_self ⟨hopen, hvacant⟩,
    fun _ _ _ => ?_⟩
  rw [hexits]
  rfl

/-- It has ended. -/
theorem Grammar.ended (hbody : x.Body b mids) (hopen : x.opened b ≠ none) (hvacant : x.Vacant b) :
    x.Grammar b (.info info :: (mids ++ [.eof])) := by
  refine ⟨⟨_, .started hbody.middle, List.prefix_refl _⟩, iff_of_true (by simp) ⟨hopen, hvacant⟩,
    fun envir henvir hstat => ?_⟩
  rw [← List.cons_append, List.filter_append, filter_middle hbody.middle,
    List.filter_cons_of_neg (by decide), List.filter_nil, List.append_nil]
  exact hbody.stat envir henvir hstat

/-- **A stream follows the grammar.** -/
theorem Stream.grammar (h : x.Stream b log) (hproper : x.Proper b) : x.Grammar b log := by
  by_cases hopen : x.opened b = none
  · rw [h.unopened hopen]
    exact .nil (hproper.unopened hopen).2 fun hx => hx.1 hopen
  by_cases hvacant : x.Vacant b
  · rcases h.finished hopen hvacant with ⟨rfl, hexits⟩ | ⟨info, mids, rfl, hbody⟩
    · exact .unstarted hopen hvacant hexits
    · exact .ended hbody hopen hvacant
  obtain ⟨p, m, hm, hmb⟩ : ∃ p m, x.members p = some m ∧ m.rb = b := by
    simpa only [Vacant, not_forall, not_not, exists_prop] using hvacant
  cases hphase : m.watch.phase with
  | waiting =>
    rw [h.waiting p m hm hmb hphase]
    exact .nil (hproper.waiting p m hm hmb hphase) fun hx => hvacant hx.2
  | monitored =>
    obtain ⟨info, mids, rfl, hbody⟩ := h.monitored p m hm hmb hphase
    exact .begun hbody hvacant

end Sessions

/-! ### One registration -/

section Books

variable {b b' : Book} {l : Label} {rb : RbId}

/-- Without a registration there are no tasks. -/
theorem BookStep.vacant (h : BookStep b l b') (hnone : ∀ t, b.entry t = none)
    (hl : l.registers? = none) (t : TaskId) : b'.entry t = none := by
  have hno : ∀ {u : TaskId} {c : TaskCore × Option RbId}, b.entry u ≠ some c := fun {u c} hc =>
    absurd ((hnone u).symm.trans hc) (by simp)
  cases h with
  | fork parent child pid cpu leader k u c rb envir hk hat hc => exact absurd hc hno
  | exit p i u c rb hi hat hc => exact absurd hc hno
  | register => cases hl
  | unregister pid r c xs b' hr hc => exact absurd hc hno
  | _ => exact hnone t

/-- All tasks that have a buffer have this one. -/
def Book.Only (b : Book) (rb : RbId) : Prop :=
  ∀ t c, b.entry t = some c → ∀ rb', c.1.rb = some rb' → rb' = rb

theorem Book.Only.step (honly : b.Only rb) (h : BookStep b l b')
    (hl : ∀ rb', l.registers? = some rb' → rb' = rb) : b'.Only rb := by
  intro t c' hc' rb' hrb'
  by_cases ht : t = b.fresh
  case neg =>
    obtain ⟨c, hc, hrb⟩ := h.rb_before hc' ht hrb'
    exact honly t c hc rb' hrb
  cases h with
  | fork parent child pid cpu leader k u d rb₁ envir hk hat hd hrb₁ =>
    subst ht
    by_cases hu : b.fresh = u
    · simp only [Book.addChild, hu, Function.update_self, Option.some_inj] at hc'
      subst hc'
      exact honly u d hd rb' hrb'
    · simp only [Book.addChild, Function.update_of_ne hu, Function.update_self,
        Option.some_inj] at hc'
      subst hc'
      obtain rfl := Option.some_inj.mp hrb'
      exact honly u d hd rb₁ hrb₁
  | exit p i u d rb₁ hi hat hd hrb₁ =>
    by_cases hu : t = u
    · subst hu
      simp only [Book.leave, Function.update_self, Option.some_inj] at hc'
      subst hc'
      cases hrb'
    · exact honly t c' ((Function.update_of_ne hu ..).symm.trans hc') rb' hrb'
  | register me pid envir rb₁ alloc halloc =>
    subst ht
    simp only [Book.addRoot, Function.update_self, Option.some_inj] at hc'
    subst hc'
    obtain rfl := Option.some_inj.mp hrb'
    exact hl rb₁ rfl
  | unregister pid r d xs b' hr hd hpid hring hdropped =>
    rw [hdropped.entry] at hc'
    split at hc'
    · cases hc'
    · exact honly t c' hc' rb' hrb'
  | _ => exact honly t c' hc' rb' hrb'

end Books

section Run

variable {s s' s₀ : State} {l : Label} {ls : List Label} {b : RbId}

/-- The session that is opened is the one that was registered. -/
theorem opens_sublist (ls : List Label) :
    (ls.filterMap Label.opens?).Sublist (ls.filterMap Label.registers?) := by
  induction ls with
  | nil => exact List.Sublist.refl _
  | cons l ls ih =>
    cases l with
    | register me pid envir b alloc =>
      simp only [List.filterMap_cons, Label.opens?, Label.registers?]
      split
      · exact ih.cons b
      · rename_i c hc
        split at hc
        · obtain rfl := Option.some_inj.mp hc
          exact ih.cons_cons b
        · cases hc
    | _ => exact ih

/-- What is known while there is at most one registration. -/
structure SoleSession (b : RbId) (ls : List Label) (s : State) : Prop where
  forest : ∃ ring, Forest s.book ring
  only : s.book.Only b
  before : ls.filterMap Label.registers? = [] → ∀ t, s.book.entry t = none

theorem Book.Only.holds (h : s.book.Only b) (t : TaskId) : s.book.holds b t = s.hasRb t := by
  rw [book_holds, State.holds, State.hasRb]
  cases htask : s.tasks t with
  | none => rfl
  | some task =>
    cases hrb : task.rb with
    | none => simp [hrb]
    | some c =>
      obtain rfl := h t task.core (entry_of_tasks htask) c hrb
      simp [hrb]

/-- An event of such a run is one of an orderly run. -/
theorem SoleStep.sessionStep (h : SoleStep s l s')
    (hregister : l.registers? ≠ none → ∀ t, s.book.entry t = none) : SessionStep s l s' := by
  have hprompt : s.Prompt l := by
    intro _ c w hc hmem
    rw [h.served (by simp [hc])] at hmem
    cases hmem
  have hsettled : s.Settled l := by
    rintro p c t task rfl hmem
    rw [h.served (by simp [hookCpu?])] at hmem
    cases hmem
  refine ⟨⟨h.step, h.orderly, hprompt, ?_⟩, hsettled⟩
  cases l with
  | fork parent child pid cpu leader alloc => exact h.orderly.1.2
  | register me pid envir c alloc =>
    intro t task htask
    have hnone := hregister (by simp [Label.registers?]) t
    exact absurd (hnone.symm.trans (entry_of_tasks htask)) (by simp)
  | unregister pid => exact fun r _ root _ _ t _ => h.exited pid rfl t
  | _ => trivial

/-- **A run with one registration** is an orderly run of sessions. -/
theorem sole_of_run (run : Run SoleStep s₀ ls s) (init : s₀.Initial)
    (one : ls.filterMap Label.registers? <+: [b]) : Run SessionStep s₀ ls s ∧ SoleSession b ls s := by
  refine run.induct (motive := fun ls s => ls.filterMap Label.registers? <+: [b] →
    Run SessionStep s₀ ls s ∧ SoleSession b ls s) (fun _ => ⟨.nil, ?_⟩) ?_ one
  · have hnone : ∀ t, s₀.book.entry t = none := fun t => by simp [State.book, init.tasks t]
    exact ⟨⟨_, Initial.forest init⟩, fun t c hc => absurd ((hnone t).symm.trans hc) (by simp),
      fun _ => hnone⟩
  rintro ls s l s' - ih hstep one
  rw [List.filterMap_append] at one
  obtain ⟨run', ⟨ring, hforest⟩, honly, hbefore⟩ := ih ((List.prefix_append ..).trans one)
  have hbook := exec_book_step hforest hstep.step.2
  have hregisters : ∀ c, l.registers? = some c → ls.filterMap Label.registers? = [] ∧ c = b := by
    intro c hc
    have hlast : [l].filterMap Label.registers? = [c] := by simp [hc]
    rw [hlast] at one
    have hlength := one.length_le
    rw [List.length_append, List.length_singleton, List.length_singleton] at hlength
    have hnil : ls.filterMap Label.registers? = [] := List.length_eq_zero_iff.mp (by omega)
    rw [hnil] at one
    exact ⟨hnil, (List.cons_prefix_cons.mp one).1⟩
  refine ⟨run'.snoc (hstep.sessionStep fun hl => ?_), hforest.step hbook,
    honly.step hbook fun c hc => (hregisters c hc).2, fun hnil => ?_⟩
  · obtain ⟨c, hc⟩ := Option.ne_none_iff_exists'.mp hl
    exact hbefore (hregisters c hc).1
  · rw [List.filterMap_append, List.append_eq_nil_iff] at hnil
    exact hbook.vacant (hbefore hnil.1) (by simpa using hnil.2)

/-- **The records of the one session, and the count of its tasks**: in every run with one registration,
the buffer it is for counts the tasks that have a buffer, and its records are the first of a
session. -/
theorem grammar_of_run (run : Run SoleStep s₀ ls s) (init : s₀.Initial)
    (one : ls.filterMap Label.registers? <+: [b]) :
    (s.rbs b).active = census s.hasRb s.fresh ∧
      (sessions s₀.kernel ls).2.Grammar b (s.rbs b).log := by
  obtain ⟨run', -, honly, -⟩ := sole_of_run run init one
  have once : (ls.filterMap Label.opens?).count b ≤ 1 :=
    List.count_le_length.trans ((opens_sublist ls).length_le.trans one.length_le)
  have hattends := attends_of_run run' init b once
  refine ⟨?_, hattends.stream.grammar hattends.proper⟩
  exact (hattends.counted b).trans (congrArg Nat.cast (census_congr fun t _ => honly.holds t))

/-- An environment that counts from the `exec` on, and is inherited. -/
def awaited : SmonEnvir :=
  { inheriting with options := ⟨true, true, false, false, false, false, true⟩ }

/-- A process forks behind its `exec`; both exit, and the family is unregistered. -/
def awaitedExits : List Label :=
  [.register 0 1 awaited 0 ⟨true, true, true⟩, .switch 0 1, .exec 1, .fork 1 3 3 0 true true, .exit 1,
    .switch 0 3, .exit 3, .unregister 1]

theorem grammar_of_run_awaited : ∃ s, Run SoleStep (boot [] [fixedOnly]) awaitedExits s ∧
    (s.rbs 0).log.map Sample.type = [.info, .pmc, .pmc, .eof] ∧
    (s.rbs 0).active = census s.hasRb s.fresh ∧
    (sessions (boot [] [fixedOnly]).kernel awaitedExits).2.Grammar 0 (s.rbs 0).log := by
  have run : Run SoleStep (boot [] [fixedOnly]) awaitedExits _ :=
    .cons ⟨⟨trivial, rfl⟩, .of_ne trivial (by simp), fun _ => rfl, by simp⟩ <|
    .cons ⟨⟨trivial, rfl⟩, ⟨rfl, by rintro _ _ ⟨⟩; exact ⟨by decide, rfl⟩⟩, fun _ => rfl, by simp⟩ <|
    .cons ⟨⟨trivial, rfl⟩, .of_ne rfl (by simp), fun _ => rfl, by simp⟩ <|
    .cons ⟨⟨trivial, rfl⟩, .of_ne ⟨rfl, rfl⟩ (by simp), fun _ => rfl, by simp⟩ <|
    .cons ⟨⟨trivial, rfl⟩, .of_ne rfl (by simp), fun _ => rfl, by simp⟩ <|
    .cons ⟨⟨trivial, rfl⟩, ⟨rfl, by rintro _ _ ⟨⟩; exact ⟨by decide, rfl⟩⟩, fun _ => rfl, by simp⟩ <|
    .cons ⟨⟨trivial, rfl⟩, .of_ne rfl (by simp), fun _ => rfl, by simp⟩ <|
    .cons ⟨⟨trivial, rfl⟩, .of_ne trivial (by simp), fun _ => rfl, fun _ _ t => by
      rcases t with _ | _ | t <;> rfl⟩ .nil
  exact ⟨_, run, rfl, grammar_of_run run (initial_boot ..) (by decide)⟩

end Run

end SchedMon
