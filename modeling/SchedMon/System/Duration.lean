import SchedMon.Driver.Session
import SchedMon.Driver.Settlement
import SchedMon.System.Delivery
import SchedMon.System.Roofline

/-!
# The duration that is reported

When a profiled program is done, the tool calls a script that adds up the times of all PMC lines and
divides the sum by the frequency in the INFO line. What it prints is the time for which the processes
of the session ran: nothing is lost on the way, and nothing is counted twice.

## Main definitions

* `ParseProf.duration` — what `parse_prof.sh` prints for a file
* `Limited` — the time of a record is no longer than the time-stamp counter says
* `State.seconds` — for how long the tasks of a buffer ran
* `System.Reports` — a step of a session whose file is complete

## Main results

* `duration_of_lines` — the script adds up the samples that the file was made of
* `fits_of_run` — the times of the records of a run fit into their fields
* `reported_of_lines` — what the script makes of a complete file
* `reported_of_session` — **the reported duration is the time that was run**
-/

namespace SchedMon

open State CString

/-! ### The script -/

namespace ParseProf

open ParseRoof

/-- The sum of field 4 of the lines, as the `awk` program adds it up. -/
def addUp (ls : List CString) : ℤ := ls.foldl (fun duration line => duration + field line 4) 0

/-- What the script prints for a file, before rounding. `awk` does not divide by zero. -/
def duration (text : CString) : Option ℚ := do
  let tscFrequency ← infoVar text 3
  if tscFrequency = 0 then none
  else some ((addUp (grep "PMC".toList (lines text)) : ℚ) / (tscFrequency : ℚ))

theorem addUp_cons (line : CString) (ls : List CString) :
    addUp (line :: ls) = field line 4 + addUp ls := by
  have hfold : ∀ (ls : List CString) (d : ℤ),
      ls.foldl (fun duration line => duration + field line 4) d = d + addUp ls := by
    intro ls
    induction ls with
    | nil => exact fun d => (Int.add_zero d).symm
    | cons line ls ih =>
      intro d
      rw [addUp, List.foldl_cons, List.foldl_cons, ih, ih, Int.zero_add, Int.add_assoc]
  rw [addUp, List.foldl_cons, hfold, Int.zero_add]

end ParseProf

section Files

variable {ws : List Sample} {text : CString} {info : SampleInfo} {sample : SamplePmc}

/-- The sum over the PMC lines is the sum over the PMC samples, if their times fit. -/
theorem addUp_lines (hfits : ∀ sample ∈ ws.filterMap Sample.pmc?,
      wrapLlong sample.duration = sample.duration) :
    ParseProf.addUp (grep "PMC".toList (ws.filterMap Sample.line?)) =
      timeOf (ws.filterMap Sample.pmc?) := by
  rw [grep_lines (by decide) (by simp [IsNumeric]) SampleType.pmc_infix_tag]
  induction ws with
  | nil => rfl
  | cons w ws ih =>
    cases w with
    | pmc s =>
      have hline : (Sample.pmc s).line? = some (fprintSamplePmc s) := rfl
      have hpmc : (Sample.pmc s).pmc? = some s := rfl
      rw [List.filterMap_cons_some hpmc] at hfits ⊢
      have hfield : ParseRoof.field (fprintSamplePmc s) 4 = wrapLlong s.duration :=
        field_line hline 2
      rw [List.filter_cons_of_pos rfl, List.filterMap_cons_some hline, ParseProf.addUp_cons, hfield,
        hfits s List.mem_cons_self, ih fun x hx => hfits x (List.mem_cons_of_mem _ hx)]
      rfl
    | _ => exact ih hfits

/-- The frequency that the script finds is the one of the INFO sample. -/
theorem infoVar_frequency (hlines : lines text = ws.filterMap Sample.line?)
    (hinfo : ws.filterMap Sample.info? = [info]) :
    ParseRoof.infoVar text 3 = some (info.tscHz : ℤ) := by
  have hgrep : grep "INFO".toList (lines text) = [fprintSampleInfo info] := by
    rw [hlines, infoLines_eq, hinfo, List.map_singleton]
  have hfield := field_line (w := .info info) rfl
  rw [ParseRoof.infoVar, hgrep]
  exact congrArg some (hfield 1)

/-- The script adds up the samples that the file was made of. -/
theorem duration_of_lines (hlines : lines text = ws.filterMap Sample.line?)
    (hinfo : ws.filterMap Sample.info? = [info])
    (hfits : ∀ sample ∈ ws.filterMap Sample.pmc?, wrapLlong sample.duration = sample.duration) :
    ParseProf.duration text = if info.tscHz = 0 then none
      else some ((timeOf (ws.filterMap Sample.pmc?) : ℚ) / (info.tscHz : ℚ)) := by
  have hfrequency := infoVar_frequency hlines hinfo
  generalize info.tscHz = hz at hfrequency ⊢
  rw [ParseProf.duration, hfrequency, hlines, Option.bind_eq_bind, Option.bind_some, addUp_lines hfits,
    Int.cast_natCast]
  simp only [Int.natCast_eq_zero]

end Files

/-! ### Times that fit -/

/-- The account of a task is no longer than the time-stamp counter says, now and from now on. -/
structure Limited (clock : ℕ → ℤ) (n : ℕ) (task : SmonTask) (a : Account) : Prop where
  clocked : Clocked n task a
  nonneg : 0 ≤ a.duration
  le : ∀ k, n ≤ k → a.duration ≤ clock k
  since : ∀ c b, a.since = some (c, b) → a.duration ≤ b ∧ ∀ k, n ≤ k → b ≤ clock k

/-- The time of a record is no longer than the time-stamp counter says. -/
def Within (clock : ℕ → ℤ) (_ : Account) : TraceEvent → Prop
  | .save _ sample _ => 0 ≤ sample.duration ∧ ∃ k, sample.duration ≤ clock k
  | _ => True

section Bounds

variable {clock : ℕ → ℤ} {s s₀ : State} {ls : List Label} {t : TaskId}

theorem limited_tally (hnonneg : ∀ n, 0 ≤ clock n) (hmono : ∀ i j, i ≤ j → clock i ≤ clock j)
    (t : TaskId) : Tally t clock (Limited clock) (Within clock) := by
  have T := clocked_tally t clock
  constructor
  case congr =>
    intro n n' task task' a h hn hpmc htsc
    refine ⟨T.congr n n' task task' a h.clocked hn hpmc htsc, h.nonneg,
      fun k hk => h.le k (Nat.le_trans hn hk), fun c b hsince => ?_⟩
    obtain ⟨hle, hb⟩ := h.since c b hsince
    exact ⟨hle, fun k hk => hb k (Nat.le_trans hn hk)⟩
  case count =>
    intro n task a me ctr inc h
    have hclocked := T.count n task a me ctr inc h.clocked
    rw [Account.step_count] at hclocked ⊢
    exact ⟨hclocked, h.nonneg, h.le, h.since⟩
  case start =>
    intro n task a me h hsince
    have hclocked := (T.start n task a me h.clocked hsince).1
    have hstep : a.step t (.start t me (clock n)) =
        { a with since := some (me, clock n), first := a.first.or (some (clock n)) } := if_pos rfl
    rw [hstep] at hclocked ⊢
    refine ⟨⟨hclocked, h.nonneg, h.le, fun c b heq => ?_⟩, trivial⟩
    obtain rfl := (Prod.mk.inj (Option.some_inj.mp heq)).2
    exact ⟨h.le n (Nat.le_refl n), fun k hk => hmono n k hk⟩
  case stop =>
    intro n task a me b pmc h hsince
    have hclocked := (T.stop n task a me b pmc h.clocked hsince).1
    have hstep : a.step t (.stop t me (clock n)) =
        { a with since := none, last := some (clock n), duration := a.duration + (clock n - b) } := by
      have helapsed : a.elapsed (clock n) = clock n - b := by rw [Account.elapsed, hsince]
      rw [← helapsed]
      exact if_pos rfl
    obtain ⟨hle, hb⟩ := h.since me b hsince
    have hnow := hb n (Nat.le_refl n)
    have hzero := h.nonneg
    rw [hstep] at hclocked ⊢
    refine ⟨⟨hclocked, ?_, fun k hk => ?_, fun c b heq => (by cases heq)⟩, trivial⟩
    · dsimp only
      omega
    · have hk' := hmono n k hk
      dsimp only
      omega
  case save =>
    intro n task a envir h hsince hlast
    have hclocked := (T.save n task a envir h.clocked hsince hlast).1
    have hstep : a.step t (.save t task.record envir) = { Account.zero with since := a.since } :=
      if_pos rfl
    have hduration : task.record.duration = a.duration := h.clocked.duration
    rw [hstep, hsince] at hclocked ⊢
    refine ⟨⟨hclocked, Int.le_refl 0, fun k _ => hnonneg k, fun c b heq => (by cases heq)⟩, ?_⟩
    change 0 ≤ task.record.duration ∧ ∃ k, task.record.duration ≤ clock k
    rw [hduration]
    exact ⟨h.nonneg, n, h.le n (Nat.le_refl n)⟩
  case sched => exact fun _ _ => trivial

theorem mem_recordsOf {P : TaskId → Bool} {es : List TraceEvent} {sample : SamplePmc}
    (h : sample ∈ recordsOf P es) : ∃ t envir, .save t sample envir ∈ es := by
  obtain ⟨e, he, hsaved⟩ := List.mem_filterMap.mp h
  cases e with
  | save t x envir =>
    simp only [TraceEvent.savedBy] at hsaved
    split at hsaved
    · obtain rfl := Option.some_inj.mp hsaved
      exact ⟨t, envir, he⟩
    · cases hsaved
  | _ => cases hsaved

/-- The times of the records of a run fit into their fields. -/
theorem fits_of_run (run : Run LedgerStep s₀ ls s) (init : s₀.Initial)
    (hclock : ∀ n, 0 ≤ s₀.clock n ∧ s₀.clock n < 2 ^ 63)
    (hmono : ∀ i j, i ≤ j → s₀.clock i ≤ s₀.clock j) {P : TaskId → Bool} :
    ∀ sample ∈ recordsOf P s.trace, wrapLlong sample.duration = sample.duration := by
  intro sample hsample
  obtain ⟨t, envir, hsave⟩ := mem_recordsOf hsample
  obtain ⟨pre, post, htrace⟩ := List.append_of_mem hsave
  have hzero : ∀ n pid task, task.samplePmc = { SamplePmc.zero with pid := pid } →
      Limited s₀.clock n task .zero := fun n pid task hpmc =>
    ⟨clocked_zero n pid task hpmc, Int.le_refl 0, fun k _ => (hclock k).1,
      fun c b heq => (by cases heq)⟩
  obtain ⟨hasked, -⟩ :=
    fed_of_run (limited_tally (fun n => (hclock n).1) hmono t) hzero run init
  obtain ⟨hnonneg, k, hk⟩ : 0 ≤ sample.duration ∧ ∃ k, sample.duration ≤ s₀.clock k :=
    hasked pre _ post htrace rfl
  have hlt := (hclock k).2
  rw [wrapLlong, BitVec.toInt_ofInt]
  exact Int.bmod_eq_of_le (by omega) (by omega)

end Bounds

/-! ### What is reported -/

/-- A step of a run of sessions in which a process is registered while it does not run, or to be
monitored from its `exec` on. -/
def ReportedStep (s : State) (l : Label) (s' : State) : Prop :=
  SessionStep s l s' ∧ s.Enters s.fresh l

/-- For how long the tasks of buffer `b` ran, in seconds. -/
def State.seconds (s : State) (home : TaskId → RbId) (b : RbId) (info : SampleInfo) : Option ℚ :=
  let ticks := ∑ t ∈ (Finset.range s.fresh).filter (fun t => home t = b), ran t s.trace
  if info.tscHz = 0 then none else some ((ticks : ℚ) / (info.tscHz : ℚ))

/-- What happens in the driver. -/
def Action.label? : Action → Option Label
  | .hook l => some l
  | _ => none

/-- A step of a session that has writers and a file that will be complete. -/
def System.Reports (b : RbId) (x : System) (a : Action) (y : System) : Prop :=
  System.Goes b True x a y ∧ ∀ l, a = .hook l → ReportedStep x.driver l y.driver

section Reports

variable {s s₀ : State} {ls : List Label} {x : Sessions} {b : RbId} {log : List Sample} {t : TaskId}
  {home : TaskId → RbId} {ring : TaskId → List TaskId}

/-- All PMC records are among the records. -/
theorem Rb.pmcs_eq (rb : Rb) : rb.pmcs = rb.records.filterMap Sample.pmc? := by
  rw [Rb.pmcs, Rb.records, List.filterMap_filter]
  refine congrArg (fun f => List.filterMap f rb.log) (funext fun w => ?_)
  cases w with
  | _ => rfl

/-- A session that is over has left nothing, or one INFO record and what belongs to it. -/
theorem Stream.info (h : x.Stream b log) (hvacant : x.Vacant b) :
    (log.filter fun w => w.type ≠ .eof) = [] ∨
      ∃ info, (log.filter fun w => w.type ≠ .eof).filterMap Sample.info? = [info] := by
  by_cases hopened : x.opened b = none
  · rw [h.unopened hopened]
    exact .inl rfl
  rcases h.finished hopened hvacant with ⟨rfl, -⟩ | ⟨info, mids, rfl, hbody⟩
  · exact .inl rfl
  · refine .inr ⟨info, ?_⟩
    have hkept : (Sample.info info :: (mids ++ [.eof])).filter (fun w => w.type ≠ .eof) =
        .info info :: mids := by
      have hmids : mids.filter (fun w => w.type ≠ .eof) = mids :=
        List.filter_eq_self.mpr fun w hw => by simpa using (hbody.middle w hw).2
      rw [List.filter_cons_of_pos rfl, List.filter_append, hmids]
      exact congrArg _ (List.append_nil mids)
    have hnone : mids.filterMap Sample.info? = [] := by
      refine List.filterMap_eq_nil_iff.mpr fun w hw => ?_
      have hmiddle := hbody.middle w hw
      cases w with
      | info i => exact absurd rfl hmiddle.1
      | _ => rfl
    have hinfo : (Sample.info info).info? = some info := rfl
    rw [hkept, List.filterMap_cons_some hinfo, hnone]

/-- Nobody holds time for a buffer without members. -/
theorem held_of_vacant (henrolled : Enrolled x s.book) (hvacant : x.Vacant b)
    (hforest : Forest s.book ring) (houses : s.Houses home)
    (hsettled : ∀ t, ¬ s.Monitored t → s.held t = 0) (ht : home t = b) : s.held t = 0 := by
  refine hsettled t ?_
  rintro ⟨task, p, htask, hp, -⟩
  obtain ⟨m, hm, -, hmrb, -⟩ := henrolled t task.core p (entry_of_tasks htask) hp
  have hrb : task.rb = some (home t) := houses.rb hforest htask hp
  have hmhome : m.rb = home t := Option.some_inj.mp (hmrb.symm.trans hrb)
  exact hvacant p m hm (hmhome.trans ht)

/-- What the script makes of a file with the lines of all records of a session that is over. -/
theorem reported_of_lines (run : Run ReportedStep s₀ ls s) (init : s₀.Initial)
    (hclock : ∀ n, 0 ≤ s₀.clock n ∧ s₀.clock n < 2 ^ 63)
    (hmono : ∀ i j, i ≤ j → s₀.clock i ≤ s₀.clock j)
    (once : (ls.filterMap Label.opens?).count b ≤ 1) (hended : (s.rbs b).active = 0) {text : CString}
    (hfile : lines text = (s.rbs b).records.filterMap Sample.line?) :
    (s.rbs b).records = [] ∨ ∃ home info, Run (HomedStep home) s₀ ls s ∧
      (s.rbs b).records.filterMap Sample.info? = [info] ∧
      ParseProf.duration text = s.seconds home b info := by
  have hsessions : Run SessionStep s₀ ls s := run.mono fun _ _ _ h => h.1
  have hledger : Run LedgerStep s₀ ls s := run.mono fun _ _ _ h => ⟨h.1.orderlyStep, h.2⟩
  have hattends := attends_of_run hsessions init b once
  obtain ⟨ring, hforest⟩ := (composed_of_run hsessions init).forest
  have hvacant := (active_eq_zero_iff hattends.counted hforest hattends.placed hattends.enrolled).mp hended
  rcases Stream.info hattends.stream hvacant with hnil | ⟨info, hinfo⟩
  · exact .inl hnil
  obtain ⟨home, hhomed⟩ := exists_home hledger init
  refine .inr ⟨home, info, hhomed, hinfo, ?_⟩
  have hpmcs := pmcs_of_run hhomed init b
  have hsum := Conserved.of_run hhomed init b
  have hheld : ∑ t ∈ (Finset.range s.fresh).filter (fun t => home t = b), s.held t = 0 :=
    Finset.sum_eq_zero fun t ht => held_of_vacant hattends.enrolled hvacant hforest
      (HomedStep.houses_of_run hhomed init) (fun t => (balance_of_run hledger init t).2)
      (Finset.mem_filter.mp ht).2
  rw [hheld, Int.add_zero, Rb.pmcs_eq] at hsum
  rw [State.seconds, ← hsum]
  refine duration_of_lines hfile hinfo ?_
  rw [← Rb.pmcs_eq, hpmcs]
  exact fits_of_run hledger init hclock hmono

/-- What the driver does in a session. -/
theorem driver_of_session {x₀ x : System} {actions : List Action}
    (run : Run (System.Reports b) x₀ actions x) (before : Run ReportedStep s₀ ls x₀.driver) :
    Run ReportedStep s₀ (ls ++ actions.filterMap Action.label?) x.driver := by
  refine run.induct (motive := fun actions x =>
    Run ReportedStep s₀ (ls ++ actions.filterMap Action.label?) x.driver) ?_ ?_
  · rw [List.filterMap_nil, List.append_nil]
    exact before
  · rintro actions y a z - ih ⟨⟨hstep, -, -⟩, hdriver⟩
    rw [List.filterMap_append, ← List.append_assoc]
    cases hstep with
    | hook step posts makes batch => exact ih.snoc (hdriver _ rfl)
    | operate => exact (List.append_nil _).symm ▸ ih
    | read => exact (List.append_nil _).symm ▸ ih

/-- **The reported duration is the time that was run.** A session was opened once, every record found
200 free bytes, and the last writer is about to go with room for the EOF. Then the reader, wherever it
is, goes on to the EOF and stops, and for the file that it leaves `parse_prof.sh` prints for how long
the tasks of the session ran, in seconds; unless the session ended before it began. -/
theorem reported_of_session {x₀ x : System} {actions : List Action} {nPages : U32}
    {data : ℕ → ℕ → Byte} (hn : RingBuffer.Accepted nPages) (before : Run ReportedStep s₀ ls x₀.driver)
    (init : s₀.Initial) (hclock : ∀ n, 0 ≤ s₀.clock n ∧ s₀.clock n < 2 ^ 63)
    (hmono : ∀ i j, i ≤ j → s₀.clock i ≤ s₀.clock j) (opens : x₀.Opens b nPages data)
    (run : Run (System.Reports b) x₀ actions x)
    (once : ((ls ++ actions.filterMap Action.label?).filterMap Label.opens?).count b ≤ 1)
    (hlast : x.pending = [.release]) (hone : x.channel.rb.active = 1)
    (hroom : 4 ≤ x.channel.rb.rbSpace.toNat) :
    ∃ reader rb, Reader.Steps (x.channel.reader, x.channel.rb.smonReleaseRb) (reader, rb) ∧
      reader.pc = .done 0 ∧ ((x.driver.rbs b).records = [] ∨ ∃ home info,
        Run (HomedStep home) s₀ (ls ++ actions.filterMap Action.label?) x.driver ∧
        (x.driver.rbs b).records.filterMap Sample.info? = [info] ∧
        ParseProf.duration (outFile reader.printed) = x.driver.seconds home b info) := by
  have hrunning := running_of_session hn opens (run.mono fun _ _ _ h => h.1)
  obtain ⟨reader, rb, hsteps, hdone, hfile⟩ := hrunning.steps_done hlast hone hroom
  -- the last writer is gone in the driver
  have hended : (x.driver.rbs b).active = 0 := by
    obtain ⟨gets, sent, rs, releases, h⟩ := hrunning.underway
    have hactive := h.active
    rcases traffic_eq_cons (hlast.symm.trans h.pending) with ⟨n, he, -⟩ | ⟨r, rs', he, -⟩ |
      ⟨n, -, rfl, -, rfl, hes⟩
    · cases he
    · cases he
    · cases n with
      | zero =>
        rw [hone] at hactive
        omega
      | succ n => cases hes
  exact ⟨reader, rb, hsteps, hdone,
    reported_of_lines (driver_of_session run before) init hclock hmono once hended hfile⟩

end Reports

/-- The brief session, with the kernel in order. -/
theorem reports_brief : Run (System.Reports 0) briefStart briefActions briefEnd :=
  run_brief True
    ⟨⟨⟨⟨trivial, rfl⟩, ⟨rfl, by rintro _ _ ⟨⟩; exact ⟨by decide, rfl⟩⟩, .of_irqs rfl _, trivial⟩,
      .of_irqs rfl _⟩, .of_ne (by simp)⟩
    ⟨⟨⟨⟨trivial, rfl⟩, ⟨rfl, fun me next heq => (by cases heq)⟩, .of_irqs rfl _, trivial⟩,
      .of_irqs rfl _⟩, .of_ne (by simp)⟩

theorem reported_of_session_stat : Run (System.Reports 0) briefStart briefActions briefEnd ∧
    (briefEnd.driver.rbs 0).records.map Sample.type = [.info, .pmc] ∧
    timeOf (briefEnd.driver.rbs 0).pmcs = 1 ∧ ∃ reader rb,
      Reader.Steps (briefEnd.channel.reader, briefEnd.channel.rb.smonReleaseRb) (reader, rb) ∧
      reader.pc = .done 0 ∧ ((briefEnd.driver.rbs 0).records = [] ∨ ∃ home info,
        Run (HomedStep home) bootBounded
          [.register 0 1 counting 0 ⟨true, true, true⟩, .switch 0 1, .exit 1] briefEnd.driver ∧
        (briefEnd.driver.rbs 0).records.filterMap Sample.info? = [info] ∧
        ParseProf.duration (outFile reader.printed) = briefEnd.driver.seconds home 0 info) := by
  have init : bootBounded.Initial := by
    have h := initial_boot [] [fixedOnly]
    exact { h with }
  have hregister : ReportedStep bootBounded (.register 0 1 counting 0 ⟨true, true, true⟩)
      briefStart.driver :=
    ⟨⟨⟨⟨trivial, rfl⟩, ⟨trivial, fun me next heq => (by cases heq)⟩, .of_no_hook rfl,
      fun t task h => (by cases h)⟩, .of_irqs rfl _⟩,
      fun _ _ _ _ _ heq _ => .inr (by cases heq; decide)⟩
  have hclock : ∀ n, 0 ≤ bootBounded.clock n ∧ bootBounded.clock n < 2 ^ 63 := fun n => by
    change 0 ≤ ((min n 999 : ℕ) : ℤ) + 1 ∧ ((min n 999 : ℕ) : ℤ) + 1 < 2 ^ 63
    omega
  have hmono : ∀ i j, i ≤ j → bootBounded.clock i ≤ bootBounded.clock j := fun i j hij => by
    change ((min i 999 : ℕ) : ℤ) + 1 ≤ ((min j 999 : ℕ) : ℤ) + 1
    omega
  exact ⟨reports_brief, rfl, rfl, reported_of_session ⟨by decide, ⟨1, by decide⟩, by decide⟩
    (.single hregister) init hclock hmono opens_brief reports_brief (by decide) rfl rfl (by decide)⟩

end SchedMon
