import SchedMon.Channel.Drain
import SchedMon.RingBuffer.Client

/-!
# The exit protocol under interleaving

When the last monitored task exits, its CPU saves a PMC sample, decrements the count of writers,
writes the EOF, queues the wake-up, and cancels the RAPL timer, one after the other. Until the
cancellation the RAPL timer may fire on another CPU, and the reader may poll or read between any
two of these steps. Records are assumed to have room.

The order leaves two windows. Between the decrement and the EOF a poll that finds something unread
reports `POLLHUP`, and there is no EOF yet to stop at. Between the EOF and the cancellation the timer
may write a record behind the EOF. Runs that stay out of both windows, and only those, are as they
should be.

## Main results

* `Ended.read` — once written, the EOF stays unread
* `correct_iff_inOrder` — which runs are correct
-/

namespace SchedMon

open RingBuffer

/-- Where the exiting CPU is in `smon_sched_process_exit`. -/
inductive ExitPc where
  | save | dec | eof | irq | cancel | done
  deriving DecidableEq

/-- The channel, the exiting CPU, and whether the RAPL timer is armed. -/
structure Exiting where
  chan : Channel
  exit : ExitPc
  rapl : Bool

namespace Channel

variable {s : Channel} {t u h : ℕ} {fin rest : List Entry}

/-! ### The reader once an EOF is there -/

/-- Where the cursor is once an EOF is written, by the reader's position in the code. -/
def EndedPc (s : Channel) (t u : ℕ) (rest : List Entry) : Prop :=
  match s.reader.pc with
  | .payload ty addr _ _ _ => s.reader.user.Follows s.rb t (u + headerSize) ∧
      ∃ r es, rest = .record r :: es ∧ ty = r.type ∧ addr = u % s.rb.size.toNat + headerSize
  | .done _ => True
  | _ => s.reader.user.Follows s.rb t u

/-- The unread entries are `fin`, which the read in progress has consumed, `rest`, and an EOF. -/
structure Ended (s : Channel) (t u h : ℕ) (fin rest : List Entry) : Prop where
  win : At s.rb t h
  laidFin : Laid s.rb.vbyte t fin u
  laidRest : Laid s.rb.vbyte u (rest ++ [.record .eof]) h
  sample : ∀ r ∈ records rest, r.type ≠ .eof
  pc : EndedPc s t u rest

theorem EndedPc.congr (p : EndedPc s t u rest) {rb : RingBuffer} (acc : List Record)
    (hn : rb.nPages = s.rb.nPages) (hs : rb.size = s.rb.size) :
    EndedPc { s with rb := rb, accepted := acc } t u rest := by
  unfold EndedPc at p ⊢
  dsimp only
  split <;> rename_i hpc <;> simp only [hpc] at p
  · obtain ⟨f, r, es, hrest, hty, haddr⟩ := p
    exact ⟨f.congr hn hs, r, es, hrest, hty, by rw [hs]; exact haddr⟩
  · trivial
  · exact p.congr hn hs

/-- The EOF changes nothing for the cursor. -/
theorem PcInv.endedPc (p : PcInv s t u fin rest) : EndedPc s t u rest := by
  unfold PcInv at p
  unfold EndedPc
  split at p <;> rename_i hpc <;> simp only [hpc]
  · exact p.2
  · exact p.2.2.2.2
  · exact p.2.2.2.2
  · exact p.2.2

/-- Writing the EOF. -/
theorem Inv.ended (i : Inv s t u h fin rest) (hspace : 4 ≤ s.rb.rbSpace.toNat)
    (acc : List Record) :
    Ended { s with rb := s.rb.smonRbWriteEof.rb, accepted := acc } t u (h + 4) fin rest := by
  obtain ⟨win, laidFin, laidRest, -, hpages, hsize⟩ := i.eofWritten hspace
  exact ⟨win, laidFin, laidRest, i.sample, i.pc.endedPc.congr acc hpages hsize⟩

/-- Once written, the EOF stays unread: the reader's cursor stops in front of it. -/
theorem Ended.read (e : Ended s t u h fin rest) :
    ∃ t' u' fin' rest', Ended (s.next .read) t' u' h fin' rest' := by
  have p := e.pc
  have hle := e.laidFin.le
  have hle' := e.laidRest.le
  unfold EndedPc at p
  cases hpc : s.reader.pc with
  | poll =>
    simp only [hpc] at p
    refine ⟨t, u, fin, rest, ?_⟩
    simp only [next, Reader.step, hpc]
    split
    · exact ⟨e.win, e.laidFin, e.laidRest, e.sample, p⟩
    · exact ⟨e.win, e.laidFin, e.laidRest, e.sample, p⟩
    · exact ⟨e.win, e.laidFin, e.laidRest, e.sample, by simpa only [EndedPc, hpc] using p⟩
  | loop n nr last =>
    simp only [hpc] at p
    rcases lt_or_ge n nr with hlt | hge
    · have hnext : s.next .read = { s with reader := s.reader.loopBody s.rb n nr last } := by
        simp only [next, Reader.step, hpc, if_pos hlt]
      rw [hnext]
      cases rest with
      | nil =>
        rw [Reader.loopBody_eof n nr last e.win p e.laidRest rfl]
        exact ⟨t, u, fin, [], e.win, e.laidFin, e.laidRest, e.sample, p⟩
      | cons entry rest =>
        cases entry with
        | pad =>
          obtain ⟨hbody, f⟩ := Reader.loopBody_pad n nr last e.win hle p e.laidRest
          rw [hbody]
          cases e.laidRest with
          | pad hfit hbytes hrest =>
            refine ⟨t, nextPage u, fin ++ [.pad], rest, e.win,
              e.laidFin.append (.pad hfit hbytes (.nil _)), hrest, e.sample, ?_⟩
            simpa only [EndedPc, hpc] using f
        | record r =>
          have hne : r.type ≠ .eof := e.sample r (by simp [records])
          obtain ⟨user, hbody, f⟩ :=
            Reader.loopBody_record n nr last e.win hle p e.laidRest hne
          rw [hbody]
          exact ⟨t, u, fin, .record r :: rest, e.win, e.laidFin, e.laidRest, e.sample,
            f, r, rest, rfl, rfl, rfl⟩
    · have hnext : s.next .read = { s with reader := { s.reader with pc := .flush n last } } := by
        simp only [next, Reader.step, hpc, if_neg (not_lt.mpr hge)]
      rw [hnext]
      exact ⟨t, u, fin, rest, e.win, e.laidFin, e.laidRest, e.sample, p⟩
  | payload ty addr n nr last =>
    simp only [hpc] at p
    obtain ⟨f, r, es, rfl, rfl, rfl⟩ := p
    obtain ⟨user, hstep, f'⟩ := Reader.step_payload e.win hle f e.laidRest hpc
    simp only [next, hstep]
    cases e.laidRest with
    | record r hw hfit hbytes hrest =>
      exact ⟨t, u + r.type.totalSize, fin ++ [.record r], es, e.win,
        e.laidFin.append (.record r hw hfit hbytes (.nil _)), hrest,
        fun r' hr' => e.sample r' (List.mem_cons_of_mem _ hr'), f'⟩
  | flush n last =>
    simp only [hpc] at p
    have hcons : s.reader.user.smonRbFlush.2.toNat = u - t := p.consumed_eq
    have win := e.win.smonRbRead (BitVec.ofInt 32 n) s.reader.user.smonRbFlush.2
    rw [hcons, if_neg (by omega), show t + (u - t) = u by omega] at win
    simp only [next, Reader.step, hpc]
    refine ⟨u, u, [], rest, win, .nil u, e.laidRest, e.sample, ?_⟩
    cases last with
    | true => trivial
    | false => exact p.smonRbFlush.congr rfl rfl
  | done ret =>
    refine ⟨t, u, fin, rest, ?_⟩
    simp only [next, Reader.step, hpc]
    exact ⟨e.win, e.laidFin, e.laidRest, e.sample, by simp only [EndedPc, hpc]⟩

/-- An EOF is in the unread region. -/
def EofUnread (rb : RingBuffer) : Prop := ∃ recs, rb.decodeUnread = some recs ∧ Record.eof ∈ recs

theorem Ended.eofUnread (e : Ended s t u h fin rest) : EofUnread s.rb :=
  ⟨_, e.win.decodeUnread (e.laidFin.append e.laidRest), by simp [records]⟩

theorem Inv.not_eofUnread (i : Inv s t u h fin rest) (h : Record.eof ∉ s.accepted) :
    ¬EofUnread s.rb := by
  rintro ⟨recs, hrecs, hmem⟩
  rw [i.win.decodeUnread i.laid, Option.some_inj] at hrecs
  obtain ⟨before, -, haccepted⟩ := i.log
  rw [haccepted, hrecs] at h
  exact h (List.mem_append_right _ hmem)

end Channel

namespace Exiting

open Channel

/-- What can happen: the steps of the exiting CPU, the RAPL timer, and the reader. -/
inductive Event where
  | save (r : Record)
  | dec
  | eof
  | irq
  | cancel
  | rapl (r : Record)
  | read

/-- The state after an event. -/
def next (s : Exiting) : Event → Exiting
  | .save r => { s with chan := s.chan.next (.write r), exit := .dec }
  | .dec =>
    let rb := { s.chan.rb with active := s.chan.rb.active - 1 }
    { s with chan := { s.chan with rb := rb }, exit := if rb.active = 0 then .eof else .cancel }
  | .eof => { s with chan := s.chan.next (.write .eof), exit := .irq }
  | .irq => { s with chan := { s.chan with rb := { s.chan.rb with irq := true } }, exit := .cancel }
  | .cancel => { s with rapl := false, exit := .done }
  | .rapl r => { s with chan := s.chan.next (.write r) }
  | .read => { s with chan := s.chan.next .read }

/-- There is room for the record, and for the rest of the page if it has to be skipped. -/
def Room (rb : RingBuffer) (r : Record) : Prop :=
  r.type.totalSize + rb.skipped r ≤ rb.rbSpace.toNat

instance (rb : RingBuffer) (r : Record) : Decidable (Room rb r) :=
  inferInstanceAs (Decidable (_ ≤ _))

/-- When an event may happen. -/
def Enabled (s : Exiting) : Event → Prop
  | .save r => s.exit = .save ∧ r.type = .pmc ∧ Room s.chan.rb r
  | .dec => s.exit = .dec
  | .eof => s.exit = .eof ∧ Room s.chan.rb .eof
  | .irq => s.exit = .irq
  | .cancel => s.exit = .cancel
  | .rapl r => s.rapl = true ∧ r.type = .rapl ∧ Room s.chan.rb r
  | .read => True

/-- The steps of the system. -/
def Step (s : Exiting) (e : Event) (s' : Exiting) : Prop := s' = s.next e ∧ s.Enabled e

/-- Run without interruption, the decrement, the EOF and the wake-up are `smon_release_rb`. -/
theorem release_steps (s : Exiting) (hactive : s.chan.rb.active = 1) :
    (((s.next .dec).next .eof).next .irq).chan.rb = s.chan.rb.smonReleaseRb := by
  rw [smonReleaseRb_last hactive]
  simp only [next, hactive]
  rfl

/-! ### What is wanted, and the two windows -/

/-- No record is behind an EOF. -/
def NothingAfterEof (accepted : List Record) : Prop :=
  ∀ before after, accepted = before ++ Record.eof :: after → after = []

/-- What a step must respect: a poll reports `POLLHUP` only when there is an EOF to stop at, and
nothing is written behind an EOF. -/
def Correct (s : Exiting) (e : Event) (s' : Exiting) : Prop :=
  (e = .read → s.chan.reader.pc = .poll → s.chan.rb.smonPoll = .pollhup → EofUnread s.chan.rb) ∧
    NothingAfterEof s'.chan.accepted

/-- The step stays out of both windows: no poll that finds something between the decrement and the
EOF, no RAPL timer between the EOF and the cancellation. -/
def InOrder (s : Exiting) : Event → Prop
  | .read => s.exit = .eof → s.chan.reader.pc = .poll →
      s.chan.rb.smonRbBatchAvailable = false ∧ s.chan.rb.smonRbIsEmpty = true
  | .rapl _ => s.exit ≠ .irq ∧ s.exit ≠ .cancel
  | _ => True

/-! ### The two phases -/

/-- Before the EOF. -/
structure Running (s : Exiting) : Prop where
  exit : s.exit = .save ∨ s.exit = .dec ∨ s.exit = .eof
  active : s.chan.rb.active = if s.exit = .eof then 0 else 1
  batch : s.chan.reader.batch = s.chan.rb.batch
  accepted : Record.eof ∉ s.chan.accepted
  inv : ∃ t u h fin rest, s.chan.Inv t u h fin rest

/-- Behind the EOF. -/
structure Finished (s : Exiting) : Prop where
  exit : s.exit = .irq ∨ s.exit = .cancel ∨ s.exit = .done
  rapl : s.exit = .done → s.rapl = false
  accepted : ∃ before, s.chan.accepted = before ++ [Record.eof] ∧ Record.eof ∉ before
  ended : ∃ t u h fin rest, s.chan.Ended t u h fin rest

variable {s s' : Exiting} {e : Event} {r : Record}

theorem nothingAfterEof_of_not_mem {acc : List Record} (h : Record.eof ∉ acc) :
    NothingAfterEof acc := by
  rintro before after rfl
  simp at h

theorem nothingAfterEof_snoc {acc : List Record} (h : Record.eof ∉ acc) :
    NothingAfterEof (acc ++ [Record.eof]) := by
  intro before after heq
  induction acc generalizing before with
  | nil =>
    cases before with
    | nil => simpa using heq.symm
    | cons b before => simp at heq
  | cons a acc ih =>
    rw [List.mem_cons, not_or] at h
    cases before with
    | nil => exact absurd (List.cons.inj heq).1.symm h.1
    | cons b before => exact ih h.2 before (List.cons.inj heq).2

theorem smonPoll_eq_pollhup_iff {rb : RingBuffer} :
    rb.smonPoll = .pollhup ↔
      rb.active ≤ 0 ∧ (rb.smonRbBatchAvailable = true ∨ rb.smonRbIsEmpty = false) := by
  have hact : rb.active ≤ 0 ↔ rb.smonRbIsActive = false := by simp [smonRbIsActive]
  rw [hact, smonPoll]
  cases rb.smonRbBatchAvailable <;> cases rb.smonRbIsEmpty <;> cases rb.smonRbIsActive <;> simp

theorem accepted_write {c : Channel} {t h : ℕ} (w : At c.rb t h) (hr : r.type.writable = true)
    (hroom : Room c.rb r) : (c.next (.write r)).accepted = c.accepted ++ [r] := by
  have hacc := ((w.writeSafe r).accepted_iff hr).mpr hroom
  simp only [Channel.next, hacc, if_true]

/-- A sample is written before the EOF. -/
theorem Running.write (p : Running s) (hr : Channel.Sample r) (exit : ExitPc)
    (hexit : exit = s.exit ∨ s.exit = .save ∧ exit = .dec) :
    Running { s with chan := s.chan.next (.write r), exit := exit } := by
  obtain ⟨t, u, h, fin, rest, i⟩ := p.inv
  obtain ⟨h', rest', i'⟩ := i.write hr
  have hacc := p.accepted
  refine ⟨?_, ?_, ?_, ?_, t, u, h', fin, rest', i'⟩
  · obtain rfl | ⟨-, rfl⟩ := hexit
    · exact p.exit
    · exact .inr (.inl rfl)
  · have hactive := p.active
    simp only [Channel.next, smonRbWrite_active]
    rw [hactive]
    obtain rfl | ⟨hsave, rfl⟩ := hexit
    · rfl
    · simp [hsave]
  · simp only [Channel.next, smonRbWrite_batch]
    exact p.batch
  · simp only [Channel.next, List.mem_append, not_or]
    refine ⟨hacc, ?_⟩
    split
    · intro hmem
      exact hr.2 (by rw [← List.mem_singleton.mp hmem]; rfl)
    · exact List.not_mem_nil

/-- Writing the EOF ends the first phase. -/
theorem Running.eof (p : Running s) (hroom : Room s.chan.rb .eof) :
    Finished { s with chan := s.chan.next (.write .eof), exit := .irq } := by
  obtain ⟨t, u, h, fin, rest, i⟩ := p.inv
  have hspace : 4 ≤ s.chan.rb.rbSpace.toNat := by
    rw [Room, show Record.eof.type.totalSize = 4 from SampleType.totalSize_eof] at hroom
    omega
  exact ⟨.inl rfl, by simp, ⟨_, accepted_write i.win rfl hroom, p.accepted⟩,
    t, u, h + 4, fin, rest, i.ended hspace _⟩

/-- The reader before the EOF. -/
theorem Running.read (p : Running s)
    (hpoll : s.chan.reader.pc = .poll → s.chan.rb.smonPoll ≠ .pollhup) :
    Running { s with chan := s.chan.next .read } := by
  obtain ⟨t, u, h, fin, rest, i⟩ := p.inv
  obtain ⟨t', u', fin', rest', i'⟩ := i.read hpoll p.batch
  obtain ⟨hb, ha⟩ := reader_step_rb s.chan.reader s.chan.rb
  exact ⟨p.exit, ha.trans p.active, (reader_step_batch _ _).trans (p.batch.trans hb.symm),
    p.accepted, t', u', h, fin', rest', i'⟩

/-- In the first phase a poll reports `POLLHUP` in the first window only. -/
theorem Running.smonPoll_iff (p : Running s) :
    s.chan.rb.smonPoll = .pollhup ↔ s.exit = .eof ∧
      ¬(s.chan.rb.smonRbBatchAvailable = false ∧ s.chan.rb.smonRbIsEmpty = true) := by
  have hactive : s.chan.rb.active ≤ 0 ↔ s.exit = .eof := by
    rw [p.active]
    split <;> simp_all
  rw [smonPoll_eq_pollhup_iff, hactive, not_and_or, Bool.not_eq_false, Bool.not_eq_true]

/-- **Step lemma.** In either phase a step that stays out of the windows leads to one of the two
phases. -/
theorem phase_step (p : Running s ∨ Finished s) (hstep : Step s e s') (ho : s.InOrder e) :
    Running s' ∨ Finished s' := by
  obtain ⟨rfl, he⟩ := hstep
  rcases p with p | p
  · cases e with
    | save r =>
      obtain ⟨hexit, hty, -⟩ := he
      exact .inl (p.write ⟨by simp [hty], by simp [hty]⟩ .dec (.inr ⟨hexit, rfl⟩))
    | rapl r =>
      obtain ⟨-, hty, -⟩ := he
      exact .inl (p.write ⟨by simp [hty], by simp [hty]⟩ s.exit (.inl rfl))
    | dec =>
      have hexit : s.exit = .dec := he
      have hone : s.chan.rb.active = 1 := by rw [p.active, hexit]; rfl
      obtain ⟨t, u, h, fin, rest, i⟩ := p.inv
      refine .inl ⟨.inr (.inr ?_), ?_, p.batch, p.accepted, t, u, h, fin, rest, i.active _⟩
      · simp [next, hone]
      · simp [next, hone]
    | eof => exact .inr (p.eof he.2)
    | irq =>
      have hexit : s.exit = .irq := he
      have := p.exit
      simp [hexit] at this
    | cancel =>
      have hexit : s.exit = .cancel := he
      have := p.exit
      simp [hexit] at this
    | read =>
      refine .inl (p.read fun hpc hhup => ?_)
      obtain ⟨hexit, hsome⟩ := p.smonPoll_iff.mp hhup
      exact hsome (ho hexit hpc)
  · have hphase := p.exit
    cases e with
    | save r =>
      have hexit : s.exit = .save := he.1
      simp [hexit] at hphase
    | rapl r =>
      obtain ⟨harmed, -, -⟩ := he
      obtain ⟨hirq, hcancel⟩ : s.exit ≠ .irq ∧ s.exit ≠ .cancel := ho
      rcases hphase with hexit | hexit | hexit
      · exact absurd hexit hirq
      · exact absurd hexit hcancel
      · rw [p.rapl hexit] at harmed
        cases harmed
    | dec =>
      have hexit : s.exit = .dec := he
      simp [hexit] at hphase
    | eof =>
      have hexit : s.exit = .eof := he.1
      simp [hexit] at hphase
    | irq =>
      obtain ⟨t, u, h, fin, rest, e⟩ := p.ended
      exact .inr ⟨.inr (.inl rfl), by simp [next], p.accepted, t, u, h, fin, rest,
        ⟨⟨e.win.pages, e.win.size_eq⟩, e.win.tail_eq, e.win.head_eq, e.win.le, e.win.lt, e.win.dvd⟩,
        e.laidFin, e.laidRest, e.sample, e.pc.congr _ rfl rfl⟩
    | cancel => exact .inr ⟨.inr (.inr rfl), fun _ => rfl, p.accepted, p.ended⟩
    | read =>
      obtain ⟨t, u, h, fin, rest, e⟩ := p.ended
      obtain ⟨t', u', fin', rest', e'⟩ := e.read
      exact .inr ⟨p.exit, p.rapl, p.accepted, t', u', h, fin', rest', e'⟩

/-- In either phase the steps that stay out of the windows are the correct ones. -/
theorem correct_iff (p : Running s ∨ Finished s) (hstep : Step s e s') :
    s.Correct e s' ↔ s.InOrder e := by
  obtain ⟨rfl, he⟩ := hstep
  rcases p with p | p
  · -- before the EOF only a poll can go wrong
    cases e with
    | read =>
      obtain ⟨t, u, h, fin, rest, i⟩ := p.inv
      have hnot := i.not_eofUnread p.accepted
      constructor
      · rintro ⟨hpoll, -⟩ hexit hpc
        by_contra hsome
        exact hnot (hpoll rfl hpc (p.smonPoll_iff.mpr ⟨hexit, hsome⟩))
      · intro ho
        refine ⟨fun _ hpc hhup => ?_, nothingAfterEof_of_not_mem p.accepted⟩
        obtain ⟨hexit, hsome⟩ := p.smonPoll_iff.mp hhup
        exact absurd (ho hexit hpc) hsome
    | rapl r =>
      have hpos := p.exit
      have ho : s.InOrder (.rapl r) := by
        constructor <;> (intro hexit; simp [hexit] at hpos)
      have p' := p.write (r := r) ⟨by simp [he.2.1], by simp [he.2.1]⟩ s.exit (.inl rfl)
      exact ⟨fun _ => ho, fun _ => ⟨by simp, nothingAfterEof_of_not_mem p'.accepted⟩⟩
    | save r =>
      have p' := p.write (r := r) ⟨by simp [he.2.1], by simp [he.2.1]⟩ .dec (.inr ⟨he.1, rfl⟩)
      exact ⟨fun _ => trivial, fun _ => ⟨by simp, nothingAfterEof_of_not_mem p'.accepted⟩⟩
    | eof =>
      obtain ⟨before, hacc, hmem⟩ := (p.eof he.2).accepted
      refine ⟨fun _ => trivial, fun _ => ⟨by simp, ?_⟩⟩
      change NothingAfterEof (s.chan.next (.write .eof)).accepted
      rw [show (s.chan.next (.write .eof)).accepted = before ++ [Record.eof] from hacc]
      exact nothingAfterEof_snoc hmem
    | dec => exact ⟨fun _ => trivial, fun _ => ⟨by simp, nothingAfterEof_of_not_mem p.accepted⟩⟩
    | irq => exact ⟨fun _ => trivial, fun _ => ⟨by simp, nothingAfterEof_of_not_mem p.accepted⟩⟩
    | cancel => exact ⟨fun _ => trivial, fun _ => ⟨by simp, nothingAfterEof_of_not_mem p.accepted⟩⟩
  · -- behind the EOF only the timer can
    obtain ⟨t, u, h, fin, rest, ended⟩ := p.ended
    obtain ⟨before, hacc, hmem⟩ := p.accepted
    have hlog : NothingAfterEof s.chan.accepted := by
      rw [hacc]
      exact nothingAfterEof_snoc hmem
    cases e with
    | read =>
      refine ⟨fun _ hexit => ?_, fun _ => ⟨fun _ _ _ => ended.eofUnread, hlog⟩⟩
      have hphase := p.exit
      simp [hexit] at hphase
    | rapl r =>
      obtain ⟨harmed, hty, hroom⟩ := he
      have hacc' := accepted_write ended.win (by rw [hty]; rfl) hroom
      rw [hacc] at hacc'
      constructor
      · rintro ⟨-, hlog'⟩
        have := hlog' before [r] (by
          change (s.chan.next (.write r)).accepted = _
          rw [hacc']
          simp)
        cases this
      · rintro ⟨hirq, hcancel⟩
        rcases p.exit with hexit | hexit | hexit
        · exact absurd hexit hirq
        · exact absurd hexit hcancel
        · rw [p.rapl hexit] at harmed
          cases harmed
    | save r =>
      have hphase := p.exit
      simp [he.1] at hphase
    | eof =>
      have hphase := p.exit
      simp [he.1] at hphase
    | dec => exact ⟨fun _ => trivial, fun _ => ⟨by simp, hlog⟩⟩
    | irq => exact ⟨fun _ => trivial, fun _ => ⟨by simp, hlog⟩⟩
    | cancel => exact ⟨fun _ => trivial, fun _ => ⟨by simp, hlog⟩⟩

/-! ### Which runs are correct -/

/-- Everything a running session accepts is a sample. -/
theorem sample_of_mem_accepted {nPages batch : U32} {active : ℤ} {data : ℕ → ℕ → Byte}
    {es : List Channel.Event} {c : Channel}
    (run : Run Channel.Step (Channel.start nPages data batch active) es c) :
    ∀ r ∈ c.accepted, Channel.Sample r := by
  refine run.invariant (motive := fun c => ∀ r ∈ c.accepted, Channel.Sample r) (by simp [Channel.start]) ?_
  rintro c e c' hc ⟨rfl, he⟩ r hr
  cases e with
  | write r' =>
    simp only [Channel.next, List.mem_append] at hr
    rcases hr with hr | hr
    · exact hc r hr
    · split at hr
      · rw [List.mem_singleton.mp hr]
        exact he
      · cases hr
  | read => exact hc r hr
  | get => exact hc r hr
  | release => exact hc r hr

/-- The exit of the last monitored task begins in any state of a session with one writer left. -/
theorem running_start {nPages batch : U32} {active : ℤ} {data : ℕ → ℕ → Byte}
    {es : List Channel.Event} {c : Channel} (hn : Accepted nPages) (hstart : 0 < active)
    (run : Run Channel.Step (Channel.start nPages data batch active) es c)
    (hactive : c.rb.active = 1) (rapl : Bool) : Running ⟨c, .save, rapl⟩ := by
  obtain ⟨session, inv⟩ := exists_inv hn hstart run
  exact ⟨.inl rfl, by simpa using hactive, session.batch,
    fun hmem => (sample_of_mem_accepted run _ hmem).2 rfl, inv⟩

/-- **The exit protocol.** Whatever the session did before: an interleaving of the exit with the
RAPL timer and the reader is correct at every step exactly when no step falls into one of the two
windows. -/
theorem correct_iff_inOrder {nPages batch : U32} {active : ℤ} {data : ℕ → ℕ → Byte}
    {es : List Channel.Event} {c : Channel} (hn : Accepted nPages) (hstart : 0 < active)
    (session : Run Channel.Step (Channel.start nPages data batch active) es c)
    (hactive : c.rb.active = 1) (rapl : Bool) (ls : List Event) (s : Exiting) :
    Run (fun s e s' => Step s e s' ∧ s.Correct e s') ⟨c, .save, rapl⟩ ls s ↔
      Run (fun s e s' => Step s e s' ∧ s.InOrder e) ⟨c, .save, rapl⟩ ls s :=
  Run.restrict_iff (fun s => Running s ∨ Finished s)
    (.inl (running_start hn hstart session hactive rapl))
    (fun _ _ _ p hstep ho => phase_step p hstep ho)
    (fun _ _ _ p hstep => correct_iff p hstep)

/-- The exit has saved its sample and given up its count; the reader is about to poll. -/
def earlyPoll : Exiting :=
  ((Exiting.mk (Channel.start 2 (fun _ _ => 0) 1 1) .save true).next
    (.save (Channel.blank .pmc))).next .dec

/-- A session in which nothing has happened yet. -/
theorem noEvents (c : Channel) : Run Channel.Step c [] c := .nil

theorem correct_iff_inOrder_earlyPoll :
    Run (fun s e s' => Step s e s' ∧ s.Correct e s')
        ⟨Channel.start 2 (fun _ _ => 0) 1 1, .save, true⟩
        [.save (Channel.blank .pmc), .dec, .read] (earlyPoll.next .read) ↔
      Run (fun s e s' => Step s e s' ∧ s.InOrder e)
        ⟨Channel.start 2 (fun _ _ => 0) 1 1, .save, true⟩
        [.save (Channel.blank .pmc), .dec, .read] (earlyPoll.next .read) :=
  correct_iff_inOrder ⟨by decide, ⟨1, by decide⟩, by decide⟩ (by decide) (noEvents _)
    rfl true _ _

/-- A poll in the first window finds the saved sample, reports `POLLHUP`, and there is no EOF. -/
theorem not_correct_earlyPoll :
    ¬∀ (nPages batch : U32) (active : ℤ) (data : ℕ → ℕ → Byte) (es : List Channel.Event)
      (c : Channel) (rapl : Bool) (ls : List Event) (s : Exiting) (e : Event) (s' : Exiting),
      Accepted nPages → 0 < active →
      Run Channel.Step (Channel.start nPages data batch active) es c → c.rb.active = 1 →
      Run Step ⟨c, .save, rapl⟩ ls s → Step s e s' → s.Correct e s' := by
  intro hall
  have hn : Accepted 2 := ⟨by decide, ⟨1, by decide⟩, by decide⟩
  have hsave : Step ⟨Channel.start 2 (fun _ _ => 0) 1 1, .save, true⟩
      (.save (Channel.blank .pmc)) _ := ⟨rfl, rfl, rfl, by decide⟩
  have hdec : Step _ .dec earlyPoll := ⟨rfl, rfl⟩
  have p := phase_step (.inl (running_start hn (by decide) (noEvents _) rfl true)) hsave trivial
  have hread : Step earlyPoll .read (earlyPoll.next .read) := ⟨rfl, trivial⟩
  have hcorrect := hall 2 1 1 (fun _ _ => 0) [] _ true _ _ _ _ hn (by decide) (noEvents _) rfl
    ((Run.single hsave).snoc hdec) hread
  obtain ⟨havail, -⟩ := (correct_iff (phase_step p hdec trivial) hread).mp hcorrect rfl rfl
  revert havail
  decide

end Exiting

end SchedMon
