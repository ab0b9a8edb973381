import SchedMon.Channel.Drain
import SchedMon.RingBuffer.Client

/-!
# Waking up the reader

A reader that `smon_poll` has told nothing goes to sleep until a wake-up is delivered. Writers queue
the wake-up when a batch is complete, and the last `smon_release_rb` queues it behind its EOF. What
`smon_poll` looks at changes in other places as well: the count of writers is decremented outside the
lock, and reads take records away.

Every change that gives the reader something to do comes with a wake-up, but for one: a record
that is written when there are no writers left, into an empty buffer, and that does not complete a
batch. It makes `smon_poll` report `POLLHUP`, and nobody tells the reader. The RAPL timer can write
such a record, between the last `smon_release_rb` and its own cancellation.

## Main results

* `noLostWakeUp_next` — the step lemma
* `noLostWakeUp_iff_inTime` — **in which runs no wake-up is lost**
* `not_noLostWakeUp_tight` — a run that loses one
-/

namespace SchedMon

open RingBuffer

/-- The buffer, the reader that may be asleep since its last poll, and the calls of
`smon_release_rb` that have taken the count of writers to zero: those that are about to write the EOF,
and those that are about to queue the wake-up. -/
structure Waking where
  rb : RingBuffer
  /-- The last `smon_poll` returned no mask. -/
  asleep : Bool
  /-- A wake-up was delivered since. -/
  woken : Bool
  eofs : ℕ
  queues : ℕ

namespace Waking

/-- What can happen. `dec`, `eof` and `queue` are the steps of `smon_release_rb`. -/
inductive Event where
  | write (r : Record)
  | get
  | dec
  | eof
  | queue
  | deliver
  | read (items sz : U32)
  | poll

/-- The state after an event. -/
def next (s : Waking) : Event → Waking
  | .write r => { s with rb := (s.rb.smonRbWrite r).rb }
  | .get => { s with rb := s.rb.smonGetRb }
  | .dec =>
    let rb := { s.rb with active := s.rb.active - 1 }
    { s with rb := rb, eofs := if rb.active = 0 then s.eofs + 1 else s.eofs }
  | .eof => { s with rb := s.rb.smonRbWriteEof.rb, eofs := s.eofs - 1, queues := s.queues + 1 }
  | .queue => { s with rb := { s.rb with irq := true }, queues := s.queues - 1 }
  | .deliver => { s with rb := { s.rb with irq := false }, woken := true }
  | .read items sz => { s with rb := s.rb.smonRbRead items sz }
  | .poll => { s with asleep := decide (s.rb.smonPoll = .none), woken := false }

/-- When an event may happen. -/
def Enabled (s : Waking) : Event → Prop
  | .eof => 0 < s.eofs
  | .queue => 0 < s.queues
  | .deliver => s.rb.irq = true
  | _ => True

/-- The steps of the system. -/
def Step (s : Waking) (e : Event) (s' : Waking) : Prop := s' = s.next e ∧ s.Enabled e

/-- A session begins with a fresh buffer, a batch size, some writers, and a reader that is awake. -/
def start (nPages : U32) (data : ℕ → ℕ → Byte) (batch : U32) (active : ℤ) : Waking where
  rb := (Channel.start nPages data batch active).rb
  asleep := false
  woken := false
  eofs := 0
  queues := 0

variable {s s' : Waking} {e : Event} {r : Record} {t h : ℕ}

/-- Run without interruption, the three steps are `smon_release_rb`. -/
theorem release_steps (s : Waking) (hactive : s.rb.active = 1) :
    (((s.next .dec).next .eof).next .queue).rb = s.rb.smonReleaseRb := by
  simp only [next, smonReleaseRb, hactive]
  rfl

/-- A wake-up is on its way, or has come. -/
def Roused (s : Waking) : Prop :=
  s.rb.irq = true ∨ s.woken = true ∨ 0 < s.eofs ∨ 0 < s.queues

/-- A reader that sleeps while there is something to do for it is roused. -/
def NoLostWakeUp (s : Waking) : Prop := s.asleep = true → s.rb.smonPoll ≠ .none → s.Roused

/-- The event does not write a record that comes too late: when the reader sleeps and is not roused,
the writers are gone, and the record does not complete a batch. -/
def InTime (s : Waking) : Event → Prop
  | .write r => r.type.writable = true → s.asleep = true → ¬ s.Roused → s.rb.active ≤ 0 →
      s.rb.batch ≤ s.rb.items + 1
  | _ => True

/-! ### The mask -/

/-- There is nothing to do: the batch is not complete, and the buffer is empty if the writers are
gone. -/
theorem smonPoll_eq_none_iff {rb : RingBuffer} (w : At rb t h) : rb.smonPoll = .none ↔
    rb.items < rb.batch ∧ (rb.active ≤ 0 → h = t) := by
  have havail : rb.smonRbBatchAvailable = false ↔ rb.items < rb.batch := by
    simp [smonRbBatchAvailable]
  have hactive : rb.smonRbIsActive = false ↔ rb.active ≤ 0 := by simp [smonRbIsActive]
  have hempty : rb.smonRbIsEmpty = true ↔ h = t := by
    have hle := w.le
    have hcount := w.toNat_rbCount
    rw [smonRbIsEmpty, decide_eq_true_iff, ← BitVec.toNat_inj, hcount]
    have hzero : (0 : U32).toNat = 0 := rfl
    omega
  rw [← havail, ← hactive, ← hempty, smonPoll]
  cases rb.smonRbBatchAvailable <;> cases rb.smonRbIsEmpty <;> cases rb.smonRbIsActive <;> simp

/-- An empty buffer has room for any record. -/
theorem smonRbWrite_empty {rb : RingBuffer} (w : At rb t t) (hr : r.type.writable = true) :
    ∃ h', t < h' ∧ At (rb.smonRbWrite r).rb t h' ∧ (rb.smonRbWrite r).rb.items = rb.items + 1 ∧
      (rb.smonRbWrite r).rb.irq = (rb.irq || decide (rb.batch ≤ rb.items + 1)) := by
  have hsize := w.le_size
  have htotal := r.type.totalSize_le
  have hpos := r.type.four_le_totalSize
  have hlt := lt_nextPage t
  simp only [pageSize_eq] at hsize
  have hc := smonRbWrite_cases w hr
  generalize rb.smonRbWrite r = res at hc
  cases hc with
  | full hfull => omega
  | padded hpage _ hfull => omega
  | fits hpage hspace => exact ⟨_, by omega, w.commit hpage (by omega), rfl, rfl⟩
  | wraps hpage hspace =>
    have w' := w.smonRbStuffPage (w.stuff_room hpage (by omega))
    refine ⟨nextPage t + r.type.totalSize, by omega,
      w'.commit (totalSize_le_pageLeft_nextPage r t) ?_, rfl, rfl⟩
    rw [smonRbStuffPage_size, nextPage_eq]
    omega

/-! ### One step -/

/-- The buffer stays a ring buffer. -/
theorem exists_at_next (w : ∃ t h, At s.rb t h) (e : Event) : ∃ t h, At (s.next e).rb t h := by
  obtain ⟨t, h, w⟩ := w
  have hflags : ∀ rb : RingBuffer, At rb t h → ∀ active irq,
      At { rb with active := active, irq := irq } t h := fun rb w active irq =>
    ⟨⟨w.pages, w.size_eq⟩, w.tail_eq, w.head_eq, w.le, w.lt, w.dvd⟩
  cases e with
  | write r => exact w.applyOp (.write r)
  | eof => exact w.applyOp (.write .eof)
  | read items sz => exact w.applyOp (.read items sz)
  | get => exact ⟨t, h, hflags _ w _ _⟩
  | dec => exact ⟨t, h, hflags _ w _ _⟩
  | queue => exact ⟨t, h, hflags _ w _ _⟩
  | deliver => exact ⟨t, h, hflags _ w _ _⟩
  | poll => exact ⟨t, h, w⟩

theorem irq_smonRbWrite {rb : RingBuffer} (hirq : rb.irq = true) :
    (rb.smonRbWrite r).rb.irq = true := by
  simp only [smonRbWrite, RingBuffer.commit]
  split_ifs <;> simp [hirq]

/-- Only a poll takes a wake-up back. -/
theorem roused_next (hroused : s.Roused) (he : s.Enabled e) (hpoll : e ≠ .poll) :
    (s.next e).Roused := by
  unfold Roused at hroused ⊢
  cases e with
  | poll => exact absurd rfl hpoll
  | write r => exact hroused.imp_left irq_smonRbWrite
  | get => exact hroused
  | read items sz => exact hroused
  | queue => exact .inl rfl
  | deliver => exact .inr (.inl rfl)
  | eof => exact .inr (.inr (.inr (Nat.succ_pos _)))
  | dec =>
    refine hroused.imp_right (Or.imp_right (Or.imp_left fun heofs => ?_))
    simp only [next]
    split
    · exact Nat.succ_pos _
    · exact heofs

/-- Nothing but a late write gives a sleeping reader something to do without rousing it. -/
theorem smonPoll_next {s : Waking} (w : At s.rb t h) (hnone : s.rb.smonPoll = .none)
    (hroused : ¬ s.Roused) (he : s.Enabled e) (hwrite : ∀ r, e ≠ .write r) :
    (s.next e).Roused ∨ (s.next e).rb.smonPoll = .none := by
  obtain ⟨hitems, hempty⟩ := (smonPoll_eq_none_iff w).mp hnone
  cases e with
  | write r => exact absurd rfl (hwrite r)
  | poll => exact .inr hnone
  | eof => exact absurd (.inr (.inr (.inl he))) hroused
  | queue => exact absurd (.inr (.inr (.inr he))) hroused
  | deliver => exact absurd (.inl he) hroused
  | get =>
    right
    refine (smonPoll_eq_none_iff (t := t) (h := h) ?_).mpr ⟨hitems, fun hactive => hempty ?_⟩
    · exact ⟨⟨w.pages, w.size_eq⟩, w.tail_eq, w.head_eq, w.le, w.lt, w.dvd⟩
    · simp only [next, smonGetRb] at hactive
      omega
  | dec =>
    by_cases hzero : s.rb.active - 1 = 0
    · refine .inl (.inr (.inr (.inl ?_)))
      simp only [next, if_pos hzero]
      exact Nat.succ_pos _
    · right
      refine (smonPoll_eq_none_iff (t := t) (h := h) ?_).mpr ⟨hitems, fun hactive => hempty ?_⟩
      · exact ⟨⟨w.pages, w.size_eq⟩, w.tail_eq, w.head_eq, w.le, w.lt, w.dvd⟩
      · simp only [next] at hactive
        omega
  | read items sz =>
    right
    refine (smonPoll_eq_none_iff (w.smonRbRead items sz)).mpr ⟨?_, fun hactive => ?_⟩
    · simp only [smonRbRead]
      rw [BitVec.lt_def] at hitems ⊢
      split
      · have hzero : (0 : U32).toNat = 0 := rfl
        rw [hzero]
        omega
      · rename_i hle
        rw [BitVec.lt_def, Nat.not_lt] at hle
        rw [BitVec.toNat_sub_of_le (BitVec.le_def.mpr hle)]
        omega
    · obtain rfl := hempty hactive
      rw [Nat.sub_self]
      split
      · rfl
      · rename_i hsz
        omega

/-- A write to a sleeping reader. -/
theorem noLostWakeUp_write (w : At s.rb t h) (hsleep : s.asleep = true)
    (hnone : s.rb.smonPoll = .none) (hroused : ¬ s.Roused) :
    (s.next (.write r)).NoLostWakeUp ↔ s.InTime (.write r) := by
  obtain ⟨hitems, hempty⟩ := (smonPoll_eq_none_iff w).mp hnone
  have hirq : s.rb.irq = false := by
    simpa using fun h => hroused (.inl h)
  cases hr : r.type.writable with
  | false =>
    refine iff_of_true (fun _ hmask => ?_) fun hr' => ?_
    · simp only [next, smonRbWrite_of_not_writable hr] at hmask
      exact absurd hnone hmask
    · rw [hr] at hr'
      cases hr'
  | true =>
    by_cases hactive : s.rb.active ≤ 0
    · -- the writers are gone, and the buffer is empty
      obtain rfl := hempty hactive
      obtain ⟨h', hlt, w', hitems', hirq'⟩ := smonRbWrite_empty w hr
      have hmask : (s.next (.write r)).rb.smonPoll ≠ .none := by
        intro hmask
        have hh := ((smonPoll_eq_none_iff w').mp hmask).2
          ((smonRbWrite_active s.rb r).trans_le hactive)
        omega
      rw [hirq, Bool.false_or] at hirq'
      constructor
      · intro hno _ _ _ _
        rcases hno hsleep hmask with h | h | h | h
        · exact of_decide_eq_true (hirq'.symm.trans h)
        · exact absurd (.inr (.inl h)) hroused
        · exact absurd (.inr (.inr (.inl h))) hroused
        · exact absurd (.inr (.inr (.inr h))) hroused
      · intro hin _ _
        exact .inl (hirq'.trans (decide_eq_true (hin hr hsleep hroused hactive)))
    · refine iff_of_true (fun _ hmask => ?_) fun _ _ _ h => absurd h hactive
      obtain ⟨h', w'⟩ := (smonRbWrite_cases w hr).at w
      rcases smonRbWrite_items_irq s.rb r with ⟨hitems', -⟩ | ⟨hitems', hirq'⟩
      · refine absurd ((smonPoll_eq_none_iff w').mpr ⟨?_, fun h => ?_⟩) hmask
        · rw [hitems', smonRbWrite_batch]
          exact hitems
        · exact absurd ((smonRbWrite_active s.rb r).symm.trans_le h) hactive
      · by_cases hbatch : s.rb.batch ≤ s.rb.items + 1
        · left
          rw [hirq, decide_eq_true hbatch] at hirq'
          exact hirq'
        · refine absurd ((smonPoll_eq_none_iff w').mpr ⟨?_, fun h => ?_⟩) hmask
          · rw [hitems', smonRbWrite_batch]
            exact BitVec.not_le.mp hbatch
          · exact absurd ((smonRbWrite_active s.rb r).symm.trans_le h) hactive

/-- **Step lemma.** A step loses no wake-up exactly when it does not write a record too late. -/
theorem noLostWakeUp_next (w : ∃ t h, At s.rb t h) (hs : s.NoLostWakeUp) (he : s.Enabled e) :
    (s.next e).NoLostWakeUp ↔ s.InTime e := by
  obtain ⟨t, h, w⟩ := w
  by_cases hpoll : e = .poll
  · subst hpoll
    refine iff_of_true (fun hasleep hmask => ?_) trivial
    exact absurd (of_decide_eq_true hasleep) hmask
  by_cases hroused : s.Roused
  · refine iff_of_true (fun _ _ => roused_next hroused he hpoll) ?_
    cases e with
    | write r => exact fun _ _ hnot => absurd hroused hnot
    | _ => trivial
  have hasleep : (s.next e).asleep = s.asleep := by
    cases e with
    | poll => exact absurd rfl hpoll
    | _ => rfl
  cases hsleep : s.asleep with
  | false =>
    refine iff_of_true (fun hasleep' => ?_) ?_
    · rw [hasleep, hsleep] at hasleep'
      cases hasleep'
    · cases e with
      | write r =>
        intro _ hasleep'
        rw [hsleep] at hasleep'
        cases hasleep'
      | _ => trivial
  | true =>
    have hnone : s.rb.smonPoll = .none := by
      by_contra hmask
      exact hroused (hs hsleep hmask)
    by_cases hwrite : ∃ r, e = .write r
    · obtain ⟨r, rfl⟩ := hwrite
      exact noLostWakeUp_write w hsleep hnone hroused
    · refine iff_of_true (fun _ hmask => ?_) ?_
      · rcases smonPoll_next w hnone hroused he (fun r hr => hwrite ⟨r, hr⟩) with h | h
        · exact h
        · exact absurd h hmask
      · cases e with
        | write r => exact absurd ⟨r, rfl⟩ hwrite
        | _ => trivial

/-! ### Whole runs -/

/-- **No wake-up is lost** in any state of a run exactly when no step of the run writes a record too
late. -/
theorem noLostWakeUp_iff_inTime {nPages batch : U32} {active : ℤ} {data : ℕ → ℕ → Byte}
    (hn : Accepted nPages) (es : List Event) (s : Waking) :
    Run (fun s e s' => Step s e s' ∧ s'.NoLostWakeUp) (start nPages data batch active) es s ↔
      Run (fun s e s' => Step s e s' ∧ s.InTime e) (start nPages data batch active) es s := by
  refine Run.restrict_iff (fun s => s.NoLostWakeUp ∧ ∃ t h, At s.rb t h) ?_ ?_ ?_
  · refine ⟨fun hasleep => ?_, 0, 0, (Channel.inv_start hn data batch active).win⟩
    cases hasleep
  · rintro s e s' ⟨hs, w⟩ ⟨rfl, he⟩ hin
    exact ⟨(noLostWakeUp_next w hs he).mpr hin, exists_at_next w e⟩
  · rintro s e s' ⟨hs, w⟩ ⟨rfl, he⟩
    exact noLostWakeUp_next w hs he

theorem run_foldl (s : Waking) (es : List Event) (h : ∀ e ∈ es, e = .poll ∨ ∃ r, e = .write r) :
    Run Step s es (es.foldl next s) := by
  induction es generalizing s with
  | nil => exact .nil
  | cons e es ih =>
    refine .cons ⟨rfl, ?_⟩ (ih (s.next e) fun e he => h e (List.mem_cons_of_mem _ he))
    obtain rfl | ⟨r, rfl⟩ := h e List.mem_cons_self
    · trivial
    · trivial

theorem noLostWakeUp_iff_inTime_oneRecord :
    Run (fun s e s' => Step s e s' ∧ s'.NoLostWakeUp) (start 2 (fun _ _ => 0) 1 1)
        [.poll, .write (Channel.blank .pmc)]
        ([Event.poll, .write (Channel.blank .pmc)].foldl next (start 2 (fun _ _ => 0) 1 1)) ↔
      Run (fun s e s' => Step s e s' ∧ s.InTime e) (start 2 (fun _ _ => 0) 1 1)
        [.poll, .write (Channel.blank .pmc)]
        ([Event.poll, .write (Channel.blank .pmc)].foldl next (start 2 (fun _ _ => 0) 1 1)) :=
  noLostWakeUp_iff_inTime ⟨by decide, ⟨1, by decide⟩, by decide⟩ _ _

/-! ### A run that loses one -/

theorem foldl_write (s : Waking) (rs : List Record) :
    (rs.map Event.write).foldl next s = { s with rb := writes s.rb rs } := by
  induction rs generalizing s with
  | nil => rfl
  | cons r rs ih => exact ih _

/-- What happens when the buffer is full and the last writer goes: its EOF is dropped, the reader
takes everything, finds nothing more to do and goes to sleep. -/
def lastRead : List Event := [.poll, .dec, .eof, .queue, .deliver, .read 83 8188, .poll]

/-- The reader ends up asleep, with nothing to rouse it. -/
theorem run_lastRead {s : Waking} (w : At s.rb 0 8188) (hsize : s.rb.size.toNat = 8192)
    (hitems : s.rb.items.toNat ≤ 83) (hbatch : s.rb.batch = 83) (hactive : s.rb.active = 1)
    (heofs : s.eofs = 0) (hqueues : s.queues = 0) :
    ∃ p, Run Step s lastRead p ∧ p.rb.smonPoll = .none ∧ (∃ t h, At p.rb t h) ∧
      p.asleep = true ∧ ¬ p.Roused ∧ p.rb.active ≤ 0 ∧ ¬ p.rb.batch ≤ p.rb.items + 1 := by
  have hzero : s.rb.active - 1 = 0 := by omega
  have wdec : At { s.rb with active := s.rb.active - 1 } 0 8188 :=
    ⟨⟨w.pages, w.size_eq⟩, w.tail_eq, w.head_eq, w.le, w.lt, w.dvd⟩
  have hdrop : ({ s.rb with active := s.rb.active - 1 } : RingBuffer).smonRbWriteEof.rb =
      { s.rb with active := s.rb.active - 1 } := by
    rcases Channel.smonRbWriteEof_cases wdec with ⟨hspace, -⟩ | ⟨-, hdrop⟩
    · rw [wdec.toNat_rbSpace, hsize] at hspace
      omega
    · rw [hdrop]
  let q : Waking := ⟨{ s.rb with active := s.rb.active - 1, irq := false }, decide (s.rb.smonPoll = .none),
    true, 0, 0⟩
  have hq : Run Step s [.poll, .dec, .eof, .queue, .deliver] q := by
    have hrun : Run Step s [.poll, .dec, .eof, .queue, .deliver]
        (((((s.next .poll).next .dec).next .eof).next .queue).next .deliver) := by
      refine .cons ⟨rfl, trivial⟩ (.cons ⟨rfl, trivial⟩ (.cons ⟨rfl, ?_⟩ (.cons ⟨rfl, ?_⟩
        (.single ⟨rfl, rfl⟩))))
      · change 0 < if s.rb.active - 1 = 0 then s.eofs + 1 else s.eofs
        rw [if_pos hzero]
        exact Nat.succ_pos _
      · exact Nat.succ_pos _
    have heq : ((((s.next .poll).next .dec).next .eof).next .queue).next .deliver = q := by
      simp only [next, hdrop, if_pos hzero, heofs, hqueues, q]
    rwa [heq] at hrun
  have wq : At q.rb 0 8188 :=
    ⟨⟨w.pages, w.size_eq⟩, w.tail_eq, w.head_eq, w.le, w.lt, w.dvd⟩
  have wread : At (q.rb.smonRbRead 83 8188) 8188 8188 := wq.smonRbRead 83 8188
  have hread : (q.rb.smonRbRead 83 8188).items = 0 := by
    apply BitVec.eq_of_toNat_eq
    simp only [smonRbRead]
    split
    · rfl
    · rename_i hle
      rw [BitVec.lt_def, Nat.not_lt] at hle
      have hitems' : q.rb.items.toNat ≤ 83 := hitems
      have h83 : (83 : U32).toNat = 83 := rfl
      rw [BitVec.toNat_sub_of_le (BitVec.le_def.mpr hle), h83]
      exact Nat.sub_eq_zero_of_le hitems'
  have hnone : (q.rb.smonRbRead 83 8188).smonPoll = .none := by
    refine (smonPoll_eq_none_iff wread).mpr ⟨?_, fun _ => rfl⟩
    have hb : (q.rb.smonRbRead 83 8188).batch = 83 := hbatch
    rw [hread, hb]
    decide
  refine ⟨(q.next (.read 83 8188)).next .poll,
    hq.append (.cons ⟨rfl, trivial⟩ (.single ⟨rfl, trivial⟩)), hnone, ⟨_, _, wread⟩,
    decide_eq_true hnone, ?_, hzero.le, ?_⟩
  · rintro (h | h | h | h) <;> cases h
  · have hb : ((q.next (.read 83 8188)).next .poll).rb.batch = 83 := hbatch
    have hi : ((q.next (.read 83 8188)).next .poll).rb.items = 0 := hread
    rw [hb, hi]
    decide

/-- **A lost wake-up.** Behind the last read of a session whose EOF was dropped the RAPL timer fires
once more. -/
theorem not_noLostWakeUp_tight :
    ¬∀ (nPages batch : U32) (active : ℤ) (data : ℕ → ℕ → Byte) (es : List Event) (s : Waking),
      Accepted nPages → 0 < active → Run Step (start nPages data batch active) es s →
        s.NoLostWakeUp := by
  intro hall
  have hn : Accepted 2 := ⟨by decide, ⟨1, by decide⟩, by decide⟩
  have hfill := run_foldl (start 2 (fun _ _ => 0) 83 1) (Channel.tightRecords.map .write) (by
    intro e he
    obtain ⟨r, -, rfl⟩ := List.mem_map.mp he
    exact .inr ⟨r, rfl⟩)
  rw [foldl_write] at hfill
  have hstart : (start 2 (fun _ _ => 0) 83 1).rb = (Channel.start 2 (fun _ _ => 0) 83 1).rb := rfl
  rw [hstart] at hfill
  obtain ⟨w, hsize⟩ := Channel.at_tight (fun _ _ => 0) 83
  have hitems := writes_items_le (Channel.start 2 (fun _ _ => 0) 83 1).rb Channel.tightRecords
  rw [Channel.length_tight] at hitems
  have hactive := writes_active (Channel.start 2 (fun _ _ => 0) 83 1).rb Channel.tightRecords
  have hbatch := writes_batch (Channel.start 2 (fun _ _ => 0) 83 1).rb Channel.tightRecords
  generalize writes (Channel.start 2 (fun _ _ => 0) 83 1).rb Channel.tightRecords = rb
    at hfill w hsize hitems hactive hbatch
  obtain ⟨p, hrun, hnone, wp, hsleep, hroused, hactive, hbatch⟩ := run_lastRead
    (s := ⟨rb, false, false, 0, 0⟩) w hsize hitems hbatch hactive rfl rfl
  have hlate : Step p (.write (Channel.blank .rapl)) (p.next (.write (Channel.blank .rapl))) :=
    ⟨rfl, trivial⟩
  have hlost := hall 2 83 1 _ _ _ hn (by decide) ((hfill.append hrun).snoc hlate)
  have hin := (noLostWakeUp_next wp (fun _ hmask => absurd hnone hmask) hlate.2).mp hlost
  exact hbatch (hin rfl hsleep hroused hactive)

end Waking

end SchedMon
