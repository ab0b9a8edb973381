import SchedMon.Lib.Run
import SchedMon.Tool.Reader

/-!
# The sample channel is a FIFO

Kernel writers, the buffer, and the reader, put together. The kernel keeps `head`, `tail` and
`items`; the reader keeps a cursor of its own that it never compares with the head. All it relies
on is the promise of `POLLIN`, that a whole batch of records is there. A write may fall between any
two steps of the reader.

The invariant `Inv` splits the unread entries at the reader's position `u`: `fin` is what the read
in progress has consumed already, `rest` what it has not. A write extends `rest`, a step of the
reader moves an entry from `rest` to `fin`, and the final `SMON_IOCREAD` drops `fin`.

## Main results

* `Inv.write`, `Inv.read` — the step lemmas
* `fifo` — nothing is lost, duplicated or reordered
-/

namespace SchedMon

open RingBuffer

/-- The channel. `accepted` is the history of the records that were committed. -/
structure Channel where
  rb : RingBuffer
  reader : Reader
  accepted : List Record

namespace Channel

/-- What can happen: a hook hands a record to `smon_rb_write`, the reader takes a step, a writer
comes, or a writer goes. -/
inductive Event where
  | write (r : Record)
  | read
  | get
  | release

/-- The channel after an event. -/
def next (s : Channel) : Event → Channel
  | .write r =>
    let res := s.rb.smonRbWrite r
    { s with rb := res.rb, accepted := s.accepted ++ if res.accepted then [r] else [] }
  | .read => { s with reader := (s.reader.step s.rb).1, rb := (s.reader.step s.rb).2 }
  | .get => { s with rb := s.rb.smonGetRb }
  | .release => { s with rb := s.rb.smonReleaseRb }

/-- The six record types a hook writes while the session runs. -/
def Sample (r : Record) : Prop := r.type ≠ .pad ∧ r.type ≠ .eof

/-- When an event may happen while the session runs: hooks write samples, and the last writer is
still there. -/
def Enabled (s : Channel) : Event → Prop
  | .write r => Sample r
  | .read => True
  | .get => True
  | .release => 1 < s.rb.active

/-- The steps of a running session. -/
def Step (s : Channel) (e : Event) (s' : Channel) : Prop := s' = s.next e ∧ s.Enabled e

/-- A session starts with a fresh buffer that has `active` writers and the reader's batch size. -/
def start (nPages : U32) (data : ℕ → ℕ → Byte) (batch : U32) (active : ℤ) : Channel where
  rb := { smonCreateRb nPages data with batch := batch, active := active }
  reader := .start nPages batch
  accepted := []

/-! ### The invariant -/

/-- What the reader's position in the code says about the cursor and the entries. -/
def PcInv (s : Channel) (t u : ℕ) (fin rest : List Entry) : Prop :=
  match s.reader.pc with
  | .poll => fin = [] ∧ s.reader.user.Follows s.rb t u
  | .loop n nr last => last = false ∧ n = (records fin).length ∧ n ≤ nr ∧
      nr ≤ (records (fin ++ rest)).length ∧ s.reader.user.Follows s.rb t u
  | .payload ty addr n nr last => last = false ∧ n = (records fin).length ∧ n < nr ∧
      nr ≤ (records (fin ++ rest)).length ∧ s.reader.user.Follows s.rb t (u + headerSize) ∧
      ∃ r es, rest = .record r :: es ∧ ty = r.type ∧ addr = u % s.rb.size.toNat + headerSize
  | .flush n last => last = false ∧ n = (records fin).length ∧ s.reader.user.Follows s.rb t u
  | .done _ => False

/-- The unread entries are `fin`, which the read in progress has consumed, and `rest`. -/
structure Inv (s : Channel) (t u h : ℕ) (fin rest : List Entry) : Prop where
  win : At s.rb t h
  laidFin : Laid s.rb.vbyte t fin u
  laidRest : Laid s.rb.vbyte u rest h
  sample : ∀ r ∈ records rest, r.type ≠ .eof
  items : s.rb.items.toNat = (records (fin ++ rest)).length
  log : ∃ before, s.reader.printed = before ++ records fin ∧
    s.accepted = before ++ records (fin ++ rest)
  pc : PcInv s t u fin rest

variable {s s' : Channel} {t u h : ℕ} {fin rest : List Entry} {r : Record}

theorem Inv.le (i : Inv s t u h fin rest) : t ≤ u := i.laidFin.le

theorem Inv.le' (i : Inv s t u h fin rest) : u ≤ h := i.laidRest.le

theorem Inv.laid (i : Inv s t u h fin rest) : Laid s.rb.vbyte t (fin ++ rest) h :=
  i.laidFin.append i.laidRest

/-- The records in the buffer are far fewer than an `unsigned int` can count. -/
theorem Inv.length_lt (i : Inv s t u h fin rest) :
    (records (fin ++ rest)).length < 2 ^ 20 := by
  have h4 := i.laid.four_mul_length_le
  have hlt := i.win.lt
  have hsmall := i.win.size_le
  simp only [pageSize_eq, smonMaxPages] at hsmall
  omega

theorem inv_start {nPages : U32} (hn : Accepted nPages) (data : ℕ → ℕ → Byte) (batch : U32)
    (active : ℤ) : Inv (start nPages data batch active) 0 0 0 [] [] := by
  have w := at_smonCreateRb hn data
  refine ⟨⟨⟨w.pages, w.size_eq⟩, w.tail_eq, w.head_eq, w.le, w.lt, w.dvd⟩, .nil 0, .nil 0,
    by simp [records], rfl, ⟨[], rfl, rfl⟩, rfl, ?_⟩
  have f := SmonRb.follows_smonRbInit (shape_smonCreateRb hn data)
  exact ⟨f.nPages_eq, f.size_eq, f.tail_eq, f.consumed_eq⟩

/-! ### A write -/

/-- More records to read do not disturb a read in progress. -/
theorem PcInv.extend (p : PcInv s t u fin rest) (rb' : RingBuffer) (acc : List Record)
    (hn : rb'.nPages = s.rb.nPages) (hs : rb'.size = s.rb.size) (es : List Entry) :
    PcInv { s with rb := rb', accepted := acc } t u fin (rest ++ es) := by
  have hlen : (records (fin ++ rest)).length ≤ (records (fin ++ (rest ++ es))).length := by
    simp only [records_append, List.length_append]
    omega
  unfold PcInv at p ⊢
  dsimp only
  split
  · rename_i hpc
    rw [hpc] at p
    exact ⟨p.1, p.2.congr hn hs⟩
  · rename_i hpc
    rw [hpc] at p
    obtain ⟨hlast, hlen', hle, hnr, f⟩ := p
    exact ⟨hlast, hlen', hle, by omega, f.congr hn hs⟩
  · rename_i hpc
    rw [hpc] at p
    obtain ⟨hlast, hlen', hlt, hnr, f, r, es', rfl, hty, haddr⟩ := p
    exact ⟨hlast, hlen', hlt, by omega, f.congr hn hs, r, es' ++ es, rfl, hty, by rw [hs]; exact haddr⟩
  · rename_i hpc
    rw [hpc] at p
    exact ⟨p.1, p.2.1, p.2.2.congr hn hs⟩
  · rename_i hpc
    rw [hpc] at p
    exact p

/-- **Step lemma for a write**, with the entries it appends. -/
theorem Inv.write_entries (i : Inv s t u h fin rest) (hr : Sample r) :
    ∃ h' es, Inv (s.next (.write r)) t u h' fin (rest ++ es) ∧ Snug h es := by
  have hw : r.type.writable = true := by
    obtain ⟨hpad, _⟩ := hr
    cases ht : r.type <;> simp_all [SampleType.writable]
  obtain ⟨es, h', ⟨win, frame, laid, hrec, hitems⟩, hsnug⟩ :=
    (smonRbWrite_cases i.win hw).appended i.win hw
  have hle := i.le
  have hle' := i.le'
  refine ⟨h', es, ⟨win, i.laidFin.congr fun z hz hz' => frame z hz (by omega),
    (i.laidRest.congr fun z hz hz' => frame z (by omega) hz').append laid, ?_, ?_, ?_,
    i.pc.extend _ _ (smonRbWrite_nPages _ _) (smonRbWrite_size _ _) es⟩, hsnug⟩
  · intro r' hr'
    rw [records_append, List.mem_append, hrec] at hr'
    rcases hr' with hr' | hr'
    · exact i.sample r' hr'
    · split at hr'
      · rw [List.mem_singleton.mp hr']; exact hr.2
      · simp at hr'
  · have hlen := i.length_lt
    have hold := i.items
    rw [← List.append_assoc, records_append, List.length_append, hrec, ← hold]
    simp only [next]
    rw [hitems]
    split
    · rw [BitVec.toNat_add, hold, List.length_singleton, show (1 : U32).toNat = 1 from rfl]
      omega
    · rfl
  · obtain ⟨before, hprinted, haccepted⟩ := i.log
    refine ⟨before, hprinted, ?_⟩
    simp only [next]
    rw [haccepted, ← List.append_assoc fin, records_append (fin ++ rest), hrec, List.append_assoc]

/-- **Step lemma for a write.** -/
theorem Inv.write (i : Inv s t u h fin rest) (hr : Sample r) :
    ∃ h' rest', Inv (s.next (.write r)) t u h' fin rest' := by
  obtain ⟨h', es, i', -⟩ := i.write_entries hr
  exact ⟨h', rest ++ es, i'⟩

/-! ### A step of the reader -/

/-- The promise of `POLLIN`. -/
theorem smonPoll_pollin {rb : RingBuffer} (h : rb.smonPoll = .pollin) :
    rb.batch.toNat ≤ rb.items.toNat := by
  cases havail : rb.smonRbBatchAvailable with
  | true => simpa [smonRbBatchAvailable, BitVec.le_def] using havail
  | false =>
    simp only [smonPoll, havail, Bool.false_eq_true, if_false] at h
    split at h <;> cases h

/-- There is no hang-up while writers are there. -/
theorem smonPoll_ne_pollhup {rb : RingBuffer} (h : 0 < rb.active) : rb.smonPoll ≠ .pollhup := by
  have hact : rb.smonRbIsActive = true := by simpa [smonRbIsActive] using h
  rw [smonPoll, hact]
  cases rb.smonRbBatchAvailable <;> simp

/-- The reader sees the next entry: there is one, as long as the batch is not complete. -/
theorem exists_rest_of_lt {n nr : ℤ} (hn : n = (records fin).length) (hlt : n < nr)
    (hnr : nr ≤ (records (fin ++ rest)).length) : rest ≠ [] := by
  rintro rfl
  rw [List.append_nil] at hnr
  omega

/-- Moving an entry from `rest` to `fin`. -/
theorem Inv.advance {e : Entry} {v : ℕ} {reader : Reader} (i : Inv s t u h fin (e :: rest))
    (he : Laid s.rb.vbyte u [e] v) (hrest : Laid s.rb.vbyte v rest h)
    (hprinted : reader.printed = s.reader.printed ++ records [e])
    (hpc : PcInv { s with reader := reader } t v (fin ++ [e]) rest) :
    Inv { s with reader := reader } t v h (fin ++ [e]) rest := by
  have hsplit : fin ++ [e] ++ rest = fin ++ e :: rest := by simp
  refine ⟨i.win, i.laidFin.append he, hrest, fun r hr => i.sample r ?_, ?_, ?_, hpc⟩
  · rw [← List.singleton_append, records_append]
    exact List.mem_append_right _ hr
  · rw [hsplit]; exact i.items
  · obtain ⟨before, hp, ha⟩ := i.log
    refine ⟨before, ?_, by rw [hsplit]; exact ha⟩
    rw [records_append, ← List.append_assoc, ← hp, hprinted]

/-- In the loop, as long as the batch is not complete, the next entry is looked at. -/
theorem next_read_loop {n nr : ℤ} {last : Bool} (hpc : s.reader.pc = .loop n nr last) (hlt : n < nr) :
    s.next .read = { s with reader := s.reader.loopBody s.rb n nr last } := by
  simp only [next, Reader.step, hpc, if_pos hlt]

theorem Inv.loop_pad {n nr : ℤ} {last : Bool} (i : Inv s t u h fin (.pad :: rest))
    (hpc : s.reader.pc = .loop n nr last) (hlt : n < nr) :
    Inv (s.next .read) t (nextPage u) h (fin ++ [.pad]) rest ∧
      (s.next .read).reader.pc = .loop n nr last := by
  have p := i.pc
  simp only [PcInv, hpc] at p
  obtain ⟨hlast, hn, -, hnr, f⟩ := p
  obtain ⟨hbody, hnext⟩ := Reader.loopBody_pad n nr last i.win i.le f i.laidRest
  rw [next_read_loop hpc hlt, hbody]
  refine ⟨?_, hpc⟩
  cases i.laidRest with
  | pad hfit hbytes hrest =>
    refine i.advance (.pad hfit hbytes (.nil _)) hrest (by simp [records]) ?_
    simp only [PcInv, hpc]
    refine ⟨hlast, by simpa [records] using hn, hlt.le, ?_, hnext⟩
    simpa [records] using hnr

theorem Inv.loop_record {n nr : ℤ} {last : Bool} (i : Inv s t u h fin (.record r :: rest))
    (hpc : s.reader.pc = .loop n nr last) (hlt : n < nr) :
    Inv (s.next .read) t u h fin (.record r :: rest) ∧
      ∃ addr, (s.next .read).reader.pc = .payload r.type addr n nr last := by
  have p := i.pc
  simp only [PcInv, hpc] at p
  obtain ⟨hlast, hn, -, hnr, f⟩ := p
  have hne : r.type ≠ .eof := i.sample r (by simp [records])
  obtain ⟨user, hbody, hnext⟩ := Reader.loopBody_record n nr last i.win i.le f i.laidRest hne
  rw [next_read_loop hpc hlt, hbody]
  refine ⟨⟨i.win, i.laidFin, i.laidRest, i.sample, i.items, i.log, ?_⟩, _, rfl⟩
  exact ⟨hlast, hn, hlt, hnr, hnext, r, rest, rfl, rfl, rfl⟩

/-- The batch is complete. -/
theorem Inv.loop_done {n nr : ℤ} {last : Bool} (i : Inv s t u h fin rest)
    (hpc : s.reader.pc = .loop n nr last) (hge : nr ≤ n) :
    Inv (s.next .read) t u h fin rest ∧ (s.next .read).reader.pc = .flush n last := by
  have hnext : s.next .read = { s with reader := { s.reader with pc := .flush n last } } := by
    simp only [next, Reader.step, hpc, if_neg (not_lt.mpr hge)]
  have p := i.pc
  simp only [PcInv, hpc] at p
  rw [hnext]
  exact ⟨⟨i.win, i.laidFin, i.laidRest, i.sample, i.items, i.log, p.1, p.2.1, p.2.2.2.2⟩, rfl⟩

theorem Inv.payload {ty : SampleType} {addr : ℕ} {n nr : ℤ} {last : Bool}
    (i : Inv s t u h fin rest) (hpc : s.reader.pc = .payload ty addr n nr last) :
    ∃ r rest', rest = .record r :: rest' ∧
      Inv (s.next .read) t (u + r.type.totalSize) h (fin ++ [.record r]) rest' ∧
      (s.next .read).reader.pc = .loop (n + 1) nr last := by
  have p := i.pc
  simp only [PcInv, hpc] at p
  obtain ⟨hlast, hn, hlt, hnr, f, r, rest', rfl, rfl, rfl⟩ := p
  obtain ⟨user, hstep, hnext⟩ := Reader.step_payload i.win i.le f i.laidRest hpc
  refine ⟨r, rest', rfl, ?_⟩
  simp only [next, hstep]
  refine ⟨?_, trivial⟩
  cases i.laidRest with
  | record r hw hfit hbytes hrest =>
    refine i.advance (.record r hw hfit hbytes (.nil _)) hrest (by simp [records]) ?_
    refine ⟨hlast, by simp [records, hn], by omega, ?_, hnext⟩
    simpa [records] using hnr

theorem Inv.flush {n : ℤ} {last : Bool} (i : Inv s t u h fin rest)
    (hpc : s.reader.pc = .flush n last) : Inv (s.next .read) u u h [] rest := by
  have p := i.pc
  simp only [PcInv, hpc] at p
  obtain ⟨rfl, hn, f⟩ := p
  have hle := i.le
  have hle' := i.le'
  have hlen := i.length_lt
  have hitems := i.items
  rw [records_append, List.length_append] at hlen hitems
  have hcons : s.reader.user.smonRbFlush.2.toNat = u - t := f.consumed_eq
  have hcount : (BitVec.ofInt 32 n).toNat = (records fin).length := by
    rw [hn, BitVec.ofInt_natCast, BitVec.toNat_ofNat]
    omega
  have win := i.win.smonRbRead (BitVec.ofInt 32 n) s.reader.user.smonRbFlush.2
  rw [hcons, if_neg (by omega), show t + (u - t) = u by omega] at win
  simp only [next, Reader.step, hpc, Bool.false_eq_true, if_false]
  refine ⟨win, .nil u, i.laidRest, i.sample, ?_, ?_, rfl, f.smonRbFlush.congr rfl rfl⟩
  · simp only [smonRbRead, BitVec.lt_def, hcount, hitems, List.nil_append]
    rw [if_neg (by omega), BitVec.toNat_sub, hcount, hitems]
    omega
  · obtain ⟨before, hp, ha⟩ := i.log
    exact ⟨s.reader.printed, by simp [records], by rw [ha, hp, records_append]; simp⟩

/-- **Step lemma for the reader**, as long as it is not told that the writers are gone. The entries
stay, or those that the read has consumed go. -/
theorem Inv.read_entries (i : Inv s t u h fin rest)
    (hpoll : s.reader.pc = .poll → s.rb.smonPoll ≠ .pollhup)
    (hbatch : s.reader.batch = s.rb.batch) :
    ∃ t' u' fin' rest', Inv (s.next .read) t' u' h fin' rest' ∧
      (t' = t ∧ fin' ++ rest' = fin ++ rest ∨ t' = u ∧ fin' ++ rest' = rest) := by
  cases hpc : s.reader.pc with
  | poll =>
    have p := i.pc
    simp only [PcInv, hpc] at p
    obtain ⟨rfl, f⟩ := p
    cases hmask : s.rb.smonPoll with
    | pollhup => exact absurd hmask (hpoll hpc)
    | none =>
      have hnext : s.next .read = s := by simp only [next, Reader.step, hpc, hmask]
      exact ⟨t, u, [], rest, by rwa [hnext], .inl ⟨rfl, rfl⟩⟩
    | pollin =>
      have hnext : s.next .read
          = { s with reader := { s.reader with pc := .loop 0 s.reader.batch.toInt false } } := by
        simp only [next, Reader.step, hpc, hmask]
      rw [hnext]
      refine ⟨t, u, [], rest, ⟨i.win, i.laidFin, i.laidRest, i.sample, i.items, i.log, ?_⟩,
        .inl ⟨rfl, rfl⟩⟩
      have hb : s.rb.batch.toNat ≤ s.rb.items.toNat := smonPoll_pollin hmask
      have hlen := i.length_lt
      rw [i.items] at hb
      have hint : s.reader.batch.toInt = s.rb.batch.toNat := by
        rw [hbatch, BitVec.toInt_eq_toNat_of_lt]
        omega
      refine ⟨rfl, rfl, by omega, ?_, f⟩
      rw [hint]
      exact_mod_cast hb
  | loop n nr last =>
    rcases lt_or_ge n nr with hlt | hge
    · have p := i.pc
      simp only [PcInv, hpc] at p
      obtain ⟨-, hn, -, hnr, -⟩ := p
      obtain ⟨e, rest', rfl⟩ := List.exists_cons_of_ne_nil (exists_rest_of_lt hn hlt hnr)
      cases e with
      | pad =>
        exact ⟨t, _, _, rest', (i.loop_pad hpc hlt).1, .inl ⟨rfl, List.append_assoc ..⟩⟩
      | record r => exact ⟨t, _, _, _, (i.loop_record hpc hlt).1, .inl ⟨rfl, rfl⟩⟩
    · exact ⟨t, u, fin, rest, (i.loop_done hpc hge).1, .inl ⟨rfl, rfl⟩⟩
  | payload ty addr n nr last =>
    obtain ⟨r, rest', rfl, i', -⟩ := i.payload hpc
    exact ⟨t, _, _, rest', i', .inl ⟨rfl, List.append_assoc ..⟩⟩
  | flush n last => exact ⟨u, u, [], rest, i.flush hpc, .inr ⟨rfl, rfl⟩⟩
  | done ret =>
    have p := i.pc
    simp only [PcInv, hpc] at p

/-- **Step lemma for the reader.** -/
theorem Inv.read (i : Inv s t u h fin rest)
    (hpoll : s.reader.pc = .poll → s.rb.smonPoll ≠ .pollhup)
    (hbatch : s.reader.batch = s.rb.batch) :
    ∃ t' u' fin' rest', Inv (s.next .read) t' u' h fin' rest' := by
  obtain ⟨t', u', fin', rest', i', -⟩ := i.read_entries hpoll hbatch
  exact ⟨t', u', fin', rest', i'⟩

/-! ### Writers come and go -/

theorem smonReleaseRb_of_lt {rb : RingBuffer} (h : 1 < rb.active) :
    rb.smonReleaseRb = { rb with active := rb.active - 1 } := by
  simp only [smonReleaseRb]
  rw [if_neg (by omega)]

/-- The count of writers is no part of the invariant. -/
theorem Inv.active (i : Inv s t u h fin rest) (active : ℤ) :
    Inv { s with rb := { s.rb with active := active } } t u h fin rest := by
  refine ⟨⟨⟨i.win.pages, i.win.size_eq⟩, i.win.tail_eq, i.win.head_eq, i.win.le, i.win.lt,
    i.win.dvd⟩, i.laidFin, i.laidRest, i.sample, i.items, i.log, ?_⟩
  have p := i.pc.extend { s.rb with active := active } s.accepted rfl rfl []
  rwa [List.append_nil] at p

/-! ### Whole sessions -/

/-- What holds of a running session besides the invariant: there are writers, and the two batch
sizes agree. -/
structure Session (s : Channel) : Prop where
  active : 0 < s.rb.active
  batch : s.reader.batch = s.rb.batch

theorem loopBody_batch (rb : RingBuffer) (reader : Reader) (n nr : ℤ) (last : Bool) :
    (reader.loopBody rb n nr last).batch = reader.batch := by
  simp only [Reader.loopBody]
  split <;> rfl

theorem reader_step_batch (reader : Reader) (rb : RingBuffer) :
    (reader.step rb).1.batch = reader.batch := by
  simp only [Reader.step]
  split
  · split <;> rfl
  · split
    · exact loopBody_batch _ _ _ _ _
    · rfl
  all_goals rfl

theorem reader_step_rb (reader : Reader) (rb : RingBuffer) :
    (reader.step rb).2.batch = rb.batch ∧ (reader.step rb).2.active = rb.active := by
  simp only [Reader.step]
  split
  · split <;> exact ⟨rfl, rfl⟩
  · split <;> exact ⟨rfl, rfl⟩
  all_goals exact ⟨rfl, rfl⟩

theorem Session.next (c : Session s) {e : Event} (he : s.Enabled e) : Session (s.next e) := by
  have hactive := c.active
  cases e with
  | write r =>
    exact ⟨hactive.trans_eq (smonRbWrite_active _ _).symm,
      c.batch.trans (smonRbWrite_batch _ _).symm⟩
  | read =>
    obtain ⟨hb, ha⟩ := reader_step_rb s.reader s.rb
    exact ⟨hactive.trans_eq ha.symm, (reader_step_batch _ _).trans (c.batch.trans hb.symm)⟩
  | get => exact ⟨by simp only [Channel.next, smonGetRb]; omega, c.batch⟩
  | release =>
    have he : 1 < s.rb.active := he
    simp only [Channel.next, smonReleaseRb_of_lt he]
    exact ⟨by dsimp only; omega, c.batch⟩

/-- The invariant holds in every reachable state. -/
theorem exists_inv {nPages batch : U32} {active : ℤ} {data : ℕ → ℕ → Byte} {es : List Event}
    (hn : Accepted nPages) (hactive : 0 < active)
    (run : Run Step (start nPages data batch active) es s) :
    Session s ∧ ∃ t u h fin rest, Inv s t u h fin rest := by
  refine run.invariant (motive := fun s => Session s ∧ ∃ t u h fin rest, Inv s t u h fin rest)
    ⟨⟨hactive, rfl⟩, 0, 0, 0, [], [], inv_start hn data batch active⟩ ?_
  rintro s e s' ⟨c, t, u, h, fin, rest, i⟩ ⟨rfl, he⟩
  refine ⟨c.next he, ?_⟩
  cases e with
  | write r =>
    obtain ⟨h', rest', i'⟩ := i.write he
    exact ⟨t, u, h', fin, rest', i'⟩
  | read =>
    obtain ⟨t', u', fin', rest', i'⟩ := i.read (fun _ => smonPoll_ne_pollhup c.active) c.batch
    exact ⟨t', u', h, fin', rest', i'⟩
  | get => exact ⟨t, u, h, fin, rest, i.active _⟩
  | release =>
    simp only [next, smonReleaseRb_of_lt he]
    exact ⟨t, u, h, fin, rest, i.active _⟩

/-- **The channel is a FIFO.** In every state that a running session can reach, the unread bytes
decode to records `recs`. With what was printed before the read in progress (`before`) they are the
accepted records, each once and in order, and the read in progress has printed a prefix `now` of
them. Between two reads `now` is empty, the reader's cursor is the kernel's tail, and `items` counts
the unread records. -/
theorem fifo {nPages batch : U32} {active : ℤ} {data : ℕ → ℕ → Byte} {es : List Event}
    (hn : Accepted nPages) (hactive : 0 < active)
    (run : Run Step (start nPages data batch active) es s) :
    ∃ before now recs, s.rb.decodeUnread = some recs ∧
      s.reader.printed = before ++ now ∧ before ++ recs = s.accepted ∧ now <+: recs ∧
      s.rb.items.toNat = recs.length ∧ (∀ ret, s.reader.pc ≠ .done ret) ∧
      (s.reader.pc = .poll →
        now = [] ∧ s.reader.user.tail.toNat = s.rb.tail.toNat ∧ s.reader.user.consumed = 0) := by
  obtain ⟨-, t, u, h, fin, rest, i⟩ := exists_inv hn hactive run
  obtain ⟨before, hprinted, haccepted⟩ := i.log
  refine ⟨before, records fin, records (fin ++ rest), i.win.decodeUnread i.laid, hprinted,
    haccepted.symm, by rw [records_append]; exact List.prefix_append _ _, i.items, ?_, ?_⟩
  · intro ret hpc
    have p := i.pc
    simp only [PcInv, hpc] at p
  · intro hpc
    have p := i.pc
    simp only [PcInv, hpc] at p
    obtain ⟨rfl, f⟩ := p
    have htu : t = u := by
      cases i.laidFin
      rfl
    subst htu
    refine ⟨rfl, f.tail_eq.trans i.win.tail_eq.symm, BitVec.eq_of_toNat_eq ?_⟩
    rw [f.consumed_eq, Nat.sub_self]
    rfl

/-- The state after a list of writes and reader's steps is reachable. -/
theorem run_foldl (s : Channel) (es : List Event)
    (h : ∀ e ∈ es, e = .read ∨ ∃ r, e = .write r ∧ Sample r) : Run Step s es (es.foldl next s) := by
  induction es generalizing s with
  | nil => exact .nil
  | cons e es ih =>
    refine .cons ⟨rfl, ?_⟩ (ih (s.next e) fun e he => h e (List.mem_cons_of_mem _ he))
    obtain rfl | ⟨r, rfl, hr⟩ := h e List.mem_cons_self
    · trivial
    · exact hr

/-- A session in which a second record arrives while the first one is being read. -/
def shortSession : List Event :=
  let fork : Record := ⟨.fork, List.replicate 16 7, by decide⟩
  let cpu : Record := ⟨.cpu, List.replicate 24 1, by decide⟩
  [.write fork, .read, .read, .write cpu, .read]

theorem fifo_shortSession :
    ∃ before now recs,
      (shortSession.foldl next (start 2 (fun _ _ => 0) 1 1)).rb.decodeUnread = some recs ∧
      (shortSession.foldl next (start 2 (fun _ _ => 0) 1 1)).reader.printed = before ++ now ∧
      before ++ recs = (shortSession.foldl next (start 2 (fun _ _ => 0) 1 1)).accepted ∧
      now <+: recs ∧
      (shortSession.foldl next (start 2 (fun _ _ => 0) 1 1)).rb.items.toNat = recs.length ∧
      (∀ ret, (shortSession.foldl next (start 2 (fun _ _ => 0) 1 1)).reader.pc ≠ .done ret) ∧
      ((shortSession.foldl next (start 2 (fun _ _ => 0) 1 1)).reader.pc = .poll →
        now = [] ∧
        (shortSession.foldl next (start 2 (fun _ _ => 0) 1 1)).reader.user.tail.toNat
          = (shortSession.foldl next (start 2 (fun _ _ => 0) 1 1)).rb.tail.toNat ∧
        (shortSession.foldl next (start 2 (fun _ _ => 0) 1 1)).reader.user.consumed = 0) :=
  fifo ⟨by decide, ⟨1, by decide⟩, by decide⟩ (by decide)
    (run_foldl _ shortSession (by simp [shortSession, Sample]))

end Channel

end SchedMon
