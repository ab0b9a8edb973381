import SchedMon.Channel.Drain

/-!
# A full buffer

A record is dropped for lack of bytes, and the reader is told to read for a number of records. So a
batch must be complete before the bytes run out, whatever the records are.

The largest record takes 100 bytes. Forty of them fill a page, up to a PAD, and smaller records only
make more of them. When a record is dropped the buffer therefore holds at least `40 * n_pages - 1`
records, and no fewer is possible: when the reader has taken just what was there, the PAD behind it
stays, and takes the place of a record.

## Main results

* `At.length_of_dropped` — how many records there are when one is dropped
* `readable_iff` — **which batch sizes are always reached**
* `not_readable_default` — the default batch size in the smallest buffer
-/

namespace SchedMon

open RingBuffer

namespace RingBuffer

variable {rb : RingBuffer} {t h n : ℕ} {r : Record} {f : ℕ → Byte} {x y : ℕ} {es : List Entry}

/-! ### Entries in the buffer -/

theorem Laid.dvd (hl : Laid f x es y) (hd : 4 ∣ x) : 4 ∣ y := by
  induction hl with
  | nil => exact hd
  | record r _ _ _ _ ih => exact ih ((Nat.dvd_add_right hd).mpr r.type.four_dvd_totalSize)
  | @pad x _ _ _ _ _ ih =>
    exact ih ((show 4 ∣ pageSize by decide).trans (Nat.dvd_of_mod_eq_zero (nextPage_mod x)))

/-- **When a record is dropped**, the buffer holds forty records for each page, but for one. -/
theorem At.length_of_dropped (w : At rb t h) (hl : Laid rb.vbyte t es h) (hs : Snug t es)
    (hd : 4 ∣ t) (hw : r.type.writable = true) (hdrop : (rb.smonRbWrite r).accepted = false) :
    40 * rb.nPages.toNat ≤ (records es).length + 1 := by
  have hfew := hl.le_of_snug hs hd
  have htotal := r.type.totalSize_le
  have hsize := w.size_eq
  have hle := w.le
  have hlt := w.lt
  have hdvd := w.dvd
  have hpages : 2 ≤ rb.nPages.toNat := w.pages.1
  have hleft : pageLeft h = 4096 - h % 4096 := rfl
  simp only [pageSize_eq] at hfew hsize
  have hc := smonRbWrite_cases w hw
  generalize rb.smonRbWrite r = res at hc hdrop
  cases hc with
  | full hfull => omega
  | padded hpage hspace hfull => omega
  | fits => cases hdrop
  | wraps => cases hdrop

/-! ### Filling pages -/

/-- The cursors, and the number of items. -/
structure Filled (rb : RingBuffer) (t h n : ℕ) : Prop extends At rb t h where
  items : rb.items.toNat = n

theorem toNat_items_succ {items : U32} (hitems : items.toNat = n) (hn : n + 1 < 2 ^ 32) :
    (items + 1).toNat = n + 1 := by
  have hone : (1 : U32).toNat = 1 := rfl
  rw [BitVec.toNat_add, hone, hitems, Nat.mod_eq_of_lt hn]

/-- Copies of one record, as long as they fit the page and the ring. -/
theorem Filled.replicate (fl : Filled rb t h n) (r : Record) (hw : r.type.writable = true) (k : ℕ)
    (hpage : k * r.type.totalSize ≤ pageLeft h)
    (hroom : h + k * r.type.totalSize - t < rb.size.toNat) (hn : n + k < 2 ^ 32) :
    Filled (writes rb (List.replicate k r)) t (h + k * r.type.totalSize) (n + k) := by
  refine ⟨(fl.toAt.writes_replicate r hw k hpage hroom).1, ?_⟩
  induction k generalizing rb h n with
  | zero => exact fl.items
  | succ k ih =>
    have hle := fl.le
    have hitems := fl.items
    rw [Nat.succ_mul] at hpage hroom
    have fl' : Filled (rb.smonRbWrite r).rb t (h + r.type.totalSize) (n + 1) := by
      have hc := smonRbWrite_cases fl.toAt hw
      generalize rb.smonRbWrite r = res at hc
      cases hc with
      | full => omega
      | padded => omega
      | fits hfit hspace =>
        exact ⟨fl.toAt.commit hfit (by omega), toNat_items_succ hitems (by omega)⟩
      | wraps => omega
    have hleft : pageLeft h ≤ pageLeft (h + r.type.totalSize) + r.type.totalSize := by
      simp only [pageLeft, pageSize_eq]
      omega
    refine (ih fl' (by omega) ?_ (by omega)).trans (by omega)
    rw [smonRbWrite_size]
    omega

/-- A record that does not fit the page goes to the next one. -/
theorem Filled.wraps (fl : Filled rb t h n) (r : Record) (hw : r.type.writable = true)
    (hpage : pageLeft h < r.type.totalSize)
    (hroom : nextPage h + r.type.totalSize - t < rb.size.toNat) (hn : n + 1 < 2 ^ 32) :
    Filled (rb.smonRbWrite r).rb t (nextPage h + r.type.totalSize) (n + 1) := by
  have hle := fl.le
  have hlt := fl.lt
  have hitems := fl.items
  have hnext := nextPage_eq h
  refine ⟨(fl.toAt.write_wraps r hw hpage (by omega)).1, ?_⟩
  have hc := smonRbWrite_cases fl.toAt hw
  generalize rb.smonRbWrite r = res at hc
  cases hc with
  | full => omega
  | padded => omega
  | fits => omega
  | wraps =>
    have hsucc : (rb.items + 1).toNat = n + 1 := toNat_items_succ hitems hn
    exact hsucc

/-- The largest record. -/
def pmcRecord : Record := ⟨.pmc, List.replicate 96 0, by decide⟩

theorem totalSize_pmcRecord : pmcRecord.type.totalSize = 100 := by decide

/-- From the end of a page to the end of the next one. -/
theorem Filled.fullPage (fl : Filled rb t h n) (hend : h % 4096 = 4000)
    (hroom : h + 4096 < t + rb.size.toNat) (hn : n + 40 < 2 ^ 32) :
    Filled (writes rb (List.replicate 40 pmcRecord)) t (h + 4096) (n + 40) := by
  have hle := fl.le
  have htotal := totalSize_pmcRecord
  have hleft : pageLeft h = 96 := by
    simp only [pageLeft, pageSize_eq]
    omega
  have hnext := nextPage_eq h
  have fl₁ := fl.wraps pmcRecord rfl (by omega) (by omega) (by omega)
  have hleft₁ : pageLeft (nextPage h + pmcRecord.type.totalSize) = 3996 := by
    simp only [pageLeft, pageSize_eq]
    omega
  have fl₂ := fl₁.replicate pmcRecord rfl 39 (by omega) (by rw [smonRbWrite_size]; omega) (by omega)
  have hh : nextPage h + pmcRecord.type.totalSize + 39 * pmcRecord.type.totalSize = h + 4096 := by
    omega
  rw [hh] at fl₂
  rw [List.replicate_succ, writes_cons]
  exact fl₂

/-- From the end of a page to the end of another. -/
theorem Filled.fullPages (fl : Filled rb t h n) (hend : h % 4096 = 4000) (k : ℕ)
    (hroom : h + 4096 * k < t + rb.size.toNat) (hn : n + 40 * k < 2 ^ 32) :
    Filled (writes rb (List.replicate (40 * k) pmcRecord)) t (h + 4096 * k) (n + 40 * k) := by
  induction k generalizing rb h n with
  | zero => exact fl
  | succ k ih =>
    have hsucc : ∀ m l, m + l * (k + 1) = m + l + l * k := fun m l => by
      rw [Nat.mul_succ, Nat.add_comm (l * k), Nat.add_assoc]
    rw [hsucc] at hroom hn
    have fl₁ := fl.fullPage hend (by omega) (by omega)
    have fl₂ := ih fl₁ (by omega) (by rw [writes_size]; omega) (by omega)
    have hsplit : List.replicate (40 * (k + 1)) pmcRecord =
        List.replicate 40 pmcRecord ++ List.replicate (40 * k) pmcRecord := by
      rw [Nat.mul_succ, Nat.add_comm, List.replicate_add]
    rw [hsplit, writes_append, hsucc, hsucc]
    exact fl₂

end RingBuffer

namespace Channel

variable {s : Channel} {t u h : ℕ} {fin rest : List Entry} {r : Record} {nPages batch : U32}

/-! ### Reachable states -/

theorem next_nPages (s : Channel) (e : Event) : (s.next e).rb.nPages = s.rb.nPages := by
  cases e with
  | write r => exact smonRbWrite_nPages _ _
  | read =>
    simp only [next, Reader.step]
    split
    · split <;> rfl
    · split <;> rfl
    all_goals rfl
  | get => rfl
  | release =>
    simp only [next, smonReleaseRb]
    split
    · exact smonRbWrite_nPages _ _
    · rfl

theorem next_batch (s : Channel) (e : Event) : (s.next e).rb.batch = s.rb.batch := by
  cases e with
  | write r => exact smonRbWrite_batch _ _
  | read => exact (reader_step_rb s.reader s.rb).1
  | get => rfl
  | release =>
    simp only [next, smonReleaseRb]
    split
    · exact smonRbWrite_batch _ _
    · rfl

theorem run_nPages_batch {es : List Event} {p : Channel} (run : Run Step s es p) :
    p.rb.nPages = s.rb.nPages ∧ p.rb.batch = s.rb.batch := by
  refine run.invariant (motive := fun p => p.rb.nPages = s.rb.nPages ∧ p.rb.batch = s.rb.batch)
    ⟨rfl, rfl⟩ ?_
  rintro p e - ⟨hn, hb⟩ ⟨rfl, -⟩
  exact ⟨(next_nPages p e).trans hn, (next_batch p e).trans hb⟩

/-- In every reachable state the PADs are short. -/
theorem exists_snug {active : ℤ} {data : ℕ → ℕ → Byte} {es : List Event} (hn : Accepted nPages)
    (hactive : 0 < active) (run : Run Step (start nPages data batch active) es s) :
    Session s ∧ ∃ t u h fin rest, Inv s t u h fin rest ∧ Snug t (fin ++ rest) ∧ 4 ∣ t := by
  refine run.invariant (motive := fun s => Session s ∧ ∃ t u h fin rest,
    Inv s t u h fin rest ∧ Snug t (fin ++ rest) ∧ 4 ∣ t)
    ⟨⟨hactive, rfl⟩, 0, 0, 0, [], [], inv_start hn data batch active, trivial, dvd_zero 4⟩ ?_
  rintro s e - ⟨c, t, u, h, fin, rest, i, hsnug, hdvd⟩ ⟨rfl, he⟩
  refine ⟨c.next he, ?_⟩
  cases e with
  | write r =>
    obtain ⟨h', es, i', hes⟩ := i.write_entries he
    refine ⟨t, u, h', fin, rest ++ es, i', ?_, hdvd⟩
    rw [← List.append_assoc]
    exact i.laid.snug_append.mpr ⟨hsnug, hes⟩
  | read =>
    obtain ⟨t', u', fin', rest', i', ⟨rfl, heq⟩ | ⟨rfl, heq⟩⟩ :=
      i.read_entries (fun _ => smonPoll_ne_pollhup c.active) c.batch
    · exact ⟨t', u', h, fin', rest', i', heq ▸ hsnug, hdvd⟩
    · refine ⟨t', u', h, fin', rest', i', ?_, i.laidFin.dvd hdvd⟩
      rw [heq]
      exact (i.laidFin.snug_append.mp hsnug).2
  | get => exact ⟨t, u, h, fin, rest, i.active _, hsnug, hdvd⟩
  | release =>
    simp only [next, smonReleaseRb_of_lt he]
    exact ⟨t, u, h, fin, rest, i.active _, hsnug, hdvd⟩

/-- The batch size is always reached: a record is dropped only when the reader is told to read. -/
def Readable (nPages batch : U32) : Prop :=
  ∀ (active : ℤ) (data : ℕ → ℕ → Byte) (es : List Event) (s : Channel) (r : Record),
    0 < active → Run Step (start nPages data batch active) es s → Sample r →
    (s.rb.smonRbWrite r).accepted = false →
    (s.rb.smonRbWrite r).rb.smonRbBatchAvailable = true ∧
      (s.rb.smonRbWrite r).rb.smonPoll = .pollin

theorem writable_of_sample (hr : Sample r) : r.type.writable = true := by
  obtain ⟨hpad, -⟩ := hr
  cases ht : r.type <;> simp_all [SampleType.writable]

/-- A small batch is complete when a record is dropped. -/
theorem readable_of_lt (hn : Accepted nPages) (hlt : batch.toNat < 40 * nPages.toNat) :
    Readable nPages batch := by
  intro active data es s r hactive run hr hdrop
  obtain ⟨c, t, u, h, fin, rest, i, hsnug, hdvd⟩ := exists_snug hn hactive run
  have hw := writable_of_sample hr
  have hlen := i.win.length_of_dropped i.laid hsnug hdvd hw hdrop
  obtain ⟨hpages, hbatch⟩ := run_nPages_batch run
  obtain ⟨es', h', happ, -⟩ := (smonRbWrite_cases i.win hw).appended i.win hw
  have hitems := happ.items_eq
  rw [hdrop, if_neg Bool.false_ne_true] at hitems
  have havail : (s.rb.smonRbWrite r).rb.smonRbBatchAvailable = true := by
    have hP : s.rb.nPages.toNat = nPages.toNat := congrArg BitVec.toNat hpages
    have hB : s.rb.batch.toNat = batch.toNat := congrArg BitVec.toNat hbatch
    have hI := i.items
    rw [smonRbBatchAvailable, decide_eq_true_iff, hitems, smonRbWrite_batch, BitVec.le_def]
    omega
  refine ⟨havail, ?_⟩
  have hwriters := c.active
  rw [smonPoll, if_pos havail, smonRbIsActive, smonRbWrite_active, decide_eq_true hwriters]
  rfl

/-! ### The reader takes everything -/

/-- Behind the last record there is nothing, unless a page is stuffed. -/
theorem eq_nil_of_records {f : ℕ → Byte} {x y : ℕ} {es : List Entry} (hl : Laid f x es y)
    (hy : y % pageSize ≠ 0) (hes : records es = []) : es = [] := by
  induction hl with
  | nil => rfl
  | record => cases hes
  | @pad x y es _ _ hrest ih =>
    obtain rfl := ih hy hes
    cases hrest
    exact absurd (nextPage_mod x) hy

/-- The loop of a read that takes all there is. -/
theorem Inv.takes_rest {n nr : ℤ} {last : Bool} (i : Inv s t u h fin rest)
    (hend : h % pageSize ≠ 0) (hpc : s.reader.pc = .loop n nr last)
    (hnr : nr = (records (fin ++ rest)).length) :
    ∃ es p, Run Step s es p ∧ Inv p h h h [] [] ∧ p.reader.pc = .poll := by
  have p := i.pc
  simp only [PcInv, hpc] at p
  obtain ⟨rfl, hn, -, -, -⟩ := p
  have hstep : ∀ s : Channel, Step s .read (s.next .read) := fun s => ⟨rfl, trivial⟩
  induction rest generalizing s u fin n with
  | nil =>
    rw [List.append_nil] at hnr
    obtain ⟨i₁, hpc₁⟩ := i.loop_done hpc (by omega)
    have i₂ := i₁.flush hpc₁
    have hu : u = h := by
      cases i.laidRest
      rfl
    subst hu
    refine ⟨_, _, (Run.single (hstep s)).snoc (hstep _), i₂, ?_⟩
    simp only [next, Reader.step] at hpc₁ ⊢
    rw [hpc₁]
    rfl
  | cons e rest ih =>
    have hlt : n < nr := by
      have hne : records (e :: rest) ≠ [] := fun hes => by
        cases eq_nil_of_records i.laidRest hend hes
      have hpos := List.length_pos_iff.mpr hne
      rw [records_append, List.length_append] at hnr
      omega
    cases e with
    | pad =>
      obtain ⟨i₁, hpc₁⟩ := i.loop_pad hpc hlt
      obtain ⟨es, q, run, hq⟩ := ih i₁ (by rw [hnr, List.append_assoc]; rfl) hpc₁
        (by rw [hn]; simp [records])
      exact ⟨_, q, run.cons (hstep s), hq⟩
    | record r =>
      obtain ⟨i₁, addr, hpc₁⟩ := i.loop_record hpc hlt
      obtain ⟨r', rest', heq, i₂, hpc₂⟩ := i₁.payload hpc₁
      obtain ⟨hr, rfl⟩ := List.cons.inj heq
      cases hr
      obtain ⟨es, q, run, hq⟩ := ih i₂ (by rw [hnr, List.append_assoc]; rfl) hpc₂
        (by rw [hn]; simp [records])
      exact ⟨_, q, (run.cons (hstep _)).cons (hstep s), hq⟩

/-- A read for a batch that is all there is. -/
theorem Inv.takes_all (i : Inv s t u h fin rest) (hend : h % pageSize ≠ 0)
    (hpc : s.reader.pc = .poll) (c : Session s) (hitems : s.rb.items = s.rb.batch) :
    ∃ es p, Run Step s es p ∧ Inv p h h h [] [] ∧ p.reader.pc = .poll := by
  have hmask : s.rb.smonPoll = .pollin := by
    have havail : s.rb.smonRbBatchAvailable = true := by
      rw [smonRbBatchAvailable, hitems, decide_eq_true_iff]
      exact BitVec.le_refl _
    rw [smonPoll, if_pos havail, smonRbIsActive, decide_eq_true c.active]
    rfl
  obtain ⟨t', u', fin', rest', i', -⟩ :=
    i.read_entries (fun _ => smonPoll_ne_pollhup c.active) c.batch
  have hpc' : (s.next .read).reader.pc = .loop 0 s.reader.batch.toInt false := by
    simp only [next, Reader.step, hpc, hmask]
  have hlen := i'.length_lt
  have hcount : s.rb.items.toNat = (records (fin' ++ rest')).length := by
    have hitems' := i'.items
    have hsame : (s.next .read).rb.items = s.rb.items := by
      simp only [next, Reader.step, hpc, hmask]
    rwa [hsame] at hitems'
  obtain ⟨es, q, run, hq⟩ := i'.takes_rest hend hpc' (by
    rw [c.batch, ← hitems, BitVec.toInt_eq_toNat_of_lt (by omega), hcount])
  have hstep : Step s .read (s.next .read) := ⟨rfl, trivial⟩
  exact ⟨_, q, run.cons hstep, hq⟩

/-! ### Buffers that fill up too early -/

/-- A PMC sample is dropped when less than 100 bytes are free. -/
theorem smonRbWrite_pmc_dropped {n : ℕ} {rb : RingBuffer} (fl : Filled rb t h n)
    (hfull : t + rb.size.toNat ≤ h + 100) : rb.smonRbWrite pmcRecord = ⟨rb, [], false⟩ := by
  have hle := fl.le
  have hpos := fl.le_size
  have htotal := totalSize_pmcRecord
  have hc := smonRbWrite_cases fl.toAt (r := pmcRecord) rfl
  generalize rb.smonRbWrite pmcRecord = res at hc
  cases hc with
  | full => rfl
  | padded => omega
  | fits => omega
  | wraps => omega

/-- Too few items at a drop. -/
theorem not_readable_of_filled {es : List Event} {n : ℕ}
    (run : Run Step (start nPages (fun _ _ => 0) batch 1) es s) (fl : Filled s.rb t h n)
    (hfull : t + s.rb.size.toNat ≤ h + 100) (hlt : n < batch.toNat) : ¬ Readable nPages batch := by
  intro hall
  have hdrop := smonRbWrite_pmc_dropped fl hfull
  obtain ⟨havail, -⟩ := hall 1 _ es s pmcRecord (by decide) run ⟨by decide, by decide⟩
    (by rw [hdrop])
  have hbatch : s.rb.batch.toNat = batch.toNat := congrArg BitVec.toNat (run_nPages_batch run).2
  have hitems := fl.items
  rw [hdrop, smonRbBatchAvailable, decide_eq_true_iff, BitVec.le_def] at havail
  dsimp only at havail
  omega

theorem run_writes (s : Channel) (k : ℕ) : ∃ p, p.rb = writes s.rb (List.replicate k pmcRecord) ∧
    p.reader = s.reader ∧ Run Step s ((List.replicate k pmcRecord).map .write) p := by
  refine ⟨_, foldl_write s _, ?_, run_foldl s _ fun e he => ?_⟩
  · induction k generalizing s with
    | zero => rfl
    | succ k ih => exact ih (s.next (.write pmcRecord))
  · obtain ⟨r, hr, rfl⟩ := List.mem_map.mp he
    obtain ⟨-, rfl⟩ := List.mem_replicate.mp hr
    exact .inr ⟨pmcRecord, rfl, by decide, by decide⟩

theorem replicate_succ_pages (a p : ℕ) : List.replicate (a + 40 * p) pmcRecord =
    List.replicate a pmcRecord ++ List.replicate (40 * p) pmcRecord :=
  List.replicate_add a (40 * p) pmcRecord

/-- PMC samples fill the pages of a fresh buffer. -/
theorem filled_start (hn : Accepted nPages) (batch : U32) {p : ℕ} (hp : nPages.toNat = p + 1) :
    Filled (writes (start nPages (fun _ _ => 0) batch 1).rb
      (List.replicate (40 + 40 * p) pmcRecord)) 0 (4000 + 4096 * p) (40 + 40 * p) := by
  have w := (inv_start hn (fun _ _ => 0) batch 1).win
  have hsize : (start nPages (fun _ _ => 0) batch 1).rb.size.toNat = (p + 1) * 4096 := by
    rw [← hp]
    exact w.size_eq
  have hle : nPages.toNat ≤ 1024 := hn.2.2
  have hzero : Filled (start nPages (fun _ _ => 0) batch 1).rb 0 0 0 := ⟨w, rfl⟩
  have htotal := totalSize_pmcRecord
  have hleft : pageLeft 0 = 4096 := rfl
  have hfirst := hzero.replicate pmcRecord rfl 40 (by omega) (by omega) (by omega)
  rw [htotal] at hfirst
  have hall := hfirst.fullPages rfl p (by rw [writes_size]; omega) (by omega)
  rw [replicate_succ_pages, writes_append]
  rw [Nat.zero_add, Nat.zero_add] at hall
  exact hall

/-- A buffer that was emptied when its last page was full has one record less when it is full
again. -/
theorem filled_again {rb : RingBuffer} {p : ℕ} (fl : Filled rb h h 0) (hend : h % 4096 = 4000)
    (hp : rb.nPages.toNat = p + 1) :
    Filled (writes rb (List.replicate (40 * p + 39) pmcRecord)) h (h + 4096 * p + 3996)
      (40 * p + 39) := by
  have hsize : rb.size.toNat = (p + 1) * 4096 := by
    rw [← hp]
    exact fl.size_eq
  have hle : rb.nPages.toNat ≤ 1024 := fl.pages.2.2
  have htotal := totalSize_pmcRecord
  have hpages := fl.fullPages hend p (by omega) (by omega)
  rw [Nat.zero_add] at hpages
  have hleft : pageLeft (h + 4096 * p) = 96 := by
    simp only [pageLeft, pageSize_eq]
    omega
  have hnext := nextPage_eq (h + 4096 * p)
  have hone := hpages.wraps pmcRecord rfl (by omega) (by rw [writes_size]; omega) (by omega)
  have hleft₁ : pageLeft (nextPage (h + 4096 * p) + pmcRecord.type.totalSize) = 3996 := by
    simp only [pageLeft, pageSize_eq]
    omega
  have hrest := hone.replicate pmcRecord rfl 38 (by omega)
    (by rw [smonRbWrite_size, writes_size]; omega) (by omega)
  have hh : nextPage (h + 4096 * p) + pmcRecord.type.totalSize + 38 * pmcRecord.type.totalSize =
      h + 4096 * p + 3996 := by omega
  rw [hh] at hrest
  rw [List.replicate_add, writes_append, List.replicate_succ, writes_cons]
  exact hrest

/-- A larger batch is not always reached. -/
theorem not_readable_of_le (hn : Accepted nPages) (hle : 40 * nPages.toNat ≤ batch.toNat) :
    ¬ Readable nPages batch := by
  obtain ⟨p, hp⟩ : ∃ p, nPages.toNat = p + 1 := ⟨nPages.toNat - 1, by have := hn.1; omega⟩
  obtain ⟨s, hrb, hreader, run⟩ := run_writes (start nPages (fun _ _ => 0) batch 1) (40 + 40 * p)
  have fl := filled_start hn batch hp
  rw [← hrb] at fl
  obtain ⟨hpages, hbatch⟩ := run_nPages_batch run
  have hP : s.rb.nPages.toNat = p + 1 := (congrArg BitVec.toNat hpages).trans hp
  have hsize := fl.size_eq
  simp only [hP, pageSize_eq] at hsize
  rcases Nat.lt_or_eq_of_le hle with hlt | heq
  · -- not even the first fill completes a batch
    exact not_readable_of_filled run fl (by omega) (by omega)
  · -- the reader takes the first fill, and the second one is a record short
    obtain ⟨c, t, u, h, fin, rest, i⟩ := exists_inv hn (by decide) run
    have hmod : h % pageSize = 4000 := by
      rw [← i.win.toNat_headOffset, fl.toNat_headOffset, pageSize_eq]
      omega
    have hitems : s.rb.items = s.rb.batch := by
      apply BitVec.eq_of_toNat_eq
      have hB : s.rb.batch.toNat = batch.toNat := congrArg BitVec.toNat hbatch
      rw [fl.items, hB]
      omega
    obtain ⟨es, q, run', i', -⟩ := i.takes_all (by omega)
      ((congrArg Reader.pc hreader).trans rfl) c hitems
    obtain ⟨q', hrb', -, run''⟩ := run_writes q (40 * p + 39)
    have hQ : q.rb.nPages.toNat = p + 1 :=
      (congrArg BitVec.toNat (run_nPages_batch run').1).trans hP
    have fl' := filled_again ⟨i'.win, i'.items⟩ hmod hQ
    rw [← hrb'] at fl'
    have hsize' := fl'.size_eq
    have hQ' : q'.rb.nPages.toNat = p + 1 :=
      (congrArg BitVec.toNat (run_nPages_batch run'').1).trans hQ
    simp only [hQ', pageSize_eq] at hsize'
    exact not_readable_of_filled ((run.append run').append run'') fl' (by omega) (by omega)

/-- **A full buffer is always readable** exactly when the batch is smaller than forty records for
each page. -/
theorem readable_iff (hn : Accepted nPages) :
    Readable nPages batch ↔ batch.toNat < 40 * nPages.toNat := by
  refine ⟨fun hread => ?_, readable_of_lt hn⟩
  by_contra hle
  exact not_readable_of_le hn (Nat.not_lt.mp hle) hread

theorem readable_iff_default : Readable 1024 1000 ↔ (1000 : U32).toNat < 40 * (1024 : U32).toNat :=
  readable_iff ⟨by decide, ⟨10, by decide⟩, by decide⟩

/-- Two pages and the default batch size. When the buffer is full, nothing is accepted any more, and
the reader is not told. -/
theorem not_readable_default :
    ¬ Readable 2 1000 ∧
    ∃ es s, Run Step (start 2 (fun _ _ => 0) 1000 1) es s ∧ s.rb.smonPoll = .none ∧
      ∀ r, Sample r → (s.rb.smonRbWrite r).accepted = false := by
  have hn : Accepted 2 := ⟨by decide, ⟨1, by decide⟩, by decide⟩
  refine ⟨not_readable_of_le hn (by decide), _, _, run_tight _ _, ?_, fun r hr => ?_⟩
  all_goals rw [foldl_write]
  · have hitems := writes_items_le (start 2 (fun _ _ => 0) 1000 1).rb tightRecords
    have hbatch := writes_batch (start 2 (fun _ _ => 0) 1000 1).rb tightRecords
    have hactive := writes_active (start 2 (fun _ _ => 0) 1000 1).rb tightRecords
    rw [length_tight] at hitems
    generalize writes (start 2 (fun _ _ => 0) 1000 1).rb tightRecords = rb at hitems hbatch hactive ⊢
    have havail : rb.smonRbBatchAvailable = false := by
      have hzero : (start 2 (fun _ _ => 0) 1000 1).rb.items.toNat = 0 := rfl
      have hthousand : (start 2 (fun _ _ => 0) 1000 1).rb.batch.toNat = 1000 := rfl
      rw [smonRbBatchAvailable, decide_eq_false_iff_not, BitVec.le_def, hbatch, hthousand]
      omega
    have hwriters : rb.smonRbIsActive = true := by
      rw [smonRbIsActive, hactive]
      rfl
    rw [smonPoll, havail, hwriters]
    simp
  · obtain ⟨w, hsize⟩ := at_tight (fun _ _ => 0) 1000
    have hlarge : 20 ≤ r.type.totalSize := by
      obtain ⟨hpad, heof⟩ := hr
      cases ht : r.type with
      | pad => exact absurd ht hpad
      | eof => exact absurd ht heof
      | _ => decide
    have hc := smonRbWrite_cases w (writable_of_sample hr)
    generalize RingBuffer.smonRbWrite _ r = res at hc ⊢
    cases hc with
    | full => rfl
    | padded => rfl
    | fits => omega
    | wraps => omega

end Channel

end SchedMon
