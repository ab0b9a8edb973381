import SchedMon.RingBuffer.Write

/-!
# The buffer under an arbitrary client

Writers hand over records of any type; the reader may pass any two words to `SMON_IOCREAD`. The
representation invariant holds all the same, and every write is safe: it stays inside one page of
the buffer, spares the unread bytes, and is accepted exactly when the record and the page rest it
has to skip fit into the free space.

The count of items is *not* part of the invariant. Nothing ties it to the bytes once a client
reports item and byte counts that do not belong together.

## Main results

* `at_runOps` — any run keeps the window
* `runOps_safe` — the representation invariant and the safety of every write, for any run
-/

namespace SchedMon

namespace RingBuffer

/-- One call on the buffer: a write by a hook, or a read with client-chosen arguments. -/
inductive Op where
  | write (r : Record)
  | read (items sz : U32)

/-- The buffer after one call. -/
def applyOp (rb : RingBuffer) : Op → RingBuffer
  | .write r => (rb.smonRbWrite r).rb
  | .read items sz => rb.smonRbRead items sz

/-- The buffer after a sequence of calls. -/
def runOps (rb : RingBuffer) (ops : List Op) : RingBuffer := ops.foldl applyOp rb

variable {rb : RingBuffer} {t h : ℕ} {r : Record}

/-! ### The window is kept -/

theorem WriteCase.at {res : WriteResult} (w : At rb t h) (hc : WriteCase rb t h r res) :
    ∃ h', At res.rb t h' := by
  have hle := w.le
  have hlt := w.lt
  cases hc with
  | full => exact ⟨h, w⟩
  | padded hpage hspace => exact ⟨nextPage h, w.smonRbStuffPage (w.stuff_room hpage hspace)⟩
  | fits hpage hspace => exact ⟨_, w.commit hpage (by omega)⟩
  | wraps hpage hspace =>
    have w' := w.smonRbStuffPage (w.stuff_room hpage (by omega))
    refine ⟨_, w'.commit ?_ ?_⟩
    · rw [pageLeft_nextPage]
      exact r.type.totalSize_le.trans (by decide)
    · rw [smonRbStuffPage_size, nextPage_eq]
      omega

theorem At.applyOp (w : At rb t h) (op : Op) : ∃ t' h', At (rb.applyOp op) t' h' := by
  cases op with
  | read items sz => exact ⟨_, _, w.smonRbRead items sz⟩
  | write r =>
    cases hr : r.type.writable with
    | false => exact ⟨t, h, by rwa [RingBuffer.applyOp, smonRbWrite_of_not_writable hr]⟩
    | true =>
      obtain ⟨h', w'⟩ := (smonRbWrite_cases w hr).at w
      exact ⟨t, h', w'⟩

theorem At.runOps (w : At rb t h) (ops : List Op) : ∃ t' h', At (rb.runOps ops) t' h' := by
  induction ops generalizing rb t h with
  | nil => exact ⟨t, h, w⟩
  | cons op ops ih =>
    obtain ⟨t', h', w'⟩ := w.applyOp op
    exact ih w'

theorem at_runOps {nPages : U32} (hn : Accepted nPages) (data : ℕ → ℕ → Byte) (ops : List Op) :
    ∃ t h, At ((smonCreateRb nPages data).runOps ops) t h :=
  (at_smonCreateRb hn data).runOps ops

/-! ### The unread region -/

/-- Address `a` lies in the unread region `[tail, head)`, taken cyclically. -/
def Unread (rb : RingBuffer) (a : ℕ) : Prop :=
  a < rb.size.toNat ∧
    (a + rb.size.toNat - rb.tail.toNat) % rb.size.toNat < rb.rbCount.toNat

theorem At.unread_iff (w : At rb t h) (a : ℕ) :
    rb.Unread a ↔ ∃ x, t ≤ x ∧ x < h ∧ x % rb.size.toNat = a := by
  have hle := w.le
  have hlt := w.lt
  rw [Unread, w.toNat_rbCount, w.tail_eq]
  constructor
  · rintro ⟨ha, hcount⟩
    set d := (a + rb.size.toNat - t % rb.size.toNat) % rb.size.toNat with hd
    refine ⟨t + d, by omega, by omega, ?_⟩
    have htm : t % rb.size.toNat < rb.size.toNat := Nat.mod_lt _ (by omega)
    rw [hd, Nat.add_mod_mod, ← Nat.mod_add_mod,
      show t % rb.size.toNat + (a + rb.size.toNat - t % rb.size.toNat) = a + rb.size.toNat by omega,
      Nat.add_mod_right, Nat.mod_eq_of_lt ha]
  · rintro ⟨x, htx, hxh, rfl⟩
    refine ⟨Nat.mod_lt _ (by omega), ?_⟩
    rw [Cyclic.sub_mod_window htx (by omega)]
    omega

/-! ### What holds of every run -/

/-- The representation invariant of the buffer. -/
structure RepInv (rb : RingBuffer) : Prop where
  head_lt : rb.head.toNat < rb.size.toNat
  tail_lt : rb.tail.toNat < rb.size.toNat
  head_dvd : 4 ∣ rb.head.toNat
  count_le : rb.rbCount.toNat ≤ rb.size.toNat - 1

theorem At.repInv (w : At rb t h) : RepInv rb := by
  have hlt := w.lt
  refine ⟨?_, ?_, ?_, ?_⟩
  · rw [w.head_eq]; exact Nat.mod_lt _ (by omega)
  · rw [w.tail_eq]; exact Nat.mod_lt _ (by omega)
  · rw [w.head_eq, Nat.dvd_mod_iff ((show 4 ∣ pageSize by decide).trans w.pageSize_dvd)]
    exact w.dvd
  · rw [w.toNat_rbCount]; omega

/-- The store stays inside one page of the buffer. -/
def Inside (rb : RingBuffer) (st : Store) : Prop :=
  st.page.toNat < rb.nPages.toNat ∧ st.offset.toNat + st.bytes.length ≤ pageSize

theorem StoresAt.inside {st : Store} {x : ℕ} (ha : StoresAt rb st x) (hs : Shape rb) :
    Inside rb st := by
  have hbig := hs.le_size
  refine ⟨?_, by rw [ha.offset_eq]; exact ha.fits⟩
  rw [ha.page_eq, Nat.div_lt_iff_lt_mul (by decide), ← hs.size_eq]
  exact Nat.mod_lt _ (by simp only [pageSize_eq] at hbig; omega)

/-- The bytes a write has to skip: the rest of the page, if the record does not fit there. -/
def skipped (rb : RingBuffer) (r : Record) : ℕ :=
  if rb.rbPageSpace.toNat < r.type.totalSize then rb.rbPageSpace.toNat else 0

/-- Everything a write must respect, whatever the client did before. -/
structure WriteSafe (rb : RingBuffer) (r : Record) (res : WriteResult) : Prop where
  /-- Every `memcpy`, of a record or of a PAD header, stays inside one page. -/
  inside : ∀ st ∈ res.stores, Inside rb st
  /-- An accepted record lies, header and structure together, inside one page. -/
  record : res.accepted = true → ∃ page offset, page < rb.nPages.toNat ∧
    offset + r.type.totalSize ≤ pageSize ∧
    ∀ i (hi : i < r.bytes.length), res.rb.data page (offset + i) = r.bytes[i]
  /-- No unread byte changes. -/
  unread : ∀ a, rb.Unread a → res.rb.byteAt a = rb.byteAt a
  /-- When a record is accepted. -/
  accepted_iff : r.type.writable = true →
    (res.accepted = true ↔ r.type.totalSize + rb.skipped r ≤ rb.rbSpace.toNat)
  /-- The reader's cursor is the reader's. -/
  tail_eq : res.rb.tail = rb.tail
  /-- A dropped write counts nothing. -/
  items_eq : res.accepted = false → res.rb.items = rb.items
  /-- A dropped write leaves the head, or moves it over one PAD to the next page start, which lies
  strictly before the tail. -/
  head_eq : res.accepted = false → res.rb.head = rb.head ∨
    ∃ st, res.stores = [st] ∧ st = ⟨headPage rb.head, headOffset rb.head, Record.headerBytes .pad⟩ ∧
      headOffset res.rb.head = 0 ∧ rb.rbPageSpace.toNat < rb.rbSpace.toNat ∧
      res.rb.rbCount.toNat = rb.rbCount.toNat + rb.rbPageSpace.toNat ∧
      res.rb.head ≠ res.rb.tail

theorem At.stores_commit (w : At rb t h) (hfit : r.type.totalSize ≤ pageLeft h) :
    ∀ st ∈ (rb.commit r).stores, Inside rb st := by
  intro st hst
  have hheader := (w.storesAt_header hfit).inside w.toShape
  simp only [RingBuffer.commit] at hst
  split at hst
  · rename_i hpos
    rcases List.mem_pair.mp hst with rfl | rfl
    · exact hheader
    · exact (w.storesAt_payload hfit hpos).inside w.toShape
  · rw [List.mem_singleton.mp hst]
    exact hheader

theorem At.record_commit (w : At rb t h) (hfit : r.type.totalSize ≤ pageLeft h) :
    ∃ page offset, page < rb.nPages.toNat ∧ offset + r.type.totalSize ≤ pageSize ∧
      ∀ i (hi : i < r.bytes.length), (rb.commit r).rb.data page (offset + i) = r.bytes[i] := by
  have hmod : h % pageSize < pageSize := Nat.mod_lt _ (by decide)
  have hx : h % rb.size.toNat % pageSize = h % pageSize := Nat.mod_mod_of_dvd _ w.pageSize_dvd
  refine ⟨h % rb.size.toNat / pageSize, h % pageSize, ?_, by rw [pageLeft] at hfit; omega, ?_⟩
  · rw [← w.toNat_headPage]; exact w.headPage_lt
  · intro i hi
    have hlen := hi
    rw [Record.length_bytes] at hlen
    have hs' : Shape (rb.commit r).rb := ⟨w.pages, w.size_eq⟩
    rw [pageLeft] at hfit
    rw [← w.vbyte_commit (by rw [pageLeft]; exact hfit) hi, hs'.vbyte_eq, commit_size,
      Cyclic.mod_add_of_block w.pageSize_dvd (by omega)]
    simp only [pageSize_eq] at hfit hmod hx ⊢
    congr 1 <;> omega

theorem WriteCase.safe {res : WriteResult} (w : At rb t h) (hc : WriteCase rb t h r res) :
    WriteSafe rb r res := by
  have hle := w.le
  have hlt := w.lt
  have hps : rb.rbPageSpace.toNat = pageLeft h := w.toNat_rbPageSpace
  -- the unread bytes, by stream position
  have hunread : (∀ y, t ≤ y → y < h → res.rb.vbyte y = rb.vbyte y) → res.rb.size = rb.size →
      ∀ a, rb.Unread a → res.rb.byteAt a = rb.byteAt a := by
    intro hy hsize a ha
    obtain ⟨x, htx, hxh, rfl⟩ := (w.unread_iff a).mp ha
    have := hy x htx hxh
    rwa [vbyte, vbyte, hsize] at this
  cases hc with
  | full hfull =>
    refine ⟨by simp, by simp, fun _ _ => rfl, fun _ => ?_, rfl, fun _ => rfl, fun _ => .inl rfl⟩
    rw [w.toNat_rbSpace]
    simp only [Bool.false_eq_true, false_iff, not_le]
    omega
  | padded hpage hspace hfull =>
    have hroom := w.stuff_room (r := r) hpage hspace
    have w' := w.smonRbStuffPage hroom
    refine ⟨?_, by simp, hunread (fun y => w.vbyte_stuff_of_window hroom) rfl, fun _ => ?_, rfl,
      fun _ => rfl, fun _ => .inr ⟨_, rfl, rfl, ?_, ?_, ?_, ?_⟩⟩
    · intro st hst
      rw [List.mem_singleton.mp hst]
      exact w.storesAt_pad.inside w.toShape
    · rw [skipped, hps, if_pos hpage, w.toNat_rbSpace]
      simp only [Bool.false_eq_true, false_iff, not_le]
      exact hfull
    · have := w'.toNat_headOffset
      rw [nextPage_mod] at this
      exact BitVec.eq_of_toNat_eq this
    · rw [hps, w.toNat_rbSpace]
      omega
    · rw [w'.toNat_rbCount, w.toNat_rbCount, hps, nextPage_eq]
      omega
    · intro heq
      have hcount := w'.toNat_rbCount
      have hpos := pageLeft_pos h
      rw [rbCount, rbCountOf, heq, BitVec.sub_self, BitVec.zero_and, nextPage_eq] at hcount
      simp only [BitVec.toNat_ofNat, Nat.zero_mod] at hcount
      omega
  | fits hpage hspace =>
    refine ⟨w.stores_commit hpage, fun _ => w.record_commit hpage,
      hunread (fun y => w.vbyte_commit_of_window hpage (by omega)) rfl, fun _ => ?_, rfl,
      by simp, by simp⟩
    rw [skipped, hps, if_neg (by omega), w.toNat_rbSpace]
    simpa using hspace
  | wraps hpage hspace =>
    have hroom := w.stuff_room (r := r) hpage (by omega)
    have w' := w.smonRbStuffPage hroom
    have hfit := totalSize_le_pageLeft_nextPage r h
    have hroom' : nextPage h + r.type.totalSize - t < rb.smonRbStuffPage.1.size.toNat := by
      rw [smonRbStuffPage_size, nextPage_eq]
      omega
    refine ⟨?_, fun _ => w'.record_commit hfit, hunread ?_ rfl, fun _ => ?_, rfl, by simp, by simp⟩
    · intro st hst
      rcases List.mem_cons.mp hst with rfl | hst
      · exact w.storesAt_pad.inside w.toShape
      · exact w'.stores_commit hfit st hst
    · intro y hty hyh
      have := lt_nextPage h
      rw [w'.vbyte_commit_of_window hfit hroom' hty (by omega), w.vbyte_stuff_of_window hroom hty hyh]
    · rw [skipped, hps, if_pos hpage, w.toNat_rbSpace]
      simpa using hspace

theorem At.writeSafe (w : At rb t h) (r : Record) : WriteSafe rb r (rb.smonRbWrite r) := by
  cases hr : r.type.writable with
  | true => exact (smonRbWrite_cases w hr).safe w
  | false =>
    rw [smonRbWrite_of_not_writable hr]
    exact ⟨by simp, by simp, fun _ _ => rfl, by simp [hr], rfl, fun _ => rfl, fun _ => .inl rfl⟩

/-- **The buffer under an arbitrary client.** After any sequence of writes and of reads with
arbitrary arguments the representation invariant holds, and whatever is written next is safe. -/
theorem runOps_safe {nPages : U32} (hn : Accepted nPages) (data : ℕ → ℕ → Byte) (ops : List Op) :
    RepInv ((smonCreateRb nPages data).runOps ops) ∧
      ∀ r, WriteSafe ((smonCreateRb nPages data).runOps ops) r
        (((smonCreateRb nPages data).runOps ops).smonRbWrite r) := by
  obtain ⟨t, h, w⟩ := at_runOps hn data ops
  exact ⟨w.repInv, w.writeSafe⟩

/-- The smallest buffer, one record, and a client that claims more than there is. -/
theorem runOps_safe_two_pages :
    RepInv ((smonCreateRb 2 fun _ _ => 0).runOps [.write .eof, .read 5 4096]) ∧
      ∀ r, WriteSafe ((smonCreateRb 2 fun _ _ => 0).runOps [.write .eof, .read 5 4096]) r
        (((smonCreateRb 2 fun _ _ => 0).runOps [.write .eof, .read 5 4096]).smonRbWrite r) :=
  runOps_safe ⟨by decide, ⟨1, by decide⟩, by decide⟩ (fun _ _ => 0) [.write .eof, .read 5 4096]

end RingBuffer

end SchedMon
