import SchedMon.RingBuffer.Window

/-!
# What a write does

`smon_rb_write` has two space checks with a page stuffing between them, so four outcomes. They are
named once in `WriteCase`, in terms of the window, and everything later goes through them.

The second check cannot be confused by the wrap: whenever the page is stuffed the unread region
ends beyond it, because the record, longer than the rest of the page, passed the first check.

## Main results

* `WriteCase`, `smonRbWrite_cases` — the four outcomes
* `At.smonRbStuffPage`, `At.commit` — stuffing and committing move the write position
* `At.vbyte_commit` — a committed record's bytes are at the old write position
-/

namespace SchedMon

namespace RingBuffer

variable {rb : RingBuffer} {t h : ℕ} {r : Record}

/-- Bytes left in the page of position `h`. -/
def pageLeft (h : ℕ) : ℕ := pageSize - h % pageSize

theorem nextPage_eq (h : ℕ) : nextPage h = h + pageLeft h := rfl

theorem pageLeft_pos (h : ℕ) : 0 < pageLeft h := by
  have : h % pageSize < pageSize := Nat.mod_lt _ (by decide)
  simp only [pageLeft]
  omega

/-- A PAD header always fits: pages and records are multiples of four bytes. -/
theorem four_le_pageLeft (hd : 4 ∣ h) : 4 ≤ pageLeft h := by
  simp only [pageLeft, pageSize_eq]
  omega

theorem pageLeft_nextPage (h : ℕ) : pageLeft (nextPage h) = pageSize := by
  rw [pageLeft, nextPage_mod, Nat.sub_zero]

/-! ### Stuffing the page -/

theorem At.storesAt_pad (w : At rb t h) : StoresAt rb rb.smonRbStuffPage.2 h where
  page_eq := w.toNat_headPage
  offset_eq := w.toNat_headOffset
  fits := by
    have := four_le_pageLeft w.dvd
    simp only [pageLeft] at this
    simp only [smonRbStuffPage, Record.length_headerBytes]
    omega

theorem At.smonRbStuffPage (w : At rb t h) (hroom : nextPage h - t < rb.size.toNat) :
    At rb.smonRbStuffPage.1 t (nextPage h) where
  pages := w.pages
  size_eq := w.size_eq
  tail_eq := w.tail_eq
  head_eq := w.toNat_stuffed_head
  le := w.le.trans (lt_nextPage h).le
  lt := hroom
  dvd := (show 4 ∣ pageSize by decide).trans (Nat.dvd_of_mod_eq_zero (nextPage_mod h))

/-! ### Committing the record -/

theorem At.storesAt_header (w : At rb t h) (hfit : r.type.totalSize ≤ pageLeft h) :
    StoresAt rb (rb.headerStore r) h where
  page_eq := w.toNat_headPage
  offset_eq := w.toNat_headOffset
  fits := by
    rw [SampleType.totalSize_eq, pageLeft] at hfit
    simp only [headerStore, Record.length_headerBytes]
    omega

theorem At.storesAt_payload (w : At rb t h) (hfit : r.type.totalSize ≤ pageLeft h)
    (hpos : 0 < r.type.payloadSize) :
    StoresAt rb (rb.payloadStore r) (h + 4) := by
  rw [SampleType.totalSize_eq, pageLeft] at hfit
  have hmod : (h + 4) % pageSize = h % pageSize + 4 := by
    simp only [pageSize_eq] at hfit ⊢
    omega
  refine ⟨?_, ?_, ?_⟩
  · rw [payloadStore, w.toNat_headPage, Cyclic.mod_add_of_block w.pageSize_dvd (by omega)]
    have hx : h % rb.size.toNat % pageSize = h % pageSize :=
      Nat.mod_mod_of_dvd _ w.pageSize_dvd
    simp only [pageSize_eq] at hx hfit ⊢
    omega
  · rw [payloadStore, BitVec.toNat_add, w.toNat_headOffset, hmod,
      show (BitVec.ofNat 32 headerSize).toNat = 4 from rfl]
    simp only [pageSize_eq] at hfit ⊢
    omega
  · rw [hmod, payloadStore, r.length_payload]
    omega

theorem At.commit (w : At rb t h) (hfit : r.type.totalSize ≤ pageLeft h)
    (hroom : h + r.type.totalSize - t < rb.size.toNat) :
    At (rb.commit r).rb t (h + r.type.totalSize) where
  pages := w.pages
  size_eq := w.size_eq
  tail_eq := w.tail_eq
  head_eq := w.toNat_advanced_head (hfit.trans (Nat.sub_le _ _))
  le := w.le.trans (Nat.le_add_right _ _)
  lt := hroom
  dvd := (Nat.dvd_add_right w.dvd).mpr r.type.four_dvd_totalSize

@[simp] theorem commit_size : (rb.commit r).rb.size = rb.size := rfl
@[simp] theorem commit_nPages : (rb.commit r).rb.nPages = rb.nPages := rfl
@[simp] theorem commit_tail : (rb.commit r).rb.tail = rb.tail := rfl
@[simp] theorem commit_items : (rb.commit r).rb.items = rb.items + 1 := rfl
@[simp] theorem commit_batch : (rb.commit r).rb.batch = rb.batch := rfl
@[simp] theorem commit_active : (rb.commit r).rb.active = rb.active := rfl
@[simp] theorem commit_accepted : (rb.commit r).accepted = true := rfl
@[simp] theorem smonRbStuffPage_size : rb.smonRbStuffPage.1.size = rb.size := rfl
@[simp] theorem smonRbStuffPage_nPages : rb.smonRbStuffPage.1.nPages = rb.nPages := rfl
@[simp] theorem smonRbStuffPage_tail : rb.smonRbStuffPage.1.tail = rb.tail := rfl
@[simp] theorem smonRbStuffPage_items : rb.smonRbStuffPage.1.items = rb.items := rfl
@[simp] theorem smonRbStuffPage_batch : rb.smonRbStuffPage.1.batch = rb.batch := rfl
@[simp] theorem smonRbStuffPage_active : rb.smonRbStuffPage.1.active = rb.active := rfl
@[simp] theorem smonRbStuffPage_irq : rb.smonRbStuffPage.1.irq = rb.irq := rfl

/-- With a payload, committing is two stores... -/
theorem vbyte_commit_of_pos (hpos : 0 < r.type.payloadSize) (x : ℕ) :
    (rb.commit r).rb.vbyte x
      = ((rb.copy (rb.headerStore r)).copy (rb.payloadStore r)).vbyte x := by
  have hdata : (rb.commit r).rb.data
      = ((rb.copy (rb.headerStore r)).copy (rb.payloadStore r)).data := by
    simp only [RingBuffer.commit, gt_iff_lt, hpos, if_true]
    rfl
  exact vbyte_congr _ _ hdata rfl x

/-- ... and without one it is the header's. -/
theorem vbyte_commit_of_eq_zero (hpos : ¬ 0 < r.type.payloadSize) (x : ℕ) :
    (rb.commit r).rb.vbyte x = (rb.copy (rb.headerStore r)).vbyte x := by
  have hdata : (rb.commit r).rb.data = (rb.copy (rb.headerStore r)).data := by
    simp only [RingBuffer.commit, gt_iff_lt, hpos, if_false]
    rfl
  exact vbyte_congr _ _ hdata rfl x

theorem At.vbyte_header (w : At rb t h) (hfit : r.type.totalSize ≤ pageLeft h) {i : ℕ}
    (hi : i < 4) : (rb.copy (rb.headerStore r)).vbyte (h + i) = (Record.headerBytes r.type)[i] :=
  (w.storesAt_header hfit).vbyte_self w.toShape hi

/-- The bytes of a committed record are at the old write position, in order. -/
theorem At.vbyte_commit (w : At rb t h) (hfit : r.type.totalSize ≤ pageLeft h) {i : ℕ}
    (hi : i < r.bytes.length) : (rb.commit r).rb.vbyte (h + i) = r.bytes[i] := by
  have hlen : r.bytes.length = r.payload.length + 4 := by
    rw [Record.length_bytes, SampleType.totalSize_eq, r.length_payload]
  have hsz : r.payload.length + 4 ≤ pageLeft h := by rw [r.length_payload]; exact hfit
  simp only [Record.bytes]
  by_cases hpos : 0 < r.type.payloadSize
  · have hs := w.toShape.copy (rb.headerStore r)
    have hpay : StoresAt (rb.copy (rb.headerStore r)) (rb.payloadStore r) (h + 4) := by
      have := w.storesAt_payload hfit hpos
      exact ⟨this.page_eq, this.offset_eq, this.fits⟩
    rw [vbyte_commit_of_pos hpos]
    rcases Nat.lt_or_ge i 4 with hi4 | hi4
    · -- a header byte: the payload store does not come round to it
      have hbig : 2 * pageSize ≤ (rb.copy (rb.headerStore r)).size.toNat := w.le_size
      have hpage : pageLeft h ≤ pageSize := Nat.sub_le _ _
      have hne : ∀ j < (rb.payloadStore r).bytes.length,
          (h + i) % (rb.copy (rb.headerStore r)).size.toNat
            ≠ (h + 4 + j) % (rb.copy (rb.headerStore r)).size.toNat := by
        intro j hj
        have hj' : j < r.payload.length := hj
        simp only [pageSize_eq] at hbig hpage
        exact Cyclic.mod_ne_of_window (by omega) (by omega)
      rw [hpay.vbyte_of_ne hs hne, w.vbyte_header hfit hi4]
      exact (List.getElem_append_left (by simpa using hi4)).symm
    · have hself := hpay.vbyte_self hs (show i - 4 < r.payload.length by omega)
      rw [show h + 4 + (i - 4) = h + i by omega] at hself
      rw [hself, List.getElem_append_right (by simpa using hi4)]
      rfl
  · have hi4 : i < 4 := by rw [r.length_payload] at hlen; omega
    rw [vbyte_commit_of_eq_zero hpos, w.vbyte_header hfit hi4]
    exact (List.getElem_append_left (by simpa using hi4)).symm

/-- Committing a record leaves every unread byte alone. -/
theorem At.vbyte_commit_of_window (w : At rb t h) (hfit : r.type.totalSize ≤ pageLeft h)
    (hroom : h + r.type.totalSize - t < rb.size.toNat) {y : ℕ} (hty : t ≤ y) (hyh : y < h) :
    (rb.commit r).rb.vbyte y = rb.vbyte y := by
  rw [SampleType.totalSize_eq] at hroom
  have hheader : (rb.copy (rb.headerStore r)).vbyte y = rb.vbyte y :=
    (w.storesAt_header hfit).vbyte_of_window w.toShape hty hyh (by
      simp only [headerStore, Record.length_headerBytes]
      omega)
  by_cases hpos : 0 < r.type.payloadSize
  · have hpay : StoresAt (rb.copy (rb.headerStore r)) (rb.payloadStore r) (h + 4) := by
      have := w.storesAt_payload hfit hpos
      exact ⟨this.page_eq, this.offset_eq, this.fits⟩
    rw [vbyte_commit_of_pos hpos, ← hheader]
    refine hpay.vbyte_of_window (w.toShape.copy _) hty (by omega) ?_
    have hsz : (rb.copy (rb.headerStore r)).size = rb.size := rfl
    simp only [payloadStore, hsz, r.length_payload]
    omega
  · rw [vbyte_commit_of_eq_zero hpos, hheader]

/-- A PAD goes into the free space, so stuffing spares the unread bytes. -/
theorem At.vbyte_stuff_of_window (w : At rb t h) (hroom : nextPage h - t < rb.size.toNat) {y : ℕ}
    (hty : t ≤ y) (hyh : y < h) : rb.smonRbStuffPage.1.vbyte y = rb.vbyte y := by
  have hpad := four_le_pageLeft w.dvd
  rw [nextPage_eq] at hroom
  rw [← w.storesAt_pad.vbyte_of_window w.toShape hty hyh (by
    simp only [RingBuffer.smonRbStuffPage, Record.length_headerBytes]; omega)]
  exact vbyte_congr _ _ rfl rfl y

theorem totalSize_le_pageLeft_nextPage (r : Record) (h : ℕ) :
    r.type.totalSize ≤ pageLeft (nextPage h) := by
  rw [pageLeft_nextPage]
  exact r.type.totalSize_le.trans (by decide)

/-! ### The four outcomes -/

/-- The outcomes of `smon_rb_write` on a buffer whose cursors stand at `t` and `h`. -/
inductive WriteCase (rb : RingBuffer) (t h : ℕ) (r : Record) : WriteResult → Prop
  /-- Dropped at the first check. -/
  | full (hfull : rb.size.toNat - 1 - (h - t) < r.type.totalSize) :
      WriteCase rb t h r ⟨rb, [], false⟩
  /-- The page was stuffed, and then the record was dropped at the second check. -/
  | padded (hpage : pageLeft h < r.type.totalSize)
      (hspace : r.type.totalSize ≤ rb.size.toNat - 1 - (h - t))
      (hfull : rb.size.toNat - 1 - (h - t) < r.type.totalSize + pageLeft h) :
      WriteCase rb t h r ⟨rb.smonRbStuffPage.1, [rb.smonRbStuffPage.2], false⟩
  /-- Committed at the head. -/
  | fits (hpage : r.type.totalSize ≤ pageLeft h)
      (hspace : r.type.totalSize ≤ rb.size.toNat - 1 - (h - t)) :
      WriteCase rb t h r (rb.commit r)
  /-- The page was stuffed, and the record committed at the start of the next one. -/
  | wraps (hpage : pageLeft h < r.type.totalSize)
      (hspace : r.type.totalSize + pageLeft h ≤ rb.size.toNat - 1 - (h - t)) :
      WriteCase rb t h r ⟨(rb.smonRbStuffPage.1.commit r).rb,
        rb.smonRbStuffPage.2 :: (rb.smonRbStuffPage.1.commit r).stores, true⟩

theorem toNat_totalSize (r : Record) :
    (BitVec.ofNat 32 r.type.totalSize).toNat = r.type.totalSize := by
  have := r.type.totalSize_le
  rw [BitVec.toNat_ofNat, Nat.mod_eq_of_lt (by omega)]

/-- The room a stuffed page leaves, provided the first check was passed. -/
theorem At.stuff_room (w : At rb t h) (hpage : pageLeft h < r.type.totalSize)
    (hspace : r.type.totalSize ≤ rb.size.toNat - 1 - (h - t)) :
    nextPage h - t < rb.size.toNat := by
  have hle := w.le
  have hlt := w.lt
  rw [nextPage_eq]
  omega

theorem smonRbWrite_cases (w : At rb t h) (hr : r.type.writable = true) :
    WriteCase rb t h r (rb.smonRbWrite r) := by
  have hn := toNat_totalSize r
  simp only [smonRbWrite, hr, if_true, BitVec.lt_def, hn, w.toNat_rbSpace, w.toNat_rbPageSpace]
  split
  · rename_i hfull
    exact .full hfull
  · rename_i hspace
    split
    · rename_i hpage
      have hroom := w.stuff_room (r := r) hpage (by omega)
      have w' := w.smonRbStuffPage hroom
      have hsp := w'.toNat_rbSpace
      have hle := w.le
      rw [smonRbStuffPage_size, nextPage_eq] at hsp
      rw [nextPage_eq] at hroom
      rw [hsp]
      split
      · rename_i hfull
        exact .padded hpage (by omega) (by omega)
      · rename_i hfit
        exact .wraps hpage (by omega)
    · rename_i hpage
      exact .fits (by rw [pageLeft]; omega) (by omega)

/-- A PAD is not written: the `switch` has no case for it. -/
theorem smonRbWrite_of_not_writable (hr : r.type.writable = false) :
    rb.smonRbWrite r = ⟨rb, [], false⟩ := by
  simp [smonRbWrite, hr]

/-! ### What no write touches -/

@[simp] theorem smonRbWrite_size (rb : RingBuffer) (r : Record) :
    (rb.smonRbWrite r).rb.size = rb.size := by
  simp only [smonRbWrite]
  split_ifs <;> rfl

@[simp] theorem smonRbWrite_nPages (rb : RingBuffer) (r : Record) :
    (rb.smonRbWrite r).rb.nPages = rb.nPages := by
  simp only [smonRbWrite]
  split_ifs <;> rfl

@[simp] theorem smonRbWrite_batch (rb : RingBuffer) (r : Record) :
    (rb.smonRbWrite r).rb.batch = rb.batch := by
  simp only [smonRbWrite]
  split_ifs <;> rfl

@[simp] theorem smonRbWrite_active (rb : RingBuffer) (r : Record) :
    (rb.smonRbWrite r).rb.active = rb.active := by
  simp only [smonRbWrite]
  split_ifs <;> rfl

end RingBuffer

end SchedMon
