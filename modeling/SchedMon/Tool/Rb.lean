import SchedMon.RingBuffer.Layout

/-!
# The user-space cursor

`tool/src/rb.c`: the reader keeps its own tail and a count of the bytes it consumed since it last
told the kernel. It never looks at the kernel's head. Its words are masked with expressions of its
own, on a 64-bit tail, and this file shows that on stream positions they do what the kernel's do.

## Main definitions

* `SmonRb` — `struct smon_rb`
* `SmonRb.smonRbConsume`, `smonRbPageNext`, `smonRbFlush`
* `SmonRb.Follows` — the cursor stands at stream position `u`, having consumed from `t`
-/

namespace SchedMon

/-- `struct smon_rb`. The address the pages are mapped at is not represented: addresses are
relative to it. -/
structure SmonRb where
  tail : BitVec 64
  size : U32
  nPages : U32
  consumed : U32
  deriving DecidableEq

namespace SmonRb

/-- `smon_rb_init`. -/
def smonRbInit (mmapPages : U32) : SmonRb where
  tail := 0
  consumed := 0
  size := mmapPages * BitVec.ofNat 32 pageSize
  nPages := mmapPages

/-- `smon_rb_cursor`. -/
def smonRbCursor (rb : SmonRb) : ℕ := rb.tail.toNat

/-- `smon_rb_count`. -/
def smonRbCount (rb : SmonRb) (fst lst : BitVec 64) : U32 :=
  (lst - fst).setWidth 32 &&& (rb.size - 1)

/-- `smon_rb_consume`. -/
def smonRbConsume (rb : SmonRb) (size : U32) : SmonRb :=
  let mask : U32 := ((rb.nPages - 1) <<< pageShift) ||| (BitVec.ofNat 32 pageSize - 1)
  { rb with
    tail := (rb.tail + size.setWidth 64) &&& mask.setWidth 64
    consumed := rb.consumed + size }

/-- `smon_rb_page_next`. -/
def smonRbPageNext (rb : SmonRb) : SmonRb :=
  let mask : U32 := (rb.nPages - 1) <<< pageShift
  let tail := (rb.tail + BitVec.ofNat 64 (2 ^ pageShift)) &&& mask.setWidth 64
  { rb with
    tail := tail
    consumed := rb.consumed + rb.smonRbCount rb.tail tail }

/-- `smon_rb_flush`: the cursor with its count cleared, and the count. -/
def smonRbFlush (rb : SmonRb) : SmonRb × U32 := ({ rb with consumed := 0 }, rb.consumed)

/-- The cursor stands at stream position `u` and has consumed everything from `t` on. -/
structure Follows (user : SmonRb) (rb : RingBuffer) (t u : ℕ) : Prop where
  nPages_eq : user.nPages = rb.nPages
  size_eq : user.size = rb.size
  tail_eq : user.tail.toNat = u % rb.size.toNat
  consumed_eq : user.consumed.toNat = u - t

variable {user : SmonRb} {rb : RingBuffer} {t u : ℕ}

/-- The pages of a ring: shifting the page mask leaves the offset bits clear. -/
theorem and_page_mask (j x : ℕ) :
    x &&& (2 ^ j - 1) <<< pageShift = x / pageSize % 2 ^ j * pageSize := by
  refine Nat.eq_of_testBit_eq fun i => ?_
  rw [Nat.testBit_and, Nat.testBit_shiftLeft, Nat.testBit_two_pow_sub_one, pageSize,
    Nat.mul_comm, Nat.testBit_two_pow_mul, Nat.testBit_mod_two_pow, Nat.testBit_div_two_pow]
  by_cases hi : pageShift ≤ i
  · simp only [hi, decide_true, Bool.true_and]
    rw [Nat.sub_add_cancel hi, Bool.and_comm]
  · simp [hi]

/-- Truncation to `unsigned int` commutes with the subtraction. -/
theorem setWidth_sub (x y : BitVec 64) :
    (x - y).setWidth 32 = x.setWidth 32 - y.setWidth 32 := by
  refine BitVec.eq_of_toNat_eq ?_
  have hx := x.isLt
  have hy := y.isLt
  simp only [BitVec.toNat_setWidth, BitVec.toNat_sub]
  omega

theorem follows_smonRbInit (hs : RingBuffer.Shape rb) :
    Follows (smonRbInit rb.nPages) rb 0 0 := by
  refine ⟨rfl, BitVec.eq_of_toNat_eq ?_, by simp [smonRbInit], by simp [smonRbInit]⟩
  have hle : rb.nPages.toNat ≤ 1024 := hs.pages.2.2
  rw [hs.size_eq]
  simp only [smonRbInit, BitVec.toNat_mul, BitVec.toNat_ofNat, RingBuffer.pageSize_eq]
  omega

/-- Consuming bytes of the unread region. -/
theorem Follows.smonRbConsume (f : Follows user rb t u) (hs : RingBuffer.Shape rb) (htu : t ≤ u)
    {n : ℕ} (hn : n ≤ pageSize) (hlt : u + n - t < rb.size.toNat) :
    Follows (user.smonRbConsume (BitVec.ofNat 32 n)) rb t (u + n) where
  nPages_eq := f.nPages_eq
  size_eq := f.size_eq
  tail_eq := by
    have hsmall := hs.size_le
    have htail : user.tail.toNat < rb.size.toNat := by
      rw [f.tail_eq]; exact Nat.mod_lt _ (by omega)
    simp only [RingBuffer.pageSize_eq, smonMaxPages] at hsmall hn
    simp only [SmonRb.smonRbConsume, f.nPages_eq]
    rw [BitVec.toNat_and, BitVec.toNat_setWidth, hs.toNat_ringMask,
      Nat.mod_eq_of_lt (show rb.size.toNat - 1 < 2 ^ 64 by omega), hs.and_size_sub_one,
      BitVec.toNat_add, BitVec.toNat_setWidth, BitVec.toNat_ofNat,
      Nat.mod_eq_of_lt (show n < 2 ^ 32 by omega), Nat.mod_eq_of_lt (show n < 2 ^ 64 by omega),
      Nat.mod_eq_of_lt (show user.tail.toNat + n < 2 ^ 64 by omega), f.tail_eq, Nat.mod_add_mod]
  consumed_eq := by
    have hsmall := hs.size_le
    have hc := f.consumed_eq
    simp only [RingBuffer.pageSize_eq, smonMaxPages] at hsmall hn
    simp only [SmonRb.smonRbConsume]
    rw [BitVec.toNat_add, BitVec.toNat_ofNat, hc]
    omega

/-- Stepping over a PAD. -/
theorem Follows.smonRbPageNext (f : Follows user rb t u) (hs : RingBuffer.Shape rb) (htu : t ≤ u)
    (hroom : RingBuffer.nextPage u - t < rb.size.toNat) :
    Follows user.smonRbPageNext rb t (RingBuffer.nextPage u) := by
  have hsmall := hs.size_le
  have hlt := RingBuffer.lt_nextPage u
  obtain ⟨j, hj, hsz⟩ := hs.size_pow
  simp only [RingBuffer.pageSize_eq, smonMaxPages] at hsmall
  have htail : user.tail.toNat < rb.size.toNat := by
    rw [f.tail_eq]; exact Nat.mod_lt _ (by omega)
  have hmasked : ((2 ^ j - 1) <<< pageShift) < 2 ^ 64 := by
    have : rb.nPages.toNat ≤ 1024 := hs.pages.2.2
    rw [Nat.shiftLeft_eq, pageShift]
    omega
  have htail' : user.smonRbPageNext.tail.toNat = RingBuffer.nextPage u % rb.size.toNat := by
    have hpages : u % rb.size.toNat / pageSize = u / pageSize % rb.nPages.toNat := by
      rw [hs.size_eq, Nat.mul_comm, Nat.mod_mul_right_div_self]
    have hnext : RingBuffer.nextPage u = (u / pageSize + 1) * pageSize := by
      have := Nat.div_add_mod u pageSize
      simp only [RingBuffer.nextPage, RingBuffer.pageSize_eq] at this ⊢
      omega
    simp only [SmonRb.smonRbPageNext, f.nPages_eq]
    rw [BitVec.toNat_and, BitVec.toNat_setWidth, hs.toNat_pageMask hj, Nat.mod_eq_of_lt hmasked,
      and_page_mask, BitVec.toNat_add, BitVec.toNat_ofNat, f.tail_eq,
      Nat.mod_eq_of_lt (show 2 ^ pageShift < 2 ^ 64 by decide),
      Nat.mod_eq_of_lt (show u % rb.size.toNat + 2 ^ pageShift < 2 ^ 64 by
        rw [← f.tail_eq, pageShift]; omega),
      show 2 ^ pageShift = pageSize from rfl, Nat.add_div_right _ (by decide), hpages, ← hj,
      Nat.mod_add_mod, hnext, hs.size_eq, Nat.mul_mod_mul_right]
  have hcount : (user.smonRbCount user.tail user.smonRbPageNext.tail).toNat
      = RingBuffer.nextPage u - u := by
    have hsmall' : user.smonRbPageNext.tail.toNat < rb.size.toNat := by
      rw [htail']; exact Nat.mod_lt _ (by omega)
    have hx : (user.smonRbPageNext.tail.setWidth 32).toNat
        = RingBuffer.nextPage u % rb.size.toNat := by
      rw [BitVec.toNat_setWidth, Nat.mod_eq_of_lt (by omega), htail']
    have hy : (user.tail.setWidth 32).toNat % rb.size.toNat = u % rb.size.toNat := by
      rw [BitVec.toNat_setWidth, Nat.mod_eq_of_lt (show user.tail.toNat < 2 ^ 32 by omega),
        f.tail_eq, Nat.mod_mod]
    rw [smonRbCount, f.size_eq, setWidth_sub]
    exact Cyclic.toNat_sub_and_sub_one hsz hx hy hlt.le (by omega)
  refine ⟨f.nPages_eq, f.size_eq, htail', ?_⟩
  change (user.consumed + user.smonRbCount user.tail user.smonRbPageNext.tail).toNat = _
  rw [BitVec.toNat_add, hcount, f.consumed_eq]
  omega

/-- The cursor follows the buffer through anything that keeps its geometry. -/
theorem Follows.congr {rb' : RingBuffer} (f : Follows user rb t u) (hn : rb'.nPages = rb.nPages)
    (hs : rb'.size = rb.size) : Follows user rb' t u :=
  ⟨f.nPages_eq.trans hn.symm, f.size_eq.trans hs.symm, by rw [hs]; exact f.tail_eq, f.consumed_eq⟩

/-- Telling the kernel. -/
theorem Follows.smonRbFlush (f : Follows user rb t u) : Follows user.smonRbFlush.1 rb u u :=
  ⟨f.nPages_eq, f.size_eq, f.tail_eq, by simp [SmonRb.smonRbFlush]⟩

end SmonRb

end SchedMon
