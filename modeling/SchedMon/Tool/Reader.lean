import SchedMon.Tool.Rb

/-!
# The user-space reader

`read_samples` and the loop of `start_sampling` in `tool/src/profile.c`, as a machine that takes
one step at a time, so that kernel writes can fall between its steps. A step looks at the buffer
through the mapping only; the one thing it does to it is the `SMON_IOCREAD` at the end of a read.

Printing a sample is recorded as the record that is printed.

## Main definitions

* `Reader`, `Reader.Pc` — the reader and where it is in its loops
* `Reader.step` — its next step, and what that does to the buffer

## Main results

* `loopBody_pad`, `loopBody_record`, `loopBody_eof` — what the loop makes of the next entry
* `step_payload` — the structure that is printed is the one that was written
-/

namespace SchedMon

namespace Reader

/-- Where the reader is. `n` and `nr` are `n_samples` and `nr_samples`; `last` is set for the read
that `POLLHUP` starts, after which `start_sampling` is done. -/
inductive Pc where
  /-- In `poll`. -/
  | poll
  /-- At the head of the loop of `read_samples`. -/
  | loop (n nr : ℤ) (last : Bool)
  /-- Behind the header of a sample of type `ty`, about to print the structure at `addr`. -/
  | payload (ty : SampleType) (addr : ℕ) (n nr : ℤ) (last : Bool)
  /-- Behind the loop, about to tell the kernel. -/
  | flush (n : ℤ) (last : Bool)
  /-- `start_sampling` has ended, with this return value of the last `read_samples`. -/
  | done (ret : ℤ)
  deriving DecidableEq

end Reader

/-- The reader's process: its cursor, its position in the code, what it has printed, and
`envir->batch_size`. -/
structure Reader where
  user : SmonRb
  pc : Reader.Pc
  printed : List Record
  batch : U32

namespace Reader

/-- The reader behind `smon_rb_init`, before its first `poll`. -/
def start (mmapPages batch : U32) : Reader := ⟨.smonRbInit mmapPages, .poll, [], batch⟩

/-- The body of the `for` loop, up to the point where a sample's structure is read. -/
def loopBody (rb : RingBuffer) (s : Reader) (n nr : ℤ) (last : Bool) : Reader :=
  match SampleType.ofCode? (rb.readHeader s.user.smonRbCursor) with
  | none => { s with pc := .done (-1) }
  | some .pad => { s with user := s.user.smonRbPageNext }
  | some .eof => { s with pc := .flush (n + 1) last }
  | some .info =>
    -- the structure is found behind the header's address, not through the cursor
    { s with
      user := s.user.smonRbConsume (BitVec.ofNat 32 headerSize)
      pc := .payload .info (s.user.smonRbCursor + headerSize) n nr last }
  | some ty =>
    let user := s.user.smonRbConsume (BitVec.ofNat 32 headerSize)
    { s with user := user, pc := .payload ty user.smonRbCursor n nr last }

/-- The reader's next step. -/
def step (s : Reader) (rb : RingBuffer) : Reader × RingBuffer :=
  match s.pc with
  | .poll =>
    match rb.smonPoll with
    | .pollin => ({ s with pc := .loop 0 s.batch.toInt false }, rb)
    | .pollhup => ({ s with pc := .loop 0 s.user.size.toInt true }, rb)
    | .none => (s, rb)
  | .loop n nr last =>
    if n < nr then (s.loopBody rb n nr last, rb) else ({ s with pc := .flush n last }, rb)
  | .payload ty addr n nr last =>
    ({ s with
        printed := s.printed ++ [rb.readRecord ty addr]
        user := s.user.smonRbConsume (BitVec.ofNat 32 ty.payloadSize)
        pc := .loop (n + 1) nr last }, rb)
  | .flush n last =>
    let (user, bytes) := s.user.smonRbFlush
    ({ s with user := user, pc := if last then .done 0 else .poll },
      rb.smonRbRead (BitVec.ofInt 32 n) bytes)
  | .done _ => (s, rb)

/-! ### What a step makes of the next entry -/

open RingBuffer

variable {s : Reader} {rb : RingBuffer} {t u h : ℕ} {es : List Entry} {r : Record}

/-- A PAD takes the cursor to the next page, and is not counted. -/
theorem loopBody_pad (n nr : ℤ) (last : Bool) (w : At rb t h) (htu : t ≤ u)
    (f : s.user.Follows rb t u) (hl : Laid rb.vbyte u (.pad :: es) h) :
    s.loopBody rb n nr last = { s with user := s.user.smonRbPageNext } ∧
      s.user.smonRbPageNext.Follows rb t (nextPage u) := by
  have hcursor : s.user.smonRbCursor = u % rb.size.toNat := f.tail_eq
  have hlt := w.lt
  cases hl with
  | pad hfit hbytes hrest =>
    have hle := hrest.le
    refine ⟨?_, f.smonRbPageNext w.toShape htu (by omega)⟩
    simp only [loopBody, hcursor, w.toShape.readHeader_eq hfit hbytes, SampleType.ofCode?_code]

/-- An EOF ends the loop. It is counted, but the cursor stays in front of it. -/
theorem loopBody_eof (n nr : ℤ) (last : Bool) (w : At rb t h) (f : s.user.Follows rb t u)
    (hl : Laid rb.vbyte u (.record r :: es) h) (hr : r.type = .eof) :
    s.loopBody rb n nr last = { s with pc := .flush (n + 1) last } := by
  have hcursor : s.user.smonRbCursor = u % rb.size.toNat := f.tail_eq
  cases hl with
  | record r hw hfit hbytes hrest =>
    simp only [loopBody, hcursor, w.toShape.readHeader_record hfit hbytes,
      SampleType.ofCode?_code, hr]

/-- Any other record: the cursor moves behind the header. The structure starts there, in the same
page, whichever way its address is computed. -/
theorem loopBody_record (n nr : ℤ) (last : Bool) (w : At rb t h) (htu : t ≤ u)
    (f : s.user.Follows rb t u) (hl : Laid rb.vbyte u (.record r :: es) h) (hr : r.type ≠ .eof) :
    ∃ user : SmonRb, s.loopBody rb n nr last
        = { s with user := user, pc := .payload r.type (u % rb.size.toNat + headerSize) n nr last } ∧
      user.Follows rb t (u + headerSize) := by
  have hs := w.toShape
  have hcursor : s.user.smonRbCursor = u % rb.size.toNat := f.tail_eq
  have hbig := hs.le_size
  have hlt := w.lt
  cases hl with
  | record r hw hfit hbytes hrest =>
    have hle := hrest.le
    have htot := r.type.totalSize_eq
    have hnext := f.smonRbConsume hs htu (n := headerSize) (by decide) (by
      rw [show headerSize = 4 from rfl]; omega)
    have haddr : (s.user.smonRbConsume (BitVec.ofNat 32 headerSize)).smonRbCursor
        = u % rb.size.toNat + headerSize := by
      have hfit' : u % pageSize + headerSize < pageSize := by
        have hsz : r.type.payloadSize ≠ 0 := by
          cases ht : r.type <;> simp_all [SampleType.writable] <;> decide
        rw [pageLeft] at hfit
        rw [show headerSize = 4 from rfl]
        omega
      rw [← Cyclic.mod_add_of_block hs.pageSize_dvd hfit']
      exact hnext.tail_eq
    refine ⟨_, ?_, hnext⟩
    simp only [loopBody, hcursor, hs.readHeader_record hfit hbytes, SampleType.ofCode?_code]
    cases ht : r.type with
    | pad => rw [ht] at hw; exact absurd hw (by decide)
    | eof => exact absurd ht hr
    | info => rfl
    | _ => simp only [haddr]

/-- Printing: the structure at the address is the one that was written. -/
theorem step_payload {n nr : ℤ} {last : Bool} (w : At rb t h) (htu : t ≤ u) (f : s.user.Follows rb t (u + headerSize))
    (hl : Laid rb.vbyte u (.record r :: es) h)
    (hpc : s.pc = .payload r.type (u % rb.size.toNat + headerSize) n nr last) :
    ∃ user : SmonRb, s.step rb
        = ({ s with printed := s.printed ++ [r], user := user, pc := .loop (n + 1) nr last }, rb) ∧
      user.Follows rb t (u + r.type.totalSize) := by
  have hs := w.toShape
  have hlt := w.lt
  cases hl with
  | record r hw hfit hbytes hrest =>
    have hle := hrest.le
    have htot := r.type.totalSize_le
    have heq := r.type.totalSize_eq
    have hnext := f.smonRbConsume hs (by omega) (n := r.type.payloadSize) (by
        simp only [pageSize_eq]
        omega) (by
        rw [show headerSize = 4 from rfl]
        omega)
    rw [show u + headerSize + r.type.payloadSize = u + r.type.totalSize by
      rw [SampleType.totalSize]; omega] at hnext
    refine ⟨_, ?_, hnext⟩
    simp only [step, hpc, hs.readRecord_eq hfit hbytes]

end Reader

end SchedMon
