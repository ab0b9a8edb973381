import Mathlib.Algebra.Group.Nat.Defs
import Mathlib.Data.Int.Notation
import SchedMon.Sample

/-!
# The kernel's ring buffer

`driver/rb.c` and the parts of `driver/main.c` that look at the buffer. Words are 32-bit machine
words with the source's masks; the data pages are a function from page index and offset to bytes,
which user space sees one after the other through `smon_mmap`.

Every `memcpy` is kept as a `Store`, so that where a write goes can be stated. A store past the
end of its page changes nothing that user space maps.

## Main definitions

* `RingBuffer` — `struct smon_ring_buffer`
* `RingBuffer.smonRbWrite`, `smonRbRead`, `smonReleaseRb`, `smonPoll`
* `RingBuffer.byteAt` — what user space reads through the mapping
-/

namespace SchedMon

/-- `PAGE_SHIFT`. -/
def pageShift : ℕ := 12

/-- `PAGE_SIZE`. -/
def pageSize : ℕ := 2 ^ pageShift

/-- `SMON_MAX_PAGES`. -/
def smonMaxPages : ℕ := 1024

/-- One `memcpy` into a data page. -/
structure Store where
  page : U32
  offset : U32
  bytes : List Byte
  deriving DecidableEq

/-- `struct smon_ring_buffer`. The spin lock is not represented: the operations that take it are
atomic steps. `irq` says whether the wake-up `irq_work` is queued. -/
structure RingBuffer where
  nPages : U32
  size : U32
  data : ℕ → ℕ → Byte
  head : U32
  tail : U32
  items : U32
  batch : U32
  active : ℤ
  irq : Bool

namespace RingBuffer

/-- What `smon_create_rb` leaves behind when every allocation succeeds. The pages come from
`__get_free_pages` and hold whatever was there before. -/
def smonCreateRb (nPages : U32) (data : ℕ → ℕ → Byte) : RingBuffer where
  nPages := nPages
  size := nPages * BitVec.ofNat 32 pageSize
  data := data
  head := 0
  tail := 0
  items := 0
  batch := 1
  active := 0
  irq := false

/-- The page counts for which `smon_mmap` gets a buffer: its two checks, and the bound that
`smon_create_rb` puts on top. -/
def Accepted (nPages : U32) : Prop :=
  2 ≤ nPages.toNat ∧ (∃ j, nPages.toNat = 2 ^ j) ∧ nPages.toNat ≤ smonMaxPages

/-! ### The cursor macros -/

/-- `RB_PAGEMASK`. -/
def rbPagemask (rb : RingBuffer) : U32 := rb.nPages - 1

/-- `HEAD_PAGE`. -/
def headPage (head : U32) : U32 := head >>> pageShift

/-- `HEAD_OFFSET`. -/
def headOffset (head : U32) : U32 := head &&& (BitVec.ofNat 32 pageSize - 1)

/-- `_RB_COUNT`. -/
def rbCountOf (head tail size : U32) : U32 := (head - tail) &&& (size - 1)

/-- `RB_COUNT`. -/
def rbCount (rb : RingBuffer) : U32 := rbCountOf rb.head rb.tail rb.size

/-- `RB_SPACE`. -/
def rbSpace (rb : RingBuffer) : U32 := rbCountOf rb.tail (rb.head + 1) rb.size

/-- `RB_PAGE_SPACE`. -/
def rbPageSpace (rb : RingBuffer) : U32 := BitVec.ofNat 32 pageSize - headOffset rb.head

/-- `RB_NEXT_PAGE`. -/
def rbNextPage (rb : RingBuffer) (page : U32) : U32 := (page + 1) &&& rb.rbPagemask

/-- `HEAD_TRIM_PAGE`. -/
def headTrimPage (rb : RingBuffer) (head : U32) : U32 :=
  head &&& ((rb.rbPagemask <<< pageShift) ||| (BitVec.ofNat 32 pageSize - 1))

/-! ### Memory -/

/-- `memcpy` into a data page. -/
def memcpy (data : ℕ → ℕ → Byte) (st : Store) : ℕ → ℕ → Byte := fun page offset =>
  if page = st.page.toNat ∧ st.offset.toNat ≤ offset then
    (st.bytes[offset - st.offset.toNat]?).getD (data page offset)
  else data page offset

/-- The byte at address `a` of the mapping: `smon_vma_fault` maps page `i` of the buffer at page
`i` of the mapping. -/
def byteAt (rb : RingBuffer) (a : ℕ) : Byte := rb.data (a / pageSize) (a % pageSize)

/-! ### Writing -/

/-- The outcome of `smon_rb_write`: the buffer, the `memcpy` calls in order, and whether the
record was committed (rather than dropped). -/
structure WriteResult where
  rb : RingBuffer
  stores : List Store
  accepted : Bool

/-- `smon_rb_stuff_page` applied to `rb->head`: a PAD header, then on to the next page. -/
def smonRbStuffPage (rb : RingBuffer) : RingBuffer × Store :=
  let page := headPage rb.head
  let st : Store := ⟨page, headOffset rb.head, Record.headerBytes .pad⟩
  ({ rb with data := memcpy rb.data st, head := 0 ||| (rb.rbNextPage page <<< pageShift) }, st)

/-- The `memcpy` of the header, to the head. -/
def headerStore (rb : RingBuffer) (r : Record) : Store :=
  ⟨headPage rb.head, headOffset rb.head, Record.headerBytes r.type⟩

/-- The `memcpy` of the structure, right behind the header. -/
def payloadStore (rb : RingBuffer) (r : Record) : Store :=
  ⟨headPage rb.head, headOffset rb.head + BitVec.ofNat 32 headerSize, r.payload⟩

/-- The second half of `smon_rb_write`: copy header and structure to the head, move it on, count
the item, and queue the wake-up when a batch is complete. -/
def commit (rb : RingBuffer) (r : Record) : WriteResult :=
  let stores := if r.type.payloadSize > 0 then [rb.headerStore r, rb.payloadStore r]
    else [rb.headerStore r]
  let items := rb.items + 1
  ⟨{ rb with
      data := stores.foldl memcpy rb.data
      head := rb.headTrimPage (rb.head + BitVec.ofNat 32 r.type.totalSize)
      items := items
      irq := rb.irq || decide (rb.batch ≤ items) }, stores, true⟩

/-- `smon_rb_write`. A type outside the `switch` returns at once. -/
def smonRbWrite (rb : RingBuffer) (r : Record) : WriteResult :=
  if r.type.writable then
    let totalSize := BitVec.ofNat 32 r.type.totalSize
    if rb.rbSpace < totalSize then ⟨rb, [], false⟩
    else if rb.rbPageSpace < totalSize then
      -- does not fit this page: stuff it, and check the space again from the next page
      let (rb', pad) := rb.smonRbStuffPage
      if rb'.rbSpace < totalSize then ⟨rb', [pad], false⟩
      else
        let res := rb'.commit r
        ⟨res.rb, pad :: res.stores, res.accepted⟩
    else rb.commit r
  else ⟨rb, [], false⟩

/-- `smon_rb_write_eof`. -/
def smonRbWriteEof (rb : RingBuffer) : WriteResult := rb.smonRbWrite .eof

/-! ### Reading, polling, reference counting -/

/-- `smon_rb_read`. -/
def smonRbRead (rb : RingBuffer) (items sz : U32) : RingBuffer :=
  { rb with
    tail := if rb.rbCount < sz then rb.head else rb.headTrimPage (rb.tail + sz)
    items := if rb.items < items then 0 else rb.items - items }

/-- `smon_get_rb`. -/
def smonGetRb (rb : RingBuffer) : RingBuffer := { rb with active := rb.active + 1 }

/-- `smon_release_rb`: the last active writer leaves an EOF behind and wakes the reader. -/
def smonReleaseRb (rb : RingBuffer) : RingBuffer :=
  let rb := { rb with active := rb.active - 1 }
  if rb.active = 0 then { rb.smonRbWriteEof.rb with irq := true } else rb

/-- `smon_rb_batch_available`. -/
def smonRbBatchAvailable (rb : RingBuffer) : Bool := decide (rb.batch ≤ rb.items)

/-- `smon_rb_is_active`. -/
def smonRbIsActive (rb : RingBuffer) : Bool := decide (0 < rb.active)

/-- `smon_rb_is_empty`. -/
def smonRbIsEmpty (rb : RingBuffer) : Bool := decide (rb.rbCount = 0)

/-- The masks `smon_poll` can return. -/
inductive PollMask where
  | none | pollin | pollhup
  deriving DecidableEq, Repr

/-- `smon_poll` on a file with a buffer. -/
def smonPoll (rb : RingBuffer) : PollMask :=
  if rb.smonRbBatchAvailable then
    if rb.smonRbIsActive then .pollin else .pollhup
  else if !rb.smonRbIsEmpty && !rb.smonRbIsActive then .pollhup
  else .none

end RingBuffer

end SchedMon
