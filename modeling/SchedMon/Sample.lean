import Mathlib.Algebra.Group.Nat.Defs
import Mathlib.Data.List.Basic
import Mathlib.Tactic.Common

/-!
# Sample records

The records of `driver/smon.h`: a `struct smon_sample_header` holding the type code, followed by
the structure that belongs to that type. The ring buffer copies whole structures, so what matters
here is their size in bytes as the compiler lays them out (x86-64, natural alignment).

The sizes are computed from the field lists rather than written down, because the padding the
compiler adds is what makes every record a multiple of four bytes long, and the page stuffing of
`rb.c` silently relies on that (`four_dvd_totalSize`).

## Main definitions

* `SampleType` — the `SAMPLE_TYPE_*` codes
* `sizeofStruct` — size of a structure from its field sizes
* `SampleType.payloadSize`, `SampleType.totalSize` — bytes a record of that type occupies
* `Record` — a type together with a payload of exactly the right length
-/

namespace SchedMon

/-- One byte of memory. -/
abbrev Byte := BitVec 8

/-- `unsigned int`. -/
abbrev U32 := BitVec 32

/-- The `SAMPLE_TYPE_*` codes. -/
inductive SampleType where
  | pmc | rapl | cpu | sched | fork | info | pad | eof
  deriving DecidableEq, Repr

namespace SampleType

/-- The value of the `#define`. -/
def code : SampleType → ℕ
  | pmc => 1
  | rapl => 2
  | cpu => 3
  | sched => 4
  | fork => 5
  | info => 6
  | pad => 7
  | eof => 8

/-- The type a stored code stands for, if any: the `switch` of a reader. -/
def ofCode? : ℕ → Option SampleType
  | 1 => some pmc
  | 2 => some rapl
  | 3 => some cpu
  | 4 => some sched
  | 5 => some fork
  | 6 => some info
  | 7 => some pad
  | 8 => some eof
  | _ => none

@[simp] theorem ofCode?_code (t : SampleType) : ofCode? t.code = some t := by cases t <;> rfl

end SampleType

/-! ### Sizes -/

/-- The first offset at or after `off` that is a multiple of `a`. -/
def alignUp (off a : ℕ) : ℕ := (off + a - 1) / a * a

/-- `sizeof` of a structure whose scalar fields have the given sizes: each field is aligned to its
own size, and the whole is rounded up to the largest of them. -/
def sizeofStruct (fields : List ℕ) : ℕ :=
  alignUp (fields.foldl (fun off sz => alignUp off sz + sz) 0) (fields.foldl max 1)

/-- `sizeof (struct smon_sample_header)`. -/
def headerSize : ℕ := sizeofStruct [4]

namespace SampleType

/-- The field sizes of the structure that follows the header, in declaration order. -/
def fields : SampleType → List ℕ
  | pmc => [8, 8, 8, 4] ++ List.replicate 7 8 ++ [4]
  | rapl => [8, 8] ++ List.replicate 3 8
  | cpu => [8, 4, 4, 4]
  | sched => [8, 8, 4, 4]
  | fork => [8, 4, 4]
  | info => [8, 4, 4, 8, 8, 8, 4, 4, 4]
  | pad => []
  | eof => []

/-- `sizeof` of the structure that follows the header. -/
def payloadSize (t : SampleType) : ℕ := sizeofStruct t.fields

/-- Bytes a record of this type occupies in the ring buffer, header included. -/
def totalSize (t : SampleType) : ℕ := t.payloadSize + headerSize

/-- The types `smon_rb_write` accepts: its `switch` has no case for `SAMPLE_TYPE_PAD`. -/
def writable : SampleType → Bool
  | pad => false
  | _ => true

/-- The hidden divisibility invariant behind the page stuffing of `rb.c`. -/
theorem four_dvd_totalSize (t : SampleType) : 4 ∣ t.totalSize := by cases t <;> decide

theorem totalSize_le (t : SampleType) : t.totalSize ≤ 100 := by cases t <;> decide

theorem four_le_totalSize (t : SampleType) : 4 ≤ t.totalSize := by cases t <;> decide

theorem totalSize_eq (t : SampleType) : t.totalSize = t.payloadSize + 4 := rfl

@[simp] theorem totalSize_eof : eof.totalSize = 4 := by decide

end SampleType

/-- A record as a writer hands it over: the header's type and the bytes of the structure. -/
@[ext]
structure Record where
  type : SampleType
  payload : List Byte
  length_payload : payload.length = type.payloadSize
  deriving DecidableEq

namespace Record

/-- The end-of-stream record of `smon_rb_write_eof`. -/
def eof : Record := ⟨.eof, [], by decide⟩

/-- Bytes of the header: the type code as a little-endian `unsigned int`. -/
def headerBytes (t : SampleType) : List Byte := [BitVec.ofNat 8 t.code, 0, 0, 0]

@[simp] theorem length_headerBytes (t : SampleType) : (headerBytes t).length = 4 := rfl

/-- All bytes of the record. -/
def bytes (r : Record) : List Byte := headerBytes r.type ++ r.payload

@[simp] theorem length_bytes (r : Record) : r.bytes.length = r.type.totalSize := by
  rw [bytes, List.length_append, length_headerBytes, r.length_payload, SampleType.totalSize_eq,
    Nat.add_comm]

/-- The `unsigned int` that four little-endian bytes make up. -/
def le32 (b₀ b₁ b₂ b₃ : Byte) : ℕ :=
  b₀.toNat + 2 ^ 8 * b₁.toNat + 2 ^ 16 * b₂.toNat + 2 ^ 24 * b₃.toNat

theorem le32_headerBytes (t : SampleType) : le32 (BitVec.ofNat 8 t.code) 0 0 0 = t.code := by
  cases t <;> rfl

end Record

/-- The layouts of `smon.h` on x86-64. -/
example : [SampleType.pmc, .rapl, .cpu, .sched, .fork, .info, .eof].map SampleType.totalSize
    = [100, 44, 28, 28, 20, 60, 4] := by decide

end SchedMon
