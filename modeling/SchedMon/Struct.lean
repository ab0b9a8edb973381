import Mathlib.Algebra.Group.Int.Defs
import Mathlib.Data.Int.Notation
import SchedMon.Sample

/-!
# Structures in memory

How a compiler for x86-64 lays out a structure of integers: each field little-endian and aligned to
its own size, with padding in front of a field where its alignment asks for it and behind the last
one. What the padding holds is nobody's business.

Whoever reads the structure with the same declaration gets the fields back, each modulo the range of
its type.

## Main definitions

* `scalarBytes`, `scalarValue` — the bytes of an integer, and back
* `structBytes`, `readStruct` — the bytes of a structure, and back

## Main results

* `readStruct_structBytes` — **what is read is what was written**
-/

namespace SchedMon

/-! ### Integers -/

/-- An integer of `n` bytes, least significant byte first. -/
def scalarBytes : ℕ → ℤ → List Byte
  | 0, _ => []
  | n + 1, z => BitVec.ofInt 8 z :: scalarBytes n (z / 256)

/-- The unsigned integer that bytes make up. -/
def scalarValue : List Byte → ℕ
  | [] => 0
  | b :: bs => b.toNat + 256 * scalarValue bs

@[simp] theorem length_scalarBytes (n : ℕ) (z : ℤ) : (scalarBytes n z).length = n := by
  induction n generalizing z with
  | zero => rfl
  | succ n ih => rw [scalarBytes, List.length_cons, ih]

/-- The lowest byte, and the others. -/
theorem emod_two_digits (z m : ℤ) : z % (256 * m) = z % 256 + 256 * (z / 256 % m) := by
  have hquot : z / 256 / m = z / (256 * m) := Int.ediv_ediv_of_nonneg (by decide)
  have hlow := Int.emod_add_mul_ediv z 256
  rw [Int.emod_def, Int.emod_def (z / 256), hquot, Int.mul_assoc]
  omega

/-- An integer is read back modulo the range of its type. -/
theorem scalarValue_scalarBytes (n : ℕ) (z : ℤ) :
    (scalarValue (scalarBytes n z) : ℤ) = z % 256 ^ n := by
  induction n generalizing z with
  | zero => rw [scalarBytes, scalarValue, pow_zero, Int.emod_one, Int.natCast_zero]
  | succ n ih =>
    have hlow : ((BitVec.ofInt 8 z).toNat : ℤ) = z % 256 := by
      rw [BitVec.toNat_ofInt]
      exact Int.toNat_of_nonneg (Int.emod_nonneg _ (by decide))
    rw [scalarBytes, scalarValue, Int.natCast_add, Int.natCast_mul, ih, hlow, pow_succ']
    exact (emod_two_digits z (256 ^ n)).symm

/-! ### Structures -/

/-- The bytes from `off` up to `off'` that belong to no field. -/
def padding (junk : ℕ → Byte) (off off' : ℕ) : List Byte := (List.range' off (off' - off)).map junk

@[simp] theorem length_padding (junk : ℕ → Byte) (off off' : ℕ) :
    (padding junk off off').length = off' - off := by
  rw [padding, List.length_map, List.length_range']

/-- Where a structure that has come to `off` is behind further fields of these sizes. -/
def endOf (off : ℕ) (sizes : List ℕ) : ℕ := sizes.foldl (fun off sz => alignUp off sz + sz) off

/-- The bytes of some fields, given by size and value, from `off` on. -/
def fieldBytes (junk : ℕ → Byte) : ℕ → List (ℕ × ℤ) → List Byte
  | _, [] => []
  | off, (n, z) :: fields =>
    padding junk off (alignUp off n) ++ (scalarBytes n z ++ fieldBytes junk (alignUp off n + n) fields)

/-- The bytes of a structure. -/
def structBytes (junk : ℕ → Byte) (fields : List (ℕ × ℤ)) : List Byte :=
  fieldBytes junk 0 fields ++
    padding junk (endOf 0 (fields.map Prod.fst)) (sizeofStruct (fields.map Prod.fst))

/-- The fields of these sizes in memory that begins at `off`. -/
def readFields : ℕ → List ℕ → List Byte → List ℕ
  | _, [], _ => []
  | off, n :: sizes, mem =>
    let mem := mem.drop (alignUp off n - off)
    scalarValue (mem.take n) :: readFields (alignUp off n + n) sizes (mem.drop n)

/-- The fields of a structure. -/
def readStruct (sizes : List ℕ) (mem : List Byte) : List ℕ := readFields 0 sizes mem

/-! ### What is read is what was written -/

theorem le_alignUp {off a : ℕ} (ha : 0 < a) : off ≤ alignUp off a := by
  have hmod := Nat.mod_lt (off + a - 1) ha
  have hdiv := Nat.div_add_mod' (off + a - 1) a
  rw [alignUp]
  omega

theorem length_fieldBytes (junk : ℕ → Byte) (off : ℕ) {fields : List (ℕ × ℤ)}
    (h : ∀ sz ∈ fields.map Prod.fst, 0 < sz) :
    off + (fieldBytes junk off fields).length = endOf off (fields.map Prod.fst) := by
  induction fields generalizing off with
  | nil => rfl
  | cons field fields ih =>
    obtain ⟨n, z⟩ := field
    rw [List.map_cons, List.forall_mem_cons] at h
    have hoff : off ≤ alignUp off n := le_alignUp h.1
    have hrest := ih (alignUp off n + n) h.2
    rw [fieldBytes, List.length_append, List.length_append, length_padding, length_scalarBytes]
    change _ = endOf (alignUp off n + n) (fields.map Prod.fst)
    omega

/-- A structure is as long as `sizeof` says. -/
theorem length_structBytes (junk : ℕ → Byte) {fields : List (ℕ × ℤ)}
    (h : ∀ sz ∈ fields.map Prod.fst, 0 < sz) :
    (structBytes junk fields).length = sizeofStruct (fields.map Prod.fst) := by
  have hfields := length_fieldBytes junk 0 h
  have hle : endOf 0 (fields.map Prod.fst) ≤ sizeofStruct (fields.map Prod.fst) := by
    refine le_alignUp ?_
    have hone : ∀ (m : ℕ) (sizes : List ℕ), m ≤ sizes.foldl max m := by
      intro m sizes
      induction sizes generalizing m with
      | nil => exact Nat.le_refl _
      | cons sz sizes ih => exact Nat.le_trans (Nat.le_max_left m sz) (ih _)
    exact hone 1 _
  rw [structBytes, List.length_append, length_padding]
  omega

theorem readFields_fieldBytes (junk : ℕ → Byte) (off : ℕ) (fields : List (ℕ × ℤ))
    (rest : List Byte) :
    readFields off (fields.map Prod.fst) (fieldBytes junk off fields ++ rest) =
      fields.map fun field => (field.2 % 256 ^ field.1).toNat := by
  induction fields generalizing off with
  | nil => rfl
  | cons field fields ih =>
    obtain ⟨n, z⟩ := field
    have hskip : (fieldBytes junk off ((n, z) :: fields) ++ rest).drop (alignUp off n - off) =
        scalarBytes n z ++ (fieldBytes junk (alignUp off n + n) fields ++ rest) := by
      rw [fieldBytes, List.append_assoc, List.append_assoc]
      exact List.drop_left' (length_padding ..)
    rw [List.map_cons, readFields]
    dsimp only
    rw [hskip, List.take_left' (length_scalarBytes n z), List.drop_left' (length_scalarBytes n z), ih,
      List.map_cons, ← scalarValue_scalarBytes, Int.toNat_natCast]

/-- **What is read is what was written**, whatever the padding holds. -/
theorem readStruct_structBytes (junk : ℕ → Byte) (fields : List (ℕ × ℤ)) :
    readStruct (fields.map Prod.fst) (structBytes junk fields) =
      fields.map fun field => (field.2 % 256 ^ field.1).toNat :=
  readFields_fieldBytes junk 0 fields _

/-- An `int` behind a `long long`, and a `long long` behind that: four bytes of padding. -/
example (junk : ℕ → Byte) : readStruct [8, 4, 8] (structBytes junk [(8, 5), (4, -1), (8, 7)]) =
    [5, 2 ^ 32 - 1, 7] := readStruct_structBytes junk [(8, 5), (4, -1), (8, 7)]

end SchedMon
