import Mathlib.Algebra.Group.Defs
import Mathlib.Data.Finset.Insert
import Mathlib.Data.Finset.Lattice.Basic

/-!
# Numbers that remember where they come from

A number with the set of inputs it was computed from. Arithmetic on such numbers is arithmetic on the
values, and takes the sources together, so that a program that is written for any type with the
operations it uses can be run on them: the values are those of the plain run, and the sources say
which inputs went into each.

## Main definitions

* `ZeroTest` — numbers that a program can compare with zero
* `Tracked` — a value and its sources
* `Tracked.of`, `Tracked.const` — an input, and a number that is none
-/

namespace SchedMon

/-- Numbers that a program can compare with zero. -/
class ZeroTest (K : Type*) where
  isZero : K → Bool

export ZeroTest (isZero)

/-- A value of `K` with the inputs, named by `ι`, that it was computed from. -/
@[ext]
structure Tracked (ι K : Type*) where
  val : K
  sources : Finset ι

namespace Tracked

variable {ι K : Type*}

/-- Input `i`. -/
def of (i : ι) (x : K) : Tracked ι K := ⟨x, {i}⟩

/-- A number that is no input. -/
def const (x : K) : Tracked ι K := ⟨x, ∅⟩

@[simp] theorem of_val (i : ι) (x : K) : (of i x).val = x := rfl

@[simp] theorem of_sources (i : ι) (x : K) : (of i x).sources = {i} := rfl

@[simp] theorem const_val (x : K) : (const x : Tracked ι K).val = x := rfl

@[simp] theorem const_sources (x : K) : (const x : Tracked ι K).sources = ∅ := rfl

instance [Zero K] : Zero (Tracked ι K) := ⟨const 0⟩

instance [One K] : One (Tracked ι K) := ⟨const 1⟩

@[simp] theorem zero_val [Zero K] : (0 : Tracked ι K).val = 0 := rfl

@[simp] theorem zero_sources [Zero K] : (0 : Tracked ι K).sources = ∅ := rfl

@[simp] theorem one_val [One K] : (1 : Tracked ι K).val = 1 := rfl

@[simp] theorem one_sources [One K] : (1 : Tracked ι K).sources = ∅ := rfl

instance [ZeroTest K] : ZeroTest (Tracked ι K) := ⟨fun x => isZero x.val⟩

variable [DecidableEq ι]

instance [Add K] : Add (Tracked ι K) := ⟨fun x y => ⟨x.val + y.val, x.sources ∪ y.sources⟩⟩

instance [Sub K] : Sub (Tracked ι K) := ⟨fun x y => ⟨x.val - y.val, x.sources ∪ y.sources⟩⟩

instance [Mul K] : Mul (Tracked ι K) := ⟨fun x y => ⟨x.val * y.val, x.sources ∪ y.sources⟩⟩

instance [Div K] : Div (Tracked ι K) := ⟨fun x y => ⟨x.val / y.val, x.sources ∪ y.sources⟩⟩

variable (x y : Tracked ι K)

@[simp] theorem add_val [Add K] : (x + y).val = x.val + y.val := rfl

@[simp] theorem add_sources [Add K] : (x + y).sources = x.sources ∪ y.sources := rfl

@[simp] theorem sub_val [Sub K] : (x - y).val = x.val - y.val := rfl

@[simp] theorem sub_sources [Sub K] : (x - y).sources = x.sources ∪ y.sources := rfl

@[simp] theorem mul_val [Mul K] : (x * y).val = x.val * y.val := rfl

@[simp] theorem mul_sources [Mul K] : (x * y).sources = x.sources ∪ y.sources := rfl

@[simp] theorem div_val [Div K] : (x / y).val = x.val / y.val := rfl

@[simp] theorem div_sources [Div K] : (x / y).sources = x.sources ∪ y.sources := rfl

end Tracked

end SchedMon
