import Mathlib.Data.List.Basic
import Mathlib.Logic.Function.Basic

/-!
# Tables that only grow

An array of pointers, of which the first `n` are in use, and a list it holds. Whatever is looked up
in the table is what the list has there, and a table that holds a longer list still has the
records it had.

## Main definitions

* `Table` — the array and the count
* `Table.Holds` — the list a table holds
* `Table.Grows` — a table with one record more

## Main results

* `Table.Holds.push` — a record is added behind the others
* `Table.Holds.get_of_prefix` — what was found is found again
-/

namespace SchedMon

variable {α : Type*}

/-- An array of pointers, and how many of them are in use. -/
structure Table (α : Type*) where
  slots : ℕ → Option α
  n : ℕ

namespace Table

variable {t t' : Table α} {xs xs' : List α} {x : α} {i : ℕ}

/-- Only null pointers. -/
def empty : Table α := ⟨fun _ => none, 0⟩

/-- The record at an index in use. -/
def get (t : Table α) (i : ℕ) : Option α := if t.n ≤ i then none else t.slots i

/-- `slots[n++] = x`. -/
def push (t : Table α) (x : α) : Table α := ⟨Function.update t.slots t.n (some x), t.n + 1⟩

/-- The table holds the records of a list, in their order, and nothing else. -/
structure Holds (t : Table α) (xs : List α) : Prop where
  n : t.n = xs.length
  slots : ∀ i, t.slots i = xs[i]?

theorem holds_empty : (empty : Table α).Holds [] := ⟨rfl, fun _ => rfl⟩

theorem Holds.get (h : t.Holds xs) (i : ℕ) : t.get i = xs[i]? := by
  unfold Table.get
  split
  · rename_i hle
    exact (List.getElem?_eq_none (h.n ▸ hle)).symm
  · exact h.slots i

/-- The indices in use are those below the count. -/
theorem Holds.isSome_get (h : t.Holds xs) (i : ℕ) : (t.get i).isSome ↔ i < t.n := by
  rw [h.get, h.n, isSome_getElem?]

theorem Holds.push (h : t.Holds xs) (x : α) : (t.push x).Holds (xs ++ [x]) := by
  constructor
  · show t.n + 1 = (xs ++ [x]).length
    rw [h.n, List.length_append]
    rfl
  · intro i
    show Function.update t.slots t.n (some x) i = _
    by_cases hi : i = t.n
    · subst hi
      rw [Function.update_self, h.n, List.getElem?_concat_length]
    · rw [Function.update_of_ne hi, h.slots]
      rcases Nat.lt_or_gt_of_ne hi with hlt | hgt
      · exact (List.getElem?_append_left (h.n ▸ hlt)).symm
      · rw [List.getElem?_eq_none (Nat.le_of_lt (h.n ▸ hgt)), List.getElem?_eq_none]
        rw [List.length_append]
        exact h.n ▸ hgt

/-- The table has one record more, behind those it had. -/
structure Grows (t : Table α) (x : α) (t' : Table α) : Prop where
  n : t'.n = t.n + 1
  last : t'.get t.n = some x
  rest : ∀ i < t.n, t'.get i = t.get i

theorem grows_push (t : Table α) (x : α) : t.Grows x (t.push x) := by
  refine ⟨rfl, ?_, fun i hi => ?_⟩
  · exact (if_neg (Nat.not_succ_le_self t.n)).trans (Function.update_self ..)
  · have hget : t.get i = t.slots i := if_neg (Nat.not_le.mpr hi)
    rw [hget]
    exact (if_neg (Nat.not_le.mpr (Nat.lt_succ_of_lt hi))).trans
      (Function.update_of_ne (Nat.ne_of_lt hi) ..)

/-- **What was found is found again** in a table that holds a longer list. -/
theorem Holds.get_of_prefix (h : t.Holds xs) (h' : t'.Holds xs') (hbegins : xs <+: xs')
    (hget : t.get i = some x) : t'.get i = some x := by
  rw [h.get] at hget
  rw [h'.get]
  obtain ⟨ys, rfl⟩ := hbegins
  rw [List.getElem?_append_left (List.getElem?_eq_some_iff.mp hget).1]
  exact hget

end Table

end SchedMon
