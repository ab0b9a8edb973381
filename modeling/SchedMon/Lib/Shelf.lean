import Mathlib.Data.List.Nodup
import Mathlib.Logic.Function.Basic
import Mathlib.Tactic.Common

/-!
# Lists that share their elements' node

When one node links an element into a list, the element is in one list at a time, once. Here the
lists are a family over an index type; `put` adds an element at the front of one of them, `take`
deletes it from one, and `Separate` is what they keep as long as nothing is put that is there
already.

## Main results

* `Separate.mem_take`, `mem_put` — what is where afterwards
* `Separate.take`, `Separate.put` — the operations keep elements apart
* `Separate.move` — taking an element and putting it elsewhere
-/

namespace SchedMon

namespace Shelf

variable {ι α : Type*} [DecidableEq ι] {L : ι → List α} {i j k : ι} {x y : α}

/-- Every element is in one list at most, and there once. -/
structure Separate (L : ι → List α) : Prop where
  nodup : ∀ i, (L i).Nodup
  unique : ∀ i j x, x ∈ L i → x ∈ L j → i = j

/-- Adding an element at the front of a list. -/
def put (L : ι → List α) (i : ι) (x : α) : ι → List α := Function.update L i (x :: L i)

/-- Deleting an element from a list. -/
def take [DecidableEq α] (L : ι → List α) (i : ι) (x : α) : ι → List α :=
  Function.update L i ((L i).erase x)

theorem mem_put : y ∈ put L i x j ↔ y ∈ L j ∨ j = i ∧ y = x := by
  by_cases hj : j = i
  · subst hj
    simp [put, or_comm]
  · simp [put, hj]

theorem Separate.put (h : Separate L) (hx : ∀ j, x ∉ L j) : Separate (put L i x) := by
  refine ⟨fun j => ?_, fun j k y hj hk => ?_⟩
  · by_cases hj : j = i
    · subst hj
      simpa [Shelf.put] using ⟨hx j, h.nodup j⟩
    · simpa [Shelf.put, hj] using h.nodup j
  · rw [mem_put] at hj hk
    rcases hj with hj | ⟨rfl, rfl⟩ <;> rcases hk with hk | ⟨rfl, hy⟩
    · exact h.unique j k y hj hk
    · exact absurd (hy ▸ hj) (hx j)
    · exact absurd hk (hx k)
    · rfl

variable [DecidableEq α]

theorem Separate.mem_take (h : Separate L) (hx : x ∈ L i) :
    y ∈ take L i x j ↔ y ∈ L j ∧ y ≠ x := by
  by_cases hj : j = i
  · subst hj
    simp [take, (h.nodup j).mem_erase_iff, and_comm]
  · simp only [take, Function.update_of_ne hj]
    refine ⟨fun hy => ⟨hy, ?_⟩, And.left⟩
    rintro rfl
    exact hj (h.unique j i y hy hx)

theorem Separate.take (h : Separate L) : Separate (take L i x) := by
  have hsub : ∀ j y, y ∈ Shelf.take L i x j → y ∈ L j := by
    intro j y hy
    by_cases hj : j = i
    · subst hj
      exact List.mem_of_mem_erase (by simpa [Shelf.take] using hy)
    · simpa [Shelf.take, hj] using hy
  refine ⟨fun j => ?_, fun j k y hj hk => h.unique j k y (hsub j y hj) (hsub k y hk)⟩
  by_cases hj : j = i
  · subst hj
    simpa [Shelf.take] using (h.nodup j).erase x
  · simpa [Shelf.take, hj] using h.nodup j

theorem Separate.not_mem_take (h : Separate L) (hx : x ∈ L i) : x ∉ Shelf.take L i x j := by
  rw [h.mem_take hx]
  exact fun hmem => hmem.2 rfl

/-- **Moving an element.** -/
theorem Separate.move (h : Separate L) (hx : x ∈ L i) : Separate (Shelf.put (Shelf.take L i x) k x) :=
  h.take.put fun _ => h.not_mem_take hx

theorem Separate.mem_move (h : Separate L) (hx : x ∈ L i) :
    y ∈ Shelf.put (Shelf.take L i x) k x j ↔ y ∈ L j ∧ y ≠ x ∨ j = k ∧ y = x := by
  rw [mem_put, h.mem_take hx]

end Shelf

end SchedMon
