import Mathlib.Data.List.Nodup
import Mathlib.Data.List.Range
import Mathlib.Tactic.Common

/-!
# Counting addresses

How many of the addresses below a bound have a property. A reference count is right if it is such a
number; so these are the rules for what becomes of it when one address gets the property, or some
lose it.

## Main definitions

* `census` — how many addresses below a bound have a property

## Main results

* `census_succ`, `census_lose`, `census_lose_all` — how it changes
* `census_eq_zero` — **nobody has the property**
-/

namespace SchedMon

variable {P Q : ℕ → Bool} {n t : ℕ} {xs : List ℕ}

/-- How many of the addresses below `n` have property `P`. -/
def census (P : ℕ → Bool) (n : ℕ) : ℕ := (List.range n).countP P

theorem census_congr (h : ∀ u, u < n → Q u = P u) : census Q n = census P n := by
  refine List.countP_congr fun u hu => ?_
  rw [h u (List.mem_range.mp hu)]

/-- The bound is raised. -/
theorem census_succ (P : ℕ → Bool) (n : ℕ) :
    census P (n + 1) = census P n + if P n = true then 1 else 0 := by
  rw [census, census, List.range_succ, List.countP_append, List.countP_cons, List.countP_nil,
    Nat.zero_add]

theorem census_eq_zero : census P n = 0 ↔ ∀ u, u < n → P u = false := by
  simp only [census, List.countP_eq_zero, List.mem_range, Bool.not_eq_true]

/-- One address loses the property. -/
theorem census_lose (ht : t < n) (hP : P t = true) (hQ : Q t = false)
    (hsame : ∀ u, u ≠ t → Q u = P u) : census P n = census Q n + 1 := by
  induction n with
  | zero => exact absurd ht (Nat.not_lt_zero t)
  | succ n ih =>
    rw [census_succ, census_succ]
    rcases Nat.lt_succ_iff_lt_or_eq.mp ht with hlt | rfl
    · rw [ih hlt, hsame n (Nat.ne_of_gt hlt)]
      omega
    · rw [census_congr fun u hu => hsame u (Nat.ne_of_lt hu), hP, hQ]
      rfl

/-- Some addresses lose the property. -/
theorem census_lose_all (hnodup : xs.Nodup) (hlt : ∀ u ∈ xs, u < n) (hQ : ∀ u ∈ xs, Q u = false)
    (hsame : ∀ u, u ∉ xs → Q u = P u) : census P n = census Q n + xs.countP P := by
  induction xs generalizing P with
  | nil => rw [List.countP_nil, census_congr fun u _ => hsame u List.not_mem_nil, Nat.add_zero]
  | cons x xs ih =>
    obtain ⟨hx, hnodup⟩ := List.nodup_cons.mp hnodup
    -- the first one goes, then the others
    have hrest := ih (P := Function.update P x false) hnodup
      (fun u hu => hlt u (List.mem_cons_of_mem _ hu))
      (fun u hu => hQ u (List.mem_cons_of_mem _ hu)) fun u hu => by
        by_cases hux : u = x
        · rw [hux, Function.update_self]
          exact hQ x List.mem_cons_self
        · rw [Function.update_of_ne hux]
          exact hsame u fun hmem => (List.mem_cons.mp hmem).elim hux hu
    have hcount : xs.countP (Function.update P x false) = xs.countP P := by
      refine List.countP_congr fun u hu => ?_
      have hux : u ≠ x := fun heq => hx (heq ▸ hu)
      rw [Function.update_of_ne hux]
    rw [hcount] at hrest
    rw [List.countP_cons]
    cases hPx : P x with
    | false =>
      have hself : Function.update P x false = P := by rw [← hPx, Function.update_eq_self]
      rw [hself] at hrest
      exact hrest
    | true =>
      have hlose : census P n = census (Function.update P x false) n + 1 :=
        census_lose (hlt x List.mem_cons_self) hPx (Function.update_self ..)
          fun u hu => Function.update_of_ne hu ..
      rw [hlose, hrest]
      rfl

end SchedMon
