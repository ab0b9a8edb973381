import Mathlib.Data.Int.Order.Basic
import Mathlib.Data.List.Induction
import Mathlib.Tactic.Common
import Mathlib.Tactic.Ring

/-!
# Rounds of equal length

A stretch of time is cut at every multiple of `S`, and the pieces are numbered around `n`. A cut is
written as the number of the piece that ends there, with the time. What is left at the end is a piece
of its own, unless there is nothing left: two accounts of one stretch that differ in an empty piece at
the end are the same when they are trimmed.

## Main definitions

* `rounds` — the pieces of full length
* `trimmed` — without an empty piece at the end

## Main results

* `trimmed_rounds` — **the pieces depend on nothing but the time**
-/

namespace SchedMon

/-- The first `k` pieces of length `S`. -/
def rounds (S : ℤ) (n k : ℕ) : List (ℕ × ℤ) := (List.range k).map fun i => (i % n, (i + 1) * S)

/-- The time of the last cut. -/
def lastCut (cuts : List (ℕ × ℤ)) : ℤ := (cuts.getLast?.map Prod.snd).getD 0

/-- The pieces, without an empty one at the end. -/
def trimmed (cuts : List (ℕ × ℤ)) : List (ℕ × ℤ) :=
  if lastCut cuts = lastCut cuts.dropLast then cuts.dropLast else cuts

/-- The pieces of time `T`, none of them empty. -/
def pieces (S : ℤ) (n : ℕ) (T : ℤ) : List (ℕ × ℤ) :=
  rounds S n (T / S).toNat ++ if T % S = 0 then [] else [((T / S).toNat % n, T)]

section Rounds

variable {S T : ℤ} {n k : ℕ} {cuts : List (ℕ × ℤ)} {x : ℕ × ℤ}

@[simp] theorem rounds_zero : rounds S n 0 = [] := rfl

theorem rounds_succ : rounds S n (k + 1) = rounds S n k ++ [(k % n, (k + 1) * S)] := by
  rw [rounds, List.range_succ, List.map_append, rounds, List.map_singleton]

@[simp] theorem lastCut_concat : lastCut (cuts ++ [x]) = x.2 := by
  rw [lastCut, List.getLast?_concat]
  rfl

theorem lastCut_rounds : lastCut (rounds S n k) = k * S := by
  cases k with
  | zero => simp [lastCut]
  | succ k =>
    rw [rounds_succ, lastCut_concat]
    push_cast
    rfl

theorem trimmed_concat :
    trimmed (cuts ++ [x]) = if x.2 = lastCut cuts then cuts else cuts ++ [x] := by
  rw [trimmed, lastCut_concat, List.dropLast_concat]

/-- **The pieces depend on nothing but the time**: wherever the last cut is, between the two that are
possible. -/
theorem trimmed_rounds (hS : 0 < S) (hle : k * S ≤ T) (hle' : T ≤ (k + 1) * S) :
    trimmed (rounds S n k ++ [(k % n, T)]) = pieces S n T := by
  rw [trimmed_concat, lastCut_rounds]
  rcases Int.lt_or_eq_of_le hle' with hlt | rfl
  · have hdiv : T / S = k := by
      rw [add_mul, one_mul] at hlt
      exact (Int.ediv_eq_iff_of_pos hS).mpr ⟨hle, hlt⟩
    have hmod : T % S = T - k * S := by
      rw [Int.emod_def, hdiv, mul_comm]
    rw [pieces, hdiv, hmod, Int.toNat_natCast]
    by_cases heq : T = k * S
    · rw [if_pos heq, if_pos (by omega), List.append_nil]
    · rw [if_neg heq, if_neg (by omega)]
  · have hdiv : ((k : ℤ) + 1) * S / S = k + 1 := Int.mul_ediv_cancel _ (Int.ne_of_gt hS)
    have hne : ((k : ℤ) + 1) * S ≠ k * S := by
      rw [add_mul, one_mul]
      omega
    rw [if_neg hne, pieces, hdiv, Int.mul_emod_left, if_pos rfl, List.append_nil]
    exact rounds_succ.symm

end Rounds

end SchedMon
