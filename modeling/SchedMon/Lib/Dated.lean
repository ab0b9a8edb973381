import Mathlib.Data.List.Basic
import Mathlib.Data.Nat.Basic

/-!
# Dated records

A clock is read again and again; `clock i` is what reading `i` returns. Records carry stamps. A list
of records is dated when each stamp is what a reading of its own returned, in the order of the list.
Lists that were dated one after the other make one dated list, and the stamps of a dated list are in
whatever order the clock goes.

## Main definitions

* `Dated` — the stamps of a list are successive readings, between two given ones

## Main results

* `Dated.append` — dating goes on
* `Dated.pairwise` — the stamps are ordered as the clock is
-/

namespace SchedMon

variable {α τ : Type*} {clock : ℕ → τ} {stamp? : α → Option τ} {lo mid hi lo' hi' i : ℕ}
  {ws ws' : List α} {w : α}

/-- The stamps of `ws` are readings of the clock, from reading `lo` on and before reading `hi`, each
stamp by a reading of its own, in order. -/
def Dated (clock : ℕ → τ) (stamp? : α → Option τ) (lo hi : ℕ) (ws : List α) : Prop :=
  ∃ is : List ℕ, is.Pairwise (· < ·) ∧ (∀ i ∈ is, lo ≤ i ∧ i < hi) ∧
    ws.filterMap stamp? = is.map clock

namespace Dated

theorem nil (clock : ℕ → τ) (stamp? : α → Option τ) (lo hi : ℕ) : Dated clock stamp? lo hi [] :=
  ⟨[], List.Pairwise.nil, by simp, rfl⟩

/-- Records without a stamp. -/
theorem of_undated (h : ∀ w ∈ ws, stamp? w = none) : Dated clock stamp? lo hi ws :=
  ⟨[], List.Pairwise.nil, by simp, List.filterMap_eq_nil_iff.mpr h⟩

theorem single (h : stamp? w = some (clock i)) (hlo : lo ≤ i) (hhi : i < hi) :
    Dated clock stamp? lo hi [w] := by
  refine ⟨[i], List.pairwise_singleton _ i, fun j hj => ?_, ?_⟩
  · rw [List.mem_singleton.mp hj]
    exact ⟨hlo, hhi⟩
  · rw [List.filterMap_cons_some h]
    rfl

/-- Dating goes on where it ended. -/
theorem append (h : Dated clock stamp? lo mid ws) (h' : Dated clock stamp? mid hi ws')
    (hlo : lo ≤ mid) (hhi : mid ≤ hi) : Dated clock stamp? lo hi (ws ++ ws') := by
  obtain ⟨is, hsorted, hbound, hstamps⟩ := h
  obtain ⟨js, hsorted', hbound', hstamps'⟩ := h'
  refine ⟨is ++ js, ?_, fun i hi' => ?_, ?_⟩
  · refine List.pairwise_append.mpr ⟨hsorted, hsorted', fun i hi' j hj => ?_⟩
    exact Nat.lt_of_lt_of_le (hbound i hi').2 (hbound' j hj).1
  · rcases List.mem_append.mp hi' with hi' | hi'
    · exact ⟨(hbound i hi').1, Nat.lt_of_lt_of_le (hbound i hi').2 hhi⟩
    · exact ⟨Nat.le_trans hlo (hbound' i hi').1, (hbound' i hi').2⟩
  · rw [List.filterMap_append, hstamps, hstamps', List.map_append]

theorem mono (h : Dated clock stamp? lo hi ws) (hlo : lo' ≤ lo) (hhi : hi ≤ hi') :
    Dated clock stamp? lo' hi' ws := by
  obtain ⟨is, hsorted, hbound, hstamps⟩ := h
  exact ⟨is, hsorted, fun i hi' => ⟨Nat.le_trans hlo (hbound i hi').1,
    Nat.lt_of_lt_of_le (hbound i hi').2 hhi⟩, hstamps⟩

/-- **The stamps are ordered as the clock is.** -/
theorem pairwise {R : τ → τ → Prop} (h : Dated clock stamp? lo hi ws)
    (hclock : ∀ i j, i < j → R (clock i) (clock j)) : (ws.filterMap stamp?).Pairwise R := by
  obtain ⟨is, hsorted, -, hstamps⟩ := h
  rw [hstamps, List.pairwise_map]
  exact hsorted.imp fun {i j} hij => hclock i j hij

end Dated

end SchedMon
