import Mathlib.Data.List.Induction
import Mathlib.Tactic.Common

/-!
# Logs

A log grows at its end. `Each P l` says that every entry of it is as `P` asks, in view of the entries
before it; an entry that is added has to satisfy `P` once, and never again.

## Main results

* `each_concat`, `Each.append` — a log that grows
* `Each.append_of_forall` — entries that `P` does not ask about
-/

namespace SchedMon

variable {α : Type*} {P Q : List α → α → Prop} {l l' : List α} {x : α}

/-- Every entry of a log is as it should be, in view of those before it. -/
def Each (P : List α → α → Prop) (l : List α) : Prop :=
  ∀ pre x post, l = pre ++ x :: post → P pre x

@[simp] theorem each_nil : Each P [] := by
  intro pre x post h
  cases pre <;> cases h

/-- An entry is added. -/
theorem each_concat : Each P (l ++ [x]) ↔ Each P l ∧ P l x := by
  constructor
  · intro h
    refine ⟨fun pre y post heq => h pre y (post ++ [x]) ?_, h l x [] rfl⟩
    rw [heq, List.append_assoc, List.cons_append]
  · rintro ⟨h, hx⟩ pre y post heq
    rcases List.eq_nil_or_concat post with rfl | ⟨post, z, rfl⟩
    · obtain ⟨rfl, hy⟩ := List.append_inj' heq rfl
      cases hy
      exact hx
    · rw [List.concat_eq_append, ← List.cons_append, ← List.append_assoc] at heq
      obtain ⟨hl, -⟩ := List.append_inj' heq rfl
      exact h pre y post hl

/-- Entries are added. -/
theorem Each.append (h : Each P l) (h' : Each (fun pre x => P (l ++ pre) x) l') : Each P (l ++ l') := by
  induction l' using List.reverseRecOn with
  | nil => simpa using h
  | append_singleton l' y ih =>
    obtain ⟨h', hy⟩ := each_concat.mp h'
    rw [← List.append_assoc]
    exact each_concat.mpr ⟨ih h', hy⟩

/-- Entries are added that are right wherever they stand. -/
theorem Each.append_of_forall (h : Each P l) (h' : ∀ x ∈ l', ∀ pre, P pre x) : Each P (l ++ l') :=
  h.append fun pre x post heq => h' x (by simp [heq]) _

theorem Each.mono (h : Each P l) (himp : ∀ pre x, P pre x → Q pre x) : Each Q l :=
  fun pre x post heq => himp pre x (h pre x post heq)

end SchedMon
