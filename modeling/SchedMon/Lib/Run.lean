import Mathlib.Data.List.Basic
import Mathlib.Tactic.Common

/-!
# Runs of a labelled step relation

A system is a relation `step s l s'`: in state `s` the event `l` may happen and leads to `s'`. A
run is a finite sequence of such steps, with the list of its labels in the order they happened.

The only induction on runs is the one in `Run.induct`. A safety property of every reachable state
is two small goals, and properties of the labels so far are the same kind of goal, because the
label list is an argument of the invariant.

## Main results

* `Run.invariant`, `Run.induct` — the invariant rules
* `Run.mono` — fewer steps, fewer runs
* `Run.restrict_iff` — two conditions on steps that agree as long as an invariant holds
* `Run.append`, `Run.cons` — composition
* `Beside`, `Run.of_beside` — a history that the events write beside the state
-/

namespace SchedMon

variable {σ ℓ : Type*}

/-- A run from `s`, by the given labels, to the last state. -/
inductive Run (step : σ → ℓ → σ → Prop) (s : σ) : List ℓ → σ → Prop
  | nil : Run step s [] s
  | snoc {ls : List ℓ} {t u : σ} {l : ℓ} (run : Run step s ls t) (last : step t l u) :
      Run step s (ls ++ [l]) u

namespace Run

variable {step step' : σ → ℓ → σ → Prop} {s t u : σ} {ls ls' : List ℓ} {l : ℓ}

/-- **Invariant rule with history.** What holds at the start, with no label yet, and is preserved
by a step that adds its label, holds at the end of every run. -/
theorem induct {motive : List ℓ → σ → Prop} (run : Run step s ls t) (init : motive [] s)
    (pres : ∀ ls t l u, Run step s ls t → motive ls t → step t l u → motive (ls ++ [l]) u) :
    motive ls t := by
  induction run with
  | nil => exact init
  | snoc run last ih => exact pres _ _ _ _ run ih last

/-- **Invariant rule.** -/
theorem invariant {motive : σ → Prop} (run : Run step s ls t) (init : motive s)
    (pres : ∀ t l u, motive t → step t l u → motive u) : motive t :=
  run.induct (motive := fun _ => motive) init fun _ t l u _ => pres t l u

theorem mono (run : Run step s ls t) (h : ∀ t l u, step t l u → step' t l u) :
    Run step' s ls t := by
  induction run with
  | nil => exact .nil
  | snoc _ last ih => exact ih.snoc (h _ _ _ last)

/-- Two conditions on the steps single out the same runs, if they agree under an invariant that
the second one keeps. -/
theorem restrict_iff {P Q : σ → ℓ → σ → Prop} (inv : σ → Prop) (init : inv s)
    (pres : ∀ t l u, inv t → step t l u → Q t l u → inv u)
    (agree : ∀ t l u, inv t → step t l u → (P t l u ↔ Q t l u)) :
    Run (fun t l u => step t l u ∧ P t l u) s ls t ↔
      Run (fun t l u => step t l u ∧ Q t l u) s ls t := by
  constructor
  · intro run
    refine (run.induct (motive := fun ls t =>
      Run (fun t l u => step t l u ∧ Q t l u) s ls t ∧ inv t) ⟨.nil, init⟩ ?_).1
    rintro ls t l u - ⟨run, ht⟩ ⟨hstep, hP⟩
    have hQ := (agree t l u ht hstep).mp hP
    exact ⟨run.snoc ⟨hstep, hQ⟩, pres t l u ht hstep hQ⟩
  · intro run
    refine (run.induct (motive := fun ls t =>
      Run (fun t l u => step t l u ∧ P t l u) s ls t ∧ inv t) ⟨.nil, init⟩ ?_).1
    rintro ls t l u - ⟨run, ht⟩ ⟨hstep, hQ⟩
    exact ⟨run.snoc ⟨hstep, (agree t l u ht hstep).mpr hQ⟩, pres t l u ht hstep hQ⟩

theorem append (run : Run step s ls t) (run' : Run step t ls' u) : Run step s (ls ++ ls') u := by
  induction run' with
  | nil => simpa using run
  | snoc _ last ih => rw [← List.append_assoc]; exact ih.snoc last

theorem single (h : step s l t) : Run step s [l] t := Run.nil.snoc h

theorem cons (h : step s l t) (run : Run step t ls u) : Run step s (l :: ls) u :=
  (single h).append run

end Run

/-! ### Histories -/

variable {γ : Type*}

/-- A system with a history beside its state. What the events write there depends on the state
before and after. -/
def Beside (step : σ → ℓ → σ → Prop) (write : σ → ℓ → σ → γ → γ) (x : σ × γ) (l : ℓ) (y : σ × γ) :
    Prop :=
  step x.1 l y.1 ∧ y.2 = write x.1 l y.1 x.2

/-- A history does not change what happens. -/
theorem Run.of_beside {step : σ → ℓ → σ → Prop} {write : σ → ℓ → σ → γ → γ} {x y : σ × γ}
    {ls : List ℓ} (run : Run (Beside step write) x ls y) : Run step x.1 ls y.1 := by
  induction run with
  | nil => exact .nil
  | snoc _ last ih => exact ih.snoc last.1

end SchedMon
