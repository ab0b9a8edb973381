import Mathlib.Tactic.Common

/-!
# Reasoning about fallible code

Rules for code that returns a value or stops with an error, in `Except`. They take a run that
returned apart, statement by statement.

## Main results

* `bind_eq_ok` — a sequence returns when both parts do
* `foldlM_eq_error` — a loop stops at the first item at which its body does
* `Safely.bind` — a sequence does not go wrong if the first part does not, nor the second one on any
  result the first one promises
-/

namespace SchedMon

universe u v

variable {ε : Type u} {α β : Type v}

/-! ### Code that did return -/

theorem bind_eq_ok {x : Except ε α} {f : α → Except ε β} {b : β} :
    x >>= f = .ok b ↔ ∃ a, x = .ok a ∧ f a = .ok b := by
  cases x with
  | error e => simp [bind, Except.bind]
  | ok a => simp [bind, Except.bind]

theorem bind_of_ok {x : Except ε α} {f : α → Except ε β} {a : α} (h : x = .ok a) :
    x >>= f = f a := by
  subst h
  rfl

theorem bind_of_error {x : Except ε α} {f : α → Except ε β} {e : ε} (h : x = .error e) :
    x >>= f = .error e := by
  subst h
  rfl

theorem bind_eq_error {x : Except ε α} {f : α → Except ε β} {e : ε} :
    x >>= f = .error e ↔ x = .error e ∨ ∃ a, x = .ok a ∧ f a = .error e := by
  cases x with
  | error e' => simp [bind, Except.bind]
  | ok a => simp [bind, Except.bind]

theorem pure_eq_ok {a b : α} : (pure a : Except ε α) = .ok b ↔ a = b := by
  simp [pure, Except.pure]

theorem throw_eq_ok {e : ε} {b : α} : (throw e : Except ε α) = .ok b ↔ False := by
  simp [throw, throwThe, MonadExceptOf.throw]

theorem ite_throw_eq_ok {p : Prop} [Decidable p] {e : ε} {x : Except ε α} {b : α} :
    (if p then throw e else x) = .ok b ↔ ¬ p ∧ x = .ok b := by
  by_cases hp : p
  · simp [hp, throw_eq_ok]
  · simp [hp]

theorem map_eq_ok {x : Except ε α} {f : α → β} {b : β} :
    f <$> x = .ok b ↔ ∃ a, x = .ok a ∧ f a = b := by
  cases x <;> simp [Functor.map, Except.map]

theorem map_bind_of {γ : Type v} {x : Except ε α} {f : α → β} {g : β → Except ε γ} :
    (f <$> x) >>= g = x >>= fun a => g (f a) := by
  cases x <;> rfl

/-- A loop over a part of the state that does not look at the rest, which is kept beside it. -/
theorem foldlM_frame {σ : Type v} {τ : Type*} {γ : Type*} {step : σ → γ → Except ε σ}
    {put : τ → σ → σ} {next : τ → γ → τ}
    (h : ∀ x st a, step (put x st) a = put (next x a) <$> step st a) (as : List γ) (x : τ) (st : σ) :
    as.foldlM step (put x st) = put (as.foldl next x) <$> as.foldlM step st := by
  induction as generalizing x st with
  | nil => rfl
  | cons a as ih =>
    rw [List.foldlM_cons, List.foldlM_cons, h, map_bind_of, List.foldl_cons]
    cases step st a with
    | error e => rfl
    | ok st' => exact ih (next x a) st'

/-- What holds of the state and the elements behind it, and is kept by the body of a loop. -/
theorem foldlM_inv {σ : Type v} {γ : Type*} {step : σ → γ → Except ε σ} {motive : List γ → σ → Prop}
    (hstep : ∀ before st a st', motive before st → step st a = .ok st' → motive (before ++ [a]) st')
    {as before : List γ} {st st' : σ} (hst : motive before st) (h : as.foldlM step st = .ok st') :
    motive (before ++ as) st' := by
  induction as generalizing before st with
  | nil =>
    obtain rfl := pure_eq_ok.mp h
    rwa [List.append_nil]
  | cons a as ih =>
    rw [List.foldlM_cons] at h
    obtain ⟨st₁, hst₁, h⟩ := bind_eq_ok.mp h
    have hrest := ih (hstep before st a st₁ hst hst₁) h
    rwa [List.append_assoc, List.singleton_append] at hrest

/-- A loop goes through if its body does, on each element, in whatever state the loop reaches. -/
theorem exists_foldlM_eq_ok {σ : Type v} {γ : Type*} {step : σ → γ → Except ε σ} {P : γ → Prop}
    {motive : List γ → σ → Prop}
    (hstep : ∀ before st a st', motive before st → step st a = .ok st' → motive (before ++ [a]) st')
    (h : ∀ before st a, motive before st → ((∃ st', step st a = .ok st') ↔ P a))
    {as before : List γ} {st : σ} (hst : motive before st) :
    (∃ st', as.foldlM step st = .ok st') ↔ ∀ a ∈ as, P a := by
  induction as generalizing before st with
  | nil => exact ⟨fun _ a ha => absurd ha List.not_mem_nil, fun _ => ⟨st, rfl⟩⟩
  | cons a as ih =>
    rw [List.foldlM_cons, List.forall_mem_cons, ← h before st a hst]
    constructor
    · rintro ⟨st', hst'⟩
      obtain ⟨st₁, hst₁, hst'⟩ := bind_eq_ok.mp hst'
      exact ⟨⟨st₁, hst₁⟩, (ih (hstep before st a st₁ hst hst₁)).mp ⟨st', hst'⟩⟩
    · rintro ⟨⟨st₁, hst₁⟩, has⟩
      rw [bind_of_ok hst₁]
      exact (ih (hstep before st a st₁ hst hst₁)).mpr has

/-- A loop stops at the first element that its body stops at. -/
theorem foldlM_eq_error {σ : Type v} {γ : Type*} {step : σ → γ → Except ε σ} {as : List γ} {st : σ}
    {e : ε} : as.foldlM step st = .error e ↔ ∃ before a behind st', as = before ++ a :: behind ∧
      before.foldlM step st = .ok st' ∧ step st' a = .error e := by
  induction as generalizing st with
  | nil => simp [pure, Except.pure]
  | cons a as ih =>
    rw [List.foldlM_cons]
    constructor
    · intro h
      cases hstep : step st a with
      | error e' =>
        rw [bind_of_error hstep] at h
        cases h
        exact ⟨[], a, as, st, rfl, rfl, hstep⟩
      | ok st₁ =>
        rw [bind_of_ok hstep] at h
        obtain ⟨before, a', behind, st', rfl, hbefore, ha'⟩ := ih.mp h
        exact ⟨a :: before, a', behind, st', rfl, (bind_of_ok hstep).trans hbefore, ha'⟩
    · rintro ⟨before, a', behind, st', heq, hbefore, ha'⟩
      cases before with
      | nil =>
        obtain ⟨rfl, rfl⟩ := List.cons.inj heq
        cases hbefore
        exact bind_of_error ha'
      | cons b before =>
        obtain ⟨rfl, rfl⟩ := List.cons.inj heq
        rw [List.foldlM_cons] at hbefore
        obtain ⟨st₁, hst₁, hbefore⟩ := bind_eq_ok.mp hbefore
        rw [bind_of_ok hst₁]
        exact ih.mpr ⟨before, a', behind, st', rfl, hbefore, ha'⟩

/-! ### Code that does not go wrong -/

/-- The code does not stop with a bad error, and a value it returns satisfies `post`. -/
def Safely (bad : ε → Prop) (post : α → Prop) : Except ε α → Prop
  | .ok a => post a
  | .error e => ¬ bad e

namespace Safely

variable {bad : ε → Prop} {x : Except ε α} {f : α → Except ε β} {P Q : α → Prop}
  {R : β → Prop}

theorem pure {a : α} (h : P a) : Safely bad P (pure a : Except ε α) := h

theorem bind (h : Safely bad P x) (hf : ∀ a, P a → Safely bad R (f a)) :
    Safely bad R (x >>= f) := by
  cases x with
  | error e => exact h
  | ok a => exact hf a h

theorem mono (h : Safely bad P x) (himp : ∀ a, P a → Q a) : Safely bad Q x := by
  cases x with
  | error e => exact h
  | ok a => exact himp a h

/-- What holds of every value the code returns holds of this one. -/
theorem and_of_ok (h : Safely bad P x) (hok : ∀ a, x = .ok a → Q a) :
    Safely bad (fun a => P a ∧ Q a) x := by
  cases x with
  | error e => exact h
  | ok a => exact ⟨h, hok a rfl⟩

/-- Where no error is bad, all that is promised is about values. -/
theorem of_returned (h : ∀ a, x = .ok a → P a) : Safely (fun _ => False) P x := by
  cases x with
  | error e => exact id
  | ok a => exact h a rfl

theorem of_ok {a : α} (h : Safely bad P x) (hx : x = .ok a) : P a := by
  subst hx
  exact h

theorem not_bad {e : ε} (h : Safely bad P x) (hx : x = .error e) : ¬ bad e := by
  subst hx
  exact h

end Safely

end SchedMon
