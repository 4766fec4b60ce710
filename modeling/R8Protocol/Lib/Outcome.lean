import Mathlib.Tactic

/-! Inversion of guarded `Except` computations. -/
namespace Outcome

universe u

variable {ε : Type*} {α β : Type u} {p : Prop} [Decidable p] {e : ε} {a : α} {b : β}

@[simp] theorem ite_error_eq_ok {x : Except ε α} :
    (if p then .error e else x) = .ok a ↔ ¬ p ∧ x = .ok a := by
  by_cases hp : p <;> simp [hp]

@[simp] theorem ite_ok_eq_ok {x : Except ε α} :
    (if p then x else .error e) = .ok a ↔ p ∧ x = .ok a := by
  by_cases hp : p <;> simp [hp]

@[simp] theorem dite_error_eq_ok {x : ¬ p → Except ε α} :
    (if h : p then .error e else x h) = .ok a ↔ ∃ h : ¬ p, x h = .ok a := by
  by_cases hp : p <;> simp [hp]

theorem bind_eq_ok {x : Except ε α} {f : α → Except ε β} :
    (x >>= f) = .ok b ↔ ∃ a, x = .ok a ∧ f a = .ok b := by
  cases x <;> simp [bind, Except.bind]

theorem bind_eq_error {x : Except ε α} {f : α → Except ε β} :
    (x >>= f) = .error e ↔ x = .error e ∨ ∃ a, x = .ok a ∧ f a = .error e := by
  cases x <;> simp [bind, Except.bind]

theorem map_eq_ok {x : Except ε α} {f : α → β} :
    (f <$> x) = .ok b ↔ ∃ a, x = .ok a ∧ f a = b := by
  cases x <;> simp [Functor.map, Except.map]

@[simp] theorem mapError_eq_ok {ε' : Type*} {x : Except ε α} {f : ε → ε'} :
    x.mapError f = .ok a ↔ x = .ok a := by
  cases x <;> simp [Except.mapError]

theorem toOption_eq_some {x : Except ε α} : x.toOption = some a ↔ x = .ok a := by
  cases x <;> simp [Except.toOption]

end Outcome
