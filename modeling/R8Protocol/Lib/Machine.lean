import Mathlib.Tactic

/-! Runs of a deterministic machine whose steps meet a side condition, and the invariant rules. -/
namespace Machine

variable {σ α : Type*} {init : σ → Prop} {step : σ → α → σ} {ok : σ → α → Prop} {s t : σ} {a : α}

/-- The states reached from an initial one by steps that all meet `ok`. -/
inductive Reach (init : σ → Prop) (step : σ → α → σ) (ok : σ → α → Prop) : σ → Prop
  | start {s : σ} (h : init s) : Reach init step ok s
  | next {s : σ} {a : α} (h : Reach init step ok s) (ha : ok s a) : Reach init step ok (step s a)

theorem Reach.invariant {I : σ → Prop} (h₀ : ∀ s, init s → I s)
    (hs : ∀ s a, I s → ok s a → I (step s a)) (h : Reach init step ok s) : I s := by
  induction h with
  | start h => exact h₀ _ h
  | next _ ha ih => exact hs _ _ ih ha

theorem Reach.mono {ok' : σ → α → Prop} (hok : ∀ s a, ok s a → ok' s a)
    (h : Reach init step ok s) : Reach init step ok' s := by
  induction h with
  | start h => exact .start h
  | next _ ha ih => exact .next ih (hok _ _ ha)

/-- A run from `s` to `t`. -/
abbrev Run (step : σ → α → σ) (ok : σ → α → Prop) (s t : σ) : Prop := Reach (· = s) step ok t

theorem Run.refl (s : σ) : Run step ok s s := .start rfl

theorem Reach.trans (h : Reach init step ok s) (hr : Run step ok s t) : Reach init step ok t := by
  induction hr with
  | start h' => exact h' ▸ h
  | next _ ha ih => exact .next ih ha

/-- Executes a list of actions from left to right. -/
def exec (step : σ → α → σ) (s : σ) (as : List α) : σ := as.foldl step s

/-- A list of actions whose steps meet `ok` at the states they are taken in. -/
def Allowed (step : σ → α → σ) (ok : σ → α → Prop) : σ → List α → Prop
  | _, [] => True
  | s, a :: as => ok s a ∧ Allowed step ok (step s a) as

instance decidableAllowed (step : σ → α → σ) (ok : σ → α → Prop)
    [∀ s a, Decidable (ok s a)] : ∀ s as, Decidable (Allowed step ok s as)
  | _, [] => inferInstanceAs (Decidable True)
  | s, a :: as =>
    have := decidableAllowed step ok (step s a) as
    inferInstanceAs (Decidable (ok s a ∧ Allowed step ok (step s a) as))

theorem Allowed.of_forall (h : ∀ s a, ok s a) (s : σ) (as : List α) : Allowed step ok s as := by
  induction as generalizing s with
  | nil => trivial
  | cons a as ih => exact ⟨h s a, ih _⟩

theorem Reach.exec (h : Reach init step ok s) (as : List α) (ha : Allowed step ok s as) :
    Reach init step ok (exec step s as) := by
  induction as generalizing s with
  | nil => exact h
  | cons a as ih => exact ih (.next h ha.1) ha.2

/-- The machines of a table after an action on the one that is named, if any. -/
def stepAt {ι : Type*} [DecidableEq ι] (step : σ → α → σ) (table : ι → Option σ) :
    Option (ι × α) → ι → Option σ
  | none => table
  | some (i, a) => Function.update table i ((table i).map fun s => step s a)

theorem stepAt_eq_some {ι : Type*} [DecidableEq ι] {table : ι → Option σ} {r : Option (ι × α)}
    {i : ι} (h : stepAt step table r i = some t) :
    table i = some t ∨ ∃ s a, table i = some s ∧ r = some (i, a) ∧ t = step s a := by
  cases r with
  | none => exact .inl h
  | some x =>
    obtain ⟨k, a⟩ := x
    by_cases hk : i = k
    · subst hk
      simp only [stepAt, Function.update_self, Option.map_eq_some_iff] at h
      obtain ⟨s, hs, rfl⟩ := h
      exact .inr ⟨s, a, hs, rfl, rfl⟩
    · simp only [stepAt, Function.update_of_ne hk] at h
      exact .inl h

end Machine
