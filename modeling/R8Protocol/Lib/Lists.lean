import Mathlib.Tactic

/-! Updating the first match of a list in place, and lists related element by element. -/
namespace Lists

variable {α : Type*} {p : α → Bool} {f : α → α} {l : List α} {a b : α}

/-- Applies `f` to the first element that satisfies `p`. -/
def modifyFirst (p : α → Bool) (f : α → α) : List α → List α
  | [] => []
  | a :: l => if p a then f a :: l else a :: modifyFirst p f l

@[simp] theorem modifyFirst_nil : modifyFirst p f [] = [] := rfl

@[simp] theorem length_modifyFirst : (modifyFirst p f l).length = l.length := by
  induction l with
  | nil => rfl
  | cons a l ih =>
    by_cases hp : p a <;> simp [modifyFirst, hp, ih]

/-- Every element afterwards is an old one, or the first match updated. -/
theorem mem_modifyFirst (h : b ∈ modifyFirst p f l) :
    b ∈ l ∨ ∃ a, l.find? p = some a ∧ b = f a := by
  induction l with
  | nil => simp at h
  | cons a l ih =>
    by_cases hp : p a
    · simp only [modifyFirst, hp, if_true, List.mem_cons] at h
      rcases h with rfl | h
      · exact .inr ⟨a, by simp [hp], rfl⟩
      · exact .inl (List.mem_cons_of_mem _ h)
    · simp only [modifyFirst, hp, Bool.false_eq_true, if_false, List.mem_cons] at h
      rcases h with rfl | h
      · exact .inl List.mem_cons_self
      · rcases ih h with h | ⟨c, hc, rfl⟩
        · exact .inl (List.mem_cons_of_mem _ h)
        · exact .inr ⟨c, by simp [hp, hc], rfl⟩

theorem mem_modifyFirst_of_find (h : l.find? p = some a) : f a ∈ modifyFirst p f l := by
  induction l with
  | nil => simp at h
  | cons c l ih =>
    by_cases hp : p c
    · simp only [List.find?_cons, hp, Option.some.injEq] at h
      subst h
      simp [modifyFirst, hp]
    · simp only [List.find?_cons, hp] at h
      simp [modifyFirst, hp, ih h]

/-- Every old element is kept or updated. -/
theorem mem_modifyFirst_or (h : a ∈ l) : a ∈ modifyFirst p f l ∨ f a ∈ modifyFirst p f l := by
  induction l with
  | nil => simp at h
  | cons c l ih =>
    by_cases hp : p c
    · rcases List.mem_cons.mp h with rfl | h
      · simp [modifyFirst, hp]
      · simp [modifyFirst, hp, h]
    · rcases List.mem_cons.mp h with rfl | h
      · simp [modifyFirst, hp]
      · rcases ih h with h | h <;> simp [modifyFirst, hp, h]

theorem mem_modifyFirst_of_not (h : b ∈ l) (hb : p b = false) : b ∈ modifyFirst p f l := by
  induction l with
  | nil => simp at h
  | cons c l ih =>
    by_cases hp : p c
    · rcases List.mem_cons.mp h with rfl | h
      · simp [hp] at hb
      · simp [modifyFirst, hp, h]
    · rcases List.mem_cons.mp h with rfl | h
      · simp [modifyFirst, hp]
      · simp [modifyFirst, hp, ih h]

section Related

variable {β : Type*} {R : α → β → Prop} {l' : List β}

theorem exists_of_forall₂ (h : List.Forall₂ R l l') (ha : a ∈ l) : ∃ b ∈ l', R a b := by
  induction h with
  | nil => simp at ha
  | @cons c d l l' hcd _ ih =>
    rcases List.mem_cons.mp ha with rfl | ha
    · exact ⟨d, List.mem_cons_self, hcd⟩
    · obtain ⟨b, hb, hab⟩ := ih ha
      exact ⟨b, List.mem_cons_of_mem d hb, hab⟩

/-- What a list holds for each element of a list without duplicates. -/
theorem filter_forall₂ [DecidableEq α] {f : β → Option α} (hf : ∀ a b, R a b → f b = some a)
    (h : List.Forall₂ R l l') (hnodup : l.Nodup) (a : α) :
    (a ∉ l ∧ l'.filter (fun b => f b = some a) = []) ∨
    a ∈ l ∧ ∃ b, R a b ∧ l'.filter (fun b => f b = some a) = [b] := by
  induction h with
  | nil => exact .inl ⟨by simp, rfl⟩
  | @cons c d l l' hcd _ ih =>
    obtain ⟨hc, hrest⟩ := List.nodup_cons.mp hnodup
    by_cases hac : a = c
    · subst hac
      rcases ih hrest with ⟨-, hnone⟩ | ⟨ha, -⟩
      · exact .inr ⟨List.mem_cons_self, d, hcd, by simp [hf a d hcd, hnone]⟩
      · exact absurd ha hc
    · have hd : ¬ f d = some a := by
        rw [hf c d hcd]
        exact fun heq => hac (Option.some.inj heq).symm
      rcases ih hrest with ⟨ha, hnone⟩ | ⟨ha, b, hab, hone⟩
      · exact .inl ⟨by simp [hac, ha], by simp [hd, hnone]⟩
      · exact .inr ⟨List.mem_cons_of_mem c ha, b, hab, by simp [hd, hone]⟩

end Related

end Lists
