import Mathlib.Tactic

/-! Encodings whose end can be told from the front: they can be concatenated without separators. -/
namespace Framing

variable {α γ : Type*} {e : α → List γ} {n i : ℕ}

/-- Equal strings that start with two encodings start with the same one. -/
def SelfDelimiting (e : α → List γ) : Prop :=
  ∀ a b s t, e a ++ s = e b ++ t → a = b ∧ s = t

theorem SelfDelimiting.injective (h : SelfDelimiting e) : Function.Injective e := by
  intro a b hab
  exact (h a b [] [] (by rw [hab])).1

/-- An injective encoding of one length is self-delimiting. -/
theorem SelfDelimiting.of_length (hlen : ∀ a, (e a).length = n) (hinj : Function.Injective e) :
    SelfDelimiting e := by
  intro a b s t h
  obtain ⟨hab, hst⟩ := List.append_inj h ((hlen a).trans (hlen b).symm)
  exact ⟨hinj hab, hst⟩

/-- If a header decides the length of what follows it, the whole is self-delimiting. -/
theorem SelfDelimiting.of_header {κ : Type*} (header : List γ → κ) (k : ℕ)
    (hshort : ∀ a, k ≤ (e a).length) (htake : ∀ l, header (l.take k) = header l)
    (hlen : ∀ a b, header (e a) = header (e b) → (e a).length = (e b).length)
    (hinj : Function.Injective e) : SelfDelimiting e := by
  intro a b s t h
  have hhead : header (e a) = header (e b) := by
    rw [← htake (e a), ← htake (e b)]
    have := congrArg (List.take k) h
    rw [List.take_append_of_le_length (hshort a), List.take_append_of_le_length (hshort b)] at this
    rw [this]
  obtain ⟨hab, hst⟩ := List.append_inj h (hlen a b hhead)
  exact ⟨hinj hab, hst⟩

/-- Labels that differ somewhere keep apart whatever follows them. -/
theorem append_ne {l l' : List γ} (hi : i < l.length) (hi' : i < l'.length) (hne : l[i] ≠ l'[i])
    (s t : List γ) : l ++ s ≠ l' ++ t := by
  intro h
  apply hne
  have := congrArg (·[i]?) h
  rw [List.getElem?_append_left hi, List.getElem?_append_left hi'] at this
  simpa [hi, hi'] using this

end Framing
