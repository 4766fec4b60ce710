import Mathlib.Tactic

/-! Messages with rising numbers on one line, each in one or more copies next to one another. -/

variable {α : Type*} {number : α → ℕ} {last : Option α} {x : α} {xs : List α} {n : ℕ}

/-- A line from the message taken last, if any, up to the next number to be given out. -/
inductive Trail (number : α → ℕ) : Option α → List α → ℕ → Prop
  | nil {last : Option α} {n : ℕ} (h : ∀ y ∈ last, n = number y + 1) : Trail number last [] n
  | again {x : α} {xs : List α} {n : ℕ} (h : Trail number (some x) xs n) :
      Trail number (some x) (x :: xs) n
  | next {last : Option α} {x : α} {xs : List α} {n : ℕ}
      (hx : ∀ y ∈ last, number x = number y + 1) (h : Trail number (some x) xs n) :
      Trail number last (x :: xs) n

namespace Trail

/-- What comes first is the last message once more, or the first copy of the message after it. -/
theorem first (h : Trail number last (x :: xs) n) :
    (last = some x ∨ ∀ y ∈ last, number x = number y + 1) ∧ Trail number (some x) xs n := by
  cases h with
  | again h => exact ⟨.inl rfl, h⟩
  | next hx h => exact ⟨.inr hx, h⟩

theorem copies (x : α) (m : ℕ) :
    Trail number (some x) (List.replicate m x) (number x + 1) := by
  induction m with
  | zero => exact .nil fun y hy => by rw [Option.mem_some_iff.mp hy]
  | succ m ih => exact .again ih

/-- Some copies of the message with the next number join the line. -/
theorem append (h : Trail number last xs n) (hx : number x = n) {m : ℕ} (hm : m ≠ 0) :
    Trail number last (xs ++ List.replicate m x) (n + 1) := by
  induction h with
  | nil h =>
    obtain ⟨m, rfl⟩ := Nat.exists_eq_succ_of_ne_zero hm
    refine .next (fun y hy => hx.trans (h y hy)) ?_
    rw [← hx]
    exact copies x m
  | again _ ih => exact .again (ih hx)
  | next hy _ ih => exact .next hy (ih hx)

end Trail
