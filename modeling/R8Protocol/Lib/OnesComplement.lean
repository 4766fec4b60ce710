import Mathlib.Tactic
import Mathlib.Data.Nat.ModEq

/-! One's-complement sums: end-around carries, the two zeros, and the two ways to check a sum. -/
namespace OnesComplement

variable {b w r s t : ℕ} {xs ys : List ℕ}

/-- The carry out of `w` bits is added back in. -/
def fold (w s : ℕ) : ℕ := s % 2 ^ w + s / 2 ^ w

/-- A running sum whose carry is folded in after every word. -/
def sumFrom (w : ℕ) : ℕ → List ℕ → ℕ := List.foldl fun s x => fold w (s + x)

/-- Two digits to a word, the last word filled up with a zero. -/
def words (b : ℕ) : List ℕ → List ℕ
  | x :: y :: rest => (x * b + y) :: words b rest
  | [x] => [x * b]
  | [] => []

/-- The complement of a sum, with all ones in place of zero. -/
def negate (w s : ℕ) : ℕ := if 2 ^ w - 1 - s = 0 then 2 ^ w - 1 else 2 ^ w - 1 - s

theorem fold_modEq (w s : ℕ) : fold w s ≡ s [MOD 2 ^ w - 1] := by
  have hone : 2 ^ w ≡ 1 [MOD 2 ^ w - 1] :=
    ((Nat.modEq_iff_dvd' Nat.one_le_two_pow).mpr dvd_rfl).symm
  calc fold w s = s % 2 ^ w + 1 * (s / 2 ^ w) := by rw [fold, one_mul]
    _ ≡ s % 2 ^ w + 2 ^ w * (s / 2 ^ w) [MOD 2 ^ w - 1] := (hone.symm.mul_right _).add_left _
    _ = s := Nat.mod_add_div s (2 ^ w)

theorem fold_of_lt (h : s < 2 ^ w) : fold w s = s := by
  simp [fold, Nat.mod_eq_of_lt h, Nat.div_eq_of_lt h]

theorem fold_add_lt (hs : s < 2 ^ w) (ht : t < 2 ^ w) : fold w (s + t) < 2 ^ w := by
  by_cases h : s + t < 2 ^ w
  · rwa [fold_of_lt h]
  · have hdiv : (s + t) / 2 ^ w = 1 := by
      apply Nat.div_eq_of_lt_le <;> omega
    have hmod := Nat.mod_add_div (s + t) (2 ^ w)
    rw [hdiv] at hmod
    unfold fold
    omega

theorem fold_eq_zero : fold w s = 0 ↔ s = 0 := by
  constructor
  · intro h
    have hmod := Nat.mod_add_div s (2 ^ w)
    obtain ⟨h1, h2⟩ := Nat.add_eq_zero_iff.mp h
    rw [h1, h2] at hmod
    omega
  · rintro rfl
    simp [fold]

theorem sumFrom_lt (hs : s < 2 ^ w) (hx : ∀ x ∈ xs, x < 2 ^ w) : sumFrom w s xs < 2 ^ w := by
  induction xs generalizing s with
  | nil => exact hs
  | cons x xs ih =>
    apply ih (fold_add_lt hs (hx x List.mem_cons_self))
    intro y hy
    exact hx y (List.mem_cons_of_mem _ hy)

theorem sumFrom_modEq (w s : ℕ) (xs : List ℕ) : sumFrom w s xs ≡ s + xs.sum [MOD 2 ^ w - 1] := by
  induction xs generalizing s with
  | nil => rfl
  | cons x xs ih =>
    calc sumFrom w s (x :: xs) = sumFrom w (fold w (s + x)) xs := rfl
      _ ≡ fold w (s + x) + xs.sum [MOD 2 ^ w - 1] := ih _
      _ ≡ s + x + xs.sum [MOD 2 ^ w - 1] := (fold_modEq w (s + x)).add_right _
      _ = s + (x :: xs).sum := by rw [List.sum_cons, Nat.add_assoc]

theorem sumFrom_eq_zero : sumFrom w s xs = 0 ↔ s + xs.sum = 0 := by
  induction xs generalizing s with
  | nil => rfl
  | cons x xs ih =>
    have h : sumFrom w s (x :: xs) = sumFrom w (fold w (s + x)) xs := rfl
    rw [h, ih, List.sum_cons, Nat.add_eq_zero_iff, fold_eq_zero]
    omega

theorem sumFrom_append (w s : ℕ) (xs ys : List ℕ) :
    sumFrom w s (xs ++ ys) = sumFrom w (sumFrom w s xs) ys := List.foldl_append

/-- The carries of two sums can be folded in together at the end. -/
theorem fold_sumFrom (hs : s < 2 ^ w) (hx : ∀ x ∈ xs, x < 2 ^ w) (hy : ∀ y ∈ ys, y < 2 ^ w)
    (hpos : 0 < s + xs.sum) :
    fold w (sumFrom w s xs + sumFrom w 0 ys) = sumFrom w s (xs ++ ys) := by
  have hzero : (0 : ℕ) < 2 ^ w := Nat.two_pow_pos w
  have hsx := sumFrom_lt hs hx
  have hmod : fold w (sumFrom w s xs + sumFrom w 0 ys) ≡ sumFrom w s (xs ++ ys)
      [MOD 2 ^ w - 1] := by
    calc fold w (sumFrom w s xs + sumFrom w 0 ys)
        ≡ sumFrom w s xs + sumFrom w 0 ys [MOD 2 ^ w - 1] := fold_modEq _ _
      _ ≡ sumFrom w s xs + (0 + ys.sum) [MOD 2 ^ w - 1] := (sumFrom_modEq _ _ _).add_left _
      _ = sumFrom w s xs + ys.sum := by rw [Nat.zero_add]
      _ ≡ sumFrom w (sumFrom w s xs) ys [MOD 2 ^ w - 1] := (sumFrom_modEq _ _ _).symm
      _ = sumFrom w s (xs ++ ys) := (sumFrom_append _ _ _ _).symm
  have hlt : fold w (sumFrom w s xs + sumFrom w 0 ys) < 2 ^ w :=
    fold_add_lt hsx (sumFrom_lt hzero hy)
  have hlt' : sumFrom w s (xs ++ ys) < 2 ^ w := by
    rw [sumFrom_append]
    exact sumFrom_lt hsx hy
  have hne : sumFrom w s xs ≠ 0 := by
    intro h
    have := sumFrom_eq_zero.mp h
    omega
  have hne' : sumFrom w s (xs ++ ys) ≠ 0 := by
    intro h
    rw [sumFrom_append, sumFrom_eq_zero] at h
    omega
  have hfold : fold w (sumFrom w s xs + sumFrom w 0 ys) ≠ 0 := by
    intro h
    have := fold_eq_zero.mp h
    omega
  -- positive representatives below all ones are unique
  have h₁ := Nat.ModEq.dvd hmod
  have h₂ := Nat.ModEq.dvd hmod.symm
  by_contra hdiff
  rcases Nat.lt_or_gt_of_ne hdiff with h | h
  · have := Int.le_of_dvd (by omega) h₁
    omega
  · have := Int.le_of_dvd (by omega) h₂
    omega

/-- A sum over everything is all ones exactly if the received word is the negated sum of the rest. -/
theorem eq_ones_iff (hs : 0 < s) (hsw : s < 2 ^ w) (hr : 0 < r) (hrw : r < 2 ^ w) (ht : 0 < t)
    (htw : t < 2 ^ w) (h : t ≡ s + r [MOD 2 ^ w - 1]) : t = 2 ^ w - 1 ↔ negate w s = r := by
  have hm : t % (2 ^ w - 1) = (s + r) % (2 ^ w - 1) := h
  generalize hM : 2 ^ w - 1 = M at hm
  have hle : s ≤ M ∧ r ≤ M ∧ t ≤ M := by omega
  have ht0 : t = M ↔ t % M = 0 := by
    constructor
    · rintro rfl
      exact Nat.mod_self t
    · intro h0
      by_contra hne
      rw [Nat.mod_eq_of_lt (by omega)] at h0
      omega
  have hs0 : (s + r) % M = 0 ↔ s + r = M ∨ s + r = M + M := by
    constructor
    · intro h0
      obtain ⟨k, hk⟩ := Nat.dvd_of_mod_eq_zero h0
      have hk2 : k < 3 := by
        by_contra hge
        have : M * 3 ≤ M * k := Nat.mul_le_mul_left M (by omega)
        omega
      interval_cases k <;> omega
    · rintro (h0 | h0) <;> rw [h0] <;> simp
  rw [ht0, hm, hs0, negate, hM]
  split <;> omega

theorem words_append {l : List ℕ} (h : l.length % 2 = 0) (l' : List ℕ) :
    words b (l ++ l') = words b l ++ words b l' := by
  induction l using words.induct with
  | case1 x y rest ih =>
    simp only [List.cons_append, words]
    rw [ih]
    simp only [List.length_cons] at h
    omega
  | case2 x => simp at h
  | case3 => rfl

theorem words_sum_pos {l : List ℕ} (hb : 0 < b) (h : 0 < l.sum) : 0 < (words b l).sum := by
  induction l using words.induct with
  | case1 x y rest ih =>
    simp only [List.sum_cons, words] at h ⊢
    by_cases hxy : x = 0 ∧ y = 0
    · have := ih (by omega)
      omega
    · have : 0 < x * b + y := by
        rcases Nat.eq_zero_or_pos x with rfl | hx
        · omega
        · have := Nat.mul_pos hx hb
          omega
      omega
  | case2 x =>
    simp only [List.sum_cons, List.sum_nil, Nat.add_zero, words] at h ⊢
    exact Nat.mul_pos h hb
  | case3 => exact h

theorem words_lt {l : List ℕ} (hl : ∀ x ∈ l, x < b) : ∀ x ∈ words b l, x < b * b := by
  induction l using words.induct with
  | case1 x y rest ih =>
    have hx := hl x List.mem_cons_self
    have hy := hl y (List.mem_cons_of_mem _ List.mem_cons_self)
    intro z hz
    rcases List.mem_cons.mp hz with rfl | hz
    · calc x * b + y < x * b + b := by omega
        _ = (x + 1) * b := by ring
        _ ≤ b * b := Nat.mul_le_mul_right b hx
    · apply ih _ z hz
      intro u hu
      exact hl u (List.mem_cons_of_mem _ (List.mem_cons_of_mem _ hu))
  | case2 x =>
    have hx := hl x List.mem_cons_self
    intro z hz
    obtain rfl := List.mem_singleton.mp hz
    exact Nat.mul_lt_mul_of_pos_right hx (by omega)
  | case3 => simp [words]

end OnesComplement
