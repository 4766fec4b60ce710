import Mathlib.Tactic

/-! A bit array kept in machine words: single bits, and a shift by one that carries between words. -/
namespace BitWords

variable {w k : ℕ} {v : Vector (BitVec w) k} {i n : ℕ}

/-- Bit `n` counts from the low end of word zero; bits past the array are clear. -/
def testBit (v : Vector (BitVec w) k) (n : ℕ) : Bool := (v[n / w]?.getD 0).getLsbD (n % w)

def setBit (v : Vector (BitVec w) k) (n : ℕ) : Vector (BitVec w) k :=
  v.setIfInBounds (n / w) (v[n / w]?.getD 0 ||| (1#w <<< (n % w)))

def clearBit (v : Vector (BitVec w) k) (n : ℕ) : Vector (BitVec w) k :=
  v.setIfInBounds (n / w) (v[n / w]?.getD 0 &&& ~~~(1#w <<< (n % w)))

/-- The word at `i` after one shift, computed from unshifted words. -/
def shiftedWord (v : Vector (BitVec w) k) (i : Fin k) : BitVec w :=
  (v[i] <<< 1) ||| if 0 < i.val then v[i.val - 1] >>> (w - 1) else 0

/-- Shifts in place from the last word down, so that every carry read is still the old one. -/
def shiftOnce (v : Vector (BitVec w) k) : Vector (BitVec w) k :=
  (List.finRange k).reverse.foldl (fun v i => v.set i.val (shiftedWord v i)) v

theorem index_eq_iff : n / w = i / w ∧ n % w = i % w ↔ n = i := by
  constructor
  · rintro ⟨hd, hm⟩
    rw [← Nat.div_add_mod n w, ← Nat.div_add_mod i w, hd, hm]
  · rintro rfl
    exact ⟨rfl, rfl⟩

theorem getLsbD_mask {m j : ℕ} (hm : m < w) : (1#w <<< j).getLsbD m = decide (m = j) := by
  rw [← BitVec.twoPow_eq, BitVec.getLsbD_twoPow]
  by_cases h : m = j
  · simp [← h, hm]
  · simp [h, Ne.symm h]

@[simp] theorem testBit_replicate : testBit (Vector.replicate k (0#w)) n = false := by
  unfold testBit
  by_cases hn : n / w < k <;> simp [hn]

theorem testBit_past (hw : 0 < w) (hn : w * k ≤ n) : testBit v n = false := by
  have : k ≤ n / w := (Nat.le_div_iff_mul_le hw).mpr (by rwa [mul_comm])
  simp [testBit, Vector.getElem?_eq_none this]

theorem testBit_setBit (hw : 0 < w) (hi : i < w * k) :
    testBit (setBit v i) n = (decide (n = i) || testBit v n) := by
  have hik : i / w < k := Nat.div_lt_of_lt_mul hi
  have hm : n % w < w := Nat.mod_lt _ hw
  by_cases hd : i / w = n / w
  · have hnk : n / w < k := hd ▸ hik
    have he : n = i ↔ n % w = i % w := by
      rw [← index_eq_iff]
      exact and_iff_right hd.symm
    simp only [testBit, setBit, hd, Vector.getElem?_setIfInBounds_self, hnk, if_true,
      Option.getD_some, BitVec.getLsbD_or, getLsbD_mask hm, he]
    rw [Bool.or_comm]
  · have hne : n ≠ i := by
      rintro rfl
      exact hd rfl
    simp [testBit, setBit, Vector.getElem?_setIfInBounds_ne hd, hne]

theorem testBit_clearBit (hw : 0 < w) (hi : i < w * k) :
    testBit (clearBit v i) n = (decide (n ≠ i) && testBit v n) := by
  have hik : i / w < k := Nat.div_lt_of_lt_mul hi
  have hm : n % w < w := Nat.mod_lt _ hw
  by_cases hd : i / w = n / w
  · have hnk : n / w < k := hd ▸ hik
    have he : n = i ↔ n % w = i % w := by
      rw [← index_eq_iff]
      exact and_iff_right hd.symm
    simp only [testBit, clearBit, hd, Vector.getElem?_setIfInBounds_self, hnk, if_true,
      Option.getD_some, BitVec.getLsbD_and, BitVec.getLsbD_not, getLsbD_mask hm, ne_eq, he]
    rw [Bool.and_comm]
    simp [hm]
  · have hne : n ≠ i := by
      rintro rfl
      exact hd rfl
    simp [testBit, clearBit, Vector.getElem?_setIfInBounds_ne hd, hne]

theorem shiftedWord_set_above {i j : Fin k} {x : BitVec w} (h : i < j) :
    shiftedWord (v.set j.val x) i = shiftedWord v i := by
  have hij : j.val ≠ i.val := by omega
  have hij' : j.val ≠ i.val - 1 := by omega
  simp [shiftedWord, Vector.getElem_set_ne, hij, hij']

/-- Going down the indices, a word is rewritten before either word it reads has changed. -/
theorem getElem_shift_foldl (l : List (Fin k)) (hl : l.Pairwise (· > ·)) (i : Fin k) :
    (l.foldl (fun v i => v.set i.val (shiftedWord v i)) v)[i] =
      if i ∈ l then shiftedWord v i else v[i] := by
  induction l generalizing v with
  | nil => simp
  | cons j l ih =>
    obtain ⟨hj, hl⟩ := List.pairwise_cons.mp hl
    rw [List.foldl_cons, ih hl]
    by_cases hil : i ∈ l
    · have hne : i ≠ j := by
        rintro rfl
        exact lt_irrefl _ (hj i hil)
      simp [hil, shiftedWord_set_above (hj i hil)]
    · by_cases hij : i = j
      · subst hij
        simp [hil]
      · have : j.val ≠ i.val := fun h => hij (Fin.ext h.symm)
        simp [hil, hij, Vector.getElem_set_ne, this]

theorem getElem_shiftOnce (i : Fin k) : (shiftOnce v)[i] = shiftedWord v i := by
  have hl : (List.finRange k).reverse.Pairwise (· > ·) := by
    rw [List.pairwise_reverse]
    exact List.pairwise_lt_finRange k
  rw [shiftOnce, getElem_shift_foldl _ hl]
  simp

theorem testBit_shiftOnce (hw : 0 < w) (hn : n < w * k) :
    testBit (shiftOnce v) n = (decide (0 < n) && testBit v (n - 1)) := by
  have hnk : n / w < k := Nat.div_lt_of_lt_mul hn
  have hm : n % w < w := Nat.mod_lt _ hw
  have hword := getElem_shiftOnce (v := v) ⟨n / w, hnk⟩
  simp only [Fin.getElem_fin] at hword
  have hleft : testBit (shiftOnce v) n = (shiftedWord v ⟨n / w, hnk⟩).getLsbD (n % w) := by
    simp [testBit, hword, hnk]
  rw [hleft, shiftedWord]
  by_cases hz : n % w = 0
  · by_cases hd : 0 < n / w
    · obtain ⟨q, hq⟩ : ∃ q, n / w = q + 1 := ⟨n / w - 1, by omega⟩
      have hn' : n = w * (q + 1) := by
        rw [← Nat.div_add_mod n w, hz, hq, add_zero]
      have hpre : n - 1 = w * q + (w - 1) := by
        rw [hn', mul_add]
        omega
      have hdiv : (n - 1) / w = q := by
        rw [hpre, Nat.mul_add_div hw, Nat.div_eq_of_lt (by omega), add_zero]
      have hmod : (n - 1) % w = w - 1 := by
        rw [hpre, Nat.mul_add_mod, Nat.mod_eq_of_lt (by omega)]
      have hpos : 0 < n := by
        rw [hn']
        positivity
      have hqk : q < k := by omega
      simp [testBit, hdiv, hmod, hz, hpos, hq, hqk, hw]
    · have hn0 : n = 0 := by
        have := Nat.div_add_mod n w
        rw [hz, Nat.eq_zero_of_not_pos hd] at this
        omega
      simp [hn0]
  · have hpos : 0 < n := by
      rcases Nat.eq_zero_or_pos n with h | h
      · simp [h] at hz
      · exact h
    obtain ⟨q, r, hn', hr⟩ : ∃ q r, n = w * q + (r + 1) ∧ r + 1 < w :=
      ⟨n / w, n % w - 1, by have := Nat.div_add_mod n w; omega, by omega⟩
    have hpre : n - 1 = w * q + r := by omega
    have hq : n / w = q := by
      rw [hn', Nat.mul_add_div hw, Nat.div_eq_of_lt hr, add_zero]
    have hr' : n % w = r + 1 := by
      rw [hn', Nat.mul_add_mod, Nat.mod_eq_of_lt hr]
    have hdiv : (n - 1) / w = n / w := by
      rw [hpre, hq, Nat.mul_add_div hw, Nat.div_eq_of_lt (by omega), add_zero]
    have hmod : (n - 1) % w = n % w - 1 := by
      rw [hpre, hr', Nat.mul_add_mod, Nat.mod_eq_of_lt (by omega), Nat.add_sub_cancel]
    have hcarry : w ≤ w - 1 + n % w := by omega
    have hlt : ¬ n % w < 1 := by omega
    have hlow : n % w - 1 < w := by omega
    by_cases hd : 0 < n / w
    · simp [testBit, hdiv, hmod, hpos, hnk, hm, hd, hlt, hcarry, BitVec.getLsbD_eq_getElem hlow]
    · simp [testBit, hdiv, hmod, hpos, hnk, hm, hd, hlt, BitVec.getLsbD_eq_getElem hlow]

theorem testBit_shift_iterate (hw : 0 < w) (s : ℕ) (hn : n < w * k) :
    testBit (shiftOnce^[s] v) n = (decide (s ≤ n) && testBit v (n - s)) := by
  induction s generalizing n with
  | zero => simp
  | succ s ih =>
    rw [Function.iterate_succ', Function.comp, testBit_shiftOnce hw hn, ih (by omega)]
    by_cases h : s + 1 ≤ n
    · have h' : s ≤ n - 1 := by omega
      have hp : 0 < n := by omega
      simp [h, h', hp, Nat.sub_sub, add_comm]
    · by_cases hp : 0 < n
      · have h' : ¬ s ≤ n - 1 := by omega
        simp [h, h']
      · simp [h, hp]

/-- The words read as one number, word zero its low end. -/
def toNat (v : Vector (BitVec w) k) : ℕ := Nat.ofBits fun n : Fin (w * k) => testBit v n

theorem testBit_toNat (hw : 0 < w) : (toNat v).testBit n = testBit v n := by
  by_cases hn : n < w * k
  · rw [toNat, Nat.testBit_ofBits_lt _ _ hn]
  · rw [toNat, Nat.testBit_ofBits_ge _ _ (not_lt.mp hn), testBit_past hw (not_lt.mp hn)]

theorem toNat_replicate (hw : 0 < w) : toNat (Vector.replicate k (0#w)) = 0 := by
  refine Nat.eq_of_testBit_eq fun n => ?_
  rw [testBit_toNat hw, testBit_replicate, Nat.zero_testBit]

theorem toNat_setBit (hw : 0 < w) (hi : i < w * k) : toNat (setBit v i) = toNat v ||| 1 <<< i := by
  refine Nat.eq_of_testBit_eq fun n => ?_
  rw [testBit_toNat hw, testBit_setBit hw hi, Nat.testBit_or, testBit_toNat hw, Nat.one_shiftLeft,
    Nat.testBit_two_pow, Bool.or_comm, decide_eq_decide.mpr (eq_comm (a := i))]

/-- Shifting the words `s` times is one shift of the number, cut off at the end of the array. -/
theorem toNat_shift_iterate (hw : 0 < w) (s : ℕ) :
    toNat (shiftOnce^[s] v) = toNat v <<< s &&& (1 <<< (w * k)) - 1 := by
  refine Nat.eq_of_testBit_eq fun n => ?_
  rw [testBit_toNat hw, Nat.testBit_and, Nat.testBit_shiftLeft, Nat.one_shiftLeft,
    Nat.testBit_two_pow_sub_one, testBit_toNat hw]
  by_cases hn : n < w * k
  · simp [testBit_shift_iterate hw s hn, hn]
  · simp [testBit_past hw (not_lt.mp hn), hn]

end BitWords
