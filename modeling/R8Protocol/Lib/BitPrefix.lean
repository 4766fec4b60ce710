import R8Protocol.Lib.Bytes

/-! Byte strings as strings of bits, the most significant bit of each byte first. -/
namespace BitPrefix

open FixedWidth

variable {l l' : List Byte} {a b : Byte} {i j k n r : ℕ}

/-- Bits past the end are clear. -/
def bitAt (l : List Byte) (i : ℕ) : Bool := (byteAt l (i / 8)).val.testBit (7 - i % 8)

/-- The strings have the same first `n` bits. -/
def Agree (n : ℕ) (l l' : List Byte) : Prop := ∀ i < n, bitAt l i = bitAt l' i

theorem bitAt_byte (hj : j < 8) : bitAt l (8 * k + j) = (byteAt l k).val.testBit (7 - j) := by
  have hdiv : (8 * k + j) / 8 = k := by omega
  have hmod : (8 * k + j) % 8 = j := by omega
  rw [bitAt, hdiv, hmod]

theorem testBit_byte (hi : 8 ≤ i) : a.val.testBit i = false :=
  Nat.testBit_lt_two_pow (lt_of_lt_of_le a.isLt (Nat.pow_le_pow_right two_pos hi))

/-- The first `r` bits of two bytes are compared by a shift. -/
theorem shiftRight_eq_iff (hr : r ≤ 8) : a.val >>> (8 - r) = b.val >>> (8 - r) ↔
    ∀ j < r, a.val.testBit (7 - j) = b.val.testBit (7 - j) := by
  constructor
  · intro h j hj
    have hbit := congrArg (fun x => x.testBit (r - 1 - j)) h
    have hindex : 8 - r + (r - 1 - j) = 7 - j := by omega
    simpa only [Nat.testBit_shiftRight, hindex] using hbit
  · intro h
    apply Nat.eq_of_testBit_eq
    intro i
    rw [Nat.testBit_shiftRight, Nat.testBit_shiftRight]
    by_cases hi : i < r
    · have hj := h (r - 1 - i) (by omega)
      have hindex : 7 - (r - 1 - i) = 8 - r + i := by omega
      rwa [hindex] at hj
    · rw [testBit_byte (by omega), testBit_byte (by omega)]

theorem byte_eq_iff : a = b ↔ ∀ j < 8, a.val.testBit (7 - j) = b.val.testBit (7 - j) := by
  rw [← shiftRight_eq_iff le_rfl, Fin.ext_iff]
  rfl

/-- The bits after the first `r` are looked at through a mask. -/
theorem mask_eq_zero_iff : a.val &&& (2 ^ (8 - r) - 1) = 0 ↔
    ∀ j, r ≤ j → j < 8 → a.val.testBit (7 - j) = false := by
  rw [Nat.and_two_pow_sub_one_eq_mod]
  constructor
  · intro h j hj hj8
    have hbit := congrArg (fun x => x.testBit (7 - j)) h
    have hlow : 7 - j < 8 - r := by omega
    simpa [Nat.testBit_mod_two_pow, hlow] using hbit
  · intro h
    apply Nat.eq_of_testBit_eq
    intro i
    rw [Nat.testBit_mod_two_pow, Nat.zero_testBit]
    by_cases hi : i < 8 - r
    · have hj := h (7 - i) (by omega) (by omega)
      have hindex : 7 - (7 - i) = i := by omega
      rw [hindex] at hj
      simp [hj]
    · simp [hi]

theorem byte_eq_zero_iff : a = 0 ↔ ∀ j < 8, a.val.testBit (7 - j) = false := by
  rw [byte_eq_iff]
  simp

theorem byteAt_eq_getElem (hi : i < l.length) : byteAt l i = l[i] := by
  simp [byteAt, hi]

theorem byteAt_eq_zero (hi : l.length ≤ i) : byteAt l i = 0 := by
  simp [byteAt, hi]

theorem take_eq_iff (hl : k ≤ l.length) (hl' : k ≤ l'.length) :
    l.take k = l'.take k ↔ ∀ i < k, byteAt l i = byteAt l' i := by
  constructor
  · intro h i hi
    have hget := congrArg (fun x => byteAt x i) h
    have hlen : i < (l.take k).length := by
      rw [List.length_take]
      omega
    have hlen' : i < (l'.take k).length := by
      rw [List.length_take]
      omega
    simp only [byteAt_eq_getElem hlen, byteAt_eq_getElem hlen', List.getElem_take] at hget
    rw [byteAt_eq_getElem (hi.trans_le hl), byteAt_eq_getElem (hi.trans_le hl'), hget]
  · intro h
    apply List.ext_getElem
    · rw [List.length_take, List.length_take]
      omega
    · intro i hi _
      have hk : i < k := by
        rw [List.length_take] at hi
        omega
      have hbyte := h i hk
      rw [byteAt_eq_getElem (hk.trans_le hl), byteAt_eq_getElem (hk.trans_le hl')] at hbyte
      simpa only [List.getElem_take] using hbyte

/-- Whole bytes agree when their bits do. -/
theorem agree_bytes_iff (hl : k ≤ l.length) (hl' : k ≤ l'.length) :
    Agree (8 * k) l l' ↔ l.take k = l'.take k := by
  rw [take_eq_iff hl hl']
  constructor
  · intro h i hi
    rw [byte_eq_iff]
    intro j hj
    have hbit := h (8 * i + j) (by omega)
    rwa [bitAt_byte hj, bitAt_byte hj] at hbit
  · intro h i hi
    have hbyte := h (i / 8) (by omega)
    rw [bitAt, bitAt, hbyte]

theorem agree_add_iff (hr : r ≤ 8) : Agree (8 * k + r) l l' ↔
    Agree (8 * k) l l' ∧ (byteAt l k).val >>> (8 - r) = (byteAt l' k).val >>> (8 - r) := by
  rw [shiftRight_eq_iff hr]
  constructor
  · intro h
    refine ⟨fun i hi => h i (by omega), ?_⟩
    intro j hj
    have hbit := h (8 * k + j) (by omega)
    rwa [bitAt_byte (by omega), bitAt_byte (by omega)] at hbit
  · rintro ⟨hwhole, hpart⟩ i hi
    by_cases hk : i < 8 * k
    · exact hwhole i hk
    · have hbit := hpart (i - 8 * k) (by omega)
      have hindex : 8 * k + (i - 8 * k) = i := by omega
      rwa [← bitAt_byte (by omega), ← bitAt_byte (by omega), hindex] at hbit

/-- Strings of one length with the same bits are the same. -/
theorem Agree.eq (h : Agree (8 * l.length) l l') (hl : l'.length = l.length) : l = l' := by
  have htake := (agree_bytes_iff le_rfl hl.ge).mp h
  rwa [List.take_length, ← hl, List.take_length] at htake

/-- The bits from `n` on are clear. -/
def ClearFrom (n : ℕ) (l : List Byte) : Prop := ∀ i, n ≤ i → bitAt l i = false

theorem clearFrom_bytes_iff : ClearFrom (8 * k) l ↔ ∀ b ∈ l.drop k, b = 0 := by
  have hdrop : (∀ b ∈ l.drop k, b = 0) ↔ ∀ i, k ≤ i → byteAt l i = 0 := by
    constructor
    · intro h i hi
      by_cases hlen : i < l.length
      · rw [byteAt_eq_getElem hlen]
        refine h _ (List.mem_iff_getElem.mpr ⟨i - k, ?_, ?_⟩)
        · rw [List.length_drop]
          omega
        · rw [List.getElem_drop]
          congr 1
          omega
      · exact byteAt_eq_zero (by omega)
    · intro h b hb
      obtain ⟨i, hi, rfl⟩ := List.mem_iff_getElem.mp hb
      rw [List.length_drop] at hi
      rw [List.getElem_drop, ← byteAt_eq_getElem (by omega)]
      exact h (k + i) (by omega)
  rw [hdrop]
  constructor
  · intro h i hi
    rw [byte_eq_zero_iff]
    intro j hj
    rw [← bitAt_byte hj]
    exact h (8 * i + j) (by omega)
  · intro h i hi
    rw [bitAt, h (i / 8) (by omega)]
    simp

theorem clearFrom_add_iff (hr : r ≤ 8) : ClearFrom (8 * k + r) l ↔
    (byteAt l k).val &&& (2 ^ (8 - r) - 1) = 0 ∧ ClearFrom (8 * (k + 1)) l := by
  rw [mask_eq_zero_iff]
  constructor
  · intro h
    refine ⟨?_, fun i hi => h i (by omega)⟩
    intro j hj hj8
    rw [← bitAt_byte hj8]
    exact h (8 * k + j) (by omega)
  · rintro ⟨hpart, hrest⟩ i hi
    by_cases hk : i < 8 * (k + 1)
    · have hbit := hpart (i - 8 * k) (by omega) (by omega)
      have hindex : 8 * k + (i - 8 * k) = i := by omega
      rwa [← bitAt_byte (by omega), hindex] at hbit
    · exact hrest i (by omega)

/-- A string that is clear after its first `n` bits is known by them. -/
theorem eq_of_agree (h : Agree n l l') (hl : l'.length = l.length) (hc : ClearFrom n l)
    (hc' : ClearFrom n l') : l = l' := by
  refine Agree.eq (fun i _ => ?_) hl
  by_cases hi : i < n
  · exact h i hi
  · rw [hc i (by omega), hc' i (by omega)]

theorem Agree.symm (h : Agree n l l') : Agree n l' l := fun i hi => (h i hi).symm

theorem Agree.trans {l'' : List Byte} (h : Agree n l l') (h' : Agree n l' l'') : Agree n l l'' :=
  fun i hi => (h i hi).trans (h' i hi)

end BitPrefix
