import R8Protocol.Lib.Bytes

/-! Reading a field out of the concatenation it was written into. -/
namespace FixedWidth

variable {n i j : ℕ} {l r : List Byte}

@[simp] theorem bytes_length (b : Bytes n) : b.val.length = n := b.property

@[simp] theorem slice_append_right (h : l.length ≤ i) :
    slice (l ++ r) i j = slice r (i - l.length) (j - l.length) := by
  rw [slice, slice, List.drop_append, List.drop_eq_nil_of_le h, List.nil_append]
  congr 1
  omega

@[simp] theorem slice_cons_succ (x : Byte) : slice (x :: l) (i + 1) (j + 1) = slice l i j := by
  simp [slice]

@[simp] theorem slice_field (b : Bytes n) (r : List Byte) : slice (b.val ++ r) 0 n = b.val := by
  simp [slice]

@[simp] theorem slice_self (b : Bytes n) : slice b.val 0 n = b.val := by
  have := slice_field b []
  rwa [List.append_nil] at this

@[simp] theorem arrayAt_append_right (h : l.length ≤ i) :
    arrayAt n (l ++ r) i = arrayAt n r (i - l.length) := by
  have hsum : i + n - l.length = i - l.length + n := by omega
  apply Subtype.ext
  simp only [arrayAt, slice_append_right h, hsum]

@[simp] theorem arrayAt_cons_succ (x : Byte) : arrayAt n (x :: l) (i + 1) = arrayAt n l i := by
  have := arrayAt_append_right (n := n) (l := [x]) (r := l) (i := i + 1) (by simp)
  simpa using this

@[simp] theorem arrayAt_field (b : Bytes n) (r : List Byte) : arrayAt n (b.val ++ r) 0 = b := by
  apply Subtype.ext
  rw [arrayAt_val (by simp)]
  simp

@[simp] theorem arrayAt_self (b : Bytes n) : arrayAt n b.val 0 = b := by
  have := arrayAt_field b []
  rwa [List.append_nil] at this

@[simp] theorem u32Of_field (x : U32) (l : List Byte) : u32Of (u32Bytes x ++ l) = x :=
  u32Of_u32Bytes x l

@[simp] theorem u64Of_field (x : U64) (l : List Byte) : u64Of (u64Bytes x ++ l) = x :=
  u64Of_u64Bytes x l

@[simp] theorem byteAt_append_right (h : l.length ≤ i) :
    byteAt (l ++ r) i = byteAt r (i - l.length) := by
  simp [byteAt, List.getD_eq_getElem?_getD, List.getElem?_append_right h]

theorem drop_append_right (h : l.length ≤ i) : (l ++ r).drop i = r.drop (i - l.length) := by
  rw [List.drop_append, List.drop_eq_nil_of_le h, List.nil_append]

@[simp] theorem byteAt_cons_zero (x : Byte) : byteAt (x :: l) 0 = x := rfl

@[simp] theorem byteAt_cons_succ (x : Byte) : byteAt (x :: l) (i + 1) = byteAt l i := rfl

end FixedWidth
