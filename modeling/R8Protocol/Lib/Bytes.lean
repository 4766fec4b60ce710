import Mathlib.Tactic
import Mathlib.Data.List.Sort
import Mathlib.Data.List.Lex
import Mathlib.Order.Fin.Basic

/-! Fixed-width unsigned integers, byte strings and their big-endian encodings. -/
namespace FixedWidth

abbrev Byte := Fin 256

abbrev U16 := Fin (2 ^ 16)

abbrev U32 := Fin (2 ^ 32)

abbrev U64 := Fin (2 ^ 64)

-- Under a name of their own these are one term wherever a literal or a membership needs them.
instance neZero_byte : NeZero 256 := ⟨by decide⟩

instance neZero_u16 : NeZero (2 ^ 16) := ⟨by decide⟩

instance neZero_u32 : NeZero (2 ^ 32) := ⟨by decide⟩

instance neZero_u64 : NeZero (2 ^ 64) := ⟨by decide⟩

instance lawfulBEq_byte : LawfulBEq Byte := inferInstance

instance lawfulBEq_u32 : LawfulBEq U32 := inferInstance

/-- A byte array of known length. The order is the lexicographic one. -/
abbrev Bytes (n : ℕ) := {l : List Byte // l.length = n}

def u64Max : U64 := ⟨2 ^ 64 - 1, by omega⟩

def satAdd (a : U64) (n : ℕ) : U64 := ⟨min (a + n) (2 ^ 64 - 1), by omega⟩

theorem sub_lt (a b : U64) : a.val - b.val < 2 ^ 64 := by omega

def satSub (a b : U64) : U64 := ⟨a - b, sub_lt a b⟩

def checkedAdd (a : U64) (n : ℕ) : Option U64 :=
  if h : a.val + n < 2 ^ 64 then some ⟨a + n, h⟩ else none

theorem u64Max_val : (u64Max : ℕ) = 2 ^ 64 - 1 := rfl

theorem satAdd_val (a : U64) (n : ℕ) : (satAdd a n : ℕ) = min (a + n) (2 ^ 64 - 1) := rfl

theorem satSub_val (a b : U64) : (satSub a b : ℕ) = a - b := rfl

theorem satAdd_mono {a b : U64} {m n : ℕ} (h : a ≤ b) (hmn : m ≤ n) :
    satAdd a m ≤ satAdd b n := by
  simp only [Fin.le_def, satAdd_val] at *
  omega

theorem le_satAdd (a : U64) (n : ℕ) : a ≤ satAdd a n := by
  simp only [Fin.le_def, satAdd_val]
  omega

theorem checkedAdd_eq_some {a b : U64} {n : ℕ} :
    checkedAdd a n = some b ↔ (b : ℕ) = a + n := by
  unfold checkedAdd
  split
  · simp only [Option.some.injEq, Fin.ext_iff]
    omega
  · simp only [reduceCtorEq, false_iff]
    have := b.isLt
    omega

theorem checkedAdd_eq_none {a : U64} {n : ℕ} : checkedAdd a n = none ↔ 2 ^ 64 ≤ a.val + n := by
  unfold checkedAdd
  split <;> simp <;> omega

/-- Big-endian encoding of `n` in `w` bytes. -/
def beBytes : ℕ → ℕ → List Byte
  | 0, _ => []
  | w + 1, n => beBytes w (n / 256) ++ [⟨n % 256, by omega⟩]

def beNat (l : List Byte) : ℕ := l.foldl (fun acc b => acc * 256 + b.val) 0

@[simp] theorem beBytes_length (w n : ℕ) : (beBytes w n).length = w := by
  induction w generalizing n with
  | zero => rfl
  | succ w ih => simp [beBytes, ih]

theorem beNat_append_singleton (l : List Byte) (b : Byte) :
    beNat (l ++ [b]) = beNat l * 256 + b.val := by
  simp [beNat]

theorem beNat_lt (l : List Byte) : beNat l < 256 ^ l.length := by
  induction l using List.reverseRecOn with
  | nil => simp [beNat]
  | append_singleton l b ih =>
    rw [beNat_append_singleton, List.length_append, List.length_singleton, pow_succ]
    have := b.isLt
    omega

theorem beNat_beBytes (w n : ℕ) : beNat (beBytes w n) = n % 256 ^ w := by
  induction w generalizing n with
  | zero => simp [beBytes, beNat, Nat.mod_one]
  | succ w ih =>
    rw [beBytes, beNat_append_singleton, ih, pow_succ, mul_comm (256 ^ w) 256,
      Nat.mod_mul]
    ring

theorem beBytes_beNat (l : List Byte) : beBytes l.length (beNat l) = l := by
  induction l using List.reverseRecOn with
  | nil => rfl
  | append_singleton l b ih =>
    have hb := b.isLt
    rw [List.length_append, List.length_singleton, beBytes, beNat_append_singleton]
    congr 1
    · rw [show (beNat l * 256 + b.val) / 256 = beNat l by omega, ih]
    · simp only [List.cons.injEq, and_true]
      apply Fin.ext
      simp only
      omega

def u16Bytes (n : U16) : List Byte := beBytes 2 n

def u32Bytes (n : U32) : List Byte := beBytes 4 n

def u64Bytes (n : U64) : List Byte := beBytes 8 n

/-- Reads the first two bytes as a big-endian number. -/
def u16Of (l : List Byte) : U16 :=
  ⟨beNat (l.take 2), lt_of_lt_of_le (beNat_lt _) (by
    rw [show (2 : ℕ) ^ 16 = 256 ^ 2 by norm_num]
    exact Nat.pow_le_pow_right (by omega) (by simp))⟩

def u32Of (l : List Byte) : U32 :=
  ⟨beNat (l.take 4), lt_of_lt_of_le (beNat_lt _) (by
    rw [show (2 : ℕ) ^ 32 = 256 ^ 4 by norm_num]
    exact Nat.pow_le_pow_right (by omega) (by simp))⟩

def u64Of (l : List Byte) : U64 :=
  ⟨beNat (l.take 8), lt_of_lt_of_le (beNat_lt _) (by
    rw [show (2 : ℕ) ^ 64 = 256 ^ 8 by norm_num]
    exact Nat.pow_le_pow_right (by omega) (by simp))⟩

@[simp] theorem u16Bytes_length (n : U16) : (u16Bytes n).length = 2 := beBytes_length _ _

@[simp] theorem u32Bytes_length (n : U32) : (u32Bytes n).length = 4 := beBytes_length _ _

@[simp] theorem u64Bytes_length (n : U64) : (u64Bytes n).length = 8 := beBytes_length _ _

theorem u64Of_u64Bytes (n : U64) (l : List Byte) : u64Of (u64Bytes n ++ l) = n := by
  apply Fin.ext
  have hn := n.isLt
  simp only [u64Of, List.take_left' (u64Bytes_length n)]
  rw [u64Bytes, beNat_beBytes, Nat.mod_eq_of_lt]
  omega

theorem u32Of_u32Bytes (n : U32) (l : List Byte) : u32Of (u32Bytes n ++ l) = n := by
  apply Fin.ext
  have hn := n.isLt
  simp only [u32Of, List.take_left' (u32Bytes_length n)]
  rw [u32Bytes, beNat_beBytes, Nat.mod_eq_of_lt]
  omega

theorem u16Of_u16Bytes (n : U16) (l : List Byte) : u16Of (u16Bytes n ++ l) = n := by
  apply Fin.ext
  have hn := n.isLt
  simp only [u16Of, List.take_left' (u16Bytes_length n)]
  rw [u16Bytes, beNat_beBytes, Nat.mod_eq_of_lt]
  omega

theorem u64Bytes_u64Of {l : List Byte} (h : 8 ≤ l.length) : u64Bytes (u64Of l) = l.take 8 := by
  have hl : (l.take 8).length = 8 := by simp [h]
  have := beBytes_beNat (l.take 8)
  rwa [hl] at this

theorem u32Bytes_u32Of {l : List Byte} (h : 4 ≤ l.length) : u32Bytes (u32Of l) = l.take 4 := by
  have hl : (l.take 4).length = 4 := by simp [h]
  have := beBytes_beNat (l.take 4)
  rwa [hl] at this

theorem u16Bytes_u16Of {l : List Byte} (h : 2 ≤ l.length) : u16Bytes (u16Of l) = l.take 2 := by
  have hl : (l.take 2).length = 2 := by simp [h]
  have := beBytes_beNat (l.take 2)
  rwa [hl] at this

theorem u64Bytes_injective : Function.Injective u64Bytes := by
  intro a b h
  have := congrArg (fun l => u64Of (l ++ [])) h
  simpa only [u64Of_u64Bytes] using this

/-- The bytes at positions `from ..< to`. -/
def slice (l : List Byte) (i j : ℕ) : List Byte := (l.drop i).take (j - i)

@[simp] theorem slice_length (l : List Byte) (i j : ℕ) :
    (slice l i j).length = min (j - i) (l.length - i) := by
  simp [slice]

/-- The byte at a position, zero past the end. -/
def byteAt (l : List Byte) (i : ℕ) : Byte := l.getD i 0

theorem byteAt_cons_drop {l : List Byte} {i : ℕ} (hi : i < l.length) :
    byteAt l i :: l.drop (i + 1) = l.drop i := by
  rw [List.drop_eq_getElem_cons hi, byteAt, List.getD_eq_getElem?_getD,
    List.getElem?_eq_getElem hi, Option.getD_some]

theorem slice_append_drop {l : List Byte} {i j : ℕ} (hij : i ≤ j) :
    slice l i j ++ l.drop j = l.drop i := by
  have hdrop : l.drop j = (l.drop i).drop (j - i) := by
    rw [List.drop_drop, Nat.add_sub_cancel' hij]
  rw [slice, hdrop, List.take_append_drop]

/-- The bytes at positions `i ..< i + n`, padded with zeros past the end. -/
def arrayAt (n : ℕ) (l : List Byte) (i : ℕ) : Bytes n :=
  ⟨(slice l i (i + n)).rightpad n 0, by simp [List.rightpad]⟩

theorem arrayAt_val {n : ℕ} {l : List Byte} {i : ℕ} (h : i + n ≤ l.length) :
    (arrayAt n l i).val = slice l i (i + n) := by
  have hl : (slice l i (i + n)).length = n := by rw [slice_length]; omega
  simp [arrayAt, List.rightpad, hl]

end FixedWidth
