import R8Protocol.Crypto
import R8Protocol.Lib.BitWords

/-! The circular window over delivered ids, and that it forgets none of them. -/
namespace R8.Redundant

open FixedWidth

def DELIVERED_WINDOW_IDS : ℕ := 4096

structure DeliveredFingerprint where
  digest : Bytes 32
  length : ℕ
  deriving DecidableEq, Repr

structure DeliveredWindow where
  highWater : Option U64
  bits : Vector (BitVec 64) 64
  fingerprints : Fin DELIVERED_WINDOW_IDS → Option DeliveredFingerprint

namespace DeliveredWindow

def new : DeliveredWindow := ⟨none, Vector.replicate 64 0, fun _ => none⟩

def index (id : ℕ) : Fin DELIVERED_WINDOW_IDS :=
  ⟨id % DELIVERED_WINDOW_IDS, Nat.mod_lt _ (by decide)⟩

def bit (w : DeliveredWindow) (id : U64) : Bool := BitWords.testBit w.bits (index id)

def set (w : DeliveredWindow) (id : U64) : DeliveredWindow :=
  { w with bits := BitWords.setBit w.bits (index id) }

def clear (w : DeliveredWindow) (id : ℕ) : DeliveredWindow :=
  { w with
    bits := BitWords.clearBit w.bits (index id)
    fingerprints := Function.update w.fingerprints (index id) none }

def clearAll (w : DeliveredWindow) : DeliveredWindow :=
  { w with bits := Vector.replicate 64 0, fingerprints := fun _ => none }

def seen (w : DeliveredWindow) (id : U64) : Bool :=
  match w.highWater with
  | none => false
  | some high =>
    if high < id ∨ DELIVERED_WINDOW_IDS ≤ high.val - id.val then false else w.bit id

def tooOld (w : DeliveredWindow) (id : U64) : Bool :=
  w.highWater.any fun high => id ≤ high ∧ DELIVERED_WINDOW_IDS ≤ high.val - id.val

/-- Makes `id` the greatest id if it is past it, clearing every position the window moves over. -/
def advance (w : DeliveredWindow) (id : U64) : DeliveredWindow :=
  match w.highWater with
  | none => { w with highWater := some id }
  | some high =>
    if high < id then
      let moved :=
        if DELIVERED_WINDOW_IDS ≤ id.val - high.val then w.clearAll
        else (List.range' (high.val + 1) (id.val - high.val)).foldl clear w
      { moved with highWater := some id }
    else w

def insert (C : Crypto) (w : DeliveredWindow) (id : U64) (bytes : List Byte) : DeliveredWindow :=
  let w := ((w.advance id).clear id).set id
  { w with
    fingerprints := Function.update w.fingerprints (index id)
      (some ⟨C.sha256 bytes, bytes.length⟩) }

/-- `matches` of the source. -/
def matchesBytes (C : Crypto) (w : DeliveredWindow) (id : U64) (bytes : List Byte) : Bool :=
  (w.fingerprints (index id)).any fun f => f.length = bytes.length ∧ f.digest = C.sha256 bytes

/-- An id the window knows to be delivered: in it and marked, or behind it. -/
def Knows (w : DeliveredWindow) (id : U64) : Prop := w.tooOld id = true ∨ w.seen id = true

variable {C : Crypto} {w : DeliveredWindow} {id j : U64}

/-- Known ids, by the distance from the greatest one. -/
theorem knows_iff : w.Knows id ↔ ∃ high, w.highWater = some high ∧ id ≤ high ∧
    (high.val - id.val < DELIVERED_WINDOW_IDS → w.bit id = true) := by
  unfold Knows tooOld seen
  cases hw : w.highWater with
  | none => simp
  | some high =>
    simp only [Option.any_some, decide_eq_true_eq, Option.some.injEq, exists_eq_left']
    by_cases hle : id ≤ high
    · by_cases hold : DELIVERED_WINDOW_IDS ≤ high.val - id.val
      · simp [hle, hold, Nat.not_lt.mpr hold]
      · simp [hle, hold, not_lt.mpr hle, Nat.not_le.mp hold]
    · simp [hle, not_le.mp hle]

theorem index_lt (n : ℕ) : (index n).val < 64 * 64 := (index n).isLt

theorem bit_set (w : DeliveredWindow) (id j : U64) :
    (w.set id).bit j = (decide (index j = index id) || w.bit j) := by
  simp only [bit, set]
  rw [BitWords.testBit_setBit (by decide) (index_lt _)]
  simp [Fin.ext_iff, Bool.or_comm]

theorem bit_clear (w : DeliveredWindow) (n : ℕ) (j : U64) :
    (w.clear n).bit j = (decide (index j ≠ index n) && w.bit j) := by
  simp only [bit, clear]
  rw [BitWords.testBit_clearBit (by decide) (index_lt _)]
  simp [Fin.ext_iff]

theorem bit_foldl_clear (ns : List ℕ) (w : DeliveredWindow) (h : ∀ n ∈ ns, index j ≠ index n) :
    (ns.foldl clear w).bit j = w.bit j := by
  induction ns generalizing w with
  | nil => rfl
  | cons n ns ih =>
    rw [List.foldl_cons, ih _ fun k hk => h k (List.mem_cons_of_mem n hk), bit_clear]
    simp [h n List.mem_cons_self]

/-- Two ids less than a window apart have positions of their own. -/
theorem index_ne {a b : ℕ} (h : a < b) (hd : b - a < DELIVERED_WINDOW_IDS) : index a ≠ index b := by
  simp only [DELIVERED_WINDOW_IDS] at hd
  simp only [index, DELIVERED_WINDOW_IDS, ne_eq, Fin.mk.injEq]
  omega

theorem highWater_advance (w : DeliveredWindow) (id : U64) :
    ∃ high, (w.advance id).highWater = some high ∧ id ≤ high := by
  unfold advance
  cases hw : w.highWater with
  | none => exact ⟨id, rfl, le_rfl⟩
  | some high =>
    by_cases hlt : high < id
    · exact ⟨id, by simp [hlt], le_rfl⟩
    · exact ⟨high, by simp [hlt, hw], not_lt.mp hlt⟩

/-- Moving the window forward clears only positions whose old ids fall out of it. -/
theorem knows_advance (h : w.Knows j) (id : U64) : (w.advance id).Knows j := by
  obtain ⟨high, hw, hle, hbit⟩ := knows_iff.mp h
  rw [knows_iff]
  simp only [advance, hw]
  by_cases hlt : high < id
  · simp only [hlt, if_true]
    refine ⟨id, rfl, hle.trans hlt.le, ?_⟩
    intro hnear
    rw [Fin.lt_def] at hlt
    rw [Fin.le_def] at hle
    have hshort : ¬ DELIVERED_WINDOW_IDS ≤ id.val - high.val := by omega
    simp only [hshort, if_false]
    change ((List.range' (high.val + 1) (id.val - high.val)).foldl clear w).bit j = true
    rw [bit_foldl_clear, hbit (by omega)]
    intro n hn
    rw [List.mem_range'_1] at hn
    exact index_ne (by omega) (by omega)
  · simp only [hlt, if_false]
    exact ⟨high, hw, hle, hbit⟩

theorem bit_insert (C : Crypto) (w : DeliveredWindow) (id : U64) (bytes : List Byte) (j : U64) :
    (w.insert C id bytes).bit j = (decide (index j = index id) || (w.advance id).bit j) := by
  change (((w.advance id).clear id).set id).bit j = _
  rw [bit_set, bit_clear]
  by_cases h : index j = index id <;> simp [h]

theorem highWater_insert (C : Crypto) (w : DeliveredWindow) (id : U64) (bytes : List Byte) :
    (w.insert C id bytes).highWater = (w.advance id).highWater := rfl

/-- Known ids stay known, wherever the window moves. -/
theorem Knows.insert (h : w.Knows j) (C : Crypto) (id : U64) (bytes : List Byte) :
    (w.insert C id bytes).Knows j := by
  obtain ⟨high, hw, hle, hbit⟩ := knows_iff.mp (knows_advance h id)
  refine knows_iff.mpr ⟨high, hw, hle, ?_⟩
  intro hnear
  rw [bit_insert, hbit hnear, Bool.or_true]

theorem knows_insert_self (C : Crypto) (w : DeliveredWindow) (id : U64) (bytes : List Byte) :
    (w.insert C id bytes).Knows id := by
  obtain ⟨high, hw, hle⟩ := highWater_advance w id
  refine knows_iff.mpr ⟨high, hw, hle, ?_⟩
  intro _
  simp [bit_insert]

/-- Each id the window has marked carries the fingerprint of its own bytes, whatever other ids used
its position before. -/
structure Prints (C : Crypto) (w : DeliveredWindow) (history : List (U64 × List Byte)) : Prop where
  seen : ∀ id, w.seen id = true → ∃ bytes, (id, bytes) ∈ history ∧
    w.fingerprints (index id) = some ⟨C.sha256 bytes, bytes.length⟩
  unused : w.highWater = none → ∀ id, w.bit id = false

theorem seen_iff : w.seen id = true ↔ ∃ high, w.highWater = some high ∧ id ≤ high ∧
    high.val - id.val < DELIVERED_WINDOW_IDS ∧ w.bit id = true := by
  unfold seen
  cases w.highWater with
  | none => simp
  | some high =>
    simp only [Option.some.injEq, exists_eq_left']
    split
    · rename_i h
      simp only [Bool.false_eq_true, false_iff]
      rintro ⟨hle, hnear, -⟩
      rcases h with h | h
      · exact absurd hle (not_le.mpr h)
      · omega
    · rename_i h
      push Not at h
      simp [h.1, h.2]

theorem not_tooOld (h : ¬ w.tooOld id = true) {high : U64} (hw : w.highWater = some high)
    (hle : id ≤ high) : high.val - id.val < DELIVERED_WINDOW_IDS := by
  simp only [tooOld, hw, Option.any_some, decide_eq_true_eq] at h
  push Not at h
  exact h hle

theorem Prints.new (C : Crypto) : Prints C .new [] := by
  refine ⟨by simp [seen_iff, DeliveredWindow.new], ?_⟩
  intro _ id
  exact BitWords.testBit_replicate

theorem foldl_clear_of_bit (ns : List ℕ) (w : DeliveredWindow)
    (h : (ns.foldl clear w).bit j = true) :
    (∀ n ∈ ns, index j ≠ index n) ∧ w.bit j = true ∧
      (ns.foldl clear w).fingerprints (index j) = w.fingerprints (index j) := by
  induction ns generalizing w with
  | nil => exact ⟨by simp, h, rfl⟩
  | cons n ns ih =>
    rw [List.foldl_cons] at h ⊢
    obtain ⟨hns, hbit, hprint⟩ := ih _ h
    rw [bit_clear] at hbit
    simp only [Bool.and_eq_true, decide_eq_true_eq] at hbit
    refine ⟨?_, hbit.2, ?_⟩
    · intro k hk
      rcases List.mem_cons.mp hk with rfl | hk
      · exact hbit.1
      · exact hns k hk
    · rw [hprint]
      simp [clear, hbit.1]

/-- What is still marked after the window moved was marked before, under the same fingerprint. -/
theorem seen_of_advance (hu : w.highWater = none → ∀ id, w.bit id = false)
    (h : (w.advance id).seen j = true) :
    w.seen j = true ∧ (w.advance id).fingerprints (index j) = w.fingerprints (index j) := by
  obtain ⟨H, hH, hle, hnear, hbit⟩ := seen_iff.mp h
  unfold advance at hH hbit ⊢
  cases hw : w.highWater with
  | none =>
    simp only [hw] at hbit
    have := hu hw j
    simp_all [bit]
  | some high =>
    simp only [hw] at hH hbit ⊢
    by_cases hlt : high < id
    · simp only [hlt, if_true, Option.some.injEq] at hH hbit ⊢
      subst hH
      by_cases hfar : DELIVERED_WINDOW_IDS ≤ id.val - high.val
      · simp only [hfar, if_true] at hbit
        exact absurd (hbit.symm.trans BitWords.testBit_replicate) (by simp)
      · simp only [hfar, if_false] at hbit ⊢
        change ((List.range' (high.val + 1) (id.val - high.val)).foldl clear w).bit j = true at hbit
        obtain ⟨hns, hold, hprint⟩ := foldl_clear_of_bit _ w hbit
        refine ⟨?_, hprint⟩
        have hbefore : j ≤ high := by
          by_contra hgt
          rw [not_le, Fin.lt_def] at hgt
          rw [Fin.le_def] at hle
          have hmem : j.val ∈ List.range' (high.val + 1) (id.val - high.val) := by
            rw [List.mem_range'_1]
            omega
          exact hns j.val hmem rfl
        rw [Fin.lt_def] at hlt
        exact seen_iff.mpr ⟨high, hw, hbefore, by omega, hold⟩
    · simp only [hlt, if_false] at hH hbit ⊢
      exact ⟨seen_iff.mpr ⟨H, hH, hle, hnear, hbit⟩, trivial⟩

theorem highWater_advance_near (h : ¬ w.tooOld id = true) {H : U64}
    (hH : (w.advance id).highWater = some H) : id ≤ H ∧ H.val - id.val < DELIVERED_WINDOW_IDS := by
  have hpos : 0 < DELIVERED_WINDOW_IDS := by decide
  unfold advance at hH
  cases hw : w.highWater with
  | none =>
    simp only [hw, Option.some.injEq] at hH
    subst hH
    exact ⟨le_rfl, by omega⟩
  | some high =>
    simp only [hw] at hH
    by_cases hlt : high < id
    · simp only [hlt, if_true, Option.some.injEq] at hH
      subst hH
      exact ⟨le_rfl, by omega⟩
    · simp only [hlt, if_false] at hH
      obtain rfl := Option.some.inj (hw.symm.trans hH)
      exact ⟨not_lt.mp hlt, not_tooOld h hw (not_lt.mp hlt)⟩

theorem seen_insert_self (hold : ¬ w.tooOld id = true) (bytes : List Byte) :
    (w.insert C id bytes).seen id = true := by
  obtain ⟨H, hH, -⟩ := highWater_advance w id
  obtain ⟨hid, hnear⟩ := highWater_advance_near hold hH
  exact seen_iff.mpr ⟨H, hH, hid, hnear, by simp [bit_insert]⟩

theorem Prints.insert {history : List (U64 × List Byte)} (h : Prints C w history)
    (hold : ¬ w.tooOld id = true) (bytes : List Byte) :
    Prints C (w.insert C id bytes) ((id, bytes) :: history) := by
  obtain ⟨H, hH, -⟩ := highWater_advance w id
  obtain ⟨hid, hidnear⟩ := highWater_advance_near hold hH
  refine ⟨?_, ?_⟩
  · intro j hj
    obtain ⟨H', hH', hle, hnear, hbit⟩ := seen_iff.mp hj
    rw [highWater_insert] at hH'
    obtain rfl := Option.some.inj (hH.symm.trans hH')
    rw [bit_insert] at hbit
    by_cases hindex : index j = index id
    · have heq : j = id := by
        by_contra hne
        rw [Fin.le_def] at hle hid
        rcases lt_or_gt_of_ne hne with hlt | hgt
        · rw [Fin.lt_def] at hlt
          exact index_ne hlt (by omega) hindex
        · rw [Fin.lt_def] at hgt
          exact index_ne hgt (by omega) hindex.symm
      subst heq
      exact ⟨bytes, List.mem_cons_self, by simp [DeliveredWindow.insert]⟩
    · simp only [hindex, decide_false, Bool.false_or] at hbit
      have hadv : (w.advance id).seen j = true := seen_iff.mpr ⟨H, hH, hle, hnear, hbit⟩
      obtain ⟨hseen, hprint⟩ := seen_of_advance h.unused hadv
      obtain ⟨b, hb, hf⟩ := h.seen j hseen
      refine ⟨b, List.mem_cons_of_mem _ hb, ?_⟩
      rw [← hf, ← hprint]
      simp [DeliveredWindow.insert, set, clear, hindex]
  · intro hnone
    rw [highWater_insert, hH] at hnone
    cases hnone

end DeliveredWindow

end R8.Redundant
