import Mathlib.Data.Nat.Bitwise
import R8Protocol.Session.Replay

/-! The reference implementation's replay window, one unbounded integer, against the 64 words. -/
namespace R8

open FixedWidth Session

namespace Reference

structure ReplayWindow where
  highest : ℕ
  bits : ℕ
  generation : ℕ
  deriving DecidableEq, Repr

/-- The range check every counter goes through before it is packed into a nonce. -/
def nonce (counter : ℕ) : Except SessionError Unit :=
  if 1 ≤ counter ∧ counter < 0xffffffffffffffff then .ok () else .error .counterRange

namespace ReplayWindow

def WINDOW : ℕ := 4096

def MAX_FORWARD_JUMP : ℕ := 65536

def new : ReplayWindow := ⟨0, 0, 0⟩

def preview (w : ReplayWindow) (counter : ℕ) : Except SessionError ℕ := do
  nonce counter
  if w.highest ≠ 0 ∧ w.highest + MAX_FORWARD_JUMP < counter then .error .replay
  else if counter ≤ w.highest then
    let distance := w.highest - counter
    if WINDOW ≤ distance ∨ w.bits &&& 1 <<< distance ≠ 0 then .error .replay
    else .ok w.generation
  else .ok w.generation

/-- The part of `check_and_mark` after its preview. -/
def marked (w : ReplayWindow) (counter : ℕ) : ReplayWindow :=
  if w.highest < counter then
    let shift := counter - w.highest
    let bits := if WINDOW ≤ shift then 1 else (w.bits <<< shift ||| 1) &&& (1 <<< WINDOW) - 1
    ⟨counter, bits, w.generation + 1⟩
  else { w with bits := w.bits ||| 1 <<< (w.highest - counter), generation := w.generation + 1 }

def checkAndMark (w : ReplayWindow) (counter : ℕ) : ReplayWindow × Except SessionError Unit :=
  match w.preview counter with
  | .error e => (w, .error e)
  | .ok _ => (w.marked counter, .ok ())

/-- What `commit_decrypt` does to the window with the record of a preview: the generation the
preview was given, and its counter. -/
def commitDecrypt (w : ReplayWindow) (generation counter : ℕ) :
    ReplayWindow × Except SessionError Unit :=
  if generation ≠ w.generation then (w, .error .replay) else w.checkAndMark counter

end ReplayWindow

end Reference

namespace Session

/-- The integer and the words hold the same window. -/
structure WindowsAgree (r : Reference.ReplayWindow) (w : ReplayWindow) : Prop where
  highest : r.highest = w.largest.val
  bits : r.bits = BitWords.toNat w.bits
  generation : r.generation = w.generation.val

namespace ReplayWindow

variable {r : Reference.ReplayWindow} {w w' : ReplayWindow} {cs : List U64} {c : U64}

theorem windowsAgree_new : WindowsAgree .new new :=
  ⟨rfl, (BitWords.toNat_replicate (by omega)).symm, rfl⟩

theorem and_one_shiftLeft_ne_zero (x n : ℕ) : x &&& 1 <<< n ≠ 0 ↔ x.testBit n = true := by
  rw [Nat.one_shiftLeft, Nat.and_two_pow]
  cases x.testBit n <;> simp

/-- The saturating bounds of the source never decide a counter below the greatest one. -/
theorem check?_eq_reference (h : WindowsAgree r w) (hl : w.largest.val < 2 ^ 64 - 1) :
    w.check? c = some ((r.preview c.val).map fun _ => ()) := by
  have hc := c.isLt
  have hzero : c = 0 ↔ c.val = 0 := Fin.ext_iff
  have hmax : c = u64Max ↔ c.val = 2 ^ 64 - 1 := Fin.ext_iff
  simp only [check?, Reference.ReplayWindow.preview, Reference.nonce, h.highest, sub?, hzero, hmax,
    Fin.lt_def, Fin.le_def, satAdd_val, Fin.val_zero, REPLAY_JUMP_MAX, REPLAY_WINDOW,
    Reference.ReplayWindow.MAX_FORWARD_JUMP, Reference.ReplayWindow.WINDOW]
  by_cases hrange : 1 ≤ c.val ∧ c.val < 0xffffffffffffffff
  · rw [if_neg (by omega), if_pos hrange]
    by_cases hjump : w.largest.val ≠ 0 ∧ w.largest.val + 65536 < c.val
    · rw [if_pos (by omega)]
      simp only [bind, Except.bind, if_pos hjump]
      rfl
    · rw [if_neg (by omega)]
      simp only [bind, Except.bind, if_neg hjump]
      by_cases hle : c.val ≤ w.largest.val
      · by_cases hfar : 4096 ≤ w.largest.val - c.val
        · rw [if_pos (by omega), if_pos hle, if_pos (.inl hfar)]
          rfl
        · have hbit : r.bits &&& 1 <<< (w.largest.val - c.val) ≠ 0 ↔
              BitWords.testBit w.bits (w.largest.val - c.val) = true := by
            rw [and_one_shiftLeft_ne_zero, h.bits, BitWords.testBit_toNat (by omega)]
          rw [if_neg (by omega), if_pos hle, if_pos hle]
          simp only [hfar, false_or, hbit, bit?_eq (not_le.mp hfar), not_le.mp hfar, hle, if_true,
            Option.bind_some]
          split_ifs <;> rfl
      · rw [if_neg (by omega), if_neg hle, if_neg hle]
        rfl
  · rw [if_pos (by omega), if_neg hrange]
    rfl

theorem or_one_and_mask (x : ℕ) {n : ℕ} (hn : 0 < n) :
    (x ||| 1) &&& (1 <<< n) - 1 = x &&& (1 <<< n) - 1 ||| 1 := by
  rw [Nat.and_or_distrib_right, Nat.one_shiftLeft, Nat.and_two_pow_sub_one_eq_mod 1,
    Nat.one_mod_two_pow hn]

theorem toNat_advanceBits (bits : Vector (BitVec 64) 64) (shift : ℕ) :
    BitWords.toNat (advanceBits bits shift) =
      if 4096 ≤ shift then 0 else BitWords.toNat bits <<< shift &&& (1 <<< 4096) - 1 := by
  unfold advanceBits REPLAY_WINDOW
  split_ifs
  · exact BitWords.toNat_replicate (by omega)
  · exact BitWords.toNat_shift_iterate (by omega) shift

/-- Shifting the integer and cutting it off is shifting the words, bit by bit and with carries. -/
theorem marked_agrees (h : WindowsAgree r w) (hwin : c ≤ w.largest → w.largest.val - c.val < 4096) :
    ∃ m, w.mark? c = some m ∧ (r.marked c.val).highest = m.largest.val ∧
      (r.marked c.val).bits = BitWords.toNat m.bits := by
  refine ⟨_, mark?_eq hwin, ?_⟩
  by_cases hlt : w.largest < c
  · have hlt' := Fin.lt_def.mp hlt
    simp only [Reference.ReplayWindow.marked, h.highest, hlt, hlt', if_true, true_and]
    rw [BitWords.toNat_setBit (by omega) (by omega), toNat_advanceBits, h.bits]
    unfold Reference.ReplayWindow.WINDOW
    split_ifs with hfar
    · rfl
    · exact or_one_and_mask _ (Nat.succ_pos 4095)
  · have hlt' := mt Fin.lt_def.mpr hlt
    have hd := hwin (not_lt.mp hlt)
    simp only [Reference.ReplayWindow.marked, h.highest, h.bits, hlt, hlt', if_false, true_and]
    exact (BitWords.toNat_setBit (by omega) (by omega)).symm

theorem Refines.lt_window (hr : Refines w cs) (hf : Fresh cs c) (hle : c ≤ w.largest) :
    w.largest.val - c.val < 4096 := by
  obtain ⟨hrange, -, hwin⟩ := hr.fresh_iff.mp hf
  have := Fin.le_def.mp hle
  have := (hwin (by omega)).1
  omega

theorem checkAndMark_agrees (h : WindowsAgree r w) (hr : Refines w cs) :
    ∃ w', w.commit? ⟨c, w.generation⟩ = some (w', (r.checkAndMark c.val).2) ∧
      WindowsAgree (r.checkAndMark c.val).1 w' := by
  have hcheck := check?_eq_reference (c := c) h hr.largest_lt
  cases hp : r.preview c.val with
  | error e =>
    rw [hp] at hcheck
    refine ⟨w, ?_, ?_⟩
    · simp [commit?, hcheck, Reference.ReplayWindow.checkAndMark, hp, Except.map]
    · simpa [Reference.ReplayWindow.checkAndMark, hp] using h
  | ok g =>
    rw [hp] at hcheck
    have hf : Fresh cs c := (check?_eq_ok_iff hr).mp hcheck
    have hlen := hr.length_lt hf
    have hg := hr.generation
    have hadd : checkedAdd w.generation 1 = some ⟨w.generation.val + 1, by omega⟩ :=
      checkedAdd_eq_some.mpr rfl
    obtain ⟨m, hm, hhighest, hbits⟩ := marked_agrees h (hr.lt_window hf)
    refine ⟨{ m with generation := ⟨w.generation.val + 1, by omega⟩ }, ?_, ?_⟩
    · simp [commit?, hcheck, Reference.ReplayWindow.checkAndMark, hp, Except.map, hadd, hm]
    · simp only [Reference.ReplayWindow.checkAndMark, hp]
      refine ⟨hhighest, hbits, ?_⟩
      simp only [Reference.ReplayWindow.marked, h.generation]
      split_ifs <;> rfl

theorem commitDecrypt_agrees (h : WindowsAgree r w) (hr : Refines w cs) (token : ReplayCommit) :
    let answer := r.commitDecrypt token.generation.val token.counter.val
    ∃ w', w.commit? token = some (w', answer.2) ∧ WindowsAgree answer.1 w' := by
  by_cases hg : token.generation = w.generation
  · have hg' : token.generation.val = r.generation := by rw [hg, h.generation]
    simp only [Reference.ReplayWindow.commitDecrypt, hg', ne_eq, not_true_eq_false, if_false]
    obtain ⟨counter, generation⟩ := token
    obtain rfl : generation = w.generation := hg
    exact checkAndMark_agrees h hr
  · have hg' : token.generation.val ≠ r.generation := by
      rw [h.generation]
      exact mt Fin.ext hg
    refine ⟨w, ?_, ?_⟩
    · simp [commit?, hg, Reference.ReplayWindow.commitDecrypt, hg']
    · simpa [Reference.ReplayWindow.commitDecrypt, hg'] using h

theorem markAfterAuth?_eq (w : ReplayWindow) (c : U64) :
    w.markAfterAuth? c = w.commit? ⟨c, w.generation⟩ := by
  cases hcheck : w.check? c with
  | none => exact absurd hcheck (check?_ne_none w c)
  | some x => cases x <;> simp [markAfterAuth?, preview?, commit?, hcheck]

theorem preview?_agrees (h : WindowsAgree r w) (hl : w.largest.val < 2 ^ 64 - 1) :
    (w.preview? c).map (Except.map (·.generation.val)) = some (r.preview c.val) := by
  have hcheck := check?_eq_reference (c := c) h hl
  cases hp : r.preview c.val with
  | error e =>
    rw [hp] at hcheck
    simp [preview?, hcheck, Except.map]
  | ok g =>
    rw [hp] at hcheck
    have hg : g = r.generation := by
      simp only [Reference.ReplayWindow.preview, Outcome.bind_eq_ok, Outcome.ite_error_eq_ok] at hp
      obtain ⟨-, -, -, hp⟩ := hp
      split_ifs at hp <;> simp_all
    simp [preview?, hcheck, Except.map, hg, h.generation]

/-- The two windows driven by the same calls. -/
structure Twins where
  reference : Reference.ReplayWindow
  window : ReplayWindow

namespace Twins

def new : Twins := ⟨.new, .new⟩

/-- A token stands for the reference's record of the same preview. -/
def step (t : Twins) : Call → Twins
  | .preview _ => t
  | .commit token =>
    ⟨(t.reference.commitDecrypt token.generation.val token.counter.val).1,
      (t.window.commit token).1⟩
  | .markAfterAuth counter =>
    ⟨(t.reference.checkAndMark counter.val).1,
      ((t.window.markAfterAuth? counter).getD (t.window, .error .replay)).1⟩

def Invariant (t : Twins) : Prop :=
  WindowsAgree t.reference t.window ∧ ∃ committed, Refines t.window committed

variable {t : Twins}

theorem invariant_new : Invariant new := ⟨windowsAgree_new, [], Refines.new⟩

theorem refines_commit? (hr : Refines w cs) {token : ReplayCommit} {x : Except SessionError Unit}
    (hw : w.commit? token = some (w', x)) : ∃ committed, Refines w' committed := by
  rcases commit?_cases hr token with ⟨-, he⟩ | ⟨-, -, e, he⟩ | ⟨-, -, w₁, he, hr'⟩
  · rw [hw, Option.some.injEq, Prod.mk.injEq] at he
    exact ⟨cs, he.1 ▸ hr⟩
  · rw [hw, Option.some.injEq, Prod.mk.injEq] at he
    exact ⟨cs, he.1 ▸ hr⟩
  · rw [hw, Option.some.injEq, Prod.mk.injEq] at he
    exact ⟨_, he.1 ▸ hr'⟩

theorem invariant_step (hi : Invariant t) (call : Call) : Invariant (t.step call) := by
  obtain ⟨h, cs, hr⟩ := hi
  cases call with
  | preview counter => exact ⟨h, cs, hr⟩
  | commit token =>
    obtain ⟨w', hw, h'⟩ := commitDecrypt_agrees h hr token
    simp only [Invariant, step, commit, hw, Option.getD_some]
    exact ⟨h', refines_commit? hr hw⟩
  | markAfterAuth counter =>
    obtain ⟨w', hw, h'⟩ := checkAndMark_agrees (c := counter) h hr
    simp only [Invariant, step, markAfterAuth?_eq, hw, Option.getD_some]
    exact ⟨h', refines_commit? hr hw⟩

theorem invariant_exec (calls : List Call) : Invariant (Machine.exec step new calls) := by
  have hstart : Machine.Reach (· = new) step (fun _ _ => True) new := .start rfl
  have hreach := hstart.exec calls (.of_forall (fun _ _ => trivial) _ _)
  apply hreach.invariant
  · rintro t rfl
    exact invariant_new
  · intro t call hi _
    exact invariant_step hi call

end Twins

/-- After every sequence of calls both windows hold the same counter, bits and generation, and give
every call the same answer; the words never panic. -/
theorem replay_windows_agree (calls : List Call) :
    let t := Machine.exec Twins.step .new calls
    WindowsAgree t.reference t.window ∧
    (∀ counter, (t.window.preview? counter).map (Except.map (·.generation.val)) =
      some (t.reference.preview counter.val)) ∧
    (∀ token, (t.window.commit? token).map Prod.snd =
      some (t.reference.commitDecrypt token.generation.val token.counter.val).2) ∧
    (∀ counter, (t.window.markAfterAuth? counter).map Prod.snd =
      some (t.reference.checkAndMark counter.val).2) := by
  intro t
  obtain ⟨h, cs, hr⟩ := Twins.invariant_exec calls
  refine ⟨h, ?_, ?_, ?_⟩
  · intro counter
    exact preview?_agrees h hr.largest_lt
  · intro token
    obtain ⟨w', hw, -⟩ := commitDecrypt_agrees h hr token
    rw [hw, Option.map_some]
  · intro counter
    obtain ⟨w', hw, -⟩ := checkAndMark_agrees (c := counter) h hr
    rw [markAfterAuth?_eq, hw, Option.map_some]

end ReplayWindow

end Session

end R8
