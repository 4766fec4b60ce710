import R8Protocol.Session.Message
import R8Protocol.Lib.BitWords
import R8Protocol.Lib.Machine

/-! The 4096-counter replay window, kept in 64 words that are shifted bit by bit. -/
namespace R8.Session

open FixedWidth

def REPLAY_WINDOW : ℕ := 4096

def REPLAY_JUMP_MAX : ℕ := 65536

structure ReplayWindow where
  largest : U64
  bits : Vector (BitVec 64) 64
  generation : U64
  deriving DecidableEq

structure ReplayCommit where
  counter : U64
  generation : U64
  deriving DecidableEq, Repr

def sub? (a b : U64) : Option U64 := if b ≤ a then some ⟨a - b, sub_lt a b⟩ else none

def bitMask? (k : ℕ) : Option (BitVec 64) := if k < 64 then some (1#64 <<< k) else none

namespace ReplayWindow

def new : ReplayWindow := ⟨0, Vector.replicate 64 0, 0⟩

/-- Reads the bit `delta` below `largest`. Here and below `none` is a panic of the source: an
index past the array, a shift by 64 or more, or a subtraction below zero. -/
def bit? (bits : Vector (BitVec 64) 64) (delta : ℕ) : Option Bool := do
  let word ← bits[delta / 64]?
  let mask ← bitMask? (delta % 64)
  some (word &&& mask ≠ 0)

def check? (w : ReplayWindow) (counter : U64) : Option (Except SessionError Unit) :=
  if counter = 0 ∨ counter = u64Max then some (.error .counterRange)
  else if 0 < w.largest ∧ satAdd w.largest REPLAY_JUMP_MAX < counter then some (.error .replay)
  else if 0 < w.largest ∧ satAdd counter REPLAY_WINDOW ≤ w.largest then some (.error .replay)
  else if counter ≤ w.largest then do
    let delta ← sub? w.largest counter
    if delta.val < REPLAY_WINDOW then
      let seen ← bit? w.bits delta
      some (if seen then .error .replay else .ok ())
    else some (.ok ())
  else some (.ok ())

def advanceBits (bits : Vector (BitVec 64) 64) (shift : ℕ) : Vector (BitVec 64) 64 :=
  if REPLAY_WINDOW ≤ shift then Vector.replicate 64 0 else BitWords.shiftOnce^[shift] bits

def advance? (w : ReplayWindow) (counter : U64) : Option ReplayWindow :=
  if w.largest < counter then do
    let shift ← sub? counter w.largest
    some { w with bits := advanceBits w.bits shift, largest := counter }
  else some w

def mark? (w : ReplayWindow) (counter : U64) : Option ReplayWindow := do
  let w ← w.advance? counter
  let delta ← sub? w.largest counter
  let word ← w.bits[delta.val / 64]?
  let mask ← bitMask? (delta.val % 64)
  some { w with bits := w.bits.setIfInBounds (delta.val / 64) (word ||| mask) }

def preview? (w : ReplayWindow) (counter : U64) : Option (Except SessionError ReplayCommit) := do
  match ← w.check? counter with
  | .error e => some (.error e)
  | .ok () => some (.ok ⟨counter, w.generation⟩)

def commit? (w : ReplayWindow) (token : ReplayCommit) :
    Option (ReplayWindow × Except SessionError Unit) :=
  if token.generation ≠ w.generation then some (w, .error .replay)
  else do
    match ← w.check? token.counter with
    | .error e => some (w, .error e)
    | .ok () =>
      match checkedAdd w.generation 1 with
      | none => some (w, .error .replay)
      | some generation =>
        let marked ← w.mark? token.counter
        some ({ marked with generation }, .ok ())

def markAfterAuth? (w : ReplayWindow) (counter : U64) :
    Option (ReplayWindow × Except SessionError Unit) := do
  match ← w.preview? counter with
  | .error e => some (w, .error e)
  | .ok token => w.commit? token

/-- The calls below are never made where the checked ones panic; see `commit?_isSome`. -/
def preview (w : ReplayWindow) (counter : U64) : Except SessionError ReplayCommit :=
  (w.preview? counter).getD (.error .replay)

def commit (w : ReplayWindow) (token : ReplayCommit) : ReplayWindow × Except SessionError Unit :=
  (w.commit? token).getD (w, .error .replay)

/-- What the window stands for: the counters it would still accept. -/
def Fresh (committed : List U64) (counter : U64) : Prop :=
  (1 ≤ counter.val ∧ counter.val < 2 ^ 64 - 1) ∧ counter ∉ committed ∧
    ∀ m ∈ committed, (∀ c ∈ committed, c ≤ m) →
      (m.val : ℤ) - 4096 < counter.val ∧ (counter.val : ℤ) ≤ m.val + 65536

/-- The window represents the list of committed counters. -/
structure Refines (w : ReplayWindow) (committed : List U64) : Prop where
  range : ∀ c ∈ committed, 1 ≤ c.val ∧ c.val < 2 ^ 64 - 1
  nodup : committed.Nodup
  generation : w.generation.val = committed.length
  bound : ∀ c ∈ committed, c ≤ w.largest
  largest : committed ≠ [] → w.largest ∈ committed
  empty : committed = [] → w.largest = 0
  bits : ∀ d < 4096, BitWords.testBit w.bits d = true ↔ ∃ c ∈ committed, c.val + d = w.largest.val

instance (committed : List U64) (counter : U64) : Decidable (Fresh committed counter) :=
  inferInstanceAs (Decidable (_ ∧ _ ∧ _))

variable {w : ReplayWindow} {cs : List U64} {c : U64}

theorem Refines.new : Refines new [] where
  range := by simp
  nodup := List.nodup_nil
  generation := rfl
  bound := by simp
  largest := by simp
  empty := fun _ => rfl
  bits := by
    intro d _
    simp [ReplayWindow.new]

theorem bit?_eq {bits : Vector (BitVec 64) 64} {d : ℕ} (hd : d < 4096) :
    bit? bits d = some (BitWords.testBit bits d) := by
  have hk : d / 64 < 64 := by omega
  have hm : d % 64 < 64 := by omega
  have hbit : (bits[d / 64] &&& (1#64 <<< (d % 64)) ≠ 0) ↔ bits[d / 64].getLsbD (d % 64) = true := by
    rw [← BitVec.twoPow_eq, BitVec.and_twoPow]
    by_cases hb : bits[d / 64].getLsbD (d % 64)
    · simp only [hb, if_true, ne_eq, iff_true]
      intro h0
      have := congrArg (fun v => BitVec.getLsbD v (d % 64)) h0
      simp [hm] at this
    · simp [hb]
  have hread : bit? bits d = some (decide (bits[d / 64] &&& (1#64 <<< (d % 64)) ≠ 0)) := by
    simp [bit?, bitMask?, hk, hm]
  rw [hread, BitWords.testBit, Vector.getElem?_eq_getElem hk]
  simp only [hbit, Bool.decide_eq_true, Option.getD_some]

theorem check?_ne_none (w : ReplayWindow) (c : U64) : w.check? c ≠ none := by
  unfold check? sub?
  split_ifs with h0 h1 h2 h3
  · simp
  · simp
  · simp
  · simp only [Option.bind_eq_bind, Option.bind_some]
    split_ifs with h4
    · rw [bit?_eq h4]
      simp
    · simp
  · simp

theorem Refines.ne_nil_iff (h : Refines w cs) : cs ≠ [] ↔ 0 < w.largest.val := by
  constructor
  · intro hcs
    have := h.range _ (h.largest hcs)
    omega
  · rintro hp rfl
    rw [h.empty rfl] at hp
    exact absurd hp (lt_irrefl 0)

theorem Refines.largest_lt (h : Refines w cs) : w.largest.val < 2 ^ 64 - 1 := by
  by_cases hcs : cs = []
  · have : w.largest.val = 0 := congrArg Fin.val (h.empty hcs)
    omega
  · exact (h.range _ (h.largest hcs)).2

theorem Refines.fresh_iff (h : Refines w cs) : Fresh cs c ↔
    (1 ≤ c.val ∧ c.val < 2 ^ 64 - 1) ∧ c ∉ cs ∧
      (0 < w.largest.val → w.largest.val < c.val + 4096 ∧ c.val ≤ w.largest.val + 65536) := by
  refine and_congr_right fun _ => and_congr_right fun _ => ?_
  constructor
  · intro hall hp
    have := hall _ (h.largest (h.ne_nil_iff.mpr hp)) (fun c hc => h.bound c hc)
    omega
  · intro hall m hm hgm
    have hgreatest : m = w.largest :=
      le_antisymm (h.bound m hm) (hgm _ (h.largest (List.ne_nil_of_mem hm)))
    have := hall (h.ne_nil_iff.mp (List.ne_nil_of_mem hm))
    rw [hgreatest]
    omega

theorem Refines.testBit_iff (h : Refines w cs) (hle : c.val ≤ w.largest.val)
    (hd : w.largest.val - c.val < 4096) :
    BitWords.testBit w.bits (w.largest.val - c.val) = true ↔ c ∈ cs := by
  rw [h.bits _ hd]
  constructor
  · rintro ⟨x, hx, hsum⟩
    have : x = c := Fin.ext (by omega)
    rwa [← this]
  · intro hmem
    exact ⟨c, hmem, by omega⟩

theorem check?_eq_ok_iff (h : Refines w cs) : w.check? c = some (.ok ()) ↔ Fresh cs c := by
  have hl := h.largest_lt
  have hc := c.isLt
  have h0 : c = 0 ↔ c.val = 0 := Fin.ext_iff
  have hmax : c = u64Max ↔ c.val = 2 ^ 64 - 1 := Fin.ext_iff
  have hpos : 0 < w.largest ↔ 0 < w.largest.val := Iff.rfl
  have hold : w.largest.val < c.val → c ∉ cs := by
    intro hlt hmem
    have := Fin.le_def.mp (h.bound c hmem)
    omega
  rw [h.fresh_iff]
  unfold check? sub? REPLAY_JUMP_MAX REPLAY_WINDOW
  simp only [h0, hmax, hpos, Fin.lt_def, Fin.le_def, satAdd_val]
  split_ifs with g0 g1 g2 g3
  · simp only [Option.some.injEq, reduceCtorEq, false_iff]
    omega
  · simp only [Option.some.injEq, reduceCtorEq, false_iff]
    omega
  · simp only [Option.some.injEq, reduceCtorEq, false_iff]
    omega
  · have hd : w.largest.val - c.val < 4096 := by omega
    simp only [Option.bind_eq_bind, Option.bind_some, hd, if_true, bit?_eq hd]
    by_cases hb : BitWords.testBit w.bits (w.largest.val - c.val) = true
    · have := (h.testBit_iff g3 hd).mp hb
      simp [hb, this]
    · have := mt (h.testBit_iff g3 hd).mpr hb
      simp only [hb, this, not_false_eq_true, true_and]
      simp only [Bool.false_eq_true, if_false, true_iff]
      omega
  · simp only [true_iff]
    exact ⟨by omega, hold (by omega), by omega⟩

theorem testBit_advanceBits {bits : Vector (BitVec 64) 64} {shift d : ℕ} (hd : d < 4096) :
    BitWords.testBit (advanceBits bits shift) d =
      (decide (shift ≤ d) && BitWords.testBit bits (d - shift)) := by
  unfold advanceBits REPLAY_WINDOW
  split_ifs with hfar
  · have : ¬ shift ≤ d := by omega
    simp [this]
  · exact BitWords.testBit_shift_iterate (by omega) _ (by omega)

/-- The window after an accepted counter, whether or not it moves the upper edge. -/
theorem mark?_eq (hwin : c ≤ w.largest → w.largest.val - c.val < 4096) : w.mark? c = some
    (if w.largest < c then
      ⟨c, BitWords.setBit (advanceBits w.bits (c.val - w.largest.val)) 0, w.generation⟩
    else ⟨w.largest, BitWords.setBit w.bits (w.largest.val - c.val), w.generation⟩) := by
  by_cases hlt : w.largest < c
  · have hmask : bitMask? 0 = some 1#64 := rfl
    simp [mark?, advance?, sub?, hlt, hlt.le, hmask, BitWords.setBit]
  · have hle : c ≤ w.largest := not_lt.mp hlt
    have hk : (w.largest.val - c.val) / 64 < 64 := by
      have := hwin hle
      omega
    have hm : (w.largest.val - c.val) % 64 < 64 := by omega
    simp [mark?, advance?, sub?, bitMask?, hlt, hle, hk, hm, BitWords.setBit]

/-- What the marked window stands for. -/
theorem mark?_spec (h : Refines w cs) (hf : Fresh cs c) : ∃ w', w.mark? c = some w' ∧
    w'.generation = w.generation ∧ w'.largest = max w.largest c ∧
    ∀ d < 4096, BitWords.testBit w'.bits d = true ↔
      ∃ x ∈ c :: cs, x.val + d = w'.largest.val := by
  obtain ⟨-, hnew, hwin⟩ := h.fresh_iff.mp hf
  have hd (hle : c ≤ w.largest) : w.largest.val - c.val < 4096 := by
    have := hf.1.1
    have := Fin.le_def.mp hle
    have := (hwin (by omega)).1
    omega
  refine ⟨_, mark?_eq hd, ?_⟩
  by_cases hlt : w.largest < c
  · simp only [hlt, if_true]
    refine ⟨trivial, (max_eq_right hlt.le).symm, ?_⟩
    intro d hd
    simp only [BitWords.testBit_setBit (w := 64) (k := 64) (by omega) (by omega : 0 < 64 * 64),
      testBit_advanceBits hd, Bool.or_eq_true, decide_eq_true_eq, Bool.and_eq_true,
      List.mem_cons, exists_eq_or_imp]
    have hshift : (c.val - w.largest.val ≤ d ∧
        BitWords.testBit w.bits (d - (c.val - w.largest.val)) = true) ↔
        ∃ x ∈ cs, x.val + d = c.val := by
      have hlt' := Fin.lt_def.mp hlt
      rw [h.bits _ (by omega)]
      constructor
      · rintro ⟨hle, x, hx, hsum⟩
        exact ⟨x, hx, by omega⟩
      · rintro ⟨x, hx, hsum⟩
        have := Fin.le_def.mp (h.bound x hx)
        exact ⟨by omega, x, hx, by omega⟩
    exact or_congr (by omega) hshift
  · have hle : c ≤ w.largest := not_lt.mp hlt
    have hle' := Fin.le_def.mp hle
    have hd := hd hle
    simp only [hlt, if_false]
    refine ⟨trivial, (max_eq_left hle).symm, ?_⟩
    intro d hd'
    simp only [BitWords.testBit_setBit (w := 64) (k := 64) (by omega)
      (by omega : w.largest.val - c.val < 64 * 64)]
    simp only [Bool.or_eq_true, decide_eq_true_eq, h.bits d hd', List.mem_cons, exists_eq_or_imp]
    exact or_congr_left (by omega)

theorem Refines.length_lt (h : Refines w cs) (hf : Fresh cs c) : cs.length + 1 < 2 ^ 64 := by
  have hnd : (0 :: c :: cs).Nodup := by
    refine List.nodup_cons.mpr ⟨?_, List.nodup_cons.mpr ⟨hf.2.1, h.nodup⟩⟩
    intro h0
    have hpos : (1 : ℕ) ≤ (0 : U64).val := by
      rcases List.mem_cons.mp h0 with h0 | h0
      · rw [h0]
        exact hf.1.1
      · exact (h.range 0 h0).1
    exact absurd hpos (Nat.not_succ_le_zero 0)
  have := hnd.length_le_card
  rw [Fintype.card_fin] at this
  simp only [List.length_cons] at this
  omega

theorem commit?_fresh (h : Refines w cs) (hf : Fresh cs c) :
    ∃ w', w.commit? ⟨c, w.generation⟩ = some (w', .ok ()) ∧ Refines w' (c :: cs) := by
  obtain ⟨w', hmark, hgen, hlargest, hbits⟩ := mark?_spec h hf
  have hlen := h.length_lt hf
  have hg := h.generation
  have hadd : checkedAdd w.generation 1 = some ⟨w.generation.val + 1, by omega⟩ :=
    checkedAdd_eq_some.mpr rfl
  refine ⟨{ w' with generation := ⟨w.generation.val + 1, by omega⟩ }, ?_, ?_⟩
  · simp [commit?, (check?_eq_ok_iff h).mpr hf, hadd, hmark]
  · refine ⟨?_, List.nodup_cons.mpr ⟨hf.2.1, h.nodup⟩, ?_, ?_, ?_, by simp, hbits⟩
    · intro x hx
      rcases List.mem_cons.mp hx with rfl | hx
      · exact hf.1
      · exact h.range x hx
    · simp [hg]
    · intro x hx
      simp only [hlargest]
      rcases List.mem_cons.mp hx with rfl | hx
      · exact le_max_right _ _
      · exact (h.bound x hx).trans (le_max_left _ _)
    · intro _
      simp only [hlargest]
      rcases max_choice w.largest c with hm | hm
      · rw [hm]
        by_cases he : cs = []
        · have hle := max_eq_left_iff.mp hm
          rw [h.empty he] at hle ⊢
          have : c = 0 := Fin.ext (Nat.le_zero.mp (Fin.le_def.mp hle))
          simp [this]
        · exact List.mem_cons_of_mem _ (h.largest he)
      · rw [hm]
        exact List.mem_cons_self

/-- Without the checks passing, a commit changes nothing; it is never a panic. -/
theorem commit?_cases (h : Refines w cs) (token : ReplayCommit) :
    (token.generation ≠ w.generation ∧ w.commit? token = some (w, .error .replay)) ∨
    (token.generation = w.generation ∧ ¬ Fresh cs token.counter ∧
      ∃ e, w.commit? token = some (w, .error e)) ∨
    (token.generation = w.generation ∧ Fresh cs token.counter ∧
      ∃ w', w.commit? token = some (w', .ok ()) ∧ Refines w' (token.counter :: cs)) := by
  by_cases hgen : token.generation = w.generation
  · by_cases hf : Fresh cs token.counter
    · right; right
      obtain ⟨w', hw', href⟩ := commit?_fresh h hf
      exact ⟨hgen, hf, w', by rw [← hw', ← hgen], href⟩
    · right; left
      refine ⟨hgen, hf, ?_⟩
      cases hcheck : w.check? token.counter with
      | none => exact absurd hcheck (check?_ne_none w _)
      | some r =>
        cases r with
        | error e => exact ⟨e, by simp [commit?, hgen, hcheck]⟩
        | ok u => exact absurd ((check?_eq_ok_iff h).mp hcheck) hf
  · exact .inl ⟨hgen, by simp [commit?, hgen]⟩

/-- The same for `commit`, which is `commit?` without its panics. -/
theorem commit_cases (h : Refines w cs) (token : ReplayCommit) :
    (∃ e, w.commit token = (w, .error e)) ∨
      Fresh cs token.counter ∧
        ∃ w', w.commit token = (w', .ok ()) ∧ Refines w' (token.counter :: cs) := by
  unfold commit
  rcases commit?_cases h token with ⟨-, he⟩ | ⟨-, -, e, he⟩ | ⟨-, hf, w', he, hr⟩
  · exact .inl ⟨_, by rw [he, Option.getD_some]⟩
  · exact .inl ⟨e, by rw [he, Option.getD_some]⟩
  · exact .inr ⟨hf, w', by rw [he, Option.getD_some], hr⟩

theorem preview?_eq_ok_iff (h : Refines w cs) (token : ReplayCommit) :
    w.preview? c = some (.ok token) ↔ Fresh cs c ∧ token = ⟨c, w.generation⟩ := by
  rw [← check?_eq_ok_iff h]
  cases hcheck : w.check? c with
  | none => exact absurd hcheck (check?_ne_none w _)
  | some r => cases r <;> simp [preview?, hcheck, eq_comm]

theorem preview?_ne_none (w : ReplayWindow) (c : U64) : w.preview? c ≠ none := by
  cases hcheck : w.check? c with
  | none => exact absurd hcheck (check?_ne_none w _)
  | some r => cases r <;> simp [preview?, hcheck]

theorem preview_eq_ok (h : Refines w cs) {token : ReplayCommit} (hp : w.preview c = .ok token) :
    Fresh cs c ∧ token = ⟨c, w.generation⟩ := by
  unfold preview at hp
  cases hp' : w.preview? c with
  | none => exact absurd hp' (preview?_ne_none w c)
  | some r =>
    rw [hp', Option.getD_some] at hp
    exact (preview?_eq_ok_iff h token).mp (hp ▸ hp')

/-- A token is good until the window moves on. -/
theorem commit_of_preview (h : Refines w cs) {token : ReplayCommit}
    (hp : w.preview c = .ok token) :
    ∃ w', w.commit token = (w', .ok ()) ∧ Refines w' (c :: cs) := by
  obtain ⟨hf, rfl⟩ := preview_eq_ok h hp
  obtain ⟨w', hw', hr⟩ := commit?_fresh h hf
  exact ⟨w', by rw [commit, hw', Option.getD_some], hr⟩

theorem markAfterAuth?_fresh (h : Refines w cs) (hf : Fresh cs c) :
    ∃ w', w.markAfterAuth? c = some (w', .ok ()) ∧ Refines w' (c :: cs) := by
  obtain ⟨w', hw', href⟩ := commit?_fresh h hf
  have hp := (preview?_eq_ok_iff h ⟨c, w.generation⟩).mpr ⟨hf, rfl⟩
  exact ⟨w', by simp [markAfterAuth?, hp, hw'], href⟩

theorem markAfterAuth?_not_fresh (h : Refines w cs) (hf : ¬ Fresh cs c) :
    ∃ e, w.markAfterAuth? c = some (w, .error e) := by
  cases hp : w.preview? c with
  | none => exact absurd hp (preview?_ne_none w c)
  | some r =>
    cases r with
    | error e => exact ⟨e, by simp [markAfterAuth?, hp]⟩
    | ok token => exact absurd ((preview?_eq_ok_iff h token).mp hp).1 hf

/-- A window with every token it handed out, each beside the number of commits made before it, and
as a ghost the counters committed so far, newest first. -/
structure History where
  window : ReplayWindow
  issued : List (ReplayCommit × ℕ)
  committed : List U64

inductive Call
  | preview (counter : U64)
  | commit (token : ReplayCommit)
  | markAfterAuth (counter : U64)

namespace History

def new : History := ⟨ReplayWindow.new, [], []⟩

def finish (h : History) (counter : U64) :
    Option (ReplayWindow × Except SessionError Unit) → History
  | some (window, .ok ()) => { h with window, committed := counter :: h.committed }
  | some (window, .error _) => { h with window }
  | none => h

def step (h : History) : Call → History
  | .preview counter =>
    match h.window.preview? counter with
    | some (.ok token) => { h with issued := (token, h.committed.length) :: h.issued }
    | _ => h
  | .commit token => h.finish token.counter (h.window.commit? token)
  | .markAfterAuth counter => h.finish counter (h.window.markAfterAuth? counter)

/-- Tokens have no public constructor: only those handed out by this window are committed. -/
def Issued (h : History) : Call → Prop
  | .commit token => ∃ n, (token, n) ∈ h.issued
  | _ => True

/-- The window represents the committed counters, and a token that no commit has overtaken is
still good. -/
structure Invariant (h : History) : Prop where
  refines : Refines h.window h.committed
  issued : ∀ t n, (t, n) ∈ h.issued → t.generation.val = n ∧ n ≤ h.committed.length ∧
    (n = h.committed.length → Fresh h.committed t.counter)

theorem invariant_new : Invariant new := ⟨Refines.new, by simp [new]⟩

theorem Invariant.of_commit {h : History} (hi : Invariant h) {w' : ReplayWindow} {c : U64}
    (hr : Refines w' (c :: h.committed)) :
    Invariant { h with window := w', committed := c :: h.committed } := by
  refine ⟨hr, ?_⟩
  intro t n ht
  obtain ⟨hg, hn, -⟩ := hi.issued t n ht
  simp only [List.length_cons]
  exact ⟨hg, by omega, by omega⟩

theorem invariant_step {h : History} {call : Call} (hi : Invariant h) (hc : h.Issued call) :
    Invariant (h.step call) := by
  cases call with
  | preview counter =>
    simp only [step]
    split
    · rename_i token hp
      obtain ⟨hf, rfl⟩ := (preview?_eq_ok_iff hi.refines token).mp hp
      refine ⟨hi.refines, ?_⟩
      intro t n ht
      rcases List.mem_cons.mp ht with ht | ht
      · obtain ⟨rfl, rfl⟩ := Prod.mk.inj ht
        exact ⟨hi.refines.generation, le_rfl, fun _ => hf⟩
      · exact hi.issued t n ht
    · exact hi
  | commit token =>
    rcases commit?_cases hi.refines token with ⟨-, he⟩ | ⟨-, -, e, he⟩ | ⟨-, -, w', he, hr⟩
    · simpa only [step, finish, he] using hi
    · simpa only [step, finish, he] using hi
    · simpa only [step, finish, he] using hi.of_commit hr
  | markAfterAuth counter =>
    by_cases hf : Fresh h.committed counter
    · obtain ⟨w', he, hr⟩ := markAfterAuth?_fresh hi.refines hf
      simpa only [step, finish, he] using hi.of_commit hr
    · obtain ⟨e, he⟩ := markAfterAuth?_not_fresh hi.refines hf
      simpa only [step, finish, he] using hi

theorem invariant_reach {h : History} (hr : Machine.Reach (· = new) step Issued h) :
    Invariant h := by
  apply hr.invariant
  · rintro s rfl
    exact invariant_new
  · intro s call hi hc
    exact invariant_step hi hc

end History

/-- In every history the window accepts exactly the fresh counters, every accepted commit adds its
counter, an overtaken token changes nothing, and no call panics. -/
theorem replay_window_accepts_exactly_fresh {h : History}
    (hr : Machine.Reach (· = History.new) History.step History.Issued h) :
    (∀ c, (∃ token, h.window.preview? c = some (.ok token)) ↔ Fresh h.committed c) ∧
    (∀ c, h.window.preview? c ≠ none) ∧
    (∀ m ∈ h.committed, (∀ c ∈ h.committed, c ≤ m) → h.window.largest = m) ∧
    (∀ c, Fresh h.committed c →
      ∃ w, h.window.markAfterAuth? c = some (w, .ok ()) ∧ Refines w (c :: h.committed)) ∧
    (∀ c, ¬ Fresh h.committed c → ∃ e, h.window.markAfterAuth? c = some (h.window, .error e)) ∧
    (∀ t n, (t, n) ∈ h.issued → n = h.committed.length →
      ∃ w, h.window.commit? t = some (w, .ok ()) ∧ Refines w (t.counter :: h.committed)) ∧
    (∀ t n, (t, n) ∈ h.issued → n ≠ h.committed.length →
      h.window.commit? t = some (h.window, .error .replay)) := by
  have hi := History.invariant_reach hr
  have hw := hi.refines
  refine ⟨?_, fun c => preview?_ne_none _ c, ?_, fun c => markAfterAuth?_fresh hw,
    fun c => markAfterAuth?_not_fresh hw, ?_, ?_⟩
  · intro c
    constructor
    · rintro ⟨token, hp⟩
      exact ((preview?_eq_ok_iff hw token).mp hp).1
    · intro hf
      exact ⟨_, (preview?_eq_ok_iff hw _).mpr ⟨hf, rfl⟩⟩
  · intro m hm hall
    exact le_antisymm (hall _ (hw.largest (List.ne_nil_of_mem hm))) (hw.bound m hm)
  · intro t n ht hn
    obtain ⟨hg, -, hf⟩ := hi.issued t n ht
    have hgen : t.generation = h.window.generation := Fin.ext (by rw [hg, hn, hw.generation])
    obtain ⟨w, he, hr⟩ := commit?_fresh hw (hf hn)
    exact ⟨w, by rw [← he, ← hgen], hr⟩
  · intro t n ht hn
    obtain ⟨hg, -, -⟩ := hi.issued t n ht
    have hgen : t.generation ≠ h.window.generation := by
      intro he
      rw [he, hw.generation] at hg
      exact hn hg.symm
    simp [commit?, hgen]

/-- Two outstanding tokens of one window: either can be committed, the excluded counter has none. -/
theorem replay_window_accepts_exactly_fresh_two_tokens :
    let h := Machine.exec History.step .new [.preview 9, .preview 4]
    (∃ w, h.window.commit? ⟨9, 0⟩ = some (w, .ok ()) ∧ Refines w [9]) ∧
      ¬ ∃ token, h.window.preview? u64Max = some (.ok token) := by
  intro h
  have h₀ : Machine.Reach (· = History.new) History.step History.Issued .new := .start rfl
  have hr : Machine.Reach (· = History.new) History.step History.Issued h :=
    h₀.exec _ (by simp [Machine.Allowed, History.Issued])
  obtain ⟨haccept, -, -, -, -, hcommit, -⟩ := replay_window_accepts_exactly_fresh hr
  refine ⟨hcommit ⟨9, 0⟩ 0 (by decide +kernel) (by decide +kernel), ?_⟩
  intro hmax
  exact absurd ((haccept u64Max).mp hmax) (by decide +kernel)

end ReplayWindow

end R8.Session
