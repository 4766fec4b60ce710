import R8Protocol.Redundant.Session

/-! The circular window as a map from ids to fingerprints, and the reference implementation's
dictionary beside it. -/
namespace R8

open FixedWidth Wire Session Mobility

/-- What a receiver makes of an authenticated id and its bytes. -/
inductive Verdict
  | new | equal | divergent | rejected
  deriving DecidableEq, Repr

namespace Reference

open Redundant

inductive ReceiveError
  | path | counter | replay
  deriving DecidableEq, Repr

/-- The delivery side of the reference's session: a dictionary from ids to digest and length. The
cache of recent plaintexts beside it decides nothing. -/
structure Receiver where
  delivery : ℕ → Option DeliveredFingerprint
  highWater : Option ℕ
  closed : Bool

structure ReceivePreview where
  ident : ℕ
  plaintext : List Byte
  digest : Bytes 32
  existing : Option DeliveredFingerprint

namespace Receiver

def MAX : ℕ := 0xffffffffffffffff

def DEDUP_MAX : ℕ := 4096

def GAP : ℕ := 65536

def new : Receiver := ⟨fun _ => none, none, false⟩

/-- `_preview_receive` once the session has opened the packet. -/
def previewReceive (C : Crypto) (c : Receiver) (ident : ℕ) (plaintext : List Byte) :
    Except ReceiveError ReceivePreview :=
  if c.closed then .error .path
  else if ¬ (0 < ident ∧ ident < MAX) then .error .counter
  else
    let digest := C.sha256 plaintext
    let existing := c.delivery ident
    if existing.isNone ∧ c.highWater.any fun high =>
        high < ident ∧ GAP < ident - high ∨ (ident : ℤ) ≤ high - DEDUP_MAX then
      .error .replay
    else .ok ⟨ident, plaintext, digest, existing⟩

/-- Deletes the keys at or below the floor of a new high-water mark. -/
def raise (c : Receiver) (ident : ℕ) : Receiver :=
  if c.highWater.all (· < ident) then
    let floor : ℤ := ident - DEDUP_MAX
    { c with
      highWater := some ident
      delivery := fun key => if key ≤ floor then none else c.delivery key }
  else c

def release (c : Receiver) : Receiver :=
  { c with delivery := fun _ => none, highWater := none, closed := true }

/-- `commit_receive` once the session has committed: the plaintext, and whether it is fresh. -/
def commitReceive (c : Receiver) (p : ReceivePreview) :
    Receiver × Except ReceiveError (List Byte × Bool) :=
  match p.existing with
  | none =>
    let delivery := Function.update c.delivery p.ident (some ⟨p.digest, p.plaintext.length⟩)
    ({ c with delivery }.raise p.ident, .ok (p.plaintext, true))
  | some existing =>
    if existing ≠ ⟨p.digest, p.plaintext.length⟩ then (c.release, .error .path)
    else (c, .ok (p.plaintext, false))

def receive (C : Crypto) (c : Receiver) (ident : ℕ) (plaintext : List Byte) : Receiver × Verdict :=
  match c.previewReceive C ident plaintext with
  | .error _ => (c, .rejected)
  | .ok p =>
    match c.commitReceive p with
    | (c, .ok (_, fresh)) => (c, if fresh then .new else .equal)
    | (c, .error _) => (c, .divergent)

end Receiver

end Reference

namespace Redundant

namespace DeliveredWindow

variable {C : Crypto} {w w' : DeliveredWindow} {d d' : U64 → Option DeliveredFingerprint}
  {id j : U64} {bytes : List Byte}

/-- What the window keeps at the position of an id. -/
def cell (w : DeliveredWindow) (id : U64) : Bool × Option DeliveredFingerprint :=
  (w.bit id, w.fingerprints (index id))

def InWindow (w : DeliveredWindow) (id : U64) : Prop :=
  ∃ high, w.highWater = some high ∧ id ≤ high ∧ high.val - id.val < DELIVERED_WINDOW_IDS

/-- The window holds the entries of `d` that are not too old, each at its own position, and every
other position it would read is clear. -/
structure Represents (w : DeliveredWindow) (d : U64 → Option DeliveredFingerprint) : Prop where
  cells : ∀ id, w.InWindow id → w.cell id = ((d id).isSome, d id)
  unused : w.highWater = none → ∀ id, w.cell id = (false, none)
  le_high : ∀ id, d id ≠ none → ∃ high, w.highWater = some high ∧ id ≤ high

theorem Represents.new : Represents new fun _ => none where
  cells := by
    rintro id ⟨high, hhigh, -⟩
    cases hhigh
  unused := by
    intro _ id
    exact Prod.ext BitWords.testBit_replicate rfl
  le_high := by
    intro id h
    exact absurd rfl h

/-- Only entries in the window are read. -/
theorem Represents.congr (h : Represents w d) (hd : ∀ id, w.InWindow id → d' id = d id)
    (hle : ∀ id, d' id ≠ none → ∃ high, w.highWater = some high ∧ id ≤ high) :
    Represents w d' where
  cells := by
    intro id hid
    rw [h.cells id hid, hd id hid]
  unused := h.unused
  le_high := hle

theorem cell_clear (w : DeliveredWindow) (n : ℕ) (j : U64) :
    (w.clear n).cell j = if index j = index n then (false, none) else w.cell j := by
  unfold cell
  rw [bit_clear]
  by_cases h : index j = index n <;> simp [h, clear]

theorem cell_clearAll (w : DeliveredWindow) (j : U64) : w.clearAll.cell j = (false, none) :=
  Prod.ext BitWords.testBit_replicate rfl

theorem cell_foldl_clear (ns : List ℕ) (w : DeliveredWindow) (j : U64) :
    (ns.foldl clear w).cell j =
      if ∃ n ∈ ns, index j = index n then (false, none) else w.cell j := by
  induction ns generalizing w with
  | nil => simp
  | cons n ns ih =>
    rw [List.foldl_cons, ih, cell_clear]
    by_cases hns : ∃ m ∈ ns, index j = index m
    · have : ∃ m ∈ n :: ns, index j = index m := by
        obtain ⟨m, hm, he⟩ := hns
        exact ⟨m, List.mem_cons_of_mem n hm, he⟩
      simp only [hns, this, if_true]
    · by_cases hn : index j = index n <;> simp [hns, hn]

/-- Two ids in the window are at one position only if they are one id. -/
theorem eq_of_index_eq (hi : w.InWindow id) (hj : w.InWindow j) (h : index j = index id) :
    j = id := by
  obtain ⟨high, hhigh, hid, hidnear⟩ := hi
  obtain ⟨high', hhigh', hjle, hjnear⟩ := hj
  obtain rfl := Option.some.inj (hhigh.symm.trans hhigh')
  rw [Fin.le_def] at hid hjle
  by_contra hne
  rcases lt_or_gt_of_ne hne with hlt | hgt
  · rw [Fin.lt_def] at hlt
    exact index_ne hlt (by omega) h
  · rw [Fin.lt_def] at hgt
    exact index_ne hgt (by omega) h.symm

/-- Moving the window on clears exactly the positions it moves over. -/
theorem Represents.advance (h : Represents w d) (id : U64) :
    ∀ j, (w.advance id).InWindow j → (w.advance id).cell j = ((d j).isSome, d j) := by
  rintro j ⟨H, hH, hle, hnear⟩
  have habove (high : U64) (hhigh : w.highWater = some high) (hj : high < j) : d j = none := by
    by_contra hd
    obtain ⟨high', hhigh', hle'⟩ := h.le_high j hd
    obtain rfl := Option.some.inj (hhigh.symm.trans hhigh')
    exact absurd hj (not_lt.mpr hle')
  unfold DeliveredWindow.advance at hH ⊢
  cases hw : w.highWater with
  | none =>
    have hd : d j = none := by
      by_contra hd
      obtain ⟨high, hhigh, -⟩ := h.le_high j hd
      rw [hw] at hhigh
      cases hhigh
    rw [hd]
    exact h.unused hw j
  | some high =>
    simp only [hw] at hH ⊢
    by_cases hlt : high < id
    · simp only [hlt, if_true, Option.some.injEq] at hH ⊢
      subst hH
      rw [Fin.lt_def] at hlt
      rw [Fin.le_def] at hle
      by_cases hfar : DELIVERED_WINDOW_IDS ≤ id.val - high.val
      · rw [if_pos hfar, habove high hw (Fin.lt_def.mpr (by omega))]
        exact cell_clearAll w j
      · rw [if_neg hfar]
        change ((List.range' (high.val + 1) (id.val - high.val)).foldl clear w).cell j = _
        rw [cell_foldl_clear]
        by_cases hj : high < j
        · have hmem : j.val ∈ List.range' (high.val + 1) (id.val - high.val) := by
            rw [List.mem_range'_1]
            rw [Fin.lt_def] at hj
            omega
          rw [if_pos ⟨j.val, hmem, rfl⟩, habove high hw hj]
          rfl
        · have hj' := Fin.le_def.mp (not_lt.mp hj)
          rw [if_neg, h.cells j ⟨high, hw, not_lt.mp hj, by omega⟩]
          rintro ⟨n, hn, he⟩
          rw [List.mem_range'_1] at hn
          exact index_ne (by omega) (by omega) he
    · simp only [hlt, if_false] at hH ⊢
      exact h.cells j ⟨H, hH, hle, hnear⟩

theorem cell_insert (C : Crypto) (w : DeliveredWindow) (id : U64) (bytes : List Byte) (j : U64) :
    (w.insert C id bytes).cell j = if index j = index id then
      (true, some ⟨C.sha256 bytes, bytes.length⟩) else (w.advance id).cell j := by
  unfold cell
  rw [bit_insert]
  by_cases h : index j = index id <;> simp [h, DeliveredWindow.insert, set, clear]

theorem highWater_advance_eq (w : DeliveredWindow) (id : U64) :
    (w.advance id).highWater = some (w.highWater.elim id (max id)) := by
  unfold DeliveredWindow.advance
  cases hw : w.highWater with
  | none => rfl
  | some high =>
    by_cases hlt : high < id
    · simp [hlt, max_eq_left hlt.le]
    · simp [hlt, hw, max_eq_right (not_lt.mp hlt)]

/-- Inserting an id is setting its entry. -/
theorem Represents.insert (h : Represents w d) (hold : ¬ w.tooOld id = true) (bytes : List Byte) :
    Represents (w.insert C id bytes)
      (Function.update d id (some ⟨C.sha256 bytes, bytes.length⟩)) := by
  obtain ⟨H, hH, -⟩ := highWater_advance w id
  obtain ⟨hid, hidnear⟩ := highWater_advance_near hold hH
  have hin : (w.insert C id bytes).InWindow id := ⟨H, hH, hid, hidnear⟩
  refine ⟨?_, ?_, ?_⟩
  · intro j hj
    rw [cell_insert]
    by_cases hji : j = id
    · subst hji
      simp
    · have hne : index j ≠ index id := fun he => hji (eq_of_index_eq hin hj he)
      rw [if_neg hne, Function.update_of_ne hji]
      exact h.advance id j hj
  · intro hnone
    rw [highWater_insert, hH] at hnone
    cases hnone
  · intro j hj
    refine ⟨H, hH, ?_⟩
    by_cases hji : j = id
    · exact hji ▸ hid
    · rw [Function.update_of_ne hji] at hj
      obtain ⟨high, hhigh, hle⟩ := h.le_high j hj
      rw [highWater_advance_eq, hhigh, Option.elim_some, Option.some.injEq] at hH
      exact hH ▸ hle.trans (le_max_right id high)

theorem Represents.seen_iff (h : Represents w d) :
    w.seen id = true ↔ w.InWindow id ∧ (d id).isSome = true := by
  rw [DeliveredWindow.seen_iff]
  constructor
  · rintro ⟨high, hhigh, hle, hnear, hbit⟩
    have hin : w.InWindow id := ⟨high, hhigh, hle, hnear⟩
    exact ⟨hin, (congrArg Prod.fst (h.cells id hin)).symm.trans hbit⟩
  · rintro ⟨hin, hd⟩
    have hbit := (congrArg Prod.fst (h.cells id hin)).trans hd
    obtain ⟨high, hhigh, hle, hnear⟩ := hin
    exact ⟨high, hhigh, hle, hnear, hbit⟩

theorem Represents.matchesBytes_iff (h : Represents w d) (hin : w.InWindow id) :
    w.matchesBytes C id bytes = true ↔ d id = some ⟨C.sha256 bytes, bytes.length⟩ := by
  have hprint : w.fingerprints (index id) = d id := congrArg Prod.snd (h.cells id hin)
  unfold matchesBytes
  rw [hprint]
  cases d id with
  | none => simp
  | some f =>
    obtain ⟨digest, length⟩ := f
    simp [and_comm]

theorem tooOld_iff : w.tooOld id = true ↔
    ∃ high, w.highWater = some high ∧ DELIVERED_WINDOW_IDS ≤ high.val - id.val := by
  unfold tooOld
  cases w.highWater with
  | none => simp
  | some high =>
    simp only [Option.any_some, decide_eq_true_eq, Option.some.injEq, exists_eq_left',
      and_iff_right_iff_imp]
    intro hfar
    have : 0 < DELIVERED_WINDOW_IDS := by decide
    exact Fin.le_def.mpr (by omega)

section

/-! The operations as they run: `none` is an index past an array, a shift by too much, or an
addition or subtraction past its bounds. -/

/-- The word of an id, and its bit in that word. -/
def position? (id : ℕ) : Option (ℕ × BitVec 64) := do
  let bit ← bitMask? (id % DELIVERED_WINDOW_IDS % 64)
  some (id % DELIVERED_WINDOW_IDS / 64, bit)

def putFingerprint? (w : DeliveredWindow) (id : ℕ) (f : Option DeliveredFingerprint) :
    Option DeliveredWindow :=
  if h : id % DELIVERED_WINDOW_IDS < DELIVERED_WINDOW_IDS then
    some { w with fingerprints := Function.update w.fingerprints ⟨_, h⟩ f }
  else none

def set? (w : DeliveredWindow) (id : ℕ) : Option DeliveredWindow := do
  let (word, bit) ← position? id
  let old ← w.bits[word]?
  some { w with bits := w.bits.setIfInBounds word (old ||| bit) }

def clear? (w : DeliveredWindow) (id : ℕ) : Option DeliveredWindow := do
  let (word, bit) ← position? id
  let old ← w.bits[word]?
  putFingerprint? { w with bits := w.bits.setIfInBounds word (old &&& ~~~bit) } id none

def advance? (w : DeliveredWindow) (id : U64) : Option DeliveredWindow :=
  match w.highWater with
  | none => some { w with highWater := some id }
  | some high =>
    if high < id then do
      let advance ← sub? id high
      let moved ←
        if DELIVERED_WINDOW_IDS ≤ advance.val then some w.clearAll
        else do
          let first ← checkedAdd high 1
          (List.range' first.val (id.val + 1 - first.val)).foldlM clear? w
      some { moved with highWater := some id }
    else some w

def seen? (w : DeliveredWindow) (id : U64) : Option Bool :=
  match w.highWater with
  | none => some false
  | some high =>
    if high < id then some false
    else do
      let distance ← sub? high id
      if DELIVERED_WINDOW_IDS ≤ distance.val then some false
      else ReplayWindow.bit? w.bits (id.val % DELIVERED_WINDOW_IDS)

def tooOld? (w : DeliveredWindow) (id : U64) : Option Bool :=
  match w.highWater with
  | none => some false
  | some high =>
    if id ≤ high then do
      let distance ← sub? high id
      some (DELIVERED_WINDOW_IDS ≤ distance.val)
    else some false

def insert? (C : Crypto) (w : DeliveredWindow) (id : U64) (bytes : List Byte) :
    Option DeliveredWindow := do
  let w ← w.advance? id
  let w ← w.clear? id.val
  let w ← w.set? id.val
  w.putFingerprint? id.val (some ⟨C.sha256 bytes, bytes.length⟩)

theorem position?_eq (id : ℕ) :
    position? id = some ((index id).val / 64, 1#64 <<< ((index id).val % 64)) := by
  have : id % DELIVERED_WINDOW_IDS % 64 < 64 := Nat.mod_lt _ (by decide)
  simp [position?, bitMask?, this, index]

theorem putFingerprint?_eq (w : DeliveredWindow) (id : ℕ) (f : Option DeliveredFingerprint) :
    w.putFingerprint? id f =
      some { w with fingerprints := Function.update w.fingerprints (index id) f } :=
  dif_pos (index id).isLt

theorem word_eq (w : DeliveredWindow) (id : ℕ) :
    w.bits[(index id).val / 64]? = some (w.bits[(index id).val / 64]?.getD 0) := by
  have : (index id).val / 64 < 64 := Nat.div_lt_of_lt_mul (index_lt id)
  rw [Vector.getElem?_eq_getElem this, Option.getD_some]

theorem set?_eq (w : DeliveredWindow) (id : U64) : w.set? id.val = some (w.set id) := by
  simp only [set?, position?_eq, Option.bind_eq_bind, Option.bind_some]
  rw [word_eq, Option.bind_some]
  rfl

theorem clear?_eq (w : DeliveredWindow) (id : ℕ) : w.clear? id = some (w.clear id) := by
  simp only [clear?, position?_eq, Option.bind_eq_bind, Option.bind_some]
  rw [word_eq, Option.bind_some, putFingerprint?_eq]
  rfl

theorem foldlM_clear?_eq (ns : List ℕ) (w : DeliveredWindow) :
    ns.foldlM clear? w = some (ns.foldl clear w) := by
  induction ns generalizing w with
  | nil => rfl
  | cons n ns ih => rw [List.foldlM_cons, clear?_eq, Option.bind_eq_bind, Option.bind_some, ih,
      List.foldl_cons]

theorem advance?_eq (w : DeliveredWindow) (id : U64) : w.advance? id = some (w.advance id) := by
  unfold advance? DeliveredWindow.advance
  cases w.highWater with
  | none => rfl
  | some high =>
    by_cases hlt : high < id
    · have hlt' := Fin.lt_def.mp hlt
      have hadd : checkedAdd high 1 = some ⟨high.val + 1, by omega⟩ :=
        checkedAdd_eq_some.mpr rfl
      have hcount : id.val + 1 - (high.val + 1) = id.val - high.val := by omega
      simp only [hlt, if_true, sub?, hlt.le, Option.bind_eq_bind, Option.bind_some, hadd, hcount,
        foldlM_clear?_eq]
      split_ifs <;> rfl
    · simp [hlt]

theorem seen?_eq (w : DeliveredWindow) (id : U64) : w.seen? id = some (w.seen id) := by
  unfold seen? seen
  cases w.highWater with
  | none => rfl
  | some high =>
    by_cases hlt : high < id
    · simp [hlt]
    · by_cases hfar : DELIVERED_WINDOW_IDS ≤ high.val - id.val
      · simp [hlt, sub?, not_lt.mp hlt, hfar]
      · simp only [hlt, sub?, not_lt.mp hlt, hfar, if_true, if_false, or_self,
          Option.bind_eq_bind, Option.bind_some]
        exact ReplayWindow.bit?_eq (index id).isLt

theorem tooOld?_eq (w : DeliveredWindow) (id : U64) : w.tooOld? id = some (w.tooOld id) := by
  unfold tooOld? tooOld
  cases w.highWater with
  | none => rfl
  | some high => by_cases hle : id ≤ high <;> simp [hle, sub?]

theorem insert?_eq (C : Crypto) (w : DeliveredWindow) (id : U64) (bytes : List Byte) :
    w.insert? C id bytes = some (w.insert C id bytes) := by
  simp only [insert?, advance?_eq, clear?_eq, set?_eq, putFingerprint?_eq, Option.bind_eq_bind,
    Option.bind_some]
  rfl

end

section

/-- The fingerprint of the bytes last inserted for each id. -/
def printOf (C : Crypto) (inserted : List (U64 × List Byte)) (id : U64) :
    Option DeliveredFingerprint :=
  (inserted.lookup id).map fun bytes => ⟨C.sha256 bytes, bytes.length⟩

/-- A window, and as a ghost what was inserted into it, newest first. -/
structure History where
  window : DeliveredWindow
  inserted : List (U64 × List Byte)

namespace History

def new : History := ⟨.new, []⟩

def step (C : Crypto) (h : History) (a : U64 × List Byte) : History :=
  ⟨h.window.insert C a.1 a.2, a :: h.inserted⟩

/-- The insertions a receiver makes: the first, one that moves the window on by at most the gap,
or one inside the window. -/
def Permitted (h : History) (a : U64 × List Byte) : Prop :=
  (0 < a.1.val ∧ a.1.val < 2 ^ 64 - 1) ∧ ∀ high, h.window.highWater = some high →
    high < a.1 ∧ a.1.val - high.val ≤ DELIVERY_GAP ∨
      a.1 ≤ high ∧ high.val - a.1.val < DELIVERED_WINDOW_IDS

structure Invariant (C : Crypto) (h : History) : Prop where
  represents : Represents h.window (printOf C h.inserted)
  highWater : h.window.highWater = (h.inserted.map Prod.fst).max?

theorem invariant_new (C : Crypto) : Invariant C new := ⟨Represents.new, rfl⟩

theorem printOf_cons (C : Crypto) (a : U64 × List Byte) (l : List (U64 × List Byte)) :
    printOf C (a :: l) =
      Function.update (printOf C l) a.1 (some ⟨C.sha256 a.2, a.2.length⟩) := by
  funext id
  obtain ⟨k, bytes⟩ := a
  by_cases h : id = k
  · simp [printOf, h]
  · have h' : (id == k) = false := by simpa using h
    simp [printOf, List.lookup_cons, h', h]

theorem printOf_isSome_iff {l : List (U64 × List Byte)} :
    (printOf C l id).isSome = true ↔ ∃ bytes, (id, bytes) ∈ l := by
  simp [printOf]

theorem not_tooOld_of_permitted {h : History} {a : U64 × List Byte} (hp : h.Permitted a) :
    ¬ h.window.tooOld a.1 = true := by
  rw [tooOld_iff]
  rintro ⟨high, hhigh, hfar⟩
  simp only [DELIVERED_WINDOW_IDS] at hfar
  rcases hp.2 high hhigh with ⟨hlt, -⟩ | ⟨-, hnear⟩
  · rw [Fin.lt_def] at hlt
    omega
  · simp only [DELIVERED_WINDOW_IDS] at hnear
    omega

theorem invariant_step {h : History} (hi : Invariant C h) {a : U64 × List Byte}
    (hp : h.Permitted a) : Invariant C (h.step C a) := by
  refine ⟨?_, ?_⟩
  · simp only [step, printOf_cons]
    exact hi.represents.insert (not_tooOld_of_permitted hp) a.2
  · simp only [step, highWater_insert, highWater_advance_eq, hi.highWater, List.map_cons,
      List.max?_cons]

theorem invariant_reach {h : History}
    (hr : Machine.Reach (· = new) (step C) Permitted h) : Invariant C h := by
  apply hr.invariant
  · rintro s rfl
    exact invariant_new C
  · intro s a hi hp
    exact invariant_step hi hp

end History

end

section

/-- The answers of `preview_inbound_inner` about a packet it could open. -/
def decision (C : Crypto) (w : DeliveredWindow) (id : U64) (bytes : List Byte) : Verdict :=
  if w.tooOld id then .rejected
  else if w.seen id then
    if w.matchesBytes C id bytes then .equal else .divergent
  else if w.highWater.any fun high => high < id ∧ DELIVERY_GAP < id.val - high.val then .rejected
  else .new

/-- The dictionary holds the entries of the window and no others. -/
structure Agrees (r : Reference.Receiver) (w : DeliveredWindow) : Prop where
  represents : Represents w fun id => r.delivery id.val
  highWater : r.highWater = w.highWater.map Fin.val
  pruned : ∀ id : U64, r.delivery id.val ≠ none → w.InWindow id
  isOpen : r.closed = false

variable {r : Reference.Receiver}

theorem Agrees.new : Agrees .new .new :=
  ⟨Represents.new, rfl, fun _ h => absurd rfl h, rfl⟩

theorem InWindow.not_tooOld (h : w.InWindow id) : w.tooOld id = false := by
  obtain ⟨high, hhigh, hle, hnear⟩ := h
  simp [tooOld, hhigh, hle, hnear]

/-- The reference rejects an id it has no entry for exactly when one of the two tests does. -/
theorem Agrees.far_iff (h : Agrees r w) (id : U64) :
    (r.highWater.any fun high => high < id.val ∧ Reference.Receiver.GAP < id.val - high ∨
        ((id.val : ℕ) : ℤ) ≤ high - Reference.Receiver.DEDUP_MAX) = true ↔
      w.tooOld id = true ∨
        (w.highWater.any fun high => high < id ∧ DELIVERY_GAP < id.val - high.val) = true := by
  rw [h.highWater, tooOld_iff]
  cases w.highWater with
  | none => simp
  | some high =>
    simp only [Option.map_some, Option.any_some, decide_eq_true_eq, Option.some.injEq,
      exists_eq_left']
    simp only [DELIVERED_WINDOW_IDS, DELIVERY_GAP, Reference.Receiver.GAP,
      Reference.Receiver.DEDUP_MAX, Fin.lt_def]
    omega

/-- The entry a new id gets. -/
def entered (C : Crypto) (r : Reference.Receiver) (id : U64) (bytes : List Byte) :
    Reference.Receiver :=
  { r with delivery := Function.update r.delivery id.val (some ⟨C.sha256 bytes, bytes.length⟩) }

/-- What an arrival does to the dictionary, by the window's decision. -/
theorem Agrees.receive_eq (h : Agrees r w) (hrange : 0 < id.val ∧ id.val < 2 ^ 64 - 1)
    (bytes : List Byte) : r.receive C id.val bytes =
      match w.decision C id bytes with
      | .new => ((entered C r id bytes).raise id.val, .new)
      | .equal => (r, .equal)
      | .divergent => (r.release, .divergent)
      | .rejected => (r, .rejected) := by
  have hmax : 0 < id.val ∧ id.val < Reference.Receiver.MAX := hrange
  cases hd : r.delivery id.val with
  | some f =>
    have hin : w.InWindow id := h.pruned id (by simp [hd])
    have hseen : w.seen id = true := h.represents.seen_iff.mpr ⟨hin, by simp [hd]⟩
    have hmatch : w.matchesBytes C id bytes = true ↔ r.delivery id.val = some
        ⟨C.sha256 bytes, bytes.length⟩ := h.represents.matchesBytes_iff hin
    rw [hd, Option.some.injEq] at hmatch
    simp only [Reference.Receiver.receive, Reference.Receiver.previewReceive, h.isOpen, hmax, hd,
      decision, hin.not_tooOld, hseen, Reference.Receiver.commitReceive]
    by_cases hf : f = ⟨C.sha256 bytes, bytes.length⟩
    · simp [hf, hmatch.mpr hf]
    · have : ¬ w.matchesBytes C id bytes = true := mt hmatch.mp hf
      simp [hf, this]
  | none =>
    have hseen : ¬ w.seen id = true := by
      intro hseen
      have := (h.represents.seen_iff.mp hseen).2
      simp [hd] at this
    have hfar := h.far_iff id
    simp only [Reference.Receiver.receive, Reference.Receiver.previewReceive, h.isOpen, hmax, hd,
      decision, hseen, Option.isNone_none, true_and]
    by_cases hreject : w.tooOld id = true ∨
        (w.highWater.any fun high => high < id ∧ DELIVERY_GAP < id.val - high.val) = true
    · simp only [hfar.mpr hreject]
      rcases hreject with hold | hgap
      · simp only [hold, if_true, Bool.false_eq_true, if_false, not_true_eq_false]
      · simp only [hgap, if_true, Bool.false_eq_true, if_false, not_true_eq_false, ite_self]
    · simp only [mt hfar.mp hreject]
      rw [not_or] at hreject
      simp only [hreject.1, hreject.2, Bool.false_eq_true, if_false, not_true_eq_false,
        Reference.Receiver.commitReceive, if_true]
      rfl

/-- Deleting the keys at or below the floor leaves what a window raised to `id` covers. -/
theorem raised {delivery : ℕ → Option DeliveredFingerprint} {closed : Bool}
    (h : Represents w fun j => delivery j.val) (hhigh : w.highWater = some id)
    (hopen : closed = false) :
    Agrees ⟨fun key => if (key : ℤ) ≤ id.val - Reference.Receiver.DEDUP_MAX then none
      else delivery key, some id.val, closed⟩ w := by
  have hsome (j : U64) (hj : (if (j.val : ℤ) ≤ id.val - Reference.Receiver.DEDUP_MAX then none
      else delivery j.val) ≠ none) :
      ¬ (j.val : ℤ) ≤ id.val - Reference.Receiver.DEDUP_MAX ∧ delivery j.val ≠ none := by
    split_ifs at hj with hfloor
    · exact absurd rfl hj
    · exact ⟨hfloor, hj⟩
  refine ⟨h.congr ?_ ?_, by rw [hhigh, Option.map_some], ?_, hopen⟩
  · rintro j ⟨high, hhigh', hle, hnear⟩
    obtain rfl := Option.some.inj (hhigh.symm.trans hhigh')
    rw [Fin.le_def] at hle
    simp only [DELIVERED_WINDOW_IDS] at hnear
    apply if_neg
    simp only [Reference.Receiver.DEDUP_MAX]
    omega
  · intro j hj
    exact h.le_high j (hsome j hj).2
  · intro j hj
    obtain ⟨hfloor, hj⟩ := hsome j hj
    obtain ⟨high, hhigh', hle⟩ := h.le_high j hj
    obtain rfl := Option.some.inj (hhigh.symm.trans hhigh')
    refine ⟨id, hhigh, hle, ?_⟩
    simp only [Reference.Receiver.DEDUP_MAX] at hfloor
    simp only [DELIVERED_WINDOW_IDS]
    omega

/-- A new id is entered in both, and the dictionary forgets what the window no longer covers. -/
theorem Agrees.remember (h : Agrees r w) (hold : ¬ w.tooOld id = true) (bytes : List Byte) :
    Agrees ((entered C r id bytes).raise id.val) (w.insert C id bytes) := by
  have hrep := h.represents.insert (C := C) hold bytes
  have hkeys : (fun j : U64 => Function.update r.delivery id.val
      (some ⟨C.sha256 bytes, bytes.length⟩) j.val) =
      Function.update (fun j : U64 => r.delivery j.val) id
        (some ⟨C.sha256 bytes, bytes.length⟩) := by
    funext j
    simp only [Function.update_apply, Fin.ext_iff]
  have hin : (w.insert C id bytes).InWindow id := by
    obtain ⟨H, hH, -⟩ := highWater_advance w id
    exact ⟨H, hH, highWater_advance_near hold hH⟩
  rw [← hkeys] at hrep
  have hhigh : (w.insert C id bytes).highWater = some (w.highWater.elim id (max id)) :=
    highWater_advance_eq w id
  unfold entered Reference.Receiver.raise
  by_cases hraise : r.highWater.all (· < id.val) = true
  · have hid : w.highWater.elim id (max id) = id := by
      rw [h.highWater] at hraise
      cases hw : w.highWater with
      | none => rfl
      | some high =>
        simp only [hw, Option.map_some, Option.all_some, decide_eq_true_eq] at hraise
        exact max_eq_left (Fin.le_def.mpr hraise.le)
    rw [hid] at hhigh
    rw [if_pos hraise]
    exact raised hrep hhigh h.isOpen
  · obtain ⟨high, hw, hle⟩ : ∃ high, w.highWater = some high ∧ id ≤ high := by
      rw [h.highWater] at hraise
      cases hw : w.highWater with
      | none => simp [hw] at hraise
      | some high =>
        simp only [hw, Option.map_some, Option.all_some, decide_eq_true_eq, not_lt] at hraise
        exact ⟨high, rfl, hraise⟩
    rw [hw, Option.elim_some, max_eq_right hle] at hhigh
    rw [if_neg hraise]
    refine ⟨hrep, by rw [hhigh, h.highWater, hw], ?_, h.isOpen⟩
    · intro j hj
      by_cases hji : j = id
      · exact hji ▸ hin
      · have : r.delivery j.val ≠ none := by
          simpa [Function.update_apply, Fin.ext_iff.not.mp hji] using hj
        obtain ⟨high', hhigh', hle', hnear⟩ := h.pruned j this
        obtain rfl := Option.some.inj (hw.symm.trans hhigh')
        exact ⟨high, hhigh, hle', hnear⟩

/-- An authenticated packet: its id is one a sender can use. -/
structure Arrival where
  id : U64
  bytes : List Byte
  range : 0 < id.val ∧ id.val < 2 ^ 64 - 1

/-- The two receivers given the same arrivals. -/
structure Twins where
  reference : Reference.Receiver
  window : DeliveredWindow
  closed : Bool

namespace Twins

def new : Twins := ⟨.new, .new, false⟩

/-- A divergent delivery closes the session, a new one is inserted. -/
def step (C : Crypto) (t : Twins) (a : Arrival) : Twins :=
  let reference := (t.reference.receive C a.id.val a.bytes).1
  if t.closed then { t with reference }
  else
    match t.window.decision C a.id a.bytes with
    | .new => ⟨reference, t.window.insert C a.id a.bytes, false⟩
    | .divergent => ⟨reference, t.window, true⟩
    | _ => ⟨reference, t.window, false⟩

def Invariant (t : Twins) : Prop :=
  t.reference.closed = t.closed ∧ (t.closed = false → Agrees t.reference t.window)

theorem invariant_new : Invariant new := ⟨rfl, fun _ => Agrees.new⟩

theorem receive_closed (h : r.closed = true) (ident : ℕ) (plaintext : List Byte) :
    (r.receive C ident plaintext).1.closed = true := by
  simp [Reference.Receiver.receive, Reference.Receiver.previewReceive, h]

theorem decision_eq_new (h : w.decision C id bytes = .new) : ¬ w.tooOld id = true := by
  intro hold
  simp [decision, hold] at h

theorem invariant_step {t : Twins} (hi : Invariant t) (a : Arrival) : Invariant (t.step C a) := by
  cases hclosed : t.closed with
  | true =>
    simp only [Invariant, step, hclosed, if_true, Bool.true_eq_false, false_implies, and_true]
    exact receive_closed (hi.1.trans hclosed) _ _
  | false =>
    have h := hi.2 hclosed
    simp only [Invariant, step, hclosed, h.receive_eq a.range]
    cases hd : t.window.decision C a.id a.bytes with
    | new =>
      have h' := h.remember (C := C) (decision_eq_new hd) a.bytes
      exact ⟨h'.isOpen, fun _ => h'⟩
    | equal => exact ⟨h.isOpen, fun _ => h⟩
    | divergent => exact ⟨rfl, fun hc => by cases hc⟩
    | rejected => exact ⟨h.isOpen, fun _ => h⟩

theorem invariant_exec (C : Crypto) (arrivals : List Arrival) :
    Invariant (Machine.exec (step C) new arrivals) := by
  have hstart : Machine.Reach (· = new) (step C) (fun _ _ => True) new := .start rfl
  have hreach := hstart.exec arrivals (.of_forall (fun _ _ => trivial) _ _)
  apply hreach.invariant
  · rintro t rfl
    exact invariant_new
  · intro t a hi _
    exact invariant_step hi a

end Twins

end

/-- The outcome of a preview, as the window decides about the packet that was opened. -/
def Obeys (C : Crypto) (w : DeliveredWindow) (preview : Profile3DataPreview)
    (r : (RedundantSession × Leases) × Except RedundantError InboundPreview) : Prop :=
  match w.decision C preview.deliveryId preview.plaintext with
  | .new => ∃ p, r.2 = .ok p ∧ p.decision = .new ∧ p.sessionPreview = preview
  | .equal => ∃ p, r.2 = .ok p ∧ p.decision = .equal ∧ p.sessionPreview = preview
  | .divergent => r.2 = .error .divergentDelivery ∧ r.1.1.state = .released
  | .rejected => r.2 = .error .replay ∨ r.2 = .error .deliveryGap

theorem reapPreview_eq (s : RedundantSession) (leases : Leases) :
    (s.reapPreview leases).delivered = s.delivered ∧
      (s.reapPreview leases).state = s.state ∧
      (∀ slot binding packet requireActive,
        (s.reapPreview leases).openInbound C slot binding packet requireActive =
          s.openInbound C slot binding packet requireActive) := by
  unfold RedundantSession.reapPreview
  split <;> exact ⟨rfl, rfl, fun _ _ _ _ => rfl⟩

theorem close_released (s : RedundantSession) (leases : Leases) :
    (s.close leases).1.state = .released := by
  unfold RedundantSession.close
  split_ifs with h
  · exact h
  · rfl

theorem previewInboundInner_obeys {s : RedundantSession} {leases : Leases} {slot : Byte}
    {binding : ObservedBinding} {packet : List Byte} {nowMs : U64} {requireActive : Bool}
    {preview : Profile3DataPreview} (hvalid : binding.Valid) (hactive : s.state = .active)
    (hnone : (s.reapPreview leases).receivePreview = none)
    (hopen : s.openInbound C slot binding packet requireActive = .ok preview) :
    Obeys C s.delivered preview
      (s.previewInboundInner C leases slot binding packet nowMs requireActive) := by
  obtain ⟨hwindow, hstate, hopened⟩ := reapPreview_eq (C := C) s leases
  rw [← hopened] at hopen
  rw [← hwindow]
  simp only [Obeys, decision, RedundantSession.previewInboundInner, hvalid, hactive, hopen,
    hnone, not_true_eq_false, ne_eq, if_false, Option.isSome_none, Bool.false_eq_true]
  split_ifs with hold hseen hmatch hgap
  · exact .inl rfl
  · exact ⟨_, rfl, rfl, rfl⟩
  · exact ⟨rfl, close_released _ _⟩
  · exact .inr rfl
  · exact ⟨_, rfl, rfl, rfl⟩

/-- Over every sequence of permitted insertions the window is the map from the inserted ids to
their bytes, no operation on it fails, and over every sequence of arrivals it decides as the
reference's dictionary does. -/
theorem delivered_window_is_the_reference_map {h : History}
    (hr : Machine.Reach (· = .new) (History.step C) History.Permitted h) (arrivals : List Arrival) :
    let t := Machine.exec (Twins.step C) .new arrivals
    (h.window.highWater = (h.inserted.map Prod.fst).max? ∧
      (∀ id, h.window.seen id = true ↔ (∃ bytes, (id, bytes) ∈ h.inserted) ∧
        ∃ high, h.window.highWater = some high ∧ high.val - id.val < 4096) ∧
      (∀ id last, h.window.seen id = true → h.inserted.lookup id = some last →
        ∀ bytes, (C.sha256 bytes = C.sha256 last → bytes = last) →
          (h.window.matchesBytes C id bytes = true ↔ bytes = last)) ∧
      ∀ id, h.window.tooOld id = true ↔
        ∃ high, h.window.highWater = some high ∧ 4096 ≤ high.val - id.val) ∧
    (∀ (w : DeliveredWindow) id bytes, w.insert? C id bytes = some (w.insert C id bytes) ∧
      w.seen? id = some (w.seen id) ∧ w.tooOld? id = some (w.tooOld id)) ∧
    t.reference.closed = t.closed ∧
    (t.closed = false → t.reference.highWater = t.window.highWater.map Fin.val ∧
      ∀ a : Arrival,
        (t.reference.receive C a.id.val a.bytes).2 = t.window.decision C a.id a.bytes) ∧
    ∀ (s : RedundantSession) leases slot binding packet nowMs requireActive preview,
      s.delivered = t.window → binding.Valid → s.state = .active →
      (s.reapPreview leases).receivePreview = none →
      s.openInbound C slot binding packet requireActive = .ok preview →
      Obeys C t.window preview
        (s.previewInboundInner C leases slot binding packet nowMs requireActive) := by
  intro t
  have hi := History.invariant_reach hr
  have ht := Twins.invariant_exec C arrivals
  refine ⟨⟨hi.highWater, ?_, ?_, fun _ => tooOld_iff⟩, ?_, ht.1, ?_, ?_⟩
  · intro id
    rw [hi.represents.seen_iff]
    have hsome : (printOf C h.inserted id).isSome = true ↔ ∃ bytes, (id, bytes) ∈ h.inserted :=
      History.printOf_isSome_iff
    constructor
    · rintro ⟨⟨high, hhigh, -, hnear⟩, hd⟩
      exact ⟨hsome.mp hd, high, hhigh, hnear⟩
    · rintro ⟨hmem, high, hhigh, hnear⟩
      have hd := hsome.mpr hmem
      obtain ⟨high', hhigh', hle⟩ := hi.represents.le_high id (Option.isSome_iff_ne_none.mp hd)
      obtain rfl := Option.some.inj (hhigh.symm.trans hhigh')
      exact ⟨⟨high, hhigh, hle, hnear⟩, hd⟩
  · intro id last hseen hlast bytes hfree
    have hin := (hi.represents.seen_iff.mp hseen).1
    rw [hi.represents.matchesBytes_iff hin, printOf, hlast, Option.map_some, Option.some.injEq,
      DeliveredFingerprint.mk.injEq]
    constructor
    · rintro ⟨hdigest, -⟩
      exact hfree hdigest.symm
    · rintro rfl
      exact ⟨rfl, rfl⟩
  · intro w id bytes
    exact ⟨insert?_eq C w id bytes, seen?_eq w id, tooOld?_eq w id⟩
  · intro hopen
    have h := ht.2 hopen
    refine ⟨h.highWater, ?_⟩
    intro a
    rw [h.receive_eq a.range]
    cases t.window.decision C a.id a.bytes <;> rfl
  · intro s leases slot binding packet nowMs requireActive preview hwindow hvalid hactive hnone
      hopen
    rw [← hwindow]
    exact previewInboundInner_obeys hvalid hactive hnone hopen

/-- A jump past the whole window, then an id behind it: an old id at the position of a new one is
never read for it. -/
theorem delivered_window_is_the_reference_map_jump :
    let h := Machine.exec (History.step Crypto.sample) .new [(1, [7]), (5000, [8]), (4999, [9])]
    h.window.seen 4999 = true ∧ h.window.seen 4097 = false ∧ h.window.tooOld 1 = true := by
  intro h
  have h₀ : Machine.Reach (· = .new) (History.step Crypto.sample) History.Permitted .new :=
    .start rfl
  have hr : Machine.Reach (· = .new) (History.step Crypto.sample) History.Permitted h := by
    refine h₀.exec _ ⟨⟨by decide, ?_⟩, ⟨by decide, ?_⟩, ⟨by decide, ?_⟩, trivial⟩
    · intro high hhigh
      cases hhigh
    · intro high hhigh
      obtain rfl : (1 : U64) = high := Option.some.inj hhigh
      exact .inl (by decide)
    · intro high hhigh
      obtain rfl : (5000 : U64) = high := Option.some.inj hhigh
      exact .inr (by decide)
  obtain ⟨⟨hhigh, hseen, -, hold⟩, -⟩ := delivered_window_is_the_reference_map hr []
  have hhigh : h.window.highWater = some 5000 := hhigh
  refine ⟨(hseen _).mpr ⟨⟨[9], by decide⟩, 5000, hhigh, by decide⟩, ?_,
    (hold _).mpr ⟨5000, hhigh, by decide⟩⟩
  rw [← Bool.not_eq_true, hseen]
  rintro ⟨⟨bytes, hmem⟩, -⟩
  have : (4097 : U64) ∈ h.inserted.map Prod.fst := List.mem_map_of_mem hmem
  exact absurd this (by decide)

end DeliveredWindow

end Redundant

end R8
