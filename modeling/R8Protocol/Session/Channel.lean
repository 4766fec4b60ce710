import R8Protocol.Lib.Machine
import R8Protocol.Session.Layout

/-! Two mirrored sessions over a network that may do anything with the packets between them. -/
namespace R8.Session

open FixedWidth Wire

/-- Opening in the ideal sense: it succeeds on what a recorded call of `seal` produced. -/
def idealAead (C : Crypto) (calls : List SealCall) : Crypto :=
  { C with
    aeadDecrypt := fun key n aad data tag =>
      (calls.find? fun call => call.key = key ∧ nonce call.counter = .ok n ∧ call.aad = aad ∧
        C.aeadEncrypt key n aad call.plaintext = (data, tag)).map SealCall.plaintext }

theorem idealAead_open {C : Crypto} {calls : List SealCall} {key : Bytes 32} {n : Bytes 12}
    {aad data plaintext : List Byte} {tag : Bytes 16}
    (h : (idealAead C calls).aeadDecrypt key n aad data tag = some plaintext) :
    ∃ call ∈ calls, call.key = key ∧ nonce call.counter = .ok n ∧ call.aad = aad ∧
      call.plaintext = plaintext ∧ C.aeadEncrypt key n aad plaintext = (data, tag) := by
  simp only [idealAead, Option.map_eq_some_iff] at h
  obtain ⟨call, hfind, rfl⟩ := h
  have hp := List.find?_some hfind
  simp only [decide_eq_true_eq] at hp
  obtain ⟨hkey, hn, haad, hc⟩ := hp
  exact ⟨call, List.mem_of_find?_eq_some hfind, hkey, hn, haad, rfl, hc⟩

namespace Channel

inductive Side
  | left | right
  deriving DecidableEq, Repr

instance : Fintype Side := ⟨{.left, .right}, fun side => by cases side <;> simp⟩

def Side.peer : Side → Side
  | .left => .right
  | .right => .left

@[simp] theorem Side.peer_peer (side : Side) : side.peer.peer = side := by cases side <;> rfl

theorem Side.peer_ne (side : Side) : side.peer ≠ side := by
  cases side <;> simp [Side.peer]

theorem Side.eq_or_eq_peer (a b : Side) : a = b ∨ a = b.peer := by
  cases a <;> cases b <;> simp [Side.peer]

/-- A preview in either layout. -/
inductive Preview
  | generic (preview : ProtectedPreview)
  | profile3 (preview : Profile3DataPreview)
  deriving DecidableEq, Repr

def Preview.receiveOwner : Preview → ℕ
  | .generic p => p.receiveOwner
  | .profile3 p => p.receiveOwner

def Preview.token : Preview → ReplayCommit
  | .generic p => p.commit
  | .profile3 p => p.commit

def Preview.plaintext : Preview → List Byte
  | .generic p => p.plaintext
  | .profile3 p => p.plaintext

def Preview.deliveryId : Preview → Option U64
  | .generic _ => none
  | .profile3 p => some p.deliveryId

/-- What a caller gave to `encrypt` (no delivery id) or to `encrypt_profile3_data`, and the packet
it got back. -/
structure Sent where
  side : Side
  deliveryId : Option U64
  plaintext : List Byte
  packet : List Byte
  deriving DecidableEq, Repr

/-- A preview with the session that made it and the packet it was made of. -/
structure Receipt where
  side : Side
  packet : List Byte
  preview : Preview
  deriving DecidableEq, Repr

/-- A commit that succeeded on `side`, with what it returned. -/
structure Accepted where
  side : Side
  receipt : Receipt
  deliveryId : Option U64
  plaintext : List Byte
  deriving DecidableEq, Repr

structure World where
  sessions : Side → DirectionalSession
  calls : List SealCall
  sent : List Sent
  issued : List Receipt
  accepted : List Accepted

inductive Call
  | encrypt (side : Side) (header : Header) (typ : Byte) (plaintext : List Byte) (budget : ℕ)
  | encryptProfile3Data (side : Side) (header : Header) (deliveryId : U64)
      (plaintext : List Byte) (budget : ℕ)
  | sealElsewhere (call : SealCall)
  | preview (side : Side) (packet : List Byte)
  | previewProfile3Data (side : Side) (packet : List Byte)
  | commit (side : Side) (receipt : Receipt)
  | commitReplay (side : Side) (receipt : Receipt)

/-- `commit` and `commit_profile3_data`. -/
def commitPreview (s : DirectionalSession) :
    Preview → DirectionalSession × Option (Option U64 × List Byte)
  | .generic p =>
    match s.commit p with
    | (s, .ok plaintext) => (s, some (none, plaintext))
    | (s, .error _) => (s, none)
  | .profile3 p =>
    match s.commitProfile3Data p with
    | (s, .ok (deliveryId, plaintext)) => (s, some (some deliveryId, plaintext))
    | (s, .error _) => (s, none)

/-- `commit_protected_replay` and `commit_profile3_replay`, whose callers have read the preview. -/
def commitReplayProof (s : DirectionalSession) :
    Preview → DirectionalSession × Option (Option U64 × List Byte)
  | .generic p =>
    match s.commitProtectedReplay p.intoReplayProof with
    | (s, _, .ok ()) => (s, some (none, p.plaintext))
    | (s, _, .error _) => (s, none)
  | .profile3 p =>
    match s.commitProfile3Replay p.intoReplayProof with
    | (s, _, .ok ()) => (s, some (some p.deliveryId, p.plaintext))
    | (s, _, .error _) => (s, none)

namespace World

def send (w : World) (side : Side) (deliveryId : Option U64) (plaintext : List Byte)
    (r : DirectionalSession × List SealCall × Except SessionError (List Byte)) : World :=
  { w with
    sessions := Function.update w.sessions side r.1
    calls := r.2.1 ++ w.calls
    sent := match r.2.2 with
      | .ok packet => ⟨side, deliveryId, plaintext, packet⟩ :: w.sent
      | .error _ => w.sent }

def issue (w : World) (side : Side) (packet : List Byte) :
    Except SessionError Preview → World
  | .ok preview => { w with issued := ⟨side, packet, preview⟩ :: w.issued }
  | .error _ => w

def accept (w : World) (side : Side) (receipt : Receipt)
    (r : DirectionalSession × Option (Option U64 × List Byte)) : World :=
  { w with
    sessions := Function.update w.sessions side r.1
    accepted := match r.2 with
      | some (deliveryId, plaintext) => ⟨side, receipt, deliveryId, plaintext⟩ :: w.accepted
      | none => w.accepted }

def step (C : Crypto) (w : World) : Call → World
  | .encrypt side header typ plaintext budget =>
    w.send side none plaintext ((w.sessions side).encrypt C header typ plaintext budget)
  | .encryptProfile3Data side header deliveryId plaintext budget =>
    w.send side (some deliveryId) plaintext
      ((w.sessions side).encryptProfile3Data C header deliveryId plaintext budget)
  | .sealElsewhere call => { w with calls := call :: w.calls }
  | .preview side packet =>
    w.issue side packet (.generic <$> (w.sessions side).preview (idealAead C w.calls) packet)
  | .previewProfile3Data side packet =>
    w.issue side packet
      (.profile3 <$> (w.sessions side).previewProfile3Data (idealAead C w.calls) packet)
  | .commit side receipt =>
    w.accept side receipt (commitPreview (w.sessions side) receipt.preview)
  | .commitReplay side receipt =>
    w.accept side receipt (commitReplayProof (w.sessions side) receipt.preview)

/-- Nobody else holds the two keys, and previews come from these sessions or from other ones. -/
def Permitted (w : World) : Call → Prop
  | .sealElsewhere call => ∀ side, call.key ≠ (w.sessions side).sendKey
  | .commit _ receipt | .commitReplay _ receipt =>
    receipt ∈ w.issued ∨ ∀ side, receipt.preview.receiveOwner ≠ (w.sessions side).receiveOwner
  | _ => True

/-- Two new sessions under the same two keys, the other way round. -/
def start (key : Side → Bytes 32) (hash : Bytes 32) (budget owner : Side → ℕ) : World where
  sessions side := .new (owner side) (key side) (key side.peer) hash (budget side)
  calls := []
  sent := []
  issued := []
  accepted := []

/-- The keys come from two different info strings, the owners from one counter. -/
def Starts (w : World) : Prop :=
  ∃ key hash budget owner, key .left ≠ key .right ∧ owner .left ≠ owner .right ∧
    w = start key hash budget owner

end World

/-- The counter a protected packet carries. -/
def counterOf (packet : List Byte) : U64 := u64Of (packet.drop 52)

/-- Where the ciphertext starts in either layout. -/
def offset : Option U64 → ℕ
  | none => 60
  | some _ => 68

def committed (w : World) (side : Side) : List U64 :=
  (w.accepted.filter fun x => x.side = side).map fun x => counterOf x.receipt.packet

/-- A packet is what a side sent, but for the hop limit. -/
def Sends (w : World) (side : Side) (deliveryId : Option U64) (plaintext packet : List Byte) :
    Prop :=
  ∃ s ∈ w.sent, s.side = side ∧ s.deliveryId = deliveryId ∧ s.plaintext = plaintext ∧
    packet.set 5 0 = s.packet.set 5 0

/-- The keys cross over, and the sessions can be told apart. -/
structure Paired (w : World) : Prop where
  mirrored : ∀ side, (w.sessions side).receiveKey = (w.sessions side.peer).sendKey
  keys : (w.sessions .left).sendKey ≠ (w.sessions .right).sendKey
  owners : (w.sessions .left).receiveOwner ≠ (w.sessions .right).receiveOwner

/-- Every call of `seal` under a session's key belongs to one packet, sent unless no receiver can
read its header. -/
structure Sealing (C : Crypto) (w : World) : Prop where
  below : ∀ call ∈ w.calls, ∀ side, call.key = (w.sessions side).sendKey →
    call.counter < (w.sessions side).sendCounters.next
  unique : ∀ x ∈ w.calls, ∀ y ∈ w.calls, ∀ side, x.key = (w.sessions side).sendKey →
    y.key = (w.sessions side).sendKey → x.counter = y.counter → x = y
  sealed : ∀ call ∈ w.calls, ∀ side, call.key = (w.sessions side).sendKey →
    ∃ deliveryId packet, Image C (offset deliveryId) call packet ∧
      (⟨side, deliveryId, call.plaintext, packet⟩ ∈ w.sent ∨ Unopenable packet)
  sent : ∀ s ∈ w.sent, ∃ call ∈ w.calls, call.key = (w.sessions s.side).sendKey ∧
    Image C (offset s.deliveryId) call s.packet ∧
    ∀ id ∈ s.deliveryId, u64Of (s.packet.drop 60) = id

/-- Previews are of packets the peer sent, and the window has marked the accepted ones. -/
structure Receiving (w : World) : Prop where
  issued : ∀ r ∈ w.issued, r.preview.receiveOwner = (w.sessions r.side).receiveOwner ∧
    r.preview.token.counter = counterOf r.packet ∧
    Sends w r.side.peer r.preview.deliveryId r.preview.plaintext r.packet
  replay : ∀ side, (w.sessions side).replay.Refines (committed w side)
  accepted : ∀ x ∈ w.accepted, x.receipt ∈ w.issued ∧ x.receipt.side = x.side ∧
    x.deliveryId = x.receipt.preview.deliveryId ∧ x.plaintext = x.receipt.preview.plaintext
  once : w.accepted.Pairwise fun x y => x.side = y.side →
    counterOf x.receipt.packet ≠ counterOf y.receipt.packet

structure Invariant (C : Crypto) (w : World) : Prop where
  paired : Paired w
  sealing : Sealing C w
  receiving : Receiving w

variable {C : Crypto} {w w' : World} {side : Side} {packet plaintext : List Byte}
  {deliveryId : Option U64}

theorem invariant_starts (h : World.Starts w) : Invariant C w := by
  obtain ⟨key, hash, budget, owner, hkey, howner, rfl⟩ := h
  refine ⟨⟨fun _ => rfl, hkey, howner⟩, ?_, ?_⟩
  · constructor <;> simp [World.start]
  · constructor
    case replay =>
      intro side
      exact ReplayWindow.Refines.new
    all_goals simp [World.start]

theorem counterOf_eq {packet packet' : List Byte} (h : packet.set 5 0 = packet'.set 5 0) :
    counterOf packet = counterOf packet' := by
  have := congrArg (List.drop 52) h
  simpa [counterOf, List.drop_set] using congrArg u64Of this

theorem Sends.mono (h : Sends w side deliveryId plaintext packet)
    (hs : ∀ s ∈ w.sent, s ∈ w'.sent) : Sends w' side deliveryId plaintext packet := by
  obtain ⟨s, hmem, hs'⟩ := h
  exact ⟨s, hs s hmem, hs'⟩

theorem Paired.sendKey_inj (hp : Paired w) {a b : Side}
    (h : (w.sessions a).sendKey = (w.sessions b).sendKey) : a = b := by
  have hk := hp.keys
  cases a <;> cases b <;> simp_all

theorem Paired.receiveOwner_inj (hp : Paired w) {a b : Side}
    (h : (w.sessions a).receiveOwner = (w.sessions b).receiveOwner) : a = b := by
  have hk := hp.owners
  cases a <;> cases b <;> simp_all

/-- What no step changes. -/
structure Kept (w w' : World) : Prop where
  sendKey : ∀ side, (w'.sessions side).sendKey = (w.sessions side).sendKey
  receiveKey : ∀ side, (w'.sessions side).receiveKey = (w.sessions side).receiveKey
  receiveOwner : ∀ side, (w'.sessions side).receiveOwner = (w.sessions side).receiveOwner

theorem kept_update {s : DirectionalSession} (hs : w'.sessions = Function.update w.sessions side s)
    (h1 : s.sendKey = (w.sessions side).sendKey) (h2 : s.receiveKey = (w.sessions side).receiveKey)
    (h3 : s.receiveOwner = (w.sessions side).receiveOwner) : Kept w w' := by
  have hfield : ∀ x, x = side ∨ w'.sessions x = w.sessions x := by
    intro x
    by_cases hx : x = side
    · exact .inl hx
    · exact .inr (by rw [hs, Function.update_of_ne hx])
  have hside : w'.sessions side = s := by rw [hs, Function.update_self]
  refine ⟨?_, ?_, ?_⟩ <;> intro x <;> rcases hfield x with rfl | hx <;> simp_all

theorem Paired.kept (hp : Paired w) (hk : Kept w w') : Paired w' := by
  constructor
  · intro side
    rw [hk.receiveKey, hk.sendKey, hp.mirrored]
  · rw [hk.sendKey, hk.sendKey]
    exact hp.keys
  · rw [hk.receiveOwner, hk.receiveOwner]
    exact hp.owners

theorem Sealing.same (hs : Sealing C w) (hk : Kept w w')
    (hn : ∀ side, (w.sessions side).sendCounters.next ≤ (w'.sessions side).sendCounters.next)
    (hcalls : w'.calls = w.calls) (hsent : w'.sent = w.sent) : Sealing C w' := by
  obtain ⟨hbelow, hunique, hsealed, hsends⟩ := hs
  constructor
  · intro call hcall side hkey
    rw [hcalls] at hcall
    rw [hk.sendKey] at hkey
    exact (hbelow call hcall side hkey).trans_le (hn side)
  · simpa only [hcalls, hk.sendKey] using hunique
  · simpa only [hcalls, hk.sendKey, hsent] using hsealed
  · simpa only [hcalls, hk.sendKey, hsent] using hsends

theorem Sealing.elsewhere (hs : Sealing C w) {call : SealCall}
    (hkey : ∀ side, call.key ≠ (w.sessions side).sendKey) :
    Sealing C { w with calls := call :: w.calls } := by
  constructor
  · intro c hc side hside
    rcases List.mem_cons.mp hc with rfl | hc
    · exact absurd hside (hkey side)
    · exact hs.below c hc side hside
  · intro x hx y hy side hxs hys
    rcases List.mem_cons.mp hx with rfl | hx
    · exact absurd hxs (hkey side)
    · rcases List.mem_cons.mp hy with rfl | hy
      · exact absurd hys (hkey side)
      · exact hs.unique x hx y hy side hxs hys
  · intro c hc side hside
    rcases List.mem_cons.mp hc with rfl | hc
    · exact absurd hside (hkey side)
    · exact hs.sealed c hc side hside
  · intro s hmem
    obtain ⟨c, hc, h⟩ := hs.sent s hmem
    exact ⟨c, List.mem_cons_of_mem _ hc, h⟩

/-- A session seals once more: the counter is new under its key, so the call is. -/
theorem Sealing.call (hp : Paired w) (hs : Sealing C w) {call : SealCall}
    (hk : Kept w w') (hcalls : w'.calls = call :: w.calls)
    (hsent : w'.sent = ⟨side, deliveryId, call.plaintext, packet⟩ :: w.sent ∨
      w'.sent = w.sent ∧ Unopenable packet)
    (hkey : call.key = (w.sessions side).sendKey)
    (hcounter : call.counter = (w.sessions side).sendCounters.next)
    (hnext : (w.sessions side).sendCounters.next < (w'.sessions side).sendCounters.next)
    (hother : ∀ x, x ≠ side → w'.sessions x = w.sessions x)
    (himage : Image C (offset deliveryId) call packet)
    (hid : ∀ id ∈ deliveryId, u64Of (packet.drop 60) = id) : Sealing C w' := by
  have hold : ∀ s ∈ w.sent, s ∈ w'.sent := by
    intro s hmem
    rcases hsent with h | ⟨h, -⟩ <;> simp [h, hmem]
  constructor
  · intro c hc x hx
    rw [hk.sendKey] at hx
    rcases List.mem_cons.mp (hcalls ▸ hc) with rfl | hc
    · obtain rfl := hp.sendKey_inj (hkey.symm.trans hx)
      exact hcounter ▸ hnext
    · have hb := hs.below c hc x hx
      by_cases hxs : x = side
      · subst hxs
        exact hb.trans hnext
      · rwa [hother x hxs]
  · intro x hx y hy z hxz hyz heq
    rw [hk.sendKey] at hxz hyz
    rcases List.mem_cons.mp (hcalls ▸ hx) with rfl | hx <;>
      rcases List.mem_cons.mp (hcalls ▸ hy) with rfl | hy
    · rfl
    · obtain rfl := hp.sendKey_inj (hkey.symm.trans hxz)
      have := hs.below y hy _ hyz
      rw [← heq, hcounter] at this
      exact absurd this (lt_irrefl _)
    · obtain rfl := hp.sendKey_inj (hkey.symm.trans hyz)
      have := hs.below x hx _ hxz
      rw [heq, hcounter] at this
      exact absurd this (lt_irrefl _)
    · exact hs.unique x hx y hy z hxz hyz heq
  · intro c hc x hx
    rw [hk.sendKey] at hx
    rcases List.mem_cons.mp (hcalls ▸ hc) with rfl | hc
    · obtain rfl := hp.sendKey_inj (hkey.symm.trans hx)
      refine ⟨deliveryId, packet, himage, ?_⟩
      rcases hsent with h | ⟨-, hun⟩
      · exact .inl (h ▸ List.mem_cons_self)
      · exact .inr hun
    · obtain ⟨d, p, hi, h⟩ := hs.sealed c hc x hx
      exact ⟨d, p, hi, h.imp_left (hold _)⟩
  · intro s hmem
    rw [hcalls]
    simp only [hk.sendKey]
    have hcase : s = ⟨side, deliveryId, call.plaintext, packet⟩ ∨ s ∈ w.sent := by
      rcases hsent with h | ⟨h, -⟩
      · exact List.mem_cons.mp (h ▸ hmem)
      · exact .inr (h ▸ hmem)
    rcases hcase with rfl | hmem
    · exact ⟨call, List.mem_cons_self, hkey, himage, hid⟩
    · obtain ⟨c, hc, h⟩ := hs.sent s hmem
      exact ⟨c, List.mem_cons_of_mem _ hc, h⟩

theorem Receiving.same (hr : Receiving w) (hk : Kept w w')
    (hreplay : ∀ side, (w'.sessions side).replay = (w.sessions side).replay)
    (hissued : w'.issued = w.issued) (haccepted : w'.accepted = w.accepted)
    (hsent : ∀ s ∈ w.sent, s ∈ w'.sent) : Receiving w' := by
  obtain ⟨hi, hrep, ha, ho⟩ := hr
  constructor
  · intro r hmem
    obtain ⟨h1, h2, h3⟩ := hi r (hissued ▸ hmem)
    exact ⟨by rw [h1, hk.receiveOwner], h2, h3.mono hsent⟩
  · simpa only [hreplay, committed, haccepted] using hrep
  · simpa only [hissued, haccepted] using ha
  · simpa only [haccepted] using ho

theorem Invariant.send_nothing (hi : Invariant C w)
    {r : DirectionalSession × List SealCall × Except SessionError (List Byte)}
    (hcalls : r.2.1 = []) (herr : ∃ e, r.2.2 = .error e)
    (hr : ∃ c, r.1 = { w.sessions side with sendCounters := c } ∧
      (w.sessions side).sendCounters.next ≤ c.next) :
    Invariant C (w.send side deliveryId plaintext r) := by
  obtain ⟨s, calls, out⟩ := r
  obtain ⟨e, rfl⟩ := herr
  obtain ⟨c, rfl, hc⟩ := hr
  obtain rfl := hcalls
  have hk : Kept w (w.send side deliveryId plaintext
      ({ w.sessions side with sendCounters := c }, [], .error e)) := kept_update rfl rfl rfl rfl
  refine ⟨hi.paired.kept hk, hi.sealing.same hk ?_ rfl rfl,
    hi.receiving.same hk ?_ rfl rfl fun _ h => h⟩ <;> intro x <;> by_cases hx : x = side
  · subst hx
    simpa [World.send] using hc
  · simp [World.send, hx]
  · subst hx
    simp [World.send]
  · simp [World.send, hx]

theorem Invariant.send_call (hi : Invariant C w) {call : SealCall}
    {r : DirectionalSession × List SealCall × Except SessionError (List Byte)}
    (hcalls : r.2.1 = [call]) (hs : Seals (w.sessions side) r.1 call plaintext)
    (himage : Image C (offset deliveryId) call packet)
    (hid : ∀ id ∈ deliveryId, u64Of (packet.drop 60) = id)
    (hout : r.2.2 = .ok packet ∨ (∃ e, r.2.2 = .error e) ∧ Unopenable packet) :
    Invariant C (w.send side deliveryId plaintext r) := by
  obtain ⟨s, calls, out⟩ := r
  obtain rfl := hcalls
  obtain ⟨hkey, hcounter, rfl, -, hbelow, rfl⟩ := hs
  have hk : Kept w (w.send side deliveryId call.plaintext
      ({ w.sessions side with sendCounters := ⟨satAdd (w.sessions side).sendCounters.next 1⟩ },
        [call], out)) := kept_update rfl rfl rfl rfl
  have hsent : ∀ x ∈ w.sent, x ∈ (w.send side deliveryId call.plaintext
      ({ w.sessions side with sendCounters := ⟨satAdd (w.sessions side).sendCounters.next 1⟩ },
        [call], out)).sent := by
    intro x hx
    cases out <;> simp [World.send, hx]
  refine ⟨hi.paired.kept hk, ?_, hi.receiving.same hk ?_ rfl rfl hsent⟩
  · refine Sealing.call hi.paired hi.sealing hk rfl ?_ hkey hcounter ?_ ?_ himage hid
    · rcases hout with h | ⟨⟨e, h⟩, hun⟩
      · simp only at h
        subst h
        exact .inl rfl
      · simp only at h
        subst h
        exact .inr ⟨rfl, hun⟩
    · have hlt := (w.sessions side).sendCounters.next.isLt
      have hne : (w.sessions side).sendCounters.next.val ≠ 2 ^ 64 - 1 := by
        rw [← u64Max_val]
        exact Fin.val_ne_of_ne hbelow
      simp only [World.send, Function.update_self, Fin.lt_def, satAdd_val]
      omega
    · intro x hx
      simp [World.send, hx]
  · intro x
    by_cases hx : x = side
    · subst hx
      simp [World.send]
    · simp [World.send, hx]

/-- What opens on one side was sent by the other, in the same layout. -/
theorem Invariant.opens (hi : Invariant C w) {token : ReplayCommit}
    (ho : Opens (idealAead C w.calls) (w.sessions side) (offset deliveryId) packet plaintext token) :
    ∃ s ∈ w.sent, s.side = side.peer ∧ offset s.deliveryId = offset deliveryId ∧
      s.plaintext = plaintext ∧ packet.set 5 0 = s.packet.set 5 0 := by
  obtain ⟨n, hn, data, tag, hdrop, hopen⟩ := ho.opened
  obtain ⟨call, hcall, hkey, hnonce, haad, rfl, hseal⟩ := idealAead_open hopen
  obtain ⟨d, packet', himage, hsent⟩ :=
    hi.sealing.sealed call hcall side.peer (hkey.trans (hi.paired.mirrored side))
  obtain ⟨n', hn', hdrop'⟩ := himage.body
  obtain rfl : n = n' := by simpa [hnonce] using hn'
  rw [← hkey, ← haad] at hseal
  rw [hseal] at hdrop'
  have hlong := ho.long
  have hlong' := himage.long
  -- the associated data is as long as the part in front of the ciphertext
  have hoff : offset d = offset deliveryId := by
    have := congrArg List.length (haad.symm.trans himage.aad)
    simp only [List.length_set, List.length_take] at this
    omega
  have hsame : packet.set 5 0 = packet'.set 5 0 := by
    have hpos : 5 < offset deliveryId := by cases deliveryId <;> simp [offset]
    calc packet.set 5 0
        = (packet.take (offset deliveryId)).set 5 0 ++ packet.drop (offset deliveryId) :=
          (set_take_append_drop packet hpos (by omega)).symm
      _ = (packet'.take (offset d)).set 5 0 ++ packet'.drop (offset d) := by
          rw [← haad, himage.aad, hdrop, hdrop']
      _ = packet'.set 5 0 := set_take_append_drop packet' (hoff ▸ hpos) (by omega)
  rcases hsent with hsent | hun
  · exact ⟨_, hsent, rfl, hoff, rfl, hsame⟩
  · obtain ⟨r, hr⟩ := ho.unpacks
    exact absurd hr (hun packet _ r hsame)

/-- The token of an opened packet holds the counter of its bytes. -/
theorem Invariant.token_counter (hi : Invariant C w) {k : ℕ} {token : ReplayCommit}
    (ho : Opens (idealAead C w.calls) (w.sessions side) k packet plaintext token) :
    token.counter = counterOf packet := by
  rw [(ReplayWindow.preview_eq_ok (hi.receiving.replay side) ho.replay).2]
  rfl

theorem Invariant.issue (hi : Invariant C w) {p : Preview}
    (howner : p.receiveOwner = (w.sessions side).receiveOwner)
    (hcounter : p.token.counter = counterOf packet)
    (hsends : Sends w side.peer p.deliveryId p.plaintext packet) :
    Invariant C { w with issued := ⟨side, packet, p⟩ :: w.issued } := by
  refine ⟨⟨hi.paired.mirrored, hi.paired.keys, hi.paired.owners⟩,
    ⟨hi.sealing.below, hi.sealing.unique, hi.sealing.sealed, hi.sealing.sent⟩,
    ⟨?_, hi.receiving.replay, ?_, hi.receiving.once⟩⟩
  · intro r hr
    rcases List.mem_cons.mp hr with rfl | hr
    · exact ⟨howner, hcounter, hsends⟩
    · exact hi.receiving.issued r hr
  · intro x hx
    obtain ⟨hmem, h⟩ := hi.receiving.accepted x hx
    exact ⟨List.mem_cons_of_mem _ hmem, h⟩

theorem Invariant.preview (hi : Invariant C w) (side : Side) (packet : List Byte) :
    Invariant C (w.step C (.preview side packet)) := by
  simp only [World.step]
  cases hp : (w.sessions side).preview (idealAead C w.calls) packet with
  | error e => exact hi
  | ok p =>
    obtain ⟨ho, howner⟩ := preview_opens hp
    have hlayout : Opens (idealAead C w.calls) (w.sessions side) (offset none) packet p.plaintext
        p.commit := ho
    obtain ⟨s, hs, hside, hoff, hplain, hsame⟩ := hi.opens hlayout
    refine hi.issue howner (hi.token_counter ho) ⟨s, hs, hside, ?_, hplain, hsame⟩
    cases hd : s.deliveryId with
    | none => rfl
    | some id => simp [hd, offset] at hoff

theorem Invariant.previewProfile3Data (hi : Invariant C w) (side : Side) (packet : List Byte) :
    Invariant C (w.step C (.previewProfile3Data side packet)) := by
  simp only [World.step]
  cases hp : (w.sessions side).previewProfile3Data (idealAead C w.calls) packet with
  | error e => exact hi
  | ok p =>
    obtain ⟨ho, howner, hid⟩ := previewProfile3Data_opens hp
    have hlayout : Opens (idealAead C w.calls) (w.sessions side) (offset (some p.deliveryId)) packet
        p.plaintext p.commit := ho
    obtain ⟨s, hs, hside, hoff, hplain, hsame⟩ := hi.opens hlayout
    refine hi.issue howner (hi.token_counter ho) ⟨s, hs, hside, ?_, hplain, hsame⟩
    cases hd : s.deliveryId with
    | none => simp [hd, offset] at hoff
    | some id =>
      obtain ⟨call, -, -, -, hsid⟩ := hi.sealing.sent s hs
      have hdrop := congrArg (List.drop 60) hsame
      simp only [List.drop_set] at hdrop
      have hdeliver : s.deliveryId = some p.deliveryId := by
        rw [hid, hd, ← hsid id hd]
        simpa using congrArg u64Of hdrop.symm
      rw [← hd, hdeliver]
      rfl

/-- A commit by either function: nothing changes, or this session's window takes the counter. -/
def Commits (s : DirectionalSession) (cs : List U64) (p : Preview)
    (r : DirectionalSession × Option (Option U64 × List Byte)) : Prop :=
  r = (s, none) ∨
    s.receiveOwner = p.receiveOwner ∧ ReplayWindow.Fresh cs p.token.counter ∧
      ∃ replay, r = ({ s with replay }, some (p.deliveryId, p.plaintext)) ∧
        replay.Refines (p.token.counter :: cs)

variable {s : DirectionalSession} {cs : List U64}

theorem commitPreview_eq (s : DirectionalSession) (p : Preview) :
    commitPreview s p = if s.receiveOwner ≠ p.receiveOwner then (s, none) else
      match s.replay.commit p.token with
      | (replay, .error _) => ({ s with replay }, none)
      | (replay, .ok ()) => ({ s with replay }, some (p.deliveryId, p.plaintext)) := by
  by_cases howner : s.receiveOwner = p.receiveOwner
  · rw [if_neg (not_not.mpr howner)]
    cases p with
    | generic p =>
      simp only [Preview.receiveOwner] at howner
      simp only [commitPreview, DirectionalSession.commit, Preview.token]
      rw [if_neg (not_not.mpr howner)]
      rcases s.replay.commit p.commit with ⟨replay, _ | _⟩ <;> rfl
    | profile3 p =>
      simp only [Preview.receiveOwner] at howner
      simp only [commitPreview, DirectionalSession.commitProfile3Data, Preview.token]
      rw [if_neg (not_not.mpr howner)]
      rcases s.replay.commit p.commit with ⟨replay, _ | _⟩ <;> rfl
  · rw [if_pos howner]
    cases p with
    | generic p =>
      simp only [Preview.receiveOwner] at howner
      simp only [commitPreview, DirectionalSession.commit]
      rw [if_pos howner]
    | profile3 p =>
      simp only [Preview.receiveOwner] at howner
      simp only [commitPreview, DirectionalSession.commitProfile3Data]
      rw [if_pos howner]

theorem commitReplayProof_eq (s : DirectionalSession) (p : Preview) :
    commitReplayProof s p = commitPreview s p := by
  cases p with
  | generic p =>
    simp only [commitReplayProof, commitPreview, DirectionalSession.commitProtectedReplay,
      ProtectedPreview.intoReplayProof, DirectionalSession.commit]
    by_cases howner : s.receiveOwner = p.receiveOwner
    · rcases s.replay.commit p.commit with ⟨replay, _ | _⟩ <;> simp [howner]
    · simp [howner]
  | profile3 p =>
    simp only [commitReplayProof, commitPreview, DirectionalSession.commitProfile3Replay,
      Profile3DataPreview.intoReplayProof, DirectionalSession.commitProfile3Data]
    by_cases howner : s.receiveOwner = p.receiveOwner
    · rcases s.replay.commit p.commit with ⟨replay, _ | _⟩ <;> simp [howner]
    · simp [howner]

theorem commitPreview_commits (h : s.replay.Refines cs) (p : Preview) :
    Commits s cs p (commitPreview s p) := by
  rw [commitPreview_eq]
  by_cases howner : s.receiveOwner = p.receiveOwner
  · rw [if_neg (by simpa using howner)]
    rcases ReplayWindow.commit_cases h p.token with ⟨e, he⟩ | ⟨hf, replay, he, hr⟩
    · left
      rw [he]
    · exact .inr ⟨howner, hf, replay, by rw [he], hr⟩
  · exact .inl (if_pos howner)

theorem Invariant.accept_one (hi : Invariant C w) {r : Receipt} {replay : ReplayWindow}
    (hr : r ∈ w.issued) (hside : r.side = side)
    (hf : ReplayWindow.Fresh (committed w side) r.preview.token.counter)
    (hreplay : replay.Refines (r.preview.token.counter :: committed w side)) :
    Invariant C (w.accept side r ({ w.sessions side with replay },
      some (r.preview.deliveryId, r.preview.plaintext))) := by
  obtain ⟨-, hcounter, -⟩ := hi.receiving.issued r hr
  have hk : Kept w (w.accept side r ({ w.sessions side with replay },
      some (r.preview.deliveryId, r.preview.plaintext))) := kept_update rfl rfl rfl rfl
  refine ⟨hi.paired.kept hk, hi.sealing.same hk ?_ rfl rfl, ?_, ?_, ?_, ?_⟩
  · intro x
    by_cases hx : x = side
    · subst hx
      simp [World.accept]
    · simp [World.accept, hx]
  · intro r' hr'
    rw [hk.receiveOwner]
    exact hi.receiving.issued r' hr'
  · intro x
    by_cases hx : x = side
    · subst hx
      simpa [World.accept, committed, hcounter] using hreplay
    · have := hi.receiving.replay x
      simpa [World.accept, committed, hx, Ne.symm hx] using this
  · intro x hx
    rcases List.mem_cons.mp hx with rfl | hx
    · exact ⟨hr, hside, rfl, rfl⟩
    · exact hi.receiving.accepted x hx
  · refine List.pairwise_cons.mpr ⟨?_, hi.receiving.once⟩
    intro y hy hys heq
    refine hf.2.1 (List.mem_map.mpr ⟨y, List.mem_filter.mpr ⟨hy, ?_⟩, ?_⟩)
    · simpa using hys.symm
    · rw [hcounter]
      exact heq.symm

theorem Invariant.accept (hi : Invariant C w) {r : Receipt}
    {out : DirectionalSession × Option (Option U64 × List Byte)}
    (hr : r ∈ w.issued ∨ ∀ x, r.preview.receiveOwner ≠ (w.sessions x).receiveOwner)
    (hc : Commits (w.sessions side) (committed w side) r.preview out) :
    Invariant C (w.accept side r out) := by
  rcases hc with rfl | ⟨howner, hf, replay, rfl, hreplay⟩
  · simpa [World.accept] using hi
  · rcases hr with hr | hr
    · have hside : r.side = side :=
        hi.paired.receiveOwner_inj ((hi.receiving.issued r hr).1.symm.trans howner.symm)
      exact hi.accept_one hr hside hf hreplay
    · exact absurd howner.symm (hr side)

theorem invariant_step {call : Call} (hi : Invariant C w) (hp : w.Permitted call) :
    Invariant C (w.step C call) := by
  cases call with
  | encrypt side header typ plaintext budget =>
    rcases encrypt_cases C (w.sessions side) header typ plaintext budget with
      ⟨hcalls, herr, hr⟩ | ⟨call, packet, hcalls, hs, himage, hout⟩
    · exact hi.send_nothing hcalls herr hr
    · exact hi.send_call hcalls hs himage (by simp) hout
  | encryptProfile3Data side header id plaintext budget =>
    rcases encryptProfile3Data_cases C (w.sessions side) header id plaintext budget with
      ⟨hcalls, herr, hr⟩ | ⟨call, packet, hcalls, hs, himage, hid, hout⟩
    · exact hi.send_nothing hcalls herr hr
    · exact hi.send_call hcalls hs himage (by simpa using hid) (.inl hout)
  | sealElsewhere call =>
    exact ⟨⟨hi.paired.mirrored, hi.paired.keys, hi.paired.owners⟩, hi.sealing.elsewhere hp,
      hi.receiving.same ⟨fun _ => rfl, fun _ => rfl, fun _ => rfl⟩ (fun _ => rfl) rfl rfl
        fun _ h => h⟩
  | preview side packet => exact hi.preview side packet
  | previewProfile3Data side packet => exact hi.previewProfile3Data side packet
  | commit side r =>
    exact hi.accept hp (commitPreview_commits (hi.receiving.replay side) r.preview)
  | commitReplay side r =>
    refine hi.accept hp ?_
    rw [commitReplayProof_eq]
    exact commitPreview_commits (hi.receiving.replay side) r.preview

theorem invariant_reach (hr : Machine.Reach World.Starts (World.step C) World.Permitted w) :
    Invariant C w :=
  hr.invariant (fun _ => invariant_starts) fun _ _ => invariant_step

/-- A sent packet opens in its own layout only: one call of `seal` has one associated data. -/
theorem Invariant.layout (hi : Invariant C w) {x : Sent} {token : ReplayCommit} (hx : x ∈ w.sent)
    (hsame : packet.set 5 0 = x.packet.set 5 0)
    (ho : Opens (idealAead C w.calls) (w.sessions x.side.peer) (offset deliveryId) packet plaintext
      token) : offset x.deliveryId = offset deliveryId := by
  obtain ⟨y, hy, hside, hoff, -, hsame'⟩ := hi.opens ho
  rw [Side.peer_peer] at hside
  obtain ⟨cx, hcx, hkx, hix, -⟩ := hi.sealing.sent x hx
  obtain ⟨cy, hcy, hky, hiy, -⟩ := hi.sealing.sent y hy
  rw [hside] at hky
  have hcounter : cx.counter = cy.counter := by
    rw [← hix.counter, ← hiy.counter]
    exact counterOf_eq (hsame.symm.trans hsame')
  obtain rfl := hi.sealing.unique cx hcx cy hcy x.side hkx hky hcounter
  have hlen := congrArg List.length (hix.aad.symm.trans hiy.aad)
  have hlx := hix.long
  have hly := hiy.long
  simp only [List.length_set, List.length_take] at hlen
  omega

theorem Invariant.commit_other (hi : Invariant C w) {r : Receipt} (hr : r ∈ w.issued)
    (hside : side ≠ r.side) :
    commitPreview (w.sessions side) r.preview = (w.sessions side, none) := by
  rw [commitPreview_eq, if_pos]
  intro howner
  exact hside (hi.paired.receiveOwner_inj (howner.trans (hi.receiving.issued r hr).1))

/-- The channel: what is committed was sent by the peer, up to the hop limit, and once; previews
stay with their session and packets with their layout. -/
theorem secure_channel (hr : Machine.Reach World.Starts (World.step C) World.Permitted w) :
    (∀ x ∈ w.accepted, ∃ s ∈ w.sent, s.side = x.side.peer ∧ s.deliveryId = x.deliveryId ∧
      s.plaintext = x.plaintext ∧ SameExceptHop x.receipt.packet s.packet) ∧
    (w.accepted.Pairwise fun x y => x.side = y.side → ∀ s ∈ w.sent,
      ¬ (SameExceptHop x.receipt.packet s.packet ∧ SameExceptHop y.receipt.packet s.packet)) ∧
    (∀ x ∈ w.accepted, x.receipt ∈ w.issued ∧ x.receipt.side = x.side) ∧
    (∀ r ∈ w.issued, ∀ side, side ≠ r.side →
      commitPreview (w.sessions side) r.preview = (w.sessions side, none)) ∧
    (∀ s ∈ w.sent, ∀ packet, SameExceptHop packet s.packet →
      (s.deliveryId = none → ∃ e,
        (w.sessions s.side.peer).previewProfile3Data (idealAead C w.calls) packet = .error e) ∧
      (s.deliveryId ≠ none → ∃ e,
        (w.sessions s.side.peer).preview (idealAead C w.calls) packet = .error e)) := by
  have hi := invariant_reach hr
  refine ⟨?_, ?_, ?_, ?_, ?_⟩
  · intro x hx
    obtain ⟨hissued, hside, hid, hplain⟩ := hi.receiving.accepted x hx
    obtain ⟨-, -, s, hs, hss, hsid, hsp, hsame⟩ := hi.receiving.issued _ hissued
    rw [← hid] at hsid
    rw [← hplain] at hsp
    rw [hside] at hss
    exact ⟨s, hs, hss, hsid, hsp, sameExceptHop_of_set hsame⟩
  · refine hi.receiving.once.imp ?_
    rintro x y hne hside s - ⟨hx, hy⟩
    exact hne hside (counterOf_eq ((set_of_sameExceptHop hx).trans (set_of_sameExceptHop hy).symm))
  · intro x hx
    exact ⟨(hi.receiving.accepted x hx).1, (hi.receiving.accepted x hx).2.1⟩
  · intro r hr side hside
    exact hi.commit_other hr hside
  · intro s hs packet hsame
    have hset := set_of_sameExceptHop hsame
    refine ⟨?_, ?_⟩
    · intro hnone
      cases hp : (w.sessions s.side.peer).previewProfile3Data (idealAead C w.calls) packet with
      | error e => exact ⟨e, rfl⟩
      | ok p =>
        have ho : Opens (idealAead C w.calls) (w.sessions s.side.peer) (offset (some p.deliveryId))
          packet p.plaintext p.commit := (previewProfile3Data_opens hp).1
        have := hi.layout hs hset ho
        simp [hnone, offset] at this
    · intro hsome
      cases hp : (w.sessions s.side.peer).preview (idealAead C w.calls) packet with
      | error e => exact ⟨e, rfl⟩
      | ok p =>
        have ho : Opens (idealAead C w.calls) (w.sessions s.side.peer) (offset none)
          packet p.plaintext p.commit := (preview_opens hp).1
        have := hi.layout hs hset ho
        obtain ⟨id, hid⟩ := Option.ne_none_iff_exists'.mp hsome
        simp [hid, offset] at this

namespace Sample

def start : World :=
  .start (fun side => if side = .left then bytesOf 32 3 else bytesOf 32 4) (bytesOf 32 9)
    (fun _ => 1280) fun side => if side = .left then 1 else 2

theorem starts : World.Starts start :=
  ⟨_, _, _, _, by decide, by decide, rfl⟩

/-- The left side sends one packet in either layout. -/
def sent : World :=
  let header : Header := ⟨3, 0, NH_SES, 64, 1, 0, 5, bytesOf 16 20, bytesOf 16 21⟩
  Machine.exec (World.step .sample) start [.encrypt .left header SESSION_DATA [1, 2, 3] 1280,
    .encryptProfile3Data .left header 7 [4, 5] 1280]

/-- A packet is shown to both receivers of the right side, and every preview so far is committed
by the left side and twice by the right one. -/
def receive (w : World) (packet : List Byte) : List Call :=
  let previews := [Call.preview .right packet, .previewProfile3Data .right packet]
  previews ++ (Machine.exec (World.step .sample) w previews).issued.flatMap fun r =>
    [.commit .left r, .commit .right r, .commit .right r]

def script : World → List (List Byte) → List Call
  | _, [] => []
  | w, p :: ps => receive w p ++ script (Machine.exec (World.step .sample) w (receive w p)) ps

/-- The packets arrive in the other order and with another hop limit. -/
def received : World :=
  Machine.exec (World.step .sample) sent (script sent (sent.sent.map fun s => s.packet.set 5 9))

instance (w : World) (call : Call) : Decidable (w.Permitted call) := by
  cases call <;> unfold World.Permitted <;> infer_instance

end Sample

theorem secure_channel_both_layouts :
    Sample.received.accepted.map (fun x => (x.side, x.deliveryId, x.plaintext)) =
      [(.right, none, [1, 2, 3]), (.right, some 7, [4, 5])] ∧
    ∀ x ∈ Sample.received.accepted, ∃ s ∈ Sample.received.sent, s.side = x.side.peer ∧
      s.deliveryId = x.deliveryId ∧ s.plaintext = x.plaintext ∧
      SameExceptHop x.receipt.packet s.packet := by
  have hsent : Machine.Reach World.Starts (World.step .sample) World.Permitted Sample.sent :=
    Machine.Reach.exec (.start Sample.starts) _ (by decide +kernel)
  have hr : Machine.Reach World.Starts (World.step .sample) World.Permitted Sample.received :=
    Machine.Reach.exec hsent _ (by decide +kernel)
  exact ⟨by decide +kernel, (secure_channel hr).1⟩

end Channel

end R8.Session
