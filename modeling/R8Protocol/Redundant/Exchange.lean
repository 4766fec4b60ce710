import R8Protocol.Redundant.Decision
import R8Protocol.Redundant.Sending
import R8Protocol.Session.Channel

/-! Two mirrored sessions over two paths, and a network that may do anything with their packets. -/
namespace R8.Redundant

open FixedWidth Wire Session Mobility
open Channel (Side)

/-- The keys of a session on each slot, and what else a sender relies on. -/
structure Keyed (C : Crypto) (send receive : Fin 2 → Bytes 32) (s : RedundantSession) : Prop where
  sessions : ∀ i d, (s.paths i).session = some d → d.sendKey = send i ∧ d.receiveKey = receive i
  schedule : ∀ b ∈ s.bootstrap, ∀ owner d, (b.takeSlot1AfterAdmission C owner).2 = .ok d →
    d.sendKey = send 1 ∧ d.receiveKey = receive 1
  cap : ∀ i, (s.paths i).budget ≤ SERIALIZED_R8_MAX
  boot : s.state = .active → s.bootstrap.isSome

section

variable {C : Crypto} {g : Option ℕ} {s s' : RedundantSession} {calls : List SealCall}
  {send receive : Fin 2 → Bytes 32}

theorem Keyed.setPath (h : Keyed C send receive s) (i : Fin 2) {p : Path}
    (hp : ∀ d ∈ p.session, d.sendKey = send i ∧ d.receiveKey = receive i)
    (hcap : p.budget ≤ SERIALIZED_R8_MAX) : Keyed C send receive (s.setPath i p) := by
  refine ⟨?_, h.schedule, ?_, h.boot⟩
  · intro j d hd
    by_cases hj : j = i
    · subst hj
      exact hp d (by simpa [RedundantSession.setPath] using hd)
    · exact h.sessions j d (by simpa [RedundantSession.setPath, hj] using hd)
  · intro j
    by_cases hj : j = i
    · subst hj
      simpa [RedundantSession.setPath] using hcap
    · simpa [RedundantSession.setPath, hj] using h.cap j

theorem takeSlot1AfterAdmission_spent (b : Profile3Bootstrap) (owner : ℕ) (d : DirectionalSession) :
    (({ b with schedule := none } : Profile3Bootstrap).takeSlot1AfterAdmission C owner).2 ≠ .ok d := by
  simp [Profile3Bootstrap.takeSlot1AfterAdmission]

theorem Move.keyed (hm : Move C g s calls s') (h : Keyed C send receive s) :
    Keyed C send receive s' := by
  cases hm with
  | frame hf =>
    refine ⟨?_, ?_, ?_, ?_⟩
    · rw [hf.paths]
      exact h.sessions
    · rw [hf.bootstrap]
      exact h.schedule
    · rw [hf.paths]
      exact h.cap
    · rw [hf.state, hf.bootstrap]
      exact h.boot
  | issue => exact ⟨h.sessions, h.schedule, h.cap, h.boot⟩
  | reread i d w hd =>
    refine h.setPath i ?_ (h.cap i)
    intro d' hd'
    obtain rfl := Option.mem_some_iff.mp hd'
    exact h.sessions i d hd
  | count i d c hd =>
    refine h.setPath i ?_ (h.cap i)
    intro d' hd'
    obtain rfl := Option.mem_some_iff.mp hd'
    exact h.sessions i d hd
  | send i d d' call out plaintext hd hs =>
    refine h.setPath i ?_ (h.cap i)
    intro e he
    obtain rfl := Option.mem_some_iff.mp he
    rw [hs.next]
    exact h.sessions i d hd
  | pop i => exact h.setPath i (h.sessions i) (h.cap i)
  | spend b hb =>
    refine ⟨h.sessions, ?_, h.cap, fun _ => rfl⟩
    intro b' hb' owner d hd
    obtain rfl := Option.mem_some_iff.mp hb'
    exact absurd hd (takeSlot1AfterAdmission_spent b owner d)
  | use b admission budget owner d hb ha h1 hbudget hd =>
    have hspent : Keyed C send receive { s with bootstrap := some { b with schedule := none } } := by
      refine ⟨h.sessions, ?_, h.cap, fun _ => rfl⟩
      intro b' hb' owner' d' hd'
      obtain rfl := Option.mem_some_iff.mp hb'
      exact absurd hd' (takeSlot1AfterAdmission_spent b owner' d')
    refine hspent.setPath 1 ?_ ?_
    · intro d' hd'
      obtain rfl := Option.mem_some_iff.mp hd'
      exact h.schedule b hb owner d hd
    · simp only [budgetAllowed, decide_eq_true_eq] at hbudget
      exact hbudget.2
  | retire i => exact h.setPath i (by simp [Path.clear]) (h.cap i)
  | remember id bytes nowMs =>
    obtain ⟨dedup, hframe⟩ := remember_frame C s id bytes nowMs
    rw [hframe]
    exact ⟨h.sessions, h.schedule, h.cap, h.boot⟩
  | close hc =>
    refine ⟨?_, by simp [hc.bootstrap], ?_, by simp [hc.state]⟩
    · intro i d hd
      simp [hc.paths, Path.clear] at hd
    · intro i
      rw [hc.paths]
      exact h.cap i

theorem Moves.keyed (hm : Moves C g s calls s') :
    Keyed C send receive s → Keyed C send receive s' :=
  hm.preserves (P := fun s t => Keyed C send receive s → Keyed C send receive t) (fun _ => id)
    (fun h h' => h' ∘ h) Move.keyed

end

/-- The two bootstraps of one handshake, with the keys each side sends under on its slots. -/
structure Mirrored (C : Crypto) (K : Side → Fin 2 → Bytes 32) (b : Side → Profile3Bootstrap) :
    Prop where
  slot0 : ∀ side, ∀ d ∈ (b side).slot0, d.sendKey = K side 0 ∧ d.receiveKey = K side.peer 0
  slot1 : ∀ side, ∀ prk ∈ (b side).schedule, K side 1 = C.hkdfExpand prk
    (keyInfo (b side).transcriptHash 3 (b side).localRole (b side).peerRole 1)
  schedule : ∀ side, (b side).schedule = (b side.peer).schedule ∧
    (b side).transcriptHash = (b side.peer).transcriptHash ∧
    (b side).localRole = (b side.peer).peerRole

theorem Mirrored.keyed {C : Crypto} {K : Side → Fin 2 → Bytes 32} {b : Side → Profile3Bootstrap}
    (h : Mirrored C K b) (side : Side) {binding : ObservedBinding} {seed : U64} {owner : ℕ}
    {s : RedundantSession} (hs : RedundantSession.new (b side) binding seed owner = .ok s) :
    Keyed C (K side) (K side.peer) s := by
  obtain ⟨d, hd, hbudget, hstarted⟩ := new_eq_ok hs
  simp only [budgetAllowed, decide_eq_true_eq] at hbudget
  refine ⟨?_, ?_, ?_, ?_⟩
  · intro i e he
    fin_cases i
    · obtain rfl : d = e := by simpa [hstarted.path0] using he
      exact h.slot0 side d hd
    · simp [hstarted.path1] at he
  · intro b' hb' owner' e he
    rw [hstarted.bootstrap] at hb'
    obtain rfl := Option.mem_some_iff.mp hb'
    obtain ⟨prk, k₁, k₂, hprk, hk₁, hk₂, rfl⟩ := takeSlot1AfterAdmission_ok he
    obtain ⟨hschedule, hhash, hrole⟩ := h.schedule side
    have hrole' := (h.schedule side.peer).2.2
    rw [Channel.Side.peer_peer] at hrole'
    simp only [deriveKeyFromPrk, Outcome.ite_error_eq_ok, Except.ok.injEq] at hk₁ hk₂
    refine ⟨hk₁.2.symm.trans (h.slot1 side prk hprk).symm, ?_⟩
    have hpeer := h.slot1 side.peer prk (hschedule ▸ hprk)
    rw [← hhash, ← hrole, hrole'] at hpeer
    exact hk₂.2.symm.trans hpeer.symm
  · intro i
    fin_cases i
    · change (s.paths 0).budget ≤ SERIALIZED_R8_MAX
      rw [hstarted.path0]
      exact hbudget.2
    · change (s.paths 1).budget ≤ SERIALIZED_R8_MAX
      rw [hstarted.path1]
      exact hbudget.2
  · simp [hstarted.bootstrap]

theorem Keyed.congr {C D : Crypto} {send receive : Fin 2 → Bytes 32} {s : RedundantSession}
    (h : Keyed C send receive s) (hkdf : D.hkdfExpand = C.hkdfExpand) : Keyed D send receive s := by
  refine ⟨h.sessions, ?_, h.cap, h.boot⟩
  intro b hb owner d hd
  refine h.schedule b hb owner d ?_
  simpa only [Profile3Bootstrap.takeSlot1AfterAdmission, deriveKeyFromPrk, hkdf] using hd

theorem World.Decided.congr {C D : Crypto} {w : World} {history : List (U64 × List Byte)}
    (h : World.Decided C w history) (hsha : D.sha256 = C.sha256) : World.Decided D w history := by
  have hmatch : ∀ window : DeliveredWindow, window.matchesBytes D = window.matchesBytes C := by
    intro window
    unfold DeliveredWindow.matchesBytes
    rw [hsha]
  refine ⟨h.fresh, ?_, ?_, h.prepared⟩
  · intro ha
    refine ⟨?_, (h.prints ha).unused⟩
    rw [hsha]
    exact (h.prints ha).seen
  · simpa only [Right, hmatch] using h.right

theorem mapError_ne_divergent {α : Type} (r : Except SessionError α) :
    r.mapError mapSession ≠ .error .divergentDelivery := by
  cases r with
  | error e => cases e <;> simp [Except.mapError, mapSession]
  | ok a => simp [Except.mapError]

section

variable {C : Crypto} {s : RedundantSession} {slot : Byte} {binding : ObservedBinding}
  {packet : List Byte}

theorem openInbound_ne_divergent {requireActive : Bool} :
    s.openInbound C slot binding packet requireActive ≠ .error .divergentDelivery := by
  unfold RedundantSession.openInbound
  split
  · simp
  · dsimp only
    split
    · simp
    · split
      · simp
      · split
        · simp
        · split
          · simp
          · split
            · simp
            · rename_i d _
              exact mapError_ne_divergent _

/-- A preview closes the session only where it finds other bytes under a known id. -/
theorem previewInboundInner_agrees (leases : Leases) (nowMs : U64) (requireActive : Bool)
    (h : s.state = .active → ∀ preview i d, OpenedOn C s slot packet preview i d →
      s.delivered.seen preview.deliveryId = true →
      s.delivered.matchesBytes C preview.deliveryId preview.plaintext = true) :
    let r := s.previewInboundInner C leases slot binding packet nowMs requireActive
    r.2 ≠ .error .divergentDelivery ∧ r.1.1.state = s.state := by
  unfold RedundantSession.previewInboundInner
  split
  · exact ⟨by simp, rfl⟩
  · split
    · exact ⟨by simp, rfl⟩
    · rename_i hactive
      have hframe : (s.reapPreview leases).paths = s.paths ∧
          (s.reapPreview leases).delivered = s.delivered ∧
          (s.reapPreview leases).state = s.state := by
        unfold RedundantSession.reapPreview
        split <;> exact ⟨rfl, rfl, rfl⟩
      dsimp only
      generalize s.reapPreview leases = t at hframe ⊢
      obtain ⟨hpaths, hwindow, hstate⟩ := hframe
      split
      · exact ⟨by simp, hstate⟩
      · split
        · rename_i e he
          refine ⟨fun heq => ?_, hstate⟩
          rw [Except.error.inj heq] at he
          exact openInbound_ne_divergent he
        · rename_i preview hopen
          obtain ⟨i, d, hslot, hsession, hpreview⟩ := openInbound_eq_ok hopen
          rw [hpaths] at hsession
          rw [hwindow]
          split
          · exact ⟨by simp, hstate⟩
          · split
            · rename_i hseen
              rw [if_pos (h (not_not.mp hactive) preview i d ⟨hslot, hsession, hpreview⟩ hseen)]
              exact ⟨by simp [RedundantSession.lend], hstate⟩
            · split
              · exact ⟨by simp, hstate⟩
              · exact ⟨by simp [RedundantSession.lend], hstate⟩

theorem commit_ne_divergent (s : RedundantSession) (slot : Byte) (p : Profile3DataPreview) :
    (s.commit slot p).2 ≠ .error .divergentDelivery := by
  unfold RedundantSession.commit
  split
  · simp
  · split
    · simp
    · exact mapError_ne_divergent _

theorem commitInbound_agrees (C : Crypto) (s : RedundantSession) (leases : Leases)
    (p : InboundPreview) :
    let r := s.commitInbound C leases p
    r.2 ≠ .error .divergentDelivery ∧ r.1.1.state = s.state := by
  unfold RedundantSession.commitInbound
  dsimp only
  split
  · exact ⟨by simp, rfl⟩
  · split
    · exact ⟨by simp, rfl⟩
    · split
      · exact ⟨by simp, rfl⟩
      · have hne := commit_ne_divergent { s with receivePreview := none } p.slot p.sessionPreview
        have hstate := Moves.state_commitSlot { s with receivePreview := none } p.slot p.sessionPreview
        generalize RedundantSession.commit _ p.slot p.sessionPreview = r at hne hstate ⊢
        obtain ⟨t, e | ⟨id, bytes⟩⟩ := r
        · exact ⟨by simpa using hne, hstate⟩
        · cases p.decision with
          | equal => exact ⟨by simp, hstate⟩
          | new => exact ⟨by simp, (state_remember C _ _ _ _).trans hstate⟩

end

/-- A delivery id with its bytes, on the side that sent or received them. -/
structure Item where
  side : Side
  id : U64
  bytes : List Byte
  deriving DecidableEq, Repr

/-- Two sessions and every call of `seal` so far, with the successful sends and the deliveries,
newest first. -/
structure Link where
  ends : Side → World
  calls : List SealCall
  sent : List Item
  received : List Item

inductive Act
  | call (side : Side) (call : Call)
  | sealElsewhere (call : SealCall)

namespace Link

/-- The delivery id that an `outbound` call returns. -/
def enqueued (C : Crypto) (w : World) : Call → Option (U64 × List Byte)
  | .outbound plaintext =>
    match (w.session.outbound C w.leases plaintext).2.2 with
    | .ok (.enqueued id _) => some (id, plaintext)
    | _ => none
  | _ => none

/-- What a side opens is what was sealed before, whoever shows it the packet. -/
def step (C : Crypto) (l : Link) : Act → Link
  | .call side call =>
    let D := idealAead C l.calls
    let w := l.ends side
    { ends := Function.update l.ends side (w.step D call)
      calls := w.seals D call ++ l.calls
      sent := (enqueued D w call).toList.map (fun x => ⟨side, x.1, x.2⟩) ++ l.sent
      received := (w.record D call).toList.map (fun x => ⟨side, x.1, x.2⟩) ++ l.received }
  | .sealElsewhere call => { l with calls := call :: l.calls }

/-- Nobody else holds the keys of the two sessions. -/
def Permitted (K : Side → Fin 2 → Bytes 32) (l : Link) : Act → Prop
  | .call side call => (l.ends side).Owned call
  | .sealElsewhere call => ∀ side i, call.key ≠ K side i

/-- Two new sessions from the bootstraps of one handshake. What was sealed under their keys before
are packets in the other layout. -/
structure Starts (C : Crypto) (K : Side → Fin 2 → Bytes 32) (l : Link) : Prop where
  mirrored : ∃ b, Mirrored C K b ∧ ∀ side, ∃ binding seed owner,
    RedundantSession.new (b side) binding seed owner = .ok (l.ends side).session
  keys : ∀ i j, K .left i ≠ K .right j
  ends : ∀ side, (l.ends side).Starts
  calls : ∀ call ∈ l.calls, ∀ side i, call.key = K side i → ∃ packet, Image C 60 call packet
  sent : l.sent = []
  received : l.received = []

abbrev Reach (C : Crypto) (K : Side → Fin 2 → Bytes 32) (l : Link) : Prop :=
  Machine.Reach (Starts C K) (step C) (Permitted K) l

/-- Everything a side has delivered. -/
def history (l : Link) (side : Side) : List (U64 × List Byte) :=
  (l.received.filter fun x => x.side = side).map fun x => (x.id, x.bytes)

/-- A call of `seal` under a key of a side is in the other layout, or it is a packet of one of the
deliveries sent by the side. -/
def Sealed (C : Crypto) (sent : List Item) (side : Side) (call : SealCall) : Prop :=
  (∃ packet, Image C 60 call packet) ∨ ∃ packet, Image C 68 call packet ∧
    ⟨side, u64Of (packet.drop 60), call.plaintext⟩ ∈ sent

structure Inv (C : Crypto) (K : Side → Fin 2 → Bytes 32) (l : Link) : Prop where
  keys : ∀ i j, K .left i ≠ K .right j
  sound : ∀ side, (l.ends side).session.Sound
  keyed : ∀ side, Keyed C (K side) (K side.peer) (l.ends side).session
  decided : ∀ side, World.Decided C (l.ends side) (l.history side)
  sealed : ∀ call ∈ l.calls, ∀ side i, call.key = K side i → Sealed C l.sent side call
  below : ∀ side, (l.ends side).session.state = .active → ∀ x ∈ l.sent, x.side = side →
    x.id < (l.ends side).session.nextDelivery
  increasing : l.sent.Pairwise fun x y => x.side = y.side → y.id < x.id
  previews : ∀ side, ∀ p ∈ (l.ends side).previews,
    ⟨side.peer, p.sessionPreview.deliveryId, p.sessionPreview.plaintext⟩ ∈ l.sent
  received : ∀ x ∈ l.received, ⟨x.side.peer, x.id, x.bytes⟩ ∈ l.sent

variable {C : Crypto} {K : Side → Fin 2 → Bytes 32} {l : Link}

theorem inv_starts (h : Starts C K l) : Inv C K l := by
  obtain ⟨b, hb, hnew⟩ := h.mirrored
  refine ⟨h.keys, ?_, ?_, ?_, ?_, by simp [h.sent], by simp [h.sent], ?_, by simp [h.received]⟩
  · intro side
    obtain ⟨binding, seed, owner, hs⟩ := hnew side
    exact World.sound_new hs
  · intro side
    obtain ⟨binding, seed, owner, hs⟩ := hnew side
    exact hb.keyed side hs
  · intro side
    rw [history, h.received]
    exact World.decided_start (h.ends side)
  · intro call hcall side i hkey
    exact .inl (h.calls call hcall side i hkey)
  · intro side p hp
    simp [(h.ends side).2.1] at hp

/-- The two directions have keys of their own. -/
theorem Inv.side_of_key (hi : Inv C K l) {a b : Side} {i j : Fin 2} (h : K a i = K b j) : a = b := by
  cases a <;> cases b
  · rfl
  · exact absurd h (hi.keys i j)
  · exact absurd h.symm (hi.keys j i)
  · rfl

theorem deliveryId_of_aad {packet packet' : List Byte}
    (h : (packet.take 68).set 5 0 = (packet'.take 68).set 5 0) :
    u64Of (packet.drop 60) = u64Of (packet'.drop 60) := by
  have hdrop := congrArg (List.drop 60) h
  simp only [List.drop_set, List.drop_take] at hdrop
  unfold u64Of
  simpa using congrArg _ hdrop

/-- What a side opens, the other side sent. -/
theorem Inv.opened (hi : Inv C K l) {side : Side} {slot : Byte} {packet : List Byte}
    {preview : Profile3DataPreview} {i : Fin 2} {d : DirectionalSession}
    (h : OpenedOn (idealAead C l.calls) (l.ends side).session slot packet preview i d) :
    ⟨side.peer, preview.deliveryId, preview.plaintext⟩ ∈ l.sent := by
  obtain ⟨ho, -, hid⟩ := previewProfile3Data_opens h.preview
  obtain ⟨n, -, data, tag, -, hopen⟩ := ho.opened
  obtain ⟨call, hcall, hkey, -, haad, hplain, -⟩ := idealAead_open hopen
  have hreceive := ((hi.keyed side).sessions i d h.session).2
  have hlong := ho.long
  rcases hi.sealed call hcall side.peer i (hkey.trans hreceive) with ⟨packet', himage⟩ |
    ⟨packet', himage, hsent⟩
  · -- the associated data of the other layout is shorter
    have hlong' := himage.long
    have hlen := congrArg List.length (haad.symm.trans himage.aad)
    simp only [List.length_set, List.length_take] at hlen
    omega
  · rw [← hplain, hid, deliveryId_of_aad (haad.symm.trans himage.aad)]
    exact hsent

/-- What a call does with delivery ids on its side. -/
theorem enqueued_cases (D : Crypto) {w : World} (hs : w.session.Sound)
    (hcap : ∀ i, (w.session.paths i).budget ≤ SERIALIZED_R8_MAX)
    (hboot : w.session.state = .active → w.session.bootstrap.isSome) (call : Call) :
    (w.seals D call = [] ∧ enqueued D w call = none) ∨
    ∃ plaintext, enqueued D w call = some (w.session.nextDelivery, plaintext) ∧
      w.session.state = .active ∧
      w.session.nextDelivery < (w.step D call).session.nextDelivery ∧
      ∀ c ∈ w.seals D call, ∃ i d, (w.session.paths i).session = some d ∧
        SealedBy D d w.session.nextDelivery plaintext c := by
  cases call with
  | outbound plaintext =>
    cases outbound_sends D hs hcap hboot w.leases plaintext with
    | nothing hcalls hr =>
      refine .inl ⟨hcalls, ?_⟩
      simp only [enqueued]
    | delivery ha packets hr hnext hcalls =>
      refine .inr ⟨plaintext, ?_, ha, ?_, hcalls⟩
      · simp [enqueued, hr]
      · rw [Fin.lt_def]
        exact (Nat.lt_succ_self _).trans_eq hnext.symm
  | _ => exact .inl ⟨rfl, rfl⟩

theorem sealed_of_sealedBy {d : DirectionalSession} {id : U64} {plaintext : List Byte} {c : SealCall}
    (h : SealedBy (idealAead C l.calls) d id plaintext c) {side : Side} {sent : List Item}
    (hsent : ⟨side, id, plaintext⟩ ∈ sent) : Sealed C sent side c := by
  obtain ⟨packet, himage, rfl⟩ := h.image
  refine .inr ⟨packet, ⟨himage.long, himage.counter, himage.aad, himage.body⟩, ?_⟩
  rw [h.plaintext]
  exact hsent

theorem Sealed.mono {sent sent' : List Item} {side : Side} {c : SealCall}
    (h : Sealed C sent side c) (hsub : ∀ x ∈ sent, x ∈ sent') : Sealed C sent' side c := by
  rcases h with h | ⟨packet, himage, hsent⟩
  · exact .inl h
  · exact .inr ⟨packet, himage, hsub _ hsent⟩

theorem mem_sent_step {x : Item} (a : Act) (h : x ∈ l.sent) : x ∈ (l.step C a).sent := by
  cases a with
  | call side call => exact List.mem_append_right _ h
  | sealElsewhere => exact h

theorem history_step (C : Crypto) (l : Link) (side : Side) (call : Call) (x : Side) :
    (l.step C (.call side call)).history x =
      if x = side then ((l.ends side).record (idealAead C l.calls) call).toList ++ l.history x
      else l.history x := by
  simp only [history, step, List.filter_append, List.map_append]
  cases (l.ends side).record (idealAead C l.calls) call with
  | none => simp
  | some r =>
    by_cases hx : x = side
    · simp [hx]
    · simp [hx, Ne.symm hx]

/-- A property of both ends, when the side that was called still has it. -/
theorem ends_step {P : Side → World → Prop} {side : Side} {call : Call}
    (hw : P side ((l.ends side).step (idealAead C l.calls) call))
    (h : ∀ x, x ≠ side → P x (l.ends x)) : ∀ x, P x ((l.step C (.call side call)).ends x) :=
  (Function.forall_update_iff l.ends P).mpr ⟨hw, h⟩

theorem Inv.sealed_call (hi : Inv C K l) {side : Side} {call : Call} :
    ∀ c ∈ (l.step C (.call side call)).calls, ∀ x i, c.key = K x i →
      Sealed C (l.step C (.call side call)).sent x c := by
  intro c hc x i hkey
  rcases List.mem_append.mp hc with hc | hc
  · rcases enqueued_cases (idealAead C l.calls) (hi.sound side) (hi.keyed side).cap
      (hi.keyed side).boot call with ⟨hnone, -⟩ | ⟨plaintext, henq, -, -, hcalls⟩
    · simp [hnone] at hc
    · obtain ⟨j, d, hd, hsealed⟩ := hcalls c hc
      have hown := ((hi.keyed side).sessions j d hd).1
      obtain rfl := hi.side_of_key (hkey.symm.trans (hsealed.key.trans hown))
      refine sealed_of_sealedBy hsealed ?_
      simp [step, henq]
  · exact (hi.sealed c hc x i hkey).mono fun _ => mem_sent_step _

theorem mem_sent_call {side : Side} {call : Call} {y : Item}
    (h : y ∈ (l.step C (.call side call)).sent) :
    enqueued (idealAead C l.calls) (l.ends side) call = some (y.id, y.bytes) ∧ y.side = side ∨
      y ∈ l.sent := by
  rcases List.mem_append.mp h with h | h
  · obtain ⟨r, hr, rfl⟩ := List.mem_map.mp h
    exact .inl ⟨Option.mem_toList.mp hr, rfl⟩
  · exact .inr h

theorem Inv.below_call (hi : Inv C K l) (side : Side) (call : Call) :
    ∀ x, ((l.step C (.call side call)).ends x).session.state = .active →
      ∀ y ∈ (l.step C (.call side call)).sent, y.side = x →
        y.id < ((l.step C (.call side call)).ends x).session.nextDelivery := by
  refine ends_step (P := fun x w => w.session.state = .active →
    ∀ y ∈ (l.step C (.call side call)).sent, y.side = x → y.id < w.session.nextDelivery) ?_ ?_
  · intro ha y hy hside
    obtain ⟨hactive, hle⟩ :=
      (World.step_moves (idealAead C l.calls) (l.ends side) call).next_le ha
    rcases mem_sent_call hy with ⟨henq, -⟩ | hy
    · rcases enqueued_cases (idealAead C l.calls) (hi.sound side) (hi.keyed side).cap
        (hi.keyed side).boot call with ⟨-, hnone⟩ | ⟨plaintext, hsome, -, hlt, -⟩
      · simp [hnone] at henq
      · obtain ⟨hid, -⟩ := Prod.mk.inj (Option.some.inj (hsome.symm.trans henq))
        rw [← hid]
        exact hlt
    · exact (hi.below side hactive y hy hside).trans_le hle
  · intro x hx ha y hy hside
    rcases mem_sent_call hy with ⟨-, hy⟩ | hy
    · exact absurd (hside.symm.trans hy) hx
    · exact hi.below x ha y hy hside

/-- A new id is past all earlier ones of its side. -/
theorem Inv.increasing_call (hi : Inv C K l) (side : Side) (call : Call) :
    (l.step C (.call side call)).sent.Pairwise fun x y => x.side = y.side → y.id < x.id := by
  simp only [step]
  rcases enqueued_cases (idealAead C l.calls) (hi.sound side) (hi.keyed side).cap
    (hi.keyed side).boot call with ⟨-, hnone⟩ | ⟨plaintext, hsome, ha, -, -⟩
  · simpa [hnone] using hi.increasing
  · simp only [hsome, Option.toList_some, List.map_cons, List.map_nil, List.singleton_append,
      List.pairwise_cons]
    exact ⟨fun y hy hside => hi.below side ha y hy hside.symm, hi.increasing⟩

theorem Inv.previews_call (hi : Inv C K l) (side : Side) (call : Call) :
    ∀ x, ∀ p ∈ ((l.step C (.call side call)).ends x).previews,
      ⟨x.peer, p.sessionPreview.deliveryId, p.sessionPreview.plaintext⟩ ∈
        (l.step C (.call side call)).sent := by
  refine ends_step (P := fun x w => ∀ p ∈ w.previews,
    ⟨x.peer, p.sessionPreview.deliveryId, p.sessionPreview.plaintext⟩ ∈
      (l.step C (.call side call)).sent) ?_ ?_
  · intro p hp
    refine mem_sent_step _ ?_
    rcases List.mem_append.mp hp with hp | hp
    · obtain ⟨packet, -, hpreviews⟩ := (World.previewed_lends (Option.mem_toList.mp hp)).previews
      obtain ⟨i, d, hopened⟩ := hpreviews.opened
      exact hi.opened hopened
    · exact hi.previews side p hp
  · intro x _ p hp
    exact mem_sent_step _ (hi.previews x p hp)

theorem Inv.received_call (hi : Inv C K l) {side : Side} {call : Call}
    (ho : (l.ends side).Owned call) : ∀ x ∈ (l.step C (.call side call)).received,
      ⟨x.side.peer, x.id, x.bytes⟩ ∈ (l.step C (.call side call)).sent := by
  intro x hx
  refine mem_sent_step _ ?_
  rcases List.mem_append.mp hx with hx | hx
  · obtain ⟨⟨id, bytes⟩, hr, rfl⟩ := List.mem_map.mp hx
    have hdecided := (hi.decided side).congr (D := idealAead C l.calls) rfl
    obtain ⟨p, hp, rfl, rfl⟩ := World.record_previewed hdecided ho (Option.mem_toList.mp hr)
    exact hi.previews side p hp
  · exact hi.received x hx

theorem inv_call (hi : Inv C K l) {side : Side} {call : Call} (ho : (l.ends side).Owned call) :
    Inv C K (l.step C (.call side call)) := by
  have hmoves := World.step_moves (idealAead C l.calls) (l.ends side) call
  refine ⟨hi.keys, ?_, ?_, ?_, hi.sealed_call, hi.below_call side call, hi.increasing_call side call,
    hi.previews_call side call, hi.received_call ho⟩
  · exact ends_step (P := fun _ w => w.session.Sound) (hmoves.lawful.sound (hi.sound side))
      fun x _ => hi.sound x
  · refine ends_step (P := fun x w => Keyed C (K x) (K x.peer) w.session) ?_ fun x _ => hi.keyed x
    exact (hmoves.keyed ((hi.keyed side).congr rfl)).congr rfl
  · refine ends_step (P := fun x w => World.Decided C w ((l.step C (.call side call)).history x))
      ?_ ?_
    · rw [history_step, if_pos rfl]
      have hdecided := (hi.decided side).congr (D := idealAead C l.calls) rfl
      exact (World.decided_step hdecided ho).congr rfl
    · intro x hx
      rw [history_step, if_neg hx]
      exact hi.decided x

theorem inv_sealElsewhere (hi : Inv C K l) {call : SealCall} (h : ∀ side i, call.key ≠ K side i) :
    Inv C K (l.step C (.sealElsewhere call)) := by
  refine ⟨hi.keys, hi.sound, hi.keyed, hi.decided, ?_, hi.below, hi.increasing, hi.previews,
    hi.received⟩
  intro c hc side i hkey
  rcases List.mem_cons.mp hc with rfl | hc
  · exact absurd hkey (h side i)
  · exact hi.sealed c hc side i hkey

theorem Reach.inv (h : Reach C K l) : Inv C K l := by
  refine Machine.Reach.invariant (I := Inv C K) (fun _ => inv_starts) ?_ h
  intro l a hi ha
  cases a with
  | call side call => exact inv_call hi ha
  | sealElsewhere call => exact inv_sealElsewhere hi ha

/-- Strictly increasing ids name their bytes. -/
theorem Inv.same_bytes (hi : Inv C K l) {x y : Item} (hx : x ∈ l.sent) (hy : y ∈ l.sent)
    (hside : x.side = y.side) (hid : x.id = y.id) : x.bytes = y.bytes := by
  have hone : l.sent.Pairwise fun x y => x.side = y.side → x.id ≠ y.id :=
    hi.increasing.imp fun h hside => (h hside).ne'
  refine List.Pairwise.forall_of_forall_of_flip
    (R := fun x y : Item => x.side = y.side → x.id = y.id → x.bytes = y.bytes)
    (fun _ _ _ _ => rfl) ?_ ?_ hx hy hside hid
  · exact hone.imp fun h hside hid => absurd hid (h hside)
  · exact hone.imp fun h hside hid => absurd hid.symm (h hside.symm)

/-- What a side opens again under a known id are the bytes it knows. -/
theorem Inv.agrees (hi : Inv C K l) {side : Side} {slot : Byte} {packet : List Byte}
    {preview : Profile3DataPreview} {i : Fin 2} {d : DirectionalSession}
    (ha : (l.ends side).session.state = .active)
    (h : OpenedOn (idealAead C l.calls) (l.ends side).session slot packet preview i d)
    (hseen : (l.ends side).session.delivered.seen preview.deliveryId = true) :
    (l.ends side).session.delivered.matchesBytes C preview.deliveryId preview.plaintext = true := by
  obtain ⟨bytes, hmem, hprint⟩ := ((hi.decided side).prints ha).seen _ hseen
  obtain ⟨x, hx, heq⟩ := List.mem_map.mp hmem
  obtain ⟨hx, hside⟩ := List.mem_filter.mp hx
  obtain ⟨hid, rfl⟩ := Prod.mk.inj heq
  have hsame := hi.same_bytes (hi.received x hx) (hi.opened h)
    (congrArg Side.peer (of_decide_eq_true hside)) hid
  simp only at hsame
  simp [DeliveredWindow.matchesBytes, hprint, hsame]

/-- Whatever the network does, no packet of an honest peer is taken for a divergent one. -/
theorem Inv.preview_agrees (hi : Inv C K l) (side : Side) (slot : Byte) (binding : ObservedBinding)
    (packet : List Byte) (nowMs : U64) (requireActive : Bool) :
    let w := l.ends side
    let r := w.session.previewInboundInner (idealAead C l.calls) w.leases slot binding packet nowMs
      requireActive
    r.2 ≠ .error .divergentDelivery ∧ r.1.1.state = w.session.state :=
  previewInboundInner_agrees _ _ _ fun ha _ _ _ => hi.agrees ha

theorem Inv.inbound_agrees (hi : Inv C K l) (side : Side) (slot : Byte) (binding : ObservedBinding)
    (packet : List Byte) (nowMs : U64) :
    let w := l.ends side
    let r := w.session.inbound (idealAead C l.calls) w.leases slot binding packet nowMs
    r.2 ≠ .error .divergentDelivery ∧ r.1.1.state = w.session.state := by
  have h := hi.preview_agrees side slot binding packet nowMs true
  unfold RedundantSession.inbound RedundantSession.previewInbound
  dsimp only at h ⊢
  generalize (l.ends side).session.previewInboundInner _ _ slot binding packet nowMs true = r at h ⊢
  obtain ⟨⟨s, leases⟩, e | p⟩ := r
  · exact ⟨by simpa using h.1, h.2⟩
  · obtain ⟨hne, hstate⟩ := commitInbound_agrees (idealAead C l.calls) s leases p
    exact ⟨hne, hstate.trans h.2⟩

end Link

/-- An honest peer never causes a divergence, and its bytes arrive unaltered, for any order of calls
on both sides and any packets in between. -/
theorem honest_delivery {C : Crypto} {K : Side → Fin 2 → Bytes 32} {l : Link}
    (h : Link.Reach C K l) :
    (l.sent.Pairwise fun x y => x.side = y.side → y.id < x.id) ∧
    (∀ x ∈ l.sent, ∀ y ∈ l.sent, x.side = y.side → x.id = y.id → x.bytes = y.bytes) ∧
    (∀ side slot binding packet nowMs,
      let w := l.ends side
      (∀ requireActive,
        let r := w.session.previewInboundInner (idealAead C l.calls) w.leases slot binding packet
          nowMs requireActive
        r.2 ≠ .error .divergentDelivery ∧ r.1.1.state = w.session.state) ∧
      let r := w.session.inbound (idealAead C l.calls) w.leases slot binding packet nowMs
      r.2 ≠ .error .divergentDelivery ∧ r.1.1.state = w.session.state) ∧
    ∀ x ∈ l.received, ⟨x.side.peer, x.id, x.bytes⟩ ∈ l.sent ∧
      ∀ y ∈ l.sent, y.side = x.side.peer → y.id = x.id → y.bytes = x.bytes := by
  have hi := h.inv
  refine ⟨hi.increasing, fun x hx y hy => hi.same_bytes hx hy, ?_, ?_⟩
  · intro side slot binding packet nowMs
    exact ⟨hi.preview_agrees side slot binding packet nowMs,
      hi.inbound_agrees side slot binding packet nowMs⟩
  · intro x hx
    have hsent := hi.received x hx
    refine ⟨hsent, ?_⟩
    intro y hy hside hid
    exact hi.same_bytes (y := ⟨x.side.peer, x.id, x.bytes⟩) hy hsent hside hid

namespace Link.Sample

def role : Side → Byte
  | .left => 1
  | .right => 2

def loc (slot : Byte) (side : Side) : Bytes 16 := bytesOf 16 (10 * role side + slot)

def key (side : Side) (i : Fin 2) : Bytes 32 :=
  Crypto.sample.hkdfExpand (bytesOf 32 7)
    (keyInfo (bytesOf 32 9) 3 (role side) (role side.peer) (if i = 0 then 0 else 1))

def bootstrap (side : Side) : Profile3Bootstrap where
  scid := 5
  localLoc := loc 0 side
  peerLoc := loc 0 side.peer
  budget := 1280
  localRole := role side
  peerRole := role side.peer
  transcriptHash := bytesOf 32 9
  schedule := some (bytesOf 32 7)
  slot0 := some (.new (role side) (key side 0) (key side.peer 0) (bytesOf 32 9) 1280)

def start : Link where
  ends side := { Redundant.Sample.start with
    session := (RedundantSession.new (bootstrap side) Redundant.Sample.binding 1 (role side)).toOption.getD
      Redundant.Sample.start.session }
  calls := []
  sent := []
  received := []

theorem starts : Starts .sample key start := by
  have hnew : ∀ side, RedundantSession.new (bootstrap side) Redundant.Sample.binding 1 (role side) =
      .ok (start.ends side).session := by
    intro side
    cases side <;> rfl
  refine ⟨⟨bootstrap, ⟨?_, ?_, ?_⟩, fun side => ⟨_, _, _, hnew side⟩⟩, by decide +kernel,
    fun side => ⟨⟨_, _, _, _, hnew side⟩, rfl, rfl, rfl⟩, by simp [start], rfl, rfl⟩
  · intro side d hd
    obtain rfl := Option.mem_some_iff.mp hd
    exact ⟨rfl, rfl⟩
  · intro side prk hprk
    obtain rfl := Option.mem_some_iff.mp hprk
    rfl
  · intro side
    cases side <;> exact ⟨rfl, rfl, rfl⟩

/-- Both sides take their second slot into use. -/
def activate (side : Side) : List Act :=
  [.call side (.issueOwner 9 false 0),
    .call side (.activate ⟨⟨5, 9, ⟨role side⟩, 0⟩, 5, 9, Redundant.Sample.binding, loc 1 side,
      loc 1 side.peer, 1⟩ 1280 (10 + role side))]

/-- One delivery goes out on one slot, the next on both. -/
def sent : Link :=
  Machine.exec (step .sample) start (Act.call .left (.outbound [1, 2, 3]) ::
    (activate .left ++ activate .right ++ [.call .left (.outbound [4, 5])]))

/-- A packet from the queue of a slot arrives, and its preview is committed. -/
def receive (l : Link) (i : Fin 2) (n : ℕ) : List Act :=
  let packet := (((sent.ends .left).session.paths i).queue.map (·.packet)).getD n []
  let preview := Act.call .right (.previewInbound (if i = 0 then 0 else 1) Redundant.Sample.binding packet 1000)
  preview :: (((step .sample l preview).ends .right).previews.take 1).map fun p =>
    .call .right (.commitInbound p)

def script : Link → List (Fin 2 × ℕ) → List Act
  | _, [] => []
  | l, (i, n) :: rest => receive l i n ++ script (Machine.exec (step .sample) l (receive l i n)) rest

/-- The later delivery comes first and in two copies, the other one is shown again. -/
def received : Link :=
  Machine.exec (step .sample) sent (script sent [(1, 0), (0, 1), (0, 0), (0, 0)])

instance (l : Link) (a : Act) : Decidable (l.Permitted key a) := by
  cases a <;> unfold Link.Permitted <;> infer_instance

end Link.Sample

open Link.Sample in
theorem honest_delivery_both_slots :
    received.sent = [⟨.left, 2, [4, 5]⟩, ⟨.left, 1, [1, 2, 3]⟩] ∧
    received.received = [⟨.right, 1, [1, 2, 3]⟩, ⟨.right, 2, [4, 5]⟩] ∧
    (received.ends .right).previews.map (·.decision) = [.new, .equal, .new] ∧
    ∀ x ∈ received.received, ⟨x.side.peer, x.id, x.bytes⟩ ∈ received.sent := by
  have hsent : Link.Reach .sample key sent :=
    Machine.Reach.exec (.start starts) _ (by decide +kernel)
  have hr : Link.Reach .sample key received := Machine.Reach.exec hsent _ (by decide +kernel)
  exact ⟨by decide +kernel, by decide +kernel, by decide +kernel,
    fun x hx => ((honest_delivery hr).2.2.2 x hx).1⟩

end R8.Redundant
