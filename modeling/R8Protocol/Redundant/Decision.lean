import R8Protocol.Redundant.Change
import R8Protocol.Redundant.Delivery

/-! What a receiver decides about an id is still right when it acts on it. -/
namespace R8.Redundant

open FixedWidth Wire Session Mobility

/-- The answer the window gives about an id with these bytes. -/
def Right (C : Crypto) (window : DeliveredWindow) (decision : ReceiveDecision) (id : U64)
    (bytes : List Byte) : Prop :=
  match decision with
  | .new => ¬ window.Knows id
  | .equal => window.seen id = true ∧ window.matchesBytes C id bytes = true

/-- The same bytes, unless SHA-256 takes both to one digest. -/
def SameBytes (C : Crypto) (a b : List Byte) : Prop :=
  a = b ∨ a ≠ b ∧ C.sha256 a = C.sha256 b

theorem DeliveredWindow.Prints.same {C : Crypto} {window : DeliveredWindow}
    {history : List (U64 × List Byte)} (h : window.Prints C history) {id : U64} {bytes : List Byte}
    (hs : window.seen id = true) (hm : window.matchesBytes C id bytes = true) :
    ∃ delivered, (id, delivered) ∈ history ∧ delivered.length = bytes.length ∧
      SameBytes C delivered bytes := by
  obtain ⟨delivered, hmem, hprint⟩ := h.seen id hs
  simp only [matchesBytes, hprint, Option.any_some, decide_eq_true_eq] at hm
  refine ⟨delivered, hmem, hm.1, ?_⟩
  by_cases heq : delivered = bytes
  · exact .inl heq
  · exact .inr ⟨heq, hm.2⟩

section

variable {C : Crypto} {s : RedundantSession} {leases : Leases} {slot : Byte}
  {binding : ObservedBinding} {packet : List Byte} {nowMs : U64} {requireActive : Bool}
  {p : InboundPreview}

/-- The packet was opened by the session of its slot. -/
structure OpenedOn (C : Crypto) (s : RedundantSession) (slot : Byte) (packet : List Byte)
    (preview : Profile3DataPreview) (i : Fin 2) (d : DirectionalSession) : Prop where
  slot : slotIndex slot = some i
  session : (s.paths i).session = some d
  preview : d.previewProfile3Data C packet = .ok preview

theorem openInbound_eq_ok {preview : Profile3DataPreview}
    (h : s.openInbound C slot binding packet requireActive = .ok preview) :
    ∃ i d, OpenedOn C s slot packet preview i d := by
  unfold RedundantSession.openInbound at h
  split at h
  · simp at h
  · rename_i i hi
    simp only [Outcome.ite_error_eq_ok] at h
    obtain ⟨-, h⟩ := h
    split at h
    · simp at h
    · split at h
      · simp at h
      · simp only [Outcome.ite_error_eq_ok] at h
        obtain ⟨-, h⟩ := h
        split at h
        · simp at h
        · rename_i d hd
          exact ⟨i, d, hi, hd, Outcome.mapError_eq_ok.mp h⟩

/-- What a preview that is handed out says. -/
structure Previews (C : Crypto) (s : RedundantSession) (packet : List Byte) (p : InboundPreview) :
    Prop where
  owner : p.owner = s.receiveOwner
  generation : p.generation = s.receiveGeneration
  opened : ∃ i d, OpenedOn C s p.slot packet p.sessionPreview i d
  right : Right C s.delivered p.decision p.sessionPreview.deliveryId p.sessionPreview.plaintext

theorem previewInboundInner_eq_ok
    (h : (s.previewInboundInner C leases slot binding packet nowMs requireActive).2 = .ok p) :
    Previews C s packet p := by
  unfold RedundantSession.previewInboundInner at h
  split at h
  · simp at h
  · split at h
    · simp at h
    · have hframe : (s.reapPreview leases).paths = s.paths ∧
          (s.reapPreview leases).delivered = s.delivered ∧
          (s.reapPreview leases).receiveOwner = s.receiveOwner ∧
          (s.reapPreview leases).receiveGeneration = s.receiveGeneration := by
        unfold RedundantSession.reapPreview
        split <;> exact ⟨rfl, rfl, rfl, rfl⟩
      dsimp only at h
      generalize s.reapPreview leases = t at hframe h
      obtain ⟨hpaths, hwindow, howner, hgen⟩ := hframe
      split at h
      · simp at h
      · split at h
        · simp at h
        · rename_i preview hopen
          obtain ⟨i, d, hslot, hsession, hpreview⟩ := openInbound_eq_ok hopen
          rw [hpaths] at hsession
          rw [hwindow] at h
          split at h
          · simp at h
          · rename_i hold
            split at h
            · rename_i hseen
              split at h
              · rename_i hmatch
                obtain rfl := Except.ok.inj h
                exact ⟨howner, hgen, ⟨i, d, hslot, hsession, hpreview⟩, hseen, hmatch⟩
              · simp at h
            · rename_i hseen
              split at h
              · simp at h
              · obtain rfl := Except.ok.inj h
                refine ⟨howner, hgen, ⟨i, d, hslot, hsession, hpreview⟩, ?_⟩
                rintro (hknown | hknown)
                · exact hold hknown
                · exact hseen hknown

/-- The counter of a replay token is the one it was asked for. -/
theorem replay_preview_counter {w : ReplayWindow} {counter : U64} {token : ReplayCommit}
    (h : w.preview counter = .ok token) : token.counter = counter := by
  unfold ReplayWindow.preview ReplayWindow.preview? at h
  cases hc : w.check? counter with
  | none => simp [hc] at h
  | some r =>
    cases r with
    | error e => simp [hc] at h
    | ok u =>
      simp only [hc, Option.bind_eq_bind, Option.bind_some, Option.getD_some, Except.ok.injEq] at h
      rw [← h]

theorem OpenedOn.counter {preview : Profile3DataPreview} {i : Fin 2} {d : DirectionalSession}
    (h : OpenedOn C s slot packet preview i d) :
    preview.commit.counter = u64Of (packet.drop 52) :=
  replay_preview_counter (previewProfile3Data_opens h.preview).1.replay

theorem commit_data (s : RedundantSession) (slot : Byte) (p : Profile3DataPreview) :
    ∀ r, (s.commit slot p).2 = .ok r → r = (p.deliveryId, p.plaintext) := by
  intro r h
  unfold RedundantSession.commit at h
  split at h
  · simp at h
  · split at h
    · simp at h
    · rename_i d _
      have hd := Outcome.mapError_eq_ok.mp h
      unfold DirectionalSession.commitProfile3Data at hd
      split at hd
      · simp at hd
      · split at hd
        · simp at hd
        · exact (Except.ok.inj hd).symm

/-- What is delivered is what the preview opened, and the window takes it in. -/
theorem commitInbound_delivered {bytes : List Byte}
    (h : (s.commitInbound C leases p).2 = .ok (.delivered bytes)) :
    bytes = p.sessionPreview.plaintext ∧ (s.commitInbound C leases p).1.1.delivered =
      s.delivered.insert C p.sessionPreview.deliveryId bytes := by
  unfold RedundantSession.commitInbound at h ⊢
  dsimp only at h ⊢
  split at h
  · simp at h
  · rename_i ha
    rw [if_neg ha]
    split at h
    · simp at h
    · rename_i haccept
      rw [if_neg haccept]
      split at h
      · simp at h
      · rename_i generation hgen
        obtain ⟨⟨paths, hframe⟩, -⟩ := commit_frame { s with receivePreview := none } p.slot
          p.sessionPreview
        have hdata := commit_data { s with receivePreview := none } p.slot p.sessionPreview
        generalize ({ s with receivePreview := none } : RedundantSession).commit p.slot
          p.sessionPreview = r at hframe hdata h ⊢
        obtain ⟨t, e | ⟨id, plaintext⟩⟩ := r
        · simp at h
        · obtain rfl : t = _ := hframe
          obtain ⟨rfl, rfl⟩ := Prod.mk.inj (hdata _ rfl)
          dsimp only at h ⊢
          split at h
          · simp at h
          · obtain rfl : p.sessionPreview.plaintext = bytes := by simpa using h
            exact ⟨rfl, delivered_remember C _ _ _ _⟩

/-- The session that `commit_mobility` hands to the manager, if it gets that far. -/
def RedundantSession.handed (s : RedundantSession) (leases : Leases) (c : MobilityInboundCommit) :
    Option DirectionalSession :=
  if s.state ≠ .active ∨ ¬ s.acceptsReplayLease leases c ∨
      (checkedAdd s.receiveGeneration 1).isNone then none
  else (slotIndex c.slot).bind fun i => (s.paths i).session

/-- What a mobility commit leaves of the session, once the manager has taken the transition. -/
def afterCommit (C : Crypto) (s : RedundantSession) (c : MobilityInboundCommit) (i : Fin 2)
    (d : DirectionalSession) (generation : U64) : RedundantSession :=
  let s := ({ s.setPath i { s.paths i with session := some d } with
    receivePreview := none
    receiveGeneration := generation }).expire c.nowMs
  match c.decision with
  | .equal => s
  | .new => s.remember C c.deliveryId c.plaintext c.nowMs

/-- The state in which a mobility commit reaches the manager. -/
structure Admits (s : RedundantSession) (leases : Leases) (c : MobilityInboundCommit) (i : Fin 2)
    (d : DirectionalSession) (generation : U64) : Prop where
  active : s.state = .active
  accepts : s.acceptsReplayLease leases c = true
  generation : checkedAdd s.receiveGeneration 1 = some generation
  slot : slotIndex c.slot = some i
  session : (s.paths i).session = some d

/-- A mobility commit is refused before the manager is asked, or it follows the manager. -/
theorem commitMobility_spec (C : Crypto) (s : RedundantSession) (leases : Leases) (m : Manager)
    (ms : State) (c : MobilityInboundCommit) :
    let r := s.commitMobility C leases m ms c
    (r.1.1 = s ∧ r.2.1 = ms ∧ (∃ e, r.2.2 = .error e) ∧ s.handed leases c = none) ∨
    ∃ i d generation, Admits s leases c i d generation ∧ s.handed leases c = some d ∧
      let q := commitProfile3With m ms c.transition d
      r.2.1 = q.1.1 ∧
      ((∃ e, q.2 = .error e) ∧ (∃ e, r.2.2 = .error e) ∧
          r.1.1 = s.setPath i { s.paths i with session := some q.1.2 } ∨
        q.2 = .ok () ∧ r.2.2 = .ok () ∧ r.1.1 = afterCommit C s c i q.1.2 generation) := by
  unfold RedundantSession.commitMobility RedundantSession.handed
  dsimp only
  by_cases ha : s.state ≠ .active
  · rw [if_pos ha]
    exact .inl ⟨rfl, rfl, ⟨_, rfl⟩, by simp [ha]⟩
  · rw [if_neg ha]
    by_cases haccept : ¬ s.acceptsReplayLease leases c = true
    · rw [if_pos haccept]
      exact .inl ⟨rfl, rfl, ⟨_, rfl⟩, by simp [haccept]⟩
    · rw [if_neg haccept]
      cases hgen : checkedAdd s.receiveGeneration 1 with
      | none => exact .inl ⟨rfl, rfl, ⟨_, rfl⟩, by simp⟩
      | some generation =>
        have hpass : ¬ (s.state ≠ .active ∨ ¬ s.acceptsReplayLease leases c = true ∨
            (some generation).isNone = true) := by
          rintro (h | h | h)
          · exact ha h
          · exact haccept h
          · simp at h
        rw [if_neg hpass]
        cases hi : slotIndex c.slot with
        | none => exact .inl ⟨rfl, rfl, ⟨_, rfl⟩, rfl⟩
        | some i =>
          dsimp only [Option.bind_some]
          cases hd : (s.paths i).session with
          | none => exact .inl ⟨rfl, rfl, ⟨_, rfl⟩, rfl⟩
          | some d =>
            refine .inr ⟨i, d, generation, ⟨not_not.mp ha, not_not.mp haccept, hgen, hi, hd⟩, rfl, ?_⟩
            dsimp only
            generalize commitProfile3With m ms c.transition d = q
            obtain ⟨⟨ms', d'⟩, e | ⟨⟩⟩ := q
            · exact ⟨rfl, .inl ⟨⟨e, rfl⟩, ⟨_, rfl⟩, rfl⟩⟩
            · unfold afterCommit
              cases c.decision with
              | equal => exact ⟨rfl, .inr ⟨rfl, rfl, rfl⟩⟩
              | new => exact ⟨rfl, .inr ⟨rfl, rfl, rfl⟩⟩

theorem commitMobility_delivered {m : Manager} {ms : State} {c : MobilityInboundCommit}
    (h : (s.commitMobility C leases m ms c).2.2 = .ok ()) (hd : c.decision = .new) :
    (s.commitMobility C leases m ms c).1.1.delivered =
      s.delivered.insert C c.deliveryId c.plaintext := by
  rcases commitMobility_spec C s leases m ms c with ⟨-, -, ⟨e, he⟩, -⟩ |
    ⟨i, d, generation, -, -, -, ⟨-, ⟨e, he⟩, -⟩ | ⟨-, -, hs⟩⟩
  · simp [h] at he
  · simp [h] at he
  · rw [hs]
    simp only [afterCommit, hd, delivered_remember]
    rfl

/-- A prepared commit is the preview it was made from, with the manager's transition. -/
structure Prepared (p : InboundPreview) (c : MobilityInboundCommit) : Prop where
  owner : c.owner = p.owner
  generation : c.generation = p.generation
  slot : c.slot = p.slot
  lease : c.lease = p.lease
  id : c.deliveryId = p.sessionPreview.deliveryId
  plaintext : c.plaintext = p.sessionPreview.plaintext
  decision : c.decision = p.decision
  proof : c.transition.profile3Proof = some p.sessionPreview.intoReplayProof

theorem previewProfile3_proof {m : Manager} {ms : State} {plaintext : List Byte}
    {proof : Profile3ReplayProof} {t : Transition}
    (h : m.previewProfile3 C ms plaintext binding proof nowMs = .ok t) :
    t.profile3Proof = some proof := by
  simp only [Manager.previewProfile3, Manager.previewInner, Outcome.ite_error_eq_ok,
    Outcome.bind_eq_ok, Except.ok.injEq] at h
  obtain ⟨-, -, -, control, -, -, -, a, -, rfl⟩ := h
  rfl

theorem prepareMobilityCommit_eq_ok {m : Manager} {ms : State} {c : MobilityInboundCommit}
    (h : (s.prepareMobilityCommit C leases m ms binding p nowMs).2 = .ok c) :
    p.owner = s.receiveOwner ∧ Prepared p c := by
  unfold RedundantSession.prepareMobilityCommit at h
  dsimp only at h
  split at h
  · simp at h
  · split at h
    · simp at h
    · rename_i haccept
      obtain ⟨howner, -⟩ := acceptsLease_iff.mp (not_not.mp haccept)
      split at h
      · simp at h
      · rename_i t ht
        obtain rfl := Except.ok.inj h
        exact ⟨howner, rfl, rfl, rfl, rfl, rfl, rfl, rfl, previewProfile3_proof ht⟩

end

/-- The packet a call looks at. -/
def Call.packet? : Call → Option (List Byte)
  | .previewInbound _ _ packet _ | .previewMobilityInbound _ _ packet _ => some packet
  | _ => none

namespace World

variable {C : Crypto} {w w' : World} {call : Call} {history : List (U64 × List Byte)}
  {p : InboundPreview}

/-- The id and the bytes a call delivers. -/
def record (C : Crypto) (w : World) : Call → Option (U64 × List Byte)
  | .commitInbound p =>
    match (w.session.commitInbound C w.leases p).2 with
    | .ok (.delivered bytes) => some (p.sessionPreview.deliveryId, bytes)
    | _ => none
  | .commitMobility m ms c =>
    if (w.session.commitMobility C w.leases m ms c).2.2 = .ok () ∧ c.decision = .new then
      some (c.deliveryId, c.plaintext)
    else none
  | _ => none

/-- A run of a receiver beside everything it delivered, newest first. -/
inductive Recorded (C : Crypto) : World → List (U64 × List Byte) → Prop
  | start {w : World} (h : Starts w) : Recorded C w []
  | next {w : World} {history : List (U64 × List Byte)} {call : Call} (h : Recorded C w history)
      (ho : w.Owned call) :
      Recorded C (w.step C call) ((w.record C call).toList ++ history)

theorem record_map_fst (C : Crypto) (w : World) (call : Call) :
    (w.record C call).map Prod.fst = w.delivery C call := by
  cases call with
  | commitInbound p =>
    simp only [record, delivery]
    cases (w.session.commitInbound C w.leases p).2 with
    | error e => rfl
    | ok outcome => cases outcome <;> rfl
  | commitMobility m ms c =>
    simp only [record, delivery]
    split <;> rfl
  | _ => rfl

/-- What is recorded is what a pending lease offered, and the window has taken it in. -/
theorem record_eq_some {id : U64} {bytes : List Byte} (h : w.record C call = some (id, bytes)) :
    (w.step C call).session.delivered = w.session.delivered.insert C id bytes := by
  cases call with
  | commitInbound p =>
    simp only [record] at h
    split at h
    · rename_i bytes' hok
      obtain ⟨rfl, rfl⟩ := Prod.mk.inj (Option.some.inj h)
      exact (commitInbound_delivered hok).2
    · simp at h
  | commitMobility m ms c =>
    simp only [record] at h
    split at h
    · rename_i hok
      obtain ⟨rfl, rfl⟩ := Prod.mk.inj (Option.some.inj h)
      exact commitMobility_delivered hok.1 hok.2
    · simp at h
  | _ => simp [record] at h

theorem Recorded.reach (h : Recorded C w history) : Reach C w := by
  induction h with
  | start h => exact .start h
  | next _ ho ih => exact .next ih ho

theorem Reach.recorded (h : Reach C w) : ∃ history, Recorded C w history := by
  induction h with
  | start h => exact ⟨[], .start h⟩
  | next _ ho ih =>
    obtain ⟨history, hr⟩ := ih
    exact ⟨_, .next hr ho⟩

theorem previewed_packet (h : w.previewed C call = some p) :
    ∃ slot binding packet nowMs requireActive,
      (w.session.previewInboundInner C w.leases slot binding packet nowMs requireActive).2 = .ok p ∧
      w.next C call =
        (w.session.previewInboundInner C w.leases slot binding packet nowMs requireActive).1 ∧
      Call.packet? call = some packet := by
  cases call with
  | previewInbound slot binding packet nowMs =>
    exact ⟨slot, binding, packet, nowMs, true, Outcome.toOption_eq_some.mp h, rfl, rfl⟩
  | previewMobilityInbound slot binding packet nowMs =>
    exact ⟨slot, binding, packet, nowMs, false, Outcome.toOption_eq_some.mp h, rfl, rfl⟩
  | _ => simp [previewed] at h

/-- What holds when a preview has just been handed out. -/
structure Lends (C : Crypto) (w : World) (call : Call) (p : InboundPreview) : Prop where
  lease : p.lease = w.leases.next
  next : (w.step C call).leases.next = w.leases.next + 1
  pending : (w.step C call).session.receivePreview = some w.leases.next
  active : w.session.state = .active
  delivered : (w.step C call).session.delivered = w.session.delivered
  previews : ∃ packet, call.packet? = some packet ∧ Previews C w.session packet p

theorem previewed_lends (h : w.previewed C call = some p) : Lends C w call p := by
  obtain ⟨slot, binding, packet, nowMs, requireActive, hok, hnext, hpacket⟩ := previewed_packet h
  rcases previewInboundInner_cases C w.session w.leases slot binding packet nowMs requireActive with
    ⟨-, -, e, he⟩ | ⟨q, hq, hl, hn, hpending, hactive, hw, -, -⟩
  · rw [hok] at he
    cases he
  · obtain rfl := Except.ok.inj (hok.symm.trans hq)
    rw [← hnext] at hn hpending hw
    exact ⟨hl, hn, hpending, hactive, hw, packet, hpacket, previewInboundInner_eq_ok hok⟩

/-- While a preview is pending, what it says of its id is what the window would still say. -/
structure Decided (C : Crypto) (w : World) (history : List (U64 × List Byte)) : Prop where
  fresh : ∀ p ∈ w.previews, p.lease < w.leases.next
  prints : w.session.state = .active → w.session.delivered.Prints C history
  right : w.session.state = .active → ∀ p ∈ w.previews, w.session.receivePreview = some p.lease →
    Right C w.session.delivered p.decision p.sessionPreview.deliveryId p.sessionPreview.plaintext
  prepared : ∀ c ∈ w.prepared, ∃ p ∈ w.previews, Prepared p c

theorem record_of_previewed (h : w.previewed C call = some p) : w.record C call = none := by
  cases call <;> first | rfl | simp [previewed] at h

theorem decided_start (h : Starts w) : Decided C w [] := by
  obtain ⟨⟨b, binding, seed, owner, hs⟩, hp, hc, -⟩ := h
  refine ⟨by simp [hp], ?_, by simp [hp], by simp [hc]⟩
  intro _
  obtain ⟨d, -, -, hstarted⟩ := new_eq_ok hs
  rw [hstarted.delivered]
  exact .new C

/-- Whatever was prepared before is still linked. -/
theorem prepared_step (hi : Decided C w history) (ho : w.Owned call) :
    ∀ c ∈ (w.step C call).prepared, ∃ p ∈ (w.step C call).previews, Prepared p c := by
  intro c hc
  rcases List.mem_append.mp hc with hc | hc
  · have hprep := Option.mem_toList.mp hc
    cases call with
    | prepareMobilityCommit m ms binding p nowMs =>
      obtain ⟨howner, hprepared⟩ := prepareMobilityCommit_eq_ok (Outcome.toOption_eq_some.mp hprep)
      exact ⟨p, List.mem_append_right _ (ho.resolve_right (not_not.mpr howner)), hprepared⟩
    | _ => simp [preparedBy] at hprep
  · obtain ⟨p, hp, hprepared⟩ := hi.prepared c hc
    exact ⟨p, List.mem_append_right _ hp, hprepared⟩

theorem decided_lend (hi : Decided C w history) (ho : w.Owned call)
    (hprev : w.previewed C call = some p) :
    Decided C (w.step C call) ((w.record C call).toList ++ history) := by
  have hl := previewed_lends hprev
  have hmem : ∀ q ∈ (w.step C call).previews, q = p ∨ q ∈ w.previews := by
    intro q hq
    simpa [step, hprev] using hq
  rw [record_of_previewed hprev]
  refine ⟨?_, ?_, ?_, prepared_step hi ho⟩
  · intro q hq
    rw [hl.next]
    rcases hmem q hq with rfl | hq
    · rw [hl.lease]
      exact Nat.lt_succ_self _
    · exact (hi.fresh q hq).trans (Nat.lt_succ_self _)
  · intro _
    rw [hl.delivered]
    exact hi.prints hl.active
  · intro _ q hq hpending
    rw [hl.delivered]
    rcases hmem q hq with rfl | hq
    · obtain ⟨packet, -, hp⟩ := hl.previews
      exact hp.right
    · -- An older preview has an older lease, so it is not the one that is pending now.
      have heq := Option.some.inj (hl.pending.symm.trans hpending)
      exact absurd heq (hi.fresh q hq).ne'

/-- What a lease offers, one of its previews calls new. -/
theorem offered (hi : Decided C w history) {lease : ℕ} {id : U64} (h : (lease, id) ∈ w.offers) :
    ∃ p ∈ w.previews, p.lease = lease ∧ p.sessionPreview.deliveryId = id ∧ p.decision = .new := by
  simp only [offers, List.mem_append, List.mem_map, List.mem_filter, decide_eq_true_eq,
    Prod.mk.injEq] at h
  rcases h with ⟨p, ⟨hp, hd⟩, rfl, rfl⟩ | ⟨c, ⟨hc, hd⟩, rfl, rfl⟩
  · exact ⟨p, hp, rfl, rfl, hd⟩
  · obtain ⟨p, hp, hprepared⟩ := hi.prepared c hc
    exact ⟨p, hp, hprepared.lease.symm, hprepared.id.symm, hprepared.decision.symm.trans hd⟩

/-- What a call delivers, a preview of this receiver opened. -/
theorem record_previewed (hi : Decided C w history) (ho : w.Owned call) {id : U64}
    {bytes : List Byte} (h : w.record C call = some (id, bytes)) :
    ∃ p ∈ w.previews, p.sessionPreview.deliveryId = id ∧ p.sessionPreview.plaintext = bytes := by
  cases call with
  | commitInbound p =>
    simp only [record] at h
    split at h
    · rename_i bytes' hok
      obtain ⟨rfl, rfl⟩ := Prod.mk.inj (Option.some.inj h)
      rcases (commitInbound_cases C w.session w.leases p).2 with ⟨-, hnot⟩ | ⟨-, -, -, howner, -⟩
      · exact absurd hok (hnot bytes')
      · exact ⟨p, ho.resolve_right (not_not.mpr howner), rfl, (commitInbound_delivered hok).1.symm⟩
    · simp at h
  | commitMobility m ms c =>
    simp only [record] at h
    split at h
    · rename_i hok
      obtain ⟨rfl, rfl⟩ := Prod.mk.inj (Option.some.inj h)
      rcases (commitMobility_cases C w.session w.leases m ms c).2 with ⟨-, hnot⟩ |
        ⟨-, -, -, howner, -⟩
      · simp [hok.2] at hnot
        exact absurd hok.1 hnot
      · obtain ⟨p, hp, hprepared⟩ := hi.prepared c (ho.resolve_right (not_not.mpr howner))
        exact ⟨p, hp, hprepared.id.symm, hprepared.plaintext.symm⟩
    · simp at h
  | _ => simp [record] at h

theorem decided_step (hi : Decided C w history) (ho : w.Owned call) :
    Decided C (w.step C call) ((w.record C call).toList ++ history) := by
  cases hprev : w.previewed C call with
  | some p => exact decided_lend hi ho hprev
  | none =>
    have hsame : (w.step C call).previews = w.previews := by simp [step, hprev]
    cases step_effect (C := C) ho with
    | lend p hp => simp [hprev] at hp
    | quiet hq hn _ hd =>
      have hnone : w.record C call = none := by
        have hdelivery : w.delivery C call = none := by
          simpa [step] using hd
        rw [← record_map_fst] at hdelivery
        simpa using hdelivery
      refine ⟨?_, ?_, ?_, prepared_step hi ho⟩
      · rw [hsame, hn]
        exact hi.fresh
      · intro ha
        obtain ⟨hactive, hwindow⟩ := hq.active ha
        rw [hwindow, hnone]
        exact hi.prints hactive
      · intro ha p hp hpending
        obtain ⟨hactive, hwindow⟩ := hq.active ha
        rw [hsame] at hp
        rw [hwindow]
        rcases hq.pending with he | he
        · exact hi.right hactive p hp (he.symm.trans hpending)
        · simp [he] at hpending
    | deliver lease id hdel hn hoffer hpending _ hd =>
      obtain ⟨bytes, hrecord⟩ : ∃ bytes, w.record C call = some (id, bytes) := by
        have hdelivery : w.delivery C call = some id := by
          cases hw : w.delivery C call with
          | none => simp [step, hw] at hd
          | some id' =>
            simp only [step, hw, Option.toList_some, List.singleton_append, List.cons.injEq] at hd
            rw [hd.1]
        rw [← record_map_fst, Option.map_eq_some_iff] at hdelivery
        obtain ⟨⟨id', bytes⟩, hr, rfl⟩ := hdelivery
        exact ⟨bytes, hr⟩
      have hwindow := record_eq_some hrecord
      have hunknown : ¬ w.session.delivered.Knows id := by
        obtain ⟨p, hp, hl, hid, hnew⟩ := offered hi hoffer
        have hright := hi.right hdel.active p hp (by rw [hl]; exact hpending)
        rw [hnew, hid] at hright
        exact hright
      refine ⟨?_, ?_, ?_, prepared_step hi ho⟩
      · rw [hsame, hn]
        exact hi.fresh
      · intro _
        rw [hwindow, hrecord]
        exact (hi.prints hdel.active).insert (fun h => hunknown (.inl h)) bytes
      · intro _ p _ hpending'
        simp [hdel.pending] at hpending'

theorem Recorded.deliveries (h : Recorded C w history) : w.deliveries = history.map Prod.fst := by
  induction h with
  | start h => exact h.2.2.2
  | @next w _ call _ _ ih =>
    simp only [step, ← record_map_fst, ih, List.map_append]
    cases w.record C call <;> rfl

theorem Recorded.decided (h : Recorded C w history) : Decided C w history := by
  induction h with
  | start h => exact decided_start h
  | next _ ho ih => exact decided_step ih ho

/-- The run and the call that handed a preview out. -/
structure Lent (C : Crypto) (w : World) (p : InboundPreview) (w₀ : World) (packet : List Byte) :
    Prop where
  reach : Reach C w₀
  run : Machine.Run (step C) Owned w₀ w
  previews : Previews C w₀.session packet p

theorem Reach.lent (h : Reach C w) (hp : p ∈ w.previews) : ∃ w₀ packet, Lent C w p w₀ packet := by
  induction h with
  | start h =>
    rw [h.2.1] at hp
    cases hp
  | @next w call hr ho ih =>
    rcases List.mem_append.mp hp with hp | hp
    · obtain ⟨packet, -, hpreviews⟩ := (previewed_lends (Option.mem_toList.mp hp)).previews
      exact ⟨w, packet, hr, .next (.start rfl) ho, hpreviews⟩
    · obtain ⟨w₀, packet, hr₀, hrun, hpreviews⟩ := ih hp
      exact ⟨w₀, packet, hr₀, .next hrun ho, hpreviews⟩

end World

end R8.Redundant
