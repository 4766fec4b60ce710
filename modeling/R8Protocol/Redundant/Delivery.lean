import R8Protocol.Lib.Machine
import R8Protocol.Redundant.Session

/-! At-most-once delivery over both paths of one receiver, for every order of its calls. -/
namespace R8.Redundant

open FixedWidth Wire Session Mobility

/-- What no call but a new delivery changes. A session that is still active knows the ids it knew,
and a pending preview is the one that was pending or none. -/
structure Quiet (s s' : RedundantSession) : Prop where
  active : s'.state = .active → s.state = .active ∧ s'.delivered = s.delivered
  owner : s'.receiveOwner = s.receiveOwner
  pending : s'.receivePreview = s.receivePreview ∨ s'.receivePreview = none

namespace Quiet

variable {s s' s'' : RedundantSession} {leases : Leases}

theorem refl (s : RedundantSession) : Quiet s s := ⟨fun h => ⟨h, rfl⟩, rfl, .inl rfl⟩

theorem trans (h : Quiet s s') (h' : Quiet s' s'') : Quiet s s'' where
  active ha := by
    obtain ⟨h₁, h₂⟩ := h'.active ha
    obtain ⟨h₃, h₄⟩ := h.active h₁
    exact ⟨h₃, h₂.trans h₄⟩
  owner := h'.owner.trans h.owner
  pending := by
    rcases h'.pending with h₁ | h₁
    · rw [h₁]
      exact h.pending
    · exact .inr h₁

theorem close (s : RedundantSession) (leases : Leases) : Quiet s (s.close leases).1 := by
  unfold RedundantSession.close
  split
  · exact .refl s
  · exact ⟨by simp [RedundantSession.event], rfl, .inr rfl⟩

theorem reap (s : RedundantSession) (leases : Leases) : Quiet s (s.reapPreview leases) := by
  unfold RedundantSession.reapPreview
  split
  · exact ⟨fun h => ⟨h, rfl⟩, rfl, .inr rfl⟩
  · exact .refl s

theorem event (s : RedundantSession) (e : RedundantEvent) : Quiet s (s.event e) :=
  ⟨fun h => ⟨h, rfl⟩, rfl, .inl rfl⟩

theorem setPath (s : RedundantSession) (i : Fin 2) (p : Path) : Quiet s (s.setPath i p) :=
  ⟨fun h => ⟨h, rfl⟩, rfl, .inl rfl⟩

theorem unlend (s : RedundantSession) : Quiet s { s with receivePreview := none } :=
  ⟨fun h => ⟨h, rfl⟩, rfl, .inr rfl⟩

theorem takeSlot1 (C : Crypto) (s : RedundantSession) (admission : Profile3Admission) (owner : ℕ) :
    Quiet s (s.takeSlot1 C admission owner).1 := by
  unfold RedundantSession.takeSlot1
  split
  · split
    · exact .refl s
    · dsimp only
      split
      · exact ⟨fun h => ⟨h, rfl⟩, rfl, .inl rfl⟩
      · split <;> exact ⟨fun h => ⟨h, rfl⟩, rfl, .inl rfl⟩
  · exact .refl s

theorem activate (C : Crypto) (s : RedundantSession) (leases : Leases)
    (admission : Profile3Admission) (budget owner : ℕ) :
    Quiet s (s.activate C leases admission budget owner).1 := by
  unfold RedundantSession.activate
  split
  · exact .refl s
  · split
    · exact .refl s
    · have hr := reap s leases
      dsimp only
      generalize s.reapPreview leases = t at hr ⊢
      split
      · exact hr
      · split
        · exact hr
        · have ht := hr.trans (takeSlot1 C t admission owner)
          generalize t.takeSlot1 C admission owner = r at ht ⊢
          obtain ⟨u, e | session⟩ := r
          · exact ht
          · exact ht.trans ⟨fun h => ⟨h, rfl⟩, rfl, .inl rfl⟩

theorem sendOn (C : Crypto) (s : RedundantSession) (i : Fin 2) (delivery : U64)
    (plaintext : List Byte) : Quiet s (s.sendOn C i delivery plaintext).1 := by
  unfold RedundantSession.sendOn
  split
  · exact .refl s
  · split
    · dsimp only
      split <;> exact .setPath s i _
    · exact .refl s

theorem sendAll (C : Crypto) (s : RedundantSession) (delivery : U64) (plaintext : List Byte)
    (is : List (Fin 2)) : Quiet s (s.sendAll C delivery plaintext is).1 := by
  induction is generalizing s with
  | nil => exact .refl s
  | cons i is ih =>
    have h := sendOn C s i delivery plaintext
    unfold RedundantSession.sendAll
    generalize s.sendOn C i delivery plaintext = r at h ⊢
    obtain ⟨t, calls, e | packet⟩ := r
    · exact h
    · exact h.trans (ih t)

theorem outbound (C : Crypto) (s : RedundantSession) (leases : Leases) (plaintext : List Byte) :
    Quiet s (s.outbound C leases plaintext).1.1 := by
  unfold RedundantSession.outbound
  split
  · exact .refl s
  · dsimp only
    split
    · exact .refl s
    · split
      · exact .refl s
      · exact .event s _
      · exact .close s leases
      · split
        · exact .close s leases
        · have h := sendAll C s s.nextDelivery plaintext s.activePaths
          generalize s.sendAll C s.nextDelivery plaintext s.activePaths = r at h ⊢
          obtain ⟨t, calls, e | packets⟩ := r
          · exact h
          · exact h.trans ⟨fun h => ⟨h, rfl⟩, rfl, .inl rfl⟩

theorem confirmSent (s : RedundantSession) (slot : Byte) (packet : List Byte) :
    Quiet s (s.confirmSent slot packet).1 := by
  unfold RedundantSession.confirmSent
  split
  · exact .refl s
  · split
    · exact .refl s
    · split
      · exact .refl s
      · exact .setPath s _ _

theorem issueOwner (s : RedundantSession) (policyId : U32) (ownerLive : Bool) (capability : ℕ) :
    Quiet s (s.issueProfile3AdmissionOwner policyId ownerLive capability).1 := by
  unfold RedundantSession.issueProfile3AdmissionOwner
  split
  · exact .refl s
  · split
    · exact .refl s
    · dsimp only
      split
      · split <;> exact ⟨fun h => ⟨h, rfl⟩, rfl, .inl rfl⟩
      · exact ⟨fun h => ⟨h, rfl⟩, rfl, .inl rfl⟩

theorem expire (s : RedundantSession) (nowMs : U64) : Quiet s (s.expire nowMs) :=
  ⟨fun h => ⟨h, rfl⟩, rfl, .inl rfl⟩

theorem tick (s : RedundantSession) (leases : Leases) (nowMs : U64) :
    Quiet s (s.tick leases nowMs).1 := by
  unfold RedundantSession.tick
  split
  · exact .refl s
  · exact (reap s leases).trans (.expire _ nowMs)

theorem removeSlot (s : RedundantSession) (leases : Leases) (slot : Byte) :
    Quiet s (s.removeSlot leases slot).1.1 := by
  have hremoved : ∀ i p g e, Quiet s (({ s.setPath i p with receiveGeneration := g }).event e) :=
    fun i p g e => ⟨fun h => ⟨h, rfl⟩, rfl, .inl rfl⟩
  unfold RedundantSession.removeSlot
  split
  · exact .refl s
  · exact .refl s
  · split
    · exact .refl s
    · split
      · exact .refl s
      · dsimp only
        split
        · exact (hremoved _ _ _ _).trans (.close _ _)
        · exact hremoved _ _ _ _

theorem removePath (s : RedundantSession) (leases : Leases) (slot : Byte) :
    Quiet s (s.removePath leases slot).1.1 := by
  unfold RedundantSession.removePath
  split
  · exact .refl s
  · exact (reap s leases).trans ((unlend _).trans (.removeSlot _ _ slot))

theorem abortInbound (s : RedundantSession) (leases : Leases) (p : InboundPreview) :
    Quiet s (s.abortInbound leases p).1.1 := by
  unfold RedundantSession.abortInbound
  dsimp only
  split
  · exact .refl s
  · split
    · exact .refl s
    · exact .unlend s

end Quiet

section

variable {C : Crypto} {s : RedundantSession} {leases : Leases}

@[simp] theorem Leases.next_deactivate (l : Leases) (lease : ℕ) :
    (l.deactivate lease).next = l.next := rfl

@[simp] theorem Leases.next_revoke (l : Leases) (pending : Option ℕ) :
    (l.revoke pending).next = l.next := by
  cases pending <;> rfl

theorem next_close (s : RedundantSession) (leases : Leases) :
    (s.close leases).2.next = leases.next := by
  unfold RedundantSession.close
  split
  · rfl
  · exact leases.next_revoke _

/-- A preview changes nothing that matters, or lends a fresh lease. It calls an id new only if the
window does not know it. -/
theorem previewInboundInner_cases (C : Crypto) (s : RedundantSession) (leases : Leases) (slot : Byte)
    (binding : ObservedBinding) (packet : List Byte) (nowMs : U64) (requireActive : Bool) :
    let r := s.previewInboundInner C leases slot binding packet nowMs requireActive
    (Quiet s r.1.1 ∧ r.1.2.next = leases.next ∧ ∃ e, r.2 = .error e) ∨
    ∃ p, r.2 = .ok p ∧ p.lease = leases.next ∧ r.1.2.next = leases.next + 1 ∧
      r.1.1.receivePreview = some leases.next ∧ s.state = .active ∧
      r.1.1.delivered = s.delivered ∧ r.1.1.receiveOwner = s.receiveOwner ∧
      (p.decision = .new → ¬ s.delivered.Knows p.sessionPreview.deliveryId) := by
  have hr := Quiet.reap s leases
  unfold RedundantSession.previewInboundInner
  split
  · exact .inl ⟨.refl s, rfl, _, rfl⟩
  · split
    · exact .inl ⟨.refl s, rfl, _, rfl⟩
    · rename_i hactive
      push Not at hactive
      have hd : (s.reapPreview leases).delivered = s.delivered := by
        unfold RedundantSession.reapPreview
        split <;> rfl
      dsimp only
      generalize s.reapPreview leases = t at hr hd ⊢
      split
      · exact .inl ⟨hr, rfl, _, rfl⟩
      · split
        · exact .inl ⟨hr, rfl, _, rfl⟩
        · rename_i preview _
          split
          · exact .inl ⟨hr, rfl, _, rfl⟩
          · rename_i hold
            split
            · split
              · exact .inr ⟨_, rfl, rfl, rfl, rfl, hactive, hd, hr.owner, by simp⟩
              · exact .inl ⟨hr.trans ((Quiet.event t _).trans (.close _ leases)), next_close _ _, _,
                  rfl⟩
            · rename_i hseen
              split
              · exact .inl ⟨hr, rfl, _, rfl⟩
              · refine .inr ⟨_, rfl, rfl, rfl, rfl, hactive, hd, hr.owner, ?_⟩
                rw [← hd]
                rintro - (h | h)
                · exact hold h
                · exact hseen h

theorem acceptsLease_iff {owner lease : ℕ} {generation : U64} :
    s.acceptsLease leases owner generation lease = true ↔
      owner = s.receiveOwner ∧ generation = s.receiveGeneration ∧ leases.isActive lease = true ∧
        s.receivePreview = some lease := by
  simp [RedundantSession.acceptsLease]

/-- A delivery is remembered in the window and the cache only. -/
theorem remember_frame (C : Crypto) (s : RedundantSession) (id : U64) (bytes : List Byte)
    (nowMs : U64) : ∃ dedup, s.remember C id bytes nowMs =
      { s with delivered := s.delivered.insert C id bytes, dedup } := by
  unfold RedundantSession.remember RedundantSession.evict
  split <;> exact ⟨_, rfl⟩

section

variable (C : Crypto) (s : RedundantSession) (id : U64) (bytes : List Byte) (nowMs : U64)

theorem delivered_remember :
    (s.remember C id bytes nowMs).delivered = s.delivered.insert C id bytes := by
  obtain ⟨dedup, h⟩ := remember_frame C s id bytes nowMs
  rw [h]

theorem paths_remember : (s.remember C id bytes nowMs).paths = s.paths := by
  obtain ⟨dedup, h⟩ := remember_frame C s id bytes nowMs
  rw [h]

theorem state_remember : (s.remember C id bytes nowMs).state = s.state := by
  obtain ⟨dedup, h⟩ := remember_frame C s id bytes nowMs
  rw [h]

theorem generation_remember :
    (s.remember C id bytes nowMs).receiveGeneration = s.receiveGeneration := by
  obtain ⟨dedup, h⟩ := remember_frame C s id bytes nowMs
  rw [h]

theorem pending_remember : (s.remember C id bytes nowMs).receivePreview = s.receivePreview := by
  obtain ⟨dedup, h⟩ := remember_frame C s id bytes nowMs
  rw [h]

end

/-- What a new delivery of an id does. -/
structure Delivers (C : Crypto) (s s' : RedundantSession) (id : U64) : Prop where
  active : s.state = .active
  delivered : ∃ bytes, s'.delivered = s.delivered.insert C id bytes
  owner : s'.receiveOwner = s.receiveOwner
  pending : s'.receivePreview = none

theorem remember_delivers {t : RedundantSession} (ht : Quiet s t) (hactive : s.state = .active)
    (ha : t.state = .active) (hp : t.receivePreview = none) (id : U64) (bytes : List Byte)
    (nowMs : U64) : Delivers C s (t.remember C id bytes nowMs) id := by
  obtain ⟨dedup, hframe⟩ := remember_frame C t id bytes nowMs
  rw [hframe]
  refine ⟨hactive, ⟨bytes, ?_⟩, ht.owner, hp⟩
  dsimp only
  rw [(ht.active ha).2]

theorem commitProfile3Data_id {session : DirectionalSession} {p : Profile3DataPreview} {id : U64}
    {bytes : List Byte} (h : (session.commitProfile3Data p).2 = .ok (id, bytes)) :
    id = p.deliveryId := by
  unfold DirectionalSession.commitProfile3Data at h
  split at h
  · simp at h
  · split at h
    · simp at h
    · exact (Prod.mk.inj (Except.ok.inj h)).1.symm

/-- The commit of a path's session leaves the rest alone. -/
theorem commit_frame (s : RedundantSession) (slot : Byte) (p : Profile3DataPreview) :
    let r := s.commit slot p
    (∃ paths, r.1 = { s with paths := paths }) ∧
      ∀ id bytes, r.2 = .ok (id, bytes) → id = p.deliveryId := by
  unfold RedundantSession.commit
  split
  · exact ⟨⟨s.paths, rfl⟩, by simp⟩
  · split
    · exact ⟨⟨s.paths, rfl⟩, by simp⟩
    · rename_i session _
      refine ⟨⟨_, rfl⟩, ?_⟩
      intro id bytes h
      apply @commitProfile3Data_id session p id bytes
      revert h
      dsimp only
      cases (session.commitProfile3Data p).2 <;> simp [Except.mapError]

/-- A commit delivers what an accepted preview called new, or changes nothing that matters. -/
theorem commitInbound_cases (C : Crypto) (s : RedundantSession) (leases : Leases)
    (p : InboundPreview) :
    let r := s.commitInbound C leases p
    r.1.2.next = leases.next ∧
    ((Quiet s r.1.1 ∧ ∀ bytes, r.2 ≠ .ok (.delivered bytes)) ∨
    (Delivers C s r.1.1 p.sessionPreview.deliveryId ∧ p.decision = .new ∧
      (∃ bytes, r.2 = .ok (.delivered bytes)) ∧ p.owner = s.receiveOwner ∧
      s.receivePreview = some p.lease)) := by
  unfold RedundantSession.commitInbound
  dsimp only
  split
  · exact ⟨rfl, .inl ⟨.refl s, by simp⟩⟩
  · rename_i hactive
    push Not at hactive
    split
    · exact ⟨rfl, .inl ⟨.refl s, by simp⟩⟩
    · rename_i haccept
      obtain ⟨howner, -, -, hpending⟩ := acceptsLease_iff.mp (not_not.mp haccept)
      split
      · exact ⟨rfl, .inl ⟨.refl s, by simp⟩⟩
      · rename_i generation _
        obtain ⟨⟨paths, hframe⟩, hid⟩ := commit_frame { s with receivePreview := none } p.slot
          p.sessionPreview
        generalize ({ s with receivePreview := none } : RedundantSession).commit p.slot
          p.sessionPreview = r at hframe hid ⊢
        obtain ⟨t, e | ⟨id, bytes⟩⟩ := r
        · obtain rfl : t = _ := hframe
          exact ⟨rfl, .inl ⟨⟨fun h => ⟨h, rfl⟩, rfl, .inr rfl⟩, by simp⟩⟩
        · obtain rfl : t = _ := hframe
          obtain rfl := hid id bytes rfl
          cases hdec : p.decision with
          | equal => exact ⟨rfl, .inl ⟨⟨fun h => ⟨h, rfl⟩, rfl, .inr rfl⟩, by simp⟩⟩
          | new =>
            refine ⟨rfl, .inr ⟨?_, rfl, ⟨bytes, rfl⟩, howner, hpending⟩⟩
            dsimp only
            refine remember_delivers ?_ hactive ?_ rfl _ _ _
            · exact ⟨fun h => ⟨h, rfl⟩, rfl, .inr rfl⟩
            · exact hactive

/-- The same for a commit through a mobility manager. -/
theorem commitMobility_cases (C : Crypto) (s : RedundantSession) (leases : Leases) (m : Manager)
    (ms : State) (c : MobilityInboundCommit) :
    let r := s.commitMobility C leases m ms c
    r.1.2.next = leases.next ∧
    ((Quiet s r.1.1 ∧ (r.2.2 = .ok () → c.decision = .equal)) ∨
    (Delivers C s r.1.1 c.deliveryId ∧ c.decision = .new ∧ r.2.2 = .ok () ∧
      c.owner = s.receiveOwner ∧ s.receivePreview = some c.lease)) := by
  unfold RedundantSession.commitMobility
  dsimp only
  split
  · exact ⟨rfl, .inl ⟨.refl s, by simp⟩⟩
  · rename_i hactive
    push Not at hactive
    split
    · exact ⟨rfl, .inl ⟨.refl s, by simp⟩⟩
    · rename_i haccept
      obtain ⟨howner, -, -, hpending⟩ := acceptsLease_iff.mp (not_not.mp haccept)
      split
      · exact ⟨rfl, .inl ⟨.refl s, by simp⟩⟩
      · exact ⟨rfl, .inl ⟨.refl s, by simp⟩⟩
      · split
        · exact ⟨rfl, .inl ⟨.refl s, by simp⟩⟩
        · rename_i session _
          generalize commitProfile3With m ms c.transition session = r
          obtain ⟨⟨ms', session'⟩, e | ⟨⟩⟩ := r
          · exact ⟨rfl, .inl ⟨.setPath s _ _, by simp⟩⟩
          · cases hdec : c.decision with
            | equal => exact ⟨rfl, .inl ⟨⟨fun h => ⟨h, rfl⟩, rfl, .inr rfl⟩, by simp⟩⟩
            | new =>
              refine ⟨rfl, .inr ⟨?_, rfl, rfl, howner, hpending⟩⟩
              dsimp only
              refine remember_delivers ?_ hactive ?_ rfl _ _ _
              · exact ⟨fun h => ⟨h, rfl⟩, rfl, .inr rfl⟩
              · exact hactive

end

/-- A receiver with the previews and prepared commits its callers hold, and the ids delivered so
far, newest first. A value may be used again here, which is more than moves allow. -/
structure World where
  session : RedundantSession
  leases : Leases
  previews : List InboundPreview
  prepared : List MobilityInboundCommit
  deliveries : List U64

inductive Call
  | previewInbound (slot : Byte) (binding : ObservedBinding) (packet : List Byte) (nowMs : U64)
  | previewMobilityInbound (slot : Byte) (binding : ObservedBinding) (packet : List Byte)
      (nowMs : U64)
  | commitInbound (p : InboundPreview)
  | abortInbound (p : InboundPreview)
  | dropPreview (p : InboundPreview)
  | prepareMobilityCommit (m : Manager) (ms : State) (binding : ObservedBinding)
      (p : InboundPreview) (nowMs : U64)
  | dropCommit (c : MobilityInboundCommit)
  | commitMobility (m : Manager) (ms : State) (c : MobilityInboundCommit)
  | issueOwner (policyId : U32) (ownerLive : Bool) (capability : ℕ)
  | activate (admission : Profile3Admission) (budget owner : ℕ)
  | outbound (plaintext : List Byte)
  | confirmSent (slot : Byte) (packet : List Byte)
  | removePath (slot : Byte)
  | expire (nowMs : U64)
  | tick (nowMs : U64)
  | close

namespace World

def next (C : Crypto) (w : World) : Call → RedundantSession × Leases
  | .previewInbound slot binding packet nowMs =>
    (w.session.previewInbound C w.leases slot binding packet nowMs).1
  | .previewMobilityInbound slot binding packet nowMs =>
    (w.session.previewMobilityInbound C w.leases slot binding packet nowMs).1
  | .commitInbound p => (w.session.commitInbound C w.leases p).1
  | .abortInbound p => (w.session.abortInbound w.leases p).1
  | .dropPreview p => (w.session, w.leases.deactivate p.lease)
  | .prepareMobilityCommit m ms binding p nowMs =>
    (w.session, (w.session.prepareMobilityCommit C w.leases m ms binding p nowMs).1)
  | .dropCommit c => (w.session, w.leases.deactivate c.lease)
  | .commitMobility m ms c => (w.session.commitMobility C w.leases m ms c).1
  | .issueOwner policyId ownerLive capability =>
    ((w.session.issueProfile3AdmissionOwner policyId ownerLive capability).1, w.leases)
  | .activate admission budget owner =>
    ((w.session.activate C w.leases admission budget owner).1, w.leases)
  | .outbound plaintext => (w.session.outbound C w.leases plaintext).1
  | .confirmSent slot packet => ((w.session.confirmSent slot packet).1, w.leases)
  | .removePath slot => (w.session.removePath w.leases slot).1
  | .expire nowMs => (w.session.expire nowMs, w.leases)
  | .tick nowMs => ((w.session.tick w.leases nowMs).1, w.leases)
  | .close => w.session.close w.leases

def previewed (C : Crypto) (w : World) : Call → Option InboundPreview
  | .previewInbound slot binding packet nowMs =>
    (w.session.previewInbound C w.leases slot binding packet nowMs).2.toOption
  | .previewMobilityInbound slot binding packet nowMs =>
    (w.session.previewMobilityInbound C w.leases slot binding packet nowMs).2.toOption
  | _ => none

def preparedBy (C : Crypto) (w : World) : Call → Option MobilityInboundCommit
  | .prepareMobilityCommit m ms binding p nowMs =>
    (w.session.prepareMobilityCommit C w.leases m ms binding p nowMs).2.toOption
  | _ => none

/-- The id a call delivers: the outcome is `Delivered`, or a mobility commit of a new id. -/
def delivery (C : Crypto) (w : World) : Call → Option U64
  | .commitInbound p =>
    match (w.session.commitInbound C w.leases p).2 with
    | .ok (.delivered _) => some p.sessionPreview.deliveryId
    | _ => none
  | .commitMobility m ms c =>
    if (w.session.commitMobility C w.leases m ms c).2.2 = .ok () ∧ c.decision = .new then
      some c.deliveryId
    else none
  | _ => none

def step (C : Crypto) (w : World) (call : Call) : World where
  session := (w.next C call).1
  leases := (w.next C call).2
  previews := (w.previewed C call).toList ++ w.previews
  prepared := (w.preparedBy C call).toList ++ w.prepared
  deliveries := (w.delivery C call).toList ++ w.deliveries

/-- Values of this receiver come from its own calls; those of another have another owner. -/
def Owned (w : World) : Call → Prop
  | .commitInbound p | .abortInbound p | .dropPreview p | .prepareMobilityCommit _ _ _ p _ =>
    p ∈ w.previews ∨ p.owner ≠ w.session.receiveOwner
  | .dropCommit c | .commitMobility _ _ c =>
    c ∈ w.prepared ∨ c.owner ≠ w.session.receiveOwner
  | _ => True

def Starts (w : World) : Prop :=
  (∃ bootstrap binding deliverySeed owner,
    RedundantSession.new bootstrap binding deliverySeed owner = .ok w.session) ∧
  w.previews = [] ∧ w.prepared = [] ∧ w.deliveries = []

abbrev Reach (C : Crypto) (w : World) : Prop := Machine.Reach Starts (step C) Owned w

/-- The leases under which something new may still be delivered, with the ids. -/
def offers (w : World) : List (ℕ × U64) :=
  (w.previews.filter (·.decision = .new)).map (fun p => (p.lease, p.sessionPreview.deliveryId)) ++
    (w.prepared.filter (·.decision = .new)).map fun c => (c.lease, c.deliveryId)

/-- Delivered ids are known for as long as the session lives, and what the pending lease offers is
not one of them. -/
structure Invariant (w : World) : Prop where
  fresh : ∀ o ∈ w.offers, o.1 < w.leases.next
  known : w.session.state = .active → ∀ id ∈ w.deliveries, w.session.delivered.Knows id
  pending : ∀ o ∈ w.offers, w.session.receivePreview = some o.1 → o.2 ∉ w.deliveries
  nodup : w.deliveries.Nodup

variable {C : Crypto} {w : World} {call : Call}

theorem mem_offers_preview {p : InboundPreview} (hp : p ∈ w.previews) (hd : p.decision = .new) :
    (p.lease, p.sessionPreview.deliveryId) ∈ w.offers := by
  refine List.mem_append_left _ (List.mem_map.mpr ⟨p, ?_, rfl⟩)
  simp [hp, hd]

theorem mem_offers_prepared {c : MobilityInboundCommit} (hc : c ∈ w.prepared)
    (hd : c.decision = .new) : (c.lease, c.deliveryId) ∈ w.offers := by
  refine List.mem_append_right _ (List.mem_map.mpr ⟨c, ?_, rfl⟩)
  simp [hc, hd]

theorem mem_offers_step {o : ℕ × U64} (h : o ∈ (w.step C call).offers) :
    o ∈ w.offers ∨
    (∃ p, w.previewed C call = some p ∧ p.decision = .new ∧
      o = (p.lease, p.sessionPreview.deliveryId)) ∨
    ∃ c, w.preparedBy C call = some c ∧ c.decision = .new ∧ o = (c.lease, c.deliveryId) := by
  simp only [offers, step, List.filter_append, List.map_append, List.mem_append, List.mem_map,
    List.mem_filter, Option.mem_toList, decide_eq_true_eq] at h
  rcases h with (⟨p, ⟨hp, hd⟩, rfl⟩ | ⟨p, ⟨hp, hd⟩, rfl⟩) | ⟨c, ⟨hc, hd⟩, rfl⟩ | ⟨c, ⟨hc, hd⟩, rfl⟩
  · exact .inr (.inl ⟨p, hp, hd, rfl⟩)
  · exact .inl (mem_offers_preview hp hd)
  · exact .inr (.inr ⟨c, hc, hd, rfl⟩)
  · exact .inl (mem_offers_prepared hc hd)

/-- What a call can do: nothing that matters, lend a preview, or deliver what a lease offered. -/
inductive Effect (C : Crypto) (w : World) (call : Call) : Prop
  | quiet (hq : Quiet w.session (w.step C call).session)
      (hn : (w.step C call).leases.next = w.leases.next)
      (ho : ∀ o ∈ (w.step C call).offers, o ∈ w.offers)
      (hd : (w.step C call).deliveries = w.deliveries)
  | lend (p : InboundPreview) (hp : w.previewed C call = some p) (hl : p.lease = w.leases.next)
      (hn : (w.step C call).leases.next = w.leases.next + 1)
      (hpending : (w.step C call).session.receivePreview = some w.leases.next)
      (hactive : w.session.state = .active)
      (hw : (w.step C call).session.delivered = w.session.delivered)
      (hnew : p.decision = .new → ¬ w.session.delivered.Knows p.sessionPreview.deliveryId)
      (ho : ∀ o ∈ (w.step C call).offers, o ∈ w.offers ∨
        p.decision = .new ∧ o = (p.lease, p.sessionPreview.deliveryId))
      (hd : (w.step C call).deliveries = w.deliveries)
  | deliver (lease : ℕ) (id : U64) (hdel : Delivers C w.session (w.step C call).session id)
      (hn : (w.step C call).leases.next = w.leases.next)
      (hoffer : (lease, id) ∈ w.offers) (hpending : w.session.receivePreview = some lease)
      (ho : ∀ o ∈ (w.step C call).offers, o ∈ w.offers)
      (hd : (w.step C call).deliveries = id :: w.deliveries)

theorem offers_of_none (hp : w.previewed C call = none) (hc : w.preparedBy C call = none) :
    ∀ o ∈ (w.step C call).offers, o ∈ w.offers := by
  intro o ho
  rcases mem_offers_step ho with ho | ⟨p, h, -⟩ | ⟨c, h, -⟩
  · exact ho
  · simp [hp] at h
  · simp [hc] at h

theorem Effect.of_quiet (hq : Quiet w.session (w.step C call).session)
    (hn : (w.step C call).leases.next = w.leases.next) (hp : w.previewed C call = none)
    (hc : w.preparedBy C call = none) (hd : w.delivery C call = none) : Effect C w call :=
  .quiet hq hn (offers_of_none hp hc) (by simp [step, hd])

theorem next_outbound (C : Crypto) (s : RedundantSession) (leases : Leases)
    (plaintext : List Byte) : (s.outbound C leases plaintext).1.2.next = leases.next := by
  unfold RedundantSession.outbound
  split
  · rfl
  · dsimp only
    split
    · rfl
    · split
      · rfl
      · rfl
      · exact next_close s leases
      · split
        · exact next_close s leases
        · split <;> rfl

theorem next_removePath (s : RedundantSession) (leases : Leases) (slot : Byte) :
    (s.removePath leases slot).1.2.next = leases.next := by
  have hslot : ∀ (t : RedundantSession) (l : Leases), (t.removeSlot l slot).1.2.next = l.next := by
    intro t l
    unfold RedundantSession.removeSlot
    split
    · rfl
    · rfl
    · split
      · rfl
      · split
        · rfl
        · dsimp only
          split
          · exact next_close _ l
          · rfl
  unfold RedundantSession.removePath
  split
  · rfl
  · dsimp only
    rw [hslot, Leases.next_revoke]

theorem next_abortInbound (s : RedundantSession) (leases : Leases) (p : InboundPreview) :
    (s.abortInbound leases p).1.2.next = leases.next := by
  unfold RedundantSession.abortInbound
  dsimp only
  split
  · rfl
  · split <;> rfl

/-- A control the manager takes keeps its lease, its id and the decision made for it. -/
theorem prepareMobilityCommit_cases (C : Crypto) (s : RedundantSession) (leases : Leases)
    (m : Manager) (ms : State) (binding : ObservedBinding) (p : InboundPreview) (nowMs : U64) :
    let r := s.prepareMobilityCommit C leases m ms binding p nowMs
    r.1.next = leases.next ∧ ∀ c, r.2.toOption = some c → p.owner = s.receiveOwner ∧
      c.lease = p.lease ∧ c.deliveryId = p.sessionPreview.deliveryId ∧ c.decision = p.decision := by
  unfold RedundantSession.prepareMobilityCommit
  dsimp only
  split
  · exact ⟨rfl, by simp [Except.toOption]⟩
  · split
    · exact ⟨rfl, by simp [Except.toOption]⟩
    · rename_i haccept
      obtain ⟨howner, -⟩ := acceptsLease_iff.mp (not_not.mp haccept)
      split
      · exact ⟨rfl, by simp [Except.toOption]⟩
      · refine ⟨rfl, ?_⟩
        intro c hc
        obtain rfl := Option.some.inj hc
        exact ⟨howner, rfl, rfl, rfl⟩

/-- The common part of the two previews. -/
theorem effect_of_preview {slot : Byte} {binding : ObservedBinding} {packet : List Byte}
    {nowMs : U64} {requireActive : Bool}
    (hnext : w.next C call =
      (w.session.previewInboundInner C w.leases slot binding packet nowMs requireActive).1)
    (hp : w.previewed C call = (w.session.previewInboundInner C w.leases slot binding packet nowMs
      requireActive).2.toOption)
    (hc : w.preparedBy C call = none) (hd : w.delivery C call = none) : Effect C w call := by
  have hdeliveries : (w.step C call).deliveries = w.deliveries := by simp [step, hd]
  rcases previewInboundInner_cases C w.session w.leases slot binding packet nowMs requireActive with
    ⟨hq, hn, e, he⟩ | ⟨p, hok, hl, hn, hpending, hactive, hw, -, hnew⟩
  · rw [he] at hp
    rw [← hnext] at hq hn
    exact .quiet hq hn (offers_of_none hp hc) hdeliveries
  · rw [hok] at hp
    rw [← hnext] at hn hpending hw
    refine .lend p hp hl hn hpending hactive hw hnew ?_ hdeliveries
    intro o ho
    rcases mem_offers_step ho with ho | ⟨q, h, hdec, rfl⟩ | ⟨c, h, -⟩
    · exact .inl ho
    · obtain rfl := Option.some.inj (hp.symm.trans h)
      exact .inr ⟨hdec, rfl⟩
    · simp [hc] at h

theorem step_effect (ho : w.Owned call) : Effect C w call := by
  cases call with
  | previewInbound slot binding packet nowMs => exact effect_of_preview rfl rfl rfl rfl
  | previewMobilityInbound slot binding packet nowMs => exact effect_of_preview rfl rfl rfl rfl
  | commitInbound p =>
    obtain ⟨hn, ⟨hq, hno⟩ | ⟨hdel, hdec, ⟨bytes, hok⟩, howner, hpending⟩⟩ :=
      commitInbound_cases C w.session w.leases p
    · refine .of_quiet hq hn rfl rfl ?_
      cases hr : (w.session.commitInbound C w.leases p).2 with
      | error e => simp [delivery, hr]
      | ok outcome =>
        cases outcome with
        | delivered bytes => exact absurd hr (hno bytes)
        | suppressed => simp [delivery, hr]
    · have hp := ho.resolve_right (not_not.mpr howner)
      exact .deliver p.lease p.sessionPreview.deliveryId hdel hn (mem_offers_preview hp hdec)
        hpending (offers_of_none rfl rfl) (by simp [step, delivery, hok])
  | abortInbound p => exact .of_quiet (.abortInbound _ _ p) (next_abortInbound _ _ p) rfl rfl rfl
  | dropPreview p => exact .of_quiet (.refl _) rfl rfl rfl rfl
  | prepareMobilityCommit m ms binding p nowMs =>
    obtain ⟨hn, hc⟩ :=
      prepareMobilityCommit_cases C w.session w.leases m ms binding p nowMs
    refine .quiet (.refl _) hn ?_ rfl
    intro o hoff
    rcases mem_offers_step hoff with h | ⟨q, h, -⟩ | ⟨c, h, hdec, rfl⟩
    · exact h
    · simp [previewed] at h
    · obtain ⟨howner, hl, hid, hd⟩ := hc c h
      rw [hl, hid]
      exact mem_offers_preview (ho.resolve_right (not_not.mpr howner)) (hd.symm.trans hdec)
  | dropCommit c => exact .of_quiet (.refl _) rfl rfl rfl rfl
  | commitMobility m ms c =>
    obtain ⟨hn, ⟨hq, hno⟩ | ⟨hdel, hdec, hok, howner, hpending⟩⟩ :=
      commitMobility_cases C w.session w.leases m ms c
    · refine .of_quiet hq hn rfl rfl ?_
      simp only [delivery, ite_eq_right_iff, reduceCtorEq, imp_false, not_and]
      intro hok
      simp [hno hok]
    · have hc := ho.resolve_right (not_not.mpr howner)
      exact .deliver c.lease c.deliveryId hdel hn (mem_offers_prepared hc hdec) hpending
        (offers_of_none rfl rfl) (by simp [step, delivery, hok, hdec])
  | issueOwner policyId ownerLive capability =>
    exact .of_quiet (.issueOwner _ _ _ _) rfl rfl rfl rfl
  | activate admission budget owner => exact .of_quiet (.activate C _ _ _ _ _) rfl rfl rfl rfl
  | outbound plaintext =>
    exact .of_quiet (.outbound C _ _ _) (next_outbound C _ _ _) rfl rfl rfl
  | confirmSent slot packet => exact .of_quiet (.confirmSent _ _ _) rfl rfl rfl rfl
  | removePath slot => exact .of_quiet (.removePath _ _ _) (next_removePath _ _ _) rfl rfl rfl
  | expire nowMs => exact .of_quiet (.expire _ _) rfl rfl rfl rfl
  | tick nowMs => exact .of_quiet (.tick _ _ _) rfl rfl rfl rfl
  | close => exact .of_quiet (.close _ _) (next_close _ _) rfl rfl rfl

theorem invariant_step (hi : Invariant w) (ho : w.Owned call) : Invariant (w.step C call) := by
  cases step_effect (C := C) ho with
  | quiet hq hn hoff hd =>
    refine ⟨?_, ?_, ?_, ?_⟩
    · intro o h
      rw [hn]
      exact hi.fresh o (hoff o h)
    · intro ha id hid
      obtain ⟨hactive, hw⟩ := hq.active ha
      rw [hw]
      exact hi.known hactive id (hd ▸ hid)
    · intro o h hp
      rw [hd]
      rcases hq.pending with he | he
      · exact hi.pending o (hoff o h) (he.symm.trans hp)
      · simp [he] at hp
    · rw [hd]
      exact hi.nodup
  | lend p _ hl hn hpending hactive hw hnew hoff hd =>
    refine ⟨?_, ?_, ?_, ?_⟩
    · intro o h
      rw [hn]
      rcases hoff o h with h | ⟨-, rfl⟩
      · exact (hi.fresh o h).trans (Nat.lt_succ_self _)
      · simp [hl]
    · intro _ id hid
      rw [hw]
      exact hi.known hactive id (hd ▸ hid)
    · intro o h hp
      rw [hd]
      have hlease := Option.some.inj (hpending.symm.trans hp)
      rcases hoff o h with h | ⟨hdec, rfl⟩
      · exact absurd hlease (hi.fresh o h).ne'
      · exact fun hid => hnew hdec (hi.known hactive _ hid)
    · rw [hd]
      exact hi.nodup
  | deliver lease id hdel hn hoffer hpending hoff hd =>
    refine ⟨?_, ?_, ?_, ?_⟩
    · intro o h
      rw [hn]
      exact hi.fresh o (hoff o h)
    · intro _ j hj
      obtain ⟨bytes, hw⟩ := hdel.delivered
      rw [hw]
      rw [hd, List.mem_cons] at hj
      rcases hj with rfl | hj
      · exact DeliveredWindow.knows_insert_self C _ _ bytes
      · exact (hi.known hdel.active j hj).insert C id bytes
    · intro o _ hp
      simp [hdel.pending] at hp
    · rw [hd, List.nodup_cons]
      exact ⟨hi.pending _ hoffer hpending, hi.nodup⟩

theorem invariant_start (h : Starts w) : Invariant w := by
  obtain ⟨-, hp, hc, hd⟩ := h
  have hoff : w.offers = [] := by simp [offers, hp, hc]
  exact ⟨by simp [hoff], by simp [hd], by simp [hoff], by simp [hd]⟩

theorem Reach.invariant (h : Reach C w) : Invariant w :=
  Machine.Reach.invariant (fun _ => invariant_start) (fun _ _ hi ho => invariant_step hi ho) h

/-- What a call delivers, a lease still pending offered. -/
theorem Invariant.delivery_fresh (hi : Invariant w) (ho : w.Owned call) {id : U64}
    (h : w.delivery C call = some id) : id ∉ w.deliveries := by
  have hn := (invariant_step (C := C) hi ho).nodup
  simp only [step, h, Option.toList_some, List.singleton_append, List.nodup_cons] at hn
  exact hn.1

end World

/-- In every run of a receiver no id is delivered twice: a later copy that authenticates is refused
by its preview, or called equal and never delivered. -/
theorem delivered_at_most_once {C : Crypto} {w : World} (h : World.Reach C w) :
    w.deliveries.Nodup ∧
    (∀ call, w.Owned call → ∀ id, w.delivery C call = some id → id ∉ w.deliveries) ∧
    ∀ slot binding packet nowMs requireActive p,
      (w.session.previewInboundInner C w.leases slot binding packet nowMs requireActive).2 = .ok p →
      p.sessionPreview.deliveryId ∈ w.deliveries → p.decision = .equal := by
  have hi := h.invariant
  refine ⟨hi.nodup, fun call ho id hid => hi.delivery_fresh ho hid, ?_⟩
  intro slot binding packet nowMs requireActive p hp hmem
  rcases previewInboundInner_cases C w.session w.leases slot binding packet nowMs requireActive with
    ⟨-, -, e, he⟩ | ⟨q, hq, -, -, -, hactive, -, -, hnew⟩
  · exact absurd (hp.symm.trans he) (by simp)
  · obtain rfl := Except.ok.inj (hp.symm.trans hq)
    cases hdec : p.decision with
    | equal => rfl
    | new => exact absurd (hi.known hactive _ hmem) (hnew hdec)

namespace Sample

def binding : ObservedBinding := .native 1 (bytesOf 6 0)

def slot0 : DirectionalSession := .new 1 (bytesOf 32 3) (bytesOf 32 4) (bytesOf 32 9) 1280

def bootstrap : Profile3Bootstrap :=
  ⟨5, bytesOf 16 20, bytesOf 16 21, 1280, 1, 2, bytesOf 32 9, some (bytesOf 32 7), some slot0⟩

def start : World where
  session :=
    { bootstrap := some { bootstrap with slot0 := none }
      state := .active
      nextDelivery := 1
      delivered := .new
      dedup := []
      events := [.initialDegraded]
      admissionIssuer := none
      receiveOwner := 1
      receiveGeneration := 0
      receivePreview := none
      paths := fun i =>
        if i = 0 then ⟨.active, some binding, some (bytesOf 16 20), some (bytesOf 16 21), 1280,
          some slot0, [], 0⟩
        else ⟨.absent, none, none, none, 1280, none, [], 0⟩ }
  leases := ⟨0, []⟩
  previews := []
  prepared := []
  deliveries := []

theorem starts : World.Starts start := ⟨⟨bootstrap, binding, 1, 1, rfl⟩, rfl, rfl, rfl⟩

/-- Slot one is taken into use. -/
def activate : List Call :=
  [.issueOwner 9 false 0,
    .activate ⟨⟨5, 9, ⟨1⟩, 0⟩, 5, 9, binding, bytesOf 16 22, bytesOf 16 23, 1⟩ 1280 11]

/-- The key the peer seals with. -/
def peerKey (slot : Byte) : Bytes 32 :=
  if slot = 0 then bytesOf 32 4
  else Crypto.sample.hkdfExpand (bytesOf 32 7) (keyInfo (bytesOf 32 9) 3 2 1 slot)

/-- A packet of the peer under delivery id 7. -/
def packet (slot : Byte) (counter : U64) : List Byte :=
  let peer := { DirectionalSession.new 2 (peerKey slot) (bytesOf 32 3) (bytesOf 32 9) 1280 with
    sendCounters := ⟨counter⟩ }
  let header : Header :=
    ⟨3, 0, NH_SES, 64, 1 + 2 * slot, slot, 5, bytesOf 16 (21 + 2 * slot), bytesOf 16 (20 + 2 * slot)⟩
  (peer.encryptProfile3Data .sample header 7 [1, 2, 3] 1280).2.2.toOption.getD []

/-- A preview of the packet and, if it is handed out, its commit. -/
def receive (w : World) (copy : Byte × U64) : List Call :=
  let preview := Call.previewInbound copy.1 binding (packet copy.1 copy.2) 1000
  preview :: ((w.previewed .sample preview).map Call.commitInbound).toList

def script : World → List (Byte × U64) → List Call
  | _, [] => []
  | w, copy :: rest =>
    receive w copy ++ script (Machine.exec (World.step .sample) w (receive w copy)) rest

/-- The copies come in, each by its slot and counter. -/
def play (copies : List (Byte × U64)) : World :=
  let w := Machine.exec (World.step .sample) start activate
  Machine.exec (World.step .sample) w (script w copies)

instance (w : World) (call : Call) : Decidable (w.Owned call) :=
  match call with
  | .commitInbound p | .abortInbound p | .dropPreview p | .prepareMobilityCommit _ _ _ p _ =>
    inferInstanceAs (Decidable (p ∈ w.previews ∨ p.owner ≠ w.session.receiveOwner))
  | .dropCommit c | .commitMobility _ _ c =>
    inferInstanceAs (Decidable (c ∈ w.prepared ∨ c.owner ≠ w.session.receiveOwner))
  | .previewInbound .. | .previewMobilityInbound .. | .issueOwner .. | .activate .. | .outbound _
  | .confirmSent .. | .removePath _ | .expire _ | .tick _ | .close =>
    inferInstanceAs (Decidable True)

end Sample

/-- One copy on either slot. -/
theorem delivered_at_most_once_two_copies :
    (Sample.play [(0, 1), (1, 1)]).previews.map (fun p => (p.slot, p.decision)) =
      [(1, .equal), (0, .new)] ∧
    (Sample.play [(0, 1), (1, 1)]).deliveries = [7] ∧
    (Sample.play [(0, 1), (1, 1)]).deliveries.Nodup := by
  have hactive : World.Reach .sample
      (Machine.exec (World.step .sample) Sample.start Sample.activate) :=
    Machine.Reach.exec (.start Sample.starts) _ (by decide +kernel)
  have hr : World.Reach .sample (Sample.play [(0, 1), (1, 1)]) :=
    Machine.Reach.exec hactive _ (by decide +kernel)
  exact ⟨by decide +kernel, by decide +kernel, (delivered_at_most_once hr).1⟩

end R8.Redundant
