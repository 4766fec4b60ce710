import R8Protocol.Redundant.Healthy
import R8Protocol.Redundant.Scenario

/-! A mobility commit changes session, window and manager together or not at all. -/
namespace R8.Redundant

open FixedWidth Wire Session Mobility

/-- The session and the manager follow one another in the commit they share. -/
theorem commitProfile3With_eq (m : Manager) (ms : State) (t : Transition) (d : DirectionalSession) :
    let q := m.commitProfile3On ms t d
    commitProfile3With m ms t d = ((q.1, q.2.1), q.2.2) := by
  intro q
  have hmanager := @Manager.commitWith_profile3 _ m ms t d
    DirectionalSession.commitProfile3Replay
  have hsession : q.2.1 =
      ((committedProof m ms t).map fun proof => (d.commitProfile3Replay proof).1).getD d := by
    simp only [q, Manager.commitProfile3On, Manager.commitWith, committedProof, decide_eq_true_eq]
    by_cases hfirst : m.profile ≠ 3 ∨ t.ownerId ≠ m.ownerId
    · rw [if_pos hfirst, if_pos (by tauto)]
      rfl
    · rw [if_neg hfirst]
      cases t.profile3Proof with
      | none => simp
      | some proof =>
        by_cases hlast : ms.closed = true ∨ ms.generation ≠ t.generation
        · rw [if_pos (by tauto)]
          simp [hlast]
        · rw [if_neg (by tauto)]
          simp only [hlast, if_false]
          split
          · rfl
          · split <;> rfl
  simp only [commitProfile3With]
  rw [← hmanager, hsession]
  cases committedProof m ms t <;> rfl

/-- Everything that a mobility commit does when it succeeds. -/
structure CommitDone (C : Crypto) (s s' : RedundantSession) (m : Manager) (ms ms' : State)
    (c : MobilityInboundCommit) (counter : U64) : Prop where
  marked : ∃ i d d', slotIndex c.slot = some i ∧ (s.paths i).session = some d ∧
    (s'.paths i).session = some d' ∧ Marks d d' counter
  applied : Manager.Applies m c.transition ms ms'
  generation : s'.receiveGeneration.val = s.receiveGeneration.val + 1
  new : c.decision = .new → s'.delivered = s.delivered.insert C c.deliveryId c.plaintext ∧
    s'.delivered.seen c.deliveryId = true ∧
    ∃ expiryMs, (c.deliveryId, ⟨c.plaintext, expiryMs⟩) ∈ s'.dedup
  equal : c.decision = .equal → s'.delivered = s.delivered

section

variable {C : Crypto} {s : RedundantSession} {c : MobilityInboundCommit} {i : Fin 2}
  {d : DirectionalSession} {generation : U64}

theorem afterCommit_session :
    ((afterCommit C s c i d generation).paths i).session = some d := by
  unfold afterCommit
  cases c.decision <;> simp [paths_remember, RedundantSession.expire, RedundantSession.setPath]

theorem afterCommit_generation :
    (afterCommit C s c i d generation).receiveGeneration = generation := by
  unfold afterCommit
  cases c.decision <;> simp [generation_remember, RedundantSession.expire]

theorem afterCommit_new (hd : c.decision = .new) (hnew : ¬ s.delivered.Knows c.deliveryId) :
    let s' := afterCommit C s c i d generation
    s'.delivered = s.delivered.insert C c.deliveryId c.plaintext ∧
      s'.delivered.seen c.deliveryId = true ∧
      ∃ expiryMs, (c.deliveryId, ⟨c.plaintext, expiryMs⟩) ∈ s'.dedup := by
  have hdelivered : (afterCommit C s c i d generation).delivered =
      s.delivered.insert C c.deliveryId c.plaintext := by
    simp only [afterCommit, hd, delivered_remember]
    rfl
  refine ⟨hdelivered, ?_, satAdd c.nowMs DEDUP_LIFETIME_MS, ?_⟩
  · rw [hdelivered]
    exact DeliveredWindow.seen_insert_self (fun hold => hnew (.inl hold)) _
  · simp [afterCommit, hd, RedundantSession.remember]

theorem afterCommit_equal (hd : c.decision = .equal) :
    (afterCommit C s c i d generation).delivered = s.delivered := by
  simp only [afterCommit, hd]
  rfl

end

namespace Fleet

variable {C : Crypto} {f : Fleet} {i j : ℕ} {w : World} {m : Manager} {mw : Mobility.World}
  {c : MobilityInboundCommit}

/-- The commit names a transition that this manager has handed out, or one of another manager. -/
theorem Reach.owned_transition (h : Reach C f) (hw : f.sessions i = some w)
    (hm : f.managers j = some (m, mw)) (hc : c ∈ w.prepared) :
    ∃ p : Previewed, p.transition = c.transition ∧
      (p ∈ mw.issued ∨ p.transition.ownerId ≠ m.ownerId) := by
  obtain ⟨m', mw', p, hm', hp, ht⟩ := h.linked hw hc
  refine ⟨p, ht, ?_⟩
  by_cases hj : c.transition.ownerId = j
  · rw [hj] at hm'
    obtain ⟨rfl, rfl⟩ := Prod.mk.inj (Option.some.inj (hm.symm.trans hm'))
    exact .inl hp
  · rw [ht, (h.manager hm).1]
    exact .inr hj

/-- The two halves of a commit, on a session the manager is handed. -/
theorem Reach.commit_halves (h : Reach C f) (hw : f.sessions i = some w)
    (hm : f.managers j = some (m, mw)) (hc : c ∈ w.prepared) {k : Fin 2} {d : DirectionalSession}
    (hd : (w.session.paths k).session = some d) :
    let q := commitProfile3With m mw.state c.transition d
    (q.2 = .ok () → ∃ preview, c.transition.profile3Proof = some ⟨some preview, false⟩ ∧
      Marks d q.1.2 preview.commit.counter ∧ Manager.Applies m c.transition mw.state q.1.1) ∧
    ∀ e, q.2 = .error e → q.1.1 = mw.state ∧ q.1.2 = d := by
  obtain ⟨-, -, secret, hr⟩ := h.manager hm
  obtain ⟨p, ht, hp⟩ := h.owned_transition hw hm hc
  obtain ⟨hok, herr⟩ := Mobility.World.commitProfile3On_atomic hr hp ((h.healthy hw).sane k d hd)
  rw [ht] at hok herr
  rw [commitProfile3With_eq]
  refine ⟨?_, herr⟩
  intro hq
  obtain ⟨preview, hproof, -, hmarks, hreceived⟩ := hok.mp hq
  have happlies := hreceived.applies
  rw [ht] at happlies
  exact ⟨preview, hproof, hmarks, happlies⟩

theorem accepts_owner (h : w.session.acceptsReplayLease w.leases c = true) :
    c.owner = w.session.receiveOwner ∧ w.session.receivePreview = some c.lease := by
  obtain ⟨howner, -, -, hpending⟩ := acceptsLease_iff.mp h
  exact ⟨howner, hpending⟩

theorem Reach.commit_error (h : Reach C f) (hw : f.sessions i = some w)
    (hm : f.managers j = some (m, mw)) (hc : c ∈ w.prepared ∨ c.owner ≠ w.session.receiveOwner)
    {e : RedundantError} (he : (w.session.commitMobility C w.leases m mw.state c).2.2 = .error e) :
    (w.session.commitMobility C w.leases m mw.state c).1.1 = w.session ∧
      (w.session.commitMobility C w.leases m mw.state c).2.1 = mw.state := by
  rcases commitMobility_spec C w.session w.leases m mw.state c with ⟨hs, hms, -, -⟩ |
    ⟨k, d, generation, ha, -, hms, ⟨⟨e', hq⟩, -, hs⟩ | ⟨-, hok, -⟩⟩
  · exact ⟨hs, hms⟩
  · have hprepared := hc.resolve_right (not_not.mpr (accepts_owner ha.accepts).1)
    obtain ⟨hstate, hsession⟩ := (h.commit_halves hw hm hprepared ha.session).2 e' hq
    rw [hs, hms, hstate, hsession, ← ha.session]
    refine ⟨?_, rfl⟩
    simp [RedundantSession.setPath]
  · rw [he] at hok
    cases hok

/-- What was decided at the preview, the window would still decide. -/
theorem decision_right {history : List (U64 × List Byte)} (h : World.Recorded C w history)
    (hc : c ∈ w.prepared) (ha : w.session.state = .active)
    (haccept : w.session.acceptsReplayLease w.leases c = true) :
    Right C w.session.delivered c.decision c.deliveryId c.plaintext := by
  have hdecided := h.decided
  obtain ⟨p, hp, hprepared⟩ := hdecided.prepared c hc
  rw [hprepared.decision, hprepared.id, hprepared.plaintext]
  refine hdecided.right ha p hp ?_
  rw [← hprepared.lease]
  exact (accepts_owner haccept).2

theorem Reach.commit_ok (h : Reach C f) (hw : f.sessions i = some w)
    (hm : f.managers j = some (m, mw)) (hc : c ∈ w.prepared ∨ c.owner ≠ w.session.receiveOwner)
    (hok : (w.session.commitMobility C w.leases m mw.state c).2.2 = .ok ()) :
    c ∈ w.prepared ∧ w.session.state = .active ∧
    w.session.acceptsReplayLease w.leases c = true ∧
    ∃ p w₀ packet, World.Lent C w p w₀ packet ∧ Prepared p c ∧
      CommitDone C w.session (w.session.commitMobility C w.leases m mw.state c).1.1 m mw.state
        (w.session.commitMobility C w.leases m mw.state c).2.1 c (u64Of (packet.drop 52)) := by
  rcases commitMobility_spec C w.session w.leases m mw.state c with ⟨-, -, ⟨e, he⟩, -⟩ |
    ⟨k, d, generation, ha, -, hms, ⟨-, ⟨e, he⟩, -⟩ | ⟨hq, -, hs⟩⟩
  · rw [hok] at he
    cases he
  · rw [hok] at he
    cases he
  · have hmem := hc.resolve_right (not_not.mpr (accepts_owner ha.accepts).1)
    have hreach := h.session hw
    obtain ⟨history, hrecorded⟩ := hreach.recorded
    obtain ⟨p, hp, hprepared⟩ := hrecorded.decided.prepared c hmem
    obtain ⟨w₀, packet, hlent⟩ := hreach.lent hp
    obtain ⟨preview, hproof, hmarks, happlies⟩ := (h.commit_halves hw hm hmem ha.session).1 hq
    have hright := decision_right hrecorded hmem ha.active ha.accepts
    have hcounter : preview.commit.counter = u64Of (packet.drop 52) := by
      obtain ⟨i₀, d₀, hopened⟩ := hlent.previews.opened
      have heq := Option.some.inj (hproof.symm.trans hprepared.proof)
      have hpreview : preview = p.sessionPreview := by
        simpa [Profile3DataPreview.intoReplayProof] using heq
      rw [hpreview]
      exact hopened.counter
    rw [hcounter] at hmarks
    refine ⟨hmem, ha.active, ha.accepts, p, w₀, packet, hlent, hprepared, ?_⟩
    rw [hs, hms]
    refine ⟨⟨k, d, _, ha.slot, ha.session, afterCommit_session, hmarks⟩, happlies, ?_, ?_,
      afterCommit_equal⟩
    · rw [afterCommit_generation]
      simpa using checkedAdd_eq_some.mp ha.generation
    · intro hnew
      rw [hnew] at hright
      exact afterCommit_new hnew hright

theorem commitProfile3_refused (m : Manager) (ms : State) (t : Transition) :
    (m.commitProfile3 ms t (replayCommit none)).1 = ms := by
  unfold Manager.commitProfile3 replayCommit
  split
  · rfl
  · split
    · rfl
    · split <;> rfl

/-- The operation of the fleet leaves session and manager as the two calls do. -/
theorem Reach.commit_step (h : Reach C f) (hw : f.sessions i = some w)
    (hm : f.managers j = some (m, mw)) (hc : c ∈ w.prepared ∨ c.owner ≠ w.session.receiveOwner) :
    let r := w.session.commitMobility C w.leases m mw.state c
    (∃ w', (f.step C (.commitMobility i j c)).sessions i = some w' ∧ w'.session = r.1.1) ∧
    ∃ mw', (f.step C (.commitMobility i j c)).managers j = some (m, mw') ∧ mw'.state = r.2.1 := by
  intro r
  refine ⟨⟨w.step C (.commitMobility m mw.state c), ?_, rfl⟩, ?_⟩
  · simp [step, sessionsAfter, sessionCall, hm, Machine.stepAt, hw]
  · cases hfind : mw.issued.find? (·.transition = c.transition) with
    | some p =>
      have hcall : f.managerCall C (.commitMobility i j c) =
          some (j, .commitProfile3 p (replayCommit (w.session.handed w.leases c))) := by
        simp [managerCall, hw, hm, hfind]
      have ht : p.transition = c.transition := by simpa using List.find?_some hfind
      refine ⟨mw.step C m (.commitProfile3 p (replayCommit (w.session.handed w.leases c))), ?_, ?_⟩
      · simp [step, managersAfter, hcall, Machine.stepAt, hm]
      · change (m.commitProfile3 mw.state p.transition _).1 = _
        rw [ht]
        rcases commitMobility_spec C w.session w.leases m mw.state c with ⟨-, hms, -, hnone⟩ |
          ⟨k, d, generation, -, hsome, hms, -⟩
        · rw [hnone, hms, commitProfile3_refused]
        · rw [hsome, hms]
          rfl
    | none =>
      have hcall : f.managerCall C (.commitMobility i j c) = none := by
        simp [managerCall, hw, hm, hfind]
      refine ⟨mw, ?_, ?_⟩
      · simp [step, managersAfter, hcall, Machine.stepAt, hm]
      · -- The manager never handed the transition out, so it refuses it.
        cases hr : r.2.2 with
        | error e => exact (h.commit_error hw hm hc hr).2.symm
        | ok u =>
          obtain ⟨hmem, -, -, _, _, _, -, -, hdone⟩ := h.commit_ok hw hm hc hr
          obtain ⟨p, ht, hp | hp⟩ := h.owned_transition hw hm hmem
          · simpa [ht] using List.find?_eq_none.mp hfind p hp
          · exact absurd (ht ▸ hdone.applied.owner) hp

end Fleet

/-- In every run of sessions and managers, a mobility commit marks the packet, applies the
transition, advances the generation and takes a new id in, or changes nothing at all; and what its
preview decided about the id is still right. -/
theorem mobility_commit_atomic {C : Crypto} {f : Fleet} (h : Fleet.Reach C f) {i j : ℕ} {w : World}
    {m : Manager} {mw : Mobility.World} (hw : f.sessions i = some w)
    (hm : f.managers j = some (m, mw)) {c : MobilityInboundCommit}
    (hc : c ∈ w.prepared ∨ c.owner ≠ w.session.receiveOwner) :
    let r := w.session.commitMobility C w.leases m mw.state c
    (r.2.2 = .ok () → ∃ p w₀ packet, World.Lent C w p w₀ packet ∧ Prepared p c ∧
      CommitDone C w.session r.1.1 m mw.state r.2.1 c (u64Of (packet.drop 52))) ∧
    (∀ e, r.2.2 = .error e → r.1.1 = w.session ∧ r.2.1 = mw.state) ∧
    (c ∈ w.prepared → w.session.state = .active →
      w.session.acceptsReplayLease w.leases c = true → ∀ history, World.Recorded C w history →
      (c.decision = .new → ¬ w.session.delivered.Knows c.deliveryId ∧
        ∀ bytes, (c.deliveryId, bytes) ∉ history) ∧
      (c.decision = .equal → w.session.delivered.seen c.deliveryId = true ∧
        ∃ bytes, (c.deliveryId, bytes) ∈ history ∧ bytes.length = c.plaintext.length ∧
          SameBytes C bytes c.plaintext)) ∧
    (r.2.2 = .ok () → c ∈ w.prepared ∧ w.session.state = .active ∧
      w.session.acceptsReplayLease w.leases c = true) ∧
    (∃ w', (f.step C (.commitMobility i j c)).sessions i = some w' ∧ w'.session = r.1.1) ∧
    ∃ mw', (f.step C (.commitMobility i j c)).managers j = some (m, mw') ∧ mw'.state = r.2.1 := by
  intro r
  refine ⟨?_, fun e he => h.commit_error hw hm hc he, ?_, ?_, h.commit_step hw hm hc⟩
  · intro hok
    exact (h.commit_ok hw hm hc hok).2.2.2
  · intro hmem ha haccept history hrecorded
    have hright := Fleet.decision_right hrecorded hmem ha haccept
    refine ⟨?_, ?_⟩
    · intro hd
      rw [hd] at hright
      refine ⟨hright, ?_⟩
      intro bytes hin
      refine hright (hrecorded.reach.invariant.known ha _ ?_)
      rw [hrecorded.deliveries]
      exact List.mem_map_of_mem hin
    · intro hd
      rw [hd] at hright
      exact ⟨hright.1, (hrecorded.decided.prints ha).same hright.1 hright.2⟩
  · intro hok
    obtain ⟨hmem, ha, haccept, -⟩ := h.commit_ok hw hm hc hok
    exact ⟨hmem, ha, haccept⟩

namespace Sample

/-- A LOC_UPDATE of the client is prepared and not yet committed. -/
def prepared : Fleet :=
  Machine.exec (Fleet.step .sample) Scenario.start (Scenario.script Scenario.start
    (Scenario.setup ++ [.control (Scenario.update 11 1) 1 1000])).dropLast

end Sample

theorem mobility_commit_atomic_update :
    ∃ w m mw c, Sample.prepared.sessions 0 = some w ∧ Sample.prepared.managers 1 = some (m, mw) ∧
      c ∈ w.prepared ∧ c.deliveryId = 2 ∧ c.decision = .new ∧ ∃ packet : List Byte,
      let r := w.session.commitMobility .sample w.leases m mw.state c
      CommitDone .sample w.session r.1.1 m mw.state r.2.1 c (u64Of (packet.drop 52)) := by
  have hr : Fleet.Reach .sample Sample.prepared := Scenario.exec_reach (by decide +kernel)
  have hfacts : (Sample.prepared.sessions 0).any (fun w => (Sample.prepared.managers 1).any
      fun x => w.prepared.any fun c => c.deliveryId = 2 ∧ c.decision = .new ∧
        (w.session.commitMobility .sample w.leases x.1 x.2.state c).2.2 = .ok ()) = true := by
    decide +kernel
  simp only [Option.any_eq_true, List.any_eq_true, decide_eq_true_eq] at hfacts
  obtain ⟨w, hw, ⟨m, mw⟩, hm, c, hc, hid, hd, hok⟩ := hfacts
  obtain ⟨p, w₀, packet, -, -, hdone⟩ := (mobility_commit_atomic hr hw hm (.inl hc)).1 hok
  exact ⟨w, m, mw, c, hw, hm, hc, hid, hd, packet, hdone⟩

end R8.Redundant
