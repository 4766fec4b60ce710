import R8Protocol.Lib.Lists
import R8Protocol.Redundant.Removal
import R8Protocol.Session.Transfer

/-! What a call leaves of the slots in use, and what it seals for them. -/
namespace R8.Redundant

open FixedWidth Wire Session Mobility

/-- A slot that was in use, and still is for the same ends. A call that has `heard` a packet may
move the replay window of its session, a call that has `sent` one its send counter. -/
structure Path.Stays (heard sent : Prop) (p p' : Path) : Prop where
  state : p.state = .active
  binding : p'.binding = p.binding
  localLoc : p'.localLoc = p.localLoc
  peerLoc : p'.peerLoc = p.peerLoc
  budget : p'.budget = p.budget
  session : ∀ d, p.session = some d → ∃ d', p'.session = some d' ∧
    (¬ heard → d'.replay = d.replay) ∧ (¬ sent → d'.sendCounters = d.sendCounters)

/-- Every slot in use stayed in use. -/
structure Stays (heard sent : Prop) (s s' : RedundantSession) : Prop where
  active : s'.state = .active → s.state = .active
  next : s'.state = .active → ¬ sent → s'.nextDelivery = s.nextDelivery
  path : ∀ i, (s'.paths i).state = .active → (s.paths i).Stays heard sent (s'.paths i)

theorem Path.Stays.refl {heard sent : Prop} {p : Path} (h : p.state = .active) :
    p.Stays heard sent p :=
  ⟨h, rfl, rfl, rfl, rfl, fun d hd => ⟨d, hd, fun _ => rfl, fun _ => rfl⟩⟩

theorem Path.Stays.trans {heard sent : Prop} {p p' p'' : Path} (h : p.Stays heard sent p')
    (h' : p'.Stays heard sent p'') : p.Stays heard sent p'' := by
  refine ⟨h.state, h'.binding.trans h.binding, h'.localLoc.trans h.localLoc,
    h'.peerLoc.trans h.peerLoc, h'.budget.trans h.budget, ?_⟩
  intro d hd
  obtain ⟨d', hd', hr, hc⟩ := h.session d hd
  obtain ⟨d'', hd'', hr', hc'⟩ := h'.session d' hd'
  exact ⟨d'', hd'', fun hn => (hr' hn).trans (hr hn), fun hn => (hc' hn).trans (hc hn)⟩

namespace Stays

variable {C : Crypto} {heard sent : Prop} {s s' s'' : RedundantSession} {leases : Leases}

theorem refl (s : RedundantSession) : Stays heard sent s s :=
  ⟨id, fun _ _ => rfl, fun _ h => .refl h⟩

theorem trans (h : Stays heard sent s s') (h' : Stays heard sent s' s'') :
    Stays heard sent s s'' := by
  refine ⟨fun ha => h.active (h'.active ha), ?_, ?_⟩
  · intro ha hn
    exact (h'.next ha hn).trans (h.next (h'.active ha) hn)
  · intro i hi
    have hp := h'.path i hi
    exact (h.path i hp.state).trans hp

/-- Changes outside the slots. -/
theorem frame (hp : s'.paths = s.paths) (hs : s'.state = s.state)
    (hn : s'.nextDelivery = s.nextDelivery) : Stays heard sent s s' := by
  refine ⟨fun ha => hs ▸ ha, fun _ _ => hn, ?_⟩
  intro i hi
  rw [hp] at hi ⊢
  exact .refl hi

/-- Changes in one slot, unless it goes out of use. -/
theorem setPath (i : Fin 2) {p : Path} (hp : p.state = .active → (s.paths i).Stays heard sent p) :
    Stays heard sent s (s.setPath i p) := by
  refine ⟨id, fun _ _ => rfl, ?_⟩
  intro j hj
  by_cases hji : j = i
  · subst hji
    simp only [RedundantSession.setPath, Function.update_self] at hj ⊢
    exact hp hj
  · simp only [RedundantSession.setPath, Function.update_of_ne hji] at hj ⊢
    exact .refl hj

theorem event (s : RedundantSession) (e : RedundantEvent) : Stays heard sent s (s.event e) :=
  .frame rfl rfl rfl

theorem reap (s : RedundantSession) (leases : Leases) :
    Stays heard sent s (s.reapPreview leases) := by
  unfold RedundantSession.reapPreview
  split <;> exact .frame rfl rfl rfl

/-- Nothing stays in use in a session that is closed. -/
theorem close (s : RedundantSession) (leases : Leases) : Stays heard sent s (s.close leases).1 := by
  unfold RedundantSession.close
  split
  · exact .refl s
  · refine ⟨?_, ?_, ?_⟩
    · intro ha
      simp [RedundantSession.event] at ha
    · intro ha
      simp [RedundantSession.event] at ha
    · intro i hi
      simp [RedundantSession.event] at hi

theorem expire (s : RedundantSession) (nowMs : U64) : Stays heard sent s (s.expire nowMs) :=
  .frame rfl rfl rfl

theorem tick (s : RedundantSession) (leases : Leases) (nowMs : U64) :
    Stays heard sent s (s.tick leases nowMs).1 := by
  unfold RedundantSession.tick
  split
  · exact .refl s
  · exact (reap s leases).trans (.expire _ nowMs)

theorem confirmSent (s : RedundantSession) (slot : Byte) (packet : List Byte) :
    Stays heard sent s (s.confirmSent slot packet).1 := by
  unfold RedundantSession.confirmSent
  split
  · exact .refl s
  · split
    · exact .refl s
    · split
      · exact .refl s
      · refine .setPath _ ?_
        intro hi
        exact ⟨hi, rfl, rfl, rfl, rfl, fun d hd => ⟨d, hd, fun _ => rfl, fun _ => rfl⟩⟩

theorem issueOwner (s : RedundantSession) (policyId : U32) (ownerLive : Bool) (capability : ℕ) :
    Stays heard sent s (s.issueProfile3AdmissionOwner policyId ownerLive capability).1 := by
  unfold RedundantSession.issueProfile3AdmissionOwner
  split
  · exact .refl s
  · split
    · exact .refl s
    · dsimp only
      split
      · split <;> exact .frame rfl rfl rfl
      · exact .frame rfl rfl rfl

theorem abortInbound (s : RedundantSession) (leases : Leases) (p : InboundPreview) :
    Stays heard sent s (s.abortInbound leases p).1.1 := by
  unfold RedundantSession.abortInbound
  dsimp only
  split
  · exact .refl s
  · split <;> exact .frame rfl rfl rfl

theorem preview (s : RedundantSession) (leases : Leases) (slot : Byte) (binding : ObservedBinding)
    (packet : List Byte) (nowMs : U64) (requireActive : Bool) : Stays heard sent s
      (s.previewInboundInner C leases slot binding packet nowMs requireActive).1.1 := by
  have hr : Stays heard sent s (s.reapPreview leases) := .reap s leases
  unfold RedundantSession.previewInboundInner
  split
  · exact .refl s
  · split
    · exact .refl s
    · dsimp only
      generalize s.reapPreview leases = t at hr ⊢
      split
      · exact hr
      · split
        · exact hr
        · split
          · exact hr
          · split
            · split
              · exact hr.trans (.frame rfl rfl rfl)
              · exact hr.trans ((event t _).trans (.close _ leases))
            · split
              · exact hr
              · exact hr.trans (.frame rfl rfl rfl)

theorem removeSlot (s : RedundantSession) (leases : Leases) (slot : Byte) :
    Stays heard sent s (s.removeSlot leases slot).1.1 := by
  unfold RedundantSession.removeSlot
  split
  · exact .refl s
  · exact .refl s
  · rename_i generation i _ _
    split
    · exact .refl s
    · split
      · exact .refl s
      · have hremoved : Stays heard sent s
            (({ s.setPath i { (s.paths i).clear with state := .removed } with
              receiveGeneration := generation }).event .degraded) := by
          have hslot : Stays heard sent s (s.setPath i { (s.paths i).clear with state := .removed }) :=
            .setPath i (by simp)
          exact hslot.trans (.frame rfl rfl rfl)
        dsimp only
        split
        · exact hremoved.trans (.close _ _)
        · exact hremoved

theorem removePath (s : RedundantSession) (leases : Leases) (slot : Byte) :
    Stays heard sent s (s.removePath leases slot).1.1 := by
  unfold RedundantSession.removePath
  split
  · exact .refl s
  · have hfree : Stays heard sent (s.reapPreview leases)
        { s.reapPreview leases with receivePreview := none } := .frame rfl rfl rfl
    exact (reap s leases).trans (hfree.trans (.removeSlot _ _ slot))

theorem remember (h : Stays heard sent s s') (id : U64) (bytes : List Byte) (nowMs : U64) :
    Stays heard sent s (s'.remember C id bytes nowMs) := by
  obtain ⟨dedup, hframe⟩ := remember_frame C s' id bytes nowMs
  rw [hframe]
  exact h.trans (.frame rfl rfl rfl)

/-- The session of a slot has read on. -/
theorem reread (i : Fin 2) {d d' : DirectionalSession} (hd : (s.paths i).session = some d)
    (hc : d'.sendCounters = d.sendCounters) :
    Stays True sent s (s.setPath i { s.paths i with session := some d' }) := by
  refine .setPath i ?_
  intro hi
  refine ⟨hi, rfl, rfl, rfl, rfl, ?_⟩
  intro e he
  obtain rfl := Option.some.inj (hd.symm.trans he)
  exact ⟨d', rfl, fun hn => absurd trivial hn, fun _ => hc⟩

theorem commitSlot (s : RedundantSession) (slot : Byte) (p : Profile3DataPreview) :
    Stays True sent s (s.commit slot p).1 := by
  unfold RedundantSession.commit
  split
  · exact .refl s
  · split
    · exact .refl s
    · rename_i i _ _ d hd
      obtain ⟨w, hw, -⟩ := Moves.commitProfile3Data_reread d p
      exact .reread i hd (by rw [hw])

theorem commitInbound (s : RedundantSession) (leases : Leases) (p : InboundPreview) :
    Stays True sent s (s.commitInbound C leases p).1.1 := by
  unfold RedundantSession.commitInbound
  dsimp only
  split
  · exact .refl s
  · split
    · exact .refl s
    · split
      · exact .refl s
      · have hfree : Stays True sent s { s with receivePreview := none } := .frame rfl rfl rfl
        have h := hfree.trans (commitSlot _ p.slot p.sessionPreview)
        generalize RedundantSession.commit _ p.slot p.sessionPreview = r at h ⊢
        obtain ⟨t, e | ⟨id, bytes⟩⟩ := r
        · exact h
        · dsimp only
          split
          · exact h.trans (.frame rfl rfl rfl)
          · refine .remember ?_ _ _ _
            exact h.trans (.frame rfl rfl rfl)

theorem commitMobility (s : RedundantSession) (leases : Leases) (m : Manager) (ms : State)
    (c : MobilityInboundCommit) :
    Stays True sent s (s.commitMobility C leases m ms c).1.1 := by
  rcases commitMobility_spec C s leases m ms c with ⟨hs, -⟩ |
    ⟨i, d, generation, hadmits, -, -, ⟨-, -, hs⟩ | ⟨-, -, hs⟩⟩
  · rw [hs]
    exact .refl s
  · obtain ⟨w, hw, -⟩ := Moves.commitProfile3With_reread m ms c.transition d
    rw [hs]
    exact .reread i hadmits.session (by rw [hw])
  · obtain ⟨w, hw, -⟩ := Moves.commitProfile3With_reread m ms c.transition d
    have h : Stays True sent s (s.setPath i { s.paths i with
        session := some (commitProfile3With m ms c.transition d).1.2 }) :=
      .reread i hadmits.session (by rw [hw])
    rw [hs]
    unfold afterCommit
    dsimp only
    split
    · exact h.trans (.frame rfl rfl rfl)
    · refine .remember ?_ _ _ _
      exact h.trans (.frame rfl rfl rfl)

/-- Nothing stays in use in a session that has ended. -/
theorem erased (h : Erased s') : Stays heard sent s s' := by
  refine ⟨?_, ?_, ?_⟩
  · intro ha
    simp [h.state] at ha
  · intro ha
    simp [h.state] at ha
  · intro i hi
    rw [h.paths] at hi
    simp at hi

/-- A call of `outbound` that hands out no packets. -/
theorem unsent (hs : s.Sound) (hsup : Supplied s) {plaintext : List Byte}
    (hr : ∀ id packets, (s.outbound C leases plaintext).2.2 ≠ .ok (.enqueued id packets)) :
    Stays heard sent s (s.outbound C leases plaintext).1.1 := by
  cases outbound_all C hs hsup leases plaintext with
  | enqueued packets hok => exact absurd hok (hr _ packets)
  | unchanged _ hframe =>
    rw [hframe]
    exact .frame rfl rfl rfl
  | ended _ herased _ => exact .erased herased

theorem outbound (C : Crypto) (hs : s.Sound) (hsup : Supplied s) (leases : Leases)
    (plaintext : List Byte) : Stays heard True s (s.outbound C leases plaintext).1.1 := by
  cases outbound_all C hs hsup leases plaintext with
  | enqueued packets _ hsent hother _ hframe =>
    generalize s.outbound C leases plaintext = r at hsent hother hframe ⊢
    obtain ⟨⟨t, l⟩, calls, res⟩ := r
    obtain ⟨ht, -⟩ := Prod.mk.inj hframe
    have hstate : t.state = s.state := by rw [ht]
    refine ⟨fun ha => hstate.symm.trans ha, fun _ hn => absurd trivial hn, ?_⟩
    intro i hi
    by_cases hmem : i ∈ s.activePaths
    · obtain ⟨out, -, hout⟩ := Lists.exists_of_forall₂ hsent hmem
      obtain ⟨d, counter, hd, -, -, hpath⟩ := hout.path
      rw [hpath] at hi ⊢
      refine ⟨hi, rfl, rfl, rfl, rfl, ?_⟩
      intro e he
      obtain rfl := Option.some.inj (hd.symm.trans he)
      exact ⟨_, rfl, fun _ => rfl, fun hn => absurd trivial hn⟩
    · have hsame := hother i hmem
      dsimp only at hsame hi
      rw [hsame] at hi ⊢
      exact .refl hi
  | unchanged _ hframe =>
    rw [hframe]
    exact .frame rfl rfl rfl
  | ended _ herased _ => exact .erased herased

end Stays

/-- Slot one comes into use with a session that has sent and received nothing. -/
structure Takes (s s' : RedundantSession) (admission : Profile3Admission) (budget : ℕ) : Prop where
  valid : admission.binding.Valid
  active : s.state = .active
  absent : (s.paths 1).state = .absent
  next : s'.nextDelivery = s.nextDelivery
  path0 : s'.paths 0 = s.paths 0
  path1 : ∃ d, d.sendCounters = .new ∧ d.replay = .new ∧ s'.paths 1 = { s.paths 1 with
    state := .active
    binding := some admission.binding
    localLoc := some admission.localLoc
    peerLoc := some admission.peerLoc
    budget := budget
    session := some d }

theorem activate_takes (C : Crypto) (s : RedundantSession) (leases : Leases)
    (admission : Profile3Admission) (budget owner : ℕ) :
    let r := s.activate C leases admission budget owner
    Takes s r.1 admission budget ∨ Stays False False s r.1 := by
  unfold RedundantSession.activate
  split
  · exact .inr (.refl s)
  · rename_i hvalid
    split
    · exact .inr (.refl s)
    · rename_i hactive
      have hr : Stays False False s (s.reapPreview leases) := .reap s leases
      have hframe : (s.reapPreview leases).paths = s.paths ∧
          (s.reapPreview leases).nextDelivery = s.nextDelivery := by
        unfold RedundantSession.reapPreview
        split <;> exact ⟨rfl, rfl⟩
      dsimp only
      generalize s.reapPreview leases = t at hr hframe ⊢
      obtain ⟨hpaths, hnext⟩ := hframe
      split
      · exact .inr hr
      · rename_i hguard
        push Not at hguard
        split
        · exact .inr hr
        · have hcases := Moves.takeSlot1_cases C t admission owner
          generalize t.takeSlot1 C admission owner = r at hcases ⊢
          rcases hcases with ⟨hsame, e, he⟩ | ⟨b, slot0, -, -, -, -, -, hspent, hcases⟩
          · obtain ⟨u, e | d⟩ := r
            · obtain rfl : u = t := hsame
              exact .inr hr
            · simp at he
          · obtain ⟨u, e | d⟩ := r
            · obtain rfl : u = _ := hspent
              exact .inr (hr.trans (.frame rfl rfl rfl))
            · obtain rfl : u = _ := hspent
              obtain ⟨d', hok, hd⟩ := hcases.resolve_left (by simp)
              obtain rfl := Except.ok.inj hok
              obtain ⟨schedule, k₁, k₂, -, -, -, rfl⟩ := takeSlot1AfterAdmission_ok hd
              rw [hpaths] at hguard
              refine .inl ⟨not_not.mp hvalid, not_not.mp hactive, hguard.1, hnext, ?_,
                .new owner k₁ k₂ b.transcriptHash b.budget, rfl, rfl, ?_⟩
              · simp [RedundantSession.event, RedundantSession.setPath, hpaths]
              · simp [RedundantSession.event, RedundantSession.setPath, hpaths]

/-- Calls that may act on a packet that came in. -/
def Call.Commits : Call → Prop
  | .commitInbound _ | .commitMobility _ _ _ => True
  | _ => False

def Call.Sends : Call → Prop
  | .outbound _ => True
  | _ => False

namespace World

variable {C : Crypto} {w : World} {call : Call}

/-- A call takes slot one into use, or every slot in use stays or is given up. -/
theorem step_stays (C : Crypto) (hs : w.session.Sound) (hsup : Supplied w.session) (call : Call) :
    (∃ admission budget owner, call = .activate admission budget owner ∧
      Takes w.session (w.step C call).session admission budget) ∨
    Stays call.Commits call.Sends w.session (w.step C call).session := by
  cases call with
  | previewInbound => exact .inr (.preview _ _ _ _ _ _ _)
  | previewMobilityInbound => exact .inr (.preview _ _ _ _ _ _ _)
  | commitInbound p => exact .inr (.commitInbound _ _ p)
  | abortInbound p => exact .inr (.abortInbound _ _ p)
  | dropPreview => exact .inr (.refl _)
  | prepareMobilityCommit => exact .inr (.refl _)
  | dropCommit => exact .inr (.refl _)
  | commitMobility m ms c => exact .inr (.commitMobility _ _ m ms c)
  | issueOwner => exact .inr (.issueOwner _ _ _ _)
  | activate admission budget owner =>
    rcases activate_takes C w.session w.leases admission budget owner with h | h
    · exact .inl ⟨admission, budget, owner, rfl, h⟩
    · exact .inr h
  | outbound plaintext => exact .inr (.outbound C hs hsup _ plaintext)
  | confirmSent => exact .inr (.confirmSent _ _ _)
  | removePath => exact .inr (.removePath _ _ _)
  | expire => exact .inr (.expire _ _)
  | tick => exact .inr (.tick _ _ _)
  | close => exact .inr (.close _ _)

end World

/-- A packet that was put on a path: sealed by the session of the path, under its header. -/
structure Carried (C : Crypto) (s : RedundantSession) (id : U64) (plaintext : List Byte) (i : Fin 2)
    (out : OutboundPacket) : Prop where
  sealed : ∃ call b d src dst, s.bootstrap = some b ∧ (s.paths i).session = some d ∧
    (s.paths i).localLoc = some src ∧ (s.paths i).peerLoc = some dst ∧ call.key = d.sendKey ∧
    call.plaintext = plaintext ∧ Carries3 C call (slotHeader i b.scid src dst) id out.packet
  slot : slotIndex out.slot = some i
  fits : out.packet.length ≤ (s.paths i).budget
  id : id ≠ u64Max

section

variable {C : Crypto} {s : RedundantSession} {i : Fin 2} {id : U64} {plaintext : List Byte}
  {out : OutboundPacket} {packets : List OutboundPacket}

theorem sendOn_frame (C : Crypto) (s : RedundantSession) (i : Fin 2) (id : U64)
    (plaintext : List Byte) :
    (s.sendOn C i id plaintext).1.bootstrap = s.bootstrap ∧
      ∀ j, j ≠ i → (s.sendOn C i id plaintext).1.paths j = s.paths j := by
  have hother : ∀ p j, j ≠ i → (s.setPath i p).paths j = s.paths j := by
    intro p j hj
    simp [RedundantSession.setPath, hj]
  unfold RedundantSession.sendOn
  split
  · exact ⟨rfl, fun _ _ => rfl⟩
  · split
    · dsimp only
      split
      · exact ⟨rfl, hother _⟩
      · exact ⟨rfl, hother _⟩
    · exact ⟨rfl, fun _ _ => rfl⟩

theorem sendOn_carried (h : (s.sendOn C i id plaintext).2.2 = .ok out) :
    Carried C s id plaintext i out := by
  unfold RedundantSession.sendOn at h
  split at h
  · cases h
  · rename_i header hheader
    split at h
    · rename_i binding d _ hd
      dsimp only at h
      split at h
      · cases h
      · rename_i packet hpacket
        obtain rfl := Except.ok.inj h
        rcases encryptProfile3Data_atomic C d header id plaintext (s.paths i).budget with
          ⟨e, he⟩ | ⟨-, hvalid, hid, hfit, hmax, hcan⟩
        · rw [he] at hpacket
          cases hpacket
        · obtain ⟨call, packet', -, hseals, hok, hcarries, -⟩ :=
            encryptProfile3Data_carries C hvalid hid hfit hmax hcan
          obtain rfl := Except.ok.inj (hpacket.symm.trans hok)
          unfold RedundantSession.header at hheader
          split at hheader
          · cases hheader
          · rename_i b hb
            split at hheader
            · rename_i src dst hl hp
              obtain rfl := Except.ok.inj hheader
              refine ⟨⟨call, b, d, src, dst, hb, hd, hl, hp, hseals.key, hseals.plaintext, hcarries⟩,
                ?_, ?_, hid⟩
              · fin_cases i <;> rfl
              · rw [hcarries.length, hseals.plaintext]
                exact hfit
            · cases hheader
    · cases h

theorem Carried.before {t : RedundantSession} (h : Carried C t id plaintext i out)
    (hb : t.bootstrap = s.bootstrap) (hp : t.paths i = s.paths i) :
    Carried C s id plaintext i out := by
  obtain ⟨hsealed, hslot, hfits, hid⟩ := h
  rw [hp] at hfits
  rw [hb, hp] at hsealed
  exact ⟨hsealed, hslot, hfits, hid⟩

theorem sendAll_carried {t : RedundantSession} (is : List (Fin 2)) (hnodup : is.Nodup)
    (hb : t.bootstrap = s.bootstrap) (hp : ∀ i ∈ is, t.paths i = s.paths i)
    (h : (t.sendAll C id plaintext is).2.2 = .ok packets) :
    List.Forall₂ (Carried C s id plaintext) is packets := by
  induction is generalizing t packets with
  | nil =>
    obtain rfl : [] = packets := Except.ok.inj h
    exact .nil
  | cons i is ih =>
    obtain ⟨hi, hrest⟩ := List.nodup_cons.mp hnodup
    have hone := @sendOn_carried C t i id plaintext
    obtain ⟨hboot, hother⟩ := sendOn_frame C t i id plaintext
    unfold RedundantSession.sendAll at h
    generalize t.sendOn C i id plaintext = r at hone hboot hother h
    obtain ⟨u, calls, e | out⟩ := r
    · cases h
    · dsimp only at h hboot hother
      cases hr : (u.sendAll C id plaintext is).2.2 with
      | error e => simp [hr, Except.map] at h
      | ok rest =>
        obtain rfl : out :: rest = packets := by simpa [hr, Except.map] using h
        refine .cons ((hone rfl).before hb (hp i List.mem_cons_self)) ?_
        refine ih hrest (hboot.trans hb) ?_ hr
        intro j hj
        exact (hother j fun hji => hi (hji ▸ hj)).trans (hp j (List.mem_cons_of_mem i hj))

theorem outbound_carried {leases : Leases}
    (h : (s.outbound C leases plaintext).2.2 = .ok (.enqueued id packets)) :
    s.state = .active ∧ s.activePaths ≠ [] ∧
      List.Forall₂ (Carried C s id plaintext) s.activePaths packets := by
  unfold RedundantSession.outbound at h
  split at h
  · cases h
  · rename_i hactive
    dsimp only at h
    split at h
    · cases h
    · rename_i hpaths
      refine ⟨not_not.mp hactive, hpaths, ?_⟩
      split at h
      · cases h
      · cases h
      · cases h
      · split at h
        · cases h
        · split at h
          · cases h
          · rename_i t calls packets' hall
            obtain ⟨rfl, rfl⟩ : s.nextDelivery = id ∧ packets' = packets := by simpa using h
            exact sendAll_carried s.activePaths (Moves.nodup_activePaths s) rfl (fun _ _ => rfl)
              (by rw [hall])

end

end R8.Redundant
