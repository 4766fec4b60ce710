import R8Protocol.Redundant.Session
import R8Protocol.Session.Runs

/-! What a call can do to a two-slot session, in moves that every later argument is about. -/
namespace R8.Redundant

open FixedWidth Wire Session Mobility

/-- A session as `new` leaves it. -/
structure Started (b : Profile3Bootstrap) (binding : ObservedBinding) (seed : U64) (owner : ℕ)
    (d : DirectionalSession) (s : RedundantSession) : Prop where
  bootstrap : s.bootstrap = some { b with slot0 := none }
  path0 : s.paths 0 = ⟨.active, some binding, some b.localLoc, some b.peerLoc, b.budget, some d, [],
    0⟩
  path1 : s.paths 1 = ⟨.absent, none, none, none, b.budget, none, [], 0⟩
  state : s.state = .active
  next : s.nextDelivery = seed
  delivered : s.delivered = .new
  dedup : s.dedup = []
  issuer : s.admissionIssuer = none
  owner : s.receiveOwner = owner

theorem new_eq_ok {b : Profile3Bootstrap} {binding : ObservedBinding} {seed : U64} {owner : ℕ}
    {s : RedundantSession} (h : RedundantSession.new b binding seed owner = .ok s) :
    ∃ d, b.slot0 = some d ∧ budgetAllowed b.budget = true ∧ Started b binding seed owner d s := by
  unfold RedundantSession.new at h
  simp only [Outcome.ite_error_eq_ok, not_not] at h
  obtain ⟨-, hbudget, h⟩ := h
  split at h
  · simp at h
  · rename_i b' slot0 hslot
    simp only [Outcome.ite_error_eq_ok, Except.ok.injEq] at h
    obtain ⟨-, rfl⟩ := h
    unfold Profile3Bootstrap.takeSlot0 at hslot
    split at hslot
    · simp at hslot
    · rename_i d hd
      obtain ⟨rfl, hok⟩ := Prod.mk.inj hslot
      obtain rfl := Except.ok.inj hok
      exact ⟨d, hd, hbudget, rfl, rfl, rfl, rfl, rfl, rfl, rfl, rfl, rfl⟩

theorem takeSlot1AfterAdmission_ok {C : Crypto} {b : Profile3Bootstrap} {owner : ℕ} {d : DirectionalSession}
    (h : (b.takeSlot1AfterAdmission C owner).2 = .ok d) :
    ∃ schedule k₁ k₂, b.schedule = some schedule ∧
      deriveKeyFromPrk C schedule b.transcriptHash 3 b.localRole b.peerRole 1 = .ok k₁ ∧
      deriveKeyFromPrk C schedule b.transcriptHash 3 b.peerRole b.localRole 1 = .ok k₂ ∧
      d = .new owner k₁ k₂ b.transcriptHash b.budget := by
  unfold Profile3Bootstrap.takeSlot1AfterAdmission at h
  split at h
  · simp at h
  · rename_i schedule hs
    simp only [Outcome.bind_eq_ok, Except.ok.injEq] at h
    obtain ⟨k₁, h₁, k₂, h₂, rfl⟩ := h
    exact ⟨schedule, k₁, k₂, hs, h₁, h₂, rfl⟩

/-- Changes that leave the slots, the window and the key schedule alone. -/
structure Framed (s s' : RedundantSession) : Prop where
  paths : s'.paths = s.paths
  state : s'.state = s.state
  bootstrap : s'.bootstrap = s.bootstrap
  delivered : s'.delivered = s.delivered
  owner : s'.receiveOwner = s.receiveOwner
  next : s.nextDelivery ≤ s'.nextDelivery
  dedup : s'.dedup.Sublist s.dedup
  issuer : s'.admissionIssuer = s.admissionIssuer ∨ s'.admissionIssuer = none

/-- What is left of a session that is closed. -/
structure Closed (s s' : RedundantSession) : Prop where
  active : s.state = .active
  paths : ∀ i, s'.paths i = { (s.paths i).clear with state := .released }
  state : s'.state = .released
  bootstrap : s'.bootstrap = none
  dedup : s'.dedup = []
  issuer : s'.admissionIssuer = none
  owner : s'.receiveOwner = s.receiveOwner

/-- One move, with the calls of `seal` it makes. `g` is the capability it may hand out. -/
inductive Move (C : Crypto) (g : Option ℕ) (s : RedundantSession) :
    List SealCall → RedundantSession → Prop
  | frame {s' : RedundantSession} (h : Framed s s') : Move C g s [] s'
  | issue (capability : ℕ) (hg : g = some capability) (ha : s.state = .active)
      (h1 : (s.paths 1).state = .absent) :
      Move C g s [] { s with admissionIssuer := some ⟨capability⟩ }
  | reread (i : Fin 2) (d : DirectionalSession) (w : ReplayWindow)
      (hd : (s.paths i).session = some d) (hs : d.Sane → DirectionalSession.Sane { d with replay := w }) :
      Move C g s [] (s.setPath i { s.paths i with session := some { d with replay := w } })
  | count (i : Fin 2) (d : DirectionalSession) (c : Counters)
      (hd : (s.paths i).session = some d) (hc : d.sendCounters.next ≤ c.next) :
      Move C g s [] (s.setPath i { s.paths i with session := some { d with sendCounters := c } })
  | send (i : Fin 2) (d d' : DirectionalSession) (call : SealCall) (out : OutboundPacket)
      (plaintext : List Byte) (hd : (s.paths i).session = some d)
      (hs : Seals d d' call plaintext)
      (hroom : (s.paths i).canEnqueue out.packet.length = true) :
      Move C g s [call] (s.setPath i { s.paths i with
        session := some d'
        queuedBytes := (s.paths i).queuedBytes + out.packet.length
        queue := (s.paths i).queue ++ [out] })
  | pop (i : Fin 2) (front : OutboundPacket) (rest : List OutboundPacket)
      (hq : (s.paths i).queue = front :: rest) :
      Move C g s [] (s.setPath i { s.paths i with
        queue := rest
        queuedBytes := (s.paths i).queuedBytes - front.packet.length })
  | spend (b : Profile3Bootstrap) (hb : s.bootstrap = some b) :
      Move C g s [] { s with bootstrap := some { b with schedule := none } }
  | use (b : Profile3Bootstrap) (admission : Profile3Admission) (budget owner : ℕ)
      (d : DirectionalSession) (hb : s.bootstrap = some b) (ha : s.state = .active)
      (h1 : (s.paths 1).state = .absent) (hbudget : budgetAllowed budget = true)
      (hd : (b.takeSlot1AfterAdmission C owner).2 = .ok d) :
      Move C g s [] ({ s with bootstrap := some { b with schedule := none } }.setPath 1
        { s.paths 1 with
          state := .active
          binding := some admission.binding
          localLoc := some admission.localLoc
          peerLoc := some admission.peerLoc
          budget := budget
          session := some d })
  | retire (i : Fin 2) (ha : s.state = .active) (hi : (s.paths i).state = .active)
      (hj : ∃ j, j ≠ i ∧ (s.paths j).state = .active) :
      Move C g s [] (s.setPath i { (s.paths i).clear with state := .removed })
  | remember (id : U64) (bytes : List Byte) (nowMs : U64) (ha : s.state = .active) :
      Move C g s [] (s.remember C id bytes nowMs)
  | close {s' : RedundantSession} (h : Closed s s') : Move C g s [] s'

inductive Moves (C : Crypto) (g : Option ℕ) :
    RedundantSession → List SealCall → RedundantSession → Prop
  | refl (s : RedundantSession) : Moves C g s [] s
  | tail {s t u : RedundantSession} {calls calls' : List SealCall} (h : Moves C g s calls t)
      (hm : Move C g t calls' u) : Moves C g s (calls ++ calls') u

namespace Moves

variable {C : Crypto} {g : Option ℕ} {s s' s'' t : RedundantSession} {calls calls' : List SealCall}
  {leases : Leases}

theorem single (h : Move C g s calls s') : Moves C g s calls s' := .tail (.refl s) h

theorem trans (h : Moves C g s calls s') (h' : Moves C g s' calls' s'') :
    Moves C g s (calls ++ calls') s'' := by
  induction h' with
  | refl => simpa using h
  | tail _ hm ih =>
    rw [← List.append_assoc]
    exact .tail ih hm

theorem more (h : Moves C g s calls s') (h' : Move C g s' [] s'') : Moves C g s calls s'' := by
  simpa using h.tail h'

/-- What one move keeps, a call keeps. -/
theorem preserves {P : RedundantSession → RedundantSession → Prop} (hrefl : ∀ s, P s s)
    (htrans : ∀ {s t u}, P s t → P t u → P s u)
    (hmove : ∀ {s calls t}, Move C g s calls t → P s t) (h : Moves C g s calls s') : P s s' := by
  induction h with
  | refl => exact hrefl _
  | tail _ hm ih => exact htrans ih (hmove hm)

theorem framed (h : Framed s s') : Moves C g s [] s' := .single (.frame h)

theorem event (s : RedundantSession) (e : RedundantEvent) : Moves C g s [] (s.event e) :=
  .framed ⟨rfl, rfl, rfl, rfl, rfl, le_rfl, .refl _, .inl rfl⟩

theorem unlend (s : RedundantSession) : Moves C g s [] { s with receivePreview := none } :=
  .framed ⟨rfl, rfl, rfl, rfl, rfl, le_rfl, .refl _, .inl rfl⟩

theorem reap (s : RedundantSession) (leases : Leases) : Moves C g s [] (s.reapPreview leases) := by
  unfold RedundantSession.reapPreview
  split
  · exact .unlend s
  · exact .refl s

theorem state_reap (s : RedundantSession) (leases : Leases) :
    (s.reapPreview leases).state = s.state := by
  unfold RedundantSession.reapPreview
  split <;> rfl

theorem close (s : RedundantSession) (leases : Leases) : Moves C g s [] (s.close leases).1 := by
  unfold RedundantSession.close
  split
  · exact .refl s
  · rename_i hs
    have ha : s.state = .active := by cases h : s.state <;> simp_all
    exact .single (.close ⟨ha, fun _ => rfl, rfl, rfl, rfl, rfl, rfl⟩)

theorem expire (s : RedundantSession) (nowMs : U64) : Moves C g s [] (s.expire nowMs) :=
  .framed ⟨rfl, rfl, rfl, rfl, rfl, le_rfl, List.filter_sublist, .inl rfl⟩

theorem tick (s : RedundantSession) (leases : Leases) (nowMs : U64) :
    Moves C g s [] (s.tick leases nowMs).1 := by
  unfold RedundantSession.tick
  split
  · exact .refl s
  · exact (reap s leases).trans (.expire _ nowMs)

theorem confirmSent (s : RedundantSession) (slot : Byte) (packet : List Byte) :
    Moves C g s [] (s.confirmSent slot packet).1 := by
  unfold RedundantSession.confirmSent
  split
  · exact .refl s
  · split
    · exact .refl s
    · rename_i i _ front rest hqueue
      split
      · exact .refl s
      · exact .single (.pop _ front rest hqueue)

theorem issueOwner (s : RedundantSession) (policyId : U32) (ownerLive : Bool) (capability : ℕ) :
    Moves C (some capability) s []
      (s.issueProfile3AdmissionOwner policyId ownerLive capability).1 := by
  unfold RedundantSession.issueProfile3AdmissionOwner
  split
  · exact .refl s
  · rename_i hactive
    split
    · exact .refl s
    · rename_i hfree
      push Not at hactive hfree
      have hforget : Moves C (some capability) s [] { s with admissionIssuer := none } :=
        .framed ⟨rfl, rfl, rfl, rfl, rfl, le_rfl, .refl _, .inr rfl⟩
      dsimp only
      split
      · split
        · exact hforget
        · exact .single (.issue capability rfl hactive hfree.1)
      · exact hforget

theorem abortInbound (s : RedundantSession) (leases : Leases) (p : InboundPreview) :
    Moves C g s [] (s.abortInbound leases p).1.1 := by
  unfold RedundantSession.abortInbound
  dsimp only
  split
  · exact .refl s
  · split
    · exact .refl s
    · exact .unlend s

theorem preview (s : RedundantSession) (leases : Leases) (slot : Byte)
    (binding : ObservedBinding) (packet : List Byte) (nowMs : U64) (requireActive : Bool) :
    Moves C g s [] (s.previewInboundInner C leases slot binding packet nowMs requireActive).1.1 := by
  have hr := reap (C := C) (g := g) s leases
  unfold RedundantSession.previewInboundInner
  split
  · exact .refl s
  · split
    · exact .refl s
    · dsimp only
      generalize s.reapPreview leases = t at hr ⊢
      have hlend : ∀ lease, Moves C g t [] { t with receivePreview := some lease } := fun lease =>
        .framed ⟨rfl, rfl, rfl, rfl, rfl, le_rfl, .refl _, .inl rfl⟩
      split
      · exact hr
      · split
        · exact hr
        · split
          · exact hr
          · split
            · split
              · exact hr.trans (hlend _)
              · exact hr.trans ((event t _).trans (.close _ leases))
            · split
              · exact hr
              · exact hr.trans (hlend _)

/-- Emptying a slot in use leaves the other one in use, or ends the session. -/
theorem removeSlot (ha : s.state = .active) (leases : Leases) (slot : Byte) :
    Moves C g s [] (s.removeSlot leases slot).1.1 := by
  unfold RedundantSession.removeSlot
  split
  · exact .refl s
  · exact .refl s
  · rename_i generation i _ _
    split
    · exact .refl s
    · split
      · exact .refl s
      · rename_i hused
        push Not at hused
        dsimp only
        split
        · unfold RedundantSession.close
          rw [if_neg (by simp [RedundantSession.event, RedundantSession.setPath, ha])]
          refine .single (.close ⟨ha, ?_, rfl, rfl, rfl, rfl, rfl⟩)
          intro j
          by_cases hj : j = i
          · subst hj
            simp [RedundantSession.event, RedundantSession.setPath, Path.clear]
          · simp [RedundantSession.event, RedundantSession.setPath, hj]
        · rename_i hsome
          obtain ⟨j, hj⟩ := List.exists_mem_of_ne_nil _ hsome
          have hj : ((s.setPath i { (s.paths i).clear with state := .removed }).paths j).state =
              .active := of_decide_eq_true (List.mem_filter.mp hj).2
          have hne : j ≠ i := by
            rintro rfl
            simp [RedundantSession.setPath] at hj
          have hother : (s.paths j).state = .active := by
            simpa [RedundantSession.setPath, hne] using hj
          exact (single (.retire i ha hused ⟨j, hne, hother⟩)).more
            (.frame ⟨rfl, rfl, rfl, rfl, rfl, le_rfl, .refl _, .inl rfl⟩)

theorem removePath (s : RedundantSession) (leases : Leases) (slot : Byte) :
    Moves C g s [] (s.removePath leases slot).1.1 := by
  unfold RedundantSession.removePath
  split
  · exact .refl s
  · rename_i hstate
    push Not at hstate
    refine (reap s leases).trans ((unlend _).trans (.removeSlot ?_ _ slot))
    exact (state_reap s leases).trans hstate

theorem remember (ha : s.state = .active) (id : U64) (bytes : List Byte) (nowMs : U64) :
    Moves C g s [] (s.remember C id bytes nowMs) := .single (.remember id bytes nowMs ha)

theorem commitProfile3Data_reread (d : DirectionalSession) (p : Profile3DataPreview) :
    ∃ w, (d.commitProfile3Data p).1 = { d with replay := w } ∧
      (d.Sane → DirectionalSession.Sane { d with replay := w }) := by
  unfold DirectionalSession.commitProfile3Data
  split
  · exact ⟨d.replay, rfl, id⟩
  · have h := (replay_advances d p.commit).sane
    generalize d.replay.commit p.commit = r at h
    obtain ⟨replay, e | ⟨⟩⟩ := r <;> exact ⟨replay, rfl, h⟩

theorem commitProfile3Replay_reread (d : DirectionalSession) (proof : Profile3ReplayProof) :
    ∃ w, (d.commitProfile3Replay proof).1 = { d with replay := w } ∧
      (d.Sane → DirectionalSession.Sane { d with replay := w }) := by
  unfold DirectionalSession.commitProfile3Replay
  split
  · exact ⟨d.replay, rfl, id⟩
  · split
    · exact ⟨d.replay, rfl, id⟩
    · rename_i preview _
      dsimp only
      split
      · exact ⟨d.replay, rfl, id⟩
      · have h := (replay_advances d preview.commit).sane
        generalize d.replay.commit preview.commit = r at h
        obtain ⟨replay, e | ⟨⟩⟩ := r <;> exact ⟨replay, rfl, h⟩

theorem commitProfile3With_reread (m : Manager) (ms : State) (t : Transition)
    (d : DirectionalSession) : ∃ w, (commitProfile3With m ms t d).1.2 = { d with replay := w } ∧
      (d.Sane → DirectionalSession.Sane { d with replay := w }) := by
  unfold commitProfile3With
  dsimp only
  split
  · exact ⟨d.replay, rfl, id⟩
  · exact commitProfile3Replay_reread d _

theorem commitSlot (s : RedundantSession) (slot : Byte) (p : Profile3DataPreview) :
    Moves C g s [] (s.commit slot p).1 := by
  unfold RedundantSession.commit
  split
  · exact .refl s
  · split
    · exact .refl s
    · rename_i i _ _ d hd
      obtain ⟨w, hw, hs⟩ := commitProfile3Data_reread d p
      dsimp only
      rw [hw]
      exact .single (.reread i d w hd hs)

theorem state_commitSlot (s : RedundantSession) (slot : Byte) (p : Profile3DataPreview) :
    (s.commit slot p).1.state = s.state := by
  unfold RedundantSession.commit
  split
  · rfl
  · split <;> rfl

theorem commitInbound (s : RedundantSession) (leases : Leases) (p : InboundPreview) :
    Moves C g s [] (s.commitInbound C leases p).1.1 := by
  unfold RedundantSession.commitInbound
  dsimp only
  split
  · exact .refl s
  · rename_i hactive
    push Not at hactive
    split
    · exact .refl s
    · split
      · exact .refl s
      · rename_i generation _
        have h := (unlend (C := C) (g := g) s).trans (commitSlot _ p.slot p.sessionPreview)
        have ht := (state_commitSlot { s with receivePreview := none } p.slot p.sessionPreview).trans
          hactive
        generalize RedundantSession.commit _ p.slot p.sessionPreview = r at h ht ⊢
        obtain ⟨t, e | ⟨id, bytes⟩⟩ := r
        · exact h
        · have hdone : Moves C g s [] (({ t with receiveGeneration := generation }).expire p.nowMs) :=
            h.more (.frame ⟨rfl, rfl, rfl, rfl, rfl, le_rfl, List.filter_sublist, .inl rfl⟩)
          cases hdec : p.decision with
          | equal => exact hdone
          | new => exact hdone.trans (.remember (by exact ht) _ _ _)

theorem commitMobility (s : RedundantSession) (leases : Leases) (m : Manager) (ms : State)
    (c : MobilityInboundCommit) : Moves C g s [] (s.commitMobility C leases m ms c).1.1 := by
  unfold RedundantSession.commitMobility
  dsimp only
  split
  · exact .refl s
  · rename_i hactive
    push Not at hactive
    split
    · exact .refl s
    · split
      · exact .refl s
      · exact .refl s
      · rename_i generation i _ _
        split
        · exact .refl s
        · rename_i d hd
          obtain ⟨w, hw, hs⟩ := commitProfile3With_reread m ms c.transition d
          have h := single (C := C) (g := g) (.reread i d w hd hs)
          generalize commitProfile3With m ms c.transition d = r at hw ⊢
          obtain ⟨⟨ms', d'⟩, e | ⟨⟩⟩ := r
          · obtain rfl : d' = _ := hw
            exact h
          · obtain rfl : d' = _ := hw
            have hdone : Moves C g s [] (({ s.setPath i { s.paths i with
                session := some { d with replay := w } } with
                receivePreview := none
                receiveGeneration := generation }).expire c.nowMs) :=
              h.more (.frame ⟨rfl, rfl, rfl, rfl, rfl, le_rfl, List.filter_sublist, .inl rfl⟩)
            cases hdec : c.decision with
            | equal => exact hdone
            | new => exact hdone.trans (.remember (by exact hactive) _ _ _)

/-- Activation ends before the key schedule is touched, after it was spent in vain, or with slot one
in use. -/
theorem takeSlot1_cases (C : Crypto) (s : RedundantSession) (admission : Profile3Admission)
    (owner : ℕ) :
    let r := s.takeSlot1 C admission owner
    (r.1 = s ∧ ∃ e, r.2 = .error e) ∨
    ∃ b slot0, s.bootstrap = some b ∧ (s.paths 0).session = some slot0 ∧
      admission.scid = b.scid ∧ (∃ i ∈ s.admissionIssuer, i.admits admission = true) ∧
      admission.owner.replayBinding = slot0.profile3ReplayBinding ∧
      r.1 = { s with bootstrap := some (b.takeSlot1AfterAdmission C owner).1 } ∧
      ((∃ e, r.2 = .error e ∧ ∀ d, (b.takeSlot1AfterAdmission C owner).2 = .ok d → ¬ d.canReserve) ∨
      ∃ d, r.2 = .ok d ∧ (b.takeSlot1AfterAdmission C owner).2 = .ok d) := by
  unfold RedundantSession.takeSlot1
  split
  · rename_i b slot0 hb h0
    split
    · exact .inl ⟨rfl, _, rfl⟩
    · rename_i hguard
      push Not at hguard
      obtain ⟨hscid, hissuer, hbinding⟩ := hguard
      refine .inr ⟨b, slot0, hb, h0, hscid, ?_, hbinding, ?_⟩
      · simpa [Option.any_eq_true] using hissuer
      · dsimp only
        cases ht : (b.takeSlot1AfterAdmission C owner).2 with
        | error e => exact ⟨rfl, .inl ⟨_, rfl, by simp⟩⟩
        | ok d =>
          dsimp only
          split
          · rename_i hd
            refine ⟨rfl, .inl ⟨_, rfl, ?_⟩⟩
            intro d' hd'
            rwa [← Except.ok.inj hd']
          · exact ⟨rfl, .inr ⟨d, rfl, rfl⟩⟩
  · exact .inl ⟨rfl, _, rfl⟩

theorem takeSlot1AfterAdmission_fst (b : Profile3Bootstrap) (owner : ℕ) :
    (b.takeSlot1AfterAdmission C owner).1 = { b with schedule := none } := by
  unfold Profile3Bootstrap.takeSlot1AfterAdmission
  split
  · rename_i h
    rw [← h]
  · rfl

theorem activate (s : RedundantSession) (leases : Leases) (admission : Profile3Admission)
    (budget owner : ℕ) : Moves C g s [] (s.activate C leases admission budget owner).1 := by
  unfold RedundantSession.activate
  split
  · exact .refl s
  · split
    · exact .refl s
    · rename_i hstate
      push Not at hstate
      have hr := reap (C := C) (g := g) s leases
      have ht := (state_reap s leases).trans hstate
      dsimp only
      generalize s.reapPreview leases = t at hr ht ⊢
      split
      · exact hr
      · rename_i hguard
        push Not at hguard
        split
        · exact hr
        · have hcases := takeSlot1_cases C t admission owner
          generalize t.takeSlot1 C admission owner = r at hcases ⊢
          rcases hcases with ⟨hsame, e, he⟩ | ⟨b, slot0, hb, -, -, -, -, hspent, hcases⟩
          · obtain ⟨u, e | d⟩ := r
            · obtain rfl : u = t := hsame
              exact hr
            · simp at he
          · obtain ⟨u, e | d⟩ := r
            · obtain rfl : u = _ := hspent
              rw [takeSlot1AfterAdmission_fst]
              exact hr.more (.spend b hb)
            · obtain rfl : u = _ := hspent
              obtain ⟨d', hok, hd⟩ := hcases.resolve_left (by simp)
              obtain rfl := Except.ok.inj hok
              rw [takeSlot1AfterAdmission_fst]
              exact (hr.more (.use b admission budget owner d hb ht hguard.1 hguard.2.1 hd)).more
                (.frame ⟨rfl, rfl, rfl, rfl, rfl, le_rfl, .refl _, .inr rfl⟩)

theorem encryptProfile3Data_length {d : DirectionalSession} {header : Header} {deliveryId : U64}
    {plaintext packet : List Byte} {budget : ℕ}
    (h : (d.encryptProfile3Data C header deliveryId plaintext budget).2.2 = .ok packet) :
    packet.length = plaintext.length + OVERHEAD := by
  rcases encryptProfile3Data_cases C d header deliveryId plaintext budget with
    ⟨-, ⟨e, he⟩, -⟩ | ⟨call, packet', -, hseals, himage, -, hok⟩
  · simp [he] at h
  · obtain rfl := Except.ok.inj (h.symm.trans hok)
    obtain ⟨n, -, hbody⟩ := himage.body
    have hlen := congrArg List.length hbody
    rw [sealed_length, List.length_drop, hseals.plaintext] at hlen
    have := himage.long
    simp only [OVERHEAD]
    omega

/-- Sending on a path with room leaves the others as they were. -/
theorem sendOn (i : Fin 2) (delivery : U64) (plaintext : List Byte)
    (hroom : (s.paths i).canEnqueue (plaintext.length + OVERHEAD) = true) :
    let r := s.sendOn C i delivery plaintext
    Moves C g s r.2.1 r.1 ∧ ∀ j, j ≠ i → r.1.paths j = s.paths j := by
  have hother : ∀ p j, j ≠ i → (s.setPath i p).paths j = s.paths j := by
    intro p j hj
    simp [RedundantSession.setPath, hj]
  unfold RedundantSession.sendOn
  split
  · exact ⟨.refl s, fun _ _ => rfl⟩
  · rename_i header _
    split
    · rename_i binding d _ hd
      have hcases := encryptProfile3Data_cases C d header delivery plaintext (s.paths i).budget
      have hlen : ∀ packet, (d.encryptProfile3Data C header delivery plaintext
          (s.paths i).budget).2.2 = .ok packet → packet.length = plaintext.length + OVERHEAD :=
        fun _ => encryptProfile3Data_length
      generalize d.encryptProfile3Data C header delivery plaintext (s.paths i).budget = r
        at hcases hlen ⊢
      rcases hcases with ⟨hcalls, ⟨e, he⟩, c, hc, hle⟩ | ⟨call, packet, hcalls, hseals, -, -, hok⟩
      · simp only [he, hcalls, hc]
        exact ⟨.single (.count i d c hd hle), hother _⟩
      · simp only [hok, hcalls]
        have hfits : (s.paths i).canEnqueue packet.length = true := by
          rw [hlen packet hok]
          exact hroom
        exact ⟨.single (.send i d r.1 call ⟨_, binding, packet⟩ plaintext hd hseals hfits), hother _⟩
    · exact ⟨.refl s, fun _ _ => rfl⟩

theorem sendAll (delivery : U64) (plaintext : List Byte) (is : List (Fin 2)) (hnodup : is.Nodup)
    (hroom : ∀ i ∈ is, (s.paths i).canEnqueue (plaintext.length + OVERHEAD) = true) :
    let r := s.sendAll C delivery plaintext is
    Moves C g s r.2.1 r.1 := by
  induction is generalizing s with
  | nil => exact .refl s
  | cons i is ih =>
    obtain ⟨hi, hnodup⟩ := List.nodup_cons.mp hnodup
    obtain ⟨h, hother⟩ := sendOn (C := C) i delivery plaintext (hroom i List.mem_cons_self)
    unfold RedundantSession.sendAll
    generalize s.sendOn C i delivery plaintext = r at h hother ⊢
    obtain ⟨t, calls, e | packet⟩ := r
    · exact h
    · refine h.trans (ih hnodup ?_)
      intro j hj
      rw [show t.paths j = s.paths j from hother j (fun hji => hi (hji ▸ hj))]
      exact hroom j (List.mem_cons_of_mem i hj)

theorem nextDelivery_sendAll (C : Crypto) (s : RedundantSession) (delivery : U64)
    (plaintext : List Byte) (is : List (Fin 2)) :
    (s.sendAll C delivery plaintext is).1.nextDelivery = s.nextDelivery := by
  induction is generalizing s with
  | nil => rfl
  | cons i is ih =>
    have hone : (s.sendOn C i delivery plaintext).1.nextDelivery = s.nextDelivery := by
      unfold RedundantSession.sendOn
      split
      · rfl
      · split
        · dsimp only
          split <;> rfl
        · rfl
    unfold RedundantSession.sendAll
    generalize s.sendOn C i delivery plaintext = r at hone ⊢
    obtain ⟨t, calls, e | packet⟩ := r
    · exact hone
    · exact (ih t).trans hone

theorem blocks_eq_none {p : Path} {length : ℕ} : RedundantSession.Path.blocks p length = none ↔
    length ≤ p.budget ∧ p.canEnqueue length = true ∧ p.session.any (·.canReserve) = true := by
  unfold RedundantSession.Path.blocks
  split
  · simp [*]
  · split
    · simp_all
    · split <;> simp_all

theorem nodup_activePaths (s : RedundantSession) : s.activePaths.Nodup :=
  (by decide : [(0 : Fin 2), 1].Nodup).filter _

theorem outbound (s : RedundantSession) (leases : Leases) (plaintext : List Byte) :
    let r := s.outbound C leases plaintext
    Moves C g s r.2.1 r.1.1 := by
  unfold RedundantSession.outbound
  split
  · exact .refl s
  · dsimp only
    split
    · exact .refl s
    · split
      · exact .refl s
      · exact .event s _
      · exact .close s leases
      · rename_i hblocks
        split
        · exact .close s leases
        · rename_i next hnext
          have h := sendAll (C := C) (g := g) s.nextDelivery plaintext s.activePaths (nodup_activePaths s)
            fun i hi => (blocks_eq_none.mp (List.findSome?_eq_none_iff.mp hblocks i hi)).2.1
          have hkept := nextDelivery_sendAll C s s.nextDelivery plaintext s.activePaths
          generalize s.sendAll C s.nextDelivery plaintext s.activePaths = r at h hkept ⊢
          obtain ⟨t, calls, e | packets⟩ := r
          · exact h
          · refine h.more (.frame ⟨rfl, rfl, rfl, rfl, rfl, ?_, .refl _, .inl rfl⟩)
            rw [show t.nextDelivery = s.nextDelivery from hkept, Fin.le_def]
            have := checkedAdd_eq_some.mp hnext
            dsimp only
            omega

end Moves

end R8.Redundant
