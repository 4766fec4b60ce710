import R8Protocol.Mobility.Pair
import R8Protocol.Session.Transfer

/-! Between two honest managers that are at rest and agree where they are, an exchange that is not
delayed completes, and so does any number of them. -/
namespace R8.Mobility

open FixedWidth Wire Session Session.Channel

/-- How a control arrives: where it is observed and when, with the session's proof for it. -/
structure Delivery where
  binding : ObservedBinding
  nowMs : U64
  proof : List Byte → ProtectedReplayProof
  live : ℕ → Bool
  commit : ProtectedReplayProof → ProtectedReplayProof × Except MobilityError Unit

/-- The body of the association loops: expire, preview, answer, commit and take the results. -/
def Manager.hear (C : Crypto) (m : Manager) (s : State) (d : Delivery) (plaintext : List Byte) :
    State × List Control :=
  let s := s.expire m d.nowMs
  match m.previewProtected C s plaintext d.binding (d.proof plaintext) d.live d.nowMs with
  | .error _ => (s, [])
  | .ok t =>
    match m.responseFor C s t with
    | .error _ => (s, [])
    | .ok reply =>
      match m.commitProtectedReplay s t d.commit with
      | (s, .error _) => (s, [])
      | (s, .ok ()) => (s.takeResults.1, reply.toList ++ s.takeResults.2)

/-- A session delivers what it has authenticated for the first time. -/
structure Delivery.Genuine (m : Manager) (d : Delivery) : Prop where
  valid : d.binding.Valid
  reads : ∀ b, (d.proof b).matchesPlaintext d.live b = true
  bound : ∀ b, m.protectedReplayBinding.any (fun r => r.matchesProof (d.proof b)) = true
  commits : ∀ b, ∃ p, d.commit (d.proof b) = (p, .ok ()) ∧ p.committed = true

/-- One move: who moves where, what the mover draws, and how the five controls arrive. -/
structure Trip where
  side : Side
  candidateId : CandidateId
  loc : Loc
  epoch : U64
  probeNonce : Bytes 16
  startMs : U64
  update : Delivery
  probe : Delivery
  challenge : Delivery
  response : Delivery
  result : Delivery

/-- The whole exchange, each control heard as soon as it is said. There is no outcome unless every
end says exactly what the other waits for. -/
def Trip.go (C : Crypto) (m : Side → Manager) (ends : Side → State) (x : Trip) :
    Option (Side → State) :=
  let mover := m x.side
  let follower := m x.side.peer
  match mover.proposeLocal C (ends x.side) x.candidateId x.loc x.epoch 0 x.startMs with
  | (a, .ok update) =>
    match mover.makeProbe a x.candidateId x.challenge.binding x.probeNonce x.startMs with
    | (a, .ok probe) =>
      match follower.hear C (ends x.side.peer) x.update update.encode with
      | (b, []) =>
        match follower.hear C b x.probe probe.encode with
        | (b, [challenge]) =>
          match mover.hear C a x.challenge challenge.encode with
          | (a, [response]) =>
            match follower.hear C b x.response response.encode with
            | (b, [result]) =>
              match mover.hear C a x.result result.encode with
              | (a, []) =>
                some (Function.update (Function.update ends x.side a) x.side.peer b)
              | _ => none
            | _ => none
          | _ => none
        | _ => none
      | _ => none
    | _ => none
  | _ => none

def travel (C : Crypto) (m : Side → Manager) (ends : Side → State) (trips : List Trip) :
    Option (Side → State) :=
  trips.foldlM (Trip.go C m) ends

/-- Where the sides are after the trips. -/
def itinerary (places : Side → Loc × U64) (trips : List Trip) : Side → Loc × U64 :=
  trips.foldl (fun places x => Function.update places x.side (x.loc, x.epoch)) places

variable {C : Crypto} {m : Manager} {s : State} {d : Delivery} {nowMs : U64}

namespace State

/-- Nothing has run out but results and the grace of the old binding. -/
structure Current (s : State) (nowMs : U64) : Prop where
  isOpen : s.closed = false
  unfrozen : s.frozenCohort = none
  candidates : ∀ c ∈ s.candidates, c.state = .challenged ∧ nowMs < c.expiryMs
  proposals : ∀ p ∈ s.proposals, nowMs < p.expiryMs
  outbound : ∀ c ∈ s.outbound, nowMs < c.expiryMs
  tombstones : s.tombstones = []

theorem Current.expireMark (h : s.Current nowMs) : s.expireMark nowMs = s := by
  have hmap : (s.candidates.map fun c =>
      if c.expiryMs ≤ nowMs ∧ c.state = .challenged then timeOut c else c) = s.candidates := by
    refine (List.map_congr_left fun c hc => ?_).trans (List.map_id' _)
    rw [if_neg (fun ht => absurd ht.1 (not_le.mpr (h.candidates c hc).2))]
  have hfrozen : s.frozenMembers = [] := by simp [frozenMembers, h.unfrozen]
  rw [State.expireMark, hfrozen, failChallenged, hmap]
  rfl

theorem Current.settle (h : s.Current nowMs) (profile : Byte) (scid t : U64) :
    s.settleFrozenCohort profile scid t = (s, false) := by
  simp [settleFrozenCohort, h.unfrozen]

theorem Current.unproven (h : s.Current nowMs) (id : CandidateId) : s.isProven id = false := by
  rw [Bool.eq_false_iff]
  intro hp
  obtain ⟨c, hc, -, hstate⟩ := isProven_iff.mp hp
  rw [(h.candidates c hc).1] at hstate
  cases hstate

theorem Current.sweep (h : s.Current nowMs) : s.expireSweep nowMs [] =
    { s with
      results := s.results.filter fun r => nowMs < r.expiryMs
      oldBinding := s.oldBindingAfter nowMs } := by
  have hfailures : (s.dropResults nowMs).timeoutFailures [] = [] := by
    have hnone : ((s.dropResults nowMs).candidates.filter fun c => c.state = .failed ∧
        ¬ ([] : List Proposal).any (·.candidateId = c.candidateId)) = [] := by
      refine List.filter_eq_nil_iff.mpr fun c hc => ?_
      simp [(h.candidates c hc).1]
    rw [timeoutFailures, hnone, List.filterMap_nil]
  have hproposals : (s.proposals.filter fun p => p.expiryMs ≤ nowMs) = [] :=
    List.filter_eq_nil_iff.mpr fun p hp => by simpa using h.proposals p hp
  have houtbound : (s.outbound.filter fun c => c.expiryMs ≤ nowMs) = [] :=
    List.filter_eq_nil_iff.mpr fun c hc => by simpa using h.outbound c hc
  have hkept : (s.proposals.filter fun p => nowMs < p.expiryMs) = s.proposals :=
    List.filter_eq_self.mpr fun p hp => by simpa using h.proposals p hp
  have hsent : (s.outbound.filter fun c => nowMs < c.expiryMs) = s.outbound :=
    List.filter_eq_self.mpr fun c hc => by simpa using h.outbound c hc
  have hcandidates : (s.candidates.filter fun c =>
      c.state ≠ .failed ∨ ([] : List Proposal).any (·.candidateId = c.candidateId)) =
      s.candidates := by
    refine List.filter_eq_self.mpr fun c hc => ?_
    simp [(h.candidates c hc).1]
  have hemit : (s.dropResults nowMs).emitTimeouts nowMs [] = s.dropResults nowMs := by
    rw [emitTimeouts, hfailures, List.foldl_nil]
  have hbury : (s.dropResults nowMs).buryExpired nowMs = s.dropResults nowMs := by
    have hids : (s.dropResults nowMs).expiredIds nowMs = [] := by
      simp only [expiredIds, dropResults, hproposals, houtbound, List.map_nil, List.append_nil]
    simp only [buryExpired, hids, List.foldl_nil]
    simp only [dropResults, h.tombstones, List.filter_nil]
  have hdrop : (s.dropResults nowMs).dropProposals nowMs = s.dropResults nowMs := by
    simp only [dropProposals, dropResults, hkept]
  have hcohort : (s.dropResults nowMs).cohortAfter (s.dropResults nowMs).proposals = none := by
    have hfresh : (s.dropResults nowMs).freshCohort (s.dropResults nowMs).proposals = none := by
      have hnone : ((s.dropResults nowMs).proposals.filter fun p =>
          (s.dropResults nowMs).isProven p.candidateId) = [] :=
        List.filter_eq_nil_iff.mpr fun p _ => by
          rw [Bool.not_eq_true]
          exact h.unproven p.candidateId
      rw [freshCohort, hnone]
      rfl
    unfold cohortAfter
    rw [show (s.dropResults nowMs).frozenCohort = none from h.unfrozen]
    exact hfresh
  rw [expireSweep, hemit, hbury, hdrop, refreeze_dropEmptyCohort, hcohort, dropOldBinding_eq]
  simp only [dropResults, dropFailed, dropOutbound, hcandidates, hsent, oldBindingAfter]
  rw [← h.unfrozen]

/-- Expiry then only drops these, under the same generation or the next. -/
theorem Current.expire (h : s.Current nowMs) (m : Manager) (hg : s.generation.val + 1 < 2 ^ 64) :
    ∃ g : U64, g.val ≤ s.generation.val + 1 ∧ s.expire m nowMs = { s with
      results := s.results.filter fun r => nowMs < r.expiryMs
      oldBinding := s.oldBindingAfter nowMs
      generation := g } := by
  have hbefore : s.expireBeforeSettle m nowMs = { s with
      results := s.results.filter fun r => nowMs < r.expiryMs
      oldBinding := s.oldBindingAfter nowMs } := by
    have hfrozen : s.frozenMembers = [] := by simp [frozenMembers, h.unfrozen]
    rw [expireBeforeSettle, h.expireMark, h.settle, hfrozen, h.sweep]
  have hsettled : ((s.expireBeforeSettle m nowMs).settleFrozenCohort m.profile m.scid nowMs).1 =
      s.expireBeforeSettle m nowMs := by
    rw [hbefore]
    simp [settleFrozenCohort, h.unfrozen]
  have hopen : ¬ s.closed = true := by simp [h.isOpen]
  simp only [State.expire, if_neg hopen, hsettled]
  rw [hbefore]
  split
  · have hadd : checkedAdd s.generation 1 = some ⟨s.generation.val + 1, hg⟩ :=
      checkedAdd_eq_some.mpr rfl
    refine ⟨⟨s.generation.val + 1, hg⟩, le_rfl, ?_⟩
    simp only [bumpGeneration, hadd]
  · exact ⟨s.generation, by omega, rfl⟩

/-- Nothing is held that an expiry would let go of later. -/
structure Bare (s : State) : Prop where
  isOpen : s.closed = false
  unfrozen : s.frozenCohort = none
  emitted : s.emittedResults = []
  results : s.results = []
  grace : s.oldBinding = none
  tombstones : s.tombstones = []

/-- An expiry that finds everything else in time lets go of what has run out, and of no more. -/
theorem Current.clears (h : s.Current nowMs) (m : Manager) (hg : s.generation.val + 1 < 2 ^ 64)
    (hr : ∀ r ∈ s.results, r.expiryMs ≤ nowMs) (ho : ∀ o ∈ s.oldBinding, o.2 ≤ nowMs) :
    ∃ g : U64, g.val ≤ s.generation.val + 1 ∧ s.expire m nowMs =
      { s with results := [], oldBinding := none, generation := g } := by
  obtain ⟨g, hle, he⟩ := h.expire m hg
  refine ⟨g, hle, ?_⟩
  have hresults : (s.results.filter fun r => nowMs < r.expiryMs) = [] :=
    List.filter_eq_nil_iff.mpr fun r hmem => by simpa using hr r hmem
  have hgrace : s.oldBindingAfter nowMs = none := by
    refine Option.filter_eq_none_iff.mpr fun o hmem => ?_
    simpa using ho o hmem
  rw [he, hresults, hgrace]

theorem takeResults_none (h : s.emittedResults = []) : s.takeResults = (s, []) := by
  simp only [takeResults, h, List.filterMap_nil]
  rw [← h]

end State

/-- What a heard control does, once its preview and its answer are known. -/
theorem hear_of_action {s' : State} {b : List Byte} {control : Control} {a : Action}
    {reply : Option Control} (hd : d.Genuine m) (h3 : m.profile ≠ 3)
    (hs : s.expire m d.nowMs = s') (hparse : Control.parse b = .ok control)
    (hslot : profileAllowsSlot m.profile control.pathSlot = true) (hopen : s'.closed = false)
    (hgen : s'.generation.val + 1 < 2 ^ 64)
    (ha : m.previewControl C s' d.binding d.nowMs control = .ok a)
    (hreply : ∀ pp, m.responseFor C s' ⟨s'.generation, m.ownerId, a, pp, none⟩ = .ok reply) :
    ∃ g : U64, g.val ≤ s'.generation.val + 1 ∧ m.hear C s d b =
      ((State.takeResults { m.applyAction s' a with generation := g }).1,
        reply.toList ++ (State.takeResults { m.applyAction s' a with generation := g }).2) := by
  have hmax : s'.generation ≠ u64Max := by
    intro he
    rw [he, u64Max_val] at hgen
    omega
  have hpreview : m.previewProtected C s' b d.binding (d.proof b) d.live d.nowMs =
      .ok ⟨s'.generation, m.ownerId, a, some (d.proof b), none⟩ := by
    simp only [Manager.previewProtected, Manager.previewInner, h3, hd.reads b, hd.bound b,
      hd.valid, hparse, hslot, hopen, hmax, Manager.spent, ha, bind, Except.bind, not_true_eq_false,
      or_self, if_false, Bool.false_eq_true, false_and, decide_false]
  obtain ⟨p, hcommit, hdone⟩ := hd.commits b
  have hcommitted : ∃ g : U64, g.val ≤ s'.generation.val + 1 ∧
      m.commitProtectedReplay s' ⟨s'.generation, m.ownerId, a, some (d.proof b), none⟩ d.commit =
        ({ m.applyAction s' a with generation := g }, .ok ()) := by
    have hadd : checkedAdd s'.generation 1 = some ⟨s'.generation.val + 1, hgen⟩ :=
      checkedAdd_eq_some.mpr rfl
    by_cases hmut : a.mutates = true
    · refine ⟨⟨s'.generation.val + 1, hgen⟩, le_rfl, ?_⟩
      simp only [Manager.commitProtectedReplay, h3, hopen, hcommit, hdone,
        Manager.applyAfterReplay, hmut, hadd, ne_eq, not_true_eq_false, or_self, if_false,
        Bool.false_eq_true, if_true]
    · rw [Bool.not_eq_true] at hmut
      refine ⟨s'.generation, by omega, ?_⟩
      have hsame : m.applyAction s' a = s' := by
        cases a <;> simp_all [Action.mutates, Manager.applyAction]
      simp only [Manager.commitProtectedReplay, h3, hopen, hcommit, hdone,
        Manager.applyAfterReplay, hmut, hsame, ne_eq, not_true_eq_false, or_self, if_false,
        Bool.false_eq_true]
      rw [← hopen]
  obtain ⟨g, hle, hcommitted⟩ := hcommitted
  refine ⟨g, hle, ?_⟩
  simp only [Manager.hear, hs, hpreview, hreply, hcommitted]

/-- Two managers made for each other. -/
structure Facing (C : Crypto) (m : Side → Manager) : Prop where
  ordinary : ∀ side, (m side).profile ≤ 2
  profile : ∀ side, (m side.peer).profile = (m side).profile
  scid : ∀ side, (m side.peer).scid = (m side).scid
  policy : ∀ side, (m side.peer).policyId = (m side).policyId
  pinned : ∀ side, (m side).peerIdentity = (m side.peer).localIdentity
  key : ∀ side, C.verifyingKey (m side).signing = (m side).localIdentity.publicKey
  role : ∀ side, isRole (m side).localIdentity.role = true
  roles : ∀ side, (m side).localIdentity.role ≠ (m side.peer).localIdentity.role

namespace Facing

variable {m : Side → Manager} {side : Side}

theorem not_three (hf : Facing C m) (side : Side) : (m side).profile ≠ 3 := by
  intro he
  have hle := hf.ordinary side
  rw [he] at hle
  exact absurd hle (by decide)

theorem slot (hf : Facing C m) (side : Side) : profileAllowsSlot (m side).profile 0 = true := by
  simp [profileAllowsSlot, hf.ordinary side]

theorem sending (hf : Facing C m) (side : Side) : (m side).sending = (m side.peer).receiving := by
  have hback := hf.pinned side.peer
  rw [Side.peer_peer] at hback
  simp only [Manager.sending, Manager.receiving, hf.profile side, hf.scid side, hf.policy side,
    hback, hf.pinned side]

theorem rolesOk (hf : Facing C m) (side : Side) : (m side).receiving.rolesOk = true := by
  simp only [MobilityContext.rolesOk, Manager.receiving, hf.pinned side, hf.role side,
    hf.role side.peer, (hf.roles side).symm, ne_eq, not_false_eq_true, and_self, decide_true]

theorem low (hf : Facing C m) (side : Side) : ¬ 3 < (m side).receiving.profile := by
  have hle : (m side).profile ≤ 2 := hf.ordinary side
  exact not_lt.mpr (hle.trans (by decide))

/-- An update is signed, and the signature is verified by the peer. -/
theorem signs (hC : C.Correct) (hf : Facing C m) (side : Side) (id : CandidateId)
    (oldLoc newLoc : Loc) (epoch : U64) : ∃ signature,
    signLocUpdate C (m side).signing (m side).sending ⟨id, oldLoc, newLoc, epoch, 0⟩ =
      .ok (.locUpdate id oldLoc newLoc epoch 0 5000 0 signature) ∧
    verifyLocUpdate C (.locUpdate id oldLoc newLoc epoch 0 5000 0 signature)
      (m side.peer).receiving = .ok () := by
  obtain ⟨input, hinput⟩ : ∃ input, locUpdateSignatureInput (m side).sending
      ⟨id, oldLoc, newLoc, epoch, 0⟩ = .ok input := by
    have hslot : profileAllowsSlot (m side.peer).receiving.profile 0 = true := hf.slot side.peer
    rw [hf.sending side, locUpdateSignatureInput]
    simp only [hf.low side.peer, hf.rolesOk side.peer, hslot, not_true_eq_false, or_self, if_false]
    exact ⟨_, rfl⟩
  refine ⟨C.sign (m side).signing input, by simp [signLocUpdate, hinput, bind, Except.bind], ?_⟩
  rw [hf.sending side] at hinput
  have hkey : (m side.peer).receiving.sender.publicKey = C.verifyingKey (m side).signing := by
    have hback := hf.pinned side.peer
    rw [Side.peer_peer] at hback
    rw [hf.key side, Manager.receiving, hback]
  simp only [verifyLocUpdate, ne_eq, not_true_eq_false, or_self, if_false, hinput, bind,
    Except.bind, hkey, hC.decodes, hC.verifies, and_self, if_true]

theorem token (hf : Facing C m) (side : Side) (secret : Bytes 32) (id : CandidateId) (loc : Loc)
    (epoch expiryMs : U64) {binding : ObservedBinding} (hb : binding.Valid) :
    ∃ t, Mobility.token C secret (m side).receiving ⟨id, loc, binding, epoch, 0, expiryMs⟩ =
      .ok t := by
  have hslot : profileAllowsSlot (m side).receiving.profile 0 = true := hf.slot side
  simp only [Mobility.token, tokenInput, hb, hf.low side, hslot, hf.rolesOk side,
    not_true_eq_false, or_self, if_false, bind, Except.bind]
  exact ⟨_, rfl⟩

end Facing

section Stages

variable {id : CandidateId} {oldLoc loc : Loc} {epoch t : U64} {carrier : ObservedBinding}
  {signature : Bytes 64} {nonce : Bytes 16} {key expected : Bytes 32} {p : Proposal}
  {c : Candidate}

variable (nowMs) in
theorem proposeLocal_fresh (h3 : m.profile ≠ 3) (hslot : profileAllowsSlot m.profile 0 = true)
    (hopen : s.closed = false) (hout : s.outbound = []) (htomb : s.tombstones = [])
    (hid : id ≠ zeros 16) (hepoch : s.localEpoch < epoch) (hgen : s.generation.val + 1 < 2 ^ 64)
    {update : Control} (hsign : signLocUpdate C m.signing m.sending
      ⟨id, s.localLoc, loc, epoch, 0⟩ = .ok update) :
    m.proposeLocal C s id loc epoch 0 nowMs =
      ({ s with
          outbound := [⟨id, loc, epoch, 0, none, satAdd nowMs 5000⟩]
          generation := ⟨s.generation.val + 1, hgen⟩ }, .ok update) := by
  have hadd : checkedAdd s.generation 1 = some ⟨s.generation.val + 1, hgen⟩ :=
    checkedAdd_eq_some.mpr rfl
  simp only [Manager.proposeLocal, Manager.spent, State.isTombstoned, hopen, hout, htomb, hid, h3,
    hslot, not_le.mpr hepoch, hsign, hadd, List.any_nil, List.find?_nil, List.length_nil,
    List.nil_append, PROPOSAL_SLOTS, Bool.false_eq_true, not_true_eq_false, false_and,
    decide_false, or_self, if_false, OfNat.zero_ne_ofNat]

variable (nonce nowMs) in
theorem makeProbe_fresh (h3 : m.profile ≠ 3) (hopen : s.closed = false)
    (hout : s.outbound = [⟨id, loc, epoch, 0, none, t⟩]) (hlive : nowMs < t)
    (hcarrier : carrier.Valid) :
    m.makeProbe s id carrier nonce nowMs =
      ({ s with outbound := [⟨id, loc, epoch, 0, some carrier, t⟩] },
        .ok (.bindProbe id loc epoch 0 nonce)) := by
  simp only [Manager.makeProbe, Manager.spent, hopen, hout, h3, hcarrier, not_le.mpr hlive,
    List.find?_cons, Lists.modifyFirst, Bool.false_eq_true, not_true_eq_false, false_and,
    decide_false, decide_true, or_self, if_false, if_true]

variable (carrier nowMs) in
theorem preview_update (h3 : m.profile ≠ 3) (hb : s.Bare) (hp : s.proposals = [])
    (hc : s.candidates = []) (hout : s.outbound = []) (hepoch : s.peerEpoch < epoch)
    (hpaid : (Manager.refilled s nowMs).1 ≠ 0)
    (hverify : verifyLocUpdate C (.locUpdate id s.peerLoc loc epoch 0 5000 0 signature)
      m.receiving = .ok ()) :
    m.previewControl C s carrier nowMs (.locUpdate id s.peerLoc loc epoch 0 5000 0 signature) =
      .ok (.cacheProposal
        ⟨(Control.locUpdate id s.peerLoc loc epoch 0 5000 0 signature).encode, id, loc, epoch, 0,
          satAdd nowMs 5000⟩ ((Manager.refilled s nowMs).1 - 1) (Manager.refilled s nowMs).2) := by
  simp [Manager.previewControl, Manager.previewLocUpdate, hverify, bind, Except.bind, h3, hp,
    hc, hout, hb.unfrozen, hb.results, hb.emitted, hb.tombstones, hpaid, Manager.spent,
    State.hasCandidate, State.isTombstoned, hepoch, PROPOSAL_SLOTS, RESULT_CACHE_SLOTS]

variable (carrier nonce) in
theorem preview_probe (hp : s.proposals = [p]) (hlive : nowMs < p.expiryMs)
    (hc : s.candidates = []) (hold : s.oldBinding = none) :
    m.previewControl C s carrier nowMs (.bindProbe p.candidateId p.loc p.epoch p.slot nonce) =
      .ok (.challenge ⟨p.candidateId, p.loc, p.epoch, p.slot, carrier,
        satAdd nowMs CHALLENGE_EXPIRY_MS, none, .challenged⟩) := by
  simp [Manager.previewControl, Manager.previewBindProbe, Manager.findRecord, hp, hlive, hc, hold,
    LIVE_CANDIDATES_MAX]

variable (expected) in
theorem preview_challenge (hout : s.outbound = [⟨id, loc, epoch, 0, some carrier, t⟩])
    (hlive : nowMs < t) (expiryMs : U64) :
    m.previewControl C s carrier nowMs (.bindChallenge id loc epoch 0 expiryMs expected) =
      .ok (.respond (Control.bindResponse id loc epoch 0 expiryMs expected).encode) := by
  simp [Manager.previewControl, Manager.previewBindChallenge, hout, hlive]

theorem preview_response (hb : s.Bare) (hp : s.proposals = [p])
    (hc : s.candidates = [c]) (hstate : c.state = .challenged) (hlive : nowMs < c.expiryMs)
    (hepoch : p.epoch = c.epoch) (hkey : s.candidateSecret = some key)
    (htoken : token C key m.receiving ⟨c.candidateId, c.loc, c.binding, c.epoch, c.slot,
      c.expiryMs⟩ = .ok expected) :
    m.previewControl C s c.binding nowMs
        (.bindResponse c.candidateId c.loc c.epoch c.slot c.expiryMs expected) =
      .ok (.prove c.candidateId c.epoch c.slot nowMs ⟨c.loc, c.binding, c.expiryMs, expected⟩) := by
  simp [Manager.previewControl, Manager.previewBindResponse, Manager.cachedResult,
    Manager.findRecord, Manager.greatestEpoch, Manager.prospectiveMembers, Manager.proposalsOf,
    hb.results, hb.unfrozen, hp, hc, hstate, hlive, hkey, htoken, hepoch, bind, Except.bind,
    RESULT_CACHE_SLOTS]

theorem preview_result (hb : s.Bare) (hout : s.outbound = [⟨id, loc, epoch, 0, some carrier, t⟩])
    (hlive : nowMs < t) :
    m.previewControl C s carrier nowMs (.candidateResult id epoch 0 1) =
      .ok (.commitLocal epoch loc carrier true ⟨id, epoch, 0,
        (Control.candidateResult id epoch 0 1).encode, satAdd nowMs 10000, none, .received,
        some carrier⟩) := by
  simp [Manager.previewControl, Manager.previewCandidateResult, Manager.cachedResult,
    Manager.findOutbound, State.frozenSlots, hb.results, hb.unfrozen, hout, hlive,
    RESULT_CACHE_SLOTS]

/-- The one member of a cohort wins it. -/
theorem prove_settles (h3 : m.profile ≠ 3) (hb : s.Bare) (hp : s.proposals = [p])
    (hc : s.candidates = [c]) (hid : c.candidateId = p.candidateId) (hepoch : c.epoch = p.epoch)
    (r : BindResponseIdentity) :
    m.applyAction s (.prove c.candidateId c.epoch c.slot nowMs r) =
      { s with
        peerEpoch := p.epoch
        peerLoc := c.loc
        oldBinding := some (s.currentBinding, satAdd nowMs OLD_BINDING_GRACE_MS)
        currentBinding := c.binding
        proposals := []
        candidates := []
        results := [resultEntry p 1 nowMs (some r)]
        emittedResults := [(Control.candidateResult p.candidateId p.epoch p.slot 1).encode] } := by
  have hmark : Manager.markProven s c.candidateId c.epoch c.slot r = { s with
      candidates := [{ c with state := .proven, response := some r }]
      frozenCohort := some (p.epoch, [p]) } := by
    simp [Manager.markProven, Manager.greatestEpoch, Manager.proposalsOf, Lists.modifyFirst, hc, hp,
      hb.unfrozen, hepoch]
  simp only [Manager.applyAction, hmark]
  simp [State.settleFrozenCohort, State.cohortWaits, State.cohortWinner, State.isProven,
    State.hasProposal, State.cohortOutcome, State.cohortResult, State.promote, State.promotePeer,
    State.markCohort, State.finishCohort, CandidateState.terminal, h3, hid, hepoch, hb.emitted,
    hb.results, hb.unfrozen, hp, RESULT_CACHE_SLOTS, resultEntry]

theorem refilled_le (h : s.proposalRefillMs ≤ nowMs) : (Manager.refilled s nowMs).2 ≤ nowMs := by
  simp only [Fin.le_def, Manager.refilled, satAdd_val, satSub_val] at h ⊢
  omega

/-- The follower takes an update in. -/
theorem hear_update (hd : d.Genuine m) (h3 : m.profile ≠ 3)
    (hslot : profileAllowsSlot m.profile 0 = true) (hid : id ≠ zeros 16)
    (hcur : s.Current d.nowMs) (hp : s.proposals = []) (hc : s.candidates = [])
    (hout : s.outbound = []) (hem : s.emittedResults = [])
    (hr : ∀ r ∈ s.results, r.expiryMs ≤ d.nowMs) (ho : ∀ o ∈ s.oldBinding, o.2 ≤ d.nowMs)
    (hgen : s.generation.val + 2 < 2 ^ 64) (hepoch : s.peerEpoch < epoch)
    (hpaid : (Manager.refilled s d.nowMs).1 ≠ 0)
    (hverify : verifyLocUpdate C (.locUpdate id s.peerLoc loc epoch 0 5000 0 signature)
      m.receiving = .ok ()) :
    ∃ g : U64, g.val ≤ s.generation.val + 2 ∧
      m.hear C s d (Control.locUpdate id s.peerLoc loc epoch 0 5000 0 signature).encode =
        ({ s with
            results := []
            oldBinding := none
            proposals :=
              [⟨(Control.locUpdate id s.peerLoc loc epoch 0 5000 0 signature).encode, id, loc,
                epoch, 0, satAdd d.nowMs 5000⟩]
            proposalTokens := (Manager.refilled s d.nowMs).1 - 1
            proposalRefillMs := (Manager.refilled s d.nowMs).2
            generation := g }, []) := by
  obtain ⟨g₁, hg₁, he⟩ := hcur.clears m (by omega) hr ho
  have hparse : Control.parse (Control.locUpdate id s.peerLoc loc epoch 0 5000 0 signature).encode =
      .ok (.locUpdate id s.peerLoc loc epoch 0 5000 0 signature) :=
    Control.parse_encode ⟨hid, Fin.zero_le _, rfl⟩
  have ha := preview_update d.nowMs d.binding (C := C) (s := { s with results := [], oldBinding := none, generation := g₁ }) h3
    ⟨hcur.isOpen, hcur.unfrozen, hem, rfl, rfl, hcur.tombstones⟩ hp hc hout hepoch hpaid hverify
  obtain ⟨g, hg, hear⟩ := hear_of_action hd h3 he hparse hslot hcur.isOpen (by simp only; omega) ha
    (fun _ => by simp [Manager.responseFor, hcur.isOpen]; rfl)
  refine ⟨g, hg.trans (by simp only; omega), ?_⟩
  rw [hear, State.takeResults_none]
  · simp only [Manager.applyAction, hp, List.nil_append, Option.toList_none, Manager.refilled]
  · exact hem

/-- The follower challenges a probe of the proposal it holds. -/
theorem hear_probe (nonce : Bytes 16) (hd : d.Genuine m) (h3 : m.profile ≠ 3)
    (hslot : profileAllowsSlot m.profile p.slot = true) (hid : p.candidateId ≠ zeros 16)
    (hp1 : p.slot ≤ 1) (hb : s.Bare) (hp : s.proposals = [p]) (hlive : d.nowMs < p.expiryMs)
    (hc : s.candidates = []) (hout : s.outbound = []) (hkey : s.candidateSecret = some key)
    (hgen : s.generation.val + 2 < 2 ^ 64)
    (htoken : token C key m.receiving ⟨p.candidateId, p.loc, d.binding, p.epoch, p.slot,
      satAdd d.nowMs CHALLENGE_EXPIRY_MS⟩ = .ok expected) :
    ∃ g : U64, g.val ≤ s.generation.val + 2 ∧
      m.hear C s d (Control.bindProbe p.candidateId p.loc p.epoch p.slot nonce).encode =
        ({ s with
            candidates := [⟨p.candidateId, p.loc, p.epoch, p.slot, d.binding,
              satAdd d.nowMs CHALLENGE_EXPIRY_MS, none, .challenged⟩]
            generation := g },
          [.bindChallenge p.candidateId p.loc p.epoch p.slot
            (satAdd d.nowMs CHALLENGE_EXPIRY_MS) expected]) := by
  have hcur : s.Current d.nowMs := ⟨hb.isOpen, hb.unfrozen, by simp [hc], by simpa [hp] using hlive,
    by simp [hout], hb.tombstones⟩
  obtain ⟨g₁, hg₁, he⟩ := hcur.clears m (by omega) (by simp [hb.results]) (by simp [hb.grace])
  have hparse : Control.parse (Control.bindProbe p.candidateId p.loc p.epoch p.slot nonce).encode =
      .ok (.bindProbe p.candidateId p.loc p.epoch p.slot nonce) :=
    Control.parse_encode ⟨hid, hp1, rfl⟩
  have ha := preview_probe d.binding nonce (C := C) (m := m)
    (s := { s with results := [], oldBinding := none, generation := g₁ }) hp hlive hc rfl
  obtain ⟨g, hg, hear⟩ := hear_of_action hd h3 he hparse hslot hb.isOpen (by simp only; omega) ha
    (fun _ => by simp [Manager.responseFor, hb.isOpen, hkey, htoken, bind, Except.bind]; rfl)
  refine ⟨g, hg.trans (by simp only; omega), ?_⟩
  rw [hear, State.takeResults_none]
  · simp only [Manager.applyAction, hc, List.nil_append, Option.toList_some, List.append_nil,
      ← hb.results, ← hb.grace]
  · exact hb.emitted

/-- The mover answers the challenge of its own probe. -/
theorem hear_challenge (hd : d.Genuine m) (h3 : m.profile ≠ 3)
    (hslot : profileAllowsSlot m.profile 0 = true) (hid : id ≠ zeros 16)
    (hcur : s.Current d.nowMs) (hem : s.emittedResults = [])
    (hr : ∀ r ∈ s.results, r.expiryMs ≤ d.nowMs) (ho : ∀ o ∈ s.oldBinding, o.2 ≤ d.nowMs)
    (hout : s.outbound = [⟨id, loc, epoch, 0, some d.binding, t⟩])
    (hgen : s.generation.val + 2 < 2 ^ 64) (expected : Bytes 32) (expiryMs : U64) :
    ∃ g : U64, g.val ≤ s.generation.val + 2 ∧
      m.hear C s d (Control.bindChallenge id loc epoch 0 expiryMs expected).encode =
        ({ s with results := [], oldBinding := none, generation := g },
          [.bindResponse id loc epoch 0 expiryMs expected]) := by
  obtain ⟨g₁, hg₁, he⟩ := hcur.clears m (by omega) hr ho
  have hparse : Control.parse (Control.bindChallenge id loc epoch 0 expiryMs expected).encode =
      .ok (.bindChallenge id loc epoch 0 expiryMs expected) :=
    Control.parse_encode ⟨hid, Fin.zero_le _, rfl⟩
  have hanswer : Control.parse (Control.bindResponse id loc epoch 0 expiryMs expected).encode =
      .ok (.bindResponse id loc epoch 0 expiryMs expected) :=
    Control.parse_encode ⟨hid, Fin.zero_le _, rfl⟩
  have hlive : d.nowMs < t :=
    hcur.outbound ⟨id, loc, epoch, 0, some d.binding, t⟩ (by rw [hout]; exact .head _)
  have ha := preview_challenge expected (C := C) (m := m)
    (s := { s with results := [], oldBinding := none, generation := g₁ }) hout hlive expiryMs
  obtain ⟨g, hg, hear⟩ := hear_of_action hd h3 he hparse hslot hcur.isOpen (by simp only; omega) ha
    (fun _ => by simp [Manager.responseFor, hcur.isOpen, hanswer, bind, Except.bind]; rfl)
  refine ⟨g, hg.trans (by simp only; omega), ?_⟩
  rw [hear, State.takeResults_none]
  · simp only [Manager.applyAction, Option.toList_some, List.append_nil]
  · exact hem

/-- The follower installs the candidate and says so. -/
theorem hear_response (hd : d.Genuine m) (h3 : m.profile ≠ 3)
    (hslot : profileAllowsSlot m.profile c.slot = true) (hid : c.candidateId ≠ zeros 16)
    (hc1 : c.slot ≤ 1) (hb : s.Bare) (hp : s.proposals = [p]) (hlive : d.nowMs < p.expiryMs)
    (hc : s.candidates = [c]) (hstate : c.state = .challenged) (hpending : d.nowMs < c.expiryMs)
    (hsame : c.candidateId = p.candidateId ∧ c.epoch = p.epoch ∧ c.slot = p.slot)
    (hbinding : c.binding = d.binding) (hout : s.outbound = [])
    (hkey : s.candidateSecret = some key) (hgen : s.generation.val + 2 < 2 ^ 64)
    (htoken : token C key m.receiving ⟨c.candidateId, c.loc, c.binding, c.epoch, c.slot,
      c.expiryMs⟩ = .ok expected) :
    ∃ g : U64, g.val ≤ s.generation.val + 2 ∧
      m.hear C s d (Control.bindResponse c.candidateId c.loc c.epoch c.slot c.expiryMs
        expected).encode =
        ({ s with
            peerEpoch := p.epoch
            peerLoc := c.loc
            oldBinding := some (s.currentBinding, satAdd d.nowMs OLD_BINDING_GRACE_MS)
            currentBinding := c.binding
            proposals := []
            candidates := []
            results := [resultEntry p 1 d.nowMs (some ⟨c.loc, c.binding, c.expiryMs, expected⟩)]
            generation := g },
          [.candidateResult p.candidateId p.epoch p.slot 1]) := by
  obtain ⟨hcid, hcepoch, hcslot⟩ := hsame
  have hcur : s.Current d.nowMs := ⟨hb.isOpen, hb.unfrozen,
    by simp [hc, hstate, hpending], by simpa [hp] using hlive, by simp [hout], hb.tombstones⟩
  obtain ⟨g₁, hg₁, he⟩ := hcur.clears m (by omega) (by simp [hb.results]) (by simp [hb.grace])
  have hparse : Control.parse (Control.bindResponse c.candidateId c.loc c.epoch c.slot c.expiryMs
      expected).encode = .ok (.bindResponse c.candidateId c.loc c.epoch c.slot c.expiryMs
      expected) :=
    Control.parse_encode ⟨hid, hc1, rfl⟩
  have hresult : Control.parse (Control.candidateResult p.candidateId p.epoch p.slot 1).encode =
      .ok (.candidateResult p.candidateId p.epoch p.slot 1) :=
    Control.parse_encode ⟨hcid ▸ hid, hcslot ▸ hc1, rfl⟩
  have hbare : State.Bare { s with results := [], oldBinding := none, generation := g₁ } :=
    ⟨hb.isOpen, hb.unfrozen, hb.emitted, rfl, rfl, hb.tombstones⟩
  have ha := preview_response (C := C) (m := m) hbare hp hc hstate hpending hcepoch.symm hkey htoken
  rw [hbinding] at ha
  obtain ⟨g, hg, hear⟩ := hear_of_action hd h3 he hparse hslot hb.isOpen (by simp only; omega) ha
    (fun _ => by simp [Manager.responseFor, hb.isOpen]; rfl)
  refine ⟨g, hg.trans (by simp only; omega), ?_⟩
  rw [hear, prove_settles h3 hbare hp hc hcid hcepoch]
  simp only [State.takeResults, List.filterMap_cons, List.filterMap_nil, hresult,
    Except.toOption, Option.toList_none, List.nil_append, hbinding, hb.emitted]

/-- The mover is where it wanted to be. -/
theorem hear_result (hd : d.Genuine m) (h3 : m.profile ≠ 3)
    (hslot : profileAllowsSlot m.profile 0 = true) (hid : id ≠ zeros 16) (hb : s.Bare)
    (hp : s.proposals = []) (hc : s.candidates = [])
    (hout : s.outbound = [⟨id, loc, epoch, 0, some d.binding, t⟩]) (hlive : d.nowMs < t)
    (hgen : s.generation.val + 2 < 2 ^ 64) :
    ∃ g : U64, g.val ≤ s.generation.val + 2 ∧
      m.hear C s d (Control.candidateResult id epoch 0 1).encode =
        ({ s with
            localEpoch := epoch
            localLoc := loc
            oldBinding := some (s.currentBinding, satAdd d.nowMs 10000)
            currentBinding := d.binding
            outbound := []
            results := [⟨id, epoch, 0, (Control.candidateResult id epoch 0 1).encode,
              satAdd d.nowMs 10000, none, .received, some d.binding⟩]
            generation := g }, []) := by
  have hcur : s.Current d.nowMs := ⟨hb.isOpen, hb.unfrozen, by simp [hc], by simp [hp],
    by simpa [hout] using hlive, hb.tombstones⟩
  obtain ⟨g₁, hg₁, he⟩ := hcur.clears m (by omega) (by simp [hb.results]) (by simp [hb.grace])
  have hparse : Control.parse (Control.candidateResult id epoch 0 1).encode =
      .ok (.candidateResult id epoch 0 1) :=
    Control.parse_encode ⟨hid, Fin.zero_le _, rfl⟩
  have hbare : State.Bare { s with results := [], oldBinding := none, generation := g₁ } :=
    ⟨hb.isOpen, hb.unfrozen, hb.emitted, rfl, rfl, hb.tombstones⟩
  have ha := preview_result (C := C) (m := m) hbare hout hlive
  obtain ⟨g, hg, hear⟩ := hear_of_action hd h3 he hparse hslot hb.isOpen (by simp only; omega) ha
    (fun _ => by simp [Manager.responseFor, hb.isOpen]; rfl)
  refine ⟨g, hg.trans (by simp only; omega), ?_⟩
  rw [hear, State.takeResults_none]
  · simp [Manager.applyAction, Manager.commitLocal, Manager.promoteLocal, h3, hout]
  · simp [Manager.applyAction, Manager.commitLocal, Manager.promoteLocal, h3, hb.emitted]

end Stages

/-- Between two trips: whatever is left of the last one runs out by `restMs`, and by then the next
proposal is paid for. -/
structure Calm (restMs : U64) (s : State) : Prop where
  isOpen : s.closed = false
  unfrozen : s.frozenCohort = none
  proposals : s.proposals = []
  candidates : s.candidates = []
  outbound : s.outbound = []
  emitted : s.emittedResults = []
  tombstones : s.tombstones = []
  secret : s.candidateSecret ≠ none
  results : ∀ r ∈ s.results, r.expiryMs ≤ restMs
  grace : ∀ o ∈ s.oldBinding, o.2 ≤ restMs
  refill : s.proposalRefillMs ≤ restMs
  paid : s.proposalTokens ≠ 0 ∨ s.proposalRefillMs.val + 1000 ≤ restMs.val

theorem Calm.current {restMs : U64} (h : Calm restMs s) (nowMs : U64) : s.Current nowMs :=
  ⟨h.isOpen, h.unfrozen, by simp [h.candidates], by simp [h.proposals], by simp [h.outbound],
    h.tombstones⟩

theorem Calm.refilled {restMs : U64} (h : Calm restMs s) (hle : restMs ≤ nowMs) :
    (Manager.refilled s nowMs).1 ≠ 0 := by
  have hpaid := h.paid
  simp only [Fin.le_def, Manager.refilled, satSub_val] at hle ⊢
  omega

/-- The exchange is not delayed: every control is heard within three seconds of the start, on the
two paths of the move. -/
structure Trip.Good (m : Side → Manager) (x : Trip) : Prop where
  named : x.candidateId ≠ zeros 16
  room : x.startMs.val + 13000 < 2 ^ 64
  prompt : ∀ d ∈ [x.update, x.probe, x.challenge, x.response, x.result],
    x.startMs ≤ d.nowMs ∧ d.nowMs.val < x.startMs.val + 3000
  mover : ∀ d ∈ [x.challenge, x.result], d.Genuine (m x.side)
  follower : ∀ d ∈ [x.update, x.probe, x.response], d.Genuine (m x.side.peer)
  answered : x.response.binding = x.probe.binding
  confirmed : x.result.binding = x.challenge.binding

/-- What one trip leaves at the two ends. -/
structure Trip.Done (x : Trip) (a b a' b' : State) : Prop where
  mover : Calm (satAdd x.startMs 13000) a'
  follower : Calm (satAdd x.startMs 13000) b'
  moved : a'.localLoc = x.loc ∧ a'.localEpoch = x.epoch
  followed : b'.peerLoc = x.loc ∧ b'.peerEpoch = x.epoch
  stayed : a'.peerLoc = a.peerLoc ∧ a'.peerEpoch = a.peerEpoch ∧ b'.localLoc = b.localLoc ∧
    b'.localEpoch = b.localEpoch
  generation : a'.generation.val ≤ a.generation.val + 6 ∧ b'.generation.val ≤ b.generation.val + 6

theorem satAdd_exact {a : U64} {n : ℕ} (h : a.val + n < 2 ^ 64) : (satAdd a n).val = a.val + n := by
  rw [satAdd_val]
  omega

/-- A time that is still to come, counted from an earlier one. -/
theorem lt_satAdd {a b : U64} {n k : ℕ} (hb : b.val < a.val + n) (hk : a.val + k < 2 ^ 64)
    (hn : n ≤ k) : b < satAdd a k := by
  rw [Fin.lt_def, satAdd_exact hk]
  omega

theorem satAdd_le {a b : U64} {n k : ℕ} (hk : a.val + k < 2 ^ 64) (h : b.val + n ≤ a.val + k) :
    satAdd b n ≤ satAdd a k := by
  rw [Fin.le_def, satAdd_exact hk, satAdd_exact (by omega)]
  exact h

/-- The proposal the follower holds during the trip. -/
def Trip.proposal (x : Trip) (bytes : List Byte) : Proposal :=
  ⟨bytes, x.candidateId, x.loc, x.epoch, 0, satAdd x.update.nowMs 5000⟩

/-- The record of its probe. -/
def Trip.record (x : Trip) : Candidate :=
  ⟨x.candidateId, x.loc, x.epoch, 0, x.probe.binding, satAdd x.probe.nowMs CHALLENGE_EXPIRY_MS,
    none, .challenged⟩

/-- The mover after it. -/
def Trip.arrived (x : Trip) (s : State) (g : U64) : State :=
  { s with
    localEpoch := x.epoch
    localLoc := x.loc
    oldBinding := some (s.currentBinding, satAdd x.result.nowMs 10000)
    currentBinding := x.result.binding
    outbound := []
    results := [⟨x.candidateId, x.epoch, 0,
      (Control.candidateResult x.candidateId x.epoch 0 1).encode, satAdd x.result.nowMs 10000, none,
      .received, some x.result.binding⟩]
    generation := g }

/-- The follower after it. -/
def Trip.installed (x : Trip) (s : State) (p : Proposal) (r : BindResponseIdentity) (g : U64) :
    State :=
  { s with
    peerEpoch := x.epoch
    peerLoc := x.loc
    oldBinding := some (s.currentBinding, satAdd x.response.nowMs OLD_BINDING_GRACE_MS)
    currentBinding := x.probe.binding
    proposals := []
    candidates := []
    results := [resultEntry p 1 x.response.nowMs (some r)]
    proposalTokens := (Manager.refilled s x.update.nowMs).1 - 1
    proposalRefillMs := (Manager.refilled s x.update.nowMs).2
    generation := g }

theorem Calm.arrived {x : Trip} {restMs g : U64} (h : Calm restMs s)
    (hroom : x.startMs.val + 13000 < 2 ^ 64) (hle : restMs ≤ x.startMs)
    (hin : x.result.nowMs.val < x.startMs.val + 3000) :
    Calm (satAdd x.startMs 13000) (x.arrived s g) := by
  have hkept : satAdd x.result.nowMs 10000 ≤ satAdd x.startMs 13000 := satAdd_le hroom (by omega)
  have hlater : restMs ≤ satAdd x.startMs 13000 := by
    rw [Fin.le_def, satAdd_exact hroom]
    exact (Fin.le_def.mp hle).trans (Nat.le_add_right _ _)
  refine ⟨h.isOpen, h.unfrozen, h.proposals, h.candidates, rfl, h.emitted, h.tombstones, h.secret,
    by simpa [Trip.arrived] using hkept, by simpa [Trip.arrived] using hkept,
    h.refill.trans hlater, ?_⟩
  exact h.paid.imp_right fun hp => hp.trans hlater

theorem Calm.installed {x : Trip} {p : Proposal} {r : BindResponseIdentity} {restMs g : U64}
    (h : Calm restMs s) (hroom : x.startMs.val + 13000 < 2 ^ 64) (hle : restMs ≤ x.update.nowMs)
    (hbegun : x.update.nowMs.val < x.startMs.val + 3000)
    (hin : x.response.nowMs.val < x.startMs.val + 3000) :
    Calm (satAdd x.startMs 13000) (x.installed s p r g) := by
  have hkept : satAdd x.response.nowMs 10000 ≤ satAdd x.startMs 13000 :=
    satAdd_le hroom (by omega)
  have hrefilled : (x.installed s p r g).proposalRefillMs.val ≤ x.update.nowMs.val :=
    refilled_le (h.refill.trans hle)
  refine ⟨h.isOpen, h.unfrozen, rfl, rfl, h.outbound, h.emitted, h.tombstones, h.secret,
    by simpa [Trip.installed, resultEntry] using hkept,
    by simpa [Trip.installed, OLD_BINDING_GRACE_MS] using hkept, ?_, .inr ?_⟩
  · rw [Fin.le_def, satAdd_exact hroom]
    omega
  · rw [satAdd_exact hroom]
    omega

/-- The update that opens it. -/
def Trip.offer (x : Trip) (oldLoc : Loc) (signature : Bytes 64) : Control :=
  .locUpdate x.candidateId oldLoc x.loc x.epoch 0 5000 0 signature

/-- The exchange, once every stage of it is known. -/
theorem Trip.go_eq {m : Side → Manager} {ends : Side → State} {x : Trip}
    {a₁ a₂ a₃ a₄ b₁ b₂ b₃ : State} {update probe challenge response result : Control}
    (hproposed : (m x.side).proposeLocal C (ends x.side) x.candidateId x.loc x.epoch 0 x.startMs =
      (a₁, .ok update))
    (hprobed : (m x.side).makeProbe a₁ x.candidateId x.challenge.binding x.probeNonce x.startMs =
      (a₂, .ok probe))
    (hupdate : (m x.side.peer).hear C (ends x.side.peer) x.update update.encode = (b₁, []))
    (hprobe : (m x.side.peer).hear C b₁ x.probe probe.encode = (b₂, [challenge]))
    (hchallenge : (m x.side).hear C a₂ x.challenge challenge.encode = (a₃, [response]))
    (hresponse : (m x.side.peer).hear C b₂ x.response response.encode = (b₃, [result]))
    (hresult : (m x.side).hear C a₃ x.result result.encode = (a₄, [])) :
    x.go C m ends = some (Function.update (Function.update ends x.side a₄) x.side.peer b₃) := by
  simp only [Trip.go, hproposed, hprobed, hupdate, hprobe, hchallenge, hresponse, hresult]

theorem Trip.go_completes {m : Side → Manager} {ends : Side → State} {x : Trip} {restMs : U64}
    (hC : C.Correct) (hf : Facing C m) (hx : x.Good m) (hrest : restMs ≤ x.startMs)
    (ha : Calm restMs (ends x.side)) (hb : Calm restMs (ends x.side.peer))
    (hloc : (ends x.side).localLoc = (ends x.side.peer).peerLoc)
    (hlocal : (ends x.side).localEpoch < x.epoch) (hpeer : (ends x.side.peer).peerEpoch < x.epoch)
    (hroom : ∀ side, (ends side).generation.val + 6 < 2 ^ 64) :
    ∃ a b, x.go C m ends = some (Function.update (Function.update ends x.side a) x.side.peer b) ∧
      x.Done (ends x.side) (ends x.side.peer) a b := by
  have hga := hroom x.side
  have hgb := hroom x.side.peer
  have h3a := hf.not_three x.side
  have h3b := hf.not_three x.side.peer
  have hslota := hf.slot x.side
  have hslotb := hf.slot x.side.peer
  have hstart := hx.room
  have hupdate := hx.prompt x.update (by simp)
  have hprobe := hx.prompt x.probe (by simp)
  have hchallenge := hx.prompt x.challenge (by simp)
  have hresponse := hx.prompt x.response (by simp)
  have hresult := hx.prompt x.result (by simp)
  simp only [Fin.le_def] at hrest hupdate hprobe hchallenge hresponse hresult
  -- The mover signs an update and makes a probe.
  obtain ⟨signature, hsign, hverify⟩ :=
    hf.signs hC x.side x.candidateId (ends x.side).localLoc x.loc x.epoch
  rw [hloc] at hverify
  have hoffer : signLocUpdate C (m x.side).signing (m x.side).sending
      ⟨x.candidateId, (ends x.side).localLoc, x.loc, x.epoch, 0⟩ =
      .ok (x.offer (ends x.side.peer).peerLoc signature) := by
    rw [hsign, hloc, Trip.offer]
  have hproposed := proposeLocal_fresh x.startMs h3a hslota ha.isOpen ha.outbound
    ha.tombstones hx.named hlocal (by omega) hoffer
  have hlive : x.startMs < satAdd x.startMs 5000 :=
    lt_satAdd (n := 3000) (by omega) (by omega) (by omega)
  have hprobed := makeProbe_fresh x.startMs x.probeNonce
    (t := satAdd x.startMs 5000) (s := { ends x.side with
      outbound := [⟨x.candidateId, x.loc, x.epoch, 0, none, satAdd x.startMs 5000⟩]
      generation := ⟨(ends x.side).generation.val + 1, by omega⟩ }) h3a ha.isOpen rfl
    hlive (hx.mover x.challenge (by simp)).valid
  -- The follower takes both in, and challenges.
  obtain ⟨g₁, hg₁, hheard₁⟩ := hear_update (s := ends x.side.peer) (hx.follower x.update (by simp))
    h3b hslotb hx.named (hb.current _) hb.proposals hb.candidates hb.outbound hb.emitted
    (fun r hr => (hb.results r hr).trans (Fin.le_def.mpr (by omega)))
    (fun o ho => (hb.grace o ho).trans (Fin.le_def.mpr (by omega))) (by omega) hpeer
    (hb.refilled (Fin.le_def.mpr (by omega))) hverify
  obtain ⟨key, hkey⟩ := Option.ne_none_iff_exists'.mp hb.secret
  obtain ⟨expected, htoken⟩ := hf.token x.side.peer key x.candidateId x.loc x.epoch
    (satAdd x.probe.nowMs CHALLENGE_EXPIRY_MS) (hx.follower x.probe (by simp)).valid
  have hbare : ∀ (proposals : List Proposal) (candidates : List Candidate) (tokens : ℕ)
      (refillMs g : U64), State.Bare { ends x.side.peer with
        results := []
        oldBinding := none
        proposals := proposals
        candidates := candidates
        proposalTokens := tokens
        proposalRefillMs := refillMs
        generation := g } := fun _ _ _ _ _ =>
    ⟨hb.isOpen, hb.unfrozen, hb.emitted, rfl, rfl, hb.tombstones⟩
  have hproposal : ∀ d : Delivery, d.nowMs.val < x.startMs.val + 3000 → ∀ bytes,
      d.nowMs < (x.proposal bytes).expiryMs := fun d hd bytes =>
    lt_satAdd (n := 3000) (by omega) (by omega) (by omega)
  have hpending : x.response.nowMs < x.record.expiryMs :=
    lt_satAdd (n := 3000) (k := 3000) (by omega) (by omega) le_rfl
  obtain ⟨g₂, hg₂, hheard₂⟩ := hear_probe x.probeNonce (p := x.proposal _)
    (hx.follower x.probe (by simp)) h3b hslotb hx.named (Fin.zero_le _) (hbare _ _ _ _ g₁) rfl
    (hproposal _ hprobe.2 _) hb.candidates hb.outbound hkey (by simp only; omega) htoken
  replace hg₂ : g₂.val ≤ g₁.val + 2 := hg₂
  -- The mover answers, is installed and hears of it.
  obtain ⟨g₃, hg₃, hheard₃⟩ := hear_challenge (C := C)
    (s := { ends x.side with
      outbound := [⟨x.candidateId, x.loc, x.epoch, 0, some x.challenge.binding,
        satAdd x.startMs 5000⟩]
      generation := ⟨(ends x.side).generation.val + 1, by omega⟩ })
    (hx.mover x.challenge (by simp)) h3a hslota hx.named
    ⟨ha.isOpen, ha.unfrozen, by simp [ha.candidates], by simp [ha.proposals],
      by simpa using lt_satAdd (n := 3000) (by omega) (by omega) (by omega), ha.tombstones⟩
    ha.emitted (fun r hr => (ha.results r hr).trans (Fin.le_def.mpr (by omega)))
    (fun o ho => (ha.grace o ho).trans (Fin.le_def.mpr (by omega))) rfl (by simp only; omega)
    expected (satAdd x.probe.nowMs CHALLENGE_EXPIRY_MS)
  replace hg₃ : g₃.val ≤ (ends x.side).generation.val + 1 + 2 := hg₃
  obtain ⟨g₄, hg₄, hheard₄⟩ := hear_response (c := x.record) (p := x.proposal _)
    (hx.follower x.response (by simp)) h3b hslotb hx.named (Fin.zero_le _) (hbare _ _ _ _ g₂) rfl
    (hproposal _ hresponse.2 _) rfl rfl hpending
    ⟨rfl, rfl, rfl⟩ hx.answered.symm hb.outbound hkey (by simp only; omega) htoken
  obtain ⟨g₅, hg₅, hheard₅⟩ := hear_result (C := C) (t := satAdd x.startMs 5000)
    (s := { ends x.side with
      results := []
      oldBinding := none
      outbound := [⟨x.candidateId, x.loc, x.epoch, 0, some x.challenge.binding,
        satAdd x.startMs 5000⟩]
      generation := g₃ })
    (hx.mover x.result (by simp)) h3a hslota hx.named
    ⟨ha.isOpen, ha.unfrozen, ha.emitted, rfl, rfl, ha.tombstones⟩ ha.proposals ha.candidates
    (by rw [hx.confirmed]) (lt_satAdd (n := 3000) (by omega) (by omega) (by omega))
    (by simp only; omega)
  replace hg₄ : g₄.val ≤ g₂.val + 2 := hg₄
  replace hg₅ : g₅.val ≤ g₃.val + 2 := hg₅
  refine ⟨x.arrived (ends x.side) g₅, x.installed (ends x.side.peer)
    (x.proposal (x.offer (ends x.side.peer).peerLoc signature).encode)
    ⟨x.loc, x.probe.binding, x.record.expiryMs, expected⟩ g₄, ?_, ?_⟩
  · exact Trip.go_eq hproposed hprobed hheard₁ hheard₂ hheard₃ hheard₄ hheard₅
  · exact ⟨ha.arrived hstart (Fin.le_def.mpr hrest) hresult.2,
      hb.installed hstart (Fin.le_def.mpr (by omega)) hupdate.2 hresponse.2, ⟨rfl, rfl⟩,
      ⟨rfl, rfl⟩, ⟨rfl, rfl, rfl, rfl⟩, show g₅.val ≤ _ by omega, show g₄.val ≤ _ by omega⟩

theorem initialState_calm (c : ManagerConfig) (owner : Option Profile3AdmissionOwner)
    (restMs : U64) : Calm restMs (initialState c owner) := by
  constructor <;> simp [initialState]

/-- Every trip is good, begins when what the last one left has run out, and takes its mover to a
later epoch. -/
def Planned (m : Side → Manager) : U64 → (Side → Loc × U64) → List Trip → Prop
  | _, _, [] => True
  | restMs, places, x :: trips =>
    x.Good m ∧ restMs ≤ x.startMs ∧ (places x.side).2 < x.epoch ∧
      Planned m (satAdd x.startMs 13000) (Function.update places x.side (x.loc, x.epoch)) trips

/-- The ends agree where each of them is. -/
structure Agreed (ends : Side → State) (places : Side → Loc × U64) : Prop where
  own : ∀ side, ((ends side).localLoc, (ends side).localEpoch) = places side
  seen : ∀ side, ((ends side.peer).peerLoc, (ends side.peer).peerEpoch) = places side

theorem Trip.Done.agreed {ends : Side → State} {places : Side → Loc × U64} {x : Trip} {a b : State}
    (h : x.Done (ends x.side) (ends x.side.peer) a b) (hs : Agreed ends places) :
    Agreed (Function.update (Function.update ends x.side a) x.side.peer b)
      (Function.update places x.side (x.loc, x.epoch)) := by
  obtain ⟨hmoved, hepoch⟩ := h.moved
  obtain ⟨hfollowed, hheard⟩ := h.followed
  obtain ⟨haloc, haepoch, hbloc, hbepoch⟩ := h.stayed
  have hown := hs.own x.side.peer
  have hseen := hs.seen x.side.peer
  rw [Side.peer_peer] at hseen
  have hne := Side.peer_ne x.side
  constructor
  · intro side
    rcases Side.eq_or_eq_peer side x.side with rfl | rfl
    · rw [Function.update_of_ne hne.symm, Function.update_self, Function.update_self, hmoved,
        hepoch]
    · rw [Function.update_self, Function.update_of_ne hne, hbloc, hbepoch, hown]
  · intro side
    rcases Side.eq_or_eq_peer side x.side with rfl | rfl
    · rw [Function.update_self, Function.update_self, hfollowed, hheard]
    · rw [Side.peer_peer, Function.update_of_ne hne.symm, Function.update_self,
        Function.update_of_ne hne, haloc, haepoch, hseen]

/-- Any number of moves, by either side and in any order, brings ends that are at rest and agree to
the last place of each. -/
theorem travel_completes {m : Side → Manager} (hC : C.Correct) (hf : Facing C m) :
    ∀ (trips : List Trip) (restMs : U64) (places : Side → Loc × U64) (ends : Side → State),
      Planned m restMs places trips → (∀ side, Calm restMs (ends side)) → Agreed ends places →
      (∀ side, (ends side).generation.val + 6 * trips.length < 2 ^ 64) →
      ∃ ends', travel C m ends trips = some ends' ∧ Agreed ends' (itinerary places trips) := by
  intro trips
  induction trips with
  | nil =>
    intro restMs places ends _ _ hs _
    exact ⟨ends, rfl, hs⟩
  | cons x trips ih =>
    intro restMs places ends hplan hcalm hs hgen
    obtain ⟨hgood, hrest, hepoch, hplan⟩ := hplan
    simp only [List.length_cons] at hgen
    have hown := hs.own x.side
    have hseen := hs.seen x.side
    have hloc : (ends x.side).localLoc = (ends x.side.peer).peerLoc :=
      congrArg Prod.fst (hown.trans hseen.symm)
    have hlocal : (ends x.side).localEpoch = (places x.side).2 := congrArg Prod.snd hown
    have hpeer : (ends x.side.peer).peerEpoch = (places x.side).2 := congrArg Prod.snd hseen
    obtain ⟨a, b, hgo, hdone⟩ := Trip.go_completes hC hf hgood hrest (hcalm x.side)
      (hcalm x.side.peer) hloc (hlocal ▸ hepoch) (hpeer ▸ hepoch)
      fun side => lt_of_le_of_lt (by omega) (hgen side)
    have hne := Side.peer_ne x.side
    have hends : ∀ side,
        Calm (satAdd x.startMs 13000)
          (Function.update (Function.update ends x.side a) x.side.peer b side) ∧
        (Function.update (Function.update ends x.side a) x.side.peer b side).generation.val ≤
          (ends side).generation.val + 6 := by
      intro side
      rcases Side.eq_or_eq_peer side x.side with rfl | rfl
      · rw [Function.update_of_ne hne.symm, Function.update_self]
        exact ⟨hdone.mover, hdone.generation.1⟩
      · rw [Function.update_self]
        exact ⟨hdone.follower, hdone.generation.2⟩
    obtain ⟨ends', htravel, hagreed⟩ := ih _ _ _ hplan (fun side => (hends side).1)
      (hdone.agreed hs) fun side => by
        have hle := (hends side).2
        have hlt := hgen side
        omega
    refine ⟨ends', ?_, hagreed⟩
    rw [travel, List.foldlM_cons, hgo]
    exact htravel

/-- A control that arrives on one of the small bindings. -/
def arrival (binding : Byte) (nowMs : U64) : Delivery where
  binding := Scenario.bindingOf binding
  nowMs := nowMs
  proof b := ⟨some ⟨b, ⟨1, 0⟩, 0⟩, false⟩
  live _ := true
  commit p := (⟨p.preview, true⟩, .ok ())

theorem arrival_genuine {binding : Byte} (side : Side) : (arrival binding nowMs).Genuine
    (Pair.managers side) where
  valid := by
    simp only [arrival, Scenario.bindingOf, ObservedBinding.Valid, ObservedBinding.validate]
    decide
  reads b := by simp [arrival, ProtectedReplayProof.matchesPlaintext, ProtectedPreview.readable]
  bound b := by cases side <;> rfl
  commits b := ⟨_, rfl, rfl⟩

/-- A side moves onto a new binding, one control a second. -/
def hop (side : Side) (place : Byte) (epoch startMs : U64) : Trip where
  side := side
  candidateId := bytesOf 16 place
  loc := bytesOf 16 place
  epoch := epoch
  probeNonce := zeros 16
  startMs := startMs
  update := arrival 0 (satAdd startMs 500)
  probe := arrival place (satAdd startMs 1000)
  challenge := arrival place (satAdd startMs 1500)
  response := arrival place (satAdd startMs 2000)
  result := arrival place (satAdd startMs 2500)

theorem hop_good {side : Side} {place : Byte} {epoch startMs : U64} (hplace : place ≠ 0)
    (hroom : startMs.val + 13000 < 2 ^ 64) : (hop side place epoch startMs).Good Pair.managers where
  named := by
    intro he
    exact hplace (List.head_eq_of_cons_eq (congrArg Subtype.val he))
  room := hroom
  prompt := by
    have hadd : ∀ n ≤ 2500, (satAdd startMs n).val = startMs.val + n := fun n hn =>
      satAdd_exact (by omega)
    simp only [hop, arrival, List.forall_mem_cons, List.not_mem_nil, false_imp_iff, implies_true,
      and_true, Fin.le_def]
    rw [hadd 500 (by omega), hadd 1000 (by omega), hadd 1500 (by omega), hadd 2000 (by omega),
      hadd 2500 (by omega)]
    omega
  mover := by
    intro d hd
    simp only [hop, List.mem_cons, List.not_mem_nil, or_false] at hd
    rcases hd with rfl | rfl <;> exact arrival_genuine _
  follower := by
    intro d hd
    simp only [hop, List.mem_cons, List.not_mem_nil, or_false] at hd
    rcases hd with rfl | rfl | rfl <;> exact arrival_genuine _
  answered := by simp only [hop, arrival]
  confirmed := by simp only [hop, arrival]

theorem managers_facing : Facing .sample Pair.managers := by
  constructor <;> decide +kernel

/-- The left side moves twice and the right side in between. -/
theorem travel_completes_three_moves :
    let trips := [hop .left 9 1 1000, hop .right 7 1 14000, hop .left 8 2 27000]
    ∃ ends, travel .sample Pair.managers (fun side => (Pair.meeting.ends side).state) trips =
        some ends ∧
      (ends .left).localLoc = bytesOf 16 8 ∧ (ends .right).peerLoc = bytesOf 16 8 ∧
      (ends .right).localLoc = bytesOf 16 7 ∧ (ends .left).peerLoc = bytesOf 16 7 := by
  intro trips
  have hplan : Planned Pair.managers 0
      (fun side => if side = .left then (bytesOf 16 20, 0) else (bytesOf 16 21, 0)) trips :=
    ⟨hop_good (by decide) (by decide), by decide, by decide,
      hop_good (by decide) (by decide), by decide, by decide,
      hop_good (by decide) (by decide), by decide, by decide, trivial⟩
  obtain ⟨ends, htravel, hagreed⟩ := travel_completes Crypto.sample_correct managers_facing trips 0
    _ (fun side => (Pair.meeting.ends side).state) hplan
    (fun side => by cases side <;> exact initialState_calm _ _ _)
    ⟨fun side => by cases side <;> rfl, fun side => by cases side <;> rfl⟩
    (fun side => by cases side <;> decide)
  exact ⟨ends, htravel, congrArg Prod.fst (hagreed.own .left),
    congrArg Prod.fst (hagreed.seen .left), congrArg Prod.fst (hagreed.own .right), congrArg Prod.fst (hagreed.seen .right)⟩

end R8.Mobility
