import R8Protocol.Mobility.Codec
import R8Protocol.Mobility.Epochs
import R8Protocol.Mobility.Proposals

/-! One manager whose peer tells it nothing untrue: what it stores, what it hands out and what it
says in return are true as well. -/
namespace R8.Mobility

open FixedWidth Wire Session

/-- A locator proposed under a candidate id. -/
structure Move where
  candidateId : CandidateId
  loc : Loc
  epoch : U64
  deriving DecidableEq, Repr

def Proposal.move (p : Proposal) : Move := ⟨p.candidateId, p.loc, p.epoch⟩

def Candidate.move (c : Candidate) : Move := ⟨c.candidateId, c.loc, c.epoch⟩

def OutboundCandidate.move (c : OutboundCandidate) : Move := ⟨c.candidateId, c.loc, c.epoch⟩

/-- The move a call proposes. -/
def Call.move? : Call → Option Move
  | .proposeLocal id newLoc epoch _ _ => some ⟨id, newLoc, epoch⟩
  | _ => none

/-- What a whole run is about, seen from one side: the locators it starts with, the moves each side
proposes and the candidates each side installs for the other. -/
structure Terms where
  localLoc : Loc
  peerLoc : Loc
  offered : Move → Prop
  installs : CandidateId → U64 → Prop
  told : Move → Prop
  granted : CandidateId → U64 → Prop

/-- An update is of a proposed move, and only an installed candidate is sent the result 1. -/
def Control.Sound (moves : Move → Prop) (installs : CandidateId → U64 → Prop) : Control → Prop
  | .locUpdate id _ newLoc epoch .. => moves ⟨id, newLoc, epoch⟩
  | .candidateResult id epoch _ result => result = 1 → installs id epoch
  | _ => True

/-- The same for bytes, as far as they are read as a control. -/
def SoundBytes (moves : Move → Prop) (installs : CandidateId → U64 → Prop) (b : List Byte) : Prop :=
  ∀ c, Control.parse b = .ok c → c.Sound moves installs

/-- What an action is about to write, or to say, is true under the terms. -/
def Action.Warranted (T : Terms) : Action → Prop
  | .cacheProposal p _ _ => T.told p.move
  | .challenge c => T.told c.move
  | .respond control => SoundBytes T.offered T.installs control
  | .commitLocal epoch loc _ promote r => r.response = Option.none ∧
      (promote = true → T.offered ⟨r.candidateId, loc, epoch⟩ ∧ T.granted r.candidateId epoch)
  | _ => True

/-- What a state holds is true under the terms, and each side is where it was last moved to. -/
structure Warranted (T : Terms) (s : State) : Prop where
  proposals : ∀ p ∈ s.proposals, T.told p.move
  candidates : ∀ c ∈ s.candidates, T.told c.move
  cohort : ∀ f ms, s.frozenCohort = some (f, ms) → ∀ p ∈ ms, p.epoch = f ∧ T.told p.move
  emitted : ∀ b ∈ s.emittedResults, SoundBytes T.offered T.installs b
  results : ∀ r ∈ s.results, r.response ≠ none → SoundBytes T.offered T.installs r.bytes
  peer : s.peerEpoch = 0 ∧ s.peerLoc = T.peerLoc ∨
    ∃ id, T.told ⟨id, s.peerLoc, s.peerEpoch⟩ ∧ T.installs id s.peerEpoch
  own : s.localEpoch = 0 ∧ s.localLoc = T.localLoc ∨
    ∃ id, T.offered ⟨id, s.localLoc, s.localEpoch⟩ ∧ T.granted id s.localEpoch

/-- The candidate id tells the moves of one side apart. -/
def Distinct (moves : Move → Prop) : Prop :=
  ∀ x y, moves x → moves y → x.candidateId = y.candidateId → x = y

variable {C : Crypto} {m : Manager} {T T' : Terms} {s s' : State} {a : Action} {c : Control}
  {moves : Move → Prop} {installs : CandidateId → U64 → Prop}

theorem Control.Sound.mono {moves' : Move → Prop} {installs' : CandidateId → U64 → Prop}
    (hm : ∀ x, moves x → moves' x) (hi : ∀ id e, installs id e → installs' id e)
    (h : c.Sound moves installs) : c.Sound moves' installs' := by
  cases c with
  | locUpdate => exact hm _ h
  | candidateResult => exact fun hr => hi _ _ (h hr)
  | bindProbe | bindChallenge | bindResponse => trivial

theorem SoundBytes.encode (h : c.Sound moves installs) : SoundBytes moves installs c.encode := by
  intro c' hc'
  have hdecode := (Control.parse_eq_ok.mp hc').2.1
  rw [Control.decode_encode] at hdecode
  exact Except.ok.inj hdecode ▸ h

theorem SoundBytes.result {p : Proposal} {result : Byte} {nowMs : U64}
    {response : Option BindResponseIdentity} (h : result = 1 → installs p.candidateId p.epoch) :
    SoundBytes moves installs (resultEntry p result nowMs response).bytes :=
  .encode h

namespace Warranted

theorem quiet (h : Warranted T s) (hq : State.Quiet s s') : Warranted T s' where
  proposals := hq.proposals ▸ h.proposals
  candidates := hq.candidates ▸ h.candidates
  cohort := hq.frozenCohort ▸ h.cohort
  emitted := by
    rcases hq.emittedResults with he | he <;> rw [he]
    · exact h.emitted
    · simp
  results := hq.results ▸ h.results
  peer := by
    rw [hq.peerEpoch, hq.peerLoc]
    exact h.peer
  own := by
    rw [hq.localEpoch, hq.localLoc]
    exact h.own

theorem wipe (h : Warranted T s) : Warranted T s.wipe where
  proposals := by simp [State.wipe]
  candidates := by simp [State.wipe]
  cohort := by simp [State.wipe]
  emitted := by simp [State.wipe]
  results := by simp [State.wipe]
  peer := h.peer
  own := h.own

theorem proposalsOf (h : Warranted T s) (f : U64) :
    ∀ p ∈ Manager.proposalsOf s f, p.epoch = f ∧ T.told p.move := by
  intro p hp
  obtain ⟨hmem, he⟩ := List.mem_filter.mp hp
  exact ⟨by simpa using he, h.proposals p hmem⟩

theorem apply (h3 : m.profile ≠ 3) (h : Warranted T s) (ha : a.Warranted T)
    (hn : ∀ s, a.attempts s = []) : Warranted T (m.applyAction s a) := by
  cases a with
  | cacheProposal p tokens refillMs =>
    refine ⟨?_, h.candidates, h.cohort, h.emitted, h.results, h.peer, h.own⟩
    intro q hq
    rcases List.mem_append.mp hq with hq | hq
    · exact h.proposals q hq
    · rw [List.mem_singleton.mp hq]
      exact ha
  | challenge c =>
    refine ⟨h.proposals, ?_, h.cohort, h.emitted, h.results, h.peer, h.own⟩
    intro b hb
    rcases List.mem_append.mp hb with hb | hb
    · exact h.candidates b hb
    · rw [List.mem_singleton.mp hb]
      exact ha
  | commitLocal epoch loc b promote r =>
    obtain ⟨hresponse, hmove⟩ := ha
    have hresults : ∀ x ∈ s.results ++ [r], x.response ≠ none →
        SoundBytes T.offered T.installs x.bytes := by
      intro x hx hne
      rcases List.mem_append.mp hx with hx | hx
      · exact h.results x hx hne
      · rw [List.mem_singleton.mp hx] at hne
        exact absurd hresponse hne
    cases promote with
    | false => exact ⟨h.proposals, h.candidates, h.cohort, h.emitted, hresults, h.peer, h.own⟩
    | true =>
      have hown := hmove rfl
      simp only [Manager.applyAction, Manager.commitLocal, Manager.promoteLocal, h3, if_true,
        if_false]
      exact ⟨h.proposals, h.candidates, h.cohort, h.emitted, hresults, h.peer,
        .inr ⟨r.candidateId, hown.1, hown.2⟩⟩
  | prove id epoch slot at_ r => exact absurd (hn s) (by simp [Action.attempts])
  | existingChallenge | respond | none => exact h

theorem markProven (h : Warranted T s) (id : CandidateId) (epoch : U64) (slot : Byte)
    (r : BindResponseIdentity) : Warranted T (Manager.markProven s id epoch slot r) := by
  obtain ⟨cohort, he, hcohort⟩ := markProven_eq s id epoch slot r
  rw [he]
  refine ⟨h.proposals, ?_, ?_, h.emitted, h.results, h.peer, h.own⟩
  · intro c hc
    obtain ⟨a, ha, hid, hloc, hepoch, -⟩ := Records.mem_prove_key hc
    have hmove : c.move = a.move := by
      rw [Candidate.move, Candidate.move, hid, hloc, hepoch]
    rw [hmove]
    exact h.candidates a ha
  · intro f ms hf
    rcases hcohort with ⟨-, -, hnew⟩ | ⟨-, hold⟩
    · obtain ⟨rfl, rfl⟩ := Prod.mk.inj (Option.some.inj (hnew.symm.trans hf))
      exact h.proposalsOf epoch
    · exact h.cohort f ms (hold.symm.trans hf)

theorem faded {cs : List Candidate} {ts : List (CandidateId × U64)} (h : Warranted T s)
    (hf : Faded s.candidates cs) : Warranted T { s with candidates := cs, tombstones := ts } := by
  refine ⟨h.proposals, ?_, h.cohort, h.emitted, h.results, h.peer, h.own⟩
  intro c hc
  obtain ⟨a, ha, hfa⟩ := hf.mem hc
  obtain ⟨hid, hloc, hepoch, -⟩ := hfa.key
  have hmove : c.move = a.move := by
    rw [Candidate.move, Candidate.move, hid, hloc, hepoch]
  rw [hmove]
  exact h.candidates a ha

/-- The results of a settlement are true if its winner, when it has one, is installed. -/
theorem outcomes (h : Warranted T s) (nowMs : U64) {f : U64} {ms : List Proposal}
    (hf : s.frozenCohort = some (f, ms))
    (hwinner : ∀ id, s.cohortWinner ms = some id → T.installs id f) :
    ∀ r ∈ s.outcomesAt ms nowMs, SoundBytes T.offered T.installs r.bytes := by
  intro r hr
  obtain ⟨p, hp, rfl⟩ := List.mem_map.mp hr
  refine .result ?_
  intro hone
  unfold State.cohortResult at hone
  split at hone
  · rename_i id hid
    split at hone
    · rename_i he
      rw [← he, (h.cohort f ms hf p hp).1]
      exact hwinner id hid
    · split at hone <;> exact absurd hone (by decide)
  · exact absurd hone (by decide)

theorem finish (h : Warranted T s) (f : U64) {rs : List ResultEntry}
    (hrs : ∀ r ∈ rs, SoundBytes T.offered T.installs r.bytes) :
    Warranted T (s.finishCohort f rs) := by
  refine ⟨fun p hp => h.proposals p (List.mem_of_mem_filter hp),
    fun c hc => h.candidates c (List.mem_of_mem_filter hc), by simp [State.finishCohort], ?_, ?_,
    h.peer, h.own⟩
  · intro b hb
    rcases List.mem_append.mp hb with hb | hb
    · exact h.emitted b hb
    · obtain ⟨r, hr, rfl⟩ := List.mem_map.mp hb
      exact hrs r hr
  · intro r hr hne
    rcases List.mem_append.mp hr with hr | hr
    · exact h.results r hr hne
    · exact hrs r hr

/-- The record of a winner is of the move its member proposes. -/
theorem winner_epoch (hT : Distinct T.told) (h : Warranted T s) {f : U64} {ms : List Proposal}
    {c : Candidate} (hf : s.frozenCohort = some (f, ms))
    (hw : s.cohortWinner ms = some c.candidateId) (hc : c ∈ s.candidates) : c.epoch = f := by
  obtain ⟨⟨p, hp, hid⟩, -⟩ := State.cohortWinner_eq_some hw
  obtain ⟨hpf, htold⟩ := h.cohort f ms hf p hp
  have hsame := hT _ _ (h.candidates c hc) htold hid.symm
  rw [← hpf]
  exact congrArg Move.epoch hsame

/-- A settlement keeps what is true, provided that what it installs is what the terms say. -/
theorem settle (h3 : m.profile ≠ 3) (hT : Distinct T.told) {x : Attempt}
    (h : Warranted T x.before)
    (hinstall : ∀ i, x.install m = some i → T.installs i.candidateId i.epoch) :
    Warranted T (x.before.settleFrozenCohort m.profile m.scid x.nowMs).1 := by
  rcases State.settle_cases x.before m.profile m.scid x.nowMs with ⟨he, -⟩ |
    ⟨f, ms, hs, hnone, -, he⟩ | ⟨f, ms, c, hs, hw, hp, he⟩ <;> rw [he]
  · exact h
  · refine h.finish f (h.outcomes x.nowMs hs.frozen ?_)
    simp [hnone]
  · have hinstalled : T.installs c.candidateId f := by
      refine hinstall ⟨f, c.candidateId, c.binding, x.nowMs⟩ ?_
      simp [Attempt.install, hp, h3]
    have hmem := State.promotes_mem hp
    have hepoch := h.winner_epoch hT hs.frozen hw hmem
    have houtcomes := h.outcomes x.nowMs hs.frozen (by
      intro id hid
      rw [hw] at hid
      exact Option.some.inj hid ▸ hinstalled)
    have hmoved : Warranted T ((x.before.promotePeer c f x.nowMs).markCohort c.candidateId f) := by
      refine ⟨h.proposals, ?_, h.cohort, h.emitted, h.results, .inr ⟨c.candidateId, ?_, hinstalled⟩,
        h.own⟩
      · intro b hb
        obtain ⟨a, ha, rfl⟩ := List.mem_map.mp hb
        have hmove : ∀ st, Candidate.move { a with state := st } = a.move := fun _ => rfl
        split <;> simpa only [hmove] using h.candidates a ha
      · have htold := h.candidates c hmem
        rw [Candidate.move, hepoch] at htold
        exact htold
    rw [State.promote, if_neg h3]
    exact hmoved.finish f houtcomes

theorem sweep (h : Warranted T s) (nowMs : U64) (frozen : List Proposal) :
    Warranted T (s.expireSweep nowMs frozen) := by
  obtain ⟨rs, ts, he, hrs, -⟩ := State.expireSweep_eq s nowMs frozen
  have hlate : ∀ r ∈ rs, SoundBytes T.offered T.installs r.bytes := by
    intro r hr
    obtain ⟨p, -, rfl⟩ := hrs r hr
    exact .result fun hone => absurd hone (by decide)
  rw [he]
  refine ⟨fun p hp => h.proposals p (List.mem_of_mem_filter hp),
    fun c hc => h.candidates c (List.mem_of_mem_filter hc), ?_, ?_, ?_, h.peer, h.own⟩
  · intro f ms hf p hp
    rcases State.cohortAfter_eq_some hf with ⟨hold, -⟩ | ⟨hnew, -⟩
    · exact h.cohort f ms hold p hp
    · obtain ⟨-, rfl, -⟩ := State.freshCohort_eq_some hnew
      obtain ⟨hkept, hpf⟩ := List.mem_filter.mp hp
      exact ⟨by simpa using hpf, h.proposals p (List.mem_of_mem_filter hkept)⟩
  · intro b hb
    rcases List.mem_append.mp hb with hb | hb
    · exact h.emitted b hb
    · obtain ⟨r, hr, rfl⟩ := List.mem_map.mp hb
      exact hlate r hr
  · intro r hr hne
    rcases List.mem_append.mp hr with hr | hr
    · exact h.results r (List.mem_of_mem_filter hr) hne
    · exact hlate r hr

end Warranted

theorem previewControl_warranted {binding : ObservedBinding} {nowMs : U64}
    (h : Warranted T s) (hout : ∀ c ∈ s.outbound, T.offered c.move)
    (hc : c.Sound T.told T.granted) (ha : m.previewControl C s binding nowMs c = .ok a) :
    a.Warranted T := by
  cases c with
  | locUpdate id oldLoc newLoc epoch notBeforeMs validForMs slot signature =>
    simp only [Manager.previewControl, Manager.previewLocUpdate, Outcome.bind_eq_ok,
      Outcome.ite_error_eq_ok] at ha
    obtain ⟨-, -, -, ha⟩ := ha
    split at ha
    · simp only [Outcome.ite_ok_eq_ok, Except.ok.injEq] at ha
      rw [← ha.2]
      trivial
    · simp only [Outcome.ite_error_eq_ok, Except.ok.injEq] at ha
      obtain ⟨-, -, -, -, rfl⟩ := ha
      exact hc
  | bindProbe id loc epoch slot probeNonce =>
    simp only [Manager.previewControl, Manager.previewBindProbe] at ha
    split at ha
    · simp at ha
    rename_i p hp
    split at ha
    · simp only [Outcome.ite_ok_eq_ok, Except.ok.injEq] at ha
      rw [← ha.2]
      trivial
    · simp only [Outcome.ite_error_eq_ok, Except.ok.injEq] at ha
      rw [← ha.2]
      exact h.proposals p (List.mem_of_find?_eq_some hp)
  | bindResponse id loc epoch slot expiryMs supplied =>
    simp only [Manager.previewControl, Manager.previewBindResponse] at ha
    split at ha
    · rename_i r hr
      simp only [Outcome.ite_ok_eq_ok, Except.ok.injEq] at ha
      rw [← ha.2]
      exact h.results r (List.mem_of_find?_eq_some hr) (by simp [ha.1])
    split at ha
    · simp at ha
    simp only [Outcome.ite_error_eq_ok] at ha
    obtain ⟨-, -, ha⟩ := ha
    split at ha
    · simp at ha
    simp only [Outcome.bind_eq_ok, Outcome.ite_error_eq_ok] at ha
    obtain ⟨expected, -, -, ha⟩ := ha
    split at ha
    · simp at ha
    simp only [Outcome.ite_error_eq_ok, Except.ok.injEq] at ha
    rw [← ha.2]
    trivial
  | bindChallenge id loc epoch slot expiryMs token =>
    simp only [Manager.previewControl, Manager.previewBindChallenge] at ha
    split at ha
    · simp at ha
    rw [← Except.ok.inj ha]
    exact .encode trivial
  | candidateResult id epoch slot result =>
    simp only [Manager.previewControl, Manager.previewCandidateResult] at ha
    split at ha
    · simp only [Outcome.ite_ok_eq_ok, Except.ok.injEq] at ha
      rw [← ha.2]
      trivial
    split at ha
    · simp at ha
    rename_i o ho
    simp only [Outcome.ite_error_eq_ok, Except.ok.injEq] at ha
    rw [← ha.2]
    refine ⟨rfl, fun hpromote => ?_⟩
    have hkey := List.find?_some ho
    simp only [decide_eq_true_eq] at hkey
    obtain ⟨rfl, rfl, -⟩ := hkey
    exact ⟨hout o (List.mem_of_find?_eq_some ho), hc (by simpa using hpromote)⟩

theorem proposeLocal_outbound {id : CandidateId} {newLoc : Loc} {epoch : U64} {slot : Byte}
    {nowMs : U64} {P : Move → Prop} (h : ∀ c ∈ s.outbound, P c.move) (hP : P ⟨id, newLoc, epoch⟩) :
    ∀ c ∈ (m.proposeLocal C s id newLoc epoch slot nowMs).1.outbound, P c.move := by
  unfold Manager.proposeLocal
  split
  · exact h
  dsimp only
  split
  · split <;> exact h
  split
  · exact h
  split
  · exact h
  have hnew : ∀ c ∈ s.outbound ++ [⟨id, newLoc, epoch, slot, none, satAdd nowMs 5000⟩],
      P c.move := by
    intro c hc
    rcases List.mem_append.mp hc with hc | hc
    · exact h c hc
    · rw [List.mem_singleton.mp hc]
      exact hP
  split <;> exact hnew

theorem makeProbe_outbound {id : CandidateId} {carrier : ObservedBinding} {nonce : Bytes 16}
    {nowMs : U64} {P : Move → Prop} (h : ∀ c ∈ s.outbound, P c.move) :
    ∀ c ∈ (m.makeProbe s id carrier nonce nowMs).1.outbound, P c.move := by
  unfold Manager.makeProbe
  split
  · exact h
  split
  · exact h
  split
  · exact h
  split
  · exact h
  dsimp only
  split
  · split <;> exact h
  · intro c hc
    rcases Lists.mem_modifyFirst hc with hc | ⟨a, ha, rfl⟩
    · exact h c hc
    · exact h a (List.mem_of_find?_eq_some ha)

/-- An update is signed for exactly what was proposed. -/
theorem proposeLocal_sound {id : CandidateId} {newLoc : Loc} {epoch : U64} {slot : Byte}
    {nowMs : U64} (hmove : moves ⟨id, newLoc, epoch⟩)
    (h : (m.proposeLocal C s id newLoc epoch slot nowMs).2 = .ok c) : c.Sound moves installs := by
  have hsigned : ∀ c, signLocUpdate C m.signing m.sending
      ⟨id, s.localLoc, newLoc, epoch, slot⟩ = .ok c → c.Sound moves installs := by
    intro c hsign
    simp only [signLocUpdate, Outcome.bind_eq_ok, Except.ok.injEq] at hsign
    obtain ⟨input, -, rfl⟩ := hsign
    exact hmove
  unfold Manager.proposeLocal at h
  split at h
  · cases h
  dsimp only at h
  split at h
  · split at h
    · exact hsigned c h
    · cases h
  split at h
  · cases h
  split at h
  · cases h
  rename_i update hupdate
  split at h
  · cases h
  · exact Except.ok.inj h ▸ hsigned update hupdate

theorem makeProbe_sound {id : CandidateId} {carrier : ObservedBinding} {nonce : Bytes 16}
    {nowMs : U64} (h : (m.makeProbe s id carrier nonce nowMs).2 = .ok c) :
    c.Sound moves installs := by
  unfold Manager.makeProbe at h
  split at h
  · cases h
  split at h
  · cases h
  split at h
  · cases h
  split at h
  · cases h
  dsimp only at h
  split at h
  · split at h
    · cases h
    · exact Except.ok.inj h ▸ trivial
  · exact Except.ok.inj h ▸ trivial

namespace World

variable {w : World} {call : Call} {secret : Bytes 32}

/-- The controls a call hands to its caller, to be sent. -/
def emitted (C : Crypto) (m : Manager) (w : World) : Call → List Control
  | .proposeLocal id newLoc epoch slot nowMs =>
    (m.proposeLocal C w.state id newLoc epoch slot nowMs).2.toOption.toList
  | .makeProbe id carrier probeNonce nowMs =>
    (m.makeProbe w.state id carrier probeNonce nowMs).2.toOption.toList
  | .takeResults => w.state.takeResults.2
  | _ => []

/-- The control that answers a transition, if it has one. -/
def answer (C : Crypto) (m : Manager) (w : World) (p : Previewed) : List Control :=
  match m.responseFor C w.state p.transition with
  | .ok control => control.toList
  | .error _ => []

/-- A call that keeps to the terms: what it is given is true, and so is what it does. -/
structure Keeps (m : Manager) (T : Terms) (w : World) (call : Call) : Prop where
  owned : w.Owned m call
  heard : ∀ b ∈ call.plaintext?, SoundBytes T.told T.granted b
  offers : ∀ x ∈ call.move?, T.offered x
  installs : ∀ a ∈ w.attempts m call, ∀ i, a.install m = some i → T.installs i.candidateId i.epoch

theorem Keeps.mono (hm : ∀ x, T.offered x → T'.offered x) (ht : ∀ x, T.told x → T'.told x)
    (hi : ∀ id e, T.installs id e → T'.installs id e)
    (hg : ∀ id e, T.granted id e → T'.granted id e) (h : w.Keeps m T call) : w.Keeps m T' call where
  owned := h.owned
  heard b hb c hc := (h.heard b hb c hc).mono ht hg
  offers x hx := hm x (h.offers x hx)
  installs a ha i hinst := hi _ _ (h.installs a ha i hinst)

/-- A new manager at the locators of the terms. -/
def StartsAt (C : Crypto) (m : Manager) (secret : Bytes 32) (T : Terms) (w : World) : Prop :=
  Starts C m secret w ∧ w.state.localLoc = T.localLoc ∧ w.state.peerLoc = T.peerLoc

/-- The runs of one manager under the terms. -/
abbrev ReachUnder (C : Crypto) (m : Manager) (secret : Bytes 32) (T : Terms) (w : World) : Prop :=
  Machine.Reach (StartsAt C m secret T) (step C m) (Keeps m T) w

theorem ReachUnder.reach (h : ReachUnder C m secret T w) :
    Reach C m secret (Keeps m T) w := by
  induction h with
  | start hs => exact .start hs.1
  | next _ hk ih => exact .next ih ⟨hk.owned, hk⟩

/-- Everything a manager holds, has done or is proposing is true under the terms. -/
structure Faithful (T : Terms) (w : World) : Prop where
  state : Warranted T w.state
  issued : ∀ p ∈ w.issued, p.transition.action.Warranted T
  applied : ∀ p ∈ w.applied, p.transition.action.Warranted T
  installed : ∀ i ∈ w.installed, ∃ loc, T.told ⟨i.candidateId, loc, i.epoch⟩
  outbound : ∀ c ∈ w.state.outbound, T.offered c.move

theorem faithful_start (hs : StartsAt C m secret T w) : Faithful T w := by
  obtain ⟨⟨⟨c, owner, rb, ownerId, hnew, -⟩, hissued, happlied, hinst, -⟩, hlocal, hpeer⟩ := hs
  obtain ⟨he, -⟩ := newInner_eq_ok hnew
  refine ⟨?_, by simp [hissued], by simp [happlied], by simp [hinst], by simp [he, initialState]⟩
  rw [he] at hlocal hpeer ⊢
  constructor
  case peer => exact .inl ⟨rfl, hpeer⟩
  case own => exact .inl ⟨rfl, hlocal⟩
  all_goals simp [initialState]

/-- The state stays true through every phase of a call. -/
theorem warranted_phases (h3 : m.profile ≠ 3) (hT : Distinct T.told) :
    Phases C m (fun w call => Keeps m T w call ∧ ∀ p ∈ w.issued, p.transition.action.Warranted T)
      fun _ s => Warranted T s where
  older _ _ _ _ h := h
  quiet _ _ _ hq h := h.quiet hq
  wipe _ _ h := h.wipe
  apply _ _ p hok hcom _ hn _ _ _ _ h :=
    h.apply h3 (hok.2 p (committed_mem hok.1.owned hcom)) hn
  prove _ _ _ id epoch slot _ r _ _ _ _ _ _ _ h := h.markProven id epoch slot r
  mark w nowMs _ _ h := by
    obtain ⟨cs, ts, hf, he⟩ := State.expireMark_eq w.state nowMs
    rw [he]
    exact h.faded hf
  settle _ _ a hok ha h := h.settle h3 hT (hok.1.installs a ha)
  sweep w nowMs _ _ _ h := h.sweep nowMs w.state.frozenMembers

/-- What a preview hands out was computed from the control it was given. -/
theorem previewed_plaintext {p : Previewed} (h : w.previewed C m call = some p) :
    ∃ b ∈ call.plaintext?, ∃ control, Control.parse b = .ok control ∧
      m.previewControl C w.state p.binding p.nowMs control = .ok p.transition.action := by
  cases call with
  | previewProtected plaintext binding proof live nowMs =>
    obtain ⟨t, ht, rfl⟩ := Option.map_eq_some_iff.mp h
    have hok := Outcome.toOption_eq_some.mp ht
    simp only [Manager.previewProtected, Outcome.ite_error_eq_ok] at hok
    exact ⟨plaintext, rfl, previewInner_control hok.2⟩
  | previewProfile3 plaintext binding proof nowMs =>
    obtain ⟨t, ht, rfl⟩ := Option.map_eq_some_iff.mp h
    have hok := Outcome.toOption_eq_some.mp ht
    simp only [Manager.previewProfile3, Outcome.ite_error_eq_ok] at hok
    exact ⟨plaintext, rfl, previewInner_control hok.2.2⟩
  | _ => simp [previewed] at h

theorem commit_outbound {t : Transition} {r : State × Except MobilityError Unit}
    (h3 : m.profile ≠ 3) (hr : CommitEffect m w.state t r) :
    ∀ c ∈ r.1.outbound, c ∈ w.state.outbound := by
  rcases hr with ⟨hsame, -⟩ | ⟨-, -, -, -, g, -, rfl⟩
  · rw [hsame]
    exact fun _ hc => hc
  · exact fun c hc => ((applyAction_local h3 w.state t.action).2 c hc).1

theorem step_outbound (h3 : m.profile ≠ 3) {P : Move → Prop}
    (h : ∀ c ∈ w.state.outbound, P c.move) (hcall : ∀ x ∈ call.move?, P x) :
    ∀ c ∈ (w.step C m call).state.outbound, P c.move := by
  cases call with
  | proposeLocal id newLoc epoch slot nowMs => exact proposeLocal_outbound h (hcall _ rfl)
  | makeProbe id carrier probeNonce nowMs => exact makeProbe_outbound h
  | previewProtected | previewProfile3 | takeResults => exact h
  | commitProtected p commit =>
    have hr := commitProtectedReplay_effect m w.state p.transition commit
    exact fun c hc => h c (commit_outbound h3 hr c hc)
  | commitProfile3 p commit =>
    have hr := commitProfile3_effect m w.state p.transition commit
    exact fun c hc => h c (commit_outbound h3 hr c hc)
  | expire nowMs => exact fun c hc => h c ((expire_local h3 w.state nowMs).2 c hc)
  | takeProfile3Admissions =>
    change ∀ c ∈ w.state.takeProfile3Admissions.1.outbound, P c.move
    unfold State.takeProfile3Admissions
    split <;> exact h
  | close => exact fun c hc => by cases hc

theorem faithful_step (h3 : m.profile ≠ 3) (hT : Distinct T.told) (hf : Fresh C m w)
    (hk : w.Keeps m T call) (h : Faithful T w) : Faithful T (w.step C m call) where
  state := (warranted_phases h3 hT).step h.state ⟨hk, h.issued⟩ (step_effect hf hk.owned)
  applied p hp := by
    rcases List.mem_append.mp hp with hp | hp
    · exact h.issued p (committed_mem hk.owned (Option.mem_toList.mp hp))
    · exact h.applied p hp
  installed i hi := by
    rcases mem_installed hi with hi | ⟨a, ha, hinst⟩
    · exact h.installed i hi
    · have hbefore := (warranted_phases h3 hT).attempt h.state ⟨hk, h.issued⟩
        (step_effect hf hk.owned) a ha
      obtain ⟨c, hp, hid, -⟩ := install_eq_some hinst
      obtain ⟨ms, hs, hw, -⟩ := State.promotes_eq_some.mp hp
      have hmem := State.promotes_mem hp
      have hepoch := hbefore.winner_epoch hT hs.frozen hw hmem
      refine ⟨c.loc, ?_⟩
      rw [hid, ← hepoch]
      exact hbefore.candidates c hmem
  issued p hp := by
    rcases List.mem_append.mp hp with hp | hp
    · have hprev := Option.mem_toList.mp hp
      obtain ⟨plaintext, hplain, control, hparse, hcontrol⟩ := previewed_plaintext hprev
      exact previewControl_warranted h.state h.outbound (hk.heard _ hplain control hparse) hcontrol
    · exact h.issued p hp
  outbound := step_outbound h3 h.outbound hk.offers

/-- What a call says is true under the terms. -/
theorem Faithful.emitted_sound (h : Faithful T w) (hoffers : ∀ x ∈ call.move?, T.offered x) :
    ∀ c ∈ w.emitted C m call, c.Sound T.offered T.installs := by
  intro c hc
  cases call with
  | proposeLocal id newLoc epoch slot nowMs =>
    exact proposeLocal_sound (hoffers _ rfl) (Outcome.toOption_eq_some.mp (Option.mem_toList.mp hc))
  | makeProbe id carrier probeNonce nowMs =>
    exact makeProbe_sound (Outcome.toOption_eq_some.mp (Option.mem_toList.mp hc))
  | takeResults =>
    obtain ⟨b, hb, hparse⟩ := List.mem_filterMap.mp hc
    exact h.state.emitted b hb c (Outcome.toOption_eq_some.mp hparse)
  | _ => cases hc

theorem Faithful.answer_sound {p : Previewed} (h : Faithful T w) (hp : p ∈ w.issued) :
    ∀ c ∈ w.answer C m p, c.Sound T.offered T.installs := by
  intro c hc
  unfold answer Manager.responseFor at hc
  split at hc
  swap
  · cases hc
  rename_i control hcontrol
  obtain rfl := Option.mem_toList.mp hc
  simp only [Outcome.ite_error_eq_ok] at hcontrol
  obtain ⟨-, hcontrol⟩ := hcontrol
  have hwarranted := h.issued p hp
  cases hact : p.transition.action with
  | challenge c₀ | existingChallenge c₀ =>
    simp only [hact] at hcontrol
    split at hcontrol
    · cases hcontrol
    · simp only [Outcome.bind_eq_ok, Except.ok.injEq, Option.some.injEq] at hcontrol
      obtain ⟨token, -, rfl⟩ := hcontrol
      trivial
  | respond b =>
    simp only [hact, Outcome.bind_eq_ok, Except.ok.injEq, Option.some.injEq] at hcontrol
    obtain ⟨c', hparse, rfl⟩ := hcontrol
    rw [hact] at hwarranted
    exact hwarranted _ hparse
  | cacheProposal | commitLocal | prove | none => simp [hact] at hcontrol

theorem ReachUnder.faithful (h3 : m.profile ≠ 3) (hT : Distinct T.told)
    (h : ReachUnder C m secret T w) : Faithful T w := by
  have hall : Fresh C m w ∧ Faithful T w := by
    apply Machine.Reach.invariant (I := fun w => Fresh C m w ∧ Faithful T w) _ _ h
    · exact fun w hs => ⟨fresh_start hs.1, faithful_start hs⟩
    · intro w call ⟨hf, hw⟩ hk
      exact ⟨fresh_step hf hk.owned, faithful_step h3 hT hf hk hw⟩
  exact hall.2

end World

end R8.Mobility
