import R8Protocol.Mobility.Records
import R8Protocol.Mobility.Scenario

/-! Committed epochs only grow, and whatever is still open is ahead of them. -/
namespace R8.Mobility

open FixedWidth Wire Session

/-- Everything cached for the peer's side is ahead of its committed epoch. -/
structure PeerAhead (s : State) : Prop where
  proposals : ∀ p ∈ s.proposals, s.peerEpoch < p.epoch
  candidates : ∀ c ∈ s.candidates, s.peerEpoch < c.epoch
  cohort : ∀ f members, s.frozenCohort = some (f, members) → s.peerEpoch < f

/-- Every outbound entry is ahead of the committed local epoch. -/
def LocalAhead (s : State) : Prop := ∀ c ∈ s.outbound, s.localEpoch < c.epoch

/-- The committed epochs of one side, newest first: they grow strictly from zero up to `current`. -/
def Ascends (epochs : List U64) (current : U64) : Prop :=
  (epochs ++ [0]).Pairwise (· > ·) ∧ (epochs ++ [0]).head? = some current

/-- The local epoch that a committed result promotes. -/
def Action.localEpoch? : Action → Option U64
  | .commitLocal epoch _ _ true _ => some epoch
  | _ => Option.none

theorem localEpoch_eq_some {a : Action} {epoch : U64} (h : a.localEpoch? = some epoch) :
    ∃ loc b r, a = .commitLocal epoch loc b true r := by
  cases a with
  | commitLocal e loc b promote r =>
    cases promote with
    | true => exact ⟨loc, b, r, by rw [Option.some.inj h]⟩
    | false => cases h
  | _ => cases h

/-- The local epochs promoted in a history. -/
def localEpochs (history : List Previewed) : List U64 :=
  history.filterMap fun p => p.transition.action.localEpoch?

theorem localEpochs_cons (p : Previewed) (history : List Previewed) :
    localEpochs (p :: history) =
      p.transition.action.localEpoch?.toList ++ localEpochs history := by
  cases h : p.transition.action.localEpoch? <;> simp [localEpochs, h]

variable {C : Crypto} {m : Manager} {s s' : State} {epochs : List U64} {current epoch : U64}

namespace Ascends

theorem le (h : Ascends epochs current) : ∀ e ∈ epochs ++ [0], e ≤ current := by
  obtain ⟨hpair, hhead⟩ := h
  cases hlist : epochs ++ [0] with
  | nil => simp
  | cons first rest =>
    rw [hlist] at hpair hhead
    obtain rfl := Option.some.inj hhead
    intro e he
    rcases List.mem_cons.mp he with rfl | he
    · exact le_rfl
    · exact (List.rel_of_pairwise_cons hpair he).le

theorem zero : Ascends [] 0 := ⟨by simp, rfl⟩

theorem push (h : Ascends epochs current) (hlt : current < epoch) :
    Ascends (epoch :: epochs) epoch :=
  ⟨List.pairwise_cons.mpr ⟨fun e he => (h.le e he).trans_lt hlt, h.1⟩, rfl⟩

/-- A longer history ends in an epoch at least as great. -/
theorem mono {newer : List U64} {current' : U64} (h : Ascends epochs current)
    (h' : Ascends (newer ++ epochs) current') : current ≤ current' := by
  apply h'.le
  rw [List.append_assoc]
  exact List.mem_append_right _ (List.mem_of_mem_head? h.2)

end Ascends

namespace PeerAhead

theorem same (h : PeerAhead s) (hp : s'.proposals = s.proposals)
    (hc : s'.candidates = s.candidates) (hf : s'.frozenCohort = s.frozenCohort)
    (he : s'.peerEpoch = s.peerEpoch) : PeerAhead s' where
  proposals := by
    rw [hp, he]
    exact h.proposals
  candidates := by
    rw [hc, he]
    exact h.candidates
  cohort := by
    rw [hf, he]
    exact h.cohort

theorem cleared (hp : s.proposals = []) (hc : s.candidates = []) (hf : s.frozenCohort = none) :
    PeerAhead s := by
  constructor <;> simp [hp, hc, hf]

theorem faded {cs : List Candidate} {ts : List (CandidateId × U64)} (h : PeerAhead s)
    (hf : Faded s.candidates cs) : PeerAhead { s with candidates := cs, tombstones := ts } where
  proposals := h.proposals
  candidates c hc := by
    obtain ⟨a, ha, hfa⟩ := hf.mem hc
    rw [hfa.key.2.2.1]
    exact h.candidates a ha
  cohort := h.cohort

/-- A winner's epoch is greater than the committed one, and nothing up to it is left. -/
theorem settle (h : PeerAhead s) (h3 : m.profile ≠ 3) (scid nowMs : U64) :
    PeerAhead (s.settleFrozenCohort m.profile scid nowMs).1 ∧
      ((s.promotes = none ∧
        (s.settleFrozenCohort m.profile scid nowMs).1.peerEpoch = s.peerEpoch) ∨
      ∃ f c, s.promotes = some (f, c) ∧ s.peerEpoch < f ∧
        (s.settleFrozenCohort m.profile scid nowMs).1.peerEpoch = f) := by
  obtain ⟨-, hb⟩ := State.settle_bindings s scid nowMs h3
  rcases State.settle_cases s m.profile scid nowMs with ⟨he, hn, -⟩ |
    ⟨f, members, hs, -, hn, he⟩ | ⟨f, members, c, hs, -, hp, he⟩
  · rw [he]
    exact ⟨h, .inl ⟨hn, rfl⟩⟩
  · rw [he]
    refine ⟨⟨?_, ?_, ?_⟩, .inl ⟨hn, rfl⟩⟩
    · exact fun p hmem => h.proposals p (List.mem_of_mem_filter hmem)
    · exact fun c hmem => h.candidates c (List.mem_of_mem_filter hmem)
    · simp [(State.finishCohort_closed s f _).frozenCohort]
  · have hclosed : State.ClosedCohort s (s.settleFrozenCohort m.profile scid nowMs).1 f
        (s.outcomesAt members nowMs) := by
      rw [he]
      exact (State.promote_caches s (s.outcomesAt members nowMs)).resolve_right fun hc => h3 hc.1
    have hpeer : (s.settleFrozenCohort m.profile scid nowMs).1.peerEpoch = f := by
      rcases hb with ⟨hn, -⟩ | ⟨f', c', hp', -, -, hpe⟩
      · simp [hp] at hn
      · rw [hpe]
        exact (Prod.mk.inj (Option.some.inj (hp'.symm.trans hp))).1
    refine ⟨⟨?_, ?_, ?_⟩, .inr ⟨f, c, hp, h.cohort f members hs.frozen, hpeer⟩⟩
    · intro p hmem
      rw [hclosed.proposals] at hmem
      rw [hpeer]
      simpa using (List.mem_filter.mp hmem).2
    · intro a hmem
      rw [hclosed.candidates] at hmem
      rw [hpeer]
      simpa using (List.mem_filter.mp hmem).2
    · simp [hclosed.frozenCohort]

theorem markProven (h : PeerAhead s) (id : CandidateId) (epoch : U64) (slot : Byte)
    (r : BindResponseIdentity) : PeerAhead (Manager.markProven s id epoch slot r) := by
  obtain ⟨cohort, he, hcohort⟩ := markProven_eq s id epoch slot r
  rw [he]
  refine ⟨h.proposals, ?_, ?_⟩
  · intro c hc
    obtain ⟨a, ha, -, -, hae, -⟩ := Records.mem_prove_key hc
    rw [← hae]
    exact h.candidates a ha
  · intro f members hf
    rcases hcohort with ⟨-, hg, hcohort⟩ | ⟨-, hcohort⟩
    · -- a new cohort is of the greatest epoch among the proposals
      have hf' : some (epoch, Manager.proposalsOf s epoch) = some (f, members) := hcohort ▸ hf
      obtain ⟨rfl, -⟩ := Prod.mk.inj (Option.some.inj hf')
      obtain ⟨p, hp, hpe⟩ := List.mem_map.mp (List.max?_mem hg)
      rw [← hpe]
      exact h.proposals p hp
    · exact h.cohort f members (hcohort ▸ hf)

theorem sweep (h : PeerAhead s) (nowMs : U64) (frozen : List Proposal) :
    PeerAhead (s.expireSweep nowMs frozen) := by
  obtain ⟨rs, ts, he, -⟩ := State.expireSweep_eq s nowMs frozen
  rw [he]
  refine ⟨fun p hp => h.proposals p (List.mem_of_mem_filter hp),
    fun c hc => h.candidates c (List.mem_of_mem_filter hc), ?_⟩
  intro f members hf
  rcases State.cohortAfter_eq_some hf with ⟨hold, -⟩ | ⟨hfresh, -⟩
  · exact h.cohort f members hold
  · obtain ⟨⟨p, hp, rfl, -⟩, -⟩ := State.freshCohort_eq_some hfresh
    exact h.proposals p (List.mem_of_mem_filter hp)

theorem apply {binding : ObservedBinding} {nowMs : U64} {a : Action} (h : PeerAhead s)
    (ha : Applicable C m s binding nowMs a) (hn : ∀ s, a.attempts s = []) :
    PeerAhead (m.applyAction s a) ∧ (m.applyAction s a).peerEpoch = s.peerEpoch := by
  cases a with
  | cacheProposal p tokens refillMs =>
    refine ⟨⟨?_, h.candidates, h.cohort⟩, rfl⟩
    intro q hq
    rcases List.mem_append.mp hq with hq | hq
    · exact h.proposals q hq
    · rw [List.mem_singleton.mp hq]
      exact ha.1
  | challenge c =>
    obtain ⟨-, -, -, -, ⟨p, hp, -, -, hepoch, -⟩, -⟩ := ha
    refine ⟨⟨h.proposals, ?_, h.cohort⟩, rfl⟩
    intro b hb
    rcases List.mem_append.mp hb with hb | hb
    · exact h.candidates b hb
    · rw [List.mem_singleton.mp hb, ← hepoch]
      exact h.proposals p hp
  | commitLocal epoch loc b promote r =>
    obtain ⟨-, hpe, -, ⟨hp, hc, hf, -⟩ | ⟨-, hp, hc, hf, -⟩⟩ :=
      commitLocal_lists m s epoch loc b promote r
    · exact ⟨h.same hp hc hf hpe, hpe⟩
    · exact ⟨cleared hp hc hf, hpe⟩
  | prove id epoch slot at_ r => exact absurd (hn s) (by simp [Action.attempts])
  | existingChallenge | respond | none => exact ⟨h, rfl⟩

end PeerAhead

/-- For profiles 0 to 2 a promoting result moves the local epoch, and what it passes is dropped. -/
theorem applyAction_local (h3 : m.profile ≠ 3) (s : State) (a : Action) :
    (m.applyAction s a).localEpoch = a.localEpoch?.getD s.localEpoch ∧
      ∀ c ∈ (m.applyAction s a).outbound, c ∈ s.outbound ∧ ∀ e ∈ a.localEpoch?, e < c.epoch := by
  cases a with
  | commitLocal epoch loc b promote r =>
    cases promote with
    | true =>
      simp only [Manager.applyAction, Manager.commitLocal, Manager.promoteLocal, h3, if_true,
        if_false, Action.localEpoch?, Option.getD_some, true_and]
      intro c hc
      obtain ⟨hmem, hlt⟩ := List.mem_filter.mp hc
      exact ⟨hmem, fun e he => Option.some.inj he ▸ by simpa using hlt⟩
    | false =>
      refine ⟨rfl, fun c hc => ⟨List.mem_of_mem_filter hc, ?_⟩⟩
      simp [Action.localEpoch?]
  | prove id epoch slot at_ r =>
    obtain ⟨cohort, he, -⟩ := markProven_eq s id epoch slot r
    have hframe := State.settle_frame (Manager.markProven s id epoch slot r) m.profile m.scid at_
    have hlocal : (m.applyAction s (.prove id epoch slot at_ r)).localEpoch = s.localEpoch := by
      rw [Manager.applyAction, hframe.localEpoch, he]
    refine ⟨hlocal, fun c hc => ⟨?_, by simp [Action.localEpoch?]⟩⟩
    rcases State.settle_caches (Manager.markProven s id epoch slot r) m.profile m.scid at_ with
      hsame | ⟨f, members, -, hclosed | ⟨hp, -⟩⟩
    · rw [Manager.applyAction, hsame, he] at hc
      exact hc
    · rw [Manager.applyAction, hclosed.outbound, he] at hc
      exact hc
    · exact absurd hp h3
  | cacheProposal | challenge | existingChallenge | respond | none =>
    exact ⟨rfl, fun c hc => ⟨hc, by simp [Action.localEpoch?]⟩⟩

theorem proposeLocal_localAhead {id : CandidateId} {newLoc : Loc} {slot : Byte} {nowMs : U64}
    (h : LocalAhead s) : LocalAhead (m.proposeLocal C s id newLoc epoch slot nowMs).1 := by
  unfold Manager.proposeLocal
  split
  · exact h
  · rename_i hopen
    push Not at hopen
    dsimp only
    split
    · split <;> exact h
    · split
      · exact h
      · split
        · exact h
        · have hnew : LocalAhead { s with outbound := s.outbound ++ [⟨id, newLoc, epoch, slot,
              Option.none, satAdd nowMs 5000⟩] } := by
            intro c hc
            rcases List.mem_append.mp hc with hc | hc
            · exact h c hc
            · rw [List.mem_singleton.mp hc]
              exact hopen.2.2.1
          split <;> exact hnew

theorem makeProbe_localAhead {id : CandidateId} {carrier : ObservedBinding} {nonce : Bytes 16}
    {nowMs : U64} (h : LocalAhead s) : LocalAhead (m.makeProbe s id carrier nonce nowMs).1 := by
  unfold Manager.makeProbe
  split
  · exact h
  · split
    · exact h
    · split
      · exact h
      · split
        · exact h
        · dsimp only
          split
          · split <;> exact h
          · intro c hc
            rcases Lists.mem_modifyFirst hc with hc | ⟨a, ha, rfl⟩
            · exact h c hc
            · exact h a (List.mem_of_find?_eq_some ha)

/-- Expiry drops outbound entries and commits no local epoch. -/
theorem expire_local (h3 : m.profile ≠ 3) (s : State) (nowMs : U64) :
    (s.expire m nowMs).localEpoch = s.localEpoch ∧
      ∀ c ∈ (s.expire m nowMs).outbound, c ∈ s.outbound := by
  have hsettle : ∀ s : State,
      (s.settleFrozenCohort m.profile m.scid nowMs).1.outbound = s.outbound := by
    intro s
    rcases State.settle_caches s m.profile m.scid nowMs with
      hsame | ⟨f, members, -, hclosed | ⟨hp, -⟩⟩
    · rw [hsame]
    · exact hclosed.outbound
    · exact absurd hp h3
  have hout : ∀ c ∈ (s.expireSettled m nowMs).outbound, c ∈ s.outbound := by
    intro c hc
    rw [State.expireSettled, hsettle, State.expireBeforeSettle] at hc
    obtain ⟨rs, ts, he, -⟩ := State.expireSweep_eq
      ((s.expireMark nowMs).settleFrozenCohort m.profile m.scid nowMs).1 nowMs s.frozenMembers
    rw [he] at hc
    have hmem := List.mem_of_mem_filter hc
    rw [hsettle] at hmem
    obtain ⟨cs, ts', -, hmark⟩ := State.expireMark_eq s nowMs
    rwa [hmark] at hmem
  have hframe := State.expireSettled_frame m s nowMs
  by_cases hc : s.closed = true
  · have hsame : s.expire m nowMs = s := by simp [State.expire, hc]
    rw [hsame]
    exact ⟨rfl, fun _ h => h⟩
  · rcases State.expire_settled (m := m) s nowMs (by simpa using hc) with ⟨g, -, he⟩ | ⟨-, he⟩
    · rw [he]
      exact ⟨hframe.localEpoch, hout⟩
    · rw [he]
      exact ⟨hframe.localEpoch, fun _ h => by cases h⟩

namespace World

variable {secret : Bytes 32} {ok : World → Call → Prop} {w : World} {call : Call}

/-- What a settlement attempt commits is put on the log. -/
theorem peerAhead_settle {a : Attempt} (h3 : m.profile ≠ 3) (h : PeerAhead a.before)
    (hlog : Ascends epochs a.before.peerEpoch) :
    PeerAhead (a.before.settleFrozenCohort m.profile m.scid a.nowMs).1 ∧
      Ascends ((a.install m).toList.map Install.epoch ++ epochs)
        (a.before.settleFrozenCohort m.profile m.scid a.nowMs).1.peerEpoch := by
  obtain ⟨hahead, ⟨hn, hsame⟩ | ⟨f, c, hp, hlt, hpeer⟩⟩ := h.settle h3 m.scid a.nowMs
  · refine ⟨hahead, ?_⟩
    have hno : a.install m = none := by simp [Attempt.install, hn]
    rw [hno, hsame]
    exact hlog
  · refine ⟨hahead, ?_⟩
    have hsome : a.install m = some ⟨f, c.candidateId, c.binding, a.nowMs⟩ := by
      simp [Attempt.install, hp, h3]
    rw [hsome, hpeer]
    exact hlog.push hlt

/-- The peer's side of a world: what is open is ahead of an epoch that has only grown. -/
structure PeerEpochs (w : World) : Prop where
  ahead : PeerAhead w.state
  ascends : Ascends (w.installed.map Install.epoch) w.state.peerEpoch

theorem peerEpochs_expire {nowMs : U64} (h3 : m.profile ≠ 3) (h : PeerEpochs w)
    (hc : w.state.closed = false)
    (hs : w.attempts m (.expire nowMs) = w.state.expireAttempts m nowMs) :
    PeerAhead (w.state.expireSettled m nowMs) ∧
      Ascends ((w.step C m (.expire nowMs)).installed.map Install.epoch)
        (w.state.expireSettled m nowMs).peerEpoch := by
  obtain ⟨cs, ts, hfaded, hmark⟩ := State.expireMark_eq w.state nowMs
  have hlog : Ascends (w.installed.map Install.epoch) (w.state.expireMark nowMs).peerEpoch := by
    rw [hmark]
    exact h.ascends
  have h₁ := peerAhead_settle (a := ⟨w.state.expireMark nowMs, nowMs⟩) h3
    (hmark ▸ h.ahead.faded hfaded) hlog
  obtain ⟨rs, ts', hsweep, -⟩ := State.expireSweep_eq
    ((w.state.expireMark nowMs).settleFrozenCohort m.profile m.scid nowMs).1 nowMs
    w.state.frozenMembers
  have hpeer : (w.state.expireBeforeSettle m nowMs).peerEpoch =
      ((w.state.expireMark nowMs).settleFrozenCohort m.profile m.scid nowMs).1.peerEpoch := by
    rw [State.expireBeforeSettle, hsweep]
  have h₂ := peerAhead_settle (a := ⟨w.state.expireBeforeSettle m nowMs, nowMs⟩) h3
    (h₁.1.sweep nowMs w.state.frozenMembers) (hpeer ▸ h₁.2)
  have hinst : (w.step C m (.expire nowMs)).installed.map Install.epoch =
      (Attempt.install m ⟨w.state.expireBeforeSettle m nowMs, nowMs⟩).toList.map Install.epoch ++
      ((Attempt.install m ⟨w.state.expireMark nowMs, nowMs⟩).toList.map Install.epoch ++
        w.installed.map Install.epoch) := by
    cases hi : Attempt.install m ⟨w.state.expireMark nowMs, nowMs⟩ <;>
      cases hi' : Attempt.install m ⟨w.state.expireBeforeSettle m nowMs, nowMs⟩ <;>
      simp [step, hs, State.expireAttempts, hc, hi, hi']
  rw [hinst]
  exact h₂

theorem peerEpochs_step (h3 : m.profile ≠ 3) (h : PeerEpochs w) (he : Effect C m w call) :
    PeerEpochs (w.step C m call) := by
  cases he with
  | quiet hq _ _ hs =>
    have hinst : (w.step C m call).installed = w.installed := by simp [step, hs]
    refine ⟨h.ahead.same hq.proposals hq.candidates hq.frozenCohort hq.peerEpoch, ?_⟩
    rw [hinst, hq.peerEpoch]
    exact h.ascends
  | close hstate _ hs =>
    have hinst : (w.step C m call).installed = w.installed := by simp [step, hs]
    refine ⟨?_, ?_⟩
    · rw [hstate]
      exact .cleared rfl rfl rfl
    · rw [hinst, hstate]
      exact h.ascends
  | commit p g _ _ _ _ _ happ _ _ _ hstate _ hs =>
    have hkey : PeerAhead (m.applyAction w.state p.transition.action) ∧
        Ascends ((w.step C m call).installed.map Install.epoch)
          (m.applyAction w.state p.transition.action).peerEpoch := by
      cases hact : p.transition.action with
      | prove id epoch slot at_ r =>
        have hmark := h.ahead.markProven id epoch slot r
        obtain ⟨cohort, he, -⟩ := markProven_eq w.state id epoch slot r
        have hlog : Ascends (w.installed.map Install.epoch)
            (Manager.markProven w.state id epoch slot r).peerEpoch := by
          rw [he]
          exact h.ascends
        have hnext := peerAhead_settle (a := ⟨_, at_⟩) h3 hmark hlog
        refine ⟨hnext.1, ?_⟩
        have hinst : (w.step C m call).installed.map Install.epoch =
            (Attempt.install m ⟨Manager.markProven w.state id epoch slot r, at_⟩).toList.map
              Install.epoch ++ w.installed.map Install.epoch := by
          cases hi : Attempt.install m ⟨Manager.markProven w.state id epoch slot r, at_⟩ <;>
            simp [step, hs, hact, Action.attempts, hi]
        rw [hinst]
        exact hnext.2
      | _ =>
        have hnone : ∀ s, p.transition.action.attempts s = [] := by simp [hact, Action.attempts]
        have hinst : (w.step C m call).installed = w.installed := by simp [step, hs, hnone]
        rw [hinst, ← hact]
        obtain ⟨hahead, hpeer⟩ := h.ahead.apply happ hnone
        exact ⟨hahead, hpeer ▸ h.ascends⟩
    exact ⟨hkey.1.same (by rw [hstate]) (by rw [hstate]) (by rw [hstate]) (by rw [hstate]),
      by rw [hstate]; exact hkey.2⟩
  | expire nowMs hcall hc hstate _ hs =>
    subst hcall
    obtain ⟨hahead, hlog⟩ := peerEpochs_expire h3 h hc hs
    rcases State.expire_settled (m := m) w.state nowMs hc with ⟨g, -, he⟩ | ⟨-, he⟩
    · rw [he] at hstate
      exact ⟨hahead.same (by rw [hstate]) (by rw [hstate]) (by rw [hstate]) (by rw [hstate]),
        by rw [hstate]; exact hlog⟩
    · rw [he] at hstate
      exact ⟨.cleared (by rw [hstate]; rfl) (by rw [hstate]; rfl) (by rw [hstate]; rfl),
        by rw [hstate]; exact hlog⟩

/-- The local side: outbound entries and outstanding results are ahead of the committed epoch. -/
structure LocalEpochs (w : World) : Prop where
  ahead : LocalAhead w.state
  outstanding : Current (fun p s => ∀ epoch loc b promote r,
    p.transition.action = .commitLocal epoch loc b promote r → s.localEpoch < epoch) w
  ascends : Ascends (localEpochs w.applied) w.state.localEpoch

/-- A result is committed for an outbound entry that was there when it was previewed. -/
theorem previewed_commitLocal {p : Previewed} {epoch : U64} {loc : Loc} {b : ObservedBinding}
    {promote : Bool} {r : ResultEntry} (h : w.previewed C m call = some p)
    (hact : p.transition.action = .commitLocal epoch loc b promote r) :
    ∃ c ∈ w.state.outbound, c.epoch = epoch := by
  cases call with
  | previewProtected plaintext binding proof live nowMs =>
    obtain ⟨t, ht, rfl⟩ := Option.map_eq_some_iff.mp h
    have hok := Outcome.toOption_eq_some.mp ht
    simp only [Manager.previewProtected, Outcome.ite_error_eq_ok] at hok
    obtain ⟨control, -, hcontrol⟩ := previewInner_control hok.2
    rw [hact] at hcontrol
    exact (previewControl_commitLocal hcontrol).1
  | previewProfile3 plaintext binding proof nowMs =>
    obtain ⟨t, ht, rfl⟩ := Option.map_eq_some_iff.mp h
    have hok := Outcome.toOption_eq_some.mp ht
    simp only [Manager.previewProfile3, Outcome.ite_error_eq_ok] at hok
    obtain ⟨control, -, hcontrol⟩ := previewInner_control hok.2.2
    rw [hact] at hcontrol
    exact (previewControl_commitLocal hcontrol).1
  | _ => simp [previewed] at h

theorem localAhead_commit {t : Transition} {r : State × Except MobilityError Unit}
    (h3 : m.profile ≠ 3) (h : LocalAhead w.state) (hr : CommitEffect m w.state t r) :
    LocalAhead r.1 := by
  rcases hr with ⟨hsame, -⟩ | ⟨-, -, -, -, g, -, rfl⟩
  · rw [hsame]
    exact h
  · intro c hc
    obtain ⟨hlocal, hout⟩ := applyAction_local h3 w.state t.action
    obtain ⟨hmem, hpassed⟩ := hout c hc
    change (m.applyAction w.state t.action).localEpoch < c.epoch
    rw [hlocal]
    cases he : t.action.localEpoch? with
    | none => exact h c hmem
    | some e => exact hpassed e he

theorem localAhead_step (h3 : m.profile ≠ 3) (h : LocalAhead w.state) :
    LocalAhead (w.step C m call).state := by
  cases call with
  | proposeLocal id newLoc epoch slot nowMs =>
    exact proposeLocal_localAhead h
  | makeProbe id carrier probeNonce nowMs =>
    exact makeProbe_localAhead h
  | previewProtected | previewProfile3 => exact h
  | commitProtected p commit =>
    exact localAhead_commit h3 h (commitProtectedReplay_effect m w.state p.transition commit)
  | commitProfile3 p commit =>
    exact localAhead_commit h3 h (commitProfile3_effect m w.state p.transition commit)
  | expire nowMs =>
    obtain ⟨hlocal, hout⟩ := expire_local h3 w.state nowMs
    intro c hc
    change (w.state.expire m nowMs).localEpoch < c.epoch
    rw [hlocal]
    exact h c (hout c hc)
  | takeResults => exact h
  | takeProfile3Admissions =>
    change LocalAhead w.state.takeProfile3Admissions.1
    unfold State.takeProfile3Admissions
    split <;> exact h
  | close => exact fun c hc => by cases hc

theorem localEpochs_step (h3 : m.profile ≠ 3) (hf : Fresh C m w) (ho : w.Owned m call)
    (h : LocalEpochs w) : LocalEpochs (w.step C m call) where
  ahead := localAhead_step h3 h.ahead
  outstanding := by
    refine current_step hf ho ?_ ?_ h.outstanding
    · intro p s s' hq hp epoch loc b promote r hact
      rw [hq.localEpoch]
      exact hp epoch loc b promote r hact
    · intro p hp epoch loc b promote r hact
      obtain ⟨c, hc, rfl⟩ := previewed_commitLocal hp hact
      exact h.ahead c hc
  ascends := by
    cases step_effect hf ho with
    | quiet hq _ ha _ =>
      rw [hq.localEpoch]
      rcases ha with ha | ⟨p, hmut, ha⟩
      · rw [ha]
        exact h.ascends
      · have hnone : p.transition.action.localEpoch? = none := by
          cases hact : p.transition.action <;> simp_all [Action.mutates, Action.localEpoch?]
        rw [ha, localEpochs_cons, hnone]
        exact h.ascends
    | commit p g hp hgen hc _ _ _ _ _ _ hstate ha _ =>
      have hlocal := (applyAction_local h3 w.state p.transition.action).1
      rw [ha, hstate]
      change Ascends _ (m.applyAction w.state p.transition.action).localEpoch
      rw [hlocal]
      cases he : p.transition.action.localEpoch? with
      | none =>
        rw [localEpochs_cons, he]
        exact h.ascends
      | some e =>
        rw [localEpochs_cons, he]
        refine h.ascends.push ?_
        obtain ⟨loc, b, r, hact⟩ := localEpoch_eq_some he
        exact h.outstanding p hp hc hgen e loc b true r hact
    | expire nowMs hcall _ hstate ha _ =>
      rw [ha, hstate, (expire_local h3 w.state nowMs).1]
      exact h.ascends
    | close hstate ha _ =>
      rw [ha, hstate]
      exact h.ascends

theorem Reach.epochs_ahead (h3 : m.profile ≠ 3) (h : Reach C m secret ok w) :
    PeerEpochs w ∧ LocalEpochs w := by
  have hall : Fresh C m w ∧ PeerEpochs w ∧ LocalEpochs w := by
    apply Machine.Reach.invariant (I := fun w => Fresh C m w ∧ PeerEpochs w ∧ LocalEpochs w) _ _ h
    · intro w hs
      refine ⟨fresh_start hs, ?_⟩
      obtain ⟨⟨c, owner, rb, ownerId, hnew, -⟩, hissued, happlied, hinst, -⟩ := hs
      obtain ⟨he, -⟩ := newInner_eq_ok hnew
      refine ⟨⟨?_, ?_⟩, ⟨?_, ?_, ?_⟩⟩
      · rw [he]
        exact .cleared rfl rfl rfl
      · rw [he, hinst]
        exact .zero
      · rw [he]
        exact fun c hc => by cases hc
      · intro p hp
        rw [hissued] at hp
        cases hp
      · rw [he, happlied]
        exact .zero
    · intro w call ⟨hf, hp, hl⟩ hok
      exact ⟨fresh_step hf hok.1, peerEpochs_step h3 hp (step_effect hf hok.1),
        localEpochs_step h3 hf hok.1 hl⟩
  exact hall.2

/-- In every state reached, whatever is open is ahead of the committed epochs; and these only grow,
strictly so at every promotion of their side. -/
theorem epochs_monotone (h3 : m.profile ≠ 3) (h : Reach C m secret ok w) :
    (∀ p ∈ w.state.proposals, w.state.peerEpoch < p.epoch) ∧
    (∀ c ∈ w.state.candidates, w.state.peerEpoch < c.epoch) ∧
    (∀ epoch members, w.state.frozenCohort = some (epoch, members) → w.state.peerEpoch < epoch) ∧
    (∀ c ∈ w.state.outbound, w.state.localEpoch < c.epoch) ∧
    Ascends (w.installed.map Install.epoch) w.state.peerEpoch ∧
    Ascends (localEpochs w.applied) w.state.localEpoch ∧
    ∀ call, w.Owned m call → ok w call →
      w.state.peerEpoch ≤ (w.step C m call).state.peerEpoch ∧
      w.state.localEpoch ≤ (w.step C m call).state.localEpoch := by
  obtain ⟨hp, hl⟩ := h.epochs_ahead h3
  refine ⟨hp.ahead.proposals, hp.ahead.candidates, hp.ahead.cohort, hl.ahead, hp.ascends,
    hl.ascends, ?_⟩
  intro call ho hok
  have hnext : Reach C m secret ok (w.step C m call) := .next h ⟨ho, hok⟩
  obtain ⟨hp', hl'⟩ := hnext.epochs_ahead h3
  constructor
  · have := hp'.ascends
    simp only [step, List.map_append] at this
    exact hp.ascends.mono this
  · have := hl'.ascends
    simp only [step, localEpochs, List.filterMap_append] at this
    exact hl.ascends.mono this

end World

/-- The peer is promoted at epochs 1 and 3. -/
def twoPeerEpochs : List Scenario.Input :=
  [.update 1 1 1000, .probe 1 1 11 1000, .response 1 1 11 4000 2000, .call .takeResults,
    .call (.expire 15000), .update 2 3 15000, .probe 2 3 12 15000, .response 2 3 12 18000 16000]

theorem epochs_monotone_two_promotions :
    (Scenario.play twoPeerEpochs).state.peerEpoch = 3 ∧ Ascends [3, 1] 3 := by
  have hr : World.Reach .sample Scenario.manager Scenario.secret (fun _ _ => True)
      (Scenario.play twoPeerEpochs) := Scenario.reach _ (by decide +kernel)
  have h := World.epochs_monotone (by decide +kernel) hr
  have hfacts : (Scenario.play twoPeerEpochs).state.peerEpoch = 3 ∧
      (Scenario.play twoPeerEpochs).installed.map Install.epoch = [3, 1] := by decide +kernel
  refine ⟨hfacts.1, ?_⟩
  rw [← hfacts.2, ← hfacts.1]
  exact h.2.2.2.2.1

end R8.Mobility
