import R8Protocol.Mobility.Records
import R8Protocol.Mobility.Scenario

/-! The outcome of a settlement: one result for each member, and one promotion at most. -/
namespace R8.Mobility

open FixedWidth Wire Session

namespace State

variable {s : State} {members : List Proposal} {profile : Byte} {scid nowMs epoch : U64}

/-- The record that wins is the proven one of the least proven member, if there is one. -/
def Elected (s : State) (members : List Proposal) : Option Candidate → Prop
  | some c => c ∈ s.candidates ∧ c.state = .proven ∧ (∃ p ∈ members, p.candidateId = c.candidateId) ∧
      ∀ p ∈ members, s.isProven p.candidateId → c.candidateId ≤ p.candidateId
  | none => ∀ p ∈ members, ¬ s.isProven p.candidateId

/-- The result a member is sent: promoted, beaten or timed out. -/
def memberResult (s : State) (winner : Option Candidate) (p : Proposal) : Byte :=
  if winner.any (·.candidateId = p.candidateId) then 1
  else if winner.isSome ∧ s.hasCandidate p.candidateId then 2
  else 3

/-- The entry a member is sent and remembered by, with the response its record was proven by. -/
def memberEntry (s : State) (winner : Option Candidate) (nowMs : U64) (p : Proposal) : ResultEntry :=
  resultEntry p (s.memberResult winner p) nowMs
    ((s.candidates.find? (·.candidateId = p.candidateId)).bind (·.response))

/-- The peer where the winner puts it. -/
def installed (s : State) (epoch nowMs : U64) : Option Candidate → State
  | some c => { s with
      peerEpoch := epoch
      peerLoc := c.loc
      currentBinding := c.binding
      oldBinding := some (s.currentBinding, satAdd nowMs 10000) }
  | none => s

/-- What a settlement is to leave behind. -/
def settled (s : State) (epoch : U64) (members : List Proposal) (winner : Option Candidate)
    (nowMs : U64) : State :=
  { s.installed epoch nowMs winner with
    results := s.results ++ members.map (s.memberEntry winner nowMs)
    emittedResults := s.emittedResults ++ members.map fun p => (s.memberEntry winner nowMs p).bytes
    proposals := s.proposals.filter fun p => epoch < p.epoch
    candidates := s.candidates.filter fun c => epoch < c.epoch
    frozenCohort := none }

theorem cohortResult_eq (s : State) (winner : Option Candidate) (p : Proposal) :
    s.cohortResult (winner.map (·.candidateId)) p = s.memberResult winner p := by
  cases winner with
  | none => simp [cohortResult, memberResult]
  | some c => simp [cohortResult, memberResult]

theorem outcomesAt_eq {winner : Option Candidate}
    (hw : s.cohortWinner members = winner.map (·.candidateId)) :
    s.outcomesAt members nowMs = members.map (s.memberEntry winner nowMs) := by
  rw [outcomesAt, hw]
  apply List.map_congr_left
  intro p _
  rw [cohortOutcome, cohortResult_eq]
  rfl

/-- Records of distinct ids are told apart by them. -/
theorem elected_of_find {c : Candidate} (hnodup : (s.candidates.map (·.candidateId)).Nodup)
    (hw : s.cohortWinner members = some c.candidateId)
    (hc : s.candidates.find? (·.candidateId = c.candidateId) = some c) :
    s.Elected members (some c) := by
  obtain ⟨hmember, hproven, hleast⟩ := cohortWinner_eq_some hw
  have hmem := List.mem_of_find?_eq_some hc
  obtain ⟨d, hd, hid, hstate⟩ := isProven_iff.mp hproven
  obtain rfl : d = c := List.inj_on_of_nodup_map hnodup hd hmem hid
  exact ⟨hmem, hstate, hmember, hleast⟩

/-- A settlement that goes through leaves exactly what it is to leave. -/
theorem settle_eq (hp : profile ≠ 3) (hnodup : (s.candidates.map (·.candidateId)).Nodup)
    (h : (s.settleFrozenCohort profile scid nowMs).2 = true) :
    ∃ epoch members winner, s.frozenCohort = some (epoch, members) ∧ s.Elected members winner ∧
      (s.settleFrozenCohort profile scid nowMs).1 = s.settled epoch members winner nowMs := by
  rcases settle_cases s profile scid nowMs with ⟨he, -⟩ | ⟨epoch, members, hs, hw, -, he⟩ |
    ⟨epoch, members, c, hs, hw, hpromotes, he⟩
  · simp [he] at h
  · refine ⟨epoch, members, none, hs.frozen, ?_, ?_⟩
    · intro p hp
      simpa using cohortWinner_eq_none.mp hw p hp
    · have houtcomes : s.outcomesAt members nowMs = members.map (s.memberEntry none nowMs) :=
        outcomesAt_eq hw
      simp only [he, houtcomes, finishCohort, settled, installed, List.map_map]
      rfl
  · obtain ⟨members', hs', -, hc⟩ := promotes_eq_some.mp hpromotes
    refine ⟨epoch, members, some c, hs.frozen, elected_of_find hnodup hw hc, ?_⟩
    have houtcomes : s.outcomesAt members nowMs = members.map (s.memberEntry (some c) nowMs) :=
      outcomesAt_eq hw
    have hkept := filter_markCohort (s.promotePeer c epoch nowMs) c.candidateId epoch
    simp only [he, houtcomes, promote, if_neg hp, finishCohort, hkept]
    simp only [settled, installed, markCohort, promotePeer, OLD_BINDING_GRACE_MS, List.map_map]
    rfl

theorem settle_refused (h : (s.settleFrozenCohort profile scid nowMs).2 = false) :
    (s.settleFrozenCohort profile scid nowMs).1 = s := by
  rcases settle_cases s profile scid nowMs with ⟨he, -⟩ | ⟨_, _, -, -, -, he⟩ |
    ⟨_, _, _, -, -, -, he⟩
  · rw [he]
  · simp [he] at h
  · simp [he] at h

end State

/-- The members of a frozen cohort are of its epoch and told apart by their ids. -/
structure Cohorts (s : State) : Prop where
  records : Records s.proposals s.candidates
  members : ∀ f ms, s.frozenCohort = some (f, ms) →
    (ms.map (·.candidateId)).Nodup ∧ ∀ p ∈ ms, p.epoch = f

theorem Cohorts.proposalsOf {s : State} (hr : Records s.proposals s.candidates) (f : U64) :
    ((Manager.proposalsOf s f).map (·.candidateId)).Nodup ∧
      ∀ p ∈ Manager.proposalsOf s f, p.epoch = f := by
  refine ⟨hr.ids.sublist (List.filter_sublist.map _), ?_⟩
  intro p hp
  simpa using (List.mem_filter.mp hp).2

namespace World

variable {C : Crypto} {m : Manager} {secret : Bytes 32} {ok : World → Call → Prop} {w : World}
  {call : Call}

theorem cohorts_apply {s : State} {binding : ObservedBinding} {nowMs : U64} {a : Action}
    (ha : Applicable C m s binding nowMs a) (hn : ∀ s, a.attempts s = []) (h : Cohorts s) :
    Cohorts (m.applyAction s a) := by
  refine ⟨records_apply ha hn h.records, ?_⟩
  cases a with
  | commitLocal epoch loc b promote r =>
    obtain ⟨-, -, -, ⟨-, -, hf, -⟩ | ⟨-, -, -, hf, -⟩⟩ := commitLocal_lists m s epoch loc b promote r
    · intro f ms hfrozen
      exact h.members f ms (hf.symm.trans hfrozen)
    · intro f ms hfrozen
      simp [Manager.applyAction, hf] at hfrozen
  | prove id epoch slot at_ r => exact absurd (hn s) (by simp [Action.attempts])
  | cacheProposal => exact h.members
  | challenge => exact h.members
  | existingChallenge => exact h.members
  | respond => exact h.members
  | none => exact h.members

theorem cohorts_phases : Phases C m ok fun _ s => Cohorts s where
  older _ _ _ _ h := h
  quiet _ s s' hq h := by
    refine ⟨by rw [hq.proposals, hq.candidates]; exact h.records, ?_⟩
    rw [hq.frozenCohort]
    exact h.members
  wipe _ _ _ := ⟨.nil, by simp [State.wipe]⟩
  apply _ _ _ _ _ _ hn _ _ _ ha h := cohorts_apply ha hn h
  prove w _ p id epoch slot at_ r _ _ _ _ _ _ _ h := by
    obtain ⟨cohort, he, hcohort⟩ := markProven_eq w.state id epoch slot r
    rw [he]
    refine ⟨h.records.prove id epoch slot r, ?_⟩
    intro f ms hf
    rcases hcohort with ⟨-, -, hnew⟩ | ⟨-, hold⟩
    · obtain ⟨rfl, rfl⟩ := Prod.mk.inj (Option.some.inj (hnew.symm.trans hf))
      exact Cohorts.proposalsOf h.records epoch
    · exact h.members f ms (hold.symm.trans hf)
  mark w nowMs _ _ h := by
    obtain ⟨cs, ts, hf, he⟩ := State.expireMark_eq w.state nowMs
    rw [he]
    exact ⟨h.records.faded hf, h.members⟩
  settle w call a _ _ h := by
    refine ⟨records_settle h.records m.profile m.scid a.nowMs, ?_⟩
    intro f ms hf
    rw [(State.settle_frozen hf).1] at hf
    exact h.members f ms hf
  sweep w nowMs _ _ _ h := by
    obtain ⟨rs, ts, he, -⟩ := State.expireSweep_eq
      ((w.state.expireMark nowMs).settleFrozenCohort m.profile m.scid nowMs).1 nowMs
      w.state.frozenMembers
    have hkept := h.records.proposals (List.filter_sublist
      (p := fun p : Proposal => decide (nowMs < p.expiryMs)))
    rw [State.expireBeforeSettle, he]
    refine ⟨hkept.candidates _, ?_⟩
    intro f ms hf
    rcases State.cohortAfter_eq_some hf with ⟨hold, -⟩ | ⟨hnew, -⟩
    · exact h.members f ms hold
    · obtain ⟨-, rfl, -⟩ := State.freshCohort_eq_some hnew
      refine ⟨hkept.ids.sublist (List.filter_sublist.map _), ?_⟩
      intro p hp
      simpa using (List.mem_filter.mp hp).2

theorem Reach.cohorts (h : Reach C m secret ok w) : Cohorts w.state := by
  refine cohorts_phases.reach ?_ h
  intro w hs
  obtain ⟨⟨c, owner, rb, ownerId, hnew, -⟩, -⟩ := hs
  rw [(newInner_eq_ok hnew).1]
  exact ⟨.nil, by simp [initialState]⟩

/-- The states a settlement is called in: those between calls, and those inside one. -/
def Settling (C : Crypto) (m : Manager) (secret : Bytes 32) (s : State) : Prop :=
  ∃ w, Reach C m secret (fun _ _ => True) w ∧
    (s = w.state ∨ ∃ call, w.Owned m call ∧ ∃ a ∈ w.attempts m call, s = a.before)

/-- One of them is the state in which an expiry first tries. -/
theorem Settling.expireMark (hr : Reach C m secret (fun _ _ => True) w)
    (hopen : w.state.closed = false) (nowMs : U64) :
    Settling C m secret (w.state.expireMark nowMs) := by
  refine ⟨w, hr, .inr ⟨.expire nowMs, trivial, ⟨w.state.expireMark nowMs, nowMs⟩, ?_, rfl⟩⟩
  simp [attempts, State.expireAttempts, hopen]

theorem Settling.cohorts {s : State} (h : Settling C m secret s) : Cohorts s := by
  obtain ⟨w, hr, rfl | ⟨call, ho, a, ha, rfl⟩⟩ := h
  · exact hr.cohorts
  · have hphases : Phases C m (fun _ _ => True) fun _ s => Cohorts s := cohorts_phases
    exact hphases.attempt hr.cohorts trivial (step_effect hr.fresh ho) a ha

end World

/-- A settlement elects the least proven member, gives every member one result, drops what is not
above the epoch and changes nothing else; one that is refused changes nothing. -/
theorem settlement_outcome {C : Crypto} {m : Manager} {secret : Bytes 32} {s : State}
    (h : World.Settling C m secret s) (h3 : m.profile ≠ 3)
    (hnodup : (s.candidates.map (·.candidateId)).Nodup) (nowMs : U64) :
    let r := s.settleFrozenCohort m.profile m.scid nowMs
    (r.2 = false → r.1 = s) ∧
    (r.2 = true → ∃ epoch members winner, s.frozenCohort = some (epoch, members) ∧
      (members.map (·.candidateId)).Nodup ∧ (∀ p ∈ members, p.epoch = epoch) ∧
      s.Elected members winner ∧ r.1 = s.settled epoch members winner nowMs) := by
  refine ⟨State.settle_refused, ?_⟩
  intro hr
  obtain ⟨epoch, members, winner, hf, hw, he⟩ := State.settle_eq h3 hnodup hr
  obtain ⟨hids, hepoch⟩ := h.cohorts.members epoch members hf
  exact ⟨epoch, members, winner, hf, hids, hepoch, hw, he⟩

/-- Two members of one epoch are probed and one answers; the other's challenge runs out. -/
def oneAnswered : List Scenario.Input :=
  [.update 1 1 1000, .update 2 1 1000, .probe 1 1 11 1000, .probe 2 1 12 1000,
    .response 2 1 12 4000 1100]

theorem settlement_outcome_one_answered :
    let s := (Scenario.play oneAnswered).state.expireMark 4000
    (s.settleFrozenCohort 0 5 4000).2 = true ∧ ∃ epoch members winner,
      s.frozenCohort = some (epoch, members) ∧ s.Elected members winner ∧
      (s.settleFrozenCohort 0 5 4000).1 = s.settled epoch members winner 4000 := by
  intro s
  obtain ⟨hopen, hnodup, hok⟩ : (Scenario.play oneAnswered).state.closed = false ∧
      (s.candidates.map (·.candidateId)).Nodup ∧ (s.settleFrozenCohort 0 5 4000).2 = true := by
    decide +kernel
  have hr : World.Reach .sample Scenario.manager Scenario.secret (fun _ _ => True)
      (Scenario.play oneAnswered) := Scenario.reach _ (by decide +kernel)
  obtain ⟨epoch, members, winner, hf, -, -, hw, he⟩ :=
    (settlement_outcome (.expireMark hr hopen 4000) (by decide) hnodup 4000).2 hok
  exact ⟨hok, epoch, members, winner, hf, hw, he⟩

end R8.Mobility
