import R8Protocol.Mobility.Manager

/-! What one settlement attempt does: when it goes through, whom it installs, what it leaves. -/
namespace R8.Mobility

open FixedWidth Wire Session

namespace State

variable {s : State} {members : List Proposal} {id : CandidateId} {profile : Byte}
  {scid nowMs epoch : U64} {c : Candidate}

theorem isProven_iff : s.isProven id = true ↔
    ∃ c ∈ s.candidates, c.candidateId = id ∧ c.state = .proven := by
  simp [isProven]

theorem hasProposal_iff : s.hasProposal id = true ↔ ∃ p ∈ s.proposals, p.candidateId = id := by
  simp [hasProposal]

theorem hasCandidate_iff : s.hasCandidate id = true ↔ ∃ c ∈ s.candidates, c.candidateId = id := by
  simp [hasCandidate]

theorem mem_cohortIds :
    id ∈ (((members.filter fun p => s.isProven p.candidateId).map (·.candidateId)).insertionSort
      (· ≤ ·)) ↔ ∃ p ∈ members, s.isProven p.candidateId = true ∧ p.candidateId = id := by
  simp [List.mem_insertionSort, and_assoc]

/-- The winner is the least proven member. -/
theorem cohortWinner_eq_some (h : s.cohortWinner members = some id) :
    (∃ p ∈ members, p.candidateId = id) ∧ s.isProven id = true ∧
      ∀ p ∈ members, s.isProven p.candidateId = true → id ≤ p.candidateId := by
  obtain ⟨rest, hl⟩ := List.head?_eq_some_iff.mp h
  have hsorted := List.pairwise_insertionSort (· ≤ ·)
    ((members.filter fun p => s.isProven p.candidateId).map (·.candidateId))
  rw [hl, List.pairwise_cons] at hsorted
  obtain ⟨p, hp, hproven, rfl⟩ := mem_cohortIds.mp (hl ▸ List.mem_cons_self)
  refine ⟨⟨p, hp, rfl⟩, hproven, ?_⟩
  intro q hq hqp
  have hmem := mem_cohortIds.mpr ⟨q, hq, hqp, rfl⟩
  rw [hl, List.mem_cons] at hmem
  rcases hmem with he | hmem
  · exact he.ge
  · exact hsorted.1 _ hmem

theorem cohortWinner_eq_none :
    s.cohortWinner members = none ↔ ∀ p ∈ members, s.isProven p.candidateId = false := by
  rw [cohortWinner, List.head?_eq_none_iff, ← List.length_eq_zero_iff,
    List.length_insertionSort, List.length_map, List.length_eq_zero_iff, List.filter_eq_nil_iff]
  simp

theorem find_of_cohortWinner (h : s.cohortWinner members = some id) :
    ∃ c, s.candidates.find? (·.candidateId = id) = some c := by
  obtain ⟨c, hc, hid, -⟩ := isProven_iff.mp (cohortWinner_eq_some h).2.1
  refine Option.isSome_iff_exists.mp (List.find?_isSome.mpr ⟨c, hc, ?_⟩)
  simp [hid]

/-- The tests an attempt has to pass. -/
structure Settles (s : State) (epoch : U64) (members : List Proposal) : Prop where
  frozen : s.frozenCohort = some (epoch, members)
  ready : s.cohortWaits members = false
  room : s.emittedResults.length + members.length ≤ RESULT_CACHE_SLOTS

/-- The record an attempt installs, with the epoch of its cohort. -/
def promotes (s : State) : Option (U64 × Candidate) :=
  match s.frozenCohort with
  | none => none
  | some (epoch, members) =>
    if s.cohortWaits members ∨ RESULT_CACHE_SLOTS < s.emittedResults.length + members.length then
      none
    else
      match s.cohortWinner members with
      | none => none
      | some id => (s.candidates.find? (·.candidateId = id)).map fun c => (epoch, c)

theorem promotes_eq_some : s.promotes = some (epoch, c) ↔ ∃ members, Settles s epoch members ∧
    s.cohortWinner members = some c.candidateId ∧
    s.candidates.find? (·.candidateId = c.candidateId) = some c := by
  constructor
  · intro h
    simp only [promotes] at h
    split at h
    · simp at h
    · rename_i e members hf
      split at h
      · simp at h
      · rename_i hn
        push Not at hn
        split at h
        · simp at h
        · rename_i id hw
          obtain ⟨c', hc', he⟩ := Option.map_eq_some_iff.mp h
          obtain ⟨rfl, rfl⟩ := Prod.mk.inj he
          have hid : c'.candidateId = id := by simpa using List.find?_some hc'
          subst hid
          exact ⟨members, ⟨hf, by simpa using hn.1, hn.2⟩, hw, hc'⟩
  · rintro ⟨members, ⟨hf, hr, hroom⟩, hw, hc⟩
    simp [promotes, hf, hr, Nat.not_lt.mpr hroom, hw, hc]

theorem promotes_mem (h : s.promotes = some (epoch, c)) : c ∈ s.candidates := by
  obtain ⟨members, -, -, hc⟩ := promotes_eq_some.mp h
  exact List.mem_of_find?_eq_some hc

def outcomesAt (s : State) (members : List Proposal) (nowMs : U64) : List ResultEntry :=
  members.map (s.cohortOutcome (s.cohortWinner members) nowMs)

@[simp] theorem length_outcomesAt : (s.outcomesAt members nowMs).length = members.length := by
  simp [outcomesAt]

/-- An attempt does nothing, closes a cohort without a winner, or installs its winner. -/
theorem settle_cases (s : State) (profile : Byte) (scid nowMs : U64) :
    (s.settleFrozenCohort profile scid nowMs = (s, false) ∧ s.promotes = none ∧
      ∀ epoch members, ¬ Settles s epoch members) ∨
    (∃ epoch members, Settles s epoch members ∧ s.cohortWinner members = none ∧
      s.promotes = none ∧ s.settleFrozenCohort profile scid nowMs =
        (s.finishCohort epoch (s.outcomesAt members nowMs), true)) ∨
    (∃ epoch members c, Settles s epoch members ∧ s.cohortWinner members = some c.candidateId ∧
      s.promotes = some (epoch, c) ∧ s.settleFrozenCohort profile scid nowMs =
        (s.promote profile scid nowMs epoch c (s.outcomesAt members nowMs), true)) := by
  cases hf : s.frozenCohort with
  | none =>
    left
    refine ⟨by simp [settleFrozenCohort, hf], by simp [promotes, hf], ?_⟩
    intro epoch members h
    simp [h.frozen] at hf
  | some cohort =>
    obtain ⟨epoch, members⟩ := cohort
    by_cases hblocked : s.cohortWaits members = true ∨
        RESULT_CACHE_SLOTS < s.emittedResults.length + members.length
    · left
      refine ⟨?_, by simp [promotes, hf, hblocked], ?_⟩
      · rcases hblocked with h | h <;> simp [settleFrozenCohort, hf, h]
      · intro epoch' members' h
        obtain ⟨rfl, rfl⟩ := Prod.mk.inj (Option.some.inj (hf.symm.trans h.frozen))
        rcases hblocked with hb | hb
        · simp [h.ready] at hb
        · exact absurd h.room (by omega)
    · push Not at hblocked
      have hs : Settles s epoch members := ⟨hf, by simpa using hblocked.1, hblocked.2⟩
      right
      cases hw : s.cohortWinner members with
      | none =>
        left
        refine ⟨epoch, members, hs, hw, ?_, ?_⟩
        · simp [promotes, hf, hw]
        · simp [settleFrozenCohort, hf, hs.ready, Nat.not_lt.mpr hs.room, hw, outcomesAt]
      | some id =>
        right
        obtain ⟨c, hc⟩ := find_of_cohortWinner hw
        have hid : c.candidateId = id := by simpa using List.find?_some hc
        subst hid
        refine ⟨epoch, members, c, hs, hw, promotes_eq_some.mpr ⟨members, hs, hw, hc⟩, ?_⟩
        simp [settleFrozenCohort, hf, hs.ready, Nat.not_lt.mpr hs.room, hw, hc, outcomesAt]

theorem admitProfile3_eq (s : State) (scid : U64) (binding : ObservedBinding)
    (localLoc peerLoc : Loc) (epoch : U64) :
    ∃ owner admission admitted, s.admitProfile3 scid binding localLoc peerLoc epoch = { s with
      profile3Owner := owner
      profile3Admission := admission
      profile3Slot1Admitted := admitted } := by
  unfold admitProfile3
  split
  · exact ⟨_, _, _, rfl⟩
  · split <;> exact ⟨_, _, _, rfl⟩

/-- The fields no settlement writes. -/
structure SameFrame (s s' : State) : Prop where
  generation : s'.generation = s.generation
  closed : s'.closed = s.closed
  localEpoch : s'.localEpoch = s.localEpoch
  localLoc : s'.localLoc = s.localLoc

theorem promote_frame (s : State) (outcomes : List ResultEntry) :
    SameFrame s (s.promote profile scid nowMs epoch c outcomes) := by
  unfold promote
  split
  · obtain ⟨owner, admission, admitted, he⟩ :=
      admitProfile3_eq s scid c.binding s.localLoc c.loc epoch
    simp only [he]
    split <;> exact ⟨rfl, rfl, rfl, rfl⟩
  · exact ⟨rfl, rfl, rfl, rfl⟩

theorem settle_frame (s : State) (profile : Byte) (scid nowMs : U64) :
    SameFrame s (s.settleFrozenCohort profile scid nowMs).1 := by
  rcases settle_cases s profile scid nowMs with ⟨he, -⟩ | ⟨_, _, -, -, -, he⟩ |
    ⟨_, _, _, -, -, -, he⟩ <;> rw [he]
  · exact ⟨rfl, rfl, rfl, rfl⟩
  · exact ⟨rfl, rfl, rfl, rfl⟩
  · exact promote_frame s _

/-- The caches after an ordinary settlement: everything up to the epoch is gone. -/
structure ClosedCohort (s s' : State) (epoch : U64) (outcomes : List ResultEntry) : Prop where
  proposals : s'.proposals = s.proposals.filter fun p => epoch < p.epoch
  candidates : s'.candidates = s.candidates.filter fun c => epoch < c.epoch
  results : s'.results = s.results ++ outcomes
  emittedResults : s'.emittedResults = s.emittedResults ++ outcomes.map (·.bytes)
  frozenCohort : s'.frozenCohort = none
  outbound : s'.outbound = s.outbound
  candidateSecret : s'.candidateSecret = s.candidateSecret

/-- The caches after an admission: nothing is left but the results owed to the peer. -/
structure AdmittedCohort (s' : State) (outcomes : List ResultEntry) : Prop where
  proposals : s'.proposals = []
  candidates : s'.candidates = []
  results : s'.results = []
  emittedResults : s'.emittedResults = outcomes.map (·.bytes)
  frozenCohort : s'.frozenCohort = none
  outbound : s'.outbound = []
  candidateSecret : s'.candidateSecret = none
  admitted : s'.profile3Slot1Admitted = true

/-- Marking touches only records that the end of the settlement removes. -/
theorem filter_markCohort (s : State) (winner : CandidateId) (epoch : U64) :
    ((s.markCohort winner epoch).candidates.filter fun c => epoch < c.epoch) =
      s.candidates.filter fun c => epoch < c.epoch := by
  simp only [markCohort]
  induction s.candidates with
  | nil => rfl
  | cons c cs ih =>
    simp only [List.map_cons, List.filter_cons, ih]
    by_cases hc : c.epoch = epoch <;> simp [hc]

theorem finishCohort_closed (s : State) (epoch : U64) (outcomes : List ResultEntry) :
    ClosedCohort s (s.finishCohort epoch outcomes) epoch outcomes :=
  ⟨rfl, rfl, rfl, rfl, rfl, rfl, rfl⟩

theorem finishCohort_markCohort_closed (s : State) (winner : CandidateId) (epoch : U64)
    (outcomes : List ResultEntry) :
    ClosedCohort s ((s.markCohort winner epoch).finishCohort epoch outcomes) epoch outcomes :=
  ⟨rfl, filter_markCohort s winner epoch, rfl, rfl, rfl, rfl, rfl⟩

theorem promote_caches (s : State) (outcomes : List ResultEntry) :
    ClosedCohort s (s.promote profile scid nowMs epoch c outcomes) epoch outcomes ∨
      profile = 3 ∧ AdmittedCohort (s.promote profile scid nowMs epoch c outcomes) outcomes := by
  unfold promote
  split
  · rename_i h3
    obtain ⟨owner, admission, admitted, he⟩ :=
      admitProfile3_eq s scid c.binding s.localLoc c.loc epoch
    simp only [he]
    split
    · rename_i ha
      exact .inr ⟨h3, rfl, rfl, rfl, rfl, rfl, rfl, rfl, ha⟩
    · have h := finishCohort_markCohort_closed { s with
        profile3Owner := owner
        profile3Admission := admission
        profile3Slot1Admitted := admitted } c.candidateId epoch outcomes
      exact .inl ⟨h.proposals, h.candidates, h.results, h.emittedResults, h.frozenCohort,
        h.outbound, h.candidateSecret⟩
  · have h := finishCohort_markCohort_closed (s.promotePeer c epoch nowMs) c.candidateId epoch
      outcomes
    exact .inl ⟨h.proposals, h.candidates, h.results, h.emittedResults, h.frozenCohort,
      h.outbound, h.candidateSecret⟩

/-- The caches after an attempt. -/
theorem settle_caches (s : State) (profile : Byte) (scid nowMs : U64) :
    (s.settleFrozenCohort profile scid nowMs).1 = s ∨
    ∃ epoch members, Settles s epoch members ∧
      (ClosedCohort s (s.settleFrozenCohort profile scid nowMs).1 epoch
        (s.outcomesAt members nowMs) ∨
      profile = 3 ∧ AdmittedCohort (s.settleFrozenCohort profile scid nowMs).1
        (s.outcomesAt members nowMs)) := by
  rcases settle_cases s profile scid nowMs with ⟨he, -⟩ | ⟨epoch, members, hs, -, -, he⟩ |
    ⟨epoch, members, c, hs, -, -, he⟩ <;> rw [he]
  · exact .inl rfl
  · exact .inr ⟨epoch, members, hs, .inl (finishCohort_closed s epoch _)⟩
  · exact .inr ⟨epoch, members, hs, promote_caches s _⟩

theorem settle_sublist (s : State) (profile : Byte) (scid nowMs : U64) :
    (s.settleFrozenCohort profile scid nowMs).1.proposals.Sublist s.proposals ∧
      (s.settleFrozenCohort profile scid nowMs).1.candidates.Sublist s.candidates := by
  rcases settle_caches s profile scid nowMs with he | ⟨f, members, -, he | ⟨-, he⟩⟩
  · rw [he]
    exact ⟨List.Sublist.refl _, List.Sublist.refl _⟩
  · rw [he.proposals, he.candidates]
    exact ⟨List.filter_sublist, List.filter_sublist⟩
  · rw [he.proposals, he.candidates]
    exact ⟨List.nil_sublist _, List.nil_sublist _⟩

/-- A cohort that is still frozen after an attempt waits for a record or for room. -/
theorem settle_frozen {members : List Proposal}
    (h : (s.settleFrozenCohort profile scid nowMs).1.frozenCohort = some (epoch, members)) :
    (s.settleFrozenCohort profile scid nowMs).1 = s ∧ (s.cohortWaits members = true ∨
      RESULT_CACHE_SLOTS < s.emittedResults.length + members.length) := by
  rcases settle_cases s profile scid nowMs with ⟨he, -, hno⟩ | ⟨f, ms, -, -, -, he⟩ |
    ⟨f, ms, c, -, -, -, he⟩
  · rw [he] at h ⊢
    refine ⟨rfl, ?_⟩
    by_contra hn
    push Not at hn
    exact hno epoch members ⟨h, by simpa using hn.1, hn.2⟩
  · rw [he] at h
    simp [(finishCohort_closed s f _).frozenCohort] at h
  · rw [he] at h
    rcases promote_caches s (s.outcomesAt ms nowMs) with hc | ⟨-, hc⟩
    · exact absurd (hc.frozenCohort.symm.trans h) (by simp)
    · exact absurd (hc.frozenCohort.symm.trans h) (by simp)

/-- Once a cohort is settled or has no proposal left, no cached proposal is of its epoch. -/
theorem settle_gone {members kept : List Proposal} {p : Proposal}
    (h : s.frozenCohort = some (epoch, members))
    (hgone : ∀ f ms, (s.settleFrozenCohort profile scid nowMs).1.frozenCohort = some (f, ms) →
      ∀ p ∈ kept, p.epoch ≠ f) (hp : p ∈ kept)
    (hmem : p ∈ (s.settleFrozenCohort profile scid nowMs).1.proposals) : p.epoch ≠ epoch := by
  rcases settle_caches s profile scid nowMs with he | ⟨f, ms, hs, he | ⟨-, he⟩⟩
  · exact hgone epoch members (by rw [he, h]) p hp
  · obtain ⟨rfl, -⟩ := Prod.mk.inj (Option.some.inj (h.symm.trans hs.frozen))
    rw [he.proposals] at hmem
    exact (by simpa using (List.mem_filter.mp hmem).2 : epoch < p.epoch).ne'
  · simp [he.proposals] at hmem

/-- The bindings of profiles 0 to 2 after an attempt. -/
theorem settle_bindings (s : State) (scid nowMs : U64) (hp : profile ≠ 3) :
    let s' := (s.settleFrozenCohort profile scid nowMs).1
    s'.profile3Admission = s.profile3Admission ∧
    ((s.promotes = none ∧ s'.currentBinding = s.currentBinding ∧ s'.oldBinding = s.oldBinding ∧
      s'.peerEpoch = s.peerEpoch) ∨
    ∃ epoch c, s.promotes = some (epoch, c) ∧ s'.currentBinding = c.binding ∧
      s'.oldBinding = some (s.currentBinding, satAdd nowMs OLD_BINDING_GRACE_MS) ∧
      s'.peerEpoch = epoch) := by
  intro s'
  rcases settle_cases s profile scid nowMs with ⟨he, hn, -⟩ | ⟨epoch, members, -, -, hn, he⟩ |
    ⟨epoch, members, c, -, -, hc, he⟩
  · simp [s', he, hn]
  · simp [s', he, hn, finishCohort]
  · simp [s', he, hc, promote, hp, finishCohort, markCohort, promotePeer]

/-- The admission of profile 3 after an attempt. -/
theorem settle_admission (s : State) (scid nowMs : U64) :
    let s' := (s.settleFrozenCohort 3 scid nowMs).1
    s'.currentBinding = s.currentBinding ∧ s'.oldBinding = s.oldBinding ∧
    (((s.promotes = none ∨ s.profile3Slot1Admitted = true ∨ s.profile3Owner = none) ∧
      s'.profile3Admission = s.profile3Admission ∧
      s'.profile3Slot1Admitted = s.profile3Slot1Admitted ∧ s'.profile3Owner = s.profile3Owner) ∨
    ∃ epoch c owner, s.promotes = some (epoch, c) ∧ s.profile3Slot1Admitted = false ∧
      s.profile3Owner = some owner ∧ s'.profile3Admission = some ⟨owner, scid, owner.policyId,
        c.binding, s.localLoc, c.loc, epoch⟩ ∧ s'.profile3Slot1Admitted = true ∧
      s'.profile3Owner = none) := by
  intro s'
  rcases settle_cases s 3 scid nowMs with ⟨he, hn, -⟩ | ⟨epoch, members, -, -, hn, he⟩ |
    ⟨epoch, members, c, -, -, hc, he⟩
  · simp [s', he, hn]
  · simp [s', he, hn, finishCohort]
  · cases ha : s.profile3Slot1Admitted with
    | true => simp [s', he, promote, admitProfile3, ha, finishAdmission]
    | false =>
      cases ho : s.profile3Owner with
      | none => simp [s', he, promote, admitProfile3, ha, ho, finishCohort, markCohort]
      | some owner => simp [s', he, hc, promote, admitProfile3, ha, ho, finishAdmission]

end State

end R8.Mobility
