import R8Protocol.Mobility.Records
import R8Protocol.Mobility.Scenario

/-! What is left of the caches once everything in them has expired. -/
namespace R8.Mobility

open FixedWidth Wire Session

namespace State

/-- Every expiry stored in the three caches has passed. -/
def AllExpired (s : State) (nowMs : U64) : Prop :=
  (∀ p ∈ s.proposals, p.expiryMs ≤ nowMs) ∧ (∀ c ∈ s.candidates, c.expiryMs ≤ nowMs) ∧
    ∀ o ∈ s.outbound, o.expiryMs ≤ nowMs

/-- `expire`, `take_results`, `expire`. -/
def drained (m : Manager) (s : State) (nowMs : U64) : State :=
  (s.expire m nowMs).takeResults.1.expire m nowMs

def Recovered (s : State) : Prop :=
  s.proposals = [] ∧ s.candidates = [] ∧ s.outbound = [] ∧ s.frozenCohort = none

/-- Every proven record is removed by the settlement of the frozen cohort: that settlement has room
for its results, and it covers the record's epoch or ends in an admission. -/
def ProvenCovered (m : Manager) (s : State) : Prop :=
  ∀ c ∈ s.candidates, c.state = .proven → ∃ f members, s.frozenCohort = some (f, members) ∧
    s.emittedResults.length + members.length ≤ RESULT_CACHE_SLOTS ∧
    (c.epoch ≤ f ∨ m.profile = 3 ∧ ∃ p ∈ members, s.isProven p.candidateId = true)

variable {m : Manager} {s : State} {nowMs : U64}

/-- Past every expiry the marked records are all terminal, so no cohort waits. -/
theorem expireMark_terminal (h : s.AllExpired nowMs) (hlive : ∀ c ∈ s.candidates,
    c.state ≠ .promoted) : ∀ c ∈ (s.expireMark nowMs).candidates,
      c.state = .proven ∨ c.state = .failed := by
  obtain ⟨cs, ts, hf, he⟩ := expireMembers_eq (s.failChallenged nowMs) nowMs s.frozenMembers
  intro c hc
  rw [expireMark, he] at hc
  obtain ⟨a, ha, hfa⟩ := hf.mem hc
  obtain ⟨b, hb, rfl⟩ := List.mem_map.mp ha
  have hexp := h.2.1 b hb
  have hstate := hlive b hb
  have hterm : ∀ d : Candidate, (d.state = .proven ∨ d.state = .failed) → d.Fades c →
      c.state = .proven ∨ c.state = .failed := by
    rintro d hd (rfl | ⟨ht, -⟩)
    · exact hd
    · simp [CandidateState.terminal, hd] at ht
  refine hterm _ ?_ hfa
  by_cases hch : b.state = .challenged
  · simp [hexp, hch, timeOut]
  · simp only [hch, and_false, if_false]
    cases hb' : b.state <;> simp_all

/-- After an expiry past every stored expiry only records are left. -/
theorem expireSettled_expired (h : s.AllExpired nowMs) :
    (s.expireSettled m nowMs).proposals = [] ∧ (s.expireSettled m nowMs).outbound = [] ∧
    (s.expireSettled m nowMs).frozenCohort = none ∧
    (s.expireSettled m nowMs).candidates =
      ((s.expireMark nowMs).settleFrozenCohort m.profile m.scid nowMs).1.candidates.filter
        fun c => c.state ≠ .failed ∨ s.frozenMembers.any (·.candidateId = c.candidateId) := by
  obtain ⟨cs, ts, hf, hmark⟩ := expireMark_eq s nowMs
  have hsub : (∀ p ∈ ((s.expireMark nowMs).settleFrozenCohort m.profile m.scid nowMs).1.proposals,
      p.expiryMs ≤ nowMs) ∧
      ∀ o ∈ ((s.expireMark nowMs).settleFrozenCohort m.profile m.scid nowMs).1.outbound,
        o.expiryMs ≤ nowMs := by
    rcases settle_caches (s.expireMark nowMs) m.profile m.scid nowMs with he |
      ⟨f, members, -, he | ⟨-, he⟩⟩
    · rw [he, hmark]
      exact ⟨h.1, h.2.2⟩
    · rw [he.proposals, he.outbound, hmark]
      exact ⟨fun p hp => h.1 p (List.mem_filter.mp hp).1, h.2.2⟩
    · simp [he.proposals, he.outbound]
  obtain ⟨rs, ts', hsweep, -⟩ := expireSweep_eq
    ((s.expireMark nowMs).settleFrozenCohort m.profile m.scid nowMs).1 nowMs s.frozenMembers
  have hps : (((s.expireMark nowMs).settleFrozenCohort m.profile m.scid nowMs).1.proposals.filter
      fun p => nowMs < p.expiryMs) = [] := by
    simpa using hsub.1
  have hout : (((s.expireMark nowMs).settleFrozenCohort m.profile m.scid nowMs).1.outbound.filter
      fun o => nowMs < o.expiryMs) = [] := by
    simpa using hsub.2
  rw [hps, hout] at hsweep
  have hnone : (s.expireBeforeSettle m nowMs).frozenCohort = none := by
    rw [expireBeforeSettle, hsweep]
    simp [cohortAfter_nil]
  have hsame : s.expireSettled m nowMs = s.expireBeforeSettle m nowMs := by
    rw [expireSettled, settleFrozenCohort, hnone]
  rw [hsame]
  refine ⟨?_, ?_, hnone, ?_⟩ <;> rw [expireBeforeSettle, hsweep]

theorem wipe_recovered (s : State) : s.wipe.Recovered := ⟨rfl, rfl, rfl, rfl⟩

/-- With its owner still there, a profile-3 promotion empties the records. -/
theorem promote_admits {scid epoch : U64} {c : Candidate} {outcomes : List ResultEntry}
    (h : s.profile3Slot1Admitted = true ∨ s.profile3Owner.isSome = true) :
    (s.promote 3 scid nowMs epoch c outcomes).candidates = [] := by
  cases ha : s.profile3Slot1Admitted with
  | true => simp [promote, admitProfile3, ha, finishAdmission]
  | false =>
    obtain ⟨owner, ho⟩ := Option.isSome_iff_exists.mp (h.resolve_left (by simp [ha]))
    simp [promote, admitProfile3, ha, ho, finishAdmission]

/-- A settlement that goes through removes a record it covers. -/
theorem settle_removes {f : U64} {members : List Proposal} {c : Candidate}
    (howner : m.profile = 3 → s.profile3Slot1Admitted = true ∨ s.profile3Owner.isSome = true)
    (hs : Settles s f members) (hcov : c.epoch ≤ f ∨
      m.profile = 3 ∧ ∃ p ∈ members, s.isProven p.candidateId = true) :
    c ∉ (s.settleFrozenCohort m.profile m.scid nowMs).1.candidates := by
  intro hc
  have hclosed : ∀ s' outcomes, ClosedCohort s s' f outcomes → c ∈ s'.candidates → f < c.epoch := by
    intro s' outcomes h hc
    rw [h.candidates] at hc
    simpa using (List.mem_filter.mp hc).2
  rcases settle_cases s m.profile m.scid nowMs with ⟨-, -, hno⟩ | ⟨f', ms, hs', hw, -, he⟩ |
    ⟨f', ms, d, hs', -, -, he⟩
  · exact hno f members hs
  · obtain ⟨rfl, rfl⟩ := Prod.mk.inj (Option.some.inj (hs.frozen.symm.trans hs'.frozen))
    rw [he] at hc
    have hlt := hclosed _ _ (finishCohort_closed s f _) hc
    rcases hcov with hle | ⟨-, p, hp, hproven⟩
    · exact absurd hle (not_le.mpr hlt)
    · simp [cohortWinner_eq_none.mp hw p hp] at hproven
  · obtain ⟨rfl, rfl⟩ := Prod.mk.inj (Option.some.inj (hs.frozen.symm.trans hs'.frozen))
    rw [he] at hc
    by_cases h3 : m.profile = 3
    · rw [h3, promote_admits (howner h3)] at hc
      simp at hc
    · have hle := hcov.resolve_right fun h => h3 h.1
      rcases promote_caches s (s.outcomesAt members nowMs) with hcaches | ⟨h, -⟩
      · exact absurd hle (not_le.mpr (hclosed _ _ hcaches hc))
      · exact h3 h

theorem expireMark_settles {f : U64} {members : List Proposal} (h : s.AllExpired nowMs)
    (hlive : ∀ c ∈ s.candidates, c.state ≠ .promoted)
    (hf : s.frozenCohort = some (f, members))
    (hroom : s.emittedResults.length + members.length ≤ RESULT_CACHE_SLOTS) :
    Settles (s.expireMark nowMs) f members := by
  have hterm := expireMark_terminal h hlive
  refine ⟨?_, ?_, ?_⟩
  · obtain ⟨cs, ts, -, hmark⟩ := expireMark_eq s nowMs
    rw [hmark]
    exact hf
  · simp only [cohortWaits, List.any_eq_false, decide_eq_true_eq, not_and, List.any_eq_true,
      not_exists, not_not]
    intro p _ _ c hc _
    simpa [CandidateState.terminal] using hterm c hc
  · obtain ⟨cs, ts, -, hmark⟩ := expireMark_eq s nowMs
    rw [hmark]
    exact hroom

theorem isProven_expireMark {id : CandidateId} :
    (s.expireMark nowMs).isProven id = true ↔ s.isProven id = true := by
  obtain ⟨cs, ts, hf, hmark⟩ := expireMark_eq s nowMs
  rw [hmark, isProven_iff, isProven_iff]
  constructor
  · rintro ⟨c, hc, hid, hs⟩
    exact ⟨c, hf.mem_proven hc hs, hid, hs⟩
  · rintro ⟨c, hc, hid, hs⟩
    exact ⟨c, hf.proven_mem hc hs, hid, hs⟩

/-- With every proven record covered, only failed ones are left after the first settlement. -/
theorem covered_removed (h : s.AllExpired nowMs) (hlive : ∀ c ∈ s.candidates, c.state ≠ .promoted)
    (howner : m.profile = 3 → s.profile3Slot1Admitted = true ∨ s.profile3Owner.isSome = true)
    (hcov : ProvenCovered m s) :
    ∀ c ∈ ((s.expireMark nowMs).settleFrozenCohort m.profile m.scid nowMs).1.candidates,
      c.state = .failed := by
  intro c hc
  have hmem := (settle_sublist _ _ _ _).2.subset hc
  refine (expireMark_terminal h hlive c hmem).resolve_left ?_
  intro hproven
  obtain ⟨cs, ts, hf, hmark⟩ := expireMark_eq s nowMs
  have hold : c ∈ s.candidates := by
    rw [hmark] at hmem
    exact hf.mem_proven hmem hproven
  obtain ⟨f, members, hfrozen, hroom, hc'⟩ := hcov c hold hproven
  refine settle_removes ?_ (expireMark_settles h hlive hfrozen hroom) ?_ hc
  · rw [hmark]
    exact howner
  · rcases hc' with hle | ⟨h3, p, hp, hpp⟩
    · exact .inl hle
    · exact .inr ⟨h3, p, hp, isProven_expireMark.mpr hpp⟩

/-- A proven record that nothing covers survives the first settlement. -/
theorem uncovered_survives {c : Candidate} (hc : c ∈ s.candidates) (hp : c.state = .proven)
    (hcov : ∀ f members, s.frozenCohort = some (f, members) →
      s.emittedResults.length + members.length ≤ RESULT_CACHE_SLOTS →
      f < c.epoch ∧ (m.profile = 3 → ∀ p ∈ members, s.isProven p.candidateId = false)) :
    c ∈ ((s.expireMark nowMs).settleFrozenCohort m.profile m.scid nowMs).1.candidates := by
  obtain ⟨cs, ts, hf, hmark⟩ := expireMark_eq s nowMs
  have hmem : c ∈ (s.expireMark nowMs).candidates := by
    rw [hmark]
    exact hf.proven_mem hc hp
  rcases settle_cases (s.expireMark nowMs) m.profile m.scid nowMs with ⟨he, -⟩ |
    ⟨f, members, hs, -, -, he⟩ | ⟨f, members, d, hs, hw, -, he⟩
  · rwa [he]
  · have hlt := (hcov f members (by simpa [hmark] using hs.frozen)
      (by simpa [hmark] using hs.room)).1
    rw [he, (finishCohort_closed _ f _).candidates]
    exact List.mem_filter.mpr ⟨hmem, by simpa using hlt⟩
  · obtain ⟨hlt, hnone⟩ := hcov f members (by simpa [hmark] using hs.frozen)
      (by simpa [hmark] using hs.room)
    rw [he]
    rcases promote_caches (s.expireMark nowMs) ((s.expireMark nowMs).outcomesAt members nowMs) with
      hclosed | ⟨h3, -⟩
    · rw [hclosed.candidates]
      exact List.mem_filter.mpr ⟨hmem, by simpa using hlt⟩
    · obtain ⟨⟨p, hpm, hpid⟩, hproven, -⟩ := cohortWinner_eq_some hw
      rw [← hpid, isProven_expireMark, hnone h3 p hpm] at hproven
      exact absurd hproven (by simp)

/-- The records after an expiry are old ones, with their expiries. -/
theorem expireSettled_expiry (h : s.AllExpired nowMs) :
    ∀ c ∈ (s.expireSettled m nowMs).candidates, c.expiryMs ≤ nowMs := by
  intro c hc
  rw [(expireSettled_expired h).2.2.2] at hc
  have hmem := (settle_sublist _ _ _ _).2.subset (List.mem_filter.mp hc).1
  obtain ⟨cs, ts, hf, hmark⟩ := expireMark_eq s nowMs
  rw [hmark] at hmem
  obtain ⟨a, ha, hfa⟩ := hf.mem hmem
  rw [hfa.key.2.2.2.2.2]
  exact h.2.1 a ha

/-- Without a cohort, failed records are dropped and the caches are empty. -/
theorem failed_recovered (h : s.AllExpired nowMs) (hf : s.frozenCohort = none)
    (hfailed : ∀ c ∈ s.candidates, c.state = .failed) : (s.expireSettled m nowMs).Recovered := by
  obtain ⟨hps, hout, hfrozen, hcs⟩ := expireSettled_expired (m := m) h
  refine ⟨hps, ?_, hout, hfrozen⟩
  rw [hcs, List.filter_eq_nil_iff]
  intro c hc
  have hmem := (settle_sublist _ _ _ _).2.subset hc
  obtain ⟨cs, ts, hfd, hmark⟩ := expireMark_eq s nowMs
  rw [hmark] at hmem
  obtain ⟨a, ha, hfa⟩ := hfd.mem hmem
  have hstate : c.state = .failed := by
    rcases hfa with rfl | ⟨-, rfl⟩
    · exact hfailed _ ha
    · rfl
  simp [hstate, frozenMembers, hf]

theorem Recovered.of_generation (h : s.Recovered) (g : U64) :
    ({ s with generation := g } : State).Recovered := ⟨h.1, h.2.1, h.2.2.1, h.2.2.2⟩

/-- The state between the two expiries. -/
theorem expire_takeResults (hc : s.closed = false) (h : s.AllExpired nowMs) :
    ((s.expire m nowMs).takeResults.1.closed = false ∧
      (s.expire m nowMs).takeResults.1.AllExpired nowMs ∧
      (s.expire m nowMs).takeResults.1.frozenCohort = none ∧
      (s.expire m nowMs).takeResults.1.candidates = (s.expireSettled m nowMs).candidates ∧
      (s.expire m nowMs).takeResults.1.generation.val ≤ s.generation.val + 1) ∨
    checkedAdd s.generation 1 = none ∧ (s.expire m nowMs).takeResults.1.closed = true ∧
      (s.expire m nowMs).takeResults.1.Recovered := by
  obtain ⟨hps, hout, hfrozen, -⟩ := expireSettled_expired (m := m) h
  have hexpiry := expireSettled_expiry (m := m) h
  have hopen := (expireSettled_frame m s nowMs).closed.trans hc
  rcases expire_settled (m := m) s nowMs hc with ⟨g, hle, he⟩ | ⟨hnone, he⟩
  · rw [he]
    generalize s.expireSettled m nowMs = t at *
    refine .inl ⟨hopen, ⟨?_, hexpiry, ?_⟩, hfrozen, rfl, hle⟩
    · simp [takeResults, hps]
    · simp [takeResults, hout]
  · rw [he]
    exact .inr ⟨hnone, rfl, rfl, rfl, rfl, rfl⟩

theorem drained_of_covered (hc : s.closed = false) (h : s.AllExpired nowMs)
    (hlive : ∀ c ∈ s.candidates, c.state ≠ .promoted)
    (howner : m.profile = 3 → s.profile3Slot1Admitted = true ∨ s.profile3Owner.isSome = true)
    (hcov : ProvenCovered m s) : (s.drained m nowMs).Recovered := by
  have hcs := (expireSettled_expired (m := m) h).2.2.2
  have hremoved := covered_removed h hlive howner hcov
  unfold drained
  rcases expire_takeResults (m := m) hc h with ⟨hopen, hexp, hfrozen, hsame, -⟩ |
    ⟨-, hclosed, hrec⟩
  · have hfailed : ∀ c ∈ (s.expire m nowMs).takeResults.1.candidates, c.state = .failed := by
      intro c hmem
      rw [hsame, hcs] at hmem
      exact hremoved c (List.mem_filter.mp hmem).1
    generalize (s.expire m nowMs).takeResults.1 = t at *
    rcases expire_settled (m := m) t nowMs hopen with ⟨g, -, he⟩ | ⟨-, he⟩ <;> rw [he]
    · exact (failed_recovered hexp hfrozen hfailed).of_generation g
    · exact wipe_recovered _
  · generalize (s.expire m nowMs).takeResults.1 = t at *
    simpa [expire, hclosed] using hrec

/-- With generations to spare, a proven record that nothing covers is still there in the end. -/
theorem drained_of_uncovered {c : Candidate} (hc : s.closed = false) (h : s.AllExpired nowMs)
    (hg : s.generation.val + 2 ≤ u64Max.val) (hmem : c ∈ s.candidates) (hp : c.state = .proven)
    (hcov : ∀ f members, s.frozenCohort = some (f, members) →
      s.emittedResults.length + members.length ≤ RESULT_CACHE_SLOTS →
      f < c.epoch ∧ (m.profile = 3 → ∀ p ∈ members, s.isProven p.candidateId = false)) :
    c ∈ (s.drained m nowMs).candidates := by
  have hkept : c ∈ (s.expireSettled m nowMs).candidates := by
    rw [(expireSettled_expired (m := m) h).2.2.2]
    exact List.mem_filter.mpr ⟨uncovered_survives hmem hp hcov, by simp [hp]⟩
  rw [u64Max_val] at hg
  unfold drained
  rcases expire_takeResults (m := m) hc h with ⟨hopen, hexp, hfrozen, hsame, hgen⟩ | ⟨hnone, -⟩
  · rw [← hsame] at hkept
    generalize (s.expire m nowMs).takeResults.1 = t at *
    rcases expire_settled (m := m) t nowMs hopen with ⟨g, -, he⟩ | ⟨hnone, -⟩
    · have hcs := (expireSettled_expired (m := m) hexp).2.2.2
      have hlast : c ∈ (t.expireSettled m nowMs).candidates := by
        rw [hcs]
        refine List.mem_filter.mpr ⟨uncovered_survives hkept hp ?_, by simp [hp]⟩
        intro f members hf
        simp [hfrozen] at hf
      rw [he]
      exact hlast
    · have := checkedAdd_eq_none.mp hnone
      omega
  · have := checkedAdd_eq_none.mp hnone
    omega

end State

/-- A profile-3 manager keeps its owner until slot one is admitted. -/
def OwnerKept (m : Manager) (s : State) : Prop :=
  s.closed = false → m.profile = 3 → s.profile3Slot1Admitted = true ∨ s.profile3Owner.isSome = true

namespace World

variable {C : Crypto} {m : Manager} {secret : Bytes 32} {ok : World → Call → Prop} {w : World}

theorem ownerKept_settle {s : State} (h : OwnerKept m s) (scid nowMs : U64) :
    OwnerKept m (s.settleFrozenCohort m.profile scid nowMs).1 := by
  intro hc h3
  have hold := h ((State.settle_frame s m.profile scid nowMs).closed.symm.trans hc) h3
  rw [h3]
  obtain ⟨-, -, ⟨-, -, ha, ho⟩ | ⟨_, _, _, -, -, -, -, ha, -⟩⟩ :=
    State.settle_admission s scid nowMs
  · rwa [ha, ho]
  · exact .inl ha

theorem ownerKept_commitLocal {s : State} (h : OwnerKept m s) (epoch : U64) (loc : Loc)
    (b : ObservedBinding) (promote : Bool) (r : ResultEntry) :
    OwnerKept m (m.commitLocal s epoch loc b promote r) := by
  intro hc h3
  have hopen : s.closed = false := (commitLocal_lists m s epoch loc b promote r).1.symm.trans hc
  cases promote with
  | false => simpa [Manager.commitLocal] using h hopen h3
  | true =>
    have hold := h hopen h3
    cases ha : s.profile3Slot1Admitted with
    | true => simp [Manager.commitLocal, Manager.promoteLocal, State.admitProfile3, h3, ha,
        Manager.clearProfile3]
    | false =>
      obtain ⟨owner, ho⟩ := Option.isSome_iff_exists.mp (hold.resolve_left (by simp [ha]))
      simp [Manager.commitLocal, Manager.promoteLocal, State.admitProfile3, h3, ha, ho,
        Manager.clearProfile3]

theorem ownerKept_phases : Phases C m ok fun _ s => OwnerKept m s where
  older _ _ _ _ h := h
  quiet _ s s' hq h := by
    rw [OwnerKept, hq.closed, hq.profile3Slot1Admitted, hq.profile3Owner]
    exact h
  wipe _ _ _ hc := by simp [State.wipe] at hc
  apply w _ p _ _ _ hn _ _ _ _ h := by
    cases hact : p.transition.action with
    | commitLocal epoch loc b promote r => exact ownerKept_commitLocal h epoch loc b promote r
    | prove id epoch slot at_ r => exact absurd (hn w.state) (by simp [hact, Action.attempts])
    | cacheProposal | challenge | existingChallenge | respond | none => exact h
  prove w _ p id epoch slot at_ r _ _ _ _ _ _ _ h := by
    obtain ⟨cohort, he, -⟩ := markProven_eq w.state id epoch slot r
    rw [he]
    exact h
  mark w nowMs _ _ h := by
    obtain ⟨cs, ts, -, he⟩ := State.expireMark_eq w.state nowMs
    rw [he]
    exact h
  settle w call a _ _ h := ownerKept_settle h m.scid a.nowMs
  sweep w nowMs _ _ _ h := by
    obtain ⟨rs, ts, he, -⟩ := State.expireSweep_eq
      ((w.state.expireMark nowMs).settleFrozenCohort m.profile m.scid nowMs).1 nowMs
      w.state.frozenMembers
    rw [State.expireBeforeSettle, he]
    exact h

theorem Reach.ownerKept (h : Reach C m secret ok w) : OwnerKept m w.state := by
  refine ownerKept_phases.reach ?_ h
  intro w hs _ h3
  obtain ⟨⟨c, owner, rb, ownerId, hnew, -⟩, -⟩ := hs
  obtain ⟨he, -, -, ho⟩ := newInner_eq_ok hnew
  rw [he]
  exact .inr (ho h3)

end World

/-- In every reachable state the caches are recovered when every proven record is covered by the
frozen cohort, and while the generation counter lasts only then. -/
theorem capacity_recovered_iff_proven_covered {C : Crypto} {m : Manager} {secret : Bytes 32}
    {w : World} {nowMs : U64} (h : World.Reach C m secret (fun _ _ => True) w)
    (hopen : w.state.closed = false) (hexp : w.state.AllExpired nowMs) :
    (State.ProvenCovered m w.state → (w.state.drained m nowMs).Recovered) ∧
    (w.state.generation.val + 2 ≤ u64Max.val →
      ((w.state.drained m nowMs).Recovered ↔ State.ProvenCovered m w.state)) := by
  have hforward := State.drained_of_covered hopen hexp h.records.live (h.ownerKept hopen)
  refine ⟨hforward, ?_⟩
  intro hg
  refine ⟨?_, hforward⟩
  intro hrec c hc hp
  by_contra hcov
  push Not at hcov
  have hkept := State.drained_of_uncovered hopen hexp hg hc hp (m := m) (by
    intro f members hf hroom
    obtain ⟨hlt, hnone⟩ := hcov f members hf hroom
    exact ⟨hlt, fun h3 p hpm => by simpa using hnone h3 p hpm⟩)
  simp [hrec.2.1] at hkept

/-- A lower epoch is proven while a higher proposal is cached, which then expires unproven. -/
def lowerEpochProven : List Scenario.Input :=
  [.update 1 1 1000, .update 2 2 1000, .probe 1 1 11 1000, .response 1 1 11 4000 2000]

/-- Of two candidates of one epoch that are challenged, one answers: it is proven, and the cohort
frozen on it still waits for the other. -/
def halfAnswered : List Scenario.Input :=
  [.update 1 1 1000, .update 2 1 1000, .probe 1 1 11 1000, .probe 2 1 12 1000,
    .response 2 1 12 4000 2000]

theorem capacity_recovered_iff_proven_covered_unanswered :
    (∃ c ∈ (Scenario.play halfAnswered).state.candidates, c.state = .proven) ∧
    ((Scenario.play halfAnswered).state.drained Scenario.manager 6000).Recovered := by
  have hr : World.Reach .sample Scenario.manager Scenario.secret (fun _ _ => True)
      (Scenario.play halfAnswered) := Scenario.reach _ (by decide +kernel)
  have hexp : (Scenario.play halfAnswered).state.AllExpired 6000 := by
    unfold State.AllExpired
    decide +kernel
  have hcov : State.ProvenCovered Scenario.manager (Scenario.play halfAnswered).state := by
    have hfrozen : ((Scenario.play halfAnswered).state.frozenCohort.any fun x =>
        (Scenario.play halfAnswered).state.emittedResults.length + x.2.length ≤ RESULT_CACHE_SLOTS ∧
          ∀ c ∈ (Scenario.play halfAnswered).state.candidates, c.epoch ≤ x.1) = true := by
      decide +kernel
    simp only [Option.any_eq_true, decide_eq_true_eq] at hfrozen
    obtain ⟨⟨f, members⟩, hf, hroom, hle⟩ := hfrozen
    exact fun c hc _ => ⟨f, members, hf, hroom, .inl (hle c hc)⟩
  exact ⟨by decide +kernel,
    (capacity_recovered_iff_proven_covered hr (by decide +kernel) hexp).1 hcov⟩

/-- The proven record of the lower epoch survives both its proposal and every expiry. -/
theorem proven_record_orphaned :
    ¬ ∀ (C : Crypto) (m : Manager) (secret : Bytes 32) (w : World) (nowMs : U64),
      World.Reach C m secret (fun _ _ => True) w → w.state.closed = false →
      w.state.AllExpired nowMs → (w.state.drained m nowMs).Recovered := by
  intro h
  have hr : World.Reach .sample Scenario.manager Scenario.secret (fun _ _ => True)
      (Scenario.play lowerEpochProven) := Scenario.reach _ (by decide +kernel)
  have hexp : (Scenario.play lowerEpochProven).state.AllExpired 6000 := by
    unfold State.AllExpired
    decide +kernel
  have hrec := h _ _ _ _ 6000 hr (by decide +kernel) hexp
  exact absurd hrec.2.1 (by decide +kernel)

end R8.Mobility
