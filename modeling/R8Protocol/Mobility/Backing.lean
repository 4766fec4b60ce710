import R8Protocol.Mobility.Timeouts

/-! The result slot a cached proposal is owed, and what keeps it free from one call to the next. -/
namespace R8.Mobility

open FixedWidth Wire Session

/-- The id has an open challenge. -/
def State.isChallenged (s : State) (id : CandidateId) : Bool :=
  s.candidates.any fun c => c.candidateId = id ∧ c.state = .challenged

theorem State.isChallenged_iff {s : State} {id : CandidateId} : s.isChallenged id = true ↔
    ∃ c ∈ s.candidates, c.candidateId = id ∧ c.state = .challenged := by
  simp [State.isChallenged]

/-- A record of the proposal has failed, and no result is stored for it. -/
def State.Unanswered (s : State) (p : Proposal) : Prop :=
  (∃ c ∈ s.candidates, c.candidateId = p.candidateId ∧ c.state = .failed) ∧
    ∀ r ∈ s.results, r.candidateId ≠ p.candidateId

/-- No two winnerless results are left beside a live proposal of a later epoch. -/
def Attempt.Spares (a : Attempt) : Prop :=
  ∀ cohort ∈ a.before.frozenCohort, a.before.cohortWaits cohort.2 = false →
    a.before.cohortWinner cohort.2 = none →
    cohort.2.length ≤ 1 ∨ ∀ p ∈ a.before.proposals, cohort.1 < p.epoch → p.expiryMs ≤ a.nowMs

instance (a : Attempt) : Decidable a.Spares :=
  -- Not the instance that enumerates every cohort.
  Option.decidableForallMem a.before.frozenCohort

/-- What every state keeps. A proposal that can be probed, or has been, finds at most one result in
its way, and no proposal waits for a sibling that was answered already. -/
structure Backed (t : U64) (s : State) : Prop where
  records : Records s.proposals s.candidates
  deadline : ∀ c ∈ s.candidates, ∀ p ∈ s.proposals, p.candidateId = c.candidateId →
    c.expiryMs ≤ satAdd p.expiryMs CHALLENGE_EXPIRY_MS
  outlived : ∀ p ∈ s.proposals, ∀ r ∈ s.results, r.Answers p →
    satAdd p.expiryMs CHALLENGE_EXPIRY_MS ≤ r.expiryMs
  pair : s.proposals.length = PROPOSAL_SLOTS →
    (∀ r ∈ s.results, ∃ p ∈ s.proposals, r.Answers p) ∧ (s.results.map (·.candidateId)).Nodup
  held : ∀ p ∈ s.proposals, t < p.expiryMs →
    foreign p s.results ≤ 1 ∨ ∃ o, s.oldBinding = some o ∧ p.expiryMs ≤ o.2
  challenged : ∀ p ∈ s.proposals, t < p.expiryMs → s.isChallenged p.candidateId = true →
    foreign p s.results ≤ 1
  siblings : ∀ p ∈ s.proposals, ∀ q ∈ s.proposals, p.epoch = q.epoch →
    (∃ r ∈ s.results, r.Answers p) → ∃ r ∈ s.results, r.Answers q
  early : s.frozenCohort = none → ∀ p ∈ s.proposals, s.isProven p.candidateId = true →
    (∃ q ∈ s.proposals, p.epoch < q.epoch) ∧ ∀ r ∈ s.results, ¬ r.Answers p

/-- A cohort on which a settlement is tried. -/
structure Due (s : State) (f : U64) (ms : List Proposal) : Prop where
  room : s.emittedResults.length + ms.length ≤ RESULT_CACHE_SLOTS
  epoch : ∀ p ∈ ms, p.epoch = f
  cached : ∃ p ∈ s.proposals, p.epoch = f
  proven : ∃ c ∈ s.candidates, c.epoch = f ∧ c.state = .proven
  recorded : ∀ p ∈ ms, ∀ c ∈ s.candidates, c.candidateId = p.candidateId → c.epoch = f
  later : ∀ p ∈ s.proposals, f < p.epoch → s.isProven p.candidateId = false ∧
    (s.isChallenged p.candidateId = true → foreign p s.results + ms.length ≤ 1)
  vacant : (∃ p ∈ s.proposals, f < p.epoch) →
    s.results = [] ∨ ∃ p ∈ ms, s.isProven p.candidateId = true

/-- A cohort between two calls: one record is proven, one is still open, and there is no third. -/
structure Waiting (s : State) (f : U64) (ms : List Proposal) : Prop where
  slots : ms.length ≤ RESULT_CACHE_SLOTS
  epoch : ∀ p ∈ ms, p.epoch = f
  cached : ∃ p ∈ s.proposals, p.epoch = f
  proven : ∃ c ∈ s.candidates, c.state = .proven
  full : s.candidates.length = LIVE_CANDIDATES_MAX
  same : ∀ c ∈ s.candidates, c.epoch = f
  vacant : (∃ p ∈ s.proposals, f < p.epoch) →
    s.results = [] ∨ ∃ p ∈ ms, s.isProven p.candidateId = true

section

variable {s s' : State} {t t' nowMs f : U64} {ms : List Proposal} {m : Manager}

/-- Beside a proven record and an open one there is no third, and none has failed. -/
theorem Records.two {c d : Candidate} (h : Records s.proposals s.candidates)
    (hc : c ∈ s.candidates) (hopen : c.state.terminal = false) (hd : d ∈ s.candidates)
    (hproven : d.state = .proven) :
    s.candidates.length = LIVE_CANDIDATES_MAX ∧ ∀ a ∈ s.candidates, a = c ∨ a = d := by
  have hne : c ≠ d := by
    rintro rfl
    simp [CandidateState.terminal, hproven] at hopen
  have hle := h.candidates_le
  constructor
  · have hsub : [c, d].Subperm s.candidates :=
      List.subperm_of_subset (by simp [hne]) (by simp [hc, hd])
    have hge := hsub.length_le
    simp only [LIVE_CANDIDATES_MAX, List.length_cons, List.length_nil] at hle hge ⊢
    omega
  · intro a ha
    by_contra hno
    push Not at hno
    have hsub : [a, c, d].Subperm s.candidates :=
      List.subperm_of_subset (by simp [hno, hne]) (by simp [ha, hc, hd])
    have hge := hsub.length_le
    simp only [LIVE_CANDIDATES_MAX, List.length_cons, List.length_nil] at hle hge
    omega

/-- A record of a cached proposal is of its epoch. -/
theorem Backed.epoch_of_id {p : Proposal} {c : Candidate} (h : Backed t s) (hp : p ∈ s.proposals)
    (hc : c ∈ s.candidates) (hid : c.candidateId = p.candidateId) : p.epoch = c.epoch :=
  (h.records.cached c hc p hp hid.symm).2.1

theorem Backed.mono (h : Backed t s) (ht : t ≤ t') : Backed t' s where
  records := h.records
  deadline := h.deadline
  outlived := h.outlived
  pair := h.pair
  held p hp hlive := h.held p hp (lt_of_le_of_lt ht hlive)
  challenged p hp hlive := h.challenged p hp (lt_of_le_of_lt ht hlive)
  siblings := h.siblings
  early := h.early

/-- The records may fail, be proven or go, and a cohort be frozen. -/
theorem Backed.candidates {cs : List Candidate} (h : Backed t s) (ts : List (CandidateId × U64))
    (cohort : Option (U64 × List Proposal)) (hr : Records s.proposals cs)
    (hold : ∀ c ∈ cs, ∃ a ∈ s.candidates, a.candidateId = c.candidateId ∧ a.expiryMs = c.expiryMs ∧
      (c.state = .challenged → a.state = .challenged))
    (hearly : cohort = none → ∀ p ∈ s.proposals,
      (∃ c ∈ cs, c.candidateId = p.candidateId ∧ c.state = .proven) →
      (∃ q ∈ s.proposals, p.epoch < q.epoch) ∧ ∀ r ∈ s.results, ¬ r.Answers p) :
    Backed t { s with candidates := cs, tombstones := ts, frozenCohort := cohort } where
  records := hr
  deadline c hc p hp hid := by
    obtain ⟨a, ha, haid, hexp, -⟩ := hold c hc
    rw [← hexp]
    exact h.deadline a ha p hp (hid.trans haid.symm)
  outlived := h.outlived
  pair := h.pair
  held := h.held
  challenged p hp hlive hch := by
    obtain ⟨c, hc, hid, hs⟩ := State.isChallenged_iff.mp hch
    obtain ⟨a, ha, haid, -, hstate⟩ := hold c hc
    exact h.challenged p hp hlive (State.isChallenged_iff.mpr ⟨a, ha, haid.trans hid, hstate hs⟩)
  siblings := h.siblings
  early hnone p hp hproven := hearly hnone p hp (State.isProven_iff.mp hproven)

theorem Backed.faded {cs : List Candidate} (h : Backed t s) (ts : List (CandidateId × U64))
    (hf : Faded s.candidates cs) : Backed t { s with candidates := cs, tombstones := ts } := by
  refine h.candidates ts s.frozenCohort (h.records.faded hf) ?_ ?_
  · intro c hc
    obtain ⟨a, ha, hfa⟩ := hf.mem hc
    refine ⟨a, ha, hfa.key.1.symm, hfa.key.2.2.2.2.2.symm, ?_⟩
    rintro hstate
    rcases hfa with rfl | ⟨-, rfl⟩
    · exact hstate
    · simp [State.timeOut] at hstate
  · rintro hnone p hp ⟨c, hc, hid, hs⟩
    exact h.early hnone p hp (State.isProven_iff.mpr ⟨c, hf.mem_proven hc hs, hid, hs⟩)

theorem Waiting.faded {cs : List Candidate} {ts : List (CandidateId × U64)} (h : Waiting s f ms)
    (hf : Faded s.candidates cs) : Waiting { s with candidates := cs, tombstones := ts } f ms where
  slots := h.slots
  epoch := h.epoch
  cached := h.cached
  proven := by
    obtain ⟨c, hc, hs⟩ := h.proven
    exact ⟨c, hf.proven_mem hc hs, hs⟩
  full := hf.length_eq.trans h.full
  same c hc := by
    obtain ⟨a, ha, hfa⟩ := hf.mem hc
    rw [hfa.key.2.2.1]
    exact h.same a ha
  vacant hlater := by
    rcases h.vacant hlater with hnil | ⟨p, hp, hproven⟩
    · exact .inl hnil
    · obtain ⟨c, hc, hid, hs⟩ := State.isProven_iff.mp hproven
      exact .inr ⟨p, hp, State.isProven_iff.mpr ⟨c, hf.proven_mem hc hs, hid, hs⟩⟩

/-- While a cohort waits no later proposal has a record. -/
theorem Waiting.unrecorded {p : Proposal} (h : Waiting s f ms) (hb : Backed t s)
    (hp : p ∈ s.proposals) (hlater : f < p.epoch) :
    ∀ c ∈ s.candidates, c.candidateId ≠ p.candidateId := by
  intro c hc hid
  rw [hb.epoch_of_id hp hc hid, h.same c hc] at hlater
  exact absurd hlater (lt_irrefl f)

theorem Waiting.due (h : Waiting s f ms) (hb : Backed t s) (hem : s.emittedResults = []) :
    Due s f ms where
  room := by simpa [hem] using h.slots
  epoch := h.epoch
  cached := h.cached
  proven := by
    obtain ⟨c, hc, hs⟩ := h.proven
    exact ⟨c, hc, h.same c hc, hs⟩
  recorded _ _ c hc _ := h.same c hc
  later p hp hlater := by
    have hno := h.unrecorded hb hp hlater
    refine ⟨?_, ?_⟩
    · rw [Bool.eq_false_iff]
      intro hproven
      obtain ⟨c, hc, hid, -⟩ := State.isProven_iff.mp hproven
      exact hno c hc hid
    · intro hch
      obtain ⟨c, hc, hid, -⟩ := State.isChallenged_iff.mp hch
      exact absurd hid (hno c hc)
  vacant := h.vacant

/-- A due cohort that is not settled waits for a record of its own epoch. -/
theorem Due.waiting (h : Due s f ms) (hb : Backed t s) (hw : s.cohortWaits ms = true) :
    Waiting s f ms := by
  simp only [State.cohortWaits, List.any_eq_true, decide_eq_true_eq] at hw
  obtain ⟨p, hp, -, c, hc, hid, hopen⟩ := hw
  obtain ⟨d, hd, hde, hproven⟩ := h.proven
  have hroom := h.room
  obtain ⟨hfull, honly⟩ := hb.records.two hc (by simpa using hopen) hd hproven
  refine ⟨by omega, h.epoch, h.cached, ⟨d, hd, hproven⟩, hfull, ?_, h.vacant⟩
  intro a ha
  rcases honly a ha with rfl | rfl
  · exact h.recorded p hp a hc hid
  · exact hde

/-- A proposal that outlives a settlement is alone, and what is stored for its cohort is foreign. -/
theorem Due.closed {rs : List ResultEntry} (h : Due s f ms) (hb : Backed t s)
    (hr : Records s'.proposals s'.candidates) (hc : State.ClosedCohort s s' f rs)
    (hlen : rs.length = ms.length) (hrs : ∀ r ∈ rs, r.epoch = f)
    (hheld : ∀ p ∈ s.proposals, f < p.epoch → t < p.expiryMs →
      foreign p s'.results ≤ 1 ∨ ∃ o, s'.oldBinding = some o ∧ p.expiryMs ≤ o.2) :
    Backed t s' := by
  obtain ⟨x, hx, hxf⟩ := h.cached
  have hps : ∀ p ∈ s'.proposals, p ∈ s.proposals ∧ f < p.epoch := by
    intro p hp
    rw [hc.proposals, List.mem_filter, decide_eq_true_eq] at hp
    exact hp
  have hcs : ∀ c ∈ s'.candidates, c ∈ s.candidates := by
    intro c hmem
    rw [hc.candidates] at hmem
    exact List.mem_of_mem_filter hmem
  have hproven : ∀ id, s'.isProven id = true → s.isProven id = true := by
    intro id hid
    obtain ⟨c, hmem, hid, hs⟩ := State.isProven_iff.mp hid
    exact State.isProven_iff.mpr ⟨c, hcs c hmem, hid, hs⟩
  have hnew : ∀ p ∈ s'.proposals, ∀ r ∈ s'.results, r.Answers p → r ∈ s.results := by
    intro p hp r hmem hans
    rw [hc.results, List.mem_append] at hmem
    rcases hmem with hmem | hmem
    · exact hmem
    · have hlater := (hps p hp).2
      rw [← hans.2.1, hrs r hmem] at hlater
      exact absurd hlater (lt_irrefl f)
  -- The cohort's own proposal is gone, so one slot at most is still taken.
  have hone : ∀ p ∈ s'.proposals, ∀ q ∈ s'.proposals, p = q := by
    intro p hp q hq
    have hne : ∀ a ∈ s'.proposals, a ≠ x := by
      rintro a ha rfl
      exact absurd (hps a ha).2 (by simp [hxf])
    exact ((eq_or_eq_of_two hb.records.proposals_le hx (hps q hq).1 (hne q hq).symm
      (hps p hp).1).resolve_left (hne p hp))
  refine ⟨hr, ?_, ?_, ?_, ?_, ?_, ?_, ?_⟩
  · exact fun c hmem p hp => hb.deadline c (hcs c hmem) p (hps p hp).1
  · exact fun p hp r hmem hans => hb.outlived p (hps p hp).1 r (hnew p hp r hmem hans) hans
  · intro htwo
    have hlt : s'.proposals.length < s.proposals.length := by
      rw [hc.proposals]
      exact List.length_filter_lt_length_iff_exists.mpr ⟨x, hx, by simp [hxf]⟩
    have hle := hb.records.proposals_le
    omega
  · exact fun p hp => hheld p (hps p hp).1 (hps p hp).2
  · intro p hp _ hch
    obtain ⟨c, hmem, hid, hs⟩ := State.isChallenged_iff.mp hch
    have hold := (h.later p (hps p hp).1 (hps p hp).2).2
      (State.isChallenged_iff.mpr ⟨c, hcs c hmem, hid, hs⟩)
    have hle := foreign_le p rs
    rw [hc.results, foreign_append]
    omega
  · intro p hp q hq _ hans
    rwa [← hone p hp q hq]
  · intro _ p hp hpp
    have hno := (h.later p (hps p hp).1 (hps p hp).2).1
    rw [hproven _ hpp] at hno
    exact Bool.noConfusion hno

theorem epoch_of_outcome {r : ResultEntry} (h : ∀ p ∈ ms, p.epoch = f)
    (hr : r ∈ s.outcomesAt ms nowMs) : r.epoch = f := by
  obtain ⟨p, hp, rfl⟩ := List.mem_map.mp hr
  exact h p hp

/-- A settlement holds the later proposals back by the grace binding, unless nobody has won. -/
theorem Backed.settle (h : Backed t s) (hdue : ∀ f ms, s.frozenCohort = some (f, ms) → Due s f ms)
    (h3 : m.profile ≠ 3) (htime : ∀ p ∈ s.proposals, p.expiryMs ≤ satAdd nowMs 10000)
    (hspares : Attempt.Spares ⟨s, nowMs⟩) (hnow : nowMs ≤ t) :
    Backed t (s.settleFrozenCohort m.profile m.scid nowMs).1 ∧
      ∀ f ms, (s.settleFrozenCohort m.profile m.scid nowMs).1.frozenCohort = some (f, ms) →
        Waiting (s.settleFrozenCohort m.profile m.scid nowMs).1 f ms := by
  have hr := World.records_settle h.records m.profile m.scid nowMs
  obtain ⟨-, hbind⟩ := State.settle_bindings s m.scid nowMs h3
  rcases State.settle_cases s m.profile m.scid nowMs with ⟨he, -, hno⟩ | ⟨f, ms, hs, hw, -, he⟩ |
    ⟨f, ms, c, hs, hw, hpromotes, he⟩
  · rw [he]
    refine ⟨h, ?_⟩
    intro f ms hf
    have hd := hdue f ms hf
    refine hd.waiting h ?_
    by_contra hw
    exact hno f ms ⟨hf, by simpa using hw, hd.room⟩
  · have hd := hdue f ms hs.frozen
    rw [he] at hr ⊢
    have hc := State.finishCohort_closed s f (s.outcomesAt ms nowMs)
    refine ⟨hd.closed h hr hc (by simp) (fun r => epoch_of_outcome hd.epoch) ?_,
      by simp [hc.frozenCohort]⟩
    intro p hp hlater hlive
    left
    have hone : ms.length ≤ 1 := by
      refine (hspares (f, ms) hs.frozen hs.ready hw).resolve_right ?_
      intro hall
      exact absurd ((hall p hp hlater).trans hnow) (not_le.mpr hlive)
    have hnil : s.results = [] := by
      refine (hd.vacant ⟨p, hp, hlater⟩).resolve_right ?_
      rintro ⟨q, hq, hproven⟩
      simp [State.cohortWinner_eq_none.mp hw q hq] at hproven
    have hle := foreign_le p (s.outcomesAt ms nowMs)
    rw [hc.results, hnil, List.nil_append]
    simp only [State.length_outcomesAt] at hle
    omega
  · have hd := hdue f ms hs.frozen
    have hc : State.ClosedCohort s (s.settleFrozenCohort m.profile m.scid nowMs).1 f
        (s.outcomesAt ms nowMs) := by
      rw [he]
      exact (State.promote_caches s _).resolve_right fun hc => h3 hc.1
    refine ⟨hd.closed h hr hc (by simp) (fun r => epoch_of_outcome hd.epoch) ?_,
      by simp [hc.frozenCohort]⟩
    intro p hp _ _
    rcases hbind with ⟨hn, -⟩ | ⟨_, _, -, -, hgrace, -⟩
    · simp [hpromotes] at hn
    · exact .inr ⟨_, hgrace, htime p hp⟩

/-- A result after the sweep was there before, or times out a proposal that had none. -/
theorem mem_swept {frozen : List Proposal} {r : ResultEntry}
    (hr : r ∈ (s.expireSweep nowMs frozen).results) :
    (r ∈ s.results ∧ nowMs < r.expiryMs) ∨
      ∃ q ∈ s.timeoutFailures frozen, r = resultEntry q 3 nowMs none ∧
        ∀ r' ∈ s.results, nowMs < r'.expiryMs → r'.candidateId ≠ q.candidateId := by
  rw [State.expireSweep_results] at hr
  obtain ⟨rs, he, hrs⟩ :=
    State.emitTimeouts_results nowMs (s.dropResults nowMs) (s.timeoutFailures frozen)
  rw [he, List.mem_append] at hr
  rcases hr with hr | hr
  · left
    simpa [State.dropResults] using hr
  · obtain ⟨q, hq, hr, hno⟩ := hrs r hr
    refine .inr ⟨q, hq, hr, ?_⟩
    intro r' hr' hlive
    exact hno r' (List.mem_filter.mpr ⟨hr', by simpa using hlive⟩)

theorem swept_of_live {frozen : List Proposal} {r : ResultEntry} (hr : r ∈ s.results)
    (hlive : nowMs < r.expiryMs) : r ∈ (s.expireSweep nowMs frozen).results := by
  rw [State.expireSweep_results]
  obtain ⟨rs, he, -⟩ :=
    State.emitTimeouts_results nowMs (s.dropResults nowMs) (s.timeoutFailures frozen)
  rw [he]
  exact List.mem_append_left _ (List.mem_filter.mpr ⟨hr, by simpa using hlive⟩)

/-- Without a failure the sweep stores nothing. -/
theorem swept_of_unfailed (nowMs : U64) (frozen : List Proposal)
    (h : ∀ c ∈ s.candidates, c.state ≠ .failed) :
    s.timeoutFailures frozen = [] ∧ (s.expireSweep nowMs frozen).results =
      s.results.filter fun r => nowMs < r.expiryMs := by
  have hnil : s.timeoutFailures frozen = [] := by
    rw [List.eq_nil_iff_forall_not_mem]
    intro p hp
    obtain ⟨-, c, hc, -, hs⟩ := State.mem_timeoutFailures hp
    exact h c hc hs
  rw [State.expireSweep_results, hnil]
  exact ⟨rfl, rfl⟩

namespace Backed

theorem swept_pair (h : Backed t s) (nowMs : U64) (frozen : List Proposal)
    (htwo : s.proposals.length = PROPOSAL_SLOTS) :
    (∀ r ∈ (s.expireSweep nowMs frozen).results, ∃ p ∈ s.proposals, r.Answers p) ∧
      ((s.expireSweep nowMs frozen).results.map (·.candidateId)).Nodup := by
  obtain ⟨hall, hnodup⟩ := h.pair htwo
  constructor
  · intro r hr
    rcases mem_swept hr with ⟨hr, -⟩ | ⟨q, hq, rfl, -⟩
    · exact hall r hr
    · exact ⟨q, (State.mem_timeoutFailures hq).1, resultEntry_answers q 3 nowMs none⟩
  · rw [State.expireSweep_results]
    exact State.emitTimeouts_nodup nowMs _ (hnodup.sublist (List.filter_sublist.map _))

/-- What times out is foreign to a proposal only beside another one, and then nothing else is. -/
theorem swept_foreign {p : Proposal} (h : Backed t s) (nowMs : U64) (frozen : List Proposal)
    (hp : p ∈ s.proposals) :
    foreign p (s.expireSweep nowMs frozen).results ≤ 1 ∨
      foreign p (s.expireSweep nowMs frozen).results ≤ foreign p s.results := by
  by_cases htwo : s.proposals.length = PROPOSAL_SLOTS
  · obtain ⟨hall, hnodup⟩ := h.swept_pair nowMs frozen htwo
    exact .inl (foreign_le_one h.records.proposals_le hall hnodup hp)
  · right
    have hle := h.records.proposals_le
    have honly : ∀ q ∈ s.proposals, q = p := by
      intro q hq
      by_contra hne
      have hsub : [q, p].Subperm s.proposals :=
        List.subperm_of_subset (by simp [hne]) (by simp [hq, hp])
      have hge := hsub.length_le
      simp only [PROPOSAL_SLOTS, List.length_cons, List.length_nil] at hle htwo hge
      omega
    obtain ⟨rs, he, hrs⟩ :=
      State.emitTimeouts_results nowMs (s.dropResults nowMs) (s.timeoutFailures frozen)
    have hown : foreign p rs = 0 := by
      apply foreign_eq_zero
      intro r hr
      obtain ⟨q, hq, rfl, -⟩ := hrs r hr
      rw [honly q (State.mem_timeoutFailures hq).1]
      exact resultEntry_answers p 3 nowMs none
    rw [State.expireSweep_results, he, foreign_append, hown]
    exact foreign_sublist List.filter_sublist

/-- With its results the sweep answers for both of two siblings or for neither. -/
theorem swept_siblings {frozen : List Proposal} {p q : Proposal} (h : Backed t s)
    (hp : p ∈ s.proposals) (hq : q ∈ s.proposals) (hepoch : p.epoch = q.epoch)
    (hlivep : nowMs < p.expiryMs) (hliveq : nowMs < q.expiryMs)
    (hfrozen : frozen = [] ∨ ∀ c ∈ s.candidates, c.state ≠ .failed)
    (hem : s.emittedResults = [] ∨ s.candidates = [])
    (htogether : s.Unanswered p → s.Unanswered q)
    (hans : ∃ r ∈ (s.expireSweep nowMs frozen).results, r.Answers p) :
    ∃ r ∈ (s.expireSweep nowMs frozen).results, r.Answers q := by
  have hlive : ∀ x ∈ s.proposals, nowMs < x.expiryMs → ∀ r ∈ s.results, r.Answers x →
      nowMs < r.expiryMs := by
    intro x hx hlive r hr hans
    exact hlive.trans_le ((le_satAdd _ _).trans (h.outlived x hx r hr hans))
  have hswept : (∃ r ∈ s.results, r.Answers q) →
      ∃ r ∈ (s.expireSweep nowMs frozen).results, r.Answers q := by
    rintro ⟨r, hr, hans⟩
    exact ⟨r, swept_of_live hr (hlive q hq hliveq r hr hans), hans⟩
  obtain ⟨r₀, hr₀, hans⟩ := hans
  by_cases hpq : p = q
  · exact ⟨r₀, hr₀, hpq ▸ hans⟩
  rcases mem_swept hr₀ with ⟨hold, -⟩ | ⟨x, hx, rfl, hfree⟩
  · exact hswept (h.siblings p hp q hq hepoch ⟨r₀, hold, hans⟩)
  · clear hr₀
    obtain ⟨hxm, c, hc, hid, hs⟩ := State.mem_timeoutFailures hx
    obtain rfl : x = p := List.inj_on_of_nodup_map h.records.ids hxm hp hans.1
    have htwo : s.proposals.length = PROPOSAL_SLOTS := by
      have hsub : [x, q].Subperm s.proposals :=
        List.subperm_of_subset (by simp [hpq]) (by simp [hp, hq])
      have hge := hsub.length_le
      have hle := h.records.proposals_le
      simp only [PROPOSAL_SLOTS, List.length_cons, List.length_nil] at hle hge ⊢
      omega
    have hfree' : ∀ r ∈ s.results, r.candidateId ≠ x.candidateId := by
      intro r hr hid
      obtain ⟨y, hy, hansy⟩ := (h.pair htwo).1 r hr
      obtain rfl : y = x := List.inj_on_of_nodup_map h.records.ids hy hp (hansy.1.symm.trans hid)
      exact hfree r hr (hlive y hy hlivep r hr hansy) hid
    obtain ⟨⟨d, hd, hdid, hds⟩, hfreeq⟩ := htogether ⟨⟨c, hc, hid, hs⟩, hfree'⟩
    -- Both records have failed and nothing is stored yet, so there is room for both results.
    have hnil : s.results = [] := by
      rw [List.eq_nil_iff_forall_not_mem]
      intro r hr
      obtain ⟨y, hy, hansy⟩ := (h.pair htwo).1 r hr
      rcases eq_or_eq_of_two h.records.proposals_le hp hq hpq hy with rfl | rfl
      · exact hfree' r hr hansy.1
      · exact hfreeq r hr hansy.1
    obtain rfl : frozen = [] := hfrozen.resolve_right fun hno => hno c hc hs
    have hem' : s.emittedResults = [] := by
      refine hem.resolve_right ?_
      rintro hnone
      simp [hnone] at hc
    have hcount : (s.timeoutFailures []).length ≤ RESULT_CACHE_SLOTS :=
      (State.timeoutFailures_length_le s []).trans
        ((List.length_filter_le _ _).trans h.records.candidates_le)
    obtain ⟨r, hr, hrid⟩ := State.emitTimeouts_covers (s := s.dropResults nowMs) nowMs
      (by simpa [State.dropResults, hnil] using hcount)
      (by simpa [State.dropResults, hem'] using hcount) q
      (State.timeoutFailures_of_mem h.records.ids hq hd hdid hds)
    rw [← State.expireSweep_results] at hr
    refine ⟨r, hr, ?_⟩
    obtain ⟨y, hy, hansy⟩ := (h.swept_pair nowMs _ htwo).1 r hr
    obtain rfl : y = q := List.inj_on_of_nodup_map h.records.ids hy hq (hansy.1.symm.trans hrid)
    exact hansy

end Backed

/-- What the sweep leaves, its results aside. -/
theorem swept_fields (s : State) (nowMs : U64) (frozen : List Proposal) :
    let s' := s.expireSweep nowMs frozen
    s'.proposals = (s.proposals.filter fun p => nowMs < p.expiryMs) ∧
    s'.candidates = (s.candidates.filter fun c =>
      c.state ≠ .failed ∨ frozen.any (·.candidateId = c.candidateId)) ∧
    s'.frozenCohort = s.cohortAfter (s.proposals.filter fun p => nowMs < p.expiryMs) ∧
    s'.oldBinding = s.oldBindingAfter nowMs ∧
    s'.emittedResults.length ≤ s.emittedResults.length + (s.timeoutFailures frozen).length := by
  intro s'
  obtain ⟨rs, ts, he, -, hcount, -⟩ := State.expireSweep_eq s nowMs frozen
  have hs : s' = _ := he
  rw [hs]
  exact ⟨rfl, rfl, rfl, rfl, by simpa using hcount⟩

namespace Backed

variable {frozen : List Proposal}

theorem sweep (h : Backed nowMs s) (hem : s.emittedResults = [] ∨ s.candidates = [])
    (hfrozen : frozen = [] ∨ ∀ c ∈ s.candidates, c.state ≠ .failed)
    (htime : ∀ p ∈ s.proposals, p.expiryMs ≤ satAdd nowMs 5000)
    (htogether : ∀ p ∈ s.proposals, ∀ q ∈ s.proposals, p.epoch = q.epoch → nowMs < p.expiryMs →
      nowMs < q.expiryMs → s.Unanswered p → s.Unanswered q) :
    Backed nowMs (s.expireSweep nowMs frozen) := by
  obtain ⟨hps, hcs, hcohort, hold, -⟩ := swept_fields s nowMs frozen
  have hp : ∀ p ∈ (s.expireSweep nowMs frozen).proposals, p ∈ s.proposals ∧ nowMs < p.expiryMs := by
    intro p hp
    rw [hps, List.mem_filter, decide_eq_true_eq] at hp
    exact hp
  have hc : ∀ c ∈ (s.expireSweep nowMs frozen).candidates, c ∈ s.candidates := by
    intro c hc
    rw [hcs] at hc
    exact List.mem_of_mem_filter hc
  refine ⟨?_, ?_, ?_, ?_, ?_, ?_, ?_, ?_⟩
  · rw [hps, hcs]
    exact (h.records.proposals List.filter_sublist).candidates _
  · exact fun c hcm p hpm => h.deadline c (hc c hcm) p (hp p hpm).1
  · intro p hpm r hr hans
    rcases mem_swept hr with ⟨hr, -⟩ | ⟨q, -, rfl, -⟩
    · exact h.outlived p (hp p hpm).1 r hr hans
    · have hle := htime p (hp p hpm).1
      have hmono : satAdd p.expiryMs CHALLENGE_EXPIRY_MS ≤ satAdd (satAdd nowMs 5000) 3000 :=
        satAdd_mono hle le_rfl
      refine hmono.trans ?_
      simp only [resultEntry, Fin.le_def, satAdd_val]
      omega
  · intro htwo
    have hall : (s.expireSweep nowMs frozen).proposals = s.proposals := by
      rw [hps]
      refine State.filter_eq_of_length (le_antisymm (List.length_filter_le _ _) ?_)
      rw [← hps, htwo]
      exact h.records.proposals_le
    rw [hall] at htwo ⊢
    exact h.swept_pair nowMs frozen htwo
  · intro p hpm hlive
    obtain ⟨hpm, -⟩ := hp p hpm
    rcases h.swept_foreign nowMs frozen hpm with hone | hle
    · exact .inl hone
    · rcases h.held p hpm hlive with hone | ⟨o, ho, hgrace⟩
      · exact .inl (hle.trans hone)
      · right
        refine ⟨o, ?_, hgrace⟩
        rw [hold, State.oldBindingAfter, ho]
        simp [Option.filter, hlive.trans_le hgrace]
  · intro p hpm hlive hch
    obtain ⟨c, hcm, hid, hs⟩ := State.isChallenged_iff.mp hch
    have hone := h.challenged p (hp p hpm).1 hlive
      (State.isChallenged_iff.mpr ⟨c, hc c hcm, hid, hs⟩)
    rcases h.swept_foreign nowMs frozen (hp p hpm).1 with hle | hle
    · exact hle
    · exact hle.trans hone
  · intro p hpm q hqm hepoch
    exact h.swept_siblings (hp p hpm).1 (hp q hqm).1 hepoch (hp p hpm).2 (hp q hqm).2 hfrozen hem
      (htogether p (hp p hpm).1 q (hp q hqm).1 hepoch (hp p hpm).2 (hp q hqm).2)
  · intro hnone p hpm hproven
    rw [hcohort] at hnone
    rw [hps] at hpm
    have hno := State.freshCohort_eq_none (State.cohortAfter_eq_none hnone).1 p hpm
    obtain ⟨c, hcm, hid, hs⟩ := State.isProven_iff.mp hproven
    simp [State.isProven_iff.mpr ⟨c, hc c hcm, hid, hs⟩] at hno

end Backed

/-- A cohort that the sweep keeps goes on waiting. -/
theorem Waiting.sweep {frozen : List Proposal} {c d : Candidate} (h : Waiting s f ms)
    (hb : Backed nowMs s) (hem : s.emittedResults = []) (hc : c ∈ s.candidates)
    (hopen : c.state.terminal = false) (hd : d ∈ s.candidates) (hproven : d.state = .proven)
    (hkept : ∃ p ∈ (s.expireSweep nowMs frozen).proposals, p.epoch = f) :
    Waiting (s.expireSweep nowMs frozen) f ms ∧
      (s.expireSweep nowMs frozen).emittedResults = [] := by
  obtain ⟨hps, hcs, -, -, hcount⟩ := swept_fields s nowMs frozen
  obtain ⟨-, honly⟩ := hb.records.two hc hopen hd hproven
  have hunfailed : ∀ a ∈ s.candidates, a.state ≠ .failed := by
    intro a ha hf
    rcases honly a ha with rfl | rfl
    · simp [CandidateState.terminal, hf] at hopen
    · simp [hf] at hproven
  obtain ⟨hnil, hresults⟩ := swept_of_unfailed nowMs frozen hunfailed
  have hsame : (s.expireSweep nowMs frozen).candidates = s.candidates := by
    rw [hcs, List.filter_eq_self]
    intro a ha
    simp [hunfailed a ha]
  refine ⟨⟨h.slots, h.epoch, hkept, ?_, ?_, ?_, ?_⟩, ?_⟩
  · rw [hsame]
    exact ⟨d, hd, hproven⟩
  · rw [hsame]
    exact h.full
  · rw [hsame]
    exact h.same
  · rintro ⟨p, hp, hlater⟩
    rw [hps, List.mem_filter] at hp
    rcases h.vacant ⟨p, hp.1, hlater⟩ with hno | ⟨q, hq, hqp⟩
    · exact .inl (by simp [hresults, hno])
    · refine .inr ⟨q, hq, ?_⟩
      rw [State.isProven, hsame]
      exact hqp
  · rw [hem, hnil] at hcount
    exact List.length_eq_zero_iff.mp (Nat.le_zero.mp hcount)

/-- A cohort that the sweep freezes is of one proposal, the only other one being of a later epoch. -/
theorem Backed.refreeze {frozen : List Proposal} (h : Backed nowMs s)
    (hb : Backed nowMs (s.expireSweep nowMs frozen)) (hnone : s.frozenCohort = none)
    (hem : s.emittedResults = [] ∨ s.candidates = [])
    (hfresh : s.freshCohort (s.proposals.filter fun p => nowMs < p.expiryMs) = some (f, ms)) :
    Due (s.expireSweep nowMs frozen) f ms := by
  obtain ⟨hps, hcs, -, -, hcount⟩ := swept_fields s nowMs frozen
  obtain ⟨⟨q, hq, hqf, hqp⟩, hms, hmax⟩ := State.freshCohort_eq_some hfresh
  rw [← hps] at hq hms hmax
  have hkept : ∀ p ∈ (s.expireSweep nowMs frozen).proposals, p ∈ s.proposals := by
    intro p hp
    rw [hps] at hp
    exact List.mem_of_mem_filter hp
  have hrecord : ∀ c ∈ (s.expireSweep nowMs frozen).candidates, c ∈ s.candidates := by
    intro c hc
    rw [hcs] at hc
    exact List.mem_of_mem_filter hc
  obtain ⟨⟨z, hz, hqz⟩, hunanswered⟩ := h.early hnone q (hkept q hq) hqp
  obtain ⟨d, hd, hdid, hproven⟩ := State.isProven_iff.mp hqp
  have hdswept : d ∈ (s.expireSweep nowMs frozen).candidates := by
    rw [hcs, List.mem_filter]
    exact ⟨hd, by simp [hproven]⟩
  have hdepoch : d.epoch = f := (h.epoch_of_id (hkept q hq) hd hdid).symm.trans hqf
  have hqms : q ∈ ms := by
    rw [hms, List.mem_filter]
    exact ⟨hq, by simpa using hqf⟩
  have hle := h.records.proposals_le
  have hsingle : ms.length ≤ 1 := by
    have hlt : (s.proposals.filter (·.epoch = f)).length < s.proposals.length :=
      List.length_filter_lt_length_iff_exists.mpr ⟨z, hz, by simp [← hqf, hqz.ne']⟩
    have hsub : ms.length ≤ (s.proposals.filter (·.epoch = f)).length := by
      rw [hms, hps]
      exact (List.filter_sublist.filter _).length_le
    simp only [PROPOSAL_SLOTS] at hle
    omega
  have hem' : s.emittedResults = [] := by
    refine hem.resolve_right ?_
    rintro hno
    simp [hno] at hd
  refine ⟨?_, ?_, ⟨q, hq, hqf⟩, ⟨d, hdswept, hdepoch, hproven⟩, ?_, ?_, ?_⟩
  · have hfailed : (s.timeoutFailures frozen).length < s.candidates.length :=
      (State.timeoutFailures_length_le s frozen).trans_lt
        (List.length_filter_lt_length_iff_exists.mpr ⟨d, hd, by simp [hproven]⟩)
    have hfew := h.records.candidates_le
    rw [hem', List.length_nil, Nat.zero_add] at hcount
    simp only [LIVE_CANDIDATES_MAX, RESULT_CACHE_SLOTS] at hfew ⊢
    omega
  · intro p hp
    rw [hms] at hp
    simpa using (List.mem_filter.mp hp).2
  · intro p hp c hc hid
    rw [hms, List.mem_filter, decide_eq_true_eq] at hp
    exact (hb.epoch_of_id hp.1 hc hid).symm.trans hp.2
  · intro p hp hlater
    refine ⟨?_, ?_⟩
    · rw [Bool.eq_false_iff]
      intro hpp
      obtain ⟨c, hc, hid, hs⟩ := State.isProven_iff.mp hpp
      exact absurd (hmax p hp (State.isProven_iff.mpr ⟨c, hrecord c hc, hid, hs⟩))
        (not_le.mpr hlater)
    · intro hch
      obtain ⟨c, hc, hid, hs⟩ := State.isChallenged_iff.mp hch
      have hpq : p ≠ q := by
        rintro rfl
        exact absurd hlater (by simp [hqf])
      have htwo : s.proposals.length = PROPOSAL_SLOTS := by
        have hsub : [p, q].Subperm s.proposals :=
          List.subperm_of_subset (by simp [hpq]) (by simp [hkept p hp, hkept q hq])
        have hge := hsub.length_le
        simp only [PROPOSAL_SLOTS, List.length_cons, List.length_nil] at hle hge ⊢
        omega
      -- The two records leave none to time out, and no stored result is the cohort's own.
      obtain ⟨-, honly⟩ := h.records.two (hrecord c hc) (by simp [CandidateState.terminal, hs]) hd
        hproven
      obtain ⟨-, hresults⟩ := swept_of_unfailed (s := s) nowMs frozen (by
        intro a ha hf
        rcases honly a ha with rfl | rfl
        · simp [hs] at hf
        · simp [hproven] at hf)
      have hown : foreign p (s.expireSweep nowMs frozen).results = 0 := by
        apply foreign_eq_zero
        intro r hr
        rw [hresults] at hr
        obtain ⟨y, hy, hans⟩ := (h.pair htwo).1 r (List.mem_of_mem_filter hr)
        rcases eq_or_eq_of_two hle (hkept p hp) (hkept q hq) hpq hy with rfl | rfl
        · exact hans
        · exact absurd hans (hunanswered r (List.mem_of_mem_filter hr))
      omega
  · intro _
    exact .inr ⟨q, hqms, State.isProven_iff.mpr ⟨d, hdswept, hdid, hproven⟩⟩

end

end R8.Mobility
