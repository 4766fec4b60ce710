import R8Protocol.Mobility.Records
import R8Protocol.Mobility.Scenario

/-! The two result slots: what fills them, and when no settlement overfills them. -/
namespace R8.Mobility

open FixedWidth Wire Session

namespace State

/-- What `expire` may have to store before a cohort of the epoch that it freezes is settled: the live
results, the frozen members, a timeout for every other record not proven, and the cohort's own. -/
def owedSlots (s : State) (nowMs epoch : U64) : ℕ :=
  (s.results.filter fun r => nowMs < r.expiryMs).length + s.frozenSlots +
    (s.candidates.filter fun c =>
      c.state ≠ .proven ∧ ¬ s.frozenMembers.any (·.candidateId = c.candidateId)).length +
    ((s.proposals.filter fun p => nowMs < p.expiryMs).filter (·.epoch = epoch)).length

/-- A live proposal with a proven record is of the frozen epoch, or there is room for its cohort. -/
def Reserved (s : State) (nowMs : U64) : Prop :=
  ∀ p ∈ s.proposals, nowMs < p.expiryMs → s.isProven p.candidateId = true →
    s.frozenCohort.any (·.1 = p.epoch) = true ∨ s.owedSlots nowMs p.epoch ≤ RESULT_CACHE_SLOTS

instance (s : State) (nowMs : U64) : Decidable (s.Reserved nowMs) :=
  inferInstanceAs (Decidable (∀ p ∈ s.proposals, _))

end State

/-- The clock runs forward, and `expire` finds room for a cohort it may freeze. -/
def roomy (w : World) (call : Call) : Prop :=
  w.Forward call ∧ match call with
    | .expire nowMs => w.state.Reserved nowMs
    | _ => True

instance (w : World) (call : Call) : Decidable (roomy w call) :=
  match call with
  | .expire nowMs => inferInstanceAs (Decidable (w.Forward (.expire nowMs) ∧ w.state.Reserved nowMs))
  | .proposeLocal .. | .makeProbe .. | .previewProtected .. | .previewProfile3 ..
  | .commitProtected .. | .commitProfile3 .. | .takeResults | .takeProfile3Admissions | .close =>
    inferInstanceAs (Decidable (w.Forward _ ∧ True))

/-- How many results outlive a proposal. -/
def outliving (p : Proposal) (rs : List ResultEntry) : ℕ :=
  (rs.filter fun r => p.expiryMs ≤ r.expiryMs).length

/-- The slots in use. An emitted result that was not taken yet still occupies its slot for as long
as any proposal older than it is cached. -/
structure Bounded (s : State) : Prop where
  records : Records s.proposals s.candidates
  results_le : s.results.length ≤ RESULT_CACHE_SLOTS
  emitted_le : s.emittedResults.length ≤ RESULT_CACHE_SLOTS
  room : ∀ f members, s.frozenCohort = some (f, members) →
    s.results.length + members.length ≤ RESULT_CACHE_SLOTS ∧
    s.emittedResults.length + members.length ≤ RESULT_CACHE_SLOTS ∧
    ∃ c ∈ s.candidates, c.state = .proven
  held : ∀ p ∈ s.proposals, s.emittedResults.length ≤ outliving p s.results

theorem outliving_le (p : Proposal) (rs : List ResultEntry) : outliving p rs ≤ rs.length :=
  List.length_filter_le _ _

theorem outliving_append (p : Proposal) (rs rs' : List ResultEntry) :
    outliving p (rs ++ rs') = outliving p rs + outliving p rs' := by
  simp [outliving]

theorem outliving_all {p : Proposal} {rs : List ResultEntry}
    (h : ∀ r ∈ rs, p.expiryMs ≤ r.expiryMs) : outliving p rs = rs.length := by
  rw [outliving, List.filter_eq_self.mpr (by simpa using h)]

/-- Results dropped at a time do not outlive a proposal that is still live then. -/
theorem outliving_drop {p : Proposal} {rs : List ResultEntry} {nowMs : U64}
    (hp : nowMs < p.expiryMs) :
    outliving p (rs.filter fun r => nowMs < r.expiryMs) = outliving p rs := by
  rw [outliving, List.filter_filter, outliving]
  congr 1
  refine List.filter_congr fun r _ => ?_
  by_cases hr : p.expiryMs ≤ r.expiryMs
  · simp [hr, lt_of_lt_of_le hp hr]
  · simp [hr]

namespace State

variable {s : State} {nowMs : U64}

/-- With a record open and another proven, none of the two is a failure. -/
theorem timeoutFailures_eq_nil {c d : Candidate} {frozen : List Proposal}
    (hlen : s.candidates.length ≤ LIVE_CANDIDATES_MAX) (hc : c ∈ s.candidates)
    (hopen : c.state.terminal = false) (hd : d ∈ s.candidates) (hproven : d.state = .proven) :
    s.timeoutFailures frozen = [] := by
  have hfailed : ∀ a ∈ s.candidates, a.state ≠ .failed := by
    intro a ha hf
    have hne : c ≠ d := by
      rintro rfl
      simp [CandidateState.terminal, hproven] at hopen
    have hac : a ≠ c := by
      rintro rfl
      simp [CandidateState.terminal, hf] at hopen
    have had : a ≠ d := by
      rintro rfl
      simp [hf] at hproven
    have hsub : [a, c, d].Subperm s.candidates :=
      List.subperm_of_subset (by simp [hac, had, hne]) (by simp [ha, hc, hd])
    have := hsub.length_le
    simp only [LIVE_CANDIDATES_MAX, List.length_cons, List.length_nil] at hlen this
    omega
  rw [timeoutFailures, List.filter_eq_nil_iff.mpr, List.filterMap_nil]
  intro a ha
  simp [hfailed a ha]

theorem timeoutFailures_length_le (s : State) (frozen : List Proposal) :
    (s.timeoutFailures frozen).length ≤ (s.candidates.filter fun c =>
      c.state ≠ .proven ∧ ¬ frozen.any (·.candidateId = c.candidateId)).length := by
  refine (List.length_filterMap_le _ _).trans (List.Sublist.length_le ?_)
  refine List.monotone_filter_right _ ?_
  intro c hc
  simp only [decide_eq_true_eq] at hc ⊢
  exact ⟨by simp [hc.1], hc.2⟩

theorem settle_results_le (s : State) (profile : Byte) (scid now nowMs : U64) :
    ((s.settleFrozenCohort profile scid now).1.results.filter fun r => nowMs < r.expiryMs).length ≤
      (s.results.filter fun r => nowMs < r.expiryMs).length + s.frozenSlots := by
  rcases settle_caches s profile scid now with he | ⟨f, members, hs, he | ⟨-, he⟩⟩
  · rw [he]
    exact Nat.le_add_right _ _
  · have hle := List.length_filter_le (fun r : ResultEntry => nowMs < r.expiryMs)
      (s.outcomesAt members now)
    rw [length_outcomesAt] at hle
    rw [he.results, List.filter_append, List.length_append, frozenSlots, hs.frozen]
    exact Nat.add_le_add_left hle _
  · simp [he.results]

/-- What the sweep of an `expire` stores was owed when it began. -/
theorem swept_le_owedSlots (m : Manager) (s : State) (nowMs epoch : U64) :
    let t := ((s.expireMark nowMs).settleFrozenCohort m.profile m.scid nowMs).1
    (t.results.filter fun r => nowMs < r.expiryMs).length +
      (t.timeoutFailures s.frozenMembers).length +
      ((t.proposals.filter fun p => nowMs < p.expiryMs).filter (·.epoch = epoch)).length ≤
        s.owedSlots nowMs epoch := by
  intro t
  obtain ⟨cs, ts, hf, hmark⟩ := expireMark_eq s nowMs
  have hresults := settle_results_le (s.expireMark nowMs) m.profile m.scid nowMs nowMs
  obtain ⟨hps, hcs⟩ := settle_sublist (s.expireMark nowMs) m.profile m.scid nowMs
  have htimeouts := (timeoutFailures_length_le t s.frozenMembers).trans
    (hcs.filter _).length_le
  have hmembers := ((hps.filter fun p => nowMs < p.expiryMs).filter (·.epoch = epoch)).length_le
  have hslots : (s.expireMark nowMs).frozenSlots = s.frozenSlots := by
    rw [hmark]
    rfl
  rw [show (s.expireMark nowMs).results = s.results by rw [hmark], hslots] at hresults
  rw [show (s.expireMark nowMs).candidates = cs by rw [hmark], hf.unproven_length] at htimeouts
  rw [show (s.expireMark nowMs).proposals = s.proposals by rw [hmark]] at hmembers
  simp only [owedSlots]
  exact Nat.add_le_add (Nat.add_le_add hresults htimeouts) hmembers

end State

namespace Bounded

variable {s s' : State}

/-- A proof that freezes the greatest epoch has room for both caches. -/
theorem prove {C : Crypto} {m : Manager} {binding : ObservedBinding} {nowMs : U64}
    {id : CandidateId} {epoch at_ : U64} {slot : Byte} {r : BindResponseIdentity}
    (h : Bounded s) (ha : Applicable C m s binding nowMs (.prove id epoch slot at_ r)) :
    Bounded (Manager.markProven s id epoch slot r) := by
  obtain ⟨-, -, -, ⟨c₀, hc₀, -⟩, -, greatest, hgreatest, hroom⟩ := ha
  have hkey := List.find?_some hc₀
  simp only [decide_eq_true_eq] at hkey
  obtain ⟨c₁, hc₁⟩ : ∃ c, s.candidates.find? (Records.proofTarget id epoch slot) = some c := by
    refine Option.isSome_iff_exists.mp (List.find?_isSome.mpr
      ⟨c₀, List.mem_of_find?_eq_some hc₀, ?_⟩)
    simp [Records.proofTarget, hkey.1, hkey.2.2.1, hkey.2.2.2.1]
  have hnew : Records.proofUpdate r c₁ ∈ Lists.modifyFirst (Records.proofTarget id epoch slot)
      (Records.proofUpdate r) s.candidates := Lists.mem_modifyFirst_of_find hc₁
  obtain ⟨cohort, he, hcohort⟩ := markProven_eq s id epoch slot r
  rw [he]
  refine ⟨h.records.prove id epoch slot r, h.results_le, h.emitted_le, ?_, h.held⟩
  intro f members hm
  rcases hcohort with ⟨hnone, hg, rfl⟩ | ⟨-, rfl⟩
  · obtain ⟨rfl, rfl⟩ := Prod.mk.inj (Option.some.inj hm)
    obtain rfl : epoch = greatest := Option.some.inj (hg.symm.trans hgreatest)
    have hfit := hroom hnone rfl
    simp only [Manager.prospectiveMembers, hnone] at hfit
    obtain ⟨q, hq, -⟩ := List.mem_map.mp (List.max?_eq_some_iff.mp hg).1
    have hem : s.emittedResults.length + (Manager.proposalsOf s epoch).length ≤
        RESULT_CACHE_SLOTS := by
      have := (h.held q hq).trans (outliving_le q s.results)
      omega
    exact ⟨hfit, hem, _, hnew, rfl⟩
  · obtain ⟨hr, hem, -⟩ := h.room f members hm
    exact ⟨hr, hem, _, hnew, rfl⟩

theorem faded {cs : List Candidate} {ts : List (CandidateId × U64)} (h : Bounded s)
    (hf : Faded s.candidates cs) : Bounded { s with candidates := cs, tombstones := ts } where
  records := h.records.faded hf
  results_le := h.results_le
  emitted_le := h.emitted_le
  room f members hm := by
    obtain ⟨hr, hem, c, hc, hs⟩ := h.room f members hm
    exact ⟨hr, hem, c, hf.proven_mem hc hs, hs⟩
  held := h.held

theorem settle {profile : Byte} {scid nowMs : U64} (h : Bounded s)
    (htime : ∀ p ∈ s.proposals, p.expiryMs ≤ satAdd nowMs 10000) :
    Bounded (s.settleFrozenCohort profile scid nowMs).1 := by
  have hr := World.records_settle h.records profile scid nowMs
  rcases State.settle_caches s profile scid nowMs with he | ⟨f, members, hs, he | ⟨-, he⟩⟩
  · rwa [he]
  · obtain ⟨hroom, hem, -⟩ := h.room f members hs.frozen
    refine ⟨hr, ?_, ?_, by simp [he.frozenCohort], ?_⟩
    · simpa [he.results] using hroom
    · simpa [he.emittedResults] using hem
    · intro p hp
      rw [he.proposals] at hp
      have hmem := (List.mem_filter.mp hp).1
      have hall : outliving p (s.outcomesAt members nowMs) = members.length := by
        rw [outliving_all, State.length_outcomesAt]
        intro r hrm
        obtain ⟨q, -, rfl⟩ := List.mem_map.mp hrm
        exact htime p hmem
      have := h.held p hmem
      simp only [he.emittedResults, he.results, outliving_append, hall, List.length_append,
        List.length_map, State.length_outcomesAt]
      omega
  · obtain ⟨-, hem, -⟩ := h.room f members hs.frozen
    refine ⟨hr, by simp [he.results], ?_, by simp [he.frozenCohort], by simp [he.proposals]⟩
    simp only [he.emittedResults, List.length_map, State.length_outcomesAt]
    omega

theorem quiet (h : Bounded s) (hq : State.Quiet s s') : Bounded s' := by
  have hem : s'.emittedResults.length ≤ s.emittedResults.length := by
    rcases hq.emittedResults with he | he <;> simp [he]
  refine ⟨?_, ?_, hem.trans h.emitted_le, ?_, ?_⟩
  · rw [hq.proposals, hq.candidates]
    exact h.records
  · rw [hq.results]
    exact h.results_le
  · intro f members hm
    rw [hq.frozenCohort] at hm
    rw [hq.results, hq.candidates]
    obtain ⟨hroom, hroom', hproven⟩ := h.room f members hm
    exact ⟨hroom, (Nat.add_le_add_right hem _).trans hroom', hproven⟩
  · intro p hp
    rw [hq.proposals] at hp
    rw [hq.results]
    exact hem.trans (h.held p hp)

theorem wipe (s : State) : Bounded s.wipe :=
  ⟨.nil, by simp [State.wipe], by simp [State.wipe], by simp [State.wipe], by simp [State.wipe]⟩

theorem apply {C : Crypto} {m : Manager} {binding : ObservedBinding} {nowMs : U64} {a : Action}
    (h : Bounded s) (ha : Applicable C m s binding nowMs a) (hn : ∀ s, a.attempts s = []) :
    Bounded (m.applyAction s a) := by
  have hrecords := World.records_apply ha hn h.records
  cases a with
  | cacheProposal p tokens refillMs =>
    obtain ⟨-, -, -, -, -, hdrained, -⟩ := ha
    exact ⟨hrecords, h.results_le, h.emitted_le, h.room, by simp [Manager.applyAction, hdrained]⟩
  | challenge c =>
    refine ⟨hrecords, h.results_le, h.emitted_le, ?_, h.held⟩
    intro f members hm
    obtain ⟨hroom, hroom', d, hd, hs⟩ := h.room f members hm
    exact ⟨hroom, hroom', d, List.mem_append_left _ hd, hs⟩
  | commitLocal epoch loc b promote r =>
    obtain ⟨-, hslots, -⟩ := ha
    have hem := h.emitted_le
    obtain ⟨-, -, he, ⟨hp, hc, hf, hr, -⟩ | ⟨-, hp, hc, hf, hr, -⟩⟩ :=
      commitLocal_lists m s epoch loc b promote r
    · refine ⟨hrecords, ?_, by simpa only [Manager.applyAction, he] using hem, ?_, ?_⟩
      · simp only [Manager.applyAction, hr, List.length_append, List.length_singleton]
        omega
      · simp only [Manager.applyAction, hr, hf, hc, he, List.length_append, List.length_singleton]
        intro f members hm
        obtain ⟨-, hroom⟩ := h.room f members hm
        refine ⟨?_, hroom⟩
        simp only [State.frozenSlots, hm] at hslots
        omega
      · simp only [Manager.applyAction, hr, he, hp, outliving_append]
        exact fun p hp => (h.held p hp).trans (Nat.le_add_right _ _)
    · exact ⟨hrecords, by simp [Manager.applyAction, hr],
        by simpa only [Manager.applyAction, he] using hem, by simp [Manager.applyAction, hf],
        by simp [Manager.applyAction, hp]⟩
  | prove id epoch slot at_ r => exact absurd (hn s) (by simp [Action.attempts])
  | existingChallenge c => exact h
  | respond c => exact h
  | none => exact h

/-- The sweep of `expire` keeps the bound if the cohort it leaves is an old one and nothing timed
out, or has room for its results. -/
theorem sweep {frozen : List Proposal} {nowMs : U64} (h : Bounded s)
    (htime : ∀ p ∈ s.proposals, p.expiryMs ≤ satAdd nowMs 10000)
    (hcohort : ∀ f members,
      s.cohortAfter (s.proposals.filter fun p => nowMs < p.expiryMs) = some (f, members) →
      (s.frozenCohort = some (f, members) ∧ s.timeoutFailures frozen = []) ∨
      ((s.results.filter fun r => nowMs < r.expiryMs).length + (s.timeoutFailures frozen).length +
          members.length ≤ RESULT_CACHE_SLOTS ∧
        ∃ p ∈ s.proposals, nowMs < p.expiryMs ∧ s.isProven p.candidateId = true)) :
    Bounded (s.expireSweep nowMs frozen) := by
  obtain ⟨rs, ts, he, hrs, hcount, hlen⟩ := State.expireSweep_eq s nowMs frozen
  rw [he]
  have hfilter := List.length_filter_le (fun r : ResultEntry => nowMs < r.expiryMs) s.results
  have hproven : ∀ c ∈ s.candidates, c.state = .proven → c ∈ s.candidates.filter fun c =>
      c.state ≠ .failed ∨ frozen.any (·.candidateId = c.candidateId) := by
    intro c hc hs
    exact List.mem_filter.mpr ⟨hc, by simp [hs]⟩
  have hle := h.results_le
  have hem := h.emitted_le
  have hheld : ∀ p ∈ s.proposals.filter (fun p => nowMs < p.expiryMs),
      (s.emittedResults ++ rs.map (·.bytes)).length ≤
        outliving p ((s.results.filter fun r => nowMs < r.expiryMs) ++ rs) := by
    intro p hp
    obtain ⟨hp, hlive⟩ := List.mem_filter.mp hp
    have hall : outliving p rs = rs.length := by
      apply outliving_all
      intro r hr
      obtain ⟨q, -, rfl⟩ := hrs r hr
      exact htime p hp
    have hold := h.held p hp
    rw [outliving_append, hall, outliving_drop (by simpa using hlive), List.length_append,
      List.length_map]
    omega
  refine ⟨(h.records.proposals List.filter_sublist).candidates _, ?_, ?_, ?_, hheld⟩
  · by_cases hnil : rs = []
    · simp only [hnil, List.append_nil]
      omega
    · simpa using (hlen hnil).1
  · by_cases hnil : rs = []
    · simpa [hnil] using hem
    · simpa using (hlen hnil).2
  · intro f members hf
    rcases hcohort f members hf with ⟨hold, hnone⟩ | ⟨hroom, p, hp, hlive, hpp⟩
    · obtain ⟨h₁, h₂, c, hc, hs⟩ := h.room f members hold
      have hnil : rs = [] := by
        rw [hnone] at hcount
        exact List.length_eq_zero_iff.mp (Nat.le_zero.mp hcount)
      subst hnil
      refine ⟨?_, by simpa using h₂, c, hproven c hc hs, hs⟩
      simp only [List.append_nil]
      omega
    · obtain ⟨c, hc, -, hs⟩ := State.isProven_iff.mp hpp
      have hfit := (hheld p (List.mem_filter.mpr ⟨hp, by simpa using hlive⟩)).trans
        (outliving_le p _)
      have hall : ((s.results.filter fun r => nowMs < r.expiryMs) ++ rs).length + members.length ≤
          RESULT_CACHE_SLOTS := by
        rw [List.length_append]
        omega
      exact ⟨hall, (Nat.add_le_add_right hfit _).trans hall, c, hproven c hc hs, hs⟩

/-- A cohort that `expire` keeps still waits for an open record; beside the proven one that leaves no
record to time out. One that it freezes has its slots reserved. -/
theorem expireBeforeSettle {m : Manager} {nowMs : U64} (h₀ : Bounded (s.expireMark nowMs))
    (h : Bounded ((s.expireMark nowMs).settleFrozenCohort m.profile m.scid nowMs).1)
    (htime : ∀ p ∈ (s.expireMark nowMs).proposals, p.expiryMs ≤ satAdd nowMs 10000)
    (hres : s.Reserved nowMs) : Bounded (s.expireBeforeSettle m nowMs) := by
  obtain ⟨hps, hcs⟩ := State.settle_sublist (s.expireMark nowMs) m.profile m.scid nowMs
  obtain ⟨cs, ts, hf, hmark⟩ := State.expireMark_eq s nowMs
  refine h.sweep (fun p hp => htime p (hps.subset hp)) ?_
  intro f members hafter
  rcases State.cohortAfter_eq_some hafter with ⟨hold, -⟩ | ⟨hfresh, hgone⟩
  · obtain ⟨hsame, hblocked⟩ := State.settle_frozen hold
    rw [hsame] at hold ⊢
    obtain ⟨-, hroom, d, hd, hproven⟩ := h₀.room f members hold
    have hwaits := hblocked.resolve_right (not_lt.mpr hroom)
    simp only [State.cohortWaits, List.any_eq_true, decide_eq_true_eq] at hwaits
    obtain ⟨p, -, -, c, hc, -, hopen⟩ := hwaits
    exact .inl ⟨hold, State.timeoutFailures_eq_nil h₀.records.candidates_le hc (by simpa using hopen)
      hd hproven⟩
  · right
    obtain ⟨⟨p, hp, rfl, hpp⟩, rfl, -⟩ := State.freshCohort_eq_some hfresh
    have hkept := hp
    rw [List.mem_filter, decide_eq_true_eq] at hp
    refine ⟨?_, p, hp.1, hp.2, hpp⟩
    have hmem : p ∈ s.proposals := by
      have := hps.subset hp.1
      rwa [hmark] at this
    have hproven : s.isProven p.candidateId = true := by
      obtain ⟨c, hc, hid, hs⟩ := State.isProven_iff.mp hpp
      have hc' := hcs.subset hc
      rw [hmark] at hc'
      exact State.isProven_iff.mpr ⟨c, hf.mem_proven hc' hs, hid, hs⟩
    rcases hres p hmem hp.2 hproven with hfrozen | hroom
    · obtain ⟨⟨f, ms⟩, hcohort, rfl⟩ : ∃ cohort, s.frozenCohort = some cohort ∧
          cohort.1 = p.epoch := by simpa [Option.any_eq_true] using hfrozen
      exact absurd rfl (State.settle_gone (by rw [hmark]; exact hcohort) hgone hkept hp.1)
    · exact (State.swept_le_owedSlots m s nowMs p.epoch).trans hroom

end Bounded

namespace World

variable {C : Crypto} {m : Manager} {secret : Bytes 32} {ok : World → Call → Prop} {w : World}
  {call : Call}

/-- Proposals committed by a time expire five seconds after it at the latest. -/
theorem deadline_phases (t : U64) :
    Phases C m (fun w call => ∀ p, w.committed m call = some p → p.nowMs ≤ t)
      fun _ s => ∀ q ∈ s.proposals, q.expiryMs ≤ satAdd t 5000 where
  older _ _ _ _ h := h
  quiet _ s s' hq h := by rwa [hq.proposals]
  wipe _ _ _ := by simp [State.wipe]
  apply w call p hok hcom _ hn _ _ _ ha h := by
    have hle := hok p hcom
    cases hact : p.transition.action with
    | cacheProposal q tokens refillMs =>
      rw [hact] at ha
      obtain ⟨-, -, -, -, -, -, -, hexp⟩ := ha
      intro q' hq'
      rcases List.mem_append.mp hq' with hq' | hq'
      · exact h q' hq'
      · obtain rfl := List.mem_singleton.mp hq'
        rw [hexp]
        exact satAdd_mono hle le_rfl
    | commitLocal epoch loc b promote r =>
      obtain ⟨-, -, -, ⟨hp, -⟩ | ⟨-, hp, -⟩⟩ := commitLocal_lists m w.state epoch loc b promote r
      · simpa only [Manager.applyAction, hp] using h
      · simp [Manager.applyAction, hp]
    | prove id epoch slot at_ r =>
      exact absurd (hn w.state) (by simp [hact, Action.attempts])
    | challenge c => exact h
    | existingChallenge c => exact h
    | respond c => exact h
    | none => exact h
  prove w _ p id epoch slot at_ r _ _ _ _ _ _ _ h := by
    obtain ⟨cohort, he, -⟩ := markProven_eq w.state id epoch slot r
    rw [he]
    exact h
  mark w nowMs _ _ h := by
    obtain ⟨cs, ts, -, he⟩ := State.expireMark_eq w.state nowMs
    rw [he]
    exact h
  settle w call a _ _ h q hq :=
    h q ((State.settle_sublist a.before m.profile m.scid a.nowMs).1.subset hq)
  sweep w nowMs _ _ _ h := by
    obtain ⟨rs, ts, he, -⟩ := State.expireSweep_eq
      ((w.state.expireMark nowMs).settleFrozenCohort m.profile m.scid nowMs).1 nowMs
      w.state.frozenMembers
    rw [State.expireBeforeSettle, he]
    exact fun q hq => h q (List.mem_filter.mp hq).1

/-- No cached proposal is younger than the clock, nor than a transition that still applies. -/
structure Timely (w : World) : Prop where
  clock : ∀ q ∈ w.state.proposals, q.expiryMs ≤ satAdd w.clockMs 5000
  current : Current (fun p s => ∀ q ∈ s.proposals, q.expiryMs ≤ satAdd p.nowMs 5000) w

theorem Reach.timely (h : Reach C m secret ok w) (hok : ∀ w call, ok w call → w.Forward call) :
    Timely w := by
  induction h with
  | start hs =>
    obtain ⟨⟨c, owner, rb, ownerId, hnew, -⟩, hi, -⟩ := hs
    refine ⟨?_, ?_⟩
    · simp [(newInner_eq_ok hnew).1, initialState]
    · simp [Current, hi]
  | @next w call hr hstep ih =>
    have hr : Reach C m secret ok w := hr
    have hf := hok w call hstep.2
    have hclock := clock_le C m hf
    have heff := step_effect hr.fresh hstep.1
    have hnow : ∀ p, w.committed m call = some p → p.nowMs ≤ (w.step C m call).clockMs := by
      intro p hp
      exact (hr.issued_le hok p (committed_mem hstep.1 hp)).trans hclock
    have hmono : ∀ q ∈ w.state.proposals, q.expiryMs ≤ satAdd (w.step C m call).clockMs 5000 := by
      intro q hq
      exact (ih.clock q hq).trans (satAdd_mono hclock le_rfl)
    refine ⟨(deadline_phases _).step hmono hnow heff, ?_⟩
    refine current_step hr.fresh hstep.1 ?_ ?_ ih.current
    · intro p s s' hq hp
      rwa [hq.proposals]
    · intro p hp q hq
      obtain ⟨-, -, -, -, -, -, -, ht⟩ := previewed_eq_some hp
      exact (ih.clock q hq).trans (satAdd_mono (hf _ ht) le_rfl)

theorem expireBeforeSettle_proposals_subset (m : Manager) (s : State) (nowMs : U64) :
    (s.expireBeforeSettle m nowMs).proposals ⊆ s.proposals := by
  obtain ⟨cs, ts, -, hmark⟩ := State.expireMark_eq s nowMs
  obtain ⟨rs, ts', he, -⟩ := State.expireSweep_eq
    ((s.expireMark nowMs).settleFrozenCohort m.profile m.scid nowMs).1 nowMs s.frozenMembers
  intro q hq
  rw [State.expireBeforeSettle, he] at hq
  have hmem := (State.settle_sublist _ m.profile m.scid nowMs).1.subset (List.mem_filter.mp hq).1
  rwa [hmark] at hmem

/-- The results of a settlement outlive every proposal cached beside it. -/
theorem Timely.attempt (h : Timely w) (hf : w.Forward call) (he : Effect C m w call) :
    ∀ a ∈ w.attempts m call, ∀ q ∈ a.before.proposals, q.expiryMs ≤ satAdd a.nowMs 10000 := by
  intro a ha q hq
  cases he with
  | quiet _ _ _ hs => simp [hs] at ha
  | close _ _ hs => simp [hs] at ha
  | commit p g hp hgen hc _ _ happ _ _ _ _ _ hs =>
    rw [hs] at ha
    cases hact : p.transition.action with
    | prove id epoch slot at_ r =>
      rw [hact] at happ ha
      obtain rfl := List.mem_singleton.mp ha
      obtain ⟨cohort, hmark, -⟩ := markProven_eq w.state id epoch slot r
      rw [hmark] at hq
      obtain ⟨rfl, -⟩ := happ
      exact (h.current p hp hc hgen q hq).trans (satAdd_mono le_rfl (by omega))
    | _ => simp [hact, Action.attempts] at ha
  | expire nowMs hcall hc _ _ hs =>
    subst hcall
    have hlate : ∀ q ∈ w.state.proposals, q.expiryMs ≤ satAdd nowMs 10000 := fun q hq =>
      (h.clock q hq).trans (satAdd_mono (hf nowMs rfl) (by omega))
    rw [hs] at ha
    simp only [State.expireAttempts, hc, Bool.false_eq_true, if_false, List.mem_cons,
      List.not_mem_nil, or_false] at ha
    obtain ⟨cs, ts, -, hmark⟩ := State.expireMark_eq w.state nowMs
    rcases ha with rfl | rfl
    · rw [hmark] at hq
      exact hlate q hq
    · exact hlate q (expireBeforeSettle_proposals_subset m w.state nowMs hq)

/-- The side condition with what runs add to it: settlements are never late. -/
def roomyTimely (m : Manager) (w : World) (call : Call) : Prop :=
  roomy w call ∧
    ∀ a ∈ w.attempts m call, ∀ q ∈ a.before.proposals, q.expiryMs ≤ satAdd a.nowMs 10000

theorem bounded_phases : Phases C m (roomyTimely m) fun _ s => Bounded s where
  older _ _ _ _ h := h
  quiet _ _ _ hq h := h.quiet hq
  wipe _ s _ := .wipe s
  apply _ _ _ _ _ _ hn _ _ _ ha h := h.apply ha hn
  prove _ _ p id epoch slot at_ r _ _ hact _ _ _ ha h := by
    rw [hact] at ha
    exact h.prove ha
  mark w nowMs _ _ h := by
    obtain ⟨cs, ts, hf, he⟩ := State.expireMark_eq w.state nowMs
    rw [he]
    exact h.faded hf
  settle w call a hok ha h := h.settle (hok.2 a ha)
  sweep w nowMs hok hc h₀ h := by
    have hmark : Bounded (w.state.expireMark nowMs) := by
      obtain ⟨cs, ts, hf, he⟩ := State.expireMark_eq w.state nowMs
      rw [he]
      exact h₀.faded hf
    refine hmark.expireBeforeSettle h ?_ hok.1.2
    exact hok.2 ⟨w.state.expireMark nowMs, nowMs⟩ (by simp [attempts, State.expireAttempts, hc])

theorem roomy_timely (hr : Reach C m secret roomy w) (ho : w.Owned m call)
    (hok : roomy w call) : roomyTimely m w call :=
  ⟨hok, (hr.timely fun _ _ h => h.1).attempt hok.1 (step_effect hr.fresh ho)⟩

theorem Reach.bounded (h : Reach C m secret roomy w) : Bounded w.state := by
  have hstrong := h.strengthen (J := fun w call => ∀ a ∈ w.attempts m call,
    ∀ q ∈ a.before.proposals, q.expiryMs ≤ satAdd a.nowMs 10000)
    fun w call hr ho hok => (roomy_timely hr ho hok).2
  refine bounded_phases.reach ?_ hstrong
  intro w hs
  obtain ⟨⟨c, owner, rb, ownerId, hnew, -⟩, -⟩ := hs
  rw [(newInner_eq_ok hnew).1]
  exact ⟨.nil, by simp [initialState], by simp [initialState], by simp [initialState],
    by simp [initialState]⟩

end World

/-- In every run whose expiries find the slots reserved, neither cache holds more than its slots and no
settlement stores past them. -/
theorem result_caches_bounded {C : Crypto} {m : Manager} {secret : Bytes 32} {w : World}
    (h : World.Reach C m secret roomy w) :
    w.state.results.length ≤ RESULT_CACHE_SLOTS ∧
    w.state.emittedResults.length ≤ RESULT_CACHE_SLOTS ∧
    ∀ call, w.Owned m call → roomy w call → ∀ a ∈ w.attempts m call, ∀ f members,
      State.Settles a.before f members →
      a.before.results.length + (a.before.outcomesAt members a.nowMs).length ≤
        RESULT_CACHE_SLOTS := by
  refine ⟨h.bounded.results_le, h.bounded.emitted_le, ?_⟩
  intro call ho hok a ha f members hs
  have hb := World.bounded_phases.attempt h.bounded (World.roomy_timely h ho hok)
    (World.step_effect h.fresh ho) a ha
  rw [State.length_outcomesAt]
  exact (hb.room f members hs.frozen).1

/-- The higher epoch times out and `expire` settles the lower one, both slots being free. -/
def refrozenWithRoom : List Scenario.Input :=
  [.update 3 3 1000, .update 2 2 1000, .probe 3 3 13 1000, .probe 2 2 12 2000,
    .response 2 2 12 5000 2500, .call (.expire 4000)]

theorem result_caches_bounded_full :
    (Scenario.play refrozenWithRoom).state.results.length = 2 ∧
    (Scenario.play refrozenWithRoom).state.emittedResults.length ≤ RESULT_CACHE_SLOTS := by
  have hr : World.Reach .sample Scenario.manager Scenario.secret roomy
      (Scenario.play refrozenWithRoom) := Scenario.reach _ (by decide +kernel)
  exact ⟨by decide +kernel, (result_caches_bounded hr).2.1⟩

/-- The same with a result of the peer's in the first slot. The proof of the lower epoch checks no
room, since a higher one is cached, and `expire` checks none when it freezes it. -/
def refrozenLowerEpoch : List Scenario.Input :=
  [.call (.proposeLocal (bytesOf 16 7) (bytesOf 16 30) 1 0 1000),
    .call (.makeProbe (bytesOf 16 7) (Scenario.bindingOf 21) (zeros 16) 1000),
    .update 3 3 1000, .update 2 2 1000, .probe 3 3 13 1000, .probe 2 2 12 2000,
    .result 7 1 21 2 2000, .response 2 2 12 5000 2500, .call (.expire 4000)]

theorem results_overfilled_by_expire :
    ¬ ∀ (C : Crypto) (m : Manager) (secret : Bytes 32) (w : World),
      World.Reach C m secret (fun w call => w.Forward call) w →
      w.state.results.length ≤ RESULT_CACHE_SLOTS := by
  intro h
  have hr : World.Reach .sample Scenario.manager Scenario.secret (fun w call => w.Forward call)
      (Scenario.play refrozenLowerEpoch) := Scenario.reach _ (by decide +kernel)
  exact absurd (h _ _ _ _ hr) (by decide +kernel)

end R8.Mobility
