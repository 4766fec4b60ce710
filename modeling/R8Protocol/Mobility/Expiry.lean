import R8Protocol.Mobility.Settlement

/-! What the phases of `expire` change, and that an expiry which reports no change makes none. -/
namespace R8.Mobility

open FixedWidth Wire Session

/-- A record is kept or times out, and a proven one never does. -/
def Candidate.Fades (c c' : Candidate) : Prop :=
  c' = c ∨ c.state.terminal = false ∧ c' = State.timeOut c

/-- Records fade in place. -/
def Faded (cs cs' : List Candidate) : Prop := List.Forall₂ Candidate.Fades cs cs'

theorem Candidate.Fades.refl (c : Candidate) : c.Fades c := .inl rfl

theorem Candidate.Fades.key {c c' : Candidate} (h : c.Fades c') :
    c'.candidateId = c.candidateId ∧ c'.loc = c.loc ∧ c'.epoch = c.epoch ∧ c'.slot = c.slot ∧
      c'.binding = c.binding ∧ c'.expiryMs = c.expiryMs := by
  rcases h with rfl | ⟨-, rfl⟩ <;> simp [State.timeOut]

theorem Candidate.Fades.proven {c c' : Candidate} (h : c.Fades c') (hp : c'.state = .proven) :
    c' = c := by
  rcases h with rfl | ⟨-, rfl⟩
  · rfl
  · simp [State.timeOut] at hp

theorem Candidate.Fades.of_proven {c c' : Candidate} (h : c.Fades c') (hp : c.state = .proven) :
    c' = c := by
  rcases h with rfl | ⟨ht, -⟩
  · rfl
  · simp [CandidateState.terminal, hp] at ht

theorem Candidate.Fades.trans {a b c : Candidate} (h : a.Fades b) (h' : b.Fades c) : a.Fades c := by
  rcases h with rfl | ⟨ht, rfl⟩
  · exact h'
  · rcases h' with rfl | ⟨ht', -⟩
    · exact .inr ⟨ht, rfl⟩
    · simp [State.timeOut, CandidateState.terminal] at ht'

namespace Faded

variable {cs cs' cs'' : List Candidate} {c c' : Candidate} {id : CandidateId}

theorem refl (cs : List Candidate) : Faded cs cs :=
  List.forall₂_same.mpr fun c _ => Candidate.Fades.refl c

theorem trans (h : Faded cs cs') (h' : Faded cs' cs'') : Faded cs cs'' := by
  induction h generalizing cs'' with
  | nil => exact h'
  | cons hc _ ih =>
    cases h' with
    | cons hc' h' => exact .cons (hc.trans hc') (ih h')

theorem length_eq (h : Faded cs cs') : cs'.length = cs.length :=
  (List.Forall₂.length_eq h).symm

theorem mem (h : Faded cs cs') (hc : c' ∈ cs') : ∃ c ∈ cs, c.Fades c' := by
  induction h with
  | nil => simp at hc
  | cons hd _ ih =>
    rcases List.mem_cons.mp hc with rfl | hc
    · exact ⟨_, List.mem_cons_self, hd⟩
    · obtain ⟨c, hm, hf⟩ := ih hc
      exact ⟨c, List.mem_cons_of_mem _ hm, hf⟩

theorem mem_rev (h : Faded cs cs') (hc : c ∈ cs) : ∃ c' ∈ cs', c.Fades c' := by
  induction h with
  | nil => simp at hc
  | cons hd _ ih =>
    rcases List.mem_cons.mp hc with rfl | hc
    · exact ⟨_, List.mem_cons_self, hd⟩
    · obtain ⟨c', hm, hf⟩ := ih hc
      exact ⟨c', List.mem_cons_of_mem _ hm, hf⟩

theorem mem_proven (h : Faded cs cs') (hc : c ∈ cs') (hp : c.state = .proven) : c ∈ cs := by
  obtain ⟨c₀, hm, hf⟩ := h.mem hc
  rwa [hf.proven hp]

theorem proven_mem (h : Faded cs cs') (hc : c ∈ cs) (hp : c.state = .proven) : c ∈ cs' := by
  obtain ⟨c₀, hm, hf⟩ := h.mem_rev hc
  rwa [← hf.of_proven hp]

/-- Fading neither adds to the unproven records nor takes from them. -/
theorem unproven_length (h : Faded cs cs') (frozen : List Proposal) :
    (cs'.filter fun c => c.state ≠ .proven ∧ ¬ frozen.any (·.candidateId = c.candidateId)).length =
      (cs.filter fun c =>
        c.state ≠ .proven ∧ ¬ frozen.any (·.candidateId = c.candidateId)).length := by
  induction h with
  | nil => rfl
  | cons hd _ ih =>
    rename_i a b _ _ _
    have hstate : b.state = .proven ↔ a.state = .proven :=
      ⟨fun hp => hd.proven hp ▸ hp, fun hp => (hd.of_proven hp).symm ▸ hp⟩
    simp only [List.filter_cons, ne_eq, hstate, hd.key.1]
    split
    · simpa using ih
    · exact ih

/-- A proven record with no earlier one of its id keeps that place. -/
theorem pairwise_first (h : Faded cs cs')
    (hf : cs.Pairwise fun a b => b.state = .proven → a.candidateId ≠ b.candidateId) :
    cs'.Pairwise fun a b => b.state = .proven → a.candidateId ≠ b.candidateId := by
  induction h with
  | nil => exact .nil
  | cons hd htail ih =>
    rw [List.pairwise_cons] at hf ⊢
    refine ⟨?_, ih hf.2⟩
    intro b hb hp
    rw [hd.key.1]
    exact hf.1 b (mem_proven htail hb hp) hp

theorem modifyFirst_timeOut (hf : cs.find? (·.candidateId = id) = some c)
    (ht : c.state.terminal = false) :
    Faded cs (Lists.modifyFirst (·.candidateId = id) State.timeOut cs) := by
  induction cs with
  | nil => exact .nil
  | cons a cs ih =>
    by_cases ha : a.candidateId = id
    · simp only [List.find?_cons, ha, decide_true, Option.some.injEq] at hf
      subst hf
      rw [Lists.modifyFirst, if_pos (by simp [ha])]
      exact .cons (.inr ⟨ht, rfl⟩) (refl cs)
    · simp only [List.find?_cons, ha, decide_false] at hf
      rw [Lists.modifyFirst, if_neg (by simp [ha])]
      exact .cons (.refl a) (ih hf)

end Faded

namespace State

variable {s : State} {nowMs epoch : U64} {members frozen : List Proposal} {id : CandidateId}

theorem recordTombstone_eq (s : State) (id : CandidateId) (nowMs : U64) :
    ∃ ts, s.recordTombstone id nowMs = { s with tombstones := ts } := by
  unfold recordTombstone
  split
  · exact ⟨s.tombstones, rfl⟩
  · exact ⟨_, rfl⟩

theorem failChallenged_faded (s : State) (nowMs : U64) :
    Faded s.candidates (s.failChallenged nowMs).candidates := by
  unfold Faded
  simp only [failChallenged, List.forall₂_map_right_iff, List.forall₂_same]
  intro c _
  split
  · rename_i h
    exact .inr ⟨by simp [h.2, CandidateState.terminal], rfl⟩
  · exact .refl c

theorem expireMember_eq (nowMs : U64) (s : State) (p : Proposal) :
    ∃ cs ts, Faded s.candidates cs ∧
      expireMember nowMs s p = { s with candidates := cs, tombstones := ts } := by
  unfold expireMember
  split
  · dsimp only
    split
    · rename_i c hc
      split
      · rename_i ht
        obtain ⟨ts, hts⟩ := recordTombstone_eq { s with
          candidates := Lists.modifyFirst (·.candidateId = p.candidateId) timeOut s.candidates }
          p.candidateId nowMs
        exact ⟨_, ts, .modifyFirst_timeOut hc (by simpa using ht), hts⟩
      · obtain ⟨ts, hts⟩ := recordTombstone_eq s p.candidateId nowMs
        exact ⟨s.candidates, ts, .refl _, hts⟩
    · obtain ⟨ts, hts⟩ := recordTombstone_eq s p.candidateId nowMs
      exact ⟨s.candidates, ts, .refl _, hts⟩
  · exact ⟨s.candidates, s.tombstones, .refl _, rfl⟩

theorem expireMembers_eq (s : State) (nowMs : U64) (members : List Proposal) :
    ∃ cs ts, Faded s.candidates cs ∧
      s.expireMembers nowMs members = { s with candidates := cs, tombstones := ts } := by
  induction members generalizing s with
  | nil => exact ⟨s.candidates, s.tombstones, .refl _, rfl⟩
  | cons p ps ih =>
    obtain ⟨cs, ts, hf, he⟩ := expireMember_eq nowMs s p
    obtain ⟨cs', ts', hf', he'⟩ := ih (expireMember nowMs s p)
    refine ⟨cs', ts', hf.trans (by rwa [he] at hf'), ?_⟩
    simp only [expireMembers, List.foldl_cons] at he' ⊢
    rw [he', he]

/-- Before the first settlement only records and tombstones have changed. -/
theorem expireMark_eq (s : State) (nowMs : U64) :
    ∃ cs ts, Faded s.candidates cs ∧
      s.expireMark nowMs = { s with candidates := cs, tombstones := ts } := by
  obtain ⟨cs, ts, hf, he⟩ := expireMembers_eq (s.failChallenged nowMs) nowMs s.frozenMembers
  refine ⟨cs, ts, (failChallenged_faded s nowMs).trans hf, ?_⟩
  rw [expireMark, he]
  rfl

theorem emitTimeout_eq (nowMs : U64) (s : State) (p : Proposal) :
    ∃ rs, emitTimeout nowMs s p = { s with
      emittedResults := s.emittedResults ++ rs.map (·.bytes)
      results := s.results ++ rs } ∧
      (rs = [] ∨ rs = [resultEntry p 3 nowMs none] ∧ s.results.length < RESULT_CACHE_SLOTS ∧
        s.emittedResults.length < RESULT_CACHE_SLOTS ∧
        ∀ r ∈ s.results, r.candidateId ≠ p.candidateId) := by
  unfold emitTimeout
  split
  · exact ⟨[], by simp, .inl rfl⟩
  · rename_i h
    push Not at h
    exact ⟨[resultEntry p 3 nowMs none], rfl, .inr ⟨rfl, h.1, h.2.1, by simpa using h.2.2⟩⟩

/-- Timeout results go to both caches alike and fill neither past its slots. -/
theorem emitTimeouts_foldl (nowMs : U64) (s : State) (ps : List Proposal) :
    ∃ rs, ps.foldl (emitTimeout nowMs) s = { s with
      emittedResults := s.emittedResults ++ rs.map (·.bytes)
      results := s.results ++ rs } ∧
      (∀ r ∈ rs, ∃ p ∈ ps, r = resultEntry p 3 nowMs none) ∧ rs.length ≤ ps.length ∧
      (rs ≠ [] → s.results.length + rs.length ≤ RESULT_CACHE_SLOTS ∧
        s.emittedResults.length + rs.length ≤ RESULT_CACHE_SLOTS) := by
  induction ps generalizing s with
  | nil => exact ⟨[], by simp, by simp, by simp, by simp⟩
  | cons p ps ih =>
    obtain ⟨rs, he, hrs⟩ := emitTimeout_eq nowMs s p
    obtain ⟨rs', he', hmem, hcount, hlen⟩ := ih (emitTimeout nowMs s p)
    refine ⟨rs ++ rs', ?_, ?_, ?_, ?_⟩
    · rw [List.foldl_cons, he', he]
      simp
    · intro r hr
      rcases List.mem_append.mp hr with hr | hr
      · rcases hrs with rfl | ⟨rfl, -⟩
        · simp at hr
        · exact ⟨p, List.mem_cons_self, List.mem_singleton.mp hr⟩
      · obtain ⟨q, hq, rfl⟩ := hmem r hr
        exact ⟨q, List.mem_cons_of_mem _ hq, rfl⟩
    · rcases hrs with rfl | ⟨rfl, -⟩
      · simpa using Nat.le_succ_of_le hcount
      · simpa [Nat.add_comm] using hcount
    · intro hne
      rw [he] at hlen
      simp only [List.length_append, List.length_map] at hlen ⊢
      by_cases hrs' : rs' = []
      · subst hrs'
        rcases hrs with rfl | ⟨rfl, hr, hem, -⟩
        · simp at hne
        · simp only [List.length_cons, List.length_nil]
          omega
      · have := hlen hrs'
        omega

theorem buryExpired_eq (s : State) (nowMs : U64) :
    ∃ ts, s.buryExpired nowMs = { s with tombstones := ts } := by
  have hfold : ∀ (ids : List CandidateId) (s : State),
      ∃ ts, ids.foldl (fun s id => s.recordTombstone id nowMs) s = { s with tombstones := ts } := by
    intro ids
    induction ids with
    | nil => exact fun s => ⟨s.tombstones, rfl⟩
    | cons id ids ih =>
      intro s
      obtain ⟨ts, hts⟩ := recordTombstone_eq s id nowMs
      obtain ⟨ts', hts'⟩ := ih (s.recordTombstone id nowMs)
      exact ⟨ts', by rw [List.foldl_cons, hts', hts]⟩
  obtain ⟨ts, hts⟩ := hfold (s.expiredIds nowMs) s
  exact ⟨ts.filter fun t => nowMs < t.2, by simp only [buryExpired, hts]⟩

/-- A cohort frozen anew from the cached proposals: the greatest epoch that has a proof. -/
def freshCohort (s : State) (kept : List Proposal) : Option (U64 × List Proposal) :=
  ((kept.filter fun p => s.isProven p.candidateId).map (·.epoch)).max?.map fun epoch =>
    (epoch, kept.filter (·.epoch = epoch))

/-- The cohort after expired proposals are gone: kept while its epoch has a proposal. -/
def cohortAfter (s : State) (kept : List Proposal) : Option (U64 × List Proposal) :=
  match s.frozenCohort with
  | some (epoch, members) =>
    if kept.any (·.epoch = epoch) then some (epoch, members) else s.freshCohort kept
  | none => s.freshCohort kept

theorem freshCohort_eq_some {kept : List Proposal} (h : s.freshCohort kept = some (epoch, members)) :
    (∃ p ∈ kept, p.epoch = epoch ∧ s.isProven p.candidateId = true) ∧
      members = kept.filter (·.epoch = epoch) ∧
      ∀ p ∈ kept, s.isProven p.candidateId = true → p.epoch ≤ epoch := by
  obtain ⟨f, hf, he⟩ := Option.map_eq_some_iff.mp h
  obtain ⟨rfl, rfl⟩ := Prod.mk.inj he
  obtain ⟨hmem, hmax⟩ := List.max?_eq_some_iff.mp hf
  obtain ⟨p, hp, hpe⟩ := List.mem_map.mp hmem
  rw [List.mem_filter] at hp
  refine ⟨⟨p, hp.1, hpe, hp.2⟩, rfl, ?_⟩
  intro q hq hproven
  exact hmax _ (List.mem_map.mpr ⟨q, List.mem_filter.mpr ⟨hq, hproven⟩, rfl⟩)

theorem freshCohort_eq_none {kept : List Proposal} (h : s.freshCohort kept = none) :
    ∀ p ∈ kept, s.isProven p.candidateId = false := by
  have hnil := List.max?_eq_none_iff.mp (Option.map_eq_none_iff.mp h)
  simpa using hnil

/-- A cohort after the sweep is the old one with a proposal left, or a new one. -/
theorem cohortAfter_eq_some {kept : List Proposal} (h : s.cohortAfter kept = some (epoch, members)) :
    (s.frozenCohort = some (epoch, members) ∧ ∃ p ∈ kept, p.epoch = epoch) ∨
      s.freshCohort kept = some (epoch, members) ∧
      ∀ f ms, s.frozenCohort = some (f, ms) → ∀ p ∈ kept, p.epoch ≠ f := by
  unfold cohortAfter at h
  split at h
  · rename_i f ms hf
    split at h
    · rename_i hany
      left
      obtain ⟨rfl, rfl⟩ := Prod.mk.inj (Option.some.inj h)
      exact ⟨hf, by simpa using hany⟩
    · rename_i hany
      refine .inr ⟨h, ?_⟩
      intro f' ms' hf'
      obtain ⟨rfl, -⟩ := Prod.mk.inj (Option.some.inj (hf.symm.trans hf'))
      simpa using hany
  · rename_i hf
    exact .inr ⟨h, by simp [hf]⟩

theorem cohortAfter_eq_none {kept : List Proposal} (h : s.cohortAfter kept = none) :
    s.freshCohort kept = none ∧ ∀ f ms, s.frozenCohort = some (f, ms) → ∀ p ∈ kept, p.epoch ≠ f := by
  unfold cohortAfter at h
  split at h
  · rename_i f ms hf
    split at h
    · simp at h
    · rename_i hany
      refine ⟨h, ?_⟩
      intro f' ms' hf'
      obtain ⟨rfl, -⟩ := Prod.mk.inj (Option.some.inj (hf.symm.trans hf'))
      simpa using hany
  · rename_i hf
    exact ⟨h, by simp [hf]⟩

theorem cohortAfter_nil : s.cohortAfter [] = none := by
  unfold cohortAfter freshCohort
  split <;> simp

theorem refreeze_eq (s : State) (h : s.frozenCohort = none) :
    s.refreeze = { s with frozenCohort := s.freshCohort s.proposals } := by
  unfold refreeze freshCohort
  rw [h]
  cases hp : s.provenEpoch with
  | none =>
    rw [provenEpoch] at hp
    simp [hp, ← h]
  | some epoch =>
    rw [provenEpoch] at hp
    simp [hp, Manager.proposalsOf]

theorem refreeze_dropEmptyCohort (s : State) :
    s.dropEmptyCohort.refreeze = { s with frozenCohort := s.cohortAfter s.proposals } := by
  unfold dropEmptyCohort cohortAfter
  cases h : s.frozenCohort with
  | none => rw [refreeze_eq s h]
  | some cohort =>
    obtain ⟨epoch, members⟩ := cohort
    dsimp only
    split
    · have hkept : s.refreeze = s := by simp [refreeze, h]
      rw [hkept, ← h]
    · exact refreeze_eq { s with frozenCohort := none } rfl

def oldBindingAfter (s : State) (nowMs : U64) : Option (ObservedBinding × U64) :=
  s.oldBinding.filter fun o => nowMs < o.2

theorem dropOldBinding_eq (s : State) (nowMs : U64) :
    s.dropOldBinding nowMs = { s with oldBinding := s.oldBindingAfter nowMs } := by
  unfold dropOldBinding
  split
  · rename_i h
    cases ho : s.oldBinding with
    | none => simp [ho] at h
    | some o =>
      have hle : o.2 ≤ nowMs := by simpa [ho] using h
      simp [oldBindingAfter, ho, Option.filter, not_lt.mpr hle]
  · rename_i h
    have hkept : s.oldBindingAfter nowMs = s.oldBinding := by
      cases ho : s.oldBinding with
      | none => simp [oldBindingAfter, ho]
      | some o => simpa [oldBindingAfter, ho, Option.filter] using h
    rw [hkept]

/-- Everything the sweep writes; `rs` are the timeout results. -/
theorem expireSweep_eq (s : State) (nowMs : U64) (frozen : List Proposal) :
    ∃ rs ts,
      s.expireSweep nowMs frozen = { s with
        results := (s.results.filter fun r => nowMs < r.expiryMs) ++ rs
        emittedResults := s.emittedResults ++ rs.map (·.bytes)
        tombstones := ts
        proposals := s.proposals.filter fun p => nowMs < p.expiryMs
        frozenCohort := s.cohortAfter (s.proposals.filter fun p => nowMs < p.expiryMs)
        candidates := s.candidates.filter fun c =>
          c.state ≠ .failed ∨ frozen.any (·.candidateId = c.candidateId)
        outbound := s.outbound.filter fun c => nowMs < c.expiryMs
        oldBinding := s.oldBindingAfter nowMs } ∧
      (∀ r ∈ rs, ∃ p ∈ s.timeoutFailures frozen, r = resultEntry p 3 nowMs none) ∧
      rs.length ≤ (s.timeoutFailures frozen).length ∧
      (rs ≠ [] → (s.results.filter fun r => nowMs < r.expiryMs).length + rs.length ≤
          RESULT_CACHE_SLOTS ∧ s.emittedResults.length + rs.length ≤ RESULT_CACHE_SLOTS) := by
  obtain ⟨rs, hrs, hmem, hcount, hlen⟩ :=
    emitTimeouts_foldl nowMs (s.dropResults nowMs) ((s.dropResults nowMs).timeoutFailures frozen)
  obtain ⟨ts, hts⟩ := buryExpired_eq ((s.dropResults nowMs).emitTimeouts nowMs frozen) nowMs
  refine ⟨rs, ts, ?_, hmem, hcount, hlen⟩
  have hemit : (s.dropResults nowMs).emitTimeouts nowMs frozen = _ := hrs
  rw [expireSweep, hts, hemit, refreeze_dropEmptyCohort, dropOldBinding_eq]
  rfl

/-- The fields a preview depends on and a commit trusts, other than the generation. Outbound
bindings, undelivered results, a minted admission and tombstones may differ. -/
structure Quiet (s s' : State) : Prop where
  closed : s'.closed = s.closed
  localEpoch : s'.localEpoch = s.localEpoch
  peerEpoch : s'.peerEpoch = s.peerEpoch
  localLoc : s'.localLoc = s.localLoc
  peerLoc : s'.peerLoc = s.peerLoc
  currentBinding : s'.currentBinding = s.currentBinding
  oldBinding : s'.oldBinding = s.oldBinding
  proposals : s'.proposals = s.proposals
  candidates : s'.candidates = s.candidates
  results : s'.results = s.results
  proposalTokens : s'.proposalTokens = s.proposalTokens
  proposalRefillMs : s'.proposalRefillMs = s.proposalRefillMs
  candidateSecret : s'.candidateSecret = s.candidateSecret
  frozenCohort : s'.frozenCohort = s.frozenCohort
  emittedResults : s'.emittedResults = s.emittedResults ∨ s'.emittedResults = []
  profile3Slot1Admitted : s'.profile3Slot1Admitted = s.profile3Slot1Admitted
  profile3Owner : s'.profile3Owner = s.profile3Owner

theorem Quiet.refl (s : State) : Quiet s s := by constructor <;> simp

theorem Quiet.trans {s s' s'' : State} (h : Quiet s s') (h' : Quiet s' s'') : Quiet s s'' where
  closed := h'.closed.trans h.closed
  localEpoch := h'.localEpoch.trans h.localEpoch
  peerEpoch := h'.peerEpoch.trans h.peerEpoch
  localLoc := h'.localLoc.trans h.localLoc
  peerLoc := h'.peerLoc.trans h.peerLoc
  currentBinding := h'.currentBinding.trans h.currentBinding
  oldBinding := h'.oldBinding.trans h.oldBinding
  proposals := h'.proposals.trans h.proposals
  candidates := h'.candidates.trans h.candidates
  results := h'.results.trans h.results
  proposalTokens := h'.proposalTokens.trans h.proposalTokens
  proposalRefillMs := h'.proposalRefillMs.trans h.proposalRefillMs
  candidateSecret := h'.candidateSecret.trans h.candidateSecret
  frozenCohort := h'.frozenCohort.trans h.frozenCohort
  emittedResults := by
    rcases h'.emittedResults with he | he
    · rw [he]
      exact h.emittedResults
    · exact .inr he
  profile3Slot1Admitted := h'.profile3Slot1Admitted.trans h.profile3Slot1Admitted
  profile3Owner := h'.profile3Owner.trans h.profile3Owner

theorem failChallenged_unchanged
    (h : s.candidates.any (fun c => c.expiryMs ≤ nowMs ∧ c.state = .challenged) = false) :
    s.failChallenged nowMs = s := by
  have hmap : (s.candidates.map fun c =>
      if c.expiryMs ≤ nowMs ∧ c.state = .challenged then timeOut c else c) = s.candidates := by
    conv_rhs => rw [← List.map_id s.candidates]
    apply List.map_congr_left
    intro c hc
    have hn := List.any_eq_false.mp h c hc
    simp only [decide_eq_true_eq] at hn
    simp [hn]
  rw [failChallenged, hmap]

theorem expireMember_unchanged {p : Proposal} (h : memberChanges nowMs s p = false) :
    ∃ ts, expireMember nowMs s p = { s with tombstones := ts } := by
  unfold expireMember
  split
  · rename_i hle
    simp only [memberChanges, hle, decide_true, Bool.true_and] at h
    dsimp only
    split
    · rename_i c hc
      simp only [hc, Bool.not_eq_false'] at h
      simp only [h, not_true, if_false]
      exact recordTombstone_eq s p.candidateId nowMs
    · rename_i hc
      simp [hc] at h
  · exact ⟨s.tombstones, rfl⟩

theorem expireMembers_unchanged (h : membersChange nowMs s members = false) :
    ∃ ts, s.expireMembers nowMs members = { s with tombstones := ts } := by
  induction members generalizing s with
  | nil => exact ⟨s.tombstones, rfl⟩
  | cons p ps ih =>
    simp only [membersChange, Bool.or_eq_false_iff] at h
    obtain ⟨ts, hts⟩ := expireMember_unchanged h.1
    obtain ⟨ts', hts'⟩ := ih h.2
    refine ⟨ts', ?_⟩
    simp only [expireMembers, List.foldl_cons] at hts' ⊢
    rw [hts', hts]

theorem settle_unchanged {profile : Byte} {scid : U64}
    (h : (s.settleFrozenCohort profile scid nowMs).2 = false) :
    (s.settleFrozenCohort profile scid nowMs).1 = s := by
  rcases settle_cases s profile scid nowMs with ⟨he, -⟩ | ⟨_, _, _, _, _, he⟩ |
    ⟨_, _, _, _, _, _, he⟩
  · rw [he]
  · simp [he] at h
  · simp [he] at h

theorem filter_eq_of_length {α : Type*} {l : List α} {q : α → Bool}
    (h : (l.filter q).length = l.length) : l.filter q = l :=
  List.filter_eq_self.mpr (List.length_filter_eq_length_iff.mp h)

theorem emitTimeouts_unchanged
    (h : (s.emitTimeouts nowMs frozen).results.length = s.results.length) :
    s.emitTimeouts nowMs frozen = s := by
  obtain ⟨rs, hrs, -⟩ := emitTimeouts_foldl nowMs s (s.timeoutFailures frozen)
  rw [emitTimeouts, hrs] at h ⊢
  have hnil : rs = [] := by simpa using h
  simp [hnil]

theorem sweep_unchanged (h : s.sweepChanges nowMs frozen = false) :
    ∃ ts, s.expireSweep nowMs frozen = { s with tombstones := ts } := by
  simp only [sweepChanges, decide_eq_false_iff_not] at h
  push Not at h
  obtain ⟨hres, hemit, hprop, hcohort, hfresh, hcand, hout, hold⟩ := h
  have h₁ : s.dropResults nowMs = s := by
    rw [dropResults, filter_eq_of_length (by simpa [dropResults] using hres)]
  rw [h₁] at hemit hprop hcohort hfresh hcand hout hold
  have h₂ := emitTimeouts_unchanged hemit
  rw [h₂] at hprop hcohort hfresh hcand hout hold
  obtain ⟨ts, hts⟩ := buryExpired_eq s nowMs
  have h₃ : (s.buryExpired nowMs).dropProposals nowMs = { s with tombstones := ts } := by
    rw [hts] at hprop ⊢
    rw [dropProposals, filter_eq_of_length (by simpa [dropProposals] using hprop)]
  generalize ht : ({ s with tombstones := ts } : State) = t at h₃
  rw [h₃] at hcohort hfresh hcand hout hold
  have h₄ : t.dropEmptyCohort.refreeze = t := by
    have hsame := hfresh.trans hcohort
    rw [refreeze_dropEmptyCohort] at hsame ⊢
    dsimp only at hsame
    rw [hsame]
  rw [h₄] at hcand hout hold
  have h₅ : t.dropFailed frozen = t := by
    rw [dropFailed, filter_eq_of_length (by simpa [dropFailed] using hcand)]
  rw [h₅] at hout hold
  have h₆ : t.dropOutbound nowMs = t := by
    rw [dropOutbound, filter_eq_of_length (by simpa [dropOutbound] using hout)]
  refine ⟨ts, ?_⟩
  rw [expireSweep, h₁, h₂, h₃, h₄, h₅, h₆, dropOldBinding, if_neg hold, ht]

/-- An expiry that reports no change may only touch tombstones. -/
theorem expire_unchanged {m : Manager} (hc : s.closed = false)
    (h : s.expireChanges m nowMs = false) : ∃ ts, s.expire m nowMs = { s with tombstones := ts } := by
  have hno := h
  simp only [expireChanges, Bool.or_eq_false_iff] at h
  obtain ⟨⟨⟨⟨hfail, hmembers⟩, hfirst⟩, hsweep⟩, hsecond⟩ := h
  have h₁ := failChallenged_unchanged hfail
  rw [h₁] at hmembers
  obtain ⟨ts, hts⟩ := expireMembers_unchanged hmembers
  rw [settle_unchanged hfirst] at hsweep
  obtain ⟨ts', hts'⟩ := sweep_unchanged hsweep
  refine ⟨ts', ?_⟩
  have hmark : s.expireMark nowMs = { s with tombstones := ts } := by rw [expireMark, h₁, hts]
  simp only [expire, hc, hno, Bool.false_eq_true, if_false]
  rw [settle_unchanged hsecond, expireBeforeSettle, settle_unchanged hfirst, hts', hmark]
  simp [hc]

theorem expireBeforeSettle_frame (m : Manager) (s : State) (nowMs : U64) :
    SameFrame s (s.expireBeforeSettle m nowMs) := by
  obtain ⟨cs, ts, -, hmark⟩ := expireMark_eq s nowMs
  have hs := settle_frame (s.expireMark nowMs) m.profile m.scid nowMs
  obtain ⟨rs, ts', hsweep, -⟩ := expireSweep_eq
    ((s.expireMark nowMs).settleFrozenCohort m.profile m.scid nowMs).1 nowMs s.frozenMembers
  rw [expireBeforeSettle, hsweep]
  rw [hmark] at hs ⊢
  exact ⟨hs.generation, hs.closed, hs.localEpoch, hs.localLoc⟩

/-- The state `expire` leaves before it takes a new generation. -/
def expireSettled (m : Manager) (s : State) (nowMs : U64) : State :=
  ((s.expireBeforeSettle m nowMs).settleFrozenCohort m.profile m.scid nowMs).1

theorem expireSettled_frame (m : Manager) (s : State) (nowMs : U64) :
    SameFrame s (s.expireSettled m nowMs) := by
  have h₁ := expireBeforeSettle_frame m s nowMs
  have h₂ := settle_frame (s.expireBeforeSettle m nowMs) m.profile m.scid nowMs
  exact ⟨h₂.generation.trans h₁.generation, h₂.closed.trans h₁.closed,
    h₂.localEpoch.trans h₁.localEpoch, h₂.localLoc.trans h₁.localLoc⟩

/-- The settled state, under this or the next generation, or erased when no generation is left. -/
theorem expire_settled {m : Manager} (s : State) (nowMs : U64) (hc : s.closed = false) :
    (∃ g : U64, g.val ≤ s.generation.val + 1 ∧
      s.expire m nowMs = { s.expireSettled m nowMs with generation := g }) ∨
    checkedAdd s.generation 1 = none ∧ s.expire m nowMs = (s.expireSettled m nowMs).wipe := by
  have hg := (expireSettled_frame m s nowMs).generation
  by_cases hch : s.expireChanges m nowMs = true
  · have he : s.expire m nowMs = (s.expireSettled m nowMs).bumpGeneration := by
      simp [expire, hc, hch, expireSettled]
    rw [he, bumpGeneration, hg]
    cases hadd : checkedAdd s.generation 1 with
    | none => exact .inr ⟨rfl, rfl⟩
    | some g => exact .inl ⟨g, (checkedAdd_eq_some.mp hadd).le, rfl⟩
  · refine .inl ⟨(s.expireSettled m nowMs).generation, by rw [hg]; omega, ?_⟩
    simp [expire, hc, hch, expireSettled]

/-- An expiry of an open manager changes tombstones only, takes a new generation, or closes. -/
theorem expire_cases {m : Manager} (s : State) (nowMs : U64) (hc : s.closed = false) :
    (∃ ts, s.expire m nowMs = { s with tombstones := ts }) ∨
    (∃ g, checkedAdd s.generation 1 = some g ∧
      s.expire m nowMs = { s.expireSettled m nowMs with generation := g }) ∨
    s.expire m nowMs = (s.expireSettled m nowMs).wipe := by
  by_cases hch : s.expireChanges m nowMs = true
  · right
    have hg := (expireSettled_frame m s nowMs).generation
    have he : s.expire m nowMs = (s.expireSettled m nowMs).bumpGeneration := by
      simp [expire, hc, hch, expireSettled]
    rw [he, bumpGeneration, hg]
    cases hadd : checkedAdd s.generation 1 with
    | none => exact .inr rfl
    | some g => exact .inl ⟨g, rfl, rfl⟩
  · exact .inl (expire_unchanged hc (by simpa using hch))

end State

end R8.Mobility
