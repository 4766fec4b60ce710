import R8Protocol.Mobility.Results

/-! The timeout results an expiry stores, and for which proposals a stored result answers. -/
namespace R8.Mobility

open FixedWidth Wire Session

/-- A response for the proposal is answered with the result, for as long as that is stored. -/
def ResultEntry.Answers (r : ResultEntry) (p : Proposal) : Prop :=
  r.candidateId = p.candidateId ∧ r.epoch = p.epoch ∧ r.slot = p.slot

instance (r : ResultEntry) (p : Proposal) : Decidable (r.Answers p) :=
  inferInstanceAs (Decidable (_ ∧ _))

/-- How many results are of no use to the proposal. -/
def foreign (p : Proposal) (rs : List ResultEntry) : ℕ := (rs.filter fun r => ¬ r.Answers p).length

section

variable {p q : Proposal} {ps : List Proposal} {r : ResultEntry} {rs rs' : List ResultEntry}
  {nowMs : U64}

theorem resultEntry_answers (p : Proposal) (result : Byte) (nowMs : U64)
    (response : Option BindResponseIdentity) :
    (resultEntry p result nowMs response).Answers p := ⟨rfl, rfl, rfl⟩

theorem foreign_le (p : Proposal) (rs : List ResultEntry) : foreign p rs ≤ rs.length :=
  List.length_filter_le _ _

theorem foreign_append (p : Proposal) (rs rs' : List ResultEntry) :
    foreign p (rs ++ rs') = foreign p rs + foreign p rs' := by
  simp [foreign]

theorem foreign_sublist (h : rs'.Sublist rs) : foreign p rs' ≤ foreign p rs :=
  (h.filter _).length_le

theorem foreign_eq_zero (h : ∀ r ∈ rs, r.Answers p) : foreign p rs = 0 := by
  rw [foreign, List.length_eq_zero_iff, List.filter_eq_nil_iff]
  intro r hr
  simp [h r hr]

/-- With fewer foreign results than results, one answers for the proposal. -/
theorem exists_answers (h : foreign p rs < rs.length) : ∃ r ∈ rs, r.Answers p := by
  by_contra hno
  push Not at hno
  have hall : (rs.filter fun r => ¬ r.Answers p) = rs :=
    List.filter_eq_self.mpr (by simpa using hno)
  rw [foreign, hall] at h
  exact absurd h (lt_irrefl _)

/-- Two of a list of two are all there are. -/
theorem eq_or_eq_of_two {a : Proposal} (hlen : ps.length ≤ PROPOSAL_SLOTS) (hp : p ∈ ps)
    (hq : q ∈ ps) (hne : p ≠ q) (ha : a ∈ ps) : a = p ∨ a = q := by
  by_contra hno
  push Not at hno
  have hsub : [a, p, q].Subperm ps :=
    List.subperm_of_subset (by simp [hno, hne]) (by simp [ha, hp, hq])
  have hle := hsub.length_le
  simp only [PROPOSAL_SLOTS, List.length_cons, List.length_nil] at hlen hle
  omega

/-- Results of distinct ids that answer for two proposals leave each at most one foreign. -/
theorem foreign_le_one (hlen : ps.length ≤ PROPOSAL_SLOTS)
    (hall : ∀ r ∈ rs, ∃ q ∈ ps, r.Answers q) (hnodup : (rs.map (·.candidateId)).Nodup)
    (hp : p ∈ ps) : foreign p rs ≤ 1 := by
  have hothers : (ps.filter (· ≠ p)).length < ps.length :=
    List.length_filter_lt_length_iff_exists.mpr ⟨p, hp, by simp⟩
  have hnd : ((rs.filter fun r => ¬ r.Answers p).map (·.candidateId)).Nodup :=
    hnodup.sublist (List.filter_sublist.map _)
  have hsub : (rs.filter fun r => ¬ r.Answers p).map (·.candidateId) ⊆
      (ps.filter (· ≠ p)).map (·.candidateId) := by
    intro id hid
    obtain ⟨r, hr, rfl⟩ := List.mem_map.mp hid
    obtain ⟨hr, hnot⟩ := List.mem_filter.mp hr
    obtain ⟨q, hq, hans⟩ := hall r hr
    refine List.mem_map.mpr ⟨q, List.mem_filter.mpr ⟨hq, ?_⟩, hans.1.symm⟩
    rw [decide_eq_true_eq] at hnot ⊢
    rintro rfl
    exact hnot hans
  have hle := (List.subperm_of_subset hnd hsub).length_le
  rw [List.length_map, List.length_map] at hle
  rw [foreign]
  simp only [PROPOSAL_SLOTS] at hlen
  omega

end

namespace State

variable {s : State} {nowMs : U64} {p q : Proposal} {ps frozen : List Proposal} {r : ResultEntry}

/-- Stored results are only added to. -/
theorem emitTimeouts_results (nowMs : U64) (s : State) (ps : List Proposal) :
    ∃ rs, (ps.foldl (emitTimeout nowMs) s).results = s.results ++ rs ∧
      ∀ r ∈ rs, ∃ p ∈ ps, r = resultEntry p 3 nowMs none ∧
        ∀ r' ∈ s.results, r'.candidateId ≠ p.candidateId := by
  induction ps generalizing s with
  | nil => exact ⟨[], by simp, by simp⟩
  | cons p ps ih =>
    obtain ⟨rs, he, hrs⟩ := emitTimeout_eq nowMs s p
    obtain ⟨rs', he', hrs'⟩ := ih (emitTimeout nowMs s p)
    have hresults : (emitTimeout nowMs s p).results = s.results ++ rs := by rw [he]
    rw [hresults] at he' hrs'
    refine ⟨rs ++ rs', by rw [List.foldl_cons, he', List.append_assoc], ?_⟩
    intro r hr
    rcases List.mem_append.mp hr with hr | hr
    · rcases hrs with rfl | ⟨rfl, -, -, hno⟩
      · simp at hr
      · exact ⟨p, List.mem_cons_self, List.mem_singleton.mp hr, hno⟩
    · obtain ⟨q, hq, hr, hno⟩ := hrs' r hr
      exact ⟨q, List.mem_cons_of_mem _ hq, hr, fun r' hr' => hno r' (List.mem_append_left _ hr')⟩

/-- No id gets a second result. -/
theorem emitTimeouts_nodup (nowMs : U64) (ps : List Proposal)
    (h : (s.results.map (·.candidateId)).Nodup) :
    ((ps.foldl (emitTimeout nowMs) s).results.map (·.candidateId)).Nodup := by
  induction ps generalizing s with
  | nil => exact h
  | cons p ps ih =>
    rw [List.foldl_cons]
    apply ih
    obtain ⟨rs, he, hrs⟩ := emitTimeout_eq nowMs s p
    rw [he]
    dsimp only
    rcases hrs with rfl | ⟨rfl, -, -, hno⟩
    · simpa using h
    · rw [List.map_append, List.nodup_append]
      refine ⟨h, by simp, ?_⟩
      intro id hid id' hid' heq
      obtain ⟨r, hr, rfl⟩ := List.mem_map.mp hid
      obtain rfl := List.mem_singleton.mp hid'
      exact hno r hr heq

/-- With room for all of them, every proposal has a result of its id afterwards. -/
theorem emitTimeouts_covers (nowMs : U64) {ps : List Proposal}
    (hres : s.results.length + ps.length ≤ RESULT_CACHE_SLOTS)
    (hem : s.emittedResults.length + ps.length ≤ RESULT_CACHE_SLOTS) :
    ∀ p ∈ ps, ∃ r ∈ (ps.foldl (emitTimeout nowMs) s).results, r.candidateId = p.candidateId := by
  induction ps generalizing s with
  | nil => simp
  | cons p ps ih =>
    simp only [List.length_cons] at hres hem
    have hstored : ∃ r ∈ (emitTimeout nowMs s p).results, r.candidateId = p.candidateId := by
      unfold emitTimeout
      split
      · rename_i h
        rcases h with h | h | h
        · omega
        · omega
        · simpa using h
      · exact ⟨_, List.mem_append_right _ List.mem_cons_self, rfl⟩
    have hroom : (emitTimeout nowMs s p).results.length ≤ s.results.length + 1 ∧
        (emitTimeout nowMs s p).emittedResults.length ≤ s.emittedResults.length + 1 := by
      unfold emitTimeout
      split <;> simp
    intro q hq
    rw [List.foldl_cons]
    rcases List.mem_cons.mp hq with rfl | hq
    · obtain ⟨r, hr, hid⟩ := hstored
      obtain ⟨rs, he, -⟩ := emitTimeouts_results nowMs (emitTimeout nowMs s q) ps
      exact ⟨r, he ▸ List.mem_append_left _ hr, hid⟩
    · exact ih (by omega) (by omega) q hq

theorem mem_timeoutFailures (h : p ∈ s.timeoutFailures frozen) :
    p ∈ s.proposals ∧ ∃ c ∈ s.candidates, c.candidateId = p.candidateId ∧ c.state = .failed := by
  obtain ⟨c, hc, hfind⟩ := List.mem_filterMap.mp h
  obtain ⟨hc, hstate⟩ := List.mem_filter.mp hc
  have hid := List.find?_some hfind
  simp only [decide_eq_true_eq] at hid hstate
  exact ⟨List.mem_of_find?_eq_some hfind, c, hc, hid.symm, hstate.1⟩

theorem timeoutFailures_of_mem {c : Candidate} (hids : (s.proposals.map (·.candidateId)).Nodup)
    (hp : p ∈ s.proposals) (hc : c ∈ s.candidates) (hid : c.candidateId = p.candidateId)
    (hstate : c.state = .failed) : p ∈ s.timeoutFailures [] := by
  refine List.mem_filterMap.mpr ⟨c, List.mem_filter.mpr ⟨hc, by simp [hstate]⟩, ?_⟩
  obtain ⟨q, hq⟩ : ∃ q, s.proposals.find? (·.candidateId = c.candidateId) = some q :=
    Option.isSome_iff_exists.mp (List.find?_isSome.mpr ⟨p, hp, by simp [hid]⟩)
  have hkey := List.find?_some hq
  simp only [decide_eq_true_eq] at hkey
  rw [hq, List.inj_on_of_nodup_map hids (List.mem_of_find?_eq_some hq) hp (hkey.trans hid)]

/-- The results the sweep leaves: the live ones and the timeouts. -/
theorem expireSweep_results (s : State) (nowMs : U64) (frozen : List Proposal) :
    (s.expireSweep nowMs frozen).results =
      ((s.timeoutFailures frozen).foldl (emitTimeout nowMs) (s.dropResults nowMs)).results := by
  obtain ⟨ts, hts⟩ := buryExpired_eq ((s.dropResults nowMs).emitTimeouts nowMs frozen) nowMs
  rw [expireSweep, hts, refreeze_dropEmptyCohort, dropOldBinding_eq]
  rfl

end State

end R8.Mobility
