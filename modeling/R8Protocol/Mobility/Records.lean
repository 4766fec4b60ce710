import R8Protocol.Mobility.Run

/-! The candidate records of a run: records of one id agree, and a proven one is found first. -/
namespace R8.Mobility

open FixedWidth Wire Session

/-- What the cached proposals and the records have in common in every run. -/
structure Records (ps : List Proposal) (cs : List Candidate) : Prop where
  keyed : ∀ c ∈ cs, ∀ c' ∈ cs, c.candidateId = c'.candidateId →
    c.loc = c'.loc ∧ c.epoch = c'.epoch ∧ c.slot = c'.slot
  cached : ∀ c ∈ cs, ∀ p ∈ ps, p.candidateId = c.candidateId →
    p.loc = c.loc ∧ p.epoch = c.epoch ∧ p.slot = c.slot
  ids : (ps.map (·.candidateId)).Nodup
  first : cs.Pairwise fun a b => b.state = .proven → a.candidateId ≠ b.candidateId
  live : ∀ c ∈ cs, c.state ≠ .promoted
  proposals_le : ps.length ≤ PROPOSAL_SLOTS
  candidates_le : cs.length ≤ LIVE_CANDIDATES_MAX

namespace Records

variable {ps ps' : List Proposal} {cs cs' : List Candidate}

theorem nil : Records [] [] := by constructor <;> simp

theorem proposals (h : Records ps cs) (hs : ps'.Sublist ps) : Records ps' cs where
  keyed := h.keyed
  cached c hc p hp := h.cached c hc p (hs.subset hp)
  ids := h.ids.sublist (hs.map _)
  first := h.first
  live := h.live
  proposals_le := hs.length_le.trans h.proposals_le
  candidates_le := h.candidates_le

theorem candidates (h : Records ps cs) (q : Candidate → Bool) : Records ps (cs.filter q) where
  keyed c hc c' hc' := h.keyed c (List.mem_filter.mp hc).1 c' (List.mem_filter.mp hc').1
  cached c hc := h.cached c (List.mem_filter.mp hc).1
  ids := h.ids
  first := h.first.filter q
  live c hc := h.live c (List.mem_filter.mp hc).1
  proposals_le := h.proposals_le
  candidates_le := (List.length_filter_le q cs).trans h.candidates_le

theorem faded (h : Records ps cs) (hf : Faded cs cs') : Records ps cs' where
  keyed c hc c' hc' hid := by
    obtain ⟨a, ha, hfa⟩ := hf.mem hc
    obtain ⟨b, hb, hfb⟩ := hf.mem hc'
    obtain ⟨h₁, h₂, h₃, h₄, -⟩ := hfa.key
    obtain ⟨h₁', h₂', h₃', h₄', -⟩ := hfb.key
    rw [h₂, h₃, h₄, h₂', h₃', h₄']
    exact h.keyed a ha b hb (by rw [← h₁, ← h₁', hid])
  cached c hc p hp hid := by
    obtain ⟨a, ha, hfa⟩ := hf.mem hc
    obtain ⟨h₁, h₂, h₃, h₄, -⟩ := hfa.key
    rw [h₂, h₃, h₄]
    exact h.cached a ha p hp (hid.trans h₁)
  ids := h.ids
  first := hf.pairwise_first h.first
  live c hc := by
    obtain ⟨a, ha, hfa⟩ := hf.mem hc
    rcases hfa with rfl | ⟨-, rfl⟩
    · exact h.live _ ha
    · simp [State.timeOut]
  proposals_le := h.proposals_le
  candidates_le := hf.length_eq.trans_le h.candidates_le

theorem cache {p : Proposal} (h : Records ps cs) (hp : ∀ q ∈ ps, q.candidateId ≠ p.candidateId)
    (hc : ∀ c ∈ cs, c.candidateId ≠ p.candidateId) (hlen : ps.length < PROPOSAL_SLOTS) :
    Records (ps ++ [p]) cs where
  keyed := h.keyed
  cached c hm q hq hid := by
    rcases List.mem_append.mp hq with hq | hq
    · exact h.cached c hm q hq hid
    · obtain rfl := List.mem_singleton.mp hq
      exact absurd hid.symm (hc c hm)
  ids := by
    rw [List.map_append, List.nodup_append]
    refine ⟨h.ids, by simp, ?_⟩
    intro a ha b hb hab
    obtain ⟨q, hq, rfl⟩ := List.mem_map.mp ha
    obtain rfl := List.mem_singleton.mp hb
    exact hp q hq hab
  first := h.first
  live := h.live
  proposals_le := by simpa using hlen
  candidates_le := h.candidates_le

theorem challenge {c : Candidate} {p : Proposal} (h : Records ps cs) (hp : p ∈ ps)
    (hid : p.candidateId = c.candidateId) (hloc : p.loc = c.loc) (hepoch : p.epoch = c.epoch)
    (hslot : p.slot = c.slot) (hstate : c.state = .challenged)
    (hlen : cs.length ≠ LIVE_CANDIDATES_MAX) : Records ps (cs ++ [c]) := by
  have hagree : ∀ a ∈ cs, a.candidateId = c.candidateId →
      a.loc = c.loc ∧ a.epoch = c.epoch ∧ a.slot = c.slot := by
    intro a ha hida
    obtain ⟨h₁, h₂, h₃⟩ := h.cached a ha p hp (hid.trans hida.symm)
    exact ⟨h₁.symm.trans hloc, h₂.symm.trans hepoch, h₃.symm.trans hslot⟩
  refine ⟨?_, ?_, h.ids, ?_, ?_, h.proposals_le, ?_⟩
  · intro a ha b hb hab
    rw [List.mem_append, List.mem_singleton] at ha hb
    rcases ha with ha | rfl <;> rcases hb with hb | rfl
    · exact h.keyed a ha b hb hab
    · exact hagree a ha hab
    · obtain ⟨h₁, h₂, h₃⟩ := hagree b hb hab.symm
      exact ⟨h₁.symm, h₂.symm, h₃.symm⟩
    · exact ⟨rfl, rfl, rfl⟩
  · intro a ha q hq hidq
    rw [List.mem_append, List.mem_singleton] at ha
    rcases ha with ha | rfl
    · exact h.cached a ha q hq hidq
    · obtain rfl := List.inj_on_of_nodup_map h.ids hq hp (hidq.trans hid.symm)
      exact ⟨hloc, hepoch, hslot⟩
  · rw [List.pairwise_append]
    refine ⟨h.first, List.pairwise_singleton _ _, ?_⟩
    intro a _ b hb hproven
    obtain rfl := List.mem_singleton.mp hb
    simp [hstate] at hproven
  · intro a ha
    rw [List.mem_append, List.mem_singleton] at ha
    rcases ha with ha | rfl
    · exact h.live a ha
    · simp [hstate]
  · have := h.candidates_le
    simp only [List.length_append, List.length_singleton]
    omega

/-- A proven record is the one found by its id alone. -/
theorem find_proven {c : Candidate} (h : Records ps cs) (hc : c ∈ cs) (hp : c.state = .proven) :
    cs.find? (·.candidateId = c.candidateId) = some c := by
  have hfirst := h.first
  clear h
  induction cs with
  | nil => simp at hc
  | cons a cs ih =>
    rw [List.pairwise_cons] at hfirst
    rcases List.mem_cons.mp hc with rfl | hc
    · simp
    · have hne := hfirst.1 c hc hp
      simpa [List.find?_cons, hne] using ih hc hfirst.2

/-- The record a proof is applied to, by id, epoch and slot. -/
def proofTarget (id : CandidateId) (epoch : U64) (slot : Byte) (c : Candidate) : Bool :=
  c.candidateId = id ∧ c.epoch = epoch ∧ c.slot = slot

def proofUpdate (r : BindResponseIdentity) (c : Candidate) : Candidate :=
  { c with state := .proven, response := some r }

theorem mem_prove {id : CandidateId} {epoch : U64} {slot : Byte} {r : BindResponseIdentity}
    {b : Candidate}
    (hb : b ∈ Lists.modifyFirst (proofTarget id epoch slot) (proofUpdate r) cs) :
    b ∈ cs ∨ ∃ a, cs.find? (proofTarget id epoch slot) = some a ∧ b = proofUpdate r a :=
  Lists.mem_modifyFirst hb

theorem mem_prove_key {id : CandidateId} {epoch : U64} {slot : Byte} {r : BindResponseIdentity}
    {b : Candidate}
    (hb : b ∈ Lists.modifyFirst (proofTarget id epoch slot) (proofUpdate r) cs) :
    ∃ a ∈ cs, a.candidateId = b.candidateId ∧ a.loc = b.loc ∧ a.epoch = b.epoch ∧
      a.slot = b.slot ∧ a.binding = b.binding ∧ a.expiryMs = b.expiryMs := by
  rcases mem_prove hb with hb | ⟨a, ha, rfl⟩
  · exact ⟨b, hb, rfl, rfl, rfl, rfl, rfl, rfl⟩
  · exact ⟨a, List.mem_of_find?_eq_some ha, rfl, rfl, rfl, rfl, rfl, rfl⟩

/-- A proven record is still there, proven, after another proof. -/
theorem prove_keeps {a : Candidate} (id : CandidateId) (epoch : U64) (slot : Byte)
    (r : BindResponseIdentity) (ha : a ∈ cs) (hs : a.state = .proven) :
    ∃ b ∈ Lists.modifyFirst (proofTarget id epoch slot) (proofUpdate r) cs,
      b.candidateId = a.candidateId ∧ b.epoch = a.epoch ∧ b.state = .proven := by
  rcases Lists.mem_modifyFirst_or (p := proofTarget id epoch slot) (f := proofUpdate r) ha with
    ha | ha
  · exact ⟨a, ha, rfl, rfl, hs⟩
  · exact ⟨_, ha, rfl, rfl, rfl⟩

/-- The proven record stays first, since an earlier one of its id would have been the target. -/
theorem first_prove {id : CandidateId} {epoch : U64} {slot : Byte} {r : BindResponseIdentity}
    (hkeyed : ∀ c ∈ cs, ∀ c' ∈ cs, c.candidateId = c'.candidateId →
      c.loc = c'.loc ∧ c.epoch = c'.epoch ∧ c.slot = c'.slot)
    (hfirst : cs.Pairwise fun a b => b.state = .proven → a.candidateId ≠ b.candidateId) :
    (Lists.modifyFirst (proofTarget id epoch slot) (proofUpdate r) cs).Pairwise fun a b =>
      b.state = .proven → a.candidateId ≠ b.candidateId := by
  induction cs with
  | nil => exact .nil
  | cons a cs ih =>
    rw [List.pairwise_cons] at hfirst
    by_cases ha : proofTarget id epoch slot a = true
    · rw [Lists.modifyFirst, if_pos ha, List.pairwise_cons]
      exact ⟨hfirst.1, hfirst.2⟩
    · rw [Lists.modifyFirst, if_neg ha, List.pairwise_cons]
      refine ⟨?_, ih (fun c hc c' hc' => hkeyed c (List.mem_cons_of_mem _ hc) c'
        (List.mem_cons_of_mem _ hc')) hfirst.2⟩
      intro b hb hproven hid
      rcases mem_prove hb with hb | ⟨c, hc, rfl⟩
      · exact hfirst.1 b hb hproven hid
      · have htarget := List.find?_some hc
        have hmem := List.mem_of_find?_eq_some hc
        obtain ⟨-, he, hs⟩ := hkeyed a List.mem_cons_self c (List.mem_cons_of_mem _ hmem) hid
        simp only [proofTarget, decide_eq_true_eq] at htarget
        apply ha
        simp only [proofTarget, decide_eq_true_eq]
        exact ⟨hid.trans htarget.1, he.trans htarget.2.1, hs.trans htarget.2.2⟩

theorem prove (h : Records ps cs) (id : CandidateId) (epoch : U64) (slot : Byte)
    (r : BindResponseIdentity) :
    Records ps (Lists.modifyFirst (proofTarget id epoch slot) (proofUpdate r) cs) where
  keyed c hc c' hc' hid := by
    obtain ⟨a, ha, h₁, h₂, h₃, h₄, -⟩ := mem_prove_key hc
    obtain ⟨b, hb, h₁', h₂', h₃', h₄', -⟩ := mem_prove_key hc'
    rw [← h₂, ← h₃, ← h₄, ← h₂', ← h₃', ← h₄']
    exact h.keyed a ha b hb (by rw [h₁, h₁', hid])
  cached c hc p hp hid := by
    obtain ⟨a, ha, h₁, h₂, h₃, h₄, -⟩ := mem_prove_key hc
    rw [← h₂, ← h₃, ← h₄]
    exact h.cached a ha p hp (hid.trans h₁.symm)
  ids := h.ids
  first := first_prove h.keyed h.first
  live c hc := by
    rcases mem_prove hc with hc | ⟨a, -, rfl⟩
    · exact h.live c hc
    · simp [proofUpdate]
  proposals_le := h.proposals_le
  candidates_le := by
    rw [Lists.length_modifyFirst]
    exact h.candidates_le

end Records

theorem markProven_eq (s : State) (id : CandidateId) (epoch : U64) (slot : Byte)
    (r : BindResponseIdentity) :
    ∃ cohort, Manager.markProven s id epoch slot r = { s with
      candidates := Lists.modifyFirst (Records.proofTarget id epoch slot) (Records.proofUpdate r)
        s.candidates
      frozenCohort := cohort } ∧
      ((s.frozenCohort = none ∧ Manager.greatestEpoch s = some epoch ∧
        cohort = some (epoch, Manager.proposalsOf s epoch)) ∨
      (¬ (s.frozenCohort = none ∧ Manager.greatestEpoch s = some epoch) ∧
        cohort = s.frozenCohort)) := by
  by_cases h : s.frozenCohort = none ∧ Manager.greatestEpoch s = some epoch
  · exact ⟨_, if_pos h, .inl ⟨h.1, h.2, rfl⟩⟩
  · exact ⟨_, if_neg h, .inr ⟨h, rfl⟩⟩

theorem commitLocal_lists (m : Manager) (s : State) (epoch : U64) (loc : Loc)
    (binding : ObservedBinding) (promote : Bool) (r : ResultEntry) :
    let s' := Manager.commitLocal m s epoch loc binding promote r
    s'.closed = s.closed ∧ s'.peerEpoch = s.peerEpoch ∧ s'.emittedResults = s.emittedResults ∧
    ((s'.proposals = s.proposals ∧ s'.candidates = s.candidates ∧
      s'.frozenCohort = s.frozenCohort ∧ s'.results = s.results ++ [r] ∧
      s'.candidateSecret = s.candidateSecret) ∨
    (m.profile = 3 ∧ s'.proposals = [] ∧ s'.candidates = [] ∧ s'.frozenCohort = none ∧
      s'.results = [] ∧ s'.candidateSecret = none)) := by
  intro s'
  cases promote with
  | false => simp [s', Manager.commitLocal]
  | true =>
    by_cases hp : m.profile = 3
    · obtain ⟨owner, admission, admitted, he⟩ :=
        State.admitProfile3_eq { s with results := s.results ++ [r] } m.scid binding loc s.peerLoc
          epoch
      cases admitted with
      | true => simp [s', Manager.commitLocal, Manager.promoteLocal, hp, he, Manager.clearProfile3]
      | false => simp [s', Manager.commitLocal, Manager.promoteLocal, hp, he]
    · simp [s', Manager.commitLocal, Manager.promoteLocal, hp]

theorem newInner_eq_ok {C : Crypto} {c : ManagerConfig} {owner : Option Profile3AdmissionOwner}
    {rb : Option ProtectedReplayBinding} {ownerId : ℕ} {m : Manager} {s : State}
    (h : newInner C c owner rb ownerId = .ok (m, s)) :
    s = initialState c owner ∧ c.initialPeerBinding.Valid ∧ m.profile ≤ 3 ∧
      (m.profile = 3 → owner.isSome = true) := by
  simp only [newInner, Outcome.ite_error_eq_ok, Except.ok.injEq, Prod.mk.injEq] at h
  obtain ⟨hn, rfl, rfl⟩ := h
  push Not at hn
  obtain ⟨h₁, -, -, -, h₅, -, -, h₈, -⟩ := hn
  refine ⟨rfl, h₅, h₁, ?_⟩
  intro h3
  have := h₈ h3
  cases owner <;> simp_all

namespace World

variable {C : Crypto} {m : Manager} {secret : Bytes 32} {ok : World → Call → Prop} {w : World}

theorem records_settle {s : State} (h : Records s.proposals s.candidates) (profile : Byte)
    (scid nowMs : U64) :
    Records (s.settleFrozenCohort profile scid nowMs).1.proposals
      (s.settleFrozenCohort profile scid nowMs).1.candidates := by
  rcases State.settle_caches s profile scid nowMs with he | ⟨epoch, members, -, he | ⟨-, he⟩⟩
  · rwa [he]
  · rw [he.proposals, he.candidates]
    exact (h.proposals List.filter_sublist).candidates _
  · rw [he.proposals, he.candidates]
    exact .nil

theorem records_apply {s : State} {binding : ObservedBinding} {nowMs : U64} {a : Action}
    (ha : Applicable C m s binding nowMs a) (hn : ∀ s, a.attempts s = [])
    (h : Records s.proposals s.candidates) :
    Records (m.applyAction s a).proposals (m.applyAction s a).candidates := by
  cases a with
  | cacheProposal p tokens refillMs =>
    obtain ⟨-, hids, hcs, -, -, -, hroom, -⟩ := ha
    refine h.cache hids hcs ?_
    simp only [RESULT_CACHE_SLOTS, PROPOSAL_SLOTS] at hroom ⊢
    omega
  | challenge c =>
    obtain ⟨-, -, hstate, -, ⟨p, hp, hid, hloc, hepoch, hslot, -⟩, -, hlen, -⟩ := ha
    exact h.challenge hp hid hloc hepoch hslot hstate hlen
  | commitLocal epoch loc b promote r =>
    obtain ⟨-, -, -, ⟨hp, hc, -⟩ | ⟨-, hp, hc, -⟩⟩ := commitLocal_lists m s epoch loc b promote r
    · simpa only [Manager.applyAction, hp, hc] using h
    · simpa only [Manager.applyAction, hp, hc] using Records.nil
  | prove id epoch slot at_ r => exact absurd (hn s) (by simp [Action.attempts])
  | existingChallenge c => exact h
  | respond c => exact h
  | none => exact h

theorem records_phases : Phases C m ok fun _ s => Records s.proposals s.candidates where
  older _ _ _ _ h := h
  quiet _ s s' hq h := by rwa [hq.proposals, hq.candidates]
  wipe _ _ _ := .nil
  apply w _ p _ _ _ hn _ _ _ ha h := records_apply ha hn h
  prove w _ p id epoch slot at_ r _ _ _ _ _ _ _ h := by
    obtain ⟨cohort, he, -⟩ := markProven_eq w.state id epoch slot r
    rw [he]
    exact h.prove id epoch slot r
  mark w nowMs _ _ h := by
    obtain ⟨cs, ts, hf, he⟩ := State.expireMark_eq w.state nowMs
    rw [he]
    exact h.faded hf
  settle w call a _ _ h := records_settle h m.profile m.scid a.nowMs
  sweep w nowMs _ _ _ h := by
    obtain ⟨rs, ts, he, -⟩ := State.expireSweep_eq
      ((w.state.expireMark nowMs).settleFrozenCohort m.profile m.scid nowMs).1 nowMs
      w.state.frozenMembers
    rw [State.expireBeforeSettle, he]
    exact (h.proposals List.filter_sublist).candidates _

theorem Reach.records (h : Reach C m secret ok w) :
    Records w.state.proposals w.state.candidates := by
  refine records_phases.reach ?_ h
  intro w hs
  obtain ⟨⟨c, owner, rb, ownerId, hnew, -⟩, -⟩ := hs
  rw [(newInner_eq_ok hnew).1]
  exact .nil

end World

end R8.Mobility
