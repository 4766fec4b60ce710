import R8Protocol.Mobility.Records
import R8Protocol.Mobility.Scenario

/-! Cohort arbitration: a settlement waits for the members, and its winner is the least proven id
whatever the order of arrival. -/
namespace R8.Mobility

open FixedWidth Wire Session

/-- A response for the id in this epoch was committed. -/
def Proved (history : List Previewed) (epoch : U64) (id : CandidateId) : Prop :=
  ∃ p ∈ history, ∃ slot at_ r, p.transition.action = .prove id epoch slot at_ r

/-- At every settlement the call attempts, each member whose proposal is cached and has not expired
has been probed. -/
def membersProbed (m : Manager) (w : World) (call : Call) : Bool :=
  (w.attempts m call).all fun a => a.before.frozenMembers.all fun p =>
    !(a.before.proposals.any fun q => q.candidateId = p.candidateId ∧ a.nowMs < q.expiryMs) ||
      a.before.hasCandidate p.candidateId

/-- A committed response has its proposal still cached. -/
def provesCached (m : Manager) (w : World) (call : Call) : Bool :=
  (w.committed m call).all fun p =>
    match p.transition.action with
    | .prove id _ _ _ _ => w.state.hasProposal id
    | _ => true

/-- No proposal of the epoch is dropped as expired. -/
def keepsEpoch (m : Manager) (epoch : U64) (w : World) : Call → Bool
  | .expire nowMs =>
    ((w.state.expireMark nowMs).settleFrozenCohort m.profile m.scid nowMs).1.proposals.all
      fun p => p.epoch ≠ epoch ∨ nowMs < p.expiryMs
  | _ => true

/-- Everything that is committed for the epoch is committed before it expires. -/
def timely (m : Manager) (epoch : U64) (w : World) (call : Call) : Bool :=
  provesCached m w call && keepsEpoch m epoch w call

/-- The state of one epoch against the responses committed for it. -/
structure Arbitrated (e : U64) (history : List Previewed) (s : State) : Prop where
  records : Records s.proposals s.candidates
  proposals_ahead : ∀ p ∈ s.proposals, s.peerEpoch < p.epoch
  candidates_ahead : ∀ c ∈ s.candidates, s.peerEpoch < c.epoch
  proven : ∀ c ∈ s.candidates, c.state = .proven → Proved history c.epoch c.candidateId
  cohort : ∀ f members, s.frozenCohort = some (f, members) →
    s.peerEpoch < f ∧ ∃ p ∈ members, s.isProven p.candidateId = true
  backed : ∀ c ∈ s.candidates, c.epoch = e → ∃ p ∈ s.proposals, p.candidateId = c.candidateId
  members : ∀ members, s.frozenCohort = some (e, members) →
    members = s.proposals.filter (·.epoch = e)
  kept : s.peerEpoch < e → ∀ id, Proved history e id →
    ∃ c ∈ s.candidates, c.candidateId = id ∧ c.epoch = e ∧ c.state = .proven

variable {C : Crypto} {m : Manager} {secret : Bytes 32} {history : List Previewed} {e k : U64}
  {s s' : State} {w : World} {call : Call}

theorem Proved.older {epoch : U64} {id : CandidateId} (h : Proved history epoch id)
    (p : Previewed) : Proved (p :: history) epoch id := by
  obtain ⟨q, hq, hrest⟩ := h
  exact ⟨q, List.mem_cons_of_mem _ hq, hrest⟩

theorem proved_cons {p : Previewed} {epoch : U64} {id : CandidateId}
    (h : Proved (p :: history) epoch id) : Proved history epoch id ∨
      ∃ slot at_ r, p.transition.action = .prove id epoch slot at_ r := by
  obtain ⟨q, hq, hrest⟩ := h
  rcases List.mem_cons.mp hq with rfl | hq
  · exact .inr hrest
  · exact .inl ⟨q, hq, hrest⟩

namespace Arbitrated

/-- An action that is no proof adds nothing to what was proved. -/
theorem older {p : Previewed} (h : Arbitrated e history s)
    (hp : ∀ s, p.transition.action.attempts s = []) : Arbitrated e (p :: history) s where
  records := h.records
  proposals_ahead := h.proposals_ahead
  candidates_ahead := h.candidates_ahead
  proven c hc hs := (h.proven c hc hs).older p
  cohort := h.cohort
  backed := h.backed
  members := h.members
  kept hlt id hproved := by
    rcases proved_cons hproved with hold | ⟨slot, at_, r, hact⟩
    · exact h.kept hlt id hold
    · exact absurd (hp s) (by simp [hact, Action.attempts])

theorem same (h : Arbitrated e history s) (hps : s'.proposals = s.proposals)
    (hcs : s'.candidates = s.candidates) (hpe : s'.peerEpoch = s.peerEpoch)
    (hf : s'.frozenCohort = s.frozenCohort) : Arbitrated e history s' where
  records := by
    rw [hps, hcs]
    exact h.records
  proposals_ahead := by
    rw [hps, hpe]
    exact h.proposals_ahead
  candidates_ahead := by
    rw [hcs, hpe]
    exact h.candidates_ahead
  proven := by
    rw [hcs]
    exact h.proven
  cohort := by
    simp only [State.isProven, hf, hpe, hcs]
    exact h.cohort
  backed := by
    rw [hcs, hps]
    exact h.backed
  members := by
    rw [hf, hps]
    exact h.members
  kept := by
    rw [hpe, hcs]
    exact h.kept

theorem faded {cs : List Candidate} {ts : List (CandidateId × U64)} (h : Arbitrated e history s)
    (hf : Faded s.candidates cs) :
    Arbitrated e history { s with candidates := cs, tombstones := ts } where
  records := h.records.faded hf
  proposals_ahead := h.proposals_ahead
  candidates_ahead c hc := by
    obtain ⟨a, ha, hfa⟩ := hf.mem hc
    rw [hfa.key.2.2.1]
    exact h.candidates_ahead a ha
  proven c hc hs := h.proven c (hf.mem_proven hc hs) hs
  cohort f members hm := by
    obtain ⟨hlt, p, hp, hproven⟩ := h.cohort f members hm
    obtain ⟨c, hc, hid, hs⟩ := State.isProven_iff.mp hproven
    exact ⟨hlt, p, hp, State.isProven_iff.mpr ⟨c, hf.proven_mem hc hs, hid, hs⟩⟩
  backed c hc he := by
    obtain ⟨a, ha, hfa⟩ := hf.mem hc
    obtain ⟨p, hp, hid⟩ := h.backed a ha (hfa.key.2.2.1.symm.trans he)
    exact ⟨p, hp, hid.trans hfa.key.1.symm⟩
  members := h.members
  kept hlt id hproved := by
    obtain ⟨c, hc, hid, he, hs⟩ := h.kept hlt id hproved
    exact ⟨c, hf.proven_mem hc hs, hid, he, hs⟩

/-- Every settlement has a winner. -/
theorem winner (h : Arbitrated e history s) {f : U64} {members : List Proposal}
    (hs : State.Settles s f members) : s.cohortWinner members ≠ none := by
  obtain ⟨-, p, hp, hproven⟩ := h.cohort f members hs.frozen
  intro hnone
  simp [State.cohortWinner_eq_none.mp hnone p hp] at hproven

/-- A settlement leaves the greater epochs alone. -/
theorem settle (h : Arbitrated e history s) (h3 : m.profile ≠ 3) (scid nowMs : U64) :
    Arbitrated e history (s.settleFrozenCohort m.profile scid nowMs).1 ∧
      s.peerEpoch ≤ (s.settleFrozenCohort m.profile scid nowMs).1.peerEpoch := by
  obtain ⟨-, hb⟩ := State.settle_bindings s scid nowMs h3
  rcases State.settle_cases s m.profile scid nowMs with ⟨he, -⟩ |
    ⟨f, members, hs, hw, -⟩ | ⟨f, members, c, hs, -, hp, he⟩
  · rw [he]
    exact ⟨h, le_rfl⟩
  · exact absurd hw (h.winner hs)
  · have hclosed : State.ClosedCohort s (s.settleFrozenCohort m.profile scid nowMs).1 f
        (s.outcomesAt members nowMs) := by
      rw [he]
      exact (State.promote_caches s (s.outcomesAt members nowMs)).resolve_right fun hc => h3 hc.1
    have hpeer : (s.settleFrozenCohort m.profile scid nowMs).1.peerEpoch = f := by
      rcases hb with ⟨hn, -⟩ | ⟨f', c', hp', -, -, hpe⟩
      · simp [hp] at hn
      · rw [hpe]
        exact (Prod.mk.inj (Option.some.inj (hp'.symm.trans hp))).1
    have hlt : s.peerEpoch < f := (h.cohort f members hs.frozen).1
    refine ⟨⟨?_, ?_, ?_, ?_, ?_, ?_, ?_, ?_⟩, hpeer ▸ hlt.le⟩
    · exact World.records_settle h.records m.profile scid nowMs
    · intro p hmem
      rw [hclosed.proposals] at hmem
      rw [hpeer]
      simpa using (List.mem_filter.mp hmem).2
    · intro a hmem
      rw [hclosed.candidates] at hmem
      rw [hpeer]
      simpa using (List.mem_filter.mp hmem).2
    · intro a hmem
      rw [hclosed.candidates] at hmem
      exact h.proven a (List.mem_filter.mp hmem).1
    · simp [hclosed.frozenCohort]
    · intro a hmem hea
      rw [hclosed.candidates, List.mem_filter] at hmem
      obtain ⟨p, hpm, hid⟩ := h.backed a hmem.1 hea
      have hpe := (h.records.cached a hmem.1 p hpm hid).2.1
      refine ⟨p, ?_, hid⟩
      rw [hclosed.proposals, List.mem_filter, hpe]
      exact ⟨hpm, hmem.2⟩
    · simp [hclosed.frozenCohort]
    · intro hlt' id hproved
      rw [hpeer] at hlt'
      obtain ⟨a, ha, hid, hea, hstate⟩ := h.kept (hlt.trans hlt') id hproved
      refine ⟨a, ?_, hid, hea, hstate⟩
      rw [hclosed.candidates, List.mem_filter]
      exact ⟨ha, by simpa [hea] using hlt'⟩

/-- The winner of a settlement of the epoch is the least id proved for it. -/
theorem least (h : Arbitrated e history s) {c : Candidate} (hp : s.promotes = some (e, c)) :
    Proved history e c.candidateId ∧ ∀ id, Proved history e id → c.candidateId ≤ id := by
  obtain ⟨members, hs, hw, -⟩ := State.promotes_eq_some.mp hp
  obtain ⟨⟨p, hpm, hpid⟩, hproven, hleast⟩ := State.cohortWinner_eq_some hw
  have hmembers := h.members members hs.frozen
  constructor
  · obtain ⟨a, ha, hid, hstate⟩ := State.isProven_iff.mp hproven
    rw [hmembers, List.mem_filter] at hpm
    have hpa := (h.records.cached a ha p hpm.1 (hpid.trans hid.symm)).2.1
    have hpe : p.epoch = e := by simpa using hpm.2
    have := h.proven a ha hstate
    rwa [← hpa, hpe, hid] at this
  · intro id hproved
    obtain ⟨a, ha, hid, hea, hstate⟩ := h.kept (h.cohort e members hs.frozen).1 id hproved
    obtain ⟨q, hq, hqid⟩ := h.backed a ha hea
    have hqe := (h.records.cached a ha q hq hqid).2.1
    have hqm : q ∈ members := by
      rw [hmembers, List.mem_filter]
      exact ⟨hq, by simp [hqe, hea]⟩
    have := hleast q hqm (State.isProven_iff.mpr ⟨a, ha, hqid.symm, hstate⟩)
    rwa [hqid, hid] at this

theorem cache {p : Proposal} (h : Arbitrated e history s) (hahead : s.peerEpoch < p.epoch)
    (hfrozen : ∀ f members, s.frozenCohort = some (f, members) → f < p.epoch)
    (hr : Records (s.proposals ++ [p]) s.candidates)
    (hps : s'.proposals = s.proposals ++ [p]) (hcs : s'.candidates = s.candidates)
    (hpe : s'.peerEpoch = s.peerEpoch) (hf : s'.frozenCohort = s.frozenCohort) :
    Arbitrated e history s' where
  records := by rwa [hps, hcs]
  proposals_ahead q hq := by
    rw [hps, List.mem_append, List.mem_singleton] at hq
    rw [hpe]
    rcases hq with hq | rfl
    · exact h.proposals_ahead q hq
    · exact hahead
  candidates_ahead := by
    rw [hcs, hpe]
    exact h.candidates_ahead
  proven := by
    rw [hcs]
    exact h.proven
  cohort := by
    simp only [State.isProven, hf, hpe, hcs]
    exact h.cohort
  backed c hc he := by
    rw [hcs] at hc
    obtain ⟨q, hq, hid⟩ := h.backed c hc he
    exact ⟨q, by simp [hps, hq], hid⟩
  members members hm := by
    rw [hf] at hm
    have hne : p.epoch ≠ e := (hfrozen e members hm).ne'
    rw [h.members members hm, hps, List.filter_append]
    simp [hne]
  kept := by
    rw [hpe, hcs]
    exact h.kept

theorem challenge {c : Candidate} {p : Proposal} (h : Arbitrated e history s)
    (hp : p ∈ s.proposals) (hid : p.candidateId = c.candidateId) (hepoch : p.epoch = c.epoch)
    (hstate : c.state = .challenged) (hr : Records s.proposals (s.candidates ++ [c])) :
    Arbitrated e history { s with candidates := s.candidates ++ [c] } where
  records := hr
  proposals_ahead := h.proposals_ahead
  candidates_ahead a ha := by
    rcases List.mem_append.mp ha with ha | ha
    · exact h.candidates_ahead a ha
    · obtain rfl := List.mem_singleton.mp ha
      exact hepoch ▸ h.proposals_ahead p hp
  proven a ha hs := by
    rcases List.mem_append.mp ha with ha | ha
    · exact h.proven a ha hs
    · obtain rfl := List.mem_singleton.mp ha
      simp [hstate] at hs
  cohort f members hm := by
    obtain ⟨hlt, q, hq, hproven⟩ := h.cohort f members hm
    obtain ⟨a, ha, haid, hs⟩ := State.isProven_iff.mp hproven
    exact ⟨hlt, q, hq, State.isProven_iff.mpr ⟨a, List.mem_append_left _ ha, haid, hs⟩⟩
  backed a ha he := by
    rcases List.mem_append.mp ha with ha | ha
    · exact h.backed a ha he
    · obtain rfl := List.mem_singleton.mp ha
      exact ⟨p, hp, hid⟩
  members := h.members
  kept hlt id hproved := by
    obtain ⟨a, ha, hrest⟩ := h.kept hlt id hproved
    exact ⟨a, List.mem_append_left _ ha, hrest⟩

theorem prove {p : Previewed} {id : CandidateId} {epoch at_ : U64} {slot : Byte}
    {r : BindResponseIdentity} (h : Arbitrated e history s)
    (hact : p.transition.action = .prove id epoch slot at_ r)
    (ha : Applicable C m s p.binding p.nowMs p.transition.action)
    (hcached : s.hasProposal id = true) :
    Arbitrated e (p :: history) (Manager.markProven s id epoch slot r) := by
  rw [hact] at ha
  obtain ⟨-, -, -, ⟨c₀, hc₀, -⟩, -⟩ := ha
  have hkey := List.find?_some hc₀
  simp only [decide_eq_true_eq] at hkey
  have hmem₀ := List.mem_of_find?_eq_some hc₀
  obtain ⟨c₁, hc₁⟩ : ∃ c, s.candidates.find? (Records.proofTarget id epoch slot) = some c := by
    refine Option.isSome_iff_exists.mp (List.find?_isSome.mpr ⟨c₀, hmem₀, ?_⟩)
    simp [Records.proofTarget, hkey.1, hkey.2.2.1, hkey.2.2.2.1]
  have htarget := List.find?_some hc₁
  simp only [Records.proofTarget, decide_eq_true_eq] at htarget
  have hnew : Records.proofUpdate r c₁ ∈ Lists.modifyFirst (Records.proofTarget id epoch slot)
      (Records.proofUpdate r) s.candidates := Lists.mem_modifyFirst_of_find hc₁
  have hmem₁ := List.mem_of_find?_eq_some hc₁
  obtain ⟨q, hq, hqid⟩ := State.hasProposal_iff.mp hcached
  have hqe : q.epoch = epoch :=
    (h.records.cached c₁ hmem₁ q hq (hqid.trans htarget.1.symm)).2.1.trans htarget.2.1
  obtain ⟨cohort, he, hcohort⟩ := markProven_eq s id epoch slot r
  rw [he]
  refine ⟨h.records.prove id epoch slot r, h.proposals_ahead, ?_, ?_, ?_, ?_, ?_, ?_⟩
  · intro c hc
    obtain ⟨a, ha, -, -, hae, -⟩ := Records.mem_prove_key hc
    rw [← hae]
    exact h.candidates_ahead a ha
  · intro c hc hs
    rcases Records.mem_prove hc with hc | ⟨a, hfind, rfl⟩
    · exact (h.proven c hc hs).older p
    · obtain rfl := Option.some.inj (hc₁.symm.trans hfind)
      refine ⟨p, List.mem_cons_self, slot, at_, r, ?_⟩
      simp [Records.proofUpdate, htarget.1, htarget.2.1, hact]
  · intro f members hm
    rcases hcohort with ⟨-, -, rfl⟩ | ⟨-, rfl⟩
    · obtain ⟨rfl, rfl⟩ := Prod.mk.inj (Option.some.inj hm)
      refine ⟨hqe ▸ h.proposals_ahead q hq, q, ?_, ?_⟩
      · simp [Manager.proposalsOf, hq, hqe]
      · exact State.isProven_iff.mpr ⟨_, hnew, htarget.1.trans hqid.symm, rfl⟩
    · obtain ⟨hlt, x, hx, hproven⟩ := h.cohort f members hm
      obtain ⟨a, ha, haid, hs⟩ := State.isProven_iff.mp hproven
      obtain ⟨b, hb, hbid, -, hbs⟩ := Records.prove_keeps id epoch slot r ha hs
      exact ⟨hlt, x, hx, State.isProven_iff.mpr ⟨b, hb, hbid.trans haid, hbs⟩⟩
  · intro c hc hce
    obtain ⟨a, ha, haid, -, hae, -⟩ := Records.mem_prove_key hc
    obtain ⟨x, hx, hxid⟩ := h.backed a ha (hae.trans hce)
    exact ⟨x, hx, hxid.trans haid⟩
  · intro members hm
    rcases hcohort with ⟨-, -, rfl⟩ | ⟨-, rfl⟩
    · obtain ⟨rfl, rfl⟩ := Prod.mk.inj (Option.some.inj hm)
      rfl
    · exact h.members members hm
  · intro hlt id' hproved
    rcases proved_cons hproved with hold | ⟨slot', at', r', hact'⟩
    · obtain ⟨a, ha, haid, hae, hs⟩ := h.kept hlt id' hold
      obtain ⟨b, hb, hbid, hbe, hbs⟩ := Records.prove_keeps id epoch slot r ha hs
      exact ⟨b, hb, hbid.trans haid, hbe.trans hae, hbs⟩
    · rw [hact] at hact'
      injection hact' with hid' he' _ _ _
      subst hid' he'
      exact ⟨_, hnew, htarget.1, htarget.2.1, rfl⟩

/-- Only the given epoch is known not to lose proposals. -/
theorem sweep {nowMs : U64} {frozen : List Proposal} (h : Arbitrated e history s)
    (hkeep : ∀ p ∈ s.proposals, p.epoch = e → nowMs < p.expiryMs) :
    Arbitrated e history (s.expireSweep nowMs frozen) := by
  obtain ⟨rs, ts, he, -⟩ := State.expireSweep_eq s nowMs frozen
  rw [he]
  have hproven : ∀ {id}, s.isProven id = true →
      ∃ c ∈ s.candidates.filter fun c => c.state ≠ .failed ∨
        frozen.any (·.candidateId = c.candidateId), c.candidateId = id ∧ c.state = .proven := by
    intro id hp
    obtain ⟨c, hc, hid, hs⟩ := State.isProven_iff.mp hp
    exact ⟨c, List.mem_filter.mpr ⟨hc, by simp [hs]⟩, hid, hs⟩
  have hsub : ∀ p, p ∈ s.proposals.filter (fun p => nowMs < p.expiryMs) → p ∈ s.proposals :=
    fun p hp => (List.mem_filter.mp hp).1
  refine ⟨(h.records.proposals List.filter_sublist).candidates _, ?_, ?_, ?_, ?_, ?_, ?_, ?_⟩
  · exact fun p hp => h.proposals_ahead p (hsub p hp)
  · exact fun c hc => h.candidates_ahead c (List.mem_filter.mp hc).1
  · exact fun c hc => h.proven c (List.mem_filter.mp hc).1
  · intro f members hm
    rcases State.cohortAfter_eq_some hm with ⟨hf, -⟩ | ⟨hfresh, -⟩
    · obtain ⟨hlt, p, hp, hpp⟩ := h.cohort f members hf
      exact ⟨hlt, p, hp, State.isProven_iff.mpr (hproven hpp)⟩
    · obtain ⟨⟨p, hp, hpe, hpp⟩, rfl, -⟩ := State.freshCohort_eq_some hfresh
      refine ⟨hpe ▸ h.proposals_ahead p (hsub p hp), p, ?_, State.isProven_iff.mpr (hproven hpp)⟩
      exact List.mem_filter.mpr ⟨hp, by simpa using hpe⟩
  · intro c hc hce
    obtain ⟨p, hp, hid⟩ := h.backed c (List.mem_filter.mp hc).1 hce
    have hpe := (h.records.cached c (List.mem_filter.mp hc).1 p hp hid).2.1
    exact ⟨p, List.mem_filter.mpr ⟨hp, by simpa using hkeep p hp (hpe.trans hce)⟩, hid⟩
  · intro members hm
    rcases State.cohortAfter_eq_some hm with ⟨hf, -⟩ | ⟨hfresh, -⟩
    · rw [h.members members hf, List.filter_filter]
      refine List.filter_congr fun p hp => ?_
      by_cases hpe : p.epoch = e
      · simp [hpe, hkeep p hp hpe]
      · simp [hpe]
    · exact (State.freshCohort_eq_some hfresh).2.1
  · intro hlt id hproved
    obtain ⟨c, hc, hid, hce, hs⟩ := h.kept hlt id hproved
    exact ⟨c, List.mem_filter.mpr ⟨hc, by simp [hs]⟩, hid, hce, hs⟩

end Arbitrated

namespace World

theorem arbitrated_start (hs : Starts C m secret w) : Arbitrated e [] w.state := by
  obtain ⟨⟨c, owner, rb, ownerId, hnew, -⟩, -⟩ := hs
  rw [(newInner_eq_ok hnew).1]
  refine ⟨.nil, ?_, ?_, ?_, ?_, ?_, ?_, ?_⟩ <;> simp [initialState, Proved]

/-- While the manager is open. The epoch `k` is any one the peer is known to have reached. -/
theorem arbitrated_phases (h3 : m.profile ≠ 3) :
    Phases C m (fun w call => timely m e w call) fun history s =>
      s.closed = false → Arbitrated e history s ∧ k ≤ s.peerEpoch where
  older p a s hmut h hc :=
    ⟨(h hc).1.older (fun s => Action.attempts_of_not_mutates s hmut), (h hc).2⟩
  quiet a s s' hq h hc := by
    obtain ⟨ha, hk⟩ := h (hq.closed.symm.trans hc)
    exact ⟨ha.same hq.proposals hq.candidates hq.peerEpoch hq.frozenCohort, hq.peerEpoch ▸ hk⟩
  wipe a s _ hc := by simp [State.wipe] at hc
  apply w call p _ _ _ hn hopen _ _ ha h _ := by
    obtain ⟨harb, hk⟩ := h hopen
    have hr := records_apply ha hn harb.records
    have hold := harb.older hn
    cases hact : p.transition.action with
    | cacheProposal q tokens refillMs =>
      rw [hact] at ha hr
      exact ⟨hold.cache ha.1 ha.2.2.2.2.1 hr rfl rfl rfl rfl, hk⟩
    | challenge c =>
      rw [hact] at ha hr
      obtain ⟨-, -, hstate, -, ⟨q, hq, hid, -, hepoch, -⟩, -⟩ := ha
      exact ⟨hold.challenge hq hid hepoch hstate hr, hk⟩
    | commitLocal epoch loc b promote r =>
      obtain ⟨-, hpe, -, ⟨hps, hcs, hf, -⟩ | ⟨hno, -⟩⟩ :=
        commitLocal_lists m w.state epoch loc b promote r
      · exact ⟨hold.same hps hcs hpe hf, hpe ▸ hk⟩
      · exact absurd hno h3
    | prove id epoch slot at_ r => exact absurd (hn w.state) (by simp [hact, Action.attempts])
    | existingChallenge c => exact ⟨hold, hk⟩
    | respond c => exact ⟨hold, hk⟩
    | none => exact ⟨hold, hk⟩
  prove w call p id epoch slot at_ r hok hcom hact hopen _ _ ha h _ := by
    have hcached : w.state.hasProposal id = true := by
      simp only [timely, Bool.and_eq_true] at hok
      simpa [provesCached, hcom, hact] using hok.1
    obtain ⟨cohort, he, -⟩ := markProven_eq w.state id epoch slot r
    refine ⟨(h hopen).1.prove hact ha hcached, ?_⟩
    rw [he]
    exact (h hopen).2
  mark w nowMs _ hopen h _ := by
    obtain ⟨cs, ts, hf, he⟩ := State.expireMark_eq w.state nowMs
    rw [he]
    exact ⟨(h hopen).1.faded hf, (h hopen).2⟩
  settle w call a _ _ h hc := by
    have hopen : a.before.closed = false :=
      (State.settle_frame a.before m.profile m.scid a.nowMs).closed.symm.trans hc
    obtain ⟨harb, hle⟩ := (h hopen).1.settle h3 m.scid a.nowMs
    exact ⟨harb, (h hopen).2.trans hle⟩
  sweep w nowMs hok hopen _ h _ := by
    obtain ⟨cs, ts, -, hmark⟩ := State.expireMark_eq w.state nowMs
    have hclosed := (State.settle_frame (w.state.expireMark nowMs) m.profile m.scid nowMs).closed
    rw [hmark] at hclosed
    obtain ⟨harb, hk⟩ := h (by rw [hmark]; exact hclosed.trans hopen)
    simp only [timely, keepsEpoch, Bool.and_eq_true, List.all_eq_true, decide_eq_true_eq] at hok
    have hkeep := fun p hp he => (hok.2 p hp).resolve_left (not_not.mpr he)
    obtain ⟨rs, ts', hsweep, -⟩ := State.expireSweep_eq
      ((w.state.expireMark nowMs).settleFrozenCohort m.profile m.scid nowMs).1 nowMs
      w.state.frozenMembers
    refine ⟨harb.sweep hkeep, ?_⟩
    rw [State.expireBeforeSettle, hsweep]
    exact hk

/-- What is known of an installed winner of the epoch, for as long as the run goes on. -/
def Decided (e : U64) (w : World) (i : Install) : Prop :=
  Proved w.applied e i.candidateId ∧ (∀ id, Proved w.applied e id → i.candidateId ≤ id) ∧
    (w.state.closed = false → e ≤ w.state.peerEpoch)

/-- Once the peer has reached the epoch, no further response is committed for it. -/
theorem proved_step (h : w.state.closed = false → Arbitrated e w.applied w.state)
    (hpeer : w.state.closed = false → e ≤ w.state.peerEpoch) (he : Effect C m w call)
    {id : CandidateId} (hp : Proved (w.step C m call).applied e id) : Proved w.applied e id := by
  cases he with
  | quiet _ _ ha _ =>
    rcases ha with ha | ⟨p, hmut, ha⟩
    · rwa [ha] at hp
    · rw [ha] at hp
      rcases proved_cons hp with hp | ⟨slot, at_, r, hact⟩
      · exact hp
      · simp [hact, Action.mutates] at hmut
  | commit p g _ _ hc _ _ happ _ _ _ _ ha _ =>
    rw [ha] at hp
    rcases proved_cons hp with hp | ⟨slot, at_, r, hact⟩
    · exact hp
    · rw [hact] at happ
      obtain ⟨-, -, -, ⟨c, hfind, -⟩, -⟩ := happ
      have hkey := List.find?_some hfind
      simp only [decide_eq_true_eq] at hkey
      have hlt := (h hc).candidates_ahead c (List.mem_of_find?_eq_some hfind)
      rw [hkey.2.2.1] at hlt
      exact absurd (hpeer hc) (not_le.mpr hlt)
  | expire _ _ _ _ ha _ => rwa [ha] at hp
  | close _ ha _ => rwa [ha] at hp

theorem proved_mono (C : Crypto) (m : Manager) (w : World) (call : Call) {id : CandidateId}
    (h : Proved w.applied e id) : Proved (w.step C m call).applied e id := by
  cases hcom : w.committed m call with
  | none => simpa [step, hcom] using h
  | some p => simpa [step, hcom] using h.older p

theorem settle_peerEpoch {a : Attempt} {c : Candidate} (h3 : m.profile ≠ 3)
    (hp : a.before.promotes = some (e, c)) :
    (a.before.settleFrozenCohort m.profile m.scid a.nowMs).1.peerEpoch = e := by
  obtain ⟨-, ⟨hn, -⟩ | ⟨f, c', hp', -, -, hpe⟩⟩ :=
    State.settle_bindings a.before m.scid a.nowMs h3
  · simp [hp] at hn
  · rw [hpe]
    exact (Prod.mk.inj (Option.some.inj (hp'.symm.trans hp))).1

/-- A settlement of the epoch takes the peer to it. -/
theorem peerEpoch_of_attempt {a : Attempt} {c : Candidate} (h3 : m.profile ≠ 3)
    (hattempt : ∀ a ∈ w.attempts m call, a.before.closed = false →
      Arbitrated e (w.step C m call).applied a.before) (he : Effect C m w call)
    (ha : a ∈ w.attempts m call) (hp : a.before.promotes = some (e, c))
    (hopen : (w.step C m call).state.closed = false) : e ≤ (w.step C m call).state.peerEpoch := by
  have hset := settle_peerEpoch h3 hp
  cases he with
  | quiet _ _ _ hs => simp [hs] at ha
  | close _ _ hs => simp [hs] at ha
  | commit p g _ _ _ _ _ _ _ _ _ hstate _ hs =>
    rw [hs] at ha
    cases hact : p.transition.action with
    | prove id epoch slot at_ r =>
      simp only [hact, Action.attempts, List.mem_singleton] at ha
      subst ha
      rw [hstate, hact]
      exact hset.ge
    | _ => simp [hact, Action.attempts] at ha
  | expire nowMs hcall hc hstate _ hs =>
    subst hcall
    have hlast : e ≤ (w.state.expireSettled m nowMs).peerEpoch := by
      rw [hs] at ha hattempt
      simp only [State.expireAttempts, hc, Bool.false_eq_true, if_false, List.mem_cons,
        List.not_mem_nil, or_false] at ha
      rcases ha with rfl | rfl
      · have hbefore : (w.state.expireBeforeSettle m nowMs).peerEpoch = e := by
          obtain ⟨rs, ts, hsweep, -⟩ := State.expireSweep_eq
            ((w.state.expireMark nowMs).settleFrozenCohort m.profile m.scid nowMs).1 nowMs
            w.state.frozenMembers
          rw [State.expireBeforeSettle, hsweep]
          exact hset
        have harb := hattempt ⟨w.state.expireBeforeSettle m nowMs, nowMs⟩
          (by simp [State.expireAttempts, hc])
          ((State.expireBeforeSettle_frame m w.state nowMs).closed.trans hc)
        exact hbefore.ge.trans (harb.settle h3 m.scid nowMs).2
      · exact hset.ge
    rw [hstate] at hopen ⊢
    rcases State.expire_settled (m := m) w.state nowMs hc with ⟨g, -, he⟩ | ⟨-, he⟩
    · rw [he]
      exact hlast
    · simp [he, State.wipe] at hopen

/-- Installed winners of the epoch stay the least proved id. -/
theorem Reach.decided (h3 : m.profile ≠ 3)
    (h : Reach C m secret (fun w call => timely m e w call) w) :
    ∀ i ∈ w.installed, i.epoch = e → Decided e w i := by
  have hall : (w.state.closed = false → Arbitrated e w.applied w.state) ∧
      ∀ i ∈ w.installed, i.epoch = e → Decided e w i := by
    apply Reach.induct (I := fun w => (w.state.closed = false → Arbitrated e w.applied w.state) ∧
      ∀ i ∈ w.installed, i.epoch = e → Decided e w i) h
    · intro w hs
      refine ⟨?_, by simp [hs.2.2.2.1]⟩
      rw [hs.2.2.1]
      exact fun _ => arbitrated_start hs
    · intro w call _ hw hok he
      have hphases := arbitrated_phases (C := C) (e := e) (k := 0) h3
      have hzero : w.state.closed = false → Arbitrated e w.applied w.state ∧
        (0 : U64) ≤ w.state.peerEpoch := fun hc => ⟨hw.1 hc, Fin.zero_le _⟩
      have hattempt := fun a ha hc => (hphases.attempt hzero hok he a ha hc).1
      refine ⟨fun hc => (hphases.step hzero hok he hc).1, ?_⟩
      intro i hi hie
      rcases mem_installed hi with hold | ⟨a, ha, hinst⟩
      · obtain ⟨hproved, hleast, hpeer⟩ := hw.2 i hold hie
        refine ⟨proved_mono C m w call hproved, ?_, ?_⟩
        · exact fun id hid => hleast id (proved_step hw.1 hpeer he hid)
        · exact fun hc => ((arbitrated_phases (C := C) (e := e) (k := e) h3).step
            (fun hc => ⟨hw.1 hc, hpeer hc⟩) hok he hc).2
      · obtain ⟨c, hp, hid, -⟩ := install_eq_some hinst
        rw [hie] at hp
        obtain ⟨hproved, hleast⟩ := (hattempt a ha (attempt_open he a ha)).least hp
        rw [← hid] at hproved hleast
        exact ⟨hproved, hleast, peerEpoch_of_attempt h3 hattempt he ha hp⟩
  exact hall.2

end World

/-- A settlement that goes through finds every member with a live proposal probed and terminal. -/
def WaitsForMembers (a : Attempt) : Prop :=
  ∀ epoch members, State.Settles a.before epoch members → ∀ p ∈ members,
    (∃ q ∈ a.before.proposals, q.candidateId = p.candidateId ∧ a.nowMs < q.expiryMs) →
    (∃ c ∈ a.before.candidates, c.candidateId = p.candidateId) ∧
    ∀ c ∈ a.before.candidates, c.candidateId = p.candidateId →
      c.state = .proven ∨ c.state = .failed

theorem waitsForMembers_of_probed (h : membersProbed m w call = true) :
    ∀ a ∈ w.attempts m call, WaitsForMembers a := by
  intro a ha epoch members hs p hp hq
  obtain ⟨q, hqm, hqid, hlive⟩ := hq
  have hmem : p ∈ a.before.frozenMembers := by simpa [State.frozenMembers, hs.frozen] using hp
  constructor
  · have hprobed := List.all_eq_true.mp (List.all_eq_true.mp h a ha) p hmem
    have hany : (a.before.proposals.any fun q =>
        q.candidateId = p.candidateId ∧ a.nowMs < q.expiryMs) = true :=
      List.any_eq_true.mpr ⟨q, hqm, by simp [hqid, hlive]⟩
    rw [hany] at hprobed
    exact State.hasCandidate_iff.mp (by simpa using hprobed)
  · intro c hc hid
    have hready := hs.ready
    simp only [State.cohortWaits, List.any_eq_false, decide_eq_true_eq, not_and] at hready
    have hcached : a.before.hasProposal p.candidateId = true :=
      State.hasProposal_iff.mpr ⟨q, hqm, hqid⟩
    have hterm : c.state.terminal = true := by
      have := hready p hp hcached
      simp only [List.any_eq_true, decide_eq_true_eq, not_exists, not_and, not_not] at this
      exact this c hc hid
    simpa [CandidateState.terminal] using hterm

/-- Settlements wait for probed members, the installed candidate of an epoch is the least id that
was proved for it, and so two runs that prove the same ids install the same one. -/
theorem cohort_waits_and_installs_least (h3 : m.profile ≠ 3) :
    (∀ w, World.Reach C m secret (fun w call => membersProbed m w call) w → ∀ call,
      membersProbed m w call = true → ∀ a ∈ w.attempts m call, WaitsForMembers a) ∧
    (∀ e w, World.Reach C m secret (fun w call => timely m e w call) w →
      ∀ i ∈ w.installed, i.epoch = e →
        Proved w.applied e i.candidateId ∧ ∀ id, Proved w.applied e id → i.candidateId ≤ id) ∧
    (∀ e w w', World.Reach C m secret (fun w call => timely m e w call) w →
      World.Reach C m secret (fun w call => timely m e w call) w' →
      (∀ id, Proved w.applied e id ↔ Proved w'.applied e id) →
      ∀ i ∈ w.installed, ∀ i' ∈ w'.installed, i.epoch = e → i'.epoch = e →
        i.candidateId = i'.candidateId) := by
  refine ⟨fun w _ call h => waitsForMembers_of_probed h, ?_, ?_⟩
  · intro e w h i hi hie
    obtain ⟨hproved, hleast, -⟩ := h.decided h3 i hi hie
    exact ⟨hproved, hleast⟩
  · intro e w w' h h' hsame i hi i' hi' hie hie'
    obtain ⟨hproved, hleast, -⟩ := h.decided h3 i hi hie
    obtain ⟨hproved', hleast', -⟩ := h'.decided h3 i' hi' hie'
    exact le_antisymm (hleast _ ((hsame _).mpr hproved')) (hleast' _ ((hsame _).mp hproved))

/-- Two members of one epoch; the greater id answers first. -/
def greaterAnswersFirst : List Scenario.Input :=
  [.update 1 1 1000, .update 2 1 1000, .probe 1 1 11 1000, .probe 2 1 12 1000,
    .response 2 1 12 4000 2000, .response 1 1 11 4000 2500]

theorem cohort_waits_and_installs_least_greater_first :
    (Scenario.play greaterAnswersFirst).installed.map (·.candidateId) = [bytesOf 16 1] ∧
      ∀ id, Proved (Scenario.play greaterAnswersFirst).applied 1 id →
        bytesOf 16 1 ≤ id := by
  have hr : World.Reach .sample Scenario.manager Scenario.secret
      (fun w call => timely Scenario.manager 1 w call) (Scenario.play greaterAnswersFirst) :=
    Scenario.reach _ (by decide +kernel)
  have hinst : (Scenario.play greaterAnswersFirst).installed =
      [⟨1, bytesOf 16 1, Scenario.bindingOf 11, 2500⟩] := by decide +kernel
  refine ⟨by simp [hinst], ?_⟩
  exact ((cohort_waits_and_installs_least (by decide +kernel)).2.1 1 _ hr
    ⟨1, bytesOf 16 1, Scenario.bindingOf 11, 2500⟩ (by simp [hinst]) rfl).2

/-- Two proposals of one epoch are cached, and only the second has been probed. -/
def oneProbed : World :=
  Scenario.play [.update 1 1 1000, .update 2 1 1000, .probe 2 1 12 1000]

/-- The response of the second one has been previewed. -/
def earlyResponse : World :=
  Machine.exec (World.step .sample Scenario.manager) oneProbed
    ((Scenario.calls oneProbed (.response 2 1 12 4000 1500)).take 1)

theorem earlyResponse_issued : earlyResponse.issued ≠ [] := by decide +kernel

def commitEarlyResponse : Call :=
  .commitProtected (earlyResponse.issued.head earlyResponse_issued)
    fun proof => (⟨proof.preview, true⟩, .ok ())

/-- Committing it settles the cohort although the first member can still be probed. -/
theorem cohort_settles_before_member_probed :
    ¬ ∀ (C : Crypto) (m : Manager) (secret : Bytes 32) (w : World), m.profile ≠ 3 →
      World.Reach C m secret (fun _ _ => True) w → ∀ call, w.Owned m call →
      ∀ a ∈ w.attempts m call, WaitsForMembers a := by
  intro h
  have hr : World.Reach .sample Scenario.manager Scenario.secret (fun _ _ => True)
      earlyResponse := Machine.Reach.exec (Scenario.reach _ (by decide +kernel)) _
        (by decide +kernel)
  have hall := h _ _ _ _ (by decide +kernel) hr commitEarlyResponse
    (.inl (List.head_mem earlyResponse_issued))
  have hearly : ∃ a ∈ earlyResponse.attempts Scenario.manager commitEarlyResponse,
      a.before.promotes.isSome = true ∧ ∃ p ∈ a.before.frozenMembers,
        (∃ q ∈ a.before.proposals, q.candidateId = p.candidateId ∧ a.nowMs < q.expiryMs) ∧
        a.before.hasCandidate p.candidateId = false := by
    decide +kernel
  obtain ⟨a, ha, hsome, p, hp, hlive, hunprobed⟩ := hearly
  obtain ⟨⟨epoch, c⟩, hpromotes⟩ := Option.isSome_iff_exists.mp hsome
  obtain ⟨members, hs, -⟩ := State.promotes_eq_some.mp hpromotes
  rw [State.frozenMembers, hs.frozen] at hp
  have hprobed := (hall a ha epoch members hs p hp hlive).1
  rw [← State.hasCandidate_iff, hunprobed] at hprobed
  exact Bool.noConfusion hprobed

end R8.Mobility
