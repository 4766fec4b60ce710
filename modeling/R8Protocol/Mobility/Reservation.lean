import R8Protocol.Mobility.Backing
import R8Protocol.Mobility.Epochs

/-! When a valid proof finds both result slots taken. -/
namespace R8.Mobility

open FixedWidth Wire Session

/-- A challenge of the proposal has run out, and no result is stored for it. -/
def State.TimesOut (s : State) (nowMs : U64) (p : Proposal) : Prop :=
  (∃ c ∈ s.candidates, c.candidateId = p.candidateId ∧ c.state = .challenged ∧
    c.expiryMs ≤ nowMs) ∧ ∀ r ∈ s.results, r.candidateId ≠ p.candidateId

instance (s : State) (nowMs : U64) (p : Proposal) : Decidable (s.TimesOut nowMs p) :=
  inferInstanceAs (Decidable (_ ∧ _))

/-- Outside a frozen cohort no live proposal times out before another one of its epoch does. -/
def State.TimesOutTogether (s : State) (nowMs : U64) : Prop :=
  s.frozenCohort = none → ∀ p ∈ s.proposals, ∀ q ∈ s.proposals, p.epoch = q.epoch →
    nowMs < p.expiryMs → nowMs < q.expiryMs → s.TimesOut nowMs p → s.TimesOut nowMs q

instance (s : State) (nowMs : U64) : Decidable (s.TimesOutTogether nowMs) :=
  inferInstanceAs (Decidable (_ → _))

/-- Nothing is proposed locally, the clock runs forward, and results are taken before anything else
is called. -/
def passive (w : World) : Call → Prop
  | .proposeLocal .. => False
  | .takeResults => True
  | call => w.Forward call ∧ w.state.emittedResults = []

instance (w : World) (call : Call) : Decidable (passive w call) :=
  match call with
  | .proposeLocal .. => inferInstanceAs (Decidable False)
  | .takeResults => inferInstanceAs (Decidable True)
  | .makeProbe .. | .previewProtected .. | .previewProfile3 .. | .commitProtected ..
  | .commitProfile3 .. | .expire _ | .takeProfile3Admissions | .close =>
    inferInstanceAs (Decidable (w.Forward _ ∧ w.state.emittedResults = []))

def together (w : World) : Call → Prop
  | .expire nowMs => w.state.TimesOutTogether nowMs
  | _ => True

instance (w : World) (call : Call) : Decidable (together w call) :=
  match call with
  | .expire nowMs => inferInstanceAs (Decidable (w.state.TimesOutTogether nowMs))
  | .proposeLocal .. | .makeProbe .. | .previewProtected .. | .previewProfile3 ..
  | .commitProtected .. | .commitProfile3 .. | .takeResults | .takeProfile3Admissions | .close =>
    inferInstanceAs (Decidable True)

/-- No call leaves a live proposal behind whose slot it has filled. -/
def sparing (m : Manager) (w : World) (call : Call) : Prop :=
  together w call ∧ ∀ a ∈ w.attempts m call, a.Spares

instance (m : Manager) (w : World) (call : Call) : Decidable (sparing m w call) :=
  inferInstanceAs (Decidable (_ ∧ _))

/-- The states between two calls. -/
structure Upheld (t : U64) (s : State) : Prop where
  backed : Backed t s
  waiting : ∀ f ms, s.frozenCohort = some (f, ms) → Waiting s f ms
  unfailed : ∀ c ∈ s.candidates, c.state ≠ .failed

namespace Upheld

variable {s s' : State} {t t' nowMs f : U64} {ms : List Proposal} {m : Manager} {C : Crypto}

theorem empty (h₁ : s.proposals = []) (h₂ : s.candidates = []) (h₃ : s.frozenCohort = none) :
    Upheld t s where
  backed := by
    refine ⟨by rw [h₁, h₂]; exact .nil, ?_, ?_, ?_, ?_, ?_, ?_, ?_⟩ <;>
      simp [h₁, h₂, PROPOSAL_SLOTS]
  waiting := by simp [h₃]
  unfailed := by simp [h₂]

theorem same (h : Upheld t s) (ht : t ≤ t') (hp : s'.proposals = s.proposals)
    (hc : s'.candidates = s.candidates) (hr : s'.results = s.results)
    (hf : s'.frozenCohort = s.frozenCohort) (ho : s'.oldBinding = s.oldBinding) :
    Upheld t' s' := by
  obtain ⟨hb, hw, hu⟩ := h
  have hb := hb.mono ht
  refine ⟨⟨?_, ?_, ?_, ?_, ?_, ?_, ?_, ?_⟩, ?_, ?_⟩
  · rw [hp, hc]
    exact hb.records
  · rw [hp, hc]
    exact hb.deadline
  · rw [hp, hr]
    exact hb.outlived
  · rw [hp, hr]
    exact hb.pair
  · rw [hp, hr, ho]
    exact hb.held
  · rw [hp, hr]
    simp only [State.isChallenged, hc]
    exact hb.challenged
  · rw [hp, hr]
    exact hb.siblings
  · rw [hp, hr, hf]
    simp only [State.isProven, hc]
    exact hb.early
  · intro f ms hfrozen
    have hold := hw f ms (hf.symm.trans hfrozen)
    refine ⟨hold.slots, hold.epoch, ?_, ?_, ?_, ?_, ?_⟩
    · rw [hp]
      exact hold.cached
    · rw [hc]
      exact hold.proven
    · rw [hc]
      exact hold.full
    · rw [hc]
      exact hold.same
    · rw [hp, hr]
      simp only [State.isProven, hc]
      exact hold.vacant
  · rw [hc]
    exact hu

theorem quiet (h : Upheld t s) (ht : t ≤ t') (hq : State.Quiet s s') : Upheld t' s' :=
  h.same ht hq.proposals hq.candidates hq.results hq.frozenCohort hq.oldBinding

/-- A new proposal finds a free slot beside every result and every proposal. -/
theorem cache {p : Proposal} {tokens : ℕ} {refillMs : U64} {binding : ObservedBinding}
    (h : Upheld t s) (ha : Applicable C m s binding nowMs (.cacheProposal p tokens refillMs)) :
    Upheld t (m.applyAction s (.cacheProposal p tokens refillMs)) := by
  obtain ⟨-, hids, hfree, hunused, hlater, -, hroom, -⟩ := ha
  obtain ⟨hb, hw, hu⟩ := h
  have hrecords := hb.records.cache hids hfree (by
    simp only [RESULT_CACHE_SLOTS, PROPOSAL_SLOTS] at hroom ⊢
    omega)
  have hnil : ∀ q ∈ s.proposals, s.results = [] := by
    intro q hq
    have hpos := List.length_pos_of_mem hq
    simp only [RESULT_CACHE_SLOTS] at hroom
    exact List.length_eq_zero_iff.mp (by omega)
  have hown : ∀ r ∈ s.results, ¬ r.Answers p := fun r hr hans => hunused r hr hans.1
  have hmem : ∀ q ∈ s.proposals ++ [p], q ∈ s.proposals ∨ q = p := by
    intro q hq
    simpa using hq
  have hunrecorded : ∀ c ∈ s.candidates, c.candidateId ≠ p.candidateId := hfree
  refine ⟨⟨hrecords, ?_, ?_, ?_, ?_, ?_, ?_, ?_⟩, ?_, hu⟩
  · intro c hc q hq hid
    rcases hmem q hq with hq | rfl
    · exact hb.deadline c hc q hq hid
    · exact absurd hid.symm (hunrecorded c hc)
  · intro q hq r hr hans
    rcases hmem q hq with hq | rfl
    · exact hb.outlived q hq r hr hans
    · exact absurd hans (hown r hr)
  · intro htwo
    obtain ⟨q, hq⟩ : ∃ q, q ∈ s.proposals := by
      refine List.exists_mem_of_length_pos ?_
      simp only [Manager.applyAction, List.length_append, List.length_singleton,
        PROPOSAL_SLOTS] at htwo
      omega
    simp [Manager.applyAction, hnil q hq]
  · intro q hq hlive
    rcases hmem q hq with hq | rfl
    · exact hb.held q hq hlive
    · left
      have hle := foreign_le q s.results
      simp only [RESULT_CACHE_SLOTS, Manager.applyAction] at hroom ⊢
      omega
  · intro q hq hlive hch
    rcases hmem q hq with hq | rfl
    · exact hb.challenged q hq hlive hch
    · obtain ⟨c, hc, hid, -⟩ := State.isChallenged_iff.mp hch
      exact absurd hid (hunrecorded c hc)
  · rintro q hq q' hq' hepoch ⟨r, hr, hans⟩
    rcases hmem q hq with hq | rfl
    · simp [Manager.applyAction, hnil q hq] at hr
    · exact absurd hans (hown r hr)
  · intro hnone q hq hproven
    rcases hmem q hq with hq | rfl
    · obtain ⟨⟨z, hz, hlt⟩, hno⟩ := hb.early hnone q hq hproven
      exact ⟨⟨z, List.mem_append_left _ hz, hlt⟩, hno⟩
    · obtain ⟨c, hc, hid, -⟩ := State.isProven_iff.mp hproven
      exact absurd hid (hunrecorded c hc)
  · intro f ms hf
    have hold := hw f ms hf
    obtain ⟨q, hq, hqf⟩ := hold.cached
    exact ⟨hold.slots, hold.epoch, ⟨q, List.mem_append_left _ hq, hqf⟩, hold.proven, hold.full,
      hold.same, fun _ => .inl (hnil q hq)⟩

/-- A probe is taken in only when nothing holds its proposal back. -/
theorem challenge {c : Candidate} {binding : ObservedBinding} (h : Upheld t s)
    (ha : Applicable C m s binding nowMs (.challenge c)) :
    Upheld t (m.applyAction s (.challenge c)) := by
  obtain ⟨-, -, hstate, hexp, ⟨p, hp, hid, hloc, hepoch, hslot, hlive⟩, -, hlen, hgrace⟩ := ha
  obtain ⟨hb, hw, hu⟩ := h
  have hunfrozen : s.frozenCohort = none := by
    rw [Option.eq_none_iff_forall_ne_some]
    rintro ⟨f, ms⟩ hf
    exact hlen (hw f ms hf).full
  have hmem : ∀ a ∈ s.candidates ++ [c], a ∈ s.candidates ∨ a = c := by
    intro a ha
    simpa using ha
  have hproven : ∀ id, (m.applyAction s (.challenge c)).isProven id = true →
      s.isProven id = true := by
    intro id hid
    obtain ⟨a, ha, haid, hs⟩ := State.isProven_iff.mp hid
    rcases hmem a ha with ha | rfl
    · exact State.isProven_iff.mpr ⟨a, ha, haid, hs⟩
    · simp [hstate] at hs
  refine ⟨⟨hb.records.challenge hp hid hloc hepoch hslot hstate hlen, ?_, hb.outlived, hb.pair,
    hb.held, ?_, hb.siblings, fun hnone q hq hqp => hb.early hnone q hq (hproven _ hqp)⟩, ?_, ?_⟩
  · intro a ha q hq haid
    rcases hmem a ha with ha | rfl
    · exact hb.deadline a ha q hq haid
    · obtain rfl := List.inj_on_of_nodup_map hb.records.ids hq hp (haid.trans hid.symm)
      rw [hexp]
      exact satAdd_mono hlive.le le_rfl
  · intro q hq hqlive hch
    obtain ⟨a, ha, haid, hs⟩ := State.isChallenged_iff.mp hch
    rcases hmem a ha with ha | rfl
    · exact hb.challenged q hq hqlive (State.isChallenged_iff.mpr ⟨a, ha, haid, hs⟩)
    · refine (hb.held q hq hqlive).resolve_right ?_
      rintro ⟨o, ho, -⟩
      simp [hgrace] at ho
  · intro f ms hf
    exact absurd (hunfrozen.symm.trans hf) (by simp)
  · intro a ha
    rcases hmem a ha with ha | rfl
    · exact hu a ha
    · simp [hstate]

/-- The cohort goes on waiting whichever record is proven. -/
theorem waiting_prove {cohort : Option (U64 × List Proposal)} {id : CandidateId} {epoch : U64}
    {slot : Byte} {r : BindResponseIdentity} (h : Waiting s f ms) :
    Waiting { s with
      candidates := Lists.modifyFirst (Records.proofTarget id epoch slot) (Records.proofUpdate r)
        s.candidates
      frozenCohort := cohort } f ms := by
  have hkeeps : ∀ a ∈ s.candidates, a.state = .proven →
      ∃ b ∈ Lists.modifyFirst (Records.proofTarget id epoch slot) (Records.proofUpdate r)
        s.candidates, b.candidateId = a.candidateId ∧ b.state = .proven := by
    intro a ha hs
    obtain ⟨b, hb, hid, -, hbs⟩ := Records.prove_keeps id epoch slot r ha hs
    exact ⟨b, hb, hid, hbs⟩
  refine ⟨h.slots, h.epoch, h.cached, ?_, (Lists.length_modifyFirst).trans h.full, ?_, ?_⟩
  · obtain ⟨c, hc, hs⟩ := h.proven
    obtain ⟨b, hb, -, hbs⟩ := hkeeps c hc hs
    exact ⟨b, hb, hbs⟩
  · intro c hc
    obtain ⟨a, ha, -, -, hae, -⟩ := Records.mem_prove_key hc
    rw [← hae]
    exact h.same a ha
  · intro hlater
    rcases h.vacant hlater with hnil | ⟨p, hp, hproven⟩
    · exact .inl hnil
    · obtain ⟨c, hc, hid, hs⟩ := State.isProven_iff.mp hproven
      obtain ⟨b, hb, hbid, hbs⟩ := hkeeps c hc hs
      exact .inr ⟨p, hp, State.isProven_iff.mpr ⟨b, hb, hbid.trans hid, hbs⟩⟩

/-- A result that answers for the proposal would have answered the proof of a record of it. -/
theorem unanswered_of_applicable {p : Proposal} {id : CandidateId} {epoch at_ : U64} {slot : Byte}
    {r : BindResponseIdentity} {binding : ObservedBinding} (hb : Backed t s)
    (ha : Applicable C m s binding nowMs (.prove id epoch slot at_ r)) (hp : p ∈ s.proposals)
    (hid : p.candidateId = id) : p.epoch = epoch ∧ ∀ e ∈ s.results, ¬ e.Answers p := by
  obtain ⟨-, -, hcached, ⟨c, hc, -, hlive, -⟩, -⟩ := ha
  have hmem := List.mem_of_find?_eq_some hc
  have hkey := List.find?_some hc
  simp only [decide_eq_true_eq] at hkey
  obtain ⟨-, hpe, hps⟩ := hb.records.cached c hmem p hp (hid.trans hkey.1.symm)
  refine ⟨hpe.trans hkey.2.2.1, ?_⟩
  intro e he hans
  have hlate : nowMs < e.expiryMs :=
    (hlive.trans_le (hb.deadline c hmem p hp (hid.trans hkey.1.symm))).trans_le
      (hb.outlived p hp e he hans)
  refine List.find?_eq_none.mp hcached e he ?_
  simp only [decide_eq_true_eq]
  exact ⟨hans.1.trans hid, hans.2.1.trans (hpe.trans hkey.2.2.1),
    hans.2.2.trans (hps.trans hkey.2.2.2.1), hlate⟩

/-- A proof leaves a cohort that is due. -/
theorem markProven {id : CandidateId} {epoch at_ : U64} {slot : Byte} {r : BindResponseIdentity}
    {binding : ObservedBinding} (h : Upheld t s) (hem : s.emittedResults = [])
    (ha : Applicable C m s binding nowMs (.prove id epoch slot at_ r)) :
    Backed t (Manager.markProven s id epoch slot r) ∧
      (∀ f ms, (Manager.markProven s id epoch slot r).frozenCohort = some (f, ms) →
        Due (Manager.markProven s id epoch slot r) f ms) ∧
      ∀ c ∈ (Manager.markProven s id epoch slot r).candidates, c.state ≠ .failed := by
  obtain ⟨hb, hw, hu⟩ := h
  have happ := ha
  obtain ⟨-, -, -, ⟨c₀, hc₀, -⟩, -, greatest, hgreatest, -⟩ := ha
  have hkey := List.find?_some hc₀
  simp only [decide_eq_true_eq] at hkey
  obtain ⟨hattained, hmax⟩ := List.max?_eq_some_iff.mp hgreatest
  have hle : ∀ p ∈ s.proposals, p.epoch ≤ greatest := fun p hp =>
    hmax _ (List.mem_map.mpr ⟨p, hp, rfl⟩)
  obtain ⟨z, hz, hze⟩ := List.mem_map.mp hattained
  obtain ⟨cohort, he, hcohort⟩ := markProven_eq s id epoch slot r
  rw [he]
  have hrecords := hb.records.prove id epoch slot r
  have hbacked : Backed t { s with
      candidates := Lists.modifyFirst (Records.proofTarget id epoch slot) (Records.proofUpdate r)
        s.candidates
      frozenCohort := cohort } := by
    refine hb.candidates s.tombstones cohort hrecords ?_ ?_
    · intro c hc
      rcases Records.mem_prove hc with hc | ⟨a, ha, rfl⟩
      · exact ⟨c, hc, rfl, rfl, fun hs => hs⟩
      · exact ⟨a, List.mem_of_find?_eq_some ha, rfl, rfl, by simp [Records.proofUpdate]⟩
    · rintro hnone p hp ⟨c, hc, hcid, hs⟩
      rcases hcohort with ⟨-, -, rfl⟩ | ⟨hlow, hsame⟩
      · simp at hnone
      · have hunfrozen := hsame.symm.trans hnone
        rcases Records.mem_prove hc with hc | ⟨a, ha, rfl⟩
        · exact hb.early hunfrozen p hp (State.isProven_iff.mpr ⟨c, hc, hcid, hs⟩)
        · have htarget := List.find?_some ha
          simp only [Records.proofTarget, decide_eq_true_eq] at htarget
          obtain ⟨hpe, hno⟩ := unanswered_of_applicable hb happ hp (hcid.symm.trans htarget.1)
          refine ⟨⟨z, hz, ?_⟩, hno⟩
          rw [hze]
          refine lt_of_le_of_ne (hle p hp) ?_
          rintro heq
          exact hlow ⟨hunfrozen, by rw [hgreatest, ← heq, hpe]⟩
  refine ⟨hbacked, ?_, ?_⟩
  · intro f ms hf
    rcases hcohort with ⟨-, hg, rfl⟩ | ⟨-, hsame⟩
    · obtain ⟨rfl, rfl⟩ := Prod.mk.inj (Option.some.inj hf)
      obtain rfl : epoch = greatest := Option.some.inj (hg.symm.trans hgreatest)
      obtain ⟨c₁, hc₁⟩ : ∃ c, s.candidates.find? (Records.proofTarget id epoch slot) = some c := by
        refine Option.isSome_iff_exists.mp (List.find?_isSome.mpr
          ⟨c₀, List.mem_of_find?_eq_some hc₀, ?_⟩)
        simp [Records.proofTarget, hkey.1, hkey.2.2.1, hkey.2.2.2.1]
      have htarget := List.find?_some hc₁
      simp only [Records.proofTarget, decide_eq_true_eq] at htarget
      have hof : ∀ p ∈ Manager.proposalsOf s epoch, p ∈ s.proposals ∧ p.epoch = epoch := by
        intro p hp
        simpa [Manager.proposalsOf] using hp
      refine ⟨?_, fun p hp => (hof p hp).2, ⟨z, hz, hze⟩, ⟨_, Lists.mem_modifyFirst_of_find hc₁,
        htarget.2.1, rfl⟩, ?_, ?_, ?_⟩
      · rw [hem, List.length_nil, Nat.zero_add]
        exact (List.length_filter_le _ _).trans hb.records.proposals_le
      · intro p hp c hc hid
        exact (hbacked.epoch_of_id (hof p hp).1 hc hid).symm.trans (hof p hp).2
      · exact fun p hp hlater => absurd (hle p hp) (not_le.mpr hlater)
      · rintro ⟨p, hp, hlater⟩
        exact absurd (hle p hp) (not_le.mpr hlater)
    · exact (waiting_prove (hw f ms (hsame.symm.trans hf))).due hbacked hem
  · intro c hc
    rcases Records.mem_prove hc with hc | ⟨a, -, rfl⟩
    · exact hu c hc
    · simp [Records.proofUpdate]

end Upheld

/-- The state an expiry sweeps: a cohort still waits, or no record is left of it, or there was none. -/
structure Marked (nowMs : U64) (frozen : List Proposal) (s : State) : Prop where
  backed : Backed nowMs s
  waiting : ∀ f ms, s.frozenCohort = some (f, ms) → Waiting s f ms ∧ s.emittedResults = [] ∧
    ∃ c ∈ s.candidates, ∃ d ∈ s.candidates, c.state.terminal = false ∧ d.state = .proven
  emitted : s.emittedResults = [] ∨ s.candidates = []
  unfailed : frozen = [] ∨ ∀ c ∈ s.candidates, c.state ≠ .failed
  together : ∀ p ∈ s.proposals, ∀ q ∈ s.proposals, p.epoch = q.epoch → nowMs < p.expiryMs →
    nowMs < q.expiryMs → s.Unanswered p → s.Unanswered q

section

variable {s : State} {t nowMs f : U64} {ms frozen : List Proposal} {m : Manager}

theorem marked_of_unfrozen (h : Upheld t s) (ht : t ≤ nowMs) (hem : s.emittedResults = [])
    (htogether : s.TimesOutTogether nowMs) (hf : s.frozenCohort = none) :
    Marked nowMs s.frozenMembers
      ((s.expireMark nowMs).settleFrozenCohort m.profile m.scid nowMs).1 := by
  have hmembers : s.frozenMembers = [] := by simp [State.frozenMembers, hf]
  have hmark : s.expireMark nowMs = s.failChallenged nowMs := by
    rw [State.expireMark, hmembers]
    rfl
  have hsame : ((s.expireMark nowMs).settleFrozenCohort m.profile m.scid nowMs).1 =
      s.failChallenged nowMs := by
    rw [hmark]
    simp [State.settleFrozenCohort, State.failChallenged, hf]
  have hbacked : Backed nowMs (s.failChallenged nowMs) :=
    (h.backed.mono ht).faded s.tombstones (State.failChallenged_faded s nowMs)
  have hmem : ∀ c ∈ s.candidates,
      (if c.expiryMs ≤ nowMs ∧ c.state = .challenged then State.timeOut c else c) ∈
        (s.failChallenged nowMs).candidates := by
    intro c hc
    exact List.mem_map.mpr ⟨c, hc, rfl⟩
  have hout : ∀ p, (s.failChallenged nowMs).Unanswered p ↔ s.TimesOut nowMs p := by
    intro p
    refine and_congr ⟨?_, ?_⟩ Iff.rfl
    · rintro ⟨c, hc, hid, hs⟩
      obtain ⟨a, ha, rfl⟩ := List.mem_map.mp hc
      by_cases hexp : a.expiryMs ≤ nowMs ∧ a.state = .challenged
      · rw [if_pos hexp] at hid
        exact ⟨a, ha, hid, hexp.2, hexp.1⟩
      · rw [if_neg hexp] at hs
        exact absurd hs (h.unfailed a ha)
    · rintro ⟨a, ha, hid, hs, hexp⟩
      have hin := hmem a ha
      rw [if_pos ⟨hexp, hs⟩] at hin
      exact ⟨_, hin, hid, rfl⟩
  rw [hsame, hmembers]
  refine ⟨hbacked, ?_, .inl hem, .inl rfl, ?_⟩
  · intro f ms hfrozen
    exact absurd (hf.symm.trans hfrozen) (by simp)
  · intro p hp q hq hepoch hlivep hliveq hno
    exact (hout q).mpr (htogether hf p hp q hq hepoch hlivep hliveq ((hout p).mp hno))

theorem marked_of_frozen (h : Upheld t s) (h3 : m.profile ≠ 3) (ht : t ≤ nowMs)
    (hem : s.emittedResults = []) (htime : ∀ p ∈ s.proposals, p.expiryMs ≤ satAdd nowMs 10000)
    (hspares : Attempt.Spares ⟨s.expireMark nowMs, nowMs⟩) (hf : s.frozenCohort = some (f, ms)) :
    Marked nowMs s.frozenMembers
      ((s.expireMark nowMs).settleFrozenCohort m.profile m.scid nowMs).1 := by
  obtain ⟨cs, ts, hfaded, hmark⟩ := State.expireMark_eq s nowMs
  have hbacked : Backed nowMs (s.expireMark nowMs) := by
    rw [hmark]
    exact (h.backed.mono ht).faded ts hfaded
  have hfrozen : (s.expireMark nowMs).frozenCohort = some (f, ms) := by
    rw [hmark]
    exact hf
  have hwaiting : Waiting (s.expireMark nowMs) f ms := by
    rw [hmark]
    exact (h.waiting f ms hf).faded hfaded
  have hem' : (s.expireMark nowMs).emittedResults = [] := by
    rw [hmark]
    exact hem
  have htime' : ∀ p ∈ (s.expireMark nowMs).proposals, p.expiryMs ≤ satAdd nowMs 10000 := by
    rw [hmark]
    exact htime
  have hdue : ∀ f' ms', (s.expireMark nowMs).frozenCohort = some (f', ms') →
      Due (s.expireMark nowMs) f' ms' := by
    intro f' ms' hf'
    obtain ⟨rfl, rfl⟩ := Prod.mk.inj (Option.some.inj (hfrozen.symm.trans hf'))
    exact hwaiting.due hbacked hem'
  obtain ⟨hb, hw⟩ := hbacked.settle hdue h3 htime' hspares le_rfl
  rcases State.settle_caches (s.expireMark nowMs) m.profile m.scid nowMs with he |
    ⟨f', ms', hs, hc | ⟨hp, -⟩⟩
  · -- The cohort waits on: one record is open and the other one proven, so none has failed.
    obtain ⟨-, hblocked⟩ := @State.settle_frozen (s.expireMark nowMs) m.profile m.scid nowMs f ms
      (by rw [he]; exact hfrozen)
    rw [he]
    have hroom := (hdue f ms hfrozen).room
    have hwaits := hblocked.resolve_right (by omega)
    simp only [State.cohortWaits, List.any_eq_true, decide_eq_true_eq] at hwaits
    obtain ⟨p, -, -, c, hc, -, hopen⟩ := hwaits
    obtain ⟨d, hd, hproven⟩ := hwaiting.proven
    obtain ⟨-, honly⟩ := hbacked.records.two hc (by simpa using hopen) hd hproven
    have hunfailed : ∀ a ∈ (s.expireMark nowMs).candidates, a.state ≠ .failed := by
      intro a ha hfailed
      rcases honly a ha with rfl | rfl
      · simp [CandidateState.terminal, hfailed] at hopen
      · simp [hfailed] at hproven
    refine ⟨hbacked, ?_, .inl hem', .inr hunfailed, ?_⟩
    · intro f' ms' hf'
      obtain ⟨rfl, rfl⟩ := Prod.mk.inj (Option.some.inj (hfrozen.symm.trans hf'))
      exact ⟨hwaiting, hem', c, hc, d, hd, by simpa using hopen, hproven⟩
    · rintro p - q - - - - ⟨⟨a, ha, -, hfailed⟩, -⟩
      exact absurd hfailed (hunfailed a ha)
  · obtain ⟨rfl, -⟩ := Prod.mk.inj (Option.some.inj (hfrozen.symm.trans hs.frozen))
    have hnone : ((s.expireMark nowMs).settleFrozenCohort m.profile m.scid nowMs).1.candidates =
        [] := by
      rw [hc.candidates, List.filter_eq_nil_iff]
      intro c hcm
      simp [hwaiting.same c hcm]
    refine ⟨hb, ?_, .inr hnone, .inr (by simp [hnone]), ?_⟩
    · intro f' ms' hf'
      exact absurd (hc.frozenCohort.symm.trans hf') (by simp)
    · rintro p - q - - - - ⟨⟨a, ha, -⟩, -⟩
      simp [hnone] at ha
  · exact absurd hp h3

/-- After the sweep a cohort is due, whether it was kept or frozen anew. -/
theorem Marked.sweep (h : Marked nowMs frozen s)
    (htime : ∀ p ∈ s.proposals, p.expiryMs ≤ satAdd nowMs 5000) :
    Backed nowMs (s.expireSweep nowMs frozen) ∧
      (∀ f ms, (s.expireSweep nowMs frozen).frozenCohort = some (f, ms) →
        Due (s.expireSweep nowMs frozen) f ms) ∧
      ∀ c ∈ (s.expireSweep nowMs frozen).candidates, c.state ≠ .failed := by
  have hb := h.backed.sweep h.emitted h.unfailed htime h.together
  obtain ⟨hps, hcs, hcohort, -⟩ := swept_fields s nowMs frozen
  refine ⟨hb, ?_, ?_⟩
  · intro f ms hf
    rw [hcohort] at hf
    rcases State.cohortAfter_eq_some hf with ⟨hold, hkept⟩ | ⟨hfresh, hgone⟩
    · obtain ⟨hw, hem, c, hc, d, hd, hopen, hproven⟩ := h.waiting f ms hold
      rw [← hps] at hkept
      obtain ⟨hw', hem'⟩ := hw.sweep h.backed hem hc hopen hd hproven hkept
      exact hw'.due hb hem'
    · cases hcase : s.frozenCohort with
      | none => exact h.backed.refreeze hb hcase h.emitted hfresh
      | some cohort =>
        obtain ⟨f', ms'⟩ := cohort
        obtain ⟨⟨q, hq, hqf, hqp⟩, -, -⟩ := State.freshCohort_eq_some hfresh
        obtain ⟨c, hc, hid, -⟩ := State.isProven_iff.mp hqp
        have hepoch := h.backed.epoch_of_id (List.mem_of_mem_filter hq) hc hid
        exact absurd (hepoch.trans ((h.waiting f' ms' hcase).1.same c hc))
          (hgone f' ms' hcase q hq)
  · intro c hc hfailed
    rw [hcs, List.mem_filter] at hc
    rcases h.unfailed with rfl | hno
    · simp [hfailed] at hc
    · exact hno c hc.1 hfailed

theorem Upheld.expireSettled (h : Upheld t s) (h3 : m.profile ≠ 3) (ht : t ≤ nowMs)
    (hem : s.emittedResults = []) (hopen : s.closed = false)
    (htime : ∀ p ∈ s.proposals, p.expiryMs ≤ satAdd nowMs 5000)
    (htogether : s.TimesOutTogether nowMs)
    (hspares : ∀ a ∈ s.expireAttempts m nowMs, a.Spares) :
    Upheld nowMs (s.expireSettled m nowMs) := by
  have htime' : ∀ p ∈ s.proposals, p.expiryMs ≤ satAdd nowMs 10000 := fun p hp =>
    (htime p hp).trans (satAdd_mono le_rfl (by omega))
  have hmarked : Marked nowMs s.frozenMembers
      ((s.expireMark nowMs).settleFrozenCohort m.profile m.scid nowMs).1 := by
    cases hf : s.frozenCohort with
    | none => exact marked_of_unfrozen h ht hem htogether hf
    | some cohort =>
      exact marked_of_frozen h h3 ht hem htime'
        (hspares ⟨s.expireMark nowMs, nowMs⟩ (by simp [State.expireAttempts, hopen])) hf
  have hsub : ∀ p ∈ ((s.expireMark nowMs).settleFrozenCohort m.profile m.scid nowMs).1.proposals,
      p ∈ s.proposals := by
    intro p hp
    obtain ⟨cs, ts, -, hmark⟩ := State.expireMark_eq s nowMs
    have hmem := (State.settle_sublist (s.expireMark nowMs) m.profile m.scid nowMs).1.subset hp
    rwa [hmark] at hmem
  obtain ⟨hb, hdue, hunfailed⟩ := hmarked.sweep fun p hp => htime p (hsub p hp)
  have hkept : ∀ p ∈ (s.expireBeforeSettle m nowMs).proposals, p.expiryMs ≤ satAdd nowMs 10000 :=
    fun p hp => htime' p (World.expireBeforeSettle_proposals_subset m s nowMs hp)
  obtain ⟨hb', hw⟩ := hb.settle hdue h3 hkept
    (hspares ⟨s.expireBeforeSettle m nowMs, nowMs⟩ (by simp [State.expireAttempts, hopen])) le_rfl
  refine ⟨hb', hw, ?_⟩
  intro c hc
  exact hunfailed c ((State.settle_sublist _ m.profile m.scid nowMs).2.subset hc)

end

namespace World

variable {C : Crypto} {m : Manager} {secret : Bytes 32} {ok : World → Call → Prop} {w : World}
  {call : Call}

theorem passive_forward (h : passive w call) : w.Forward call := by
  cases call with
  | proposeLocal => exact h.elim
  | takeResults => simp [Forward, Call.time?]
  | _ => exact h.1

theorem passive_drained {p : Previewed} (h : passive w call) (hcom : w.committed m call = some p) :
    w.state.emittedResults = [] := by
  cases call with
  | commitProtected => exact h.2
  | commitProfile3 => exact h.2
  | _ => simp [committed] at hcom

theorem outbound_commit {t : Transition} {r : State × Except MobilityError Unit}
    (h3 : m.profile ≠ 3) (h : w.state.outbound = []) (hr : CommitEffect m w.state t r) :
    r.1.outbound = [] := by
  rcases hr with ⟨hsame, -⟩ | ⟨-, -, -, -, g, -, rfl⟩
  · rw [hsame, h]
  · rw [List.eq_nil_iff_forall_not_mem]
    intro c hc
    have hmem := ((applyAction_local h3 w.state t.action).2 c hc).1
    simp [h] at hmem

/-- Without local proposals nothing goes out. -/
theorem outbound_step (h3 : m.profile ≠ 3) (hok : passive w call) (h : w.state.outbound = []) :
    (w.step C m call).state.outbound = [] := by
  cases call with
  | proposeLocal => exact hok.elim
  | makeProbe id carrier nonce nowMs =>
    simp only [step, next, Manager.makeProbe, h, List.find?_nil]
    split
    · exact h
    · split <;> exact h
  | previewProtected => exact h
  | previewProfile3 => exact h
  | commitProtected p commit =>
    exact outbound_commit h3 h (commitProtectedReplay_effect m w.state p.transition commit)
  | commitProfile3 p commit =>
    exact outbound_commit h3 h (commitProfile3_effect m w.state p.transition commit)
  | expire nowMs =>
    rw [List.eq_nil_iff_forall_not_mem]
    intro c hc
    have hmem := (expire_local h3 w.state nowMs).2 c hc
    simp [h] at hmem
  | takeResults => exact h
  | takeProfile3Admissions =>
    simp only [step, next, State.takeProfile3Admissions]
    split <;> exact h
  | close => rfl

/-- So no result of the peer's is ever committed. -/
theorem Reach.no_local (h : Reach C m secret ok w) (h3 : m.profile ≠ 3)
    (hok : ∀ w call, ok w call → passive w call) : w.state.outbound = [] ∧
      ∀ p ∈ w.issued, ∀ epoch loc b promote r,
        p.transition.action ≠ .commitLocal epoch loc b promote r := by
  apply Reach.induct (I := fun w => w.state.outbound = [] ∧ ∀ p ∈ w.issued,
    ∀ epoch loc b promote r, p.transition.action ≠ .commitLocal epoch loc b promote r) h
  · intro w hs
    obtain ⟨⟨c, owner, rb, ownerId, hnew, -⟩, hi, -⟩ := hs
    exact ⟨by simp [(newInner_eq_ok hnew).1, initialState], by simp [hi]⟩
  · intro w call _ hw hstep _
    refine ⟨outbound_step h3 (hok w call hstep) hw.1, ?_⟩
    intro p hp epoch loc b promote r hact
    rcases List.mem_append.mp hp with hp | hp
    · obtain ⟨c, hc, -⟩ := previewed_commitLocal (Option.mem_toList.mp hp) hact
      simp [hw.1] at hc
    · exact hw.2 p hp epoch loc b promote r hact

theorem upheld_commit {p : Previewed} (h3 : m.profile ≠ 3) (h : Upheld w.clockMs w.state)
    (hem : w.state.emittedResults = []) (hlocal : ∀ epoch loc b promote r,
      p.transition.action ≠ .commitLocal epoch loc b promote r)
    (ha : Applicable C m w.state p.binding p.nowMs p.transition.action)
    (hnow : p.nowMs ≤ w.clockMs)
    (hspares : ∀ a ∈ p.transition.action.attempts w.state, a.Spares ∧
      ∀ q ∈ a.before.proposals, q.expiryMs ≤ satAdd a.nowMs 10000) :
    Upheld w.clockMs (m.applyAction w.state p.transition.action) := by
  cases hact : p.transition.action with
  | cacheProposal q tokens refillMs =>
    rw [hact] at ha
    exact h.cache ha
  | challenge c =>
    rw [hact] at ha
    exact h.challenge ha
  | commitLocal epoch loc b promote r => exact absurd hact (hlocal epoch loc b promote r)
  | prove id epoch slot at_ r =>
    rw [hact] at ha hspares
    obtain ⟨hb, hdue, hunfailed⟩ := h.markProven hem ha
    obtain ⟨hspare, htime⟩ := hspares _ (List.mem_singleton.mpr rfl)
    obtain ⟨rfl, -⟩ := ha
    obtain ⟨hb', hw⟩ := hb.settle hdue h3 htime hspare hnow
    refine ⟨hb', hw, ?_⟩
    intro c hc
    exact hunfailed c ((State.settle_sublist _ m.profile m.scid p.nowMs).2.subset hc)
  | existingChallenge c => exact h
  | respond c => exact h
  | none => exact h

theorem upheld_step (h3 : m.profile ≠ 3) (h : Upheld w.clockMs w.state) (ht : Timely w)
    (hissued : ∀ p ∈ w.issued, p.nowMs ≤ w.clockMs) (hlocal : ∀ p ∈ w.issued,
      ∀ epoch loc b promote r, p.transition.action ≠ .commitLocal epoch loc b promote r)
    (hp : passive w call) (hs : sparing m w call) (he : Effect C m w call) :
    Upheld (w.step C m call).clockMs (w.step C m call).state := by
  have hforward := passive_forward hp
  have hclock := clock_le C m hforward
  have hattempt := ht.attempt hforward he
  cases he with
  | quiet hq _ _ _ => exact h.quiet hclock hq
  | close hstate _ _ =>
    rw [hstate]
    exact .empty rfl rfl rfl
  | commit p g hmem _ _ _ _ ha _ _ hcom hstate _ hattempts =>
    rw [hattempts] at hattempt
    have hnext := upheld_commit h3 h (passive_drained hp hcom) (hlocal p hmem) ha (hissued p hmem)
      fun a ha => ⟨hs.2 a (hattempts ▸ ha), hattempt a ha⟩
    rw [hstate]
    exact hnext.same hclock rfl rfl rfl rfl rfl
  | expire nowMs hcall hopen hstate _ hattempts =>
    subst hcall
    have hle : w.clockMs ≤ nowMs := hforward nowMs rfl
    have hnext : Upheld nowMs (w.state.expireSettled m nowMs) := by
      refine h.expireSettled h3 hle hp.2 hopen ?_ hs.1 ?_
      · exact fun q hq => (ht.clock q hq).trans (satAdd_mono hle le_rfl)
      · exact fun a ha => hs.2 a (hattempts ▸ ha)
    change Upheld nowMs (w.step C m (.expire nowMs)).state
    rw [hstate]
    rcases State.expire_cases (m := m) w.state nowMs hopen with ⟨ts, he⟩ | ⟨g, -, he⟩ | he <;>
      rw [he]
    · exact h.same hle rfl rfl rfl rfl rfl
    · exact hnext.same le_rfl rfl rfl rfl rfl rfl
    · exact .empty rfl rfl rfl

theorem Reach.upheld (h : Reach C m secret (fun w call => passive w call ∧ sparing m w call) w)
    (h3 : m.profile ≠ 3) : Upheld w.clockMs w.state := by
  induction h with
  | start hs =>
    obtain ⟨⟨c, owner, rb, ownerId, hnew, -⟩, -⟩ := hs
    have hnew := (newInner_eq_ok hnew).1
    exact .empty (by simp [hnew, initialState]) (by simp [hnew, initialState])
      (by simp [hnew, initialState])
  | @next w call hr hstep ih =>
    have hr : Reach C m secret (fun w call => passive w call ∧ sparing m w call) w := hr
    obtain ⟨ho, hp, hs⟩ := hstep
    have hforward : ∀ w call, passive w call ∧ sparing m w call → w.Forward call :=
      fun w call h => passive_forward h.1
    exact upheld_step h3 ih (hr.timely hforward) (hr.issued_le hforward)
      (hr.no_local h3 fun w call h => h.1).2 hp hs (step_effect hr.fresh ho)

end World

theorem token_ne_capacity {C : Crypto} {secret : Bytes 32} {c : MobilityContext} {f : TokenFields} :
    token C secret c f ≠ .error .capacity := by
  intro h
  simp only [token, tokenInput, Outcome.bind_eq_error] at h
  rcases h with h | ⟨input, -, h⟩
  · split at h <;> simp at h
  · simp at h

/-- What the capacity check has found when it refuses a response. -/
theorem previewBindResponse_capacity {C : Crypto} {m : Manager} {s : State}
    {binding : ObservedBinding} {nowMs epoch expiryMs : U64} {id : CandidateId} {loc : Loc}
    {slot : Byte} {supplied : Bytes 32}
    (h : m.previewBindResponse C s binding nowMs id loc epoch slot expiryMs supplied =
      .error .capacity) :
    Manager.cachedResult s id epoch slot nowMs = none ∧
      Manager.greatestEpoch s = some epoch ∧
      RESULT_CACHE_SLOTS < s.results.length + (Manager.proposalsOf s epoch).length := by
  simp only [Manager.previewBindResponse] at h
  split at h
  · split at h <;> simp at h
  · rename_i hcached
    split at h
    · simp at h
    · rename_i c hc
      split at h
      · simp at h
      · split at h
        · simp at h
        · split at h
          · simp at h
          · rw [Outcome.bind_eq_error] at h
            rcases h with h | ⟨expected, -, h⟩
            · exact absurd h token_ne_capacity
            · split at h
              · simp at h
              · split at h
                · simp at h
                · rename_i greatest hgreatest
                  split at h
                  · rename_i hfull
                    obtain ⟨hnone, rfl, hroom⟩ := hfull
                    refine ⟨hcached, hgreatest, ?_⟩
                    simpa [Manager.prospectiveMembers, hnone] using hroom
                  · simp at h

/-- With one proposal of the epoch two foreign results are in the way, and with two a sibling has
been answered alone. Neither happens. -/
theorem Upheld.room {s : State} {t nowMs : U64} {p : Proposal} (h : Upheld t s) (ht : t ≤ nowMs)
    (hp : p ∈ s.proposals) (hlive : nowMs < p.expiryMs) (hch : s.isChallenged p.candidateId = true)
    (hcached : Manager.cachedResult s p.candidateId p.epoch p.slot nowMs = none) :
    s.results.length + (Manager.proposalsOf s p.epoch).length ≤ RESULT_CACHE_SLOTS := by
  obtain ⟨hb, -, -⟩ := h
  have hunanswered : ∀ r ∈ s.results, ¬ r.Answers p := by
    intro r hr hans
    refine List.find?_eq_none.mp hcached r hr ?_
    simp only [decide_eq_true_eq]
    exact ⟨hans.1, hans.2.1, hans.2.2,
      hlive.trans_le ((le_satAdd _ _).trans (hb.outlived p hp r hr hans))⟩
  have hle := hb.records.proposals_le
  have hsub : (Manager.proposalsOf s p.epoch).length ≤ s.proposals.length :=
    List.length_filter_le _ _
  by_cases hone : (Manager.proposalsOf s p.epoch).length ≤ 1
  · have hforeign := hb.challenged p hp (lt_of_le_of_lt ht hlive) hch
    have hall : s.results.length ≤ foreign p s.results := by
      by_contra hlt
      obtain ⟨r, hr, hans⟩ := exists_answers (not_le.mp hlt)
      exact hunanswered r hr hans
    simp only [RESULT_CACHE_SLOTS]
    omega
  · have htwo : s.proposals.length = PROPOSAL_SLOTS := by
      simp only [PROPOSAL_SLOTS] at hle ⊢
      omega
    have hsame : ∀ q ∈ s.proposals, q.epoch = p.epoch := by
      have hfull : (Manager.proposalsOf s p.epoch).length = s.proposals.length := by
        simp only [PROPOSAL_SLOTS] at htwo
        omega
      intro q hq
      simpa using List.length_filter_eq_length_iff.mp hfull q hq
    have hnil : s.results = [] := by
      rw [List.eq_nil_iff_forall_not_mem]
      intro r hr
      obtain ⟨q, hq, hans⟩ := (hb.pair htwo).1 r hr
      obtain ⟨r', hr', hans'⟩ := hb.siblings q hq p hp (hsame q hq) ⟨r, hr, hans⟩
      exact hunanswered r' hr' hans'
    simp only [hnil, List.length_nil, RESULT_CACHE_SLOTS]
    simp only [PROPOSAL_SLOTS] at hle
    omega

/-- A response of a challenged candidate, with its fields and its token and while its proposal and
its challenge live, is never refused for capacity. -/
def FindsRoom (C : Crypto) (m : Manager) (secret : Bytes 32) (w : World) : Prop :=
  ∀ nowMs, w.clockMs ≤ nowMs → ∀ c ∈ w.state.candidates, c.state = .challenged →
    ∀ p ∈ w.state.proposals, p.candidateId = c.candidateId → nowMs < p.expiryMs →
    nowMs < c.expiryMs → ∀ supplied plaintext,
    token C secret m.receiving
      ⟨c.candidateId, c.loc, c.binding, c.epoch, c.slot, c.expiryMs⟩ = .ok supplied →
    Control.parse plaintext =
      .ok (.bindResponse c.candidateId c.loc c.epoch c.slot c.expiryMs supplied) →
    ∀ proof live,
      m.previewProtected C w.state plaintext c.binding proof live nowMs ≠ .error .capacity

/-- The room of every proposal is still there in a run that proposes nothing, takes its results, and
neither times out one of two live siblings nor closes two winnerless results under a later one. -/
theorem proof_finds_room {C : Crypto} {m : Manager} {secret : Bytes 32} {w : World}
    (h3 : m.profile ≠ 3)
    (h : World.Reach C m secret (fun w call => passive w call ∧ sparing m w call) w) :
    FindsRoom C m secret w := by
  have hu := h.upheld h3
  intro nowMs hnow c hc hstate p hp hid hlive _ supplied plaintext _ hplain proof live hrefused
  simp only [Manager.previewProtected] at hrefused
  split at hrefused
  · simp at hrefused
  simp only [Manager.previewInner, hplain] at hrefused
  split at hrefused
  · simp at hrefused
  rw [Outcome.bind_eq_error] at hrefused
  rcases hrefused with hrefused | ⟨control, hcontrol, hrefused⟩
  · simp at hrefused
  obtain rfl := Except.ok.inj hcontrol
  split at hrefused
  · simp at hrefused
  split at hrefused
  · simp at hrefused
  rw [Outcome.bind_eq_error] at hrefused
  rcases hrefused with hrefused | ⟨action, -, hrefused⟩
  · obtain ⟨hcached, -, hroom⟩ := previewBindResponse_capacity hrefused
    obtain ⟨-, hepoch, hslot⟩ := hu.backed.records.cached c hc p hp hid
    rw [← hid, ← hepoch, ← hslot] at hcached
    rw [← hepoch] at hroom
    have hch : w.state.isChallenged p.candidateId = true :=
      State.isChallenged_iff.mpr ⟨c, hc, hid.symm, hstate⟩
    exact absurd (hu.room hnow hp hlive hch hcached) (not_le.mpr hroom)
  · simp at hrefused

/-- The challenge of the lower of two epochs runs out, and then the higher one is probed. -/
def lowerTimedOut : List Scenario.Input :=
  [.update 3 3 1000, .update 5 5 1000, .probe 3 3 13 1000, .call (.expire 4000),
    .call .takeResults, .probe 5 5 15 4100]

theorem proof_finds_room_beside_timeout :
    FindsRoom .sample Scenario.manager Scenario.secret (Scenario.play lowerTimedOut) ∧
      (Scenario.play lowerTimedOut).state.results.length = 1 ∧
      (Scenario.play lowerTimedOut).state.isChallenged (bytesOf 16 5) = true := by
  have hr : World.Reach .sample Scenario.manager Scenario.secret
      (fun w call => passive w call ∧ sparing Scenario.manager w call)
      (Scenario.play lowerTimedOut) := Scenario.reach _ (by decide +kernel)
  exact ⟨proof_finds_room (by decide) hr, by decide +kernel, by decide +kernel⟩

/-- A candidate of a scenario has been challenged in time, and its response finds no room. -/
def Refused (w : World) (id : Byte) (epoch : U64) (binding : Byte) (expiryMs nowMs : U64) : Prop :=
  let supplied := Scenario.tokenOn id epoch binding expiryMs
  let control := Control.bindResponse (bytesOf 16 id) (bytesOf 16 id) epoch 0 expiryMs supplied
  w.clockMs ≤ nowMs ∧ nowMs < expiryMs ∧
    ⟨bytesOf 16 id, bytesOf 16 id, epoch, 0, Scenario.bindingOf binding, expiryMs, none,
      .challenged⟩ ∈ w.state.candidates ∧
    (∃ p ∈ w.state.proposals, p.candidateId = bytesOf 16 id ∧ nowMs < p.expiryMs) ∧
    token .sample Scenario.secret Scenario.manager.receiving ⟨bytesOf 16 id, bytesOf 16 id,
      Scenario.bindingOf binding, epoch, 0, expiryMs⟩ = .ok supplied ∧
    Control.parse control.encode = .ok control ∧
    Scenario.manager.previewProtected .sample w.state control.encode (Scenario.bindingOf binding)
      ⟨some ⟨control.encode, ⟨1, 0⟩, 0⟩, false⟩ (fun _ => true) nowMs = .error .capacity

theorem Refused.not_findsRoom {w : World} {id : Byte} {epoch expiryMs nowMs : U64} {binding : Byte}
    (h : Refused w id epoch binding expiryMs nowMs) :
    ¬ FindsRoom .sample Scenario.manager Scenario.secret w := by
  obtain ⟨hnow, hopen, hc, ⟨p, hp, hid, hlive⟩, htoken, hplain, hrefused⟩ := h
  intro hroom
  exact hroom nowMs hnow _ hc rfl p hp hid hlive hopen _ _ htoken hplain _ _ hrefused

/-- Two siblings are probed, and `expire` times out the first one. Its proposal stays cached. -/
def siblingTimedOut : List Scenario.Input :=
  [.update 1 1 1000, .update 2 1 1000, .probe 1 1 11 1000, .probe 2 1 12 3500,
    .call (.expire 4500), .call .takeResults]

theorem proof_refused_beside_timed_out_sibling :
    ¬ ∀ (C : Crypto) (m : Manager) (secret : Bytes 32) (w : World), m.profile ≠ 3 →
      World.Reach C m secret (fun w call => passive w call) w → FindsRoom C m secret w := by
  intro h
  have hr : World.Reach .sample Scenario.manager Scenario.secret (fun w call => passive w call)
      (Scenario.play siblingTimedOut) := Scenario.reach _ (by decide +kernel)
  have hrefused : Refused (Scenario.play siblingTimedOut) 2 1 12 6500 4600 := by
    unfold Refused
    decide +kernel
  exact hrefused.not_findsRoom (h _ _ _ _ (by decide) hr)

/-- The other way to lose the room. A proof whose own proposal has expired freezes two siblings, which
run out one after the other; the second one's settlement has no winner, and so no grace binding to
hold back the later epoch until the two results are gone. -/
def winnerlessBelow : List Scenario.Input :=
  [.update 1 3 1000, .update 2 3 3000, .probe 1 3 11 5900, .call (.expire 6000), .update 3 3 6500,
    .probe 3 3 13 7950, .response 1 3 11 8900 7960, .call (.expire 8000), .update 4 5 8100,
    .call (.expire 11500), .call .takeResults, .probe 4 5 14 11600]

theorem proof_refused_above_winnerless :
    ¬ ∀ (C : Crypto) (m : Manager) (secret : Bytes 32) (w : World), m.profile ≠ 3 →
      World.Reach C m secret (fun w call => passive w call ∧ together w call) w →
      FindsRoom C m secret w := by
  intro h
  have hr : World.Reach .sample Scenario.manager Scenario.secret
      (fun w call => passive w call ∧ together w call) (Scenario.play winnerlessBelow) := Scenario.reach _ (by decide +kernel)
  have hrefused : Refused (Scenario.play winnerlessBelow) 4 5 14 14600 11700 := by
    unfold Refused
    decide +kernel
  exact hrefused.not_findsRoom (h _ _ _ _ (by decide) hr)

end R8.Mobility
