import R8Protocol.Mobility.Codec
import R8Protocol.Mobility.Outcomes
import R8Protocol.Mobility.Receive
import R8Protocol.Mobility.Recovery

/-! A response that arrives again is answered with the result its cohort was settled with. -/
namespace R8.Mobility

open FixedWidth Wire Session

/-- Whether the transition proves a record of the id. -/
def Previewed.proves (p : Previewed) (id : CandidateId) : Bool :=
  match p.transition.action with
  | .prove id' _ _ _ _ => id' = id
  | _ => false

/-- The response committed last for the id. -/
def lastProof (history : List Previewed) (id : CandidateId) : Option Previewed :=
  history.find? (·.proves id)

/-- The plaintext a transition was previewed for, as its replay proof holds it. -/
def Previewed.Carries (p : Previewed) (plaintext : List Byte) : Prop :=
  (∃ proof ∈ p.transition.protectedProof, ∃ preview ∈ proof.preview,
    preview.plaintext = plaintext) ∨
  ∃ proof ∈ p.transition.profile3Proof, ∃ preview ∈ proof.preview, preview.plaintext = plaintext

/-- A proven record holds the response committed last for its id. -/
def Responded (history : List Previewed) (s : State) : Prop :=
  ∀ c ∈ s.candidates, c.state = .proven → ∃ p ∈ lastProof history c.candidateId, ∃ at_ r,
    p.transition.action = .prove c.candidateId c.epoch c.slot at_ r ∧ c.response = some r

/-- While the manager is open, a response under the entry's key finds the entry at that time. -/
def Kept (entry : ResultEntry) (nowMs : U64) (s : State) : Prop :=
  s.closed = false →
    Manager.cachedResult s entry.candidateId entry.epoch entry.slot nowMs = some entry

/-- Nothing more is taken: the manager is closed, or slot one is admitted. -/
def Spent (s : State) : Prop := s.closed = true ∨ s.profile3Slot1Admitted = true

variable {C : Crypto} {m : Manager} {secret : Bytes 32} {ok : World → Call → Prop}
  {history : List Previewed} {s s' : State} {p : Previewed} {entry : ResultEntry}
  {t nowMs : U64}

theorem proves_of_not_mutates (h : p.transition.action.mutates = false) (id : CandidateId) :
    p.proves id = false := by
  cases hact : p.transition.action <;> simp_all [Action.mutates, Previewed.proves]

theorem proves_of_no_attempts (h : ∀ s, p.transition.action.attempts s = []) (id : CandidateId)
    (s : State) : p.proves id = false := by
  have hs := h s
  cases hact : p.transition.action <;> simp_all [Action.attempts, Previewed.proves]

theorem lastProof_older (h : ∀ id, p.proves id = false) (id : CandidateId) :
    lastProof (p :: history) id = lastProof history id := by
  simp [lastProof, h id]

namespace Responded

theorem older (h : Responded history s) (hp : ∀ id, p.proves id = false) :
    Responded (p :: history) s := by
  intro c hc hproven
  rw [lastProof_older hp]
  exact h c hc hproven

/-- Proven records may go, and records that are not proven may come. -/
theorem shrink (h : Responded history s)
    (hc : ∀ c ∈ s'.candidates, c.state = .proven → c ∈ s.candidates) : Responded history s' :=
  fun c hmem hproven => h c (hc c hmem hproven) hproven

theorem faded {cs : List Candidate} {ts : List (CandidateId × U64)} (h : Responded history s)
    (hf : Faded s.candidates cs) :
    Responded history { s with candidates := cs, tombstones := ts } :=
  h.shrink fun _ hc hproven => hf.mem_proven hc hproven

theorem settle (h : Responded history s) (profile : Byte) (scid nowMs : U64) :
    Responded history (s.settleFrozenCohort profile scid nowMs).1 :=
  h.shrink fun _ hc _ => (State.settle_sublist s profile scid nowMs).2.subset hc

theorem apply {binding : ObservedBinding} (h : Responded history s)
    (ha : Applicable C m s binding nowMs p.transition.action)
    (hn : ∀ s, p.transition.action.attempts s = []) :
    Responded (p :: history) (m.applyAction s p.transition.action) := by
  refine (h.older fun id => proves_of_no_attempts hn id s).shrink ?_
  cases hact : p.transition.action with
  | challenge c =>
    rw [hact] at ha
    intro d hd hproven
    rcases List.mem_append.mp hd with hd | hd
    · exact hd
    · obtain rfl := List.mem_singleton.mp hd
      simp [ha.2.2.1] at hproven
  | commitLocal epoch loc b promote r =>
    obtain ⟨-, -, -, ⟨-, hcs, -⟩ | ⟨-, -, hcs, -⟩⟩ := commitLocal_lists m s epoch loc b promote r
    · intro d hd _
      exact hcs ▸ hd
    · intro d hd _
      simp [Manager.applyAction, hcs] at hd
  | prove id epoch slot at_ r => exact absurd (hn s) (by simp [hact, Action.attempts])
  | cacheProposal | existingChallenge | respond | none => exact fun _ hd _ => hd

/-- A proof writes the first record of its id, which is the one that stays proven. -/
theorem prove {id : CandidateId} {epoch at_ : U64} {slot : Byte} {r : BindResponseIdentity}
    (hr : Records s.proposals s.candidates) (h : Responded history s)
    (hact : p.transition.action = .prove id epoch slot at_ r)
    (hc : ∃ c ∈ s.candidates, c.candidateId = id ∧ c.epoch = epoch ∧ c.slot = slot) :
    Responded (p :: history) (Manager.markProven s id epoch slot r) := by
  obtain ⟨cohort, he, -⟩ := markProven_eq s id epoch slot r
  rw [he]
  obtain ⟨c, hc, hkey⟩ := hc
  obtain ⟨target, htarget⟩ := Option.isSome_iff_exists.mp
    ((List.find?_isSome (p := Records.proofTarget id epoch slot)).mpr
      ⟨c, hc, by simpa [Records.proofTarget] using hkey⟩)
  have hwritten := Lists.mem_modifyFirst_of_find (f := Records.proofUpdate r) htarget
  have hrecords := hr.prove id epoch slot r
  have hid : target.candidateId = id ∧ target.epoch = epoch ∧ target.slot = slot := by
    simpa [Records.proofTarget] using List.find?_some htarget
  intro d hd hproven
  by_cases hdid : d.candidateId = id
  · -- Both are proven, so both are the record found by the id.
    have hfound := hrecords.find_proven hd hproven
    have hfound' := hrecords.find_proven hwritten rfl
    have hsame : (Records.proofUpdate r target).candidateId = d.candidateId := hid.1.trans hdid.symm
    rw [hsame, hfound] at hfound'
    obtain rfl := Option.some.inj hfound'
    refine ⟨p, ?_, at_, r, ?_, rfl⟩
    · simp [lastProof, Previewed.proves, hact, Records.proofUpdate, hid.1]
    · simp [hact, Records.proofUpdate, hid]
  · have hold : d ∈ s.candidates := by
      rcases Records.mem_prove hd with hd | ⟨a, ha, rfl⟩
      · exact hd
      · rw [htarget] at ha
        obtain rfl := Option.some.inj ha
        exact absurd hid.1 hdid
    obtain ⟨p', hp', hrest⟩ := h d hold hproven
    refine ⟨p', ?_, hrest⟩
    have hno : p.proves d.candidateId = false := by
      simpa [Previewed.proves, hact] using fun he => hdid he.symm
    simpa [lastProof, hno] using hp'

end Responded

namespace World

theorem responded_phases : Phases C m ok fun history s =>
    Records s.proposals s.candidates ∧ Responded history s where
  older _ _ _ hmut h := ⟨h.1, h.2.older (proves_of_not_mutates hmut)⟩
  quiet _ s s' hq h := by
    refine ⟨by rw [hq.proposals, hq.candidates]; exact h.1, h.2.shrink ?_⟩
    intro c hc _
    exact hq.candidates ▸ hc
  wipe _ _ _ := ⟨.nil, by simp [Responded, State.wipe]⟩
  apply _ _ _ _ _ _ hn _ _ _ ha h := ⟨records_apply ha hn h.1, h.2.apply ha hn⟩
  prove w _ p id epoch slot at_ r _ _ hact _ _ _ ha h := by
    obtain ⟨cohort, he, -⟩ := markProven_eq w.state id epoch slot r
    refine ⟨by rw [he]; exact h.1.prove id epoch slot r, h.2.prove h.1 hact ?_⟩
    rw [hact] at ha
    obtain ⟨-, -, -, ⟨c, hc, -⟩, -⟩ := ha
    have hkey := List.find?_some hc
    simp only [decide_eq_true_eq] at hkey
    exact ⟨c, List.mem_of_find?_eq_some hc, hkey.1, hkey.2.2.1, hkey.2.2.2.1⟩
  mark w nowMs _ _ h := by
    obtain ⟨cs, ts, hf, he⟩ := State.expireMark_eq w.state nowMs
    rw [he]
    exact ⟨h.1.faded hf, h.2.faded hf⟩
  settle w call a _ _ h := ⟨records_settle h.1 m.profile m.scid a.nowMs, h.2.settle _ _ _⟩
  sweep w nowMs _ _ _ h := by
    obtain ⟨rs, ts, he, -⟩ := State.expireSweep_eq
      ((w.state.expireMark nowMs).settleFrozenCohort m.profile m.scid nowMs).1 nowMs
      w.state.frozenMembers
    rw [State.expireBeforeSettle, he]
    refine ⟨(h.1.proposals List.filter_sublist).candidates _, h.2.shrink ?_⟩
    exact fun _ hc _ => (List.mem_filter.mp hc).1

theorem Reach.responded {w : World} (h : Reach C m secret ok w) : Responded w.applied w.state := by
  refine (responded_phases.reach ?_ h).2
  intro w hs
  obtain ⟨⟨c, owner, rb, ownerId, hnew, -⟩, -⟩ := hs
  rw [(newInner_eq_ok hnew).1]
  exact ⟨.nil, by simp [Responded, initialState]⟩

/-- What an attempt leaves is kept by the rest of the call. -/
theorem after_attempt {P : State → Prop} {w : World} {call : Call} {a : Attempt}
    (he : Effect C m w call) (ha : a ∈ w.attempts m call)
    (hgen : ∀ s g, P s → P { s with generation := g }) (hwipe : ∀ s, P s → P s.wipe)
    (hsettle : ∀ s nowMs, P s → P (s.settleFrozenCohort m.profile m.scid nowMs).1)
    (hsweep : ∀ s nowMs frozen, call = .expire nowMs → P s → P (s.expireSweep nowMs frozen))
    (h : P (a.before.settleFrozenCohort m.profile m.scid a.nowMs).1) :
    P (w.step C m call).state := by
  cases he with
  | quiet _ _ _ hs => simp [hs] at ha
  | close _ _ hs => simp [hs] at ha
  | commit p g _ _ _ _ _ _ _ _ _ hstate _ hs =>
    rw [hs] at ha
    cases hact : p.transition.action with
    | prove id epoch slot at_ r =>
      simp only [hact, Action.attempts, List.mem_singleton] at ha
      subst ha
      rw [hstate, hact]
      exact hgen _ g h
    | _ => simp [hact, Action.attempts] at ha
  | expire nowMs hcall hc hstate _ hs =>
    rw [hs] at ha
    simp only [State.expireAttempts, hc, Bool.false_eq_true, if_false, List.mem_cons,
      List.not_mem_nil, or_false] at ha
    have hlast : P (w.state.expireSettled m nowMs) := by
      rcases ha with rfl | rfl
      · exact hsettle _ _ (hsweep _ _ _ hcall h)
      · exact h
    rw [hstate]
    rcases State.expire_settled (m := m) w.state nowMs hc with ⟨g, -, he⟩ | ⟨-, he⟩
    · rw [he]
      exact hgen _ g hlast
    · rw [he]
      exact hwipe _ hlast

end World

theorem cachedResult_filter {id : CandidateId} {epoch : U64} {slot : Byte} {rs : List ResultEntry}
    (ht : t ≤ nowMs) (hs : s'.results = (s.results.filter fun r => t < r.expiryMs) ++ rs)
    (h : Manager.cachedResult s id epoch slot nowMs = some entry) :
    Manager.cachedResult s' id epoch slot nowMs = some entry := by
  unfold Manager.cachedResult at h ⊢
  have hsame : (s.results.filter fun r => t < r.expiryMs).find? (fun r => r.candidateId = id ∧
      r.epoch = epoch ∧ r.slot = slot ∧ nowMs < r.expiryMs) = s.results.find? fun r =>
      r.candidateId = id ∧ r.epoch = epoch ∧ r.slot = slot ∧ nowMs < r.expiryMs := by
    rw [List.find?_filter]
    congr 1
    funext r
    by_cases hr : nowMs < r.expiryMs
    · simp [ht.trans_lt hr]
    · simp [hr]
  rw [hs, List.find?_append, hsame, h, Option.some_or]

namespace Kept

theorem same (h : Kept entry nowMs s) (hc : s'.closed = s.closed) (hr : s'.results = s.results) :
    Kept entry nowMs s' := by
  simpa only [Kept, Manager.cachedResult, hc, hr] using h

theorem append {rs : List ResultEntry} (h : Kept entry nowMs s) (hc : s'.closed = s.closed)
    (hr : s'.results = s.results ++ rs) : Kept entry nowMs s' := by
  intro hopen
  have hfound := h (hc.symm.trans hopen)
  unfold Manager.cachedResult at hfound ⊢
  rw [hr, List.find?_append, hfound, Option.some_or]

theorem settle (h : Kept entry nowMs s) (h3 : m.profile ≠ 3) (scid t : U64) :
    Kept entry nowMs (s.settleFrozenCohort m.profile scid t).1 := by
  have hc := (State.settle_frame s m.profile scid t).closed
  rcases State.settle_caches s m.profile scid t with he | ⟨f, ms, -, he | ⟨hp, -⟩⟩
  · rwa [he]
  · exact h.append hc he.results
  · exact absurd hp h3

theorem sweep (h : Kept entry nowMs s) (ht : t ≤ nowMs) (frozen : List Proposal) :
    Kept entry nowMs (s.expireSweep t frozen) := by
  obtain ⟨rs, ts, he, -⟩ := State.expireSweep_eq s t frozen
  rw [he]
  intro hopen
  exact cachedResult_filter ht rfl (h hopen)

end Kept

namespace World

theorem kept_phases (h3 : m.profile ≠ 3) :
    Phases C m (fun _ call => ∀ t ∈ call.time?, t ≤ nowMs) fun _ s => Kept entry nowMs s where
  older _ _ _ _ h := h
  quiet _ _ _ hq h := h.same hq.closed hq.results
  wipe _ _ _ hopen := by simp [State.wipe] at hopen
  apply w _ p _ _ _ hn _ _ _ _ h := by
    cases hact : p.transition.action with
    | commitLocal epoch loc b promote r =>
      obtain ⟨hc, -, -, ⟨-, -, -, hr, -⟩ | ⟨hp, -⟩⟩ :=
        commitLocal_lists m w.state epoch loc b promote r
      · exact h.append hc hr
      · exact absurd hp h3
    | prove id epoch slot at_ r => exact absurd (hn w.state) (by simp [hact, Action.attempts])
    | cacheProposal | challenge | existingChallenge | respond | none => exact h.same rfl rfl
  prove w _ p id epoch slot at_ r _ _ _ _ _ _ _ h := by
    obtain ⟨cohort, he, -⟩ := markProven_eq w.state id epoch slot r
    rw [he]
    exact h.same rfl rfl
  mark w t _ _ h := by
    obtain ⟨cs, ts, -, he⟩ := State.expireMark_eq w.state t
    rw [he]
    exact h.same rfl rfl
  settle _ _ a _ _ h := h.settle h3 m.scid a.nowMs
  sweep w t htime _ _ h := h.sweep (htime t rfl) w.state.frozenMembers

theorem spent_settle {s : State} (h : Spent s) (h3 : m.profile = 3) (scid t : U64) :
    Spent (s.settleFrozenCohort m.profile scid t).1 := by
  rcases h with hc | hadm
  · exact .inl ((State.settle_frame s m.profile scid t).closed.trans hc)
  · rw [h3]
    obtain ⟨-, -, ⟨-, -, ha, -⟩ | ⟨_, _, _, -, -, -, -, ha, -⟩⟩ := State.settle_admission s scid t
    · exact .inr (ha.trans hadm)
    · exact .inr ha

theorem spent_sweep {s : State} (h : Spent s) (t : U64) (frozen : List Proposal) :
    Spent (s.expireSweep t frozen) := by
  obtain ⟨rs, ts, he, -⟩ := State.expireSweep_eq s t frozen
  rw [he]
  exact h

theorem spent_phases (h3 : m.profile = 3) : Phases C m ok fun _ s => Spent s where
  older _ _ _ _ h := h
  quiet _ s s' hq h := by
    rw [Spent, hq.closed, hq.profile3Slot1Admitted]
    exact h
  wipe _ _ _ := .inl rfl
  -- A manager that is spent has nothing committed any more.
  apply w _ p _ _ _ _ hopen _ hspent _ h := by
    rcases h with hc | ha
    · simp [hopen] at hc
    · simp [Manager.spent, h3, ha] at hspent
  prove w _ p id epoch slot at_ r _ _ _ hopen _ hspent _ h := by
    rcases h with hc | ha
    · simp [hopen] at hc
    · simp [Manager.spent, h3, ha] at hspent
  mark w t _ _ h := by
    obtain ⟨cs, ts, -, he⟩ := State.expireMark_eq w.state t
    rw [he]
    exact h
  settle _ _ a _ _ h := spent_settle h h3 m.scid a.nowMs
  sweep w t _ _ _ h := spent_sweep h t w.state.frozenMembers

/-- A committed proof was handed out before. -/
theorem Reach.lastProof_issued {w : World} {id : CandidateId} (h : Reach C m secret ok w)
    (hp : lastProof w.applied id = some p) : p ∈ w.issued := by
  have hall : ∀ p ∈ w.applied, p.transition.action.mutates = true → p ∈ w.issued := by
    apply Reach.induct (I := fun w => ∀ p ∈ w.applied, p.transition.action.mutates = true →
      p ∈ w.issued) h
    · intro w hs p hp
      simp [hs.2.2.1] at hp
    · intro w call _ hw _ he p hp hmut
      have hissued : p ∈ w.issued → p ∈ (w.step C m call).issued := List.mem_append_right _
      cases he with
      | quiet _ _ ha _ =>
        rcases ha with ha | ⟨p', hmut', ha⟩
        · exact hissued (hw p (ha ▸ hp) hmut)
        · rw [ha] at hp
          rcases List.mem_cons.mp hp with rfl | hp
          · simp [hmut'] at hmut
          · exact hissued (hw p hp hmut)
      | commit p' g hp' _ _ _ _ _ _ _ _ _ ha _ =>
        rw [ha] at hp
        rcases List.mem_cons.mp hp with rfl | hp
        · exact hissued hp'
        · exact hissued (hw p hp hmut)
      | expire nowMs _ _ _ ha _ => exact hissued (hw p (ha ▸ hp) hmut)
      | close _ ha _ => exact hissued (hw p (ha ▸ hp) hmut)
  refine hall p (List.mem_of_find?_eq_some hp) ?_
  have hproves := List.find?_some hp
  cases hact : p.transition.action <;> simp_all [Previewed.proves, Action.mutates]

/-- A proof is previewed for a response with its fields, on the binding it holds. -/
theorem previewControl_prove {s : State} {binding : ObservedBinding} {control : Control}
    {id : CandidateId} {epoch at_ : U64} {slot : Byte} {r : BindResponseIdentity}
    (h : m.previewControl C s binding nowMs control = .ok (.prove id epoch slot at_ r)) :
    control = .bindResponse id r.loc epoch slot r.expiryMs r.token := by
  cases control with
  | bindResponse id' loc epoch' slot' expiryMs supplied =>
    simp only [Manager.previewControl, Manager.previewBindResponse] at h
    split at h
    · simp at h
    · split at h
      · simp at h
      · simp only [Outcome.ite_error_eq_ok] at h
        obtain ⟨-, -, h⟩ := h
        split at h
        · simp at h
        · simp only [Outcome.bind_eq_ok, Outcome.ite_error_eq_ok] at h
          obtain ⟨expected, -, -, h⟩ := h
          split at h
          · simp at h
          · simp only [Outcome.ite_error_eq_ok, Except.ok.injEq, Action.prove.injEq] at h
            obtain ⟨-, rfl, rfl, rfl, -, rfl⟩ := h
            rfl
  | locUpdate =>
    simp only [Manager.previewControl, Manager.previewLocUpdate, Outcome.bind_eq_ok,
      Outcome.ite_error_eq_ok] at h
    obtain ⟨-, -, -, h⟩ := h
    split at h <;> simp at h
  | bindProbe =>
    simp only [Manager.previewControl, Manager.previewBindProbe] at h
    split at h
    · simp at h
    · split at h <;> simp at h
  | bindChallenge =>
    simp only [Manager.previewControl, Manager.previewBindChallenge] at h
    split at h <;> simp at h
  | candidateResult =>
    simp only [Manager.previewControl, Manager.previewCandidateResult] at h
    split at h
    · simp at h
    · split at h <;> simp at h

/-- What is known of an issued proof and of the plaintext it carries. -/
theorem Reach.proof_plaintext {w : World} {id : CandidateId} {epoch at_ : U64} {slot : Byte}
    {r : BindResponseIdentity} {plaintext : List Byte} (h : Reach C m secret ok w)
    (hp : p ∈ w.issued) (hact : p.transition.action = .prove id epoch slot at_ r)
    (htext : p.Carries plaintext) :
    Control.parse plaintext = .ok (.bindResponse id r.loc epoch slot r.expiryMs r.token) ∧
      p.binding.Valid ∧ r.binding = p.binding ∧ profileAllowsSlot m.profile slot = true := by
  obtain ⟨w₀, -, horigin⟩ := h.origin hp
  obtain ⟨call, hcall⟩ := horigin.preview
  obtain ⟨-, -, -, -, -, hvalid, happ, -⟩ := previewed_eq_some hcall
  obtain ⟨-, plaintext', control, hparse, hcontrol, hpp, hp3⟩ := previewed_control hcall
  have hsame : plaintext' = plaintext := by
    rcases htext with ⟨proof, hproof, preview, hpreview, he⟩ | ⟨proof, hproof, preview, hpreview, he⟩
    · exact (hpp proof hproof preview hpreview).symm.trans he
    · exact (hp3 proof hproof preview hpreview).symm.trans he
  rw [hact] at hcontrol happ
  obtain ⟨-, hbinding, -, -, ⟨secret', -, htoken⟩, -⟩ := happ
  refine ⟨?_, hvalid, hbinding, ?_⟩
  · rw [← hsame, hparse, previewControl_prove hcontrol]
  · simp only [token, tokenInput, Outcome.bind_eq_ok, Outcome.ite_error_eq_ok] at htoken
    obtain ⟨input, ⟨hguard, -⟩, -⟩ := htoken
    push Not at hguard
    exact hguard.2.2.1

end World

namespace State

variable {f : U64} {ms : List Proposal} {q : Proposal}

theorem cohortResult_inRange (s : State) (winner : Option CandidateId) (q : Proposal) :
    (Control.candidateResult q.candidateId q.epoch q.slot
      (s.cohortResult winner q)).resultInRange = true := by
  unfold cohortResult
  split
  · split
    · rfl
    · split <;> rfl
  · rfl

theorem settle_of_settles (hs : Settles s f ms) (profile : Byte) (scid nowMs : U64) :
    ClosedCohort s (s.settleFrozenCohort profile scid nowMs).1 f (s.outcomesAt ms nowMs) ∨
      profile = 3 ∧
        AdmittedCohort (s.settleFrozenCohort profile scid nowMs).1 (s.outcomesAt ms nowMs) := by
  rcases settle_caches s profile scid nowMs with he | ⟨f', ms', hs', hcaches⟩
  · have hfrozen : (s.settleFrozenCohort profile scid nowMs).1.frozenCohort = some (f, ms) := by
      rw [he]
      exact hs.frozen
    rcases (settle_frozen hfrozen).2 with hwaits | hfull
    · simp [hs.ready] at hwaits
    · exact absurd hs.room (not_le.mpr hfull)
  · obtain ⟨rfl, rfl⟩ := Prod.mk.inj (Option.some.inj (hs.frozen.symm.trans hs'.frozen))
    exact hcaches

/-- Every member's result is among those the settlement hands out. -/
theorem settle_emits (hs : Settles s f ms) (hq : q ∈ ms) (profile : Byte) (scid nowMs : U64) :
    (Control.candidateResult q.candidateId q.epoch q.slot
      (s.cohortResult (s.cohortWinner ms) q)).encode ∈
      (s.settleFrozenCohort profile scid nowMs).1.emittedResults := by
  have hmem : (s.cohortOutcome (s.cohortWinner ms) nowMs q).bytes ∈
      (s.outcomesAt ms nowMs).map (·.bytes) :=
    List.mem_map_of_mem (List.mem_map_of_mem hq)
  rcases settle_of_settles hs profile scid nowMs with hc | ⟨-, hc⟩
  · rw [hc.emittedResults]
    exact List.mem_append_right _ hmem
  · rw [hc.emittedResults]
    exact hmem

/-- Among members of distinct ids the entry of one is found under its key. -/
theorem find_outcome (hids : (ms.map (·.candidateId)).Nodup) (hq : q ∈ ms) {t : U64}
    (ht : nowMs < satAdd t 10000) :
    (s.outcomesAt ms t).find? (fun r => r.candidateId = q.candidateId ∧ r.epoch = q.epoch ∧
      r.slot = q.slot ∧ nowMs < r.expiryMs) = some (s.cohortOutcome (s.cohortWinner ms) t q) := by
  rw [outcomesAt, List.find?_map]
  generalize hfound : ms.find? _ = found
  cases found with
  | none =>
    have hno := List.find?_eq_none.mp hfound q hq
    simp [cohortOutcome, resultEntry, ht] at hno
  | some p =>
    have hkey := List.find?_some hfound
    rw [Function.comp_apply, decide_eq_true_eq] at hkey
    obtain rfl : p = q :=
      List.inj_on_of_nodup_map hids (List.mem_of_find?_eq_some hfound) hq hkey.1
    rfl

/-- With nothing older to answer for it, a member's result is kept from its settlement on. -/
theorem kept_of_settles (hs : Settles s f ms) (hids : (ms.map (·.candidateId)).Nodup) (hq : q ∈ ms)
    {profile : Byte} (h3 : profile ≠ 3) (scid : U64) {t : U64} (ht : nowMs < satAdd t 10000)
    (hnone : Manager.cachedResult s q.candidateId q.epoch q.slot nowMs = none) :
    Kept (s.cohortOutcome (s.cohortWinner ms) t q) nowMs
      (s.settleFrozenCohort profile scid t).1 := by
  intro _
  have hresults : (s.settleFrozenCohort profile scid t).1.results =
      s.results ++ s.outcomesAt ms t := by
    rcases settle_of_settles hs profile scid t with hc | ⟨hp, -⟩
    · exact hc.results
    · exact absurd hp h3
  unfold Manager.cachedResult at hnone ⊢
  rw [hresults, List.find?_append]
  change ((s.results.find? fun r => r.candidateId = q.candidateId ∧ r.epoch = q.epoch ∧
    r.slot = q.slot ∧ nowMs < r.expiryMs).or _) = _
  rw [hnone, Option.none_or]
  exact find_outcome hids hq ht

/-- A profile-3 settlement with a proven member admits slot one, if its owner is still there. -/
theorem admitted_of_settles (hs : Settles s f ms) (hq : q ∈ ms)
    (hproven : s.isProven q.candidateId = true)
    (howner : s.profile3Slot1Admitted = true ∨ s.profile3Owner.isSome = true) (scid t : U64) :
    (s.settleFrozenCohort 3 scid t).1.profile3Slot1Admitted = true := by
  have hwinner : s.cohortWinner ms ≠ none := by
    intro hnone
    simp [cohortWinner_eq_none.mp hnone q hq] at hproven
  obtain ⟨id, hw⟩ := Option.ne_none_iff_exists'.mp hwinner
  obtain ⟨c, hc⟩ := find_of_cohortWinner hw
  obtain rfl : c.candidateId = id := by simpa using List.find?_some hc
  have hpromotes := promotes_eq_some.mpr ⟨ms, hs, hw, hc⟩
  obtain ⟨-, -, ⟨hno, -, ha, -⟩ | ⟨_, _, _, -, -, -, -, ha, -⟩⟩ := settle_admission s scid t
  · rw [ha]
    rcases hno with hno | hadm | hnone
    · simp [hpromotes] at hno
    · exact hadm
    · exact howner.resolve_right (by simp [hnone])
  · exact ha

end State

namespace Manager

variable {plaintext : List Byte} {binding : ObservedBinding} {id : CandidateId} {loc : Loc}
  {epoch expiryMs : U64} {slot : Byte} {supplied : Bytes 32} {proof : ProtectedReplayProof}
  {live : ℕ → Bool}

/-- A response for a cached result is answered with it. -/
theorem previewProtected_cached (h3 : m.profile ≠ 3) (hopen : s.closed = false)
    (hgen : s.generation ≠ u64Max) (hvalid : binding.Valid)
    (hslot : profileAllowsSlot m.profile slot = true)
    (hparse : Control.parse plaintext = .ok (.bindResponse id loc epoch slot expiryMs supplied))
    (hcached : cachedResult s id epoch slot nowMs = some entry)
    (hresponse : entry.response = some ⟨loc, binding, expiryMs, supplied⟩)
    (htext : proof.matchesPlaintext live plaintext = true)
    (hbinding : (m.protectedReplayBinding.any fun b => b.matchesProof proof) = true) :
    m.previewProtected C s plaintext binding proof live nowMs =
      .ok ⟨s.generation, m.ownerId, .respond entry.bytes, some proof, none⟩ := by
  have hspent : m.spent s = false := by simp [spent, h3]
  have haction : m.previewControl C s binding nowMs
      (.bindResponse id loc epoch slot expiryMs supplied) = .ok (.respond entry.bytes) := by
    simp [previewControl, previewBindResponse, hcached, hresponse]
  simp [previewProtected, previewInner, h3, htext, hbinding, hvalid, hparse, Control.pathSlot,
    hslot, hopen, hgen, hspent, haction, bind, Except.bind]

theorem responseFor_respond {bytes : List Byte} {control : Control}
    {pp : Option ProtectedReplayProof} {p3 : Option Profile3ReplayProof} (hopen : s.closed = false)
    (hparse : Control.parse bytes = .ok control) :
    m.responseFor C s ⟨s.generation, m.ownerId, .respond bytes, pp, p3⟩ = .ok (some control) := by
  simp [responseFor, hopen, hparse, bind, Except.bind]

/-- Committing an answer changes nothing. -/
theorem commit_respond {bytes : List Byte} {p3 : Option Profile3ReplayProof} (h3 : m.profile ≠ 3)
    (hopen : s.closed = false)
    {commit : ProtectedReplayProof → ProtectedReplayProof × Except MobilityError Unit}
    (hok : (commit proof).2 = .ok ()) (hcommitted : (commit proof).1.committed = true) :
    m.commitProtectedReplay s ⟨s.generation, m.ownerId, .respond bytes, some proof, p3⟩ commit =
      (s, .ok ()) := by
  generalize hr : commit proof = result at hok hcommitted
  obtain ⟨proof', e⟩ := result
  simp only at hok hcommitted
  simp [commitProtectedReplay, h3, hopen, hr, hok, hcommitted, applyAfterReplay, Action.mutates,
    applyAction]

end Manager

namespace World

theorem previewed_spent {w : World} (h3 : m.profile = 3) (h : Spent w.state) (call : Call) :
    w.previewed C m call = none := by
  by_contra hne
  obtain ⟨p, hp⟩ := Option.ne_none_iff_exists'.mp hne
  obtain ⟨-, -, -, hopen, hspent, -⟩ := previewed_eq_some hp
  rcases h with hc | ha
  · simp [hopen] at hc
  · simp [Manager.spent, h3, ha] at hspent

section Runs

variable {w w' : World} {call : Call} {a : Attempt}

theorem time_le_clock (C : Crypto) (m : Manager) (w : World) (call : Call) :
    ∀ t ∈ call.time?, t ≤ (w.step C m call).clockMs := by
  intro t ht
  simp [step, Option.mem_def.mp ht]

theorem clock_le_run (hrun : Machine.Run (step C m) (fun w call => w.Owned m call ∧ w.Forward call)
    w w') : w.clockMs ≤ w'.clockMs := by
  induction hrun with
  | start he => rw [he]
  | next _ hok ih => exact ih.trans (clock_le C m hok.2)

variable (h : Reach C m secret (fun _ _ => True) w) (ho : w.Owned m call)
  (ha : a ∈ w.attempts m call)
  (hrun : Machine.Run (step C m) (fun w call => w.Owned m call ∧ w.Forward call)
    (w.step C m call) w')

include h ho ha hrun

/-- What a settlement stores is kept until a time that the clock has not passed. -/
theorem kept_run (h3 : m.profile ≠ 3) (hnow : w'.clockMs ≤ nowMs)
    (hstart : Kept entry nowMs (a.before.settleFrozenCohort m.profile m.scid a.nowMs).1) :
    Kept entry nowMs w'.state := by
  have hafter : Kept entry nowMs (w.step C m call).state := by
    refine after_attempt (step_effect h.fresh ho) ha (fun s g hk => hk.same rfl rfl) ?_
      (fun s t hk => hk.settle h3 m.scid t) ?_ hstart
    · intro s _ hopen
      simp [State.wipe] at hopen
    · intro s t frozen hcall hk
      refine hk.sweep ?_ frozen
      have ht := time_le_clock C m w call t (by rw [hcall]; rfl)
      exact (ht.trans (clock_le_run hrun)).trans hnow
  have hreach : Reach C m secret (fun _ _ => True) (w.step C m call) := .next h ⟨ho, trivial⟩
  clear h ho ha hstart
  induction hrun with
  | start he => rwa [he]
  | next hr hok ih =>
    rename_i v call'
    have hle := clock_le C m hok.2
    have hv : Reach C m secret (fun _ _ => True) v :=
      hreach.trans (hr.mono fun _ _ hok => ⟨hok.1, trivial⟩)
    refine (kept_phases h3).step (ih (hle.trans hnow)) ?_ (step_effect hv.fresh hok.1)
    exact fun t ht => (time_le_clock C m v call' t ht).trans hnow

theorem spent_run (h3 : m.profile = 3)
    (hstart : Spent (a.before.settleFrozenCohort m.profile m.scid a.nowMs).1) :
    Spent w'.state := by
  have hafter : Spent (w.step C m call).state :=
    after_attempt (step_effect h.fresh ho) ha (fun _ _ hk => hk) (fun _ _ => .inl rfl)
      (fun _ t hk => spent_settle hk h3 m.scid t) (fun _ t frozen _ hk => spent_sweep hk t frozen)
      hstart
  have hreach : Reach C m secret (fun _ _ => True) (w.step C m call) := .next h ⟨ho, trivial⟩
  clear h ho ha hstart
  induction hrun with
  | start he => rwa [he]
  | next hr hok ih =>
    rename_i v call'
    have hv : Reach C m secret (fun _ _ => True) v :=
      hreach.trans (hr.mono fun _ _ hok => ⟨hok.1, trivial⟩)
    have hphases : Phases C m (fun _ _ => True) fun _ s => Spent s := spent_phases h3
    exact hphases.step ih trivial (step_effect hv.fresh hok.1)

end Runs

end World

/-- Once a cohort has settled, and for as long as the result is cached, the response committed last for
a member is answered with the member's result again, which changes nothing. A profile-3 settlement
admits slot one instead, and no control is taken any more. -/
theorem response_retried {w w' : World} {call : Call} {a : Attempt} {f at_ : U64}
    {ms : List Proposal} {q : Proposal} {r : BindResponseIdentity} {plaintext : List Byte}
    (h : World.Reach C m secret (fun _ _ => True) w) (ho : w.Owned m call)
    (ha : a ∈ w.attempts m call) (hs : a.before.Settles f ms) (hq : q ∈ ms)
    (hproven : a.before.isProven q.candidateId = true)
    (hp : lastProof (w.step C m call).applied q.candidateId = some p)
    (hact : p.transition.action = .prove q.candidateId q.epoch q.slot at_ r)
    (htext : p.Carries plaintext)
    (hrun : Machine.Run (World.step C m) (fun w call => w.Owned m call ∧ w.Forward call)
      (w.step C m call) w') :
    let control := Control.candidateResult q.candidateId q.epoch q.slot
      (a.before.cohortResult (a.before.cohortWinner ms) q)
    let settled := (a.before.settleFrozenCohort m.profile m.scid a.nowMs).1
    control.encode ∈ settled.emittedResults ∧
    (m.profile ≠ 3 → w'.state.closed = false → w'.state.generation ≠ u64Max →
      ∀ nowMs, w'.clockMs ≤ nowMs → nowMs < satAdd a.nowMs 10000 →
      Manager.cachedResult a.before q.candidateId q.epoch q.slot nowMs = none →
      ∀ live proof, proof.matchesPlaintext live plaintext = true →
      (m.protectedReplayBinding.any fun b => b.matchesProof proof) = true →
      ∃ t, m.previewProtected C w'.state plaintext p.binding proof live nowMs = .ok t ∧
        m.responseFor C w'.state t = .ok (some control) ∧
        ∀ commit, (commit proof).2 = .ok () → (commit proof).1.committed = true →
          m.commitProtectedReplay w'.state t commit = (w'.state, .ok ())) ∧
    (m.profile = 3 → settled.profile3Slot1Admitted = true ∧ ∀ call, w'.previewed C m call = none) := by
  intro control settled
  have he := World.step_effect h.fresh ho
  have hafter : World.Reach C m secret (fun _ _ => True) (w.step C m call) := .next h ⟨ho, trivial⟩
  have hproofs : ∀ a ∈ w.attempts m call, Records a.before.proposals a.before.candidates ∧
      Responded (w.step C m call).applied a.before := by
    have hphases : World.Phases C m (fun _ _ => True) fun history s =>
        Records s.proposals s.candidates ∧ Responded history s := World.responded_phases
    exact hphases.attempt ⟨h.records, h.responded⟩ trivial he
  refine ⟨State.settle_emits hs hq _ _ _, ?_, ?_⟩
  · intro h3 hopen hgen nowMs hnow hlive hnone live proof hmatch hbinding
    have hids : (ms.map (·.candidateId)).Nodup := by
      have hphases : World.Phases C m (fun _ _ => True) fun _ s => Cohorts s := World.cohorts_phases
      exact ((hphases.attempt h.cohorts trivial he a ha).members f ms hs.frozen).1
    obtain ⟨hparse, hvalid, hr, hslot⟩ :=
      hafter.proof_plaintext (hafter.lastProof_issued hp) hact htext
    -- The result is kept from the settlement to the end of the run.
    have hstart := State.kept_of_settles hs hids hq h3 m.scid hlive hnone
    have hcached := World.kept_run h ho ha hrun h3 hnow hstart hopen
    have hresponse : (a.before.candidates.find? (·.candidateId = q.candidateId)).bind
        (·.response) = some ⟨r.loc, p.binding, r.expiryMs, r.token⟩ := by
      obtain ⟨c, hc, hid, hstate⟩ := State.isProven_iff.mp hproven
      obtain ⟨hrecords, hresponded⟩ := hproofs a ha
      obtain ⟨p', hp', at', r', hact', hcr⟩ := hresponded c hc hstate
      rw [hid, hp] at hp'
      obtain rfl := Option.some.inj hp'
      have hsame : r' = r := by
        rw [hact] at hact'
        injection hact' with _ _ _ _ hr'
        exact hr'.symm
      have hfound := hrecords.find_proven hc hstate
      rw [hid] at hfound
      rw [hfound, Option.bind_some, hcr, hsame, ← hr]
    have hcontrol : control.WellFormed := by
      obtain ⟨hid, hle, -⟩ := Control.wellFormed_of_parse hparse
      exact ⟨hid, hle, State.cohortResult_inRange a.before _ q⟩
    exact ⟨_, Manager.previewProtected_cached h3 hopen hgen hvalid hslot hparse hcached hresponse
      hmatch hbinding, Manager.responseFor_respond hopen (Control.parse_encode hcontrol),
      fun commit hok hcommitted => Manager.commit_respond h3 hopen hok hcommitted⟩
  · intro h3
    have howner : OwnerKept m a.before := by
      have hphases : World.Phases C m (fun _ _ => True) fun _ s => OwnerKept m s :=
        World.ownerKept_phases
      exact hphases.attempt h.ownerKept trivial he a ha
    have hadmitted : settled.profile3Slot1Admitted = true := by
      have := State.admitted_of_settles hs hq hproven
        (howner (World.attempt_open he a ha) h3) m.scid a.nowMs
      rwa [← h3] at this
    refine ⟨hadmitted, ?_⟩
    exact World.previewed_spent h3 (World.spent_run h ho ha hrun h3 (.inr hadmitted))

namespace LostResult

def control : Control :=
  .bindResponse (bytesOf 16 1) (bytesOf 16 1) 1 0 4000 (Scenario.tokenOn 1 1 11 4000)

def previewed : World :=
  Machine.exec (World.step .sample Scenario.manager)
    (Scenario.play [.update 1 1 1000, .probe 1 1 11 1000])
    [.previewProtected control.encode (Scenario.bindingOf 11)
      ⟨some ⟨control.encode, ⟨3, 2⟩, 0⟩, false⟩ (fun _ => true) 2500]

/-- The response as it was previewed. -/
def answer : Previewed where
  transition := ⟨2, 1, .prove (bytesOf 16 1) 1 0 2500 ⟨bytesOf 16 1, Scenario.bindingOf 11, 4000,
    Scenario.tokenOn 1 1 11 4000⟩, some ⟨some ⟨control.encode, ⟨3, 2⟩, 0⟩, false⟩, none⟩
  binding := Scenario.bindingOf 11
  nowMs := 2500

def commitAnswer : Call := .commitProtected answer fun proof => (⟨proof.preview, true⟩, .ok ())

/-- The result has been taken out and is lost. -/
def lost : World :=
  Machine.exec (World.step .sample Scenario.manager)
    (previewed.step .sample Scenario.manager commitAnswer) [.takeResults, .expire 5000]

end LostResult

theorem response_retried_lost_result :
    ∃ t, Scenario.manager.previewProtected .sample LostResult.lost.state LostResult.control.encode
        (Scenario.bindingOf 11) ⟨some ⟨LostResult.control.encode, ⟨4, 3⟩, 0⟩, false⟩
        (fun _ => true) 9000 = .ok t ∧
      Scenario.manager.responseFor .sample LostResult.lost.state t =
        .ok (some (.candidateResult (bytesOf 16 1) 1 0 1)) := by
  have hplayed : World.Reach .sample Scenario.manager Scenario.secret (fun _ _ => True)
      (Scenario.play [.update 1 1 1000, .probe 1 1 11 1000]) := Scenario.reach _ (by decide +kernel)
  have hr : World.Reach .sample Scenario.manager Scenario.secret (fun _ _ => True)
      LostResult.previewed := .next hplayed ⟨trivial, trivial⟩
  have howned : World.Owned Scenario.manager LostResult.previewed LostResult.commitAnswer :=
    Or.inl (by decide +kernel)
  have hattempts : (LostResult.previewed.attempts Scenario.manager
      LostResult.commitAnswer).length = 1 ∧
      ∀ a ∈ LostResult.previewed.attempts Scenario.manager LostResult.commitAnswer,
        a.nowMs = 2500 ∧ a.before.frozenCohort = some (1, a.before.frozenMembers) ∧
        a.before.cohortWaits a.before.frozenMembers = false ∧
        a.before.emittedResults.length + a.before.frozenMembers.length ≤ RESULT_CACHE_SLOTS ∧
        ∃ q ∈ a.before.frozenMembers, q.candidateId = bytesOf 16 1 ∧ q.epoch = 1 ∧ q.slot = 0 ∧
          a.before.isProven (bytesOf 16 1) = true ∧
          Manager.cachedResult a.before (bytesOf 16 1) 1 0 9000 = none ∧
          a.before.cohortResult (a.before.cohortWinner a.before.frozenMembers) q = 1 := by
    decide +kernel
  obtain ⟨hlen, hall⟩ := hattempts
  obtain ⟨a, ha⟩ := List.exists_mem_of_length_pos (by rw [hlen]; exact one_pos)
  obtain ⟨hnow, hfrozen, hready, hroom, q, hq, hid, hepoch, hslot, hproven, hnone, hresult⟩ :=
    hall a ha
  have hlast : lastProof (LostResult.previewed.step .sample Scenario.manager
      LostResult.commitAnswer).applied (bytesOf 16 1) = some LostResult.answer := by decide +kernel
  have hrun : Machine.Run (World.step .sample Scenario.manager)
      (fun w call => w.Owned Scenario.manager call ∧ w.Forward call)
      (LostResult.previewed.step .sample Scenario.manager LostResult.commitAnswer)
      LostResult.lost := (Machine.Run.refl _).exec _ (by decide +kernel)
  have hend : LostResult.lost.state.closed = false ∧ LostResult.lost.state.generation ≠ u64Max ∧
      LostResult.lost.clockMs ≤ 9000 := by decide +kernel
  have hretry := (response_retried hr howned ha ⟨hfrozen, hready, hroom⟩ hq
    (by rw [hid]; exact hproven) (by rw [hid]; exact hlast) (by rw [hid, hepoch, hslot]; rfl)
    (.inl ⟨_, rfl, _, rfl, rfl⟩) hrun).2.1 (by decide) hend.1 hend.2.1 9000 hend.2.2
    (by rw [hnow]; decide) (by rw [hid, hepoch, hslot]; exact hnone) (fun _ => true)
    ⟨some ⟨LostResult.control.encode, ⟨4, 3⟩, 0⟩, false⟩
    (by simp [ProtectedReplayProof.matchesPlaintext, ProtectedPreview.readable]) rfl
  obtain ⟨t, ht, hanswer, -⟩ := hretry
  rw [hid, hepoch, hslot, hresult] at hanswer
  exact ⟨t, ht, hanswer⟩

/-- One id is answered on two bindings. The record that is proven keeps the later response, and the
earlier one is refused afterwards. -/
example :
    let s := (Scenario.play [.update 1 1 1000, .probe 1 1 11 1000, .probe 1 1 12 1000,
      .response 1 1 11 4000 1100, .response 1 1 12 4000 1200, .call (.expire 4000)]).state
    s.results.map (·.bytes) = [(Control.candidateResult (bytesOf 16 1) 1 0 1).encode] ∧
      (Scenario.manager.previewProtected .sample s LostResult.control.encode (Scenario.bindingOf 11)
        ⟨some ⟨LostResult.control.encode, ⟨7, 6⟩, 0⟩, false⟩ (fun _ => true) 4100).toOption =
        none := by
  decide +kernel

/-! The same on slot one, where the settlement admits it. -/
namespace Admitting

def owner : Profile3AdmissionOwner := ⟨5, 9, ⟨0⟩, 0⟩

def manager : Manager :=
  { Scenario.manager with profile := 3, protectedReplayBinding := none }

def start : World where
  state := initialState (Scenario.config 3) (some owner)
  issued := []
  clockMs := 0
  applied := []
  installed := []
  promotions := []

theorem starts : World.Starts .sample manager Scenario.secret start := by
  refine ⟨⟨Scenario.config 3, some owner, none, 1, ?_, rfl⟩, rfl, rfl, rfl, rfl⟩
  exact if_neg (by decide +kernel)

def proofOf (control : Control) (n : ℕ) : Profile3ReplayProof :=
  ⟨some ⟨Fin.ofNat _ n, control.encode, ⟨Fin.ofNat _ (n + 1), Fin.ofNat _ n⟩, 0⟩, false⟩

def preview (w : World) (control : Control) (b : Byte) (nowMs : U64) : World :=
  w.step .sample manager
    (.previewProfile3 control.encode (Scenario.bindingOf b) (proofOf control w.issued.length) nowMs)

def commit (p : Previewed) : Call :=
  .commitProfile3 p fun proof => (⟨proof.preview, true⟩, .ok ())

/-- The world after a control has been previewed and, if that succeeds, committed. -/
def receive (w : World) (control : Control) (b : Byte) (nowMs : U64) : World :=
  match (preview w control b nowMs).issued with
  | [] => preview w control b nowMs
  | p :: _ => (preview w control b nowMs).step .sample manager (commit p)

theorem reach_receive {w : World} (h : World.Reach .sample manager Scenario.secret ok w)
    (hok : ∀ w call, ok w call) (control : Control) (b : Byte) (nowMs : U64) :
    World.Reach .sample manager Scenario.secret ok (receive w control b nowMs) := by
  have hpreview : World.Reach .sample manager Scenario.secret ok (preview w control b nowMs) :=
    .next h ⟨trivial, hok _ _⟩
  unfold receive
  split
  · exact hpreview
  · rename_i p ps he
    exact .next hpreview ⟨Or.inl (he ▸ List.mem_cons_self), hok _ _⟩

def update : Control :=
  (signLocUpdate .sample (bytesOf 32 2) manager.receiving
    ⟨bytesOf 16 1, bytesOf 16 21, bytesOf 16 1, 1, 1⟩).toOption.getD
    (.candidateResult (bytesOf 16 1) 1 1 0)

def supplied : Bytes 32 :=
  (token .sample Scenario.secret manager.receiving
    ⟨bytesOf 16 1, bytesOf 16 1, Scenario.bindingOf 11, 1, 1, 4000⟩).toOption.getD (zeros 32)

def response : Control := .bindResponse (bytesOf 16 1) (bytesOf 16 1) 1 1 4000 supplied

def probed : World :=
  receive (receive start update 0 1000)
    (.bindProbe (bytesOf 16 1) (bytesOf 16 1) 1 1 (zeros 16)) 11 1000

def previewed : World := preview probed response 11 2500

def answer : Previewed where
  transition := ⟨2, 1, .prove (bytesOf 16 1) 1 1 2500 ⟨bytesOf 16 1, Scenario.bindingOf 11, 4000,
    supplied⟩, none, some (proofOf response 2)⟩
  binding := Scenario.bindingOf 11
  nowMs := 2500

end Admitting

/-- The result of an admission goes out once: a retry is refused from then on. -/
theorem response_not_retried_once_admitted :
    ¬ ∀ (C : Crypto) (m : Manager) (secret : Bytes 32) (w : World) (call : Call) (a : Attempt)
      (f at_ : U64) (ms : List Proposal) (q : Proposal) (p : Previewed) (r : BindResponseIdentity)
      (plaintext : List Byte), m.profile = 3 → World.Reach C m secret (fun _ _ => True) w →
      w.Owned m call → a ∈ w.attempts m call → a.before.Settles f ms → q ∈ ms →
      a.before.isProven q.candidateId = true →
      lastProof (w.step C m call).applied q.candidateId = some p →
      p.transition.action = .prove q.candidateId q.epoch q.slot at_ r → p.Carries plaintext →
      ∀ nowMs, (w.step C m call).clockMs ≤ nowMs → nowMs < satAdd a.nowMs 10000 →
      ∀ proof, proof.matchesPlaintext plaintext = true →
      ∃ t, m.previewProfile3 C (w.step C m call).state plaintext p.binding proof nowMs = .ok t := by
  intro h
  have hr : World.Reach .sample Admitting.manager Scenario.secret (fun _ _ => True)
      Admitting.previewed :=
    .next (Admitting.reach_receive (Admitting.reach_receive (.start Admitting.starts)
      (fun _ _ => trivial) _ _ _) (fun _ _ => trivial) _ _ _) ⟨trivial, trivial⟩
  have howned : World.Owned Admitting.manager Admitting.previewed
      (Admitting.commit Admitting.answer) := Or.inl (by decide +kernel)
  have hattempts : (Admitting.previewed.attempts Admitting.manager
      (Admitting.commit Admitting.answer)).length = 1 ∧
      ∀ a ∈ Admitting.previewed.attempts Admitting.manager (Admitting.commit Admitting.answer),
        a.nowMs = 2500 ∧ a.before.frozenCohort = some (1, a.before.frozenMembers) ∧
        a.before.cohortWaits a.before.frozenMembers = false ∧
        a.before.emittedResults.length + a.before.frozenMembers.length ≤ RESULT_CACHE_SLOTS ∧
        ∃ q ∈ a.before.frozenMembers, q.candidateId = bytesOf 16 1 ∧ q.epoch = 1 ∧ q.slot = 1 ∧
          a.before.isProven (bytesOf 16 1) = true := by
    decide +kernel
  obtain ⟨hlen, hall⟩ := hattempts
  obtain ⟨a, ha⟩ := List.exists_mem_of_length_pos (by rw [hlen]; exact one_pos)
  obtain ⟨hnow, hfrozen, hready, hroom, q, hq, hid, hepoch, hslot, hproven⟩ := hall a ha
  have hlast : lastProof (Admitting.previewed.step .sample Admitting.manager
      (Admitting.commit Admitting.answer)).applied (bytesOf 16 1) = some Admitting.answer := by
    decide +kernel
  have hend : (Admitting.previewed.step .sample Admitting.manager
      (Admitting.commit Admitting.answer)).clockMs ≤ 9000 ∧
      (Admitting.manager.previewProfile3 .sample (Admitting.previewed.step .sample
        Admitting.manager (Admitting.commit Admitting.answer)).state Admitting.response.encode
        (Scenario.bindingOf 11) (Admitting.proofOf Admitting.response 3) 9000).toOption = none := by
    decide +kernel
  obtain ⟨t, ht⟩ := h _ _ _ _ _ a _ _ _ q _ _ _ rfl hr howned ha ⟨hfrozen, hready, hroom⟩ hq
    (by rw [hid]; exact hproven) (by rw [hid]; exact hlast) (by rw [hid, hepoch, hslot]; rfl)
    (.inr ⟨_, rfl, _, rfl, rfl⟩) 9000 hend.1 (by rw [hnow]; decide)
    (Admitting.proofOf Admitting.response 3)
    (by simp [Admitting.proofOf, Profile3ReplayProof.matchesPlaintext])
  have hnone := hend.2
  change (Admitting.manager.previewProfile3 .sample _ _ Admitting.answer.binding _ _).toOption =
    none at hnone
  rw [ht] at hnone
  cases hnone

end R8.Mobility
