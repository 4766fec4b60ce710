import R8Protocol.Mobility.Records
import R8Protocol.Mobility.Scenario

/-! Promotion soundness: an installed binding has answered the challenge that was sent to it. -/
namespace R8.Mobility

open FixedWidth Wire Session

/-- A committed probe observed on the binding issued a challenge with this expiry. -/
def ChallengedOn (history : List Previewed) (id : CandidateId) (b : ObservedBinding)
    (expiryMs : U64) : Prop :=
  ∃ q ∈ history, q.binding = b ∧ ∃ c, q.transition.action = .challenge c ∧ c.candidateId = id ∧
    c.binding = b ∧ c.expiryMs = expiryMs

/-- A response observed on the binding was committed after that challenge and previewed before its
expiry, and its token is the keyed hash over exactly this binding. -/
def AnsweredOn (C : Crypto) (m : Manager) (secret : Bytes 32) (history : List Previewed)
    (id : CandidateId) (b : ObservedBinding) : Prop :=
  ∃ p older epoch slot r, p :: older <:+ history ∧ p.binding = b ∧
    p.transition.action = .prove id epoch slot p.nowMs r ∧ r.binding = b ∧
    token C secret m.receiving ⟨id, r.loc, b, epoch, slot, r.expiryMs⟩ = .ok r.token ∧
    p.nowMs < r.expiryMs ∧ ChallengedOn older id b r.expiryMs

/-- A committed response is applied to the record it was checked against: the first one with its
id, epoch and slot was observed on the same binding. -/
def appliesToOwnRecord (m : Manager) (w : World) (call : Call) : Bool :=
  (w.committed m call).all fun p =>
    match p.transition.action with
    | .prove id epoch slot _ _ =>
      (w.state.candidates.find? (Records.proofTarget id epoch slot)).all (·.binding = p.binding)
    | _ => true

variable {C : Crypto} {m : Manager} {secret : Bytes 32} {history : List Previewed}
  {id : CandidateId} {b : ObservedBinding} {w : World} {call : Call}

theorem ChallengedOn.older {expiryMs : U64} (h : ChallengedOn history id b expiryMs)
    (p : Previewed) : ChallengedOn (p :: history) id b expiryMs := by
  obtain ⟨q, hq, hrest⟩ := h
  exact ⟨q, List.mem_cons_of_mem _ hq, hrest⟩

theorem AnsweredOn.older (h : AnsweredOn C m secret history id b) (p : Previewed) :
    AnsweredOn C m secret (p :: history) id b := by
  obtain ⟨q, older, epoch, slot, r, hsuffix, hrest⟩ := h
  exact ⟨q, older, epoch, slot, r, hsuffix.trans (List.suffix_cons p history), hrest⟩

/-- The records of a state, each with the history that accounts for it. -/
structure Accounted (C : Crypto) (m : Manager) (secret : Bytes 32) (history : List Previewed)
    (s : State) : Prop where
  records : Records s.proposals s.candidates
  key : ∀ k, s.candidateSecret = some k → k = secret
  challenged : ∀ c ∈ s.candidates, ChallengedOn history c.candidateId c.binding c.expiryMs
  answered : ∀ c ∈ s.candidates, c.state = .proven →
    AnsweredOn C m secret history c.candidateId c.binding

namespace Accounted

variable {s s' : State}

theorem older (h : Accounted C m secret history s) (p : Previewed) :
    Accounted C m secret (p :: history) s where
  records := h.records
  key := h.key
  challenged c hc := (h.challenged c hc).older p
  answered c hc hp := (h.answered c hc hp).older p

/-- Records may disappear. -/
theorem shrink (h : Accounted C m secret history s) (hr : Records s'.proposals s'.candidates)
    (hs : s'.candidates ⊆ s.candidates) (hk : s'.candidateSecret = s.candidateSecret ∨
      s'.candidateSecret = none) : Accounted C m secret history s' where
  records := hr
  key k hsome := by
    rcases hk with hk | hk
    · exact h.key k (hk ▸ hsome)
    · simp [hk] at hsome
  challenged c hc := h.challenged c (hs hc)
  answered c hc := h.answered c (hs hc)

theorem faded (h : Accounted C m secret history s) (hr : Records s'.proposals s'.candidates)
    (hf : Faded s.candidates s'.candidates) (hk : s'.candidateSecret = s.candidateSecret) :
    Accounted C m secret history s' where
  records := hr
  key := hk ▸ h.key
  challenged c hc := by
    obtain ⟨a, ha, hfa⟩ := hf.mem hc
    obtain ⟨hid, -, -, -, hb, he⟩ := hfa.key
    rw [hid, hb, he]
    exact h.challenged a ha
  answered c hc hp := h.answered c (hf.mem_proven hc hp) hp

/-- A new record is accounted for by the probe that made it. -/
theorem challenge {p : Previewed} {c : Candidate} (h : Accounted C m secret history s)
    (hact : p.transition.action = .challenge c) (hb : c.binding = p.binding)
    (hstate : c.state = .challenged) (hr : Records s.proposals (s.candidates ++ [c])) :
    Accounted C m secret (p :: history) { s with candidates := s.candidates ++ [c] } where
  records := hr
  key := h.key
  challenged a ha := by
    rcases List.mem_append.mp ha with ha | ha
    · exact (h.challenged a ha).older p
    · obtain rfl := List.mem_singleton.mp ha
      exact ⟨p, List.mem_cons_self, hb.symm, a, hact, rfl, rfl, rfl⟩
  answered a ha hp := by
    rcases List.mem_append.mp ha with ha | ha
    · exact (h.answered a ha hp).older p
    · obtain rfl := List.mem_singleton.mp ha
      simp [hstate] at hp

/-- A proof applied to its own record accounts for it. -/
theorem prove {p : Previewed} {epoch at_ : U64} {slot : Byte} {r : BindResponseIdentity}
    {cohort : Option (U64 × List Proposal)} (h : Accounted C m secret history s)
    (hact : p.transition.action = .prove id epoch slot at_ r)
    (ha : Applicable C m s p.binding p.nowMs p.transition.action)
    (hown : ∀ c, s.candidates.find? (Records.proofTarget id epoch slot) = some c →
      c.binding = p.binding) :
    Accounted C m secret (p :: history) { s with
      candidates := Lists.modifyFirst (Records.proofTarget id epoch slot) (Records.proofUpdate r)
        s.candidates
      frozenCohort := cohort } where
  records := h.records.prove id epoch slot r
  key := h.key
  challenged c hc := by
    obtain ⟨a, ha, hid, -, -, -, hb, he⟩ := Records.mem_prove_key hc
    rw [← hid, ← hb, ← he]
    exact (h.challenged a ha).older p
  answered c hc hproven := by
    rcases Records.mem_prove hc with hc | ⟨a, hfind, rfl⟩
    · exact (h.answered c hc hproven).older p
    · have htarget := List.find?_some hfind
      simp only [Records.proofTarget, decide_eq_true_eq] at htarget
      rw [hact] at ha
      obtain ⟨rfl, hrb, -, ⟨c₀, hc₀, -, hlive, hexp⟩, ⟨k, hk, htoken⟩, -⟩ := ha
      have hmem := List.mem_of_find?_eq_some hc₀
      have hkey := List.find?_some hc₀
      simp only [decide_eq_true_eq] at hkey
      have hch := h.challenged c₀ hmem
      have hab : a.binding = p.binding := hown a hfind
      rw [h.key k hk] at htoken
      simp only [Records.proofUpdate, htarget.1, hab]
      refine ⟨p, history, epoch, slot, r, List.suffix_rfl, rfl, hact, hrb, htoken, ?_, ?_⟩
      · rwa [hexp]
      · rw [hexp]
        rwa [hkey.1, hkey.2.2.2.2] at hch

/-- What a settlement installs is a proven record. -/
theorem promotes {epoch : U64} {c : Candidate} (h : Accounted C m secret history s)
    (hp : s.promotes = some (epoch, c)) :
    AnsweredOn C m secret history c.candidateId c.binding := by
  obtain ⟨members, -, hw, hfind⟩ := State.promotes_eq_some.mp hp
  obtain ⟨a, ha, hid, hproven⟩ := State.isProven_iff.mp (State.cohortWinner_eq_some hw).2.1
  have hfirst := h.records.find_proven ha hproven
  rw [hid, hfind] at hfirst
  obtain rfl := Option.some.inj hfirst
  exact h.answered c ha hproven

theorem settle (h : Accounted C m secret history s) (profile : Byte) (scid nowMs : U64) :
    Accounted C m secret history (s.settleFrozenCohort profile scid nowMs).1 := by
  have hr := World.records_settle h.records profile scid nowMs
  rcases State.settle_caches s profile scid nowMs with he | ⟨epoch, members, -, he | ⟨-, he⟩⟩
  · rwa [he]
  · refine h.shrink hr ?_ (.inl he.candidateSecret)
    rw [he.candidates]
    exact List.filter_subset_self _
  · refine h.shrink hr ?_ (.inr he.candidateSecret)
    rw [he.candidates]
    exact List.nil_subset _

end Accounted

namespace World

theorem accounted_start (hs : Starts C m secret w) : Accounted C m secret [] w.state := by
  obtain ⟨⟨c, owner, rb, ownerId, hnew, hk⟩, -⟩ := hs
  rw [(newInner_eq_ok hnew).1]
  exact ⟨.nil, by simp [initialState, hk], by simp [initialState], by simp [initialState]⟩

theorem accounted_phases :
    Phases C m (fun w call => appliesToOwnRecord m w call) (Accounted C m secret) where
  older p a s _ h := h.older p
  quiet a s s' hq h := by
    refine h.shrink ?_ ?_ (.inl hq.candidateSecret)
    · rw [hq.proposals, hq.candidates]
      exact h.records
    · rw [hq.candidates]
      exact List.Subset.refl _
  wipe a s h := h.shrink .nil (List.nil_subset _) (.inr rfl)
  apply w call p _ _ _ hn _ _ _ ha h := by
    have hr := records_apply ha hn h.records
    cases hact : p.transition.action with
    | cacheProposal q tokens refillMs =>
      rw [hact] at hr
      exact (h.older p).shrink hr (List.Subset.refl _) (.inl rfl)
    | challenge c =>
      rw [hact] at ha hr
      exact h.challenge hact ha.1 ha.2.2.1 hr
    | commitLocal epoch loc b promote r =>
      rw [hact] at hr
      obtain ⟨-, -, -, ⟨-, hc, -, -, hk⟩ | ⟨-, -, hc, -, -, hk⟩⟩ :=
        commitLocal_lists m w.state epoch loc b promote r
      · refine (h.older p).shrink hr ?_ (.inl hk)
        simp only [Manager.applyAction, hc]
        exact List.Subset.refl _
      · refine (h.older p).shrink hr ?_ (.inr hk)
        simp only [Manager.applyAction, hc]
        exact List.nil_subset _
    | prove id epoch slot at_ r => exact absurd (hn w.state) (by simp [hact, Action.attempts])
    | existingChallenge c => exact h.older p
    | respond c => exact h.older p
    | none => exact h.older p
  prove w call p id epoch slot at_ r hok hcom hact _ _ _ ha h := by
    obtain ⟨cohort, he, -⟩ := markProven_eq w.state id epoch slot r
    rw [he]
    refine h.prove hact ha ?_
    intro c hc
    simpa [appliesToOwnRecord, hcom, hact, hc] using hok
  mark w nowMs _ _ h := by
    obtain ⟨cs, ts, hf, he⟩ := State.expireMark_eq w.state nowMs
    rw [he]
    exact h.faded (h.records.faded hf) hf rfl
  settle w call a _ _ h := h.settle m.profile m.scid a.nowMs
  sweep w nowMs _ _ _ h := by
    obtain ⟨rs, ts, he, -⟩ := State.expireSweep_eq
      ((w.state.expireMark nowMs).settleFrozenCohort m.profile m.scid nowMs).1 nowMs
      w.state.frozenMembers
    rw [State.expireBeforeSettle, he]
    refine h.shrink ((h.records.proposals List.filter_sublist).candidates _) ?_ (.inl rfl)
    exact List.filter_subset_self _

theorem answered_step (C : Crypto) (w : World) (call : Call)
    (h : AnsweredOn C m secret w.applied id b) :
    AnsweredOn C m secret (w.step C m call).applied id b := by
  cases hcom : w.committed m call with
  | none => simpa [step, hcom] using h
  | some p => simpa [step, hcom] using h.older p

theorem installed_answered
    (h : Reach C m secret (fun w call => appliesToOwnRecord m w call) w) :
    ∀ i ∈ w.installed, AnsweredOn C m secret w.applied i.candidateId i.binding := by
  have hall : Accounted C m secret w.applied w.state ∧
      ∀ i ∈ w.installed, AnsweredOn C m secret w.applied i.candidateId i.binding := by
    apply Reach.induct (I := fun w => Accounted C m secret w.applied w.state ∧
      ∀ i ∈ w.installed, AnsweredOn C m secret w.applied i.candidateId i.binding) h
    · intro w hs
      refine ⟨?_, by simp [hs.2.2.2.1]⟩
      rw [hs.2.2.1]
      exact accounted_start hs
    · intro w call _ hw hok he
      refine ⟨accounted_phases.step hw.1 hok he, ?_⟩
      intro i hi
      rcases mem_installed hi with hi | ⟨a, ha, hinst⟩
      · exact answered_step C w call (hw.2 i hi)
      · obtain ⟨c, hp, hid, hb, -⟩ := install_eq_some hinst
        rw [hid, hb]
        exact (accounted_phases.attempt hw.1 hok he a ha).promotes hp
  exact hall.2

/-- The log of installed bindings is exactly what settlements write. -/
theorem install_writes (m : Manager) (a : Attempt) :
    let s' := (a.before.settleFrozenCohort m.profile m.scid a.nowMs).1
    (a.install m = none → s'.profile3Admission = a.before.profile3Admission ∧
      s'.currentBinding = a.before.currentBinding) ∧
    ∀ i, a.install m = some i → (m.profile ≠ 3 → s'.currentBinding = i.binding) ∧
      (m.profile = 3 → s'.profile3Admission.map (·.binding) = some i.binding) := by
  intro s'
  by_cases h3 : m.profile = 3
  · have hw := State.settle_admission a.before m.scid a.nowMs
    simp only [s', h3]
    obtain ⟨hcur, -, ⟨hnone, hadm, -⟩ | ⟨epoch, c, owner, hp, hna, howner, hadm, -⟩⟩ := hw
    · refine ⟨fun _ => ⟨hadm, hcur⟩, ?_⟩
      intro i hi
      have hno : a.install m = none := by
        cases hp : a.before.promotes with
        | none => simp [Attempt.install, hp]
        | some winner =>
          simp only [hp, reduceCtorEq, false_or] at hnone
          simp [Attempt.install, hp, h3, hnone]
      simp [hno] at hi
    · simp [Attempt.install, h3, hp, hna, howner, hadm]
  · obtain ⟨hadm, ⟨hp, hcur, -⟩ | ⟨epoch, c, hp, hcur, -⟩⟩ :=
      State.settle_bindings a.before m.scid a.nowMs h3
    · simp [Attempt.install, hp, s', hadm, hcur]
    · simp [Attempt.install, h3, hp, s', hcur]

end World

/-- In every run that applies responses to their own records, each binding a settlement installs,
current or in a minted admission, has answered its own challenge in time. -/
theorem promotion_sound
    (h : World.Reach C m secret (fun w call => appliesToOwnRecord m w call) w) :
    (∀ i ∈ w.installed, AnsweredOn C m secret w.applied i.candidateId i.binding) ∧
    ∀ call, ∀ a ∈ w.attempts m call,
      let s' := (a.before.settleFrozenCohort m.profile m.scid a.nowMs).1
      (a.install m = none → s'.profile3Admission = a.before.profile3Admission ∧
        s'.currentBinding = a.before.currentBinding) ∧
      ∀ i, a.install m = some i → i ∈ (w.step C m call).installed ∧
        (m.profile ≠ 3 → s'.currentBinding = i.binding) ∧
        (m.profile = 3 → s'.profile3Admission.map (·.binding) = some i.binding) := by
  refine ⟨World.installed_answered h, ?_⟩
  intro call a ha s'
  obtain ⟨hnone, hsome⟩ := World.install_writes m a
  refine ⟨hnone, ?_⟩
  intro i hi
  refine ⟨?_, hsome i hi⟩
  exact List.mem_append_left _ (List.mem_reverse.mpr (List.mem_filterMap.mpr ⟨a, ha, hi⟩))

/-- One probe, answered on the binding it came from. -/
theorem promotion_sound_single_probe :
    let w := Scenario.play [.update 1 1 1000, .probe 1 1 11 1000, .response 1 1 11 4000 2500]
    w.installed.map (·.binding) = [Scenario.bindingOf 11] ∧
      AnsweredOn .sample Scenario.manager Scenario.secret w.applied (bytesOf 16 1)
        (Scenario.bindingOf 11) := by
  intro w
  have hinst : w.installed = [⟨1, bytesOf 16 1, Scenario.bindingOf 11, 2500⟩] := by
    decide +kernel
  have hr : World.Reach .sample Scenario.manager Scenario.secret
      (fun w call => appliesToOwnRecord Scenario.manager w call) w :=
    Scenario.reach _ (by decide +kernel)
  refine ⟨by simp [hinst], ?_⟩
  exact (promotion_sound hr).1 ⟨1, bytesOf 16 1, Scenario.bindingOf 11, 2500⟩
    (by simp [hinst])

/-- One id is probed from two bindings, and only the second of them ever answers. -/
def secondBindingAnswers : List Scenario.Input :=
  [.update 1 1 1000, .probe 1 1 11 1000, .probe 1 1 12 2000, .response 1 1 12 5000 2500,
    .call (.expire 5000)]

/-- When the second challenge expires, the first binding is installed. -/
theorem promotion_unsound_second_binding :
    ¬ ∀ (C : Crypto) (m : Manager) (secret : Bytes 32) (w : World),
      World.Reach C m secret (fun _ _ => True) w →
      ∀ i ∈ w.installed, AnsweredOn C m secret w.applied i.candidateId i.binding := by
  intro h
  have hr : World.Reach .sample Scenario.manager Scenario.secret (fun _ _ => True)
      (Scenario.play secondBindingAnswers) := Scenario.reach _ (by decide +kernel)
  obtain ⟨p, older, epoch, slot, r, hsuffix, hb, hact, -⟩ :=
    h _ _ _ _ hr ⟨1, bytesOf 16 1, Scenario.bindingOf 11, 5000⟩ (by decide +kernel)
  have hprobe : ∀ p ∈ (Scenario.play secondBindingAnswers).applied,
      p.binding = Scenario.bindingOf 11 →
      p.transition.action = .challenge ⟨bytesOf 16 1, bytesOf 16 1, 1, 0,
        Scenario.bindingOf 11, 4000, none, .challenged⟩ := by
    decide +kernel
  rw [hprobe p (hsuffix.subset List.mem_cons_self) hb] at hact
  simp at hact

end R8.Mobility
