import R8Protocol.Mobility.Receive

/-! The slot-one authority of a profile-3 manager: an owner that turns into one admission. -/
namespace R8.Mobility

open FixedWidth Wire Session

/-- The three fields that hold the authority. -/
structure Authority where
  admitted : Bool
  owner : Option Profile3AdmissionOwner
  admission : Option Profile3Admission

def State.authority (s : State) : Authority :=
  ⟨s.profile3Slot1Admitted, s.profile3Owner, s.profile3Admission⟩

namespace Authority

variable {scid : U64} {K : Profile3Admission → Prop} {x y z : Authority}

/-- The authority is kept or given up, or its owner is spent on an admission for the reason `K`. -/
inductive Step (scid : U64) (K : Profile3Admission → Prop) (x y : Authority) : Prop
  | keep (ha : y.admitted = x.admitted) (ho : y.owner = x.owner ∨ y.owner = none)
      (hd : y.admission = x.admission ∨ y.admission = none)
  | mint (a : Profile3Admission) (hx : x.admitted = false) (ho : x.owner = some a.owner)
      (hs : a.scid = scid) (hk : K a) (hy : y.admitted = true) (hspent : y.owner = none)
      (hd : y.admission = some a ∨ y.admission = none)

theorem Step.refl (x : Authority) : Step scid K x x := .keep rfl (.inl rfl) (.inl rfl)

theorem Step.of_eq (h : y = x) : Step scid K x y := by
  subst h
  exact .refl y

theorem none_or {α : Type*} {a b c : Option α} (h : b = a ∨ b = none) (h' : c = b ∨ c = none) :
    c = a ∨ c = none := by
  rcases h' with rfl | rfl
  · exact h
  · exact .inr rfl

theorem Step.trans (h : Step scid K x y) (h' : Step scid K y z) : Step scid K x z := by
  cases h with
  | keep ha ho hd =>
    cases h' with
    | keep ha' ho' hd' => exact .keep (ha'.trans ha) (none_or ho ho') (none_or hd hd')
    | mint a hx ho' hs hk hy hspent hd' =>
      refine .mint a (ha.symm.trans hx) ?_ hs hk hy hspent hd'
      rcases ho with ho | ho
      · exact ho.symm.trans ho'
      · simp [ho] at ho'
  | mint a hx ho hs hk hy hspent hd =>
    cases h' with
    | keep ha' ho' hd' =>
      refine .mint a hx ho hs hk (ha'.trans hy) ?_ ?_
      · rw [hspent, or_self] at ho'
        exact ho'
      · rcases hd' with hd' | hd'
        · rw [hd']
          exact hd
        · exact .inr hd'
    | mint b hx' => simp [hy] at hx'

theorem Step.mono {K' : Profile3Admission → Prop} (hK : ∀ a, K a → K' a) (h : Step scid K x y) :
    Step scid K' x y := by
  cases h with
  | keep ha ho hd => exact .keep ha ho hd
  | mint a hx ho hs hk hy hspent hd => exact .mint a hx ho hs (hK a hk) hy hspent hd

end Authority

namespace State

variable {s : State}

/-- A settlement of profile 3 mints for its winner. -/
theorem settle_authority (s : State) (scid nowMs : U64) :
    Authority.Step scid
      (fun a => ∃ c, s.promotes = some (a.epoch, c) ∧ a.binding = c.binding ∧ a.peerLoc = c.loc)
      s.authority (s.settleFrozenCohort 3 scid nowMs).1.authority := by
  obtain ⟨-, -, ⟨-, hd, ha, ho⟩ | ⟨epoch, c, owner, hp, ha, ho, hd, ha', ho'⟩⟩ :=
    settle_admission s scid nowMs
  · exact .keep ha (.inl ho) (.inl hd)
  · exact .mint ⟨owner, scid, owner.policyId, c.binding, s.localLoc, c.loc, epoch⟩ ha ho rfl
      ⟨c, hp, rfl, rfl⟩ ha' ho' (.inl hd)

theorem expireMark_authority (s : State) (nowMs : U64) :
    (s.expireMark nowMs).authority = s.authority := by
  obtain ⟨cs, ts, -, h⟩ := expireMark_eq s nowMs
  rw [h]
  rfl

theorem expireSweep_authority (s : State) (nowMs : U64) (frozen : List Proposal) :
    (s.expireSweep nowMs frozen).authority = s.authority := by
  obtain ⟨rs, ts, h, -⟩ := expireSweep_eq s nowMs frozen
  rw [h]
  rfl

end State

namespace World

variable {C : Crypto} {m : Manager} {w : World} {call : Call}

/-- Why a call may mint: it commits a settlement with a winner, or a result that promotes. -/
def Mints (m : Manager) (w : World) (call : Call) (a : Profile3Admission) : Prop :=
  (∃ t ∈ w.attempts m call, ∃ c, t.before.promotes = some (a.epoch, c) ∧ a.binding = c.binding ∧
    a.peerLoc = c.loc) ∨
  ∃ p result, w.committed m call = some p ∧
    p.transition.action = .commitLocal a.epoch a.localLoc a.binding true result

theorem commitLocal_authority {epoch : U64} {loc : Loc} {binding : ObservedBinding} {promote : Bool}
    {result : ResultEntry} (h3 : m.profile = 3) (s : State) :
    Authority.Step m.scid (fun a => promote = true ∧ a.epoch = epoch ∧ a.localLoc = loc ∧
      a.binding = binding) s.authority
      (m.commitLocal s epoch loc binding promote result).authority := by
  cases promote with
  | false => exact .refl _
  | true =>
    cases ha : s.profile3Slot1Admitted with
    | true =>
      refine .of_eq ?_
      simp [Manager.commitLocal, Manager.promoteLocal, h3, State.admitProfile3, ha,
        Manager.clearProfile3, State.authority]
    | false =>
      cases ho : s.profile3Owner with
      | none =>
        refine .of_eq ?_
        simp [Manager.commitLocal, Manager.promoteLocal, h3, State.admitProfile3, ha, ho,
          State.authority]
      | some owner =>
        refine .mint ⟨owner, m.scid, owner.policyId, binding, loc, s.peerLoc, epoch⟩ ha ho rfl
          ⟨rfl, rfl, rfl, rfl⟩ ?_ ?_ (.inl ?_) <;>
        simp [Manager.commitLocal, Manager.promoteLocal, h3, State.admitProfile3, ha, ho,
          Manager.clearProfile3, State.authority]

theorem expire_authority (h3 : m.profile = 3) (w : World) (nowMs : U64) :
    Authority.Step m.scid (Mints m w (.expire nowMs)) w.state.authority
      (w.state.expire m nowMs).authority := by
  by_cases hc : w.state.closed = true
  · refine .of_eq ?_
    simp [State.expire, hc]
  · have hc : w.state.closed = false := by simpa using hc
    have hattempts : w.attempts m (.expire nowMs) =
        [⟨w.state.expireMark nowMs, nowMs⟩, ⟨w.state.expireBeforeSettle m nowMs, nowMs⟩] := by
      simp [attempts, State.expireAttempts, hc]
    have hsettled : Authority.Step m.scid (Mints m w (.expire nowMs)) w.state.authority
        (w.state.expireSettled m nowMs).authority := by
      have h₁ := State.settle_authority (w.state.expireMark nowMs) m.scid nowMs
      have h₂ := State.settle_authority (w.state.expireBeforeSettle m nowMs) m.scid nowMs
      rw [State.expireMark_authority, ← h3] at h₁
      rw [State.expireBeforeSettle, State.expireSweep_authority, ← State.expireBeforeSettle,
        ← h3] at h₂
      refine (h₁.mono ?_).trans (h₂.mono ?_)
      · intro a ha
        exact .inl ⟨⟨_, nowMs⟩, by rw [hattempts]; exact List.mem_cons_self, ha⟩
      · intro a ha
        exact .inl ⟨⟨_, nowMs⟩,
          by rw [hattempts]; exact List.mem_cons_of_mem _ List.mem_cons_self, ha⟩
    rcases State.expire_cases (m := m) w.state nowMs hc with ⟨ts, he⟩ | ⟨g, -, he⟩ | he
    · rw [he]
      exact .refl _
    · rw [he]
      exact hsettled
    · rw [he]
      exact hsettled.trans (.keep rfl (.inr rfl) (.inr rfl))

theorem commitProfile3_authority (h3 : m.profile = 3) (w : World) (p : Previewed)
    (commit : Profile3ReplayProof → Profile3ReplayProof × Except MobilityError Unit) :
    Authority.Step m.scid (Mints m w (.commitProfile3 p commit)) w.state.authority
      (m.commitProfile3 w.state p.transition commit).1.authority := by
  rcases commitProfile3_effect m w.state p.transition commit with ⟨hsame, -⟩ |
    ⟨-, -, -, -, g, -, hr⟩
  · rw [hsame]
    exact .refl _
  · have hcom : w.committed m (.commitProfile3 p commit) = some p := by simp [committed, hr]
    rw [hr]
    change Authority.Step _ _ _ (m.applyAction w.state p.transition.action).authority
    cases hact : p.transition.action with
    | commitLocal epoch loc binding promote result =>
      refine (commitLocal_authority h3 w.state).mono ?_
      rintro a ⟨rfl, rfl, rfl, rfl⟩
      exact .inr ⟨p, result, hcom, hact⟩
    | prove id epoch slot at_ r =>
      have hmark : (Manager.markProven w.state id epoch slot r).authority = w.state.authority := by
        unfold Manager.markProven
        dsimp only
        split <;> rfl
      have h := State.settle_authority (Manager.markProven w.state id epoch slot r) m.scid at_
      rw [hmark, ← h3] at h
      refine h.mono ?_
      intro a ha
      refine .inl ⟨⟨Manager.markProven w.state id epoch slot r, at_⟩, ?_, ha⟩
      rw [attempts_of_committed (by simp) hcom, hact, Action.attempts]
      exact List.mem_cons_self
    | _ => exact .refl _

/-- What any call does to the authority. -/
theorem step_authority (h3 : m.profile = 3) (w : World) (call : Call) :
    Authority.Step m.scid (Mints m w call) w.state.authority (w.step C m call).state.authority := by
  cases call with
  | proposeLocal id newLoc epoch slot nowMs =>
    refine .of_eq ?_
    simp only [step, next, Manager.proposeLocal]
    split
    · rfl
    · split
      · split <;> rfl
      · split
        · rfl
        · split
          · rfl
          · split <;> rfl
  | makeProbe id carrier probeNonce nowMs =>
    refine .of_eq ?_
    simp only [step, next, Manager.makeProbe]
    split
    · rfl
    · split
      · rfl
      · split
        · rfl
        · split
          · rfl
          · split
            · split <;> rfl
            · rfl
  | previewProtected => exact .refl _
  | previewProfile3 => exact .refl _
  | commitProtected p commit =>
    refine .of_eq ?_
    simp [step, next, Manager.commitProtectedReplay, h3]
  | commitProfile3 p commit => exact commitProfile3_authority h3 w p commit
  | expire nowMs => exact expire_authority h3 w nowMs
  | takeResults => exact .refl _
  | takeProfile3Admissions =>
    simp only [step, next, State.takeProfile3Admissions]
    split
    · exact .refl _
    · exact .keep rfl (.inl rfl) (.inr rfl)
  | close => exact .keep rfl (.inr rfl) (.inr rfl)

/-- A settlement of a frozen cohort with a member that is Proven. -/
structure SettlesProven (s : State) (a : Profile3Admission) : Prop where
  settles : ∃ members, State.Settles s a.epoch members ∧
    ∃ p ∈ members, ∃ c ∈ s.candidates, c.candidateId = p.candidateId ∧ c.state = .proven
  record : ∃ c ∈ s.candidates, a.binding = c.binding ∧ a.peerLoc = c.loc

/-- A CANDIDATE_RESULT with result 1, previewed for this manager in the generation it is committed
in. -/
structure PromotesLocal (C : Crypto) (m : Manager) (w : World) (p : Previewed)
    (a : Profile3Admission) : Prop where
  issued : p ∈ w.issued
  action : ∃ result, p.transition.action = .commitLocal a.epoch a.localLoc a.binding true result
  control : ∃ w₀ plaintext id slot, Origin C m p w₀ w ∧
    Control.parse plaintext = .ok (.candidateResult id a.epoch slot 1) ∧
    m.previewControl C w₀.state p.binding p.nowMs (.candidateResult id a.epoch slot 1) =
      .ok p.transition.action

/-- The two places that mint. -/
theorem Mints.cause {secret : Bytes 32} {ok : World → Call → Prop} {a : Profile3Admission}
    (h : Reach C m secret ok w) (ho : w.Owned m call) (hm : Mints m w call a) :
    (∃ t ∈ w.attempts m call, SettlesProven t.before a) ∨
    ∃ p, w.committed m call = some p ∧ PromotesLocal C m w p a := by
  rcases hm with ⟨t, ht, c, hp, hb, hl⟩ | ⟨p, result, hcom, hact⟩
  · refine .inl ⟨t, ht, ?_, c, State.promotes_mem hp, hb, hl⟩
    obtain ⟨members, hsettles, hw, -⟩ := State.promotes_eq_some.mp hp
    obtain ⟨⟨p, hpm, hpid⟩, hproven, -⟩ := State.cohortWinner_eq_some hw
    obtain ⟨d, hd, hdid, hstate⟩ := State.isProven_iff.mp hproven
    exact ⟨members, hsettles, p, hpm, d, hd, hdid.trans hpid.symm, hstate⟩
  · refine .inr ⟨p, hcom, ?_⟩
    have hissued := committed_mem ho hcom
    obtain ⟨w₀, -, horigin⟩ := h.origin hissued
    obtain ⟨call₀, hcall⟩ := horigin.preview
    obtain ⟨-, plaintext, control, hparse, hcontrol, -⟩ := previewed_control hcall
    rw [hact] at hcontrol
    obtain ⟨-, id, slot, result', rfl, htrue⟩ := previewControl_commitLocal hcontrol
    obtain rfl : result' = 1 := by simpa using htrue.symm
    exact ⟨hissued, ⟨result, hact⟩, w₀, plaintext, id, slot, horigin, hparse, hact ▸ hcontrol⟩

end World

end R8.Mobility
