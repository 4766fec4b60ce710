import R8Protocol.Lib.Machine
import R8Protocol.Lib.Outcome
import R8Protocol.Mobility.Expiry

/-! Runs of one candidate manager: every public call in any order, beside a history of what was
committed and installed. -/
namespace R8.Mobility

open FixedWidth Wire Session

/-- A transition handed out by a preview, with the binding and the time it was previewed under. -/
structure Previewed where
  transition : Transition
  binding : ObservedBinding
  nowMs : U64
  deriving DecidableEq, Repr

/-- A binding written by a settlement on behalf of a candidate. -/
structure Install where
  epoch : U64
  candidateId : CandidateId
  binding : ObservedBinding
  nowMs : U64
  deriving DecidableEq, Repr

/-- A change of the current binding: what it replaces, the grace binding held at that moment, what
it installs and the time it is evaluated at. -/
structure Promotion where
  replaced : ObservedBinding
  grace : Option (ObservedBinding × U64)
  binding : ObservedBinding
  nowMs : U64
  deriving DecidableEq, Repr

/-- A call of `settle_frozen_cohort`: the state it starts in and the time it is given. -/
structure Attempt where
  before : State
  nowMs : U64

/-- The last three fields are ghosts, newest first. -/
structure World where
  state : State
  issued : List Previewed
  clockMs : U64
  applied : List Previewed
  installed : List Install
  promotions : List Promotion

inductive Call
  | proposeLocal (candidateId : CandidateId) (newLoc : Loc) (epoch : U64) (pathSlot : Byte)
      (nowMs : U64)
  | makeProbe (candidateId : CandidateId) (carrier : ObservedBinding) (probeNonce : Bytes 16)
      (nowMs : U64)
  | previewProtected (plaintext : List Byte) (binding : ObservedBinding)
      (proof : ProtectedReplayProof) (live : ℕ → Bool) (nowMs : U64)
  | previewProfile3 (plaintext : List Byte) (binding : ObservedBinding)
      (proof : Profile3ReplayProof) (nowMs : U64)
  | commitProtected (p : Previewed)
      (commit : ProtectedReplayProof → ProtectedReplayProof × Except MobilityError Unit)
  | commitProfile3 (p : Previewed)
      (commit : Profile3ReplayProof → Profile3ReplayProof × Except MobilityError Unit)
  | expire (nowMs : U64)
  | takeResults
  | takeProfile3Admissions
  | close

def Call.time? : Call → Option U64
  | .proposeLocal _ _ _ _ nowMs | .makeProbe _ _ _ nowMs | .previewProtected _ _ _ _ nowMs
  | .previewProfile3 _ _ _ nowMs | .expire nowMs => some nowMs
  | _ => none

/-- What an attempt installs: the winner's binding, and for profile 3 only while the owner is
still there to mint an admission. -/
def Attempt.install (m : Manager) (a : Attempt) : Option Install :=
  match a.before.promotes with
  | none => none
  | some (epoch, c) =>
    if m.profile = 3 ∧ (a.before.profile3Slot1Admitted ∨ a.before.profile3Owner = none) then none
    else some ⟨epoch, c.candidateId, c.binding, a.nowMs⟩

def Attempt.promotion (m : Manager) (a : Attempt) : Option Promotion :=
  if m.profile = 3 then none
  else (a.install m).map fun i => ⟨a.before.currentBinding, a.before.oldBinding, i.binding, a.nowMs⟩

/-- A committed result that promotes the local side. -/
def Previewed.promotion (m : Manager) (s : State) (p : Previewed) : Option Promotion :=
  match p.transition.action with
  | .commitLocal _ _ binding true _ =>
    if m.profile = 3 then none else some ⟨s.currentBinding, s.oldBinding, binding, p.nowMs⟩
  | _ => none

def Action.attempts (s : State) : Action → List Attempt
  | .prove id epoch slot nowMs response => [⟨Manager.markProven s id epoch slot response, nowMs⟩]
  | _ => []

def State.expireAttempts (m : Manager) (s : State) (nowMs : U64) : List Attempt :=
  if s.closed then []
  else [⟨s.expireMark nowMs, nowMs⟩, ⟨s.expireBeforeSettle m nowMs, nowMs⟩]

namespace World

variable (C : Crypto) (m : Manager)

def next (w : World) : Call → State
  | .proposeLocal id newLoc epoch slot nowMs =>
    (m.proposeLocal C w.state id newLoc epoch slot nowMs).1
  | .makeProbe id carrier probeNonce nowMs => (m.makeProbe w.state id carrier probeNonce nowMs).1
  | .previewProtected .. | .previewProfile3 .. => w.state
  | .commitProtected p commit => (m.commitProtectedReplay w.state p.transition commit).1
  | .commitProfile3 p commit => (m.commitProfile3 w.state p.transition commit).1
  | .expire nowMs => w.state.expire m nowMs
  | .takeResults => w.state.takeResults.1
  | .takeProfile3Admissions => w.state.takeProfile3Admissions.1
  | .close => w.state.close

/-- The transition a call hands out. -/
def previewed (w : World) : Call → Option Previewed
  | .previewProtected plaintext binding proof live nowMs =>
    (m.previewProtected C w.state plaintext binding proof live nowMs).toOption.map fun t =>
      ⟨t, binding, nowMs⟩
  | .previewProfile3 plaintext binding proof nowMs =>
    (m.previewProfile3 C w.state plaintext binding proof nowMs).toOption.map fun t =>
      ⟨t, binding, nowMs⟩
  | _ => none

/-- The transition a call commits. -/
def committed (w : World) : Call → Option Previewed
  | .commitProtected p commit =>
    if (m.commitProtectedReplay w.state p.transition commit).2 = .ok () then some p else none
  | .commitProfile3 p commit =>
    if (m.commitProfile3 w.state p.transition commit).2 = .ok () then some p else none
  | _ => none

/-- The settlements a call attempts, in order. -/
def attempts (w : World) (call : Call) : List Attempt :=
  match call with
  | .expire nowMs => w.state.expireAttempts m nowMs
  | call =>
    match w.committed m call with
    | none => []
    | some p => p.transition.action.attempts w.state

/-- The changes of the current binding a call makes, in order. -/
def promotionsOf (w : World) (call : Call) : List Promotion :=
  ((w.committed m call).bind (Previewed.promotion m w.state)).toList ++
    (w.attempts m call).filterMap (Attempt.promotion m)

def step (w : World) (call : Call) : World where
  state := w.next C m call
  issued := (w.previewed C m call).toList ++ w.issued
  clockMs := call.time?.getD w.clockMs
  applied := (w.committed m call).toList ++ w.applied
  installed := ((w.attempts m call).filterMap (Attempt.install m)).reverse ++ w.installed
  promotions := (w.promotionsOf m call).reverse ++ w.promotions

/-- A new manager with nothing outstanding. -/
def Starts (secret : Bytes 32) (w : World) : Prop :=
  (∃ c owner binding ownerId, newInner C c owner binding ownerId = .ok (m, w.state) ∧
    c.candidateSecret = secret) ∧ w.issued = [] ∧ w.applied = [] ∧ w.installed = [] ∧
  w.promotions = []

/-- Only transitions handed out by this manager, or ones of another manager, can be committed. -/
def Owned (w : World) : Call → Prop
  | .commitProtected p _ | .commitProfile3 p _ => p ∈ w.issued ∨ p.transition.ownerId ≠ m.ownerId
  | _ => True

/-- The clock does not run backwards. -/
def Forward (w : World) (call : Call) : Prop := ∀ nowMs ∈ call.time?, w.clockMs ≤ nowMs

instance (w : World) (call : Call) : Decidable (w.Forward call) :=
  -- Not the instance that enumerates every time.
  Option.decidableForallMem call.time?

end World

/-- What a preview has established of the state its action is about to be applied to. -/
def Applicable (C : Crypto) (m : Manager) (s : State) (binding : ObservedBinding) (nowMs : U64) :
    Action → Prop
  | .cacheProposal p _ _ =>
    s.peerEpoch < p.epoch ∧ (∀ q ∈ s.proposals, q.candidateId ≠ p.candidateId) ∧
      (∀ c ∈ s.candidates, c.candidateId ≠ p.candidateId) ∧
      (∀ r ∈ s.results, r.candidateId ≠ p.candidateId) ∧
      (∀ f members, s.frozenCohort = some (f, members) → f < p.epoch) ∧ s.emittedResults = [] ∧
      s.results.length + s.proposals.length < RESULT_CACHE_SLOTS ∧
      p.expiryMs = satAdd nowMs 5000
  | .challenge c =>
    c.binding = binding ∧ c.response = none ∧ c.state = .challenged ∧
      c.expiryMs = satAdd nowMs CHALLENGE_EXPIRY_MS ∧
      (∃ p ∈ s.proposals, p.candidateId = c.candidateId ∧ p.loc = c.loc ∧ p.epoch = c.epoch ∧
        p.slot = c.slot ∧ nowMs < p.expiryMs) ∧
      Manager.findRecord s c.candidateId c.loc c.epoch c.slot binding = none ∧
      s.candidates.length ≠ LIVE_CANDIDATES_MAX ∧ s.oldBinding = none
  | .commitLocal _ _ b _ r =>
    b = binding ∧ s.results.length + s.frozenSlots < RESULT_CACHE_SLOTS ∧
      r.expiryMs = satAdd nowMs 10000 ∧ r.origin = .received ∧
      Manager.cachedResult s r.candidateId r.epoch r.slot nowMs = none
  | .prove id epoch slot at_ r =>
    at_ = nowMs ∧ r.binding = binding ∧ Manager.cachedResult s id epoch slot nowMs = none ∧
      (∃ c, Manager.findRecord s id r.loc epoch slot binding = some c ∧ c.state = .challenged ∧
        nowMs < c.expiryMs ∧ r.expiryMs = c.expiryMs) ∧
      (∃ secret, s.candidateSecret = some secret ∧
        token C secret m.receiving ⟨id, r.loc, binding, epoch, slot, r.expiryMs⟩ = .ok r.token) ∧
      ∃ greatest, Manager.greatestEpoch s = some greatest ∧
        (s.frozenCohort = none → epoch = greatest →
          s.results.length + (Manager.prospectiveMembers s greatest).length ≤ RESULT_CACHE_SLOTS)
  | .existingChallenge _ | .respond _ | .none => True

section

variable {C : Crypto} {m : Manager} {s s' : State} {binding : ObservedBinding} {nowMs : U64}
  {a : Action}

theorem previewLocUpdate_applicable {control : Control} {id : CandidateId} {oldLoc newLoc : Loc}
    {epoch : U64} {slot : Byte}
    (h : m.previewLocUpdate C s nowMs control id oldLoc newLoc epoch slot = .ok a) :
    Applicable C m s binding nowMs a := by
  simp only [Manager.previewLocUpdate, Outcome.bind_eq_ok, Outcome.ite_error_eq_ok] at h
  obtain ⟨-, -, hfields, h⟩ := h
  split at h
  · simp only [Outcome.ite_ok_eq_ok, Except.ok.injEq] at h
    rw [← h.2]
    trivial
  · rename_i hnone
    simp only [Outcome.ite_error_eq_ok, Except.ok.injEq] at h
    obtain ⟨hunused, hdrained, hroom, -, rfl⟩ := h
    push Not at hfields hunused hroom hdrained
    obtain ⟨hfrozen, hcand, -, hres, -⟩ := hunused
    refine ⟨hfields.2.1, ?_, ?_, ?_, ?_, hdrained, by simpa using hroom.2, rfl⟩
    · simpa using hnone
    · simpa [State.hasCandidate] using hcand
    · simpa using hres
    · intro f members hf
      simpa [hf] using hfrozen

theorem previewBindProbe_applicable {id : CandidateId} {loc : Loc} {epoch : U64} {slot : Byte}
    (h : Manager.previewBindProbe s binding nowMs id loc epoch slot = .ok a) :
    Applicable C m s binding nowMs a := by
  simp only [Manager.previewBindProbe] at h
  split at h
  · simp at h
  · rename_i p hp
    have hmem := List.mem_of_find?_eq_some hp
    have hkey := List.find?_some hp
    simp only [decide_eq_true_eq] at hkey
    obtain ⟨rfl, rfl, rfl, rfl, hlive⟩ := hkey
    split at h
    · simp only [Outcome.ite_ok_eq_ok, Except.ok.injEq] at h
      rw [← h.2]
      trivial
    · rename_i hnone
      simp only [Outcome.ite_error_eq_ok, Except.ok.injEq] at h
      obtain ⟨hroom, rfl⟩ := h
      push Not at hroom
      refine ⟨rfl, rfl, rfl, rfl, ⟨p, hmem, rfl, rfl, rfl, rfl, hlive⟩, hnone, hroom.1, ?_⟩
      by_contra hsome
      exact hroom.2 (by simp [Option.isSome_iff_ne_none.mpr hsome, LIVE_CANDIDATES_MAX])

theorem previewBindResponse_applicable {id : CandidateId} {loc : Loc} {epoch : U64} {slot : Byte}
    {expiryMs : U64} {supplied : Bytes 32}
    (h : m.previewBindResponse C s binding nowMs id loc epoch slot expiryMs supplied = .ok a) :
    Applicable C m s binding nowMs a := by
  simp only [Manager.previewBindResponse] at h
  split at h
  · simp only [Outcome.ite_ok_eq_ok, Except.ok.injEq] at h
    rw [← h.2]
    trivial
  · rename_i hcached
    split at h
    · simp at h
    · rename_i c hc
      simp only [Outcome.ite_error_eq_ok] at h
      obtain ⟨hstate, hexpiry, h⟩ := h
      push Not at hstate hexpiry
      split at h
      · simp at h
      · rename_i secret hsecret
        simp only [Outcome.bind_eq_ok, Outcome.ite_error_eq_ok] at h
        obtain ⟨expected, htoken, heq, h⟩ := h
        push Not at heq
        subst heq
        split at h
        · simp at h
        · rename_i greatest hgreatest
          simp only [Outcome.ite_error_eq_ok, Except.ok.injEq] at h
          obtain ⟨hroom, rfl⟩ := h
          push Not at hroom
          exact ⟨rfl, rfl, hcached, ⟨c, hc, hstate, hexpiry.1, hexpiry.2⟩, ⟨secret, hsecret, htoken⟩,
            greatest, hgreatest, hroom⟩

theorem previewCandidateResult_applicable {control : Control} {id : CandidateId} {epoch : U64}
    {slot result : Byte}
    (h : Manager.previewCandidateResult s binding nowMs control id epoch slot result = .ok a) :
    Applicable C m s binding nowMs a := by
  simp only [Manager.previewCandidateResult] at h
  split at h
  · simp only [Outcome.ite_ok_eq_ok, Except.ok.injEq] at h
    rw [← h.2]
    trivial
  · rename_i hcached
    split at h
    · simp at h
    · simp only [Outcome.ite_error_eq_ok, Except.ok.injEq] at h
      obtain ⟨hroom, rfl⟩ := h
      exact ⟨rfl, by simpa using hroom, rfl, rfl, hcached⟩

theorem previewControl_applicable {control : Control}
    (h : m.previewControl C s binding nowMs control = .ok a) :
    Applicable C m s binding nowMs a := by
  cases control with
  | locUpdate => exact previewLocUpdate_applicable h
  | bindProbe => exact previewBindProbe_applicable h
  | bindResponse => exact previewBindResponse_applicable h
  | candidateResult => exact previewCandidateResult_applicable h
  | bindChallenge =>
    simp only [Manager.previewControl, Manager.previewBindChallenge] at h
    split at h
    · simp at h
    · rw [← Except.ok.inj h]
      trivial

theorem Applicable.quiet (hq : State.Quiet s s') (h : Applicable C m s binding nowMs a) :
    Applicable C m s' binding nowMs a := by
  cases a with
  | cacheProposal p tokens refillMs =>
    simp only [Applicable, hq.proposals, hq.candidates, hq.results, hq.frozenCohort,
      hq.peerEpoch] at h ⊢
    obtain ⟨h₁, h₂, h₃, h₄, h₅, h₆, h₇, h₈⟩ := h
    refine ⟨h₁, h₂, h₃, h₄, h₅, ?_, h₇, h₈⟩
    rcases hq.emittedResults with he | he
    · rw [he, h₆]
    · exact he
  | challenge c =>
    simpa only [Applicable, Manager.findRecord, hq.proposals, hq.candidates, hq.oldBinding] using h
  | commitLocal epoch loc b promote r =>
    simpa only [Applicable, State.frozenSlots, Manager.cachedResult, hq.results,
      hq.frozenCohort] using h
  | prove id epoch slot at_ r =>
    simpa only [Applicable, Manager.findRecord, Manager.cachedResult, Manager.greatestEpoch,
      Manager.prospectiveMembers, Manager.proposalsOf, hq.proposals, hq.candidates, hq.results,
      hq.frozenCohort, hq.candidateSecret] using h
  | existingChallenge => trivial
  | respond => trivial
  | none => trivial

theorem previewInner_eq_ok {plaintext : List Byte} {t : Transition}
    {pp : Option ProtectedReplayProof} {p3 : Option Profile3ReplayProof}
    (h : m.previewInner C s plaintext binding nowMs pp p3 = .ok t) :
    t.generation = s.generation ∧ t.ownerId = m.ownerId ∧ s.closed = false ∧ m.spent s = false ∧
      binding.Valid ∧ Applicable C m s binding nowMs t.action := by
  simp only [Manager.previewInner, Outcome.ite_error_eq_ok, Outcome.bind_eq_ok,
    Except.ok.injEq] at h
  obtain ⟨hvalid, control, -, -, hopen, a, ha, rfl⟩ := h
  push Not at hopen
  exact ⟨rfl, rfl, by simpa using hopen.1, by simpa using hopen.2.2, not_not.mp hvalid,
    previewControl_applicable ha⟩

/-- A result is committed for an outbound entry, and promotes it if it is 1. -/
theorem previewControl_commitLocal {b : ObservedBinding} {epoch : U64}
    {control : Control} {loc : Loc} {promote : Bool} {r : ResultEntry}
    (h : m.previewControl C s binding nowMs control = .ok (.commitLocal epoch loc b promote r)) :
    (∃ c ∈ s.outbound, c.epoch = epoch) ∧
      ∃ id slot result, control = .candidateResult id epoch slot result ∧
        promote = decide (result = 1) := by
  cases control with
  | candidateResult id e slot result =>
    simp only [Manager.previewControl, Manager.previewCandidateResult] at h
    split at h
    · simp at h
    · split at h
      · simp at h
      · rename_i c hc
        simp only [Outcome.ite_error_eq_ok, Except.ok.injEq, Action.commitLocal.injEq] at h
        have hkey := List.find?_some hc
        simp only [decide_eq_true_eq] at hkey
        refine ⟨⟨c, List.mem_of_find?_eq_some hc, h.2.1⟩, id, slot, result, ?_, h.2.2.2.2.1.symm⟩
        rw [← h.2.1, hkey.2.1]
  | locUpdate =>
    simp only [Manager.previewControl, Manager.previewLocUpdate, Outcome.bind_eq_ok,
      Outcome.ite_error_eq_ok] at h
    obtain ⟨-, -, -, h⟩ := h
    split at h <;> simp at h
  | bindProbe =>
    simp only [Manager.previewControl, Manager.previewBindProbe] at h
    split at h
    · simp at h
    · split at h <;> simp at h
  | bindResponse =>
    simp only [Manager.previewControl, Manager.previewBindResponse] at h
    split at h
    · simp at h
    · split at h
      · simp at h
      · simp only [Outcome.ite_error_eq_ok] at h
        obtain ⟨-, -, h⟩ := h
        split at h
        · simp at h
        · simp only [Outcome.bind_eq_ok, Outcome.ite_error_eq_ok] at h
          obtain ⟨expected, -, -, h⟩ := h
          split at h <;> simp at h
  | bindChallenge =>
    simp only [Manager.previewControl, Manager.previewBindChallenge] at h
    split at h <;> simp at h

theorem previewInner_control {plaintext : List Byte}
    {pp : Option ProtectedReplayProof} {p3 : Option Profile3ReplayProof} {t : Transition}
    (h : m.previewInner C s plaintext binding nowMs pp p3 = .ok t) :
    ∃ control, Control.parse plaintext = .ok control ∧
      m.previewControl C s binding nowMs control = .ok t.action := by
  simp only [Manager.previewInner, Outcome.ite_error_eq_ok, Outcome.bind_eq_ok,
    Except.ok.injEq] at h
  obtain ⟨-, control, hparse, -, -, a, ha, rfl⟩ := h
  exact ⟨control, hparse, ha⟩

/-- What a commit leaves: nothing new, or the action applied under the next generation. -/
def CommitEffect (m : Manager) (s : State) (t : Transition)
    (r : State × Except MobilityError Unit) : Prop :=
  (r.1 = s ∧ (r.2 = .ok () → t.action.mutates = false)) ∨
  (t.ownerId = m.ownerId ∧ s.closed = false ∧ t.generation = s.generation ∧
    t.action.mutates = true ∧ ∃ g, checkedAdd s.generation 1 = some g ∧
    r = ({ m.applyAction s t.action with generation := g }, .ok ()))

theorem applyAfterReplay_effect {t t' : Transition} (ha : t'.action = t.action)
    (ho : t.ownerId = m.ownerId) (hc : s.closed = false) (hg : s.generation = t.generation) :
    CommitEffect m s t (m.applyAfterReplay s t') := by
  unfold Manager.applyAfterReplay
  rw [ha]
  by_cases hm : t.action.mutates = true
  · simp only [hm, if_true]
    cases hadd : checkedAdd s.generation 1 with
    | none => exact .inl ⟨rfl, by simp⟩
    | some g => exact .inr ⟨ho, hc, hg.symm, hm, g, hadd, rfl⟩
  · left
    simp only [hm, Bool.false_eq_true, if_false]
    refine ⟨?_, fun _ => by simp⟩
    cases hact : t.action <;> simp_all [Action.mutates, Manager.applyAction]

theorem commitProtectedReplay_effect (m : Manager) (s : State) (t : Transition)
    (commit : ProtectedReplayProof → ProtectedReplayProof × Except MobilityError Unit) :
    CommitEffect m s t (m.commitProtectedReplay s t commit) := by
  unfold Manager.commitProtectedReplay
  split
  · exact .inl ⟨rfl, by simp⟩
  · rename_i howner
    push Not at howner
    split
    · exact .inl ⟨rfl, by simp⟩
    · split
      · exact .inl ⟨rfl, by simp⟩
      · rename_i hopen
        push Not at hopen
        split
        · exact .inl ⟨rfl, by simp⟩
        · split
          · exact .inl ⟨rfl, by simp⟩
          · exact applyAfterReplay_effect rfl howner.2 (by simpa using hopen.1) hopen.2

theorem commitProfile3_effect (m : Manager) (s : State) (t : Transition)
    (commit : Profile3ReplayProof → Profile3ReplayProof × Except MobilityError Unit) :
    CommitEffect m s t (m.commitProfile3 s t commit) := by
  unfold Manager.commitProfile3
  split
  · exact .inl ⟨rfl, by simp⟩
  · rename_i howner
    push Not at howner
    split
    · exact .inl ⟨rfl, by simp⟩
    · split
      · exact .inl ⟨rfl, by simp⟩
      · rename_i hopen
        push Not at hopen
        split
        · exact .inl ⟨rfl, by simp⟩
        · split
          · exact .inl ⟨rfl, by simp⟩
          · exact applyAfterReplay_effect rfl howner.2 (by simpa using hopen.1) hopen.2

/-- A local proposal only queues an outbound entry; its generation never falls. -/
theorem proposeLocal_quiet (C : Crypto) (m : Manager) (s : State) (id : CandidateId) (newLoc : Loc)
    (epoch : U64) (slot : Byte) (nowMs : U64) :
    State.Quiet s (m.proposeLocal C s id newLoc epoch slot nowMs).1 ∧
      s.generation ≤ (m.proposeLocal C s id newLoc epoch slot nowMs).1.generation := by
  unfold Manager.proposeLocal
  split
  · exact ⟨.refl s, le_rfl⟩
  · dsimp only
    split
    · split <;> exact ⟨.refl s, le_rfl⟩
    · split
      · exact ⟨.refl s, le_rfl⟩
      · split
        · exact ⟨.refl s, le_rfl⟩
        · split
          · exact ⟨by constructor <;> simp, le_rfl⟩
          · rename_i g hg
            refine ⟨by constructor <;> simp, ?_⟩
            have := checkedAdd_eq_some.mp hg
            simp only [Fin.le_def]
            omega

theorem makeProbe_quiet (m : Manager) (s : State) (id : CandidateId) (carrier : ObservedBinding)
    (probeNonce : Bytes 16) (nowMs : U64) :
    State.Quiet s (m.makeProbe s id carrier probeNonce nowMs).1 ∧
      (m.makeProbe s id carrier probeNonce nowMs).1.generation = s.generation := by
  unfold Manager.makeProbe
  split
  · exact ⟨.refl s, rfl⟩
  · split
    · exact ⟨.refl s, rfl⟩
    · split
      · exact ⟨.refl s, rfl⟩
      · split
        · exact ⟨.refl s, rfl⟩
        · dsimp only
          split
          · split <;> exact ⟨.refl s, rfl⟩
          · exact ⟨by constructor <;> simp, rfl⟩

theorem takeResults_quiet (s : State) :
    State.Quiet s s.takeResults.1 ∧ s.takeResults.1.generation = s.generation :=
  ⟨by constructor <;> simp [State.takeResults], rfl⟩

theorem takeProfile3Admissions_quiet (s : State) :
    State.Quiet s s.takeProfile3Admissions.1 ∧
      s.takeProfile3Admissions.1.generation = s.generation := by
  unfold State.takeProfile3Admissions
  split
  · exact ⟨.refl s, rfl⟩
  · exact ⟨by constructor <;> simp, rfl⟩

namespace World

variable {w : World} {call : Call}

/-- Outstanding transitions are never ahead of the state, and one of the current generation still
applies to it. -/
structure Fresh (C : Crypto) (m : Manager) (w : World) : Prop where
  behind : ∀ p ∈ w.issued, p.transition.generation ≤ w.state.generation
  applies : ∀ p ∈ w.issued, w.state.closed = false →
    p.transition.generation = w.state.generation →
    m.spent w.state = false ∧ p.binding.Valid ∧
      Applicable C m w.state p.binding p.nowMs p.transition.action

/-- Everything a call can do. A commit that applies its action is of an applicable one. -/
inductive Effect (C : Crypto) (m : Manager) (w : World) (call : Call) : Prop
  | quiet (hq : State.Quiet w.state (w.step C m call).state)
      (hg : w.state.generation ≤ (w.step C m call).state.generation)
      (ha : (w.step C m call).applied = w.applied ∨ ∃ p, p.transition.action.mutates = false ∧
        (w.step C m call).applied = p :: w.applied)
      (hs : w.attempts m call = [])
  | commit (p : Previewed) (g : U64) (hp : p ∈ w.issued)
      (hgen : p.transition.generation = w.state.generation) (hc : w.state.closed = false)
      (hspent : m.spent w.state = false) (hvalid : p.binding.Valid)
      (happ : Applicable C m w.state p.binding p.nowMs p.transition.action)
      (hg : checkedAdd w.state.generation 1 = some g)
      (hmut : p.transition.action.mutates = true) (hcom : w.committed m call = some p)
      (hstate : (w.step C m call).state =
        { m.applyAction w.state p.transition.action with generation := g })
      (ha : (w.step C m call).applied = p :: w.applied)
      (hs : w.attempts m call = p.transition.action.attempts w.state)
  | expire (nowMs : U64) (hcall : call = .expire nowMs) (hc : w.state.closed = false)
      (hstate : (w.step C m call).state = w.state.expire m nowMs)
      (ha : (w.step C m call).applied = w.applied)
      (hs : w.attempts m call = w.state.expireAttempts m nowMs)
  | close (hstate : (w.step C m call).state = w.state.close)
      (ha : (w.step C m call).applied = w.applied) (hs : w.attempts m call = [])

theorem attempts_of_committed {p : Previewed} (hcall : ∀ nowMs, call ≠ .expire nowMs)
    (h : w.committed m call = some p) :
    w.attempts m call = p.transition.action.attempts w.state := by
  cases call <;> simp_all [attempts]

theorem attempts_of_not_committed (hcall : ∀ nowMs, call ≠ .expire nowMs)
    (h : w.committed m call = none) : w.attempts m call = [] := by
  cases call <;> simp_all [attempts]

theorem Action.attempts_of_not_mutates (s : State) (h : a.mutates = false) :
    a.attempts s = [] := by
  cases a <;> simp_all [Action.mutates, Action.attempts]

/-- The common part of the two commits. -/
theorem effect_of_commit {p : Previewed} {r : State × Except MobilityError Unit}
    (hf : Fresh C m w) (hp : p ∈ w.issued ∨ p.transition.ownerId ≠ m.ownerId)
    (hr : CommitEffect m w.state p.transition r) (hnext : w.next C m call = r.1)
    (hcom : w.committed m call = if r.2 = .ok () then some p else none)
    (hcall : ∀ nowMs, call ≠ .expire nowMs) : Effect C m w call := by
  rcases hr with ⟨hsame, hmut⟩ | ⟨howner, hc, hgen, hmut, g, hg, rfl⟩
  · have hstate : (w.step C m call).state = w.state := hnext.trans hsame
    by_cases hok : r.2 = .ok ()
    · rw [if_pos hok] at hcom
      refine .quiet (by rw [hstate]; exact .refl _) (by rw [hstate]) (.inr ⟨p, hmut hok, ?_⟩) ?_
      · simp [step, hcom]
      · rw [attempts_of_committed hcall hcom, Action.attempts_of_not_mutates _ (hmut hok)]
    · rw [if_neg hok] at hcom
      refine .quiet (by rw [hstate]; exact .refl _) (by rw [hstate]) (.inl ?_) ?_
      · simp [step, hcom]
      · exact attempts_of_not_committed hcall hcom
  · have hp : p ∈ w.issued := by
      rcases hp with hp | hp
      · exact hp
      · exact absurd howner hp
    rw [if_pos rfl] at hcom
    obtain ⟨hspent, hvalid, happ⟩ := hf.applies p hp hc hgen
    refine .commit p g hp hgen hc hspent hvalid happ hg hmut hcom hnext ?_ ?_
    · simp [step, hcom]
    · exact attempts_of_committed hcall hcom

theorem step_effect (hf : Fresh C m w) (ho : w.Owned m call) : Effect C m w call := by
  cases call with
  | proposeLocal id newLoc epoch slot nowMs =>
    obtain ⟨hq, hg⟩ := proposeLocal_quiet C m w.state id newLoc epoch slot nowMs
    exact .quiet hq hg (.inl rfl) rfl
  | makeProbe id carrier probeNonce nowMs =>
    obtain ⟨hq, hg⟩ := makeProbe_quiet m w.state id carrier probeNonce nowMs
    exact .quiet hq hg.ge (.inl rfl) rfl
  | previewProtected => exact .quiet (.refl _) le_rfl (.inl rfl) rfl
  | previewProfile3 => exact .quiet (.refl _) le_rfl (.inl rfl) rfl
  | commitProtected p commit =>
    exact effect_of_commit hf ho (commitProtectedReplay_effect m w.state p.transition commit) rfl
      rfl (by simp)
  | commitProfile3 p commit =>
    exact effect_of_commit hf ho (commitProfile3_effect m w.state p.transition commit) rfl
      rfl (by simp)
  | expire nowMs =>
    by_cases hc : w.state.closed = true
    · have hsame : w.state.expire m nowMs = w.state := by simp [State.expire, hc]
      refine .quiet ?_ ?_ (.inl rfl) (by simp [attempts, State.expireAttempts, hc])
      · simp only [step, next, hsame]
        exact .refl _
      · simp only [step, next, hsame, le_refl]
    · exact .expire nowMs rfl (by simpa using hc) rfl rfl rfl
  | takeResults =>
    obtain ⟨hq, hg⟩ := takeResults_quiet w.state
    exact .quiet hq hg.ge (.inl rfl) rfl
  | takeProfile3Admissions =>
    obtain ⟨hq, hg⟩ := takeProfile3Admissions_quiet w.state
    exact .quiet hq hg.ge (.inl rfl) rfl
  | close => exact .close rfl rfl rfl

theorem previewed_eq_some {p : Previewed} (h : w.previewed C m call = some p) :
    (w.step C m call).state = w.state ∧ p.transition.generation = w.state.generation ∧
      p.transition.ownerId = m.ownerId ∧ w.state.closed = false ∧ m.spent w.state = false ∧
      p.binding.Valid ∧ Applicable C m w.state p.binding p.nowMs p.transition.action ∧
      call.time? = some p.nowMs := by
  cases call with
  | previewProtected plaintext binding proof live nowMs =>
    obtain ⟨t, ht, rfl⟩ := Option.map_eq_some_iff.mp h
    have hok := Outcome.toOption_eq_some.mp ht
    simp only [Manager.previewProtected, Outcome.ite_error_eq_ok] at hok
    obtain ⟨h₁, h₂, h₃, h₄, h₅, h₆⟩ := previewInner_eq_ok hok.2
    exact ⟨rfl, h₁, h₂, h₃, h₄, h₅, h₆, rfl⟩
  | previewProfile3 plaintext binding proof nowMs =>
    obtain ⟨t, ht, rfl⟩ := Option.map_eq_some_iff.mp h
    have hok := Outcome.toOption_eq_some.mp ht
    simp only [Manager.previewProfile3, Outcome.ite_error_eq_ok] at hok
    obtain ⟨h₁, h₂, h₃, h₄, h₅, h₆⟩ := previewInner_eq_ok hok.2.2
    exact ⟨rfl, h₁, h₂, h₃, h₄, h₅, h₆, rfl⟩
  | _ => simp [previewed] at h

theorem spent_quiet {s s' : State} (hq : State.Quiet s s') : m.spent s' = m.spent s := by
  simp [Manager.spent, hq.profile3Slot1Admitted]

theorem generation_lt {g : U64} {s : State} (h : checkedAdd s.generation 1 = some g) :
    s.generation < g := by
  have := checkedAdd_eq_some.mp h
  simp only [Fin.lt_def]
  omega

/-- A call keeps everything a preview depends on, or leaves no transition current. -/
theorem Effect.moves (he : Effect C m w call) :
    w.state.generation ≤ (w.step C m call).state.generation ∧
      (State.Quiet w.state (w.step C m call).state ∨ (w.step C m call).state.closed = true ∨
        w.state.generation < (w.step C m call).state.generation) := by
  cases he with
  | quiet hq hg _ _ => exact ⟨hg, .inl hq⟩
  | commit p g _ _ _ _ _ _ hg _ _ hstate _ _ =>
    have hlt := generation_lt hg
    rw [hstate]
    exact ⟨hlt.le, .inr (.inr hlt)⟩
  | expire nowMs _ hc hstate _ _ =>
    rw [hstate]
    rcases State.expire_cases (m := m) w.state nowMs hc with ⟨ts, he⟩ | ⟨g, hg, he⟩ | he
    · rw [he]
      exact ⟨le_rfl, .inl (by constructor <;> simp)⟩
    · have hlt := generation_lt hg
      rw [he]
      exact ⟨hlt.le, .inr (.inr hlt)⟩
    · rw [he]
      exact ⟨(State.expireSettled_frame m w.state nowMs).generation.ge, .inr (.inl rfl)⟩
  | close hstate _ _ =>
    rw [hstate]
    refine ⟨?_, .inr (.inl rfl)⟩
    simp only [State.close, Fin.le_def, satAdd_val]
    omega

/-- A property of every outstanding transition of the current generation. -/
def Current (K : Previewed → State → Prop) (w : World) : Prop :=
  ∀ p ∈ w.issued, w.state.closed = false → p.transition.generation = w.state.generation →
    K p w.state

/-- What a preview establishes and no quiet change breaks holds until the generation moves on. -/
theorem current_step {K : Previewed → State → Prop} (hf : Fresh C m w) (ho : w.Owned m call)
    (hquiet : ∀ p s s', State.Quiet s s' → K p s → K p s')
    (hnew : ∀ p, w.previewed C m call = some p → K p w.state) (h : Current K w) :
    Current K (w.step C m call) := by
  intro p hp hc hgen
  rcases List.mem_append.mp hp with hp | hp
  · have hprev := Option.mem_toList.mp hp
    rw [(previewed_eq_some hprev).1]
    exact hnew p hprev
  · have hbehind := hf.behind p hp
    obtain ⟨hle, hq | hclosed | hlt⟩ := (step_effect hf ho).moves
    · have hback : p.transition.generation = w.state.generation :=
        le_antisymm hbehind (hgen ▸ hle)
      exact hquiet p _ _ hq (h p hp (hq.closed.symm.trans hc) hback)
    · simp [hclosed] at hc
    · exact absurd hgen (ne_of_lt (hbehind.trans_lt hlt))

theorem fresh_step (hf : Fresh C m w) (ho : w.Owned m call) : Fresh C m (w.step C m call) where
  behind p hp := by
    rcases List.mem_append.mp hp with hp | hp
    · obtain ⟨hs, hg, -⟩ := previewed_eq_some (Option.mem_toList.mp hp)
      rw [hs, hg]
    · exact (hf.behind p hp).trans (step_effect hf ho).moves.1
  applies := by
    refine current_step (K := fun p s => m.spent s = false ∧ p.binding.Valid ∧
      Applicable C m s p.binding p.nowMs p.transition.action) hf ho ?_ ?_ hf.applies
    · rintro p s s' hq ⟨h₁, h₂, h₃⟩
      exact ⟨(spent_quiet hq).trans h₁, h₂, h₃.quiet hq⟩
    · intro p hp
      obtain ⟨-, -, -, -, hspent, hvalid, happ, -⟩ := previewed_eq_some hp
      exact ⟨hspent, hvalid, happ⟩

theorem fresh_start {secret : Bytes 32} (h : Starts C m secret w) : Fresh C m w := by
  obtain ⟨-, hi, -⟩ := h
  exact ⟨by simp [hi], by simp [hi]⟩

variable {secret : Bytes 32} {ok : World → Call → Prop}

/-- The runs of a manager: calls of owned transitions that also meet `ok`. -/
abbrev Reach (C : Crypto) (m : Manager) (secret : Bytes 32) (ok : World → Call → Prop)
    (w : World) : Prop :=
  Machine.Reach (Starts C m secret) (step C m) (fun w call => w.Owned m call ∧ ok w call) w

theorem Reach.fresh (h : Reach C m secret ok w) : Fresh C m w := by
  apply h.invariant
  · exact fun w => fresh_start
  · exact fun w call hf hok => fresh_step hf hok.1

/-- The invariant rule of runs: freshness is there to be used in every step. -/
theorem Reach.induct {I : World → Prop} (h : Reach C m secret ok w)
    (hstart : ∀ w, Starts C m secret w → I w)
    (hstep : ∀ w call, Fresh C m w → I w → ok w call → Effect C m w call →
      I (w.step C m call)) : I w := by
  have hall : Fresh C m w ∧ I w := by
    apply Machine.Reach.invariant (I := fun w => Fresh C m w ∧ I w) _ _ h
    · exact fun w hs => ⟨fresh_start hs, hstart w hs⟩
    · intro w call hi hok
      exact ⟨fresh_step hi.1 hok.1, hstep w call hi.1 hi.2 hok.2 (step_effect hi.1 hok.1)⟩
  exact hall.2

theorem mem_installed {i : Install} (hi : i ∈ (w.step C m call).installed) :
    i ∈ w.installed ∨ ∃ a ∈ w.attempts m call, a.install m = some i := by
  rcases List.mem_append.mp hi with hi | hi
  · exact .inr (List.mem_filterMap.mp (List.mem_reverse.mp hi))
  · exact .inl hi

theorem install_eq_some {a : Attempt} {i : Install} (h : a.install m = some i) :
    ∃ c, a.before.promotes = some (i.epoch, c) ∧ i.candidateId = c.candidateId ∧
      i.binding = c.binding ∧ i.nowMs = a.nowMs := by
  simp only [Attempt.install] at h
  split at h
  · simp at h
  · rename_i epoch c hp
    split at h
    · simp at h
    · obtain rfl := Option.some.inj h
      exact ⟨c, hp, rfl, rfl, rfl⟩

/-- Settlements are attempted by open managers only. -/
theorem attempt_open (he : Effect C m w call) :
    ∀ a ∈ w.attempts m call, a.before.closed = false := by
  intro a ha
  cases he with
  | quiet _ _ _ hs => simp [hs] at ha
  | close _ _ hs => simp [hs] at ha
  | commit p g _ _ hc _ _ _ _ _ _ _ _ hs =>
    rw [hs] at ha
    cases hact : p.transition.action with
    | prove id epoch slot at_ r =>
      simp only [hact, Action.attempts, List.mem_singleton] at ha
      subst ha
      dsimp only [Manager.markProven]
      split <;> exact hc
    | _ => simp [hact, Action.attempts] at ha
  | expire nowMs hcall hc _ _ hs =>
    rw [hs] at ha
    simp only [State.expireAttempts, hc, Bool.false_eq_true, if_false, List.mem_cons,
      List.not_mem_nil, or_false] at ha
    obtain ⟨cs, ts, -, hmark⟩ := State.expireMark_eq w.state nowMs
    rcases ha with rfl | rfl
    · simpa [hmark] using hc
    · exact (State.expireBeforeSettle_frame m w.state nowMs).closed.trans hc

theorem clock_le (C : Crypto) (m : Manager) (hf : w.Forward call) :
    w.clockMs ≤ (w.step C m call).clockMs := by
  cases ht : call.time? with
  | none => simp [step, ht]
  | some nowMs => simpa [step, ht] using hf nowMs ht

/-- With a forward clock no transition was previewed in the future. -/
theorem Reach.issued_le (h : Reach C m secret ok w) (hok : ∀ w call, ok w call → w.Forward call) :
    ∀ p ∈ w.issued, p.nowMs ≤ w.clockMs := by
  apply Reach.induct (I := fun w => ∀ p ∈ w.issued, p.nowMs ≤ w.clockMs) h
  · intro w hs p hp
    simp [hs.2.1] at hp
  · intro w call _ hw hstep _ p hp
    have hclock := clock_le C m (hok w call hstep)
    rcases List.mem_append.mp hp with hp | hp
    · obtain ⟨-, -, -, -, -, -, -, ht⟩ := previewed_eq_some (Option.mem_toList.mp hp)
      simp [step, ht]
    · exact (hw p hp).trans hclock

theorem commitProtectedReplay_owner {t : Transition}
    {commit : ProtectedReplayProof → ProtectedReplayProof × Except MobilityError Unit}
    (h : (m.commitProtectedReplay s t commit).2 = .ok ()) : t.ownerId = m.ownerId := by
  by_contra hne
  simp [Manager.commitProtectedReplay, hne] at h

theorem commitProfile3_owner {t : Transition}
    {commit : Profile3ReplayProof → Profile3ReplayProof × Except MobilityError Unit}
    (h : (m.commitProfile3 s t commit).2 = .ok ()) : t.ownerId = m.ownerId := by
  by_contra hne
  simp [Manager.commitProfile3, hne] at h

/-- What is committed was handed out by this manager. -/
theorem committed_mem {p : Previewed} (ho : w.Owned m call) (h : w.committed m call = some p) :
    p ∈ w.issued := by
  cases call with
  | commitProtected q commit =>
    simp only [committed, Option.ite_none_right_eq_some, Option.some.injEq] at h
    obtain ⟨hok, rfl⟩ := h
    exact ho.resolve_right (not_not.mpr (commitProtectedReplay_owner hok))
  | commitProfile3 q commit =>
    simp only [committed, Option.ite_none_right_eq_some, Option.some.injEq] at h
    obtain ⟨hok, rfl⟩ := h
    exact ho.resolve_right (not_not.mpr (commitProfile3_owner hok))
  | _ => simp [committed] at h

/-- What is known of every step of a run may be added to the side condition. -/
theorem Reach.strengthen {J : World → Call → Prop} (h : Reach C m secret ok w)
    (hJ : ∀ w call, Reach C m secret ok w → w.Owned m call → ok w call → J w call) :
    Reach C m secret (fun w call => ok w call ∧ J w call) w := by
  induction h with
  | start hs => exact .start hs
  | next hr hok ih => exact .next ih ⟨hok.1, hok.2, hJ _ _ hr hok.1 hok.2⟩

/-- A property of the state, relative to the history, that every phase of every call keeps. -/
structure Phases (C : Crypto) (m : Manager) (ok : World → Call → Prop)
    (P : List Previewed → State → Prop) : Prop where
  older : ∀ p a s, p.transition.action.mutates = false → P a s → P (p :: a) s
  quiet : ∀ a s s', State.Quiet s s' → P a s → P a s'
  wipe : ∀ a s, P a s → P a s.wipe
  apply : ∀ w call p, ok w call → w.committed m call = some p →
    p.transition.action.mutates = true → (∀ s, p.transition.action.attempts s = []) →
    w.state.closed = false → p.binding.Valid → m.spent w.state = false →
    Applicable C m w.state p.binding p.nowMs p.transition.action →
    P w.applied w.state → P (p :: w.applied) (m.applyAction w.state p.transition.action)
  prove : ∀ w call p id epoch slot at_ r, ok w call → w.committed m call = some p →
    p.transition.action = .prove id epoch slot at_ r → w.state.closed = false →
    p.binding.Valid → m.spent w.state = false →
    Applicable C m w.state p.binding p.nowMs p.transition.action →
    P w.applied w.state → P (p :: w.applied) (Manager.markProven w.state id epoch slot r)
  mark : ∀ w nowMs, ok w (.expire nowMs) → w.state.closed = false → P w.applied w.state →
    P w.applied (w.state.expireMark nowMs)
  settle : ∀ w call a, ok w call → a ∈ w.attempts m call → P (w.step C m call).applied a.before →
    P (w.step C m call).applied (a.before.settleFrozenCohort m.profile m.scid a.nowMs).1
  sweep : ∀ w nowMs, ok w (.expire nowMs) → w.state.closed = false → P w.applied w.state →
    P w.applied ((w.state.expireMark nowMs).settleFrozenCohort m.profile m.scid nowMs).1 →
    P w.applied (w.state.expireBeforeSettle m nowMs)

namespace Phases

variable {P : List Previewed → State → Prop}

/-- The states in which a step attempts to settle. -/
theorem attempt (hP : Phases C m ok P) (hw : P w.applied w.state) (hok : ok w call)
    (he : Effect C m w call) : ∀ a ∈ w.attempts m call, P (w.step C m call).applied a.before := by
  intro a ha
  cases he with
  | quiet _ _ _ hs => simp [hs] at ha
  | close _ _ hs => simp [hs] at ha
  | commit p g _ _ hc hspent hvalid happ _ _ hcom _ happlied hs =>
    rw [hs] at ha
    cases hact : p.transition.action with
    | prove id epoch slot at_ r =>
      simp only [hact, Action.attempts, List.mem_singleton] at ha
      subst ha
      rw [happlied]
      exact hP.prove w call p id epoch slot at_ r hok hcom hact hc hvalid hspent happ hw
    | _ => simp [hact, Action.attempts] at ha
  | expire nowMs hcall hc _ happlied hs =>
    subst hcall
    rw [hs] at ha
    rw [happlied]
    have hmark := hP.mark w nowMs hok hc hw
    simp only [State.expireAttempts, hc, Bool.false_eq_true, if_false, List.mem_cons,
      List.not_mem_nil, or_false] at ha
    rcases ha with rfl | rfl
    · exact hmark
    · refine hP.sweep w nowMs hok hc hw ?_
      exact hP.settle w (.expire nowMs) ⟨w.state.expireMark nowMs, nowMs⟩ hok
        (by simp [hs, State.expireAttempts, hc]) hmark

theorem step (hP : Phases C m ok P) (hw : P w.applied w.state) (hok : ok w call)
    (he : Effect C m w call) : P (w.step C m call).applied (w.step C m call).state := by
  have hattempt := hP.attempt hw hok he
  have hsettle := fun a ha => hP.settle w call a hok ha (hattempt a ha)
  cases he with
  | quiet hq _ ha _ =>
    rcases ha with ha | ⟨p, hmut, ha⟩
    · rw [ha]
      exact hP.quiet _ _ _ hq hw
    · rw [ha]
      exact hP.older _ _ _ hmut (hP.quiet _ _ _ hq hw)
  | close hstate ha _ =>
    rw [hstate, ha]
    exact hP.quiet _ _ _ (by constructor <;> simp [State.close]) (hP.wipe _ _ hw)
  | commit p g _ _ hc hspent hvalid happ _ hmut hcom hstate ha hs =>
    have hkey : P (w.step C m call).applied (m.applyAction w.state p.transition.action) := by
      cases hact : p.transition.action with
      | prove id epoch slot at_ r =>
        exact hsettle ⟨Manager.markProven w.state id epoch slot r, at_⟩
          (by simp [hs, hact, Action.attempts])
      | _ =>
        rw [ha, ← hact]
        exact hP.apply w call p hok hcom hmut (by simp [hact, Action.attempts]) hc hvalid hspent
          happ hw
    rw [hstate]
    exact hP.quiet _ _ _ (by constructor <;> simp) hkey
  | expire nowMs hcall hc hstate ha hs =>
    subst hcall
    have hkey : P (w.step C m (.expire nowMs)).applied (w.state.expireSettled m nowMs) :=
      hsettle ⟨w.state.expireBeforeSettle m nowMs, nowMs⟩ (by simp [hs, State.expireAttempts, hc])
    rw [hstate]
    rcases State.expire_cases (m := m) w.state nowMs hc with ⟨ts, he⟩ | ⟨g, -, he⟩ | he <;> rw [he]
    · rw [ha]
      exact hP.quiet _ _ _ (by constructor <;> simp) hw
    · exact hP.quiet _ _ _ (by constructor <;> simp) hkey
    · exact hP.wipe _ _ hkey

theorem reach (hP : Phases C m ok P) (hstart : ∀ w, Starts C m secret w → P [] w.state)
    (h : Reach C m secret ok w) : P w.applied w.state := by
  apply Reach.induct (I := fun w => P w.applied w.state) h
  · intro w hs
    rw [hs.2.2.1]
    exact hstart w hs
  · exact fun w call _ hw hok he => hP.step hw hok he

end Phases

end World

end

end R8.Mobility
