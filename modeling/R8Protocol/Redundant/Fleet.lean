import R8Protocol.Mobility.Admission
import R8Protocol.Mobility.Receive
import R8Protocol.Redundant.Decision
import R8Protocol.Redundant.Slots

/-! Any number of sessions and managers, with the owners and admissions that pass between them. -/
namespace R8.Redundant

open FixedWidth Wire Session Mobility

/-- A bootstrap that a client or a server has handed over. -/
def HandedOver (C : Crypto) (b : Profile3Bootstrap) : Prop :=
  (∃ m, ClientMachine.Reach C m ∧ m.takeProfile3Bootstrap.2 = .ok b) ∨
  ∃ m scid, ServerMachine.Reach C m ∧ (m.takeProfile3Bootstrap scid).2 = .ok b

/-- Calls that take no owner, no admission and no manager. -/
def Call.alone : Call → Bool
  | .prepareMobilityCommit .. | .commitMobility .. | .issueOwner .. | .activate .. => false
  | _ => true

def World.start (s : RedundantSession) : World := ⟨s, ⟨0, []⟩, [], [], []⟩

/-- The replay commit on the session that was handed over. -/
def replayCommit (d? : Option DirectionalSession) (proof : Profile3ReplayProof) :
    Profile3ReplayProof × Except MobilityError Unit :=
  match d? with
  | none => (proof, .error .replay)
  | some d => ((d.commitProfile3Replay proof).2.1,
      (d.commitProfile3Replay proof).2.2.mapError fun _ => .replay)

/-- Sessions are named by their receive owner and managers by their owner id. The last four fields
are ghosts, newest first: who issued, built, minted and activated what. -/
structure Fleet where
  sessions : ℕ → Option World
  managers : ℕ → Option (Manager × Mobility.World)
  owners : List Profile3AdmissionOwner
  admissions : List Profile3Admission
  issued : List (ℕ × Profile3AdmissionOwner)
  built : List (ℕ × Profile3AdmissionOwner)
  minted : List (ℕ × Profile3Admission)
  activated : List (ℕ × Profile3Admission)

inductive Op
  | new (i : ℕ) (bootstrap : Profile3Bootstrap) (binding : ObservedBinding) (deliverySeed : U64)
  | session (i : ℕ) (call : Call)
  | issueOwner (i : ℕ) (policyId : U32) (ownerLive : Bool) (capability : ℕ)
  | activate (i : ℕ) (admission : Profile3Admission) (budget owner : ℕ)
  | newManager (j : ℕ) (config : ManagerConfig) (owner : Profile3AdmissionOwner)
  | manager (j : ℕ) (call : Mobility.Call)
  | prepareMobilityCommit (i j : ℕ) (binding : ObservedBinding) (p : InboundPreview) (nowMs : U64)
  | commitMobility (i j : ℕ) (c : MobilityInboundCommit)

/-- What is prepared came from the manager's preview of the plaintext. -/
theorem prepare_transition {C : Crypto} {s : RedundantSession} {leases : Leases} {m : Manager}
    {ms : State} {binding : ObservedBinding} {p : InboundPreview} {nowMs : U64}
    {c : MobilityInboundCommit}
    (h : (s.prepareMobilityCommit C leases m ms binding p nowMs).2.toOption = some c) :
    m.previewProfile3 C ms p.sessionPreview.plaintext binding p.sessionPreview.intoReplayProof
      nowMs = .ok c.transition := by
  unfold RedundantSession.prepareMobilityCommit at h
  dsimp only at h
  split at h
  · simp [Except.toOption] at h
  · split at h
    · simp [Except.toOption] at h
    · split at h
      · simp [Except.toOption] at h
      · rename_i t ht
        obtain rfl := Option.some.inj h
        exact ht

theorem previewProfile3_owner {C : Crypto} {m : Manager} {ms : State} {plaintext : List Byte}
    {binding : ObservedBinding} {proof : Profile3ReplayProof} {nowMs : U64} {t : Transition}
    (h : m.previewProfile3 C ms plaintext binding proof nowMs = .ok t) : t.ownerId = m.ownerId := by
  simp only [Manager.previewProfile3, Outcome.ite_error_eq_ok] at h
  exact (previewInner_eq_ok h.2.2).2.1

namespace Fleet

def empty : Fleet := ⟨fun _ => none, fun _ => none, [], [], [], [], [], []⟩

/-- The call an operation makes on a session. -/
def sessionCall (f : Fleet) : Op → Option (ℕ × Call)
  | .session i call => some (i, call)
  | .issueOwner i policyId ownerLive capability =>
    some (i, .issueOwner policyId ownerLive capability)
  | .activate i admission budget owner => some (i, .activate admission budget owner)
  | .prepareMobilityCommit i j binding p nowMs =>
    (f.managers j).map fun x => (i, .prepareMobilityCommit x.1 x.2.state binding p nowMs)
  | .commitMobility i j c => (f.managers j).map fun x => (i, .commitMobility x.1 x.2.state c)
  | _ => none

/-- The call it makes on a manager. A commit names the transition it was prepared with. -/
def managerCall (C : Crypto) (f : Fleet) : Op → Option (ℕ × Mobility.Call)
  | .manager j call => some (j, call)
  | .prepareMobilityCommit i j binding p nowMs =>
    match f.sessions i, f.managers j with
    | some w, some (m, mw) =>
      ((w.session.prepareMobilityCommit C w.leases m mw.state binding p nowMs).2.toOption).map
        fun _ => (j, .previewProfile3 p.sessionPreview.plaintext binding
          p.sessionPreview.intoReplayProof nowMs)
    | _, _ => none
  | .commitMobility i j c =>
    match f.sessions i, f.managers j with
    | some w, some (_, mw) =>
      (mw.issued.find? (·.transition = c.transition)).map fun p =>
        (j, .commitProfile3 p (replayCommit (w.session.handed w.leases c)))
    | _, _ => none
  | _ => none

def sessionsAfter (C : Crypto) (f : Fleet) (op : Op) : ℕ → Option World :=
  match op with
  | .new i bootstrap binding deliverySeed =>
    match RedundantSession.new bootstrap binding deliverySeed i with
    | .error _ => f.sessions
    | .ok s => Function.update f.sessions i (some (.start s))
  | op => Machine.stepAt (World.step C) f.sessions (f.sessionCall op)

def managersAfter (C : Crypto) (f : Fleet) (op : Op) : ℕ → Option (Manager × Mobility.World) :=
  match op with
  | .newManager j config owner =>
    match newInner C config (some owner) none j with
    | .error _ => f.managers
    | .ok (m, s) => Function.update f.managers j (some (m, ⟨s, [], 0, [], [], []⟩))
  | op =>
    Machine.stepAt (fun x call => (x.1, x.2.step C x.1 call)) f.managers (f.managerCall C op)

def issuedBy (f : Fleet) : Op → Option (ℕ × Profile3AdmissionOwner)
  | .issueOwner i policyId ownerLive capability =>
    (f.sessions i).bind fun w =>
      ((w.session.issueProfile3AdmissionOwner policyId ownerLive capability).2.toOption).map (i, ·)
  | _ => none

def builtBy (C : Crypto) : Op → Option (ℕ × Profile3AdmissionOwner)
  | .newManager j config owner =>
    ((newInner C config (some owner) none j).toOption).map fun _ => (j, owner)
  | _ => none

/-- The admission a call leaves in a manager that had not minted before. -/
def mintedBy (C : Crypto) (f : Fleet) (op : Op) : Option (ℕ × Profile3Admission) :=
  (f.managerCall C op).bind fun (j, call) =>
    (f.managers j).bind fun (m, mw) =>
      if mw.state.profile3Slot1Admitted then none
      else (mw.step C m call).state.profile3Admission.map (j, ·)

def activatedBy (C : Crypto) (f : Fleet) : Op → Option (ℕ × Profile3Admission)
  | .activate i admission budget owner =>
    (f.sessions i).bind fun w =>
      if (w.session.activate C w.leases admission budget owner).2 = .ok () then some (i, admission)
      else none
  | _ => none

def takenBy (f : Fleet) : Op → List Profile3Admission
  | .manager j .takeProfile3Admissions =>
    ((f.managers j).map fun x => x.2.state.takeProfile3Admissions.2).getD []
  | _ => []

/-- Owners and admissions are moved: a manager takes its owner, an activation its admission. -/
def step (C : Crypto) (f : Fleet) (op : Op) : Fleet where
  sessions := f.sessionsAfter C op
  managers := f.managersAfter C op
  owners := match op with
    | .newManager _ _ owner => f.owners.erase owner
    | op => (f.issuedBy op).toList.map Prod.snd ++ f.owners
  admissions := match op with
    | .activate _ admission _ _ => f.admissions.erase admission
    | op => f.takenBy op ++ f.admissions
  issued := (f.issuedBy op).toList ++ f.issued
  built := (builtBy C op).toList ++ f.built
  minted := (f.mintedBy C op).toList ++ f.minted
  activated := (f.activatedBy C op).toList ++ f.activated

/-- Names are fresh, values come from where the types say, and a capability is a new allocation. -/
def Permitted (C : Crypto) (f : Fleet) : Op → Prop
  | .new i bootstrap _ _ => f.sessions i = none ∧ HandedOver C bootstrap
  | .session i call => call.alone = true ∧ ∀ w ∈ f.sessions i, w.Owned call
  | .issueOwner _ _ _ capability => ∀ x ∈ f.issued, x.2.capability ≠ capability
  | .activate _ admission _ _ => admission ∈ f.admissions
  | .newManager j _ owner => f.managers j = none ∧ owner ∈ f.owners
  | .manager j call => ∀ x ∈ f.managers j, x.2.Owned x.1 call
  | .prepareMobilityCommit i _ _ p _ =>
    ∀ w ∈ f.sessions i, p ∈ w.previews ∨ p.owner ≠ w.session.receiveOwner
  | .commitMobility i _ c =>
    ∀ w ∈ f.sessions i, c ∈ w.prepared ∨ c.owner ≠ w.session.receiveOwner

abbrev Reach (C : Crypto) (f : Fleet) : Prop := Machine.Reach (· = empty) (step C) (Permitted C) f

variable {C : Crypto} {f : Fleet} {op : Op} {i j : ℕ} {w' : World}

/-- A session after an operation: as it was, new, or one call further. -/
theorem sessions_step (h : (f.step C op).sessions i = some w') :
    f.sessions i = some w' ∨
    (∃ b binding seed s, op = .new i b binding seed ∧
      RedundantSession.new b binding seed i = .ok s ∧ w' = .start s) ∨
    ∃ w call, f.sessions i = some w ∧ f.sessionCall op = some (i, call) ∧ w' = w.step C call := by
  have hother : Machine.stepAt (World.step C) f.sessions (f.sessionCall op) i = some w' →
      f.sessions i = some w' ∨ (∃ b binding seed s, op = .new i b binding seed ∧
        RedundantSession.new b binding seed i = .ok s ∧ w' = .start s) ∨
      ∃ w call, f.sessions i = some w ∧ f.sessionCall op = some (i, call) ∧ w' = w.step C call := by
    intro h
    rcases Machine.stepAt_eq_some h with h | h
    · exact .inl h
    · exact .inr (.inr h)
  cases op with
  | new k b binding seed =>
    cases hs : RedundantSession.new b binding seed k with
    | error e =>
      simp only [step, sessionsAfter, hs] at h
      exact .inl h
    | ok s =>
      simp only [step, sessionsAfter, hs] at h
      by_cases hk : i = k
      · subst hk
        simp only [Function.update_self, Option.some.injEq] at h
        exact .inr (.inl ⟨b, binding, seed, s, rfl, hs, h.symm⟩)
      · simp only [Function.update_of_ne hk] at h
        exact .inl h
  | _ => exact hother h

/-- A manager likewise. -/
theorem managers_step {m : Manager} {mw' : Mobility.World}
    (h : (f.step C op).managers j = some (m, mw')) :
    f.managers j = some (m, mw') ∨
    (∃ config owner s, op = .newManager j config owner ∧
      newInner C config (some owner) none j = .ok (m, s) ∧ mw' = ⟨s, [], 0, [], [], []⟩) ∨
    ∃ mw call, f.managers j = some (m, mw) ∧ f.managerCall C op = some (j, call) ∧
      mw' = mw.step C m call := by
  have hother : Machine.stepAt (fun x call => (x.1, x.2.step C x.1 call)) f.managers
      (f.managerCall C op) j = some (m, mw') →
      f.managers j = some (m, mw') ∨
      (∃ config owner s, op = .newManager j config owner ∧
        newInner C config (some owner) none j = .ok (m, s) ∧ mw' = ⟨s, [], 0, [], [], []⟩) ∨
      ∃ mw call, f.managers j = some (m, mw) ∧ f.managerCall C op = some (j, call) ∧
        mw' = mw.step C m call := by
    intro h
    rcases Machine.stepAt_eq_some h with h | ⟨⟨m₀, mw⟩, call, hw, hcall, heq⟩
    · exact .inl h
    · obtain ⟨rfl, rfl⟩ := Prod.mk.inj heq
      exact .inr (.inr ⟨mw, call, hw, hcall, rfl⟩)
  cases op with
  | newManager k config owner =>
    cases hs : newInner C config (some owner) none k with
    | error e =>
      simp only [step, managersAfter, hs] at h
      exact .inl h
    | ok r =>
      obtain ⟨m₀, s⟩ := r
      simp only [step, managersAfter, hs] at h
      by_cases hk : j = k
      · subst hk
        simp only [Function.update_self, Option.some.injEq, Prod.mk.injEq] at h
        obtain ⟨rfl, rfl⟩ := h
        exact .inr (.inl ⟨config, owner, s, rfl, hs, rfl⟩)
      · simp only [Function.update_of_ne hk] at h
        exact .inl h
  | _ => exact hother h

theorem owned_of_permitted {w : World} {call : Call} (hok : Permitted C f op)
    (hc : f.sessionCall op = some (i, call)) (hw : f.sessions i = some w) : w.Owned call := by
  cases op with
  | session k c =>
    obtain ⟨rfl, rfl⟩ := Prod.mk.inj (Option.some.inj hc)
    exact hok.2 w hw
  | issueOwner =>
    obtain ⟨rfl, rfl⟩ := Prod.mk.inj (Option.some.inj hc)
    trivial
  | activate =>
    obtain ⟨rfl, rfl⟩ := Prod.mk.inj (Option.some.inj hc)
    trivial
  | prepareMobilityCommit k j binding p nowMs =>
    obtain ⟨x, -, hx⟩ := Option.map_eq_some_iff.mp hc
    obtain ⟨rfl, rfl⟩ := Prod.mk.inj hx
    exact hok w hw
  | commitMobility k j c =>
    obtain ⟨x, -, hx⟩ := Option.map_eq_some_iff.mp hc
    obtain ⟨rfl, rfl⟩ := Prod.mk.inj hx
    exact hok w hw
  | new => simp [sessionCall] at hc
  | newManager => simp [sessionCall] at hc
  | manager => simp [sessionCall] at hc

theorem owned_of_managerCall {m : Manager} {mw : Mobility.World} {call : Mobility.Call}
    (hok : Permitted C f op) (hc : f.managerCall C op = some (j, call))
    (hm : f.managers j = some (m, mw)) : mw.Owned m call := by
  cases op with
  | manager k c =>
    obtain ⟨rfl, rfl⟩ := Prod.mk.inj (Option.some.inj hc)
    exact hok _ hm
  | prepareMobilityCommit i k binding p nowMs =>
    simp only [managerCall] at hc
    split at hc
    · obtain ⟨_, -, hx⟩ := Option.map_eq_some_iff.mp hc
      obtain ⟨rfl, rfl⟩ := Prod.mk.inj hx
      trivial
    · simp at hc
  | commitMobility i k c =>
    simp only [managerCall] at hc
    split at hc
    · rename_i w m₀ mw₀ _ hm₀
      obtain ⟨p, hp, hx⟩ := Option.map_eq_some_iff.mp hc
      obtain ⟨rfl, rfl⟩ := Prod.mk.inj hx
      obtain ⟨rfl, rfl⟩ := Prod.mk.inj (Option.some.inj (hm.symm.trans hm₀))
      exact .inl (List.mem_of_find?_eq_some hp)
    · simp at hc
  | new => simp [managerCall] at hc
  | session => simp [managerCall] at hc
  | issueOwner => simp [managerCall] at hc
  | activate => simp [managerCall] at hc
  | newManager => simp [managerCall] at hc

/-- Every session of the fleet is in a run of its own. -/
theorem Reach.session (h : Reach C f) {w : World} (hw : f.sessions i = some w) :
    World.Reach C w := by
  induction h generalizing i w with
  | start h =>
    subst h
    simp [empty] at hw
  | next _ hok ih =>
    rcases sessions_step hw with hw | ⟨b, binding, seed, s, -, hs, rfl⟩ | ⟨w₀, call, hw₀, hc, rfl⟩
    · exact ih hw
    · exact .start ⟨⟨b, binding, seed, i, hs⟩, rfl, rfl, rfl⟩
    · exact .next (ih hw₀) (owned_of_permitted hok hc hw₀)

theorem newInner_eq_ok {config : ManagerConfig} {owner : Profile3AdmissionOwner} {m : Manager}
    {s : State} (h : newInner C config (some owner) none j = .ok (m, s)) :
    m.ownerId = j ∧ m.profile = 3 ∧ m.scid = owner.scid ∧ s = initialState config (some owner) := by
  simp only [newInner, Outcome.ite_error_eq_ok, Except.ok.injEq, Prod.mk.injEq] at h
  obtain ⟨hguard, rfl, rfl⟩ := h
  push Not at hguard
  obtain ⟨-, -, -, -, -, -, -, howner, hsome, -⟩ := hguard
  have h3 : config.profile = 3 := by
    by_contra hne
    exact absurd (hsome hne) (by simp)
  have hscid := howner h3
  simp only [Option.any_some, decide_eq_true_eq] at hscid
  exact ⟨rfl, h3, hscid.1.symm, rfl⟩

/-- So is every manager, which is of profile 3 and has its name. -/
theorem Reach.manager (h : Reach C f) {m : Manager} {mw : Mobility.World}
    (hm : f.managers j = some (m, mw)) :
    m.ownerId = j ∧ m.profile = 3 ∧
      ∃ secret, Mobility.World.Reach C m secret (fun _ _ => True) mw := by
  induction h generalizing j m mw with
  | start h =>
    subst h
    simp [empty] at hm
  | next _ hok ih =>
    rcases managers_step hm with hm | ⟨config, owner, s, -, hs, rfl⟩ | ⟨mw₀, call, hm₀, hc, rfl⟩
    · exact ih hm
    · obtain ⟨hid, h3, -⟩ := newInner_eq_ok hs
      exact ⟨hid, h3, config.candidateSecret,
        .start ⟨⟨config, some owner, none, j, hs, rfl⟩, rfl, rfl, rfl, rfl⟩⟩
    · obtain ⟨hid, h3, secret, hr⟩ := ih hm₀
      exact ⟨hid, h3, secret, .next hr ⟨owned_of_managerCall hok hc hm₀, trivial⟩⟩

/-- A manager stays, with every transition it has handed out. -/
theorem managers_mono (hok : Permitted C f op) {m : Manager} {mw : Mobility.World}
    (hm : f.managers j = some (m, mw)) :
    ∃ mw', (f.step C op).managers j = some (m, mw') ∧ (mw' = mw ∨
      ∃ call, f.managerCall C op = some (j, call) ∧ mw' = mw.step C m call) := by
  have hother : ∃ mw', Machine.stepAt (fun x call => (x.1, x.2.step C x.1 call)) f.managers
      (f.managerCall C op) j = some (m, mw') ∧ (mw' = mw ∨
        ∃ call, f.managerCall C op = some (j, call) ∧ mw' = mw.step C m call) := by
    rcases f.managerCall C op with _ | ⟨k, call⟩
    · exact ⟨mw, hm, .inl rfl⟩
    · by_cases hk : j = k
      · subst hk
        exact ⟨mw.step C m call, by simp [Machine.stepAt, hm], .inr ⟨call, rfl, rfl⟩⟩
      · exact ⟨mw, by simp [Machine.stepAt, hk, hm], .inl rfl⟩
  cases op with
  | newManager k config owner =>
    refine ⟨mw, ?_, .inl rfl⟩
    have hk : j ≠ k := by
      rintro rfl
      simp [hok.1] at hm
    cases hs : newInner C config (some owner) none k with
    | error e => simpa only [step, managersAfter, hs] using hm
    | ok r => simpa only [step, managersAfter, hs, Function.update_of_ne hk] using hm
  | _ => exact hother

/-- A prepared commit carries a transition that the manager it names has handed out. -/
theorem Reach.linked (h : Reach C f) {w : World} (hw : f.sessions i = some w)
    {c : MobilityInboundCommit} (hc : c ∈ w.prepared) :
    ∃ m mw p, f.managers c.transition.ownerId = some (m, mw) ∧ p ∈ mw.issued ∧
      p.transition = c.transition := by
  induction h generalizing i w with
  | start h =>
    subst h
    simp [empty] at hw
  | @next f op hr hok ih =>
    have hkeep : (∃ m mw p, f.managers c.transition.ownerId = some (m, mw) ∧ p ∈ mw.issued ∧
        p.transition = c.transition) →
        ∃ m mw p, (f.step C op).managers c.transition.ownerId = some (m, mw) ∧ p ∈ mw.issued ∧
          p.transition = c.transition := by
      rintro ⟨m, mw, p, hm, hp, ht⟩
      obtain ⟨mw', hm', rfl | ⟨call, -, rfl⟩⟩ := managers_mono hok hm
      · exact ⟨m, mw', p, hm', hp, ht⟩
      · exact ⟨m, _, p, hm', List.mem_append_right _ hp, ht⟩
    rcases sessions_step hw with hw | ⟨b, binding, seed, s, -, -, rfl⟩ | ⟨w₀, call, hw₀, hcall, rfl⟩
    · exact hkeep (ih hw hc)
    · simp [World.start] at hc
    · rcases List.mem_append.mp hc with hc | hc
      · have hprep := Option.mem_toList.mp hc
        cases call with
        | prepareMobilityCommit m' ms binding p nowMs =>
          -- Only the operation that also asks the manager can make this call.
          cases op with
          | session k call' =>
            obtain ⟨rfl, rfl⟩ := Prod.mk.inj (Option.some.inj hcall)
            simp [Permitted, Call.alone] at hok
          | prepareMobilityCommit k j binding' p' nowMs' =>
            obtain ⟨⟨m, mw⟩, hm, hx⟩ := Option.map_eq_some_iff.mp hcall
            simp only [Prod.mk.injEq, Call.prepareMobilityCommit.injEq] at hx
            obtain ⟨rfl, rfl, rfl, rfl, rfl, rfl⟩ := hx
            have hprep : (w₀.session.prepareMobilityCommit C w₀.leases m mw.state binding' p'
              nowMs').2.toOption = some c := hprep
            have hmc : f.managerCall C (.prepareMobilityCommit k j binding' p' nowMs') =
                some (j, .previewProfile3 p'.sessionPreview.plaintext binding'
                  p'.sessionPreview.intoReplayProof nowMs') := by
              simp only [managerCall, hw₀, hm, hprep, Option.map_some]
            have ht := prepare_transition hprep
            have hid : c.transition.ownerId = j := by
              rw [← (Reach.manager hr hm).1]
              exact (previewProfile3_owner ht)
            refine ⟨m, mw.step C m (.previewProfile3 p'.sessionPreview.plaintext binding'
              p'.sessionPreview.intoReplayProof nowMs'), ⟨c.transition, binding', nowMs'⟩, ?_, ?_, rfl⟩
            · rw [hid]
              simp [step, managersAfter, hmc, Machine.stepAt, hm]
            · refine List.mem_append_left _ (Option.mem_toList.mpr ?_)
              simp [Mobility.World.previewed, ht, Except.toOption]
          | commitMobility k j c' =>
            obtain ⟨x, -, hx⟩ := Option.map_eq_some_iff.mp hcall
            simp at hx
          | new => simp [sessionCall] at hcall
          | issueOwner => simp [sessionCall] at hcall
          | activate => simp [sessionCall] at hcall
          | newManager => simp [sessionCall] at hcall
          | manager => simp [sessionCall] at hcall
        | _ => simp [World.preparedBy] at hprep
      · exact hkeep (ih hw₀ hc)

end Fleet

end R8.Redundant
