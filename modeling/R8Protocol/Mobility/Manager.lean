import R8Protocol.Mobility.State

/-! The candidate manager: local proposals, preview and commit of controls, expiry and results. -/
namespace R8.Mobility

open FixedWidth Wire Session

inductive Action
  | cacheProposal (proposal : Proposal) (tokens : ℕ) (refillMs : U64)
  | challenge (c : Candidate)
  | existingChallenge (c : Candidate)
  | respond (control : List Byte)
  | commitLocal (epoch : U64) (loc : Loc) (binding : ObservedBinding) (promote : Bool)
      (result : ResultEntry)
  | prove (candidateId : CandidateId) (epoch : U64) (slot : Byte) (graceUntilMs : U64)
      (response : BindResponseIdentity)
  | none
  deriving DecidableEq, Repr

def Action.mutates : Action → Bool
  | .existingChallenge _ | .respond _ | .none => false
  | _ => true

structure Transition where
  generation : U64
  ownerId : ℕ
  action : Action
  protectedProof : Option ProtectedReplayProof
  profile3Proof : Option Profile3ReplayProof
  deriving DecidableEq, Repr

/-- The part of a manager that never changes; its `State` is passed beside it. -/
structure Manager where
  signing : Bytes 32
  localIdentity : Identity
  peerIdentity : Identity
  profile : Byte
  scid : U64
  policyId : U32
  ownerId : ℕ
  protectedReplayBinding : Option ProtectedReplayBinding

structure ManagerConfig where
  signing : Bytes 32
  localIdentity : Identity
  peerIdentity : Identity
  profile : Byte
  scid : U64
  policyId : U32
  localLoc : Loc
  peerLoc : Loc
  initialPeerBinding : ObservedBinding
  candidateSecret : Bytes 32

def initialState (c : ManagerConfig) (owner : Option Profile3AdmissionOwner) : State where
  generation := 0
  closed := false
  localEpoch := 0
  peerEpoch := 0
  localLoc := c.localLoc
  peerLoc := c.peerLoc
  currentBinding := c.initialPeerBinding
  oldBinding := none
  proposals := []
  candidates := []
  results := []
  proposalTokens := 2
  proposalRefillMs := 0
  candidateSecret := some c.candidateSecret
  frozenCohort := none
  outbound := []
  emittedResults := []
  profile3Slot1Admitted := false
  profile3Admission := none
  profile3Owner := owner
  tombstones := []

/-- `ownerId` is the next value of the global owner counter. -/
def newInner (C : Crypto) (c : ManagerConfig) (owner : Option Profile3AdmissionOwner)
    (replayBinding : Option ProtectedReplayBinding) (ownerId : ℕ) :
    Except MobilityError (Manager × State) :=
  if 3 < c.profile ∨ c.scid = 0 ∨ c.localIdentity.validate C ≠ .ok () ∨
      c.peerIdentity.validate C ≠ .ok () ∨ ¬ c.initialPeerBinding.Valid ∨
      c.localIdentity.role = c.peerIdentity.role ∨
      C.verifyingKey c.signing ≠ c.localIdentity.publicKey ∨
      (c.profile = 3 ∧ ¬ owner.any fun o => o.scid = c.scid ∧ o.policyId = c.policyId) ∨
      (c.profile ≠ 3 ∧ owner.isSome) ∨ (c.profile ≠ 3 ∧ replayBinding.isNone) ∨
      (c.profile = 3 ∧ replayBinding.isSome) then .error .candidate
  else .ok (⟨c.signing, c.localIdentity, c.peerIdentity, c.profile, c.scid, c.policyId, ownerId,
    replayBinding⟩, initialState c owner)

namespace Manager

def sending (m : Manager) : MobilityContext :=
  ⟨m.profile, m.scid, m.localIdentity, m.peerIdentity, m.policyId⟩

def receiving (m : Manager) : MobilityContext :=
  ⟨m.profile, m.scid, m.peerIdentity, m.localIdentity, m.policyId⟩

/-- Once slot one is admitted a profile-3 manager takes no further control. -/
def spent (m : Manager) (s : State) : Bool := m.profile = 3 ∧ s.profile3Slot1Admitted

def proposeLocal (C : Crypto) (m : Manager) (s : State) (candidateId : CandidateId) (newLoc : Loc)
    (epoch : U64) (pathSlot : Byte) (nowMs : U64) : State × Except MobilityError Control :=
  if s.closed ∨ candidateId = zeros 16 ∨ epoch ≤ s.localEpoch ∨
      ¬ profileAllowsSlot m.profile pathSlot ∨ m.spent s ∨ s.isTombstoned candidateId nowMs then
    (s, .error .candidate)
  else
    let update := signLocUpdate C m.signing m.sending ⟨candidateId, s.localLoc, newLoc, epoch,
      pathSlot⟩
    match s.outbound.find? (·.candidateId = candidateId) with
    | some existing =>
      if existing.loc = newLoc ∧ existing.epoch = epoch ∧ existing.slot = pathSlot then (s, update)
      else (s, .error .candidate)
    | none =>
      if s.outbound.length = PROPOSAL_SLOTS then (s, .error .capacity)
      else
        match update with
        | .error e => (s, .error e)
        | .ok update =>
          let s := { s with
            outbound := s.outbound ++ [⟨candidateId, newLoc, epoch, pathSlot, none,
              satAdd nowMs 5000⟩] }
          match checkedAdd s.generation 1 with
          | none => (s, .error .replay)
          | some generation => ({ s with generation }, .ok update)

def makeProbe (m : Manager) (s : State) (candidateId : CandidateId) (carrier : ObservedBinding)
    (probeNonce : Bytes 16) (nowMs : U64) : State × Except MobilityError Control :=
  if ¬ carrier.Valid then (s, .error .candidate)
  else if s.closed ∨ m.spent s then (s, .error .candidate)
  else
    match s.outbound.find? (·.candidateId = candidateId) with
    | none => (s, .error .candidate)
    | some c =>
      if c.expiryMs ≤ nowMs then (s, .error .candidate)
      else
        let probe := Control.bindProbe c.candidateId c.loc c.epoch c.slot probeNonce
        match c.binding with
        | some binding => if binding ≠ carrier then (s, .error .candidate) else (s, .ok probe)
        | none =>
          ({ s with
            outbound := Lists.modifyFirst (·.candidateId = candidateId)
              (fun c => { c with binding := some carrier }) s.outbound }, .ok probe)

/-- The bucket after refilling for every full second since the last refill. -/
def refilled (s : State) (nowMs : U64) : ℕ × U64 :=
  let elapsed := (satSub nowMs s.proposalRefillMs).val / 1000
  (min (s.proposalTokens + elapsed) 2, satAdd s.proposalRefillMs (elapsed * 1000))

def previewLocUpdate (C : Crypto) (m : Manager) (s : State) (nowMs : U64) (control : Control)
    (candidateId : CandidateId) (oldLoc newLoc : Loc) (epoch : U64) (pathSlot : Byte) :
    Except MobilityError Action := do
  verifyLocUpdate C control m.receiving
  if oldLoc ≠ s.peerLoc ∨ epoch ≤ s.peerEpoch ∨ m.spent s then .error .candidate
  else
    match s.proposals.find? (·.candidateId = candidateId) with
    | some proposal => if proposal.bytes = control.encode then .ok .none else .error .candidate
    | none =>
      if s.frozenCohort.any (fun cohort => epoch ≤ cohort.1) ∨ s.hasCandidate candidateId ∨
          s.outbound.any (·.candidateId = candidateId) ∨
          s.results.any (·.candidateId = candidateId) ∨ s.isTombstoned candidateId nowMs then
        .error .candidate
      else if s.emittedResults ≠ [] then .error .capacity
      else if s.proposals.length = PROPOSAL_SLOTS ∨
          RESULT_CACHE_SLOTS ≤ s.results.length + s.proposals.length then .error .capacity
      else if (refilled s nowMs).1 = 0 then .error .candidate
      else .ok (.cacheProposal
        ⟨control.encode, candidateId, newLoc, epoch, pathSlot, satAdd nowMs 5000⟩
        ((refilled s nowMs).1 - 1) (refilled s nowMs).2)

/-- The record a probe or a response is matched against, observed binding included. -/
def findRecord (s : State) (candidateId : CandidateId) (loc : Loc) (epoch : U64) (pathSlot : Byte)
    (binding : ObservedBinding) : Option Candidate :=
  s.candidates.find? fun c => c.candidateId = candidateId ∧ c.loc = loc ∧ c.epoch = epoch ∧
    c.slot = pathSlot ∧ c.binding = binding

def previewBindProbe (s : State) (binding : ObservedBinding) (nowMs : U64)
    (candidateId : CandidateId) (loc : Loc) (epoch : U64) (pathSlot : Byte) :
    Except MobilityError Action :=
  match s.proposals.find? fun p => p.candidateId = candidateId ∧ p.loc = loc ∧ p.epoch = epoch ∧
      p.slot = pathSlot ∧ nowMs < p.expiryMs with
  | none => .error .candidate
  | some p =>
    match findRecord s candidateId loc epoch pathSlot binding with
    | some c => if c.state = .challenged then .ok (.existingChallenge c) else .error .candidate
    | none =>
      if s.candidates.length = LIVE_CANDIDATES_MAX ∨
          1 + (if s.oldBinding.isSome then 1 else 0) = LIVE_CANDIDATES_MAX then .error .capacity
      else .ok (.challenge ⟨p.candidateId, p.loc, p.epoch, p.slot, binding,
        satAdd nowMs CHALLENGE_EXPIRY_MS, none, .challenged⟩)

def cachedResult (s : State) (candidateId : CandidateId) (epoch : U64) (pathSlot : Byte)
    (nowMs : U64) : Option ResultEntry :=
  s.results.find? fun r => r.candidateId = candidateId ∧ r.epoch = epoch ∧ r.slot = pathSlot ∧
    nowMs < r.expiryMs

/-- The greatest cached epoch. -/
def greatestEpoch (s : State) : Option U64 := (s.proposals.map (·.epoch)).max?

def proposalsOf (s : State) (epoch : U64) : List Proposal := s.proposals.filter (·.epoch = epoch)

/-- The cohort whose results a proof may have to store. -/
def prospectiveMembers (s : State) (greatest : U64) : List Proposal :=
  match s.frozenCohort with
  | some (epoch, members) => if epoch = greatest then members else proposalsOf s greatest
  | none => proposalsOf s greatest

def previewBindResponse (C : Crypto) (m : Manager) (s : State) (binding : ObservedBinding)
    (nowMs : U64) (candidateId : CandidateId) (loc : Loc) (epoch : U64) (pathSlot : Byte)
    (expiryMs : U64) (supplied : Bytes 32) : Except MobilityError Action :=
  let response : BindResponseIdentity := ⟨loc, binding, expiryMs, supplied⟩
  match cachedResult s candidateId epoch pathSlot nowMs with
  | some result =>
    if result.response = some response then .ok (.respond result.bytes) else .error .candidate
  | none =>
    match findRecord s candidateId loc epoch pathSlot binding with
    | none => .error .candidate
    | some c =>
      if c.state ≠ .challenged then .error .candidate
      else if c.expiryMs ≤ nowMs ∨ expiryMs ≠ c.expiryMs then .error .timeout
      else
        match s.candidateSecret with
        | none => .error .candidate
        | some secret => do
          let expected ← token C secret m.receiving
            ⟨candidateId, loc, binding, epoch, pathSlot, expiryMs⟩
          if expected ≠ supplied then .error .candidate
          else
            match greatestEpoch s with
            | none => .error .candidate
            | some greatest =>
              if s.frozenCohort = none ∧ epoch = greatest ∧
                  RESULT_CACHE_SLOTS < s.results.length + (prospectiveMembers s greatest).length
              then .error .capacity
              else .ok (.prove candidateId epoch pathSlot nowMs response)

def findOutbound (s : State) (binding : ObservedBinding) (nowMs : U64) (candidateId : CandidateId)
    (epoch : U64) (pathSlot : Byte) : Option OutboundCandidate :=
  s.outbound.find? fun c => c.candidateId = candidateId ∧ c.epoch = epoch ∧ c.slot = pathSlot ∧
    c.binding = some binding ∧ nowMs < c.expiryMs

def previewBindChallenge (s : State) (binding : ObservedBinding) (nowMs : U64)
    (candidateId : CandidateId) (loc : Loc) (epoch : U64) (pathSlot : Byte) (expiryMs : U64)
    (token : Bytes 32) : Except MobilityError Action :=
  match s.outbound.find? fun c => c.candidateId = candidateId ∧ c.loc = loc ∧ c.epoch = epoch ∧
      c.slot = pathSlot ∧ c.binding = some binding ∧ nowMs < c.expiryMs with
  | none => .error .candidate
  | some c => .ok (.respond
      (Control.bindResponse c.candidateId c.loc c.epoch c.slot expiryMs token).encode)

def previewCandidateResult (s : State) (binding : ObservedBinding) (nowMs : U64)
    (control : Control) (candidateId : CandidateId) (epoch : U64) (pathSlot : Byte)
    (result : Byte) : Except MobilityError Action :=
  match cachedResult s candidateId epoch pathSlot nowMs with
  | some entry =>
    if entry.origin = .received ∧ entry.bytes = control.encode ∧
        entry.receivedBinding = some binding then .ok .none
    else .error .candidate
  | none =>
    match findOutbound s binding nowMs candidateId epoch pathSlot with
    | none => .error .candidate
    | some c =>
      if RESULT_CACHE_SLOTS ≤ s.results.length + s.frozenSlots then .error .capacity
      else .ok (.commitLocal c.epoch c.loc binding (result = 1)
        ⟨candidateId, epoch, pathSlot, control.encode, satAdd nowMs 10000, none, .received,
          some binding⟩)

def previewControl (C : Crypto) (m : Manager) (s : State) (binding : ObservedBinding)
    (nowMs : U64) (control : Control) : Except MobilityError Action :=
  match control with
  | .locUpdate id oldLoc newLoc epoch _ _ slot _ =>
    previewLocUpdate C m s nowMs control id oldLoc newLoc epoch slot
  | .bindProbe id loc epoch slot _ => previewBindProbe s binding nowMs id loc epoch slot
  | .bindResponse id loc epoch slot expiryMs supplied =>
    previewBindResponse C m s binding nowMs id loc epoch slot expiryMs supplied
  | .bindChallenge id loc epoch slot expiryMs token =>
    previewBindChallenge s binding nowMs id loc epoch slot expiryMs token
  | .candidateResult id epoch slot result =>
    previewCandidateResult s binding nowMs control id epoch slot result

def previewInner (C : Crypto) (m : Manager) (s : State) (plaintext : List Byte)
    (binding : ObservedBinding) (nowMs : U64) (protectedProof : Option ProtectedReplayProof)
    (profile3Proof : Option Profile3ReplayProof) : Except MobilityError Transition :=
  if ¬ binding.Valid then .error .candidate
  else do
    let control ← Control.parse plaintext
    if ¬ profileAllowsSlot m.profile control.pathSlot then .error .candidate
    else if s.closed ∨ s.generation = u64Max ∨ m.spent s then .error .candidate
    else
      let action ← previewControl C m s binding nowMs control
      .ok ⟨s.generation, m.ownerId, action, protectedProof, profile3Proof⟩

def previewProtected (C : Crypto) (m : Manager) (s : State) (plaintext : List Byte)
    (binding : ObservedBinding) (proof : ProtectedReplayProof) (live : ℕ → Bool) (nowMs : U64) :
    Except MobilityError Transition :=
  if m.profile = 3 ∨ ¬ proof.matchesPlaintext live plaintext ∨
      ¬ m.protectedReplayBinding.any fun b => b.matchesProof proof then .error .replay
  else previewInner C m s plaintext binding nowMs (some proof) none

def previewProfile3 (C : Crypto) (m : Manager) (s : State) (plaintext : List Byte)
    (binding : ObservedBinding) (proof : Profile3ReplayProof) (nowMs : U64) :
    Except MobilityError Transition :=
  if m.profile ≠ 3 ∨ ¬ proof.matchesPlaintext plaintext then .error .candidate
  else if ¬ s.profile3Owner.any fun owner => owner.replayBinding.matchesProof proof then
    .error .replay
  else previewInner C m s plaintext binding nowMs none (some proof)

def responseFor (C : Crypto) (m : Manager) (s : State) (t : Transition) :
    Except MobilityError (Option Control) :=
  if s.closed ∨ t.ownerId ≠ m.ownerId ∨ s.generation ≠ t.generation then .error .replay
  else
    match t.action with
    | .challenge c | .existingChallenge c =>
      match s.candidateSecret with
      | none => .error .candidate
      | some secret => do
        let token ← token C secret m.receiving
          ⟨c.candidateId, c.loc, c.binding, c.epoch, c.slot, c.expiryMs⟩
        .ok (some (.bindChallenge c.candidateId c.loc c.epoch c.slot c.expiryMs token))
    | .respond control => do
      let control ← Control.parse control
      .ok (some control)
    | _ => .ok none

def clearProfile3 (s : State) : State :=
  { s with
    proposals := []
    candidates := []
    outbound := []
    results := []
    frozenCohort := none
    candidateSecret := none }

def promoteLocal (m : Manager) (s : State) (epoch : U64) (loc : Loc) (binding : ObservedBinding)
    (graceUntilMs : U64) : State :=
  if m.profile = 3 then
    let s := s.admitProfile3 m.scid binding loc s.peerLoc epoch
    if s.profile3Slot1Admitted then clearProfile3 s else s
  else
    { s with
      localEpoch := epoch
      localLoc := loc
      oldBinding := some (s.currentBinding, graceUntilMs)
      currentBinding := binding }

def commitLocal (m : Manager) (s : State) (epoch : U64) (loc : Loc) (binding : ObservedBinding)
    (promote : Bool) (result : ResultEntry) : State :=
  let s := { s with results := s.results ++ [result] }
  if promote then
    let s := promoteLocal m s epoch loc binding result.expiryMs
    { s with outbound := s.outbound.filter fun c => epoch < c.epoch }
  else { s with outbound := s.outbound.filter fun c => c.candidateId ≠ result.candidateId }

/-- The record found by id, epoch and slot becomes proven, and the first proof of the greatest
epoch freezes its cohort. -/
def markProven (s : State) (candidateId : CandidateId) (epoch : U64) (slot : Byte)
    (response : BindResponseIdentity) : State :=
  let s := { s with
    candidates := Lists.modifyFirst
      (fun c => c.candidateId = candidateId ∧ c.epoch = epoch ∧ c.slot = slot)
      (fun c => { c with state := .proven, response := some response }) s.candidates }
  if s.frozenCohort = none ∧ greatestEpoch s = some epoch then
    { s with frozenCohort := some (epoch, proposalsOf s epoch) }
  else s

def applyAction (m : Manager) (s : State) : Action → State
  | .cacheProposal proposal tokens refillMs =>
    { s with
      proposalTokens := tokens
      proposalRefillMs := refillMs
      proposals := s.proposals ++ [proposal] }
  | .challenge c => { s with candidates := s.candidates ++ [c] }
  | .commitLocal epoch loc binding promote result =>
    commitLocal m s epoch loc binding promote result
  | .prove candidateId epoch slot graceUntilMs response =>
    ((markProven s candidateId epoch slot response).settleFrozenCohort m.profile m.scid
      graceUntilMs).1
  | .existingChallenge _ | .respond _ | .none => s

def applyAfterReplay (m : Manager) (s : State) (t : Transition) :
    State × Except MobilityError Unit :=
  if t.action.mutates then
    match checkedAdd s.generation 1 with
    | none => (s, .error .replay)
    | some generation => ({ applyAction m s t.action with generation }, .ok ())
  else (applyAction m s t.action, .ok ())

/-- `commit` is the caller's replay commit of the proof, against whatever session it holds. -/
def commitProtectedReplay (m : Manager) (s : State) (t : Transition)
    (commit : ProtectedReplayProof → ProtectedReplayProof × Except MobilityError Unit) :
    State × Except MobilityError Unit :=
  if m.profile = 3 ∨ t.ownerId ≠ m.ownerId then (s, .error .replay)
  else
    match t.protectedProof with
    | none => (s, .error .replay)
    | some proof =>
      if s.closed ∨ s.generation ≠ t.generation then (s, .error .replay)
      else
        match commit proof with
        | (_, .error e) => (s, .error e)
        | (proof, .ok ()) =>
          if ¬ proof.committed then (s, .error .replay)
          else applyAfterReplay m s { t with protectedProof := none }

def commitProfile3 (m : Manager) (s : State) (t : Transition)
    (commit : Profile3ReplayProof → Profile3ReplayProof × Except MobilityError Unit) :
    State × Except MobilityError Unit :=
  if m.profile ≠ 3 ∨ t.ownerId ≠ m.ownerId then (s, .error .replay)
  else
    match t.profile3Proof with
    | none => (s, .error .replay)
    | some proof =>
      if s.closed ∨ s.generation ≠ t.generation then (s, .error .replay)
      else
        match commit proof with
        | (_, .error e) => (s, .error e)
        | (proof, .ok ()) =>
          if ¬ proof.committed then (s, .error .replay)
          else applyAfterReplay m s { t with profile3Proof := none }

end Manager

namespace State

/-- Everything `close` erases. The locations, the epochs and the current binding stay readable. -/
def wipe (s : State) : State :=
  { s with
    closed := true
    proposals := []
    candidates := []
    results := []
    outbound := []
    emittedResults := []
    profile3Admission := none
    profile3Owner := none
    oldBinding := none
    frozenCohort := none
    candidateSecret := none
    tombstones := [] }

def close (s : State) : State := { s.wipe with generation := satAdd s.generation 1 }

def timeOut (c : Candidate) : Candidate := { c with state := .failed, response := none }

/-- Open challenges past their expiry fail. -/
def failChallenged (s : State) (nowMs : U64) : State :=
  { s with
    candidates := s.candidates.map fun c =>
      if c.expiryMs ≤ nowMs ∧ c.state = .challenged then timeOut c else c }

/-- One pass of the loop over the members frozen when expiry began. -/
def expireMember (nowMs : U64) (s : State) (p : Proposal) : State :=
  if p.expiryMs ≤ nowMs then
    let failed :=
      match s.candidates.find? (·.candidateId = p.candidateId) with
      | some c =>
        if ¬ c.state.terminal then
          { s with
            candidates := Lists.modifyFirst (·.candidateId = p.candidateId) timeOut s.candidates }
        else s
      | none => s
    failed.recordTombstone p.candidateId nowMs
  else s

/-- Whether that pass sets `changed`. -/
def memberChanges (nowMs : U64) (s : State) (p : Proposal) : Bool :=
  decide (p.expiryMs ≤ nowMs) &&
    match s.candidates.find? (·.candidateId = p.candidateId) with
    | some c => !c.state.terminal
    | none => true

def expireMembers (s : State) (nowMs : U64) (members : List Proposal) : State :=
  members.foldl (expireMember nowMs) s

def membersChange (nowMs : U64) : State → List Proposal → Bool
  | _, [] => false
  | s, p :: ps => memberChanges nowMs s p || membersChange nowMs (expireMember nowMs s p) ps

/-- The state in which `expire` first tries to settle. -/
def expireMark (s : State) (nowMs : U64) : State :=
  (s.failChallenged nowMs).expireMembers nowMs s.frozenMembers

def dropResults (s : State) (nowMs : U64) : State :=
  { s with results := s.results.filter fun r => nowMs < r.expiryMs }

/-- Proposals of failed candidates outside the cohort, which are owed a result of their own. -/
def timeoutFailures (s : State) (frozen : List Proposal) : List Proposal :=
  (s.candidates.filter fun c => c.state = .failed ∧
      ¬ frozen.any (·.candidateId = c.candidateId)).filterMap fun c =>
    s.proposals.find? (·.candidateId = c.candidateId)

def emitTimeout (nowMs : U64) (s : State) (p : Proposal) : State :=
  if RESULT_CACHE_SLOTS ≤ s.results.length ∨ RESULT_CACHE_SLOTS ≤ s.emittedResults.length ∨
      s.results.any (·.candidateId = p.candidateId) then s
  else
    let result := resultEntry p 3 nowMs none
    { s with
      emittedResults := s.emittedResults ++ [result.bytes]
      results := s.results ++ [result] }

def emitTimeouts (s : State) (nowMs : U64) (frozen : List Proposal) : State :=
  (s.timeoutFailures frozen).foldl (emitTimeout nowMs) s

def expiredIds (s : State) (nowMs : U64) : List CandidateId :=
  (s.proposals.filter fun p => p.expiryMs ≤ nowMs).map (·.candidateId) ++
    (s.outbound.filter fun c => c.expiryMs ≤ nowMs).map (·.candidateId)

def buryExpired (s : State) (nowMs : U64) : State :=
  let s := (s.expiredIds nowMs).foldl (fun s id => s.recordTombstone id nowMs) s
  { s with tombstones := s.tombstones.filter fun t => nowMs < t.2 }

def dropProposals (s : State) (nowMs : U64) : State :=
  { s with proposals := s.proposals.filter fun p => nowMs < p.expiryMs }

def dropEmptyCohort (s : State) : State :=
  match s.frozenCohort with
  | some (epoch, _) =>
    if s.proposals.any (·.epoch = epoch) then s else { s with frozenCohort := none }
  | none => s

/-- The greatest epoch that has a cached proposal with a proven record. -/
def provenEpoch (s : State) : Option U64 :=
  ((s.proposals.filter fun p => s.isProven p.candidateId).map (·.epoch)).max?

def refreeze (s : State) : State :=
  match s.frozenCohort, s.provenEpoch with
  | none, some epoch => { s with frozenCohort := some (epoch, Manager.proposalsOf s epoch) }
  | _, _ => s

def dropFailed (s : State) (frozen : List Proposal) : State :=
  { s with
    candidates := s.candidates.filter fun c =>
      c.state ≠ .failed ∨ frozen.any (·.candidateId = c.candidateId) }

def dropOutbound (s : State) (nowMs : U64) : State :=
  { s with outbound := s.outbound.filter fun c => nowMs < c.expiryMs }

def dropOldBinding (s : State) (nowMs : U64) : State :=
  if s.oldBinding.any (fun o => o.2 ≤ nowMs) then { s with oldBinding := none } else s

/-- Between the two settlements: drop what has expired, emit timeouts, freeze again. -/
def expireSweep (s : State) (nowMs : U64) (frozen : List Proposal) : State :=
  (((((((s.dropResults nowMs).emitTimeouts nowMs frozen).buryExpired nowMs).dropProposals
    nowMs).dropEmptyCohort.refreeze).dropFailed frozen).dropOutbound nowMs).dropOldBinding nowMs

/-- Whether the sweep sets `changed`, read at the points where the source does. -/
def sweepChanges (s : State) (nowMs : U64) (frozen : List Proposal) : Bool :=
  let s₁ := s.dropResults nowMs
  let s₂ := s₁.emitTimeouts nowMs frozen
  let s₃ := (s₂.buryExpired nowMs).dropProposals nowMs
  let s₄ := s₃.dropEmptyCohort
  let s₅ := s₄.refreeze
  let s₆ := s₅.dropFailed frozen
  s₁.results.length ≠ s.results.length ∨ s₂.results.length ≠ s₁.results.length ∨
    s₃.proposals.length ≠ s₂.proposals.length ∨
    s₄.frozenCohort ≠ s₃.frozenCohort ∨ s₅.frozenCohort ≠ s₄.frozenCohort ∨
    s₆.candidates.length ≠ s₅.candidates.length ∨
    (s₆.dropOutbound nowMs).outbound.length ≠ s₆.outbound.length ∨
    s₆.oldBinding.any (fun o => o.2 ≤ nowMs)

/-- The state in which `expire` tries to settle for the second time. -/
def expireBeforeSettle (m : Manager) (s : State) (nowMs : U64) : State :=
  ((s.expireMark nowMs).settleFrozenCohort m.profile m.scid nowMs).1.expireSweep nowMs
    s.frozenMembers

def expireChanges (m : Manager) (s : State) (nowMs : U64) : Bool :=
  let settled := (s.expireMark nowMs).settleFrozenCohort m.profile m.scid nowMs
  s.candidates.any (fun c => c.expiryMs ≤ nowMs ∧ c.state = .challenged) ||
    membersChange nowMs (s.failChallenged nowMs) s.frozenMembers || settled.2 ||
    settled.1.sweepChanges nowMs s.frozenMembers ||
    ((s.expireBeforeSettle m nowMs).settleFrozenCohort m.profile m.scid nowMs).2

/-- Without a free generation the manager closes instead of reusing one. -/
def bumpGeneration (s : State) : State :=
  match checkedAdd s.generation 1 with
  | some generation => { s with generation }
  | none => s.wipe

def expire (m : Manager) (s : State) (nowMs : U64) : State :=
  if s.closed then s
  else
    let settled := ((s.expireBeforeSettle m nowMs).settleFrozenCohort m.profile m.scid nowMs).1
    if s.expireChanges m nowMs then settled.bumpGeneration else settled

def bindingAllowedInbound (s : State) (binding : ObservedBinding) (nowMs : U64) : Bool :=
  binding.Valid ∧ (binding = s.currentBinding ∨
    s.oldBinding.any fun o => binding = o.1 ∧ nowMs < o.2)

def takeResults (s : State) : State × List Control :=
  ({ s with emittedResults := [] }, s.emittedResults.filterMap fun b => (Control.parse b).toOption)

def takeProfile3Admissions (s : State) : State × List Profile3Admission :=
  if s.emittedResults ≠ [] then (s, [])
  else ({ s with profile3Admission := none }, s.profile3Admission.toList)

end State

end R8.Mobility
