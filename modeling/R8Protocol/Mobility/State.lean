import R8Protocol.Mobility.Control
import R8Protocol.Lib.Lists

/-! The state of a candidate manager and the settlement of its frozen cohort. -/
namespace R8.Mobility

open FixedWidth Wire Session

def LIVE_CANDIDATES_MAX : ℕ := 2

def PROPOSAL_SLOTS : ℕ := 2

def RESULT_CACHE_SLOTS : ℕ := 2

def CHALLENGE_EXPIRY_MS : ℕ := 3000

def OLD_BINDING_GRACE_MS : ℕ := 10000

structure Proposal where
  bytes : List Byte
  candidateId : CandidateId
  loc : Loc
  epoch : U64
  slot : Byte
  expiryMs : U64
  deriving DecidableEq, Repr

inductive CandidateState
  | challenged | proven | failed | promoted
  deriving DecidableEq, Repr

/-- Neither state can change before settlement. -/
def CandidateState.terminal (s : CandidateState) : Bool := s = .proven ∨ s = .failed

structure BindResponseIdentity where
  loc : Loc
  binding : ObservedBinding
  expiryMs : U64
  token : Bytes 32
  deriving DecidableEq, Repr

structure Candidate where
  candidateId : CandidateId
  loc : Loc
  epoch : U64
  slot : Byte
  binding : ObservedBinding
  expiryMs : U64
  response : Option BindResponseIdentity
  state : CandidateState
  deriving DecidableEq, Repr

inductive ResultOrigin
  | emitted | received
  deriving DecidableEq, Repr

structure ResultEntry where
  candidateId : CandidateId
  epoch : U64
  slot : Byte
  bytes : List Byte
  expiryMs : U64
  response : Option BindResponseIdentity
  origin : ResultOrigin
  receivedBinding : Option ObservedBinding
  deriving DecidableEq, Repr

structure OutboundCandidate where
  candidateId : CandidateId
  loc : Loc
  epoch : U64
  slot : Byte
  binding : Option ObservedBinding
  expiryMs : U64
  deriving DecidableEq, Repr

/-- `capability` is the identity of the shared allocation the issuer compares by pointer. -/
structure Profile3AdmissionOwner where
  scid : U64
  policyId : U32
  replayBinding : Profile3ReplayBinding
  capability : ℕ
  deriving DecidableEq, Repr

structure Profile3Admission where
  owner : Profile3AdmissionOwner
  scid : U64
  policyId : U32
  binding : ObservedBinding
  localLoc : Loc
  peerLoc : Loc
  epoch : U64
  deriving DecidableEq, Repr

structure State where
  generation : U64
  closed : Bool
  localEpoch : U64
  peerEpoch : U64
  localLoc : Loc
  peerLoc : Loc
  currentBinding : ObservedBinding
  oldBinding : Option (ObservedBinding × U64)
  proposals : List Proposal
  candidates : List Candidate
  results : List ResultEntry
  proposalTokens : ℕ
  proposalRefillMs : U64
  candidateSecret : Option (Bytes 32)
  frozenCohort : Option (U64 × List Proposal)
  outbound : List OutboundCandidate
  emittedResults : List (List Byte)
  profile3Slot1Admitted : Bool
  profile3Admission : Option Profile3Admission
  profile3Owner : Option Profile3AdmissionOwner
  tombstones : List (CandidateId × U64)
  deriving DecidableEq, Repr

namespace State

def frozenSlots (s : State) : ℕ :=
  match s.frozenCohort with
  | none => 0
  | some (_, members) => members.length

def frozenMembers (s : State) : List Proposal :=
  match s.frozenCohort with
  | none => []
  | some (_, members) => members

def recordTombstone (s : State) (candidateId : CandidateId) (nowMs : U64) : State :=
  if s.tombstones.any (·.1 = candidateId) then s
  else
    let kept := if s.tombstones.length = RESULT_CACHE_SLOTS then s.tombstones.tail else s.tombstones
    { s with tombstones := kept ++ [(candidateId, satAdd nowMs 10000)] }

def isTombstoned (s : State) (candidateId : CandidateId) (nowMs : U64) : Bool :=
  s.tombstones.any fun t => t.1 = candidateId ∧ nowMs < t.2

end State

def resultEntry (p : Proposal) (result : Byte) (nowMs : U64)
    (response : Option BindResponseIdentity) : ResultEntry where
  candidateId := p.candidateId
  epoch := p.epoch
  slot := p.slot
  bytes := (Control.candidateResult p.candidateId p.epoch p.slot result).encode
  expiryMs := satAdd nowMs 10000
  response := response
  origin := .emitted
  receivedBinding := none

namespace State

def hasProposal (s : State) (id : CandidateId) : Bool := s.proposals.any (·.candidateId = id)

def hasCandidate (s : State) (id : CandidateId) : Bool := s.candidates.any (·.candidateId = id)

/-- Some record of the id is proven. -/
def isProven (s : State) (id : CandidateId) : Bool :=
  s.candidates.any fun c => c.candidateId = id ∧ c.state = .proven

/-- A member still cached has a record that is neither proven nor failed. -/
def cohortWaits (s : State) (members : List Proposal) : Bool :=
  members.any fun p => s.hasProposal p.candidateId ∧
    s.candidates.any fun c => c.candidateId = p.candidateId ∧ ¬ c.state.terminal

def cohortWinner (s : State) (members : List Proposal) : Option CandidateId :=
  (((members.filter fun p => s.isProven p.candidateId).map (·.candidateId)).insertionSort
    (· ≤ ·)).head?

def cohortResult (s : State) (winner : Option CandidateId) (p : Proposal) : Byte :=
  match winner with
  | some id =>
    if id = p.candidateId then 1 else if s.hasCandidate p.candidateId then 2 else 3
  | none => 3

def cohortOutcome (s : State) (winner : Option CandidateId) (nowMs : U64) (p : Proposal) :
    ResultEntry :=
  resultEntry p (s.cohortResult winner p) nowMs
    ((s.candidates.find? (·.candidateId = p.candidateId)).bind (·.response))

/-- Mints the one admission of a profile-3 manager from its owner. -/
def admitProfile3 (s : State) (scid : U64) (binding : ObservedBinding) (localLoc peerLoc : Loc)
    (epoch : U64) : State :=
  if s.profile3Slot1Admitted then s
  else
    match s.profile3Owner with
    | none => s
    | some owner =>
      { s with
        profile3Owner := none
        profile3Admission := some ⟨owner, scid, owner.policyId, binding, localLoc, peerLoc, epoch⟩
        profile3Slot1Admitted := true }

def promotePeer (s : State) (c : Candidate) (epoch nowMs : U64) : State :=
  { s with
    peerEpoch := epoch
    peerLoc := c.loc
    oldBinding := some (s.currentBinding, satAdd nowMs OLD_BINDING_GRACE_MS)
    currentBinding := c.binding }

def markCohort (s : State) (winner : CandidateId) (epoch : U64) : State :=
  { s with
    candidates := s.candidates.map fun c =>
      if c.epoch = epoch then
        { c with state := if c.candidateId = winner then .promoted else .failed }
      else c }

/-- The end of every settlement but an admitting one. -/
def finishCohort (s : State) (epoch : U64) (outcomes : List ResultEntry) : State :=
  { s with
    emittedResults := s.emittedResults ++ outcomes.map (·.bytes)
    results := s.results ++ outcomes
    proposals := s.proposals.filter fun p => epoch < p.epoch
    candidates := s.candidates.filter fun c => epoch < c.epoch
    frozenCohort := none }

def finishAdmission (s : State) (outcomes : List ResultEntry) : State :=
  { s with
    emittedResults := outcomes.map (·.bytes)
    results := []
    proposals := []
    candidates := []
    outbound := []
    frozenCohort := none
    candidateSecret := none }

/-- Installs the winner's record and closes the cohort. -/
def promote (s : State) (profile : Byte) (scid : U64) (nowMs epoch : U64) (c : Candidate)
    (outcomes : List ResultEntry) : State :=
  if profile = 3 then
    let s := s.admitProfile3 scid c.binding s.localLoc c.loc epoch
    if s.profile3Slot1Admitted then s.finishAdmission outcomes
    else (s.markCohort c.candidateId epoch).finishCohort epoch outcomes
  else ((s.promotePeer c epoch nowMs).markCohort c.candidateId epoch).finishCohort epoch outcomes

def settleFrozenCohort (s : State) (profile : Byte) (scid : U64) (nowMs : U64) : State × Bool :=
  match s.frozenCohort with
  | none => (s, false)
  | some (epoch, members) =>
    if s.cohortWaits members then (s, false)
    else if RESULT_CACHE_SLOTS < s.emittedResults.length + members.length then (s, false)
    else
      let winner := s.cohortWinner members
      let outcomes := members.map (s.cohortOutcome winner nowMs)
      match winner with
      | none => (s.finishCohort epoch outcomes, true)
      | some id =>
        match s.candidates.find? (·.candidateId = id) with
        -- The `expect` of the source: a winner has a record, see `find_of_cohortWinner`.
        | none => (s, false)
        | some c => (s.promote profile scid nowMs epoch c outcomes, true)

end State

end R8.Mobility
