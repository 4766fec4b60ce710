import R8Protocol.Mobility.Manager
import R8Protocol.Redundant.Window
import R8Protocol.Session.Bootstrap

/-! The two-slot delivery state of profile 3: paths, sending on both, and receipt in a preview and a
commit. -/
namespace R8.Redundant

open FixedWidth Wire Session Mobility

def OVERHEAD : ℕ := 84

def QUEUE_PACKETS : ℕ := 256

def QUEUE_BYTES : ℕ := 256 * 1024

def DEDUP_IDS : ℕ := 4096

def DEDUP_LIFETIME_MS : ℕ := 30000

def DELIVERY_GAP : ℕ := 65536

def EVENTS : ℕ := 64

inductive PathState
  | absent | candidate | validated | active | degraded | removed | released
  deriving DecidableEq, Repr

inductive SessionState
  | active | released
  deriving DecidableEq, Repr

inductive RedundantError
  | profileInvalid | admissionInvalid | pathUnavailable | bindingMismatch | mtuExceeded
  | queueOverflow | counterExhausted | deliveryExhausted | authFailed | replay | deliveryGap
  | dedupCapacity | divergentDelivery | pathFailure | released
  deriving DecidableEq, Repr

inductive RedundantEvent
  | initialDegraded | recovered | queueOverflow | divergence | degraded | released
  deriving DecidableEq, Repr

inductive ReceiveDecision
  | new | equal
  deriving DecidableEq, Repr

inductive ReceiveOutcome
  | delivered (bytes : List Byte)
  | suppressed
  deriving DecidableEq, Repr

structure OutboundPacket where
  slot : Byte
  binding : ObservedBinding
  packet : List Byte
  deriving DecidableEq, Repr

inductive SendOutcome
  | enqueued (deliveryId : U64) (packets : List OutboundPacket)
  | droppedNewest
  deriving DecidableEq, Repr

/-- The shared flags behind `Arc<InboundLease>`: a lease is named by its allocation. -/
structure Leases where
  next : ℕ
  active : List ℕ

def Leases.isActive (l : Leases) (lease : ℕ) : Bool := lease ∈ l.active

def Leases.alloc (l : Leases) : Leases × ℕ := (⟨l.next + 1, l.next :: l.active⟩, l.next)

def Leases.deactivate (l : Leases) (lease : ℕ) : Leases :=
  { l with active := l.active.filter (· ≠ lease) }

/-- A pending lease that its session gives up. -/
def Leases.revoke (l : Leases) : Option ℕ → Leases
  | none => l
  | some lease => l.deactivate lease

/-- The two `Option` fields of the source are full for as long as a caller holds the value. -/
structure InboundPreview where
  owner : ℕ
  generation : U64
  slot : Byte
  sessionPreview : Profile3DataPreview
  decision : ReceiveDecision
  nowMs : U64
  lease : ℕ
  deriving DecidableEq, Repr

structure MobilityInboundCommit where
  owner : ℕ
  generation : U64
  slot : Byte
  lease : ℕ
  transition : Transition
  deliveryId : U64
  plaintext : List Byte
  decision : ReceiveDecision
  nowMs : U64
  deriving DecidableEq, Repr

structure Path where
  state : PathState
  binding : Option ObservedBinding
  localLoc : Option (Bytes 16)
  peerLoc : Option (Bytes 16)
  budget : ℕ
  session : Option DirectionalSession
  queue : List OutboundPacket
  queuedBytes : ℕ

def Path.clear (p : Path) : Path :=
  { p with
    queue := []
    queuedBytes := 0
    binding := none
    localLoc := none
    peerLoc := none
    session := none }

def Path.canEnqueue (p : Path) (len : ℕ) : Bool :=
  p.queue.length < QUEUE_PACKETS ∧ p.queuedBytes + len ≤ QUEUE_BYTES

structure Dedup where
  bytes : List Byte
  expiryMs : U64
  deriving DecidableEq, Repr

structure Profile3AdmissionIssuer where
  capability : ℕ
  deriving DecidableEq, Repr

/-- The admission holds the capability itself, so equal names mean a live one. -/
def Profile3AdmissionIssuer.admits (i : Profile3AdmissionIssuer) (a : Profile3Admission) : Bool :=
  i.capability = a.owner.capability

structure RedundantSession where
  bootstrap : Option Profile3Bootstrap
  paths : Fin 2 → Path
  state : SessionState
  nextDelivery : U64
  delivered : DeliveredWindow
  dedup : List (U64 × Dedup)
  events : List RedundantEvent
  admissionIssuer : Option Profile3AdmissionIssuer
  receiveOwner : ℕ
  receiveGeneration : U64
  receivePreview : Option ℕ

def mapSession : SessionError → RedundantError
  | .budget => .mtuExceeded
  | .counterExhausted => .counterExhausted
  | .counterRange | .replay => .replay
  | _ => .authFailed

instance neZero_slots : NeZero 2 := ⟨by decide⟩

def slotIndex (slot : Byte) : Option (Fin 2) :=
  if slot = 0 then some 0 else if slot = 1 then some 1 else none

def budgetAllowed (budget : ℕ) : Bool := OVERHEAD ≤ budget ∧ budget ≤ 1280

/-- The proof `commit_profile3` hands to the session, when it gets that far. -/
def committedProof (m : Manager) (ms : State) (t : Transition) : Option Profile3ReplayProof :=
  if m.profile ≠ 3 ∨ t.ownerId ≠ m.ownerId ∨ ms.closed ∨ ms.generation ≠ t.generation then none
  else t.profile3Proof

/-- `commit_profile3` of a manager against a session, which it may advance. -/
def commitProfile3With (m : Manager) (ms : State) (t : Transition) (session : DirectionalSession) :
    (State × DirectionalSession) × Except MobilityError Unit :=
  let r := m.commitProfile3 ms t fun proof =>
    ((session.commitProfile3Replay proof).2.1,
      (session.commitProfile3Replay proof).2.2.mapError fun _ => .replay)
  let session := match committedProof m ms t with
    | none => session
    | some proof => (session.commitProfile3Replay proof).1
  ((r.1, session), r.2)

namespace RedundantSession

def event (s : RedundantSession) (e : RedundantEvent) : RedundantSession :=
  { s with
    events := (if s.events.length = EVENTS then s.events.tail else s.events) ++ [e] }

def setPath (s : RedundantSession) (i : Fin 2) (p : Path) : RedundantSession :=
  { s with paths := Function.update s.paths i p }

/-- `new`, with the receive owner taken from the global counter. -/
def new (bootstrap : Profile3Bootstrap) (slot0Binding : ObservedBinding) (deliverySeed : U64)
    (owner : ℕ) : Except RedundantError RedundantSession :=
  if ¬ slot0Binding.Valid then .error .bindingMismatch
  else if ¬ budgetAllowed bootstrap.budget then .error .profileInvalid
  else
    match bootstrap.takeSlot0 with
    | (_, .error e) => .error (mapSession e)
    | (bootstrap, .ok slot0) =>
      if ¬ slot0.canReserve then .error .counterExhausted
      else .ok (event
        { bootstrap := some bootstrap
          state := .active
          nextDelivery := deliverySeed
          delivered := .new
          dedup := []
          events := []
          admissionIssuer := none
          receiveOwner := owner
          receiveGeneration := 0
          receivePreview := none
          paths := fun i =>
            if i = 0 then ⟨.active, some slot0Binding, some bootstrap.localLoc,
              some bootstrap.peerLoc, bootstrap.budget, some slot0, [], 0⟩
            else ⟨.absent, none, none, none, bootstrap.budget, none, [], 0⟩ } .initialDegraded)

/-- `ownerLive` says whether the capability of the last issued owner still exists. -/
def issueProfile3AdmissionOwner (s : RedundantSession) (policyId : U32) (ownerLive : Bool)
    (capability : ℕ) : RedundantSession × Except RedundantError Profile3AdmissionOwner :=
  if s.state ≠ .active then (s, .error .released)
  else if (s.paths 1).state ≠ .absent ∨ (s.admissionIssuer.isSome ∧ ownerLive) then
    (s, .error .admissionInvalid)
  else
    let s := { s with admissionIssuer := none }
    match s.bootstrap, (s.paths 0).session with
    | some bootstrap, some session =>
      if bootstrap.scid = 0 then (s, .error .admissionInvalid)
      else ({ s with admissionIssuer := some ⟨capability⟩ },
        .ok ⟨bootstrap.scid, policyId, session.profile3ReplayBinding, capability⟩)
    | _, _ => (s, .error .released)

/-- A pending preview whose holder is gone is forgotten. -/
def reapPreview (s : RedundantSession) (leases : Leases) : RedundantSession :=
  if s.receivePreview.any fun lease => ¬ leases.isActive lease then { s with receivePreview := none }
  else s

/-- The body of `activate` that may fail after slot one was claimed. -/
def takeSlot1 (C : Crypto) (s : RedundantSession) (admission : Profile3Admission) (owner : ℕ) :
    RedundantSession × Except RedundantError DirectionalSession :=
  match s.bootstrap, (s.paths 0).session with
  | some bootstrap, some slot0 =>
    if admission.scid ≠ bootstrap.scid ∨ ¬ s.admissionIssuer.any (·.admits admission) ∨
        admission.owner.replayBinding ≠ slot0.profile3ReplayBinding then
      (s, .error .admissionInvalid)
    else
      let taken := bootstrap.takeSlot1AfterAdmission C owner
      let s := { s with bootstrap := some taken.1 }
      match taken.2 with
      | .error e => (s, .error (mapSession e))
      | .ok session =>
        if ¬ session.canReserve then (s, .error .counterExhausted) else (s, .ok session)
  | _, _ => (s, .error .released)

def activate (C : Crypto) (s : RedundantSession) (leases : Leases) (admission : Profile3Admission)
    (budget : ℕ) (owner : ℕ) : RedundantSession × Except RedundantError Unit :=
  if ¬ admission.binding.Valid then (s, .error .admissionInvalid)
  else if s.state ≠ .active then (s, .error .released)
  else
    let s := s.reapPreview leases
    if (s.paths 1).state ≠ .absent ∨ ¬ budgetAllowed budget ∨ s.receivePreview.isSome then
      (s, .error .admissionInvalid)
    else
      match checkedAdd s.receiveGeneration 1 with
      | none => (s, .error .released)
      | some generation =>
        match s.takeSlot1 C admission owner with
        | (s, .error e) => (s, .error e)
        | (s, .ok session) =>
          let path : Path := { s.paths 1 with
            state := .active
            binding := some admission.binding
            localLoc := some admission.localLoc
            peerLoc := some admission.peerLoc
            budget := budget
            session := some session }
          ({ (({ s with admissionIssuer := none }).setPath 1 path).event .recovered with
            receiveGeneration := generation }, .ok ())

/-- Everything is erased, and a preview still out loses its lease. -/
def close (s : RedundantSession) (leases : Leases) : RedundantSession × Leases :=
  if s.state = .released then (s, leases)
  else
    (event { s with
      paths := fun i => { (s.paths i).clear with state := .released }
      dedup := []
      delivered := { s.delivered.clearAll with highWater := none }
      admissionIssuer := none
      nextDelivery := 1
      bootstrap := none
      receivePreview := none
      receiveGeneration := u64Max
      state := .released } .released, leases.revoke s.receivePreview)

def header (s : RedundantSession) (i : Fin 2) : Except RedundantError Header :=
  match s.bootstrap with
  | none => .error .released
  | some bootstrap =>
    match (s.paths i).localLoc, (s.paths i).peerLoc with
    | some src, some dst => .ok {
        profile := 3
        tc := 0
        nextHeader := NH_SES
        hopLimit := 64
        flags := if i = 0 then 1 else 3
        pathSlot := if i = 0 then 0 else 1
        scid := bootstrap.scid
        src := src
        dst := dst }
    | _, _ => .error .pathUnavailable

def activePaths (s : RedundantSession) : List (Fin 2) :=
  [0, 1].filter fun i => (s.paths i).state = .active

/-- Why a path cannot take a packet, in the order the source looks. -/
inductive SendBlock
  | mtu | queue | counter
  deriving DecidableEq, Repr

def Path.blocks (p : Path) (length : ℕ) : Option SendBlock :=
  if p.budget < length then some .mtu
  else if ¬ p.canEnqueue length then some .queue
  else if ¬ p.session.any (·.canReserve) then some .counter
  else none

/-- The packet for one path, sealed and queued. -/
def sendOn (C : Crypto) (s : RedundantSession) (i : Fin 2) (delivery : U64)
    (plaintext : List Byte) :
    RedundantSession × List SealCall × Except RedundantError OutboundPacket :=
  match s.header i with
  | .error e => (s, [], .error e)
  | .ok header =>
    match (s.paths i).binding, (s.paths i).session with
    | some binding, some session =>
      let r := session.encryptProfile3Data C header delivery plaintext (s.paths i).budget
      let path := { s.paths i with session := some r.1 }
      match r.2.2 with
      | .error e => (s.setPath i path, r.2.1, .error (mapSession e))
      | .ok packet =>
        let out : OutboundPacket := ⟨if i = 0 then 0 else 1, binding, packet⟩
        (s.setPath i { path with
          queuedBytes := path.queuedBytes + packet.length
          queue := path.queue ++ [out] }, r.2.1, .ok out)
    | _, _ => (s, [], .error .pathUnavailable)

def sendAll (C : Crypto) (s : RedundantSession) (delivery : U64) (plaintext : List Byte) :
    List (Fin 2) → RedundantSession × List SealCall × Except RedundantError (List OutboundPacket)
  | [] => (s, [], .ok [])
  | i :: is =>
    match s.sendOn C i delivery plaintext with
    | (s, calls, .error e) => (s, calls, .error e)
    | (s, calls, .ok packet) =>
      let rest := s.sendAll C delivery plaintext is
      (rest.1, calls ++ rest.2.1, rest.2.2.map (packet :: ·))

/-- The second component lists the calls of `seal` that were made. -/
def outbound (C : Crypto) (s : RedundantSession) (leases : Leases) (plaintext : List Byte) :
    (RedundantSession × Leases) × List SealCall × Except RedundantError SendOutcome :=
  if s.state ≠ .active then ((s, leases), [], .error .released)
  else
    let length := plaintext.length + OVERHEAD
    if s.activePaths = [] then ((s, leases), [], .error .pathUnavailable)
    else
      match s.activePaths.findSome? fun i => Path.blocks (s.paths i) length with
      | some .mtu => ((s, leases), [], .error .mtuExceeded)
      | some .queue => ((s.event .queueOverflow, leases), [], .ok .droppedNewest)
      | some .counter => (s.close leases, [], .error .counterExhausted)
      | none =>
        match checkedAdd s.nextDelivery 1 with
        | none => (s.close leases, [], .error .deliveryExhausted)
        | some next =>
          match s.sendAll C s.nextDelivery plaintext s.activePaths with
          | (s', calls, .error e) => ((s', leases), calls, .error e)
          | (s', calls, .ok packets) =>
            (({ s' with nextDelivery := next }, leases), calls,
              .ok (.enqueued s.nextDelivery packets))

def confirmSent (s : RedundantSession) (slot : Byte) (packet : List Byte) :
    RedundantSession × Except RedundantError Unit :=
  match slotIndex slot with
  | none => (s, .error .pathUnavailable)
  | some i =>
    match (s.paths i).queue with
    | [] => (s, .error .pathUnavailable)
    | front :: rest =>
      if front.packet ≠ packet then (s, .error .pathFailure)
      else (s.setPath i { s.paths i with
        queue := rest
        queuedBytes := (s.paths i).queuedBytes - front.packet.length }, .ok ())

/-- The packet opened on its path, before its delivery id is looked at. -/
def openInbound (C : Crypto) (s : RedundantSession) (slot : Byte) (binding : ObservedBinding)
    (packet : List Byte) (requireActiveBinding : Bool) :
    Except RedundantError Profile3DataPreview :=
  match slotIndex slot with
  | none => .error .pathUnavailable
  | some i =>
    let path := s.paths i
    if path.state ≠ .active ∨ (requireActiveBinding ∧ path.binding ≠ some binding) then
      .error .bindingMismatch
    else
      match Header.unpackWithBudget packet path.budget with
      | .error _ => .error .authFailed
      | .ok (header, _) =>
        match s.bootstrap with
        | none => .error .released
        | some bootstrap =>
          if header.scid ≠ bootstrap.scid ∨ header.pathSlot ≠ slot ∨
              path.peerLoc ≠ some header.src ∨ path.localLoc ≠ some header.dst then
            .error .authFailed
          else
            match path.session with
            | none => .error .pathUnavailable
            | some session => (session.previewProfile3Data C packet).mapError mapSession

/-- Hands out the one preview that may be pending. -/
def lend (s : RedundantSession) (leases : Leases) (slot : Byte) (preview : Profile3DataPreview)
    (decision : ReceiveDecision) (nowMs : U64) :
    (RedundantSession × Leases) × Except RedundantError InboundPreview :=
  (({ s with receivePreview := some leases.alloc.2 }, leases.alloc.1),
    .ok ⟨s.receiveOwner, s.receiveGeneration, slot, preview, decision, nowMs, leases.alloc.2⟩)

def previewInboundInner (C : Crypto) (s : RedundantSession) (leases : Leases) (slot : Byte)
    (binding : ObservedBinding) (packet : List Byte) (nowMs : U64) (requireActiveBinding : Bool) :
    (RedundantSession × Leases) × Except RedundantError InboundPreview :=
  if ¬ binding.Valid then ((s, leases), .error .bindingMismatch)
  else if s.state ≠ .active then ((s, leases), .error .released)
  else
    let s := s.reapPreview leases
    if s.receivePreview.isSome then ((s, leases), .error .dedupCapacity)
    else
      match s.openInbound C slot binding packet requireActiveBinding with
      | .error e => ((s, leases), .error e)
      | .ok preview =>
        let id := preview.deliveryId
        if s.delivered.tooOld id then ((s, leases), .error .replay)
        else if s.delivered.seen id then
          if s.delivered.matchesBytes C id preview.plaintext then
            s.lend leases slot preview .equal nowMs
          else ((s.event .divergence).close leases, .error .divergentDelivery)
        else if s.delivered.highWater.any fun high =>
            high < id ∧ DELIVERY_GAP < id.val - high.val then
          ((s, leases), .error .deliveryGap)
        else s.lend leases slot preview .new nowMs

def previewInbound (C : Crypto) (s : RedundantSession) (leases : Leases) (slot : Byte)
    (binding : ObservedBinding) (packet : List Byte) (nowMs : U64) :
    (RedundantSession × Leases) × Except RedundantError InboundPreview :=
  s.previewInboundInner C leases slot binding packet nowMs true

/-- A mobility control may arrive on a carrier the path is not bound to yet. -/
def previewMobilityInbound (C : Crypto) (s : RedundantSession) (leases : Leases) (slot : Byte)
    (observedBinding : ObservedBinding) (packet : List Byte) (nowMs : U64) :
    (RedundantSession × Leases) × Except RedundantError InboundPreview :=
  s.previewInboundInner C leases slot observedBinding packet nowMs false

/-- The common test of `accepts_preview` and `accepts_replay_lease`. -/
def acceptsLease (s : RedundantSession) (leases : Leases) (owner : ℕ) (generation : U64)
    (lease : ℕ) : Bool :=
  owner = s.receiveOwner ∧ generation = s.receiveGeneration ∧ leases.isActive lease ∧
    s.receivePreview = some lease

def acceptsPreview (s : RedundantSession) (leases : Leases) (p : InboundPreview) : Bool :=
  s.acceptsLease leases p.owner p.generation p.lease

def acceptsReplayLease (s : RedundantSession) (leases : Leases) (c : MobilityInboundCommit) : Bool :=
  s.acceptsLease leases c.owner c.generation c.lease

def expire (s : RedundantSession) (nowMs : U64) : RedundantSession :=
  { s with dedup := s.dedup.filter fun d => nowMs < d.2.expiryMs }

/-- The entry that expires first, the least id among equals. -/
def evicted (dedup : List (U64 × Dedup)) : Option U64 :=
  ((dedup.map fun d => toLex (d.2.expiryMs, d.1)).min?).map fun k => (ofLex k).2

def evict (s : RedundantSession) : RedundantSession :=
  if DEDUP_IDS ≤ s.dedup.length then
    { s with dedup := s.dedup.filter fun d => evicted s.dedup ≠ some d.1 }
  else s

/-- What a new delivery leaves behind. -/
def remember (C : Crypto) (s : RedundantSession) (id : U64) (bytes : List Byte) (nowMs : U64) :
    RedundantSession :=
  let s := s.evict
  { s with
    delivered := s.delivered.insert C id bytes
    dedup := s.dedup.filter (·.1 ≠ id) ++ [(id, ⟨bytes, satAdd nowMs DEDUP_LIFETIME_MS⟩)] }

def commit (s : RedundantSession) (slot : Byte) (preview : Profile3DataPreview) :
    RedundantSession × Except RedundantError (U64 × List Byte) :=
  match slotIndex slot with
  | none => (s, .error .pathUnavailable)
  | some i =>
    match (s.paths i).session with
    | none => (s, .error .pathUnavailable)
    | some session =>
      let r := session.commitProfile3Data preview
      (s.setPath i { s.paths i with session := some r.1 }, r.2.mapError mapSession)

/-- The preview is dropped on every way out. -/
def commitInbound (C : Crypto) (s : RedundantSession) (leases : Leases) (preview : InboundPreview) :
    (RedundantSession × Leases) × Except RedundantError ReceiveOutcome :=
  let dropped := leases.deactivate preview.lease
  if s.state ≠ .active then ((s, dropped), .error .released)
  else if ¬ s.acceptsPreview leases preview then ((s, dropped), .error .replay)
  else
    match checkedAdd s.receiveGeneration 1 with
    | none => ((s, dropped), .error .released)
    | some generation =>
      match ({ s with receivePreview := none }).commit preview.slot preview.sessionPreview with
      | (s, .error e) => ((s, dropped), .error e)
      | (s, .ok (id, bytes)) =>
        let s := ({ s with receiveGeneration := generation }).expire preview.nowMs
        match preview.decision with
        | .equal => ((s, dropped), .ok .suppressed)
        | .new => ((s.remember C id bytes preview.nowMs, dropped), .ok (.delivered bytes))

def abortInbound (s : RedundantSession) (leases : Leases) (preview : InboundPreview) :
    (RedundantSession × Leases) × Except RedundantError Unit :=
  let dropped := leases.deactivate preview.lease
  if s.state ≠ .active then ((s, dropped), .error .released)
  else if ¬ s.acceptsPreview leases preview then ((s, dropped), .error .replay)
  else (({ s with receivePreview := none }, dropped), .ok ())

/-- The lease moves into the commit when the manager takes the control, else it is dropped. -/
def prepareMobilityCommit (C : Crypto) (s : RedundantSession) (leases : Leases) (m : Manager)
    (ms : State) (observedBinding : ObservedBinding) (preview : InboundPreview) (nowMs : U64) :
    Leases × Except RedundantError MobilityInboundCommit :=
  let dropped := leases.deactivate preview.lease
  if s.state ≠ .active then (dropped, .error .released)
  else if ¬ s.acceptsPreview leases preview then (dropped, .error .replay)
  else
    match m.previewProfile3 C ms preview.sessionPreview.plaintext observedBinding
        preview.sessionPreview.intoReplayProof nowMs with
    | .error _ => (dropped, .error .replay)
    | .ok transition =>
      (leases, .ok ⟨preview.owner, preview.generation, preview.slot, preview.lease, transition,
        preview.sessionPreview.deliveryId, preview.sessionPreview.plaintext, preview.decision,
        preview.nowMs⟩)

def mobilityResponse (C : Crypto) (m : Manager) (ms : State) (commit : MobilityInboundCommit) :
    Except RedundantError (Option Control) :=
  (m.responseFor C ms commit.transition).mapError fun _ => .replay

/-- The commit is dropped on every way out; a replay window the manager advanced stays advanced. -/
def commitMobility (C : Crypto) (s : RedundantSession) (leases : Leases) (m : Manager) (ms : State)
    (commit : MobilityInboundCommit) :
    (RedundantSession × Leases) × State × Except RedundantError Unit :=
  let dropped := leases.deactivate commit.lease
  if s.state ≠ .active then ((s, dropped), ms, .error .released)
  else if ¬ s.acceptsReplayLease leases commit then ((s, dropped), ms, .error .replay)
  else
    match checkedAdd s.receiveGeneration 1, slotIndex commit.slot with
    | none, _ => ((s, dropped), ms, .error .released)
    | _, none => ((s, dropped), ms, .error .pathUnavailable)
    | some generation, some i =>
      match (s.paths i).session with
      | none => ((s, dropped), ms, .error .pathUnavailable)
      | some session =>
        let r := commitProfile3With m ms commit.transition session
        let s := s.setPath i { s.paths i with session := some r.1.2 }
        match r.2 with
        | .error _ => ((s, dropped), r.1.1, .error .replay)
        | .ok () =>
          let s := ({ s with
            receivePreview := none
            receiveGeneration := generation }).expire commit.nowMs
          match commit.decision with
          | .equal => ((s, dropped), r.1.1, .ok ())
          | .new => ((s.remember C commit.deliveryId commit.plaintext commit.nowMs, dropped), r.1.1,
              .ok ())

def inbound (C : Crypto) (s : RedundantSession) (leases : Leases) (slot : Byte)
    (binding : ObservedBinding) (packet : List Byte) (nowMs : U64) :
    (RedundantSession × Leases) × Except RedundantError ReceiveOutcome :=
  match s.previewInbound C leases slot binding packet nowMs with
  | ((s, leases), .error e) => ((s, leases), .error e)
  | ((s, leases), .ok preview) => s.commitInbound C leases preview

/-- `remove_path` once no preview is pending. -/
def removeSlot (s : RedundantSession) (leases : Leases) (slot : Byte) :
    (RedundantSession × Leases) × Except RedundantError Unit :=
  match checkedAdd s.receiveGeneration 1, slotIndex slot with
  | none, _ => ((s, leases), .error .released)
  | _, none => ((s, leases), .error .pathUnavailable)
  | some generation, some i =>
    if (s.paths i).state = .removed ∨ (s.paths i).state = .degraded then ((s, leases), .ok ())
    else if (s.paths i).state ≠ .active then ((s, leases), .error .pathUnavailable)
    else
      let s := ({ s.setPath i { (s.paths i).clear with state := .removed } with
        receiveGeneration := generation }).event .degraded
      if s.activePaths = [] then (s.close leases, .ok ()) else ((s, leases), .ok ())

/-- A pending preview is given up even when the path cannot be removed. -/
def removePath (s : RedundantSession) (leases : Leases) (slot : Byte) :
    (RedundantSession × Leases) × Except RedundantError Unit :=
  if s.state ≠ .active then ((s, leases), .error .released)
  else
    let s := s.reapPreview leases
    removeSlot { s with receivePreview := none } (leases.revoke s.receivePreview) slot

def tick (s : RedundantSession) (leases : Leases) (nowMs : U64) :
    RedundantSession × Except RedundantError Unit :=
  if s.state ≠ .active then (s, .error .released)
  else ((s.reapPreview leases).expire nowMs, .ok ())

end RedundantSession

end R8.Redundant
