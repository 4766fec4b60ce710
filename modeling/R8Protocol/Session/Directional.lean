import R8Protocol.Session.Replay

/-! One direction-pair of traffic keys: counters, sealing, and receipt in a preview and a commit. -/
namespace R8.Session

open FixedWidth Wire

def PROFILE3_DATA_PACKET_OVERHEAD : ℕ := 84

def nonce (counter : U64) : Except SessionError (Bytes 12) :=
  if counter = 0 ∨ counter = u64Max then .error .counterRange
  else .ok ⟨List.replicate 4 0 ++ u64Bytes counter, by simp⟩

def protectedAad (packet : List Byte) (counter : U64) : Except SessionError (List Byte) :=
  if packet.length < HEADER_LEN + 12 then .error .truncated
  else match Header.unpack packet with
    | .error _ => .error .authFailed
    | .ok _ => .ok ((packet.take (HEADER_LEN + 4)).set 5 0 ++ u64Bytes counter)

def profile3DataAad (packet : List Byte) (counter deliveryId : U64) :
    Except SessionError (List Byte) := do
  let aad ← protectedAad packet counter
  .ok (aad ++ u64Bytes deliveryId)

/-- `seal` of the source. -/
def aeadSeal (C : Crypto) (key : Bytes 32) (counter : U64) (aad plaintext : List Byte) :
    Except SessionError (List Byte) := do
  let n ← nonce counter
  let (data, tag) := C.aeadEncrypt key n aad plaintext
  .ok (data ++ tag.val)

/-- `open` of the source. -/
def aeadOpen (C : Crypto) (key : Bytes 32) (counter : U64) (aad ciphertext : List Byte) :
    Except SessionError (List Byte) :=
  if ciphertext.length < 16 then .error .truncated
  else do
    let n ← nonce counter
    let split := ciphertext.length - 16
    match C.aeadDecrypt key n aad (ciphertext.take split) (arrayAt 16 ciphertext split) with
    | none => .error .authFailed
    | some plaintext => .ok plaintext

structure Counters where
  next : U64
  deriving DecidableEq, Repr

def Counters.new : Counters := ⟨1⟩

def Counters.canReserve (c : Counters) : Bool := c.next ≠ 0 ∧ c.next ≠ u64Max

def Counters.reserve (c : Counters) : Except SessionError (U64 × Counters) :=
  if c.next = 0 ∨ c.next = u64Max then .error .counterExhausted
  else .ok (c.next, ⟨satAdd c.next 1⟩)

/-- `receiveOwner` also names the receive lease: both are fresh for each session. -/
structure DirectionalSession where
  sendKey : Bytes 32
  receiveKey : Bytes 32
  sendCounters : Counters
  replay : ReplayWindow
  transcriptHash : Bytes 32
  receiveBudget : ℕ
  receiveOwner : ℕ

structure ProtectedPreview where
  plaintext : List Byte
  commit : ReplayCommit
  receiveOwner : ℕ
  deriving DecidableEq, Repr

structure ProtectedReplayBinding where
  receiveOwner : ℕ
  deriving DecidableEq, Repr

structure ProtectedReplayProof where
  preview : Option ProtectedPreview
  committed : Bool
  deriving DecidableEq, Repr

structure Profile3DataPreview where
  deliveryId : U64
  plaintext : List Byte
  commit : ReplayCommit
  receiveOwner : ℕ
  deriving DecidableEq, Repr

structure Profile3ReplayBinding where
  receiveOwner : ℕ
  deriving DecidableEq, Repr

structure Profile3ReplayProof where
  preview : Option Profile3DataPreview
  committed : Bool
  deriving DecidableEq, Repr

/-- A call of `seal`, recorded so that runs can speak about every call ever made. -/
structure SealCall where
  key : Bytes 32
  counter : U64
  aad : List Byte
  plaintext : List Byte
  deriving DecidableEq, Repr

def ProtectedReplayBinding.matchesProof (b : ProtectedReplayBinding) (p : ProtectedReplayProof) :
    Bool :=
  p.preview.any fun preview => preview.receiveOwner = b.receiveOwner

/-- `live` says which sessions still exist: a preview outlives its session without its plaintext. -/
def ProtectedPreview.readable (p : ProtectedPreview) (live : ℕ → Bool) :
    Except SessionError (List Byte) :=
  if live p.receiveOwner then .ok p.plaintext else .error .replay

def ProtectedReplayProof.matchesPlaintext (p : ProtectedReplayProof) (live : ℕ → Bool)
    (plaintext : List Byte) : Bool :=
  p.preview.any fun preview => preview.readable live = .ok plaintext

def ProtectedPreview.intoReplayProof (p : ProtectedPreview) : ProtectedReplayProof :=
  ⟨some p, false⟩

def Profile3ReplayBinding.matchesProof (b : Profile3ReplayBinding) (p : Profile3ReplayProof) :
    Bool :=
  p.preview.any fun preview => preview.receiveOwner = b.receiveOwner

def Profile3ReplayProof.matchesPlaintext (p : Profile3ReplayProof) (plaintext : List Byte) : Bool :=
  p.preview.any fun preview => preview.plaintext = plaintext

def Profile3DataPreview.intoReplayProof (p : Profile3DataPreview) : Profile3ReplayProof :=
  ⟨some p, false⟩

def wireToSession : WireError → SessionError
  | .bindingBudget => .budget
  | _ => .authFailed

def validateProfile3DataHeader (header : Header) : Except SessionError Unit :=
  if header.pathSlot ≠ 0 ∧ header.pathSlot ≠ 1 then .error .authFailed
  else if header.profile ≠ 3 ∨ header.nextHeader ≠ NH_SES ∨
      header.flags ≠ (if header.pathSlot = 0 then 1 else 3) ∨ header.tc ≠ 0 ∨
      header.hopLimit = 0 ∨ header.scid = 0 then .error .authFailed
  else .ok ()

namespace DirectionalSession

def new (owner : ℕ) (sendKey receiveKey transcriptHash : Bytes 32) (receiveBudget : ℕ) :
    DirectionalSession where
  sendKey := sendKey
  receiveKey := receiveKey
  sendCounters := .new
  replay := .new
  transcriptHash := transcriptHash
  receiveBudget := receiveBudget
  receiveOwner := owner

def canReserve (s : DirectionalSession) : Bool := s.sendCounters.canReserve

def profile3ReplayBinding (s : DirectionalSession) : Profile3ReplayBinding := ⟨s.receiveOwner⟩

def protectedReplayBinding (s : DirectionalSession) : ProtectedReplayBinding := ⟨s.receiveOwner⟩

/-- The payload before encryption: four fixed bytes, the counter, and room for the ciphertext. -/
def protectedPayload (typ profile : Byte) (counter : U64) (rest : List Byte) : List Byte :=
  [typ, SESSION_VERSION, profile, 0] ++ u64Bytes counter ++ rest

/-- The checks of `encrypt` before a counter is reserved. -/
def encryptGuard (typ : Byte) (plaintext : List Byte) (budget : ℕ) : Except SessionError Unit :=
  if typ ∉ [SESSION_ACCEPT, SESSION_DATA, CLOSE] then .error .type
  else if typ = SESSION_ACCEPT ∧ plaintext.length ≠ 44 then .error .authFailed
  else if typ = CLOSE ∧ plaintext.length ≠ 2 then .error .authFailed
  else if budget < 12 + plaintext.length + 16 + 48 then .error .budget
  else .ok ()

/-- The associated data under a reserved counter, read off the packet with an empty ciphertext. -/
def encryptAad (header : Header) (typ : Byte) (counter : U64) (plaintext : List Byte)
    (budget : ℕ) : Except SessionError (List Byte) :=
  match header.packWithBudget
      (protectedPayload typ header.profile counter (List.replicate (plaintext.length + 16) 0))
      budget with
  | .error _ => .error .budget
  | .ok packet => protectedAad packet counter

def encryptPacket (C : Crypto) (header : Header) (typ : Byte) (call : SealCall) (budget : ℕ) :
    Except SessionError (List Byte) := do
  let ciphertext ← aeadSeal C call.key call.counter call.aad call.plaintext
  match header.packWithBudget (protectedPayload typ header.profile call.counter ciphertext)
      budget with
  | .error _ => .error .budget
  | .ok packet => .ok packet

/-- The middle component lists the calls of `seal` that were made, at most one. -/
def encrypt (C : Crypto) (s : DirectionalSession) (header : Header) (typ : Byte)
    (plaintext : List Byte) (budget : ℕ) :
    DirectionalSession × List SealCall × Except SessionError (List Byte) :=
  match encryptGuard typ plaintext budget with
  | .error e => (s, [], .error e)
  | .ok () =>
    match s.sendCounters.reserve with
    | .error e => (s, [], .error e)
    | .ok (counter, counters) =>
      let s := { s with sendCounters := counters }
      match encryptAad header typ counter plaintext budget with
      | .error e => (s, [], .error e)
      | .ok aad =>
        let call := ⟨s.sendKey, counter, aad, plaintext⟩
        (s, [call], encryptPacket C header typ call budget)

def preview (C : Crypto) (s : DirectionalSession) (packet : List Byte) :
    Except SessionError ProtectedPreview :=
  match Header.unpackWithBudget packet s.receiveBudget with
  | .error e => .error (wireToSession e)
  | .ok (header, payload) =>
    match SessionMessage.decode payload header.profile s.receiveBudget with
    | .error _ => .error .authFailed
    | .ok message =>
      if message.typ ∉ [SESSION_ACCEPT, SESSION_DATA, CLOSE] then .error .unexpectedMessage
      else do
        let counter := u64Of message.body
        let commit ← s.replay.preview counter
        let aad ← protectedAad packet counter
        let plaintext ← aeadOpen C s.receiveKey counter aad (message.body.drop 8)
        .ok ⟨plaintext, commit, s.receiveOwner⟩

def commit (s : DirectionalSession) (preview : ProtectedPreview) :
    DirectionalSession × Except SessionError (List Byte) :=
  if s.receiveOwner ≠ preview.receiveOwner then (s, .error .replay)
  else
    match s.replay.commit preview.commit with
    | (replay, .error e) => ({ s with replay }, .error e)
    | (replay, .ok ()) => ({ s with replay }, .ok preview.plaintext)

def commitProtectedReplay (s : DirectionalSession) (proof : ProtectedReplayProof) :
    DirectionalSession × ProtectedReplayProof × Except SessionError Unit :=
  if proof.committed then (s, proof, .error .replay)
  else
    match proof.preview with
    | none => (s, proof, .error .replay)
    | some preview =>
      let proof := { proof with preview := none }
      if s.receiveOwner ≠ preview.receiveOwner then (s, proof, .error .replay)
      else
        match s.replay.commit preview.commit with
        | (replay, .error e) => ({ s with replay }, proof, .error e)
        | (replay, .ok ()) => ({ s with replay }, { proof with committed := true }, .ok ())

def profile3Payload (counter deliveryId : U64) (rest : List Byte) : List Byte :=
  [SESSION_DATA, SESSION_VERSION, 3, 0] ++ u64Bytes counter ++ u64Bytes deliveryId ++ rest

/-- The checks of `encrypt_profile3_data`, all made before a counter is reserved. -/
def encryptProfile3Guard (s : DirectionalSession) (header : Header) (deliveryId : U64)
    (plaintext : List Byte) (budget : ℕ) : Except SessionError Unit :=
  if deliveryId = u64Max then .error .counterRange
  else if budget < plaintext.length + PROFILE3_DATA_PACKET_OVERHEAD then .error .budget
  else do
    validateProfile3DataHeader header
    match header.packWithBudget
        (profile3Payload 0 deliveryId (List.replicate (plaintext.length + 16) 0)) budget with
    | .error _ => .error .budget
    | .ok _ => if ¬ s.sendCounters.canReserve then .error .counterExhausted else .ok ()

def encryptProfile3Aad (header : Header) (counter deliveryId : U64) (plaintext : List Byte)
    (budget : ℕ) : Except SessionError (List Byte × List Byte) :=
  match header.packWithBudget
      (profile3Payload counter deliveryId (List.replicate (plaintext.length + 16) 0)) budget with
  | .error _ => .error .budget
  | .ok packet => do
    let aad ← profile3DataAad packet counter deliveryId
    .ok (packet, aad)

/-- `deliveryId` is nonzero by its type in the source. -/
def encryptProfile3Data (C : Crypto) (s : DirectionalSession) (header : Header) (deliveryId : U64)
    (plaintext : List Byte) (budget : ℕ) :
    DirectionalSession × List SealCall × Except SessionError (List Byte) :=
  match encryptProfile3Guard s header deliveryId plaintext budget with
  | .error e => (s, [], .error e)
  | .ok () =>
    match s.sendCounters.reserve with
    | .error e => (s, [], .error e)
    | .ok (counter, counters) =>
      let s := { s with sendCounters := counters }
      match encryptProfile3Aad header counter deliveryId plaintext budget with
      | .error e => (s, [], .error e)
      | .ok (packet, aad) =>
        let call := ⟨s.sendKey, counter, aad, plaintext⟩
        (s, [call], do
          let ciphertext ← aeadSeal C call.key call.counter call.aad call.plaintext
          .ok (packet.take (HEADER_LEN + 20) ++ ciphertext))

def profile3DecodeError : SessionError → SessionError
  | .counterRange => .counterRange
  | _ => .authFailed

def previewProfile3Data (C : Crypto) (s : DirectionalSession) (packet : List Byte) :
    Except SessionError Profile3DataPreview :=
  match Header.unpackWithBudget packet s.receiveBudget with
  | .error e => .error (wireToSession e)
  | .ok (header, payload) => do
    validateProfile3DataHeader header
    match SessionMessage.decode payload header.profile s.receiveBudget with
    | .error e => .error (profile3DecodeError e)
    | .ok message =>
      if message.typ ≠ SESSION_DATA ∨ message.profile ≠ 3 ∨ message.body.length < 32 then
        .error .unexpectedMessage
      else
        let counter := u64Of message.body
        let deliveryId := u64Of (message.body.drop 8)
        if deliveryId = 0 then .error .authFailed
        else if deliveryId = u64Max then .error .counterRange
        else
          let commit ← s.replay.preview counter
          let aad ← profile3DataAad packet counter deliveryId
          let plaintext ← aeadOpen C s.receiveKey counter aad (message.body.drop 16)
          .ok ⟨deliveryId, plaintext, commit, s.receiveOwner⟩

def commitProfile3Replay (s : DirectionalSession) (proof : Profile3ReplayProof) :
    DirectionalSession × Profile3ReplayProof × Except SessionError Unit :=
  if proof.committed then (s, proof, .error .replay)
  else
    match proof.preview with
    | none => (s, proof, .error .replay)
    | some preview =>
      let proof := { proof with preview := none }
      if s.receiveOwner ≠ preview.receiveOwner then (s, proof, .error .replay)
      else
        match s.replay.commit preview.commit with
        | (replay, .error e) => ({ s with replay }, proof, .error e)
        | (replay, .ok ()) => ({ s with replay }, { proof with committed := true }, .ok ())

def commitProfile3Data (s : DirectionalSession) (preview : Profile3DataPreview) :
    DirectionalSession × Except SessionError (U64 × List Byte) :=
  if s.receiveOwner ≠ preview.receiveOwner then (s, .error .replay)
  else
    match s.replay.commit preview.commit with
    | (replay, .error e) => ({ s with replay }, .error e)
    | (replay, .ok ()) => ({ s with replay }, .ok (preview.deliveryId, preview.plaintext))

def decryptProfile3Data (C : Crypto) (s : DirectionalSession) (packet : List Byte) :
    DirectionalSession × Except SessionError (U64 × List Byte) :=
  match s.previewProfile3Data C packet with
  | .error e => (s, .error e)
  | .ok preview => s.commitProfile3Data preview

def decrypt (C : Crypto) (s : DirectionalSession) (packet : List Byte) :
    DirectionalSession × Except SessionError (List Byte) :=
  match s.preview C packet with
  | .error e => (s, .error e)
  | .ok preview => s.commit preview

end DirectionalSession

end R8.Session
