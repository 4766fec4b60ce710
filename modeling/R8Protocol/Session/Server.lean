import R8Protocol.Session.Handshake

/-! The server end: cookies, pending handshakes and established sessions, by SCID. -/
namespace R8.Session

open FixedWidth Wire

structure PendingSession where
  scid : U64
  opening : List Byte
  cachedAck : List Byte
  binding : ObservedBinding
  deadlineMs : U64
  session : DirectionalSession
  schedule : Option (Bytes 32)

structure EstablishedSession where
  scid : U64
  session : DirectionalSession
  schedule : Option (Bytes 32)
  opening : List Byte
  cachedAck : List Byte
  binding : ObservedBinding
  accepted : List Byte
  lastActiveMs : U64

def PendingSession.establish (p : PendingSession) (session : DirectionalSession)
    (packet : List Byte) (nowMs : U64) : EstablishedSession where
  scid := p.scid
  session := session
  schedule := p.schedule
  opening := p.opening
  cachedAck := p.cachedAck
  binding := p.binding
  accepted := packet
  lastActiveMs := nowMs

structure ServerMachine where
  config : HandshakeConfig
  signingKey : Bytes 32
  material : ServerMaterial
  pending : List PendingSession
  established : List EstablishedSession
  effectiveLocalLoc : Bytes 16
  effectivePeerLoc : Bytes 16

namespace ServerMachine

def new (C : Crypto) (config : HandshakeConfig) (signingKey : Bytes 32)
    (material : ServerMaterial) : Except SessionError ServerMachine := do
  config.validate C
  if C.verifyingKey signingKey ≠ config.localId.publicKey then .error .pinMismatch
  else .ok ⟨config, signingKey, material, [], [], config.destination, config.source⟩

/-- The position of the first established entry of an SCID. -/
def position (m : ServerMachine) (scid : U64) : Option (Fin m.established.length) :=
  m.established.findFinIdx? fun entry => entry.scid = scid

def removeEstablished (m : ServerMachine) (i : Fin m.established.length) : ServerMachine :=
  { m with established := m.established.eraseIdx i }

def setSession (m : ServerMachine) (i : Fin m.established.length) (session : DirectionalSession) :
    ServerMachine :=
  { m with established := m.established.set i { m.established.get i with session := session } }

/-- An entry without a schedule is put back where it was. -/
def takeProfile3Bootstrap (m : ServerMachine) (scid : U64) :
    ServerMachine × Except SessionError Profile3Bootstrap :=
  if m.config.profile ≠ 3 then (m, .error .profile)
  else
    match m.position scid with
    | none => (m, .error .unexpectedMessage)
    | some i =>
      let entry := m.established.get i
      match entry.schedule with
      | some schedule =>
        (m.removeEstablished i, .ok ⟨entry.scid, m.effectiveLocalLoc, m.effectivePeerLoc,
          m.config.budget, m.config.localId.role, m.config.peer.role,
          entry.session.transcriptHash, some schedule, some entry.session⟩)
      | none => (m, .error .unexpectedMessage)

def validateHandshakeHeader (m : ServerMachine) (header : Header) (scid : U64) :
    Except SessionError Unit :=
  validateSessionHeader header m.config.profile 0 scid m.config.source m.config.destination

/-- `packet` of the source, whose flags and slot are zero throughout. -/
def packet (m : ServerMachine) (scid : U64) (typ : Byte) (body : List Byte) :
    Except SessionError (List Byte) :=
  handshakePacket m.config scid typ body m.config.destination m.config.source

def clientIdentity (C : Crypto) (m : ServerMachine) (body : List Byte) :
    Except SessionError Identity :=
  if byteAt body 0 ≠ m.config.peer.role ∨ byteAt body 1 ≠ m.config.localId.role then
    .error .roleMismatch
  else if u32Of (body.drop 2) ≠ m.config.peer.serviceContext then .error .serviceMismatch
  else if arrayAt 32 body 22 ≠ m.config.peer.publicKey then .error .pinMismatch
  else
    let identity : Identity :=
      ⟨byteAt body 0, m.config.peer.serviceContext, arrayAt 16 body 6, arrayAt 32 body 22⟩
    do
      identity.validate C
      .ok identity

/-- A handshake message of the given type: its SCID and body. -/
def handshakeBody (m : ServerMachine) (typ : Byte) (packet : List Byte) :
    Except SessionError (U64 × List Byte) := do
  let (header, payload) ←
    (Header.unpackWithBudget packet m.config.budget).mapError fun _ => .authFailed
  m.validateHandshakeHeader header header.scid
  let message ← SessionMessage.decode payload m.config.profile m.config.budget
  if message.typ ≠ typ then .error .unexpectedMessage else .ok (header.scid, message.body)

def receiveOpen (C : Crypto) (m : ServerMachine) (packet : List Byte) (binding : ObservedBinding)
    (bucket : U64) : Except SessionError (List Byte) := do
  binding.validate
  let (scid, body) ← m.handshakeBody OPEN packet
  let client ← m.clientIdentity C body
  let ephemeral := arrayAt 32 body 54
  let input ← cookieInput C ⟨binding, client, m.config.localId, scid, ephemeral,
    m.material.bootInstance, bucket, m.config.serverContextId⟩
  m.packet scid VERIFY_COOKIE ([m.config.localId.role, client.role] ++
    u32Bytes m.config.localId.serviceContext ++ client.publicKey.val ++
    (C.sha256 ephemeral.val).val ++ m.material.bootInstance.val ++
    (cookie C m.material.currentCookieKey input).val)

def expire (m : ServerMachine) (nowMs : U64) : ServerMachine :=
  { m with
    pending := m.pending.filter fun entry => nowMs < entry.deadlineMs
    established := m.established.filter fun entry =>
      (satSub nowMs entry.lastActiveMs).val < 120000 }

/-- The client's half of a handshake, as OPEN_AUTH carries it. -/
structure OpenAuth where
  client : Identity
  clientEphemeral : Bytes 32
  clientNonce : Bytes 32
  boot : Bytes 16
  cookie : Bytes 32
  signature : Bytes 64
  deriving DecidableEq, Repr

def parseAuth (C : Crypto) (m : ServerMachine) (body : List Byte) :
    Except SessionError OpenAuth := do
  let client ← m.clientIdentity C body
  .ok ⟨client, arrayAt 32 body 54, arrayAt 32 body 86, arrayAt 16 body 118, arrayAt 32 body 134,
    arrayAt 64 body 166⟩

/-- The cookie checks, in front of any public-key work. -/
def checkCookie (C : Crypto) (m : ServerMachine) (scid : U64) (auth : OpenAuth)
    (binding : ObservedBinding) (nowMs bucket : U64) : Except SessionError Unit :=
  if auth.boot ≠ m.material.bootInstance then .error .cookieInvalid
  else do
    let valid ← cookieMatchesBuckets C m.material.currentCookieKey m.material.previousCookieKey
      m.material.previousKeyRotatedMs auth.cookie ⟨binding, auth.client, m.config.localId, scid,
        auth.clientEphemeral, auth.boot, bucket, m.config.serverContextId⟩ nowMs
    if ¬ valid then .error .cookieInvalid else .ok ()

/-- The transcript OPEN_AUTH was signed over. -/
def placeholderContext (m : ServerMachine) (scid : U64) (auth : OpenAuth) :
    TranscriptContext where
  profile := m.config.profile
  scid := scid
  client := auth.client
  server := m.config.localId.placeholder
  clientEphemeral := auth.clientEphemeral
  serverEphemeral := zeros 32
  clientNonce := auth.clientNonce
  serverNonce := zeros 32
  boot := auth.boot

/-- The whole transcript, with the server's own material. -/
def actualContext (C : Crypto) (m : ServerMachine) (scid : U64) (auth : OpenAuth)
    (material : ServerHandshakeMaterial) : TranscriptContext where
  profile := m.config.profile
  scid := scid
  client := auth.client
  server := m.config.localId
  clientEphemeral := auth.clientEphemeral
  serverEphemeral := C.x25519Public material.ephemeralSecret
  clientNonce := auth.clientNonce
  serverNonce := material.nonce
  boot := auth.boot

/-- The client is authenticated and the server signs its half. -/
def completeHandshake (C : Crypto) (m : ServerMachine) (scid : U64) (auth : OpenAuth)
    (material : ServerHandshakeMaterial) : Except SessionError Handshake := do
  let placeholder ← transcriptT0 C (m.placeholderContext scid auth)
  verifySignature C auth.client.publicKey OPEN_AUTH_DOMAIN placeholder auth.signature
  let shared ← x25519 C material.ephemeralSecret auth.clientEphemeral
  let actual ← transcriptT0 C (m.actualContext C scid auth material)
  .ok ⟨m.actualContext C scid auth material, auth.signature, signOpenAck C m.signingKey actual,
    shared⟩

/-- The new session and the OPEN_ACK that tells the client about it. -/
def answer (C : Crypto) (m : ServerMachine) (scid : U64) (h : Handshake) (owner : ℕ) :
    Except SessionError (DirectionalSession × List Byte) := do
  let session ← h.session C m.config.localId.role h.context.client.role m.config.budget owner
  let ack ← m.packet scid OPEN_ACK ([m.config.localId.role, h.context.client.role] ++
    u32Bytes m.config.localId.serviceContext ++ m.config.localId.eid.val ++
    m.config.localId.publicKey.val ++ h.context.serverEphemeral.val ++
    h.context.serverNonce.val ++ h.serverSignature.val)
  .ok (session, ack)

/-- What comes between the lookup and the answer: identity, cookie, capacity, material. -/
def admitAuth (C : Crypto) (m : ServerMachine) (scid : U64) (body : List Byte)
    (binding : ObservedBinding) (nowMs bucket : U64)
    (handshakeMaterial : Option ServerHandshakeMaterial) :
    Except SessionError (OpenAuth × ServerHandshakeMaterial) := do
  let auth ← m.parseAuth C body
  m.checkCookie C scid auth binding nowMs bucket
  if m.config.pendingLimit ≤ m.pending.length then .error .capacity
  else
    match handshakeMaterial with
    | none => .error .unexpectedMessage
    | some material => .ok (auth, material)

/-- The cached answer to a repeated OPEN_AUTH, if its SCID is taken. -/
def cachedAnswer (m : ServerMachine) (scid : U64) (packet : List Byte) (binding : ObservedBinding) :
    Option (Except SessionError (List Byte)) :=
  match m.pending.find? fun entry => entry.scid = scid with
  | some pending =>
    some (if pending.opening = packet ∧ pending.binding = binding then .ok pending.cachedAck
      else .error .scidCollision)
  | none =>
    (m.established.find? fun entry => entry.scid = scid).map fun established =>
      if established.opening = packet ∧ established.binding = binding then
        .ok established.cachedAck
      else .error .scidCollision

/-- An OPEN_AUTH is answered from the cache or, once admitted, with a new session. -/
def authRequest (C : Crypto) (m : ServerMachine) (packet : List Byte) (binding : ObservedBinding)
    (nowMs bucket : U64) (handshakeMaterial : Option ServerHandshakeMaterial) :
    Except SessionError (List Byte ⊕ U64 × OpenAuth × ServerHandshakeMaterial) := do
  let (scid, body) ← m.handshakeBody OPEN_AUTH packet
  match m.cachedAnswer scid packet binding with
  | some answer => do
    let ack ← answer
    .ok (.inl ack)
  | none => do
    let (auth, material) ← m.admitAuth C scid body binding nowMs bucket handshakeMaterial
    .ok (.inr (scid, auth, material))

def receiveOpenAuth (C : Crypto) (m : ServerMachine) (packet : List Byte)
    (binding : ObservedBinding) (nowMs bucket : U64)
    (handshakeMaterial : Option ServerHandshakeMaterial) (owner : ℕ) :
    ServerMachine × Except SessionError (List Byte) :=
  match binding.validate with
  | .error e => (m, .error e)
  | .ok () =>
    let m := m.expire nowMs
    match m.authRequest C packet binding nowMs bucket handshakeMaterial with
    | .error e => (m, .error e)
    | .ok (.inl ack) => (m, .ok ack)
    | .ok (.inr (scid, auth, material)) =>
      match (do
        let handshake ← m.completeHandshake C scid auth material
        let (session, ack) ← m.answer C scid handshake owner
        .ok (handshake, session, ack) :
          Except SessionError (Handshake × DirectionalSession × List Byte)) with
      | .error e => (m, .error e)
      | .ok (handshake, session, ack) =>
        ({ m with
          pending := m.pending ++ [⟨scid, packet, ack, binding, satAdd nowMs 5000, session,
            if m.config.profile = 3 then some (handshake.schedule C) else none⟩] }, .ok ack)

/-- A SESSION_ACCEPT on the handshake's own locations: its SCID. -/
def acceptScid (m : ServerMachine) (packet : List Byte) : Except SessionError U64 := do
  let (header, payload) ←
    (Header.unpackWithBudget packet m.config.budget).mapError fun _ => .authFailed
  validateProtectedHeader header m.config.profile header.scid m.config.source
    m.config.destination
  let message ← SessionMessage.decode payload header.profile m.config.budget
  if message.typ ≠ SESSION_ACCEPT then .error .unexpectedMessage else .ok header.scid

/-- The confirmation names the transcript of this session. -/
def confirms (session : DirectionalSession) (plaintext : List Byte) : Bool :=
  plaintext.length = 44 ∧ plaintext.take 12 = ascii "R8 ACCEPT v1" ∧
    plaintext.drop 12 = session.transcriptHash.val

/-- `receive_accept` on a pending entry. A commit that fails leaves the entry pending. -/
def acceptPending (C : Crypto) (m : ServerMachine) (i : Fin m.pending.length)
    (packet : List Byte) (nowMs : U64) : ServerMachine × Except SessionError Unit :=
  let entry := m.pending.get i
  match entry.session.preview C packet with
  | .error e => (m, .error e)
  | .ok preview =>
    if ¬ confirms entry.session preview.plaintext then (m, .error .authFailed)
    else if m.config.establishedLimit ≤ m.established.length then (m, .error .capacity)
    else
      match entry.session.commit preview with
      | (session, .error e) =>
        ({ m with pending := m.pending.set i { entry with session := session } }, .error e)
      | (session, .ok _) =>
        ({ m with
          pending := m.pending.eraseIdx i
          established := m.established ++ [entry.establish session packet nowMs] }, .ok ())

def receiveAccept (C : Crypto) (m : ServerMachine) (packet : List Byte) (nowMs : U64) :
    ServerMachine × Except SessionError Unit :=
  let m := m.expire nowMs
  match m.acceptScid packet with
  | .error e => (m, .error e)
  | .ok scid =>
    match m.established.find? fun entry => entry.scid = scid with
    | some entry => (m, if entry.accepted = packet then .ok () else .error .authFailed)
    | none =>
      match m.pending.findFinIdx? fun entry => entry.scid = scid with
      | none => (m, .error .unexpectedMessage)
      | some i => m.acceptPending C i packet nowMs

def previewDataWithLocs (C : Crypto) (m : ServerMachine) (packet : List Byte)
    (allowedSources allowedDestinations : List (Bytes 16)) (nowMs : U64) :
    ServerMachine × Except SessionError DataPreview :=
  let m := m.expire nowMs
  (m, do
    let (header, payload) ←
      (Header.unpackWithBudget packet m.config.budget).mapError fun _ => .authFailed
    match m.established.find? fun entry => entry.scid = header.scid with
    | none => .error .unexpectedMessage
    | some entry =>
      previewData C m.config entry.session header payload packet m.effectivePeerLoc
        m.effectiveLocalLoc allowedSources allowedDestinations)

def commitData (m : ServerMachine) (preview : DataPreview) (nowMs : U64) :
    ServerMachine × Except SessionError (List Byte) :=
  if preview.header.scid ≠ preview.scid then (m, .error .replay)
  else
    let m := m.expire nowMs
    match m.position preview.scid with
    | none => (m, .error .replay)
    | some i =>
      let entry := m.established.get i
      match entry.session.commit preview.commit with
      | (session, .error e) => (m.setSession i session, .error e)
      | (session, .ok plaintext) =>
        let entry := { entry with session := session, lastActiveMs := nowMs }
        ({ m with established := m.established.set i entry }, .ok plaintext)

def receiveData (C : Crypto) (m : ServerMachine) (packet : List Byte) (nowMs : U64) :
    ServerMachine × Except SessionError (List Byte) :=
  match (m.expire nowMs).previewDataWithLocs C packet [] [] nowMs with
  | (m, .error e) => (m, .error e)
  | (m, .ok preview) => m.commitData preview nowMs

def protectedReplayBinding (m : ServerMachine) (scid : U64) :
    Except SessionError ProtectedReplayBinding :=
  match m.established.find? fun entry => entry.scid = scid with
  | none => .error .unexpectedMessage
  | some entry => .ok entry.session.protectedReplayBinding

def commitProtectedReplay (m : ServerMachine) (scid : U64) (proof : ProtectedReplayProof)
    (nowMs : U64) : ServerMachine × ProtectedReplayProof × Except SessionError Unit :=
  let m := m.expire nowMs
  match m.position scid with
  | none => (m, proof, .error .replay)
  | some i =>
    let r := (m.established.get i).session.commitProtectedReplay proof
    (m.setSession i r.1, r.2.1, r.2.2)

def promoteLocalLoc (m : ServerMachine) (newLoc : Bytes 16) : ServerMachine :=
  { m with effectiveLocalLoc := newLoc }

def promotePeerLoc (m : ServerMachine) (newLoc : Bytes 16) : ServerMachine :=
  { m with effectivePeerLoc := newLoc }

/-- A protected message of an established session. Neither `send_data` nor `close` expires. -/
def encrypt (C : Crypto) (m : ServerMachine) (i : Fin m.established.length) (scid : U64)
    (typ : Byte) (plaintext : List Byte) (source destination : Bytes 16) :
    DirectionalSession × List SealCall × Except SessionError (List Byte) :=
  (m.established.get i).session.encrypt C (sesHeader m.config.profile 1 scid source destination)
    typ plaintext m.config.budget

def sendDataWithLocs (C : Crypto) (m : ServerMachine) (scid : U64) (plaintext : List Byte)
    (source destination : Bytes 16) :
    ServerMachine × List SealCall × Except SessionError (List Byte) :=
  match m.position scid with
  | none => (m, [], .error .unexpectedMessage)
  | some i =>
    let r := m.encrypt C i scid SESSION_DATA plaintext source destination
    (if r.2.2 = .error .counterExhausted then m.removeEstablished i else m.setSession i r.1,
      r.2.1, r.2.2)

def sendData (C : Crypto) (m : ServerMachine) (scid : U64) (plaintext : List Byte) :
    ServerMachine × List SealCall × Except SessionError (List Byte) :=
  m.sendDataWithLocs C scid plaintext m.effectiveLocalLoc m.effectivePeerLoc

def close (C : Crypto) (m : ServerMachine) (scid : U64) (code : U16) :
    ServerMachine × List SealCall × Except SessionError (List Byte) :=
  match m.position scid with
  | none => (m, [], .error .unexpectedMessage)
  | some i =>
    let r := m.encrypt C i scid CLOSE (u16Bytes code) m.effectiveLocalLoc m.effectivePeerLoc
    match r.2.2 with
    | .ok packet => (m.removeEstablished i, r.2.1, .ok packet)
    | .error .counterExhausted => (m.removeEstablished i, r.2.1, .error .counterExhausted)
    | .error e => (m.setSession i r.1, r.2.1, .error e)

def receiveClose (C : Crypto) (m : ServerMachine) (packet : List Byte) (nowMs : U64) :
    ServerMachine × Except SessionError U16 :=
  let m := m.expire nowMs
  match (do
    let (header, payload) ←
      (Header.unpackWithBudget packet m.config.budget).mapError fun _ => .authFailed
    validateProtectedHeader header m.config.profile header.scid m.effectivePeerLoc
      m.effectiveLocalLoc
    .ok (header, payload) : Except SessionError (Header × List Byte)) with
  | .error e => (m, .error e)
  | .ok (header, payload) =>
    match m.position header.scid with
    | none => (m, .error .unexpectedMessage)
    | some i =>
      match SessionMessage.decode payload header.profile m.config.budget with
      | .error e => (m, .error e)
      | .ok message =>
        if message.typ ≠ CLOSE then (m, .error .unexpectedMessage)
        else
          match (m.established.get i).session.decrypt C packet with
          | (session, .error e) => (m.setSession i session, .error e)
          | (session, .ok plaintext) =>
            match closeCode plaintext with
            | .error e => (m.setSession i session, .error e)
            | .ok code => (m.removeEstablished i, .ok code)

def isLive (m : ServerMachine) (scid : U64) : Bool :=
  m.pending.any (·.scid = scid) || m.established.any (·.scid = scid)

def rotateCookieKey (m : ServerMachine) (newKey : Bytes 32) (nowMs : U64) : ServerMachine :=
  { m with
    material := { m.material with
      previousCookieKey := m.material.currentCookieKey
      currentCookieKey := newKey
      previousKeyRotatedMs := nowMs } }

def restart (m : ServerMachine) (material : ServerMaterial) : ServerMachine :=
  { m with pending := [], established := [], material := material }

end ServerMachine

end R8.Session
