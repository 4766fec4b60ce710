import R8Protocol.Session.Handshake

/-! The client end: one handshake, then one session until it is closed or handed over. -/
namespace R8.Session

open FixedWidth Wire

structure CookieWait where
  scid : U64
  material : ClientMaterial
  opening : List Byte
  deadlineMs : U64
  deriving DecidableEq, Repr

structure AuthWait where
  scid : U64
  material : ClientMaterial
  boot : Bytes 16
  opening : List Byte
  verifyHeader : Header
  verifyCookie : Bytes 32
  openAuth : List Byte
  deadlineMs : U64
  deriving DecidableEq, Repr

structure ClientSession where
  scid : U64
  session : DirectionalSession
  schedule : Option (Bytes 32)
  cachedAccept : List Byte

inductive ClientState
  | idle
  | cookieWait (wait : CookieWait)
  | authWait (wait : AuthWait)
  | established (session : ClientSession)
  | released

structure ClientMachine where
  config : HandshakeConfig
  signingKey : Bytes 32
  state : ClientState
  effectiveLocalLoc : Bytes 16
  effectivePeerLoc : Bytes 16

namespace ClientMachine

def new (C : Crypto) (config : HandshakeConfig) (signingKey : Bytes 32) :
    Except SessionError ClientMachine := do
  config.validate C
  if C.verifyingKey signingKey ≠ config.localId.publicKey then .error .pinMismatch
  else .ok ⟨config, signingKey, .idle, config.source, config.destination⟩

def takeProfile3Bootstrap (m : ClientMachine) :
    ClientMachine × Except SessionError Profile3Bootstrap :=
  if m.config.profile ≠ 3 then (m, .error .profile)
  else
    match m.state with
    | .established ⟨scid, session, some schedule, _⟩ =>
      ({ m with state := .released }, .ok ⟨scid, m.effectiveLocalLoc, m.effectivePeerLoc,
        m.config.budget, m.config.localId.role, m.config.peer.role, session.transcriptHash,
        some schedule, some session⟩)
    | _ => (m, .error .unexpectedMessage)

/-- `packet` of the source: every handshake message has no flags and slot zero. -/
def packet (m : ClientMachine) (scid : U64) (typ : Byte) (body : List Byte) :
    Except SessionError (List Byte) :=
  handshakePacket m.config scid typ body m.config.source m.config.destination

def start (C : Crypto) (m : ClientMachine) (scid : U64) (material : ClientMaterial) (nowMs : U64) :
    ClientMachine × Except SessionError (List Byte) :=
  match m.state with
  | .idle =>
    if scid = 0 then (m, .error .unexpectedMessage)
    else
      let body := identityBody m.config.localId m.config.peer.role ++
        (C.x25519Public material.ephemeralSecret).val ++ material.nonce.val
      match m.packet scid OPEN body with
      | .error e => (m, .error e)
      | .ok packet =>
        ({ m with state := .cookieWait ⟨scid, material, packet, satAdd nowMs 5000⟩ }, .ok packet)
  | _ => (m, .error .unexpectedMessage)

/-- The client after `release_cookie_wait_if_expired`, and whether it was. -/
def releaseCookieWaitIfExpired (m : ClientMachine) (nowMs : U64) : ClientMachine × Bool :=
  match m.state with
  | .cookieWait wait =>
    if wait.deadlineMs ≤ nowMs then ({ m with state := .released }, true) else (m, false)
  | _ => (m, false)

def retry (m : ClientMachine) (nowMs : U64) : ClientMachine × Except SessionError (List Byte) :=
  match m.releaseCookieWaitIfExpired nowMs with
  | (m, true) => (m, .error .unexpectedMessage)
  | (m, false) =>
    (m, match m.state with
      | .cookieWait wait =>
        if nowMs < wait.deadlineMs then .ok wait.opening else .error .unexpectedMessage
      | .authWait wait =>
        if nowMs < wait.deadlineMs then .ok wait.openAuth else .error .unexpectedMessage
      | .established e => .ok e.cachedAccept
      | _ => .error .unexpectedMessage)

def expire (m : ClientMachine) (nowMs : U64) : ClientMachine :=
  match m.state with
  | .cookieWait wait => if wait.deadlineMs ≤ nowMs then { m with state := .released } else m
  | .authWait wait => if wait.deadlineMs ≤ nowMs then { m with state := .released } else m
  | _ => m

/-- The OPEN that is being answered is the one this client sent. -/
def validateOpening (C : Crypto) (m : ClientMachine) (scid : U64) (material : ClientMaterial)
    (header : Header) (payload : List Byte) : Except SessionError Unit := do
  validateSessionHeader header m.config.profile 0 scid m.config.source m.config.destination
  if payload.length ≠ 122 ∨ byteAt payload 0 ≠ OPEN ∨ byteAt payload 1 ≠ SESSION_VERSION ∨
      byteAt payload 2 ≠ m.config.profile ∨ byteAt payload 3 ≠ 0 ∨
      byteAt payload 4 ≠ m.config.localId.role ∨ byteAt payload 5 ≠ m.config.peer.role ∨
      u32Of (payload.drop 6) ≠ m.config.localId.serviceContext ∨
      slice payload 10 26 ≠ m.config.localId.eid.val ∨
      slice payload 26 58 ≠ m.config.localId.publicKey.val ∨
      slice payload 58 90 ≠ (C.x25519Public material.ephemeralSecret).val ∨
      slice payload 90 122 ≠ material.nonce.val then .error .authFailed
  else .ok ()

def validateVerifyCookie (C : Crypto) (m : ClientMachine) (packet : List Byte) (scid : U64)
    (material : ClientMaterial) (opening : List Byte) :
    Except SessionError (Header × Bytes 16 × Bytes 32) := do
  let (openingHeader, openingPayload) ←
    (Header.unpackWithBudget opening m.config.budget).mapError fun _ => .authFailed
  m.validateOpening C scid material openingHeader openingPayload
  let (header, payload) ←
    (Header.unpackWithBudget packet m.config.budget).mapError fun _ => .authFailed
  validateSessionHeader header m.config.profile 0 scid m.config.destination m.config.source
  if payload.length ≠ 122 ∨ byteAt payload 0 ≠ VERIFY_COOKIE ∨
      byteAt payload 1 ≠ SESSION_VERSION ∨ byteAt payload 2 ≠ m.config.profile ∨
      byteAt payload 3 ≠ 0 ∨ byteAt payload 4 ≠ m.config.peer.role ∨
      byteAt payload 5 ≠ m.config.localId.role ∨
      u32Of (payload.drop 6) ≠ m.config.localId.serviceContext ∨
      slice payload 10 42 ≠ slice openingPayload 26 58 then .error .authFailed
  else if (C.sha256 (slice openingPayload 58 90)).val ≠ slice payload 42 74 then
    .error .authFailed
  else .ok (header, arrayAt 16 payload 74, arrayAt 32 payload 90)

/-- The transcript OPEN_AUTH is signed over, with the fields of the server still empty. -/
def authContext (C : Crypto) (m : ClientMachine) (scid : U64) (material : ClientMaterial)
    (boot : Bytes 16) : TranscriptContext where
  profile := m.config.profile
  scid := scid
  client := m.config.localId
  server := m.config.peer.placeholder
  clientEphemeral := C.x25519Public material.ephemeralSecret
  serverEphemeral := zeros 32
  clientNonce := material.nonce
  serverNonce := zeros 32
  boot := boot

/-- The answer to a VERIFY_COOKIE that passed. -/
def buildOpenAuth (C : Crypto) (m : ClientMachine) (scid : U64) (material : ClientMaterial)
    (boot : Bytes 16) (cookie : Bytes 32) : Except SessionError (List Byte) := do
  let t0 ← transcriptT0 C (m.authContext C scid material boot)
  let signature := signOpenAuth C m.signingKey t0
  m.packet scid OPEN_AUTH (identityBody m.config.localId m.config.peer.role ++
    (C.x25519Public material.ephemeralSecret).val ++ material.nonce.val ++ boot.val ++
    cookie.val ++ signature.val)

/-- In CookieWait any failure gives the handshake up; in AuthWait it changes nothing. -/
def receiveVerify (C : Crypto) (m : ClientMachine) (packet : List Byte) (nowMs : U64) :
    ClientMachine × Except SessionError (List Byte) :=
  match m.releaseCookieWaitIfExpired nowMs with
  | (m, true) => (m, .error .unexpectedMessage)
  | (m, false) =>
    match m.state with
    | .cookieWait wait =>
      if nowMs < wait.deadlineMs then
        match (do
          let (header, boot, cookie) ←
            m.validateVerifyCookie C packet wait.scid wait.material wait.opening
          let openAuth ← m.buildOpenAuth C wait.scid wait.material boot cookie
          .ok (header, boot, cookie, openAuth) :
            Except SessionError (Header × Bytes 16 × Bytes 32 × List Byte)) with
        | .ok (header, boot, cookie, openAuth) =>
          ({ m with state := .authWait ⟨wait.scid, wait.material, boot, wait.opening, header,
            cookie, openAuth, wait.deadlineMs⟩ }, .ok openAuth)
        | .error e => ({ m with state := .released }, .error e)
      else (m, .error .unexpectedMessage)
    | .authWait wait =>
      if nowMs < wait.deadlineMs then
        (m, do
          let (header, boot, cookie) ←
            m.validateVerifyCookie C packet wait.scid wait.material wait.opening
          if header ≠ wait.verifyHeader ∨ boot ≠ wait.boot ∨ cookie ≠ wait.verifyCookie then
            .error .authFailed
          else .ok wait.openAuth)
      else (m, .error .unexpectedMessage)
    | _ => (m, .error .unexpectedMessage)

/-- The server's half of a handshake, as OPEN_ACK carries it. -/
structure OpenAck where
  serverEphemeral : Bytes 32
  serverNonce : Bytes 32
  signature : Bytes 64
  deriving DecidableEq, Repr

def parseAck (m : ClientMachine) (wait : AuthWait) (packet : List Byte) :
    Except SessionError OpenAck := do
  let (header, payload) ←
    (Header.unpackWithBudget packet m.config.budget).mapError fun _ => .authFailed
  validateSessionHeader header m.config.profile 0 wait.scid m.config.destination m.config.source
  let ack ← SessionMessage.decode payload m.config.profile m.config.budget
  if ack.typ ≠ OPEN_ACK then .error .unexpectedMessage
  else if byteAt ack.body 0 ≠ m.config.peer.role ∨ byteAt ack.body 1 ≠ m.config.localId.role then
    .error .roleMismatch
  else if u32Of (ack.body.drop 2) ≠ m.config.peer.serviceContext then .error .serviceMismatch
  else if slice ack.body 6 22 ≠ m.config.peer.eid.val ∨
      slice ack.body 22 54 ≠ m.config.peer.publicKey.val then .error .pinMismatch
  else .ok ⟨arrayAt 32 ack.body 54, arrayAt 32 ack.body 86, arrayAt 64 ack.body 118⟩

/-- The whole transcript as the client sees it. -/
def ackContext (C : Crypto) (m : ClientMachine) (wait : AuthWait) (ack : OpenAck) :
    TranscriptContext where
  profile := m.config.profile
  scid := wait.scid
  client := m.config.localId
  server := m.config.peer
  clientEphemeral := C.x25519Public wait.material.ephemeralSecret
  serverEphemeral := ack.serverEphemeral
  clientNonce := wait.material.nonce
  serverNonce := ack.serverNonce
  boot := wait.boot

/-- The signature in the OPEN_AUTH this client sent. -/
def sentSignature (wait : AuthWait) : Except SessionError (Bytes 64) :=
  match Header.unpack wait.openAuth with
  | .error _ => .error .authFailed
  | .ok (_, payload) => .ok (arrayAt 64 (payload.drop 4) 166)

/-- `receive_ack` up to the key schedule. -/
def completeHandshake (C : Crypto) (m : ClientMachine) (wait : AuthWait) (packet : List Byte) :
    Except SessionError Handshake := do
  let ack ← m.parseAck wait packet
  let t0 ← transcriptT0 C (m.ackContext C wait ack)
  verifySignature C m.config.peer.publicKey OPEN_ACK_DOMAIN t0 ack.signature
  let shared ← x25519 C wait.material.ephemeralSecret ack.serverEphemeral
  let clientSignature ← sentSignature wait
  .ok ⟨m.ackContext C wait ack, clientSignature, ack.signature, shared⟩

/-- The confirmation that ends a handshake. -/
def acceptText (hash : Bytes 32) : List Byte := ascii "R8 ACCEPT v1" ++ hash.val

/-- The middle component lists the calls of `seal` that were made. -/
def receiveAck (C : Crypto) (m : ClientMachine) (packet : List Byte) (nowMs : U64) (owner : ℕ) :
    ClientMachine × List SealCall × Except SessionError (List Byte) :=
  match m.state with
  | .authWait wait =>
    if wait.deadlineMs ≤ nowMs then ({ m with state := .released }, [], .error .timeout)
    else
      match (do
        let handshake ← m.completeHandshake C wait packet
        let session ← handshake.session C m.config.localId.role m.config.peer.role
          m.config.budget owner
        .ok (handshake, session) : Except SessionError (Handshake × DirectionalSession)) with
      | .error e => (m, [], .error e)
      | .ok (handshake, session) =>
        let r := session.encrypt C
          (sesHeader m.config.profile 1 wait.scid m.config.source m.config.destination)
          SESSION_ACCEPT (acceptText session.transcriptHash) m.config.budget
        match r.2.2 with
        | .error e => (m, r.2.1, .error e)
        | .ok accept =>
          ({ m with state := .established ⟨wait.scid, r.1,
            if m.config.profile = 3 then some (handshake.schedule C) else none, accept⟩ }, r.2.1,
            .ok accept)
  | .established e => (m, [], .ok e.cachedAccept)
  | _ => (m, [], .error .unexpectedMessage)

/-- A protected message of the established session, under the given locations. -/
def encrypt (C : Crypto) (m : ClientMachine) (e : ClientSession) (typ : Byte)
    (plaintext : List Byte) (source destination : Bytes 16) :
    DirectionalSession × List SealCall × Except SessionError (List Byte) :=
  e.session.encrypt C (sesHeader m.config.profile 1 e.scid source destination) typ plaintext
    m.config.budget

def sendDataWithLocs (C : Crypto) (m : ClientMachine) (plaintext : List Byte)
    (source destination : Bytes 16) :
    ClientMachine × List SealCall × Except SessionError (List Byte) :=
  match m.state with
  | .established e =>
    let r := m.encrypt C e SESSION_DATA plaintext source destination
    (if r.2.2 = .error .counterExhausted then { m with state := .released }
      else { m with state := .established { e with session := r.1 } }, r.2.1, r.2.2)
  | _ => (m, [], .error .unexpectedMessage)

def sendData (C : Crypto) (m : ClientMachine) (plaintext : List Byte) :
    ClientMachine × List SealCall × Except SessionError (List Byte) :=
  m.sendDataWithLocs C plaintext m.effectiveLocalLoc m.effectivePeerLoc

def close (C : Crypto) (m : ClientMachine) (code : U16) :
    ClientMachine × List SealCall × Except SessionError (List Byte) :=
  match m.state with
  | .established e =>
    let r := m.encrypt C e CLOSE (u16Bytes code) m.effectiveLocalLoc m.effectivePeerLoc
    match r.2.2 with
    | .ok packet => ({ m with state := .released }, r.2.1, .ok packet)
    | .error .counterExhausted => ({ m with state := .released }, r.2.1, .error .counterExhausted)
    | .error e' => ({ m with state := .established { e with session := r.1 } }, r.2.1, .error e')
  | _ => (m, [], .error .unexpectedMessage)

def previewDataWithLocs (C : Crypto) (m : ClientMachine) (packet : List Byte)
    (allowedSources allowedDestinations : List (Bytes 16)) : Except SessionError DataPreview := do
  let (header, payload) ←
    (Header.unpackWithBudget packet m.config.budget).mapError fun _ => .authFailed
  match m.state with
  | .established e =>
    if e.scid = header.scid then
      previewData C m.config e.session header payload packet m.effectivePeerLoc
        m.effectiveLocalLoc allowedSources allowedDestinations
    else .error .unexpectedMessage
  | _ => .error .unexpectedMessage

def commitData (m : ClientMachine) (preview : DataPreview) :
    ClientMachine × Except SessionError (List Byte) :=
  if preview.header.scid ≠ preview.scid then (m, .error .replay)
  else
    match m.state with
    | .established e =>
      if e.scid = preview.scid then
        let r := e.session.commit preview.commit
        ({ m with state := .established { e with session := r.1 } }, r.2)
      else (m, .error .replay)
    | _ => (m, .error .replay)

def receiveData (C : Crypto) (m : ClientMachine) (packet : List Byte) :
    ClientMachine × Except SessionError (List Byte) :=
  match m.previewDataWithLocs C packet [] [] with
  | .error e => (m, .error e)
  | .ok preview => m.commitData preview

def protectedReplayBinding (m : ClientMachine) : Except SessionError ProtectedReplayBinding :=
  match m.state with
  | .established e => .ok e.session.protectedReplayBinding
  | _ => .error .unexpectedMessage

def commitProtectedReplay (m : ClientMachine) (proof : ProtectedReplayProof) :
    ClientMachine × ProtectedReplayProof × Except SessionError Unit :=
  match m.state with
  | .established e =>
    let r := e.session.commitProtectedReplay proof
    ({ m with state := .established { e with session := r.1 } }, r.2.1, r.2.2)
  | _ => (m, proof, .error .replay)

def promoteLocalLoc (m : ClientMachine) (newLoc : Bytes 16) : ClientMachine :=
  { m with effectiveLocalLoc := newLoc }

def promotePeerLoc (m : ClientMachine) (newLoc : Bytes 16) : ClientMachine :=
  { m with effectivePeerLoc := newLoc }

/-- The packet is marked as received even when its code is not two bytes long. -/
def receiveClose (C : Crypto) (m : ClientMachine) (packet : List Byte) :
    ClientMachine × Except SessionError U16 :=
  match m.state with
  | .established e =>
    match (do
      let (header, payload) ←
        (Header.unpackWithBudget packet m.config.budget).mapError fun _ => .authFailed
      validateProtectedHeader header m.config.profile e.scid m.effectivePeerLoc
        m.effectiveLocalLoc
      SessionMessage.decode payload header.profile m.config.budget :
        Except SessionError SessionMessage) with
    | .error e' => (m, .error e')
    | .ok message =>
      if message.typ ≠ CLOSE then (m, .error .unexpectedMessage)
      else
        match e.session.decrypt C packet with
        | (session, .error e') =>
          ({ m with state := .established { e with session := session } }, .error e')
        | (session, .ok plaintext) =>
          match closeCode plaintext with
          | .error e' =>
            ({ m with state := .established { e with session := session } }, .error e')
          | .ok code => ({ m with state := .released }, .ok code)
  | _ => (m, .error .unexpectedMessage)

end ClientMachine

end R8.Session
