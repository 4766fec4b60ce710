import R8Protocol.Session.Bootstrap

/-! What the two ends of a handshake compute: cookies, transcripts, signatures and the schedule. -/
namespace R8.Session

open FixedWidth Wire

structure CookieContext where
  binding : ObservedBinding
  client : Identity
  server : Identity
  scid : U64
  clientEphemeral : Bytes 32
  boot : Bytes 16
  bucket : U64
  serverContextId : U32
  deriving DecidableEq, Repr

def cookieInput (C : Crypto) (context : CookieContext) : Except SessionError (List Byte) := do
  context.client.validate C
  context.server.validate C
  if context.serverContextId = 0 then .error .configError
  else do
    context.binding.validate
    .ok (ascii "R8 cookie v1" ++ context.binding.encode ++
      [WIRE_VERSION, SESSION_VERSION, context.client.role, context.server.role] ++
      u32Bytes context.client.serviceContext ++ u64Bytes context.scid ++ context.client.eid.val ++
      (C.sha256 context.client.publicKey.val).val ++ (C.sha256 context.clientEphemeral.val).val ++
      context.boot.val ++ u64Bytes context.bucket ++ u32Bytes context.serverContextId)

def cookie (C : Crypto) (key : Bytes 32) (input : List Byte) : Bytes 32 := C.hmacSha256 key input

/-- Whether the cookie is that of the bucket before the given one; bucket zero has none. -/
def priorBucketMatches (C : Crypto) (key supplied : Bytes 32) (context : CookieContext)
    (bucket : U64) : Except SessionError Bool :=
  match sub? bucket 1 with
  | none => .ok false
  | some bucket => do
    let input ← cookieInput C { context with bucket := bucket }
    .ok (cookie C key input = supplied)

def cookieMatchesBuckets (C : Crypto) (currentKey previousKey : Bytes 32)
    (previousKeyRotatedMs : U64) (supplied : Bytes 32) (context : CookieContext) (nowMs : U64) :
    Except SessionError Bool := do
  let currentBucket := nowMs / 10000
  let currentInput ← cookieInput C { context with bucket := currentBucket }
  let currentMatch : Bool := cookie C currentKey currentInput = supplied
  let priorMatch ← priorBucketMatches C currentKey supplied context currentBucket
  let priorKeyMatch ←
    if (satSub nowMs previousKeyRotatedMs).val ≤ 20000 then do
      let prior ← priorBucketMatches C previousKey supplied context currentBucket
      .ok (decide (cookie C previousKey currentInput = supplied) || prior)
    else .ok false
  .ok (currentMatch || priorMatch || priorKeyMatch)

structure TranscriptContext where
  profile : Byte
  scid : U64
  client : Identity
  server : Identity
  clientEphemeral : Bytes 32
  serverEphemeral : Bytes 32
  clientNonce : Bytes 32
  serverNonce : Bytes 32
  boot : Bytes 16
  deriving DecidableEq, Repr

def TranscriptContext.bytes (context : TranscriptContext) : List Byte :=
  ascii "R8 session transcript v1" ++ [WIRE_VERSION, context.profile] ++ u64Bytes context.scid ++
    [context.client.role, context.server.role] ++ u32Bytes context.client.serviceContext ++
    context.client.eid.val ++ context.client.publicKey.val ++ context.server.eid.val ++
    context.server.publicKey.val ++ context.clientEphemeral.val ++ context.serverEphemeral.val ++
    context.clientNonce.val ++ context.serverNonce.val ++ context.boot.val

/-- A server key of zeros stands for one that is not known yet, so it is not checked. -/
def transcriptT0 (C : Crypto) (context : TranscriptContext) : Except SessionError (List Byte) := do
  context.client.validate C
  if ¬ isRole context.server.role ∨ context.server.serviceContext = 0 then .error .roleMismatch
  else if context.server.publicKey ≠ zeros 32 ∧
      eid C context.server.publicKey ≠ context.server.eid then .error .eidKeyMismatch
  else if context.client.serviceContext ≠ context.server.serviceContext then
    .error .serviceMismatch
  else .ok context.bytes

def OPEN_AUTH_DOMAIN : List Byte := ascii "R8 OPEN_AUTH v1"

def OPEN_ACK_DOMAIN : List Byte := ascii "R8 OPEN_ACK v1"

def signOpenAuth (C : Crypto) (key : Bytes 32) (t0 : List Byte) : Bytes 64 :=
  C.sign key (OPEN_AUTH_DOMAIN ++ t0)

def signOpenAck (C : Crypto) (key : Bytes 32) (t0 : List Byte) : Bytes 64 :=
  C.sign key (OPEN_ACK_DOMAIN ++ t0)

def verifySignature (C : Crypto) (publicKey : Bytes 32) (domain t0 : List Byte)
    (signature : Bytes 64) : Except SessionError Unit :=
  if ¬ C.keyDecodes publicKey then .error .pinMismatch
  else if ¬ C.verify publicKey (domain ++ t0) signature then .error .authFailed
  else .ok ()

def transcriptHash (C : Crypto) (t0 : List Byte) (clientSignature serverSignature : Bytes 64) :
    Bytes 32 :=
  C.sha256 (t0 ++ clientSignature.val ++ serverSignature.val)

def x25519 (C : Crypto) (secret peer : Bytes 32) : Except SessionError (Bytes 32) :=
  if C.diffieHellman secret peer = zeros 32 then .error .authFailed
  else .ok (C.diffieHellman secret peer)

def hkdfPrk (C : Crypto) (shared transcriptHash : Bytes 32) : Bytes 32 :=
  C.hkdfExtract transcriptHash shared

structure HandshakeConfig where
  localId : Identity
  peer : Identity
  profile : Byte
  source : Bytes 16
  destination : Bytes 16
  budget : ℕ
  pendingLimit : ℕ
  establishedLimit : ℕ
  serverContextId : U32
  deriving DecidableEq, Repr

def HandshakeConfig.validate (C : Crypto) (c : HandshakeConfig) : Except SessionError Unit := do
  c.localId.validate C
  c.peer.validate C
  if c.localId.role = c.peer.role then .error .roleMismatch
  else if c.localId.serviceContext ≠ c.peer.serviceContext then .error .serviceMismatch
  else if 3 < c.profile ∨ ¬ (48 ≤ c.budget ∧ c.budget ≤ 1280) ∨
      ¬ (1 ≤ c.pendingLimit ∧ c.pendingLimit ≤ 256) ∨
      ¬ (1 ≤ c.establishedLimit ∧ c.establishedLimit ≤ 1024) ∨ c.serverContextId = 0 then
    .error .configError
  else .ok ()

structure ClientMaterial where
  ephemeralSecret : Bytes 32
  nonce : Bytes 32
  deriving DecidableEq, Repr

structure ServerMaterial where
  bootInstance : Bytes 16
  currentCookieKey : Bytes 32
  previousCookieKey : Bytes 32
  previousKeyRotatedMs : U64
  deriving DecidableEq, Repr

structure ServerHandshakeMaterial where
  ephemeralSecret : Bytes 32
  nonce : Bytes 32
  deriving DecidableEq, Repr

/-- The header of everything a session sends, from one end to the other. -/
def sesHeader (profile flags : Byte) (scid : U64) (src dst : Bytes 16) : Header where
  profile := profile
  tc := 0
  nextHeader := NH_SES
  hopLimit := 64
  flags := flags
  pathSlot := 0
  scid := scid
  src := src
  dst := dst

/-- The header test of handshake messages (flags 0) and of protected ones (flags 1). -/
def validateSessionHeader (header : Header) (profile flags : Byte) (scid : U64)
    (source destination : Bytes 16) : Except SessionError Unit :=
  if header.nextHeader ≠ NH_SES ∨ header.profile ≠ profile ∨ header.scid ≠ scid ∨
      header.flags ≠ flags ∨ header.pathSlot ≠ 0 ∨ header.src ≠ source ∨
      header.dst ≠ destination then .error .authFailed
  else .ok ()

def validateProtectedHeader (header : Header) (profile : Byte) (scid : U64)
    (source destination : Bytes 16) : Except SessionError Unit :=
  validateSessionHeader header profile 1 scid source destination

/-- A handshake message, from the given source to the given destination. -/
def handshakePacket (config : HandshakeConfig) (scid : U64) (typ : Byte) (body : List Byte)
    (src dst : Bytes 16) : Except SessionError (List Byte) := do
  let payload ← SessionMessage.encode ⟨typ, config.profile, body⟩ config.budget
  ((sesHeader config.profile 0 scid src dst).packWithBudget payload config.budget).mapError
    fun _ => .budget

/-- All that the keys of a session depend on. -/
structure Handshake where
  context : TranscriptContext
  clientSignature : Bytes 64
  serverSignature : Bytes 64
  shared : Bytes 32
  deriving DecidableEq, Repr

def Handshake.hash (C : Crypto) (h : Handshake) : Bytes 32 :=
  transcriptHash C h.context.bytes h.clientSignature h.serverSignature

def Handshake.schedule (C : Crypto) (h : Handshake) : Bytes 32 := hkdfPrk C h.shared (h.hash C)

/-- The keys of slot zero, in a new session. -/
def Handshake.session (C : Crypto) (h : Handshake) (localRole peerRole : Byte)
    (budget owner : ℕ) : Except SessionError DirectionalSession := do
  let sendKey ←
    deriveKeyFromPrk C (h.schedule C) (h.hash C) h.context.profile localRole peerRole 0
  let receiveKey ←
    deriveKeyFromPrk C (h.schedule C) (h.hash C) h.context.profile peerRole localRole 0
  .ok (.new owner sendKey receiveKey (h.hash C) budget)

/-- The fields at the front of OPEN and OPEN_AUTH: roles, service and identity. -/
def identityBody (i : Identity) (receiverRole : Byte) : List Byte :=
  [i.role, receiverRole] ++ u32Bytes i.serviceContext ++ i.eid.val ++ i.publicKey.val

/-- The server as OPEN_AUTH knows it: its key is filled in only once it has answered. -/
def Identity.placeholder (i : Identity) : Identity := { i with publicKey := zeros 32 }

structure DataPreview where
  scid : U64
  header : Header
  commit : ProtectedPreview
  deriving DecidableEq, Repr

/-- What `preview_data_with_locs` asks of a header beyond its SCID, on either end. -/
def validateDataHeader (header : Header) (profile : Byte) (peerLoc localLoc : Bytes 16)
    (allowedSources allowedDestinations : List (Bytes 16)) : Except SessionError Unit :=
  if header.nextHeader ≠ NH_SES ∨ header.profile ≠ profile ∨ header.flags ≠ 1 ∨
      header.pathSlot ≠ 0 ∨ (header.src ≠ peerLoc ∧ header.src ∉ allowedSources) ∨
      (header.dst ≠ localLoc ∧ header.dst ∉ allowedDestinations) then .error .authFailed
  else .ok ()

/-- The rest of `preview_data_with_locs`, once the session is found. -/
def previewData (C : Crypto) (config : HandshakeConfig) (session : DirectionalSession)
    (header : Header) (payload packet : List Byte) (peerLoc localLoc : Bytes 16)
    (allowedSources allowedDestinations : List (Bytes 16)) : Except SessionError DataPreview := do
  validateDataHeader header config.profile peerLoc localLoc allowedSources allowedDestinations
  let message ← SessionMessage.decode payload header.profile config.budget
  if message.typ ≠ SESSION_DATA then .error .unexpectedMessage
  else do
    let commit ← session.preview C packet
    .ok ⟨header.scid, header, commit⟩

/-- The two bytes of a CLOSE. -/
def closeCode (plaintext : List Byte) : Except SessionError U16 :=
  if plaintext.length = 2 then .ok (u16Of plaintext) else .error .authFailed

end R8.Session
