import R8Protocol.Session.Cookie
import R8Protocol.Session.Garbage
import R8Protocol.Session.Transfer

/-! A handshake between an honest client and its server, message by message. -/
namespace R8.Session

open FixedWidth Wire

variable {C : Crypto} {c s : HandshakeConfig} {scid : U64} {typ : Byte}
  {body packet : List Byte} {binding : ObservedBinding} {bucket : U64}

/-- The configurations of a client and of the server it is for, with room for every message. -/
structure Mirrored (C : Crypto) (c s : HandshakeConfig) : Prop where
  client : c.validate C = .ok ()
  server : s.validate C = .ok ()
  peer : c.peer = s.localId
  pinned : s.peer = c.localId
  profile : s.profile = c.profile
  source : s.source = c.source
  destination : s.destination = c.destination
  room : 282 ≤ c.budget ∧ 282 ≤ s.budget

theorem identity_validate {i : Identity} (h : i.validate C = .ok ()) :
    isRole i.role ∧ i.serviceContext ≠ 0 ∧ eid C i.publicKey = i.eid := by
  simp only [Identity.validate, Outcome.ite_error_eq_ok, not_not, and_true] at h
  exact h

theorem config_validate (h : c.validate C = .ok ()) :
    c.localId.validate C = .ok () ∧ c.peer.validate C = .ok () ∧
      c.localId.role ≠ c.peer.role ∧ c.localId.serviceContext = c.peer.serviceContext ∧
      c.profile ≤ 3 ∧ c.budget ≤ SERIALIZED_R8_MAX ∧ c.serverContextId ≠ 0 := by
  simp only [HandshakeConfig.validate, Outcome.bind_eq_ok, Outcome.ite_error_eq_ok, not_not,
    and_true] at h
  obtain ⟨⟨⟩, hlocal, ⟨⟩, hpeer, hroles, hservice, hbounds⟩ := h
  push Not at hbounds
  exact ⟨hlocal, hpeer, hroles, hservice, hbounds.1, hbounds.2.1.2, hbounds.2.2.2.2⟩

section Bodies

variable {i : Identity} {role : Byte} {rest : List Byte}

@[simp] theorem identityBody_length (i : Identity) (role : Byte) :
    (identityBody i role).length = 54 := by
  simp [identityBody]

theorem identityBody_read (i : Identity) (role : Byte) (rest : List Byte) :
    byteAt (identityBody i role ++ rest) 0 = i.role ∧
      byteAt (identityBody i role ++ rest) 1 = role ∧
      u32Of ((identityBody i role ++ rest).drop 2) = i.serviceContext ∧
      arrayAt 16 (identityBody i role ++ rest) 6 = i.eid ∧
      arrayAt 32 (identityBody i role ++ rest) 22 = i.publicKey := by
  simp [identityBody]

/-- Any body of the right length that starts with two distinct roles is in form. -/
theorem validateBody_roles {a b : Byte} (ha : isRole a) (hb : isRole b) (hne : a ≠ b)
    (ht : typ ∈ [OPEN, VERIFY_COOKIE, OPEN_AUTH, OPEN_ACK])
    (hlen : bodyLength typ = some (a :: b :: rest).length) :
    validateBody typ (a :: b :: rest) = .ok () := by
  have hprotected : typ ∉ [SESSION_ACCEPT, SESSION_DATA, CLOSE] := by
    have htyp : typ = 1 ∨ typ = 2 ∨ typ = 3 ∨ typ = 4 := by
      simpa [OPEN, VERIFY_COOKIE, OPEN_AUTH, OPEN_ACK] using ht
    rcases htyp with rfl | rfl | rfl | rfl <;> decide
  have hpair : validateRolePair (a :: b :: rest) = .ok () := by
    simp [validateRolePair, ha, hb, hne]
  unfold validateBody
  simp only [hlen, lt_self_iff_false, if_false, ne_eq, not_true_eq_false, and_false, if_pos ht,
    hpair, if_neg hprotected]
  rfl

end Bodies

namespace Mirrored

theorem roles (h : Mirrored C c s) :
    isRole c.localId.role ∧ isRole s.localId.role ∧ c.localId.role ≠ s.localId.role := by
  obtain ⟨hlocal, hpeer, hne, -⟩ := config_validate h.client
  rw [h.peer] at hpeer hne
  exact ⟨(identity_validate hlocal).1, (identity_validate hpeer).1, hne⟩

theorem identities (h : Mirrored C c s) :
    c.localId.validate C = .ok () ∧ s.localId.validate C = .ok () ∧
      c.localId.serviceContext = s.localId.serviceContext := by
  obtain ⟨hlocal, hpeer, -, hservice, -⟩ := config_validate h.client
  rw [h.peer] at hpeer hservice
  exact ⟨hlocal, hpeer, hservice⟩

theorem bounds (h : Mirrored C c s) : c.profile ≤ 3 ∧ c.budget ≤ SERIALIZED_R8_MAX := by
  obtain ⟨-, -, -, -, hprofile, hbudget, -⟩ := config_validate h.client
  exact ⟨hprofile, hbudget⟩

theorem serverBounds (h : Mirrored C c s) : s.profile ≤ 3 ∧ s.budget ≤ SERIALIZED_R8_MAX := by
  obtain ⟨-, -, -, -, hprofile, hbudget, -⟩ := config_validate h.server
  exact ⟨hprofile, hbudget⟩

/-- What the client sends, the server takes apart. -/
theorem handshakeBody (h : Mirrored C c s) {m : ServerMachine} (hm : m.config = s)
    (hlen : body.length ≤ 230)
    (hp : handshakePacket c scid typ body c.source c.destination = .ok packet) :
    m.handshakeBody typ packet = .ok (scid, body) := by
  obtain ⟨-, hroom⟩ := h.room
  obtain ⟨hbody, -⟩ := handshakePacket_eq_ok hp
  have hunpack := unpack_handshakePacket hp s.budget (by omega)
  have hdecode := decode_handshakePayload c s.budget hbody (by omega)
  unfold ServerMachine.handshakeBody
  rw [hm, h.profile, hunpack]
  simp [ServerMachine.validateHandshakeHeader, validateSessionHeader, sesHeader, hm, h.profile,
    h.source, h.destination, hdecode, Except.mapError, bind, Except.bind]

theorem clientIdentity (h : Mirrored C c s) {m : ServerMachine} (hm : m.config = s)
    (rest : List Byte) :
    m.clientIdentity C (identityBody c.localId c.peer.role ++ rest) = .ok c.localId := by
  obtain ⟨h0, h1, h2, h6, h22⟩ := identityBody_read c.localId c.peer.role rest
  have hvalid := h.identities.1
  unfold ServerMachine.clientIdentity
  rw [h0, h1, h2, h6, h22, hm, h.pinned, h.peer]
  simp [hvalid, bind, Except.bind]

end Mirrored

/-- The body of OPEN, which OPEN_AUTH repeats in front. -/
def openBody (C : Crypto) (c : HandshakeConfig) (material : ClientMaterial) : List Byte :=
  identityBody c.localId c.peer.role ++
    ((C.x25519Public material.ephemeralSecret).val ++ material.nonce.val)

def verifyBody (C : Crypto) (s : HandshakeConfig) (client : Identity) (ephemeral : Bytes 32)
    (boot : Bytes 16) (cookie : Bytes 32) : List Byte :=
  [s.localId.role, client.role] ++ u32Bytes s.localId.serviceContext ++ client.publicKey.val ++
    (C.sha256 ephemeral.val).val ++ boot.val ++ cookie.val

def authBody (C : Crypto) (c : HandshakeConfig) (material : ClientMaterial) (boot : Bytes 16)
    (cookie : Bytes 32) (signature : Bytes 64) : List Byte :=
  openBody C c material ++ (boot.val ++ (cookie.val ++ signature.val))

section Steps

variable {material : ClientMaterial} {boot : Bytes 16} {ck : Bytes 32}

@[simp] theorem openBody_length : (openBody C c material).length = 118 := by
  simp [openBody]

theorem openBody_valid (h : Mirrored C c s) (material : ClientMaterial) :
    validateBody OPEN (openBody C c material) = .ok () := by
  obtain ⟨hc, hs, hne⟩ := h.roles
  rw [← h.peer] at hs hne
  apply validateBody_roles hc hs hne (by simp)
  simp [bodyLength, OPEN]

theorem start_ok (h : Mirrored C c s) {m : ClientMachine} (hm : m.config = c)
    (hstate : m.state = .idle) (hscid : scid ≠ 0) (material : ClientMaterial) (nowMs : U64) :
    ∃ opening,
      handshakePacket c scid OPEN (openBody C c material) c.source c.destination = .ok opening ∧
      m.start C scid material nowMs =
        ({ m with state := .cookieWait ⟨scid, material, opening, satAdd nowMs 5000⟩ },
          .ok opening) := by
  obtain ⟨hroom, -⟩ := h.room
  have hpacket := handshakePacket_ok scid c.source c.destination h.bounds.1 hscid
    (by simp : OPEN ∈ [OPEN, VERIFY_COOKIE, OPEN_AUTH, OPEN_ACK]) (openBody_valid h material)
    (by rw [openBody_length]; omega) h.bounds.2
  refine ⟨_, hpacket, ?_⟩
  unfold openBody at hpacket ⊢
  rw [← List.append_assoc] at hpacket
  unfold ClientMachine.start
  simp only [hstate, hscid, if_false, ClientMachine.packet, hm, hpacket]
  rw [List.append_assoc]

/-- The context of the cookie that answers an OPEN of this client. -/
def mintedContext (C : Crypto) (c s : HandshakeConfig) (scid : U64) (material : ClientMaterial)
    (binding : ObservedBinding) (boot : Bytes 16) (bucket : U64) : CookieContext :=
  ⟨binding, c.localId, s.localId, scid, C.x25519Public material.ephemeralSecret, boot, bucket,
    s.serverContextId⟩

theorem cookieInput_ok (h : Mirrored C c s) (hbinding : binding.validate = .ok ()) (scid : U64)
    (material : ClientMaterial) (boot : Bytes 16) (bucket : U64) :
    ∃ input, cookieInput C (mintedContext C c s scid material binding boot bucket) = .ok input := by
  obtain ⟨hclient, hserver, -⟩ := h.identities
  obtain ⟨-, -, -, -, -, -, hcontext⟩ := config_validate h.server
  simp only [cookieInput, mintedContext, hclient, hserver, hcontext, hbinding, if_false, bind,
    Except.bind]
  exact ⟨_, rfl⟩

theorem receiveOpen_ok (h : Mirrored C c s) {m : ServerMachine} (hm : m.config = s)
    (hscid : scid ≠ 0) (hbinding : binding.validate = .ok ()) {opening : List Byte}
    (hopen : handshakePacket c scid OPEN (openBody C c material) c.source c.destination =
      .ok opening) (bucket : U64) :
    ∃ input verify,
      m.openContext C opening binding bucket =
        .ok (mintedContext C c s scid material binding m.material.bootInstance bucket) ∧
      cookieInput C (mintedContext C c s scid material binding m.material.bootInstance bucket) =
        .ok input ∧
      handshakePacket s scid VERIFY_COOKIE (verifyBody C s c.localId
        (C.x25519Public material.ephemeralSecret) m.material.bootInstance
        (cookie C m.material.currentCookieKey input)) s.destination s.source = .ok verify ∧
      m.receiveOpen C opening binding bucket = .ok verify := by
  obtain ⟨-, hroom⟩ := h.room
  obtain ⟨hc, hs, hne⟩ := h.roles
  have hbody := h.handshakeBody hm (by simp) hopen
  have hclient := h.clientIdentity hm
    ((C.x25519Public material.ephemeralSecret).val ++ material.nonce.val)
  have hephemeral : arrayAt 32 (openBody C c material) 54 =
      C.x25519Public material.ephemeralSecret := by
    simp [openBody]
  obtain ⟨input, hinput⟩ := cookieInput_ok h hbinding scid material
    m.material.bootInstance bucket
  have hverifyBody : validateBody VERIFY_COOKIE (verifyBody C s c.localId
      (C.x25519Public material.ephemeralSecret) m.material.bootInstance
      (cookie C m.material.currentCookieKey input)) = .ok () := by
    apply validateBody_roles hs hc hne.symm (by simp)
    simp [bodyLength, VERIFY_COOKIE, OPEN]
  have hpacket := handshakePacket_ok scid s.destination s.source
    h.serverBounds.1 hscid (by simp) hverifyBody (by simp [verifyBody]; omega) h.serverBounds.2
  have hcontext : m.openContext C opening binding bucket =
      .ok (mintedContext C c s scid material binding m.material.bootInstance bucket) := by
    unfold ServerMachine.openContext
    simp only [hbody, bind, Except.bind, openBody, hclient]
    rw [← openBody, hephemeral, hm]
    rfl
  refine ⟨input, _, hcontext, hinput, hpacket, ?_⟩
  unfold mintedContext at hinput
  unfold verifyBody at hpacket
  unfold ServerMachine.receiveOpen ServerMachine.packet
  simp only [hbinding, hbody, bind, Except.bind, openBody, hclient]
  rw [← openBody, hephemeral, hm]
  simp only [hinput, hpacket]
  rfl

/-- The two checks of a VERIFY_COOKIE: it answers the OPEN that was sent. -/
theorem validateVerifyCookie_ok (h : Mirrored C c s) {m : ClientMachine} (hm : m.config = c)
    {opening verify : List Byte}
    (hopen : handshakePacket c scid OPEN (openBody C c material) c.source c.destination =
      .ok opening)
    (hverify : handshakePacket s scid VERIFY_COOKIE (verifyBody C s c.localId
      (C.x25519Public material.ephemeralSecret) boot ck) s.destination s.source = .ok verify) :
    m.validateVerifyCookie C verify scid material opening =
      .ok (sesHeader s.profile 0 scid s.destination s.source, boot, ck) := by
  obtain ⟨hroom, -⟩ := h.room
  have hunpackOpen := unpack_handshakePacket hopen c.budget (by simp; omega)
  have hunpackVerify := unpack_handshakePacket hverify c.budget
    (by simp [verifyBody]; omega)
  have hservice := h.identities.2.2
  have hvalidOpening : m.validateOpening C scid material (sesHeader c.profile 0 scid c.source
      c.destination) (handshakePayload c OPEN (openBody C c material)) = .ok () := by
    simp [ClientMachine.validateOpening, validateSessionHeader, sesHeader, hm, handshakePayload,
      openBody, identityBody, bind, Except.bind]
  unfold ClientMachine.validateVerifyCookie
  rw [hm, hunpackOpen, hunpackVerify]
  simp only [Except.mapError, bind, Except.bind, hvalidOpening]
  simp [validateSessionHeader, sesHeader, h.profile, h.source, h.destination, handshakePayload,
    verifyBody, openBody, identityBody, h.peer, hservice]

/-- The transcript of OPEN_AUTH, as either end puts it together. -/
def openAuthContext (C : Crypto) (c s : HandshakeConfig) (scid : U64) (material : ClientMaterial)
    (boot : Bytes 16) : TranscriptContext where
  profile := c.profile
  scid := scid
  client := c.localId
  server := s.localId.placeholder
  clientEphemeral := C.x25519Public material.ephemeralSecret
  serverEphemeral := zeros 32
  clientNonce := material.nonce
  serverNonce := zeros 32
  boot := boot

theorem authContext_eq (h : Mirrored C c s) {m : ClientMachine} (hm : m.config = c) :
    m.authContext C scid material boot = openAuthContext C c s scid material boot := by
  simp [ClientMachine.authContext, openAuthContext, hm, h.peer]

theorem openAuthContext_ok (h : Mirrored C c s) :
    transcriptT0 C (openAuthContext C c s scid material boot) =
      .ok (openAuthContext C c s scid material boot).bytes := by
  obtain ⟨hclient, hserver, hservice⟩ := h.identities
  obtain ⟨hrole, hzero, -⟩ := identity_validate hserver
  simp [transcriptT0, openAuthContext, Identity.placeholder, hclient, hrole, hzero, hservice, bind,
    Except.bind]

@[simp] theorem authBody_length {signature : Bytes 64} :
    (authBody C c material boot ck signature).length = 230 := by
  simp [authBody]

theorem authBody_valid (h : Mirrored C c s) (signature : Bytes 64) :
    validateBody OPEN_AUTH (authBody C c material boot ck signature) = .ok () := by
  obtain ⟨hc, hs, hne⟩ := h.roles
  rw [← h.peer] at hs hne
  apply validateBody_roles hc hs hne (by simp)
  simp [bodyLength, OPEN_AUTH, VERIFY_COOKIE, OPEN]

theorem buildOpenAuth_ok (h : Mirrored C c s) {m : ClientMachine} (hm : m.config = c)
    (hscid : scid ≠ 0) (material : ClientMaterial) (boot : Bytes 16) (ck : Bytes 32) :
    ∃ openAuth,
      handshakePacket c scid OPEN_AUTH (authBody C c material boot ck (signOpenAuth C m.signingKey
        (openAuthContext C c s scid material boot).bytes)) c.source c.destination = .ok openAuth ∧
      m.buildOpenAuth C scid material boot ck = .ok openAuth := by
  obtain ⟨hroom, -⟩ := h.room
  obtain ⟨openAuth, hpacket⟩ : ∃ openAuth, handshakePacket c scid OPEN_AUTH
      (authBody C c material boot ck (signOpenAuth C m.signingKey
        (openAuthContext C c s scid material boot).bytes)) c.source c.destination = .ok openAuth :=
    ⟨_, handshakePacket_ok scid c.source c.destination h.bounds.1 hscid (by simp)
      (authBody_valid h _) (by rw [authBody_length]; omega) h.bounds.2⟩
  refine ⟨openAuth, hpacket, ?_⟩
  simp only [authBody, openBody, List.append_assoc] at hpacket
  unfold ClientMachine.buildOpenAuth ClientMachine.packet
  simp only [authContext_eq h hm, openAuthContext_ok h, bind, Except.bind, hm,
    List.append_assoc]
  exact hpacket

theorem receiveVerify_ok (h : Mirrored C c s) {m : ClientMachine} (hm : m.config = c)
    (hscid : scid ≠ 0) {opening verify : List Byte} {deadlineMs nowMs : U64}
    (hstate : m.state = .cookieWait ⟨scid, material, opening, deadlineMs⟩)
    (hopen : handshakePacket c scid OPEN (openBody C c material) c.source c.destination =
      .ok opening)
    (hverify : handshakePacket s scid VERIFY_COOKIE (verifyBody C s c.localId
      (C.x25519Public material.ephemeralSecret) boot ck) s.destination s.source = .ok verify)
    (htime : nowMs < deadlineMs) :
    ∃ openAuth,
      handshakePacket c scid OPEN_AUTH (authBody C c material boot ck (signOpenAuth C m.signingKey
        (openAuthContext C c s scid material boot).bytes)) c.source c.destination = .ok openAuth ∧
      m.receiveVerify C verify nowMs =
        ({ m with state := .authWait ⟨scid, material, boot, opening,
          sesHeader s.profile 0 scid s.destination s.source, ck, openAuth, deadlineMs⟩ },
          .ok openAuth) := by
  obtain ⟨openAuth, hpacket, hbuild⟩ := buildOpenAuth_ok h hm hscid material boot ck
  have hrelease : m.releaseCookieWaitIfExpired nowMs = (m, false) := by
    apply ClientMachine.releaseCookieWaitIfExpired_early
    intro d hd
    simp only [ClientMachine.deadlineMs?, hstate, Option.mem_some_iff] at hd
    rwa [← hd]
  refine ⟨openAuth, hpacket, ?_⟩
  unfold ClientMachine.receiveVerify
  simp only [hrelease, hstate, htime, if_true, validateVerifyCookie_ok h hm hopen hverify, hbuild,
    bind, Except.bind]

/-- The whole transcript. -/
def honestContext (C : Crypto) (c s : HandshakeConfig) (scid : U64) (material : ClientMaterial)
    (serverMaterial : ServerHandshakeMaterial) (boot : Bytes 16) : TranscriptContext where
  profile := c.profile
  scid := scid
  client := c.localId
  server := s.localId
  clientEphemeral := C.x25519Public material.ephemeralSecret
  serverEphemeral := C.x25519Public serverMaterial.ephemeralSecret
  clientNonce := material.nonce
  serverNonce := serverMaterial.nonce
  boot := boot

/-- All that the keys depend on, when both ends are honest. -/
def honestHandshake (C : Crypto) (c s : HandshakeConfig) (scid : U64) (material : ClientMaterial)
    (serverMaterial : ServerHandshakeMaterial) (boot : Bytes 16)
    (clientKey serverKey : Bytes 32) : Handshake where
  context := honestContext C c s scid material serverMaterial boot
  clientSignature := signOpenAuth C clientKey (openAuthContext C c s scid material boot).bytes
  serverSignature :=
    signOpenAck C serverKey (honestContext C c s scid material serverMaterial boot).bytes
  shared := C.diffieHellman serverMaterial.ephemeralSecret
    (C.x25519Public material.ephemeralSecret)

variable {serverMaterial : ServerHandshakeMaterial}

theorem honestContext_ok (h : Mirrored C c s) :
    transcriptT0 C (honestContext C c s scid material serverMaterial boot) =
      .ok (honestContext C c s scid material serverMaterial boot).bytes := by
  obtain ⟨hclient, hserver, hservice⟩ := h.identities
  obtain ⟨hrole, hzero, heid⟩ := identity_validate hserver
  simp [transcriptT0, honestContext, hclient, hrole, hzero, hservice, heid, bind, Except.bind]

/-- A key of slot zero, from one role to another. -/
def Handshake.key (C : Crypto) (h : Handshake) (sender receiver : Byte) : Bytes 32 :=
  C.hkdfExpand (h.schedule C) (keyInfo (h.hash C) h.context.profile sender receiver 0)

theorem Handshake.session_ok (h : Handshake) {a b : Byte} (ha : isRole a) (hb : isRole b)
    (hne : a ≠ b) (budget owner : ℕ) :
    h.session C a b budget owner =
      .ok (.new owner (h.key C a b) (h.key C b a) (h.hash C) budget) := by
  have hslot : ¬ (1 : Byte) < 0 := by decide
  simp [Handshake.session, deriveKeyFromPrk, ha, hb, hne, hne.symm, hslot, Handshake.key, bind,
    Except.bind]

def ackBody (C : Crypto) (s : HandshakeConfig) (clientRole : Byte)
    (serverMaterial : ServerHandshakeMaterial) (signature : Bytes 64) : List Byte :=
  [s.localId.role, clientRole] ++ u32Bytes s.localId.serviceContext ++ s.localId.eid.val ++
    s.localId.publicKey.val ++ (C.x25519Public serverMaterial.ephemeralSecret).val ++
    serverMaterial.nonce.val ++ signature.val

theorem ackBody_valid (h : Mirrored C c s) (serverMaterial : ServerHandshakeMaterial)
    (signature : Bytes 64) :
    validateBody OPEN_ACK (ackBody C s c.localId.role serverMaterial signature) = .ok () := by
  obtain ⟨hc, hs, hne⟩ := h.roles
  apply validateBody_roles hs hc hne.symm (by simp)
  simp [bodyLength, OPEN_ACK, OPEN_AUTH, VERIFY_COOKIE, OPEN]

/-- OPEN_AUTH as the server reads it. -/
def sentAuth (C : Crypto) (c : HandshakeConfig) (material : ClientMaterial) (boot : Bytes 16)
    (ck : Bytes 32) (signature : Bytes 64) : ServerMachine.OpenAuth :=
  ⟨c.localId, C.x25519Public material.ephemeralSecret, material.nonce, boot, ck, signature⟩

theorem parseAuth_ok (h : Mirrored C c s) {m : ServerMachine} (hm : m.config = s)
    (material : ClientMaterial) (boot : Bytes 16) (ck : Bytes 32) (signature : Bytes 64) :
    m.parseAuth C (authBody C c material boot ck signature) =
      .ok (sentAuth C c material boot ck signature) := by
  have hclient := h.clientIdentity hm ((C.x25519Public material.ephemeralSecret).val ++
    (material.nonce.val ++ (boot.val ++ (ck.val ++ signature.val))))
  have hbody : authBody C c material boot ck signature =
      identityBody c.localId c.peer.role ++ ((C.x25519Public material.ephemeralSecret).val ++
        (material.nonce.val ++ (boot.val ++ (ck.val ++ signature.val)))) := by
    simp [authBody, openBody]
  unfold ServerMachine.parseAuth
  rw [hbody, hclient]
  simp [bind, Except.bind, sentAuth]

section

variable {m : ServerMachine} {clientKey : Bytes 32}

/-- The server's part of the signatures and the key exchange. -/
theorem completeHandshake_ok (hC : C.Correct) (h : Mirrored C c s) (hm : m.config = s)
    (hkey : C.verifyingKey clientKey = c.localId.publicKey)
    (hshared : C.diffieHellman serverMaterial.ephemeralSecret
      (C.x25519Public material.ephemeralSecret) ≠ zeros 32) (scid : U64) (boot : Bytes 16)
    (ck : Bytes 32) :
    m.completeHandshake C scid (sentAuth C c material boot ck (signOpenAuth C clientKey
        (openAuthContext C c s scid material boot).bytes)) serverMaterial =
      .ok (honestHandshake C c s scid material serverMaterial boot clientKey m.signingKey) := by
  have hplaceholder : ∀ signature, m.placeholderContext scid
      (sentAuth C c material boot ck signature) = openAuthContext C c s scid material boot := by
    intro signature
    simp [ServerMachine.placeholderContext, sentAuth, openAuthContext, hm, h.profile]
  have hactual : ∀ signature, m.actualContext C scid
      (sentAuth C c material boot ck signature) serverMaterial =
        honestContext C c s scid material serverMaterial boot := by
    intro signature
    simp [ServerMachine.actualContext, sentAuth, honestContext, hm, h.profile]
  have hverify : verifySignature C c.localId.publicKey OPEN_AUTH_DOMAIN
      (openAuthContext C c s scid material boot).bytes (signOpenAuth C clientKey
        (openAuthContext C c s scid material boot).bytes) = .ok () := by
    rw [← hkey]
    simp [verifySignature, hC.decodes, signOpenAuth, hC.verifies]
  unfold ServerMachine.completeHandshake
  simp only [hplaceholder, hactual, openAuthContext_ok h, honestContext_ok h, bind, Except.bind]
  simp [sentAuth, hverify, x25519, hshared, honestHandshake]

/-- The session of the end with the first role. -/
def Handshake.sessionOf (C : Crypto) (h : Handshake) (a b : Byte) (budget owner : ℕ) :
    DirectionalSession :=
  .new owner (h.key C a b) (h.key C b a) (h.hash C) budget

theorem answer_ok (h : Mirrored C c s) (hm : m.config = s) (hscid : scid ≠ 0)
    (handshake : Handshake) (hcontext : handshake.context =
      honestContext C c s scid material serverMaterial boot) (owner : ℕ) :
    ∃ ack,
      handshakePacket s scid OPEN_ACK (ackBody C s c.localId.role serverMaterial
        handshake.serverSignature) s.destination s.source = .ok ack ∧
      m.answer C scid handshake owner =
        .ok (handshake.sessionOf C s.localId.role c.localId.role s.budget owner, ack) := by
  obtain ⟨-, hroom⟩ := h.room
  obtain ⟨hc, hs, hne⟩ := h.roles
  obtain ⟨ack, hpacket⟩ : ∃ ack, handshakePacket s scid OPEN_ACK (ackBody C s c.localId.role
      serverMaterial handshake.serverSignature) s.destination s.source = .ok ack :=
    ⟨_, handshakePacket_ok scid s.destination s.source h.serverBounds.1 hscid (by simp)
      (ackBody_valid h _ _) (by simp [ackBody]; omega) h.serverBounds.2⟩
  refine ⟨ack, hpacket, ?_⟩
  have hclient : handshake.context.client = c.localId := by rw [hcontext]; rfl
  have hephemeral : handshake.context.serverEphemeral =
      C.x25519Public serverMaterial.ephemeralSecret := by rw [hcontext]; rfl
  have hnonce : handshake.context.serverNonce = serverMaterial.nonce := by rw [hcontext]; rfl
  unfold ackBody at hpacket
  unfold ServerMachine.answer ServerMachine.packet
  simp only [hm, hclient, hephemeral, hnonce, handshake.session_ok hs hc hne.symm, hpacket, bind,
    Except.bind]
  rfl

/-- The entry an honest client's OPEN_AUTH leaves behind. -/
def honestPending (C : Crypto) (c s : HandshakeConfig) (scid : U64) (h : Handshake)
    (openAuth ack : List Byte) (binding : ObservedBinding) (deadlineMs : U64) (owner : ℕ) :
    PendingSession where
  scid := scid
  opening := openAuth
  cachedAck := ack
  binding := binding
  deadlineMs := deadlineMs
  session := h.sessionOf C s.localId.role c.localId.role s.budget owner
  schedule := if c.profile = 3 then some (h.schedule C) else none

theorem receiveOpenAuth_ok (hC : C.Correct) (h : Mirrored C c s) (hm : m.config = s)
    (hscid : scid ≠ 0) (hbinding : binding.validate = .ok ())
    (hkey : C.verifyingKey clientKey = c.localId.publicKey)
    (hshared : C.diffieHellman serverMaterial.ephemeralSecret
      (C.x25519Public material.ephemeralSecret) ≠ zeros 32) {openAuth : List Byte} {nowMs : U64}
    (hauth : handshakePacket c scid OPEN_AUTH (authBody C c material boot ck (signOpenAuth C
      clientKey (openAuthContext C c s scid material boot).bytes)) c.source c.destination =
      .ok openAuth)
    (hcookie : m.checkCookie C scid (sentAuth C c material boot ck (signOpenAuth C clientKey
      (openAuthContext C c s scid material boot).bytes)) binding nowMs bucket = .ok ())
    (hfree : scid ∉ (m.expire nowMs).scids)
    (hroom : (m.expire nowMs).pending.length < s.pendingLimit) (owner : ℕ) :
    let handshake := honestHandshake C c s scid material serverMaterial boot clientKey m.signingKey
    ∃ ack,
      handshakePacket s scid OPEN_ACK (ackBody C s c.localId.role serverMaterial
        handshake.serverSignature) s.destination s.source = .ok ack ∧
      m.receiveOpenAuth C openAuth binding nowMs bucket (some serverMaterial) owner =
        ({ m.expire nowMs with
          pending := (m.expire nowMs).pending ++ [honestPending C c s scid handshake openAuth ack
            binding (satAdd nowMs 5000) owner] }, .ok ack) := by
  intro handshake
  have hconfig : (m.expire nowMs).config = s := hm
  obtain ⟨ack, hpacket, hanswer⟩ := answer_ok (m := m.expire nowMs) h hconfig hscid
    handshake rfl owner
  refine ⟨ack, hpacket, ?_⟩
  have hbody := h.handshakeBody hconfig (by simp) hauth
  have hcached : (m.expire nowMs).cachedAnswer scid openAuth binding = none :=
    ServerMachine.cachedAnswer_eq_none.mpr hfree
  have hparse := parseAuth_ok h hconfig material boot ck
    (signOpenAuth C clientKey (openAuthContext C c s scid material boot).bytes)
  have hcookie' : (m.expire nowMs).checkCookie C scid (sentAuth C c material boot ck (signOpenAuth C
      clientKey (openAuthContext C c s scid material boot).bytes)) binding nowMs bucket =
      .ok () := hcookie
  have hlimit : ¬ (m.expire nowMs).config.pendingLimit ≤ (m.expire nowMs).pending.length := by
    rw [hconfig]
    exact not_le.mpr hroom
  have hrequest : (m.expire nowMs).authRequest C openAuth binding nowMs bucket
      (some serverMaterial) = .ok (.inr (scid, sentAuth C c material boot ck (signOpenAuth C
        clientKey (openAuthContext C c s scid material boot).bytes), serverMaterial)) := by
    unfold ServerMachine.authRequest ServerMachine.admitAuth
    simp only [hbody, hcached, hparse, hcookie', hlimit, if_false, bind, Except.bind]
  have hcomplete := completeHandshake_ok (m := m.expire nowMs) hC h hconfig hkey hshared scid
    boot ck
  have hprofile : (m.expire nowMs).config.profile = c.profile := by rw [hconfig, h.profile]
  unfold ServerMachine.receiveOpenAuth
  simp only [hbinding, hrequest, hcomplete, bind, Except.bind]
  have hkeySame : (m.expire nowMs).signingKey = m.signingKey := rfl
  simp only [hkeySame, hprofile]
  have hanswer' : (m.expire nowMs).answer C scid (honestHandshake C c s scid material serverMaterial
      boot clientKey m.signingKey) owner = _ := hanswer
  simp only [hanswer']
  rfl

end

section

variable {m : ClientMachine} {serverKey : Bytes 32} {openAuth ack opening : List Byte}
  {deadlineMs nowMs : U64} {verifyHeader : Header}

theorem parseAck_ok (h : Mirrored C c s) (hm : m.config = c) {signature : Bytes 64} {wait : AuthWait}
    (hwait : wait.scid = scid)
    (hack : handshakePacket s scid OPEN_ACK (ackBody C s c.localId.role serverMaterial signature)
      s.destination s.source = .ok ack) :
    m.parseAck wait ack = .ok ⟨C.x25519Public serverMaterial.ephemeralSecret,
      serverMaterial.nonce, signature⟩ := by
  obtain ⟨hroom, -⟩ := h.room
  have hlen : (ackBody C s c.localId.role serverMaterial signature).length = 182 := by
    simp [ackBody]
  have hdecode := decode_handshakePayload s c.budget
    (ackBody_valid h serverMaterial signature) (by omega)
  have hunpack := unpack_handshakePacket hack c.budget (by omega)
  rw [h.profile] at hdecode
  have hheader : validateSessionHeader (sesHeader s.profile 0 scid s.destination s.source) c.profile 0
      wait.scid c.destination c.source = .ok () := by
    simp [validateSessionHeader, sesHeader, hwait, h.profile, h.source, h.destination]
  unfold ClientMachine.parseAck
  rw [hm, hunpack]
  simp only [Except.mapError, bind, Except.bind, hheader, hdecode]
  simp [ackBody, h.peer]

/-- The signature that a client waiting for its OPEN_ACK has put into OPEN_AUTH. -/
theorem sentSignature_ok {signature : Bytes 64} {wait : AuthWait} (hwait : wait.openAuth = openAuth)
    (hauth : handshakePacket c scid OPEN_AUTH (authBody C c material boot ck signature) c.source
      c.destination = .ok openAuth) :
    ClientMachine.sentSignature wait = .ok signature := by
  have hunpack : Header.unpack openAuth = _ :=
    unpack_handshakePacket hauth _ (handshakePacket_size hauth).1
  unfold ClientMachine.sentSignature
  rw [hwait, hunpack]
  simp [handshakePayload, authBody]

/-- The client's part of the signatures and the key exchange. -/
theorem clientHandshake_ok (hC : C.Correct) (h : Mirrored C c s) (hm : m.config = c)
    (hkey : C.verifyingKey serverKey = s.localId.publicKey)
    (hshared : C.diffieHellman serverMaterial.ephemeralSecret
      (C.x25519Public material.ephemeralSecret) ≠ zeros 32) {wait : AuthWait}
    (hscid : wait.scid = scid) (hmaterial : wait.material = material) (hboot : wait.boot = boot)
    (hopenAuth : wait.openAuth = openAuth)
    (hauth : handshakePacket c scid OPEN_AUTH (authBody C c material boot ck (signOpenAuth C
      m.signingKey (openAuthContext C c s scid material boot).bytes)) c.source c.destination =
      .ok openAuth)
    (hack : handshakePacket s scid OPEN_ACK (ackBody C s c.localId.role serverMaterial
      (signOpenAck C serverKey (honestContext C c s scid material serverMaterial boot).bytes))
      s.destination s.source = .ok ack) :
    m.completeHandshake C wait ack =
      .ok (honestHandshake C c s scid material serverMaterial boot m.signingKey serverKey) := by
  have hcontext : ∀ signature, m.ackContext C wait ⟨C.x25519Public serverMaterial.ephemeralSecret,
      serverMaterial.nonce, signature⟩ = honestContext C c s scid material serverMaterial boot := by
    intro signature
    simp [ClientMachine.ackContext, honestContext, hm, h.peer, hscid, hmaterial, hboot]
  have hverify : verifySignature C s.localId.publicKey OPEN_ACK_DOMAIN
      (honestContext C c s scid material serverMaterial boot).bytes (signOpenAck C serverKey
        (honestContext C c s scid material serverMaterial boot).bytes) = .ok () := by
    rw [← hkey]
    simp [verifySignature, hC.decodes, signOpenAck, hC.verifies]
  have hagree := hC.agrees serverMaterial.ephemeralSecret material.ephemeralSecret
  rw [hagree] at hshared
  unfold ClientMachine.completeHandshake
  simp only [parseAck_ok h hm hscid hack, hcontext, honestContext_ok h, hm, h.peer, hverify,
    sentSignature_ok hopenAuth hauth, bind, Except.bind]
  simp [x25519, hmaterial, hshared, honestHandshake, hagree]

/-- A session that has just been derived can seal its confirmation. -/
theorem accept_ok (h : Mirrored C c s) (hscid : scid ≠ 0) (handshake : Handshake) (owner : ℕ) :
    ∃ accept, ((handshake.sessionOf C c.localId.role s.localId.role c.budget owner).encrypt C
      (sesHeader c.profile 1 scid c.source c.destination) SESSION_ACCEPT
      (ClientMachine.acceptText (handshake.hash C)) c.budget).2.2 = .ok accept := by
  obtain ⟨hroom, -⟩ := h.room
  apply encrypt_sesHeader_ok c.source c.destination h.bounds.1 hscid h.bounds.2
  · have hlen : (ClientMachine.acceptText (handshake.hash C)).length = 44 := by
      rw [ClientMachine.acceptText, List.length_append, (handshake.hash C).property]
      decide
    have hbudget : ¬ c.budget < 12 + 44 + 16 + 48 := by omega
    simp [DirectionalSession.encryptGuard, hlen, hbudget, SESSION_ACCEPT, SESSION_DATA, CLOSE]
  · rfl

theorem receiveAck_ok (hC : C.Correct) (h : Mirrored C c s) (hm : m.config = c) (hscid : scid ≠ 0)
    (hkey : C.verifyingKey serverKey = s.localId.publicKey)
    (hshared : C.diffieHellman serverMaterial.ephemeralSecret
      (C.x25519Public material.ephemeralSecret) ≠ zeros 32)
    (hstate : m.state = .authWait ⟨scid, material, boot, opening, verifyHeader, ck, openAuth,
      deadlineMs⟩) (htime : nowMs < deadlineMs)
    (hauth : handshakePacket c scid OPEN_AUTH (authBody C c material boot ck (signOpenAuth C
      m.signingKey (openAuthContext C c s scid material boot).bytes)) c.source c.destination =
      .ok openAuth)
    (hack : handshakePacket s scid OPEN_ACK (ackBody C s c.localId.role serverMaterial
      (signOpenAck C serverKey (honestContext C c s scid material serverMaterial boot).bytes))
      s.destination s.source = .ok ack) (owner : ℕ) :
    let handshake := honestHandshake C c s scid material serverMaterial boot m.signingKey serverKey
    let session := handshake.sessionOf C c.localId.role s.localId.role c.budget owner
    let sealed := session.encrypt C (sesHeader c.profile 1 scid c.source c.destination)
      SESSION_ACCEPT (ClientMachine.acceptText (handshake.hash C)) c.budget
    ∃ accept, sealed.2.2 = .ok accept ∧
      m.receiveAck C ack nowMs owner =
        ({ m with state := .established ⟨scid, sealed.1,
          if c.profile = 3 then some (handshake.schedule C) else none, accept⟩ }, sealed.2.1,
          .ok accept) := by
  intro handshake session sealed
  obtain ⟨accept, haccept⟩ := accept_ok h hscid handshake owner
  obtain ⟨hc, hs, hne⟩ := h.roles
  have hcomplete : m.completeHandshake C ⟨scid, material, boot, opening, verifyHeader, ck, openAuth,
      deadlineMs⟩ ack = .ok handshake :=
    clientHandshake_ok hC h hm hkey hshared rfl rfl rfl rfl hauth hack
  have hsession := handshake.session_ok (C := C) hc hs hne c.budget owner
  refine ⟨accept, haccept, ?_⟩
  have hroles : handshake.session C m.config.localId.role m.config.peer.role m.config.budget owner =
      .ok session := by
    rw [hm, h.peer]
    exact hsession
  have hsealed : session.encrypt C (sesHeader m.config.profile 1 scid m.config.source
      m.config.destination) SESSION_ACCEPT (ClientMachine.acceptText session.transcriptHash)
      m.config.budget = sealed := by
    rw [hm]
    rfl
  have hout : sealed.2.2 = .ok accept := haccept
  unfold ClientMachine.receiveAck
  simp only [hstate, if_neg (not_le.mpr htime), hcomplete, hroles, hsealed, hout, bind, Except.bind]
  rw [hm]

end

/-- Two sessions of one handshake, before anything is sealed. -/
theorem sessionOf_channel {α : Type} {carried : SealCall → List Byte → α → Prop}
    (handshake : Handshake) (x y : Byte) (budget budget' owner owner' : ℕ) :
    Channel carried (handshake.sessionOf C x y budget owner)
      (handshake.sessionOf C y x budget' owner') [] :=
  ⟨rfl, DirectionalSession.sane_new _ _ _ _ _, .nil 1⟩

theorem acceptText_length (hash : Bytes 32) : (ClientMachine.acceptText hash).length = 44 := by
  rw [ClientMachine.acceptText, List.length_append, hash.property]
  decide

theorem confirms_acceptText (session : DirectionalSession) :
    ServerMachine.confirms session (ClientMachine.acceptText session.transcriptHash) = true := by
  have hlen := acceptText_length session.transcriptHash
  have hascii : (ascii "R8 ACCEPT v1").length = 12 := by decide
  unfold ClientMachine.acceptText at hlen ⊢
  simp only [ServerMachine.confirms, hlen, List.take_left' hascii, List.drop_left' hascii, and_self,
    decide_true]

section

variable {m : ServerMachine} {nowMs : U64} {accept : List Byte} {a : DirectionalSession}

theorem acceptScid_ok (h : Mirrored C c s) (hm : m.config = s) {call : SealCall}
    (hc : Carries C call (sesHeader c.profile 1 scid c.source c.destination) SESSION_ACCEPT accept)
    (hlen : call.plaintext.length = 44) : m.acceptScid accept = .ok scid := by
  obtain ⟨-, hroom⟩ := h.room
  have hfit : accept.length ≤ s.budget := by
    rw [hc.length]
    omega
  have hdecode : SessionMessage.decode (accept.drop 48) c.profile s.budget =
      .ok ⟨SESSION_ACCEPT, c.profile, accept.drop 52⟩ := hc.decode _ hfit
  unfold ServerMachine.acceptScid
  rw [hm, hc.unpack _ hfit]
  simp [validateProtectedHeader, validateSessionHeader, sesHeader, h.profile, h.source,
    h.destination, hdecode, Except.mapError, bind, Except.bind]

/-- A pending entry takes the confirmation of the session at the other end. -/
theorem acceptPending_ok (i : Fin m.pending.length) (nowMs : U64) {p : ProtectedPreview}
    {session : DirectionalSession} {plaintext : List Byte}
    (hpreview : (m.pending.get i).session.preview C accept = .ok p)
    (hplain : p.plaintext = ClientMachine.acceptText (m.pending.get i).session.transcriptHash)
    (hcommit : (m.pending.get i).session.commit p = (session, .ok plaintext))
    (hroom : m.established.length < m.config.establishedLimit) :
    m.acceptPending C i accept nowMs =
      ({ m with
        pending := m.pending.eraseIdx i
        established := m.established ++ [(m.pending.get i).establish session accept nowMs] },
        .ok ()) := by
  unfold ServerMachine.acceptPending
  simp only [hpreview, hplain, confirms_acceptText, hcommit, if_neg (not_le.mpr hroom),
    not_true_eq_false, if_false]

theorem receiveAccept_ok (hC : C.Correct) (h : Mirrored C c s) (hm : m.config = s) (ht : m.Tables)
    {p : PendingSession} (hp : p ∈ (m.expire nowMs).pending)
    (hroom : (m.expire nowMs).established.length < s.establishedLimit)
    (hbudget : 282 ≤ p.session.receiveBudget)
    (hchannel : Channel (Plain C 282 (sesHeader c.profile 1 p.scid c.source c.destination)
      SESSION_ACCEPT) a p.session
        [(accept, ClientMachine.acceptText p.session.transcriptHash)]) :
    ∃ i w', (m.expire nowMs).pending.get i = p ∧
      m.receiveAccept C accept nowMs =
        ({ m.expire nowMs with
          pending := (m.expire nowMs).pending.eraseIdx i
          established := (m.expire nowMs).established ++
            [p.establish { p.session with replay := w' } accept nowMs] }, .ok ()) ∧
      Channel (Plain C 282 (sesHeader c.profile 1 p.scid c.source c.destination)
        SESSION_ACCEPT) a { p.session with replay := w' } [] := by
  have ht' := ServerMachine.tables_expire ht nowMs
  obtain ⟨i, hfind, hget⟩ := ht'.pendingPosition hp
  obtain ⟨call, v, w', ⟨hc, hcall, -⟩, hpreview, hplain, hcommit, hrest⟩ := hchannel.open hC
    (by decide) hbudget
  have hscid := acceptScid_ok (m := m.expire nowMs) h hm hc (by rw [hcall, acceptText_length])
  have hestablished : (m.expire nowMs).established.find? (fun entry => entry.scid = p.scid) =
      none := by
    rw [List.find?_eq_none]
    intro entry hentry
    simpa using ht'.pendingOnly hp entry hentry
  have haccept := acceptPending_ok (m := m.expire nowMs) i nowMs
    (by rw [hget]; exact hpreview) (by rw [hget, hplain]) (by rw [hget]; exact hcommit)
    (lt_of_lt_of_eq hroom (congrArg HandshakeConfig.establishedLimit hm).symm)
  rw [hget] at haccept
  refine ⟨i, w', hget, ?_, hrest⟩
  unfold ServerMachine.receiveAccept
  simp only [hscid, hestablished, hfind, haccept]

end

end Steps

end R8.Session
