import R8Protocol.Session.Established

/-! One handshake of an honest client with its server, from OPEN to the confirmation. -/
namespace R8.Session

open FixedWidth Wire Duplex

variable {C : Crypto}

/-- The server after a rotation of its cookie key, if there is one. -/
def ServerMachine.rotated (m : ServerMachine) : Option (Bytes 32 × U64) → ServerMachine
  | none => m
  | some (key, nowMs) => m.rotateCookieKey key nowMs

/-- Both machines, what they draw, and the times on their clocks. -/
structure Meeting where
  client : ClientMachine
  server : ServerMachine
  scid : U64
  material : ClientMaterial
  serverMaterial : ServerHandshakeMaterial
  binding : ObservedBinding
  startMs : U64
  verifyMs : U64
  ackMs : U64
  openMs : U64
  authMs : U64
  acceptMs : U64
  rotation : Option (Bytes 32 × U64)
  laterRotation : Option (Bytes 32 × U64)
  clientOwner : ℕ
  serverOwner : ℕ

namespace Meeting

variable (C)

/-- Up to the confirmation: an established client, a server with a pending entry, the packet. -/
def confirm (w : Meeting) :
    Except SessionError (ClientMachine × ServerMachine × List Byte) := do
  let (client, opening) := w.client.start C w.scid w.material w.startMs
  let verify ← w.server.receiveOpen C (← opening) w.binding (bucketOf w.openMs)
  let (client, openAuth) := client.receiveVerify C verify w.verifyMs
  let (server, ack) := (w.server.rotated w.rotation).receiveOpenAuth C (← openAuth) w.binding
    w.authMs (bucketOf w.authMs) (some w.serverMaterial) w.serverOwner
  let (client, _, accept) := client.receiveAck C (← ack) w.ackMs w.clientOwner
  .ok (client, server, ← accept)

/-- The whole of it. -/
def run (w : Meeting) : Except SessionError (ClientMachine × ServerMachine) := do
  let (client, server, accept) ← w.confirm C
  let (server, confirmed) := (server.rotated w.laterRotation).receiveAccept C accept w.acceptMs
  confirmed
  .ok (client, server)

/-- The server when OPEN_AUTH comes in. -/
def atAuth (w : Meeting) : ServerMachine := (w.server.rotated w.rotation).expire w.authMs

/-- Honest ends with room for the session, and every message in time. -/
structure Honest (w : Meeting) : Prop where
  mirrored : Mirrored C w.client.config w.server.config
  client : ClientMachine.Starts C w.client
  server : ServerMachine.Reach C w.server
  scid : w.scid ≠ 0
  unused : w.scid ∉ w.atAuth.scids
  pendingRoom : w.atAuth.pending.length < w.server.config.pendingLimit
  shared : C.diffieHellman w.serverMaterial.ephemeralSecret
    (C.x25519Public w.material.ephemeralSecret) ≠ zeros 32
  binding : w.binding.validate = .ok ()
  clientDeadline : w.verifyMs < satAdd w.startMs 5000 ∧ w.ackMs < satAdd w.startMs 5000
  bucket : bucketOf w.openMs ∈ buckets w.authMs
  rotation : ∀ r ∈ w.rotation, w.openMs ≤ r.2

/-- What the confirmation and the data behind it still need. -/
structure Prompt (w : Meeting) : Prop where
  budget : w.server.config.budget = w.client.config.budget
  establishedRoom : (w.atAuth.expire w.acceptMs).established.length <
    w.server.config.establishedLimit
  pendingDeadline : w.acceptMs < satAdd w.authMs 5000

/-- The server is where its configuration says, and takes the client to be there. -/
def AtHome (w : Meeting) : Prop :=
  w.server.effectiveLocalLoc = w.server.config.destination ∧
    w.server.effectivePeerLoc = w.server.config.source

/-- What both ends derive the session from. -/
def handshake (w : Meeting) : Handshake :=
  honestHandshake C w.client.config w.server.config w.scid w.material w.serverMaterial
    w.server.material.bootInstance w.client.signingKey w.server.signingKey

def clientSession (w : Meeting) : DirectionalSession :=
  (w.handshake C).sessionOf C w.client.config.localId.role w.server.config.localId.role
    w.client.config.budget w.clientOwner

def serverSession (w : Meeting) : DirectionalSession :=
  (w.handshake C).sessionOf C w.server.config.localId.role w.client.config.localId.role
    w.server.config.budget w.serverOwner

/-- The client once OPEN is out. -/
def openedClient (w : Meeting) (opening : List Byte) : ClientMachine :=
  { w.client with state := .cookieWait ⟨w.scid, w.material, opening, satAdd w.startMs 5000⟩ }

/-- The client once OPEN_AUTH is out. -/
def authClient (w : Meeting) (opening openAuth : List Byte) (ck : Bytes 32) : ClientMachine :=
  { w.client with state := .authWait ⟨w.scid, w.material, w.server.material.bootInstance, opening,
    sesHeader w.server.config.profile 0 w.scid w.server.config.destination w.server.config.source,
    ck, openAuth, satAdd w.startMs 5000⟩ }

/-- The confirmation as the client seals it. -/
def sealAccept (w : Meeting) : DirectionalSession × List SealCall × Except SessionError (List Byte) :=
  (w.clientSession C).encrypt C (sesHeader w.client.config.profile 1 w.scid w.client.config.source
    w.client.config.destination) SESSION_ACCEPT
    (ClientMachine.acceptText ((w.handshake C).hash C)) w.client.config.budget

/-- The client once it is established. -/
def confirmedClient (w : Meeting) (accept : List Byte) : ClientMachine :=
  { w.client with state := .established ⟨w.scid, (w.sealAccept C).1,
    if w.client.config.profile = 3 then some ((w.handshake C).schedule C) else none, accept⟩ }

/-- The entry that its answer leaves with the server. -/
def entry (w : Meeting) (openAuth ack : List Byte) : PendingSession :=
  honestPending C w.client.config w.server.config w.scid (w.handshake C) openAuth ack w.binding
    (satAdd w.authMs 5000) w.serverOwner

def answeringServer (w : Meeting) (openAuth ack : List Byte) : ServerMachine :=
  { w.atAuth with pending := w.atAuth.pending ++ [w.entry C openAuth ack] }

end Meeting

theorem ClientMachine.new_eq_ok {config : HandshakeConfig} {signingKey : Bytes 32}
    {m : ClientMachine} (h : ClientMachine.new C config signingKey = .ok m) :
    C.verifyingKey signingKey = config.localId.publicKey ∧
      m = ⟨config, signingKey, .idle, config.source, config.destination⟩ := by
  simp only [ClientMachine.new, Outcome.bind_eq_ok, Outcome.ite_error_eq_ok, Except.ok.injEq,
    not_not] at h
  obtain ⟨⟨⟩, -, hkey, rfl⟩ := h
  exact ⟨hkey, rfl⟩

namespace ServerMachine

variable {m m' : ServerMachine}

theorem Shift.identity {now? : Option U64} {h? : Option Handshake} (h : Shift C now? h? m m') :
    m'.config = m.config ∧ m'.signingKey = m.signingKey := by
  cases h <;> exact ⟨rfl, rfl⟩

/-- A server signs with the key of its identity. -/
theorem signingKey_reach (h : Reach C m) :
    C.verifyingKey m.signingKey = m.config.localId.publicKey := by
  refine h.invariant (I := fun m => C.verifyingKey m.signingKey = m.config.localId.publicKey) ?_ ?_
  · rintro m ⟨config, signingKey, material, hnew⟩
    simp only [ServerMachine.new, Outcome.bind_eq_ok, Outcome.ite_error_eq_ok, Except.ok.injEq,
      not_not] at hnew
    obtain ⟨⟨⟩, -, hkey, rfl⟩ := hnew
    exact hkey
  · intro m call hm _
    rcases step_shifts (C := C) m call with hshift | ⟨nowMs, -, hshift⟩
    · obtain ⟨hconfig, hkey⟩ := hshift.identity
      rw [hkey, hconfig, hm]
    · obtain ⟨hconfig, hkey⟩ := hshift.identity
      rw [hkey, hconfig]
      exact hm

/-- A rotation is about the cookie keys only. -/
theorem rotated_eq (m : ServerMachine) (r : Option (Bytes 32 × U64)) :
    ∃ material, m.rotated r = { m with material } ∧
      material.bootInstance = m.material.bootInstance := by
  rcases r with - | ⟨key, nowMs⟩
  · exact ⟨m.material, rfl, rfl⟩
  · exact ⟨_, rfl, rfl⟩

theorem rotated_reach (h : Reach C m) (r : Option (Bytes 32 × U64)) : Reach C (m.rotated r) := by
  rcases r with - | ⟨key, nowMs⟩
  · exact h
  · exact h.next (a := .rotateCookieKey key nowMs) trivial

/-- The key a cookie was computed under is still honoured after one rotation. -/
theorem rotated_key (m : ServerMachine) {r : Option (Bytes 32 × U64)} {t t' : U64}
    (hbucket : bucketOf t ∈ buckets t') (hr : ∀ x ∈ r, t ≤ x.2) :
    (m.rotated r).material.currentCookieKey = m.material.currentCookieKey ∨
      (satSub t' (m.rotated r).material.previousKeyRotatedMs).val ≤ 20000 ∧
        (m.rotated r).material.previousCookieKey = m.material.currentCookieKey := by
  rcases r with - | ⟨key, nowMs⟩
  · exact .inl rfl
  · have hle : t.val ≤ nowMs.val := hr (key, nowMs) rfl
    rw [mem_buckets, bucketOf_val] at hbucket
    refine .inr ⟨?_, rfl⟩
    simp only [rotated, rotateCookieKey, satSub_val]
    omega

end ServerMachine

variable {c s : HandshakeConfig} {scid : U64} {material : ClientMaterial} {boot : Bytes 16}

/-- The cookie check of an honest OPEN_AUTH. -/
theorem checkCookie_ok {m m' : ServerMachine} {binding : ObservedBinding} {input : List Byte}
    {signature : Bytes 64} {nowMs bucket bucket' : U64} (hm' : m'.config = m.config)
    (hboot : m'.material.bootInstance = m.material.bootInstance)
    (hinput : cookieInput C (mintedContext C c m.config scid material binding
      m.material.bootInstance bucket) = .ok input)
    (hbucket : bucket ∈ buckets nowMs)
    (hkey : m'.material.currentCookieKey = m.material.currentCookieKey ∨
      (satSub nowMs m'.material.previousKeyRotatedMs).val ≤ 20000 ∧
        m'.material.previousCookieKey = m.material.currentCookieKey) :
    m'.checkCookie C scid (sentAuth C c material m.material.bootInstance
      (cookie C m.material.currentCookieKey input) signature) binding nowMs bucket' = .ok () := by
  rw [ServerMachine.checkCookie_iff]
  have hmatch : MatchesIn C m.material.currentCookieKey
      (cookie C m.material.currentCookieKey input) (m'.checkContext scid (sentAuth C c material
        m.material.bootInstance (cookie C m.material.currentCookieKey input) signature) binding
        bucket') (buckets nowMs) := by
    apply ServerMachine.matchesIn_same hinput
    · simp [mintedContext, ServerMachine.checkContext, hm']
    · exact ⟨rfl, rfl, rfl, rfl, rfl, by simp [mintedContext, ServerMachine.checkContext, hm']⟩
    · exact hbucket
  refine ⟨hboot.symm, ?_⟩
  rcases hkey with hkey | ⟨hrotated, hkey⟩
  · exact .inl (by rw [hkey]; exact hmatch)
  · exact .inr ⟨hrotated, by rw [hkey]; exact hmatch⟩

namespace Meeting

variable {w : Meeting}

theorem atAuth_eq (w : Meeting) :
    w.atAuth.config = w.server.config ∧ w.atAuth.signingKey = w.server.signingKey ∧
      w.atAuth.effectiveLocalLoc = w.server.effectiveLocalLoc ∧
      w.atAuth.effectivePeerLoc = w.server.effectivePeerLoc := by
  obtain ⟨material, hrotated, -⟩ := w.server.rotated_eq w.rotation
  rw [atAuth, hrotated]
  exact ⟨rfl, rfl, rfl, rfl⟩

section

variable {opening verify openAuth ack : List Byte} {ck : Bytes 32} {input : List Byte}

theorem receiveVerify_ok (h : w.Honest C)
    (hopening : handshakePacket w.client.config w.scid OPEN (openBody C w.client.config w.material)
      w.client.config.source w.client.config.destination = .ok opening)
    (hverify : handshakePacket w.server.config w.scid VERIFY_COOKIE (verifyBody C w.server.config
      w.client.config.localId (C.x25519Public w.material.ephemeralSecret)
      w.server.material.bootInstance ck) w.server.config.destination w.server.config.source =
      .ok verify) :
    ∃ openAuth,
      handshakePacket w.client.config w.scid OPEN_AUTH (authBody C w.client.config w.material
        w.server.material.bootInstance ck (w.handshake C).clientSignature) w.client.config.source
        w.client.config.destination = .ok openAuth ∧
      (w.openedClient opening).receiveVerify C verify w.verifyMs =
        (w.authClient opening openAuth ck, .ok openAuth) :=
  Session.receiveVerify_ok (m := w.openedClient opening) h.mirrored rfl h.scid rfl hopening hverify h.clientDeadline.1

/-- The cookie of the OPEN is still good when OPEN_AUTH brings it back. -/
theorem receiveOpenAuth_ok (hC : C.Correct) (h : w.Honest C)
    (hkey : C.verifyingKey w.client.signingKey = w.client.config.localId.publicKey)
    (hinput : cookieInput C (mintedContext C w.client.config w.server.config w.scid w.material
      w.binding w.server.material.bootInstance (bucketOf w.openMs)) = .ok input)
    (hopenAuth : handshakePacket w.client.config w.scid OPEN_AUTH (authBody C w.client.config
      w.material w.server.material.bootInstance (cookie C w.server.material.currentCookieKey input)
      (w.handshake C).clientSignature) w.client.config.source w.client.config.destination =
      .ok openAuth) :
    ∃ ack,
      handshakePacket w.server.config w.scid OPEN_ACK (ackBody C w.server.config
        w.client.config.localId.role w.serverMaterial (w.handshake C).serverSignature)
        w.server.config.destination w.server.config.source = .ok ack ∧
      (w.server.rotated w.rotation).receiveOpenAuth C openAuth w.binding w.authMs
        (bucketOf w.authMs) (some w.serverMaterial) w.serverOwner =
          (w.answeringServer C openAuth ack, .ok ack) := by
  have hrotatedKey := w.server.rotated_key h.bucket h.rotation
  have hunused := h.unused
  have hpendingRoom := h.pendingRoom
  unfold answeringServer
  unfold atAuth at hunused hpendingRoom ⊢
  obtain ⟨material, hrotated, hboot⟩ := w.server.rotated_eq w.rotation
  rw [hrotated] at hrotatedKey hunused hpendingRoom ⊢
  have hcookie : ServerMachine.checkCookie C { w.server with material } w.scid
      (sentAuth C w.client.config w.material w.server.material.bootInstance
        (cookie C w.server.material.currentCookieKey input) (w.handshake C).clientSignature)
      w.binding w.authMs (bucketOf w.authMs) = .ok () :=
    checkCookie_ok rfl hboot hinput h.bucket hrotatedKey
  exact Session.receiveOpenAuth_ok (m := { w.server with material }) hC h.mirrored rfl h.scid
    h.binding hkey h.shared hopenAuth hcookie hunused hpendingRoom w.serverOwner

theorem receiveAck_ok (hC : C.Correct) (h : w.Honest C)
    (hkey : C.verifyingKey w.server.signingKey = w.server.config.localId.publicKey)
    (hopenAuth : handshakePacket w.client.config w.scid OPEN_AUTH (authBody C w.client.config
      w.material w.server.material.bootInstance ck (w.handshake C).clientSignature)
      w.client.config.source w.client.config.destination = .ok openAuth)
    (hack : handshakePacket w.server.config w.scid OPEN_ACK (ackBody C w.server.config
      w.client.config.localId.role w.serverMaterial (w.handshake C).serverSignature)
      w.server.config.destination w.server.config.source = .ok ack) (opening : List Byte) :
    ∃ accept, (w.sealAccept C).2.2 = .ok accept ∧
      (w.authClient opening openAuth ck).receiveAck C ack w.ackMs w.clientOwner =
        (w.confirmedClient C accept, (w.sealAccept C).2.1, .ok accept) :=
  Session.receiveAck_ok (m := w.authClient opening openAuth ck) hC h.mirrored rfl h.scid hkey h.shared rfl h.clientDeadline.2 hopenAuth hack
    w.clientOwner

end

/-- The first five messages of an honest handshake. -/
theorem confirm_ok (hC : C.Correct) (h : w.Honest C) :
    ∃ openAuth ack accept, (w.sealAccept C).2.2 = .ok accept ∧
      ServerMachine.Reach C (w.answeringServer C openAuth ack) ∧
      w.confirm C = .ok (w.confirmedClient C accept, w.answeringServer C openAuth ack, accept) := by
  obtain ⟨config, signingKey, hnew⟩ := h.client
  obtain ⟨hclientKey, hclient⟩ := ClientMachine.new_eq_ok hnew
  have hkey : C.verifyingKey w.client.signingKey = w.client.config.localId.publicKey := by
    rw [hclient]
    exact hclientKey
  have hidle : w.client.state = .idle := by rw [hclient]
  obtain ⟨opening, hopening, hstart⟩ := start_ok h.mirrored rfl hidle h.scid w.material w.startMs
  obtain ⟨input, verify, -, hinput, hverify, hreceiveOpen⟩ :=
    receiveOpen_ok h.mirrored rfl h.scid h.binding hopening (bucketOf w.openMs)
  obtain ⟨openAuth, hopenAuth, hreceiveVerify⟩ := receiveVerify_ok h hopening hverify
  obtain ⟨ack, hack, hreceiveOpenAuth⟩ := receiveOpenAuth_ok hC h hkey hinput hopenAuth
  obtain ⟨accept, haccept, hreceiveAck⟩ := receiveAck_ok hC h
    (ServerMachine.signingKey_reach h.server) hopenAuth hack opening
  have hopened : w.client.start C w.scid w.material w.startMs =
      (w.openedClient opening, .ok opening) := hstart
  have hreach := (ServerMachine.rotated_reach h.server w.rotation).next (a := .receiveOpenAuth
    openAuth w.binding w.authMs (bucketOf w.authMs) (some w.serverMaterial) w.serverOwner) trivial
  simp only [ServerMachine.step, hreceiveOpenAuth] at hreach
  refine ⟨openAuth, ack, accept, haccept, hreach, ?_⟩
  simp only [confirm, hopened, hreceiveOpen, hreceiveVerify, hreceiveOpenAuth, hreceiveAck, bind,
    Except.bind]

/-- The confirmation on its way: all that the client has sealed so far. -/
theorem sealAccept_channel {accept : List Byte}
    (haccept : (w.sealAccept C).2.2 = .ok accept) :
    ∃ call, Seals (w.clientSession C) (w.sealAccept C).1 call
        (ClientMachine.acceptText ((w.handshake C).hash C)) ∧
      Channel (Plain C 282 (sesHeader w.client.config.profile 1 w.scid
        w.client.config.source w.client.config.destination) SESSION_ACCEPT) (w.sealAccept C).1
        (w.serverSession C) [(accept, ClientMachine.acceptText ((w.handshake C).hash C))] := by
  obtain ⟨call, -, hseals, hcarries⟩ := encrypt_carries haccept
  have hlen : accept.length ≤ 282 := by
    rw [hcarries.length, hseals.plaintext, acceptText_length]
    omega
  have hempty : Channel (Plain C 282 (sesHeader w.client.config.profile 1 w.scid
      w.client.config.source w.client.config.destination) SESSION_ACCEPT) (w.clientSession C)
      (w.serverSession C) [] :=
    sessionOf_channel (w.handshake C) w.client.config.localId.role w.server.config.localId.role
      w.client.config.budget w.server.config.budget w.clientOwner w.serverOwner
  exact ⟨call, hseals, hempty.send hseals ⟨hcarries, hseals.plaintext, hlen⟩⟩

/-- Both ends at the end of a handshake. -/
structure Joined (C : Crypto) (w : Meeting) (client : ClientMachine) (server : ServerMachine)
    (e : ClientSession) (e' : EstablishedSession) : Prop where
  joint : Joint C w.client.config w.server.config w.scid ⟨client, server, [], []⟩ e e'
  locs : server.effectiveLocalLoc = w.server.effectiveLocalLoc ∧
    server.effectivePeerLoc = w.server.effectivePeerLoc
  transcript : e.session.transcriptHash = e'.session.transcriptHash
  keys : e.session.sendKey = e'.session.receiveKey ∧ e.session.receiveKey = e'.session.sendKey
  counters : e.session.sendCounters.next = 2 ∧ e'.session.sendCounters.next = 1
  schedules : w.client.config.profile = 3 →
    e.schedule = some ((w.handshake C).schedule C) ∧
      e'.schedule = some ((w.handshake C).schedule C)

theorem Joined.linked {client : ClientMachine} {server : ServerMachine} {e : ClientSession}
    {e' : EstablishedSession} (h : Joined C w client server e e') (hw : w.AtHome) :
    Linked C w.client.config w.server.config w.scid ⟨client, server, [], []⟩ e e' :=
  { h.joint with serverLocs := ⟨h.locs.1.trans hw.1, h.locs.2.trans hw.2⟩ }

/-- The machine that takes the confirmation. -/
theorem receiveAccept_ok (hC : C.Correct) (h : w.Honest C) (hp : w.Prompt)
    {openAuth ack accept : List Byte} (haccept : (w.sealAccept C).2.2 = .ok accept)
    (hreach : ServerMachine.Reach C (w.answeringServer C openAuth ack)) :
    ∃ server e', ((w.answeringServer C openAuth ack).rotated w.laterRotation).receiveAccept C accept
        w.acceptMs = (server, .ok ()) ∧
      Joined C w (w.confirmedClient C accept) server ⟨w.scid, (w.sealAccept C).1,
        if w.client.config.profile = 3 then some ((w.handshake C).schedule C) else none, accept⟩
        e' := by
  have hreach' := ServerMachine.rotated_reach hreach w.laterRotation
  obtain ⟨material, hrotated, -⟩ :=
    (w.answeringServer C openAuth ack).rotated_eq w.laterRotation
  rw [hrotated] at hreach' ⊢
  obtain ⟨hconfig, -, hlocal, hpeer⟩ := w.atAuth_eq
  obtain ⟨call, hseals, hchannel⟩ := sealAccept_channel haccept
  have hmem : w.entry C openAuth ack ∈
      (ServerMachine.expire { w.answeringServer C openAuth ack with material } w.acceptMs).pending :=
    List.mem_filter.mpr ⟨List.mem_append_right _ (List.mem_singleton.mpr rfl),
      decide_eq_true hp.pendingDeadline⟩
  obtain ⟨i, w', -, hreceive, hrest⟩ := Session.receiveAccept_ok
    (m := { w.answeringServer C openAuth ack with material }) hC h.mirrored hconfig
    (ServerMachine.tables_reach hreach') hmem hp.establishedRoom h.mirrored.room.2 hchannel
  have hnext := hreach'.next (a := .receiveAccept accept w.acceptMs) trivial
  simp only [ServerMachine.step, hreceive] at hnext
  have hsent : (w.sealAccept C).1 = { w.clientSession C with sendCounters := ⟨2⟩ } := hseals.next
  have hback : Channel (Plain C w.client.config.budget (sesHeader w.client.config.profile 1 w.scid
      w.client.config.destination w.client.config.source) SESSION_DATA)
      { w.serverSession C with replay := w' } (w.sealAccept C).1 [] := by
    have hempty : Channel (Plain C w.client.config.budget (sesHeader w.client.config.profile 1
        w.scid w.client.config.destination w.client.config.source) SESSION_DATA)
        (w.serverSession C) (w.clientSession C) [] :=
      sessionOf_channel (w.handshake C) w.server.config.localId.role w.client.config.localId.role
        w.server.config.budget w.client.config.budget w.serverOwner w.clientOwner
    rw [hsent]
    exact hempty.frame ⟨rfl, rfl⟩ ⟨rfl, rfl⟩
  obtain ⟨config, signingKey, hnew⟩ := h.client
  obtain ⟨-, hclient⟩ := ClientMachine.new_eq_ok hnew
  refine ⟨_, (w.entry C openAuth ack).establish { w.serverSession C with replay := w' } accept
    w.acceptMs, hreceive, ?_, ⟨hlocal, hpeer⟩, ?_, ?_, ?_, ?_⟩
  · exact {
      clientConfig := rfl
      clientLocs := by rw [confirmedClient, hclient]; exact ⟨rfl, rfl⟩
      clientState := rfl
      serverConfig := hconfig
      tables := ServerMachine.tables_reach hnext
      entry := List.mem_append_right _ (List.mem_singleton.mpr rfl)
      scids := ⟨rfl, rfl⟩
      budgets := ⟨by rw [hsent]; rfl, rfl⟩
      toRight := hrest.empty
      toLeft := hback }
  · rw [hsent]
    rfl
  · rw [hsent]
    exact ⟨rfl, rfl⟩
  · rw [hsent]
    exact ⟨rfl, rfl⟩
  · intro hprofile
    refine ⟨if_pos hprofile, ?_⟩
    exact if_pos hprofile

/-- All six messages. -/
theorem run_ok (hC : C.Correct) (h : w.Honest C) (hp : w.Prompt) :
    ∃ client server e e', w.run C = .ok (client, server) ∧ Joined C w client server e e' := by
  obtain ⟨openAuth, ack, accept, haccept, hreach, hconfirm⟩ := confirm_ok hC h
  obtain ⟨server, e', hreceive, hjoined⟩ := receiveAccept_ok hC h hp haccept hreach
  refine ⟨_, server, _, e', ?_, hjoined⟩
  simp only [run, hconfirm, hreceive, bind, Except.bind]

end Meeting

end R8.Session
