import R8Protocol.Session.Rounds

/-! A run of `r8session connect` against the loop of `r8session serve`, with others around. -/
namespace R8.Session

open FixedWidth Wire

/-- The number of timeouts in `RETRIES`. -/
def RETRIES : ℕ := 3

/-- Where `receive_retry` leaves the client, what it has sent and what is left at the socket. -/
structure Retried (α : Type) where
  client : ClientMachine
  sent : List (List Byte)
  events : List SocketEvent
  result : Except CliError α

/-- The attempts that are left. A socket that has nothing more times out. -/
def receiveRetry {α : Type} (peer : SocketAddr) (packet : List Byte) (budget : ℕ)
    (receivePacket : ClientMachine → Datagram → ClientMachine × Except SessionError α) :
    ℕ → ClientMachine → List SocketEvent → Retried α
  | 0, client, events => ⟨client, [], events, .error (.session .timeout)⟩
  | attempts + 1, client, events =>
    match receive budget (events.head?.getD .timesOut) with
    | .ok response =>
      if response.endpoint = peer then
        match receivePacket client response with
        | (client, .ok value) => ⟨client, [], events.tail, .ok value⟩
        | (client, .error _) =>
          let r := receiveRetry peer packet budget receivePacket attempts client events.tail
          { r with sent := packet :: r.sent }
      else receiveRetry peer packet budget receivePacket attempts client events.tail
    | .error (.session .timeout) =>
      let r := receiveRetry peer packet budget receivePacket attempts client events.tail
      { r with sent := packet :: r.sent }
    | .error e => ⟨client, [], events.tail, .error e⟩

/-- The machine of `connect` and the server it is for. -/
def connectMachine (C : Crypto) (o : Options) : Except SessionError (SocketAddr × ClientMachine) :=
  match o.peer with
  | none => .error .configError
  | some peer =>
    if ¬ peer.allowedUnderlay o.isolated ∨ ¬ o.bind.allowedUnderlay o.isolated then
      .error .configError
    else do
      let config ← machineConfig C o
      let client ← ClientMachine.new C config o.localSeed
      .ok (peer, client)

/-- What goes to the server, and how it ends. The SCID and the material are drawn. -/
def connect (C : Crypto) (o : Options) (scid : U64) (material : ClientMaterial)
    (events : List SocketEvent) : List (List Byte) × Except CliError Unit :=
  match connectMachine C o with
  | .error e => ([], .error (.session e))
  | .ok (peer, client) =>
    match client.start C (o.scid.getD scid) material 0 with
    | (_, .error e) => ([], .error (.session e))
    | (client, .ok opening) =>
      let r := receiveRetry peer opening o.budget
        (fun m a => m.receiveVerify C a.packet.val a.nowMs) RETRIES client events
      match r.result with
      | .error e => (opening :: r.sent, .error e)
      | .ok auth =>
        let r' := receiveRetry peer auth o.budget
          (fun m a =>
            let x := m.receiveAck C a.packet.val a.nowMs a.owner
            (x.1, x.2.2)) RETRIES r.client r.events
        let sent := opening :: r.sent ++ auth :: r'.sent
        match r'.result with
        | .error e => (sent, .error e)
        | .ok accept =>
          match o.message with
          | none => (sent ++ [accept], .error (.session .configError))
          | some message =>
            match r'.client.sendData C message with
            | (_, _, .error e) => (sent ++ [accept], .error (.session e))
            | (client, _, .ok data) =>
              let r'' := receiveRetry peer data o.budget
                (fun m a => m.receiveData C a.packet.val) RETRIES client r'.events
              let sent := sent ++ accept :: data :: r''.sent
              match r''.result with
              | .error e => (sent, .error e)
              | .ok _ =>
                match r''.client.close C 0 with
                | (_, _, .error e) => (sent, .error (.session e))
                | (_, _, .ok close) => (sent ++ [close], .ok ())

/-- What a client hears while it still waits for its answer: nothing, or somebody else. -/
def Missed (o : Options) (host : SocketAddr) (event : SocketEvent) : Prop :=
  event = .timesOut ∨
    ∃ a, event = .arrives a ∧ a.endpoint ≠ host ∧ a.packet.val.length ≤ o.budget

/-- A client that hears nothing sends its packet again. -/
def resends (packet : List Byte) (missed : List SocketEvent) : List (List Byte) :=
  missed.flatMap fun event =>
    match event with
    | .timesOut => [packet]
    | _ => []

/-- The answer counts as long as it is not behind too many other events. -/
theorem receiveRetry_ok {α : Type} {peer : SocketAddr} {packet : List Byte} {o : Options}
    {receivePacket : ClientMachine → Datagram → ClientMachine × Except SessionError α}
    {client client' : ClientMachine} {missed rest : List SocketEvent} {a : Datagram} {value : α}
    (hmissed : ∀ event ∈ missed, Missed o peer event) (hpeer : a.endpoint = peer)
    (hfit : a.packet.val.length ≤ o.budget)
    (hreceive : receivePacket client a = (client', .ok value))
    (attempts : ℕ) (hlen : missed.length < attempts) :
    receiveRetry peer packet o.budget receivePacket attempts client (missed ++ .arrives a :: rest) =
      ⟨client', resends packet missed, rest, .ok value⟩ := by
  induction missed generalizing attempts with
  | nil =>
    obtain ⟨n, rfl⟩ : ∃ n, attempts = n + 1 := ⟨attempts - 1, by simp at hlen; omega⟩
    have hgot : receive o.budget (.arrives a) = .ok a := if_pos hfit
    simp [receiveRetry, hgot, hpeer, hreceive, resends]
  | cons event missed ih =>
    obtain ⟨n, rfl⟩ : ∃ n, attempts = n + 1 := ⟨attempts - 1, by simp at hlen; omega⟩
    rw [List.length_cons] at hlen
    obtain ⟨hevent, hmissed⟩ := List.forall_mem_cons.mp hmissed
    have hlater := ih hmissed n (by omega)
    rcases hevent with rfl | ⟨b, rfl, hother, hfit'⟩
    · simp [receiveRetry, receive, hlater, resends]
    · have hgot : receive o.budget (.arrives b) = .ok b := if_pos hfit'
      simp [receiveRetry, hgot, hother, hlater, resends]

/-- What is drawn for a datagram that comes in, and when it does. -/
structure Draw where
  nowMs : U64
  cookieKey : Bytes 32
  material : ServerHandshakeMaterial
  owner : ℕ

def Draw.datagram (d : Draw) (endpoint : SocketAddr) (packet : Slice) : Datagram :=
  ⟨packet, endpoint, d.nowMs, d.cookieKey, d.material, d.owner⟩

/-- A datagram with what comes in before it. -/
structure Leg (α : Type) where
  before : List α
  draw : Draw

/-- What reaches the loop up to a packet from this endpoint. -/
def Leg.arrivals (x : Leg Datagram) (endpoint : SocketAddr) (packet : Slice) : List Datagram :=
  x.before ++ [x.draw.datagram endpoint packet]

theorem Slice.nil_fits : ([] : List Byte).length < 2 ^ 64 := Nat.two_pow_pos 64

/-- A packet that fits a slice. -/
def Slice.of (packet : Option (List Byte)) : Slice :=
  if h : (packet.getD []).length < 2 ^ 64 then ⟨packet.getD [], h⟩ else ⟨[], Slice.nil_fits⟩

/-- A run of `connect` against a loop that others send to as well. -/
structure Visit where
  options : Options
  scid : U64
  material : ClientMaterial
  message : List Byte
  host : SocketAddr
  endpoint : SocketAddr
  opening : Draw
  verify : Leg SocketEvent
  auth : Leg Datagram
  ack : Leg SocketEvent
  accept : Leg Datagram
  data : Leg Datagram
  echo : Leg SocketEvent
  close : Leg Datagram

/-- Both programs with a packet of the client on its way, and the answer in front of it. -/
structure Hand where
  client : ClientMachine
  server : Serving
  answer : Slice
  packet : Slice

namespace Visit

variable (C : Crypto) (o : Options) (v : Visit)

def id : U64 := v.options.scid.getD v.scid

/-- One copy of a packet of the client reaches the loop, behind the datagrams of others. -/
def reaches (s : Serving) (x : Leg Datagram) (packet : Slice) : Serving × Slice :=
  let r := (s.after C o x.before).round C o (x.draw.datagram v.endpoint packet)
  (r.1, .of r.2)

def opened (client : ClientMachine) (s : Serving) : Hand :=
  let r := client.start C v.id v.material 0
  ⟨r.1, s, .of none, .of r.2.toOption⟩

def authed (w : Hand) : Hand :=
  let r := v.reaches C o w.server ⟨[], v.opening⟩ w.packet
  let c := w.client.receiveVerify C r.2.val v.verify.draw.nowMs
  ⟨c.1, r.1, r.2, .of c.2.toOption⟩

def accepted (w : Hand) : Hand :=
  let r := v.reaches C o w.server v.auth w.packet
  let c := w.client.receiveAck C r.2.val v.ack.draw.nowMs v.ack.draw.owner
  ⟨c.1, r.1, r.2, .of c.2.2.toOption⟩

def sent (w : Hand) : Hand :=
  let r := v.reaches C o w.server v.accept w.packet
  let c := w.client.sendData C v.message
  ⟨c.1, r.1, r.2, .of c.2.2.toOption⟩

def closed (w : Hand) : Hand :=
  let r := v.reaches C o w.server v.data w.packet
  let c := w.client.receiveData C r.2.val
  let c' := c.1.close C 0
  ⟨c'.1, r.1, r.2, .of c'.2.2.toOption⟩

/-- Both programs at every packet of the client. -/
structure Course where
  opened : Hand
  authed : Hand
  accepted : Hand
  sent : Hand
  closed : Hand
  left : Serving

def course (client : ClientMachine) (s : Serving) : Course :=
  let opened := v.opened C client s
  let authed := v.authed C o opened
  let accepted := v.accepted C o authed
  let sent := v.sent C o accepted
  let closed := v.closed C o sent
  ⟨opened, authed, accepted, sent, closed, (v.reaches C o closed.server v.close closed.packet).1⟩

/-- What the socket of the client comes up with. -/
def events (w : Course) : List SocketEvent :=
  v.verify.before ++ .arrives (v.verify.draw.datagram v.host w.authed.answer) ::
    (v.ack.before ++ .arrives (v.ack.draw.datagram v.host w.accepted.answer) ::
      (v.echo.before ++ [.arrives (v.echo.draw.datagram v.host w.closed.answer)]))

/-- What the client sends. -/
def packets (w : Course) : List (List Byte) :=
  w.opened.packet.val :: resends w.opened.packet.val v.verify.before ++
    w.authed.packet.val :: resends w.authed.packet.val v.ack.before ++
    w.accepted.packet.val :: w.sent.packet.val :: resends w.sent.packet.val v.echo.before ++
    [w.closed.packet.val]

/-- What reaches the loop up to the data. Resends are lost. -/
def answered (w : Course) : List Datagram :=
  v.opening.datagram v.endpoint w.opened.packet ::
    (v.auth.arrivals v.endpoint w.authed.packet ++ v.accept.arrivals v.endpoint w.accepted.packet ++
      v.data.arrivals v.endpoint w.sent.packet)

/-- What reaches the loop. -/
def arrivals (w : Course) : List Datagram :=
  v.answered w ++ v.close.arrivals v.endpoint w.closed.packet

end Visit

/-- The options of a client and of the server it is for. -/
structure Facing (C : Crypto) (c s : Options) : Prop where
  peer : c.peerKey = C.verifyingKey s.localSeed
  pinned : s.peerKey = C.verifyingKey c.localSeed
  service : s.service = c.service
  source : s.destination = c.source
  destination : s.source = c.destination
  budget : s.budget = c.budget
  room : 282 ≤ c.budget

section

variable {C : Crypto} {o : Options} {host : SocketAddr} {client : ClientMachine} {s : Serving}

theorem connectMachine_eq_ok {c : Options} (h : connectMachine C c = .ok (host, client)) :
    c.peer = some host ∧ machineConfig C c = .ok client.config ∧
      client.config.validate C = .ok () ∧
      C.verifyingKey client.signingKey = client.config.localId.publicKey ∧
      client.state = .idle ∧ client.effectiveLocalLoc = client.config.source ∧
      client.effectivePeerLoc = client.config.destination := by
  unfold connectMachine at h
  split at h
  · cases h
  · rename_i peer hpeer
    simp only [Outcome.ite_error_eq_ok, Outcome.bind_eq_ok, Except.ok.injEq, Prod.mk.injEq] at h
    obtain ⟨-, config, hconfig, client', hnew, rfl, rfl⟩ := h
    have hvalid : config.validate C = .ok () := by
      simp only [ClientMachine.new, Outcome.bind_eq_ok] at hnew
      obtain ⟨⟨⟩, hvalid, -⟩ := hnew
      exact hvalid
    obtain ⟨hkey, rfl⟩ := ClientMachine.new_eq_ok hnew
    exact ⟨hpeer, hconfig, hvalid, hkey, rfl, rfl, rfl⟩

theorem Facing.mirrored {c : Options} (h : Facing C c o)
    (hclient : connectMachine C c = .ok (host, client)) (hs : Serving.Standing C o s) :
    Mirrored C client.config s.server.config ∧ client.config.budget = c.budget ∧
      s.server.config.budget = client.config.budget := by
  obtain ⟨-, hconfig, hvalid, -⟩ := connectMachine_eq_ok hclient
  have hvalid' := (ServerMachine.healthy_reach hs.bound.server).config
  have hserver := hs.config
  simp only [machineConfig, Identity.fromPublicKey, Outcome.bind_eq_ok, Outcome.ite_error_eq_ok,
    Except.ok.injEq] at hconfig
  simp only [Serving.serverConfig, Identity.fromPublicKey, Outcome.bind_eq_ok,
    Outcome.ite_error_eq_ok, Except.ok.injEq] at hserver
  obtain ⟨localId, ⟨-, rfl⟩, peer, ⟨-, rfl⟩, hconfig⟩ := hconfig
  obtain ⟨localId', ⟨-, rfl⟩, peer', ⟨-, rfl⟩, hserver⟩ := hserver
  rw [← hconfig] at hvalid ⊢
  rw [← hserver] at hvalid' ⊢
  refine ⟨⟨hvalid, hvalid', ?_, ?_, rfl, h.source, h.destination, h.room, ?_⟩, rfl, h.budget⟩
  · simp only [h.peer, h.service]
  · simp only [h.pinned, h.service]
  · exact h.budget ▸ h.room

end

theorem Slice.of_val {packet : List Byte} (h : packet.length < 2 ^ 64) :
    (Slice.of (some packet)).val = packet :=
  congrArg Subtype.val (dif_pos h)

theorem handshakePacket_length {config : HandshakeConfig} {scid : U64} {typ : Byte}
    {body packet : List Byte} {src dst : Bytes 16}
    (h : handshakePacket config scid typ body src dst = .ok packet) :
    packet.length = 52 + body.length := by
  obtain ⟨-, -, -, rfl⟩ := handshakePacket_eq_ok h
  rw [Header.bytes_eq, List.length_append, Header.fixed_length, handshakePayload]
  simp only [List.length_append, List.length_cons, List.length_nil]
  omega

namespace Visit

variable {C : Crypto} {o : Options} {v : Visit} {client : ClientMachine} {s : Serving}
  {binding : UdpBinding} {w : Hand}

/-- A client of this server, with nobody else at its endpoint. -/
structure Honest (C : Crypto) (o : Options) (v : Visit) (client : ClientMachine) (s : Serving)
    (binding : UdpBinding) : Prop where
  machine : connectMachine C v.options = .ok (v.host, client)
  facing : Facing C v.options o
  id : v.id ≠ 0
  message : v.options.message = some v.message
  fits : v.message.length + 76 ≤ v.options.budget
  allowed : v.endpoint.allowedUnderlay o.isolated = true
  bound : v.endpoint.endpointBinding s.selector = .ok binding
  shared : C.diffieHellman v.auth.draw.material.ephemeralSecret
    (C.x25519Public v.material.ephemeralSecret) ≠ zeros 32
  strangers : ∀ x ∈ [v.auth, v.accept, v.data, v.close], ∀ a ∈ x.before,
    s.Foreign (.udp binding) a ∧ a.packet.val.length ≤ o.budget
  missed : ∀ x ∈ [v.verify, v.ack, v.echo], x.before.length < RETRIES ∧
    ∀ event ∈ x.before, Missed v.options v.host event

/-- Every packet in time, by the clocks of both programs. -/
structure Prompt (v : Visit) : Prop where
  client : v.verify.draw.nowMs < satAdd 0 5000 ∧ v.ack.draw.nowMs < satAdd 0 5000
  bucket : bucketOf v.opening.nowMs ∈ buckets v.auth.draw.nowMs
  opening : v.opening.nowMs ≤ v.auth.draw.nowMs ∧ ∀ a ∈ v.auth.before, v.opening.nowMs ≤ a.nowMs
  order : ∀ x ∈ [v.auth, v.accept, v.data, v.close], ∀ a ∈ x.before, a.nowMs ≤ x.draw.nowMs
  accept : v.auth.draw.nowMs ≤ v.accept.draw.nowMs ∧
    v.accept.draw.nowMs < satAdd v.auth.draw.nowMs 5000
  data : (satSub v.data.draw.nowMs v.accept.draw.nowMs).val < 120000
  close : (satSub v.close.draw.nowMs v.data.draw.nowMs).val < 120000

theorem opened_ok (h : v.Honest C o client s binding) (hs : Serving.Standing C o s) :
    handshakePacket client.config v.id OPEN (openBody C client.config v.material)
        client.config.source client.config.destination = .ok (v.opened C client s).packet.val ∧
      v.opened C client s = ⟨{ client with state := .cookieWait ⟨v.id, v.material,
        (v.opened C client s).packet.val, satAdd 0 5000⟩ }, s, .of none,
          (v.opened C client s).packet⟩ ∧
      client.start C v.id v.material 0 =
        ((v.opened C client s).client, .ok (v.opened C client s).packet.val) ∧
      (v.opened C client s).packet.val.length = 170 := by
  obtain ⟨hmirrored, -, -⟩ := h.facing.mirrored h.machine hs
  obtain ⟨-, -, -, -, hidle, -⟩ := connectMachine_eq_ok h.machine
  obtain ⟨opening, hopening, hstart⟩ := start_ok hmirrored rfl hidle h.id v.material 0
  have hlen := handshakePacket_length hopening
  rw [openBody_length] at hlen
  have hpacket : (v.opened C client s).packet.val = opening := by
    simp only [Visit.opened, hstart]
    exact Slice.of_val (by omega)
  rw [hpacket]
  refine ⟨hopening, ?_, ?_, hlen⟩
  · simp only [Visit.opened, hstart]
  · simp only [Visit.opened, hstart]

theorem reaches_eq {x : Leg Datagram} {packet : Slice} {response : Option (List Byte)}
    (h : ((s.after C o x.before).round C o (x.draw.datagram v.endpoint packet)).2 = response) :
    v.reaches C o s x packet =
      (((s.after C o x.before).round C o (x.draw.datagram v.endpoint packet)).1, .of response) := by
  rw [Visit.reaches, h]

/-- The limiter has room for one more OPEN of this endpoint. -/
structure Admitted (C : Crypto) (v : Visit) (s : Serving) : Prop where
  tokens : (s.limiter.refill v.opening.nowMs).tokens ≠ 0
  admissible : s.limiter.Admissible
    ⟨v.endpoint.opaqueSource C s.sourceHashKey, 170, 170, v.opening.nowMs⟩

/-- Where the programs are once the cookie has come back. -/
structure Authed (C : Crypto) (o : Options) (v : Visit) (client : ClientMachine) (s : Serving)
    (binding : UdpBinding) (w w' : Hand) (key : Bytes 32) (input : List Byte) : Prop where
  round : s.round C o (v.opening.datagram v.endpoint w.packet) = (w'.server, some w'.answer.val)
  standing : Serving.Standing C o w'.server
  fixed : Serving.Fixed s w'.server
  minted : cookieInput C (mintedContext C client.config s.server.config v.id v.material
    (.udp binding) s.server.material.bootInstance (bucketOf v.opening.nowMs)) = .ok input
  honours : Serving.Honours key v.opening.nowMs w'.server
  answer : w'.answer.val.length = 170
  packet : handshakePacket client.config v.id OPEN_AUTH (authBody C client.config v.material
    s.server.material.bootInstance (cookie C key input) (signOpenAuth C client.signingKey
      (openAuthContext C client.config s.server.config v.id v.material
        s.server.material.bootInstance).bytes)) client.config.source client.config.destination =
    .ok w'.packet.val
  state : w'.client = { client with state := .authWait ⟨v.id, v.material,
    s.server.material.bootInstance, w.packet.val, sesHeader s.server.config.profile 0 v.id
      s.server.config.destination s.server.config.source, cookie C key input, w'.packet.val,
      satAdd 0 5000⟩ }
  receive : w.client.receiveVerify C w'.answer.val v.verify.draw.nowMs =
    (w'.client, .ok w'.packet.val)

theorem authed_ok (h : v.Honest C o client s binding) (hp : v.Prompt)
    (hs : Serving.Standing C o s) (ha : v.Admitted C s) :
    ∃ key input, v.Authed C o client s binding (v.opened C client s)
      (v.authed C o (v.opened C client s)) key input := by
  obtain ⟨hmirrored, -, -⟩ := h.facing.mirrored h.machine hs
  obtain ⟨hopening, hopened, -, hlen⟩ := opened_ok h hs
  generalize v.opened C client s = w at hopening hopened hlen ⊢
  have hlimiter : (s.limiter.admitSource (ServerMachine.openAdmit w.packet
      (v.endpoint.opaqueSource C s.sourceHashKey) v.opening.nowMs)).2 = .ok () := by
    have hargs : ServerMachine.openAdmit w.packet (v.endpoint.opaqueSource C s.sourceHashKey)
        v.opening.nowMs =
          ⟨v.endpoint.opaqueSource C s.sourceHashKey, 170, 170, v.opening.nowMs⟩ := by
      simp only [ServerMachine.openAdmit, hlen]
      rfl
    rw [hargs]
    exact PrevalidationLimiter.admitSource_eq_ok_iff.mpr ⟨ha.tokens, ha.admissible⟩
  obtain ⟨key, input, verify, hinput, hverify, hround, hhonours⟩ :=
    Serving.round_open (a := v.opening.datagram v.endpoint w.packet) hs hmirrored h.id h.allowed
      h.bound hlimiter hopening
  have hverifyLen : verify.length = 170 := by
    rw [handshakePacket_length hverify]
    simp [verifyBody]
  have hclient : w.client = { client with state := .cookieWait ⟨v.id, v.material, w.packet.val,
      satAdd 0 5000⟩ } := congrArg Hand.client hopened
  have hserver : w.server = s := congrArg Hand.server hopened
  obtain ⟨openAuth, hopenAuth, hreceive⟩ := receiveVerify_ok (m := w.client) hmirrored
    (by rw [hclient]) h.id (by rw [hclient]) hopening hverify hp.client.1
  have hauthLen := handshakePacket_length hopenAuth
  rw [authBody_length] at hauthLen
  have hanswer : (Slice.of (some verify)).val = verify := Slice.of_val (by omega)
  have hauthed : v.authed C o w = ⟨(w.client.receiveVerify C verify v.verify.draw.nowMs).1,
      (s.round C o (v.opening.datagram v.endpoint w.packet)).1, .of (some verify),
      .of (some openAuth)⟩ := by
    have hreach := reaches_eq (x := ⟨[], v.opening⟩) hround
    simp only [Visit.authed, hserver, hreach, hanswer, hreceive]
    rfl
  have hpacket : (Slice.of (some openAuth)).val = openAuth := Slice.of_val (by omega)
  rw [hauthed]
  refine ⟨key, input, ?_, hs.round _, (Serving.round_fixed hs.bound o _).1, hinput, hhonours, ?_,
    ?_, ?_, ?_⟩
  · rw [hanswer, ← hround]
  · rw [hanswer, hverifyLen]
  · have hkey : w.client.signingKey = client.signingKey := by rw [hclient]
    rw [hpacket, ← hkey]
    exact hopenAuth
  · rw [hpacket, hreceive, hclient]
  · rw [hpacket, hanswer, hreceive]

/-- The tables have room for the session when OPEN_AUTH comes in. -/
structure Free (v : Visit) (s : Serving) : Prop where
  unused : v.id ∉ (s.server.expire v.auth.draw.nowMs).scids
  room : (s.server.expire v.auth.draw.nowMs).pending.length < 256

/-- What both ends derive the session from. -/
def handshake (C : Crypto) (v : Visit) (client : ClientMachine) (s : Serving) : Handshake :=
  honestHandshake C client.config s.server.config v.id v.material v.auth.draw.material
    s.server.material.bootInstance client.signingKey s.server.signingKey

/-- The confirmation as the client seals it. -/
def sealAccept (C : Crypto) (v : Visit) (client : ClientMachine) (s : Serving) :
    DirectionalSession × List SealCall × Except SessionError (List Byte) :=
  ((v.handshake C client s).sessionOf C client.config.localId.role s.server.config.localId.role
    client.config.budget v.ack.draw.owner).encrypt C (sesHeader client.config.profile 1 v.id
      client.config.source client.config.destination) SESSION_ACCEPT
    (ClientMachine.acceptText ((v.handshake C client s).hash C)) client.config.budget

/-- Where the programs are once the server has answered OPEN_AUTH. -/
structure Accepted (C : Crypto) (o : Options) (v : Visit) (client : ClientMachine) (s : Serving)
    (binding : UdpBinding) (w w' : Hand) (p : PendingSession) (e : ClientSession) : Prop where
  round : (w.server.after C o v.auth.before).round C o (v.auth.draw.datagram v.endpoint w.packet) =
    (w'.server, some w'.answer.val)
  standing : Serving.Standing C o w'.server
  fixed : Serving.Fixed s w'.server
  answer : w'.answer.val.length = 234
  fits : w'.packet.val.length ≤ 282
  receive : ∃ calls, w.client.receiveAck C w'.answer.val v.ack.draw.nowMs v.ack.draw.owner =
    (w'.client, calls, .ok w'.packet.val)
  state : w'.client = { client with state := .established e }
  clientSession : e.scid = v.id ∧ e.session.receiveBudget = client.config.budget ∧
    e.session.sendCounters.next.val = 2
  pending : p ∈ w'.server.server.pending
  serverSession : p.scid = v.id ∧ p.binding = .udp binding ∧
    p.deadlineMs = satAdd v.auth.draw.nowMs 5000 ∧
    p.session.receiveBudget = s.server.config.budget ∧ p.session.sendCounters.next.val = 1
  peer : w'.server.peerBindings v.id = some (v.endpoint, binding)
  toServer : Channel (Plain C 282 (sesHeader client.config.profile 1 v.id client.config.source
    client.config.destination) SESSION_ACCEPT) e.session p.session
      [(w'.packet.val, ClientMachine.acceptText p.session.transcriptHash)]
  toClient : Channel (Plain C client.config.budget (sesHeader client.config.profile 1 v.id
    client.config.destination client.config.source) SESSION_DATA) p.session e.session []

theorem accepted_ok (hC : C.Correct) (h : v.Honest C o client s binding) (hp : v.Prompt)
    (hs : Serving.Standing C o s) {key : Bytes 32} {input : List Byte} {w₀ : Hand}
    (ha : v.Authed C o client s binding w₀ w key input)
    (hfree : v.Free (w.server.after C o v.auth.before)) :
    ∃ p e, v.Accepted C o client s binding w (v.accepted C o w) p e := by
  obtain ⟨hmirrored, hbudget, hbudgets⟩ := h.facing.mirrored h.machine hs
  obtain ⟨-, -, -, hkey, -⟩ := connectMachine_eq_ok h.machine
  have hconfig : w.client.config = client.config := by rw [ha.state]
  have hsigning : w.client.signingKey = client.signingKey := by rw [ha.state]
  have hstanding := ha.standing.after v.auth.before
  have hfixed := ha.fixed.trans (Serving.after_fixed ha.standing.bound o v.auth.before).2.1
  have hlate : v.auth.draw.nowMs.val < v.opening.nowMs.val + 20000 := by
    have hbucket := hp.bucket
    rw [mem_buckets, bucketOf_val] at hbucket
    omega
  have hhonours := ha.honours.after (o := o) ha.standing.bound v.auth.before fun a ha => by
    have hle : a.nowMs.val ≤ v.auth.draw.nowMs.val := hp.order v.auth (by simp) a ha
    exact ⟨hp.opening.2 a ha, by omega⟩
  have hserverKey := ServerMachine.signingKey_reach hs.bound.server
  have hminted := ha.minted
  have hpacket := ha.packet
  obtain ⟨s₂, hs₂⟩ : ∃ s₂, s₂ = w.server.after C o v.auth.before := ⟨_, rfl⟩
  rw [← hs₂] at hstanding hfixed hhonours hfree
  obtain ⟨-, hlimit, -⟩ := Serving.serverConfig_eq_ok hstanding.config
  rw [← hfixed.config, ← hfixed.boot] at hminted hpacket
  obtain ⟨ack, hack, hanswered, hmem, hpeer⟩ := Serving.round_openAuth
    (a := v.auth.draw.datagram v.endpoint w.packet) hC hstanding
    (by rw [hfixed.config]; exact hmirrored) h.id h.allowed
    (by rw [hfixed.selector]; exact h.bound) hkey h.shared hminted hp.bucket hp.opening.1 hhonours
    hpacket hfree.unused (by rw [hlimit]; exact hfree.room)
    (lt_of_le_of_lt hp.accept.1 hp.accept.2)
  rw [hfixed.config, hfixed.boot, hfixed.signingKey] at hack hmem
  obtain ⟨accept, haccept, hreceive⟩ := receiveAck_ok (m := w.client) hC hmirrored hconfig h.id
    hserverKey h.shared (by rw [ha.state]) hp.client.2 (by rw [hsigning]; exact ha.packet) hack
    v.ack.draw.owner
  rw [ha.state] at haccept hreceive
  have haccept : (v.sealAccept C client s).2.2 = .ok accept := haccept
  have hreceive : w.client.receiveAck C ack v.ack.draw.nowMs v.ack.draw.owner =
      ({ client with state := .established ⟨v.id, (v.sealAccept C client s).1,
        if client.config.profile = 3 then some ((v.handshake C client s).schedule C) else none,
        accept⟩ }, (v.sealAccept C client s).2.1, .ok accept) := by
    rw [ha.state]
    exact hreceive
  have hackLen : ack.length = 234 := by
    rw [handshakePacket_length hack]
    simp [ackBody]
  obtain ⟨call, -, hseals, hcarries⟩ := encrypt_carries haccept
  have hacceptLen : accept.length = 120 := by
    rw [hcarries.length, hseals.plaintext, acceptText_length]
  have hanswerVal : (Slice.of (some ack)).val = ack := Slice.of_val (by omega)
  have hpacketVal : (Slice.of (some accept)).val = accept := Slice.of_val (by omega)
  have haccepted : v.accepted C o w = ⟨(w.client.receiveAck C ack v.ack.draw.nowMs
      v.ack.draw.owner).1, (s₂.round C o (v.auth.draw.datagram v.endpoint w.packet)).1,
      .of (some ack), .of (some accept)⟩ := by
    rw [hs₂] at hanswered ⊢
    have hreach := reaches_eq (x := v.auth) hanswered
    simp only [Visit.accepted, hreach, hanswerVal, hreceive]
    rfl
  rw [haccepted]
  refine ⟨_, ⟨v.id, (v.sealAccept C client s).1,
    if client.config.profile = 3 then some ((v.handshake C client s).schedule C) else none,
    accept⟩, ?_, hstanding.round _, hfixed.trans (Serving.round_fixed hstanding.bound o _).1, ?_,
    ?_, ?_, ?_, ⟨rfl, ?_, ?_⟩, hmem, ⟨rfl, rfl, rfl, rfl, rfl⟩, hpeer, ?_, ?_⟩
  · rw [hanswerVal, ← hs₂, ← hanswered]
  · rw [hanswerVal, hackLen]
  · rw [hpacketVal]
    omega
  · rw [hanswerVal, hpacketVal, hreceive]
    exact ⟨_, rfl⟩
  · rw [hreceive]
  · have hsent : (v.sealAccept C client s).1 = _ := hseals.next
    rw [hsent]
    rfl
  · exact hseals.next_val
  · rw [hpacketVal]
    refine (sessionOf_channel (v.handshake C client s) client.config.localId.role
      s.server.config.localId.role client.config.budget s.server.config.budget v.ack.draw.owner
      v.auth.draw.owner).send hseals ?_
    exact ⟨hcarries, hseals.plaintext, by omega⟩
  · exact (sessionOf_channel (v.handshake C client s) s.server.config.localId.role
      client.config.localId.role s.server.config.budget client.config.budget v.auth.draw.owner
      v.ack.draw.owner).frame ⟨rfl, rfl⟩ hseals.frame.1

theorem Honest.foreign (h : v.Honest C o client s binding) {s' : Serving}
    (hs : Serving.Fixed s s') {x : Leg Datagram}
    (hx : x ∈ [v.auth, v.accept, v.data, v.close]) :
    ∀ a ∈ x.before, s'.Foreign (.udp binding) a := by
  intro a ha
  unfold Serving.Foreign
  rw [hs.selector]
  exact (h.strangers x hx a ha).1

/-- Where the programs are once the confirmation has come in. -/
structure Sent (C : Crypto) (o : Options) (v : Visit) (client : ClientMachine) (s : Serving)
    (binding : UdpBinding) (w w' : Hand) (e : ClientSession) (e' : EstablishedSession) : Prop where
  round : (w.server.after C o v.accept.before).round C o
    (v.accept.draw.datagram v.endpoint w.packet) = (w'.server, none)
  standing : Serving.Standing C o w'.server
  fixed : Serving.Fixed s w'.server
  send : ∃ calls, w.client.sendData C v.message = (w'.client, calls, .ok w'.packet.val)
  fits : w'.packet.val.length ≤ client.config.budget
  linked : Linked C client.config s.server.config v.id
    ⟨w'.client, w'.server.server, [(w'.packet.val, v.message)], []⟩ e e'
  counters : e.session.sendCounters.next.val = 3 ∧ e'.session.sendCounters.next.val = 1
  held : e'.binding = .udp binding
  active : e'.lastActiveMs = v.accept.draw.nowMs
  peer : w'.server.peerBindings v.id = some (v.endpoint, binding)

theorem sent_ok (hC : C.Correct) (h : v.Honest C o client s binding) (hp : v.Prompt)
    (hs : Serving.Standing C o s) {w₀ : Hand} {p : PendingSession} {e : ClientSession}
    (ha : v.Accepted C o client s binding w₀ w p e)
    (hroom : ((w.server.after C o v.accept.before).server.expire
      v.accept.draw.nowMs).established.length < 1024) :
    ∃ e₁ e', v.Sent C o client s binding w (v.sent C o w) e₁ e' := by
  obtain ⟨hmirrored, hbudget, hbudgets⟩ := h.facing.mirrored h.machine hs
  obtain ⟨-, -, -, -, -, hlocs⟩ := connectMachine_eq_ok h.machine
  obtain ⟨hscid, hbinding, hdeadline, hserverBudget, hcount⟩ := ha.serverSession
  obtain ⟨hclientScid, hclientBudget, hclientCount⟩ := ha.clientSession
  have hstanding := ha.standing.after v.accept.before
  have hfixed := ha.fixed.trans (Serving.after_fixed ha.standing.bound o v.accept.before).2.1
  have hkept := ha.standing.bound.pending_undisturbed (o := o) ha.pending v.accept.before
    fun a hbefore => by
      rw [hbinding, hdeadline]
      exact ⟨h.foreign ha.fixed (by simp) a hbefore,
        lt_of_le_of_lt (hp.order v.accept (by simp) a hbefore) hp.accept.2⟩
  rw [hscid, ha.peer] at hkept
  obtain ⟨s₃, hs₃⟩ : ∃ s₃, s₃ = w.server.after C o v.accept.before := ⟨_, rfl⟩
  rw [← hs₃] at hstanding hfixed hkept hroom
  obtain ⟨-, -, hlimit, -⟩ := Serving.serverConfig_eq_ok hstanding.config
  obtain ⟨w', hnone, hentry, hpeer, hrest⟩ := Serving.round_accept (c := client.config)
    (a := v.accept.draw.datagram v.endpoint w.packet) hC hstanding
    (by rw [hfixed.config]; exact hmirrored) h.allowed (by rw [hfixed.selector]; exact h.bound)
    hkept.1 (by rw [hscid]; exact hkept.2) (by rw [hdeadline]; exact hp.accept.2)
    (by rw [hserverBudget]; exact hmirrored.room.2) (by rw [hlimit]; exact hroom)
    (by rw [hscid]; exact ha.toServer)
  rw [hscid] at hpeer hrest
  have hafter := hstanding.round (v.accept.draw.datagram v.endpoint w.packet)
  have hfixed' := hfixed.trans
    (Serving.round_fixed hstanding.bound o (v.accept.draw.datagram v.endpoint w.packet)).1
  rw [hs₃] at hnone
  have hreach := reaches_eq (x := v.accept) hnone
  rw [← hs₃] at hnone hreach
  have hround : s₃.round C o (v.accept.draw.datagram v.endpoint w.packet) =
    ((s₃.round C o (v.accept.draw.datagram v.endpoint w.packet)).1, none) := Prod.ext rfl hnone
  generalize (s₃.round C o (v.accept.draw.datagram v.endpoint w.packet)).1 = s₄ at *
  have hlinked : Linked C client.config s.server.config v.id ⟨w.client, s₄.server, [], []⟩ e
      (p.establish { p.session with replay := w' } w.packet.val v.accept.draw.nowMs) := {
    clientConfig := by rw [ha.state]
    clientLocs := by rw [ha.state]; exact hlocs
    clientState := by rw [ha.state]
    serverConfig := hfixed'.config
    serverLocs := by
      have hserverLocs := hafter.locs
      rw [hfixed'.config] at hserverLocs
      exact hserverLocs
    tables := ServerMachine.tables_reach hafter.bound.server
    entry := hentry
    scids := ⟨hclientScid, hscid⟩
    budgets := ⟨hclientBudget, hserverBudget⟩
    toRight := hrest.empty
    toLeft := ha.toClient.frame ⟨rfl, rfl⟩ ⟨rfl, rfl⟩ }
  obtain ⟨client', e₁, calls, data, hsend, hfits, hlinked', hcount'⟩ :=
    hlinked.clientSays hmirrored h.id (by rw [hbudget]; exact h.fits) (by omega)
  have hmax := hmirrored.bounds.2
  rw [SERIALIZED_R8_MAX] at hmax
  have hval : (Slice.of (some data)).val = data := Slice.of_val (by omega)
  have hsent : v.sent C o w = ⟨client', s₄, .of none, .of (some data)⟩ := by
    simp only [Visit.sent, hreach, hsend]
    rfl
  rw [hsent]
  refine ⟨e₁, p.establish { p.session with replay := w' } w.packet.val v.accept.draw.nowMs, ?_,
    hafter, hfixed', ⟨calls, ?_⟩, ?_, ?_, ⟨by omega, hcount⟩, hbinding, rfl, hpeer⟩
  · rw [← hs₃]
    exact hround
  · rw [hval, hsend]
  · rw [hval]
    exact hfits
  · rw [hval]
    exact hlinked'

/-- An established session that others leave alone. -/
theorem linked_after (hs : Serving.Standing C o s)
    {c sc : HandshakeConfig} {e : ClientSession} {e' : EstablishedSession}
    {q q' : List (List Byte × List Byte)} {id : U64}
    (hl : Linked C c sc id ⟨client, s.server, q, q'⟩ e e') {peer : SocketAddr × UdpBinding}
    (hpeer : s.peerBindings id = some peer) (as : List Datagram)
    (has : ∀ a ∈ as, s.Foreign e'.binding a ∧ (satSub a.nowMs e'.lastActiveMs).val < 120000) :
    Linked C c sc id ⟨client, (s.after C o as).server, q, q'⟩ e e' ∧
      (s.after C o as).peerBindings id = some peer := by
  obtain ⟨hb, hfixed, -⟩ := Serving.after_fixed hs.bound o as
  obtain ⟨hmem, hkept⟩ := hs.bound.undisturbed (o := o) hl.entry as has
  rw [hl.scids.2, hpeer] at hkept
  exact ⟨hl.at hfixed.config hfixed.locs (ServerMachine.tables_reach hb.server) hmem, hkept⟩

/-- Where the programs are once the data has come back. -/
structure Closed (C : Crypto) (o : Options) (v : Visit) (client : ClientMachine) (s : Serving)
    (binding : UdpBinding) (w w' : Hand) (e : ClientSession) (e' : EstablishedSession) : Prop where
  round : (w.server.after C o v.data.before).round C o
    (v.data.draw.datagram v.endpoint w.packet) = (w'.server, some w'.answer.val)
  standing : Serving.Standing C o w'.server
  fixed : Serving.Fixed s w'.server
  answer : w'.answer.val.length ≤ client.config.budget
  fits : w'.packet.val.length ≤ client.config.budget
  echo : ∃ m calls, w.client.receiveData C w'.answer.val = (m, .ok v.message) ∧
    m.close C 0 = (w'.client, calls, .ok w'.packet.val)
  linked : ∃ m, Linked C client.config s.server.config v.id ⟨m, w'.server.server, [], []⟩ e e'
  toServer : ∃ d, Channel (Plain C client.config.budget (sesHeader client.config.profile 1 v.id
    client.config.source client.config.destination) CLOSE) d e'.session
      [(w'.packet.val, u16Bytes 0)]
  held : e'.binding = .udp binding
  active : e'.lastActiveMs = v.data.draw.nowMs
  peer : w'.server.peerBindings v.id = some (v.endpoint, binding)

theorem closed_ok (hC : C.Correct) (h : v.Honest C o client s binding) (hp : v.Prompt)
    (hs : Serving.Standing C o s) {w₀ : Hand} {e : ClientSession} {e' : EstablishedSession}
    (ha : v.Sent C o client s binding w₀ w e e') :
    ∃ e₁ e₁', v.Closed C o client s binding w (v.closed C o w) e₁ e₁' := by
  obtain ⟨hmirrored, hbudget, hbudgets⟩ := h.facing.mirrored h.machine hs
  have hstanding := ha.standing.after v.data.before
  have hfixed := ha.fixed.trans (Serving.after_fixed ha.standing.bound o v.data.before).2.1
  have hdata : v.data.draw.nowMs.val < v.accept.draw.nowMs.val + 120000 := by
    have hdata := hp.data
    rw [satSub_val] at hdata
    omega
  obtain ⟨hlinked, hpeer⟩ := linked_after ha.standing ha.linked ha.peer v.data.before
    fun a hbefore => by
      have hle : a.nowMs.val ≤ v.data.draw.nowMs.val := hp.order v.data (by simp) a hbefore
      rw [ha.held, ha.active, satSub_val]
      exact ⟨h.foreign ha.fixed (by simp) a hbefore, by omega⟩
  obtain ⟨s₃, hs₃⟩ : ∃ s₃, s₃ = w.server.after C o v.data.before := ⟨_, rfl⟩
  rw [← hs₃] at hstanding hfixed hlinked hpeer
  rw [← hfixed.config] at hlinked
  obtain ⟨echo, e₁, hsome, hlinked', hbinding, hactive, hpeer'⟩ := Serving.round_data
    (a := v.data.draw.datagram v.endpoint w.packet) hC hstanding
    (by rw [hfixed.config]; exact hmirrored) (by rw [hfixed.config]; exact hbudgets) h.allowed
    (by rw [hfixed.selector]; exact h.bound) hlinked hpeer (by rw [ha.active]; exact hp.data)
    (by rw [ha.counters.2]; decide)
  rw [hfixed.config] at hlinked'
  have hafter := hstanding.round (v.data.draw.datagram v.endpoint w.packet)
  have hfixed' := hfixed.trans
    (Serving.round_fixed hstanding.bound o (v.data.draw.datagram v.endpoint w.packet)).1
  rw [hs₃] at hsome
  have hreach := reaches_eq (x := v.data) hsome
  rw [← hs₃] at hsome hreach
  have hround : s₃.round C o (v.data.draw.datagram v.endpoint w.packet) =
    ((s₃.round C o (v.data.draw.datagram v.endpoint w.packet)).1, some echo) := Prod.ext rfl hsome
  generalize (s₃.round C o (v.data.draw.datagram v.endpoint w.packet)).1 = s₄ at *
  obtain ⟨hfits, m, e₂, hreceive, hlinked₂, hcount⟩ := hlinked'.clientTakes hC
  obtain ⟨client', calls, close, d, hclose, hcloseFits, hchannel⟩ :=
    hlinked₂.clientCloses hmirrored h.id (by rw [hcount, ha.counters.1]; decide) 0
  have hmax := hmirrored.bounds.2
  rw [SERIALIZED_R8_MAX] at hmax
  have hanswer : (Slice.of (some echo)).val = echo := Slice.of_val (by omega)
  have hval : (Slice.of (some close)).val = close := Slice.of_val (by omega)
  have hclosed : v.closed C o w = ⟨client', s₄, .of (some echo), .of (some close)⟩ := by
    simp only [Visit.closed, hreach, hanswer, hreceive, hclose]
    rfl
  rw [hclosed]
  refine ⟨e₂, e₁, ?_, hafter, hfixed', ?_, ?_, ⟨m, calls, ?_, ?_⟩, ⟨m, hlinked₂⟩, ⟨d, ?_⟩,
    hbinding.trans ha.held, hactive, hpeer'⟩
  · rw [← hs₃, hanswer]
    exact hround
  · rw [hanswer]
    exact hfits
  · rw [hval]
    exact hcloseFits
  · rw [hanswer, hreceive]
  · rw [hval, hclose]
  · rw [hval]
    exact hchannel

theorem left_ok (hC : C.Correct) (h : v.Honest C o client s binding) (hp : v.Prompt)
    (hs : Serving.Standing C o s) {w₀ : Hand} {e : ClientSession} {e' : EstablishedSession}
    (ha : v.Closed C o client s binding w₀ w e e') :
    let s₁ := w.server.after C o v.close.before
    let r := s₁.round C o (v.close.draw.datagram v.endpoint w.packet)
    r.2 = none ∧ r.1.successes = s₁.successes + 1 ∧ v.id ∉ r.1.server.scids := by
  intro s₁ r
  obtain ⟨hmirrored, hbudget, hbudgets⟩ := h.facing.mirrored h.machine hs
  have hfixed : Serving.Fixed s s₁ :=
    ha.fixed.trans (Serving.after_fixed ha.standing.bound o v.close.before).2.1
  have hclose : v.close.draw.nowMs.val < v.data.draw.nowMs.val + 120000 := by
    have hclose := hp.close
    rw [satSub_val] at hclose
    omega
  obtain ⟨m, hl⟩ := ha.linked
  obtain ⟨d, hchannel⟩ := ha.toServer
  obtain ⟨hlinked, hpeer⟩ := linked_after ha.standing hl ha.peer v.close.before
    fun a hbefore => by
      have hle : a.nowMs.val ≤ v.close.draw.nowMs.val := hp.order v.close (by simp) a hbefore
      rw [ha.held, ha.active, satSub_val]
      exact ⟨h.foreign ha.fixed (by simp) a hbefore, by omega⟩
  rw [← hfixed.config] at hlinked
  exact Serving.round_close (a := v.close.draw.datagram v.endpoint w.packet) hC
    (ha.standing.after v.close.before) (by rw [hfixed.config]; exact hmirrored)
    (by rw [hfixed.config]; exact hbudgets) h.allowed (by rw [hfixed.selector]; exact h.bound)
    hlinked hpeer (by rw [ha.active]; exact hp.close) hchannel

/-- The limits of the loop leave room for the visit. -/
structure Room (C : Crypto) (o : Options) (v : Visit) (client : ClientMachine) (s : Serving)
    (w : Course) : Prop where
  admitted : v.Admitted C s
  free : v.Free (w.authed.server.after C o v.auth.before)
  established : ((w.accepted.server.after C o v.accept.before).server.expire
    v.accept.draw.nowMs).established.length < 1024
  going : (w.closed.server.after C o v.close.before).successes < o.maxSessions

/-- What is sent to the endpoint of the client on the way to its next packet. -/
theorem hears_leg (h : v.Honest C o client s binding) {s₁ s₂ : Serving}
    (hs : Serving.Fixed s s₁) {x : Leg Datagram} (hx : x ∈ [v.auth, v.accept, v.data, v.close])
    {packet : Slice} {response : Option (List Byte)}
    (hround : (s₁.after C o x.before).round C o (x.draw.datagram v.endpoint packet) =
      (s₂, response)) :
    (s₁.hears C o (x.arrivals v.endpoint packet)).filter (·.1 = v.endpoint) =
        (response.map fun answer => (v.endpoint, answer)).toList ∧
      s₁.after C o (x.arrivals v.endpoint packet) = s₂ := by
  have hquiet : (s₁.hears C o x.before).filter (·.1 = v.endpoint) = [] := by
    rw [List.filter_eq_nil_iff]
    intro y hy heq
    obtain ⟨a, ha, hendpoint⟩ := Serving.hears_endpoint hy
    refine h.foreign hs hx a ha binding ?_ rfl
    rw [hendpoint, of_decide_eq_true heq, hs.selector]
    exact h.bound
  constructor
  · rw [Leg.arrivals, Serving.hears_append, List.filter_append, hquiet, List.nil_append]
    simp only [Serving.hears, hround, List.append_nil]
    cases response with
    | none => rfl
    | some answer => simp [Draw.datagram]
  · rw [Leg.arrivals, Serving.after_append]
    exact congrArg Prod.fst hround

/-- Every packet of the visit does what it is for. -/
structure Passage (C : Crypto) (o : Options) (v : Visit) (client : ClientMachine) (s : Serving)
    (binding : UdpBinding) (w : Course) : Prop where
  opened : client.start C v.id v.material 0 = (w.opened.client, .ok w.opened.packet.val)
  openedLength : w.opened.packet.val.length = 170
  authed : ∃ key input, v.Authed C o client s binding w.opened w.authed key input
  accepted : ∃ p e, v.Accepted C o client s binding w.authed w.accepted p e
  sent : ∃ e e', v.Sent C o client s binding w.accepted w.sent e e'
  closed : ∃ e e', v.Closed C o client s binding w.sent w.closed e e'
  left : (w.closed.server.after C o v.close.before).round C o
    (v.close.draw.datagram v.endpoint w.closed.packet) = (w.left, none)
  counted : w.left.successes = (w.closed.server.after C o v.close.before).successes + 1
  gone : v.id ∉ w.left.server.scids

theorem course_ok (hC : C.Correct) (h : v.Honest C o client s binding) (hp : v.Prompt)
    (hs : Serving.Standing C o s) (hr : v.Room C o client s (v.course C o client s)) :
    v.Passage C o client s binding (v.course C o client s) := by
  obtain ⟨-, -, hstart, hlen⟩ := opened_ok h hs
  obtain ⟨key, input, hauthed⟩ := authed_ok h hp hs hr.admitted
  obtain ⟨p, e, haccepted⟩ := accepted_ok hC h hp hs hauthed hr.free
  obtain ⟨e₁, e₁', hsent⟩ := sent_ok hC h hp hs haccepted hr.established
  obtain ⟨e₂, e₂', hclosed⟩ := closed_ok hC h hp hs hsent
  obtain ⟨hnone, hcounted, hgone⟩ := left_ok hC h hp hs hclosed
  exact {
    opened := hstart
    openedLength := hlen
    authed := ⟨key, input, hauthed⟩
    accepted := ⟨p, e, haccepted⟩
    sent := ⟨e₁, e₁', hsent⟩
    closed := ⟨e₂, e₂', hclosed⟩
    left := Prod.ext rfl hnone
    counted := hcounted
    gone := hgone }

/-- The client comes to its end. -/
theorem Passage.connects {w : Course} (h : v.Passage C o client s binding w)
    (hv : v.Honest C o client s binding) (hs : Serving.Standing C o s) :
    connect C v.options v.scid v.material (v.events w) = (v.packets w, .ok ()) := by
  obtain ⟨hmirrored, hbudget, -⟩ := hv.facing.mirrored hv.machine hs
  obtain ⟨key, input, hauthed⟩ := h.authed
  obtain ⟨p, e, haccepted⟩ := h.accepted
  obtain ⟨e₁, e₁', hsent⟩ := h.sent
  obtain ⟨e₂, e₂', hclosed⟩ := h.closed
  obtain ⟨calls, hack⟩ := haccepted.receive
  obtain ⟨calls', hdata⟩ := hsent.send
  obtain ⟨m, calls'', hecho, hclose⟩ := hclosed.echo
  have hroom := hv.facing.room
  have hmissed := fun x hx => (hv.missed x hx).2
  have hfew := fun x hx => (hv.missed x hx).1
  have hverify (rest : List SocketEvent) : receiveRetry v.host w.opened.packet.val v.options.budget
      (fun m a => m.receiveVerify C a.packet.val a.nowMs) RETRIES w.opened.client
      (v.verify.before ++ .arrives (v.verify.draw.datagram v.host w.authed.answer) :: rest) =
        ⟨w.authed.client, resends w.opened.packet.val v.verify.before, rest,
          .ok w.authed.packet.val⟩ :=
    receiveRetry_ok (hmissed v.verify (by simp)) rfl
      (show w.authed.answer.val.length ≤ v.options.budget by rw [hauthed.answer]; omega)
      hauthed.receive RETRIES (hfew v.verify (by simp))
  have hconfirm (rest : List SocketEvent) : receiveRetry v.host w.authed.packet.val v.options.budget
      (fun m a =>
        let x := m.receiveAck C a.packet.val a.nowMs a.owner
        (x.1, x.2.2)) RETRIES w.authed.client
      (v.ack.before ++ .arrives (v.ack.draw.datagram v.host w.accepted.answer) :: rest) =
        ⟨w.accepted.client, resends w.authed.packet.val v.ack.before, rest,
          .ok w.accepted.packet.val⟩ :=
    receiveRetry_ok (hmissed v.ack (by simp)) rfl
      (show w.accepted.answer.val.length ≤ v.options.budget by rw [haccepted.answer]; omega)
      (by simp only [Draw.datagram, hack]) RETRIES (hfew v.ack (by simp))
  have hreturned : receiveRetry v.host w.sent.packet.val v.options.budget
      (fun m a => m.receiveData C a.packet.val) RETRIES w.sent.client
      (v.echo.before ++ [.arrives (v.echo.draw.datagram v.host w.closed.answer)]) =
        ⟨m, resends w.sent.packet.val v.echo.before, [], .ok v.message⟩ :=
    receiveRetry_ok (hmissed v.echo (by simp)) rfl
      (show w.closed.answer.val.length ≤ v.options.budget from hbudget ▸ hclosed.answer)
      hecho RETRIES (hfew v.echo (by simp))
  have hopened := h.opened
  rw [Visit.id] at hopened
  simp only [connect, hv.machine, hopened, events, hverify, hconfirm, hv.message, hdata, hreturned,
    hclose, packets, List.append_assoc, List.cons_append]

theorem Passage.fits {w : Course} (h : v.Passage C o client s binding w)
    (hv : v.Honest C o client s binding) (hs : Serving.Standing C o s) :
    ∀ a ∈ v.arrivals w, a.packet.val.length ≤ o.budget := by
  obtain ⟨-, hbudget, -⟩ := hv.facing.mirrored hv.machine hs
  obtain ⟨key, input, hauthed⟩ := h.authed
  obtain ⟨p, e, haccepted⟩ := h.accepted
  obtain ⟨e₁, e₁', hsent⟩ := h.sent
  obtain ⟨e₂, e₂', hclosed⟩ := h.closed
  have hroom := hv.facing.room
  have hsame := hv.facing.budget
  have hauth := handshakePacket_length hauthed.packet
  rw [authBody_length] at hauth
  have hleg : ∀ x ∈ [v.auth, v.accept, v.data, v.close], ∀ packet : Slice,
      packet.val.length ≤ o.budget → ∀ a ∈ x.arrivals v.endpoint packet,
        a.packet.val.length ≤ o.budget := by
    intro x hx packet hlen a ha
    rcases List.mem_append.mp ha with ha | ha
    · exact (hv.strangers x hx a ha).2
    · rw [List.mem_singleton.mp ha]
      exact hlen
  simp only [arrivals, answered, List.forall_mem_append, List.forall_mem_cons]
  refine ⟨⟨?_, ⟨?_, ?_⟩, ?_⟩, ?_⟩
  · have hopening := h.openedLength
    simp only [Draw.datagram]
    omega
  · exact hleg v.auth (by simp) _ (by omega)
  · exact hleg v.accept (by simp) _ (by have := haccepted.fits; omega)
  · exact hleg v.data (by simp) _ (by have := hsent.fits; omega)
  · exact hleg v.close (by simp) _ (by have := hclosed.fits; omega)

/-- The loop answers what has an answer. -/
theorem Passage.hears {w : Course} (h : v.Passage C o client s binding w)
    (hv : v.Honest C o client s binding) :
    (s.hears C o (v.answered w)).filter (·.1 = v.endpoint) =
        [w.authed.answer, w.accepted.answer, w.closed.answer].map (fun x => (v.endpoint, x.val)) ∧
      s.after C o (v.answered w) = w.closed.server := by
  obtain ⟨key, input, hauthed⟩ := h.authed
  obtain ⟨p, e, haccepted⟩ := h.accepted
  obtain ⟨e₁, e₁', hsent⟩ := h.sent
  obtain ⟨e₂, e₂', hclosed⟩ := h.closed
  obtain ⟨hauth, hauthAfter⟩ := hears_leg hv hauthed.fixed (x := v.auth) (by simp) haccepted.round
  obtain ⟨haccept, hacceptAfter⟩ :=
    hears_leg hv haccepted.fixed (x := v.accept) (by simp) hsent.round
  obtain ⟨hdata, hdataAfter⟩ := hears_leg hv hsent.fixed (x := v.data) (by simp) hclosed.round
  have hopening : s.hears C o [v.opening.datagram v.endpoint w.opened.packet] =
      [(v.endpoint, w.authed.answer.val)] := by
    simp only [Serving.hears, hauthed.round]
    rfl
  have hopeningAfter : s.after C o [v.opening.datagram v.endpoint w.opened.packet] =
      w.authed.server := congrArg Prod.fst hauthed.round
  rw [answered, ← List.singleton_append]
  simp only [Serving.hears_append, Serving.after_append, List.filter_append, hopening,
    hopeningAfter, hauth, hauthAfter, haccept, hacceptAfter, hdata, hdataAfter]
  simp

/-- The loop goes through the visit, and on. -/
theorem Passage.serves {w : Course} (h : v.Passage C o client s binding w)
    (hv : v.Honest C o client s binding) (hs : Serving.Standing C o s)
    (hgoing : (w.closed.server.after C o v.close.before).successes < o.maxSessions)
    (events : List SocketEvent) :
    s.serve C o ((v.arrivals w).map .arrives ++ events) =
      (s.hears C o (v.arrivals w) ++ (w.left.serve C o events).1,
        (w.left.serve C o events).2) := by
  have hfits := h.fits hv hs
  obtain ⟨-, hafter⟩ := h.hears hv
  have hcut : v.arrivals w = (v.answered w ++ v.close.before) ++
      [v.close.draw.datagram v.endpoint w.closed.packet] := by
    rw [arrivals, Leg.arrivals, List.append_assoc]
  rw [hcut] at hfits ⊢
  obtain ⟨hfits, hlast⟩ := List.forall_mem_append.mp hfits
  have hbefore : s.after C o (v.answered w ++ v.close.before) =
      w.closed.server.after C o v.close.before := by
    rw [Serving.after_append, hafter]
  rw [List.map_append, List.append_assoc,
    Serving.serve_append hs.bound _ hfits (by rwa [hbefore]), hbefore, List.map_singleton,
    List.singleton_append, Serving.serve_arrives hgoing (hlast _ List.mem_cons_self), h.left,
    Serving.hears_append s (v.answered w ++ v.close.before), hbefore, List.append_assoc]

/-- Whatever others send to a running loop, as long as its limits leave room for one more session,
a client gets through if one copy of each of its packets does, and all in time: it comes to its end
with its message back, and the loop counts its session and forgets it. With the last one the loop
ends. -/
theorem connect_completes (hC : C.Correct) (h : Serving.Reach C o s)
    (hv : v.Honest C o client s binding) (hp : v.Prompt)
    (hr : v.Room C o client s (v.course C o client s)) :
    let w := v.course C o client s
    connect C v.options v.scid v.material (v.events w) = (v.packets w, .ok ()) ∧
    (∃ m, w.sent.client.receiveData C w.closed.answer.val = (m, .ok v.message)) ∧
    (∀ events, s.serve C o ((v.arrivals w).map .arrives ++ events) =
      (s.hears C o (v.arrivals w) ++ (w.left.serve C o events).1,
        (w.left.serve C o events).2)) ∧
    (s.hears C o (v.arrivals w)).filter (·.1 = v.endpoint) =
      [w.authed.answer, w.accepted.answer, w.closed.answer].map (fun x => (v.endpoint, x.val)) ∧
    w.left.successes = (w.closed.server.after C o v.close.before).successes + 1 ∧
    v.id ∉ w.left.server.scids ∧
    (w.left.successes = o.maxSessions →
      ∀ events, w.left.serve C o events = ([], some (.ok ()))) := by
  intro w
  have hs := Serving.standing_reach h
  have hpassage := course_ok hC hv hp hs hr
  obtain ⟨e, e', hclosed⟩ := hpassage.closed
  obtain ⟨m, -, hecho, -⟩ := hclosed.echo
  obtain ⟨hheard, hafter⟩ := hpassage.hears hv
  obtain ⟨hlast, -⟩ := hears_leg hv hclosed.fixed (x := v.close) (by simp) hpassage.left
  refine ⟨hpassage.connects hv hs, ⟨m, hecho⟩, hpassage.serves hv hs hr.going, ?_,
    hpassage.counted, hpassage.gone, fun hdone events => Serving.serve_done hdone events⟩
  rw [arrivals, Serving.hears_append, List.filter_append, hheard, hafter, hlast]
  exact List.append_nil _

end Visit

namespace Visit.Loopback

open Serving.Loopback

def draw (nowMs : U64) : Draw := ⟨nowMs, bytesOf 32 9, ⟨bytesOf 32 42, bytesOf 32 43⟩, 2⟩

/-- The client of the loopback example: it sends its first packet twice, and somebody sends an empty
datagram in front of its confirmation. -/
def visit : Visit where
  options := clientOptions
  scid := 5
  material := ⟨bytesOf 32 40, bytesOf 32 41⟩
  message := [1, 2, 3]
  host := loopback 443
  endpoint := loopback 4000
  opening := draw 1000
  verify := ⟨[.timesOut], draw 100⟩
  auth := ⟨[], draw 1100⟩
  ack := ⟨[], draw 200⟩
  accept := ⟨[datagram [] 5000 1150], draw 1200⟩
  data := ⟨[], draw 1300⟩
  echo := ⟨[], draw 300⟩
  close := ⟨[], draw 1400⟩

theorem visit_honest {b : UdpBinding}
    (hb : (loopback 4000).endpointBinding fresh.selector = .ok b) :
    visit.Honest .sample serverOptions client fresh b where
  machine := by rfl
  facing := ⟨rfl, rfl, rfl, rfl, rfl, rfl, by decide⟩
  id := by decide
  message := rfl
  fits := by decide
  allowed := by decide
  bound := hb
  shared := by decide +kernel
  strangers := by
    have hports : (loopback 5000).endpointBinding fresh.selector ≠
        (loopback 4000).endpointBinding fresh.selector := by decide +kernel
    intro x hx a ha
    simp only [visit, List.mem_cons, List.not_mem_nil, or_false] at hx
    rcases hx with rfl | rfl | rfl | rfl
    · cases ha
    · obtain rfl := List.mem_singleton.mp ha
      refine ⟨fun b' hb' heq => hports ?_, by decide⟩
      obtain rfl := ObservedBinding.udp.inj heq
      exact hb'.trans hb.symm
    · cases ha
    · cases ha
  missed := by
    intro x hx
    simp only [visit, List.mem_cons, List.not_mem_nil, or_false] at hx
    rcases hx with rfl | rfl | rfl
    · exact ⟨by decide, by simp [Missed]⟩
    · exact ⟨by decide, by simp⟩
    · exact ⟨by decide, by simp⟩

theorem visit_prompt : visit.Prompt where
  client := by decide
  bucket := by decide
  opening := by decide
  order := by
    intro x hx a ha
    simp only [visit, List.mem_cons, List.not_mem_nil, or_false] at hx
    rcases hx with rfl | rfl | rfl | rfl
    · cases ha
    · obtain rfl := List.mem_singleton.mp ha
      decide
    · cases ha
    · cases ha
  accept := by decide
  data := by decide
  close := by decide

theorem visit_room : visit.Room .sample serverOptions client fresh
    (visit.course .sample serverOptions client fresh) where
  admitted := by
    have hlimiter : (fresh.limiter.admitSource ⟨visit.endpoint.opaqueSource .sample
        fresh.sourceHashKey, 170, 170, visit.opening.nowMs⟩).2 = .ok () := by decide +kernel
    obtain ⟨htokens, hadmissible⟩ := PrevalidationLimiter.admitSource_eq_ok_iff.mp hlimiter
    exact ⟨htokens, hadmissible⟩
  free := ⟨by decide +kernel, by decide +kernel⟩
  established := by decide +kernel
  going := by decide +kernel

end Visit.Loopback

open Visit.Loopback Serving.Loopback in
/-- The client of the example gets through. -/
theorem Visit.connect_completes_loopback :
    let w := visit.course .sample serverOptions client fresh
    (connect .sample clientOptions 5 visit.material (visit.events w)).2 = .ok () ∧
      9 ∉ w.left.server.scids := by
  obtain ⟨b, hb⟩ : ∃ b, (loopback 4000).endpointBinding fresh.selector = .ok b := ⟨_, rfl⟩
  obtain ⟨hconnect, -, -, -, -, hgone, -⟩ := connect_completes Crypto.sample_correct
    (.start fresh_starts) (visit_honest hb) visit_prompt visit_room
  exact ⟨congrArg Prod.snd hconnect, hgone⟩

end R8.Session
