import R8Protocol.Session.Convergence
import R8Protocol.Session.Isolation
import R8Protocol.Session.Prevalidation

/-! The loop of `r8session serve`, and what it leaves to the endpoint of each session. -/
namespace R8.Session

open FixedWidth Wire

inductive CliError
  | session (error : SessionError)
  | io
  deriving DecidableEq, Repr

/-- A socket address, as far as comparing two of them goes. -/
inductive SocketAddr
  | v4 (address : Bytes 4) (port : U16)
  | v6 (address : Bytes 16) (port : U16) (flowinfo scopeId : U32)
  deriving DecidableEq, Repr

namespace SocketAddr

def canonicalEndpoint : SocketAddr → List Byte
  | .v4 address port => [4] ++ address.val ++ u16Bytes port
  | .v6 address port _ _ => [6] ++ address.val ++ u16Bytes port

def endpointBinding (selector : Bytes 16) : SocketAddr → Except SessionError UdpBinding
  | .v4 address port => UdpBinding.ipv4 address port 1 selector
  | .v6 address port _ _ => UdpBinding.ipv6 address port 1 selector

def opaqueSource (C : Crypto) (key : Bytes 32) (endpoint : SocketAddr) : Bytes 32 :=
  C.hmacSha256 key endpoint.canonicalEndpoint

/-- Loopback; on an isolated underlay also the private and the link-local addresses. -/
def allowedUnderlay (isolated : Bool) : SocketAddr → Bool
  | .v4 address _ =>
    let a := byteAt address.val 0
    let b := byteAt address.val 1
    a = 127 ∨
      isolated ∧ (a = 10 ∨ a = 172 ∧ 16 ≤ b ∧ b ≤ 31 ∨ a = 192 ∧ b = 168 ∨ a = 169 ∧ b = 254)
  | .v6 address _ _ _ =>
    address.val = List.replicate 15 0 ++ [1] ∨
      isolated ∧ byteAt address.val 0 = 254 ∧ byteAt address.val 1 / 64 = 2

end SocketAddr

/-- The options both programs go by. -/
structure Options where
  localSeed : Bytes 32
  peerKey : Bytes 32
  service : U32
  serverContext : U32
  source : Bytes 16
  destination : Bytes 16
  bind : SocketAddr
  peer : Option SocketAddr
  budget : ℕ
  maxSessions : ℕ
  message : Option (List Byte)
  scid : Option U64
  isolated : Bool

def Identity.fromPublicKey (C : Crypto) (role : Byte) (serviceContext : U32)
    (publicKey : Bytes 32) : Except SessionError Identity :=
  if ¬ isRole role ∨ serviceContext = 0 then .error .configError
  else .ok ⟨role, serviceContext, Session.eid C publicKey, publicKey⟩

/-- The configuration of `connect`. -/
def machineConfig (C : Crypto) (o : Options) : Except SessionError HandshakeConfig := do
  let localId ← Identity.fromPublicKey C 1 o.service (C.verifyingKey o.localSeed)
  let peer ← Identity.fromPublicKey C 2 o.service o.peerKey
  .ok {
    localId
    peer
    profile := 0
    source := o.source
    destination := o.destination
    budget := o.budget
    pendingLimit := 256
    establishedLimit := 1024
    serverContextId := o.serverContext }

/-- A datagram, where it is from and when, and what would be drawn for it. -/
structure Datagram where
  packet : Slice
  endpoint : SocketAddr
  nowMs : U64
  cookieKey : Bytes 32
  material : ServerHandshakeMaterial
  owner : ℕ

/-- The SCID in its header. -/
def Datagram.scid (a : Datagram) : U64 := u64Of (a.packet.val.drop 8)

/-- What a socket comes up with. Where a later call of the system fails for a datagram, nothing is
sent for it, as for a receive that fails. -/
inductive SocketEvent
  | arrives (datagram : Datagram)
  | timesOut
  | fails

/-- One byte more than the budget is read, which tells a datagram that was cut. -/
def receive (budget : ℕ) : SocketEvent → Except CliError Datagram
  | .arrives datagram =>
    if datagram.packet.val.length ≤ budget then .ok datagram else .error (.session .budget)
  | .timesOut => .error (.session .timeout)
  | .fails => .error .io

theorem receive_eq_ok {budget : ℕ} {event : SocketEvent} {a : Datagram}
    (h : receive budget event = .ok a) : event = .arrives a ∧ a.packet.val.length ≤ budget := by
  unfold receive at h
  split at h
  · split at h
    · cases h
      exact ⟨rfl, ‹_›⟩
    · cases h
  · cases h
  · cases h

/-- The variables of the loop, with the two keys drawn in front of it. -/
structure Serving where
  server : ServerMachine
  selector : Bytes 16
  sourceHashKey : Bytes 32
  peerBindings : U64 → Option (SocketAddr × UdpBinding)
  limiter : PrevalidationLimiter
  successes : ℕ
  lastCookieRotationMs : U64

namespace Serving

/-- The configuration of `serve`: the client's address is the source there too. -/
def serverConfig (C : Crypto) (o : Options) : Except SessionError HandshakeConfig := do
  let localId ← Identity.fromPublicKey C 2 o.service (C.verifyingKey o.localSeed)
  let peer ← Identity.fromPublicKey C 1 o.service o.peerKey
  .ok {
    localId
    peer
    profile := 0
    source := o.destination
    destination := o.source
    budget := o.budget
    pendingLimit := 256
    establishedLimit := 1024
    serverContextId := o.serverContext }

def start (C : Crypto) (o : Options) (material : ServerMaterial) (selector : Bytes 16)
    (sourceHashKey : Bytes 32) : Except SessionError Serving :=
  if ¬ o.bind.allowedUnderlay o.isolated then .error .configError
  else do
    let config ← serverConfig C o
    let server ← ServerMachine.new C config o.localSeed material
    .ok ⟨server, selector, sourceHashKey, fun _ => none, .new, 0, 0⟩

def peerMatches (s : Serving) (scid : U64) (endpoint : SocketAddr) (binding : UdpBinding) : Bool :=
  s.peerBindings scid = some (endpoint, binding)

def retainLivePeerBindings (s : Serving) : Serving :=
  { s with peerBindings := fun scid => if s.server.isLive scid then s.peerBindings scid else none }

/-- Every ten minutes the cookies are under a new key. -/
def rotated (s : Serving) (a : Datagram) : Serving :=
  if 600000 ≤ (satSub a.nowMs s.lastCookieRotationMs).val then
    { s with
      server := s.server.rotateCookieKey a.cookieKey a.nowMs
      lastCookieRotationMs := a.nowMs }
  else s

/-- The response to a datagram, if any; `none` for one that is passed over at once. -/
def response (C : Crypto) (o : Options) (s : Serving) (a : Datagram) (binding : UdpBinding) :
    Serving × Option (Option (List Byte)) :=
  match Header.unpackWithBudget a.packet.val o.budget with
  | .error _ => (s, some none)
  | .ok (header, payload) =>
    if payload.head? = some OPEN then
      let r := s.server.receiveOpenLimited C a.packet (.udp binding)
        (a.endpoint.opaqueSource C s.sourceHashKey) a.nowMs (bucketOf a.nowMs) s.limiter
      ({ s with limiter := r.1 }, some r.2.toOption)
    else if payload.head? = some OPEN_AUTH then
      match s.server.receiveOpenAuth C a.packet.val (.udp binding) a.nowMs (bucketOf a.nowMs)
        (some a.material) a.owner with
      | (server, .ok response) =>
        ({ s with
          server
          peerBindings := Function.update s.peerBindings header.scid (some (a.endpoint, binding)) },
          some (some response))
      | (server, .error _) => ({ s with server }, some none)
    else if payload.head? = some SESSION_ACCEPT then
      if ¬ s.peerMatches header.scid a.endpoint binding then (s, none)
      else
        match s.server.receiveAccept C a.packet.val a.nowMs with
        | (server, .ok ()) => ({ s with server }, some none)
        | (server, .error _) => ({ s with server }, none)
    else if payload.head? = some SESSION_DATA then
      if ¬ s.peerMatches header.scid a.endpoint binding then (s, none)
      else
        match s.server.receiveData C a.packet.val a.nowMs with
        | (server, .ok plaintext) =>
          let r := server.sendData C header.scid plaintext
          ({ s with server := r.1 }, some r.2.2.toOption)
        | (server, .error _) => ({ s with server }, some none)
    else if payload.head? = some CLOSE then
      if ¬ s.peerMatches header.scid a.endpoint binding then (s, none)
      else
        match s.server.receiveClose C a.packet.val a.nowMs with
        | (server, .ok _) =>
          ({ s with
            server
            peerBindings := Function.update s.peerBindings header.scid none
            successes := s.successes + 1 }, some none)
        | (server, .error _) => ({ s with server }, some none)
    else (s, some none)

/-- The end of the loop's body. -/
def settle (s : Serving) (nowMs : U64) : Serving :=
  { s with server := s.server.expire nowMs }.retainLivePeerBindings

/-- The body of the loop on a datagram that was received. -/
def round (C : Crypto) (o : Options) (s : Serving) (a : Datagram) : Serving × Option (List Byte) :=
  if ¬ a.endpoint.allowedUnderlay o.isolated then (s, none)
  else
    match a.endpoint.endpointBinding s.selector with
    | .error _ => (s, none)
    | .ok binding =>
      match (s.rotated a).response C o a binding with
      | (s, none) => (s, none)
      | (s, some response) => (s.settle a.nowMs, response)

def finish (o : Options) (s : Serving) : Except CliError Unit :=
  if s.successes = o.maxSessions then .ok () else .error (.session .timeout)

/-- The loop: what is sent where, and how it ends. It waits when the socket has nothing more. -/
def serve (C : Crypto) (o : Options) (s : Serving) :
    List SocketEvent → List (SocketAddr × List Byte) × Option (Except CliError Unit)
  | [] => ([], if s.successes < o.maxSessions then none else some (s.finish o))
  | event :: events =>
    if s.successes < o.maxSessions then
      match receive o.budget event with
      | .error (.session .timeout) => ([], some (s.finish o))
      | .error e => ([], some (.error e))
      | .ok a =>
        let r := s.round C o a
        let rest := r.1.serve C o events
        ((r.2.map fun packet => (a.endpoint, packet)).toList ++ rest.1, rest.2)
    else ([], some (s.finish o))

/-- The state in which these events leave the loop, or in which it came to its end. -/
def serving (C : Crypto) (o : Options) (s : Serving) : List SocketEvent → Serving
  | [] => s
  | event :: events =>
    if s.successes < o.maxSessions then
      match receive o.budget event with
      | .error _ => s
      | .ok a => (s.round C o a).1.serving C o events
    else s

end Serving

namespace ServerMachine

variable {C : Crypto} {m m' : ServerMachine} {scid nowMs bucket : U64} {packet : List Byte}
  {binding : ObservedBinding} {material : Option ServerHandshakeMaterial} {owner : ℕ}
  {e : EstablishedSession} {p : PendingSession} {x : U64 × ObservedBinding}

/-- The sessions of both tables, each with where it was opened from. -/
def bindings (m : ServerMachine) : List (U64 × ObservedBinding) :=
  m.pending.map (fun p => (p.scid, p.binding)) ++ m.established.map fun e => (e.scid, e.binding)

theorem bindings_fst (m : ServerMachine) : m.bindings.map Prod.fst = m.scids := by
  simp [bindings, scids, Function.comp_def]

theorem mem_bindings : x ∈ m.bindings ↔ (∃ p ∈ m.pending, (p.scid, p.binding) = x) ∨
    ∃ e ∈ m.established, (e.scid, e.binding) = x := by
  simp only [bindings, List.mem_append, List.mem_map]

theorem isLive_iff : m.isLive scid = true ↔ scid ∈ m.scids := by
  simp [isLive, scids]

/-- A session was opened from one place. -/
theorem Tables.binding_unique (h : Tables m) (scid : U64) {b b' : ObservedBinding}
    (hb : (scid, b) ∈ m.bindings) (hb' : (scid, b') ∈ m.bindings) : b = b' := by
  have hsingle : (m.bindings.map Prod.fst).Nodup := by
    rw [bindings_fst]
    exact h.single
  exact congrArg Prod.snd (List.inj_on_of_nodup_map hsingle hb hb' rfl)

theorem bindings_expire (m : ServerMachine) (nowMs : U64) :
    (m.expire nowMs).bindings ⊆ m.bindings :=
  ((List.filter_sublist.map _).append (List.filter_sublist.map _)).subset

/-- Only a new handshake brings a new session. -/
theorem Shift.bindings {now? : Option U64} (hs : Shift C now? none m m') :
    m'.bindings ⊆ m.bindings := by
  intro x hx
  rw [mem_bindings] at hx ⊢
  cases hs with
  | same | locs | material => exact hx
  | session i s =>
    refine hx.imp_right ?_
    rintro ⟨e, he, rfl⟩
    rcases List.mem_or_eq_of_mem_set he with he | rfl
    · exact ⟨e, he, rfl⟩
    · exact ⟨_, List.get_mem _ i, rfl⟩
  | touch i s nowMs =>
    refine hx.imp_right ?_
    rintro ⟨e, he, rfl⟩
    rcases List.mem_or_eq_of_mem_set he with he | rfl
    · exact ⟨e, he, rfl⟩
    · exact ⟨_, List.get_mem _ i, rfl⟩
  | remove i => exact hx.imp_right fun ⟨e, he, h⟩ => ⟨e, (List.eraseIdx_sublist ..).subset he, h⟩
  | opened entry _ _ _ h hh => cases hh
  | repend i s =>
    refine hx.imp_left ?_
    rintro ⟨p, hp, rfl⟩
    rcases List.mem_or_eq_of_mem_set hp with hp | rfl
    · exact ⟨p, hp, rfl⟩
    · exact ⟨_, List.get_mem _ i, rfl⟩
  | accepted i s packet nowMs =>
    rcases hx with ⟨p, hp, h⟩ | ⟨e, he, rfl⟩
    · exact .inl ⟨p, (List.eraseIdx_sublist ..).subset hp, h⟩
    · rcases List.mem_append.mp he with he | he
      · exact .inr ⟨e, he, rfl⟩
      · rw [List.mem_singleton] at he
        exact .inl ⟨_, List.get_mem _ i, he ▸ rfl⟩
  | restart =>
    rcases hx with ⟨p, hp, -⟩ | ⟨e, he, -⟩
    · cases hp
    · cases he

/-- The cached answer is for a session that was opened from the same place. -/
theorem cachedAnswer_ok {ack : List Byte}
    (h : m.cachedAnswer scid packet binding = some (.ok ack)) : (scid, binding) ∈ m.bindings := by
  rw [mem_bindings]
  unfold cachedAnswer at h
  split at h
  · rename_i p hp
    have hscid := List.find?_some hp
    simp only [decide_eq_true_eq] at hscid
    simp only [Option.some.injEq] at h
    split at h
    · rename_i hsame
      exact .inl ⟨p, List.mem_of_find?_eq_some hp, by rw [hscid, hsame.2]⟩
    · cases h
  · obtain ⟨e, he, h⟩ := Option.map_eq_some_iff.mp h
    have hscid := List.find?_some he
    simp only [decide_eq_true_eq] at hscid
    split at h
    · rename_i hsame
      exact .inr ⟨e, List.mem_of_find?_eq_some he, by rw [hscid, hsame.2]⟩
    · cases h

/-- An OPEN_AUTH brings back the cookie that was made for this SCID and this place. -/
def Returns (C : Crypto) (m : ServerMachine) (packet : List Byte) (binding : ObservedBinding)
    (nowMs bucket : U64) : Prop :=
  ∃ body auth, m.handshakeBody OPEN_AUTH packet = .ok (u64Of (packet.drop 8), body) ∧
    m.parseAuth C body = .ok auth ∧
    m.checkCookie C (u64Of (packet.drop 8)) auth binding nowMs bucket = .ok ()

theorem authRequest_returns {auth : OpenAuth} {given : ServerHandshakeMaterial}
    (h : m.authRequest C packet binding nowMs bucket material = .ok (.inr (scid, auth, given))) :
    m.Returns C packet binding nowMs bucket := by
  simp only [authRequest, Outcome.bind_eq_ok] at h
  obtain ⟨⟨id, body⟩, hb, h⟩ := h
  obtain ⟨hid, -⟩ := handshakeBody_scid hb
  dsimp only at h
  split at h
  · simp only [Outcome.bind_eq_ok, Except.ok.injEq, reduceCtorEq, and_false, exists_false] at h
  · simp only [Outcome.bind_eq_ok, admitAuth] at h
    obtain ⟨-, ⟨auth, hparse, ⟨⟩, hcookie, -⟩, -⟩ := h
    rw [hid] at hb hcookie
    exact ⟨body, auth, hb, hparse, hcookie⟩

/-- What an OPEN_AUTH does to the tables: nothing, or a new pending entry for its sender, who has
returned a cookie. -/
theorem receiveOpenAuth_cases (m : ServerMachine) (packet : List Byte) (binding : ObservedBinding)
    (nowMs bucket : U64) (material : Option ServerHandshakeMaterial) (owner : ℕ) :
    let r := m.receiveOpenAuth C packet binding nowMs bucket material owner
    (r.1 = m ∨ r.1 = m.expire nowMs) ∧
        (∀ ack, r.2 = .ok ack → (u64Of (packet.drop 8), binding) ∈ r.1.bindings) ∨
      (∃ ack, r.2 = .ok ack) ∧ m.Returns C packet binding nowMs bucket ∧
        ∃ p : PendingSession, p.scid = u64Of (packet.drop 8) ∧ p.binding = binding ∧
          r.1 = { m.expire nowMs with pending := (m.expire nowMs).pending ++ [p] } := by
  intro r
  simp only [r, receiveOpenAuth]
  split
  · exact .inl ⟨.inl rfl, fun ack h => by cases h⟩
  · split
    · exact .inl ⟨.inr rfl, fun ack h => by cases h⟩
    · rename_i ack hreq
      refine .inl ⟨.inr rfl, fun _ _ => ?_⟩
      simp only [authRequest, Outcome.bind_eq_ok] at hreq
      obtain ⟨⟨id, body⟩, hb, hreq⟩ := hreq
      dsimp only at hreq
      split at hreq
      · rename_i answer hcached
        obtain ⟨a, rfl, -⟩ := Outcome.bind_eq_ok.mp hreq
        rw [(handshakeBody_scid hb).1] at hcached
        exact cachedAnswer_ok hcached
      · simp only [Outcome.bind_eq_ok, Except.ok.injEq, reduceCtorEq, and_false,
          exists_false] at hreq
    · rename_i scid auth given hreq
      obtain ⟨⟨hscid, -⟩, -⟩ := authRequest_eq_inr hreq
      have hreturns : (m.expire nowMs).Returns C packet binding nowMs bucket :=
        authRequest_returns hreq
      split
      · exact .inl ⟨.inr rfl, fun ack h => by cases h⟩
      · exact .inr ⟨⟨_, rfl⟩, hreturns, _, hscid, rfl, rfl⟩

/-- A call that concerns the sessions of one SCID only, at a time that the others outlive. -/
structure Spares (m : ServerMachine) (scid nowMs : U64) (m' : ServerMachine) : Prop where
  pending : ∀ p ∈ m.pending, p.scid ≠ scid → nowMs < p.deadlineMs → p ∈ m'.pending
  established : ∀ e ∈ m.established, e.scid ≠ scid →
    (satSub nowMs e.lastActiveMs).val < 120000 → e ∈ m'.established

theorem Spares.expire (m : ServerMachine) (scid nowMs : U64) :
    Spares m scid nowMs (m.expire nowMs) where
  pending p hp _ hlive := List.mem_filter.mpr ⟨hp, by simpa using hlive⟩
  established e he _ hlive := mem_expire he hlive

theorem Spares.trans {m'' : ServerMachine} (h : Spares m scid nowMs m')
    (h' : Spares m' scid nowMs m'') : Spares m scid nowMs m'' where
  pending p hp hne hlive := h'.pending p (h.pending p hp hne hlive) hne hlive
  established e he hne hlive := h'.established e (h.established e he hne hlive) hne hlive

theorem receiveAccept_spares (m : ServerMachine) (packet : List Byte) (nowMs : U64) :
    Spares m (u64Of (packet.drop 8)) nowMs (m.receiveAccept C packet nowMs).1 := by
  refine (Spares.expire m _ nowMs).trans ?_
  unfold receiveAccept
  dsimp only
  generalize m.expire nowMs = m
  have hsame : Spares m (u64Of (packet.drop 8)) nowMs m := ⟨fun p hp _ _ => hp, fun e he _ _ => he⟩
  split
  · exact hsame
  · rename_i scid hscid
    obtain ⟨hscid, -⟩ := acceptScid_eq_ok hscid
    split
    · exact hsame
    · split
      · exact hsame
      · rename_i i hi
        have hget : (m.pending.get i).scid = u64Of (packet.drop 8) := by
          rw [← hscid]
          simpa using (List.findFinIdx?_eq_some_iff.mp hi).1
        have hother : ∀ p ∈ m.pending, p.scid ≠ u64Of (packet.drop 8) →
            ∃ j : Fin m.pending.length, j.val ≠ i.val ∧ m.pending.get j = p := by
          intro p hp hne
          obtain ⟨j, hj⟩ := List.mem_iff_get.mp hp
          refine ⟨j, fun hij => hne ?_, hj⟩
          rw [← hj, Fin.ext hij, hget]
        unfold acceptPending
        dsimp only
        split
        · exact hsame
        · rename_i preview _
          split
          · exact hsame
          · split
            · exact hsame
            · generalize (m.pending.get i).session.commit preview = r
              obtain ⟨session, e | plaintext⟩ := r
              · refine ⟨fun p hp hne _ => ?_, fun e he _ _ => he⟩
                obtain ⟨j, hij, hj⟩ := hother p hp hne
                refine List.mem_iff_getElem?.mpr ⟨j, ?_⟩
                rw [List.getElem?_set_ne hij.symm, List.getElem?_eq_getElem j.isLt]
                exact congrArg some hj
              · refine ⟨fun p hp hne _ => ?_, fun e he _ _ => List.mem_append_left _ he⟩
                obtain ⟨j, hij, hj⟩ := hother p hp hne
                exact List.mem_eraseIdx_iff_getElem.mpr ⟨j, j.isLt, hij, hj⟩

theorem commitData_pending (m : ServerMachine) (p : DataPreview) (nowMs : U64) :
    (m.expire nowMs).pending ⊆ (m.commitData p nowMs).1.pending := by
  unfold commitData
  split
  · exact List.filter_sublist.subset
  · dsimp only
    split
    · exact fun _ h => h
    · rename_i i _
      generalize ((m.expire nowMs).established.get i).session.commit p.commit = r
      obtain ⟨session, e | plaintext⟩ := r <;> exact fun _ h => h

theorem receiveData_spares (m : ServerMachine) (packet : List Byte) (nowMs : U64) :
    Spares m (u64Of (packet.drop 8)) nowMs (m.receiveData C packet nowMs).1 where
  pending p hp hne hlive := by
    have hmem := (Spares.expire m (u64Of (packet.drop 8)) nowMs).pending p hp hne hlive
    unfold receiveData previewDataWithLocs
    simp only [expire_expire]
    split
    · rename_i h
      obtain ⟨rfl, -⟩ := Prod.mk.inj h
      exact hmem
    · rename_i h
      obtain ⟨rfl, -⟩ := Prod.mk.inj h
      refine commitData_pending _ _ nowMs ?_
      rwa [expire_expire]
  established e he hne hlive := receiveData_keeps rfl hne (mem_expire he hlive)

theorem sendData_spares (m : ServerMachine) (scid nowMs : U64) (plaintext : List Byte) :
    Spares m scid nowMs (m.sendData C scid plaintext).1 where
  pending p hp _ _ := by
    unfold sendData sendDataWithLocs
    split
    · exact hp
    · dsimp only
      split <;> exact hp
  established e he hne _ := sendDataWithLocs_keeps hne he

theorem receiveClose_spares (m : ServerMachine) (packet : List Byte) (nowMs : U64) :
    Spares m (u64Of (packet.drop 8)) nowMs (m.receiveClose C packet nowMs).1 where
  pending p hp hne hlive := by
    have hmem := (Spares.expire m (u64Of (packet.drop 8)) nowMs).pending p hp hne hlive
    unfold receiveClose
    dsimp only
    split
    · exact hmem
    · split
      · exact hmem
      · split
        · exact hmem
        · split
          · exact hmem
          · generalize DirectionalSession.decrypt C _ packet = r
            obtain ⟨session, e | plaintext⟩ := r
            · exact hmem
            · dsimp only
              split <;> exact hmem
  established e he hne hlive := receiveClose_keeps rfl hne (mem_expire he hlive)

theorem receiveClose_eq_ok {code : U16} (h : (m.receiveClose C packet nowMs).2 = .ok code) :
    ∃ i, (m.expire nowMs).position (u64Of (packet.drop 8)) = some i ∧
      (m.receiveClose C packet nowMs).1 = (m.expire nowMs).removeEstablished i := by
  unfold receiveClose at h ⊢
  dsimp only at h ⊢
  generalize m.expire nowMs = m at h ⊢
  split at h
  · cases h
  · rename_i header payload hopen
    simp only [Outcome.bind_eq_ok, Outcome.mapError_eq_ok] at hopen
    obtain ⟨⟨header', payload'⟩, hu, ⟨⟩, hv, heq⟩ := hopen
    obtain ⟨rfl, rfl⟩ := Prod.mk.inj (Except.ok.inj heq)
    obtain ⟨hscid, -⟩ := unpack_scid_ne_zero hu (validateSessionHeader_eq_ok hv).1
    split at h
    · cases h
    · rename_i i hi
      rw [hscid] at hi
      refine ⟨i, hi, ?_⟩
      split at h
      · cases h
      · rename_i message _
        by_cases htyp : message.typ ≠ CLOSE
        · rw [if_pos htyp] at h
          cases h
        · rw [if_neg htyp] at h ⊢
          generalize DirectionalSession.decrypt C _ packet = r at h ⊢
          obtain ⟨session, e | plaintext⟩ := r
          · cases h
          · dsimp only at h ⊢
            split at h
            · cases h
            · rfl

/-- A call that changes nothing but the two tables. -/
def TablesOnly (m m' : ServerMachine) : Prop :=
  m' = { m with pending := m'.pending, established := m'.established }

theorem TablesOnly.trans {m'' : ServerMachine} (h : TablesOnly m m') (h' : TablesOnly m' m'') :
    TablesOnly m m'' := by
  unfold TablesOnly at h h' ⊢
  rw [h', h]

theorem expire_tablesOnly (m : ServerMachine) (nowMs : U64) : TablesOnly m (m.expire nowMs) := rfl

theorem receiveAccept_tablesOnly (m : ServerMachine) (packet : List Byte) (nowMs : U64) :
    TablesOnly m (m.receiveAccept C packet nowMs).1 := by
  refine (expire_tablesOnly m nowMs).trans ?_
  unfold receiveAccept
  dsimp only
  generalize m.expire nowMs = m
  split
  · rfl
  · split
    · rfl
    · split
      · rfl
      · unfold acceptPending
        dsimp only
        split
        · rfl
        · split
          · rfl
          · split
            · rfl
            · split <;> rfl

theorem commitData_tablesOnly (m : ServerMachine) (p : DataPreview) (nowMs : U64) :
    TablesOnly m (m.commitData p nowMs).1 := by
  unfold commitData
  split
  · rfl
  · dsimp only
    split
    · rfl
    · split <;> rfl

theorem receiveData_tablesOnly (m : ServerMachine) (packet : List Byte) (nowMs : U64) :
    TablesOnly m (m.receiveData C packet nowMs).1 := by
  unfold receiveData previewDataWithLocs
  simp only [expire_expire]
  split
  · rename_i h
    obtain ⟨rfl, -⟩ := Prod.mk.inj h
    rfl
  · rename_i h
    obtain ⟨rfl, -⟩ := Prod.mk.inj h
    exact (expire_tablesOnly m nowMs).trans (commitData_tablesOnly _ _ nowMs)

theorem sendData_tablesOnly (m : ServerMachine) (scid : U64) (plaintext : List Byte) :
    TablesOnly m (m.sendData C scid plaintext).1 := by
  unfold sendData sendDataWithLocs
  split
  · rfl
  · dsimp only
    split <;> rfl

theorem receiveClose_tablesOnly (m : ServerMachine) (packet : List Byte) (nowMs : U64) :
    TablesOnly m (m.receiveClose C packet nowMs).1 := by
  refine (expire_tablesOnly m nowMs).trans ?_
  unfold receiveClose
  dsimp only
  generalize m.expire nowMs = m
  split
  · rfl
  · split
    · rfl
    · split
      · rfl
      · split
        · rfl
        · split
          · rfl
          · split <;> rfl

theorem receiveOpenAuth_tablesOnly (m : ServerMachine) (packet : List Byte)
    (binding : ObservedBinding) (nowMs bucket : U64) (material : Option ServerHandshakeMaterial)
    (owner : ℕ) :
    TablesOnly m (m.receiveOpenAuth C packet binding nowMs bucket material owner).1 := by
  obtain ⟨heq | heq, -⟩ | ⟨-, -, p, -, -, heq⟩ :=
    m.receiveOpenAuth_cases (C := C) packet binding nowMs bucket material owner <;> rw [heq] <;> rfl

/-- A session that has closed is gone. -/
theorem receiveClose_gone (ht : Tables m) {code : U16}
    (h : (m.receiveClose C packet nowMs).2 = .ok code) :
    u64Of (packet.drop 8) ∉ (m.receiveClose C packet nowMs).1.scids := by
  obtain ⟨i, hi, heq⟩ := receiveClose_eq_ok h
  rw [heq]
  exact removed_absent (tables_expire ht nowMs) hi

end ServerMachine

namespace Serving

variable {C : Crypto} {o : Options} {s s' : Serving} {a : Datagram} {binding : UdpBinding}
  {scid nowMs : U64} {endpoint : SocketAddr}

def Starts (C : Crypto) (o : Options) (s : Serving) : Prop :=
  ∃ material selector sourceHashKey, start C o material selector sourceHashKey = .ok s

/-- Any datagrams from anywhere and at any time, as long as the loop goes on. -/
abbrev Reach (C : Crypto) (o : Options) (s : Serving) : Prop :=
  Machine.Reach (Starts C o) (fun s a => (s.round C o a).1)
    (fun s a => s.successes < o.maxSessions ∧ a.packet.val.length ≤ o.budget) s

/-- Every session is with the endpoint it was opened from. -/
structure Bound (C : Crypto) (s : Serving) : Prop where
  server : s.server.Reach C
  held : ∀ x ∈ s.server.bindings, ∃ endpoint binding,
    s.peerBindings x.1 = some (endpoint, binding) ∧ x.2 = .udp binding
  peers : ∀ scid endpoint binding, s.peerBindings scid = some (endpoint, binding) →
    endpoint.endpointBinding s.selector = .ok binding

/-- A call for the sessions of one SCID that brings no new one. -/
structure Attends (C : Crypto) (m : ServerMachine) (a : Datagram) (m' : ServerMachine) : Prop where
  reach : m.Reach C → m'.Reach C
  bindings : m'.bindings ⊆ m.bindings
  spares : m.Spares a.scid a.nowMs m'
  tablesOnly : m.TablesOnly m'

/-- What a response does to the loop's variables. -/
inductive Responds (C : Crypto) (s : Serving) (a : Datagram) (binding : UdpBinding) :
    Serving → Option (Option (List Byte)) → Prop
  | idle (verdict : Option (Option (List Byte))) (hnone : ∀ p, verdict ≠ some (some p)) :
    Responds C s a binding s verdict
  | opened (limiter : PrevalidationLimiter) (response : Option (List Byte))
      (htype : sesType a.packet.val = OPEN) :
    Responds C s a binding { s with limiter } (some response)
  | authenticated (ack : List Byte) (server : ServerMachine)
      (h : s.server.receiveOpenAuth C a.packet.val (.udp binding) a.nowMs (bucketOf a.nowMs)
        (some a.material) a.owner = (server, .ok ack)) :
    Responds C s a binding { s with
      server
      peerBindings := Function.update s.peerBindings a.scid (some (a.endpoint, binding)) }
      (some (some ack))
  | refused (server : ServerMachine) (e : SessionError)
      (h : s.server.receiveOpenAuth C a.packet.val (.udp binding) a.nowMs (bucketOf a.nowMs)
        (some a.material) a.owner = (server, .error e)) :
    Responds C s a binding { s with server } (some none)
  | attended (server : ServerMachine) (verdict : Option (Option (List Byte)))
      (hmatch : s.peerMatches a.scid a.endpoint binding = true) (h : Attends C s.server a server)
      (hnone : ∀ p, verdict ≠ some (some p)) :
    Responds C s a binding { s with server } verdict
  | echoed (server : ServerMachine) (echo : Option (List Byte))
      (hmatch : s.peerMatches a.scid a.endpoint binding = true) (h : Attends C s.server a server)
      (hlive : a.scid ∈ s.server.scids) :
    Responds C s a binding { s with server } (some echo)
  | closed (server : ServerMachine) (hmatch : s.peerMatches a.scid a.endpoint binding = true)
      (h : Attends C s.server a server) (hgone : a.scid ∉ server.scids) :
    Responds C s a binding { s with
      server
      peerBindings := Function.update s.peerBindings a.scid none
      successes := s.successes + 1 } (some none)

theorem receiveAccept_attends (m : ServerMachine) (a : Datagram) :
    Attends C m a (m.receiveAccept C a.packet.val a.nowMs).1 where
  reach h := h.next (a := ServerCall.receiveAccept a.packet.val a.nowMs) trivial
  bindings := List.Subset.trans (ServerMachine.receiveAccept_shift m a.packet.val a.nowMs).bindings
    (m.bindings_expire a.nowMs)
  spares := m.receiveAccept_spares a.packet.val a.nowMs
  tablesOnly := m.receiveAccept_tablesOnly a.packet.val a.nowMs

theorem receiveData_attends (m : ServerMachine) (a : Datagram) :
    Attends C m a (m.receiveData C a.packet.val a.nowMs).1 where
  reach h := h.next (a := ServerCall.receiveData a.packet.val a.nowMs) trivial
  bindings := List.Subset.trans (ServerMachine.receiveData_shift m a.packet.val a.nowMs).bindings
    (m.bindings_expire a.nowMs)
  spares := m.receiveData_spares a.packet.val a.nowMs
  tablesOnly := m.receiveData_tablesOnly a.packet.val a.nowMs

theorem receiveClose_attends (m : ServerMachine) (a : Datagram) :
    Attends C m a (m.receiveClose C a.packet.val a.nowMs).1 where
  reach h := h.next (a := ServerCall.receiveClose a.packet.val a.nowMs) trivial
  bindings := by
    have hs : ServerMachine.Shift C none none (m.expire a.nowMs)
      (m.receiveClose C a.packet.val a.nowMs).1 := ServerMachine.receiveClose_shift m _ _
    exact List.Subset.trans hs.bindings (m.bindings_expire a.nowMs)
  spares := m.receiveClose_spares a.packet.val a.nowMs
  tablesOnly := m.receiveClose_tablesOnly a.packet.val a.nowMs

theorem Attends.sendData {m m' : ServerMachine} (h : Attends C m a m') (plaintext : List Byte) :
    Attends C m a (m'.sendData C a.scid plaintext).1 where
  reach hr := (h.reach hr).next (a := ServerCall.sendData a.scid plaintext _ _) trivial
  bindings := List.Subset.trans
    (ServerMachine.sendDataWithLocs_shift m' a.scid plaintext _ _).bindings h.bindings
  spares := h.spares.trans (m'.sendData_spares a.scid a.nowMs plaintext)
  tablesOnly := h.tablesOnly.trans (m'.sendData_tablesOnly a.scid plaintext)

theorem response_responds (ht : s.server.Tables) (binding : UdpBinding) :
    Responds C s a binding (s.response C o a binding).1 (s.response C o a binding).2 := by
  unfold response
  split
  · exact .idle _ fun p h => by cases h
  · rename_i header payload hu
    obtain ⟨hheader, hpayload, -⟩ := unpack_eq_ok hu
    have hscid : header.scid = a.scid := congrArg Header.scid hheader
    have htype : payload.head? = some OPEN → sesType a.packet.val = OPEN := by
      intro h
      rw [hpayload, List.head?_drop] at h
      simp only [HEADER_LEN] at h
      simp [sesType, byteAt, h]
    split
    · exact .opened _ _ (htype ‹_›)
    · split
      · split
        · rename_i h
          rw [hscid]
          exact .authenticated _ _ h
        · rename_i h
          exact .refused _ _ h
      · split
        · split
          · exact .idle _ fun p h => by cases h
          · rename_i hmatch
            rw [hscid, not_not] at hmatch
            have h := receiveAccept_attends (C := C) s.server a
            split <;> rename_i heq <;> rw [heq] at h
            · exact .attended _ _ hmatch h fun p h => by cases h
            · exact .attended _ _ hmatch h fun p h => by cases h
        · split
          · split
            · exact .idle _ fun p h => by cases h
            · rename_i hmatch
              rw [hscid, not_not] at hmatch
              have h := receiveData_attends (C := C) s.server a
              split <;> rename_i heq <;> rw [heq] at h
              · rename_i plaintext
                obtain ⟨e, he, hs⟩ := ServerMachine.receiveData_finds (congrArg Prod.snd heq)
                have hlive : a.scid ∈ s.server.scids := by
                  refine (s.server.scids_expire a.nowMs).subset (List.mem_append_right _ ?_)
                  exact List.mem_map.mpr ⟨e, he, hs⟩
                rw [hscid]
                exact .echoed _ _ hmatch (h.sendData plaintext) hlive
              · exact .attended _ _ hmatch h fun p h => by cases h
          · split
            · split
              · exact .idle _ fun p h => by cases h
              · rename_i hmatch
                rw [hscid, not_not] at hmatch
                have h := receiveClose_attends (C := C) s.server a
                split <;> rename_i heq <;> rw [heq] at h
                · have hgone := ServerMachine.receiveClose_gone ht (congrArg Prod.snd heq)
                  rw [heq] at hgone
                  rw [hscid]
                  exact .closed _ hmatch h hgone
                · exact .attended _ _ hmatch h fun p h => by cases h
            · exact .idle _ fun p h => by cases h

/-- After an OPEN_AUTH that is answered, its sender holds the session. -/
theorem openAuth_bindings {m m' : ServerMachine} {ack : List Byte}
    {material : Option ServerHandshakeMaterial} {owner : ℕ} {bucket : U64} {packet : List Byte}
    {b : ObservedBinding}
    (h : m.receiveOpenAuth C packet b nowMs bucket material owner = (m', .ok ack)) :
    (u64Of (packet.drop 8), b) ∈ m'.bindings ∧
      ∀ x ∈ m'.bindings, x ∈ m.bindings ∨ x = (u64Of (packet.drop 8), b) := by
  obtain ⟨hsame, hheld⟩ | ⟨-, -, p, hscid, hbinding, heq⟩ :=
    m.receiveOpenAuth_cases (C := C) packet b nowMs bucket material owner
  · rw [h] at hsame hheld
    refine ⟨hheld ack rfl, fun x hx => .inl ?_⟩
    rcases hsame with rfl | rfl
    · exact hx
    · exact m.bindings_expire nowMs hx
  · rw [h] at heq
    rw [← hscid, ← hbinding]
    subst heq
    constructor
    · exact ServerMachine.mem_bindings.mpr (.inl ⟨p, List.mem_append_right _ (.head _), rfl⟩)
    · intro x hx
      rcases ServerMachine.mem_bindings.mp hx with ⟨q, hq, rfl⟩ | ⟨e, he, rfl⟩
      · rcases List.mem_append.mp hq with hq | hq
        · exact .inl (m.bindings_expire nowMs (ServerMachine.mem_bindings.mpr (.inl ⟨q, hq, rfl⟩)))
        · rw [List.mem_singleton] at hq
          exact .inr (hq ▸ rfl)
      · exact .inl (m.bindings_expire nowMs (ServerMachine.mem_bindings.mpr (.inr ⟨e, he, rfl⟩)))

theorem Bound.attends {server : ServerMachine} (h : Bound C s) (ha : Attends C s.server a server) :
    Bound C { s with server } where
  server := ha.reach h.server
  held x hx := h.held x (ha.bindings hx)
  peers := h.peers

theorem Bound.response (h : Bound C s) (hb : a.endpoint.endpointBinding s.selector = .ok binding) :
    Bound C (s.response C o a binding).1 := by
  have ht := ServerMachine.tables_reach h.server
  have hr := s.response_responds (C := C) (o := o) (a := a) ht binding
  generalize s.response C o a binding = r at hr ⊢
  obtain ⟨s', verdict⟩ := r
  dsimp only at hr ⊢
  cases hr with
  | idle | opened => exact ⟨h.server, h.held, h.peers⟩
  | attended server verdict hmatch ha | echoed server echo hmatch ha => exact h.attends ha
  | refused server e heq =>
    have hreach := h.server.next (a := ServerCall.receiveOpenAuth a.packet.val (.udp binding)
      a.nowMs (bucketOf a.nowMs) (some a.material) a.owner) trivial
    simp only [ServerMachine.step, heq] at hreach
    refine ⟨hreach, fun x hx => h.held x ?_, h.peers⟩
    obtain ⟨hsame, -⟩ | ⟨⟨ack, hok⟩, -⟩ := s.server.receiveOpenAuth_cases (C := C) a.packet.val
      (.udp binding) a.nowMs (bucketOf a.nowMs) (some a.material) a.owner
    · rw [heq] at hsame
      rcases hsame with rfl | rfl
      · exact hx
      · exact s.server.bindings_expire a.nowMs hx
    · rw [heq] at hok
      cases hok
  | authenticated ack server heq =>
    have hreach := h.server.next (a := ServerCall.receiveOpenAuth a.packet.val (.udp binding)
      a.nowMs (bucketOf a.nowMs) (some a.material) a.owner) trivial
    simp only [ServerMachine.step, heq] at hreach
    obtain ⟨hmem, hnew⟩ := openAuth_bindings heq
    refine ⟨hreach, fun x hx => ?_, fun scid endpoint b hpeer => ?_⟩
    · dsimp only at hx ⊢
      by_cases hx1 : x.1 = a.scid
      · have hx2 : x.2 = .udp binding := by
          refine (ServerMachine.tables_reach hreach).binding_unique x.1 hx ?_
          rw [hx1]
          exact hmem
        exact ⟨a.endpoint, binding, by rw [hx1, Function.update_self], hx2⟩
      · rcases hnew x hx with hold | rfl
        · rw [Function.update_of_ne hx1]
          exact h.held x hold
        · exact absurd rfl hx1
    · dsimp only at hpeer
      by_cases hscid : scid = a.scid
      · rw [hscid, Function.update_self] at hpeer
        obtain ⟨rfl, rfl⟩ := Prod.mk.inj (Option.some.inj hpeer)
        exact hb
      · rw [Function.update_of_ne hscid] at hpeer
        exact h.peers scid endpoint b hpeer
  | closed server hmatch ha hgone =>
    refine ⟨ha.reach h.server, fun x hx => ?_, fun scid endpoint b hpeer => ?_⟩
    · have hx1 : x.1 ≠ a.scid := by
        rintro hx1
        refine hgone ?_
        rw [← ServerMachine.bindings_fst, ← hx1]
        exact List.mem_map_of_mem hx
      dsimp only
      rw [Function.update_of_ne hx1]
      exact h.held x (ha.bindings hx)
    · dsimp only at hpeer
      by_cases hscid : scid = a.scid
      · rw [hscid, Function.update_self] at hpeer
        cases hpeer
      · rw [Function.update_of_ne hscid] at hpeer
        exact h.peers scid endpoint b hpeer

theorem Bound.rotated (h : Bound C s) (a : Datagram) : Bound C (s.rotated a) := by
  unfold Serving.rotated
  split
  · have hreach := h.server.next (a := ServerCall.rotateCookieKey a.cookieKey a.nowMs) trivial
    exact ⟨hreach, h.held, h.peers⟩
  · exact h

theorem Bound.settle (h : Bound C s) (nowMs : U64) : Bound C (s.settle nowMs) where
  server := h.server.next (a := ServerCall.expire nowMs) trivial
  held x hx := by
    have hlive : (s.server.expire nowMs).isLive x.1 = true := by
      rw [ServerMachine.isLive_iff, ← ServerMachine.bindings_fst]
      exact List.mem_map_of_mem hx
    obtain ⟨endpoint, binding, hpeer, hx2⟩ := h.held x (s.server.bindings_expire nowMs hx)
    exact ⟨endpoint, binding, (if_pos hlive).trans hpeer, hx2⟩
  peers scid endpoint binding hpeer := by
    refine h.peers scid endpoint binding ?_
    simp only [Serving.settle, retainLivePeerBindings] at hpeer
    split at hpeer
    · exact hpeer
    · cases hpeer

@[simp] theorem rotated_selector (s : Serving) (a : Datagram) :
    (s.rotated a).selector = s.selector := by
  unfold Serving.rotated
  split <;> rfl

/-- What a round comes to: nothing, or a response and perhaps the end of the body. -/
theorem round_cases (C : Crypto) (o : Options) (s : Serving) (a : Datagram) :
    s.round C o a = (s, none) ∨
    ∃ binding, a.endpoint.endpointBinding s.selector = .ok binding ∧
      let r := (s.rotated a).response C o a binding
      (r.2 = none ∧ s.round C o a = (r.1, none)) ∨
        ∃ packet, r.2 = some packet ∧ s.round C o a = (r.1.settle a.nowMs, packet) := by
  unfold Serving.round
  split
  · exact .inl rfl
  · split
    · exact .inl rfl
    · rename_i binding hb
      refine .inr ⟨binding, hb, ?_⟩
      dsimp only
      generalize (s.rotated a).response C o a binding = r
      obtain ⟨s', verdict | packet⟩ := r
      · exact .inl ⟨rfl, rfl⟩
      · exact .inr ⟨packet, rfl, rfl⟩

theorem Bound.round (h : Bound C s) (o : Options) (a : Datagram) : Bound C (s.round C o a).1 := by
  rcases round_cases C o s a with heq | ⟨binding, hb, ⟨-, heq⟩ | ⟨packet, -, heq⟩⟩
  · rw [heq]
    exact h
  all_goals
    rw [heq]
    have hresponse : Bound C ((s.rotated a).response C o a binding).1 :=
      (h.rotated a).response (by rw [rotated_selector, hb])
  · exact hresponse
  · exact hresponse.settle a.nowMs

theorem bound_reach (h : Reach C o s) : Bound C s := by
  refine h.invariant ?_ fun s a hs _ => hs.round o a
  rintro s ⟨material, selector, key, hstart⟩
  simp only [start, Outcome.ite_error_eq_ok, Outcome.bind_eq_ok, Except.ok.injEq] at hstart
  obtain ⟨-, config, hconfig, server, hnew, rfl⟩ := hstart
  refine ⟨.start ⟨config, o.localSeed, material, hnew⟩, ?_, fun _ _ _ h => by cases h⟩
  obtain ⟨-, rfl⟩ := ServerMachine.new_eq_ok hnew
  intro x hx
  cases hx

/-- What the datagrams from one place leave alone: the sessions with any other. -/
structure Spares (s : Serving) (binding : UdpBinding) (nowMs : U64) (s' : Serving) : Prop where
  pending : ∀ p ∈ s.server.pending, p.binding ≠ .udp binding → nowMs < p.deadlineMs →
    p ∈ s'.server.pending ∧ s'.peerBindings p.scid = s.peerBindings p.scid
  established : ∀ e ∈ s.server.established, e.binding ≠ .udp binding →
    (satSub nowMs e.lastActiveMs).val < 120000 →
    e ∈ s'.server.established ∧ s'.peerBindings e.scid = s.peerBindings e.scid

theorem Spares.refl (s : Serving) (binding : UdpBinding) (nowMs : U64) :
    s.Spares binding nowMs s where
  pending _ hp _ _ := ⟨hp, rfl⟩
  established _ he _ _ := ⟨he, rfl⟩

theorem Spares.trans {s'' : Serving} (h : s.Spares binding nowMs s')
    (h' : s'.Spares binding nowMs s'') : s.Spares binding nowMs s'' where
  pending p hp hne hlive := by
    obtain ⟨hmem, hpeer⟩ := h.pending p hp hne hlive
    obtain ⟨hmem', hpeer'⟩ := h'.pending p hmem hne hlive
    exact ⟨hmem', hpeer'.trans hpeer⟩
  established e he hne hlive := by
    obtain ⟨hmem, hpeer⟩ := h.established e he hne hlive
    obtain ⟨hmem', hpeer'⟩ := h'.established e hmem hne hlive
    exact ⟨hmem', hpeer'.trans hpeer⟩

/-- A datagram that matches is for a session with its own sender. -/
theorem Attends.spares_others (h : Bound C s) (ha : Attends C s.server a s'.server)
    (hmatch : s.peerMatches a.scid a.endpoint binding = true)
    (hpeers : ∀ scid ≠ a.scid, s'.peerBindings scid = s.peerBindings scid) :
    s.Spares binding a.nowMs s' := by
  have hother : ∀ x ∈ s.server.bindings, x.2 ≠ .udp binding → x.1 ≠ a.scid := by
    intro x hx hne hscid
    obtain ⟨endpoint, b, hpeer, hb⟩ := h.held x hx
    rw [peerMatches, decide_eq_true_eq, ← hscid, hpeer] at hmatch
    obtain ⟨-, rfl⟩ := Prod.mk.inj (Option.some.inj hmatch)
    exact hne hb
  constructor
  · intro p hp hne hlive
    have hscid := hother _ (ServerMachine.mem_bindings.mpr (.inl ⟨p, hp, rfl⟩)) hne
    exact ⟨ha.spares.pending p hp hscid hlive, hpeers p.scid hscid⟩
  · intro e he hne hlive
    have hscid := hother _ (ServerMachine.mem_bindings.mpr (.inr ⟨e, he, rfl⟩)) hne
    exact ⟨ha.spares.established e he hscid hlive, hpeers e.scid hscid⟩

/-- No OPEN_AUTH takes an entry out before its time. -/
theorem openAuth_keeps (m : ServerMachine) (packet : List Byte) (b : ObservedBinding)
    (nowMs bucket : U64) (material : Option ServerHandshakeMaterial) (owner : ℕ) :
    let m' := (m.receiveOpenAuth C packet b nowMs bucket material owner).1
    (∀ p ∈ m.pending, nowMs < p.deadlineMs → p ∈ m'.pending) ∧
      ∀ e ∈ m.established, (satSub nowMs e.lastActiveMs).val < 120000 → e ∈ m'.established := by
  intro m'
  have hpending : ∀ p ∈ m.pending, nowMs < p.deadlineMs → p ∈ (m.expire nowMs).pending :=
    fun p hp hlive => List.mem_filter.mpr ⟨hp, by simpa using hlive⟩
  have hestablished : ∀ e ∈ m.established, (satSub nowMs e.lastActiveMs).val < 120000 →
      e ∈ (m.expire nowMs).established := fun e he hlive => ServerMachine.mem_expire he hlive
  obtain ⟨heq | heq, -⟩ | ⟨-, -, p, -, -, heq⟩ :=
    m.receiveOpenAuth_cases (C := C) packet b nowMs bucket material owner
  · rw [show m' = m from heq]
    exact ⟨fun p hp _ => hp, fun e he _ => he⟩
  · rw [show m' = m.expire nowMs from heq]
    exact ⟨hpending, hestablished⟩
  · rw [show m' = _ from heq]
    exact ⟨fun q hq hlive => List.mem_append_left _ (hpending q hq hlive), hestablished⟩

theorem response_spares (h : Bound C s) (o : Options) (a : Datagram) (binding : UdpBinding) :
    s.Spares binding a.nowMs (s.response C o a binding).1 := by
  have ht := ServerMachine.tables_reach h.server
  have hr := s.response_responds (C := C) (o := o) (a := a) ht binding
  have hkeeps := openAuth_keeps (C := C) s.server a.packet.val (.udp binding) a.nowMs
    (bucketOf a.nowMs) (some a.material) a.owner
  generalize s.response C o a binding = r at hr ⊢
  obtain ⟨s', verdict⟩ := r
  dsimp only at hr ⊢
  cases hr with
  | idle | opened => exact ⟨fun p hp _ _ => ⟨hp, rfl⟩, fun e he _ _ => ⟨he, rfl⟩⟩
  | attended server verdict hmatch ha | echoed server echo hmatch ha =>
    exact Attends.spares_others h ha hmatch fun _ _ => rfl
  | closed server hmatch ha hgone =>
    exact Attends.spares_others h ha hmatch fun scid hne => Function.update_of_ne hne _ _
  | refused server e heq =>
    rw [heq] at hkeeps
    exact ⟨fun p hp _ hlive => ⟨hkeeps.1 p hp hlive, rfl⟩,
      fun e he _ hlive => ⟨hkeeps.2 e he hlive, rfl⟩⟩
  | authenticated ack server heq =>
    have hreach := h.server.next (a := ServerCall.receiveOpenAuth a.packet.val (.udp binding)
      a.nowMs (bucketOf a.nowMs) (some a.material) a.owner) trivial
    simp only [ServerMachine.step, heq] at hreach
    obtain ⟨hmem, -⟩ := openAuth_bindings heq
    rw [heq] at hkeeps
    have hother : ∀ x ∈ server.bindings, x.2 ≠ .udp binding → x.1 ≠ a.scid := by
      intro x hx hne hscid
      refine hne ((ServerMachine.tables_reach hreach).binding_unique x.1 hx ?_)
      rw [hscid]
      exact hmem
    constructor
    · intro p hp hne hlive
      have hp' := hkeeps.1 p hp hlive
      exact ⟨hp', Function.update_of_ne
        (hother _ (ServerMachine.mem_bindings.mpr (.inl ⟨p, hp', rfl⟩)) hne) _ _⟩
    · intro e he hne hlive
      have he' := hkeeps.2 e he hlive
      exact ⟨he', Function.update_of_ne
        (hother _ (ServerMachine.mem_bindings.mpr (.inr ⟨e, he', rfl⟩)) hne) _ _⟩

theorem settle_spares (s : Serving) (binding : UdpBinding) (nowMs : U64) :
    s.Spares binding nowMs (s.settle nowMs) := by
  constructor
  · intro p hp hne hlive
    have hp' : p ∈ (s.server.expire nowMs).pending :=
      List.mem_filter.mpr ⟨hp, by simpa using hlive⟩
    refine ⟨hp', if_pos ?_⟩
    exact ServerMachine.isLive_iff.mpr (List.mem_append_left _ (List.mem_map_of_mem hp'))
  · intro e he hne hlive
    have he' := ServerMachine.mem_expire he hlive
    refine ⟨he', if_pos ?_⟩
    exact ServerMachine.isLive_iff.mpr (List.mem_append_right _ (List.mem_map_of_mem he'))

theorem rotated_spares (s : Serving) (a : Datagram) (binding : UdpBinding) (nowMs : U64) :
    s.Spares binding nowMs (s.rotated a) := by
  unfold Serving.rotated
  split
  · exact ⟨fun p hp _ _ => ⟨hp, rfl⟩, fun e he _ _ => ⟨he, rfl⟩⟩
  · exact .refl s binding nowMs

/-- A round is about the sessions of the datagram's sender only. -/
theorem round_spares (h : Bound C s) (o : Options) (a : Datagram)
    (hb : ∀ b, a.endpoint.endpointBinding s.selector = .ok b → b = binding) :
    s.Spares binding a.nowMs (s.round C o a).1 := by
  rcases round_cases C o s a with heq | ⟨b, hb', hcases⟩
  · rw [heq]
    exact .refl s binding a.nowMs
  · obtain rfl := hb b hb'
    have hspares := (rotated_spares s a b a.nowMs).trans (response_spares (h.rotated a) o a b)
    rcases hcases with ⟨-, heq⟩ | ⟨packet, -, heq⟩ <;> rw [heq]
    · exact hspares
    · exact hspares.trans (settle_spares _ b a.nowMs)

@[simp] theorem response_selector (ht : s.server.Tables) :
    (s.response C o a binding).1.selector = s.selector := by
  have hr := s.response_responds (C := C) (o := o) (a := a) ht binding
  generalize s.response C o a binding = r at hr ⊢
  obtain ⟨s', verdict⟩ := r
  cases hr <;> rfl

theorem round_selector (h : Bound C s) (o : Options) (a : Datagram) :
    (s.round C o a).1.selector = s.selector := by
  have ht := ServerMachine.tables_reach (h.rotated a).server
  rcases round_cases C o s a with heq | ⟨b, -, ⟨-, heq⟩ | ⟨packet, -, heq⟩⟩ <;> rw [heq]
  · exact (response_selector ht).trans (rotated_selector s a)
  · exact (response_selector ht).trans (rotated_selector s a)

/-- An endpoint that is not the one a session was opened from. -/
def Foreign (s : Serving) (b : ObservedBinding) (a : Datagram) : Prop :=
  ∀ binding, a.endpoint.endpointBinding s.selector = .ok binding → b ≠ .udp binding

theorem Bound.undisturbed (h : Bound C s) {e : EstablishedSession}
    (he : e ∈ s.server.established) (as : List Datagram)
    (has : ∀ a ∈ as, s.Foreign e.binding a ∧ (satSub a.nowMs e.lastActiveMs).val < 120000) :
    let s' := Machine.exec (fun s a => (s.round C o a).1) s as
    e ∈ s'.server.established ∧ s'.peerBindings e.scid = s.peerBindings e.scid := by
  induction as generalizing s with
  | nil => exact ⟨he, rfl⟩
  | cons a as ih =>
    obtain ⟨hforeign, hlive⟩ := has a List.mem_cons_self
    have hkept : e ∈ (s.round C o a).1.server.established ∧
        (s.round C o a).1.peerBindings e.scid = s.peerBindings e.scid := by
      rcases round_cases C o s a with heq | ⟨b, hb, -⟩
      · rw [heq]
        exact ⟨he, rfl⟩
      · refine (round_spares h o a fun b' hb' => ?_).established e he (hforeign b hb) hlive
        rw [hb] at hb'
        exact (Except.ok.inj hb').symm
    obtain ⟨hlater, hpeer⟩ := ih (h.round o a) hkept.1 fun a' ha' => by
      obtain ⟨hforeign', hlive'⟩ := has a' (List.mem_cons_of_mem _ ha')
      refine ⟨fun binding hb => hforeign' binding ?_, hlive'⟩
      rwa [round_selector h] at hb
    exact ⟨hlater, hpeer.trans hkept.2⟩

/-- The sender of a datagram asks for a cookie, has just returned it, or holds the session. -/
def Warranted (C : Crypto) (s : Serving) (a : Datagram) : Prop :=
  sesType a.packet.val = OPEN ∨ ∃ binding, a.endpoint.endpointBinding s.selector = .ok binding ∧
    ((a.scid, .udp binding) ∈ s.server.bindings ∨
      (s.rotated a).server.Returns C a.packet.val (.udp binding) a.nowMs (bucketOf a.nowMs))

theorem Bound.answers (h : Bound C s) {packet : List Byte}
    (hpacket : (s.round C o a).2 = some packet) : s.Warranted C a := by
  have hbindings : (s.rotated a).server.bindings = s.server.bindings := by
    unfold Serving.rotated
    split <;> rfl
  rcases round_cases C o s a with heq | ⟨binding, hb, ⟨-, heq⟩ | ⟨answer, hanswer, heq⟩⟩ <;>
    rw [heq] at hpacket
  · cases hpacket
  · cases hpacket
  · obtain rfl : answer = some packet := hpacket
    have hr := (s.rotated a).response_responds (C := C) (o := o) (a := a)
      (ServerMachine.tables_reach (h.rotated a).server) binding
    rw [hanswer] at hr
    generalize ((s.rotated a).response C o a binding).1 = s' at hr
    rw [Warranted, ← hbindings]
    cases hr with
    | idle _ hnone => exact absurd rfl (hnone packet)
    | opened limiter response htype => exact .inl htype
    | attended server verdict hmatch ha hnone => exact absurd rfl (hnone packet)
    | authenticated ack server hok =>
      refine .inr ⟨binding, hb, ?_⟩
      obtain ⟨hsame, hheld⟩ | ⟨-, hreturns, -⟩ :=
        (s.rotated a).server.receiveOpenAuth_cases (C := C) a.packet.val (.udp binding) a.nowMs
          (bucketOf a.nowMs) (some a.material) a.owner
      · rw [hok] at hsame hheld
        have hmem := hheld packet rfl
        rcases hsame with rfl | rfl
        · exact .inl hmem
        · exact .inl (ServerMachine.bindings_expire _ a.nowMs hmem)
      · exact .inr hreturns
    | echoed server echo hmatch ha hlive =>
      refine .inr ⟨binding, hb, .inl ?_⟩
      rw [← ServerMachine.bindings_fst] at hlive
      obtain ⟨⟨scid, b⟩, hx, rfl⟩ := List.mem_map.mp hlive
      obtain ⟨endpoint, binding', hpeer, rfl⟩ := (h.rotated a).held _ hx
      rw [peerMatches, decide_eq_true_eq] at hmatch
      rw [hmatch] at hpeer
      obtain ⟨-, rfl⟩ := Prod.mk.inj (Option.some.inj hpeer)
      exact hx

/-- What the loop sends is what its rounds answer. -/
theorem serve_sends (h : Reach C o s) (events : List SocketEvent) :
    ∀ x ∈ (s.serve C o events).1, ∃ s' a, Reach C o s' ∧ SocketEvent.arrives a ∈ events ∧
      a.endpoint = x.1 ∧ (s'.round C o a).2 = some x.2 := by
  induction events generalizing s with
  | nil => simp [serve]
  | cons event events ih =>
    intro x hx
    unfold serve at hx
    split at hx
    · rename_i hmore
      split at hx
      · cases hx
      · cases hx
      · rename_i a hreceived
        obtain ⟨rfl, hbudget⟩ := receive_eq_ok hreceived
        rcases List.mem_append.mp hx with hx | hx
        · obtain ⟨packet, hpacket, rfl⟩ := Option.map_eq_some_iff.mp (Option.mem_toList.mp hx)
          exact ⟨s, a, h, List.mem_cons_self, rfl, hpacket⟩
        · obtain ⟨s', a', hreach, hevent, hround⟩ := ih (h.next ⟨hmore, hbudget⟩) x hx
          exact ⟨s', a', hreach, List.mem_cons_of_mem _ hevent, hround⟩
    · cases hx

/-- The loop gets from state to state by rounds on what it has received. -/
theorem serving_exec (C : Crypto) (o : Options) (s : Serving) (events : List SocketEvent) :
    ∃ as, Machine.Allowed (fun s a => (s.round C o a).1)
        (fun s a => s.successes < o.maxSessions ∧ a.packet.val.length ≤ o.budget) s as ∧
      s.serving C o events = Machine.exec (fun s a => (s.round C o a).1) s as ∧
      ∀ a ∈ as, SocketEvent.arrives a ∈ events := by
  induction events generalizing s with
  | nil => exact ⟨[], trivial, rfl, by simp⟩
  | cons event events ih =>
    unfold serving
    split
    · rename_i hmore
      split
      · exact ⟨[], trivial, rfl, by simp⟩
      · rename_i a hreceived
        obtain ⟨rfl, hbudget⟩ := receive_eq_ok hreceived
        obtain ⟨as, hallowed, heq, hmem⟩ := ih (s.round C o a).1
        refine ⟨a :: as, ⟨⟨hmore, hbudget⟩, hallowed⟩, heq, ?_⟩
        exact List.forall_mem_cons.mpr ⟨List.mem_cons_self,
          fun b hb => List.mem_cons_of_mem _ (hmem b hb)⟩
    · exact ⟨[], trivial, rfl, by simp⟩

theorem serving_reach (h : Reach C o s) (events : List SocketEvent) :
    Reach C o (s.serving C o events) := by
  obtain ⟨as, hallowed, heq, -⟩ := serving_exec C o s events
  rw [heq]
  exact h.exec as hallowed

theorem response_successes (ht : s.server.Tables) :
    (s.response C o a binding).1.successes ≤ s.successes + 1 := by
  have hr := s.response_responds (C := C) (o := o) (a := a) ht binding
  generalize s.response C o a binding = r at hr ⊢
  obtain ⟨s', verdict⟩ := r
  cases hr with
  | closed => exact le_rfl
  | idle | opened | authenticated | refused | attended | echoed => exact Nat.le_succ _

/-- A round counts one session at most. -/
theorem round_successes (h : Bound C s) (o : Options) (a : Datagram) :
    (s.round C o a).1.successes ≤ s.successes + 1 := by
  have ht := ServerMachine.tables_reach (h.rotated a).server
  have hsame : (s.rotated a).successes = s.successes := by
    unfold Serving.rotated
    split <;> rfl
  rcases round_cases C o s a with heq | ⟨b, -, ⟨-, heq⟩ | ⟨packet, -, heq⟩⟩ <;> rw [heq]
  · exact Nat.le_succ _
  · exact hsame ▸ response_successes ht
  · exact hsame ▸ response_successes ht

/-- The loop never serves more sessions than it is to serve. -/
theorem successes_le (h : Reach C o s) : s.successes ≤ o.maxSessions := by
  induction h with
  | start h =>
    obtain ⟨material, selector, key, hstart⟩ := h
    simp only [start, Outcome.ite_error_eq_ok, Outcome.bind_eq_ok, Except.ok.injEq] at hstart
    obtain ⟨-, config, -, server, -, rfl⟩ := hstart
    exact Nat.zero_le _
  | @next s a h ha _ => exact (round_successes (bound_reach h) o a).trans ha.1

/-- Datagrams within the budget do not end the loop before its last session. -/
theorem serve_within (h : Reach C o s) (events : List SocketEvent)
    (hfits : ∀ event ∈ events, ∃ a, event = .arrives a ∧ a.packet.val.length ≤ o.budget) :
    (s.serve C o events).2 = none ∨
      (s.serving C o events).successes = o.maxSessions ∧
        (s.serve C o events).2 = some (.ok ()) := by
  have hdone (s : Serving) (h : Reach C o s) (hno : ¬ s.successes < o.maxSessions) :
      s.successes = o.maxSessions := le_antisymm (successes_le h) (not_lt.mp hno)
  induction events generalizing s with
  | nil =>
    by_cases hmore : s.successes < o.maxSessions
    · exact .inl (by simp [serve, hmore])
    · refine .inr ⟨hdone s h hmore, ?_⟩
      simp [serve, finish, hdone s h hmore]
  | cons event events ih =>
    obtain ⟨⟨a, rfl, hbudget⟩, hlater⟩ := List.forall_mem_cons.mp hfits
    have hgot : receive o.budget (.arrives a) = .ok a := if_pos hbudget
    by_cases hmore : s.successes < o.maxSessions
    · replace hlater := ih (h.next (a := a) ⟨hmore, hbudget⟩) hlater
      simpa only [serve, serving, if_pos hmore, hgot] using hlater
    · refine .inr ⟨?_, ?_⟩
      · rw [serving, if_neg hmore]
        exact hdone s h hmore
      · simp [serve, finish, hdone s h hmore]

/-- One datagram over the budget ends a loop that is still going. -/
theorem serve_over (events : List SocketEvent) (hgoing : (s.serve C o events).2 = none)
    (hover : o.budget < a.packet.val.length) (rest : List SocketEvent) :
    s.serve C o (events ++ .arrives a :: rest) =
      ((s.serve C o events).1, some (.error (.session .budget))) := by
  have hgot : receive o.budget (.arrives a) = .error (.session .budget) := if_neg (not_le.mpr hover)
  induction events generalizing s with
  | nil =>
    by_cases hmore : s.successes < o.maxSessions
    · simp [serve, hmore, hgot]
    · simp [serve, hmore] at hgoing
  | cons event events ih =>
    by_cases hmore : s.successes < o.maxSessions
    · rw [List.cons_append]
      simp only [serve, if_pos hmore] at hgoing ⊢
      split at hgoing
      · cases hgoing
      · cases hgoing
      · rename_i b hreceived
        simp only [ih hgoing]
    · simp [serve, hmore] at hgoing

/-- In every state of the loop each session is with the endpoint whose cookie opened it, and nothing
but answers to OPEN goes anywhere else. Whatever comes from other endpoints, an established session
is there until it has been idle for two minutes, for as long as there is a loop. That ends by itself
on a datagram that is too long, but on no other before the last session. -/
theorem serve_isolates (h : Reach C o s) :
    (∀ x ∈ s.server.bindings, ∃ endpoint binding, s.peerBindings x.1 = some (endpoint, binding) ∧
      x.2 = .udp binding ∧ endpoint.endpointBinding s.selector = .ok binding) ∧
    (∀ events, ∀ x ∈ (s.serve C o events).1, ∃ s' a, Reach C o s' ∧
      SocketEvent.arrives a ∈ events ∧ a.endpoint = x.1 ∧ (s'.round C o a).2 = some x.2 ∧
        s'.Warranted C a) ∧
    (∀ e ∈ s.server.established, ∀ events,
      (∀ a, SocketEvent.arrives a ∈ events →
        s.Foreign e.binding a ∧ (satSub a.nowMs e.lastActiveMs).val < 120000) →
      e ∈ (s.serving C o events).server.established ∧
        (s.serving C o events).peerBindings e.scid = s.peerBindings e.scid) ∧
    (∀ events, (∀ event ∈ events, ∃ a, event = .arrives a ∧ a.packet.val.length ≤ o.budget) →
      (s.serve C o events).2 = none ∨ (s.serving C o events).successes = o.maxSessions ∧
        (s.serve C o events).2 = some (.ok ())) ∧
    ∀ events a rest, (s.serve C o events).2 = none → o.budget < a.packet.val.length →
      s.serve C o (events ++ .arrives a :: rest) =
        ((s.serve C o events).1, some (.error (.session .budget))) := by
  have hbound := bound_reach h
  refine ⟨fun x hx => ?_, fun events x hx => ?_, fun e he events hevents => ?_, serve_within h,
    fun events a rest hgoing hover => serve_over events hgoing hover rest⟩
  · obtain ⟨endpoint, binding, hpeer, hx2⟩ := hbound.held x hx
    exact ⟨endpoint, binding, hpeer, hx2, hbound.peers _ _ _ hpeer⟩
  · obtain ⟨s', a, hreach, hevent, hendpoint, hpacket⟩ := serve_sends h events x hx
    exact ⟨s', a, hreach, hevent, hendpoint, hpacket, (bound_reach hreach).answers hpacket⟩
  · obtain ⟨as, -, heq, hmem⟩ := serving_exec C o s events
    rw [heq]
    exact hbound.undisturbed he as fun a ha => hevents a (hmem a ha)

namespace Loopback

def loopback (port : U16) : SocketAddr := .v4 ⟨[127, 0, 0, 1], rfl⟩ port

def clientOptions : Options where
  localSeed := bytesOf 32 1
  peerKey := bytesOf 32 2
  service := 1
  serverContext := 7
  source := bytesOf 16 20
  destination := bytesOf 16 21
  bind := loopback 4000
  peer := some (loopback 443)
  budget := 1252
  maxSessions := 1
  message := some [1, 2, 3]
  scid := some 9
  isolated := false

def serverOptions : Options where
  localSeed := bytesOf 32 2
  peerKey := bytesOf 32 1
  service := 1
  serverContext := 7
  source := bytesOf 16 21
  destination := bytesOf 16 20
  bind := loopback 443
  peer := none
  budget := 1252
  maxSessions := 2
  message := none
  scid := none
  isolated := false

/-- An empty packet stands for one that is too long. -/
def cut (packet : List Byte) : Slice :=
  if h : packet.length < 2 ^ 64 then ⟨packet, h⟩ else ⟨[], Nat.two_pow_pos 64⟩

theorem cut_val {packet : List Byte} (h : packet.length < 2 ^ 64) : (cut packet).val = packet :=
  congrArg Subtype.val (dif_pos h)

def datagram (packet : List Byte) (port : U16) (nowMs : U64) : Datagram where
  packet := cut packet
  endpoint := loopback port
  nowMs := nowMs
  cookieKey := bytesOf 32 9
  material := ⟨bytesOf 32 42, bytesOf 32 43⟩
  owner := 2

def fresh : Serving where
  server := ⟨⟨⟨2, 1, eid .sample (bytesOf 32 2), bytesOf 32 2⟩,
    ⟨1, 1, eid .sample (bytesOf 32 1), bytesOf 32 1⟩, 0, bytesOf 16 20, bytesOf 16 21, 1252, 256,
    1024, 7⟩, bytesOf 32 2, ⟨bytesOf 16 5, bytesOf 32 6, bytesOf 32 7, 0⟩, [], [], bytesOf 16 21,
    bytesOf 16 20⟩
  selector := bytesOf 16 3
  sourceHashKey := bytesOf 32 4
  peerBindings _ := none
  limiter := .new
  successes := 0
  lastCookieRotationMs := 0

theorem fresh_starts : Starts .sample serverOptions fresh :=
  ⟨⟨bytesOf 16 5, bytesOf 32 6, bytesOf 32 7, 0⟩, bytesOf 16 3, bytesOf 32 4, by rfl⟩

def client : ClientMachine :=
  ⟨⟨⟨1, 1, eid .sample (bytesOf 32 1), bytesOf 32 1⟩,
    ⟨2, 1, eid .sample (bytesOf 32 2), bytesOf 32 2⟩, 0, bytesOf 16 20, bytesOf 16 21, 1252, 256,
    1024, 7⟩, bytesOf 32 1, .idle, bytesOf 16 20, bytesOf 16 21⟩

def hear (s : Serving) (a : Datagram) : Serving := (s.round .sample serverOptions a).1

def answer (s : Serving) (a : Datagram) : List Byte :=
  (s.round .sample serverOptions a).2.getD []

/-- A client at port 4000 and its server, from OPEN to the confirmation: what the server hears, and
the client at the end. -/
def handshake : List Datagram × ClientMachine :=
  let (client, opening) := client.start .sample 9 ⟨bytesOf 32 40, bytesOf 32 41⟩ 0
  let first := datagram (opening.toOption.getD []) 4000 1000
  let (client, auth) := client.receiveVerify .sample (answer fresh first) 100
  let second := datagram (auth.toOption.getD []) 4000 1100
  let (client, _, accept) := client.receiveAck .sample (answer (hear fresh first) second) 200 1
  let third := datagram (accept.toOption.getD []) 4000 1200
  ([first, second, third], client)

def joined : Serving := Machine.exec hear fresh handshake.1

/-- The CLOSE of the client, as somebody else sends it. -/
def forwarded : Datagram :=
  datagram ((handshake.2.close .sample 0).2.2.toOption.getD []) 5000 2000

def oversized : Datagram := datagram (zeros 1253) 5000 2001

end Loopback

open Loopback in
/-- Even the client's own CLOSE does not end a session from another port, nor does what is too long,
which ends the loop. -/
theorem serve_isolates_forwarded_close :
    ∃ e ∈ joined.server.established, e.scid = 9 ∧
      e ∈ (joined.serving .sample serverOptions
        [.arrives forwarded, .arrives oversized]).server.established ∧
      (joined.serve .sample serverOptions [.arrives forwarded, .arrives oversized]).2 =
        some (.error (.session .budget)) := by
  have hreach : Reach .sample serverOptions joined :=
    Machine.Reach.exec (.start fresh_starts) _ (by decide +kernel)
  have heid : (joined.server.established.map fun e => (e.scid, e.lastActiveMs, some e.binding)) =
      [(9, 1200, ((loopback 4000).endpointBinding (bytesOf 16 3)).toOption.map .udp)] := by
    decide +kernel
  have hkey : joined.selector = bytesOf 16 3 := by decide +kernel
  have hports : ((loopback 5000).endpointBinding (bytesOf 16 3)).toOption.map ObservedBinding.udp ≠
      ((loopback 4000).endpointBinding (bytesOf 16 3)).toOption.map .udp := by
    decide +kernel
  have hgoing : (joined.serve .sample serverOptions [.arrives forwarded]).2 = none := by
    rw [← Option.isNone_iff_eq_none]
    decide +kernel
  have hover : serverOptions.budget < oversized.packet.val.length := by
    have hlen : (zeros 1253).val.length = 1253 := (zeros 1253).property
    have hfit : (zeros 1253).val.length < 2 ^ 64 := hlen.trans_lt (by norm_num)
    have hcut : (cut (zeros 1253).val).val = (zeros 1253).val := cut_val hfit
    change 1252 < (cut (zeros 1253).val).val.length
    rw [hcut, hlen]
    norm_num
  have hfrom : ∀ a ∈ [forwarded, oversized], a.endpoint = loopback 5000 ∧
      (satSub a.nowMs 1200).val < 120000 := by
    intro a ha
    simp only [List.mem_cons, List.not_mem_nil, or_false] at ha
    rcases ha with rfl | rfl
    · exact ⟨rfl, (by decide : (satSub 2000 1200).val < 120000)⟩
    · exact ⟨rfl, (by decide : (satSub 2001 1200).val < 120000)⟩
  -- Nothing below is to be evaluated.
  generalize joined = s at hreach heid hkey hgoing ⊢
  generalize forwarded = a at hfrom hgoing ⊢
  generalize oversized = a' at hfrom hover ⊢
  obtain ⟨e, he, hx⟩ := List.mem_map.mp (heid ▸ List.mem_singleton.mpr rfl)
  obtain ⟨hscid, hactive, hbinding⟩ : e.scid = 9 ∧ e.lastActiveMs = 1200 ∧ some e.binding =
      ((loopback 4000).endpointBinding (bytesOf 16 3)).toOption.map .udp := by
    simpa only [Prod.mk.injEq] using hx
  obtain ⟨-, -, hkept, -, hends⟩ := serve_isolates hreach
  refine ⟨e, he, hscid, (hkept e he _ ?_).1, congrArg Prod.snd (hends [.arrives a] a' [] hgoing hover)⟩
  intro b hb
  have hmem : b ∈ [a, a'] := by simpa using hb
  obtain ⟨hendpoint, hlive⟩ := hfrom b hmem
  refine ⟨fun binding hbound heq => hports ?_, ?_⟩
  · rw [hkey, hendpoint] at hbound
    rw [← hbinding, heq, hbound]
    rfl
  · rw [hactive]
    exact hlive

end Serving

end R8.Session
