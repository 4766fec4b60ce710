import R8Protocol.Session.Meeting
import R8Protocol.Session.Close
import R8Protocol.Session.Serve

/-! What the loop of `r8session serve` makes of each packet of an honest client. -/
namespace R8.Session

open FixedWidth Wire

theorem carries_head {call : SealCall} {header : Header} {typ : Byte} {packet : List Byte}
    (hc : Carries C call header typ packet) : (packet.drop 48).head? = some typ := by
  have hdecode := hc.decode packet.length le_rfl
  have hlen := hc.length
  simp only [SessionMessage.decode, Outcome.ite_error_eq_ok, Outcome.bind_eq_ok, Except.ok.injEq,
    SessionMessage.mk.injEq] at hdecode
  obtain ⟨-, -, -, -, -, -, -, -, rfl, -⟩ := hdecode
  rw [byteAt, List.getD_eq_getElem?_getD, ← List.head?_eq_getElem?]
  cases hhead : (packet.drop 48).head? with
  | none =>
    have hempty := congrArg List.length (List.head?_eq_none_iff.mp hhead)
    rw [List.length_drop, List.length_nil] at hempty
    omega
  | some byte => rfl

section

variable {C : Crypto} {c sc : HandshakeConfig} {scid nowMs : U64} {client : ClientMachine}
  {m : ServerMachine} {e : ClientSession} {e' : EstablishedSession}
  {plaintext packet : List Byte}

/-- A server that still has the session. -/
theorem Linked.at {w : Duplex.World ClientMachine ServerMachine (List Byte) (List Byte)}
    (hl : Linked C c sc scid w e e') (hconfig : m.config = w.right.config)
    (hlocs : m.effectiveLocalLoc = w.right.effectiveLocalLoc ∧
      m.effectivePeerLoc = w.right.effectivePeerLoc) (ht : m.Tables) (he : e' ∈ m.established) :
    Linked C c sc scid { w with right := m } e e' :=
  { hl with
    serverConfig := hconfig.trans hl.serverConfig
    serverLocs := ⟨hlocs.1.trans hl.serverLocs.1, hlocs.2.trans hl.serverLocs.2⟩
    tables := ht
    entry := he }

/-- The server takes the packet that is on its way. -/
theorem Linked.serverTakes (hC : C.Correct) (h : Mirrored C c sc) (hb : sc.budget = c.budget)
    (hl : Linked C c sc scid ⟨client, m, [(packet, plaintext)], []⟩ e e')
    (hlive : (satSub nowMs e'.lastActiveMs).val < 120000) :
    ∃ m₁ e₁ call,
      Plain C c.budget (sesHeader c.profile 1 scid c.source c.destination) SESSION_DATA call packet
        plaintext ∧
      m.receiveData C packet nowMs = (m₁, .ok plaintext) ∧
      Linked C c sc scid ⟨client, m₁, [], []⟩ e e₁ ∧
      e₁.binding = e'.binding ∧ e₁.lastActiveMs = nowMs ∧
      e₁.session.sendCounters = e'.session.sendCounters := by
  obtain ⟨call, p, w', hplain, hpreview, -, hcommit, hrest⟩ := hl.toRight.open hC (by decide)
    (hb.ge.trans hl.budgets.2.ge)
  have hcarried := hplain
  rw [← h.source, ← h.destination, ← hb, ← h.profile, ← hl.serverLocs.1, ← hl.serverLocs.2,
    ← hl.serverConfig, ← hl.scids.2] at hplain
  obtain ⟨i, hi, hreceive⟩ := ServerMachine.receiveData_ok hl.tables
    (ServerMachine.mem_expire hl.entry hlive) hplain hpreview hcommit
  exact ⟨_, _, call, hcarried, hreceive, hl.serverReceives hi hrest, rfl, rfl, rfl⟩

theorem Linked.serverReplies (h : Mirrored C c sc) (hb : sc.budget = c.budget)
    (hl : Linked C c sc scid ⟨client, m, [], []⟩ e e') (hlen : plaintext.length + 76 ≤ sc.budget)
    (hcount : e'.session.sendCounters.next.val + 1 < 2 ^ 64) :
    ∃ m₁ e₁ calls echo, m.sendData C scid plaintext = (m₁, calls, .ok echo) ∧
      Linked C c sc scid ⟨client, m₁, [], [(echo, plaintext)]⟩ e e₁ ∧
      e₁.binding = e'.binding ∧ e₁.lastActiveMs = e'.lastActiveMs := by
  obtain ⟨hprofile, hmax⟩ := h.serverBounds
  rw [← hl.serverConfig] at hprofile hmax hlen
  obtain ⟨j, a', calls, call', echo, hj, hget, hsend, hseals, hplain⟩ :=
    ServerMachine.sendData_ok (C := C) hl.tables hl.entry hprofile hmax hlen
      (hl.toLeft.canReserve hcount)
  rw [hl.serverConfig, hl.serverLocs.1, hl.serverLocs.2, hl.scids.2, hb, h.profile, h.source,
    h.destination] at hplain
  rw [hl.scids.2] at hsend
  exact ⟨_, _, calls, echo, hsend, hl.serverSends hj hget hseals hplain, rfl, rfl⟩

/-- The client takes what has come back, and has nothing more on its way. -/
theorem Linked.clientTakes (hC : C.Correct)
    (hl : Linked C c sc scid ⟨client, m, [], [(packet, plaintext)]⟩ e e') :
    packet.length ≤ c.budget ∧ ∃ client' e₁,
      client.receiveData C packet = (client', .ok plaintext) ∧
      Linked C c sc scid ⟨client', m, [], []⟩ e₁ e' ∧
      e₁.session.sendCounters = e.session.sendCounters := by
  obtain ⟨call, p, w', hplain, hpreview, -, hcommit, hrest⟩ := hl.toLeft.open hC (by decide)
    hl.budgets.1.ge
  have hfit := hplain.2.2
  rw [← hl.clientLocs.1, ← hl.clientLocs.2, ← hl.scids.1, ← hl.clientConfig] at hplain
  have hreceive := ClientMachine.receiveData_ok hl.clientState hplain hpreview hcommit
  exact ⟨hfit, _, _, hreceive, hl.clientReceives hrest, rfl⟩

theorem Linked.clientSays (h : Mirrored C c sc) (hscid : scid ≠ 0)
    (hl : Linked C c sc scid ⟨client, m, [], []⟩ e e') (hlen : plaintext.length + 76 ≤ c.budget)
    (hcount : e.session.sendCounters.next.val + 1 < 2 ^ 64) :
    ∃ client' e₁ calls data, client.sendData C plaintext = (client', calls, .ok data) ∧
      data.length ≤ c.budget ∧
      Linked C c sc scid ⟨client', m, [(data, plaintext)], []⟩ e₁ e' ∧
      e₁.session.sendCounters.next.val = e.session.sendCounters.next.val + 1 := by
  obtain ⟨hprofile, hbudget⟩ := h.bounds
  rw [← hl.clientConfig] at hprofile hbudget hlen
  obtain ⟨a', calls, call, data, hsend, hseals, hplain⟩ := ClientMachine.sendData_ok (C := C)
    hl.clientState hprofile (by rw [hl.scids.1]; exact hscid) hbudget hlen
    (hl.toRight.canReserve hcount)
  rw [hl.clientConfig, hl.clientLocs.1, hl.clientLocs.2, hl.scids.1] at hplain
  exact ⟨_, _, calls, data, hsend, hplain.2.2, hl.clientSends hseals hplain, hseals.next_val⟩

theorem encryptGuard_close {budget : ℕ} (code : U16) (h : 78 ≤ budget) :
    DirectionalSession.encryptGuard CLOSE (u16Bytes code) budget = .ok () := by
  have hroom : ¬ budget < 12 + 2 + 16 + 48 := by omega
  simp [DirectionalSession.encryptGuard, hroom, SESSION_ACCEPT, SESSION_DATA, CLOSE]

/-- A client with nothing on its way can always close. -/
theorem Linked.clientCloses (h : Mirrored C c sc) (hscid : scid ≠ 0)
    (hl : Linked C c sc scid ⟨client, m, [], []⟩ e e')
    (hcount : e.session.sendCounters.next.val + 1 < 2 ^ 64) (code : U16) :
    ∃ client' calls close d, client.close C code = (client', calls, .ok close) ∧
      close.length ≤ c.budget ∧
      Channel (Plain C c.budget (sesHeader c.profile 1 scid c.source c.destination) CLOSE) d
        e'.session [(close, u16Bytes code)] := by
  obtain ⟨hprofile, hmax⟩ := h.bounds
  obtain ⟨hroom, -⟩ := h.room
  obtain ⟨d, calls, call, close, hencrypt, hseals, hplain⟩ := encrypt_plain (C := C) hprofile hscid
    hmax (encryptGuard_close code (by omega)) (hl.toRight.canReserve hcount) c.source c.destination
  refine ⟨{ client with state := .released }, calls, close, d, ?_, hplain.2.2,
    hl.toRight.empty.send hseals hplain⟩
  have hclose : client.encrypt C e CLOSE (u16Bytes code) client.effectiveLocalLoc
      client.effectivePeerLoc = (d, calls, .ok close) := by
    have hconfig : client.config = c := hl.clientConfig
    have hlocs : client.effectiveLocalLoc = c.source ∧ client.effectivePeerLoc = c.destination :=
      hl.clientLocs
    rw [ClientMachine.encrypt, hconfig, hlocs.1, hlocs.2, hl.scids.1, hencrypt]
  have hstate : client.state = .established e := hl.clientState
  simp only [ClientMachine.close, hstate, hclose]

/-- The server takes a CLOSE that its session opens. -/
theorem Linked.serverCloses (hC : C.Correct) (h : Mirrored C c sc) (hb : sc.budget = c.budget)
    (hl : Linked C c sc scid ⟨client, m, [], []⟩ e e')
    (hlive : (satSub nowMs e'.lastActiveMs).val < 120000) {d : DirectionalSession} {code : U16}
    (hchannel : Channel (Plain C c.budget (sesHeader c.profile 1 scid c.source c.destination) CLOSE)
      d e'.session [(packet, u16Bytes code)]) :
    ∃ call, Plain C c.budget (sesHeader c.profile 1 scid c.source c.destination) CLOSE call packet
        (u16Bytes code) ∧
      (m.receiveClose C packet nowMs).2 = .ok code := by
  obtain ⟨call, p, w', ⟨hc, hcall, hfit⟩, hpreview, -, hcommit, -⟩ := hchannel.open hC (by decide)
    (hb.ge.trans hl.budgets.2.ge)
  refine ⟨call, ⟨hc, hcall, hfit⟩, ?_⟩
  have hconfig : m.config = sc := hl.serverConfig
  have hlocs : m.effectiveLocalLoc = sc.destination ∧ m.effectivePeerLoc = sc.source :=
    hl.serverLocs
  have hentry : e' ∈ (m.expire nowMs).established := ServerMachine.mem_expire hl.entry hlive
  obtain ⟨i, hi, hget⟩ := (ServerMachine.tables_expire hl.tables nowMs).position hentry
  have hscid : e'.scid = scid := hl.scids.2
  rw [hscid] at hi
  have hvalid : validateProtectedHeader (sesHeader c.profile 1 scid c.source c.destination)
      c.profile scid c.source c.destination = .ok () := by
    simp [validateProtectedHeader, validateSessionHeader, sesHeader]
  have hdecode : SessionMessage.decode (packet.drop 48) c.profile c.budget =
      .ok ⟨CLOSE, c.profile, packet.drop 52⟩ := hc.decode _ hfit
  have hdecrypt : e'.session.decrypt C packet =
      ({ e'.session with replay := w' }, .ok (u16Bytes code)) := by
    simp only [DirectionalSession.decrypt, hpreview, hcommit]
  have hcode : closeCode (u16Bytes code) = .ok code := by
    simpa [closeCode] using u16Of_u16Bytes code []
  have hexpire : (m.expire nowMs).config = sc ∧ (m.expire nowMs).effectivePeerLoc = c.source ∧
      (m.expire nowMs).effectiveLocalLoc = c.destination :=
    ⟨hconfig, hlocs.2.trans h.source, hlocs.1.trans h.destination⟩
  unfold ServerMachine.receiveClose
  simp only [hexpire, hb, h.profile, hc.unpack _ hfit, Except.mapError, bind, Except.bind,
    ServerMachine.sesHeader_scid, ServerMachine.sesHeader_profile, hvalid, hi, hdecode, hget,
    hdecrypt, hcode, ne_eq, not_true_eq_false, if_false]

end

namespace Serving

variable {C : Crypto} {o : Options} {s s' : Serving} {a : Datagram} {binding : UdpBinding}
  {header : Header} {payload : List Byte} {response : Option (List Byte)}

theorem round_eq (hallowed : a.endpoint.allowedUnderlay o.isolated = true)
    (hb : a.endpoint.endpointBinding s.selector = .ok binding)
    (hr : (s.rotated a).response C o a binding = (s', some response)) :
    s.round C o a = (s'.settle a.nowMs, response) := by
  simp [Serving.round, hallowed, hb, hr]

section

variable (hu : Header.unpackWithBudget a.packet.val o.budget = .ok (header, payload))
include hu

theorem response_open (ht : payload.head? = some OPEN)
    (hlimiter : (s.limiter.admitSource (ServerMachine.openAdmit a.packet
      (a.endpoint.opaqueSource C s.sourceHashKey) a.nowMs)).2 = .ok ()) {verify : List Byte}
    (hr : s.server.receiveOpen C a.packet.val (.udp binding) (bucketOf a.nowMs) = .ok verify) :
    ∃ limiter, s.response C o a binding = ({ s with limiter }, some (some verify)) := by
  simp only [Serving.response, hu, ht, if_true, ServerMachine.receiveOpenLimited, hlimiter, hr]
  exact ⟨_, rfl⟩

theorem response_openAuth (ht : payload.head? = some OPEN_AUTH) {server : ServerMachine}
    {ack : List Byte} (hr : s.server.receiveOpenAuth C a.packet.val (.udp binding) a.nowMs
      (bucketOf a.nowMs) (some a.material) a.owner = (server, .ok ack)) :
    s.response C o a binding = ({ s with
      server
      peerBindings := Function.update s.peerBindings header.scid (some (a.endpoint, binding)) },
      some (some ack)) := by
  simp [Serving.response, hu, ht, hr, OPEN, OPEN_AUTH]

variable (hmatch : s.peerMatches header.scid a.endpoint binding = true)
include hmatch

theorem response_accept (ht : payload.head? = some SESSION_ACCEPT) {server : ServerMachine}
    (hr : s.server.receiveAccept C a.packet.val a.nowMs = (server, .ok ())) :
    s.response C o a binding = ({ s with server }, some none) := by
  simp [Serving.response, hu, ht, hmatch, hr, OPEN, OPEN_AUTH, SESSION_ACCEPT]

theorem response_data (ht : payload.head? = some SESSION_DATA) {server server' : ServerMachine}
    {plaintext echo : List Byte} {calls : List SealCall}
    (hr : s.server.receiveData C a.packet.val a.nowMs = (server, .ok plaintext))
    (hs : server.sendData C header.scid plaintext = (server', calls, .ok echo)) :
    s.response C o a binding = ({ s with server := server' }, some (some echo)) := by
  simp [Serving.response, hu, ht, hmatch, hr, hs, Except.toOption, OPEN, OPEN_AUTH,
    SESSION_ACCEPT, SESSION_DATA]

theorem response_close (ht : payload.head? = some CLOSE) {server : ServerMachine} {code : U16}
    (hr : s.server.receiveClose C a.packet.val a.nowMs = (server, .ok code)) :
    s.response C o a binding = ({ s with
      server
      peerBindings := Function.update s.peerBindings header.scid none
      successes := s.successes + 1 }, some none) := by
  simp [Serving.response, hu, ht, hmatch, hr, OPEN, OPEN_AUTH, SESSION_ACCEPT, SESSION_DATA, CLOSE]

end

theorem settle_peer (scid nowMs : U64) (h : scid ∈ (s.settle nowMs).server.scids) :
    (s.settle nowMs).peerBindings scid = s.peerBindings scid :=
  if_pos (ServerMachine.isLive_iff.mpr h)

/-- What no datagram changes. -/
structure Fixed (s s' : Serving) : Prop where
  selector : s'.selector = s.selector
  config : s'.server.config = s.server.config
  signingKey : s'.server.signingKey = s.server.signingKey
  locs : s'.server.effectiveLocalLoc = s.server.effectiveLocalLoc ∧
    s'.server.effectivePeerLoc = s.server.effectivePeerLoc
  boot : s'.server.material.bootInstance = s.server.material.bootInstance

theorem Fixed.refl (s : Serving) : Fixed s s := ⟨rfl, rfl, rfl, ⟨rfl, rfl⟩, rfl⟩

theorem Fixed.trans {s'' : Serving} (h : Fixed s s') (h' : Fixed s' s'') : Fixed s s'' where
  selector := h'.selector.trans h.selector
  config := h'.config.trans h.config
  signingKey := h'.signingKey.trans h.signingKey
  locs := ⟨h'.locs.1.trans h.locs.1, h'.locs.2.trans h.locs.2⟩
  boot := h'.boot.trans h.boot

/-- What a response and the end of the body leave alone. -/
structure Tabled (s s' : Serving) : Prop where
  selector : s'.selector = s.selector
  server : s.server.TablesOnly s'.server
  rotation : s'.lastCookieRotationMs = s.lastCookieRotationMs
  successes : s.successes ≤ s'.successes

theorem Tabled.fixed (h : Tabled s s') : Fixed s s' := by
  have hserver := h.server
  unfold ServerMachine.TablesOnly at hserver
  exact ⟨h.selector, by rw [hserver], by rw [hserver], ⟨by rw [hserver], by rw [hserver]⟩,
    by rw [hserver]⟩

theorem Tabled.material (h : Tabled s s') : s'.server.material = s.server.material := by
  have hserver := h.server
  unfold ServerMachine.TablesOnly at hserver
  rw [hserver]

theorem Responds.tabled {verdict : Option (Option (List Byte))}
    (h : Responds C s a binding s' verdict) : Tabled s s' := by
  cases h with
  | idle | opened => exact ⟨rfl, rfl, rfl, le_rfl⟩
  | authenticated ack server heq | refused server e heq =>
    have hserver := s.server.receiveOpenAuth_tablesOnly (C := C) a.packet.val (.udp binding) a.nowMs
      (bucketOf a.nowMs) (some a.material) a.owner
    rw [heq] at hserver
    exact ⟨rfl, hserver, rfl, le_rfl⟩
  | attended server verdict hmatch ha | echoed server echo hmatch ha =>
    exact ⟨rfl, ha.tablesOnly, rfl, le_rfl⟩
  | closed server hmatch ha => exact ⟨rfl, ha.tablesOnly, rfl, Nat.le_succ _⟩

theorem rotated_fixed (s : Serving) (a : Datagram) :
    Fixed s (s.rotated a) ∧ (s.rotated a).successes = s.successes := by
  unfold Serving.rotated
  split
  · exact ⟨⟨rfl, rfl, rfl, ⟨rfl, rfl⟩, rfl⟩, rfl⟩
  · exact ⟨.refl s, rfl⟩

theorem rotated_server (s : Serving) (a : Datagram) :
    ∃ material, (s.rotated a).server = { s.server with material } ∧
      material.bootInstance = s.server.material.bootInstance := by
  unfold Serving.rotated
  split
  · exact ⟨_, rfl, rfl⟩
  · exact ⟨_, rfl, rfl⟩

theorem rotated_same (s : Serving) (a : Datagram) :
    (s.rotated a).server.pending = s.server.pending ∧
      (s.rotated a).server.established = s.server.established ∧
      (s.rotated a).peerBindings = s.peerBindings := by
  unfold Serving.rotated
  split <;> exact ⟨rfl, rfl, rfl⟩

/-- A round rotates the cookie key or not, and then changes tables only. -/
theorem round_tabled (h : Bound C s) (o : Options) (a : Datagram) :
    (s.round C o a).1 = s ∨ Tabled (s.rotated a) (s.round C o a).1 := by
  rcases round_cases C o s a with heq | ⟨binding, -, hcases⟩
  · rw [heq]
    exact .inl rfl
  · have hr := ((s.rotated a).response_responds (C := C) (o := o) (a := a)
      (ServerMachine.tables_reach (h.rotated a).server) binding).tabled
    rcases hcases with ⟨-, heq⟩ | ⟨packet, -, heq⟩ <;> rw [heq]
    · exact .inr hr
    · exact .inr ⟨hr.selector, hr.server.trans rfl, hr.rotation, hr.successes⟩

/-- A loop as the options have it, in any state. -/
structure Standing (C : Crypto) (o : Options) (s : Serving) : Prop where
  bound : Bound C s
  config : serverConfig C o = .ok s.server.config
  locs : s.server.effectiveLocalLoc = s.server.config.destination ∧
    s.server.effectivePeerLoc = s.server.config.source

theorem Standing.fixed (h : Standing C o s) (hs : Fixed s s') (hb : Bound C s') :
    Standing C o s' where
  bound := hb
  config := by rw [hs.config, h.config]
  locs := by
    rw [hs.config, hs.locs.1, hs.locs.2]
    exact h.locs

theorem round_fixed (h : Bound C s) (o : Options) (a : Datagram) :
    Fixed s (s.round C o a).1 ∧ s.successes ≤ (s.round C o a).1.successes := by
  obtain ⟨hfixed, hsame⟩ := s.rotated_fixed a
  rcases round_tabled h o a with heq | hr
  · rw [heq]
    exact ⟨.refl s, le_rfl⟩
  · exact ⟨hfixed.trans hr.fixed, hsame.ge.trans hr.successes⟩

theorem standing_reach (h : Reach C o s) : Standing C o s := by
  have hb := bound_reach h
  suffices hconstant : serverConfig C o = .ok s.server.config ∧
      s.server.effectiveLocalLoc = s.server.config.destination ∧
      s.server.effectivePeerLoc = s.server.config.source from ⟨hb, hconstant.1, hconstant.2⟩
  clear hb
  induction h with
  | start h =>
    obtain ⟨material, selector, key, hstart⟩ := h
    simp only [Serving.start, Outcome.ite_error_eq_ok, Outcome.bind_eq_ok,
      Except.ok.injEq] at hstart
    obtain ⟨-, config, hconfig, server, hnew, rfl⟩ := hstart
    obtain ⟨-, rfl⟩ := ServerMachine.new_eq_ok hnew
    exact ⟨hconfig, rfl, rfl⟩
  | @next s a h _ ih =>
    obtain ⟨hfixed, -⟩ := round_fixed (bound_reach h) o a
    rw [hfixed.config, hfixed.locs.1, hfixed.locs.2]
    exact ih

/-- The loop after these datagrams. -/
def after (C : Crypto) (o : Options) (s : Serving) (as : List Datagram) : Serving :=
  Machine.exec (fun s a => (s.round C o a).1) s as

theorem after_fixed (h : Bound C s) (o : Options) (as : List Datagram) :
    Bound C (s.after C o as) ∧ Fixed s (s.after C o as) ∧
      s.successes ≤ (s.after C o as).successes := by
  induction as generalizing s with
  | nil => exact ⟨h, .refl s, le_rfl⟩
  | cons a as ih =>
    obtain ⟨hfixed, hle⟩ := round_fixed h o a
    obtain ⟨hb, hfixed', hle'⟩ := ih (h.round o a)
    exact ⟨hb, hfixed.trans hfixed', hle.trans hle'⟩

theorem Standing.after (h : Standing C o s) (as : List Datagram) :
    Standing C o (s.after C o as) := by
  obtain ⟨hb, hfixed, -⟩ := after_fixed h.bound o as
  exact h.fixed hfixed hb

theorem Standing.round (h : Standing C o s) (a : Datagram) :
    Standing C o (s.round C o a).1 :=
  h.fixed (round_fixed h.bound o a).1 (h.bound.round o a)

theorem after_append (s : Serving) (as bs : List Datagram) :
    s.after C o (as ++ bs) = (s.after C o as).after C o bs :=
  List.foldl_append

/-- What the loop sends on these datagrams. -/
def hears (C : Crypto) (o : Options) (s : Serving) : List Datagram → List (SocketAddr × List Byte)
  | [] => []
  | a :: as =>
    ((s.round C o a).2.map fun packet => (a.endpoint, packet)).toList ++
      (s.round C o a).1.hears C o as

theorem hears_append (s : Serving) (as bs : List Datagram) :
    s.hears C o (as ++ bs) = s.hears C o as ++ (s.after C o as).hears C o bs := by
  induction as generalizing s with
  | nil => rfl
  | cons a as ih => rw [List.cons_append, hears, hears, ih, List.append_assoc]; rfl

theorem hears_endpoint {x : SocketAddr × List Byte} {as : List Datagram}
    (hx : x ∈ s.hears C o as) : ∃ a ∈ as, a.endpoint = x.1 := by
  induction as generalizing s with
  | nil => cases hx
  | cons a as ih =>
    rcases List.mem_append.mp hx with hx | hx
    · obtain ⟨packet, -, rfl⟩ := Option.map_eq_some_iff.mp (Option.mem_toList.mp hx)
      exact ⟨a, List.mem_cons_self, rfl⟩
    · obtain ⟨b, hb, hendpoint⟩ := ih hx
      exact ⟨b, List.mem_cons_of_mem _ hb, hendpoint⟩

/-- One datagram in the loop. -/
theorem serve_arrives (hgoing : s.successes < o.maxSessions)
    (hfit : a.packet.val.length ≤ o.budget) (events : List SocketEvent) :
    s.serve C o (.arrives a :: events) =
      (s.hears C o [a] ++ ((s.round C o a).1.serve C o events).1,
        ((s.round C o a).1.serve C o events).2) := by
  have hgot : receive o.budget (.arrives a) = .ok a := if_pos hfit
  simp [serve, hgoing, hgot, hears]

/-- The loop goes on for as long as sessions are left to be served. -/
theorem serve_append (hb : Bound C s) (as : List Datagram)
    (hfits : ∀ a ∈ as, a.packet.val.length ≤ o.budget)
    (hgoing : (s.after C o as).successes < o.maxSessions) (events : List SocketEvent) :
    s.serve C o (as.map .arrives ++ events) =
      (s.hears C o as ++ ((s.after C o as).serve C o events).1,
        ((s.after C o as).serve C o events).2) := by
  induction as generalizing s with
  | nil => rfl
  | cons a as ih =>
    obtain ⟨hfit, hfits⟩ := List.forall_mem_cons.mp hfits
    obtain ⟨-, -, hle⟩ := after_fixed hb o (a :: as)
    rw [List.map_cons, List.cons_append, serve_arrives (hle.trans_lt hgoing) hfit,
      ih (hb.round o a) hfits hgoing]
    simp only [hears, List.append_nil, List.append_assoc]
    rfl

/-- When all sessions have been served the loop is over. -/
theorem serve_done (hdone : s.successes = o.maxSessions) (events : List SocketEvent) :
    s.serve C o events = ([], some (.ok ())) := by
  cases events <;> simp [serve, finish, hdone]

/-- A pending session outlives what comes from elsewhere as an established one does. -/
theorem Bound.pending_undisturbed (h : Bound C s) {p : PendingSession}
    (hp : p ∈ s.server.pending) (as : List Datagram)
    (has : ∀ a ∈ as, s.Foreign p.binding a ∧ a.nowMs < p.deadlineMs) :
    p ∈ (s.after C o as).server.pending ∧
      (s.after C o as).peerBindings p.scid = s.peerBindings p.scid := by
  induction as generalizing s with
  | nil => exact ⟨hp, rfl⟩
  | cons a as ih =>
    obtain ⟨hforeign, hlive⟩ := has a List.mem_cons_self
    have hkept : p ∈ (s.round C o a).1.server.pending ∧
        (s.round C o a).1.peerBindings p.scid = s.peerBindings p.scid := by
      rcases round_cases C o s a with heq | ⟨b, hb, -⟩
      · rw [heq]
        exact ⟨hp, rfl⟩
      · refine (round_spares h o a fun b' hb' => ?_).pending p hp (hforeign b hb) hlive
        rw [hb] at hb'
        exact (Except.ok.inj hb').symm
    obtain ⟨hlater, hpeer⟩ := ih (h.round o a) hkept.1 fun a' ha' => by
      obtain ⟨hforeign', hlive'⟩ := has a' (List.mem_cons_of_mem _ ha')
      refine ⟨fun binding hb => hforeign' binding ?_, hlive'⟩
      rwa [round_selector h] at hb
    exact ⟨hlater, hpeer.trans hkept.2⟩

/-- A cookie made under this key at this time is good for now. -/
def Honours (key : Bytes 32) (madeMs : U64) (s : Serving) : Prop :=
  s.server.material.currentCookieKey = key ∨
    s.server.material.previousCookieKey = key ∧ madeMs ≤ s.lastCookieRotationMs ∧
      s.server.material.previousKeyRotatedMs = s.lastCookieRotationMs

variable {key : Bytes 32} {madeMs : U64}

/-- The rotations are too far apart for a second one. -/
theorem Honours.rotated (h : Honours key madeMs s)
    (ha : madeMs ≤ a.nowMs ∧ a.nowMs.val < madeMs.val + 600000) :
    Honours key madeMs (s.rotated a) := by
  unfold Serving.rotated
  split
  · rename_i hdue
    rcases h with hkey | ⟨-, hmade, -⟩
    · exact .inr ⟨hkey, ha.1, rfl⟩
    · rw [satSub_val] at hdue
      have hmade' : madeMs.val ≤ s.lastCookieRotationMs.val := hmade
      omega
  · exact h

theorem Honours.tabled (h : Honours key madeMs s) (hs : Tabled s s') : Honours key madeMs s' := by
  unfold Honours at h ⊢
  rwa [hs.material, hs.rotation]

theorem Honours.after (hb : Bound C s) (h : Honours key madeMs s) (as : List Datagram)
    (has : ∀ a ∈ as, madeMs ≤ a.nowMs ∧ a.nowMs.val < madeMs.val + 600000) :
    Honours key madeMs (s.after C o as) := by
  induction as generalizing s with
  | nil => exact h
  | cons a as ih =>
    obtain ⟨ha, has⟩ := List.forall_mem_cons.mp has
    have hround : Honours key madeMs (s.round C o a).1 := by
      rcases round_tabled hb o a with heq | hr
      · rwa [heq]
      · exact (h.rotated ha).tabled hr
    exact ih (hb.round o a) hround has

theorem serverConfig_eq_ok {config : HandshakeConfig} (h : serverConfig C o = .ok config) :
    config.budget = o.budget ∧ config.pendingLimit = 256 ∧ config.establishedLimit = 1024 ∧
      config.profile = 0 := by
  simp only [serverConfig, Outcome.bind_eq_ok, Except.ok.injEq] at h
  obtain ⟨localId, -, peer, -, rfl⟩ := h
  exact ⟨rfl, rfl, rfl, rfl⟩

section Rounds

variable {c : HandshakeConfig} {scid : U64} {material : ClientMaterial}

/-- An OPEN that the limiter admits is answered with a cookie. -/
theorem round_open (hs : Standing C o s) (hm : Mirrored C c s.server.config) (hscid : scid ≠ 0)
    (hallowed : a.endpoint.allowedUnderlay o.isolated = true)
    (hb : a.endpoint.endpointBinding s.selector = .ok binding)
    (hlimiter : (s.limiter.admitSource (ServerMachine.openAdmit a.packet
      (a.endpoint.opaqueSource C s.sourceHashKey) a.nowMs)).2 = .ok ())
    (hopen : handshakePacket c scid OPEN (openBody C c material) c.source c.destination =
      .ok a.packet.val) :
    ∃ key input verify,
      cookieInput C (mintedContext C c s.server.config scid material (.udp binding)
        s.server.material.bootInstance (bucketOf a.nowMs)) = .ok input ∧
      handshakePacket s.server.config scid VERIFY_COOKIE (verifyBody C s.server.config c.localId
        (C.x25519Public material.ephemeralSecret) s.server.material.bootInstance
        (cookie C key input)) s.server.config.destination s.server.config.source = .ok verify ∧
      (s.round C o a).2 = some verify ∧ Honours key a.nowMs (s.round C o a).1 := by
  obtain ⟨hfixed, -⟩ := s.rotated_fixed a
  obtain ⟨hbudget, -⟩ := serverConfig_eq_ok hs.config
  have hsame : (s.rotated a).limiter = s.limiter ∧
      (s.rotated a).sourceHashKey = s.sourceHashKey := by
    unfold Serving.rotated
    split <;> exact ⟨rfl, rfl⟩
  have hu := unpack_handshakePacket hopen o.budget (by
    have hroom := hm.room.2
    rw [openBody_length]
    omega)
  obtain ⟨input, verify, -, hinput, hverify, hr⟩ := receiveOpen_ok hm hfixed.config hscid
    (ObservedBinding.valid_udp binding) hopen (bucketOf a.nowMs)
  rw [hfixed.boot] at hinput hverify
  rw [← hsame.1, ← hsame.2] at hlimiter
  obtain ⟨limiter, hresponse⟩ := response_open hu rfl hlimiter hr
  have hround := round_eq hallowed hb hresponse
  refine ⟨_, input, verify, hinput, hverify, by rw [hround], ?_⟩
  rw [hround]
  exact .inl rfl

/-- After an OPEN_AUTH that is answered, the entry it left is with its sender. -/
theorem round_pending (hallowed : a.endpoint.allowedUnderlay o.isolated = true)
    (hb : a.endpoint.endpointBinding s.selector = .ok binding)
    (hu : Header.unpackWithBudget a.packet.val o.budget = .ok (header, payload))
    (ht : payload.head? = some OPEN_AUTH) {server : ServerMachine} {entry : PendingSession}
    {ack : List Byte}
    (hr : (s.rotated a).server.receiveOpenAuth C a.packet.val (.udp binding) a.nowMs
      (bucketOf a.nowMs) (some a.material) a.owner = (server, .ok ack))
    (hentry : entry ∈ server.pending) (hid : entry.scid = header.scid)
    (hlive : a.nowMs < entry.deadlineMs) :
    (s.round C o a).2 = some ack ∧ entry ∈ (s.round C o a).1.server.pending ∧
      (s.round C o a).1.peerBindings header.scid = some (a.endpoint, binding) := by
  have hround := round_eq hallowed hb (response_openAuth (o := o) hu ht hr)
  have hmem : entry ∈ (s.round C o a).1.server.pending := by
    rw [hround]
    exact List.mem_filter.mpr ⟨hentry, decide_eq_true hlive⟩
  refine ⟨by rw [hround], hmem, ?_⟩
  rw [hround] at hmem ⊢
  have hpeer := settle_peer header.scid a.nowMs
    (List.mem_append_left _ (List.mem_map.mpr ⟨entry, hmem, hid⟩))
  exact hpeer.trans (Function.update_self ..)

/-- The OPEN_AUTH that brings the cookie back in time leaves a pending session for its sender. -/
theorem round_openAuth (hC : C.Correct) (hs : Standing C o s) (hm : Mirrored C c s.server.config)
    (hscid : scid ≠ 0) (hallowed : a.endpoint.allowedUnderlay o.isolated = true)
    (hb : a.endpoint.endpointBinding s.selector = .ok binding) {clientKey : Bytes 32}
    (hkey : C.verifyingKey clientKey = c.localId.publicKey) {input : List Byte}
    (hshared : C.diffieHellman a.material.ephemeralSecret
      (C.x25519Public material.ephemeralSecret) ≠ zeros 32)
    (hinput : cookieInput C (mintedContext C c s.server.config scid material (.udp binding)
      s.server.material.bootInstance (bucketOf madeMs)) = .ok input)
    (hbucket : bucketOf madeMs ∈ buckets a.nowMs) (hmade : madeMs ≤ a.nowMs)
    (hhonours : Honours key madeMs s)
    (hauth : handshakePacket c scid OPEN_AUTH (authBody C c material
      s.server.material.bootInstance (cookie C key input) (signOpenAuth C clientKey
        (openAuthContext C c s.server.config scid material s.server.material.bootInstance).bytes))
      c.source c.destination = .ok a.packet.val)
    (hfree : scid ∉ (s.server.expire a.nowMs).scids)
    (hroom : (s.server.expire a.nowMs).pending.length < s.server.config.pendingLimit)
    (hdeadline : a.nowMs < satAdd a.nowMs 5000) :
    let handshake := honestHandshake C c s.server.config scid material a.material
      s.server.material.bootInstance clientKey s.server.signingKey
    ∃ ack,
      handshakePacket s.server.config scid OPEN_ACK (ackBody C s.server.config c.localId.role
        a.material handshake.serverSignature) s.server.config.destination s.server.config.source =
        .ok ack ∧
      (s.round C o a).2 = some ack ∧
      honestPending C c s.server.config scid handshake a.packet.val ack (.udp binding)
        (satAdd a.nowMs 5000) a.owner ∈ (s.round C o a).1.server.pending ∧
      (s.round C o a).1.peerBindings scid = some (a.endpoint, binding) := by
  intro handshake
  obtain ⟨hbudget, -⟩ := serverConfig_eq_ok hs.config
  obtain ⟨-, hroomBudget⟩ := hm.room
  have htime : a.nowMs.val < madeMs.val + 20000 := by
    rw [mem_buckets, bucketOf_val] at hbucket
    omega
  have hhonours' := hhonours.rotated (a := a) ⟨hmade, by omega⟩
  obtain ⟨serverMaterial, hserver, hboot⟩ := s.rotated_server a
  have hu := unpack_handshakePacket hauth o.budget (by rw [authBody_length]; omega)
  have hcookie : ServerMachine.checkCookie C { s.server with material := serverMaterial } scid
      (sentAuth C c material s.server.material.bootInstance (cookie C key input)
        (signOpenAuth C clientKey (openAuthContext C c s.server.config scid material
          s.server.material.bootInstance).bytes)) (.udp binding) a.nowMs (bucketOf a.nowMs) =
      .ok () := by
    have hrotated : serverMaterial.currentCookieKey = key ∨
        (satSub a.nowMs serverMaterial.previousKeyRotatedMs).val ≤ 20000 ∧
          serverMaterial.previousCookieKey = key := by
      rw [Honours, hserver] at hhonours'
      refine hhonours'.imp_right fun ⟨hprevious, hlate, hsame⟩ => ⟨?_, hprevious⟩
      have hlate' : madeMs.val ≤ (s.rotated a).lastCookieRotationMs.val := hlate
      dsimp only at hsame
      rw [hsame, satSub_val]
      omega
    exact checkCookie_ok (m := { s.server with
      material := { s.server.material with currentCookieKey := key } }) rfl hboot hinput hbucket
      hrotated
  obtain ⟨ack, hack, hr⟩ := receiveOpenAuth_ok (m := { s.server with material := serverMaterial })
    hC hm rfl hscid (ObservedBinding.valid_udp binding) hkey hshared hauth hcookie hfree hroom
    a.owner
  have hr' := (congrArg (fun m => ServerMachine.receiveOpenAuth C m a.packet.val (.udp binding)
    a.nowMs (bucketOf a.nowMs) (some a.material) a.owner) hserver).trans hr
  refine ⟨ack, hack, round_pending hallowed hb hu rfl hr' ?_ rfl hdeadline⟩
  exact List.mem_append_right _ (List.mem_singleton.mpr rfl)

theorem peerMatches_rotated (hpeer : s.peerBindings scid = some (a.endpoint, binding)) :
    (s.rotated a).peerMatches scid a.endpoint binding = true := by
  rw [peerMatches, (s.rotated_same a).2.2, hpeer]
  exact decide_eq_true rfl

/-- The confirmation of a pending session makes it an established one. -/
theorem round_accept (hC : C.Correct) (hs : Standing C o s) (hm : Mirrored C c s.server.config)
    (hallowed : a.endpoint.allowedUnderlay o.isolated = true)
    (hb : a.endpoint.endpointBinding s.selector = .ok binding) {p : PendingSession}
    (hp : p ∈ s.server.pending) (hpeer : s.peerBindings p.scid = some (a.endpoint, binding))
    (hlive : a.nowMs < p.deadlineMs) (hbudget : 282 ≤ p.session.receiveBudget)
    (hroom : (s.server.expire a.nowMs).established.length < s.server.config.establishedLimit)
    {d : DirectionalSession}
    (hchannel : Channel (Plain C 282 (sesHeader c.profile 1 p.scid c.source c.destination)
      SESSION_ACCEPT) d p.session
        [(a.packet.val, ClientMachine.acceptText p.session.transcriptHash)]) :
    ∃ w', (s.round C o a).2 = none ∧
      p.establish { p.session with replay := w' } a.packet.val a.nowMs ∈
        (s.round C o a).1.server.established ∧
      (s.round C o a).1.peerBindings p.scid = some (a.endpoint, binding) ∧
      Channel (Plain C 282 (sesHeader c.profile 1 p.scid c.source c.destination)
        SESSION_ACCEPT) d { p.session with replay := w' } [] := by
  obtain ⟨hpending, hestablished, hpeers⟩ := s.rotated_same a
  obtain ⟨hsize, -⟩ := serverConfig_eq_ok hs.config
  have hconfig := (s.rotated_fixed a).1.config
  have htables := ServerMachine.tables_reach (hs.bound.rotated a).server
  obtain ⟨call, v, -, ⟨hc, -, hfit⟩, -⟩ := hchannel.open hC (by decide) hbudget
  have hu := hc.unpack o.budget (by
    have hroom := hm.room.2
    omega)
  have hmem : p ∈ ((s.rotated a).server.expire a.nowMs).pending := by
    refine List.mem_filter.mpr ⟨?_, decide_eq_true hlive⟩
    rwa [hpending]
  have hroom' : ((s.rotated a).server.expire a.nowMs).established.length <
      s.server.config.establishedLimit := by
    rw [ServerMachine.expire, hestablished]
    exact hroom
  obtain ⟨i, w', -, hr, hrest⟩ :=
    receiveAccept_ok hC hm hconfig htables hmem hroom' hbudget hchannel
  have hround := round_eq hallowed hb
    (response_accept hu (peerMatches_rotated hpeer) (carries_head hc) hr)
  have hentry : p.establish { p.session with replay := w' } a.packet.val a.nowMs ∈
      (s.round C o a).1.server.established := by
    rw [hround]
    refine ServerMachine.mem_expire (List.mem_append_right _ (List.mem_singleton.mpr rfl)) ?_
    simp [PendingSession.establish, satSub_val]
  refine ⟨w', by rw [hround], hentry, ?_, hrest⟩
  rw [hround] at hentry ⊢
  have hkept := settle_peer p.scid a.nowMs
    (List.mem_append_right _ (List.mem_map.mpr ⟨_, hentry, rfl⟩))
  rw [hkept]
  exact (congrFun hpeers p.scid).trans hpeer

/-- Data of an established session comes back as it was. -/
theorem round_data (hC : C.Correct) (hs : Standing C o s) (hm : Mirrored C c s.server.config)
    (hbudget : s.server.config.budget = c.budget)
    (hallowed : a.endpoint.allowedUnderlay o.isolated = true)
    (hb : a.endpoint.endpointBinding s.selector = .ok binding) {client : ClientMachine}
    {e : ClientSession} {e' : EstablishedSession} {plaintext : List Byte}
    (hl : Linked C c s.server.config scid ⟨client, s.server, [(a.packet.val, plaintext)], []⟩ e e')
    (hpeer : s.peerBindings scid = some (a.endpoint, binding))
    (hlive : (satSub a.nowMs e'.lastActiveMs).val < 120000)
    (hcount : e'.session.sendCounters.next.val + 1 < 2 ^ 64) :
    ∃ echo e'', (s.round C o a).2 = some echo ∧
      Linked C c s.server.config scid ⟨client, (s.round C o a).1.server, [], [(echo, plaintext)]⟩
        e e'' ∧ e''.binding = e'.binding ∧ e''.lastActiveMs = a.nowMs ∧
      (s.round C o a).1.peerBindings scid = some (a.endpoint, binding) := by
  obtain ⟨hpending, hestablished, hpeers⟩ := s.rotated_same a
  obtain ⟨hsize, -⟩ := serverConfig_eq_ok hs.config
  obtain ⟨hfixed, -⟩ := s.rotated_fixed a
  have htables := ServerMachine.tables_reach (hs.bound.rotated a).server
  have hrotated := hl.at hfixed.config hfixed.locs htables (by rw [hestablished]; exact hl.entry)
  obtain ⟨m₁, e₁, call, ⟨hc, hcall, hfit⟩, hreceive, hl₁, hbinding₁, hactive₁, hcount₁⟩ :=
    hrotated.serverTakes hC hm hbudget hlive
  have hlen : plaintext.length + 76 ≤ s.server.config.budget := by
    rw [hbudget, ← hcall, ← hc.length]
    exact hfit
  obtain ⟨m₂, e'', calls, echo, hsend, hl', hbinding, hactive⟩ :=
    hl₁.serverReplies hm hbudget hlen (by rwa [hcount₁])
  have hu := hc.unpack o.budget (by omega)
  have hround := round_eq hallowed hb
    (response_data hu (peerMatches_rotated hpeer) (carries_head hc) hreceive hsend)
  have hlive' : (satSub a.nowMs e''.lastActiveMs).val < 120000 := by
    rw [hactive, hactive₁, satSub_val, Nat.sub_self]
    decide
  have hentry := ServerMachine.mem_expire hl'.entry hlive'
  refine ⟨echo, e'', by rw [hround], ?_, hbinding.trans hbinding₁, hactive.trans hactive₁, ?_⟩
  · rw [hround]
    exact hl'.at rfl ⟨rfl, rfl⟩ (ServerMachine.tables_expire hl'.tables a.nowMs) hentry
  · rw [hround]
    have hkept := settle_peer (s := { s.rotated a with server := m₂ }) scid a.nowMs
      (List.mem_append_right _ (List.mem_map.mpr ⟨_, hentry, hl'.scids.2⟩))
    exact hkept.trans ((congrFun hpeers scid).trans hpeer)

/-- A CLOSE is counted, and its session is gone. -/
theorem round_close (hC : C.Correct) (hs : Standing C o s) (hm : Mirrored C c s.server.config)
    (hbudget : s.server.config.budget = c.budget)
    (hallowed : a.endpoint.allowedUnderlay o.isolated = true)
    (hb : a.endpoint.endpointBinding s.selector = .ok binding) {client : ClientMachine}
    {e : ClientSession} {e' : EstablishedSession} {d : DirectionalSession} {code : U16}
    (hl : Linked C c s.server.config scid ⟨client, s.server, [], []⟩ e e')
    (hpeer : s.peerBindings scid = some (a.endpoint, binding))
    (hlive : (satSub a.nowMs e'.lastActiveMs).val < 120000)
    (hchannel : Channel (Plain C c.budget (sesHeader c.profile 1 scid c.source c.destination) CLOSE)
      d e'.session [(a.packet.val, u16Bytes code)]) :
    (s.round C o a).2 = none ∧ (s.round C o a).1.successes = s.successes + 1 ∧
      scid ∉ (s.round C o a).1.server.scids := by
  obtain ⟨hpending, hestablished, hpeers⟩ := s.rotated_same a
  obtain ⟨hsize, -⟩ := serverConfig_eq_ok hs.config
  obtain ⟨hfixed, hsuccesses⟩ := s.rotated_fixed a
  have htables := ServerMachine.tables_reach (hs.bound.rotated a).server
  have hrotated := hl.at hfixed.config hfixed.locs htables (by rw [hestablished]; exact hl.entry)
  obtain ⟨call, ⟨hc, -, hfit⟩, hcode⟩ := hrotated.serverCloses hC hm hbudget hlive hchannel
  have hu := hc.unpack o.budget (by omega)
  have hscid : u64Of (a.packet.val.drop 8) = scid := congrArg Header.scid (unpack_eq_ok hu).1.symm
  have hgone := ServerMachine.receiveClose_gone htables hcode
  rw [hscid] at hgone
  have hround := round_eq hallowed hb (response_close hu (peerMatches_rotated hpeer)
    (carries_head hc) (Prod.ext rfl hcode))
  rw [hround]
  refine ⟨rfl, congrArg (· + 1) hsuccesses, fun hmem => hgone ?_⟩
  exact (ServerMachine.scids_expire _ a.nowMs).subset hmem

end Rounds

end Serving

end R8.Session
