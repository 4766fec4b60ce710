import R8Protocol.Lib.Duplex
import R8Protocol.Session.Honest
import R8Protocol.Session.Isolation

/-! An established client and its server, and the datagrams on their way between them. -/
namespace R8.Session

open FixedWidth Wire

variable {C : Crypto} {a b : DirectionalSession} {typ profile : Byte} {scid : U64} {budget : ℕ}
  {plaintext packet : List Byte} {src dst : Bytes 16}

/-- Sealing puts out a packet that the other end can take apart. -/
theorem encrypt_plain (hp : profile ≤ 3) (hs : scid ≠ 0) (hb : budget ≤ SERIALIZED_R8_MAX)
    (hguard : DirectionalSession.encryptGuard typ plaintext budget = .ok ())
    (hcan : a.canReserve) (src dst : Bytes 16) :
    ∃ a' calls call packet,
      a.encrypt C (sesHeader profile 1 scid src dst) typ plaintext budget =
        (a', calls, .ok packet) ∧ Seals a a' call plaintext ∧
      Plain C budget (sesHeader profile 1 scid src dst) typ call packet plaintext := by
  obtain ⟨packet, hok⟩ := encrypt_sesHeader_ok (C := C) src dst hp hs hb hguard hcan
  obtain ⟨call, -, hseals, hcarries⟩ := encrypt_carries hok
  have hfit : plaintext.length + 76 ≤ budget := by
    simp only [DirectionalSession.encryptGuard, Outcome.ite_error_eq_ok, not_not] at hguard
    omega
  have hlen : packet.length ≤ budget := by rwa [hcarries.length, hseals.plaintext]
  rcases hr : a.encrypt C (sesHeader profile 1 scid src dst) typ plaintext budget with
    ⟨a', calls, out⟩
  rw [hr] at hok hseals
  obtain rfl : out = .ok packet := hok
  exact ⟨a', calls, call, packet, rfl, hseals, hcarries, hseals.plaintext, hlen⟩

theorem encryptGuard_data (h : plaintext.length + 76 ≤ budget) :
    DirectionalSession.encryptGuard SESSION_DATA plaintext budget = .ok () := by
  have hroom : ¬ budget < 12 + plaintext.length + 16 + 48 := by omega
  simp [DirectionalSession.encryptGuard, hroom, SESSION_ACCEPT, SESSION_DATA, CLOSE]

/-- A counter is left as long as the next one is not the last. -/
theorem Channel.canReserve {α : Type} {carried : SealCall → List Byte → α → Prop}
    {queue : List (List Byte × α)} (h : Channel carried a b queue)
    (hlt : a.sendCounters.next.val + 1 < 2 ^ 64) : a.canReserve := by
  have hle := h.flight.le
  have hzero : a.sendCounters.next ≠ 0 := by
    intro heq
    rw [heq] at hle
    simp at hle
  have hmax : a.sendCounters.next ≠ u64Max := by
    intro heq
    rw [heq, u64Max_val] at hlt
    omega
  simp [DirectionalSession.canReserve, Counters.canReserve, hzero, hmax]

/-- The checks of a receiver on a datagram under its own locations. -/
theorem previewData_plain (config : HandshakeConfig) {p : ProtectedPreview} {call : SealCall}
    (hprofile : config.profile = profile) (hbudget : config.budget = budget)
    (hc : Plain C budget (sesHeader profile 1 scid src dst) SESSION_DATA call packet plaintext)
    (hpreview : b.preview C packet = .ok p) :
    Header.unpackWithBudget packet config.budget =
        .ok (sesHeader profile 1 scid src dst, packet.drop 48) ∧
      previewData C config b (sesHeader profile 1 scid src dst) (packet.drop 48) packet src dst []
        [] = .ok ⟨scid, sesHeader profile 1 scid src dst, p⟩ := by
  obtain ⟨hcarries, -, hlen⟩ := hc
  have hdecode : SessionMessage.decode (packet.drop 48) profile budget =
      .ok ⟨SESSION_DATA, profile, packet.drop 52⟩ := hcarries.decode _ hlen
  rw [hbudget]
  refine ⟨hcarries.unpack _ hlen, ?_⟩
  unfold previewData
  simp [validateDataHeader, sesHeader, hprofile, hbudget, hdecode, hpreview, bind, Except.bind]

namespace ClientMachine

variable {m : ClientMachine} {e : ClientSession}

theorem sendData_ok (hstate : m.state = .established e) (hp : m.config.profile ≤ 3)
    (hs : e.scid ≠ 0) (hb : m.config.budget ≤ SERIALIZED_R8_MAX)
    (hfit : plaintext.length + 76 ≤ m.config.budget) (hcan : e.session.canReserve) :
    ∃ a' calls call packet,
      m.sendData C plaintext =
        ({ m with state := .established { e with session := a' } }, calls, .ok packet) ∧
      Seals e.session a' call plaintext ∧
      Plain C m.config.budget (sesHeader m.config.profile 1 e.scid m.effectiveLocalLoc
        m.effectivePeerLoc) SESSION_DATA call packet plaintext := by
  obtain ⟨a', calls, call, packet, hencrypt, hseals, hplain⟩ := encrypt_plain (C := C)
    hp hs hb (encryptGuard_data hfit) hcan m.effectiveLocalLoc m.effectivePeerLoc
  refine ⟨a', calls, call, packet, ?_, hseals, hplain⟩
  simp [sendData, sendDataWithLocs, hstate, encrypt, hencrypt]

theorem receiveData_ok {call : SealCall} {p : ProtectedPreview} (hstate : m.state = .established e)
    (hc : Plain C m.config.budget (sesHeader m.config.profile 1 e.scid m.effectivePeerLoc
      m.effectiveLocalLoc) SESSION_DATA call packet plaintext)
    (hpreview : e.session.preview C packet = .ok p)
    (hcommit : e.session.commit p = (b, .ok plaintext)) :
    m.receiveData C packet =
      ({ m with state := .established { e with session := b } }, .ok plaintext) := by
  obtain ⟨hunpack, hdata⟩ := previewData_plain m.config rfl rfl hc hpreview
  have hscid : e.scid = (sesHeader m.config.profile 1 e.scid m.effectivePeerLoc
    m.effectiveLocalLoc).scid := rfl
  unfold receiveData previewDataWithLocs
  simp only [hunpack, Except.mapError, bind, Except.bind, hstate, if_pos hscid, hdata]
  simp [commitData, hstate, hcommit, sesHeader]

end ClientMachine

namespace ServerMachine

variable {m : ServerMachine} {e : EstablishedSession} {nowMs : U64}

theorem sendData_ok (ht : Tables m) (he : e ∈ m.established) (hp : m.config.profile ≤ 3)
    (hb : m.config.budget ≤ SERIALIZED_R8_MAX) (hfit : plaintext.length + 76 ≤ m.config.budget)
    (hcan : e.session.canReserve) :
    ∃ i a' calls call packet,
      m.position e.scid = some i ∧ m.established.get i = e ∧
      m.sendData C e.scid plaintext = (m.setSession i a', calls, .ok packet) ∧
      Seals e.session a' call plaintext ∧
      Plain C m.config.budget (sesHeader m.config.profile 1 e.scid m.effectiveLocalLoc
        m.effectivePeerLoc) SESSION_DATA call packet plaintext := by
  have hs : e.scid ≠ 0 := by
    intro hz
    exact ht.nonzero (List.mem_append_right _ (List.mem_map.mpr ⟨e, he, hz⟩))
  obtain ⟨i, hi, hget⟩ := ht.position he
  obtain ⟨a', calls, call, packet, hencrypt, hseals, hplain⟩ := encrypt_plain (C := C)
    hp hs hb (encryptGuard_data hfit) hcan m.effectiveLocalLoc m.effectivePeerLoc
  refine ⟨i, a', calls, call, packet, hi, hget, ?_, hseals, hplain⟩
  simp only [sendData, sendDataWithLocs, hi, encrypt, hget, hencrypt]
  rfl

theorem commitData_ok (ht : Tables m) (he : e ∈ (m.expire nowMs).established) {v : DataPreview}
    (hscid : v.scid = e.scid) (hheader : v.header.scid = v.scid)
    (hcommit : e.session.commit v.commit = (b, .ok plaintext)) :
    ∃ i, (m.expire nowMs).position e.scid = some i ∧
      m.commitData v nowMs =
        ({ m.expire nowMs with
          established := (m.expire nowMs).established.set i
            { e with session := b, lastActiveMs := nowMs } }, .ok plaintext) := by
  obtain ⟨i, hi, hget⟩ := (tables_expire ht nowMs).position he
  refine ⟨i, hi, ?_⟩
  unfold commitData
  simp only [hheader, ne_eq, not_true_eq_false, if_false, hscid, hi, hget, hcommit]

theorem receiveData_ok (ht : Tables m) {call : SealCall} {p : ProtectedPreview}
    (he : e ∈ (m.expire nowMs).established)
    (hc : Plain C m.config.budget (sesHeader m.config.profile 1 e.scid m.effectivePeerLoc
      m.effectiveLocalLoc) SESSION_DATA call packet plaintext)
    (hpreview : e.session.preview C packet = .ok p)
    (hcommit : e.session.commit p = (b, .ok plaintext)) :
    ∃ i, (m.expire nowMs).position e.scid = some i ∧
      m.receiveData C packet nowMs =
        ({ m.expire nowMs with
          established := (m.expire nowMs).established.set i
            { e with session := b, lastActiveMs := nowMs } }, .ok plaintext) := by
  obtain ⟨hunpack, hdata⟩ := previewData_plain m.config rfl rfl hc hpreview
  have ht' := tables_expire ht nowMs
  have hfind := ht'.find he
  have hscid : (sesHeader m.config.profile 1 e.scid m.effectivePeerLoc m.effectiveLocalLoc).scid =
      e.scid := rfl
  have hsame : (m.expire nowMs).config = m.config ∧
      (m.expire nowMs).effectivePeerLoc = m.effectivePeerLoc ∧
      (m.expire nowMs).effectiveLocalLoc = m.effectiveLocalLoc := ⟨rfl, rfl, rfl⟩
  obtain ⟨hconfig, hpeer, hlocal⟩ := hsame
  have he' : e ∈ ((m.expire nowMs).expire nowMs).established := by rwa [expire_expire]
  have hcommitted := commitData_ok ht' he' (v := ⟨e.scid, sesHeader m.config.profile 1 e.scid
    m.effectivePeerLoc m.effectiveLocalLoc, p⟩) rfl hscid hcommit
  rw [expire_expire] at hcommitted
  obtain ⟨i, hi, hdone⟩ := hcommitted
  refine ⟨i, hi, ?_⟩
  unfold receiveData previewDataWithLocs
  simp only [expire_expire, hconfig, hunpack, Except.mapError, bind, Except.bind, hscid, hfind,
    hpeer, hlocal, hdata]
  exact hdone

end ServerMachine

open Duplex

/-- The client as a party, whose calls on datagrams take no time. -/
def clientPort (C : Crypto) : Port ClientMachine (List Byte) (List Byte) U64 where
  send m plaintext := ((m.sendData C plaintext).1, (m.sendData C plaintext).2.2.toOption)
  receive m _ packet := ((m.receiveData C packet).1, (m.receiveData C packet).2.toOption)

/-- The server as a party to the session of one SCID. -/
def serverPort (C : Crypto) (scid : U64) : Port ServerMachine (List Byte) (List Byte) U64 where
  send m plaintext :=
    ((m.sendData C scid plaintext).1, (m.sendData C scid plaintext).2.2.toOption)
  receive m nowMs packet :=
    ((m.receiveData C packet nowMs).1, (m.receiveData C packet nowMs).2.toOption)

/-- The entry of this SCID has not idled out. -/
def ServerMachine.Live (scid : U64) (m : ServerMachine) (nowMs : U64) : Prop :=
  ∀ e ∈ m.established, e.scid = scid → (satSub nowMs e.lastActiveMs).val < 120000

variable {c s : HandshakeConfig} {e : ClientSession} {e' : EstablishedSession}

/-- Both ends of an established session and what is on its way between them. -/
structure Joint (C : Crypto) (c s : HandshakeConfig) (scid : U64)
    (w : World ClientMachine ServerMachine (List Byte) (List Byte)) (e : ClientSession)
    (e' : EstablishedSession) : Prop where
  clientConfig : w.left.config = c
  clientLocs : w.left.effectiveLocalLoc = c.source ∧ w.left.effectivePeerLoc = c.destination
  clientState : w.left.state = .established e
  serverConfig : w.right.config = s
  tables : w.right.Tables
  entry : e' ∈ w.right.established
  scids : e.scid = scid ∧ e'.scid = scid
  budgets : e.session.receiveBudget = c.budget ∧ e'.session.receiveBudget = s.budget
  toRight : Channel (Plain C c.budget (sesHeader c.profile 1 scid c.source c.destination)
    SESSION_DATA) e.session e'.session w.toRight
  toLeft : Channel (Plain C c.budget (sesHeader c.profile 1 scid c.destination c.source)
    SESSION_DATA) e'.session e.session w.toLeft

/-- Two ends that know each other where their configurations say. -/
structure Linked (C : Crypto) (c s : HandshakeConfig) (scid : U64)
    (w : World ClientMachine ServerMachine (List Byte) (List Byte)) (e : ClientSession)
    (e' : EstablishedSession) : Prop extends Joint C c s scid w e e' where
  serverLocs : w.right.effectiveLocalLoc = s.destination ∧ w.right.effectivePeerLoc = s.source

theorem Seals.frame {a' : DirectionalSession} {call : SealCall} (h : Seals a a' call plaintext) :
    (a'.receiveKey = a.receiveKey ∧ a'.replay = a.replay) ∧ a'.receiveBudget = a.receiveBudget := by
  rw [h.next]
  exact ⟨⟨rfl, rfl⟩, rfl⟩

namespace Linked

variable {w : World ClientMachine ServerMachine (List Byte) (List Byte)} {a' : DirectionalSession}
  {call : SealCall} {rest : List (List Byte × List Byte)}

theorem clientSends (hl : Linked C c s scid w e e') (hseals : Seals e.session a' call plaintext)
    (hplain : Plain C c.budget (sesHeader c.profile 1 scid c.source c.destination) SESSION_DATA
      call packet plaintext) :
    Linked C c s scid { w with
      left := { w.left with state := .established { e with session := a' } }
      toRight := w.toRight ++ [(packet, plaintext)] } { e with session := a' } e' := by
  obtain ⟨hkeep, hbudget⟩ := hseals.frame
  exact { hl with
    clientState := rfl
    scids := hl.scids
    budgets := ⟨hbudget.trans hl.budgets.1, hl.budgets.2⟩
    toRight := hl.toRight.send hseals hplain
    toLeft := hl.toLeft.frame ⟨rfl, rfl⟩ hkeep }

theorem clientReceives (hl : Linked C c s scid w e e') {w' : ReplayWindow}
    (hrest : Channel (Plain C c.budget (sesHeader c.profile 1 scid c.destination c.source)
      SESSION_DATA) e'.session { e.session with replay := w' } rest) :
    Linked C c s scid { w with
      left := { w.left with
        state := .established { e with session := { e.session with replay := w' } } }
      toLeft := rest } { e with session := { e.session with replay := w' } } e' :=
  { hl with
    clientState := rfl
    scids := hl.scids
    budgets := hl.budgets
    toRight := hl.toRight.frame ⟨rfl, rfl⟩ ⟨rfl, rfl⟩
    toLeft := hrest }

/-- The entry of the session is replaced, in a server that may have let others expire. -/
theorem entrySet {m : ServerMachine} (hm : m.Tables) {scid : U64} {i : Fin m.established.length}
    (hi : m.position scid = some i) {x : EstablishedSession} (hx : x.scid = scid) :
    ServerMachine.Tables { m with established := m.established.set i x } ∧
      x ∈ m.established.set i x :=
  ⟨ServerMachine.tables_set hm i (hx.trans (ServerMachine.position_scid hi).symm),
    List.mem_set i.isLt x⟩

theorem serverSends (hl : Linked C c s scid w e e') {i : Fin w.right.established.length}
    (hi : w.right.position e'.scid = some i) (hget : w.right.established.get i = e')
    (hseals : Seals e'.session a' call plaintext)
    (hplain : Plain C c.budget (sesHeader c.profile 1 scid c.destination c.source) SESSION_DATA
      call packet plaintext) :
    Linked C c s scid { w with
      right := w.right.setSession i a'
      toLeft := w.toLeft ++ [(packet, plaintext)] } e { e' with session := a' } := by
  obtain ⟨hkeep, hbudget⟩ := hseals.frame
  obtain ⟨htables, hmem⟩ := entrySet hl.tables hi (x := { e' with session := a' }) rfl
  have hset : w.right.setSession i a' = { w.right with
      established := w.right.established.set i { e' with session := a' } } := by
    rw [ServerMachine.setSession, hget]
  exact { hl with
    serverConfig := hl.serverConfig
    serverLocs := hl.serverLocs
    tables := by rw [hset]; exact htables
    entry := by rw [hset]; exact hmem
    scids := hl.scids
    budgets := ⟨hl.budgets.1, hbudget.trans hl.budgets.2⟩
    toRight := hl.toRight.frame ⟨rfl, rfl⟩ hkeep
    toLeft := hl.toLeft.send hseals hplain }

theorem serverReceives (hl : Linked C c s scid w e e') {nowMs : U64} {w' : ReplayWindow}
    {i : Fin (w.right.expire nowMs).established.length}
    (hi : (w.right.expire nowMs).position e'.scid = some i)
    (hrest : Channel (Plain C c.budget (sesHeader c.profile 1 scid c.source c.destination)
      SESSION_DATA) e.session { e'.session with replay := w' } rest) :
    Linked C c s scid { w with
      right := { w.right.expire nowMs with
        established := (w.right.expire nowMs).established.set i
          { e' with session := { e'.session with replay := w' }, lastActiveMs := nowMs } }
      toRight := rest } e
      { e' with session := { e'.session with replay := w' }, lastActiveMs := nowMs } := by
  obtain ⟨htables, hmem⟩ := entrySet (ServerMachine.tables_expire hl.tables nowMs) hi
    (x := { e' with session := { e'.session with replay := w' }, lastActiveMs := nowMs }) rfl
  exact { hl with
    serverConfig := hl.serverConfig
    serverLocs := hl.serverLocs
    tables := htables
    entry := hmem
    scids := hl.scids
    budgets := hl.budgets
    toRight := hrest
    toLeft := hl.toLeft.frame ⟨rfl, rfl⟩ ⟨rfl, rfl⟩ }

end Linked

/-- Two ends that have counters for as many messages as are still to be sent. -/
def Ready (C : Crypto) (c s : HandshakeConfig) (scid : U64)
    (w : World ClientMachine ServerMachine (List Byte) (List Byte)) (n k : ℕ) : Prop :=
  ∃ e e', Linked C c s scid w e e' ∧ e.session.sendCounters.next.val + n < 2 ^ 64 ∧
    e'.session.sendCounters.next.val + k < 2 ^ 64

/-- A seal takes one counter. -/
theorem Seals.count {a' : DirectionalSession} {call : SealCall} (h : Seals a a' call plaintext)
    {n : ℕ} (hn : a.sendCounters.next.val + (n + 1) < 2 ^ 64) :
    a'.sendCounters.next.val + n < 2 ^ 64 := by
  have hnext := h.next_val
  omega

theorem linked_keeps (hC : C.Correct) (h : Mirrored C c s) (hb : s.budget = c.budget)
    (hs : scid ≠ 0) :
    Keeps (clientPort C) (serverPort C scid)
      (fun plaintext => plaintext.length + 76 ≤ c.budget) (fun _ _ => True)
      (ServerMachine.Live scid) (Ready C c s scid) where
  leftSends := by
    rintro w n k plaintext ⟨e, e', hl, hn, hk⟩ hfit
    obtain ⟨hprofile, hbudget⟩ := h.bounds
    rw [← hl.clientConfig] at hprofile hbudget
    have hfit' : plaintext.length + 76 ≤ w.left.config.budget := by
      rw [hl.clientConfig]
      exact hfit
    obtain ⟨a', calls, call, packet, hsend, hseals, hplain⟩ :=
      ClientMachine.sendData_ok (C := C) hl.clientState hprofile (by rw [hl.scids.1]; exact hs)
        hbudget hfit' (hl.toRight.canReserve (by omega))
    rw [hl.clientConfig, hl.clientLocs.1, hl.clientLocs.2, hl.scids.1] at hplain
    refine ⟨{ w.left with state := .established { e with session := a' } }, packet, ?_,
      _, _, hl.clientSends hseals hplain, hseals.count hn, hk⟩
    simp [clientPort, hsend, Except.toOption]
  rightSends := by
    rintro w n k plaintext ⟨e, e', hl, hn, hk⟩ hfit
    obtain ⟨hprofile, hbudget⟩ := h.bounds
    rw [← h.profile, ← hl.serverConfig] at hprofile
    rw [← hb, ← hl.serverConfig] at hbudget
    have hfit' : plaintext.length + 76 ≤ w.right.config.budget := by
      rw [hl.serverConfig, hb]
      exact hfit
    obtain ⟨i, a', calls, call, packet, hi, hget, hsend, hseals, hplain⟩ :=
      ServerMachine.sendData_ok (C := C) hl.tables hl.entry hprofile hbudget hfit'
        (hl.toLeft.canReserve (by omega))
    rw [hl.serverConfig, hl.serverLocs.1, hl.serverLocs.2, hl.scids.2, hb, h.profile,
      h.source, h.destination] at hplain
    rw [hl.scids.2] at hsend
    refine ⟨w.right.setSession i a', packet, ?_, _, _, hl.serverSends hi hget hseals hplain, hn,
      hseals.count hk⟩
    simp [serverPort, hsend, Except.toOption]
  leftReceives := by
    rintro w n k nowMs packet plaintext rest ⟨e, e', hl, hn, hk⟩ hqueue -
    have hchannel := hl.toLeft
    rw [hqueue] at hchannel
    obtain ⟨call, p, w', hplain, hpreview, -, hcommit, hrest⟩ := hchannel.open hC (by decide)
      hl.budgets.1.ge
    rw [← hl.clientLocs.1, ← hl.clientLocs.2, ← hl.scids.1, ← hl.clientConfig] at hplain
    have hreceive := ClientMachine.receiveData_ok hl.clientState hplain hpreview hcommit
    refine ⟨{ w.left with
      state := .established { e with session := { e.session with replay := w' } } }, ?_, _, _,
      hl.clientReceives hrest, hn, hk⟩
    simp [clientPort, hreceive, Except.toOption]
  rightReceives := by
    rintro w n k nowMs packet plaintext rest ⟨e, e', hl, hn, hk⟩ hqueue hlive
    have hchannel := hl.toRight
    rw [hqueue] at hchannel
    obtain ⟨call, p, w', hplain, hpreview, -, hcommit, hrest⟩ := hchannel.open hC (by decide)
      (hb.ge.trans hl.budgets.2.ge)
    rw [← h.source, ← h.destination, ← hb, ← h.profile, ← hl.serverLocs.1,
      ← hl.serverLocs.2, ← hl.serverConfig, ← hl.scids.2] at hplain
    have hentry := ServerMachine.mem_expire hl.entry (hlive e' hl.entry hl.scids.2)
    obtain ⟨i, hi, hreceive⟩ := ServerMachine.receiveData_ok hl.tables hentry hplain hpreview
      hcommit
    refine ⟨_, ?_, _, _, hl.serverReceives hi hrest, hn, hk⟩
    simp [serverPort, hreceive, Except.toOption]

/-- The session of slot zero as a party, under the header its bootstrap stands for. -/
def slotPort (C : Crypto) (boot : Profile3Bootstrap) :
    Port DirectionalSession (U64 × List Byte) (List Byte) U64 where
  send session message :=
    let r := session.encryptProfile3Data C (sesHeader 3 1 boot.scid boot.localLoc boot.peerLoc)
      message.1 message.2 boot.budget
    (r.1, r.2.2.toOption)
  receive session _ packet :=
    ((session.decryptProfile3Data C packet).1, (session.decryptProfile3Data C packet).2.toOption)

variable {x y : Profile3Bootstrap}

/-- Two slot-zero sessions, what is on its way between them, and counters for the rest. -/
structure Slots (C : Crypto) (x y : Profile3Bootstrap)
    (w : World DirectionalSession DirectionalSession (U64 × List Byte) (List Byte)) (n k : ℕ) :
    Prop where
  budgets : w.left.receiveBudget = x.budget ∧ w.right.receiveBudget = x.budget
  toRight : Channel (Delivered C x.budget (sesHeader 3 1 x.scid x.localLoc x.peerLoc)) w.left
    w.right w.toRight
  toLeft : Channel (Delivered C x.budget (sesHeader 3 1 y.scid y.localLoc y.peerLoc)) w.right
    w.left w.toLeft
  leftCounters : w.left.sendCounters.next.val + n < 2 ^ 64
  rightCounters : w.right.sendCounters.next.val + k < 2 ^ 64

/-- Sealing in the layout of profile 3, with what the other end needs to know about the packet. -/
theorem encryptProfile3Data_delivered {message : U64 × List Byte} (hs : scid ≠ 0)
    (hid : message.1 ≠ 0 ∧ message.1 ≠ u64Max) (hfit : message.2.length + 84 ≤ budget)
    (hb : budget ≤ SERIALIZED_R8_MAX) (hcan : a.canReserve) (src dst : Bytes 16) :
    ∃ a' calls call packet,
      a.encryptProfile3Data C (sesHeader 3 1 scid src dst) message.1 message.2 budget =
        (a', calls, .ok packet) ∧ Seals a a' call message.2 ∧
      Delivered C budget (sesHeader 3 1 scid src dst) call packet message := by
  obtain ⟨call, packet, -, hseals, hok, hcarries, -⟩ :=
    encryptProfile3Data_carries C (validateProfile3_sesHeader src dst hs) hid.2 hfit (hfit.trans hb)
      hcan
  have hlen : packet.length ≤ budget := by rwa [hcarries.length, hseals.plaintext]
  rcases hr : a.encryptProfile3Data C (sesHeader 3 1 scid src dst) message.1 message.2 budget with
    ⟨a', calls, out⟩
  rw [hr] at hok hseals
  obtain rfl : out = .ok packet := hok
  exact ⟨a', calls, call, packet, rfl, hseals, hcarries, hseals.plaintext, hlen, hid⟩

theorem slots_keep (hC : C.Correct) (hs : x.scid ≠ 0) (hs' : y.scid ≠ 0)
    (hb : x.budget ≤ SERIALIZED_R8_MAX) (hbudget : y.budget = x.budget) :
    Keeps (slotPort C x) (slotPort C y)
      (fun message => (message.1 ≠ 0 ∧ message.1 ≠ u64Max) ∧ message.2.length + 84 ≤ x.budget)
      (fun _ _ => True) (fun _ _ => True) (Slots C x y) where
  leftSends := by
    rintro w n k message ⟨hbudgets, hright, hleft, hn, hk⟩ ⟨hid, hfit⟩
    obtain ⟨a', calls, call, packet, hencrypt, hseals, hdelivered⟩ :=
      encryptProfile3Data_delivered (C := C) hs hid hfit hb (hright.canReserve (by omega))
        x.localLoc x.peerLoc
    obtain ⟨hkeep, hreceive⟩ := hseals.frame
    refine ⟨a', packet, by simp [slotPort, hencrypt, Except.toOption], ?_⟩
    exact ⟨⟨hreceive.trans hbudgets.1, hbudgets.2⟩, hright.send hseals hdelivered,
      hleft.frame ⟨rfl, rfl⟩ hkeep, hseals.count hn, hk⟩
  rightSends := by
    rintro w n k message ⟨hbudgets, hright, hleft, hn, hk⟩ ⟨hid, hfit⟩
    obtain ⟨a', calls, call, packet, hencrypt, hseals, hdelivered⟩ :=
      encryptProfile3Data_delivered (C := C) hs' hid hfit hb (hleft.canReserve (by omega))
        y.localLoc y.peerLoc
    rw [← hbudget] at hencrypt
    obtain ⟨hkeep, hreceive⟩ := hseals.frame
    refine ⟨a', packet, by simp [slotPort, hencrypt, Except.toOption], ?_⟩
    exact ⟨⟨hbudgets.1, hreceive.trans hbudgets.2⟩, hright.frame ⟨rfl, rfl⟩ hkeep,
      hleft.send hseals hdelivered, hn, hseals.count hk⟩
  leftReceives := by
    rintro w n k time packet message rest ⟨hbudgets, hright, hleft, hn, hk⟩ hqueue -
    rw [hqueue] at hleft
    obtain ⟨w', hdecrypt, hrest⟩ := hleft.openProfile3 hC hs' hbudgets.1.ge
    refine ⟨{ w.left with replay := w' }, by simp [slotPort, hdecrypt, Except.toOption], ?_⟩
    exact ⟨hbudgets, hright.frame ⟨rfl, rfl⟩ ⟨rfl, rfl⟩, hrest, hn, hk⟩
  rightReceives := by
    rintro w n k time packet message rest ⟨hbudgets, hright, hleft, hn, hk⟩ hqueue -
    rw [hqueue] at hright
    obtain ⟨w', hdecrypt, hrest⟩ := hright.openProfile3 hC hs hbudgets.2.ge
    refine ⟨{ w.right with replay := w' }, by simp [slotPort, hdecrypt, Except.toOption], ?_⟩
    exact ⟨hbudgets, hrest, hleft.frame ⟨rfl, rfl⟩ ⟨rfl, rfl⟩, hn, hk⟩

end R8.Session
