import R8Protocol.Session.Scenario
import R8Protocol.Session.Tables
import R8Protocol.Session.Trace

/-! The generic data path of a server, and runs under profile 3 that leave both ends' alone. -/
namespace R8.Session

open FixedWidth Wire

variable {C : Crypto} {packet plaintext : List Byte}

namespace ServerMachine

variable {m m' : ServerMachine} {nowMs : U64}

inductive Action
  | call (call : ServerCall)
  | preview (packet : List Byte) (sources destinations : List (Bytes 16)) (nowMs : U64)
  | commit (packet : List Byte) (preview : DataPreview) (nowMs : U64)

/-- The packet a call returns, with the calls of `seal` it made. -/
def output (C : Crypto) (m : ServerMachine) : ServerCall → List SealCall × Option (List Byte)
  | .receiveOpen packet binding bucket => ([], (m.receiveOpen C packet binding bucket).toOption)
  | .receiveOpenAuth packet binding nowMs bucket material owner =>
    ([], (m.receiveOpenAuth C packet binding nowMs bucket material owner).2.toOption)
  | .sendData scid plaintext source destination =>
    let r := (m.sendDataWithLocs C scid plaintext source destination).2
    (r.1, r.2.toOption)
  | .close scid code =>
    let r := (m.close C scid code).2
    (r.1, r.2.toOption)
  | _ => ([], none)

def delivery (m : ServerMachine) (scid : U64) (packet : List Byte)
    (r : Except SessionError (List Byte)) : Option Delivery := do
  let entry ← m.established.find? fun entry => entry.scid = scid
  let plaintext ← r.toOption
  some ⟨entry.session.receiveKey, packet, plaintext⟩

def effect (C : Crypto) (m : ServerMachine) : Action → Effect ServerMachine
  | .call call => {
      machine := m.step C call
      issued := none
      sent := (m.output C call).2.map fun packet => (packet, (m.output C call).1)
      delivered := match call with
        | .receiveData packet nowMs =>
          m.delivery (u64Of (packet.drop 8)) packet (m.receiveData C packet nowMs).2
        | _ => none }
  | .preview packet sources destinations nowMs =>
    let r := m.previewDataWithLocs C packet sources destinations nowMs
    { machine := r.1
      issued := r.2.toOption.map fun preview => (packet, preview)
      sent := none
      delivered := none }
  | .commit packet preview nowMs =>
    let r := m.commitData preview nowMs
    { machine := r.1
      issued := none
      sent := none
      delivered := m.delivery preview.scid packet r.2 }

/-- Commits are of previews this server issued, or of sessions elsewhere. -/
def Permitted (t : Trace ServerMachine) : Action → Prop
  | .call (.commitData ..) => False
  | .call (.previewData ..) => False
  | .commit packet preview _ => (packet, preview) ∈ t.issued ∨
      ∀ e ∈ t.machine.established, preview.commit.receiveOwner ≠ e.session.receiveOwner
  | _ => True

/-- As for a client, for the sessions that are left at the time of the call. -/
def Safe (C : Crypto) (m : ServerMachine) : Action → Prop
  | .call (.sendData scid plaintext _ _) =>
    ∀ e ∈ m.established, e.scid = scid → Unsendable m.config e.session plaintext
  | .call (.receiveData packet nowMs) => ∀ e ∈ (m.expire nowMs).established,
      ¬ GenericData C m.config e.scid e.session m.effectivePeerLoc m.effectiveLocalLoc packet
  | .commit _ preview nowMs => ∀ e ∈ (m.expire nowMs).established,
      ¬ Takes e.scid e.session preview
  | _ => True

/-- The packets that answer a repeated OPEN_AUTH. -/
def cached (m : ServerMachine) : List (List Byte) :=
  m.pending.map PendingSession.cachedAck ++ m.established.map EstablishedSession.cachedAck

def CacheQuiet (m : ServerMachine) : Prop := ∀ p ∈ m.cached, sesType p ≠ SESSION_DATA

theorem mem_cached {p : List Byte} :
    p ∈ m.cached ↔ (∃ x ∈ m.pending, x.cachedAck = p) ∨ ∃ e ∈ m.established, e.cachedAck = p := by
  simp [cached]

theorem CacheQuiet.mono (h : m.CacheQuiet) (hsub : ∀ p ∈ m'.cached, p ∈ m.cached) :
    m'.CacheQuiet := fun p hp => h p (hsub p hp)

theorem expire_quiet (h : m.CacheQuiet) (nowMs : U64) : (m.expire nowMs).CacheQuiet := by
  apply h.mono
  intro p hp
  rcases mem_cached.mp hp with ⟨x, hx, rfl⟩ | ⟨e, he, rfl⟩
  · exact mem_cached.mpr (.inl ⟨x, List.mem_of_mem_filter hx, rfl⟩)
  · exact mem_cached.mpr (.inr ⟨e, List.mem_of_mem_filter he, rfl⟩)

/-- No change of the tables brings a new answer, but for the one that opens an entry. -/
theorem Shift.cached {now? : Option U64} (hs : Shift C now? none m m') :
    ∀ p ∈ m'.cached, p ∈ m.cached := by
  intro p hp
  apply mem_cached.mpr
  rcases mem_cached.mp hp with ⟨x, hx, rfl⟩ | ⟨e, he, rfl⟩
  · left
    cases hs with
    | same | session | touch | remove | locs | material => exact ⟨x, hx, rfl⟩
    | opened _ _ _ _ _ hh => cases hh
    | repend i s =>
      rcases List.mem_or_eq_of_mem_set hx with hx | rfl
      · exact ⟨x, hx, rfl⟩
      · exact ⟨m.pending.get i, List.get_mem _ i, rfl⟩
    | accepted i => exact ⟨x, List.mem_of_mem_eraseIdx hx, rfl⟩
    | restart => cases hx
  · cases hs with
    | same | repend | locs | material => exact .inr ⟨e, he, rfl⟩
    | opened _ _ _ _ _ hh => cases hh
    | session i s =>
      right
      rcases List.mem_or_eq_of_mem_set he with he | rfl
      · exact ⟨e, he, rfl⟩
      · exact ⟨m.established.get i, List.get_mem _ i, rfl⟩
    | touch i s =>
      right
      rcases List.mem_or_eq_of_mem_set he with he | rfl
      · exact ⟨e, he, rfl⟩
      · exact ⟨m.established.get i, List.get_mem _ i, rfl⟩
    | remove i => exact .inr ⟨e, List.mem_of_mem_eraseIdx he, rfl⟩
    | accepted i s packet nowMs =>
      rcases List.mem_append.mp he with he | he
      · exact .inr ⟨e, he, rfl⟩
      · obtain rfl := List.mem_singleton.mp he
        exact .inl ⟨m.pending.get i, List.get_mem _ i, rfl⟩
    | restart => cases he

theorem cachedAnswer_quiet (h : m.CacheQuiet) {scid : U64} {binding : ObservedBinding}
    {ack : List Byte} (ha : m.cachedAnswer scid packet binding = some (.ok ack)) :
    sesType ack ≠ SESSION_DATA := by
  apply h
  apply mem_cached.mpr
  unfold cachedAnswer at ha
  split at ha
  · rename_i x hx
    have hok := Option.some.inj ha
    simp only [Outcome.ite_ok_eq_ok, Except.ok.injEq] at hok
    exact .inl ⟨x, List.mem_of_find?_eq_some hx, hok.2⟩
  · obtain ⟨e, he, hok⟩ := Option.map_eq_some_iff.mp ha
    simp only [Outcome.ite_ok_eq_ok, Except.ok.injEq] at hok
    exact .inr ⟨e, List.mem_of_find?_eq_some he, hok.2⟩

theorem authRequest_quiet (h : m.CacheQuiet) {binding : ObservedBinding} {nowMs bucket : U64}
    {given : Option ServerHandshakeMaterial} {ack : List Byte}
    (ha : m.authRequest C packet binding nowMs bucket given = .ok (.inl ack)) :
    sesType ack ≠ SESSION_DATA := by
  simp only [authRequest, Outcome.bind_eq_ok] at ha
  obtain ⟨⟨scid, body⟩, -, ha⟩ := ha
  dsimp only at ha
  split at ha
  · rename_i answer hanswer
    simp only [Outcome.bind_eq_ok, Except.ok.injEq, Sum.inl.injEq] at ha
    obtain ⟨ack', rfl, rfl⟩ := ha
    exact cachedAnswer_quiet h hanswer
  · simp [Outcome.bind_eq_ok] at ha

theorem receiveOpenAuth_quiet (h : m.CacheQuiet) (packet : List Byte) (binding : ObservedBinding)
    (nowMs bucket : U64) (given : Option ServerHandshakeMaterial) (owner : ℕ) :
    (m.receiveOpenAuth C packet binding nowMs bucket given owner).1.CacheQuiet ∧
      ∀ p, (m.receiveOpenAuth C packet binding nowMs bucket given owner).2 = .ok p →
        sesType p ≠ SESSION_DATA := by
  unfold receiveOpenAuth
  split
  · exact ⟨h, fun p hp => by cases hp⟩
  · have hq := expire_quiet h nowMs
    dsimp only
    generalize m.expire nowMs = m at hq ⊢
    split
    · exact ⟨hq, fun p hp => by cases hp⟩
    · rename_i ack hack
      refine ⟨hq, ?_⟩
      intro p hp
      obtain rfl := Except.ok.inj hp
      exact authRequest_quiet hq hack
    · split
      · exact ⟨hq, fun p hp => by cases hp⟩
      · rename_i handshake session ack hok
        simp only [answer, Outcome.bind_eq_ok, Except.ok.injEq, Prod.mk.injEq] at hok
        obtain ⟨handshake', -, r, ⟨session', -, ack', hack, rfl⟩, rfl, rfl, rfl⟩ := hok
        have htyp : sesType ack' ≠ SESSION_DATA := by
          rw [handshakePacket_type hack]
          decide
        constructor
        · intro p hp
          rcases mem_cached.mp hp with ⟨x, hx, rfl⟩ | ⟨e, he, rfl⟩
          · rcases List.mem_append.mp hx with hx | hx
            · exact hq _ (mem_cached.mpr (.inl ⟨x, hx, rfl⟩))
            · obtain rfl := List.mem_singleton.mp hx
              exact htyp
          · exact hq _ (mem_cached.mpr (.inr ⟨e, he, rfl⟩))
        · intro p hp
          obtain rfl := Except.ok.inj hp
          exact htyp

theorem step_quiet (h : m.CacheQuiet) (call : ServerCall) : (m.step C call).CacheQuiet := by
  by_cases hnone : m.handshake? C call = none
  · rcases step_shifts (C := C) m call with hs | ⟨nowMs, -, hs⟩
    · rw [hnone] at hs
      exact h.mono hs.cached
    · rw [hnone] at hs
      exact (expire_quiet h nowMs).mono hs.cached
  · cases call with
    | receiveOpenAuth => exact (receiveOpenAuth_quiet h _ _ _ _ _ _).1
    | _ => exact absurd rfl hnone

theorem receiveOpen_type {binding : ObservedBinding} {bucket : U64} {verify : List Byte}
    (h : m.receiveOpen C packet binding bucket = .ok verify) : sesType verify ≠ SESSION_DATA := by
  simp only [receiveOpen, Outcome.bind_eq_ok] at h
  obtain ⟨⟨⟩, -, r, -, client, -, input, -, hpacket⟩ := h
  rw [handshakePacket_type hpacket]
  decide

theorem close_type {scid : U64} {code : U16} (h : (m.close C scid code).2.2 = .ok packet) :
    sesType packet ≠ SESSION_DATA := by
  unfold close at h
  split at h
  · cases h
  · dsimp only at h
    split at h
    · rename_i packet' hpacket
      obtain rfl := Except.ok.inj h
      obtain ⟨-, -, htyp⟩ := encrypt_eq_ok hpacket
      rw [htyp]
      decide
    · cases h
    · cases h

theorem sendDataWithLocs_unsent {scid : U64} {source destination : Bytes 16}
    (hsafe : ∀ e ∈ m.established, e.scid = scid → Unsendable m.config e.session plaintext) :
    (m.sendDataWithLocs C scid plaintext source destination).2.2 ≠ .ok packet := by
  unfold sendDataWithLocs
  split
  · intro h
    cases h
  · rename_i i hi
    exact encrypt_unsendable (hsafe _ (List.get_mem _ i) (position_scid hi))

theorem output_quiet (h : m.CacheQuiet) {call : ServerCall} (hsafe : m.Safe C (.call call))
    (hp : (m.output C call).2 = some packet) : sesType packet ≠ SESSION_DATA := by
  cases call with
  | receiveOpen => exact receiveOpen_type (Outcome.toOption_eq_some.mp hp)
  | receiveOpenAuth =>
    exact (receiveOpenAuth_quiet h _ _ _ _ _ _).2 packet (Outcome.toOption_eq_some.mp hp)
  | sendData => exact absurd (Outcome.toOption_eq_some.mp hp) (sendDataWithLocs_unsent hsafe)
  | close => exact close_type (Outcome.toOption_eq_some.mp hp)
  | _ => cases hp

theorem commitData_refused {p : DataPreview} (hsafe : m.Safe C (.commit packet p nowMs)) :
    (m.commitData p nowMs).2 ≠ .ok plaintext := by
  intro h
  unfold commitData at h
  split at h
  · cases h
  · rename_i hheader
    dsimp only at h
    split at h
    · cases h
    · rename_i i hi
      have hcommit : (((m.expire nowMs).established.get i).session.commit p.commit).2 =
          .ok plaintext := by
        rcases hr : ((m.expire nowMs).established.get i).session.commit p.commit with
          ⟨session, e | plaintext'⟩
        · rw [hr] at h
          cases h
        · rw [hr] at h
          exact h
      obtain ⟨howner, hreplay⟩ := commit_takes hcommit
      exact hsafe _ (List.get_mem _ i)
        ⟨not_not.mp hheader, (position_scid hi).symm, howner, hreplay⟩

theorem receiveData_refused (hsafe : m.Safe C (.call (.receiveData packet nowMs))) :
    (m.receiveData C packet nowMs).2 ≠ .ok plaintext := by
  intro h
  unfold receiveData previewDataWithLocs at h
  simp only [expire_expire] at h
  split at h
  · cases h
  · rename_i m' p hp
    obtain ⟨-, hp⟩ := Prod.mk.inj hp
    simp only [Outcome.bind_eq_ok, Outcome.mapError_eq_ok] at hp
    obtain ⟨⟨header, payload⟩, hu, hp⟩ := hp
    dsimp only at hp
    split at hp
    · cases hp
    · rename_i e he
      have hscid : e.scid = header.scid := by simpa using List.find?_some he
      apply hsafe e (List.mem_of_find?_eq_some he)
      rw [hscid]
      exact previewData_generic hu hp

theorem delivery_eq_none {scid : U64} {r : Except SessionError (List Byte)}
    (h : ∀ plaintext, r ≠ .ok plaintext) : m.delivery scid packet r = none := by
  cases r with
  | ok plaintext => exact absurd rfl (h plaintext)
  | error e =>
    cases hs : m.established.find? fun entry => entry.scid = scid <;>
      simp [delivery, hs, Except.toOption]

theorem effect_quiet (h : m.CacheQuiet) {a : Action} (hsafe : m.Safe C a) :
    (m.effect C a).machine.CacheQuiet ∧ Trace.Quiet (m.effect C a) := by
  cases a with
  | call call =>
    refine ⟨step_quiet h call, ?_, ?_⟩
    · intro x hx
      obtain ⟨packet, hp, rfl⟩ := Option.map_eq_some_iff.mp hx
      exact output_quiet h hsafe hp
    · cases call with
      | receiveData packet => exact delivery_eq_none fun _ => receiveData_refused hsafe
      | _ => rfl
  | preview packet sources destinations nowMs =>
    exact ⟨expire_quiet h nowMs, fun x hx => (by cases hx), rfl⟩
  | commit packet preview nowMs =>
    refine ⟨?_, fun x hx => (by cases hx), delivery_eq_none fun _ => commitData_refused hsafe⟩
    exact step_quiet (C := C) h (.commitData preview nowMs)

/-- A new server of profile 3, with nothing sent or delivered. -/
def StartsProfile3 (C : Crypto) (t : Trace ServerMachine) : Prop :=
  ∃ m, Starts C m ∧ m.config.profile = 3 ∧ t = .new m

abbrev TraceReach (C : Crypto) (ok : Trace ServerMachine → Action → Prop)
    (t : Trace ServerMachine) : Prop :=
  Machine.Reach (StartsProfile3 C) (fun t a => t.record (t.machine.effect C a)) ok t

theorem starts_cacheQuiet {t : Trace ServerMachine} (h : StartsProfile3 C t) :
    t.machine.CacheQuiet ∧ t.Profile3Layout C := by
  obtain ⟨m, ⟨config, signingKey, material, hnew⟩, -, rfl⟩ := h
  obtain ⟨-, rfl⟩ := new_eq_ok hnew
  exact ⟨fun p hp => (by cases hp), Trace.profile3Layout_new _⟩

end ServerMachine

/-- Under profile 3 either end keeps to the layout with the delivery id in every run that leaves
the generic data paths alone. -/
theorem profile3_layout (C : Crypto) :
    (∀ t, ClientMachine.TraceReach C
        (fun t a => ClientMachine.Permitted t a ∧ t.machine.Safe C a) t → t.Profile3Layout C) ∧
    ∀ t, ServerMachine.TraceReach C
        (fun t a => ServerMachine.Permitted t a ∧ t.machine.Safe C a) t → t.Profile3Layout C := by
  constructor
  · intro t h
    exact Trace.profile3Layout_reach (fun _ => ClientMachine.starts_cacheQuiet)
      (fun _ _ hi ha => ClientMachine.effect_quiet hi ha.2) h
  · intro t h
    exact Trace.profile3Layout_reach (fun _ => ServerMachine.starts_cacheQuiet)
      (fun _ _ hi ha => ServerMachine.effect_quiet hi ha.2) h

namespace GenericSample

/-- What the server of a profile-3 handshake answers. -/
def verify : List Byte :=
  let opened := (Scenario.client 3).start .sample 9 ⟨bytesOf 32 30, bytesOf 32 31⟩ 1000
  Scenario.packetOf ((Scenario.server 3).receiveOpen .sample (Scenario.packetOf opened.2)
    Scenario.binding 0)

def ack : List Byte :=
  Scenario.packetOf ((Scenario.server 3).receiveOpenAuth .sample
    (Scenario.authenticating (Scenario.server 3) 9 30 1000).2 Scenario.binding 1000 0
    (some ⟨bytesOf 32 32, bytesOf 32 33⟩) 9).2

/-- The calls of the client in that handshake. -/
def clientHandshake : List ClientMachine.Action :=
  [.call (.start 9 ⟨bytesOf 32 30, bytesOf 32 31⟩ 1000), .call (.receiveVerify verify 1000),
    .call (.receiveAck ack 1000 9)]

def clientTrace (actions : List ClientMachine.Action) : Trace ClientMachine :=
  Machine.exec (fun t a => t.record (t.machine.effect .sample a)) (.new (Scenario.client 3)) actions

def serverTrace (actions : List ServerMachine.Action) : Trace ServerMachine :=
  Machine.exec (fun t a => t.record (t.machine.effect .sample a)) (.new (Scenario.server 3)) actions

/-- A datagram the established client sends through the generic path. -/
def datagram : List Byte :=
  let client := (Scenario.accepting (Scenario.server 3) 9 30 1000).1
  Scenario.packetOf (client.sendData .sample [1, 2, 3]).2.2

theorem client_starts : ClientMachine.StartsProfile3 .sample (.new (Scenario.client 3)) :=
  ⟨Scenario.client 3, Scenario.client_starts (by simp), rfl, rfl⟩

theorem server_starts : ServerMachine.StartsProfile3 .sample (.new (Scenario.server 3)) :=
  ⟨Scenario.server 3, Scenario.server_starts (by simp), rfl, rfl⟩

/-- Handed over, and asked for data afterwards. -/
def handedOver : List ClientMachine.Action :=
  clientHandshake ++ [.call .takeProfile3Bootstrap,
    .call (.sendData [1, 2, 3] (bytesOf 16 20) (bytesOf 16 21))]

theorem handedOver_released :
    ((clientTrace (clientHandshake ++ [.call .takeProfile3Bootstrap])).machine.session?).isNone := by
  decide +kernel

end GenericSample

open GenericSample

/-- A client that hands its session over at once has sent three packets, none of them data. -/
theorem profile3_layout_handed_over :
    (clientTrace handedOver).sent.length = 3 ∧ (clientTrace handedOver).Profile3Layout .sample := by
  refine ⟨by decide +kernel, (profile3_layout .sample).1 _ ?_⟩
  refine (Machine.Reach.start client_starts).exec handedOver ?_
  refine ⟨⟨trivial, trivial⟩, ⟨trivial, trivial⟩, ⟨trivial, trivial⟩, ⟨trivial, trivial⟩,
    ⟨trivial, ?_⟩, trivial⟩
  intro s hs
  have hnone := Option.isNone_iff_eq_none.mp handedOver_released
  rw [Option.mem_def] at hs
  exact absurd (hnone.symm.trans hs) (by simp)

/-- Established under profile 3, a client sends a datagram without a delivery id, and a server
delivers it. -/
theorem profile3_generic :
    (¬ ∀ C t, ClientMachine.TraceReach C ClientMachine.Permitted t → t.Profile3Layout C) ∧
      ¬ ∀ C t, ServerMachine.TraceReach C ServerMachine.Permitted t → t.Profile3Layout C := by
  constructor
  · intro h
    let actions := clientHandshake ++
      [.call (.sendData [1, 2, 3] (bytesOf 16 20) (bytesOf 16 21))]
    have hreach : ClientMachine.TraceReach .sample ClientMachine.Permitted (clientTrace actions) :=
      (Machine.Reach.start client_starts).exec actions ⟨trivial, trivial, trivial, trivial, trivial⟩
    have hsent : ∃ x ∈ (clientTrace actions).sent, sesType x.1 = SESSION_DATA ∧ x.1.length = 79 := by
      decide +kernel
    obtain ⟨x, hx, htyp, hlen⟩ := hsent
    obtain ⟨call, -, himage⟩ := (h .sample _ hreach).sent x hx htyp
    have hlong := himage.long
    omega
  · intro h
    let actions := (Scenario.handshake (Scenario.server 3) 9 30 1000 ++
      [ServerCall.receiveData datagram 1000]).map ServerMachine.Action.call
    have hreach : ServerMachine.TraceReach .sample ServerMachine.Permitted (serverTrace actions) :=
      (Machine.Reach.start server_starts).exec actions ⟨trivial, trivial, trivial, trivial⟩
    have hdelivered : ∃ d ∈ (serverTrace actions).delivered,
        sesType d.packet = SESSION_DATA ∧ d.packet.length = 79 := by
      decide +kernel
    obtain ⟨d, hd, htyp, hlen⟩ := hdelivered
    obtain ⟨n, -, data, tag, hdrop, -⟩ := (h .sample _ hreach).delivered d hd htyp
    have hlong := congrArg List.length hdrop
    rw [List.length_drop, List.length_append, tag.property] at hlong
    omega

end R8.Session
