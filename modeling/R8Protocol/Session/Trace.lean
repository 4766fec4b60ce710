import R8Protocol.Session.Packets
import R8Protocol.Session.Runs

/-! What an end sends and delivers in a run under profile 3, and the generic data path of a client. -/
namespace R8.Session

open FixedWidth Wire

variable {C : Crypto} {packet plaintext : List Byte}

/-- What an encryption asked for, and the type of what it put out. -/
theorem encrypt_eq_ok {s : DirectionalSession} {header : Header} {typ : Byte} {budget : ℕ}
    (h : (s.encrypt C header typ plaintext budget).2.2 = .ok packet) :
    plaintext.length + 76 ≤ budget ∧ s.canReserve ∧ sesType packet = typ := by
  obtain ⟨hguard, hreserve, ciphertext, -, -, -, rfl⟩ := encrypt_packet h
  simp only [DirectionalSession.encryptGuard, Outcome.ite_error_eq_ok] at hguard
  exact ⟨by omega, hreserve, sesType_bytes _ typ _⟩

/-- A plaintext that an end has handed to its caller, with the packet it came in and the key that
opened it. -/
structure Delivery where
  key : Bytes 32
  packet : List Byte
  plaintext : List Byte
  deriving DecidableEq, Repr

/-- What one action of an end comes to. -/
structure Effect (μ : Type) where
  machine : μ
  issued : Option (List Byte × DataPreview)
  sent : Option (List Byte × List SealCall)
  delivered : Option Delivery

/-- An end with the previews it issued, what it sent, each packet with the calls of `seal` made for
it, and what it delivered. -/
structure Trace (μ : Type) where
  machine : μ
  issued : List (List Byte × DataPreview)
  sent : List (List Byte × List SealCall)
  delivered : List Delivery

namespace Trace

variable {μ α : Type}

def new (machine : μ) : Trace μ := ⟨machine, [], [], []⟩

def record (t : Trace μ) (e : Effect μ) : Trace μ where
  machine := e.machine
  issued := e.issued.toList ++ t.issued
  sent := e.sent.toList ++ t.sent
  delivered := e.delivered.toList ++ t.delivered

/-- A data packet that was sent carries counter, delivery id, ciphertext and tag, and was sealed
with the delivery id in the associated data. -/
def SentLayout (C : Crypto) (x : List Byte × List SealCall) : Prop :=
  sesType x.1 = SESSION_DATA → ∃ call ∈ x.2, Image C 68 call x.1

/-- A data packet that was delivered opened in that layout. -/
def DeliveredLayout (C : Crypto) (d : Delivery) : Prop :=
  sesType d.packet = SESSION_DATA → ∃ n, nonce (u64Of (d.packet.drop 52)) = .ok n ∧
    ∃ (data : List Byte) (tag : Bytes 16), d.packet.drop 68 = data ++ tag.val ∧
      C.aeadDecrypt d.key n ((d.packet.take 68).set 5 0) data tag = some d.plaintext

/-- All data of the trace is in the layout of profile 3. -/
structure Profile3Layout (C : Crypto) (t : Trace μ) : Prop where
  sent : ∀ x ∈ t.sent, SentLayout C x
  delivered : ∀ d ∈ t.delivered, DeliveredLayout C d

/-- An effect that sends no data and delivers none. -/
structure Quiet (e : Effect μ) : Prop where
  sent : ∀ x ∈ e.sent, sesType x.1 ≠ SESSION_DATA
  delivered : e.delivered = none

variable {t : Trace μ} {e : Effect μ}

theorem profile3Layout_record (ht : t.Profile3Layout C) (he : Quiet e) :
    (t.record e).Profile3Layout C := by
  constructor
  · intro x hx
    rcases List.mem_append.mp hx with hx | hx
    · intro htyp
      exact absurd htyp (he.sent x (Option.mem_toList.mp hx))
    · exact ht.sent x hx
  · intro d hd
    rcases List.mem_append.mp hd with hd | hd
    · rw [he.delivered] at hd
      cases hd
    · exact ht.delivered d hd

variable {init : Trace μ → Prop} {ok : Trace μ → α → Prop} {effect : μ → α → Effect μ} {I : μ → Prop}

/-- Runs whose every action is quiet and keeps an invariant of the end. -/
theorem profile3Layout_reach (h₀ : ∀ t, init t → I t.machine ∧ t.Profile3Layout C)
    (hs : ∀ t a, I t.machine → ok t a →
      I (effect t.machine a).machine ∧ Quiet (effect t.machine a))
    (h : Machine.Reach init (fun t a => t.record (effect t.machine a)) ok t) :
    t.Profile3Layout C := by
  have hinv : I t.machine ∧ t.Profile3Layout C := by
    refine h.invariant (I := fun t => I t.machine ∧ t.Profile3Layout C) h₀ ?_
    intro t a ⟨hi, ht⟩ ha
    obtain ⟨hi', hq⟩ := hs t a hi ha
    exact ⟨hi', profile3Layout_record ht hq⟩
  exact hinv.2

theorem profile3Layout_new (machine : μ) : (new machine).Profile3Layout C :=
  ⟨fun _ h => (List.not_mem_nil h).elim, fun _ h => (List.not_mem_nil h).elim⟩

end Trace

/-- A datagram that a session takes in the generic layout, under the locations in effect. -/
def GenericData (C : Crypto) (config : HandshakeConfig) (scid : U64) (s : DirectionalSession)
    (peerLoc localLoc : Bytes 16) (packet : List Byte) : Prop :=
  ∃ header payload message plaintext token,
    Header.unpackWithBudget packet config.budget = .ok (header, payload) ∧ header.scid = scid ∧
    validateDataHeader header config.profile peerLoc localLoc [] [] = .ok () ∧
    SessionMessage.decode payload header.profile config.budget = .ok message ∧
    message.typ = SESSION_DATA ∧ Opens C s 60 packet plaintext token

/-- A preview whose counter a session would still take. -/
def Takes (scid : U64) (s : DirectionalSession) (p : DataPreview) : Prop :=
  p.header.scid = p.scid ∧ p.scid = scid ∧ s.receiveOwner = p.commit.receiveOwner ∧
    (s.replay.commit p.commit.commit).2 = .ok ()

/-- No send of this plaintext gets a packet out of the session. -/
def Unsendable (config : HandshakeConfig) (s : DirectionalSession) (plaintext : List Byte) : Prop :=
  config.budget < plaintext.length + 76 ∨ ¬ s.canReserve

theorem encrypt_unsendable {config : HandshakeConfig} {s : DirectionalSession} {header : Header}
    {typ : Byte} (h : Unsendable config s plaintext) :
    (s.encrypt C header typ plaintext config.budget).2.2 ≠ .ok packet := by
  intro hok
  obtain ⟨hroom, hreserve, -⟩ := encrypt_eq_ok hok
  rcases h with h | h
  · omega
  · exact h hreserve

theorem previewData_generic {config : HandshakeConfig} {s : DirectionalSession} {header : Header}
    {payload : List Byte} {peerLoc localLoc : Bytes 16} {p : DataPreview}
    (hu : Header.unpackWithBudget packet config.budget = .ok (header, payload))
    (h : previewData C config s header payload packet peerLoc localLoc [] [] = .ok p) :
    GenericData C config header.scid s peerLoc localLoc packet := by
  simp only [previewData, Outcome.bind_eq_ok, Outcome.ite_error_eq_ok] at h
  obtain ⟨⟨⟩, hheader, message, hm, htyp, commit, hcommit, -⟩ := h
  exact ⟨header, payload, message, commit.plaintext, commit.commit, hu, rfl, hheader, hm,
    not_not.mp htyp, (preview_opens hcommit).1⟩

theorem commit_takes {s : DirectionalSession} {p : ProtectedPreview}
    (h : (s.commit p).2 = .ok plaintext) :
    s.receiveOwner = p.receiveOwner ∧ (s.replay.commit p.commit).2 = .ok () := by
  unfold DirectionalSession.commit at h
  split at h
  · cases h
  · rename_i howner
    refine ⟨not_not.mp howner, ?_⟩
    rcases hr : s.replay.commit p.commit with ⟨replay, e | ⟨⟩⟩
    · rw [hr] at h
      cases h
    · rfl

namespace ClientMachine

variable {m m' : ClientMachine}

inductive Action
  | call (call : ClientCall)
  | preview (packet : List Byte) (sources destinations : List (Bytes 16))
  | commit (packet : List Byte) (preview : DataPreview)

/-- The packet a call returns, with the calls of `seal` it made. -/
def output (C : Crypto) (m : ClientMachine) : ClientCall → List SealCall × Option (List Byte)
  | .start scid material nowMs => ([], (m.start C scid material nowMs).2.toOption)
  | .retry nowMs => ([], (m.retry nowMs).2.toOption)
  | .receiveVerify packet nowMs => ([], (m.receiveVerify C packet nowMs).2.toOption)
  | .receiveAck packet nowMs owner =>
    let r := (m.receiveAck C packet nowMs owner).2
    (r.1, r.2.toOption)
  | .sendData plaintext source destination =>
    let r := (m.sendDataWithLocs C plaintext source destination).2
    (r.1, r.2.toOption)
  | .close code =>
    let r := (m.close C code).2
    (r.1, r.2.toOption)
  | _ => ([], none)

def delivery (m : ClientMachine) (packet : List Byte) (r : Except SessionError (List Byte)) :
    Option Delivery := do
  let s ← m.session?
  let plaintext ← r.toOption
  some ⟨s.receiveKey, packet, plaintext⟩

def effect (C : Crypto) (m : ClientMachine) : Action → Effect ClientMachine
  | .call call => {
      machine := m.step C call
      issued := none
      sent := (m.output C call).2.map fun packet => (packet, (m.output C call).1)
      delivered := match call with
        | .receiveData packet => m.delivery packet (m.receiveData C packet).2
        | _ => none }
  | .preview packet sources destinations => {
      machine := m
      issued := (m.previewDataWithLocs C packet sources destinations).toOption.map
        fun preview => (packet, preview)
      sent := none
      delivered := none }
  | .commit packet preview => {
      machine := (m.commitData preview).1
      issued := none
      sent := none
      delivered := m.delivery packet (m.commitData preview).2 }

/-- Commits are of previews this client issued, or of sessions elsewhere. -/
def Permitted (t : Trace ClientMachine) : Action → Prop
  | .call (.commitData _) => False
  | .commit packet preview => (packet, preview) ∈ t.issued ∨
      ∀ s ∈ t.machine.session?, preview.commit.receiveOwner ≠ s.receiveOwner
  | _ => True

/-- The action gets no packet out of the generic send path and no plaintext out of the generic
receive path. -/
def Safe (C : Crypto) (m : ClientMachine) : Action → Prop
  | .call (.sendData plaintext _ _) => ∀ s ∈ m.session?, Unsendable m.config s plaintext
  | .call (.receiveData packet) => ∀ e, m.state = .established e →
      ¬ GenericData C m.config e.scid e.session m.effectivePeerLoc m.effectiveLocalLoc packet
  | .commit _ preview => ∀ e, m.state = .established e → ¬ Takes e.scid e.session preview
  | _ => True

/-- The packet that `retry` sends again. -/
def cached? (m : ClientMachine) : Option (List Byte) :=
  match m.state with
  | .cookieWait wait => some wait.opening
  | .authWait wait => some wait.openAuth
  | .established e => some e.cachedAccept
  | _ => none

def CacheQuiet (m : ClientMachine) : Prop := ∀ p ∈ m.cached?, sesType p ≠ SESSION_DATA

theorem CacheQuiet.of_state (h : m.CacheQuiet) (hs : m'.state = m.state) : m'.CacheQuiet := by
  unfold CacheQuiet cached? at h ⊢
  rwa [hs]

theorem CacheQuiet.without (h : m.cached? = none) : m.CacheQuiet := by
  intro p hp
  rw [h] at hp
  cases hp

theorem CacheQuiet.holds (h : m.cached? = some packet) (ht : sesType packet ≠ SESSION_DATA) :
    m.CacheQuiet := by
  intro p hp
  rw [h] at hp
  obtain rfl := Option.some.inj hp
  exact ht

theorem CacheQuiet.session {e e' : ClientSession} (h : m.CacheQuiet)
    (hs : m.state = .established e) (hs' : m'.state = .established e')
    (he : e'.cachedAccept = e.cachedAccept) : m'.CacheQuiet := by
  have hcached : m'.cached? = m.cached? := by
    simp only [cached?, hs, hs', he]
  unfold CacheQuiet at h ⊢
  rwa [hcached]

theorem releaseCookieWaitIfExpired_quiet (h : m.CacheQuiet) (nowMs : U64) :
    (m.releaseCookieWaitIfExpired nowMs).1.CacheQuiet := by
  unfold releaseCookieWaitIfExpired
  split
  · split
    · exact .without rfl
    · exact h
  · exact h

theorem retry_quiet (h : m.CacheQuiet) {nowMs : U64} (hr : (m.retry nowMs).2 = .ok packet) :
    sesType packet ≠ SESSION_DATA := by
  have hq := releaseCookieWaitIfExpired_quiet h nowMs
  unfold retry at hr
  split at hr
  · cases hr
  · rename_i m' hm
    rw [hm] at hq
    apply hq
    dsimp only at hr
    split at hr
    · rename_i wait hstate
      simp only [Outcome.ite_ok_eq_ok, Except.ok.injEq] at hr
      simp [cached?, hstate, hr.2]
    · rename_i wait hstate
      simp only [Outcome.ite_ok_eq_ok, Except.ok.injEq] at hr
      simp [cached?, hstate, hr.2]
    · rename_i e hstate
      simp only [Except.ok.injEq] at hr
      simp [cached?, hstate, hr]
    · cases hr

theorem start_quiet (h : m.CacheQuiet) (scid : U64) (material : ClientMaterial) (nowMs : U64) :
    (m.start C scid material nowMs).1.CacheQuiet ∧
      ∀ p, (m.start C scid material nowMs).2 = .ok p → sesType p ≠ SESSION_DATA := by
  unfold start
  split
  · split
    · exact ⟨h, fun p hp => by cases hp⟩
    · dsimp only
      split
      · exact ⟨h, fun p hp => by cases hp⟩
      · rename_i packet hpacket
        have htyp : sesType packet ≠ SESSION_DATA := by
          rw [handshakePacket_type hpacket]
          decide
        refine ⟨.holds rfl htyp, ?_⟩
        intro p hp
        obtain rfl := Except.ok.inj hp
        exact htyp
  · exact ⟨h, fun p hp => by cases hp⟩

theorem buildOpenAuth_type {scid : U64} {material : ClientMaterial} {boot : Bytes 16}
    {cookie : Bytes 32} (h : m.buildOpenAuth C scid material boot cookie = .ok packet) :
    sesType packet ≠ SESSION_DATA := by
  simp only [buildOpenAuth, Outcome.bind_eq_ok] at h
  obtain ⟨t0, -, hpacket⟩ := h
  rw [handshakePacket_type hpacket]
  decide

theorem receiveVerify_quiet (h : m.CacheQuiet) (packet : List Byte) (nowMs : U64) :
    (m.receiveVerify C packet nowMs).1.CacheQuiet ∧
      ∀ p, (m.receiveVerify C packet nowMs).2 = .ok p → sesType p ≠ SESSION_DATA := by
  have hq := releaseCookieWaitIfExpired_quiet h nowMs
  unfold receiveVerify
  split
  · rename_i m' hm
    rw [hm] at hq
    exact ⟨hq, fun p hp => by cases hp⟩
  · rename_i m' hm
    rw [hm] at hq
    dsimp only at hq ⊢
    split
    · split
      · split
        · rename_i hok
          simp only [Outcome.bind_eq_ok, Except.ok.injEq, Prod.mk.injEq] at hok
          obtain ⟨r, -, auth, hauth, rfl, rfl, rfl, rfl⟩ := hok
          have htyp := buildOpenAuth_type hauth
          refine ⟨.holds rfl htyp, ?_⟩
          intro p hp
          obtain rfl := Except.ok.inj hp
          exact htyp
        · exact ⟨.without rfl, fun p hp => by cases hp⟩
      · exact ⟨hq, fun p hp => by cases hp⟩
    · rename_i wait hstate
      split
      · refine ⟨hq, ?_⟩
        intro p hp
        simp only [Outcome.bind_eq_ok, Outcome.ite_error_eq_ok, Except.ok.injEq] at hp
        obtain ⟨r, -, -, rfl⟩ := hp
        exact hq _ (by simp [cached?, hstate])
      · exact ⟨hq, fun p hp => by cases hp⟩
    · exact ⟨hq, fun p hp => by cases hp⟩

theorem receiveAck_quiet (h : m.CacheQuiet) (packet : List Byte) (nowMs : U64) (owner : ℕ) :
    (m.receiveAck C packet nowMs owner).1.CacheQuiet ∧
      ∀ p, (m.receiveAck C packet nowMs owner).2.2 = .ok p → sesType p ≠ SESSION_DATA := by
  unfold receiveAck
  split
  · split
    · exact ⟨.without rfl, fun p hp => by cases hp⟩
    · split
      · exact ⟨h, fun p hp => by cases hp⟩
      · dsimp only
        split
        · exact ⟨h, fun p hp => by cases hp⟩
        · rename_i accept haccept
          obtain ⟨-, -, htyp⟩ := encrypt_eq_ok haccept
          have hne : sesType accept ≠ SESSION_DATA := by
            rw [htyp]
            decide
          refine ⟨.holds rfl hne, ?_⟩
          intro p hp
          obtain rfl := Except.ok.inj hp
          exact hne
  · rename_i e hstate
    refine ⟨h, ?_⟩
    intro p hp
    obtain rfl := Except.ok.inj hp
    exact h _ (by simp [cached?, hstate])
  · exact ⟨h, fun p hp => by cases hp⟩

theorem sendDataWithLocs_quiet (h : m.CacheQuiet) (plaintext : List Byte)
    (source destination : Bytes 16) :
    (m.sendDataWithLocs C plaintext source destination).1.CacheQuiet := by
  unfold sendDataWithLocs
  split
  · rename_i e hstate
    dsimp only
    split
    · exact .without rfl
    · exact h.session hstate rfl rfl
  · exact h

theorem close_quiet (h : m.CacheQuiet) (code : U16) :
    (m.close C code).1.CacheQuiet ∧
      ∀ p, (m.close C code).2.2 = .ok p → sesType p ≠ SESSION_DATA := by
  unfold close
  split
  · rename_i e hstate
    dsimp only
    split
    · rename_i packet hpacket
      refine ⟨.without rfl, ?_⟩
      intro p hp
      obtain rfl := Except.ok.inj hp
      obtain ⟨-, -, htyp⟩ := encrypt_eq_ok hpacket
      rw [htyp]
      decide
    · exact ⟨.without rfl, fun p hp => by cases hp⟩
    · exact ⟨h.session hstate rfl rfl, fun p hp => by cases hp⟩
  · exact ⟨h, fun p hp => by cases hp⟩

theorem commitData_quiet (h : m.CacheQuiet) (p : DataPreview) :
    (m.commitData p).1.CacheQuiet := by
  unfold commitData
  split
  · exact h
  · split
    · rename_i e hstate
      split
      · exact h.session hstate rfl rfl
      · exact h
    · exact h

theorem receiveClose_quiet (h : m.CacheQuiet) (packet : List Byte) :
    (m.receiveClose C packet).1.CacheQuiet := by
  unfold receiveClose
  split
  · rename_i e hstate
    split
    · exact h
    · split
      · exact h
      · split
        · exact h.session hstate rfl rfl
        · split
          · exact h.session hstate rfl rfl
          · exact .without rfl
  · exact h

theorem step_quiet (h : m.CacheQuiet) (call : ClientCall) : (m.step C call).CacheQuiet := by
  cases call with
  | start scid material nowMs => exact (start_quiet h scid material nowMs).1
  | retry nowMs =>
    have hq := releaseCookieWaitIfExpired_quiet h nowMs
    change (m.retry nowMs).1.CacheQuiet
    unfold retry
    split
    · rename_i m' hm
      rwa [hm] at hq
    · rename_i m' hm
      rwa [hm] at hq
  | expire nowMs =>
    change (m.expire nowMs).CacheQuiet
    unfold expire
    split
    · split
      · exact .without rfl
      · exact h
    · split
      · exact .without rfl
      · exact h
    · exact h
  | receiveVerify packet nowMs => exact (receiveVerify_quiet h packet nowMs).1
  | receiveAck packet nowMs owner => exact (receiveAck_quiet h packet nowMs owner).1
  | sendData plaintext source destination => exact sendDataWithLocs_quiet h _ _ _
  | close code => exact (close_quiet h code).1
  | receiveData packet =>
    change (m.receiveData C packet).1.CacheQuiet
    unfold receiveData
    split
    · exact h
    · exact commitData_quiet h _
  | commitData preview => exact commitData_quiet h preview
  | commitProtectedReplay proof =>
    change (m.commitProtectedReplay proof).1.CacheQuiet
    unfold commitProtectedReplay
    split
    · rename_i e hstate
      exact h.session hstate rfl rfl
    · exact h
  | receiveClose packet => exact receiveClose_quiet h packet
  | takeProfile3Bootstrap =>
    change m.takeProfile3Bootstrap.1.CacheQuiet
    unfold takeProfile3Bootstrap
    split
    · exact h
    · split
      · exact .without rfl
      · exact h
  | promoteLocalLoc => exact h.of_state rfl
  | promotePeerLoc => exact h.of_state rfl

theorem sendDataWithLocs_unsent {source destination : Bytes 16}
    (hsafe : ∀ s ∈ m.session?, Unsendable m.config s plaintext) :
    (m.sendDataWithLocs C plaintext source destination).2.2 ≠ .ok packet := by
  unfold sendDataWithLocs
  split
  · rename_i e hstate
    exact encrypt_unsendable (hsafe e.session (by simp [session?, hstate]))
  · intro h
    cases h

theorem output_quiet (h : m.CacheQuiet) {call : ClientCall} (hsafe : m.Safe C (.call call))
    (hp : (m.output C call).2 = some packet) : sesType packet ≠ SESSION_DATA := by
  cases call with
  | start scid material nowMs =>
    exact (start_quiet h scid material nowMs).2 packet (Outcome.toOption_eq_some.mp hp)
  | retry nowMs => exact retry_quiet h (Outcome.toOption_eq_some.mp hp)
  | receiveVerify packet' nowMs =>
    exact (receiveVerify_quiet h packet' nowMs).2 packet (Outcome.toOption_eq_some.mp hp)
  | receiveAck packet' nowMs owner =>
    exact (receiveAck_quiet h packet' nowMs owner).2 packet (Outcome.toOption_eq_some.mp hp)
  | sendData plaintext source destination =>
    exact absurd (Outcome.toOption_eq_some.mp hp) (sendDataWithLocs_unsent hsafe)
  | close code => exact (close_quiet h code).2 packet (Outcome.toOption_eq_some.mp hp)
  | _ => cases hp

theorem receiveData_refused (hsafe : m.Safe C (.call (.receiveData packet))) :
    (m.receiveData C packet).2 ≠ .ok plaintext := by
  intro h
  unfold receiveData at h
  split at h
  · cases h
  · rename_i p hp
    simp only [previewDataWithLocs, Outcome.bind_eq_ok, Outcome.mapError_eq_ok] at hp
    obtain ⟨⟨header, payload⟩, hu, hp⟩ := hp
    split at hp
    · rename_i e hstate
      simp only [Outcome.ite_ok_eq_ok] at hp
      obtain ⟨hscid, hp⟩ := hp
      apply hsafe e hstate
      rw [hscid]
      exact previewData_generic hu hp
    · cases hp

theorem commitData_refused {p : DataPreview} (hsafe : m.Safe C (.commit packet p)) :
    (m.commitData p).2 ≠ .ok plaintext := by
  intro h
  unfold commitData at h
  split at h
  · cases h
  · rename_i hheader
    split at h
    · rename_i e hstate
      split at h
      · rename_i hscid
        obtain ⟨howner, hreplay⟩ := commit_takes h
        exact hsafe e hstate ⟨not_not.mp hheader, hscid.symm, howner, hreplay⟩
      · cases h
    · cases h

theorem delivery_eq_none {r : Except SessionError (List Byte)}
    (h : ∀ plaintext, r ≠ .ok plaintext) : m.delivery packet r = none := by
  cases r with
  | ok plaintext => exact absurd rfl (h plaintext)
  | error e => cases hs : m.session? <;> simp [delivery, hs, Except.toOption]

theorem effect_quiet (h : m.CacheQuiet) {a : Action} (hsafe : m.Safe C a) :
    (m.effect C a).machine.CacheQuiet ∧ Trace.Quiet (m.effect C a) := by
  cases a with
  | call call =>
    refine ⟨step_quiet h call, ?_, ?_⟩
    · intro x hx
      obtain ⟨packet, hp, rfl⟩ := Option.map_eq_some_iff.mp hx
      exact output_quiet h hsafe hp
    · cases call with
      | receiveData packet => exact delivery_eq_none fun _ => receiveData_refused hsafe
      | _ => rfl
  | preview packet sources destinations => exact ⟨h, fun x hx => (by cases hx), rfl⟩
  | commit packet preview =>
    exact ⟨commitData_quiet h preview, fun x hx => (by cases hx),
      delivery_eq_none fun _ => commitData_refused hsafe⟩

/-- A new client of profile 3, with nothing sent or delivered. -/
def StartsProfile3 (C : Crypto) (t : Trace ClientMachine) : Prop :=
  ∃ m, Starts C m ∧ m.config.profile = 3 ∧ t = .new m

abbrev TraceReach (C : Crypto) (ok : Trace ClientMachine → Action → Prop)
    (t : Trace ClientMachine) : Prop :=
  Machine.Reach (StartsProfile3 C) (fun t a => t.record (t.machine.effect C a)) ok t

theorem starts_cacheQuiet {t : Trace ClientMachine} (h : StartsProfile3 C t) :
    t.machine.CacheQuiet ∧ t.Profile3Layout C := by
  obtain ⟨m, ⟨config, signingKey, hnew⟩, -, rfl⟩ := h
  refine ⟨.without ?_, Trace.profile3Layout_new m⟩
  simp only [new, Outcome.bind_eq_ok, Outcome.ite_error_eq_ok, Except.ok.injEq] at hnew
  obtain ⟨⟨⟩, -, -, rfl⟩ := hnew
  rfl

end ClientMachine

end R8.Session
