import R8Protocol.Lib.Ledger
import R8Protocol.Session.Encodings
import R8Protocol.Session.Lifecycle
import R8Protocol.Session.Profile3

/-! The keys that each end of a session can seal with, and how its calls spend them. -/
namespace R8.Session

open FixedWidth Wire Ledger

variable {C : Crypto} {s s' : DirectionalSession} {call : SealCall} {plaintext : List Byte}

/-- The first counter that is refused. -/
abbrev counterLimit : ℕ := 2 ^ 64 - 1

/-- Calls of `seal` as uses of their keys, the newest in front. -/
def uses (calls : List SealCall) : List (Bytes 32 × ℕ) :=
  (calls.map fun c => (c.key, c.counter.val)).reverse

@[simp] theorem uses_nil : uses [] = [] := rfl

@[simp] theorem uses_append (calls calls' : List SealCall) :
    uses (calls ++ calls') = uses calls' ++ uses calls := by
  simp [uses]

/-- The sending key of slot one, as long as its schedule is kept. -/
def slotOne (C : Crypto) (schedule : Option (Bytes 32)) (transcriptHash : Bytes 32)
    (localRole peerRole : Byte) : List (Bytes 32 × ℕ) :=
  match schedule with
  | none => []
  | some prk =>
    match deriveKeyFromPrk C prk transcriptHash 3 localRole peerRole 1 with
    | .error _ => []
    | .ok key => [(key, 1)]

@[simp] theorem slotOne_none (C : Crypto) (hash : Bytes 32) (a b : Byte) :
    slotOne C none hash a b = [] := rfl

namespace DirectionalSession

def held (s : DirectionalSession) : List (Bytes 32 × ℕ) := [(s.sendKey, s.sendCounters.next.val)]

/-- The calls of `seal` that a call makes. -/
def sealed (C : Crypto) (s : DirectionalSession) : SessionCall → List SealCall
  | .encrypt header typ plaintext budget => (s.encrypt C header typ plaintext budget).2.1
  | .encryptProfile3Data header deliveryId plaintext budget =>
    (s.encryptProfile3Data C header deliveryId plaintext budget).2.1
  | _ => []

end DirectionalSession

theorem Advances.spends (h : Advances s s') : Spends counterLimit s.held s'.held [] := by
  unfold DirectionalSession.held
  rw [h.keys.1]
  exact .skip h.counter

theorem Seals.spends (h : Seals s s' call plaintext) :
    Spends counterLimit s.held s'.held (uses [call]) := by
  have hkey : s'.sendKey = s.sendKey := by rw [h.next]
  have hnext := h.next_val
  have hlt := s'.sendCounters.next.isLt
  have hpos : s.sendCounters.next.val ≠ 0 := fun hz => h.nonzero (Fin.ext hz)
  have hroom : s.sendCounters.next.val < counterLimit := by
    unfold counterLimit
    omega
  simp only [DirectionalSession.held, uses, hkey, h.key, h.counter, List.map_cons, List.map_nil,
    List.reverse_singleton]
  exact .use (by omega) hroom (by omega)

theorem encrypt_spends (C : Crypto) (s : DirectionalSession) (header : Header) (typ : Byte)
    (plaintext : List Byte) (budget : ℕ) :
    let r := s.encrypt C header typ plaintext budget
    Spends counterLimit s.held r.1.held (uses r.2.1) := by
  have hadv := encrypt_advances C s header typ plaintext budget
  rcases encrypt_cases C s header typ plaintext budget with
    ⟨hnone, -⟩ | ⟨call, packet, hcalls, hseals, -⟩
  · simp only [hnone]
    exact hadv.spends
  · simp only [hcalls]
    exact hseals.spends

theorem encryptProfile3Data_spends (C : Crypto) (s : DirectionalSession) (header : Header)
    (deliveryId : U64) (plaintext : List Byte) (budget : ℕ) :
    let r := s.encryptProfile3Data C header deliveryId plaintext budget
    Spends counterLimit s.held r.1.held (uses r.2.1) := by
  have hadv := encryptProfile3Data_advances C s header deliveryId plaintext budget
  rcases encryptProfile3Data_cases C s header deliveryId plaintext budget with
    ⟨hnone, -⟩ | ⟨call, packet, hcalls, hseals, -⟩
  · simp only [hnone]
    exact hadv.spends
  · simp only [hcalls]
    exact hseals.spends

/-- A session by itself spends its own key. -/
theorem DirectionalSession.step_spends (s : DirectionalSession) (call : SessionCall) :
    Spends counterLimit s.held (s.step C call).held (uses (s.sealed C call)) := by
  cases call with
  | encrypt header typ plaintext budget => exact encrypt_spends C s header typ plaintext budget
  | encryptProfile3Data header deliveryId plaintext budget =>
    exact encryptProfile3Data_spends C s header deliveryId plaintext budget
  | commit | decrypt | commitProtectedReplay | commitProfile3Data | commitProfile3Replay =>
    exact (s.step_advances _).spends

/-- What a session holds in the hands of an end with this configuration. -/
def HandshakeConfig.held (C : Crypto) (config : HandshakeConfig) (s : DirectionalSession)
    (schedule : Option (Bytes 32)) : List (Bytes 32 × ℕ) :=
  s.held ++ slotOne C schedule s.transcriptHash config.localId.role config.peer.role

section Config

variable (config : HandshakeConfig) (schedule : Option (Bytes 32))

theorem Advances.spends_config (h : Advances s s') :
    Spends counterLimit (config.held C s schedule) (config.held C s' schedule) [] := by
  unfold HandshakeConfig.held
  rw [h.keys.2.2.1]
  exact h.spends.frame _

theorem encrypt_spends_config (s : DirectionalSession) (header : Header) (typ : Byte)
    (plaintext : List Byte) (budget : ℕ) :
    let r := s.encrypt C header typ plaintext budget
    Spends counterLimit (config.held C s schedule) (config.held C r.1 schedule) (uses r.2.1) := by
  dsimp only
  unfold HandshakeConfig.held
  rw [(encrypt_advances C s header typ plaintext budget).keys.2.2.1]
  exact (encrypt_spends C s header typ plaintext budget).frame _

end Config

inductive Party
  | client
  | server
  deriving DecidableEq, Repr

namespace Handshake

variable {h : Handshake} {p : Party} {localRole peerRole : Byte} {budget owner : ℕ}

/-- The role an end has, and that of the other one. -/
def roles (h : Handshake) : Party → Byte × Byte
  | .client => (h.context.client.role, h.context.server.role)
  | .server => (h.context.server.role, h.context.client.role)

/-- What the keys of an end are expanded from, the one of slot zero and that of slot one. -/
def infos (C : Crypto) (h : Handshake) (p : Party) : List (List Byte) :=
  [keyInfo (h.hash C) h.context.profile (h.roles p).1 (h.roles p).2 0,
    keyInfo (h.hash C) 3 (h.roles p).1 (h.roles p).2 1]

/-- What all four keys are expanded from. -/
def allInfos (C : Crypto) (h : Handshake) : List (List Byte) :=
  h.infos C .client ++ h.infos C .server

/-- The keys an end may come to send with, before their first use. -/
def opens (C : Crypto) (h : Handshake) (p : Party) : List (Bytes 32 × ℕ) :=
  (h.infos C p).map fun info => (C.hkdfExpand (h.schedule C) info, 1)

theorem keyInfo_ends {hash hash' : Bytes 32} {profile profile' a a' b b' slot slot' : Byte}
    (h : keyInfo hash profile a b slot = keyInfo hash' profile' a' b' slot') :
    a = a' ∧ b = b' ∧ slot = slot' := by
  simpa using (List.append_inj' h rfl).2

/-- The four differ in a role or in the slot. -/
theorem allInfos_nodup (C : Crypto) (h : Handshake)
    (hne : h.context.client.role ≠ h.context.server.role) : (h.allInfos C).Nodup := by
  have hslot {hash hash' : Bytes 32} {profile profile' a a' b b' : Byte} :
      keyInfo hash profile a b 0 ≠ keyInfo hash' profile' a' b' 1 :=
    fun heq => absurd (keyInfo_ends heq).2.2 (by decide)
  have hrole {hash : Bytes 32} {profile slot : Byte} :
      keyInfo hash profile h.context.client.role h.context.server.role slot ≠
        keyInfo hash profile h.context.server.role h.context.client.role slot :=
    fun heq => hne (keyInfo_ends heq).1
  simp [allInfos, infos, roles, hslot, hslot.symm, hrole]

theorem infos_subset (C : Crypto) (h : Handshake) (p : Party) :
    ∀ info ∈ h.infos C p, info ∈ h.allInfos C := by
  intro info hinfo
  cases p with
  | client => exact List.mem_append_left _ hinfo
  | server => exact List.mem_append_right _ hinfo

/-- The signed transcript, which is hashed. -/
def transcript (h : Handshake) : List Byte :=
  h.context.bytes ++ h.clientSignature.val ++ h.serverSignature.val

/-- Handshakes of the same transcript have the same context and the same keys. -/
theorem transcript_injective {h h' : Handshake} (heq : h.transcript = h'.transcript)
    (ht : transcriptT0 C h.context = .ok h.context.bytes)
    (ht' : transcriptT0 C h'.context = .ok h'.context.bytes) :
    h.context = h'.context ∧ ∀ p, h.infos C p = h'.infos C p := by
  have hhash : h.hash C = h'.hash C := congrArg C.sha256 heq
  have hsplit : h.context.bytes ++ h.clientSignature.val ++ h.serverSignature.val =
      h'.context.bytes ++ h'.clientSignature.val ++ h'.serverSignature.val := heq
  obtain ⟨hfront, -⟩ := List.append_inj' hsplit (by simp)
  obtain ⟨hbytes, -⟩ := List.append_inj' hfront (by simp)
  rw [← hbytes] at ht'
  have hcontext := transcriptT0_injective ht ht'
  refine ⟨hcontext, fun p => ?_⟩
  cases p <;> simp [infos, roles, hhash, hcontext]

theorem deriveKeyFromPrk_eq_ok {prk hash key : Bytes 32} {profile a b slot : Byte}
    (h : deriveKeyFromPrk C prk hash profile a b slot = .ok key) :
    key = C.hkdfExpand prk (keyInfo hash profile a b slot) := by
  simp only [deriveKeyFromPrk, Outcome.ite_error_eq_ok, Except.ok.injEq] at h
  exact h.2.symm

theorem slotOne_sublist (C : Crypto) (prk hash : Bytes 32) (a b : Byte) :
    (slotOne C (some prk) hash a b).Sublist [(C.hkdfExpand prk (keyInfo hash 3 a b 1), 1)] := by
  unfold slotOne
  dsimp only
  split
  · exact List.nil_sublist _
  · rename_i key hkey
    rw [deriveKeyFromPrk_eq_ok hkey]

/-- A new session, with its schedule or without, holds keys of the handshake. -/
theorem opens_held {config : HandshakeConfig} {schedule : Option (Bytes 32)}
    (hs : h.session C config.localId.role config.peer.role budget owner = .ok s)
    (hroles : h.roles p = (config.localId.role, config.peer.role))
    (hschedule : ∀ prk ∈ schedule, prk = h.schedule C) :
    (config.held C s schedule).Sublist (h.opens C p) := by
  simp only [session, Outcome.bind_eq_ok, Except.ok.injEq] at hs
  obtain ⟨k₁, hk₁, k₂, -, rfl⟩ := hs
  simp only [HandshakeConfig.held, opens, infos, hroles, List.map_cons, List.map_nil]
  have hzero : DirectionalSession.held (.new owner k₁ k₂ (h.hash C) budget) =
      [(C.hkdfExpand (h.schedule C) (keyInfo (h.hash C) h.context.profile config.localId.role
        config.peer.role 0), 1)] := by
    rw [← deriveKeyFromPrk_eq_ok hk₁]
    rfl
  rw [hzero]
  refine List.Sublist.cons_cons _ ?_
  cases schedule with
  | none => exact List.nil_sublist _
  | some prk =>
    rw [hschedule prk rfl]
    exact slotOne_sublist C _ _ _ _

end Handshake

/-- What is assumed of the handshakes that the two ends complete: a server is given a nonce once, a
schedule comes from one signed transcript, expansion is injective for a schedule, and the keys of
different schedules have nothing to do with each other. -/
structure FreshKeys (C : Crypto) (completed : List (Party × Handshake)) : Prop where
  nonces : ((completed.filter (·.1 = .server)).map (·.2.context.serverNonce)).Nodup
  transcripts : ∀ x ∈ completed, ∀ y ∈ completed,
    x.2.schedule C = y.2.schedule C → x.2.transcript = y.2.transcript
  expand : ∀ x ∈ completed, ∀ info ∈ x.2.allInfos C, ∀ info' ∈ x.2.allInfos C,
    C.hkdfExpand (x.2.schedule C) info = C.hkdfExpand (x.2.schedule C) info' → info = info'
  independent : ∀ x ∈ completed, ∀ y ∈ completed, x.2.schedule C ≠ y.2.schedule C →
    ∀ info ∈ x.2.infos C x.1, ∀ info' ∈ y.2.infos C y.1,
      C.hkdfExpand (x.2.schedule C) info ≠ C.hkdfExpand (y.2.schedule C) info'

instance decidableFreshKeys (C : Crypto) (completed : List (Party × Handshake)) :
    Decidable (FreshKeys C completed) :=
  decidable_of_iff (_ ∧ _ ∧ _ ∧ _)
    ⟨fun h => ⟨h.1, h.2.1, h.2.2.1, h.2.2.2⟩,
      fun h => ⟨h.nonces, h.transcripts, h.expand, h.independent⟩⟩

/-- The keys that the ends may have come to send with. -/
def granted (C : Crypto) (completed : List (Party × Handshake)) : List (Bytes 32) :=
  completed.flatMap fun x => (x.2.opens C x.1).map Prod.fst

/-- A handshake whose transcript has two roles and says whose it is. -/
structure Handshake.Formed (C : Crypto) (h : Handshake) : Prop where
  transcript : transcriptT0 C h.context = .ok h.context.bytes
  roles : h.context.client.role ≠ h.context.server.role

namespace FreshKeys

variable {x : Party × Handshake} {completed : List (Party × Handshake)}

theorem tail (h : FreshKeys C (x :: completed)) : FreshKeys C completed where
  nonces := h.nonces.sublist (((List.sublist_cons_self _ _).filter _).map _)
  transcripts y hy z hz := h.transcripts y (.tail _ hy) z (.tail _ hz)
  expand y hy := h.expand y (.tail _ hy)
  independent y hy z hz := h.independent y (.tail _ hy) z (.tail _ hz)

theorem opens_nodup (h : FreshKeys C (x :: completed)) (hx : x.2.Formed C) :
    ((x.2.opens C x.1).map Prod.fst).Nodup := by
  have hinfos : (x.2.infos C x.1).Nodup := by
    have hall := List.nodup_append.mp (x.2.allInfos_nodup C hx.roles)
    cases x.1 with
    | client => exact hall.1
    | server => exact hall.2.1
  rw [Handshake.opens, List.map_map]
  refine hinfos.map_on ?_
  intro info hinfo info' hinfo' heq
  exact h.expand x List.mem_cons_self info (x.2.infos_subset C x.1 info hinfo) info'
    (x.2.infos_subset C x.1 info' hinfo') heq

/-- No key of a new handshake was there before. -/
theorem opens_new (h : FreshKeys C (x :: completed)) (hx : x.2.Formed C)
    (hc : ∀ y ∈ completed, y.2.Formed C)
    (honce : x.1 = .client → ∀ y ∈ completed, y.1 ≠ .client) :
    ∀ k ∈ x.2.opens C x.1, k.1 ∉ granted C completed := by
  intro k hk hgranted
  obtain ⟨y, hy, hkey⟩ := List.mem_flatMap.mp hgranted
  obtain ⟨info, hinfo, rfl⟩ := List.mem_map.mp hk
  obtain ⟨k', hk', heq⟩ := List.mem_map.mp hkey
  obtain ⟨info', hinfo', rfl⟩ := List.mem_map.mp hk'
  dsimp only at heq
  by_cases hs : x.2.schedule C = y.2.schedule C
  · have htranscript := h.transcripts x List.mem_cons_self y (.tail _ hy) hs
    obtain ⟨hcontext, hinfos⟩ := Handshake.transcript_injective htranscript hx.transcript
      (hc y hy).transcript
    rw [← hs] at heq
    rw [← hinfos y.1] at hinfo'
    have hsame := h.expand x List.mem_cons_self info' (x.2.infos_subset C y.1 info' hinfo') info
      (x.2.infos_subset C x.1 info hinfo) heq
    have hall := (List.nodup_append.mp (x.2.allInfos_nodup C hx.roles)).2.2
    -- the two ends expand different strings, and one end has not been here before
    cases hp : x.1 with
    | client =>
      cases hq : y.1 with
      | client => exact honce hp y hy hq
      | server =>
        rw [hp] at hinfo
        rw [hq] at hinfo'
        exact hall info hinfo info' hinfo' hsame.symm
    | server =>
      cases hq : y.1 with
      | client =>
        rw [hp] at hinfo
        rw [hq] at hinfo'
        exact hall info' hinfo' info hinfo hsame
      | server =>
        have hnonces := h.nonces
        rw [List.filter_cons_of_pos (by simpa using hp), List.map_cons] at hnonces
        refine (List.nodup_cons.mp hnonces).1 (List.mem_map.mpr ⟨y, ?_, by rw [hcontext]⟩)
        exact List.mem_filter.mpr ⟨hy, by simpa using hq⟩
  · exact h.independent x List.mem_cons_self y (.tail _ hy) hs info hinfo info' hinfo' heq.symm

end FreshKeys

/-- What a bootstrap hands on. -/
def Profile3Bootstrap.held (C : Crypto) (b : Profile3Bootstrap) : List (Bytes 32 × ℕ) :=
  b.slot0.toList.flatMap DirectionalSession.held ++
    slotOne C b.schedule b.transcriptHash b.localRole b.peerRole

namespace Profile3Bootstrap

/-- A slot that is taken is held by whoever took it, and by nobody else. -/
theorem takeSlot0_spends (b : Profile3Bootstrap) :
    Spends counterLimit (b.held C)
      (b.takeSlot0.2.toOption.toList.flatMap DirectionalSession.held ++ b.takeSlot0.1.held C)
      [] := by
  unfold takeSlot0
  split
  · exact .refl _
  · rename_i session hslot
    simp only [held, hslot, Except.toOption, Option.toList_some, List.flatMap_singleton,
      Option.toList_none, List.flatMap_nil, List.nil_append]
    exact .refl _

theorem takeSlot1AfterAdmission_spends (b : Profile3Bootstrap) (owner : ℕ) :
    Spends counterLimit (b.held C)
      ((b.takeSlot1AfterAdmission C owner).2.toOption.toList.flatMap DirectionalSession.held ++
        (b.takeSlot1AfterAdmission C owner).1.held C) [] := by
  unfold takeSlot1AfterAdmission
  split
  · exact .refl _
  · rename_i schedule hs
    have hdrop : Spends counterLimit (b.held C)
        (held C { b with schedule := none }) [] := by
      simp only [held, slotOne_none, List.append_nil]
      exact .drop (List.sublist_append_left _ _).subperm
    cases hkey : deriveKeyFromPrk C schedule b.transcriptHash 3 b.localRole b.peerRole 1 with
    | error e => exact hdrop
    | ok k₁ =>
      cases deriveKeyFromPrk C schedule b.transcriptHash 3 b.peerRole b.localRole 1 with
      | error e => exact hdrop
      | ok k₂ =>
        have hone : slotOne C b.schedule b.transcriptHash b.localRole b.peerRole = [(k₁, 1)] := by
          simp only [slotOne, hs, hkey]
        simp only [held, hone, bind, Except.bind, Except.toOption, Option.toList_some,
          List.flatMap_singleton, slotOne_none, List.append_nil]
        exact .drop List.perm_append_comm.subperm

theorem close_spends (b : Profile3Bootstrap) :
    Spends counterLimit (b.held C) (b.close.1.held C) [] := by
  unfold close
  split
  · exact .refl _
  · exact .nil _

end Profile3Bootstrap

namespace ClientMachine

variable {m m' : ClientMachine}

def held (C : Crypto) (m : ClientMachine) : List (Bytes 32 × ℕ) :=
  match m.state with
  | .established e => m.config.held C e.session e.schedule
  | _ => []

/-- The handshake that a call completes. -/
def handshake? (C : Crypto) (m : ClientMachine) : ClientCall → Option Handshake
  | .receiveAck packet nowMs owner =>
    match m.state, (m.receiveAck C packet nowMs owner).2.2 with
    | .authWait wait, .ok _ => (m.completeHandshake C wait packet).toOption
    | _, _ => none
  | _ => none

/-- The bootstrap that a call hands over. -/
def yields (m : ClientMachine) : ClientCall → Option Profile3Bootstrap
  | .takeProfile3Bootstrap => m.takeProfile3Bootstrap.2.toOption
  | _ => none

theorem held_established {e : ClientSession} (h : m.state = .established e) :
    m.held C = m.config.held C e.session e.schedule := by
  simp only [held, h]

theorem held_eq_nil (h : ∀ e, m.state ≠ .established e) : m.held C = [] := by
  unfold held
  split
  · exact absurd ‹_› (h _)
  · rfl

theorem Continues.spends (h : Continues m m') (hc : m'.config = m.config) :
    Spends counterLimit (m.held C) (m'.held C) [] := by
  cases hs : m'.state with
  | established e' =>
    obtain ⟨e, he, hschedule, hadv⟩ := h e' hs
    rw [held_established hs, held_established he, hc, hschedule]
    exact hadv.spends_config _ _
  | idle | cookieWait | authWait | released =>
    rw [held_eq_nil (m := m') (by simp [hs])]
    exact .nil _

/-- What the client makes of the other half of its handshake. -/
theorem completeHandshake_eq_ok {wait : AuthWait} {packet : List Byte} {h : Handshake}
    (hc : m.completeHandshake C wait packet = .ok h) :
    transcriptT0 C h.context = .ok h.context.bytes ∧ h.context.client = m.config.localId ∧
      h.context.server = m.config.peer := by
  simp only [completeHandshake, Outcome.bind_eq_ok, Except.ok.injEq] at hc
  obtain ⟨ack, -, t0, ht0, ⟨⟩, -, shared, -, signature, -, rfl⟩ := hc
  obtain rfl := ServerMachine.transcriptT0_eq_ok ht0
  exact ⟨ht0, rfl, rfl⟩

/-- An OPEN_ACK brings a session, or nothing is sealed and none is new. -/
theorem receiveAck_opens (hconfig : m.config.validate C = .ok ())
    (hscid : ∀ wait, m.state = .authWait wait → wait.scid ≠ 0) (packet : List Byte) (nowMs : U64)
    (owner : ℕ) :
    let r := m.receiveAck C packet nowMs owner
    (r.2.1 = [] ∧ Continues m r.1 ∧
      ∀ wait, m.state = .authWait wait → ∃ e, r.2.2 = .error e) ∨
    ∃ wait h session accept, m.state = .authWait wait ∧
      m.completeHandshake C wait packet = .ok h ∧
      h.session C m.config.localId.role m.config.peer.role m.config.budget owner = .ok session ∧
      let sent := session.encrypt C
        (sesHeader m.config.profile 1 wait.scid m.config.source m.config.destination)
        SESSION_ACCEPT (acceptText session.transcriptHash) m.config.budget
      r = ({ m with state := .established ⟨wait.scid, sent.1,
        if m.config.profile = 3 then some (h.schedule C) else none, accept⟩ }, sent.2.1,
        .ok accept) := by
  obtain ⟨-, -, -, -, hprofile, hmax, -⟩ := config_validate hconfig
  unfold receiveAck
  split
  · rename_i wait hm
    split
    · exact .inl ⟨rfl, .without nofun, fun _ _ => ⟨_, rfl⟩⟩
    · split
      · exact .inl ⟨rfl, .of_state rfl, fun _ _ => ⟨_, rfl⟩⟩
      · rename_i handshake session hok
        simp only [Outcome.bind_eq_ok, Except.ok.injEq, Prod.mk.injEq] at hok
        obtain ⟨h, hcomplete, session', hsession, rfl, rfl⟩ := hok
        dsimp only
        split
        · rename_i e he
          exact .inl ⟨encrypt_sesHeader_unsealed _ _ hprofile (hscid wait hm) hmax he,
            .of_state rfl, fun _ _ => ⟨e, rfl⟩⟩
        · rename_i accept haccept
          exact .inr ⟨wait, h, session', accept, hm, hcomplete, hsession, rfl⟩
  · rename_i e hm
    exact .inl ⟨rfl, .of_state rfl, by simp [hm]⟩
  · exact .inl ⟨rfl, .of_state rfl, fun _ _ => ⟨_, rfl⟩⟩

/-- A handshake is completed by an OPEN_ACK that brings a session. -/
theorem handshake?_completes (hconfig : m.config.validate C = .ok ())
    (hscid : ∀ wait, m.state = .authWait wait → wait.scid ≠ 0) {call : ClientCall} {h : Handshake}
    (hh : m.handshake? C call = some h) :
    ∃ packet nowMs owner wait session accept, call = .receiveAck packet nowMs owner ∧
      m.state = .authWait wait ∧ m.completeHandshake C wait packet = .ok h ∧
      h.session C m.config.localId.role m.config.peer.role m.config.budget owner = .ok session ∧
      let sent := session.encrypt C
        (sesHeader m.config.profile 1 wait.scid m.config.source m.config.destination)
        SESSION_ACCEPT (acceptText session.transcriptHash) m.config.budget
      m.receiveAck C packet nowMs owner = ({ m with state := .established ⟨wait.scid, sent.1,
        if m.config.profile = 3 then some (h.schedule C) else none, accept⟩ }, sent.2.1,
        .ok accept) := by
  cases call with
  | receiveAck packet nowMs owner =>
    rcases receiveAck_opens hconfig hscid packet nowMs owner with
      ⟨-, -, herror⟩ | ⟨wait, h', session, accept, hm, hcomplete, hsession, hr⟩
    · unfold handshake? at hh
      dsimp only at hh
      split at hh
      · rename_i wait accept hm hok
        obtain ⟨e, he⟩ := herror wait hm
        rw [he] at hok
        cases hok
      · cases hh
    · simp only [handshake?, hm, hr, hcomplete, Except.toOption, Option.some.injEq] at hh
      subst hh
      exact ⟨packet, nowMs, owner, wait, session, accept, rfl, hm, hcomplete, hsession, hr⟩
  | _ => cases hh

/-- A handshake is completed in AuthWait, and the client is established. -/
theorem handshake?_eq_some (hconfig : m.config.validate C = .ok ())
    (hscid : ∀ wait, m.state = .authWait wait → wait.scid ≠ 0) {call : ClientCall} {h : Handshake}
    (hh : m.handshake? C call = some h) :
    m.state.phase = .authWait ∧ (m.step C call).state.phase = .established ∧ h.Formed C := by
  obtain ⟨packet, nowMs, owner, wait, session, accept, rfl, hm, hcomplete, -, hr⟩ :=
    handshake?_completes hconfig hscid hh
  obtain ⟨htranscript, hclient, hserver⟩ := completeHandshake_eq_ok hcomplete
  refine ⟨by simp [hm, ClientState.phase], by simp [step, hr, ClientState.phase], htranscript, ?_⟩
  rw [hclient, hserver]
  exact (config_validate hconfig).2.2.1

/-- The keys come in with the OPEN_ACK that is accepted. -/
theorem receiveAck_spends (hconfig : m.config.validate C = .ok ())
    (hscid : ∀ wait, m.state = .authWait wait → wait.scid ≠ 0) (packet : List Byte) (nowMs : U64)
    (owner : ℕ) :
    Spends counterLimit
      ((m.handshake? C (.receiveAck packet nowMs owner)).toList.flatMap (·.opens C .client) ++
        m.held C)
      ((m.receiveAck C packet nowMs owner).1.held C)
      (uses (m.receiveAck C packet nowMs owner).2.1) := by
  rcases receiveAck_opens hconfig hscid packet nowMs owner with
    ⟨hnone, hcontinues, -⟩ | ⟨wait, h, session, accept, hm, hcomplete, hsession, hr⟩
  · have hstep := hcontinues.spends (C := C)
      (config_step (C := C) m (.receiveAck packet nowMs owner))
    rw [hnone]
    simpa using (Spends.drop (List.sublist_append_right _ _).subperm).trans hstep
  · obtain ⟨-, hclient, hserver⟩ := completeHandshake_eq_ok hcomplete
    have hnew : m.handshake? C (.receiveAck packet nowMs owner) = some h := by
      simp [handshake?, hm, hr, hcomplete, Except.toOption]
    have hopens : (m.config.held C session
        (if m.config.profile = 3 then some (h.schedule C) else none)).Sublist
        (h.opens C .client) := by
      refine Handshake.opens_held hsession ?_ ?_
      · simp [Handshake.roles, hclient, hserver]
      · intro prk hprk
        split at hprk
        · exact (Option.some.inj hprk).symm
        · cases hprk
    have hsent := (Spends.drop hopens.subperm).trans (encrypt_spends_config m.config
      (if m.config.profile = 3 then some (h.schedule C) else none) session
      (sesHeader m.config.profile 1 wait.scid m.config.source m.config.destination)
      SESSION_ACCEPT (acceptText session.transcriptHash) m.config.budget)
    rw [List.append_nil] at hsent
    rw [hnew, hr, held_eq_nil (m := m) (by simp [hm]), List.append_nil, Option.toList_some,
      List.flatMap_singleton]
    exact hsent

/-- A client that waits for its answer does so under an SCID. -/
theorem scid_reach (h : Reach C m) : ∀ wait, m.state = .authWait wait → wait.scid ≠ 0 := by
  have hlife : ∃ w, Lifetime.Reach C w ∧ w.machine = m := by
    induction h with
    | start h => exact ⟨⟨_, 0, [], [], [], []⟩, .start ⟨h, rfl, rfl⟩, rfl⟩
    | next _ _ ih =>
      obtain ⟨w, hw, rfl⟩ := ih
      exact ⟨w.step C _, .next hw trivial, rfl⟩
  obtain ⟨w, hw, rfl⟩ := hlife
  intro wait hwait
  exact hw.lived.waiting.scid wait.scid (by simp [scid?, hwait])

theorem sendDataWithLocs_spends (m : ClientMachine) (plaintext : List Byte)
    (source destination : Bytes 16) :
    Spends counterLimit (m.held C) ((m.sendDataWithLocs C plaintext source destination).1.held C)
      (uses (m.sendDataWithLocs C plaintext source destination).2.1) := by
  unfold sendDataWithLocs
  split
  · rename_i e he
    rw [held_established he]
    have hs := encrypt_spends_config (C := C) m.config e.schedule e.session
      (sesHeader m.config.profile 1 e.scid source destination) SESSION_DATA plaintext
      m.config.budget
    dsimp only
    split
    · exact hs.trans (.nil _)
    · exact hs
  · exact .refl _

theorem close_spends (m : ClientMachine) (code : U16) :
    Spends counterLimit (m.held C) ((m.close C code).1.held C) (uses (m.close C code).2.1) := by
  unfold close
  split
  · rename_i e he
    rw [held_established he]
    have hs := encrypt_spends_config (C := C) m.config e.schedule e.session
      (sesHeader m.config.profile 1 e.scid m.effectiveLocalLoc m.effectivePeerLoc) CLOSE
      (u16Bytes code) m.config.budget
    dsimp only
    split
    · exact hs.trans (.nil _)
    · exact hs.trans (.nil _)
    · exact hs
  · exact .refl _

/-- The keys of the session go with the bootstrap. -/
theorem takeProfile3Bootstrap_spends (m : ClientMachine) :
    Spends counterLimit (m.held C)
      (m.takeProfile3Bootstrap.1.held C ++
        m.takeProfile3Bootstrap.2.toOption.toList.flatMap (·.held C)) [] := by
  unfold takeProfile3Bootstrap
  split
  · simpa [Except.toOption] using Spends.refl _
  · split
    · rename_i he
      rw [held_established he]
      simpa [Except.toOption, Profile3Bootstrap.held, HandshakeConfig.held, held] using
        Spends.refl _
    · simpa [Except.toOption] using Spends.refl _

/-- A call spends what the client holds and what its handshake opens, and hands over the rest. -/
theorem step_spends (hconfig : m.config.validate C = .ok ())
    (hscid : ∀ wait, m.state = .authWait wait → wait.scid ≠ 0) (call : ClientCall) :
    Spends counterLimit
      ((m.handshake? C call).toList.flatMap (·.opens C .client) ++ m.held C)
      ((m.step C call).held C ++ (m.yields call).toList.flatMap (·.held C))
      (uses (m.sealed C call)) := by
  have hquiet (hh : m.handshake? C call = none) (hy : m.yields call = none)
      (h : Spends counterLimit (m.held C) ((m.step C call).held C) (uses (m.sealed C call))) :
      Spends counterLimit
        ((m.handshake? C call).toList.flatMap (·.opens C .client) ++ m.held C)
        ((m.step C call).held C ++ (m.yields call).toList.flatMap (·.held C))
        (uses (m.sealed C call)) := by
    simpa [hh, hy] using h
  cases call with
  | receiveAck packet nowMs owner =>
    simpa [yields, step, sealed] using receiveAck_spends hconfig hscid packet nowMs owner
  | sendData plaintext source destination =>
    exact hquiet rfl rfl (sendDataWithLocs_spends m plaintext source destination)
  | close code => exact hquiet rfl rfl (close_spends m code)
  | takeProfile3Bootstrap => exact takeProfile3Bootstrap_spends m
  | start | retry | expire | receiveVerify | receiveData | commitData | commitProtectedReplay
  | receiveClose | promoteLocalLoc | promotePeerLoc =>
    exact hquiet rfl rfl ((step_continues m _ (by simp)).spends (config_step m _))

end ClientMachine

namespace ServerMachine

variable {m m' : ServerMachine} {h? : Option Handshake}

def held (C : Crypto) (m : ServerMachine) : List (Bytes 32 × ℕ) :=
  m.pending.flatMap (fun p => m.config.held C p.session p.schedule) ++
    m.established.flatMap fun e => m.config.held C e.session e.schedule

/-- The calls of `seal` that a call makes. -/
def sealed (C : Crypto) (m : ServerMachine) : ServerCall → List SealCall
  | .sendData scid plaintext source destination =>
    (m.sendDataWithLocs C scid plaintext source destination).2.1
  | .close scid code => (m.close C scid code).2.1
  | _ => []

def yields (m : ServerMachine) : ServerCall → Option Profile3Bootstrap
  | .takeProfile3Bootstrap scid => (m.takeProfile3Bootstrap scid).2.toOption
  | _ => none

theorem expire_spends (m : ServerMachine) (nowMs : U64) :
    Spends counterLimit (m.held C) ((m.expire nowMs).held C) [] :=
  (Spends.sublist List.filter_sublist).both (Spends.sublist List.filter_sublist)

theorem setSession_spends (i : Fin m.established.length) {uses : List (Bytes 32 × ℕ)}
    (h : Spends counterLimit
      (m.config.held C (m.established.get i).session (m.established.get i).schedule)
      (m.config.held C s (m.established.get i).schedule) uses) :
    Spends counterLimit (m.held C) ((m.setSession i s).held C) uses :=
  (Spends.set (List.getElem?_eq_getElem i.isLt) h).frame_left _

theorem removeEstablished_spends (i : Fin m.established.length) {uses : List (Bytes 32 × ℕ)}
    (h : Spends counterLimit
      (m.config.held C (m.established.get i).session (m.established.get i).schedule)
      (m.config.held C s (m.established.get i).schedule) uses) :
    Spends counterLimit (m.held C) ((m.removeEstablished i).held C) uses := by
  have herase := (Spends.erase (f := fun e : EstablishedSession =>
    m.config.held C e.session e.schedule) (List.getElem?_eq_getElem i.isLt)
    (h.trans (.nil _))).frame_left (m.pending.flatMap fun p => m.config.held C p.session p.schedule)
  exact herase

/-- The change of the tables spends nothing, but for what a completed handshake opens. -/
theorem Shift.spends {now? : Option U64} (hs : Shift C now? h? m m')
    (hroles : ∀ h ∈ h?, h.roles .server = (m.config.localId.role, m.config.peer.role)) :
    Spends counterLimit (h?.toList.flatMap (·.opens C .server) ++ m.held C) (m'.held C) [] := by
  have hold {b : List (Bytes 32 × ℕ)} (h : Spends counterLimit (m.held C) b []) :
      Spends counterLimit (h?.toList.flatMap (·.opens C .server) ++ m.held C) b [] :=
    (Spends.drop (List.sublist_append_right _ _).subperm).trans h
  cases hs with
  | same | locs | material => exact hold (.refl _)
  | session i s hs => exact hold (setSession_spends i (hs.spends_config _ _))
  | touch i s nowMs _ hs =>
    exact hold ((Spends.set (List.getElem?_eq_getElem i.isLt) (hs.spends_config _ _)).frame_left _)
  | remove i => exact hold ((Spends.sublist (List.eraseIdx_sublist _ _)).frame_left _)
  | opened entry _ _ _ h hh hanswers =>
    obtain ⟨owner, hsession⟩ := hanswers.session
    have hopens : (m.config.held C entry.session entry.schedule).Sublist (h.opens C .server) := by
      refine Handshake.opens_held hsession (hroles h hh) ?_
      rw [hanswers.schedule]
      intro prk hprk
      split at hprk
      · exact (Option.some.inj hprk).symm
      · cases hprk
    have hplace : Spends counterLimit
        (m.config.held C entry.session entry.schedule ++ m.held C)
        (held C { m with pending := m.pending ++ [entry] }) [] := by
      refine .drop (List.Perm.subperm ?_)
      simp only [held, List.flatMap_append, List.flatMap_singleton]
      rw [List.append_assoc]
      exact (List.perm_append_comm_assoc _ _ _).symm
    rw [hh, Option.toList_some, List.flatMap_singleton]
    exact ((Spends.drop hopens.subperm).frame _).trans hplace
  | repend i s hs =>
    exact hold ((Spends.set (List.getElem?_eq_getElem i.isLt) (hs.spends_config _ _)).frame _)
  | accepted i s packet nowMs _ _ hs =>
    have herase := (Spends.erase (f := fun p : PendingSession =>
      m.config.held C p.session p.schedule) (List.getElem?_eq_getElem i.isLt)
      (hs.spends_config m.config _)).frame
        (m.established.flatMap fun e => m.config.held C e.session e.schedule)
    refine hold (herase.trans (.drop (List.Perm.subperm ?_)))
    simp only [held, List.flatMap_append, List.flatMap_singleton, PendingSession.establish]
    rw [← List.append_assoc]
    exact List.perm_append_comm.trans (.of_eq (List.append_assoc _ _ _).symm)
  | restart => exact .nil _

/-- What the server makes of the other half of its handshake. -/
theorem handshake?_context {call : ServerCall} {h : Handshake}
    (hh : m.handshake? C call = some h) :
    transcriptT0 C h.context = .ok h.context.bytes ∧ h.context.server = m.config.localId ∧
      h.context.client.role = m.config.peer.role := by
  unfold handshake? at hh
  split at hh
  · split at hh
    · rename_i scid auth material hreq
      have hok := Outcome.toOption_eq_some.mp hh
      obtain ⟨hrole, -⟩ := authRequest_client hreq
      simp only [completeHandshake, Outcome.bind_eq_ok, Except.ok.injEq] at hok
      obtain ⟨t0, -, ⟨⟩, -, shared, -, actual, hactual, rfl⟩ := hok
      obtain rfl := transcriptT0_eq_ok hactual
      exact ⟨hactual, rfl, hrole⟩
    · cases hh
  · cases hh

theorem handshake?_eq_some (hconfig : m.config.validate C = .ok ()) {call : ServerCall}
    {h : Handshake} (hh : m.handshake? C call = some h) : h.Formed C := by
  obtain ⟨htranscript, hserver, hclient⟩ := handshake?_context hh
  refine ⟨htranscript, ?_⟩
  rw [hserver, hclient]
  exact (config_validate hconfig).2.2.1.symm

theorem shifts_spends (m : ServerMachine) (call : ServerCall) :
    Spends counterLimit
      ((m.handshake? C call).toList.flatMap (·.opens C .server) ++ m.held C)
      ((m.step C call).held C) [] := by
  have hroles : ∀ h ∈ m.handshake? C call,
      h.roles .server = (m.config.localId.role, m.config.peer.role) := by
    intro h hh
    obtain ⟨-, hserver, hclient⟩ := handshake?_context hh
    simp [Handshake.roles, hserver, hclient]
  rcases step_shifts (C := C) m call with hs | ⟨nowMs, -, hs⟩
  · exact hs.spends hroles
  · exact ((m.expire_spends nowMs).frame_left _).trans (hs.spends hroles)

theorem sendDataWithLocs_spends (m : ServerMachine) (scid : U64) (plaintext : List Byte)
    (source destination : Bytes 16) :
    Spends counterLimit (m.held C)
      ((m.sendDataWithLocs C scid plaintext source destination).1.held C)
      (uses (m.sendDataWithLocs C scid plaintext source destination).2.1) := by
  unfold sendDataWithLocs
  split
  · exact .refl _
  · rename_i i _
    have hs := encrypt_spends_config (C := C) m.config (m.established.get i).schedule
      (m.established.get i).session (sesHeader m.config.profile 1 scid source destination)
      SESSION_DATA plaintext m.config.budget
    dsimp only
    split
    · exact removeEstablished_spends i hs
    · exact setSession_spends i hs

theorem close_spends (m : ServerMachine) (scid : U64) (code : U16) :
    Spends counterLimit (m.held C) ((m.close C scid code).1.held C)
      (uses (m.close C scid code).2.1) := by
  unfold close
  split
  · exact .refl _
  · rename_i i _
    have hs := encrypt_spends_config (C := C) m.config (m.established.get i).schedule
      (m.established.get i).session
      (sesHeader m.config.profile 1 scid m.effectiveLocalLoc m.effectivePeerLoc) CLOSE
      (u16Bytes code) m.config.budget
    dsimp only
    split
    · exact removeEstablished_spends i hs
    · exact removeEstablished_spends i hs
    · exact setSession_spends i hs

theorem takeProfile3Bootstrap_spends (m : ServerMachine) (scid : U64) :
    Spends counterLimit (m.held C)
      ((m.takeProfile3Bootstrap scid).1.held C ++
        (m.takeProfile3Bootstrap scid).2.toOption.toList.flatMap (·.held C)) [] := by
  unfold takeProfile3Bootstrap
  split
  · simpa [Except.toOption] using Spends.refl _
  · split
    · simpa [Except.toOption] using Spends.refl _
    · rename_i i _
      dsimp only
      split
      · rename_i schedule hschedule
        have hentry : Profile3Bootstrap.held C ⟨(m.established.get i).scid, m.effectiveLocalLoc,
            m.effectivePeerLoc, m.config.budget, m.config.localId.role, m.config.peer.role,
            (m.established.get i).session.transcriptHash, some schedule,
            some (m.established.get i).session⟩ =
            m.config.held C (m.established.get i).session (m.established.get i).schedule := by
          rw [hschedule]
          simp [Profile3Bootstrap.held, HandshakeConfig.held]
        have herase : Spends counterLimit _ _ [] := Spends.erase (f := fun e : EstablishedSession =>
          m.config.held C e.session e.schedule) (List.getElem?_eq_getElem i.isLt) (.refl _)
        simp only [Except.toOption, Option.toList_some, List.flatMap_singleton, hentry]
        refine (herase.frame_left _).trans (.drop (List.Perm.subperm ?_))
        rw [held, removeEstablished, List.append_assoc]
        exact List.perm_append_comm.append_left _
      · simpa [Except.toOption] using Spends.refl _

/-- A call spends what the server holds and what its handshake opens, and hands over the rest. -/
theorem step_spends (m : ServerMachine) (call : ServerCall) :
    Spends counterLimit
      ((m.handshake? C call).toList.flatMap (·.opens C .server) ++ m.held C)
      ((m.step C call).held C ++ (m.yields call).toList.flatMap (·.held C))
      (uses (m.sealed C call)) := by
  cases call with
  | sendData scid plaintext source destination =>
    simpa [handshake?, yields, step, sealed] using
      sendDataWithLocs_spends m scid plaintext source destination
  | close scid code => simpa [handshake?, yields, step, sealed] using close_spends m scid code
  | takeProfile3Bootstrap scid => exact takeProfile3Bootstrap_spends m scid
  | receiveOpen | receiveOpenAuth | receiveAccept | receiveData | previewData | commitData
  | commitProtectedReplay | receiveClose | expire | promoteLocalLoc | promotePeerLoc
  | rotateCookieKey | restart =>
    simpa [yields, sealed] using shifts_spends m _

end ServerMachine

end R8.Session
