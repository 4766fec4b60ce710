import R8Protocol.Lib.Fields
import R8Protocol.Session.Codec
import R8Protocol.Session.Handshake
import R8Protocol.Session.Layout

/-! Session packets read back: what a handshake message is made of is what its receiver finds. -/
namespace R8.Session

open FixedWidth Wire

variable {C : Crypto} {config : HandshakeConfig} {scid : U64} {typ : Byte}
  {body packet plaintext : List Byte} {src dst : Bytes 16}

/-- The type of a session packet, the first byte behind its header. -/
def sesType (packet : List Byte) : Byte := byteAt packet 48

theorem sesType_bytes (header : Header) (typ : Byte) (rest : List Byte) :
    sesType (header.bytes (typ :: rest)) = typ := by
  have hdrop := Header.drop_bytes header (typ :: rest)
  have hhead := congrArg List.head? hdrop
  rw [List.head?_drop, HEADER_LEN] at hhead
  rw [sesType, byteAt, List.getD_eq_getElem?_getD, hhead]
  rfl

/-- The payload of a handshake message. -/
def handshakePayload (config : HandshakeConfig) (typ : Byte) (body : List Byte) : List Byte :=
  [typ, SESSION_VERSION, config.profile, 0] ++ body

theorem encode_handshakePayload (config : HandshakeConfig) (budget : ℕ)
    (hbody : validateBody typ body = .ok ()) (hfit : 4 + body.length ≤ budget) :
    SessionMessage.encode ⟨typ, config.profile, body⟩ budget =
      .ok (handshakePayload config typ body) :=
  SessionMessage.encode_eq_ok.mpr ⟨hbody, hfit, rfl⟩

theorem handshakePacket_eq_ok (h : handshakePacket config scid typ body src dst = .ok packet) :
    validateBody typ body = .ok () ∧
    (∃ n, checkedPacketLen (handshakePayload config typ body).length config.budget = .ok n) ∧
    validateHeader (sesHeader config.profile 0 scid src dst) (handshakePayload config typ body) =
      .ok () ∧
    packet = (sesHeader config.profile 0 scid src dst).bytes
      (handshakePayload config typ body) := by
  simp only [handshakePacket, Outcome.bind_eq_ok, Outcome.mapError_eq_ok] at h
  obtain ⟨payload, hencode, hpack⟩ := h
  obtain ⟨hbody, -, rfl⟩ := SessionMessage.encode_eq_ok.mp hencode
  obtain ⟨hlen, hvalid, rfl⟩ := pack_eq_ok hpack
  exact ⟨hbody, hlen, hvalid, rfl⟩

theorem handshakePacket_type (h : handshakePacket config scid typ body src dst = .ok packet) :
    sesType packet = typ := by
  obtain ⟨-, -, -, rfl⟩ := handshakePacket_eq_ok h
  exact sesType_bytes _ typ _

section

variable (scid src dst)

/-- The header of a handshake message passes every check in front of its payload. -/
theorem validate_handshakeHeader (hp : config.profile ≤ 3) (hs : scid ≠ 0)
    (ht : typ ∈ [OPEN, VERIFY_COOKIE, OPEN_AUTH, OPEN_ACK]) (body : List Byte) :
    validateHeader (sesHeader config.profile 0 scid src dst) (handshakePayload config typ body) =
      .ok () := by
  have hsize : 1 ≤ typ ∧ typ ≤ 7 ∧ typ ≤ 4 := by
    have htyp : typ = 1 ∨ typ = 2 ∨ typ = 3 ∨ typ = 4 := by
      simpa [OPEN, VERIFY_COOKIE, OPEN_AUTH, OPEN_ACK] using ht
    rcases htyp with rfl | rfl | rfl | rfl <;> decide
  have hlen : ¬ (handshakePayload config typ body).length < 4 := by
    simp [handshakePayload]
  simp only [validateHeader, sesHeader, validateSesHeader, if_neg hs, if_neg hlen]
  simp [handshakePayload, SESSION_VERSION, NH_CTL, NH_DGRAM, NH_SES, NH_NONE, not_lt.mpr hp,
    validateSesSlot, hsize]

theorem handshakePacket_ok (hp : config.profile ≤ 3) (hs : scid ≠ 0)
    (ht : typ ∈ [OPEN, VERIFY_COOKIE, OPEN_AUTH, OPEN_ACK]) (hbody : validateBody typ body = .ok ())
    (hfit : 52 + body.length ≤ config.budget) (hmax : config.budget ≤ SERIALIZED_R8_MAX) :
    handshakePacket config scid typ body src dst =
      .ok ((sesHeader config.profile 0 scid src dst).bytes (handshakePayload config typ body)) := by
  have hv := validate_handshakeHeader scid src dst hp hs ht body
  have hlen : HEADER_LEN + (handshakePayload config typ body).length ≤ config.budget := by
    simp only [handshakePayload, List.length_append, List.length_cons, List.length_nil, HEADER_LEN]
    omega
  have hpack := pack_of_validate hv (hlen.trans hmax) hlen
  have hencode := encode_handshakePayload config config.budget hbody (by omega)
  simp only [handshakePacket, hencode, bind, Except.bind, hpack, Except.mapError]

end

theorem handshakePacket_size (h : handshakePacket config scid typ body src dst = .ok packet) :
    52 + body.length ≤ SERIALIZED_R8_MAX ∧ 52 + body.length ≤ config.budget := by
  obtain ⟨-, ⟨n, hn⟩, -, -⟩ := handshakePacket_eq_ok h
  have hsize := checkedPacketLen_eq_ok hn
  simp only [handshakePayload, List.length_append, List.length_cons, List.length_nil,
    HEADER_LEN] at hsize
  omega

/-- The receiver of a handshake message finds header and body as they were sent. -/
theorem unpack_handshakePacket (h : handshakePacket config scid typ body src dst = .ok packet)
    (budget : ℕ) (hfit : 52 + body.length ≤ budget) :
    Header.unpackWithBudget packet budget =
      .ok (sesHeader config.profile 0 scid src dst, handshakePayload config typ body) := by
  obtain ⟨hmax, -⟩ := handshakePacket_size h
  obtain ⟨-, -, hvalid, rfl⟩ := handshakePacket_eq_ok h
  have hlen : HEADER_LEN + (handshakePayload config typ body).length = 52 + body.length := by
    simp only [handshakePayload, List.length_append, List.length_cons, List.length_nil, HEADER_LEN]
    omega
  exact unpack_bytes hvalid (by rw [hlen]; exact hmax) (by rw [hlen]; exact hfit)

theorem decode_handshakePayload (config : HandshakeConfig) (budget : ℕ)
    (hbody : validateBody typ body = .ok ()) (hfit : 4 + body.length ≤ budget) :
    SessionMessage.decode (handshakePayload config typ body) config.profile budget =
      .ok ⟨typ, config.profile, body⟩ :=
  SessionMessage.decode_encode (encode_handshakePayload config budget hbody hfit)

/-- What an encryption went through and put together once its packet is out. -/
theorem encrypt_packet {s : DirectionalSession} {header : Header} {budget : ℕ}
    (h : (s.encrypt C header typ plaintext budget).2.2 = .ok packet) :
    DirectionalSession.encryptGuard typ plaintext budget = .ok () ∧ s.canReserve ∧
      ∃ ciphertext, ciphertext.length = plaintext.length + 16 ∧
        let payload := DirectionalSession.protectedPayload typ header.profile s.sendCounters.next
          ciphertext
        (∃ n, checkedPacketLen payload.length budget = .ok n) ∧
          validateHeader header payload = .ok () ∧ packet = header.bytes payload := by
  unfold DirectionalSession.encrypt at h
  split at h
  · cases h
  · rename_i hguard
    split at h
    · cases h
    · rename_i counter counters hreserve
      obtain ⟨rfl, h0, hm, -⟩ := reserve_eq_ok hreserve
      obtain ⟨n, hn⟩ := nonce_ok h0 hm
      dsimp only at h
      split at h
      · cases h
      · rename_i aad haad
        simp only [DirectionalSession.encryptPacket, aeadSeal_eq hn, Outcome.bind_eq_ok] at h
        obtain ⟨ciphertext, hseal, h⟩ := h
        obtain rfl := Except.ok.inj hseal
        split at h
        · cases h
        · rename_i packet' hpack
          obtain rfl := Except.ok.inj h
          refine ⟨hguard, ?_, _, sealed_length C s.sendKey n aad plaintext, pack_eq_ok hpack⟩
          simp [DirectionalSession.canReserve, Counters.canReserve, h0, hm]

end R8.Session
