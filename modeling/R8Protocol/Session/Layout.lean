import R8Protocol.Lib.Outcome
import R8Protocol.Session.Directional

/-! Where the bytes of a protected packet go: header, associated data, counter and ciphertext. -/
namespace R8

open FixedWidth

namespace Wire

/-- The 48 bytes in front of a payload of the given length. -/
def Header.fixed (header : Header) (payloadLen : ℕ) : List Byte :=
  [(VERSION <<< 4) ||| header.profile, header.tc] ++ beBytes 2 payloadLen ++
    [header.nextHeader, header.hopLimit, header.flags, header.pathSlot] ++
    u64Bytes header.scid ++ header.src.val ++ header.dst.val

variable {header h : Header} {payload data packet : List Byte} {budget : ℕ}

@[simp] theorem Header.fixed_length (header : Header) (n : ℕ) : (header.fixed n).length = 48 := by
  simp [Header.fixed, header.src.property, header.dst.property]

theorem Header.bytes_eq (header : Header) (payload : List Byte) :
    header.bytes payload = header.fixed payload.length ++ payload := rfl

theorem Header.drop_bytes (header : Header) (payload : List Byte) :
    (header.bytes payload).drop HEADER_LEN = payload := by
  rw [bytes_eq, List.drop_left' (by simp [HEADER_LEN])]

theorem Header.set_hop (header : Header) (payload : List Byte) (hop : Byte) :
    (header.bytes payload).set 5 hop = { header with hopLimit := hop }.bytes payload := by
  simp [Header.bytes, beBytes]

theorem Header.profile_nibble :
    ∀ profile : Byte, profile ≤ 3 → ((VERSION <<< 4) ||| profile) &&& 0x0f = profile := by
  decide +kernel

theorem Header.ofBytes_bytes (hp : header.profile ≤ 3) (payload : List Byte) :
    Header.ofBytes (header.bytes payload) = header := by
  have hscid : u64Of ((header.bytes payload).drop 8) = header.scid := by
    have : (header.bytes payload).drop 8 =
        u64Bytes header.scid ++ (header.src.val ++ header.dst.val ++ payload) := by
      simp [Header.bytes, beBytes]
    rw [this, u64Of_u64Bytes]
  have hlen : (header.bytes payload).length = 48 + payload.length := by
    rw [bytes_eq, List.length_append, fixed_length]
  have hsrc : arrayAt 16 (header.bytes payload) 16 = header.src := by
    apply Subtype.ext
    rw [arrayAt_val (by omega), slice]
    have : (header.bytes payload).drop 16 = header.src.val ++ (header.dst.val ++ payload) := by
      simp [Header.bytes, beBytes, u64Bytes]
    rw [this, List.take_left' (by simp [header.src.property])]
  have hdst : arrayAt 16 (header.bytes payload) 32 = header.dst := by
    apply Subtype.ext
    rw [arrayAt_val (by omega), slice]
    have : (header.bytes payload).drop 32 = header.dst.val ++ payload := by
      have h16 : (header.bytes payload).drop 16 = header.src.val ++ (header.dst.val ++ payload) := by
        simp [Header.bytes, beBytes, u64Bytes]
      rw [show 32 = 16 + 16 from rfl, ← List.drop_drop, h16,
        List.drop_left' header.src.property]
    rw [this, List.take_left' (by simp [header.dst.property])]
  have hprofile := Header.profile_nibble header.profile hp
  cases header
  simp only [Header.ofBytes, hscid, hsrc, hdst, Header.mk.injEq, and_true]
  simpa [Header.bytes, beBytes, byteAt] using hprofile

theorem unpack_eq_ok (hu : Header.unpackWithBudget data budget = .ok (h, payload)) :
    h = Header.ofBytes data ∧ payload = data.drop HEADER_LEN ∧ HEADER_LEN ≤ data.length ∧
      validateHeader h payload = .ok () := by
  simp only [Header.unpackWithBudget, Outcome.ite_error_eq_ok, Outcome.bind_eq_ok, Except.ok.injEq,
    Prod.mk.injEq] at hu
  obtain ⟨-, -, hlen, -, -, -, -, ⟨⟩, hv, rfl, rfl⟩ := hu
  exact ⟨rfl, rfl, not_lt.mp hlen, hv⟩

theorem unpack_fits {r : Header × List Byte} (h : Header.unpackWithBudget packet budget = .ok r) :
    packet.length ≤ budget := by
  simp only [Header.unpackWithBudget, Outcome.ite_error_eq_ok] at h
  omega

theorem pack_eq_ok (hp : header.packWithBudget payload budget = .ok packet) :
    (∃ n, checkedPacketLen payload.length budget = .ok n) ∧ validateHeader header payload = .ok () ∧
      packet = header.bytes payload := by
  simp only [Header.packWithBudget, Outcome.bind_eq_ok, Except.ok.injEq] at hp
  obtain ⟨n, hn, ⟨⟩, hv, rfl⟩ := hp
  exact ⟨⟨n, hn⟩, hv, rfl⟩

theorem validateHeader_profile (hv : validateHeader header payload = .ok ()) :
    header.profile ≤ 3 := by
  simp only [validateHeader, Outcome.ite_error_eq_ok] at hv
  obtain ⟨-, hv⟩ := hv
  split at hv
  · simp only [validateSesHeader, Outcome.ite_error_eq_ok] at hv
    push Not at hv
    exact hv.2.2.2.1.1
  · simp only [Outcome.ite_error_eq_ok] at hv
    exact not_lt.mp hv.1

theorem validateHeader_hop_ne (hv : validateHeader header payload = .ok ()) :
    header.hopLimit ≠ 0 := by
  simp only [validateHeader, Outcome.ite_error_eq_ok] at hv
  obtain ⟨-, hv⟩ := hv
  split at hv
  · simp only [validateSesHeader, Outcome.ite_error_eq_ok] at hv
    push Not at hv
    exact hv.2.2.2.2.2.1
  · simp only [Outcome.ite_error_eq_ok] at hv
    exact hv.2.2.1

theorem Header.version_nibble :
    ∀ profile : Byte, profile ≤ 3 → ((VERSION <<< 4) ||| profile) >>> 4 = VERSION := by
  decide +kernel

/-- What passes the checks of packing is read back as it was. -/
theorem unpack_bytes (hv : validateHeader header payload = .ok ())
    (hmax : HEADER_LEN + payload.length ≤ SERIALIZED_R8_MAX)
    (hb : HEADER_LEN + payload.length ≤ budget) :
    Header.unpackWithBudget (header.bytes payload) budget = .ok (header, payload) := by
  have hp := validateHeader_profile hv
  have hlen : (header.bytes payload).length = HEADER_LEN + payload.length := by
    rw [Header.bytes_eq, List.length_append, Header.fixed_length, HEADER_LEN]
  have hsize : (u16Of ((header.bytes payload).drop 2)).val = payload.length := by
    have hsmall : payload.length < 2 ^ 16 := by
      rw [SERIALIZED_R8_MAX] at hmax
      omega
    have hdrop : (header.bytes payload).drop 2 = u16Bytes ⟨payload.length, hsmall⟩ ++
        ([header.nextHeader, header.hopLimit, header.flags, header.pathSlot] ++
          u64Bytes header.scid ++ header.src.val ++ header.dst.val ++ payload) := by
      simp [Header.bytes, u16Bytes]
    rw [hdrop, u16Of_u16Bytes]
  have hversion : byteAt (header.bytes payload) 0 >>> 4 = VERSION := by
    have := Header.version_nibble header.profile hp
    simpa [Header.bytes, byteAt] using this
  have hnext : byteAt (header.bytes payload) 4 = header.nextHeader := by
    simp [Header.bytes, beBytes, byteAt]
  have hknown : header.nextHeader ∈ [NH_CTL, NH_DGRAM, NH_SES, NH_NONE] := by
    simp only [validateHeader, Outcome.ite_error_eq_ok] at hv
    exact not_not.mp hv.1
  simp only [Header.unpackWithBudget, hlen, hsize, hversion, hnext, Header.ofBytes_bytes hp,
    Header.drop_bytes, hv, bind, Except.bind]
  rw [if_neg (by omega), if_neg (by omega), if_neg (by omega), if_neg (by omega),
    if_neg (by omega), if_neg (by simp), if_neg (not_not.mpr hknown)]

theorem checkedPacketLen_of_le {n : ℕ} (hmax : HEADER_LEN + n ≤ SERIALIZED_R8_MAX)
    (hb : HEADER_LEN + n ≤ budget) : checkedPacketLen n budget = .ok (HEADER_LEN + n) := by
  unfold checkedPacketLen
  rw [SERIALIZED_R8_MAX] at hmax ⊢
  rw [if_neg (by omega), if_neg (by omega), if_neg (by omega)]

theorem checkedPacketLen_eq_ok {n k : ℕ} (h : checkedPacketLen n budget = .ok k) :
    HEADER_LEN + n ≤ SERIALIZED_R8_MAX ∧ HEADER_LEN + n ≤ budget := by
  simp only [checkedPacketLen, Outcome.ite_error_eq_ok] at h
  omega

theorem pack_of_validate (hv : validateHeader header payload = .ok ())
    (hmax : HEADER_LEN + payload.length ≤ SERIALIZED_R8_MAX)
    (hb : HEADER_LEN + payload.length ≤ budget) :
    header.packWithBudget payload budget = .ok (header.bytes payload) := by
  simp [Header.packWithBudget, checkedPacketLen_of_le hmax hb, hv, bind, Except.bind]

/-- The hop limit is only ever compared with zero. -/
theorem validateHeader_hop {hop : Byte}
    (hv : validateHeader { header with hopLimit := hop } payload = .ok ())
    (hne : header.hopLimit ≠ 0) : validateHeader header payload = .ok () := by
  have hop_ne : hop ≠ 0 := validateHeader_hop_ne hv
  rw [← hv]
  simp [validateHeader, validateSesHeader, validateSesSlot, validateBareHeader, parseCtl, parseDgram,
    checksumValid, pseudoHeader, hop_ne, hne]

end Wire

namespace Session

open Wire

variable {C : Crypto} {packet packet' aad ciphertext plaintext payload : List Byte}
  {counter : U64} {key : Bytes 32} {header : Header} {budget k : ℕ}

/-- Splitting a packet behind the hop limit. -/
theorem set_take_append_drop (packet : List Byte) (hk : 5 < k) (hl : k ≤ packet.length) :
    (packet.take k).set 5 0 ++ packet.drop k = packet.set 5 0 := by
  have hlen : 5 < (packet.take k).length := by
    rw [List.length_take]
    omega
  conv_rhs => rw [← List.take_append_drop k packet]
  rw [List.set_append_left _ _ hlen]

theorem set_hop_of_same (h : packet.set 5 0 = packet'.set 5 0) (hl : 5 < packet.length) :
    packet = packet'.set 5 (byteAt packet 5) := by
  calc packet = packet.set 5 (byteAt packet 5) := by
        simp [byteAt, List.getD_eq_getElem?_getD, hl]
    _ = (packet.set 5 0).set 5 (byteAt packet 5) := by rw [List.set_set]
    _ = packet'.set 5 (byteAt packet 5) := by rw [h, List.set_set]

/-- Two packets that differ in the hop limit at most. -/
def SameExceptHop (a b : List Byte) : Prop := a.length = b.length ∧ ∀ i, i ≠ 5 → a[i]? = b[i]?

theorem sameExceptHop_of_set (h : packet.set 5 0 = packet'.set 5 0) :
    SameExceptHop packet packet' := by
  refine ⟨by simpa using congrArg List.length h, ?_⟩
  intro i hi
  have := congrArg (·[i]?) h
  simpa [List.getElem?_set_ne (Ne.symm hi)] using this

theorem set_of_sameExceptHop (h : SameExceptHop packet packet') :
    packet.set 5 0 = packet'.set 5 0 := by
  apply List.ext_getElem?
  intro i
  by_cases hi : 5 = i
  · subst hi
    simp [List.getElem?_set, h.1]
  · rw [List.getElem?_set_ne hi, List.getElem?_set_ne hi, h.2 i (Ne.symm hi)]

theorem nonce_ok (h0 : counter ≠ 0) (hm : counter ≠ u64Max) : ∃ n, nonce counter = .ok n := by
  simp [nonce, h0, hm]

theorem protectedAad_eq_ok (h : protectedAad packet counter = .ok aad) :
    60 ≤ packet.length ∧ aad = (packet.take 52).set 5 0 ++ u64Bytes counter := by
  simp only [protectedAad, Outcome.ite_error_eq_ok] at h
  obtain ⟨hlen, h⟩ := h
  split at h
  · simp at h
  · exact ⟨by simpa [HEADER_LEN] using hlen, (Except.ok.inj h).symm⟩

/-- The associated data of the generic layout ends with the counter bytes of the packet. -/
theorem protectedAad_read (h : protectedAad packet (u64Of (packet.drop 52)) = .ok aad) :
    60 ≤ packet.length ∧ aad = (packet.take 60).set 5 0 := by
  obtain ⟨hlen, rfl⟩ := protectedAad_eq_ok h
  refine ⟨hlen, ?_⟩
  rw [u64Bytes_u64Of (by simp; omega), show 60 = 52 + 8 from rfl, List.take_add,
    List.set_append_left _ _ (by simp; omega)]

/-- That of the profile-3 layout goes on with the delivery id. -/
theorem profile3DataAad_read
    (h : profile3DataAad packet (u64Of (packet.drop 52)) (u64Of (packet.drop 60)) = .ok aad)
    (hlen : 68 ≤ packet.length) : aad = (packet.take 68).set 5 0 := by
  simp only [profile3DataAad, Outcome.bind_eq_ok, Except.ok.injEq] at h
  obtain ⟨a, ha, rfl⟩ := h
  obtain ⟨-, rfl⟩ := protectedAad_read ha
  rw [u64Bytes_u64Of (by simp; omega), show 68 = 60 + 8 from rfl, List.take_add,
    List.set_append_left _ _ (by simp; omega)]

theorem aeadOpen_eq_ok (h : aeadOpen C key counter aad ciphertext = .ok plaintext) :
    16 ≤ ciphertext.length ∧ ∃ n, nonce counter = .ok n ∧ ∃ (data : List Byte) (tag : Bytes 16),
      ciphertext = data ++ tag.val ∧ C.aeadDecrypt key n aad data tag = some plaintext := by
  simp only [aeadOpen, Outcome.ite_error_eq_ok, Outcome.bind_eq_ok] at h
  obtain ⟨hlen, n, hn, h⟩ := h
  split at h
  · simp at h
  · rename_i m hm
    obtain rfl := Except.ok.inj h
    refine ⟨not_lt.mp hlen, n, hn, _, _, ?_, hm⟩
    have htag : (arrayAt 16 ciphertext (ciphertext.length - 16)).val =
        ciphertext.drop (ciphertext.length - 16) := by
      rw [arrayAt_val (by omega), slice, List.take_of_length_le (by simp; omega)]
    rw [htag, List.take_append_drop]

theorem decode_eq_ok {profile : Byte} {m : SessionMessage}
    (h : SessionMessage.decode payload profile budget = .ok m) :
    m.body = payload.drop 4 ∧ m.typ = byteAt payload 0 ∧ 4 ≤ payload.length := by
  simp only [SessionMessage.decode, Outcome.ite_error_eq_ok, Outcome.bind_eq_ok,
    Except.ok.injEq] at h
  obtain ⟨-, hlen, -, -, -, -, ⟨⟩, -, rfl⟩ := h
  exact ⟨rfl, rfl, not_lt.mp hlen⟩

/-- What a packet was found to be when it opened, with its ciphertext from byte `k` on. -/
structure Opens (C : Crypto) (s : DirectionalSession) (k : ℕ) (packet plaintext : List Byte)
    (commit : ReplayCommit) : Prop where
  unpacks : ∃ r, Header.unpackWithBudget packet s.receiveBudget = .ok r
  long : k + 16 ≤ packet.length
  replay : s.replay.preview (u64Of (packet.drop 52)) = .ok commit
  opened : ∃ n, nonce (u64Of (packet.drop 52)) = .ok n ∧ ∃ (data : List Byte) (tag : Bytes 16),
    packet.drop k = data ++ tag.val ∧
    C.aeadDecrypt s.receiveKey n ((packet.take k).set 5 0) data tag = some plaintext

theorem preview_opens {s : DirectionalSession} {p : ProtectedPreview}
    (h : s.preview C packet = .ok p) :
    Opens C s 60 packet p.plaintext p.commit ∧ p.receiveOwner = s.receiveOwner := by
  simp only [DirectionalSession.preview] at h
  split at h
  · simp at h
  · rename_i header payload hu
    split at h
    · simp at h
    · rename_i message hm
      simp only [Outcome.ite_error_eq_ok, Outcome.bind_eq_ok, Except.ok.injEq] at h
      obtain ⟨-, commit, hcommit, aad, haad, plaintext, hopen, rfl⟩ := h
      obtain ⟨-, rfl, -, -⟩ := unpack_eq_ok hu
      obtain ⟨hbody, -, -⟩ := decode_eq_ok hm
      rw [HEADER_LEN, List.drop_drop] at hbody
      rw [hbody] at hcommit haad hopen
      obtain ⟨hlen, rfl⟩ := protectedAad_read haad
      rw [List.drop_drop] at hopen
      obtain ⟨h16, hopened⟩ := aeadOpen_eq_ok hopen
      rw [List.length_drop] at h16
      exact ⟨⟨⟨_, hu⟩, by omega, hcommit, hopened⟩, rfl⟩

theorem previewProfile3Data_opens {s : DirectionalSession} {p : Profile3DataPreview}
    (h : s.previewProfile3Data C packet = .ok p) :
    Opens C s 68 packet p.plaintext p.commit ∧ p.receiveOwner = s.receiveOwner ∧
      p.deliveryId = u64Of (packet.drop 60) := by
  simp only [DirectionalSession.previewProfile3Data] at h
  split at h
  · simp at h
  · rename_i header payload hu
    simp only [Outcome.bind_eq_ok] at h
    obtain ⟨⟨⟩, -, h⟩ := h
    split at h
    · simp at h
    · rename_i message hm
      simp only [Outcome.ite_error_eq_ok, Outcome.bind_eq_ok, Except.ok.injEq] at h
      obtain ⟨hshape, -, -, commit, hcommit, aad, haad, plaintext, hopen, rfl⟩ := h
      push Not at hshape
      obtain ⟨-, rfl, -, -⟩ := unpack_eq_ok hu
      obtain ⟨hbody, -, -⟩ := decode_eq_ok hm
      rw [HEADER_LEN, List.drop_drop] at hbody
      rw [hbody] at hcommit haad hopen hshape
      rw [List.drop_drop] at haad hopen
      have hlen := hshape.2.2
      rw [List.length_drop] at hlen
      obtain rfl := profile3DataAad_read haad (by omega)
      obtain ⟨h16, hopened⟩ := aeadOpen_eq_ok hopen
      rw [List.length_drop] at h16
      refine ⟨⟨⟨_, hu⟩, by omega, hcommit, hopened⟩, rfl, ?_⟩
      simp only [hbody, List.drop_drop]

/-- A packet built around a sealed ciphertext, which starts at byte `k`. -/
structure Image (C : Crypto) (k : ℕ) (call : SealCall) (packet : List Byte) : Prop where
  long : k + 16 ≤ packet.length
  counter : u64Of (packet.drop 52) = call.counter
  aad : call.aad = (packet.take k).set 5 0
  body : ∃ n, nonce call.counter = .ok n ∧
    packet.drop k = (C.aeadEncrypt call.key n call.aad call.plaintext).1 ++
      (C.aeadEncrypt call.key n call.aad call.plaintext).2.val

/-- The call of `seal` that an encryption makes. -/
structure Seals (s s' : DirectionalSession) (call : SealCall) (plaintext : List Byte) : Prop where
  key : call.key = s.sendKey
  counter : call.counter = s.sendCounters.next
  plaintext : call.plaintext = plaintext
  nonzero : s.sendCounters.next ≠ 0
  below : s.sendCounters.next ≠ u64Max
  next : s' = { s with sendCounters := ⟨satAdd s.sendCounters.next 1⟩ }

/-- No packet opens that differs from this one in the hop limit at most. -/
def Unopenable (packet : List Byte) : Prop :=
  ∀ packet' budget r, packet'.set 5 0 = packet.set 5 0 →
    Header.unpackWithBudget packet' budget ≠ .ok r

theorem reserve_eq_ok {c c' : Counters} (h : c.reserve = .ok (counter, c')) :
    counter = c.next ∧ c.next ≠ 0 ∧ c.next ≠ u64Max ∧ c' = ⟨satAdd c.next 1⟩ := by
  simp only [Counters.reserve, Outcome.ite_error_eq_ok, Except.ok.injEq, Prod.mk.injEq] at h
  obtain ⟨hn, rfl, rfl⟩ := h
  push Not at hn
  exact ⟨rfl, hn.1, hn.2, rfl⟩

theorem aeadSeal_eq {n : Bytes 12} (hn : nonce counter = .ok n) (key : Bytes 32)
    (aad plaintext : List Byte) :
    aeadSeal C key counter aad plaintext = .ok ((C.aeadEncrypt key n aad plaintext).1 ++
      (C.aeadEncrypt key n aad plaintext).2.val) := by
  simp [aeadSeal, hn, bind, Except.bind]

theorem sealed_length (C : Crypto) (key : Bytes 32) (n : Bytes 12) (aad plaintext : List Byte) :
    ((C.aeadEncrypt key n aad plaintext).1 ++ (C.aeadEncrypt key n aad plaintext).2.val).length =
      plaintext.length + 16 := by
  rw [List.length_append, C.encrypt_length, (C.aeadEncrypt key n aad plaintext).2.property]

/-- A header that packs before encryption packs after it, unless nothing that opens looks so. -/
theorem pack_or_unopenable {payload payload' : List Byte}
    (hp : header.packWithBudget payload budget = .ok packet)
    (hlen : payload'.length = payload.length) :
    header.packWithBudget payload' budget = .ok (header.bytes payload') ∨
      (∃ e, header.packWithBudget payload' budget = .error e) ∧
        Unopenable (header.bytes payload') := by
  obtain ⟨⟨n, hn⟩, hv, -⟩ := pack_eq_ok hp
  rw [← hlen] at hn
  cases hv' : validateHeader header payload' with
  | ok u => exact .inl (by simp [Header.packWithBudget, hn, hv', bind, Except.bind])
  | error e =>
    refine .inr ⟨⟨e, by simp [Header.packWithBudget, hn, hv', bind, Except.bind]⟩, ?_⟩
    rintro packet' b ⟨h, p⟩ hsame hu
    obtain ⟨rfl, rfl, h48, hopen⟩ := unpack_eq_ok hu
    have hset := set_hop_of_same hsame (by rw [HEADER_LEN] at h48; omega)
    rw [Header.set_hop] at hset
    have hprofile : header.profile ≤ 3 := validateHeader_profile hv
    rw [hset, Header.ofBytes_bytes (by exact hprofile), Header.drop_bytes] at hopen
    rw [validateHeader_hop hopen (validateHeader_hop_ne hv)] at hv'
    simp at hv'

theorem protectedPayload_length (typ profile : Byte) (rest : List Byte) :
    (DirectionalSession.protectedPayload typ profile counter rest).length = 12 + rest.length := by
  simp [DirectionalSession.protectedPayload]
  omega

theorem profile3Payload_length (deliveryId : U64) (rest : List Byte) :
    (DirectionalSession.profile3Payload counter deliveryId rest).length = 20 + rest.length := by
  simp [DirectionalSession.profile3Payload]
  omega

/-- The generic packet around a ciphertext is an image of the call that sealed it. -/
theorem protected_image {typ : Byte} {call : SealCall} {n : Bytes 12} {template : List Byte}
    (hn : nonce call.counter = .ok n)
    (hc : ciphertext = (C.aeadEncrypt call.key n call.aad call.plaintext).1 ++
      (C.aeadEncrypt call.key n call.aad call.plaintext).2.val)
    (ht : template = header.bytes (DirectionalSession.protectedPayload typ header.profile
      call.counter (List.replicate (call.plaintext.length + 16) 0)))
    (haad : protectedAad template call.counter = .ok call.aad) :
    Image C 60 call (header.bytes
      (DirectionalSession.protectedPayload typ header.profile call.counter ciphertext)) := by
  have hlen : ciphertext.length = call.plaintext.length + 16 := by rw [hc, sealed_length]
  have hfront : ∀ rest : List Byte, header.bytes (DirectionalSession.protectedPayload typ
      header.profile call.counter rest) = (header.fixed (12 + rest.length) ++
        [typ, SESSION_VERSION, header.profile, 0]) ++ (u64Bytes call.counter ++ rest) := by
    intro rest
    rw [Header.bytes_eq, protectedPayload_length]
    simp [DirectionalSession.protectedPayload]
  have hlen52 : ∀ n, (header.fixed n ++ [typ, SESSION_VERSION, header.profile, 0]).length = 52 := by
    intro n
    simp
  rw [hfront]
  obtain ⟨-, haad⟩ := protectedAad_eq_ok haad
  rw [ht, hfront, List.take_left' (hlen52 _), List.length_replicate, ← hlen] at haad
  constructor
  · simp only [List.length_append, hlen52, u64Bytes_length, hlen]
    omega
  · rw [List.drop_left' (hlen52 _), u64Of_u64Bytes]
  · rw [haad, ← List.append_assoc, List.take_left' (by simp)]
    exact (List.set_append_left _ _ (by simp)).symm
  · refine ⟨n, hn, ?_⟩
    rw [← List.append_assoc, List.drop_left' (by simp), hc]

/-- The profile-3 packet likewise, its ciphertext put in place of the zeros. -/
theorem profile3_image {call : SealCall} {n : Bytes 12} {deliveryId : U64} {template : List Byte}
    (hn : nonce call.counter = .ok n)
    (hc : ciphertext = (C.aeadEncrypt call.key n call.aad call.plaintext).1 ++
      (C.aeadEncrypt call.key n call.aad call.plaintext).2.val)
    (ht : template = header.bytes (DirectionalSession.profile3Payload call.counter deliveryId
      (List.replicate (call.plaintext.length + 16) 0)))
    (haad : profile3DataAad template call.counter deliveryId = .ok call.aad) :
    Image C 68 call (template.take (HEADER_LEN + 20) ++ ciphertext) ∧
      u64Of ((template.take (HEADER_LEN + 20) ++ ciphertext).drop 60) = deliveryId := by
  have hlen : ciphertext.length = call.plaintext.length + 16 := by rw [hc, sealed_length]
  simp only [profile3DataAad, Outcome.bind_eq_ok, Except.ok.injEq] at haad
  obtain ⟨aad, haad, happend⟩ := haad
  obtain ⟨-, rfl⟩ := protectedAad_eq_ok haad
  obtain ⟨front, hfront, htemplate⟩ : ∃ front : List Byte, front.length = 52 ∧
      template = front ++ (u64Bytes call.counter ++ (u64Bytes deliveryId ++
        List.replicate (call.plaintext.length + 16) 0)) := by
    refine ⟨header.fixed (20 + (call.plaintext.length + 16)) ++
      [SESSION_DATA, SESSION_VERSION, 3, 0], by simp, ?_⟩
    rw [ht, Header.bytes_eq, profile3Payload_length]
    simp [DirectionalSession.profile3Payload]
  have htake : template.take (HEADER_LEN + 20) =
      front ++ (u64Bytes call.counter ++ u64Bytes deliveryId) := by
    rw [htemplate, ← List.append_assoc (u64Bytes call.counter), ← List.append_assoc front,
      List.take_left' (by simp [HEADER_LEN, hfront])]
  rw [htake]
  rw [htemplate, List.take_left' hfront] at happend
  refine ⟨⟨?_, ?_, ?_, ?_⟩, ?_⟩
  · simp only [List.length_append, hfront, u64Bytes_length, hlen]
    omega
  · rw [List.append_assoc, List.drop_left' hfront, List.append_assoc, u64Of_u64Bytes]
  · rw [List.take_left' (by simp [hfront]), ← happend, List.append_assoc]
    exact (List.set_append_left _ _ (by omega)).symm
  · exact ⟨n, hn, by rw [List.drop_left' (by simp [hfront]), hc]⟩
  · rw [← List.append_assoc front, List.append_assoc, List.drop_left' (by simp [hfront]),
      u64Of_u64Bytes]

/-- The counter and the calls of `seal` after an encryption: nothing sealed, or one call under the
next counter. -/
theorem encrypt_cases (C : Crypto) (s : DirectionalSession) (header : Header) (typ : Byte)
    (plaintext : List Byte) (budget : ℕ) :
    let r := s.encrypt C header typ plaintext budget
    (r.2.1 = [] ∧ (∃ e, r.2.2 = .error e) ∧ ∃ c, r.1 = { s with sendCounters := c } ∧
      s.sendCounters.next ≤ c.next) ∨
    ∃ call packet, r.2.1 = [call] ∧ Seals s r.1 call plaintext ∧ Image C 60 call packet ∧
      (r.2.2 = .ok packet ∨ (∃ e, r.2.2 = .error e) ∧ Unopenable packet) := by
  unfold DirectionalSession.encrypt
  split
  · exact .inl ⟨rfl, ⟨_, rfl⟩, s.sendCounters, rfl, le_rfl⟩
  · split
    · exact .inl ⟨rfl, ⟨_, rfl⟩, s.sendCounters, rfl, le_rfl⟩
    · rename_i counter counters hreserve
      obtain ⟨rfl, h0, hm, rfl⟩ := reserve_eq_ok hreserve
      dsimp only
      split
      · exact .inl ⟨rfl, ⟨_, rfl⟩, _, rfl, le_satAdd _ _⟩
      · rename_i aad haad
        right
        simp only [DirectionalSession.encryptAad] at haad
        split at haad
        · simp at haad
        · rename_i template ht
          obtain ⟨n, hn⟩ := nonce_ok h0 hm
          have hseal := aeadSeal_eq (C := C) hn s.sendKey aad plaintext
          have hpayload : (DirectionalSession.protectedPayload typ header.profile s.sendCounters.next
              ((C.aeadEncrypt s.sendKey n aad plaintext).1 ++
                (C.aeadEncrypt s.sendKey n aad plaintext).2.val)).length =
              (DirectionalSession.protectedPayload typ header.profile s.sendCounters.next
                (List.replicate (plaintext.length + 16) 0)).length := by
            rw [protectedPayload_length, protectedPayload_length, sealed_length,
              List.length_replicate]
          refine ⟨⟨s.sendKey, s.sendCounters.next, aad, plaintext⟩, _, rfl,
            ⟨rfl, rfl, rfl, h0, hm, rfl⟩, protected_image hn rfl (pack_eq_ok ht).2.2 haad, ?_⟩
          simp only [DirectionalSession.encryptPacket, hseal, bind, Except.bind]
          rcases pack_or_unopenable ht hpayload with hp | ⟨⟨e, he⟩, hun⟩
          · simp [hp]
          · exact .inr ⟨by simp [he], hun⟩

theorem encryptProfile3Data_cases (C : Crypto) (s : DirectionalSession) (header : Header)
    (deliveryId : U64) (plaintext : List Byte) (budget : ℕ) :
    let r := s.encryptProfile3Data C header deliveryId plaintext budget
    (r.2.1 = [] ∧ (∃ e, r.2.2 = .error e) ∧ ∃ c, r.1 = { s with sendCounters := c } ∧
      s.sendCounters.next ≤ c.next) ∨
    ∃ call packet, r.2.1 = [call] ∧ Seals s r.1 call plaintext ∧ Image C 68 call packet ∧
      u64Of (packet.drop 60) = deliveryId ∧ r.2.2 = .ok packet := by
  unfold DirectionalSession.encryptProfile3Data
  split
  · exact .inl ⟨rfl, ⟨_, rfl⟩, s.sendCounters, rfl, le_rfl⟩
  · split
    · exact .inl ⟨rfl, ⟨_, rfl⟩, s.sendCounters, rfl, le_rfl⟩
    · rename_i counter counters hreserve
      obtain ⟨rfl, h0, hm, rfl⟩ := reserve_eq_ok hreserve
      dsimp only
      split
      · exact .inl ⟨rfl, ⟨_, rfl⟩, _, rfl, le_satAdd _ _⟩
      · rename_i template aad haad
        right
        simp only [DirectionalSession.encryptProfile3Aad] at haad
        split at haad
        · simp at haad
        · rename_i packed ht
          simp only [Outcome.bind_eq_ok, Except.ok.injEq, Prod.mk.injEq] at haad
          obtain ⟨a, haad, rfl, rfl⟩ := haad
          obtain ⟨n, hn⟩ := nonce_ok h0 hm
          have hseal := aeadSeal_eq (C := C) hn s.sendKey a plaintext
          let call : SealCall := ⟨s.sendKey, s.sendCounters.next, a, plaintext⟩
          have hnonce : nonce call.counter = .ok n := hn
          obtain ⟨himage, hid⟩ := profile3_image (C := C) hnonce rfl (pack_eq_ok ht).2.2 haad
          refine ⟨call, _, rfl,
            ⟨rfl, rfl, rfl, h0, hm, rfl⟩, himage, hid, ?_⟩
          simp [hseal, bind, Except.bind, call]

end Session

end R8
