import R8Protocol.Lib.Fields
import R8Protocol.Session.Channel
import R8Protocol.Session.Codec

/-! Data in the layout of profile 3: sealed whole or not at all, and opened as it was sealed. -/
namespace R8.Session

open FixedWidth Wire

variable {C : Crypto} {s b : DirectionalSession} {header : Header} {typ : Byte}
  {packet plaintext : List Byte} {budget : ℕ} {call : SealCall} {deliveryId : U64}

theorem aeadOpen_sealed {counter : U64} {n : Bytes 12} {key : Bytes 32} {aad : List Byte}
    (hn : nonce counter = .ok n)
    (hopen : C.aeadDecrypt key n aad (C.aeadEncrypt key n aad plaintext).1
      (C.aeadEncrypt key n aad plaintext).2 = some plaintext) :
    aeadOpen C key counter aad ((C.aeadEncrypt key n aad plaintext).1 ++
      (C.aeadEncrypt key n aad plaintext).2.val) = .ok plaintext := by
  generalize hr : C.aeadEncrypt key n aad plaintext = r at hopen ⊢
  have hsplit : (r.1 ++ r.2.val).length - 16 = r.1.length := by simp
  unfold aeadOpen
  rw [if_neg (by simp), hsplit]
  simp [hn, hopen, bind, Except.bind]

/-- The decoded form of a protected payload whose parts have the right sizes. -/
theorem decode_protectedPayload {profile : Byte} {counter : U64} {rest : List Byte}
    (ht : typ ∈ [SESSION_ACCEPT, SESSION_DATA, CLOSE]) (h0 : counter ≠ 0) (hm : counter ≠ u64Max)
    (hsize : 16 ≤ rest.length) (haccept : typ = SESSION_ACCEPT → rest.length = 60)
    (hclose : typ = CLOSE → rest.length = 18) (hfit : 12 + rest.length ≤ budget) :
    SessionMessage.decode (DirectionalSession.protectedPayload typ profile counter rest) profile
      budget = .ok ⟨typ, profile, u64Bytes counter ++ rest⟩ := by
  have hbody : validateBody typ (u64Bytes counter ++ rest) = .ok () := by
    have hcounter : u64Of (u64Bytes counter ++ rest) = counter := u64Of_u64Bytes counter rest
    have htyp : typ = 5 ∨ typ = 6 ∨ typ = 7 := by
      simpa [SESSION_ACCEPT, SESSION_DATA, CLOSE] using ht
    rcases htyp with rfl | rfl | rfl
    · have hlen := haccept rfl
      simp [validateBody, bodyLength, OPEN, VERIFY_COOKIE, OPEN_AUTH, OPEN_ACK, SESSION_ACCEPT,
        SESSION_DATA, CLOSE, hlen, h0, hm]
    · have hlen : ¬ 8 + rest.length < 24 := by omega
      simp [validateBody, bodyLength, OPEN, VERIFY_COOKIE, OPEN_AUTH, OPEN_ACK, SESSION_ACCEPT,
        SESSION_DATA, CLOSE, hlen, h0, hm]
    · have hlen := hclose rfl
      simp [validateBody, bodyLength, OPEN, VERIFY_COOKIE, OPEN_AUTH, OPEN_ACK, SESSION_ACCEPT,
        SESSION_DATA, CLOSE, hlen, h0, hm]
  have hroom : 4 + (u64Bytes counter ++ rest).length ≤ budget := by
    simp only [List.length_append, u64Bytes_length]
    omega
  have hpayload : DirectionalSession.protectedPayload typ profile counter rest =
      [typ, SESSION_VERSION, profile, 0] ++ (u64Bytes counter ++ rest) := by
    simp [DirectionalSession.protectedPayload]
  have hencode : SessionMessage.encode ⟨typ, profile, u64Bytes counter ++ rest⟩ budget =
      .ok (DirectionalSession.protectedPayload typ profile counter rest) :=
    SessionMessage.encode_eq_ok.mpr ⟨hbody, hroom, hpayload⟩
  exact SessionMessage.decode_encode hencode

theorem profile3Payload_eq (counter deliveryId : U64) (rest : List Byte) :
    DirectionalSession.profile3Payload counter deliveryId rest =
      DirectionalSession.protectedPayload SESSION_DATA 3 counter (u64Bytes deliveryId ++ rest) := by
  simp [DirectionalSession.profile3Payload, DirectionalSession.protectedPayload]

/-- A packet in the layout of profile 3 that every receiver can take apart. -/
structure Carries3 (C : Crypto) (call : SealCall) (header : Header) (deliveryId : U64)
    (packet : List Byte) : Prop where
  image : Image C 68 call packet
  length : packet.length = call.plaintext.length + 84
  bound : packet.length ≤ SERIALIZED_R8_MAX
  deliveryId : u64Of (packet.drop 60) = deliveryId
  unpack : ∀ budget, packet.length ≤ budget →
    Header.unpackWithBudget packet budget = .ok (header, packet.drop 48)
  decode : ∀ budget, packet.length ≤ budget →
    SessionMessage.decode (packet.drop 48) header.profile budget =
      .ok ⟨SESSION_DATA, 3, packet.drop 52⟩

/-- The headers of profile-3 data. -/
structure DataHeader (header : Header) : Prop where
  slot : header.pathSlot = 0 ∧ header.flags = 1 ∨ header.pathSlot = 1 ∧ header.flags = 3
  profile : header.profile = 3
  nextHeader : header.nextHeader = NH_SES
  tc : header.tc = 0
  hopLimit : header.hopLimit ≠ 0
  scid : header.scid ≠ 0

theorem validateProfile3DataHeader_eq_ok :
    validateProfile3DataHeader header = .ok () ↔ DataHeader header := by
  simp only [validateProfile3DataHeader, Outcome.ite_error_eq_ok]
  push Not
  constructor
  · rintro ⟨hslot, ⟨hprofile, hnext, hflags, htc, hhop, hscid⟩, -⟩
    refine ⟨?_, hprofile, hnext, htc, hhop, hscid⟩
    by_cases h0 : header.pathSlot = 0
    · exact .inl ⟨h0, by rwa [if_pos h0] at hflags⟩
    · exact .inr ⟨hslot h0, by rwa [if_neg h0] at hflags⟩
  · rintro ⟨hslot, hprofile, hnext, htc, hhop, hscid⟩
    refine ⟨?_, ⟨hprofile, hnext, ?_, htc, hhop, hscid⟩, trivial⟩
    · intro h0
      exact (hslot.resolve_left fun h => h0 h.1).1
    · rcases hslot with ⟨h0, hflags⟩ | ⟨h1, hflags⟩
      · rw [if_pos h0, hflags]
      · rw [if_neg (by rw [h1]; decide), hflags]

/-- A data header passes the check on the wire in front of any data. -/
theorem DataHeader.valid (h : DataHeader header) (counter deliveryId : U64) (rest : List Byte) :
    validateHeader header (DirectionalSession.profile3Payload counter deliveryId rest) =
      .ok () := by
  obtain ⟨hslot, hprofile, hnext, htc, hhop, hscid⟩ := h
  rcases hslot with ⟨hslot, hflags⟩ | ⟨hslot, hflags⟩ <;>
    simp [validateHeader, validateSesHeader, validateSesSlot, hslot, hflags, hprofile, hnext, htc,
      hhop, hscid, byteAt, DirectionalSession.profile3Payload, NH_SES, SESSION_DATA,
      SESSION_VERSION]

theorem DataHeader.setHop (h : DataHeader header) {hop : Byte} (hne : hop ≠ 0) :
    DataHeader { header with hopLimit := hop } :=
  ⟨h.slot, h.profile, h.nextHeader, h.tc, hne, h.scid⟩

/-- The parts of a profile-3 packet are those of a generic one whose ciphertext starts later. -/
theorem carries3_bytes (hv : DataHeader header) {counter : U64} {ciphertext : List Byte}
    (h0 : counter ≠ 0) (hm : counter ≠ u64Max)
    (hlen : ciphertext.length = call.plaintext.length + 16)
    (hfit : call.plaintext.length + 84 ≤ SERIALIZED_R8_MAX)
    (hpacket : packet = header.bytes
      (DirectionalSession.profile3Payload counter deliveryId ciphertext))
    (himage : Image C 68 call packet) (hid : u64Of (packet.drop 60) = deliveryId) :
    Carries3 C call header deliveryId packet := by
  have hrest : (u64Bytes deliveryId ++ ciphertext).length = call.plaintext.length + 24 := by
    simp only [List.length_append, u64Bytes_length]
    omega
  have hpayload : (DirectionalSession.profile3Payload counter deliveryId ciphertext).length =
      call.plaintext.length + 36 := by
    rw [profile3Payload_length]
    omega
  have hsize : packet.length = call.plaintext.length + 84 := by
    rw [hpacket, Header.bytes_eq, List.length_append, Header.fixed_length]
    omega
  have hdrop : packet.drop 48 =
      DirectionalSession.profile3Payload counter deliveryId ciphertext := by
    rw [hpacket]
    exact Header.drop_bytes _ _
  have hbehind : packet.drop 52 = u64Bytes counter ++ (u64Bytes deliveryId ++ ciphertext) := by
    rw [show 52 = 48 + 4 from rfl, ← List.drop_drop, hdrop]
    simp [DirectionalSession.profile3Payload]
  refine ⟨himage, hsize, by omega, hid, ?_, ?_⟩
  · intro budget hb
    rw [hdrop, hpacket]
    exact unpack_bytes (hv.valid counter deliveryId ciphertext)
      (by rw [hpayload, HEADER_LEN]; omega) (by rw [hpayload, HEADER_LEN]; omega)
  · intro budget hb
    rw [hdrop, hbehind, profile3Payload_eq, hv.profile]
    exact decode_protectedPayload (by decide) h0 hm (by omega)
      (fun h => absurd h (by decide)) (fun h => absurd h (by decide)) (by omega)

/-- The front of a packet does not depend on what stands behind it. -/
theorem profile3_take (header : Header) {counter : U64} {rest rest' : List Byte}
    (hlen : rest.length = rest'.length) :
    (header.bytes (DirectionalSession.profile3Payload counter deliveryId rest)).take
        (HEADER_LEN + 20) ++ rest' =
      header.bytes (DirectionalSession.profile3Payload counter deliveryId rest') := by
  have hfront : ∀ tail : List Byte, tail.length = rest'.length →
      header.bytes (DirectionalSession.profile3Payload counter deliveryId tail) =
        (header.fixed (20 + rest'.length) ++ [SESSION_DATA, SESSION_VERSION, 3, 0] ++
          u64Bytes counter ++ u64Bytes deliveryId) ++ tail := by
    intro tail htail
    rw [Header.bytes_eq, profile3Payload_length, htail]
    simp [DirectionalSession.profile3Payload]
  rw [hfront rest hlen, hfront rest' rfl, List.take_left' (by simp [HEADER_LEN])]

/-- The packet that is sealed later, with zeros for the ciphertext. -/
def template (header : Header) (counter deliveryId : U64) (plaintext : List Byte) : List Byte :=
  header.bytes (DirectionalSession.profile3Payload counter deliveryId
    (List.replicate (plaintext.length + 16) 0))

section Template

variable (hv : DataHeader header) (counter deliveryId : U64)
  (hmax : plaintext.length + 84 ≤ SERIALIZED_R8_MAX) (hfit : plaintext.length + 84 ≤ budget)

theorem template_fits (counter deliveryId : U64) (hfit : plaintext.length + 84 ≤ budget) :
    HEADER_LEN + (DirectionalSession.profile3Payload counter deliveryId
      (List.replicate (plaintext.length + 16) 0)).length ≤ budget := by
  simp only [profile3Payload_length, List.length_replicate, HEADER_LEN]
  omega

include hv hmax hfit

theorem template_packs : header.packWithBudget (DirectionalSession.profile3Payload counter deliveryId
    (List.replicate (plaintext.length + 16) 0)) budget =
      .ok (template header counter deliveryId plaintext) :=
  pack_of_validate (hv.valid _ _ _) (template_fits _ _ hmax) (template_fits _ _ hfit)

omit hfit in
theorem template_aad : ∃ aad,
    profile3DataAad (template header counter deliveryId plaintext) counter deliveryId = .ok aad := by
  have hunpack := unpack_bytes (hv.valid counter deliveryId
    (List.replicate (plaintext.length + 16) 0)) (template_fits _ _ hmax) (template_fits _ _ hmax)
  have hlen : ¬ (template header counter deliveryId plaintext).length < HEADER_LEN + 12 := by
    simp only [template, Header.bytes_eq, List.length_append, Header.fixed_length,
      profile3Payload_length, HEADER_LEN]
    omega
  change Header.unpack (template header counter deliveryId plaintext) = _ at hunpack
  simp only [profile3DataAad, protectedAad, hlen, if_false, hunpack, bind, Except.bind]
  exact ⟨_, rfl⟩

end Template

/-- Sealing in the layout of profile 3 succeeds once the plaintext fits and a counter is left. -/
theorem encryptProfile3Data_carries (C : Crypto)
    (hheader : validateProfile3DataHeader header = .ok ()) (hid : deliveryId ≠ u64Max)
    (hfit : plaintext.length + 84 ≤ budget) (hmax : plaintext.length + 84 ≤ SERIALIZED_R8_MAX)
    (hcan : s.canReserve) :
    ∃ call packet, (s.encryptProfile3Data C header deliveryId plaintext budget).2.1 = [call] ∧
      Seals s (s.encryptProfile3Data C header deliveryId plaintext budget).1 call plaintext ∧
      (s.encryptProfile3Data C header deliveryId plaintext budget).2.2 = .ok packet ∧
      Carries3 C call header deliveryId packet ∧
      ∃ ciphertext, packet = header.bytes
        (DirectionalSession.profile3Payload s.sendCounters.next deliveryId ciphertext) := by
  have hv := validateProfile3DataHeader_eq_ok.mp hheader
  obtain ⟨h0, hm⟩ : s.sendCounters.next ≠ 0 ∧ s.sendCounters.next ≠ u64Max := by
    simpa [DirectionalSession.canReserve, Counters.canReserve] using hcan
  have hreserve : s.sendCounters.reserve =
      .ok (s.sendCounters.next, ⟨satAdd s.sendCounters.next 1⟩) := by
    simp [Counters.reserve, h0, hm]
  have hguard : s.encryptProfile3Guard header deliveryId plaintext budget = .ok () := by
    have hroom : ¬ budget < plaintext.length + PROFILE3_DATA_PACKET_OVERHEAD := not_lt.mpr hfit
    have hcan' : s.sendCounters.canReserve = true := hcan
    simp [DirectionalSession.encryptProfile3Guard, hid, hroom, hheader,
      template_packs hv 0 deliveryId hmax hfit, hcan', bind, Except.bind]
  obtain ⟨aad, haad⟩ := template_aad hv s.sendCounters.next deliveryId hmax
  obtain ⟨n, hn⟩ := nonce_ok h0 hm
  let ciphertext := (C.aeadEncrypt s.sendKey n aad plaintext).1 ++
    (C.aeadEncrypt s.sendKey n aad plaintext).2.val
  have hlen : ciphertext.length = plaintext.length + 16 := sealed_length C s.sendKey n aad plaintext
  have hok : (s.encryptProfile3Data C header deliveryId plaintext budget).2.2 =
      .ok (header.bytes
        (DirectionalSession.profile3Payload s.sendCounters.next deliveryId ciphertext)) := by
    have hsize : (List.replicate (plaintext.length + 16) (0 : Byte)).length = ciphertext.length := by
      simp [hlen]
    have htake : (template header s.sendCounters.next deliveryId plaintext).take (HEADER_LEN + 20) ++
        ciphertext = _ := profile3_take header hsize
    rw [← htake]
    simp only [DirectionalSession.encryptProfile3Data, hguard, hreserve,
      DirectionalSession.encryptProfile3Aad, template_packs hv _ deliveryId hmax hfit, haad,
      aeadSeal_eq hn, bind, Except.bind, ciphertext]
  rcases encryptProfile3Data_cases C s header deliveryId plaintext budget with
    ⟨-, ⟨e, he⟩, -⟩ | ⟨call, packet, hcalls, hseals, himage, hdelivery, hout⟩
  · rw [hok] at he
    cases he
  · have hpacket := Except.ok.inj (hout.symm.trans hok)
    refine ⟨call, packet, hcalls, hseals, hout, ?_, _, hpacket⟩
    refine carries3_bytes hv h0 hm ?_ ?_ hpacket himage hdelivery
    · rw [hlen, hseals.plaintext]
    · rwa [hseals.plaintext]

/-- What was sealed in the layout of profile 3 opens in it, while the window takes the counter. -/
theorem previewProfile3Data_carries (hheader : validateProfile3DataHeader header = .ok ())
    (hc : Carries3 C call header deliveryId packet) (hid : deliveryId ≠ 0 ∧ deliveryId ≠ u64Max)
    (hkey : call.key = b.receiveKey) (hfit : packet.length ≤ b.receiveBudget)
    (hdecrypt : ∀ n, nonce call.counter = .ok n → C.aeadDecrypt call.key n call.aad
      (C.aeadEncrypt call.key n call.aad call.plaintext).1
      (C.aeadEncrypt call.key n call.aad call.plaintext).2 = some call.plaintext)
    {token : ReplayCommit} (htoken : b.replay.preview call.counter = .ok token) :
    b.previewProfile3Data C packet = .ok ⟨deliveryId, call.plaintext, token, b.receiveOwner⟩ := by
  have hlen := hc.length
  obtain ⟨n, hn, hbody⟩ := hc.image.body
  have hcounter : u64Of (packet.drop 52) = call.counter := hc.image.counter
  have hdelivery := hc.deliveryId
  have haad : profile3DataAad packet call.counter deliveryId = .ok call.aad := by
    have hunpack : Header.unpack packet = .ok (header, packet.drop 48) := hc.unpack _ hc.bound
    have hread : profile3DataAad packet (u64Of (packet.drop 52)) (u64Of (packet.drop 60)) =
        .ok ((packet.take (HEADER_LEN + 4)).set 5 0 ++ u64Bytes (u64Of (packet.drop 52)) ++
          u64Bytes (u64Of (packet.drop 60))) := by
      unfold profile3DataAad protectedAad
      rw [if_neg (by rw [HEADER_LEN]; omega), hunpack]
      rfl
    rw [← hcounter, ← hdelivery, hread, profile3DataAad_read hread (by omega), hc.image.aad]
  have hopen := aeadOpen_sealed hn (hdecrypt n hn)
  rw [← hbody, hkey] at hopen
  have hshort : ¬ packet.length - 52 < 32 := by omega
  unfold DirectionalSession.previewProfile3Data
  simp only [hc.unpack _ hfit, hc.decode _ hfit, hheader]
  simp [hshort, hcounter, hdelivery, hid, htoken, haad, List.drop_drop, hopen, bind, Except.bind]

/-- Nothing fails once a counter is taken: an encryption seals its packet or does nothing. -/
theorem encryptProfile3Data_atomic (C : Crypto) (s : DirectionalSession) (header : Header)
    (deliveryId : U64) (plaintext : List Byte) (budget : ℕ) :
    (∃ e, s.encryptProfile3Data C header deliveryId plaintext budget = (s, [], .error e)) ∨
      s.encryptProfile3Guard header deliveryId plaintext budget = .ok () ∧
      validateProfile3DataHeader header = .ok () ∧ deliveryId ≠ u64Max ∧
      plaintext.length + 84 ≤ budget ∧ plaintext.length + 84 ≤ SERIALIZED_R8_MAX ∧
      s.canReserve := by
  cases hguard : s.encryptProfile3Guard header deliveryId plaintext budget with
  | error e => exact .inl ⟨e, by simp [DirectionalSession.encryptProfile3Data, hguard]⟩
  | ok _ =>
    right
    have hg := hguard
    simp only [DirectionalSession.encryptProfile3Guard, Outcome.ite_error_eq_ok,
      Outcome.bind_eq_ok] at hg
    obtain ⟨hid, hroom, ⟨⟩, hheader, hpack⟩ := hg
    split at hpack
    · cases hpack
    · rename_i packed hpacked
      obtain ⟨⟨n, hn⟩, -, -⟩ := pack_eq_ok hpacked
      obtain ⟨hmax, -⟩ := checkedPacketLen_eq_ok hn
      simp only [Outcome.ite_error_eq_ok, not_not] at hpack
      rw [profile3Payload_length, List.length_replicate, HEADER_LEN] at hmax
      exact ⟨rfl, hheader, hid, not_lt.mp hroom, by omega, hpack.1⟩

/-- What a call of `seal` puts out. -/
def SealCall.Output (C : Crypto) (call : SealCall) (out : List Byte × Bytes 16) : Prop :=
  ∃ n, nonce call.counter = .ok n ∧ C.aeadEncrypt call.key n call.aad call.plaintext = out

/-- All calls under a key that an ideal cipher answers: no nonce twice, and no output twice. -/
structure Ideal (C : Crypto) (calls : List SealCall) : Prop where
  nonces : ∀ x ∈ calls, ∀ y ∈ calls, x.key = y.key → x.counter = y.counter → x = y
  outputs : ∀ x ∈ calls, ∀ y ∈ calls, x.key = y.key → ∀ out, x.Output C out → y.Output C out → x = y

theorem nonce_injective {c c' : U64} {n : Bytes 12} (h : nonce c = .ok n) (h' : nonce c' = .ok n) :
    c = c' := by
  simp only [nonce, Outcome.ite_error_eq_ok, Except.ok.injEq] at h h'
  have hval := congrArg Subtype.val (h.2.trans h'.2.symm)
  exact u64Bytes_injective (List.append_cancel_left hval)

theorem Image.setHop {k : ℕ} (h : Image C k call packet) (hk : 5 < k) (hop : Byte) :
    Image C k call (packet.set 5 hop) := by
  obtain ⟨hlong, hcounter, haad, hbody⟩ := h
  refine ⟨by rwa [List.length_set], ?_, ?_, ?_⟩
  · rwa [List.drop_set_of_lt (by omega)]
  · rw [haad, List.take_set, List.set_set]
  · rwa [List.drop_set_of_lt hk]

/-- An ideal cipher seals as the one it stands for. -/
theorem Carries3.ideal (h : Carries3 C call header deliveryId packet) (calls : List SealCall) :
    Carries3 (idealAead C calls) call header deliveryId packet :=
  ⟨⟨h.image.long, h.image.counter, h.image.aad, h.image.body⟩, h.length, h.bound, h.deliveryId,
    h.unpack, h.decode⟩

/-- An ideal cipher opens what it has sealed. -/
theorem Ideal.opens {calls : List SealCall} (hideal : Ideal C calls) (hcall : call ∈ calls)
    {n : Bytes 12} (hn : nonce call.counter = .ok n) :
    (idealAead C calls).aeadDecrypt call.key n call.aad
      (C.aeadEncrypt call.key n call.aad call.plaintext).1
      (C.aeadEncrypt call.key n call.aad call.plaintext).2 = some call.plaintext := by
  simp only [idealAead, Option.map_eq_some_iff]
  cases hfind : calls.find? fun other => other.key = call.key ∧ nonce other.counter = .ok n ∧
      other.aad = call.aad ∧ C.aeadEncrypt call.key n call.aad other.plaintext =
        ((C.aeadEncrypt call.key n call.aad call.plaintext).1,
          (C.aeadEncrypt call.key n call.aad call.plaintext).2) with
  | none =>
    have := List.find?_eq_none.mp hfind call hcall
    simp [hn] at this
  | some other =>
    have hp := List.find?_some hfind
    simp only [decide_eq_true_eq] at hp
    obtain ⟨hkey, hother, -, -⟩ := hp
    have : other = call := hideal.nonces other (List.mem_of_find?_eq_some hfind) call hcall hkey
      (nonce_injective hother hn)
    exact ⟨other, rfl, by rw [this]⟩

/-- Whatever opens under an ideal cipher and differs in one byte from what was sealed differs in
the hop limit. -/
theorem Ideal.opens_set {calls : List SealCall} {plaintext' : List Byte} {token : ReplayCommit}
    {i : ℕ} {x : Byte} (hideal : Ideal C calls) (hcall : call ∈ calls)
    (himage : Image C 68 call packet) (hkey : call.key = b.receiveKey) (hi : i < packet.length)
    (hx : x ≠ byteAt packet i)
    (ho : Opens (idealAead C calls) b 68 (packet.set i x) plaintext' token) : i = 5 := by
  obtain ⟨n, hn, data, tag, hdata, hdecrypt⟩ := ho.opened
  obtain ⟨other, hother, hkey', hn', haad, hplain, hout⟩ := idealAead_open hdecrypt
  obtain ⟨m, hm, hbody⟩ := himage.body
  subst hplain
  have hsame : other = call := by
    rcases Nat.lt_or_ge i 68 with hlt | hge
    · -- the ciphertext is that of the packet
      rw [List.drop_set_of_lt hlt, hbody] at hdata
      obtain ⟨h1, h2⟩ := List.append_inj' hdata (by rw [bytes_length, bytes_length])
      refine hideal.outputs other hother call hcall (hkey'.trans hkey.symm) (data, tag)
        ⟨n, hn', by rw [hkey', haad, hout]⟩ ⟨m, hm, Prod.ext h1 (Subtype.ext h2)⟩
    · -- the counter is that of the packet
      have hcounter : u64Of ((packet.set i x).drop 52) = call.counter := by
        rw [← himage.counter, u64Of, u64Of]
        congr 2
        rw [List.drop_set, if_neg (by omega), List.take_set_of_le (by omega)]
      rw [hcounter] at hn
      exact hideal.nonces other hother call hcall (hkey'.trans hkey.symm)
        (nonce_injective hn' hn)
  subst hsame
  obtain rfl : m = n := Except.ok.inj (hm.symm.trans hn')
  have hfront : ((packet.set i x).take 68).set 5 0 = (packet.take 68).set 5 0 := by
    rw [← haad, himage.aad]
  have hback : (packet.set i x).drop 68 = packet.drop 68 := by
    rw [hdata, hbody, haad, hkey', hout]
  have hlong := himage.long
  have hset : (packet.set i x).set 5 0 = packet.set 5 0 := by
    rw [← set_take_append_drop packet (k := 68) (by omega) (by omega), ← hfront, ← hback,
      set_take_append_drop _ (by omega) (by simp; omega)]
  by_contra hne
  have hbyte := congrArg (·[i]?) hset
  simp only [List.getElem?_set_ne (Ne.symm hne), List.getElem?_set_self hi] at hbyte
  apply hx
  rw [byteAt, List.getD_eq_getElem?_getD, ← hbyte, Option.getD_some]

/-- A packet without a hop limit is refused on the wire. -/
theorem unpack_no_hop (hlen : 5 < packet.length) (budget : ℕ) (r : Header × List Byte) :
    Header.unpackWithBudget (packet.set 5 0) budget ≠ .ok r := by
  obtain ⟨h, payload⟩ := r
  intro hu
  obtain ⟨rfl, -, -, hv⟩ := unpack_eq_ok hu
  apply validateHeader_hop_ne hv
  simp [Header.ofBytes, byteAt, List.getD_eq_getElem?_getD, hlen]

/-- The counter of a seal is behind it for good. -/
theorem Seals.next_val {s' : DirectionalSession} (h : Seals s s' call plaintext) :
    s'.sendCounters.next.val = s.sendCounters.next.val + 1 := by
  have hlt := s.sendCounters.next.isLt
  have hne : s.sendCounters.next.val ≠ 2 ^ 64 - 1 := by
    rw [← u64Max_val]
    exact Fin.val_ne_of_ne h.below
  rw [h.next]
  simp only [satAdd_val]
  omega

/-- The receiver at the other end of a sealed packet: it has the key, room for the packet, and a
window that has not seen its counter and still reaches it. -/
structure Awaits (s b : DirectionalSession) (packet : List Byte) (cs : List U64) : Prop where
  key : b.receiveKey = s.sendKey
  budget : packet.length ≤ b.receiveBudget
  window : b.replay.Refines cs
  fresh : ReplayWindow.Fresh cs s.sendCounters.next

variable {s' : DirectionalSession} {cs : List U64} {calls : List SealCall}

theorem Awaits.decrypts (ha : Awaits s b packet cs) (hseals : Seals s s' call plaintext)
    (hideal : Ideal C calls) (hcall : call ∈ calls)
    (hheader : validateProfile3DataHeader header = .ok ())
    (hc : Carries3 C call header deliveryId packet) (hid : deliveryId ≠ 0 ∧ deliveryId ≠ u64Max) :
    ∃ b', b.decryptProfile3Data (idealAead C calls) packet = (b', .ok (deliveryId, plaintext)) := by
  have hkey : call.key = b.receiveKey := hseals.key.trans ha.key.symm
  have hfresh : ReplayWindow.Fresh cs call.counter := by
    rw [hseals.counter]
    exact ha.fresh
  have htoken := (ReplayWindow.preview?_eq_ok_iff ha.window ⟨call.counter, b.replay.generation⟩).mpr
    ⟨hfresh, rfl⟩
  have hpreview : b.replay.preview call.counter = .ok ⟨call.counter, b.replay.generation⟩ := by
    rw [ReplayWindow.preview, htoken, Option.getD_some]
  obtain ⟨w', hcommit, -⟩ := ReplayWindow.commit_of_preview ha.window hpreview
  have hopen := previewProfile3Data_carries hheader (hc.ideal calls) hid hkey ha.budget
    (fun n hn => hideal.opens hcall hn) hpreview
  refine ⟨{ b with replay := w' }, ?_⟩
  simp [DirectionalSession.decryptProfile3Data, hopen, DirectionalSession.commitProfile3Data,
    hcommit, hseals.plaintext]

theorem Awaits.refuses (ha : Awaits s b packet cs) (hseals : Seals s s' call plaintext)
    (hideal : Ideal C calls) (hcall : call ∈ calls) (himage : Image C 68 call packet) {i : ℕ}
    {x : Byte} (hi : i < packet.length) (hx : x ≠ byteAt packet i) (hhop : i = 5 → x = 0) :
    ∃ e, b.decryptProfile3Data (idealAead C calls) (packet.set i x) = (b, .error e) := by
  cases hp : b.previewProfile3Data (idealAead C calls) (packet.set i x) with
  | error e => exact ⟨e, by simp [DirectionalSession.decryptProfile3Data, hp]⟩
  | ok p =>
    obtain ⟨ho, -, -⟩ := previewProfile3Data_opens hp
    obtain rfl := hideal.opens_set hcall himage (hseals.key.trans ha.key.symm) hi hx ho
    obtain ⟨r, hr⟩ := ho.unpacks
    rw [hhop rfl] at hr
    exact absurd hr (unpack_no_hop hi _ r)

/-- Profile-3 data is sealed whole or not at all; what was sealed opens under any hop limit, and no
packet opens that differs from it in another byte. -/
theorem profile3_round_trip (C : Crypto) (s : DirectionalSession) (header : Header)
    (deliveryId : U64) (plaintext : List Byte) (budget : ℕ) (hid : deliveryId ≠ 0) :
    let r := s.encryptProfile3Data C header deliveryId plaintext budget
    (∀ e, r.2.2 = .error e → r.1.sendCounters = s.sendCounters) ∧
    ∀ packet, r.2.2 = .ok packet →
      packet.length = plaintext.length + 84 ∧ packet.length ≤ budget ∧
      r.1.sendCounters.next.val = s.sendCounters.next.val + 1 ∧
      ∃ call, r.2.1 = [call] ∧ ∀ calls, call ∈ calls → Ideal C calls → ∀ b cs,
        Awaits s b packet cs →
        (∀ hop, hop ≠ 0 → ∃ b', b.decryptProfile3Data (idealAead C calls) (packet.set 5 hop) =
          (b', .ok (deliveryId, plaintext))) ∧
        ∀ i x, i < packet.length → x ≠ byteAt packet i → (i = 5 → x = 0) →
          ∃ e, b.decryptProfile3Data (idealAead C calls) (packet.set i x) = (b, .error e) := by
  rcases encryptProfile3Data_atomic C s header deliveryId plaintext budget with
    ⟨e, he⟩ | ⟨-, hheader, hmaxId, hfit, hmax, hcan⟩
  · simp [he]
  have hv := validateProfile3DataHeader_eq_ok.mp hheader
  obtain ⟨call, packet, hcalls, hseals, hout, hc, ciphertext, hpacket⟩ :=
    encryptProfile3Data_carries C hheader hmaxId hfit hmax hcan
  intro r
  refine ⟨?_, ?_⟩
  · intro e he
    rw [hout] at he
    cases he
  · intro packet' hpacket'
    obtain rfl := Except.ok.inj (hout.symm.trans hpacket')
    have hlen : packet.length = plaintext.length + 84 := by rw [hc.length, hseals.plaintext]
    refine ⟨hlen, by omega, hseals.next_val, call, hcalls, ?_⟩
    intro calls hcall hideal b cs ha
    refine ⟨?_, fun i x => ha.refuses hseals hideal hcall hc.image⟩
    intro hop hne
    have hset : packet.set 5 hop = { header with hopLimit := hop }.bytes
        (DirectionalSession.profile3Payload s.sendCounters.next deliveryId ciphertext) := by
      rw [hpacket, Header.set_hop]
    have hsize : ciphertext.length = call.plaintext.length + 16 := by
      have h := hc.length
      rw [hpacket, Header.bytes_eq, List.length_append, Header.fixed_length,
        profile3Payload_length] at h
      omega
    have hc' : Carries3 C call { header with hopLimit := hop } deliveryId (packet.set 5 hop) := by
      refine carries3_bytes (hv.setHop hne) hseals.nonzero hseals.below hsize ?_ hset
        (hc.image.setHop (by omega) hop) ?_
      · rwa [hseals.plaintext]
      · rw [List.drop_set_of_lt (by omega)]
        exact hc.deliveryId
    have ha' : Awaits s b (packet.set 5 hop) cs := by
      refine ⟨ha.key, ?_, ha.window, ha.fresh⟩
      rw [List.length_set]
      exact ha.budget
    exact ha'.decrypts hseals hideal hcall
      (validateProfile3DataHeader_eq_ok.mpr (hv.setHop hne)) hc' ⟨hid, hmaxId⟩

namespace Sample

def sender : DirectionalSession :=
  .new 1 (bytesOf 32 3) (bytesOf 32 4) (bytesOf 32 9) 1280

def receiver : DirectionalSession :=
  .new 2 (bytesOf 32 4) (bytesOf 32 3) (bytesOf 32 9) 1280

def dataHeader : Header := ⟨3, 0, NH_SES, 64, 1, 0, 5, bytesOf 16 20, bytesOf 16 21⟩

end Sample

/-- A lone packet opens under another hop limit, and not with its last byte changed. -/
theorem profile3_round_trip_two_bytes : ∃ packet call,
    (Sample.sender.encryptProfile3Data .sample Sample.dataHeader 7 [4, 5] 1280).2.2 =
      .ok packet ∧ packet.length = 86 ∧
    (∃ b', Sample.receiver.decryptProfile3Data (idealAead .sample [call]) (packet.set 5 9) =
      (b', .ok (7, [4, 5]))) ∧
    ∃ e, Sample.receiver.decryptProfile3Data (idealAead .sample [call])
      (packet.set 85 (byteAt packet 85 + 1)) = (Sample.receiver, .error e) := by
  have hheader : validateProfile3DataHeader Sample.dataHeader = .ok () := by decide
  have hid : (7 : U64) ≠ u64Max := by decide
  have hfit : ([4, 5] : List Byte).length + 84 ≤ 1280 := by decide
  have hcan : Sample.sender.canReserve = true := by decide
  obtain ⟨call, packet, -, -, hout, -⟩ :=
    encryptProfile3Data_carries .sample hheader hid hfit (by decide) hcan
  obtain ⟨-, hok⟩ := profile3_round_trip .sample Sample.sender Sample.dataHeader 7 [4, 5] 1280
    (by decide)
  obtain ⟨hlen, -, -, call, -, hopen⟩ := hok packet hout
  have hlen' : packet.length = 86 := hlen
  have hideal : Ideal .sample [call] := by
    constructor <;> simp
  have hawaits : Awaits Sample.sender Sample.receiver packet [] := by
    refine ⟨rfl, ?_, .new, by decide, by simp, by simp⟩
    rw [hlen']
    decide
  obtain ⟨hhop, hbyte⟩ := hopen [call] List.mem_cons_self hideal Sample.receiver [] hawaits
  refine ⟨packet, call, hout, hlen', hhop 9 (by decide), hbyte 85 _ (by omega) ?_
    (fun h => absurd h (by decide))⟩
  intro heq
  have hval := congrArg Fin.val heq
  have hone : ((1 : Byte) : ℕ) = 1 := rfl
  rw [Fin.val_add, hone] at hval
  omega

end R8.Session
