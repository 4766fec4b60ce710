import R8Protocol.Session.Tables

/-! A server call that fails changes nothing but what has expired. -/
namespace R8.Session

open FixedWidth Wire

variable {C : Crypto} {s : DirectionalSession} {packet plaintext : List Byte}

/-- The cipher decrypts in place, as it encrypts. -/
def InPlace (C : Crypto) : Prop :=
  ∀ key n aad data tag plaintext, C.aeadDecrypt key n aad data tag = some plaintext →
    plaintext.length = data.length

theorem commit_error (hs : s.Sane) {p : ProtectedPreview} {e : SessionError}
    (h : (s.commit p).2 = .error e) : (s.commit p).1 = s := by
  obtain ⟨cs, hr⟩ := hs
  unfold DirectionalSession.commit at h ⊢
  split
  · rfl
  · rename_i howner
    rw [if_neg howner] at h
    rcases ReplayWindow.commit_cases hr p.commit with ⟨e, he⟩ | ⟨-, w', he, -⟩
    · rw [he]
    · rw [he] at h
      simp at h

theorem commitProtectedReplay_error (hs : s.Sane) {p : ProtectedReplayProof} {e : SessionError}
    (h : (s.commitProtectedReplay p).2.2 = .error e) : (s.commitProtectedReplay p).1 = s := by
  obtain ⟨cs, hr⟩ := hs
  unfold DirectionalSession.commitProtectedReplay at h ⊢
  split
  · rfl
  · rename_i hcommitted
    rw [if_neg hcommitted] at h
    split
    · rfl
    · rename_i preview hpreview
      rw [hpreview] at h
      dsimp only at h ⊢
      split
      · rfl
      · rename_i howner
        rw [if_neg howner] at h
        rcases ReplayWindow.commit_cases hr preview.commit with ⟨e, he⟩ | ⟨-, w', he, -⟩
        · rw [he]
        · rw [he] at h
          simp at h

/-- A preview can be committed right away. -/
theorem commit_of_preview (hs : s.Sane) {p : ProtectedPreview} (hp : s.preview C packet = .ok p) :
    (s.commit p).2 = .ok p.plaintext := by
  obtain ⟨cs, hr⟩ := hs
  obtain ⟨ho, howner⟩ := preview_opens hp
  obtain ⟨w', hw', -⟩ := ReplayWindow.commit_of_preview hr ho.replay
  unfold DirectionalSession.commit
  rw [if_neg (not_not.mpr howner.symm), hw']

theorem decrypt_error (hs : s.Sane) {e : SessionError} (h : (s.decrypt C packet).2 = .error e) :
    (s.decrypt C packet).1 = s := by
  unfold DirectionalSession.decrypt at h ⊢
  split
  · rfl
  · rename_i p hp
    rw [hp] at h
    dsimp only at h
    rw [commit_of_preview hs hp] at h
    simp at h

theorem decrypt_preview (h : (s.decrypt C packet).2 = .ok plaintext) :
    ∃ p, s.preview C packet = .ok p ∧ p.plaintext = plaintext := by
  unfold DirectionalSession.decrypt at h
  split at h
  · simp at h
  · rename_i p hp
    refine ⟨p, hp, ?_⟩
    unfold DirectionalSession.commit at h
    split at h
    · simp at h
    · rcases hr : s.replay.commit p.commit with ⟨replay, e | ⟨⟩⟩
      · rw [hr] at h
        simp at h
      · rw [hr] at h
        simpa using h

/-- The plaintext is what the packet has beyond header, prefix, counter and tag. -/
theorem preview_length (hC : InPlace C) {p : ProtectedPreview} (hp : s.preview C packet = .ok p) :
    p.plaintext.length + 76 = packet.length := by
  obtain ⟨ho, -⟩ := preview_opens hp
  have hlong := ho.long
  obtain ⟨n, -, data, tag, hdrop, hopen⟩ := ho.opened
  have hlen := congrArg List.length hdrop
  rw [List.length_drop, List.length_append, tag.property] at hlen
  rw [hC _ _ _ _ _ _ hopen]
  omega

/-- A CLOSE that opens has exactly two bytes in it. -/
theorem closeCode_of_decrypt (hC : InPlace C) {header : Header} {payload : List Byte} {budget : ℕ}
    {profile : Byte} {message : SessionMessage}
    (hu : Header.unpackWithBudget packet budget = .ok (header, payload))
    (hm : SessionMessage.decode payload profile budget = .ok message) (ht : message.typ = CLOSE)
    (hd : (s.decrypt C packet).2 = .ok plaintext) : ∃ code, closeCode plaintext = .ok code := by
  obtain ⟨p, hp, rfl⟩ := decrypt_preview hd
  have hlen := preview_length hC hp
  obtain ⟨-, rfl, h48, -⟩ := unpack_eq_ok hu
  obtain ⟨hbody, htyp, -⟩ := decode_eq_ok hm
  have hexact : message.body.length = 26 := by
    simp only [SessionMessage.decode, Outcome.ite_error_eq_ok, Outcome.bind_eq_ok] at hm
    obtain ⟨-, -, -, -, -, -, ⟨⟩, hv, -⟩ := hm
    rw [htyp] at ht
    rw [ht] at hv
    simp only [validateBody, bodyLength] at hv
    rw [← hbody] at hv
    simp [OPEN, VERIFY_COOKIE, OPEN_AUTH, OPEN_ACK, SESSION_ACCEPT, CLOSE, SESSION_DATA] at hv
    exact hv.2.1
  rw [hbody, List.length_drop, List.length_drop] at hexact
  rw [HEADER_LEN] at h48 hexact
  have h2 : p.plaintext.length = 2 := by omega
  exact ⟨_, if_pos h2⟩

/-- The header a machine sends under passes every check, whatever the payload. -/
theorem validate_sesHeader {profile typ : Byte} {scid counter : U64} {src dst : Bytes 16}
    (hp : profile ≤ 3) (hs : scid ≠ 0) (ht : typ ∈ [SESSION_ACCEPT, SESSION_DATA, CLOSE])
    (rest : List Byte) :
    validateHeader (sesHeader profile 1 scid src dst)
      (DirectionalSession.protectedPayload typ profile counter rest) = .ok () := by
  have htyp : typ = 5 ∨ typ = 6 ∨ typ = 7 := by
    simpa [SESSION_ACCEPT, SESSION_DATA, CLOSE] using ht
  have hlen : ¬ (DirectionalSession.protectedPayload typ profile counter rest).length < 4 := by
    rw [protectedPayload_length]
    omega
  have hsize : 1 ≤ typ ∧ typ ≤ 7 := by
    rcases htyp with rfl | rfl | rfl <;> decide
  simp only [validateHeader, sesHeader, validateSesHeader, if_neg hs, if_neg hlen]
  simp [DirectionalSession.protectedPayload, byteAt, SESSION_VERSION, NH_CTL, NH_DGRAM, NH_SES,
    NH_NONE, not_lt.mpr hp, validateSesSlot, hsize]
  rcases htyp with rfl | rfl | rfl <;> simp

section

variable {profile typ : Byte} {scid : U64} {budget : ℕ} (counter : U64) (src dst : Bytes 16)

/-- Such a header packs in front of anything that fits. -/
theorem pack_sesHeader (hp : profile ≤ 3) (hs : scid ≠ 0)
    (ht : typ ∈ [SESSION_ACCEPT, SESSION_DATA, CLOSE]) (hb : budget ≤ SERIALIZED_R8_MAX)
    {rest : List Byte} (hrest : 60 + rest.length ≤ budget) :
    (sesHeader profile 1 scid src dst).packWithBudget
        (DirectionalSession.protectedPayload typ profile counter rest) budget =
      .ok ((sesHeader profile 1 scid src dst).bytes
        (DirectionalSession.protectedPayload typ profile counter rest)) ∧
    Header.unpack ((sesHeader profile 1 scid src dst).bytes
        (DirectionalSession.protectedPayload typ profile counter rest)) =
      .ok (sesHeader profile 1 scid src dst,
        DirectionalSession.protectedPayload typ profile counter rest) := by
  have hfit : HEADER_LEN + (DirectionalSession.protectedPayload typ profile counter rest).length ≤
      budget := by
    rw [protectedPayload_length, HEADER_LEN]
    omega
  have hv : validateHeader (sesHeader profile 1 scid src dst)
      (DirectionalSession.protectedPayload typ profile counter rest) = .ok () :=
    validate_sesHeader hp hs ht rest
  exact ⟨pack_of_validate hv (hfit.trans hb) hfit, unpack_bytes hv (hfit.trans hb) (hfit.trans hb)⟩

theorem encryptAad_sesHeader (hp : profile ≤ 3) (hs : scid ≠ 0)
    (ht : typ ∈ [SESSION_ACCEPT, SESSION_DATA, CLOSE]) (hb : budget ≤ SERIALIZED_R8_MAX)
    (hroom : 12 + plaintext.length + 16 + 48 ≤ budget) :
    ∃ aad, DirectionalSession.encryptAad (sesHeader profile 1 scid src dst) typ counter plaintext
      budget = .ok aad := by
  have hrest : 60 + (List.replicate (plaintext.length + 16) (0 : Byte)).length ≤ budget := by
    rw [List.length_replicate]
    omega
  obtain ⟨hpack, hunpack⟩ := pack_sesHeader counter src dst hp hs ht hb hrest
  have hprofile : (sesHeader profile 1 scid src dst).profile = profile := rfl
  unfold DirectionalSession.encryptAad
  rw [hprofile, hpack]
  dsimp only
  unfold protectedAad
  rw [if_neg, hunpack]
  · exact ⟨_, rfl⟩
  · rw [Header.bytes_eq, List.length_append, Header.fixed_length, protectedPayload_length,
      HEADER_LEN]
    omega

/-- Sealing under such a header gets a packet out once its first checks pass and a counter is
left. -/
theorem encrypt_sesHeader_ok (hp : profile ≤ 3) (hs : scid ≠ 0) (hb : budget ≤ SERIALIZED_R8_MAX)
    (hguard : DirectionalSession.encryptGuard typ plaintext budget = .ok ())
    (hcan : s.canReserve) :
    ∃ packet, (s.encrypt C (sesHeader profile 1 scid src dst) typ plaintext budget).2.2 =
      .ok packet := by
  obtain ⟨h0, hm⟩ : s.sendCounters.next ≠ 0 ∧ s.sendCounters.next ≠ u64Max := by
    simpa [DirectionalSession.canReserve, Counters.canReserve] using hcan
  obtain ⟨ht, hroom⟩ : typ ∈ [SESSION_ACCEPT, SESSION_DATA, CLOSE] ∧
      12 + plaintext.length + 16 + 48 ≤ budget := by
    simp only [DirectionalSession.encryptGuard, Outcome.ite_error_eq_ok, not_not] at hguard
    exact ⟨hguard.1, not_lt.mp hguard.2.2.2.1⟩
  have hreserve : s.sendCounters.reserve =
      .ok (s.sendCounters.next, ⟨satAdd s.sendCounters.next 1⟩) := by
    simp [Counters.reserve, h0, hm]
  obtain ⟨aad, haad⟩ := encryptAad_sesHeader s.sendCounters.next src dst hp hs ht hb hroom
  obtain ⟨n, hn⟩ := nonce_ok h0 hm
  have hsealed := sealed_length C s.sendKey n aad plaintext
  have hrest : 60 + ((C.aeadEncrypt s.sendKey n aad plaintext).1 ++
      (C.aeadEncrypt s.sendKey n aad plaintext).2.val).length ≤ budget := by
    omega
  obtain ⟨hpack, -⟩ := pack_sesHeader s.sendCounters.next src dst hp hs ht hb hrest
  have hprofile : (sesHeader profile 1 scid src dst).profile = profile := rfl
  let ciphertext := (C.aeadEncrypt s.sendKey n aad plaintext).1 ++
    (C.aeadEncrypt s.sendKey n aad plaintext).2.val
  refine ⟨(sesHeader profile 1 scid src dst).bytes
    (DirectionalSession.protectedPayload typ profile s.sendCounters.next ciphertext), ?_⟩
  unfold DirectionalSession.encrypt
  simp only [hguard, hreserve, haad, DirectionalSession.encryptPacket, aeadSeal_eq hn, bind,
    Except.bind, hprofile, hpack, ciphertext]

/-- Sealing under such a header fails only in its first checks or for want of a counter. -/
theorem encrypt_sesHeader_error {e : SessionError} (hp : profile ≤ 3) (hs : scid ≠ 0)
    (hb : budget ≤ SERIALIZED_R8_MAX)
    (h : (s.encrypt C (sesHeader profile 1 scid src dst) typ plaintext budget).2.2 = .error e) :
    (s.encrypt C (sesHeader profile 1 scid src dst) typ plaintext budget).1 = s := by
  cases hguard : DirectionalSession.encryptGuard typ plaintext budget with
  | error e' =>
    unfold DirectionalSession.encrypt
    rw [hguard]
  | ok u =>
    by_cases hcan : s.canReserve
    · obtain ⟨packet, hok⟩ := encrypt_sesHeader_ok (C := C) src dst hp hs hb hguard hcan
      rw [hok] at h
      cases h
    · have hreserve : s.sendCounters.reserve = .error .counterExhausted := by
        simp only [DirectionalSession.canReserve, Counters.canReserve, decide_eq_true_eq] at hcan
        exact if_pos (by rwa [not_and_or, not_not, not_not] at hcan)
      unfold DirectionalSession.encrypt
      rw [hguard]
      dsimp only
      rw [hreserve]

end

namespace ServerMachine

variable {m m' : ServerMachine}

def errorOf {α : Type} : Except SessionError α → Option SessionError
  | .error e => some e
  | .ok _ => none

/-- The error a call returns, if it fails. -/
def error? (C : Crypto) (m : ServerMachine) : ServerCall → Option SessionError
  | .receiveOpen packet binding bucket => errorOf (m.receiveOpen C packet binding bucket)
  | .receiveOpenAuth packet binding nowMs bucket material owner =>
    errorOf (m.receiveOpenAuth C packet binding nowMs bucket material owner).2
  | .receiveAccept packet nowMs => errorOf (m.receiveAccept C packet nowMs).2
  | .receiveData packet nowMs => errorOf (m.receiveData C packet nowMs).2
  | .previewData packet sources destinations nowMs =>
    errorOf (m.previewDataWithLocs C packet sources destinations nowMs).2
  | .commitData preview nowMs => errorOf (m.commitData preview nowMs).2
  | .commitProtectedReplay scid proof nowMs =>
    errorOf (m.commitProtectedReplay scid proof nowMs).2.2
  | .sendData scid plaintext source destination =>
    errorOf (m.sendDataWithLocs C scid plaintext source destination).2.2
  | .close scid code => errorOf (m.close C scid code).2.2
  | .receiveClose packet nowMs => errorOf (m.receiveClose C packet nowMs).2
  | .takeProfile3Bootstrap scid => errorOf (m.takeProfile3Bootstrap scid).2
  | _ => none

structure Healthy (C : Crypto) (m : ServerMachine) : Prop where
  tables : Tables m
  config : m.config.validate C = .ok ()
  pending : ∀ p ∈ m.pending, p.session.Sane
  established : ∀ e ∈ m.established, e.session.Sane

theorem healthy_expire (h : Healthy C m) (nowMs : U64) : Healthy C (m.expire nowMs) where
  tables := tables_expire h.tables nowMs
  config := h.config
  pending p hp := h.pending p (List.mem_of_mem_filter hp)
  established e he := h.established e (List.mem_of_mem_filter he)

theorem Shift.healthy {now? : Option U64} {h? : Option Handshake} (hs : Shift C now? h? m m')
    (h : Healthy C m) : Healthy C m' := by
  refine ⟨hs.tables h.tables, ?_, ?_, ?_⟩
  · cases hs <;> exact h.config
  · cases hs with
    | same | session | touch | remove | locs | material => exact h.pending
    | opened entry _ _ _ _ _ hanswers =>
      intro p hp
      rcases List.mem_append.mp hp with hp | hp
      · exact h.pending p hp
      · obtain ⟨owner, hsession⟩ := hanswers.session
        rw [List.mem_singleton.mp hp]
        exact session_sane hsession
    | repend i s hadv =>
      intro p hp
      rcases List.mem_or_eq_of_mem_set hp with hp | rfl
      · exact h.pending p hp
      · exact hadv.sane (h.pending _ (List.get_mem _ _))
    | accepted i => exact fun p hp => h.pending p (List.mem_of_mem_eraseIdx hp)
    | restart => exact fun p hp => by cases hp
  · cases hs with
    | same | opened | repend | locs | material => exact h.established
    | session i s hadv =>
      intro e he
      rcases List.mem_or_eq_of_mem_set he with he | rfl
      · exact h.established e he
      · exact hadv.sane (h.established _ (List.get_mem _ _))
    | touch i s nowMs _ hadv =>
      intro e he
      rcases List.mem_or_eq_of_mem_set he with he | rfl
      · exact h.established e he
      · exact hadv.sane (h.established _ (List.get_mem _ _))
    | remove i => exact fun e he => h.established e (List.mem_of_mem_eraseIdx he)
    | accepted i s packet nowMs _ _ hadv =>
      intro e he
      rcases List.mem_append.mp he with he | he
      · exact h.established e he
      · rw [List.mem_singleton.mp he]
        exact hadv.sane (h.pending _ (List.get_mem _ _))
    | restart => exact fun e he => by cases he

theorem healthy_reach (h : Reach C m) : Healthy C m := by
  refine h.invariant ?_ ?_
  · rintro s ⟨config, signingKey, material, hnew⟩
    obtain ⟨hv, rfl⟩ := new_eq_ok hnew
    refine ⟨⟨by simp [scids], by simp [scids], Nat.zero_le _, Nat.zero_le _⟩, hv, ?_, ?_⟩ <;> simp
  · intro s call hs _
    rcases step_shifts (C := C) s call with hshift | ⟨nowMs, -, hshift⟩
    · exact hshift.healthy hs
    · exact hshift.healthy (healthy_expire hs nowMs)

theorem setSession_self (m : ServerMachine) (i : Fin m.established.length) :
    m.setSession i (m.established.get i).session = m := by
  unfold setSession
  have : m.established.set i (m.established.get i) = m.established := by simp
  exact congrArg (fun l => { m with established := l }) this

theorem errorOf_eq_some {α : Type} {r : Except SessionError α} {e : SessionError} :
    errorOf r = some e ↔ r = .error e := by
  cases r <;> simp [errorOf]

theorem Healthy.position_ne_zero (h : Healthy C m) {scid : U64} {i : Fin m.established.length}
    (hi : m.position scid = some i) : scid ≠ 0 := by
  intro hz
  refine h.tables.nonzero (List.mem_append_right _ (List.mem_map.mpr ⟨m.established.get i, ?_, ?_⟩))
  · exact List.get_mem _ _
  · rw [position_scid hi, hz]

theorem Healthy.config_bounds (h : Healthy C m) :
    m.config.profile ≤ 3 ∧ m.config.budget ≤ SERIALIZED_R8_MAX := by
  have hv := h.config
  simp only [HandshakeConfig.validate, Outcome.bind_eq_ok, Outcome.ite_error_eq_ok] at hv
  obtain ⟨⟨⟩, -, ⟨⟩, -, -, -, hbounds, -⟩ := hv
  push Not at hbounds
  exact ⟨hbounds.1, hbounds.2.1.2⟩

variable {e : SessionError}

theorem receiveOpenAuth_error {packet : List Byte} {binding : ObservedBinding} {nowMs bucket : U64}
    {material : Option ServerHandshakeMaterial} {owner : ℕ}
    (he : (m.receiveOpenAuth C packet binding nowMs bucket material owner).2 = .error e) :
    (m.receiveOpenAuth C packet binding nowMs bucket material owner).1 = m ∨
      (m.receiveOpenAuth C packet binding nowMs bucket material owner).1 = m.expire nowMs := by
  unfold receiveOpenAuth at he ⊢
  split
  · exact .inl rfl
  · rename_i hb
    right
    simp only [hb] at he
    dsimp only
    split
    · rfl
    · rfl
    · rename_i hreq
      simp only [hreq] at he
      split
      · rfl
      · rename_i hans
        rw [hans] at he
        simp at he

theorem receiveAccept_error (h : Healthy C m) {packet : List Byte} {nowMs : U64}
    (he : (m.receiveAccept C packet nowMs).2 = .error e) :
    (m.receiveAccept C packet nowMs).1 = m.expire nowMs := by
  have h' := healthy_expire h nowMs
  unfold receiveAccept at he ⊢
  dsimp only at he ⊢
  generalize m.expire nowMs = m at h' he ⊢
  split
  · rfl
  · rename_i scid hscid
    simp only [hscid] at he
    split
    · rfl
    · rename_i hfree
      simp only [hfree] at he
      split
      · rfl
      · rename_i i hi
        simp only [hi] at he
        unfold acceptPending at he ⊢
        dsimp only at he ⊢
        split
        · rfl
        · rename_i preview hp
          simp only [hp] at he
          split
          · rfl
          · rename_i hconf
            rw [if_neg hconf] at he
            split
            · rfl
            · rename_i hroom
              -- the preview was made just now, so its commit cannot fail
              have hok := commit_of_preview (h'.pending _ (List.get_mem _ i)) hp
              rw [if_neg hroom] at he
              rcases hr : (m.pending.get i).session.commit preview with ⟨session, e' | plaintext⟩
              · rw [hr] at hok
                simp at hok
              · rw [hr] at he
                simp at he

theorem commitData_error (h : Healthy C m) {p : DataPreview} {nowMs : U64}
    (he : (m.commitData p nowMs).2 = .error e) :
    (m.commitData p nowMs).1 = m ∨ (m.commitData p nowMs).1 = m.expire nowMs := by
  have h' := healthy_expire h nowMs
  unfold commitData at he ⊢
  split
  · exact .inl rfl
  · rename_i hscid
    right
    rw [if_neg hscid] at he
    dsimp only at he ⊢
    generalize m.expire nowMs = m at h' he ⊢
    split
    · rfl
    · rename_i i hi
      simp only [hi] at he
      have hs := h'.established _ (List.get_mem _ i)
      rcases hr : (m.established.get i).session.commit p.commit with ⟨session, e' | plaintext⟩
      · have hsame : session = (m.established.get i).session := by
          have := commit_error hs (congrArg Prod.snd hr)
          rwa [hr] at this
        dsimp only
        rw [hsame, setSession_self]
      · rw [hr] at he
        simp at he

theorem receiveData_error (h : Healthy C m) {packet : List Byte} {nowMs : U64}
    (he : (m.receiveData C packet nowMs).2 = .error e) :
    (m.receiveData C packet nowMs).1 = m.expire nowMs := by
  have h' := healthy_expire h nowMs
  unfold receiveData previewDataWithLocs at he ⊢
  simp only [expire_expire] at he ⊢
  split
  · rename_i hp
    exact (Prod.mk.inj hp).1.symm
  · rename_i m' p hp
    rw [hp] at he
    obtain ⟨rfl, -⟩ := Prod.mk.inj hp
    rcases commitData_error h' he with hs | hs
    · exact hs
    · rw [hs, expire_expire]

theorem commitProtectedReplay_server_error (h : Healthy C m) {scid : U64}
    {proof : ProtectedReplayProof} {nowMs : U64}
    (he : (m.commitProtectedReplay scid proof nowMs).2.2 = .error e) :
    (m.commitProtectedReplay scid proof nowMs).1 = m.expire nowMs := by
  have h' := healthy_expire h nowMs
  unfold commitProtectedReplay at he ⊢
  dsimp only at he ⊢
  generalize m.expire nowMs = m at h' he ⊢
  split
  · rfl
  · rename_i i hi
    simp only [hi] at he
    rw [Session.commitProtectedReplay_error (h'.established _ (List.get_mem _ i)) he, setSession_self]

theorem sendDataWithLocs_error (h : Healthy C m) {scid : U64} {plaintext : List Byte}
    {source destination : Bytes 16} (hne : e ≠ .counterExhausted)
    (he : (m.sendDataWithLocs C scid plaintext source destination).2.2 = .error e) :
    (m.sendDataWithLocs C scid plaintext source destination).1 = m := by
  unfold sendDataWithLocs at he ⊢
  split
  · rfl
  · rename_i i hi
    simp only [hi] at he
    dsimp only
    rw [if_neg (by rw [he]; simpa using hne)]
    have hs := encrypt_sesHeader_error source destination h.config_bounds.1
      (h.position_ne_zero hi) h.config_bounds.2 he
    unfold encrypt
    rw [hs, setSession_self]

/-- A payload that does not fit is refused before a counter is reserved. -/
theorem sendDataWithLocs_oversize {scid : U64} {plaintext : List Byte} (source destination : Bytes 16)
    (hlong : m.config.budget < 12 + plaintext.length + 16 + 48) :
    m.step C (.sendData scid plaintext source destination) = m := by
  change (m.sendDataWithLocs C scid plaintext source destination).1 = m
  unfold sendDataWithLocs
  split
  · rfl
  · rename_i i hi
    have hguard : DirectionalSession.encryptGuard SESSION_DATA plaintext m.config.budget =
        .error .budget := by
      simp [DirectionalSession.encryptGuard, SESSION_ACCEPT, SESSION_DATA, CLOSE, hlong]
    dsimp only
    unfold encrypt DirectionalSession.encrypt
    rw [hguard]
    exact setSession_self m i

theorem close_error (h : Healthy C m) {scid : U64} {code : U16} (hne : e ≠ .counterExhausted)
    (he : (m.close C scid code).2.2 = .error e) : (m.close C scid code).1 = m := by
  unfold close at he ⊢
  split
  · rfl
  · rename_i i hi
    simp only [hi] at he
    dsimp only at he ⊢
    have hs : ∀ e, (m.encrypt C i scid CLOSE (u16Bytes code) m.effectiveLocalLoc
        m.effectivePeerLoc).2.2 = .error e →
        (m.encrypt C i scid CLOSE (u16Bytes code) m.effectiveLocalLoc m.effectivePeerLoc).1 =
          (m.established.get i).session := fun e he =>
      encrypt_sesHeader_error _ _ h.config_bounds.1 (h.position_ne_zero hi) h.config_bounds.2 he
    generalize m.encrypt C i scid CLOSE _ _ _ = r at hs he ⊢
    obtain ⟨session, calls, e' | packet⟩ := r
    · have hsame : session = (m.established.get i).session := hs e' rfl
      cases e' <;> first
        | exact absurd (Except.error.inj he).symm hne
        | exact hsame ▸ setSession_self m i
    · simp at he

theorem receiveClose_error (hC : InPlace C) (h : Healthy C m) {packet : List Byte} {nowMs : U64}
    (he : (m.receiveClose C packet nowMs).2 = .error e) :
    (m.receiveClose C packet nowMs).1 = m.expire nowMs := by
  have h' := healthy_expire h nowMs
  unfold receiveClose at he ⊢
  dsimp only at he ⊢
  generalize m.expire nowMs = m at h' he ⊢
  split
  · rfl
  · rename_i header payload hopen
    simp only [hopen] at he
    split
    · rfl
    · rename_i i hi
      simp only [hi] at he
      split
      · rfl
      · rename_i message hm
        simp only [hm] at he
        split
        · rfl
        · rename_i htyp
          rw [if_neg htyp] at he
          have hs := h'.established _ (List.get_mem _ i)
          rcases hr : (m.established.get i).session.decrypt C packet with ⟨session, e' | plaintext⟩
          · have hsame : session = (m.established.get i).session := by
              have := decrypt_error hs (congrArg Prod.snd hr)
              rwa [hr] at this
            dsimp only
            rw [hsame, setSession_self]
          · rw [hr] at he
            simp only [Outcome.bind_eq_ok, Outcome.mapError_eq_ok] at hopen
            obtain ⟨⟨header', payload'⟩, hu, ⟨⟩, hv, heq⟩ := hopen
            obtain ⟨rfl, rfl⟩ := Prod.mk.inj (Except.ok.inj heq)
            obtain ⟨code, hcode⟩ := closeCode_of_decrypt hC hu hm (not_not.mp htyp)
              (congrArg Prod.snd hr)
            simp [hcode] at he

theorem takeProfile3Bootstrap_error {scid : U64}
    (he : (m.takeProfile3Bootstrap scid).2 = .error e) : (m.takeProfile3Bootstrap scid).1 = m := by
  unfold takeProfile3Bootstrap at he ⊢
  split
  · rfl
  · rename_i hprofile
    rw [if_neg hprofile] at he
    split
    · rfl
    · rename_i i hi
      simp only [hi] at he
      dsimp only at he ⊢
      split
      · rename_i schedule hschedule
        rw [hschedule] at he
        simp at he
      · rfl

/-- A call that fails for any reason but a spent counter leaves the machine as it was, or as expiry
alone leaves it; an oversize send takes no counter, and a CLOSE that opens always holds a code. -/
theorem server_errors_atomic (hC : InPlace C) (h : Reach C m) :
    (∀ call e, m.error? C call = some e → e ≠ .counterExhausted →
      m.step C call = m ∨ ∃ nowMs, call.time? = some nowMs ∧ m.step C call = m.expire nowMs) ∧
    (∀ scid plaintext source destination,
      m.config.budget < 12 + List.length plaintext + 16 + 48 →
      m.step C (.sendData scid plaintext source destination) = m) ∧
    ∀ packet budget header payload profile message,
      Header.unpackWithBudget packet budget = .ok (header, payload) →
      SessionMessage.decode payload profile budget = .ok message → message.typ = CLOSE →
      ∀ s : DirectionalSession, ∀ plaintext, (s.decrypt C packet).2 = .ok plaintext →
        ∃ code, closeCode plaintext = .ok code := by
  have hh := healthy_reach h
  refine ⟨?_, fun _ _ source destination hlong => sendDataWithLocs_oversize source destination hlong,
    fun _ _ _ _ _ _ hu hm ht _ _ hd => closeCode_of_decrypt hC hu hm ht hd⟩
  intro call e he hne
  cases call with
  | receiveOpen => exact .inl rfl
  | receiveOpenAuth packet binding nowMs bucket material owner =>
    rcases receiveOpenAuth_error (errorOf_eq_some.mp he) with hs | hs
    · exact .inl hs
    · exact .inr ⟨nowMs, rfl, hs⟩
  | receiveAccept packet nowMs =>
    exact .inr ⟨nowMs, rfl, receiveAccept_error hh (errorOf_eq_some.mp he)⟩
  | receiveData packet nowMs =>
    exact .inr ⟨nowMs, rfl, receiveData_error hh (errorOf_eq_some.mp he)⟩
  | previewData packet sources destinations nowMs => exact .inr ⟨nowMs, rfl, rfl⟩
  | commitData preview nowMs =>
    rcases commitData_error hh (errorOf_eq_some.mp he) with hs | hs
    · exact .inl hs
    · exact .inr ⟨nowMs, rfl, hs⟩
  | commitProtectedReplay scid proof nowMs =>
    exact .inr ⟨nowMs, rfl, commitProtectedReplay_server_error hh (errorOf_eq_some.mp he)⟩
  | sendData => exact .inl (sendDataWithLocs_error hh hne (errorOf_eq_some.mp he))
  | close => exact .inl (close_error hh hne (errorOf_eq_some.mp he))
  | receiveClose packet nowMs =>
    exact .inr ⟨nowMs, rfl, receiveClose_error hC hh (errorOf_eq_some.mp he)⟩
  | takeProfile3Bootstrap => exact .inl (takeProfile3Bootstrap_error (errorOf_eq_some.mp he))
  | expire | promoteLocalLoc | promotePeerLoc | rotateCookieKey | restart => cases he

theorem inPlace_sample : InPlace .sample := by
  intro key n aad data tag plaintext h
  obtain ⟨-, hd⟩ := Option.ite_none_right_eq_some.mp h
  rw [Option.some.inj hd]

/-- The second arrival of a datagram is refused and changes nothing. -/
theorem server_errors_atomic_replayed :
    let client := (Scenario.accepting (Scenario.withSessions 0 1000 [(8, 40)]) 9 30 1000).1
    let packet := Scenario.packetOf (client.sendData .sample [1, 2, 3]).2.2
    let m := (Scenario.withSessions 0 1000 [(9, 30), (8, 40)]).step .sample
      (.receiveData packet 2000)
    m.error? .sample (.receiveData packet 3000) = some .replay ∧
      (m.step .sample (.receiveData packet 3000) = m ∨
        ∃ nowMs, (ServerCall.receiveData packet 3000).time? = some nowMs ∧
          m.step .sample (.receiveData packet 3000) = m.expire nowMs) := by
  intro client packet m
  have he : m.error? .sample (.receiveData packet 3000) = some .replay := by
    decide +kernel
  have hm : Reach .sample m :=
    .next (Scenario.withSessions_reach 1000 [(9, 30), (8, 40)]) trivial
  exact ⟨he, (server_errors_atomic inPlace_sample hm).1 _ _ he (by decide)⟩

end ServerMachine

end R8.Session
