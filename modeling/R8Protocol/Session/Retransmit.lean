import R8Protocol.Forward.Transparency
import R8Protocol.Session.Isolation
import R8Protocol.Session.Lifecycle

/-! Handshake packets that arrive again: as they were, under another hop limit, or as other bytes. -/
namespace R8.Session

open FixedWidth Wire

variable {C : Crypto} {packet : List Byte} {hop : Byte}

/-- Equal in every byte but the hop limit. -/
def SameButHop (packet packet' : List Byte) : Prop := packet.set 5 0 = packet'.set 5 0

instance decidableSameButHop (packet packet' : List Byte) : Decidable (SameButHop packet packet') :=
  inferInstanceAs (Decidable (packet.set 5 0 = packet'.set 5 0))

/-- A packet is taken the same way under another hop limit. -/
def HopBlind {α : Type} (receive : List Byte → α) (packet : List Byte) (hop : Byte) : Prop :=
  receive (packet.set 5 hop) = receive packet

theorem set_hop_ne (hlen : 5 < packet.length) (hne : hop ≠ byteAt packet 5) :
    packet.set 5 hop ≠ packet := by
  intro heq
  apply hne
  have hbyte : byteAt (packet.set 5 hop) 5 = hop := by
    simp [byteAt, List.getD_eq_getElem?_getD, List.getElem?_set_self hlen]
  rw [← hbyte, heq]

/-- What a handshake packet names is read past its hop limit. -/
theorem unpack_past_hop {budget : ℕ} {header : Header} {payload : List Byte}
    (h : Header.unpackWithBudget packet budget = .ok (header, payload)) (hop_ne : hop ≠ 0) :
    Header.unpackWithBudget (packet.set 5 hop) budget =
      .ok ({ header with hopLimit := hop }, payload) :=
  unpack_set_hop h hop_ne (unpack_fits h)

theorem unpack_long {budget : ℕ} {r : Header × List Byte}
    (h : Header.unpackWithBudget packet budget = .ok r) : 5 < packet.length := by
  obtain ⟨header, payload⟩ := r
  obtain ⟨-, -, hlen, -⟩ := unpack_eq_ok h
  rw [HEADER_LEN] at hlen
  omega

namespace ServerMachine

variable {m m' : ServerMachine} {scid nowMs bucket : U64} {binding : ObservedBinding}

/-- A packet that opened an entry. -/
def Opened (m : ServerMachine) (scid : U64) (packet : List Byte) (binding : ObservedBinding) :
    Prop :=
  binding.validate = .ok () ∧ ∃ body, m.handshakeBody OPEN_AUTH packet = .ok (scid, body)

/-- The packets a server keeps to recognise are of the entry they are kept in. -/
structure Retained (m : ServerMachine) : Prop where
  pending : ∀ p ∈ m.pending, m.Opened p.scid p.opening p.binding
  established : ∀ e ∈ m.established, m.Opened e.scid e.opening e.binding
  accepted : ∀ e ∈ m.established, m.acceptScid e.accepted = .ok e.scid

/-- Every entry has its packets from an entry before. -/
structure Carries (m m' : ServerMachine) : Prop where
  config : m'.config = m.config
  pending : ∀ p' ∈ m'.pending, ∃ p ∈ m.pending, p.scid = p'.scid ∧ p.opening = p'.opening ∧
    p.binding = p'.binding
  established : ∀ e' ∈ m'.established, ∃ e ∈ m.established, e.scid = e'.scid ∧
    e.opening = e'.opening ∧ e.binding = e'.binding ∧ e.accepted = e'.accepted

theorem opened_config (h : m'.config = m.config) : m'.Opened scid packet binding ↔
    m.Opened scid packet binding := by
  simp only [Opened, handshakeBody, validateHandshakeHeader, h]

theorem acceptScid_config (h : m'.config = m.config) (packet : List Byte) :
    m'.acceptScid packet = m.acceptScid packet := by
  simp only [acceptScid, h]

theorem Retained.carries (h : Retained m) (hc : Carries m m') : Retained m' := by
  constructor
  · intro p' hp'
    obtain ⟨p, hp, hscid, hopening, hbinding⟩ := hc.pending p' hp'
    rw [opened_config hc.config, ← hscid, ← hopening, ← hbinding]
    exact h.pending p hp
  · intro e' he'
    obtain ⟨e, he, hscid, hopening, hbinding, -⟩ := hc.established e' he'
    rw [opened_config hc.config, ← hscid, ← hopening, ← hbinding]
    exact h.established e he
  · intro e' he'
    obtain ⟨e, he, hscid, -, -, haccepted⟩ := hc.established e' he'
    rw [acceptScid_config hc.config, ← hscid, ← haccepted]
    exact h.accepted e he

theorem carries_of_subset (hconfig : m'.config = m.config) (hp : m'.pending ⊆ m.pending)
    (he : m'.established ⊆ m.established) : Carries m m' :=
  ⟨hconfig, fun p hm => ⟨p, hp hm, rfl, rfl, rfl⟩, fun e hm => ⟨e, he hm, rfl, rfl, rfl, rfl⟩⟩

theorem carries_expire (m : ServerMachine) (nowMs : U64) : Carries m (m.expire nowMs) :=
  carries_of_subset rfl (List.filter_subset_self _) (List.filter_subset_self _)

/-- An established entry that only its session or its time changes in. -/
theorem carries_set (m : ServerMachine) (i : Fin m.established.length) (s : DirectionalSession)
    (lastActiveMs : U64) : Carries m { m with
      established := m.established.set i
        ({ m.established.get i with session := s, lastActiveMs := lastActiveMs }) } := by
  refine ⟨rfl, fun p hp => ⟨p, hp, rfl, rfl, rfl⟩, ?_⟩
  intro e he
  rcases List.mem_or_eq_of_mem_set he with he | rfl
  · exact ⟨e, he, rfl, rfl, rfl, rfl⟩
  · exact ⟨m.established.get i, List.get_mem _ i, rfl, rfl, rfl, rfl⟩

/-- Without a time and a completed handshake no entry is opened or accepted. -/
theorem Shift.carries (hs : Shift C none none m m') : Carries m m' := by
  cases hs with
  | same | locs | material => exact carries_of_subset rfl (List.Subset.refl _) (List.Subset.refl _)
  | session i s => exact carries_set m i s (m.established.get i).lastActiveMs
  | touch _ _ _ hnow => cases hnow
  | remove i => exact carries_of_subset rfl (List.Subset.refl _) (List.eraseIdx_subset ..)
  | opened _ _ _ _ _ hh => cases hh
  | repend i s =>
    refine ⟨rfl, ?_, fun e he => ⟨e, he, rfl, rfl, rfl, rfl⟩⟩
    intro p hp
    rcases List.mem_or_eq_of_mem_set hp with hp | rfl
    · exact ⟨p, hp, rfl, rfl, rfl⟩
    · exact ⟨m.pending.get i, List.get_mem _ i, rfl, rfl, rfl⟩
  | accepted _ _ _ _ hnow => cases hnow
  | restart => exact carries_of_subset rfl (List.nil_subset _) (List.nil_subset _)

theorem commitData_carries (m : ServerMachine) (p : DataPreview) (nowMs : U64) :
    Carries m (m.commitData p nowMs).1 ∨ Carries (m.expire nowMs) (m.commitData p nowMs).1 := by
  unfold commitData
  split
  · exact .inl (carries_of_subset rfl (List.Subset.refl _) (List.Subset.refl _))
  · right
    dsimp only
    generalize m.expire nowMs = m
    split
    · exact carries_of_subset rfl (List.Subset.refl _) (List.Subset.refl _)
    · rename_i i _
      generalize (m.established.get i).session.commit p.commit = r
      obtain ⟨session, e | plaintext⟩ := r
      · exact carries_set m i session (m.established.get i).lastActiveMs
      · exact carries_set m i session nowMs

theorem Retained.commitData (h : Retained m) (p : DataPreview) (nowMs : U64) :
    Retained (m.commitData p nowMs).1 := by
  rcases commitData_carries m p nowMs with hc | hc
  · exact h.carries hc
  · exact (h.carries (carries_expire m nowMs)).carries hc

theorem Retained.receiveData (h : Retained m) (packet : List Byte) (nowMs : U64) :
    Retained (m.receiveData C packet nowMs).1 := by
  have he := h.carries (carries_expire m nowMs)
  unfold ServerMachine.receiveData previewDataWithLocs
  simp only [expire_expire]
  split
  · rename_i hr
    obtain ⟨rfl, -⟩ := Prod.mk.inj hr
    exact he
  · rename_i m' p hr
    obtain ⟨rfl, -⟩ := Prod.mk.inj hr
    exact he.commitData p nowMs

theorem authRequest_body {given : Option ServerHandshakeMaterial} {auth : OpenAuth}
    {material : ServerHandshakeMaterial}
    (h : m.authRequest C packet binding nowMs bucket given = .ok (.inr (scid, auth, material))) :
    ∃ body, m.handshakeBody OPEN_AUTH packet = .ok (scid, body) := by
  simp only [authRequest, Outcome.bind_eq_ok] at h
  obtain ⟨⟨id, body⟩, hb, h⟩ := h
  dsimp only at h
  split at h
  · simp only [Outcome.bind_eq_ok, Except.ok.injEq, reduceCtorEq, and_false, exists_false] at h
  · simp only [Outcome.bind_eq_ok, Except.ok.injEq, Sum.inr.injEq, Prod.mk.injEq] at h
    obtain ⟨r, -, rfl, -⟩ := h
    exact ⟨body, hb⟩

theorem Retained.receiveOpenAuth (h : Retained m) (packet : List Byte) (binding : ObservedBinding)
    (nowMs bucket : U64) (given : Option ServerHandshakeMaterial) (owner : ℕ) :
    Retained (m.receiveOpenAuth C packet binding nowMs bucket given owner).1 := by
  unfold ServerMachine.receiveOpenAuth
  split
  · exact h
  · rename_i hbinding
    have he := h.carries (carries_expire m nowMs)
    dsimp only
    generalize m.expire nowMs = m at he ⊢
    split
    · exact he
    · exact he
    · rename_i scid auth material hrequest
      split
      · exact he
      · refine ⟨?_, he.established, he.accepted⟩
        intro p hp
        rcases List.mem_append.mp hp with hp | hp
        · exact he.pending p hp
        · obtain ⟨body, hbody⟩ := authRequest_body hrequest
          rw [List.mem_singleton.mp hp]
          exact ⟨hbinding, body, hbody⟩

theorem Retained.receiveAccept (h : Retained m) (packet : List Byte) (nowMs : U64) :
    Retained (m.receiveAccept C packet nowMs).1 := by
  have he := h.carries (carries_expire m nowMs)
  unfold ServerMachine.receiveAccept
  dsimp only
  generalize m.expire nowMs = m at he ⊢
  split
  · exact he
  · rename_i scid hscid
    split
    · exact he
    · split
      · exact he
      · rename_i i hi
        have hentry : (m.pending.get i).scid = scid := by
          simpa using (List.findFinIdx?_eq_some_iff.mp hi).1
        unfold acceptPending
        dsimp only
        split
        · exact he
        · rename_i preview _
          split
          · exact he
          · split
            · exact he
            · generalize (m.pending.get i).session.commit preview = r
              obtain ⟨session, e | plaintext⟩ := r
              · refine ⟨?_, he.established, he.accepted⟩
                intro p hp
                rcases List.mem_or_eq_of_mem_set hp with hp | rfl
                · exact he.pending p hp
                · exact he.pending (m.pending.get i) (List.get_mem _ i)
              · refine ⟨fun p hp => he.pending p (List.mem_of_mem_eraseIdx hp), ?_, ?_⟩
                · intro e hm
                  rcases List.mem_append.mp hm with hm | hm
                  · exact he.established e hm
                  · rw [List.mem_singleton.mp hm]
                    exact he.pending (m.pending.get i) (List.get_mem _ i)
                · intro e hm
                  rcases List.mem_append.mp hm with hm | hm
                  · exact he.accepted e hm
                  · rw [List.mem_singleton.mp hm]
                    exact hscid.trans (congrArg Except.ok hentry.symm)

theorem retained_step (h : Retained m) (call : ServerCall) : Retained (m.step C call) := by
  cases call with
  | receiveOpen => exact h
  | receiveOpenAuth => exact h.receiveOpenAuth _ _ _ _ _ _
  | receiveAccept packet nowMs => exact h.receiveAccept packet nowMs
  | receiveData packet nowMs => exact h.receiveData packet nowMs
  | previewData _ _ _ nowMs => exact h.carries (carries_expire m nowMs)
  | commitData p nowMs => exact h.commitData p nowMs
  | commitProtectedReplay scid proof nowMs =>
    exact (h.carries (carries_expire m nowMs)).carries
      (commitProtectedReplay_shift (C := C) m scid proof nowMs).carries
  | sendData => exact h.carries (sendDataWithLocs_shift (C := C) m ..).carries
  | close => exact h.carries (close_shift (C := C) m ..).carries
  | receiveClose packet nowMs =>
    exact (h.carries (carries_expire m nowMs)).carries
      (receiveClose_shift (C := C) m packet nowMs).carries
  | takeProfile3Bootstrap scid => exact h.carries (takeProfile3Bootstrap_shift (C := C) m scid).carries
  | expire nowMs => exact h.carries (carries_expire m nowMs)
  | promoteLocalLoc loc => exact ⟨h.pending, h.established, h.accepted⟩
  | promotePeerLoc loc => exact ⟨h.pending, h.established, h.accepted⟩
  | rotateCookieKey key nowMs => exact ⟨h.pending, h.established, h.accepted⟩
  | restart material => exact ⟨by simp [step, restart], by simp [step, restart], by simp [step, restart]⟩

theorem retained_reach (h : Reach C m) : Retained m := by
  refine h.invariant (I := Retained) ?_ fun m call hm _ => retained_step hm call
  rintro m ⟨config, signingKey, material, hnew⟩
  rw [(new_eq_ok hnew).2]
  constructor <;> simp

theorem handshakeBody_set_hop {typ : Byte} {body : List Byte}
    (h : m.handshakeBody typ packet = .ok (scid, body)) (hop_ne : hop ≠ 0) :
    m.handshakeBody typ (packet.set 5 hop) = .ok (scid, body) := by
  simp only [handshakeBody, Outcome.bind_eq_ok, Outcome.mapError_eq_ok] at h
  obtain ⟨⟨header, payload⟩, hu, ⟨⟩, hv, hdecode⟩ := h
  have hpast := unpack_past_hop hu hop_ne
  have hv' : m.validateHandshakeHeader { header with hopLimit := hop } header.scid = .ok () := hv
  simp only [handshakeBody, hpast, Except.mapError, bind, Except.bind, hv']
  exact Outcome.bind_eq_ok.mpr hdecode

theorem acceptScid_set_hop (h : m.acceptScid packet = .ok scid) (hop_ne : hop ≠ 0) :
    m.acceptScid (packet.set 5 hop) = .ok scid := by
  simp only [acceptScid, Outcome.bind_eq_ok, Outcome.mapError_eq_ok] at h
  obtain ⟨⟨header, payload⟩, hu, ⟨⟩, hv, hdecode⟩ := h
  have hpast := unpack_past_hop hu hop_ne
  have hv' : validateProtectedHeader { header with hopLimit := hop } m.config.profile header.scid
      m.config.source m.config.destination = .ok () := hv
  simp only [acceptScid, hpast, Except.mapError, bind, Except.bind, hv']
  exact Outcome.bind_eq_ok.mpr hdecode

theorem Opened.long (h : m.Opened scid packet binding) : 5 < packet.length := by
  obtain ⟨-, body, hbody⟩ := h
  simp only [handshakeBody, Outcome.bind_eq_ok, Outcome.mapError_eq_ok] at hbody
  obtain ⟨r, hu, -⟩ := hbody
  exact unpack_long hu

theorem acceptScid_long (h : m.acceptScid packet = .ok scid) : 5 < packet.length := by
  simp only [acceptScid, Outcome.bind_eq_ok, Outcome.mapError_eq_ok] at h
  obtain ⟨r, hu, -⟩ := h
  exact unpack_long hu

theorem Tables.findPending (h : Tables m) {p : PendingSession} (hp : p ∈ m.pending) :
    (m.pending.find? fun entry => entry.scid = p.scid) = some p := by
  cases hf : m.pending.find? fun entry => entry.scid = p.scid with
  | none =>
    have := List.find?_eq_none.mp hf p hp
    simp at this
  | some q =>
    have hscid : q.scid = p.scid := by simpa using List.find?_some hf
    rw [List.inj_on_of_nodup_map (List.nodup_append.mp h.single).1
      (List.mem_of_find?_eq_some hf) hp hscid]

theorem cachedAnswer_pending (h : Tables m) {p : PendingSession} (hp : p ∈ m.pending)
    (packet : List Byte) : m.cachedAnswer p.scid packet p.binding =
      some (if p.opening = packet then .ok p.cachedAck else .error .scidCollision) := by
  simp [cachedAnswer, h.findPending hp]

theorem cachedAnswer_established (h : Tables m) {e : EstablishedSession} (he : e ∈ m.established)
    (packet : List Byte) : m.cachedAnswer e.scid packet e.binding =
      some (if e.opening = packet then .ok e.cachedAck else .error .scidCollision) := by
  have hnone : (m.pending.find? fun entry => entry.scid = e.scid) = none := by
    refine List.find?_eq_none.mpr fun p hp => ?_
    simpa using (h.pendingOnly hp e he).symm
  simp [cachedAnswer, hnone, h.find he]

/-- An OPEN_AUTH whose SCID is taken gets what is kept for it, and the tables stay. -/
theorem receiveOpenAuth_cached {body : List Byte} {answer : Except SessionError (List Byte)}
    {given : Option ServerHandshakeMaterial} {owner : ℕ} (hbinding : binding.validate = .ok ())
    (hbody : (m.expire nowMs).handshakeBody OPEN_AUTH packet = .ok (scid, body))
    (hanswer : (m.expire nowMs).cachedAnswer scid packet binding = some answer) :
    m.receiveOpenAuth C packet binding nowMs bucket given owner = (m.expire nowMs, answer) := by
  unfold receiveOpenAuth
  rw [hbinding]
  cases answer with
  | error e => simp [authRequest, hbody, hanswer, bind, Except.bind]
  | ok ack => simp [authRequest, hbody, hanswer, bind, Except.bind]

/-- The OPEN_AUTH of an entry is answered again, and refused under another hop limit. -/
theorem openAuth_retry {opening cachedAck : List Byte} {given : Option ServerHandshakeMaterial}
    {owner : ℕ} (ho : (m.expire nowMs).Opened scid opening binding)
    (hanswer : ∀ packet, (m.expire nowMs).cachedAnswer scid packet binding =
      some (if opening = packet then .ok cachedAck else .error .scidCollision))
    (hop_ne : hop ≠ 0) (hne : hop ≠ byteAt opening 5) :
    m.receiveOpenAuth C opening binding nowMs bucket given owner =
        (m.expire nowMs, .ok cachedAck) ∧
      ¬ HopBlind (fun packet => m.receiveOpenAuth C packet binding nowMs bucket given owner)
        opening hop := by
  have hchanged := set_hop_ne ho.long hne
  obtain ⟨hbinding, body, hbody⟩ := ho
  have hsame : m.receiveOpenAuth C opening binding nowMs bucket given owner =
      (m.expire nowMs, .ok cachedAck) := by
    rw [receiveOpenAuth_cached hbinding hbody (hanswer opening), if_pos rfl]
  have hcopy : m.receiveOpenAuth C (opening.set 5 hop) binding nowMs bucket given owner =
      (m.expire nowMs, .error .scidCollision) := by
    rw [receiveOpenAuth_cached hbinding (handshakeBody_set_hop hbody hop_ne) (hanswer _),
      if_neg hchanged.symm]
  refine ⟨hsame, ?_⟩
  intro hblind
  have heq := hcopy.symm.trans (hblind.trans hsame)
  cases congrArg Prod.snd heq

theorem receiveAccept_established (h : Tables (m.expire nowMs)) {e : EstablishedSession}
    (he : e ∈ (m.expire nowMs).established)
    (hscid : (m.expire nowMs).acceptScid packet = .ok e.scid) :
    m.receiveAccept C packet nowMs =
      (m.expire nowMs, if e.accepted = packet then .ok () else .error .authFailed) := by
  unfold receiveAccept
  simp [hscid, h.find he]

/-- The SESSION_ACCEPT of an entry likewise. -/
theorem accept_retry (h : Tables (m.expire nowMs)) {e : EstablishedSession}
    (he : e ∈ (m.expire nowMs).established)
    (hscid : (m.expire nowMs).acceptScid e.accepted = .ok e.scid) (hop_ne : hop ≠ 0)
    (hne : hop ≠ byteAt e.accepted 5) :
    m.receiveAccept C e.accepted nowMs = (m.expire nowMs, .ok ()) ∧
      ¬ HopBlind (fun packet => m.receiveAccept C packet nowMs) e.accepted hop := by
  have hchanged := set_hop_ne (acceptScid_long hscid) hne
  have hsame : m.receiveAccept C e.accepted nowMs = (m.expire nowMs, .ok ()) := by
    rw [receiveAccept_established h he hscid, if_pos rfl]
  have hcopy : m.receiveAccept C (e.accepted.set 5 hop) nowMs =
      (m.expire nowMs, .error .authFailed) := by
    rw [receiveAccept_established h he (acceptScid_set_hop hscid hop_ne), if_neg hchanged.symm]
  refine ⟨hsame, ?_⟩
  intro hblind
  have heq := hcopy.symm.trans (hblind.trans hsame)
  cases congrArg Prod.snd heq

end ServerMachine

namespace ClientMachine

variable {m : ClientMachine} {nowMs : U64}

theorem validateVerifyCookie_set_hop {scid : U64} {material : ClientMaterial}
    {opening : List Byte} {header : Header} {boot : Bytes 16} {cookie : Bytes 32}
    (h : m.validateVerifyCookie C packet scid material opening = .ok (header, boot, cookie))
    (hop_ne : hop ≠ 0) :
    m.validateVerifyCookie C (packet.set 5 hop) scid material opening =
        .ok ({ header with hopLimit := hop }, boot, cookie) ∧
      header.hopLimit = byteAt packet 5 := by
  simp only [validateVerifyCookie, Outcome.bind_eq_ok, Outcome.mapError_eq_ok,
    Outcome.ite_error_eq_ok, Except.ok.injEq, Prod.mk.injEq] at h
  obtain ⟨⟨openingHeader, openingPayload⟩, hopening, ⟨⟩, hvalid, ⟨header', payload⟩, hu, ⟨⟩, hv,
    hpayload, hhash, rfl, rfl, rfl⟩ := h
  have hpast := unpack_past_hop hu hop_ne
  have hv' : validateSessionHeader { header' with hopLimit := hop } m.config.profile 0 scid
      m.config.destination m.config.source = .ok () := hv
  constructor
  · simp only [validateVerifyCookie, hopening, hvalid, hpast, hv', if_neg hpayload, if_neg hhash,
      Except.mapError, bind, Except.bind]
  · rw [(unpack_eq_ok hu).1]
    rfl

/-- The VERIFY_COOKIE of an authenticating client is answered again, and refused under another hop
limit. -/
theorem verify_retry {wait : AuthWait} (hm : m.state = .authWait wait)
    (hv : m.validateVerifyCookie C packet wait.scid wait.material wait.opening =
      .ok (wait.verifyHeader, wait.boot, wait.verifyCookie)) (hnow : nowMs < wait.deadlineMs)
    (hop_ne : hop ≠ 0) (hne : hop ≠ byteAt packet 5) :
    m.receiveVerify C packet nowMs = (m, .ok wait.openAuth) ∧
      ¬ HopBlind (fun packet => m.receiveVerify C packet nowMs) packet hop := by
  have hwait : m.releaseCookieWaitIfExpired nowMs = (m, false) := by
    simp [releaseCookieWaitIfExpired, hm]
  obtain ⟨hv', hhop⟩ := validateVerifyCookie_set_hop hv hop_ne
  have hheader : { wait.verifyHeader with hopLimit := hop } ≠ wait.verifyHeader := by
    intro heq
    exact hne ((congrArg Header.hopLimit heq).trans hhop)
  have hsame : m.receiveVerify C packet nowMs = (m, .ok wait.openAuth) := by
    simp [receiveVerify, hwait, hm, hnow, hv, bind, Except.bind]
  have hcopy : m.receiveVerify C (packet.set 5 hop) nowMs = (m, .error .authFailed) := by
    simp [receiveVerify, hwait, hm, hnow, hv', hheader, bind, Except.bind]
  refine ⟨hsame, ?_⟩
  intro hblind
  have heq := hcopy.symm.trans (hblind.trans hsame)
  cases congrArg Prod.snd heq

end ClientMachine

/-- No kept handshake packet is recognised under another hop limit: the packet itself gets its
answer again, and the copy gets another. -/
theorem retry_not_hopBlind (C : Crypto) :
    (∀ m, ServerMachine.Reach C m → ∀ nowMs bucket given owner hop, hop ≠ 0 →
      (∀ p ∈ (m.expire nowMs).pending, hop ≠ byteAt p.opening 5 →
        m.receiveOpenAuth C p.opening p.binding nowMs bucket given owner =
            (m.expire nowMs, .ok p.cachedAck) ∧
          ¬ HopBlind (fun packet => m.receiveOpenAuth C packet p.binding nowMs bucket given owner)
            p.opening hop) ∧
      (∀ e ∈ (m.expire nowMs).established, hop ≠ byteAt e.opening 5 →
        m.receiveOpenAuth C e.opening e.binding nowMs bucket given owner =
            (m.expire nowMs, .ok e.cachedAck) ∧
          ¬ HopBlind (fun packet => m.receiveOpenAuth C packet e.binding nowMs bucket given owner)
            e.opening hop) ∧
      (∀ e ∈ (m.expire nowMs).established, hop ≠ byteAt e.accepted 5 →
        m.receiveAccept C e.accepted nowMs = (m.expire nowMs, .ok ()) ∧
          ¬ HopBlind (fun packet => m.receiveAccept C packet nowMs) e.accepted hop)) ∧
    ∀ w, Lifetime.Reach C w → ∀ wait, w.machine.state = .authWait wait →
      ∀ nowMs hop, nowMs < wait.deadlineMs → hop ≠ 0 → hop ≠ byteAt w.verify 5 →
        w.machine.receiveVerify C w.verify nowMs = (w.machine, .ok wait.openAuth) ∧
          ¬ HopBlind (fun packet => w.machine.receiveVerify C packet nowMs) w.verify hop := by
  constructor
  · intro m hm nowMs bucket given owner hop hop_ne
    have htables := ServerMachine.tables_expire (ServerMachine.tables_reach hm) nowMs
    have hretained :=
      (ServerMachine.retained_reach hm).carries (ServerMachine.carries_expire m nowMs)
    refine ⟨?_, ?_, ?_⟩
    · exact fun p hp hne => ServerMachine.openAuth_retry (hretained.pending p hp)
        (ServerMachine.cachedAnswer_pending htables hp) hop_ne hne
    · exact fun e he hne => ServerMachine.openAuth_retry (hretained.established e he)
        (ServerMachine.cachedAnswer_established htables he) hop_ne hne
    · exact fun e he hne => ServerMachine.accept_retry htables he (hretained.accepted e he) hop_ne hne
  · intro w hw wait hm nowMs hop hnow hop_ne hne
    exact ClientMachine.verify_retry hm (hw.lived.waiting.verified wait hm) hnow hop_ne hne

/-- What is asked of an OPEN_ACK that arrives at an established client: the one that established it
is answered again, anything else is refused, and the client stays as it is. -/
structure AckDuplicate (C : Crypto) (w : Lifetime) (e : ClientSession) (packet : List Byte)
    (nowMs : U64) (owner : ℕ) : Prop where
  answered : SameButHop packet w.ack →
    (w.machine.receiveAck C packet nowMs owner).2.2 = .ok e.cachedAccept
  refused : ¬ SameButHop packet w.ack →
    ∃ error, (w.machine.receiveAck C packet nowMs owner).2.2 = .error error
  unchanged : (w.machine.receiveAck C packet nowMs owner).1 = w.machine

/-- An established client answers everything, so the duplicate has to be the OPEN_ACK itself. -/
theorem ackDuplicate_iff {w : Lifetime} (h : Lifetime.Reach C w) {e : ClientSession}
    (he : w.machine.state = .established e) (packet : List Byte) (nowMs : U64) (owner : ℕ) :
    Lifetime.Acknowledges C w.machine.config w.ack e.cachedAccept ∧
      (w.machine.receiveAck C packet nowMs owner).1 = w.machine ∧
      (AckDuplicate C w e packet nowMs owner ↔ SameButHop packet w.ack) := by
  have hanswer : w.machine.receiveAck C packet nowMs owner = (w.machine, [], .ok e.cachedAccept) := by
    unfold ClientMachine.receiveAck
    rw [he]
  refine ⟨h.lived.acknowledged e he, congrArg Prod.fst hanswer, ?_, ?_⟩
  · intro hd
    by_contra hother
    obtain ⟨error, herror⟩ := hd.refused hother
    rw [hanswer] at herror
    cases herror
  · intro hsame
    exact ⟨fun _ => by rw [hanswer], fun hother => absurd hsame hother, by rw [hanswer]⟩

namespace Scenario

/-- The SESSION_ACCEPT of an established session. -/
def acceptPacket : List Byte := (accepting (server 0) 9 11 1000).2

/-- A forwarder has lowered the hop limit by one. -/
theorem forwarded_accept_refused :
    ¬ ∀ (C : Crypto) (m : ServerMachine), ServerMachine.Reach C m → ∀ nowMs hop, hop ≠ 0 →
      ∀ e ∈ (m.expire nowMs).established,
        HopBlind (fun packet => m.receiveAccept C packet nowMs) e.accepted hop := by
  intro h
  have hreach := withSessions_reach 1000 [(9, 11)]
  obtain ⟨⟨e, hmem, haccepted⟩, hdiffer⟩ :
      (∃ e ∈ ((withSessions 0 1000 [(9, 11)]).expire 1000).established,
        e.accepted = acceptPacket) ∧
      ((withSessions 0 1000 [(9, 11)]).receiveAccept .sample (acceptPacket.set 5 63) 1000).2 ≠
        ((withSessions 0 1000 [(9, 11)]).receiveAccept .sample acceptPacket 1000).2 := by
    decide +kernel
  have hblind := congrArg Prod.snd (h .sample _ hreach 1000 63 (by decide) e hmem)
  rw [haccepted] at hblind
  exact hdiffer hblind

theorem repeated_ack : (live repeated).ack = ackPacket ∧ ackPacket.length ≠ 0 := by
  decide +kernel

theorem ackDuplicate_iff_repeated : ∃ e, (live repeated).machine.state = .established e ∧
    (AckDuplicate .sample (live repeated) e ackPacket 9000 9 ↔ SameButHop ackPacket ackPacket) := by
  have hphase := repeated_answers.1
  cases he : (live repeated).machine.state with
  | established e =>
    have hiff := (ackDuplicate_iff (live_reach repeated) he ackPacket 9000 9).2.2
    rw [repeated_ack.1] at hiff
    exact ⟨e, rfl, hiff⟩
  | _ => simp [Lifetime.phase, he, ClientState.phase] at hphase

/-- No bytes at all are answered with the SESSION_ACCEPT. -/
theorem nothing_answered : ¬ ∀ (C : Crypto) (w : Lifetime), Lifetime.Reach C w → ∀ e,
    w.machine.state = .established e → ∀ packet nowMs owner,
      AckDuplicate C w e packet nowMs owner := by
  intro h
  obtain ⟨hack, hne⟩ := repeated_ack
  have hphase := repeated_answers.1
  have hother : ¬ SameButHop [] (live repeated).ack := by
    rw [hack]
    intro hsame
    have hlen := congrArg List.length hsame
    rw [List.length_set, List.length_set] at hlen
    exact hne hlen.symm
  cases he : (live repeated).machine.state with
  | established e =>
    obtain ⟨error, herror⟩ := (h .sample _ (live_reach repeated) e he [] 9000 9).refused hother
    unfold ClientMachine.receiveAck at herror
    rw [he] at herror
    cases herror
  | _ => simp [Lifetime.phase, he, ClientState.phase] at hphase

end Scenario

end R8.Session
