import R8Protocol.Lib.Machine
import R8Protocol.Session.Layout
import R8Protocol.Session.Server

/-! Runs of a server, and the few ways in which a call can change its tables. -/
namespace R8.Session

open FixedWidth Wire

/-- The public operations. Those on OPEN only read the machine. -/
inductive ServerCall
  | receiveOpen (packet : List Byte) (binding : ObservedBinding) (bucket : U64)
  | receiveOpenAuth (packet : List Byte) (binding : ObservedBinding) (nowMs bucket : U64)
      (material : Option ServerHandshakeMaterial) (owner : ℕ)
  | receiveAccept (packet : List Byte) (nowMs : U64)
  | receiveData (packet : List Byte) (nowMs : U64)
  | previewData (packet : List Byte) (sources destinations : List (Bytes 16)) (nowMs : U64)
  | commitData (preview : DataPreview) (nowMs : U64)
  | commitProtectedReplay (scid : U64) (proof : ProtectedReplayProof) (nowMs : U64)
  | sendData (scid : U64) (plaintext : List Byte) (source destination : Bytes 16)
  | close (scid : U64) (code : U16)
  | receiveClose (packet : List Byte) (nowMs : U64)
  | takeProfile3Bootstrap (scid : U64)
  | expire (nowMs : U64)
  | promoteLocalLoc (loc : Bytes 16)
  | promotePeerLoc (loc : Bytes 16)
  | rotateCookieKey (key : Bytes 32) (nowMs : U64)
  | restart (material : ServerMaterial)

/-- The time a call brings along. -/
def ServerCall.time? : ServerCall → Option U64
  | .receiveOpenAuth _ _ nowMs _ _ _ | .receiveAccept _ nowMs | .receiveData _ nowMs
  | .previewData _ _ _ nowMs | .commitData _ nowMs | .commitProtectedReplay _ _ nowMs
  | .receiveClose _ nowMs | .expire nowMs => some nowMs
  | _ => none

namespace ServerMachine

def step (C : Crypto) (m : ServerMachine) : ServerCall → ServerMachine
  | .receiveOpen .. => m
  | .receiveOpenAuth packet binding nowMs bucket material owner =>
    (m.receiveOpenAuth C packet binding nowMs bucket material owner).1
  | .receiveAccept packet nowMs => (m.receiveAccept C packet nowMs).1
  | .receiveData packet nowMs => (m.receiveData C packet nowMs).1
  | .previewData packet sources destinations nowMs =>
    (m.previewDataWithLocs C packet sources destinations nowMs).1
  | .commitData preview nowMs => (m.commitData preview nowMs).1
  | .commitProtectedReplay scid proof nowMs => (m.commitProtectedReplay scid proof nowMs).1
  | .sendData scid plaintext source destination =>
    (m.sendDataWithLocs C scid plaintext source destination).1
  | .close scid code => (m.close C scid code).1
  | .receiveClose packet nowMs => (m.receiveClose C packet nowMs).1
  | .takeProfile3Bootstrap scid => (m.takeProfile3Bootstrap scid).1
  | .expire nowMs => m.expire nowMs
  | .promoteLocalLoc loc => m.promoteLocalLoc loc
  | .promotePeerLoc loc => m.promotePeerLoc loc
  | .rotateCookieKey key nowMs => m.rotateCookieKey key nowMs
  | .restart material => m.restart material

def Starts (C : Crypto) (m : ServerMachine) : Prop :=
  ∃ config signingKey material, ServerMachine.new C config signingKey material = .ok m

/-- Any calls, with any packets and times. -/
abbrev Reach (C : Crypto) (m : ServerMachine) : Prop :=
  Machine.Reach (Starts C) (step C) (fun _ _ => True) m

def scids (m : ServerMachine) : List U64 :=
  m.pending.map PendingSession.scid ++ m.established.map EstablishedSession.scid

end ServerMachine

/-- The replay window stands for the counters that were committed. -/
def DirectionalSession.Sane (s : DirectionalSession) : Prop := ∃ cs, s.replay.Refines cs

/-- What a call may do to a session in the tables: count up, or mark a packet. -/
structure Advances (s s' : DirectionalSession) : Prop where
  keys : s'.sendKey = s.sendKey ∧ s'.receiveKey = s.receiveKey ∧
    s'.transcriptHash = s.transcriptHash ∧ s'.receiveBudget = s.receiveBudget ∧
    s'.receiveOwner = s.receiveOwner
  counter : s.sendCounters.next ≤ s'.sendCounters.next
  sane : s.Sane → s'.Sane

variable {C : Crypto} {s s' s'' : DirectionalSession} {m m' : ServerMachine}

theorem Advances.refl (s : DirectionalSession) : Advances s s :=
  ⟨⟨rfl, rfl, rfl, rfl, rfl⟩, le_rfl, id⟩

theorem DirectionalSession.sane_new (owner : ℕ) (sendKey receiveKey hash : Bytes 32) (budget : ℕ) :
    (DirectionalSession.new owner sendKey receiveKey hash budget).Sane :=
  ⟨[], ReplayWindow.Refines.new⟩

theorem replay_commit_sane {w : ReplayWindow} {cs : List U64} (h : w.Refines cs)
    (token : ReplayCommit) : ∃ cs', (w.commit token).1.Refines cs' := by
  rcases ReplayWindow.commit_cases h token with ⟨e, he⟩ | ⟨-, w', he, hr⟩
  · exact ⟨cs, by rwa [he]⟩
  · exact ⟨_, by rwa [he]⟩

theorem commit_advances (s : DirectionalSession) (p : ProtectedPreview) :
    Advances s (s.commit p).1 := by
  unfold DirectionalSession.commit
  split
  · exact .refl s
  · have hsane : ∀ cs, s.replay.Refines cs → ∃ cs', (s.replay.commit p.commit).1.Refines cs' :=
      fun cs h => replay_commit_sane h p.commit
    generalize s.replay.commit p.commit = r at hsane
    obtain ⟨replay, e | ⟨⟩⟩ := r <;>
      exact ⟨⟨rfl, rfl, rfl, rfl, rfl⟩, le_rfl, fun ⟨cs, h⟩ => hsane cs h⟩

theorem commitProtectedReplay_advances (s : DirectionalSession) (p : ProtectedReplayProof) :
    Advances s (s.commitProtectedReplay p).1 := by
  unfold DirectionalSession.commitProtectedReplay
  split
  · exact .refl s
  · split
    · exact .refl s
    · rename_i preview _
      dsimp only
      split
      · exact .refl s
      · have hsane : ∀ cs, s.replay.Refines cs →
            ∃ cs', (s.replay.commit preview.commit).1.Refines cs' :=
          fun cs h => replay_commit_sane h preview.commit
        generalize s.replay.commit preview.commit = r at hsane
        obtain ⟨replay, e | ⟨⟩⟩ := r <;>
          exact ⟨⟨rfl, rfl, rfl, rfl, rfl⟩, le_rfl, fun ⟨cs, h⟩ => hsane cs h⟩

theorem decrypt_advances (C : Crypto) (s : DirectionalSession) (packet : List Byte) :
    Advances s (s.decrypt C packet).1 := by
  unfold DirectionalSession.decrypt
  split
  · exact .refl s
  · exact commit_advances s _

theorem encrypt_advances (C : Crypto) (s : DirectionalSession) (header : Header) (typ : Byte)
    (plaintext : List Byte) (budget : ℕ) :
    Advances s (s.encrypt C header typ plaintext budget).1 := by
  rcases encrypt_cases C s header typ plaintext budget with ⟨-, -, c, h, hle⟩ | ⟨call, p, -, hs, -⟩
  · rw [h]
    exact ⟨⟨rfl, rfl, rfl, rfl, rfl⟩, hle, id⟩
  · rw [hs.next]
    exact ⟨⟨rfl, rfl, rfl, rfl, rfl⟩, le_satAdd _ _, id⟩

namespace ServerMachine

/-- The handshake that a call completes, if it gets that far. -/
def handshake? (C : Crypto) (m : ServerMachine) : ServerCall → Option Handshake
  | .receiveOpenAuth packet binding nowMs bucket given _ =>
    match (m.expire nowMs).authRequest C packet binding nowMs bucket given with
    | .ok (.inr (scid, auth, material)) =>
      ((m.expire nowMs).completeHandshake C scid auth material).toOption
    | _ => none
  | _ => none

/-- The entry that a completed handshake leaves behind. -/
structure Answers (C : Crypto) (m : ServerMachine) (h : Handshake) (entry : PendingSession) :
    Prop where
  scid : h.context.scid = entry.scid
  session : ∃ owner, h.session C m.config.localId.role m.config.peer.role m.config.budget owner =
    .ok entry.session
  schedule : entry.schedule = if m.config.profile = 3 then some (h.schedule C) else none

/-- The changes of the tables at a given time, but for expiry. `h?` is the handshake that may be
completed. -/
inductive Shift (C : Crypto) (now? : Option U64) (h? : Option Handshake) (m : ServerMachine) :
    ServerMachine → Prop
  | same : Shift C now? h? m m
  | session (i : Fin m.established.length) (s : DirectionalSession)
      (hs : Advances (m.established.get i).session s) : Shift C now? h? m (m.setSession i s)
  | touch (i : Fin m.established.length) (s : DirectionalSession) (nowMs : U64)
      (hnow : now? = some nowMs) (hs : Advances (m.established.get i).session s) :
      Shift C now? h? m { m with
        established := m.established.set i
          ({ m.established.get i with session := s, lastActiveMs := nowMs }) }
  | remove (i : Fin m.established.length) : Shift C now? h? m (m.removeEstablished i)
  | opened (entry : PendingSession) (hscid : entry.scid ≠ 0) (hfree : entry.scid ∉ m.scids)
      (hroom : m.pending.length < m.config.pendingLimit) (h : Handshake) (hh : h? = some h)
      (hanswers : Answers C m h entry) : Shift C now? h? m { m with pending := m.pending ++ [entry] }
  | repend (i : Fin m.pending.length) (s : DirectionalSession)
      (hs : Advances (m.pending.get i).session s) :
      Shift C now? h? m { m with pending := m.pending.set i ({ m.pending.get i with session := s }) }
  | accepted (i : Fin m.pending.length) (s : DirectionalSession) (packet : List Byte)
      (nowMs : U64) (hnow : now? = some nowMs)
      (hroom : m.established.length < m.config.establishedLimit)
      (hs : Advances (m.pending.get i).session s) :
      Shift C now? h? m { m with
        pending := m.pending.eraseIdx i
        established := m.established ++ [(m.pending.get i).establish s packet nowMs] }
  | locs (localLoc peerLoc : Bytes 16) :
      Shift C now? h? m { m with effectiveLocalLoc := localLoc, effectivePeerLoc := peerLoc }
  | material (material : ServerMaterial) : Shift C now? h? m { m with material := material }
  | restart (material : ServerMaterial) : Shift C now? h? m (m.restart material)

/-- A step is a shift of the machine or of what expiry leaves of it. -/
def Shifts (C : Crypto) (m : ServerMachine) (now? : Option U64) (h? : Option Handshake)
    (m' : ServerMachine) : Prop :=
  Shift C now? h? m m' ∨ ∃ nowMs, now? = some nowMs ∧ Shift C now? h? (m.expire nowMs) m'

variable {h? : Option Handshake}

theorem commitData_shifts (m : ServerMachine) (p : DataPreview) (nowMs : U64) :
    Shift C (some nowMs) h? m (m.commitData p nowMs).1 ∨
      Shift C (some nowMs) h? (m.expire nowMs) (m.commitData p nowMs).1 := by
  unfold commitData
  split
  · exact .inl .same
  · right
    dsimp only
    generalize m.expire nowMs = m
    split
    · exact .same
    · rename_i i _
      have hs := commit_advances (m.established.get i).session p.commit
      generalize (m.established.get i).session.commit p.commit = r at hs
      obtain ⟨session, e | plaintext⟩ := r
      · exact .session i session hs
      · exact .touch i session nowMs rfl hs

theorem validateSessionHeader_eq_ok {header : Header} {profile flags : Byte} {scid : U64}
    {source destination : Bytes 16}
    (h : validateSessionHeader header profile flags scid source destination = .ok ()) :
    header.nextHeader = NH_SES ∧ header.profile = profile ∧ header.scid = scid ∧
      header.flags = flags ∧ header.pathSlot = 0 ∧ header.src = source ∧
      header.dst = destination := by
  simp only [validateSessionHeader, Outcome.ite_error_eq_ok, and_true] at h
  push Not at h
  exact h

/-- No packet of a session carries SCID zero. -/
theorem unpack_scid_ne_zero {packet payload : List Byte} {budget : ℕ} {header : Header}
    (hu : Header.unpackWithBudget packet budget = .ok (header, payload))
    (hn : header.nextHeader = NH_SES) : header.scid = u64Of (packet.drop 8) ∧ header.scid ≠ 0 := by
  obtain ⟨rfl, rfl, -, hv⟩ := unpack_eq_ok hu
  refine ⟨rfl, ?_⟩
  simp only [validateHeader, hn, Outcome.ite_error_eq_ok, if_true, validateSesHeader] at hv
  exact hv.2.1

theorem handshakeBody_scid {typ : Byte} {packet body : List Byte} {scid : U64}
    (h : m.handshakeBody typ packet = .ok (scid, body)) :
    scid = u64Of (packet.drop 8) ∧ scid ≠ 0 := by
  simp only [handshakeBody, Outcome.bind_eq_ok, validateHandshakeHeader, Outcome.mapError_eq_ok,
    Outcome.ite_error_eq_ok, Except.ok.injEq, Prod.mk.injEq] at h
  obtain ⟨⟨header, payload⟩, hu, ⟨⟩, hv, message, -, -, rfl, -⟩ := h
  exact unpack_scid_ne_zero hu (validateSessionHeader_eq_ok hv).1

theorem acceptScid_eq_ok {packet : List Byte} {scid : U64} (h : m.acceptScid packet = .ok scid) :
    scid = u64Of (packet.drop 8) ∧ scid ≠ 0 := by
  simp only [acceptScid, Outcome.bind_eq_ok, validateProtectedHeader, Outcome.mapError_eq_ok,
    Outcome.ite_error_eq_ok, Except.ok.injEq] at h
  obtain ⟨⟨header, payload⟩, hu, ⟨⟩, hv, message, -, -, rfl⟩ := h
  exact unpack_scid_ne_zero hu (validateSessionHeader_eq_ok hv).1

theorem transcriptT0_eq_ok {context : TranscriptContext} {t0 : List Byte}
    (h : transcriptT0 C context = .ok t0) : t0 = context.bytes := by
  simp only [transcriptT0, Outcome.bind_eq_ok, Outcome.ite_error_eq_ok, Except.ok.injEq] at h
  obtain ⟨⟨⟩, -, -, -, -, rfl⟩ := h
  rfl

theorem cachedAnswer_eq_none {scid : U64} {packet : List Byte} {binding : ObservedBinding} :
    m.cachedAnswer scid packet binding = none ↔ scid ∉ m.scids := by
  unfold cachedAnswer scids
  split
  · rename_i p hp
    have := List.find?_some hp
    simp only [decide_eq_true_eq] at this
    simp only [reduceCtorEq, List.mem_append, List.mem_map, not_or, false_iff, not_and]
    intro h
    exact absurd ⟨p, List.mem_of_find?_eq_some hp, this⟩ h
  · rename_i hp
    simp only [Option.map_eq_none_iff, List.find?_eq_none, decide_eq_true_eq, List.mem_append,
      List.mem_map, not_or, not_exists, not_and] at hp ⊢
    exact ⟨fun h => ⟨hp, h⟩, fun h => h.2⟩

theorem authRequest_eq_inr {packet : List Byte} {binding : ObservedBinding} {nowMs bucket scid : U64}
    {given : Option ServerHandshakeMaterial} {auth : OpenAuth} {material : ServerHandshakeMaterial}
    (h : m.authRequest C packet binding nowMs bucket given = .ok (.inr (scid, auth, material))) :
    (scid = u64Of (packet.drop 8) ∧ scid ≠ 0) ∧ scid ∉ m.scids ∧
      m.pending.length < m.config.pendingLimit ∧ given = some material := by
  simp only [authRequest, Outcome.bind_eq_ok] at h
  obtain ⟨⟨id, body⟩, hb, h⟩ := h
  dsimp only at h
  split at h
  · simp only [Outcome.bind_eq_ok, Except.ok.injEq, reduceCtorEq, and_false, exists_false] at h
  · rename_i hfree
    simp only [Outcome.bind_eq_ok, Except.ok.injEq, Sum.inr.injEq, Prod.mk.injEq] at h
    obtain ⟨⟨a, mat⟩, hadmit, rfl, rfl, rfl⟩ := h
    simp only [admitAuth, Outcome.bind_eq_ok, Outcome.ite_error_eq_ok] at hadmit
    obtain ⟨a', -, ⟨⟩, -, hroom, hmat⟩ := hadmit
    refine ⟨handshakeBody_scid hb, cachedAnswer_eq_none.mp hfree, not_le.mp hroom, ?_⟩
    split at hmat
    · simp at hmat
    · simp only [Except.ok.injEq, Prod.mk.injEq] at hmat
      rw [hmat.2]

/-- The client is the pinned one. -/
theorem authRequest_client {packet : List Byte} {binding : ObservedBinding}
    {nowMs bucket scid : U64} {given : Option ServerHandshakeMaterial} {auth : OpenAuth}
    {material : ServerHandshakeMaterial}
    (h : m.authRequest C packet binding nowMs bucket given = .ok (.inr (scid, auth, material))) :
    auth.client.role = m.config.peer.role ∧
      auth.client.serviceContext = m.config.peer.serviceContext ∧
      auth.client.publicKey = m.config.peer.publicKey := by
  simp only [authRequest, Outcome.bind_eq_ok] at h
  obtain ⟨⟨id, body⟩, hb, h⟩ := h
  dsimp only at h
  split at h
  · simp only [Outcome.bind_eq_ok, Except.ok.injEq, reduceCtorEq, and_false, exists_false] at h
  · simp only [Outcome.bind_eq_ok, Except.ok.injEq, Sum.inr.injEq, Prod.mk.injEq, admitAuth,
      Outcome.ite_error_eq_ok, parseAuth, clientIdentity] at h
    obtain ⟨⟨a, mat⟩, ⟨a', ⟨client, ⟨hrole, -, hkey, ⟨⟩, -, rfl⟩, rfl⟩, ⟨⟩, -, -, hmat⟩, rfl, rfl, rfl⟩ := h
    split at hmat
    · simp at hmat
    · obtain ⟨rfl, -⟩ := Prod.mk.inj (Except.ok.inj hmat)
      push Not at hrole
      exact ⟨hrole.1, rfl, not_not.mp hkey⟩

/-- What a server knows of a handshake once it has signed its half. -/
theorem completeHandshake_eq_ok {scid : U64} {auth : OpenAuth} {material : ServerHandshakeMaterial}
    {h : Handshake} (hc : m.completeHandshake C scid auth material = .ok h) :
    h.context = m.actualContext C scid auth material ∧ h.clientSignature = auth.signature ∧
      h.serverSignature = signOpenAck C m.signingKey h.context.bytes ∧
      h.shared = C.diffieHellman material.ephemeralSecret auth.clientEphemeral ∧
      verifySignature C auth.client.publicKey OPEN_AUTH_DOMAIN
        (m.placeholderContext scid auth).bytes auth.signature = .ok () := by
  simp only [completeHandshake, Outcome.bind_eq_ok, Except.ok.injEq] at hc
  obtain ⟨placeholder, hplaceholder, ⟨⟩, hverify, shared, hshared, actual, hactual, rfl⟩ := hc
  rw [transcriptT0_eq_ok hplaceholder] at hverify
  rw [transcriptT0_eq_ok hactual]
  simp only [x25519, Outcome.ite_error_eq_ok, Except.ok.injEq] at hshared
  exact ⟨rfl, rfl, rfl, hshared.2.symm, hverify⟩

theorem session_sane {h : Handshake} {localRole peerRole : Byte} {budget owner : ℕ}
    {s : DirectionalSession} (hs : h.session C localRole peerRole budget owner = .ok s) :
    s.Sane := by
  simp only [Handshake.session, Outcome.bind_eq_ok, Except.ok.injEq] at hs
  obtain ⟨k₁, -, k₂, -, rfl⟩ := hs
  exact DirectionalSession.sane_new _ _ _ _ _

theorem receiveOpenAuth_shifts (m : ServerMachine) (packet : List Byte) (binding : ObservedBinding)
    (nowMs bucket : U64) (material : Option ServerHandshakeMaterial) (owner : ℕ)
    (hh : ∀ scid auth given h,
      (m.expire nowMs).authRequest C packet binding nowMs bucket material =
        .ok (.inr (scid, auth, given)) →
      (m.expire nowMs).completeHandshake C scid auth given = .ok h → h? = some h) :
    Shifts C m (some nowMs) h?
      (m.receiveOpenAuth C packet binding nowMs bucket material owner).1 := by
  unfold receiveOpenAuth
  split
  · exact .inl .same
  · refine .inr ⟨nowMs, rfl, ?_⟩
    dsimp only
    generalize m.expire nowMs = m at hh ⊢
    split
    · exact .same
    · exact .same
    · rename_i scid auth given hreq
      obtain ⟨⟨-, hscid⟩, hfree, hroom, -⟩ := authRequest_eq_inr hreq
      split
      · exact .same
      · rename_i handshake session ack h
        simp only [Outcome.bind_eq_ok, Except.ok.injEq, Prod.mk.injEq] at h
        obtain ⟨h', hcomplete, ⟨s, a⟩, ha, rfl, rfl, rfl⟩ := h
        simp only [answer, Outcome.bind_eq_ok, Except.ok.injEq, Prod.mk.injEq] at ha
        obtain ⟨s', hs, ack', -, rfl, rfl⟩ := ha
        obtain ⟨hcontext, -⟩ := completeHandshake_eq_ok hcomplete
        refine .opened _ hscid hfree hroom h' (hh _ _ _ _ hreq hcomplete) ⟨?_, ⟨owner, ?_⟩, rfl⟩
        · rw [hcontext]
          rfl
        · rw [← (authRequest_client hreq).1]
          rw [hcontext] at hs
          exact hs

theorem acceptPending_shift (m : ServerMachine) (i : Fin m.pending.length) (packet : List Byte)
    (nowMs : U64) : Shift C (some nowMs) h? m (m.acceptPending C i packet nowMs).1 := by
  unfold acceptPending
  dsimp only
  split
  · exact .same
  · rename_i preview _
    split
    · exact .same
    · split
      · exact .same
      · rename_i hroom
        have hs := commit_advances (m.pending.get i).session preview
        generalize (m.pending.get i).session.commit preview = r at hs
        obtain ⟨session, e | plaintext⟩ := r
        · exact .repend i session hs
        · exact .accepted i session packet nowMs rfl (not_le.mp hroom) hs

theorem receiveAccept_shift (m : ServerMachine) (packet : List Byte) (nowMs : U64) :
    Shift C (some nowMs) h? (m.expire nowMs) (m.receiveAccept C packet nowMs).1 := by
  unfold receiveAccept
  dsimp only
  generalize m.expire nowMs = m
  split
  · exact .same
  · split
    · exact .same
    · split
      · exact .same
      · exact acceptPending_shift m _ packet nowMs

theorem expire_expire (m : ServerMachine) (nowMs : U64) :
    (m.expire nowMs).expire nowMs = m.expire nowMs := by
  simp [expire]

/-- A data preview is for the session that the packet names. -/
theorem previewDataWithLocs_scid {packet : List Byte} {sources destinations : List (Bytes 16)}
    {nowMs : U64} {p : DataPreview}
    (h : (m.previewDataWithLocs C packet sources destinations nowMs).2 = .ok p) :
    p.scid = u64Of (packet.drop 8) := by
  simp only [previewDataWithLocs, Outcome.bind_eq_ok, Outcome.mapError_eq_ok] at h
  obtain ⟨⟨header, payload⟩, hu, h⟩ := h
  obtain ⟨rfl, -⟩ := unpack_eq_ok hu
  dsimp only at h
  split at h
  · simp at h
  · simp only [previewData, Outcome.bind_eq_ok, Outcome.ite_error_eq_ok] at h
    obtain ⟨⟨⟩, -, message, -, -, commit, -, hp⟩ := h
    rw [← Except.ok.inj hp]
    rfl

theorem receiveData_eq_ok {packet plaintext : List Byte} {nowMs : U64}
    (h : (m.receiveData C packet nowMs).2 = .ok plaintext) :
    ∃ p : DataPreview, p.scid = u64Of (packet.drop 8) ∧
      m.receiveData C packet nowMs = (m.expire nowMs).commitData p nowMs := by
  unfold receiveData at h ⊢
  split at h
  · simp at h
  · rename_i m' p hp
    have hm : m' = m.expire nowMs := by
      rw [← expire_expire]
      exact (congrArg Prod.fst hp).symm
    subst hm
    exact ⟨p, previewDataWithLocs_scid (congrArg Prod.snd hp), rfl⟩

theorem receiveData_shift (m : ServerMachine) (packet : List Byte) (nowMs : U64) :
    Shift C (some nowMs) h? (m.expire nowMs) (m.receiveData C packet nowMs).1 := by
  unfold receiveData previewDataWithLocs
  simp only [expire_expire]
  split
  · rename_i h
    obtain ⟨rfl, -⟩ := Prod.mk.inj h
    exact .same
  · rename_i m' p h
    obtain ⟨rfl, -⟩ := Prod.mk.inj h
    rcases commitData_shifts (C := C) (m.expire nowMs) p nowMs with hs | hs
    · exact hs
    · rwa [expire_expire] at hs

theorem commitProtectedReplay_shift {now? : Option U64} (m : ServerMachine) (scid : U64)
    (proof : ProtectedReplayProof) (nowMs : U64) :
    Shift C now? h? (m.expire nowMs) (m.commitProtectedReplay scid proof nowMs).1 := by
  unfold commitProtectedReplay
  dsimp only
  generalize m.expire nowMs = m
  split
  · exact .same
  · exact .session _ _ (commitProtectedReplay_advances _ proof)

theorem sendDataWithLocs_shift (m : ServerMachine) (scid : U64) (plaintext : List Byte)
    (source destination : Bytes 16) :
    Shift C none h? m (m.sendDataWithLocs C scid plaintext source destination).1 := by
  unfold sendDataWithLocs
  split
  · exact .same
  · dsimp only
    split
    · exact .remove _
    · exact .session _ _ (encrypt_advances C _ _ _ _ _)

theorem close_shift (m : ServerMachine) (scid : U64) (code : U16) :
    Shift C none h? m (m.close C scid code).1 := by
  unfold close
  split
  · exact .same
  · dsimp only
    split
    · exact .remove _
    · exact .remove _
    · exact .session _ _ (encrypt_advances C _ _ _ _ _)

theorem receiveClose_shift {now? : Option U64} (m : ServerMachine) (packet : List Byte)
    (nowMs : U64) : Shift C now? h? (m.expire nowMs) (m.receiveClose C packet nowMs).1 := by
  unfold receiveClose
  dsimp only
  generalize m.expire nowMs = m
  split
  · exact .same
  · split
    · exact .same
    · rename_i i _
      split
      · exact .same
      · split
        · exact .same
        · have hs := decrypt_advances C (m.established.get i).session packet
          generalize (m.established.get i).session.decrypt C packet = r at hs
          obtain ⟨session, e | plaintext⟩ := r
          · exact .session i session hs
          · dsimp only
            split
            · exact .session i session hs
            · exact .remove i

theorem takeProfile3Bootstrap_shift (m : ServerMachine) (scid : U64) :
    Shift C none h? m (m.takeProfile3Bootstrap scid).1 := by
  unfold takeProfile3Bootstrap
  split
  · exact .same
  · split
    · exact .same
    · dsimp only
      split
      · exact .remove _
      · exact .same

theorem step_shifts (m : ServerMachine) (call : ServerCall) :
    Shifts C m call.time? (m.handshake? C call) (m.step C call) := by
  cases call with
  | receiveOpen => exact .inl .same
  | receiveOpenAuth =>
    refine receiveOpenAuth_shifts m _ _ _ _ _ _ ?_
    intro scid auth given h hreq hcomplete
    simp [handshake?, hreq, hcomplete, Except.toOption]
  | receiveAccept packet nowMs => exact .inr ⟨nowMs, rfl, receiveAccept_shift m packet nowMs⟩
  | receiveData packet nowMs => exact .inr ⟨nowMs, rfl, receiveData_shift m packet nowMs⟩
  | previewData packet sources destinations nowMs => exact .inr ⟨nowMs, rfl, .same⟩
  | commitData p nowMs =>
    rcases commitData_shifts (C := C) m p nowMs with h | h
    · exact .inl h
    · exact .inr ⟨nowMs, rfl, h⟩
  | commitProtectedReplay scid proof nowMs =>
    exact .inr ⟨nowMs, rfl, commitProtectedReplay_shift m scid proof nowMs⟩
  | sendData => exact .inl (sendDataWithLocs_shift m ..)
  | close => exact .inl (close_shift m ..)
  | receiveClose packet nowMs => exact .inr ⟨nowMs, rfl, receiveClose_shift m packet nowMs⟩
  | takeProfile3Bootstrap scid => exact .inl (takeProfile3Bootstrap_shift m scid)
  | expire nowMs => exact .inr ⟨nowMs, rfl, .same⟩
  | promoteLocalLoc loc => exact .inl (.locs loc m.effectivePeerLoc)
  | promotePeerLoc loc => exact .inl (.locs m.effectiveLocalLoc loc)
  | rotateCookieKey key nowMs => exact .inl (.material _)
  | restart material => exact .inl (.restart material)

theorem Shift.config {now? : Option U64} (hs : Shift C now? h? m m') : m'.config = m.config := by
  cases hs <;> rfl

theorem step_config (m : ServerMachine) (call : ServerCall) :
    (m.step C call).config = m.config := by
  rcases step_shifts (C := C) m call with hs | ⟨nowMs, -, hs⟩
  · exact hs.config
  · exact hs.config

theorem step_config_exec (m : ServerMachine) (calls : List ServerCall) :
    (Machine.exec (step C) m calls).config = m.config := by
  induction calls generalizing m with
  | nil => rfl
  | cons call calls ih => exact (ih (m.step C call)).trans (step_config m call)

end ServerMachine

end R8.Session
