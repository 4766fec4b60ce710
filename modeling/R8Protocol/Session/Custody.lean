import R8Protocol.Session.Nonces

/-! Who comes by a key or a signature: where the keys of a session lead back to. -/
namespace R8.Session

open FixedWidth Wire

variable {C : Crypto} {s s' : DirectionalSession} {h : Handshake} {p : Party} {scid : U64}

namespace Handshake

/-- A session of one end that came out of this handshake, under an SCID. -/
structure Gives (C : Crypto) (h : Handshake) (p : Party) (scid : U64) (s : DirectionalSession) :
    Prop where
  scid : h.context.scid = scid
  sendKey : s.sendKey = h.key C (h.roles p).1 (h.roles p).2
  receiveKey : s.receiveKey = h.key C (h.roles p).2 (h.roles p).1
  hash : s.transcriptHash = h.hash C

theorem Gives.advances (hg : h.Gives C p scid s) (ha : Advances s s') : h.Gives C p scid s' where
  scid := hg.scid
  sendKey := ha.keys.1.trans hg.sendKey
  receiveKey := ha.keys.2.1.trans hg.receiveKey
  hash := ha.keys.2.2.1.trans hg.hash

theorem session_gives {localRole peerRole : Byte} {budget owner : ℕ}
    (hs : h.session C localRole peerRole budget owner = .ok s)
    (hroles : h.roles p = (localRole, peerRole)) : h.Gives C p h.context.scid s := by
  simp only [session, Outcome.bind_eq_ok, Except.ok.injEq] at hs
  obtain ⟨k₁, hk₁, k₂, hk₂, rfl⟩ := hs
  refine ⟨rfl, ?_, ?_, rfl⟩
  · rw [hroles]
    exact deriveKeyFromPrk_eq_ok hk₁
  · rw [hroles]
    exact deriveKeyFromPrk_eq_ok hk₂

/-- Handshakes with the same hash and schedule give sessions whose keys cross over. -/
theorem Gives.crosses {h' : Handshake} {scid' : U64} (hc : h'.Gives C .client scid' s')
    (hs : h.Gives C .server scid s) (hcontext : h'.context = h.context)
    (hhash : h'.hash C = h.hash C) (hschedule : h'.schedule C = h.schedule C) :
    scid' = scid ∧ s'.transcriptHash = s.transcriptHash ∧ s'.sendKey = s.receiveKey ∧
      s'.receiveKey = s.sendKey := by
  have hkey (a b : Byte) : h'.key C a b = h.key C a b := by
    rw [key, key, hhash, hschedule, hcontext]
  have hroles (p : Party) : h'.roles p = h.roles p := by
    cases p <;> rw [roles, roles, hcontext]
  refine ⟨?_, ?_, ?_, ?_⟩
  · rw [← hc.scid, ← hs.scid, hcontext]
  · rw [hc.hash, hs.hash, hhash]
  · rw [hc.sendKey, hs.receiveKey, hroles, hkey]
    rfl
  · rw [hc.receiveKey, hs.sendKey, hroles, hkey]
    rfl

theorem keyInfo_hash {hash hash' : Bytes 32} {profile profile' a a' b b' slot slot' : Byte}
    (heq : keyInfo hash profile a b slot = keyInfo hash' profile' a' b' slot') : hash = hash' := by
  obtain ⟨hfront, -⟩ := List.append_inj' heq rfl
  exact Subtype.ext (List.append_inj' hfront (by simp)).2

end Handshake

theorem encrypt_key (C : Crypto) (s : DirectionalSession) (header : Header) (typ : Byte)
    (plaintext : List Byte) (budget : ℕ) :
    ∀ c ∈ (s.encrypt C header typ plaintext budget).2.1, c.key = s.sendKey := by
  rcases encrypt_cases C s header typ plaintext budget with ⟨hnone, -⟩ | ⟨call, packet, hc, hs, -⟩
  · simp [hnone]
  · simp [hc, hs.key]

/-- The keys that an end with this configuration can seal with in a session. -/
def HandshakeConfig.sealingKeys (C : Crypto) (config : HandshakeConfig) (s : DirectionalSession)
    (schedule : Option (Bytes 32)) : List (Bytes 32) :=
  (config.held C s schedule).map Prod.fst

theorem Advances.sealingKeys (ha : Advances s s') (config : HandshakeConfig)
    (schedule : Option (Bytes 32)) :
    config.sealingKeys C s' schedule = config.sealingKeys C s schedule := by
  obtain ⟨hsend, -, hhash, -⟩ := ha.keys
  simp [HandshakeConfig.sealingKeys, HandshakeConfig.held, DirectionalSession.held, hsend, hhash]

theorem sendKey_mem_sealingKeys (config : HandshakeConfig) (s : DirectionalSession)
    (schedule : Option (Bytes 32)) : s.sendKey ∈ config.sealingKeys C s schedule :=
  List.mem_cons_self

namespace ClientMachine

variable {m m' : ClientMachine} {call : ClientCall}

def sealingKeys (C : Crypto) (m : ClientMachine) : List (Bytes 32) := (m.held C).map Prod.fst

/-- The keys a call leaves the client, those it hands over and those it seals with. -/
def spread (C : Crypto) (m : ClientMachine) (call : ClientCall) : List (Bytes 32) :=
  (m.step C call).sealingKeys C ++
    ((m.yields call).toList.flatMap fun b => (b.held C).map Prod.fst) ++
    (m.sealed C call).map SealCall.key

theorem sealingKeys_established {e : ClientSession} (he : m.state = .established e) :
    m.sealingKeys C = m.config.sealingKeys C e.session e.schedule := by
  rw [sealingKeys, held_established he, HandshakeConfig.sealingKeys]

theorem sealingKeys_eq_nil (h : ∀ e, m.state ≠ .established e) : m.sealingKeys C = [] := by
  rw [sealingKeys, held_eq_nil h, List.map_nil]

theorem Continues.sealingKeys (h : Continues m m') (hc : m'.config = m.config) :
    m'.sealingKeys C ⊆ m.sealingKeys C := by
  cases hs : m'.state with
  | established e' =>
    obtain ⟨e, he, hschedule, hadv⟩ := h e' hs
    rw [sealingKeys_established hs, sealingKeys_established he, hc, hschedule, hadv.sealingKeys]
    exact List.Subset.refl _
  | idle | cookieWait | authWait | released =>
    rw [sealingKeys_eq_nil (m := m') (by simp [hs])]
    exact List.nil_subset _

theorem spread_subset {keys : List (Bytes 32)} (hstep : (m.step C call).sealingKeys C ⊆ keys)
    (hyields : ∀ b ∈ m.yields call, (b.held C).map Prod.fst ⊆ keys)
    (hsealed : ∀ c ∈ m.sealed C call, c.key ∈ keys) : m.spread C call ⊆ keys := by
  intro k hk
  rcases List.mem_append.mp hk with hk | hk
  · rcases List.mem_append.mp hk with hk | hk
    · exact hstep hk
    · obtain ⟨b, hb, hk⟩ := List.mem_flatMap.mp hk
      exact hyields b (Option.mem_toList.mp hb) hk
  · obtain ⟨c, hc, rfl⟩ := List.mem_map.mp hk
    exact hsealed c hc

/-- A call that brings no session seals with the key of the one there is. -/
theorem spread_of_continues (hcontinues : Continues m (m.step C call))
    (hyields : ∀ b ∈ m.yields call, (b.held C).map Prod.fst ⊆ m.sealingKeys C)
    (hsealed : ∀ c ∈ m.sealed C call, ∃ e, m.state = .established e ∧ c.key = e.session.sendKey) :
    m.spread C call ⊆ m.sealingKeys C := by
  refine spread_subset (hcontinues.sealingKeys (config_step m call)) hyields fun c hc => ?_
  obtain ⟨e, he, hkey⟩ := hsealed c hc
  rw [hkey, sealingKeys_established he]
  exact sendKey_mem_sealingKeys _ _ _

theorem takeProfile3Bootstrap_keys {b : Profile3Bootstrap}
    (h : m.takeProfile3Bootstrap.2 = .ok b) : (b.held C).map Prod.fst = m.sealingKeys C := by
  unfold takeProfile3Bootstrap at h
  split at h
  · cases h
  · split at h
    · rename_i he
      obtain rfl := Except.ok.inj h
      rw [sealingKeys_established he]
      simp [HandshakeConfig.sealingKeys, HandshakeConfig.held, Profile3Bootstrap.held]
    · cases h

/-- An OPEN_ACK brings the keys of its handshake. -/
theorem receiveAck_spread (hconfig : m.config.validate C = .ok ())
    (hscid : ∀ wait, m.state = .authWait wait → wait.scid ≠ 0) (packet : List Byte) (nowMs : U64)
    (owner : ℕ) :
    m.spread C (.receiveAck packet nowMs owner) ⊆
      ((m.handshake? C (.receiveAck packet nowMs owner)).toList.flatMap fun h =>
        (h.opens C .client).map Prod.fst) ++ m.sealingKeys C := by
  rcases receiveAck_opens hconfig hscid packet nowMs owner with
    ⟨hnone, hcontinues, -⟩ | ⟨wait, h, session, accept, hm, hcomplete, hsession, hr⟩
  · refine List.Subset.trans (spread_of_continues hcontinues (by simp [yields]) ?_)
      (List.subset_append_right _ _)
    simp [sealed, hnone]
  · obtain ⟨-, hclient, hserver⟩ := completeHandshake_eq_ok hcomplete
    have hnew : m.handshake? C (.receiveAck packet nowMs owner) = some h := by
      simp [handshake?, hm, hr, hcomplete, Except.toOption]
    have hopens : m.config.sealingKeys C session
        (if m.config.profile = 3 then some (h.schedule C) else none) ⊆
        (h.opens C .client).map Prod.fst := by
      refine ((Handshake.opens_held hsession ?_ ?_).map Prod.fst).subset
      · simp [Handshake.roles, hclient, hserver]
      · intro prk hprk
        split at hprk
        · exact (Option.some.inj hprk).symm
        · cases hprk
    rw [hnew, Option.toList_some, List.flatMap_singleton]
    refine List.Subset.trans (spread_subset ?_ (by simp [yields]) ?_)
      (List.subset_append_left _ _)
    · simp only [step, hr]
      rw [sealingKeys_established rfl]
      dsimp only
      rw [(encrypt_advances C session _ _ _ _).sealingKeys]
      exact hopens
    · simp only [sealed, hr]
      intro c hc
      rw [encrypt_key C session _ _ _ _ c hc]
      exact hopens (sendKey_mem_sealingKeys _ _ _)

/-- No key comes from elsewhere. -/
theorem spread_known (hconfig : m.config.validate C = .ok ())
    (hscid : ∀ wait, m.state = .authWait wait → wait.scid ≠ 0) (call : ClientCall) :
    m.spread C call ⊆
      ((m.handshake? C call).toList.flatMap fun h => (h.opens C .client).map Prod.fst) ++
        m.sealingKeys C := by
  have hquiet (h : m.spread C call ⊆ m.sealingKeys C) : m.spread C call ⊆
      ((m.handshake? C call).toList.flatMap fun h => (h.opens C .client).map Prod.fst) ++
        m.sealingKeys C := List.Subset.trans h (List.subset_append_right _ _)
  cases call with
  | receiveAck packet nowMs owner => exact receiveAck_spread hconfig hscid packet nowMs owner
  | sendData plaintext source destination =>
    refine hquiet (spread_of_continues (step_continues m _ (by simp)) (by simp [yields]) ?_)
    intro c hc
    simp only [sealed, sendDataWithLocs] at hc
    split at hc
    · rename_i e he
      exact ⟨e, he, encrypt_key C _ _ _ _ _ c hc⟩
    · cases hc
  | close code =>
    refine hquiet (spread_of_continues (step_continues m _ (by simp)) (by simp [yields]) ?_)
    intro c hc
    simp only [sealed, close] at hc
    split at hc
    · rename_i e he
      refine ⟨e, he, encrypt_key C e.session (sesHeader m.config.profile 1 e.scid
        m.effectiveLocalLoc m.effectivePeerLoc) CLOSE (u16Bytes code) m.config.budget c ?_⟩
      split at hc <;> exact hc
    · cases hc
  | takeProfile3Bootstrap =>
    refine hquiet (spread_of_continues (step_continues m _ (by simp)) ?_ (by simp [sealed]))
    intro b hb
    rw [takeProfile3Bootstrap_keys (Outcome.toOption_eq_some.mp hb)]
    exact List.Subset.refl _
  | start | retry | expire | receiveVerify | receiveData | commitData | commitProtectedReplay
  | receiveClose | promoteLocalLoc | promotePeerLoc =>
    exact hquiet (spread_of_continues (step_continues m _ (by simp)) (by simp [yields])
      (by simp [sealed]))

/-- The ephemeral key that the client waits for an answer with. -/
def ephemeral? (C : Crypto) (m : ClientMachine) : Option (Bytes 32) :=
  match m.state with
  | .cookieWait wait => some (C.x25519Public wait.material.ephemeralSecret)
  | .authWait wait => some (C.x25519Public wait.material.ephemeralSecret)
  | _ => none

/-- What a call signs: the transcript of an OPEN_AUTH, whether or not its packet gets out. -/
def signs (C : Crypto) (m : ClientMachine) : ClientCall → Option (List Byte)
  | .receiveVerify packet nowMs =>
    match m.state with
    | .cookieWait wait =>
      if nowMs < wait.deadlineMs then
        (do
          let (_, boot, _) ← m.validateVerifyCookie C packet wait.scid wait.material wait.opening
          let t0 ← transcriptT0 C (m.authContext C wait.scid wait.material boot)
          .ok (OPEN_AUTH_DOMAIN ++ t0) : Except SessionError (List Byte)).toOption
      else none
    | _ => none
  | _ => none

theorem signs_eq_some {message : List Byte} (h : m.signs C call = some message) :
    ∃ context, transcriptT0 C context = .ok context.bytes ∧
      message = OPEN_AUTH_DOMAIN ++ context.bytes ∧
      m.ephemeral? C = some context.clientEphemeral := by
  cases call with
  | receiveVerify packet nowMs =>
    simp only [signs] at h
    split at h
    · rename_i wait hm
      split at h
      · have hok := Outcome.toOption_eq_some.mp h
        simp only [Outcome.bind_eq_ok, Except.ok.injEq] at hok
        obtain ⟨⟨header, boot, cookie⟩, -, t0, ht0, rfl⟩ := hok
        obtain rfl := ServerMachine.transcriptT0_eq_ok ht0
        exact ⟨_, ht0, rfl, by simp [ephemeral?, hm, authContext]⟩
      · cases h
    · cases h
  | _ => cases h

/-- The SCID of a client is never zero. -/
theorem scid_step (hconfig : m.config.validate C = .ok ()) (hscid : ∀ id ∈ m.scid?, id ≠ 0)
    (call : ClientCall) : ∀ id ∈ (m.step C call).scid?, id ≠ 0 := by
  have hwait : ∀ wait, m.state = .authWait wait → wait.scid ≠ 0 :=
    fun wait hm => hscid wait.scid (by simp [scid?, hm])
  have hmoves := step_moves hconfig hwait call
  unfold scid?
  generalize (m.step C call).state = state at hmoves ⊢
  generalize m.answer? C call = answer at hmoves
  generalize m.sealed C call = seals at hmoves
  cases hmoves with
  | stays => exact hscid
  | opens scid material nowMs packet _ _ hnew => simpa using hnew
  | verifies wait packet nowMs header boot cookie openAuth _ hm =>
    simpa using hscid wait.scid (by simp [scid?, hm])
  | acks wait packet nowMs owner e sealCall _ hm _ he =>
    simpa [he] using hscid wait.scid (by simp [scid?, hm])
  | works e e' _ hm he => simpa [he] using hscid e.scid (by simp [scid?, hm])
  | releases => simp

/-- A completed handshake is with the pinned server, who signed for it, and the session is of it. -/
theorem handshake?_gives (hconfig : m.config.validate C = .ok ())
    (hscid : ∀ wait, m.state = .authWait wait → wait.scid ≠ 0)
    (hh : m.handshake? C call = some h) :
    transcriptT0 C h.context = .ok h.context.bytes ∧ h.context.client = m.config.localId ∧
      h.context.server = m.config.peer ∧
      verifySignature C m.config.peer.publicKey OPEN_ACK_DOMAIN h.context.bytes
        h.serverSignature = .ok () ∧
      ∃ e, (m.step C call).state = .established e ∧ h.Gives C .client e.scid e.session := by
  obtain ⟨packet, nowMs, owner, wait, session, accept, rfl, hm, hcomplete, hsession, hr⟩ :=
    handshake?_completes hconfig hscid hh
  obtain ⟨htranscript, hclient, hserver⟩ := completeHandshake_eq_ok hcomplete
  have hgives : h.Gives C .client h.context.scid session :=
    Handshake.session_gives hsession (by simp [Handshake.roles, hclient, hserver])
  simp only [completeHandshake, Outcome.bind_eq_ok, Except.ok.injEq] at hcomplete
  obtain ⟨ack, -, t0, ht0, ⟨⟩, hverify, shared, -, signature, -, rfl⟩ := hcomplete
  obtain rfl := ServerMachine.transcriptT0_eq_ok ht0
  refine ⟨htranscript, hclient, hserver, hverify, _, by rw [step, hr], ?_⟩
  exact hgives.advances (encrypt_advances C session _ _ _ _)

end ClientMachine

/-- The operations that the server takes part in a handshake with. -/
def ServerCall.InHandshake : ServerCall → Prop
  | .receiveOpen .. | .receiveOpenAuth .. | .receiveAccept .. | .expire _
  | .rotateCookieKey .. => True
  | _ => False

namespace ServerMachine

variable {m : ServerMachine} {call : ServerCall}

/-- The server answers its pinned client, once it has seen that the client signed its half. -/
theorem handshake?_verifies (hh : m.handshake? C call = some h) :
    h.context.client.publicKey = m.config.peer.publicKey ∧
      ∃ context, transcriptT0 C context = .ok context.bytes ∧
        verifySignature C m.config.peer.publicKey OPEN_AUTH_DOMAIN context.bytes
          h.clientSignature = .ok () ∧
        context.clientEphemeral = h.context.clientEphemeral := by
  unfold handshake? at hh
  split at hh
  · split at hh
    · rename_i scid auth material hreq
      have hok := Outcome.toOption_eq_some.mp hh
      obtain ⟨-, -, hkey⟩ := authRequest_client hreq
      simp only [completeHandshake, Outcome.bind_eq_ok, Except.ok.injEq] at hok
      obtain ⟨t0, ht0, ⟨⟩, hverify, shared, -, actual, -, rfl⟩ := hok
      obtain rfl := transcriptT0_eq_ok ht0
      rw [hkey] at hverify
      exact ⟨hkey, _, ht0, hverify, rfl⟩
    · cases hh
  · cases hh

theorem Answers.gives {m' : ServerMachine} (hc : m'.config = m.config)
    (hh : m.handshake? C call = some h) {entry : PendingSession} (ha : Answers C m' h entry) :
    h.Gives C .server entry.scid entry.session := by
  obtain ⟨-, hserver, hclient⟩ := handshake?_context hh
  obtain ⟨owner, hsession⟩ := ha.session
  rw [hc] at hsession
  have hgives := Handshake.session_gives hsession (p := .server)
    (by simp [Handshake.roles, hserver, hclient])
  rwa [ha.scid] at hgives

/-- A pending entry was there before, or the call answered its handshake. -/
theorem pending_step (m : ServerMachine) (call : ServerCall) :
    ∀ entry ∈ (m.step C call).pending,
      (∃ old ∈ m.pending, entry.scid = old.scid ∧ Advances old.session entry.session) ∨
      ∃ h, m.handshake? C call = some h ∧ h.Gives C .server entry.scid entry.session := by
  have hkept (m₀ : ServerMachine) (hsub : m₀.pending ⊆ m.pending) (hc : m₀.config = m.config)
      (hs : Shift C call.time? (m.handshake? C call) m₀ (m.step C call)) :
      ∀ entry ∈ (m.step C call).pending,
        (∃ old ∈ m.pending, entry.scid = old.scid ∧ Advances old.session entry.session) ∨
        ∃ h, m.handshake? C call = some h ∧ h.Gives C .server entry.scid entry.session := by
    generalize m.step C call = m' at hs
    intro entry hentry
    have hold (h : entry ∈ m₀.pending) :
        ∃ old ∈ m.pending, entry.scid = old.scid ∧ Advances old.session entry.session :=
      ⟨entry, hsub h, rfl, .refl _⟩
    cases hs with
    | same | session | touch | remove | locs | material => exact .inl (hold hentry)
    | opened new _ _ _ h hh hanswers =>
      rcases List.mem_append.mp hentry with hentry | hentry
      · exact .inl (hold hentry)
      · obtain rfl := List.mem_singleton.mp hentry
        exact .inr ⟨h, hh, hanswers.gives hc hh⟩
    | repend i s hadv =>
      rcases List.mem_or_eq_of_mem_set hentry with hentry | rfl
      · exact .inl (hold hentry)
      · exact .inl ⟨_, hsub (List.get_mem _ i), rfl, hadv⟩
    | accepted => exact .inl (hold (List.mem_of_mem_eraseIdx hentry))
    | restart => cases hentry
  rcases step_shifts (C := C) m call with hs | ⟨nowMs, -, hs⟩
  · exact hkept m (List.Subset.refl _) rfl hs
  · exact hkept (m.expire nowMs) (fun _ => List.mem_of_mem_filter) rfl hs

/-- An accepted packet opened, and the session goes on from the pending one. -/
theorem acceptPending_established (m : ServerMachine) (i : Fin m.pending.length)
    (packet : List Byte) (nowMs : U64) :
    ∀ e ∈ (m.acceptPending C i packet nowMs).1.established, e ∈ m.established ∨
      ∃ entry ∈ m.pending, ∃ preview, entry.session.preview C packet = .ok preview ∧
        e.scid = entry.scid ∧ Advances entry.session e.session := by
  intro e he
  unfold acceptPending at he
  dsimp only at he
  split at he
  · exact .inl he
  · rename_i preview hpreview
    split at he
    · exact .inl he
    · split at he
      · exact .inl he
      · have hadv := commit_advances (m.pending.get i).session preview
        generalize (m.pending.get i).session.commit preview = r at hadv he
        obtain ⟨session, e' | plaintext⟩ := r
        · exact .inl he
        · rcases List.mem_append.mp he with he | he
          · exact .inl he
          · obtain rfl := List.mem_singleton.mp he
            exact .inr ⟨_, List.get_mem _ i, preview, hpreview, rfl, hadv⟩

/-- An established entry was there before, or a packet opened under the key of a pending one. -/
theorem established_step (hcall : call.InHandshake) :
    ∀ e ∈ (m.step C call).established, e ∈ m.established ∨
      ∃ entry ∈ m.pending, ∃ packet preview, entry.session.preview C packet = .ok preview ∧
        e.scid = entry.scid ∧ Advances entry.session e.session := by
  intro e he
  cases call with
  | receiveOpen => exact .inl he
  | receiveOpenAuth packet binding nowMs bucket material owner =>
    left
    simp only [step, receiveOpenAuth] at he
    split at he
    · exact he
    · split at he
      · exact List.mem_of_mem_filter he
      · exact List.mem_of_mem_filter he
      · split at he
        · exact List.mem_of_mem_filter he
        · exact List.mem_of_mem_filter he
  | receiveAccept packet nowMs =>
    simp only [step, receiveAccept] at he
    split at he
    · exact .inl (List.mem_of_mem_filter he)
    · split at he
      · exact .inl (List.mem_of_mem_filter he)
      · split at he
        · exact .inl (List.mem_of_mem_filter he)
        · rcases acceptPending_established _ _ packet nowMs e he with
            he | ⟨entry, hentry, preview, hpreview, hscid, hadv⟩
          · exact .inl (List.mem_of_mem_filter he)
          · exact .inr ⟨entry, List.mem_of_mem_filter hentry, packet, preview, hpreview, hscid,
              hadv⟩
  | expire nowMs => exact .inl (List.mem_of_mem_filter he)
  | rotateCookieKey => exact .inl he
  | _ => exact hcall.elim

end ServerMachine

end R8.Session
