import R8Protocol.Session.Client
import R8Protocol.Session.ServerRun

/-! Runs of one directional session and of a client: their windows stand for what was committed. -/
namespace R8.Session

open FixedWidth Wire

variable {C : Crypto}

/-- The operations that change a session. -/
inductive SessionCall
  | encrypt (header : Header) (typ : Byte) (plaintext : List Byte) (budget : ℕ)
  | encryptProfile3Data (header : Header) (deliveryId : U64) (plaintext : List Byte) (budget : ℕ)
  | commit (preview : ProtectedPreview)
  | decrypt (packet : List Byte)
  | commitProtectedReplay (proof : ProtectedReplayProof)
  | commitProfile3Data (preview : Profile3DataPreview)
  | commitProfile3Replay (proof : Profile3ReplayProof)

namespace DirectionalSession

def step (C : Crypto) (s : DirectionalSession) : SessionCall → DirectionalSession
  | .encrypt header typ plaintext budget => (s.encrypt C header typ plaintext budget).1
  | .encryptProfile3Data header deliveryId plaintext budget =>
    (s.encryptProfile3Data C header deliveryId plaintext budget).1
  | .commit preview => (s.commit preview).1
  | .decrypt packet => (s.decrypt C packet).1
  | .commitProtectedReplay proof => (s.commitProtectedReplay proof).1
  | .commitProfile3Data preview => (s.commitProfile3Data preview).1
  | .commitProfile3Replay proof => (s.commitProfile3Replay proof).1

def Starts (s : DirectionalSession) : Prop :=
  ∃ owner sendKey receiveKey hash budget,
    s = DirectionalSession.new owner sendKey receiveKey hash budget

abbrev Reach (C : Crypto) (s : DirectionalSession) : Prop :=
  Machine.Reach Starts (step C) (fun _ _ => True) s

end DirectionalSession

variable {s s' : DirectionalSession}

theorem encryptProfile3Data_advances (C : Crypto) (s : DirectionalSession) (header : Header)
    (deliveryId : U64) (plaintext : List Byte) (budget : ℕ) :
    Advances s (s.encryptProfile3Data C header deliveryId plaintext budget).1 := by
  rcases encryptProfile3Data_cases C s header deliveryId plaintext budget with
    ⟨-, -, c, h, hle⟩ | ⟨call, p, -, hs, -⟩
  · rw [h]
    exact ⟨⟨rfl, rfl, rfl, rfl, rfl⟩, hle, id⟩
  · rw [hs.next]
    exact ⟨⟨rfl, rfl, rfl, rfl, rfl⟩, le_satAdd _ _, id⟩

theorem replay_advances (s : DirectionalSession) (token : ReplayCommit) :
    Advances s { s with replay := (s.replay.commit token).1 } :=
  ⟨⟨rfl, rfl, rfl, rfl, rfl⟩, le_rfl, fun ⟨_, h⟩ => replay_commit_sane h token⟩

theorem commitProfile3Replay_advances (s : DirectionalSession) (proof : Profile3ReplayProof) :
    Advances s (s.commitProfile3Replay proof).1 := by
  unfold DirectionalSession.commitProfile3Replay
  split
  · exact .refl s
  · split
    · exact .refl s
    · rename_i preview _
      dsimp only
      split
      · exact .refl s
      · have h := replay_advances s preview.commit
        generalize s.replay.commit preview.commit = r at h
        obtain ⟨replay, e | ⟨⟩⟩ := r <;> exact h

theorem commitProfile3Data_advances (s : DirectionalSession) (preview : Profile3DataPreview) :
    Advances s (s.commitProfile3Data preview).1 := by
  unfold DirectionalSession.commitProfile3Data
  split
  · exact .refl s
  · have h := replay_advances s preview.commit
    generalize s.replay.commit preview.commit = r at h
    obtain ⟨replay, e | ⟨⟩⟩ := r <;> exact h

theorem DirectionalSession.step_advances (s : DirectionalSession) (call : SessionCall) :
    Advances s (s.step C call) := by
  cases call with
  | encrypt => exact encrypt_advances C s _ _ _ _
  | encryptProfile3Data => exact encryptProfile3Data_advances C s _ _ _ _
  | commit preview => exact commit_advances s preview
  | decrypt packet => exact decrypt_advances C s packet
  | commitProtectedReplay proof => exact commitProtectedReplay_advances s proof
  | commitProfile3Data preview => exact commitProfile3Data_advances s preview
  | commitProfile3Replay proof => exact commitProfile3Replay_advances s proof

theorem DirectionalSession.sane_reach (h : DirectionalSession.Reach C s) : s.Sane := by
  refine h.invariant ?_ fun s call hs _ => (s.step_advances call).sane hs
  rintro s ⟨owner, sendKey, receiveKey, hash, budget, rfl⟩
  exact DirectionalSession.sane_new owner sendKey receiveKey hash budget

/-- The window has marked one fresh counter more, and nothing else of the session has changed. -/
def Marks (s s' : DirectionalSession) (counter : U64) : Prop :=
  ∃ cs w, s.replay.Refines cs ∧ ReplayWindow.Fresh cs counter ∧ w.Refines (counter :: cs) ∧
    s' = { s with replay := w }

theorem Marks.ne {counter : U64} (h : Marks s s' counter) : s' ≠ s := by
  obtain ⟨cs, w, hr, -, hw, rfl⟩ := h
  intro heq
  have hreplay : w = s.replay := congrArg DirectionalSession.replay heq
  have := hw.generation
  rw [hreplay, hr.generation, List.length_cons] at this
  omega

/-- A commit of a token marks its counter or changes nothing. -/
theorem replay_commit_marks (hs : s.Sane) (token : ReplayCommit) :
    (∃ e, (s.replay.commit token).2 = .error e ∧
      { s with replay := (s.replay.commit token).1 } = s) ∨
    (s.replay.commit token).2 = .ok () ∧
      Marks s { s with replay := (s.replay.commit token).1 } token.counter := by
  obtain ⟨cs, hr⟩ := hs
  rcases ReplayWindow.commit_cases hr token with ⟨e, he⟩ | ⟨hf, w, he, hw⟩
  · exact .inl ⟨e, by rw [he], by rw [he]⟩
  · exact .inr ⟨by rw [he], cs, w, hr, hf, hw, by rw [he]⟩

theorem commitProtectedReplay_cases (hs : s.Sane) (proof : ProtectedReplayProof) :
    (∃ e, (s.commitProtectedReplay proof).2.2 = .error e ∧ (s.commitProtectedReplay proof).1 = s) ∨
    ∃ preview, proof = ⟨some preview, false⟩ ∧ s.receiveOwner = preview.receiveOwner ∧
      (s.commitProtectedReplay proof).2.2 = .ok () ∧
      (s.commitProtectedReplay proof).2.1.committed = true ∧
      Marks s (s.commitProtectedReplay proof).1 preview.commit.counter := by
  unfold DirectionalSession.commitProtectedReplay
  split
  · exact .inl ⟨.replay, rfl, rfl⟩
  · rename_i hc
    split
    · exact .inl ⟨.replay, rfl, rfl⟩
    · rename_i preview hp
      dsimp only
      split
      · exact .inl ⟨.replay, rfl, rfl⟩
      · rename_i howner
        have h := replay_commit_marks hs preview.commit
        generalize s.replay.commit preview.commit = r at h
        obtain ⟨replay, e | ⟨⟩⟩ := r
        · rcases h with ⟨e', -, hsame⟩ | ⟨hok, -⟩
          · exact .inl ⟨e, rfl, hsame⟩
          · simp at hok
        · rcases h with ⟨e', he, -⟩ | ⟨-, hmarks⟩
          · simp at he
          · obtain ⟨p, c⟩ := proof
            simp only [Bool.not_eq_true] at hc
            exact .inr ⟨preview, by rw [← hp, ← hc], not_not.mp howner, rfl, rfl, hmarks⟩

theorem commitProfile3Replay_cases (hs : s.Sane) (proof : Profile3ReplayProof) :
    (∃ e, (s.commitProfile3Replay proof).2.2 = .error e ∧ (s.commitProfile3Replay proof).1 = s) ∨
    ∃ preview, proof = ⟨some preview, false⟩ ∧ s.receiveOwner = preview.receiveOwner ∧
      (s.commitProfile3Replay proof).2.2 = .ok () ∧
      (s.commitProfile3Replay proof).2.1.committed = true ∧
      Marks s (s.commitProfile3Replay proof).1 preview.commit.counter := by
  unfold DirectionalSession.commitProfile3Replay
  split
  · exact .inl ⟨.replay, rfl, rfl⟩
  · rename_i hc
    split
    · exact .inl ⟨.replay, rfl, rfl⟩
    · rename_i preview hp
      dsimp only
      split
      · exact .inl ⟨.replay, rfl, rfl⟩
      · rename_i howner
        have h := replay_commit_marks hs preview.commit
        generalize s.replay.commit preview.commit = r at h
        obtain ⟨replay, e | ⟨⟩⟩ := r
        · rcases h with ⟨e', -, hsame⟩ | ⟨hok, -⟩
          · exact .inl ⟨e, rfl, hsame⟩
          · simp at hok
        · rcases h with ⟨e', he, -⟩ | ⟨-, hmarks⟩
          · simp at he
          · obtain ⟨p, c⟩ := proof
            simp only [Bool.not_eq_true] at hc
            exact .inr ⟨preview, by rw [← hp, ← hc], not_not.mp howner, rfl, rfl, hmarks⟩

/-- The public operations of a client that may change it. -/
inductive ClientCall
  | start (scid : U64) (material : ClientMaterial) (nowMs : U64)
  | retry (nowMs : U64)
  | expire (nowMs : U64)
  | receiveVerify (packet : List Byte) (nowMs : U64)
  | receiveAck (packet : List Byte) (nowMs : U64) (owner : ℕ)
  | sendData (plaintext : List Byte) (source destination : Bytes 16)
  | close (code : U16)
  | receiveData (packet : List Byte)
  | commitData (preview : DataPreview)
  | commitProtectedReplay (proof : ProtectedReplayProof)
  | receiveClose (packet : List Byte)
  | takeProfile3Bootstrap
  | promoteLocalLoc (loc : Bytes 16)
  | promotePeerLoc (loc : Bytes 16)

namespace ClientMachine

def step (C : Crypto) (m : ClientMachine) : ClientCall → ClientMachine
  | .start scid material nowMs => (m.start C scid material nowMs).1
  | .retry nowMs => (m.retry nowMs).1
  | .expire nowMs => m.expire nowMs
  | .receiveVerify packet nowMs => (m.receiveVerify C packet nowMs).1
  | .receiveAck packet nowMs owner => (m.receiveAck C packet nowMs owner).1
  | .sendData plaintext source destination =>
    (m.sendDataWithLocs C plaintext source destination).1
  | .close code => (m.close C code).1
  | .receiveData packet => (m.receiveData C packet).1
  | .commitData preview => (m.commitData preview).1
  | .commitProtectedReplay proof => (m.commitProtectedReplay proof).1
  | .receiveClose packet => (m.receiveClose C packet).1
  | .takeProfile3Bootstrap => m.takeProfile3Bootstrap.1
  | .promoteLocalLoc loc => m.promoteLocalLoc loc
  | .promotePeerLoc loc => m.promotePeerLoc loc

def Starts (C : Crypto) (m : ClientMachine) : Prop :=
  ∃ config signingKey, ClientMachine.new C config signingKey = .ok m

abbrev Reach (C : Crypto) (m : ClientMachine) : Prop :=
  Machine.Reach (Starts C) (step C) (fun _ _ => True) m

/-- The session of an established client. -/
def session? (m : ClientMachine) : Option DirectionalSession :=
  match m.state with
  | .established e => some e.session
  | _ => none

/-- A client's session after a call: none, a new one, or the old one advanced. -/
def SessionFrom (m m' : ClientMachine) : Prop :=
  ∀ s' ∈ m'.session?, s'.Sane ∨ ∃ s ∈ m.session?, Advances s s'

variable {m m' : ClientMachine}

/-- The established session after a call is the one before it, advanced. -/
def Continues (m m' : ClientMachine) : Prop :=
  ∀ e', m'.state = .established e' → ∃ e, m.state = .established e ∧ e'.schedule = e.schedule ∧
    Advances e.session e'.session

theorem Continues.session (h : Continues m m') : SessionFrom m m' := by
  intro s' hs'
  unfold session? at hs'
  split at hs'
  · rename_i e' he'
    obtain ⟨e, he, -, hadv⟩ := h e' he'
    obtain rfl := Option.mem_some_iff.mp hs'
    exact .inr ⟨e.session, by simp [session?, he], hadv⟩
  · cases hs'

theorem Continues.of_state (h : m'.state = m.state) : Continues m m' := by
  intro e he
  exact ⟨e, h ▸ he, rfl, .refl _⟩

theorem Continues.without (h : ∀ e, m'.state ≠ .established e) : Continues m m' :=
  fun e he => absurd he (h e)

theorem Continues.advanced {e : ClientSession} {session : DirectionalSession}
    (h : m.state = .established e) (ha : Advances e.session session) :
    Continues m { m with state := .established { e with session := session } } := by
  intro e' he'
  obtain rfl := ClientState.established.inj he'
  exact ⟨e, h, rfl, ha⟩

theorem start_continues (m : ClientMachine) (scid : U64) (material : ClientMaterial) (nowMs : U64) :
    Continues m (m.start C scid material nowMs).1 := by
  unfold start
  split
  · split
    · exact .of_state rfl
    · dsimp only
      split
      · exact .of_state rfl
      · exact .without nofun
  · exact .of_state rfl

theorem releaseCookieWaitIfExpired_cases (m : ClientMachine) (nowMs : U64) :
    m.releaseCookieWaitIfExpired nowMs = (m, false) ∨
      ∃ m', m.releaseCookieWaitIfExpired nowMs = (m', true) ∧ Continues m m' := by
  unfold releaseCookieWaitIfExpired
  split
  · split
    · exact .inr ⟨_, rfl, .without nofun⟩
    · exact .inl rfl
  · exact .inl rfl

theorem retry_continues (m : ClientMachine) (nowMs : U64) : Continues m (m.retry nowMs).1 := by
  unfold retry
  rcases releaseCookieWaitIfExpired_cases m nowMs with h | ⟨m', h, hnone⟩
  · rw [h]
    exact .of_state rfl
  · rw [h]
    exact hnone

theorem expire_continues (m : ClientMachine) (nowMs : U64) : Continues m (m.expire nowMs) := by
  unfold expire
  split
  · split
    · exact .without nofun
    · exact .of_state rfl
  · split
    · exact .without nofun
    · exact .of_state rfl
  · exact .of_state rfl

theorem receiveVerify_continues (m : ClientMachine) (packet : List Byte) (nowMs : U64) :
    Continues m (m.receiveVerify C packet nowMs).1 := by
  unfold receiveVerify
  rcases releaseCookieWaitIfExpired_cases m nowMs with h | ⟨m', h, hnone⟩
  · rw [h]
    dsimp only
    split
    · split
      · split
        · exact .without nofun
        · exact .without nofun
      · exact .of_state rfl
    · split
      · exact .of_state rfl
      · exact .of_state rfl
    · exact .of_state rfl
  · rw [h]
    exact hnone

theorem receiveAck_session (m : ClientMachine) (packet : List Byte) (nowMs : U64) (owner : ℕ) :
    SessionFrom m (m.receiveAck C packet nowMs owner).1 := by
  unfold receiveAck
  split
  · split
    · exact Continues.session (.without nofun)
    · split
      · exact Continues.session (.of_state rfl)
      · rename_i handshake session h
        simp only [Outcome.bind_eq_ok, Except.ok.injEq, Prod.mk.injEq] at h
        obtain ⟨h', -, s, hs, rfl, rfl⟩ := h
        dsimp only
        split
        · exact Continues.session (.of_state rfl)
        · intro s' hs'
          simp only [session?, Option.mem_some_iff] at hs'
          subst hs'
          exact .inl ((encrypt_advances C s _ _ _ _).sane (ServerMachine.session_sane hs))
  · exact Continues.session (.of_state rfl)
  · exact Continues.session (.of_state rfl)

theorem sendDataWithLocs_continues (m : ClientMachine) (plaintext : List Byte)
    (source destination : Bytes 16) :
    Continues m (m.sendDataWithLocs C plaintext source destination).1 := by
  unfold sendDataWithLocs
  split
  · rename_i e he
    dsimp only
    split
    · exact .without nofun
    · exact .advanced he (encrypt_advances C _ _ _ _ _)
  · exact .of_state rfl

theorem close_continues (m : ClientMachine) (code : U16) : Continues m (m.close C code).1 := by
  unfold close
  split
  · rename_i e he
    dsimp only
    split
    · exact .without nofun
    · exact .without nofun
    · exact .advanced he (encrypt_advances C _ _ _ _ _)
  · exact .of_state rfl

theorem commitData_continues (m : ClientMachine) (p : DataPreview) :
    Continues m (m.commitData p).1 := by
  unfold commitData
  split
  · exact .of_state rfl
  · split
    · rename_i e he
      split
      · exact .advanced he (commit_advances e.session p.commit)
      · exact .of_state rfl
    · exact .of_state rfl

theorem receiveClose_continues (m : ClientMachine) (packet : List Byte) :
    Continues m (m.receiveClose C packet).1 := by
  unfold receiveClose
  split
  · rename_i e he
    split
    · exact .of_state rfl
    · split
      · exact .of_state rfl
      · have hs := decrypt_advances C e.session packet
        generalize e.session.decrypt C packet = r at hs
        obtain ⟨session, e' | plaintext⟩ := r
        · exact .advanced he hs
        · dsimp only
          split
          · exact .advanced he hs
          · exact .without nofun
  · exact .of_state rfl

/-- No call but that on an OPEN_ACK brings a new session. -/
theorem step_continues (m : ClientMachine) (call : ClientCall)
    (hcall : ∀ packet nowMs owner, call ≠ .receiveAck packet nowMs owner) :
    Continues m (m.step C call) := by
  cases call with
  | start => exact start_continues m _ _ _
  | retry => exact retry_continues m _
  | expire => exact expire_continues m _
  | receiveVerify => exact receiveVerify_continues m _ _
  | receiveAck => exact absurd rfl (hcall _ _ _)
  | sendData => exact sendDataWithLocs_continues m _ _ _
  | close => exact close_continues m _
  | receiveData packet =>
    change Continues m (m.receiveData C packet).1
    unfold receiveData
    split
    · exact .of_state rfl
    · exact commitData_continues m _
  | commitData => exact commitData_continues m _
  | commitProtectedReplay proof =>
    change Continues m (m.commitProtectedReplay proof).1
    unfold commitProtectedReplay
    split
    · rename_i e he
      exact .advanced he (commitProtectedReplay_advances e.session proof)
    · exact .of_state rfl
  | receiveClose => exact receiveClose_continues m _
  | takeProfile3Bootstrap =>
    change Continues m m.takeProfile3Bootstrap.1
    unfold takeProfile3Bootstrap
    split
    · exact .of_state rfl
    · split
      · exact .without nofun
      · exact .of_state rfl
  | promoteLocalLoc => exact .of_state rfl
  | promotePeerLoc => exact .of_state rfl

theorem step_session (m : ClientMachine) (call : ClientCall) : SessionFrom m (m.step C call) := by
  by_cases hcall : ∃ packet nowMs owner, call = .receiveAck packet nowMs owner
  · obtain ⟨packet, nowMs, owner, rfl⟩ := hcall
    exact receiveAck_session m packet nowMs owner
  · exact (step_continues m call fun packet nowMs owner h => hcall ⟨packet, nowMs, owner, h⟩).session

theorem sane_reach (h : Reach C m) : ∀ s ∈ m.session?, s.Sane := by
  refine h.invariant (I := fun m => ∀ s ∈ m.session?, s.Sane) ?_ ?_
  · rintro m ⟨config, signingKey, hnew⟩ s hs
    simp only [new, Outcome.bind_eq_ok, Outcome.ite_error_eq_ok, Except.ok.injEq] at hnew
    obtain ⟨⟨⟩, -, -, rfl⟩ := hnew
    cases hs
  · intro m call hm _ s' hs'
    rcases step_session m call s' hs' with hsane | ⟨s, hs, hadv⟩
    · exact hsane
    · exact hadv.sane (hm s hs)

theorem config_step (m : ClientMachine) (call : ClientCall) : (m.step C call).config = m.config := by
  have hrelease : ∀ nowMs, (m.releaseCookieWaitIfExpired nowMs).1.config = m.config := by
    intro nowMs
    unfold releaseCookieWaitIfExpired
    split
    · split <;> rfl
    · rfl
  cases call with
  | start scid material nowMs =>
    simp only [step, start]
    split
    · split
      · rfl
      · split <;> rfl
    · rfl
  | retry nowMs =>
    have h := hrelease nowMs
    simp only [step, retry]
    split <;> simp_all
  | expire nowMs =>
    simp only [step, expire]
    split
    · split <;> rfl
    · split <;> rfl
    · rfl
  | receiveVerify packet nowMs =>
    have h := hrelease nowMs
    simp only [step, receiveVerify]
    split
    · simp_all
    · rename_i m' hm
      rw [hm] at h
      split
      · split
        · split <;> exact h
        · exact h
      · split <;> exact h
      · exact h
  | receiveAck packet nowMs owner =>
    simp only [step, receiveAck]
    split
    · split
      · rfl
      · split
        · rfl
        · split <;> rfl
    · rfl
    · rfl
  | sendData plaintext source destination =>
    simp only [step, sendDataWithLocs]
    split
    · dsimp only
      split <;> rfl
    · rfl
  | close code =>
    simp only [step, close]
    split
    · split <;> rfl
    · rfl
  | receiveData packet =>
    simp only [step, receiveData, commitData]
    split
    · rfl
    · split
      · rfl
      · split
        · split <;> rfl
        · rfl
  | commitData preview =>
    simp only [step, commitData]
    split
    · rfl
    · split
      · split <;> rfl
      · rfl
  | commitProtectedReplay proof =>
    simp only [step, commitProtectedReplay]
    split <;> rfl
  | receiveClose packet =>
    simp only [step, receiveClose]
    split
    · split
      · rfl
      · split
        · rfl
        · split
          · rfl
          · split <;> rfl
    · rfl
  | takeProfile3Bootstrap =>
    simp only [step, takeProfile3Bootstrap]
    split
    · rfl
    · split <;> rfl
  | promoteLocalLoc loc => rfl
  | promotePeerLoc loc => rfl

theorem config_exec (m : ClientMachine) (calls : List ClientCall) :
    (Machine.exec (step C) m calls).config = m.config := by
  induction calls generalizing m with
  | nil => rfl
  | cons call calls ih => exact (ih (m.step C call)).trans (config_step m call)

theorem config_reach (h : Reach C m) : m.config.validate C = .ok () := by
  refine h.invariant (I := fun m => m.config.validate C = .ok ()) ?_ ?_
  · rintro m ⟨config, signingKey, hnew⟩
    simp only [new, Outcome.bind_eq_ok, Outcome.ite_error_eq_ok, Except.ok.injEq] at hnew
    obtain ⟨⟨⟩, hvalid, -, rfl⟩ := hnew
    exact hvalid
  · intro m call hm _
    rw [config_step]
    exact hm

end ClientMachine

end R8.Session
