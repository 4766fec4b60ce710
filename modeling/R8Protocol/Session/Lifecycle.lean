import R8Protocol.Session.Atomicity
import R8Protocol.Session.Honest

/-! The life of a client's handshake: its phases, its deadline and the packets it hands out. -/
namespace R8.Session

open FixedWidth Wire

inductive Phase
  | idle
  | cookieWait
  | authWait
  | established
  | released
  deriving DecidableEq, Repr

/-- The order in which a client goes through the phases. -/
def Phase.rank : Phase → ℕ
  | idle => 0
  | cookieWait => 1
  | authWait => 2
  | established => 3
  | released => 4

namespace ClientState

def phase : ClientState → Phase
  | .idle => .idle
  | .cookieWait _ => .cookieWait
  | .authWait _ => .authWait
  | .established _ => .established
  | .released => .released

/-- The packet a client keeps to hand out again. -/
def stored? : ClientState → Option (List Byte)
  | .cookieWait wait => some wait.opening
  | .authWait wait => some wait.openAuth
  | .established e => some e.cachedAccept
  | _ => none

end ClientState

variable {C : Crypto} {s : DirectionalSession}

/-- What is sealed is sealed under the next counter, and the counter never falls. -/
theorem encrypt_counters (C : Crypto) (s : DirectionalSession) (header : Header) (typ : Byte)
    (plaintext : List Byte) (budget : ℕ) :
    (∀ c ∈ (s.encrypt C header typ plaintext budget).2.1, c.counter = s.sendCounters.next) ∧
      s.sendCounters.next ≤ (s.encrypt C header typ plaintext budget).1.sendCounters.next := by
  refine ⟨?_, (encrypt_advances C s header typ plaintext budget).counter⟩
  rcases encrypt_cases C s header typ plaintext budget with ⟨hnone, -⟩ | ⟨call, packet, hc, hs, -⟩
  · simp [hnone]
  · simp [hc, hs.counter]

/-- An encryption that fails under the header of a machine has sealed nothing. -/
theorem encrypt_sesHeader_unsealed {profile typ : Byte} {scid : U64} {budget : ℕ}
    {plaintext : List Byte} {e : SessionError} (src dst : Bytes 16) (hp : profile ≤ 3)
    (hs : scid ≠ 0) (hb : budget ≤ SERIALIZED_R8_MAX)
    (h : (s.encrypt C (sesHeader profile 1 scid src dst) typ plaintext budget).2.2 = .error e) :
    (s.encrypt C (sesHeader profile 1 scid src dst) typ plaintext budget).2.1 = [] := by
  have hsame := encrypt_sesHeader_error src dst hp hs hb h
  rcases encrypt_cases C s (sesHeader profile 1 scid src dst) typ plaintext budget with
    ⟨hnone, -⟩ | ⟨call, packet, -, hseals, -⟩
  · exact hnone
  · -- a seal moves the counter on
    exfalso
    have hnext : s.sendCounters.next = satAdd s.sendCounters.next 1 := by
      have hcount := congrArg (fun s => s.sendCounters.next) hseals.next
      rwa [hsame] at hcount
    have hval := congrArg Fin.val hnext
    have hlt := s.sendCounters.next.isLt
    have hmax : s.sendCounters.next.val ≠ u64Max.val := fun heq => hseals.below (Fin.ext heq)
    rw [satAdd_val] at hval
    rw [u64Max_val] at hmax
    omega

namespace ClientMachine

variable {m : ClientMachine} {call : ClientCall} {packet plaintext : List Byte} {nowMs : U64}

/-- The packet a call of the handshake hands out. -/
def answer? (C : Crypto) (m : ClientMachine) : ClientCall → Option (List Byte)
  | .start scid material nowMs => (m.start C scid material nowMs).2.toOption
  | .retry nowMs => (m.retry nowMs).2.toOption
  | .receiveVerify packet nowMs => (m.receiveVerify C packet nowMs).2.toOption
  | .receiveAck packet nowMs owner => (m.receiveAck C packet nowMs owner).2.2.toOption
  | _ => none

/-- The calls of `seal` that a call makes. -/
def sealed (C : Crypto) (m : ClientMachine) : ClientCall → List SealCall
  | .receiveAck packet nowMs owner => (m.receiveAck C packet nowMs owner).2.1
  | .sendData plaintext source destination =>
    (m.sendDataWithLocs C plaintext source destination).2.1
  | .close code => (m.close C code).2.1
  | _ => []

/-- Everything a call can do: the state it leaves, what it hands out and what it seals. -/
inductive Moves (C : Crypto) (m : ClientMachine) (call : ClientCall) :
    ClientState → Option (List Byte) → List SealCall → Prop
  | stays (answer : Option (List Byte)) (ha : ∀ p ∈ answer, m.state.stored? = some p) :
      Moves C m call m.state answer []
  | opens (scid : U64) (material : ClientMaterial) (nowMs : U64) (packet : List Byte)
      (hcall : call = .start scid material nowMs) (hm : m.state = .idle) (hscid : scid ≠ 0) :
      Moves C m call (.cookieWait ⟨scid, material, packet, satAdd nowMs 5000⟩) (some packet) []
  | verifies (wait : CookieWait) (packet : List Byte) (nowMs : U64) (header : Header)
      (boot : Bytes 16) (cookie : Bytes 32) (openAuth : List Byte)
      (hcall : call = .receiveVerify packet nowMs) (hm : m.state = .cookieWait wait)
      (hv : m.validateVerifyCookie C packet wait.scid wait.material wait.opening =
        .ok (header, boot, cookie)) :
      Moves C m call (.authWait ⟨wait.scid, wait.material, boot, wait.opening, header, cookie,
        openAuth, wait.deadlineMs⟩) (some openAuth) []
  | acks (wait : AuthWait) (packet : List Byte) (nowMs : U64) (owner : ℕ) (e : ClientSession)
      (sealCall : SealCall) (hcall : call = .receiveAck packet nowMs owner)
      (hm : m.state = .authWait wait) (hnow : nowMs < wait.deadlineMs) (hscid : e.scid = wait.scid)
      (hseal : sealCall.counter = 1) (hnext : e.session.sendCounters.next = 2) :
      Moves C m call (.established e) (some e.cachedAccept) [sealCall]
  | works (e e' : ClientSession) (seals : List SealCall) (hm : m.state = .established e)
      (hscid : e'.scid = e.scid) (haccept : e'.cachedAccept = e.cachedAccept)
      (hnext : e.session.sendCounters.next ≤ e'.session.sendCounters.next)
      (hs : ∀ c ∈ seals, c.counter = e.session.sendCounters.next) :
      Moves C m call (.established e') none seals
  | releases (seals : List SealCall)
      (hexpire : m.state.phase = .established → ∀ nowMs, call ≠ .expire nowMs)
      (hs : ∀ c ∈ seals, ∃ e, m.state = .established e ∧
        c.counter = e.session.sendCounters.next) : Moves C m call .released none seals

theorem Moves.refused : Moves C m call m.state none [] := .stays none (by simp)

theorem start_moves (scid : U64) (material : ClientMaterial) (nowMs : U64) :
    Moves C m (.start scid material nowMs) (m.start C scid material nowMs).1.state
      (m.start C scid material nowMs).2.toOption [] := by
  unfold start
  split
  · rename_i hm
    split
    · exact .refused
    · rename_i hscid
      dsimp only
      split
      · exact .refused
      · exact .opens scid material nowMs _ rfl hm hscid
  · exact .refused

theorem releaseCookieWaitIfExpired_eq (m : ClientMachine) (nowMs : U64) :
    m.releaseCookieWaitIfExpired nowMs = (m, false) ∨
      ∃ wait, m.state = .cookieWait wait ∧
        m.releaseCookieWaitIfExpired nowMs = ({ m with state := .released }, true) := by
  unfold releaseCookieWaitIfExpired
  split
  · rename_i wait hm
    split
    · exact .inr ⟨wait, hm, rfl⟩
    · exact .inl rfl
  · exact .inl rfl

theorem Moves.expired {wait : CookieWait} (hm : m.state = .cookieWait wait) :
    Moves C m call .released none [] :=
  .releases [] (by simp [hm, ClientState.phase]) (by simp)

theorem retry_moves (nowMs : U64) : Moves C m (.retry nowMs) (m.retry nowMs).1.state
    (m.retry nowMs).2.toOption [] := by
  unfold retry
  rcases releaseCookieWaitIfExpired_eq m nowMs with h | ⟨wait, hm, h⟩
  · rw [h]
    refine .stays _ ?_
    intro p hp
    have hok := Outcome.toOption_eq_some.mp hp
    dsimp only at hok
    split at hok <;> rename_i hm
    · simp only [Outcome.ite_ok_eq_ok, Except.ok.injEq] at hok
      rw [hm, ← hok.2]
      rfl
    · simp only [Outcome.ite_ok_eq_ok, Except.ok.injEq] at hok
      rw [hm, ← hok.2]
      rfl
    · rw [hm, ← Except.ok.inj hok]
      rfl
    · cases hok
  · rw [h]
    exact .expired hm

theorem expire_moves (nowMs : U64) :
    Moves C m (.expire nowMs) (m.expire nowMs).state none [] := by
  unfold expire
  split
  · rename_i wait hm
    split
    · exact .expired hm
    · exact .refused
  · rename_i wait hm
    split
    · exact .releases [] (by simp [hm, ClientState.phase]) (by simp)
    · exact .refused
  · exact .refused

theorem receiveVerify_moves (packet : List Byte) (nowMs : U64) :
    Moves C m (.receiveVerify packet nowMs) (m.receiveVerify C packet nowMs).1.state
      (m.receiveVerify C packet nowMs).2.toOption [] := by
  unfold receiveVerify
  rcases releaseCookieWaitIfExpired_eq m nowMs with h | ⟨wait, hm, h⟩
  · rw [h]
    dsimp only
    split
    · rename_i wait hm
      split
      · split
        · rename_i header boot cookie openAuth hok
          simp only [Outcome.bind_eq_ok, Except.ok.injEq, Prod.mk.injEq] at hok
          obtain ⟨⟨header', boot', cookie'⟩, hv, openAuth', -, rfl, rfl, rfl, rfl⟩ := hok
          exact .verifies wait packet nowMs _ _ _ _ rfl hm hv
        · exact .expired hm
      · exact .refused
    · rename_i wait hm
      split
      · refine .stays _ ?_
        intro p hp
        have hok := Outcome.toOption_eq_some.mp hp
        simp only [Outcome.bind_eq_ok, Outcome.ite_error_eq_ok, Except.ok.injEq] at hok
        obtain ⟨-, -, -, rfl⟩ := hok
        rw [hm]
        rfl
      · exact .refused
    · exact .refused
  · rw [h]
    exact .expired hm

/-- An acknowledgement is sealed for under counter one, or nothing is sealed. -/
theorem receiveAck_moves (hconfig : m.config.validate C = .ok ())
    (hscid : ∀ wait, m.state = .authWait wait → wait.scid ≠ 0) (packet : List Byte) (nowMs : U64)
    (owner : ℕ) :
    Moves C m (.receiveAck packet nowMs owner) (m.receiveAck C packet nowMs owner).1.state
      (m.receiveAck C packet nowMs owner).2.2.toOption
      (m.receiveAck C packet nowMs owner).2.1 := by
  obtain ⟨-, -, -, -, hprofile, hmax, -⟩ := config_validate hconfig
  unfold receiveAck
  split
  · rename_i wait hm
    split
    · exact .releases [] (by simp [hm, ClientState.phase]) (by simp)
    · rename_i hnow
      split
      · exact .refused
      · rename_i handshake session hok
        simp only [Outcome.bind_eq_ok, Except.ok.injEq, Prod.mk.injEq] at hok
        obtain ⟨handshake', -, session', hsession, rfl, rfl⟩ := hok
        have hfirst : session'.sendCounters.next = 1 := by
          simp only [Handshake.session, Outcome.bind_eq_ok, Except.ok.injEq] at hsession
          obtain ⟨k₁, -, k₂, -, rfl⟩ := hsession
          rfl
        dsimp only
        split
        · rename_i e he
          rw [encrypt_sesHeader_unsealed _ _ hprofile (hscid wait hm) hmax he]
          exact .refused
        · rename_i accept hacc
          rcases encrypt_cases C session' (sesHeader m.config.profile 1 wait.scid m.config.source
            m.config.destination) SESSION_ACCEPT (acceptText session'.transcriptHash)
            m.config.budget with ⟨-, ⟨e, he⟩, -⟩ | ⟨sealCall, p, hseal, hseals, -⟩
          · rw [he] at hacc
            cases hacc
          · rw [hseal]
            refine .acks wait packet nowMs owner _ sealCall rfl hm (not_le.mp hnow) rfl ?_ ?_
            · rw [hseals.counter, hfirst]
            · dsimp only
              rw [hseals.next]
              dsimp only
              rw [hfirst]
              rfl
  · rename_i e hm
    refine .stays _ ?_
    intro p hp
    rw [hm, ← Except.ok.inj (Outcome.toOption_eq_some.mp hp)]
    rfl
  · exact .refused

theorem sendDataWithLocs_moves (plaintext : List Byte) (source destination : Bytes 16) :
    Moves C m (.sendData plaintext source destination)
      (m.sendDataWithLocs C plaintext source destination).1.state none
      (m.sendDataWithLocs C plaintext source destination).2.1 := by
  unfold sendDataWithLocs
  split
  · rename_i e hm
    obtain ⟨hseals, hnext⟩ := encrypt_counters C e.session
      (sesHeader m.config.profile 1 e.scid source destination) SESSION_DATA plaintext
      m.config.budget
    dsimp only
    split
    · exact .releases _ (by simp) fun c hc => ⟨e, hm, hseals c hc⟩
    · exact .works e _ _ hm rfl rfl hnext hseals
  · exact .refused

theorem close_moves (code : U16) :
    Moves C m (.close code) (m.close C code).1.state none (m.close C code).2.1 := by
  unfold close
  split
  · rename_i e hm
    obtain ⟨hseals, hnext⟩ := encrypt_counters C e.session
      (sesHeader m.config.profile 1 e.scid m.effectiveLocalLoc m.effectivePeerLoc) CLOSE
      (u16Bytes code) m.config.budget
    dsimp only
    split
    · exact .releases _ (by simp) fun c hc => ⟨e, hm, hseals c hc⟩
    · exact .releases _ (by simp) fun c hc => ⟨e, hm, hseals c hc⟩
    · exact .works e _ _ hm rfl rfl hnext hseals
  · exact .refused

/-- A session of an established client that only receives. -/
theorem Moves.receives {e : ClientSession} {session : DirectionalSession}
    (hm : m.state = .established e) (hs : Advances e.session session) :
    Moves C m call (.established { e with session := session }) none [] :=
  .works e _ [] hm rfl rfl hs.counter (by simp)

theorem commitData_moves (p : DataPreview) : Moves C m call (m.commitData p).1.state none [] := by
  unfold commitData
  split
  · exact .refused
  · split
    · rename_i e hm
      split
      · exact .receives hm (commit_advances e.session p.commit)
      · exact .refused
    · exact .refused

theorem receiveClose_moves (packet : List Byte) :
    Moves C m (.receiveClose packet) (m.receiveClose C packet).1.state none [] := by
  unfold receiveClose
  split
  · rename_i e hm
    split
    · exact .refused
    · split
      · exact .refused
      · have hs := decrypt_advances C e.session packet
        generalize e.session.decrypt C packet = r at hs
        obtain ⟨session, e' | plaintext⟩ := r
        · exact .receives hm hs
        · dsimp only
          split
          · exact .receives hm hs
          · exact .releases [] (by simp) (by simp)
  · exact .refused

theorem takeProfile3Bootstrap_moves :
    Moves C m .takeProfile3Bootstrap m.takeProfile3Bootstrap.1.state none [] := by
  unfold takeProfile3Bootstrap
  split
  · exact .refused
  · split
    · exact .releases [] (by simp) (by simp)
    · exact .refused

theorem step_moves (hconfig : m.config.validate C = .ok ())
    (hscid : ∀ wait, m.state = .authWait wait → wait.scid ≠ 0) (call : ClientCall) :
    Moves C m call (m.step C call).state (m.answer? C call) (m.sealed C call) := by
  cases call with
  | start scid material nowMs => exact start_moves scid material nowMs
  | retry nowMs => exact retry_moves nowMs
  | expire nowMs => exact expire_moves nowMs
  | receiveVerify packet nowMs => exact receiveVerify_moves packet nowMs
  | receiveAck packet nowMs owner => exact receiveAck_moves hconfig hscid packet nowMs owner
  | sendData plaintext source destination =>
    exact sendDataWithLocs_moves plaintext source destination
  | close code => exact close_moves code
  | receiveData packet =>
    change Moves C m _ (m.receiveData C packet).1.state none []
    unfold receiveData
    split
    · exact .refused
    · exact commitData_moves _
  | commitData preview => exact commitData_moves preview
  | commitProtectedReplay proof =>
    change Moves C m _ (m.commitProtectedReplay proof).1.state none []
    unfold commitProtectedReplay
    split
    · rename_i e hm
      exact .receives hm (commitProtectedReplay_advances e.session proof)
    · exact .refused
  | receiveClose packet => exact receiveClose_moves packet
  | takeProfile3Bootstrap => exact takeProfile3Bootstrap_moves
  | promoteLocalLoc loc => exact .refused
  | promotePeerLoc loc => exact .refused

end ClientMachine

/-- A client with the history of its handshake: when it was last asked to start while idle, the
packets it last took in CookieWait and in AuthWait, what it handed out in each phase, and what it
sealed, newest first. -/
structure Lifetime where
  machine : ClientMachine
  startedMs : U64
  verify : List Byte
  ack : List Byte
  answers : List (Phase × List Byte)
  seals : List SealCall

namespace Lifetime

def phase (w : Lifetime) : Phase := w.machine.state.phase

def step (C : Crypto) (w : Lifetime) (call : ClientCall) : Lifetime where
  machine := w.machine.step C call
  startedMs :=
    match call with
    | .start _ _ nowMs => if w.phase = .idle then nowMs else w.startedMs
    | _ => w.startedMs
  verify :=
    match call with
    | .receiveVerify packet _ => if w.phase = .cookieWait then packet else w.verify
    | _ => w.verify
  ack :=
    match call with
    | .receiveAck packet _ _ => if w.phase = .authWait then packet else w.ack
    | _ => w.ack
  answers := ((w.machine.answer? C call).map fun p =>
    ((w.machine.step C call).state.phase, p)).toList ++ w.answers
  seals := w.machine.sealed C call ++ w.seals

def Starts (C : Crypto) (w : Lifetime) : Prop :=
  ClientMachine.Starts C w.machine ∧ w.answers = [] ∧ w.seals = []

/-- Any calls, with any packets and times. -/
abbrev Reach (C : Crypto) (w : Lifetime) : Prop :=
  Machine.Reach (Starts C) (step C) (fun _ _ => True) w

variable {w : Lifetime} {m : ClientMachine} {call : ClientCall} {state : ClientState}
  {answer : Option (List Byte)} {answers : List (Phase × List Byte)} {seals seals' : List SealCall}

/-- A call keeps the phase and its packet, or goes on to a later phase. -/
theorem moves_phase (h : ClientMachine.Moves C m call state answer seals) :
    (state.phase = m.state.phase ∧ state.stored? = m.state.stored?) ∨
      m.state.phase.rank < state.phase.rank := by
  cases h with
  | stays => exact .inl ⟨rfl, rfl⟩
  | opens scid material nowMs packet _ hm =>
    right
    simp [hm, ClientState.phase, Phase.rank]
  | verifies wait packet nowMs header boot cookie openAuth _ hm =>
    right
    simp [hm, ClientState.phase, Phase.rank]
  | acks wait packet nowMs owner e sealCall _ hm =>
    right
    simp [hm, ClientState.phase, Phase.rank]
  | works e e' _ hm _ haccept =>
    left
    simp [hm, ClientState.phase, ClientState.stored?, haccept]
  | releases =>
    by_cases hr : m.state = .released
    · left
      simp [hr]
    · right
      cases hm : m.state <;> simp_all [ClientState.phase, Phase.rank]

theorem moves_answer (h : ClientMachine.Moves C m call state answer seals) :
    ∀ p ∈ answer, state.stored? = some p := by
  cases h with
  | stays _ ha => exact ha
  | opens => simp [ClientState.stored?]
  | verifies => simp [ClientState.stored?]
  | acks => simp [ClientState.stored?]
  | works => simp
  | releases => simp

/-- What has been handed out in one phase is one packet, and that of this phase is stored. -/
structure Handed (state : ClientState) (answers : List (Phase × List Byte)) : Prop where
  behind : ∀ x ∈ answers, x.1.rank ≤ state.phase.rank
  same : ∀ x ∈ answers, ∀ y ∈ answers, x.1 = y.1 → x.2 = y.2
  stored : ∀ x ∈ answers, x.1 = state.phase → state.stored? = some x.2

theorem Handed.move (h : Handed m.state answers)
    (hm : ClientMachine.Moves C m call state answer seals) : Handed state answers := by
  rcases moves_phase hm with ⟨hphase, hstored⟩ | hlt
  · refine ⟨?_, h.same, ?_⟩
    · rw [hphase]
      exact h.behind
    · rw [hphase, hstored]
      exact h.stored
  · refine ⟨fun x hx => (h.behind x hx).trans hlt.le, h.same, ?_⟩
    intro x hx heq
    have hle := h.behind x hx
    rw [heq] at hle
    omega

theorem Handed.hand (h : Handed state answers) (ha : ∀ p ∈ answer, state.stored? = some p) :
    Handed state ((answer.map fun p => (state.phase, p)).toList ++ answers) := by
  cases answer with
  | none => exact h
  | some p =>
    have hp := ha p rfl
    refine ⟨?_, ?_, ?_⟩
    · intro x hx
      rcases List.mem_cons.mp hx with rfl | hx
      · exact le_rfl
      · exact h.behind x hx
    · intro x hx y hy hxy
      rcases List.mem_cons.mp hx with rfl | hx <;> rcases List.mem_cons.mp hy with rfl | hy
      · rfl
      · exact Option.some.inj (hp.symm.trans (h.stored y hy hxy.symm))
      · exact Option.some.inj ((h.stored x hx hxy).symm.trans hp)
      · exact h.same x hx y hy hxy
    · intro x hx heq
      rcases List.mem_cons.mp hx with rfl | hx
      · exact hp
      · exact h.stored x hx heq

/-- Nothing is sealed before the session, and counter one is sealed under at most once. -/
structure Sealing (state : ClientState) (seals : List SealCall) : Prop where
  unsealed : state.phase.rank < 3 → seals = []
  once : (seals.filter fun c => c.counter = 1).length ≤ 1
  beyond : ∀ e, state = .established e → 2 ≤ e.session.sendCounters.next.val

/-- Seals of an established session are not under counter one. -/
theorem Sealing.later {e : ClientSession} (h : Sealing m.state seals)
    (hm : m.state = .established e)
    (hs : ∀ c ∈ seals', c.counter = e.session.sendCounters.next) :
    ((seals' ++ seals).filter fun c => c.counter = 1).length ≤ 1 := by
  have hnone : (seals'.filter fun c => c.counter = 1) = [] := by
    refine List.filter_eq_nil_iff.mpr fun c hc => ?_
    have hnext := h.beyond e hm
    have hne : c.counter ≠ 1 := by
      intro hone
      rw [← hs c hc, hone] at hnext
      exact absurd hnext (by decide)
    simpa using hne
  rw [List.filter_append, hnone, List.nil_append]
  exact h.once

theorem Sealing.move (h : Sealing m.state seals)
    (hm : ClientMachine.Moves C m call state answer seals') : Sealing state (seals' ++ seals) := by
  cases hm with
  | stays => exact h
  | opens scid material nowMs packet _ hm =>
    have hnone := h.unsealed (by simp [hm, ClientState.phase, Phase.rank])
    exact ⟨fun _ => hnone, h.once, by simp⟩
  | verifies wait packet nowMs header boot cookie openAuth _ hm =>
    have hnone := h.unsealed (by simp [hm, ClientState.phase, Phase.rank])
    exact ⟨fun _ => hnone, h.once, by simp⟩
  | acks wait packet nowMs owner e sealCall _ hm _ _ _ hnext =>
    have hnone := h.unsealed (by simp [hm, ClientState.phase, Phase.rank])
    subst hnone
    refine ⟨by simp [ClientState.phase, Phase.rank], List.length_filter_le _ [sealCall], ?_⟩
    intro e' he
    obtain rfl := ClientState.established.inj he
    rw [hnext]
    decide
  | works e e' _ hm _ _ hnext hs =>
    refine ⟨by simp [ClientState.phase, Phase.rank], h.later hm hs, ?_⟩
    intro e'' he
    obtain rfl := ClientState.established.inj he
    exact (h.beyond e hm).trans hnext
  | releases _ _ hs =>
    refine ⟨by simp [ClientState.phase, Phase.rank], ?_, by simp⟩
    cases hnil : seals' with
    | nil => exact h.once
    | cons c cs =>
      rw [← hnil]
      obtain ⟨e, hm, -⟩ := hs c (by simp [hnil])
      refine h.later hm fun c' hc' => ?_
      obtain ⟨e', hm', hc⟩ := hs c' hc'
      obtain rfl := ClientState.established.inj (hm.symm.trans hm')
      exact hc

/-- What a waiting client was started with, and the VERIFY_COOKIE an authenticating one answers. -/
structure Waiting (C : Crypto) (m : ClientMachine) (startedMs : U64) (verify : List Byte) :
    Prop where
  scid : ∀ id ∈ m.scid?, id ≠ 0
  deadline : ∀ d ∈ m.deadlineMs?, d = satAdd startedMs 5000
  verified : ∀ wait, m.state = .authWait wait →
    m.validateVerifyCookie C verify wait.scid wait.material wait.opening =
      .ok (wait.verifyHeader, wait.boot, wait.verifyCookie)

theorem startedMs_step (h : w.phase ≠ .idle) : (w.step C call).startedMs = w.startedMs := by
  cases call <;> simp [step, h]

theorem verify_step (h : w.phase ≠ .cookieWait) : (w.step C call).verify = w.verify := by
  cases call <;> simp [step, h]

theorem ack_step (h : w.phase ≠ .authWait) : (w.step C call).ack = w.ack := by
  cases call <;> simp [step, h]

theorem validateVerifyCookie_config {m' : ClientMachine} (h : m'.config = m.config)
    (packet : List Byte) (scid : U64) (material : ClientMaterial) (opening : List Byte) :
    m'.validateVerifyCookie C packet scid material opening =
      m.validateVerifyCookie C packet scid material opening := by
  simp only [ClientMachine.validateVerifyCookie, ClientMachine.validateOpening, h]

theorem Waiting.move (h : Waiting C w.machine w.startedMs w.verify)
    (hm : ClientMachine.Moves C w.machine call (w.machine.step C call).state answer seals) :
    Waiting C (w.step C call).machine (w.step C call).startedMs (w.step C call).verify := by
  have hconfig := validateVerifyCookie_config (C := C) (w.machine.config_step (C := C) call)
  have hmachine : (w.step C call).machine = w.machine.step C call := rfl
  generalize hstate : (w.machine.step C call).state = state at hm
  cases hm with
  | stays =>
    have hscid : (w.step C call).machine.scid? = w.machine.scid? := by
      simp [ClientMachine.scid?, hmachine, hstate]
    have hdeadline : (w.step C call).machine.deadlineMs? = w.machine.deadlineMs? := by
      simp [ClientMachine.deadlineMs?, hmachine, hstate]
    refine ⟨by rw [hscid]; exact h.scid, ?_, ?_⟩
    · intro d hd
      rw [hdeadline] at hd
      have hidle : w.phase ≠ .idle := by
        intro hp
        cases hs : w.machine.state <;>
          simp_all [phase, ClientState.phase, ClientMachine.deadlineMs?]
      rw [startedMs_step hidle]
      exact h.deadline d hd
    · intro wait hwait
      rw [hmachine, hstate] at hwait
      rw [hmachine, hconfig, verify_step (by simp [phase, hwait, ClientState.phase])]
      exact h.verified wait hwait
  | opens scid material nowMs packet hcall hm hscid =>
    subst hcall
    refine ⟨?_, ?_, ?_⟩
    · simp [ClientMachine.scid?, hmachine, hstate, hscid]
    · simp [ClientMachine.deadlineMs?, hstate, step, phase, hm, ClientState.phase]
    · simp [hmachine, hstate]
  | verifies wait packet nowMs header boot cookie openAuth hcall hm hv =>
    subst hcall
    have hidle : w.phase ≠ .idle := by simp [phase, hm, ClientState.phase]
    refine ⟨?_, ?_, ?_⟩
    · have hscid := h.scid wait.scid (by simp [ClientMachine.scid?, hm])
      simp [ClientMachine.scid?, hmachine, hstate, hscid]
    · have hdeadline := h.deadline wait.deadlineMs (by simp [ClientMachine.deadlineMs?, hm])
      rw [startedMs_step hidle]
      simp [ClientMachine.deadlineMs?, hmachine, hstate, hdeadline]
    · intro wait' hwait
      rw [hmachine, hstate] at hwait
      obtain rfl := ClientState.authWait.inj hwait
      have hverify : (w.step C (.receiveVerify packet nowMs)).verify = packet := by
        simp [step, phase, hm, ClientState.phase]
      rw [hmachine, hconfig, hverify]
      exact hv
  | acks wait packet nowMs owner e sealCall _ hm _ hscid =>
    have hid := h.scid wait.scid (by simp [ClientMachine.scid?, hm])
    refine ⟨?_, ?_, ?_⟩
    · simp [ClientMachine.scid?, hmachine, hstate, hscid, hid]
    · simp [ClientMachine.deadlineMs?, hmachine, hstate]
    · simp [hmachine, hstate]
  | works e e' _ hm hscid =>
    have hid := h.scid e.scid (by simp [ClientMachine.scid?, hm])
    refine ⟨?_, ?_, ?_⟩
    · simp [ClientMachine.scid?, hmachine, hstate, hscid, hid]
    · simp [ClientMachine.deadlineMs?, hmachine, hstate]
    · simp [hmachine, hstate]
  | releases =>
    refine ⟨?_, ?_, ?_⟩
    · simp [ClientMachine.scid?, hmachine, hstate]
    · simp [ClientMachine.deadlineMs?, hmachine, hstate]
    · simp [hmachine, hstate]

/-- A client of this configuration answers the packet in AuthWait with that SESSION_ACCEPT. -/
def Acknowledges (C : Crypto) (config : HandshakeConfig) (ack accept : List Byte) : Prop :=
  ∃ (m : ClientMachine) (wait : AuthWait) (nowMs : U64) (owner : ℕ), m.config = config ∧
    m.state = .authWait wait ∧ (m.receiveAck C ack nowMs owner).2.2 = .ok accept

/-- What holds in every lifetime. -/
structure Lived (C : Crypto) (w : Lifetime) : Prop where
  valid : w.machine.config.validate C = .ok ()
  waiting : Waiting C w.machine w.startedMs w.verify
  handed : Handed w.machine.state w.answers
  sealing : Sealing w.machine.state w.seals
  acknowledged : ∀ e, w.machine.state = .established e →
    Acknowledges C w.machine.config w.ack e.cachedAccept

theorem Lived.moves (h : Lived C w) (call : ClientCall) :
    ClientMachine.Moves C w.machine call (w.machine.step C call).state
      (w.machine.answer? C call) (w.machine.sealed C call) := by
  refine ClientMachine.step_moves h.valid ?_ call
  intro wait hwait
  exact h.waiting.scid wait.scid (by simp [ClientMachine.scid?, hwait])

theorem Lived.acknowledged_step (h : Lived C w) (call : ClientCall) (e : ClientSession)
    (he : (w.machine.step C call).state = .established e) :
    Acknowledges C w.machine.config (w.step C call).ack e.cachedAccept := by
  have hm := h.moves call
  generalize hstate : (w.machine.step C call).state = state at hm he
  generalize hanswer : w.machine.answer? C call = answer at hm
  generalize w.machine.sealed C call = seals at hm
  cases hm with
  | stays =>
    rw [ack_step (by simp [phase, he, ClientState.phase])]
    exact h.acknowledged e he
  | opens => cases he
  | verifies => cases he
  | acks wait packet nowMs owner e' sealCall hcall hm =>
    subst hcall
    obtain rfl := ClientState.established.inj he
    have hack : (w.step C (.receiveAck packet nowMs owner)).ack = packet := by
      simp [step, phase, hm, ClientState.phase]
    rw [hack]
    exact ⟨w.machine, wait, nowMs, owner, rfl, hm, Outcome.toOption_eq_some.mp hanswer⟩
  | works e₀ e' _ hm _ haccept =>
    obtain rfl := ClientState.established.inj he
    rw [ack_step (by simp [phase, hm, ClientState.phase]), haccept]
    exact h.acknowledged e₀ hm
  | releases => cases he

theorem lived_step (h : Lived C w) (call : ClientCall) : Lived C (w.step C call) := by
  have hm := h.moves call
  have hconfig := w.machine.config_step (C := C) call
  refine ⟨?_, h.waiting.move hm, ?_, h.sealing.move hm, ?_⟩
  · exact (congrArg (fun c => c.validate C) hconfig).trans h.valid
  · exact (h.handed.move hm).hand (moves_answer hm)
  · intro e he
    have hack := h.acknowledged_step call e he
    rwa [← hconfig] at hack

theorem lived_start (h : Starts C w) : Lived C w := by
  obtain ⟨⟨config, signingKey, hnew⟩, hanswers, hseals⟩ := h
  simp only [ClientMachine.new, Outcome.bind_eq_ok, Outcome.ite_error_eq_ok, Except.ok.injEq]
    at hnew
  obtain ⟨⟨⟩, hvalid, -, hmachine⟩ := hnew
  have hstate : w.machine.state = .idle := by rw [← hmachine]
  refine ⟨by rw [← hmachine]; exact hvalid, ?_, ?_, ?_, by simp [hstate]⟩
  · constructor
    · simp [ClientMachine.scid?, hstate]
    · simp [ClientMachine.deadlineMs?, hstate]
    · simp [hstate]
  · constructor <;> simp [hanswers]
  · constructor <;> simp [hseals, hstate]

theorem Reach.lived (h : Reach C w) : Lived C w :=
  h.invariant (I := Lived C) (fun _ hs => lived_start hs) fun _ call hw _ => lived_step hw call

/-- The established session is entered through an acknowledgement in time. -/
theorem Lived.entered (h : Lived C w) (hbefore : w.phase ≠ .established)
    (hafter : (w.step C call).phase = .established) :
    ∃ packet nowMs owner, call = .receiveAck packet nowMs owner ∧
      nowMs < satAdd w.startedMs 5000 := by
  have hm := h.moves call
  change (w.machine.step C call).state.phase = .established at hafter
  generalize (w.machine.step C call).state = state at hm hafter
  generalize w.machine.answer? C call = answer at hm
  generalize w.machine.sealed C call = seals at hm
  cases hm with
  | stays => exact absurd hafter hbefore
  | opens => simp [ClientState.phase] at hafter
  | verifies => simp [ClientState.phase] at hafter
  | acks wait packet nowMs owner e sealCall hcall hm hnow =>
    have hdeadline := h.waiting.deadline wait.deadlineMs (by simp [ClientMachine.deadlineMs?, hm])
    exact ⟨packet, nowMs, owner, hcall, hdeadline ▸ hnow⟩
  | works e e' _ hm => exact absurd (by simp [phase, hm, ClientState.phase]) hbefore
  | releases => simp [ClientState.phase] at hafter

theorem Lived.rank_le (h : Lived C w) (call : ClientCall) :
    w.phase.rank ≤ (w.step C call).phase.rank := by
  rcases moves_phase (h.moves call) with ⟨hphase, -⟩ | hlt
  · exact (congrArg Phase.rank hphase).ge
  · exact hlt.le

theorem Lived.released (h : Lived C w) (hw : w.phase = .released) (call : ClientCall) :
    (w.step C call).phase = .released := by
  have hle := h.rank_le call
  rw [hw] at hle
  cases hp : (w.step C call).phase <;> simp_all [Phase.rank]

theorem expire_established (hw : w.phase = .established) (nowMs : U64) :
    w.machine.expire nowMs = w.machine := by
  unfold ClientMachine.expire
  split <;> rename_i hm
  · simp [phase, hm, ClientState.phase] at hw
  · simp [phase, hm, ClientState.phase] at hw
  · rfl

/-- The lifecycle of a handshake, in any order of calls and at any times: phases only go on, the
deadline is the one of the start, a phase hands out one packet, and counter one is used once. -/
theorem handshake_lifecycle (h : Reach C w) :
    (∀ call, w.phase.rank ≤ (w.step C call).phase.rank) ∧
      (w.phase = .released → ∀ call, (w.step C call).phase = .released) ∧
      (∀ d ∈ w.machine.deadlineMs?, d.val = min (w.startedMs.val + 5000) (2 ^ 64 - 1)) ∧
      (w.phase ≠ .idle → ∀ call, (w.step C call).startedMs = w.startedMs) ∧
      (w.phase ≠ .established → ∀ call, (w.step C call).phase = .established →
        ∃ packet nowMs owner, call = .receiveAck packet nowMs owner ∧
          nowMs.val < min (w.startedMs.val + 5000) (2 ^ 64 - 1)) ∧
      (∀ x ∈ w.answers, ∀ y ∈ w.answers, x.1 = y.1 → x.2 = y.2) ∧
      (∀ x ∈ w.answers, x.1 = w.phase → w.machine.state.stored? = some x.2) ∧
      (w.seals.filter fun c => c.counter = 1).length ≤ 1 ∧
      (w.phase = .established → ∀ nowMs, w.machine.expire nowMs = w.machine) := by
  have hl := h.lived
  refine ⟨hl.rank_le, hl.released, ?_, fun hp call => startedMs_step hp, ?_, hl.handed.same,
    hl.handed.stored, hl.sealing.once, fun hp => expire_established hp⟩
  · intro d hd
    rw [hl.waiting.deadline d hd, satAdd_val]
  · intro hp call hafter
    obtain ⟨packet, nowMs, owner, hcall, hnow⟩ := hl.entered hp hafter
    exact ⟨packet, nowMs, owner, hcall, hnow⟩

end Lifetime

namespace Scenario

def lifetime : Lifetime := ⟨client 0, 0, [], [], [], []⟩

def clientMaterial : ClientMaterial := ⟨bytesOf 32 11, bytesOf 32 12⟩

/-- The server's VERIFY_COOKIE and OPEN_ACK for that client. -/
def verifyPacket : List Byte :=
  packetOf ((server 0).receiveOpen .sample
    (packetOf ((client 0).start .sample 9 clientMaterial 1000).2) binding 0)

def ackPacket : List Byte :=
  packetOf ((server 0).receiveOpenAuth .sample (authenticating (server 0) 9 11 1000).2 binding 1000
    0 (some ⟨bytesOf 32 13, bytesOf 32 14⟩) 9).2

/-- The lifetime after the calls. -/
def live (calls : List ClientCall) : Lifetime :=
  Machine.exec (Lifetime.step .sample) lifetime calls

theorem live_reach (calls : List ClientCall) : Lifetime.Reach .sample (live calls) := by
  have hstart : Lifetime.Starts .sample lifetime := ⟨client_starts (by simp), rfl, rfl⟩
  exact Machine.Reach.exec (.start hstart) calls (.of_forall (fun _ _ => trivial) _ _)

/-- Each message is repeated once before the next one comes in. -/
def repeated : List ClientCall :=
  [.start 9 clientMaterial 1000, .retry 1500, .receiveVerify verifyPacket 2000,
    .receiveVerify verifyPacket 2500, .receiveAck ackPacket 3000 9, .receiveAck ackPacket 9000 9]

theorem repeated_answers :
    (live repeated).phase = .established ∧ (live repeated).answers.length = 6 := by
  decide +kernel

theorem handshake_lifecycle_repeated : (live repeated).phase = .established ∧
    (live repeated).answers.length = 6 ∧
    (∀ x ∈ (live repeated).answers, ∀ y ∈ (live repeated).answers, x.1 = y.1 → x.2 = y.2) ∧
    (live repeated).machine.expire u64Max = (live repeated).machine := by
  obtain ⟨hphase, hanswers⟩ := repeated_answers
  obtain ⟨-, -, -, -, -, hsame, -, -, hexpire⟩ :=
    Lifetime.handshake_lifecycle (live_reach repeated)
  exact ⟨hphase, hanswers, hsame, hexpire hphase u64Max⟩

/-- The last deadline there is comes less than five seconds after the start. -/
theorem deadline_saturates :
    ¬ ∀ (C : Crypto) (w : Lifetime), Lifetime.Reach C w → ∀ d ∈ w.machine.deadlineMs?,
      d.val = w.startedMs.val + 5000 := by
  intro h
  obtain ⟨hd, hstarted⟩ : (live [.start 9 clientMaterial u64Max]).machine.deadlineMs? = some u64Max ∧
      (live [.start 9 clientMaterial u64Max]).startedMs = u64Max := by
    decide +kernel
  have hsum := h .sample _ (live_reach [.start 9 clientMaterial u64Max]) u64Max hd
  rw [hstarted] at hsum
  omega

end Scenario

end R8.Session
