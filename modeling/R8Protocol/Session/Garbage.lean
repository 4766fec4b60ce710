import R8Protocol.Session.Runs
import R8Protocol.Session.Scenario

/-! What an unauthenticated packet that is not meant for a client can do to it. -/
namespace R8.Session

open FixedWidth Wire

/-- The calls of a client that take a packet from the network. -/
inductive Inbound
  | verify
  | ack (owner : ℕ)
  | data
  | close
  deriving DecidableEq, Repr

/-- The one SES type a call handles. -/
def Inbound.typ : Inbound → Byte
  | verify => VERIFY_COOKIE
  | ack _ => OPEN_ACK
  | data => SESSION_DATA
  | close => CLOSE

def Inbound.call (op : Inbound) (packet : List Byte) (nowMs : U64) : ClientCall :=
  match op with
  | verify => .receiveVerify packet nowMs
  | ack owner => .receiveAck packet nowMs owner
  | data => .receiveData packet
  | close => .receiveClose packet

namespace ClientMachine

variable {C : Crypto} {m : ClientMachine} {op : Inbound} {packet : List Byte} {nowMs : U64}

def scid? (m : ClientMachine) : Option U64 :=
  match m.state with
  | .cookieWait wait => some wait.scid
  | .authWait wait => some wait.scid
  | .established e => some e.scid
  | _ => none

def deadlineMs? (m : ClientMachine) : Option U64 :=
  match m.state with
  | .cookieWait wait => some wait.deadlineMs
  | .authWait wait => some wait.deadlineMs
  | _ => none

def inCookieWait (m : ClientMachine) : Bool :=
  match m.state with
  | .cookieWait _ => true
  | _ => false

/-- A packet that does not unpack, names another SCID, or is of another type than the call's. -/
def Garbage (m : ClientMachine) (op : Inbound) (packet : List Byte) : Prop :=
  ∀ header payload, Header.unpackWithBudget packet m.config.budget = .ok (header, payload) →
    m.scid? ≠ some header.scid ∨ header.nextHeader ≠ NH_SES ∨ byteAt payload 0 ≠ op.typ

/-- What any check of a message for this client and call rests on. -/
def Meant (m : ClientMachine) (typ : Byte) (packet : List Byte) : Prop :=
  ∃ header payload, Header.unpackWithBudget packet m.config.budget = .ok (header, payload) ∧
    m.scid? = some header.scid ∧ header.nextHeader = NH_SES ∧ byteAt payload 0 = typ

theorem not_meant (h : m.Garbage op packet) : ¬ m.Meant op.typ packet := by
  rintro ⟨header, payload, hu, hscid, hnext, htyp⟩
  rcases h header payload hu with h | h | h
  · exact h hscid
  · exact h hnext
  · exact h htyp

theorem validateVerifyCookie_meant {r : Header × Bytes 16 × Bytes 32}
    {scid : U64} {material : ClientMaterial} {opening : List Byte} (hscid : m.scid? = some scid)
    (h : m.validateVerifyCookie C packet scid material opening = .ok r) :
    m.Meant VERIFY_COOKIE packet := by
  simp only [validateVerifyCookie, Outcome.bind_eq_ok, Outcome.mapError_eq_ok,
    Outcome.ite_error_eq_ok] at h
  obtain ⟨⟨_, _⟩, -, ⟨⟩, -, ⟨header, payload⟩, hu, ⟨⟩, hv, hpayload, -⟩ := h
  obtain ⟨hnext, -, hsame, -⟩ := ServerMachine.validateSessionHeader_eq_ok hv
  push Not at hpayload
  exact ⟨header, payload, hu, by rw [hscid, hsame], hnext, hpayload.2.1⟩

theorem completeHandshake_meant {wait : AuthWait} {h : Handshake} (hstate : m.state = .authWait wait)
    (hc : m.completeHandshake C wait packet = .ok h) : m.Meant OPEN_ACK packet := by
  simp only [completeHandshake, parseAck, Outcome.bind_eq_ok, Outcome.mapError_eq_ok,
    Outcome.ite_error_eq_ok] at hc
  obtain ⟨ack, ⟨⟨header, payload⟩, hu, ⟨⟩, hv, message, hm, htyp, -⟩, -⟩ := hc
  obtain ⟨hnext, -, hsame, -⟩ := ServerMachine.validateSessionHeader_eq_ok hv
  refine ⟨header, payload, hu, ?_, hnext, ?_⟩
  · simp only [scid?, hstate]
    exact congrArg some hsame.symm
  · rw [← (decode_eq_ok hm).2.1]
    exact not_not.mp htyp

theorem previewData_meant {p : DataPreview}
    (h : m.previewDataWithLocs C packet [] [] = .ok p) : m.Meant SESSION_DATA packet := by
  simp only [previewDataWithLocs, Outcome.bind_eq_ok, Outcome.mapError_eq_ok] at h
  obtain ⟨⟨header, payload⟩, hu, h⟩ := h
  split at h
  · rename_i e hstate
    simp only [Outcome.ite_ok_eq_ok, previewData, Outcome.bind_eq_ok, Outcome.ite_error_eq_ok,
      validateDataHeader] at h
    obtain ⟨hscid, ⟨⟩, ⟨hheader, -⟩, message, hm, htyp, -⟩ := h
    push Not at hheader
    refine ⟨header, payload, hu, ?_, hheader.1, ?_⟩
    · simp only [scid?, hstate, hscid]
    · rw [← (decode_eq_ok hm).2.1]
      exact not_not.mp htyp
  · cases h

/-- The checks of `receive_close` in front of the decryption. -/
theorem closeMessage_meant {e : ClientSession} {message : SessionMessage}
    (hstate : m.state = .established e)
    (h : (do
      let (header, payload) ←
        (Header.unpackWithBudget packet m.config.budget).mapError fun _ => .authFailed
      validateProtectedHeader header m.config.profile e.scid m.effectivePeerLoc m.effectiveLocalLoc
      SessionMessage.decode payload header.profile m.config.budget :
        Except SessionError SessionMessage) = .ok message) (htyp : message.typ = CLOSE) :
    m.Meant CLOSE packet := by
  simp only [Outcome.bind_eq_ok, Outcome.mapError_eq_ok, validateProtectedHeader] at h
  obtain ⟨⟨header, payload⟩, hu, ⟨⟩, hv, hm⟩ := h
  obtain ⟨hnext, -, hsame, -⟩ := ServerMachine.validateSessionHeader_eq_ok hv
  refine ⟨header, payload, hu, ?_, hnext, ?_⟩
  · simp only [scid?, hstate]
    exact congrArg some hsame.symm
  · rw [← (decode_eq_ok hm).2.1]
    exact htyp

theorem releaseCookieWaitIfExpired_early (h : ∀ d ∈ m.deadlineMs?, nowMs < d) :
    m.releaseCookieWaitIfExpired nowMs = (m, false) := by
  unfold releaseCookieWaitIfExpired
  split
  · rename_i wait hstate
    have hlt : nowMs < wait.deadlineMs := h wait.deadlineMs (by simp [deadlineMs?, hstate])
    rw [if_neg (not_le.mpr hlt)]
  · rfl

theorem receiveVerify_keeps (hwait : ¬ m.inCookieWait) :
    (m.receiveVerify C packet nowMs).1 = m := by
  have hrelease : m.releaseCookieWaitIfExpired nowMs = (m, false) := by
    unfold releaseCookieWaitIfExpired
    split
    · rename_i wait hstate
      simp [inCookieWait, hstate] at hwait
    · rfl
  unfold receiveVerify
  rw [hrelease]
  dsimp only
  split
  · rename_i wait hstate
    simp [inCookieWait, hstate] at hwait
  · split <;> rfl
  · rfl

/-- In CookieWait a packet that is not the cookie gives the handshake up. -/
theorem receiveVerify_releases {wait : CookieWait} (hstate : m.state = .cookieWait wait)
    (htime : nowMs < wait.deadlineMs) (hmeant : ¬ m.Meant VERIFY_COOKIE packet) :
    (m.receiveVerify C packet nowMs).1 = { m with state := .released } := by
  have hscid : m.scid? = some wait.scid := by
    simp only [scid?, hstate]
  have hrelease : m.releaseCookieWaitIfExpired nowMs = (m, false) := by
    apply releaseCookieWaitIfExpired_early
    intro d hd
    simp only [deadlineMs?, hstate, Option.mem_some_iff] at hd
    rwa [← hd]
  unfold receiveVerify
  rw [hrelease]
  simp only [hstate, htime, if_true]
  split
  · rename_i h
    simp only [Outcome.bind_eq_ok] at h
    obtain ⟨r, hv, -⟩ := h
    exact absurd (validateVerifyCookie_meant hscid hv) hmeant
  · rfl

theorem receiveAck_keeps (owner : ℕ) (htime : ∀ d ∈ m.deadlineMs?, nowMs < d)
    (hmeant : ¬ m.Meant OPEN_ACK packet) : (m.receiveAck C packet nowMs owner).1 = m := by
  unfold receiveAck
  split
  · rename_i wait hstate
    have hlt : nowMs < wait.deadlineMs := htime wait.deadlineMs (by simp [deadlineMs?, hstate])
    rw [if_neg (not_le.mpr hlt)]
    split
    · rfl
    · rename_i h
      simp only [Outcome.bind_eq_ok] at h
      obtain ⟨handshake, hc, -⟩ := h
      exact absurd (completeHandshake_meant hstate hc) hmeant
  · rfl
  · rfl

theorem receiveData_keeps (hmeant : ¬ m.Meant SESSION_DATA packet) :
    (m.receiveData C packet).1 = m := by
  unfold receiveData
  split
  · rfl
  · rename_i preview h
    exact absurd (previewData_meant h) hmeant

theorem receiveClose_keeps (hmeant : ¬ m.Meant CLOSE packet) :
    (m.receiveClose C packet).1 = m := by
  unfold receiveClose
  split
  · rename_i e hstate
    split
    · rfl
    · rename_i message h
      have htyp : message.typ ≠ CLOSE := fun htyp => hmeant (closeMessage_meant hstate h htyp)
      rw [if_pos htyp]
  · rfl

theorem receiveVerify_disturbs (hin : m.inCookieWait) (htime : ∀ d ∈ m.deadlineMs?, nowMs < d)
    (hmeant : ¬ m.Meant VERIFY_COOKIE packet) : (m.receiveVerify C packet nowMs).1 ≠ m := by
  unfold inCookieWait at hin
  split at hin
  · rename_i wait hstate
    have hlt : nowMs < wait.deadlineMs := htime wait.deadlineMs (by simp [deadlineMs?, hstate])
    intro h
    rw [receiveVerify_releases hstate hlt hmeant] at h
    have := congrArg ClientMachine.state h
    rw [hstate] at this
    cases this
  · cases hin

/-- Garbage leaves a client as it was, but for `receive_verify` in CookieWait, which gives up. -/
theorem garbage_keeps_iff (C : Crypto) (m : ClientMachine) (op : Inbound) (packet : List Byte)
    (nowMs : U64) (htime : ∀ d ∈ m.deadlineMs?, nowMs < d) (hgarbage : m.Garbage op packet) :
    m.step C (op.call packet nowMs) = m ↔ ¬ (op = .verify ∧ m.inCookieWait) := by
  have hmeant := not_meant hgarbage
  by_cases hwait : op = .verify ∧ m.inCookieWait
  · obtain ⟨rfl, hin⟩ := hwait
    exact iff_of_false (receiveVerify_disturbs hin htime hmeant) (fun h => h ⟨rfl, hin⟩)
  · refine iff_of_true ?_ hwait
    cases op with
    | verify => exact receiveVerify_keeps fun h => hwait ⟨rfl, h⟩
    | ack owner => exact receiveAck_keeps owner htime hmeant
    | data => exact receiveData_keeps hmeant
    | close => exact receiveClose_keeps hmeant

/-- A client that waits for its cookie. -/
def waiting : ClientMachine :=
  ((Scenario.client 0).start .sample 9 ⟨bytesOf 32 3, bytesOf 32 4⟩ 0).1

theorem waiting_reach : Reach .sample waiting := by
  change Reach .sample
    ((Scenario.client 0).step .sample (.start 9 ⟨bytesOf 32 3, bytesOf 32 4⟩ 0))
  exact .next (.start (Scenario.client_starts (by simp))) trivial

theorem waiting_early : ∀ d ∈ waiting.deadlineMs?, (1 : U64) < d := by
  have hd : waiting.deadlineMs? = some 5000 := by decide +kernel
  rw [hd]
  intro d hmem
  obtain rfl := Option.some.inj hmem
  decide

theorem empty_garbage (m : ClientMachine) (op : Inbound) : m.Garbage op [] := by
  intro header payload h
  obtain ⟨-, -, hlen, -⟩ := unpack_eq_ok h
  simp [HEADER_LEN] at hlen

theorem waiting_released :
    waiting.step .sample (Inbound.verify.call [] 1) = waiting ↔
      ¬ (Inbound.verify = .verify ∧ waiting.inCookieWait) :=
  garbage_keeps_iff .sample waiting .verify [] 1 waiting_early (empty_garbage _ _)

theorem garbage_disturbs :
    ¬ ∀ (C : Crypto) (m : ClientMachine) (op : Inbound) (packet : List Byte) (nowMs : U64),
      Reach C m → (∀ d ∈ m.deadlineMs?, nowMs < d) → m.Garbage op packet →
      m.step C (op.call packet nowMs) = m := by
  intro h
  have hsame := h .sample waiting .verify [] 1 waiting_reach waiting_early (empty_garbage _ _)
  have hwait : waiting.inCookieWait = true := by decide +kernel
  exact receiveVerify_disturbs hwait waiting_early (not_meant (empty_garbage _ .verify)) hsame

end ClientMachine

end R8.Session
