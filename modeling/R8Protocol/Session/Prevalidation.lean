import R8Protocol.Session.Atomicity
import R8Protocol.Session.Honest
import R8Protocol.Session.Limiter

/-! Admission in front of an OPEN: which of the calls that fail have been charged. -/
namespace R8.Session

open FixedWidth Wire

/-- A byte slice, whose length is a machine word. -/
abbrev Slice := {l : List Byte // l.length < 2 ^ 64}

namespace ServerMachine

/-- The arguments `receive_open_limited` hands to `admit`. -/
def openAdmit (packet : Slice) (opaqueSource : Bytes 32) (nowMs : U64) : Admit :=
  ⟨opaqueSource, ⟨packet.val.length, packet.property⟩, 170, nowMs⟩

def receiveOpenLimited (C : Crypto) (m : ServerMachine) (packet : Slice) (binding : ObservedBinding)
    (opaqueSource : Bytes 32) (nowMs bucket : U64) (limiter : PrevalidationLimiter) :
    PrevalidationLimiter × Except SessionError (List Byte) :=
  let r := limiter.admitSource (openAdmit packet opaqueSource nowMs)
  (r.1, do
    r.2
    m.receiveOpen C packet.val binding bucket)

variable {C : Crypto} {m : ServerMachine} {packet body : List Byte} {binding : ObservedBinding}
  {bucket scid nowMs : U64} {limiter limiter' : PrevalidationLimiter} {opaqueSource : Bytes 32}

/-- What the checks of `receive_open` ask of the packet and of where it came from. -/
def ValidOpen (C : Crypto) (m : ServerMachine) (packet : List Byte) (binding : ObservedBinding) :
    Prop :=
  binding.validate = .ok () ∧ ∃ scid body client, m.handshakeBody OPEN packet = .ok (scid, body) ∧
    m.clientIdentity C body = .ok client

theorem handshakeBody_open (h : m.handshakeBody OPEN packet = .ok (scid, body)) :
    scid ≠ 0 ∧ body.length = 118 ∧ 170 ≤ m.config.budget := by
  have hscid := handshakeBody_scid h
  simp only [handshakeBody, Outcome.bind_eq_ok, Outcome.mapError_eq_ok,
    Outcome.ite_error_eq_ok, Except.ok.injEq, Prod.mk.injEq] at h
  obtain ⟨⟨header, payload⟩, hunpack, ⟨⟩, -, message, hdecode, htyp, -, rfl⟩ := h
  have hfits := unpack_fits hunpack
  obtain ⟨-, hpayload, hlen, -⟩ := unpack_eq_ok hunpack
  simp only [SessionMessage.decode, Outcome.ite_error_eq_ok, Outcome.bind_eq_ok,
    Except.ok.injEq] at hdecode
  obtain ⟨-, hshort, -, -, -, -, ⟨⟩, hbody, rfl⟩ := hdecode
  have hopen : byteAt payload 0 = OPEN := not_not.mp htyp
  rw [hopen] at hbody
  have hexact : (payload.drop 4).length = 118 := by
    simp only [validateBody, show bodyLength OPEN = some 118 from rfl,
      Outcome.ite_error_eq_ok] at hbody
    obtain ⟨-, hexact, -⟩ := hbody
    simpa [OPEN, SESSION_DATA] using hexact
  refine ⟨hscid.2, hexact, ?_⟩
  rw [List.length_drop] at hexact
  rw [hpayload, List.length_drop, HEADER_LEN] at hexact
  rw [HEADER_LEN] at hlen
  omega

theorem clientIdentity_eq_ok {client : Identity} (h : m.clientIdentity C body = .ok client) :
    client.validate C = .ok () ∧ client.role = m.config.peer.role := by
  simp only [clientIdentity, Outcome.ite_error_eq_ok, Outcome.bind_eq_ok, Except.ok.injEq] at h
  obtain ⟨hroles, -, -, ⟨⟩, hvalid, rfl⟩ := h
  push Not at hroles
  exact ⟨hvalid, hroles.1⟩

/-- A server in order answers every valid OPEN. -/
theorem receiveOpen_ok_iff (packet : List Byte) (binding : ObservedBinding) (bucket : U64)
    (hm : m.config.validate C = .ok ()) :
    (∃ reply, m.receiveOpen C packet binding bucket = .ok reply) ↔ m.ValidOpen C packet binding := by
  constructor
  · rintro ⟨reply, h⟩
    simp only [receiveOpen, Outcome.bind_eq_ok] at h
    obtain ⟨⟨⟩, hbinding, ⟨scid, body⟩, hbody, client, hclient, -⟩ := h
    exact ⟨hbinding, scid, body, client, hbody, hclient⟩
  · rintro ⟨hbinding, scid, body, client, hbody, hclient⟩
    obtain ⟨hscid, -, hbudget⟩ := handshakeBody_open hbody
    obtain ⟨hvalid, hrole⟩ := clientIdentity_eq_ok hclient
    obtain ⟨hlocal, hpeer, hroles, -, hprofile, hmax, hcontext⟩ := config_validate hm
    have hinput : ∃ input, cookieInput C ⟨binding, client, m.config.localId, scid,
        arrayAt 32 body 54, m.material.bootInstance, bucket, m.config.serverContextId⟩ =
          .ok input := by
      simp only [cookieInput, hvalid, hlocal, hcontext, hbinding, if_false, bind, Except.bind]
      exact ⟨_, rfl⟩
    obtain ⟨input, hinput⟩ := hinput
    have hreplyBody : validateBody VERIFY_COOKIE (m.config.localId.role :: client.role ::
        (u32Bytes m.config.localId.serviceContext ++ client.publicKey.val ++
          (C.sha256 (arrayAt 32 body 54).val).val ++ m.material.bootInstance.val ++
          (cookie C m.material.currentCookieKey input).val)) = .ok () :=
      validateBody_roles (identity_validate hlocal).1 (identity_validate hvalid).1
        (hrole ▸ hroles) (by simp) (by simp [bodyLength, VERIFY_COOKIE, OPEN])
    have hpacket := handshakePacket_ok scid m.config.destination m.config.source hprofile hscid
      (by simp) hreplyBody (by simp; omega) hmax
    cases hreply : m.receiveOpen C packet binding bucket with
    | ok reply => exact ⟨reply, rfl⟩
    | error e =>
      simp only [receiveOpen, hbinding, hbody, hclient, hinput, bind, Except.bind] at hreply
      cases hpacket.symm.trans hreply

/-- Nothing of the limiter has been used up: its tokens are the refilled ones, and its table is the
old one, or the old one without the expired sources. -/
abbrev Uncharged (limiter : PrevalidationLimiter) (nowMs : U64)
    (limiter' : PrevalidationLimiter) : Prop := limiter.Refuses nowMs limiter'

theorem not_uncharged {a : Admit} (h : limiter.Admits a limiter') :
    ¬ Uncharged limiter a.nowMs limiter' := by
  rintro ⟨htokens, -, -⟩
  obtain ⟨entry, sources, entry', -, -, rfl⟩ := h.table
  have htoken := h.token
  simp only at htokens
  omega

/-- A call that fails has charged nothing, unless the limiter admits an OPEN that is not valid. -/
theorem uncharged_iff (h : Reach C m) (packet : Slice) (binding : ObservedBinding)
    (opaqueSource : Bytes 32) (nowMs bucket : U64) (limiter : PrevalidationLimiter) :
    ((∃ e, (m.receiveOpenLimited C packet binding opaqueSource nowMs bucket limiter).2 =
        .error e) → Uncharged limiter nowMs
      (m.receiveOpenLimited C packet binding opaqueSource nowMs bucket limiter).1) ↔
    (limiter.refill nowMs).tokens = 0 ∨
      ¬ limiter.Admissible (openAdmit packet opaqueSource nowMs) ∨
      m.ValidOpen C packet.val binding := by
  have hvalid := receiveOpen_ok_iff packet.val binding bucket (healthy_reach h).config
  obtain ⟨hok, hadm, hadmits⟩ | ⟨herr, hwhy, hrefuses⟩ :=
    limiter.admitSource_cases (openAdmit packet opaqueSource nowMs)
  · have hresult : (m.receiveOpenLimited C packet binding opaqueSource nowMs bucket limiter).2 =
        m.receiveOpen C packet.val binding bucket := by
      simp only [receiveOpenLimited, hok]
      rfl
    rw [hresult]
    constructor
    · intro hclaim
      refine .inr (.inr (hvalid.mp ?_))
      cases hreply : m.receiveOpen C packet.val binding bucket with
      | ok reply => exact ⟨reply, rfl⟩
      | error e => exact absurd (hclaim ⟨e, hreply⟩) (not_uncharged hadmits)
    · rintro (htoken | hrefused | hopen) ⟨e, he⟩
      · exact absurd htoken hadmits.token
      · exact absurd hadm hrefused
      · obtain ⟨reply, hreply⟩ := hvalid.mpr hopen
        rw [hreply] at he
        cases he
  · exact ⟨fun _ => hwhy.imp_right .inl, fun _ _ => hrefuses⟩

namespace PrevalidationSample

/-- A call with this packet on a new server and a new limiter. -/
def call (packet : Slice) : PrevalidationLimiter × Except SessionError (List Byte) :=
  (Scenario.server 0).receiveOpenLimited .sample packet Scenario.binding (zeros 32) 5 0 .new

def empty : Slice := ⟨[], by simp⟩

/-- As long as an OPEN, and nothing but zeros. -/
def blank : Slice := ⟨List.replicate 170 0, List.length_replicate.trans_lt (by decide)⟩

theorem empty_uncharged : (call empty).2 = .error .capacity ∧
    Uncharged .new 5 (call empty).1 := by
  have herr : (call empty).2 = .error .capacity := by decide +kernel
  have hshort : ¬ PrevalidationLimiter.new.Admissible (openAdmit empty (zeros 32) 5) := by
    rintro ⟨hbytes, -⟩
    exact absurd hbytes (by decide)
  exact ⟨herr, (uncharged_iff (.start (Scenario.server_starts (by simp))) empty Scenario.binding (zeros 32) 5 0
    .new).mpr (.inr (.inl hshort)) ⟨_, herr⟩⟩

/-- A blank packet is refused, and its source has a slot and one token fewer are left. -/
theorem blank_charged : (call blank).2 = .error .authFailed ∧
    (call blank).1.tokens = 1999 ∧ (call blank).1.sources.length = 1 ∧
    ¬ Uncharged .new 5 (call blank).1 := by
  have htokens : (call blank).1.tokens = 1999 := by decide +kernel
  refine ⟨by decide +kernel, htokens, by decide +kernel, ?_⟩
  rintro ⟨hsame, -, -⟩
  rw [htokens] at hsame
  exact absurd hsame (by decide)

end PrevalidationSample

end ServerMachine

end R8.Session
