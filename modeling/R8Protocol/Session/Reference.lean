import R8Protocol.Session.Scenario

/-! The reference implementation's transcripts and key schedule, against the ones used here. -/
namespace R8

open FixedWidth Session

namespace Reference

def transcript (scid : U64) (clientRole serverRole : Byte) (service : U32) (clientEid : Bytes 16)
    (clientPublic : Bytes 32) (serverEid : Bytes 16)
    (serverPublic clientEph serverEph clientNonce serverNonce : Bytes 32) (boot : Bytes 16) :
    List Byte :=
  ascii "R8 session transcript v1" ++ [8, 0] ++
    (u64Bytes scid ++ [clientRole, serverRole] ++ u32Bytes service) ++
    clientEid.val ++ clientPublic.val ++ serverEid.val ++ serverPublic.val ++ clientEph.val ++
    serverEph.val ++ clientNonce.val ++ serverNonce.val ++ boot.val

def placeholderT0 (scid : U64) (clientRole serverRole : Byte) (service : U32)
    (clientEid : Bytes 16) (clientPublic : Bytes 32) (serverEid : Bytes 16)
    (clientEph clientNonce : Bytes 32) (boot : Bytes 16) : List Byte :=
  transcript scid clientRole serverRole service clientEid clientPublic serverEid (zeros 32)
    clientEph (zeros 32) clientNonce (zeros 32) boot

def signOpenAuth (C : Crypto) (key : Bytes 32) (t0 : List Byte) : Bytes 64 :=
  C.sign key (ascii "R8 OPEN_AUTH v1" ++ t0)

def signOpenAck (C : Crypto) (key : Bytes 32) (t0 : List Byte) : Bytes 64 :=
  C.sign key (ascii "R8 OPEN_ACK v1" ++ t0)

def transcriptHash (C : Crypto) (t0 : List Byte) (clientSignature serverSignature : Bytes 64) :
    Bytes 32 :=
  C.sha256 (t0 ++ clientSignature.val ++ serverSignature.val)

/-- Extraction, which the reference writes out as an HMAC under the transcript hash. -/
def keyPrk (C : Crypto) (shared thash : Bytes 32) : Bytes 32 := C.hkdfExtract thash shared

def keySchedulePrk (C : Crypto) (prk thash : Bytes 32)
    (senderRole receiverRole profile slot : Byte) : Except SessionError (Bytes 32) :=
  if senderRole ∉ [1, 2] ∨ receiverRole ∉ [1, 2] ∨ ¬ profile ≤ 3 ∨ slot ∉ [0, 1] then
    .error .authFailed
  else
    let info := ascii "R8 key v1" ++ [8, 1, profile] ++ thash.val ++ [senderRole, receiverRole, slot]
    .ok (C.hkdfExpand prk info)

def keySchedule (C : Crypto) (shared thash : Bytes 32)
    (senderRole receiverRole profile slot : Byte) : Except SessionError (Bytes 32) :=
  keySchedulePrk C (keyPrk C shared thash) thash senderRole receiverRole profile slot

end Reference

namespace Session

variable {C : Crypto} {c : TranscriptContext} {t0 : List Byte}

/-- The context as OPEN_AUTH is signed over, before the server has answered. -/
def TranscriptContext.placeholder (c : TranscriptContext) : TranscriptContext :=
  { c with server := c.server.placeholder, serverEphemeral := zeros 32, serverNonce := zeros 32 }

/-- The reference's transcript of the same values. -/
def TranscriptContext.reference (c : TranscriptContext) : List Byte :=
  Reference.transcript c.scid c.client.role c.server.role c.client.serviceContext c.client.eid
    c.client.publicKey c.server.eid c.server.publicKey c.clientEphemeral c.serverEphemeral
    c.clientNonce c.serverNonce c.boot

def TranscriptContext.referencePlaceholder (c : TranscriptContext) : List Byte :=
  Reference.placeholderT0 c.scid c.client.role c.server.role c.client.serviceContext c.client.eid
    c.client.publicKey c.server.eid c.clientEphemeral c.clientNonce c.boot

/-- A reference end and one of these understand each other's handshake. -/
structure TranscriptsAgree (C : Crypto) (c : TranscriptContext) : Prop where
  transcript : transcriptT0 C c = .ok c.reference
  placeholder : transcriptT0 C c.placeholder = .ok c.referencePlaceholder
  openAuth : ∀ key, Reference.signOpenAuth C key c.referencePlaceholder =
    signOpenAuth C key c.placeholder.bytes
  openAck : ∀ key, Reference.signOpenAck C key c.reference = signOpenAck C key c.bytes
  hash : ∀ clientSignature serverSignature,
    Reference.transcriptHash C c.reference clientSignature serverSignature =
      transcriptHash C c.bytes clientSignature serverSignature
  keys : ∀ clientSignature serverSignature shared senderRole receiverRole,
    (senderRole, receiverRole) ∈ [((1 : Byte), (2 : Byte)), (2, 1)] →
    Reference.keySchedule C shared
        (Reference.transcriptHash C c.reference clientSignature serverSignature)
        senderRole receiverRole c.profile 0 =
      deriveKeyFromPrk C (hkdfPrk C shared
          (transcriptHash C c.bytes clientSignature serverSignature))
        (transcriptHash C c.bytes clientSignature serverSignature)
        c.profile senderRole receiverRole 0

theorem reference_eq_iff (c : TranscriptContext) : c.reference = c.bytes ↔ c.profile = 0 := by
  simp only [TranscriptContext.reference, Reference.transcript, TranscriptContext.bytes,
    List.append_assoc, List.append_cancel_left_eq, List.cons_append, List.nil_append,
    List.cons.injEq, and_true]
  constructor
  · rintro ⟨-, h⟩
    exact h.symm
  · intro h
    exact ⟨rfl, h.symm⟩

theorem referencePlaceholder_eq (c : TranscriptContext) :
    c.referencePlaceholder = c.placeholder.reference := rfl

theorem transcriptT0_placeholder (h : transcriptT0 C c = .ok t0) :
    transcriptT0 C c.placeholder = .ok c.placeholder.bytes := by
  simp only [transcriptT0, Outcome.bind_eq_ok, Outcome.ite_error_eq_ok, Except.ok.injEq] at h ⊢
  obtain ⟨⟨⟩, hclient, hrole, -, hservice, -⟩ := h
  exact ⟨(), hclient, hrole, fun h => h.1 rfl, hservice, trivial⟩

/-- The reference writes profile zero into every transcript. -/
theorem transcripts_agree_iff (h : transcriptT0 C c = .ok t0) :
    TranscriptsAgree C c ↔ c.profile = 0 := by
  obtain rfl := ServerMachine.transcriptT0_eq_ok h
  constructor
  · intro hagree
    rw [← reference_eq_iff]
    have := hagree.transcript
    rw [h] at this
    exact (Except.ok.inj this).symm
  · intro hzero
    have hfull := (reference_eq_iff c).mpr hzero
    have hempty : c.referencePlaceholder = c.placeholder.bytes := by
      rw [referencePlaceholder_eq, reference_eq_iff]
      exact hzero
    refine ⟨by rw [h, hfull], by rw [transcriptT0_placeholder h, hempty], ?_, ?_, ?_, ?_⟩
    · intro key
      rw [hempty]
      rfl
    · intro key
      rw [hfull]
      rfl
    · intro a b
      rw [hfull]
      rfl
    · intro a b shared sender receiver hroles
      rw [hfull]
      simp only [List.mem_cons, List.not_mem_nil, or_false, Prod.mk.injEq] at hroles
      rcases hroles with ⟨rfl, rfl⟩ | ⟨rfl, rfl⟩ <;> rw [hzero] <;> rfl

/-- A session of the given profile between the two ends of the scenario. -/
def sampleContext (profile : Byte) : TranscriptContext :=
  ⟨profile, 9, Scenario.identity 1, Scenario.identity 2, bytesOf 32 3, bytesOf 32 4, bytesOf 32 5,
    bytesOf 32 6, bytesOf 16 7⟩

theorem sampleContext_agrees :
    TranscriptsAgree .sample (sampleContext 2) ↔ (sampleContext 2).profile = 0 :=
  transcripts_agree_iff
    (by decide +kernel : transcriptT0 .sample (sampleContext 2) = .ok (sampleContext 2).bytes)

theorem transcripts_disagree :
    ¬ ∀ c : TranscriptContext, c.profile ≤ 3 → transcriptT0 .sample c = .ok c.bytes →
      TranscriptsAgree .sample c := by
  intro h
  have := (h (sampleContext 1) (by decide) (by decide +kernel)).transcript
  revert this
  decide +kernel

end Session

end R8
