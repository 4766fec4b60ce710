import R8Protocol.Mobility.Control
import R8Protocol.Session.Encodings
import R8Protocol.Session.Scenario

/-! What is signed or put under a MAC determines its fields, and no two domains share a string. -/
namespace R8.Mobility

open FixedWidth Framing Session

variable {c c' : MobilityContext} {input : List Byte}

/-- The fields of a signed location update. -/
def LocUpdateFields.encoded (c : MobilityContext) (f : LocUpdateFields) :=
  (c.profile, c.scid, c.sender.eid, c.receiver.eid, f.oldLoc, f.newLoc, f.epoch, f.candidateId,
    f.pathSlot)

/-- The fields of a token. The direction byte stands for both roles. -/
def TokenFields.encoded (c : MobilityContext) (f : TokenFields) :=
  (c.profile, c.scid, c.sender.eid, c.receiver.eid, f.candidateId, f.loc, f.binding,
    c.sender.role, c.receiver.role, f.epoch, f.pathSlot, c.policyId, f.expiryMs)

theorem locUpdateSignatureInput_eq_ok {f : LocUpdateFields}
    (h : locUpdateSignatureInput c f = .ok input) :
    input = ascii "R8 LOC_UPDATE v1" ++ [SESSION_VERSION, c.profile] ++ u64Bytes c.scid ++
      c.sender.eid.val ++ c.receiver.eid.val ++ f.oldLoc.val ++ f.newLoc.val ++ u64Bytes f.epoch ++
      u64Bytes 0 ++ u64Bytes 5000 ++ f.candidateId.val ++ [f.pathSlot] := by
  simp only [locUpdateSignatureInput, Outcome.ite_error_eq_ok, Except.ok.injEq] at h
  exact h.2.symm

theorem locUpdateSignatureInput_injective {f f' : LocUpdateFields}
    (h : locUpdateSignatureInput c f = .ok input) (h' : locUpdateSignatureInput c' f' = .ok input) :
    f.encoded c = f'.encoded c' := by
  have heq := (locUpdateSignatureInput_eq_ok h).symm.trans (locUpdateSignatureInput_eq_ok h')
  simp only [List.append_assoc] at heq
  have heq := List.append_cancel_left heq
  simp only [List.cons_append, List.nil_append, List.cons.injEq] at heq
  obtain ⟨-, hprofile, heq⟩ := heq
  obtain ⟨hscid, heq⟩ := u64_selfDelimiting _ _ _ _ heq
  obtain ⟨hsender, heq⟩ := bytes_selfDelimiting 16 _ _ _ _ heq
  obtain ⟨hreceiver, heq⟩ := bytes_selfDelimiting 16 _ _ _ _ heq
  obtain ⟨hold, heq⟩ := bytes_selfDelimiting 16 _ _ _ _ heq
  obtain ⟨hnew, heq⟩ := bytes_selfDelimiting 16 _ _ _ _ heq
  obtain ⟨hepoch, heq⟩ := u64_selfDelimiting _ _ _ _ heq
  obtain ⟨-, heq⟩ := u64_selfDelimiting _ _ _ _ heq
  obtain ⟨-, heq⟩ := u64_selfDelimiting _ _ _ _ heq
  obtain ⟨hid, heq⟩ := bytes_selfDelimiting 16 _ _ _ _ heq
  have hslot := List.singleton_injective heq
  simp only [LocUpdateFields.encoded, hprofile, hscid, hsender, hreceiver, hold, hnew, hepoch, hid,
    hslot]

/-- Between two distinct roles the direction byte tells which is which. -/
theorem roles_of_direction (h : c.rolesOk) (h' : c'.rolesOk)
    (hd : (if c.sender.role = 1 then 1 else 2 : Byte) = if c'.sender.role = 1 then 1 else 2) :
    c.sender.role = c'.sender.role ∧ c.receiver.role = c'.receiver.role := by
  simp only [MobilityContext.rolesOk, isRole, decide_eq_true_eq] at h h'
  obtain ⟨hne, hs | hs, hr | hr⟩ := h <;> obtain ⟨hne', hs' | hs', hr' | hr'⟩ := h' <;>
    simp_all

theorem tokenInput_injective {f f' : TokenFields} (h : tokenInput c f = .ok input)
    (h' : tokenInput c' f' = .ok input) : f.encoded c = f'.encoded c' := by
  simp only [tokenInput, Outcome.ite_error_eq_ok, Except.ok.injEq, not_or, not_not] at h h'
  obtain ⟨⟨-, -, -, hroles⟩, rfl⟩ := h
  obtain ⟨⟨-, -, -, hroles'⟩, heq⟩ := h'
  simp only [List.append_assoc] at heq
  have heq := List.append_cancel_left heq.symm
  simp only [List.cons_append, List.nil_append, List.cons.injEq] at heq
  obtain ⟨-, hprofile, heq⟩ := heq
  obtain ⟨hscid, heq⟩ := u64_selfDelimiting _ _ _ _ heq
  obtain ⟨hsender, heq⟩ := bytes_selfDelimiting 16 _ _ _ _ heq
  obtain ⟨hreceiver, heq⟩ := bytes_selfDelimiting 16 _ _ _ _ heq
  obtain ⟨hid, heq⟩ := bytes_selfDelimiting 16 _ _ _ _ heq
  obtain ⟨hloc, heq⟩ := bytes_selfDelimiting 16 _ _ _ _ heq
  obtain ⟨hbinding, heq⟩ := binding_selfDelimiting _ _ _ _ heq
  obtain ⟨hdirection, heq⟩ : _ ∧ _ := by
    simpa only [List.cons_append, List.nil_append, List.cons.injEq] using heq
  obtain ⟨hepoch, heq⟩ := u64_selfDelimiting _ _ _ _ heq
  obtain ⟨hslot, heq⟩ : _ ∧ _ := by
    simpa only [List.cons_append, List.nil_append, List.cons.injEq] using heq
  obtain ⟨hpolicy, heq⟩ := u32_selfDelimiting _ _ _ _ heq
  have hexpiry := u64_selfDelimiting.injective heq
  obtain ⟨hs, hr⟩ := roles_of_direction hroles hroles' hdirection
  simp only [TokenFields.encoded, hprofile, hscid, hsender, hreceiver, hid, hloc, hbinding, hs, hr,
    hepoch, hslot, hpolicy, hexpiry]

theorem open_ne_locUpdate {f : LocUpdateFields} (h : locUpdateSignatureInput c f = .ok input)
    (t0 : List Byte) : OPEN_AUTH_DOMAIN ++ t0 ≠ input ∧ OPEN_ACK_DOMAIN ++ t0 ≠ input := by
  rw [locUpdateSignatureInput_eq_ok h]
  simp only [List.append_assoc]
  constructor
  · exact append_ne (i := 3) (by decide) (by decide) (by decide) t0 _
  · exact append_ne (i := 3) (by decide) (by decide) (by decide) t0 _

/-- Every authenticated string determines its fields, and the three kinds of string signed with one
identity key never meet. -/
theorem authenticated_encodings (C : Crypto)
    (hsha : ∀ a b : Bytes 32, C.sha256 a.val = C.sha256 b.val → a = b) :
    (∀ (c c' : CookieContext) input, cookieInput C c = .ok input → cookieInput C c' = .ok input →
      c.encoded = c'.encoded) ∧
    (∀ c c' (f f' : TokenFields) input, tokenInput c f = .ok input →
      tokenInput c' f' = .ok input → f.encoded c = f'.encoded c') ∧
    (∀ c c' (f f' : LocUpdateFields) input, locUpdateSignatureInput c f = .ok input →
      locUpdateSignatureInput c' f' = .ok input → f.encoded c = f'.encoded c') ∧
    (∀ (c c' : TranscriptContext) t0, transcriptT0 C c = .ok t0 → transcriptT0 C c' = .ok t0 →
      c = c') ∧
    (∀ t0 t0', OPEN_AUTH_DOMAIN ++ t0 ≠ OPEN_ACK_DOMAIN ++ t0') ∧
    ∀ c (f : LocUpdateFields) input t0, locUpdateSignatureInput c f = .ok input →
      OPEN_AUTH_DOMAIN ++ t0 ≠ input ∧ OPEN_ACK_DOMAIN ++ t0 ≠ input :=
  ⟨fun _ _ _ h h' => cookieInput_injective hsha h h', fun _ _ _ _ _ h h' => tokenInput_injective h h',
    fun _ _ _ _ _ h h' => locUpdateSignatureInput_injective h h',
    fun _ _ _ h h' => transcriptT0_injective h h', openAuth_ne_openAck,
    fun _ _ _ t0 h => open_ne_locUpdate h t0⟩

def sampleCookie : CookieContext :=
  ⟨Scenario.binding, Scenario.identity 1, Scenario.identity 2, 9, bytesOf 32 3, bytesOf 16 5, 4, 7⟩

theorem sampleCookie_encoded :
    (cookieInput .sample sampleCookie).toOption.isSome ∧ ∀ c input,
      cookieInput .sample c = .ok input → cookieInput .sample sampleCookie = .ok input →
      c.encoded = sampleCookie.encoded :=
  ⟨by decide +kernel, fun c input h h' => (authenticated_encodings .sample (by
    intro a b hab
    rwa [sample_sha256, sample_sha256] at hab)).1 c sampleCookie input h h'⟩

end R8.Mobility
