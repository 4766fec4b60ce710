import R8Protocol.Lib.Framing
import R8Protocol.Session.Handshake

/-! What the handshake signs or puts under a MAC determines its fields. -/
namespace R8.Session

open FixedWidth Framing

variable {C : Crypto}

theorem bytes_selfDelimiting (n : ℕ) : SelfDelimiting fun b : Bytes n => b.val :=
  .of_length (fun b => b.property) Subtype.val_injective

theorem byte_selfDelimiting : SelfDelimiting fun b : Byte => [b] :=
  .of_length (fun _ => rfl) List.singleton_injective

theorem u64_selfDelimiting : SelfDelimiting u64Bytes :=
  .of_length u64Bytes_length u64Bytes_injective

theorem u32Bytes_injective : Function.Injective u32Bytes := by
  intro a b h
  have := congrArg (fun l => u32Of (l ++ [])) h
  simpa only [u32Of_u32Bytes] using this

theorem u32_selfDelimiting : SelfDelimiting u32Bytes :=
  .of_length u32Bytes_length u32Bytes_injective

/-- The first two bytes of a binding tell its kind, and with it its length. -/
def bindingLength (bytes : List Byte) : ℕ :=
  if byteAt bytes 0 = 2 then 11 else if byteAt bytes 1 = 4 then 25 else 37

theorem udp_length (b : UdpBinding) :
    byteAt b.bytes 0 ≠ 2 ∧ b.bytes.length = bindingLength b.bytes := by
  have hw := b.wellFormed
  simp only [udpWellFormed, decide_eq_true_eq] at hw
  rcases hw with ⟨h0, h1, hlen, -⟩ | ⟨h0, h1, hlen, -⟩
  · simp [bindingLength, h0, h1, hlen]
  · simp [bindingLength, h0, h1, hlen]

theorem binding_length (b : ObservedBinding) : b.encode.length = bindingLength b.encode := by
  cases b with
  | udp b => exact (udp_length b).2
  | native id mac => simp [ObservedBinding.encode, bindingLength, byteAt, mac.property]

theorem binding_injective : Function.Injective ObservedBinding.encode := by
  intro a b h
  cases a with
  | udp a =>
    cases b with
    | udp b =>
      obtain ⟨bytes, _⟩ := a
      obtain ⟨bytes', _⟩ := b
      obtain rfl : bytes = bytes' := h
      rfl
    | native id mac =>
      have h' : a.bytes = [2] ++ u32Bytes id ++ mac.val := h
      exact absurd (by rw [h']; rfl) (udp_length a).1
  | native id mac =>
    cases b with
    | udp b =>
      have h' : [2] ++ u32Bytes id ++ mac.val = b.bytes := h
      exact absurd (by rw [← h']; rfl) (udp_length b).1
    | native id' mac' =>
      simp only [ObservedBinding.encode, List.append_assoc] at h
      obtain ⟨-, hrest⟩ := byte_selfDelimiting 2 2 _ _ h
      obtain ⟨rfl, hmac⟩ := u32_selfDelimiting _ _ _ _ hrest
      obtain rfl := Subtype.ext hmac
      rfl

theorem binding_selfDelimiting : SelfDelimiting ObservedBinding.encode := by
  apply SelfDelimiting.of_header bindingLength 2
  · intro b
    rw [binding_length, bindingLength]
    split_ifs <;> omega
  · intro l
    simp [bindingLength, byteAt]
  · intro a b h
    rw [binding_length, binding_length, h]
  · exact binding_injective

/-- The fields a cookie is computed from. -/
def CookieContext.encoded (c : CookieContext) :=
  (c.binding, c.client.role, c.server.role, c.client.serviceContext, c.scid, c.client.eid,
    c.client.publicKey, c.clientEphemeral, c.boot, c.bucket, c.serverContextId)

theorem cookieInput_eq_ok {c : CookieContext} {input : List Byte}
    (h : cookieInput C c = .ok input) :
    input = ascii "R8 cookie v1" ++ c.binding.encode ++
      [WIRE_VERSION, SESSION_VERSION, c.client.role, c.server.role] ++
      u32Bytes c.client.serviceContext ++ u64Bytes c.scid ++ c.client.eid.val ++
      (C.sha256 c.client.publicKey.val).val ++ (C.sha256 c.clientEphemeral.val).val ++
      c.boot.val ++ u64Bytes c.bucket ++ u32Bytes c.serverContextId := by
  simp only [cookieInput, Outcome.bind_eq_ok, Outcome.ite_error_eq_ok, Except.ok.injEq] at h
  obtain ⟨⟨⟩, -, ⟨⟩, -, -, ⟨⟩, -, rfl⟩ := h
  rfl

theorem cookieInput_injective
    (hsha : ∀ a b : Bytes 32, C.sha256 a.val = C.sha256 b.val → a = b) {c c' : CookieContext}
    {input : List Byte} (h : cookieInput C c = .ok input) (h' : cookieInput C c' = .ok input) :
    c.encoded = c'.encoded := by
  have heq := (cookieInput_eq_ok h).symm.trans (cookieInput_eq_ok h')
  simp only [List.append_assoc] at heq
  have heq := List.append_cancel_left heq
  obtain ⟨hbinding, heq⟩ := binding_selfDelimiting _ _ _ _ heq
  simp only [List.cons_append, List.nil_append, List.cons.injEq] at heq
  obtain ⟨-, -, hclient, hserver, heq⟩ := heq
  obtain ⟨hservice, heq⟩ := u32_selfDelimiting _ _ _ _ heq
  obtain ⟨hscid, heq⟩ := u64_selfDelimiting _ _ _ _ heq
  obtain ⟨heid, heq⟩ := bytes_selfDelimiting 16 _ _ _ _ heq
  obtain ⟨hkey, heq⟩ := bytes_selfDelimiting 32 _ _ _ _ heq
  obtain ⟨hephemeral, heq⟩ := bytes_selfDelimiting 32 _ _ _ _ heq
  obtain ⟨hboot, heq⟩ := bytes_selfDelimiting 16 _ _ _ _ heq
  obtain ⟨hbucket, heq⟩ := u64_selfDelimiting _ _ _ _ heq
  have hcontext := u32_selfDelimiting.injective heq
  have hkey := hsha _ _ hkey
  have hephemeral := hsha _ _ hephemeral
  simp only [CookieContext.encoded, hbinding, hclient, hserver, hservice, hscid, heid, hkey,
    hephemeral, hboot, hbucket, hcontext]

/-- A transcript determines both identities whole. -/
theorem transcriptT0_injective {c c' : TranscriptContext} {t0 : List Byte}
    (h : transcriptT0 C c = .ok t0) (h' : transcriptT0 C c' = .ok t0) : c = c' := by
  simp only [transcriptT0, Outcome.bind_eq_ok, Outcome.ite_error_eq_ok, Except.ok.injEq] at h h'
  obtain ⟨⟨⟩, -, -, -, hsame, rfl⟩ := h
  obtain ⟨⟨⟩, -, -, -, hsame', heq⟩ := h'
  simp only [TranscriptContext.bytes, List.append_assoc] at heq
  have heq := List.append_cancel_left heq.symm
  simp only [List.cons_append, List.nil_append, List.cons.injEq] at heq
  obtain ⟨-, hprofile, heq⟩ := heq
  obtain ⟨hscid, heq⟩ := u64_selfDelimiting _ _ _ _ heq
  obtain ⟨hclient, hserver, heq⟩ : _ ∧ _ ∧ _ := by
    simpa only [List.cons_append, List.nil_append, List.cons.injEq] using heq
  obtain ⟨hservice, heq⟩ := u32_selfDelimiting _ _ _ _ heq
  obtain ⟨hclientEid, heq⟩ := bytes_selfDelimiting 16 _ _ _ _ heq
  obtain ⟨hclientKey, heq⟩ := bytes_selfDelimiting 32 _ _ _ _ heq
  obtain ⟨hserverEid, heq⟩ := bytes_selfDelimiting 16 _ _ _ _ heq
  obtain ⟨hserverKey, heq⟩ := bytes_selfDelimiting 32 _ _ _ _ heq
  obtain ⟨hce, heq⟩ := bytes_selfDelimiting 32 _ _ _ _ heq
  obtain ⟨hse, heq⟩ := bytes_selfDelimiting 32 _ _ _ _ heq
  obtain ⟨hcn, heq⟩ := bytes_selfDelimiting 32 _ _ _ _ heq
  obtain ⟨hsn, heq⟩ := bytes_selfDelimiting 32 _ _ _ _ heq
  have hboot := Subtype.ext heq
  have hserverService : c.server.serviceContext = c'.server.serviceContext := by
    rw [← not_not.mp hsame, ← not_not.mp hsame', hservice]
  obtain ⟨_, _, ⟨_, _, _, _⟩, ⟨_, _, _, _⟩, _, _, _, _, _⟩ := c
  obtain ⟨_, _, ⟨_, _, _, _⟩, ⟨_, _, _, _⟩, _, _, _, _, _⟩ := c'
  simp only at *
  simp only [*]

theorem openAuth_ne_openAck (t0 t0' : List Byte) :
    OPEN_AUTH_DOMAIN ++ t0 ≠ OPEN_ACK_DOMAIN ++ t0' :=
  append_ne (i := 9) (by decide) (by decide) (by decide) t0 t0'

/-- The last 32 bytes of 32 bytes. -/
theorem sample_sha256 (b : Bytes 32) : Crypto.sample.sha256 b.val = b := by
  apply Subtype.ext
  change ((zeros 32).val ++ b.val).drop b.val.length = b.val
  rw [List.drop_left' (by rw [b.property, (zeros 32).property])]

end R8.Session
