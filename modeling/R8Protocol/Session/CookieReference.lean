import R8Protocol.Session.Codec
import R8Protocol.Session.Cookie

/-! The reference implementation's check of a cookie against the one used here. -/
namespace R8

open FixedWidth Wire Session

namespace Reference

/-- What the reference raises: an error of its own, or that of packing a number out of range. -/
inductive Raised
  | session (e : SessionError)
  | structError
  deriving DecidableEq, Repr

inductive Binding
  | udp (address : List Byte) (port : ℕ) (selectorKind : Byte) (selector : List Byte)
  | native (ingressDescriptorId : ℕ) (nextHopMac : List Byte)
  deriving DecidableEq, Repr

def Binding.encode : Binding → Except SessionError (List Byte)
  | .udp address port selectorKind selector =>
    if ¬ (address.length = 4 ∨ address.length = 16) then .error .binding
    else if ¬ ((selectorKind = 1 ∨ selectorKind = 2) ∧ selector.length = 16 ∧ 1 ≤ port ∧
        port ≤ 65535) then
      .error .binding
    else
      let family := if address.length = 4 then [1, 4] else [1, 6]
      .ok (family ++ address ++ beBytes 2 port ++ [selectorKind] ++ selector)
  | .native ingressDescriptorId nextHopMac =>
    if ¬ (0 < ingressDescriptorId ∧ ingressDescriptorId ≤ 0xffffffff ∧ nextHopMac.length = 6) then
      .error .binding
    else .ok ([2] ++ beBytes 4 ingressDescriptorId ++ nextHopMac)

/-- The fields of a UDP binding whose address takes `n` bytes. -/
def Binding.udpAt (n : ℕ) (bytes : List Byte) : Binding :=
  .udp (arrayAt n bytes 2).val (u16Of (bytes.drop (n + 2))).val (byteAt bytes (n + 4))
    (arrayAt 16 bytes (n + 5)).val

/-- The reference's object for an observed binding. -/
def Binding.ofObserved : ObservedBinding → Binding
  | .udp b => if byteAt b.bytes 1 = 4 then udpAt 4 b.bytes else udpAt 16 b.bytes
  | .native ingressDescriptorId nextHopMac => .native ingressDescriptorId.val nextHopMac.val

/-- `struct.pack("!Q", n)`. -/
def packQ (n : ℤ) : Except Raised (List Byte) :=
  if 0 ≤ n ∧ n < 2 ^ 64 then .ok (beBytes 8 n.toNat) else .error .structError

/-- The arguments of `cookie_input` that a check leaves fixed. -/
structure CookieArgs where
  binding : Binding
  clientRole : Byte
  serverRole : Byte
  service : U32
  scid : U64
  clientEid : Bytes 16
  clientPublic : Bytes 32
  clientEphemeral : Bytes 32
  boot : Bytes 16
  serverContext : U32

def cookieInput (C : Crypto) (a : CookieArgs) (bucket : ℤ) : Except Raised (List Byte) := do
  let binding ← a.binding.encode.mapError .session
  let packed ← packQ bucket
  .ok (ascii "R8 cookie v1" ++ binding ++ [8, 1, a.clientRole, a.serverRole] ++
    u32Bytes a.service ++ u64Bytes a.scid ++ a.clientEid.val ++
    (C.sha256 a.clientPublic.val).val ++ (C.sha256 a.clientEphemeral.val).val ++ a.boot.val ++
    packed ++ u32Bytes a.serverContext)

def cookie (C : Crypto) (key : Bytes 32) (a : CookieArgs) (bucket : ℤ) :
    Except Raised (Bytes 32) := do
  let input ← cookieInput C a bucket
  .ok (C.hmacSha256 key input)

/-- The keys of the server, and until when the prior one is good, in seconds. -/
structure CookieKeys where
  cookieKey : Bytes 32
  priorCookieKey : Option (Bytes 32)
  priorKeyValidUntil : ℚ

namespace CookieKeys

def rotateCookieKey (k : CookieKeys) (newKey : Bytes 32) (now : ℚ) : CookieKeys :=
  ⟨newKey, some k.cookieKey, now + 20⟩

/-- `_cookies`: every candidate is computed before the first is compared. -/
def cookies (C : Crypto) (k : CookieKeys) (clock : ℚ) (supplied : Bytes 32) (a : CookieArgs)
    (bucket : ℤ) : Except Raised Bool := do
  let keys := k.cookieKey :: if clock ≤ k.priorKeyValidUntil then k.priorCookieKey.toList else []
  let pairs := keys.flatMap fun key => [(key, bucket), (key, bucket - 1)]
  let candidates ← pairs.mapM fun pair => cookie C pair.1 a pair.2
  .ok (candidates.any (· = supplied))

end CookieKeys

end Reference

namespace Session

variable {C : Crypto} {c : CookieContext} {bucket : U64}

/-- The same values as the reference passes them. -/
def CookieContext.referenceArgs (c : CookieContext) : Reference.CookieArgs :=
  ⟨.ofObserved c.binding, c.client.role, c.server.role, c.client.serviceContext, c.scid,
    c.client.eid, c.client.publicKey, c.clientEphemeral, c.boot, c.serverContextId⟩

theorem encode_udpAt {n : ℕ} (hn : n = 4 ∨ n = 16) {bytes : List Byte}
    (hone : byteAt bytes 0 = 1) (hfamily : byteAt bytes 1 = if n = 4 then 4 else 6)
    (hlen : bytes.length = n + 21) (hport : u16Of (bytes.drop (n + 2)) ≠ 0)
    (hkind : byteAt bytes (n + 4) = 1 ∨ byteAt bytes (n + 4) = 2) :
    (Reference.Binding.udpAt n bytes).encode = .ok bytes := by
  have hport' : 1 ≤ (u16Of (bytes.drop (n + 2))).val ∧
      (u16Of (bytes.drop (n + 2))).val ≤ 65535 := by
    have := Nat.pos_of_ne_zero fun h0 => hport (Fin.ext h0)
    have := (u16Of (bytes.drop (n + 2))).isLt
    omega
  have hbytes := udpBytes_of_read hlen hone
  rw [hfamily] at hbytes
  simp only [Reference.Binding.udpAt, Reference.Binding.encode, (arrayAt n bytes 2).property,
    (arrayAt 16 bytes (n + 5)).property, hn, hkind, hport', not_true_eq_false, and_self, if_false]
  refine congrArg Except.ok (Eq.trans ?_ hbytes)
  rcases hn with rfl | rfl <;> rfl

theorem encode_ofObserved (b : ObservedBinding) : (Reference.Binding.ofObserved b).encode =
    if b.Valid then .ok b.encode else .error .binding := by
  cases b with
  | udp b =>
    rw [if_pos (ObservedBinding.valid_udp b)]
    have hwf := b.wellFormed
    simp only [udpWellFormed, decide_eq_true_eq] at hwf
    rcases hwf with ⟨hone, hfamily, hlen, hport, hkind⟩ | ⟨hone, hfamily, hlen, hport, hkind⟩
    · rw [Reference.Binding.ofObserved, if_pos hfamily]
      exact encode_udpAt (.inl rfl) hone hfamily hlen hport hkind
    · rw [Reference.Binding.ofObserved, if_neg (by rw [hfamily]; decide)]
      exact encode_udpAt (.inr rfl) hone hfamily hlen hport hkind
  | native id mac =>
    have hid : id.val ≤ 0xffffffff := by
      have := id.isLt
      omega
    simp only [Reference.Binding.ofObserved, Reference.Binding.encode, hid, mac.property,
      ObservedBinding.valid_native, and_true, not_lt, Nat.le_zero]
    by_cases h : id = 0
    · simp [h]
    · have h' : ¬ id.val = 0 := fun h0 => h (Fin.ext h0)
      simp only [h, h', if_false, ne_eq, not_false_eq_true, if_true]
      rfl

/-- The bytes a cookie is computed from, the bucket already packed. -/
def CookieContext.input (C : Crypto) (c : CookieContext) (packed : List Byte) : List Byte :=
  ascii "R8 cookie v1" ++ c.binding.encode ++
    [WIRE_VERSION, SESSION_VERSION, c.client.role, c.server.role] ++
    u32Bytes c.client.serviceContext ++ u64Bytes c.scid ++ c.client.eid.val ++
    (C.sha256 c.client.publicKey.val).val ++ (C.sha256 c.clientEphemeral.val).val ++
    c.boot.val ++ packed ++ u32Bytes c.serverContextId

/-- What is checked of a context before its binding, and by these machines only. -/
def CookieContext.Checked (C : Crypto) (c : CookieContext) : Prop :=
  c.client.validate C = .ok () ∧ c.server.validate C = .ok () ∧ c.serverContextId ≠ 0

theorem validate_error {b : ObservedBinding} {e : SessionError} (h : b.validate = .error e) :
    e = .binding := by
  cases b with
  | udp b =>
    have hvalid := ObservedBinding.valid_udp b
    rw [ObservedBinding.Valid, h] at hvalid
    cases hvalid
  | native id mac =>
    simp only [ObservedBinding.validate] at h
    split at h
    · cases h
    · exact (Except.error.inj h).symm

theorem cookieInput_checked (h : c.Checked C) (bucket : U64) :
    cookieInput C { c with bucket } =
      if c.binding.Valid then .ok (c.input C (u64Bytes bucket)) else .error .binding := by
  obtain ⟨hclient, hserver, hcontext⟩ := h
  simp only [cookieInput, hclient, hserver, hcontext, bind, Except.bind, if_false]
  cases hbinding : c.binding.validate with
  | ok u => exact (if_pos hbinding).symm
  | error e =>
    have he : e = .binding := validate_error hbinding
    have hnot : ¬ c.binding.Valid := by
      intro hvalid
      rw [ObservedBinding.Valid, hbinding] at hvalid
      cases hvalid
    rw [if_neg hnot, he]

theorem packQ_eq (bucket : U64) : Reference.packQ bucket.val = .ok (u64Bytes bucket) := by
  have hlt : ((bucket.val : ℕ) : ℤ) < 2 ^ 64 := by exact_mod_cast bucket.isLt
  have hrange : (0 : ℤ) ≤ (bucket.val : ℕ) ∧ ((bucket.val : ℕ) : ℤ) < 2 ^ 64 :=
    ⟨Int.natCast_nonneg _, hlt⟩
  rw [Reference.packQ, if_pos hrange, Int.toNat_natCast]
  rfl

theorem reference_cookieInput (c : CookieContext) (bucket : U64) :
    Reference.cookieInput C c.referenceArgs bucket.val =
      if c.binding.Valid then .ok (c.input C (u64Bytes bucket))
      else .error (.session .binding) := by
  unfold Reference.cookieInput CookieContext.referenceArgs
  -- the packed number is named before the binds are unfolded: the kernel must not compute it
  generalize hpacked : Reference.packQ bucket.val = packed
  obtain rfl := (packQ_eq bucket).symm.trans hpacked
  rw [encode_ofObserved]
  by_cases hvalid : c.binding.Valid
  · rw [if_pos hvalid, if_pos hvalid]
    rfl
  · rw [if_neg hvalid, if_neg hvalid]
    rfl

/-- A time in whole seconds, small enough for a count of milliseconds. -/
structure Seconds where
  count : ℕ
  fits : 1000 * count < 2 ^ 64

def Seconds.toMs (t : Seconds) : U64 := ⟨1000 * t.count, t.fits⟩

/-- Both checks of one cookie at one time: the prior key is rotated out at `rotatedMs`, and the
reference is given the bucket of the current second. -/
def CookiesAgree (C : Crypto) (c : CookieContext) (keys : Reference.CookieKeys)
    (currentKey supplied : Bytes 32) (rotatedMs : U64) (now : Seconds) : Prop :=
  (keys.rotateCookieKey currentKey (rotatedMs.val / 1000)).cookies C now.count supplied
      c.referenceArgs (now.count / 10) =
    (cookieMatchesBuckets C currentKey keys.cookieKey rotatedMs supplied c now.toMs).mapError
      .session

variable {keys : Reference.CookieKeys} {currentKey supplied : Bytes 32} {rotatedMs : U64}
  {now : Seconds}

/-- The inclusive end of the prior key's time, in seconds and in milliseconds. -/
theorem deadline_iff : (now.count : ℚ) ≤ (rotatedMs.val : ℚ) / 1000 + 20 ↔
    (satSub now.toMs rotatedMs).val ≤ 20000 := by
  have hms : (now.count : ℚ) ≤ (rotatedMs.val : ℚ) / 1000 + 20 ↔
      ((1000 * now.count : ℕ) : ℚ) ≤ ((rotatedMs.val + 20000 : ℕ) : ℚ) := by
    push_cast
    constructor <;> intro h <;> linarith
  rw [hms, Nat.cast_le, satSub_val]
  change _ ↔ 1000 * now.count - rotatedMs.val ≤ 20000
  omega

theorem bucketOf_toMs : (bucketOf now.toMs).val = now.count / 10 := by
  rw [bucketOf_val]
  change 1000 * now.count / 10000 = now.count / 10
  omega

theorem reference_cookie (hvalid : c.binding.Valid) (key : Bytes 32) (bucket : U64) :
    Reference.cookie C key c.referenceArgs bucket.val =
      .ok (cookie C key (c.input C (u64Bytes bucket))) := by
  rw [Reference.cookie, reference_cookieInput, if_pos hvalid]
  rfl

/-- Past the first bucket every candidate is computed. -/
theorem reference_candidates (hvalid : c.binding.Valid) {bucket prior : U64}
    (hprior : prior.val + 1 = bucket.val) (ks : List (Bytes 32)) :
    (ks.flatMap fun key => [(key, (bucket.val : ℤ)), (key, (bucket.val : ℤ) - 1)]).mapM
        (fun pair => Reference.cookie C pair.1 c.referenceArgs pair.2) =
      .ok (ks.flatMap fun key => [cookie C key (c.input C (u64Bytes bucket)),
        cookie C key (c.input C (u64Bytes prior))]) := by
  rw [show (bucket.val : ℤ) - 1 = (prior.val : ℤ) by omega]
  induction ks with
  | nil => rfl
  | cons key ks ih =>
    simp only [List.flatMap_cons, List.mapM_append, ih, List.mapM_cons, List.mapM_nil,
      reference_cookie hvalid]
    rfl

/-- The two checks of a context all checks pass, past the first bucket. -/
theorem cookies_agree_of_checked (h : c.Checked C) (hvalid : c.binding.Valid)
    (hnow : 10 ≤ now.count) : CookiesAgree C c keys currentKey supplied rotatedMs now := by
  have hbucket : (bucketOf now.toMs).val = now.count / 10 := bucketOf_toMs
  have hdiv : now.toMs / 10000 = bucketOf now.toMs := rfl
  obtain ⟨prior, hprior⟩ : ∃ prior : U64, prior.val + 1 = (bucketOf now.toMs).val := by
    have hone : (1 : U64).val = 1 := rfl
    refine ⟨satSub (bucketOf now.toMs) 1, ?_⟩
    rw [satSub_val]
    omega
  have hint : (now.count : ℤ) / 10 = ((bucketOf now.toMs).val : ℤ) := by omega
  unfold CookiesAgree
  rw [hint]
  generalize bucketOf now.toMs = bucket at *
  have hinput (b : U64) := (cookieInput_checked h b).trans (if_pos hvalid)
  simp only [cookieMatchesBuckets, priorBucketMatches, hdiv, hinput, sub?_one.mpr hprior,
    Reference.CookieKeys.cookies, Reference.CookieKeys.rotateCookieKey, deadline_iff,
    reference_candidates hvalid hprior, bind, Except.bind]
  by_cases hage : (satSub now.toMs rotatedMs).val ≤ 20000
  · simp [hage, Except.mapError, Bool.or_assoc]
  · simp [hage, Except.mapError]

theorem bind_ne_session {α β : Type} {x : Except Reference.Raised α}
    {f : α → Except Reference.Raised β} {e : SessionError} (hx : x ≠ .error (.session e))
    (hf : ∀ a, f a ≠ .error (.session e)) : x >>= f ≠ .error (.session e) := by
  rw [ne_eq, Outcome.bind_eq_error]
  rintro (h | ⟨a, -, h⟩)
  · exact hx h
  · exact hf a h

theorem mapM_ne_session {α β : Type} {f : α → Except Reference.Raised β} {e : SessionError}
    (hf : ∀ a, f a ≠ .error (.session e)) (l : List α) : l.mapM f ≠ .error (.session e) := by
  induction l with
  | nil => rintro ⟨⟩
  | cons a l ih =>
    rw [List.mapM_cons]
    refine bind_ne_session (hf a) fun b => bind_ne_session ih ?_
    rintro bs ⟨⟩

/-- The reference raises no error of a session but that of the binding. -/
theorem reference_cookies_ne {clock : ℚ} {bucket : ℤ} {e : SessionError} (he : e ≠ .binding) :
    keys.cookies C clock supplied c.referenceArgs bucket ≠ .error (.session e) := by
  have hpack (n : ℤ) : Reference.packQ n ≠ .error (.session e) := by
    unfold Reference.packQ
    split_ifs <;> rintro ⟨⟩
  have hencode : c.referenceArgs.binding.encode.mapError Reference.Raised.session ≠
      .error (.session e) := by
    change (Reference.Binding.ofObserved c.binding).encode.mapError _ ≠ _
    rw [encode_ofObserved]
    split_ifs
    · rintro ⟨⟩
    · intro h
      exact he (Reference.Raised.session.inj (Except.error.inj h)).symm
  have hinput (n : ℤ) : Reference.cookieInput C c.referenceArgs n ≠ .error (.session e) := by
    refine bind_ne_session hencode fun _ => bind_ne_session (hpack n) ?_
    rintro _ ⟨⟩
  have hcookie (key : Bytes 32) (n : ℤ) :
      Reference.cookie C key c.referenceArgs n ≠ .error (.session e) := by
    refine bind_ne_session (hinput n) ?_
    rintro _ ⟨⟩
  refine bind_ne_session (mapM_ne_session (fun pair : Bytes 32 × ℤ => hcookie pair.1 pair.2) _) ?_
  rintro _ ⟨⟩

/-- In the first bucket the one before it cannot be packed. -/
theorem reference_cookies_first (hvalid : c.binding.Valid) (keys : Reference.CookieKeys)
    (clock : ℚ) : keys.cookies C clock supplied c.referenceArgs 0 = .error .structError := by
  have hzero : Reference.cookie C keys.cookieKey c.referenceArgs 0 = _ :=
    reference_cookie hvalid keys.cookieKey 0
  have hbefore : Reference.cookie C keys.cookieKey c.referenceArgs (0 - 1) =
      .error .structError := by
    have hpack : Reference.packQ (0 - 1) = .error .structError := by
      apply if_neg
      rintro ⟨hnonneg, -⟩
      omega
    simp only [Reference.cookie, Reference.cookieInput, CookieContext.referenceArgs,
      encode_ofObserved, hvalid, if_true, hpack]
    rfl
  simp only [Reference.CookieKeys.cookies, List.flatMap_cons, List.cons_append, List.mapM_cons,
    hbefore]
  change (Reference.cookie C keys.cookieKey c.referenceArgs 0 >>= _) >>= _ = _
  rw [hzero]
  rfl

theorem reference_cookies_invalid (hvalid : ¬ c.binding.Valid) (keys : Reference.CookieKeys)
    (clock : ℚ) (bucket : ℤ) :
    keys.cookies C clock supplied c.referenceArgs bucket = .error (.session .binding) := by
  have hcookie : Reference.cookie C keys.cookieKey c.referenceArgs bucket =
      .error (.session .binding) := by
    simp only [Reference.cookie, Reference.cookieInput, CookieContext.referenceArgs,
      encode_ofObserved, hvalid, if_false]
    rfl
  simp only [Reference.CookieKeys.cookies, List.flatMap_cons, List.cons_append, List.mapM_cons,
    hcookie]
  rfl

/-- The errors of the checks that only these machines make. -/
theorem validate_ne_binding {i : Identity} : i.validate C ≠ .error .binding := by
  unfold Identity.validate
  split_ifs <;> rintro ⟨⟩

/-- An unchecked context is refused with an error the reference has none of. -/
theorem cookieMatchesBuckets_unchecked (h : ¬ c.Checked C) (currentKey previousKey : Bytes 32)
    (nowMs : U64) : ∃ e, e ≠ .binding ∧
      cookieMatchesBuckets C currentKey previousKey rotatedMs supplied c nowMs = .error e := by
  have hinput (bucket : U64) : ∃ e, e ≠ .binding ∧
      cookieInput C { c with bucket } = .error e := by
    unfold cookieInput
    cases hclient : c.client.validate C with
    | error e =>
      refine ⟨e, ?_, rfl⟩
      rintro rfl
      exact validate_ne_binding hclient
    | ok _ =>
      cases hserver : c.server.validate C with
      | error e =>
        refine ⟨e, ?_, rfl⟩
        rintro rfl
        exact validate_ne_binding hserver
      | ok _ =>
        have hcontext : c.serverContextId = 0 := by
          by_contra hne
          exact h ⟨hclient, hserver, hne⟩
        refine ⟨.configError, by decide, ?_⟩
        simp only [bind, Except.bind, hcontext, if_true]
  obtain ⟨e, he, herror⟩ := hinput (nowMs / 10000)
  refine ⟨e, he, ?_⟩
  simp only [cookieMatchesBuckets, herror, bind, Except.bind]

/-- The two checks agree exactly when the context passes the checks of these machines and there is
a bucket before the current one, or the binding is refused anyway. -/
theorem cookies_agree_iff (C : Crypto) (c : CookieContext) (keys : Reference.CookieKeys)
    (currentKey supplied : Bytes 32) (rotatedMs : U64) (now : Seconds) :
    CookiesAgree C c keys currentKey supplied rotatedMs now ↔
      c.Checked C ∧ (c.binding.Valid → 10 ≤ now.count) := by
  unfold CookiesAgree
  constructor
  · intro hagree
    have hchecked : c.Checked C := by
      by_contra h
      obtain ⟨e, he, herror⟩ : ∃ e, e ≠ .binding ∧ cookieMatchesBuckets C currentKey
          keys.cookieKey rotatedMs supplied c now.toMs = .error e :=
        cookieMatchesBuckets_unchecked h currentKey keys.cookieKey now.toMs
      rw [herror] at hagree
      exact reference_cookies_ne he hagree
    refine ⟨hchecked, ?_⟩
    intro hvalid
    by_contra hfirst
    have hzero : (now.count : ℤ) / 10 = 0 := by omega
    rw [hzero, reference_cookies_first hvalid] at hagree
    cases hmatches : cookieMatchesBuckets C currentKey keys.cookieKey rotatedMs supplied c
        now.toMs <;> rw [hmatches] at hagree <;> cases hagree
  · rintro ⟨hchecked, hnow⟩
    by_cases hvalid : c.binding.Valid
    · exact cookies_agree_of_checked hchecked hvalid (hnow hvalid)
    · have hinput := (cookieInput_checked hchecked (now.toMs / 10000)).trans (if_neg hvalid)
      simp only [reference_cookies_invalid hvalid, cookieMatchesBuckets, hinput, bind, Except.bind]
      rfl

/-- A server that has been up for nine seconds is shown the cookie it minted: these machines take
it, the reference fails on the bucket before. -/
theorem cookies_agree_first_bucket :
    let c : CookieContext := ⟨Scenario.binding, Scenario.identity 1, Scenario.identity 2, 9,
      bytesOf 32 3, bytesOf 16 5, 0, 7⟩
    let supplied := cookie .sample (bytesOf 32 6) (c.input .sample (u64Bytes 0))
    cookieMatchesBuckets .sample (bytesOf 32 6) (bytesOf 32 7) 0 supplied c 9000 = .ok true ∧
      ¬ CookiesAgree .sample c ⟨bytesOf 32 7, none, 0⟩ (bytesOf 32 6) supplied 0
        ⟨9, by decide⟩ := by
  intro c supplied
  have htrue : cookieMatchesBuckets .sample (bytesOf 32 6) (bytesOf 32 7) 0 supplied c 9000 =
      .ok true := by
    decide +kernel
  have hvalid : c.binding.Valid := by decide
  refine ⟨htrue, ?_⟩
  intro hagree
  have hraised := (reference_cookies_first hvalid _ _).symm.trans hagree
  change _ = (cookieMatchesBuckets .sample (bytesOf 32 6) (bytesOf 32 7) 0 supplied c 9000).mapError
    Reference.Raised.session at hraised
  rw [htrue] at hraised
  cases hraised

end Session

end R8
