import R8Protocol.Session.Message

/-! Session messages and bindings: reading undoes writing, and no slice is taken out of bounds. -/
namespace R8.Session

open FixedWidth

/-- `l[i..j]` of the source. Here and below `none` is a panic. -/
def slice? (l : List Byte) (i j : ℕ) : Option (List Byte) :=
  if i ≤ j ∧ j ≤ l.length then some (slice l i j) else none

/-- A slice as an array, which has to have its length. -/
def array? (n : ℕ) (l : List Byte) : Option (Bytes n) :=
  if h : l.length = n then some ⟨l, h⟩ else none

def validateRolePair? (body : List Byte) : Option (Except SessionError Unit) := do
  let sender ← body[0]?
  if ¬ isRole sender then some (.error .roleMismatch)
  else do
    let receiver ← body[1]?
    if ¬ isRole receiver ∨ sender = receiver then some (.error .roleMismatch) else some (.ok ())

def validateCounter? (body : List Byte) : Option (Except SessionError Unit) := do
  let front ← slice? body 0 8
  let counter ← array? 8 front
  if u64Of counter.val = 0 ∨ u64Of counter.val = u64Max then some (.error .counterRange)
  else some (.ok ())

def validateBody? (typ : Byte) (body : List Byte) : Option (Except SessionError Unit) :=
  match bodyLength typ with
  | none => some (.error .type)
  | some exact =>
    if body.length < exact then some (.error .truncated)
    else if typ ≠ SESSION_DATA ∧ body.length ≠ exact then some (.error .trailingBytes)
    else do
      let roles ←
        if typ ∈ [OPEN, VERIFY_COOKIE, OPEN_AUTH, OPEN_ACK] then validateRolePair? body
        else some (.ok ())
      match roles with
      | .error e => some (.error e)
      | .ok () =>
        if typ ∈ [SESSION_ACCEPT, SESSION_DATA, CLOSE] then validateCounter? body
        else some (.ok ())

def SessionMessage.decode? (payload : List Byte) (headerProfile : Byte) (budget : ℕ) :
    Option (Except SessionError SessionMessage) :=
  if budget < payload.length then some (.error .budget)
  else if payload.length < 4 then some (.error .truncated)
  else do
    let typ ← payload[0]?
    if ¬ (OPEN ≤ typ ∧ typ ≤ CLOSE) then some (.error .type)
    else do
      let version ← payload[1]?
      if version ≠ SESSION_VERSION then some (.error .version)
      else do
        let profile ← payload[2]?
        if profile ≠ headerProfile then some (.error .profile)
        else do
          let flags ← payload[3]?
          if flags ≠ 0 then some (.error .flags)
          else do
            let body ← slice? payload 4 payload.length
            match ← validateBody? typ body with
            | .error e => some (.error e)
            | .ok () => some (.ok ⟨typ, profile, body⟩)

def SessionMessage.encode? (m : SessionMessage) (budget : ℕ) :
    Option (Except SessionError (List Byte)) := do
  match ← validateBody? m.typ m.body with
  | .error e => some (.error e)
  | .ok () =>
    if budget < 4 + m.body.length then some (.error .budget)
    else some (.ok ([m.typ, SESSION_VERSION, m.profile, 0] ++ m.body))

/-- The test of `UdpBinding::parse`: the two patterns in turn, each with its guard. -/
def udpValid? (bytes : List Byte) : Option Bool :=
  match bytes with
  | a :: b :: rest =>
    if a = 1 ∧ b = 4 then
      match rest with
      | _ :: _ :: _ :: _ :: portHi :: portLo :: selectorKind :: _ =>
        some (bytes.length = 25 ∧ u16Of [portHi, portLo] ≠ 0 ∧
          (selectorKind = 1 ∨ selectorKind = 2))
      | _ => some false
    else if a = 1 ∧ b = 6 then
      if bytes.length ≠ 37 then some false
      else do
        let portHi ← bytes[18]?
        let portLo ← bytes[19]?
        if u16Of [portHi, portLo] = 0 then some false
        else do
          let selectorKind ← bytes[20]?
          some (selectorKind = 1 ∨ selectorKind = 2)
    else some false
  | _ => some false

def UdpBinding.parse? (bytes : List Byte) : Option (Except SessionError UdpBinding) := do
  let valid ← udpValid? bytes
  some (if valid then UdpBinding.parse bytes else .error .binding)

def ObservedBinding.parse? (bytes : List Byte) : Option (Except SessionError ObservedBinding) :=
  match bytes.head? with
  | some 1 => do
    let binding ← UdpBinding.parse? bytes
    some (binding.map .udp)
  | some 2 =>
    if bytes.length = 11 then do
      let front ← slice? bytes 1 5
      let id ← array? 4 front
      if u32Of id.val = 0 then some (.error .binding)
      else do
        let back ← slice? bytes 5 bytes.length
        let mac ← array? 6 back
        some (.ok (.native (u32Of id.val) mac))
    else some (.error .binding)
  | _ => some (.error .binding)

section NoPanic

variable {bytes body payload : List Byte} {typ profile : Byte} {budget i j n : ℕ}

theorem slice?_eq (h : i ≤ j) (hj : j ≤ bytes.length) : slice? bytes i j = some (slice bytes i j) :=
  if_pos ⟨h, hj⟩

theorem array?_eq (h : bytes.length = n) : array? n bytes = some ⟨bytes, h⟩ := dif_pos h

theorem getElem?_eq_byteAt (h : i < bytes.length) : bytes[i]? = some (byteAt bytes i) := by
  simp [byteAt, List.getD_eq_getElem?_getD, h]

theorem slice_to_end (bytes : List Byte) (i : ℕ) : slice bytes i bytes.length = bytes.drop i :=
  List.take_of_length_le (by simp)

theorem validateRolePair?_eq (h : 2 ≤ body.length) :
    validateRolePair? body = some (validateRolePair body) := by
  rw [validateRolePair?, validateRolePair, getElem?_eq_byteAt (i := 0) (by omega),
    getElem?_eq_byteAt (i := 1) (by omega)]
  by_cases hs : isRole (byteAt body 0) = true
  · by_cases hr : isRole (byteAt body 1) = true ∧ byteAt body 0 ≠ byteAt body 1
    · simp [hs, hr]
    · have hr' : ¬ isRole (byteAt body 1) = true ∨ byteAt body 0 = byteAt body 1 := by tauto
      rw [if_pos (.inr hr')]
      simp only [Option.bind_eq_bind, Option.bind_some, hs, not_true_eq_false, if_false, if_pos hr']
  · simp [hs]

theorem validateCounter?_eq (h : 8 ≤ body.length) : validateCounter? body =
    some (if u64Of body = 0 ∨ u64Of body = u64Max then .error .counterRange else .ok ()) := by
  have hlen : (slice body 0 8).length = 8 := by simp [h]
  have hcounter : u64Of (slice body 0 8) = u64Of body := by
    simp [u64Of, slice, List.take_take]
  simp only [validateCounter?, slice?_eq (Nat.zero_le 8) h, array?_eq hlen, hcounter,
    Option.bind_eq_bind, Option.bind_some]
  split <;> rfl

/-- No type has a shorter body than the part of it that is looked at. -/
theorem bodyLength_le {exact : ℕ} (h : bodyLength typ = some exact) : 24 ≤ exact := by
  unfold bodyLength at h
  split_ifs at h <;> cases h <;> decide

theorem validateBody?_eq (typ : Byte) (body : List Byte) :
    validateBody? typ body = some (validateBody typ body) := by
  unfold validateBody? validateBody
  cases hb : bodyLength typ with
  | none => rfl
  | some exact =>
    have hmin := bodyLength_le hb
    dsimp only
    split
    · rfl
    · rename_i hlong
      split
      · rfl
      · have hroles : validateRolePair? body = some (validateRolePair body) :=
          validateRolePair?_eq (by omega)
        have hcounter : validateCounter? body = some (if u64Of body = 0 ∨ u64Of body = u64Max
            then .error .counterRange else .ok ()) := validateCounter?_eq (by omega)
        simp only [hroles, hcounter]
        split
        · cases validateRolePair body with
          | error e => rfl
          | ok u =>
            simp only [Option.bind_some, bind, Except.bind]
            split <;> rfl
        · simp only [Option.bind_eq_bind, Option.bind_some]
          split <;> rfl

theorem SessionMessage.decode?_eq (payload : List Byte) (headerProfile : Byte) (budget : ℕ) :
    SessionMessage.decode? payload headerProfile budget =
      some (SessionMessage.decode payload headerProfile budget) := by
  unfold SessionMessage.decode? SessionMessage.decode
  split
  · rfl
  · split
    · rfl
    · rename_i hlen
      have hget (i : ℕ) (hi : i < 4) : payload[i]? = some (byteAt payload i) :=
        getElem?_eq_byteAt (by omega)
      have hbody : slice? payload 4 payload.length = some (payload.drop 4) := by
        rw [slice?_eq (by omega) le_rfl, slice_to_end]
      simp only [hget 0 (by omega), hget 1 (by omega), hget 2 (by omega), hget 3 (by omega), hbody,
        validateBody?_eq, Option.bind_eq_bind, Option.bind_some]
      split
      · rfl
      · split
        · rfl
        · split
          · rfl
          · split
            · rfl
            · cases validateBody (byteAt payload 0) (payload.drop 4) <;> rfl

theorem SessionMessage.encode?_eq (m : SessionMessage) (budget : ℕ) :
    m.encode? budget = some (m.encode budget) := by
  unfold SessionMessage.encode? SessionMessage.encode
  rw [validateBody?_eq]
  cases validateBody m.typ m.body with
  | error e => rfl
  | ok u =>
    simp only [Option.bind_some, bind, Except.bind]
    split <;> rfl

theorem u16Of_cons (a b : Byte) (l : List Byte) : u16Of (a :: b :: l) = u16Of [a, b] := by
  simp [u16Of]

/-- The pattern and guard of the short layout. -/
theorem udpValid?_ipv4 (rest : List Byte) :
    udpValid? (1 :: 4 :: rest) = some (udpWellFormed (1 :: 4 :: rest)) := by
  by_cases hlen : (1 :: 4 :: rest : List Byte).length = 25
  · match rest, hlen with
    | a :: b :: c :: d :: portHi :: portLo :: selectorKind :: selector, hlen =>
      simp only [List.length_cons] at hlen
      simp [udpValid?, udpWellFormed, byteAt,
        u16Of_cons portHi portLo (selectorKind :: selector), hlen]
  · have hshort : udpWellFormed (1 :: 4 :: rest) = false := by
      simp only [udpWellFormed, hlen, byteAt, decide_eq_false_iff_not]
      simp
    rw [hshort]
    simp only [udpValid?, and_self, if_true]
    split
    · simp only [List.length_cons] at hlen ⊢
      simp [hlen]
    · rfl

theorem udpValid?_ipv6 (rest : List Byte) :
    udpValid? (1 :: 6 :: rest) = some (udpWellFormed (1 :: 6 :: rest)) := by
  by_cases hlen : (1 :: 6 :: rest : List Byte).length = 37
  · have hport : u16Of ((1 :: 6 :: rest : List Byte).drop 18) =
        u16Of [byteAt (1 :: 6 :: rest) 18, byteAt (1 :: 6 :: rest) 19] := by
      rw [← byteAt_cons_drop (by omega), ← byteAt_cons_drop (by omega), u16Of_cons]
    have hread (i : ℕ) (hi : i < 37) :
        (1 :: 6 :: rest : List Byte)[i]? = some (byteAt (1 :: 6 :: rest) i) :=
      getElem?_eq_byteAt (by omega)
    have hformed : udpWellFormed (1 :: 6 :: rest) =
        decide (u16Of [byteAt (1 :: 6 :: rest) 18, byteAt (1 :: 6 :: rest) 19] ≠ 0 ∧
          (byteAt (1 :: 6 :: rest) 20 = 1 ∨ byteAt (1 :: 6 :: rest) 20 = 2)) := by
      rw [← hport]
      simp [udpWellFormed, hlen, byteAt]
    rw [hformed]
    simp only [udpValid?, hlen, hread 18 (by omega), hread 19 (by omega), hread 20 (by omega)]
    split
    · rename_i h4
      exact absurd h4.2 (by decide)
    · generalize byteAt (1 :: 6 :: rest) 18 = portHi
      generalize byteAt (1 :: 6 :: rest) 19 = portLo
      generalize byteAt (1 :: 6 :: rest) 20 = selectorKind
      by_cases hzero : u16Of [portHi, portLo] = 0
      · simp [hzero]
      · simp [hzero]
  · have hlong : udpWellFormed (1 :: 6 :: rest) = false := by
      simp only [udpWellFormed, hlen, byteAt, decide_eq_false_iff_not]
      simp
    rw [hlong]
    simp only [udpValid?]
    rw [if_neg (by decide), if_pos (by decide), if_pos hlen]

theorem udpValid?_eq (bytes : List Byte) : udpValid? bytes = some (udpWellFormed bytes) := by
  match bytes with
  | [] => rfl
  | [a] => simp [udpValid?, udpWellFormed]
  | a :: b :: rest =>
    by_cases h4 : a = 1 ∧ b = 4
    · obtain ⟨rfl, rfl⟩ := h4
      exact udpValid?_ipv4 rest
    · by_cases h6 : a = 1 ∧ b = 6
      · obtain ⟨rfl, rfl⟩ := h6
        exact udpValid?_ipv6 rest
      · have hnone : udpWellFormed (a :: b :: rest) = false := by
          simp only [udpWellFormed, byteAt, decide_eq_false_iff_not, List.getD_cons_zero,
            List.getD_cons_succ]
          tauto
        simp only [udpValid?, if_neg h4, if_neg h6, hnone]

theorem UdpBinding.parse?_eq (bytes : List Byte) :
    UdpBinding.parse? bytes = some (UdpBinding.parse bytes) := by
  simp only [UdpBinding.parse?, udpValid?_eq, Option.bind_eq_bind, Option.bind_some,
    UdpBinding.parse]
  by_cases hformed : udpWellFormed bytes = true
  · simp [hformed]
  · simp [hformed]

/-- The split of a native binding into its two arrays. -/
theorem nativeParse?_eq (hfirst : bytes.head? = some 2) :
    ObservedBinding.parse? bytes = some (ObservedBinding.parse bytes) := by
  simp only [ObservedBinding.parse?, ObservedBinding.parse, hfirst]
  split
  · rename_i hlen
    have hfront : (slice bytes 1 5).length = 4 := by simp [hlen]
    have hback : (bytes.drop 5).length = 6 := by simp [hlen]
    have hid : u32Of (slice bytes 1 5) = u32Of (bytes.drop 1) := by
      simp [u32Of, slice, List.take_take]
    have hmac : arrayAt 6 bytes 5 = ⟨bytes.drop 5, hback⟩ := by
      have hend : slice bytes 5 (5 + 6) = bytes.drop 5 := by
        rw [← slice_to_end, hlen]
      exact Subtype.ext ((arrayAt_val (by omega)).trans hend)
    have hfour : slice? bytes 1 5 = some (slice bytes 1 5) := slice?_eq (by omega) (by omega)
    have hrest : slice? bytes 5 bytes.length = some (slice bytes 5 bytes.length) :=
      slice?_eq (by omega) le_rfl
    simp only [hfour, hrest, slice_to_end, array?_eq hfront, array?_eq hback, hid, hmac,
      Option.bind_eq_bind, Option.bind_some]
    split <;> rfl
  · rfl

theorem ObservedBinding.parse?_eq (bytes : List Byte) :
    ObservedBinding.parse? bytes = some (ObservedBinding.parse bytes) := by
  by_cases hone : bytes.head? = some 1
  · simp only [ObservedBinding.parse?, ObservedBinding.parse, hone, UdpBinding.parse?_eq,
      Option.bind_eq_bind, Option.bind_some]
    cases UdpBinding.parse bytes <;> rfl
  · by_cases htwo : bytes.head? = some 2
    · exact nativeParse?_eq htwo
    · have hchecked : ObservedBinding.parse? bytes = some (.error .binding) := by
        unfold ObservedBinding.parse?
        split
        · exact absurd ‹_› hone
        · exact absurd ‹_› htwo
        · rfl
      have hparse : ObservedBinding.parse bytes = .error .binding := by
        unfold ObservedBinding.parse
        split
        · exact absurd ‹_› hone
        · exact absurd ‹_› htwo
        · rfl
      rw [hchecked, hparse]

end NoPanic

section Messages

variable {m : SessionMessage} {x : List Byte} {profile : Byte} {budget : ℕ}

theorem bodyLength_isSome : ∀ typ : Byte,
    (bodyLength typ).isSome = true ↔ OPEN ≤ typ ∧ typ ≤ CLOSE := by
  decide +kernel

theorem validateBody_typ {typ : Byte} {body : List Byte} (h : validateBody typ body = .ok ()) :
    OPEN ≤ typ ∧ typ ≤ CLOSE := by
  rw [← bodyLength_isSome]
  unfold validateBody at h
  cases hb : bodyLength typ with
  | none =>
    rw [hb] at h
    cases h
  | some exact => rfl

theorem SessionMessage.encode_eq_ok : m.encode budget = .ok x ↔
    validateBody m.typ m.body = .ok () ∧ 4 + m.body.length ≤ budget ∧
      x = [m.typ, SESSION_VERSION, m.profile, 0] ++ m.body := by
  simp only [encode, Outcome.bind_eq_ok, Outcome.ite_error_eq_ok, Except.ok.injEq, not_lt]
  constructor
  · rintro ⟨⟨⟩, hbody, hfit, rfl⟩
    exact ⟨hbody, hfit, rfl⟩
  · rintro ⟨hbody, hfit, rfl⟩
    exact ⟨(), hbody, hfit, rfl⟩

theorem SessionMessage.decode_encode (h : m.encode budget = .ok x) :
    SessionMessage.decode x m.profile budget = .ok m := by
  obtain ⟨typ, profile, body⟩ := m
  obtain ⟨hbody, hfit, rfl⟩ := encode_eq_ok.mp h
  dsimp only at hbody hfit ⊢
  have hlen : ([typ, SESSION_VERSION, profile, 0] ++ body).length = 4 + body.length := by
    simp only [List.length_append, List.length_cons, List.length_nil]
  unfold decode
  rw [hlen, if_neg (by omega), if_neg (by omega)]
  simp [byteAt, validateBody_typ hbody, hbody, bind, Except.bind]

/-- A payload is its four fixed bytes and its body. -/
theorem eq_front_append (h : 4 ≤ x.length) :
    x = [byteAt x 0, byteAt x 1, byteAt x 2, byteAt x 3] ++ x.drop 4 := by
  change x.drop 0 = byteAt x 0 :: byteAt x 1 :: byteAt x 2 :: byteAt x 3 :: x.drop 4
  rw [byteAt_cons_drop (by omega), byteAt_cons_drop (by omega), byteAt_cons_drop (by omega),
    byteAt_cons_drop (by omega)]

theorem SessionMessage.encode_decode (h : SessionMessage.decode x profile budget = .ok m) :
    m.encode budget = .ok x := by
  simp only [decode, Outcome.ite_error_eq_ok, Outcome.bind_eq_ok, Except.ok.injEq, not_not,
    not_lt] at h
  obtain ⟨hfit, hlen, -, hversion, hprofile, hflags, ⟨⟩, hbody, rfl⟩ := h
  refine encode_eq_ok.mpr ⟨hbody, ?_, ?_⟩
  · simp only [List.length_drop]
    omega
  · have hfront := eq_front_append hlen
    rw [hversion, hflags] at hfront
    exact hfront

end Messages

section Bindings

variable {x : List Byte} {v : ObservedBinding}

theorem UdpBinding.parse_bytes (b : UdpBinding) : UdpBinding.parse b.bytes = .ok b := by
  rw [UdpBinding.parse, dif_pos b.wellFormed]

theorem UdpBinding.parse_eq_ok {b : UdpBinding} : UdpBinding.parse x = .ok b ↔ b.bytes = x := by
  constructor
  · intro h
    unfold UdpBinding.parse at h
    split at h
    · rw [← Except.ok.inj h]
    · cases h
  · rintro rfl
    exact b.parse_bytes

theorem UdpBinding.head (b : UdpBinding) : b.bytes.head? = some 1 := by
  obtain ⟨bytes, hformed⟩ := b
  cases bytes with
  | nil => simp [udpWellFormed] at hformed
  | cons a rest =>
    simp only [udpWellFormed, byteAt, List.getD_cons_zero, decide_eq_true_eq] at hformed
    rcases hformed with ⟨rfl, -⟩ | ⟨rfl, -⟩ <;> rfl

theorem ObservedBinding.valid_udp (b : UdpBinding) : (ObservedBinding.udp b).Valid := by
  simp only [Valid, validate, b.parse_bytes, bind, Except.bind]
  rfl

theorem ObservedBinding.valid_native {id : U32} {mac : Bytes 6} :
    (ObservedBinding.native id mac).Valid ↔ id ≠ 0 := by
  simp only [Valid, validate]
  split <;> simp_all

theorem ObservedBinding.parse_encode (h : v.Valid) : ObservedBinding.parse v.encode = .ok v := by
  cases v with
  | udp b =>
    simp only [parse, encode, b.head, b.parse_bytes, bind, Except.bind]
  | native id mac =>
    have hid : id ≠ 0 := valid_native.mp h
    have hread : u32Of ((ObservedBinding.native id mac).encode.drop 1) = id :=
      u32Of_u32Bytes id mac.val
    have hlen : (ObservedBinding.native id mac).encode.length = 11 := by
      simp [encode, mac.property]
    have hmac : arrayAt 6 (ObservedBinding.native id mac).encode 5 = mac := by
      apply Subtype.ext
      rw [arrayAt_val (by omega)]
      have hdrop : (ObservedBinding.native id mac).encode.drop 5 = mac.val :=
        List.drop_left' (by simp)
      rw [slice, hdrop, List.take_of_length_le (by simp [mac.property])]
    have hfirst : (ObservedBinding.native id mac).encode.head? = some 2 := rfl
    simp only [parse, hfirst, hlen, hread, hmac, hid, if_true, if_false]

theorem ObservedBinding.encode_parse (h : ObservedBinding.parse x = .ok v) :
    v.encode = x ∧ v.Valid := by
  unfold parse at h
  split at h
  · simp only [Outcome.bind_eq_ok, Except.ok.injEq] at h
    obtain ⟨b, hb, rfl⟩ := h
    exact ⟨UdpBinding.parse_eq_ok.mp hb, valid_udp b⟩
  · rename_i hfirst
    split at h
    · rename_i hlen
      simp only [Outcome.ite_error_eq_ok, Except.ok.injEq] at h
      obtain ⟨hid, rfl⟩ := h
      refine ⟨?_, valid_native.mpr hid⟩
      have hend : slice x 5 (5 + 6) = (x.drop 1).drop 4 := by
        rw [List.drop_drop, ← slice_to_end, hlen]
      have htwo : byteAt x 0 = 2 := by
        simp [byteAt, List.getD_eq_getElem?_getD, ← List.head?_eq_getElem?, hfirst]
      have hfront : byteAt x 0 :: x.drop 1 = x.drop 0 := byteAt_cons_drop (by omega)
      rw [htwo] at hfront
      rw [encode, u32Bytes_u32Of (by simp [hlen]), arrayAt_val (by omega), hend, List.append_assoc,
        List.take_append_drop]
      exact hfront
    · cases h
  · cases h

end Bindings

/-- A UDP binding: family, address, port and selector. -/
def udpBytes {n : ℕ} (family : Byte) (address : Bytes n) (port : U16) (selectorKind : Byte)
    (selector : Bytes 16) : List Byte :=
  [1, family] ++ address.val ++ u16Bytes port ++ [selectorKind] ++ selector.val

section Layouts

variable {n : ℕ} {x : List Byte} {layout : BindingLayout}

theorem udpBytes_read (family : Byte) (address : Bytes n) (port : U16) (selectorKind : Byte)
    (selector : Bytes 16) :
    let bytes := udpBytes family address port selectorKind selector
    byteAt bytes 0 = 1 ∧ byteAt bytes 1 = family ∧ bytes.length = n + 21 ∧
      u16Of (bytes.drop (n + 2)) = port ∧ byteAt bytes (n + 4) = selectorKind := by
  have hport : (udpBytes family address port selectorKind selector).drop (n + 2) =
      u16Bytes port ++ ([selectorKind] ++ selector.val) := by
    unfold udpBytes
    rw [List.append_assoc, List.append_assoc, List.drop_left' (by simp [address.property])]
  have hkind : (udpBytes family address port selectorKind selector).drop (n + 4) =
      [selectorKind] ++ selector.val := by
    rw [show n + 4 = n + 2 + 2 from rfl, ← List.drop_drop, hport, List.drop_left' (by simp)]
  refine ⟨rfl, rfl, ?_, ?_, ?_⟩
  · simp [udpBytes, address.property, selector.property]
  · rw [hport, u16Of_u16Bytes]
  · have hhead := congrArg List.head? hkind
    rw [List.head?_drop] at hhead
    simp [byteAt, List.getD_eq_getElem?_getD, hhead]

/-- Bytes of the right length are a binding of what is read out of them. -/
theorem udpBytes_of_read (hlen : x.length = n + 21) (hone : byteAt x 0 = 1) :
    udpBytes (byteAt x 1) (arrayAt n x 2) (u16Of (x.drop (n + 2))) (byteAt x (n + 4))
      (arrayAt 16 x (n + 5)) = x := by
  have hend : slice x (n + 5) (n + 5 + 16) = x.drop (n + 5) := by
    rw [← slice_to_end, hlen]
  have hport : (x.drop (n + 2)).take 2 ++ x.drop (n + 4) = x.drop (n + 2) := by
    have hslice := slice_append_drop (l := x) (i := n + 2) (j := n + 4) (by omega)
    rwa [slice, show n + 4 - (n + 2) = 2 by omega] at hslice
  rw [udpBytes, arrayAt_val (by omega), arrayAt_val (by omega), hend,
    u16Bytes_u16Of (by simp; omega), List.append_assoc, List.singleton_append,
    byteAt_cons_drop (by omega), List.append_assoc, hport, List.append_assoc,
    show 2 + n = n + 2 by omega, slice_append_drop (by omega), ← hone]
  change byteAt x 0 :: byteAt x 1 :: x.drop 2 = x.drop 0
  rw [byteAt_cons_drop (by omega), byteAt_cons_drop (by omega)]

end Layouts

def UdpBinding.ipv4 (address : Bytes 4) (port : U16) (selectorKind : Byte) (selector : Bytes 16) :
    Except SessionError UdpBinding :=
  if h : port = 0 ∨ ¬ (selectorKind = 1 ∨ selectorKind = 2) then .error .binding
  else .ok ⟨udpBytes 4 address port selectorKind selector, by
    obtain ⟨hone, hfamily, hlen, hport, hkind⟩ :=
      udpBytes_read 4 address port selectorKind selector
    rw [not_or, not_not] at h
    simp only [udpWellFormed, hone, hfamily, hlen, hport, hkind]
    simp [h]⟩

def UdpBinding.ipv6 (address : Bytes 16) (port : U16) (selectorKind : Byte)
    (selector : Bytes 16) : Except SessionError UdpBinding :=
  if h : port = 0 ∨ ¬ (selectorKind = 1 ∨ selectorKind = 2) then .error .binding
  else .ok ⟨udpBytes 6 address port selectorKind selector, by
    obtain ⟨hone, hfamily, hlen, hport, hkind⟩ :=
      udpBytes_read 6 address port selectorKind selector
    rw [not_or, not_not] at h
    simp only [udpWellFormed, hone, hfamily, hlen, hport, hkind]
    simp [h]⟩

/-- The three forms a binding is built in. -/
inductive BindingLayout
  | ipv4 | ipv6 | native
  deriving DecidableEq, Repr

namespace BindingLayout

/-- The bytes are those of a binding built in this form. -/
def Writes (x : List Byte) : BindingLayout → Prop
  | .ipv4 => ∃ address port selectorKind selector b,
    UdpBinding.ipv4 address port selectorKind selector = .ok b ∧ b.bytes = x
  | .ipv6 => ∃ address port selectorKind selector b,
    UdpBinding.ipv6 address port selectorKind selector = .ok b ∧ b.bytes = x
  | .native => ∃ id mac, (ObservedBinding.native id mac).Valid ∧
    (ObservedBinding.native id mac).encode = x

/-- The form that the first two bytes stand for. -/
def ofFront (x : List Byte) : BindingLayout :=
  if byteAt x 0 = 2 then .native else if byteAt x 1 = 4 then .ipv4 else .ipv6

variable {x : List Byte} {v : ObservedBinding} {layout : BindingLayout}

theorem Writes.front (h : layout.Writes x) : layout = ofFront x := by
  cases layout with
  | ipv4 =>
    obtain ⟨address, port, selectorKind, selector, b, hb, rfl⟩ := h
    simp only [UdpBinding.ipv4, Outcome.dite_error_eq_ok, Except.ok.injEq] at hb
    obtain ⟨-, rfl⟩ := hb
    rfl
  | ipv6 =>
    obtain ⟨address, port, selectorKind, selector, b, hb, rfl⟩ := h
    simp only [UdpBinding.ipv6, Outcome.dite_error_eq_ok, Except.ok.injEq] at hb
    obtain ⟨-, rfl⟩ := hb
    rfl
  | native =>
    obtain ⟨id, mac, -, rfl⟩ := h
    rfl

theorem writes_of_wellFormed (h : udpWellFormed x = true) : ∃ layout : BindingLayout,
    layout.Writes x := by
  simp only [udpWellFormed, decide_eq_true_eq] at h
  rcases h with ⟨hone, hfamily, hlen, hport, hkind⟩ | ⟨hone, hfamily, hlen, hport, hkind⟩
  · have hbytes := udpBytes_of_read (n := 4) hlen hone
    rw [hfamily] at hbytes
    exact ⟨.ipv4, _, _, _, _, _, dif_neg (by simp [hport, hkind]), hbytes⟩
  · have hbytes := udpBytes_of_read (n := 16) hlen hone
    rw [hfamily] at hbytes
    exact ⟨.ipv6, _, _, _, _, _, dif_neg (by simp [hport, hkind]), hbytes⟩

/-- Whatever parses was built in one of the three forms, and in no other. -/
theorem existsUnique (h : ObservedBinding.parse x = .ok v) :
    ∃! layout : BindingLayout, layout.Writes x := by
  have hwrites : ∃ layout : BindingLayout, layout.Writes x := by
    obtain ⟨rfl, hvalid⟩ := ObservedBinding.encode_parse h
    cases v with
    | udp b => exact writes_of_wellFormed b.wellFormed
    | native id mac => exact ⟨.native, id, mac, hvalid, rfl⟩
  obtain ⟨layout, hlayout⟩ := hwrites
  refine ⟨layout, hlayout, ?_⟩
  intro other hother
  rw [hother.front, hlayout.front]

end BindingLayout

/-- Messages and bindings are read back as they were written, and written as they were read; no byte
string is a binding in two forms, and no index or slice is out of bounds. -/
theorem codecs_exact :
    (∀ (m : SessionMessage) budget x, m.encode budget = .ok x →
      SessionMessage.decode x m.profile budget = .ok m) ∧
    (∀ x profile budget m, SessionMessage.decode x profile budget = .ok m →
      m.encode budget = .ok x) ∧
    (∀ v : ObservedBinding, v.validate = .ok () → ObservedBinding.parse v.encode = .ok v) ∧
    (∀ x v, ObservedBinding.parse x = .ok v → v.encode = x ∧ v.validate = .ok ()) ∧
    (∀ x v, ObservedBinding.parse x = .ok v → ∃! layout : BindingLayout, layout.Writes x) ∧
    (∀ x profile budget, SessionMessage.decode? x profile budget =
      some (SessionMessage.decode x profile budget)) ∧
    (∀ (m : SessionMessage) budget, m.encode? budget = some (m.encode budget)) ∧
    (∀ x, UdpBinding.parse? x = some (UdpBinding.parse x)) ∧
    ∀ x, ObservedBinding.parse? x = some (ObservedBinding.parse x) :=
  ⟨fun _ _ _ => SessionMessage.decode_encode, fun _ _ _ _ => SessionMessage.encode_decode,
    fun _ => ObservedBinding.parse_encode, fun _ _ => ObservedBinding.encode_parse,
    fun _ _ => BindingLayout.existsUnique, SessionMessage.decode?_eq, SessionMessage.encode?_eq,
    UdpBinding.parse?_eq, ObservedBinding.parse?_eq⟩

theorem codecs_exact_close :
    let m : SessionMessage := ⟨CLOSE, 3, u64Bytes 7 ++ List.replicate 18 0⟩
    let x := [CLOSE, SESSION_VERSION, 3, 0] ++ m.body
    let v : ObservedBinding := .native 9 ⟨[1, 2, 3, 4, 5, 6], rfl⟩
    (SessionMessage.decode x 3 30 = .ok m ∧ m.encode 30 = .ok x) ∧
      (ObservedBinding.parse v.encode = .ok v ∧ v.validate = .ok ()) ∧
      ∃! layout : BindingLayout, layout.Writes v.encode := by
  intro m x v
  obtain ⟨hread, hwrite, hparse, hencode, hlayout, -⟩ := codecs_exact
  have hm : m.encode 30 = .ok x := by decide +kernel
  have hv : ObservedBinding.parse v.encode = .ok v := hparse v (by decide +kernel)
  have hx := hread m 30 x hm
  exact ⟨⟨hx, hwrite x 3 30 m hx⟩, ⟨hv, (hencode v.encode v hv).2⟩, hlayout v.encode v hv⟩

end R8.Session
