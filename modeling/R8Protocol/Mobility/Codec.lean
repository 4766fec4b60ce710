import R8Protocol.Lib.Fields
import R8Protocol.Lib.Outcome
import R8Protocol.Mobility.Control
import R8Protocol.Wire.Inverse

/-! A control is read back from its own encoding, and nothing else is read as it. -/
namespace R8.Mobility.Control

open FixedWidth Wire Session

variable {b : List Byte} {c : Control} {n i j : ℕ}

/-- What `parse` asks of the fields it has decoded. -/
def WellFormed (c : Control) : Prop :=
  c.candidateId ≠ zeros 16 ∧ c.pathSlot ≤ 1 ∧ c.resultInRange

theorem encode_cons (c : Control) :
    c.encode = 82 :: 56 :: 77 :: 49 :: c.typ :: 1 :: 0 :: 0 :: c.body := rfl

theorem decode_encode (c : Control) : decode c.encode = .ok c := by
  rw [encode_cons]
  cases c with
  | locUpdate id oldLoc newLoc epoch notBeforeMs validForMs slot signature =>
    simp [decode, body, typ, LOC_UPDATE, drop_append_right]
  | bindProbe id loc epoch slot probeNonce =>
    simp [decode, body, typ, LOC_UPDATE, BIND_PROBE, drop_append_right]
  | bindChallenge id loc epoch slot expiryMs token =>
    simp [decode, body, typ, LOC_UPDATE, BIND_PROBE, BIND_CHALLENGE, drop_append_right]
  | bindResponse id loc epoch slot expiryMs token =>
    simp [decode, body, typ, LOC_UPDATE, BIND_PROBE, BIND_CHALLENGE, BIND_RESPONSE,
      drop_append_right]
  | candidateResult id epoch slot result =>
    simp [decode, body, typ, LOC_UPDATE, BIND_PROBE, BIND_CHALLENGE, BIND_RESPONSE,
      CANDIDATE_RESULT]

theorem parse_encode {c : Control} (h : c.WellFormed) : parse c.encode = .ok c := by
  obtain ⟨hid, hslot, hresult⟩ := h
  have hmagic : c.encode.take 4 = ascii "R8M1" := by
    rw [encode_cons]
    rfl
  have hlen : 8 ≤ c.encode.length := by simp [encode_cons]
  have hversion : byteAt c.encode 5 = 1 := by simp [encode_cons]
  have hreserved : slice c.encode 6 8 = [0, 0] := by
    rw [encode_cons]
    rfl
  have hdecode := decode_encode c
  simp [parse, hmagic, hlen, hversion, hreserved, hdecode, hid, hslot, hresult, bind, Except.bind]

/-- The shape `parse` asks of the bytes before it looks at the type. -/
structure Framed (b : List Byte) : Prop where
  length : 8 ≤ b.length
  magic : b.take 4 = ascii "R8M1"
  version : byteAt b 5 = 1
  reserved : slice b 6 8 = [0, 0]

theorem parse_eq_ok : parse b = .ok c ↔ Framed b ∧ decode b = .ok c ∧ c.WellFormed := by
  simp only [parse, Outcome.ite_error_eq_ok, Outcome.bind_eq_ok, Except.ok.injEq, not_or, not_lt,
    not_not]
  constructor
  · rintro ⟨⟨hlen, hmagic, hversion, hreserved⟩, control, hdecode, ⟨hid, hslot, hresult⟩, rfl⟩
    exact ⟨⟨hlen, hmagic, hversion, hreserved⟩, hdecode, hid, hslot, hresult⟩
  · rintro ⟨⟨hlen, hmagic, hversion, hreserved⟩, hdecode, hid, hslot, hresult⟩
    exact ⟨⟨hlen, hmagic, hversion, hreserved⟩, c, hdecode, ⟨hid, hslot, hresult⟩, rfl⟩

theorem wellFormed_of_parse (h : parse b = .ok c) : c.WellFormed := (parse_eq_ok.mp h).2.2

theorem resultInRange_iff : c.resultInRange ↔ ∀ id epoch slot result,
    c = .candidateResult id epoch slot result → result = 1 ∨ result = 2 ∨ result = 3 := by
  cases c with
  | candidateResult id epoch slot result =>
    simp only [resultInRange, decide_eq_true_eq, Control.candidateResult.injEq]
    constructor
    · rintro ⟨hlow, hhigh⟩ _ _ _ _ ⟨-, -, -, rfl⟩
      simp only [Fin.le_def, Fin.ext_iff] at *
      have h1 : (1 : Byte).val = 1 := rfl
      have h2 : (2 : Byte).val = 2 := rfl
      have h3 : (3 : Byte).val = 3 := rfl
      omega
    · intro h
      obtain rfl | rfl | rfl := h id epoch slot result ⟨rfl, rfl, rfl, rfl⟩ <;> decide
  | _ => simp [resultInRange]

theorem parse_encode_iff : parse c.encode = .ok c ↔ c.WellFormed :=
  ⟨wellFormed_of_parse, parse_encode⟩

/-- The five branches of the decoder, with what each has seen. -/
theorem decode_cases (h : decode b = .ok c) :
    (byteAt b 4 = LOC_UPDATE ∧ b.length = 145 ∧
      c = .locUpdate (arrayAt 16 b 8) (arrayAt 16 b 24) (arrayAt 16 b 40) (u64Of (b.drop 56))
        (u64Of (b.drop 64)) (u64Of (b.drop 72)) (byteAt b 80) (arrayAt 64 b 81)) ∨
    (byteAt b 4 = BIND_PROBE ∧ b.length = 65 ∧
      c = .bindProbe (arrayAt 16 b 8) (arrayAt 16 b 24) (u64Of (b.drop 40)) (byteAt b 48)
        (arrayAt 16 b 49)) ∨
    (byteAt b 4 = BIND_CHALLENGE ∧ b.length = 89 ∧
      c = .bindChallenge (arrayAt 16 b 8) (arrayAt 16 b 24) (u64Of (b.drop 40)) (byteAt b 48)
        (u64Of (b.drop 49)) (arrayAt 32 b 57)) ∨
    (byteAt b 4 = BIND_RESPONSE ∧ b.length = 89 ∧
      c = .bindResponse (arrayAt 16 b 8) (arrayAt 16 b 24) (u64Of (b.drop 40)) (byteAt b 48)
        (u64Of (b.drop 49)) (arrayAt 32 b 57)) ∨
    (byteAt b 4 = CANDIDATE_RESULT ∧ b.length = 34 ∧
      c = .candidateResult (arrayAt 16 b 8) (u64Of (b.drop 24)) (byteAt b 32) (byteAt b 33)) := by
  unfold decode at h
  split_ifs at h with hupdate hprobe hchallenge hresponse hresult
  · exact .inl ⟨hupdate.1, hupdate.2, (Except.ok.inj h).symm⟩
  · exact .inr (.inl ⟨hprobe.1, hprobe.2, (Except.ok.inj h).symm⟩)
  · exact .inr (.inr (.inl ⟨hchallenge.1, hchallenge.2, (Except.ok.inj h).symm⟩))
  · exact .inr (.inr (.inr (.inl ⟨hresponse.1, hresponse.2, (Except.ok.inj h).symm⟩)))
  · exact .inr (.inr (.inr (.inr ⟨hresult.1, hresult.2, (Except.ok.inj h).symm⟩)))

theorem arrayAt_append_drop (hj : j = i + n) (h : j ≤ b.length) :
    (arrayAt n b i).val ++ b.drop j = b.drop i := by
  subst hj
  rw [arrayAt_val h, slice_append_drop (by omega)]

theorem arrayAt_eq_drop (h : b.length = i + n) : (arrayAt n b i).val = b.drop i := by
  have hend := arrayAt_append_drop (j := i + n) rfl h.ge
  rwa [← h, List.drop_length, List.append_nil] at hend

theorem u64Of_append_drop (hj : j = i + 8) (h : j ≤ b.length) :
    u64Bytes (u64Of (b.drop i)) ++ b.drop j = b.drop i := by
  have hlen : 8 ≤ (b.drop i).length := by
    rw [List.length_drop]
    omega
  have hslice : (b.drop i).take 8 = slice b i j := by
    subst hj
    rw [slice, Nat.add_sub_cancel_left]
  rw [u64Bytes_u64Of hlen, hslice, slice_append_drop (by omega)]

theorem byte_append_drop (hj : j = i + 1) (h : j ≤ b.length) :
    [byteAt b i] ++ b.drop j = b.drop i := by
  subst hj
  exact byteAt_cons_drop h

theorem challengeBody_eq_drop (hlen : b.length = 89) :
    (arrayAt 16 b 8).val ++ ((arrayAt 16 b 24).val ++ (u64Bytes (u64Of (b.drop 40)) ++
      ([byteAt b 48] ++ (u64Bytes (u64Of (b.drop 49)) ++ (arrayAt 32 b 57).val)))) = b.drop 8 := by
  rw [arrayAt_eq_drop (i := 57) hlen, u64Of_append_drop rfl (by omega),
    byte_append_drop rfl (by omega), u64Of_append_drop rfl (by omega), arrayAt_append_drop rfl (by omega),
    arrayAt_append_drop rfl (by omega)]

/-- The fields are written back at the offsets they were read from. -/
theorem body_of_decode (h : decode b = .ok c) : c.typ = byteAt b 4 ∧ c.body = b.drop 8 := by
  obtain ⟨htyp, hlen, rfl⟩ | ⟨htyp, hlen, rfl⟩ | ⟨htyp, hlen, rfl⟩ | ⟨htyp, hlen, rfl⟩ |
    ⟨htyp, hlen, rfl⟩ := decode_cases h
  · refine ⟨htyp.symm, ?_⟩
    simp only [body, List.append_assoc]
    rw [arrayAt_eq_drop (i := 81) hlen, byte_append_drop rfl (by omega),
      u64Of_append_drop rfl (by omega), u64Of_append_drop rfl (by omega), u64Of_append_drop rfl (by omega),
      arrayAt_append_drop rfl (by omega), arrayAt_append_drop rfl (by omega),
      arrayAt_append_drop rfl (by omega)]
  · refine ⟨htyp.symm, ?_⟩
    simp only [body, List.append_assoc]
    rw [arrayAt_eq_drop (i := 49) hlen, byte_append_drop rfl (by omega),
      u64Of_append_drop rfl (by omega), arrayAt_append_drop rfl (by omega), arrayAt_append_drop rfl (by omega)]
  · refine ⟨htyp.symm, ?_⟩
    simp only [body, List.append_assoc]
    exact challengeBody_eq_drop hlen
  · refine ⟨htyp.symm, ?_⟩
    simp only [body, List.append_assoc]
    exact challengeBody_eq_drop hlen
  · refine ⟨htyp.symm, ?_⟩
    have hresult : [byteAt b 32, byteAt b 33] = b.drop 32 := by
      have hend := byte_append_drop (i := 33) (j := 34) rfl hlen.ge
      rw [← hlen, List.drop_length, List.append_nil] at hend
      rw [← byte_append_drop (b := b) (i := 32) rfl (by omega), ← hend]
      rfl
    simp only [body, List.append_assoc]
    rw [hresult, u64Of_append_drop rfl (by omega), arrayAt_append_drop rfl (by omega)]

theorem encode_of_parse (h : parse b = .ok c) : c.encode = b := by
  obtain ⟨⟨hlen, hmagic, hversion, hreserved⟩, hdecode, -⟩ := parse_eq_ok.mp h
  obtain ⟨htyp, hbody⟩ := body_of_decode hdecode
  calc c.encode = b.take 4 ++ ([byteAt b 4] ++ ([byteAt b 5] ++ (slice b 6 8 ++ b.drop 8))) := by
        rw [encode, htyp, hbody, hmagic, hversion, hreserved]
        rfl
    _ = b.take 4 ++ b.drop 4 := by
        rw [slice_append_drop (by omega), byte_append_drop rfl (by omega),
          byte_append_drop rfl (by omega)]
    _ = b := List.take_append_drop 4 b

/-- Reading with every index checked: `none` is an index out of bounds, an error the parser's own. -/
abbrev Checked := ExceptT MobilityError Option

def index (b : List Byte) (i : ℕ) : Checked Byte := ExceptT.lift b[i]?

def range (b : List Byte) (i j : ℕ) : Checked (List Byte) :=
  ExceptT.lift (if i ≤ j ∧ j ≤ b.length then some (slice b i j) else none)

def toArray (n : ℕ) (l : List Byte) : Checked (Bytes n) :=
  if h : l.length = n then pure ⟨l, h⟩ else throw .candidate

/-- Through `get`, so that what is not there is an error. -/
def a16 (b : List Byte) (offset : ℕ) : Checked (Bytes 16) :=
  if offset + 16 ≤ b.length then pure (arrayAt 16 b offset) else throw .candidate

def u64at (b : List Byte) (offset : ℕ) : Checked U64 :=
  if offset + 8 ≤ b.length then pure (u64Of (b.drop offset)) else throw .candidate

def decodeChecked (b : List Byte) : Checked Control := do
  let typ ← index b 4
  if typ = LOC_UPDATE ∧ b.length = 145 then
    let id ← a16 b 8
    let oldLoc ← a16 b 24
    let newLoc ← a16 b 40
    let epoch ← u64at b 56
    let notBeforeMs ← u64at b 64
    let validForMs ← u64at b 72
    let slot ← index b 80
    let signature ← toArray 64 (← range b 81 145)
    return .locUpdate id oldLoc newLoc epoch notBeforeMs validForMs slot signature
  else if typ = BIND_PROBE ∧ b.length = 65 then
    let id ← a16 b 8
    let loc ← a16 b 24
    let epoch ← u64at b 40
    let slot ← index b 48
    let probeNonce ← a16 b 49
    return .bindProbe id loc epoch slot probeNonce
  else if typ = BIND_CHALLENGE ∧ b.length = 89 ∨ typ = BIND_RESPONSE ∧ b.length = 89 then
    let id ← a16 b 8
    let loc ← a16 b 24
    let epoch ← u64at b 40
    let slot ← index b 48
    let expiry ← u64at b 49
    let token ← toArray 32 (← range b 57 89)
    if (← index b 4) = BIND_CHALLENGE then return .bindChallenge id loc epoch slot expiry token
    else return .bindResponse id loc epoch slot expiry token
  else if typ = CANDIDATE_RESULT ∧ b.length = 34 then
    let id ← a16 b 8
    let epoch ← u64at b 24
    let slot ← index b 32
    let result ← index b 33
    return .candidateResult id epoch slot result
  else throw .candidate

/-- The whole parser, index by index. -/
def parseChecked (b : List Byte) : Checked Control := do
  if b.length < 8 then throw .candidate
  else if (← range b 0 4) ≠ ascii "R8M1" then throw .candidate
  else if (← index b 5) ≠ 1 then throw .candidate
  else if (← range b 6 8) ≠ [0, 0] then throw .candidate
  else
    let control ← decodeChecked b
    if control.candidateId = zeros 16 ∨ 1 < control.pathSlot ∨ ¬ control.resultInRange then
      throw .candidate
    else return control

/-- A result that no index has stopped. -/
def reached (r : Except MobilityError Control) : Checked Control := ExceptT.mk (some r)

theorem index_eq (h : i < b.length) : index b i = pure (byteAt b i) := by
  have hget : b[i]? = some (byteAt b i) := by
    rw [byteAt, List.getD_eq_getElem?_getD, List.getElem?_eq_getElem h, Option.getD_some]
  rw [index, hget]
  rfl

theorem range_eq (hij : i ≤ j) (hj : j ≤ b.length) : range b i j = pure (slice b i j) := by
  rw [range, if_pos ⟨hij, hj⟩]
  rfl

theorem a16_eq (h : i + 16 ≤ b.length) : a16 b i = pure (arrayAt 16 b i) := if_pos h

theorem u64at_eq (h : i + 8 ≤ b.length) : u64at b i = pure (u64Of (b.drop i)) := if_pos h

theorem toArray_eq (hj : j = i + n) (h : j ≤ b.length) :
    toArray n (slice b i j) = pure (arrayAt n b i) := by
  subst hj
  have hlen : (slice b i (i + n)).length = n := by
    rw [slice_length]
    omega
  rw [toArray, dif_pos hlen]
  congr 1
  exact Subtype.ext (arrayAt_val h).symm

/-- After the type and the length every index is in bounds. -/
theorem decodeChecked_eq (h : 8 ≤ b.length) : decodeChecked b = reached (decode b) := by
  unfold decodeChecked decode
  rw [index_eq (by omega), pure_bind]
  by_cases hupdate : byteAt b 4 = LOC_UPDATE ∧ b.length = 145
  · have hlen := hupdate.2
    simp (disch := omega) only [if_pos hupdate, a16_eq, u64at_eq, index_eq, range_eq, toArray_eq,
      pure_bind]
    rfl
  by_cases hprobe : byteAt b 4 = BIND_PROBE ∧ b.length = 65
  · have hlen := hprobe.2
    simp (disch := omega) only [if_neg hupdate, if_pos hprobe, a16_eq, u64at_eq, index_eq,
      pure_bind]
    rfl
  by_cases hchallenge : byteAt b 4 = BIND_CHALLENGE ∧ b.length = 89
  · have hlen := hchallenge.2
    simp (disch := omega) only [if_neg hupdate, if_neg hprobe, if_pos hchallenge,
      if_pos (Or.inl (b := byteAt b 4 = BIND_RESPONSE ∧ b.length = 89) hchallenge), a16_eq,
      u64at_eq, index_eq, range_eq, toArray_eq, pure_bind, if_pos hchallenge.1]
    rfl
  by_cases hresponse : byteAt b 4 = BIND_RESPONSE ∧ b.length = 89
  · have hlen := hresponse.2
    have htyp : byteAt b 4 ≠ BIND_CHALLENGE := fun heq => hchallenge ⟨heq, hlen⟩
    simp (disch := omega) only [if_neg hupdate, if_neg hprobe, if_neg hchallenge,
      if_pos hresponse, if_pos (Or.inr (a := byteAt b 4 = BIND_CHALLENGE ∧ b.length = 89) hresponse),
      a16_eq, u64at_eq, index_eq, range_eq, toArray_eq, pure_bind, if_neg htyp]
    rfl
  have hneither := not_or.mpr ⟨hchallenge, hresponse⟩
  by_cases hresult : byteAt b 4 = CANDIDATE_RESULT ∧ b.length = 34
  · have hlen := hresult.2
    simp (disch := omega) only [if_neg hupdate, if_neg hprobe, if_neg hchallenge,
      if_neg hresponse, if_neg hneither, if_pos hresult, a16_eq, u64at_eq, index_eq, pure_bind]
    rfl
  · simp only [if_neg hupdate, if_neg hprobe, if_neg hchallenge, if_neg hresponse,
      if_neg hneither, if_neg hresult]
    rfl

/-- No index is out of bounds, whatever the length of the input. -/
theorem parseChecked_eq (b : List Byte) : parseChecked b = reached (parse b) := by
  unfold parseChecked parse
  by_cases hlen : b.length < 8
  · rw [if_pos hlen, if_pos (.inl hlen)]
    rfl
  rw [if_neg hlen, range_eq (by omega) (by omega), pure_bind]
  by_cases hmagic : b.take 4 ≠ ascii "R8M1"
  · rw [if_pos (by simpa [slice] using hmagic), if_pos (.inr (.inl hmagic))]
    rfl
  rw [if_neg (by simpa [slice] using hmagic), index_eq (by omega), pure_bind]
  by_cases hversion : byteAt b 5 ≠ 1
  · rw [if_pos hversion, if_pos (.inr (.inr (.inl hversion)))]
    rfl
  rw [if_neg hversion, range_eq (by omega) (by omega), pure_bind]
  by_cases hreserved : slice b 6 8 ≠ [0, 0]
  · rw [if_pos hreserved, if_pos (.inr (.inr (.inr hreserved)))]
    rfl
  rw [if_neg hreserved, if_neg (by tauto), decodeChecked_eq (by omega)]
  cases decode b with
  | error e => rfl
  | ok control =>
    change (if control.candidateId = zeros 16 ∨ 1 < control.pathSlot ∨ ¬ control.resultInRange then
      throw .candidate else pure control : Checked Control) = reached (if _ then _ else _)
    split
    · rfl
    · rfl

/-- The codec is exact: what is well formed is read back from its encoding and nothing else is, an
accepted string is the encoding of what was read, and no index is out of bounds. -/
theorem codec_exact :
    (∀ c : Control, parse c.encode = .ok c ↔ c.candidateId ≠ zeros 16 ∧ c.pathSlot ≤ 1 ∧
      ∀ id epoch slot result, c = .candidateResult id epoch slot result →
        result = 1 ∨ result = 2 ∨ result = 3) ∧
    (∀ b c, parse b = .ok c → c.encode = b) ∧
    ∀ b, (parseChecked b).run = some (parse b) := by
  refine ⟨fun c => ?_, fun b c h => encode_of_parse h, fun b => ?_⟩
  · rw [parse_encode_iff, WellFormed, resultInRange_iff]
  · rw [parseChecked_eq]
    rfl

end R8.Mobility.Control
