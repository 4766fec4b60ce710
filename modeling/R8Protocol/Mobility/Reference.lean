import R8Protocol.Mobility.Codec

/-! The reference implementation's parser of mobility controls, against the one used here. -/
namespace R8.Reference

open FixedWidth Wire Session Mobility

structure LocUpdate where
  candidateId : Bytes 16
  oldLoc : Loc
  newLoc : Loc
  epoch : U64
  notBefore : U64
  validFor : U64
  slot : Byte
  signature : Bytes 64

structure Probe where
  candidateId : Bytes 16
  loc : Loc
  epoch : U64
  slot : Byte
  nonce : Bytes 16

/-- A challenge or a response, by its type. -/
structure Challenge where
  candidateId : Bytes 16
  loc : Loc
  epoch : U64
  slot : Byte
  expiry : U64
  token : Bytes 32
  typ : Byte

structure Result where
  candidateId : Bytes 16
  epoch : U64
  slot : Byte
  result : Byte

inductive Parsed
  | locUpdate (obj : LocUpdate)
  | probe (obj : Probe)
  | challenge (obj : Challenge)
  | result (obj : Result)

/-- `_fail` unless the condition holds. -/
def require (p : Prop) [Decidable p] : Except MobilityError Unit :=
  if p then .ok () else .error .candidate

def requireCid (value : Bytes 16) : Except MobilityError Unit := require (value ≠ zeros 16)

def requireNonzero (value : U64) : Except MobilityError Unit := require (value ≠ 0)

/-- `_slot` of the source. -/
def requireSlot (profile value : Byte) : Except MobilityError Unit :=
  require ((value = 0 ∨ value = 1) ∧ (profile = 3 ↔ value = 1))

def requireEitherSlot (value : Byte) : Except MobilityError Unit := require (value = 0 ∨ value = 1)

/-- The body behind an envelope of exactly this type and length. -/
def envelopeBody (b : List Byte) (typ : Byte) (total : ℕ) : Except MobilityError (List Byte) := do
  require (b.length = total)
  require (b.take 4 = ascii "R8M1" ∧ byteAt b 4 = typ ∧ byteAt b 5 = 1 ∧ slice b 6 8 = [0, 0])
  .ok (b.drop 8)

def LocUpdate.parse (b : List Byte) : Except MobilityError LocUpdate := do
  let body ← envelopeBody b 1 145
  let obj : LocUpdate := ⟨arrayAt 16 body 0, arrayAt 16 body 16, arrayAt 16 body 32,
    u64Of (body.drop 48), u64Of (body.drop 56), u64Of (body.drop 64), byteAt body 72,
    arrayAt 64 body 73⟩
  requireCid obj.candidateId
  requireNonzero obj.epoch
  requireSlot (if obj.slot = 0 then 0 else 3) obj.slot
  require (obj.notBefore = 0 ∧ obj.validFor = 5000)
  .ok obj

def Probe.parse (b : List Byte) : Except MobilityError Probe := do
  let body ← envelopeBody b 2 65
  let obj : Probe := ⟨arrayAt 16 body 0, arrayAt 16 body 16, u64Of (body.drop 32), byteAt body 40,
    arrayAt 16 body 41⟩
  requireCid obj.candidateId
  requireNonzero obj.epoch
  requireEitherSlot obj.slot
  .ok obj

def Challenge.parse (b : List Byte) (typ : Byte) : Except MobilityError Challenge := do
  let body ← envelopeBody b typ 89
  let obj : Challenge := ⟨arrayAt 16 body 0, arrayAt 16 body 16, u64Of (body.drop 32),
    byteAt body 40, u64Of (body.drop 41), arrayAt 32 body 49, typ⟩
  requireCid obj.candidateId
  requireNonzero obj.epoch
  requireNonzero obj.expiry
  requireEitherSlot obj.slot
  .ok obj

/-- The checks of `build`, which `parse` runs on what it has read. -/
def Result.check (obj : Result) : Except MobilityError Unit := do
  requireCid obj.candidateId
  requireNonzero obj.epoch
  require ((obj.slot = 0 ∨ obj.slot = 1) ∧ (obj.result = 1 ∨ obj.result = 2 ∨ obj.result = 3))

def Result.parse (b : List Byte) : Except MobilityError Result := do
  let body ← envelopeBody b 5 34
  let obj : Result := ⟨arrayAt 16 body 0, u64Of (body.drop 16), byteAt body 24, byteAt body 25⟩
  obj.check
  .ok obj

def parseControl (b : List Byte) : Except MobilityError Parsed := do
  require (8 ≤ b.length ∧ b.take 4 = ascii "R8M1")
  if byteAt b 4 = 1 then .locUpdate <$> LocUpdate.parse b
  else if byteAt b 4 = 2 then .probe <$> Probe.parse b
  else if byteAt b 4 = 3 then .challenge <$> Challenge.parse b 3
  else if byteAt b 4 = 4 then .challenge <$> Challenge.parse b 4
  else if byteAt b 4 = 5 then .result <$> Result.parse b
  else .error .candidate

/-- The same message type and the same value for every field. -/
inductive Same : Parsed → Control → Prop
  | locUpdate (id : Bytes 16) (oldLoc newLoc : Loc) (epoch notBefore validFor : U64) (slot : Byte)
      (signature : Bytes 64) :
      Same (.locUpdate ⟨id, oldLoc, newLoc, epoch, notBefore, validFor, slot, signature⟩)
        (.locUpdate id oldLoc newLoc epoch notBefore validFor slot signature)
  | probe (id : Bytes 16) (loc : Loc) (epoch : U64) (slot : Byte) (nonce : Bytes 16) :
      Same (.probe ⟨id, loc, epoch, slot, nonce⟩) (.bindProbe id loc epoch slot nonce)
  | challenge (id : Bytes 16) (loc : Loc) (epoch : U64) (slot : Byte) (expiry : U64)
      (token : Bytes 32) :
      Same (.challenge ⟨id, loc, epoch, slot, expiry, token, 3⟩)
        (.bindChallenge id loc epoch slot expiry token)
  | response (id : Bytes 16) (loc : Loc) (epoch : U64) (slot : Byte) (expiry : U64)
      (token : Bytes 32) :
      Same (.challenge ⟨id, loc, epoch, slot, expiry, token, 4⟩)
        (.bindResponse id loc epoch slot expiry token)
  | result (id : Bytes 16) (epoch : U64) (slot result : Byte) :
      Same (.result ⟨id, epoch, slot, result⟩) (.candidateResult id epoch slot result)

/-- What the reference parser asks of the fields beyond the other: the checks which there are left
to the manager. -/
def Strict : Control → Prop
  | .locUpdate _ _ _ epoch notBeforeMs validForMs _ _ =>
    epoch ≠ 0 ∧ notBeforeMs = 0 ∧ validForMs = 5000
  | .bindProbe _ _ epoch _ _ | .candidateResult _ epoch _ _ => epoch ≠ 0
  | .bindChallenge _ _ epoch _ expiryMs _ | .bindResponse _ _ epoch _ expiryMs _ =>
    epoch ≠ 0 ∧ expiryMs ≠ 0

variable {b : List Byte} {c : Control}

theorem require_eq_ok {p : Prop} [Decidable p] {u : Unit} : require p = .ok u ↔ p := by
  by_cases hp : p <;> simp [require, hp]

theorem byteAt_drop (b : List Byte) (i j : ℕ) : byteAt (b.drop i) j = byteAt b (i + j) := by
  simp [byteAt, List.getD_eq_getElem?_getD]

theorem arrayAt_drop (n : ℕ) (b : List Byte) (i j : ℕ) :
    arrayAt n (b.drop i) j = arrayAt n b (i + j) := by
  apply Subtype.ext
  simp only [arrayAt, slice, List.drop_drop, Nat.add_assoc, Nat.add_sub_cancel_left,
    Nat.add_sub_add_left]

theorem eitherSlot_iff {value : Byte} : (value = 0 ∨ value = 1) ↔ value ≤ 1 := by
  simp only [Fin.ext_iff, Fin.le_def]
  have hone : (1 : Byte).val = 1 := rfl
  have hzero : (0 : Byte).val = 0 := rfl
  omega

theorem result_iff {value : Byte} :
    (value = 1 ∨ value = 2 ∨ value = 3) ↔ 1 ≤ value ∧ value ≤ 3 := by
  simp only [Fin.ext_iff, Fin.le_def]
  have hone : (1 : Byte).val = 1 := rfl
  have htwo : (2 : Byte).val = 2 := rfl
  have hthree : (3 : Byte).val = 3 := rfl
  omega

theorem requireSlot_eq_ok {value : Byte} {u : Unit} :
    requireSlot (if value = 0 then 0 else 3) value = .ok u ↔ value ≤ 1 := by
  rw [requireSlot, require_eq_ok, ← eitherSlot_iff]
  by_cases hzero : value = 0
  · simp [hzero]
  · simp [hzero]

/-- The envelope is the framing, with the type and the length it names. -/
theorem envelopeBody_eq_ok {typ : Byte} {total : ℕ} {body : List Byte} (htotal : 8 ≤ total) :
    envelopeBody b typ total = .ok body ↔
      Control.Framed b ∧ byteAt b 4 = typ ∧ b.length = total ∧ body = b.drop 8 := by
  simp only [envelopeBody, Outcome.bind_eq_ok, require_eq_ok, Except.ok.injEq]
  constructor
  · rintro ⟨⟨⟩, hlen, ⟨⟩, ⟨hmagic, htyp, hversion, hreserved⟩, rfl⟩
    exact ⟨⟨by omega, hmagic, hversion, hreserved⟩, htyp, hlen, rfl⟩
  · rintro ⟨⟨-, hmagic, hversion, hreserved⟩, htyp, hlen, rfl⟩
    exact ⟨(), hlen, (), ⟨hmagic, htyp, hversion, hreserved⟩, rfl⟩

theorem LocUpdate.parse_eq_ok {obj : LocUpdate} : LocUpdate.parse b = .ok obj ↔
    Control.Framed b ∧ byteAt b 4 = 1 ∧ b.length = 145 ∧
      obj = ⟨arrayAt 16 b 8, arrayAt 16 b 24, arrayAt 16 b 40, u64Of (b.drop 56),
        u64Of (b.drop 64), u64Of (b.drop 72), byteAt b 80, arrayAt 64 b 81⟩ ∧
      obj.candidateId ≠ zeros 16 ∧ obj.epoch ≠ 0 ∧ obj.slot ≤ 1 ∧ obj.notBefore = 0 ∧
      obj.validFor = 5000 := by
  simp only [LocUpdate.parse, Outcome.bind_eq_ok, envelopeBody_eq_ok (show 8 ≤ 145 by omega), requireCid,
    requireNonzero, require_eq_ok, requireSlot_eq_ok, Except.ok.injEq]
  constructor
  · rintro ⟨body, ⟨hframed, htyp, hlen, rfl⟩, ⟨⟩, hid, ⟨⟩, hepoch, ⟨⟩, hslot, ⟨⟩, hfixed, rfl⟩
    simp only [arrayAt_drop, byteAt_drop, List.drop_drop] at hid hepoch hslot hfixed ⊢
    exact ⟨hframed, htyp, hlen, trivial, hid, hepoch, hslot, hfixed⟩
  · rintro ⟨hframed, htyp, hlen, rfl, hid, hepoch, hslot, hfixed⟩
    refine ⟨b.drop 8, ⟨hframed, htyp, hlen, rfl⟩, ?_⟩
    simp only [arrayAt_drop, byteAt_drop, List.drop_drop]
    exact ⟨(), hid, (), hepoch, (), hslot, (), hfixed, trivial⟩

theorem Probe.parse_eq_ok {obj : Probe} : Probe.parse b = .ok obj ↔
    Control.Framed b ∧ byteAt b 4 = 2 ∧ b.length = 65 ∧
      obj = ⟨arrayAt 16 b 8, arrayAt 16 b 24, u64Of (b.drop 40), byteAt b 48, arrayAt 16 b 49⟩ ∧
      obj.candidateId ≠ zeros 16 ∧ obj.epoch ≠ 0 ∧ obj.slot ≤ 1 := by
  simp only [Probe.parse, Outcome.bind_eq_ok, envelopeBody_eq_ok (show 8 ≤ 65 by omega), requireCid,
    requireNonzero, requireEitherSlot, require_eq_ok, eitherSlot_iff, Except.ok.injEq]
  constructor
  · rintro ⟨body, ⟨hframed, htyp, hlen, rfl⟩, ⟨⟩, hid, ⟨⟩, hepoch, ⟨⟩, hslot, rfl⟩
    simp only [arrayAt_drop, byteAt_drop, List.drop_drop] at hid hepoch hslot ⊢
    exact ⟨hframed, htyp, hlen, trivial, hid, hepoch, hslot⟩
  · rintro ⟨hframed, htyp, hlen, rfl, hid, hepoch, hslot⟩
    refine ⟨b.drop 8, ⟨hframed, htyp, hlen, rfl⟩, ?_⟩
    simp only [arrayAt_drop, byteAt_drop, List.drop_drop]
    exact ⟨(), hid, (), hepoch, (), hslot, trivial⟩

theorem Challenge.parse_eq_ok {typ : Byte} {obj : Challenge} : Challenge.parse b typ = .ok obj ↔
    Control.Framed b ∧ byteAt b 4 = typ ∧ b.length = 89 ∧
      obj = ⟨arrayAt 16 b 8, arrayAt 16 b 24, u64Of (b.drop 40), byteAt b 48, u64Of (b.drop 49),
        arrayAt 32 b 57, typ⟩ ∧
      obj.candidateId ≠ zeros 16 ∧ obj.epoch ≠ 0 ∧ obj.expiry ≠ 0 ∧ obj.slot ≤ 1 := by
  simp only [Challenge.parse, Outcome.bind_eq_ok, envelopeBody_eq_ok (show 8 ≤ 89 by omega), requireCid,
    requireNonzero, requireEitherSlot, require_eq_ok, eitherSlot_iff, Except.ok.injEq]
  constructor
  · rintro ⟨body, ⟨hframed, htyp, hlen, rfl⟩, ⟨⟩, hid, ⟨⟩, hepoch, ⟨⟩, hexpiry, ⟨⟩, hslot, rfl⟩
    simp only [arrayAt_drop, byteAt_drop, List.drop_drop] at hid hepoch hexpiry hslot ⊢
    exact ⟨hframed, htyp, hlen, trivial, hid, hepoch, hexpiry, hslot⟩
  · rintro ⟨hframed, htyp, hlen, rfl, hid, hepoch, hexpiry, hslot⟩
    refine ⟨b.drop 8, ⟨hframed, htyp, hlen, rfl⟩, ?_⟩
    simp only [arrayAt_drop, byteAt_drop, List.drop_drop]
    exact ⟨(), hid, (), hepoch, (), hexpiry, (), hslot, trivial⟩

theorem Result.parse_eq_ok {obj : Result} : Result.parse b = .ok obj ↔
    Control.Framed b ∧ byteAt b 4 = 5 ∧ b.length = 34 ∧
      obj = ⟨arrayAt 16 b 8, u64Of (b.drop 24), byteAt b 32, byteAt b 33⟩ ∧
      obj.candidateId ≠ zeros 16 ∧ obj.epoch ≠ 0 ∧ obj.slot ≤ 1 ∧
      (1 ≤ obj.result ∧ obj.result ≤ 3) := by
  simp only [Result.parse, Result.check, Outcome.bind_eq_ok,
    envelopeBody_eq_ok (show 8 ≤ 34 by omega), requireCid, requireNonzero, require_eq_ok,
    eitherSlot_iff,
    result_iff, Except.ok.injEq]
  constructor
  · rintro ⟨body, ⟨hframed, htyp, hlen, rfl⟩, ⟨⟩, ⟨⟨⟩, hid, ⟨⟩, hepoch, hslot, hresult⟩, rfl⟩
    simp only [arrayAt_drop, byteAt_drop, List.drop_drop] at hid hepoch hslot hresult ⊢
    exact ⟨hframed, htyp, hlen, trivial, hid, hepoch, hslot, hresult⟩
  · rintro ⟨hframed, htyp, hlen, rfl, hid, hepoch, hslot, hresult⟩
    refine ⟨b.drop 8, ⟨hframed, htyp, hlen, rfl⟩, ?_⟩
    simp only [arrayAt_drop, byteAt_drop, List.drop_drop]
    exact ⟨(), ⟨(), hid, (), hepoch, hslot, hresult⟩, trivial⟩

/-- A message that the reference parser reads is one that is read here, with the same fields. -/
theorem parse_of_parseControl {p : Parsed} (h : parseControl b = .ok p) :
    ∃ c, Control.parse b = .ok c ∧ Strict c ∧ Same p c := by
  simp only [parseControl, Outcome.bind_eq_ok, require_eq_ok] at h
  obtain ⟨⟨⟩, -, h⟩ := h
  split_ifs at h with hupdate hprobe hchallenge hresponse hresult
  · obtain ⟨obj, hobj, rfl⟩ := Outcome.map_eq_ok.mp h
    obtain ⟨hframed, htyp, hlen, rfl, hid, hepoch, hslot, hfixed⟩ := LocUpdate.parse_eq_ok.mp hobj
    refine ⟨_, Control.parse_eq_ok.mpr ⟨hframed, if_pos ⟨htyp, hlen⟩, hid, hslot, rfl⟩, ?_, .locUpdate ..⟩
    exact ⟨hepoch, hfixed⟩
  · obtain ⟨obj, hobj, rfl⟩ := Outcome.map_eq_ok.mp h
    obtain ⟨hframed, htyp, hlen, rfl, hid, hepoch, hslot⟩ := Probe.parse_eq_ok.mp hobj
    have hdecode : Control.decode b = .ok (.bindProbe (arrayAt 16 b 8) (arrayAt 16 b 24)
        (u64Of (b.drop 40)) (byteAt b 48) (arrayAt 16 b 49)) := by
      simp [Control.decode, htyp, hlen, LOC_UPDATE, BIND_PROBE]
    exact ⟨_, Control.parse_eq_ok.mpr ⟨hframed, hdecode, hid, hslot, rfl⟩, hepoch, .probe ..⟩
  · obtain ⟨obj, hobj, rfl⟩ := Outcome.map_eq_ok.mp h
    obtain ⟨hframed, htyp, hlen, rfl, hid, hepoch, hexpiry, hslot⟩ := Challenge.parse_eq_ok.mp hobj
    have hdecode : Control.decode b = .ok (.bindChallenge (arrayAt 16 b 8) (arrayAt 16 b 24)
        (u64Of (b.drop 40)) (byteAt b 48) (u64Of (b.drop 49)) (arrayAt 32 b 57)) := by
      simp [Control.decode, htyp, hlen, LOC_UPDATE, BIND_PROBE, BIND_CHALLENGE]
    exact ⟨_, Control.parse_eq_ok.mpr ⟨hframed, hdecode, hid, hslot, rfl⟩, ⟨hepoch, hexpiry⟩,
      .challenge ..⟩
  · obtain ⟨obj, hobj, rfl⟩ := Outcome.map_eq_ok.mp h
    obtain ⟨hframed, htyp, hlen, rfl, hid, hepoch, hexpiry, hslot⟩ := Challenge.parse_eq_ok.mp hobj
    have hdecode : Control.decode b = .ok (.bindResponse (arrayAt 16 b 8) (arrayAt 16 b 24)
        (u64Of (b.drop 40)) (byteAt b 48) (u64Of (b.drop 49)) (arrayAt 32 b 57)) := by
      simp [Control.decode, htyp, hlen, LOC_UPDATE, BIND_PROBE, BIND_CHALLENGE, BIND_RESPONSE]
    exact ⟨_, Control.parse_eq_ok.mpr ⟨hframed, hdecode, hid, hslot, rfl⟩, ⟨hepoch, hexpiry⟩,
      .response ..⟩
  · obtain ⟨obj, hobj, rfl⟩ := Outcome.map_eq_ok.mp h
    obtain ⟨hframed, htyp, hlen, rfl, hid, hepoch, hslot, hrange⟩ := Result.parse_eq_ok.mp hobj
    have hdecode : Control.decode b = .ok (.candidateResult (arrayAt 16 b 8) (u64Of (b.drop 24))
        (byteAt b 32) (byteAt b 33)) := by
      simp [Control.decode, htyp, hlen, LOC_UPDATE, BIND_PROBE, BIND_CHALLENGE, BIND_RESPONSE,
        CANDIDATE_RESULT]
    refine ⟨_, Control.parse_eq_ok.mpr ⟨hframed, hdecode, hid, hslot, ?_⟩, hepoch, .result ..⟩
    simpa [Control.resultInRange] using hrange

theorem parseControl_of_parse (h : Control.parse b = .ok c) (hstrict : Strict c) :
    ∃ p, parseControl b = .ok p ∧ Same p c := by
  obtain ⟨hframed, hdecode, hid, hslot, hresult⟩ := Control.parse_eq_ok.mp h
  have hgate : require (8 ≤ b.length ∧ b.take 4 = ascii "R8M1") = .ok () :=
    require_eq_ok.mpr ⟨hframed.length, hframed.magic⟩
  obtain ⟨htyp, hlen, rfl⟩ | ⟨htyp, hlen, rfl⟩ | ⟨htyp, hlen, rfl⟩ | ⟨htyp, hlen, rfl⟩ |
    ⟨htyp, hlen, rfl⟩ := Control.decode_cases hdecode
  · have hparse := LocUpdate.parse_eq_ok.mpr
      ⟨hframed, htyp, hlen, rfl, hid, hstrict.1, hslot, hstrict.2⟩
    refine ⟨_, ?_, .locUpdate ..⟩
    simp [parseControl, hgate, bind, Except.bind, htyp, LOC_UPDATE, hparse, Functor.map, Except.map]
  · have hparse := Probe.parse_eq_ok.mpr ⟨hframed, htyp, hlen, rfl, hid, hstrict, hslot⟩
    refine ⟨_, ?_, .probe ..⟩
    simp [parseControl, hgate, bind, Except.bind, htyp, BIND_PROBE, hparse, Functor.map, Except.map]
  · have hparse : Challenge.parse b 3 = .ok ⟨arrayAt 16 b 8, arrayAt 16 b 24, u64Of (b.drop 40),
        byteAt b 48, u64Of (b.drop 49), arrayAt 32 b 57, 3⟩ :=
      Challenge.parse_eq_ok.mpr ⟨hframed, htyp, hlen, rfl, hid, hstrict.1, hstrict.2, hslot⟩
    refine ⟨_, ?_, .challenge ..⟩
    simp [parseControl, hgate, bind, Except.bind, htyp, BIND_CHALLENGE, hparse, Functor.map,
      Except.map]
  · have hparse : Challenge.parse b 4 = .ok ⟨arrayAt 16 b 8, arrayAt 16 b 24, u64Of (b.drop 40),
        byteAt b 48, u64Of (b.drop 49), arrayAt 32 b 57, 4⟩ :=
      Challenge.parse_eq_ok.mpr ⟨hframed, htyp, hlen, rfl, hid, hstrict.1, hstrict.2, hslot⟩
    refine ⟨_, ?_, .response ..⟩
    simp [parseControl, hgate, bind, Except.bind, htyp, BIND_RESPONSE, hparse, Functor.map,
      Except.map]
  · have hparse := Result.parse_eq_ok.mpr ⟨hframed, htyp, hlen, rfl, hid, hstrict, hslot,
      by simpa [Control.resultInRange] using hresult⟩
    refine ⟨_, ?_, .result ..⟩
    simp [parseControl, hgate, bind, Except.bind, htyp, CANDIDATE_RESULT, hparse, Functor.map,
      Except.map]

/-- The reference parser accepts what this one does and whose fields are strict besides, and reads
the same message out of it. -/
theorem parseControl_iff (b : List Byte) :
    ((∃ p, parseControl b = .ok p) ↔ ∃ c, Control.parse b = .ok c ∧ Strict c) ∧
      ∀ p c, parseControl b = .ok p → Control.parse b = .ok c → Same p c := by
  refine ⟨⟨?_, ?_⟩, ?_⟩
  · rintro ⟨p, hp⟩
    obtain ⟨c, hc, hstrict, -⟩ := parse_of_parseControl hp
    exact ⟨c, hc, hstrict⟩
  · rintro ⟨c, hc, hstrict⟩
    obtain ⟨p, hp, -⟩ := parseControl_of_parse hc hstrict
    exact ⟨p, hp⟩
  · intro p c hp hc
    obtain ⟨c', hc', -, hsame⟩ := parse_of_parseControl hp
    obtain rfl := Except.ok.inj (hc'.symm.trans hc)
    exact hsame

/-- A probe for epoch zero. -/
def zeroProbe : Control := .bindProbe (bytesOf 16 1) (bytesOf 16 2) 0 0 (bytesOf 16 3)

theorem zeroProbe_disagrees : Control.parse zeroProbe.encode = .ok zeroProbe ∧
    ¬ ∃ p, parseControl zeroProbe.encode = .ok p := by
  have hparse : Control.parse zeroProbe.encode = .ok zeroProbe :=
    Control.parse_encode ⟨by decide, by decide, rfl⟩
  refine ⟨hparse, ?_⟩
  rintro ⟨p, hp⟩
  obtain ⟨c, hc, hstrict, -⟩ := parse_of_parseControl hp
  obtain rfl := Except.ok.inj (hparse.symm.trans hc)
  exact hstrict rfl

end R8.Reference
