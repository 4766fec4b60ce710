import R8Protocol.Session.Directional

/-! The five R8M1 candidate binding controls, their encoding, and what is signed or hashed. -/
namespace R8.Mobility

open FixedWidth Wire Session

def LOC_UPDATE : Byte := 1

def BIND_PROBE : Byte := 2

def BIND_CHALLENGE : Byte := 3

def BIND_RESPONSE : Byte := 4

def CANDIDATE_RESULT : Byte := 5

inductive MobilityError
  | candidate | capacity | timeout | replay
  deriving DecidableEq, Repr

abbrev CandidateId := Bytes 16

inductive Control
  | locUpdate (candidateId : CandidateId) (oldLoc newLoc : Loc)
      (epoch notBeforeMs validForMs : U64) (pathSlot : Byte) (signature : Bytes 64)
  | bindProbe (candidateId : CandidateId) (loc : Loc) (epoch : U64) (pathSlot : Byte)
      (probeNonce : Bytes 16)
  | bindChallenge (candidateId : CandidateId) (loc : Loc) (epoch : U64) (pathSlot : Byte)
      (expiryMs : U64) (token : Bytes 32)
  | bindResponse (candidateId : CandidateId) (loc : Loc) (epoch : U64) (pathSlot : Byte)
      (expiryMs : U64) (token : Bytes 32)
  | candidateResult (candidateId : CandidateId) (epoch : U64) (pathSlot : Byte) (result : Byte)
  deriving DecidableEq, Repr

namespace Control

def typ : Control → Byte
  | locUpdate .. => LOC_UPDATE
  | bindProbe .. => BIND_PROBE
  | bindChallenge .. => BIND_CHALLENGE
  | bindResponse .. => BIND_RESPONSE
  | candidateResult .. => CANDIDATE_RESULT

def candidateId : Control → CandidateId
  | locUpdate id .. | bindProbe id .. | bindChallenge id .. | bindResponse id ..
  | candidateResult id .. => id

def pathSlot : Control → Byte
  | locUpdate _ _ _ _ _ _ slot _ | bindProbe _ _ _ slot _ | bindChallenge _ _ _ slot _ _
  | bindResponse _ _ _ slot _ _ | candidateResult _ _ slot _ => slot

def body : Control → List Byte
  | locUpdate id oldLoc newLoc epoch notBeforeMs validForMs slot signature =>
    id.val ++ oldLoc.val ++ newLoc.val ++ u64Bytes epoch ++ u64Bytes notBeforeMs ++
      u64Bytes validForMs ++ [slot] ++ signature.val
  | bindProbe id loc epoch slot probeNonce =>
    id.val ++ loc.val ++ u64Bytes epoch ++ [slot] ++ probeNonce.val
  | bindChallenge id loc epoch slot expiryMs token
  | bindResponse id loc epoch slot expiryMs token =>
    id.val ++ loc.val ++ u64Bytes epoch ++ [slot] ++ u64Bytes expiryMs ++ token.val
  | candidateResult id epoch slot result => id.val ++ u64Bytes epoch ++ [slot, result]

/-- The source wraps this in `Ok`: encoding cannot fail. -/
def encode (c : Control) : List Byte := ascii "R8M1" ++ [c.typ, 1, 0, 0] ++ c.body

/-- The fields at their offsets, chosen by the type byte and the exact length. -/
def decode (b : List Byte) : Except MobilityError Control :=
  if byteAt b 4 = LOC_UPDATE ∧ b.length = 145 then
    .ok (.locUpdate (arrayAt 16 b 8) (arrayAt 16 b 24) (arrayAt 16 b 40) (u64Of (b.drop 56))
      (u64Of (b.drop 64)) (u64Of (b.drop 72)) (byteAt b 80) (arrayAt 64 b 81))
  else if byteAt b 4 = BIND_PROBE ∧ b.length = 65 then
    .ok (.bindProbe (arrayAt 16 b 8) (arrayAt 16 b 24) (u64Of (b.drop 40)) (byteAt b 48)
      (arrayAt 16 b 49))
  else if byteAt b 4 = BIND_CHALLENGE ∧ b.length = 89 then
    .ok (.bindChallenge (arrayAt 16 b 8) (arrayAt 16 b 24) (u64Of (b.drop 40)) (byteAt b 48)
      (u64Of (b.drop 49)) (arrayAt 32 b 57))
  else if byteAt b 4 = BIND_RESPONSE ∧ b.length = 89 then
    .ok (.bindResponse (arrayAt 16 b 8) (arrayAt 16 b 24) (u64Of (b.drop 40)) (byteAt b 48)
      (u64Of (b.drop 49)) (arrayAt 32 b 57))
  else if byteAt b 4 = CANDIDATE_RESULT ∧ b.length = 34 then
    .ok (.candidateResult (arrayAt 16 b 8) (u64Of (b.drop 24)) (byteAt b 32) (byteAt b 33))
  else .error .candidate

def resultInRange : Control → Bool
  | candidateResult _ _ _ result => 1 ≤ result ∧ result ≤ 3
  | _ => true

def parse (b : List Byte) : Except MobilityError Control :=
  if b.length < 8 ∨ b.take 4 ≠ ascii "R8M1" ∨ byteAt b 5 ≠ 1 ∨ slice b 6 8 ≠ [0, 0] then
    .error .candidate
  else do
    let control ← decode b
    if control.candidateId = zeros 16 ∨ 1 < control.pathSlot ∨ ¬ control.resultInRange then
      .error .candidate
    else .ok control

end Control

structure MobilityContext where
  profile : Byte
  scid : U64
  sender : Identity
  receiver : Identity
  policyId : U32

structure LocUpdateFields where
  candidateId : CandidateId
  oldLoc : Loc
  newLoc : Loc
  epoch : U64
  pathSlot : Byte

structure TokenFields where
  candidateId : CandidateId
  loc : Loc
  binding : ObservedBinding
  epoch : U64
  pathSlot : Byte
  expiryMs : U64

def profileAllowsSlot (profile pathSlot : Byte) : Bool :=
  (profile ≤ 2 ∧ pathSlot = 0) ∨ (profile = 3 ∧ pathSlot = 1)

/-- The role conditions shared by the two inputs below. -/
def MobilityContext.rolesOk (c : MobilityContext) : Bool :=
  c.sender.role ≠ c.receiver.role ∧ isRole c.sender.role ∧ isRole c.receiver.role

def locUpdateSignatureInput (c : MobilityContext) (f : LocUpdateFields) :
    Except MobilityError (List Byte) :=
  if 3 < c.profile ∨ ¬ c.rolesOk ∨ ¬ profileAllowsSlot c.profile f.pathSlot then .error .candidate
  else .ok (ascii "R8 LOC_UPDATE v1" ++ [SESSION_VERSION, c.profile] ++ u64Bytes c.scid ++
    c.sender.eid.val ++ c.receiver.eid.val ++ f.oldLoc.val ++ f.newLoc.val ++ u64Bytes f.epoch ++
    u64Bytes 0 ++ u64Bytes 5000 ++ f.candidateId.val ++ [f.pathSlot])

def signLocUpdate (C : Crypto) (signing : Bytes 32) (c : MobilityContext) (f : LocUpdateFields) :
    Except MobilityError Control := do
  let input ← locUpdateSignatureInput c f
  .ok (.locUpdate f.candidateId f.oldLoc f.newLoc f.epoch 0 5000 f.pathSlot (C.sign signing input))

def verifyLocUpdate (C : Crypto) (control : Control) (c : MobilityContext) :
    Except MobilityError Unit :=
  match control with
  | .locUpdate candidateId oldLoc newLoc epoch notBeforeMs validForMs pathSlot signature =>
    if notBeforeMs ≠ 0 ∨ validForMs ≠ 5000 then .error .candidate
    else do
      let input ← locUpdateSignatureInput c ⟨candidateId, oldLoc, newLoc, epoch, pathSlot⟩
      if C.keyDecodes c.sender.publicKey ∧ C.verify c.sender.publicKey input signature then .ok ()
      else .error .candidate
  | _ => .error .candidate

def tokenInput (c : MobilityContext) (f : TokenFields) : Except MobilityError (List Byte) :=
  if ¬ f.binding.Valid ∨ 3 < c.profile ∨ ¬ profileAllowsSlot c.profile f.pathSlot ∨
      ¬ c.rolesOk then .error .candidate
  else .ok (ascii "R8 bind v1" ++ [SESSION_VERSION, c.profile] ++ u64Bytes c.scid ++
    c.sender.eid.val ++ c.receiver.eid.val ++ f.candidateId.val ++ f.loc.val ++ f.binding.encode ++
    [if c.sender.role = 1 then 1 else 2] ++ u64Bytes f.epoch ++ [f.pathSlot] ++
    u32Bytes c.policyId ++ u64Bytes f.expiryMs)

def token (C : Crypto) (secret : Bytes 32) (c : MobilityContext) (f : TokenFields) :
    Except MobilityError (Bytes 32) := do
  let input ← tokenInput c f
  .ok (C.hmacSha256 secret input)

end R8.Mobility
