import R8Protocol.Crypto

/-! Wire format v0.2: the 48-byte header, its validation, and the CTL and DGRAM payloads. -/
namespace R8.Wire

open FixedWidth

def VERSION : Byte := 8

def HEADER_LEN : ℕ := 48

def SERIALIZED_R8_MAX : ℕ := 1280

def NH_CTL : Byte := 1

def NH_DGRAM : Byte := 2

def NH_SES : Byte := 3

def NH_NONE : Byte := 59

def CTL_ECHO_REQUEST : Byte := 1

def CTL_ECHO_REPLY : Byte := 2

def CTL_DEST_UNREACHABLE : Byte := 128

def CTL_TIME_EXCEEDED : Byte := 129

def CTL_PACKET_TOO_BIG : Byte := 130

abbrev Loc := Bytes 16

instance lawfulBEq_loc : LawfulBEq Loc := inferInstance

inductive WireError
  | truncated | trailingBytes | packetCap | bindingBudget | lengthOverflow | version | profile
  | trafficClass | nextHeader | hopLimit | flags | pathSlot | scid | nonePayload | ctlShort
  | ctlType | ctlCode | ctlBody | ctlChecksum | dgramShort | dgramLength | dgramChecksum
  deriving DecidableEq, Repr

structure Header where
  profile : Byte
  tc : Byte
  nextHeader : Byte
  hopLimit : Byte
  flags : Byte
  pathSlot : Byte
  scid : U64
  src : Loc
  dst : Loc
  deriving DecidableEq, Repr

def checkedPacketLen (payloadLen budget : ℕ) : Except WireError ℕ :=
  if 2 ^ 16 - 1 < payloadLen then .error .lengthOverflow
  else if SERIALIZED_R8_MAX < HEADER_LEN + payloadLen then .error .packetCap
  else if budget < HEADER_LEN + payloadLen then .error .bindingBudget
  else .ok (HEADER_LEN + payloadLen)

def fold16 (sum : ℕ) : ℕ := (sum &&& 0xffff) + (sum >>> 16)

def sum16From : ℕ → List Byte → ℕ
  | sum, a :: b :: rest => sum16From (fold16 (sum + (a.val * 256 + b.val))) rest
  | sum, [last] => fold16 (sum + last.val * 256)
  | sum, [] => sum

def sum16 (data : List Byte) : ℕ := sum16From 0 data

def checksumRaw (pseudo body : List Byte) : ℕ :=
  let sum := fold16 (fold16 (sum16 pseudo + sum16 body))
  if sum < 2 ^ 16 then 2 ^ 16 - 1 - sum else 0

def checksum16 (pseudo body : List Byte) : ℕ :=
  if checksumRaw pseudo body = 0 then 0xffff else checksumRaw pseudo body

def pseudoHeader (header : Header) (payloadLen : ℕ) (nextHeader : Byte) : List Byte :=
  header.src.val ++ header.dst.val ++ beBytes 4 payloadLen ++ beBytes 4 nextHeader

def checksumValid (header : Header) (payload : List Byte) (nextHeader : Byte) : Bool :=
  checksumRaw (pseudoHeader header payload.length nextHeader) payload = 0

def validateCtl (typ code : Byte) (body : List Byte) : Except WireError Unit :=
  if typ = CTL_ECHO_REQUEST ∨ typ = CTL_ECHO_REPLY then
    if code ≠ 0 then .error .ctlCode
    else if body.length < 4 then .error .ctlBody
    else .ok ()
  else if typ = CTL_DEST_UNREACHABLE then
    if code ∉ [0, 1, 3, 4] then .error .ctlCode
    else if 512 < body.length then .error .ctlBody
    else .ok ()
  else if typ = CTL_TIME_EXCEEDED then
    if code ≠ 0 then .error .ctlCode
    else if 512 < body.length then .error .ctlBody
    else .ok ()
  else if typ = CTL_PACKET_TOO_BIG then
    if code ≠ 0 then .error .ctlCode
    else if body.length < 4 ∨ 512 < body.length - 4 then .error .ctlBody
    else .ok ()
  else .error .ctlType

def validateCtlShape (payload : List Byte) : Except WireError Unit :=
  if payload.length < 4 then .error .ctlShort
  else validateCtl (byteAt payload 0) (byteAt payload 1) (payload.drop 4)

def parseCtl (header : Header) (payload : List Byte) :
    Except WireError (Byte × Byte × List Byte) := do
  validateCtlShape payload
  if u16Of (payload.drop 2) = 0 ∨ ¬ checksumValid header payload NH_CTL then .error .ctlChecksum
  else .ok (byteAt payload 0, byteAt payload 1, payload.drop 4)

def validateDgramShape (payload : List Byte) : Except WireError Unit :=
  if payload.length < 8 then .error .dgramShort
  else if (u16Of (payload.drop 4)).val ≠ payload.length then .error .dgramLength
  else .ok ()

def parseDgram (header : Header) (payload : List Byte) :
    Except WireError (U16 × U16 × List Byte) := do
  validateDgramShape payload
  if u16Of (payload.drop 6) = 0 ∨ ¬ checksumValid header payload NH_DGRAM then
    .error .dgramChecksum
  else .ok (u16Of payload, u16Of (payload.drop 2), payload.drop 8)

/-- The flag and slot rules of one SES message type. -/
def validateSesSlot (header : Header) (typ : Byte) : Except WireError Unit :=
  if 1 ≤ typ ∧ typ ≤ 4 then
    if header.flags ≠ 0 then .error .flags
    else if header.pathSlot ≠ 0 then .error .pathSlot
    else .ok ()
  else if typ ≠ 5 ∧ header.profile = 3 then
    if header.flags ≠ 1 ∧ header.flags ≠ 3 then .error .flags
    else if header.pathSlot ≠ (if header.flags = 1 then 0 else 1) then .error .pathSlot
    else .ok ()
  else
    if header.flags ≠ 1 then .error .flags
    else if header.pathSlot ≠ 0 then .error .pathSlot
    else .ok ()

def validateSesHeader (header : Header) (payload : List Byte) : Except WireError Unit :=
  if header.scid = 0 then .error .scid
  else if payload.length < 4 then .error .truncated
  else if ¬ (1 ≤ byteAt payload 0 ∧ byteAt payload 0 ≤ 7) ∨ byteAt payload 1 ≠ 1 then
    .error .nextHeader
  else if 3 < header.profile ∨ byteAt payload 2 ≠ header.profile then .error .profile
  else if header.tc ≠ 0 then .error .trafficClass
  else if header.hopLimit = 0 then .error .hopLimit
  else if byteAt payload 3 ≠ 0 ∨ header.flags &&& 0xfc ≠ 0 then .error .flags
  else validateSesSlot header (byteAt payload 0)

/-- The rules CTL, DGRAM and NONE share before their payload is looked at. -/
def validateBareHeader (header : Header) : Except WireError Unit :=
  if header.profile ≠ 0 then .error .profile
  else if header.flags ≠ 0 then .error .flags
  else if header.pathSlot ≠ 0 then .error .pathSlot
  else if header.scid ≠ 0 then .error .scid
  else .ok ()

def validateHeader (header : Header) (payload : List Byte) : Except WireError Unit :=
  if header.nextHeader ∉ [NH_CTL, NH_DGRAM, NH_SES, NH_NONE] then .error .nextHeader
  else if header.nextHeader = NH_SES then validateSesHeader header payload
  else if 3 < header.profile then .error .profile
  else if header.tc ≠ 0 then .error .trafficClass
  else if header.hopLimit = 0 then .error .hopLimit
  else if header.flags &&& 0xfc ≠ 0 then .error .flags
  else do
    validateBareHeader header
    if header.nextHeader = NH_CTL then
      let _ ← parseCtl header payload
    else if header.nextHeader = NH_DGRAM then
      let _ ← parseDgram header payload
    else if payload ≠ [] then
      .error .nonePayload

/-- The wire image `packWithBudget` writes once every check has passed. -/
def Header.bytes (header : Header) (payload : List Byte) : List Byte :=
  [(VERSION <<< 4) ||| header.profile, header.tc] ++ beBytes 2 payload.length ++
    [header.nextHeader, header.hopLimit, header.flags, header.pathSlot] ++
    u64Bytes header.scid ++ header.src.val ++ header.dst.val ++ payload

def Header.packWithBudget (header : Header) (payload : List Byte) (budget : ℕ) :
    Except WireError (List Byte) := do
  let _ ← checkedPacketLen payload.length budget
  validateHeader header payload
  .ok (header.bytes payload)

def Header.pack (header : Header) (payload : List Byte) : Except WireError (List Byte) :=
  header.packWithBudget payload SERIALIZED_R8_MAX

/-- The fields read at their fixed offsets. -/
def Header.ofBytes (data : List Byte) : Header where
  profile := byteAt data 0 &&& 0x0f
  tc := byteAt data 1
  nextHeader := byteAt data 4
  hopLimit := byteAt data 5
  flags := byteAt data 6
  pathSlot := byteAt data 7
  scid := u64Of (data.drop 8)
  src := arrayAt 16 data 16
  dst := arrayAt 16 data 32

def Header.unpackWithBudget (data : List Byte) (budget : ℕ) :
    Except WireError (Header × List Byte) :=
  let expected := HEADER_LEN + (u16Of (data.drop 2)).val
  if SERIALIZED_R8_MAX < data.length then .error .packetCap
  else if budget < data.length then .error .bindingBudget
  else if data.length < HEADER_LEN then .error .truncated
  else if data.length < expected then .error .truncated
  else if expected < data.length then .error .trailingBytes
  else if byteAt data 0 >>> 4 ≠ VERSION then .error .version
  else if byteAt data 4 ∉ [NH_CTL, NH_DGRAM, NH_SES, NH_NONE] then .error .nextHeader
  else do
    validateHeader (Header.ofBytes data) (data.drop HEADER_LEN)
    .ok (Header.ofBytes data, data.drop HEADER_LEN)

def Header.unpack (data : List Byte) : Except WireError (Header × List Byte) :=
  Header.unpackWithBudget data SERIALIZED_R8_MAX

end R8.Wire
