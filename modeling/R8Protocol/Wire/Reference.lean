import R8Protocol.Wire.Header

/-! The reference implementation's parser, written from its own source. -/
namespace R8.Reference

open FixedWidth Wire

/-- The numbers of the reference are unbounded. -/
structure Header where
  nh : ℕ
  src : Loc
  dst : Loc
  profile : ℕ
  tc : ℕ
  hop : ℕ
  flags : ℕ
  pslot : ℕ
  scid : ℕ
  deriving DecidableEq, Repr

def carry (total : ℕ) : ℕ := (total &&& 0xffff) + (total >>> 16)

/-- The two bytes at an offset, high byte first. -/
def pairAt (data : List Byte) (offset : ℕ) : ℕ :=
  ((byteAt data offset).val <<< 8) ||| (byteAt data (offset + 1)).val

def sum16 (data : List Byte) : ℕ :=
  let pairs := data.length - data.length % 2
  let total := (List.range' 0 (pairs / 2) 2).foldl
    (fun total offset => carry (total + pairAt data offset)) 0
  if data.length % 2 ≠ 0 then carry (total + (byteAt data (data.length - 1)).val <<< 8) else total

def checksum16 (pseudo body : List Byte) : ℕ :=
  let total := carry (sum16 (pseudo ++ body))
  -- the complement of an unbounded number, cut to sixteen bits
  ((-(total : ℤ) - 1) % 2 ^ 16).toNat

/-- `a or b` on numbers. -/
def orElse (a b : ℕ) : ℕ := if a = 0 then b else a

def pseudoHeader (hdr : Header) (plen nh : ℕ) : List Byte :=
  hdr.src.val ++ hdr.dst.val ++ (beBytes 4 plen ++ beBytes 4 nh)

def checkedBindingBudget (bindingBudget : ℕ) : Except WireError Unit :=
  if ¬ (48 ≤ bindingBudget ∧ bindingBudget ≤ SERIALIZED_R8_MAX) then .error .bindingBudget
  else .ok ()

def u8 (value : ℕ) (category : WireError) : Except WireError Unit :=
  if 0xff < value then .error category else .ok ()

def u64 (value : ℕ) : Except WireError Unit :=
  if 0xffffffffffffffff < value then .error .scid else .ok ()

def failIf (p : Prop) [Decidable p] (category : WireError) : Except WireError Unit :=
  if p then .error category else .ok ()

/-- The flags and path slot a SES type asks for outside the redundant rows. -/
def wanted (stype : Byte) : ℕ × ℕ := if stype ≤ 4 then (0, 0) else (1, 0)

def Header.validateSes (self : Header) (payload : List Byte) : Except WireError Unit := do
  u64 self.scid
  failIf (self.scid = 0) .scid
  failIf (payload.length < 4) .truncated
  let stype := byteAt payload 0
  let sessionVersion := byteAt payload 1
  let sesProfile := byteAt payload 2
  let sesFlags := byteAt payload 3
  failIf (stype ∉ [1, 2, 3, 4, 5, 6, 7] ∨ sessionVersion ≠ 1) .nextHeader
  u8 self.profile .profile
  failIf (3 < self.profile ∨ 3 < sesProfile.val ∨ sesProfile.val ≠ self.profile) .profile
  u8 self.tc .trafficClass
  failIf (self.tc ≠ 0) .trafficClass
  u8 self.hop .hopLimit
  failIf (self.hop = 0) .hopLimit
  failIf (sesFlags ≠ 0) .flags
  u8 self.flags .flags
  failIf (self.flags &&& 0xfc ≠ 0) .flags
  u8 self.pslot .pathSlot
  if ¬ stype ≤ 4 ∧ stype ≠ 5 ∧ self.profile = 3 then
    failIf (self.flags ∉ [1, 3]) .flags
    failIf (self.pslot ≠ if self.flags = 1 then 0 else 1) .pathSlot
  else
    failIf (self.flags ≠ (wanted stype).1) .flags
    failIf (self.pslot ≠ (wanted stype).2) .pathSlot

def Header.validateFixed (self : Header) (payload : List Byte) : Except WireError Unit := do
  u8 self.nh .nextHeader
  failIf (self.nh ∉ [NH_CTL.val, NH_DGRAM.val, NH_SES.val, NH_NONE.val]) .nextHeader
  if self.nh = NH_SES.val then
    self.validateSes payload
  else
    u8 self.profile .profile
    failIf (3 < self.profile) .profile
    u8 self.tc .trafficClass
    failIf (self.tc ≠ 0) .trafficClass
    u8 self.hop .hopLimit
    failIf (self.hop = 0) .hopLimit
    u8 self.flags .flags
    failIf (self.flags &&& 0xfc ≠ 0) .flags
    u8 self.pslot .pathSlot
    u64 self.scid
    failIf (self.profile ≠ 0) .profile
    failIf (self.flags ≠ 0) .flags
    failIf (self.pslot ≠ 0) .pathSlot
    failIf (self.scid ≠ 0) .scid
    failIf (self.nh = NH_NONE.val ∧ payload ≠ []) .nonePayload

def allowedCodes : ℕ → List ℕ
  | 1 => [0]
  | 2 => [0]
  | 128 => [0, 1, 3, 4]
  | 129 => [0]
  | 130 => [0]
  | _ => []

def ctlShape (ctype code : ℕ) (body : List Byte) : Except WireError Unit := do
  failIf (ctype ∉ [1, 2, 128, 129, 130]) .ctlType
  failIf (code ∉ allowedCodes ctype) .ctlCode
  let minimum := if ctype ∈ [1, 2, 130] then 4 else 0
  failIf (body.length < minimum) .ctlBody
  let quote := if ctype = 130 then body.drop 4 else if 128 ≤ ctype then body else []
  failIf (512 < quote.length) .ctlBody

def parseCtl (hdr : Header) (payload : List Byte) : Except WireError (ℕ × ℕ × List Byte) := do
  failIf (payload.length < 4) .ctlShort
  let ctype := (byteAt payload 0).val
  let code := (byteAt payload 1).val
  let received := (u16Of (payload.drop 2)).val
  let body := payload.drop 4
  ctlShape ctype code body
  failIf (received = 0) .ctlChecksum
  let zeroed := payload.take 2 ++ [0, 0] ++ body
  failIf (orElse (checksum16 (pseudoHeader hdr payload.length NH_CTL.val) zeroed) 0xffff ≠ received)
    .ctlChecksum
  .ok (ctype, code, body)

def parseDgram (hdr : Header) (payload : List Byte) : Except WireError (ℕ × ℕ × List Byte) := do
  failIf (payload.length < 8) .dgramShort
  let sport := (u16Of payload).val
  let dport := (u16Of (payload.drop 2)).val
  let length := (u16Of (payload.drop 4)).val
  let received := (u16Of (payload.drop 6)).val
  failIf (length ≠ payload.length) .dgramLength
  failIf (received = 0) .dgramChecksum
  let zeroed := payload.take 6 ++ [0, 0] ++ payload.drop 8
  failIf (orElse (checksum16 (pseudoHeader hdr payload.length NH_DGRAM.val) zeroed) 0xffff ≠ received)
    .dgramChecksum
  .ok (sport, dport, payload.drop 8)

/-- The fields read at their fixed offsets. -/
def Header.ofBytes (data : List Byte) : Header where
  nh := (byteAt data 4).val
  src := arrayAt 16 data 16
  dst := arrayAt 16 data 32
  profile := (byteAt data 0 &&& 0x0f).val
  tc := (byteAt data 1).val
  hop := (byteAt data 5).val
  flags := (byteAt data 6).val
  pslot := (byteAt data 7).val
  scid := (u64Of (data.drop 8)).val

/-- Every check on a header whose length field has been accepted. -/
def Header.validate (hdr : Header) (payload : List Byte) : Except WireError Unit := do
  hdr.validateFixed payload
  if hdr.nh = NH_CTL.val then
    let _ ← parseCtl hdr payload
  else if hdr.nh = NH_DGRAM.val then
    let _ ← parseDgram hdr payload

def Header.unpack (data : List Byte) (bindingBudget : ℕ) :
    Except WireError (Header × List Byte) := do
  checkedBindingBudget bindingBudget
  failIf (SERIALIZED_R8_MAX < data.length) .packetCap
  failIf (bindingBudget < data.length) .bindingBudget
  failIf (data.length < HEADER_LEN) .truncated
  let expected := HEADER_LEN + (u16Of (data.drop 2)).val
  failIf (byteAt data 0 >>> 4 ≠ VERSION) .version
  failIf (SERIALIZED_R8_MAX < expected) .packetCap
  failIf (bindingBudget < expected) .bindingBudget
  failIf (data.length < expected) .truncated
  failIf (expected < data.length) .trailingBytes
  let hdr := Header.ofBytes data
  let payload := data.drop HEADER_LEN
  hdr.validate payload
  .ok (hdr, payload)

end R8.Reference
