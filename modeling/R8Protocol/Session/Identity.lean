import R8Protocol.Wire.Header

/-! Session errors, pinned identities and the typed bindings packets are observed on. -/
namespace R8.Session

open FixedWidth

def WIRE_VERSION : Byte := 8

def SESSION_VERSION : Byte := 1

inductive SessionError
  | truncated | trailingBytes | type | version | profile | flags | roleMismatch | serviceMismatch
  | pinMismatch | eidKeyMismatch | cookieInvalid | authFailed | counterRange | counterExhausted
  | replay | scidCollision | capacity | restartRequired | timeout | unexpectedMessage | budget
  | binding | rngFailure | configError
  deriving DecidableEq, Repr

structure Identity where
  role : Byte
  serviceContext : U32
  eid : Bytes 16
  publicKey : Bytes 32
  deriving DecidableEq, Repr

def eid (C : Crypto) (publicKey : Bytes 32) : Bytes 16 :=
  ⟨(C.sha256 (ascii "R8 EID v1" ++ publicKey.val)).val.take 16, by
    simp [(C.sha256 (ascii "R8 EID v1" ++ publicKey.val)).property]⟩

def isRole (role : Byte) : Bool := role = 1 ∨ role = 2

def Identity.validate (C : Crypto) (i : Identity) : Except SessionError Unit :=
  if ¬ isRole i.role then .error .roleMismatch
  else if i.serviceContext = 0 then .error .serviceMismatch
  else if Session.eid C i.publicKey ≠ i.eid then .error .eidKeyMismatch
  else .ok ()

/-- The two canonical UDP layouts: family, address, port, selector kind, selector. -/
def udpWellFormed (bytes : List Byte) : Bool :=
  (byteAt bytes 0 = 1 ∧ byteAt bytes 1 = 4 ∧ bytes.length = 25 ∧ u16Of (bytes.drop 6) ≠ 0 ∧
    (byteAt bytes 8 = 1 ∨ byteAt bytes 8 = 2)) ∨
  (byteAt bytes 0 = 1 ∧ byteAt bytes 1 = 6 ∧ bytes.length = 37 ∧ u16Of (bytes.drop 18) ≠ 0 ∧
    (byteAt bytes 20 = 1 ∨ byteAt bytes 20 = 2))

/-- The constructors of the source all establish the layout, so it travels with the bytes. -/
structure UdpBinding where
  bytes : List Byte
  wellFormed : udpWellFormed bytes = true
  deriving DecidableEq, Repr

def UdpBinding.parse (bytes : List Byte) : Except SessionError UdpBinding :=
  if h : udpWellFormed bytes then .ok ⟨bytes, h⟩ else .error .binding

inductive ObservedBinding
  | udp (binding : UdpBinding)
  | native (ingressDescriptorId : U32) (nextHopMac : Bytes 6)
  deriving DecidableEq, Repr

def ObservedBinding.validate : ObservedBinding → Except SessionError Unit
  | .udp binding => do
    let _ ← UdpBinding.parse binding.bytes
  | .native ingressDescriptorId _ =>
    if ingressDescriptorId ≠ 0 then .ok () else .error .binding

def ObservedBinding.encode : ObservedBinding → List Byte
  | .udp binding => binding.bytes
  | .native ingressDescriptorId nextHopMac =>
    [2] ++ u32Bytes ingressDescriptorId ++ nextHopMac.val

def ObservedBinding.parse (bytes : List Byte) : Except SessionError ObservedBinding :=
  match bytes.head? with
  | some 1 => do
    let binding ← UdpBinding.parse bytes
    .ok (.udp binding)
  | some 2 =>
    if bytes.length = 11 then
      if u32Of (bytes.drop 1) = 0 then .error .binding
      else .ok (.native (u32Of (bytes.drop 1)) (arrayAt 6 bytes 5))
    else .error .binding
  | _ => .error .binding

/-- `validate` as a proposition, for the invariants that carry bindings around. -/
def ObservedBinding.Valid (b : ObservedBinding) : Prop := b.validate = .ok ()

instance (b : ObservedBinding) : Decidable b.Valid :=
  inferInstanceAs (Decidable (b.validate = .ok ()))

end R8.Session
