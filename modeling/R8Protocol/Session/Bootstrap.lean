import R8Protocol.Session.Directional

/-! The key schedule and the hand-over of an established profile-3 session. -/
namespace R8.Session

open FixedWidth

def keyInfo (transcriptHash : Bytes 32) (profile senderRole receiverRole slot : Byte) : List Byte :=
  ascii "R8 key v1" ++ [WIRE_VERSION, SESSION_VERSION, profile] ++ transcriptHash.val ++
    [senderRole, receiverRole, slot]

/-- The expansion itself cannot fail for 32 bytes. -/
def deriveKeyFromPrk (C : Crypto) (prk transcriptHash : Bytes 32)
    (profile senderRole receiverRole slot : Byte) : Except SessionError (Bytes 32) :=
  if ¬ isRole senderRole ∨ ¬ isRole receiverRole ∨ senderRole = receiverRole ∨ 1 < slot then
    .error .configError
  else .ok (C.hkdfExpand prk (keyInfo transcriptHash profile senderRole receiverRole slot))

structure Profile3Bootstrap where
  scid : U64
  localLoc : Bytes 16
  peerLoc : Bytes 16
  budget : ℕ
  localRole : Byte
  peerRole : Byte
  transcriptHash : Bytes 32
  schedule : Option (Bytes 32)
  slot0 : Option DirectionalSession

namespace Profile3Bootstrap

def takeSlot0 (b : Profile3Bootstrap) :
    Profile3Bootstrap × Except SessionError DirectionalSession :=
  match b.slot0 with
  | none => (b, .error .unexpectedMessage)
  | some session => ({ b with slot0 := none }, .ok session)

/-- The schedule is gone whether or not both keys can be derived. -/
def takeSlot1AfterAdmission (C : Crypto) (owner : ℕ) (b : Profile3Bootstrap) :
    Profile3Bootstrap × Except SessionError DirectionalSession :=
  match b.schedule with
  | none => (b, .error .unexpectedMessage)
  | some schedule =>
    ({ b with schedule := none }, do
      let sendKey ← deriveKeyFromPrk C schedule b.transcriptHash 3 b.localRole b.peerRole 1
      let receiveKey ← deriveKeyFromPrk C schedule b.transcriptHash 3 b.peerRole b.localRole 1
      .ok (.new owner sendKey receiveKey b.transcriptHash b.budget))

def close (b : Profile3Bootstrap) : Profile3Bootstrap × Except SessionError Unit :=
  match b.slot0 with
  | none => (b, .error .unexpectedMessage)
  | some _ => ({ b with slot0 := none, schedule := none }, .ok ())

end Profile3Bootstrap

end R8.Session
