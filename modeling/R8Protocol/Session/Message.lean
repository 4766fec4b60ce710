import R8Protocol.Session.Identity
import R8Protocol.Lib.Outcome

/-! Session messages: four fixed bytes, then a body whose shape the type decides. -/
namespace R8.Session

open FixedWidth

def OPEN : Byte := 1

def VERIFY_COOKIE : Byte := 2

def OPEN_AUTH : Byte := 3

def OPEN_ACK : Byte := 4

def SESSION_ACCEPT : Byte := 5

def SESSION_DATA : Byte := 6

def CLOSE : Byte := 7

structure SessionMessage where
  typ : Byte
  profile : Byte
  body : List Byte
  deriving DecidableEq, Repr

def validateRolePair (body : List Byte) : Except SessionError Unit :=
  if ¬ isRole (byteAt body 0) ∨ ¬ isRole (byteAt body 1) ∨ byteAt body 0 = byteAt body 1 then
    .error .roleMismatch
  else .ok ()

/-- The exact body length of a type, for SESSION_DATA the least one. -/
def bodyLength (typ : Byte) : Option ℕ :=
  if typ = OPEN then some 118
  else if typ = VERIFY_COOKIE then some 118
  else if typ = OPEN_AUTH then some 230
  else if typ = OPEN_ACK then some 182
  else if typ = SESSION_ACCEPT then some 68
  else if typ = CLOSE then some 26
  else if typ = SESSION_DATA then some 24
  else none

def validateBody (typ : Byte) (body : List Byte) : Except SessionError Unit :=
  match bodyLength typ with
  | none => .error .type
  | some exact =>
    if body.length < exact then .error .truncated
    else if typ ≠ SESSION_DATA ∧ body.length ≠ exact then .error .trailingBytes
    else do
      if typ ∈ [OPEN, VERIFY_COOKIE, OPEN_AUTH, OPEN_ACK] then
        validateRolePair body
      if typ ∈ [SESSION_ACCEPT, SESSION_DATA, CLOSE] then
        if u64Of body = 0 ∨ u64Of body = u64Max then .error .counterRange else .ok ()

def SessionMessage.decode (payload : List Byte) (headerProfile : Byte) (budget : ℕ) :
    Except SessionError SessionMessage :=
  if budget < payload.length then .error .budget
  else if payload.length < 4 then .error .truncated
  else if ¬ (OPEN ≤ byteAt payload 0 ∧ byteAt payload 0 ≤ CLOSE) then .error .type
  else if byteAt payload 1 ≠ SESSION_VERSION then .error .version
  else if byteAt payload 2 ≠ headerProfile then .error .profile
  else if byteAt payload 3 ≠ 0 then .error .flags
  else do
    validateBody (byteAt payload 0) (payload.drop 4)
    .ok ⟨byteAt payload 0, byteAt payload 2, payload.drop 4⟩

def SessionMessage.encode (m : SessionMessage) (budget : ℕ) : Except SessionError (List Byte) := do
  validateBody m.typ m.body
  if budget < 4 + m.body.length then .error .budget
  else .ok ([m.typ, SESSION_VERSION, m.profile, 0] ++ m.body)

end R8.Session
