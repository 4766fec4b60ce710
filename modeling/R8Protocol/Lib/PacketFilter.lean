import R8Protocol.Lib.Bytes

/-! Classic packet filters: the instructions that load, mask, compare and return, and their run
over a packet. -/
namespace PacketFilter

open FixedWidth

/-- `sock_filter`: an operation code, two forward jump offsets and a constant. -/
structure SockFilter where
  code : U16
  jt : Byte
  jf : Byte
  k : U32
  deriving DecidableEq, Repr

/-- The width of a load at a fixed offset. -/
inductive Width
  | byte | half | word
  deriving DecidableEq, Repr

def Width.bytes : Width → ℕ
  | .byte => 1
  | .half => 2
  | .word => 4

inductive Instruction
  | load (width : Width) (offset : ℕ)
  | mask (k : ℕ)
  | jumpEq (k jt jf : ℕ)
  | ret (k : ℕ)
  deriving DecidableEq, Repr

/-- An operation code outside this set is not run. -/
def SockFilter.instruction? (f : SockFilter) : Option Instruction :=
  if f.code = 0x20 then some (.load .word f.k)
  else if f.code = 0x28 then some (.load .half f.k)
  else if f.code = 0x30 then some (.load .byte f.k)
  else if f.code = 0x54 then some (.mask f.k)
  else if f.code = 0x15 then some (.jumpEq f.k f.jt f.jf)
  else if f.code = 0x06 then some (.ret f.k)
  else none

/-- The bytes of a load in network order, if the packet has them. -/
def loadAt (packet : List Byte) (width : Width) (offset : ℕ) : Option ℕ :=
  if offset + width.bytes ≤ packet.length then some (beNat ((packet.drop offset).take width.bytes))
  else none

/-- The value returned, with `a` in the accumulator. A load outside the packet returns zero; a
program that runs off its end returns nothing. -/
def exec (packet : List Byte) : List Instruction → ℕ → Option ℕ
  | [], _ => none
  | .load width offset :: rest, _ =>
    match loadAt packet width offset with
    | none => some 0
    | some a => exec packet rest a
  | .mask k :: rest, a => exec packet rest (a &&& k)
  | .jumpEq k jt jf :: rest, a => exec packet (rest.drop (if a = k then jt else jf)) a
  | .ret k :: _, _ => some k
termination_by program => program.length
decreasing_by all_goals simp_wf

/-- The number of bytes of a packet that pass: none is a refused packet. -/
def run (program : List SockFilter) (packet : List Byte) : Option ℕ :=
  (program.mapM SockFilter.instruction?).bind fun program => exec packet program 0

variable {packet : List Byte} {program rest : List Instruction} {a k n offset jt jf : ℕ}
  {width : Width}

@[simp] theorem exec_mask : exec packet (.mask k :: rest) a = exec packet rest (a &&& k) := by
  rw [exec]

@[simp] theorem exec_jumpEq : exec packet (.jumpEq k jt jf :: rest) a =
    exec packet (rest.drop (if a = k then jt else jf)) a := by
  rw [exec]

@[simp] theorem exec_ret : exec packet (.ret k :: rest) a = some k := by
  rw [exec]

theorem exec_load (h : loadAt packet width offset = some n) :
    exec packet (.load width offset :: rest) a = exec packet rest n := by
  rw [exec, h]

theorem exec_load_short (h : packet.length < offset + width.bytes) :
    exec packet (.load width offset :: rest) a = some 0 := by
  rw [exec, loadAt, if_neg (not_le.mpr h)]

theorem loadAt_eq_some (h : offset + width.bytes ≤ packet.length) :
    loadAt packet width offset = some (beNat ((packet.drop offset).take width.bytes)) := if_pos h

end PacketFilter
