import R8Protocol.Crypto
import Mathlib.Data.Nat.Bitwise
import Mathlib.Data.List.TakeWhile

/-! The routing table as the daemon reads it before it starts: no line may be a default route. -/
namespace R8.Daemon

open FixedWidth

abbrev Field := List Byte

/-- `char::is_whitespace`: the code points with the property White_Space. -/
def isWhitespace (c : Char) : Bool :=
  (9 ≤ c.toNat ∧ c.toNat ≤ 13) ∨ (0x2000 ≤ c.toNat ∧ c.toNat ≤ 0x200a) ∨
    c.toNat ∈ [0x20, 0x85, 0xa0, 0x1680, 0x2028, 0x2029, 0x202f, 0x205f, 0x3000]

def stripReturn (line : List Char) : List Char :=
  if line.getLast? = some '\r' then line.dropLast else line

/-- `str::lines`. What follows the last newline is a line if there is anything, and keeps a carriage
return at its end. -/
def lines (text : List Char) : List (List Char) :=
  let pieces := text.splitOnP (· = '\n')
  pieces.dropLast.map stripReturn ++ pieces.getLast?.toList.filter (· ≠ [])

def trim (line : List Char) : List Char :=
  ((line.dropWhile isWhitespace).reverse.dropWhile isWhitespace).reverse

def splitWhitespace (line : List Char) : List (List Char) :=
  (line.splitOnP isWhitespace).filter (· ≠ [])

/-- The bytes of a string, which is what lengths and digits are about. -/
def utf8 (s : List Char) : Field :=
  s.flatMap fun c => (String.utf8EncodeChar c).map fun b => ⟨b.toNat, b.toNat_lt⟩

def fieldsOf (line : List Char) : List Field := (splitWhitespace line).map utf8

def isAsciiDigit (b : Byte) : Bool := 48 ≤ b ∧ b ≤ 57

def isAsciiHexdigit (b : Byte) : Bool := isAsciiDigit b ∨ (65 ≤ b ∧ b ≤ 70) ∨ (97 ≤ b ∧ b ≤ 102)

def isHexField (value : Field) (length : ℕ) : Bool :=
  value.length = length ∧ value.all isAsciiHexdigit

/-- The value of a hexadecimal digit, zero for any other byte. -/
def hexValue (b : Byte) : ℕ :=
  if isAsciiDigit b then b.val - 48
  else if 65 ≤ b ∧ b ≤ 70 then b.val - 55
  else if 97 ≤ b ∧ b ≤ 102 then b.val - 87
  else 0

/-- One digit more, unless the number leaves its 32 bits. -/
def pushDigit (n : U32) (b : Byte) : Option U32 :=
  if h : isAsciiHexdigit b ∧ 16 * n.val + hexValue b < 2 ^ 32 then
    some ⟨16 * n.val + hexValue b, h.2⟩
  else none

/-- `u32::from_str_radix` for radix 16: a sign may be in front of the digits, if it is a plus. -/
def fromStrRadix16 : Field → Option U32
  | [] => none
  | [b] => [b].foldlM pushDigit 0
  | b :: rest => if b = 43 then rest.foldlM pushDigit 0 else (b :: rest).foldlM pushDigit 0

def routeIsReject (flags : Field) : Bool :=
  (fromStrRadix16 flags).any fun value => value.val &&& 0x0200 ≠ 0

def isHeader (fields : List Field) : Bool := fields.head? = some (ascii "Iface")

/-- The fields of no record. An index past the end is never reached: the length comes first. -/
def isMalformed (fields : List Field) : Bool :=
  let field (i : ℕ) := fields.getD i []
  fields.length ≠ 11 ∨ field 0 = [] ∨ ¬ isHexField (field 1) 8 ∨ ¬ isHexField (field 2) 8 ∨
    field 3 = [] ∨ 8 < (field 3).length ∨ ¬ (field 3).all isAsciiHexdigit ∨
    ¬ [4, 5, 6, 8, 9, 10].all (fun index => (field index).all isAsciiDigit) ∨
    ¬ isHexField (field 7) 8

def isDefault (fields : List Field) : Bool :=
  fields.getD 1 [] = ascii "00000000" ∧ fields.getD 7 [] = ascii "00000000" ∧
    ¬ routeIsReject (fields.getD 3 [])

/-- `has_ipv4_default_route`: what the loop returns for a line other than a header. -/
def isUnsafe (fields : List Field) : Bool := isMalformed fields || isDefault fields

def hasIpv4DefaultRoute (routeTable : List Char) : Bool :=
  ((lines routeTable).filter fun line => trim line ≠ []).any fun line =>
    let fields := fieldsOf line
    if isHeader fields then false else isUnsafe fields

/-- The number that hexadecimal digits stand for. -/
def hexNat (digits : Field) : ℕ := digits.foldl (fun n b => 16 * n + hexValue b) 0

/-- The eleven fields of a route, each with the digits it needs. -/
structure RouteRecord where
  iface : {f : Field // f ≠ []}
  destination : {f : Field // isHexField f 8 = true}
  gateway : {f : Field // isHexField f 8 = true}
  flags : {f : Field // f ≠ [] ∧ f.length ≤ 8 ∧ f.all isAsciiHexdigit = true}
  refCnt : {f : Field // f ≠ [] ∧ f.all isAsciiDigit = true}
  use : {f : Field // f ≠ [] ∧ f.all isAsciiDigit = true}
  metric : {f : Field // f ≠ [] ∧ f.all isAsciiDigit = true}
  mask : {f : Field // isHexField f 8 = true}
  mtu : {f : Field // f ≠ [] ∧ f.all isAsciiDigit = true}
  window : {f : Field // f ≠ [] ∧ f.all isAsciiDigit = true}
  irtt : {f : Field // f ≠ [] ∧ f.all isAsciiDigit = true}

namespace RouteRecord

def fields (r : RouteRecord) : List Field :=
  [r.iface.val, r.destination.val, r.gateway.val, r.flags.val, r.refCnt.val, r.use.val,
    r.metric.val, r.mask.val, r.mtu.val, r.window.val, r.irtt.val]

/-- Every address matches, and the reject flag is clear. -/
def UsableDefault (r : RouteRecord) : Prop :=
  hexNat r.destination.val = 0 ∧ hexNat r.mask.val = 0 ∧ (hexNat r.flags.val).testBit 9 = false

end RouteRecord

/-- A route record that sends nothing out of the host by default. -/
def Harmless (line : List Char) : Prop :=
  ∃ r : RouteRecord, r.fields = fieldsOf line ∧ ¬ r.UsableDefault

section Digits

variable {digits : Field} {b : Byte}

theorem hexNat_append (digits : Field) (b : Byte) :
    hexNat (digits ++ [b]) = 16 * hexNat digits + hexValue b := by
  simp [hexNat]

theorem hexValue_lt (b : Byte) : hexValue b < 16 := by
  revert b
  decide +kernel

theorem hexValue_eq_zero : ∀ b : Byte, isAsciiHexdigit b = true → (hexValue b = 0 ↔ b = 48) := by
  decide +kernel

theorem hexNat_lt (digits : Field) : hexNat digits < 16 ^ digits.length := by
  induction digits using List.reverseRecOn with
  | nil => simp [hexNat]
  | append_singleton digits b ih =>
    have := hexValue_lt b
    rw [hexNat_append, List.length_append, List.length_singleton, pow_succ]
    omega

theorem hexNat_eq_zero (h : digits.all isAsciiHexdigit = true) :
    hexNat digits = 0 ↔ digits = List.replicate digits.length 48 := by
  induction digits using List.reverseRecOn with
  | nil => simp [hexNat]
  | append_singleton digits b ih =>
    simp only [List.all_append, List.all_cons, List.all_nil, Bool.and_true, Bool.and_eq_true] at h
    have hzero := hexValue_eq_zero b h.2
    rw [hexNat_append, List.length_append, List.length_singleton, List.replicate_succ',
      List.append_singleton_inj, ← ih h.1, ← hzero]
    omega

theorem foldlM_pushDigit (h : digits.all isAsciiHexdigit = true) (hlen : digits.length ≤ 8) :
    ∃ n : U32, digits.foldlM pushDigit 0 = some n ∧ n.val = hexNat digits := by
  induction digits using List.reverseRecOn with
  | nil => exact ⟨0, rfl, rfl⟩
  | append_singleton digits b ih =>
    simp only [List.all_append, List.all_cons, List.all_nil, Bool.and_true, Bool.and_eq_true] at h
    obtain ⟨n, hn, hval⟩ := ih h.1 (by simp at hlen; omega)
    have hfit : 16 * n.val + hexValue b < 2 ^ 32 := by
      rw [hval, ← hexNat_append]
      calc hexNat (digits ++ [b]) < 16 ^ (digits ++ [b]).length := hexNat_lt _
        _ ≤ 16 ^ 8 := Nat.pow_le_pow_right (by omega) hlen
        _ = 2 ^ 32 := by norm_num
    refine ⟨⟨_, hfit⟩, ?_, ?_⟩
    · rw [List.foldlM_append, hn]
      simp only [Option.bind_eq_bind, Option.bind_some, List.foldlM_cons, List.foldlM_nil,
        pushDigit, h.2, hfit, and_self, dite_true]
      rfl
    · rw [hexNat_append, ← hval]

theorem fromStrRadix16_eq (hne : digits ≠ []) (h : digits.all isAsciiHexdigit = true)
    (hlen : digits.length ≤ 8) :
    ∃ n : U32, fromStrRadix16 digits = some n ∧ n.val = hexNat digits := by
  match digits, hne, h with
  | [b], _, h => exact foldlM_pushDigit h hlen
  | b :: c :: rest, _, h =>
    have hplus : b ≠ 43 := by
      rintro rfl
      simp [isAsciiHexdigit, isAsciiDigit] at h
    rw [fromStrRadix16, if_neg hplus]
    · exact foldlM_pushDigit h hlen
    · simp

/-- The reject flag is bit nine. -/
theorem routeIsReject_eq (hne : digits ≠ []) (h : digits.all isAsciiHexdigit = true)
    (hlen : digits.length ≤ 8) : routeIsReject digits = (hexNat digits).testBit 9 := by
  obtain ⟨n, hn, hval⟩ := fromStrRadix16_eq hne h hlen
  have hmask : hexNat digits &&& 0x0200 = ((hexNat digits).testBit 9).toNat * 2 ^ 9 :=
    Nat.and_two_pow _ 9
  rw [routeIsReject, hn, Option.any_some, hval, hmask]
  cases (hexNat digits).testBit 9 <;> simp

end Digits

section Lines

variable {line text : List Char} {fields : List Field} {r : RouteRecord}

theorem utf8_ne_nil {s : List Char} (h : s ≠ []) : utf8 s ≠ [] := by
  obtain ⟨c, rest, rfl⟩ := List.exists_cons_of_ne_nil h
  simp [utf8, String.utf8EncodeChar_ne_nil]

theorem splitOnP_of_all {p : Char → Bool} (h : ∀ c ∈ line, p c = true) :
    line.splitOnP p = List.replicate (line.length + 1) [] := by
  induction line with
  | nil => rfl
  | cons c line ih =>
    obtain ⟨hc, hline⟩ := List.forall_mem_cons.mp h
    rw [List.splitOnP_cons_eq_if_modifyHead, if_pos hc, ih hline]
    rfl

/-- A blank line has no fields. -/
theorem fieldsOf_of_blank (h : trim line = []) : fieldsOf line = [] := by
  have hback := List.dropWhile_eq_nil_iff.mp (List.reverse_eq_nil_iff.mp h)
  have hfront : line.dropWhile isWhitespace = [] := by
    by_contra hne
    have hhead := List.head_dropWhile_not isWhitespace hne
    rw [hback _ (List.mem_reverse.mpr (List.head_mem hne))] at hhead
    cases hhead
  have hall := List.dropWhile_eq_nil_iff.mp hfront
  rw [fieldsOf, splitWhitespace, splitOnP_of_all hall]
  simp

theorem fieldsOf_ne_nil : ∀ f ∈ fieldsOf line, f ≠ [] := by
  intro f hf
  obtain ⟨s, hs, rfl⟩ := List.mem_map.mp hf
  exact utf8_ne_nil (by simpa using (List.mem_filter.mp hs).2)

theorem isMalformed_fields (r : RouteRecord) : isMalformed r.fields = false := by
  simp [isMalformed, RouteRecord.fields, r.iface.property, r.destination.property,
    r.gateway.property, r.flags.property, r.refCnt.property, r.use.property, r.metric.property,
    r.mask.property, r.mtu.property, r.window.property, r.irtt.property]

/-- A line that passes every check is a record. -/
theorem exists_record (h : isMalformed fields = false) (hne : ∀ f ∈ fields, f ≠ []) :
    ∃ r : RouteRecord, r.fields = fields := by
  simp only [isMalformed, decide_eq_false_iff_not, not_or, not_not] at h
  obtain ⟨hlen, -, hdestination, hgateway, hflags, hshort, hhex, hdecimal, hmask⟩ := h
  match fields, hlen, hne with
  | [iface, destination, gateway, flags, refCnt, use, metric, mask, mtu, window, irtt], _, hne =>
    simp only [List.mem_cons, List.not_mem_nil, or_false, forall_eq_or_imp, forall_eq] at hne
    simp only [List.all_cons, List.all_nil, Bool.and_true, Bool.and_eq_true] at hdecimal
    exact ⟨⟨⟨iface, hne.1⟩, ⟨destination, hdestination⟩, ⟨gateway, hgateway⟩,
      ⟨flags, hne.2.2.2.1, not_lt.mp hshort, hhex⟩, ⟨refCnt, hne.2.2.2.2.1, hdecimal.1⟩,
      ⟨use, hne.2.2.2.2.2.1, hdecimal.2.1⟩, ⟨metric, hne.2.2.2.2.2.2.1, hdecimal.2.2.1⟩,
      ⟨mask, hmask⟩, ⟨mtu, hne.2.2.2.2.2.2.2.2.1, hdecimal.2.2.2.1⟩,
      ⟨window, hne.2.2.2.2.2.2.2.2.2.1, hdecimal.2.2.2.2.1⟩,
      ⟨irtt, hne.2.2.2.2.2.2.2.2.2.2, hdecimal.2.2.2.2.2⟩⟩, rfl⟩

theorem eq_zeros_iff {f : Field} (h : isHexField f 8 = true) :
    f = ascii "00000000" ↔ hexNat f = 0 := by
  simp only [isHexField, decide_eq_true_eq] at h
  rw [hexNat_eq_zero h.2, h.1]
  exact Iff.rfl

theorem isDefault_fields (r : RouteRecord) : isDefault r.fields = true ↔ r.UsableDefault := by
  have hreject := routeIsReject_eq r.flags.property.1 r.flags.property.2.2 r.flags.property.2.1
  simp only [isDefault, RouteRecord.UsableDefault, decide_eq_true_eq, Bool.not_eq_true, ← hreject,
    ← eq_zeros_iff r.destination.property, ← eq_zeros_iff r.mask.property]
  exact Iff.rfl

theorem isUnsafe_eq_false_iff : isUnsafe (fieldsOf line) = false ↔ Harmless line := by
  simp only [isUnsafe, Bool.or_eq_false_iff]
  constructor
  · rintro ⟨hformed, hdefault⟩
    obtain ⟨r, hr⟩ := exists_record hformed fieldsOf_ne_nil
    refine ⟨r, hr, ?_⟩
    rw [← isDefault_fields, hr, hdefault]
    simp
  · rintro ⟨r, hr, hsafe⟩
    rw [← hr]
    exact ⟨isMalformed_fields r, Bool.eq_false_iff.mpr (mt (isDefault_fields r).mp hsafe)⟩

/-- The check passes exactly if every line is blank, harmless or begins like a header. -/
theorem hasIpv4DefaultRoute_eq_false_iff : hasIpv4DefaultRoute text = false ↔
    ∀ line ∈ lines text, trim line ≠ [] → isHeader (fieldsOf line) = true ∨ Harmless line := by
  simp only [hasIpv4DefaultRoute, List.any_eq_false, List.mem_filter, decide_eq_true_eq,
    and_imp, Bool.not_eq_true]
  refine forall₃_congr fun line _ _ => ?_
  rw [← isUnsafe_eq_false_iff]
  by_cases h : isHeader (fieldsOf line) = true
  · simp [h]
  · simp [h]

/-- Whoever finds no default route has seen records only, under a header at most. -/
def FailsClosed (text : List Char) : Prop :=
  hasIpv4DefaultRoute text = false → ∀ i line, (lines text)[i]? = some line → trim line ≠ [] →
    (i = 0 ∧ isHeader (fieldsOf line) = true) ∨ Harmless line

/-- The check fails closed exactly on the tables in which no later line that begins like a header
hides something, or some other line gives the table away. -/
theorem failsClosed_iff (text : List Char) : FailsClosed text ↔
    (∀ i line, (lines text)[i + 1]? = some line → isHeader (fieldsOf line) = true →
      Harmless line) ∨
    ∃ line ∈ lines text, trim line ≠ [] ∧ ¬ isHeader (fieldsOf line) = true ∧ ¬ Harmless line := by
  constructor
  · intro h
    by_cases hfound : hasIpv4DefaultRoute text = false
    · left
      intro i line hline hheader
      have hblank : trim line ≠ [] := by
        intro hblank
        simp [isHeader, fieldsOf_of_blank hblank] at hheader
      rcases h hfound (i + 1) line hline hblank with ⟨hzero, -⟩ | hharmless
      · exact absurd hzero (Nat.succ_ne_zero i)
      · exact hharmless
    · right
      rw [hasIpv4DefaultRoute_eq_false_iff] at hfound
      push Not at hfound
      obtain ⟨line, hmem, hblank, hheader, hharm⟩ := hfound
      exact ⟨line, hmem, hblank, hheader, hharm⟩
  · intro h hfound i line hline hblank
    have hall := hasIpv4DefaultRoute_eq_false_iff.mp hfound
    rcases h with hlater | ⟨other, hmem, hother, hheader, hharm⟩
    · rcases hall line (List.mem_of_getElem? hline) hblank with hheader | hharmless
      · cases i with
        | zero => exact .inl ⟨rfl, hheader⟩
        | succ i => exact .inr (hlater i line hline hheader)
      · exact .inr hharmless
    · rcases hall other hmem hother with h' | h'
      · exact absurd h' hheader
      · exact absurd h' hharm

end Lines

/-- A table of the kernel on which an interface has the name of the header. -/
def hiddenDefault : List Char :=
  ("Iface Destination Gateway Flags RefCnt Use Metric Mask MTU Window IRTT\n" ++
    "Iface 00000000 0100007F 0003 0 0 0 00000000 0 0 0\n").toList

theorem failsClosed_hidden : ¬ FailsClosed hiddenDefault := by
  intro h
  rcases h (by decide +kernel) 1 ((lines hiddenDefault).getD 1 []) (by decide +kernel)
    (by decide +kernel) with ⟨hfirst, -⟩ | hharmless
  · cases hfirst
  · rw [← isUnsafe_eq_false_iff] at hharmless
    revert hharmless
    decide +kernel

end R8.Daemon
