import R8Protocol.Wire.Agreement

/-! The order in which the format asks for its rules to be reported, and who follows it. -/
namespace R8.Wire

open FixedWidth

variable {header : Header} {payload data : List Byte} {budget : ℕ} {e : WireError}

/-- The error of the first rule that is broken. -/
def firstViolation : List (Bool × WireError) → Option WireError
  | [] => none
  | (true, e) :: _ => some e
  | (false, _) :: rules => firstViolation rules

def sesFlagsAllowed (header : Header) (typ : Byte) : Bool :=
  if typ ≤ 4 then header.flags = 0
  else if typ = 5 ∨ header.profile ≠ 3 then header.flags = 1
  else header.flags = 1 ∨ header.flags = 3

def sesSlot (header : Header) (typ : Byte) : Byte :=
  if 6 ≤ typ ∧ header.profile = 3 ∧ header.flags = 3 then 1 else 0

def sesRules (header : Header) (payload : List Byte) : List (Bool × WireError) :=
  let typ := byteAt payload 0
  [(header.scid = 0, .scid),
    (payload.length < 4, .truncated),
    (typ = 0 ∨ 7 < typ ∨ byteAt payload 1 ≠ 1, .nextHeader),
    (3 < header.profile ∨ byteAt payload 2 ≠ header.profile, .profile),
    (header.tc ≠ 0, .trafficClass),
    (header.hopLimit = 0, .hopLimit),
    (byteAt payload 3 ≠ 0 ∨ ¬ sesFlagsAllowed header typ, .flags),
    (header.pathSlot ≠ sesSlot header typ, .pathSlot)]

def bareRules (header : Header) : List (Bool × WireError) :=
  [(3 < header.profile, .profile),
    (header.tc ≠ 0, .trafficClass),
    (header.hopLimit = 0, .hopLimit),
    (header.flags &&& 0xfc ≠ 0, .flags),
    (header.profile ≠ 0, .profile),
    (header.flags ≠ 0, .flags),
    (header.pathSlot ≠ 0, .pathSlot),
    (header.scid ≠ 0, .scid)]

def ctlRules (header : Header) (payload : List Byte) : List (Bool × WireError) :=
  let typ := byteAt payload 0
  let body := payload.drop 4
  [(payload.length < 4, .ctlShort),
    (typ ∉ [1, 2, 128, 129, 130], .ctlType),
    (byteAt payload 1 ∉ if typ = 128 then [0, 1, 3, 4] else [0], .ctlCode),
    (typ ∈ [1, 2, 130] ∧ body.length < 4, .ctlBody),
    (128 ≤ typ ∧ (if typ = 130 then body.drop 4 else body).length > 512, .ctlBody),
    (u16Of (payload.drop 2) = 0 ∨ ¬ checksumValid header payload NH_CTL, .ctlChecksum)]

def dgramRules (header : Header) (payload : List Byte) : List (Bool × WireError) :=
  [(payload.length < 8, .dgramShort),
    ((u16Of (payload.drop 4)).val ≠ payload.length, .dgramLength),
    (u16Of (payload.drop 6) = 0 ∨ ¬ checksumValid header payload NH_DGRAM, .dgramChecksum)]

def typeRules (header : Header) (payload : List Byte) : List (Bool × WireError) :=
  if header.nextHeader = NH_SES then sesRules header payload
  else bareRules header ++
    if header.nextHeader = NH_CTL then ctlRules header payload
    else if header.nextHeader = NH_DGRAM then dgramRules header payload
    else [(payload ≠ [], .nonePayload)]

def packetRules (data : List Byte) (budget : ℕ) : List (Bool × WireError) :=
  let expected := HEADER_LEN + (u16Of (data.drop 2)).val
  [(SERIALIZED_R8_MAX < data.length, .packetCap),
    (budget < data.length, .bindingBudget),
    (data.length < HEADER_LEN, .truncated),
    (data.length < expected, .truncated),
    (expected < data.length, .trailingBytes),
    (byteAt data 0 >>> 4 ≠ VERSION, .version),
    (byteAt data 4 ∉ [NH_CTL, NH_DGRAM, NH_SES, NH_NONE], .nextHeader)]

/-- Packet cap, binding budget, minimum, exact length, version, next header, then the type's own. -/
def precedence (data : List Byte) (budget : ℕ) : List (Bool × WireError) :=
  packetRules data budget ++ typeRules (Header.ofBytes data) (data.drop HEADER_LEN)

/-- The error a parser reports, if any. -/
def errorOf {α : Type} : Except WireError α → Option WireError
  | .error e => some e
  | .ok _ => none

section Rules

variable {α β : Type} {p q : Prop} [Decidable p] [Decidable q] {x : Except WireError α}
  {rules : List (Bool × WireError)}

theorem errorOf_check (hpq : p ↔ q) (hx : ¬ q → errorOf x = firstViolation rules) :
    errorOf (if p then .error e else x) = firstViolation ((decide q, e) :: rules) := by
  by_cases hq : q
  · rw [if_pos (hpq.mpr hq), decide_eq_true hq]
    rfl
  · rw [if_neg (hpq.not.mpr hq), decide_eq_false hq]
    exact hx hq

theorem firstViolation_append (r r' : List (Bool × WireError)) :
    firstViolation (r ++ r') = (firstViolation r).or (firstViolation r') := by
  induction r using firstViolation.induct with
  | case1 => rfl
  | case2 e rules => rfl
  | case3 e rules ih => exact ih

theorem errorOf_bind {f : α → Except WireError β} {r r' : List (Bool × WireError)}
    (hx : errorOf x = firstViolation r) (hf : ∀ a, x = .ok a → errorOf (f a) = firstViolation r') :
    errorOf (x >>= f) = firstViolation (r ++ r') := by
  rw [firstViolation_append, ← hx]
  cases x with
  | error e => rfl
  | ok a => exact hf a rfl

end Rules

theorem sesFlagsAllowed_mask {typ : Byte} (h : sesFlagsAllowed header typ) :
    header.flags &&& 0xfc = 0 := by
  have hflags : header.flags = 0 ∨ header.flags = 1 ∨ header.flags = 3 := by
    unfold sesFlagsAllowed at h
    split_ifs at h
    · exact .inl (of_decide_eq_true h)
    · exact .inr (.inl (of_decide_eq_true h))
    · exact .inr (of_decide_eq_true h)
  rcases hflags with h | h | h <;> rw [h] <;> rfl

theorem errorOf_sesSlot (header : Header) {typ : Byte} (hpos : 1 ≤ typ) :
    errorOf (validateSesSlot header typ) = firstViolation
      [(¬ sesFlagsAllowed header typ, .flags), (header.pathSlot ≠ sesSlot header typ, .pathSlot)] := by
  unfold validateSesSlot
  by_cases hearly : typ ≤ 4
  · have hslot : sesSlot header typ = 0 := by
      apply if_neg
      intro h
      exact absurd (le_trans h.1 hearly) (by decide)
    rw [if_pos ⟨hpos, hearly⟩]
    apply errorOf_check
    · simp [sesFlagsAllowed, hearly]
    intro _
    apply errorOf_check
    · rw [hslot]
    intro _
    rfl
  rw [if_neg fun h => hearly h.2]
  by_cases hred : typ ≠ 5 ∧ header.profile = 3
  · have hsix : 6 ≤ typ := by
      obtain ⟨hne, -⟩ := hred
      rw [Fin.le_def] at *
      have : typ.val ≠ 5 := fun h => hne (Fin.ext h)
      change ¬ typ.val ≤ 4 at hearly
      change 6 ≤ typ.val
      omega
    rw [if_pos hred]
    apply errorOf_check
    · simp [sesFlagsAllowed, hearly, hred.1, hred.2]
    intro hflags
    apply errorOf_check
    · by_cases h1 : header.flags = 1
      · simp [sesSlot, h1]
      · have h3 : header.flags = 3 := by
          simpa [sesFlagsAllowed, hearly, hred.1, hred.2, h1] using hflags
        simp [sesSlot, hsix, hred.2, h3]
    intro _
    rfl
  · have hslot : sesSlot header typ = 0 := by
      apply if_neg
      rintro ⟨hsix, hprofile, -⟩
      apply hred
      refine ⟨?_, hprofile⟩
      rintro rfl
      exact absurd hsix (by decide)
    rw [if_neg hred]
    apply errorOf_check
    · have : typ = 5 ∨ header.profile ≠ 3 := by
        simpa [or_iff_not_imp_left] using hred
      simp [sesFlagsAllowed, hearly, this]
    intro _
    apply errorOf_check
    · rw [hslot]
    intro _
    rfl

theorem errorOf_ses (header : Header) (payload : List Byte) :
    errorOf (validateSesHeader header payload) = firstViolation (sesRules header payload) := by
  unfold validateSesHeader sesRules
  apply errorOf_check Iff.rfl
  intro _
  apply errorOf_check Iff.rfl
  intro _
  apply errorOf_check
  · simp only [not_and_or, not_le, or_assoc]
    rw [Fin.lt_one_iff]
  intro htype
  apply errorOf_check Iff.rfl
  intro _
  apply errorOf_check Iff.rfl
  intro _
  apply errorOf_check Iff.rfl
  intro _
  have hpos : 1 ≤ byteAt payload 0 := by
    simp only [not_or] at htype
    exact Fin.one_le_of_ne_zero htype.1
  have hslot := errorOf_sesSlot header hpos
  by_cases hses : byteAt payload 3 ≠ 0
  · simp [hses, errorOf, firstViolation]
  by_cases hmask : header.flags &&& 0xfc ≠ 0
  · have hforbidden : ¬ sesFlagsAllowed header (byteAt payload 0) = true := fun h =>
      hmask (sesFlagsAllowed_mask h)
    rw [if_pos (.inr hmask), decide_eq_true (.inr hforbidden)]
    rfl
  · rw [if_neg (not_or.mpr ⟨hses, hmask⟩), hslot]
    simp only [hses, false_or]

theorem errorOf_bare (header : Header) (x : Except WireError Unit)
    {rules : List (Bool × WireError)} (hx : errorOf x = firstViolation rules) :
    errorOf (if 3 < header.profile then .error .profile
      else if header.tc ≠ 0 then .error .trafficClass
      else if header.hopLimit = 0 then .error .hopLimit
      else if header.flags &&& 0xfc ≠ 0 then .error .flags
      else validateBareHeader header >>= fun _ => x) =
        firstViolation (bareRules header ++ rules) := by
  rw [Reference.validateBareHeader_bind]
  iterate 8
    apply errorOf_check Iff.rfl
    intro _
  exact hx

theorem echo_or_tooBig (b : Byte) : b.val ∈ [1, 2, 130] ↔ b ∈ ([1, 2, 130] : List Byte) :=
  Reference.val_mem [1, 2, 130]

theorem ctl_types (b : Byte) :
    b.val ∈ [1, 2, 128, 129, 130] ↔ b ∈ ([1, 2, 128, 129, 130] : List Byte) :=
  Reference.val_mem [1, 2, 128, 129, 130]

theorem ctl_codes : ∀ typ ∈ ([1, 2, 128, 129, 130] : List Byte), ∀ code : Byte,
    code.val ∈ Reference.allowedCodes typ.val ↔ code ∈ if typ = 128 then [0, 1, 3, 4] else [0] := by
  intro typ htyp code
  by_cases h : typ = 128
  · rw [if_pos h, h]
    exact Reference.val_mem [0, 1, 3, 4]
  · simp only [List.mem_cons, List.not_mem_nil, or_false] at htyp
    rw [if_neg h]
    rcases htyp with rfl | rfl | rfl | rfl | rfl
    · exact Reference.val_mem [0]
    · exact Reference.val_mem [0]
    · exact absurd rfl h
    · exact Reference.val_mem [0]
    · exact Reference.val_mem [0]

theorem errorOf_validateCtl (typ code : Byte) (body : List Byte) :
    errorOf (validateCtl typ code body) = firstViolation
      [(typ ∉ [1, 2, 128, 129, 130], .ctlType),
        (code ∉ if typ = 128 then [0, 1, 3, 4] else [0], .ctlCode),
        (typ ∈ [1, 2, 130] ∧ body.length < 4, .ctlBody),
        (128 ≤ typ ∧ (if typ = 130 then body.drop 4 else body).length > 512, .ctlBody)] := by
  rw [← Reference.ctlShape_eq, Reference.ctlShape_eq_ite]
  apply errorOf_check (ctl_types typ).not
  intro htype
  apply errorOf_check (ctl_codes typ (not_not.mp htype) code).not
  intro _
  apply errorOf_check
  · rw [← echo_or_tooBig]
    by_cases h : typ.val ∈ [1, 2, 130]
    · simp [h]
    · rw [if_neg h]
      simp [h]
  intro _
  apply errorOf_check
  · have h130 : typ.val = 130 ↔ typ = 130 := Reference.val_eq 130
    have hle : 128 ≤ typ.val ↔ (128 : Byte) ≤ typ := Iff.rfl
    by_cases h : typ = 130
    · subst h
      simp
    · rw [if_neg (h130.not.mpr h), if_neg h]
      by_cases hbig : 128 ≤ typ.val
      · rw [if_pos hbig]
        exact (and_iff_right (hle.mp hbig)).symm
      · rw [if_neg hbig]
        simp [← hle, hbig]
  intro _
  rfl

theorem errorOf_ctl (header : Header) (payload : List Byte) :
    errorOf (parseCtl header payload) = firstViolation (ctlRules header payload) := by
  unfold parseCtl validateCtlShape
  by_cases hshort : payload.length < 4
  · simp [hshort, ctlRules, firstViolation, errorOf, bind, Except.bind]
  · rw [if_neg hshort, ctlRules, decide_eq_false hshort]
    apply errorOf_bind (errorOf_validateCtl _ _ _)
    intro _ _
    apply errorOf_check Iff.rfl
    intro _
    rfl

theorem errorOf_dgram (header : Header) (payload : List Byte) :
    errorOf (parseDgram header payload) = firstViolation (dgramRules header payload) := by
  unfold parseDgram validateDgramShape
  apply errorOf_bind (r := [(payload.length < 8, .dgramShort),
    ((u16Of (payload.drop 4)).val ≠ payload.length, .dgramLength)])
  · apply errorOf_check Iff.rfl
    intro _
    apply errorOf_check Iff.rfl
    intro _
    rfl
  · intro _ _
    apply errorOf_check Iff.rfl
    intro _
    rfl

theorem errorOf_discard {α : Type} (x : Except WireError α) :
    errorOf (x >>= fun _ => (pure () : Except WireError Unit)) = errorOf x := by
  cases x <;> rfl

theorem errorOf_header (header : Header) (payload : List Byte)
    (hknown : header.nextHeader ∈ [NH_CTL, NH_DGRAM, NH_SES, NH_NONE]) :
    errorOf (validateHeader header payload) = firstViolation (typeRules header payload) := by
  unfold validateHeader typeRules
  rw [if_neg (not_not.mpr hknown)]
  by_cases hses : header.nextHeader = NH_SES
  · rw [if_pos hses, if_pos hses]
    exact errorOf_ses header payload
  rw [if_neg hses, if_neg hses]
  apply errorOf_bare
  by_cases hctl : header.nextHeader = NH_CTL
  · rw [if_pos hctl, if_pos hctl, errorOf_discard]
    exact errorOf_ctl header payload
  rw [if_neg hctl, if_neg hctl]
  by_cases hdgram : header.nextHeader = NH_DGRAM
  · rw [if_pos hdgram, if_pos hdgram, errorOf_discard]
    exact errorOf_dgram header payload
  rw [if_neg hdgram, if_neg hdgram]
  apply errorOf_check Iff.rfl
  intro _
  rfl

/-- This parser reports the first rule that is broken, for every input. -/
theorem errorOf_unpack (data : List Byte) (budget : ℕ) :
    errorOf (Header.unpackWithBudget data budget) = firstViolation (precedence data budget) := by
  unfold Header.unpackWithBudget precedence packetRules
  iterate 6
    apply errorOf_check Iff.rfl
    intro _
  apply errorOf_check Iff.rfl
  intro hknown
  have hheader := errorOf_header (Header.ofBytes data) (data.drop HEADER_LEN) (not_not.mp hknown)
  change errorOf (validateHeader _ _ >>= _) = firstViolation (typeRules _ _)
  rw [← hheader]
  cases validateHeader (Header.ofBytes data) (data.drop HEADER_LEN) <;> rfl

/-- Off the exact length the reference looks at the version and at the announced length first. -/
theorem checkLength_category {e₁ e₂ : WireError} (hmax : budget ≤ SERIALIZED_R8_MAX)
    (hexact : HEADER_LEN + (u16Of (data.drop 2)).val ≠ data.length)
    (hpython : Reference.checkLength data budget = .error e₁)
    (hrust : checkLength data = .error e₂) :
    e₁ = e₂ ↔ byteAt data 0 >>> 4 = VERSION ∧ HEADER_LEN + (u16Of (data.drop 2)).val ≤ budget := by
  have hlength : e₂ = .truncated ∧ data.length < HEADER_LEN + (u16Of (data.drop 2)).val ∨
      e₂ = .trailingBytes ∧ HEADER_LEN + (u16Of (data.drop 2)).val < data.length := by
    simp only [checkLength] at hrust
    split_ifs at hrust with h₁ h₂
    · exact .inl ⟨by simpa using hrust.symm, h₁⟩
    · exact .inr ⟨by simpa using hrust.symm, h₂⟩
    all_goals omega
  simp only [Reference.checkLength] at hpython
  split_ifs at hpython with hversion hcap hbudget hshort hlong
  · obtain rfl : e₁ = .version := by simpa using hpython.symm
    rcases hlength with ⟨rfl, -⟩ | ⟨rfl, -⟩ <;> simp [hversion]
  · obtain rfl : e₁ = .packetCap := by simpa using hpython.symm
    have hbig : ¬ HEADER_LEN + (u16Of (data.drop 2)).val ≤ budget := by omega
    rcases hlength with ⟨rfl, -⟩ | ⟨rfl, -⟩ <;> simp [hbig]
  · obtain rfl : e₁ = .bindingBudget := by simpa using hpython.symm
    have hbig : ¬ HEADER_LEN + (u16Of (data.drop 2)).val ≤ budget := by omega
    rcases hlength with ⟨rfl, -⟩ | ⟨rfl, -⟩ <;> simp [hbig]
  · obtain rfl : e₁ = .truncated := by simpa using hpython.symm
    rcases hlength with ⟨rfl, -⟩ | ⟨rfl, h⟩
    · exact iff_of_true rfl ⟨not_not.mp hversion, not_lt.mp hbudget⟩
    · omega
  · obtain rfl : e₁ = .trailingBytes := by simpa using hpython.symm
    rcases hlength with ⟨rfl, h⟩ | ⟨rfl, -⟩
    · omega
    · exact iff_of_true rfl ⟨not_not.mp hversion, not_lt.mp hbudget⟩

/-- Where both parsers reject, the reference follows the order exactly if none of its early checks
on the announced length comes in between. -/
theorem unpack_category_iff (data : List Byte) (budget : ℕ) (hmin : 48 ≤ budget)
    (hmax : budget ≤ SERIALIZED_R8_MAX) {e₁ e₂ : WireError}
    (hpython : Reference.Header.unpack data budget = .error e₁)
    (hrust : Header.unpackWithBudget data budget = .error e₂) :
    (e₁ = e₂ ∧ firstViolation (precedence data budget) = some e₁) ↔
      data.length < HEADER_LEN ∨ budget < data.length ∨
        HEADER_LEN + (u16Of (data.drop 2)).val = data.length ∨
        (byteAt data 0 >>> 4 = VERSION ∧ HEADER_LEN + (u16Of (data.drop 2)).val ≤ budget) := by
  have hfirst : firstViolation (precedence data budget) = some e₂ := by
    rw [← errorOf_unpack, hrust]
    rfl
  have hiff : (e₁ = e₂ ∧ firstViolation (precedence data budget) = some e₁) ↔ e₁ = e₂ := by
    rw [hfirst]
    exact ⟨And.left, fun h => ⟨h, by rw [h]⟩⟩
  rw [hiff]
  rw [Reference.unpack_eq data hmin hmax] at hpython
  rw [unpackWithBudget_eq] at hrust
  by_cases hlen : budget < data.length
  · refine iff_of_true ?_ (.inr (.inl hlen))
    by_cases hcap : SERIALIZED_R8_MAX < data.length
    · rw [if_pos hcap] at hpython hrust
      exact (Except.error.inj hpython).symm.trans (Except.error.inj hrust)
    · rw [if_neg hcap, if_pos hlen] at hpython hrust
      exact (Except.error.inj hpython).symm.trans (Except.error.inj hrust)
  have hcap : ¬ SERIALIZED_R8_MAX < data.length := by omega
  rw [if_neg hcap, if_neg hlen] at hpython hrust
  by_cases hshort : data.length < HEADER_LEN
  · rw [if_pos hshort] at hpython hrust
    exact iff_of_true ((Except.error.inj hpython).symm.trans (Except.error.inj hrust)) (.inl hshort)
  rw [if_neg hshort] at hpython hrust
  by_cases hexact : HEADER_LEN + (u16Of (data.drop 2)).val = data.length
  · refine iff_of_true ?_ (.inr (.inr (.inl hexact)))
    rw [checkLength_exact (not_lt.mp hlen) hmax hexact] at hpython
    cases hc : checkLength data with
    | error e =>
      rw [hc] at hpython hrust
      exact (Except.error.inj hpython).symm.trans (Except.error.inj hrust)
    | ok _ =>
      rw [hc] at hpython hrust
      cases hv : validateHeader (Header.ofBytes data) (data.drop HEADER_LEN) with
      | error e =>
        rw [hv] at hpython hrust
        exact (Except.error.inj hpython).symm.trans (Except.error.inj hrust)
      | ok _ =>
        rw [hv] at hrust
        cases hrust
  · obtain ⟨⟨e₁', h₁⟩, e₂', h₂⟩ := checkLength_inexact budget hexact
    rw [h₁] at hpython
    rw [h₂] at hrust
    obtain rfl : e₁' = e₁ := Except.error.inj hpython
    obtain rfl : e₂' = e₂ := Except.error.inj hrust
    rw [checkLength_category hmax hexact h₁ h₂]
    simp only [hshort, hlen, hexact, false_or]

/-- A header of zeros that announces one payload byte and ends before it. -/
def announcedByte : List Byte := [0, 0, 0, 1] ++ List.replicate 44 0

theorem announcedByte_category :
    (WireError.version = .truncated ∧
      firstViolation (precedence announcedByte 1280) = some .version) ↔
      announcedByte.length < HEADER_LEN ∨ 1280 < announcedByte.length ∨
        HEADER_LEN + (u16Of (announcedByte.drop 2)).val = announcedByte.length ∨
        (byteAt announcedByte 0 >>> 4 = VERSION ∧
          HEADER_LEN + (u16Of (announcedByte.drop 2)).val ≤ 1280) :=
  unpack_category_iff announcedByte 1280 (by decide) (by decide) (by decide +kernel)
    (by decide +kernel)

theorem category_disagrees :
    ¬ ∀ (data : List Byte) (budget : ℕ) (e₁ e₂ : WireError), 48 ≤ budget →
      budget ≤ SERIALIZED_R8_MAX → Reference.Header.unpack data budget = .error e₁ →
      Header.unpackWithBudget data budget = .error e₂ → e₁ = e₂ := by
  intro h
  have := h announcedByte 1280 .version .truncated (by decide) (by decide) (by decide +kernel)
    (by decide +kernel)
  cases this

end R8.Wire
