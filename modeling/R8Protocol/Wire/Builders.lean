import R8Protocol.Wire.Agreement
import R8Protocol.Wire.Inverse

/-! The builders of CTL and DGRAM packets against their parsers. -/
namespace R8.Wire

open FixedWidth OnesComplement

def Header.new (nextHeader : Byte) (src dst : Loc) : Header :=
  ⟨0, 0, nextHeader, 64, 0, 0, 0, src, dst⟩

/-- The bytes from a position on are written over. -/
def copyFromSlice (l : List Byte) (i : ℕ) (bytes : List Byte) : List Byte :=
  l.take i ++ bytes ++ l.drop (i + bytes.length)

def buildCtlWithBudget (header : Header) (ctype code : Byte) (body : List Byte) (budget : ℕ) :
    Except WireError (List Byte) :=
  if header.nextHeader ≠ NH_CTL then .error .nextHeader
  else do
    let length := 4 + body.length
    let _ ← checkedPacketLen length budget
    validateCtl ctype code body
    let payload := [ctype, code, 0, 0] ++ body
    let checksum := checksum16 (pseudoHeader header length NH_CTL) payload
    header.packWithBudget (copyFromSlice payload 2 (beBytes 2 checksum)) budget

def buildCtl (header : Header) (ctype code : Byte) (body : List Byte) :
    Except WireError (List Byte) :=
  buildCtlWithBudget header ctype code body SERIALIZED_R8_MAX

def buildDgramWithBudget (header : Header) (sport dport : U16) (data : List Byte) (budget : ℕ) :
    Except WireError (List Byte) :=
  if header.nextHeader ≠ NH_DGRAM then .error .nextHeader
  else do
    let length := 8 + data.length
    let _ ← checkedPacketLen length budget
    let payload := u16Bytes sport ++ u16Bytes dport ++ beBytes 2 length ++ [0, 0] ++ data
    let checksum := checksum16 (pseudoHeader header length NH_DGRAM) payload
    header.packWithBudget (copyFromSlice payload 6 (beBytes 2 checksum)) budget

def buildDgram (header : Header) (sport dport : U16) (data : List Byte) :
    Except WireError (List Byte) :=
  buildDgramWithBudget header sport dport data SERIALIZED_R8_MAX

/-- The header rules of the payloads that carry a checksum. -/
structure Header.Bare (header : Header) (nextHeader : Byte) : Prop where
  nextHeader : header.nextHeader = nextHeader
  profile : header.profile = 0
  tc : header.tc = 0
  hopLimit : header.hopLimit ≠ 0
  flags : header.flags = 0
  pathSlot : header.pathSlot = 0
  scid : header.scid = 0

/-- A payload of this length fits the packet limit and the budget. -/
def Fits (payloadLen budget : ℕ) : Prop :=
  HEADER_LEN + payloadLen ≤ SERIALIZED_R8_MAX ∧ HEADER_LEN + payloadLen ≤ budget

/-- A builder and a parser of one content, with its checksum field from byte `field` on. -/
structure Exact {α : Type} (nextHeader : Byte) (field : ℕ)
    (build : Header → α → ℕ → Except WireError (List Byte))
    (parse : Header → List Byte → Except WireError α) (shape : α → Prop) (size : α → ℕ) :
    Prop where
  succeeds : ∀ header content budget, (∃ packet, build header content budget = .ok packet) ↔
    header.Bare nextHeader ∧ shape content ∧ Fits (size content) budget
  checksum_free : ∀ header content budget, build header content budget ≠ .error .ctlChecksum ∧
    build header content budget ≠ .error .dgramChecksum
  reads : ∀ header content budget packet, build header content budget = .ok packet →
    ∃ payload, Header.unpackWithBudget packet budget = .ok (header, payload) ∧
      parse header payload = .ok content
  rebuilds : ∀ packet budget header payload,
    Header.unpackWithBudget packet budget = .ok (header, payload) →
    header.nextHeader = nextHeader → ∃ content, parse header payload = .ok content ∧
      build header content budget = .ok packet
  pins : ∀ packet budget header payload,
    Header.unpackWithBudget packet budget = .ok (header, payload) →
    header.nextHeader = nextHeader → ∀ checksum : U16,
      (∃ content, parse header (copyFromSlice payload field (u16Bytes checksum)) = .ok content) ↔
        checksum = u16Of (payload.drop field)

variable {header : Header} {payload pseudo body packet : List Byte} {budget k n : ℕ}
  {nextHeader : Byte}

theorem fold16_lt {s : ℕ} (hs : s ≤ 2 ^ 17 - 1) : fold16 (fold16 s) < 2 ^ 16 := by
  rw [fold16_eq, fold16_eq, fold, fold]
  omega

theorem sum16_lt (l : List Byte) : sum16 l < 2 ^ 16 := by
  rw [sum16, sum16From_eq]
  exact sumFrom_lt (by norm_num) (word_lt l)

/-- The sum fits sixteen bits after two folds, so the complement is always taken. -/
theorem checksumRaw_sum_lt (pseudo body : List Byte) :
    fold16 (fold16 (sum16 pseudo + sum16 body)) < 2 ^ 16 := by
  have hpseudo := sum16_lt pseudo
  have hbody := sum16_lt body
  exact fold16_lt (by omega)

theorem checksum16_pos (pseudo body : List Byte) : 0 < checksum16 pseudo body := by
  unfold checksum16
  split <;> omega

theorem checksum16_lt (pseudo body : List Byte) : checksum16 pseudo body < 2 ^ 16 := by
  unfold checksum16 checksumRaw
  dsimp only
  split_ifs <;> omega

theorem checksum16_eq_negate (heven : pseudo.length % 2 = 0) (hpos : 0 < wordSum pseudo) :
    checksum16 pseudo body =
      negate 16 (sumFrom 16 0 (words 256 ((pseudo ++ body).map Fin.val))) := by
  rw [checksum16, checksumRaw_eq pseudo body heven hpos]
  rfl

theorem copyFromSlice_append (pre : List Byte) {bytes old : List Byte} (post : List Byte)
    (hpre : pre.length = k) (hold : old.length = bytes.length) :
    copyFromSlice (pre ++ (old ++ post)) k bytes = pre ++ (bytes ++ post) := by
  have hlen : (pre ++ old).length = k + bytes.length := by rw [List.length_append, hpre, hold]
  rw [copyFromSlice, List.take_left' hpre, ← List.append_assoc pre old, List.drop_left' hlen,
    List.append_assoc]

/-- What both parsers ask of the checksum field. -/
def Verifies (header : Header) (payload : List Byte) (nextHeader : Byte) (field : ℕ) : Prop :=
  ¬ (u16Of (payload.drop field) = 0 ∨ ¬ checksumValid header payload nextHeader)

/-- A received field verifies exactly if it is what the builders put there. -/
theorem verifies_iff (pre post : List Byte) (header : Header) (nextHeader : Byte) (checksum : U16)
    (hpre : pre.length = k) (heven : k % 2 = 0) (hn : k + 2 + post.length = n)
    (hsmall : n < 2 ^ 16) :
    Verifies header (pre ++ (u16Bytes checksum ++ post)) nextHeader k ↔
      checksum.val = checksum16 (pseudoHeader header n nextHeader) (pre ++ ([0, 0] ++ post)) := by
  set payload := pre ++ (u16Bytes checksum ++ post) with hpayload
  have hlen : payload.length = n := by
    rw [hpayload, List.length_append, List.length_append, u16Bytes_length, hpre]
    omega
  have hfield : u16Of (payload.drop k) = checksum := by
    rw [hpayload, List.drop_left' hpre, u16Of_u16Bytes]
  have htake : payload.take k = pre := List.take_left' hpre
  have hdrop : payload.drop (k + 2) = post := by
    have hpair : (pre ++ u16Bytes checksum).length = k + 2 := by
      rw [List.length_append, u16Bytes_length, hpre]
    rw [hpayload, ← List.append_assoc, List.drop_left' hpair]
  have hsum : checksum16 (pseudoHeader header n nextHeader) (pre ++ ([0, 0] ++ post)) =
      negate 16 (sumFrom 16 0 (words 256 ((pseudoHeader header payload.length nextHeader ++
        (payload.take k ++ [0, 0] ++ payload.drop (k + 2))).map Fin.val))) := by
    rw [hlen, htake, hdrop, List.append_assoc]
    apply checksum16_eq_negate (by rw [pseudoHeader_length])
    exact wordSum_pseudoHeader_pos header nextHeader (by omega) hsmall
  rw [Verifies, hfield]
  by_cases hzero : checksum = 0
  · -- a computed zero is never sent
    have hpos := checksum16_pos (pseudoHeader header n nextHeader) (pre ++ ([0, 0] ++ post))
    have hval : checksum.val = 0 := Fin.val_eq_zero_iff.mpr hzero
    constructor
    · intro h
      exact absurd (.inl hzero) h
    · omega
  · have hvalid := checksumValid_iff header payload nextHeader heven (by omega)
      (by omega) (by rwa [hfield])
    rw [hfield, ← hsum] at hvalid
    rw [or_iff_right hzero, not_not, hvalid, eq_comm]

section Families

variable {α : Type} {field : ℕ} {build : Header → α → ℕ → Except WireError (List Byte)}
  {parse : Header → List Byte → Except WireError α} {shape : α → Prop} {size : α → ℕ}

/-- A payload family: how contents are checked, laid out and summed. -/
structure Framed (nextHeader : Byte) (field : ℕ)
    (build : Header → α → ℕ → Except WireError (List Byte))
    (parse : Header → List Byte → Except WireError α) (shape : α → Prop) (size : α → ℕ)
    (check : α → Except WireError Unit) (frame : α → U16 → List Byte) (sum : Header → α → U16) :
    Prop where
  check_ok : ∀ x, check x = .ok () ↔ shape x
  check_error : ∀ x, check x ≠ .error .ctlChecksum ∧ check x ≠ .error .dgramChecksum
  frame_length : ∀ x c, (frame x c).length = size x
  frame_field : ∀ x c, u16Of ((frame x c).drop field) = c
  frame_copy : ∀ x c c', copyFromSlice (frame x c) field (u16Bytes c') = frame x c'
  build_eq : ∀ header x budget, build header x budget =
    if header.nextHeader ≠ nextHeader then .error .nextHeader
    else do
      let _ ← checkedPacketLen (size x) budget
      check x
      header.packWithBudget (frame x (sum header x)) budget
  parse_frame : ∀ header x c y, size x < 2 ^ 16 →
    (parse header (frame x c) = .ok y ↔ shape x ∧ c = sum header x ∧ y = x)
  parse_framed : ∀ header payload x, parse header payload = .ok x → ∃ c, payload = frame x c
  validate_ok : ∀ header payload, header.nextHeader = nextHeader →
    (validateHeader header payload = .ok () ↔
      header.Bare nextHeader ∧ ∃ x, parse header payload = .ok x)
  validate_error : ∀ header payload, (∃ x, parse header payload = .ok x) →
    header.nextHeader = nextHeader → validateHeader header payload ≠ .error .ctlChecksum ∧
      validateHeader header payload ≠ .error .dgramChecksum

variable {check : α → Except WireError Unit} {frame : α → U16 → List Byte}
  {sum : Header → α → U16} {x : α}

theorem Fits.small (h : Fits n budget) : n < 2 ^ 16 := by
  have := h.1
  rw [SERIALIZED_R8_MAX, HEADER_LEN] at this
  omega

theorem Framed.parse_sum (F : Framed nextHeader field build parse shape size check frame sum)
    (hshape : shape x) (hfits : Fits (size x) budget) (header : Header) :
    parse header (frame x (sum header x)) = .ok x :=
  (F.parse_frame header x _ x hfits.small).mpr ⟨hshape, rfl, rfl⟩

theorem Framed.build_ok (F : Framed nextHeader field build parse shape size check frame sum)
    (hbare : header.Bare nextHeader) (hshape : shape x) (hfits : Fits (size x) budget) :
    build header x budget = .ok (header.bytes (frame x (sum header x))) := by
  have hvalid : validateHeader header (frame x (sum header x)) = .ok () :=
    (F.validate_ok header _ hbare.nextHeader).mpr ⟨hbare, x, F.parse_sum hshape hfits header⟩
  have hpack : header.packWithBudget (frame x (sum header x)) budget =
      .ok (header.bytes (frame x (sum header x))) := by
    apply pack_of_validate hvalid
    · rw [F.frame_length]
      exact hfits.1
    · rw [F.frame_length]
      exact hfits.2
  rw [F.build_eq, if_neg (not_not.mpr hbare.nextHeader)]
  simp [checkedPacketLen_of_le hfits.1 hfits.2, (F.check_ok x).mpr hshape, hpack, bind, Except.bind]

theorem Framed.of_build (F : Framed nextHeader field build parse shape size check frame sum)
    (h : build header x budget = .ok packet) :
    header.Bare nextHeader ∧ shape x ∧ Fits (size x) budget ∧
      header.packWithBudget (frame x (sum header x)) budget = .ok packet := by
  rw [F.build_eq] at h
  simp only [Outcome.ite_error_eq_ok, Outcome.bind_eq_ok, not_not] at h
  obtain ⟨hnext, total, htotal, ⟨⟩, hcheck, hpack⟩ := h
  obtain ⟨-, hvalid, -⟩ := pack_eq_ok hpack
  exact ⟨((F.validate_ok header _ hnext).mp hvalid).1, (F.check_ok x).mp hcheck,
    checkedPacketLen_eq_ok htotal, hpack⟩

/-- The checksum is the last thing put in, so it is never what a builder fails for. -/
theorem Framed.build_error (F : Framed nextHeader field build parse shape size check frame sum)
    (header : Header) (x : α) (budget : ℕ) {e : WireError}
    (he : e = .ctlChecksum ∨ e = .dgramChecksum) : build header x budget ≠ .error e := by
  have hlen_ne : ∀ n, checkedPacketLen n budget ≠ .error e := by
    intro n h
    unfold checkedPacketLen at h
    rcases he with rfl | rfl <;> split_ifs at h <;> cases h
  have hcheck_ne : check x ≠ .error e := by
    obtain ⟨hctl, hdgram⟩ := F.check_error x
    rcases he with rfl | rfl
    · exact hctl
    · exact hdgram
  intro h
  rw [F.build_eq] at h
  split at h
  · rcases he with rfl | rfl <;> simp at h
  rename_i hnext
  rcases Outcome.bind_eq_error.mp h with h | ⟨total, htotal, h⟩
  · exact hlen_ne _ h
  rcases Outcome.bind_eq_error.mp h with h | ⟨⟨⟩, hcheck, h⟩
  · exact hcheck_ne h
  rcases Outcome.bind_eq_error.mp h with h | ⟨-, -, h⟩
  · exact hlen_ne _ h
  rcases Outcome.bind_eq_error.mp h with h | ⟨⟨⟩, -, h⟩
  · have hparse := F.parse_sum ((F.check_ok x).mp hcheck) (checkedPacketLen_eq_ok htotal) header
    obtain ⟨hctl, hdgram⟩ := F.validate_error header _ ⟨x, hparse⟩ (not_not.mp hnext)
    rcases he with rfl | rfl
    · exact hctl h
    · exact hdgram h
  · simp at h

/-- Every packet of the family is what its own header and content build. -/
theorem Framed.build_of_unpack
    (F : Framed nextHeader field build parse shape size check frame sum)
    (hu : Header.unpackWithBudget packet budget = .ok (header, payload))
    (hnext : header.nextHeader = nextHeader) :
    ∃ x, parse header payload = .ok x ∧ payload = frame x (sum header x) ∧ shape x ∧
      Fits (size x) budget ∧ build header x budget = .ok packet := by
  obtain ⟨hdata, hmax, hbudget⟩ := bytes_of_unpack hu
  have hvalid : validateHeader header payload = .ok () := by
    obtain ⟨rfl, rfl, -, hv⟩ := unpack_eq_ok hu
    exact hv
  obtain ⟨hbare, x, hx⟩ := (F.validate_ok header payload hnext).mp hvalid
  obtain ⟨c, rfl⟩ := F.parse_framed header payload x hx
  have hfits : Fits (size x) budget := by
    rw [← F.frame_length x c]
    exact ⟨hmax, hbudget⟩
  obtain ⟨hshape, rfl, -⟩ := (F.parse_frame header x c x hfits.small).mp hx
  refine ⟨x, hx, rfl, hshape, hfits, ?_⟩
  rw [hdata]
  exact F.build_ok hbare hshape hfits

theorem Framed.exact (F : Framed nextHeader field build parse shape size check frame sum) :
    Exact nextHeader field build parse shape size where
  succeeds := by
    intro header x budget
    constructor
    · rintro ⟨packet, h⟩
      obtain ⟨hbare, hshape, hfits, -⟩ := F.of_build h
      exact ⟨hbare, hshape, hfits⟩
    · rintro ⟨hbare, hshape, hfits⟩
      exact ⟨_, F.build_ok hbare hshape hfits⟩
  checksum_free := by
    intro header x budget
    exact ⟨F.build_error header x budget (.inl rfl), F.build_error header x budget (.inr rfl)⟩
  reads := by
    intro header x budget packet h
    obtain ⟨-, hshape, hfits, hpack⟩ := F.of_build h
    exact ⟨_, unpack_of_pack hpack, F.parse_sum hshape hfits header⟩
  rebuilds := by
    intro packet budget header payload hu hnext
    obtain ⟨x, hx, -, -, -, hbuild⟩ := F.build_of_unpack hu hnext
    exact ⟨x, hx, hbuild⟩
  pins := by
    intro packet budget header payload hu hnext checksum
    obtain ⟨x, -, rfl, hshape, hfits, -⟩ := F.build_of_unpack hu hnext
    rw [F.frame_copy, F.frame_field]
    constructor
    · rintro ⟨y, hy⟩
      exact ((F.parse_frame header x checksum y hfits.small).mp hy).2.1
    · rintro rfl
      exact ⟨x, F.parse_sum hshape hfits header⟩

end Families

/-- The payload of a CTL packet around its checksum. -/
def ctlPayload : Byte × Byte × List Byte → U16 → List Byte
  | (ctype, code, body), checksum => [ctype, code] ++ (u16Bytes checksum ++ body)

/-- The payload of a DGRAM packet around its checksum. -/
def dgramPayload : U16 × U16 × List Byte → U16 → List Byte
  | (sport, dport, data), checksum =>
    u16Bytes sport ++ u16Bytes dport ++ beBytes 2 (8 + data.length) ++ (u16Bytes checksum ++ data)

theorem validateHeader_of_not_bare (hnext : header.nextHeader = nextHeader)
    (hses : nextHeader ≠ NH_SES) (h : ¬ header.Bare nextHeader) (payload : List Byte) :
    ∃ e, validateHeader header payload = .error e ∧
      e ∈ [.nextHeader, .profile, .trafficClass, .hopLimit, .flags, .pathSlot, .scid] := by
  subst hnext
  unfold validateHeader
  rw [if_neg hses]
  split_ifs with hknown hprofile htc hhop hflags hctl hdgram
  all_goals try exact ⟨_, rfl, by decide⟩
  all_goals
    unfold validateBareHeader
    split_ifs with h0 hf hs hscid
    all_goals try exact ⟨_, rfl, by decide⟩
    exact absurd ⟨rfl, not_not.mp h0, not_not.mp htc, hhop, not_not.mp hf, not_not.mp hs,
      not_not.mp hscid⟩ h

theorem validateHeader_ctl (h : header.Bare NH_CTL) (payload : List Byte) :
    validateHeader header payload = (parseCtl header payload).map fun _ => () := by
  obtain ⟨hnext, hprofile, htc, hhop, hflags, hslot, hscid⟩ := h
  have hses : NH_CTL ≠ NH_SES := by decide
  have hmem : NH_CTL ∈ [NH_CTL, NH_DGRAM, NH_SES, NH_NONE] := by decide
  cases hparse : parseCtl header payload with
  | error e =>
    simp [validateHeader, validateBareHeader, hnext, hprofile, htc, hhop, hflags, hslot, hscid,
      hses, hmem, hparse, bind, Except.bind, Except.map]
  | ok r =>
    simp [validateHeader, validateBareHeader, hnext, hprofile, htc, hhop, hflags, hslot, hscid,
      hses, hmem, hparse, bind, Except.bind, Except.map, pure, Except.pure]

theorem validateHeader_dgram (h : header.Bare NH_DGRAM) (payload : List Byte) :
    validateHeader header payload = (parseDgram header payload).map fun _ => () := by
  obtain ⟨hnext, hprofile, htc, hhop, hflags, hslot, hscid⟩ := h
  have hses : NH_DGRAM ≠ NH_SES := by decide
  have hctl : NH_DGRAM ≠ NH_CTL := by decide
  have hmem : NH_DGRAM ∈ [NH_CTL, NH_DGRAM, NH_SES, NH_NONE] := by decide
  cases hparse : parseDgram header payload with
  | error e =>
    simp [validateHeader, validateBareHeader, hnext, hprofile, htc, hhop, hflags, hslot, hscid,
      hses, hctl, hmem, hparse, bind, Except.bind, Except.map]
  | ok r =>
    simp [validateHeader, validateBareHeader, hnext, hprofile, htc, hhop, hflags, hslot, hscid,
      hses, hctl, hmem, hparse, bind, Except.bind, Except.map, pure, Except.pure]

section Bare

variable {α : Type} {parse : Header → List Byte → Except WireError α}
  (hses : nextHeader ≠ NH_SES)
  (hparse : ∀ header : Header, header.Bare nextHeader → ∀ payload,
    validateHeader header payload = (parse header payload).map fun _ => ())
include hses hparse

theorem validateHeader_ok_iff (header : Header) (payload : List Byte)
    (hnext : header.nextHeader = nextHeader) : validateHeader header payload = .ok () ↔
      header.Bare nextHeader ∧ ∃ x, parse header payload = .ok x := by
  by_cases hbare : header.Bare nextHeader
  · rw [hparse header hbare, and_iff_right hbare]
    cases parse header payload <;> simp [Except.map]
  · obtain ⟨e, he, -⟩ := validateHeader_of_not_bare hnext hses hbare payload
    simp [he, hbare]

theorem validateHeader_error_ne (header : Header) (payload : List Byte)
    (hok : ∃ x, parse header payload = .ok x) (hnext : header.nextHeader = nextHeader) :
    validateHeader header payload ≠ .error .ctlChecksum ∧
      validateHeader header payload ≠ .error .dgramChecksum := by
  by_cases hbare : header.Bare nextHeader
  · obtain ⟨x, hx⟩ := hok
    simp [hparse header hbare, hx, Except.map]
  · obtain ⟨e, he, hmem⟩ := validateHeader_of_not_bare hnext hses hbare payload
    rw [he]
    constructor
    · rintro ⟨⟩
      simp at hmem
    · rintro ⟨⟩
      simp at hmem

end Bare

theorem validateCtl_error_ne (ctype code : Byte) (body : List Byte) :
    validateCtl ctype code body ≠ .error .ctlChecksum ∧
      validateCtl ctype code body ≠ .error .dgramChecksum := by
  unfold validateCtl
  split_ifs <;> simp

theorem parseCtl_eq_ok {x : Byte × Byte × List Byte} : parseCtl header payload = .ok x ↔
    validateCtlShape payload = .ok () ∧ Verifies header payload NH_CTL 2 ∧
      x = (byteAt payload 0, byteAt payload 1, payload.drop 4) := by
  simp only [parseCtl, Outcome.bind_eq_ok, Outcome.ite_error_eq_ok, Except.ok.injEq, Verifies]
  constructor
  · rintro ⟨⟨⟩, hshape, hverifies, rfl⟩
    exact ⟨hshape, hverifies, rfl⟩
  · rintro ⟨hshape, hverifies, rfl⟩
    exact ⟨(), hshape, hverifies, rfl⟩

theorem parseDgram_eq_ok {x : U16 × U16 × List Byte} : parseDgram header payload = .ok x ↔
    validateDgramShape payload = .ok () ∧ Verifies header payload NH_DGRAM 6 ∧
      x = (u16Of payload, u16Of (payload.drop 2), payload.drop 8) := by
  simp only [parseDgram, Outcome.bind_eq_ok, Outcome.ite_error_eq_ok, Except.ok.injEq, Verifies]
  constructor
  · rintro ⟨⟨⟩, hshape, hverifies, rfl⟩
    exact ⟨hshape, hverifies, rfl⟩
  · rintro ⟨hshape, hverifies, rfl⟩
    exact ⟨(), hshape, hverifies, rfl⟩

def ctlSum (header : Header) : Byte × Byte × List Byte → U16
  | (ctype, code, body) => ⟨checksum16 (pseudoHeader header (4 + body.length) NH_CTL)
      ([ctype, code, 0, 0] ++ body), checksum16_lt _ _⟩

def dgramSum (header : Header) : U16 × U16 × List Byte → U16
  | (sport, dport, data) => ⟨checksum16 (pseudoHeader header (8 + data.length) NH_DGRAM)
      (u16Bytes sport ++ u16Bytes dport ++ beBytes 2 (8 + data.length) ++ [0, 0] ++ data),
      checksum16_lt _ _⟩

/-- The first four bytes of a CTL payload are its type, its code and its checksum. -/
theorem ctlPayload_of_length (h : 4 ≤ payload.length) : payload =
    ctlPayload (byteAt payload 0, byteAt payload 1, payload.drop 4) (u16Of (payload.drop 2)) := by
  have hfield : u16Bytes (u16Of (payload.drop 2)) = (payload.drop 2).take 2 :=
    u16Bytes_u16Of (by simp; omega)
  have hrest : (payload.drop 2).take 2 ++ payload.drop 4 = payload.drop 2 :=
    slice_append_drop (show 2 ≤ 4 by omega)
  rw [ctlPayload, hfield, hrest, List.cons_append, List.cons_append, List.nil_append,
    byteAt_cons_drop (by omega), byteAt_cons_drop (by omega), List.drop_zero]

theorem ctl_framed : Framed NH_CTL 2
    (fun header x budget => buildCtlWithBudget header x.1 x.2.1 x.2.2 budget) parseCtl
    (fun x => validateCtl x.1 x.2.1 x.2.2 = .ok ()) (fun x => 4 + x.2.2.length)
    (fun x => validateCtl x.1 x.2.1 x.2.2) ctlPayload ctlSum where
  check_ok := by
    intro x
    rfl
  check_error := by
    rintro ⟨ctype, code, body⟩
    exact validateCtl_error_ne ctype code body
  frame_length := by
    rintro ⟨ctype, code, body⟩ c
    simp [ctlPayload]
    omega
  frame_field := by
    rintro ⟨ctype, code, body⟩ c
    exact u16Of_u16Bytes c body
  frame_copy := by
    rintro ⟨ctype, code, body⟩ c c'
    exact copyFromSlice_append [ctype, code] body rfl rfl
  build_eq := by
    rintro header ⟨ctype, code, body⟩ budget
    have hcopy : copyFromSlice ([ctype, code, 0, 0] ++ body) 2 (beBytes 2 (checksum16
        (pseudoHeader header (4 + body.length) NH_CTL) ([ctype, code, 0, 0] ++ body))) =
        ctlPayload (ctype, code, body) (ctlSum header (ctype, code, body)) :=
      copyFromSlice_append [ctype, code] body rfl rfl
    simp only [buildCtlWithBudget, hcopy]
  parse_frame := by
    rintro header ⟨ctype, code, body⟩ c y hsmall
    have hverifies := verifies_iff (k := 2) (n := 4 + body.length) [ctype, code] body header
      NH_CTL c rfl rfl (by dsimp) hsmall
    have hsum : c = ctlSum header (ctype, code, body) ↔
        c.val = checksum16 (pseudoHeader header (4 + body.length) NH_CTL)
          ([ctype, code] ++ ([0, 0] ++ body)) := Fin.ext_iff
    have hshape : validateCtlShape (ctlPayload (ctype, code, body) c) =
        validateCtl ctype code body := by
      have hlen : ¬ (ctlPayload (ctype, code, body) c).length < 4 := by
        simp [ctlPayload]
      rw [validateCtlShape, if_neg hlen]
      rfl
    rw [parseCtl_eq_ok, hshape, hsum]
    exact and_congr_right fun _ => and_congr_left fun _ => hverifies
  parse_framed := by
    intro header payload x h
    obtain ⟨hshape, -, rfl⟩ := parseCtl_eq_ok.mp h
    simp only [validateCtlShape, Outcome.ite_error_eq_ok] at hshape
    exact ⟨_, ctlPayload_of_length (not_lt.mp hshape.1)⟩
  validate_ok := validateHeader_ok_iff (by decide) fun _ => validateHeader_ctl
  validate_error := by
    intro header payload
    exact validateHeader_error_ne (by decide) (fun _ => validateHeader_ctl) header payload

/-- The first eight bytes of a DGRAM payload are its ports, its length and its checksum. -/
theorem dgramPayload_of_shape (h : 8 ≤ payload.length)
    (hlen : (u16Of (payload.drop 4)).val = payload.length) : payload =
      dgramPayload (u16Of payload, u16Of (payload.drop 2), payload.drop 8)
        (u16Of (payload.drop 6)) := by
  have hsport : u16Bytes (u16Of payload) = payload.take 2 := u16Bytes_u16Of (by omega)
  have hdport : u16Bytes (u16Of (payload.drop 2)) = slice payload 2 4 :=
    u16Bytes_u16Of (by simp; omega)
  have hsize : beBytes 2 (8 + (payload.drop 8).length) = slice payload 4 6 := by
    have hrest : 8 + (payload.drop 8).length = (u16Of (payload.drop 4)).val := by
      rw [List.length_drop, hlen]
      omega
    rw [hrest]
    exact u16Bytes_u16Of (by simp; omega)
  have hfield : u16Bytes (u16Of (payload.drop 6)) = slice payload 6 8 :=
    u16Bytes_u16Of (by simp; omega)
  rw [dgramPayload, hsport, hdport, hsize, hfield]
  simp only [List.append_assoc]
  rw [slice_append_drop (by omega), slice_append_drop (by omega), slice_append_drop (by omega),
    List.take_append_drop]

theorem dgramPayload_length (x : U16 × U16 × List Byte) (c : U16) :
    (dgramPayload x c).length = 8 + x.2.2.length := by
  obtain ⟨sport, dport, data⟩ := x
  simp only [dgramPayload, List.length_append, u16Bytes_length, beBytes_length]
  omega

theorem dgramPayload_read (x : U16 × U16 × List Byte) (c : U16) :
    (u16Of (dgramPayload x c), u16Of ((dgramPayload x c).drop 2), (dgramPayload x c).drop 8) =
      x := by
  obtain ⟨sport, dport, data⟩ := x
  set length := beBytes 2 (8 + data.length) with hlength
  have hparts : dgramPayload (sport, dport, data) c =
      u16Bytes sport ++ (u16Bytes dport ++ (length ++ (u16Bytes c ++ data))) := by
    simp only [dgramPayload, List.append_assoc, hlength]
  have hfront : (u16Bytes sport ++ u16Bytes dport ++ length ++ u16Bytes c).length = 8 := by
    simp [hlength]
  have hdata : (dgramPayload (sport, dport, data) c).drop 8 = data := by
    rw [dgramPayload, ← hlength, ← List.append_assoc, List.drop_left' hfront]
  rw [hdata, hparts, u16Of_u16Bytes, List.drop_left' (u16Bytes_length sport), u16Of_u16Bytes]

/-- The declared length is the one written down. -/
theorem dgramPayload_shape (x : U16 × U16 × List Byte) (c : U16) (h : 8 + x.2.2.length < 2 ^ 16) :
    validateDgramShape (dgramPayload x c) = .ok () := by
  have hdeclared : (u16Of ((dgramPayload x c).drop 4)).val = 8 + x.2.2.length := by
    have hdrop : (dgramPayload x c).drop 4 =
        u16Bytes ⟨8 + x.2.2.length, h⟩ ++ (u16Bytes c ++ x.2.2) := by
      obtain ⟨sport, dport, data⟩ := x
      have hports : (u16Bytes sport ++ u16Bytes dport).length = 4 := by simp
      rw [dgramPayload, List.append_assoc (u16Bytes sport ++ u16Bytes dport),
        List.drop_left' hports]
      rfl
    rw [hdrop, u16Of_u16Bytes]
  have hlen := dgramPayload_length x c
  rw [validateDgramShape, if_neg (by omega), if_neg (by omega)]

theorem dgram_framed : Framed NH_DGRAM 6
    (fun header x budget => buildDgramWithBudget header x.1 x.2.1 x.2.2 budget) parseDgram
    (fun _ => True) (fun x => 8 + x.2.2.length) (fun _ => .ok ()) dgramPayload dgramSum where
  check_ok := by simp
  check_error := by simp
  frame_length := dgramPayload_length
  frame_field := by
    rintro ⟨sport, dport, data⟩ c
    rw [dgramPayload, List.drop_left' (by simp), u16Of_u16Bytes]
  frame_copy := by
    rintro ⟨sport, dport, data⟩ c c'
    exact copyFromSlice_append _ data (by simp) rfl
  build_eq := by
    rintro header ⟨sport, dport, data⟩ budget
    have hcopy : copyFromSlice (u16Bytes sport ++ u16Bytes dport ++ beBytes 2 (8 + data.length) ++
          [0, 0] ++ data) 6 (beBytes 2 (checksum16 (pseudoHeader header (8 + data.length) NH_DGRAM)
            (u16Bytes sport ++ u16Bytes dport ++ beBytes 2 (8 + data.length) ++ [0, 0] ++ data))) =
        dgramPayload (sport, dport, data) (dgramSum header (sport, dport, data)) := by
      rw [List.append_assoc _ [0, 0] data]
      exact copyFromSlice_append _ data (by simp) rfl
    simp only [buildDgramWithBudget, hcopy]
    rfl
  parse_frame := by
    rintro header ⟨sport, dport, data⟩ c y hsmall
    have hverifies := verifies_iff (k := 6) (n := 8 + data.length)
      (u16Bytes sport ++ u16Bytes dport ++ beBytes 2 (8 + data.length)) data header NH_DGRAM c
      (by simp) rfl (by dsimp) hsmall
    have hsum : c = dgramSum header (sport, dport, data) ↔
        c.val = checksum16 (pseudoHeader header (8 + data.length) NH_DGRAM)
          (u16Bytes sport ++ u16Bytes dport ++ beBytes 2 (8 + data.length) ++
            ([0, 0] ++ data)) := by
      rw [← List.append_assoc]
      exact Fin.ext_iff
    rw [parseDgram_eq_ok, hsum]
    rw [dgramPayload_read]
    exact and_congr (iff_of_true (dgramPayload_shape _ c hsmall) trivial)
      (and_congr_left fun _ => hverifies)
  parse_framed := by
    intro header payload x h
    obtain ⟨hshape, -, rfl⟩ := parseDgram_eq_ok.mp h
    simp only [validateDgramShape, Outcome.ite_error_eq_ok] at hshape
    exact ⟨_, dgramPayload_of_shape (not_lt.mp hshape.1) (not_not.mp hshape.2.1)⟩
  validate_ok := validateHeader_ok_iff (by decide) fun _ => validateHeader_dgram
  validate_error := by
    intro header payload
    exact validateHeader_error_ne (by decide) (fun _ => validateHeader_dgram) header payload

/-- The builders write exactly what the parsers read, with one checksum for each content. -/
theorem builders_exact :
    Exact NH_CTL 2 (fun header x budget => buildCtlWithBudget header x.1 x.2.1 x.2.2 budget) parseCtl
      (fun x => validateCtl x.1 x.2.1 x.2.2 = .ok ()) (fun x => 4 + x.2.2.length) ∧
    Exact NH_DGRAM 6 (fun header x budget => buildDgramWithBudget header x.1 x.2.1 x.2.2 budget)
      parseDgram (fun _ => True) (fun x => 8 + x.2.2.length) ∧
    (∀ header payload,
      (∀ x, parseCtl header payload = .ok x → u16Of (payload.drop 2) ≠ 0) ∧
      ∀ x, parseDgram header payload = .ok x → u16Of (payload.drop 6) ≠ 0) ∧
    ∀ pseudo body, fold16 (fold16 (sum16 pseudo + sum16 body)) < 2 ^ 16 ∧
      0 < checksum16 pseudo body ∧
      (checksumRaw pseudo body = 0 → checksum16 pseudo body = 0xffff) := by
  refine ⟨ctl_framed.exact, dgram_framed.exact, ?_, ?_⟩
  · intro header payload
    constructor
    · intro x h
      exact fun hzero => (parseCtl_eq_ok.mp h).2.1 (.inl hzero)
    · intro x h
      exact fun hzero => (parseDgram_eq_ok.mp h).2.1 (.inl hzero)
  · intro pseudo body
    refine ⟨checksumRaw_sum_lt pseudo body, checksum16_pos pseudo body, ?_⟩
    intro hzero
    rw [checksum16, if_pos hzero]

end R8.Wire
