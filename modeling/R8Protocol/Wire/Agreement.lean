import R8Protocol.Lib.OnesComplement
import R8Protocol.Wire.Reference

/-! The reference parser and this one read the same packets. -/
namespace R8.Wire

open FixedWidth OnesComplement

variable {header : Header} {payload data : List Byte} {s k : ℕ}

theorem fold16_eq (s : ℕ) : fold16 s = fold 16 s := by
  rw [fold16, fold, Nat.shiftRight_eq_div_pow, ← Nat.and_two_pow_sub_one_eq_mod]

theorem sum16From_eq (s : ℕ) (l : List Byte) :
    sum16From s l = sumFrom 16 s (words 256 (l.map Fin.val)) := by
  induction s, l using sum16From.induct with
  | case1 s a b rest ih =>
    rw [sum16From, ih, fold16_eq]
    rfl
  | case2 s last =>
    rw [sum16From, fold16_eq]
    rfl
  | case3 s => rfl

/-- The sum of a byte string by words. -/
def wordSum (l : List Byte) : ℕ := (words 256 (l.map Fin.val)).sum

theorem word_lt (l : List Byte) : ∀ x ∈ words 256 (l.map Fin.val), x < 2 ^ 16 := by
  apply words_lt
  intro x hx
  obtain ⟨b, -, rfl⟩ := List.mem_map.mp hx
  exact b.isLt

end R8.Wire

namespace R8.Reference

open FixedWidth OnesComplement Wire

theorem carry_eq (total : ℕ) : carry total = fold 16 total := fold16_eq total

theorem pairAt_cons (a b : Byte) (rest : List Byte) (offset : ℕ) :
    pairAt (a :: b :: rest) (offset + 2) = pairAt rest offset := rfl

theorem pairAt_zero (a b : Byte) (rest : List Byte) :
    pairAt (a :: b :: rest) 0 = a.val * 256 + b.val := by
  have h := Nat.shiftLeft_add_eq_or_of_lt (i := 8) b.isLt a.val
  rw [Nat.shiftLeft_eq] at h
  change a.val <<< 8 ||| b.val = _
  rw [Nat.shiftLeft_eq, ← h]

/-- The loop over the even offsets. -/
def pairLoop (s : ℕ) (l : List Byte) : ℕ :=
  (List.range' 0 (l.length / 2) 2).foldl (fun total offset => carry (total + pairAt l offset)) s

theorem pairLoop_cons (s : ℕ) (a b : Byte) (rest : List Byte) :
    pairLoop s (a :: b :: rest) = pairLoop (carry (s + (a.val * 256 + b.val))) rest := by
  have hlen : (a :: b :: rest).length / 2 = rest.length / 2 + 1 := by
    simp only [List.length_cons]
    omega
  have hmap : List.range' 2 (rest.length / 2) 2 =
      (List.range' 0 (rest.length / 2) 2).map (2 + ·) := by
    rw [List.map_add_range']
  rw [pairLoop, hlen, List.range'_succ, List.foldl_cons, pairAt_zero, Nat.zero_add, hmap,
    List.foldl_map, pairLoop]
  congr 1
  funext total offset
  rw [Nat.add_comm 2, pairAt_cons]

/-- The loop and the odd byte after it take the words in order. -/
theorem pairLoop_eq (s : ℕ) (l : List Byte) :
    (if l.length % 2 ≠ 0 then carry (pairLoop s l + (byteAt l (l.length - 1)).val <<< 8)
      else pairLoop s l) = sumFrom 16 s (words 256 (l.map Fin.val)) := by
  induction s, l using sum16From.induct with
  | case1 s a b rest ih =>
    have hodd : (a :: b :: rest).length % 2 = rest.length % 2 := by
      simp only [List.length_cons]
      omega
    have hlast : rest.length % 2 ≠ 0 →
        byteAt (a :: b :: rest) ((a :: b :: rest).length - 1) = byteAt rest (rest.length - 1) := by
      intro h
      have : (a :: b :: rest).length - 1 = rest.length - 1 + 2 := by
        simp only [List.length_cons]
        omega
      rw [this]
      rfl
    rw [hodd, pairLoop_cons]
    calc _ = sumFrom 16 (fold16 (s + (a.val * 256 + b.val))) (words 256 (rest.map Fin.val)) := by
          rw [← ih]
          split
          · rw [hlast ‹_›]
            rfl
          · rfl
      _ = _ := by
          rw [fold16_eq]
          rfl
  | case2 s last =>
    have hloop : pairLoop s [last] = s := by
      simp [pairLoop]
    rw [if_pos (by simp), hloop, carry_eq, Nat.shiftLeft_eq]
    rfl
  | case3 s => rfl

theorem sum16_eq (l : List Byte) : sum16 l = sumFrom 16 0 (words 256 (l.map Fin.val)) := by
  have : (l.length - l.length % 2) / 2 = l.length / 2 := by omega
  rw [← pairLoop_eq, sum16, this]
  rfl

theorem checksum16_eq (pseudo body : List Byte) :
    orElse (checksum16 pseudo body) 0xffff =
      negate 16 (sumFrom 16 0 (words 256 ((pseudo ++ body).map Fin.val))) := by
  have hlt : sumFrom 16 0 (words 256 ((pseudo ++ body).map Fin.val)) < 2 ^ 16 :=
    sumFrom_lt (by norm_num) (word_lt _)
  rw [checksum16, sum16_eq, carry_eq, fold_of_lt hlt]
  generalize sumFrom 16 0 (words 256 ((pseudo ++ body).map Fin.val)) = total at hlt
  have : ((-(total : ℤ) - 1) % 2 ^ 16).toNat = 2 ^ 16 - 1 - total := by omega
  rw [this]
  rfl

end R8.Reference

namespace R8.Wire

open FixedWidth OnesComplement

variable {header : Header} {payload data : List Byte} {s k : ℕ}

theorem wordSum_two (b c : Byte) : wordSum [b, c] = beNat [b, c] := by
  simp [wordSum, words, beNat]

theorem beNat_eq_zero (l : List Byte) (h : (l.map Fin.val).sum = 0) : beNat l = 0 := by
  induction l using List.reverseRecOn with
  | nil => rfl
  | append_singleton l b ih =>
    simp only [List.map_append, List.sum_append, List.map_cons, List.map_nil, List.sum_singleton]
      at h
    obtain ⟨hl, hb⟩ := Nat.add_eq_zero_iff.mp h
    rw [beNat_append_singleton, ih hl, hb]

/-- A field at an even offset adds its value to the sum of the words. -/
theorem wordSum_field (pre post : List Byte) (b c : Byte) (hpre : pre.length % 2 = 0) :
    wordSum (pre ++ [b, c] ++ post) = wordSum (pre ++ [0, 0] ++ post) + beNat [b, c] := by
  have hsplit : ∀ field : List Byte, field.length = 2 → wordSum (pre ++ field ++ post) =
      wordSum pre + (wordSum field + wordSum post) := by
    intro field hfield
    have hpre' : (pre.map Fin.val).length % 2 = 0 := by
      rwa [List.length_map]
    have hfield' : (field.map Fin.val).length % 2 = 0 := by
      rw [List.length_map, hfield]
    simp only [wordSum, List.map_append, List.append_assoc]
    rw [words_append hpre', words_append hfield', List.sum_append, List.sum_append]
  have hzero : beNat [0, 0] = 0 := rfl
  rw [hsplit [b, c] rfl, hsplit [0, 0] rfl, wordSum_two, wordSum_two, hzero]
  omega

/-- The two parts are summed apart and their carries folded in at the end. -/
theorem checksumRaw_eq (pseudo body : List Byte) (heven : pseudo.length % 2 = 0)
    (hpos : 0 < wordSum pseudo) : checksumRaw pseudo body =
      2 ^ 16 - 1 - sumFrom 16 0 (words 256 ((pseudo ++ body).map Fin.val)) := by
  have hlt : sumFrom 16 0 (words 256 ((pseudo ++ body).map Fin.val)) < 2 ^ 16 :=
    sumFrom_lt (by norm_num) (word_lt _)
  have hsum : fold16 (sum16 pseudo + sum16 body) =
      sumFrom 16 0 (words 256 ((pseudo ++ body).map Fin.val)) := by
    have heven' : (pseudo.map Fin.val).length % 2 = 0 := by
      rwa [List.length_map]
    rw [fold16_eq, sum16, sum16, sum16From_eq, sum16From_eq, List.map_append, words_append heven']
    apply fold_sumFrom (by norm_num) (word_lt _) (word_lt _)
    rwa [Nat.zero_add]
  simp only [checksumRaw, hsum]
  rw [fold16_eq, fold_of_lt hlt, if_pos hlt]

theorem checksumRaw_eq_zero (pseudo body : List Byte) (heven : pseudo.length % 2 = 0)
    (hpos : 0 < wordSum pseudo) : checksumRaw pseudo body = 0 ↔
      sumFrom 16 0 (words 256 ((pseudo ++ body).map Fin.val)) = 2 ^ 16 - 1 := by
  have hlt : sumFrom 16 0 (words 256 ((pseudo ++ body).map Fin.val)) < 2 ^ 16 :=
    sumFrom_lt (by norm_num) (word_lt _)
  rw [checksumRaw_eq pseudo body heven hpos]
  omega

theorem pseudoHeader_length (header : Header) (n : ℕ) (nextHeader : Byte) :
    (pseudoHeader header n nextHeader).length = 40 := by
  simp [pseudoHeader, header.src.property, header.dst.property]

/-- The length in the pseudo header keeps the sum away from zero. -/
theorem wordSum_pseudoHeader_pos (header : Header) (nextHeader : Byte) {n : ℕ} (hn : 0 < n)
    (hsmall : n < 2 ^ 16) : 0 < wordSum (pseudoHeader header n nextHeader) := by
  apply words_sum_pos (by norm_num)
  have hbe : 0 < ((beBytes 4 n).map Fin.val).sum := by
    apply Nat.pos_of_ne_zero
    intro h
    have hzero := beNat_eq_zero _ h
    rw [beNat_beBytes, Nat.mod_eq_of_lt (by omega)] at hzero
    omega
  simp only [pseudoHeader, List.map_append, List.sum_append]
  omega

theorem u16Of_drop (hk : k + 2 ≤ payload.length) : ∃ b c : Byte,
    payload = payload.take k ++ [b, c] ++ payload.drop (k + 2) ∧
      (u16Of (payload.drop k)).val = beNat [b, c] := by
  have h1 : k < payload.length := by omega
  have h2 : k + 1 < payload.length := by omega
  have hdrop : payload.drop k = payload[k] :: payload[k + 1] :: payload.drop (k + 2) := by
    rw [List.drop_eq_getElem_cons h1, List.drop_eq_getElem_cons h2]
  refine ⟨payload[k], payload[k + 1], ?_, ?_⟩
  · calc payload = payload.take k ++ payload.drop k := (List.take_append_drop k payload).symm
      _ = _ := by
        rw [hdrop, List.append_assoc]
        rfl
  · rw [u16Of, hdrop]
    rfl

/-- Summing up to all ones and comparing with a recomputed field accept the same packets. -/
theorem checksumValid_iff (header : Header) (payload : List Byte) (nextHeader : Byte)
    (heven : k % 2 = 0) (hk : k + 2 ≤ payload.length) (hsmall : payload.length < 2 ^ 16)
    (hne : u16Of (payload.drop k) ≠ 0) :
    checksumValid header payload nextHeader ↔
      negate 16 (sumFrom 16 0 (words 256 ((pseudoHeader header payload.length nextHeader ++
        (payload.take k ++ [0, 0] ++ payload.drop (k + 2))).map Fin.val))) =
          u16Of (payload.drop k) := by
  obtain ⟨b, c, hpayload, hfield⟩ := u16Of_drop hk
  have hlen : (payload.take k).length = k := List.length_take_of_le (by omega)
  have hpseudo := pseudoHeader_length header payload.length nextHeader
  have hpos := wordSum_pseudoHeader_pos header nextHeader (n := payload.length) (by omega) hsmall
  have hr := (u16Of (payload.drop k)).isLt
  have hr0 : 0 < (u16Of (payload.drop k)).val := by
    apply Nat.pos_of_ne_zero
    intro h
    exact hne (Fin.ext h)
  generalize hps : pseudoHeader header payload.length nextHeader = pseudo at hpseudo hpos
  -- the sums with and without the received field
  have hsum : wordSum (pseudo ++ payload) =
      wordSum (pseudo ++ (payload.take k ++ [0, 0] ++ payload.drop (k + 2))) +
        (u16Of (payload.drop k)).val := by
    have heven' : (pseudo ++ payload.take k).length % 2 = 0 := by
      rw [List.length_append, hlen, hpseudo]
      omega
    have h := wordSum_field (pseudo ++ payload.take k) (payload.drop (k + 2)) b c heven'
    rw [hfield]
    simp only [List.append_assoc] at h ⊢
    rw [← h]
    congr 2
    simpa using hpayload
  have hge : wordSum pseudo ≤
      wordSum (pseudo ++ (payload.take k ++ [0, 0] ++ payload.drop (k + 2))) := by
    have hp : (pseudo.map Fin.val).length % 2 = 0 := by
      rw [List.length_map, hpseudo]
    simp only [wordSum, List.map_append, words_append hp, List.sum_append]
    omega
  rw [checksumValid, decide_eq_true_iff, hps,
    checksumRaw_eq_zero pseudo payload (by rw [hpseudo]) hpos]
  generalize hz : pseudo ++ (payload.take k ++ [0, 0] ++ payload.drop (k + 2)) = zeroed at *
  have hpos' : ∀ l, 0 < wordSum l → 0 < sumFrom 16 0 (words 256 (l.map Fin.val)) := by
    intro l hl
    apply Nat.pos_of_ne_zero
    intro h
    have := sumFrom_eq_zero.mp h
    simp only [wordSum] at hl
    omega
  have hlt : ∀ l : List Byte, sumFrom 16 0 (words 256 (l.map Fin.val)) < 2 ^ 16 := by
    intro l
    exact sumFrom_lt (by norm_num) (word_lt l)
  apply eq_ones_iff (hpos' _ (by omega)) (hlt _) hr0 hr (hpos' _ (by omega)) (hlt _)
  calc sumFrom 16 0 (words 256 ((pseudo ++ payload).map Fin.val))
      ≡ 0 + wordSum (pseudo ++ payload) [MOD 2 ^ 16 - 1] := sumFrom_modEq _ _ _
    _ = 0 + wordSum zeroed + (u16Of (payload.drop k)).val := by rw [hsum, Nat.add_assoc]
    _ ≡ sumFrom 16 0 (words 256 (zeroed.map Fin.val)) + (u16Of (payload.drop k)).val
        [MOD 2 ^ 16 - 1] := (sumFrom_modEq _ _ _).symm.add_right _

/-- The header as the reference holds it. -/
def Header.toReference (header : Header) : Reference.Header where
  nh := header.nextHeader
  src := header.src
  dst := header.dst
  profile := header.profile
  tc := header.tc
  hop := header.hopLimit
  flags := header.flags
  pslot := header.pathSlot
  scid := header.scid

end R8.Wire

namespace R8.Reference

open FixedWidth Wire

variable {header : Wire.Header} {payload data : List Byte} {budget : ℕ}

section Checks

variable {α : Type} {p q : Prop} [Decidable p] [Decidable q] {e : WireError} {x y : Except WireError α}

theorem failIf_bind (h : p ↔ q) (hxy : ¬ q → x = y) :
    (failIf p e >>= fun _ => x) = if q then .error e else y := by
  by_cases hq : q
  · simp [failIf, h, hq, bind, Except.bind]
  · simp [failIf, h, hq, bind, Except.bind, hxy hq]

/-- Two checks in a row with one error. -/
theorem failIf_or {r : Prop} [Decidable r] (h : p ∨ q ↔ r) (hxy : ¬ r → x = y) :
    (failIf p e >>= fun _ => failIf q e >>= fun _ => x) = if r then .error e else y := by
  by_cases hp : p
  · have hr : r := h.mp (.inl hp)
    simp [failIf, hp, hr, bind, Except.bind]
  · rw [failIf_bind (iff_false_intro hp) fun _ => rfl, if_neg id]
    apply failIf_bind _ hxy
    rw [← h, or_iff_right hp]

theorem failIf_eq (h : p ↔ q) : failIf p e = if q then .error e else .ok () := by
  simp only [failIf, h]

@[simp] theorem u8_bind (b : Byte) : (u8 b.val e >>= fun _ => x) = x := by
  have : ¬ 0xff < b.val := by omega
  simp [u8, this, bind, Except.bind]

@[simp] theorem u64_bind (n : U64) : (u64 n.val >>= fun _ => x) = x := by
  have : ¬ 0xffffffffffffffff < n.val := by omega
  simp [u64, this, bind, Except.bind]

end Checks

theorem val_eq {n : ℕ} [NeZero n] {b : Fin n} (c : Fin n) : b.val = c.val ↔ b = c := Fin.ext_iff.symm

theorem val_mem {n : ℕ} {b : Fin n} (l : List (Fin n)) : b.val ∈ l.map Fin.val ↔ b ∈ l :=
  List.mem_map_of_injective Fin.val_injective

theorem flags_mask (b : Byte) : b.val &&& 0xfc = 0 ↔ b &&& 0xfc = 0 := by
  rw [Fin.ext_iff, Fin.and_val]
  exact Iff.rfl

theorem unreachable_codes (b : Byte) : b.val ∈ [0, 1, 3, 4] ↔ b ∈ ([0, 1, 3, 4] : List Byte) :=
  val_mem [0, 1, 3, 4]

theorem ctlShape_eq_ite (ctype code : ℕ) (body : List Byte) : ctlShape ctype code body =
    if ctype ∉ [1, 2, 128, 129, 130] then .error .ctlType
    else if code ∉ allowedCodes ctype then .error .ctlCode
    else if body.length < (if ctype ∈ [1, 2, 130] then 4 else 0) then .error .ctlBody
    else if 512 < (if ctype = 130 then body.drop 4 else if 128 ≤ ctype then body else []).length
      then .error .ctlBody
    else .ok () := by
  unfold ctlShape
  apply failIf_bind Iff.rfl
  intro _
  apply failIf_bind Iff.rfl
  intro _
  apply failIf_bind Iff.rfl
  intro _
  apply failIf_eq Iff.rfl

theorem ctlShape_eq (typ code : Byte) (body : List Byte) :
    ctlShape typ.val code.val body = validateCtl typ code body := by
  rw [ctlShape_eq_ite]
  rcases Classical.em (typ.val ∈ [1, 2, 128, 129, 130]) with hmem | hmem
  · have hcases : typ = 1 ∨ typ = 2 ∨ typ = 128 ∨ typ = 129 ∨ typ = 130 := by
      simpa [Fin.ext_iff] using hmem
    rcases hcases with rfl | rfl | rfl | rfl | rfl
    · simp [allowedCodes, validateCtl, CTL_ECHO_REQUEST]
    · simp [allowedCodes, validateCtl, CTL_ECHO_REQUEST, CTL_ECHO_REPLY]
    · have hcodes : code.val ∉ allowedCodes 128 ↔ code ∉ [0, 1, 3, 4] :=
        (unreachable_codes code).not
      simp [hcodes, validateCtl, CTL_ECHO_REQUEST, CTL_ECHO_REPLY, CTL_DEST_UNREACHABLE]
    · simp [allowedCodes, validateCtl, CTL_ECHO_REQUEST, CTL_ECHO_REPLY, CTL_DEST_UNREACHABLE,
        CTL_TIME_EXCEEDED]
    · simp [allowedCodes, validateCtl, CTL_ECHO_REQUEST, CTL_ECHO_REPLY, CTL_DEST_UNREACHABLE,
        CTL_TIME_EXCEEDED, CTL_PACKET_TOO_BIG]
      split_ifs <;> first | rfl | omega
  · have hother : typ ≠ 1 ∧ typ ≠ 2 ∧ typ ≠ 128 ∧ typ ≠ 129 ∧ typ ≠ 130 := by
      simpa [Fin.ext_iff] using hmem
    obtain ⟨h1, h2, h128, h129, h130⟩ := hother
    rw [if_pos hmem]
    simp [validateCtl, CTL_ECHO_REQUEST, CTL_ECHO_REPLY,
      CTL_DEST_UNREACHABLE, CTL_TIME_EXCEEDED, CTL_PACKET_TOO_BIG, h1, h2, h128, h129, h130]

/-- The reference recomputes the field at offset `k` and compares it with the received one. -/
theorem checksum_eq (header : Wire.Header) (nextHeader : Byte) {k l : ℕ} (heven : k % 2 = 0)
    (hl : l = k + 2) (hk : l ≤ payload.length) (hsmall : payload.length < 2 ^ 16)
    (hne : u16Of (payload.drop k) ≠ 0) :
    orElse (checksum16 (pseudoHeader header.toReference payload.length nextHeader.val)
        (payload.take k ++ [0, 0] ++ payload.drop l)) 0xffff ≠ (u16Of (payload.drop k)).val ↔
      ¬ checksumValid header payload nextHeader := by
  subst hl
  rw [checksum16_eq, checksumValid_iff header payload nextHeader heven hk hsmall hne]
  have : pseudoHeader header.toReference payload.length nextHeader.val =
      Wire.pseudoHeader header payload.length nextHeader := by
    simp only [pseudoHeader, Wire.pseudoHeader, Header.toReference, List.append_assoc]
  rw [this]

theorem parseCtl_eq (header : Wire.Header) (hsmall : payload.length < 2 ^ 16) :
    parseCtl header.toReference payload =
      (Wire.parseCtl header payload).map fun m => (m.1.val, m.2.1.val, m.2.2) := by
  unfold parseCtl Wire.parseCtl validateCtlShape
  by_cases hshort : payload.length < 4
  · simp [failIf, hshort, bind, Except.bind, Except.map]
  cases hshape : validateCtl (byteAt payload 0) (byteAt payload 1) (payload.drop 4) with
  | error e => simp [failIf, hshort, ctlShape_eq, hshape, bind, Except.bind, Except.map]
  | ok _ =>
    by_cases hzero : u16Of (payload.drop 2) = 0
    · simp [failIf, hshort, ctlShape_eq, hshape, hzero, bind, Except.bind, Except.map]
    · have hval : (u16Of (payload.drop 2)).val ≠ 0 := Fin.val_eq_zero_iff.not.mpr hzero
      have hsum := checksum_eq header NH_CTL (k := 2) (l := 4) rfl rfl (by omega) hsmall hzero
      simp only [failIf, hshort, ctlShape_eq, hshape, hval, hzero, hsum, if_false, bind,
        Except.bind, false_or]
      by_cases hv : checksumValid header payload NH_CTL
      · simp [hv, Except.map]
      · simp [hv, Except.map]

theorem parseDgram_eq (header : Wire.Header) (hsmall : payload.length < 2 ^ 16) :
    parseDgram header.toReference payload =
      (Wire.parseDgram header payload).map fun m => (m.1.val, m.2.1.val, m.2.2) := by
  unfold parseDgram Wire.parseDgram validateDgramShape
  by_cases hshort : payload.length < 8
  · simp [failIf, hshort, bind, Except.bind, Except.map]
  by_cases hlength : (u16Of (payload.drop 4)).val ≠ payload.length
  · simp [failIf, hshort, hlength, bind, Except.bind, Except.map]
  by_cases hzero : u16Of (payload.drop 6) = 0
  · simp [failIf, hshort, hlength, hzero, bind, Except.bind, Except.map]
  · have hval : (u16Of (payload.drop 6)).val ≠ 0 := Fin.val_eq_zero_iff.not.mpr hzero
    have hsum := checksum_eq header NH_DGRAM (k := 6) (l := 8) rfl rfl (by omega) hsmall hzero
    simp only [failIf, hshort, hlength, hval, hzero, hsum, if_false, bind, Except.bind, false_or]
    by_cases hv : checksumValid header payload NH_DGRAM
    · simp [hv, Except.map]
    · simp [hv, Except.map]

theorem stype_known (b : Byte) : b ∈ ([1, 2, 3, 4, 5, 6, 7] : List Byte) ↔ 1 ≤ b ∧ b ≤ 7 := by
  simp only [List.mem_cons, List.not_mem_nil, or_false, Fin.ext_iff, Fin.le_def]
  change b.val = 1 ∨ b.val = 2 ∨ b.val = 3 ∨ b.val = 4 ∨ b.val = 5 ∨ b.val = 6 ∨ b.val = 7 ↔
    1 ≤ b.val ∧ b.val ≤ 7
  omega

theorem flags_redundant (b : Byte) : b.val ∈ [1, 3] ↔ b = 1 ∨ b = 3 := by
  have h : b.val ∈ [1, 3] ↔ b ∈ ([1, 3] : List Byte) := val_mem [1, 3]
  rw [h, List.mem_pair]

theorem validateSes_slot (header : Wire.Header) {stype : Byte} (hpos : 1 ≤ stype) :
    (if ¬ stype ≤ 4 ∧ stype ≠ 5 ∧ header.profile.val = 3 then do
      failIf (header.flags.val ∉ [1, 3]) .flags
      failIf (header.pathSlot.val ≠ if header.flags.val = 1 then 0 else 1) .pathSlot
    else do
      failIf (header.flags.val ≠ (wanted stype).1) .flags
      failIf (header.pathSlot.val ≠ (wanted stype).2) .pathSlot) = validateSesSlot header stype := by
  have hone : header.flags.val = 1 ↔ header.flags = 1 := val_eq 1
  have hthree : header.profile.val = 3 ↔ header.profile = 3 := val_eq 3
  unfold validateSesSlot
  by_cases hearly : stype ≤ 4
  · have hw : wanted stype = (0, 0) := if_pos hearly
    rw [if_neg (by simp [hearly]), if_pos ⟨hpos, hearly⟩, hw]
    apply failIf_bind Fin.val_eq_zero_iff.not
    intro _
    apply failIf_eq Fin.val_eq_zero_iff.not
  · have hw : wanted stype = (1, 0) := if_neg hearly
    have hlate : ¬ (1 ≤ stype ∧ stype ≤ 4) := fun h => hearly h.2
    rw [if_neg hlate]
    by_cases hred : stype ≠ 5 ∧ header.profile = 3
    · rw [if_pos ⟨hearly, hred.1, hthree.mpr hred.2⟩, if_pos hred]
      apply failIf_bind
      · rw [flags_redundant, not_or]
      intro _
      apply failIf_eq
      by_cases h1 : header.flags = 1
      · rw [if_pos (hone.mpr h1), if_pos h1]
        exact Fin.val_eq_zero_iff.not
      · rw [if_neg (hone.not.mpr h1), if_neg h1]
        exact (val_eq 1).not
    · have hred' : ¬ (¬ stype ≤ 4 ∧ stype ≠ 5 ∧ header.profile.val = 3) := by
        rw [hthree]
        exact fun h => hred h.2
      rw [if_neg hred', if_neg hred, hw]
      apply failIf_bind hone.not
      intro _
      apply failIf_eq Fin.val_eq_zero_iff.not

theorem validateSes_eq (header : Wire.Header) (payload : List Byte) :
    header.toReference.validateSes payload = validateSesHeader header payload := by
  unfold Header.validateSes validateSesHeader
  simp only [Header.toReference, u8_bind, u64_bind]
  apply failIf_bind Fin.val_eq_zero_iff
  intro _
  apply failIf_bind Iff.rfl
  intro _
  apply failIf_bind
  · rw [stype_known]
  intro htype
  apply failIf_bind
  · rw [ne_eq (byteAt payload 2) header.profile, ← val_eq]
    change _ ↔ 3 < header.profile.val ∨ _
    omega
  intro _
  apply failIf_bind Fin.val_eq_zero_iff.not
  intro _
  apply failIf_bind Fin.val_eq_zero_iff
  intro _
  apply failIf_or (or_congr Iff.rfl (flags_mask header.flags).not)
  intro _
  apply validateSes_slot header
  simp only [not_or, not_not] at htype
  exact htype.1.1

theorem validateBareHeader_bind {α : Type} (header : Wire.Header) (x : Except WireError α) :
    (validateBareHeader header >>= fun _ => x) =
      if header.profile ≠ 0 then .error .profile
      else if header.flags ≠ 0 then .error .flags
      else if header.pathSlot ≠ 0 then .error .pathSlot
      else if header.scid ≠ 0 then .error .scid
      else x := by
  unfold validateBareHeader
  split_ifs <;> rfl

theorem validateFixed_eq (header : Wire.Header) (payload : List Byte) :
    header.toReference.validateFixed payload =
      if header.nextHeader ∉ [NH_CTL, NH_DGRAM, NH_SES, NH_NONE] then .error .nextHeader
      else if header.nextHeader = NH_SES then validateSesHeader header payload
      else if 3 < header.profile then .error .profile
      else if header.tc ≠ 0 then .error .trafficClass
      else if header.hopLimit = 0 then .error .hopLimit
      else if header.flags &&& 0xfc ≠ 0 then .error .flags
      else validateBareHeader header >>= fun _ =>
        if header.nextHeader = NH_NONE ∧ payload ≠ [] then .error .nonePayload else .ok () := by
  have hnh : ∀ b : Byte, header.nextHeader.val = b.val ↔ header.nextHeader = b := fun b => val_eq b
  unfold Header.validateFixed
  simp only [Header.toReference, u8_bind, u64_bind]
  apply failIf_bind
  · simp only [List.mem_cons, List.not_mem_nil, or_false, hnh]
  intro _
  by_cases hses : header.nextHeader = NH_SES
  · rw [if_pos hses, if_pos ((hnh NH_SES).mpr hses)]
    exact validateSes_eq header payload
  rw [if_neg hses, if_neg ((hnh NH_SES).not.mpr hses), validateBareHeader_bind]
  apply failIf_bind Iff.rfl
  intro _
  apply failIf_bind Fin.val_eq_zero_iff.not
  intro _
  apply failIf_bind Fin.val_eq_zero_iff
  intro _
  apply failIf_bind (flags_mask header.flags).not
  intro _
  apply failIf_bind Fin.val_eq_zero_iff.not
  intro _
  apply failIf_bind Fin.val_eq_zero_iff.not
  intro _
  apply failIf_bind Fin.val_eq_zero_iff.not
  intro _
  apply failIf_bind Fin.val_eq_zero_iff.not
  intro _
  apply failIf_eq
  rw [hnh]

/-- A check that drops the result of a mapped computation. -/
theorem map_discard {α β : Type} (x : Except WireError α) (f : α → β) :
    (x.map f >>= fun _ => (pure () : Except WireError Unit)) = x >>= fun _ => pure () := by
  cases x <;> rfl

theorem validate_eq (header : Wire.Header) (hsmall : payload.length < 2 ^ 16) :
    header.toReference.validate payload = validateHeader header payload := by
  have hnh : ∀ b : Byte, header.toReference.nh = b.val ↔ header.nextHeader = b := fun b => val_eq b
  unfold Header.validate validateHeader
  rw [validateFixed_eq]
  by_cases hknown : header.nextHeader ∉ [NH_CTL, NH_DGRAM, NH_SES, NH_NONE]
  · rw [if_pos hknown, if_pos hknown]
    rfl
  rw [if_neg hknown, if_neg hknown]
  simp only [hnh, parseCtl_eq header hsmall, parseDgram_eq header hsmall, map_discard]
  by_cases hses : header.nextHeader = NH_SES
  · have hctl : NH_SES ≠ NH_CTL := by decide
    have hdgram : NH_SES ≠ NH_DGRAM := by decide
    rw [if_pos hses, if_pos hses, hses, if_neg hctl, if_neg hdgram]
    cases validateSesHeader header payload <;> rfl
  rw [if_neg hses, if_neg hses]
  by_cases hfixed : 3 < header.profile ∨ header.tc ≠ 0 ∨ header.hopLimit = 0 ∨
      header.flags &&& 0xfc ≠ 0
  · split_ifs <;> first | rfl | simp_all
  simp only [not_or] at hfixed
  obtain ⟨hprofile, htc, hhop, hflags⟩ := hfixed
  rw [if_neg hprofile, if_neg htc, if_neg hhop, if_neg hflags, if_neg hprofile, if_neg htc,
    if_neg hhop, if_neg hflags, bind_assoc]
  congr 1
  funext _
  by_cases hctl : header.nextHeader = NH_CTL
  · have : ¬ (header.nextHeader = NH_NONE ∧ payload ≠ []) := by
      rw [hctl]
      exact fun h => absurd h.1 (by decide)
    rw [if_neg this, if_pos hctl, if_pos hctl]
    rfl
  by_cases hdgram : header.nextHeader = NH_DGRAM
  · have : ¬ (header.nextHeader = NH_NONE ∧ payload ≠ []) := by
      rw [hdgram]
      exact fun h => absurd h.1 (by decide)
    rw [if_neg this, if_neg hctl, if_pos hdgram, if_neg hctl, if_pos hdgram]
    rfl
  have hnone : header.nextHeader = NH_NONE := by
    simpa [hctl, hdgram, hses] using hknown
  rw [if_neg hctl, if_neg hdgram, if_neg hctl, if_neg hdgram]
  by_cases hempty : payload = []
  · rw [if_neg fun h => h.2 hempty, if_neg (not_not.mpr hempty)]
    rfl
  · rw [if_pos ⟨hnone, hempty⟩, if_pos hempty]
    rfl

/-- The reference's checks after the minimum length, with those on the length field kept apart. -/
def checkLength (data : List Byte) (budget : ℕ) : Except WireError Unit :=
  let expected := HEADER_LEN + (u16Of (data.drop 2)).val
  if byteAt data 0 >>> 4 ≠ VERSION then .error .version
  else if SERIALIZED_R8_MAX < expected then .error .packetCap
  else if budget < expected then .error .bindingBudget
  else if data.length < expected then .error .truncated
  else if expected < data.length then .error .trailingBytes
  else .ok ()

theorem unpack_eq (data : List Byte) (hmin : 48 ≤ budget) (hmax : budget ≤ SERIALIZED_R8_MAX) :
    Header.unpack data budget =
      if SERIALIZED_R8_MAX < data.length then .error .packetCap
      else if budget < data.length then .error .bindingBudget
      else if data.length < HEADER_LEN then .error .truncated
      else checkLength data budget >>= fun _ =>
        validateHeader (Wire.Header.ofBytes data) (data.drop HEADER_LEN) >>= fun _ =>
          .ok ((Wire.Header.ofBytes data).toReference, data.drop HEADER_LEN) := by
  have hbudget : checkedBindingBudget budget = .ok () := if_neg (not_not.mpr ⟨hmin, hmax⟩)
  unfold Header.unpack
  rw [hbudget]
  apply failIf_bind Iff.rfl
  intro hcap
  apply failIf_bind Iff.rfl
  intro _
  apply failIf_bind Iff.rfl
  intro _
  have hsmall : (data.drop HEADER_LEN).length < 2 ^ 16 := by
    rw [List.length_drop, SERIALIZED_R8_MAX] at *
    omega
  rw [← validate_eq _ hsmall]
  unfold checkLength
  simp only [failIf]
  split_ifs <;> rfl

end R8.Reference

namespace R8.Wire

open FixedWidth

/-- The checks here after the minimum length. -/
def checkLength (data : List Byte) : Except WireError Unit :=
  let expected := HEADER_LEN + (u16Of (data.drop 2)).val
  if data.length < expected then .error .truncated
  else if expected < data.length then .error .trailingBytes
  else if byteAt data 0 >>> 4 ≠ VERSION then .error .version
  else .ok ()

theorem unpackWithBudget_eq (data : List Byte) (budget : ℕ) :
    Header.unpackWithBudget data budget =
      if SERIALIZED_R8_MAX < data.length then .error .packetCap
      else if budget < data.length then .error .bindingBudget
      else if data.length < HEADER_LEN then .error .truncated
      else checkLength data >>= fun _ =>
        validateHeader (Header.ofBytes data) (data.drop HEADER_LEN) >>= fun _ =>
          .ok (Header.ofBytes data, data.drop HEADER_LEN) := by
  -- the allow-list is looked at twice, with one error
  have hnext : byteAt data 4 ∉ [NH_CTL, NH_DGRAM, NH_SES, NH_NONE] →
      validateHeader (Header.ofBytes data) (data.drop HEADER_LEN) = .error .nextHeader := by
    intro h
    exact if_pos h
  unfold Header.unpackWithBudget checkLength
  by_cases h : byteAt data 4 ∉ [NH_CTL, NH_DGRAM, NH_SES, NH_NONE]
  · simp only [h, hnext h, not_false_eq_true, if_true]
    split_ifs <;> rfl
  · simp only [h, if_false]
    split_ifs <;> rfl

/-- Once a packet has its length, both parsers ask for the version only. -/
theorem checkLength_exact {data : List Byte} {budget : ℕ} (hlen : data.length ≤ budget)
    (hmax : budget ≤ SERIALIZED_R8_MAX)
    (hexact : HEADER_LEN + (u16Of (data.drop 2)).val = data.length) :
    Reference.checkLength data budget = checkLength data := by
  have hcap : ¬ SERIALIZED_R8_MAX < data.length := by omega
  have hbudget : ¬ budget < data.length := by omega
  simp only [Reference.checkLength, checkLength, hexact, hcap, hbudget, lt_irrefl, if_false]

theorem checkLength_inexact {data : List Byte} (budget : ℕ)
    (hexact : HEADER_LEN + (u16Of (data.drop 2)).val ≠ data.length) :
    (∃ e, Reference.checkLength data budget = .error e) ∧ ∃ e, checkLength data = .error e := by
  simp only [Reference.checkLength, checkLength]
  constructor
  · split_ifs
    all_goals first | exact ⟨_, rfl⟩ | omega
  · split_ifs
    all_goals first | exact ⟨_, rfl⟩ | omega

/-- Both parsers accept the same packets and read the same fields and payload from them. -/
theorem unpack_agrees (data : List Byte) (budget : ℕ) (hmin : 48 ≤ budget)
    (hmax : budget ≤ SERIALIZED_R8_MAX) :
    (Reference.Header.unpack data budget).toOption =
      (Header.unpackWithBudget data budget).toOption.map fun r => (r.1.toReference, r.2) := by
  rw [Reference.unpack_eq data hmin hmax, unpackWithBudget_eq]
  by_cases hcap : SERIALIZED_R8_MAX < data.length
  · simp only [if_pos hcap, Except.toOption, Option.map_none]
  by_cases hlen : budget < data.length
  · simp only [if_neg hcap, if_pos hlen, Except.toOption, Option.map_none]
  by_cases hshort : data.length < HEADER_LEN
  · simp only [if_neg hcap, if_neg hlen, if_pos hshort, Except.toOption, Option.map_none]
  simp only [if_neg hcap, if_neg hlen, if_neg hshort]
  by_cases hexact : HEADER_LEN + (u16Of (data.drop 2)).val = data.length
  · rw [checkLength_exact (not_lt.mp hlen) hmax hexact]
    cases checkLength data with
    | error e => rfl
    | ok _ =>
      change (validateHeader _ _ >>= _).toOption = Option.map _ (validateHeader _ _ >>= _).toOption
      cases validateHeader (Header.ofBytes data) (data.drop HEADER_LEN) <;> rfl
  · obtain ⟨⟨e₁, h₁⟩, e₂, h₂⟩ := checkLength_inexact budget hexact
    rw [h₁, h₂]
    rfl

/-- An odd-length echo request, with the checksum a sender computes. -/
def echoRequest : List Byte :=
  let header : Header := ⟨0, 0, NH_CTL, 64, 0, 0, 0, bytesOf 16 1, bytesOf 16 2⟩
  let message := [CTL_ECHO_REQUEST, 0, 0, 0, 1, 2, 3, 4, 5]
  let checksum := checksum16 (pseudoHeader header message.length NH_CTL) message
  header.bytes (message.take 2 ++ beBytes 2 checksum ++ message.drop 4)

theorem echoRequest_agrees :
    (Header.unpackWithBudget echoRequest 1280).toOption.isSome ∧
      (Reference.Header.unpack echoRequest 1280).toOption =
        (Header.unpackWithBudget echoRequest 1280).toOption.map fun r => (r.1.toReference, r.2) :=
  ⟨by decide +kernel, unpack_agrees echoRequest 1280 (by decide) (by decide)⟩

end R8.Wire
