import R8Protocol.Session.Layout

/-! Packing and unpacking undo each other. -/
namespace R8.Wire

open FixedWidth

variable {header : Header} {payload data : List Byte} {budget n : ℕ}

/-- The first byte is put together again from the version and the profile. -/
theorem version_profile :
    ∀ b : Byte, b >>> 4 = VERSION → (VERSION <<< 4) ||| (b &&& 0x0f) = b := by
  decide +kernel

/-- The fields read at their offsets are written back where they stood. -/
theorem Header.bytes_ofBytes (hlen : data.length = HEADER_LEN + (u16Of (data.drop 2)).val)
    (hversion : byteAt data 0 >>> 4 = VERSION) :
    (Header.ofBytes data).bytes (data.drop HEADER_LEN) = data := by
  have h48 : 48 ≤ data.length := by
    rw [hlen, HEADER_LEN]
    omega
  have hsize : beBytes 2 (data.drop HEADER_LEN).length = (data.drop 2).take 2 := by
    rw [List.length_drop, hlen, Nat.add_sub_cancel_left, ← u16Bytes_u16Of (by simp; omega)]
    rfl
  have hscid : u64Bytes (u64Of (data.drop 8)) = slice data 8 16 := by
    rw [u64Bytes_u64Of (by simp; omega), slice]
  have hsrc : (arrayAt 16 data 16).val = slice data 16 32 := arrayAt_val (by omega)
  have hdst : (arrayAt 16 data 32).val = slice data 32 48 := arrayAt_val (by omega)
  have hfields : byteAt data 4 :: byteAt data 5 :: byteAt data 6 :: byteAt data 7 ::
      data.drop 8 = data.drop 4 := by
    rw [byteAt_cons_drop (by omega), byteAt_cons_drop (by omega), byteAt_cons_drop (by omega),
      byteAt_cons_drop (by omega)]
  have hlocs : slice data 8 16 ++ (slice data 16 32 ++ (slice data 32 48 ++ data.drop 48)) =
      data.drop 8 := by
    rw [slice_append_drop (by omega), slice_append_drop (by omega), slice_append_drop (by omega)]
  have hcount : (data.drop 2).take 2 ++ data.drop 4 = data.drop 2 :=
    slice_append_drop (show 2 ≤ 4 by omega)
  rw [Header.bytes, hsize]
  simp only [Header.ofBytes, version_profile _ hversion, hscid, hsrc, hdst, List.append_assoc,
    HEADER_LEN, hlocs, List.cons_append, List.nil_append, hfields, hcount]
  rw [byteAt_cons_drop (by omega), byteAt_cons_drop (by omega), List.drop_zero]

/-- What is accepted fits both limits and is the image of what was read. -/
theorem bytes_of_unpack (hu : Header.unpackWithBudget data budget = .ok (header, payload)) :
    data = header.bytes payload ∧ HEADER_LEN + payload.length ≤ SERIALIZED_R8_MAX ∧
      HEADER_LEN + payload.length ≤ budget := by
  obtain ⟨rfl, rfl, h48, -⟩ := unpack_eq_ok hu
  simp only [Header.unpackWithBudget, Outcome.ite_error_eq_ok] at hu
  obtain ⟨hmax, hbudget, -, hshort, hlong, hversion, -, -⟩ := hu
  have hlen : HEADER_LEN + (data.drop HEADER_LEN).length = data.length := by
    rw [List.length_drop]
    omega
  refine ⟨?_, by omega, by omega⟩
  exact (Header.bytes_ofBytes (by omega) (not_not.mp hversion)).symm

theorem unpack_of_pack (hp : header.packWithBudget payload budget = .ok data) :
    Header.unpackWithBudget data budget = .ok (header, payload) := by
  obtain ⟨⟨total, htotal⟩, hv, rfl⟩ := pack_eq_ok hp
  obtain ⟨hmax, hbudget⟩ := checkedPacketLen_eq_ok htotal
  exact unpack_bytes hv hmax hbudget

theorem pack_of_unpack (hu : Header.unpackWithBudget data budget = .ok (header, payload)) :
    header.packWithBudget payload budget = .ok data := by
  obtain ⟨hdata, hmax, hbudget⟩ := bytes_of_unpack hu
  have hv : validateHeader header payload = .ok () := by
    obtain ⟨rfl, rfl, -, hv⟩ := unpack_eq_ok hu
    exact hv
  rw [hdata]
  exact pack_of_validate hv hmax hbudget

/-- A packet is written for a header and a payload exactly if it reads as them. -/
theorem pack_eq_ok_iff_unpack_eq_ok (header : Header) (payload data : List Byte) (budget : ℕ) :
    header.packWithBudget payload budget = .ok data ↔
      Header.unpackWithBudget data budget = .ok (header, payload) :=
  ⟨unpack_of_pack, pack_of_unpack⟩

end R8.Wire
