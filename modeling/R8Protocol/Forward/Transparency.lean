import R8Protocol.Forward.Forwarder

/-! A packet under another hop limit: the same header otherwise, and the same result of opening. -/
namespace R8

open FixedWidth

namespace Wire

variable {header : Header} {data payload : List Byte} {budget budget' : ℕ} {hop : Byte}

theorem byteAt_set {i : ℕ} (h : i ≠ 5) : byteAt (data.set 5 hop) i = byteAt data i := by
  simp only [byteAt, List.getD_eq_getElem?_getD]
  rw [List.getElem?_set_ne h.symm]

theorem drop_set {n : ℕ} (h : 5 < n) : (data.set 5 hop).drop n = data.drop n := by
  rw [List.drop_set_of_lt h]

theorem u16Of_set : u16Of ((data.set 5 hop).drop 2) = u16Of (data.drop 2) := by
  have htake : ((data.set 5 hop).drop 2).take 2 = (data.drop 2).take 2 := by
    rw [List.take_drop, List.take_drop, List.take_set_of_le (by omega)]
  simp only [u16Of, htake]

theorem Header.ofBytes_set (hlen : 48 ≤ data.length) :
    Header.ofBytes (data.set 5 hop) = { Header.ofBytes data with hopLimit := hop } := by
  have hhop : byteAt (data.set 5 hop) 5 = hop := by
    have : 5 < data.length := by omega
    simp [byteAt, this]
  have harray : ∀ i, 5 < i → arrayAt 16 (data.set 5 hop) i = arrayAt 16 data i := by
    intro i hi
    simp only [arrayAt, slice, drop_set hi]
  simp only [Header.ofBytes, hhop, harray 16 (by omega), harray 32 (by omega),
    drop_set (n := 8) (by omega), byteAt_set (i := 0) (by omega), byteAt_set (i := 1) (by omega),
    byteAt_set (i := 4) (by omega), byteAt_set (i := 6) (by omega), byteAt_set (i := 7) (by omega)]

/-- An accepted packet stays accepted under another hop limit, with its other fields and payload. -/
theorem unpack_set_hop (h : Header.unpackWithBudget data budget = .ok (header, payload))
    (hop_ne : hop ≠ 0) (hfits : data.length ≤ budget') :
    Header.unpackWithBudget (data.set 5 hop) budget' =
      .ok ({ header with hopLimit := hop }, payload) := by
  simp only [Header.unpackWithBudget, Outcome.ite_error_eq_ok, Outcome.bind_eq_ok, Except.ok.injEq,
    Prod.mk.injEq] at h
  obtain ⟨hcap, -, hmin, hshort, hlong, hversion, hnext, ⟨⟩, hv, rfl, rfl⟩ := h
  have hlen : 48 ≤ data.length := not_lt.mp hmin
  have hback : validateHeader { ({ Header.ofBytes data with hopLimit := hop } : Header) with
      hopLimit := (Header.ofBytes data).hopLimit } (data.drop HEADER_LEN) = .ok () := hv
  have hv' : validateHeader { Header.ofBytes data with hopLimit := hop } (data.drop HEADER_LEN) =
      .ok () := validateHeader_hop hback hop_ne
  unfold Header.unpackWithBudget
  simp only [List.length_set, u16Of_set, byteAt_set (i := 0) (by omega),
    byteAt_set (i := 4) (by omega), Header.ofBytes_set hlen,
    drop_set (n := HEADER_LEN) (by rw [HEADER_LEN]; omega), hv', bind, Except.bind]
  rw [if_neg hcap, if_neg (not_lt.mpr hfits), if_neg hmin, if_neg hshort, if_neg hlong,
    if_neg hversion, if_neg hnext]

/-- A packet over the budget is refused for that, whatever its hop limit. -/
theorem unpack_over_budget (hlen : data.length ≤ SERIALIZED_R8_MAX) (h : budget < data.length) :
    Header.unpackWithBudget data budget = .error .bindingBudget := by
  unfold Header.unpackWithBudget
  rw [if_neg (not_lt.mpr hlen), if_pos h]

theorem unpack_rebudget (h : Header.unpackWithBudget data budget = .ok (header, payload))
    (hfits : data.length ≤ budget') :
    Header.unpackWithBudget data budget' = .ok (header, payload) := by
  unfold Header.unpackWithBudget at h ⊢
  simp only [Outcome.ite_error_eq_ok] at h ⊢
  exact ⟨h.1, not_lt.mpr hfits, h.2.2⟩

theorem unpack_length (h : Header.unpackWithBudget data budget = .ok (header, payload)) :
    HEADER_LEN ≤ data.length ∧ data.length ≤ budget ∧ data.length ≤ SERIALIZED_R8_MAX := by
  simp only [Header.unpackWithBudget, Outcome.ite_error_eq_ok] at h
  exact ⟨not_lt.mp h.2.2.1, not_lt.mp h.2.1, not_lt.mp h.1⟩

end Wire

namespace Session

open Wire

variable {C : Crypto} {header : Header} {packet payload : List Byte} {budget : ℕ} {hop : Byte}
  {s : DirectionalSession}

theorem protectedAad_set_hop
    (h : Header.unpackWithBudget packet budget = .ok (header, payload)) (hop_ne : hop ≠ 0)
    (counter : U64) : protectedAad (packet.set 5 hop) counter = protectedAad packet counter := by
  obtain ⟨hmin, -, hmax⟩ := unpack_length h
  have hsame := unpack_rebudget h hmax
  have hset := unpack_set_hop h hop_ne hmax
  have htake : ((packet.set 5 hop).take (HEADER_LEN + 4)).set 5 0 =
      (packet.take (HEADER_LEN + 4)).set 5 0 := by
    rw [List.take_set, List.set_set]
  simp only [protectedAad, List.length_set, Header.unpack, hset, hsame, htake]

theorem preview_set_hop (h : Header.unpackWithBudget packet budget = .ok (header, payload))
    (hop_ne : hop ≠ 0) : s.preview C (packet.set 5 hop) = s.preview C packet := by
  obtain ⟨-, -, hmax⟩ := unpack_length h
  unfold DirectionalSession.preview
  by_cases hfits : packet.length ≤ s.receiveBudget
  · simp only [unpack_set_hop h hop_ne hfits, unpack_rebudget h hfits, protectedAad_set_hop h hop_ne]
  · have hset : (packet.set 5 hop).length = packet.length := List.length_set
    rw [unpack_over_budget hmax (not_le.mp hfits),
      unpack_over_budget (hset ▸ hmax) (hset.symm ▸ not_le.mp hfits)]

theorem previewProfile3Data_set_hop
    (h : Header.unpackWithBudget packet budget = .ok (header, payload)) (hop_ne : hop ≠ 0) :
    s.previewProfile3Data C (packet.set 5 hop) = s.previewProfile3Data C packet := by
  obtain ⟨-, -, hmax⟩ := unpack_length h
  unfold DirectionalSession.previewProfile3Data
  by_cases hfits : packet.length ≤ s.receiveBudget
  · have hne : header.hopLimit ≠ 0 := validateHeader_hop_ne (unpack_eq_ok h).2.2.2
    have hheader : validateProfile3DataHeader { header with hopLimit := hop } =
        validateProfile3DataHeader header := by
      simp only [validateProfile3DataHeader, hop_ne, hne]
    simp only [unpack_set_hop h hop_ne hfits, unpack_rebudget h hfits, hheader, profile3DataAad,
      protectedAad_set_hop h hop_ne]
  · have hset : (packet.set 5 hop).length = packet.length := List.length_set
    rw [unpack_over_budget hmax (not_le.mp hfits),
      unpack_over_budget (hset ▸ hmax) (hset.symm ▸ not_le.mp hfits)]

/-- No session can tell the two packets apart by opening them. -/
structure OpensAlike (packet packet' : List Byte) : Prop where
  aad : ∀ counter, protectedAad packet' counter = protectedAad packet counter
  decrypt : ∀ (C : Crypto) (s : DirectionalSession), s.decrypt C packet' = s.decrypt C packet
  decryptProfile3Data : ∀ (C : Crypto) (s : DirectionalSession),
    s.decryptProfile3Data C packet' = s.decryptProfile3Data C packet
  preview : ∀ (C : Crypto) (s : DirectionalSession), s.preview C packet' = s.preview C packet
  previewProfile3Data : ∀ (C : Crypto) (s : DirectionalSession),
    s.previewProfile3Data C packet' = s.previewProfile3Data C packet

theorem opensAlike_set_hop (h : Header.unpackWithBudget packet budget = .ok (header, payload))
    (hop_ne : hop ≠ 0) : OpensAlike packet (packet.set 5 hop) where
  aad counter := protectedAad_set_hop h hop_ne counter
  decrypt C s := by
    unfold DirectionalSession.decrypt
    rw [preview_set_hop h hop_ne]
  decryptProfile3Data C s := by
    unfold DirectionalSession.decryptProfile3Data
    rw [previewProfile3Data_set_hop h hop_ne]
  preview C s := preview_set_hop h hop_ne
  previewProfile3Data C s := previewProfile3Data_set_hop h hop_ne

theorem OpensAlike.trans {a b c : List Byte} (hab : OpensAlike a b) (hbc : OpensAlike b c) :
    OpensAlike a c where
  aad counter := (hbc.aad counter).trans (hab.aad counter)
  decrypt C s := (hbc.decrypt C s).trans (hab.decrypt C s)
  decryptProfile3Data C s := (hbc.decryptProfile3Data C s).trans (hab.decryptProfile3Data C s)
  preview C s := (hbc.preview C s).trans (hab.preview C s)
  previewProfile3Data C s := (hbc.previewProfile3Data C s).trans (hab.previewProfile3Data C s)

end Session

namespace Forward

open Wire Session

variable {manifest sized : NativeManifest} {budgets : DescriptorBudgets sized} {id egress : U32}
  {header : Header} {packet packet' payload : List Byte} {budget : ℕ}

/-- A forwarded packet under the egress budget, against what came in. -/
theorem Forwards.output_facts
    (h : Forwards manifest budgets id packet packet' egress header payload budget) :
    packet'.length ≤ budget ∧ SameExceptHop packet' packet ∧
      (byteAt packet' 5).val + 1 = (byteAt packet 5).val ∧ byteAt packet' 5 ≠ 0 ∧
      Header.unpackWithBudget packet' budget =
        .ok ({ header with hopLimit := header.hopLimit - 1 }, payload) ∧
      OpensAlike packet packet' := by
  obtain ⟨⟨ingressBudget, -, hunpack⟩, hhop, -, -, hfits, rfl⟩ := h
  obtain ⟨rfl, -, hmin, -⟩ := unpack_eq_ok hunpack
  rw [HEADER_LEN] at hmin
  have hbyte : (Header.ofBytes packet).hopLimit = byteAt packet 5 := rfl
  rw [hbyte] at hhop ⊢
  have hsub : (byteAt packet 5 - 1).val + 1 = (byteAt packet 5).val := by
    have hone : (1 : Byte) ≤ byteAt packet 5 := by
      change 1 ≤ (byteAt packet 5).val
      omega
    rw [Fin.sub_val_of_le hone]
    change (byteAt packet 5).val - 1 + 1 = _
    omega
  have hne : byteAt packet 5 - 1 ≠ 0 := by
    intro h0
    rw [h0] at hsub
    change 0 + 1 = _ at hsub
    omega
  have hat : byteAt (packet.set 5 (byteAt packet 5 - 1)) 5 = byteAt packet 5 - 1 := by
    have : 5 < packet.length := by omega
    simp [byteAt, this]
  refine ⟨by rwa [List.length_set], ?_, ?_, ?_, unpack_set_hop hunpack hne hfits,
    opensAlike_set_hop hunpack hne⟩
  · apply sameExceptHop_of_set
    rw [List.set_set]
  · rw [hat, hsub]
  · rwa [hat]

end Forward

end R8
