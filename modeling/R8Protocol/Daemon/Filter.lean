import R8Protocol.Forward.Network
import R8Protocol.Lib.PacketFilter

/-! The packet filter on every descriptor, and that it hides no frame the forwarder would use. -/
namespace R8.Daemon

open FixedWidth Wire Session Forward PacketFilter

def ETH_P_R8 : U32 := 0x88b5

def R8_VERSION_MASK : U32 := 0xf0

def R8_VERSION_NIBBLE : U32 := 0x80

def r8BpfProgram : List SockFilter :=
  [⟨0x28, 0, 0, 12⟩, ⟨0x15, 0, 4, ETH_P_R8⟩, ⟨0x30, 0, 0, 14⟩, ⟨0x54, 0, 0, R8_VERSION_MASK⟩,
    ⟨0x15, 0, 1, R8_VERSION_NIBBLE⟩, ⟨0x06, 0, 0, ⟨2 ^ 32 - 1, by omega⟩⟩, ⟨0x06, 0, 0, 0⟩]

/-- What the socket queues of a frame on the wire: as many bytes as the filter returns, if any. -/
def received (frame : List Byte) : Option (List Byte) :=
  (run r8BpfProgram frame).bind fun n => if n = 0 then none else some (frame.take n)

/-- What the filter is there to let through. -/
structure Admissible (frame : List Byte) : Prop where
  long : ETHERNET_II_HEADER_LEN < frame.length
  ethertype : slice frame 12 14 = u16Bytes R8_ETHERTYPE
  version : byteAt frame ETHERNET_II_HEADER_LEN >>> 4 = VERSION

instance decidableAdmissible (frame : List Byte) : Decidable (Admissible frame) :=
  decidable_of_iff (ETHERNET_II_HEADER_LEN < frame.length ∧
    slice frame 12 14 = u16Bytes R8_ETHERTYPE ∧
    byteAt frame ETHERNET_II_HEADER_LEN >>> 4 = VERSION)
    ⟨fun ⟨h₁, h₂, h₃⟩ => ⟨h₁, h₂, h₃⟩, fun ⟨h₁, h₂, h₃⟩ => ⟨h₁, h₂, h₃⟩⟩

variable {manifest sized : NativeManifest} {budgets : DescriptorBudgets sized} {id : U32}
  {frame : List Byte}

theorem beNat_eq_iff {l : List Byte} {n : ℕ} (hn : n < 256 ^ l.length) :
    beNat l = n ↔ l = beBytes l.length n := by
  constructor
  · rintro rfl
    exact (beBytes_beNat l).symm
  · intro h
    rw [h, beNat_beBytes, Nat.mod_eq_of_lt hn]

theorem version_nibble (b : Byte) : b.val &&& 0xf0 = 0x80 ↔ b >>> 4 = VERSION := by
  revert b
  decide +kernel

/-- The program returns all of an admissible frame and nothing of any other. -/
theorem run_r8BpfProgram (frame : List Byte) :
    run r8BpfProgram frame = some (if Admissible frame then 2 ^ 32 - 1 else 0) := by
  have hprogram : r8BpfProgram.mapM SockFilter.instruction? = some
      [.load .half 12, .jumpEq 0x88b5 0 4, .load .byte 14, .mask 0xf0, .jumpEq 0x80 0 1,
        .ret (2 ^ 32 - 1), .ret 0] := by decide
  rw [run, hprogram, Option.bind_some]
  by_cases hshort : frame.length < 14
  · have hno : ¬ Admissible frame := fun h => by
      have := h.long
      unfold ETHERNET_II_HEADER_LEN at this
      omega
    rw [exec_load_short (by simpa [Width.bytes] using hshort), if_neg hno]
  have htype : loadAt frame .half 12 = some (beNat (slice frame 12 14)) :=
    loadAt_eq_some (by simp [Width.bytes]; omega)
  rw [exec_load htype, exec_jumpEq]
  have hslice : (slice frame 12 14).length = 2 := by rw [slice_length]; omega
  by_cases hether : slice frame 12 14 = u16Bytes R8_ETHERTYPE
  swap
  · have hne : beNat (slice frame 12 14) ≠ 0x88b5 := by
      rw [Ne, beNat_eq_iff (by rw [hslice]; norm_num), hslice]
      exact hether
    rw [if_neg hne, if_neg fun h => hether h.ethertype]
    simp
  have heq : beNat (slice frame 12 14) = 0x88b5 := by
    rw [beNat_eq_iff (by rw [hslice]; norm_num), hslice]
    exact hether
  rw [if_pos heq]
  by_cases hlong : frame.length < 15
  · have hno : ¬ Admissible frame := fun h => by
      have := h.long
      unfold ETHERNET_II_HEADER_LEN at this
      omega
    rw [List.drop_zero, exec_load_short (by simpa [Width.bytes] using hlong), if_neg hno]
  have hbyte : loadAt frame .byte 14 = some (byteAt frame 14).val := by
    rw [loadAt_eq_some (by simp [Width.bytes]; omega), Width.bytes,
      ← byteAt_cons_drop (by omega : 14 < frame.length)]
    simp [beNat]
  rw [List.drop_zero, exec_load hbyte, exec_mask, exec_jumpEq]
  by_cases hversion : byteAt frame 14 >>> 4 = VERSION
  · rw [if_pos ((version_nibble _).mpr hversion), if_pos ⟨by unfold ETHERNET_II_HEADER_LEN; omega,
      hether, hversion⟩]
    simp
  · rw [if_neg fun h => hversion ((version_nibble _).mp h), if_neg fun h => hversion h.version]
    simp

theorem received_eq (frame : List Byte) :
    received frame = if Admissible frame then some (frame.take (2 ^ 32 - 1)) else none := by
  rw [received, run_r8BpfProgram, Option.bind_some]
  split <;> simp

theorem received_whole (h : Admissible frame) (hfits : frame.length < 2 ^ 32) :
    received frame = some frame := by
  rw [received_eq, if_pos h, List.take_of_length_le (by omega)]

/-- What the forwarder comes to a decision about, other than to drop it. -/
theorem processFrame_admissible
    (h : ∀ reason, processFrame manifest budgets id frame ≠ .drop reason) :
    Admissible frame ∧ frame.length ≤ ETHERNET_II_HEADER_LEN + SERIALIZED_R8_MAX := by
  unfold processFrame at h
  split at h
  · exact absurd rfl (h _)
  rename_i hframe
  push Not at hframe
  cases hif : manifest.interface id with
  | none => simp [hif] at h
  | some ingress =>
    simp only [hif] at h
    split at h
    · exact absurd rfl (h _)
    cases hingress : budgets.get id with
    | none => simp [hingress] at h
    | some ingressBudget =>
      simp only [hingress] at h
      split at h
      · exact absurd rfl (h _)
      cases hunpack : Header.unpackWithBudget (frame.drop ETHERNET_II_HEADER_LEN) ingressBudget with
      | error e => simp [hunpack] at h
      | ok r =>
        obtain ⟨-, -, hlen, -⟩ := unpack_eq_ok hunpack
        simp only [Header.unpackWithBudget, Outcome.ite_error_eq_ok] at hunpack
        obtain ⟨hmax, -, -, -, -, hversion, -⟩ := hunpack
        rw [List.length_drop] at hlen hmax
        unfold HEADER_LEN at hlen
        have hfirst : byteAt (frame.drop ETHERNET_II_HEADER_LEN) 0 =
            byteAt frame ETHERNET_II_HEADER_LEN := by
          simp [byteAt, List.getD_eq_getElem?_getD]
        rw [hfirst] at hversion
        exact ⟨⟨by omega, hframe.2, not_not.mp hversion⟩, by omega⟩

/-- The frames of a descriptor that are delivered or forwarded. -/
def used (manifest : NativeManifest) {sized : NativeManifest} (budgets : DescriptorBudgets sized)
    (id : U32) (frames : List (List Byte)) : List FrameAction :=
  frames.filterMap fun frame =>
    match processFrame manifest budgets id frame with
    | .drop _ => none
    | action => some action

theorem used_drop {reason : FrameDropReason} {frames : List (List Byte)}
    (h : processFrame manifest budgets id frame = .drop reason) :
    used manifest budgets id (frame :: frames) = used manifest budgets id frames := by
  rw [used, List.filterMap_cons_none (by rw [h])]
  rfl

/-- The filter takes away nothing but frames that are dropped anyway. -/
theorem used_received (manifest : NativeManifest) {sized : NativeManifest}
    (budgets : DescriptorBudgets sized) (id : U32) (frames : List (List Byte)) :
    used manifest budgets id (frames.filterMap received) = used manifest budgets id frames := by
  induction frames with
  | nil => rfl
  | cons frame frames ih =>
    by_cases hused : ∀ reason, processFrame manifest budgets id frame ≠ .drop reason
    · obtain ⟨hadmissible, hfits⟩ := processFrame_admissible hused
      unfold ETHERNET_II_HEADER_LEN SERIALIZED_R8_MAX at hfits
      rw [List.filterMap_cons_some (received_whole hadmissible (by omega))]
      simp only [used, List.filterMap_cons] at ih ⊢
      rw [ih]
    · push Not at hused
      obtain ⟨reason, hreason⟩ := hused
      rw [used_drop hreason, ← ih]
      cases hreceived : received frame with
      | none => rw [List.filterMap_cons_none hreceived]
      | some seen =>
        -- A frame the filter cuts short is still far too long for any budget.
        have hdropped : ∃ reason, processFrame manifest budgets id seen = .drop reason := by
          by_contra hno
          push Not at hno
          have hfits := (processFrame_admissible hno).2
          rw [received_eq] at hreceived
          split at hreceived
          swap
          · cases hreceived
          obtain rfl := Option.some.inj hreceived
          unfold ETHERNET_II_HEADER_LEN SERIALIZED_R8_MAX at hfits
          rw [List.length_take] at hfits
          rw [List.take_of_length_le (by omega)] at hno
          exact hno reason hreason
        obtain ⟨reason', hreason'⟩ := hdropped
        rw [List.filterMap_cons_some hreceived, used_drop hreason']

/-- What a node sends on passes the filter of whichever node it reaches. -/
theorem received_forwarded {packet' : List Byte} {egress : U32} {mac : Bytes 6}
    (h : processFrame manifest budgets id frame = .forward packet' egress mac)
    (localMac : Bytes 6) :
    received (buildEthernetFrame mac localMac packet') =
      some (buildEthernetFrame mac localMac packet') := by
  obtain ⟨hadmissible, hfits⟩ := processFrame_admissible (by rw [h]; simp)
  obtain ⟨header, payload, budget, hf⟩ := processFrame_eq_forward h
  obtain ⟨ingressBudget, -, hunpack⟩ := hf.admitted
  obtain ⟨-, -, hlen, -⟩ := unpack_eq_ok hunpack
  have hhead : (mac.val ++ localMac.val ++ u16Bytes R8_ETHERTYPE).length = 14 := by
    simp [mac.property, localMac.property]
  have hlength : (buildEthernetFrame mac localMac packet').length = frame.length := by
    have := hadmissible.long
    rw [buildEthernetFrame, List.length_append, hhead, hf.output, List.length_set,
      List.length_drop]
    unfold ETHERNET_II_HEADER_LEN at *
    omega
  refine received_whole ⟨by rw [hlength]; exact hadmissible.long, ?_, ?_⟩ ?_
  · rw [buildEthernetFrame, slice, List.append_assoc, List.append_assoc,
      ← List.append_assoc mac.val, List.drop_left' (by simp [mac.property, localMac.property]),
      List.take_left' (by simp)]
  · have hfirst : byteAt (buildEthernetFrame mac localMac packet') ETHERNET_II_HEADER_LEN =
        byteAt packet' 0 := by
      have hdropped := @List.drop_left' _ _ packet' _ hhead
      rw [← Nat.add_zero ETHERNET_II_HEADER_LEN]
      rw [byteAt, byteAt, List.getD_eq_getElem?_getD, List.getD_eq_getElem?_getD,
        ← List.getElem?_drop, buildEthernetFrame]
      rw [show ETHERNET_II_HEADER_LEN = 14 from rfl, hdropped]
    rw [hfirst, hf.output, byteAt_set (by omega)]
    have hdrop : byteAt (frame.drop ETHERNET_II_HEADER_LEN) 0 =
        byteAt frame ETHERNET_II_HEADER_LEN := by
      simp [byteAt, List.getD_eq_getElem?_getD]
    rw [hdrop]
    exact hadmissible.version
  · unfold ETHERNET_II_HEADER_LEN SERIALIZED_R8_MAX at hfits
    omega

/-- The filter passes whole exactly the frames with the EtherType, a first byte of packet and the
version nibble; it changes nothing of what a node does with any frames that arrive, and never holds
up what another node forwards. -/
theorem filter_transparent (manifest : NativeManifest) {sized : NativeManifest}
    (budgets : DescriptorBudgets sized) (id : U32) :
    (∀ frame, received frame =
      if Admissible frame then some (frame.take (2 ^ 32 - 1)) else none) ∧
    (∀ frames, used manifest budgets id (frames.filterMap received) =
      used manifest budgets id frames) ∧
    ∀ frame packet' egress mac,
      processFrame manifest budgets id frame = .forward packet' egress mac → ∀ localMac,
        received (buildEthernetFrame mac localMac packet') =
          some (buildEthernetFrame mac localMac packet') :=
  ⟨received_eq, used_received manifest budgets id, fun _ _ _ _ h => received_forwarded h⟩

end R8.Daemon
