import R8Protocol.Forward.Manifest
import R8Protocol.Session.Layout

/-! Stateless frame admission and forwarding, and what one forward changes in a packet. -/
namespace R8.Forward

open FixedWidth Wire Session

def R8_ETHERTYPE : U16 := 0x88b5

def ETHERNET_II_HEADER_LEN : ℕ := 14

def MIN_R8_PACKET_BUDGET : ℕ := 48

inductive DescriptorBudgetError
  | invalid | incomplete
  deriving DecidableEq, Repr

/-- One packet budget for every and only interface of a manifest. -/
structure DescriptorBudgets (manifest : NativeManifest) where
  values : List (U32 × ℕ)
  bounded : ∀ v ∈ values, MIN_R8_PACKET_BUDGET ≤ v.2 ∧ v.2 ≤ SERIALIZED_R8_MAX
  keys_nodup : (values.map Prod.fst).Nodup
  exactly : values.length = manifest.interfaces.length
  complete : ∀ i ∈ manifest.interfaces, i.descriptorId ∈ values.map Prod.fst

namespace DescriptorBudgets

/-- The budgets accepted so far. -/
structure Table where
  values : List (U32 × ℕ)
  bounded : ∀ v ∈ values, MIN_R8_PACKET_BUDGET ≤ v.2 ∧ v.2 ≤ SERIALIZED_R8_MAX
  keys_nodup : (values.map Prod.fst).Nodup

def insert (t : Table) (v : U32 × ℕ) : Except DescriptorBudgetError Table :=
  if h : ¬ (MIN_R8_PACKET_BUDGET ≤ v.2 ∧ v.2 ≤ SERIALIZED_R8_MAX) ∨
      v.1 ∈ t.values.map Prod.fst then .error .invalid
  else
    have ⟨hbounded, hkey⟩ : (MIN_R8_PACKET_BUDGET ≤ v.2 ∧ v.2 ≤ SERIALIZED_R8_MAX) ∧
        v.1 ∉ t.values.map Prod.fst := by simpa only [not_or, not_not] using h
    .ok ⟨t.values ++ [v], by
      intro x hx
      rcases List.mem_append.mp hx with hx | hx
      · exact t.bounded x hx
      · rw [List.mem_singleton.mp hx]
        exact hbounded, nodup_map_append t.keys_nodup hkey⟩

def insertAll : Table → List (U32 × ℕ) → Except DescriptorBudgetError Table
  | t, [] => .ok t
  | t, v :: vs => do
    let t ← insert t v
    insertAll t vs

def new (manifest : NativeManifest) (budgets : List (U32 × ℕ)) :
    Except DescriptorBudgetError (DescriptorBudgets manifest) := do
  let t ← insertAll ⟨[], fun _ h => absurd h List.not_mem_nil, List.nodup_nil⟩ budgets
  if h : t.values.length = manifest.interfaces.length ∧
      ∀ i ∈ manifest.interfaces, i.descriptorId ∈ t.values.map Prod.fst then
    .ok ⟨t.values, t.bounded, t.keys_nodup, h.1, h.2⟩
  else .error .incomplete

def get {manifest : NativeManifest} (b : DescriptorBudgets manifest) (descriptorId : U32) :
    Option ℕ := b.values.lookup descriptorId

end DescriptorBudgets

inductive FrameDropReason
  | invalidFrame | unknownIngressDescriptor | sourceNotAllowed | ingressBudget | malformedPacket
  | localDeliveryDisabled | transitDisabled | hopLimit | noRoute | egressBudget
  deriving DecidableEq, Repr

inductive FrameAction
  | drop (reason : FrameDropReason)
  | deliver (packet : List Byte) (binding : ObservedBinding)
  | forward (packet : List Byte) (egressDescriptorId : U32) (nextHopMac : Bytes 6)
  deriving DecidableEq, Repr

/-- The transit half of `processFrame`, once the packet is known not to end here. -/
def forwardPacket (manifest : NativeManifest) {sized : NativeManifest}
    (budgets : DescriptorBudgets sized) (ingress : Interface) (header : Header)
    (packet : List Byte) : FrameAction :=
  if ¬ ingress.transit then .drop .transitDisabled
  else if header.hopLimit ≤ 1 then .drop .hopLimit
  else match manifest.routeFor header.dst with
    | none => .drop .noRoute
    | some route =>
      match budgets.get route.egressDescriptorId with
      | none => .drop .egressBudget
      | some egressBudget =>
        if egressBudget < packet.length then .drop .egressBudget
        else .forward (packet.set 5 (byteAt packet 5 - 1)) route.egressDescriptorId
          route.nextHopMac

/-- The budgets need not be those of the manifest: nothing ties the two arguments together. -/
def processFrame (manifest : NativeManifest) {sized : NativeManifest}
    (budgets : DescriptorBudgets sized) (ingressDescriptorId : U32) (frame : List Byte) :
    FrameAction :=
  if frame.length < ETHERNET_II_HEADER_LEN ∨ slice frame 12 14 ≠ u16Bytes R8_ETHERTYPE then
    .drop .invalidFrame
  else match manifest.interface ingressDescriptorId with
    | none => .drop .unknownIngressDescriptor
    | some ingress =>
      let sourceMac := arrayAt 6 frame 6
      if ¬ ingress.permitsSourceMac sourceMac then .drop .sourceNotAllowed
      else
        let packet := frame.drop ETHERNET_II_HEADER_LEN
        match budgets.get ingressDescriptorId with
        | none => .drop .ingressBudget
        | some ingressBudget =>
          if ingressBudget < packet.length then .drop .ingressBudget
          else match Header.unpackWithBudget packet ingressBudget with
            | .error _ => .drop .malformedPacket
            | .ok (header, _) =>
              if manifest.isLocalLoc header.dst then
                if ¬ ingress.localDelivery then .drop .localDeliveryDisabled
                else .deliver packet (.native ingressDescriptorId sourceMac)
              else forwardPacket manifest budgets ingress header packet

variable {manifest sized : NativeManifest} {budgets : DescriptorBudgets sized} {ingress : Interface}
  {id egress : U32} {mac : Bytes 6} {header : Header} {frame packet packet' payload : List Byte}

/-- Everything a forward rests on. -/
structure Forwards (manifest : NativeManifest) {sized : NativeManifest}
    (budgets : DescriptorBudgets sized) (id : U32) (packet packet' : List Byte) (egress : U32)
    (header : Header) (payload : List Byte) (budget : ℕ) : Prop where
  admitted : ∃ ingressBudget, budgets.get id = some ingressBudget ∧
    Header.unpackWithBudget packet ingressBudget = .ok (header, payload)
  hop : 2 ≤ header.hopLimit.val
  interface : ∃ i ∈ manifest.interfaces, i.descriptorId = egress
  lookup : budgets.get egress = some budget
  fits : packet.length ≤ budget
  output : packet' = packet.set 5 (byteAt packet 5 - 1)

theorem forwardPacket_eq_forward
    (h : forwardPacket manifest budgets ingress header packet = .forward packet' egress mac) :
    2 ≤ header.hopLimit.val ∧ (∃ i ∈ manifest.interfaces, i.descriptorId = egress) ∧
      (∃ budget, budgets.get egress = some budget ∧ packet.length ≤ budget) ∧
      packet' = packet.set 5 (byteAt packet 5 - 1) := by
  unfold forwardPacket at h
  split at h
  · cases h
  split at h
  · cases h
  rename_i hhop
  split at h
  · cases h
  rename_i route hroute
  split at h
  · cases h
  rename_i budget hbudget
  split at h
  · cases h
  rename_i hfits
  cases h
  refine ⟨?_, NativeManifest.egress_interface hroute, ⟨budget, hbudget, not_lt.mp hfits⟩, rfl⟩
  have : ¬ header.hopLimit.val ≤ 1 := hhop
  omega

theorem forwardPacket_route
    (h : forwardPacket manifest budgets ingress header packet = .forward packet' egress mac) :
    ∃ route ∈ manifest.routes, route.egressDescriptorId = egress ∧ route.nextHopMac = mac := by
  unfold forwardPacket at h
  split at h
  · cases h
  split at h
  · cases h
  split at h
  · cases h
  rename_i route hroute
  split at h
  · cases h
  split at h
  · cases h
  cases h
  exact ⟨route, (NativeManifest.routeFor_eq_some hroute).1, rfl, rfl⟩

/-- What a frame is answered with that is neither dropped nor delivered here. -/
theorem processFrame_transit
    (h : processFrame manifest budgets id frame = .forward packet' egress mac) :
    ∃ ingress header ingressBudget payload,
      manifest.interface id = some ingress ∧ budgets.get id = some ingressBudget ∧
      Header.unpackWithBudget (frame.drop ETHERNET_II_HEADER_LEN) ingressBudget =
        .ok (header, payload) ∧
      forwardPacket manifest budgets ingress header (frame.drop ETHERNET_II_HEADER_LEN) =
        .forward packet' egress mac := by
  unfold processFrame at h
  split at h
  · cases h
  cases hif : manifest.interface id with
  | none => simp [hif] at h
  | some ingress =>
    simp only [hif] at h
    split at h
    · cases h
    cases hingress : budgets.get id with
    | none => simp [hingress] at h
    | some ingressBudget =>
      simp only [hingress] at h
      split at h
      · cases h
      cases hunpack : Header.unpackWithBudget (frame.drop ETHERNET_II_HEADER_LEN) ingressBudget with
      | error e => simp [hunpack] at h
      | ok r =>
        simp only [hunpack] at h
        split at h
        · split at h <;> cases h
        exact ⟨ingress, r.1, ingressBudget, r.2, rfl, rfl, hunpack, h⟩

theorem processFrame_eq_forward
    (h : processFrame manifest budgets id frame = .forward packet' egress mac) :
    ∃ header payload budget, Forwards manifest budgets id (frame.drop ETHERNET_II_HEADER_LEN) packet'
      egress header payload budget := by
  obtain ⟨ingress, header, ingressBudget, payload, -, hingress, hunpack, h⟩ := processFrame_transit h
  obtain ⟨hhop, hinterface, ⟨budget, hbudget, hfits⟩, hout⟩ := forwardPacket_eq_forward h
  exact ⟨header, payload, budget, ⟨ingressBudget, hingress, hunpack⟩, hhop, hinterface, hbudget,
    hfits, hout⟩

/-- Without a locator of its own a node delivers nothing. -/
theorem processFrame_ne_deliver {binding : ObservedBinding} (hlocal : manifest.localLocs = []) :
    processFrame manifest budgets id frame ≠ .deliver packet binding := by
  intro h
  unfold processFrame at h
  split at h
  · cases h
  split at h
  · cases h
  dsimp only at h
  split at h
  · cases h
  split at h
  · cases h
  split at h
  · cases h
  split at h
  · cases h
  have hnone : ∀ loc, manifest.isLocalLoc loc = false := by
    intro loc
    simp [NativeManifest.isLocalLoc, hlocal]
  rw [hnone] at h
  unfold forwardPacket at h
  simp only [Bool.false_eq_true, if_false] at h
  split at h
  · cases h
  split at h
  · cases h
  split at h
  · cases h
  split at h
  · cases h
  split at h <;> cases h

end R8.Forward
