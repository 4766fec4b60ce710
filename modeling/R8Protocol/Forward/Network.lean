import R8Protocol.Forward.Transparency

/-! Networks of forwarders: a packet dies after as many hops as its limit allows, and arrives as it
was sent but for the hop limit. -/
namespace R8.Forward

open FixedWidth Wire Session

/-- The frame a node sends for a packet it forwards. -/
def buildEthernetFrame (destination source : Bytes 6) (packet : List Byte) : List Byte :=
  destination.val ++ source.val ++ u16Bytes R8_ETHERTYPE ++ packet

/-- Nodes, and what becomes of the `n`-th frame sent: it is lost or reaches one node. -/
structure Network (ι : Type*) where
  manifest : ι → NativeManifest
  budgets : ∀ i, DescriptorBudgets (manifest i)
  localMac : ι → U32 → Bytes 6
  carry : ℕ → ι → U32 → Bytes 6 → Option (ι × U32)

structure Arrival (ι : Type*) where
  node : ι
  ingressDescriptorId : U32
  frame : List Byte

namespace Arrival

variable {ι : Type*}

def packet (a : Arrival ι) : List Byte := a.frame.drop ETHERNET_II_HEADER_LEN

def hopLimit (a : Arrival ι) : ℕ := (byteAt a.packet 5).val

end Arrival

/-- One forward: where it happened, what came in and what went out. -/
structure Transmission (ι : Type*) where
  node : ι
  ingressDescriptorId : U32
  received : List Byte
  packet : List Byte
  egressDescriptorId : U32
  nextHopMac : Bytes 6

namespace Network

variable {ι : Type*}

def process (N : Network ι) (a : Arrival ι) : FrameAction :=
  processFrame (N.manifest a.node) (N.budgets a.node) a.ingressDescriptorId a.frame

/-- The next arrival of a transmission, if it gets there. -/
def next (N : Network ι) (n : ℕ) (t : Transmission ι) : Option (Arrival ι) :=
  (N.carry n t.node t.egressDescriptorId t.nextHopMac).map fun (node, ingress) =>
    ⟨node, ingress, buildEthernetFrame t.nextHopMac (N.localMac t.node t.egressDescriptorId) t.packet⟩

def transmit (N : Network ι) (a : Arrival ι) : Option (Transmission ι) :=
  match N.process a with
  | .forward packet egress mac =>
    some ⟨a.node, a.ingressDescriptorId, a.packet, packet, egress, mac⟩
  | _ => none

/-- The forwards a packet goes through within `fuel` arrivals, of which this is the `n`-th. -/
def journey (N : Network ι) : ℕ → ℕ → Arrival ι → List (Transmission ι)
  | 0, _, _ => []
  | fuel + 1, n, a =>
    match N.transmit a with
    | none => []
    | some t => t :: match N.next n t with
      | none => []
      | some a' => N.journey fuel (n + 1) a'

variable {N : Network ι} {a a' : Arrival ι} {t : Transmission ι} {n fuel k : ℕ}

theorem next_packet (h : N.next n t = some a') : a'.packet = t.packet := by
  simp only [next, Option.map_eq_some_iff] at h
  obtain ⟨r, -, rfl⟩ := h
  have hhead : (t.nextHopMac.val ++ (N.localMac t.node t.egressDescriptorId).val ++
      u16Bytes R8_ETHERTYPE).length = ETHERNET_II_HEADER_LEN := by
    simp [t.nextHopMac.property, (N.localMac t.node t.egressDescriptorId).property,
      ETHERNET_II_HEADER_LEN]
  exact List.drop_left' hhead

theorem transmit_eq_some (h : N.transmit a = some t) :
    t.received = a.packet ∧ t.node = a.node ∧ ∃ header payload budget,
      Forwards (N.manifest t.node) (N.budgets t.node) t.ingressDescriptorId t.received t.packet
        t.egressDescriptorId header payload budget := by
  unfold transmit at h
  split at h
  · rename_i packet egress mac hforward
    obtain rfl := Option.some.inj h
    exact ⟨rfl, rfl, processFrame_eq_forward hforward⟩
  · cases h

/-- What is promised about one forward of a network. -/
structure Transparent (N : Network ι) (t : Transmission ι) : Prop where
  interface : ∃ i ∈ (N.manifest t.node).interfaces, i.descriptorId = t.egressDescriptorId
  sameExceptHop : SameExceptHop t.packet t.received
  decrement : (byteAt t.packet 5).val + 1 = (byteAt t.received 5).val
  nonzero : byteAt t.packet 5 ≠ 0
  reads : ∃ ingressBudget egressBudget header payload,
    (N.budgets t.node).get t.ingressDescriptorId = some ingressBudget ∧
    (N.budgets t.node).get t.egressDescriptorId = some egressBudget ∧
    t.packet.length ≤ egressBudget ∧
    Header.unpackWithBudget t.received ingressBudget = .ok (header, payload) ∧
    Header.unpackWithBudget t.packet egressBudget =
      .ok ({ header with hopLimit := header.hopLimit - 1 }, payload)
  opensAlike : OpensAlike t.received t.packet

theorem transmit_transparent (h : N.transmit a = some t) : N.Transparent t := by
  obtain ⟨-, -, header, payload, budget, hf⟩ := transmit_eq_some h
  obtain ⟨hlen, hsame, hdec, hne, hunpack, halike⟩ := hf.output_facts
  obtain ⟨ingressBudget, hingress, hin⟩ := hf.admitted
  exact ⟨hf.interface, hsame, hdec, hne,
    ⟨ingressBudget, budget, header, payload, hingress, hf.lookup, hlen, hin, hunpack⟩, halike⟩

theorem hopLimit_next (h : N.transmit a = some t) (hn : N.next n t = some a') :
    a'.hopLimit + 1 = a.hopLimit ∧ 0 < a'.hopLimit := by
  have ht := transmit_transparent h
  have hdec := ht.decrement
  have hpos : 0 < (byteAt t.packet 5).val := by
    apply Nat.pos_of_ne_zero
    intro h0
    exact ht.nonzero (Fin.ext h0)
  rw [(transmit_eq_some h).1] at hdec
  simp only [Arrival.hopLimit, next_packet hn]
  exact ⟨hdec, hpos⟩

theorem hopLimit_transmit (h : N.transmit a = some t) : 2 ≤ a.hopLimit := by
  obtain ⟨hreceived, -, header, payload, budget, hf⟩ := transmit_eq_some h
  obtain ⟨_, -, hin⟩ := hf.admitted
  have hhop := hf.hop
  rw [(unpack_eq_ok hin).1, hreceived] at hhop
  exact hhop

theorem journey_length (fuel n : ℕ) (a : Arrival ι) :
    (N.journey fuel n a).length ≤ a.hopLimit - 1 := by
  induction fuel generalizing n a with
  | zero => exact Nat.zero_le _
  | succ fuel ih =>
    unfold journey
    cases ht : N.transmit a with
    | none => exact Nat.zero_le _
    | some t =>
      have hhop := hopLimit_transmit ht
      cases hn : N.next n t with
      | none =>
        simp only [hn, List.length_singleton]
        omega
      | some a' =>
        have hnext := hopLimit_next ht hn
        have := ih (n + 1) a'
        simp only [hn, List.length_cons]
        omega

/-- More fuel than the hop limit adds nothing: the packet is gone. -/
theorem journey_ends (k n : ℕ) (a : Arrival ι) :
    N.journey (a.hopLimit + k) n a = N.journey a.hopLimit n a := by
  generalize hl : a.hopLimit = hop
  induction hop generalizing n a with
  | zero =>
    have hnone : N.transmit a = none := by
      cases ht : N.transmit a with
      | none => rfl
      | some t =>
        have := hopLimit_transmit ht
        omega
    cases k with
    | zero => rfl
    | succ k =>
      simp only [journey, hnone]
  | succ hop ih =>
    rw [Nat.add_right_comm]
    simp only [journey]
    cases ht : N.transmit a with
    | none => rfl
    | some t =>
      cases hn : N.next n t with
      | none => simp only [hn]
      | some a' =>
        have hnext := hopLimit_next ht hn
        simp only [hn, ih (n + 1) a' (by omega)]

theorem journey_transparent (fuel n : ℕ) (a : Arrival ι) :
    ∀ t ∈ N.journey fuel n a, N.Transparent t ∧ SameExceptHop t.packet a.packet ∧
      OpensAlike a.packet t.packet := by
  induction fuel generalizing n a with
  | zero =>
    intro t h
    exact absurd h List.not_mem_nil
  | succ fuel ih =>
    unfold journey
    cases ht : N.transmit a with
    | none =>
      intro t h
      exact absurd h List.not_mem_nil
    | some t₀ =>
      have h₀ := transmit_transparent ht
      have hreceived := (transmit_eq_some ht).1
      have hsame : SameExceptHop t₀.packet a.packet := hreceived ▸ h₀.sameExceptHop
      have halike : OpensAlike a.packet t₀.packet := hreceived ▸ h₀.opensAlike
      intro t hmem
      rcases List.mem_cons.mp hmem with rfl | hmem
      · exact ⟨h₀, hsame, halike⟩
      cases hn : N.next n t₀ with
      | none =>
        rw [hn] at hmem
        exact absurd hmem List.not_mem_nil
      | some a' =>
        rw [hn] at hmem
        obtain ⟨htrans, hsame', halike'⟩ := ih (n + 1) a' t hmem
        rw [next_packet hn] at hsame' halike'
        refine ⟨htrans, ⟨hsame'.1.trans hsame.1, ?_⟩, halike.trans halike'⟩
        intro i hi
        exact (hsame'.2 i hi).trans (hsame.2 i hi)

/-- Whatever the topology, a packet of hop limit `h` is forwarded at most `h - 1` times, and each
time it leaves as it came but for the hop limit. -/
theorem forwarding_transparency (N : Network ι) (fuel n : ℕ) (a : Arrival ι) :
    (N.journey fuel n a).length ≤ a.hopLimit - 1 ∧
      (∀ k, N.journey (a.hopLimit + k) n a = N.journey a.hopLimit n a) ∧
      ∀ t ∈ N.journey fuel n a, N.Transparent t ∧ SameExceptHop t.packet a.packet ∧
        OpensAlike a.packet t.packet :=
  ⟨journey_length fuel n a, fun k => journey_ends k n a, journey_transparent fuel n a⟩

end Network

end R8.Forward
