import R8Protocol.Lib.Outcome
import R8Protocol.Session.Identity

/-! The native manifest: interfaces, static routes, and the validation that builds them. -/
namespace R8.Forward

open FixedWidth Wire

/-- The other two categories are the JSON reader's. -/
inductive ManifestError
  | invariant
  deriving DecidableEq, Repr

def isBroadcast (mac : Bytes 6) : Bool := mac = bytesOf 6 0xff

structure Interface where
  descriptorId : U32
  interfaceName : String
  allowedSourceMacs : List (Bytes 6)
  localDelivery : Bool
  transit : Bool
  descriptorId_ne : descriptorId ≠ 0
  interfaceName_ne : interfaceName ≠ ""
  macs_ne : allowedSourceMacs ≠ []
  macs_nodup : allowedSourceMacs.Nodup
  no_broadcast : ∀ mac ∈ allowedSourceMacs, ¬ isBroadcast mac

def Interface.permitsSourceMac (i : Interface) (mac : Bytes 6) : Bool := mac ∈ i.allowedSourceMacs

def isCanonicalNetwork (network : Loc) (prefixLength : Byte) : Bool :=
  let fullBytes := prefixLength.val / 8
  let remainingBits := prefixLength.val % 8
  if remainingBits ≠ 0 ∧
      (byteAt network.val fullBytes).val &&& (2 ^ (8 - remainingBits) - 1) ≠ 0 then false
  else (network.val.drop (fullBytes + if remainingBits ≠ 0 then 1 else 0)).all (· = 0)

def prefixMatches (network loc : Loc) (prefixLength : Byte) : Bool :=
  let fullBytes := prefixLength.val / 8
  let remainingBits := prefixLength.val % 8
  if network.val.take fullBytes ≠ loc.val.take fullBytes then false
  else remainingBits = 0 ∨ (byteAt network.val fullBytes).val >>> (8 - remainingBits) =
    (byteAt loc.val fullBytes).val >>> (8 - remainingBits)

structure Route where
  destinationNetwork : Loc
  prefixLength : Byte
  egressDescriptorId : U32
  nextHopMac : Bytes 6
  prefix_pos : prefixLength ≠ 0
  prefix_le : prefixLength ≤ 128
  canonical : isCanonicalNetwork destinationNetwork prefixLength
  egress_ne : egressDescriptorId ≠ 0
  no_broadcast : ¬ isBroadcast nextHopMac

def Route.matchesLoc (r : Route) (loc : Loc) : Bool :=
  prefixMatches r.destinationNetwork loc r.prefixLength

/-- What `validateManifest` establishes travels with the manifest. -/
structure NativeManifest where
  localLocs : List Loc
  interfaces : List Interface
  routes : List Route
  locs_nodup : localLocs.Nodup
  ids_nodup : (interfaces.map Interface.descriptorId).Nodup
  names_nodup : (interfaces.map Interface.interfaceName).Nodup
  egress_known : ∀ r ∈ routes, r.egressDescriptorId ∈ interfaces.map Interface.descriptorId
  routes_nodup : (routes.map fun r => (r.destinationNetwork, r.prefixLength)).Nodup

/-- `max_by_key` of the source: the last of the elements with the greatest key. -/
def maxByKey {α : Type*} (key : α → ℕ) (l : List α) : Option α :=
  l.foldl (fun best x => match best with
    | none => some x
    | some b => if key x < key b then some b else some x) none

section MaxByKey

variable {α : Type*} {key : α → ℕ} {l : List α} {a x : α}

theorem maxByKey_append (key : α → ℕ) (l : List α) (a : α) : maxByKey key (l ++ [a]) =
    match maxByKey key l with
    | none => some a
    | some b => if key a < key b then some b else some a := by
  rw [maxByKey, List.foldl_append]
  rfl

theorem maxByKey_eq_some (h : maxByKey key l = some x) : x ∈ l ∧ ∀ y ∈ l, key y ≤ key x := by
  induction l using List.reverseRecOn generalizing x with
  | nil => cases h
  | append_singleton l a ih =>
    rw [maxByKey_append] at h
    cases hl : maxByKey key l with
    | none =>
      rw [hl] at h
      obtain rfl := Option.some.inj h
      have hnil : l = [] := by
        by_contra hne
        obtain ⟨l', b, rfl⟩ := List.eq_nil_or_concat l |>.resolve_left hne
        rw [List.concat_eq_append, maxByKey_append] at hl
        split at hl
        · cases hl
        · split at hl <;> cases hl
      subst hnil
      simp
    | some b =>
      obtain ⟨hb, hmax⟩ := ih hl
      rw [hl] at h
      dsimp only at h
      split at h
      · obtain rfl := Option.some.inj h
        refine ⟨List.mem_append_left _ hb, ?_⟩
        intro y hy
        rcases List.mem_append.mp hy with hy | hy
        · exact hmax y hy
        · rw [List.mem_singleton.mp hy]
          omega
      · obtain rfl := Option.some.inj h
        refine ⟨List.mem_append_right _ (List.mem_singleton_self _), ?_⟩
        intro y hy
        rcases List.mem_append.mp hy with hy | hy
        · have := hmax y hy
          omega
        · rw [List.mem_singleton.mp hy]

end MaxByKey

namespace NativeManifest

variable {m : NativeManifest} {loc : Loc} {r : Route}

def isLocalLoc (m : NativeManifest) (loc : Loc) : Bool := loc ∈ m.localLocs

def interface (m : NativeManifest) (descriptorId : U32) : Option Interface :=
  m.interfaces.find? fun i => i.descriptorId = descriptorId

def routeFor (m : NativeManifest) (loc : Loc) : Option Route :=
  maxByKey (fun r => r.prefixLength.val) (m.routes.filter fun r => r.matchesLoc loc)

/-- The selected route matches, and no route that matches has a longer prefix. -/
theorem routeFor_eq_some (h : m.routeFor loc = some r) :
    r ∈ m.routes ∧ r.matchesLoc loc ∧
      ∀ r' ∈ m.routes, r'.matchesLoc loc → r'.prefixLength.val ≤ r.prefixLength.val := by
  obtain ⟨hr, hmax⟩ := maxByKey_eq_some h
  obtain ⟨hmem, hloc⟩ := List.mem_filter.mp hr
  refine ⟨hmem, hloc, ?_⟩
  intro r' hr' hloc'
  exact hmax r' (List.mem_filter.mpr ⟨hr', hloc'⟩)

theorem egress_interface (h : m.routeFor loc = some r) :
    ∃ i ∈ m.interfaces, i.descriptorId = r.egressDescriptorId := by
  have hknown := m.egress_known r (routeFor_eq_some h).1
  obtain ⟨i, hi, hid⟩ := List.mem_map.mp hknown
  exact ⟨i, hi, hid⟩

end NativeManifest

structure RawInterface where
  descriptorId : U32
  interfaceName : String
  allowedSourceMacs : List (Bytes 6)
  localDelivery : Bool
  transit : Bool

structure RawPrefix where
  network : Loc
  prefixLength : Byte

structure RawRoute where
  destinationPrefix : RawPrefix
  egressDescriptorId : U32
  nextHopMac : Bytes 6

/-- The records as the JSON reader hands them over. -/
structure RawManifest where
  localLocs : List Loc
  interfaces : List RawInterface
  routes : List RawRoute

def checkSourceMacs : List (Bytes 6) → List (Bytes 6) → Except ManifestError Unit
  | _, [] => .ok ()
  | seen, mac :: macs =>
    if isBroadcast mac ∨ mac ∈ seen then .error .invariant else checkSourceMacs (mac :: seen) macs

theorem checkSourceMacs_eq_ok {seen macs : List (Bytes 6)} (h : checkSourceMacs seen macs = .ok ()) :
    macs.Nodup ∧ ∀ mac ∈ macs, ¬ isBroadcast mac ∧ mac ∉ seen := by
  induction macs generalizing seen with
  | nil => exact ⟨List.nodup_nil, fun _ h => absurd h List.not_mem_nil⟩
  | cons mac macs ih =>
    simp only [checkSourceMacs, Outcome.ite_error_eq_ok, not_or] at h
    obtain ⟨hmac, h⟩ := h
    obtain ⟨hnodup, hall⟩ := ih h
    refine ⟨List.nodup_cons.mpr ⟨?_, hnodup⟩, ?_⟩
    · intro hmem
      exact (hall mac hmem).2 List.mem_cons_self
    · intro m hm
      rcases List.mem_cons.mp hm with rfl | hm
      · exact hmac
      · exact ⟨(hall m hm).1, fun hs => (hall m hm).2 (List.mem_cons_of_mem _ hs)⟩

theorem nodup_map_append {α κ : Type} {key : α → κ} {l : List α} {a : α} (hl : (l.map key).Nodup)
    (ha : key a ∉ l.map key) : ((l ++ [a]).map key).Nodup := by
  rw [List.map_append, List.nodup_append]
  refine ⟨hl, List.nodup_singleton _, ?_⟩
  rintro x hx y hy rfl
  exact ha (List.mem_singleton.mp hy ▸ hx)

/-- The interfaces accepted so far. -/
structure InterfaceTable where
  interfaces : List Interface
  ids_nodup : (interfaces.map Interface.descriptorId).Nodup
  names_nodup : (interfaces.map Interface.interfaceName).Nodup

def addInterface (allowlist : List String) (t : InterfaceTable) (raw : RawInterface) :
    Except ManifestError InterfaceTable :=
  if h : raw.descriptorId = 0 ∨ raw.interfaceName = "" ∨ raw.interfaceName ∉ allowlist ∨
      raw.descriptorId ∈ t.interfaces.map Interface.descriptorId ∨
      raw.interfaceName ∈ t.interfaces.map Interface.interfaceName ∨
      raw.allowedSourceMacs = [] then .error .invariant
  else
    have ⟨hid, hname, _, hids, hnames, hmacs⟩ : raw.descriptorId ≠ 0 ∧ raw.interfaceName ≠ "" ∧
        raw.interfaceName ∈ allowlist ∧
        raw.descriptorId ∉ t.interfaces.map Interface.descriptorId ∧
        raw.interfaceName ∉ t.interfaces.map Interface.interfaceName ∧
        raw.allowedSourceMacs ≠ [] := by simpa only [not_or, not_not] using h
    match hseen : checkSourceMacs [] raw.allowedSourceMacs with
    | .error e => .error e
    | .ok () =>
      let i : Interface := {
        descriptorId := raw.descriptorId
        interfaceName := raw.interfaceName
        allowedSourceMacs := raw.allowedSourceMacs
        localDelivery := raw.localDelivery
        transit := raw.transit
        descriptorId_ne := hid
        interfaceName_ne := hname
        macs_ne := hmacs
        macs_nodup := (checkSourceMacs_eq_ok hseen).1
        no_broadcast := fun mac hm => ((checkSourceMacs_eq_ok hseen).2 mac hm).1 }
      .ok ⟨t.interfaces ++ [i], nodup_map_append t.ids_nodup hids,
        nodup_map_append t.names_nodup hnames⟩

def addInterfaces (allowlist : List String) :
    InterfaceTable → List RawInterface → Except ManifestError InterfaceTable
  | t, [] => .ok t
  | t, raw :: raws => do
    let t ← addInterface allowlist t raw
    addInterfaces allowlist t raws

/-- The routes accepted so far, over the descriptors of the interfaces. -/
structure RouteTable (ids : List U32) where
  routes : List Route
  egress_known : ∀ r ∈ routes, r.egressDescriptorId ∈ ids
  routes_nodup : (routes.map fun r => (r.destinationNetwork, r.prefixLength)).Nodup

def addRoute {ids : List U32} (t : RouteTable ids) (raw : RawRoute) :
    Except ManifestError (RouteTable ids) :=
  let network := raw.destinationPrefix.network
  let length := raw.destinationPrefix.prefixLength
  if h : length = 0 ∨ 128 < length ∨ ¬ isCanonicalNetwork network length ∨
      raw.egressDescriptorId = 0 ∨ raw.egressDescriptorId ∉ ids ∨ isBroadcast raw.nextHopMac ∨
      (network, length) ∈ t.routes.map fun r => (r.destinationNetwork, r.prefixLength) then
    .error .invariant
  else
    have ⟨hpos, hle, hcanonical, hne, hknown, hbroadcast, hkey⟩ : length ≠ 0 ∧ length ≤ 128 ∧
        isCanonicalNetwork network length ∧ raw.egressDescriptorId ≠ 0 ∧
        raw.egressDescriptorId ∈ ids ∧ ¬ isBroadcast raw.nextHopMac ∧
        (network, length) ∉ t.routes.map fun r => (r.destinationNetwork, r.prefixLength) := by
      simpa only [not_or, not_not, not_lt] using h
    let r : Route := {
      destinationNetwork := network
      prefixLength := length
      egressDescriptorId := raw.egressDescriptorId
      nextHopMac := raw.nextHopMac
      prefix_pos := hpos
      prefix_le := hle
      canonical := hcanonical
      egress_ne := hne
      no_broadcast := hbroadcast }
    .ok ⟨t.routes ++ [r], by
      intro x hx
      rcases List.mem_append.mp hx with hx | hx
      · exact t.egress_known x hx
      · rw [List.mem_singleton.mp hx]
        exact hknown, nodup_map_append t.routes_nodup hkey⟩

def addRoutes {ids : List U32} :
    RouteTable ids → List RawRoute → Except ManifestError (RouteTable ids)
  | t, [] => .ok t
  | t, raw :: raws => do
    let t ← addRoute t raw
    addRoutes t raws

def validateManifest (raw : RawManifest) (allowlist : List String) :
    Except ManifestError NativeManifest := do
  let i ← addInterfaces allowlist ⟨[], List.nodup_nil, List.nodup_nil⟩ raw.interfaces
  if h : raw.localLocs.Nodup then
    let none : RouteTable (i.interfaces.map Interface.descriptorId) :=
      ⟨[], fun _ h => absurd h List.not_mem_nil, List.nodup_nil⟩
    let r ← addRoutes none raw.routes
    .ok {
      localLocs := raw.localLocs.mergeSort
      interfaces := i.interfaces
      routes := r.routes
      locs_nodup := (List.mergeSort_perm _ _).nodup_iff.mpr h
      ids_nodup := i.ids_nodup
      names_nodup := i.names_nodup
      egress_known := r.egress_known
      routes_nodup := r.routes_nodup }
  else .error .invariant

end R8.Forward
