import R8Protocol.Forward.Manifest
import R8Protocol.Lib.BitPrefix

/-! Routes are chosen by the longest prefix of bits, whatever order the manifest lists them in. -/
namespace R8.Forward

open FixedWidth Wire BitPrefix

/-- The shifts, the subtraction and the slices of the source, which panic out of their range. -/
def shl? (a : Byte) (n : ℕ) : Option Byte := if n < 8 then some (Fin.ofNat 256 (a.val <<< n)) else none

def shr? (a : Byte) (n : ℕ) : Option Byte := if n < 8 then some (Fin.ofNat 256 (a.val >>> n)) else none

def checkedSub? (a b : Byte) : Option Byte := if b ≤ a then some (a - b) else none

def sliceFrom? (l : List Byte) (i : ℕ) : Option (List Byte) :=
  if i ≤ l.length then some (l.drop i) else none

def sliceTo? (l : List Byte) (i : ℕ) : Option (List Byte) :=
  if i ≤ l.length then some (l.take i) else none

/-- `is_canonical_network` with every panic of its operators. -/
def isCanonicalNetwork? (network : Loc) (prefixLength : Byte) : Option Bool := do
  let fullBytes := prefixLength.val / 8
  let remainingBits := prefixLength.val % 8
  let partly ← if remainingBits ≠ 0 then do
      let byte ← network.val[fullBytes]?
      let mask ← checkedSub? (← shl? 1 (8 - remainingBits)) 1
      some (decide (byte.val &&& mask.val ≠ 0))
    else some false
  if partly then some false
  else do
    let rest ← sliceFrom? network.val (fullBytes + if remainingBits ≠ 0 then 1 else 0)
    some (rest.all (· = 0))

/-- `prefix_matches` with every panic of its operators. -/
def prefixMatches? (network loc : Loc) (prefixLength : Byte) : Option Bool := do
  let fullBytes := prefixLength.val / 8
  if (← sliceTo? network.val fullBytes) ≠ (← sliceTo? loc.val fullBytes) then some false
  else do
    let remainingBits := prefixLength.val % 8
    if remainingBits = 0 then some true
    else do
      let left ← shr? (← network.val[fullBytes]?) (8 - remainingBits)
      let right ← shr? (← loc.val[fullBytes]?) (8 - remainingBits)
      some (decide (left = right))

section

variable {network loc : Loc} {n : Byte}

theorem getElem?_byteAt {l : List Byte} {i : ℕ} (hi : i < l.length) : l[i]? = some (byteAt l i) := by
  rw [List.getElem?_eq_getElem hi, byteAt_eq_getElem hi]

theorem mask_eq {r : ℕ} (hr : r ≠ 0) (hr8 : r < 8) : ∃ bit mask,
    shl? 1 (8 - r) = some bit ∧ checkedSub? bit 1 = some mask ∧ mask.val = 2 ^ (8 - r) - 1 := by
  interval_cases r
  · exact absurd rfl hr
  all_goals exact ⟨_, _, rfl, rfl, rfl⟩

theorem shr?_eq {r : ℕ} (hr : r ≠ 0) (a : Byte) :
    ∃ b, shr? a (8 - r) = some b ∧ b.val = a.val >>> (8 - r) := by
  refine ⟨_, if_pos (by omega), ?_⟩
  have hle : a.val >>> (8 - r) ≤ a.val := by
    rw [Nat.shiftRight_eq_div_pow]
    exact Nat.div_le_self _ _
  rw [Fin.val_ofNat, Nat.mod_eq_of_lt (hle.trans_lt a.isLt)]

/-- No index and no shift leaves its range for a prefix of at most 128 bits. -/
theorem isCanonicalNetwork?_eq (hn : n ≤ 128) :
    isCanonicalNetwork? network n = some (isCanonicalNetwork network n) := by
  have hn : n.val ≤ 128 := hn
  have hlen := network.property
  by_cases hr : n.val % 8 = 0
  · have hslice : n.val / 8 ≤ network.val.length := by omega
    have hrest : sliceFrom? network.val (n.val / 8) = some (network.val.drop (n.val / 8)) :=
      if_pos hslice
    simp [isCanonicalNetwork?, isCanonicalNetwork, hr, hrest]
  · obtain ⟨bit, mask, hbit, hmask, hval⟩ := mask_eq hr (Nat.mod_lt _ (by omega))
    have hindex : n.val / 8 < network.val.length := by omega
    have hslice : n.val / 8 + 1 ≤ network.val.length := by omega
    simp only [isCanonicalNetwork?, isCanonicalNetwork, ne_eq, hr, not_false_eq_true, if_true,
      true_and, getElem?_byteAt hindex, hbit, hmask, hval, sliceFrom?, hslice, Option.bind_eq_bind,
      Option.bind_some, decide_eq_true_eq]
    split <;> rfl

theorem prefixMatches?_eq (hn : n ≤ 128) :
    prefixMatches? network loc n = some (prefixMatches network loc n) := by
  have hn : n.val ≤ 128 := hn
  have hlen := network.property
  have hlen' := loc.property
  have hslice : n.val / 8 ≤ network.val.length := by omega
  have hslice' : n.val / 8 ≤ loc.val.length := by omega
  simp only [prefixMatches?, prefixMatches, sliceTo?, hslice, hslice', if_true, ne_eq,
    Option.bind_eq_bind, Option.bind_some]
  split
  · rfl
  · by_cases hr : n.val % 8 = 0
    · simp [hr]
    · have hindex : n.val / 8 < network.val.length := by omega
      have hindex' : n.val / 8 < loc.val.length := by omega
      obtain ⟨left, hleft, hval⟩ := shr?_eq hr (byteAt network.val (n.val / 8))
      obtain ⟨right, hright, hval'⟩ := shr?_eq hr (byteAt loc.val (n.val / 8))
      simp only [hr, if_false, getElem?_byteAt hindex, getElem?_byteAt hindex', hleft, hright,
        Option.bind_some, false_or, Fin.ext_iff, hval, hval']

/-- The first `n` bits of a network and a location are the same. -/
theorem prefixMatches_iff (hn : n ≤ 128) :
    prefixMatches network loc n = true ↔ Agree n.val network.val loc.val := by
  have hn : n.val ≤ 128 := hn
  have hlen := network.property
  have hlen' := loc.property
  have hsplit : n.val = 8 * (n.val / 8) + n.val % 8 := by omega
  rw [hsplit, agree_add_iff (by omega), agree_bytes_iff (by omega) (by omega)]
  unfold prefixMatches
  dsimp only
  by_cases htake : network.val.take (n.val / 8) = loc.val.take (n.val / 8)
  · by_cases hr : n.val % 8 = 0
    · have hzero : ∀ b : Byte, b.val >>> 8 = 0 := fun b =>
        Nat.shiftRight_eq_zero _ _ b.isLt
      simp [htake, hr, hzero]
    · simp [htake, hr]
  · simp [htake]

/-- A network is canonical when no bit is set after its prefix. -/
theorem isCanonicalNetwork_iff :
    isCanonicalNetwork network n = true ↔ ClearFrom n.val network.val := by
  have hsplit : n.val = 8 * (n.val / 8) + n.val % 8 := by omega
  unfold isCanonicalNetwork
  dsimp only
  by_cases hr : n.val % 8 = 0
  · have hwhole : n.val = 8 * (n.val / 8) := by omega
    rw [hwhole, clearFrom_bytes_iff, ← hwhole]
    simp [hr]
  · rw [hsplit, clearFrom_add_iff (by omega), clearFrom_bytes_iff, ← hsplit]
    simp [hr]

end

section

variable {α : Type*} {key : α → ℕ} {l : List α}

theorem maxByKey_eq_none : maxByKey key l = none ↔ l = [] := by
  refine ⟨?_, ?_⟩
  · intro h
    cases l using List.reverseRecOn with
    | nil => rfl
    | append_singleton l a =>
      rw [maxByKey_append] at h
      split at h
      · cases h
      · split at h <;> cases h
  · rintro rfl
    rfl

end

/-- The route covers a location: its network and the location begin with the same bits. -/
def Route.Covers (r : Route) (loc : Loc) : Prop :=
  Agree r.prefixLength.val r.destinationNetwork.val loc.val

theorem Route.matchesLoc_iff {r : Route} {loc : Loc} : r.matchesLoc loc = true ↔ r.Covers loc :=
  prefixMatches_iff r.prefix_le

/-- Two prefixes of one length that cover a location are the same network. -/
theorem Route.network_eq {r r' : Route} {loc : Loc} (h : r.Covers loc) (h' : r'.Covers loc)
    (hlength : r.prefixLength = r'.prefixLength) : r.destinationNetwork = r'.destinationNetwork := by
  have hc := isCanonicalNetwork_iff.mp r.canonical
  have hc' := isCanonicalNetwork_iff.mp r'.canonical
  unfold Route.Covers at h
  rw [hlength] at h hc
  refine Subtype.ext (eq_of_agree (h.trans h'.symm) ?_ hc hc')
  rw [r.destinationNetwork.property, r'.destinationNetwork.property]

/-- The route as the manifest spells it. -/
def Route.raw (r : Route) : RawRoute :=
  ⟨⟨r.destinationNetwork, r.prefixLength⟩, r.egressDescriptorId, r.nextHopMac⟩

theorem Route.raw_injective : Function.Injective Route.raw := by
  rintro ⟨⟩ ⟨⟩ h
  simpa [Route.raw, and_assoc] using h

/-- What a route of the manifest must meet on its own. -/
def RawRoute.Admissible (ids : List U32) (raw : RawRoute) : Prop :=
  ¬ (raw.destinationPrefix.prefixLength = 0 ∨ 128 < raw.destinationPrefix.prefixLength ∨
    ¬ isCanonicalNetwork raw.destinationPrefix.network raw.destinationPrefix.prefixLength ∨
    raw.egressDescriptorId = 0 ∨ raw.egressDescriptorId ∉ ids ∨ isBroadcast raw.nextHopMac)

def RawRoute.key (raw : RawRoute) : Loc × Byte :=
  (raw.destinationPrefix.network, raw.destinationPrefix.prefixLength)

section

variable {ids : List U32} {t t' : RouteTable ids} {raw : RawRoute} {raws : List RawRoute}

theorem addRoute_eq_ok (h : addRoute t raw = .ok t') :
    raw.Admissible ids ∧ raw.key ∉ t.routes.map (fun r => r.raw.key) ∧
      t'.routes.map Route.raw = t.routes.map Route.raw ++ [raw] := by
  unfold addRoute at h
  dsimp only at h
  split at h
  · cases h
  · rename_i hguard
    split at h
    obtain rfl := Except.ok.inj h
    push Not at hguard
    obtain ⟨hpos, hle, hcanonical, hne, hknown, hbroadcast, hkey⟩ := hguard
    refine ⟨?_, hkey, ?_⟩
    · rintro (h | h | h | h | h | h)
      · exact hpos h
      · exact absurd h (not_lt.mpr hle)
      · exact h hcanonical
      · exact hne h
      · exact h hknown
      · exact hbroadcast h
    · rw [List.map_append]
      rfl

theorem addRoute_ok (ha : raw.Admissible ids) (hk : raw.key ∉ t.routes.map fun r => r.raw.key) :
    ∃ t', addRoute t raw = .ok t' := by
  unfold RawRoute.Admissible at ha
  push Not at ha
  obtain ⟨hpos, hle, hcanonical, hne, hknown, hbroadcast⟩ := ha
  unfold addRoute
  dsimp only
  rw [dif_neg]
  · split
    exact ⟨_, rfl⟩
  · rintro (h | h | h | h | h | h | h)
    · exact hpos h
    · exact absurd h (not_lt.mpr hle)
    · exact h hcanonical
    · exact hne h
    · exact h hknown
    · exact hbroadcast h
    · exact hk h

theorem addRoutes_eq_ok (h : addRoutes t raws = .ok t') :
    (∀ raw ∈ raws, raw.Admissible ids) ∧ t'.routes.map Route.raw = t.routes.map Route.raw ++ raws := by
  induction raws generalizing t with
  | nil =>
    obtain rfl := Except.ok.inj h
    simp
  | cons raw raws ih =>
    obtain ⟨t₁, h₁, h⟩ := Outcome.bind_eq_ok.mp h
    obtain ⟨ha, -, hmap⟩ := addRoute_eq_ok h₁
    obtain ⟨hall, hrest⟩ := ih h
    refine ⟨?_, ?_⟩
    · intro x hx
      rcases List.mem_cons.mp hx with rfl | hx
      · exact ha
      · exact hall x hx
    · rw [hrest, hmap, List.append_assoc, List.singleton_append]

theorem keys_eq (t : RouteTable ids) : (t.routes.map fun r => r.raw.key) =
    (t.routes.map Route.raw).map RawRoute.key := by
  rw [List.map_map]
  rfl

theorem addRoutes_ok (ha : ∀ raw ∈ raws, raw.Admissible ids)
    (hk : ((t.routes.map Route.raw ++ raws).map RawRoute.key).Nodup) :
    ∃ t', addRoutes t raws = .ok t' := by
  induction raws generalizing t with
  | nil => exact ⟨t, rfl⟩
  | cons raw raws ih =>
    have hfresh : raw.key ∉ t.routes.map fun r => r.raw.key := by
      rw [keys_eq]
      rw [List.map_append, List.nodup_append] at hk
      intro hmem
      exact hk.2.2 _ hmem _ (List.mem_map_of_mem List.mem_cons_self) rfl
    obtain ⟨t₁, h₁⟩ := addRoute_ok (t := t) (ha raw List.mem_cons_self) hfresh
    have hmap := (addRoute_eq_ok h₁).2.2
    obtain ⟨t', h'⟩ := ih (t := t₁) (fun x hx => ha x (List.mem_cons_of_mem _ hx)) (by
      rwa [hmap, List.append_assoc, List.singleton_append])
    exact ⟨t', by simp [addRoutes, h₁, h', bind, Except.bind]⟩

end

section

variable {m m' : NativeManifest} {loc : Loc} {r : Route} {raw : RawManifest}
  {allowlist : List String}

theorem routes_inj {r r' : Route} (hr : r ∈ m.routes) (hr' : r' ∈ m.routes)
    (hnetwork : r.destinationNetwork = r'.destinationNetwork)
    (hlength : r.prefixLength = r'.prefixLength) : r = r' :=
  List.inj_on_of_nodup_map m.routes_nodup hr hr' (Prod.ext hnetwork hlength)

/-- The chosen route is the one that covers the location and has the greatest prefix length. -/
theorem routeFor_eq_some_iff : m.routeFor loc = some r ↔
    (r ∈ m.routes ∧ r.Covers loc) ∧
      ∀ r' ∈ m.routes, r'.Covers loc → r' ≠ r → r'.prefixLength < r.prefixLength := by
  have hlongest : ∀ {r : Route}, m.routeFor loc = some r → (r ∈ m.routes ∧ r.Covers loc) ∧
      ∀ r' ∈ m.routes, r'.Covers loc → r' ≠ r → r'.prefixLength < r.prefixLength := by
    intro r h
    obtain ⟨hr, hmatch, hmax⟩ := NativeManifest.routeFor_eq_some h
    have hcovers := Route.matchesLoc_iff.mp hmatch
    refine ⟨⟨hr, hcovers⟩, ?_⟩
    intro r' hr' hcovers' hne
    refine lt_of_le_of_ne (hmax r' hr' (Route.matchesLoc_iff.mpr hcovers')) ?_
    intro hlength
    exact hne (routes_inj hr' hr (Route.network_eq hcovers' hcovers hlength) hlength)
  refine ⟨hlongest, ?_⟩
  rintro ⟨⟨hr, hcovers⟩, hmax⟩
  have hmem : r ∈ m.routes.filter fun r => r.matchesLoc loc :=
    List.mem_filter.mpr ⟨hr, Route.matchesLoc_iff.mpr hcovers⟩
  cases hfor : m.routeFor loc with
  | none =>
    rw [maxByKey_eq_none.mp hfor] at hmem
    cases hmem
  | some r' =>
    obtain ⟨⟨hr', hcovers'⟩, hmax'⟩ := hlongest hfor
    by_contra hne
    have hne : r' ≠ r := fun h => hne (congrArg some h)
    exact absurd (hmax r' hr' hcovers' hne) (hmax' r hr hcovers hne.symm).asymm

theorem routeFor_eq_none_iff : m.routeFor loc = none ↔ ∀ r ∈ m.routes, ¬ r.Covers loc := by
  unfold NativeManifest.routeFor
  rw [maxByKey_eq_none, List.filter_eq_nil_iff]
  refine forall₂_congr fun r _ => ?_
  rw [Route.matchesLoc_iff]

/-- Only which routes there are matters. -/
theorem routeFor_congr (h : ∀ r, r ∈ m.routes ↔ r ∈ m'.routes) :
    m.routeFor loc = m'.routeFor loc := by
  apply Option.ext
  intro r
  rw [routeFor_eq_some_iff, routeFor_eq_some_iff]
  simp only [h]

theorem validateManifest_eq_ok (h : validateManifest raw allowlist = .ok m) :
    ∃ i, addInterfaces allowlist ⟨[], List.nodup_nil, List.nodup_nil⟩ raw.interfaces = .ok i ∧
      raw.localLocs.Nodup ∧
      (∀ r ∈ raw.routes, r.Admissible (i.interfaces.map Interface.descriptorId)) ∧
      m.routes.map Route.raw = raw.routes := by
  obtain ⟨i, hi, h⟩ := Outcome.bind_eq_ok.mp h
  split at h
  · rename_i hlocs
    obtain ⟨t, ht, h⟩ := Outcome.bind_eq_ok.mp h
    obtain rfl := Except.ok.inj h
    obtain ⟨hall, hmap⟩ := addRoutes_eq_ok ht
    exact ⟨i, hi, hlocs, hall, by simpa using hmap⟩
  · cases h

/-- A manifest with its routes in another order is accepted as well, with the same routes. -/
theorem validateManifest_perm (h : validateManifest raw allowlist = .ok m) {routes : List RawRoute}
    (hp : routes.Perm raw.routes) : ∃ m', validateManifest { raw with routes } allowlist = .ok m' ∧
      ∀ r, r ∈ m'.routes ↔ r ∈ m.routes := by
  obtain ⟨i, hi, hlocs, hall, hmap⟩ := validateManifest_eq_ok h
  have hkeys : (routes.map RawRoute.key).Nodup := by
    refine (hp.map RawRoute.key).nodup_iff.mpr ?_
    rw [← hmap, List.map_map]
    exact m.routes_nodup
  obtain ⟨t, ht⟩ := addRoutes_ok (t := ⟨[], fun _ h => absurd h List.not_mem_nil, List.nodup_nil⟩)
    (fun r hr => hall r (hp.mem_iff.mp hr)) (by simpa using hkeys)
  obtain ⟨m', hm'⟩ : ∃ m', validateManifest { raw with routes } allowlist = .ok m' := by
    simp only [validateManifest, hi, hlocs, ht, bind, Except.bind, dif_pos]
    exact ⟨_, rfl⟩
  obtain ⟨-, -, -, -, hmap''⟩ := validateManifest_eq_ok hm'
  refine ⟨m', hm', ?_⟩
  · intro r
    have hmem : ∀ l : List Route, r ∈ l ↔ r.raw ∈ l.map Route.raw := fun l =>
      (List.mem_map_of_injective Route.raw_injective).symm
    rw [hmem, hmem m.routes, hmap, ← hp.mem_iff, hmap'']

/-- For every manifest that is accepted and every location the route with the longest prefix is
found, if any covers the location. It is the only one of its length, so the order of the routes does
not matter, and none of the byte operations behind it panics. -/
theorem longest_prefix_routing (h : validateManifest raw allowlist = .ok m) (loc : Loc) :
    m.routes.map Route.raw = raw.routes ∧
    (∀ r, m.routeFor loc = some r ↔ (r ∈ m.routes ∧ r.Covers loc) ∧
      ∀ r' ∈ m.routes, r'.Covers loc → r' ≠ r → r'.prefixLength < r.prefixLength) ∧
    (m.routeFor loc = none ↔ ∀ r ∈ m.routes, ¬ r.Covers loc) ∧
    (∀ routes : List RawRoute, routes.Perm raw.routes →
      ∃ m', validateManifest { raw with routes } allowlist = .ok m' ∧
        m'.routeFor loc = m.routeFor loc) ∧
    ∀ (network : Loc) (n : Byte), 1 ≤ n → n ≤ 128 →
      isCanonicalNetwork? network n = some (isCanonicalNetwork network n) ∧
      prefixMatches? network loc n = some (prefixMatches network loc n) ∧
      (isCanonicalNetwork network n = true ↔ ClearFrom n.val network.val) := by
  obtain ⟨-, -, -, -, hmap⟩ := validateManifest_eq_ok h
  refine ⟨hmap, fun _ => routeFor_eq_some_iff, routeFor_eq_none_iff, ?_, ?_⟩
  · intro routes hp
    obtain ⟨m', hm', hroutes⟩ := validateManifest_perm h hp
    exact ⟨m', hm', routeFor_congr hroutes⟩
  · intro network n _ hn
    exact ⟨isCanonicalNetwork?_eq hn, prefixMatches?_eq hn, isCanonicalNetwork_iff⟩

end

theorem addInterface_ok {allowlist : List String} {t : InterfaceTable} {raw : RawInterface}
    (hguard : ¬ (raw.descriptorId = 0 ∨ raw.interfaceName = "" ∨ raw.interfaceName ∉ allowlist ∨
      raw.descriptorId ∈ t.interfaces.map Interface.descriptorId ∨
      raw.interfaceName ∈ t.interfaces.map Interface.interfaceName ∨ raw.allowedSourceMacs = []))
    (hmacs : checkSourceMacs [] raw.allowedSourceMacs = .ok ()) :
    ∃ t', addInterface allowlist t raw = .ok t' ∧ t'.interfaces.map Interface.descriptorId =
      t.interfaces.map Interface.descriptorId ++ [raw.descriptorId] := by
  unfold addInterface
  rw [dif_neg hguard]
  split
  split
  · rename_i hseen
    simp [hmacs] at hseen
  · exact ⟨_, rfl, by simp⟩

/-- A route within another one, with a prefix that ends inside a byte. -/
def Sample.nested : RawManifest where
  localLocs := []
  interfaces := [⟨7, "lab0", [bytesOf 6 1], false, true⟩]
  routes := [⟨⟨⟨[32, 1, 13, 184, 1, 8] ++ List.replicate 10 0, rfl⟩, 45⟩, 7, bytesOf 6 4⟩,
    ⟨⟨⟨[32, 1, 13, 184] ++ List.replicate 12 0, rfl⟩, 32⟩, 7, bytesOf 6 3⟩]

def Sample.inside : Loc := ⟨[32, 1, 13, 184, 1, 9] ++ List.replicate 10 0, rfl⟩

theorem Sample.nested_valid : ∃ m, validateManifest Sample.nested ["lab0"] = .ok m := by
  let none : InterfaceTable := ⟨[], List.nodup_nil, List.nodup_nil⟩
  let lab : RawInterface := ⟨7, "lab0", [bytesOf 6 1], false, true⟩
  obtain ⟨i, hi, hids⟩ : ∃ i, addInterface ["lab0"] none lab = .ok i ∧
      i.interfaces.map Interface.descriptorId = [] ++ [7] := addInterface_ok (by simp [none, lab]) rfl
  have hadmissible : ∀ raw ∈ Sample.nested.routes,
      raw.Admissible (i.interfaces.map Interface.descriptorId) := by
    rw [hids]
    intro raw hraw
    simp only [Sample.nested, List.mem_cons, List.not_mem_nil, or_false] at hraw
    unfold RawRoute.Admissible
    rcases hraw with rfl | rfl <;> decide
  have hkeys : (Sample.nested.routes.map RawRoute.key).Nodup := by decide
  obtain ⟨t, ht⟩ := addRoutes_ok (t := ⟨[], fun _ h => absurd h List.not_mem_nil, List.nodup_nil⟩) hadmissible hkeys
  have hlocs : Sample.nested.localLocs.Nodup := List.nodup_nil
  have hall : addInterfaces ["lab0"] ⟨[], List.nodup_nil, List.nodup_nil⟩
      Sample.nested.interfaces = .ok i := by
    simp only [Sample.nested, addInterfaces, bind, Except.bind]
    rw [hi]
  simp only [validateManifest, hall, hlocs, ht, bind, Except.bind, dif_pos]
  exact ⟨_, rfl⟩

theorem longest_prefix_routing_nested : ∃ m m' r,
    validateManifest Sample.nested ["lab0"] = .ok m ∧
    validateManifest { Sample.nested with routes := Sample.nested.routes.reverse } ["lab0"] =
      .ok m' ∧
    m'.routeFor Sample.inside = some r ∧ r.nextHopMac = bytesOf 6 4 := by
  obtain ⟨m, hm⟩ := Sample.nested_valid
  obtain ⟨hmap, hsome, -, horder, -⟩ := longest_prefix_routing hm Sample.inside
  obtain ⟨m', hm', hsame⟩ := horder _ (List.reverse_perm _)
  obtain ⟨r, rs, hroutes, hr, hrs⟩ := List.map_eq_cons_iff.mp hmap
  obtain ⟨r', rs', rfl, hr', hrs'⟩ := List.map_eq_cons_iff.mp hrs
  obtain rfl := List.map_eq_nil_iff.mp hrs'
  simp only [Route.raw, RawRoute.mk.injEq, RawPrefix.mk.injEq] at hr hr'
  obtain ⟨⟨hnetwork, hlength⟩, -, hmac⟩ := hr
  have hcovers : r.Covers Sample.inside := by
    rw [← Route.matchesLoc_iff, Route.matchesLoc, hnetwork, hlength]
    decide
  refine ⟨m, m', r, hm, hm', hsame.trans ((hsome r).mpr ⟨⟨?_, hcovers⟩, ?_⟩), hmac⟩
  · rw [hroutes]
    exact List.mem_cons_self
  · intro x hx _ hne
    rw [hroutes, List.mem_cons, List.mem_singleton] at hx
    rw [hx.resolve_left hne, hlength, hr'.1.2]
    decide

end R8.Forward
