import R8Protocol.Forward.Forwarder
import R8Protocol.Forward.Routing

/-! What the validation of a manifest accepts: the records of manifests, as they are. -/
namespace R8.Forward

open FixedWidth Wire

def Interface.raw (i : Interface) : RawInterface :=
  ⟨i.descriptorId, i.interfaceName, i.allowedSourceMacs, i.localDelivery, i.transit⟩

section

variable {allowlist : List String} {ids : List U32} {t t' : InterfaceTable} {rt rt' : RouteTable ids}

theorem checkSourceMacs_ok {seen macs : List (Bytes 6)} (hnodup : macs.Nodup)
    (hmacs : ∀ mac ∈ macs, ¬ isBroadcast mac ∧ mac ∉ seen) : checkSourceMacs seen macs = .ok () := by
  induction macs generalizing seen with
  | nil => rfl
  | cons mac macs ih =>
    obtain ⟨hmac, hmacs⟩ := List.forall_mem_cons.mp hmacs
    obtain ⟨hnew, hnodup⟩ := List.nodup_cons.mp hnodup
    rw [checkSourceMacs, if_neg (not_or.mpr hmac)]
    refine ih hnodup fun m hm => ⟨(hmacs m hm).1, ?_⟩
    rintro hseen
    rcases List.mem_cons.mp hseen with rfl | hseen
    · exact hnew hm
    · exact (hmacs m hm).2 hseen

theorem InterfaceTable.ext (h : t.interfaces = t'.interfaces) : t = t' := by
  cases t
  cases t'
  cases h
  rfl

theorem RouteTable.ext (h : rt.routes = rt'.routes) : rt = rt' := by
  cases rt
  cases rt'
  cases h
  rfl

theorem addInterface_iff {raw : RawInterface} : addInterface allowlist t raw = .ok t' ↔
    ∃ i : Interface, raw = i.raw ∧ i.interfaceName ∈ allowlist ∧
      t'.interfaces = t.interfaces ++ [i] := by
  constructor
  · intro h
    simp only [addInterface, Outcome.dite_error_eq_ok] at h
    obtain ⟨hno, h⟩ := h
    split at h
    split at h
    · cases h
    · cases h
      exact ⟨_, rfl, ‹_›, rfl⟩
  · rintro ⟨i, rfl, hallowed, happend⟩
    have hids : (t.interfaces ++ [i]).map Interface.descriptorId |>.Nodup := happend ▸ t'.ids_nodup
    have hnames : (t.interfaces ++ [i]).map Interface.interfaceName |>.Nodup :=
      happend ▸ t'.names_nodup
    rw [List.map_append, List.map_singleton] at hids hnames
    have hid := List.disjoint_of_nodup_append hids
    have hname := List.disjoint_of_nodup_append hnames
    have hno : ¬ (i.descriptorId = 0 ∨ i.interfaceName = "" ∨ i.interfaceName ∉ allowlist ∨
        i.descriptorId ∈ t.interfaces.map Interface.descriptorId ∨
        i.interfaceName ∈ t.interfaces.map Interface.interfaceName ∨ i.allowedSourceMacs = []) := by
      simp only [not_or, not_not]
      exact ⟨i.descriptorId_ne, i.interfaceName_ne, hallowed,
        fun hmem => hid hmem (List.mem_singleton.mpr rfl),
        fun hmem => hname hmem (List.mem_singleton.mpr rfl), i.macs_ne⟩
    have hmacs : checkSourceMacs [] i.raw.allowedSourceMacs = .ok () :=
      checkSourceMacs_ok i.macs_nodup fun mac hmac => ⟨i.no_broadcast mac hmac, List.not_mem_nil⟩
    unfold addInterface
    rw [dif_neg]
    · split
      split
      · rename_i hseen
        rw [hmacs] at hseen
        cases hseen
      · exact congrArg Except.ok (InterfaceTable.ext happend.symm)
    · exact hno

theorem addInterfaces_iff {raws : List RawInterface} :
    addInterfaces allowlist t raws = .ok t' ↔ ∃ is : List Interface, raws = is.map Interface.raw ∧
      (∀ i ∈ is, i.interfaceName ∈ allowlist) ∧ t'.interfaces = t.interfaces ++ is := by
  induction raws generalizing t with
  | nil =>
    constructor
    · intro h
      cases h
      exact ⟨[], rfl, by simp, (List.append_nil _).symm⟩
    · rintro ⟨is, hraws, -, happend⟩
      obtain rfl := List.map_eq_nil_iff.mp hraws.symm
      rw [List.append_nil] at happend
      exact congrArg Except.ok (InterfaceTable.ext happend.symm)
  | cons raw raws ih =>
    rw [addInterfaces, Outcome.bind_eq_ok]
    constructor
    · rintro ⟨t₁, hfirst, hrest⟩
      obtain ⟨i, rfl, hallowed, happend⟩ := addInterface_iff.mp hfirst
      obtain ⟨is, rfl, hall, happend'⟩ := ih.mp hrest
      refine ⟨i :: is, rfl, List.forall_mem_cons.mpr ⟨hallowed, hall⟩, ?_⟩
      rw [happend', happend, List.append_assoc, List.singleton_append]
    · rintro ⟨is, hraws, hall, happend⟩
      cases is with
      | nil => cases hraws
      | cons i is =>
        obtain ⟨rfl, rfl⟩ := List.cons.inj hraws
        obtain ⟨hallowed, hall⟩ := List.forall_mem_cons.mp hall
        have hsplit : t'.interfaces = (t.interfaces ++ [i]) ++ is := by
          rw [happend, List.append_assoc, List.singleton_append]
        have hsub : (t.interfaces ++ [i]).Sublist t'.interfaces :=
          hsplit ▸ List.sublist_append_left _ _
        exact ⟨⟨t.interfaces ++ [i], t'.ids_nodup.sublist (hsub.map _),
          t'.names_nodup.sublist (hsub.map _)⟩, addInterface_iff.mpr ⟨i, rfl, hallowed, rfl⟩,
          ih.mpr ⟨is, rfl, hall, hsplit⟩⟩

theorem Route.admissible (r : Route) (hknown : r.egressDescriptorId ∈ ids) :
    r.raw.Admissible ids := by
  rintro (h | h | h | h | h | h)
  · exact r.prefix_pos h
  · exact absurd h (not_lt.mpr r.prefix_le)
  · exact h r.canonical
  · exact r.egress_ne h
  · exact h hknown
  · exact r.no_broadcast h

theorem addRoutes_iff {raws : List RawRoute} : addRoutes rt raws = .ok rt' ↔
    ∃ rs : List Route, raws = rs.map Route.raw ∧ rt'.routes = rt.routes ++ rs := by
  have hadded : ∀ {t : RouteTable ids}, addRoutes rt raws = .ok t →
      ∃ rs : List Route, raws = rs.map Route.raw ∧ t.routes = rt.routes ++ rs := by
    intro t h
    obtain ⟨old, rs, happend, hold, hraws⟩ := List.map_eq_append_iff.mp (addRoutes_eq_ok h).2
    obtain rfl := List.map_injective_iff.mpr Route.raw_injective hold
    exact ⟨rs, hraws.symm, happend⟩
  refine ⟨hadded, ?_⟩
  rintro ⟨rs, rfl, happend⟩
  have hadmissible : ∀ raw ∈ rs.map Route.raw, raw.Admissible ids := by
    intro raw hraw
    obtain ⟨r, hr, rfl⟩ := List.mem_map.mp hraw
    exact r.admissible (rt'.egress_known r (happend ▸ List.mem_append_right _ hr))
  have hkeys : ((rt.routes.map Route.raw ++ rs.map Route.raw).map RawRoute.key).Nodup := by
    rw [← List.map_append, ← happend, ← keys_eq]
    exact rt'.routes_nodup
  obtain ⟨t, ht⟩ := addRoutes_ok hadmissible hkeys
  obtain ⟨rs', hraws, happend'⟩ := hadded ht
  obtain rfl := List.map_injective_iff.mpr Route.raw_injective hraws
  rw [ht, RouteTable.ext (happend'.trans happend.symm)]

end

theorem NativeManifest.ext {m m' : NativeManifest} (hlocs : m.localLocs = m'.localLocs)
    (hinterfaces : m.interfaces = m'.interfaces) (hroutes : m.routes = m'.routes) : m = m' := by
  cases m
  cases m'
  cases hlocs
  cases hinterfaces
  cases hroutes
  rfl

section

variable {raw : RawManifest} {allowlist : List String} {m : NativeManifest}

theorem validateManifest_records (h : validateManifest raw allowlist = .ok m) :
    raw.interfaces = m.interfaces.map Interface.raw ∧ raw.routes = m.routes.map Route.raw ∧
      m.localLocs = raw.localLocs.mergeSort ∧
      ∀ i ∈ m.interfaces, i.interfaceName ∈ allowlist := by
  rw [validateManifest, Outcome.bind_eq_ok] at h
  obtain ⟨t, hinterfaces, h⟩ := h
  obtain ⟨is, his, hallowed, happend⟩ := addInterfaces_iff.mp hinterfaces
  rw [List.nil_append] at happend
  subst happend
  split at h
  · obtain ⟨rt, hroutes, h⟩ := Outcome.bind_eq_ok.mp h
    obtain ⟨rs, hrs, happend'⟩ := addRoutes_iff.mp hroutes
    rw [List.nil_append] at happend'
    subst happend'
    cases h
    exact ⟨his, hrs, rfl, hallowed⟩
  · cases h

theorem validateManifest_ok (hinterfaces : raw.interfaces = m.interfaces.map Interface.raw)
    (hroutes : raw.routes = m.routes.map Route.raw)
    (hlocs : m.localLocs = raw.localLocs.mergeSort)
    (hallowed : ∀ i ∈ m.interfaces, i.interfaceName ∈ allowlist) :
    validateManifest raw allowlist = .ok m := by
  have hnodup : raw.localLocs.Nodup := by
    rw [← (List.mergeSort_perm raw.localLocs _).nodup_iff, ← hlocs]
    exact m.locs_nodup
  rw [validateManifest, Outcome.bind_eq_ok]
  refine ⟨⟨m.interfaces, m.ids_nodup, m.names_nodup⟩,
    addInterfaces_iff.mpr ⟨m.interfaces, hinterfaces, hallowed, rfl⟩, ?_⟩
  rw [dif_pos hnodup, Outcome.bind_eq_ok]
  refine ⟨⟨m.routes, m.egress_known, m.routes_nodup⟩,
    addRoutes_iff.mpr ⟨m.routes, hroutes, rfl⟩, ?_⟩
  exact congrArg Except.ok (NativeManifest.ext hlocs.symm rfl rfl)

/-- The validation accepts the records of a manifest whose interfaces are allowed, makes that
manifest of them, and accepts nothing else. -/
theorem validateManifest_iff (raw : RawManifest) (allowlist : List String) (m : NativeManifest) :
    validateManifest raw allowlist = .ok m ↔
      raw.interfaces = m.interfaces.map Interface.raw ∧ raw.routes = m.routes.map Route.raw ∧
        m.localLocs = raw.localLocs.mergeSort ∧
        ∀ i ∈ m.interfaces, i.interfaceName ∈ allowlist :=
  ⟨validateManifest_records, fun ⟨hinterfaces, hroutes, hlocs, hallowed⟩ =>
    validateManifest_ok hinterfaces hroutes hlocs hallowed⟩

end

section

variable {manifest : NativeManifest} {values : List (U32 × ℕ)} {t t' : DescriptorBudgets.Table}

theorem DescriptorBudgets.Table.ext (h : t.values = t'.values) : t = t' := by
  cases t
  cases t'
  cases h
  rfl

end

end R8.Forward
