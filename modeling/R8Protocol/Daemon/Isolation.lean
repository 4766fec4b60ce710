import R8Protocol.Daemon.Routes
import R8Protocol.Lib.Lists
import R8Protocol.Lib.Outcome

/-! The check that a network namespace is isolated, over what the kernel reports of it. -/
namespace R8.Daemon

open FixedWidth

abbrev Name := List Char

def loopbackName : Name := "lo".toList

inductive LinuxError
  | namespaceError | network | defaultRouteV4 | interface | address
  deriving DecidableEq, Repr

/-- The name field of a record of `getifaddrs`: a pointer to bytes that may be no text. -/
inductive IfaName
  | null | notUtf8 | text (name : Name)
  deriving DecidableEq, Repr

inductive SockAddr
  | inet | inet6 (address : Bytes 16) | other
  deriving DecidableEq, Repr

structure IfAddr where
  name : IfaName
  flags : U32
  addr : Option SockAddr
  deriving DecidableEq, Repr

def IFF_UP : U32 := 1

def IFF_LOOPBACK : U32 := 8

structure InterfaceAddress where
  name : Name
  loopback : Bool
  up : Bool
  ipv4 : Bool
  globalIpv6 : Bool
  deriving DecidableEq, Repr

def isNonGlobalIpv6 (address : Bytes 16) : Bool :=
  address.val = List.replicate 16 0 ∨ address.val = List.replicate 15 0 ++ [1] ∨
    (byteAt address.val 0 = 0xfe ∧ byteAt address.val 1 &&& 0xc0 = 0x80)

namespace IfAddr

def loopback (r : IfAddr) : Bool := r.flags &&& IFF_LOOPBACK ≠ 0

def up (r : IfAddr) : Bool := r.flags &&& IFF_UP ≠ 0

def ipv4 (r : IfAddr) : Bool := r.addr = some .inet

def globalIpv6 (r : IfAddr) : Bool :=
  match r.addr with
  | some (.inet6 address) => !isNonGlobalIpv6 address
  | _ => false

end IfAddr

namespace InterfaceAddress

def empty (name : Name) : InterfaceAddress := ⟨name, false, false, false, false⟩

def note (e : InterfaceAddress) (r : IfAddr) : InterfaceAddress where
  name := e.name
  loopback := e.loopback || r.loopback
  up := e.up || r.up
  ipv4 := e.ipv4 || r.ipv4
  globalIpv6 := e.globalIpv6 || r.globalIpv6

end InterfaceAddress

/-- A record goes to the entry of its name, which is pushed when there is none. -/
def addRecord (table : List InterfaceAddress) (name : Name) (r : IfAddr) :
    List InterfaceAddress :=
  let table := if table.any (·.name = name) then table else table ++ [.empty name]
  Lists.modifyFirst (·.name = name) (·.note r) table

/-- The loop of `interface_addresses` over the kernel's list. -/
def collect (records : List IfAddr) : Except LinuxError (List InterfaceAddress) :=
  records.foldlM (fun table r =>
    match r.name with
    | .null => .ok table
    | .notUtf8 => .error .interface
    | .text name => .ok (addRecord table name r)) []

/-- The entries of an interface under `/sys/class/net` that tell of an attachment. -/
inductive Attachment
  | master | bridge | bonding
  deriving DecidableEq, Repr

/-- What looking for a path comes to. -/
inductive Lookup
  | found | absent | failed
  deriving DecidableEq, Repr

/-- `Path::exists`: a lookup that fails counts as absence. -/
def Lookup.exists (l : Lookup) : Bool := l = .found

/-- What the check reads of the system it runs on. -/
structure Kernel where
  matchesPidOne : Option Bool
  disableIpv6 : Name → Option (List Char)
  routeTable : Option (List Char)
  ifaddrs : Option (List IfAddr)
  sysClassNet : Name → Attachment → Lookup

def Kernel.hasMasterOrVirtualAttachment (k : Kernel) (name : Name) : Bool :=
  (k.sysClassNet name .master).exists || (k.sysClassNet name .bridge).exists ||
    (k.sysClassNet name .bonding).exists

def validInterfaceName (name : Name) : Bool :=
  name ≠ [] ∧ name ≠ loopbackName ∧ (utf8 name).length < 16 ∧
    (utf8 name).all fun byte => isAsciiDigit byte ∨ (65 ≤ byte ∧ byte ≤ 90) ∨
      (97 ≤ byte ∧ byte ≤ 122) ∨ byte = 95 ∨ byte = 46 ∨ byte = 45

def interfaceAddresses (k : Kernel) : Except LinuxError (List InterfaceAddress) :=
  match k.ifaddrs with
  | none => .error .interface
  | some records => collect records

def namespaceMatchesPidOne (k : Kernel) : Except LinuxError Bool :=
  match k.matchesPidOne with
  | none => .error .namespaceError
  | some same => .ok same

def verifyIpv6Disabled (k : Kernel) (names : List Name) : Except LinuxError Unit :=
  if ∀ scope ∈ ["all".toList, "default".toList, loopbackName] ++ names,
      (k.disableIpv6 scope).any fun value => trim value = ['1'] then .ok ()
  else .error .network

def verifyNoDefaultRoute (k : Kernel) : Except LinuxError Unit :=
  match k.routeTable with
  | none => .error .network
  | some ipv4 => if hasIpv4DefaultRoute ipv4 then .error .defaultRouteV4 else .ok ()

def verifyInterface (k : Kernel) (addresses : List InterfaceAddress) (name : Name) : Bool :=
  match addresses.find? (·.name = name) with
  | none => false
  | some entry => !(entry.loopback || !entry.up || entry.ipv4 || entry.globalIpv6 ||
      k.hasMasterOrVirtualAttachment name)

def verifyAddresses (k : Kernel) (names : List Name) (addresses : List InterfaceAddress) :
    Except LinuxError Unit :=
  if ¬ ((∀ e ∈ addresses, e.name ∈ loopbackName :: names) ∧
      ∀ name ∈ loopbackName :: names, name ∈ addresses.map (·.name)) then .error .interface
  else
    match addresses.find? (·.name = loopbackName) with
    | none => .error .address
    | some loopback =>
      if !loopback.loopback || loopback.up then .error .address
      else if ∀ name ∈ names, verifyInterface k addresses name then .ok ()
      else .error .address

/-- The comparison with the namespace of PID 1, where it is asked for. -/
def sharesNamespace (k : Kernel) (comparePidOne : Bool) : Except LinuxError Bool :=
  if comparePidOne then namespaceMatchesPidOne k else .ok false

/-- A set of names is a list without duplicates: every failure of one loop is the same error. -/
def verifyIsolatedTopology (k : Kernel) (requested : List Name) (comparePidOne : Bool) :
    Except LinuxError Unit :=
  if requested = [] ∨ ¬ requested.Nodup ∨ ∃ name ∈ requested, ¬ validInterfaceName name then
    .error .interface
  else do
    let same ← sharesNamespace k comparePidOne
    if same then .error .namespaceError
    else do
      verifyIpv6Disabled k requested
      verifyNoDefaultRoute k
      let addresses ← interfaceAddresses k
      verifyAddresses k requested addresses

/-- What the records of one name come to, in whatever order they were listed. -/
structure Summary (records : List IfAddr) (e : InterfaceAddress) : Prop where
  loopback : e.loopback = true ↔ ∃ r ∈ records, r.name = .text e.name ∧ r.loopback = true
  up : e.up = true ↔ ∃ r ∈ records, r.name = .text e.name ∧ r.up = true
  ipv4 : e.ipv4 = true ↔ ∃ r ∈ records, r.name = .text e.name ∧ r.ipv4 = true
  globalIpv6 : e.globalIpv6 = true ↔
    ∃ r ∈ records, r.name = .text e.name ∧ r.globalIpv6 = true

/-- A table with one entry for each name seen. -/
structure Summarizes (records : List IfAddr) (table : List InterfaceAddress) : Prop where
  keys : (table.map InterfaceAddress.name).Nodup
  names : ∀ name, name ∈ table.map InterfaceAddress.name ↔ ∃ r ∈ records, r.name = .text name
  entries : ∀ e ∈ table, Summary records e

variable {records : List IfAddr} {table : List InterfaceAddress} {e : InterfaceAddress}
  {r : IfAddr} {name : Name} {names : List Name} {k : Kernel} {comparePidOne : Bool}

theorem note_empty_name : (InterfaceAddress.empty name).name = name := rfl

theorem exists_snoc {p : IfAddr → Prop} :
    (∃ x ∈ records ++ [r], p x) ↔ (∃ x ∈ records, p x) ∨ p r := by
  simp only [List.mem_append, List.mem_singleton]
  constructor
  · rintro ⟨x, hx | rfl, hp⟩
    · exact .inl ⟨x, hx, hp⟩
    · exact .inr hp
  · rintro (⟨x, hx, hp⟩ | hp)
    · exact ⟨x, .inl hx, hp⟩
    · exact ⟨r, .inr rfl, hp⟩

theorem Summary.skip (h : Summary records e) (hr : r.name ≠ .text e.name) :
    Summary (records ++ [r]) e := by
  constructor
  · rw [exists_snoc, h.loopback]
    exact (or_iff_left fun h => hr h.1).symm
  · rw [exists_snoc, h.up]
    exact (or_iff_left fun h => hr h.1).symm
  · rw [exists_snoc, h.ipv4]
    exact (or_iff_left fun h => hr h.1).symm
  · rw [exists_snoc, h.globalIpv6]
    exact (or_iff_left fun h => hr h.1).symm

theorem Summary.note (h : Summary records e) (hr : r.name = .text e.name) :
    Summary (records ++ [r]) (e.note r) := by
  constructor
  · rw [exists_snoc, InterfaceAddress.note, Bool.or_eq_true, h.loopback]
    exact or_congr_right (iff_and_self.mpr fun _ => hr)
  · rw [exists_snoc, InterfaceAddress.note, Bool.or_eq_true, h.up]
    exact or_congr_right (iff_and_self.mpr fun _ => hr)
  · rw [exists_snoc, InterfaceAddress.note, Bool.or_eq_true, h.ipv4]
    exact or_congr_right (iff_and_self.mpr fun _ => hr)
  · rw [exists_snoc, InterfaceAddress.note, Bool.or_eq_true, h.globalIpv6]
    exact or_congr_right (iff_and_self.mpr fun _ => hr)

/-- Nothing has been seen of a name that has no entry. -/
theorem Summarizes.fresh (h : Summarizes records table)
    (hname : name ∉ table.map InterfaceAddress.name) : Summary records (.empty name) := by
  have hnone : ∀ p : IfAddr → Prop, ¬ ∃ r ∈ records, r.name = .text name ∧ p r :=
    fun p ⟨r, hr, hn, _⟩ => hname ((h.names name).mpr ⟨r, hr, hn⟩)
  constructor <;>
    simpa only [InterfaceAddress.empty, Bool.false_eq_true, false_iff] using hnone _

theorem modifyFirst_names (l : List InterfaceAddress) :
    (Lists.modifyFirst (·.name = name) (·.note r) l).map InterfaceAddress.name =
      l.map InterfaceAddress.name := by
  induction l with
  | nil => rfl
  | cons e l ih =>
    by_cases he : e.name = name
    · simp [Lists.modifyFirst, he, InterfaceAddress.note]
    · simp [Lists.modifyFirst, he, ih]

/-- With one entry a name, updating the first match updates the entry of that name only. -/
theorem mem_modifyFirst_note (hkeys : (table.map InterfaceAddress.name).Nodup)
    (h : e ∈ Lists.modifyFirst (·.name = name) (·.note r) table) :
    (e ∈ table ∧ e.name ≠ name) ∨ ∃ e' ∈ table, e'.name = name ∧ e = e'.note r := by
  induction table with
  | nil => simp at h
  | cons x l ih =>
    rw [List.map_cons, List.nodup_cons] at hkeys
    by_cases hx : x.name = name
    · simp only [Lists.modifyFirst, hx, decide_true, if_true, List.mem_cons] at h
      rcases h with rfl | h
      · exact .inr ⟨x, List.mem_cons_self, hx, rfl⟩
      · refine .inl ⟨List.mem_cons_of_mem _ h, fun he => hkeys.1 ?_⟩
        rw [hx, ← he]
        exact List.mem_map_of_mem h
    · simp only [Lists.modifyFirst, hx, decide_false, Bool.false_eq_true, if_false,
        List.mem_cons] at h
      rcases h with rfl | h
      · exact .inl ⟨List.mem_cons_self, hx⟩
      · rcases ih hkeys.2 h with ⟨hmem, hne⟩ | ⟨e', hmem, hrest⟩
        · exact .inl ⟨List.mem_cons_of_mem _ hmem, hne⟩
        · exact .inr ⟨e', List.mem_cons_of_mem _ hmem, hrest⟩

theorem Summarizes.add (h : Summarizes records table) (hr : r.name = .text name) :
    Summarizes (records ++ [r]) (addRecord table name r) := by
  -- The table once the name has an entry.
  obtain ⟨l, hl, hkeys, hnames, hentries⟩ : ∃ l,
      addRecord table name r = Lists.modifyFirst (·.name = name) (·.note r) l ∧
      (l.map InterfaceAddress.name).Nodup ∧
      (∀ n, n ∈ l.map InterfaceAddress.name ↔ n = name ∨ n ∈ table.map InterfaceAddress.name) ∧
      ∀ e ∈ l, Summary records e := by
    by_cases hmem : name ∈ table.map InterfaceAddress.name
    · obtain ⟨e, he, hn⟩ := List.mem_map.mp hmem
      refine ⟨table, ?_, h.keys, ?_, h.entries⟩
      · rw [addRecord, if_pos (List.any_eq_true.mpr ⟨e, he, decide_eq_true hn⟩)]
      · rintro n
        exact ⟨.inr, fun h => h.elim (fun h => h ▸ hmem) id⟩
    · refine ⟨table ++ [.empty name], ?_, ?_, ?_, ?_⟩
      · rw [addRecord, if_neg]
        rw [List.any_eq_true]
        rintro ⟨e, he, hn⟩
        exact hmem (List.mem_map.mpr ⟨e, he, of_decide_eq_true hn⟩)
      · rw [List.map_append, List.nodup_append]
        refine ⟨h.keys, by simp, ?_⟩
        rintro a ha b hb rfl
        rw [List.map_cons, List.map_nil, List.mem_singleton, note_empty_name] at hb
        exact hmem (hb ▸ ha)
      · intro n
        simp [note_empty_name, or_comm]
      · intro e he
        rcases List.mem_append.mp he with he | he
        · exact h.entries e he
        · rw [List.mem_singleton.mp he]
          exact h.fresh hmem
  rw [hl]
  refine ⟨by rw [modifyFirst_names]; exact hkeys, ?_, ?_⟩
  · intro n
    rw [modifyFirst_names, hnames, h.names, exists_snoc, or_comm, hr, IfaName.text.injEq,
      eq_comm (a := n)]
  · intro e he
    rcases mem_modifyFirst_note hkeys he with ⟨hmem, hne⟩ | ⟨e', hmem, hname, rfl⟩
    · refine (hentries e hmem).skip ?_
      rw [hr, Ne, IfaName.text.injEq]
      exact Ne.symm hne
    · exact (hentries e' hmem).note (by rw [hr, hname])

theorem Summarizes.skip (h : Summarizes records table) (hr : r.name = .null) :
    Summarizes (records ++ [r]) table := by
  refine ⟨h.keys, fun n => ?_, fun e he => (h.entries e he).skip (by rw [hr]; simp)⟩
  rw [h.names, exists_snoc, hr]
  simp

/-- The loop over the records refuses a name that is no text, and otherwise sums them up. -/
theorem collect_eq_ok (h : collect records = .ok table) :
    (∀ r ∈ records, r.name ≠ .notUtf8) ∧ Summarizes records table := by
  induction records using List.reverseRecOn generalizing table with
  | nil =>
    obtain rfl := Except.ok.inj h
    exact ⟨by simp, by simp, by simp, by simp⟩
  | append_singleton records r ih =>
    rw [collect, List.foldlM_append, Outcome.bind_eq_ok] at h
    obtain ⟨before, hbefore, h⟩ := h
    obtain ⟨htext, hsum⟩ := ih hbefore
    simp only [List.foldlM_cons, List.foldlM_nil, bind_pure] at h
    cases hr : r.name with
    | null =>
      rw [hr] at h
      obtain rfl := Except.ok.inj h
      refine ⟨?_, hsum.skip hr⟩
      simpa [or_imp, forall_and, hr] using htext
    | notUtf8 =>
      rw [hr] at h
      cases h
    | text name =>
      rw [hr] at h
      obtain rfl := Except.ok.inj h
      refine ⟨?_, hsum.add hr⟩
      simpa [or_imp, forall_and, hr] using htext

theorem collect_ok (h : ∀ r ∈ records, r.name ≠ .notUtf8) :
    ∃ table, collect records = .ok table := by
  induction records using List.reverseRecOn with
  | nil => exact ⟨[], rfl⟩
  | append_singleton records r ih =>
    obtain ⟨before, hbefore⟩ := ih fun r hr => h r (List.mem_append_left _ hr)
    have hlast := h r (by simp)
    rw [collect] at hbefore ⊢
    rw [List.foldlM_append, hbefore]
    cases hr : r.name with
    | null => exact ⟨before, by simp [hr, bind, Except.bind, pure, Except.pure]⟩
    | notUtf8 => exact absurd hr hlast
    | text name =>
      exact ⟨addRecord before name r, by simp [hr, bind, Except.bind, pure, Except.pure]⟩

/-- The interfaces the kernel lists: an inert loopback, and the named ones with nothing on them. -/
structure Inert (k : Kernel) (names : List Name) (records : List IfAddr) : Prop where
  text : ∀ r ∈ records, r.name ≠ .notUtf8
  known : ∀ r ∈ records, ∀ name, r.name = .text name → name ∈ loopbackName :: names
  loopback : ∃ r ∈ records, r.name = .text loopbackName ∧ r.loopback = true
  loopback_down : ∀ r ∈ records, r.name = .text loopbackName → r.up = false
  up : ∀ name ∈ names, ∃ r ∈ records, r.name = .text name ∧ r.up = true
  bare : ∀ name ∈ names, ∀ r ∈ records, r.name = .text name →
    r.loopback = false ∧ r.ipv4 = false ∧ r.globalIpv6 = false
  unattached : ∀ name ∈ names, ∀ attachment, k.sysClassNet name attachment ≠ .found

/-- A namespace with nothing but the interfaces that were asked for, and no way out of it that shows
on a line which does not begin like a header. -/
structure Isolated (k : Kernel) (names : List Name) (comparePidOne : Bool) : Prop where
  some_name : names ≠ []
  distinct : names.Nodup
  valid : ∀ name ∈ names, validInterfaceName name = true
  apart : comparePidOne = true → k.matchesPidOne = some false
  ipv6_off : ∀ scope ∈ ["all".toList, "default".toList, loopbackName] ++ names,
    ∃ value, k.disableIpv6 scope = some value ∧ trim value = ['1']
  no_default : ∃ routes, k.routeTable = some routes ∧ ∀ line ∈ lines routes, trim line ≠ [] →
    isHeader (fieldsOf line) = true ∨ Harmless line
  interfaces : ∃ records, k.ifaddrs = some records ∧ Inert k names records

theorem Summarizes.find (h : Summarizes records table) (hname : ∃ r ∈ records, r.name = .text name) :
    ∃ e ∈ table, e.name = name ∧ table.find? (·.name = name) = some e := by
  obtain ⟨e, he, hn⟩ := List.mem_map.mp ((h.names name).mpr hname)
  cases hf : table.find? (·.name = name) with
  | none =>
    have := List.find?_eq_none.mp hf e he
    simp [hn] at this
  | some e' =>
    have hname' : e'.name = name := by simpa using List.find?_some hf
    exact ⟨e', List.mem_of_find?_eq_some hf, hname', rfl⟩

theorem Summarizes.find_mem (h : Summarizes records table)
    (hf : table.find? (·.name = name) = some e) : e.name = name ∧ Summary records e :=
  ⟨by simpa using List.find?_some hf, h.entries e (List.mem_of_find?_eq_some hf)⟩

/-- No attachment is found, be it absent or out of reach. -/
theorem hasMasterOrVirtualAttachment_eq_false_iff : k.hasMasterOrVirtualAttachment name = false ↔
    ∀ attachment, k.sysClassNet name attachment ≠ .found := by
  simp only [Kernel.hasMasterOrVirtualAttachment, Lookup.exists, Bool.or_eq_false_iff,
    decide_eq_false_iff_not]
  constructor
  · rintro ⟨⟨hmaster, hbridge⟩, hbonding⟩ attachment
    cases attachment with
    | master => exact hmaster
    | bridge => exact hbridge
    | bonding => exact hbonding
  · intro h
    exact ⟨⟨h .master, h .bridge⟩, h .bonding⟩

/-- The verdict on one interface, read off its records. -/
theorem verifyInterface_iff (h : Summarizes records table) :
    verifyInterface k table name = true ↔ (∃ r ∈ records, r.name = .text name ∧ r.up = true) ∧
      (∀ r ∈ records, r.name = .text name →
        r.loopback = false ∧ r.ipv4 = false ∧ r.globalIpv6 = false) ∧
      ∀ attachment, k.sysClassNet name attachment ≠ .found := by
  rw [← hasMasterOrVirtualAttachment_eq_false_iff]
  unfold verifyInterface
  cases hf : table.find? (·.name = name) with
  | none =>
    simp only [Bool.false_eq_true, false_iff]
    rintro ⟨⟨r, hr, hn, -⟩, -⟩
    obtain ⟨e, -, -, hfind⟩ := h.find ⟨r, hr, hn⟩
    rw [hf] at hfind
    cases hfind
  | some e =>
    obtain ⟨rfl, hsum⟩ := h.find_mem hf
    have hno : ∀ {b : Bool} {f : IfAddr → Bool},
        (b = true ↔ ∃ r ∈ records, r.name = .text e.name ∧ f r = true) →
        (b = false ↔ ∀ r ∈ records, r.name = .text e.name → f r = false) := by
      intro b f hb
      rw [← Bool.not_eq_true, hb]
      simp
    simp only [Bool.not_eq_true', Bool.or_eq_false_iff, Bool.not_eq_false', hsum.up,
      hno hsum.loopback, hno hsum.ipv4, hno hsum.globalIpv6]
    constructor
    · rintro ⟨⟨⟨⟨hl, hu⟩, h4⟩, h6⟩, ha⟩
      exact ⟨hu, fun r hr hn => ⟨hl r hr hn, h4 r hr hn, h6 r hr hn⟩, ha⟩
    · rintro ⟨hu, hb, ha⟩
      exact ⟨⟨⟨⟨fun r hr hn => (hb r hr hn).1, hu⟩, fun r hr hn => (hb r hr hn).2.1⟩,
        fun r hr hn => (hb r hr hn).2.2⟩, ha⟩

theorem verifyAddresses_iff (h : Summarizes records table) (htext : ∀ r ∈ records, r.name ≠ .notUtf8) :
    verifyAddresses k names table = .ok () ↔ Inert k names records := by
  have hsets : ((∀ e ∈ table, e.name ∈ loopbackName :: names) ∧
      ∀ name ∈ loopbackName :: names, name ∈ table.map (·.name)) ↔
      (∀ r ∈ records, ∀ name, r.name = .text name → name ∈ loopbackName :: names) ∧
        ∀ name ∈ loopbackName :: names, ∃ r ∈ records, r.name = .text name := by
    refine and_congr ?_ (forall₂_congr fun name _ => h.names name)
    constructor
    · intro hall r hr name hn
      obtain ⟨e, he, rfl⟩ := List.mem_map.mp ((h.names name).mpr ⟨r, hr, hn⟩)
      exact hall e he
    · intro hall e he
      obtain ⟨r, hr, hn⟩ := (h.names e.name).mp (List.mem_map_of_mem he)
      exact hall r hr e.name hn
  rw [verifyAddresses]
  constructor
  · intro hok
    simp only [Outcome.ite_error_eq_ok, not_not] at hok
    obtain ⟨hnames, hok⟩ := hok
    obtain ⟨hknown, hall⟩ := hsets.mp hnames
    obtain ⟨lo, hlo, hname, hfind⟩ := h.find (hall loopbackName List.mem_cons_self)
    rw [hfind] at hok
    simp only [Outcome.ite_error_eq_ok, Bool.or_eq_true, Bool.not_eq_true', not_or,
      Bool.not_eq_false, Bool.not_eq_true] at hok
    obtain ⟨⟨hloop, hdown⟩, hok⟩ := hok
    have hsum := h.entries lo hlo
    have hverify : ∀ name ∈ names, verifyInterface k table name = true := by
      by_contra hno
      rw [if_neg hno] at hok
      cases hok
    refine ⟨htext, hknown, hname ▸ hsum.loopback.mp hloop, ?_, ?_, ?_, ?_⟩
    · intro r hr hn
      by_contra hup
      have := hsum.up.mpr ⟨r, hr, hname ▸ hn, by simpa using hup⟩
      rw [hdown] at this
      cases this
    · exact fun name hn => ((verifyInterface_iff h).mp (hverify name hn)).1
    · exact fun name hn => ((verifyInterface_iff h).mp (hverify name hn)).2.1
    · exact fun name hn => ((verifyInterface_iff h).mp (hverify name hn)).2.2
  · intro hi
    have hall : ∀ name ∈ loopbackName :: names, ∃ r ∈ records, r.name = .text name := by
      intro name hn
      rcases List.mem_cons.mp hn with rfl | hn
      · obtain ⟨r, hr, hname, -⟩ := hi.loopback
        exact ⟨r, hr, hname⟩
      · obtain ⟨r, hr, hname, -⟩ := hi.up name hn
        exact ⟨r, hr, hname⟩
    rw [if_neg (not_not.mpr (hsets.mpr ⟨hi.known, hall⟩))]
    obtain ⟨lo, hlo, hname, hfind⟩ := h.find (hall loopbackName List.mem_cons_self)
    have hsum := h.entries lo hlo
    have hloop : lo.loopback = true := hsum.loopback.mpr (hname ▸ hi.loopback)
    have hdown : lo.up = false := by
      by_contra hup
      obtain ⟨r, hr, hn, hrup⟩ := hsum.up.mp (by simpa using hup)
      rw [hi.loopback_down r hr (hname ▸ hn)] at hrup
      cases hrup
    have hverify : ∀ name ∈ names, verifyInterface k table name = true := fun name hn =>
      (verifyInterface_iff h).mpr ⟨hi.up name hn, hi.bare name hn, hi.unattached name hn⟩
    rw [hfind]
    simp only [hloop, hdown, Bool.not_true, Bool.or_false, Bool.false_eq_true, if_false]
    rw [if_pos hverify]

theorem verifyIpv6Disabled_iff : verifyIpv6Disabled k names = .ok () ↔
    ∀ scope ∈ ["all".toList, "default".toList, loopbackName] ++ names,
      ∃ value, k.disableIpv6 scope = some value ∧ trim value = ['1'] := by
  rw [verifyIpv6Disabled, Outcome.ite_ok_eq_ok, and_iff_left rfl]
  simp only [Option.any_eq_true, decide_eq_true_eq]

theorem verifyNoDefaultRoute_iff : verifyNoDefaultRoute k = .ok () ↔
    ∃ routes, k.routeTable = some routes ∧ ∀ line ∈ lines routes, trim line ≠ [] →
      isHeader (fieldsOf line) = true ∨ Harmless line := by
  simp only [← hasIpv4DefaultRoute_eq_false_iff]
  unfold verifyNoDefaultRoute
  cases k.routeTable with
  | none => simp
  | some routes => simp

theorem sharesNamespace_iff : sharesNamespace k comparePidOne = .ok false ↔
    (comparePidOne = true → k.matchesPidOne = some false) := by
  unfold sharesNamespace namespaceMatchesPidOne
  cases comparePidOne with
  | false => simp
  | true => cases k.matchesPidOne <;> simp

/-- The check passes exactly in an isolated namespace, however the kernel orders or repeats its
interface records. Whatever cannot be read counts against it, but for the attachments. -/
theorem verifyIsolatedTopology_iff (k : Kernel) (names : List Name) (comparePidOne : Bool) :
    verifyIsolatedTopology k names comparePidOne = .ok () ↔ Isolated k names comparePidOne := by
  rw [verifyIsolatedTopology, Outcome.ite_error_eq_ok]
  push Not
  constructor
  · rintro ⟨⟨hsome, hnodup, hvalid⟩, hok⟩
    simp only [Outcome.bind_eq_ok, Outcome.ite_error_eq_ok, Bool.not_eq_true] at hok
    obtain ⟨same, hsame, rfl, ⟨⟩, hipv6, ⟨⟩, hroutes, table, htable, hok⟩ := hok
    refine ⟨hsome, hnodup, hvalid, sharesNamespace_iff.mp hsame, verifyIpv6Disabled_iff.mp hipv6,
      verifyNoDefaultRoute_iff.mp hroutes, ?_⟩
    unfold interfaceAddresses at htable
    cases hrecords : k.ifaddrs with
    | none =>
      rw [hrecords] at htable
      cases htable
    | some records =>
      rw [hrecords] at htable
      obtain ⟨htext, hsum⟩ := collect_eq_ok htable
      exact ⟨records, rfl, (verifyAddresses_iff hsum htext).mp hok⟩
  · intro hi
    refine ⟨⟨hi.some_name, hi.distinct, hi.valid⟩, ?_⟩
    obtain ⟨records, hrecords, hinert⟩ := hi.interfaces
    obtain ⟨table, htable⟩ := collect_ok hinert.text
    obtain ⟨htext, hsum⟩ := collect_eq_ok htable
    have haddresses : interfaceAddresses k = .ok table := by
      rw [interfaceAddresses, hrecords]
      exact htable
    simp only [Outcome.bind_eq_ok, Outcome.ite_error_eq_ok, Bool.not_eq_true]
    exact ⟨false, sharesNamespace_iff.mpr hi.apart, rfl, (), verifyIpv6Disabled_iff.mpr hi.ipv6_off,
      (), verifyNoDefaultRoute_iff.mpr hi.no_default, table, haddresses,
      (verifyAddresses_iff hsum htext).mpr hinert⟩

end R8.Daemon
