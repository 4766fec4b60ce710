import R8Protocol.Daemon.Isolation
import R8Protocol.Forward.FailStop
import R8Protocol.Forward.Records

/-! The native launcher: what is checked before a daemon is ready, and what it does from then on. -/
namespace R8.Daemon

open FixedWidth Wire Session Forward

/-- One digit more, below a bound. -/
def pushRadix (radix bound n : ℕ) (b : Byte) : Option ℕ :=
  if isAsciiHexdigit b ∧ hexValue b < radix ∧ radix * n + hexValue b < bound then
    some (radix * n + hexValue b)
  else none

/-- `from_str_radix` of an unsigned type: there may be a plus in front of the digits. -/
def fromStrRadix (radix bound : ℕ) : Field → Option ℕ
  | [] => none
  | [b] => [b].foldlM (pushRadix radix bound) 0
  | b :: rest => (if b = 43 then rest else b :: rest).foldlM (pushRadix radix bound) 0

inductive ArgumentError
  | manifest | interface | uid | gid | arguments
  deriving DecidableEq, Repr

/-- The flags that have been read. -/
structure Flags where
  manifest : Option String
  interfaces : List String
  uid : Option ℕ
  gid : Option ℕ

structure Args where
  manifest : String
  interfaces : List String
  uid : ℕ
  gid : ℕ

/-- A user or group to become, which is never the superuser's. -/
def readId (error : ArgumentError) (value : Option String) : Except ArgumentError ℕ :=
  match value.bind fun value => fromStrRadix 10 (2 ^ 32) (utf8 value.toList) with
  | none => .error error
  | some id => if id = 0 then .error error else .ok id

def readFlag (f : Flags) (flag : String) (value : Option String) : Except ArgumentError Flags :=
  if flag = "--manifest" ∧ f.manifest = none then
    match value with
    | none => .error .manifest
    | some value => .ok { f with manifest := some value }
  else if flag = "--interface" then
    match value with
    | none => .error .interface
    | some value =>
      if value = "" ∨ value ∈ f.interfaces then .error .interface
      else .ok { f with interfaces := f.interfaces ++ [value] }
  else if flag = "--uid" ∧ f.uid = none then
    (readId .uid value).map fun id => { f with uid := some id }
  else if flag = "--gid" ∧ f.gid = none then
    (readId .gid value).map fun id => { f with gid := some id }
  else .error .arguments

def readFlags (f : Flags) : List String → Except ArgumentError Flags
  | [] => .ok f
  | [flag] => readFlag f flag none
  | flag :: value :: rest => do
    let f ← readFlag f flag (some value)
    readFlags f rest

def arguments (argv : List String) : Except ArgumentError Args := do
  let f ← readFlags ⟨none, [], none, none⟩ argv
  match f.manifest, f.uid, f.gid with
  | none, _, _ => .error .manifest
  | some manifest, uid, gid =>
    if f.interfaces = [] then .error .interface
    else
      match uid, gid with
      | none, _ => .error .uid
      | _, none => .error .gid
      | some uid, some gid => .ok ⟨manifest, f.interfaces, uid, gid⟩

/-- What a receive that does not wait comes to. -/
inductive Received
  | bytes (count : ℕ)
  | wouldBlock
  | failed

/-- What the kernel says of an interface. -/
structure Details where
  ifindex : ℤ
  mtu : ℤ
  localMac : Bytes 6
  deriving DecidableEq, Repr

/-- What the process can read of its own credentials. -/
structure ProcessReport where
  groups : Option (List ℕ)
  uids : Option (ℕ × ℕ × ℕ)
  gids : Option (ℕ × ℕ × ℕ)
  fsuid : ℕ
  fsgid : ℕ
  status : Option (List Char)
  noNewPrivs : Option Bool

structure FullPrivilegeSnapshot where
  uid : List ℕ
  gid : List ℕ
  groups : List ℕ
  capabilities : List ℕ
  noNewPrivs : Bool
  deriving DecidableEq, Repr

/-- The system the launcher runs on. Every call may give anything. A sealed file is written and read
back in one; `changeCredentials` is every system call of `drop_privileges` in front of
`set_nondumpable`, all of them successful or not. -/
structure Host (σ : Type) where
  readFile : σ → String → Option (List Byte) × σ
  readSealed : σ → List Byte → Option (List Byte) × σ
  readJson : List Byte → Option RawManifest
  openWatch : σ → Bool × σ
  kernel : σ → Kernel × σ
  interfaceDetails : σ → Name → Option Details × σ
  openSocket : σ → Details → Bool × σ
  changeCredentials : σ → ℕ → ℕ → Bool × σ
  setNondumpable : σ → Bool × σ
  process : σ → ProcessReport × σ
  watch : σ → Received × σ
  poll : σ → Bool × σ
  receive : σ → U32 → Received × Bytes RECEIVE_CAPACITY × σ
  send : σ → U32 → List Byte → Option ℕ × σ
  clock : σ → Bool × σ

/-- What has been established on the way, in that order. -/
inductive StartCall
  | watching
  | verified (k : Kernel) (comparePidOne : Bool)
  | opened (name : Name) (d : Details)
  | quiet
  | dropped (snapshot : FullPrivilegeSnapshot)

structure Boot (σ : Type) where
  seams : σ
  calls : List StartCall

section Launch

variable {σ : Type} (h : Host σ)

/-- `Watch::event`: a message has the namespace verified again, and counts in any case. -/
def watchEvent (names : List Name) (seams : σ) : Except NativeError Bool × σ :=
  match h.watch seams with
  | (.bytes _, seams) =>
    let (k, seams) := h.kernel seams
    match verifyIsolatedTopology k names true with
    | .error _ => (.error .revoked, seams)
    | .ok () => (.ok true, seams)
  | (.wouldBlock, seams) => (.ok false, seams)
  | (.failed, seams) => (.error .revoked, seams)

/-- A daemon that is ready, with what it was started from. -/
structure Launched (σ : Type) where
  args : Args
  descriptors : List (U32 × Details)
  runtime : NativeRuntime
  boot : Boot σ

def Args.names (args : Args) : List Name := args.interfaces.map String.toList

/-- The seams of the running daemon: the system, and the sessions it drops. -/
def linuxIo (ids : List U32) : NativeIo (σ × U64) where
  receive s id :=
    if id ∈ ids then
      match h.receive s.1 id with
      | (.bytes count, buffer, seams) => (.ok (some count), buffer, seams, s.2)
      | (.wouldBlock, buffer, seams) => (.ok none, buffer, seams, s.2)
      | (.failed, buffer, seams) => (.error .receive, buffer, seams, s.2)
    else (.error .invariant, bytesOf _ 0, s)
  send s id frame :=
    if id ∈ ids then
      match h.send s.1 id frame with
      | (none, seams) => (.error .send, seams, s.2)
      | (some written, seams) => (.ok written, seams, s.2)
    else (.error .invariant, s)

def routeEvents (names : List Name) : EventSource (σ × U64) where
  event s :=
    let (result, seams) := watchEvent h names s.1
    (result, seams, s.2)

def monotonicClock : Clock (σ × U64) where
  now s :=
    match h.clock s.1 with
    | (true, seams) => (.ok (), seams, s.2)
    | (false, seams) => (.error .invariant, seams, s.2)

def dropSessions : SessionDelivery (σ × U64) where
  deliver s packet binding :=
    let (result, dropped) := DropSessions.deliver s.2 packet binding
    (result, s.1, dropped)

inductive Ended
  | poll
  | native (error : NativeError)
  deriving DecidableEq, Repr

/-- The loop of `main`, for so many rounds. -/
def rounds (ids : List U32) (names : List Name) :
    ℕ → NativeRuntime → World (σ × U64) → Option Ended × NativeRuntime × World (σ × U64)
  | 0, r, w => (none, r, w)
  | n + 1, r, w =>
    match h.poll w.seams.1 with
    | (false, seams) => (some .poll, r, { w with seams := (seams, w.seams.2) })
    | (true, seams) =>
      match r.stepWithClock (linuxIo h ids) (routeEvents h names) dropSessions (monotonicClock h)
        { w with seams := (seams, w.seams.2) } with
      | (.error e, r, w) => (some (.native e), r, w)
      | (.ok (), r, w) => rounds ids names n r w

/-- A daemon that was launched, after so many rounds of its loop. -/
def Launched.serve (d : Launched σ) (n : ℕ) : Option Ended × NativeRuntime × World (σ × U64) :=
  rounds h (d.descriptors.map Prod.fst) d.args.names n d.runtime ⟨(d.boot.seams, 0), []⟩

end Launch

/-- The entries that the sockets of a manifest leave in the record of the start. -/
def openings (interfaces : List Interface) (descriptors : List (U32 × Details)) : List StartCall :=
  List.zipWith (fun i x => .opened i.interfaceName.toList x.2) interfaces descriptors

/-- A user and a group that are not the superuser's, and nothing of his left. -/
def unprivileged (args : Args) : FullPrivilegeSnapshot where
  uid := List.replicate 4 args.uid
  gid := List.replicate 4 args.gid
  groups := []
  capabilities := List.replicate 5 0
  noNewPrivs := true

/-- What a daemon that is ready rests on. -/
structure Ready {σ : Type} (d : Launched σ) : Prop where
  user : d.args.uid ≠ 0 ∧ d.args.gid ≠ 0
  declared : ∀ name, name ∈ d.runtime.manifest.interfaces.map Interface.interfaceName ↔
    name ∈ d.args.interfaces
  transit : d.runtime.manifest.localLocs = [] ∧
    ∀ i ∈ d.runtime.manifest.interfaces, i.localDelivery = false
  descriptors : d.descriptors.map Prod.fst =
    d.runtime.manifest.interfaces.map Interface.descriptorId
  mtus : ∀ x ∈ d.descriptors, 0 < x.2.mtu
  macs : d.runtime.localMacs = d.descriptors.map fun x => (x.1, x.2.localMac)
  budgets : ∀ id, d.runtime.budgets.get id =
    (d.descriptors.map fun x => (x.1, min 1280 x.2.mtu.toNat)).lookup id
  checks : ∃ k₁ k₂ k₃, Isolated k₁ d.args.names true ∧ Isolated k₂ d.args.names true ∧
    Isolated k₃ d.args.names false ∧
    d.boot.calls = [.watching, .verified k₁ true] ++
      openings d.runtime.manifest.interfaces d.descriptors ++
      [.quiet, .verified k₂ true, .dropped (unprivileged d.args), .quiet, .verified k₃ false]

section Start

variable {σ : Type} {h : Host σ} {names : List Name} {comparePidOne : Bool} {w w' : Boot σ}
  {args : Args} {manifest : NativeManifest}

/-- Every descriptor was opened under the name of its interface. -/
theorem mem_openings {is : List Interface} {ds : List (U32 × Details)}
    (hids : ds.map Prod.fst = is.map Interface.descriptorId) {x : U32 × Details} (hx : x ∈ ds) :
    ∃ i ∈ is, i.descriptorId = x.1 ∧ .opened i.interfaceName.toList x.2 ∈ openings is ds := by
  induction is generalizing ds with
  | nil =>
    obtain rfl := List.map_eq_nil_iff.mp hids
    cases hx
  | cons i is ih =>
    cases ds with
    | nil => cases hx
    | cons d ds =>
      obtain ⟨hid, hids⟩ := List.cons.inj hids
      rcases List.mem_cons.mp hx with rfl | hx
      · exact ⟨i, List.mem_cons_self, hid.symm, List.mem_cons_self⟩
      · obtain ⟨i', hi', hid', hmem⟩ := ih hids hx
        exact ⟨i', List.mem_cons_of_mem _ hi', hid', List.mem_cons_of_mem _ hmem⟩

/-- The frame of a lawful send is within the MTU of the interface that the send is for, and comes
from the address of that interface. -/
theorem Ready.lawful {d : Launched σ} (hd : Ready d) {id : U32} {frame : List Byte}
    (hl : d.runtime.toNativeSetup.Lawful id frame) :
    ∃ i ∈ d.runtime.manifest.interfaces, i.descriptorId = id ∧ ∃ details : Details,
      .opened i.interfaceName.toList details ∈ d.boot.calls ∧
      ∃ route ∈ d.runtime.manifest.routes, route.egressDescriptorId = id ∧ ∃ packet,
        packet.length ≤ min 1280 details.mtu.toNat ∧
        frame = buildEthernetFrame route.nextHopMac details.localMac packet := by
  obtain ⟨route, hroute, source, packet, budget, hegress, hsource, hbudget, hlen, rfl⟩ := hl.framed
  rw [hd.macs] at hsource
  obtain ⟨x, hx, hsource⟩ := List.mem_map.mp hsource
  obtain ⟨rfl, rfl⟩ := Prod.mk.inj hsource
  rw [hd.budgets] at hbudget
  obtain ⟨l, r, hsplit, -⟩ := List.lookup_eq_some_iff.mp hbudget
  obtain ⟨y, hy, hybudget⟩ := List.mem_map.mp (hsplit ▸ List.mem_append_right l List.mem_cons_self)
  obtain ⟨hsame, rfl⟩ := Prod.mk.inj hybudget
  have hnodup : (d.descriptors.map Prod.fst).Nodup := by
    rw [hd.descriptors]
    exact d.runtime.manifest.ids_nodup
  obtain rfl : y = x := List.inj_on_of_nodup_map hnodup hy hx hsame
  obtain ⟨i, hi, hid, hopened⟩ := mem_openings hd.descriptors hx
  obtain ⟨k₁, k₂, k₃, -, -, -, hcalls⟩ := hd.checks
  refine ⟨i, hi, hid, y.2, ?_, route, hroute, hegress, packet, hlen, rfl⟩
  rw [hcalls]
  simp [hopened]

end Start

/-- The frames sent since the watch was last looked at, after one call more. -/
def countSend (n : ℕ) : SeamCall → ℕ
  | .event _ => 0
  | .send _ _ _ => n + 1
  | _ => n

def sentSinceLook (calls : List SeamCall) : ℕ := calls.foldl countSend 0

/-- Never more than so many frames between two looks at the watch. -/
def Paced (k : ℕ) (calls : List SeamCall) : Prop :=
  ∀ before after, calls = before ++ after → sentSinceLook before ≤ k

section Pace

variable {σ : Type*} {r r' : NativeRuntime} {w w' : World σ} {io : NativeIo σ}
  {events : EventSource σ} {sessions : SessionDelivery σ} {clock : Clock σ} {k : ℕ}
  {calls : List SeamCall} {d : SeamCall} {result : Except NativeError Unit}

@[simp] theorem sentSinceLook_snoc (calls : List SeamCall) (d : SeamCall) :
    sentSinceLook (calls ++ [d]) = countSend (sentSinceLook calls) d := by
  simp [sentSinceLook]

theorem Paced.nil (k : ℕ) : Paced k [] := by
  intro before after hsplit
  rw [(List.append_eq_nil_iff.mp hsplit.symm).1]
  exact Nat.zero_le k

theorem Paced.snoc (h : Paced k calls) (hd : countSend (sentSinceLook calls) d ≤ k) :
    Paced k (calls ++ [d]) := by
  intro before after hsplit
  rcases List.eq_nil_or_concat after with rfl | ⟨rest, e, rfl⟩
  · rw [List.append_nil] at hsplit
    rw [← hsplit, sentSinceLook_snoc]
    exact hd
  · rw [List.concat_eq_append, ← List.append_assoc] at hsplit
    obtain ⟨hsplit, -⟩ := List.append_inj' hsplit rfl
    exact h before rest hsplit

theorem Paced.le (h : Paced k calls) : sentSinceLook calls ≤ k :=
  h calls [] (List.append_nil _).symm

end Pace

section Loop

variable {σ : Type} {h : Host σ} {ids : List U32} {names : List Name} {c : NativeSetup}
  {r : NativeRuntime} {w : World (σ × U64)} {k : ℕ}

end Loop

namespace Lab

open Forward.Sample

def manifest : RawManifest where
  localLocs := []
  interfaces := ports.interfaces.map Interface.raw
  routes := ports.routes.map Route.raw

def record (name : Name) (flags : U32) : IfAddr := ⟨.text name, flags, some .other⟩

def left : Name := "left".toList

def right : Name := "right".toList

def kernel : Kernel where
  matchesPidOne := some false
  disableIpv6 _ := some ['1', '\n']
  routeTable := some []
  ifaddrs := some [record loopbackName IFF_LOOPBACK, record left IFF_UP, record right IFF_UP]
  sysClassNet _ _ := .absent

def details (name : Name) : Details :=
  if name = left then ⟨2, 1500, bytesOf 6 6⟩ else ⟨3, 64, bytesOf 6 8⟩

def report : ProcessReport where
  groups := some []
  uids := some (7, 7, 7)
  gids := some (8, 8, 8)
  fsuid := 7
  fsgid := 8
  status := some "CapInh:\t0\nCapPrm:\t0\nCapEff:\t0\nCapBnd:\t0\nCapAmb:\t0\n".toList
  noNewPrivs := some true

/-- A system that grants everything, with a frame on the first port whenever it is asked. -/
def host : Host Unit where
  readFile _ _ := (some [], ())
  readSealed _ raw := (some raw, ())
  readJson _ := some manifest
  openWatch _ := (true, ())
  kernel _ := (kernel, ())
  interfaceDetails _ name := (some (details name), ())
  openSocket _ _ := (true, ())
  changeCredentials _ _ _ := (true, ())
  setNondumpable _ := (true, ())
  process _ := (report, ())
  watch _ := (.wouldBlock, ())
  poll _ := (true, ())
  receive _ id :=
    match (wire 62).receive () id with
    | (.ok (some count), buffer, _) => (.bytes count, buffer, ())
    | (.ok none, buffer, _) => (.wouldBlock, buffer, ())
    | (.error _, buffer, _) => (.failed, buffer, ())
  send _ _ frame := (some frame.length, ())
  clock _ := (true, ())

def argv : List String :=
  ["--uid", "7", "--interface", "left", "--manifest", "m.json", "--interface", "right", "--gid", "8"]

def args : Args := ⟨"m.json", ["left", "right"], 7, 8⟩

end Lab

end R8.Daemon
