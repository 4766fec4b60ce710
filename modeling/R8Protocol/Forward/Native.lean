import R8Protocol.Forward.Network
import R8Protocol.Wire.Builders

/-! The native daemon over its seams: receive and send, events, the clock and session delivery. -/
namespace R8.Forward

open FixedWidth Wire Session

def ETHERNET_HEADER_LEN : ℕ := 14

def RECEIVE_CAPACITY : ℕ := ETHERNET_HEADER_LEN + SERIALIZED_R8_MAX + 1

inductive NativeError
  | receive | send | shortWrite | revoked | invariant
  deriving DecidableEq, Repr

structure RuntimeTelemetry where
  received : U64
  dropped : U64
  forwarded : U64
  delivered : U64
  faults : U64
  descriptorHighWater : U32
  deriving DecidableEq, Repr

/-- The seams may share state. A receive fills the buffer with what it likes, whatever length it
reports. -/
structure NativeIo (σ : Type*) where
  receive : σ → U32 → Except NativeError (Option ℕ) × Bytes RECEIVE_CAPACITY × σ
  send : σ → U32 → List Byte → Except NativeError ℕ × σ

structure EventSource (σ : Type*) where
  event : σ → Except NativeError Bool × σ

structure Clock (σ : Type*) where
  now : σ → Except NativeError Unit × σ

structure SessionDelivery (σ : Type*) where
  deliver : σ → List Byte → ObservedBinding → Except NativeError Unit × σ

/-- The default delivery counts what it throws away. -/
def DropSessions : SessionDelivery U64 where
  deliver dropped _ _ := (.ok (), satAdd dropped 1)

/-- One call of a seam, with what it gave. -/
inductive SeamCall
  | clock (result : Except NativeError Unit)
  | event (result : Except NativeError Bool)
  | receive (descriptorId : U32) (result : Except NativeError (Option ℕ))
      (buffer : Bytes RECEIVE_CAPACITY)
  | send (descriptorId : U32) (frame : List Byte) (result : Except NativeError ℕ)
  | deliver (packet : List Byte) (binding : ObservedBinding) (result : Except NativeError Unit)

def Native.buildEthernetFrame (destination source : Bytes 6) (packet : List Byte) :
    Except NativeError (List Byte) :=
  if SERIALIZED_R8_MAX < packet.length then .error .invariant
  else .ok (Forward.buildEthernetFrame destination source packet)

/-- The state of the seams, and the calls made of them so far. -/
structure World (σ : Type*) where
  seams : σ
  calls : List SeamCall

namespace World

variable {σ : Type*}

def now (w : World σ) (clock : Clock σ) : Except NativeError Unit × World σ :=
  let (result, seams) := clock.now w.seams
  (result, ⟨seams, w.calls ++ [.clock result]⟩)

def event (w : World σ) (events : EventSource σ) : Except NativeError Bool × World σ :=
  let (result, seams) := events.event w.seams
  (result, ⟨seams, w.calls ++ [.event result]⟩)

def receive (w : World σ) (io : NativeIo σ) (id : U32) :
    Except NativeError (Option ℕ) × Bytes RECEIVE_CAPACITY × World σ :=
  let (result, buffer, seams) := io.receive w.seams id
  (result, buffer, ⟨seams, w.calls ++ [.receive id result buffer]⟩)

def send (w : World σ) (io : NativeIo σ) (id : U32) (frame : List Byte) :
    Except NativeError ℕ × World σ :=
  let (result, seams) := io.send w.seams id frame
  (result, ⟨seams, w.calls ++ [.send id frame result]⟩)

def deliver (w : World σ) (sessions : SessionDelivery σ) (packet : List Byte)
    (binding : ObservedBinding) : Except NativeError Unit × World σ :=
  let (result, seams) := sessions.deliver w.seams packet binding
  (result, ⟨seams, w.calls ++ [.deliver packet binding result]⟩)

end World

/-- What a runtime is built from and never changes, with what `new` has checked of it. -/
structure NativeSetup where
  manifest : NativeManifest
  sized : NativeManifest
  budgets : DescriptorBudgets sized
  localMacs : List (U32 × Bytes 6)
  no_locals : manifest.localLocs = []
  macs_length : localMacs.length = manifest.interfaces.length
  macs_known : ∀ m ∈ localMacs, (manifest.interface m.1).isSome
  macs_nodup : (localMacs.map Prod.fst).Nodup
  budgeted : ∀ i ∈ manifest.interfaces, (budgets.get i.descriptorId).isSome

structure NativeRuntime extends NativeSetup where
  telemetry : RuntimeTelemetry
  stopped : Bool

/-- What a call gives: its result, the runtime and the world after it. -/
abbrev Turn (σ : Type*) := Except NativeError Unit × NativeRuntime × World σ

namespace NativeRuntime

variable {σ : Type*}

def new (manifest : NativeManifest) {sized : NativeManifest} (budgets : DescriptorBudgets sized)
    (localMacs : List (U32 × Bytes 6)) : Except NativeError NativeRuntime :=
  if h : manifest.localLocs ≠ [] ∨ (∃ i ∈ manifest.interfaces, i.localDelivery) ∨
      localMacs.length ≠ manifest.interfaces.length ∨
      ∃ m ∈ localMacs, (manifest.interface m.1).isNone ∨ m.2 = bytesOf 6 0 ∨
        m.2 = bytesOf 6 0xff ∨ (byteAt m.2.val 0).val &&& 1 ≠ 0 then .error .invariant
  else if h' : ¬ (localMacs.map Prod.fst).Nodup ∨
      ∃ i ∈ manifest.interfaces, (budgets.get i.descriptorId).isNone then .error .invariant
  else .ok {
    manifest := manifest
    sized := sized
    budgets := budgets
    localMacs := localMacs
    no_locals := by
      by_contra hne
      exact h (.inl hne)
    macs_length := by
      by_contra hne
      exact h (.inr (.inr (.inl hne)))
    macs_known := by
      intro m hm
      by_contra hne
      exact h (.inr (.inr (.inr ⟨m, hm, .inl (Option.not_isSome_iff_eq_none.mp hne ▸ rfl)⟩)))
    macs_nodup := by
      by_contra hne
      exact h' (.inl hne)
    budgeted := by
      intro i hi
      by_contra hne
      exact h' (.inr ⟨i, hi, Option.not_isSome_iff_eq_none.mp hne ▸ rfl⟩)
    telemetry := ⟨0, 0, 0, 0, 0, 0⟩
    stopped := false }

def mac (r : NativeRuntime) (id : U32) : Except NativeError (Bytes 6) :=
  match r.localMacs.lookup id with
  | some mac => .ok mac
  | none => .error .invariant

def countReceived (r : NativeRuntime) (id : U32) : NativeRuntime :=
  { r with telemetry := { r.telemetry with
      received := satAdd r.telemetry.received 1
      descriptorHighWater := max r.telemetry.descriptorHighWater id } }

def countDropped (r : NativeRuntime) : NativeRuntime :=
  { r with telemetry := { r.telemetry with dropped := satAdd r.telemetry.dropped 1 } }

def countForwarded (r : NativeRuntime) : NativeRuntime :=
  { r with telemetry := { r.telemetry with forwarded := satAdd r.telemetry.forwarded 1 } }

def countDelivered (r : NativeRuntime) : NativeRuntime :=
  { r with telemetry := { r.telemetry with delivered := satAdd r.telemetry.delivered 1 } }

def stop (r : NativeRuntime) : NativeRuntime :=
  if r.stopped then r
  else { r with
    stopped := true
    telemetry := { r.telemetry with faults := satAdd r.telemetry.faults 1 } }

def fatal (r : NativeRuntime) (error : NativeError) (w : World σ) : Turn σ :=
  (.error error, r.stop, w)

def send (r : NativeRuntime) (io : NativeIo σ) (descriptor : U32) (destination : Bytes 6)
    (packet : List Byte) (w : World σ) : Turn σ :=
  match r.mac descriptor with
  | .error error => r.fatal error w
  | .ok source =>
    match Native.buildEthernetFrame destination source packet with
    | .error error => r.fatal error w
    | .ok frame =>
      match w.send io descriptor frame with
      | (.ok written, w) =>
        if written = frame.length then (.ok (), r.countForwarded, w) else r.fatal .shortWrite w
      | (.error error, w) => r.fatal error w

/-- `local` of the source: what is done with a packet that ends here. -/
def localPacket (r : NativeRuntime) (io : NativeIo σ) (sessions : SessionDelivery σ)
    (packet : List Byte) (binding : ObservedBinding) (w : World σ) : Turn σ :=
  match Header.unpackWithBudget packet SERIALIZED_R8_MAX with
  | .error _ => (.ok (), r.countDropped, w)
  | .ok (header, payload) =>
    if header.nextHeader = NH_CTL then
      match parseCtl header payload with
      | .error _ => (.ok (), r.countDropped, w)
      | .ok (typ, _, body) =>
        if typ = CTL_ECHO_REQUEST then
          match r.manifest.routeFor header.src with
          | none => (.ok (), r.countDropped, w)
          | some route =>
            match r.budgets.get route.egressDescriptorId with
            | none => (.ok (), r.countDropped, w)
            | some budget =>
              let reply := Header.new NH_CTL header.dst header.src
              match buildCtlWithBudget reply CTL_ECHO_REPLY 0 body budget with
              | .error _ => (.ok (), r.countDropped, w)
              | .ok packet => r.send io route.egressDescriptorId route.nextHopMac packet w
        else (.ok (), r.countDropped, w)
    else if header.nextHeader = NH_DGRAM then (.ok (), r.countDropped, w)
    else if header.nextHeader = NH_SES then
      match w.deliver sessions packet binding with
      | (.error error, w) => r.fatal error w
      | (.ok (), w) => (.ok (), r.countDelivered, w)
    else (.ok (), r.countDropped, w)

/-- One descriptor's part of a step. An error of `send` or `localPacket` has stopped the runtime
by then, so that the second `fatal` only passes it on. -/
def receiveFrom (r : NativeRuntime) (io : NativeIo σ) (sessions : SessionDelivery σ) (id : U32)
    (w : World σ) : Turn σ :=
  match w.receive io id with
  | (.error error, _, w) => r.fatal error w
  | (.ok none, _, w) => (.ok (), r, w)
  | (.ok (some length), buffer, w) =>
    let r := r.countReceived id
    if ETHERNET_HEADER_LEN + SERIALIZED_R8_MAX < length then (.ok (), r.countDropped, w)
    else match processFrame r.manifest r.budgets id (buffer.val.take length) with
      | .drop _ => (.ok (), r.countDropped, w)
      | .forward packet egressDescriptorId nextHopMac =>
        match r.send io egressDescriptorId nextHopMac packet w with
        | (.error error, r, w) => r.fatal error w
        | (.ok (), r, w) => (.ok (), r, w)
      | .deliver packet binding =>
        match r.localPacket io sessions packet binding w with
        | (.error error, r, w) => r.fatal error w
        | (.ok (), r, w) => (.ok (), r, w)

def receiveAll (io : NativeIo σ) (sessions : SessionDelivery σ) :
    List U32 → NativeRuntime → World σ → Turn σ
  | [], r, w => (.ok (), r, w)
  | id :: ids, r, w =>
    match r.receiveFrom io sessions id w with
    | (.error error, r, w) => (.error error, r, w)
    | (.ok (), r, w) => receiveAll io sessions ids r w

def step (r : NativeRuntime) (io : NativeIo σ) (events : EventSource σ)
    (sessions : SessionDelivery σ) (w : World σ) : Turn σ :=
  if r.stopped then (.error .invariant, r, w)
  else match w.event events with
    | (.ok true, w) => r.fatal .revoked w
    | (.error error, w) => r.fatal error w
    | (.ok false, w) => receiveAll io sessions (r.localMacs.map Prod.fst) r w

def stepWithClock (r : NativeRuntime) (io : NativeIo σ) (events : EventSource σ)
    (sessions : SessionDelivery σ) (clock : Clock σ) (w : World σ) : Turn σ :=
  match w.now clock with
  | (.error error, w) => r.fatal error w
  | (.ok (), w) => r.step io events sessions w

end NativeRuntime

/-- A call of the daemon's owner. Every call may bring other seams over the same state. -/
inductive RuntimeCall (σ : Type*)
  | step (io : NativeIo σ) (events : EventSource σ) (sessions : SessionDelivery σ)
  | stepWithClock (io : NativeIo σ) (events : EventSource σ) (sessions : SessionDelivery σ)
      (clock : Clock σ)

namespace RuntimeCall

variable {σ : Type*}

def turn (s : NativeRuntime × World σ) : RuntimeCall σ → Turn σ
  | .step io events sessions => s.1.step io events sessions s.2
  | .stepWithClock io events sessions clock => s.1.stepWithClock io events sessions clock s.2

def next (s : NativeRuntime × World σ) (call : RuntimeCall σ) : NativeRuntime × World σ :=
  (call.turn s).2

end RuntimeCall

end R8.Forward
