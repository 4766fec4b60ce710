import R8Protocol.Forward.Native
import R8Protocol.Lib.Machine

/-! The daemon stops at its first error, and every frame it received is accounted for. -/
namespace R8.Forward

open FixedWidth Wire Session

namespace SeamCall

def isClock : SeamCall → Bool
  | .clock _ => true
  | _ => false

def isDeliver : SeamCall → Bool
  | .deliver _ _ _ => true
  | _ => false

/-- A frame came in. -/
def isFrame : SeamCall → Bool
  | .receive _ (.ok (some _)) _ => true
  | _ => false

/-- A frame went out whole. -/
def isWritten : SeamCall → Bool
  | .send _ frame (.ok written) => written = frame.length
  | _ => false

/-- An error, a revocation or a short write. -/
def fails : SeamCall → Bool
  | .clock (.error _) | .event (.error _) | .event (.ok true) | .receive _ (.error _) _
  | .send _ _ (.error _) | .deliver _ _ (.error _) => true
  | .send _ frame (.ok written) => written ≠ frame.length
  | _ => false

end SeamCall

def FrameAction.isDrop : FrameAction → Bool
  | .drop _ => true
  | _ => false

namespace NativeSetup

variable {c : NativeSetup} {id egress : U32} {mac : Bytes 6} {frame packet : List Byte} {length : ℕ}
  {buffer : Bytes RECEIVE_CAPACITY} {calls extra : List SeamCall} {t t' : RuntimeTelemetry}

/-- A frame that came in is too long, or `processFrame` drops it. -/
def isDropped (c : NativeSetup) : SeamCall → Bool
  | .receive id (.ok (some length)) buffer =>
    ETHERNET_HEADER_LEN + SERIALIZED_R8_MAX < length ∨
      (processFrame c.manifest c.budgets id (buffer.val.take length)).isDrop
  | _ => false

/-- The local addresses are those of all interfaces: no id twice, none unknown, and as many. -/
theorem mem_ids (c : NativeSetup) :
    ∀ i ∈ c.manifest.interfaces, i.descriptorId ∈ c.localMacs.map Prod.fst := by
  have hsub : c.localMacs.map Prod.fst ⊆ c.manifest.interfaces.map Interface.descriptorId := by
    intro id hid
    obtain ⟨m, hm, rfl⟩ := List.mem_map.mp hid
    obtain ⟨i, hi⟩ := Option.isSome_iff_exists.mp (c.macs_known m hm)
    have hfound := List.find?_some hi
    exact List.mem_map.mpr ⟨i, List.mem_of_find?_eq_some hi, of_decide_eq_true hfound⟩
  have hperm := (c.macs_nodup.subperm hsub).perm_of_length_le (by simp [c.macs_length])
  intro i hi
  exact hperm.mem_iff.mpr (List.mem_map_of_mem hi)

theorem lookup_mac (hid : id ∈ c.localMacs.map Prod.fst) :
    ∃ source, c.localMacs.lookup id = some source ∧ (id, source) ∈ c.localMacs := by
  cases hl : c.localMacs.lookup id with
  | none =>
    obtain ⟨m, hm, rfl⟩ := List.mem_map.mp hid
    have := List.lookup_eq_none_iff.mp hl m hm
    simp at this
  | some source =>
    obtain ⟨l, r, hsplit, -⟩ := List.lookup_eq_some_iff.mp hl
    refine ⟨source, rfl, ?_⟩
    rw [hsplit]
    simp

/-- A frame the daemon may send on a descriptor. -/
structure Lawful (c : NativeSetup) (id : U32) (frame : List Byte) : Prop where
  interface : ∃ i ∈ c.manifest.interfaces, i.descriptorId = id
  framed : ∃ route ∈ c.manifest.routes, ∃ source packet budget,
    route.egressDescriptorId = id ∧ (id, source) ∈ c.localMacs ∧ c.budgets.get id = some budget ∧
    packet.length ≤ budget ∧ frame = buildEthernetFrame route.nextHopMac source packet

/-- A frame that came in and the frame that goes out for it. -/
structure Relays (c : NativeSetup) (id : U32) (length : ℕ) (buffer : Bytes RECEIVE_CAPACITY)
    (egress : U32) (frame : List Byte) : Prop where
  fits : length ≤ ETHERNET_HEADER_LEN + SERIALIZED_R8_MAX
  relayed : ∃ packet mac source,
    processFrame c.manifest c.budgets id (buffer.val.take length) = .forward packet egress mac ∧
    (egress, source) ∈ c.localMacs ∧ frame = buildEthernetFrame mac source packet

/-- Neither looking up the local address nor building the frame can fail for a forward. -/
theorem forward_built
    (h : processFrame c.manifest c.budgets id frame = .forward packet egress mac) :
    ∃ source, c.localMacs.lookup egress = some source ∧ (egress, source) ∈ c.localMacs ∧
      Native.buildEthernetFrame mac source packet = .ok (buildEthernetFrame mac source packet) := by
  obtain ⟨header, payload, budget, hf⟩ := processFrame_eq_forward h
  obtain ⟨i, hi, hid⟩ := hf.interface
  obtain ⟨source, hlookup, hmem⟩ := lookup_mac (hid ▸ c.mem_ids i hi)
  have hbudget : budget ≤ SERIALIZED_R8_MAX := by
    obtain ⟨l, r, hsplit, -⟩ := List.lookup_eq_some_iff.mp hf.lookup
    exact (c.budgets.bounded (egress, budget) (by rw [hsplit]; simp)).2
  have hlen : packet.length ≤ SERIALIZED_R8_MAX := by
    rw [hf.output, List.length_set]
    exact hf.fits.trans hbudget
  refine ⟨source, hlookup, hmem, ?_⟩
  rw [Native.buildEthernetFrame, if_neg (not_lt.mpr hlen)]

theorem Relays.lawful (h : c.Relays id length buffer egress frame) : c.Lawful egress frame := by
  obtain ⟨-, packet, mac, source, hforward, hmem, rfl⟩ := h
  obtain ⟨header, payload, budget, hf⟩ := processFrame_eq_forward hforward
  obtain ⟨ingress, header', -, -, -, -, -, htransit⟩ := processFrame_transit hforward
  obtain ⟨route, hroute, hegress, rfl⟩ := forwardPacket_route htransit
  refine ⟨hf.interface, route, hroute, source, packet, budget, hegress, hmem, hf.lookup, ?_, rfl⟩
  rw [hf.output, List.length_set]
  exact hf.fits

theorem Relays.not_dropped (h : c.Relays id length buffer egress frame) :
    c.isDropped (.receive id (.ok (some length)) buffer) = false := by
  obtain ⟨hfits, packet, mac, source, hforward, -⟩ := h
  simp [isDropped, hforward, FrameAction.isDrop, hfits]

/-- The calls of a daemon that nothing has gone wrong for. -/
inductive Traffic (c : NativeSetup) : List SeamCall → Prop
  | nil : Traffic c []
  | clock {calls : List SeamCall} (h : Traffic c calls) : Traffic c (calls ++ [.clock (.ok ())])
  | event {calls : List SeamCall} (h : Traffic c calls) : Traffic c (calls ++ [.event (.ok false)])
  | idle {calls : List SeamCall} {id : U32} {buffer : Bytes RECEIVE_CAPACITY}
      (h : Traffic c calls) : Traffic c (calls ++ [.receive id (.ok none) buffer])
  | dropped {calls : List SeamCall} {id : U32} {length : ℕ} {buffer : Bytes RECEIVE_CAPACITY}
      (h : Traffic c calls) (hd : c.isDropped (.receive id (.ok (some length)) buffer) = true) :
      Traffic c (calls ++ [.receive id (.ok (some length)) buffer])
  | forwarded {calls : List SeamCall} {id egress : U32} {length : ℕ}
      {buffer : Bytes RECEIVE_CAPACITY} {frame : List Byte} (h : Traffic c calls)
      (hr : c.Relays id length buffer egress frame) :
      Traffic c (calls ++ [.receive id (.ok (some length)) buffer,
        .send egress frame (.ok frame.length)])

/-- The calls that stop a daemon. -/
inductive Fault (c : NativeSetup) : List SeamCall → Prop
  | clock (error : NativeError) : Fault c [.clock (.error error)]
  | revoked : Fault c [.event (.ok true)]
  | event (error : NativeError) : Fault c [.event (.error error)]
  | receive (id : U32) (error : NativeError) (buffer : Bytes RECEIVE_CAPACITY) :
      Fault c [.receive id (.error error) buffer]
  | send {id egress : U32} {length : ℕ} {buffer : Bytes RECEIVE_CAPACITY} {frame : List Byte}
      {result : Except NativeError ℕ} (hr : c.Relays id length buffer egress frame)
      (h : result ≠ .ok frame.length) :
      Fault c [.receive id (.ok (some length)) buffer, .send egress frame result]

/-- Once stopped, a daemon reads the clock and no more. -/
def Halted (c : NativeSetup) (calls : List SeamCall) : Prop :=
  ∃ before fault after, calls = before ++ fault ++ after ∧ c.Traffic before ∧ c.Fault fault ∧
    ∀ d ∈ after, d.isClock = true

/-- The counters are the numbers of the calls they stand for, as far as they go. -/
structure Counts (c : NativeSetup) (t : RuntimeTelemetry) (calls : List SeamCall) : Prop where
  received : (t.received : ℕ) = min (calls.countP SeamCall.isFrame) (2 ^ 64 - 1)
  dropped : (t.dropped : ℕ) = min (calls.countP c.isDropped) (2 ^ 64 - 1)
  forwarded : (t.forwarded : ℕ) = min (calls.countP SeamCall.isWritten) (2 ^ 64 - 1)
  delivered : t.delivered = 0

theorem Counts.append (h : c.Counts t calls)
    (hreceived : t'.received = satAdd t.received (extra.countP SeamCall.isFrame))
    (hdropped : t'.dropped = satAdd t.dropped (extra.countP c.isDropped))
    (hforwarded : t'.forwarded = satAdd t.forwarded (extra.countP SeamCall.isWritten))
    (hdelivered : t'.delivered = t.delivered) : c.Counts t' (calls ++ extra) := by
  obtain ⟨hr, hd, hf, hv⟩ := h
  constructor
  · rw [hreceived, satAdd_val, List.countP_append]
    omega
  · rw [hdropped, satAdd_val, List.countP_append]
    omega
  · rw [hforwarded, satAdd_val, List.countP_append]
    omega
  · rw [hdelivered, hv]

theorem Traffic.balance (h : c.Traffic calls) : calls.countP SeamCall.isFrame =
    calls.countP c.isDropped + calls.countP SeamCall.isWritten := by
  induction h with
  | nil => rfl
  | clock _ ih => simp [ih, SeamCall.isFrame, isDropped, SeamCall.isWritten]
  | event _ ih => simp [ih, SeamCall.isFrame, isDropped, SeamCall.isWritten]
  | idle _ ih => simp [ih, SeamCall.isFrame, isDropped, SeamCall.isWritten]
  | dropped _ hd ih =>
    simp [ih, hd, SeamCall.isFrame, SeamCall.isWritten]
    omega
  | forwarded _ hr ih =>
    simp only [List.countP_append, List.countP_cons, List.countP_nil, hr.not_dropped]
    simp [ih, SeamCall.isFrame, isDropped, SeamCall.isWritten]
    omega

theorem Traffic.not_fails (h : c.Traffic calls) : ∀ d ∈ calls, d.fails = false := by
  induction h with
  | nil => simp
  | forwarded _ _ ih =>
    intro d hd
    rcases List.mem_append.mp hd with hd | hd
    · exact ih d hd
    · rcases List.mem_cons.mp hd with rfl | hd
      · rfl
      · rw [List.mem_singleton.mp hd]
        simp [SeamCall.fails]
  | clock _ ih | event _ ih | idle _ ih | dropped _ _ ih =>
    intro d hd
    rcases List.mem_append.mp hd with hd | hd
    · exact ih d hd
    · rw [List.mem_singleton.mp hd]
      rfl

theorem Traffic.sends (h : c.Traffic calls) :
    ∀ d ∈ calls, d.isDeliver = false ∧
      ∀ id frame result, d = .send id frame result → c.Lawful id frame := by
  induction h with
  | nil => simp
  | forwarded _ hr ih =>
    intro d hd
    rcases List.mem_append.mp hd with hd | hd
    · exact ih d hd
    · rcases List.mem_cons.mp hd with rfl | hd
      · exact ⟨rfl, fun _ _ _ he => by cases he⟩
      · rw [List.mem_singleton.mp hd]
        refine ⟨rfl, ?_⟩
        rintro id frame result ⟨⟩
        exact hr.lawful
  | clock _ ih | event _ ih | idle _ ih | dropped _ _ ih =>
    intro d hd
    rcases List.mem_append.mp hd with hd | hd
    · exact ih d hd
    · rw [List.mem_singleton.mp hd]
      exact ⟨rfl, fun _ _ _ he => by cases he⟩

theorem Fault.counts {fault : List SeamCall} (h : c.Fault fault) :
    fault.countP c.isDropped = 0 ∧ fault.countP SeamCall.isWritten = 0 ∧
      fault.countP SeamCall.isFrame ≤ 1 := by
  cases h with
  | @send _ _ _ _ frame result hr hresult =>
    have hwritten : ∀ egress, SeamCall.isWritten (.send egress frame result) = false := by
      intro egress
      cases result with
      | error error => rfl
      | ok written => simpa [SeamCall.isWritten] using hresult
    simp only [List.countP_cons, List.countP_nil, hr.not_dropped, hwritten]
    simp [isDropped, SeamCall.isFrame, SeamCall.isWritten]
  | _ => simp [isDropped, SeamCall.isFrame, SeamCall.isWritten]

theorem Fault.sends {fault : List SeamCall} (h : c.Fault fault) :
    ∀ d ∈ fault, d.isDeliver = false ∧
      ∀ id frame result, d = .send id frame result → c.Lawful id frame := by
  cases h with
  | send hr _ =>
    intro d hd
    rcases List.mem_cons.mp hd with rfl | hd
    · exact ⟨rfl, fun _ _ _ he => by cases he⟩
    · rw [List.mem_singleton.mp hd]
      refine ⟨rfl, ?_⟩
      rintro id frame result ⟨⟩
      exact hr.lawful
  | _ =>
    intro d hd
    rw [List.mem_singleton.mp hd]
    exact ⟨rfl, fun _ _ _ he => by cases he⟩

/-- What failed is the last call of a fault. -/
theorem Fault.last {fault : List SeamCall} (h : c.Fault fault) :
    ∃ first d, fault = first ++ [d] ∧ d.fails = true ∧ ∀ e ∈ first, e.fails = false := by
  cases h with
  | @send id egress length buffer frame result _ hresult =>
    refine ⟨[.receive id (.ok (some length)) buffer], .send egress frame result, rfl, ?_, ?_⟩
    · cases result with
      | error error => rfl
      | ok written => simpa [SeamCall.fails] using hresult
    · intro e he
      rw [List.mem_singleton.mp he]
      rfl
  | _ => exact ⟨[], _, rfl, rfl, fun _ he => absurd he List.not_mem_nil⟩

theorem Halted.append (h : c.Halted calls) {d : SeamCall} (hd : d.isClock = true) :
    c.Halted (calls ++ [d]) := by
  obtain ⟨before, fault, after, rfl, hbefore, hfault, hafter⟩ := h
  refine ⟨before, fault, after ++ [d], by simp, hbefore, hfault, ?_⟩
  intro e he
  rcases List.mem_append.mp he with he | he
  · exact hafter e he
  · rw [List.mem_singleton.mp he]
    exact hd

theorem counts_of_clocks {after : List SeamCall} (h : ∀ d ∈ after, d.isClock = true) :
    after.countP c.isDropped = 0 ∧ after.countP SeamCall.isWritten = 0 ∧
      after.countP SeamCall.isFrame = 0 := by
  simp only [List.countP_eq_zero]
  refine ⟨?_, ?_, ?_⟩ <;>
  · intro d hd
    have := h d hd
    cases d <;> simp_all [SeamCall.isClock, isDropped, SeamCall.isWritten, SeamCall.isFrame]

/-- At most the frame of the fault is neither dropped nor sent. -/
theorem Halted.balance (h : c.Halted calls) :
    calls.countP c.isDropped + calls.countP SeamCall.isWritten ≤ calls.countP SeamCall.isFrame ∧
      calls.countP SeamCall.isFrame ≤
        calls.countP c.isDropped + calls.countP SeamCall.isWritten + 1 := by
  obtain ⟨before, fault, after, rfl, hbefore, hfault, hafter⟩ := h
  have hb := hbefore.balance
  obtain ⟨hfd, hfw, hff⟩ := hfault.counts
  obtain ⟨had, haw, haf⟩ := counts_of_clocks (c := c) hafter
  simp only [List.countP_append]
  omega

theorem Halted.sends (h : c.Halted calls) :
    ∀ d ∈ calls, d.isDeliver = false ∧
      ∀ id frame result, d = .send id frame result → c.Lawful id frame := by
  obtain ⟨before, fault, after, rfl, hbefore, hfault, hafter⟩ := h
  intro d hd
  rcases List.mem_append.mp hd with hd | hd
  · rcases List.mem_append.mp hd with hd | hd
    · exact hbefore.sends d hd
    · exact hfault.sends d hd
  · have hclock := hafter d hd
    cases d with
    | clock result => exact ⟨rfl, fun _ _ _ he => by cases he⟩
    | _ => cases hclock

/-- The call that fails is followed by readings of the clock only. -/
theorem Halted.after_failure (h : c.Halted calls) {first rest : List SeamCall} {d : SeamCall}
    (hsplit : calls = first ++ d :: rest) (hd : d.fails = true) : ∀ e ∈ rest, e.isClock = true := by
  obtain ⟨before, fault, after, rfl, hbefore, hfault, hafter⟩ := h
  obtain ⟨init, last, rfl, -, hinit⟩ := hfault.last
  have hsound : ∀ e ∈ before ++ init, e.fails = false := by
    intro e he
    rcases List.mem_append.mp he with he | he
    · exact hbefore.not_fails e he
    · exact hinit e he
  have hsame : first ++ d :: rest = (before ++ init) ++ last :: after := by
    rw [← hsplit]
    simp
  rcases List.append_eq_append_iff.mp hsame with ⟨mid, hmid, hrest⟩ | ⟨mid, -, hrest⟩
  · cases mid with
    | nil =>
      obtain ⟨-, rfl⟩ := List.cons.inj hrest
      exact hafter
    | cons x mid =>
      obtain ⟨rfl, -⟩ := List.cons.inj hrest
      have := hsound d (hmid ▸ by simp)
      rw [hd] at this
      cases this
  · intro e he
    cases mid with
    | nil =>
      obtain ⟨-, rfl⟩ := List.cons.inj hrest
      exact hafter e he
    | cons x mid =>
      obtain ⟨-, rfl⟩ := List.cons.inj hrest
      exact hafter e (by simp [he])

end NativeSetup

/-- A runtime of this setup against the calls it has made. -/
structure Tracks (c : NativeSetup) (r : NativeRuntime) (calls : List SeamCall) : Prop where
  setup : r.toNativeSetup = c
  counts : c.Counts r.telemetry calls
  running : r.stopped = false → r.telemetry.faults = 0 ∧ c.Traffic calls
  halted : r.stopped = true → r.telemetry.faults = 1 ∧ c.Halted calls

/-- A turn that left a runtime tracking its calls, with an error exactly where it stopped. -/
def Settles {σ : Type*} (c : NativeSetup) (t : Turn σ) : Prop :=
  Tracks c t.2.1 t.2.2.calls ∧ (t.1 = .ok () ↔ t.2.1.stopped = false)

section Turns

variable {σ : Type*} {c : NativeSetup} {r : NativeRuntime} {w w' : World σ} {io : NativeIo σ}
  {events : EventSource σ} {sessions : SessionDelivery σ} {clock : Clock σ} {id : U32}
  {calls : List SeamCall} {error : NativeError}

@[simp] theorem satAdd_zero (a : U64) : satAdd a 0 = a := by
  apply Fin.ext
  rw [satAdd_val]
  omega

theorem stop_stop (r : NativeRuntime) : r.stop.stop = r.stop := by
  unfold NativeRuntime.stop
  by_cases h : r.stopped = true
  · simp [h]
  · simp [h]

/-- A call that moves no frame. -/
theorem Tracks.quiet (h : Tracks c r calls) (hs : r.stopped = false) {d : SeamCall}
    (htraffic : c.Traffic (calls ++ [d])) (hd : c.isDropped d = false)
    (hw : d.isWritten = false) (hf : d.isFrame = false) : Tracks c r (calls ++ [d]) where
  setup := h.setup
  counts := h.counts.append (by simp [hf]) (by simp [hd]) (by simp [hw]) rfl
  running := fun _ => ⟨(h.running hs).1, htraffic⟩
  halted := fun hstopped => by simp [hs] at hstopped

/-- A fault stops a runtime whose counters have taken the calls of the fault in. -/
theorem settles_fatal (hsetup : r.toNativeSetup = c) (hs : r.stopped = false)
    (hfaults : r.telemetry.faults = 0) (htraffic : c.Traffic calls) {fault : List SeamCall}
    (hfault : c.Fault fault) (hw : w.calls = calls ++ fault)
    (hcounts : c.Counts r.telemetry w.calls) : Settles c (r.fatal error w) := by
  have hstop : r.stop = { r with
      stopped := true
      telemetry := { r.telemetry with faults := satAdd r.telemetry.faults 1 } } := by
    rw [NativeRuntime.stop, hs]
    rfl
  refine ⟨⟨?_, ?_, ?_, ?_⟩, ?_⟩
  · simp only [NativeRuntime.fatal, hstop, hsetup]
  · obtain ⟨hreceived, hdropped, hforwarded, hdelivered⟩ := hcounts
    simp only [NativeRuntime.fatal, hstop]
    exact ⟨hreceived, hdropped, hforwarded, hdelivered⟩
  · simp [NativeRuntime.fatal, hstop]
  · intro _
    simp only [NativeRuntime.fatal, hstop, hfaults, hw]
    exact ⟨rfl, calls, fault, [], by simp, htraffic, hfault, by simp⟩
  · simp [NativeRuntime.fatal, hstop]

/-- The daemon's answer to a failure that moved no frame. -/
theorem Tracks.settles_fatal (h : Tracks c r calls) (hs : r.stopped = false) {d : SeamCall}
    (hfault : c.Fault [d]) (hf : d.isFrame = false) (hw : w.calls = calls ++ [d]) :
    Settles c (r.fatal error w) := by
  obtain ⟨hfaults, htraffic⟩ := h.running hs
  obtain ⟨hdropped, hwritten, -⟩ := hfault.counts
  refine Forward.settles_fatal h.setup hs hfaults htraffic hfault hw ?_
  rw [hw]
  exact h.counts.append (by simp [hf]) (by simp [hdropped]) (by simp [hwritten]) rfl

theorem Tracks.settles (h : Tracks c r w.calls) (hs : r.stopped = false) :
    Settles c ((.ok (), r, w) : Turn σ) := ⟨h, by simp [hs]⟩

/-- Sending the frame of a relay writes it whole, or stops the runtime. -/
theorem send_cases (io : NativeIo σ) {destination source : Bytes 6} {packet : List Byte}
    (hmac : r.localMacs.lookup id = some source)
    (hbuild : Native.buildEthernetFrame destination source packet =
      .ok (buildEthernetFrame destination source packet)) :
    ∃ result w',
      w'.calls = w.calls ++ [.send id (buildEthernetFrame destination source packet) result] ∧
      ((result = .ok (buildEthernetFrame destination source packet).length ∧
          r.send io id destination packet w = (.ok (), r.countForwarded, w')) ∨
        (result ≠ .ok (buildEthernetFrame destination source packet).length ∧
          ∃ error, r.send io id destination packet w = (.error error, r.stop, w'))) := by
  have hmac' : r.mac id = .ok source := by
    rw [NativeRuntime.mac, hmac]
  rcases hio : io.send w.seams id (buildEthernetFrame destination source packet) with
    ⟨result, seams⟩
  refine ⟨result, ⟨seams, w.calls ++ [.send id _ result]⟩, rfl, ?_⟩
  simp only [NativeRuntime.send, hmac', hbuild, World.send, hio]
  cases result with
  | error error => exact .inr ⟨by simp, error, rfl⟩
  | ok written =>
    dsimp only
    by_cases hlen : written = (buildEthernetFrame destination source packet).length
    · exact .inl ⟨by rw [hlen], by rw [if_pos hlen]⟩
    · refine .inr ⟨by simpa using hlen, .shortWrite, ?_⟩
      rw [if_neg hlen]
      rfl

theorem Tracks.dropped (h : Tracks c r calls) (hs : r.stopped = false) {length : ℕ}
    {buffer : Bytes RECEIVE_CAPACITY}
    (hd : c.isDropped (.receive id (.ok (some length)) buffer) = true) :
    Tracks c (r.countReceived id).countDropped
      (calls ++ [.receive id (.ok (some length)) buffer]) where
  setup := h.setup
  counts := by
    refine h.counts.append ?_ ?_ ?_ rfl
    · simp [NativeRuntime.countReceived, NativeRuntime.countDropped, SeamCall.isFrame]
    · simp [NativeRuntime.countReceived, NativeRuntime.countDropped, hd]
    · simp [NativeRuntime.countReceived, NativeRuntime.countDropped, SeamCall.isWritten]
  running := fun _ => ⟨(h.running hs).1, .dropped (h.running hs).2 hd⟩
  halted := fun hstopped => by
    change r.stopped = true at hstopped
    simp [hs] at hstopped

theorem Tracks.forwarded (h : Tracks c r calls) (hs : r.stopped = false) {length : ℕ}
    {buffer : Bytes RECEIVE_CAPACITY} {egress : U32} {frame : List Byte}
    (hr : c.Relays id length buffer egress frame) :
    Tracks c (r.countReceived id).countForwarded
      (calls ++ [.receive id (.ok (some length)) buffer,
        .send egress frame (.ok frame.length)]) where
  setup := h.setup
  counts := by
    refine h.counts.append ?_ ?_ ?_ rfl
    · rfl
    · simp only [List.countP_cons, hr.not_dropped]
      simp [NativeRuntime.countReceived, NativeRuntime.countForwarded, NativeSetup.isDropped]
    · simp [NativeRuntime.countReceived, NativeRuntime.countForwarded, SeamCall.isWritten]
  running := fun _ => ⟨(h.running hs).1, .forwarded (h.running hs).2 hr⟩
  halted := fun hstopped => by
    change r.stopped = true at hstopped
    simp [hs] at hstopped

/-- A frame that came in but did not go out whole: it is counted as received only. -/
theorem Tracks.unsent (h : Tracks c r calls) (hs : r.stopped = false) {length : ℕ}
    {buffer : Bytes RECEIVE_CAPACITY} {egress : U32} {frame : List Byte}
    {result : Except NativeError ℕ} (hr : c.Relays id length buffer egress frame)
    (hresult : result ≠ .ok frame.length)
    (hw : w.calls = calls ++ [.receive id (.ok (some length)) buffer, .send egress frame result]) :
    Settles c ((r.countReceived id).fatal error w) := by
  obtain ⟨hfaults, htraffic⟩ := h.running hs
  have hfault : c.Fault [.receive id (.ok (some length)) buffer, .send egress frame result] :=
    .send hr hresult
  obtain ⟨hdropped, hwritten, -⟩ := hfault.counts
  refine Forward.settles_fatal h.setup hs hfaults htraffic hfault hw ?_
  rw [hw]
  refine h.counts.append ?_ ?_ ?_ rfl
  · rfl
  · rw [hdropped]
    simp [NativeRuntime.countReceived]
  · rw [hwritten]
    simp [NativeRuntime.countReceived]

/-- One descriptor's part of a step: delivery never comes up, and a forward always has a frame. -/
theorem receiveFrom_settles (h : Tracks c r w.calls) (hs : r.stopped = false) :
    Settles c (r.receiveFrom io sessions id w) := by
  obtain ⟨-, htraffic⟩ := h.running hs
  rcases hio : io.receive w.seams id with ⟨result, buffer, seams⟩
  simp only [NativeRuntime.receiveFrom, World.receive, hio]
  cases result with
  | error error => exact h.settles_fatal hs (.receive id error buffer) rfl rfl
  | ok received =>
    cases received with
    | none => exact (h.quiet hs (.idle htraffic) rfl rfl rfl).settles hs
    | some length =>
      dsimp only
      obtain rfl := h.setup
      by_cases hlong : ETHERNET_HEADER_LEN + SERIALIZED_R8_MAX < length
      · rw [if_pos hlong]
        exact (h.dropped hs (by simp [NativeSetup.isDropped, hlong])).settles hs
      rw [if_neg hlong]
      cases hp : processFrame (r.countReceived id).manifest (r.countReceived id).budgets id
          (buffer.val.take length) with
      | drop reason =>
        have hd : r.isDropped (.receive id (.ok (some length)) buffer) = true := by
          change processFrame r.manifest r.budgets id _ = _ at hp
          simp [NativeSetup.isDropped, hp, FrameAction.isDrop]
        exact (h.dropped hs hd).settles hs
      | deliver packet binding => exact absurd hp (processFrame_ne_deliver r.no_locals)
      | forward packet egress mac =>
        obtain ⟨source, hlookup, hmem, hbuild⟩ := NativeSetup.forward_built hp
        have hr : r.Relays id length buffer egress (buildEthernetFrame mac source packet) :=
          ⟨not_lt.mp hlong, packet, mac, source, hp, hmem, rfl⟩
        obtain ⟨result, w', hcalls, ⟨hresult, hsend⟩ | ⟨hresult, error, hsend⟩⟩ :=
          send_cases io (r := r.countReceived id)
            (w := ⟨seams, w.calls ++ [.receive id (.ok (some length)) buffer]⟩) hlookup hbuild
        · subst hresult
          have htracks := h.forwarded hs hr
          rw [List.append_cons, ← hcalls] at htracks
          dsimp only
          rw [hsend]
          exact htracks.settles hs
        · rw [List.append_assoc] at hcalls
          dsimp only
          rw [hsend]
          -- The runtime has stopped in `send`, and stopping it again changes nothing.
          have hsettles : Settles _ ((r.countReceived id).fatal error w') :=
            h.unsent hs hr hresult hcalls
          simpa only [NativeRuntime.fatal, stop_stop] using hsettles

theorem receiveAll_settles (ids : List U32) (h : Tracks c r w.calls) (hs : r.stopped = false) :
    Settles c (NativeRuntime.receiveAll io sessions ids r w) := by
  induction ids generalizing r w with
  | nil => exact h.settles hs
  | cons id ids ih =>
    have hsettles : Settles c (r.receiveFrom io sessions id w) := receiveFrom_settles h hs
    rcases hout : r.receiveFrom io sessions id w with ⟨result, r', w'⟩
    rw [hout] at hsettles
    obtain ⟨htracks, hresult⟩ := hsettles
    simp only [NativeRuntime.receiveAll, hout]
    cases result with
    | error error => exact ⟨htracks, hresult⟩
    | ok u => exact ih htracks (hresult.mp rfl)

theorem step_settles (h : Tracks c r w.calls) : Settles c (r.step io events sessions w) := by
  unfold NativeRuntime.step
  by_cases hs : r.stopped = true
  · rw [if_pos hs]
    exact ⟨h, by simp [hs]⟩
  rw [if_neg hs]
  have hs : r.stopped = false := by simpa using hs
  rcases hevent : events.event w.seams with ⟨result, seams⟩
  simp only [World.event, hevent]
  cases result with
  | error error => exact h.settles_fatal hs (.event error) rfl rfl
  | ok revoked =>
    cases revoked with
    | true => exact h.settles_fatal hs .revoked rfl rfl
    | false => exact receiveAll_settles _ (h.quiet hs (.event (h.running hs).2) rfl rfl rfl) hs

/-- A stopped runtime stays as it is, and has the clock read. -/
theorem Tracks.late (h : Tracks c r calls) (hs : r.stopped = true) {d : SeamCall}
    (hd : d.isClock = true) : Tracks c r (calls ++ [d]) where
  setup := h.setup
  counts := by
    cases d with
    | clock result =>
      refine h.counts.append ?_ ?_ ?_ rfl
      · simp [SeamCall.isFrame]
      · simp [NativeSetup.isDropped]
      · simp [SeamCall.isWritten]
    | _ => cases hd
  running := fun hrunning => by simp [hs] at hrunning
  halted := fun _ => ⟨(h.halted hs).1, (h.halted hs).2.append hd⟩

theorem stepWithClock_settles (h : Tracks c r w.calls) :
    Settles c (r.stepWithClock io events sessions clock w) := by
  rcases hnow : clock.now w.seams with ⟨result, seams⟩
  simp only [NativeRuntime.stepWithClock, World.now, hnow]
  cases hs : r.stopped with
  | true =>
    have hlate : Tracks c r (w.calls ++ [.clock result]) := h.late hs rfl
    cases result with
    | error error =>
      have hstop : r.stop = r := by
        rw [NativeRuntime.stop, if_pos hs]
      simp only [NativeRuntime.fatal, hstop]
      exact ⟨hlate, by simp [hs]⟩
    | ok u => exact step_settles hlate
  | false =>
    cases result with
    | error error => exact h.settles_fatal hs (.clock error) rfl rfl
    | ok u => exact step_settles (h.quiet hs (.clock (h.running hs).2) rfl rfl rfl)

theorem turn_settles (s : NativeRuntime × World σ) (call : RuntimeCall σ)
    (h : Tracks c s.1 s.2.calls) : Tracks c (call.next s).1 (call.next s).2.calls ∧
      ((call.turn s).1 = .ok () ↔ (call.next s).1.stopped = false) := by
  cases call with
  | step io events sessions => exact step_settles h
  | stepWithClock io events sessions clock => exact stepWithClock_settles h

/-- What a stopped runtime does in a turn: it reads the clock at most, and errs. -/
theorem turn_stopped {s : NativeRuntime × World σ} (hs : s.1.stopped = true)
    (call : RuntimeCall σ) :
    (call.turn s).1 ≠ .ok () ∧ (call.next s).1 = s.1 ∧
      ∃ extra, (call.next s).2.calls = s.2.calls ++ extra ∧ ∀ e ∈ extra, e.isClock = true := by
  cases call with
  | step io events sessions =>
    simp only [RuntimeCall.next, RuntimeCall.turn, NativeRuntime.step, if_pos hs]
    exact ⟨by simp, trivial, [], by simp, by simp⟩
  | stepWithClock io events sessions clock =>
    rcases hnow : clock.now s.2.seams with ⟨result, seams⟩
    simp only [RuntimeCall.next, RuntimeCall.turn, NativeRuntime.stepWithClock, World.now, hnow]
    have hextra : ∀ e ∈ [SeamCall.clock result], e.isClock = true := by
      intro e he
      rw [List.mem_singleton.mp he]
      rfl
    cases result with
    | error error =>
      refine ⟨by simp [NativeRuntime.fatal], ?_, _, rfl, hextra⟩
      simp only [NativeRuntime.fatal, NativeRuntime.stop, if_pos hs]
    | ok u =>
      simp only [NativeRuntime.step, if_pos hs]
      exact ⟨by simp, trivial, _, rfl, hextra⟩

end Turns

/-- The runtime and its world after a run of the owner's calls. -/
def daemon {σ : Type*} (r : NativeRuntime) (seams : σ) (run : List (RuntimeCall σ)) :
    NativeRuntime × World σ := Machine.exec RuntimeCall.next (r, ⟨seams, []⟩) run

/-- What holds of a daemon at every point of a run, by the calls it has made of its seams. -/
structure FailStop (c : NativeSetup) (r : NativeRuntime) (calls : List SeamCall) : Prop where
  setup : r.toNativeSetup = c
  faults : (r.telemetry.faults : ℕ) = if r.stopped then 1 else 0
  failed : r.stopped = true ↔ ∃ d ∈ calls, d.fails = true
  last : ∀ first d rest, calls = first ++ d :: rest → d.fails = true → ∀ e ∈ rest, e.isClock = true
  counts : c.Counts r.telemetry calls
  running : r.stopped = false → (r.telemetry.received : ℕ) < 2 ^ 64 - 1 →
    (r.telemetry.received : ℕ) = r.telemetry.dropped + r.telemetry.forwarded
  atFault : (r.telemetry.received : ℕ) < 2 ^ 64 - 1 →
    (r.telemetry.dropped : ℕ) + r.telemetry.forwarded ≤ r.telemetry.received ∧
    (r.telemetry.received : ℕ) ≤ r.telemetry.dropped + r.telemetry.forwarded + 1
  lawful : ∀ id frame result, .send id frame result ∈ calls → c.Lawful id frame
  undelivered : r.telemetry.delivered = 0 ∧ ∀ d ∈ calls, d.isDeliver = false
  -- The branches of the source that are never taken.
  not_deliver : ∀ id frame packet binding,
    processFrame r.manifest r.budgets id frame ≠ .deliver packet binding
  built : ∀ id frame packet egress destination,
    processFrame r.manifest r.budgets id frame = .forward packet egress destination →
    ∃ source, r.mac egress = .ok source ∧ Native.buildEthernetFrame destination source packet =
      .ok (buildEthernetFrame destination source packet)

/-- A daemon that erred in reaching `s`, whenever after that: it has stopped with one fault, errs
in every call, and has called no seam but the clock since. -/
structure StaysStopped {σ : Type*} (s t : NativeRuntime × World σ) : Prop where
  stopped : t.1.stopped = true
  faults : (t.1.telemetry.faults : ℕ) = 1
  errs : ∀ call : RuntimeCall σ, (call.turn t).1 ≠ .ok ()
  silent : ∃ extra, t.2.calls = s.2.calls ++ extra ∧ ∀ e ∈ extra, e.isClock = true

section Runs

variable {σ : Type*} {c : NativeSetup} {r : NativeRuntime} {calls : List SeamCall}
  {s : NativeRuntime × World σ}

theorem Tracks.faults_eq (h : Tracks c r calls) :
    (r.telemetry.faults : ℕ) = if r.stopped then 1 else 0 := by
  cases hs : r.stopped with
  | false =>
    rw [(h.running hs).1]
    rfl
  | true =>
    rw [(h.halted hs).1]
    rfl

theorem Tracks.stopped_iff (h : Tracks c r calls) :
    r.stopped = true ↔ ∃ d ∈ calls, d.fails = true := by
  cases hs : r.stopped with
  | false =>
    have hsound := (h.running hs).2.not_fails
    refine ⟨fun hf => absurd hf Bool.false_ne_true, ?_⟩
    rintro ⟨d, hd, hfails⟩
    rw [hsound d hd] at hfails
    exact hfails
  | true =>
    obtain ⟨before, fault, after, rfl, -, hfault, -⟩ := (h.halted hs).2
    obtain ⟨first, d, rfl, hd, -⟩ := hfault.last
    exact ⟨fun _ => ⟨d, by simp, hd⟩, fun _ => rfl⟩

theorem Tracks.after_failure (h : Tracks c r calls) {first rest : List SeamCall} {d : SeamCall}
    (hsplit : calls = first ++ d :: rest) (hd : d.fails = true) : ∀ e ∈ rest, e.isClock = true := by
  cases hs : r.stopped with
  | false =>
    have hsound := (h.running hs).2.not_fails d (by simp [hsplit])
    rw [hd] at hsound
    cases hsound
  | true => exact (h.halted hs).2.after_failure hsplit hd

theorem Tracks.sends (h : Tracks c r calls) : ∀ d ∈ calls, d.isDeliver = false ∧
    ∀ id frame result, d = .send id frame result → c.Lawful id frame := by
  cases hs : r.stopped with
  | false => exact (h.running hs).2.sends
  | true => exact (h.halted hs).2.sends

theorem Tracks.balance (h : Tracks c r calls) :
    calls.countP c.isDropped + calls.countP SeamCall.isWritten ≤ calls.countP SeamCall.isFrame ∧
      calls.countP SeamCall.isFrame ≤
        calls.countP c.isDropped + calls.countP SeamCall.isWritten + 1 := by
  cases hs : r.stopped with
  | false =>
    have := (h.running hs).2.balance
    omega
  | true => exact (h.halted hs).2.balance

theorem Tracks.failStop (h : Tracks c r calls) : FailStop c r calls := by
  obtain ⟨hreceived, hdropped, hforwarded, hdelivered⟩ := h.counts
  refine ⟨h.setup, h.faults_eq, h.stopped_iff, fun first d rest => h.after_failure, h.counts,
    ?_, ?_, fun id frame result hmem => (h.sends _ hmem).2 id frame result rfl,
    ⟨hdelivered, fun d hd => (h.sends d hd).1⟩, ?_, ?_⟩
  · intro hs hbelow
    have hbalance := (h.running hs).2.balance
    omega
  · intro hbelow
    have hbalance := h.balance
    omega
  · intro id frame packet binding
    exact processFrame_ne_deliver r.no_locals
  · intro id frame packet egress destination hforward
    obtain ⟨source, hlookup, -, hbuild⟩ := NativeSetup.forward_built hforward
    refine ⟨source, ?_, hbuild⟩
    rw [NativeRuntime.mac, hlookup]

theorem exec_tracks (h : Tracks c s.1 s.2.calls) (run : List (RuntimeCall σ)) :
    Tracks c (Machine.exec RuntimeCall.next s run).1
      (Machine.exec RuntimeCall.next s run).2.calls := by
  induction run generalizing s with
  | nil => exact h
  | cons call run ih => exact ih (turn_settles s call h).1

theorem exec_stopped (hs : s.1.stopped = true) (run : List (RuntimeCall σ)) :
    (Machine.exec RuntimeCall.next s run).1 = s.1 ∧
      ∃ extra, (Machine.exec RuntimeCall.next s run).2.calls = s.2.calls ++ extra ∧
        ∀ e ∈ extra, e.isClock = true := by
  induction run generalizing s with
  | nil => exact ⟨rfl, [], by simp [Machine.exec], by simp⟩
  | cons call run ih =>
    obtain ⟨-, hsame, extra, hextra, hclock⟩ := turn_stopped hs call
    obtain ⟨hr, extra', hextra', hclock'⟩ := ih (s := call.next s) (hsame ▸ hs)
    refine ⟨hr.trans hsame, extra ++ extra', ?_, ?_⟩
    · rw [← List.append_assoc, ← hextra]
      exact hextra'
    · intro e he
      rcases List.mem_append.mp he with he | he
      · exact hclock e he
      · exact hclock' e he

theorem new_eq_ok {manifest sized : NativeManifest} {budgets : DescriptorBudgets sized}
    {localMacs : List (U32 × Bytes 6)} (h : NativeRuntime.new manifest budgets localMacs = .ok r) :
    r.manifest = manifest ∧ r.localMacs = localMacs ∧
      (∀ id, r.budgets.get id = budgets.get id) ∧
      r.telemetry = ⟨0, 0, 0, 0, 0, 0⟩ ∧ r.stopped = false := by
  unfold NativeRuntime.new at h
  split at h
  · cases h
  split at h
  · cases h
  · obtain rfl := Except.ok.inj h
    exact ⟨rfl, rfl, fun _ => rfl, rfl, rfl⟩

theorem daemon_tracks {manifest sized : NativeManifest} {budgets : DescriptorBudgets sized}
    {localMacs : List (U32 × Bytes 6)} (hnew : NativeRuntime.new manifest budgets localMacs = .ok r)
    (seams : σ) (run : List (RuntimeCall σ)) :
    Tracks r.toNativeSetup (daemon r seams run).1 (daemon r seams run).2.calls := by
  obtain ⟨-, -, -, htelemetry, hstopped⟩ := new_eq_ok hnew
  have hstart : Tracks r.toNativeSetup r [] := by
    refine ⟨rfl, ?_, ?_, ?_⟩
    · constructor <;> rw [htelemetry] <;> rfl
    · intro _
      rw [htelemetry]
      exact ⟨rfl, .nil⟩
    · intro hs
      simp [hstopped] at hs
  exact exec_tracks (s := (r, ⟨seams, []⟩)) hstart run

end Runs

/-- The daemon stops at its first error and accounts for every frame, whatever its seams do. -/
theorem daemon_fail_stop {σ : Type*} {manifest sized : NativeManifest}
    {budgets : DescriptorBudgets sized} {localMacs : List (U32 × Bytes 6)} {r : NativeRuntime}
    (hnew : NativeRuntime.new manifest budgets localMacs = .ok r) (seams : σ)
    (run : List (RuntimeCall σ)) :
    r.manifest = manifest ∧ r.localMacs = localMacs ∧
      (∀ id, r.budgets.get id = budgets.get id) ∧
      FailStop r.toNativeSetup (daemon r seams run).1 (daemon r seams run).2.calls ∧
      ∀ call : RuntimeCall σ, (call.turn (daemon r seams run)).1 ≠ .ok () →
        ∀ later, StaysStopped (daemon r seams (run ++ [call]))
          (daemon r seams (run ++ call :: later)) := by
  obtain ⟨hmanifest, hmacs, hbudgets, -, -⟩ := new_eq_ok hnew
  have htracks := daemon_tracks hnew seams run
  refine ⟨hmanifest, hmacs, hbudgets, htracks.failStop, ?_⟩
  intro call herr later
  obtain ⟨hcall, hresult⟩ := turn_settles _ call htracks
  have hsplit : ∀ more, daemon r seams (run ++ call :: more) =
      Machine.exec RuntimeCall.next (call.next (daemon r seams run)) more := by
    intro more
    simp only [daemon, Machine.exec, List.foldl_append, List.foldl_cons]
  have hs : (call.next (daemon r seams run)).1.stopped = true := by
    by_contra hs
    exact herr (hresult.mpr (by simpa using hs))
  obtain ⟨hsame, hsilent⟩ := exec_stopped hs later
  rw [hsplit [], hsplit later]
  have hlater : (Machine.exec RuntimeCall.next (call.next (daemon r seams run)) later).1.stopped =
      true := by
    rw [hsame]
    exact hs
  refine ⟨hlater, ?_, fun call' => (turn_stopped hlater call').1, hsilent⟩
  rw [hsame, (hcall.halted hs).1]
  rfl

namespace Sample

/-- Two ports, with a route out of the second. -/
def ports : NativeManifest where
  localLocs := []
  interfaces := [⟨1, "left", [bytesOf 6 2], false, true, by decide, by decide, by decide, by decide,
      by decide⟩,
    ⟨2, "right", [bytesOf 6 4], false, true, by decide, by decide, by decide, by decide, by decide⟩]
  routes := [⟨⟨32 :: List.replicate 15 0, rfl⟩, 8, 2, bytesOf 6 4, by decide, by decide, by decide,
    by decide, by decide⟩]
  locs_nodup := by decide
  ids_nodup := by decide
  names_nodup := by decide
  egress_known := by decide
  routes_nodup := by decide

def portBudgets : DescriptorBudgets ports where
  values := [(1, 1280), (2, 64)]
  bounded := by decide
  keys_nodup := by decide
  exactly := by decide
  complete := by decide

def portMacs : List (U32 × Bytes 6) := [(1, bytesOf 6 6), (2, bytesOf 6 8)]

def relay : NativeRuntime where
  manifest := ports
  sized := ports
  budgets := portBudgets
  localMacs := portMacs
  no_locals := rfl
  macs_length := rfl
  macs_known := by decide
  macs_nodup := by decide
  budgeted := by decide
  telemetry := ⟨0, 0, 0, 0, 0, 0⟩
  stopped := false

theorem relay_new : NativeRuntime.new ports portBudgets portMacs = .ok relay := by
  unfold NativeRuntime.new
  rw [dif_neg (by decide), dif_neg (by decide)]
  rfl

def arriving : List Byte :=
  List.replicate 6 6 ++ List.replicate 6 2 ++ u16Bytes R8_ETHERTYPE ++
    [128, 0, 0, 0, 59, 9, 0, 0] ++ List.replicate 8 0 ++ List.replicate 16 1 ++
    32 :: List.replicate 15 7

/-- A frame on the first port whenever it is asked, and sends that write so many bytes. -/
def wire (written : ℕ) : NativeIo Unit where
  receive _ id :=
    if id = 1 then (.ok (some 62), ⟨arriving ++ List.replicate 1233 0, by
      rw [List.length_append, List.length_replicate]
      rfl⟩, ())
    else (.ok none, bytesOf _ 0, ())
  send _ _ _ := (.ok written, ())

def calm : EventSource Unit := ⟨fun _ => (.ok false, ())⟩

def sink : SessionDelivery Unit := ⟨fun _ _ _ => (.ok (), ())⟩

def round (written : ℕ) : RuntimeCall Unit := .step (wire written) calm sink

end Sample

/-- The second frame goes out one byte short, and a third is not even asked for. -/
theorem daemon_fail_stop_short_write :
    FailStop Sample.relay.toNativeSetup (daemon Sample.relay () [Sample.round 62]).1
        (daemon Sample.relay () [Sample.round 62]).2.calls ∧
      StaysStopped (daemon Sample.relay () [Sample.round 62, Sample.round 61])
        (daemon Sample.relay () [Sample.round 62, Sample.round 61, Sample.round 62]) := by
  obtain ⟨-, -, -, hstop, hstays⟩ := daemon_fail_stop Sample.relay_new () [Sample.round 62]
  exact ⟨hstop, hstays (Sample.round 61) (by decide +kernel) [Sample.round 62]⟩

end R8.Forward
