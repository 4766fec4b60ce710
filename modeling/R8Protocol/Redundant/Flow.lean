import R8Protocol.Lib.Trail
import R8Protocol.Redundant.Exchange
import R8Protocol.Redundant.Stays

/-! All that one session sends reaches its peer in order: which packets the peer accepts. -/
namespace R8.Redundant

open FixedWidth Wire Session Mobility
open Channel (Side)

/-- What two mirrored sessions agree on, slot by slot. -/
structure Pact where
  scid : U64
  key : Side → Fin 2 → Bytes 32
  loc : Side → Fin 2 → Bytes 16
  budget : Fin 2 → ℕ

/-- The header of all that the left side sends on a slot. -/
def Pact.header (P : Pact) (i : Fin 2) : Header :=
  slotHeader i P.scid (P.loc .left i) (P.loc .right i)

/-- Slot one is taken into use with the LOCs and the budget of the pact. -/
def Pact.Agrees (P : Pact) (side : Side) : Call → Prop
  | .activate admission budget _ => budget = P.budget 1 ∧ admission.localLoc = P.loc side 1 ∧
      admission.peerLoc = P.loc side.peer 1
  | _ => True

/-- Every session is made with the budget of the bootstrap, whatever the budget of its slot is. -/
structure Drawn (P : Pact) (s : RedundantSession) : Prop where
  boot : ∀ b ∈ s.bootstrap, b.scid = P.scid ∧ b.budget = P.budget 0
  session : ∀ i, ∀ d ∈ (s.paths i).session, d.receiveBudget = P.budget 0

/-- A slot in use has the ends and the budget of the pact. -/
structure Path.Placed (P : Pact) (side : Side) (i : Fin 2) (p : Path) : Prop where
  binding : ∀ binding ∈ p.binding, binding.Valid
  localLoc : p.localLoc = some (P.loc side i)
  peerLoc : p.peerLoc = some (P.loc side.peer i)
  budget : p.budget = P.budget i

structure Settled (C : Crypto) (P : Pact) (side : Side) (s : RedundantSession) : Prop where
  sound : s.Sound
  supplied : Supplied s
  keyed : Keyed C (P.key side) (P.key side.peer) s
  drawn : Drawn P s
  placed : ∀ i, (s.paths i).state = .active → (s.paths i).Placed P side i

section

variable {C : Crypto} {P : Pact} {side : Side} {g : Option ℕ} {s s' : RedundantSession}
  {calls : List SealCall} {heard sent : Prop} {p p' : Path} {i : Fin 2}

theorem Drawn.setPath (h : Drawn P s) (i : Fin 2) {p : Path}
    (hp : ∀ d ∈ p.session, d.receiveBudget = P.budget 0) : Drawn P (s.setPath i p) := by
  refine ⟨h.boot, ?_⟩
  intro j d hd
  by_cases hj : j = i
  · subst hj
    exact hp d (by simpa [RedundantSession.setPath] using hd)
  · exact h.session j d (by simpa [RedundantSession.setPath, hj] using hd)

theorem Drawn.spent (h : Drawn P s) {b : Profile3Bootstrap} (hb : s.bootstrap = some b) :
    Drawn P { s with bootstrap := some { b with schedule := none } } := by
  refine ⟨?_, h.session⟩
  intro b' hb'
  obtain rfl := Option.mem_some_iff.mp hb'
  exact h.boot b hb

theorem Move.drawn (hm : Move C g s calls s') (h : Drawn P s) : Drawn P s' := by
  cases hm with
  | frame hf =>
    refine ⟨?_, ?_⟩
    · rw [hf.bootstrap]
      exact h.boot
    · rw [hf.paths]
      exact h.session
  | issue => exact ⟨h.boot, h.session⟩
  | reread i d w hd =>
    refine h.setPath i ?_
    intro d' hd'
    obtain rfl := Option.mem_some_iff.mp hd'
    exact h.session i d hd
  | count i d c hd =>
    refine h.setPath i ?_
    intro d' hd'
    obtain rfl := Option.mem_some_iff.mp hd'
    exact h.session i d hd
  | send i d d' call out plaintext hd hs =>
    refine h.setPath i ?_
    intro e he
    obtain rfl := Option.mem_some_iff.mp he
    rw [hs.next]
    exact h.session i d hd
  | pop i => exact h.setPath i (h.session i)
  | spend b hb => exact h.spent hb
  | use b admission budget owner d hb ha h1 hbudget hd =>
    obtain ⟨schedule, k₁, k₂, -, -, -, rfl⟩ := takeSlot1AfterAdmission_ok hd
    refine (h.spent hb).setPath 1 ?_
    intro d' hd'
    obtain rfl := Option.mem_some_iff.mp hd'
    exact (h.boot b hb).2
  | retire i => exact h.setPath i (by simp [Path.clear])
  | remember id bytes nowMs =>
    obtain ⟨dedup, hframe⟩ := remember_frame C s id bytes nowMs
    rw [hframe]
    exact ⟨h.boot, h.session⟩
  | close hc =>
    refine ⟨by simp [hc.bootstrap], ?_⟩
    intro i d hd
    simp [hc.paths, Path.clear] at hd

theorem Moves.drawn (hm : Moves C g s calls s') : Drawn P s → Drawn P s' :=
  hm.preserves (P := fun s t => Drawn P s → Drawn P t) (fun _ => id) (fun h h' => h' ∘ h) Move.drawn

theorem Path.Stays.placed (h : p.Stays heard sent p') (hp : p.Placed P side i) :
    p'.Placed P side i := by
  refine ⟨?_, h.localLoc.trans hp.localLoc, h.peerLoc.trans hp.peerLoc, h.budget.trans hp.budget⟩
  rw [h.binding]
  exact hp.binding

/-- What the moves of a call and its hold on the slots keep between them. -/
theorem Settled.stays (h : Settled C P side s) (hm : Moves C g s calls s')
    (hst : Stays heard sent s s') : Settled C P side s' := by
  refine ⟨hm.lawful.sound h.sound, hm.supplied h.supplied, hm.keyed h.keyed, hm.drawn h.drawn, ?_⟩
  intro i hi
  have hp := hst.path i hi
  exact hp.placed (h.placed i hp.state)

theorem Settled.call {w : World} {call : Call} (h : Settled C P side w.session)
    (ha : P.Agrees side call) : Settled C P side (w.step C call).session := by
  have hm := World.step_moves C w call
  rcases World.step_stays C h.sound h.supplied call with ⟨admission, budget, owner, rfl, ht⟩ | hst
  · refine ⟨hm.lawful.sound h.sound, hm.supplied h.supplied, hm.keyed h.keyed, hm.drawn h.drawn, ?_⟩
    obtain ⟨hbudget, hl, hp⟩ := ha
    obtain ⟨d, -, -, hpath⟩ := ht.path1
    intro i hi
    by_cases h0 : i = 0
    · subst h0
      rw [ht.path0] at hi ⊢
      exact h.placed 0 hi
    · obtain rfl : i = 1 := by omega
      rw [hpath]
      refine ⟨?_, congrArg some hl, congrArg some hp, hbudget⟩
      intro binding hb
      obtain rfl := Option.mem_some_iff.mp hb
      exact ht.valid
  · exact h.stays hm hst

/-- The sessions in the slots were there before. -/
theorem Stays.session (h : Stays heard sent s s') (hs : s.Sound) (hs' : s'.Sound) {d' : DirectionalSession}
    (hd' : (s'.paths i).session = some d') : ∃ d, (s.paths i).session = some d ∧
      (¬ heard → d'.replay = d.replay) ∧ (¬ sent → d'.sendCounters = d.sendCounters) := by
  have hp := h.path i ((hs'.paths i).active_of_session hd')
  obtain ⟨d, hd⟩ := Option.isSome_iff_exists.mp ((hs.paths i).used hp.state).2.2.2
  obtain ⟨e, he, hreplay, hcounters⟩ := hp.session d hd
  obtain rfl := Option.some.inj (he.symm.trans hd')
  exact ⟨d, hd, hreplay, hcounters⟩

end

/-- A window that takes the counter `n`, and has taken none from there on. -/
structure Ahead (w : ReplayWindow) (n : ℕ) : Prop where
  sane : ∃ cs, w.Refines cs
  above : w.largest.val < n
  near : w.largest.val ≠ 0 → n ≤ w.largest.val + REPLAY_JUMP_MAX

theorem Ahead.new {n : ℕ} (h : 1 ≤ n) : Ahead .new n :=
  ⟨⟨[], .new⟩, h, fun hne => absurd rfl hne⟩

theorem Ahead.take {w : ReplayWindow} {c : U64} (h : Ahead w c.val) (hmax : c ≠ u64Max) :
    ∃ token w', w.preview c = .ok token ∧ w.commit token = (w', .ok ()) ∧
      Ahead w' (c.val + 1) := by
  obtain ⟨⟨cs, hr⟩, habove, hnear⟩ := h
  have hpast : cs ≠ [] → c.val ≤ w.largest.val + REPLAY_JUMP_MAX := fun hne =>
    hnear (hr.ne_nil_iff.mp hne).ne'
  obtain ⟨token, w', hpreview, hcommit, hr', hlargest⟩ := hr.overtake habove hpast hmax
  refine ⟨token, w', hpreview, hcommit, ⟨_, hr'⟩, ?_, ?_⟩
  · rw [hlargest]
    exact Nat.lt_succ_self _
  · intro _
    rw [hlargest]
    exact Nat.add_le_add_left (by decide) _

/-- The delivery that a window has taken in last. -/
def DeliveredWindow.Latest (C : Crypto) (w : DeliveredWindow) : Option (U64 × List Byte) → Prop
  | none => w.highWater = none
  | some x => w.highWater = some x.1 ∧ w.seen x.1 = true ∧ w.matchesBytes C x.1 x.2 = true

section

variable {C : Crypto} {w : DeliveredWindow} {x : U64 × List Byte} {last : Option (U64 × List Byte)}

theorem DeliveredWindow.Latest.again (h : w.Latest C (some x)) : w.tooOld x.1 = false := by
  obtain ⟨hhigh, -⟩ := h
  simp [tooOld, hhigh, DELIVERED_WINDOW_IDS]

/-- The delivery after the last one is new to the window, and it is the last one from then on. -/
theorem DeliveredWindow.Latest.next (h : w.Latest C last)
    (hx : ∀ y ∈ last, x.1.val = y.1.val + 1) :
    w.tooOld x.1 = false ∧ w.seen x.1 = false ∧
      (w.highWater.any fun high => high < x.1 ∧ DELIVERY_GAP < x.1.val - high.val) = false ∧
      (w.insert C x.1 x.2).Latest C (some x) := by
  have hadvance : w.tooOld x.1 = false ∧ w.seen x.1 = false ∧
      (w.highWater.any fun high => high < x.1 ∧ DELIVERY_GAP < x.1.val - high.val) = false ∧
      (w.advance x.1).highWater = some x.1 := by
    cases last with
    | none =>
      have hnone : w.highWater = none := h
      simp [tooOld, seen, advance, hnone]
    | some y =>
      obtain ⟨hhigh, -⟩ := h
      have hval := hx y rfl
      have hlt : y.1 < x.1 := Fin.lt_def.mpr (by omega)
      have hgap : ¬ DELIVERY_GAP < x.1.val - y.1.val := by
        simp only [DELIVERY_GAP]
        omega
      simp [tooOld, seen, advance, hhigh, hlt, hgap]
  obtain ⟨hold, hseen, hgap, hhigh⟩ := hadvance
  refine ⟨hold, hseen, hgap, ?_, ?_, ?_⟩
  · rw [highWater_insert]
    exact hhigh
  · exact seen_insert_self (by simp [hold]) x.2
  · simp [matchesBytes, insert]

end

/-- One copy of a delivery on its way. -/
structure Copy where
  out : OutboundPacket
  id : U64
  bytes : List Byte
  deriving DecidableEq, Repr

/-- The copies on one slot. -/
def lane (i : Fin 2) (wire : List Copy) : List (List Byte × U64 × List Byte) :=
  (wire.filter fun x => slotIndex x.out.slot = some i).map fun x => (x.out.packet, x.id, x.bytes)

/-- What is on its way on a slot is sealed under the counters `n` to `k`: the sender goes on from
`k`, and the receiver waits for `n`. -/
structure Lane (C : Crypto) (P : Pact) (i : Fin 2) (n k : ℕ) (p q : Path) (wire : List Copy) :
    Prop where
  positive : 1 ≤ n
  bound : k < 2 ^ 64
  flight : Flight (Delivered C (P.budget i) (P.header i)) (P.key .left i) n (lane i wire) k
  sender : ∀ d ∈ p.session, d.sendCounters.next.val = k
  unused : p.state = .absent → k = 1
  receiver : ∀ d ∈ q.session, Ahead d.replay n

section

variable {C : Crypto} {P : Pact} {i : Fin 2} {n k : ℕ} {p p' q q' : Path} {wire wire' : List Copy}

theorem Lane.sends (h : Lane C P i n k p q wire)
    (hd : ∀ d' ∈ p'.session, d'.sendCounters = .new ∧ p.state = .absent ∨
      ∃ d ∈ p.session, d'.sendCounters = d.sendCounters)
    (ha : p'.state = .absent → p.state = .absent) : Lane C P i n k p' q wire := by
  refine ⟨h.positive, h.bound, h.flight, ?_, fun habsent => h.unused (ha habsent), h.receiver⟩
  intro d' hd'
  rcases hd d' hd' with ⟨hnew, habsent⟩ | ⟨d, hd, hsame⟩
  · rw [hnew, h.unused habsent]
    rfl
  · rw [hsame]
    exact h.sender d hd

theorem Lane.receives (h : Lane C P i n k p q wire)
    (hd : ∀ d' ∈ q'.session, d'.replay = .new ∨ ∃ d ∈ q.session, d'.replay = d.replay) :
    Lane C P i n k p q' wire := by
  refine ⟨h.positive, h.bound, h.flight, h.sender, h.unused, ?_⟩
  intro d' hd'
  rcases hd d' hd' with hnew | ⟨d, hd, hsame⟩
  · rw [hnew]
    exact .new h.positive
  · rw [hsame]
    exact h.receiver d hd

theorem lane_append : lane i (wire ++ wire') = lane i wire ++ lane i wire' := by
  simp [lane]

end

/-- A session, its peer, and everything the session has sent that has not arrived, the oldest
first. -/
structure Flow where
  sender : World
  receiver : World
  wire : List Copy

namespace Flow

inductive Act
  | sender (call : Call)
  | receiver (call : Call)
  | deliver (binding : ObservedBinding) (nowMs : U64)

/-- The packets a call hands out. -/
def handed (C : Crypto) (w : World) : Call → List Copy
  | .outbound plaintext =>
    match (w.session.outbound C w.leases plaintext).2.2 with
    | .ok (.enqueued id packets) => packets.map (⟨·, id, plaintext⟩)
    | _ => []
  | _ => []

/-- The receiver after the packet has gone through `inbound`. -/
def inbound (C : Crypto) (w : World) (out : OutboundPacket) (binding : ObservedBinding)
    (nowMs : U64) : World :=
  let r := (w.session.inbound C w.leases out.slot binding out.packet nowMs).1
  { w with session := r.1, leases := r.2 }

def step (C : Crypto) (l : Flow) : Act → Flow
  | .sender call =>
    { l with sender := l.sender.step C call, wire := l.wire ++ handed C l.sender call }
  | .receiver call => { l with receiver := l.receiver.step C call }
  | .deliver binding nowMs =>
    match l.wire with
    | [] => l
    | x :: rest => { l with receiver := inbound C l.receiver x.out binding nowMs, wire := rest }

end Flow

/-- A packet arrives on its slot, which is in use and bound to where it comes from. -/
structure Arrives (s : RedundantSession) (out : OutboundPacket) (i : Fin 2)
    (binding : ObservedBinding) : Prop where
  slot : slotIndex out.slot = some i
  state : (s.paths i).state = .active
  binding : (s.paths i).binding = some binding

/-- What `inbound` asks of a packet beyond that it is the next one. -/
structure Acceptable (P : Pact) (s : RedundantSession) (out : OutboundPacket) : Prop where
  fits : out.packet.length ≤ P.budget 0
  generation : s.receiveGeneration ≠ u64Max

/-- The bootstrap of one side of the pact. -/
structure Pact.Grants (P : Pact) (side : Side) (b : Profile3Bootstrap) : Prop where
  scid : b.scid = P.scid
  budget : b.budget = P.budget 0
  localLoc : b.localLoc = P.loc side 0
  peerLoc : b.peerLoc = P.loc side.peer 0
  slot0 : ∀ d ∈ b.slot0, d.receiveBudget = P.budget 0

namespace Flow

/-- What the receiver is called for besides the deliveries opens no packet. -/
def Permitted (C : Crypto) (P : Pact) (l : Flow) : Act → Prop
  | .sender call => P.Agrees .left call
  | .receiver call => P.Agrees .right call ∧ l.receiver.previewed C call = none
  | .deliver binding _ => ∀ x ∈ l.wire.head?, (∃ i, Arrives l.receiver.session x.out i binding) ∧
      Acceptable P l.receiver.session x.out

/-- Two new sessions from the bootstraps of one handshake, with all that was sent before behind
them. -/
structure Starts (C : Crypto) (P : Pact) (l : Flow) : Prop where
  scid : P.scid ≠ 0
  bootstraps : ∃ b, Mirrored C P.key b ∧ (∀ side, P.Grants side (b side)) ∧
    (∀ a ∈ (b .left).slot0, ∀ d ∈ (b .right).slot0, Ahead d.replay a.sendCounters.next.val) ∧
    (∃ binding seed owner, seed ≠ 0 ∧
      RedundantSession.new (b .left) binding seed owner = .ok l.sender.session) ∧
    ∃ binding seed owner, RedundantSession.new (b .right) binding seed owner = .ok l.receiver.session
  wire : l.wire = []

abbrev Reach (C : Crypto) (P : Pact) (l : Flow) : Prop :=
  Machine.Reach (Starts C P) (step C) (Permitted C P) l

/-- What has been sent lies between what the receiver took in last and what the sender sends
next. -/
structure Inv (C : Crypto) (P : Pact) (l : Flow) : Prop where
  sender : Settled C P .left l.sender.session
  receiver : Settled C P .right l.receiver.session
  lanes : ∀ i, ∃ n k, Lane C P i n k (l.sender.session.paths i) (l.receiver.session.paths i) l.wire
  trail : ∃ last n, 1 ≤ n ∧
    Trail (fun x : U64 × List Byte => x.1.val) last (l.wire.map fun x => (x.id, x.bytes)) n ∧
    (l.sender.session.state = .active → l.sender.session.nextDelivery.val = n) ∧
    (l.receiver.session.state = .active → l.receiver.session.delivered.Latest C last)
  idle : l.receiver.session.receivePreview = none

variable {C : Crypto} {P : Pact} {l : Flow}

theorem settled_new {side : Side} {b : Side → Profile3Bootstrap} (hm : Mirrored C P.key b)
    (hg : P.Grants side (b side)) (hscid : P.scid ≠ 0) {binding : ObservedBinding} {seed : U64}
    {owner : ℕ} {s : RedundantSession}
    (h : RedundantSession.new (b side) binding seed owner = .ok s) : Settled C P side s := by
  have hvalid : binding.Valid := by
    unfold RedundantSession.new at h
    simp only [Outcome.ite_error_eq_ok, not_not] at h
    exact h.1
  obtain ⟨d, hd, -, hs⟩ := new_eq_ok h
  have hne : (b side).scid ≠ 0 := by rwa [hg.scid]
  refine ⟨World.sound_new h, new_supplied hne h, hm.keyed side h, ⟨?_, ?_⟩, ?_⟩
  · intro b' hb'
    rw [hs.bootstrap] at hb'
    obtain rfl := Option.mem_some_iff.mp hb'
    exact ⟨hg.scid, hg.budget⟩
  · intro i e he
    by_cases h0 : i = 0
    · subst h0
      obtain rfl : d = e := by simpa [hs.path0] using he
      exact hg.slot0 d hd
    · obtain rfl : i = 1 := by omega
      simp [hs.path1] at he
  · intro i hi
    by_cases h0 : i = 0
    · subst h0
      rw [hs.path0]
      refine ⟨?_, congrArg some hg.localLoc, congrArg some hg.peerLoc, hg.budget⟩
      intro binding' hb'
      obtain rfl := Option.mem_some_iff.mp hb'
      exact hvalid
    · obtain rfl : i = 1 := by omega
      simp [hs.path1] at hi

theorem idle_new {b : Profile3Bootstrap} {binding : ObservedBinding} {seed : U64} {owner : ℕ}
    {s : RedundantSession} (h : RedundantSession.new b binding seed owner = .ok s) :
    s.receivePreview = none := by
  unfold RedundantSession.new at h
  simp only [Outcome.ite_error_eq_ok] at h
  obtain ⟨-, -, h⟩ := h
  split at h
  · cases h
  · simp only [Outcome.ite_error_eq_ok, Except.ok.injEq] at h
    rw [← h.2]
    rfl

theorem inv_starts (h : Starts C P l) : Inv C P l := by
  obtain ⟨hscid, ⟨b, hm, hg, hahead, ⟨binding, seed, owner, hseed, hnew⟩, binding', seed', owner',
    hnew'⟩, hwire⟩ := h
  obtain ⟨a, ha, -, hs⟩ := new_eq_ok hnew
  obtain ⟨d, hd, -, hs'⟩ := new_eq_ok hnew'
  have hready := hahead a ha d hd
  refine ⟨settled_new hm (hg .left) hscid hnew, settled_new hm (hg .right) hscid hnew', ?_, ?_,
    idle_new hnew'⟩
  · intro i
    by_cases h0 : i = 0
    · subst h0
      refine ⟨a.sendCounters.next.val, a.sendCounters.next.val, ?_⟩
      rw [hs.path0, hs'.path0, hwire]
      refine ⟨by have := hready.above; omega, a.sendCounters.next.isLt, .nil _, ?_, by simp, ?_⟩
      · intro e he
        rw [Option.mem_some_iff.mp he]
      · intro e he
        rwa [← Option.mem_some_iff.mp he]
    · obtain rfl : i = 1 := by omega
      refine ⟨1, 1, ?_⟩
      rw [hs.path1, hs'.path1, hwire]
      exact ⟨le_rfl, by decide, .nil _, by simp, fun _ => rfl, by simp⟩
  · refine ⟨none, seed.val, ?_, ?_, ?_, ?_⟩
    · exact Nat.one_le_iff_ne_zero.mpr (Fin.val_ne_of_ne hseed)
    · rw [hwire]
      exact .nil (by simp)
    · intro _
      rw [hs.next]
    · intro _
      rw [hs'.delivered]
      rfl

/-- A call hands out nothing and seals nothing, or it is an `outbound` that sends on every slot. -/
theorem handed_cases (hs : l.sender.session.Sound) (hsup : Supplied l.sender.session) (call : Call) :
    handed C l.sender call = [] ∧
      ((∃ admission budget owner, call = .activate admission budget owner ∧
        Takes l.sender.session (l.sender.step C call).session admission budget) ∨
      Stays call.Commits False l.sender.session (l.sender.step C call).session) ∨
    ∃ plaintext id packets, call = .outbound plaintext ∧
      (l.sender.session.outbound C l.sender.leases plaintext).2.2 = .ok (.enqueued id packets) ∧
      handed C l.sender call = packets.map (⟨·, id, plaintext⟩) := by
  cases call with
  | outbound plaintext =>
    by_cases hr : ∃ id packets,
        (l.sender.session.outbound C l.sender.leases plaintext).2.2 = .ok (.enqueued id packets)
    · obtain ⟨id, packets, hr⟩ := hr
      exact .inr ⟨plaintext, id, packets, rfl, hr, by simp only [handed, hr]⟩
    · push Not at hr
      refine .inl ⟨?_, .inr (.unsent hs hsup hr)⟩
      simp only [handed]
  | _ => exact .inl ⟨rfl, World.step_stays C hs hsup _⟩

theorem absent_of_absent {g : Option ℕ} {s s' : RedundantSession} {calls : List SealCall}
    (hm : Moves C g s calls s') (i : Fin 2) (h : (s'.paths i).state = .absent) :
    (s.paths i).state = .absent := by
  have hrank := hm.lawful.forward i
  rw [h] at hrank
  cases hs : (s.paths i).state <;> simp_all [PathState.rank]

/-- The sender after a call that hands out nothing. -/
theorem Inv.unsent (hi : Inv C P l) {call : Call} (hagree : P.Agrees .left call)
    (h : (∃ admission budget owner, call = .activate admission budget owner ∧
        Takes l.sender.session (l.sender.step C call).session admission budget) ∨
      Stays call.Commits False l.sender.session (l.sender.step C call).session) :
    Inv C P { l with sender := l.sender.step C call } := by
  have hset := hi.sender.call (C := C) hagree
  have habsent := absent_of_absent (World.step_moves C l.sender call)
  obtain ⟨last, m, hpos, htrail, hnext, hlatest⟩ := hi.trail
  rcases h with ⟨admission, budget, owner, rfl, ht⟩ | hst
  · refine ⟨hset, hi.receiver, ?_, ⟨last, m, hpos, htrail, ?_, hlatest⟩, hi.idle⟩
    · intro i
      obtain ⟨n, k, hl⟩ := hi.lanes i
      refine ⟨n, k, hl.sends ?_ (habsent i)⟩
      intro d' hd'
      by_cases h0 : i = 0
      · subst h0
        rw [ht.path0] at hd'
        exact .inr ⟨d', hd', rfl⟩
      · obtain rfl : i = 1 := by omega
        obtain ⟨d, hnew, -, hpath⟩ := ht.path1
        rw [hpath] at hd'
        rw [← Option.mem_some_iff.mp hd']
        exact .inl ⟨hnew, ht.absent⟩
    · intro _
      rw [ht.next]
      exact hnext ht.active
  · refine ⟨hset, hi.receiver, ?_, ⟨last, m, hpos, htrail, ?_, hlatest⟩, hi.idle⟩
    · intro i
      obtain ⟨n, k, hl⟩ := hi.lanes i
      refine ⟨n, k, hl.sends ?_ (habsent i)⟩
      intro d' hd'
      obtain ⟨d, hd, -, hsame⟩ := hst.session hi.sender.sound hset.sound hd'
      exact .inr ⟨d, hd, hsame not_false⟩
    · intro ha
      rw [hst.next ha not_false]
      exact hnext (hst.active ha)

end Flow

section

variable {C : Crypto} {P : Pact} {s s' : RedundantSession} {i : Fin 2} {n k : ℕ} {q : Path}
  {wire : List Copy} {id : U64} {plaintext : List Byte} {out : OutboundPacket}

/-- The packet that a session has put on a slot joins the slot's lane. -/
theorem Lane.enqueue (h : Lane C P i n k (s.paths i) q wire) (hset : Settled C P .left s)
    {length : ℕ} (hsent : Sent s s' id length i out) (hc : Carried C s id plaintext i out)
    (hid : id ≠ 0) {copies : List Copy} (hlane : lane i copies = [(out.packet, id, plaintext)]) :
    Lane C P i n (k + 1) (s'.paths i) q (wire ++ copies) := by
  obtain ⟨call, b, d, src, dst, hb, hd, hl, hp, hkey, hplain, hcarries⟩ := hc.sealed
  obtain ⟨d', counter, hd', hnext, hcounter, hpath⟩ := hsent.path
  obtain rfl := Option.some.inj (hd.symm.trans hd')
  have hactive := (hset.sound.paths i).active_of_session hd
  have hplaced := hset.placed i hactive
  obtain rfl := Option.some.inj (hl.symm.trans hplaced.localLoc)
  obtain rfl := Option.some.inj (hp.symm.trans hplaced.peerLoc)
  rw [(hset.drawn.boot b hb).1] at hcarries
  have hk : d.sendCounters.next.val = k := h.sender d hd
  have hdelivered : Delivered C (P.budget i) (P.header i) call out.packet (id, plaintext) := by
    refine ⟨hcarries, hplain, ?_, hid, hc.id⟩
    rw [← hplaced.budget]
    exact hc.fits
  have hcall : call.counter.val = k := by
    rw [← hk, ← hnext, hcarries.image.counter]
  rw [hpath]
  refine ⟨h.positive, ?_, ?_, ?_, ?_, h.receiver⟩
  · have := counter.isLt
    omega
  · rw [lane_append, hlane]
    exact h.flight.snoc hdelivered (hkey.trans ((hset.keyed.sessions i d hd).1)) hcall
  · intro e he
    rw [← Option.mem_some_iff.mp he, ← hk]
    exact hcounter
  · intro habsent
    simp [hactive] at habsent

theorem Lane.pass (h : Lane C P i n k (s.paths i) q wire) {copies : List Copy}
    (hpath : s'.paths i = s.paths i) (hlane : lane i copies = []) :
    Lane C P i n k (s'.paths i) q (wire ++ copies) := by
  rw [hpath]
  refine ⟨h.positive, h.bound, ?_, h.sender, h.unused, h.receiver⟩
  rw [lane_append, hlane, List.append_nil]
  exact h.flight

end

namespace Flow

variable {C : Crypto} {P : Pact} {l : Flow}

/-- The sender after a delivery was put on every slot in use. -/
theorem Inv.sent (hi : Inv C P l) {plaintext : List Byte} {id : U64} {packets : List OutboundPacket}
    (hr : (l.sender.session.outbound C l.sender.leases plaintext).2.2 =
      .ok (.enqueued id packets)) :
    Inv C P { l with
      sender := l.sender.step C (.outbound plaintext)
      wire := l.wire ++ packets.map (⟨·, id, plaintext⟩) } := by
  have hset : Settled C P .left (l.sender.step C (.outbound plaintext)).session :=
    hi.sender.call trivial
  obtain ⟨hactive, hpaths, hcarried⟩ := outbound_carried hr
  obtain ⟨last, m, hpos, htrail, hnext, hlatest⟩ := hi.trail
  cases outbound_all C hi.sender.sound hi.sender.supplied l.sender.leases plaintext with
  | unchanged hno => simp [hr] at hno
  | ended hno => simp [hr] at hno
  | enqueued packets' hok hsent hother hcount hframe =>
    obtain ⟨rfl, rfl⟩ : l.sender.session.nextDelivery = id ∧ packets' = packets := by
      simpa [hr, eq_comm] using hok
    have hm : l.sender.session.nextDelivery.val = m := hnext hactive
    have hid : l.sender.session.nextDelivery ≠ 0 := by
      intro hzero
      have hval : l.sender.session.nextDelivery.val = 0 := congrArg Fin.val hzero
      omega
    refine ⟨hset, hi.receiver, ?_, ⟨last, m + 1, by omega, ?_, ?_, hlatest⟩, hi.idle⟩
    · intro i
      obtain ⟨n, k, hl⟩ := hi.lanes i
      have hboth := List.Forall₂.mp (fun _ _ h h' => And.intro h h') hsent hcarried
      have hlane : lane i (packets'.map (⟨·, l.sender.session.nextDelivery, plaintext⟩)) =
          (packets'.filter fun out => slotIndex out.slot = some i).map fun out =>
            (out.packet, l.sender.session.nextDelivery, plaintext) := by
        simp [lane, List.filter_map, Function.comp_def]
      rcases Lists.filter_forall₂ (fun j out h => h.2.slot) hboth
        (Moves.nodup_activePaths l.sender.session) i with ⟨hout, hnone⟩ | ⟨-, out, ⟨hs, hc⟩, hone⟩
      · refine ⟨n, k, hl.pass (hother i hout) ?_⟩
        rw [hlane, hnone, List.map_nil]
      · refine ⟨n, k + 1, hl.enqueue hi.sender hs hc hid ?_⟩
        rw [hlane, hone, List.map_singleton]
    · have hcopies : (packets'.map fun out => (l.sender.session.nextDelivery, plaintext)) =
          List.replicate packets'.length (l.sender.session.nextDelivery, plaintext) := by simp
      simp only [List.map_append, List.map_map, Function.comp_def]
      rw [hcopies]
      refine htrail.append hm ?_
      rw [← hcarried.length_eq]
      exact fun hnil => hpaths (List.length_eq_zero_iff.mp hnil)
    · intro _
      rw [← hm]
      exact hcount

theorem Inv.sender_step (hi : Inv C P l) {call : Call} (hagree : P.Agrees .left call) :
    Inv C P (l.step C (.sender call)) := by
  rcases handed_cases (C := C) hi.sender.sound hi.sender.supplied call with
    ⟨hnone, h⟩ | ⟨plaintext, id, packets, rfl, hr, hhanded⟩
  · have hi' := hi.unsent hagree h
    simpa only [step, hnone, List.append_nil] using hi'
  · have hi' := hi.sent hr
    simpa only [step, hhanded] using hi'

/-- Without a pending preview a commit changes nothing. -/
theorem commitInbound_idle {s : RedundantSession} (h : s.receivePreview = none) (leases : Leases)
    (p : InboundPreview) : (s.commitInbound C leases p).1.1 = s := by
  by_cases ha : s.state = .active
  · rw [World.commitInbound_refused ha (World.accepts_of_none leases _ _ _ h)]
  · simp [RedundantSession.commitInbound, ha]

theorem commitMobility_idle {s : RedundantSession} (h : s.receivePreview = none) (leases : Leases)
    (m : Manager) (ms : State) (c : MobilityInboundCommit) :
    (s.commitMobility C leases m ms c).1.1 = s := by
  by_cases ha : s.state = .active
  · rw [World.commitMobility_refused ha (World.accepts_of_none leases _ _ _ h)]
  · simp [RedundantSession.commitMobility, ha]

theorem preview_quiet {s : RedundantSession} {leases : Leases} {slot : Byte}
    {binding : ObservedBinding} {packet : List Byte} {nowMs : U64} {requireActive : Bool}
    (h : (s.previewInboundInner C leases slot binding packet nowMs requireActive).2.toOption = none) :
    Quiet s (s.previewInboundInner C leases slot binding packet nowMs requireActive).1.1 := by
  rcases previewInboundInner_cases C s leases slot binding packet nowMs requireActive with
    ⟨hq, -⟩ | ⟨p, hok, -⟩
  · exact hq
  · rw [hok] at h
    cases h

/-- A call that opens nothing, of a receiver that waits for nothing, neither delivers nor moves a
window. -/
theorem idle_cases {w : World} {call : Call} (hs : w.session.Sound) (hsup : Supplied w.session)
    (hidle : w.session.receivePreview = none) (hnone : w.previewed C call = none) :
    Quiet w.session (w.step C call).session ∧
      ((∃ admission budget owner, call = .activate admission budget owner ∧
        Takes w.session (w.step C call).session admission budget) ∨
      Stays False call.Sends w.session (w.step C call).session) := by
  cases call with
  | commitInbound p =>
    have hsame : (w.step C (.commitInbound p)).session = w.session :=
      commitInbound_idle hidle w.leases p
    rw [hsame]
    exact ⟨.refl _, .inr (.refl _)⟩
  | commitMobility m ms c =>
    have hsame : (w.step C (.commitMobility m ms c)).session = w.session :=
      commitMobility_idle hidle w.leases m ms c
    rw [hsame]
    exact ⟨.refl _, .inr (.refl _)⟩
  | previewInbound => exact ⟨preview_quiet hnone, World.step_stays C hs hsup _⟩
  | previewMobilityInbound => exact ⟨preview_quiet hnone, World.step_stays C hs hsup _⟩
  | abortInbound => exact ⟨.abortInbound _ _ _, World.step_stays C hs hsup _⟩
  | dropPreview => exact ⟨.refl _, World.step_stays C hs hsup _⟩
  | prepareMobilityCommit => exact ⟨.refl _, World.step_stays C hs hsup _⟩
  | dropCommit => exact ⟨.refl _, World.step_stays C hs hsup _⟩
  | issueOwner => exact ⟨.issueOwner _ _ _ _, World.step_stays C hs hsup _⟩
  | activate => exact ⟨.activate C _ _ _ _ _, World.step_stays C hs hsup _⟩
  | outbound => exact ⟨.outbound C _ _ _, World.step_stays C hs hsup _⟩
  | confirmSent => exact ⟨.confirmSent _ _ _, World.step_stays C hs hsup _⟩
  | removePath => exact ⟨.removePath _ _ _, World.step_stays C hs hsup _⟩
  | expire => exact ⟨.expire _ _, World.step_stays C hs hsup _⟩
  | tick => exact ⟨.tick _ _ _, World.step_stays C hs hsup _⟩
  | close => exact ⟨.close _ _, World.step_stays C hs hsup _⟩

theorem Inv.receiver_step (hi : Inv C P l) {call : Call} (hagree : P.Agrees .right call)
    (hnone : l.receiver.previewed C call = none) : Inv C P (l.step C (.receiver call)) := by
  have hset := hi.receiver.call (C := C) hagree
  obtain ⟨hquiet, hslots⟩ :=
    idle_cases hi.receiver.sound hi.receiver.supplied hi.idle hnone
  obtain ⟨last, m, hpos, htrail, hnext, hlatest⟩ := hi.trail
  refine ⟨hi.sender, hset, ?_, ⟨last, m, hpos, htrail, hnext, ?_⟩, ?_⟩
  · intro i
    obtain ⟨n, k, hl⟩ := hi.lanes i
    refine ⟨n, k, hl.receives ?_⟩
    intro d' hd'
    rcases hslots with ⟨admission, budget, owner, rfl, ht⟩ | hst
    · by_cases h0 : i = 0
      · subst h0
        simp only [step, ht.path0] at hd'
        exact .inr ⟨d', hd', rfl⟩
      · obtain rfl : i = 1 := by omega
        obtain ⟨d, -, hnew, hpath⟩ := ht.path1
        simp only [step, hpath] at hd'
        rw [← Option.mem_some_iff.mp hd']
        exact .inl hnew
    · obtain ⟨d, hd, hsame, -⟩ := hst.session hi.receiver.sound hset.sound hd'
      exact .inr ⟨d, hd, hsame not_false⟩
  · intro ha
    obtain ⟨hactive, hwindow⟩ := hquiet.active ha
    simp only [step, hwindow]
    exact hlatest hactive
  · rcases hquiet.pending with hsame | hfree
    · exact hsame.trans hi.idle
    · exact hfree

end Flow

/-- The answer of a window to a delivery it is shown: the last one again, or the next one. -/
def Answers (C : Crypto) (w : DeliveredWindow) (id : U64) (bytes : List Byte) :
    ReceiveDecision → Prop
  | .equal => w.tooOld id = false ∧ w.seen id = true ∧ w.matchesBytes C id bytes = true
  | .new => w.tooOld id = false ∧ w.seen id = false ∧
      (w.highWater.any fun high => high < id ∧ DELIVERY_GAP < id.val - high.val) = false

/-- What `inbound` leaves of a session that has taken a packet. -/
def afterInbound (C : Crypto) (s : RedundantSession) (i : Fin 2) (d : DirectionalSession)
    (p : Profile3DataPreview) (decision : ReceiveDecision) (generation nowMs : U64) :
    RedundantSession :=
  let t := ({ s.setPath i { s.paths i with session := some d } with
    receivePreview := none
    receiveGeneration := generation }).expire nowMs
  match decision with
  | .equal => t
  | .new => t.remember C p.deliveryId p.plaintext nowMs

section

variable {C : Crypto} {P : Pact} {s : RedundantSession} {leases : Leases} {out : OutboundPacket}
  {i : Fin 2} {binding : ObservedBinding} {nowMs generation : U64} {d : DirectionalSession}
  {p : Profile3DataPreview} {decision : ReceiveDecision}

theorem Arrives.active (h : Arrives s out i binding) (hs : s.Sound) : s.state = .active :=
  hs.active.mpr ⟨i, h.state⟩

theorem Arrives.valid {side : Side} (h : Arrives s out i binding) (hs : Settled C P side s) :
    binding.Valid :=
  (hs.placed i h.state).binding binding h.binding

/-- The next packet of a slot opens, if it is within the budget of the bootstrap. -/
theorem openInbound_delivered (hC : C.Correct) (hs : Settled C P .right s)
    (ha : Arrives s out i binding) (hd : (s.paths i).session = some d) {call : SealCall}
    {x : U64 × List Byte} (hx : Delivered C (P.budget i) (P.header i) call out.packet x)
    (hkey : call.key = P.key .left i) {token : ReplayCommit}
    (htoken : d.replay.preview call.counter = .ok token)
    (hfit : out.packet.length ≤ P.budget 0) :
    s.openInbound C out.slot binding out.packet true = .ok ⟨x.1, x.2, token, d.receiveOwner⟩ := by
  obtain ⟨hcarries, hplain, hlen, hid⟩ := hx
  obtain ⟨b, hb, hscid⟩ := hs.supplied.boot (ha.active hs.sound)
  have hboot := (hs.drawn.boot b hb).1
  have hplaced := hs.placed i ha.state
  have hheader : validateProfile3DataHeader (P.header i) = .ok () :=
    slotHeader_data (by rwa [← hboot])
  have hopen := previewProfile3Data_carries hheader hcarries hid
    (hkey.trans (hs.keyed.sessions i d hd).2.symm) (by rwa [hs.drawn.session i d hd])
    (fun n _ => hC.opens call.key n call.aad call.plaintext) htoken
  have hslot : (P.header i).pathSlot = out.slot := by
    have h := ha.slot
    unfold slotIndex at h
    split at h
    · obtain rfl := Option.some.inj h
      exact Eq.symm ‹out.slot = 0›
    · split at h
      · obtain rfl := Option.some.inj h
        exact Eq.symm ‹out.slot = 1›
      · cases h
  have hlocs : (s.paths i).peerLoc = some (P.header i).src ∧
      (s.paths i).localLoc = some (P.header i).dst := ⟨hplaced.peerLoc, hplaced.localLoc⟩
  have hsame : (P.header i).scid = b.scid := hboot.symm
  unfold RedundantSession.openInbound
  simp only [ha.slot, ha.state, ha.binding, hplaced.budget, hcarries.unpack _ hlen, hb, hd, hopen,
    hslot, hlocs, hsame, hplain, Except.mapError]
  simp

/-- A longer one does not open, whatever the budget of its slot. -/
theorem openInbound_long (hs : Settled C P .right s) (hlong : P.budget 0 < out.packet.length) :
    ∃ e, s.openInbound C out.slot binding out.packet true = .error e := by
  cases hopen : s.openInbound C out.slot binding out.packet true with
  | error e => exact ⟨e, rfl⟩
  | ok preview =>
    obtain ⟨i, d, h⟩ := openInbound_eq_ok hopen
    obtain ⟨r, hr⟩ := (previewProfile3Data_opens h.preview).1.unpacks
    have hfits := unpack_fits hr
    rw [hs.drawn.session i d h.session] at hfits
    omega

theorem reap_idle (h : s.receivePreview = none) (leases : Leases) : s.reapPreview leases = s := by
  simp [RedundantSession.reapPreview, h]

theorem previewInbound_lends (hidle : s.receivePreview = none) (hactive : s.state = .active)
    (hvalid : binding.Valid) (hopen : s.openInbound C out.slot binding out.packet true = .ok p)
    (hanswer : Answers C s.delivered p.deliveryId p.plaintext decision) :
    s.previewInbound C leases out.slot binding out.packet nowMs =
      s.lend leases out.slot p decision nowMs := by
  unfold RedundantSession.previewInbound RedundantSession.previewInboundInner
  rw [if_neg (not_not.mpr hvalid), if_neg (not_not.mpr hactive)]
  simp only [reap_idle hidle, hidle, hopen]
  cases decision with
  | equal =>
    obtain ⟨hold, hseen, hmatch⟩ := hanswer
    simp [hold, hseen, hmatch]
  | new =>
    obtain ⟨hold, hseen, hgap⟩ := hanswer
    simp only [hold, hseen, hgap]
    simp

theorem commitInbound_taken {q : InboundPreview} (hactive : s.state = .active)
    (haccept : s.acceptsPreview leases q = true) (hslot : slotIndex q.slot = some i)
    (hd : (s.paths i).session = some d) (howner : q.sessionPreview.receiveOwner = d.receiveOwner)
    {w : ReplayWindow} (hcommit : d.replay.commit q.sessionPreview.commit = (w, .ok ()))
    (hgen : checkedAdd s.receiveGeneration 1 = some generation) :
    ∃ o, s.commitInbound C leases q = ((afterInbound C s i { d with replay := w } q.sessionPreview
      q.decision generation q.nowMs, leases.deactivate q.lease), .ok o) := by
  have hok : d.commitProfile3Data q.sessionPreview =
      ({ d with replay := w }, .ok (q.sessionPreview.deliveryId, q.sessionPreview.plaintext)) := by
    simp [DirectionalSession.commitProfile3Data, howner, hcommit]
  have hdone : ({ s with receivePreview := none } : RedundantSession).commit q.slot
      q.sessionPreview = (({ s with receivePreview := none } : RedundantSession).setPath i
        { s.paths i with session := some { d with replay := w } },
        .ok (q.sessionPreview.deliveryId, q.sessionPreview.plaintext)) := by
    simp [RedundantSession.commit, hslot, hd, hok, Except.mapError]
  unfold RedundantSession.commitInbound afterInbound
  rw [if_neg (not_not.mpr hactive), if_neg (not_not.mpr haccept)]
  simp only [hgen, hdone]
  cases q.decision with
  | equal => exact ⟨_, rfl⟩
  | new => exact ⟨_, rfl⟩

theorem inbound_taken (hidle : s.receivePreview = none) (hactive : s.state = .active)
    (hvalid : binding.Valid) (hopen : s.openInbound C out.slot binding out.packet true = .ok p)
    (hanswer : Answers C s.delivered p.deliveryId p.plaintext decision)
    (hslot : slotIndex out.slot = some i) (hd : (s.paths i).session = some d)
    (howner : p.receiveOwner = d.receiveOwner) {w : ReplayWindow}
    (hcommit : d.replay.commit p.commit = (w, .ok ()))
    (hgen : checkedAdd s.receiveGeneration 1 = some generation) :
    ∃ leases' o, s.inbound C leases out.slot binding out.packet nowMs =
      ((afterInbound C s i { d with replay := w } p decision generation nowMs, leases'), .ok o) := by
  have haccept : { s with receivePreview := some leases.alloc.2 }.acceptsPreview leases.alloc.1
      ⟨s.receiveOwner, s.receiveGeneration, out.slot, p, decision, nowMs, leases.alloc.2⟩ = true := by
    simp [RedundantSession.acceptsPreview, acceptsLease_iff, Leases.isActive, Leases.alloc]
  obtain ⟨o, hr⟩ := commitInbound_taken (C := C) (by exact hactive) haccept hslot hd howner hcommit
    hgen
  unfold RedundantSession.inbound
  rw [previewInbound_lends hidle hactive hvalid hopen hanswer]
  exact ⟨_, o, hr⟩

/-- A receiver whose generation cannot be counted up takes nothing. -/
theorem inbound_exhausted (hgen : s.receiveGeneration = u64Max) :
    ∃ e, (s.inbound C leases out.slot binding out.packet nowMs).2 = .error e := by
  unfold RedundantSession.inbound RedundantSession.previewInbound
  rcases previewInboundInner_leaves C s leases out.slot binding out.packet nowMs true with
    ⟨⟨e, he⟩, -⟩ | ⟨q, hok, hs⟩
  · generalize s.previewInboundInner C leases out.slot binding out.packet nowMs true = r at he ⊢
    obtain ⟨⟨t, l⟩, res⟩ := r
    obtain rfl : res = _ := he
    exact ⟨e, rfl⟩
  · generalize s.previewInboundInner C leases out.slot binding out.packet nowMs true = r at hok hs ⊢
    obtain ⟨⟨t, l⟩, res⟩ := r
    obtain rfl : res = _ := hok
    obtain rfl : t = _ := hs
    have hnone : checkedAdd s.receiveGeneration 1 = none := by
      rw [hgen]
      decide
    simp only [RedundantSession.commitInbound, hnone]
    split
    · exact ⟨_, rfl⟩
    · split
      · exact ⟨_, rfl⟩
      · exact ⟨_, rfl⟩

theorem inbound_keeps (C : Crypto) (s : RedundantSession) (leases : Leases) (out : OutboundPacket)
    (binding : ObservedBinding) (nowMs : U64) :
    let r := s.inbound C leases out.slot binding out.packet nowMs
    Moves C none s [] r.1.1 ∧ Stays True False s r.1.1 := by
  have hm := Moves.preview (C := C) (g := none) s leases out.slot binding out.packet nowMs true
  have hst : Stays True False s
      (s.previewInboundInner C leases out.slot binding out.packet nowMs true).1.1 :=
    .preview s leases out.slot binding out.packet nowMs true
  unfold RedundantSession.inbound RedundantSession.previewInbound
  generalize s.previewInboundInner C leases out.slot binding out.packet nowMs true = r at hm hst ⊢
  obtain ⟨⟨t, l⟩, e | q⟩ := r
  · exact ⟨hm, hst⟩
  · exact ⟨hm.trans (.commitInbound t l q), hst.trans (.commitInbound t l q)⟩

theorem inbound_refused (hidle : s.receivePreview = none)
    (hopen : ∃ e, s.openInbound C out.slot binding out.packet true = .error e) :
    ∃ e, (s.inbound C leases out.slot binding out.packet nowMs).2 = .error e := by
  obtain ⟨e, he⟩ := hopen
  have hrefused : ∃ e, (s.previewInboundInner C leases out.slot binding out.packet nowMs true).2 =
      .error e := by
    unfold RedundantSession.previewInboundInner
    split
    · exact ⟨_, rfl⟩
    · split
      · exact ⟨_, rfl⟩
      · simp only [reap_idle hidle, hidle, he]
        exact ⟨_, rfl⟩
  obtain ⟨e', he'⟩ := hrefused
  unfold RedundantSession.inbound RedundantSession.previewInbound
  generalize s.previewInboundInner C leases out.slot binding out.packet nowMs true = r at he' ⊢
  obtain ⟨⟨t, l⟩, res⟩ := r
  obtain rfl : res = _ := he'
  exact ⟨e', rfl⟩

end

section

variable {C : Crypto} {P : Pact} {s : RedundantSession} {i j : Fin 2} {n k : ℕ} {p q : Path}
  {wire : List Copy} {x : Copy} {d : DirectionalSession} {nowMs generation : U64}
  {preview : Profile3DataPreview} {decision : ReceiveDecision}

/-- The window of the slot waits for the first packet of the lane. -/
theorem Lane.head (h : Lane C P i n k p q (x :: wire)) (hslot : slotIndex x.out.slot = some i)
    (hd : q.session = some d) : ∃ call token w,
      Delivered C (P.budget i) (P.header i) call x.out.packet (x.id, x.bytes) ∧
      call.key = P.key .left i ∧ d.replay.preview call.counter = .ok token ∧
      d.replay.commit token = (w, .ok ()) ∧ ∀ q' : Path, q'.session = some { d with replay := w } →
        Lane C P i (n + 1) k p q' wire := by
  have hlane : lane i (x :: wire) = (x.out.packet, x.id, x.bytes) :: lane i wire := by
    simp [lane, hslot]
  obtain ⟨hpos, hbound, hflight, hsender, hunused, hreceiver⟩ := h
  rw [hlane] at hflight
  cases hflight with
  | @cons _ _ call _ _ _ hc hkey hcounter hrest =>
    have hmax : call.counter ≠ u64Max := by
      have hle := hrest.le
      intro heq
      rw [heq, u64Max_val] at hcounter
      omega
    have hahead := hreceiver d hd
    rw [← hcounter] at hahead
    obtain ⟨token, w, hpreview, hcommit, hnext⟩ := hahead.take hmax
    refine ⟨call, token, w, hc, hkey, hpreview, hcommit, ?_⟩
    intro q' hq'
    refine ⟨by omega, hbound, hrest, hsender, hunused, ?_⟩
    intro d' hd'
    obtain rfl := Option.some.inj (hq'.symm.trans hd')
    rwa [← hcounter]

/-- A packet of the other slot. -/
theorem Lane.skip (h : Lane C P j n k p q (x :: wire)) (hslot : slotIndex x.out.slot = some i)
    (hij : i ≠ j) : Lane C P j n k p q wire := by
  have hlane : lane j (x :: wire) = lane j wire := by
    simp [lane, hslot, hij]
  obtain ⟨hpos, hbound, hflight, hsender, hunused, hreceiver⟩ := h
  rw [hlane] at hflight
  exact ⟨hpos, hbound, hflight, hsender, hunused, hreceiver⟩

/-- The window takes in the delivery that comes next. -/
theorem DeliveredWindow.Latest.answer {w : DeliveredWindow} {last : Option (U64 × List Byte)}
    (h : w.Latest C last) {y : U64 × List Byte}
    (hy : last = some y ∨ ∀ z ∈ last, y.1.val = z.1.val + 1) :
    (Answers C w y.1 y.2 .equal ∧ w.Latest C (some y)) ∨
      Answers C w y.1 y.2 .new ∧ (w.insert C y.1 y.2).Latest C (some y) := by
  rcases hy with rfl | hy
  · have hold := h.again
    obtain ⟨hhigh, hseen, hmatch⟩ := h
    exact .inl ⟨⟨hold, hseen, hmatch⟩, hhigh, hseen, hmatch⟩
  · obtain ⟨hold, hseen, hgap, hlatest⟩ := h.next hy
    exact .inr ⟨⟨hold, hseen, hgap⟩, hlatest⟩

theorem afterInbound_paths : (afterInbound C s i d preview decision generation nowMs).paths =
    (s.setPath i { s.paths i with session := some d }).paths := by
  unfold afterInbound
  cases decision with
  | equal => rfl
  | new => exact paths_remember C _ _ _ _

theorem afterInbound_pending :
    (afterInbound C s i d preview decision generation nowMs).receivePreview = none := by
  unfold afterInbound
  cases decision with
  | equal => rfl
  | new => exact pending_remember C _ _ _ _

theorem afterInbound_delivered_new :
    (afterInbound C s i d preview .new generation nowMs).delivered =
      s.delivered.insert C preview.deliveryId preview.plaintext :=
  delivered_remember C _ _ _ _

end

namespace Flow

variable {C : Crypto} {P : Pact} {l : Flow} {x : Copy} {rest : List Copy} {i : Fin 2}
  {binding : ObservedBinding} {nowMs : U64}

/-- The next packet is taken when it is acceptable, and what is left is on its way as before. -/
theorem Inv.taken (hC : C.Correct) (hi : Inv C P l) (hwire : l.wire = x :: rest)
    (ha : Arrives l.receiver.session x.out i binding)
    (hx : Acceptable P l.receiver.session x.out) :
    (∃ o, (l.receiver.session.inbound C l.receiver.leases x.out.slot binding x.out.packet nowMs).2 =
      .ok o) ∧ Inv C P { l with
        receiver := inbound C l.receiver x.out binding nowMs
        wire := rest } := by
  obtain ⟨last, m, hpos, htrail, hnext, hlatest⟩ := hi.trail
  have hactive := ha.active hi.receiver.sound
  obtain ⟨d, hd⟩ := Option.isSome_iff_exists.mp
    ((hi.receiver.sound.paths i).used ha.state).2.2.2
  obtain ⟨n, k, hl⟩ := hi.lanes i
  rw [hwire] at hl
  obtain ⟨call, token, w, hdelivered, hkey, hpreview, hcommit, hlane⟩ := hl.head ha.slot hd
  have hopen := openInbound_delivered hC hi.receiver ha hd hdelivered hkey hpreview hx.fits
  obtain ⟨generation, hgen⟩ := World.checkedAdd_one_isSome hx.generation
  rw [hwire, List.map_cons] at htrail
  obtain ⟨hfirst, htrail⟩ := htrail.first
  have htake : ∀ decision, Answers C l.receiver.session.delivered x.id x.bytes decision →
      ∃ leases' o, l.receiver.session.inbound C l.receiver.leases x.out.slot binding x.out.packet
        nowMs = ((afterInbound C l.receiver.session i { d with replay := w }
          ⟨x.id, x.bytes, token, d.receiveOwner⟩ decision generation nowMs, leases'), .ok o) :=
    fun _ hanswer => inbound_taken hi.idle hactive (ha.valid hi.receiver) hopen hanswer ha.slot hd
      rfl hcommit hgen
  have htaken : ∃ decision leases' o,
      l.receiver.session.inbound C l.receiver.leases x.out.slot binding x.out.packet nowMs =
        ((afterInbound C l.receiver.session i { d with replay := w }
          ⟨x.id, x.bytes, token, d.receiveOwner⟩ decision generation nowMs, leases'), .ok o) ∧
      (afterInbound C l.receiver.session i { d with replay := w }
        ⟨x.id, x.bytes, token, d.receiveOwner⟩ decision generation nowMs).delivered.Latest C
          (some (x.id, x.bytes)) := by
    rcases (hlatest hactive).answer hfirst with ⟨hanswer, hnow⟩ | ⟨hanswer, hnow⟩
    · obtain ⟨leases', o, hr⟩ := htake .equal hanswer
      exact ⟨.equal, leases', o, hr, hnow⟩
    · obtain ⟨leases', o, hr⟩ := htake .new hanswer
      refine ⟨.new, leases', o, hr, ?_⟩
      rw [afterInbound_delivered_new]
      exact hnow
  obtain ⟨decision, leases', o, hr, hnow⟩ := htaken
  refine ⟨⟨o, by rw [hr]⟩, ?_⟩
  have hset : Settled C P .right (l.receiver.session.inbound C l.receiver.leases x.out.slot binding
      x.out.packet nowMs).1.1 := by
    obtain ⟨hm, hst⟩ := inbound_keeps C l.receiver.session l.receiver.leases x.out binding nowMs
    exact hi.receiver.stays hm hst
  simp only [inbound, hr] at hset ⊢
  refine ⟨hi.sender, hset, ?_, ⟨some (x.id, x.bytes), m, hpos, htrail, hnext, fun _ => hnow⟩,
    afterInbound_pending⟩
  intro j
  simp only [afterInbound_paths]
  by_cases hij : i = j
  · subst hij
    exact ⟨n + 1, k, hlane _ (by simp [RedundantSession.setPath])⟩
  · obtain ⟨n', k', hl'⟩ := hi.lanes j
    rw [hwire] at hl'
    refine ⟨n', k', ?_⟩
    have hsame : (l.receiver.session.setPath i { l.receiver.session.paths i with
        session := some { d with replay := w } }).paths j = l.receiver.session.paths j := by
      simp [RedundantSession.setPath, Ne.symm hij]
    rw [hsame]
    exact hl'.skip ha.slot hij

theorem Inv.accepts_iff (hC : C.Correct) (hi : Inv C P l) (hwire : l.wire = x :: rest)
    (ha : Arrives l.receiver.session x.out i binding) :
    (∃ o, (l.receiver.session.inbound C l.receiver.leases x.out.slot binding x.out.packet nowMs).2 =
      .ok o) ↔ Acceptable P l.receiver.session x.out := by
  constructor
  · rintro ⟨o, ho⟩
    refine ⟨?_, ?_⟩
    · by_contra hlong
      have hrefused : ∃ e, (l.receiver.session.inbound C l.receiver.leases x.out.slot binding
          x.out.packet nowMs).2 = .error e :=
        inbound_refused hi.idle (openInbound_long hi.receiver (not_le.mp hlong))
      obtain ⟨e, he⟩ := hrefused
      rw [ho] at he
      cases he
    · intro hmax
      have hspent : ∃ e, (l.receiver.session.inbound C l.receiver.leases x.out.slot binding
          x.out.packet nowMs).2 = .error e := inbound_exhausted hmax
      obtain ⟨e, he⟩ := hspent
      rw [ho] at he
      cases he
  · exact fun hx => (hi.taken hC hwire ha hx).1

theorem Reach.inv (hC : C.Correct) (h : Reach C P l) : Inv C P l := by
  refine Machine.Reach.invariant (I := Inv C P) (fun _ => inv_starts) ?_ h
  intro l a hi ha
  cases a with
  | sender call => exact hi.sender_step ha
  | receiver call => exact hi.receiver_step ha.1 ha.2
  | deliver binding nowMs =>
    simp only [step]
    cases hwire : l.wire with
    | nil => exact hi
    | cons x rest =>
      obtain ⟨⟨i, harrives⟩, hx⟩ := ha x (by simp [hwire])
      exact (hi.taken hC hwire harrives hx).2

/-- The packets of a delivery are of one length, which slot zero takes while it is in use. -/
theorem Inv.lengths (hi : Inv C P l) {plaintext : List Byte} {id : U64}
    {packets : List OutboundPacket}
    (hr : (l.sender.session.outbound C l.sender.leases plaintext).2.2 =
      .ok (.enqueued id packets)) :
    (∀ out ∈ packets, out.packet.length = plaintext.length + OVERHEAD) ∧
      ((l.sender.session.paths 0).state = .active → plaintext.length + OVERHEAD ≤ P.budget 0) := by
  obtain ⟨-, -, hcarried⟩ := outbound_carried hr
  have hlength : ∀ i out, Carried C l.sender.session id plaintext i out →
      out.packet.length = plaintext.length + OVERHEAD := by
    intro i out hc
    obtain ⟨call, b, d, src, dst, -, -, -, -, -, hplain, hcarries⟩ := hc.sealed
    rw [← hplain]
    exact hcarries.length
  refine ⟨?_, ?_⟩
  · intro out hout
    obtain ⟨i, -, hc⟩ := Lists.exists_of_forall₂ hcarried.flip hout
    exact hlength i out hc
  · intro h0
    have hmem : (0 : Fin 2) ∈ l.sender.session.activePaths := by
      simp [RedundantSession.activePaths, h0]
    obtain ⟨out, -, hc⟩ := Lists.exists_of_forall₂ hcarried hmem
    rw [← hlength 0 out hc, ← (hi.sender.placed 0 h0).budget]
    exact hc.fits

end Flow

/-- The peer takes the next packet exactly when the packet is within the budget of the bootstrap,
whatever the budget of slot one, and the peer can count on. Packets longer than that are sent only
while slot zero is not in use. -/
theorem enqueued_receivable {C : Crypto} (hC : C.Correct) {P : Pact} {l : Flow}
    (h : Flow.Reach C P l) :
    (∀ x rest, l.wire = x :: rest → ∀ i binding nowMs, Arrives l.receiver.session x.out i binding →
      ((∃ o, (l.receiver.session.inbound C l.receiver.leases x.out.slot binding x.out.packet
        nowMs).2 = .ok o) ↔ Acceptable P l.receiver.session x.out)) ∧
    ∀ plaintext id packets, (l.sender.session.outbound C l.sender.leases plaintext).2.2 =
        .ok (.enqueued id packets) →
      (∀ out ∈ packets, out.packet.length = plaintext.length + OVERHEAD) ∧
      ((l.sender.session.paths 0).state = .active → plaintext.length + OVERHEAD ≤ P.budget 0) := by
  have hi := h.inv hC
  refine ⟨?_, ?_⟩
  · intro x rest hwire i binding nowMs ha
    exact hi.accepts_iff hC hwire ha
  · intro plaintext id packets hr
    exact hi.lengths hr

namespace Flow.Sample

open Link.Sample (role loc key)

/-- The bootstrap allows for 216 bytes of plaintext, slot one for any packet. -/
def pact : Pact where
  scid := 5
  key := key
  loc side i := loc (if i = 0 then 0 else 1) side
  budget i := if i = 0 then 300 else 1280

def bootstrap (side : Side) : Profile3Bootstrap :=
  { Link.Sample.bootstrap side with
    budget := 300
    slot0 := some (.new (role side) (key side 0) (key side.peer 0) (bytesOf 32 9) 300) }

def session (side : Side) : World :=
  { Redundant.Sample.start with
    session := (RedundantSession.new (bootstrap side) Redundant.Sample.binding 1
      (role side)).toOption.getD Redundant.Sample.start.session }

def start : Flow := ⟨session .left, session .right, []⟩

theorem starts : Starts .sample pact start := by
  have hnew : ∀ side, RedundantSession.new (bootstrap side) Redundant.Sample.binding 1 (role side) =
      .ok (session side).session := by
    intro side
    cases side <;> rfl
  have hslot : ∀ side, ∀ d ∈ (bootstrap side).slot0,
      d = .new (role side) (key side 0) (key side.peer 0) (bytesOf 32 9) 300 := by
    intro side d hd
    exact (Option.mem_some_iff.mp hd).symm
  refine ⟨by decide, ⟨bootstrap, ⟨?_, ?_, ?_⟩, ?_, ?_, ⟨_, _, _, by decide, hnew .left⟩,
    ⟨_, _, _, hnew .right⟩⟩, rfl⟩
  · intro side d hd
    rw [hslot side d hd]
    exact ⟨rfl, rfl⟩
  · intro side prk hprk
    obtain rfl := Option.mem_some_iff.mp hprk
    rfl
  · intro side
    cases side <;> exact ⟨rfl, rfl, rfl⟩
  · intro side
    refine ⟨rfl, rfl, rfl, rfl, ?_⟩
    intro d hd
    rw [hslot side d hd]
    rfl
  · intro a ha d hd
    rw [hslot .left a ha, hslot .right d hd]
    exact .new le_rfl

instance (s : RedundantSession) (out : OutboundPacket) (i : Fin 2) (binding : ObservedBinding) :
    Decidable (Arrives s out i binding) :=
  decidable_of_iff (slotIndex out.slot = some i ∧ (s.paths i).state = .active ∧
    (s.paths i).binding = some binding) ⟨fun h => ⟨h.1, h.2.1, h.2.2⟩, fun h => ⟨h.1, h.2, h.3⟩⟩

instance (P : Pact) (s : RedundantSession) (out : OutboundPacket) : Decidable (Acceptable P s out) :=
  decidable_of_iff (out.packet.length ≤ P.budget 0 ∧ s.receiveGeneration ≠ u64Max)
    ⟨fun h => ⟨h.1, h.2⟩, fun h => ⟨h.1, h.2⟩⟩

instance (side : Side) (call : Call) : Decidable (pact.Agrees side call) :=
  match call with
  | .activate admission budget _ => inferInstanceAs (Decidable (budget = pact.budget 1 ∧
      admission.localLoc = pact.loc side 1 ∧ admission.peerLoc = pact.loc side.peer 1))
  | .previewInbound .. | .previewMobilityInbound .. | .commitInbound _ | .abortInbound _
  | .dropPreview _ | .prepareMobilityCommit .. | .dropCommit _ | .commitMobility ..
  | .issueOwner .. | .outbound _ | .confirmSent .. | .removePath _ | .expire _ | .tick _ | .close =>
    inferInstanceAs (Decidable True)

instance (l : Flow) (a : Act) : Decidable (l.Permitted .sample pact a) := by
  cases a <;> unfold Flow.Permitted <;> infer_instance

/-- Both sides take slot one into use. -/
def activate (act : Call → Act) (side : Side) : List Act :=
  [act (.issueOwner 9 false 0), act (.activate ⟨⟨5, 9, ⟨role side⟩, 0⟩, 5, 9,
    Redundant.Sample.binding, loc 1 side, loc 1 side.peer, 1⟩ 1280 (10 + role side))]

def both : List Act := activate .sender .left ++ activate .receiver .right

/-- A delivery goes out on both slots, and its first copy arrives. -/
def short : Flow :=
  Machine.exec (step .sample) start (both ++ [.sender (.outbound [1, 2, 3]),
    .deliver Redundant.Sample.binding 1000])

/-- A longer delivery goes out on slot one alone. -/
def long : Flow :=
  Machine.exec (step .sample) start (both ++ [.sender (.removePath 0),
    .sender (.outbound (List.replicate 217 7))])

theorem short_reach : Reach .sample pact short :=
  Machine.Reach.exec (.start starts) _ (by decide +kernel)

theorem long_reach : Reach .sample pact long :=
  Machine.Reach.exec (.start starts) _ (by decide +kernel)

end Flow.Sample

/-- Without slot zero the sender goes up to the budget of slot one, and the peer does not. -/
theorem enqueued_not_receivable : ¬ ∀ (C : Crypto) (P : Pact) (l : Flow), C.Correct →
    Flow.Reach C P l → ∀ x rest, l.wire = x :: rest → ∀ i binding nowMs,
      Arrives l.receiver.session x.out i binding →
      ∃ o, (l.receiver.session.inbound C l.receiver.leases x.out.slot binding x.out.packet
        nowMs).2 = .ok o := by
  intro h
  have hlong : Flow.Sample.long.wire.any (fun x => Flow.Sample.long.wire = [x] ∧
      Arrives Flow.Sample.long.receiver.session x.out 1 Sample.binding ∧
      (Flow.Sample.long.receiver.session.inbound .sample Flow.Sample.long.receiver.leases x.out.slot
        Sample.binding x.out.packet 1000).2.toOption.isNone = true) = true := by decide +kernel
  simp only [List.any_eq_true, decide_eq_true_eq] at hlong
  obtain ⟨x, -, hwire, ha, hnone⟩ := hlong
  obtain ⟨o, ho⟩ := h .sample _ _ Crypto.sample_correct Flow.Sample.long_reach x [] hwire 1
    Sample.binding 1000 ha
  rw [ho] at hnone
  cases hnone

theorem enqueued_receivable_short : ∃ x, Flow.Sample.short.wire = [x] ∧ x.bytes = [1, 2, 3] ∧
    ∃ o, (Flow.Sample.short.receiver.session.inbound .sample Flow.Sample.short.receiver.leases
      x.out.slot Sample.binding x.out.packet 1000).2 = .ok o := by
  have hshort : Flow.Sample.short.wire.any (fun x => Flow.Sample.short.wire = [x] ∧
      x.bytes = [1, 2, 3] ∧ Arrives Flow.Sample.short.receiver.session x.out 1 Sample.binding ∧
      Acceptable Flow.Sample.pact Flow.Sample.short.receiver.session x.out) = true := by
    decide +kernel
  simp only [List.any_eq_true, decide_eq_true_eq] at hshort
  obtain ⟨x, -, hwire, hbytes, ha, hx⟩ := hshort
  obtain ⟨hiff, -⟩ := enqueued_receivable Crypto.sample_correct Flow.Sample.short_reach
  exact ⟨x, hwire, hbytes, (hiff x [] hwire 1 Sample.binding 1000 ha).mpr hx⟩

end R8.Redundant
