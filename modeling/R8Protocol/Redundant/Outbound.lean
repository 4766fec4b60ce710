import R8Protocol.Redundant.Healthy
import R8Protocol.Redundant.Scenario
import R8Protocol.Redundant.Sending

/-! Sending is all or nothing: one packet on every path in use, or none, or the end of the session. -/
namespace R8.Session.ClientMachine

open FixedWidth Wire

variable {C : Crypto} {m : ClientMachine}

/-- Whatever handshake or session a client is in has an id. -/
def Named (m : ClientMachine) : Prop :=
  match m.state with
  | .cookieWait wait => wait.scid ≠ 0
  | .authWait wait => wait.scid ≠ 0
  | .established e => e.scid ≠ 0
  | .idle | .released => True

theorem Named.established {e : ClientSession} (h : m.Named) (hs : m.state = .established e) :
    e.scid ≠ 0 := by
  simpa only [Named, hs] using h

theorem Named.withSession {e : ClientSession} (h : m.Named) (hs : m.state = .established e)
    (session : DirectionalSession) : Named { m with state := .established { e with session } } := by
  have he : e.scid ≠ 0 := h.established hs
  exact he

theorem Named.authWait {wait : AuthWait} (h : m.Named) (hs : m.state = .authWait wait) :
    wait.scid ≠ 0 := by
  simpa only [Named, hs] using h

theorem Named.cookieWait {wait : CookieWait} (h : m.Named) (hs : m.state = .cookieWait wait) :
    wait.scid ≠ 0 := by
  simpa only [Named, hs] using h

theorem Named.release (h : m.Named) (nowMs : U64) : (m.releaseCookieWaitIfExpired nowMs).1.Named := by
  unfold releaseCookieWaitIfExpired
  split
  · split
    · trivial
    · exact h
  · exact h

theorem Named.receiveVerify (h : m.Named) (packet : List Byte) (nowMs : U64) :
    (m.receiveVerify C packet nowMs).1.Named := by
  have hm := h.release nowMs
  unfold ClientMachine.receiveVerify
  generalize m.releaseCookieWaitIfExpired nowMs = r at hm ⊢
  obtain ⟨m', _ | _⟩ := r
  · dsimp only
    split
    · rename_i wait hs
      split
      · split
        · exact hm.cookieWait hs
        · trivial
      · exact hm
    · split <;> exact hm
    · exact hm
  · exact hm

theorem Named.receiveAck (h : m.Named) (packet : List Byte) (nowMs : U64) (owner : ℕ) :
    (m.receiveAck C packet nowMs owner).1.Named := by
  unfold ClientMachine.receiveAck
  split
  · rename_i wait hs
    split
    · trivial
    · split
      · exact h
      · dsimp only
        split
        · exact h
        · exact h.authWait hs
  · exact h
  · exact h

theorem Named.commitData (h : m.Named) (p : DataPreview) : (m.commitData p).1.Named := by
  unfold ClientMachine.commitData
  split
  · exact h
  · split
    · rename_i e hs
      split
      · exact h.withSession hs _
      · exact h
    · exact h

theorem Named.receiveClose (h : m.Named) (packet : List Byte) :
    (m.receiveClose C packet).1.Named := by
  unfold ClientMachine.receiveClose
  split
  · rename_i e hs
    split
    · exact h
    · split
      · exact h
      · split
        · exact h.withSession hs _
        · split
          · exact h.withSession hs _
          · trivial
  · exact h

theorem Named.step (h : m.Named) (call : ClientCall) : (m.step C call).Named := by
  cases call with
  | start scid material nowMs =>
    simp only [ClientMachine.step, start]
    split
    · split
      · exact h
      · rename_i hscid
        split
        · exact h
        · exact hscid
    · exact h
  | retry nowMs =>
    have hm := h.release nowMs
    simp only [ClientMachine.step, retry]
    split <;> simp_all
  | expire nowMs =>
    simp only [ClientMachine.step, expire]
    split
    · split
      · trivial
      · exact h
    · split
      · trivial
      · exact h
    · exact h
  | receiveVerify packet nowMs => exact h.receiveVerify packet nowMs
  | receiveAck packet nowMs owner => exact h.receiveAck packet nowMs owner
  | sendData plaintext source destination =>
    simp only [ClientMachine.step, sendDataWithLocs]
    split
    · rename_i e hs
      dsimp only
      split
      · trivial
      · exact h.withSession hs _
    · exact h
  | close code =>
    simp only [ClientMachine.step, close]
    split
    · rename_i e hs
      split
      · trivial
      · trivial
      · exact h.withSession hs _
    · exact h
  | receiveData packet =>
    simp only [ClientMachine.step, receiveData]
    split
    · exact h
    · exact h.commitData _
  | commitData preview => exact h.commitData preview
  | commitProtectedReplay proof =>
    simp only [ClientMachine.step, commitProtectedReplay]
    split
    · rename_i e hs
      exact h.withSession hs _
    · exact h
  | receiveClose packet => exact h.receiveClose packet
  | takeProfile3Bootstrap =>
    simp only [ClientMachine.step, takeProfile3Bootstrap]
    split
    · exact h
    · split
      · trivial
      · exact h
  | promoteLocalLoc loc => exact h
  | promotePeerLoc loc => exact h

theorem Reach.named (h : Reach C m) : m.Named := by
  refine Machine.Reach.invariant (I := Named) ?_ (fun m call hm _ => hm.step call) h
  rintro m ⟨config, signingKey, hnew⟩
  simp only [new, Outcome.bind_eq_ok, Outcome.ite_error_eq_ok, Except.ok.injEq] at hnew
  obtain ⟨⟨⟩, -, -, rfl⟩ := hnew
  trivial

end R8.Session.ClientMachine

namespace R8.Redundant

open FixedWidth Wire Session Mobility

/-- Both ends check the id of a session before there is one. -/
theorem HandedOver.scid_ne_zero {C : Crypto} {b : Profile3Bootstrap} (h : HandedOver C b) :
    b.scid ≠ 0 := by
  rcases h with ⟨m, hr, hb⟩ | ⟨m, scid, hr, hb⟩
  · have hn := ClientMachine.Reach.named hr
    unfold ClientMachine.takeProfile3Bootstrap at hb
    split at hb
    · simp at hb
    · split at hb
      · rename_i hs
        obtain rfl := Except.ok.inj hb
        exact hn.established hs
      · simp at hb
  · have hh := ServerMachine.healthy_reach hr
    unfold ServerMachine.takeProfile3Bootstrap at hb
    split at hb
    · simp at hb
    · split at hb
      · simp at hb
      · rename_i i hi
        dsimp only at hb
        split at hb
        · obtain rfl := Except.ok.inj hb
          have hscid := ServerMachine.position_scid hi
          exact hscid ▸ hh.position_ne_zero hi
        · simp at hb

/-- What a session in use can send with, and what is left of one that was closed. -/
structure Supplied (s : RedundantSession) : Prop where
  cap : ∀ i, (s.paths i).budget ≤ SERIALIZED_R8_MAX
  boot : s.state = .active → ∃ b, s.bootstrap = some b ∧ b.scid ≠ 0
  erased : s.state = .released → s.bootstrap = none ∧ s.admissionIssuer = none

/-- Nothing is left but the events. -/
structure Erased (s : RedundantSession) : Prop where
  state : s.state = .released
  paths : ∀ i, s.paths i = ⟨.released, none, none, none, (s.paths i).budget, none, [], 0⟩
  dedup : s.dedup = []
  bootstrap : s.bootstrap = none
  issuer : s.admissionIssuer = none

/-- One more packet on a path, sealed under the next counter of the path. -/
structure Sent (s s' : RedundantSession) (id : U64) (length : ℕ) (i : Fin 2)
    (out : OutboundPacket) : Prop where
  slot : slotIndex out.slot = some i
  binding : (s.paths i).binding = some out.binding
  length : out.packet.length = length
  id : u64Of (out.packet.drop 60) = id
  path : ∃ d counter, (s.paths i).session = some d ∧
    u64Of (out.packet.drop 52) = d.sendCounters.next ∧ counter.val = d.sendCounters.next.val + 1 ∧
    s'.paths i = { s.paths i with
      session := some { d with sendCounters := ⟨counter⟩ }
      queuedBytes := (s.paths i).queuedBytes + out.packet.length
      queue := (s.paths i).queue ++ [out] }

/-- The three ways a call of `outbound` ends. -/
inductive AllOrNone (s : RedundantSession) (leases : Leases) (plaintext : List Byte)
    (r : (RedundantSession × Leases) × List SealCall × Except RedundantError SendOutcome) : Prop
  | enqueued (packets : List OutboundPacket)
      (hr : r.2.2 = .ok (.enqueued s.nextDelivery packets))
      (hsent : List.Forall₂ (Sent s r.1.1 s.nextDelivery (plaintext.length + OVERHEAD))
        s.activePaths packets)
      (hother : ∀ i ∉ s.activePaths, r.1.1.paths i = s.paths i)
      (hnext : r.1.1.nextDelivery.val = s.nextDelivery.val + 1)
      (hframe : r.1 = ({ s with paths := r.1.1.paths, nextDelivery := r.1.1.nextDelivery }, leases))
  | unchanged (hr : r.2.2 = .ok .droppedNewest ∨ r.2.2 = .error .mtuExceeded)
      (hframe : r.1 = ({ s with events := r.1.1.events }, leases))
  | ended (hr : ∃ e, r.2.2 = .error e) (herased : Erased r.1.1)
      (hlease : s.state = .active → r.1.1.receivePreview = none)

section

variable {C : Crypto} {g : Option ℕ} {s s' : RedundantSession} {calls : List SealCall} {i : Fin 2}
  {id : U64} {plaintext : List Byte} {b : Profile3Bootstrap} {w : World}

theorem Supplied.setPath (h : Supplied s) (i : Fin 2) {p : Path}
    (hp : p.budget ≤ SERIALIZED_R8_MAX) : Supplied (s.setPath i p) := by
  refine ⟨?_, h.boot, h.erased⟩
  intro j
  by_cases hj : j = i
  · subst hj
    simpa [RedundantSession.setPath] using hp
  · simpa [RedundantSession.setPath, hj] using h.cap j

theorem Move.supplied (hm : Move C g s calls s') (h : Supplied s) : Supplied s' := by
  cases hm with
  | frame hf =>
    refine ⟨by simpa only [hf.paths] using h.cap, ?_, ?_⟩
    · rw [hf.state, hf.bootstrap]
      exact h.boot
    · intro hr
      obtain ⟨hb, hi⟩ := h.erased (hf.state ▸ hr)
      refine ⟨hf.bootstrap.trans hb, ?_⟩
      rcases hf.issuer with hsame | hnone
      · exact hsame.trans hi
      · exact hnone
  | issue capability hg ha => exact ⟨h.cap, h.boot, fun hr => by simp [ha] at hr⟩
  | reread i => exact h.setPath i (h.cap i)
  | count i => exact h.setPath i (h.cap i)
  | send i => exact h.setPath i (h.cap i)
  | pop i => exact h.setPath i (h.cap i)
  | spend b hb =>
    refine ⟨h.cap, ?_, ?_⟩
    · intro ha
      obtain ⟨b', hb', hscid⟩ := h.boot ha
      obtain rfl := Option.some.inj (hb.symm.trans hb')
      exact ⟨_, rfl, hscid⟩
    · intro hr
      simp [(h.erased hr).1] at hb
  | use b admission budget owner d hb ha h1 hbudget =>
    obtain ⟨b', hb', hscid⟩ := h.boot ha
    obtain rfl := Option.some.inj (hb.symm.trans hb')
    have hspent : Supplied { s with bootstrap := some { b with schedule := none } } :=
      ⟨h.cap, fun _ => ⟨_, rfl, hscid⟩, fun hr => by simp [ha] at hr⟩
    refine hspent.setPath 1 ?_
    simp only [budgetAllowed, decide_eq_true_eq] at hbudget
    exact hbudget.2
  | retire i => exact h.setPath i (h.cap i)
  | remember id bytes nowMs ha =>
    obtain ⟨dedup, hframe⟩ := remember_frame C s id bytes nowMs
    rw [hframe]
    exact ⟨h.cap, h.boot, h.erased⟩
  | close hc =>
    refine ⟨?_, by simp [hc.state], fun _ => ⟨hc.bootstrap, hc.issuer⟩⟩
    intro i
    rw [hc.paths]
    exact h.cap i

theorem Moves.supplied (hm : Moves C g s calls s') : Supplied s → Supplied s' :=
  hm.preserves (P := fun s t => Supplied s → Supplied t) (fun _ => id) (fun h h' => h' ∘ h)
    Move.supplied

theorem new_supplied {binding : ObservedBinding} {seed : U64} {owner : ℕ} (hb : b.scid ≠ 0)
    (h : RedundantSession.new b binding seed owner = .ok s) : Supplied s := by
  obtain ⟨d, hd, hbudget, hs⟩ := new_eq_ok h
  simp only [budgetAllowed, decide_eq_true_eq] at hbudget
  have hcap : b.budget ≤ SERIALIZED_R8_MAX := hbudget.2
  refine ⟨?_, fun _ => ⟨_, hs.bootstrap, hb⟩, by simp [hs.state]⟩
  intro i
  fin_cases i
  · simpa [hs.path0] using hcap
  · simpa [hs.path1] using hcap

/-- Closing a session leaves nothing behind. -/
theorem close_erased (ha : s.state = .active) (leases : Leases) :
    Erased (s.close leases).1 ∧ (s.close leases).1.receivePreview = none := by
  unfold RedundantSession.close
  rw [if_neg (by simp [ha])]
  exact ⟨⟨rfl, fun _ => rfl, rfl, rfl, rfl⟩, rfl⟩

theorem Supplied.released (h : Supplied s) (hs : s.Sound) (hr : s.state = .released) : Erased s := by
  obtain ⟨hpaths, hdedup⟩ := hs.released hr
  obtain ⟨hb, hi⟩ := h.erased hr
  refine ⟨hr, ?_, hdedup, hb, hi⟩
  intro i
  obtain ⟨hbinding, hl, hp, hd, hq, hbytes⟩ := (hs.paths i).unused (by simp [hpaths i])
  have hstate := hpaths i
  generalize s.paths i = p at hbinding hl hp hd hq hbytes hstate ⊢
  obtain ⟨state, binding, localLoc, peerLoc, budget, session, queue, queuedBytes⟩ := p
  simp_all

/-- A path that takes a packet is sent one, and nothing else changes. -/
theorem sendOn_sent (C : Crypto) (hb : s.bootstrap = some b) (hscid : b.scid ≠ 0)
    (hid : id ≠ u64Max) (h : Ready (s.paths i) plaintext) :
    let r := s.sendOn C i id plaintext
    ∃ out, r.2.2 = .ok out ∧ Sent s r.1 id (plaintext.length + OVERHEAD) i out ∧
      r.1 = { s with paths := r.1.paths } ∧ ∀ j, j ≠ i → r.1.paths j = s.paths j := by
  obtain ⟨src, dst, hheader⟩ := header_eq hb h
  obtain ⟨binding, hbinding⟩ := Option.isSome_iff_exists.mp h.bound.1
  obtain ⟨d, hd, hres⟩ := h.session
  obtain ⟨packet, hok⟩ := encrypt_ok i C src dst hscid hid h.fits h.cap hres
  have hlength := Moves.encryptProfile3Data_length hok
  rcases encryptProfile3Data_cases C d (slotHeader i b.scid src dst) id plaintext (s.paths i).budget
    with ⟨-, ⟨e, he⟩, -⟩ | ⟨call, packet', -, hseals, himage, hdelivery, hok'⟩
  · rw [hok] at he
    cases he
  · obtain rfl := Except.ok.inj (hok.symm.trans hok')
    simp only [RedundantSession.sendOn, hheader, hbinding, hd, hok, hseals.next]
    refine ⟨_, rfl, ⟨?_, hbinding, hlength, hdelivery, d, satAdd d.sendCounters.next 1, hd,
      himage.counter.trans hseals.counter, ?_, ?_⟩, rfl, ?_⟩
    · fin_cases i <;> rfl
    · -- the counter was not the last one
      have hlast : d.sendCounters.next.val ≠ u64Max.val := fun h => hseals.below (Fin.ext h)
      have hlt := d.sendCounters.next.isLt
      simp only [u64Max] at hlast
      simp only [satAdd]
      omega
    · simp [RedundantSession.setPath, hbinding]
    · intro j hj
      simp [RedundantSession.setPath, hj]

/-- What is sent on one path does not depend on what was sent on another before. -/
theorem Sent.before {t : RedundantSession} {length : ℕ} {out : OutboundPacket}
    (h : Sent t s' id length i out) (ht : t.paths i = s.paths i) : Sent s s' id length i out := by
  obtain ⟨hslot, hbinding, hlength, hid, hpath⟩ := h
  rw [ht] at hbinding hpath
  exact ⟨hslot, hbinding, hlength, hid, hpath⟩

theorem Sent.after {t : RedundantSession} {length : ℕ} {out : OutboundPacket}
    (h : Sent s t id length i out) (ht : s'.paths i = t.paths i) : Sent s s' id length i out := by
  obtain ⟨hslot, hbinding, hlength, hid, d, counter, hd, hn, hc, hpath⟩ := h
  exact ⟨hslot, hbinding, hlength, hid, d, counter, hd, hn, hc, ht.trans hpath⟩

theorem sendAll_sent (C : Crypto) (hb : s.bootstrap = some b) (hscid : b.scid ≠ 0)
    (hid : id ≠ u64Max) (is : List (Fin 2)) (hnodup : is.Nodup)
    (h : ∀ i ∈ is, Ready (s.paths i) plaintext) :
    let r := s.sendAll C id plaintext is
    ∃ packets, r.2.2 = .ok packets ∧
      List.Forall₂ (Sent s r.1 id (plaintext.length + OVERHEAD)) is packets ∧
      r.1 = { s with paths := r.1.paths } ∧ ∀ j ∉ is, r.1.paths j = s.paths j := by
  induction is generalizing s with
  | nil => exact ⟨[], rfl, .nil, rfl, fun _ _ => rfl⟩
  | cons i is ih =>
    obtain ⟨hi, hnodup⟩ := List.nodup_cons.mp hnodup
    obtain ⟨out, hout, hsent, hframe, hother⟩ :=
      sendOn_sent C hb hscid hid (h i List.mem_cons_self)
    unfold RedundantSession.sendAll
    generalize s.sendOn C i id plaintext = r at hout hsent hframe hother ⊢
    obtain ⟨t, calls, e | packet⟩ := r
    · simp at hout
    · obtain rfl := Except.ok.inj hout
      have hkept : ∀ j ∈ is, t.paths j = s.paths j := fun j hj =>
        hother j fun hji => hi (hji ▸ hj)
      have hbt : t.bootstrap = some b := (congrArg RedundantSession.bootstrap hframe).trans hb
      obtain ⟨packets, hok, hrest, hframe', hother'⟩ := ih (s := t) hbt hnodup
        fun j hj => hkept j hj ▸ h j (List.mem_cons_of_mem i hj)
      dsimp only
      generalize t.sendAll C id plaintext is = r' at hok hrest hframe' hother' ⊢
      obtain ⟨u, calls', res⟩ := r'
      obtain rfl : res = .ok packets := hok
      refine ⟨packet :: packets, rfl, .cons (hsent.after (hother' i hi)) ?_, ?_, ?_⟩
      · have hwith := (List.forall₂_and_left is packets).mpr ⟨fun j hj => hkept j hj, hrest⟩
        exact hwith.imp fun _ _ hboth => hboth.2.before hboth.1
      · dsimp only at hframe hframe' ⊢
        rw [hframe', hframe]
      · intro j hj
        rw [List.mem_cons, not_or] at hj
        exact (hother' j hj.2).trans (hother j hj.1)

/-- Once the preflight is passed, every path in use is sent its packet. -/
theorem outbound_all (C : Crypto) (hs : s.Sound) (hsup : Supplied s) (leases : Leases)
    (plaintext : List Byte) : AllOrNone s leases plaintext (s.outbound C leases plaintext) := by
  unfold RedundantSession.outbound
  split
  · rename_i hstate
    have hr : s.state = .released := by
      cases h : s.state
      · exact absurd h hstate
      · rfl
    exact .ended ⟨_, rfl⟩ (hsup.released hs hr) fun ha => absurd ha hstate
  · rename_i hstate
    have ha := not_not.mp hstate
    obtain ⟨b, hb, hscid⟩ := hsup.boot ha
    dsimp only
    split
    · -- a session in use has a path in use
      rename_i hnone
      obtain ⟨i, hi⟩ := hs.active.mp ha
      have hmem : i ∈ s.activePaths := by
        refine List.mem_filter.mpr ⟨?_, by simpa using hi⟩
        fin_cases i <;> simp
      rw [hnone] at hmem
      cases hmem
    · split
      · exact .unchanged (.inr rfl) rfl
      · exact .unchanged (.inl rfl) rfl
      · obtain ⟨herased, hpreview⟩ := close_erased ha leases
        exact .ended ⟨_, rfl⟩ herased fun _ => hpreview
      · rename_i hblocks
        split
        · obtain ⟨herased, hpreview⟩ := close_erased ha leases
          exact .ended ⟨_, rfl⟩ herased fun _ => hpreview
        · rename_i next hnext
          have hnext := checkedAdd_eq_some.mp hnext
          have hid : s.nextDelivery ≠ u64Max := by
            intro hmax
            have hlt := next.isLt
            rw [hmax] at hnext
            simp [u64Max] at hnext
            omega
          obtain ⟨packets, hok, hsent, hframe, hother⟩ := sendAll_sent C hb hscid hid s.activePaths
            (Moves.nodup_activePaths s) fun i hi =>
              ready_of_sound hs hsup.cap hi (List.findSome?_eq_none_iff.mp hblocks i hi)
          generalize s.sendAll C s.nextDelivery plaintext s.activePaths = r
            at hok hsent hframe hother ⊢
          obtain ⟨t, calls, res⟩ := r
          obtain rfl : res = .ok packets := hok
          refine .enqueued packets rfl ?_ hother (by simpa using hnext) ?_
          · exact hsent.imp fun _ _ h => h.after rfl
          · dsimp only at hframe ⊢
            rw [hframe]

/-- Runs of a session whose bootstrap an endpoint handed over. -/
def World.Begins (C : Crypto) (w : World) : Prop :=
  (∃ bootstrap binding deliverySeed owner, HandedOver C bootstrap ∧
    RedundantSession.new bootstrap binding deliverySeed owner = .ok w.session) ∧
  w.previews = [] ∧ w.prepared = [] ∧ w.deliveries = []

abbrev World.Lives (C : Crypto) (w : World) : Prop :=
  Machine.Reach (World.Begins C) (World.step C) World.Owned w

theorem World.Lives.reach (h : World.Lives C w) : World.Reach C w := by
  induction h with
  | start h =>
    obtain ⟨⟨bootstrap, binding, seed, owner, -, hnew⟩, hrest⟩ := h
    exact .start ⟨⟨bootstrap, binding, seed, owner, hnew⟩, hrest⟩
  | next _ ha ih => exact .next ih ha

theorem World.Lives.supplied (h : World.Lives C w) : Supplied w.session := by
  refine Machine.Reach.invariant (I := fun w => Supplied w.session) ?_
    (fun w call hs _ => (World.step_moves C w call).supplied hs) h
  rintro w ⟨⟨bootstrap, binding, seed, owner, hover, hnew⟩, -⟩
  exact new_supplied hover.scid_ne_zero hnew

/-- Whatever a session has been through, a call of `outbound` sends the plaintext on every path in
use under one delivery id, or leaves every path and the id as they are, or ends the session. -/
theorem outbound_all_or_none (h : World.Lives C w) (plaintext : List Byte) :
    AllOrNone w.session w.leases plaintext (w.session.outbound C w.leases plaintext) :=
  outbound_all C h.reach.sound h.supplied w.leases plaintext

end

/-- The session of the served client, before anything was sent. -/
def Scenario.fresh : Except RedundantError RedundantSession :=
  RedundantSession.new Scenario.bootstrap (Scenario.bindingOf 1) 1 0

/-- The session once slot one is in use as well, under an admission for its slot zero. -/
def Scenario.paired (s : RedundantSession) : World :=
  let slot0 := ((s.paths 0).session.map DirectionalSession.profile3ReplayBinding).getD ⟨0⟩
  Machine.exec (World.step .sample) (World.start s) [.issueOwner 9 false 0,
    .activate ⟨⟨5, 9, slot0, 0⟩, 5, 9, bindingOf 2, bytesOf 16 22, bytesOf 16 23, 1⟩ 1280 11]

theorem outbound_all_or_none_enqueued :
    ∃ w, World.Lives .sample w ∧ w.session.activePaths = [0, 1] ∧
      (w.session.outbound .sample w.leases [1, 2, 3]).2.2.toOption.isSome = true ∧
      AllOrNone w.session w.leases [1, 2, 3] (w.session.outbound .sample w.leases [1, 2, 3]) := by
  have hpaired : Scenario.fresh.toOption.any (fun s =>
      let w := Scenario.paired s
      w.session.activePaths = [0, 1] ∧
        (w.session.outbound .sample w.leases [1, 2, 3]).2.2.toOption.isSome = true) = true := by
    decide +kernel
  simp only [Option.any_eq_true, decide_eq_true_eq] at hpaired
  obtain ⟨s, hs, hpaths, hsent⟩ := hpaired
  have hstart : World.Lives .sample (World.start s) := .start ⟨⟨Scenario.bootstrap,
    Scenario.bindingOf 1, 1, 0, Scenario.bootstrap_handedOver, Outcome.toOption_eq_some.mp hs⟩, rfl,
    rfl, rfl⟩
  have hlives : World.Lives .sample (Scenario.paired s) :=
    hstart.exec _ ⟨trivial, trivial, trivial⟩
  exact ⟨_, hlives, hpaths, hsent, outbound_all_or_none hlives [1, 2, 3]⟩

end R8.Redundant
