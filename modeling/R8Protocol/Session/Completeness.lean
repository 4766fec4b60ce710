import R8Protocol.Session.Meeting

/-! What an honest handshake is good for: every message gets through until a counter runs out. -/
namespace R8.Session

open FixedWidth Wire Duplex

variable {C : Crypto} {w : Meeting} {client : ClientMachine} {server : ServerMachine}

/-- The locations in a datagram that a server takes. -/
theorem ServerMachine.receiveData_locs {m : ServerMachine} {packet payload plaintext : List Byte}
    {nowMs : U64} {header : Header}
    (hu : Header.unpackWithBudget packet m.config.budget = .ok (header, payload))
    (h : (m.receiveData C packet nowMs).2 = .ok plaintext) :
    header.src = m.effectivePeerLoc ∧ header.dst = m.effectiveLocalLoc := by
  unfold receiveData at h
  split at h
  · simp at h
  · rename_i m' p hp
    replace hp := congrArg Prod.snd hp
    have hsame : (m.expire nowMs).config = m.config ∧
        (m.expire nowMs).effectivePeerLoc = m.effectivePeerLoc ∧
        (m.expire nowMs).effectiveLocalLoc = m.effectiveLocalLoc := ⟨rfl, rfl, rfl⟩
    obtain ⟨hconfig, hpeer, hlocal⟩ := hsame
    simp only [previewDataWithLocs, expire_expire, hconfig, hpeer, hlocal, hu, Except.mapError,
      bind, Except.bind] at hp
    split at hp
    · simp at hp
    · simp only [previewData, Outcome.bind_eq_ok, validateDataHeader, Outcome.ite_error_eq_ok,
        List.not_mem_nil, not_false_eq_true, and_true] at hp
      obtain ⟨⟨⟩, hheader, -⟩ := hp
      push Not at hheader
      exact ⟨hheader.2.2.2.2.1, hheader.2.2.2.2.2⟩

namespace Meeting

/-- Messages that fit, delivered in order and before the entry has idled out. -/
def Deliverable (C : Crypto) (w : Meeting) (client : ClientMachine) (server : ServerMachine)
    (events : List (Event (List Byte) U64)) : Prop :=
  (∀ event ∈ events, event.Fits fun plaintext => plaintext.length + 76 ≤ w.client.config.budget) ∧
    Along (clientPort C) (serverPort C w.scid) (Awake (fun _ _ => True) (ServerMachine.Live w.scid))
      ⟨client, server, [], []⟩ events

/-- The last counter is never used, and the client's first one went to its confirmation. -/
def Countable {α : Type} (events : List (Event α U64)) : Prop :=
  leftSent events ≤ 2 ^ 64 - 3 ∧ rightSent events ≤ 2 ^ 64 - 2

/-- Every message of a run comes out at the other end as it went in. -/
def Exchanges (C : Crypto) (w : Meeting) (client : ClientMachine) (server : ServerMachine) :
    Prop :=
  ∀ events, w.Deliverable C client server events → Countable events →
    (Duplex.run (clientPort C) (serverPort C w.scid) ⟨client, server, [], []⟩ events).isSome

/-- The same for the slot-zero sessions of the two bootstraps. -/
def ExchangesProfile3 (C : Crypto) (w : Meeting) (client : ClientMachine)
    (server : ServerMachine) : Prop :=
  ∃ x y a b, client.takeProfile3Bootstrap.2 = .ok x ∧
    (server.takeProfile3Bootstrap w.scid).2 = .ok y ∧
    x.takeSlot0.2 = .ok a ∧ y.takeSlot0.2 = .ok b ∧
    ∀ events : List (Event (U64 × List Byte) U64),
      (∀ event ∈ events, event.Fits fun message =>
        (message.1 ≠ 0 ∧ message.1 ≠ u64Max) ∧ message.2.length + 84 ≤ w.client.config.budget) →
      Countable events → (Duplex.run (slotPort C x) (slotPort C y) ⟨a, b, [], []⟩ events).isSome

variable {e : ClientSession} {e' : EstablishedSession}

theorem exchanges (hC : C.Correct) (h : w.Honest C) (hp : w.Prompt)
    (hj : Joined C w client server e e') (hw : w.AtHome) : Exchanges C w client server := by
  rintro events ⟨hfits, hawake⟩ ⟨hleft, hright⟩
  obtain ⟨hn, hk⟩ := hj.counters
  have hready : Ready C w.client.config w.server.config w.scid ⟨client, server, [], []⟩
      (0 + leftSent events) (0 + rightSent events) := by
    have htwo : (2 : U64).val = 2 := rfl
    have hone : (1 : U64).val = 1 := rfl
    refine ⟨e, e', hj.linked hw, ?_, ?_⟩
    · rw [hn, htwo]
      omega
    · rw [hk, hone]
      omega
  obtain ⟨w', hrun, -⟩ := (linked_keeps hC h.mirrored hp.budget h.scid).run hfits hawake hready
  rw [hrun]
  rfl

/-- One empty message of the client, read at once. -/
def firstMessage : List (Event (List Byte) U64) := [.leftSends [], .rightReceives 0]

theorem deliverable_firstMessage (h : w.Honest C) :
    w.Deliverable C client server firstMessage ∧ Countable firstMessage := by
  have hroom := h.mirrored.room.1
  refine ⟨⟨?_, trivial, fun v _ => ⟨fun _ e _ _ => ?_, fun _ _ => trivial⟩⟩, ?_⟩
  · intro event hevent
    simp only [firstMessage, List.mem_cons, List.not_mem_nil, or_false] at hevent
    rcases hevent with rfl | rfl
    · change ([] : List Byte).length + 76 ≤ _
      rw [List.length_nil]
      omega
    · trivial
  · simp [satSub]
  · simp [Countable, leftSent, rightSent, firstMessage, Event.fromLeft, Event.fromRight]

/-- The server takes a message of the client under its own locations only. -/
theorem atHome_of_firstMessage (h : w.Honest C) (hp : w.Prompt)
    (hj : Joined C w client server e e')
    (hrun : (Duplex.run (clientPort C) (serverPort C w.scid) ⟨client, server, [], []⟩
      firstMessage).isSome) : w.AtHome := by
  have hl := hj.joint
  have hstate : client.state = .established e := hl.clientState
  have hconfig : client.config = w.client.config := hl.clientConfig
  have hconfig' : server.config = w.server.config := hl.serverConfig
  obtain ⟨hsource, hdestination⟩ : client.effectiveLocalLoc = w.client.config.source ∧
    client.effectivePeerLoc = w.client.config.destination := hl.clientLocs
  obtain ⟨hprofile, hbudget⟩ := h.mirrored.bounds
  have hroom := h.mirrored.room.1
  have hnext := hj.counters.1
  rw [← hconfig] at hprofile hbudget hroom
  have hcan : e.session.canReserve := by
    rw [DirectionalSession.canReserve, Counters.canReserve, hnext]
    decide
  have hfits : ([] : List Byte).length + 76 ≤ client.config.budget := by
    rw [List.length_nil]
    omega
  obtain ⟨a', calls, call, packet, hsend, -, hplain⟩ := ClientMachine.sendData_ok (C := C)
    hstate hprofile (by rw [hl.scids.1]; exact h.scid) hbudget hfits hcan
  have hread : (server.receiveData C packet 0).2.toOption = some [] := by
    by_contra hne
    simp [firstMessage, Duplex.run, Duplex.step, clientPort, serverPort, hsend, hne,
      show (Except.ok packet : Except SessionError _).toOption = some packet from rfl] at hrun
  obtain ⟨hcarries, -, hlen⟩ := hplain
  have hunpack : Header.unpackWithBudget packet server.config.budget = .ok
      (sesHeader w.client.config.profile 1 e.scid w.client.config.source
        w.client.config.destination, packet.drop 48) := by
    rw [← hsource, ← hdestination, ← hconfig]
    exact hcarries.unpack _ (by rwa [hconfig', hp.budget, ← hconfig])
  obtain ⟨hlocal, hpeer⟩ := hj.locs
  cases hok : (server.receiveData C packet 0).2 with
  | error _ => simp [hok, Except.toOption] at hread
  | ok plaintext =>
    obtain ⟨hsrc, hdst⟩ := ServerMachine.receiveData_locs hunpack hok
    exact ⟨hlocal.symm.trans (hdst.symm.trans h.mirrored.destination.symm),
      hpeer.symm.trans (hsrc.symm.trans h.mirrored.source.symm)⟩

/-- Nobody sleeps in a world in which all are always awake. -/
theorem along_awake {σ ρ α β τ : Type} [DecidableEq α] (p : Port σ α β τ) (q : Port ρ α β τ)
    (events : List (Event α τ)) (v : World σ ρ α β) :
    Along p q (Awake (fun _ _ => True) (fun _ _ => True)) v events := by
  induction events generalizing v with
  | nil => trivial
  | cons event events ih =>
    refine ⟨?_, fun v' _ => ih v'⟩
    cases event <;> simp [Awake]

/-- What each end hands over: its session of slot zero, under its own locations. -/
theorem bootstraps_ok (h : w.Honest C) (hj : Joined C w client server e e')
    (hprofile : w.client.config.profile = 3) :
    ∃ x y, client.takeProfile3Bootstrap.2 = .ok x ∧
      (server.takeProfile3Bootstrap w.scid).2 = .ok y ∧
      x.slot0 = some e.session ∧ y.slot0 = some e'.session ∧ x.scid = w.scid ∧ y.scid = w.scid ∧
      x.budget = w.client.config.budget ∧ y.budget = w.server.config.budget := by
  obtain ⟨hschedule, hschedule'⟩ := hj.schedules hprofile
  have hl := hj.joint
  have hstate : client.state = .established e := hl.clientState
  have hclient : client.config = w.client.config := hl.clientConfig
  have hserver : server.config = w.server.config := hl.serverConfig
  have hprofile' : w.server.config.profile = 3 := by rw [h.mirrored.profile, hprofile]
  obtain ⟨hscid, hscid'⟩ := hl.scids
  obtain ⟨i, hi, hget⟩ := hl.tables.position hl.entry
  rw [hscid'] at hi
  obtain ⟨scid, session, schedule, accept⟩ := e
  dsimp only at hschedule hscid
  subst hschedule
  refine ⟨⟨scid, client.effectiveLocalLoc, client.effectivePeerLoc, w.client.config.budget,
      client.config.localId.role, client.config.peer.role, session.transcriptHash,
      some ((w.handshake C).schedule C), some session⟩,
    ⟨e'.scid, server.effectiveLocalLoc, server.effectivePeerLoc, w.server.config.budget,
      server.config.localId.role, server.config.peer.role, e'.session.transcriptHash,
      some ((w.handshake C).schedule C), some e'.session⟩, ?_, ?_, rfl, rfl, hscid, hscid', rfl, rfl⟩
  · simp [ClientMachine.takeProfile3Bootstrap, hstate, hclient, hprofile]
  · simp only [ServerMachine.takeProfile3Bootstrap, hprofile', ne_eq, not_true_eq_false, if_false, hi,
      hget, hschedule', hserver]

theorem exchangesProfile3 (hC : C.Correct) (h : w.Honest C) (hp : w.Prompt)
    (hj : Joined C w client server e e')
    (hprofile : w.client.config.profile = 3) : ExchangesProfile3 C w client server := by
  obtain ⟨x, y, hx, hy, hxSlot, hySlot, hxScid, hyScid, hxBudget, hyBudget⟩ :=
    bootstraps_ok h hj hprofile
  have hl := hj.joint
  refine ⟨x, y, e.session, e'.session, hx, hy, ?_, ?_, ?_⟩
  · simp [Profile3Bootstrap.takeSlot0, hxSlot]
  · simp [Profile3Bootstrap.takeSlot0, hySlot]
  · rintro events hfits ⟨hleft, hright⟩
    obtain ⟨hn, hk⟩ := hj.counters
    have htwo : (2 : U64).val = 2 := rfl
    have hone : (1 : U64).val = 1 := rfl
    have hslots : Slots C x y ⟨e.session, e'.session, [], []⟩ (0 + leftSent events)
        (0 + rightSent events) := by
      refine ⟨?_, hl.toRight.empty, hl.toLeft.empty, ?_, ?_⟩
      · rw [hxBudget]
        exact ⟨hl.budgets.1, hl.budgets.2.trans hp.budget⟩
      · rw [hn, htwo]
        omega
      · rw [hk, hone]
        omega
    rw [← hxBudget] at hfits
    have hkeep := slots_keep (x := x) (y := y) hC (by rw [hxScid]; exact h.scid)
      (by rw [hyScid]; exact h.scid) (by rw [hxBudget]; exact h.mirrored.bounds.2)
      (by rw [hxBudget, hyBudget]; exact hp.budget)
    obtain ⟨w', hrun, -⟩ := hkeep.run hfits (along_awake _ _ events _) hslots
    rw [hrun]
    rfl

end Meeting

/-- An honest handshake comes about, and carries messages for as long as there are counters, in
the generic layout if and only if the server is where its configuration says. -/
theorem handshake_complete (hC : C.Correct) (h : w.Honest C) (hp : w.Prompt) :
    ∃ client server e e', w.run C = .ok (client, server) ∧
      client.state = .established e ∧ e' ∈ server.established ∧
      e.scid = w.scid ∧ e'.scid = w.scid ∧
      e.session.transcriptHash = e'.session.transcriptHash ∧
      e.session.sendKey = e'.session.receiveKey ∧ e.session.receiveKey = e'.session.sendKey ∧
      (w.client.config.profile ≠ 3 → (w.Exchanges C client server ↔ w.AtHome)) ∧
      (w.client.config.profile = 3 → w.ExchangesProfile3 C client server) := by
  obtain ⟨client, server, e, e', hrun, hj⟩ := Meeting.run_ok hC h hp
  obtain ⟨hscid, hscid'⟩ := hj.joint.scids
  refine ⟨client, server, e, e', hrun, hj.joint.clientState, hj.joint.entry, hscid, hscid',
    hj.transcript, hj.keys.1, hj.keys.2, fun _ => ⟨fun hx => ?_, Meeting.exchanges hC h hp hj⟩,
    Meeting.exchangesProfile3 hC h hp hj⟩
  obtain ⟨hdeliverable, hcountable⟩ := Meeting.deliverable_firstMessage h
  exact Meeting.atHome_of_firstMessage h hp hj (hx _ hdeliverable hcountable)

namespace Scenario

/-- A handshake over a rotation of the cookie key. -/
def meeting (profile : Byte) : Meeting where
  client := Scenario.client profile
  server := Scenario.server profile
  scid := 5
  material := ⟨bytesOf 32 40, bytesOf 32 41⟩
  serverMaterial := ⟨bytesOf 32 42, bytesOf 32 43⟩
  binding := binding
  startMs := 0
  verifyMs := 3000
  ackMs := 4999
  openMs := 9000
  authMs := 13000
  acceptMs := 17999
  rotation := some (bytesOf 32 9, 12000)
  laterRotation := none
  clientOwner := 1
  serverOwner := 2

/-- Of the profile only the configurations have to approve. -/
theorem meeting_honest {profile : Byte} (hclient : (config 1 2 profile).validate .sample = .ok ())
    (hserver : (config 2 1 profile).validate .sample = .ok ()) :
    (meeting profile).Honest .sample where
  mirrored := ⟨hclient, hserver, rfl, rfl, rfl, rfl, rfl,
    (by decide : 282 ≤ 1280 ∧ 282 ≤ 1280)⟩
  client := by
    have hkey : Crypto.sample.verifyingKey (bytesOf 32 1) =
        (config 1 2 profile).localId.publicKey := rfl
    refine ⟨config 1 2 profile, bytesOf 32 1, ?_⟩
    simp only [ClientMachine.new, hclient, hkey, bind, Except.bind]
    rfl
  server := by
    have hkey : Crypto.sample.verifyingKey (bytesOf 32 2) =
        (config 2 1 profile).localId.publicKey := rfl
    refine .start ⟨config 2 1 profile, bytesOf 32 2, ⟨bytesOf 16 5, bytesOf 32 6, bytesOf 32 7, 0⟩, ?_⟩
    simp only [ServerMachine.new, hserver, hkey, bind, Except.bind]
    rfl
  scid := (by decide : (5 : U64) ≠ 0)
  unused := List.not_mem_nil
  pendingRoom := (by decide : 0 < 4)
  shared := (by decide +kernel : Crypto.sample.diffieHellman (bytesOf 32 42)
    (Crypto.sample.x25519Public (bytesOf 32 40)) ≠ zeros 32)
  binding := (by decide : binding.validate = .ok ())
  clientDeadline := (by decide : (3000 : U64) < satAdd 0 5000 ∧ (4999 : U64) < satAdd 0 5000)
  bucket := (by decide : bucketOf 9000 ∈ buckets 13000)
  rotation := (by decide : ∀ r ∈ some (bytesOf 32 9, (12000 : U64)), 9000 ≤ r.2)

theorem meeting_prompt (profile : Byte) : (meeting profile).Prompt where
  budget := rfl
  establishedRoom := (by decide : 0 < 4)
  pendingDeadline := (by decide : (17999 : U64) < satAdd 13000 5000)

/-- The same with a server that an earlier session has moved elsewhere. -/
def movedMeeting : Meeting :=
  { meeting 0 with server := (Scenario.server 0).promoteLocalLoc (bytesOf 16 22) }

theorem movedMeeting_honest (hclient : (config 1 2 0).validate .sample = .ok ())
    (hserver : (config 2 1 0).validate .sample = .ok ()) : movedMeeting.Honest .sample :=
  { meeting_honest hclient hserver with
    server :=
      have hreach := (meeting_honest hclient hserver).server
      hreach.next (a := ServerCall.promoteLocalLoc (bytesOf 16 22)) trivial
    unused := List.not_mem_nil
    pendingRoom := (by decide : 0 < 4) }

theorem movedMeeting_prompt : movedMeeting.Prompt where
  budget := rfl
  establishedRoom := (by decide : 0 < 4)
  pendingDeadline := (by decide : (17999 : U64) < satAdd 13000 5000)

end Scenario

theorem handshake_complete_rotated :
    (∃ client server e e', (Scenario.meeting 0).run .sample = .ok (client, server) ∧
      client.state = .established e ∧ e' ∈ server.established ∧ e.scid = 5 ∧ e'.scid = 5 ∧
      e.session.transcriptHash = e'.session.transcriptHash ∧
      e.session.sendKey = e'.session.receiveKey ∧ e.session.receiveKey = e'.session.sendKey ∧
      (Scenario.meeting 0).Exchanges .sample client server) ∧
    ∃ client server, (Scenario.meeting 3).run .sample = .ok (client, server) ∧
      (Scenario.meeting 3).ExchangesProfile3 .sample client server := by
  constructor
  · obtain ⟨hclient, hserver⟩ := Scenario.config_valid 0 (by simp)
    obtain ⟨client, server, e, e', hrun, hstate, hentry, hscid, hscid', hhash, hsend, hreceive,
      hexchange, -⟩ := handshake_complete Crypto.sample_correct
        (Scenario.meeting_honest hclient hserver) (Scenario.meeting_prompt 0)
    exact ⟨client, server, e, e', hrun, hstate, hentry, hscid, hscid', hhash, hsend, hreceive,
      (hexchange (by decide)).mpr ⟨rfl, rfl⟩⟩
  · obtain ⟨hclient, hserver⟩ := Scenario.config_valid 3 (by simp)
    obtain ⟨client, server, e, e', hrun, -, -, -, -, -, -, -, -, hexchange⟩ :=
      handshake_complete Crypto.sample_correct (Scenario.meeting_honest hclient hserver)
        (Scenario.meeting_prompt 3)
    exact ⟨client, server, hrun, hexchange rfl⟩

section Exhaustion

variable {m : ClientMachine} {e : ClientSession} {plaintext packet : List Byte}

/-- A datagram that goes out takes one counter for good. -/
theorem sendData_counts (hstate : m.state = .established e)
    (h : (m.sendData C plaintext).2.2 = .ok packet) :
    ∃ e', (m.sendData C plaintext).1.state = .established e' ∧
      e'.session.sendCounters.next.val = e.session.sendCounters.next.val + 1 := by
  simp only [ClientMachine.sendData, ClientMachine.sendDataWithLocs, hstate] at h ⊢
  have hok := h
  unfold ClientMachine.encrypt at hok
  obtain ⟨call, -, hseals, -⟩ := encrypt_carries hok
  rw [h, if_neg (by simp)]
  exact ⟨_, rfl, hseals.next_val⟩

theorem run_counts {v v' : World ClientMachine ServerMachine (List Byte) (List Byte)} {scid : U64}
    (hstate : v.left.state = .established e) (n : ℕ)
    (h : Duplex.run (clientPort C) (serverPort C scid) v
      (List.replicate n (.leftSends plaintext)) = some v') :
    ∃ e', v'.left.state = .established e' ∧
      e'.session.sendCounters.next.val = e.session.sendCounters.next.val + n := by
  induction n generalizing v e with
  | zero =>
    obtain rfl := Option.some.inj h
    exact ⟨e, hstate, rfl⟩
  | succ n ih =>
    rw [List.replicate_succ, Duplex.run] at h
    cases hout : (v.left.sendData C plaintext).2.2 with
    | error _ => simp [Duplex.step, clientPort, hout, Except.toOption] at h
    | ok packet =>
      obtain ⟨e', hstate', hnext⟩ := sendData_counts hstate hout
      simp only [Duplex.step, clientPort, hout, Except.toOption] at h
      obtain ⟨e'', hend, hcount⟩ := ih hstate' h
      exact ⟨e'', hend, by omega⟩

theorem along_sends {v : World ClientMachine ServerMachine (List Byte) (List Byte)} {scid : U64}
    (left : ClientMachine → U64 → Prop) (right : ServerMachine → U64 → Prop) (n : ℕ) :
    Along (clientPort C) (serverPort C scid) (Awake left right) v
      (List.replicate n (.leftSends plaintext)) := by
  induction n generalizing v with
  | zero => trivial
  | succ n ih => exact ⟨trivial, fun v' _ => ih⟩

end Exhaustion

/-- Two honest meetings in whose exchange a message is refused: the client of the first has no
counter left for one of these many, the server of the second has moved before. -/
theorem handshake_complete_exhausted :
    ((Scenario.meeting 0).Honest .sample ∧ (Scenario.meeting 0).Prompt ∧
      ∃ client server, (Scenario.meeting 0).run .sample = .ok (client, server) ∧
        (Scenario.meeting 0).Deliverable .sample client server
          (List.replicate (2 ^ 64) (.leftSends [])) ∧
        Duplex.run (clientPort .sample) (serverPort .sample 5) ⟨client, server, [], []⟩
          (List.replicate (2 ^ 64) (.leftSends [])) = none) ∧
    Scenario.movedMeeting.Honest .sample ∧ Scenario.movedMeeting.Prompt ∧
      ∃ client server, Scenario.movedMeeting.run .sample = .ok (client, server) ∧
        Scenario.movedMeeting.Deliverable .sample client server Meeting.firstMessage ∧
        Duplex.run (clientPort .sample) (serverPort .sample 5) ⟨client, server, [], []⟩
          Meeting.firstMessage = none := by
  obtain ⟨hclient, hserver⟩ := Scenario.config_valid 0 (by simp)
  constructor
  · have hhonest := Scenario.meeting_honest hclient hserver
    obtain ⟨client, server, e, e', hrun, hj⟩ := Meeting.run_ok Crypto.sample_correct hhonest
      (Scenario.meeting_prompt 0)
    refine ⟨hhonest, Scenario.meeting_prompt 0, client, server, hrun, ⟨?_, ?_⟩, ?_⟩
    · intro event hevent
      rw [List.eq_of_mem_replicate hevent]
      change ([] : List Byte).length + 76 ≤ (Scenario.meeting 0).client.config.budget
      decide
    · exact along_sends _ _ _
    · by_contra hne
      obtain ⟨v', hv'⟩ := Option.ne_none_iff_exists'.mp hne
      obtain ⟨e'', -, hcount⟩ := run_counts (e := e) hj.joint.clientState _ hv'
      have hlt := e''.session.sendCounters.next.isLt
      omega
  · have hhonest := Scenario.movedMeeting_honest hclient hserver
    obtain ⟨client, server, e, e', hrun, hj⟩ := Meeting.run_ok Crypto.sample_correct hhonest
      Scenario.movedMeeting_prompt
    refine ⟨hhonest, Scenario.movedMeeting_prompt, client, server, hrun,
      (Meeting.deliverable_firstMessage hhonest).1, ?_⟩
    by_contra hne
    have hhome := Meeting.atHome_of_firstMessage hhonest Scenario.movedMeeting_prompt hj
      (Option.isSome_iff_ne_none.mpr hne)
    exact absurd hhome.1 (by decide)

end R8.Session
