import R8Protocol.Session.Close
import R8Protocol.Session.Completeness

/-! When a server lets go of a client that has confirmed, sent data and closed. -/
namespace R8.Session

open FixedWidth Wire

variable {C : Crypto} {accept close packet : List Byte}

/-- A packet of the client that reaches the server. -/
inductive Arrival
  | accept (nowMs : U64)
  | data (packet : List Byte) (nowMs : U64)
  | close (nowMs : U64)

def Arrival.time : Arrival → U64
  | .accept nowMs | .data _ nowMs | .close nowMs => nowMs

/-- One of these datagrams, between the answer of the server and its pending deadline. -/
def Arrival.InTime (w : Meeting) (data : List (List Byte)) (arrival : Arrival) : Prop :=
  (w.authMs ≤ arrival.time ∧ arrival.time < satAdd w.authMs 5000) ∧
    ∀ packet nowMs, arrival = .data packet nowMs → packet ∈ data

def ServerMachine.arrive (C : Crypto) (accept close : List Byte) (m : ServerMachine) :
    Arrival → ServerMachine
  | .accept nowMs => (m.receiveAccept C accept nowMs).1
  | .data packet nowMs => (m.receiveData C packet nowMs).1
  | .close nowMs => (m.receiveClose C close nowMs).1

/-- How far the leave-taking has come: the server as it waits for a confirmation, the greatest
counter taken since, or the end. -/
inductive Stage
  | pending (m : ServerMachine)
  | open (greatest : ℕ)
  | closed

/-- The packet is within the jump that a window makes. -/
def InReach (greatest : ℕ) (packet : List Byte) : Prop := counterOf packet ≤ greatest + 65536

instance (greatest : ℕ) (packet : List Byte) : Decidable (InReach greatest packet) :=
  inferInstanceAs (Decidable (_ ≤ _))

/-- Where a datagram takes the greatest counter. -/
def Raised (server : ServerMachine) (packet : List Byte) (greatest : ℕ) : ℕ :=
  if server.Addressed packet ∧ packet.length ≤ server.config.budget ∧ InReach greatest packet then
    max greatest (counterOf packet)
  else greatest

/-- The confirmation counts once it finds room, and CLOSE only after that. -/
def Stage.next (server : ServerMachine) (accept close : List Byte) : Stage → Arrival → Stage
  | .pending m, arrival =>
    let m := m.expire arrival.time
    match arrival with
    | .accept _ =>
      if m.established.length < m.config.establishedLimit then .open (counterOf accept)
      else .pending m
    | _ => .pending m
  | .open greatest, .accept _ => .open greatest
  | .open greatest, .data packet _ =>
    .open (Raised server packet greatest)
  | .open greatest, .close _ =>
    if server.Addressed close ∧ InReach greatest close then .closed else .open greatest
  | .closed, _ => .closed

variable {w : Meeting} {openAuth ack : List Byte} {m : ServerMachine} {stage : Stage}

/-- An entry that has been confirmed, and has taken nothing above this counter. -/
structure Opened (C : Crypto) (w : Meeting) (close : List Byte) (greatest : ℕ)
    (e : EstablishedSession) : Prop where
  scid : e.scid = w.scid
  key : e.session.receiveKey = (w.clientSession C).sendKey
  receiveBudget : e.session.receiveBudget = w.server.config.budget
  window : ∃ cs, cs ≠ [] ∧ e.session.replay.Refines cs
  largest : e.session.replay.largest.val = greatest
  below : greatest < counterOf close
  active : w.authMs ≤ e.lastActiveMs

/-- What a stage says about the machine. -/
def Stage.Holds (C : Crypto) (w : Meeting) (openAuth ack close : List Byte) :
    Stage → ServerMachine → Prop
  | .pending m', m => m' = m ∧ w.entry C openAuth ack ∈ m.pending
  | .open greatest, m => ∃ e ∈ m.established, Opened C w close greatest e
  | .closed, m => w.scid ∉ m.scids

theorem Stage.Holds.gone_iff (h : stage.Holds C w openAuth ack close m) :
    w.scid ∉ m.scids ↔ stage = .closed := by
  cases stage with
  | pending m' =>
    obtain ⟨-, hmem⟩ := h
    have hscid : w.scid ∈ m.scids := List.mem_append_left _ (List.mem_map.mpr ⟨_, hmem, rfl⟩)
    simp [hscid]
  | «open» greatest =>
    obtain ⟨e, he, hopened⟩ := h
    have hscid : w.scid ∈ m.scids :=
      List.mem_append_right _ (List.mem_map.mpr ⟨e, he, hopened.scid⟩)
    simp [hscid]
  | closed => exact iff_of_true h rfl

/-- What the client has put out: the confirmation, data and CLOSE, under rising counters. -/
structure Parting (C : Crypto) (w : Meeting) (accept close : List Byte) (data : List (List Byte))
    (code : U16) : Prop where
  confirmation : Channel (Plain C 282 (sesHeader w.client.config.profile 1 w.scid
    w.client.config.source w.client.config.destination) SESSION_ACCEPT) (w.sealAccept C).1
      (w.serverSession C) [(accept, ClientMachine.acceptText ((w.handshake C).hash C))]
  acceptScid : u64Of (accept.drop 8) = w.scid
  acceptNext : (w.sealAccept C).1.sendCounters.next.val = counterOf accept + 1
  acceptRange : 1 ≤ counterOf accept ∧ counterOf accept < counterOf close
  data : ∀ packet ∈ data, counterOf packet < counterOf close ∧
    ∃ plaintext, Parcel C w.server.config.profile w.scid (w.clientSession C).sendKey SESSION_DATA
      packet plaintext
  close : Parcel C w.server.config.profile w.scid (w.clientSession C).sendKey CLOSE close
    (u16Bytes code)

/-- What no packet of the client changes. -/
structure Stands (w : Meeting) (server m : ServerMachine) : Prop where
  config : m.config = w.server.config
  same : m.config = server.config
  locs : m.effectiveLocalLoc = server.effectiveLocalLoc ∧
    m.effectivePeerLoc = server.effectivePeerLoc
  tables : m.Tables

variable {server : ServerMachine} {data : List (List Byte)} {code : U16} {nowMs : U64}
  {e : EstablishedSession} {greatest : ℕ}

theorem Stands.addressed (h : Stands w server m) :
    m.Addressed packet ↔ server.Addressed packet := by
  rw [ServerMachine.Addressed, ServerMachine.Addressed, h.locs.1, h.locs.2]

theorem Stands.expire (h : Stands w server m) (nowMs : U64) : Stands w server (m.expire nowMs) :=
  { h with tables := ServerMachine.tables_expire h.tables nowMs }

theorem ServerMachine.absent {scid : U64} (hscid : scid ∉ m.scids) :
    (∀ p ∈ m.pending, p.scid ≠ scid) ∧ ∀ e ∈ m.established, e.scid ≠ scid := by
  constructor
  · intro p hp heq
    exact hscid (List.mem_append_left _ (List.mem_map.mpr ⟨p, hp, heq⟩))
  · intro e he heq
    exact hscid (List.mem_append_right _ (List.mem_map.mpr ⟨e, he, heq⟩))

/-- No entry idles out within the time of a pending one. -/
theorem Opened.stays (h : Opened C w close greatest e) (he : e ∈ m.established)
    (htime : nowMs < satAdd w.authMs 5000) : e ∈ (m.expire nowMs).established := by
  refine List.mem_filter.mpr ⟨he, ?_⟩
  have hactive : w.authMs.val ≤ e.lastActiveMs.val := h.active
  have hlt : nowMs.val < (satAdd w.authMs 5000).val := htime
  have hlimit : (satAdd w.authMs 5000).val ≤ w.authMs.val + 5000 := by
    rw [satAdd_val]
    exact min_le_left _ _
  rw [decide_eq_true_eq, satSub_val]
  omega

theorem entry_stays (he : w.entry C openAuth ack ∈ m.pending)
    (htime : nowMs < satAdd w.authMs 5000) :
    w.entry C openAuth ack ∈ (m.expire nowMs).pending :=
  List.mem_filter.mpr ⟨he, decide_eq_true htime⟩

theorem absent_stays (h : w.scid ∉ m.scids) (nowMs : U64) : w.scid ∉ (m.expire nowMs).scids :=
  fun hmem => h ((ServerMachine.scids_expire m nowMs).subset hmem)

/-- The confirmation makes an entry of what was pending. -/
theorem accept_opens (hC : C.Correct) (h : w.Honest C)
    (hp : Parting C w accept close data code) (hs : Stands w server m)
    (he : w.entry C openAuth ack ∈ m.pending) (hstart : w.authMs ≤ nowMs)
    (htime : nowMs < satAdd w.authMs 5000)
    (hroom : (m.expire nowMs).established.length < m.config.establishedLimit) :
    Stands w server (m.receiveAccept C accept nowMs).1 ∧
      ∃ e ∈ (m.receiveAccept C accept nowMs).1.established,
        Opened C w close (counterOf accept) e := by
  have htables := ServerMachine.tables_step (C := C) hs.tables (.receiveAccept accept nowMs)
  obtain ⟨i, w', -, hreceive, hrest⟩ := receiveAccept_ok hC h.mirrored hs.config hs.tables
    (entry_stays he htime) (by rwa [← hs.config]) h.mirrored.room.2 hp.confirmation
  obtain ⟨hkey, ⟨cs, hr⟩, hflight⟩ := hrest
  have hlargest := hflight.of_nil
  have hnext := hp.acceptNext
  have hrange := hp.acceptRange
  dsimp only at hlargest hr
  rw [ServerMachine.step, hreceive] at htables
  rw [hreceive]
  refine ⟨⟨hs.config, hs.same, hs.locs, htables⟩, _, List.mem_append_right _ (List.mem_singleton.mpr rfl), ?_⟩
  exact {
    scid := rfl
    key := rfl
    receiveBudget := rfl
    window := ⟨cs, hr.ne_nil_iff.mpr (by omega), hr⟩
    largest := by
      change w'.largest.val = counterOf accept
      omega
    below := hrange.2
    active := hstart }

/-- A parcel at the addresses of the machine carries their header. -/
theorem Parcel.plain {profile typ : Byte} {scid : U64} {key : Bytes 32} {plaintext : List Byte}
    {budget : ℕ} (h : Parcel C profile scid key typ packet plaintext) (ha : m.Addressed packet)
    (hfit : packet.length ≤ budget) :
    ∃ call, Plain C budget (sesHeader profile 1 scid m.effectivePeerLoc m.effectiveLocalLoc) typ
      call packet plaintext := by
  obtain ⟨call, src, dst, hc, -, hplain⟩ := h
  obtain ⟨hheader, -⟩ := unpack_eq_ok (hc.unpack _ hc.bound)
  obtain ⟨hsrc, hdst⟩ := ha
  rw [← hheader] at hsrc hdst
  obtain rfl : src = m.effectivePeerLoc := hsrc
  obtain rfl : dst = m.effectiveLocalLoc := hdst
  exact ⟨call, hc, hplain, hfit⟩

theorem raised_of_le (h : counterOf packet ≤ greatest) : Raised server packet greatest = greatest := by
  unfold Raised
  split
  · exact max_eq_left h
  · rfl

/-- An entry opens a parcel that its window takes. -/
theorem Opened.opens (hC : C.Correct) (ho : Opened C w close greatest e) {typ : Byte}
    {plaintext : List Byte}
    (hp : Parcel C w.server.config.profile w.scid (w.clientSession C).sendKey typ packet plaintext)
    (ht : typ ∈ [SESSION_ACCEPT, SESSION_DATA, CLOSE])
    (hfit : packet.length ≤ w.server.config.budget) {token : ReplayCommit} {w' : ReplayWindow}
    (htoken : e.session.replay.preview (u64Of (packet.drop 52)) = .ok token)
    (hcommit : e.session.replay.commit token = (w', .ok ())) :
    ∃ p, e.session.preview C packet = .ok p ∧
      e.session.commit p = ({ e.session with replay := w' }, .ok plaintext) := by
  refine ⟨_, hp.preview hC ht ho.key (by rwa [ho.receiveBudget]) htoken, ?_⟩
  simp [DirectionalSession.commit, hcommit]

theorem data_raises (hC : C.Correct) {plaintext : List Byte}
    (hp : Parcel C w.server.config.profile w.scid (w.clientSession C).sendKey SESSION_DATA packet
      plaintext) (hbelow : counterOf packet < counterOf close) (hs : Stands w server m)
    (he : e ∈ m.established) (ho : Opened C w close greatest e) (hstart : w.authMs ≤ nowMs)
    (htime : nowMs < satAdd w.authMs 5000) :
    Stands w server (m.receiveData C packet nowMs).1 ∧
      ∃ e' ∈ (m.receiveData C packet nowMs).1.established,
        Opened C w close (Raised server packet greatest) e' := by
  have he' := ho.stays he htime
  have hscid : e.scid = u64Of (packet.drop 8) := by
    rw [hp.header.2, ho.scid]
  obtain ⟨cs, hne, hr⟩ := ho.window
  have hlargest := ho.largest
  have hrange := hp.range
  by_cases hmine : m.Addressed packet ∧ packet.length ≤ m.config.budget
  · rcases hr.reach hne hrange.2 with
      ⟨token, w', htoken, hcommit, hr', hgreatest, hjump⟩ | ⟨⟨e', hrefused⟩, hfar⟩
    · obtain ⟨p, hpreview, hopens⟩ := ho.opens hC hp (by decide) (by rw [← hs.config]; exact hmine.2)
        htoken hcommit
      rw [← hs.config, ← ho.scid] at hp
      obtain ⟨call, hplain⟩ := hp.plain hmine.1 hmine.2
      obtain ⟨i, hi, hreceive⟩ := ServerMachine.receiveData_ok hs.tables he' hplain hpreview hopens
      have htables := ServerMachine.tables_step (C := C) hs.tables (.receiveData packet nowMs)
      have hraised : Raised server packet greatest = max greatest (counterOf packet) := by
        refine if_pos ⟨hs.addressed.mp hmine.1, ?_, ?_⟩
        · rw [← hs.same]
          exact hmine.2
        · rw [← hlargest]
          exact hjump
      rw [ServerMachine.step, hreceive] at htables
      rw [hreceive, hraised]
      refine ⟨⟨hs.config, hs.same, hs.locs, htables⟩, _, List.mem_set i.isLt _, ?_⟩
      exact { ho with
        window := ⟨_, List.cons_ne_nil _ _, hr'⟩
        largest := by
          change w'.largest.val = max greatest (counterOf packet)
          rw [hgreatest, hlargest, counterOf]
        below := max_lt ho.below hbelow
        active := hstart }
    · have hpreview := preview_refused (C := C) hrefused
      have hsame := ServerMachine.receiveData_rejected hs.tables he' hscid fun _ _ => hpreview
      have hraised : Raised server packet greatest = greatest := by
        rcases hfar with hold | hfar
        · exact raised_of_le (by rw [← hlargest]; exact hold)
        · refine if_neg fun hreach => ?_
          have hin : counterOf packet ≤ greatest + 65536 := hreach.2.2
          have hout : e.session.replay.largest.val + 65536 < counterOf packet := hfar
          omega
      rw [hsame, hraised]
      exact ⟨hs.expire nowMs, e, he', ho⟩
  · have hsame := ServerMachine.receiveData_rejected (C := C) hs.tables he' hscid
      fun ha hfit => absurd ⟨ha, hfit⟩ hmine
    have hraised : Raised server packet greatest = greatest := by
      refine if_neg fun hreach => hmine ⟨hs.addressed.mpr hreach.1, ?_⟩
      rw [hs.same]
      exact hreach.2.1
    rw [hsame, hraised]
    exact ⟨hs.expire nowMs, e, he', ho⟩

/-- An SCID stands in one row only. -/
theorem ServerMachine.removed_absent (h : m.Tables) {scid : U64} {i : Fin m.established.length}
    (hi : m.position scid = some i) : scid ∉ (m.removeEstablished i).scids := by
  have hscid := position_scid hi
  have hrow : (scid :: (m.established.eraseIdx i).map EstablishedSession.scid).Perm
      (m.established.map EstablishedSession.scid) := by
    have hperm := (List.getElem_cons_eraseIdx_perm i.isLt).map EstablishedSession.scid
    rw [List.map_cons] at hperm
    rwa [← hscid]
  have hperm : (scid :: (m.removeEstablished i).scids).Perm m.scids :=
    List.perm_middle.symm.trans (hrow.append_left _)
  exact (List.nodup_cons.mp (hperm.nodup_iff.mpr h.single)).1

/-- CLOSE ends the session unless it is misaddressed or too far ahead. -/
theorem close_ends (hC : C.Correct) (h : w.Honest C)
    (hp : Parcel C w.server.config.profile w.scid (w.clientSession C).sendKey CLOSE close
      (u16Bytes code)) (hs : Stands w server m) (he : e ∈ m.established)
    (ho : Opened C w close greatest e) (htime : nowMs < satAdd w.authMs 5000) :
    Stands w server (m.receiveClose C close nowMs).1 ∧
      (if server.Addressed close ∧ InReach greatest close then Stage.closed
        else .open greatest).Holds C w openAuth ack close (m.receiveClose C close nowMs).1 := by
  have he' := ho.stays he htime
  have hscid : e.scid = u64Of (close.drop 8) := by
    rw [hp.header.2, ho.scid]
  obtain ⟨cs, hne, hr⟩ := ho.window
  have hlargest := ho.largest
  have hbelow := ho.below
  have hrange := hp.range
  by_cases hreach : server.Addressed close ∧ InReach greatest close
  · rw [if_pos hreach]
    have hjump : counterOf close ≤ greatest + 65536 := hreach.2
    have hfit : close.length ≤ m.config.budget := by
      obtain ⟨call, src, dst, hc, -, hplain⟩ := hp
      have hroom := h.mirrored.room.2
      rw [hc.length, hplain, u16Bytes_length, hs.config]
      omega
    rcases hr.reach hne hrange.2 with
      ⟨token, w', htoken, hcommit, -, -, -⟩ | ⟨-, hfar⟩
    · obtain ⟨p, hpreview, hopens⟩ := ho.opens hC hp (by decide) (by rw [← hs.config]; exact hfit)
        htoken hcommit
      rw [← ho.scid] at hp
      obtain ⟨i, hi, hreceive⟩ := ServerMachine.receiveClose_ok hs.tables he'
        (congrArg HandshakeConfig.profile hs.config) (hs.addressed.mpr hreach.1) hp hfit hpreview
        hopens
      have htables := ServerMachine.tables_step (C := C) hs.tables (.receiveClose close nowMs)
      rw [ServerMachine.step, hreceive] at htables
      rw [hreceive]
      refine ⟨⟨hs.config, hs.same, hs.locs, htables⟩, ?_⟩
      rw [ho.scid] at hi
      exact ServerMachine.removed_absent (hs.expire nowMs).tables hi
    · have hfar' : counterOf close ≤ e.session.replay.largest.val ∨
          e.session.replay.largest.val + 65536 < counterOf close := hfar
      omega
  · rw [if_neg hreach]
    have hsame := ServerMachine.receiveClose_rejected (C := C) hs.tables he' hscid fun ha => by
      rcases hr.reach hne hrange.2 with
        ⟨-, -, -, -, -, -, hjump⟩ | ⟨⟨e', hrefused⟩, -⟩
      · refine absurd ⟨hs.addressed.mp ha, ?_⟩ hreach
        rw [← hlargest]
        exact hjump
      · exact preview_refused hrefused
    rw [hsame]
    exact ⟨hs.expire nowMs, e, he', ho⟩

theorem Stage.Holds.arrive (hC : C.Correct) (h : w.Honest C)
    (hp : Parting C w accept close data code) (hs : Stands w server m)
    (hholds : stage.Holds C w openAuth ack close m) {arrival : Arrival}
    (htime : arrival.InTime w data) :
    Stands w server (m.arrive C accept close arrival) ∧
      (stage.next server accept close arrival).Holds C w openAuth ack close
        (m.arrive C accept close arrival) := by
  obtain ⟨⟨hstart, htime⟩, hdata⟩ := htime
  have hexpire := hs.expire arrival.time
  have hcloseScid := hp.close.header.2
  cases stage with
  | pending m' =>
    obtain ⟨rfl, he⟩ := hholds
    have he' := entry_stays he htime
    have hother := hexpire.tables.pendingOnly he'
    cases arrival with
    | accept nowMs =>
      by_cases hroom : (m'.expire nowMs).established.length < m'.config.establishedLimit
      · obtain ⟨hstands, hopened⟩ := accept_opens hC h hp hs he hstart htime hroom
        refine ⟨hstands, ?_⟩
        have hnext : Stage.next server accept close (.pending m') (.accept nowMs) =
            .open (counterOf accept) := if_pos hroom
        rw [hnext]
        exact hopened
      · have hsame : (m'.receiveAccept C accept nowMs).1 = m'.expire nowMs :=
          ServerMachine.receiveAccept_full (not_lt.mp hroom)
        have hnext : Stage.next server accept close (.pending m') (.accept nowMs) =
            .pending (m'.expire nowMs) := if_neg hroom
        rw [hnext, ServerMachine.arrive, hsame]
        exact ⟨hexpire, rfl, he'⟩
    | data packet nowMs =>
      obtain ⟨-, plaintext, hparcel⟩ := hp.data packet (hdata packet nowMs rfl)
      have hsame : (m'.receiveData C packet nowMs).1 = m'.expire nowMs := by
        apply ServerMachine.receiveData_absent
        rw [hparcel.header.2]
        exact hother
      rw [ServerMachine.arrive, hsame]
      exact ⟨hexpire, rfl, he'⟩
    | close nowMs =>
      have hsame : (m'.receiveClose C close nowMs).1 = m'.expire nowMs := by
        apply ServerMachine.receiveClose_absent
        rw [hcloseScid]
        exact hother
      rw [ServerMachine.arrive, hsame]
      exact ⟨hexpire, rfl, he'⟩
  | «open» greatest =>
    obtain ⟨e, he, ho⟩ := hholds
    have he' := ho.stays he htime
    cases arrival with
    | accept nowMs =>
      have hsame : (m.receiveAccept C accept nowMs).1 = m.expire nowMs := by
        apply ServerMachine.receiveAccept_same
        intro p hpending heq
        apply hexpire.tables.pendingOnly hpending e he'
        rw [heq, hp.acceptScid, ho.scid]
      rw [ServerMachine.arrive, hsame]
      exact ⟨hexpire, e, he', ho⟩
    | data packet nowMs =>
      obtain ⟨hbelow, plaintext, hparcel⟩ := hp.data packet (hdata packet nowMs rfl)
      exact data_raises hC hparcel hbelow hs he ho hstart htime
    | close nowMs => exact close_ends hC h hp.close hs he ho htime
  | closed =>
    have habsent := absent_stays hholds arrival.time
    obtain ⟨hpending, hestablished⟩ := ServerMachine.absent habsent
    cases arrival with
    | accept nowMs =>
      have hsame : (m.receiveAccept C accept nowMs).1 = m.expire nowMs := by
        apply ServerMachine.receiveAccept_same
        rw [hp.acceptScid]
        exact hpending
      rw [ServerMachine.arrive, hsame]
      exact ⟨hexpire, habsent⟩
    | data packet nowMs =>
      obtain ⟨-, plaintext, hparcel⟩ := hp.data packet (hdata packet nowMs rfl)
      have hsame : (m.receiveData C packet nowMs).1 = m.expire nowMs := by
        apply ServerMachine.receiveData_absent
        rw [hparcel.header.2]
        exact hestablished
      rw [ServerMachine.arrive, hsame]
      exact ⟨hexpire, habsent⟩
    | close nowMs =>
      have hsame : (m.receiveClose C close nowMs).1 = m.expire nowMs := by
        apply ServerMachine.receiveClose_absent
        rw [hcloseScid]
        exact hestablished
      rw [ServerMachine.arrive, hsame]
      exact ⟨hexpire, habsent⟩

theorem Stage.Holds.run (hC : C.Correct) (h : w.Honest C)
    (hp : Parting C w accept close data code) (arrivals : List Arrival)
    (htime : ∀ arrival ∈ arrivals, arrival.InTime w data) (hs : Stands w server m)
    (hholds : stage.Holds C w openAuth ack close m) :
    (arrivals.foldl (Stage.next server accept close) stage).Holds C w openAuth ack close
      (arrivals.foldl (ServerMachine.arrive C accept close) m) := by
  induction arrivals generalizing m stage with
  | nil => exact hholds
  | cons arrival arrivals ih =>
    obtain ⟨hnow, hlater⟩ := List.forall_mem_cons.mp htime
    obtain ⟨hs', hholds'⟩ := hholds.arrive hC h hp hs hnow
    exact ih hlater hs' hholds'

theorem ClientMachine.established_of_close {m : ClientMachine}
    (h : (m.close C code).2.2 = .ok close) : ∃ e, m.state = .established e := by
  cases hstate : m.state with
  | established e => exact ⟨e, rfl⟩
  | _ =>
    simp only [ClientMachine.close, hstate] at h
    cases h

/-- The confirmation takes the first counter, and what follows it the ones above. -/
theorem parting_of_close (h : w.Honest C) (haccept : (w.sealAccept C).2.2 = .ok accept)
    {calls : List ClientCall}
    (hclose : ((Machine.exec (ClientMachine.step C) (w.confirmedClient C accept) calls).close C
      code).2.2 = .ok close) :
    Parting C w accept close ((w.confirmedClient C accept).sentData C calls) code := by
  obtain ⟨call, -, hchannel⟩ := Meeting.sealAccept_channel haccept
  obtain ⟨hparcel, hcounter, -, hnext⟩ := parcel_of_encrypt haccept
  obtain ⟨e, hend⟩ := ClientMachine.established_of_close hclose
  obtain ⟨hscid, hadvances, hsent⟩ := ClientMachine.sentData_parcels calls rfl hend
  obtain ⟨hlast, hlastCounter, -⟩ := ClientMachine.close_parcel hend hclose
  have hprofile : w.server.config.profile = w.client.config.profile := h.mirrored.profile
  have hadvanced : (w.sealAccept C).1.sendCounters.next.val ≤ e.session.sendCounters.next.val :=
    hadvances.counter
  have hfirst : (w.clientSession C).sendCounters.next.val = 1 := rfl
  have hkey : (w.sealAccept C).1.sendKey = (w.clientSession C).sendKey :=
    (encrypt_advances C (w.clientSession C) _ _ _ _).keys.1
  have hconfirmed : (w.confirmedClient C accept).config.profile = w.server.config.profile :=
    hprofile.symm
  rw [ClientMachine.config_exec, hconfirmed, hscid, hadvances.keys.1, hkey] at hlast
  rw [hconfirmed, hkey] at hsent
  exact {
    confirmation := hchannel
    acceptScid := hparcel.header.2
    acceptNext := by rw [hcounter]; exact hnext
    acceptRange := by
      rw [hcounter, hlastCounter]
      exact ⟨hfirst.ge, lt_of_lt_of_le (Nat.lt_succ_self _) (hnext.ge.trans hadvanced)⟩
    data := by
      intro packet hpacket
      obtain ⟨hparcel', -, hbelow⟩ := hsent packet hpacket
      exact ⟨hlastCounter ▸ hbelow, hparcel'⟩
    close := hlast }

/-- A server lets go of a client that has closed iff CLOSE reaches it after a confirmation that
found room, and no further ahead than its window jumps. -/
theorem close_converges_iff (hC : C.Correct) (h : w.Honest C) {client : ClientMachine}
    {answered : ServerMachine} (hconfirm : w.confirm C = .ok (client, answered, accept))
    {others : List ServerCall}
    (hserver : Machine.exec (ServerMachine.step C) answered others = server)
    (hkept : ∀ p ∈ answered.pending, p.scid = w.scid → p ∈ server.pending)
    {calls : List ClientCall}
    (hclose : ((Machine.exec (ClientMachine.step C) client calls).close C code).2.2 = .ok close)
    {arrivals : List Arrival}
    (htime : ∀ arrival ∈ arrivals, arrival.InTime w (client.sentData C calls)) :
    w.scid ∉ (arrivals.foldl (ServerMachine.arrive C accept close) server).scids ↔
      arrivals.foldl (Stage.next server accept close) (.pending server) = .closed := by
  obtain ⟨openAuth, ack, accept', haccept, hreach, hconfirm'⟩ := Meeting.confirm_ok hC h
  obtain ⟨rfl, rfl, rfl⟩ : client = w.confirmedClient C accept' ∧
      answered = w.answeringServer C openAuth ack ∧ accept = accept' := by
    simpa using hconfirm.symm.trans hconfirm'
  have hp := parting_of_close h haccept hclose
  have hmem : w.entry C openAuth ack ∈ server.pending :=
    hkept _ (List.mem_append_right _ (List.mem_singleton.mpr rfl)) rfl
  have hconfig : server.config = w.server.config := by
    rw [← hserver, ServerMachine.step_config_exec]
    exact w.atAuth_eq.1
  have htables : server.Tables := by
    rw [← hserver]
    exact ServerMachine.tables_exec (ServerMachine.tables_reach hreach) others
  have hholds : (Stage.pending server).Holds C w openAuth ack close server := ⟨rfl, hmem⟩
  exact (hholds.run hC h hp arrivals htime ⟨hconfig, rfl, ⟨rfl, rfl⟩, htables⟩).gone_iff

namespace Scenario

/-- What a handshake leaves: the client, the server and the confirmation. -/
def confirmed : ClientMachine × ServerMachine × List Byte :=
  ((meeting 0).confirm .sample).toOption.get (by decide +kernel)

theorem confirm_confirmed :
    (meeting 0).confirm .sample = .ok (confirmed.1, confirmed.2.1, confirmed.2.2) := by
  have h : ((meeting 0).confirm .sample).toOption = some confirmed := by simp [confirmed]
  rw [Prod.mk.eta]
  exact Outcome.toOption_eq_some.mp h

/-- One message. -/
def talk : List ClientCall :=
  [.sendData [1, 2, 3] (config 1 2 0).source (config 1 2 0).destination]

def spoken : List Byte := (confirmed.1.sentData .sample talk).head (by decide +kernel)

def farewell : List Byte :=
  ((Machine.exec (ClientMachine.step .sample) confirmed.1 talk).close .sample 0).2.2.toOption.get
    (by decide +kernel)

theorem farewell_sent :
    ((Machine.exec (ClientMachine.step .sample) confirmed.1 talk).close .sample 0).2.2 =
      .ok farewell := by
  have h : ((Machine.exec (ClientMachine.step .sample) confirmed.1 talk).close .sample
    0).2.2.toOption = some farewell := by simp [farewell]
  exact Outcome.toOption_eq_some.mp h

/-- The message overtakes the confirmation, and both come twice. -/
def disordered : List Arrival :=
  [.data spoken 14000, .accept 15000, .data spoken 15500, .close 16000, .accept 17000]

theorem disordered_inTime :
    ∀ arrival ∈ disordered, arrival.InTime (meeting 0) (confirmed.1.sentData .sample talk) := by
  have hspoken : spoken ∈ confirmed.1.sentData .sample talk := List.head_mem _
  have hdata : ∀ arrival ∈ disordered, ∀ packet nowMs, arrival = .data packet nowMs →
      packet = spoken := by
    simp [disordered]
  have htime : ∀ arrival ∈ disordered,
      (13000 : U64) ≤ arrival.time ∧ arrival.time < satAdd 13000 5000 := by
    decide
  intro arrival harrival
  refine ⟨htime arrival harrival, ?_⟩
  rintro packet nowMs rfl
  rw [hdata _ harrival packet nowMs rfl]
  exact hspoken

theorem disordered_closed :
    disordered.foldl (Stage.next confirmed.2.1 confirmed.2.2 farewell) (.pending confirmed.2.1) =
      .closed := by
  obtain ⟨hroom, haccept, hspoken, hclose⟩ :
      ((confirmed.2.1.expire 14000).expire 15000).established.length <
        ((confirmed.2.1.expire 14000).expire 15000).config.establishedLimit ∧
      counterOf confirmed.2.2 = 1 ∧ Raised confirmed.2.1 spoken 1 = 2 ∧
      confirmed.2.1.Addressed farewell ∧ InReach 2 farewell := by
    decide +kernel
  simp only [disordered, List.foldl_cons, List.foldl_nil, Stage.next, Arrival.time, if_pos hroom,
    haccept, hspoken, if_pos hclose]

end Scenario

theorem close_converges_disordered :
    (5 : U64) ∉ (Scenario.disordered.foldl (ServerMachine.arrive .sample Scenario.confirmed.2.2
      Scenario.farewell) Scenario.confirmed.2.1).scids := by
  obtain ⟨hclient, hserver⟩ := Scenario.config_valid 0 (by simp)
  have hothers : Machine.exec (ServerMachine.step .sample) Scenario.confirmed.2.1 [] =
      Scenario.confirmed.2.1 := List.foldl_nil
  exact (close_converges_iff Crypto.sample_correct (Scenario.meeting_honest hclient hserver)
    Scenario.confirm_confirmed hothers (fun p hp _ => hp) Scenario.farewell_sent
    Scenario.disordered_inTime).mpr Scenario.disordered_closed

/-- A CLOSE that overtakes its confirmation is lost, and the confirmation opens the session. -/
theorem close_converges_overtaken :
    (Scenario.meeting 0).Honest .sample ∧
      (Scenario.meeting 0).confirm .sample =
        .ok (Scenario.confirmed.1, Scenario.confirmed.2.1, Scenario.confirmed.2.2) ∧
      ((Machine.exec (ClientMachine.step .sample) Scenario.confirmed.1 Scenario.talk).close .sample
        0).2.2 = .ok Scenario.farewell ∧
      (∀ arrival ∈ [Arrival.close 14000, .accept 15000], arrival.InTime (Scenario.meeting 0) []) ∧
      5 ∈ ([Arrival.close 14000, .accept 15000].foldl (ServerMachine.arrive .sample
        Scenario.confirmed.2.2 Scenario.farewell) Scenario.confirmed.2.1).scids := by
  obtain ⟨hclient, hserver⟩ := Scenario.config_valid 0 (by simp)
  refine ⟨Scenario.meeting_honest hclient hserver, Scenario.confirm_confirmed,
    Scenario.farewell_sent, ?_, ?_⟩
  · have htime : ∀ arrival ∈ [Arrival.close 14000, .accept 15000],
        (13000 : U64) ≤ arrival.time ∧ arrival.time < satAdd 13000 5000 := by decide
    have hdata : ∀ arrival ∈ [Arrival.close 14000, .accept 15000],
        ∀ packet nowMs, arrival = .data packet nowMs → packet ∈ ([] : List (List Byte)) := by simp
    exact fun arrival harrival => ⟨htime arrival harrival, hdata arrival harrival⟩
  · decide +kernel

end R8.Session
