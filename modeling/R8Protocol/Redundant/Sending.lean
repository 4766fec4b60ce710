import R8Protocol.Redundant.Slots
import R8Protocol.Session.Profile3

/-! Sending on every path in use, all of them or none, so that no delivery id is used twice. -/
namespace R8.Redundant

open FixedWidth Wire Session Mobility

/-- The header of every packet on a slot. -/
def slotHeader (i : Fin 2) (scid : U64) (src dst : Bytes 16) : Header where
  profile := 3
  tc := 0
  nextHeader := NH_SES
  hopLimit := 64
  flags := if i = 0 then 1 else 3
  pathSlot := if i = 0 then 0 else 1
  scid := scid
  src := src
  dst := dst

section

variable {i : Fin 2} {scid counter deliveryId : U64} {src dst : Bytes 16} {plaintext : List Byte}
  {budget : ℕ} {d : DirectionalSession}

theorem slotHeader_data (h : scid ≠ 0) :
    validateProfile3DataHeader (slotHeader i scid src dst) = .ok () := by
  fin_cases i <;> simp [validateProfile3DataHeader, slotHeader, h]

/-- A header without a session is refused before anything is sealed. -/
theorem encrypt_no_scid (C : Crypto) (d : DirectionalSession) (i : Fin 2) (src dst : Bytes 16)
    (deliveryId : U64) (plaintext : List Byte) (budget : ℕ) :
    ∃ e, d.encryptProfile3Data C (slotHeader i 0 src dst) deliveryId plaintext budget =
      (d, [], .error e) := by
  have hbad : validateProfile3DataHeader (slotHeader i 0 src dst) = .error .authFailed := by
    fin_cases i <;> simp [validateProfile3DataHeader, slotHeader]
  unfold DirectionalSession.encryptProfile3Data DirectionalSession.encryptProfile3Guard
  simp only [hbad, bind, Except.bind]
  split
  · exact ⟨_, rfl⟩
  · rename_i hok
    split at hok
    · simp at hok
    · split at hok <;> simp at hok

/-- Whatever passes the checks of `outbound` is sealed. -/
theorem encrypt_ok (i : Fin 2) (C : Crypto) (src dst : Bytes 16) (hscid : scid ≠ 0)
    (hid : deliveryId ≠ u64Max) (hbudget : plaintext.length + OVERHEAD ≤ budget)
    (hmax : budget ≤ SERIALIZED_R8_MAX) (hres : d.canReserve = true) : ∃ packet,
      (d.encryptProfile3Data C (slotHeader i scid src dst) deliveryId plaintext budget).2.2 =
        .ok packet := by
  have hheader : validateProfile3DataHeader (slotHeader i scid src dst) = .ok () :=
    slotHeader_data hscid
  obtain ⟨call, packet, -, -, hok, -⟩ := encryptProfile3Data_carries C hheader hid hbudget
    (hbudget.trans hmax) hres
  exact ⟨packet, hok⟩

end

/-- A path that takes a packet. -/
structure Ready (p : Path) (plaintext : List Byte) : Prop where
  bound : p.binding.isSome ∧ p.localLoc.isSome ∧ p.peerLoc.isSome
  session : ∃ d, p.session = some d ∧ d.canReserve = true
  fits : plaintext.length + OVERHEAD ≤ p.budget
  cap : p.budget ≤ SERIALIZED_R8_MAX

/-- A call of `seal` made for a delivery under the key of a session. -/
structure SealedBy (C : Crypto) (d : DirectionalSession) (id : U64) (plaintext : List Byte)
    (call : SealCall) : Prop where
  key : call.key = d.sendKey
  plaintext : call.plaintext = plaintext
  image : ∃ packet, Image C 68 call packet ∧ u64Of (packet.drop 60) = id

section

variable {C : Crypto} {s : RedundantSession} {i : Fin 2} {id : U64} {plaintext : List Byte}
  {b : Profile3Bootstrap}

theorem header_eq (hb : s.bootstrap = some b) (h : Ready (s.paths i) plaintext) :
    ∃ src dst, s.header i = .ok (slotHeader i b.scid src dst) := by
  obtain ⟨-, hl, hp⟩ := h.bound
  obtain ⟨src, hl⟩ := Option.isSome_iff_exists.mp hl
  obtain ⟨dst, hp⟩ := Option.isSome_iff_exists.mp hp
  refine ⟨src, dst, ?_⟩
  simp only [RedundantSession.header, hb, hl, hp]
  rfl

theorem sendOn_ok (C : Crypto) (hb : s.bootstrap = some b) (hscid : b.scid ≠ 0)
    (hid : id ≠ u64Max) (h : Ready (s.paths i) plaintext) :
    let r := s.sendOn C i id plaintext
    (∃ out, r.2.2 = .ok out) ∧
      (∀ call ∈ r.2.1, ∃ d, (s.paths i).session = some d ∧ SealedBy C d id plaintext call) ∧
      r.1.bootstrap = s.bootstrap ∧ ∀ j, j ≠ i → r.1.paths j = s.paths j := by
  obtain ⟨src, dst, hheader⟩ := header_eq hb h
  obtain ⟨binding, hbinding⟩ := Option.isSome_iff_exists.mp h.bound.1
  obtain ⟨d, hd, hres⟩ := h.session
  obtain ⟨packet, hok⟩ := encrypt_ok i C src dst hscid hid h.fits h.cap hres
  rcases encryptProfile3Data_cases C d (slotHeader i b.scid src dst) id plaintext (s.paths i).budget
    with ⟨-, ⟨e, he⟩, -⟩ | ⟨call, packet', hcalls, hseals, himage, hpacket, -⟩
  · rw [hok] at he
    cases he
  · simp only [RedundantSession.sendOn, hheader, hbinding, hd, hok, hcalls, List.mem_singleton]
    refine ⟨⟨_, rfl⟩, ?_, rfl, ?_⟩
    · rintro call' rfl
      exact ⟨d, rfl, hseals.key, hseals.plaintext, packet', himage, hpacket⟩
    · intro j hj
      simp [RedundantSession.setPath, hj]

theorem sendAll_ok (C : Crypto) (hb : s.bootstrap = some b) (hscid : b.scid ≠ 0)
    (hid : id ≠ u64Max) (is : List (Fin 2)) (hnodup : is.Nodup)
    (h : ∀ i ∈ is, Ready (s.paths i) plaintext) :
    let r := s.sendAll C id plaintext is
    (∃ packets, r.2.2 = .ok packets) ∧
      ∀ call ∈ r.2.1, ∃ i ∈ is, ∃ d, (s.paths i).session = some d ∧ SealedBy C d id plaintext call := by
  induction is generalizing s with
  | nil => exact ⟨⟨[], rfl⟩, by simp [RedundantSession.sendAll]⟩
  | cons i is ih =>
    obtain ⟨hi, hnodup⟩ := List.nodup_cons.mp hnodup
    obtain ⟨⟨out, hout⟩, hcalls, hboot, hother⟩ :=
      sendOn_ok C hb hscid hid (h i List.mem_cons_self)
    unfold RedundantSession.sendAll
    generalize s.sendOn C i id plaintext = r at hout hcalls hboot hother ⊢
    obtain ⟨t, calls, e | packet⟩ := r
    · simp at hout
    · have hkept : ∀ j ∈ is, t.paths j = s.paths j := fun j hj =>
        hother j fun hji => hi (hji ▸ hj)
      obtain ⟨⟨packets, hpackets⟩, hcalls'⟩ := ih (s := t) (hboot.trans hb) hnodup
        fun j hj => hkept j hj ▸ h j (List.mem_cons_of_mem i hj)
      refine ⟨⟨packet :: packets, by simp [hpackets, Except.map]⟩, ?_⟩
      intro call hcall
      rcases List.mem_append.mp hcall with hcall | hcall
      · obtain ⟨d, hd, hsealed⟩ := hcalls call hcall
        exact ⟨i, List.mem_cons_self, d, hd, hsealed⟩
      · obtain ⟨j, hj, d, hd, hsealed⟩ := hcalls' call hcall
        exact ⟨j, List.mem_cons_of_mem i hj, d, hkept j hj ▸ hd, hsealed⟩

/-- Without a session id nothing is sealed on the first path, and there it ends. -/
theorem sendAll_no_scid (C : Crypto) (id : U64) (is : List (Fin 2)) (hb : s.bootstrap = some b)
    (hscid : b.scid = 0) (h : Ready (s.paths i) plaintext) :
    let r := s.sendAll C id plaintext (i :: is)
    (∃ e, r.2.2 = .error e) ∧ r.2.1 = [] := by
  obtain ⟨src, dst, hheader⟩ := header_eq hb h
  obtain ⟨binding, hbinding⟩ := Option.isSome_iff_exists.mp h.bound.1
  obtain ⟨d, hd, -⟩ := h.session
  rw [hscid] at hheader
  obtain ⟨e, he⟩ := encrypt_no_scid C d i src dst id plaintext (s.paths i).budget
  simp only [RedundantSession.sendAll, RedundantSession.sendOn, hheader, hbinding, hd, he]
  exact ⟨⟨_, rfl⟩, trivial⟩

/-- Delivery ids are counted up for as long as the session lives. -/
theorem Move.next_le {g : Option ℕ} {s' : RedundantSession} {calls : List SealCall}
    (h : Move C g s calls s') (ha : s'.state = .active) :
    s.state = .active ∧ s.nextDelivery ≤ s'.nextDelivery := by
  cases h with
  | frame hf => exact ⟨hf.state.symm.trans ha, hf.next⟩
  | remember id bytes nowMs hactive =>
    refine ⟨hactive, ?_⟩
    obtain ⟨dedup, hframe⟩ := remember_frame C s id bytes nowMs
    rw [hframe]
  | close hc => simp [hc.state] at ha
  | _ => exact ⟨ha, le_rfl⟩

theorem Moves.next_le {g : Option ℕ} {s' : RedundantSession} {calls : List SealCall}
    (h : Moves C g s calls s') (ha : s'.state = .active) :
    s.state = .active ∧ s.nextDelivery ≤ s'.nextDelivery := by
  induction h with
  | refl => exact ⟨ha, le_rfl⟩
  | tail _ hm ih =>
    obtain ⟨ht, hle⟩ := hm.next_le ha
    obtain ⟨hs, hle'⟩ := ih ht
    exact ⟨hs, hle'.trans hle⟩

/-- What a call of `outbound` does with delivery ids: it seals nothing and hands none out, or it
hands out the next one, sealed on every path in use. -/
inductive Sends (C : Crypto) (s : RedundantSession) (plaintext : List Byte)
    (r : (RedundantSession × Leases) × List SealCall × Except RedundantError SendOutcome) : Prop
  | nothing (hcalls : r.2.1 = []) (hr : ∀ id packets, r.2.2 ≠ .ok (.enqueued id packets))
  | delivery (ha : s.state = .active) (packets : List OutboundPacket)
      (hr : r.2.2 = .ok (.enqueued s.nextDelivery packets))
      (hnext : r.1.1.nextDelivery.val = s.nextDelivery.val + 1)
      (hcalls : ∀ call ∈ r.2.1, ∃ i d, (s.paths i).session = some d ∧
        SealedBy C d s.nextDelivery plaintext call)

theorem ready_of_sound (hs : s.Sound) (hcap : ∀ i, (s.paths i).budget ≤ SERIALIZED_R8_MAX)
    (hi : i ∈ s.activePaths)
    (hblocks : RedundantSession.Path.blocks (s.paths i) (plaintext.length + OVERHEAD) = none) :
    Ready (s.paths i) plaintext := by
  have ha : (s.paths i).state = .active := by
    simpa using (List.mem_filter.mp hi).2
  obtain ⟨hfits, -, hres⟩ := Moves.blocks_eq_none.mp hblocks
  obtain ⟨hbinding, hl, hp, -⟩ := (hs.paths i).used ha
  refine ⟨⟨hbinding, hl, hp⟩, ?_, hfits, hcap i⟩
  simpa [Option.any_eq_true] using hres

theorem outbound_sends (C : Crypto) (hs : s.Sound)
    (hcap : ∀ i, (s.paths i).budget ≤ SERIALIZED_R8_MAX) (hboot : s.state = .active →
      s.bootstrap.isSome) (leases : Leases) (plaintext : List Byte) :
    Sends C s plaintext (s.outbound C leases plaintext) := by
  unfold RedundantSession.outbound
  split
  · exact .nothing rfl (by simp)
  · rename_i hactive
    have hactive := not_not.mp hactive
    obtain ⟨b, hb⟩ := Option.isSome_iff_exists.mp (hboot hactive)
    dsimp only
    split
    · exact .nothing rfl (by simp)
    · rename_i hpaths
      split
      · exact .nothing rfl (by simp)
      · exact .nothing rfl (by simp)
      · exact .nothing rfl (by simp)
      · rename_i hblocks
        have hready : ∀ i ∈ s.activePaths, Ready (s.paths i) plaintext := fun i hi =>
          ready_of_sound hs hcap hi (List.findSome?_eq_none_iff.mp hblocks i hi)
        split
        · exact .nothing rfl (by simp)
        · rename_i next hnext
          have hnext := checkedAdd_eq_some.mp hnext
          by_cases hscid : b.scid = 0
          · obtain ⟨i, is, his⟩ := List.exists_cons_of_ne_nil hpaths
            obtain ⟨⟨e, he⟩, hcalls⟩ :=
              sendAll_no_scid C s.nextDelivery is hb hscid (hready i (by simp [his]))
            rw [← his] at he hcalls
            generalize s.sendAll C s.nextDelivery plaintext s.activePaths = r at he hcalls ⊢
            obtain ⟨t, calls, e' | packets⟩ := r
            · exact .nothing hcalls (by simp)
            · simp at he
          · have hid : s.nextDelivery ≠ u64Max := by
              intro hmax
              have hlt := next.isLt
              rw [hmax] at hnext
              simp [u64Max] at hnext
              omega
            obtain ⟨⟨packets, hok⟩, hcalls⟩ := sendAll_ok C hb hscid hid s.activePaths
              (Moves.nodup_activePaths s) hready
            generalize s.sendAll C s.nextDelivery plaintext s.activePaths = r at hok hcalls ⊢
            obtain ⟨t, calls, e' | packets'⟩ := r
            · simp at hok
            · refine .delivery hactive packets' rfl (by simpa using hnext) ?_
              intro call hcall
              obtain ⟨i, -, d, hd, hsealed⟩ := hcalls call hcall
              exact ⟨i, d, hd, hsealed⟩

end

end R8.Redundant
