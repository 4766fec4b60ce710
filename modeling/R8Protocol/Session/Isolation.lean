import R8Protocol.Session.Tables

/-! What calls for one session leave to the others of the same server. -/
namespace R8.Session

open FixedWidth Wire

/-- A call that serves one session only. A promotion follows that session's mobility. -/
def ServerCall.OnBehalfOf (a : U64) : ServerCall → Prop
  | .receiveData packet _ | .previewData packet _ _ _ | .receiveClose packet _ =>
    u64Of (packet.drop 8) = a
  | .commitData preview _ => preview.scid = a
  | .commitProtectedReplay scid _ _ | .sendData scid _ _ _ | .close scid _ => scid = a
  | .promoteLocalLoc _ | .promotePeerLoc _ => True
  | _ => False

namespace ServerMachine

variable {C : Crypto} {m m' : ServerMachine} {a scid nowMs : U64} {e : EstablishedSession}
  {packet : List Byte}

/-- The entry outlives the times that a call brings along. -/
def Outlives (e : EstablishedSession) (call : ServerCall) : Prop :=
  ∀ nowMs ∈ call.time?, (satSub nowMs e.lastActiveMs).val < 120000

theorem mem_expire (he : e ∈ m.established) (hlive : (satSub nowMs e.lastActiveMs).val < 120000) :
    e ∈ (m.expire nowMs).established :=
  List.mem_filter.mpr ⟨he, by simpa using hlive⟩

theorem Tables.find (h : Tables m) (he : e ∈ m.established) :
    (m.established.find? fun entry => entry.scid = e.scid) = some e := by
  cases hf : m.established.find? fun entry => entry.scid = e.scid with
  | none =>
    have := List.find?_eq_none.mp hf e he
    simp at this
  | some e' =>
    have hs := List.find?_some hf
    rw [h.unique (List.mem_of_find?_eq_some hf) he (by simpa using hs)]

theorem Tables.position (h : Tables m) (he : e ∈ m.established) :
    ∃ i, m.position e.scid = some i ∧ m.established.get i = e := by
  cases hp : m.position e.scid with
  | none => exact absurd rfl (position_eq_none.mp hp e he)
  | some i => exact ⟨i, rfl, h.unique (List.get_mem _ i) he (position_scid hp)⟩

section Frame

variable {i : Fin m.established.length}

/-- An entry stays when another one is replaced or removed. -/
theorem mem_set_of_position (hi : m.position a = some i) (he : e ∈ m.established)
    (hne : e.scid ≠ a) (x : EstablishedSession) : e ∈ m.established.set i x := by
  obtain ⟨j, hj⟩ := List.mem_iff_get.mp he
  have hij : i.val ≠ j.val := by
    intro h
    have := position_scid hi
    rw [Fin.ext h, hj] at this
    exact hne this
  refine List.mem_iff_getElem?.mpr ⟨j, ?_⟩
  rw [List.getElem?_set_ne hij, List.getElem?_eq_getElem j.isLt]
  exact congrArg some hj

theorem mem_removeEstablished (hi : m.position a = some i) (he : e ∈ m.established)
    (hne : e.scid ≠ a) : e ∈ (m.removeEstablished i).established := by
  obtain ⟨j, hj⟩ := List.mem_iff_get.mp he
  refine List.mem_eraseIdx_iff_getElem.mpr ⟨j, j.isLt, ?_, hj⟩
  intro h
  have := position_scid hi
  rw [← Fin.ext h, hj] at this
  exact hne this

theorem mem_setSession (hi : m.position a = some i) (he : e ∈ m.established) (hne : e.scid ≠ a)
    (s : DirectionalSession) : e ∈ (m.setSession i s).established :=
  mem_set_of_position hi he hne _

end Frame

theorem commitData_keeps {p : DataPreview} (hp : p.scid = a) (hne : e.scid ≠ a)
    (he : e ∈ m.established) (hlive : e ∈ (m.expire nowMs).established) :
    e ∈ (m.commitData p nowMs).1.established := by
  unfold commitData
  split
  · exact he
  · dsimp only
    split
    · exact hlive
    · rename_i i hi
      rw [hp] at hi
      generalize ((m.expire nowMs).established.get i).session.commit p.commit = r
      obtain ⟨session, e' | plaintext⟩ := r
      · exact mem_setSession hi hlive hne session
      · exact mem_set_of_position hi hlive hne _

theorem receiveData_keeps (hp : u64Of (packet.drop 8) = a) (hne : e.scid ≠ a)
    (hlive : e ∈ (m.expire nowMs).established) :
    e ∈ (m.receiveData C packet nowMs).1.established := by
  unfold receiveData
  split
  · rename_i h
    have hm := congrArg Prod.fst h
    rw [← hm]
    change e ∈ ((m.expire nowMs).expire nowMs).established
    rwa [expire_expire]
  · rename_i m' p h
    have hm : m' = m.expire nowMs := by
      rw [← expire_expire]
      exact (congrArg Prod.fst h).symm
    subst hm
    refine commitData_keeps ?_ hne hlive (by rwa [expire_expire])
    rw [← hp]
    exact previewDataWithLocs_scid (congrArg Prod.snd h)

theorem commitProtectedReplay_keeps {proof : ProtectedReplayProof} (hne : e.scid ≠ a)
    (hlive : e ∈ (m.expire nowMs).established) :
    e ∈ (m.commitProtectedReplay a proof nowMs).1.established := by
  unfold commitProtectedReplay
  dsimp only
  split
  · exact hlive
  · rename_i i hi
    exact mem_setSession hi hlive hne _

theorem sendDataWithLocs_keeps {plaintext : List Byte} {source destination : Bytes 16}
    (hne : e.scid ≠ a) (he : e ∈ m.established) :
    e ∈ (m.sendDataWithLocs C a plaintext source destination).1.established := by
  unfold sendDataWithLocs
  split
  · exact he
  · rename_i i hi
    dsimp only
    split
    · exact mem_removeEstablished hi he hne
    · exact mem_setSession hi he hne _

theorem close_keeps {code : U16} (hne : e.scid ≠ a) (he : e ∈ m.established) :
    e ∈ (m.close C a code).1.established := by
  unfold close
  split
  · exact he
  · rename_i i hi
    dsimp only
    split
    · exact mem_removeEstablished hi he hne
    · exact mem_removeEstablished hi he hne
    · exact mem_setSession hi he hne _

theorem receiveClose_keeps (hp : u64Of (packet.drop 8) = a) (hne : e.scid ≠ a)
    (hlive : e ∈ (m.expire nowMs).established) :
    e ∈ (m.receiveClose C packet nowMs).1.established := by
  unfold receiveClose
  dsimp only
  split
  · exact hlive
  · rename_i header payload hopen
    simp only [Outcome.bind_eq_ok, Outcome.mapError_eq_ok] at hopen
    obtain ⟨⟨header', payload'⟩, hu, ⟨⟩, hv, heq⟩ := hopen
    obtain ⟨rfl, rfl⟩ := Prod.mk.inj (Except.ok.inj heq)
    obtain ⟨hscid, -⟩ := unpack_scid_ne_zero hu (validateSessionHeader_eq_ok hv).1
    split
    · exact hlive
    · rename_i i hi
      rw [hscid, hp] at hi
      split
      · exact hlive
      · split
        · exact hlive
        · generalize ((m.expire nowMs).established.get i).session.decrypt C packet = r
          obtain ⟨session, e' | plaintext⟩ := r
          · exact mem_setSession hi hlive hne _
          · dsimp only
            split
            · exact mem_setSession hi hlive hne _
            · exact mem_removeEstablished hi hlive hne

/-- A call for one session leaves the entries of the others as they are. -/
theorem step_keeps {call : ServerCall} (hon : call.OnBehalfOf a) (hne : e.scid ≠ a)
    (he : e ∈ m.established) (hlive : Outlives e call) : e ∈ (m.step C call).established := by
  cases call with
  | receiveData packet now => exact receiveData_keeps hon hne (mem_expire he (hlive now rfl))
  | previewData packet sources destinations now => exact mem_expire he (hlive now rfl)
  | receiveClose packet now => exact receiveClose_keeps hon hne (mem_expire he (hlive now rfl))
  | commitData p now => exact commitData_keeps hon hne he (mem_expire he (hlive now rfl))
  | commitProtectedReplay scid proof now =>
    obtain rfl : scid = a := hon
    exact commitProtectedReplay_keeps hne (mem_expire he (hlive now rfl))
  | sendData scid =>
    obtain rfl : scid = a := hon
    exact sendDataWithLocs_keeps hne he
  | close scid =>
    obtain rfl : scid = a := hon
    exact close_keeps hne he
  | promoteLocalLoc | promotePeerLoc => exact he
  | _ => exact hon.elim

/-- What a session makes of a datagram under the given locations. -/
def openData (C : Crypto) (config : HandshakeConfig) (s : DirectionalSession)
    (peerLoc localLoc : Bytes 16) (packet : List Byte) : Except SessionError (List Byte) := do
  let (header, payload) ←
    (Header.unpackWithBudget packet config.budget).mapError fun _ => .authFailed
  let p ← previewData C config s header payload packet peerLoc localLoc [] []
  (s.commit p.commit).2

theorem commitData_entry (ht : Tables m) (he : e ∈ (m.expire nowMs).established)
    {p : DataPreview} (hscid : e.scid = p.scid) (hheader : p.header.scid = p.scid) :
    (m.commitData p nowMs).2 = (e.session.commit p.commit).2 := by
  obtain ⟨i, hi, hget⟩ := (tables_expire ht nowMs).position he
  rw [hscid] at hi
  simp only [commitData, hheader, ne_eq, not_true_eq_false, if_false, hi, hget]
  generalize e.session.commit p.commit = r
  obtain ⟨session, e' | plaintext⟩ := r <;> rfl

theorem receiveData_eq_openData (ht : Tables m) (he : e ∈ (m.expire nowMs).established)
    (hscid : e.scid = u64Of (packet.drop 8)) :
    (m.receiveData C packet nowMs).2 =
      openData C m.config e.session m.effectivePeerLoc m.effectiveLocalLoc packet := by
  have ht' := tables_expire ht nowMs
  have hlocs : (m.expire nowMs).config = m.config ∧
      (m.expire nowMs).effectivePeerLoc = m.effectivePeerLoc ∧
      (m.expire nowMs).effectiveLocalLoc = m.effectiveLocalLoc := ⟨rfl, rfl, rfl⟩
  obtain ⟨hconfig, hpeer, hlocal⟩ := hlocs
  unfold receiveData previewDataWithLocs openData
  simp only [expire_expire, hconfig, hpeer, hlocal]
  cases hu : Header.unpackWithBudget packet m.config.budget with
  | error _ => rfl
  | ok r =>
    obtain ⟨header, payload⟩ := r
    obtain ⟨hheader, -⟩ := unpack_eq_ok hu
    have hs : header.scid = e.scid := by
      rw [hscid, hheader]
      rfl
    simp only [Except.mapError, bind, Except.bind, hs, ht'.find he]
    cases hp : previewData C m.config e.session header payload packet m.effectivePeerLoc
      m.effectiveLocalLoc [] [] with
    | error _ => rfl
    | ok p =>
      simp only [previewData, Outcome.bind_eq_ok, Outcome.ite_error_eq_ok] at hp
      obtain ⟨⟨⟩, -, message, -, -, commit, -, hp'⟩ := hp
      obtain rfl := Except.ok.inj hp'
      exact commitData_entry ht' (by rwa [expire_expire]) hs.symm rfl

/-- A datagram that opens does so under its own locations only. -/
theorem openData_locs {config : HandshakeConfig} {s : DirectionalSession}
    {peerLoc localLoc peerLoc' localLoc' : Bytes 16} {plaintext : List Byte}
    (h : openData C config s peerLoc localLoc packet = .ok plaintext) :
    openData C config s peerLoc' localLoc' packet = .ok plaintext ↔
      localLoc' = localLoc ∧ peerLoc' = peerLoc := by
  constructor
  · intro h'
    simp only [openData, previewData, Outcome.bind_eq_ok, Outcome.mapError_eq_ok,
      validateDataHeader, Outcome.ite_error_eq_ok, List.not_mem_nil, not_false_eq_true,
      and_true] at h h'
    obtain ⟨⟨header, payload⟩, hu, p, ⟨⟨⟩, hv, -⟩, -⟩ := h
    obtain ⟨⟨header', payload'⟩, hu', p', ⟨⟨⟩, hv', -⟩, -⟩ := h'
    rw [hu] at hu'
    obtain ⟨rfl, rfl⟩ := Prod.mk.inj (Except.ok.inj hu')
    push Not at hv hv'
    exact ⟨hv'.2.2.2.2.2.symm.trans hv.2.2.2.2.2, hv'.2.2.2.2.1.symm.trans hv.2.2.2.2.1⟩
  · rintro ⟨rfl, rfl⟩
    exact h

theorem sendDataWithLocs_entry (ht : Tables m) (he : e ∈ m.established) (plaintext : List Byte)
    (source destination : Bytes 16) :
    (m.sendDataWithLocs C e.scid plaintext source destination).2 =
      (e.session.encrypt C (sesHeader m.config.profile 1 e.scid source destination) SESSION_DATA
        plaintext m.config.budget).2 := by
  obtain ⟨i, hi, hget⟩ := ht.position he
  simp only [sendDataWithLocs, hi, encrypt, hget]

theorem commitData_finds {p : DataPreview} {plaintext : List Byte}
    (h : (m.commitData p nowMs).2 = .ok plaintext) :
    ∃ e ∈ (m.expire nowMs).established, e.scid = p.scid := by
  unfold commitData at h
  split at h
  · simp at h
  · dsimp only at h
    split at h
    · simp at h
    · rename_i i hi
      exact ⟨_, List.get_mem _ i, position_scid hi⟩

theorem receiveData_finds {plaintext : List Byte}
    (h : (m.receiveData C packet nowMs).2 = .ok plaintext) :
    ∃ e ∈ (m.expire nowMs).established, e.scid = u64Of (packet.drop 8) := by
  obtain ⟨p, hp, heq⟩ := receiveData_eq_ok h
  rw [heq] at h
  obtain ⟨e, he, hs⟩ := commitData_finds h
  rw [expire_expire] at he
  exact ⟨e, he, hs.trans hp⟩

theorem exec_keeps (hne : e.scid ≠ a) (calls : List ServerCall)
    (hcalls : ∀ call ∈ calls, call.OnBehalfOf a ∧ Outlives e call) (h : Reach C m)
    (he : e ∈ m.established) :
    Reach C (Machine.exec (step C) m calls) ∧
      (Machine.exec (step C) m calls).config = m.config ∧
      e ∈ (Machine.exec (step C) m calls).established := by
  induction calls generalizing m with
  | nil => exact ⟨h, rfl, he⟩
  | cons call calls ih =>
    obtain ⟨hon, hlive⟩ := hcalls call List.mem_cons_self
    have hrest := ih (fun c hc => hcalls c (List.mem_cons_of_mem _ hc)) (.next h trivial)
      (step_keeps hon hne he hlive)
    exact ⟨hrest.1, hrest.2.1.trans (step_config m call), hrest.2.2⟩

/-- Two sessions of a server: whatever is done for one, the other's entry stays, its datagrams open
as before under unchanged locations, and its packets are sealed as before under the machine's
locations, which a promotion changes for all. -/
theorem sessions_isolated {b : U64} (h : Reach C m) (hab : b ≠ a) (he : e ∈ m.established)
    (hb : e.scid = b) (calls : List ServerCall)
    (hcalls : ∀ call ∈ calls, call.OnBehalfOf a ∧ Outlives e call) :
    let m' := Machine.exec (step C) m calls
    e ∈ m'.established ∧
    (∀ packet nowMs plaintext, u64Of (packet.drop 8) = b →
      (m.receiveData C packet nowMs).2 = .ok plaintext →
      ∀ laterMs, (satSub laterMs e.lastActiveMs).val < 120000 →
        ((m'.receiveData C packet laterMs).2 = .ok plaintext ↔
          m'.effectiveLocalLoc = m.effectiveLocalLoc ∧ m'.effectivePeerLoc = m.effectivePeerLoc)) ∧
    ∀ plaintext, (m'.sendData C b plaintext).2 =
      (m.sendDataWithLocs C b plaintext m'.effectiveLocalLoc m'.effectivePeerLoc).2 := by
  subst hb
  intro m'
  obtain ⟨hr', hconfig, he'⟩ := exec_keeps hab calls hcalls h he
  have ht := tables_reach h
  have ht' := tables_reach hr'
  refine ⟨he', ?_, ?_⟩
  · intro packet nowMs plaintext hscid hok laterMs hlive
    have hold : e ∈ (m.expire nowMs).established := by
      obtain ⟨e', hfound, hs⟩ := receiveData_finds hok
      rwa [ht.unique (List.mem_of_mem_filter hfound) he (hs.trans hscid)] at hfound
    rw [receiveData_eq_openData ht hold hscid.symm] at hok
    rw [receiveData_eq_openData ht' (mem_expire he' hlive) hscid.symm, hconfig]
    exact openData_locs hok
  · intro plaintext
    rw [sendData, sendDataWithLocs_entry ht' he', sendDataWithLocs_entry ht he, hconfig]

namespace Sample

def two : ServerMachine := Scenario.withSessions 0 1000 [(9, 30), (8, 40)]

/-- A datagram of session 9. -/
def datagram : List Byte :=
  let client := (Scenario.accepting (Scenario.withSessions 0 1000 [(8, 40)]) 9 30 1000).1
  Scenario.packetOf (client.sendData .sample [1, 2, 3]).2.2

end Sample

/-- Session 8 moves, moves back and closes: session 9 still receives. -/
theorem sessions_isolated_moved_back :
    let calls := [ServerCall.promotePeerLoc (bytesOf 16 77), .promotePeerLoc (bytesOf 16 20),
      .close 8 1]
    ((Machine.exec (step .sample) Sample.two calls).receiveData .sample Sample.datagram 2000).2 =
      .ok [1, 2, 3] := by
  intro calls
  have hfacts : (∃ e ∈ Sample.two.established, e.scid = 9 ∧ e.lastActiveMs = 1000) ∧
      u64Of (Sample.datagram.drop 8) = 9 ∧
      (Sample.two.receiveData .sample Sample.datagram 2000).2 = .ok [1, 2, 3] := by
    decide +kernel
  obtain ⟨⟨e, he, hscid, hactive⟩, hpacket, hready⟩ := hfacts
  have hcalls : ∀ call ∈ calls, call.OnBehalfOf 8 ∧ Outlives e call := by
    intro call hcall
    simp only [calls, List.mem_cons, List.not_mem_nil, or_false] at hcall
    rcases hcall with rfl | rfl | rfl
    · exact ⟨trivial, fun _ h => by cases h⟩
    · exact ⟨trivial, fun _ h => by cases h⟩
    · exact ⟨rfl, fun _ h => by cases h⟩
  have hr : Reach .sample Sample.two := Scenario.withSessions_reach 1000 [(9, 30), (8, 40)]
  have h := sessions_isolated hr (by decide) he hscid calls hcalls
  refine (h.2.1 Sample.datagram 2000 [1, 2, 3] hpacket hready 2000 ?_).mpr ?_
  · rw [hactive]
    decide
  · decide +kernel

/-- Session 8 moves: session 9's datagram is refused and its packets go elsewhere. -/
theorem promotion_reaches_every_session :
    let moved := Machine.exec (step .sample) Sample.two [.promotePeerLoc (bytesOf 16 77)]
    Reach .sample Sample.two ∧
      (Sample.two.receiveData .sample Sample.datagram 2000).2 = .ok [1, 2, 3] ∧
      (moved.receiveData .sample Sample.datagram 2000).2 = .error .authFailed ∧
      (Header.ofBytes (Scenario.packetOf (Sample.two.sendData .sample 9 [4]).2.2)).dst =
        bytesOf 16 20 ∧
      (Header.ofBytes (Scenario.packetOf (moved.sendData .sample 9 [4]).2.2)).dst =
        bytesOf 16 77 :=
  ⟨Scenario.withSessions_reach 1000 [(9, 30), (8, 40)], by decide +kernel⟩

end ServerMachine

end R8.Session
