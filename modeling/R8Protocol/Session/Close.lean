import R8Protocol.Session.Farewell

/-! A server that receives the last packets of a client in any order and number. -/
namespace R8.Session

open FixedWidth Wire

variable {C : Crypto} {packet plaintext : List Byte} {scid nowMs : U64}

/-- Within a window in use, a counter is taken, too high, or not above the greatest. -/
theorem ReplayWindow.Refines.reach {w : ReplayWindow} {cs : List U64} {c : U64}
    (h : w.Refines cs) (hne : cs ≠ []) (hmax : c.val < 2 ^ 64 - 1) :
    (∃ token w', w.preview c = .ok token ∧ w.commit token = (w', .ok ()) ∧ w'.Refines (c :: cs) ∧
      w'.largest.val = max w.largest.val c.val ∧ c.val ≤ w.largest.val + 65536) ∨
    (∃ e, w.preview c = .error e) ∧ (c.val ≤ w.largest.val ∨ w.largest.val + 65536 < c.val) := by
  cases hpreview : w.preview c with
  | ok token =>
    obtain ⟨w', hcommit, hr⟩ := commit_of_preview h hpreview
    obtain ⟨⟨-, -, hwindow⟩, -⟩ := preview_eq_ok h hpreview
    obtain ⟨-, hjump⟩ := hwindow _ (h.largest hne) h.bound
    refine .inl ⟨token, w', rfl, hcommit, hr, ?_, by omega⟩
    have hlow : w.largest.val ≤ w'.largest.val :=
      hr.bound _ (List.mem_cons_of_mem _ (h.largest hne))
    have hlow' : c.val ≤ w'.largest.val := hr.bound c List.mem_cons_self
    have hhigh : w'.largest.val ≤ max w.largest.val c.val := by
      rcases List.mem_cons.mp (hr.largest (by simp)) with heq | hmem
      · rw [heq]
        exact le_max_right _ _
      · exact le_max_of_le_left (Fin.le_def.mp (h.bound _ hmem))
    omega
  | error e =>
    refine .inr ⟨⟨e, rfl⟩, ?_⟩
    by_contra hnot
    push Not at hnot
    have hne' : c ≠ u64Max := by
      intro heq
      rw [heq, u64Max_val] at hmax
      exact lt_irrefl _ hmax
    obtain ⟨token, w', htoken, -⟩ := h.overtake hnot.1 (fun _ => hnot.2) hne'
    rw [hpreview] at htoken
    cases htoken

section Parcels

variable {profile typ : Byte} {key : Bytes 32} {b : DirectionalSession}

theorem Parcel.header (h : Parcel C profile scid key typ packet plaintext) :
    Header.ofBytes packet = sesHeader profile 1 scid (Header.ofBytes packet).src
      (Header.ofBytes packet).dst ∧ u64Of (packet.drop 8) = scid := by
  obtain ⟨call, src, dst, hc, -⟩ := h
  obtain ⟨hheader, -⟩ := unpack_eq_ok (hc.unpack _ hc.bound)
  rw [← hheader]
  exact ⟨rfl, congrArg Header.scid hheader.symm⟩

/-- A packet that a session sealed, in the eyes of the session at the other end. -/
theorem Parcel.preview (hC : C.Correct) (h : Parcel C profile scid key typ packet plaintext)
    (ht : typ ∈ [SESSION_ACCEPT, SESSION_DATA, CLOSE]) (hkey : b.receiveKey = key)
    (hfit : packet.length ≤ b.receiveBudget) {token : ReplayCommit}
    (htoken : b.replay.preview (u64Of (packet.drop 52)) = .ok token) :
    b.preview C packet = .ok ⟨plaintext, token, b.receiveOwner⟩ := by
  obtain ⟨call, src, dst, hc, hcallKey, rfl⟩ := h
  rw [hc.image.counter] at htoken
  exact preview_carries hC hc ht (hcallKey.trans hkey.symm) hfit htoken

theorem preview_refused {e : SessionError}
    (he : b.replay.preview (u64Of (packet.drop 52)) = .error e) :
    ∃ e', b.preview C packet = .error e' := by
  cases hpreview : b.preview C packet with
  | error e' => exact ⟨e', rfl⟩
  | ok p =>
    have hopen := (preview_opens hpreview).1.replay
    rw [he] at hopen
    cases hopen

theorem Parcel.range (h : Parcel C profile scid key typ packet plaintext) :
    1 ≤ counterOf packet ∧ counterOf packet < 2 ^ 64 - 1 := by
  obtain ⟨call, src, dst, hc, -⟩ := h
  obtain ⟨n, hn, -⟩ := hc.image.body
  simp only [nonce, Outcome.ite_error_eq_ok, not_or] at hn
  have hzero := Fin.val_ne_of_ne hn.1.1
  have hmax := Fin.val_ne_of_ne hn.1.2
  have hlt := call.counter.isLt
  rw [u64Max_val] at hmax
  rw [counterOf, hc.image.counter]
  change call.counter.val ≠ 0 at hzero
  omega

end Parcels

namespace ServerMachine

variable {m : ServerMachine} {e : EstablishedSession}

/-- The addresses of a packet are the ones this server expects of data and of CLOSE. -/
def Addressed (m : ServerMachine) (packet : List Byte) : Prop :=
  (Header.ofBytes packet).src = m.effectivePeerLoc ∧
    (Header.ofBytes packet).dst = m.effectiveLocalLoc

instance (m : ServerMachine) (packet : List Byte) : Decidable (m.Addressed packet) :=
  inferInstanceAs (Decidable (_ ∧ _))

/-- Only a pending entry is moved by a confirmation. -/
theorem receiveAccept_same
    (h : ∀ p ∈ (m.expire nowMs).pending, p.scid ≠ u64Of (packet.drop 8)) :
    (m.receiveAccept C packet nowMs).1 = m.expire nowMs := by
  unfold receiveAccept
  cases hscid : (m.expire nowMs).acceptScid packet with
  | error e => simp only [hscid]
  | ok scid =>
    obtain ⟨rfl, -⟩ := acceptScid_eq_ok hscid
    have hnone : (m.expire nowMs).pending.findFinIdx?
        (fun entry => entry.scid = u64Of (packet.drop 8)) = none := by
      rw [List.findFinIdx?_eq_none_iff]
      intro p hp
      simpa using h p hp
    simp only [hscid, hnone]
    split <;> rfl

theorem acceptPending_full (i : Fin m.pending.length)
    (hfull : m.config.establishedLimit ≤ m.established.length) :
    (m.acceptPending C i packet nowMs).1 = m := by
  unfold acceptPending
  dsimp only
  simp only [if_pos hfull]
  split
  · rfl
  · split <;> rfl

theorem receiveAccept_full
    (hfull : m.config.establishedLimit ≤ (m.expire nowMs).established.length) :
    (m.receiveAccept C packet nowMs).1 = m.expire nowMs := by
  unfold receiveAccept
  dsimp only
  split
  · rfl
  · split
    · rfl
    · split
      · rfl
      · exact acceptPending_full _ hfull

/-- Data and CLOSE for an SCID that is not established change nothing but the time. -/
theorem receiveData_absent
    (h : ∀ e ∈ (m.expire nowMs).established, e.scid ≠ u64Of (packet.drop 8)) :
    (m.receiveData C packet nowMs).1 = m.expire nowMs := by
  unfold receiveData
  rw [previewDataWithLocs, expire_expire]
  cases hu : Header.unpackWithBudget packet (m.expire nowMs).config.budget with
  | error e => rfl
  | ok r =>
    obtain ⟨header, payload⟩ := r
    obtain ⟨rfl, -⟩ := unpack_eq_ok hu
    have hnone : (m.expire nowMs).established.find?
        (fun entry => entry.scid = (Header.ofBytes packet).scid) = none := by
      rw [List.find?_eq_none]
      intro e he
      change ¬ decide (e.scid = u64Of (packet.drop 8)) = true
      simpa using h e he
    simp only [Except.mapError, bind, Except.bind, hnone]

theorem receiveClose_absent
    (h : ∀ e ∈ (m.expire nowMs).established, e.scid ≠ u64Of (packet.drop 8)) :
    (m.receiveClose C packet nowMs).1 = m.expire nowMs := by
  unfold receiveClose
  dsimp only
  split
  · rfl
  · rename_i header payload hr
    simp only [Outcome.bind_eq_ok, Outcome.mapError_eq_ok, Except.ok.injEq, Prod.mk.injEq] at hr
    obtain ⟨⟨header', payload'⟩, hu, ⟨⟩, -, rfl, rfl⟩ := hr
    obtain ⟨rfl, -⟩ := unpack_eq_ok hu
    have hnone : (m.expire nowMs).position (Header.ofBytes packet).scid = none :=
      position_eq_none.mpr h
    rw [hnone]

/-- A datagram is refused without a trace unless it is addressed, fits and is fresh. -/
theorem receiveData_rejected (ht : Tables m) (he : e ∈ (m.expire nowMs).established)
    (hscid : e.scid = u64Of (packet.drop 8))
    (h : m.Addressed packet → packet.length ≤ m.config.budget →
      ∃ e', e.session.preview C packet = .error e') :
    (m.receiveData C packet nowMs).1 = m.expire nowMs := by
  have hfind := (tables_expire ht nowMs).find he
  unfold receiveData
  rw [previewDataWithLocs, expire_expire]
  cases hu : Header.unpackWithBudget packet (m.expire nowMs).config.budget with
  | error e => rfl
  | ok r =>
    obtain ⟨header, payload⟩ := r
    have hfit := unpack_fits hu
    obtain ⟨rfl, -⟩ := unpack_eq_ok hu
    have hscid' : (Header.ofBytes packet).scid = e.scid := hscid.symm
    simp only [Except.mapError, bind, Except.bind, hscid', hfind]
    cases hp : previewData C (m.expire nowMs).config e.session (Header.ofBytes packet) payload packet
        (m.expire nowMs).effectivePeerLoc (m.expire nowMs).effectiveLocalLoc [] [] with
    | error e' => rfl
    | ok p =>
      simp only [previewData, Outcome.bind_eq_ok, validateDataHeader, Outcome.ite_error_eq_ok,
        List.not_mem_nil, not_false_eq_true, and_true] at hp
      obtain ⟨⟨⟩, hvalid, message, -, -, commit, hpreview, -⟩ := hp
      push Not at hvalid
      obtain ⟨e', he'⟩ := h ⟨hvalid.2.2.2.2.1, hvalid.2.2.2.2.2⟩ hfit
      rw [he'] at hpreview
      cases hpreview

@[simp] theorem sesHeader_scid (profile flags : Byte) (scid : U64) (src dst : Bytes 16) :
    (sesHeader profile flags scid src dst).scid = scid := rfl

@[simp] theorem sesHeader_profile (profile flags : Byte) (scid : U64) (src dst : Bytes 16) :
    (sesHeader profile flags scid src dst).profile = profile := rfl

/-- The same for CLOSE, which the session opens after the checks of the machine. -/
theorem receiveClose_rejected (ht : Tables m) (he : e ∈ (m.expire nowMs).established)
    (hscid : e.scid = u64Of (packet.drop 8))
    (h : m.Addressed packet → ∃ e', e.session.preview C packet = .error e') :
    (m.receiveClose C packet nowMs).1 = m.expire nowMs := by
  obtain ⟨i, hi, hget⟩ := (tables_expire ht nowMs).position he
  unfold receiveClose
  dsimp only
  split
  · rfl
  · rename_i header payload hr
    simp only [Outcome.bind_eq_ok, Outcome.mapError_eq_ok, Except.ok.injEq, Prod.mk.injEq] at hr
    obtain ⟨⟨header', payload'⟩, hu, ⟨⟩, hv, rfl, rfl⟩ := hr
    obtain ⟨rfl, -⟩ := unpack_eq_ok hu
    have hscid' : (Header.ofBytes packet).scid = e.scid := hscid.symm
    obtain ⟨-, -, -, -, -, hsrc, hdst⟩ := validateSessionHeader_eq_ok hv
    obtain ⟨e', hpreview⟩ := h ⟨hsrc, hdst⟩
    have hdecrypt : e.session.decrypt C packet = (e.session, .error e') := by
      simp only [DirectionalSession.decrypt, hpreview]
    rw [hscid', hi]
    dsimp only
    split
    · rfl
    · split
      · rfl
      · rw [hget, hdecrypt]
        have hself := setSession_self (m.expire nowMs) i
        rw [hget] at hself
        exact hself

theorem receiveClose_ok (ht : Tables m) (he : e ∈ (m.expire nowMs).established) {profile : Byte}
    {key : Bytes 32} {code : U16} {b : DirectionalSession} {p : ProtectedPreview}
    (hprofile : m.config.profile = profile) (haddressed : m.Addressed packet)
    (hparcel : Parcel C profile e.scid key CLOSE packet (u16Bytes code))
    (hfit : packet.length ≤ m.config.budget) (hpreview : e.session.preview C packet = .ok p)
    (hcommit : e.session.commit p = (b, .ok (u16Bytes code))) :
    ∃ i, (m.expire nowMs).position e.scid = some i ∧
      (m.receiveClose C packet nowMs).1 = (m.expire nowMs).removeEstablished i := by
  obtain ⟨i, hi, hget⟩ := (tables_expire ht nowMs).position he
  obtain ⟨call, src, dst, hc, -⟩ := hparcel
  obtain ⟨hheader, -⟩ := unpack_eq_ok (hc.unpack _ hc.bound)
  obtain ⟨hsrc, hdst⟩ := haddressed
  rw [← hheader] at hsrc hdst
  have hconfig : (m.expire nowMs).config = m.config := rfl
  have hlocs : (m.expire nowMs).effectivePeerLoc = src ∧
      (m.expire nowMs).effectiveLocalLoc = dst := ⟨hsrc.symm, hdst.symm⟩
  have hvalid : validateProtectedHeader (sesHeader profile 1 e.scid src dst) profile e.scid src dst =
      .ok () := by
    simp [validateProtectedHeader, validateSessionHeader, sesHeader]
  have hdecode : SessionMessage.decode (packet.drop 48) profile m.config.budget =
      .ok ⟨CLOSE, profile, packet.drop 52⟩ := hc.decode _ hfit
  have hdecrypt : e.session.decrypt C packet = (b, .ok (u16Bytes code)) := by
    simp only [DirectionalSession.decrypt, hpreview, hcommit]
  have hcode : closeCode (u16Bytes code) = .ok code := by
    simpa [closeCode] using u16Of_u16Bytes code []
  refine ⟨i, hi, ?_⟩
  unfold receiveClose
  simp only [hconfig, hprofile, hc.unpack _ hfit, hlocs.1, hlocs.2, Except.mapError, bind,
    Except.bind, sesHeader_scid, sesHeader_profile, hvalid, hi, hdecode, hget, hdecrypt, hcode,
    ne_eq, not_true_eq_false, if_false]

end ServerMachine

end R8.Session
