import R8Protocol.Session.Meeting

/-! What an established client sends until its CLOSE is out. -/
namespace R8.Session

open FixedWidth Wire

variable {C : Crypto} {a b : DirectionalSession} {scid : U64} {packet plaintext : List Byte}

theorem Advances.trans {d : DirectionalSession} (h : Advances a b) (h' : Advances b d) :
    Advances a d := by
  obtain ⟨⟨hsend, hreceive, hhash, hbudget, howner⟩, hcounter, hsane⟩ := h
  obtain ⟨⟨hsend', hreceive', hhash', hbudget', howner'⟩, hcounter', hsane'⟩ := h'
  exact ⟨⟨hsend'.trans hsend, hreceive'.trans hreceive, hhash'.trans hhash,
    hbudget'.trans hbudget, howner'.trans howner⟩, hcounter.trans hcounter', hsane' ∘ hsane⟩

/-- The counter in a protected packet. -/
def counterOf (packet : List Byte) : ℕ := (u64Of (packet.drop 52)).val

/-- A packet that a session has sealed. -/
def Parcel (C : Crypto) (profile : Byte) (scid : U64) (key : Bytes 32) (typ : Byte)
    (packet plaintext : List Byte) : Prop :=
  ∃ call src dst, Carries C call (sesHeader profile 1 scid src dst) typ packet ∧
    call.key = key ∧ call.plaintext = plaintext

namespace ClientMachine

/-- The datagram that a call puts out. -/
def emitted (C : Crypto) (m : ClientMachine) : ClientCall → List (List Byte)
  | .sendData plaintext source destination =>
    (m.sendDataWithLocs C plaintext source destination).2.2.toOption.toList
  | _ => []

/-- The datagrams of a run. -/
def sentData (C : Crypto) (m : ClientMachine) : List ClientCall → List (List Byte)
  | [] => []
  | call :: calls => m.emitted C call ++ sentData C (m.step C call) calls

variable {m : ClientMachine} {e : ClientSession}

/-- An established client stays so, with its session, or gives it up. -/
def Carried (e : ClientSession) (m : ClientMachine) : Prop :=
  m.state = .released ∨
    ∃ e', m.state = .established e' ∧ e'.scid = e.scid ∧ Advances e.session e'.session

theorem Carried.of_state (hstate : m.state = .established e) : Carried e m :=
  .inr ⟨e, hstate, rfl, .refl _⟩

theorem commitData_carried (hstate : m.state = .established e) (preview : DataPreview) :
    Carried e (m.commitData preview).1 := by
  unfold commitData
  split
  · exact .of_state hstate
  · simp only [hstate]
    split
    · exact .inr ⟨_, rfl, rfl, commit_advances e.session preview.commit⟩
    · exact .of_state hstate

theorem receiveClose_carried (hstate : m.state = .established e) (packet : List Byte) :
    Carried e (m.receiveClose C packet).1 := by
  unfold receiveClose
  simp only [hstate]
  split
  · exact .of_state hstate
  · split
    · exact .of_state hstate
    · have hadvances := decrypt_advances C e.session packet
      generalize e.session.decrypt C packet = r at hadvances
      obtain ⟨session, e' | plaintext⟩ := r
      · exact .inr ⟨_, rfl, rfl, hadvances⟩
      · dsimp only
        split
        · exact .inr ⟨_, rfl, rfl, hadvances⟩
        · exact .inl rfl

theorem established_step (hstate : m.state = .established e) (call : ClientCall) :
    Carried e (m.step C call) := by
  have hsame : ∀ m' : ClientMachine, m'.state = m.state → Carried e m' :=
    fun m' h => .of_state (h.trans hstate)
  cases call with
  | start scid material nowMs =>
    apply hsame
    simp only [step, start, hstate]
  | retry nowMs =>
    apply hsame
    simp only [step, retry, releaseCookieWaitIfExpired, hstate]
  | expire nowMs =>
    apply hsame
    simp only [step, expire, hstate]
  | receiveVerify packet nowMs =>
    apply hsame
    simp only [step, receiveVerify, releaseCookieWaitIfExpired, hstate]
  | receiveAck packet nowMs owner =>
    apply hsame
    simp only [step, receiveAck, hstate]
  | sendData plaintext source destination =>
    simp only [step, sendDataWithLocs, hstate]
    split
    · exact .inl rfl
    · exact .inr ⟨_, rfl, rfl, encrypt_advances C _ _ _ _ _⟩
  | close code =>
    simp only [step, close, hstate]
    split
    · exact .inl rfl
    · exact .inl rfl
    · exact .inr ⟨_, rfl, rfl, encrypt_advances C _ _ _ _ _⟩
  | receiveData packet =>
    simp only [step, receiveData]
    split
    · exact hsame _ rfl
    · exact commitData_carried hstate _
  | commitData preview => exact commitData_carried hstate preview
  | commitProtectedReplay proof =>
    simp only [step, commitProtectedReplay, hstate]
    exact .inr ⟨_, rfl, rfl, commitProtectedReplay_advances e.session proof⟩
  | receiveClose packet => exact receiveClose_carried hstate packet
  | takeProfile3Bootstrap =>
    simp only [step, takeProfile3Bootstrap, hstate]
    split
    · exact .of_state hstate
    · split
      · exact .inl rfl
      · exact .of_state hstate
  | promoteLocalLoc loc => exact hsame _ rfl
  | promotePeerLoc loc => exact hsame _ rfl

/-- A session that was given up does not come back. -/
theorem released_step (hstate : m.state = .released) (call : ClientCall) :
    (m.step C call).state = .released := by
  cases call with
  | start => simp only [step, start, hstate]
  | retry => simp only [step, retry, releaseCookieWaitIfExpired, hstate]
  | expire => simp only [step, expire, hstate]
  | receiveVerify => simp only [step, receiveVerify, releaseCookieWaitIfExpired, hstate]
  | receiveAck => simp only [step, receiveAck, hstate]
  | sendData => simp only [step, sendDataWithLocs, hstate]
  | close => simp only [step, close, hstate]
  | receiveData packet =>
    simp only [step, receiveData]
    split
    · exact hstate
    · unfold commitData
      split
      · exact hstate
      · simp only [hstate]
  | commitData preview =>
    simp only [step, commitData]
    split
    · exact hstate
    · simp only [hstate]
  | commitProtectedReplay => simp only [step, commitProtectedReplay, hstate]
  | receiveClose => simp only [step, receiveClose, hstate]
  | takeProfile3Bootstrap =>
    simp only [step, takeProfile3Bootstrap, hstate]
    split <;> exact hstate
  | promoteLocalLoc | promotePeerLoc => exact hstate

theorem released_exec (hstate : m.state = .released) (calls : List ClientCall) :
    (Machine.exec (step C) m calls).state = .released := by
  induction calls generalizing m with
  | nil => exact hstate
  | cons call calls ih => exact ih (released_step hstate call)

end ClientMachine

variable {m : ClientMachine} {e e' : ClientSession}

theorem parcel_of_encrypt {src dst : Bytes 16} {typ profile : Byte} {budget : ℕ}
    (h : (a.encrypt C (sesHeader profile 1 scid src dst) typ plaintext budget).2.2 = .ok packet) :
    Parcel C profile scid a.sendKey typ packet plaintext ∧
      counterOf packet = a.sendCounters.next.val ∧ a.sendCounters.next ≠ u64Max ∧
      (a.encrypt C (sesHeader profile 1 scid src dst) typ plaintext budget).1.sendCounters.next.val =
        a.sendCounters.next.val + 1 := by
  obtain ⟨call, -, hseals, hcarries⟩ := encrypt_carries h
  refine ⟨⟨call, src, dst, hcarries, hseals.key, hseals.plaintext⟩, ?_, hseals.below,
    hseals.next_val⟩
  rw [counterOf, hcarries.image.counter, hseals.counter]

namespace ClientMachine

theorem emitted_parcel (hstate : m.state = .established e) {call : ClientCall}
    (hpacket : packet ∈ m.emitted C call) :
    (∃ plaintext, Parcel C m.config.profile e.scid e.session.sendKey SESSION_DATA packet
      plaintext) ∧ counterOf packet = e.session.sendCounters.next.val ∧
      ∃ e', (m.step C call).state = .established e' ∧
        e'.session.sendCounters.next.val = e.session.sendCounters.next.val + 1 := by
  cases call with
  | sendData plaintext source destination =>
    simp only [emitted, Option.mem_toList, Outcome.toOption_eq_some] at hpacket
    simp only [step, sendDataWithLocs, hstate] at hpacket ⊢
    have hok := hpacket
    unfold encrypt at hok
    obtain ⟨hparcel, hcounter, -, hnext⟩ := parcel_of_encrypt hok
    rw [hpacket, if_neg (by simp)]
    exact ⟨⟨plaintext, hparcel⟩, hcounter, _, rfl, hnext⟩
  | _ => cases hpacket

/-- What a run has sent, as seen from a client that is still established at its end. -/
theorem sentData_parcels (calls : List ClientCall) (hstate : m.state = .established e)
    (hend : (Machine.exec (step C) m calls).state = .established e') :
    e'.scid = e.scid ∧ Advances e.session e'.session ∧
      ∀ packet ∈ m.sentData C calls,
        (∃ plaintext, Parcel C m.config.profile e.scid e.session.sendKey SESSION_DATA packet
          plaintext) ∧ e.session.sendCounters.next.val ≤ counterOf packet ∧
          counterOf packet < e'.session.sendCounters.next.val := by
  induction calls generalizing m e with
  | nil =>
    obtain rfl : e = e' := by
      have h := hstate.symm.trans hend
      injection h
    exact ⟨rfl, .refl _, fun packet hpacket => (List.not_mem_nil hpacket).elim⟩
  | cons call calls ih =>
    rcases established_step (C := C) hstate call with hreleased | ⟨e₁, hstate₁, hscid, hadvances⟩
    · have hgone := released_exec (C := C) hreleased calls
      rw [Machine.exec, List.foldl_cons] at hend
      rw [Machine.exec, hend] at hgone
      cases hgone
    · obtain ⟨hscid', hadvances', hsent⟩ := ih hstate₁ hend
      have hle : e.session.sendCounters.next.val ≤ e₁.session.sendCounters.next.val :=
        hadvances.counter
      refine ⟨hscid'.trans hscid, hadvances.trans hadvances', ?_⟩
      intro packet hpacket
      rcases List.mem_append.mp hpacket with hnow | hlater
      · obtain ⟨hparcel, hcounter, e₂, hstate₂, hnext⟩ := emitted_parcel hstate hnow
        obtain rfl : e₁ = e₂ := by
          have h := hstate₁.symm.trans hstate₂
          injection h
        have hle' : e₁.session.sendCounters.next.val ≤ e'.session.sendCounters.next.val :=
          hadvances'.counter
        exact ⟨hparcel, hcounter.ge, by omega⟩
      · obtain ⟨hparcel, hlow, hhigh⟩ := hsent packet hlater
        rw [config_step, hscid, hadvances.keys.1] at hparcel
        exact ⟨hparcel, hle.trans hlow, hhigh⟩

/-- A CLOSE that goes out is sealed under a counter of its own. -/
theorem close_parcel (hstate : m.state = .established e) {code : U16}
    (h : (m.close C code).2.2 = .ok packet) :
    Parcel C m.config.profile e.scid e.session.sendKey CLOSE packet (u16Bytes code) ∧
      counterOf packet = e.session.sendCounters.next.val ∧ e.session.sendCounters.next ≠ u64Max := by
  simp only [close, hstate, encrypt] at h
  split at h
  · rename_i hok
    obtain rfl := Except.ok.inj h
    obtain ⟨hparcel, hcounter, hmax, -⟩ := parcel_of_encrypt hok
    exact ⟨hparcel, hcounter, hmax⟩
  · cases h
  · cases h

end ClientMachine

end R8.Session
