import R8Protocol.Session.Atomicity
import R8Protocol.Session.Packets
import R8Protocol.Session.Profile3

/-! What a session seals, the session at the other end opens: one packet at a time, in order. -/
namespace R8

open FixedWidth

/-- The primitives do what they are for. -/
structure Crypto.Correct (C : Crypto) : Prop where
  verifies : ∀ key message, C.verify (C.verifyingKey key) message (C.sign key message) = true
  decodes : ∀ key, C.keyDecodes (C.verifyingKey key) = true
  agrees : ∀ a b, C.diffieHellman a (C.x25519Public b) = C.diffieHellman b (C.x25519Public a)
  opens : ∀ key n aad plaintext, C.aeadDecrypt key n aad (C.aeadEncrypt key n aad plaintext).1
    (C.aeadEncrypt key n aad plaintext).2 = some plaintext

theorem Crypto.sample_correct : Crypto.sample.Correct where
  verifies _ _ := by simp [Crypto.sample]
  decodes _ := rfl
  agrees a b := by
    have hcomm : List.zipWith (· + ·) a.val b.val = List.zipWith (· + ·) b.val a.val := by
      rw [List.zipWith_comm]
      simp only [add_comm]
    simp [Crypto.sample, hcomm]
  opens _ _ _ _ := by simp [Crypto.sample]

namespace Session

open Wire

variable {C : Crypto} {s a b : DirectionalSession} {header : Header} {typ : Byte}
  {packet plaintext : List Byte} {budget : ℕ} {call : SealCall}

/-- A packet around a sealed ciphertext that every receiver can take apart. -/
structure Carries (C : Crypto) (call : SealCall) (header : Header) (typ : Byte)
    (packet : List Byte) : Prop where
  image : Image C 60 call packet
  length : packet.length = call.plaintext.length + 76
  bound : packet.length ≤ SERIALIZED_R8_MAX
  unpack : ∀ budget, packet.length ≤ budget →
    Header.unpackWithBudget packet budget = .ok (header, packet.drop 48)
  decode : ∀ budget, packet.length ≤ budget →
    SessionMessage.decode (packet.drop 48) header.profile budget =
      .ok ⟨typ, header.profile, packet.drop 52⟩

theorem aeadOpen_seal (hC : C.Correct) {counter : U64} {n : Bytes 12}
    (hn : nonce counter = .ok n) (key : Bytes 32) (aad plaintext : List Byte) :
    aeadOpen C key counter aad ((C.aeadEncrypt key n aad plaintext).1 ++
      (C.aeadEncrypt key n aad plaintext).2.val) = .ok plaintext :=
  aeadOpen_sealed hn (hC.opens key n aad plaintext)

/-- A packet that an encryption has put out carries its call of `seal`. -/
theorem encrypt_carries (h : (s.encrypt C header typ plaintext budget).2.2 = .ok packet) :
    ∃ call, (s.encrypt C header typ plaintext budget).2.1 = [call] ∧
      Seals s (s.encrypt C header typ plaintext budget).1 call plaintext ∧
      Carries C call header typ packet := by
  rcases encrypt_cases C s header typ plaintext budget with
    ⟨-, ⟨e, he⟩, -⟩ | ⟨call, packet', hcalls, hseals, himage, hout⟩
  · rw [he] at h
    cases h
  · rcases hout with hout | ⟨⟨e, he⟩, -⟩
    · obtain rfl := Except.ok.inj (hout.symm.trans h)
      obtain ⟨hguard, -, ciphertext, hlen, ⟨n, hn⟩, hvalid, rfl⟩ := encrypt_packet h
      obtain ⟨hmax, -⟩ := checkedPacketLen_eq_ok hn
      simp only [DirectionalSession.encryptGuard, Outcome.ite_error_eq_ok, not_not] at hguard
      obtain ⟨htyp, haccept, hclose, -⟩ := hguard
      have hsize : (header.bytes (DirectionalSession.protectedPayload typ header.profile
          s.sendCounters.next ciphertext)).length = plaintext.length + 76 := by
        rw [Header.bytes_eq, List.length_append, Header.fixed_length, protectedPayload_length]
        omega
      have hdrop := Header.drop_bytes header (DirectionalSession.protectedPayload typ
        header.profile s.sendCounters.next ciphertext)
      rw [HEADER_LEN] at hdrop
      have hbound : plaintext.length + 76 ≤ SERIALIZED_R8_MAX := by
        rw [protectedPayload_length, HEADER_LEN] at hmax
        omega
      refine ⟨call, hcalls, hseals, himage, by rw [hsize, hseals.plaintext], by rwa [hsize], ?_, ?_⟩
      · intro budget' hfit
        rw [hdrop]
        refine unpack_bytes hvalid hmax ?_
        rwa [HEADER_LEN, ← Header.fixed_length header (DirectionalSession.protectedPayload typ
          header.profile s.sendCounters.next ciphertext).length, ← List.length_append]
      · intro budget' hfit
        have hbehind : (header.bytes (DirectionalSession.protectedPayload typ header.profile
            s.sendCounters.next ciphertext)).drop 52 =
            u64Bytes s.sendCounters.next ++ ciphertext := by
          rw [show 52 = 48 + 4 from rfl, ← List.drop_drop, hdrop]
          simp [DirectionalSession.protectedPayload]
        rw [hdrop, hbehind]
        apply decode_protectedPayload htyp hseals.nonzero hseals.below
        · omega
        · intro ht
          have : plaintext.length = 44 := by simpa [ht] using haccept
          omega
        · intro ht
          have : plaintext.length = 2 := by simpa [ht] using hclose
          omega
        · omega
    · rw [he] at h
      cases h

/-- A packet whose counter the window still takes opens to what was sealed. -/
theorem preview_carries (hC : C.Correct) (hc : Carries C call header typ packet)
    (ht : typ ∈ [SESSION_ACCEPT, SESSION_DATA, CLOSE]) (hkey : call.key = b.receiveKey)
    (hfit : packet.length ≤ b.receiveBudget) {token : ReplayCommit}
    (htoken : b.replay.preview call.counter = .ok token) :
    b.preview C packet = .ok ⟨call.plaintext, token, b.receiveOwner⟩ := by
  have hlen := hc.length
  obtain ⟨n, hn, hbody⟩ := hc.image.body
  have hcounter : u64Of (packet.drop 52) = call.counter := hc.image.counter
  have haad : protectedAad packet call.counter = .ok call.aad := by
    have hunpack : Header.unpack packet = .ok (header, packet.drop 48) := hc.unpack _ hc.bound
    have hread : protectedAad packet (u64Of (packet.drop 52)) =
        .ok ((packet.take (HEADER_LEN + 4)).set 5 0 ++ u64Bytes (u64Of (packet.drop 52))) := by
      unfold protectedAad
      rw [if_neg (by rw [HEADER_LEN]; omega), hunpack]
    rw [← hcounter, hread, (protectedAad_read hread).2, hc.image.aad]
  have hopen := aeadOpen_seal hC hn call.key call.aad call.plaintext
  rw [← hbody, hkey] at hopen
  unfold DirectionalSession.preview
  simp only [hc.unpack _ hfit, hc.decode _ hfit]
  simp [ht, hcounter, htoken, haad, List.drop_drop, hopen, bind, Except.bind]

theorem validateProfile3_sesHeader {scid : U64} (src dst : Bytes 16) (hs : scid ≠ 0) :
    validateProfile3DataHeader (sesHeader 3 1 scid src dst) = .ok () := by
  simp [validateProfile3DataHeader, sesHeader, hs]

/-- A counter above the greatest one committed and within reach of it is fresh, and is the greatest
from then on. -/
theorem ReplayWindow.Refines.overtake {w : ReplayWindow} {cs : List U64} {c : U64}
    (h : w.Refines cs) (habove : w.largest.val < c.val)
    (hnear : cs ≠ [] → c.val ≤ w.largest.val + 65536) (hmax : c ≠ u64Max) :
    ∃ token w', w.preview c = .ok token ∧ w.commit token = (w', .ok ()) ∧
      w'.Refines (c :: cs) ∧ w'.largest = c := by
  have hlt : c.val < 2 ^ 64 - 1 := by
    have hne : c.val ≠ 2 ^ 64 - 1 := by
      rw [← u64Max_val]
      exact Fin.val_ne_of_ne hmax
    omega
  have hnew : ∀ x ∈ cs, x < c := by
    intro x hx
    have hbound := Fin.le_def.mp (h.bound x hx)
    exact Fin.lt_def.mpr (by omega)
  have hfresh : ReplayWindow.Fresh cs c := by
    refine ⟨⟨by omega, hlt⟩, fun hmem => lt_irrefl _ (hnew c hmem), ?_⟩
    intro x hx hgreatest
    have hne : cs ≠ [] := List.ne_nil_of_mem hx
    have hlargest : w.largest.val ≤ x.val := hgreatest _ (h.largest hne)
    have hbound : x.val ≤ w.largest.val := h.bound x hx
    have := hnear hne
    omega
  have htoken := (preview?_eq_ok_iff h ⟨c, w.generation⟩).mpr ⟨hfresh, rfl⟩
  have hpreview : w.preview c = .ok ⟨c, w.generation⟩ := by
    rw [ReplayWindow.preview, htoken, Option.getD_some]
  obtain ⟨w', hcommit, hr⟩ := commit_of_preview h hpreview
  refine ⟨_, w', hpreview, hcommit, hr, ?_⟩
  apply le_antisymm
  · rcases List.mem_cons.mp (hr.largest (by simp)) with heq | hmem
    · exact heq.le
    · exact (hnew _ hmem).le
  · exact hr.bound c List.mem_cons_self

/-- The counter after the greatest one committed. -/
theorem ReplayWindow.Refines.follow {w : ReplayWindow} {cs : List U64} {c : U64}
    (h : w.Refines cs) (hnext : w.largest.val + 1 = c.val) (hmax : c ≠ u64Max) :
    ∃ token w', w.preview c = .ok token ∧ w.commit token = (w', .ok ()) ∧
      w'.Refines (c :: cs) ∧ w'.largest = c :=
  h.overtake (by omega) (fun _ => by omega) hmax

/-- Packets on their way, sealed one after the other under consecutive counters. -/
inductive Flight {α : Type} (carried : SealCall → List Byte → α → Prop) (key : Bytes 32) :
    ℕ → List (List Byte × α) → ℕ → Prop
  | nil (n : ℕ) : Flight carried key n [] n
  | cons {n k : ℕ} {call : SealCall} {packet : List Byte} {message : α}
      {rest : List (List Byte × α)} (hc : carried call packet message) (hkey : call.key = key)
      (hcounter : call.counter.val = n) (hrest : Flight carried key (n + 1) rest k) :
      Flight carried key n ((packet, message) :: rest) k

section

variable {α : Type} {carried : SealCall → List Byte → α → Prop} {message : α}
  {queue : List (List Byte × α)}

theorem Flight.le {key : Bytes 32} {n k : ℕ} (h : Flight carried key n queue k) : n ≤ k := by
  induction h with
  | nil => exact le_rfl
  | cons _ _ _ _ ih => omega

theorem Flight.snoc {key : Bytes 32} {n k : ℕ} (h : Flight carried key n queue k)
    (hc : carried call packet message) (hkey : call.key = key) (hcounter : call.counter.val = k) :
    Flight carried key n (queue ++ [(packet, message)]) (k + 1) := by
  induction h with
  | nil => exact .cons hc hkey hcounter (.nil _)
  | cons hc' hkey' hcounter' _ ih => exact .cons hc' hkey' hcounter' (ih hcounter)

/-- All that `a` has sealed is delivered to `b` or on its way there, in order. -/
structure Channel (carried : SealCall → List Byte → α → Prop) (a b : DirectionalSession)
    (queue : List (List Byte × α)) : Prop where
  key : a.sendKey = b.receiveKey
  sane : b.Sane
  flight : Flight carried a.sendKey (b.replay.largest.val + 1) queue a.sendCounters.next.val

theorem Flight.of_nil {key : Bytes 32} {n k : ℕ} (h : Flight carried key n [] k) : n = k := by
  cases h
  rfl

/-- Nothing is on its way, of any layout. -/
theorem Channel.empty {γ : Type} {carried' : SealCall → List Byte → γ → Prop}
    (h : Channel carried a b []) : Channel carried' a b [] := by
  obtain ⟨hkey, hsane, hflight⟩ := h
  refine ⟨hkey, hsane, ?_⟩
  rw [← hflight.of_nil]
  exact .nil _

/-- A channel is about one direction only. -/
theorem Channel.frame {a' b' : DirectionalSession} (h : Channel carried a b queue)
    (ha : a'.sendKey = a.sendKey ∧ a'.sendCounters = a.sendCounters)
    (hb : b'.receiveKey = b.receiveKey ∧ b'.replay = b.replay) : Channel carried a' b' queue := by
  obtain ⟨hkey, ⟨cs, hr⟩, hflight⟩ := h
  refine ⟨by rw [ha.1, hb.1, hkey], ⟨cs, by rwa [hb.2]⟩, ?_⟩
  rwa [ha.1, ha.2, hb.2]

theorem Channel.send {a' : DirectionalSession} (h : Channel carried a b queue)
    (hseals : Seals a a' call plaintext) (hc : carried call packet message) :
    Channel carried a' b (queue ++ [(packet, message)]) := by
  obtain ⟨hkey, hsane, hflight⟩ := h
  have hsendKey : a'.sendKey = a.sendKey := by rw [hseals.next]
  refine ⟨hsendKey.trans hkey, hsane, ?_⟩
  rw [hsendKey, hseals.next_val]
  exact hflight.snoc hc hseals.key (by rw [hseals.counter])

/-- The packet at the head of the queue is the one the window waits for. -/
theorem Channel.receive (h : Channel carried a b ((packet, message) :: queue)) :
    ∃ call token w', carried call packet message ∧ call.key = b.receiveKey ∧
      b.replay.preview call.counter = .ok token ∧ b.replay.commit token = (w', .ok ()) ∧
      Channel carried a { b with replay := w' } queue := by
  obtain ⟨hkey, ⟨cs, hr⟩, hflight⟩ := h
  cases hflight with
  | @cons _ _ call _ _ _ hc hcallKey hcounter hrest =>
    have hmax : call.counter ≠ u64Max := by
      have hle := hrest.le
      have hlt := a.sendCounters.next.isLt
      intro heq
      rw [heq, u64Max_val] at hcounter
      omega
    obtain ⟨token, w', hpreview, hcommit, hr', hlargest⟩ := hr.follow hcounter.symm hmax
    refine ⟨call, token, w', hc, hcallKey.trans hkey, hpreview, hcommit, hkey, ⟨_, hr'⟩, ?_⟩
    simpa only [hlargest, hcounter] using hrest

end

/-- The packets in the generic layout, within a budget, that carry a plaintext. -/
def Plain (C : Crypto) (budget : ℕ) (header : Header) (typ : Byte) (call : SealCall)
    (packet plaintext : List Byte) : Prop :=
  Carries C call header typ packet ∧ call.plaintext = plaintext ∧ packet.length ≤ budget

/-- The session at the end of a channel opens what comes first. -/
theorem Channel.open (hC : C.Correct) {queue : List (List Byte × List Byte)}
    (h : Channel (Plain C budget header typ) a b ((packet, plaintext) :: queue))
    (ht : typ ∈ [SESSION_ACCEPT, SESSION_DATA, CLOSE]) (hfit : budget ≤ b.receiveBudget) :
    ∃ call p w', Plain C budget header typ call packet plaintext ∧ b.preview C packet = .ok p ∧
      p.plaintext = plaintext ∧ b.commit p = ({ b with replay := w' }, .ok plaintext) ∧
      Channel (Plain C budget header typ) a { b with replay := w' } queue := by
  obtain ⟨call, token, w', ⟨hc, rfl, hlen⟩, hkey, hpreview, hcommit, hrest⟩ := h.receive
  have hopen := preview_carries hC hc ht hkey (hlen.trans hfit) hpreview
  refine ⟨call, _, w', ⟨hc, rfl, hlen⟩, hopen, rfl, ?_, hrest⟩
  simp [DirectionalSession.commit, hcommit]

/-- The packets of profile 3 that carry a plaintext under a delivery identifier. -/
def Delivered (C : Crypto) (budget : ℕ) (header : Header) (call : SealCall) (packet : List Byte)
    (message : U64 × List Byte) : Prop :=
  Carries3 C call header message.1 packet ∧ call.plaintext = message.2 ∧
    packet.length ≤ budget ∧ message.1 ≠ 0 ∧ message.1 ≠ u64Max

theorem Channel.openProfile3 (hC : C.Correct) {scid : U64} {src dst : Bytes 16} (hs : scid ≠ 0)
    {message : U64 × List Byte} {queue : List (List Byte × U64 × List Byte)}
    (h : Channel (Delivered C budget (sesHeader 3 1 scid src dst)) a b
      ((packet, message) :: queue)) (hfit : budget ≤ b.receiveBudget) :
    ∃ w', b.decryptProfile3Data C packet = ({ b with replay := w' }, .ok message) ∧
      Channel (Delivered C budget (sesHeader 3 1 scid src dst)) a { b with replay := w' }
        queue := by
  obtain ⟨call, token, w', ⟨hc, hplain, hlen, hid⟩, hkey, hpreview, hcommit, hrest⟩ := h.receive
  have hopen := previewProfile3Data_carries (validateProfile3_sesHeader src dst hs) hc hid hkey
    (hlen.trans hfit) (fun n _ => hC.opens call.key n call.aad call.plaintext) hpreview
  refine ⟨w', ?_, hrest⟩
  simp [DirectionalSession.decryptProfile3Data, hopen, DirectionalSession.commitProfile3Data,
    hcommit, hplain]

end Session

end R8
