import R8Protocol.Session.Tables

/-! When a server gives up an idle session. -/
namespace R8.Session

open FixedWidth Wire

variable {C : Crypto} {m : ServerMachine}

/-- The proof that a call hands over for its replay mark alone, with SCID and time. -/
def ServerCall.control? : ServerCall → Option (U64 × ProtectedReplayProof × U64)
  | .commitProtectedReplay scid proof nowMs => some (scid, proof, nowMs)
  | _ => none

namespace ServerMachine

/-- The SCID and time of the protected packet that a call accepts for the first time. -/
def accepts? (C : Crypto) (m : ServerMachine) : ServerCall → Option (U64 × U64)
  | .receiveAccept packet nowMs =>
    -- a repeated SESSION_ACCEPT of an established session promotes nothing
    if ((m.expire nowMs).position (u64Of (packet.drop 8))).isNone ∧
        (m.receiveAccept C packet nowMs).2.isOk then
      some (u64Of (packet.drop 8), nowMs)
    else none
  | .receiveData packet nowMs =>
    if (m.receiveData C packet nowMs).2.isOk then some (u64Of (packet.drop 8), nowMs) else none
  | .commitData preview nowMs =>
    if (m.commitData preview nowMs).2.isOk then some (preview.scid, nowMs) else none
  | .commitProtectedReplay scid proof nowMs =>
    if (m.commitProtectedReplay scid proof nowMs).2.2.isOk then some (scid, nowMs) else none
  | _ => none

/-- A control is committed only in the millisecond in which its session was active anyway. -/
def Refreshed (m : ServerMachine) (call : ServerCall) : Prop :=
  ∀ c ∈ call.control?, c.2.1.committed = false → ∀ preview ∈ c.2.1.preview,
    ∀ e ∈ (m.expire c.2.2).established, e.scid = c.1 →
      preview.receiveOwner = e.session.receiveOwner →
      preview.commit.generation = e.session.replay.generation → e.lastActiveMs = c.2.2

instance (m : ServerMachine) (call : ServerCall) : Decidable (m.Refreshed call) :=
  Option.decidableForallMem call.control?

variable {m' : ServerMachine} {now? : Option U64}

/-- Apart from what the call accepts at its own time, nobody's activity changes. -/
theorem Shift.activity {h? : Option Handshake} (hs : Shift C now? h? m m') {e' : EstablishedSession}
    (he : e' ∈ m'.established) :
    (∃ e ∈ m.established, e.scid = e'.scid ∧ e.lastActiveMs = e'.lastActiveMs) ∨
      now? = some e'.lastActiveMs := by
  have hsame : e' ∈ m.established →
      (∃ e ∈ m.established, e.scid = e'.scid ∧ e.lastActiveMs = e'.lastActiveMs) ∨
        now? = some e'.lastActiveMs := fun h => .inl ⟨e', h, rfl, rfl⟩
  cases hs with
  | same | opened | repend | locs | material => exact hsame he
  | session i s _ =>
    rcases List.mem_or_eq_of_mem_set he with he | rfl
    · exact hsame he
    · exact .inl ⟨m.established.get i, List.get_mem _ _, rfl, rfl⟩
  | touch i s nowMs hnow _ =>
    rcases List.mem_or_eq_of_mem_set he with he | rfl
    · exact hsame he
    · exact .inr hnow
  | remove i => exact hsame (List.mem_of_mem_eraseIdx he)
  | accepted i s packet nowMs hnow _ _ =>
    rcases List.mem_append.mp he with he | he
    · exact hsame he
    · rw [List.mem_singleton.mp he]
      exact .inr hnow
  | restart => cases he

theorem step_activity (m : ServerMachine) (call : ServerCall) {e' : EstablishedSession}
    (he : e' ∈ (m.step C call).established) :
    (∃ e ∈ m.established, e.scid = e'.scid ∧ e.lastActiveMs = e'.lastActiveMs) ∨
      call.time? = some e'.lastActiveMs := by
  rcases step_shifts (C := C) m call with hs | ⟨nowMs, -, hs⟩
  · exact hs.activity he
  · rcases hs.activity he with ⟨e, hmem, h⟩ | h
    · exact .inl ⟨e, List.mem_of_mem_filter hmem, h⟩
    · exact .inr h

variable {scid nowMs : U64}

theorem isOk_iff {ε α : Type} {r : Except ε α} : r.isOk = true ↔ ∃ a, r = .ok a := by
  cases r <;> simp [Except.isOk, Except.toBool]

/-- Accepted data refreshes its session. -/
theorem commitData_refreshes (ht : Tables m) {p : DataPreview} {plaintext : List Byte}
    (h : (m.commitData p nowMs).2 = .ok plaintext) {e : EstablishedSession}
    (he : e ∈ (m.commitData p nowMs).1.established) (hscid : e.scid = p.scid) :
    e.lastActiveMs = nowMs := by
  have ht' : Tables (m.commitData p nowMs).1 :=
    tables_step (C := .sample) ht (.commitData p nowMs)
  unfold commitData at h he ht'
  split at h
  · simp at h
  · rename_i hsame
    rw [if_neg hsame] at he ht'
    dsimp only at h he ht'
    split at h
    · simp at h
    · rename_i i hi
      simp only [hi] at he ht'
      generalize ((m.expire nowMs).established.get i).session.commit p.commit = r at h he ht'
      obtain ⟨session, e' | plaintext'⟩ := r
      · simp at h
      · have hentry := List.mem_set i.isLt
          ({ (m.expire nowMs).established.get i with session := session, lastActiveMs := nowMs })
        rw [ht'.unique he hentry (hscid.trans (position_scid hi).symm)]

theorem acceptPending_refreshes {i : Fin m.pending.length} {packet : List Byte}
    (hfree : ∀ e ∈ m.established, e.scid ≠ scid) (h : (m.acceptPending C i packet nowMs).2 = .ok ())
    {e : EstablishedSession} (he : e ∈ (m.acceptPending C i packet nowMs).1.established)
    (hscid : e.scid = scid) : e.lastActiveMs = nowMs := by
  unfold acceptPending at h he
  dsimp only at h he
  split at h
  · simp at h
  · rename_i preview hp
    simp only [hp] at he
    split at h
    · simp at h
    · rename_i hconf
      rw [if_neg hconf] at he
      split at h
      · simp at h
      · rename_i hroom
        rw [if_neg hroom] at he
        generalize (m.pending.get i).session.commit preview = r at h he
        obtain ⟨session, e' | plaintext⟩ := r
        · simp at h
        · rcases List.mem_append.mp he with he | he
          · exact absurd hscid (hfree e he)
          · rw [List.mem_singleton.mp he]
            rfl

/-- A promoted session starts out active. -/
theorem receiveAccept_refreshes {packet : List Byte}
    (hfree : (m.expire nowMs).position (u64Of (packet.drop 8)) = none)
    (h : (m.receiveAccept C packet nowMs).2 = .ok ()) {e : EstablishedSession}
    (he : e ∈ (m.receiveAccept C packet nowMs).1.established)
    (hscid : e.scid = u64Of (packet.drop 8)) : e.lastActiveMs = nowMs := by
  have hfree := position_eq_none.mp hfree
  unfold receiveAccept at h he
  dsimp only at h he
  split at h
  · simp at h
  · rename_i scid hs
    obtain ⟨rfl, -⟩ := acceptScid_eq_ok hs
    simp only [hs] at he
    split at h
    · rename_i e' he'
      have hmem := List.mem_of_find?_eq_some he'
      have := List.find?_some he'
      exact absurd (by simpa using this) (hfree e' hmem)
    · rename_i hnone
      simp only [hnone] at he
      split at h
      · simp at h
      · rename_i i hi
        simp only [hi] at he
        exact acceptPending_refreshes hfree h he hscid

/-- A control commits only a proof of the session as it stands. -/
theorem commitProtectedReplay_eq_ok {s : DirectionalSession} {proof : ProtectedReplayProof}
    (h : (s.commitProtectedReplay proof).2.2 = .ok ()) :
    ∃ preview, proof.committed = false ∧ proof.preview = some preview ∧
      preview.receiveOwner = s.receiveOwner ∧ preview.commit.generation = s.replay.generation := by
  unfold DirectionalSession.commitProtectedReplay at h
  split at h
  · simp at h
  · rename_i hcommitted
    split at h
    · simp at h
    · rename_i preview hp
      dsimp only at h
      split at h
      · simp at h
      · rename_i howner
        refine ⟨preview, by simpa using hcommitted, hp, (not_not.mp howner).symm, ?_⟩
        by_contra hgen
        have : s.replay.commit preview.commit = (s.replay, .error .replay) := by
          simp [ReplayWindow.commit, ReplayWindow.commit?, hgen]
        rw [this] at h
        simp at h

theorem commitProtectedReplay_refreshed {proof : ProtectedReplayProof}
    (hr : m.Refreshed (.commitProtectedReplay scid proof nowMs))
    (h : (m.commitProtectedReplay scid proof nowMs).2.2 = .ok ()) {e : EstablishedSession}
    (ht : Tables m) (he : e ∈ (m.commitProtectedReplay scid proof nowMs).1.established)
    (hscid : e.scid = scid) : e.lastActiveMs = nowMs := by
  have ht' := tables_expire ht nowMs
  have hr := hr (scid, proof, nowMs) rfl
  unfold commitProtectedReplay at h he
  dsimp only at h he
  split at h
  · simp at h
  · rename_i i hi
    simp only [hi] at he
    obtain ⟨preview, hc, hp, howner, hgen⟩ := commitProtectedReplay_eq_ok h
    have hactive := hr hc preview hp _ (List.get_mem _ i) (position_scid hi) howner hgen
    rcases List.mem_or_eq_of_mem_set he with he | rfl
    · rw [ht'.unique he (List.get_mem _ i) (hscid.trans (position_scid hi).symm)]
      exact hactive
    · exact hactive

/-- An acceptance leaves its session as active as can be. -/
theorem accepts_active {call : ServerCall} (ht : Tables m) (hr : m.Refreshed call)
    (h : m.accepts? C call = some (scid, nowMs)) :
    call.time? = some nowMs ∧
      ∀ e ∈ (m.step C call).established, e.scid = scid → e.lastActiveMs = nowMs := by
  cases call with
  | receiveAccept packet now =>
    obtain ⟨⟨hnone, hok⟩, heq⟩ := Option.ite_none_right_eq_some.mp h
    obtain ⟨rfl, rfl⟩ := Prod.mk.inj (Option.some.inj heq)
    obtain ⟨⟨⟩, hok⟩ := isOk_iff.mp hok
    exact ⟨rfl, fun e he hs => receiveAccept_refreshes (Option.isNone_iff_eq_none.mp hnone) hok he hs⟩
  | receiveData packet now =>
    obtain ⟨hok, heq⟩ := Option.ite_none_right_eq_some.mp h
    obtain ⟨rfl, rfl⟩ := Prod.mk.inj (Option.some.inj heq)
    obtain ⟨plaintext, hok⟩ := isOk_iff.mp hok
    obtain ⟨p, hscid, heq⟩ := receiveData_eq_ok hok
    refine ⟨rfl, fun e he hs => ?_⟩
    rw [heq] at hok
    change e ∈ (m.receiveData C packet now).1.established at he
    rw [heq] at he
    exact commitData_refreshes (tables_expire ht now) hok he (hs.trans hscid.symm)
  | commitData p now =>
    obtain ⟨hok, heq⟩ := Option.ite_none_right_eq_some.mp h
    obtain ⟨rfl, rfl⟩ := Prod.mk.inj (Option.some.inj heq)
    obtain ⟨plaintext, hok⟩ := isOk_iff.mp hok
    exact ⟨rfl, fun e he hs => commitData_refreshes ht hok he hs⟩
  | commitProtectedReplay id proof now =>
    obtain ⟨hok, heq⟩ := Option.ite_none_right_eq_some.mp h
    obtain ⟨rfl, rfl⟩ := Prod.mk.inj (Option.some.inj heq)
    obtain ⟨⟨⟩, hok⟩ := isOk_iff.mp hok
    exact ⟨rfl, fun e he hs => commitProtectedReplay_refreshed hr hok ht he hs⟩
  | _ => cases h

end ServerMachine

/-- A server with the latest time it was told and every acceptance so far. -/
structure Timeline where
  machine : ServerMachine
  clock : U64
  accepted : List (U64 × U64)

namespace Timeline

def step (C : Crypto) (w : Timeline) (call : ServerCall) : Timeline :=
  ⟨w.machine.step C call, call.time?.getD w.clock,
    (w.machine.accepts? C call).toList ++ w.accepted⟩

def Starts (C : Crypto) (w : Timeline) : Prop :=
  ServerMachine.Starts C w.machine ∧ w.accepted = []

/-- Time does not go back. -/
def Ordered (w : Timeline) (call : ServerCall) : Prop :=
  ∀ nowMs ∈ call.time?, w.clock ≤ nowMs

instance (w : Timeline) (call : ServerCall) : Decidable (w.Ordered call) :=
  Option.decidableForallMem call.time?

abbrev Reach (C : Crypto) (w : Timeline) : Prop := Machine.Reach (Starts C) (step C) Ordered w

/-- The runs in which every control finds its session just refreshed. -/
abbrev RefreshedReach (C : Crypto) (w : Timeline) : Prop :=
  Machine.Reach (Starts C) (step C)
    (fun w call => w.Ordered call ∧ w.machine.Refreshed call) w

/-- Whatever time comes next, expiry takes no session with an acceptance in the last two minutes. -/
def KeepsActive (w : Timeline) : Prop :=
  ∀ nowMs, w.clock ≤ nowMs → ∀ e ∈ w.machine.established,
    e ∉ (w.machine.expire nowMs).established →
    ∀ t, (e.scid, t) ∈ w.accepted → ¬ nowMs.val - t.val < 120000

/-- Every acceptance lies in the past, and its session was not touched earlier. -/
structure Covered (w : Timeline) : Prop where
  tables : ServerMachine.Tables w.machine
  past : ∀ a ∈ w.accepted, a.2 ≤ w.clock
  active : ∀ a ∈ w.accepted, ∀ e ∈ w.machine.established, e.scid = a.1 → a.2 ≤ e.lastActiveMs

variable {w : Timeline}

theorem covered_step (h : Covered w) {call : ServerCall} (ho : w.Ordered call)
    (hr : w.machine.Refreshed call) : Covered (w.step C call) := by
  have hclock : w.clock ≤ (w.step C call).clock := by
    simp only [step]
    cases hnow : call.time? with
    | none => exact le_refl _
    | some nowMs => exact ho nowMs hnow
  refine ⟨?_, ?_, ?_⟩
  · rcases ServerMachine.step_shifts (C := C) w.machine call with hs | ⟨nowMs, -, hs⟩
    · exact hs.tables h.tables
    · exact hs.tables (ServerMachine.tables_expire h.tables nowMs)
  · intro a ha
    rcases List.mem_append.mp ha with ha | ha
    · obtain ⟨hnow, -⟩ := ServerMachine.accepts_active h.tables hr (Option.mem_toList.mp ha)
      simp [step, hnow]
    · exact (h.past a ha).trans hclock
  · intro a ha e he hscid
    rcases List.mem_append.mp ha with ha | ha
    · obtain ⟨-, hactive⟩ := ServerMachine.accepts_active h.tables hr (Option.mem_toList.mp ha)
      exact (hactive e he hscid).ge
    · rcases ServerMachine.step_activity w.machine call he with ⟨e', he', hs, ht⟩ | hnow
      · rw [← ht]
        exact h.active a ha e' he' (hs.trans hscid)
      · exact (h.past a ha).trans (ho _ hnow)

theorem covered_reach (h : RefreshedReach C w) : Covered w := by
  refine h.invariant ?_ fun w call hw hok => covered_step hw hok.1 hok.2
  rintro w ⟨⟨config, signingKey, material, hnew⟩, hnil⟩
  obtain ⟨-, hm⟩ := ServerMachine.new_eq_ok hnew
  refine ⟨?_, by simp [hnil], by simp [hnil]⟩
  rw [hm]
  exact ⟨by simp [ServerMachine.scids], by simp [ServerMachine.scids], Nat.zero_le _, Nat.zero_le _⟩

/-- As long as controls come with other traffic, no session with a recent acceptance is given up. -/
theorem idle_timeout (h : RefreshedReach C w) : w.KeepsActive := by
  have hc := covered_reach h
  intro nowMs hnow e he hgone t ht hrecent
  have hactive : t ≤ e.lastActiveMs := hc.active (e.scid, t) ht e he rfl
  have hidle : ¬ (satSub nowMs e.lastActiveMs).val < 120000 := by
    intro hlive
    exact hgone (List.mem_filter.mpr ⟨he, by simpa using hlive⟩)
  rw [satSub_val] at hidle
  have : t.val ≤ e.lastActiveMs.val := hactive
  omega

/-- A client's datagram, sent to mobility, that the server commits as a control. -/
def control (seed : Byte) (nowMs : U64) : ServerCall :=
  let m := Scenario.withSessions 0 1000 [(9, seed)]
  let client := (Scenario.accepting (Scenario.server 0) 9 seed 1000).1
  let packet := Scenario.packetOf (client.sendData .sample [2]).2.2
  let preview := (m.previewDataWithLocs .sample packet [] [] nowMs).2.toOption
  .commitProtectedReplay 9 ⟨preview.map (·.commit), false⟩ nowMs

/-- A control in the millisecond of the handshake does no harm. -/
theorem idle_timeout_control_at_once :
    let w := Machine.exec (step .sample) ⟨Scenario.server 0, 0, []⟩
      (Scenario.handshake (Scenario.server 0) 9 30 1000 ++ [control 30 1000])
    w.accepted = [(9, 1000), (9, 1000)] ∧ w.KeepsActive := by
  have hrun : Machine.Allowed (step .sample)
      (fun w call => w.Ordered call ∧ w.machine.Refreshed call) ⟨Scenario.server 0, 0, []⟩
      (Scenario.handshake (Scenario.server 0) 9 30 1000 ++ [control 30 1000]) := by
    decide +kernel
  exact ⟨by decide +kernel,
    idle_timeout (Machine.Reach.exec (.start ⟨Scenario.server_starts (by simp), rfl⟩) _ hrun)⟩

/-- A session that carries a control after 99 seconds is given up 21 seconds later. -/
theorem idle_timeout_controls_only : ∃ w, Reach .sample w ∧ ¬ w.KeepsActive := by
  have hrun : Machine.Allowed (step .sample) Ordered ⟨Scenario.server 0, 0, []⟩
      (Scenario.handshake (Scenario.server 0) 9 30 1000 ++ [control 30 100000]) := by
    decide +kernel
  refine ⟨_, Machine.Reach.exec (.start ⟨Scenario.server_starts (by simp), rfl⟩) _ hrun, ?_⟩
  generalize hw : Machine.exec (step .sample) ⟨Scenario.server 0, 0, []⟩ _ = w
  have hfacts : w.clock = 100000 ∧ w.machine.established.map EstablishedSession.scid = [9] ∧
      (w.machine.expire 121000).established.length = 0 ∧
      w.accepted = [(9, 100000), (9, 1000)] := hw ▸ by decide +kernel
  obtain ⟨hclock, hscid, hgone, haccepted⟩ := hfacts
  intro hkeeps
  obtain ⟨e, he, hs⟩ := List.mem_map.mp (hscid ▸ List.mem_singleton_self 9)
  have hgone' : e ∉ (w.machine.expire 121000).established := by
    rw [List.length_eq_zero_iff.mp hgone]
    exact List.not_mem_nil
  refine hkeeps 121000 (by rw [hclock]; decide) e he hgone' 100000 ?_ (by decide)
  rw [hs, haccepted]
  exact List.mem_cons_self

end Timeline

end R8.Session
