import R8Protocol.Session.Scenario

/-! The two tables of a server: one entry for an SCID, within the limits. -/
namespace R8.Session.ServerMachine

open FixedWidth Wire

variable {C : Crypto} {m m' : ServerMachine}

structure Tables (m : ServerMachine) : Prop where
  single : m.scids.Nodup
  nonzero : 0 ∉ m.scids
  pendingRoom : m.pending.length ≤ m.config.pendingLimit
  establishedRoom : m.established.length ≤ m.config.establishedLimit

/-- Entries of the same SCID are the same entry. -/
theorem Tables.unique (h : Tables m) {e e' : EstablishedSession} (he : e ∈ m.established)
    (he' : e' ∈ m.established) (hscid : e.scid = e'.scid) : e = e' :=
  List.inj_on_of_nodup_map (List.nodup_append.mp h.single).2.1 he he' hscid

/-- A pending entry is found by its SCID. -/
theorem Tables.pendingPosition (h : Tables m) {p : PendingSession} (hp : p ∈ m.pending) :
    ∃ i, m.pending.findFinIdx? (fun entry => entry.scid = p.scid) = some i ∧
      m.pending.get i = p := by
  cases hf : m.pending.findFinIdx? fun entry => entry.scid = p.scid with
  | none =>
    have := List.findFinIdx?_eq_none_iff.mp hf p hp
    simp at this
  | some i =>
    have hscid : (m.pending.get i).scid = p.scid := by
      simpa using (List.findFinIdx?_eq_some_iff.mp hf).1
    exact ⟨i, rfl, List.inj_on_of_nodup_map (List.nodup_append.mp h.single).1 (List.get_mem _ i) hp
      hscid⟩

/-- No SCID is pending and established at once. -/
theorem Tables.pendingOnly (h : Tables m) {p : PendingSession} (hp : p ∈ m.pending) :
    ∀ e ∈ m.established, e.scid ≠ p.scid := by
  intro e he heq
  exact (List.nodup_append.mp h.single).2.2 _ (List.mem_map_of_mem hp) _ (List.mem_map_of_mem he)
    heq.symm

theorem position_scid {scid : U64} {i : Fin m.established.length} (h : m.position scid = some i) :
    (m.established.get i).scid = scid := by
  have := (List.findFinIdx?_eq_some_iff.mp h).1
  simpa using this

theorem position_eq_none {scid : U64} :
    m.position scid = none ↔ ∀ e ∈ m.established, e.scid ≠ scid := by
  simp [position]

theorem scids_expire (m : ServerMachine) (nowMs : U64) : (m.expire nowMs).scids.Sublist m.scids :=
  (List.filter_sublist.map _).append (List.filter_sublist.map _)

theorem tables_expire (h : Tables m) (nowMs : U64) : Tables (m.expire nowMs) where
  single := h.single.sublist (scids_expire m nowMs)
  nonzero hz := h.nonzero ((scids_expire m nowMs).subset hz)
  pendingRoom := (List.length_filter_le ..).trans h.pendingRoom
  establishedRoom := (List.length_filter_le ..).trans h.establishedRoom

/-- Overwriting an entry by one of the same SCID. -/
theorem map_set_same {α β : Type} {f : α → β} {l : List α} (i : Fin l.length) {x : α}
    (hx : f x = f (l.get i)) : (l.set i x).map f = l.map f := by
  rw [List.map_set, hx]
  apply List.ext_getElem?
  intro n
  by_cases hn : i.val = n
  · subst hn
    simp
  · rw [List.getElem?_set_ne hn]

theorem tables_set (h : Tables m) (i : Fin m.established.length) {entry : EstablishedSession}
    (hx : entry.scid = (m.established.get i).scid) :
    Tables { m with established := m.established.set i entry } := by
  have hs : ({ m with established := m.established.set i entry } : ServerMachine).scids = m.scids := by
    simp only [scids, map_set_same i hx]
  exact ⟨hs ▸ h.single, hs ▸ h.nonzero, h.pendingRoom, by simpa using h.establishedRoom⟩

theorem tables_accepted (h : Tables m) (i : Fin m.pending.length) {entry : EstablishedSession}
    (hx : entry.scid = (m.pending.get i).scid)
    (hroom : m.established.length < m.config.establishedLimit) :
    Tables { m with
      pending := m.pending.eraseIdx i
      established := m.established ++ [entry] } := by
  -- the SCID moves from one table to the other
  have hperm : ({ m with
      pending := m.pending.eraseIdx i
      established := m.established ++ [entry] } : ServerMachine).scids.Perm m.scids := by
    have hp : ((m.pending.get i).scid :: (m.pending.eraseIdx i).map PendingSession.scid).Perm
        (m.pending.map PendingSession.scid) := by
      have := (List.getElem_cons_eraseIdx_perm i.isLt).map PendingSession.scid
      simpa using this
    simp only [scids, List.map_append, List.map_cons, List.map_nil, hx]
    rw [← List.append_assoc]
    refine (List.perm_append_comm).trans ?_
    rw [List.singleton_append, ← List.cons_append]
    exact hp.append_right _
  refine ⟨hperm.nodup_iff.mpr h.single, fun hz => h.nonzero (hperm.mem_iff.mp hz), ?_, ?_⟩
  · exact (List.length_eraseIdx_le ..).trans h.pendingRoom
  · simpa using hroom

theorem Shift.tables {now? : Option U64} {h? : Option Handshake} (hs : Shift C now? h? m m')
    (h : Tables m) : Tables m' := by
  cases hs with
  | same => exact h
  | session i s => exact tables_set h i rfl
  | touch i s nowMs => exact tables_set h i rfl
  | remove i =>
    have hsub : (m.removeEstablished i).scids.Sublist m.scids :=
      (List.Sublist.refl _).append ((List.eraseIdx_sublist ..).map _)
    exact ⟨h.single.sublist hsub, fun hz => h.nonzero (hsub.subset hz), h.pendingRoom,
      (List.length_eraseIdx_le ..).trans h.establishedRoom⟩
  | opened entry hscid hfree hroom =>
    have hperm : ({ m with pending := m.pending ++ [entry] } : ServerMachine).scids.Perm
        (entry.scid :: m.scids) := by
      simp only [scids, List.map_append, List.map_cons, List.map_nil, List.append_assoc,
        List.singleton_append]
      exact List.perm_middle
    refine ⟨hperm.nodup_iff.mpr (List.nodup_cons.mpr ⟨hfree, h.single⟩), ?_, ?_, h.establishedRoom⟩
    · intro hz
      rcases List.mem_cons.mp (hperm.mem_iff.mp hz) with hz | hz
      · exact hscid hz.symm
      · exact h.nonzero hz
    · simpa using hroom
  | repend i s =>
    have hscids : ({ m with
        pending := m.pending.set i ({ m.pending.get i with session := s }) } :
          ServerMachine).scids = m.scids := by
      have hx : PendingSession.scid { m.pending.get i with session := s } =
        (m.pending.get i).scid := rfl
      simp only [scids, map_set_same i hx]
    exact ⟨hscids ▸ h.single, hscids ▸ h.nonzero, by simpa using h.pendingRoom, h.establishedRoom⟩
  | accepted i s packet nowMs _ hroom _ => exact tables_accepted h i rfl hroom
  | locs => exact ⟨h.single, h.nonzero, h.pendingRoom, h.establishedRoom⟩
  | material => exact ⟨h.single, h.nonzero, h.pendingRoom, h.establishedRoom⟩
  | restart =>
    exact ⟨by simp [scids, ServerMachine.restart], by simp [scids, ServerMachine.restart],
      Nat.zero_le _, Nat.zero_le _⟩

theorem tables_step (h : Tables m) (call : ServerCall) : Tables (m.step C call) := by
  rcases step_shifts (C := C) m call with hs | ⟨nowMs, -, hs⟩
  · exact hs.tables h
  · exact hs.tables (tables_expire h nowMs)

theorem tables_exec (h : Tables m) (calls : List ServerCall) :
    Tables (Machine.exec (step C) m calls) := by
  induction calls generalizing m with
  | nil => exact h
  | cons call calls ih => exact ih (tables_step h call)

theorem new_eq_ok {config : HandshakeConfig} {signingKey : Bytes 32} {material : ServerMaterial}
    (h : ServerMachine.new C config signingKey material = .ok m) :
    config.validate C = .ok () ∧
      m = ⟨config, signingKey, material, [], [], config.destination, config.source⟩ := by
  simp only [ServerMachine.new, Outcome.bind_eq_ok, Outcome.ite_error_eq_ok, Except.ok.injEq] at h
  obtain ⟨⟨⟩, hv, -, rfl⟩ := h
  exact ⟨hv, rfl⟩

theorem tables_reach (h : Reach C m) : Tables m := by
  refine h.invariant ?_ fun s call hs _ => tables_step hs call
  rintro s ⟨config, signingKey, material, hnew⟩
  obtain ⟨-, rfl⟩ := new_eq_ok hnew
  exact ⟨by simp [scids], by simp [scids], Nat.zero_le _, Nat.zero_le _⟩

/-- An OPEN_AUTH whose SCID is taken is answered or refused without touching an entry. -/
theorem receiveOpenAuth_taken {packet : List Byte} {nowMs : U64}
    (htaken : u64Of (packet.drop 8) ∈ (m.expire nowMs).scids) (binding : ObservedBinding)
    (bucket : U64) (material : Option ServerHandshakeMaterial) (owner : ℕ) :
    (m.receiveOpenAuth C packet binding nowMs bucket material owner).1 = m ∨
      (m.receiveOpenAuth C packet binding nowMs bucket material owner).1 = m.expire nowMs := by
  unfold receiveOpenAuth
  split
  · exact .inl rfl
  · right
    dsimp only
    split
    · rfl
    · rfl
    · rename_i hreq
      obtain ⟨⟨hscid, -⟩, hfree, -⟩ := authRequest_eq_inr hreq
      rw [← hscid] at htaken
      exact absurd htaken hfree

/-- In every reachable state the tables hold each SCID once, never zero, within the limits, and an
OPEN_AUTH for an SCID that has an entry changes none. -/
theorem tables_sound (h : Reach C m) :
    (m.pending.map PendingSession.scid ++ m.established.map EstablishedSession.scid).Nodup ∧
    (∀ p ∈ m.pending, p.scid ≠ 0) ∧ (∀ e ∈ m.established, e.scid ≠ 0) ∧
    m.pending.length ≤ m.config.pendingLimit ∧
    m.established.length ≤ m.config.establishedLimit ∧
    ∀ packet binding nowMs bucket material owner,
      u64Of (packet.drop 8) ∈ (m.expire nowMs).scids →
      let m' := m.step C (.receiveOpenAuth packet binding nowMs bucket material owner)
      (m'.pending = m.pending ∧ m'.established = m.established) ∨
        m'.pending = (m.expire nowMs).pending ∧ m'.established = (m.expire nowMs).established := by
  have ht := tables_reach h
  refine ⟨ht.single, ?_, ?_, ht.pendingRoom, ht.establishedRoom, ?_⟩
  · intro p hp hz
    exact ht.nonzero (List.mem_append_left _ (List.mem_map.mpr ⟨p, hp, hz⟩))
  · intro e he hz
    exact ht.nonzero (List.mem_append_right _ (List.mem_map.mpr ⟨e, he, hz⟩))
  · intro packet binding nowMs bucket material owner htaken
    rcases receiveOpenAuth_taken (C := C) htaken binding bucket material owner with he | he
    · exact .inl ⟨congrArg pending he, congrArg established he⟩
    · exact .inr ⟨congrArg pending he, congrArg established he⟩

theorem tables_sound_two_sessions :
    let m := Scenario.withSessions 0 1000 [(9, 30), (8, 40)]
    m.established.map EstablishedSession.scid = [8, 9] ∧
      (m.pending.map PendingSession.scid ++ m.established.map EstablishedSession.scid).Nodup :=
  ⟨by decide +kernel, (tables_sound (Scenario.withSessions_reach 1000 [(9, 30), (8, 40)])).1⟩

end R8.Session.ServerMachine
