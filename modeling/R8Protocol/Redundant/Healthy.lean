import R8Protocol.Redundant.Fleet

/-! What a session keeps from the handshake that made it. -/
namespace R8.Redundant

open FixedWidth Wire Session Mobility

/-- The two ends have different roles, so that both keys of slot one can be derived. -/
def Paired (b : Profile3Bootstrap) : Prop :=
  isRole b.localRole = true ∧ isRole b.peerRole = true ∧ b.localRole ≠ b.peerRole

structure Healthy (s : RedundantSession) : Prop where
  sane : ∀ i, ∀ d ∈ (s.paths i).session, d.Sane
  paired : ∀ b ∈ s.bootstrap, Paired b

theorem validate_roles {C : Crypto} {c : HandshakeConfig} (h : c.validate C = .ok ()) :
    isRole c.localId.role = true ∧ isRole c.peer.role = true ∧ c.localId.role ≠ c.peer.role := by
  simp only [HandshakeConfig.validate, Outcome.bind_eq_ok, Outcome.ite_error_eq_ok] at h
  obtain ⟨⟨⟩, hl, ⟨⟩, hp, hne, -⟩ := h
  simp only [Identity.validate, Outcome.ite_error_eq_ok, not_not] at hl hp
  exact ⟨hl.1, hp.1, hne⟩

theorem HandedOver.healthy {C : Crypto} {b : Profile3Bootstrap} (h : HandedOver C b) :
    Paired b ∧ ∀ d ∈ b.slot0, d.Sane := by
  rcases h with ⟨m, hr, hb⟩ | ⟨m, scid, hr, hb⟩
  · have hroles := validate_roles (ClientMachine.config_reach hr)
    have hsane := ClientMachine.sane_reach hr
    unfold ClientMachine.takeProfile3Bootstrap at hb
    split at hb
    · simp at hb
    · split at hb
      · rename_i hst
        obtain rfl := Except.ok.inj hb
        refine ⟨hroles, ?_⟩
        intro d hd
        exact hsane d (by simpa [ClientMachine.session?, hst] using hd)
      · simp at hb
  · have hh := ServerMachine.healthy_reach hr
    unfold ServerMachine.takeProfile3Bootstrap at hb
    split at hb
    · simp at hb
    · split at hb
      · simp at hb
      · rename_i i _
        dsimp only at hb
        split at hb
        · obtain rfl := Except.ok.inj hb
          refine ⟨validate_roles hh.config, ?_⟩
          intro d hd
          obtain rfl := Option.mem_some_iff.mp hd
          exact hh.established _ (List.get_mem _ _)
        · simp at hb

section

variable {C : Crypto} {g : Option ℕ} {s s' : RedundantSession} {calls : List SealCall}

theorem Healthy.setPath (h : Healthy s) (i : Fin 2) {p : Path} (hp : ∀ d ∈ p.session, d.Sane) :
    Healthy (s.setPath i p) := by
  refine ⟨?_, h.paired⟩
  intro j d hd
  by_cases hj : j = i
  · subst hj
    exact hp d (by simpa [RedundantSession.setPath] using hd)
  · exact h.sane j d (by simpa [RedundantSession.setPath, hj] using hd)

theorem Move.healthy (hm : Move C g s calls s') (h : Healthy s) : Healthy s' := by
  cases hm with
  | frame hf =>
    refine ⟨?_, ?_⟩
    · rw [hf.paths]
      exact h.sane
    · rw [hf.bootstrap]
      exact h.paired
  | issue => exact ⟨h.sane, h.paired⟩
  | reread i d w hd hs =>
    refine h.setPath i ?_
    intro d' hd'
    obtain rfl := Option.mem_some_iff.mp hd'
    exact hs (h.sane i d hd)
  | count i d c hd =>
    refine h.setPath i ?_
    intro d' hd'
    obtain rfl := Option.mem_some_iff.mp hd'
    exact h.sane i d hd
  | send i d d' call out plaintext hd hs =>
    refine h.setPath i ?_
    intro e he
    obtain rfl := Option.mem_some_iff.mp he
    rw [hs.next]
    exact h.sane i d hd
  | pop i => exact h.setPath i (h.sane i)
  | spend b hb =>
    refine ⟨h.sane, ?_⟩
    intro b' hb'
    obtain rfl := Option.mem_some_iff.mp hb'
    exact h.paired b hb
  | use b admission budget owner d hb ha h1 hbudget hd =>
    obtain ⟨schedule, k₁, k₂, -, -, -, rfl⟩ := takeSlot1AfterAdmission_ok hd
    have hspent : Healthy { s with bootstrap := some { b with schedule := none } } := by
      refine ⟨h.sane, ?_⟩
      intro b' hb'
      obtain rfl := Option.mem_some_iff.mp hb'
      exact h.paired b hb
    refine hspent.setPath 1 ?_
    intro d' hd'
    obtain rfl := Option.mem_some_iff.mp hd'
    exact DirectionalSession.sane_new _ _ _ _ _
  | retire i => exact h.setPath i (by simp [Path.clear])
  | remember id bytes nowMs =>
    obtain ⟨dedup, hframe⟩ := remember_frame C s id bytes nowMs
    rw [hframe]
    exact ⟨h.sane, h.paired⟩
  | close hc =>
    refine ⟨?_, by simp [hc.bootstrap]⟩
    intro i d hd
    simp [hc.paths, Path.clear] at hd

theorem Moves.healthy (hm : Moves C g s calls s') : Healthy s → Healthy s' :=
  hm.preserves (P := fun s t => Healthy s → Healthy t) (fun _ => id) (fun h h' => h' ∘ h) Move.healthy

theorem new_healthy {b : Profile3Bootstrap} {binding : ObservedBinding} {seed : U64} {owner : ℕ}
    (hb : HandedOver C b) (h : RedundantSession.new b binding seed owner = .ok s) : Healthy s := by
  obtain ⟨hpaired, hsane⟩ := hb.healthy
  obtain ⟨d, hd, -, hs⟩ := new_eq_ok h
  refine ⟨?_, ?_⟩
  · intro i
    fin_cases i
    · intro e he
      obtain rfl : d = e := by simpa [hs.path0] using he
      exact hsane d hd
    · intro e he
      simp [hs.path1] at he
  · intro b' hb'
    rw [hs.bootstrap] at hb'
    obtain rfl := Option.mem_some_iff.mp hb'
    exact hpaired

end

theorem Fleet.Reach.healthy {C : Crypto} {f : Fleet} (h : Fleet.Reach C f) {i : ℕ} {w : World}
    (hw : f.sessions i = some w) : Healthy w.session := by
  induction h generalizing i w with
  | start h =>
    subst h
    simp [Fleet.empty] at hw
  | next _ hok ih =>
    rcases Fleet.sessions_step hw with hw | ⟨b, binding, seed, s, rfl, hs, rfl⟩ |
      ⟨w₀, call, hw₀, hc, rfl⟩
    · exact ih hw
    · exact new_healthy hok.2 hs
    · exact (World.step_moves C w₀ call).healthy (ih hw₀)

end R8.Redundant
