import R8Protocol.Redundant.Outbound

/-! Removing a path that cannot be removed, and what becomes of the preview that is pending then. -/
namespace R8.Redundant

open FixedWidth Wire Session Mobility

/-- A call that does not lend: the pending preview is gone, or it would still be taken as before. -/
def Leaves (s s' : RedundantSession) : Prop :=
  s'.receivePreview = none ∨ s'.receivePreview = s.receivePreview ∧
    s'.receiveGeneration = s.receiveGeneration ∧ s'.receiveOwner = s.receiveOwner ∧
    ∀ i d, (s.paths i).session = some d →
      ∃ c, (s'.paths i).session = some { d with sendCounters := c }

/-- No lease lives in `l'` that did not live in `l`. -/
def Leases.Fewer (l l' : Leases) : Prop := ∀ lease, l'.isActive lease = true → l.isActive lease = true

theorem Leases.Fewer.refl (l : Leases) : l.Fewer l := fun _ h => h

theorem Leases.Fewer.deactivate (l : Leases) (lease : ℕ) : l.Fewer (l.deactivate lease) := by
  intro x hx
  simp only [Leases.isActive, Leases.deactivate, List.mem_filter, decide_eq_true_eq] at hx ⊢
  exact hx.1

theorem Leases.isActive_deactivate (l : Leases) (lease : ℕ) :
    (l.deactivate lease).isActive lease = false := by
  simp [Leases.isActive, Leases.deactivate]

namespace Leaves

variable {C : Crypto} {s s' s'' : RedundantSession} {leases : Leases}

theorem refl (s : RedundantSession) : Leaves s s := .inr ⟨rfl, rfl, rfl, fun _ _ h => ⟨_, h⟩⟩

theorem trans (h : Leaves s s') (h' : Leaves s' s'') : Leaves s s'' := by
  rcases h' with h' | ⟨hp', hg', ho', hd'⟩
  · exact .inl h'
  · rcases h with h | ⟨hp, hg, ho, hd⟩
    · exact .inl (hp'.trans h)
    · refine .inr ⟨hp'.trans hp, hg'.trans hg, ho'.trans ho, ?_⟩
      intro i d h
      obtain ⟨c, hc⟩ := hd i d h
      obtain ⟨c', hc'⟩ := hd' i _ hc
      exact ⟨c', hc'⟩

/-- Changes outside the paths. -/
theorem frame (hp : s'.receivePreview = s.receivePreview)
    (hg : s'.receiveGeneration = s.receiveGeneration) (ho : s'.receiveOwner = s.receiveOwner)
    (hpaths : s'.paths = s.paths) : Leaves s s' := by
  refine .inr ⟨hp, hg, ho, ?_⟩
  intro i d h
  rw [hpaths]
  exact ⟨_, h⟩

theorem event (s : RedundantSession) (e : RedundantEvent) : Leaves s (s.event e) :=
  .frame rfl rfl rfl rfl

theorem reap (s : RedundantSession) (leases : Leases) : Leaves s (s.reapPreview leases) := by
  unfold RedundantSession.reapPreview
  split
  · exact .inl rfl
  · exact .refl s

theorem close (s : RedundantSession) (leases : Leases) : Leaves s (s.close leases).1 := by
  unfold RedundantSession.close
  split
  · exact .refl s
  · exact .inl rfl

/-- A path whose session counted on, if at all. -/
theorem setPath (i : Fin 2) {p : Path} (hp : ∀ d, (s.paths i).session = some d →
    ∃ c, p.session = some { d with sendCounters := c }) : Leaves s (s.setPath i p) := by
  refine .inr ⟨rfl, rfl, rfl, ?_⟩
  intro j d hd
  by_cases hj : j = i
  · subst hj
    simpa [RedundantSession.setPath] using hp d hd
  · exact ⟨d.sendCounters, by simpa [RedundantSession.setPath, hj] using hd⟩

theorem sendOn (C : Crypto) (s : RedundantSession) (i : Fin 2) (delivery : U64)
    (plaintext : List Byte) : Leaves s (s.sendOn C i delivery plaintext).1 := by
  unfold RedundantSession.sendOn
  split
  · exact .refl s
  · rename_i header _
    split
    · rename_i binding d _ hd
      have hcount : ∃ c, (d.encryptProfile3Data C header delivery plaintext (s.paths i).budget).1 =
          { d with sendCounters := c } := by
        rcases encryptProfile3Data_cases C d header delivery plaintext (s.paths i).budget with
          ⟨-, -, c, hc, -⟩ | ⟨call, packet, -, hseals, -⟩
        · exact ⟨c, hc⟩
        · exact ⟨_, hseals.next⟩
      obtain ⟨c, hc⟩ := hcount
      dsimp only
      rw [hc]
      have hsame : ∀ d', (s.paths i).session = some d' →
          ∃ c', some { d with sendCounters := c } = some { d' with sendCounters := c' } := by
        intro d' hd'
        obtain rfl := Option.some.inj (hd.symm.trans hd')
        exact ⟨c, rfl⟩
      split
      · exact .setPath i hsame
      · exact .setPath i hsame
    · exact .refl s

theorem sendAll (C : Crypto) (s : RedundantSession) (delivery : U64) (plaintext : List Byte)
    (is : List (Fin 2)) : Leaves s (s.sendAll C delivery plaintext is).1 := by
  induction is generalizing s with
  | nil => exact .refl s
  | cons i is ih =>
    have h := sendOn C s i delivery plaintext
    unfold RedundantSession.sendAll
    generalize s.sendOn C i delivery plaintext = r at h ⊢
    obtain ⟨t, calls, e | packet⟩ := r
    · exact h
    · exact h.trans (ih t)

theorem outbound (C : Crypto) (s : RedundantSession) (leases : Leases) (plaintext : List Byte) :
    Leaves s (s.outbound C leases plaintext).1.1 := by
  unfold RedundantSession.outbound
  split
  · exact .refl s
  · dsimp only
    split
    · exact .refl s
    · split
      · exact .refl s
      · exact .event s _
      · exact .close s leases
      · split
        · exact .close s leases
        · have h := sendAll C s s.nextDelivery plaintext s.activePaths
          generalize s.sendAll C s.nextDelivery plaintext s.activePaths = r at h ⊢
          obtain ⟨t, calls, e | packets⟩ := r
          · exact h
          · exact h.trans (.frame rfl rfl rfl rfl)

theorem confirmSent (s : RedundantSession) (slot : Byte) (packet : List Byte) :
    Leaves s (s.confirmSent slot packet).1 := by
  unfold RedundantSession.confirmSent
  split
  · exact .refl s
  · split
    · exact .refl s
    · split
      · exact .refl s
      · exact .setPath _ fun d hd => ⟨d.sendCounters, hd⟩

theorem issueOwner (s : RedundantSession) (policyId : U32) (ownerLive : Bool) (capability : ℕ) :
    Leaves s (s.issueProfile3AdmissionOwner policyId ownerLive capability).1 := by
  unfold RedundantSession.issueProfile3AdmissionOwner
  split
  · exact .refl s
  · split
    · exact .refl s
    · dsimp only
      split
      · split <;> exact .frame rfl rfl rfl rfl
      · exact .frame rfl rfl rfl rfl

/-- Slot one comes into use only while nothing is pending. -/
theorem activate (C : Crypto) (s : RedundantSession) (leases : Leases)
    (admission : Profile3Admission) (budget owner : ℕ) :
    Leaves s (s.activate C leases admission budget owner).1 := by
  unfold RedundantSession.activate
  split
  · exact .refl s
  · split
    · exact .refl s
    · have hr := reap s leases
      dsimp only
      generalize s.reapPreview leases = t at hr ⊢
      split
      · exact hr
      · rename_i hguard
        push Not at hguard
        have hnone : t.receivePreview = none := by simpa using hguard.2.2
        split
        · exact hr
        · have hpending : (t.takeSlot1 C admission owner).1.receivePreview = none := by
            unfold RedundantSession.takeSlot1
            split
            · split
              · exact hnone
              · dsimp only
                split
                · exact hnone
                · split <;> exact hnone
            · exact hnone
          generalize t.takeSlot1 C admission owner = r at hpending ⊢
          obtain ⟨u, e | d⟩ := r
          · exact .inl hpending
          · exact .inl hpending

theorem abortInbound (s : RedundantSession) (leases : Leases) (p : InboundPreview) :
    Leaves s (s.abortInbound leases p).1.1 := by
  unfold RedundantSession.abortInbound
  dsimp only
  split
  · exact .refl s
  · split
    · exact .refl s
    · exact .inl rfl

theorem commitInbound (C : Crypto) (s : RedundantSession) (leases : Leases) (p : InboundPreview) :
    Leaves s (s.commitInbound C leases p).1.1 := by
  unfold RedundantSession.commitInbound
  dsimp only
  split
  · exact .refl s
  · split
    · exact .refl s
    · split
      · exact .refl s
      · obtain ⟨⟨paths, hframe⟩, -⟩ := commit_frame { s with receivePreview := none } p.slot
          p.sessionPreview
        generalize RedundantSession.commit _ p.slot p.sessionPreview = r at hframe ⊢
        obtain ⟨t, e | ⟨id, bytes⟩⟩ := r
        · obtain rfl : t = _ := hframe
          exact .inl rfl
        · obtain rfl : t = _ := hframe
          dsimp only
          split
          · exact .inl rfl
          · exact .inl (pending_remember C _ _ _ _)

theorem removeSlot (leases : Leases) (slot : Byte) (h : s.receivePreview = none) :
    (s.removeSlot leases slot).1.1.receivePreview = none := by
  have hclose : ∀ (t : RedundantSession) (l : Leases), t.receivePreview = none →
      (t.close l).1.receivePreview = none := by
    intro t l ht
    unfold RedundantSession.close
    split
    · exact ht
    · rfl
  unfold RedundantSession.removeSlot
  split
  · exact h
  · exact h
  · split
    · exact h
    · split
      · exact h
      · dsimp only
        split
        · exact hclose _ _ h
        · exact h

theorem removePath (s : RedundantSession) (leases : Leases) (slot : Byte) :
    Leaves s (s.removePath leases slot).1.1 := by
  unfold RedundantSession.removePath
  split
  · exact .refl s
  · exact .inl (removeSlot _ slot rfl)

theorem expire (s : RedundantSession) (nowMs : U64) : Leaves s (s.expire nowMs) :=
  .frame rfl rfl rfl rfl

theorem tick (s : RedundantSession) (leases : Leases) (nowMs : U64) :
    Leaves s (s.tick leases nowMs).1 := by
  unfold RedundantSession.tick
  split
  · exact .refl s
  · exact (reap s leases).trans (.expire _ nowMs)

end Leaves

/-- A refused preview leaves the pending one or ends the session; one that is handed out changes
nothing but the lease that is pending. -/
theorem previewInboundInner_leaves (C : Crypto) (s : RedundantSession) (leases : Leases)
    (slot : Byte) (binding : ObservedBinding) (packet : List Byte) (nowMs : U64)
    (requireActive : Bool) :
    let r := s.previewInboundInner C leases slot binding packet nowMs requireActive
    ((∃ e, r.2 = .error e) ∧ Leaves s r.1.1 ∧
      (r.1.2 = leases ∨ r.1.1.receivePreview = none)) ∨
    ∃ p, r.2 = .ok p ∧ r.1.1 = { s with receivePreview := some p.lease } := by
  have hr := Leaves.reap s leases
  have hreap : ∀ lease, { s.reapPreview leases with receivePreview := lease } =
      { s with receivePreview := lease } := by
    intro lease
    unfold RedundantSession.reapPreview
    split <;> rfl
  unfold RedundantSession.previewInboundInner
  split
  · exact .inl ⟨⟨_, rfl⟩, .refl s, .inl rfl⟩
  · split
    · exact .inl ⟨⟨_, rfl⟩, .refl s, .inl rfl⟩
    · dsimp only
      generalize s.reapPreview leases = t at hr hreap ⊢
      split
      · exact .inl ⟨⟨_, rfl⟩, hr, .inl rfl⟩
      · split
        · exact .inl ⟨⟨_, rfl⟩, hr, .inl rfl⟩
        · split
          · exact .inl ⟨⟨_, rfl⟩, hr, .inl rfl⟩
          · split
            · split
              · exact .inr ⟨_, rfl, hreap _⟩
              · refine .inl ⟨⟨_, rfl⟩, hr.trans ((Leaves.event t _).trans (.close _ leases)), ?_⟩
                unfold RedundantSession.close
                split
                · exact .inl rfl
                · exact .inr rfl
            · split
              · exact .inl ⟨⟨_, rfl⟩, hr, .inl rfl⟩
              · exact .inr ⟨_, rfl, hreap _⟩

/-- The preview of a pending lease: the session of its slot takes it. -/
structure Held (s : RedundantSession) (lease : ℕ) (p : InboundPreview) : Prop where
  lease : p.lease = lease
  owner : p.owner = s.receiveOwner
  generation : p.generation = s.receiveGeneration
  taken : ∃ i d, slotIndex p.slot = some i ∧ (s.paths i).session = some d ∧
    p.sessionPreview.receiveOwner = d.receiveOwner ∧
    d.replay.preview p.sessionPreview.commit.counter = .ok p.sessionPreview.commit

theorem Held.leaves {s s' : RedundantSession} {lease : ℕ} {p : InboundPreview} (h : Held s lease p)
    (hl : Leaves s s') (hp : s'.receivePreview ≠ none) :
    s'.receivePreview = s.receivePreview ∧ Held s' lease p := by
  obtain ⟨hsame, hg, ho, hd⟩ := hl.resolve_left hp
  obtain ⟨i, d, hi, hdi, howner, hpreview⟩ := h.taken
  obtain ⟨c, hc⟩ := hd i d hdi
  exact ⟨hsame, h.lease, h.owner.trans ho.symm, h.generation.trans hg.symm, i, _, hi, hc, howner,
    hpreview⟩

namespace World

variable {C : Crypto} {w : World} {call : Call}

/-- A preview or a prepared commit is out, and may still be acted on. -/
def Outstanding (w : World) : Prop :=
  w.session.state = .active ∧ ∃ lease ∈ w.session.receivePreview, w.leases.isActive lease = true

/-- As long as a lease is pending and lives, there is a preview of it that would be taken. -/
def Answers (w : World) : Prop :=
  ∀ lease, w.session.receivePreview = some lease → w.leases.isActive lease = true →
    ∃ p ∈ w.previews, Held w.session lease p

theorem mem_previews_step {p : InboundPreview} (h : p ∈ w.previews) :
    p ∈ (w.step C call).previews := List.mem_append_right _ h

theorem Answers.leaves (h : w.Answers) (hl : Leaves w.session (w.step C call).session)
    (hf : (w.step C call).session.receivePreview = none ∨
      w.leases.Fewer (w.step C call).leases) : (w.step C call).Answers := by
  intro lease hpending hactive
  have hne : (w.step C call).session.receivePreview ≠ none := by simp [hpending]
  have hfewer := hf.resolve_left hne
  obtain ⟨hsame, -⟩ := hl.resolve_left hne
  obtain ⟨p, hp, hheld⟩ := h lease (hsame.symm.trans hpending) (hfewer lease hactive)
  exact ⟨p, mem_previews_step hp, (hheld.leaves hl hne).2⟩

theorem held_of_previews {s : RedundantSession} {packet : List Byte} {p : InboundPreview}
    (h : Previews C s packet p) : Held { s with receivePreview := some p.lease } p.lease p := by
  obtain ⟨i, d, hopen⟩ := h.opened
  obtain ⟨hopens, howner, -⟩ := previewProfile3Data_opens hopen.preview
  refine ⟨rfl, h.owner, h.generation, i, d, hopen.slot, hopen.session, howner, ?_⟩
  rw [replay_preview_counter hopens.replay]
  exact hopens.replay

theorem answers_preview (h : w.Answers) {slot : Byte} {binding : ObservedBinding}
    {packet : List Byte} {nowMs : U64} {requireActive : Bool}
    (hnext : w.next C call =
      (w.session.previewInboundInner C w.leases slot binding packet nowMs requireActive).1)
    (hp : w.previewed C call = (w.session.previewInboundInner C w.leases slot binding packet nowMs
      requireActive).2.toOption) : (w.step C call).Answers := by
  have hsession : (w.step C call).session = (w.session.previewInboundInner C w.leases slot binding
      packet nowMs requireActive).1.1 := congrArg Prod.fst hnext
  have hleases : (w.step C call).leases = (w.session.previewInboundInner C w.leases slot binding
      packet nowMs requireActive).1.2 := congrArg Prod.snd hnext
  rcases previewInboundInner_leaves C w.session w.leases slot binding packet nowMs requireActive with
    ⟨-, hl, hf⟩ | ⟨p, hr, hlent⟩
  · rw [← hsession, ← hleases] at hf
    rw [← hsession] at hl
    refine h.leaves hl ?_
    rcases hf with hsame | hnone
    · rw [hsame]
      exact .inr (.refl _)
    · exact .inl hnone
  · intro lease hpending _
    rw [hsession, hlent] at hpending ⊢
    obtain rfl := Option.some.inj hpending
    refine ⟨p, ?_, held_of_previews (previewInboundInner_eq_ok hr)⟩
    refine List.mem_append_left _ ?_
    rw [hp, hr]
    exact List.mem_singleton_self p

theorem answers_step (h : w.Answers) : (w.step C call).Answers := by
  have hkept : ∀ {call : Call}, Leaves w.session (w.step C call).session →
      (w.step C call).leases = w.leases → (w.step C call).Answers := by
    intro call hl hsame
    refine h.leaves hl (.inr ?_)
    rw [hsame]
    exact .refl _
  cases call with
  | previewInbound => exact answers_preview h rfl rfl
  | previewMobilityInbound => exact answers_preview h rfl rfl
  | commitInbound p =>
    refine h.leaves (.commitInbound C _ _ p) (.inr ?_)
    have hleases : (w.step C (.commitInbound p)).leases = w.leases.deactivate p.lease := by
      change (w.session.commitInbound C w.leases p).1.2 = _
      unfold RedundantSession.commitInbound
      dsimp only
      split
      · rfl
      · split
        · rfl
        · split
          · rfl
          · split
            · rfl
            · split <;> rfl
    rw [hleases]
    exact .deactivate _ _
  | abortInbound p =>
    refine h.leaves (.abortInbound _ _ p) (.inr ?_)
    have hleases : (w.step C (.abortInbound p)).leases = w.leases.deactivate p.lease := by
      change (w.session.abortInbound w.leases p).1.2 = _
      unfold RedundantSession.abortInbound
      dsimp only
      split
      · rfl
      · split <;> rfl
    rw [hleases]
    exact .deactivate _ _
  | dropPreview p => exact h.leaves (.refl _) (.inr (.deactivate _ _))
  | prepareMobilityCommit m ms binding p nowMs =>
    refine h.leaves (.refl _) (.inr ?_)
    change w.leases.Fewer (w.session.prepareMobilityCommit C w.leases m ms binding p nowMs).1
    unfold RedundantSession.prepareMobilityCommit
    dsimp only
    split
    · exact .deactivate _ _
    · split
      · exact .deactivate _ _
      · split
        · exact .deactivate _ _
        · exact .refl _
  | dropCommit c => exact h.leaves (.refl _) (.inr (.deactivate _ _))
  | commitMobility m ms c =>
    have hleases : (w.step C (.commitMobility m ms c)).leases = w.leases.deactivate c.lease := by
      simp only [step, next, RedundantSession.commitMobility]
      split
      · rfl
      · split
        · rfl
        · split
          · rfl
          · rfl
          · split
            · rfl
            · split
              · rfl
              · split <;> rfl
    rcases commitMobility_spec C w.session w.leases m ms c with ⟨hsame, -⟩ |
      ⟨i, d, generation, hadmits, -, -, ⟨-, -, hset⟩ | ⟨-, -, hdone⟩⟩
    · refine h.leaves ?_ (.inr (hleases ▸ .deactivate _ _))
      change Leaves w.session (w.session.commitMobility C w.leases m ms c).1.1
      rw [hsame]
      exact .refl _
    · -- the window may have moved, but the lease is gone
      obtain ⟨-, -, -, hpending⟩ := acceptsLease_iff.mp hadmits.accepts
      intro lease hpending' hactive
      change (w.session.commitMobility C w.leases m ms c).1.1.receivePreview = some lease
        at hpending'
      rw [hset] at hpending'
      obtain rfl := Option.some.inj (hpending.symm.trans hpending')
      rw [hleases, Leases.isActive_deactivate] at hactive
      cases hactive
    · refine h.leaves (.inl ?_) (.inl ?_) <;>
      · change (w.session.commitMobility C w.leases m ms c).1.1.receivePreview = none
        rw [hdone]
        unfold afterCommit
        dsimp only
        split
        · rfl
        · exact pending_remember C _ _ _ _
  | issueOwner => exact hkept (.issueOwner _ _ _ _) rfl
  | activate => exact hkept (.activate C _ _ _ _ _) rfl
  | outbound plaintext =>
    refine h.leaves (.outbound C _ _ _) ?_
    change (w.session.outbound C w.leases plaintext).1.1.receivePreview = none ∨
      w.leases.Fewer (w.session.outbound C w.leases plaintext).1.2
    have hclose : (w.session.close w.leases).1.receivePreview = none ∨
        w.leases.Fewer (w.session.close w.leases).2 := by
      unfold RedundantSession.close
      split
      · exact .inr (.refl _)
      · exact .inl rfl
    unfold RedundantSession.outbound
    split
    · exact .inr (.refl _)
    · dsimp only
      split
      · exact .inr (.refl _)
      · split
        · exact .inr (.refl _)
        · exact .inr (.refl _)
        · exact hclose
        · split
          · exact hclose
          · split
            · exact .inr (.refl _)
            · exact .inr (.refl _)
  | confirmSent => exact hkept (.confirmSent _ _ _) rfl
  | removePath slot =>
    refine h.leaves (.removePath _ _ _) ?_
    change (w.session.removePath w.leases slot).1.1.receivePreview = none ∨
      w.leases.Fewer (w.session.removePath w.leases slot).1.2
    unfold RedundantSession.removePath
    split
    · exact .inr (.refl _)
    · exact .inl (Leaves.removeSlot _ slot rfl)
  | expire => exact hkept (.expire _ _) rfl
  | tick => exact hkept (.tick _ _ _) rfl
  | close =>
    refine h.leaves (.close _ _) ?_
    change (w.session.close w.leases).1.receivePreview = none ∨
      w.leases.Fewer (w.session.close w.leases).2
    unfold RedundantSession.close
    split
    · exact .inr (.refl _)
    · exact .inl rfl

theorem Reach.answers (h : Reach C w) : w.Answers := by
  refine Machine.Reach.invariant (I := Answers) ?_ (fun w call hw _ => answers_step hw) h
  rintro w ⟨⟨b, binding, seed, owner, hnew⟩, -⟩
  intro lease hpending
  have hnone : w.session.receivePreview = none := by
    unfold RedundantSession.new at hnew
    simp only [Outcome.ite_error_eq_ok] at hnew
    obtain ⟨-, -, hnew⟩ := hnew
    split at hnew
    · simp at hnew
    · simp only [Outcome.ite_error_eq_ok, Except.ok.injEq] at hnew
      rw [← hnew.2]
      rfl
  simp [hnone] at hpending

/-- The session of a run knows what its windows stand for. -/
theorem Lives.healthy (h : Lives C w) : Healthy w.session := by
  refine Machine.Reach.invariant (I := fun w => Healthy w.session) ?_
    (fun w call hs _ => (step_moves C w call).healthy hs) h
  rintro w ⟨⟨bootstrap, binding, seed, owner, hover, hnew⟩, -⟩
  exact new_healthy hover hnew

end World

/-- The same session, but for the preview that is pending. -/
def RedundantSession.Alike (s s' : RedundantSession) : Prop :=
  { s with receivePreview := none } = { s' with receivePreview := none }

/-- The slot is in use and the generation can still be counted up. -/
def RedundantSession.Removable (s : RedundantSession) (slot : Byte) : Prop :=
  s.receiveGeneration ≠ u64Max ∧ ∃ i, slotIndex slot = some i ∧ (s.paths i).state = .active

namespace World

/-- The removal is refused, or it repeats an earlier one. -/
def Spared (w : World) (slot : Byte) : Prop :=
  (∃ e, (w.session.removePath w.leases slot).2 = .error e) ∨
    (w.session.removePath w.leases slot).2 = .ok () ∧
      ∃ i, slotIndex slot = some i ∧ (w.session.paths i).state = .removed

/-- The session is as it was, and whatever is out can be committed with the same result. -/
structure Untouched (C : Crypto) (w : World) (slot : Byte) : Prop where
  session : (w.step C (.removePath slot)).session.Alike w.session
  preview : ∀ p ∈ w.previews,
    let before := w.session.commitInbound C w.leases p
    let t := w.step C (.removePath slot)
    let after := t.session.commitInbound C t.leases p
    after.2 = before.2 ∧ after.1.1.Alike before.1.1
  prepared : ∀ c ∈ w.prepared, ∀ m ms,
    let before := w.session.commitMobility C w.leases m ms c
    let t := w.step C (.removePath slot)
    let after := t.session.commitMobility C t.leases m ms c
    after.2 = before.2 ∧ after.1.1.Alike before.1.1

variable {C : Crypto} {w : World} {slot : Byte}

theorem checkedAdd_one_isSome {a : U64} (h : a ≠ u64Max) : ∃ b, checkedAdd a 1 = some b := by
  cases hb : checkedAdd a 1 with
  | some b => exact ⟨b, rfl⟩
  | none =>
    have hlt := a.isLt
    have hne : a.val ≠ u64Max.val := fun he => h (Fin.ext he)
    simp only [checkedAdd, u64Max] at hb hne
    split at hb
    · simp at hb
    · omega

/-- A live session gives up its pending preview first. -/
theorem removePath_eq (ha : w.session.state = .active) :
    w.session.removePath w.leases slot =
      ({ w.session with receivePreview := none } : RedundantSession).removeSlot
        (w.leases.revoke (w.session.reapPreview w.leases).receivePreview) slot := by
  have hreap : { w.session.reapPreview w.leases with receivePreview := none } =
      { w.session with receivePreview := none } := by
    unfold RedundantSession.reapPreview
    split <;> rfl
  unfold RedundantSession.removePath
  rw [if_neg (not_not.mpr ha)]
  exact congrArg (fun s => RedundantSession.removeSlot s _ slot) hreap

theorem ne_max_of_checkedAdd {a b : U64} (h : checkedAdd a 1 = some b) : a ≠ u64Max := by
  rintro rfl
  have hlt := b.isLt
  have hval := checkedAdd_eq_some.mp h
  simp [u64Max] at hval
  omega

/-- What a removal that does not remove leaves behind, and how it ends. -/
theorem removeSlot_kept {s : RedundantSession} (leases : Leases) (hs : s.Sound)
    (hr : ¬ s.Removable slot) : (s.removeSlot leases slot).1 = (s, leases) ∧
    ((∃ e, (s.removeSlot leases slot).2 = .error e) ∨ (s.removeSlot leases slot).2 = .ok () ∧
      ∃ i, slotIndex slot = some i ∧ (s.paths i).state = .removed) := by
  unfold RedundantSession.removeSlot
  split
  · exact ⟨rfl, .inl ⟨_, rfl⟩⟩
  · exact ⟨rfl, .inl ⟨_, rfl⟩⟩
  · rename_i generation i hgen hi
    split
    · rename_i hremoved
      refine ⟨rfl, .inr ⟨rfl, i, hi, hremoved.resolve_right ?_⟩⟩
      -- a path passes through this state inside one call only
      intro hdegraded
      have hsettled := (hs.paths i).settled
      simp [hdegraded] at hsettled
    · split
      · exact ⟨rfl, .inl ⟨_, rfl⟩⟩
      · rename_i hused
        exact absurd ⟨ne_max_of_checkedAdd hgen, i, hi, not_not.mp hused⟩ hr

theorem removeSlot_removes {s : RedundantSession} (leases : Leases) (hr : s.Removable slot) :
    (s.removeSlot leases slot).2 = .ok () := by
  obtain ⟨hgen, i, hi, hused⟩ := hr
  obtain ⟨generation, hgeneration⟩ := checkedAdd_one_isSome hgen
  simp only [RedundantSession.removeSlot, hgeneration, hi, hused, reduceCtorEq, or_self, if_false,
    ne_eq, not_true_eq_false]
  split <;> rfl

theorem sound_unlend {s : RedundantSession} (h : s.Sound) :
    RedundantSession.Sound { s with receivePreview := none } :=
  ⟨h.paths, h.active, h.released, h.cache⟩

/-- What is committed when nothing is pending. -/
theorem commitInbound_refused {s : RedundantSession} {leases : Leases} {p : InboundPreview}
    (ha : s.state = .active) (hr : s.acceptsPreview leases p = false) :
    s.commitInbound C leases p = ((s, leases.deactivate p.lease), .error .replay) := by
  simp [RedundantSession.commitInbound, ha, hr]

theorem commitMobility_refused {s : RedundantSession} {leases : Leases} {c : MobilityInboundCommit}
    (ha : s.state = .active) (hr : s.acceptsReplayLease leases c = false) (m : Manager)
    (ms : State) :
    s.commitMobility C leases m ms c = ((s, leases.deactivate c.lease), ms, .error .replay) := by
  simp [RedundantSession.commitMobility, ha, hr]

theorem accepts_of_none {s : RedundantSession} (leases : Leases) (owner lease : ℕ)
    (generation : U64) (h : s.receivePreview = none) :
    s.acceptsLease leases owner generation lease = false := by
  simp [RedundantSession.acceptsLease, h]

theorem accepts_of_quiet (ha : w.session.state = .active) (ho : ¬ w.Outstanding) (owner lease : ℕ)
    (generation : U64) : w.session.acceptsLease w.leases owner generation lease = false := by
  rw [Bool.eq_false_iff, ne_eq, acceptsLease_iff]
  rintro ⟨-, -, hactive, hpending⟩
  exact ho ⟨ha, lease, hpending, hactive⟩

theorem revoke_of_quiet (ha : w.session.state = .active) (ho : ¬ w.Outstanding) :
    w.leases.revoke (w.session.reapPreview w.leases).receivePreview = w.leases := by
  have hnone : (w.session.reapPreview w.leases).receivePreview = none := by
    unfold RedundantSession.reapPreview
    split
    · rfl
    · rename_i hlive
      cases hp : w.session.receivePreview with
      | none => rfl
      | some lease =>
        refine absurd ⟨ha, lease, hp, ?_⟩ ho
        simpa [hp] using hlive
  rw [hnone]
  rfl

/-- With nothing out, a removal that does not remove does nothing. -/
theorem untouched_of_quiet (hs : w.session.Sound) (hr : ¬ w.session.Removable slot)
    (ho : ¬ w.Outstanding) : w.Untouched C slot := by
  by_cases ha : w.session.state = .active
  · have hkept : (w.next C (.removePath slot)) =
        ({ w.session with receivePreview := none }, w.leases) := by
      change (w.session.removePath w.leases slot).1 = _
      rw [removePath_eq ha, revoke_of_quiet ha ho]
      exact (removeSlot_kept w.leases (sound_unlend hs) hr).1
    have hsession : (w.step C (.removePath slot)).session =
        { w.session with receivePreview := none } := congrArg Prod.fst hkept
    have hleases : (w.step C (.removePath slot)).leases = w.leases := congrArg Prod.snd hkept
    refine ⟨?_, ?_, ?_⟩
    · rw [hsession]
      rfl
    · intro p _
      dsimp only
      rw [hsession, hleases, commitInbound_refused ha (accepts_of_quiet ha ho _ _ _),
        commitInbound_refused (s := { w.session with receivePreview := none }) ha
          (accepts_of_none _ _ _ _ rfl)]
      exact ⟨rfl, rfl⟩
    · intro c _ m ms
      dsimp only
      rw [hsession, hleases, commitMobility_refused ha (accepts_of_quiet ha ho _ _ _),
        commitMobility_refused (s := { w.session with receivePreview := none }) ha
          (accepts_of_none _ _ _ _ rfl)]
      exact ⟨rfl, rfl⟩
  · have hsame : w.next C (.removePath slot) = (w.session, w.leases) := by
      change (w.session.removePath w.leases slot).1 = _
      unfold RedundantSession.removePath
      rw [if_pos ha]
    have hsession : (w.step C (.removePath slot)).session = w.session := congrArg Prod.fst hsame
    have hleases : (w.step C (.removePath slot)).leases = w.leases := congrArg Prod.snd hsame
    refine ⟨?_, ?_, ?_⟩
    · rw [hsession]
      rfl
    · intro p _
      dsimp only
      rw [hsession, hleases]
      exact ⟨rfl, rfl⟩
    · intro c _ m ms
      dsimp only
      rw [hsession, hleases]
      exact ⟨rfl, rfl⟩

/-- A preview that is held is not refused as a replay. -/
theorem commitInbound_held {lease : ℕ} {p : InboundPreview} (hh : Healthy w.session)
    (ha : w.session.state = .active) (hp : w.session.receivePreview = some lease)
    (hl : w.leases.isActive lease = true) (h : Held w.session lease p) :
    (w.session.commitInbound C w.leases p).2 ≠ .error .replay := by
  obtain ⟨i, d, hi, hd, howner, hpreview⟩ := h.taken
  have haccept : w.session.acceptsPreview w.leases p = true :=
    acceptsLease_iff.mpr ⟨h.owner, h.generation, h.lease ▸ hl, h.lease ▸ hp⟩
  obtain ⟨cs, hcs⟩ := hh.sane i d hd
  have hcommit : (d.commitProfile3Data p.sessionPreview).2 =
      .ok (p.sessionPreview.deliveryId, p.sessionPreview.plaintext) := by
    obtain ⟨w', hw', -⟩ := ReplayWindow.commit_of_preview hcs hpreview
    simp [DirectionalSession.commitProfile3Data, howner, hw']
  unfold RedundantSession.commitInbound
  dsimp only
  rw [if_neg (not_not.mpr ha), if_neg (not_not.mpr haccept)]
  split
  · simp
  · rename_i generation hgen
    have hok : (({ w.session with receivePreview := none } : RedundantSession).commit p.slot
        p.sessionPreview).2 = .ok (p.sessionPreview.deliveryId, p.sessionPreview.plaintext) := by
      simp [RedundantSession.commit, hi, hd, hcommit, Except.mapError]
    generalize RedundantSession.commit _ p.slot p.sessionPreview = r at hok ⊢
    obtain ⟨t, res⟩ := r
    obtain rfl : res = _ := hok
    dsimp only
    split <;> simp

/-- A removal that does not remove still takes the pending preview away. -/
theorem touched_of_outstanding (hs : w.session.Sound) (hh : Healthy w.session) (hw : w.Answers)
    (hr : ¬ w.session.Removable slot) (ho : w.Outstanding) : ¬ w.Untouched C slot := by
  intro hu
  obtain ⟨ha, lease, hpending, hlive⟩ := ho
  obtain ⟨p, hp, hheld⟩ := hw lease hpending hlive
  have hkept : (w.step C (.removePath slot)).session = { w.session with receivePreview := none } := by
    change (w.session.removePath w.leases slot).1.1 = _
    rw [removePath_eq ha]
    exact congrArg Prod.fst (removeSlot_kept _ (sound_unlend hs) hr).1
  have hafter := (hu.preview p hp).1
  rw [hkept, commitInbound_refused (s := { w.session with receivePreview := none }) ha
    (accepts_of_none _ _ _ _ rfl)] at hafter
  exact commitInbound_held hh ha hpending hlive hheld hafter.symm

/-- A removal that is refused or repeated changes nothing exactly when no preview and no prepared
commit is out. -/
theorem removal_untouched_iff (h : Lives C w) (slot : Byte) :
    (w.Spared slot → w.Untouched C slot) ↔
      ¬ w.Outstanding ∨ w.session.Removable slot := by
  have hs := h.reach.sound
  by_cases hr : w.session.Removable slot
  · refine iff_of_true ?_ (.inr hr)
    intro hspared
    by_cases ha : w.session.state = .active
    · exfalso
      unfold Spared at hspared
      rw [removePath_eq ha,
        removeSlot_removes (s := { w.session with receivePreview := none }) _ hr] at hspared
      rcases hspared with ⟨e, he⟩ | ⟨-, i, hi, hremoved⟩
      · simp at he
      · obtain ⟨-, j, hj, hused⟩ := hr
        obtain rfl := Option.some.inj (hi.symm.trans hj)
        simp [hused] at hremoved
    · -- a released session has no slot in use
      obtain ⟨-, i, -, hused⟩ := hr
      exact absurd (hs.active.mpr ⟨i, hused⟩) ha
  · have hspared : w.Spared slot := by
      unfold Spared
      by_cases ha : w.session.state = .active
      · rw [removePath_eq ha]
        exact (removeSlot_kept _ (sound_unlend hs) hr).2
      · exact .inl ⟨.released, by simp [RedundantSession.removePath, ha]⟩
    refine ⟨?_, ?_⟩
    · intro hu
      exact .inl fun ho => touched_of_outstanding hs h.healthy h.reach.answers hr ho (hu hspared)
    · rintro (ho | hr')
      · exact fun _ => untouched_of_quiet hs hr ho
      · exact absurd hr' hr

end World

/-- A packet of the client is previewed and its preview held. -/
def Scenario.previewing (s : RedundantSession) : World :=
  (World.start s).step .sample (.previewInbound 0 (Scenario.bindingOf 1) (Scenario.packet 2 2 [7]) 0)

theorem Scenario.previewing_pending : ∃ w, World.Lives .sample w ∧ w.Outstanding ∧
    ¬ w.session.Removable 1 := by
  have hfresh : Scenario.fresh.toOption.any (fun s =>
      let w := Scenario.previewing s
      w.session.state = .active ∧ w.session.receivePreview.any w.leases.isActive = true ∧
        (w.session.paths 1).state = .absent) = true := by decide +kernel
  simp only [Option.any_eq_true, decide_eq_true_eq] at hfresh
  obtain ⟨s, hs, ha, hpending, habsent⟩ := hfresh
  refine ⟨Scenario.previewing s, .next (.start ⟨⟨Scenario.bootstrap, Scenario.bindingOf 1, 1, 0,
    Scenario.bootstrap_handedOver, Outcome.toOption_eq_some.mp hs⟩, rfl, rfl, rfl⟩) trivial,
    ⟨ha, hpending⟩, ?_⟩
  rintro ⟨-, i, hi, hused⟩
  obtain rfl : 1 = i := Option.some.inj hi
  simp [habsent] at hused

/-- Slot one was never in use, so its removal is refused, and the pending preview is lost. -/
theorem refused_removal_revokes : ¬ ∀ (C : Crypto) (w : World) (slot : Byte),
    World.Lives C w → w.Spared slot → w.Untouched C slot := by
  intro h
  obtain ⟨w, hw, ho, hr⟩ := Scenario.previewing_pending
  have hs := hw.reach.sound
  refine World.touched_of_outstanding hs hw.healthy hw.reach.answers hr ho (h _ w 1 hw ?_)
  unfold World.Spared
  rw [World.removePath_eq ho.1]
  exact (World.removeSlot_kept _ (World.sound_unlend hs) hr).2

theorem removal_untouched_iff_pending :
    ∃ w, World.Lives .sample w ∧ ¬ (w.Spared 1 → w.Untouched .sample 1) := by
  obtain ⟨w, hw, ho, hr⟩ := Scenario.previewing_pending
  refine ⟨w, hw, ?_⟩
  rw [World.removal_untouched_iff hw 1, not_or, not_not]
  exact ⟨ho, hr⟩

end R8.Redundant
