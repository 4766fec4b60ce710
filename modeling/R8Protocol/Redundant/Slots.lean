import R8Protocol.Redundant.Change
import R8Protocol.Redundant.Delivery

/-! What the two slots of a session hold in every state its calls can reach. -/
namespace R8.Redundant

open FixedWidth Wire Session Mobility

/-- The order in which the source declares the states, and in which a slot takes them. -/
def PathState.rank : PathState → ℕ
  | .absent => 0
  | .candidate => 1
  | .validated => 2
  | .active => 3
  | .degraded => 4
  | .removed => 5
  | .released => 6

theorem PathState.rank_le (state : PathState) : state.rank ≤ PathState.rank .released := by
  cases state <;> decide

/-- A slot in use holds everything it needs, any other slot nothing. -/
structure Path.Sound (p : Path) : Prop where
  settled : p.state ∈ [PathState.absent, .active, .removed, .released]
  used : p.state = .active →
    p.binding.isSome ∧ p.localLoc.isSome ∧ p.peerLoc.isSome ∧ p.session.isSome
  unused : p.state ≠ .active → p.binding = none ∧ p.localLoc = none ∧ p.peerLoc = none ∧
    p.session = none ∧ p.queue = [] ∧ p.queuedBytes = 0
  bytes : p.queuedBytes = (p.queue.map fun o => o.packet.length).sum
  bytes_le : p.queuedBytes ≤ QUEUE_BYTES
  packets_le : p.queue.length ≤ QUEUE_PACKETS

/-- The representation invariant. -/
structure RedundantSession.Sound (s : RedundantSession) : Prop where
  paths : ∀ i, (s.paths i).Sound
  active : s.state = .active ↔ ∃ i, (s.paths i).state = .active
  released : s.state = .released → (∀ i, (s.paths i).state = .released) ∧ s.dedup = []
  cache : s.dedup.length ≤ DEDUP_IDS

/-- What every move does to a session, seen from its slots. -/
structure Lawful (s s' : RedundantSession) : Prop where
  sound : s.Sound → s'.Sound
  forward : ∀ i, (s.paths i).state.rank ≤ (s'.paths i).state.rank

section

variable {C : Crypto} {s s' s'' : RedundantSession} {leases : Leases} {i : Fin 2} {p : Path}

theorem Path.Sound.clear (p : Path) {state : PathState} (hs : state ≠ .active)
    (hm : state ∈ [PathState.absent, .active, .removed, .released]) :
    Path.Sound { p.clear with state } :=
  ⟨hm, fun h => absurd h hs, fun _ => ⟨rfl, rfl, rfl, rfl, rfl, rfl⟩, rfl, Nat.zero_le _,
    Nat.zero_le _⟩

theorem Path.Sound.active_of_session (hp : p.Sound) {session : DirectionalSession}
    (h : p.session = some session) : p.state = .active := by
  by_contra hne
  simp [(hp.unused hne).2.2.2.1] at h

/-- Another session in the slot, as long as there is one. -/
theorem Path.Sound.withSession (hp : p.Sound) {session : DirectionalSession}
    (h : p.session = some session) (session' : DirectionalSession) :
    Path.Sound { p with session := some session' } := by
  have ha := hp.active_of_session h
  obtain ⟨hb, hl, hq, -⟩ := hp.used ha
  exact ⟨hp.settled, fun _ => ⟨hb, hl, hq, rfl⟩, fun h => absurd ha h, hp.bytes, hp.bytes_le,
    hp.packets_le⟩

/-- A packet that fits is queued. -/
theorem Path.Sound.enqueue (hp : p.Sound) (ha : p.state = .active) (out : OutboundPacket)
    (h : p.canEnqueue out.packet.length = true) :
    Path.Sound { p with
      queuedBytes := p.queuedBytes + out.packet.length
      queue := p.queue ++ [out] } := by
  simp only [Path.canEnqueue, decide_eq_true_eq] at h
  refine ⟨hp.settled, hp.used, fun hne => absurd ha hne, ?_, h.2, ?_⟩
  · simp [hp.bytes]
  · simpa using h.1

theorem Path.Sound.dequeue (hp : p.Sound) {front : OutboundPacket} {rest : List OutboundPacket}
    (h : p.queue = front :: rest) :
    Path.Sound { p with
      queue := rest
      queuedBytes := p.queuedBytes - front.packet.length } := by
  have hb := hp.bytes
  have hl := hp.packets_le
  rw [h] at hb hl
  simp only [List.map_cons, List.sum_cons] at hb
  refine ⟨hp.settled, hp.used, ?_, ?_, ?_, ?_⟩
  · intro hne
    simp [(hp.unused hne).2.2.2.2.1] at h
  · dsimp only
    omega
  · exact (Nat.sub_le _ _).trans hp.bytes_le
  · rw [List.length_cons] at hl
    dsimp only
    omega

namespace Lawful

theorem refl (s : RedundantSession) : Lawful s s := ⟨id, fun _ => le_rfl⟩

theorem trans (h : Lawful s s') (h' : Lawful s' s'') : Lawful s s'' :=
  ⟨h'.sound ∘ h.sound, fun i => (h.forward i).trans (h'.forward i)⟩

/-- Moves that keep the slots and do not add to the cache. -/
theorem frame (hp : s'.paths = s.paths) (hs : s'.state = s.state)
    (hd : s'.dedup.Sublist s.dedup) : Lawful s s' := by
  refine ⟨?_, fun i => by rw [hp]⟩
  intro h
  refine ⟨by simpa [hp] using h.paths, by rw [hs, hp]; exact h.active, ?_,
    hd.length_le.trans h.cache⟩
  intro hr
  obtain ⟨hpaths, hempty⟩ := h.released (hs ▸ hr)
  refine ⟨by simpa [hp] using hpaths, ?_⟩
  rw [hempty] at hd
  exact List.sublist_nil.mp hd

/-- Moves that change what one slot holds but not its state. -/
theorem setPath (i : Fin 2) (hs : p.state = (s.paths i).state)
    (hp : (s.paths i).Sound → p.Sound) : Lawful s (s.setPath i p) := by
  have hstate : ∀ j, ((s.setPath i p).paths j).state = (s.paths j).state := by
    intro j
    by_cases hj : j = i
    · subst hj
      simp [RedundantSession.setPath, hs]
    · simp [RedundantSession.setPath, hj]
  refine ⟨?_, fun j => by rw [hstate]⟩
  intro h
  refine ⟨?_, ?_, ?_, h.cache⟩
  case refine_2 =>
    simp only [hstate]
    exact h.active
  case refine_3 =>
    simp only [hstate]
    exact h.released
  intro j
  by_cases hj : j = i
  · subst hj
    simpa [RedundantSession.setPath] using hp (h.paths j)
  · simpa [RedundantSession.setPath, hj] using h.paths j

/-- Slot one comes into use once, with everything it needs. -/
theorem use (ha : s.state = .active) (h1 : (s.paths 1).state = .absent)
    (admission : Profile3Admission) (budget : ℕ) (session : DirectionalSession)
    (hp : s'.paths = Function.update s.paths 1 { s.paths 1 with
      state := .active
      binding := some admission.binding
      localLoc := some admission.localLoc
      peerLoc := some admission.peerLoc
      budget := budget
      session := some session })
    (hs : s'.state = s.state) (hd : s'.dedup = s.dedup) : Lawful s s' := by
  have h0 : s'.paths 0 = s.paths 0 := by simp [hp]
  have hused : (s'.paths 1).state = .active := by simp [hp]
  refine ⟨?_, ?_⟩
  · intro h
    refine ⟨?_, by simp [hs, ha, Fin.exists_fin_two, hused], by simp [hs, ha],
      by rw [hd]; exact h.cache⟩
    intro i
    fin_cases i
    · exact h0 ▸ h.paths 0
    · have h1s := h.paths 1
      rw [hp]
      exact ⟨by simp, fun _ => ⟨rfl, rfl, rfl, rfl⟩, fun hne => absurd rfl hne, h1s.bytes,
        h1s.bytes_le, h1s.packets_le⟩
  · intro i
    fin_cases i
    · exact (congrArg (fun p : Path => p.state.rank) h0).ge
    · simp [h1, PathState.rank]

/-- A slot in use is emptied for good while the other one stays. -/
theorem retire (i : Fin 2) (ha : s.state = .active) (hi : (s.paths i).state = .active)
    (hj : ∃ j, j ≠ i ∧ (s.paths j).state = .active) :
    Lawful s (s.setPath i { (s.paths i).clear with state := .removed }) := by
  obtain ⟨j, hne, hj⟩ := hj
  refine ⟨?_, ?_⟩
  · intro h
    refine ⟨?_, ?_, fun hr => absurd (ha.symm.trans hr) (by simp), h.cache⟩
    · intro k
      by_cases hk : k = i
      · subst hk
        simpa [RedundantSession.setPath] using
          Path.Sound.clear (s.paths k) (by simp) (by simp)
      · simpa [RedundantSession.setPath, hk] using h.paths k
    · exact ⟨fun _ => ⟨j, by simpa [RedundantSession.setPath, hne] using hj⟩, fun _ => ha⟩
  · intro k
    by_cases hk : k = i
    · subst hk
      simp [RedundantSession.setPath, hi, PathState.rank]
    · simp [RedundantSession.setPath, hk]

/-- One entry makes room for the new one when the cache is full. -/
theorem length_evict (h : s.dedup.length ≤ DEDUP_IDS) : s.evict.dedup.length < DEDUP_IDS := by
  unfold RedundantSession.evict
  split
  · rename_i hfull
    refine lt_of_lt_of_le (List.length_filter_lt_length_iff_exists.mpr ?_) h
    obtain ⟨k, hk⟩ : ∃ k, (s.dedup.map fun d => toLex (d.2.expiryMs, d.1)).min? = some k := by
      rw [← Option.isSome_iff_exists, List.isSome_min?_iff]
      intro hnil
      rw [List.map_eq_nil_iff.mp hnil, DEDUP_IDS, List.length_nil] at hfull
      omega
    obtain ⟨d, hd, rfl⟩ := List.mem_map.mp (List.min?_mem hk)
    refine ⟨d, hd, ?_⟩
    simp [RedundantSession.evicted, hk]
  · rename_i hfull
    exact not_le.mp hfull

theorem remember (ha : s.state = .active) (id : U64) (bytes : List Byte) (nowMs : U64) :
    Lawful s (s.remember C id bytes nowMs) := by
  have hframe : s.evict.paths = s.paths ∧ s.evict.state = s.state := by
    unfold RedundantSession.evict
    split <;> exact ⟨rfl, rfl⟩
  refine ⟨?_, ?_⟩
  · intro h
    refine ⟨?_, ?_, ?_, ?_⟩
    · intro i
      simpa [RedundantSession.remember, hframe.1] using h.paths i
    · simpa [RedundantSession.remember, hframe.1, hframe.2] using h.active
    · simp [RedundantSession.remember, hframe.2, ha]
    · have hlen := length_evict h.cache
      have hfilter := List.length_filter_le (fun d : U64 × Dedup => decide (d.1 ≠ id)) s.evict.dedup
      simp only [RedundantSession.remember, List.length_append, List.length_singleton]
      omega
  · intro i
    simp [RedundantSession.remember, hframe.1]

theorem close (h : Closed s s') : Lawful s s' := by
  refine ⟨?_, ?_⟩
  · intro _
    refine ⟨?_, by simp [h.state, h.paths], fun _ => ⟨by simp [h.paths], h.dedup⟩, by simp [h.dedup]⟩
    intro i
    rw [h.paths]
    exact .clear _ (by simp) (by simp)
  · intro i
    rw [h.paths]
    exact PathState.rank_le _

theorem move {g : Option ℕ} {calls : List SealCall} (h : Move C g s calls s') : Lawful s s' := by
  cases h with
  | frame h => exact .frame h.paths h.state h.dedup
  | issue => exact .frame rfl rfl (.refl _)
  | reread i d w hd hs => exact .setPath i rfl fun hp => hp.withSession hd _
  | count i d c hd => exact .setPath i rfl fun hp => hp.withSession hd _
  | send i d d' call out plaintext hd hs hroom =>
    refine .setPath i rfl ?_
    intro hp
    exact (hp.withSession hd d').enqueue (hp.active_of_session hd) out hroom
  | pop i front rest hq => exact .setPath i rfl fun hp => hp.dequeue hq
  | spend b => exact .frame rfl rfl (.refl _)
  | use b admission budget owner d hb ha h1 => exact .use ha h1 admission budget d rfl rfl rfl
  | retire i ha hi hj => exact .retire i ha hi hj
  | remember id bytes nowMs ha => exact .remember ha id bytes nowMs
  | close h => exact .close h

end Lawful

theorem Moves.lawful {g : Option ℕ} {calls : List SealCall} (h : Moves C g s calls s') : Lawful s s' :=
  h.preserves .refl .trans .move

end

namespace World

variable {C : Crypto} {w w' : World} {call : Call}

/-- The calls of `seal` that a call makes. -/
def seals (C : Crypto) (w : World) : Call → List SealCall
  | .outbound plaintext => (w.session.outbound C w.leases plaintext).2.1
  | _ => []

/-- The capability a call may hand out. -/
def capability? : Call → Option ℕ
  | .issueOwner _ _ capability => some capability
  | _ => none

theorem step_moves (C : Crypto) (w : World) (call : Call) :
    Moves C (capability? call) w.session (w.seals C call) (w.step C call).session := by
  cases call with
  | previewInbound => exact .preview _ _ _ _ _ _ _
  | previewMobilityInbound => exact .preview _ _ _ _ _ _ _
  | commitInbound p => exact .commitInbound _ _ p
  | abortInbound p => exact .abortInbound _ _ p
  | dropPreview => exact .refl _
  | prepareMobilityCommit => exact .refl _
  | dropCommit => exact .refl _
  | commitMobility m ms c => exact .commitMobility _ _ m ms c
  | issueOwner => exact .issueOwner _ _ _ _
  | activate => exact .activate _ _ _ _ _
  | outbound => exact .outbound _ _ _
  | confirmSent => exact .confirmSent _ _ _
  | removePath => exact .removePath _ _ _
  | expire => exact .expire _ _
  | tick => exact .tick _ _ _
  | close => exact .close _ _

theorem preview_released {s : RedundantSession} (hr : s.state = .released) (leases : Leases)
    (slot : Byte) (binding : ObservedBinding) (packet : List Byte) (nowMs : U64)
    (requireActive : Bool) :
    (s.previewInboundInner C leases slot binding packet nowMs requireActive).1.1 = s := by
  unfold RedundantSession.previewInboundInner
  split
  · rfl
  · simp [hr]

theorem activate_released {s : RedundantSession} (hr : s.state = .released) (leases : Leases)
    (admission : Profile3Admission) (budget owner : ℕ) :
    (s.activate C leases admission budget owner).1 = s := by
  unfold RedundantSession.activate
  split
  · rfl
  · simp [hr]

/-- Every call returns before it changes anything once the session is gone. -/
theorem step_released (hs : w.session.Sound) (hr : w.session.state = .released) :
    (w.step C call).session = w.session := by
  obtain ⟨hpaths, hempty⟩ := hs.released hr
  cases call with
  | previewInbound => exact preview_released hr _ _ _ _ _ _
  | previewMobilityInbound => exact preview_released hr _ _ _ _ _ _
  | commitInbound => simp [step, next, RedundantSession.commitInbound, hr]
  | abortInbound => simp [step, next, RedundantSession.abortInbound, hr]
  | dropPreview => rfl
  | prepareMobilityCommit => rfl
  | dropCommit => rfl
  | commitMobility => simp [step, next, RedundantSession.commitMobility, hr]
  | issueOwner => simp [step, next, RedundantSession.issueProfile3AdmissionOwner, hr]
  | activate => exact activate_released hr _ _ _ _
  | outbound => simp [step, next, RedundantSession.outbound, hr]
  | confirmSent slot packet =>
    have hqueue : ∀ i, (w.session.paths i).queue = [] := fun i =>
      ((hs.paths i).unused (by simp [hpaths i])).2.2.2.2.1
    simp only [step, next, RedundantSession.confirmSent]
    split
    · rfl
    · rw [hqueue]
  | removePath => simp [step, next, RedundantSession.removePath, hr]
  | expire nowMs =>
    have hfilter : w.session.dedup.filter (fun d => nowMs < d.2.expiryMs) = w.session.dedup := by
      simp [hempty]
    simp only [step, next, RedundantSession.expire, hfilter]
  | tick => simp [step, next, RedundantSession.tick, hr]
  | close => simp [step, next, RedundantSession.close, hr]

theorem sound_new {bootstrap : Profile3Bootstrap} {binding : ObservedBinding} {seed : U64}
    {owner : ℕ} {s : RedundantSession}
    (h : RedundantSession.new bootstrap binding seed owner = .ok s) : s.Sound := by
  obtain ⟨d, -, -, hs⟩ := new_eq_ok h
  refine ⟨?_, ?_, by simp [hs.state], by simp [hs.dedup]⟩
  · intro i
    fin_cases i
    · change (s.paths 0).Sound
      rw [hs.path0]
      exact ⟨by simp, fun _ => ⟨rfl, rfl, rfl, rfl⟩, fun hne => absurd rfl hne, rfl, Nat.zero_le _,
        Nat.zero_le _⟩
    · change (s.paths 1).Sound
      rw [hs.path1]
      exact ⟨by simp, fun h => absurd h (by simp), fun _ => ⟨rfl, rfl, rfl, rfl, rfl, rfl⟩, rfl,
        Nat.zero_le _, Nat.zero_le _⟩
  · simp [hs.state, hs.path0, Fin.exists_fin_two]

theorem Reach.sound (h : Reach C w) : w.session.Sound := by
  refine Machine.Reach.invariant (I := fun w => w.session.Sound) ?_
    (fun w call hs _ => (step_moves C w call).lawful.sound hs) h
  rintro w ⟨⟨bootstrap, binding, seed, owner, hnew⟩, -⟩
  exact sound_new hnew

theorem run_lawful (h : Machine.Run (step C) Owned w w') : Lawful w.session w'.session := by
  induction h with
  | start h => exact h ▸ .refl _
  | next _ _ ih => exact ih.trans (step_moves C _ _).lawful

theorem run_released (hs : w.session.Sound) (hr : w.session.state = .released)
    (h : Machine.Run (step C) Owned w w') : w'.session = w.session := by
  induction h with
  | start h => rw [h]
  | next _ _ ih => rw [step_released (ih.symm ▸ hs) (ih.symm ▸ hr), ih]

/-- In every reachable state the slots are sound, and whatever is called from there a slot only
moves forward and a released session stays as it is. -/
theorem slots_sound (h : Reach C w) :
    ((w.session.state = .active ↔ ∃ i, (w.session.paths i).state = .active) ∧
      (∀ i, (w.session.paths i).Sound) ∧ w.session.dedup.length ≤ DEDUP_IDS) ∧
    ∀ w', Machine.Run (step C) Owned w w' →
      (∀ i, (w.session.paths i).state.rank ≤ (w'.session.paths i).state.rank) ∧
      (w.session.state = .released → w'.session = w.session) := by
  have hs := h.sound
  refine ⟨⟨hs.active, hs.paths, hs.cache⟩, ?_⟩
  intro w' hrun
  exact ⟨(run_lawful hrun).forward, fun hr => run_released hs hr hrun⟩

end World

namespace Sample

def queued : World := Machine.exec (World.step .sample) start [.outbound [1, 2, 3]]

def removed : World := Machine.exec (World.step .sample) queued [.removePath 0, .outbound [4]]

end Sample

theorem slots_sound_removed :
    ((Sample.queued.session.paths 0).queuedBytes = 87 ∧ (Sample.queued.session.paths 0).Sound) ∧
    (Sample.removed.session.paths 0).state = .released ∧
    PathState.rank .active ≤ PathState.rank .released := by
  have hr : World.Reach .sample Sample.queued :=
    Machine.Reach.exec (.start Sample.starts) _ (by decide +kernel)
  have hrun : Machine.Run (World.step .sample) World.Owned Sample.queued Sample.removed :=
    (Machine.Run.refl Sample.queued).exec [Call.removePath 0, Call.outbound [4]] (by decide +kernel)
  have hq : (Sample.queued.session.paths 0).queuedBytes = 87 ∧
      (Sample.queued.session.paths 0).state = .active ∧
      (Sample.removed.session.paths 0).state = .released := by decide +kernel
  obtain ⟨⟨-, hsound, -⟩, hforward⟩ := World.slots_sound hr
  have hrank := (hforward _ hrun).1 0
  rw [hq.2.1, hq.2.2] at hrank
  exact ⟨⟨hq.1, hsound 0⟩, hq.2.2, hrank⟩

end R8.Redundant
