import R8Protocol.Redundant.Fleet
import R8Protocol.Session.Nonces

/-! A client and a server with everything they hand over: no nonce is used twice. -/
namespace R8.Redundant

open FixedWidth Wire Session Mobility Ledger

variable {C : Crypto}

def Path.held (p : Path) : List (Bytes 32 × ℕ) := p.session.toList.flatMap DirectionalSession.held

def RedundantSession.held (C : Crypto) (s : RedundantSession) : List (Bytes 32 × ℕ) :=
  (s.paths 0).held ++ ((s.paths 1).held ++ s.bootstrap.toList.flatMap (·.held C))

section

variable {g : Option ℕ} {s s' : RedundantSession} {calls : List SealCall}

/-- A slot spends what it holds. -/
theorem setPath_spends (i : Fin 2) {p : Path} {uses : List (Bytes 32 × ℕ)}
    (h : Spends counterLimit (s.paths i).held p.held uses) :
    Spends counterLimit (s.held C) ((s.setPath i p).held C) uses := by
  fin_cases i
  · exact h.frame _
  · exact (h.frame _).frame_left _

/-- A session in a slot goes on as another one. -/
theorem setSession_spends (i : Fin 2) {p : Path} {d d' : DirectionalSession}
    {uses : List (Bytes 32 × ℕ)} (hd : (s.paths i).session = some d) (hd' : p.session = some d')
    (h : Spends counterLimit d.held d'.held uses) :
    Spends counterLimit (s.held C) ((s.setPath i p).held C) uses := by
  apply setPath_spends
  simpa [Path.held, hd, hd'] using h

/-- The schedule goes when slot one is derived, and the key of slot one is in its slot. -/
theorem use_spends {b : Profile3Bootstrap} {d : DirectionalSession} {p : Path} {owner : ℕ}
    (hb : s.bootstrap = some b) (hd : (b.takeSlot1AfterAdmission C owner).2 = .ok d)
    (hp : p.session = some d) :
    Spends counterLimit (s.held C)
      (({ s with bootstrap := some { b with schedule := none } }.setPath 1 p).held C) [] := by
  have htake := Profile3Bootstrap.takeSlot1AfterAdmission_spends (C := C) b owner
  rw [hd, Moves.takeSlot1AfterAdmission_fst] at htake
  have hold : s.held C = (s.paths 0).held ++ ((s.paths 1).held ++ b.held C) := by
    simp [RedundantSession.held, hb]
  have hnew : ({ s with bootstrap := some { b with schedule := none } }.setPath 1 p).held C =
      (s.paths 0).held ++ (d.held ++ Profile3Bootstrap.held C { b with schedule := none }) := by
    simp [RedundantSession.held, RedundantSession.setPath, Path.held, hp]
  rw [hold, hnew]
  refine Spends.frame_left ?_ _
  exact (Spends.drop (List.sublist_append_right _ _).subperm).trans
    (by simpa [Except.toOption] using htake)

theorem Move.spends (h : Move C g s calls s') :
    Spends counterLimit (s.held C) (s'.held C) (uses calls) := by
  cases h with
  | frame h =>
    rw [RedundantSession.held, RedundantSession.held, h.paths, h.bootstrap]
    exact .refl _
  | issue => exact .refl _
  | reread i d w hd => exact setSession_spends i hd rfl (.refl _)
  | count i d c hd hc => exact setSession_spends i hd rfl (.skip hc)
  | send i d d' call out plaintext hd hs => exact setSession_spends i hd rfl hs.spends
  | pop i front rest hq => exact setPath_spends i (.refl _)
  | spend b hb =>
    refine Spends.frame_left (Spends.frame_left ?_ _) _
    rw [hb]
    simp only [Option.toList_some, List.flatMap_singleton, Profile3Bootstrap.held, slotOne_none]
    exact (Spends.nil _).frame_left _
  | use b admission budget owner d hb ha h1 hbudget hd => exact use_spends hb hd rfl
  | retire i => exact setPath_spends i (.nil _)
  | remember id bytes nowMs =>
    obtain ⟨dedup, hframe⟩ := remember_frame C s id bytes nowMs
    rw [hframe]
    exact .refl _
  | close h =>
    have hnone : s'.held C = [] := by
      simp [RedundantSession.held, Path.held, h.paths, h.bootstrap, Path.clear]
    rw [hnone]
    exact .nil _

theorem Moves.spends (h : Moves C g s calls s') :
    Spends counterLimit (s.held C) (s'.held C) (uses calls) := by
  induction h with
  | refl => exact .refl _
  | tail _ hm ih =>
    rw [uses_append]
    exact ih.trans hm.spends

/-- A new session holds what its bootstrap held. -/
theorem new_spends (b : Profile3Bootstrap) (binding : ObservedBinding) (deliverySeed : U64)
    (owner : ℕ) : Spends counterLimit (b.held C)
      ((RedundantSession.new b binding deliverySeed owner).toOption.toList.flatMap (·.held C))
      [] := by
  cases h : RedundantSession.new b binding deliverySeed owner with
  | error e => exact .nil _
  | ok s =>
    obtain ⟨d, hslot, -, hs⟩ := new_eq_ok h
    have hsame : s.held C = b.held C := by
      simp [RedundantSession.held, Path.held, hs.path0, hs.path1, hs.bootstrap,
        Profile3Bootstrap.held, hslot]
    simpa [Except.toOption, hsame] using Spends.refl (b.held C)

end

/-- A client, a server and what they hand over: bootstraps, the sessions taken out of them and the
redundant sessions made of them. The last two fields are ghosts: the handshakes that each end
completed, newest first, and all calls of `seal` in their order. -/
structure Life where
  client : ClientMachine
  server : ServerMachine
  bootstraps : List Profile3Bootstrap
  slots : List DirectionalSession
  redundants : List World
  completed : List (Party × Handshake)
  seals : List SealCall

inductive LifeCall
  | client (call : ClientCall)
  | server (call : ServerCall)
  | takeSlot0 (i : ℕ)
  | takeSlot1AfterAdmission (i owner : ℕ)
  | closeBootstrap (i : ℕ)
  | slot (i : ℕ) (call : SessionCall)
  | new (i : ℕ) (binding : ObservedBinding) (deliverySeed : U64) (owner : ℕ)
  | redundant (i : ℕ) (call : Call)

namespace Life

/-- The handshake a call completes, with the end that completes it. -/
def handshake? (C : Crypto) (w : Life) : LifeCall → Option (Party × Handshake)
  | .client call => (w.client.handshake? C call).map fun h => (.client, h)
  | .server call => (w.server.handshake? C call).map fun h => (.server, h)
  | _ => none

/-- The calls of `seal` that a call makes. -/
def sealed (C : Crypto) (w : Life) : LifeCall → List SealCall
  | .client call => w.client.sealed C call
  | .server call => w.server.sealed C call
  | .slot i call => w.slots[i]?.toList.flatMap fun s => s.sealed C call
  | .redundant i call => w.redundants[i]?.toList.flatMap fun r => r.seals C call
  | _ => []

/-- Whoever holds what after a call. A value that a call takes is gone. -/
def next (C : Crypto) (w : Life) : LifeCall → Life
  | .client call => { w with
      client := w.client.step C call
      bootstraps := w.bootstraps ++ (w.client.yields call).toList }
  | .server call => { w with
      server := w.server.step C call
      bootstraps := w.bootstraps ++ (w.server.yields call).toList }
  | .takeSlot0 i =>
    match w.bootstraps[i]? with
    | none => w
    | some b => { w with
        bootstraps := w.bootstraps.set i b.takeSlot0.1
        slots := w.slots ++ b.takeSlot0.2.toOption.toList }
  | .takeSlot1AfterAdmission i owner =>
    match w.bootstraps[i]? with
    | none => w
    | some b => { w with
        bootstraps := w.bootstraps.set i (b.takeSlot1AfterAdmission C owner).1
        slots := w.slots ++ (b.takeSlot1AfterAdmission C owner).2.toOption.toList }
  | .closeBootstrap i =>
    match w.bootstraps[i]? with
    | none => w
    | some b => { w with bootstraps := w.bootstraps.set i b.close.1 }
  | .slot i call =>
    match w.slots[i]? with
    | none => w
    | some s => { w with slots := w.slots.set i (s.step C call) }
  | .new i binding deliverySeed owner =>
    match w.bootstraps[i]? with
    | none => w
    | some b => { w with
        bootstraps := w.bootstraps.eraseIdx i
        redundants := w.redundants ++
          (RedundantSession.new b binding deliverySeed owner).toOption.toList.map World.start }
  | .redundant i call =>
    match w.redundants[i]? with
    | none => w
    | some r => { w with redundants := w.redundants.set i (r.step C call) }

def step (C : Crypto) (w : Life) (call : LifeCall) : Life :=
  { w.next C call with
    completed := (w.handshake? C call).toList ++ w.completed
    seals := w.seals ++ w.sealed C call }

def Starts (C : Crypto) (w : Life) : Prop :=
  ClientMachine.Starts C w.client ∧ ServerMachine.Starts C w.server ∧ w.bootstraps = [] ∧
    w.slots = [] ∧ w.redundants = [] ∧ w.completed = [] ∧ w.seals = []

/-- Any calls in any order, with any packets and times. -/
abbrev Reach (C : Crypto) (w : Life) : Prop :=
  Machine.Reach (Starts C) (step C) (fun _ _ => True) w

/-- Every key that someone can still seal with. -/
def held (C : Crypto) (w : Life) : List (Bytes 32 × ℕ) :=
  w.client.held C ++ (w.server.held C ++ (w.bootstraps.flatMap (·.held C) ++
    (w.slots.flatMap DirectionalSession.held ++ w.redundants.flatMap (·.session.held C))))

variable {w : Life} {call : LifeCall}

theorem opens_map (C : Crypto) (p : Party) (h? : Option Handshake) :
    (h?.map fun h => (p, h)).toList.flatMap (fun x => x.2.opens C x.1) =
      h?.toList.flatMap (·.opens C p) := by
  cases h? <;> rfl

/-- A call that completes no handshake spends what is held. -/
theorem step_spends_of_none (hh : w.handshake? C call = none)
    (h : Spends counterLimit (w.held C) ((w.next C call).held C) (uses (w.sealed C call))) :
    Spends counterLimit
      ((w.handshake? C call).toList.flatMap (fun x => x.2.opens C x.1) ++ w.held C)
      ((w.step C call).held C) (uses (w.sealed C call)) := by
  rw [hh]
  exact h

/-- A step on one bootstrap hands slots on. -/
theorem bootstrap_spends {i : ℕ} {b b' : Profile3Bootstrap} {slots : List DirectionalSession}
    (hi : w.bootstraps[i]? = some b)
    (h : Spends counterLimit (b.held C) (slots.flatMap DirectionalSession.held ++ b'.held C) []) :
    Spends counterLimit (w.held C)
      (held C { w with bootstraps := w.bootstraps.set i b', slots := w.slots ++ slots }) [] := by
  have hand := (Spends.hand (f := fun b => b.held C) hi h).frame
    (w.slots.flatMap DirectionalSession.held ++ w.redundants.flatMap (·.session.held C))
  refine Spends.frame_left (Spends.frame_left (hand.perm (.refl _) ?_) _) _
  refine List.perm_iff_count.mpr fun x => ?_
  simp only [List.flatMap_append, List.count_append]
  omega

/-- A call spends what is held and what a handshake opens. -/
theorem step_spends (hr : ClientMachine.Reach C w.client) (call : LifeCall) :
    Spends counterLimit
      ((w.handshake? C call).toList.flatMap (fun x => x.2.opens C x.1) ++ w.held C)
      ((w.step C call).held C) (uses (w.sealed C call)) := by
  cases call with
  | client call =>
    have h := (ClientMachine.step_spends (ClientMachine.config_reach hr)
      (ClientMachine.scid_reach hr) call).frame
      (w.server.held C ++ (w.bootstraps.flatMap (·.held C) ++
        (w.slots.flatMap DirectionalSession.held ++ w.redundants.flatMap (·.session.held C))))
    refine h.perm ?_ (List.perm_iff_count.mpr fun x => ?_)
    · rw [handshake?, opens_map, List.append_assoc]
      exact .refl _
    · simp only [held, step, next, List.flatMap_append, List.count_append]
      omega
  | server call =>
    have h := (ServerMachine.step_spends (C := C) w.server call).frame
      (w.client.held C ++ (w.bootstraps.flatMap (·.held C) ++
        (w.slots.flatMap DirectionalSession.held ++ w.redundants.flatMap (·.session.held C))))
    refine h.perm (List.perm_iff_count.mpr fun x => ?_) (List.perm_iff_count.mpr fun x => ?_)
    · rw [handshake?, opens_map]
      simp only [held, List.count_append]
      omega
    · simp only [held, step, next, List.flatMap_append, List.count_append]
      omega
  | takeSlot0 i =>
    refine step_spends_of_none rfl ?_
    simp only [next]
    split
    · exact .refl _
    · exact bootstrap_spends ‹_› (Profile3Bootstrap.takeSlot0_spends _)
  | takeSlot1AfterAdmission i owner =>
    refine step_spends_of_none rfl ?_
    simp only [next]
    split
    · exact .refl _
    · exact bootstrap_spends ‹_› (Profile3Bootstrap.takeSlot1AfterAdmission_spends _ owner)
  | closeBootstrap i =>
    refine step_spends_of_none rfl ?_
    simp only [next]
    split
    · exact .refl _
    · rename_i b hb
      have hclose : Spends counterLimit (b.held C)
          (([] : List DirectionalSession).flatMap DirectionalSession.held ++ b.close.1.held C) [] :=
        Profile3Bootstrap.close_spends b
      simpa [sealed] using bootstrap_spends hb hclose
  | slot i call =>
    refine step_spends_of_none rfl ?_
    simp only [next, sealed]
    split
    · rename_i hnone
      simpa [hnone] using Spends.refl _
    · rename_i s hs
      have h := Spends.set hs (s.step_spends (C := C) call)
      simp only [hs, Option.toList_some, List.flatMap_singleton]
      exact (((h.frame _).frame_left _).frame_left _).frame_left _
  | new i binding deliverySeed owner =>
    refine step_spends_of_none rfl ?_
    simp only [next]
    split
    · exact .refl _
    · rename_i b hb
      have h := (Spends.erase (f := fun b => b.held C) hb
        (new_spends b binding deliverySeed owner)).frame
          (w.slots.flatMap DirectionalSession.held ++ w.redundants.flatMap (·.session.held C))
      refine Spends.frame_left (Spends.frame_left (h.perm (.refl _) ?_) _) _
      refine List.perm_iff_count.mpr fun x => ?_
      simp only [List.flatMap_append, List.flatMap_map, World.start, List.count_append]
      omega
  | redundant i call =>
    refine step_spends_of_none rfl ?_
    simp only [next, sealed]
    split
    · rename_i hnone
      simpa [hnone] using Spends.refl _
    · rename_i r hr
      have hr' := (World.step_moves C r call).spends
      have h := Spends.set (f := fun r : World => r.session.held C) (y := r.step C call) hr hr'
      simp only [hr, Option.toList_some, List.flatMap_singleton]
      exact (((h.frame_left _).frame_left _).frame_left _).frame_left _

/-- What is true of the ends in every life, whatever is assumed of the keys. -/
structure Alive (C : Crypto) (w : Life) : Prop where
  client : ClientMachine.Reach C w.client
  server : w.server.config.validate C = .ok ()
  formed : ∀ x ∈ w.completed, x.2.Formed C
  once : ∀ x ∈ w.completed, x.1 = .client →
    Phase.rank .established ≤ w.client.state.phase.rank

/-- The ends change in calls of their own only. -/
theorem ends_step (w : Life) (call : LifeCall) :
    ((w.step C call).client = w.client ∨
      ∃ c, call = .client c ∧ (w.step C call).client = w.client.step C c) ∧
    ((w.step C call).server = w.server ∨
      ∃ c, call = .server c ∧ (w.step C call).server = w.server.step C c) := by
  cases call with
  | client c => exact ⟨.inr ⟨c, rfl, rfl⟩, .inl rfl⟩
  | server c => exact ⟨.inl rfl, .inr ⟨c, rfl, rfl⟩⟩
  | takeSlot0 | takeSlot1AfterAdmission | closeBootstrap | slot | new | redundant =>
    simp only [step, next]
    split <;> exact ⟨.inl rfl, .inl rfl⟩

theorem Alive.handshake (h : Alive C w) {x : Party × Handshake}
    (hx : w.handshake? C call = some x) :
    x.2.Formed C ∧ (x.1 = .client → w.client.state.phase = .authWait ∧
      (w.step C call).client.state.phase = .established) := by
  cases call with
  | client c =>
    obtain ⟨h', hh, rfl⟩ := Option.map_eq_some_iff.mp hx
    obtain ⟨hbefore, hafter, hformed⟩ := ClientMachine.handshake?_eq_some
      (ClientMachine.config_reach h.client) (ClientMachine.scid_reach h.client) hh
    exact ⟨hformed, fun _ => ⟨hbefore, hafter⟩⟩
  | server c =>
    obtain ⟨h', hh, rfl⟩ := Option.map_eq_some_iff.mp hx
    exact ⟨ServerMachine.handshake?_eq_some h.server hh, nofun⟩
  | _ => cases hx

theorem Alive.rank_le (h : Alive C w) (call : LifeCall) :
    w.client.state.phase.rank ≤ (w.step C call).client.state.phase.rank := by
  rcases (ends_step (C := C) w call).1 with hsame | ⟨c, -, hc⟩
  · rw [hsame]
  · rw [hc]
    have hmoves := ClientMachine.step_moves (ClientMachine.config_reach h.client)
      (ClientMachine.scid_reach h.client) c
    rcases Lifetime.moves_phase hmoves with ⟨hphase, -⟩ | hlt
    · rw [hphase]
    · exact hlt.le

theorem alive_step (h : Alive C w) (call : LifeCall) : Alive C (w.step C call) := by
  obtain ⟨hclient, hserver⟩ := ends_step (C := C) w call
  refine ⟨?_, ?_, ?_, ?_⟩
  · rcases hclient with hsame | ⟨c, -, hc⟩
    · rw [hsame]
      exact h.client
    · rw [hc]
      exact .next h.client trivial
  · rcases hserver with hsame | ⟨c, -, hc⟩
    · rw [hsame]
      exact h.server
    · rw [hc, ServerMachine.step_config]
      exact h.server
  · intro x hx
    rcases List.mem_append.mp hx with hx | hx
    · exact (h.handshake (Option.mem_toList.mp hx)).1
    · exact h.formed x hx
  · intro x hx hp
    rcases List.mem_append.mp hx with hx | hx
    · rw [((h.handshake (Option.mem_toList.mp hx)).2 hp).2]
    · exact (h.once x hx hp).trans (h.rank_le call)

/-- The ledger of a life whose keys are fresh. -/
def Kept (C : Crypto) (w : Life) : Prop :=
  FreshKeys C w.completed →
    Granted counterLimit (granted C w.completed) (w.held C) (uses w.seals)

theorem kept_step (ha : Alive C w) (hk : Kept C w) (call : LifeCall) : Kept C (w.step C call) := by
  intro hf
  have hspends := step_spends ha.client call
  simp only [step, uses_append] at hf ⊢
  cases hh : w.handshake? C call with
  | none =>
    rw [hh] at hf hspends
    exact (hk hf).spend hspends
  | some x =>
    rw [hh] at hf hspends
    obtain ⟨hformed, hclient⟩ := ha.handshake hh
    have honce : x.1 = .client → ∀ y ∈ w.completed, y.1 ≠ .client := by
      intro hp y hy hq
      have hrank := ha.once y hy hq
      rw [(hclient hp).1] at hrank
      simp [Phase.rank] at hrank
    have hgranted := (hk hf.tail).grant (hf.opens_nodup hformed)
      (hf.opens_new hformed ha.formed honce)
    simp only [Option.toList_some, List.flatMap_singleton] at hspends
    exact hgranted.spend hspends

theorem reach_kept (h : Reach C w) : Alive C w ∧ Kept C w := by
  refine h.invariant (I := fun w => Alive C w ∧ Kept C w) ?_
    fun w call ⟨ha, hk⟩ _ => ⟨alive_step ha call, kept_step ha hk call⟩
  rintro ⟨client, server, _, _, _, _, _⟩ ⟨hclient, ⟨config, signingKey, material, hnew⟩, rfl, rfl,
    rfl, rfl, rfl⟩
  obtain ⟨hvalid, rfl⟩ := ServerMachine.new_eq_ok hnew
  refine ⟨⟨.start hclient, hvalid, by simp, by simp⟩, fun _ => ?_⟩
  obtain ⟨config, signingKey, hnew⟩ := hclient
  simp only [ClientMachine.new, Outcome.bind_eq_ok, Outcome.ite_error_eq_ok, Except.ok.injEq] at hnew
  obtain ⟨⟨⟩, -, -, rfl⟩ := hnew
  exact .nil _

/-- In every run of a client, a server and what they hand over, a key and a counter are sealed with
once: counters leave out both ends of their range and rise for each key, and the keys come from the
four strings of a handshake, which are different. -/
theorem nonces_unique (h : Reach C w) (hf : FreshKeys C w.completed) :
    (w.seals.map fun c => (c.key, c.counter)).Nodup ∧
    (∀ c ∈ w.seals, 1 ≤ c.counter.val ∧ c.counter.val ≤ 2 ^ 64 - 2) ∧
    (w.seals.Pairwise fun a b => a.key = b.key → a.counter < b.counter) ∧
    (∀ x ∈ w.completed, (x.2.allInfos C).Nodup) ∧
    ∀ c ∈ w.seals, ∃ x ∈ w.completed, ∃ info ∈ x.2.infos C x.1,
      c.key = C.hkdfExpand (x.2.schedule C) info := by
  obtain ⟨ha, hk⟩ := reach_kept h
  obtain ⟨hsound, hknown⟩ := hk hf
  have hrising := hsound.rising
  rw [uses, List.pairwise_reverse, List.pairwise_map] at hrising
  have hused : ∀ c ∈ w.seals, (c.key, c.counter.val) ∈ uses w.seals := by
    intro c hc
    exact List.mem_reverse.mpr (List.mem_map.mpr ⟨c, hc, rfl⟩)
  refine ⟨?_, ?_, ?_, fun x hx => x.2.allInfos_nodup C (ha.formed x hx).roles, ?_⟩
  · have hnodup := List.nodup_reverse.mp hsound.nodup
    refine List.Nodup.of_map (fun p : Bytes 32 × U64 => (p.1, p.2.val)) ?_
    rwa [List.map_map]
  · intro c hc
    obtain ⟨hpos, hlt⟩ := hsound.range _ (hused c hc)
    unfold counterLimit at hlt
    dsimp only at hpos hlt
    omega
  · exact hrising.imp fun hab heq => hab heq.symm
  · intro c hc
    obtain ⟨x, hx, hkey⟩ := List.mem_flatMap.mp (hknown _ (List.mem_append_right _ (hused c hc)))
    obtain ⟨k, hopens, heq⟩ := List.mem_map.mp hkey
    obtain ⟨info, hinfo, rfl⟩ := List.mem_map.mp hopens
    exact ⟨x, hx, info, hinfo, heq.symm⟩

end Life

namespace Scenario

open Session.Scenario (client server packetOf binding authenticating authCall accepting)

/-- The header under which the server sends on a slot. -/
def slotHeader (flags pathSlot : Byte) : Header :=
  { sesHeader 3 flags 5 (bytesOf 16 21) (bytesOf 16 20) with pathSlot := pathSlot }

/-- A handshake under profile 3. The client goes on with a redundant session up to its end, and the
server with the sessions of both slots. -/
def lifeCalls : List LifeCall :=
  let m := server 3
  let opened := (client 3).start .sample 5 ⟨bytesOf 32 30, bytesOf 32 31⟩ 1000
  let verify := m.receiveOpen .sample (packetOf opened.2) binding 0
  let ack := m.receiveOpenAuth .sample (authenticating m 5 30 1000).2 binding 1000 0
    (some ⟨bytesOf 32 32, bytesOf 32 33⟩) 5
  [.client (.start 5 ⟨bytesOf 32 30, bytesOf 32 31⟩ 1000),
    .client (.receiveVerify (packetOf verify) 1000), .server (authCall m 5 30 1000),
    .client (.receiveAck (packetOf ack.2) 1000 5),
    .server (.receiveAccept (accepting m 5 30 1000).2 1000),
    .client .takeProfile3Bootstrap, .server (.takeProfile3Bootstrap 5), .new 0 binding 1 100,
    .redundant 0 (.outbound [1, 2, 3]), .redundant 0 (.removePath 0), .takeSlot0 0,
    .takeSlot1AfterAdmission 0 7, .slot 0 (.encryptProfile3Data (slotHeader 1 0) 1 [4] 1280),
    .slot 1 (.encryptProfile3Data (slotHeader 3 1) 1 [4] 1280)]

def life : Life :=
  Machine.exec (Life.step .sample) ⟨client 3, server 3, [], [], [], [], []⟩ lifeCalls

theorem life_reach : Life.Reach .sample life := by
  have hstart : Life.Starts .sample ⟨client 3, server 3, [], [], [], [], []⟩ :=
    ⟨Session.Scenario.client_starts (by simp), Session.Scenario.server_starts (by simp), rfl, rfl,
      rfl, rfl, rfl⟩
  exact Machine.Reach.exec (.start hstart) _ (.of_forall (fun _ _ => trivial) _ _)

end Scenario

theorem nonces_unique_life : (Scenario.life.seals.map fun c => c.counter.val) = [1, 2, 1, 1] ∧
    (Scenario.life.seals.map fun c => (c.key, c.counter)).Nodup := by
  have hlife : FreshKeys .sample Scenario.life.completed ∧
      (Scenario.life.seals.map fun c => c.counter.val) = [1, 2, 1, 1] := by decide +kernel
  exact ⟨hlife.2, (Life.nonces_unique Scenario.life_reach hlife.1).1⟩

end R8.Redundant
