import R8Protocol.Mobility.Scenario
import R8Protocol.Session.Atomicity
import R8Protocol.Session.Runs

/-! A control is received by two machines together: the replay window marks its packet and the
manager applies its transition, or neither changes. -/
namespace R8.Mobility

open FixedWidth Wire Session

namespace Manager

/-- What the commits have in common. `commit` runs on the machine that holds the window. -/
def commitWith {σ π : Type} (m : Manager) (s : State) (t : Transition) (refused : Bool)
    (proof : Option π) (committed : π → Bool) (holder : σ)
    (commit : σ → π → σ × π × Except SessionError Unit) :
    State × σ × Except MobilityError Unit :=
  if refused ∨ t.ownerId ≠ m.ownerId then (s, holder, .error .replay)
  else
    match proof with
    | none => (s, holder, .error .replay)
    | some proof =>
      if s.closed ∨ s.generation ≠ t.generation then (s, holder, .error .replay)
      else
        let r := commit holder proof
        match r.2.2 with
        | .error _ => (s, r.1, .error .replay)
        | .ok () =>
          if ¬ committed r.2.1 then (s, r.1, .error .replay)
          else
            let applied := m.applyAfterReplay s t
            (applied.1, r.1, applied.2)

def commitProtected (m : Manager) (s : State) (t : Transition) (session : DirectionalSession) :
    State × DirectionalSession × Except MobilityError Unit :=
  m.commitWith s t (m.profile = 3) t.protectedProof (·.committed) session
    DirectionalSession.commitProtectedReplay

def commitProtectedClient (m : Manager) (s : State) (t : Transition) (client : ClientMachine) :
    State × ClientMachine × Except MobilityError Unit :=
  m.commitWith s t (m.profile = 3) t.protectedProof (·.committed) client
    ClientMachine.commitProtectedReplay

def commitProtectedServer (m : Manager) (s : State) (t : Transition) (server : ServerMachine)
    (scid nowMs : U64) : State × ServerMachine × Except MobilityError Unit :=
  m.commitWith s t (m.profile = 3) t.protectedProof (·.committed) server
    fun server proof => server.commitProtectedReplay scid proof nowMs

/-- `commit_profile3`, with the session it takes. -/
def commitProfile3On (m : Manager) (s : State) (t : Transition) (session : DirectionalSession) :
    State × DirectionalSession × Except MobilityError Unit :=
  m.commitWith s t (m.profile ≠ 3) t.profile3Proof (·.committed) session
    DirectionalSession.commitProfile3Replay

variable {σ : Type} {m : Manager} {s : State} {t : Transition} {holder : σ}

/-- The manager's side is the commit of the runs, with the replay commit of that holder. -/
theorem commitWith_profile3
    (commit : σ → Profile3ReplayProof → σ × Profile3ReplayProof × Except SessionError Unit) :
    let r := m.commitWith s t (m.profile ≠ 3) t.profile3Proof (·.committed) holder commit
    (r.1, r.2.2) = m.commitProfile3 s t fun proof =>
      ((commit holder proof).2.1, (commit holder proof).2.2.mapError fun _ => .replay) := by
  unfold commitWith commitProfile3
  simp only [decide_eq_true_eq]
  split
  · rfl
  · cases t.profile3Proof with
    | none => rfl
    | some proof =>
      dsimp only
      split
      · rfl
      · generalize commit holder proof = r
        obtain ⟨holder', proof', e | ⟨⟩⟩ := r
        · rfl
        · dsimp only [Except.mapError]
          split <;> rfl

/-- The transition is applied to the state of its own generation. -/
structure Applies (m : Manager) (t : Transition) (s s' : State) : Prop where
  owner : t.ownerId = m.ownerId
  opened : s.closed = false
  generation : t.generation = s.generation
  result : if t.action.mutates then
      ∃ g : U64, g.val = s.generation.val + 1 ∧ s' = { m.applyAction s t.action with generation := g }
    else s' = s

theorem applies_of_ready {s' : State} (ho : t.ownerId = m.ownerId) (hc : s.closed = false)
    (hg : t.generation = s.generation) (h : m.applyAfterReplay s t = (s', .ok ())) :
    Applies m t s s' := by
  refine ⟨ho, hc, hg, ?_⟩
  unfold applyAfterReplay at h
  split at h
  · rename_i hm
    rw [if_pos hm]
    split at h
    · simp at h
    · rename_i g hadd
      exact ⟨g, by simpa using (checkedAdd_eq_some.mp hadd), (Prod.mk.inj h).1.symm⟩
  · rename_i hm
    rw [if_neg hm, ← (Prod.mk.inj h).1]
    cases hact : t.action <;> simp_all [Action.mutates, applyAction]

/-- A commit does both halves or neither, if its replay commit is of that kind and the manager is
ready: `K` is what a replay commit does to the holder, `U` what it leaves when it fails. -/
theorem commitWith_atomic {π : Type} {K : π → σ → Prop} {U : σ → Prop} (refused : Bool)
    (proof : Option π) (committed : π → Bool) (holder : σ)
    (commit : σ → π → σ × π × Except SessionError Unit)
    (hready : t.ownerId = m.ownerId → t.generation = s.generation →
      ∃ s', m.applyAfterReplay s t = (s', .ok ()))
    (hcommit : ∀ proof, (∃ e, (commit holder proof).2.2 = .error e ∧ U (commit holder proof).1) ∨
      (commit holder proof).2.2 = .ok () ∧ committed (commit holder proof).2.1 = true ∧
        K proof (commit holder proof).1)
    (hK : ∀ q holder', K q holder' → holder' ≠ holder ∧ ¬ U holder') :
    let r := m.commitWith s t refused proof committed holder commit
    (r.2.2 = .ok () ↔ Applies m t s r.1 ∧ ∃ q, proof = some q ∧ K q r.2.1) ∧
    ∀ e, r.2.2 = .error e → r.1 = s ∧ (r.2.1 = holder ∨ U r.2.1) := by
  intro r
  have hboth : (r.2.2 = .ok () ∧ Applies m t s r.1 ∧ ∃ q, proof = some q ∧ K q r.2.1) ∨
      ((∃ e, r.2.2 = .error e) ∧ r.1 = s ∧ (r.2.1 = holder ∨ U r.2.1)) := by
    simp only [r]
    unfold commitWith
    split
    · exact .inr ⟨⟨_, rfl⟩, rfl, .inl rfl⟩
    · rename_i howner
      push Not at howner
      split
      · exact .inr ⟨⟨_, rfl⟩, rfl, .inl rfl⟩
      · rename_i q
        split
        · exact .inr ⟨⟨_, rfl⟩, rfl, .inl rfl⟩
        · rename_i hopen
          push Not at hopen
          have hc : s.closed = false := by simpa using hopen.1
          obtain ⟨s', happly⟩ := hready howner.2 hopen.2.symm
          have happlies := applies_of_ready howner.2 hc hopen.2.symm happly
          rcases hcommit q with ⟨e, he, hu⟩ | ⟨hok, hcom, hk⟩
          · simp only [he]
            exact .inr ⟨⟨_, rfl⟩, trivial, .inr hu⟩
          · simp only [hok, hcom, not_true_eq_false, if_false, happly]
            exact .inl ⟨trivial, happlies, q, rfl, hk⟩
  rcases hboth with ⟨hok, hboth⟩ | ⟨⟨e, he⟩, hs, hu⟩
  · refine ⟨iff_of_true hok hboth, fun e he => ?_⟩
    rw [hok] at he
    cases he
  · refine ⟨iff_of_false (by rw [he]; simp) ?_, fun _ _ => ⟨hs, hu⟩⟩
    rintro ⟨-, q, -, hk⟩
    obtain ⟨h₁, h₂⟩ := hK q _ hk
    exact hu.elim h₁ h₂

end Manager

namespace World

variable {C : Crypto} {m : Manager} {secret : Bytes 32} {ok : World → Call → Prop} {w : World}
  {p : Previewed}

/-- The call that handed out a transition, in a state that was the present one in every field a
commit relies on. -/
structure Origin (C : Crypto) (m : Manager) (p : Previewed) (w₀ w : World) : Prop where
  run : Machine.Run (step C m) (fun w call => w.Owned m call) w₀ w
  preview : ∃ call, w₀.previewed C m call = some p
  same : w.state.closed = false → p.transition.generation = w.state.generation →
    State.Quiet w₀.state w.state

theorem Reach.origin (h : Reach C m secret ok w) (hp : p ∈ w.issued) :
    ∃ w₀, Reach C m secret ok w₀ ∧ Origin C m p w₀ w := by
  induction h with
  | start hs =>
    rw [hs.2.1] at hp
    cases hp
  | next hr hok ih =>
    rename_i w call
    have hf := Reach.fresh hr
    rcases List.mem_append.mp hp with hp | hp
    · have hprev := Option.mem_toList.mp hp
      refine ⟨w, hr, .next (.start rfl) hok.1, ⟨call, hprev⟩, ?_⟩
      intro _ _
      rw [(previewed_eq_some hprev).1]
      exact .refl _
    · obtain ⟨w₀, hr₀, ho⟩ := ih hp
      refine ⟨w₀, hr₀, .next ho.run hok.1, ho.preview, ?_⟩
      intro hc hgen
      have hbehind := hf.behind p hp
      obtain ⟨hle, hq | hclosed | hlt⟩ := (step_effect hf hok.1).moves
      · have hback : p.transition.generation = w.state.generation :=
          le_antisymm hbehind (hgen ▸ hle)
        exact (ho.same (hq.closed.symm.trans hc) hback).trans hq
      · simp [hclosed] at hc
      · exact absurd hgen (ne_of_lt (hbehind.trans_lt hlt))

/-- What a transition was computed from: an open manager with a generation to spare, and the
plaintext that its proof carries. -/
theorem previewed_control {call : Call} (h : w.previewed C m call = some p) :
    p.transition.generation ≠ u64Max ∧ ∃ plaintext control,
      Control.parse plaintext = .ok control ∧
      m.previewControl C w.state p.binding p.nowMs control = .ok p.transition.action ∧
      (∀ proof ∈ p.transition.protectedProof, ∀ preview ∈ proof.preview,
        preview.plaintext = plaintext) ∧
      ∀ proof ∈ p.transition.profile3Proof, ∀ preview ∈ proof.preview,
        preview.plaintext = plaintext := by
  have hinner : ∀ {plaintext binding nowMs pp p3 t},
      m.previewInner C w.state plaintext binding nowMs pp p3 = .ok t →
      t.generation ≠ u64Max ∧ t.protectedProof = pp ∧ t.profile3Proof = p3 := by
    intro plaintext binding nowMs pp p3 t h
    simp only [Manager.previewInner, Outcome.ite_error_eq_ok, Outcome.bind_eq_ok,
      Except.ok.injEq] at h
    obtain ⟨-, control, -, -, hopen, a, -, rfl⟩ := h
    push Not at hopen
    exact ⟨hopen.2.1, rfl, rfl⟩
  cases call with
  | previewProtected plaintext binding proof live nowMs =>
    obtain ⟨t, ht, rfl⟩ := Option.map_eq_some_iff.mp h
    have hok := Outcome.toOption_eq_some.mp ht
    simp only [Manager.previewProtected, Outcome.ite_error_eq_ok] at hok
    obtain ⟨hguard, hok⟩ := hok
    push Not at hguard
    obtain ⟨hgen, hpp, hp3⟩ := hinner hok
    obtain ⟨control, hparse, hcontrol⟩ := previewInner_control hok
    refine ⟨hgen, plaintext, control, hparse, hcontrol, ?_, by simp [hp3]⟩
    intro proof' hproof preview hpreview
    obtain rfl : proof = proof' := by simpa [hpp] using hproof
    have hmatch := hguard.2.1
    simp only [ProtectedReplayProof.matchesPlaintext, Option.mem_def.mp hpreview, Option.any_some,
      ProtectedPreview.readable] at hmatch
    split at hmatch
    · exact Except.ok.inj (of_decide_eq_true hmatch)
    · simp at hmatch
  | previewProfile3 plaintext binding proof nowMs =>
    obtain ⟨t, ht, rfl⟩ := Option.map_eq_some_iff.mp h
    have hok := Outcome.toOption_eq_some.mp ht
    simp only [Manager.previewProfile3, Outcome.ite_error_eq_ok] at hok
    obtain ⟨hguard, -, hok⟩ := hok
    push Not at hguard
    obtain ⟨hgen, hpp, hp3⟩ := hinner hok
    obtain ⟨control, hparse, hcontrol⟩ := previewInner_control hok
    refine ⟨hgen, plaintext, control, hparse, hcontrol, by simp [hpp], ?_⟩
    intro proof' hproof preview hpreview
    obtain rfl : proof = proof' := by simpa [hp3] using hproof
    have hmatch := hguard.2
    simpa [Profile3ReplayProof.matchesPlaintext, Option.mem_def.mp hpreview] using hmatch
  | _ => simp [previewed] at h

/-- Once the replay commit of a current transition is made, applying it cannot fail. -/
theorem Reach.ready (h : Reach C m secret ok w)
    (hp : p ∈ w.issued ∨ p.transition.ownerId ≠ m.ownerId)
    (ho : p.transition.ownerId = m.ownerId) (hg : p.transition.generation = w.state.generation) :
    ∃ s', m.applyAfterReplay w.state p.transition = (s', .ok ()) := by
  obtain ⟨w₀, -, horigin⟩ := h.origin (hp.resolve_right (not_not.mpr ho))
  obtain ⟨call, hcall⟩ := horigin.preview
  have hmax := (previewed_control hcall).1
  unfold Manager.applyAfterReplay
  split
  · cases hadd : checkedAdd w.state.generation 1 with
    | none =>
      have hfull := checkedAdd_eq_none.mp hadd
      refine absurd (Fin.ext ?_) hmax
      rw [hg]
      have hlt := w.state.generation.isLt
      change w.state.generation.val = 2 ^ 64 - 1
      omega
    | some g => exact ⟨_, rfl⟩
  · exact ⟨_, rfl⟩

/-- The manager's half of a received control: the transition was previewed for this plaintext in
this generation, and it is applied. -/
structure Received (C : Crypto) (m : Manager) (secret : Bytes 32) (ok : World → Call → Prop)
    (w : World) (p : Previewed) (plaintext : List Byte) (s' : State) : Prop where
  applies : Manager.Applies m p.transition w.state s'
  computed : ∃ w₀ control, Reach C m secret ok w₀ ∧ Origin C m p w₀ w ∧
    Control.parse plaintext = .ok control ∧
    m.previewControl C w₀.state p.binding p.nowMs control = .ok p.transition.action ∧
    w₀.state.generation = w.state.generation ∧ State.Quiet w₀.state w.state

theorem received (h : Reach C m secret ok w)
    (hp : p ∈ w.issued ∨ p.transition.ownerId ≠ m.ownerId) {plaintext : List Byte} {s' : State}
    (ha : Manager.Applies m p.transition w.state s')
    (htext : (∃ proof ∈ p.transition.protectedProof, ∃ preview ∈ proof.preview,
        preview.plaintext = plaintext) ∨
      ∃ proof ∈ p.transition.profile3Proof, ∃ preview ∈ proof.preview,
        preview.plaintext = plaintext) : Received C m secret ok w p plaintext s' := by
  obtain ⟨w₀, hr₀, ho⟩ := h.origin (hp.resolve_right (not_not.mpr ha.owner))
  obtain ⟨call, hcall⟩ := ho.preview
  obtain ⟨-, plaintext', control, hparse, hcontrol, hpp, hp3⟩ := previewed_control hcall
  obtain rfl : plaintext' = plaintext := by
    rcases htext with ⟨proof, hproof, preview, hpreview, rfl⟩ |
      ⟨proof, hproof, preview, hpreview, rfl⟩
    · exact (hpp proof hproof preview hpreview).symm
    · exact (hp3 proof hproof preview hpreview).symm
  refine ⟨ha, w₀, control, hr₀, ho, hparse, hcontrol, ?_, ho.same ha.opened ha.generation⟩
  rw [← ha.generation]
  exact (previewed_eq_some hcall).2.1.symm

theorem setSession_ne {server : ServerMachine} {i : Fin server.established.length}
    {s' : DirectionalSession} (hne : s' ≠ (server.established.get i).session) :
    server.setSession i s' ≠ server := by
  intro heq
  have hlist := congrArg ServerMachine.established heq
  have hentry := congrArg (fun l => l[i.val]?) hlist
  simp only [ServerMachine.setSession, List.getElem?_set_self i.isLt,
    List.getElem?_eq_getElem i.isLt, Option.some.injEq] at hentry
  exact hne (congrArg EstablishedSession.session hentry)

/-- An expiry that drops an entry changes the length of the table, which a mark does not. -/
theorem setSession_ne_server {server : ServerMachine} {nowMs : U64}
    {i : Fin (server.expire nowMs).established.length} {s' : DirectionalSession}
    (hne : s' ≠ ((server.expire nowMs).established.get i).session) :
    (server.expire nowMs).setSession i s' ≠ server := by
  intro heq
  have hlist := congrArg ServerMachine.established heq
  have hlen : (server.expire nowMs).established.length = server.established.length := by
    rw [← hlist]
    exact (List.length_set ..).symm
  have hkept : (server.expire nowMs).established = server.established :=
    List.filter_sublist.eq_of_length hlen
  have hsame : ((server.expire nowMs).setSession i s').established =
      (server.expire nowMs).established := hlist.trans hkept.symm
  have hentry := congrArg (fun l => l[i.val]?) hsame
  simp only [ServerMachine.setSession, List.getElem?_set_self i.isLt,
    List.getElem?_eq_getElem i.isLt, Option.some.injEq] at hentry
  exact hne (congrArg EstablishedSession.session hentry)

section Commits

variable (h : Reach C m secret ok w) (hp : p ∈ w.issued ∨ p.transition.ownerId ≠ m.ownerId)

include h hp

theorem commitProtected_atomic {s : DirectionalSession} (hs : s.Sane) :
    let r := m.commitProtected w.state p.transition s
    (r.2.2 = .ok () ↔ ∃ preview, p.transition.protectedProof = some ⟨some preview, false⟩ ∧
      s.receiveOwner = preview.receiveOwner ∧ Marks s r.2.1 preview.commit.counter ∧
      Received C m secret ok w p preview.plaintext r.1) ∧
    ∀ e, r.2.2 = .error e → r.1 = w.state ∧ r.2.1 = s := by
  intro r
  obtain ⟨hok, herr⟩ := Manager.commitWith_atomic (m := m) (s := w.state) (t := p.transition)
    (K := fun proof s' => ∃ preview, proof = ⟨some preview, false⟩ ∧
      s.receiveOwner = preview.receiveOwner ∧ Marks s s' preview.commit.counter)
    (U := (· = s)) (m.profile = 3) p.transition.protectedProof (·.committed) s
    DirectionalSession.commitProtectedReplay (fun ho hg => h.ready hp ho hg)
    (fun proof => by
      rcases commitProtectedReplay_cases hs proof with he | ⟨preview, hq, ho, hok, hcom, hmarks⟩
      · exact .inl he
      · exact .inr ⟨hok, hcom, preview, hq, ho, hmarks⟩)
    (fun q s' ⟨preview, _, _, hmarks⟩ => ⟨hmarks.ne, hmarks.ne⟩)
  refine ⟨hok.trans ⟨?_, ?_⟩, fun e he => ?_⟩
  · rintro ⟨happlies, q, hq, preview, rfl, howner, hmarks⟩
    exact ⟨preview, hq, howner, hmarks, received h hp happlies (.inl ⟨_, hq, preview, rfl, rfl⟩)⟩
  · rintro ⟨preview, hq, howner, hmarks, hreceived⟩
    exact ⟨hreceived.applies, _, hq, preview, rfl, howner, hmarks⟩
  · exact ⟨(herr e he).1, (herr e he).2.elim id id⟩

theorem commitProfile3On_atomic {s : DirectionalSession} (hs : s.Sane) :
    let r := m.commitProfile3On w.state p.transition s
    (r.2.2 = .ok () ↔ ∃ preview, p.transition.profile3Proof = some ⟨some preview, false⟩ ∧
      s.receiveOwner = preview.receiveOwner ∧ Marks s r.2.1 preview.commit.counter ∧
      Received C m secret ok w p preview.plaintext r.1) ∧
    ∀ e, r.2.2 = .error e → r.1 = w.state ∧ r.2.1 = s := by
  intro r
  obtain ⟨hok, herr⟩ := Manager.commitWith_atomic (m := m) (s := w.state) (t := p.transition)
    (K := fun proof s' => ∃ preview, proof = ⟨some preview, false⟩ ∧
      s.receiveOwner = preview.receiveOwner ∧ Marks s s' preview.commit.counter)
    (U := (· = s)) (m.profile ≠ 3) p.transition.profile3Proof (·.committed) s
    DirectionalSession.commitProfile3Replay (fun ho hg => h.ready hp ho hg)
    (fun proof => by
      rcases commitProfile3Replay_cases hs proof with he | ⟨preview, hq, ho, hok, hcom, hmarks⟩
      · exact .inl he
      · exact .inr ⟨hok, hcom, preview, hq, ho, hmarks⟩)
    (fun q s' ⟨preview, _, _, hmarks⟩ => ⟨hmarks.ne, hmarks.ne⟩)
  refine ⟨hok.trans ⟨?_, ?_⟩, fun e he => ?_⟩
  · rintro ⟨happlies, q, hq, preview, rfl, howner, hmarks⟩
    exact ⟨preview, hq, howner, hmarks, received h hp happlies (.inr ⟨_, hq, preview, rfl, rfl⟩)⟩
  · rintro ⟨preview, hq, howner, hmarks, hreceived⟩
    exact ⟨hreceived.applies, _, hq, preview, rfl, howner, hmarks⟩
  · exact ⟨(herr e he).1, (herr e he).2.elim id id⟩

theorem commitProtectedClient_atomic {client : ClientMachine}
    (hs : ∀ s ∈ client.session?, s.Sane) :
    let r := m.commitProtectedClient w.state p.transition client
    (r.2.2 = .ok () ↔ ∃ preview session s',
      p.transition.protectedProof = some ⟨some preview, false⟩ ∧
      client.state = .established session ∧
      session.session.receiveOwner = preview.receiveOwner ∧
      Marks session.session s' preview.commit.counter ∧
      r.2.1 = { client with state := .established { session with session := s' } } ∧
      Received C m secret ok w p preview.plaintext r.1) ∧
    ∀ e, r.2.2 = .error e → r.1 = w.state ∧ r.2.1 = client := by
  intro r
  obtain ⟨hok, herr⟩ := Manager.commitWith_atomic (m := m) (s := w.state) (t := p.transition)
    (K := fun proof client' => ∃ preview session s', proof = ⟨some preview, false⟩ ∧
      client.state = .established session ∧
      session.session.receiveOwner = preview.receiveOwner ∧
      Marks session.session s' preview.commit.counter ∧
      client' = { client with state := .established { session with session := s' } })
    (U := (· = client)) (m.profile = 3) p.transition.protectedProof (·.committed) client
    ClientMachine.commitProtectedReplay (fun ho hg => h.ready hp ho hg)
    (fun proof => by
      unfold ClientMachine.commitProtectedReplay
      split
      · rename_i session hst
        have hsane : session.session.Sane := hs _ (by simp [ClientMachine.session?, hst])
        rcases commitProtectedReplay_cases hsane proof with ⟨e, he, hsame⟩ |
          ⟨preview, hq, ho, hok, hcom, hmarks⟩
        · refine .inl ⟨e, he, ?_⟩
          dsimp only
          rw [hsame, ← hst]
        · exact .inr ⟨hok, hcom, preview, session, _, hq, hst, ho, hmarks, rfl⟩
      · exact .inl ⟨.replay, rfl, rfl⟩)
    (fun q client' ⟨preview, session, s', _, hst, _, hmarks, heq⟩ => by
      have hne : client' ≠ client := by
        rintro rfl
        have hstate := congrArg ClientMachine.state heq
        rw [hst] at hstate
        exact hmarks.ne (congrArg ClientSession.session (ClientState.established.inj hstate)).symm
      exact ⟨hne, hne⟩)
  refine ⟨hok.trans ⟨?_, ?_⟩, fun e he => ?_⟩
  · rintro ⟨happlies, q, hq, preview, session, s', rfl, hst, howner, hmarks, heq⟩
    exact ⟨preview, session, s', hq, hst, howner, hmarks, heq,
      received h hp happlies (.inl ⟨_, hq, preview, rfl, rfl⟩)⟩
  · rintro ⟨preview, session, s', hq, hst, howner, hmarks, heq, hreceived⟩
    exact ⟨hreceived.applies, _, hq, preview, session, s', rfl, hst, howner, hmarks, heq⟩
  · exact ⟨(herr e he).1, (herr e he).2.elim id id⟩

theorem commitProtectedServer_atomic {server : ServerMachine}
    (hs : ∀ e ∈ server.established, e.session.Sane) (scid nowMs : U64) :
    let r := m.commitProtectedServer w.state p.transition server scid nowMs
    (r.2.2 = .ok () ↔ ∃ preview i s',
      p.transition.protectedProof = some ⟨some preview, false⟩ ∧
      (server.expire nowMs).position scid = some i ∧
      ((server.expire nowMs).established.get i).session.receiveOwner = preview.receiveOwner ∧
      Marks ((server.expire nowMs).established.get i).session s' preview.commit.counter ∧
      r.2.1 = (server.expire nowMs).setSession i s' ∧
      Received C m secret ok w p preview.plaintext r.1) ∧
    ∀ e, r.2.2 = .error e → r.1 = w.state ∧ (r.2.1 = server ∨ r.2.1 = server.expire nowMs) := by
  intro r
  obtain ⟨hok, herr⟩ := Manager.commitWith_atomic (m := m) (s := w.state) (t := p.transition)
    (K := fun proof server' => ∃ preview i s', proof = ⟨some preview, false⟩ ∧
      (server.expire nowMs).position scid = some i ∧
      ((server.expire nowMs).established.get i).session.receiveOwner = preview.receiveOwner ∧
      Marks ((server.expire nowMs).established.get i).session s' preview.commit.counter ∧
      server' = (server.expire nowMs).setSession i s')
    (U := (· = server.expire nowMs)) (m.profile = 3) p.transition.protectedProof (·.committed)
    server (fun server proof => server.commitProtectedReplay scid proof nowMs)
    (fun ho hg => h.ready hp ho hg)
    (fun proof => by
      unfold ServerMachine.commitProtectedReplay
      dsimp only
      split
      · exact .inl ⟨.replay, rfl, rfl⟩
      · rename_i i hi
        have hsane := hs _ (List.mem_of_mem_filter (List.get_mem (server.expire nowMs).established i))
        rcases commitProtectedReplay_cases hsane proof with ⟨e, he, hsame⟩ |
          ⟨preview, hq, ho, hok, hcom, hmarks⟩
        · refine .inl ⟨e, he, ?_⟩
          dsimp only
          rw [hsame, ServerMachine.setSession_self]
        · exact .inr ⟨hok, hcom, preview, i, _, hq, hi, ho, hmarks, rfl⟩)
    (fun q server' ⟨preview, i, s', _, _, _, hmarks, heq⟩ => by
      subst heq
      exact ⟨setSession_ne_server hmarks.ne, setSession_ne hmarks.ne⟩)
  refine ⟨hok.trans ⟨?_, ?_⟩, herr⟩
  · rintro ⟨happlies, q, hq, preview, i, s', rfl, hi, howner, hmarks, heq⟩
    exact ⟨preview, i, s', hq, hi, howner, hmarks, heq,
      received h hp happlies (.inl ⟨_, hq, preview, rfl, rfl⟩)⟩
  · rintro ⟨preview, i, s', hq, hi, howner, hmarks, heq, hreceived⟩
    exact ⟨hreceived.applies, _, hq, preview, i, s', rfl, hi, howner, hmarks, heq⟩

end Commits

/-- The record a current proof is for is still there. -/
theorem Reach.record (h : Reach C m secret ok w) (hp : p ∈ w.issued) (hc : w.state.closed = false)
    (hg : p.transition.generation = w.state.generation) {id : CandidateId} {epoch at_ : U64}
    {slot : Byte} {r : BindResponseIdentity}
    (ha : p.transition.action = .prove id epoch slot at_ r) :
    ∃ c, w.state.candidates.find?
      (fun c => c.candidateId = id ∧ c.epoch = epoch ∧ c.slot = slot) = some c := by
  obtain ⟨-, -, happ⟩ := h.fresh.applies p hp hc hg
  rw [ha] at happ
  obtain ⟨-, -, -, ⟨c, hc, -⟩, -⟩ := happ
  have hkey := List.find?_some hc
  simp only [decide_eq_true_eq] at hkey
  refine Option.ne_none_iff_exists'.mp fun hnone => ?_
  have hno := List.find?_eq_none.mp hnone c (List.mem_of_find?_eq_some hc)
  simp only [decide_eq_true_eq] at hno
  exact hno ⟨hkey.1, hkey.2.2.1, hkey.2.2.2.1⟩

/-- Whatever was called before on manager, session, client and server: a commit of a transition
returns Ok exactly when the window of the session it was previewed for has marked its counter and
the manager has applied it; otherwise nothing changes but what a server expires. Once replay is
marked, applying cannot fail. -/
theorem controls_received_atomically (h : Reach C m secret ok w)
    (hp : p ∈ w.issued ∨ p.transition.ownerId ≠ m.ownerId) :
    (∀ s, DirectionalSession.Reach C s →
      let r := m.commitProtected w.state p.transition s
      (r.2.2 = .ok () ↔ ∃ preview, p.transition.protectedProof = some ⟨some preview, false⟩ ∧
        s.receiveOwner = preview.receiveOwner ∧ Marks s r.2.1 preview.commit.counter ∧
        Received C m secret ok w p preview.plaintext r.1) ∧
      ∀ e, r.2.2 = .error e → r.1 = w.state ∧ r.2.1 = s) ∧
    (∀ client, ClientMachine.Reach C client →
      let r := m.commitProtectedClient w.state p.transition client
      (r.2.2 = .ok () ↔ ∃ preview session s',
        p.transition.protectedProof = some ⟨some preview, false⟩ ∧
        client.state = .established session ∧
        session.session.receiveOwner = preview.receiveOwner ∧
        Marks session.session s' preview.commit.counter ∧
        r.2.1 = { client with state := .established { session with session := s' } } ∧
        Received C m secret ok w p preview.plaintext r.1) ∧
      ∀ e, r.2.2 = .error e → r.1 = w.state ∧ r.2.1 = client) ∧
    (∀ server, ServerMachine.Reach C server → ∀ scid nowMs,
      let r := m.commitProtectedServer w.state p.transition server scid nowMs
      (r.2.2 = .ok () ↔ ∃ preview i s',
        p.transition.protectedProof = some ⟨some preview, false⟩ ∧
        (server.expire nowMs).position scid = some i ∧
        ((server.expire nowMs).established.get i).session.receiveOwner = preview.receiveOwner ∧
        Marks ((server.expire nowMs).established.get i).session s' preview.commit.counter ∧
        r.2.1 = (server.expire nowMs).setSession i s' ∧
        Received C m secret ok w p preview.plaintext r.1) ∧
      ∀ e, r.2.2 = .error e → r.1 = w.state ∧ (r.2.1 = server ∨ r.2.1 = server.expire nowMs)) ∧
    (∀ s, DirectionalSession.Reach C s →
      let r := m.commitProfile3On w.state p.transition s
      (r.2.2 = .ok () ↔ ∃ preview, p.transition.profile3Proof = some ⟨some preview, false⟩ ∧
        s.receiveOwner = preview.receiveOwner ∧ Marks s r.2.1 preview.commit.counter ∧
        Received C m secret ok w p preview.plaintext r.1) ∧
      ∀ e, r.2.2 = .error e → r.1 = w.state ∧ r.2.1 = s) ∧
    (p ∈ w.issued → w.state.closed = false → p.transition.generation = w.state.generation →
      (∃ s', m.applyAfterReplay w.state p.transition = (s', .ok ())) ∧
      ∀ id epoch slot at_ r, p.transition.action = .prove id epoch slot at_ r →
        ∃ c, w.state.candidates.find?
          (fun c => c.candidateId = id ∧ c.epoch = epoch ∧ c.slot = slot) = some c) ∧
    ∀ s, DirectionalSession.Reach C s → ∀ packet,
      (∀ preview, s.preview C packet = .ok preview →
        preview.commit.counter = u64Of (packet.drop 52)) ∧
      ∀ preview, s.previewProfile3Data C packet = .ok preview →
        preview.commit.counter = u64Of (packet.drop 52) := by
  refine ⟨fun s hs => ?_, fun client hs => ?_, fun server hs scid nowMs => ?_, fun s hs => ?_, ?_,
    fun s hs packet => ?_⟩
  · exact commitProtected_atomic h hp (DirectionalSession.sane_reach hs)
  · exact commitProtectedClient_atomic h hp (ClientMachine.sane_reach hs)
  · exact commitProtectedServer_atomic h hp (ServerMachine.healthy_reach hs).established scid nowMs
  · exact commitProfile3On_atomic h hp (DirectionalSession.sane_reach hs)
  · intro hissued hc hg
    refine ⟨?_, fun id epoch slot at_ r ha => h.record hissued hc hg ha⟩
    obtain ⟨w₀, -, horigin⟩ := h.origin hissued
    obtain ⟨call, hcall⟩ := horigin.preview
    exact h.ready hp (previewed_eq_some hcall).2.2.1 hg
  · obtain ⟨cs, hr⟩ := DirectionalSession.sane_reach hs
    refine ⟨fun preview hpreview => ?_, fun preview hpreview => ?_⟩
    · obtain ⟨-, htoken⟩ := ReplayWindow.preview_eq_ok hr (preview_opens hpreview).1.replay
      rw [htoken]
    · obtain ⟨-, htoken⟩ := ReplayWindow.preview_eq_ok hr (previewProfile3Data_opens hpreview).1.replay
      rw [htoken]

end World

namespace Sample

/-- A LOC_UPDATE of the peer in the first packet of a session. -/
def previewUpdate : Call :=
  let plaintext := (Scenario.signedUpdate Scenario.start.state 1 1).encode
  .previewProtected plaintext (Scenario.bindingOf 0) ⟨some ⟨plaintext, ⟨1, 0⟩, 0⟩, false⟩
    (fun _ => true) 1000

def previewed : World := Scenario.start.step .sample Scenario.manager previewUpdate

def session : DirectionalSession := .new 0 (bytesOf 32 1) (bytesOf 32 2) (bytesOf 32 3) 1280

end Sample

theorem controls_received_atomically_update :
    ∃ p ∈ Sample.previewed.issued,
      let r := Scenario.manager.commitProtected Sample.previewed.state p.transition
        Sample.session
      r.1.proposals.length = 1 ∧ ∃ preview, p.transition.protectedProof =
        some ⟨some preview, false⟩ ∧ Marks Sample.session r.2.1 preview.commit.counter := by
  have hr : World.Reach .sample Scenario.manager Scenario.secret (fun _ _ => True)
      Sample.previewed := .next (.start Scenario.starts) ⟨trivial, trivial⟩
  have hp : ∃ p ∈ Sample.previewed.issued,
      (Scenario.manager.commitProtected Sample.previewed.state p.transition
        Sample.session).2.2 = .ok () ∧
      (Scenario.manager.commitProtected Sample.previewed.state p.transition
        Sample.session).1.proposals.length = 1 := by decide +kernel
  obtain ⟨p, hmem, hok, hlen⟩ := hp
  have hs : DirectionalSession.Reach .sample Sample.session := .start ⟨_, _, _, _, _, rfl⟩
  have h := World.controls_received_atomically hr (.inl hmem)
  obtain ⟨preview, hproof, -, hmarks, -⟩ := ((h.1 _ hs).1.mp hok)
  exact ⟨p, hmem, hlen, preview, hproof, hmarks⟩

end R8.Mobility
