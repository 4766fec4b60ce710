import R8Protocol.Redundant.Healthy
import R8Protocol.Redundant.Scenario

/-! The authority over slot one: who issues, spends and accepts it, over any number of sessions and
managers. -/
namespace R8.Redundant

open FixedWidth Wire Session Mobility

section

variable {C : Crypto} {g : Option ℕ} {s s' : RedundantSession} {leases : Leases}
  {calls : List SealCall} {admission : Profile3Admission} {budget owner : ℕ}

/-- What an activation needs of the session it is asked of. -/
structure Accepts (s : RedundantSession) (admission : Profile3Admission) : Prop where
  active : s.state = .active
  absent : (s.paths 1).state = .absent
  issuer : ∃ i ∈ s.admissionIssuer, i.capability = admission.owner.capability
  bound : ∃ b d, s.bootstrap = some b ∧ (s.paths 0).session = some d ∧ admission.scid = b.scid ∧
    admission.owner.replayBinding = d.profile3ReplayBinding

/-- All but a dead preview is as it was. -/
structure Untouched (leases : Leases) (s s' : RedundantSession) : Prop where
  rest : s' = { s with receivePreview := s'.receivePreview }
  preview : s'.receivePreview = s.receivePreview ∨
    s'.receivePreview = none ∧ ∃ lease, s.receivePreview = some lease ∧ ¬ leases.isActive lease

theorem Untouched.refl (leases : Leases) (s : RedundantSession) : Untouched leases s s :=
  ⟨rfl, .inl rfl⟩

theorem untouched_reap (s : RedundantSession) (leases : Leases) :
    Untouched leases s (s.reapPreview leases) := by
  unfold RedundantSession.reapPreview
  split
  · rename_i h
    simp only [Option.any_eq_true, decide_eq_true_eq] at h
    exact ⟨rfl, .inr ⟨rfl, h⟩⟩
  · exact .refl leases s

/-- With the roles paired, slot one is made whenever its schedule is there. -/
theorem takeSlot1AfterAdmission_error {b : Profile3Bootstrap} (hb : Paired b)
    (h : ∀ d, (b.takeSlot1AfterAdmission C owner).2 = .ok d → ¬ d.canReserve) :
    (b.takeSlot1AfterAdmission C owner).1 = b := by
  unfold Profile3Bootstrap.takeSlot1AfterAdmission at h ⊢
  split
  · rfl
  · rename_i schedule hs
    obtain ⟨hl, hp, hne⟩ := hb
    simp only [hs, deriveKeyFromPrk, hl, hp, hne, hne.symm, not_true_eq_false, false_or, if_false,
      show ¬ (1 : Byte) < 1 by decide, bind, Except.bind] at h
    exact absurd rfl (h _ rfl)

theorem reap_frame (s : RedundantSession) (leases : Leases) :
    (s.reapPreview leases).paths = s.paths ∧ (s.reapPreview leases).bootstrap = s.bootstrap ∧
      (s.reapPreview leases).admissionIssuer = s.admissionIssuer := by
  unfold RedundantSession.reapPreview
  split <;> exact ⟨rfl, rfl, rfl⟩

/-- An activation takes slot one into use, or leaves everything but a dead preview alone. -/
theorem activate_cases (C : Crypto) (leases : Leases) (admission : Profile3Admission)
    (budget owner : ℕ) (hpaired : ∀ b ∈ s.bootstrap, Paired b) :
    let r := s.activate C leases admission budget owner
    (r.2 = .ok () ∧ Accepts s admission ∧ (r.1.paths 1).state = .active) ∨
    (∃ e, r.2 = .error e) ∧ Untouched leases s r.1 := by
  unfold RedundantSession.activate
  split
  · exact .inr ⟨⟨_, rfl⟩, .refl leases s⟩
  · split
    · exact .inr ⟨⟨_, rfl⟩, .refl leases s⟩
    · rename_i hactive
      push Not at hactive
      have hr := untouched_reap s leases
      obtain ⟨hpaths, hboot, hissuer⟩ := reap_frame s leases
      dsimp only
      generalize s.reapPreview leases = t at hr hpaths hboot hissuer ⊢
      split
      · exact .inr ⟨⟨_, rfl⟩, hr⟩
      · rename_i hguard
        push Not at hguard
        split
        · exact .inr ⟨⟨_, rfl⟩, hr⟩
        · have hcases := Moves.takeSlot1_cases C t admission owner
          generalize t.takeSlot1 C admission owner = r at hcases ⊢
          rcases hcases with ⟨hsame, e, he⟩ | ⟨b, slot0, hb, h0, hscid, hi, hbound, hspent, hcases⟩
          · obtain ⟨u, e' | d⟩ := r
            · obtain rfl : u = t := hsame
              exact .inr ⟨⟨_, rfl⟩, hr⟩
            · simp at he
          · obtain ⟨u, e' | d⟩ := r
            · obtain rfl : u = _ := hspent
              obtain ⟨e, -, hno⟩ := hcases.resolve_right (by simp)
              have hsame := takeSlot1AfterAdmission_error (hpaired b (hboot ▸ hb)) hno
              refine .inr ⟨⟨_, rfl⟩, ?_⟩
              rw [hsame, ← hb]
              exact hr
            · obtain ⟨i, hi, hadmits⟩ := hi
              rw [hpaths] at hguard h0
              rw [hboot] at hb
              rw [hissuer] at hi
              refine .inl ⟨rfl, ⟨hactive, hguard.1, ⟨i, hi, ?_⟩, b, slot0, hb, h0, hscid, hbound⟩, ?_⟩
              · simpa [Profile3AdmissionIssuer.admits] using hadmits
              · simp [RedundantSession.event, RedundantSession.setPath]

theorem Move.issuer (h : Move C g s calls s') : s'.admissionIssuer = s.admissionIssuer ∨
    s'.admissionIssuer = none ∨ ∃ c, g = some c ∧ s'.admissionIssuer = some ⟨c⟩ := by
  cases h with
  | frame hf => exact hf.issuer.imp_right .inl
  | issue c hg => exact .inr (.inr ⟨c, hg, rfl⟩)
  | remember id bytes nowMs =>
    obtain ⟨dedup, hframe⟩ := remember_frame C s id bytes nowMs
    rw [hframe]
    exact .inl rfl
  | close hc => exact .inr (.inl hc.issuer)
  | _ => exact .inl rfl

theorem Moves.issuer (h : Moves C g s calls s') : s'.admissionIssuer = s.admissionIssuer ∨
    s'.admissionIssuer = none ∨ ∃ c, g = some c ∧ s'.admissionIssuer = some ⟨c⟩ := by
  induction h with
  | refl => exact .inl rfl
  | tail _ hm ih =>
    rcases hm.issuer with h | h | h
    · rw [h]
      exact ih
    · exact .inr (.inl h)
    · exact .inr (.inr h)

/-- An owner comes with the capability its session will accept. -/
theorem issueOwner_cases (s : RedundantSession) (policyId : U32) (ownerLive : Bool)
    (capability : ℕ) :
    let r := s.issueProfile3AdmissionOwner policyId ownerLive capability
    (∃ o, r.2 = .ok o ∧ o.capability = capability ∧ r.1.admissionIssuer = some ⟨capability⟩) ∨
    (∃ e, r.2 = .error e) ∧
      (r.1.admissionIssuer = s.admissionIssuer ∨ r.1.admissionIssuer = none) := by
  unfold RedundantSession.issueProfile3AdmissionOwner
  split
  · exact .inr ⟨⟨_, rfl⟩, .inl rfl⟩
  · split
    · exact .inr ⟨⟨_, rfl⟩, .inl rfl⟩
    · dsimp only
      split
      · split
        · exact .inr ⟨⟨_, rfl⟩, .inr rfl⟩
        · exact .inl ⟨_, rfl, rfl, rfl⟩
      · exact .inr ⟨⟨_, rfl⟩, .inr rfl⟩

end

namespace Fleet

variable {C : Crypto} {f f' : Fleet} {op : Op} {i j : ℕ} {w : World}

/-- The table of sessions after an operation. -/
theorem sessions_cases (C : Crypto) (f : Fleet) (op : Op) :
    (f.sessionCall op = none ∧ ((f.step C op).sessions = f.sessions ∨
      ∃ k b binding seed s, op = .new k b binding seed ∧
        RedundantSession.new b binding seed k = .ok s ∧
        (f.step C op).sessions = Function.update f.sessions k (some (.start s)))) ∨
    ∃ k call, f.sessionCall op = some (k, call) ∧ (f.step C op).sessions =
      Function.update f.sessions k ((f.sessions k).map fun w => w.step C call) := by
  have hother : (f.step C op).sessions =
        Machine.stepAt (World.step C) f.sessions (f.sessionCall op) →
      (f.sessionCall op = none ∧ ((f.step C op).sessions = f.sessions ∨
        ∃ k b binding seed s, op = .new k b binding seed ∧
          RedundantSession.new b binding seed k = .ok s ∧
          (f.step C op).sessions = Function.update f.sessions k (some (.start s)))) ∨
      ∃ k call, f.sessionCall op = some (k, call) ∧ (f.step C op).sessions =
        Function.update f.sessions k ((f.sessions k).map fun w => w.step C call) := by
    intro h
    cases hcall : f.sessionCall op with
    | none =>
      rw [hcall] at h
      exact .inl ⟨rfl, .inl h⟩
    | some x =>
      rw [hcall] at h
      exact .inr ⟨x.1, x.2, rfl, h⟩
  cases op with
  | new k b binding seed =>
    refine .inl ⟨rfl, ?_⟩
    cases hs : RedundantSession.new b binding seed k with
    | error e =>
      left
      simp only [step, sessionsAfter, hs]
    | ok s =>
      right
      exact ⟨k, b, binding, seed, s, rfl, hs, by simp only [step, sessionsAfter, hs]⟩
  | _ => exact hother rfl

/-- The table of managers after an operation. -/
theorem managers_cases (C : Crypto) (f : Fleet) (op : Op) :
    (f.managerCall C op = none ∧ ((f.step C op).managers = f.managers ∨
      ∃ k config owner m s, op = .newManager k config owner ∧
        newInner C config (some owner) none k = .ok (m, s) ∧
        (f.step C op).managers = Function.update f.managers k (some (m, ⟨s, [], 0, [], [], []⟩)))) ∨
    ∃ k call, f.managerCall C op = some (k, call) ∧ (f.step C op).managers =
      Function.update f.managers k ((f.managers k).map fun x => (x.1, x.2.step C x.1 call)) := by
  have hother : (f.step C op).managers = Machine.stepAt (fun x call => (x.1, x.2.step C x.1 call))
        f.managers (f.managerCall C op) →
      (f.managerCall C op = none ∧ ((f.step C op).managers = f.managers ∨
        ∃ k config owner m s, op = .newManager k config owner ∧
          newInner C config (some owner) none k = .ok (m, s) ∧ (f.step C op).managers =
            Function.update f.managers k (some (m, ⟨s, [], 0, [], [], []⟩)))) ∨
      ∃ k call, f.managerCall C op = some (k, call) ∧ (f.step C op).managers =
        Function.update f.managers k ((f.managers k).map fun x => (x.1, x.2.step C x.1 call)) := by
    intro h
    cases hcall : f.managerCall C op with
    | none =>
      rw [hcall] at h
      exact .inl ⟨rfl, .inl h⟩
    | some x =>
      rw [hcall] at h
      exact .inr ⟨x.1, x.2, rfl, h⟩
  cases op with
  | newManager k config owner =>
    refine .inl ⟨rfl, ?_⟩
    cases hs : newInner C config (some owner) none k with
    | error e =>
      left
      simp only [step, managersAfter, hs]
    | ok r =>
      right
      exact ⟨k, config, owner, r.1, r.2, rfl, hs, by simp only [step, managersAfter, hs]⟩
  | _ => exact hother rfl

/-- Owners are passed on and never copied: each has a capability of its own, and is held by a caller
or was taken by one manager. -/
structure Owners (f : Fleet) : Prop where
  distinct : ∀ x ∈ f.issued, ∀ y ∈ f.issued, x.2.capability = y.2.capability → x = y
  held : ∀ o ∈ f.owners, ∃ i, (i, o) ∈ f.issued
  taken : ∀ x ∈ f.built, ∃ i, (i, x.2) ∈ f.issued
  nodup : f.owners.Nodup
  apart : ∀ x ∈ f.built, x.2 ∉ f.owners
  once : ∀ x ∈ f.built, ∀ y ∈ f.built, x.2 = y.2 → x = y

theorem issuedBy_eq_some {x : ℕ × Profile3AdmissionOwner} (h : f.issuedBy op = some x) :
    ∃ policyId ownerLive, op = .issueOwner x.1 policyId ownerLive x.2.capability := by
  cases op with
  | issueOwner i policyId ownerLive capability =>
    simp only [issuedBy, Option.bind_eq_some_iff, Option.map_eq_some_iff] at h
    obtain ⟨w, -, o, ho, rfl⟩ := h
    have hok := Outcome.toOption_eq_some.mp ho
    rcases issueOwner_cases w.session policyId ownerLive capability with ⟨o', ho', hcap, -⟩ |
      ⟨⟨e, he⟩, -⟩
    · obtain rfl := Except.ok.inj (hok.symm.trans ho')
      exact ⟨policyId, ownerLive, by rw [hcap]⟩
    · rw [hok] at he
      cases he
  | _ => simp [issuedBy] at h

theorem Owners.issue (hi : Owners f) {x : ℕ × Profile3AdmissionOwner}
    (hfresh : ∀ y ∈ f.issued, y.2.capability ≠ x.2.capability) :
    Owners { f with owners := x.2 :: f.owners, issued := x :: f.issued } := by
  have hnew : ∀ i, (i, x.2) ∉ f.issued := fun i h => hfresh _ h rfl
  refine ⟨?_, ?_, ?_, ?_, ?_, hi.once⟩
  · intro y hy z hz hcap
    rcases List.mem_cons.mp hy with rfl | hold <;> rcases List.mem_cons.mp hz with rfl | hold'
    · rfl
    · exact absurd hcap.symm (hfresh z hold')
    · exact absurd hcap (hfresh y hold)
    · exact hi.distinct y hold z hold' hcap
  · intro o ho
    rcases List.mem_cons.mp ho with rfl | ho
    · exact ⟨x.1, List.mem_cons_self⟩
    · obtain ⟨k, hk⟩ := hi.held o ho
      exact ⟨k, List.mem_cons_of_mem _ hk⟩
  · intro y hy
    obtain ⟨k, hk⟩ := hi.taken y hy
    exact ⟨k, List.mem_cons_of_mem _ hk⟩
  · refine List.nodup_cons.mpr ⟨?_, hi.nodup⟩
    intro hmem
    obtain ⟨k, hk⟩ := hi.held _ hmem
    exact hnew k hk
  · intro y hy hmem
    rcases List.mem_cons.mp hmem with heq | hmem
    · obtain ⟨k, hk⟩ := hi.taken y hy
      rw [heq] at hk
      exact hnew k hk
    · exact hi.apart y hy hmem

theorem Owners.build (hi : Owners f) {owner : Profile3AdmissionOwner} (ho : owner ∈ f.owners)
    {b : Option (ℕ × Profile3AdmissionOwner)} (hb : ∀ x ∈ b, x.2 = owner) :
    Owners { f with owners := f.owners.erase owner, built := b.toList ++ f.built } := by
  have hmem : ∀ x ∈ b.toList ++ f.built, x.2 = owner ∧ b = some x ∨ x ∈ f.built := by
    intro x hx
    rcases List.mem_append.mp hx with hx | hx
    · have hx := Option.mem_toList.mp hx
      exact .inl ⟨hb x hx, hx⟩
    · exact .inr hx
  have hgone : owner ∉ f.owners.erase owner := hi.nodup.not_mem_erase
  refine ⟨hi.distinct, fun o h => hi.held o (List.mem_of_mem_erase h), ?_, hi.nodup.erase _, ?_, ?_⟩
  · intro x hx
    rcases hmem x hx with ⟨hx, -⟩ | hx
    · rw [hx]
      exact hi.held owner ho
    · exact hi.taken x hx
  · intro x hx
    rcases hmem x hx with ⟨hx, -⟩ | hx
    · rw [hx]
      exact hgone
    · exact fun h => hi.apart x hx (List.mem_of_mem_erase h)
  · intro x hx y hy heq
    rcases hmem x hx with ⟨hxo, hx⟩ | hx <;> rcases hmem y hy with ⟨hyo, hy⟩ | hy
    · exact Option.some.inj (hx.symm.trans hy)
    · exact absurd ho (heq.symm.trans hxo ▸ hi.apart y hy)
    · exact absurd ho (heq.trans hyo ▸ hi.apart x hx)
    · exact hi.once x hx y hy heq

theorem Owners.next (hi : Owners f) (hok : Permitted C f op) : Owners (f.step C op) := by
  cases op with
  | issueOwner k policyId ownerLive capability =>
    cases hx : f.issuedBy (.issueOwner k policyId ownerLive capability) with
    | none =>
      have ho : (f.step C (.issueOwner k policyId ownerLive capability)).owners = f.owners := by
        simp [step, hx]
      have hd : (f.step C (.issueOwner k policyId ownerLive capability)).issued = f.issued := by
        simp [step, hx]
      exact ⟨hd ▸ hi.distinct, ho ▸ hd ▸ hi.held, hd ▸ hi.taken, ho ▸ hi.nodup, ho ▸ hi.apart,
        hi.once⟩
    | some x =>
      obtain ⟨_, _, heq⟩ := issuedBy_eq_some hx
      have hcap : capability = x.2.capability := by
        simp only [Op.issueOwner.injEq] at heq
        exact heq.2.2.2
      subst hcap
      obtain ⟨h₁, h₂, h₃, h₄, h₅, h₆⟩ := hi.issue (x := x) hok
      have ho : (f.step C (.issueOwner k policyId ownerLive x.2.capability)).owners =
        x.2 :: f.owners := by simp [step, hx]
      have hd : (f.step C (.issueOwner k policyId ownerLive x.2.capability)).issued =
        x :: f.issued := by simp [step, hx]
      exact ⟨hd ▸ h₁, ho ▸ hd ▸ h₂, hd ▸ h₃, ho ▸ h₄, ho ▸ h₅, h₆⟩
  | newManager k config owner =>
    obtain ⟨h₁, h₂, h₃, h₄, h₅, h₆⟩ := hi.build hok.2
      (b := builtBy C (.newManager k config owner)) (by
        intro x hx
        simp only [builtBy, Option.mem_def, Option.map_eq_some_iff] at hx
        obtain ⟨_, -, rfl⟩ := hx
        rfl)
    exact ⟨h₁, h₂, h₃, h₄, h₅, h₆⟩
  | _ => exact ⟨hi.distinct, hi.held, hi.taken, hi.nodup, hi.apart, hi.once⟩

theorem Reach.owners (h : Reach C f) : Owners f := by
  induction h with
  | start h =>
    subst h
    exact ⟨by simp [empty], by simp [empty], by simp [empty], by simp [empty], by simp [empty],
      by simp [empty]⟩
  | next _ hok ih => exact ih.next hok

/-- What a manager holds of the authority agrees with what it was given and what it has minted. -/
structure Holds (f : Fleet) (j : ℕ) (m : Manager) (x : Authority) : Prop where
  unspent : x.admitted = false → x.admission = none ∧ ∀ a, (j, a) ∉ f.minted
  spent : x.admitted = true → x.owner = none
  owner : ∀ o ∈ x.owner, (j, o) ∈ f.built ∧ o.scid = m.scid
  admission : ∀ a ∈ x.admission, (j, a) ∈ f.minted

structure Minting (f : Fleet) : Prop where
  holds : ∀ j m mw, f.managers j = some (m, mw) → Holds f j m mw.state.authority
  nodup : (f.minted.map Prod.fst).Nodup
  built : ∀ x ∈ f.minted, (x.1, x.2.owner) ∈ f.built ∧ x.2.scid = x.2.owner.scid
  named : ∀ x ∈ f.minted, f.managers x.1 ≠ none
  taken : ∀ a ∈ f.admissions, ∃ j, (j, a) ∈ f.minted

/-- What an operation adds to the record of a manager leaves the others alone. -/
theorem Holds.mono {m : Manager} {x : Authority} (h : Holds f j m x)
    (hb : ∀ y ∈ f.built, y ∈ f'.built) (hm : ∀ y ∈ f.minted, y ∈ f'.minted)
    (hnew : ∀ a, (j, a) ∈ f'.minted → (j, a) ∈ f.minted) : Holds f' j m x := by
  refine ⟨?_, h.spent, fun o ho => ⟨hb _ (h.owner o ho).1, (h.owner o ho).2⟩,
    fun a ha => hm _ (h.admission a ha)⟩
  intro hx
  obtain ⟨hnone, hno⟩ := h.unspent hx
  exact ⟨hnone, fun a ha => hno a (hnew a ha)⟩

theorem managers_kept (hok : Permitted C f op) (h : f.managers j ≠ none) :
    (f.step C op).managers j ≠ none := by
  obtain ⟨⟨m, mw⟩, hm⟩ := Option.ne_none_iff_exists'.mp h
  obtain ⟨mw', hm', -⟩ := managers_mono hok hm
  simp [hm']

theorem built_mono (x : ℕ × Profile3AdmissionOwner) (h : x ∈ f.built) : x ∈ (f.step C op).built :=
  List.mem_append_right _ h

/-- A manager hands out only what it holds. -/
theorem takeProfile3Admissions_held {s : State} {a : Profile3Admission}
    (h : a ∈ s.takeProfile3Admissions.2) : s.profile3Admission = some a := by
  unfold State.takeProfile3Admissions at h
  split at h
  · simp at h
  · exact Option.mem_toList.mp h

/-- Admissions in the callers' hands came out of a manager. -/
theorem taken_step (hi : Minting f) {a : Profile3Admission} (h : a ∈ (f.step C op).admissions) :
    ∃ j, (j, a) ∈ f.minted := by
  have hother : a ∈ f.takenBy op ++ f.admissions → ∃ j, (j, a) ∈ f.minted := by
    intro h
    rcases List.mem_append.mp h with h | h
    · cases op with
      | manager k call =>
        cases call with
        | takeProfile3Admissions =>
          simp only [takenBy] at h
          cases hm : f.managers k with
          | none => simp [hm] at h
          | some x =>
            simp only [hm, Option.map_some, Option.getD_some] at h
            exact ⟨k, (hi.holds k x.1 x.2 hm).admission a (takeProfile3Admissions_held h)⟩
        | _ => simp [takenBy] at h
      | _ => simp [takenBy] at h
    · exact hi.taken a h
  cases op with
  | activate k admission budget owner => exact hi.taken a (List.mem_of_mem_erase h)
  | _ => exact hother h

/-- An operation that mints nothing. -/
theorem Minting.quiet (hi : Minting f) (hok : Permitted C f op) (hnone : f.mintedBy C op = none)
    (hh : ∀ j m mw, (f.step C op).managers j = some (m, mw) →
      Holds (f.step C op) j m mw.state.authority) : Minting (f.step C op) := by
  have hminted : (f.step C op).minted = f.minted := by simp [step, hnone]
  refine ⟨hh, hminted ▸ hi.nodup, ?_, ?_, ?_⟩
  · intro x hx
    rw [hminted] at hx
    exact ⟨built_mono _ (hi.built x hx).1, (hi.built x hx).2⟩
  · intro x hx
    rw [hminted] at hx
    exact managers_kept hok (hi.named x hx)
  · intro a ha
    rw [hminted]
    exact taken_step hi ha

theorem Minting.newManager (hi : Minting f) {k : ℕ} {config : ManagerConfig}
    {owner : Profile3AdmissionOwner} {m : Manager} {s : State}
    (hok : Permitted C f (.newManager k config owner))
    (hs : newInner C config (some owner) none k = .ok (m, s))
    (hmanagers : (f.step C (.newManager k config owner)).managers =
      Function.update f.managers k (some (m, ⟨s, [], 0, [], [], []⟩))) :
    Minting (f.step C (.newManager k config owner)) := by
  have hfresh : ∀ a, (k, a) ∉ f.minted := fun a ha => hi.named _ ha hok.1
  refine hi.quiet hok rfl ?_
  intro j m' mw' hm
  rw [hmanagers] at hm
  by_cases hj : j = k
  · subst hj
    simp only [Function.update_self, Option.some.injEq, Prod.mk.injEq] at hm
    obtain ⟨rfl, rfl⟩ := hm
    obtain ⟨-, -, hscid, rfl⟩ := newInner_eq_ok hs
    refine ⟨fun _ => ⟨rfl, hfresh⟩, fun h => absurd h (by simp [State.authority, initialState]),
      ?_, fun a ha => absurd ha (by simp [State.authority, initialState])⟩
    intro o ho
    obtain rfl : owner = o := by simpa [State.authority, initialState] using ho
    refine ⟨List.mem_append_left _ ?_, hscid.symm⟩
    simp [builtBy, hs, Except.toOption]
  · rw [Function.update_of_ne hj] at hm
    exact (hi.holds j m' mw' hm).mono built_mono (fun _ h => h) fun _ h => h

theorem mintedBy_call {k : ℕ} {call : Mobility.Call} {m : Manager} {mw : Mobility.World}
    (hcall : f.managerCall C op = some (k, call)) (hm : f.managers k = some (m, mw)) :
    f.mintedBy C op = if mw.state.profile3Slot1Admitted then none
      else (mw.step C m call).state.profile3Admission.map (k, ·) := by
  simp only [mintedBy, hcall, hm, Option.bind_some]

/-- An operation that calls a manager. -/
theorem Minting.call (hi : Minting f) (hok : Permitted C f op) {k : ℕ} {call : Mobility.Call}
    {m : Manager} {mw : Mobility.World} (hm : f.managers k = some (m, mw)) (h3 : m.profile = 3)
    (hcall : f.managerCall C op = some (k, call)) (hmanagers : (f.step C op).managers =
      Function.update f.managers k (some (m, mw.step C m call))) : Minting (f.step C op) := by
  have hk := hi.holds k m mw hm
  have hmint := mintedBy_call hcall hm
  have hother : ∀ j m' mw', j ≠ k → (∀ a, (j, a) ∈ (f.step C op).minted → (j, a) ∈ f.minted) →
      (f.step C op).managers j = some (m', mw') → Holds (f.step C op) j m' mw'.state.authority := by
    intro j m' mw' hj hnew hm'
    rw [hmanagers, Function.update_of_ne hj] at hm'
    exact (hi.holds j m' mw' hm').mono built_mono (fun y hy => List.mem_append_right _ hy) hnew
  have hself : ∀ m' mw', (f.step C op).managers k = some (m', mw') → m' = m ∧
      mw' = mw.step C m call := by
    intro m' mw' hm'
    rw [hmanagers, Function.update_self, Option.some.injEq, Prod.mk.injEq] at hm'
    exact ⟨hm'.1.symm, hm'.2.symm⟩
  cases Mobility.World.step_authority (C := C) h3 mw call with
  | keep ha ho hd =>
    have hnone : f.mintedBy C op = none := by
      rw [hmint]
      split
      · rfl
      · rename_i hx
        have hx : mw.state.authority.admitted = false := by simpa [State.authority] using hx
        rw [(hk.unspent hx).1, or_self] at hd
        change (mw.step C m call).state.profile3Admission = none at hd
        rw [hd, Option.map_none]
    have hminted : (f.step C op).minted = f.minted := by simp [step, hnone]
    refine hi.quiet hok hnone ?_
    intro j m' mw' hm'
    by_cases hj : j = k
    · subst hj
      obtain ⟨rfl, rfl⟩ := hself m' mw' hm'
      refine ⟨?_, ?_, ?_, ?_⟩
      · intro hx
        rw [ha] at hx
        obtain ⟨hnone, hno⟩ := hk.unspent hx
        rw [hnone, or_self] at hd
        rw [hminted]
        exact ⟨hd, hno⟩
      · intro hx
        rw [ha] at hx
        rcases ho with ho | ho
        · rw [ho]
          exact hk.spent hx
        · exact ho
      · intro o hmem
        rcases ho with ho | ho
        · rw [ho] at hmem
          exact ⟨built_mono _ (hk.owner o hmem).1, (hk.owner o hmem).2⟩
        · simp [ho] at hmem
      · intro a hmem
        rw [hminted]
        rcases hd with hd | hd
        · rw [hd] at hmem
          exact hk.admission a hmem
        · simp [hd] at hmem
    · exact hother j m' mw' hj (fun a h => hminted ▸ h) hm'
  | mint a hx ho hscid hcause hy hspent hd =>
    obtain ⟨-, hno⟩ := hk.unspent hx
    obtain ⟨hbuilt, hsame⟩ := hk.owner a.owner (by simp [ho])
    have hmint' : ∀ y ∈ f.mintedBy C op, y = (k, a) := by
      intro y hy'
      rw [hmint] at hy'
      split at hy'
      · simp at hy'
      · rcases hd with hd | hd
        · change (mw.step C m call).state.profile3Admission = some a at hd
          simp only [hd, Option.map_some, Option.mem_def, Option.some.injEq] at hy'
          exact hy'.symm
        · change (mw.step C m call).state.profile3Admission = none at hd
          simp [hd] at hy'
    have hmem : ∀ y ∈ (f.step C op).minted, y = (k, a) ∨ y ∈ f.minted := by
      intro y hy'
      rcases List.mem_append.mp hy' with hy' | hy'
      · exact .inl (hmint' y (Option.mem_toList.mp hy'))
      · exact .inr hy'
    refine ⟨?_, ?_, ?_, ?_, ?_⟩
    · intro j m' mw' hm'
      by_cases hj : j = k
      · subst hj
        obtain ⟨rfl, rfl⟩ := hself m' mw' hm'
        refine ⟨fun h => absurd h (by simp [hy]), fun _ => hspent, ?_, ?_⟩
        · intro o hmem
          simp [hspent] at hmem
        · intro b hb
          have hx : mw.state.profile3Slot1Admitted = false := hx
          refine List.mem_append_left _ (Option.mem_toList.mpr ?_)
          rw [hmint, hx]
          change (mw.step C m' call).state.profile3Admission = some b at hb
          simp [hb]
      · refine hother j m' mw' hj ?_ hm'
        intro b hb
        rcases hmem _ hb with heq | hb
        · exact absurd (Prod.mk.inj heq).1 hj
        · exact hb
    · cases hadd : f.mintedBy C op with
      | none =>
        have : (f.step C op).minted = f.minted := by simp [step, hadd]
        rw [this]
        exact hi.nodup
      | some y =>
        obtain rfl := hmint' y hadd
        have : (f.step C op).minted = (k, a) :: f.minted := by simp [step, hadd]
        rw [this, List.map_cons, List.nodup_cons]
        refine ⟨?_, hi.nodup⟩
        intro hin
        obtain ⟨⟨_, b⟩, hb, rfl⟩ := List.mem_map.mp hin
        exact hno b hb
    · intro y hy'
      rcases hmem y hy' with rfl | hy'
      · exact ⟨built_mono _ hbuilt, hscid.trans hsame.symm⟩
      · exact ⟨built_mono _ (hi.built y hy').1, (hi.built y hy').2⟩
    · intro y hy'
      rcases hmem y hy' with rfl | hy'
      · exact managers_kept hok (by simp [hm])
      · exact managers_kept hok (hi.named y hy')
    · intro b hb
      obtain ⟨j, hj⟩ := taken_step hi hb
      exact ⟨j, List.mem_append_right _ hj⟩

theorem Minting.next (hr : Reach C f) (hi : Minting f) (hok : Permitted C f op) :
    Minting (f.step C op) := by
  have hsame : (f.step C op).managers = f.managers → f.mintedBy C op = none →
      Minting (f.step C op) := by
    intro hmanagers hnone
    refine hi.quiet hok hnone ?_
    intro j m mw hm
    rw [hmanagers] at hm
    refine (hi.holds j m mw hm).mono built_mono (fun y hy => List.mem_append_right _ hy) ?_
    intro a ha
    simpa [step, hnone] using ha
  rcases managers_cases C f op with ⟨hcall, hmanagers | ⟨k, config, owner, m, s, rfl, hs, hmanagers⟩⟩ |
    ⟨k, call, hcall, hmanagers⟩
  · exact hsame hmanagers (by simp [mintedBy, hcall])
  · exact hi.newManager hok hs hmanagers
  · cases hm : f.managers k with
    | none =>
      rw [hm, Option.map_none] at hmanagers
      refine hsame ?_ (by simp [mintedBy, hcall, hm])
      rw [hmanagers, ← hm, Function.update_eq_self]
    | some x =>
      rw [hm] at hmanagers
      exact hi.call hok (by exact hm) (hr.manager (by exact hm)).2.1 hcall hmanagers

theorem Reach.minting (h : Reach C f) : Minting f := by
  induction h with
  | start h =>
    subst h
    exact ⟨by simp [empty], by simp [empty], by simp [empty], by simp [empty], by simp [empty]⟩
  | next hr hok ih => exact ih.next hr hok

/-- The step in which an admission was minted, and why. -/
structure MintedAt (C : Crypto) (f : Fleet) (j : ℕ) (a : Profile3Admission) (f₀ : Fleet) (op : Op) :
    Prop where
  reach : Reach C f₀
  permitted : Permitted C f₀ op
  run : Machine.Run (step C) (Permitted C) (f₀.step C op) f
  minted : f₀.mintedBy C op = some (j, a)
  cause : ∃ m mw call, f₀.managers j = some (m, mw) ∧ f₀.managerCall C op = some (j, call) ∧
    ((∃ t ∈ mw.attempts m call, Mobility.World.SettlesProven t.before a) ∨
      ∃ p, mw.committed m call = some p ∧ Mobility.World.PromotesLocal C m mw p a)

theorem mintedBy_cause (hr : Reach C f) (hok : Permitted C f op) {a : Profile3Admission}
    (h : f.mintedBy C op = some (j, a)) :
    ∃ m mw call, f.managers j = some (m, mw) ∧ f.managerCall C op = some (j, call) ∧
      ((∃ t ∈ mw.attempts m call, Mobility.World.SettlesProven t.before a) ∨
        ∃ p, mw.committed m call = some p ∧ Mobility.World.PromotesLocal C m mw p a) := by
  have h₀ := h
  simp only [mintedBy, Option.bind_eq_some_iff] at h
  obtain ⟨⟨k, call⟩, hcall, ⟨m, mw⟩, hm, hstep⟩ := h
  dsimp only at hm hstep
  split at hstep
  · simp at hstep
  · rename_i hx
    obtain ⟨b, hb, heq⟩ := Option.map_eq_some_iff.mp hstep
    obtain ⟨rfl, rfl⟩ := Prod.mk.inj heq
    obtain ⟨-, h3, secret, hreach⟩ := hr.manager hm
    refine ⟨m, mw, call, hm, hcall, ?_⟩
    have hx : mw.state.authority.admitted = false := by simpa [State.authority] using hx
    have hb : (mw.step C m call).state.authority.admission = some b := hb
    cases Mobility.World.step_authority (C := C) h3 mw call with
    | keep ha ho hd =>
      rw [((hr.minting.holds k m mw hm).unspent hx).1, hb] at hd
      simp at hd
    | mint a' _ _ _ hcause _ _ hd =>
      rw [hb] at hd
      obtain rfl : b = a' := by simpa using hd
      exact hcause.cause hreach (owned_of_managerCall hok hcall hm)

theorem Reach.mintedAt (h : Reach C f) {a : Profile3Admission} (hm : (j, a) ∈ f.minted) :
    ∃ f₀ op, MintedAt C f j a f₀ op := by
  induction h with
  | start h =>
    subst h
    simp [empty] at hm
  | @next f op hr hok ih =>
    rcases List.mem_append.mp hm with hm | hm
    · have hminted := Option.mem_toList.mp hm
      exact ⟨f, op, hr, hok, .start rfl, hminted, mintedBy_cause hr hok hminted⟩
    · obtain ⟨f₀, op₀, h₀, hok₀, hrun, hminted, hcause⟩ := ih hm
      exact ⟨f₀, op₀, h₀, hok₀, .next hrun hok, hminted, hcause⟩

/-- A session stays, and every step of the fleet is none of its own or one call. -/
theorem sessions_mono (hok : Permitted C f op) (hw : f.sessions i = some w) :
    (f.step C op).sessions i = some w ∨ ∃ call, f.sessionCall op = some (i, call) ∧
      w.Owned call ∧ (f.step C op).sessions i = some (w.step C call) := by
  rcases sessions_cases C f op with ⟨-, hs | ⟨k, b, binding, seed, s, rfl, -, hs⟩⟩ | ⟨k, call, hcall, hs⟩
  · exact .inl (by rw [hs, hw])
  · have hk : i ≠ k := by
      rintro rfl
      simp [hok.1] at hw
    exact .inl (by rw [hs, Function.update_of_ne hk, hw])
  · by_cases hk : i = k
    · subst hk
      exact .inr ⟨call, hcall, owned_of_permitted hok hcall hw, by simp [hs, hw]⟩
    · exact .inl (by rw [hs, Function.update_of_ne hk, hw])

theorem run_session (h : Machine.Run (step C) (Permitted C) f f') (hw : f.sessions i = some w) :
    ∃ w', f'.sessions i = some w' ∧ Machine.Run (World.step C) World.Owned w w' := by
  induction h with
  | start h => exact ⟨w, h ▸ hw, .start rfl⟩
  | next _ hok ih =>
    obtain ⟨w', hw', hrun⟩ := ih
    rcases sessions_mono hok hw' with h | ⟨call, -, ho, h⟩
    · exact ⟨w', h, hrun⟩
    · exact ⟨_, h, .next hrun ho⟩

/-- The capability a session accepts is that of the owner it issued last. -/
def LastIssued (f : Fleet) : Prop := ∀ i w, f.sessions i = some w →
  ∀ k ∈ w.session.admissionIssuer, ∃ o, f.issued.find? (·.1 = i) = some (i, o) ∧
    o.capability = k.capability

theorem LastIssued.issue (hi : LastIssued f) (k : ℕ) (policyId : U32) (ownerLive : Bool)
    (capability : ℕ) : LastIssued (f.step C (.issueOwner k policyId ownerLive capability)) := by
  intro i w' hw' x hx
  have hsessions : (f.step C (.issueOwner k policyId ownerLive capability)).sessions =
      Function.update f.sessions k
        ((f.sessions k).map fun w => w.step C (.issueOwner policyId ownerLive capability)) := rfl
  rw [hsessions] at hw'
  by_cases hik : i = k
  · subst hik
    rw [Function.update_self, Option.map_eq_some_iff] at hw'
    obtain ⟨w, hw, rfl⟩ := hw'
    change x ∈ (w.session.issueProfile3AdmissionOwner policyId ownerLive
      capability).1.admissionIssuer at hx
    rcases issueOwner_cases w.session policyId ownerLive capability with ⟨o, hok, hcap, hissuer⟩ |
      ⟨⟨e, he⟩, hissuer⟩
    · rw [hissuer] at hx
      obtain rfl := Option.some.inj hx
      refine ⟨o, ?_, hcap⟩
      simp [step, issuedBy, hw, hok, Except.toOption]
    · have hissued : (f.step C (.issueOwner i policyId ownerLive capability)).issued = f.issued := by
        simp [step, issuedBy, hw, he, Except.toOption]
      rw [hissued]
      rcases hissuer with hissuer | hissuer
      · rw [hissuer] at hx
        exact hi i w hw x hx
      · simp [hissuer] at hx
  · rw [Function.update_of_ne hik] at hw'
    obtain ⟨o, ho, hcap⟩ := hi i w' hw' x hx
    refine ⟨o, ?_, hcap⟩
    -- A newer owner of another session stands in front.
    cases hadd : f.issuedBy (.issueOwner k policyId ownerLive capability) with
    | none => simpa [step, hadd] using ho
    | some y =>
      obtain ⟨_, _, heq⟩ := issuedBy_eq_some hadd
      have hy : y.1 = k := by
        simp only [Op.issueOwner.injEq] at heq
        exact heq.1.symm
      have hne : y.1 ≠ i := fun h => hik (h.symm.trans hy)
      simpa [step, hadd, hne] using ho

theorem capability_of_alone {call : Call} (h : call.alone = true) : World.capability? call = none := by
  cases call <;> first | rfl | simp [Call.alone] at h

theorem LastIssued.next (hi : LastIssued f) (hok : Permitted C f op) : LastIssued (f.step C op) := by
  have hother : f.issuedBy op = none →
      (∀ k call, f.sessionCall op = some (k, call) → World.capability? call = none) →
      LastIssued (f.step C op) := by
    intro hnone hcap i w' hw' x hx
    have hissued : (f.step C op).issued = f.issued := by simp [step, hnone]
    rw [hissued]
    rcases sessions_step hw' with hw | ⟨b, binding, seed, s, -, hs, rfl⟩ | ⟨w, call, hw, hcall, rfl⟩
    · exact hi i w' hw x hx
    · obtain ⟨d, -, -, hstarted⟩ := new_eq_ok hs
      change x ∈ s.admissionIssuer at hx
      simp [hstarted.issuer] at hx
    · have hmoves := World.step_moves C w call
      rw [hcap i call hcall] at hmoves
      rcases hmoves.issuer with h | h | ⟨c, hc, -⟩
      · rw [h] at hx
        exact hi i w hw x hx
      · simp [h] at hx
      · cases hc
  cases op with
  | issueOwner k policyId ownerLive capability => exact hi.issue k policyId ownerLive capability
  | session k call =>
    refine hother rfl ?_
    intro k' call' hcall
    obtain ⟨rfl, rfl⟩ := Prod.mk.inj (Option.some.inj hcall)
    exact capability_of_alone hok.1
  | new => exact hother rfl (by simp [sessionCall])
  | activate =>
    refine hother rfl ?_
    intro k' call' hcall
    obtain ⟨rfl, rfl⟩ := Prod.mk.inj (Option.some.inj hcall)
    rfl
  | newManager => exact hother rfl (by simp [sessionCall])
  | manager => exact hother rfl (by simp [sessionCall])
  | prepareMobilityCommit =>
    refine hother rfl ?_
    intro k' call' hcall
    obtain ⟨x, -, hx⟩ := Option.map_eq_some_iff.mp hcall
    obtain ⟨rfl, rfl⟩ := Prod.mk.inj hx
    rfl
  | commitMobility =>
    refine hother rfl ?_
    intro k' call' hcall
    obtain ⟨x, -, hx⟩ := Option.map_eq_some_iff.mp hcall
    obtain ⟨rfl, rfl⟩ := Prod.mk.inj hx
    rfl

theorem Reach.lastIssued (h : Reach C f) : LastIssued f := by
  induction h with
  | start h =>
    subst h
    intro i w hw
    simp [empty] at hw
  | next _ hok ih => exact ih.next hok

/-- A session in which slot one has been in use. -/
def Used (w : World) : Prop := (w.session.paths 1).state ≠ .absent

theorem used_iff : Used w ↔ 0 < (w.session.paths 1).state.rank := by
  unfold Used
  cases (w.session.paths 1).state <;> simp [PathState.rank]

theorem Used.run {w' : World} (h : Used w) (hrun : Machine.Run (World.step C) World.Owned w w') :
    Used w' := by
  rw [used_iff] at h ⊢
  exact h.trans_le ((World.run_lawful hrun).forward 1)

theorem activatedBy_eq_some {x : ℕ × Profile3Admission} (hr : Reach C f)
    (h : f.activatedBy C op = some x) :
    ∃ w, f.sessions x.1 = some w ∧ ¬ Used w ∧ ∃ w', (f.step C op).sessions x.1 = some w' ∧
      Used w' := by
  cases op with
  | activate k admission budget owner =>
    simp only [activatedBy, Option.bind_eq_some_iff, Option.ite_none_right_eq_some,
      Option.some.injEq] at h
    obtain ⟨w, hw, hok, rfl⟩ := h
    rcases activate_cases C w.leases admission budget owner (hr.healthy hw).paired with
      ⟨-, haccepts, hactive⟩ | ⟨⟨e, he⟩, -⟩
    · refine ⟨w, hw, not_not.mpr haccepts.absent, w.step C (.activate admission budget owner), ?_, ?_⟩
      · simp [step, sessionsAfter, sessionCall, Machine.stepAt, hw]
      · simp only [Used]
        change ((w.session.activate C w.leases admission budget owner).1.paths 1).state ≠ .absent
        simp [hactive]
    · rw [hok] at he
      cases he
  | _ => simp [activatedBy] at h

theorem Reach.activated (h : Reach C f) : (f.activated.map Prod.fst).Nodup ∧
    ∀ x ∈ f.activated, ∃ w, f.sessions x.1 = some w ∧ Used w := by
  induction h with
  | start h =>
    subst h
    simp [empty]
  | @next f op hr hok ih =>
    obtain ⟨hnodup, hused⟩ := ih
    have hkept : ∀ x ∈ f.activated, ∃ w, (f.step C op).sessions x.1 = some w ∧ Used w := by
      intro x hx
      obtain ⟨w, hw, hu⟩ := hused x hx
      obtain ⟨w', hw', hrun⟩ := run_session (.next (.start rfl) hok) hw
      exact ⟨w', hw', hu.run hrun⟩
    cases hadd : f.activatedBy C op with
    | none =>
      have hsame : (f.step C op).activated = f.activated := by simp [step, hadd]
      rw [hsame]
      exact ⟨hnodup, hkept⟩
    | some x =>
      have hcons : (f.step C op).activated = x :: f.activated := by simp [step, hadd]
      obtain ⟨w, hw, hnot, hnow⟩ := activatedBy_eq_some hr hadd
      rw [hcons, List.map_cons, List.nodup_cons]
      refine ⟨⟨?_, hnodup⟩, ?_⟩
      · intro hin
        obtain ⟨y, hy, heq⟩ := List.mem_map.mp hin
        obtain ⟨w₀, hw₀, hu⟩ := hused y hy
        rw [heq, hw] at hw₀
        exact hnot (Option.some.inj hw₀ ▸ hu)
      · intro y hy
        rcases List.mem_cons.mp hy with rfl | hy
        · exact hnow
        · exact hkept y hy

/-- An admission that a session accepts came from the owner it issued last. -/
theorem Reach.provenance (h : Reach C f) (hw : f.sessions i = some w) {a : Profile3Admission}
    (ha : a ∈ f.admissions) (hok : Accepts w.session a) :
    f.issued.find? (·.1 = i) = some (i, a.owner) ∧
    ∃ j, (j, a) ∈ f.minted ∧ (j, a.owner) ∈ f.built ∧ a.scid = a.owner.scid ∧
      ∀ k, (k, a.owner) ∈ f.built → k = j := by
  obtain ⟨j, hj⟩ := h.minting.taken a ha
  obtain ⟨hbuilt, hscid⟩ := h.minting.built _ hj
  obtain ⟨k, hk, hcap⟩ := hok.issuer
  obtain ⟨o, hlast, ho⟩ := h.lastIssued i w hw k hk
  obtain ⟨i', hissued⟩ := h.owners.taken _ hbuilt
  have heq := h.owners.distinct _ hissued _ (List.mem_of_find?_eq_some hlast)
    (hcap.symm.trans ho.symm)
  obtain ⟨rfl, rfl⟩ := Prod.mk.inj heq
  refine ⟨hlast, j, hj, hbuilt, hscid, ?_⟩
  intro k' hk'
  exact (Prod.mk.inj (h.owners.once _ hk' _ hbuilt rfl)).1

/-- Once a session is closed or its slot one has been in use, it accepts nothing. -/
theorem Reach.refuses (h : Reach C f) (hrun : Machine.Run (step C) (Permitted C) f f')
    (hw : f.sessions i = some w) (hgone : w.session.state ≠ .active ∨ Used w) {w' : World}
    (hw' : f'.sessions i = some w') (a : Profile3Admission) : ¬ Accepts w'.session a := by
  obtain ⟨w₁, hw₁, hrun'⟩ := run_session hrun hw
  obtain rfl := Option.some.inj (hw'.symm.trans hw₁)
  intro haccepts
  rcases hgone with hclosed | hused
  · have hreleased : w.session.state = .released := by
      cases hs : w.session.state with
      | active => exact absurd hs hclosed
      | released => rfl
    have hsame := World.run_released (h.session hw).sound hreleased hrun'
    have hactive := haccepts.active
    rw [hsame] at hactive
    exact hclosed hactive
  · exact hused.run hrun' haccepts.absent

end Fleet

/-- Over any number of sessions, owners and managers: a session activates slot one at most once and
a manager mints at most once, whatever it holds or hands out included; what is accepted was minted
for its cause by the manager built from the owner that this session issued last; a refusal changes
nothing but a dead preview; and nothing is accepted once the session is closed or slot one has been
in use. -/
theorem slot_one_authority {C : Crypto} {f : Fleet} (h : Fleet.Reach C f) :
    (f.activated.map Prod.fst).Nodup ∧ (f.minted.map Prod.fst).Nodup ∧
    ((∀ j m mw a, f.managers j = some (m, mw) → mw.state.profile3Admission = some a ∨
        a ∈ mw.state.takeProfile3Admissions.2 → (j, a) ∈ f.minted) ∧
      ∀ a ∈ f.admissions, ∃ j, (j, a) ∈ f.minted) ∧
    (∀ i w a budget owner, f.sessions i = some w →
      let r := w.session.activate C w.leases a budget owner
      (r.2 = .ok () → a ∈ f.admissions →
        (∀ b, (i, b) ∉ f.activated) ∧ Accepts w.session a ∧
        f.issued.find? (·.1 = i) = some (i, a.owner) ∧
        ∃ j, (j, a) ∈ f.minted ∧ (j, a.owner) ∈ f.built ∧ a.scid = a.owner.scid ∧
          (∀ k, (k, a.owner) ∈ f.built → k = j) ∧ ∃ f₀ op, Fleet.MintedAt C f j a f₀ op) ∧
      ∀ e, r.2 = .error e → Untouched w.leases w.session r.1) ∧
    ∀ f' i w w', Machine.Run (Fleet.step C) (Fleet.Permitted C) f f' → f.sessions i = some w →
      (w.session.state ≠ .active ∨ (w.session.paths 1).state ≠ .absent) →
      f'.sessions i = some w' → ∀ a budget owner,
      (w'.session.activate C w'.leases a budget owner).2 ≠ .ok () := by
  refine ⟨h.activated.1, h.minting.nodup, ⟨?_, h.minting.taken⟩, ?_, ?_⟩
  · intro j m mw a hm ha
    exact (h.minting.holds j m mw hm).admission a (ha.elim id Fleet.takeProfile3Admissions_held)
  · intro i w a budget owner hw r
    rcases activate_cases C w.leases a budget owner (h.healthy hw).paired with
      ⟨hok, haccepts, -⟩ | ⟨⟨e, he⟩, hsame⟩
    · refine ⟨fun _ ha => ⟨?_, haccepts, ?_⟩, fun e he => ?_⟩
      · intro b hb
        obtain ⟨w₀, hw₀, hused⟩ := h.activated.2 _ hb
        obtain rfl := Option.some.inj (hw.symm.trans hw₀)
        exact hused haccepts.absent
      · obtain ⟨hlast, j, hj, hbuilt, hscid, honce⟩ := h.provenance hw ha haccepts
        exact ⟨hlast, j, hj, hbuilt, hscid, honce, h.mintedAt hj⟩
      · exact absurd (hok.symm.trans he) (by simp)
    · exact ⟨fun hok => absurd (hok.symm.trans he) (by simp), fun _ _ => hsame⟩
  · intro f' i w w' hrun hw hgone hw' a budget owner hok
    have hpaired := (Fleet.Reach.healthy (h.trans hrun) hw').paired
    rcases activate_cases C w'.leases a budget owner hpaired with ⟨-, haccepts, -⟩ | ⟨⟨e, he⟩, -⟩
    · exact h.refuses hrun hw hgone hw' a haccepts
    · exact absurd (hok.symm.trans he) (by simp)

namespace Sample

/-- A candidate of the client has answered its challenge, and its admission is taken out. -/
def admitted : Fleet :=
  Machine.exec (Fleet.step .sample) Scenario.start (Scenario.script Scenario.start
    (Scenario.setup ++ [.control (Scenario.update 11 1) 1 1000,
      .control (Scenario.probe 11 1) 2 1000, .control (Scenario.response 11 1 2 4000) 2 1500,
      .op (.manager 1 .takeResults), .op (.manager 1 .takeProfile3Admissions)]))

end Sample

theorem slot_one_authority_answered :
    ∃ w a, Sample.admitted.sessions 0 = some w ∧ a ∈ Sample.admitted.admissions ∧
      (w.session.activate .sample w.leases a 1280 9).2 = .ok () ∧
      Sample.admitted.issued.find? (·.1 = 0) = some (0, a.owner) ∧
      ∃ j, (j, a) ∈ Sample.admitted.minted ∧
        ∃ f₀ op, Fleet.MintedAt .sample Sample.admitted j a f₀ op := by
  have hr : Fleet.Reach .sample Sample.admitted := Scenario.exec_reach (by decide +kernel)
  have hfacts : (Sample.admitted.sessions 0).any (fun w => Sample.admitted.admissions.any
      fun a => (w.session.activate .sample w.leases a 1280 9).2 = .ok ()) = true := by
    decide +kernel
  simp only [Option.any_eq_true, List.any_eq_true, decide_eq_true_eq] at hfacts
  obtain ⟨w, hw, a, ha, hok⟩ := hfacts
  obtain ⟨-, -, hlast, j, hj, -, -, -, hminted⟩ :=
    ((slot_one_authority hr).2.2.2.1 0 w a 1280 9 hw).1 hok ha
  exact ⟨w, a, hw, ha, hok, hlast, j, hj, hminted⟩

end R8.Redundant
