import R8Protocol.Mobility.Records
import R8Protocol.Mobility.Scenario

/-! The grace of a replaced binding: it stays allowed until its deadline and not beyond. -/
namespace R8.Mobility

open FixedWidth Wire Session

/-- The one grace slot is free for this promotion, and its deadline is a representable time. -/
def Promotion.graceFree (x : Promotion) : Bool :=
  (x.grace.all fun o => o.2 ≤ x.nowMs ∨ o.1 = x.binding) ∧
    x.nowMs.val + OLD_BINDING_GRACE_MS ≤ u64Max.val

/-- The clock runs forward and every promotion of the call finds the grace slot free. -/
def graceFree (m : Manager) (w : World) (call : Call) : Prop :=
  w.Forward call ∧ ∀ x ∈ w.promotionsOf m call, x.graceFree = true

instance (m : Manager) (w : World) (call : Call) : Decidable (graceFree m w call) :=
  inferInstanceAs (Decidable (_ ∧ _))

/-- The bindings of a state against the log of its promotions, newest first. -/
structure GraceLog (clockMs : U64) (log : List Promotion) (s : State) : Prop where
  current : ∀ h ∈ log.head?, s.currentBinding = h.binding
  chain : log.IsChain fun a b => a.replaced = b.binding
  held : ∀ o, s.oldBinding = some o →
    ∃ h ∈ log.head?, o = (h.replaced, satAdd h.nowMs OLD_BINDING_GRACE_MS)
  dropped : s.oldBinding = none → ∀ h ∈ log.head?, h.nowMs.val + OLD_BINDING_GRACE_MS ≤ clockMs.val
  served : ∀ newer r older, log = newer ++ r :: older → newer ≠ [] →
    r.nowMs.val + OLD_BINDING_GRACE_MS ≤ clockMs.val ∨ ∃ x ∈ newer, x.binding = r.replaced
  fits : ∀ r ∈ log, r.nowMs.val + OLD_BINDING_GRACE_MS ≤ u64Max.val
  valid : ∀ r ∈ log, r.replaced.Valid

theorem satAdd_fits {t : U64} (h : t.val + OLD_BINDING_GRACE_MS ≤ u64Max.val) :
    (satAdd t OLD_BINDING_GRACE_MS).val = t.val + OLD_BINDING_GRACE_MS := by
  rw [satAdd_val]
  exact min_eq_left h

namespace GraceLog

variable {clockMs clockMs' : U64} {log : List Promotion} {s s' : State}

theorem later (h : GraceLog clockMs log s) (hc : clockMs ≤ clockMs') :
    GraceLog clockMs' log s where
  current := h.current
  chain := h.chain
  held := h.held
  dropped ho x hx := (h.dropped ho x hx).trans hc
  served newer r older hl hn := by
    rcases h.served newer r older hl hn with ht | hx
    · exact .inl (ht.trans hc)
    · exact .inr hx
  fits := h.fits
  valid := h.valid

theorem same (h : GraceLog clockMs log s) (hc : s'.currentBinding = s.currentBinding)
    (ho : s'.oldBinding = s.oldBinding) : GraceLog clockMs log s' where
  current x hx := hc.trans (h.current x hx)
  chain := h.chain
  held o hs := h.held o (ho ▸ hs)
  dropped hs := h.dropped (ho ▸ hs)
  served := h.served
  fits := h.fits
  valid := h.valid

/-- The grace binding may be dropped at its deadline. -/
theorem drop (h : GraceLog clockMs log s) (hc : s'.currentBinding = s.currentBinding)
    (ho : s'.oldBinding = s.oldBindingAfter clockMs) : GraceLog clockMs log s' where
  current x hx := hc.trans (h.current x hx)
  chain := h.chain
  held o hs := by
    rw [ho, State.oldBindingAfter, Option.filter_eq_some_iff] at hs
    exact h.held o hs.1
  dropped hs x hx := by
    cases hold : s.oldBinding with
    | none => exact h.dropped hold x hx
    | some o =>
      obtain ⟨y, hy, rfl⟩ := h.held o hold
      obtain rfl : x = y := Option.some.inj ((Option.mem_def.mp hx).symm.trans hy)
      rw [ho, State.oldBindingAfter, hold] at hs
      have hle : satAdd x.nowMs OLD_BINDING_GRACE_MS ≤ clockMs := by
        simpa [Option.filter] using hs
      rwa [Fin.le_def, satAdd_fits (h.fits x (List.mem_of_mem_head? hx))] at hle
  served := h.served
  fits := h.fits
  valid := h.valid

/-- A promotion that finds the slot free. The previous one has either been served in full or is
undone by the new binding. -/
theorem promote {x : Promotion} (h : GraceLog clockMs log s) (hrep : x.replaced = s.currentBinding)
    (hgrace : x.grace = s.oldBinding) (hfree : x.graceFree = true) (hnow : x.nowMs ≤ clockMs)
    (hvalid : s.currentBinding.Valid) (hc : s'.currentBinding = x.binding)
    (ho : s'.oldBinding = some (x.replaced, satAdd x.nowMs OLD_BINDING_GRACE_MS)) :
    GraceLog clockMs (x :: log) s' := by
  simp only [Promotion.graceFree, decide_eq_true_eq] at hfree
  refine ⟨?_, ?_, ?_, by simp [ho], ?_, ?_, ?_⟩
  · simpa using hc
  · refine h.chain.cons ?_
    intro y hy
    rw [hrep]
    exact h.current y hy
  · intro o hs
    exact ⟨x, rfl, Option.some.inj (hs.symm.trans ho)⟩
  · intro newer r older hl hn
    obtain ⟨n, newer, rfl⟩ := List.exists_cons_of_ne_nil hn
    obtain ⟨rfl, htail⟩ := List.cons.inj hl
    by_cases hn' : newer = []
    · subst hn'
      have hr : r ∈ log.head? := by simp [show log = r :: older from htail]
      cases hold : s.oldBinding with
      | none => exact .inl (h.dropped hold r hr)
      | some o =>
        obtain ⟨y, hy, rfl⟩ := h.held o hold
        obtain rfl : r = y := Option.some.inj ((Option.mem_def.mp hr).symm.trans hy)
        have hone := hfree.1
        simp only [hgrace, hold, Option.all_some, decide_eq_true_eq] at hone
        rcases hone with hle | hsame
        · left
          rw [Fin.le_def, satAdd_fits (h.fits r (List.mem_of_mem_head? hr))] at hle
          exact hle.trans hnow
        · exact .inr ⟨x, List.mem_cons_self, hsame.symm⟩
    · rcases h.served newer r older htail hn' with ht | ⟨y, hy, hb⟩
      · exact .inl ht
      · exact .inr ⟨y, List.mem_cons_of_mem _ hy, hb⟩
  · intro r hr
    rcases List.mem_cons.mp hr with rfl | hr
    · exact hfree.2
    · exact h.fits r hr
  · intro r hr
    rcases List.mem_cons.mp hr with rfl | hr
    · rwa [hrep]
    · exact h.valid r hr

/-- A replaced binding that has not come back is allowed exactly until its deadline. -/
theorem allowed {newer older : List Promotion} {r : Promotion} {u : U64}
    (h : GraceLog clockMs log s) (hl : log = newer ++ r :: older) (hne : r.binding ≠ r.replaced)
    (hback : ∀ x ∈ newer, x.binding ≠ r.replaced) (hu : clockMs ≤ u) :
    s.bindingAllowedInbound r.replaced u = true ↔
      u.val < r.nowMs.val + OLD_BINDING_GRACE_MS := by
  have hr : r ∈ log := by simp [hl]
  have hfit := satAdd_fits (h.fits r hr)
  have hvalid := h.valid r hr
  simp only [State.bindingAllowedInbound, decide_eq_true_eq, hvalid, true_and]
  cases newer with
  | nil =>
    have hhead : r ∈ log.head? := by simp [hl]
    have hcur := h.current r hhead
    cases hold : s.oldBinding with
    | none =>
      have := h.dropped hold r hhead
      simp only [hcur, hne.symm, Option.any_none, Bool.false_eq_true, or_self, false_iff]
      rw [Fin.le_def] at hu
      omega
    | some o =>
      obtain ⟨y, hy, rfl⟩ := h.held o hold
      obtain rfl : r = y := Option.some.inj ((Option.mem_def.mp hhead).symm.trans hy)
      simp only [hcur, hne.symm, Option.any_some, true_and, decide_eq_true_eq, false_or]
      rw [Fin.lt_def, hfit]
  | cons n newer =>
    have hhead : n ∈ log.head? := by simp [hl]
    have hserved := h.served (n :: newer) r older hl (by simp)
    have hpast : r.nowMs.val + OLD_BINDING_GRACE_MS ≤ clockMs.val := by
      rcases hserved with ht | ⟨x, hx, hb⟩
      · exact ht
      · exact absurd hb (hback x hx)
    have hcur : s.currentBinding ≠ r.replaced := by
      rw [h.current n hhead]
      exact hback n List.mem_cons_self
    have hold : ∀ o, s.oldBinding = some o → o.1 ≠ r.replaced := by
      intro o ho
      obtain ⟨y, hy, rfl⟩ := h.held o ho
      obtain rfl : n = y := Option.some.inj ((Option.mem_def.mp hhead).symm.trans hy)
      have hchain := h.chain
      rw [hl] at hchain
      cases newer with
      | nil =>
        have hn := (List.isChain_cons_cons.mp hchain).1
        simpa [hn] using hne
      | cons n' newer =>
        have hn := (List.isChain_cons_cons.mp hchain).1
        simp only [hn]
        exact hback n' (by simp)
    rw [Fin.le_def] at hu
    constructor
    · rintro (hc | ho)
      · exact absurd hc.symm hcur
      · cases hs : s.oldBinding with
        | none => simp [hs] at ho
        | some o =>
          simp only [hs, Option.any_some, decide_eq_true_eq] at ho
          exact absurd ho.1.symm (hold o hs)
    · intro hlt
      omega

end GraceLog

theorem commitLocal_bindings (m : Manager) (s : State) (epoch : U64) (loc : Loc)
    (binding : ObservedBinding) (promote : Bool) (r : ResultEntry) :
    let s' := Manager.commitLocal m s epoch loc binding promote r
    (promote = true ∧ m.profile ≠ 3 ∧ s'.currentBinding = binding ∧
      s'.oldBinding = some (s.currentBinding, r.expiryMs)) ∨
    ((promote = false ∨ m.profile = 3) ∧ s'.currentBinding = s.currentBinding ∧
      s'.oldBinding = s.oldBinding) := by
  intro s'
  cases promote with
  | false => simp [s', Manager.commitLocal]
  | true =>
    by_cases hp : m.profile = 3
    · obtain ⟨owner, admission, admitted, he⟩ :=
        State.admitProfile3_eq { s with results := s.results ++ [r] } m.scid binding loc s.peerLoc
          epoch
      cases admitted with
      | true => simp [s', Manager.commitLocal, Manager.promoteLocal, hp, he, Manager.clearProfile3]
      | false => simp [s', Manager.commitLocal, Manager.promoteLocal, hp, he]
    · simp [s', Manager.commitLocal, Manager.promoteLocal, hp]

/-- Every binding held by a manager passed validation. -/
def ValidBindings (s : State) : Prop :=
  s.currentBinding.Valid ∧ ∀ c ∈ s.candidates, c.binding.Valid

namespace World

variable {C : Crypto} {m : Manager} {secret : Bytes 32} {ok : World → Call → Prop} {w : World}
  {call : Call}

theorem validBindings_settle {s : State} (h : ValidBindings s) (profile : Byte)
    (scid nowMs : U64) : ValidBindings (s.settleFrozenCohort profile scid nowMs).1 := by
  constructor
  · by_cases h3 : profile = 3
    · subst h3
      rw [(State.settle_admission s scid nowMs).1]
      exact h.1
    · obtain ⟨-, ⟨-, hc, -⟩ | ⟨epoch, c, hp, hc, -⟩⟩ := State.settle_bindings s scid nowMs h3
      · rw [hc]
        exact h.1
      · rw [hc]
        exact h.2 c (State.promotes_mem hp)
  · intro c hc
    rcases State.settle_caches s profile scid nowMs with he | ⟨epoch, members, -, he | ⟨-, he⟩⟩
    · exact h.2 c (he ▸ hc)
    · rw [he.candidates] at hc
      exact h.2 c (List.mem_filter.mp hc).1
    · simp [he.candidates] at hc

theorem validBindings_start (hs : Starts C m secret w) : ValidBindings w.state := by
  obtain ⟨⟨c, owner, rb, ownerId, hnew, -⟩, -⟩ := hs
  obtain ⟨he, hv, -⟩ := newInner_eq_ok hnew
  rw [he]
  exact ⟨hv, by simp [initialState]⟩

theorem validBindings_phases : Phases C m ok fun _ s => ValidBindings s where
  older _ _ _ _ h := h
  quiet _ s s' hq h := by
    rw [ValidBindings, hq.currentBinding, hq.candidates]
    exact h
  wipe _ _ h := ⟨h.1, by simp [State.wipe]⟩
  apply w _ p _ _ _ hn _ hv _ ha h := by
    cases hact : p.transition.action with
    | cacheProposal q tokens refillMs => exact h
    | challenge c =>
      rw [hact] at ha
      refine ⟨h.1, ?_⟩
      intro a hmem
      rcases List.mem_append.mp hmem with hmem | hmem
      · exact h.2 a hmem
      · obtain rfl := List.mem_singleton.mp hmem
        rw [ha.1]
        exact hv
    | commitLocal epoch loc b promote r =>
      rw [hact] at ha
      constructor
      · rcases commitLocal_bindings m w.state epoch loc b promote r with ⟨-, -, hc, -⟩ | ⟨-, hc, -⟩
        · simp only [Manager.applyAction, hc]
          rw [ha.1]
          exact hv
        · simp only [Manager.applyAction, hc, h.1]
      · intro c hc
        obtain ⟨-, -, -, ⟨-, hcs, -⟩ | ⟨-, -, hcs, -⟩⟩ :=
          commitLocal_lists m w.state epoch loc b promote r
        · exact h.2 c (hcs ▸ hc)
        · simp [Manager.applyAction, hcs] at hc
    | prove id epoch slot at_ r => exact absurd (hn w.state) (by simp [hact, Action.attempts])
    | existingChallenge c => exact h
    | respond c => exact h
    | none => exact h
  prove w _ p id epoch slot at_ r _ _ _ _ _ _ _ h := by
    obtain ⟨cohort, he, -⟩ := markProven_eq w.state id epoch slot r
    rw [he]
    refine ⟨h.1, ?_⟩
    intro c hc
    obtain ⟨a, ha, -, -, -, -, hb, -⟩ := Records.mem_prove_key hc
    rw [← hb]
    exact h.2 a ha
  mark w nowMs _ _ h := by
    obtain ⟨cs, ts, hf, he⟩ := State.expireMark_eq w.state nowMs
    rw [he]
    refine ⟨h.1, ?_⟩
    intro c hc
    obtain ⟨a, ha, hfa⟩ := hf.mem hc
    rw [hfa.key.2.2.2.2.1]
    exact h.2 a ha
  settle w call a _ _ h := validBindings_settle h m.profile m.scid a.nowMs
  sweep w nowMs _ _ _ h := by
    obtain ⟨rs, ts, he, -⟩ := State.expireSweep_eq
      ((w.state.expireMark nowMs).settleFrozenCohort m.profile m.scid nowMs).1 nowMs
      w.state.frozenMembers
    rw [State.expireBeforeSettle, he]
    exact ⟨h.1, fun c hc => h.2 c (List.mem_filter.mp hc).1⟩

theorem reverse_toList {α : Type*} (o : Option α) : o.toList.reverse = o.toList := by
  cases o <;> rfl

/-- One settlement attempt, with whatever it promotes put on the log. -/
theorem graceLog_settle {a : Attempt} {clockMs : U64} {log : List Promotion} (h3 : m.profile ≠ 3)
    (h : GraceLog clockMs log a.before) (hv : a.before.currentBinding.Valid)
    (hnow : a.nowMs ≤ clockMs) (hfree : ∀ x ∈ a.promotion m, x.graceFree = true) :
    GraceLog clockMs ((a.promotion m).toList ++ log)
      (a.before.settleFrozenCohort m.profile m.scid a.nowMs).1 := by
  obtain ⟨-, ⟨hp, hc, ho, -⟩ | ⟨epoch, c, hp, hc, ho, -⟩⟩ :=
    State.settle_bindings a.before m.scid a.nowMs h3
  · have hno : a.promotion m = none := by simp [Attempt.promotion, Attempt.install, hp]
    rw [hno]
    exact h.same hc ho
  · have hsome : a.promotion m = some ⟨a.before.currentBinding, a.before.oldBinding, c.binding,
        a.nowMs⟩ := by
      simp [Attempt.promotion, Attempt.install, hp, h3]
    rw [hsome] at hfree ⊢
    exact h.promote rfl rfl (hfree _ rfl) hnow hv hc ho

theorem promotionsOf_quiet (hs : w.attempts m call = [])
    (ha : (w.step C m call).applied = w.applied ∨ ∃ p, p.transition.action.mutates = false ∧
      (w.step C m call).applied = p :: w.applied) : w.promotionsOf m call = [] := by
  have hlocal : (w.committed m call).bind (Previewed.promotion m w.state) = none := by
    cases hcom : w.committed m call with
    | none => rfl
    | some q =>
      rcases ha with ha | ⟨p, hmut, ha⟩
      · simp [step, hcom] at ha
      · obtain rfl : q = p := by simpa [step, hcom] using ha
        rw [Option.bind_some, Previewed.promotion]
        split
        · rename_i hact
          simp [hact, Action.mutates] at hmut
        · rfl
  simp [promotionsOf, hlocal, hs]

/-- A committed action, with whatever it promotes put on the log. -/
theorem graceLog_commit {p : Previewed} {log : List Promotion} (h3 : m.profile ≠ 3)
    (h : GraceLog w.clockMs log w.state) (hv : w.state.currentBinding.Valid)
    (hnow : p.nowMs ≤ w.clockMs)
    (happ : Applicable C m w.state p.binding p.nowMs p.transition.action)
    (hcom : w.committed m call = some p)
    (hs : w.attempts m call = p.transition.action.attempts w.state)
    (hfree : ∀ x ∈ w.promotionsOf m call, x.graceFree = true) :
    GraceLog w.clockMs ((w.promotionsOf m call).reverse ++ log)
      (m.applyAction w.state p.transition.action) := by
  simp only [promotionsOf, hcom, Option.bind_some, hs] at hfree ⊢
  cases hact : p.transition.action with
  | commitLocal epoch loc b promote r =>
    rw [hact] at happ
    rcases commitLocal_bindings m w.state epoch loc b promote r with ⟨rfl, -, hc, ho⟩ |
      ⟨hno | hno, hc, ho⟩
    · simp only [hact, Previewed.promotion, h3, if_false, Option.toList_some, Action.attempts,
        List.filterMap_nil, List.append_nil] at hfree ⊢
      refine h.promote rfl rfl (hfree _ (List.mem_singleton.mpr rfl)) hnow hv hc ?_
      simp only [Manager.applyAction, ho, happ.2.2.1]
      rfl
    · subst hno
      simp only [hact, Previewed.promotion, Option.toList_none, Action.attempts,
        List.filterMap_nil, List.append_nil, List.reverse_nil, List.nil_append]
      exact h.same hc ho
    · exact absurd hno h3
  | prove id epoch slot at_ r =>
    rw [hact] at happ
    obtain ⟨rfl, -⟩ := happ
    obtain ⟨cohort, he, -⟩ := markProven_eq w.state id epoch slot r
    have hbefore : GraceLog w.clockMs log (Manager.markProven w.state id epoch slot r) := by
      rw [he]
      exact h.same rfl rfl
    have hvalid : (Manager.markProven w.state id epoch slot r).currentBinding.Valid := by
      rw [he]
      exact hv
    have hp : p.promotion m w.state = none := by simp [Previewed.promotion, hact]
    simp only [hact, hp, Option.toList_none, List.nil_append, Action.attempts,
      List.filterMap_eq_flatMap_toList, List.flatMap_singleton, Option.mem_toList,
      reverse_toList] at hfree ⊢
    exact graceLog_settle h3 hbefore hvalid hnow hfree
  | cacheProposal | challenge | existingChallenge | respond | none =>
    simp only [hact, Previewed.promotion, Option.toList_none, Action.attempts,
      List.filterMap_nil, List.append_nil, List.reverse_nil, List.nil_append]
    exact h.same rfl rfl

theorem graceLog_expire {nowMs : U64} {log : List Promotion} (h3 : m.profile ≠ 3)
    (h : GraceLog nowMs log w.state) (hc : w.state.closed = false)
    (hs : w.attempts m (.expire nowMs) = w.state.expireAttempts m nowMs)
    (hv : ∀ a ∈ w.attempts m (.expire nowMs), a.before.currentBinding.Valid)
    (hfree : ∀ x ∈ w.promotionsOf m (.expire nowMs), x.graceFree = true) :
    GraceLog nowMs ((w.promotionsOf m (.expire nowMs)).reverse ++ log)
      (w.state.expireSettled m nowMs) := by
  have hlist : w.promotionsOf m (.expire nowMs) =
      (Attempt.promotion m ⟨w.state.expireMark nowMs, nowMs⟩).toList ++
        (Attempt.promotion m ⟨w.state.expireBeforeSettle m nowMs, nowMs⟩).toList := by
    simp [promotionsOf, committed, hs, State.expireAttempts, hc, List.filterMap_eq_flatMap_toList]
  rw [hs] at hv
  simp only [State.expireAttempts, hc, Bool.false_eq_true, if_false, List.mem_cons,
    List.not_mem_nil, or_false, forall_eq_or_imp, forall_eq] at hv
  rw [hlist] at hfree ⊢
  simp only [List.mem_append, Option.mem_toList] at hfree
  rw [List.reverse_append, reverse_toList, reverse_toList, List.append_assoc]
  obtain ⟨cs, ts, -, hmark⟩ := State.expireMark_eq w.state nowMs
  have h₁ : GraceLog nowMs log (w.state.expireMark nowMs) := by
    rw [hmark]
    exact h.same rfl rfl
  have h₂ := graceLog_settle (a := ⟨w.state.expireMark nowMs, nowMs⟩) h3 h₁ hv.1 le_rfl
    (fun x hx => hfree x (.inl hx))
  obtain ⟨rs, ts', hsweep, -⟩ := State.expireSweep_eq
    ((w.state.expireMark nowMs).settleFrozenCohort m.profile m.scid nowMs).1 nowMs
    w.state.frozenMembers
  have h₃ : GraceLog nowMs
      ((Attempt.promotion m ⟨w.state.expireMark nowMs, nowMs⟩).toList ++ log)
      (w.state.expireBeforeSettle m nowMs) := by
    rw [State.expireBeforeSettle, hsweep]
    exact h₂.drop rfl rfl
  exact graceLog_settle (a := ⟨w.state.expireBeforeSettle m nowMs, nowMs⟩) h3 h₃ hv.2 le_rfl
    (fun x hx => hfree x (.inr hx))

theorem graceLog_step (h3 : m.profile ≠ 3) (hissued : ∀ p ∈ w.issued, p.nowMs ≤ w.clockMs)
    (hv : ValidBindings w.state) (hw : w.state.closed = false →
      GraceLog w.clockMs w.promotions w.state) (hok : graceFree m w call)
    (he : Effect C m w call) (hopen : (w.step C m call).state.closed = false) :
    GraceLog (w.step C m call).clockMs (w.step C m call).promotions (w.step C m call).state := by
  have hclock := clock_le C m hok.1
  have hattempt := validBindings_phases.attempt hv hok he
  cases he with
  | quiet hq hg ha hs =>
    have hno := promotionsOf_quiet hs ha
    have hlog := hw (hq.closed.symm.trans hopen)
    simp only [step, hno, List.reverse_nil, List.nil_append]
    exact (hlog.same hq.currentBinding hq.oldBinding).later hclock
  | commit p g hp _ hc _ _ happ _ _ hcom hstate _ hs =>
    have hlog := graceLog_commit h3 (hw hc) hv.1 (hissued p hp) happ hcom hs hok.2
    rw [hstate]
    exact (hlog.later hclock).same rfl rfl
  | expire nowMs hcall hc hstate _ hs =>
    subst hcall
    have hlog := graceLog_expire h3 ((hw hc).later hclock) hc hs (fun a ha => (hattempt a ha).1)
      hok.2
    rw [hstate] at hopen ⊢
    rcases State.expire_settled (m := m) w.state nowMs hc with ⟨g, -, he⟩ | ⟨-, he⟩
    · rw [he]
      exact hlog.same rfl rfl
    · simp [he, State.wipe] at hopen
  | close hstate _ _ => simp [hstate, State.close, State.wipe] at hopen

theorem Reach.graceLog (h3 : m.profile ≠ 3) (h : Reach C m secret (graceFree m) w)
    (hopen : w.state.closed = false) : GraceLog w.clockMs w.promotions w.state := by
  have hstrong := h.strengthen (J := fun w _ => (∀ p ∈ w.issued, p.nowMs ≤ w.clockMs) ∧
    ValidBindings w.state) (fun w _ hw _ _ => ⟨hw.issued_le fun _ _ hok => hok.1,
      validBindings_phases.reach (fun _ => validBindings_start) hw⟩)
  revert hopen
  apply Reach.induct (I := fun w => w.state.closed = false →
    GraceLog w.clockMs w.promotions w.state) hstrong
  · intro w hs _
    obtain ⟨⟨c, owner, rb, ownerId, hnew, -⟩, -, -, -, hlog⟩ := hs
    obtain ⟨he, -⟩ := newInner_eq_ok hnew
    rw [hlog, he]
    constructor <;> simp [initialState]
  · intro w call _ hw hok he hopen
    exact graceLog_step h3 hok.2.1 hok.2.2 hw hok.1 he hopen

end World

section

variable {C : Crypto} {m : Manager} {secret : Bytes 32} {w : World}

/-- In every run whose promotions find the grace slot free, a replaced binding that has not come
back is allowed until its deadline and refused from then on. -/
theorem replaced_binding_allowed_until_deadline (h3 : m.profile ≠ 3)
    (h : World.Reach C m secret (graceFree m) w) (hopen : w.state.closed = false)
    {newer older : List Promotion} {r : Promotion} (hlog : w.promotions = newer ++ r :: older)
    (hne : r.binding ≠ r.replaced) (hback : ∀ x ∈ newer, x.binding ≠ r.replaced) :
    ∀ u, w.clockMs ≤ u → (w.state.bindingAllowedInbound r.replaced u = true ↔
      u.val < r.nowMs.val + OLD_BINDING_GRACE_MS) :=
  fun _ hu => (h.graceLog h3 hopen).allowed hlog hne hback hu

end

/-- One promotion of the peer. -/
def onePromotion : List Scenario.Input :=
  [.update 1 1 1000, .probe 1 1 11 1000, .response 1 1 11 4000 2000]

theorem replaced_binding_allowed_until_deadline_peer :
    (Scenario.play onePromotion).state.bindingAllowedInbound (Scenario.bindingOf 0) 11999 = true ∧
    ¬ (Scenario.play onePromotion).state.bindingAllowedInbound (Scenario.bindingOf 0) 12000 = true := by
  have hr : World.Reach .sample Scenario.manager Scenario.secret (graceFree Scenario.manager)
      (Scenario.play onePromotion) := Scenario.reach _ (by decide +kernel)
  have hlog : (Scenario.play onePromotion).promotions =
      [] ++ ⟨Scenario.bindingOf 0, none, Scenario.bindingOf 11, 2000⟩ :: [] := by decide +kernel
  have hclock : (Scenario.play onePromotion).clockMs = 2000 := by decide +kernel
  have h := replaced_binding_allowed_until_deadline (by decide +kernel) hr (by decide +kernel) hlog
    (by decide +kernel) (by simp)
  rw [hclock] at h
  exact ⟨(h 11999 (by decide)).mpr (by decide), fun hlate =>
    absurd ((h 12000 (by decide)).mp hlate) (by decide)⟩

/-- A local proposal is pending when the peer is promoted; its result promotes again at once. -/
def twoPromotions : List Scenario.Input :=
  [.call (.proposeLocal (bytesOf 16 7) (bytesOf 16 30) 1 0 1000),
    .call (.makeProbe (bytesOf 16 7) (Scenario.bindingOf 21) (zeros 16) 1000),
    .update 1 1 1000, .probe 1 1 11 1000, .response 1 1 11 4000 2000, .result 7 1 21 1 2500]

/-- The second promotion overwrites the grace slot, so the first replaced binding is refused in
the middle of its grace. -/
theorem replaced_binding_refused_in_grace :
    ¬ ∀ (C : Crypto) (m : Manager) (secret : Bytes 32) (w : World), m.profile ≠ 3 →
      World.Reach C m secret (fun w call => w.Forward call) w → w.state.closed = false →
      ∀ (newer older : List Promotion) (r : Promotion), w.promotions = newer ++ r :: older →
      r.binding ≠ r.replaced → (∀ x ∈ newer, x.binding ≠ r.replaced) →
      ∀ u, w.clockMs ≤ u → (w.state.bindingAllowedInbound r.replaced u = true ↔
        u.val < r.nowMs.val + OLD_BINDING_GRACE_MS) := by
  intro h
  have hr : World.Reach .sample Scenario.manager Scenario.secret (fun w call => w.Forward call)
      (Scenario.play twoPromotions) := Scenario.reach _ (by decide +kernel)
  have hlog : (Scenario.play twoPromotions).promotions =
      [⟨Scenario.bindingOf 11, some (Scenario.bindingOf 0, 12000), Scenario.bindingOf 21, 2500⟩] ++
        ⟨Scenario.bindingOf 0, none, Scenario.bindingOf 11, 2000⟩ :: [] := by decide +kernel
  have hall := h _ _ _ _ (by decide +kernel) hr (by decide +kernel) _ _ _ hlog (by decide +kernel)
    (by decide +kernel) 3000 (by decide +kernel)
  exact absurd (hall.mpr (by decide +kernel)) (by decide +kernel)

end R8.Mobility
