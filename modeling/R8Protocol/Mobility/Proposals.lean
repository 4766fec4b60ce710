import R8Protocol.Lib.Bucket
import R8Protocol.Mobility.Codec
import R8Protocol.Mobility.Records
import R8Protocol.Mobility.Scenario

/-! The rate of new proposals: a token is priced when an update is previewed and paid when it is
committed. -/
namespace R8.Mobility

open FixedWidth Wire Session TokenBucket

variable {C : Crypto} {m : Manager} {s s' s'' : State} {binding : ObservedBinding} {nowMs : U64}
  {a : Action}

def Action.caches : Action → Bool
  | .cacheProposal .. => true
  | _ => false

theorem Action.mutates_of_caches (h : a.caches = true) : a.mutates = true := by
  cases a <;> simp_all [Action.caches, Action.mutates]

namespace State

/-- The bucket in full seconds. -/
def bucket (s : State) : Bucket := ⟨s.proposalTokens, s.proposalRefillMs.val / 1000⟩

/-- The bucket is left alone and no proposal is added. -/
structure Keeps (s s' : State) : Prop where
  tokens : s'.proposalTokens = s.proposalTokens
  refill : s'.proposalRefillMs = s.proposalRefillMs
  proposals : s'.proposals ⊆ s.proposals

theorem Keeps.refl (s : State) : Keeps s s := ⟨rfl, rfl, List.Subset.refl _⟩

theorem Keeps.trans (h : Keeps s s') (h' : Keeps s' s'') : Keeps s s'' :=
  ⟨h'.tokens.trans h.tokens, h'.refill.trans h.refill, fun _ hp => h.proposals (h'.proposals hp)⟩

theorem Keeps.of_quiet (h : Quiet s s') : Keeps s s' :=
  ⟨h.proposalTokens, h.proposalRefillMs, by rw [h.proposals]; exact List.Subset.refl _⟩

theorem Keeps.bucket (h : Keeps s s') : s'.bucket = s.bucket := by
  simp [State.bucket, h.tokens, h.refill]

theorem finishCohort_keeps (s : State) (epoch : U64) (outcomes : List ResultEntry) :
    Keeps s (s.finishCohort epoch outcomes) := ⟨rfl, rfl, List.filter_subset_self _⟩

theorem promote_keeps (s : State) (profile : Byte) (scid nowMs epoch : U64) (c : Candidate)
    (outcomes : List ResultEntry) : Keeps s (s.promote profile scid nowMs epoch c outcomes) := by
  unfold promote
  split
  · obtain ⟨owner, admission, admitted, he⟩ :=
      admitProfile3_eq s scid c.binding s.localLoc c.loc epoch
    simp only [he]
    split
    · exact ⟨rfl, rfl, List.nil_subset _⟩
    · exact ⟨rfl, rfl, List.filter_subset_self _⟩
  · exact ⟨rfl, rfl, List.filter_subset_self _⟩

theorem settle_keeps (s : State) (profile : Byte) (scid nowMs : U64) :
    Keeps s (s.settleFrozenCohort profile scid nowMs).1 := by
  rcases settle_cases s profile scid nowMs with ⟨he, -⟩ | ⟨epoch, members, -, -, -, he⟩ |
    ⟨epoch, members, c, -, -, -, he⟩ <;> rw [he]
  · exact .refl s
  · exact finishCohort_keeps s epoch _
  · exact promote_keeps s profile scid nowMs epoch c _

theorem wipe_keeps (s : State) : Keeps s s.wipe := ⟨rfl, rfl, List.nil_subset _⟩

theorem expireSettled_keeps (m : Manager) (s : State) (nowMs : U64) :
    Keeps s (s.expireSettled m nowMs) := by
  obtain ⟨cs, ts, -, hmark⟩ := expireMark_eq s nowMs
  have hmarked : Keeps s (s.expireMark nowMs) := by
    rw [hmark]
    exact ⟨rfl, rfl, List.Subset.refl _⟩
  have hfirst := settle_keeps (s.expireMark nowMs) m.profile m.scid nowMs
  obtain ⟨rs, ts', hsweep, -⟩ := expireSweep_eq
    ((s.expireMark nowMs).settleFrozenCohort m.profile m.scid nowMs).1 nowMs s.frozenMembers
  have hswept : Keeps ((s.expireMark nowMs).settleFrozenCohort m.profile m.scid nowMs).1
      (s.expireBeforeSettle m nowMs) := by
    rw [expireBeforeSettle, hsweep]
    exact ⟨rfl, rfl, List.filter_subset_self _⟩
  have hsecond := settle_keeps (s.expireBeforeSettle m nowMs) m.profile m.scid nowMs
  exact ((hmarked.trans hfirst).trans hswept).trans hsecond

theorem expire_keeps (m : Manager) (s : State) (nowMs : U64) (hc : s.closed = false) :
    Keeps s (s.expire m nowMs) := by
  have hsettled := expireSettled_keeps m s nowMs
  rcases expire_cases (m := m) s nowMs hc with ⟨ts, he⟩ | ⟨g, -, he⟩ | he <;> rw [he]
  · exact ⟨rfl, rfl, List.Subset.refl _⟩
  · exact ⟨hsettled.tokens, hsettled.refill, hsettled.proposals⟩
  · exact hsettled.trans (wipe_keeps _)

end State

open State

theorem commitLocal_keeps (m : Manager) (s : State) (epoch : U64) (loc : Loc)
    (b : ObservedBinding) (promote : Bool) (r : ResultEntry) :
    Keeps s (Manager.commitLocal m s epoch loc b promote r) := by
  cases promote with
  | false => exact ⟨rfl, rfl, List.Subset.refl _⟩
  | true =>
    by_cases hp : m.profile = 3
    · obtain ⟨owner, admission, admitted, he⟩ :=
        admitProfile3_eq { s with results := s.results ++ [r] } m.scid b loc s.peerLoc epoch
      cases admitted with
      | true =>
        simp only [Manager.commitLocal, Manager.promoteLocal, hp, he, if_true]
        exact ⟨rfl, rfl, List.nil_subset _⟩
      | false =>
        simp only [Manager.commitLocal, Manager.promoteLocal, hp, he, if_true]
        exact ⟨rfl, rfl, List.Subset.refl _⟩
    · simp only [Manager.commitLocal, Manager.promoteLocal, hp, if_true, if_false]
      exact ⟨rfl, rfl, List.Subset.refl _⟩

theorem markProven_keeps (s : State) (id : CandidateId) (epoch : U64) (slot : Byte)
    (r : BindResponseIdentity) : Keeps s (Manager.markProven s id epoch slot r) := by
  obtain ⟨cohort, he, -⟩ := markProven_eq s id epoch slot r
  rw [he]
  exact ⟨rfl, rfl, List.Subset.refl _⟩

/-- Only a new proposal is charged to the bucket. -/
theorem applyAction_keeps (m : Manager) (s : State) (h : a.caches = false) :
    Keeps s (m.applyAction s a) := by
  cases a with
  | cacheProposal p tokens refillMs => simp [Action.caches] at h
  | challenge c => exact ⟨rfl, rfl, List.Subset.refl _⟩
  | existingChallenge c => exact .refl s
  | respond control => exact .refl s
  | commitLocal epoch loc b promote r => exact commitLocal_keeps m s epoch loc b promote r
  | prove id epoch slot graceUntilMs r =>
    exact (markProven_keeps s id epoch slot r).trans (settle_keeps _ m.profile m.scid graceUntilMs)
  | none => exact .refl s

/-- The bytes of a proposal are an update for its candidate. -/
def Proposal.Named (p : Proposal) : Prop :=
  ∃ oldLoc newLoc epoch notBeforeMs validForMs slot signature, Control.parse p.bytes =
    .ok (.locUpdate p.candidateId oldLoc newLoc epoch notBeforeMs validForMs slot signature)

/-- A new proposal was priced against the bucket as it stands. -/
def Priced (s : State) (nowMs : U64) : Action → Prop
  | .cacheProposal p tokens refillMs =>
    (Manager.refilled s nowMs).1 = tokens + 1 ∧ refillMs = (Manager.refilled s nowMs).2 ∧ p.Named
  | _ => True

theorem Priced.of_not_caches (h : a.caches = false) : Priced s nowMs a := by
  cases a with
  | cacheProposal p tokens refillMs => simp [Action.caches] at h
  | _ => trivial

theorem Priced.quiet (hq : Quiet s s') (h : Priced s nowMs a) : Priced s' nowMs a := by
  cases a with
  | cacheProposal p tokens refillMs =>
    simpa only [Priced, Manager.refilled, hq.proposalTokens, hq.proposalRefillMs] using h
  | _ => trivial

/-- Only an update caches. -/
theorem previewControl_caches {control : Control}
    (h : m.previewControl C s binding nowMs control = .ok a) (hc : a.caches = true) :
    ∃ id oldLoc newLoc epoch notBeforeMs validForMs slot signature,
      control = .locUpdate id oldLoc newLoc epoch notBeforeMs validForMs slot signature := by
  cases control with
  | locUpdate id oldLoc newLoc epoch notBeforeMs validForMs slot signature =>
    exact ⟨id, oldLoc, newLoc, epoch, notBeforeMs, validForMs, slot, signature, rfl⟩
  | bindProbe id loc epoch slot probeNonce =>
    simp only [Manager.previewControl, Manager.previewBindProbe] at h
    split at h
    · simp at h
    · split at h
      · simp only [Outcome.ite_ok_eq_ok, Except.ok.injEq] at h
        simp [← h.2, Action.caches] at hc
      · simp only [Outcome.ite_error_eq_ok, Except.ok.injEq] at h
        simp [← h.2, Action.caches] at hc
  | bindResponse id loc epoch slot expiryMs supplied =>
    simp only [Manager.previewControl, Manager.previewBindResponse] at h
    split at h
    · simp only [Outcome.ite_ok_eq_ok, Except.ok.injEq] at h
      simp [← h.2, Action.caches] at hc
    · split at h
      · simp at h
      · simp only [Outcome.ite_error_eq_ok] at h
        obtain ⟨-, -, h⟩ := h
        split at h
        · simp at h
        · simp only [Outcome.bind_eq_ok, Outcome.ite_error_eq_ok] at h
          obtain ⟨expected, -, -, h⟩ := h
          split at h
          · simp at h
          · simp only [Outcome.ite_error_eq_ok, Except.ok.injEq] at h
            simp [← h.2, Action.caches] at hc
  | bindChallenge id loc epoch slot expiryMs token =>
    simp only [Manager.previewControl, Manager.previewBindChallenge] at h
    split at h
    · simp at h
    · simp [← Except.ok.inj h, Action.caches] at hc
  | candidateResult id epoch slot result =>
    simp only [Manager.previewControl, Manager.previewCandidateResult] at h
    split at h
    · simp only [Outcome.ite_ok_eq_ok, Except.ok.injEq] at h
      simp [← h.2, Action.caches] at hc
    · split at h
      · simp at h
      · simp only [Outcome.ite_error_eq_ok, Except.ok.injEq] at h
        simp [← h.2, Action.caches] at hc

section Preview

variable {plaintext : List Byte} {t : Transition} {pp : Option ProtectedReplayProof}
  {p3 : Option Profile3ReplayProof}

theorem previewInner_priced
    (h : m.previewInner C s plaintext binding nowMs pp p3 = .ok t) : Priced s nowMs t.action := by
  obtain ⟨control, hparse, hcontrol⟩ := previewInner_control h
  by_cases hc : t.action.caches = true
  · obtain ⟨id, oldLoc, newLoc, epoch, notBeforeMs, validForMs, slot, signature, rfl⟩ :=
      previewControl_caches hcontrol hc
    simp only [Manager.previewControl, Manager.previewLocUpdate, Outcome.bind_eq_ok,
      Outcome.ite_error_eq_ok] at hcontrol
    obtain ⟨-, -, -, hcontrol⟩ := hcontrol
    split at hcontrol
    · simp only [Outcome.ite_ok_eq_ok, Except.ok.injEq] at hcontrol
      simp [← hcontrol.2, Action.caches] at hc
    · simp only [Outcome.ite_error_eq_ok, Except.ok.injEq] at hcontrol
      obtain ⟨-, -, -, htoken, haction⟩ := hcontrol
      rw [← haction]
      refine ⟨(Nat.succ_pred_eq_of_ne_zero htoken).symm, rfl, oldLoc, newLoc, epoch, notBeforeMs,
        validForMs, slot, signature, ?_⟩
      rw [Control.encode_of_parse hparse, hparse]
  · exact .of_not_caches (by simpa using hc)

/-- The bytes of a cached proposal are taken in again without any effect, or refused. -/
theorem previewInner_repeat {q : Proposal} (hids : (s.proposals.map (·.candidateId)).Nodup)
    (hq : q ∈ s.proposals) (hn : q.Named)
    (h : m.previewInner C s q.bytes binding nowMs pp p3 = .ok t) : t.action = .none := by
  obtain ⟨control, hparse, hcontrol⟩ := previewInner_control h
  obtain ⟨oldLoc, newLoc, epoch, notBeforeMs, validForMs, slot, signature, hupdate⟩ := hn
  obtain rfl := Except.ok.inj (hparse.symm.trans hupdate)
  have hfind : s.proposals.find? (·.candidateId = q.candidateId) = some q := by
    cases hf : s.proposals.find? (·.candidateId = q.candidateId) with
    | none => simpa using List.find?_eq_none.mp hf q hq
    | some p =>
      have hp : p.candidateId = q.candidateId := by simpa using List.find?_some hf
      rw [List.inj_on_of_nodup_map hids (List.mem_of_find?_eq_some hf) hq hp]
  simp only [Manager.previewControl, Manager.previewLocUpdate, Outcome.bind_eq_ok,
    Outcome.ite_error_eq_ok, hfind, Outcome.ite_ok_eq_ok, Except.ok.injEq] at hcontrol
  obtain ⟨-, -, -, -, haction⟩ := hcontrol
  exact haction.symm

end Preview

/-- The refill of a preview that is not behind the last one, in full seconds. -/
theorem refilled_takes (hwhole : s.proposalRefillMs.val % 1000 = 0)
    (hle : s.proposalRefillMs ≤ nowMs) :
    (Manager.refilled s nowMs).2.val = nowMs.val / 1000 * 1000 ∧
      Takes 2 1 s.bucket ⟨(Manager.refilled s nowMs).1, nowMs.val / 1000⟩ 0 := by
  have hlt := nowMs.isLt
  simp only [Fin.le_def] at hle
  have hrefill : (Manager.refilled s nowMs).2.val = nowMs.val / 1000 * 1000 := by
    simp only [Manager.refilled, satAdd_val, satSub_val]
    omega
  refine ⟨hrefill, ?_, ?_, ?_⟩
  · simp only [State.bucket]
    omega
  · simp only [Manager.refilled]
    omega
  · simp only [State.bucket, Manager.refilled, satSub_val]
    omega

/-- What the source computes for the bucket, without the bounds of its machine words. -/
structure Unbounded (s : State) (nowMs : U64) : Prop where
  tokens : s.proposalTokens ≤ 2
  sum : s.proposalTokens + (satSub nowMs s.proposalRefillMs).val / 1000 < 2 ^ 64
  product : (satSub nowMs s.proposalRefillMs).val / 1000 * 1000 < 2 ^ 64
  refill : s.proposalRefillMs.val + (satSub nowMs s.proposalRefillMs).val / 1000 * 1000 < 2 ^ 64

theorem unbounded (s : State) (nowMs : U64) (h : s.proposalTokens ≤ 2) : Unbounded s nowMs := by
  have hnow := nowMs.isLt
  have hrefill := s.proposalRefillMs.isLt
  constructor
  · exact h
  · rw [satSub_val]
    omega
  · rw [satSub_val]
    omega
  · rw [satSub_val]
    omega

/-- The plaintext a call previews. -/
def Call.plaintext? : Call → Option (List Byte)
  | .previewProtected plaintext .. | .previewProfile3 plaintext .. => some plaintext
  | _ => none

/-- The transition a call tries to commit. -/
def Call.commits? : Call → Option Previewed
  | .commitProtected p _ | .commitProfile3 p _ => some p
  | _ => none

namespace World

variable {w w' : World} {call : Call} {secret : Bytes 32} {ok : World → Call → Prop}

/-- The committed new proposals, newest first. -/
def proposed (w : World) : List Previewed := w.applied.filter (·.transition.action.caches)

/-- A preview is not behind an earlier one. -/
def PreviewsForward (C : Crypto) (m : Manager) (w : World) (call : Call) : Prop :=
  ∀ p ∈ w.previewed C m call, ∀ q ∈ w.issued, q.nowMs ≤ p.nowMs

instance decidablePreviewsForward (C : Crypto) (m : Manager) (w : World) (call : Call) :
    Decidable (w.PreviewsForward C m call) := Option.decidableForallMem (w.previewed C m call)

/-- The bucket is what the previews of the committed proposals have left of it. -/
structure Sound (w : World) : Prop where
  metered : Metered 2 1 w.state.bucket (w.proposed.map (·.nowMs.val / 1000))
  whole : w.state.proposalRefillMs.val % 1000 = 0
  past : w.state.proposalRefillMs = 0 ∨ ∃ q ∈ w.issued, w.state.proposalRefillMs ≤ q.nowMs
  named : ∀ q ∈ w.state.proposals, q.Named
  issued : ∀ p ∈ w.proposed, p ∈ w.issued
  priced : Current (fun p s => s.proposalRefillMs ≤ p.nowMs ∧ Priced s p.nowMs p.transition.action) w

theorem Sound.full (h : Sound w) : w.state.proposalTokens ≤ 2 := by
  have hlevel := h.metered.level w.state.bucket.tick le_rfl
  simp only [State.bucket, Nat.sub_self, Nat.mul_zero, Nat.add_zero] at hlevel
  omega

theorem previewed_priced {p : Previewed} (h : w.previewed C m call = some p) :
    Priced w.state p.nowMs p.transition.action := by
  cases call with
  | previewProtected plaintext b proof live nowMs =>
    obtain ⟨t, ht, rfl⟩ := Option.map_eq_some_iff.mp h
    have hok := Outcome.toOption_eq_some.mp ht
    simp only [Manager.previewProtected, Outcome.ite_error_eq_ok] at hok
    exact previewInner_priced hok.2
  | previewProfile3 plaintext b proof nowMs =>
    obtain ⟨t, ht, rfl⟩ := Option.map_eq_some_iff.mp h
    have hok := Outcome.toOption_eq_some.mp ht
    simp only [Manager.previewProfile3, Outcome.ite_error_eq_ok] at hok
    exact previewInner_priced hok.2.2
  | _ => simp [previewed] at h

/-- What a call does to the bucket and to the cached proposals: nothing, or it pays for a proposal
that was priced against the bucket as it is. -/
inductive Charge (C : Crypto) (m : Manager) (w : World) (call : Call) : Prop
  | keeps (hk : Keeps w.state (w.step C m call).state)
      (hp : (w.step C m call).proposed = w.proposed)
  | charges (p : Previewed) (q : Proposal) (tokens : ℕ) (refillMs : U64) (hp : p ∈ w.issued)
      (hact : p.transition.action = .cacheProposal q tokens refillMs)
      (hcom : w.committed m call = some p) (hc : w.state.closed = false)
      (hgen : p.transition.generation = w.state.generation)
      (hnext : w.state.generation < (w.step C m call).state.generation)
      (htokens : (w.step C m call).state.proposalTokens = tokens)
      (hrefill : (w.step C m call).state.proposalRefillMs = refillMs)
      (hproposals : (w.step C m call).state.proposals = w.state.proposals ++ [q])
      (hproposed : (w.step C m call).proposed = p :: w.proposed)

theorem step_charge (he : Effect C m w call) : Charge C m w call := by
  cases he with
  | quiet hq _ ha _ =>
    refine .keeps (.of_quiet hq) ?_
    rcases ha with ha | ⟨p, hmut, ha⟩
    · rw [proposed, ha, proposed]
    · have hc : p.transition.action.caches = false := by
        by_contra hc
        simp [Action.mutates_of_caches (by simpa using hc)] at hmut
      rw [proposed, ha, List.filter_cons_of_neg (by simp [hc]), proposed]
  | commit p g hp hgen hc _ _ _ hg _ hcom hstate ha _ =>
    have hlt := generation_lt hg
    cases hact : p.transition.action with
    | cacheProposal q tokens refillMs =>
      rw [hact] at hstate
      refine .charges p q tokens refillMs hp hact hcom hc hgen ?_ ?_ ?_ ?_ ?_
      · rw [hstate]
        exact hlt
      · rw [hstate]
        rfl
      · rw [hstate]
        rfl
      · rw [hstate]
        rfl
      · rw [proposed, ha, List.filter_cons_of_pos (by simp [hact, Action.caches]), proposed]
    | _ =>
      have hn : p.transition.action.caches = false := by simp [hact, Action.caches]
      have hk := applyAction_keeps m w.state hn
      refine .keeps ?_ ?_
      · rw [hstate]
        exact ⟨hk.tokens, hk.refill, hk.proposals⟩
      · rw [proposed, ha, List.filter_cons_of_neg (by simp [hn]), proposed]
  | expire nowMs _ hc hstate ha _ =>
    refine .keeps ?_ ?_
    · rw [hstate]
      exact expire_keeps m w.state nowMs hc
    · rw [proposed, ha, proposed]
  | close hstate ha _ =>
    refine .keeps ?_ ?_
    · rw [hstate]
      exact ⟨rfl, rfl, List.nil_subset _⟩
    · rw [proposed, ha, proposed]

theorem sound_start (h : Starts C m secret w) : Sound w := by
  obtain ⟨⟨c, owner, rb, ownerId, hnew, -⟩, hissued, happlied, -⟩ := h
  have hstate := (newInner_eq_ok hnew).1
  constructor
  · rw [proposed, happlied, hstate]
    have hfull : Metered 2 1 ⟨2, 0⟩ [] := Metered.start 0
    simpa [State.bucket, initialState] using hfull
  · rw [hstate]
    rfl
  · rw [hstate]
    exact .inl rfl
  · rw [hstate]
    simp [initialState]
  · simp [proposed, happlied]
  · simp [Current, hissued]

theorem sound_step (hf : Fresh C m w) (ho : w.Owned m call) (hfwd : w.PreviewsForward C m call)
    (h : Sound w) : Sound (w.step C m call) := by
  have hissued : ∀ q ∈ w.issued, q ∈ (w.step C m call).issued :=
    fun q hq => List.mem_append_right _ hq
  have hpriced : Current (fun p s => s.proposalRefillMs ≤ p.nowMs ∧
      Priced s p.nowMs p.transition.action) (w.step C m call) := by
    refine current_step hf ho ?_ ?_ h.priced
    · rintro p s s' hq ⟨hle, hp⟩
      exact ⟨hq.proposalRefillMs.trans_le hle, hp.quiet hq⟩
    · intro p hp
      refine ⟨?_, previewed_priced hp⟩
      rcases h.past with hzero | ⟨q, hq, hle⟩
      · rw [hzero]
        exact Fin.zero_le _
      · exact hle.trans (hfwd p hp q hq)
  cases step_charge (step_effect hf ho) with
  | keeps hk hp =>
    refine ⟨?_, ?_, ?_, fun q hq => h.named q (hk.proposals hq), ?_, hpriced⟩
    · rw [hk.bucket, hp]
      exact h.metered
    · rw [hk.refill]
      exact h.whole
    · rw [hk.refill]
      exact h.past.imp id fun ⟨q, hq, hle⟩ => ⟨q, hissued q hq, hle⟩
    · rw [hp]
      exact fun q hq => hissued q (h.issued q hq)
  | charges p q tokens refillMs hp hact hcom hc hgen hnext htokens hrefill hproposals hproposed =>
    obtain ⟨hle, hprice⟩ := h.priced p hp hc hgen
    rw [hact] at hprice
    obtain ⟨hlevel, rfl, hnamed⟩ := hprice
    obtain ⟨hsecond, htakes⟩ := refilled_takes h.whole hle
    have hbucket : (w.step C m call).state.bucket = ⟨tokens, p.nowMs.val / 1000⟩ := by
      simp [State.bucket, htokens, hrefill, hsecond]
    refine ⟨?_, ?_, .inr ⟨p, hissued p hp, ?_⟩, ?_, ?_, hpriced⟩
    · rw [hbucket, hproposed]
      rw [hlevel] at htakes
      have hone := htakes.one (by simp)
      simpa using h.metered.takes hone
    · rw [hrefill, hsecond]
      omega
    · rw [hrefill, Fin.le_def, hsecond]
      omega
    · intro x hx
      rw [hproposals] at hx
      rcases List.mem_append.mp hx with hx | hx
      · exact h.named x hx
      · rw [List.mem_singleton.mp hx]
        exact hnamed
    · intro x hx
      rw [hproposed] at hx
      rcases List.mem_cons.mp hx with rfl | hx
      · exact hissued x hp
      · exact hissued x (h.issued x hx)

theorem Reach.sound (h : Reach C m secret (PreviewsForward C m) w) : Sound w := by
  have hall : Fresh C m w ∧ Sound w := by
    apply Machine.Reach.invariant (I := fun w => Fresh C m w ∧ Sound w) _ _ h
    · exact fun w hs => ⟨fresh_start hs, sound_start hs⟩
    · intro w call hi hok
      exact ⟨fresh_step hi.1 hok.1, sound_step hi.1 hok.1 hok.2 hi.2⟩
  exact hall.2

/-- The committed proposals that were previewed from `t` to `L` milliseconds later. -/
def previewedIn (t L : ℕ) (w : World) : ℕ :=
  w.proposed.countP fun p => t ≤ p.nowMs.val ∧ p.nowMs.val ≤ t + L

theorem Sound.window (h : Sound w) (t L : ℕ) : w.previewedIn t L ≤ 2 + (L + 999) / 1000 := by
  have hwindow := h.metered.window (t / 1000) ((t + L) / 1000) (by omega)
  have hmono : w.previewedIn t L ≤
      between (t / 1000) ((t + L) / 1000) (w.proposed.map (·.nowMs.val / 1000)) := by
    rw [previewedIn, between, List.countP_map]
    refine List.countP_mono_left fun p _ hp => ?_
    simp only [decide_eq_true_eq, Function.comp] at hp ⊢
    omega
  omega

/-- The limit on new proposals, as it stands in a state of a run. -/
structure RateLimited (C : Crypto) (m : Manager) (w : World) : Prop where
  window : ∀ t L, w.previewedIn t L ≤ 2 + (L + 999) / 1000
  free : ∀ call, w.Owned m call →
    (∀ p ∈ w.committed m call, p.transition.action.caches = false) →
    (w.step C m call).state.proposalTokens = w.state.proposalTokens ∧
      (w.step C m call).state.proposalRefillMs = w.state.proposalRefillMs
  repeats : ∀ call, ∀ q ∈ w.state.proposals, call.plaintext? = some q.bytes →
    ∀ p ∈ w.previewed C m call, p.transition.action = .none
  idle : ∀ call p, call.commits? = some p → p.transition.action = .none →
    (w.step C m call).state = w.state
  unbounded : ∀ nowMs, Unbounded w.state nowMs

theorem committed_of_charge (hch : Charge C m w call)
    (hn : ∀ p ∈ w.committed m call, p.transition.action.caches = false) :
    Keeps w.state (w.step C m call).state := by
  cases hch with
  | keeps hk _ => exact hk
  | charges p q tokens refillMs _ hact hcom =>
    have := hn p hcom
    simp [hact, Action.caches] at this

theorem repeat_none {q : Proposal} {p : Previewed} (hr : Records w.state.proposals w.state.candidates)
    (hq : q ∈ w.state.proposals) (hn : q.Named) (hb : call.plaintext? = some q.bytes)
    (hp : w.previewed C m call = some p) : p.transition.action = .none := by
  cases call with
  | previewProtected plaintext b proof live nowMs =>
    obtain rfl := Option.some.inj hb
    obtain ⟨t, ht, rfl⟩ := Option.map_eq_some_iff.mp hp
    have hok := Outcome.toOption_eq_some.mp ht
    simp only [Manager.previewProtected, Outcome.ite_error_eq_ok] at hok
    exact previewInner_repeat hr.ids hq hn hok.2
  | previewProfile3 plaintext b proof nowMs =>
    obtain rfl := Option.some.inj hb
    obtain ⟨t, ht, rfl⟩ := Option.map_eq_some_iff.mp hp
    have hok := Outcome.toOption_eq_some.mp ht
    simp only [Manager.previewProfile3, Outcome.ite_error_eq_ok] at hok
    exact previewInner_repeat hr.ids hq hn hok.2.2
  | _ => simp [previewed] at hp

theorem commit_none {r : State × Except MobilityError Unit} {t : Transition}
    (hr : CommitEffect m s t r) (hn : t.action = .none) : r.1 = s := by
  rcases hr with ⟨hsame, -⟩ | ⟨-, -, -, hmut, -⟩
  · exact hsame
  · simp [hn, Action.mutates] at hmut

theorem idle_of_none {p : Previewed} (hcall : call.commits? = some p)
    (hn : p.transition.action = .none) : (w.step C m call).state = w.state := by
  cases call with
  | commitProtected q commit =>
    obtain rfl := Option.some.inj hcall
    exact commit_none (commitProtectedReplay_effect m w.state q.transition commit) hn
  | commitProfile3 q commit =>
    obtain rfl := Option.some.inj hcall
    exact commit_none (commitProfile3_effect m w.state q.transition commit) hn
  | _ => simp [Call.commits?] at hcall

theorem Reach.rateLimited (h : Reach C m secret (PreviewsForward C m) w) : RateLimited C m w := by
  have hsound := h.sound
  constructor
  · exact hsound.window
  · intro call ho hn
    have hk := committed_of_charge (step_charge (step_effect h.fresh ho)) hn
    exact ⟨hk.tokens, hk.refill⟩
  · exact fun call q hq hb p hp => repeat_none h.records hq (hsound.named q hq) hb hp
  · exact fun call p => idle_of_none
  · exact fun nowMs => Mobility.unbounded w.state nowMs hsound.full

/-- In a run from `w₀`, the proposals committed since: all but the oldest were previewed since,
because a commit outdates every earlier preview. -/
structure Since (w₀ w : World) (new : List Previewed) : Prop where
  proposed : w.proposed = new ++ w₀.proposed
  clock : w₀.clockMs ≤ w.clockMs
  recent : ∀ p ∈ new.dropLast, w₀.clockMs ≤ p.nowMs
  current : new ≠ [] → Current (fun p _ => w₀.clockMs ≤ p.nowMs) w

theorem since_step {w₀ : World} {new : List Previewed} (hf : Fresh C m w) (ho : w.Owned m call)
    (hfwd : w.Forward call) (h : Since w₀ w new) :
    ∃ new', Since w₀ (w.step C m call) new' := by
  have hclock := h.clock.trans (clock_le C m hfwd)
  cases step_charge (step_effect hf ho) with
  | keeps hk hp =>
    refine ⟨new, hp.trans h.proposed, hclock, h.recent, ?_⟩
    intro hne
    refine current_step hf ho (fun _ _ _ _ hle => hle) ?_ (h.current hne)
    intro p hp
    obtain ⟨-, -, -, -, -, -, -, ht⟩ := previewed_eq_some hp
    exact h.clock.trans (hfwd p.nowMs ht)
  | charges p q tokens refillMs hp hact hcom hc hgen hnext _ _ _ hproposed =>
    refine ⟨p :: new, by rw [hproposed, h.proposed]; rfl, hclock, ?_, ?_⟩
    · intro x hx
      cases new with
      | nil => simp at hx
      | cons y ys =>
        rw [List.dropLast_cons_of_ne_nil (by simp)] at hx
        rcases List.mem_cons.mp hx with rfl | hx
        · exact h.current (by simp) x hp hc hgen
        · exact h.recent x hx
    · -- nothing previewed before the commit is of its generation
      intro _ x hx _ hxgen
      exfalso
      rcases List.mem_append.mp hx with hx | hx
      · rw [(previewed_eq_some (Option.mem_toList.mp hx)).1] at hnext
        exact lt_irrefl _ hnext
      · exact absurd hxgen (ne_of_lt ((hf.behind x hx).trans_lt hnext))

theorem Reach.since {w₀ : World} (h : Reach C m secret (fun w call => w.Forward call) w₀)
    (hr : Machine.Run (step C m) (fun w call => w.Owned m call ∧ w.Forward call) w₀ w) :
    ∃ new, Since w₀ w new := by
  have hall : Fresh C m w ∧ ∃ new, Since w₀ w new := by
    apply Machine.Reach.invariant (I := fun w => Fresh C m w ∧ ∃ new, Since w₀ w new) _ _ hr
    · rintro _ rfl
      exact ⟨h.fresh, [], rfl, le_rfl, by simp, by simp⟩
    · rintro w call ⟨hf, new, hnew⟩ ⟨ho, hfwd⟩
      exact ⟨fresh_step hf ho, since_step hf ho hfwd hnew⟩
  exact hall.2

/-- With a forward clock no preview is behind an earlier one. -/
theorem Reach.previewsForward (h : Reach C m secret (fun w call => w.Forward call) w) :
    Reach C m secret (PreviewsForward C m) w := by
  have hstrong := h.strengthen (J := PreviewsForward C m) fun w call hr _ hfwd p hp q hq => by
    obtain ⟨-, -, -, -, -, -, -, ht⟩ := previewed_eq_some hp
    exact (hr.issued_le (fun _ _ hok => hok) q hq).trans (hfwd p.nowMs ht)
  exact hstrong.mono fun w call hok => ⟨hok.1, hok.2.2⟩

theorem committed_since {w₀ : World} (h : Reach C m secret (fun w call => w.Forward call) w₀)
    (hr : Machine.Run (step C m) (fun w call => w.Owned m call ∧ w.Forward call) w₀ w) :
    w.proposed.length ≤
      w₀.proposed.length + 3 + (w.clockMs.val - w₀.clockMs.val + 999) / 1000 := by
  obtain ⟨new, hnew⟩ := h.since hr
  have hreach : Reach C m secret (fun w call => w.Forward call) w := Machine.Reach.trans h hr
  have hsound := hreach.previewsForward.sound
  have hwindow := hsound.window w₀.clockMs.val (w.clockMs.val - w₀.clockMs.val)
  have hall : new.dropLast.countP (fun p => w₀.clockMs.val ≤ p.nowMs.val ∧
      p.nowMs.val ≤ w₀.clockMs.val + (w.clockMs.val - w₀.clockMs.val)) = new.dropLast.length := by
    refine List.countP_eq_length.mpr fun p hp => ?_
    have hmem : p ∈ w.proposed := by
      rw [hnew.proposed]
      exact List.mem_append_left _ (List.mem_of_mem_dropLast hp)
    have hafter : w₀.clockMs.val ≤ p.nowMs.val := hnew.recent p hp
    have hbefore : p.nowMs.val ≤ w.clockMs.val :=
      hreach.issued_le (fun _ _ hok => hok) p (hsound.issued p hmem)
    simp only [decide_eq_true_eq]
    omega
  have hcount : new.dropLast.length ≤
      w.previewedIn w₀.clockMs.val (w.clockMs.val - w₀.clockMs.val) := by
    rw [← hall, previewedIn, hnew.proposed]
    exact ((List.dropLast_sublist new).trans (List.sublist_append_left _ _)).countP_le
  have hlen : w.proposed.length = new.length + w₀.proposed.length := by
    rw [hnew.proposed, List.length_append]
  rw [List.length_dropLast] at hcount
  omega

/-- New proposals are limited at the times they are previewed, where the token is priced; at the
times they are committed one more can come in, the one that was already previewed. -/
theorem proposals_rate_limited (C : Crypto) (m : Manager) (secret : Bytes 32) :
    (∀ w, Reach C m secret (PreviewsForward C m) w → RateLimited C m w) ∧
      ∀ w w', Reach C m secret (fun w call => w.Forward call) w →
        Machine.Run (step C m) (fun w call => w.Owned m call ∧ w.Forward call) w w' →
        w'.proposed.length ≤
          w.proposed.length + 3 + (w'.clockMs.val - w.clockMs.val + 999) / 1000 :=
  ⟨fun _ h => h.rateLimited, fun _ _ h hr => committed_since h hr⟩

end World

namespace Scenario

/-- An update is previewed at 0 and still uncommitted at 10000. -/
def heldUpdate : World :=
  Machine.exec (World.step .sample manager) start
    ((receive start (signedUpdate start.state 1 1) (bindingOf 0) 0).take 1 ++ [.expire 10000])

theorem heldUpdate_issued : heldUpdate.issued ≠ [] := by decide +kernel

def commitHeld : Call :=
  .commitProtected (heldUpdate.issued.head heldUpdate_issued)
    fun proof => (⟨proof.preview, true⟩, .ok ())

/-- It is committed, and then the two updates the refilled bucket allows. -/
def crowded : World :=
  Machine.exec (World.step .sample manager) heldUpdate
    (commitHeld :: script (heldUpdate.step .sample manager commitHeld)
      [.call (.expire 10000), .update 2 1 10000, .update 3 1 10000])

theorem heldUpdate_reach :
    World.Reach .sample manager secret (fun w call => w.Forward call) heldUpdate :=
  Machine.Reach.exec (.start starts) _ (by decide +kernel)

theorem crowded_run : Machine.Run (World.step .sample manager)
    (fun w call => w.Owned manager call ∧ w.Forward call) heldUpdate crowded :=
  Machine.Reach.exec (Machine.Run.refl heldUpdate) _ (by decide +kernel)

theorem proposals_rate_limited_crowded : crowded.previewedIn 10000 0 ≤ 2 ∧
    crowded.proposed.length ≤ 3 := by
  obtain ⟨hlimited, hrun⟩ := World.proposals_rate_limited .sample manager secret
  have hreach : World.Reach .sample manager secret (fun w call => w.Forward call) crowded :=
    Machine.Reach.trans heldUpdate_reach crowded_run
  refine ⟨(hlimited _ hreach.previewsForward).window 10000 0, ?_⟩
  have hcount := hrun _ _ heldUpdate_reach crowded_run
  have hnone : heldUpdate.proposed.length = 0 := by decide +kernel
  have hstill : crowded.clockMs = heldUpdate.clockMs := by decide +kernel
  rw [hnone, hstill] at hcount
  simpa using hcount

/-- Three new proposals are committed at one moment. -/
theorem three_committed_at_once :
    ¬ ∀ (C : Crypto) (m : Manager) (secret : Bytes 32) (w w' : World),
      World.Reach C m secret (fun w call => w.Forward call) w →
      Machine.Run (World.step C m) (fun w call => w.Owned m call ∧ w.Forward call) w w' →
      w'.proposed.length ≤
        w.proposed.length + 2 + (w'.clockMs.val - w.clockMs.val + 999) / 1000 := by
  intro h
  have hcount := h .sample manager secret heldUpdate crowded heldUpdate_reach crowded_run
  have hthree : ¬ crowded.proposed.length ≤ heldUpdate.proposed.length + 2 +
      (crowded.clockMs.val - heldUpdate.clockMs.val + 999) / 1000 := by decide +kernel
  exact hthree hcount

end Scenario

end R8.Mobility
