import R8Protocol.Session.Limiter

/-! Runs of the prevalidation limiter: its rate, its table and the accounts of its sources. -/
namespace R8.Session

open FixedWidth TokenBucket

/-- An admitted call, with the accounting window of its source that it fell into. -/
structure Admission where
  source : Bytes 32
  windowStartedMs : U64
  requestBytes : U64
  responseBytes : U64
  nowMs : U64
  deriving DecidableEq, Repr

/-- The bytes asked for in one accounting window of a source. -/
def requestsIn (source : Bytes 32) (windowMs : U64) (admitted : List Admission) : ℕ :=
  ((admitted.filter fun x => x.source = source ∧ x.windowStartedMs = windowMs).map
    (·.requestBytes.val)).sum

/-- The bytes answered in it. -/
def responsesIn (source : Bytes 32) (windowMs : U64) (admitted : List Admission) : ℕ :=
  ((admitted.filter fun x => x.source = source ∧ x.windowStartedMs = windowMs).map
    (·.responseBytes.val)).sum

/-- A limiter and the time of its last call. The admitted calls are a ghost, newest first. -/
structure Metering where
  limiter : PrevalidationLimiter
  clockMs : U64
  admitted : List Admission

namespace Metering

def start : Metering := ⟨.new, 0, []⟩

def windowOf (sources : List SourceAllowance) (source : Bytes 32) : U64 :=
  ((sources.find? (·.source = source)).map (·.windowStartedMs)).getD 0

def admission (w : Metering) (a : Admit) : List Admission :=
  if (w.limiter.admitSource a).2 = .ok () then
    [⟨a.source, windowOf (w.limiter.admitSource a).1.sources a.source, a.requestBytes,
      a.responseBytes, a.nowMs⟩]
  else []

def step (w : Metering) (a : Admit) : Metering where
  limiter := (w.limiter.admitSource a).1
  clockMs := a.nowMs
  admitted := w.admission a ++ w.admitted

/-- The clock does not run backwards. -/
def Forward (w : Metering) (a : Admit) : Prop := w.clockMs ≤ a.nowMs

abbrev Reach : Metering → Prop := Machine.Reach (· = start) step Forward

end Metering

section Bucket

variable {l : PrevalidationLimiter} {nowMs : U64}

def PrevalidationLimiter.bucket (l : PrevalidationLimiter) : Bucket := ⟨l.tokens, l.tokenSecond⟩

theorem PrevalidationLimiter.refill_takes (nowMs : U64) (h : l.tokens ≤ 2000) :
    Takes 2000 1000 l.bucket (l.refill nowMs).bucket 0 := by
  by_cases hsecond : l.tokenSecond < nowMs.val / 1000
  · have htokens := refill_tokens hsecond
    have htick : (l.refill nowMs).tokenSecond = nowMs.val / 1000 := by
      rw [refill_tokenSecond]
      omega
    have hcut := Nat.mod_le ((nowMs.val / 1000 - l.tokenSecond) * 1000) (2 ^ 32)
    refine ⟨?_, ?_, ?_⟩
    · simp only [bucket, htick]
      omega
    · simp only [bucket, htokens]
      omega
    · simp only [bucket, htokens, htick]
      omega
  · have hsame : l.refill nowMs = l := if_neg hsecond
    rw [hsame]
    exact ⟨le_rfl, h, by simp⟩

end Bucket

section Table

variable {sources : List SourceAllowance} {entry e e' x : SourceAllowance} {a : Admit}
  {clockMs nowMs windowMs : U64} {admitted : List Admission} {source : Bytes 32} {y : Admission}

open PrevalidationLimiter

theorem requestsIn_cons : requestsIn source windowMs (y :: admitted) =
    (if y.source = source ∧ y.windowStartedMs = windowMs then y.requestBytes.val else 0) +
      requestsIn source windowMs admitted := by
  unfold requestsIn
  by_cases hy : y.source = source ∧ y.windowStartedMs = windowMs
  · simp [hy]
  · rw [List.filter_cons_of_neg (by simpa using hy), if_neg hy, Nat.zero_add]

theorem responsesIn_cons : responsesIn source windowMs (y :: admitted) =
    (if y.source = source ∧ y.windowStartedMs = windowMs then y.responseBytes.val else 0) +
      responsesIn source windowMs admitted := by
  unfold responsesIn
  by_cases hy : y.source = source ∧ y.windowStartedMs = windowMs
  · simp [hy]
  · rw [List.filter_cons_of_neg (by simpa using hy), if_neg hy, Nat.zero_add]

/-- The account of a source holds what has been admitted in its window. -/
def Counted (admitted : List Admission) (e : SourceAllowance) : Prop :=
  e.requestBytes.val = requestsIn e.source e.windowStartedMs admitted ∧
    e.responseBytes.val = responsesIn e.source e.windowStartedMs admitted

theorem counted_empty (hreq : e.requestBytes = 0) (hresp : e.responseBytes = 0)
    (h : ∀ y ∈ admitted, y.source = e.source → y.windowStartedMs ≠ e.windowStartedMs) :
    Counted admitted e := by
  have hnone : (admitted.filter fun y => y.source = e.source ∧
      y.windowStartedMs = e.windowStartedMs) = [] := by
    rw [List.filter_eq_nil_iff]
    intro y hy
    simpa using h y hy
  simp only [Counted, requestsIn, responsesIn, hnone, hreq, hresp]
  exact ⟨rfl, rfl⟩

theorem counted_cons_of_ne (h : Counted admitted e) (hy : y.source ≠ e.source) :
    Counted (y :: admitted) e := by
  obtain ⟨hrequests, hresponses⟩ := h
  refine ⟨?_, ?_⟩
  · rw [requestsIn_cons, if_neg (fun hsame => hy hsame.1), Nat.zero_add, hrequests]
  · rw [responsesIn_cons, if_neg (fun hsame => hy hsame.1), Nat.zero_add, hresponses]

/-- What the table says about the calls admitted so far. -/
structure Accounts (sources : List SourceAllowance) (clockMs : U64) (admitted : List Admission) :
    Prop where
  distinct : (sources.map (·.source)).Nodup
  room : sources.length ≤ 4096
  times : ∀ e ∈ sources, e.windowStartedMs ≤ e.lastSeenMs ∧ e.lastSeenMs ≤ clockMs
  counted : ∀ e ∈ sources, Counted admitted e
  -- a window that has been left started before the one its source is in now, or long ago
  settled : ∀ y ∈ admitted,
    (∃ e ∈ sources, e.source = y.source ∧ y.windowStartedMs ≤ e.windowStartedMs) ∨
      y.windowStartedMs.val + 20000 ≤ clockMs

theorem put_source (entry : SourceAllowance) (sources : List SourceAllowance) :
    (put entry sources).map (·.source) = sources.map (·.source) := by
  induction sources with
  | nil => rfl
  | cons e es ih =>
    unfold put at ih ⊢
    by_cases he : e.source = entry.source
    · simp [Lists.modifyFirst, he]
    · simp [Lists.modifyFirst, he, ih]

theorem mem_put (h : (sources.map (·.source)).Nodup) (hx : x ∈ put entry sources) :
    x = entry ∨ x ∈ sources ∧ x.source ≠ entry.source := by
  induction sources with
  | nil => cases hx
  | cons e es ih =>
    rw [List.map_cons, List.nodup_cons] at h
    unfold put at ih hx
    by_cases he : e.source = entry.source
    · simp only [Lists.modifyFirst, he, decide_true, if_true, List.mem_cons] at hx
      obtain rfl | hx := hx
      · exact .inl rfl
      · refine .inr ⟨List.mem_cons_of_mem e hx, ?_⟩
        intro hsource
        exact h.1 (List.mem_map.mpr ⟨x, hx, hsource.trans he.symm⟩)
    · simp only [Lists.modifyFirst, he, decide_false, Bool.false_eq_true, if_false,
        List.mem_cons] at hx
      obtain rfl | hx := hx
      · exact .inr ⟨List.mem_cons_self, he⟩
      · obtain hentry | ⟨hmem, hne⟩ := ih h.2 hx
        · exact .inl hentry
        · exact .inr ⟨List.mem_cons_of_mem e hmem, hne⟩

theorem find_put (h : e ∈ sources) (hsource : e.source = entry.source) :
    (put entry sources).find? (·.source = entry.source) = some entry := by
  induction sources with
  | nil => cases h
  | cons c es ih =>
    unfold put at ih ⊢
    by_cases hc : c.source = entry.source
    · simp [Lists.modifyFirst, hc]
    · obtain rfl | hmem := List.mem_cons.mp h
      · exact absurd hsource hc
      · simp [Lists.modifyFirst, hc, ih hmem]

/-- No admitted call of a source lies in a window that opens only now. -/
theorem Accounts.fresh (h : Accounts sources nowMs admitted)
    (hgone : ∀ e ∈ sources, e.source = source → e.windowStartedMs.val + 20000 ≤ nowMs) :
    ∀ y ∈ admitted, y.source = source → y.windowStartedMs ≠ nowMs := by
  intro y hy hsource heq
  obtain ⟨e, he, hsame, hle⟩ | hold := h.settled y hy
  · have hopen := hgone e he (hsame.trans hsource)
    have hle : y.windowStartedMs.val ≤ e.windowStartedMs.val := hle
    rw [heq] at hle
    omega
  · rw [heq] at hold
    omega

theorem Accounts.later (h : Accounts sources clockMs admitted) (hnow : clockMs ≤ nowMs) :
    Accounts sources nowMs admitted where
  distinct := h.distinct
  room := h.room
  times e he := ⟨(h.times e he).1, (h.times e he).2.trans hnow⟩
  counted := h.counted
  settled y hy := (h.settled y hy).imp_right fun hold => hold.trans hnow

theorem Accounts.retain (h : Accounts sources nowMs admitted) :
    Accounts (sources.filter (·.live nowMs)) nowMs admitted where
  distinct := h.distinct.sublist (List.filter_sublist.map _)
  room := (List.length_filter_le _ _).trans h.room
  times e he := h.times e (List.mem_of_mem_filter he)
  counted e he := h.counted e (List.mem_of_mem_filter he)
  settled y hy := by
    obtain ⟨e, he, hsource, hle⟩ | hold := h.settled y hy
    · by_cases hlive : e.live nowMs = true
      · exact .inl ⟨e, List.mem_filter.mpr ⟨he, hlive⟩, hsource, hle⟩
      · -- the entry that goes was last seen after the window had started
        right
        obtain ⟨hseen, -⟩ := h.times e he
        have hlive : ¬ nowMs.val - e.lastSeenMs.val < 20000 := fun hlt => hlive (decide_eq_true hlt)
        have hle : y.windowStartedMs.val ≤ e.windowStartedMs.val := hle
        have hseen : e.windowStartedMs.val ≤ e.lastSeenMs.val := hseen
        have hlast : e.lastSeenMs.val ≤ nowMs.val := (h.times e he).2
        omega
    · exact .inr hold

theorem Accounts.push (h : Accounts sources nowMs admitted) (hroom : sources.length < 4096)
    (hnew : ∀ e ∈ sources, e.source ≠ source) :
    Accounts (sources ++ [.new source nowMs]) nowMs admitted where
  distinct := by
    rw [List.map_append, List.nodup_append]
    refine ⟨h.distinct, by simp, ?_⟩
    intro s hs t ht heq
    obtain ⟨e, he, rfl⟩ := List.mem_map.mp hs
    simp only [List.map_cons, List.map_nil, List.mem_singleton] at ht
    exact hnew e he (heq.trans ht)
  room := by
    rw [List.length_append, List.length_singleton]
    exact hroom
  times e he := by
    obtain he | he := List.mem_append.mp he
    · exact h.times e he
    · rw [List.mem_singleton.mp he]
      exact ⟨le_rfl, le_rfl⟩
  counted e he := by
    obtain he | he := List.mem_append.mp he
    · exact h.counted e he
    · rw [List.mem_singleton.mp he]
      exact counted_empty rfl rfl
        (h.fresh fun e he hsource => absurd hsource (hnew e he))
  settled y hy := by
    obtain ⟨e, he, hsame⟩ | hold := h.settled y hy
    · exact .inl ⟨e, List.mem_append_left _ he, hsame⟩
    · exact .inr hold

theorem Accounts.counted_restart (h : Accounts sources nowMs admitted) (he : e ∈ sources) :
    Counted admitted (e.restart nowMs) := by
  unfold SourceAllowance.restart
  split
  · rename_i hwindow
    refine counted_empty rfl rfl (h.fresh ?_)
    intro x hx hsource
    rw [List.inj_on_of_nodup_map h.distinct hx he hsource]
    rw [satSub_val] at hwindow
    omega
  · exact h.counted e he

theorem restart_window (h : e.windowStartedMs ≤ nowMs) :
    e.windowStartedMs ≤ (e.restart nowMs).windowStartedMs ∧
      (e.restart nowMs).windowStartedMs ≤ nowMs := by
  unfold SourceAllowance.restart
  split
  · exact ⟨h, le_rfl⟩
  · exact ⟨le_rfl, h⟩

/-- An admitted call is added to the account of its source and to no other. -/
theorem Accounts.charge (h : Accounts sources a.nowMs admitted) (he : e ∈ sources)
    (hsource : e.source = a.source) (hcharge : (e.restart a.nowMs).charge a = .ok e') :
    Accounts (put e' sources) a.nowMs
      (⟨a.source, e'.windowStartedMs, a.requestBytes, a.responseBytes, a.nowMs⟩ :: admitted) := by
  obtain ⟨hs, hw, hseen, hreq, hresp, -⟩ := SourceAllowance.charge_eq_ok hcharge
  rw [SourceAllowance.restart_source, hsource] at hs
  obtain ⟨hrequests, hresponses⟩ := h.counted_restart he
  rw [SourceAllowance.restart_source, hsource, ← hw] at hrequests hresponses
  obtain ⟨hopened, hclosed⟩ := restart_window ((h.times e he).1.trans (h.times e he).2)
  rw [← hw] at hopened hclosed
  have hfind : (put e' sources).find? (·.source = e'.source) = some e' :=
    find_put he (hsource.trans hs.symm)
  have hmem : e' ∈ put e' sources := List.mem_of_find?_eq_some hfind
  refine ⟨?_, ?_, ?_, ?_, ?_⟩
  · rw [put_source]
    exact h.distinct
  · have hlen := congrArg List.length (put_source e' sources)
    rw [List.length_map, List.length_map] at hlen
    exact hlen ▸ h.room
  · intro x hx
    obtain rfl | ⟨hx, -⟩ := mem_put h.distinct hx
    · rw [hseen]
      exact ⟨hclosed, le_rfl⟩
    · exact h.times x hx
  · intro x hx
    obtain rfl | ⟨hx, hne⟩ := mem_put h.distinct hx
    · refine ⟨?_, ?_⟩
      · rw [requestsIn_cons, if_pos ⟨hs.symm, rfl⟩, hreq, hrequests, hs, Nat.add_comm]
      · rw [responsesIn_cons, if_pos ⟨hs.symm, rfl⟩, hresp, hresponses, hs, Nat.add_comm]
    · exact counted_cons_of_ne (h.counted x hx) fun hsame => hne (hsame.symm.trans hs.symm)
  · intro y hy
    obtain rfl | hy := List.mem_cons.mp hy
    · exact .inl ⟨e', hmem, hs, le_rfl⟩
    · obtain ⟨x, hx, hsame, hle⟩ | hold := h.settled y hy
      · by_cases hxs : x.source = e'.source
        · have hxe := List.inj_on_of_nodup_map h.distinct hx he (by rw [hxs, hs, hsource])
          exact .inl ⟨e', hmem, hxs.symm.trans hsame, hle.trans (hxe ▸ hopened)⟩
        · exact .inl ⟨x, Lists.mem_modifyFirst_of_not hx (by simpa using hxs), hsame, hle⟩
      · exact .inr hold

end Table

namespace Metering

open PrevalidationLimiter

variable {w : Metering} {a : Admit}

/-- What holds in every state of a run. -/
structure Sound (w : Metering) : Prop where
  accounts : Accounts w.limiter.sources w.clockMs w.admitted
  metered : Metered 2000 1000 w.limiter.bucket (w.admitted.map fun x => x.nowMs.val / 1000)
  second : w.limiter.tokenSecond ≤ w.clockMs.val / 1000
  covered : ∀ x ∈ w.admitted, x.responseBytes ≤ x.requestBytes

theorem sound_start : Sound start where
  accounts := ⟨by simp [start, PrevalidationLimiter.new], by simp [start, PrevalidationLimiter.new],
    by simp [start, PrevalidationLimiter.new], by simp [start, PrevalidationLimiter.new],
    by simp [start]⟩
  metered := Metered.start 0
  second := Nat.zero_le _
  covered := by simp [start]

theorem Sound.tokens (h : Sound w) : w.limiter.tokens ≤ 2000 := by
  have hlevel := h.metered.level w.limiter.tokenSecond le_rfl
  simp only [bucket] at hlevel
  omega

theorem step_of_error (herr : (w.limiter.admitSource a).2 ≠ .ok ()) :
    (w.step a).admitted = w.admitted := by
  simp [step, admission, herr]

theorem accounts_step (h : Sound w) (hf : w.Forward a) :
    Accounts (w.step a).limiter.sources a.nowMs (w.step a).admitted := by
  have hlater := h.accounts.later hf
  obtain ⟨hok, -, hadmits⟩ | ⟨herr, -, hrefuses⟩ := admitSource_cases w.limiter a
  · obtain ⟨entry, sources, entry', hentry, hcharge, hl⟩ := hadmits.table
    have htable : Accounts sources a.nowMs w.admitted ∧ entry ∈ sources ∧
        entry.source = a.source := by
      obtain ⟨hfind, rfl⟩ | ⟨hnew, hroom, rfl, rfl⟩ := entryFor_cases hentry
      · refine ⟨hlater.retain, List.mem_of_find?_eq_some hfind, ?_⟩
        simpa using List.find?_some hfind
      · exact ⟨hlater.retain.push hroom hnew, by simp, rfl⟩
    obtain ⟨haccounts, hmem, hsource⟩ := htable
    have hs : entry'.source = a.source := by
      rw [(SourceAllowance.charge_eq_ok hcharge).1, SourceAllowance.restart_source, hsource]
    have hwindow : windowOf (w.limiter.admitSource a).1.sources a.source = entry'.windowStartedMs := by
      rw [hl, windowOf, ← hs, find_put hmem (hsource.trans hs.symm)]
      rfl
    have hadmitted : (w.step a).admitted = ⟨a.source, entry'.windowStartedMs, a.requestBytes,
        a.responseBytes, a.nowMs⟩ :: w.admitted := by
      simp only [step, admission, hok, if_true, hwindow, List.singleton_append]
    have hsources : (w.step a).limiter.sources = put entry' sources := by
      simp only [step, hl]
    rw [hadmitted, hsources]
    exact haccounts.charge hmem hsource hcharge
  · rw [step_of_error (by rw [herr]; simp)]
    obtain hsame | hretained := hrefuses.sources
    · simp only [step, hsame]
      exact hlater
    · simp only [step, hretained]
      exact hlater.retain

theorem metered_step (h : Sound w) (hf : w.Forward a) :
    Metered 2000 1000 (w.step a).limiter.bucket
      ((w.step a).admitted.map fun x => x.nowMs.val / 1000) := by
  have htakes := refill_takes a.nowMs h.tokens
  obtain ⟨hok, -, hadmits⟩ | ⟨herr, -, hrefuses⟩ := admitSource_cases w.limiter a
  · obtain ⟨entry, sources, entry', -, -, hl⟩ := hadmits.table
    have hone := htakes.one hadmits.token
    have htick : (w.limiter.refill a.nowMs).tokenSecond = a.nowMs.val / 1000 := by
      have hclock := h.second
      have hforward : w.clockMs.val ≤ a.nowMs.val := hf
      rw [refill_tokenSecond]
      omega
    have hnext := h.metered.takes hone
    simp only [bucket, htick, List.replicate_one, List.singleton_append] at hnext
    simp only [step, admission, hok, if_true, hl, bucket, htick, List.singleton_append,
      List.map_cons]
    exact hnext
  · have hnext := h.metered.takes htakes
    rw [step_of_error (by rw [herr]; simp)]
    have hbucket : (w.step a).limiter.bucket = (w.limiter.refill a.nowMs).bucket := by
      simp only [step, bucket, hrefuses.tokens, hrefuses.tokenSecond]
    rw [hbucket]
    simpa using hnext

theorem sound_step (h : Sound w) (hf : w.Forward a) : Sound (w.step a) where
  accounts := accounts_step h hf
  metered := metered_step h hf
  second := by
    have hclock := h.second
    have hforward : w.clockMs.val ≤ a.nowMs.val := hf
    have hsecond : (w.step a).limiter.tokenSecond = (w.limiter.refill a.nowMs).tokenSecond := by
      obtain ⟨-, -, hadmits⟩ | ⟨-, -, hrefuses⟩ := admitSource_cases w.limiter a
      · obtain ⟨entry, sources, entry', -, -, hl⟩ := hadmits.table
        simp only [step, hl]
      · exact hrefuses.tokenSecond
    rw [hsecond, refill_tokenSecond]
    simp only [step]
    omega
  covered x hx := by
    obtain ⟨hok, hadm, -⟩ | ⟨herr, -, -⟩ := admitSource_cases w.limiter a
    · simp only [step, admission, hok, if_true, List.singleton_append, List.mem_cons] at hx
      obtain rfl | hx := hx
      · exact hadm.bytes
      · exact h.covered x hx
    · rw [step_of_error (by rw [herr]; simp)] at hx
      exact h.covered x hx

theorem Reach.sound (h : Reach w) : Sound w :=
  by
  refine Machine.Reach.invariant ?_ (fun _ _ hw hf => sound_step hw hf) h
  rintro _ rfl
  exact sound_start

theorem responsesIn_le {admitted : List Admission}
    (h : ∀ x ∈ admitted, x.responseBytes ≤ x.requestBytes) (source : Bytes 32) (windowMs : U64) :
    responsesIn source windowMs admitted ≤ requestsIn source windowMs admitted :=
  List.sum_le_sum fun x hx => h x (List.mem_of_mem_filter hx)

/-- The calls admitted between two times. -/
def admittedBetween (w : Metering) (t₁ t₂ : ℕ) : ℕ :=
  w.admitted.countP fun x => t₁ ≤ x.nowMs.val ∧ x.nowMs.val ≤ t₂

theorem admittedBetween_le (w : Metering) (t₁ t₂ : ℕ) : w.admittedBetween t₁ t₂ ≤
    between (t₁ / 1000) (t₂ / 1000) (w.admitted.map fun x => x.nowMs.val / 1000) := by
  rw [between, List.countP_map]
  apply List.countP_mono_left
  intro x _ hx
  simp only [decide_eq_true_eq, Function.comp_apply] at hx ⊢
  exact ⟨Nat.div_le_div_right hx.1, Nat.div_le_div_right hx.2⟩

/-- The limiter keeps to its rate over every stretch of time and to its table, and what it answers
in an accounting window of a source is covered by what the source asked for in it. -/
theorem admissions_bounded (h : Reach w) :
    (∀ t₁ t₂, t₁ ≤ t₂ →
      w.admittedBetween t₁ t₂ ≤ 2000 + 1000 * (t₂ / 1000 - t₁ / 1000)) ∧
    w.limiter.sources.length ≤ 4096 ∧ (w.limiter.sources.map (·.source)).Nodup ∧
    (∀ e ∈ w.limiter.sources, Counted w.admitted e) ∧
    ∀ source windowMs,
      responsesIn source windowMs w.admitted ≤ requestsIn source windowMs w.admitted := by
  have hsound := h.sound
  refine ⟨?_, hsound.accounts.room, hsound.accounts.distinct, hsound.accounts.counted,
    responsesIn_le hsound.covered⟩
  intro t₁ t₂ ht
  exact (w.admittedBetween_le t₁ t₂).trans (hsound.metered.window _ _ (Nat.div_le_div_right ht))

namespace Rush

/-- The calls of one source that stays within its account. -/
def call (nowMs : U64) : Admit := ⟨zeros 32, 170, 170, nowMs⟩

/-- The source after `n` of them, the first at 5 ms. -/
def account (n : ℕ) (seenMs : U64) : SourceAllowance :=
  ⟨zeros 32, 5, seenMs, Fin.ofNat _ (170 * n), Fin.ofNat _ (170 * n)⟩

def entry (nowMs : U64) : Admission := ⟨zeros 32, 5, 170, 170, nowMs⟩

/-- The limiter after `n` calls, with tokens left in the second of the last one. -/
def charged (n tokens : ℕ) (nowMs : U64) (admitted : List Admission) : Metering :=
  ⟨⟨[account n nowMs], tokens, nowMs.val / 1000⟩, nowMs, admitted⟩

variable {n k tokens : ℕ} {seenMs nowMs : U64} {admitted : List Admission}

/-- The account never runs over, so it takes one call more. -/
theorem charge_account (h : n < 10000) :
    (account n seenMs).charge (call nowMs) = .ok (account (n + 1) nowMs) := by
  have hold : (Fin.ofNat (2 ^ 64) (170 * n)).val = 170 * n := by
    rw [Fin.val_ofNat, Nat.mod_eq_of_lt (by omega)]
  have hnew : (Fin.ofNat (2 ^ 64) (170 * (n + 1))).val = 170 * (n + 1) := by
    rw [Fin.val_ofNat, Nat.mod_eq_of_lt (by omega)]
  have hsum : checkedAdd (Fin.ofNat (2 ^ 64) (170 * n)) (170 : U64) =
      some (Fin.ofNat _ (170 * (n + 1))) := by
    refine checkedAdd_eq_some.mpr ?_
    rw [hold, hnew]
    exact Nat.mul_succ 170 n
  simp only [SourceAllowance.charge, account, call, hsum, lt_irrefl, if_false]

/-- Nothing has lapsed before the window of the source is over. -/
theorem restart_account (hnow : nowMs.val < 20000) :
    (account n seenMs).restart nowMs = account n seenMs :=
  if_neg (not_le.mpr ((Nat.sub_le ..).trans_lt hnow))

theorem entryFor_charged (hnow : nowMs.val < 20000) :
    ((charged n tokens seenMs admitted).limiter.retain nowMs).entryFor (zeros 32) nowMs =
      some (account n seenMs, [account n seenMs]) := by
  have hlive : (account n seenMs).live nowMs = true :=
    decide_eq_true ((Nat.sub_le ..).trans_lt hnow)
  have hretain : (charged n tokens seenMs admitted).limiter.retain nowMs =
      (charged n tokens seenMs admitted).limiter := by
    simp only [retain, charged, List.filter_cons_of_pos hlive, List.filter_nil]
  rw [hretain]
  simp [entryFor, charged, account]

/-- A token in the bucket is enough. -/
theorem admitSource_charged (hn : n < 10000) (hnow : nowMs.val < 20000)
    (hsecond : seenMs.val / 1000 ≤ nowMs.val / 1000)
    (htokens : ((charged n tokens seenMs admitted).limiter.refill nowMs).tokens = k + 1) :
    (charged n tokens seenMs admitted).limiter.admitSource (call nowMs) =
      (⟨[account (n + 1) nowMs], k, nowMs.val / 1000⟩, .ok ()) := by
  have hcharge : ((account n seenMs).restart nowMs).charge (call nowMs) =
      .ok (account (n + 1) nowMs) := by
    rw [restart_account hnow]
    exact charge_account hn
  have hentry : ((charged n tokens seenMs admitted).limiter.retain nowMs).entryFor (zeros 32)
      nowMs = some (account n seenMs, [account n seenMs]) := entryFor_charged hnow
  obtain ⟨hok, -, hadmits⟩ | ⟨-, hwhy, -⟩ :=
    admitSource_cases (charged n tokens seenMs admitted).limiter (call nowMs)
  · obtain ⟨e, sources, e', he, he', hafter⟩ := hadmits.table
    obtain ⟨rfl, rfl⟩ := Prod.mk.inj (Option.some.inj (hentry.symm.trans he))
    obtain rfl := Except.ok.inj (hcharge.symm.trans he')
    have hput : put (account (n + 1) nowMs) [account n seenMs] = [account (n + 1) nowMs] := by
      simp [put, Lists.modifyFirst, account]
    have hsec : ((charged n tokens seenMs admitted).limiter.refill nowMs).tokenSecond =
        nowMs.val / 1000 := by
      rw [refill_tokenSecond]
      exact max_eq_right hsecond
    refine Prod.ext ?_ hok
    rw [hafter, hput]
    change PrevalidationLimiter.mk _
      (((charged n tokens seenMs admitted).limiter.refill nowMs).tokens - 1)
      ((charged n tokens seenMs admitted).limiter.refill nowMs).tokenSecond = _
    rw [htokens, hsec]
    rfl
  · have htoken : ((charged n tokens seenMs admitted).limiter.refill nowMs).tokens ≠ 0 :=
      htokens.trans_ne k.succ_ne_zero
    exact (hwhy.elim htoken fun h => h ⟨le_rfl, _, _, _, hentry, hcharge⟩).elim

theorem step_charged (hn : n < 10000) (hnow : nowMs.val < 20000)
    (hsecond : seenMs.val / 1000 ≤ nowMs.val / 1000)
    (htokens : ((charged n tokens seenMs admitted).limiter.refill nowMs).tokens = k + 1) :
    (charged n tokens seenMs admitted).step (call nowMs) =
      charged (n + 1) k nowMs (entry nowMs :: admitted) := by
  unfold step admission
  rw [admitSource_charged hn hnow hsecond htokens]
  simp [charged, windowOf, account, call, entry]

/-- A call that finds the bucket empty in its second changes nothing. -/
theorem step_empty (admitted : List Admission) :
    (charged n 0 nowMs admitted).step (call nowMs) = charged n 0 nowMs admitted := by
  have hrefill : (charged n 0 nowMs admitted).limiter.refill nowMs =
      (charged n 0 nowMs admitted).limiter := if_neg (lt_irrefl _)
  have hrefused : (charged n 0 nowMs admitted).limiter.admitSource (call nowMs) =
      ((charged n 0 nowMs admitted).limiter, .error .capacity) := by
    unfold admitSource
    rw [show (call nowMs).nowMs = nowMs from rfl, hrefill]
    exact if_pos (.inl rfl)
  unfold step admission
  rw [hrefused]
  simp [charged, call]

/-- Calls of one second, one for each token. -/
theorem exec_charged (hn : n + k ≤ 10000) (hnow : nowMs.val < 20000) :
    Machine.exec step (charged n k nowMs admitted) (List.replicate k (call nowMs)) =
      charged (n + k) 0 nowMs (List.replicate k (entry nowMs) ++ admitted) := by
  induction k generalizing n admitted with
  | zero => rfl
  | succ k ih =>
    have hrefill : (charged n (k + 1) nowMs admitted).limiter.refill nowMs =
        (charged n (k + 1) nowMs admitted).limiter := if_neg (lt_irrefl _)
    have hstep : (charged n (k + 1) nowMs admitted).step (call nowMs) =
        charged (n + 1) k nowMs (entry nowMs :: admitted) :=
      step_charged (by omega) hnow le_rfl (by rw [hrefill]; rfl)
    rw [List.replicate_succ]
    change Machine.exec step ((charged n (k + 1) nowMs admitted).step (call nowMs)) _ = _
    rw [hstep, ih (by omega), List.replicate_succ', List.append_assoc, Nat.add_right_comm]
    rfl

/-- A second in which the source calls once more than there are tokens. -/
theorem exec_drained {w : Metering}
    (hfirst : w.step (call nowMs) = charged n k nowMs (entry nowMs :: admitted))
    (hn : n + k ≤ 10000) (hnow : nowMs.val < 20000) :
    Machine.exec step w (List.replicate (k + 2) (call nowMs)) =
      charged (n + k) 0 nowMs (List.replicate (k + 1) (entry nowMs) ++ admitted) := by
  rw [List.replicate_succ, List.replicate_succ']
  change Machine.exec step (w.step (call nowMs)) _ = _
  rw [hfirst, Machine.exec, List.foldl_append]
  change (Machine.exec step _ (List.replicate k (call nowMs))).step (call nowMs) = _
  rw [exec_charged hn hnow, step_empty, List.replicate_succ', List.append_assoc]
  rfl

theorem forward_replicate {w : Metering} (hclock : w.clockMs ≤ nowMs) (k : ℕ) :
    Machine.Allowed step Forward w (List.replicate k (call nowMs)) := by
  induction k generalizing w with
  | zero => trivial
  | succ k ih => exact ⟨hclock, ih le_rfl⟩

theorem admittedBetween_charged (a b t₁ t₂ : ℕ) :
    (charged n k nowMs (List.replicate a (entry nowMs) ++
      List.replicate b (entry seenMs))).admittedBetween t₁ t₂ =
    (if t₁ ≤ nowMs.val ∧ nowMs.val ≤ t₂ then a else 0) +
      if t₁ ≤ seenMs.val ∧ seenMs.val ≤ t₂ then b else 0 := by
  simp [admittedBetween, charged, entry, List.countP_replicate]

/-- The first second of a source that calls too often. -/
def drained : Metering := Machine.exec step start (List.replicate 2001 (call 5))

/-- And its next. -/
def refilled : Metering := Machine.exec step drained (List.replicate 1001 (call 1005))

theorem drained_eq : drained = charged 2000 0 5 (List.replicate 2000 (entry 5)) := by
  have hfirst : start.step (call 5) = charged 1 1999 5 [entry 5] := by
    rw [charged, step, Metering.mk.injEq]
    exact ⟨by decide +kernel, rfl, by decide +kernel⟩
  rw [drained, exec_drained hfirst (by omega) (by decide), List.append_nil]

theorem refilled_eq : refilled = charged 3000 0 1005
    (List.replicate 1000 (entry 1005) ++ List.replicate 2000 (entry 5)) := by
  have hsecond : (5 : U64).val / 1000 < (1005 : U64).val / 1000 := by decide
  have hrefill (admitted) : ((charged 2000 0 5 admitted).limiter.refill 1005).tokens = 999 + 1 := by
    rw [refill_tokens (l := (charged 2000 0 5 admitted).limiter) hsecond]
    change min (0 + ((1005 : U64).val / 1000 - (5 : U64).val / 1000) * 1000 % 2 ^ 32) 2000 = 1000
    decide
  have hfirst : drained.step (call 1005) =
      charged 2001 999 1005 (entry 1005 :: List.replicate 2000 (entry 5)) := by
    rw [drained_eq]
    exact step_charged (by omega) (by decide) hsecond.le (hrefill _)
  exact exec_drained hfirst (by omega) (by decide)

theorem refilled_reach : Reach refilled := by
  have hstart : Reach start := .start rfl
  have hdrained : Reach drained := hstart.exec _ (forward_replicate (Fin.zero_le _) 2001)
  refine hdrained.exec _ (forward_replicate ?_ 1001)
  rw [drained_eq]
  decide

end Rush

/-- The rate is met exactly: a full bucket, and what the next second puts in. -/
theorem admissions_bounded_drained :
    Rush.refilled.limiter.tokens = 0 ∧ Rush.refilled.admittedBetween 0 999 = 2000 ∧
    Rush.refilled.admittedBetween 0 1999 = 3000 ∧
    Rush.refilled.admittedBetween 0 999 ≤ 2000 + 1000 * (999 / 1000 - 0 / 1000) ∧
    Rush.refilled.admittedBetween 0 1999 ≤ 2000 + 1000 * (1999 / 1000 - 0 / 1000) := by
  have hbound := (admissions_bounded Rush.refilled_reach).1
  refine ⟨?_, ?_, ?_, hbound 0 999 (by omega), hbound 0 1999 (by omega)⟩
  · rw [Rush.refilled_eq]
    rfl
  · rw [Rush.refilled_eq, Rush.admittedBetween_charged]
    rfl
  · rw [Rush.refilled_eq, Rush.admittedBetween_charged]
    rfl

end Metering

end R8.Session
