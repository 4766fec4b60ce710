import R8Protocol.Lib.Bucket
import R8Protocol.Lib.Lists
import R8Protocol.Lib.Machine
import R8Protocol.Session.Identity

/-! The prevalidation limiter: one bucket of tokens for all sources and a byte account for each. -/
namespace R8.Session

open FixedWidth TokenBucket

structure SourceAllowance where
  source : Bytes 32
  windowStartedMs : U64
  lastSeenMs : U64
  requestBytes : U64
  responseBytes : U64
  deriving DecidableEq, Repr

structure PrevalidationLimiter where
  sources : List SourceAllowance
  tokens : ℕ
  tokenSecond : ℕ
  deriving DecidableEq, Repr

/-- The arguments of a call of `admit`. -/
structure Admit where
  source : Bytes 32
  requestBytes : U64
  responseBytes : U64
  nowMs : U64

namespace SourceAllowance

def new (source : Bytes 32) (nowMs : U64) : SourceAllowance := ⟨source, nowMs, nowMs, 0, 0⟩

def live (nowMs : U64) (e : SourceAllowance) : Bool := (satSub nowMs e.lastSeenMs).val < 20000

def restart (nowMs : U64) (e : SourceAllowance) : SourceAllowance :=
  if 20000 ≤ (satSub nowMs e.windowStartedMs).val then
    { e with windowStartedMs := nowMs, requestBytes := 0, responseBytes := 0 }
  else e

def charge (e : SourceAllowance) (a : Admit) : Except SessionError SourceAllowance :=
  match checkedAdd e.requestBytes a.requestBytes with
  | none => .error .capacity
  | some requests =>
    match checkedAdd e.responseBytes a.responseBytes with
    | none => .error .capacity
    | some responses =>
      if requests < responses then .error .capacity
      else .ok { e with
        requestBytes := requests
        responseBytes := responses
        lastSeenMs := a.nowMs }

end SourceAllowance

namespace PrevalidationLimiter

def new : PrevalidationLimiter := ⟨[], 2000, 0⟩

/-- The product saturates at 64 bits and is then cut to the 32 of the token count. -/
def refill (l : PrevalidationLimiter) (nowMs : U64) : PrevalidationLimiter :=
  let second := nowMs.val / 1000
  if l.tokenSecond < second then
    let added := min ((second - l.tokenSecond) * 1000) (2 ^ 64 - 1) % 2 ^ 32
    { l with tokens := min (min (l.tokens + added) (2 ^ 32 - 1)) 2000, tokenSecond := second }
  else l

def retain (l : PrevalidationLimiter) (nowMs : U64) : PrevalidationLimiter :=
  { l with sources := l.sources.filter (·.live nowMs) }

/-- The entry of a source and the table it stands in, with a new one pushed while there is room. -/
def entryFor (l : PrevalidationLimiter) (source : Bytes 32) (nowMs : U64) :
    Option (SourceAllowance × List SourceAllowance) :=
  match l.sources.find? (·.source = source) with
  | some entry => some (entry, l.sources)
  | none =>
    if l.sources.length < 4096 then
      some (.new source nowMs, l.sources ++ [.new source nowMs])
    else none

/-- Writes an entry through the reference that was taken to it. -/
def put (entry : SourceAllowance) (sources : List SourceAllowance) : List SourceAllowance :=
  Lists.modifyFirst (·.source = entry.source) (fun _ => entry) sources

/-- `admit` of the source. -/
def admitSource (l : PrevalidationLimiter) (a : Admit) :
    PrevalidationLimiter × Except SessionError Unit :=
  let l := l.refill a.nowMs
  if l.tokens = 0 ∨ a.requestBytes < a.responseBytes then (l, .error .capacity)
  else
    let l := l.retain a.nowMs
    match l.entryFor a.source a.nowMs with
    | none => (l, .error .capacity)
    | some (entry, sources) =>
      let entry := entry.restart a.nowMs
      match entry.charge a with
      | .error e => ({ l with sources := put entry sources }, .error e)
      | .ok entry => ({ l with sources := put entry sources, tokens := l.tokens - 1 }, .ok ())

end PrevalidationLimiter

namespace SourceAllowance

variable {e e' : SourceAllowance} {a : Admit} {nowMs : U64}

@[simp] theorem restart_source : (e.restart nowMs).source = e.source := by
  unfold restart
  split <;> rfl

theorem charge_eq_ok (h : e.charge a = .ok e') :
    e'.source = e.source ∧ e'.windowStartedMs = e.windowStartedMs ∧ e'.lastSeenMs = a.nowMs ∧
      e'.requestBytes.val = e.requestBytes + a.requestBytes ∧
      e'.responseBytes.val = e.responseBytes + a.responseBytes ∧
      e'.responseBytes ≤ e'.requestBytes := by
  unfold charge at h
  split at h
  · simp at h
  · rename_i requests hrequests
    split at h
    · simp at h
    · rename_i responses hresponses
      split at h
      · simp at h
      · rename_i hle
        obtain rfl := Except.ok.inj h
        exact ⟨rfl, rfl, rfl, checkedAdd_eq_some.mp hrequests, checkedAdd_eq_some.mp hresponses,
          not_lt.mp hle⟩

theorem charge_eq_error {err : SessionError} (h : e.charge a = .error err) : err = .capacity := by
  unfold charge at h
  split at h
  · exact (Except.error.inj h).symm
  · split at h
    · exact (Except.error.inj h).symm
    · split at h
      · exact (Except.error.inj h).symm
      · cases h

/-- An empty account takes any request whose answer is no longer than itself. -/
theorem charge_empty (hreq : e.requestBytes = 0) (hresp : e.responseBytes = 0)
    (h : a.responseBytes ≤ a.requestBytes) : ∃ e', e.charge a = .ok e' := by
  have hrequests : checkedAdd e.requestBytes a.requestBytes = some a.requestBytes :=
    checkedAdd_eq_some.mpr (by simp [hreq])
  have hresponses : checkedAdd e.responseBytes a.responseBytes = some a.responseBytes :=
    checkedAdd_eq_some.mpr (by simp [hresp])
  simp only [charge, hrequests, hresponses, if_neg (not_lt.mpr h)]
  exact ⟨_, rfl⟩

theorem restart_charge_error {err : SessionError} (h : (e.restart nowMs).charge a = .error err)
    (hle : a.responseBytes ≤ a.requestBytes) : e.restart nowMs = e := by
  by_cases hwindow : 20000 ≤ (satSub nowMs e.windowStartedMs).val
  · have hempty : (e.restart nowMs).requestBytes = 0 ∧ (e.restart nowMs).responseBytes = 0 := by
      simp [restart, hwindow]
    obtain ⟨e', he⟩ := charge_empty hempty.1 hempty.2 hle
    rw [he] at h
    cases h
  · exact if_neg hwindow

end SourceAllowance

namespace PrevalidationLimiter

variable {l l' : PrevalidationLimiter} {a : Admit} {nowMs : U64}

@[simp] theorem refill_sources : (l.refill nowMs).sources = l.sources := by
  unfold refill
  dsimp only
  split <;> rfl

/-- The saturation is never reached: the product is at most the time itself. -/
theorem refill_tokens (h : l.tokenSecond < nowMs.val / 1000) : (l.refill nowMs).tokens =
    min (l.tokens + (nowMs.val / 1000 - l.tokenSecond) * 1000 % 2 ^ 32) 2000 := by
  have hnow := nowMs.isLt
  have hsat : min ((nowMs.val / 1000 - l.tokenSecond) * 1000) (2 ^ 64 - 1) =
      (nowMs.val / 1000 - l.tokenSecond) * 1000 := by
    omega
  simp only [refill, h, if_true, hsat]
  omega

theorem refill_tokenSecond : (l.refill nowMs).tokenSecond = max l.tokenSecond (nowMs.val / 1000) := by
  unfold refill
  dsimp only
  split
  · simp only
    omega
  · omega

/-- What a call asks for besides a token: an answer no longer than the request, a slot for its
source, and an account that takes both. -/
structure Admissible (l : PrevalidationLimiter) (a : Admit) : Prop where
  bytes : a.responseBytes ≤ a.requestBytes
  slot : ∃ entry sources entry',
    (l.retain a.nowMs).entryFor a.source a.nowMs = some (entry, sources) ∧
      (entry.restart a.nowMs).charge a = .ok entry'

/-- What an admitted call leaves. -/
structure Admits (l : PrevalidationLimiter) (a : Admit) (l' : PrevalidationLimiter) : Prop where
  token : (l.refill a.nowMs).tokens ≠ 0
  bytes : a.responseBytes ≤ a.requestBytes
  table : ∃ entry sources entry',
    (l.retain a.nowMs).entryFor a.source a.nowMs = some (entry, sources) ∧
      (entry.restart a.nowMs).charge a = .ok entry' ∧
      l' = ⟨put entry' sources, (l.refill a.nowMs).tokens - 1, (l.refill a.nowMs).tokenSecond⟩

/-- A refused call leaves the refill, and the table with or without its expired sources. -/
structure Refuses (l : PrevalidationLimiter) (nowMs : U64) (l' : PrevalidationLimiter) : Prop where
  tokens : l'.tokens = (l.refill nowMs).tokens
  tokenSecond : l'.tokenSecond = (l.refill nowMs).tokenSecond
  sources : l'.sources = l.sources ∨ l'.sources = (l.retain nowMs).sources

theorem retain_refill : (l.refill nowMs).retain nowMs =
    { l.refill nowMs with sources := (l.retain nowMs).sources } := by
  simp [retain]

theorem entryFor_refill : ((l.refill nowMs).retain nowMs).entryFor a.source nowMs =
    (l.retain nowMs).entryFor a.source nowMs := by
  rw [retain_refill]
  rfl

/-- The entry taken is one of the table for its source, or new and empty. -/
theorem entryFor_cases {source : Bytes 32} {entry : SourceAllowance}
    {sources : List SourceAllowance} (h : l.entryFor source nowMs = some (entry, sources)) :
    (l.sources.find? (·.source = source) = some entry ∧ sources = l.sources) ∨
    ((∀ e ∈ l.sources, e.source ≠ source) ∧ l.sources.length < 4096 ∧
      entry = .new source nowMs ∧ sources = l.sources ++ [.new source nowMs]) := by
  unfold entryFor at h
  split at h
  · rename_i e hfind
    simp only [Option.some.injEq, Prod.mk.injEq] at h
    exact .inl ⟨h.1 ▸ hfind, h.2.symm⟩
  · rename_i hnone
    split at h
    · rename_i hroom
      simp only [Option.some.injEq, Prod.mk.injEq] at h
      exact .inr ⟨by simpa using hnone, hroom, h.1.symm, h.2.symm⟩
    · cases h

theorem put_self {entry : SourceAllowance} {sources : List SourceAllowance}
    (h : sources.find? (·.source = entry.source) = some entry) : put entry sources = sources := by
  induction sources with
  | nil => rfl
  | cons e es ih =>
    by_cases he : e.source = entry.source
    · simp only [List.find?_cons, he, decide_true, Option.some.injEq] at h
      simp [put, Lists.modifyFirst, h]
    · simp only [List.find?_cons, he, decide_false] at h
      have htail := ih h
      unfold put at htail ⊢
      simp [Lists.modifyFirst, he, htail]

/-- Only the account of a source that is already there can refuse a request, and it stays. -/
theorem put_of_charge_error {entry : SourceAllowance} {sources : List SourceAllowance}
    {e : SessionError} (h : l.entryFor a.source nowMs = some (entry, sources))
    (hbytes : a.responseBytes ≤ a.requestBytes) (herr : (entry.restart nowMs).charge a = .error e) :
    put (entry.restart nowMs) sources = l.sources := by
  have hsame := SourceAllowance.restart_charge_error herr hbytes
  rw [hsame]
  obtain ⟨hfind, rfl⟩ | ⟨-, -, rfl, -⟩ := entryFor_cases h
  · have hsource := List.find?_some hfind
    simp only [decide_eq_true_eq] at hsource
    exact put_self (hsource ▸ hfind)
  · rw [hsame] at herr
    obtain ⟨e', hok⟩ := SourceAllowance.charge_empty (a := a) (e := .new a.source nowMs) rfl rfl hbytes
    rw [hok] at herr
    cases herr

/-- The two outcomes of a call. -/
theorem admitSource_cases (l : PrevalidationLimiter) (a : Admit) :
    ((l.admitSource a).2 = .ok () ∧ l.Admissible a ∧ l.Admits a (l.admitSource a).1) ∨
    ((l.admitSource a).2 = .error .capacity ∧
      ((l.refill a.nowMs).tokens = 0 ∨ ¬ l.Admissible a) ∧ l.Refuses a.nowMs (l.admitSource a).1) := by
  generalize hq : l.admitSource a = q
  unfold admitSource at hq
  by_cases hgate : (l.refill a.nowMs).tokens = 0 ∨ a.requestBytes < a.responseBytes
  · rw [if_pos hgate] at hq
    subst hq
    refine .inr ⟨rfl, hgate.imp_right fun hlt hadm => not_lt.mpr hadm.bytes hlt, rfl, rfl, .inl ?_⟩
    exact refill_sources
  · rw [if_neg hgate] at hq
    dsimp only at hq
    push Not at hgate
    obtain ⟨htoken, hbytes⟩ := hgate
    split at hq
    · -- the table is full of other sources
      rename_i hnone
      subst hq
      rw [entryFor_refill] at hnone
      refine .inr ⟨rfl, .inr ?_, rfl, rfl, .inr (by rw [retain_refill])⟩
      rintro ⟨-, entry, sources, entry', hsome, -⟩
      rw [hnone] at hsome
      cases hsome
    · rename_i entry sources hentry
      rw [entryFor_refill] at hentry
      split at hq
      · -- the account of the source refuses
        rename_i e herr
        subst hq
        refine .inr ⟨?_, .inr ?_, rfl, rfl, .inr (put_of_charge_error hentry hbytes herr)⟩
        · rw [SourceAllowance.charge_eq_error herr]
        · rintro ⟨-, entry₂, sources₂, entry', hsome, hok⟩
          rw [hentry] at hsome
          obtain ⟨rfl, rfl⟩ := Prod.mk.inj (Option.some.inj hsome)
          rw [herr] at hok
          cases hok
      · rename_i entry' hok
        subst hq
        exact .inl ⟨rfl, ⟨hbytes, entry, sources, entry', hentry, hok⟩,
          htoken, hbytes, entry, sources, entry', hentry, hok, rfl⟩

theorem admitSource_eq_ok_iff : (l.admitSource a).2 = .ok () ↔
    (l.refill a.nowMs).tokens ≠ 0 ∧ l.Admissible a := by
  obtain ⟨hok, hadm, hadmits⟩ | ⟨herr, hwhy, -⟩ := admitSource_cases l a
  · exact ⟨fun _ => ⟨hadmits.token, hadm⟩, fun _ => hok⟩
  · constructor
    · intro hok
      rw [herr] at hok
      cases hok
    · rintro ⟨htoken, hadm⟩
      exact (hwhy.elim htoken fun h => h hadm).elim

/-- The answers to calls made one after the other. -/
def answers (l : PrevalidationLimiter) : List Admit → List (Except SessionError Unit)
  | [] => []
  | a :: as => (l.admitSource a).2 :: (l.admitSource a).1.answers as

/-- Each call is admissible in the state it meets. -/
def AllAdmissible (l : PrevalidationLimiter) : List Admit → Prop
  | [] => True
  | a :: as => l.Admissible a ∧ (l.admitSource a).1.AllAdmissible as

theorem answers_ok {as : List Admit} (hnow : ∀ a ∈ as, a.nowMs = nowMs)
    (hroom : as.length ≤ (l.refill nowMs).tokens) (hadm : l.AllAdmissible as) :
    ∀ r ∈ l.answers as, r = .ok () := by
  induction as generalizing l with
  | nil => simp [answers]
  | cons a as ih =>
    obtain ⟨ha, has⟩ := hadm
    have hat : a.nowMs = nowMs := hnow a List.mem_cons_self
    rw [List.length_cons] at hroom
    have hok : (l.admitSource a).2 = .ok () := by
      rw [admitSource_eq_ok_iff, hat]
      exact ⟨by omega, ha⟩
    have hnext : (l.admitSource a).1.refill nowMs = (l.admitSource a).1 ∧
        (l.refill nowMs).tokens ≤ (l.admitSource a).1.tokens + 1 := by
      obtain ⟨-, -, hadmits⟩ | ⟨herr, -⟩ := admitSource_cases l a
      · obtain ⟨entry, sources, entry', -, -, hl'⟩ := hadmits.table
        rw [hat] at hl'
        rw [hl']
        refine ⟨if_neg ?_, by simp only; omega⟩
        rw [refill_tokenSecond]
        omega
      · rw [herr] at hok
        cases hok
    intro r hr
    obtain rfl | hr := List.mem_cons.mp hr
    · exact hok
    · refine ih (fun b hb => hnow b (List.mem_cons_of_mem a hb)) ?_ has r hr
      rw [hnext.1]
      omega

/-- The tokens of every second since the last refill are there, and after two seconds a whole burst
is admitted. -/
structure RefillsFully (l : PrevalidationLimiter) (nowMs : U64) : Prop where
  tokens : (l.refill nowMs).tokens =
    min 2000 (l.tokens + 1000 * (nowMs.val / 1000 - l.tokenSecond))
  burst : 2 ≤ nowMs.val / 1000 - l.tokenSecond → ∀ as : List Admit, as.length = 2000 →
    (∀ a ∈ as, a.nowMs = nowMs) → l.AllAdmissible as → ∀ r ∈ l.answers as, r = .ok ()

/-- The refill is full unless its product is cut and what is left of it falls short. -/
theorem refillsFully_iff (l : PrevalidationLimiter) (nowMs : U64)
    (h : l.tokenSecond < nowMs.val / 1000) : l.RefillsFully nowMs ↔
      1000 * (nowMs.val / 1000 - l.tokenSecond) < 2 ^ 32 ∨
        2000 ≤ l.tokens + 1000 * (nowMs.val / 1000 - l.tokenSecond) % 2 ^ 32 := by
  have htokens := refill_tokens h
  constructor
  · rintro ⟨hfull, -⟩
    rw [htokens] at hfull
    omega
  · intro hcond
    have hfull : (l.refill nowMs).tokens =
        min 2000 (l.tokens + 1000 * (nowMs.val / 1000 - l.tokenSecond)) := by
      rw [htokens]
      omega
    refine ⟨hfull, ?_⟩
    intro hgap as hlen hnow hadm
    apply answers_ok hnow _ hadm
    rw [hfull, hlen]
    omega

/-- One token taken at the start. -/
def spentOne : PrevalidationLimiter := (new.admitSource ⟨zeros 32, 170, 170, 0⟩).1

theorem refillsFully_three : spentOne.tokenSecond < (3000 : U64).val / 1000 ∧
    spentOne.RefillsFully 3000 :=
  have h : spentOne.tokenSecond < (3000 : U64).val / 1000 := by decide +kernel
  ⟨h, (refillsFully_iff spentOne 3000 h).mpr (.inl (by decide +kernel))⟩

/-- After 2 ^ 29 idle seconds the cut product is zero and the token is not given back. -/
theorem refill_lost : spentOne.tokenSecond < (536870912000 : U64).val / 1000 ∧
    (spentOne.refill 536870912000).tokens = 1999 ∧ ¬ spentOne.RefillsFully 536870912000 := by
  have htokens : (spentOne.refill 536870912000).tokens = 1999 := by decide +kernel
  refine ⟨by decide +kernel, htokens, ?_⟩
  rintro ⟨hfull, -⟩
  rw [htokens] at hfull
  have hclaimed : min 2000 (spentOne.tokens + 1000 * ((536870912000 : U64).val / 1000 -
      spentOne.tokenSecond)) = 2000 := by decide +kernel
  rw [hclaimed] at hfull
  omega

end PrevalidationLimiter

end R8.Session
