import R8Protocol.Session.Encodings
import R8Protocol.Session.Packets
import R8Protocol.Session.Scenario
import R8Protocol.Session.ServerRun

/-! How long a cookie is honoured: buckets of ten seconds, and one rotation of the key. -/
namespace R8.Session

open FixedWidth Wire

variable {C : Crypto} {c context : CookieContext} {key supplied : Bytes 32} {nowMs : U64}
  {input packet verify : List Byte}

def bucketOf (nowMs : U64) : U64 := nowMs / 10000

theorem bucketOf_val (nowMs : U64) : (bucketOf nowMs).val = nowMs.val / 10000 := rfl

/-- The buckets a check accepts: the current one and, unless that is the first, the one before. -/
def buckets (nowMs : U64) : List U64 := bucketOf nowMs :: (sub? (bucketOf nowMs) 1).toList

theorem sub?_one {bucket b : U64} : sub? bucket 1 = some b ↔ b.val + 1 = bucket.val := by
  have hone : (1 : U64).val = 1 := rfl
  simp only [sub?, Fin.le_def, hone, Option.ite_none_right_eq_some, Option.some.injEq,
    Fin.ext_iff]
  omega

theorem mem_buckets {bucket : U64} :
    bucket ∈ buckets nowMs ↔
      bucket.val = nowMs.val / 10000 ∨ bucket.val + 1 = nowMs.val / 10000 := by
  simp only [buckets, List.mem_cons, Option.mem_toList, sub?_one, Fin.ext_iff,
    bucketOf_val]

/-- Whether a cookie can be computed does not depend on the bucket. -/
theorem cookieInput_bucket {bucket : U64} (h : cookieInput C { c with bucket } = .ok input)
    (bucket' : U64) : ∃ input', cookieInput C { c with bucket := bucket' } = .ok input' := by
  simp only [cookieInput, Outcome.bind_eq_ok, Outcome.ite_error_eq_ok] at h ⊢
  obtain ⟨⟨⟩, hclient, ⟨⟩, hserver, hcontext, ⟨⟩, hbinding, -⟩ := h
  exact ⟨_, ⟨⟩, hclient, ⟨⟩, hserver, hcontext, ⟨⟩, hbinding, rfl⟩

/-- The cookie is the one under this key, of one of the given buckets. -/
def MatchesIn (C : Crypto) (key supplied : Bytes 32) (c : CookieContext) (bs : List U64) : Prop :=
  ∃ bucket ∈ bs, ∃ input, cookieInput C { c with bucket } = .ok input ∧
    cookie C key input = supplied

theorem priorBucketMatches_ok {bucket : U64} (h : cookieInput C { c with bucket } = .ok input)
    (key supplied : Bytes 32) : ∃ r, priorBucketMatches C key supplied c bucket = .ok r ∧
      (r = true ↔ MatchesIn C key supplied c (sub? bucket 1).toList) := by
  unfold priorBucketMatches
  cases hsub : sub? bucket 1 with
  | none => exact ⟨false, rfl, by simp [MatchesIn]⟩
  | some b =>
    obtain ⟨input', hinput⟩ := cookieInput_bucket h b
    refine ⟨decide (cookie C key input' = supplied), ?_, ?_⟩
    · simp only [hinput, bind, Except.bind]
    · simp [MatchesIn, hinput]

theorem matchesIn_buckets (h : cookieInput C { c with bucket := bucketOf nowMs } = .ok input) :
    MatchesIn C key supplied c (buckets nowMs) ↔ cookie C key input = supplied ∨
      MatchesIn C key supplied c (sub? (bucketOf nowMs) 1).toList := by
  simp [MatchesIn, buckets, h]

/-- The four comparisons of a check, the last two only within 20 s of the rotation. -/
theorem cookieMatchesBuckets_iff {currentKey previousKey : Bytes 32} {rotatedMs : U64} :
    cookieMatchesBuckets C currentKey previousKey rotatedMs supplied c nowMs = .ok true ↔
      MatchesIn C currentKey supplied c (buckets nowMs) ∨
        (satSub nowMs rotatedMs).val ≤ 20000 ∧
          MatchesIn C previousKey supplied c (buckets nowMs) := by
  have hdiv : nowMs / 10000 = bucketOf nowMs := rfl
  cases hcurrent : cookieInput C { c with bucket := bucketOf nowMs } with
  | error e =>
    have hnone : ∀ key, ¬ MatchesIn C key supplied c (buckets nowMs) := by
      rintro key ⟨bucket, -, input, hinput, -⟩
      obtain ⟨input', hinput'⟩ := cookieInput_bucket hinput (bucketOf nowMs)
      rw [hcurrent] at hinput'
      cases hinput'
    simp [cookieMatchesBuckets, hdiv, hcurrent, bind, Except.bind, hnone]
  | ok input =>
    obtain ⟨prior, hprior, hpriorIff⟩ := priorBucketMatches_ok hcurrent currentKey supplied
    obtain ⟨old, hold, holdIff⟩ := priorBucketMatches_ok hcurrent previousKey supplied
    rw [matchesIn_buckets hcurrent, matchesIn_buckets hcurrent, ← hpriorIff, ← holdIff]
    unfold cookieMatchesBuckets
    simp only [hdiv, hcurrent, hprior, bind, Except.bind]
    by_cases hage : (satSub nowMs rotatedMs).val ≤ 20000
    · simp [hage, hold]
    · simp [hage]

/-- The cookie of a VERIFY_COOKIE packet, which OPEN_AUTH brings back. -/
def cookieOf (verify : List Byte) : Bytes 32 := arrayAt 32 verify 138

/-- Two contexts that agree in all but the bucket and the names of the server. -/
structure Same (c c' : CookieContext) : Prop where
  binding : c.binding = c'.binding
  client : c.client = c'.client
  scid : c.scid = c'.scid
  ephemeral : c.clientEphemeral = c'.clientEphemeral
  boot : c.boot = c'.boot
  serverContextId : c.serverContextId = c'.serverContextId

theorem same_of_encoded {c c' : CookieContext} (h : c.encoded = c'.encoded) :
    Same c c' ∧ c.bucket = c'.bucket := by
  simp only [CookieContext.encoded, Prod.mk.injEq] at h
  obtain ⟨hbinding, hrole, -, hservice, hscid, heid, hkey, hephemeral, hboot, hbucket, hcontext⟩ := h
  refine ⟨⟨hbinding, ?_, hscid, hephemeral, hboot, hcontext⟩, hbucket⟩
  obtain ⟨_, ⟨_, _, _, _⟩, _, _, _, _, _, _⟩ := c
  obtain ⟨_, ⟨_, _, _, _⟩, _, _, _, _, _, _⟩ := c'
  simp only at hrole hservice heid hkey
  simp only [hrole, hservice, heid, hkey]

namespace ServerMachine

variable {m m' : ServerMachine} {binding : ObservedBinding} {scid bucket : U64} {auth : OpenAuth}

/-- What the cookie that answers an OPEN is computed from. -/
def openContext (C : Crypto) (m : ServerMachine) (packet : List Byte) (binding : ObservedBinding)
    (bucket : U64) : Except SessionError CookieContext := do
  let (scid, body) ← m.handshakeBody OPEN packet
  let client ← m.clientIdentity C body
  .ok ⟨binding, client, m.config.localId, scid, arrayAt 32 body 54, m.material.bootInstance,
    bucket, m.config.serverContextId⟩

/-- What a check of the cookie in an OPEN_AUTH is about. -/
def checkContext (m : ServerMachine) (scid : U64) (auth : OpenAuth) (binding : ObservedBinding)
    (bucket : U64) : CookieContext :=
  ⟨binding, auth.client, m.config.localId, scid, auth.clientEphemeral, auth.boot, bucket,
    m.config.serverContextId⟩

theorem receiveOpen_mints (hopen : m.receiveOpen C packet binding bucket = .ok verify)
    (hcontext : m.openContext C packet binding bucket = .ok context)
    (hinput : cookieInput C context = .ok input) :
    cookieOf verify = cookie C m.material.currentCookieKey input := by
  simp only [receiveOpen, Outcome.bind_eq_ok] at hopen
  obtain ⟨⟨⟩, -, ⟨scid, body⟩, hbody, client, hclient, input', hinput', hpacket⟩ := hopen
  simp only [openContext, Outcome.bind_eq_ok, Except.ok.injEq] at hcontext
  obtain ⟨r, hr, client', hclient', rfl⟩ := hcontext
  obtain rfl := Except.ok.inj (hbody.symm.trans hr)
  obtain rfl := Except.ok.inj (hclient.symm.trans hclient')
  obtain rfl := Except.ok.inj (hinput'.symm.trans hinput)
  obtain ⟨-, -, -, rfl⟩ := handshakePacket_eq_ok hpacket
  rw [cookieOf, Header.bytes_eq]
  simp [handshakePayload]

/-- The checks of a cookie that has come back. -/
theorem checkCookie_iff : m.checkCookie C scid auth binding nowMs bucket = .ok () ↔
    auth.boot = m.material.bootInstance ∧
      (MatchesIn C m.material.currentCookieKey auth.cookie
          (m.checkContext scid auth binding bucket) (buckets nowMs) ∨
        (satSub nowMs m.material.previousKeyRotatedMs).val ≤ 20000 ∧
          MatchesIn C m.material.previousCookieKey auth.cookie
            (m.checkContext scid auth binding bucket) (buckets nowMs)) := by
  rw [← cookieMatchesBuckets_iff]
  unfold checkCookie checkContext
  by_cases hboot : auth.boot = m.material.bootInstance
  · rw [if_neg (not_not.mpr hboot)]
    generalize cookieMatchesBuckets C _ _ _ _ _ _ = r
    rcases r with e | valid
    · simp [bind, Except.bind]
    · cases valid <;> simp [bind, Except.bind, hboot]
  · simp [hboot]

/-- What a check puts under HMAC: two keys with the inputs of two buckets. -/
def compared (C : Crypto) (m : ServerMachine) (context : CookieContext) (nowMs : U64) :
    List (Bytes 32 × List Byte) :=
  [m.material.currentCookieKey, m.material.previousCookieKey].flatMap fun key =>
    (buckets nowMs).filterMap fun bucket =>
      (cookieInput C { context with bucket }).toOption.map fun input => (key, input)

/-- Nothing a check compares collides with the cookie under this key and input. -/
def CollisionFree (C : Crypto) (m : ServerMachine) (context : CookieContext) (nowMs : U64)
    (key : Bytes 32) (input : List Byte) : Prop :=
  ∀ query ∈ compared C m context nowMs,
    C.hmacSha256 query.1 query.2 = C.hmacSha256 key input → query = (key, input)

theorem CollisionFree.matches {input : List Byte} {key' : Bytes 32}
    (hfree : CollisionFree C m c nowMs key input)
    (hkey : key' ∈ [m.material.currentCookieKey, m.material.previousCookieKey])
    (h : MatchesIn C key' (cookie C key input) c (buckets nowMs)) :
    key' = key ∧ ∃ bucket ∈ buckets nowMs, cookieInput C { c with bucket } = .ok input := by
  obtain ⟨bucket, hbucket, input', hinput, hcookie⟩ := h
  have hmem : (key', input') ∈ compared C m c nowMs := by
    apply List.mem_flatMap.mpr
    refine ⟨key', hkey, List.mem_filterMap.mpr ⟨bucket, hbucket, ?_⟩⟩
    rw [hinput]
    rfl
  obtain ⟨rfl, rfl⟩ := Prod.mk.inj (hfree _ hmem hcookie)
  exact ⟨rfl, bucket, hbucket, hinput⟩

/-- A cookie that passes was computed for this client, on this binding, in a recent bucket. -/
theorem checkCookie_same (hsha : ∀ a b : Bytes 32, C.sha256 a.val = C.sha256 b.val → a = b)
    (hinput : cookieInput C context = .ok input) (hcookie : auth.cookie = cookie C key input)
    (hfree : CollisionFree C m (m.checkContext scid auth binding bucket) nowMs key input)
    (h : m.checkCookie C scid auth binding nowMs bucket = .ok ()) :
    Same context (m.checkContext scid auth binding bucket) ∧ context.bucket ∈ buckets nowMs ∧
      (key = m.material.currentCookieKey ∨ key = m.material.previousCookieKey) := by
  obtain ⟨-, h⟩ := checkCookie_iff.mp h
  rw [hcookie] at h
  have hfound : ∀ key', key' ∈ [m.material.currentCookieKey, m.material.previousCookieKey] →
      MatchesIn C key' (cookie C key input) (m.checkContext scid auth binding bucket)
        (buckets nowMs) →
      Same context (m.checkContext scid auth binding bucket) ∧ context.bucket ∈ buckets nowMs ∧
        key = key' := by
    intro key' hkey' hmatch
    obtain ⟨rfl, b, hb, hinput'⟩ := hfree.matches hkey' hmatch
    obtain ⟨⟨hbinding, hclient, hscid, hephemeral, hboot, hid⟩, hbucket⟩ :=
      same_of_encoded (cookieInput_injective hsha hinput hinput')
    exact ⟨⟨hbinding, hclient, hscid, hephemeral, hboot, hid⟩, hbucket ▸ hb, rfl⟩
  rcases h with h | ⟨-, h⟩
  · obtain ⟨hsame, hbucket, hkey⟩ := hfound _ (by simp) h
    exact ⟨hsame, hbucket, .inl hkey⟩
  · obtain ⟨hsame, hbucket, hkey⟩ := hfound _ (by simp) h
    exact ⟨hsame, hbucket, .inr hkey⟩

/-- A cookie of this context matches under its own key as long as its bucket is recent. -/
theorem matchesIn_same (hinput : cookieInput C context = .ok input) (hm : context.server = c.server)
    (hsame : Same context c) (hbucket : context.bucket ∈ buckets nowMs) :
    MatchesIn C key (cookie C key input) c (buckets nowMs) := by
  have heq : { c with bucket := context.bucket } = context := by
    obtain ⟨hbinding, hclient, hscid, hephemeral, hboot, hid⟩ := hsame
    obtain ⟨_, _, _, _, _, _, _, _⟩ := c
    obtain ⟨_, _, _, _, _, _, _, _⟩ := context
    simp only at hm hbinding hclient hscid hephemeral hboot hid
    simp only [hm, hbinding, hclient, hscid, hephemeral, hboot, hid]
  exact ⟨context.bucket, hbucket, input, by rw [heq, hinput], rfl⟩

end ServerMachine

/-- The time on the server's clock when a call is made, for the calls that bring one along. -/
def ServerCall.clock? : ServerCall → Option U64
  | .rotateCookieKey _ nowMs => some nowMs
  | call => call.time?

def ServerCall.newKey? : ServerCall → Option (Bytes 32)
  | .rotateCookieKey key _ => some key
  | _ => none

def ServerCall.newBoot? : ServerCall → Option (Bytes 16)
  | .restart material => some material.bootInstance
  | _ => none

def rotations (calls : List ServerCall) : ℕ := (calls.filterMap ServerCall.newKey?).length

/-- Calls on a clock that never goes back, with fresh keys and fresh boot instances. -/
structure Later (key : Bytes 32) (boot : Bytes 16) (t : U64) (calls : List ServerCall) (t' : U64) :
    Prop where
  times : (t :: calls.filterMap ServerCall.clock? ++ [t']).Pairwise (· ≤ ·)
  keys : (key :: calls.filterMap ServerCall.newKey?).Nodup
  boots : boot ∉ calls.filterMap ServerCall.newBoot?

theorem Later.ordered {boot : Bytes 16} {t t' : U64} {calls : List ServerCall}
    (h : Later key boot t calls t') :
    t ≤ t' ∧ ∀ time ∈ calls.filterMap ServerCall.clock?, t ≤ time := by
  have htimes := h.times
  rw [List.cons_append, List.pairwise_cons] at htimes
  refine ⟨htimes.1 t' (by simp), ?_⟩
  intro time hmem
  exact htimes.1 time (List.mem_append_left _ hmem)

namespace ServerMachine

variable {m m' : ServerMachine} {binding : ObservedBinding} {scid bucket : U64} {auth : OpenAuth}

/-- The material after a call, which only a rotation or a restart changes. -/
def nextMaterial (material : ServerMaterial) : ServerCall → ServerMaterial
  | .rotateCookieKey key nowMs => { material with
      previousCookieKey := material.currentCookieKey
      currentCookieKey := key
      previousKeyRotatedMs := nowMs }
  | .restart material => material
  | _ => material

theorem commitData_material (m : ServerMachine) (p : DataPreview) (nowMs : U64) :
    (m.commitData p nowMs).1.material = m.material := by
  unfold commitData
  split
  · rfl
  · dsimp only
    split
    · rfl
    · split <;> rfl

theorem receiveAccept_material (m : ServerMachine) (packet : List Byte) (nowMs : U64) :
    (m.receiveAccept C packet nowMs).1.material = m.material := by
  unfold receiveAccept
  dsimp only
  split
  · rfl
  · split
    · rfl
    · split
      · rfl
      · unfold acceptPending
        dsimp only
        split
        · rfl
        · split
          · rfl
          · split
            · rfl
            · split <;> rfl

theorem receiveClose_material (m : ServerMachine) (packet : List Byte) (nowMs : U64) :
    (m.receiveClose C packet nowMs).1.material = m.material := by
  unfold receiveClose
  dsimp only
  split
  · rfl
  · split
    · rfl
    · split
      · rfl
      · split
        · rfl
        · split
          · rfl
          · split <;> rfl

theorem step_material (m : ServerMachine) (call : ServerCall) :
    (m.step C call).material = nextMaterial m.material call := by
  cases call with
  | receiveOpen => rfl
  | receiveOpenAuth =>
    simp only [step, receiveOpenAuth, nextMaterial]
    split
    · rfl
    · split
      · rfl
      · rfl
      · split <;> rfl
  | receiveAccept => exact receiveAccept_material m _ _
  | receiveData packet nowMs =>
    simp only [step, receiveData, previewDataWithLocs, nextMaterial]
    split
    · rename_i h
      obtain ⟨rfl, -⟩ := Prod.mk.inj h
      rfl
    · rename_i h
      obtain ⟨rfl, -⟩ := Prod.mk.inj h
      exact commitData_material _ _ _
  | previewData => rfl
  | commitData => exact commitData_material m _ _
  | commitProtectedReplay =>
    simp only [step, commitProtectedReplay, nextMaterial]
    split <;> rfl
  | sendData =>
    simp only [step, sendDataWithLocs, nextMaterial]
    split
    · rfl
    · dsimp only
      split <;> rfl
  | close =>
    simp only [step, close, nextMaterial]
    split
    · rfl
    · split <;> rfl
  | receiveClose => exact receiveClose_material m _ _
  | takeProfile3Bootstrap =>
    simp only [step, takeProfile3Bootstrap, nextMaterial]
    split
    · rfl
    · split
      · rfl
      · split <;> rfl
  | expire => rfl
  | promoteLocalLoc => rfl
  | promotePeerLoc => rfl
  | rotateCookieKey => rfl
  | restart => rfl

/-- Where a key is after `n` rotations since time `t`, unless the server has started again. -/
def KeyAfter (key : Bytes 32) (boot : Bytes 16) (t : U64) (n : ℕ) (material : ServerMaterial) :
    Prop :=
  material.bootInstance = boot →
    (n = 0 → material.currentCookieKey = key) ∧
    (0 < n → material.currentCookieKey ≠ key) ∧
    (n = 1 → material.previousCookieKey = key ∧ t ≤ material.previousKeyRotatedMs) ∧
    (1 < n → material.previousCookieKey ≠ key)

theorem KeyAfter.step {key : Bytes 32} {boot : Bytes 16} {t : U64} {n : ℕ}
    {material : ServerMaterial} (h : KeyAfter key boot t n material) (call : ServerCall)
    (htime : ∀ time ∈ call.clock?, t ≤ time) (hkey : ∀ k ∈ call.newKey?, k ≠ key)
    (hboot : ∀ b ∈ call.newBoot?, b ≠ boot) :
    KeyAfter key boot t (n + rotations [call]) (nextMaterial material call) := by
  cases call with
  | rotateCookieKey newKey nowMs =>
    intro hsame
    obtain ⟨hzero, hpos, -, -⟩ := h hsame
    have hnew : newKey ≠ key := hkey newKey rfl
    have hone : rotations [.rotateCookieKey newKey nowMs] = 1 := rfl
    rw [hone]
    refine ⟨fun hn => absurd hn (by omega), fun _ => hnew, ?_, ?_⟩
    · intro hn
      exact ⟨hzero (by omega), htime nowMs rfl⟩
    · intro hn
      exact hpos (by omega)
  | restart material' =>
    intro hsame
    exact absurd hsame (hboot material'.bootInstance rfl)
  | _ => exact h

theorem keyAfter_exec {key : Bytes 32} {boot : Bytes 16} {t : U64} {n : ℕ}
    (calls : List ServerCall) (h : KeyAfter key boot t n m.material)
    (htime : ∀ time ∈ calls.filterMap ServerCall.clock?, t ≤ time)
    (hkey : ∀ k ∈ calls.filterMap ServerCall.newKey?, k ≠ key)
    (hboot : ∀ b ∈ calls.filterMap ServerCall.newBoot?, b ≠ boot) :
    KeyAfter key boot t (n + rotations calls) (Machine.exec (step C) m calls).material := by
  induction calls generalizing m n with
  | nil => exact h
  | cons call calls ih =>
    simp only [List.mem_filterMap, List.mem_cons] at htime hkey hboot
    have hstep := h.step call (fun x hx => htime x ⟨call, .inl rfl, hx⟩)
      (fun x hx => hkey x ⟨call, .inl rfl, hx⟩) (fun x hx => hboot x ⟨call, .inl rfl, hx⟩)
    rw [← step_material (C := C)] at hstep
    have hrest := ih hstep
      (fun x hx => by
        obtain ⟨c, hc, hcx⟩ := List.mem_filterMap.mp hx
        exact htime x ⟨c, .inr hc, hcx⟩)
      (fun x hx => by
        obtain ⟨c, hc, hcx⟩ := List.mem_filterMap.mp hx
        exact hkey x ⟨c, .inr hc, hcx⟩)
      (fun x hx => by
        obtain ⟨c, hc, hcx⟩ := List.mem_filterMap.mp hx
        exact hboot x ⟨c, .inr hc, hcx⟩)
    have hsum : n + rotations [call] + rotations calls = n + rotations (call :: calls) := by
      cases hk : call.newKey? with
      | none => simp [rotations, hk]
      | some k =>
        simp [rotations, hk]
        omega
    rw [hsum] at hrest
    exact hrest

theorem openContext_eq_ok {t : U64}
    (h : m.openContext C packet binding t = .ok context) :
    context.server = m.config.localId ∧ context.boot = m.material.bootInstance ∧
      context.bucket = t := by
  simp only [openContext, Outcome.bind_eq_ok, Except.ok.injEq] at h
  obtain ⟨r, -, client, -, rfl⟩ := h
  exact ⟨rfl, rfl, rfl⟩

section

variable {t t' : U64} {calls : List ServerCall}

theorem keyAfter_later (h : Later m.material.currentCookieKey m.material.bootInstance t calls t') :
    KeyAfter m.material.currentCookieKey m.material.bootInstance t (rotations calls)
      (Machine.exec (step C) m calls).material := by
  have hstart : KeyAfter m.material.currentCookieKey m.material.bootInstance t 0 m.material :=
    fun _ => ⟨fun _ => rfl, fun hn => absurd hn (by omega), fun hn => absurd hn (by omega),
      fun hn => absurd hn (by omega)⟩
  have hkeys := List.nodup_cons.mp h.keys
  have := keyAfter_exec (C := C) calls hstart h.ordered.2
    (fun k hk heq => hkeys.1 (heq ▸ hk)) (fun b hb heq => h.boots (heq ▸ hb))
  rwa [Nat.zero_add] at this

/-- After calls on a clock that never goes back, a cookie passes exactly as long as its bucket is
the current or the last one, and its key has been rotated once at most. -/
theorem checkCookie_later (hsha : ∀ a b : Bytes 32, C.sha256 a.val = C.sha256 b.val → a = b)
    (hcontext : m.openContext C packet binding (bucketOf t) = .ok context)
    (hinput : cookieInput C context = .ok input)
    (hcookie : auth.cookie = cookie C m.material.currentCookieKey input)
    (hlater : Later m.material.currentCookieKey m.material.bootInstance t calls t')
    (hm : m' = Machine.exec (step C) m calls) {binding' : ObservedBinding}
    (hfree : CollisionFree C m' (m'.checkContext scid auth binding' bucket) t'
      m.material.currentCookieKey input) :
    m'.checkCookie C scid auth binding' t' bucket = .ok () ↔
      Same context (m'.checkContext scid auth binding' bucket) ∧
        m'.material.bootInstance = m.material.bootInstance ∧
        t'.val / 10000 - t.val / 10000 ≤ 1 ∧ rotations calls ≤ 1 := by
  obtain ⟨hserver, hboot, hbucket⟩ := openContext_eq_ok hcontext
  have hafter := keyAfter_later (C := C) hlater
  rw [← hm] at hafter
  have hle : t.val ≤ t'.val := hlater.ordered.1
  have hrecent : context.bucket ∈ buckets t' ↔
      t.val / 10000 = t'.val / 10000 ∨ t.val / 10000 + 1 = t'.val / 10000 := by
    rw [mem_buckets, hbucket, bucketOf_val]
  constructor
  · intro h
    obtain ⟨hsame, hmem, hkey⟩ := checkCookie_same hsha hinput hcookie hfree h
    obtain ⟨hauth, -⟩ := checkCookie_iff.mp h
    have hinstance : m'.material.bootInstance = m.material.bootInstance :=
      calc m'.material.bootInstance = auth.boot := hauth.symm
        _ = context.boot := hsame.boot.symm
        _ = m.material.bootInstance := hboot
    obtain ⟨-, hcurrent, -, hprevious⟩ := hafter hinstance
    have hdiff := hrecent.mp hmem
    refine ⟨hsame, hinstance, by omega, ?_⟩
    by_contra hmany
    rcases hkey with hkey | hkey
    · exact hcurrent (by omega) hkey.symm
    · exact hprevious (by omega) hkey.symm
  · rintro ⟨hsame, hinstance, hdiff, hfew⟩
    obtain ⟨hzero, -, hone, -⟩ := hafter hinstance
    have hmem : context.bucket ∈ buckets t' := hrecent.mpr (by omega)
    have hlocal : context.server = (m'.checkContext scid auth binding' bucket).server := by
      rw [hserver, hm]
      exact congrArg HandshakeConfig.localId (step_config_exec m calls).symm
    have hmatch : MatchesIn C m.material.currentCookieKey (cookie C m.material.currentCookieKey
        input) (m'.checkContext scid auth binding' bucket) (buckets t') :=
      matchesIn_same hinput hlocal hsame hmem
    rw [← hcookie] at hmatch
    refine checkCookie_iff.mpr ⟨?_, ?_⟩
    · rw [hinstance, ← hboot]
      exact hsame.boot.symm
    · rcases Nat.le_one_iff_eq_zero_or_eq_one.mp hfew with hn | hn
      · left
        rwa [hzero hn]
      · obtain ⟨hkey, hrotated⟩ := hone hn
        right
        have hrotated : t.val ≤ m'.material.previousKeyRotatedMs.val := hrotated
        refine ⟨?_, by rwa [hkey]⟩
        rw [satSub_val]
        omega

/-- A cookie is honoured for 10 s across one rotation and never for 20 s, and by no server for
another client, binding, SCID, ephemeral, boot instance or server context. -/
theorem cookie_lifetime (hsha : ∀ a b : Bytes 32, C.sha256 a.val = C.sha256 b.val → a = b)
    (hopen : m.receiveOpen C packet binding (bucketOf t) = .ok verify)
    (hcontext : m.openContext C packet binding (bucketOf t) = .ok context)
    (hinput : cookieInput C context = .ok input) (hcookie : auth.cookie = cookieOf verify) :
    (∀ calls t' scid binding' bucket,
      Later m.material.currentCookieKey m.material.bootInstance t calls t' →
      let m' := Machine.exec (step C) m calls
      let checked := m'.checkContext scid auth binding' bucket
      CollisionFree C m' checked t' m.material.currentCookieKey input →
      (m'.checkCookie C scid auth binding' t' bucket = .ok () ↔
        Same context checked ∧ m'.material.bootInstance = m.material.bootInstance ∧
          t'.val / 10000 - t.val / 10000 ≤ 1 ∧ rotations calls ≤ 1) ∧
      (Same context checked → m'.material.bootInstance = m.material.bootInstance →
        rotations calls ≤ 1 → t'.val ≤ t.val + 10000 →
        m'.checkCookie C scid auth binding' t' bucket = .ok ()) ∧
      (t.val + 20000 ≤ t'.val → m'.checkCookie C scid auth binding' t' bucket ≠ .ok ())) ∧
    ∀ (m' : ServerMachine) t' scid binding' bucket,
      CollisionFree C m' (m'.checkContext scid auth binding' bucket) t'
        m.material.currentCookieKey input →
      m'.checkCookie C scid auth binding' t' bucket = .ok () →
      Same context (m'.checkContext scid auth binding' bucket) := by
  rw [receiveOpen_mints hopen hcontext hinput] at hcookie
  constructor
  · intro calls t' scid binding' bucket hlater m' checked hfree
    have hiff := checkCookie_later hsha hcontext hinput hcookie hlater rfl hfree
    have hle : t.val ≤ t'.val := hlater.ordered.1
    refine ⟨hiff, ?_, ?_⟩
    · intro hsame hinstance hfew hsoon
      exact hiff.mpr ⟨hsame, hinstance, by omega, hfew⟩
    · intro hlate hok
      obtain ⟨-, -, hdiff, -⟩ := hiff.mp hok
      omega
  · intro m' t' scid binding' bucket hfree hok
    exact (checkCookie_same hsha hinput hcookie hfree hok).1

end

namespace CookieSample

/-- The stand-ins with a MAC that depends on all of its key. -/
def crypto : Crypto :=
  { Crypto.sample with
    hmacSha256 := fun key message =>
      ⟨List.zipWith (· + ·) key.val (lastBytes 32 message).val, by
        simp [key.property, (lastBytes 32 message).property]⟩ }

def minted : CookieContext :=
  ⟨Scenario.binding, Scenario.identity 1, Scenario.identity 2, 9, bytesOf 32 30, bytesOf 16 5, 0, 7⟩

def hashed : List Byte := (cookieInput crypto minted).toOption.getD []

def opening : List Byte :=
  Scenario.packetOf ((Scenario.client 0).start crypto 9 ⟨bytesOf 32 30, bytesOf 32 31⟩ 1000).2

def reply : List Byte :=
  Scenario.packetOf ((Scenario.server 0).receiveOpen crypto opening Scenario.binding 0)

/-- What the client sends back. -/
def returned : OpenAuth :=
  ⟨Scenario.identity 1, bytesOf 32 30, bytesOf 32 31, bytesOf 16 5, cookieOf reply, zeros 64⟩

/-- The key is rotated in between. -/
def rotated : List ServerCall := [.rotateCookieKey (bytesOf 32 8) 5000]

end CookieSample

open CookieSample in
/-- Minted at 1 s and with a new key since 5 s, a cookie passes at 11 s and no more at 21 s. -/
theorem cookie_lifetime_rotated :
    let m' := Machine.exec (step crypto) (Scenario.server 0) rotated
    m'.checkCookie crypto 9 returned Scenario.binding 11000 1 = .ok () ∧
      m'.checkCookie crypto 9 returned Scenario.binding 21000 2 ≠ .ok () := by
  intro m'
  have hopen : (Scenario.server 0).receiveOpen crypto opening Scenario.binding (bucketOf 1000) =
      .ok reply := by decide +kernel
  have hcontext : (Scenario.server 0).openContext crypto opening Scenario.binding (bucketOf 1000) =
      .ok minted := by decide +kernel
  have hinput : cookieInput crypto minted = .ok hashed := by decide +kernel
  have hsha : ∀ a b : Bytes 32, crypto.sha256 a.val = crypto.sha256 b.val → a = b := by
    intro a b hab
    have hab : Crypto.sample.sha256 a.val = Crypto.sample.sha256 b.val := hab
    rwa [sample_sha256, sample_sha256] at hab
  have hlater : ∀ t', 5000 ≤ t' → Later (Scenario.server 0).material.currentCookieKey
      (Scenario.server 0).material.bootInstance 1000 rotated t' := by
    intro t' ht
    refine ⟨?_, by decide, by decide⟩
    have hfirst : (1000 : U64) ≤ t' := le_trans (by decide) ht
    have hmiddle : (1000 : U64) ≤ 5000 := by decide
    simp [rotated, ServerCall.clock?, hfirst, hmiddle, ht]
  have hfree : ∀ t' bucket, (t' = 11000 ∨ t' = 21000) → bucket = bucketOf t' →
      CollisionFree crypto m' (m'.checkContext 9 returned Scenario.binding bucket) t'
        (Scenario.server 0).material.currentCookieKey hashed := by
    rintro t' bucket (rfl | rfl) rfl
    · unfold CollisionFree
      decide +kernel
    · unfold CollisionFree
      decide +kernel
  obtain ⟨hrun, -⟩ := cookie_lifetime hsha hopen hcontext hinput (rfl : returned.cookie = _)
  constructor
  · obtain ⟨-, hok, -⟩ := hrun rotated 11000 9 Scenario.binding 1 (hlater _ (by decide))
      (hfree 11000 1 (.inl rfl) (by decide))
    exact hok ⟨rfl, rfl, rfl, rfl, rfl, rfl⟩ rfl (by decide) (by decide)
  · obtain ⟨-, -, hlate⟩ := hrun rotated 21000 9 Scenario.binding 2 (hlater _ (by decide))
      (hfree 21000 2 (.inr rfl) (by decide))
    exact hlate (by decide)

end ServerMachine

end R8.Session
