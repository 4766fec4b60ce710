import R8Protocol.Session.Channel
import R8Protocol.Session.Custody
import R8Protocol.Session.Scenario

/-! A server and its clients among messages that anybody may have made: when the server accepts a
session, the client it has it with went through the same handshake. -/
namespace R8.Session

open FixedWidth Wire

/-- Verification in the ideal sense: under these keys it succeeds only on what was signed. -/
def idealSignatures (C : Crypto) (keys : List (Bytes 32)) (signed : List (Bytes 32 × List Byte)) :
    Crypto :=
  { C with
    verify := fun key message signature =>
      C.verify key message signature && (key ∉ keys || (key, message) ∈ signed) }

theorem idealSignatures_verify {C : Crypto} {keys : List (Bytes 32)}
    {signed : List (Bytes 32 × List Byte)} {key : Bytes 32} {message : List Byte}
    {signature : Bytes 64} (h : (idealSignatures C keys signed).verify key message signature)
    (hk : key ∈ keys) : (key, message) ∈ signed := by
  simp only [idealSignatures, Bool.and_eq_true, Bool.or_eq_true, decide_eq_true_eq] at h
  exact h.2.resolve_left (not_not.mpr hk)

namespace Agreement

/-- A client that has just been established, with the handshake it went through. -/
structure Run where
  machine : ClientMachine
  handshake : Handshake

/-- The server, clients and what they handed over. From `calls` on everything is a ghost that only
grows: the calls of `seal`, those of outsiders among them, what was signed under which key, the
ephemeral keys that clients waited with, the handshakes that the server answered, and the clients
as they were established. -/
structure World where
  server : ServerMachine
  clients : List ClientMachine
  bootstraps : List Profile3Bootstrap
  calls : List SealCall
  outside : List SealCall
  signed : List (Bytes 32 × List Byte)
  ephemerals : List (Bytes 32)
  answered : List Handshake
  entered : List Run

/-- Packets are arguments of the calls, so whoever makes the calls has made them up. -/
inductive Call
  | connect (config : HandshakeConfig) (signingKey : Bytes 32)
  | client (i : ℕ) (call : ClientCall)
  | server (call : ServerCall)
  | bootstrap (call : SealCall)
  | outside (call : SealCall)

namespace World

/-- The keys that the server's configuration pins. -/
def pinned (w : World) : List (Bytes 32) :=
  [w.server.config.localId.publicKey, w.server.config.peer.publicKey]

/-- The primitives as they are at this point of a run. -/
def ideal (C : Crypto) (w : World) : Crypto :=
  idealAead (idealSignatures C w.pinned w.signed) w.calls

def clientStep (C : Crypto) (w : World) (i : ℕ) (m : ClientMachine) (call : ClientCall) : World :=
  { w with
    clients := w.clients.set i (m.step C call)
    bootstraps := w.bootstraps ++ (m.yields call).toList
    calls := m.sealed C call ++ w.calls
    signed := ((m.signs C call).map fun message =>
      (m.config.localId.publicKey, message)).toList ++ w.signed
    ephemerals := ((m.step C call).ephemeral? C).toList ++ w.ephemerals
    entered := ((m.handshake? C call).map fun h => ⟨m.step C call, h⟩).toList ++ w.entered }

/-- The server signs for each handshake that it completes. -/
def serverStep (C : Crypto) (w : World) (call : ServerCall) : World :=
  { w with
    server := w.server.step C call
    signed := ((w.server.handshake? C call).map fun h =>
      (w.server.config.localId.publicKey, OPEN_ACK_DOMAIN ++ h.context.bytes)).toList ++ w.signed
    answered := (w.server.handshake? C call).toList ++ w.answered }

def step (C : Crypto) (w : World) : Call → World
  | .connect config signingKey =>
    { w with clients := w.clients ++ (ClientMachine.new C config signingKey).toOption.toList }
  | .client i call =>
    match w.clients[i]? with
    | none => w
    | some m => w.clientStep (w.ideal C) i m call
  | .server call => w.serverStep (w.ideal C) call
  | .bootstrap call => { w with calls := call :: w.calls }
  | .outside call => { w with calls := call :: w.calls, outside := call :: w.outside }

/-- Who took a bootstrap of a client over seals with its keys. Outsiders seal as they like. -/
def Permitted (C : Crypto) (w : World) : Call → Prop
  | .server call => call.InHandshake
  | .bootstrap call => ∃ b ∈ w.bootstraps, call.key ∈ (b.held C).map Prod.fst
  | _ => True

def start (server : ServerMachine) : World := ⟨server, [], [], [], [], [], [], [], []⟩

def Starts (C : Crypto) (w : World) : Prop :=
  ∃ server, ServerMachine.Starts C server ∧ w = start server

/-- Any calls in any order. -/
abbrev Reach (C : Crypto) (w : World) : Prop :=
  Machine.Reach (Starts C) (step C) (Permitted C) w

def handshakes (w : World) : List Handshake := w.answered ++ w.entered.map Run.handshake

/-- The secret of the server and an honest client is theirs: nobody else seals with a key that is
made of it. -/
def Secret (C : Crypto) (w : World) : Prop :=
  ∀ h ∈ w.answered, h.context.clientEphemeral ∈ w.ephemerals →
    ∀ info ∈ h.allInfos C, ∀ call ∈ w.outside, call.key ≠ C.hkdfExpand (h.schedule C) info

def entries (w : World) : List (Party × Handshake) :=
  w.entered.map fun r => (.client, r.handshake)

end World

/-- Of these handshakes no two transcripts hash to the same, and no two keys come of different
inputs. -/
structure CollisionFree (C : Crypto) (handshakes : List Handshake) : Prop where
  transcripts : ∀ x ∈ handshakes, ∀ y ∈ handshakes,
    x.hash C = y.hash C → x.transcript = y.transcript
  keys : ∀ x ∈ handshakes, ∀ y ∈ handshakes, ∀ info ∈ x.allInfos C, ∀ info' ∈ y.allInfos C,
    C.hkdfExpand (x.schedule C) info = C.hkdfExpand (y.schedule C) info' →
      x.schedule C = y.schedule C ∧ info = info'

instance decidableCollisionFree (C : Crypto) (handshakes : List Handshake) :
    Decidable (CollisionFree C handshakes) :=
  decidable_of_iff (_ ∧ _) ⟨fun h => ⟨h.1, h.2⟩, fun h => ⟨h.transcripts, h.keys⟩⟩

instance decidableSecret (C : Crypto) (w : World) : Decidable (w.Secret C) :=
  inferInstanceAs (Decidable (∀ h ∈ w.answered, _ → ∀ info ∈ _, ∀ call ∈ w.outside, _))

/-- An OPEN_AUTH with the ephemeral key of a client, or an OPEN_ACK for an answered handshake. -/
def Signed (C : Crypto) (w : World) (s : Bytes 32 × List Byte) : Prop :=
  (∃ context, transcriptT0 C context = .ok context.bytes ∧
    s.2 = OPEN_AUTH_DOMAIN ++ context.bytes ∧ context.clientEphemeral ∈ w.ephemerals) ∨
  ∃ h ∈ w.answered, transcriptT0 C h.context = .ok h.context.bytes ∧
    s = (w.server.config.localId.publicKey, OPEN_ACK_DOMAIN ++ h.context.bytes)

/-- A handshake of the server with its pinned client, whose ephemeral key is an honest one. -/
structure Answered (C : Crypto) (w : World) (h : Handshake) : Prop where
  transcript : transcriptT0 C h.context = .ok h.context.bytes
  server : h.context.server = w.server.config.localId
  role : h.context.client.role = w.server.config.peer.role
  client : h.context.client.publicKey = w.server.config.peer.publicKey
  ephemeral : h.context.clientEphemeral ∈ w.ephemerals
  signed : (w.server.config.localId.publicKey, OPEN_ACK_DOMAIN ++ h.context.bytes) ∈ w.signed

/-- A client that was established by its handshake, which this server answered if it is the one
that the client pins. -/
structure Entered (C : Crypto) (w : World) (r : Run) : Prop where
  transcript : transcriptT0 C r.handshake.context = .ok r.handshake.context.bytes
  client : r.handshake.context.client = r.machine.config.localId
  server : r.handshake.context.server = r.machine.config.peer
  state : ∃ e, r.machine.state = .established e ∧
    r.handshake.Gives C .client e.scid e.session
  answered : r.machine.config.peer.publicKey = w.server.config.localId.publicKey →
    ∃ h ∈ w.answered, h.context = r.handshake.context

/-- A client that waits with a recorded key, and seals with those of recorded handshakes. -/
structure Tracked (C : Crypto) (w : World) (m : ClientMachine) : Prop where
  config : m.config.validate C = .ok ()
  scid : ∀ id ∈ m.scid?, id ≠ 0
  ephemeral : ∀ key ∈ m.ephemeral? C, key ∈ w.ephemerals
  keys : m.sealingKeys C ⊆ granted C w.entries

/-- An entry that the server answered a handshake with. -/
def Backed (C : Crypto) (w : World) (scid : U64) (s : DirectionalSession) : Prop :=
  ∃ h ∈ w.answered, h.Gives C .server scid s

/-- What holds in every run. That an established entry's client sealed something is only recorded
here: what follows from it depends on what the run has in the end. -/
structure Invariant (C : Crypto) (w : World) : Prop where
  config : w.server.config.validate C = .ok ()
  clients : ∀ m ∈ w.clients, Tracked C w m
  bootstraps : ∀ b ∈ w.bootstraps, (b.held C).map Prod.fst ⊆ granted C w.entries
  calls : ∀ call ∈ w.calls, call ∈ w.outside ∨ call.key ∈ granted C w.entries
  signed : ∀ s ∈ w.signed, Signed C w s
  answered : ∀ h ∈ w.answered, Answered C w h
  entered : ∀ r ∈ w.entered, Entered C w r
  pending : ∀ entry ∈ w.server.pending, Backed C w entry.scid entry.session
  established : ∀ e ∈ w.server.established, Backed C w e.scid e.session ∧
    ∃ call ∈ w.calls, call.key = e.session.receiveKey

variable {C : Crypto} {w w' : World} {h : Handshake} {r : Run} {m : ClientMachine}
  {s s' : DirectionalSession} {scid : U64}

theorem gives_of_ideal {p : Party} (h' : h.Gives (w.ideal C) p scid s) : h.Gives C p scid s :=
  ⟨h'.scid, h'.sendKey, h'.receiveKey, h'.hash⟩

theorem verifySignature_of_ideal {key : Bytes 32} {domain t0 : List Byte} {signature : Bytes 64}
    (hv : verifySignature (w.ideal C) key domain t0 signature = .ok ()) (hk : key ∈ w.pinned) :
    (key, domain ++ t0) ∈ w.signed := by
  simp only [verifySignature, Outcome.ite_error_eq_ok, not_not] at hv
  exact idealSignatures_verify hv.2.1 hk

/-- Under the server's key an OPEN_ACK is for a handshake that the server answered. -/
theorem Signed.ack {key : Bytes 32} {context : TranscriptContext}
    (hs : Signed C w (key, OPEN_ACK_DOMAIN ++ context.bytes))
    (ht : transcriptT0 C context = .ok context.bytes) : ∃ h ∈ w.answered, h.context = context := by
  rcases hs with ⟨context', -, heq, -⟩ | ⟨h, hh, ht', heq⟩
  · exact absurd heq.symm (openAuth_ne_openAck _ _)
  · have hbytes := List.append_cancel_left (Prod.mk.inj heq).2
    rw [← hbytes] at ht'
    exact ⟨h, hh, transcriptT0_injective ht' ht⟩

/-- An OPEN_AUTH carries the ephemeral key of a client. -/
theorem Signed.auth {key : Bytes 32} {context : TranscriptContext}
    (hs : Signed C w (key, OPEN_AUTH_DOMAIN ++ context.bytes))
    (ht : transcriptT0 C context = .ok context.bytes) : context.clientEphemeral ∈ w.ephemerals := by
  rcases hs with ⟨context', ht', heq, hephemeral⟩ | ⟨h, -, -, heq⟩
  · have hbytes := List.append_cancel_left heq
    rw [← hbytes] at ht'
    rwa [transcriptT0_injective ht ht']
  · exact absurd (Prod.mk.inj heq).2 (openAuth_ne_openAck _ _)

/-- What a step leaves alone, and what it may only add to. -/
structure Grows (w w' : World) : Prop where
  config : w'.server.config = w.server.config
  calls : w.calls ⊆ w'.calls
  outside : w.outside ⊆ w'.outside
  signed : w.signed ⊆ w'.signed
  ephemerals : w.ephemerals ⊆ w'.ephemerals
  answered : w.answered ⊆ w'.answered
  entered : w.entered ⊆ w'.entered

namespace Grows

theorem granted (hg : Grows w w') : granted C w.entries ⊆ Session.granted C w'.entries := by
  intro k hk
  obtain ⟨x, hx, hk⟩ := List.mem_flatMap.mp hk
  exact List.mem_flatMap.mpr ⟨x, List.map_subset _ hg.entered hx, hk⟩

theorem signed_mono (hg : Grows w w') {x : Bytes 32 × List Byte} (hs : Signed C w x) :
    Signed C w' x := by
  rcases hs with ⟨context, ht, heq, hephemeral⟩ | ⟨h, hh, ht, heq⟩
  · exact .inl ⟨context, ht, heq, hg.ephemerals hephemeral⟩
  · exact .inr ⟨h, hg.answered hh, ht, by rw [hg.config]; exact heq⟩

theorem answered_mono (hg : Grows w w') (ha : Answered C w h) : Answered C w' h where
  transcript := ha.transcript
  server := by rw [hg.config]; exact ha.server
  role := by rw [hg.config]; exact ha.role
  client := by rw [hg.config]; exact ha.client
  ephemeral := hg.ephemerals ha.ephemeral
  signed := by rw [hg.config]; exact hg.signed ha.signed

theorem entered_mono (hg : Grows w w') (he : Entered C w r) : Entered C w' r where
  transcript := he.transcript
  client := he.client
  server := he.server
  state := he.state
  answered := by
    rw [hg.config]
    intro hpin
    obtain ⟨h, hh, heq⟩ := he.answered hpin
    exact ⟨h, hg.answered hh, heq⟩

theorem tracked_mono (hg : Grows w w') (ht : Tracked C w m) : Tracked C w' m where
  config := ht.config
  scid := ht.scid
  ephemeral key hkey := hg.ephemerals (ht.ephemeral key hkey)
  keys := List.Subset.trans ht.keys hg.granted

theorem backed_mono (hg : Grows w w') (hb : Backed C w scid s) : Backed C w' scid s := by
  obtain ⟨h, hh, hgives⟩ := hb
  exact ⟨h, hg.answered hh, hgives⟩

end Grows

theorem Backed.advances (hb : Backed C w scid s) (ha : Advances s s') : Backed C w scid s' := by
  obtain ⟨h, hh, hgives⟩ := hb
  exact ⟨h, hh, hgives.advances ha⟩

/-- A step keeps the invariant if what is new fits in. -/
theorem Invariant.grow (hi : Invariant C w) (hg : Grows w w')
    (hclients : ∀ m ∈ w'.clients, m ∈ w.clients ∨ Tracked C w' m)
    (hbootstraps : ∀ b ∈ w'.bootstraps, b ∈ w.bootstraps ∨
      (b.held C).map Prod.fst ⊆ granted C w'.entries)
    (hcalls : ∀ call ∈ w'.calls, call ∈ w.calls ∨ call ∈ w'.outside ∨
      call.key ∈ granted C w'.entries)
    (hsigned : ∀ s ∈ w'.signed, s ∈ w.signed ∨ Signed C w' s)
    (hanswered : ∀ h ∈ w'.answered, h ∈ w.answered ∨ Answered C w' h)
    (hentered : ∀ r ∈ w'.entered, r ∈ w.entered ∨ Entered C w' r)
    (hpending : ∀ entry ∈ w'.server.pending, Backed C w' entry.scid entry.session)
    (hestablished : ∀ e ∈ w'.server.established, Backed C w' e.scid e.session ∧
      ∃ call ∈ w'.calls, call.key = e.session.receiveKey) : Invariant C w' where
  config := by rw [hg.config]; exact hi.config
  clients m hm := (hclients m hm).elim (fun h => hg.tracked_mono (hi.clients m h)) id
  bootstraps b hb :=
    (hbootstraps b hb).elim (fun h => List.Subset.trans (hi.bootstraps b h) hg.granted) id
  calls call hcall := (hcalls call hcall).elim
    (fun h => (hi.calls call h).imp (fun h => hg.outside h) fun h => hg.granted h) id
  signed x hx := (hsigned x hx).elim (fun h => hg.signed_mono (hi.signed x h)) id
  answered h hh := (hanswered h hh).elim (fun h' => hg.answered_mono (hi.answered h h')) id
  entered r hr := (hentered r hr).elim (fun h => hg.entered_mono (hi.entered r h)) id
  pending := hpending
  established := hestablished

/-- As above, when the tables of the server stay. -/
theorem Invariant.grow_beside (hi : Invariant C w) (hg : Grows w w') (hserver : w'.server = w.server)
    (hclients : ∀ m ∈ w'.clients, m ∈ w.clients ∨ Tracked C w' m)
    (hbootstraps : ∀ b ∈ w'.bootstraps, b ∈ w.bootstraps ∨
      (b.held C).map Prod.fst ⊆ granted C w'.entries)
    (hcalls : ∀ call ∈ w'.calls, call ∈ w.calls ∨ call ∈ w'.outside ∨
      call.key ∈ granted C w'.entries)
    (hsigned : ∀ s ∈ w'.signed, s ∈ w.signed ∨ Signed C w' s)
    (hanswered : w'.answered = w.answered)
    (hentered : ∀ r ∈ w'.entered, r ∈ w.entered ∨ Entered C w' r) : Invariant C w' := by
  refine hi.grow hg hclients hbootstraps hcalls hsigned ?_ hentered ?_ ?_
  · intro h hh
    rw [hanswered] at hh
    exact .inl hh
  · rw [hserver]
    exact fun entry hentry => hg.backed_mono (hi.pending entry hentry)
  · rw [hserver]
    intro e he
    obtain ⟨hbacked, call, hcall, hkey⟩ := hi.established e he
    exact ⟨hg.backed_mono hbacked, call, hg.calls hcall, hkey⟩

theorem invariant_starts (hs : World.Starts C w) : Invariant C w := by
  obtain ⟨server, ⟨config, signingKey, material, hnew⟩, rfl⟩ := hs
  simp only [ServerMachine.new, Outcome.bind_eq_ok, Outcome.ite_error_eq_ok, Except.ok.injEq]
    at hnew
  obtain ⟨⟨⟩, hvalid, -, rfl⟩ := hnew
  constructor
  case config => exact hvalid
  all_goals simp [World.start]

section Client

variable {i : ℕ} {call : ClientCall}

theorem clientStep_grows (C : Crypto) (w : World) (i : ℕ) (m : ClientMachine) (call : ClientCall) :
    Grows w (w.clientStep C i m call) where
  config := rfl
  calls := List.subset_append_right _ _
  outside := List.Subset.refl _
  signed := List.subset_append_right _ _
  ephemerals := List.subset_append_right _ _
  answered := List.Subset.refl _
  entered := List.subset_append_right _ _

/-- The keys of a client and of all that it does are those of clients that were established. -/
theorem Tracked.spread (ht : Tracked C w m) :
    m.spread (w.ideal C) call ⊆ granted C (w.clientStep (w.ideal C) i m call).entries := by
  have hwait : ∀ wait, m.state = .authWait wait → wait.scid ≠ 0 :=
    fun wait hm => ht.scid wait.scid (by simp [ClientMachine.scid?, hm])
  have hknown := ClientMachine.spread_known (C := w.ideal C) ht.config hwait call
  refine List.Subset.trans hknown (List.append_subset.mpr ⟨?_, ?_⟩)
  · intro k hk
    obtain ⟨h, hh, hk⟩ := List.mem_flatMap.mp hk
    refine List.mem_flatMap.mpr ⟨(.client, h), List.mem_map.mpr ⟨⟨m.step (w.ideal C) call, h⟩, ?_,
      rfl⟩, hk⟩
    refine List.mem_append_left _ (Option.mem_toList.mpr ?_)
    rw [Option.mem_toList.mp hh]
    rfl
  · exact List.Subset.trans ht.keys (clientStep_grows _ w i m call).granted

theorem Tracked.step (ht : Tracked C w m) :
    Tracked C (w.clientStep (w.ideal C) i m call) (m.step (w.ideal C) call) where
  config := by
    rw [ClientMachine.config_step]
    exact ht.config
  scid := ClientMachine.scid_step (C := w.ideal C) ht.config ht.scid call
  ephemeral key hkey := List.mem_append_left _ (Option.mem_toList.mpr hkey)
  keys := List.Subset.trans
    (List.Subset.trans (List.subset_append_left _ _) (List.subset_append_left _ _)) ht.spread

/-- What the client signs carries the key it waits with. -/
theorem Tracked.signs (ht : Tracked C w m) {message : List Byte}
    (hsigns : m.signs (w.ideal C) call = some message) (key : Bytes 32) :
    Signed C (w.clientStep (w.ideal C) i m call) (key, message) := by
  obtain ⟨context, htranscript, rfl, hwaits⟩ := ClientMachine.signs_eq_some hsigns
  have hephemeral := ht.ephemeral context.clientEphemeral hwaits
  exact .inl ⟨context, htranscript, rfl, (clientStep_grows _ w i m call).ephemerals hephemeral⟩

theorem Invariant.enters (hi : Invariant C w) (ht : Tracked C w m)
    (hh : m.handshake? (w.ideal C) call = some h) :
    Entered C (w.clientStep (w.ideal C) i m call) ⟨m.step (w.ideal C) call, h⟩ := by
  have hwait : ∀ wait, m.state = .authWait wait → wait.scid ≠ 0 :=
    fun wait hm => ht.scid wait.scid (by simp [ClientMachine.scid?, hm])
  obtain ⟨htranscript, hclient, hserver, hverify, e, he, hgives⟩ :=
    ClientMachine.handshake?_gives (C := w.ideal C) ht.config hwait hh
  have hconfig := ClientMachine.config_step (C := w.ideal C) m call
  refine ⟨htranscript, ?_, ?_, ⟨e, he, gives_of_ideal hgives⟩, ?_⟩
  · rw [hconfig]
    exact hclient
  · rw [hconfig]
    exact hserver
  · intro hpin
    rw [hconfig] at hpin
    have hpinned : m.config.peer.publicKey ∈ w.pinned := by
      rw [World.pinned, hpin]
      exact List.mem_cons_self
    have hsigned := hi.signed _ (verifySignature_of_ideal hverify hpinned)
    exact hsigned.ack htranscript

theorem invariant_client (hi : Invariant C w) (hm : m ∈ w.clients) :
    Invariant C (w.clientStep (w.ideal C) i m call) := by
  have ht := hi.clients m hm
  have hspread : m.spread (w.ideal C) call ⊆
      granted C (w.clientStep (w.ideal C) i m call).entries := ht.spread
  refine hi.grow_beside (clientStep_grows _ w i m call) rfl ?_ ?_ ?_ ?_ rfl ?_
  · intro m' hm'
    rcases List.mem_or_eq_of_mem_set hm' with hm' | rfl
    · exact .inl hm'
    · exact .inr ht.step
  · intro b hb
    rcases List.mem_append.mp hb with hb | hb
    · exact .inl hb
    · refine .inr (List.Subset.trans ?_ hspread)
      refine List.Subset.trans ?_
        (List.Subset.trans (List.subset_append_right _ _) (List.subset_append_left _ _))
      exact fun k hk => List.mem_flatMap.mpr ⟨b, hb, hk⟩
  · intro c hc
    rcases List.mem_append.mp hc with hc | hc
    · exact .inr (.inr (hspread (List.mem_append_right _ (List.mem_map_of_mem hc))))
    · exact .inl hc
  · intro x hx
    rcases List.mem_append.mp hx with hx | hx
    · obtain ⟨message, hsigns, rfl⟩ := Option.map_eq_some_iff.mp (Option.mem_toList.mp hx)
      exact .inr (ht.signs hsigns _)
    · exact .inl hx
  · intro r hr
    rcases List.mem_append.mp hr with hr | hr
    · obtain ⟨h, hh, rfl⟩ := Option.map_eq_some_iff.mp (Option.mem_toList.mp hr)
      exact .inr (hi.enters ht hh)
    · exact .inl hr

end Client

section Server

variable {call : ServerCall}

theorem serverStep_grows (C : Crypto) (w : World) (call : ServerCall) :
    Grows w (w.serverStep C call) where
  config := ServerMachine.step_config w.server call
  calls := List.Subset.refl _
  outside := List.Subset.refl _
  signed := List.subset_append_right _ _
  ephemerals := List.Subset.refl _
  answered := List.subset_append_right _ _
  entered := List.Subset.refl _

/-- The server answers a handshake of which a client has signed its half. -/
theorem Invariant.answers (hi : Invariant C w)
    (hh : w.server.handshake? (w.ideal C) call = some h) :
    Answered C (w.serverStep (w.ideal C) call) h := by
  have hconfig := (serverStep_grows (w.ideal C) w call).config
  obtain ⟨htranscript, hserver, hrole⟩ := ServerMachine.handshake?_context hh
  obtain ⟨hclient, context, ht, hverify, hephemeral⟩ := ServerMachine.handshake?_verifies hh
  have hpinned : w.server.config.peer.publicKey ∈ w.pinned := by simp [World.pinned]
  have hsigned := hi.signed _ (verifySignature_of_ideal hverify hpinned)
  constructor
  case transcript => exact htranscript
  case server => rw [hconfig]; exact hserver
  case role => rw [hconfig]; exact hrole
  case client => rw [hconfig]; exact hclient
  case ephemeral =>
    rw [← hephemeral]
    exact hsigned.auth ht
  case signed =>
    rw [hconfig]
    refine List.mem_append_left _ (Option.mem_toList.mpr ?_)
    rw [hh]
    rfl

/-- A packet that opens was sealed under the key it opened with. -/
theorem sealed_of_preview {packet : List Byte} {preview : ProtectedPreview}
    (hp : s.preview (w.ideal C) packet = .ok preview) :
    ∃ call ∈ w.calls, call.key = s.receiveKey := by
  obtain ⟨hopens, -⟩ := preview_opens hp
  obtain ⟨n, -, data, tag, -, hopened⟩ := hopens.opened
  obtain ⟨call, hcall, hkey, -⟩ := idealAead_open hopened
  exact ⟨call, hcall, hkey⟩

theorem invariant_server (hi : Invariant C w) (hcall : call.InHandshake) :
    Invariant C (w.serverStep (w.ideal C) call) := by
  have hg := serverStep_grows (w.ideal C) w call
  have hnew (h : Handshake) (hh : w.server.handshake? (w.ideal C) call = some h) :
      h ∈ (w.serverStep (w.ideal C) call).answered :=
    List.mem_append_left _ (Option.mem_toList.mpr hh)
  refine hi.grow hg (fun _ => .inl) (fun _ => .inl) (fun _ => .inl) ?_ ?_ (fun _ => .inl) ?_ ?_
  · intro x hx
    rcases List.mem_append.mp hx with hx | hx
    · obtain ⟨h, hh, rfl⟩ := Option.map_eq_some_iff.mp (Option.mem_toList.mp hx)
      refine .inr (.inr ⟨h, hnew h hh, (hi.answers hh).transcript, ?_⟩)
      rw [hg.config]
    · exact .inl hx
  · intro h hh
    rcases List.mem_append.mp hh with hh | hh
    · exact .inr (hi.answers (Option.mem_toList.mp hh))
    · exact .inl hh
  · intro entry hentry
    rcases ServerMachine.pending_step w.server call entry hentry with
      ⟨old, hold, hscid, hadv⟩ | ⟨h, hh, hgives⟩
    · rw [hscid]
      exact hg.backed_mono ((hi.pending old hold).advances hadv)
    · exact ⟨h, hnew h hh, gives_of_ideal hgives⟩
  · intro e he
    rcases ServerMachine.established_step hcall e he with
      he | ⟨entry, hentry, packet, preview, hpreview, hscid, hadv⟩
    · obtain ⟨hbacked, call', hcall', hkey⟩ := hi.established e he
      exact ⟨hg.backed_mono hbacked, call', hcall', hkey⟩
    · obtain ⟨call', hcall', hkey⟩ := sealed_of_preview hpreview
      rw [hscid]
      exact ⟨hg.backed_mono ((hi.pending entry hentry).advances hadv), call', hcall',
        hkey.trans hadv.keys.2.1.symm⟩

end Server

theorem invariant_step {call : Call} (hi : Invariant C w) (hok : w.Permitted C call) :
    Invariant C (w.step C call) := by
  cases call with
  | connect config signingKey =>
    refine hi.grow_beside ⟨rfl, List.Subset.refl _, List.Subset.refl _, List.Subset.refl _,
      List.Subset.refl _, List.Subset.refl _, List.Subset.refl _⟩ rfl ?_ (fun _ => .inl)
      (fun _ => .inl) (fun _ => .inl) rfl fun _ => .inl
    intro m hm
    rcases List.mem_append.mp hm with hm | hm
    · exact .inl hm
    · have hnew := Outcome.toOption_eq_some.mp (Option.mem_toList.mp hm)
      simp only [ClientMachine.new, Outcome.bind_eq_ok, Outcome.ite_error_eq_ok, Except.ok.injEq]
        at hnew
      obtain ⟨⟨⟩, hvalid, -, rfl⟩ := hnew
      refine .inr ⟨hvalid, by simp [ClientMachine.scid?], by simp [ClientMachine.ephemeral?], ?_⟩
      rw [ClientMachine.sealingKeys_eq_nil (by simp)]
      exact List.nil_subset _
  | client i call =>
    simp only [World.step]
    split
    · exact hi
    · rename_i m hm
      exact invariant_client hi (List.mem_of_getElem? hm)
  | server call => exact invariant_server hi hok
  | bootstrap call =>
    refine hi.grow_beside ⟨rfl, List.subset_cons_self _ _, List.Subset.refl _, List.Subset.refl _,
      List.Subset.refl _, List.Subset.refl _, List.Subset.refl _⟩ rfl (fun _ => .inl)
      (fun _ => .inl) ?_ (fun _ => .inl) rfl fun _ => .inl
    intro c hc
    rcases List.mem_cons.mp hc with rfl | hc
    · obtain ⟨b, hb, hkey⟩ := hok
      exact .inr (.inr (hi.bootstraps b hb hkey))
    · exact .inl hc
  | outside call =>
    refine hi.grow_beside ⟨rfl, List.subset_cons_self _ _, List.subset_cons_self _ _,
      List.Subset.refl _, List.Subset.refl _, List.Subset.refl _, List.Subset.refl _⟩ rfl
      (fun _ => .inl) (fun _ => .inl) ?_ (fun _ => .inl) rfl fun _ => .inl
    intro c hc
    rcases List.mem_cons.mp hc with rfl | hc
    · exact .inr (.inl List.mem_cons_self)
    · exact .inl hc

theorem invariant_reach (hr : World.Reach C w) : Invariant C w :=
  hr.invariant (fun _ => invariant_starts) fun _ _ hi hok => invariant_step hi hok

/-- An entry of the server and a client as it was established are of one handshake, as far as it
was signed, and their keys cross over. -/
structure Agrees (C : Crypto) (h : Handshake) (e : EstablishedSession) (r : Run) : Prop where
  entry : h.Gives C .server e.scid e.session
  context : r.handshake.context = h.context
  state : ∃ c, r.machine.state = .established c ∧ c.scid = e.scid ∧
    c.session.transcriptHash = e.session.transcriptHash ∧
    c.session.sendKey = e.session.receiveKey ∧ c.session.receiveKey = e.session.sendKey

/-- The key of a client in slot zero is that of one other handshake at most. -/
theorem CollisionFree.same {handshakes : List Handshake} {h' : Handshake} {info : List Byte}
    (hfree : CollisionFree C handshakes) (hh : h ∈ handshakes) (hh' : h' ∈ handshakes)
    (ht : transcriptT0 C h.context = .ok h.context.bytes)
    (ht' : transcriptT0 C h'.context = .ok h'.context.bytes) (hinfo : info ∈ h'.infos C .client)
    (heq : h.key C (h.roles .client).1 (h.roles .client).2 =
      C.hkdfExpand (h'.schedule C) info) :
    h'.context = h.context ∧ h'.hash C = h.hash C ∧ h'.schedule C = h.schedule C := by
  have hfirst : keyInfo (h.hash C) h.context.profile (h.roles .client).1 (h.roles .client).2 0 ∈
      h.allInfos C := List.mem_cons_self
  obtain ⟨hschedule, hsame⟩ := hfree.keys h hh h' hh' _ hfirst info
    (h'.infos_subset C .client info hinfo) heq
  have hhash : h.hash C = h'.hash C := by
    rcases List.mem_cons.mp hinfo with rfl | hinfo
    · exact Handshake.keyInfo_hash hsame
    · obtain rfl := List.mem_singleton.mp hinfo
      exact Handshake.keyInfo_hash hsame
  obtain ⟨hcontext, -⟩ := Handshake.transcript_injective (hfree.transcripts h hh h' hh' hhash)
    ht ht'
  exact ⟨hcontext.symm, hhash.symm, hschedule.symm⟩

/-- With ideal signatures and an ideal cipher, no collisions and the honest secrets kept: what the
server has established, its pinned client has established, and what a client has established with
this server, the server signed. -/
theorem handshake_agreement (hr : World.Reach C w) (hfree : CollisionFree C w.handshakes)
    (hsecret : w.Secret C) :
    (∀ e ∈ w.server.established, ∃ h ∈ w.answered, ∃ r ∈ w.entered, Agrees C h e r ∧
      r.machine.config.localId.publicKey = w.server.config.peer.publicKey) ∧
    ∀ r ∈ w.entered, r.machine.config.peer.publicKey = w.server.config.localId.publicKey →
      ∃ h ∈ w.answered, h.context = r.handshake.context ∧
        (w.server.config.localId.publicKey, OPEN_ACK_DOMAIN ++ h.context.bytes) ∈ w.signed := by
  have hi := invariant_reach hr
  constructor
  · intro e he
    obtain ⟨⟨h, hh, hgives⟩, call, hcall, hkey⟩ := hi.established e he
    have hanswered := hi.answered h hh
    have hfirst : h.key C (h.roles .client).1 (h.roles .client).2 = call.key :=
      (hkey.trans hgives.receiveKey).symm
    rcases hi.calls call hcall with houtside | hgranted
    · -- an outsider would have to know the secret
      have hinfo : keyInfo (h.hash C) h.context.profile (h.roles .client).1
          (h.roles .client).2 0 ∈ h.allInfos C := List.mem_cons_self
      exact absurd hfirst.symm (hsecret h hh hanswered.ephemeral _ hinfo call houtside)
    · obtain ⟨x, hx, hx'⟩ := List.mem_flatMap.mp hgranted
      obtain ⟨r, hr, rfl⟩ := List.mem_map.mp hx
      obtain ⟨k, hk, hkeq⟩ := List.mem_map.mp hx'
      obtain ⟨info, hinfo, rfl⟩ := List.mem_map.mp hk
      have hentered := hi.entered r hr
      obtain ⟨hcontext, hhash, hschedule⟩ := hfree.same (List.mem_append_left _ hh)
        (List.mem_append_right _ (List.mem_map_of_mem hr)) hanswered.transcript
        hentered.transcript hinfo (hfirst.trans hkeq.symm)
      obtain ⟨c, hc, hclient⟩ := hentered.state
      obtain ⟨hscid, hsame, hsend, hreceive⟩ :=
        hclient.crosses hgives hcontext hhash hschedule
      refine ⟨h, hh, r, hr, ⟨hgives, hcontext, c, hc, hscid, hsame, hsend, hreceive⟩, ?_⟩
      rw [← hentered.client, hcontext]
      exact hanswered.client
  · intro r hr hpin
    obtain ⟨h, hh, hcontext⟩ := (hi.entered r hr).answered hpin
    exact ⟨h, hh, hcontext, (hi.answered h hh).signed⟩

open Scenario in
/-- A handshake from OPEN to SESSION_ACCEPT, with an outsider who seals in between. -/
def oneHandshake : List Call :=
  let m := Scenario.server 0
  let opened := (client 0).start .sample 9 ⟨bytesOf 32 50, bytesOf 32 51⟩ 20000
  let verify := packetOf (m.receiveOpen .sample (packetOf opened.2) binding 2)
  let ack := packetOf (m.receiveOpenAuth .sample (authenticating m 9 50 20000).2 binding 20000 2
    (some ⟨bytesOf 32 52, bytesOf 32 53⟩) 9).2
  [.connect (config 1 2 0) (bytesOf 32 1),
    .client 0 (.start 9 ⟨bytesOf 32 50, bytesOf 32 51⟩ 20000),
    .client 0 (.receiveVerify verify 20000), .server (authCall m 9 50 20000),
    .outside ⟨bytesOf 32 7, 1, [], []⟩, .client 0 (.receiveAck ack 20000 9),
    .server (.receiveAccept (accepting m 9 50 20000).2 20000)]

def afterHandshake : World :=
  Machine.exec (World.step .sample) (World.start (Scenario.server 0)) oneHandshake

theorem handshake_agreement_accepted :
    ∃ e ∈ afterHandshake.server.established, ∃ h ∈ afterHandshake.answered,
      ∃ r ∈ afterHandshake.entered, Agrees .sample h e r := by
  have hstarts : World.Starts .sample (World.start (Scenario.server 0)) :=
    ⟨Scenario.server 0, Scenario.server_starts (by simp), rfl⟩
  have hr : World.Reach .sample afterHandshake := by
    refine (Machine.Reach.start hstarts).exec oneHandshake ?_
    simp [oneHandshake, Machine.Allowed, World.Permitted, ServerCall.InHandshake,
      Scenario.authCall]
  obtain ⟨hfree, hsecret, hlength⟩ : CollisionFree .sample afterHandshake.handshakes ∧
      afterHandshake.Secret .sample ∧ 0 < afterHandshake.server.established.length := by
    decide +kernel
  have hentry := List.getElem_mem hlength
  obtain ⟨h, hh, r, hmem, hagrees, -⟩ := (handshake_agreement hr hfree hsecret).1 _ hentry
  exact ⟨_, hentry, h, hh, r, hmem, hagrees⟩

end Agreement

end R8.Session
