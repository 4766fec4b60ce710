import R8Protocol.Mobility.Run

/-! A small manager whose peer sends controls in a given order, for concrete runs. -/
namespace R8.Mobility.Scenario

open FixedWidth Wire Session

def bindingOf (b : Byte) : ObservedBinding := .native 1 (bytesOf 6 b)

def identityOf (role : Byte) (key : Bytes 32) : Identity :=
  ⟨role, 1, Session.eid .sample key, key⟩

def secret : Bytes 32 := bytesOf 32 7

def config (profile : Byte) : ManagerConfig where
  signing := bytesOf 32 1
  localIdentity := identityOf 1 (bytesOf 32 1)
  peerIdentity := identityOf 2 (bytesOf 32 2)
  profile := profile
  scid := 5
  policyId := 9
  localLoc := bytesOf 16 20
  peerLoc := bytesOf 16 21
  initialPeerBinding := bindingOf 0
  candidateSecret := secret

def manager : Manager where
  signing := (config 0).signing
  localIdentity := (config 0).localIdentity
  peerIdentity := (config 0).peerIdentity
  profile := 0
  scid := 5
  policyId := 9
  ownerId := 1
  protectedReplayBinding := some ⟨0⟩

def start : World where
  state := initialState (config 0) none
  issued := []
  clockMs := 0
  applied := []
  installed := []
  promotions := []

theorem starts : World.Starts .sample manager secret start := by
  refine ⟨⟨config 0, none, some ⟨0⟩, 1, ?_, rfl⟩, rfl, rfl, rfl, rfl⟩
  exact if_neg (by decide +kernel)

/-- What arrives, with candidates and bindings named by one byte. -/
inductive Input
  | update (id : Byte) (epoch nowMs : U64)
  | probe (id : Byte) (epoch : U64) (binding : Byte) (nowMs : U64)
  | response (id : Byte) (epoch : U64) (binding : Byte) (expiryMs nowMs : U64)
  | result (id : Byte) (epoch : U64) (binding result : Byte) (nowMs : U64)
  | call (call : Call)

/-- The two calls that take a control in: a preview and, when it succeeds, its commit. Each packet
has the next counter. -/
def receive (w : World) (control : Control) (binding : ObservedBinding) (nowMs : U64) : List Call :=
  let n := w.issued.length
  let preview := Call.previewProtected control.encode binding
    ⟨some ⟨control.encode, ⟨Fin.ofNat _ (n + 1), Fin.ofNat _ n⟩, 0⟩, false⟩ (fun _ => true) nowMs
  preview :: ((w.previewed .sample manager preview).map fun p =>
    Call.commitProtected p fun proof => (⟨proof.preview, true⟩, .ok ())).toList

def signedUpdate (s : State) (id : Byte) (epoch : U64) : Control :=
  (signLocUpdate .sample (bytesOf 32 2) manager.receiving
    ⟨bytesOf 16 id, s.peerLoc, bytesOf 16 id, epoch, 0⟩).toOption.getD
    (.candidateResult (bytesOf 16 id) epoch 0 0)

def tokenOn (id : Byte) (epoch : U64) (binding : Byte) (expiryMs : U64) : Bytes 32 :=
  (token .sample secret manager.receiving
    ⟨bytesOf 16 id, bytesOf 16 id, bindingOf binding, epoch, 0, expiryMs⟩).toOption.getD (zeros 32)

def calls (w : World) : Input → List Call
  | .update id epoch nowMs => receive w (signedUpdate w.state id epoch) w.state.currentBinding nowMs
  | .probe id epoch binding nowMs =>
    receive w (.bindProbe (bytesOf 16 id) (bytesOf 16 id) epoch 0 (zeros 16)) (bindingOf binding)
      nowMs
  | .response id epoch binding expiryMs nowMs =>
    receive w (.bindResponse (bytesOf 16 id) (bytesOf 16 id) epoch 0 expiryMs
      (tokenOn id epoch binding expiryMs)) (bindingOf binding) nowMs
  | .result id epoch binding result nowMs =>
    receive w (.candidateResult (bytesOf 16 id) epoch 0 result) (bindingOf binding) nowMs
  | .call call => [call]

def script : World → List Input → List Call
  | _, [] => []
  | w, i :: is =>
    calls w i ++ script (Machine.exec (World.step .sample manager) w (calls w i)) is

/-- The world after the inputs. -/
def play (inputs : List Input) : World :=
  Machine.exec (World.step .sample manager) start (script start inputs)

instance (m : Manager) (w : World) (call : Call) : Decidable (w.Owned m call) :=
  match call with
  | .commitProtected p _ | .commitProfile3 p _ =>
    inferInstanceAs (Decidable (p ∈ w.issued ∨ p.transition.ownerId ≠ m.ownerId))
  | .proposeLocal .. | .makeProbe .. | .previewProtected .. | .previewProfile3 .. | .expire _
  | .takeResults | .takeProfile3Admissions | .close => inferInstanceAs (Decidable True)

theorem reach {ok : World → Call → Prop} [∀ w call, Decidable (ok w call)] (inputs : List Input)
    (h : Machine.Allowed (World.step .sample manager)
      (fun w call => w.Owned manager call ∧ ok w call) start (script start inputs)) :
    World.Reach .sample manager secret ok (play inputs) :=
  Machine.Reach.exec (.start starts) _ h

end R8.Mobility.Scenario
