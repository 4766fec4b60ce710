import R8Protocol.Redundant.Fleet
import R8Protocol.Session.Scenario

/-! One session and one manager of a server whose client sends controls, for concrete runs. -/
namespace R8.Redundant.Scenario

open FixedWidth Wire Session Mobility

/-- The server once its client has accepted the session 5. -/
def served : ServerMachine := Session.Scenario.withSessions 3 1000 [(5, 30)]

theorem served_reach : ServerMachine.Reach .sample served :=
  Session.Scenario.reach_exec (.start (Session.Scenario.server_starts (by simp))) _

def bootstrapOf (r : Except SessionError Profile3Bootstrap) : Profile3Bootstrap :=
  r.toOption.getD ⟨0, bytesOf 16 0, bytesOf 16 0, 0, 0, 0, bytesOf 32 0, none, none⟩

def bootstrap : Profile3Bootstrap := bootstrapOf (served.takeProfile3Bootstrap 5).2

theorem bootstrap_handedOver : HandedOver .sample bootstrap := by
  refine .inr ⟨served, 5, served_reach, ?_⟩
  have hok : (served.takeProfile3Bootstrap 5).2.toOption.isSome = true := by decide +kernel
  obtain ⟨b, hb⟩ := Option.isSome_iff_exists.mp hok
  unfold bootstrap bootstrapOf
  rw [hb]
  exact Outcome.toOption_eq_some.mp hb

/-- The session the client sends with. -/
def peerBootstrap : Profile3Bootstrap :=
  bootstrapOf (Session.Scenario.accepting (Session.Scenario.server 3) 5 30 1000).1.takeProfile3Bootstrap.2

def bindingOf (b : Byte) : ObservedBinding := .native 1 (bytesOf 6 b)

/-- The client's packet under a counter and a delivery id. -/
def packet (counter deliveryId : U64) (plaintext : List Byte) : List Byte :=
  match peerBootstrap.slot0 with
  | none => []
  | some d =>
    let header : Header := ⟨3, 0, NH_SES, 64, 1, 0, 5, peerBootstrap.localLoc, peerBootstrap.peerLoc⟩
    ({ d with sendCounters := ⟨counter⟩ }.encryptProfile3Data .sample header deliveryId plaintext
      1280).2.2.toOption.getD []

def managerConfig : ManagerConfig where
  signing := bytesOf 32 2
  localIdentity := Session.Scenario.identity 2
  peerIdentity := Session.Scenario.identity 1
  profile := 3
  scid := 5
  policyId := 9
  localLoc := bytesOf 16 21
  peerLoc := bytesOf 16 20
  initialPeerBinding := bindingOf 1
  candidateSecret := bytesOf 32 7

def start : Fleet := Fleet.empty.step .sample (.new 0 bootstrap (bindingOf 1) 1)

theorem start_reach : Fleet.Reach .sample start :=
  .next (.start rfl) ⟨rfl, bootstrap_handedOver⟩

/-- `Permitted` where it can be computed. -/
def permitted (f : Fleet) : Op → Bool
  | .new .. => false
  | .session i call => call.alone ∧ (f.sessions i).all fun w => w.Owned call
  | .issueOwner _ _ _ capability => f.issued.all fun x => x.2.capability ≠ capability
  | .activate _ admission _ _ => admission ∈ f.admissions
  | .newManager j _ owner => (f.managers j).isNone ∧ owner ∈ f.owners
  | .manager j call => (f.managers j).all fun x => x.2.Owned x.1 call
  | .prepareMobilityCommit i _ _ p _ =>
    (f.sessions i).all fun w => p ∈ w.previews ∨ p.owner ≠ w.session.receiveOwner
  | .commitMobility i _ c =>
    (f.sessions i).all fun w => c ∈ w.prepared ∨ c.owner ≠ w.session.receiveOwner

theorem permitted_sound {f : Fleet} {op : Op} (h : permitted f op = true) :
    Fleet.Permitted .sample f op := by
  have hall : ∀ {α : Type} {o : Option α} {q : α → Bool}, o.all q = true → ∀ x ∈ o, q x = true := by
    rintro α o q h x rfl
    exact h
  cases op with
  | new => simp [permitted] at h
  | session i call =>
    simp only [permitted, decide_eq_true_eq] at h
    exact ⟨h.1, fun w hw => of_decide_eq_true (hall h.2 w hw)⟩
  | issueOwner => simpa [permitted, Fleet.Permitted] using h
  | activate => simpa [permitted, Fleet.Permitted] using h
  | newManager =>
    simp only [permitted, Option.isNone_iff_eq_none, decide_eq_true_eq] at h
    exact h
  | manager j call => exact fun x hx => of_decide_eq_true (hall h x hx)
  | prepareMobilityCommit => exact fun w hw => of_decide_eq_true (hall h w hw)
  | commitMobility => exact fun w hw => of_decide_eq_true (hall h w hw)

/-- What happens to the fleet. Controls come over slot zero in the order of their counters. -/
inductive Input
  | op (op : Op)
  | build
  | control (make : Manager → State → Control) (binding : Byte) (nowMs : U64)
  | activate

/-- The three operations that take a control in, as far as they succeed. -/
def receive (f : Fleet) (control : Control) (binding : ObservedBinding) (nowMs : U64) : List Op :=
  match f.sessions 0 with
  | none => []
  | some w =>
    -- The first counter went into the SESSION_ACCEPT.
    let n := Fin.ofNat _ (w.previews.length + 2)
    let call := Call.previewMobilityInbound 0 binding (packet n n control.encode) nowMs
    let prepare := (w.previewed .sample call).map fun p =>
      Op.prepareMobilityCommit 0 1 binding p nowMs
    let f := (Op.session 0 call :: prepare.toList).foldl (Fleet.step .sample) f
    let commit := ((f.sessions 0).bind fun w => w.prepared.head?).map fun c =>
      Op.commitMobility 0 1 c
    Op.session 0 call :: prepare.toList ++ commit.toList

def ops (f : Fleet) : Input → List Op
  | .op op => [op]
  | .build => f.owners.head?.toList.map fun owner => .newManager 1 managerConfig owner
  | .control make binding nowMs =>
    ((f.managers 1).map fun x => receive f (make x.1 x.2.state) (bindingOf binding) nowMs).getD []
  | .activate => f.admissions.head?.toList.map fun a => .activate 0 a 1280 9

def script : Fleet → List Input → List Op
  | _, [] => []
  | f, i :: is => ops f i ++ script (Machine.exec (Fleet.step .sample) f (ops f i)) is

def play (inputs : List Input) : Fleet :=
  Machine.exec (Fleet.step .sample) start (script start inputs)

theorem exec_reach {ops : List Op} (h : Machine.Allowed (Fleet.step .sample)
    (fun f op => permitted f op = true) start ops) :
    Fleet.Reach .sample (Machine.exec (Fleet.step .sample) start ops) := by
  have hrun : Machine.Run (Fleet.step .sample) (fun f op => permitted f op = true) start _ :=
    (Machine.Run.refl start).exec ops h
  exact start_reach.trans (hrun.mono fun _ _ => permitted_sound)

def update (id : Byte) (epoch : U64) (m : Manager) (s : State) : Control :=
  (signLocUpdate .sample (bytesOf 32 1) m.receiving
    ⟨bytesOf 16 id, s.peerLoc, bytesOf 16 id, epoch, 1⟩).toOption.getD
    (.candidateResult (bytesOf 16 id) epoch 1 0)

def probe (id : Byte) (epoch : U64) (_ : Manager) (_ : State) : Control :=
  .bindProbe (bytesOf 16 id) (bytesOf 16 id) epoch 1 (zeros 16)

def response (id : Byte) (epoch : U64) (binding : Byte) (expiryMs : U64) (m : Manager)
    (_ : State) : Control :=
  .bindResponse (bytesOf 16 id) (bytesOf 16 id) epoch 1 expiryMs
    ((token .sample (bytesOf 32 7) m.receiving ⟨bytesOf 16 id, bytesOf 16 id, bindingOf binding,
      epoch, 1, expiryMs⟩).toOption.getD (zeros 32))

/-- An owner is issued and a manager built from it. -/
def setup : List Input := [.op (.issueOwner 0 9 false 0), .build]

end R8.Redundant.Scenario
