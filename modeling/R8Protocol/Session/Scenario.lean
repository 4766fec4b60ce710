import R8Protocol.Session.Runs

/-! A server with honest clients of its pinned peer, to run calls on. -/
namespace R8.Session.Scenario

open FixedWidth Wire

def identity (role : Byte) : Identity :=
  ⟨role, 1, eid .sample (bytesOf 32 role), bytesOf 32 role⟩

def config (localRole peerRole profile : Byte) : HandshakeConfig :=
  ⟨identity localRole, identity peerRole, profile, bytesOf 16 20, bytesOf 16 21, 1280, 4, 4, 7⟩

def binding : ObservedBinding := .native 1 (bytesOf 6 1)

def server (profile : Byte) : ServerMachine :=
  ⟨config 2 1 profile, bytesOf 32 2, ⟨bytesOf 16 5, bytesOf 32 6, bytesOf 32 7, 0⟩, [], [],
    bytesOf 16 21, bytesOf 16 20⟩

def client (profile : Byte) : ClientMachine :=
  ⟨config 1 2 profile, bytesOf 32 1, .idle, bytesOf 16 20, bytesOf 16 21⟩

theorem config_valid : ∀ profile ∈ ([0, 3] : List Byte),
    (config 1 2 profile).validate .sample = .ok () ∧
      (config 2 1 profile).validate .sample = .ok () := by
  decide +kernel

theorem server_starts {profile : Byte} (h : profile ∈ ([0, 3] : List Byte)) :
    ServerMachine.Starts .sample (server profile) := by
  obtain ⟨-, hvalid⟩ := config_valid profile h
  refine ⟨config 2 1 profile, bytesOf 32 2, ⟨bytesOf 16 5, bytesOf 32 6, bytesOf 32 7, 0⟩, ?_⟩
  simp only [ServerMachine.new, hvalid, bind, Except.bind]
  exact if_neg (not_not.mpr rfl)

theorem client_starts {profile : Byte} (h : profile ∈ ([0, 3] : List Byte)) :
    ClientMachine.Starts .sample (client profile) := by
  obtain ⟨hvalid, -⟩ := config_valid profile h
  refine ⟨config 1 2 profile, bytesOf 32 1, ?_⟩
  simp only [ClientMachine.new, hvalid, bind, Except.bind]
  exact if_neg (not_not.mpr rfl)

/-- The packet of an answer, nothing if there is none. -/
def packetOf (r : Except SessionError (List Byte)) : List Byte := r.toOption.getD []

/-- A client that has sent its OPEN_AUTH, with the packet. -/
def authenticating (m : ServerMachine) (scid : U64) (seed : Byte) (nowMs : U64) :
    ClientMachine × List Byte :=
  let opened := (client m.config.profile).start .sample scid
    ⟨bytesOf 32 seed, bytesOf 32 (seed + 1)⟩ nowMs
  let verify := packetOf (m.receiveOpen .sample (packetOf opened.2) binding (nowMs / 10000))
  let auth := opened.1.receiveVerify .sample verify nowMs
  (auth.1, packetOf auth.2)

/-- The call that opens a pending entry for that client. -/
def authCall (m : ServerMachine) (scid : U64) (seed : Byte) (nowMs : U64) : ServerCall :=
  .receiveOpenAuth (authenticating m scid seed nowMs).2 binding nowMs (nowMs / 10000)
    (some ⟨bytesOf 32 (seed + 2), bytesOf 32 (seed + 3)⟩) scid.val

/-- The client after the handshake, and its SESSION_ACCEPT. -/
def accepting (m : ServerMachine) (scid : U64) (seed : Byte) (nowMs : U64) :
    ClientMachine × List Byte :=
  let waiting := authenticating m scid seed nowMs
  let ack := packetOf (m.receiveOpenAuth .sample waiting.2 binding nowMs (nowMs / 10000)
    (some ⟨bytesOf 32 (seed + 2), bytesOf 32 (seed + 3)⟩) scid.val).2
  let r := waiting.1.receiveAck .sample ack nowMs scid.val
  (r.1, packetOf r.2.2)

/-- A whole handshake as the server sees it. -/
def handshake (m : ServerMachine) (scid : U64) (seed : Byte) (nowMs : U64) : List ServerCall :=
  [authCall m scid seed nowMs, .receiveAccept (accepting m scid seed nowMs).2 nowMs]

/-- The server with a session of each client. -/
def withSessions (profile : Byte) (nowMs : U64) : List (U64 × Byte) → ServerMachine
  | [] => server profile
  | (scid, seed) :: rest =>
    let m := withSessions profile nowMs rest
    Machine.exec (ServerMachine.step .sample) m (handshake m scid seed nowMs)

theorem reach_exec {m : ServerMachine} (h : ServerMachine.Reach .sample m)
    (calls : List ServerCall) :
    ServerMachine.Reach .sample (Machine.exec (ServerMachine.step .sample) m calls) :=
  h.exec calls (.of_forall (fun _ _ => trivial) _ _)

theorem withSessions_reach (nowMs : U64) (clients : List (U64 × Byte)) :
    ServerMachine.Reach .sample (withSessions 0 nowMs clients) := by
  induction clients with
  | nil => exact .start (server_starts (by simp))
  | cons c rest ih => exact reach_exec ih _

end R8.Session.Scenario
