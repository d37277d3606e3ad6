import AutomateLinux.Process
import Mathlib.Logic.Function.Basic

/-!
# The peer manager

One object keeps the daemon's role, its connection to the leader and the peers
it knows.  Its operations open and close descriptors of the process; whether a
system call succeeds is an argument.  The flag `m_connectedToLeader` and the
socket `m_leaderSocket` are separate variables, and a socket of `-1` is `none`.
-/

namespace AutomateLinux

def PEER_ROLE_LEADER : String := "leader"

def PEER_ROLE_WORKER : String := "worker"

def WG_LEADER_IP : String := "10.0.0.1"

structure PeerInfo where
  peer_id : String
  ip_address : String
  mac_address : String
  hostname : String
  is_online : Bool
  socket_fd : Option Handle

structure PeerManager where
  m_role : String
  m_peerId : String
  m_leaderAddress : String
  m_leaderSocket : Option Handle
  m_connectedToLeader : Bool
  m_peers : String → Option PeerInfo

def PeerManager.initial : PeerManager where
  m_role := ""
  m_peerId := ""
  m_leaderAddress := ""
  m_leaderSocket := none
  m_connectedToLeader := false
  m_peers := fun _ => none

def PeerManager.isLeader (pm : PeerManager) : Bool :=
  pm.m_role = PEER_ROLE_LEADER

/-- The peer manager and the process whose descriptors it works on. -/
structure PeerState where
  pm : PeerManager
  process : Process

namespace PeerState

/-! ## The connection to the leader -/

def setRole (s : PeerState) (role : String) : PeerState :=
  { s with pm := { s.pm with m_role := role } }

def setPeerId (s : PeerState) (id : String) : PeerState :=
  { s with pm := { s.pm with m_peerId := id } }

def setLeaderAddress (s : PeerState) (addr : String) : PeerState :=
  { s with pm := { s.pm with m_leaderAddress := addr } }

/-- `loadConfig`, with the settings it finds. -/
def loadConfig (role id addr : String) (s : PeerState) : PeerState :=
  { s with
    pm := { s.pm with m_role := role, m_peerId := id, m_leaderAddress := addr } }

def disconnectFromLeader (s : PeerState) : PeerState :=
  match s.pm.m_leaderSocket with
  | some h =>
      { pm := { s.pm with m_leaderSocket := none, m_connectedToLeader := false }
        process := s.process.close h.fd }
  | none => { s with pm := { s.pm with m_connectedToLeader := false } }

/-- `sendToLeader`, and what `forwardToLeader` does to the connection: only a
failed write has an effect. -/
def sendToLeader (writeSucceeds : Bool) (s : PeerState) : Bool × PeerState :=
  if !s.pm.m_connectedToLeader || s.pm.m_leaderSocket.isNone then (false, s)
  else if writeSucceeds then (true, s)
  else (false, s.disconnectFromLeader)

/-- Where an attempt to connect ends. -/
inductive ConnectOutcome
  | socketFails | addressInvalid | connectFails
  | connected (registrationSent : Bool)
deriving DecidableEq

def ConnectOutcome.succeeds : ConnectOutcome → Bool
  | connected _ => true
  | _ => false

/-- The attempt gets past the two guards of `connectToLeader`. -/
def canConnect (s : PeerState) : Bool :=
  !s.pm.isLeader && s.pm.m_leaderAddress ≠ ""

/-- `close(m_leaderSocket); m_leaderSocket = -1`, if there is a socket. -/
def closeLeaderSocket (s : PeerState) : PeerState :=
  match s.pm.m_leaderSocket with
  | some h =>
      { pm := { s.pm with m_leaderSocket := none }
        process := s.process.close h.fd }
  | none => s

/-- `connectToLeader` after its guards and after closing the old socket. -/
def openLeaderSocket (outcome : ConnectOutcome) (s : PeerState) :
    Bool × PeerState :=
  match outcome with
  | .socketFails => (false, s)
  | .addressInvalid | .connectFails =>
      let (h, process) := s.process.open_ .leader
      (false, { s with process := process.close h.fd })
  | .connected registrationSent =>
      let (h, process) := s.process.open_ .leader
      let s : PeerState :=
        { pm := { s.pm with m_leaderSocket := some h, m_connectedToLeader := true }
          process := process }
      (true, (s.sendToLeader registrationSent).2)

/-- `connectToLeader`; the registration response it then waits for has no
effect on the connection. -/
def connectToLeader (outcome : ConnectOutcome) (s : PeerState) :
    Bool × PeerState :=
  if !s.canConnect then (false, s)
  else s.closeLeaderSocket.openLeaderSocket outcome

/-- The failed-read branch of `handle_leader_data`. -/
def leaderReadFails (s : PeerState) : PeerState :=
  match s.pm.m_leaderSocket with
  | some _ => s.disconnectFromLeader
  | none => s

/-! ## The commands and threads that call it -/

/-- An optional argument of `setPeerConfig`. -/
def configArgument (command : Json) (key : String) :
    Except Exn (Option String) :=
  match command.find? key with
  | none => .ok none
  | some value => value.getString.map some

/-- The arguments of `setPeerConfig`, saved one after the other; `some` is an
early return. -/
def applyConfig (command : Json) (s : PeerState) :
    Except Exn (Option CmdResult) × PeerState :=
  match configArgument command "role" with
  | .error e => (.error e, s)
  | .ok role =>
      if role.any fun r => r ≠ PEER_ROLE_LEADER && r ≠ PEER_ROLE_WORKER then
        (.ok (some ⟨1, "Invalid role. Use 'leader' or 'worker'.\n"⟩), s)
      else
        let s := (role.map s.setRole).getD s
        match configArgument command "id" with
        | .error e => (.error e, s)
        | .ok id =>
            let s := (id.map s.setPeerId).getD s
            match configArgument command "leader" with
            | .error e => (.error e, s)
            | .ok leader => (.ok none, (leader.map s.setLeaderAddress).getD s)

/-- Whatever the arguments are, only the configuration changes. -/
theorem applyConfig_eq_loadConfig (command : Json) (s : PeerState) :
    ∃ role id addr, (s.applyConfig command).2 = s.loadConfig role id addr := by
  unfold applyConfig
  split
  · exact ⟨s.pm.m_role, s.pm.m_peerId, s.pm.m_leaderAddress, rfl⟩
  · rename_i role _
    split
    · exact ⟨s.pm.m_role, s.pm.m_peerId, s.pm.m_leaderAddress, rfl⟩
    · obtain ⟨r, hrole⟩ : ∃ r, (role.map s.setRole).getD s =
          s.loadConfig r s.pm.m_peerId s.pm.m_leaderAddress := by
        cases role with
        | none => exact ⟨s.pm.m_role, rfl⟩
        | some r => exact ⟨r, rfl⟩
      simp only [hrole]
      split
      · exact ⟨_, _, _, rfl⟩
      · rename_i id _
        obtain ⟨i, hid⟩ : ∃ i, (id.map (s.loadConfig r s.pm.m_peerId
            s.pm.m_leaderAddress).setPeerId).getD (s.loadConfig r s.pm.m_peerId
              s.pm.m_leaderAddress) =
            s.loadConfig r i s.pm.m_leaderAddress := by
          cases id with
          | none => exact ⟨s.pm.m_peerId, rfl⟩
          | some i => exact ⟨i, rfl⟩
        simp only [hid]
        split
        · exact ⟨_, _, _, rfl⟩
        · rename_i leader _
          cases leader with
          | none => exact ⟨_, _, _, rfl⟩
          | some a => exact ⟨_, _, a, rfl⟩

/-- The saved configuration is that of a worker that knows its leader. -/
def configuredWorker (s : PeerState) : Bool :=
  s.pm.m_role = PEER_ROLE_WORKER && s.pm.m_leaderAddress ≠ ""

def handleSetPeerConfig (command : Json) (outcome : ConnectOutcome)
    (s : PeerState) : Except Exn CmdResult × PeerState :=
  match s.applyConfig command with
  | (.error e, s) => (.error e, s)
  | (.ok (some result), s) => (.ok result, s)
  | (.ok none, s) =>
      if s.configuredWorker then
        match s.connectToLeader outcome with
        | (true, s) =>
            (.ok ⟨0, "Peer config saved. Connected to leader at " ++
              s.pm.m_leaderAddress ++ "\n"⟩, s)
        | (false, s) =>
            (.ok ⟨0, "Peer config saved. Failed to connect to leader at " ++
              s.pm.m_leaderAddress ++ " (will retry on next command)\n"⟩, s)
      else
        (.ok ⟨0, "Peer config saved. Role: " ++ s.pm.m_role ++ ", ID: " ++
          s.pm.m_peerId ++ "\n"⟩, s)

def handleRegisterWorker (hostname : String) (outcome : ConnectOutcome)
    (s : PeerState) : CmdResult × PeerState :=
  let s := s.setRole PEER_ROLE_WORKER
  let s := s.setPeerId hostname
  let s := s.setLeaderAddress WG_LEADER_IP
  match s.connectToLeader outcome with
  | (true, s) =>
      (⟨0, "Registered as worker '" ++ hostname ++ "', connected to leader at " ++
        WG_LEADER_IP ++ "\n"⟩, s)
  | (false, s) =>
      (⟨0, "Registered as worker '" ++ hostname ++
        "', failed to connect to leader at " ++ WG_LEADER_IP ++
        " (will retry on next command)\n"⟩, s)

/-- The connection attempt of the commands that forward to the leader. -/
def connectIfDisconnected (outcome : ConnectOutcome) (s : PeerState) :
    PeerState :=
  if !s.pm.isLeader && !s.pm.m_connectedToLeader then
    (s.connectToLeader outcome).2
  else s

/-- The start of an iteration of `reconnectLoop`, before it sleeps. -/
def reconnectAttempt (outcome : ConnectOutcome) (s : PeerState) : PeerState :=
  if s.pm.isLeader then s
  else if !s.pm.m_connectedToLeader then (s.connectToLeader outcome).2
  else s

/-- The heartbeat at the end of an iteration of `reconnectLoop`. -/
def reconnectHeartbeat (writeSucceeds : Bool) (s : PeerState) : PeerState :=
  if s.pm.m_connectedToLeader then (s.sendToLeader writeSucceeds).2 else s

/-! ## The peers -/

def registerPeer (peer_id ip mac hostname : String) (socket_fd : Option Handle)
    (s : PeerState) : PeerState :=
  { s with
    pm :=
      { s.pm with
        m_peers := Function.update s.pm.m_peers peer_id
          (some ⟨peer_id, ip, mac, hostname, true, socket_fd⟩) } }

/-- Close the socket of a peer, if it has one, and forget the peer. -/
def dropPeer (peer_id : String) (s : PeerState) : PeerState :=
  match s.pm.m_peers peer_id with
  | some info =>
      { pm :=
          { s.pm with m_peers := Function.update s.pm.m_peers peer_id none }
        process :=
          match info.socket_fd with
          | some h => s.process.close h.fd
          | none => s.process }
  | none => s

def unregisterPeer (peer_id : String) (s : PeerState) : PeerState :=
  s.dropPeer peer_id

def sendToPeer (peer_id : String) (writeSucceeds : Bool) (s : PeerState) :
    Bool × PeerState :=
  match (s.pm.m_peers peer_id).bind PeerInfo.socket_fd with
  | none => (false, s)
  | some _ => if writeSucceeds then (true, s) else (false, s.dropPeer peer_id)

def connectToPeer (peer_id ip : String) (outcome : ConnectOutcome)
    (s : PeerState) : Bool × PeerState :=
  match (s.pm.m_peers peer_id).bind PeerInfo.socket_fd with
  | some _ => (true, s)
  | none =>
      match outcome with
      | .socketFails => (false, s)
      | .addressInvalid | .connectFails =>
          let (h, process) := s.process.open_ .outgoing
          (false, { s with process := process.close h.fd })
      | .connected _ =>
          let (h, process) := s.process.open_ .outgoing
          (true, ({ s with process } : PeerState).registerPeer peer_id ip "" ""
            (some h))

end PeerState

end AutomateLinux
