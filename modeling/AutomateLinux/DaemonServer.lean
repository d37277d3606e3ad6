import AutomateLinux.PeerManager
import AutomateLinux.PeerTable

/-!
# The daemon's event loop

One thread waits in `select` for the listeners, the local clients, the peers and
the connection to the leader, reads from those that are ready and processes what
it has read line by line.  Beside it run the threads of slow commands, the
reconnect thread and the input thread.  A step of the transition system is one
read, one line of it, one end of file, one accepted connection, one finished
thread or one operation of the peer manager.  The other threads may take steps
between the lines of a read, and between the dispatcher's return and the loop's
reaction to its return code.
-/

namespace AutomateLinux

/-- A tracked peer connection; the first field is what its descriptor denoted
when it was accepted. -/
structure PeerClientState where
  connection : Connection
  peer_ip : String
  peer_id : String

/-- A thread started for a slow command, which is going to close its socket. -/
structure SlowThread where
  command : Json
  commandName : String
  client_sock : Handle

/-- The function that is processing a read. -/
inductive Reader
  | handle_client_data | handle_peer_data | handle_leader_data
deriving DecidableEq

/-- What the event loop itself keeps.  `serving` is the function it is in, with
the descriptor and the connection that were read; `returned` is the return code
of `mainCommand` for a local client that the loop has not acted on yet. -/
structure EventLoop where
  socket_fd : Handle
  peer_socket_fd : Option Handle
  clients : Fd → Option Connection
  peer_clients : Fd → Option PeerClientState
  threads : List SlowThread
  serving : Option (Reader × Handle)
  returned : Option (Fd × Int)

/-- The sockets that commands have registered for a role. -/
structure Roles where
  g_windowExtensionSocket : Option Handle
  g_nativeHostSocket : Option Handle
  g_nativeHostSocketForSync : Option Handle
  g_logSubscribers : Fd → Option Connection

/-- `g_clientSocket` goes with the connection that sent the last command. -/
structure DaemonState extends PeerState, EventLoop, Roles where
  registry : PeerRegistry
  g_clientSocket : Handle

/-- What a handler meets outside the modelled state: whether its write to
another party fails, and the result of everything that is not modelled. -/
structure Effects where
  writeFails : Bool
  result : Handler → Json → Except Exn CmdResult

namespace DaemonServer

open PeerState PeerTable AppManager

/-- A descriptor number as a handler records it: as that of the connection the
command came from. -/
def recorded (s : DaemonState) (fd : Fd) : Handle :=
  ⟨fd, s.g_clientSocket.connection⟩

/-! ## The handlers that record or use sockets -/

def registered : CmdResult := ⟨0, "\x7b\"status\":\"registered\"\x7d\n"⟩

def handleRegisterWindowExtension (g_clientSocket : Fd) (s : DaemonState) :
    Except Exn CmdResult × DaemonState :=
  (.ok registered,
    { s with g_windowExtensionSocket := some (recorded s g_clientSocket) })

/-- `listWindows` and `activateWindow`, whose answers are read from the
extension. -/
def askWindowExtension (env : Effects) (handler : Handler) (command : Json)
    (s : DaemonState) : Except Exn CmdResult × DaemonState :=
  match s.g_windowExtensionSocket with
  | none => (.ok ⟨1, "Window extension not registered"⟩, s)
  | some _ =>
      if env.writeFails then
        (.ok ⟨1, "Failed to write to extension"⟩,
          { s with g_windowExtensionSocket := none })
      else (env.result handler command, s)

def handleRegisterNativeHost (g_clientSocket : Fd) (s : DaemonState) :
    Except Exn CmdResult × DaemonState :=
  (.ok registered,
    { s with
      g_nativeHostSocket := some (recorded s g_clientSocket)
      g_nativeHostSocketForSync := some (recorded s g_clientSocket) })

def triggerChromeChatGPTFocus (writeFails : Bool) (s : DaemonState) :
    DaemonState :=
  if writeFails then { s with g_nativeHostSocket := none } else s

def registerLogSubscriber (fd : Fd) (s : DaemonState) : DaemonState :=
  { s with
    g_logSubscribers := Function.update s.g_logSubscribers fd
      (some (recorded s fd).connection) }

def unregisterLogSubscriber (fd : Fd) (s : DaemonState) : DaemonState :=
  { s with g_logSubscribers := Function.update s.g_logSubscribers fd none }

/-- `command.contains(key) ? command[key].get<string>() : fallback`. -/
def textOr (command : Json) (key fallback : String) : Except Exn String :=
  match command.find? key with
  | some value => value.getString
  | none => .ok fallback

/-- What a `registerPeer` command says about the peer. -/
def peerRecord (command : Json) : Except Exn (String × PeerRecord) := do
  let peer_id ← textOr command "peer_id" "unknown"
  let ip ← textOr command "ip" ""
  let mac ← textOr command "mac" ""
  let hostname ← textOr command "hostname" ""
  let daemon_version ←
    match command.find? "daemon_version" with
    | some value => value.getInt 32
    | none => .ok 0
  return (peer_id, ⟨ip, mac, hostname, true, daemon_version⟩)

def handleRegisterPeer (command : Json) (g_clientSocket : Fd)
    (s : DaemonState) : Except Exn CmdResult × DaemonState :=
  if !s.pm.isLeader then
    (.ok ⟨1, "This daemon is not the leader.\n"⟩, s)
  else
    match peerRecord command with
    | .error e => (.error e, s)
    | .ok (peer_id, row) =>
        (.ok ⟨0, "Peer registered: " ++ peer_id ++ "\n"⟩,
          { s with
            toPeerState := s.toPeerState.registerPeer peer_id row.ip_address
              row.mac_address row.hostname (some (recorded s g_clientSocket))
            registry := upsertPeer peer_id row.ip_address row.mac_address
              row.hostname true row.daemon_version s.registry })

/-- The handlers; those that touch neither a role nor the registered peers
return whatever they return. -/
def handlers (env : Effects) : Handlers DaemonState :=
  fun handler command g_clientSocket s =>
    match handler with
    | .handleRegisterWindowExtension =>
        handleRegisterWindowExtension g_clientSocket s
    | .handleListWindows => askWindowExtension env handler command s
    | .handleActivateWindow => askWindowExtension env handler command s
    | .handleRegisterNativeHost => handleRegisterNativeHost g_clientSocket s
    | .handleFocusChatGPT =>
        (.ok ⟨0, "Focus request sent\n"⟩,
          triggerChromeChatGPTFocus env.writeFails s)
    | .handleRegisterLogListener =>
        (.ok ⟨0, "Subscribed to logs\n"⟩, registerLogSubscriber g_clientSocket s)
    | .handleRegisterPeer => handleRegisterPeer command g_clientSocket s
    | _ => (env.result handler command, s)

/-! ## Lines -/

section

variable (dump : Json → String)

/-- `mainCommand` as the loop calls it, with the thread it starts when it
returns 2. -/
def callMainCommand (env : Effects) (command : Json) (client_sock : Handle)
    (s : DaemonState) : Except Exn (Int × DaemonState) :=
  match commandNameOf command,
      mainCommand (handlers env) dump command client_sock.fd
        { s with g_clientSocket := client_sock } with
  | .ok commandName, .ok outcome =>
      if outcome.code = 2 then
        .ok (2,
          { outcome.state with
            threads := outcome.state.threads ++
              [⟨command, commandName, client_sock⟩] })
      else .ok (outcome.code, outcome.state)
  | .error e, _ => .error e
  | _, .error e => .error e

/-- One line of `handle_client_data`; `none` is a line that does not parse. -/
def clientLine (env : Effects) (message : Option Json) (client : Handle)
    (s : DaemonState) : Except Exn DaemonState :=
  match message with
  | none => .ok s
  | some j =>
      match callMainCommand dump env j client s with
      | .error e => .error e
      | .ok (res, s) => .ok { s with returned := some (client.fd, res) }

/-- `j.contains("command") && j["command"] == name`. -/
def isCommand (j : Json) (name : String) : Bool :=
  match j.find? COMMAND_KEY with
  | some (.string value) => value = name
  | _ => false

def setPeerClientId (peer_fd : Fd) (peer_id : String) (s : DaemonState) :
    DaemonState :=
  { s with
    peer_clients := Function.update s.peer_clients peer_fd
      ((s.peer_clients peer_fd).map fun state => { state with peer_id }) }

/-- `if (j.contains("appStatus") && j["appStatus"].is_object())`. -/
def cacheAppStatus (j : Json) (peer_id : String) (s : DaemonState) :
    DaemonState :=
  match j.find? "appStatus" with
  | some (.object members) =>
      { s with
        registry := updatePeerAppStatus peer_id (.object members) s.registry }
  | _ => s

/-- The version a heartbeat reports, if it reports one. -/
def heartbeatVersion (j : Json) : Except Exn (Option Int) :=
  match j.find? "daemon_version" with
  | some value => (value.getInt 32).map some
  | none => .ok none

/-- The heartbeat branch, which does not reach the dispatcher. -/
def peerHeartbeat (j : Json) (peer_id : Json) (peer_fd : Fd) (s : DaemonState) :
    Except Exn DaemonState :=
  match peer_id.getString, heartbeatVersion j with
  | .error e, _ => .error e
  | _, .error e => .error e
  | .ok hbPeerId, .ok version =>
      let s := { s with registry := touchLastSeen hbPeerId version s.registry }
      let s := cacheAppStatus j hbPeerId s
      if (s.peer_clients peer_fd).any fun state => state.peer_id = "" then
        .ok (setPeerClientId peer_fd hbPeerId s)
      else .ok s

/-- The peer id of a `registerPeer` command, before it is dispatched. -/
def trackPeerId (j : Json) (peer_fd : Fd) (s : DaemonState) :
    Except Exn DaemonState :=
  match isCommand j "registerPeer", j.find? "peer_id" with
  | true, some value =>
      match value.getString with
      | .error e => .error e
      | .ok peer_id => .ok (cacheAppStatus j peer_id (setPeerClientId peer_fd peer_id s))
  | _, _ => .ok s

/-- One line of `handle_peer_data`; the return code is not looked at. -/
def peerLine (env : Effects) (message : Option Json) (peer : Handle)
    (s : DaemonState) : Except Exn DaemonState :=
  match message with
  | none => .ok s
  | some j =>
      match isCommand j "heartbeat", j.find? "peer_id" with
      | true, some peer_id => peerHeartbeat j peer_id peer.fd s
      | _, _ =>
          match trackPeerId j peer.fd s with
          | .error e => .error e
          | .ok s => (callMainCommand dump env j peer s).map Prod.snd

/-- One line of `handle_leader_data`. -/
def leaderLine (env : Effects) (message : Option Json) (leader : Handle)
    (s : DaemonState) : Except Exn DaemonState :=
  match message with
  | none => .ok s
  | some j =>
      if !j.is_object || !j.contains COMMAND_KEY then .ok s
      else (callMainCommand dump env j leader s).map Prod.snd

def line (env : Effects) (message : Option Json) :
    Reader → Handle → DaemonState → Except Exn DaemonState
  | .handle_client_data => clientLine dump env message
  | .handle_peer_data => peerLine dump env message
  | .handle_leader_data => leaderLine dump env message

end

/-! ## The other reactions of the loop -/

/-- `close(fd)` for a descriptor of the process. -/
def closeFd (fd : Fd) (s : DaemonState) : DaemonState :=
  { s with process := s.process.close fd }

def eraseClient (fd : Fd) (s : DaemonState) : DaemonState :=
  { s with clients := Function.update s.clients fd none }

/-- What `handle_client_data` does about the return code of `mainCommand`. -/
def clientReturn (client_fd : Fd) (res : Int) (s : DaemonState) : DaemonState :=
  let s := { s with returned := none }
  if res = 1 then
    eraseClient client_fd (closeFd client_fd
      (unregisterLogSubscriber client_fd { s with serving := none }))
  else if res = 2 then
    eraseClient client_fd
      (unregisterLogSubscriber client_fd { s with serving := none })
  else s

def clientEof (client_fd : Fd) (s : DaemonState) : DaemonState :=
  eraseClient client_fd (closeFd client_fd (unregisterLogSubscriber client_fd s))

def peerEof (peer_fd : Fd) (state : PeerClientState) (s : DaemonState) :
    DaemonState :=
  let registry :=
    if state.peer_id = "" then s.registry
    else
      clearPeerAppStatus state.peer_id
        (updateOnlineStatus state.peer_id false s.registry)
  { closeFd peer_fd s with
    registry
    peer_clients := Function.update s.peer_clients peer_fd none }

def acceptClient (s : DaemonState) : DaemonState :=
  let (h, process) := s.process.open_ .client
  { s with
    process
    clients := Function.update s.clients h.fd (some h.connection) }

def acceptPeer (ip : String) (s : DaemonState) : DaemonState :=
  let (h, process) := s.process.open_ .peer
  { s with
    process
    peer_clients :=
      Function.update s.peer_clients h.fd (some ⟨h.connection, ip, ""⟩) }

/-- `setup_peer_socket`, which gives the number back when `bind` or `listen`
fails. -/
def setupPeerSocket (succeeds : Bool) (s : DaemonState) : DaemonState :=
  let (h, process) := s.process.open_ .listener
  if succeeds then { s with process, peer_socket_fd := some h }
  else { s with process := process.close h.fd, peer_socket_fd := none }

/-- A slow command's thread runs to its end. -/
def finishThread (env : Effects) (position : ℕ) (thread : SlowThread)
    (s : DaemonState) : DaemonState :=
  let s :=
    (threadBody (handlers env) thread.command thread.commandName
      thread.client_sock.fd s.g_clientSocket.fd s).1
  { closeFd thread.client_sock.fd s with
    threads := s.threads.eraseIdx position }

/-- The operations of the peer manager, whichever thread calls them. -/
inductive PeerOp
  | loadConfig (role id addr : String)
  | applyConfig (command : Json)
  | connectToLeader (outcome : ConnectOutcome)
  | disconnectFromLeader
  | sendToLeader (writeSucceeds : Bool)
  | connectToPeer (peer_id ip : String) (outcome : ConnectOutcome)
  | sendToPeer (peer_id : String) (writeSucceeds : Bool)
  | unregisterPeer (peer_id : String)

def PeerOp.apply : PeerOp → PeerState → PeerState
  | loadConfig role id addr => PeerState.loadConfig role id addr
  | applyConfig command => fun s => (s.applyConfig command).2
  | connectToLeader outcome => fun s => (s.connectToLeader outcome).2
  | disconnectFromLeader => PeerState.disconnectFromLeader
  | sendToLeader writeSucceeds => fun s => (s.sendToLeader writeSucceeds).2
  | connectToPeer peer_id ip outcome =>
      fun s => (s.connectToPeer peer_id ip outcome).2
  | sendToPeer peer_id writeSucceeds =>
      fun s => (s.sendToPeer peer_id writeSucceeds).2
  | unregisterPeer peer_id => PeerState.unregisterPeer peer_id

/-! ## The transition system -/

inductive Label
  | setupPeerSocket (succeeds : Bool)
  | acceptClient
  | acceptPeer (ip : String)
  | read (reader : Reader) (fd : Fd)
  | line (message : Option Json) (env : Effects)
  | clientReturn
  | endRead
  | clientEof (fd : Fd)
  | peerEof (fd : Fd)
  | leaderEof
  | finishThread (position : ℕ) (env : Effects)
  | focusChatGPT (writeFails : Bool)
  | peerOp (op : PeerOp)
  | openOther
  | closeOther (fd : Fd)

/-- The loop is in `select`, or about to look at the next ready descriptor. -/
def idle (s : DaemonState) : Bool := s.serving.isNone && s.returned.isNone

/-- The descriptor of the leader connection, when `select` waits for it. -/
def leaderFd (s : DaemonState) : Option Fd :=
  if s.pm.m_connectedToLeader then s.pm.m_leaderSocket.map Handle.fd else none

/-- The descriptors each function is called for. -/
def isTracked (s : DaemonState) : Reader → Fd → Bool
  | .handle_client_data, fd => (s.clients fd).isSome
  | .handle_peer_data, fd => (s.peer_clients fd).isSome
  | .handle_leader_data, fd => leaderFd s = some fd

/-- An exception that leaves a function of the loop ends the process, so there
is no next state. -/
def step (dump : Json → String) (s : DaemonState) : Label → Option DaemonState
  | .setupPeerSocket succeeds =>
      if s.peer_socket_fd.isNone then some (setupPeerSocket succeeds s) else none
  | .acceptClient => if idle s then some (acceptClient s) else none
  | .acceptPeer ip =>
      if idle s && s.peer_socket_fd.isSome then some (acceptPeer ip s) else none
  | .read reader fd =>
      match s.process.fds.lookup fd with
      | some connection =>
          if idle s && isTracked s reader fd then
            some { s with serving := some (reader, ⟨fd, connection⟩) }
          else none
      | none => none
  | .line message env =>
      match s.serving, s.returned with
      | some (reader, h), none => (line dump env message reader h s).toOption
      | _, _ => none
  | .clientReturn =>
      match s.returned with
      | some (fd, res) => some (clientReturn fd res s)
      | none => none
  | .endRead =>
      if s.returned.isNone then some { s with serving := none } else none
  | .clientEof fd =>
      if idle s && isTracked s .handle_client_data fd then some (clientEof fd s)
      else none
  | .peerEof fd =>
      match s.peer_clients fd with
      | some state => if idle s then some (peerEof fd state s) else none
      | none => none
  | .leaderEof =>
      if idle s && (leaderFd s).isSome then
        some { s with toPeerState := s.toPeerState.leaderReadFails }
      else none
  | .finishThread position env =>
      match s.threads[position]? with
      | some thread => some (finishThread env position thread s)
      | none => none
  | .focusChatGPT writeFails => some (triggerChromeChatGPTFocus writeFails s)
  | .peerOp op => some { s with toPeerState := op.apply s.toPeerState }
  | .openOther => some { s with process := (s.process.open_ .other).2 }
  | .closeOther fd =>
      if (s.process.fds.lookup fd).any fun c => c.purpose = .other then
        some (closeFd fd s)
      else none

/-- The daemon after `setup_socket`, with nobody connected. -/
def initial : DaemonState where
  pm := PeerManager.initial
  process := ⟨⟨[some ⟨0, .listener⟩]⟩, 1⟩
  socket_fd := ⟨0, ⟨0, .listener⟩⟩
  peer_socket_fd := none
  clients := fun _ => none
  peer_clients := fun _ => none
  threads := []
  serving := none
  returned := none
  g_windowExtensionSocket := none
  g_nativeHostSocket := none
  g_nativeHostSocketForSync := none
  g_logSubscribers := fun _ => none
  registry := PeerRegistry.empty
  g_clientSocket := ⟨0, ⟨0, .listener⟩⟩

end DaemonServer

end AutomateLinux
