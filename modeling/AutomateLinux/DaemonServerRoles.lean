import AutomateLinux.DaemonServerDescriptors

/-!
# The sockets registered for a role

A command can register the socket it came from: as the window extension, as the
native host, as a log subscriber, or as a peer.  The number is used long after
the command, so whoever closes the descriptor has to clear the role as well.  Of
all the close paths, those of local clients clear the log subscription, and the
peer manager forgets the peer whose socket it closes; no other role is cleared
by any of them.
-/

namespace AutomateLinux

namespace DaemonServer

open TransitionSystem PeerState

inductive Role
  | windowExtension
  | nativeHost
  | logSubscriber (fd : Fd)
  | peer (peer_id : String)

/-- The socket recorded for a role. -/
def roleSocket (s : DaemonState) : Role → Option Handle
  | .windowExtension => s.g_windowExtensionSocket
  | .nativeHost => s.g_nativeHostSocket
  | .logSubscriber fd => (s.g_logSubscribers fd).map fun c => ⟨fd, c⟩
  | .peer peer_id => (s.pm.m_peers peer_id).bind PeerInfo.socket_fd

/-- Every recorded role socket is the open connection that registered it. -/
def RolesLive (s : DaemonState) : Prop :=
  ∀ role h, roleSocket s role = some h → h.Live s.process

/-- The role a step clears together with the descriptor it closes. -/
def clears (s : DaemonState) : Label → Option Role
  | .clientReturn => s.returned.map fun returned => .logSubscriber returned.1
  | .clientEof fd => some (.logSubscriber fd)
  | .peerOp (.sendToPeer peer_id _) => some (.peer peer_id)
  | .peerOp (.unregisterPeer peer_id) => some (.peer peer_id)
  | _ => none

/-- The handler records the socket its command came from. -/
def records (s : DaemonState) (command : Json) : Handler → Bool
  | .handleRegisterWindowExtension => true
  | .handleRegisterNativeHost => true
  | .handleRegisterLogListener => true
  | .handleRegisterPeer =>
      s.pm.isLeader && (peerRecord command).toOption.isSome
  | _ => false

def registersSocket (s : DaemonState) (command : Json) : Bool :=
  match commandNameOf command with
  | .ok commandName => (lookupHandler commandName).any (records s command)
  | .error _ => false

/-- A descriptor is closed only when no role is recorded for it apart from one
that the same step clears, and a registering command is processed while the
connection it was read from is open. -/
structure ClosesNoRole (s : DaemonState) (label : Label) : Prop where
  closed : ∀ role h, roleSocket s role = some h → h.fd ∈ closes s label →
    clears s label = some role
  registered : ∀ reader h command env, s.serving = some (reader, h) →
    label = .line (some command) env → registersSocket s command = true →
      h.Live s.process

/-! ## Commands -/

section

variable {s s' : DaemonState} {env : Effects} {role : Role} {h : Handle}

theorem roleSocket_congr (hroles : s'.toRoles = s.toRoles)
    (hpeers : s'.pm.m_peers = s.pm.m_peers) (role : Role) :
    roleSocket s' role = roleSocket s role := by
  obtain ⟨toPeerState, toEventLoop, toRoles, registry, g_clientSocket⟩ := s'
  subst hroles
  cases role with
  | windowExtension => rfl
  | nativeHost => rfl
  | logSubscriber fd => rfl
  | peer peer_id =>
      simp only at hpeers
      simp only [roleSocket, hpeers]

theorem roleSocket_askWindowExtension {handler : Handler} {command : Json}
    (hrole : roleSocket (askWindowExtension env handler command s).2 role =
      some h) : roleSocket s role = some h := by
  unfold askWindowExtension at hrole
  split at hrole
  · exact hrole
  · split at hrole
    · cases role with
      | windowExtension => simp [roleSocket] at hrole
      | nativeHost => exact hrole
      | logSubscriber fd => exact hrole
      | peer peer_id => exact hrole
    · exact hrole

theorem roleSocket_triggerChromeChatGPTFocus {writeFails : Bool}
    (hrole : roleSocket (triggerChromeChatGPTFocus writeFails s) role = some h) :
    roleSocket s role = some h := by
  unfold triggerChromeChatGPTFocus at hrole
  split at hrole
  · cases role with
    | windowExtension => exact hrole
    | nativeHost => simp [roleSocket] at hrole
    | logSubscriber fd => exact hrole
    | peer peer_id => exact hrole
  · exact hrole

theorem roleSocket_registerPeer {peer_id ip mac hostname : String}
    {socket_fd : Handle} {p : PeerState} {id : String}
    (hrole : ((p.registerPeer peer_id ip mac hostname (some socket_fd)).pm.m_peers
      id).bind PeerInfo.socket_fd = some h) :
    (p.pm.m_peers id).bind PeerInfo.socket_fd = some h ∨ h = socket_fd := by
  by_cases heq : id = peer_id
  · subst heq
    refine Or.inr ?_
    simpa [PeerState.registerPeer, eq_comm] using hrole
  · refine Or.inl ?_
    simpa [PeerState.registerPeer, heq] using hrole

/-- A handler leaves a role as it is, clears it, or records its own socket. -/
theorem roleSocket_handlers {handler : Handler} {command : Json}
    {g_clientSocket : Fd}
    (hrole : roleSocket (handlers env handler command g_clientSocket s).2 role =
      some h) :
    roleSocket s role = some h ∨
      records s command handler = true ∧ h = recorded s g_clientSocket := by
  unfold handlers at hrole
  split at hrole
  · cases role with
    | windowExtension =>
        refine Or.inr ⟨rfl, ?_⟩
        simpa [roleSocket, handleRegisterWindowExtension, eq_comm] using hrole
    | nativeHost => exact Or.inl hrole
    | logSubscriber fd => exact Or.inl hrole
    | peer peer_id => exact Or.inl hrole
  · exact Or.inl (roleSocket_askWindowExtension hrole)
  · exact Or.inl (roleSocket_askWindowExtension hrole)
  · cases role with
    | windowExtension => exact Or.inl hrole
    | nativeHost =>
        refine Or.inr ⟨rfl, ?_⟩
        simpa [roleSocket, handleRegisterNativeHost, eq_comm] using hrole
    | logSubscriber fd => exact Or.inl hrole
    | peer peer_id => exact Or.inl hrole
  · exact Or.inl (roleSocket_triggerChromeChatGPTFocus hrole)
  · cases role with
    | windowExtension => exact Or.inl hrole
    | nativeHost => exact Or.inl hrole
    | logSubscriber fd =>
        by_cases heq : fd = g_clientSocket
        · subst heq
          refine Or.inr ⟨rfl, ?_⟩
          simpa [roleSocket, registerLogSubscriber, recorded, eq_comm]
            using hrole
        · refine Or.inl ?_
          simpa [roleSocket, registerLogSubscriber, heq] using hrole
    | peer peer_id => exact Or.inl hrole
  · unfold handleRegisterPeer at hrole
    split at hrole
    · exact Or.inl hrole
    · rename_i hleader
      split at hrole
      · exact Or.inl hrole
      · rename_i peer_id row hrecord
        cases role with
        | windowExtension => exact Or.inl hrole
        | nativeHost => exact Or.inl hrole
        | logSubscriber fd => exact Or.inl hrole
        | peer id =>
            refine (roleSocket_registerPeer hrole).imp_right fun heq => ⟨?_, heq⟩
            simpa [records, hrecord, Except.toOption] using hleader
  · exact Or.inl hrole

theorem roleSocket_relabels (hrelabels : Relabels s s') (role : Role) :
    roleSocket s' role = roleSocket s role := by
  obtain ⟨_, _, rfl, -⟩ := hrelabels
  cases role <;> rfl

/-- The roles after a line: as before, cleared, or that of the sender of a
registering command. -/
theorem roleSocket_line {dump : Json → String} {message : Option Json}
    {reader : Reader} {sender : Handle}
    (hline : line dump env message reader sender s = .ok s')
    (hrole : roleSocket s' role = some h) :
    roleSocket s role = some h ∨ ∃ command, message = some command ∧
      registersSocket s command = true ∧ h = sender := by
  rcases line_cases hline with hrelabels | ⟨j, before, res, after, rfl, hrelabels,
    hcall, rfl⟩
  · exact Or.inl ((roleSocket_relabels hrelabels role).symm.trans hrole)
  · obtain ⟨commandName, handled, hname, -, hhandled, rfl⟩ :=
      callMainCommand_cases hcall
    have hafter : roleSocket handled role = some h := by
      rw [← hrole]
      refine (roleSocket_congr ?_ ?_ role).symm <;> repeat' split
      all_goals rfl
    have hpm : before.pm = s.pm := by
      obtain ⟨_, _, rfl, -⟩ := hrelabels
      rfl
    rcases hhandled with rfl | ⟨handler, hhandler, rfl⟩
    · refine Or.inl ((roleSocket_relabels hrelabels role).symm.trans ?_)
      rw [← hafter]
      exact roleSocket_congr rfl rfl role
    · rcases roleSocket_handlers hafter with hold | ⟨hrecords, rfl⟩
      · refine Or.inl ((roleSocket_relabels hrelabels role).symm.trans ?_)
        rw [← hold]
        exact roleSocket_congr rfl rfl role
      · refine Or.inr ⟨j, rfl, ?_, rfl⟩
        have hsame : ∀ handler, records s j handler =
            records { before with g_clientSocket := sender } j handler := by
          intro handler
          cases handler <;> simp [records, hpm]
        simp [registersSocket, hname, hhandler, hsame, hrecords]

/-- The handlers of slow commands touch none of the modelled state. -/
theorem handlers_of_slow {commandName : String} {handler : Handler}
    (hslow : commandName ∈ slowCommands)
    (hhandler : lookupHandler commandName = some handler) (command : Json)
    (g_clientSocket : Fd) :
    (handlers env handler command g_clientSocket s).2 = s := by
  simp only [slowCommands, List.mem_cons, List.not_mem_nil, or_false] at hslow
  rcases hslow with rfl | rfl | rfl | rfl | rfl | rfl | rfl | rfl | rfl
  all_goals
    obtain rfl := Option.some.inj hhandler
    rfl

/-! ## The peer manager -/

theorem peerSocket_dropPeer {p : PeerState} {peer_id id : String}
    (hrole : ((p.dropPeer peer_id).pm.m_peers id).bind PeerInfo.socket_fd =
      some h) :
    (p.pm.m_peers id).bind PeerInfo.socket_fd = some h ∧ id ≠ peer_id := by
  unfold PeerState.dropPeer at hrole
  split at hrole
  · by_cases heq : id = peer_id
    · simp [heq] at hrole
    · exact ⟨by simpa [heq] using hrole, heq⟩
  · rename_i hmissing
    refine ⟨hrole, ?_⟩
    rintro rfl
    simp [hmissing] at hrole

theorem disconnectFromLeader_peers (p : PeerState) :
    p.disconnectFromLeader.pm.m_peers = p.pm.m_peers := by
  unfold PeerState.disconnectFromLeader
  split <;> rfl

theorem sendToLeader_peers (p : PeerState) (writeSucceeds : Bool) :
    (p.sendToLeader writeSucceeds).2.pm.m_peers = p.pm.m_peers := by
  unfold PeerState.sendToLeader
  split
  · rfl
  · split
    · rfl
    · exact disconnectFromLeader_peers p

theorem connectToLeader_peers (p : PeerState) (outcome : ConnectOutcome) :
    (p.connectToLeader outcome).2.pm.m_peers = p.pm.m_peers := by
  have hclosed : p.closeLeaderSocket.pm.m_peers = p.pm.m_peers := by
    unfold PeerState.closeLeaderSocket
    split <;> rfl
  unfold PeerState.connectToLeader
  split
  · rfl
  · cases outcome with
    | socketFails => exact hclosed
    | addressInvalid => exact hclosed
    | connectFails => exact hclosed
    | connected registrationSent =>
        exact (sendToLeader_peers _ registrationSent).trans hclosed

theorem applyConfig_peers (p : PeerState) (command : Json) :
    (p.applyConfig command).2.pm.m_peers = p.pm.m_peers := by
  obtain ⟨role, id, addr, heq⟩ := applyConfig_eq_loadConfig command p
  rw [heq]
  rfl

/-- The sockets of peers after an operation: as before, or newly opened. -/
theorem peerSocket_apply {p : PeerState} {op : PeerOp} {id : String}
    (hrole : ((op.apply p).pm.m_peers id).bind PeerInfo.socket_fd = some h) :
    ((p.pm.m_peers id).bind PeerInfo.socket_fd = some h ∧
        (h.fd ∈ op.closes p →
          op ≠ .unregisterPeer id ∧ ∀ w, op ≠ .sendToPeer id w)) ∨
      h.Live (op.apply p).process := by
  cases op with
  | loadConfig role id' addr => exact Or.inl ⟨hrole, by simp [PeerOp.closes]⟩
  | applyConfig command =>
      simp only [PeerOp.apply, applyConfig_peers] at hrole
      exact Or.inl ⟨hrole, by simp [PeerOp.closes]⟩
  | connectToLeader outcome =>
      simp only [PeerOp.apply, connectToLeader_peers] at hrole
      exact Or.inl ⟨hrole, by simp⟩
  | disconnectFromLeader =>
      simp only [PeerOp.apply, disconnectFromLeader_peers] at hrole
      exact Or.inl ⟨hrole, by simp⟩
  | sendToLeader writeSucceeds =>
      simp only [PeerOp.apply, sendToLeader_peers] at hrole
      exact Or.inl ⟨hrole, by simp⟩
  | connectToPeer peer_id ip outcome =>
      simp only [PeerOp.apply, PeerState.connectToPeer] at hrole ⊢
      split at hrole
      · exact Or.inl ⟨hrole, by simp⟩
      · cases outcome with
        | socketFails => exact Or.inl ⟨hrole, by simp⟩
        | addressInvalid => exact Or.inl ⟨hrole, by simp⟩
        | connectFails => exact Or.inl ⟨hrole, by simp⟩
        | connected registrationSent =>
            rcases roleSocket_registerPeer hrole with hold | rfl
            · exact Or.inl ⟨hold, by simp⟩
            · exact Or.inr (p.process.open_live .outgoing)
  | sendToPeer peer_id writeSucceeds =>
      simp only [PeerOp.apply, PeerState.sendToPeer] at hrole
      split at hrole
      · rename_i hmissing
        refine Or.inl ⟨hrole, fun hmem => ?_⟩
        simp [PeerOp.closes, peerSocketFd, hmissing] at hmem
      · split at hrole
        · rename_i hsucceeds
          exact Or.inl ⟨hrole, by simp [PeerOp.closes, hsucceeds]⟩
        · obtain ⟨hold, hne⟩ := peerSocket_dropPeer hrole
          exact Or.inl ⟨hold, fun _ => ⟨by simp, by simp [Ne.symm hne]⟩⟩
  | unregisterPeer peer_id =>
      obtain ⟨hold, hne⟩ := peerSocket_dropPeer hrole
      exact Or.inl ⟨hold, fun _ => ⟨by simp [Ne.symm hne], by simp⟩⟩

end

/-! ## Threads -/

/-- Threads are started for slow commands only. -/
def SlowThreads (s : DaemonState) : Prop :=
  ∀ t ∈ s.threads, t.commandName ∈ slowCommands

section

variable {dump : Json → String} {s s' : DaemonState} {label : Label}

theorem SlowThreads.line {env : Effects} {message : Option Json}
    {reader : Reader} {h : Handle} (hthreads : SlowThreads s)
    (hline : line dump env message reader h s = .ok s') : SlowThreads s' := by
  rcases line_cases hline with hrelabels | ⟨j, before, res, after, rfl, hrelabels,
    hcall, rfl⟩
  · obtain ⟨_, _, rfl, -⟩ := hrelabels
    exact hthreads
  · obtain ⟨commandName, handled, -, hres, hhandled, rfl⟩ :=
      callMainCommand_cases hcall
    have hbefore : handled.threads = s.threads := by
      obtain ⟨_, _, rfl, -⟩ := hrelabels
      rcases hhandled with rfl | ⟨handler, -, rfl⟩
      · rfl
      · rw [(handlers_sameSockets env handler j h.fd _).loop]
    have hafter : SlowThreads
        (if res = 2 then
          { handled with threads := handled.threads ++ [⟨j, commandName, h⟩] }
        else handled) := by
      split
      · rename_i htwo
        intro t ht
        rcases List.mem_append.mp ht with hold | hnew
        · exact hthreads t (hbefore ▸ hold)
        · obtain rfl := List.mem_singleton.mp hnew
          exact (returnCode_eq_two_iff commandName).mp (hres ▸ htwo)
      · intro t ht
        exact hthreads t (hbefore ▸ ht)
    split
    · exact hafter
    · exact hafter

theorem SlowThreads.threadBody (hthreads : SlowThreads s) {t : SlowThread}
    (ht : t ∈ s.threads) (env : Effects) (g_clientSocket : Fd) :
    (threadBody (handlers env) t.command t.commandName t.client_sock.fd
      g_clientSocket s).1 = s := by
  rcases threadBody_cases (handlers env) t.command t.commandName
    t.client_sock.fd g_clientSocket s with heq | ⟨handler, hhandler, heq⟩
  · exact heq
  · rw [heq]
    exact handlers_of_slow (hthreads t ht) hhandler t.command g_clientSocket

theorem SlowThreads.step (hthreads : SlowThreads s)
    (hstep : step dump s label = some s') : SlowThreads s' := by
  cases step_cases hstep with
  | setupPeerSocket succeeds => cases succeeds <;> exact hthreads
  | line message env reader h _ _ _ hline => exact hthreads.line hline
  | clientReturn fd res =>
      unfold clientReturn
      dsimp only
      split
      · exact hthreads
      · split <;> exact hthreads
  | finishThread position env thread hthread =>
      have hbody := hthreads.threadBody (List.mem_of_getElem? hthread) env
        s.g_clientSocket.fd
      intro t ht
      simp only [finishThread, hbody] at ht
      exact hthreads t (List.mem_of_mem_eraseIdx ht)
  | focusChatGPT writeFails =>
      unfold triggerChromeChatGPTFocus
      split <;> exact hthreads
  | _ => exact hthreads

/-! ## Runs -/

/-- The end of a client's command clears the log subscription it takes back and
closes the client only when it was not kept. -/
theorem roleSocket_clientReturn {role : Role} {h : Handle} {fd : Fd} {res : Int}
    (hreturned : s.returned = some (fd, res))
    (hrole : roleSocket (clientReturn fd res s) role = some h) :
    roleSocket s role = some h ∧
      (h.fd ∈ closes s .clientReturn → clears s .clientReturn ≠ some role) := by
  unfold clientReturn at hrole
  dsimp only at hrole
  have hkept : ∀ s₁ : DaemonState, s₁.toRoles = s.toRoles →
      s₁.pm.m_peers = s.pm.m_peers →
        roleSocket (unregisterLogSubscriber fd s₁) role = some h →
          roleSocket s role = some h ∧ role ≠ .logSubscriber fd := by
    intro s₁ hroles hpeers hrole₁
    rw [← roleSocket_congr hroles hpeers role]
    cases role with
    | logSubscriber fd' =>
        by_cases heq : fd' = fd
        · simp [roleSocket, unregisterLogSubscriber, heq] at hrole₁
        · refine ⟨?_, by simp [heq]⟩
          simpa [roleSocket, unregisterLogSubscriber, heq] using hrole₁
    | windowExtension => exact ⟨hrole₁, by simp⟩
    | nativeHost => exact ⟨hrole₁, by simp⟩
    | peer peer_id => exact ⟨hrole₁, by simp⟩
  split at hrole
  · obtain ⟨hold, hne⟩ := hkept { s with serving := none, returned := none }
      rfl rfl (hrole ▸ (roleSocket_congr rfl rfl role).symm)
    exact ⟨hold, fun _ => by simp [clears, hreturned, Ne.symm hne]⟩
  · split at hrole
    · obtain ⟨hold, hne⟩ :=
        hkept { s with serving := none, returned := none } rfl rfl
          (hrole ▸ (roleSocket_congr rfl rfl role).symm)
      exact ⟨hold, fun _ => by simp [clears, hreturned, Ne.symm hne]⟩
    · rename_i hone _
      exact ⟨hrole ▸ (roleSocket_congr rfl rfl role),
        by simp [closes, hreturned, hone]⟩

/-- The roles after a step: one that was recorded before and that the step did
not clear while closing it, that of the sender of a registering command, or a
connection that was just opened. -/
theorem roleSocket_step {role : Role} {h : Handle} (hthreads : SlowThreads s)
    (hstep : step dump s label = some s')
    (hrole : roleSocket s' role = some h) :
    (roleSocket s role = some h ∧
        (h.fd ∈ closes s label → clears s label ≠ some role)) ∨
      (∃ reader command env, s.serving = some (reader, h) ∧
        label = .line (some command) env ∧ registersSocket s command = true) ∨
      h.Live s'.process := by
  cases step_cases hstep with
  | setupPeerSocket succeeds =>
      refine Or.inl ⟨?_, by simp [clears]⟩
      rw [← hrole]
      cases succeeds <;> exact roleSocket_congr rfl rfl role
  | line message env reader sender _ hserving _ hline =>
      rcases roleSocket_line hline hrole with hold |
        ⟨command, rfl, hregisters, rfl⟩
      · exact Or.inl ⟨hold, by simp [clears]⟩
      · exact Or.inr (Or.inl
          ⟨reader, command, env, hserving, rfl, hregisters⟩)
  | clientReturn fd res hreturned =>
      exact Or.inl (roleSocket_clientReturn hreturned hrole)
  | clientEof fd =>
      refine Or.inl ?_
      cases role with
      | logSubscriber fd' =>
          by_cases heq : fd' = fd
          · simp [roleSocket, clientEof, eraseClient, closeFd,
              unregisterLogSubscriber, heq] at hrole
          · refine ⟨?_, by simp [clears, Ne.symm heq]⟩
            simpa [roleSocket, clientEof, eraseClient, closeFd,
              unregisterLogSubscriber, heq] using hrole
      | windowExtension => exact ⟨hrole, by simp [clears]⟩
      | nativeHost => exact ⟨hrole, by simp [clears]⟩
      | peer peer_id => exact ⟨hrole, by simp [clears]⟩
  | leaderEof =>
      have hpeers : s.toPeerState.leaderReadFails.pm.m_peers = s.pm.m_peers := by
        unfold leaderReadFails
        split
        · exact disconnectFromLeader_peers s.toPeerState
        · rfl
      refine Or.inl ⟨?_, by simp [clears]⟩
      have hsame : roleSocket
          { s with toPeerState := s.toPeerState.leaderReadFails } role =
            roleSocket s role := by
        apply roleSocket_congr
        · rfl
        · exact hpeers
      exact hsame.symm.trans hrole
  | finishThread position env thread hthread =>
      have hbody := hthreads.threadBody (List.mem_of_getElem? hthread) env
        s.g_clientSocket.fd
      simp only [finishThread, hbody] at hrole
      exact Or.inl ⟨hrole ▸ roleSocket_congr rfl rfl role, by simp [clears]⟩
  | focusChatGPT writeFails =>
      exact Or.inl ⟨roleSocket_triggerChromeChatGPTFocus hrole, by simp [clears]⟩
  | peerOp op =>
      cases role with
      | peer peer_id =>
          rcases peerSocket_apply hrole with ⟨hold, hkept⟩ | hlive
          · refine Or.inl ⟨hold, fun hmem => ?_⟩
            obtain ⟨hunregister, hsend⟩ := hkept hmem
            cases op <;> simp_all [clears]
          · exact Or.inr (Or.inr hlive)
      | _ =>
          refine Or.inl ⟨hrole, fun _ => ?_⟩
          cases op <;> simp [clears]
  | _ => exact Or.inl ⟨hrole ▸ roleSocket_congr rfl rfl role, by simp [clears]⟩

theorem RolesLive.step (hroles : RolesLive s) (hthreads : SlowThreads s)
    (hok : ClosesNoRole s label) (hstep : step dump s label = some s') :
    RolesLive s' := by
  intro role h hrole
  rcases roleSocket_step hthreads hstep hrole with ⟨hold, hkept⟩ |
    ⟨reader, command, env, hserving, rfl, hregisters⟩ | hlive
  · refine step_live hstep (hroles role h hold) fun hmem => ?_
    exact hkept hmem (hok.closed role h hold hmem)
  · refine step_live hstep ?_ (by simp [closes])
    exact hok.registered reader h command env hserving rfl hregisters
  · exact hlive

end

theorem rolesLive_initial : RolesLive initial := by
  intro role h hrole
  cases role <;> simp [roleSocket, initial, PeerManager.initial] at hrole

/-- In every run in which a descriptor is closed only when every role recorded
for it is cleared by the same step, and registering commands are processed while
their connection is open, each recorded role socket denotes the open connection
that registered it, in every state reached. -/
theorem rolesLive_of_reachable {dump : Json → String} {s : DaemonState}
    (hreach : ReachableWhere (step dump) ClosesNoRole initial s) :
    RolesLive s := by
  have hinv : RolesLive s ∧ SlowThreads s :=
    hreach.invariant (I := fun s => RolesLive s ∧ SlowThreads s)
      (fun hinv hok hstep =>
        ⟨hinv.1.step hinv.2 hok hstep, hinv.2.step hstep⟩)
      ⟨rolesLive_initial, by simp [SlowThreads, initial]⟩
  exact hinv.1

/-- A command object with a name and no arguments. -/
def bareCommand (commandName : String) : Json :=
  .object [("command", .string commandName)]

/-- A log listener registers and disconnects. -/
def listenerRun : List Label :=
  [.acceptClient, .read .handle_client_data 1,
    .line (some (bareCommand "registerLogListener")) uneventful, .clientReturn,
    .endRead, .clientEof 1]

theorem listenerRun_rolesLive :
    ∃ s, execute (step fun _ => "") initial listenerRun = some s ∧
      RolesLive s := by
  have hopens : ∀ {s : DaemonState} {label : Label}, closes s label = [] →
      (∀ message env, label ≠ .line message env) → ClosesNoRole s label := by
    intro s label hcloses hline
    exact ⟨by simp [hcloses], fun _ _ command env _ heq =>
      absurd heq (hline (some command) env)⟩
  have hok : AllSteps (step fun _ => "") ClosesNoRole initial listenerRun := by
    refine fun next hnext => ⟨hopens rfl (by simp), ?_⟩
    obtain rfl := Option.some.inj hnext
    refine fun next hnext => ⟨hopens rfl (by simp), ?_⟩
    obtain rfl := Option.some.inj hnext
    refine fun next hnext => ⟨⟨by simp [closes], ?_⟩, ?_⟩
    · rintro reader h command env hserving - -
      cases hserving
      rfl
    · obtain rfl := Option.some.inj hnext
      refine fun next hnext => ⟨hopens rfl (by simp), ?_⟩
      obtain rfl := Option.some.inj hnext
      refine fun next hnext => ⟨hopens rfl (by simp), ?_⟩
      obtain rfl := Option.some.inj hnext
      refine fun next hnext => ⟨⟨?_, by simp⟩, trivial⟩
      rintro role h hrole hmem
      cases role with
      | windowExtension => cases hrole
      | nativeHost => cases hrole
      | peer peer_id => cases hrole
      | logSubscriber fd =>
          obtain ⟨c, -, rfl⟩ := Option.map_eq_some_iff.mp hrole
          obtain rfl : fd = 1 := by simpa [closes] using hmem
          rfl
  exact ⟨_, rfl, rolesLive_of_reachable (ReachableWhere.of_execute hok rfl)⟩

/-- The window extension disconnects and an unrelated client gets its
descriptor, which is still recorded for the extension. -/
def extensionRun : List Label :=
  [.acceptClient, .read .handle_client_data 1,
    .line (some (bareCommand "registerWindowExtension")) uneventful,
    .clientReturn, .endRead, .clientEof 1, .acceptClient]

theorem extensionRun_not_rolesLive :
    ∃ s, Reachable (step fun _ => "") initial s ∧ ¬ RolesLive s := by
  obtain ⟨s, hrun, hsocket, hreused⟩ :
      ∃ s, execute (step fun _ => "") initial extensionRun = some s ∧
        roleSocket s .windowExtension = some ⟨1, ⟨1, .client⟩⟩ ∧
          s.process.fds.lookup 1 = some ⟨2, .client⟩ := ⟨_, rfl, rfl, rfl⟩
  refine ⟨s, Reachable.of_execute hrun, fun hlive => ?_⟩
  have hopen := hlive .windowExtension _ hsocket
  simp [Handle.Live, hreused] at hopen

end DaemonServer

end AutomateLinux
