import AutomateLinux.DaemonServer
import AutomateLinux.LeaderLink
import AutomateLinux.TransitionSystem

/-!
# What a step of the daemon does to descriptors and tables

Every result about the event loop rests on two facts about a single step: which
descriptors it closes, everything else that is open staying what it was, and
which of the loop's tables a command may touch, whatever its handler returns.
-/

namespace AutomateLinux

namespace DaemonServer

open PeerState PeerTable AppManager

/-! ## The operations of the peer manager -/

def leaderSocketFd (s : PeerState) : List Fd :=
  (s.pm.m_leaderSocket.map Handle.fd).toList

def peerSocketFd (s : PeerState) (peer_id : String) : List Fd :=
  (((s.pm.m_peers peer_id).bind PeerInfo.socket_fd).map Handle.fd).toList

/-- The recorded descriptors an operation closes. -/
def PeerOp.closes (s : PeerState) : PeerOp → List Fd
  | connectToLeader _ => if s.canConnect then leaderSocketFd s else []
  | disconnectFromLeader => leaderSocketFd s
  | sendToLeader writeSucceeds =>
      if s.pm.m_connectedToLeader && !writeSucceeds then leaderSocketFd s else []
  | sendToPeer peer_id writeSucceeds =>
      if writeSucceeds then [] else peerSocketFd s peer_id
  | unregisterPeer peer_id => peerSocketFd s peer_id
  | _ => []

section

variable {s : PeerState} {k : Handle}

theorem disconnectFromLeader_live (hlive : k.Live s.process)
    (hkept : k.fd ∉ leaderSocketFd s) :
    k.Live s.disconnectFromLeader.process := by
  unfold PeerState.disconnectFromLeader
  cases hsocket : s.pm.m_leaderSocket with
  | none => exact hlive
  | some h =>
      refine hlive.close_of_ne ?_
      simpa [leaderSocketFd, hsocket] using hkept

theorem closeLeaderSocket_live (hlive : k.Live s.process)
    (hkept : k.fd ∉ leaderSocketFd s) :
    k.Live s.closeLeaderSocket.process := by
  unfold PeerState.closeLeaderSocket
  cases hsocket : s.pm.m_leaderSocket with
  | none => exact hlive
  | some h =>
      refine hlive.close_of_ne ?_
      simpa [leaderSocketFd, hsocket] using hkept

theorem sendToLeader_live (writeSucceeds : Bool) (hlive : k.Live s.process)
    (hkept : s.pm.m_connectedToLeader = true → writeSucceeds = false →
      k.fd ∉ leaderSocketFd s) :
    k.Live (s.sendToLeader writeSucceeds).2.process := by
  unfold PeerState.sendToLeader
  split
  · exact hlive
  · rename_i hconnected
    simp only [Bool.or_eq_true, Bool.not_eq_true', not_or,
      Bool.not_eq_false] at hconnected
    split
    · exact hlive
    · exact disconnectFromLeader_live hlive
        (hkept hconnected.1 (by simpa using ‹¬writeSucceeds = true›))

theorem open_close_live {p : Process} (purpose : Purpose) (hlive : k.Live p) :
    k.Live ((p.open_ purpose).2.close (p.open_ purpose).1.fd) :=
  (hlive.open_ purpose).close_of_ne (hlive.ne_open purpose)

theorem openLeaderSocket_live (outcome : ConnectOutcome)
    (hlive : k.Live s.process) :
    k.Live (s.openLeaderSocket outcome).2.process := by
  cases outcome with
  | socketFails => exact hlive
  | addressInvalid => exact open_close_live .leader hlive
  | connectFails => exact open_close_live .leader hlive
  | connected registrationSent =>
      refine sendToLeader_live registrationSent (hlive.open_ .leader) ?_
      intro _ _
      have hne := hlive.ne_open .leader
      simpa [leaderSocketFd, Process.open_] using hne

theorem connectToLeader_live (outcome : ConnectOutcome)
    (hlive : k.Live s.process)
    (hkept : s.canConnect = true → k.fd ∉ leaderSocketFd s) :
    k.Live (s.connectToLeader outcome).2.process := by
  unfold PeerState.connectToLeader
  split
  · exact hlive
  · rename_i hcan
    exact openLeaderSocket_live outcome
      (closeLeaderSocket_live hlive (hkept (by simpa using hcan)))

theorem dropPeer_live (peer_id : String) (hlive : k.Live s.process)
    (hkept : k.fd ∉ peerSocketFd s peer_id) :
    k.Live (s.dropPeer peer_id).process := by
  unfold PeerState.dropPeer
  cases hpeer : s.pm.m_peers peer_id with
  | none => exact hlive
  | some info =>
      cases hsocket : info.socket_fd with
      | none => simpa only [hsocket] using hlive
      | some h =>
          simp only [hsocket]
          refine hlive.close_of_ne ?_
          simpa [peerSocketFd, hpeer, hsocket] using hkept

theorem connectToPeer_live (peer_id ip : String) (outcome : ConnectOutcome)
    (hlive : k.Live s.process) :
    k.Live (s.connectToPeer peer_id ip outcome).2.process := by
  unfold PeerState.connectToPeer
  split
  · exact hlive
  · cases outcome with
    | socketFails => exact hlive
    | addressInvalid => exact open_close_live .outgoing hlive
    | connectFails => exact open_close_live .outgoing hlive
    | connected registrationSent => exact hlive.open_ .outgoing

theorem PeerOp.apply_live (op : PeerOp) (hlive : k.Live s.process)
    (hkept : k.fd ∉ op.closes s) : k.Live (op.apply s).process := by
  cases op with
  | loadConfig role id addr => exact hlive
  | applyConfig command =>
      simp only [PeerOp.apply]
      rw [(LeaderLink.applyConfig_same_link s command).2.2]
      exact hlive
  | connectToLeader outcome =>
      refine connectToLeader_live outcome hlive fun hcan => ?_
      simpa [PeerOp.closes, hcan] using hkept
  | disconnectFromLeader => exact disconnectFromLeader_live hlive hkept
  | sendToLeader writeSucceeds =>
      refine sendToLeader_live writeSucceeds hlive fun hconnected hfails => ?_
      simpa [PeerOp.closes, hconnected, hfails] using hkept
  | connectToPeer peer_id ip outcome =>
      exact connectToPeer_live peer_id ip outcome hlive
  | sendToPeer peer_id writeSucceeds =>
      simp only [PeerOp.apply, PeerState.sendToPeer]
      split
      · exact hlive
      · split
        · exact hlive
        · refine dropPeer_live peer_id hlive ?_
          simpa [PeerOp.closes, *] using hkept
  | unregisterPeer peer_id => exact dropPeer_live peer_id hlive hkept

end

/-! ## Commands -/

/-- The parts of the state no command touches. -/
structure SameSockets (s s' : DaemonState) : Prop where
  loop : s'.toEventLoop = s.toEventLoop
  process : s'.process = s.process
  leaderSocket : s'.pm.m_leaderSocket = s.pm.m_leaderSocket
  connected : s'.pm.m_connectedToLeader = s.pm.m_connectedToLeader

theorem SameSockets.refl (s : DaemonState) : SameSockets s s :=
  ⟨rfl, rfl, rfl, rfl⟩

theorem handlers_sameSockets (env : Effects) (handler : Handler)
    (command : Json) (g_clientSocket : Fd) (s : DaemonState) :
    SameSockets s (handlers env handler command g_clientSocket s).2 := by
  unfold handlers
  split
  · exact ⟨rfl, rfl, rfl, rfl⟩
  · unfold askWindowExtension
    repeat' split
    all_goals exact ⟨rfl, rfl, rfl, rfl⟩
  · unfold askWindowExtension
    repeat' split
    all_goals exact ⟨rfl, rfl, rfl, rfl⟩
  · exact ⟨rfl, rfl, rfl, rfl⟩
  · unfold triggerChromeChatGPTFocus
    split <;> exact ⟨rfl, rfl, rfl, rfl⟩
  · exact ⟨rfl, rfl, rfl, rfl⟩
  · unfold handleRegisterPeer
    repeat' split
    all_goals exact ⟨rfl, rfl, rfl, rfl⟩
  · exact ⟨rfl, rfl, rfl, rfl⟩

/-- Everything a dispatched command can do: its handler changes the state from
which the thread, if there is one, is started. -/
theorem callMainCommand_cases {dump : Json → String} {env : Effects}
    {command : Json} {client_sock : Handle} {s s' : DaemonState} {res : Int}
    (hcall : callMainCommand dump env command client_sock s = .ok (res, s')) :
    ∃ commandName handled, commandNameOf command = .ok commandName ∧
      res = returnCode commandName ∧
      (handled = { s with g_clientSocket := client_sock } ∨ ∃ handler,
        lookupHandler commandName = some handler ∧
          handled = (handlers env handler command client_sock.fd
            { s with g_clientSocket := client_sock }).2) ∧
      s' =
        if res = 2 then
          { handled with
            threads := handled.threads ++ [⟨command, commandName, client_sock⟩] }
        else handled := by
  unfold callMainCommand at hcall
  split at hcall
  · rename_i commandName outcome hname hmain
    obtain ⟨commandName', hname', hcode, hstate⟩ :=
      mainCommand_cases (handlers env) dump hmain
    obtain rfl : commandName = commandName' :=
      Except.ok.inj (hname.symm.trans hname')
    refine ⟨commandName, outcome.state, hname, ?_⟩
    split at hcall
    · rename_i htwo
      obtain ⟨rfl, rfl⟩ := Prod.mk.inj (Except.ok.inj hcall)
      exact ⟨htwo.symm.trans hcode, hstate, rfl⟩
    · rename_i htwo
      obtain ⟨rfl, rfl⟩ := Prod.mk.inj (Except.ok.inj hcall)
      exact ⟨hcode, hstate, (if_neg htwo).symm⟩
  · contradiction
  · contradiction

/-- A peer's messages may change its id and what is known about it. -/
def Relabels (s s' : DaemonState) : Prop :=
  ∃ peer_clients registry, s' = { s with peer_clients, registry } ∧
    ∀ fd, (peer_clients fd).map PeerClientState.connection =
      (s.peer_clients fd).map PeerClientState.connection

theorem Relabels.refl (s : DaemonState) : Relabels s s :=
  ⟨s.peer_clients, s.registry, rfl, fun _ => rfl⟩

theorem Relabels.trans {s₁ s₂ s₃ : DaemonState} (hleft : Relabels s₁ s₂)
    (hright : Relabels s₂ s₃) : Relabels s₁ s₃ := by
  obtain ⟨peers, registry, rfl, hpeers⟩ := hleft
  obtain ⟨peers', registry', rfl, hpeers'⟩ := hright
  exact ⟨peers', registry', rfl, fun fd => (hpeers' fd).trans (hpeers fd)⟩

theorem relabels_registry (s : DaemonState) (registry : PeerRegistry) :
    Relabels s { s with registry } :=
  ⟨s.peer_clients, registry, rfl, fun _ => rfl⟩

theorem relabels_setPeerClientId (peer_fd : Fd) (peer_id : String)
    (s : DaemonState) : Relabels s (setPeerClientId peer_fd peer_id s) := by
  refine ⟨_, s.registry, rfl, fun fd => ?_⟩
  by_cases heq : fd = peer_fd
  · subst heq
    simp [Function.comp_def]
  · simp [heq]

theorem relabels_cacheAppStatus (j : Json) (peer_id : String)
    (s : DaemonState) : Relabels s (cacheAppStatus j peer_id s) := by
  unfold cacheAppStatus
  split
  · exact relabels_registry s _
  · exact Relabels.refl s

theorem relabels_peerHeartbeat {j peer_id : Json} {peer_fd : Fd}
    {s s' : DaemonState} (hbeat : peerHeartbeat j peer_id peer_fd s = .ok s') :
    Relabels s s' := by
  unfold peerHeartbeat at hbeat
  split at hbeat
  · contradiction
  · contradiction
  · rename_i hbPeerId version _ _
    have hcached : Relabels s (cacheAppStatus j hbPeerId
        { s with registry := touchLastSeen hbPeerId version s.registry }) :=
      (relabels_registry s _).trans (relabels_cacheAppStatus j hbPeerId _)
    dsimp only at hbeat
    split at hbeat
    · obtain rfl := Except.ok.inj hbeat
      exact hcached.trans (relabels_setPeerClientId peer_fd hbPeerId _)
    · obtain rfl := Except.ok.inj hbeat
      exact hcached

theorem relabels_trackPeerId {j : Json} {peer_fd : Fd} {s s' : DaemonState}
    (htrack : trackPeerId j peer_fd s = .ok s') : Relabels s s' := by
  unfold trackPeerId at htrack
  split at htrack
  · split at htrack
    · contradiction
    · obtain rfl := Except.ok.inj htrack
      exact (relabels_setPeerClientId peer_fd _ s).trans
        (relabels_cacheAppStatus j _ _)
  · obtain rfl := Except.ok.inj htrack
    exact Relabels.refl s

/-- Everything a line can do: it is dispatched, or only changes what is known
about peers. -/
theorem line_cases {dump : Json → String} {env : Effects}
    {message : Option Json} {reader : Reader} {h : Handle} {s s' : DaemonState}
    (hline : line dump env message reader h s = .ok s') :
    Relabels s s' ∨ ∃ j before res after,
      message = some j ∧ Relabels s before ∧
        callMainCommand dump env j h before = .ok (res, after) ∧
        s' =
          if reader = .handle_client_data then
            { after with returned := some (h.fd, res) }
          else after := by
  cases reader with
  | handle_client_data =>
      simp only [line, clientLine] at hline
      split at hline
      · obtain rfl := Except.ok.inj hline
        exact Or.inl (Relabels.refl s)
      · rename_i j
        split at hline
        · contradiction
        · rename_i res after hcall
          obtain rfl := Except.ok.inj hline
          exact Or.inr ⟨j, s, res, after, rfl, Relabels.refl s, hcall, by simp⟩
  | handle_peer_data =>
      simp only [line, peerLine] at hline
      split at hline
      · obtain rfl := Except.ok.inj hline
        exact Or.inl (Relabels.refl s)
      · rename_i j
        split at hline
        · exact Or.inl (relabels_peerHeartbeat hline)
        · split at hline
          · contradiction
          · rename_i before htrack
            cases hcall : callMainCommand dump env j h before with
            | error e => simp [hcall, Except.map] at hline
            | ok result =>
                obtain ⟨res, after⟩ := result
                obtain rfl : after = s' := by
                  simpa [hcall, Except.map] using hline
                exact Or.inr ⟨j, before, res, after, rfl,
                  relabels_trackPeerId htrack, hcall, by simp⟩
  | handle_leader_data =>
      simp only [line, leaderLine] at hline
      split at hline
      · obtain rfl := Except.ok.inj hline
        exact Or.inl (Relabels.refl s)
      · rename_i j
        split at hline
        · obtain rfl := Except.ok.inj hline
          exact Or.inl (Relabels.refl s)
        · cases hcall : callMainCommand dump env j h s with
          | error e => simp [hcall, Except.map] at hline
          | ok result =>
              obtain ⟨res, after⟩ := result
              obtain rfl : after = s' := by
                simpa [hcall, Except.map] using hline
              exact Or.inr ⟨j, s, res, after, rfl, Relabels.refl s, hcall,
                by simp⟩

/-! ## Descriptors -/

/-- The descriptors a step closes. -/
def closes (s : DaemonState) : Label → List Fd
  | .clientReturn =>
      match s.returned with
      | some (fd, res) => if res = 1 then [fd] else []
      | none => []
  | .clientEof fd => [fd]
  | .peerEof fd => [fd]
  | .leaderEof => leaderSocketFd s.toPeerState
  | .finishThread position _ =>
      (s.threads[position]?.map fun thread => thread.client_sock.fd).toList
  | .peerOp op => op.closes s.toPeerState
  | .closeOther fd => [fd]
  | _ => []

theorem Relabels.process {s s' : DaemonState} (hrelabels : Relabels s s') :
    s'.process = s.process := by
  obtain ⟨_, _, rfl, -⟩ := hrelabels
  rfl

theorem callMainCommand_process {dump : Json → String} {env : Effects}
    {command : Json} {client_sock : Handle} {s s' : DaemonState} {res : Int}
    (hcall : callMainCommand dump env command client_sock s = .ok (res, s')) :
    s'.process = s.process := by
  obtain ⟨commandName, handled, -, -, hhandled, rfl⟩ := callMainCommand_cases hcall
  have hprocess : handled.process = s.process := by
    rcases hhandled with rfl | ⟨handler, -, rfl⟩
    · rfl
    · exact (handlers_sameSockets env handler command client_sock.fd _).process
  split <;> exact hprocess

/-- A line opens and closes nothing. -/
theorem line_process {dump : Json → String} {env : Effects}
    {message : Option Json} {reader : Reader} {h : Handle} {s s' : DaemonState}
    (hline : line dump env message reader h s = .ok s') :
    s'.process = s.process := by
  rcases line_cases hline with hrelabels | ⟨j, before, res, after, -, hrelabels,
    hcall, rfl⟩
  · exact hrelabels.process
  · have hafter := (callMainCommand_process hcall).trans hrelabels.process
    split <;> exact hafter

theorem threadBody_sameSockets (env : Effects) (command : Json)
    (commandName : String) (client_sock g_clientSocket : Fd) (s : DaemonState) :
    SameSockets s (threadBody (handlers env) command commandName client_sock
      g_clientSocket s).1 := by
  rcases threadBody_cases (handlers env) command commandName client_sock
    g_clientSocket s with heq | ⟨handler, -, heq⟩
  · rw [heq]
    exact SameSockets.refl s
  · rw [heq]
    exact handlers_sameSockets env handler command g_clientSocket s

theorem toOption_eq_some {α ε : Type*} {e : Except ε α} {a : α}
    (heq : e.toOption = some a) : e = .ok a := by
  cases e with
  | error e => simp [Except.toOption] at heq
  | ok b => simpa [Except.toOption] using heq

/-! ## The steps -/

/-- What a step may be: the guard of its label and the state it leads to. -/
inductive Takes (dump : Json → String) (s : DaemonState) : Label → DaemonState → Prop
  | setupPeerSocket (succeeds : Bool) (hclosed : s.peer_socket_fd = none) :
      Takes dump s (.setupPeerSocket succeeds) (setupPeerSocket succeeds s)
  | acceptClient (hidle : idle s = true) :
      Takes dump s .acceptClient (acceptClient s)
  | acceptPeer (ip : String) (hidle : idle s = true)
      (hopen : s.peer_socket_fd.isSome = true) :
      Takes dump s (.acceptPeer ip) (acceptPeer ip s)
  | read (reader : Reader) (fd : Fd) (connection : Connection)
      (hlookup : s.process.fds.lookup fd = some connection)
      (hidle : idle s = true) (htracked : isTracked s reader fd = true) :
      Takes dump s (.read reader fd)
        { s with serving := some (reader, ⟨fd, connection⟩) }
  | line (message : Option Json) (env : Effects) (reader : Reader) (h : Handle)
      (s' : DaemonState) (hserving : s.serving = some (reader, h))
      (hreturned : s.returned = none)
      (hline : line dump env message reader h s = .ok s') :
      Takes dump s (.line message env) s'
  | clientReturn (fd : Fd) (res : Int) (hreturned : s.returned = some (fd, res)) :
      Takes dump s .clientReturn (clientReturn fd res s)
  | endRead (hreturned : s.returned = none) :
      Takes dump s .endRead { s with serving := none }
  | clientEof (fd : Fd) (hidle : idle s = true)
      (htracked : isTracked s .handle_client_data fd = true) :
      Takes dump s (.clientEof fd) (clientEof fd s)
  | peerEof (fd : Fd) (state : PeerClientState)
      (hstate : s.peer_clients fd = some state) (hidle : idle s = true) :
      Takes dump s (.peerEof fd) (peerEof fd state s)
  | leaderEof (hidle : idle s = true) (hleader : (leaderFd s).isSome = true) :
      Takes dump s .leaderEof { s with toPeerState := s.toPeerState.leaderReadFails }
  | finishThread (position : ℕ) (env : Effects) (thread : SlowThread)
      (hthread : s.threads[position]? = some thread) :
      Takes dump s (.finishThread position env) (finishThread env position thread s)
  | focusChatGPT (writeFails : Bool) :
      Takes dump s (.focusChatGPT writeFails) (triggerChromeChatGPTFocus writeFails s)
  | peerOp (op : PeerOp) :
      Takes dump s (.peerOp op) { s with toPeerState := op.apply s.toPeerState }
  | openOther : Takes dump s .openOther { s with process := (s.process.open_ .other).2 }
  | closeOther (fd : Fd)
      (hother : ((s.process.fds.lookup fd).any fun c => c.purpose = .other) = true) :
      Takes dump s (.closeOther fd) (closeFd fd s)

theorem step_cases {dump : Json → String} {s s' : DaemonState} {label : Label}
    (hstep : step dump s label = some s') : Takes dump s label s' := by
  cases label with
  | setupPeerSocket succeeds =>
      simp only [step, Option.ite_none_right_eq_some, Option.some.injEq,
        Option.isNone_iff_eq_none] at hstep
      obtain ⟨hclosed, rfl⟩ := hstep
      exact .setupPeerSocket succeeds hclosed
  | acceptClient =>
      simp only [step, Option.ite_none_right_eq_some, Option.some.injEq] at hstep
      obtain ⟨hidle, rfl⟩ := hstep
      exact .acceptClient hidle
  | acceptPeer ip =>
      simp only [step, Option.ite_none_right_eq_some, Option.some.injEq,
        Bool.and_eq_true] at hstep
      obtain ⟨⟨hidle, hopen⟩, rfl⟩ := hstep
      exact .acceptPeer ip hidle hopen
  | read reader fd =>
      simp only [step] at hstep
      split at hstep
      · rename_i connection hlookup
        simp only [Option.ite_none_right_eq_some, Option.some.injEq,
          Bool.and_eq_true] at hstep
        obtain ⟨⟨hidle, htracked⟩, rfl⟩ := hstep
        exact .read reader fd connection hlookup hidle htracked
      · contradiction
  | line message env =>
      simp only [step] at hstep
      split at hstep
      · rename_i reader h hserving hnone
        exact .line message env reader h s' hserving hnone (toOption_eq_some hstep)
      · contradiction
  | clientReturn =>
      simp only [step] at hstep
      split at hstep
      · rename_i fd res hreturned
        obtain rfl := Option.some.inj hstep
        exact .clientReturn fd res hreturned
      · contradiction
  | endRead =>
      simp only [step, Option.ite_none_right_eq_some, Option.some.injEq,
        Option.isNone_iff_eq_none] at hstep
      obtain ⟨hnone, rfl⟩ := hstep
      exact .endRead hnone
  | clientEof fd =>
      simp only [step, Option.ite_none_right_eq_some, Option.some.injEq,
        Bool.and_eq_true] at hstep
      obtain ⟨⟨hidle, htracked⟩, rfl⟩ := hstep
      exact .clientEof fd hidle htracked
  | peerEof fd =>
      simp only [step] at hstep
      split at hstep
      · rename_i state hstate
        simp only [Option.ite_none_right_eq_some, Option.some.injEq] at hstep
        obtain ⟨hidle, rfl⟩ := hstep
        exact .peerEof fd state hstate hidle
      · contradiction
  | leaderEof =>
      simp only [step, Option.ite_none_right_eq_some, Option.some.injEq,
        Bool.and_eq_true] at hstep
      obtain ⟨⟨hidle, hleader⟩, rfl⟩ := hstep
      exact .leaderEof hidle hleader
  | finishThread position env =>
      simp only [step] at hstep
      split at hstep
      · rename_i thread hthread
        obtain rfl := Option.some.inj hstep
        exact .finishThread position env thread hthread
      · contradiction
  | focusChatGPT writeFails =>
      obtain rfl := Option.some.inj hstep
      exact .focusChatGPT writeFails
  | peerOp op =>
      obtain rfl := Option.some.inj hstep
      exact .peerOp op
  | openOther =>
      obtain rfl := Option.some.inj hstep
      exact .openOther
  | closeOther fd =>
      simp only [step, Option.ite_none_right_eq_some, Option.some.injEq] at hstep
      obtain ⟨hother, rfl⟩ := hstep
      exact .closeOther fd hother

theorem step_live {dump : Json → String} {s s' : DaemonState} {label : Label}
    {k : Handle} (hstep : step dump s label = some s')
    (hlive : k.Live s.process) (hkept : k.fd ∉ closes s label) :
    k.Live s'.process := by
  cases step_cases hstep with
  | setupPeerSocket succeeds =>
      cases succeeds
      · exact open_close_live .listener hlive
      · exact hlive.open_ .listener
  | acceptClient => exact hlive.open_ .client
  | acceptPeer => exact hlive.open_ .peer
  | read => exact hlive
  | line message env reader h _ _ _ hline =>
      rw [line_process hline]
      exact hlive
  | clientReturn fd res hreturned =>
      unfold clientReturn
      dsimp only
      split
      · rename_i hone
        refine hlive.close_of_ne ?_
        simpa [closes, hreturned, hone] using hkept
      · split <;> exact hlive
  | endRead => exact hlive
  | clientEof fd => exact hlive.close_of_ne (by simpa [closes] using hkept)
  | peerEof fd => exact hlive.close_of_ne (by simpa [closes] using hkept)
  | leaderEof =>
      unfold leaderReadFails
      split
      · exact disconnectFromLeader_live hlive hkept
      · exact hlive
  | finishThread position env thread hthread =>
      have hsame := threadBody_sameSockets env thread.command thread.commandName
        thread.client_sock.fd s.g_clientSocket.fd s
      refine Handle.Live.close_of_ne (p := _) ?_ ?_
      · rw [hsame.process]
        exact hlive
      · simpa [closes, hthread] using hkept
  | focusChatGPT writeFails =>
      unfold triggerChromeChatGPTFocus
      split <;> exact hlive
  | peerOp op => exact op.apply_live hlive hkept
  | openOther => exact hlive.open_ .other
  | closeOther fd => exact hlive.close_of_ne (by simpa [closes] using hkept)

end DaemonServer

end AutomateLinux
