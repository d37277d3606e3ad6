import AutomateLinux.DaemonServerSteps
import Mathlib.Data.List.Nodup

/-!
# The descriptors in the select set

When the event loop waits in `select`, every descriptor it passes must be open
and be the connection that was recorded with it.  Three parties close
descriptors of the loop besides the loop: threads of slow commands, failed sends
to peers and unregistered peers.  As long as slow commands come from local
clients, whose connection is handed over to the thread, and the peer manager
closes only what it opened itself, none of them closes a tracked descriptor.
-/

namespace AutomateLinux

namespace DaemonServer

open TransitionSystem PeerState

/-- The descriptors of the select set are open and denote what was recorded
with them. -/
structure SelectSetLive (s : DaemonState) : Prop where
  listener : s.socket_fd.Live s.process
  peerListener : ∀ h, s.peer_socket_fd = some h → h.Live s.process
  client : ∀ fd c, s.clients fd = some c → (⟨fd, c⟩ : Handle).Live s.process
  peer : ∀ fd state, s.peer_clients fd = some state →
    (⟨fd, state.connection⟩ : Handle).Live s.process
  leader : s.pm.m_connectedToLeader = true →
    ∀ h, s.pm.m_leaderSocket = some h → h.Live s.process

/-- The peer's socket is closed already, or was opened by `connectToPeer`. -/
def ClosesOwn (s : PeerState) (peer_id : String) : Prop :=
  ∀ fd ∈ peerSocketFd s peer_id, ∀ c, s.process.fds.lookup fd = some c →
    c.purpose = .outgoing

def PeerOp.ClosesOwnSocket (s : PeerState) : PeerOp → Prop
  | .sendToPeer peer_id false => ClosesOwn s peer_id
  | .unregisterPeer peer_id => ClosesOwn s peer_id
  | _ => True

/-- No slow command comes from a peer or the leader, and the peer manager closes
only sockets it opened itself. -/
def SlowFromClientsOnly (s : DaemonState) : Label → Prop
  | .line message _ =>
      ∀ reader h, s.serving = some (reader, h) → reader ≠ .handle_client_data →
        ∀ j commandName, message = some j →
          commandNameOf j = .ok commandName → commandName ∉ slowCommands
  | .peerOp op => op.ClosesOwnSocket s.toPeerState
  | _ => True

/-! ## The invariant -/

/-- The recorded leader socket is an open connection to the leader. -/
def LeaderOwned (s : PeerState) : Prop :=
  ∀ h, s.pm.m_leaderSocket = some h →
    h.Live s.process ∧ h.connection.purpose = .leader

/-- Every tracked descriptor is open for its purpose, apart from a client that
is being handed over; every thread holds a client connection that is tracked by
nobody else. -/
structure Owned (s : DaemonState) : Prop where
  listener : s.socket_fd.Live s.process ∧
    s.socket_fd.connection.purpose = .listener
  peerListener : ∀ h, s.peer_socket_fd = some h →
    h.Live s.process ∧ h.connection.purpose = .listener
  client : ∀ fd c, s.clients fd = some c → c.purpose = .client ∧
    (s.returned = some (fd, 2) ∨ (⟨fd, c⟩ : Handle).Live s.process)
  peer : ∀ fd state, s.peer_clients fd = some state →
    (⟨fd, state.connection⟩ : Handle).Live s.process ∧
      state.connection.purpose = .peer
  leader : LeaderOwned s.toPeerState
  thread : ∀ t ∈ s.threads, t.client_sock.Live s.process ∧
    t.client_sock.connection.purpose = .client ∧
      ((s.clients t.client_sock.fd).isSome = true →
        s.returned = some (t.client_sock.fd, 2))
  threadsApart : (s.threads.map fun t => t.client_sock.fd).Nodup
  serving : ∀ h, s.serving = some (.handle_client_data, h) →
    s.clients h.fd = some h.connection
  returned : ∀ fd res, s.returned = some (fd, res) →
    ∃ h, s.serving = some (.handle_client_data, h) ∧ h.fd = fd

theorem Owned.selectSetLive {s : DaemonState} (howned : Owned s)
    (hidle : idle s = true) : SelectSetLive s where
  listener := howned.listener.1
  peerListener := fun h hh => (howned.peerListener h hh).1
  client := fun fd c hc => by
    simp only [idle, Bool.and_eq_true, Option.isNone_iff_eq_none] at hidle
    simpa [hidle.2] using (howned.client fd c hc).2
  peer := fun fd state hstate => (howned.peer fd state hstate).1
  leader := fun _ h hh => (howned.leader h hh).1

/-! ## Steps that leave the loop's tables alone -/

/-- Connections of these purposes are tracked by the loop or held by threads. -/
def LoopPurpose (purpose : Purpose) : Prop :=
  purpose = .listener ∨ purpose = .client ∨ purpose = .peer

theorem Owned.listeners_live {s : DaemonState} (howned : Owned s) {p : Process}
    (hlive : ∀ k : Handle, k.Live s.process → k.connection.purpose = .listener → k.Live p) :
    (s.socket_fd.Live p ∧ s.socket_fd.connection.purpose = .listener) ∧
      ∀ h, s.peer_socket_fd = some h → h.Live p ∧ h.connection.purpose = .listener := by
  obtain ⟨hlistens, hpurpose⟩ := howned.listener
  refine ⟨⟨hlive _ hlistens hpurpose, hpurpose⟩, fun h hh => ?_⟩
  obtain ⟨hlistens, hpurpose⟩ := howned.peerListener h hh
  exact ⟨hlive h hlistens hpurpose, hpurpose⟩

theorem Owned.of_process {s : DaemonState} (howned : Owned s) (s' : DaemonState)
    (hloop : s'.toEventLoop = s.toEventLoop)
    (hlive : ∀ k : Handle, k.Live s.process →
      LoopPurpose k.connection.purpose → k.Live s'.process)
    (hleader : LeaderOwned s'.toPeerState) : Owned s' := by
  obtain ⟨toPeerState, toEventLoop, toRoles, registry, g_clientSocket⟩ := s'
  subst hloop
  have hlisteners := howned.listeners_live fun k hk hpurpose => hlive k hk (Or.inl hpurpose)
  constructor
  · exact hlisteners.1
  · exact hlisteners.2
  · intro fd c hc
    obtain ⟨hpurpose, hopen⟩ := howned.client fd c hc
    exact ⟨hpurpose, hopen.imp_right fun hopen =>
      hlive _ hopen (Or.inr (Or.inl hpurpose))⟩
  · intro fd state hstate
    obtain ⟨hopen, hpurpose⟩ := howned.peer fd state hstate
    exact ⟨hlive _ hopen (Or.inr (Or.inr hpurpose)), hpurpose⟩
  · exact hleader
  · intro t ht
    obtain ⟨hopen, hpurpose, hapart⟩ := howned.thread t ht
    exact ⟨hlive _ hopen (Or.inr (Or.inl hpurpose)), hpurpose, hapart⟩
  · exact howned.threadsApart
  · exact howned.serving
  · exact howned.returned

section

variable {s : PeerState} {k : Handle}

theorem LeaderOwned.fd_not_mem (hleader : LeaderOwned s)
    (hlive : k.Live s.process) (hpurpose : k.connection.purpose ≠ .leader) :
    k.fd ∉ leaderSocketFd s := by
  cases hsocket : s.pm.m_leaderSocket with
  | none => simp [leaderSocketFd, hsocket]
  | some h =>
      obtain ⟨hopen, hleads⟩ := hleader h hsocket
      have hne := hlive.fd_ne hopen (by rwa [hleads])
      simpa [leaderSocketFd, hsocket] using hne

theorem ClosesOwn.fd_not_mem {peer_id : String} (hown : ClosesOwn s peer_id)
    (hlive : k.Live s.process) (hpurpose : k.connection.purpose ≠ .outgoing) :
    k.fd ∉ peerSocketFd s peer_id :=
  fun hmem => hpurpose (hown k.fd hmem k.connection hlive)

theorem LoopPurpose.ne_leader {purpose : Purpose}
    (hloop : LoopPurpose purpose) : purpose ≠ .leader := by
  rcases hloop with rfl | rfl | rfl <;> decide

theorem LoopPurpose.ne_outgoing {purpose : Purpose}
    (hloop : LoopPurpose purpose) : purpose ≠ .outgoing := by
  rcases hloop with rfl | rfl | rfl <;> decide

theorem LoopPurpose.ne_other {purpose : Purpose}
    (hloop : LoopPurpose purpose) : purpose ≠ .other := by
  rcases hloop with rfl | rfl | rfl <;> decide

theorem PeerOp.apply_live_of_loopPurpose {op : PeerOp}
    (hown : op.ClosesOwnSocket s) (hleader : LeaderOwned s)
    (hlive : k.Live s.process) (hloop : LoopPurpose k.connection.purpose) :
    k.Live (op.apply s).process := by
  refine op.apply_live hlive ?_
  have hnotLeader := hleader.fd_not_mem hlive hloop.ne_leader
  cases op with
  | loadConfig role id addr => simp [closes]
  | applyConfig command => simp [closes]
  | connectToLeader outcome =>
      simp only [closes]
      split
      · exact hnotLeader
      · simp
  | disconnectFromLeader => exact hnotLeader
  | sendToLeader writeSucceeds =>
      simp only [closes]
      split
      · exact hnotLeader
      · simp
  | connectToPeer peer_id ip outcome => simp [closes]
  | sendToPeer peer_id writeSucceeds =>
      cases writeSucceeds with
      | true => simp [closes]
      | false => exact ClosesOwn.fd_not_mem hown hlive hloop.ne_outgoing
  | unregisterPeer peer_id =>
      exact ClosesOwn.fd_not_mem hown hlive hloop.ne_outgoing

theorem leaderOwned_of_none {s : PeerState}
    (hnone : s.pm.m_leaderSocket = none) : LeaderOwned s := by
  intro h hsocket
  simp [hnone] at hsocket

theorem leaderOwned_disconnectFromLeader (s : PeerState) :
    LeaderOwned s.disconnectFromLeader := by
  refine leaderOwned_of_none ?_
  unfold PeerState.disconnectFromLeader
  cases hsocket : s.pm.m_leaderSocket with
  | none => exact hsocket
  | some h => rfl

theorem LeaderOwned.sendToLeader (hleader : LeaderOwned s)
    (writeSucceeds : Bool) : LeaderOwned (s.sendToLeader writeSucceeds).2 := by
  unfold PeerState.sendToLeader
  split
  · exact hleader
  · split
    · exact hleader
    · exact leaderOwned_disconnectFromLeader s

theorem LeaderOwned.connectToLeader (hleader : LeaderOwned s)
    (outcome : ConnectOutcome) : LeaderOwned (s.connectToLeader outcome).2 := by
  cases hcan : s.canConnect with
  | false => simpa [PeerState.connectToLeader, hcan] using hleader
  | true =>
      cases hsucceeds : outcome.succeeds with
      | false =>
          exact leaderOwned_of_none
            (LeaderLink.connectToLeader_of_fails hcan hsucceeds).1
      | true =>
          cases outcome with
          | connected registrationSent =>
              simp only [PeerState.connectToLeader, hcan, Bool.not_true,
                Bool.false_eq_true, if_false]
              exact (LeaderLink.inv_openLeaderSocket_connected _
                registrationSent).live
          | socketFails => simp [ConnectOutcome.succeeds] at hsucceeds
          | addressInvalid => simp [ConnectOutcome.succeeds] at hsucceeds
          | connectFails => simp [ConnectOutcome.succeeds] at hsucceeds

theorem LeaderOwned.of_live {s s' : PeerState} (hleader : LeaderOwned s)
    (hsocket : s'.pm.m_leaderSocket = s.pm.m_leaderSocket)
    (hlive : ∀ k : Handle, k.Live s.process → k.connection.purpose = .leader →
      k.Live s'.process) : LeaderOwned s' := by
  intro h hh
  obtain ⟨hopen, hpurpose⟩ := hleader h (hsocket ▸ hh)
  exact ⟨hlive h hopen hpurpose, hpurpose⟩

theorem dropPeer_leaderSocket (s : PeerState) (peer_id : String) :
    (s.dropPeer peer_id).pm.m_leaderSocket = s.pm.m_leaderSocket := by
  unfold PeerState.dropPeer
  split <;> rfl

theorem LeaderOwned.dropPeer (hleader : LeaderOwned s) {peer_id : String}
    (hown : ClosesOwn s peer_id) : LeaderOwned (s.dropPeer peer_id) := by
  refine hleader.of_live (dropPeer_leaderSocket s peer_id) ?_
  intro k hlive hpurpose
  exact dropPeer_live peer_id hlive
    (hown.fd_not_mem hlive (by rw [hpurpose]; decide))

theorem PeerOp.apply_leaderOwned {op : PeerOp} (hown : op.ClosesOwnSocket s)
    (hleader : LeaderOwned s) : LeaderOwned (op.apply s) := by
  cases op with
  | loadConfig role id addr => exact hleader
  | applyConfig command =>
      obtain ⟨-, hsocket, hprocess⟩ := LeaderLink.applyConfig_same_link s command
      refine hleader.of_live hsocket fun k hlive _ => ?_
      simp only [PeerOp.apply, hprocess]
      exact hlive
  | connectToLeader outcome => exact hleader.connectToLeader outcome
  | disconnectFromLeader => exact leaderOwned_disconnectFromLeader s
  | sendToLeader writeSucceeds => exact hleader.sendToLeader writeSucceeds
  | connectToPeer peer_id ip outcome =>
      refine hleader.of_live ?_ fun k hlive _ =>
        connectToPeer_live peer_id ip outcome hlive
      simp only [PeerOp.apply, PeerState.connectToPeer]
      split
      · rfl
      · cases outcome <;> rfl
  | sendToPeer peer_id writeSucceeds =>
      simp only [PeerOp.apply, PeerState.sendToPeer]
      split
      · exact hleader
      · split
        · exact hleader
        · rename_i hfails
          obtain rfl : writeSucceeds = false := by simpa using hfails
          exact hleader.dropPeer hown
  | unregisterPeer peer_id => exact hleader.dropPeer hown

end

/-! ## Lines -/

section

variable {s : DaemonState}

theorem Owned.client_live (howned : Owned s) (hnone : s.returned = none)
    {fd : Fd} {c : Connection} (hc : s.clients fd = some c) :
    (⟨fd, c⟩ : Handle).Live s.process := by
  simpa [hnone] using (howned.client fd c hc).2

theorem Owned.thread_untracked (howned : Owned s) (hnone : s.returned = none)
    {t : SlowThread} (ht : t ∈ s.threads) :
    s.clients t.client_sock.fd = none := by
  cases hclient : s.clients t.client_sock.fd with
  | none => rfl
  | some c =>
      have hhanded := (howned.thread t ht).2.2 (by simp [hclient])
      simp [hnone] at hhanded

theorem Owned.relabels {s' : DaemonState} (howned : Owned s)
    (hrelabels : Relabels s s') : Owned s' := by
  obtain ⟨peer_clients, registry, rfl, hsame⟩ := hrelabels
  refine ⟨howned.listener, howned.peerListener, howned.client, ?_,
    howned.leader, howned.thread, howned.threadsApart, howned.serving,
    howned.returned⟩
  intro fd state hstate
  have hconnection := hsame fd
  simp only at hstate
  rw [hstate] at hconnection
  obtain ⟨old, hold, heq⟩ := Option.map_eq_some_iff.mp hconnection.symm
  rw [← heq]
  exact howned.peer fd old hold

theorem Owned.setReturned (howned : Owned s) (hnone : s.returned = none)
    {h : Handle} (hserving : s.serving = some (.handle_client_data, h))
    (res : Int) : Owned { s with returned := some (h.fd, res) } where
  listener := howned.listener
  peerListener := howned.peerListener
  client := fun fd c hc =>
    ⟨(howned.client fd c hc).1, Or.inr (howned.client_live hnone hc)⟩
  peer := howned.peer
  leader := howned.leader
  thread := fun t ht => by
    obtain ⟨hopen, hpurpose, -⟩ := howned.thread t ht
    refine ⟨hopen, hpurpose, fun htracked => ?_⟩
    simp only at htracked
    simp [howned.thread_untracked hnone ht] at htracked
  threadsApart := howned.threadsApart
  serving := howned.serving
  returned := fun fd res' hreturned => by
    obtain ⟨rfl, rfl⟩ : h.fd = fd ∧ res = res' := by simpa using hreturned
    exact ⟨h, hserving, rfl⟩

theorem Owned.handOver (howned : Owned s) (hnone : s.returned = none)
    {t : SlowThread}
    (hserving : s.serving = some (.handle_client_data, t.client_sock)) :
    Owned
      { s with
        threads := s.threads ++ [t]
        returned := some (t.client_sock.fd, 2) } := by
  have hclient := howned.serving _ hserving
  have hopen : t.client_sock.Live s.process := howned.client_live hnone hclient
  have hset := howned.setReturned hnone hserving 2
  refine ⟨hset.listener, hset.peerListener, hset.client, hset.peer, hset.leader,
    ?_, ?_, hset.serving, hset.returned⟩
  · intro t' ht'
    rcases List.mem_append.mp ht' with hold | hnew
    · exact hset.thread t' hold
    · obtain rfl : t' = t := by simpa using hnew
      exact ⟨hopen, (howned.client _ _ hclient).1, fun _ => rfl⟩
  · simp only [List.map_append, List.map_cons, List.map_nil]
    refine List.nodup_append.mpr ⟨howned.threadsApart, by simp, ?_⟩
    intro fd hfd fd' hfd'
    obtain ⟨t', ht', rfl⟩ := List.mem_map.mp hfd
    obtain rfl : fd' = t.client_sock.fd := by simpa using hfd'
    intro heq
    have huntracked := howned.thread_untracked hnone ht'
    rw [heq, hclient] at huntracked
    contradiction

theorem Owned.sameSockets {s' : DaemonState} (howned : Owned s)
    (hsame : SameSockets s s') : Owned s' := by
  refine howned.of_process _ hsame.loop (fun k hlive _ => ?_) ?_
  · rw [hsame.process]
    exact hlive
  · refine howned.leader.of_live hsame.leaderSocket fun k hlive _ => ?_
    rw [hsame.process]
    exact hlive

theorem Owned.line {s' : DaemonState} {dump : Json → String} {env : Effects}
    {message : Option Json} {reader : Reader} {h : Handle} (howned : Owned s)
    (hserving : s.serving = some (reader, h)) (hnone : s.returned = none)
    (hslow : reader ≠ .handle_client_data → ∀ j commandName,
      message = some j → commandNameOf j = .ok commandName →
        commandName ∉ slowCommands)
    (hline : line dump env message reader h s = .ok s') : Owned s' := by
  rcases line_cases hline with hrelabels | ⟨j, before, res, after, rfl, hrelabels,
    hcall, rfl⟩
  · exact howned.relabels hrelabels
  · have hbefore := howned.relabels hrelabels
    obtain ⟨commandName, handled, hname, hres, hhandled, rfl⟩ :=
      callMainCommand_cases hcall
    have hsame : SameSockets before handled := by
      rcases hhandled with rfl | ⟨handler, -, rfl⟩
      · exact ⟨rfl, rfl, rfl, rfl⟩
      · obtain ⟨hloop, hprocess, hsocket, hconnected⟩ :=
          handlers_sameSockets env handler j h.fd
            { before with g_clientSocket := h }
        exact ⟨hloop, hprocess, hsocket, hconnected⟩
    have hafter := hbefore.sameSockets hsame
    have hserving' : handled.serving = some (reader, h) := by
      obtain ⟨_, _, rfl, -⟩ := hrelabels
      rw [hsame.loop]
      exact hserving
    have hnone' : handled.returned = none := by
      obtain ⟨_, _, rfl, -⟩ := hrelabels
      rw [hsame.loop]
      exact hnone
    -- only the client loop hands a slow command over
    have hnottwo : reader ≠ .handle_client_data → res ≠ 2 := by
      intro hreader
      rw [hres, Ne, returnCode_eq_two_iff]
      exact hslow hreader j commandName rfl hname
    cases reader with
    | handle_client_data =>
        simp only [if_true]
        by_cases htwo : res = 2
        · simp only [htwo, if_true]
          exact hafter.handOver hnone' (t := ⟨j, commandName, h⟩) hserving'
        · simp only [htwo, if_false]
          exact hafter.setReturned hnone' hserving' res
    | handle_peer_data => simpa [hnottwo (by decide)] using hafter
    | handle_leader_data => simpa [hnottwo (by decide)] using hafter

/-! ## Connections that come and go -/

theorem idle_iff : idle s = true ↔ s.serving = none ∧ s.returned = none := by
  simp [idle]

theorem Owned.acceptClient (howned : Owned s) (hidle : idle s = true) :
    Owned (acceptClient s) := by
  obtain ⟨hserving, hnone⟩ := idle_iff.mp hidle
  have hlive : ∀ k : Handle, k.Live s.process →
      k.Live (s.process.open_ .client).2 := fun k hk => hk.open_ .client
  have hlisteners := howned.listeners_live fun k hk _ => hlive k hk
  constructor
  · exact hlisteners.1
  · exact hlisteners.2
  · intro fd c hc
    by_cases hnew : fd = (s.process.open_ .client).1.fd
    · subst hnew
      obtain rfl : (s.process.open_ .client).1.connection = c := by
        simpa [DaemonServer.acceptClient] using hc
      exact ⟨rfl, Or.inr (s.process.open_live .client)⟩
    · have hold : s.clients fd = some c := by
        simpa [DaemonServer.acceptClient, hnew] using hc
      exact ⟨(howned.client fd c hold).1,
        Or.inr (hlive _ (howned.client_live hnone hold))⟩
  · intro fd state hstate
    obtain ⟨hopen, hpurpose⟩ := howned.peer fd state hstate
    exact ⟨hlive _ hopen, hpurpose⟩
  · exact howned.leader.of_live rfl fun k hk _ => hlive k hk
  · intro t ht
    obtain ⟨hopen, hpurpose, -⟩ := howned.thread t ht
    refine ⟨hlive _ hopen, hpurpose, fun htracked => ?_⟩
    have hne := hopen.ne_open .client
    have huntracked := howned.thread_untracked hnone ht
    simp [DaemonServer.acceptClient, hne, huntracked] at htracked
  · exact howned.threadsApart
  · intro h hh
    simp [DaemonServer.acceptClient, hserving] at hh
  · intro fd res hreturned
    simp [DaemonServer.acceptClient, hnone] at hreturned

theorem Owned.acceptPeer (howned : Owned s) (ip : String) :
    Owned (acceptPeer ip s) := by
  have hlive : ∀ k : Handle, k.Live s.process →
      k.Live (s.process.open_ .peer).2 := fun k hk => hk.open_ .peer
  have hopened := howned.of_process
    { s with process := (s.process.open_ .peer).2 } rfl
    (fun k hk _ => hlive k hk)
    (howned.leader.of_live rfl fun k hk _ => hlive k hk)
  refine ⟨hopened.listener, hopened.peerListener, hopened.client, ?_,
    hopened.leader, hopened.thread, hopened.threadsApart, hopened.serving,
    hopened.returned⟩
  intro fd state hstate
  by_cases hnew : fd = (s.process.open_ .peer).1.fd
  · subst hnew
    obtain rfl : ⟨(s.process.open_ .peer).1.connection, ip, ""⟩ = state := by
      simpa [DaemonServer.acceptPeer] using hstate
    exact ⟨s.process.open_live .peer, rfl⟩
  · refine hopened.peer fd state ?_
    simpa [DaemonServer.acceptPeer, hnew] using hstate

theorem Owned.setupPeerSocket (howned : Owned s) (succeeds : Bool) :
    Owned (setupPeerSocket succeeds s) := by
  cases succeeds with
  | false =>
      have hlive : ∀ k : Handle, k.Live s.process →
          k.Live ((s.process.open_ .listener).2.close
            (s.process.open_ .listener).1.fd) :=
        fun k hk => open_close_live .listener hk
      have hopened := howned.of_process
        { s with
          process := (s.process.open_ .listener).2.close
            (s.process.open_ .listener).1.fd } rfl
        (fun k hk _ => hlive k hk)
        (howned.leader.of_live rfl fun k hk _ => hlive k hk)
      exact ⟨hopened.listener, by simp [DaemonServer.setupPeerSocket],
        hopened.client, hopened.peer, hopened.leader, hopened.thread,
        hopened.threadsApart, hopened.serving, hopened.returned⟩
  | true =>
      have hlive : ∀ k : Handle, k.Live s.process →
          k.Live (s.process.open_ .listener).2 := fun k hk => hk.open_ .listener
      have hopened := howned.of_process
        { s with process := (s.process.open_ .listener).2 } rfl
        (fun k hk _ => hlive k hk)
        (howned.leader.of_live rfl fun k hk _ => hlive k hk)
      refine ⟨hopened.listener, ?_, hopened.client, hopened.peer, hopened.leader,
        hopened.thread, hopened.threadsApart, hopened.serving, hopened.returned⟩
      intro h hh
      obtain rfl : (s.process.open_ .listener).1 = h := by
        simpa [DaemonServer.setupPeerSocket] using hh
      exact ⟨s.process.open_live .listener, rfl⟩

/-- Closing a client connection that no thread holds and dropping it from the
table. -/
theorem Owned.dropClient (howned : Owned s) (hnone : s.returned = none)
    (hserving : s.serving = none) {fd : Fd} {c : Connection}
    (hc : s.clients fd = some c) :
    Owned (eraseClient fd (closeFd fd s)) := by
  have hopen := howned.client_live hnone hc
  have hclient := (howned.client fd c hc).1
  have hlive : ∀ k : Handle, k.Live s.process →
      k.connection.purpose ≠ .client → k.Live (s.process.close fd) :=
    fun k hk hpurpose => hk.close_of_ne (hk.fd_ne hopen (by rwa [hclient]))
  have hlisteners := howned.listeners_live fun k hk hpurpose =>
    hlive k hk (by rw [hpurpose]; decide)
  constructor
  · exact hlisteners.1
  · exact hlisteners.2
  · intro fd' c' hc'
    by_cases heq : fd' = fd
    · simp [eraseClient, heq] at hc'
    · have hold : s.clients fd' = some c' := by
        simpa [eraseClient, closeFd, heq] using hc'
      exact ⟨(howned.client fd' c' hold).1,
        Or.inr ((howned.client_live hnone hold).close_of_ne heq)⟩
  · intro fd' state hstate
    obtain ⟨hpeer, hpurpose⟩ := howned.peer fd' state hstate
    exact ⟨hlive _ hpeer (by rw [hpurpose]; decide), hpurpose⟩
  · exact howned.leader.of_live rfl fun k hk hpurpose =>
      hlive k hk (by rw [hpurpose]; decide)
  · intro t ht
    obtain ⟨hheld, hpurpose, -⟩ := howned.thread t ht
    have huntracked := howned.thread_untracked hnone ht
    have hne : t.client_sock.fd ≠ fd := by
      rintro heq
      rw [heq, hc] at huntracked
      contradiction
    refine ⟨hheld.close_of_ne hne, hpurpose, fun htracked => ?_⟩
    simp [eraseClient, closeFd, hne, huntracked] at htracked
  · exact howned.threadsApart
  · intro h hh
    simp [eraseClient, closeFd, hserving] at hh
  · intro fd' res hreturned
    simp [eraseClient, closeFd, hnone] at hreturned

theorem Owned.settle (howned : Owned s)
    (hcode : ∀ fd, s.returned ≠ some (fd, 2))
    (serving : Option (Reader × Handle))
    (hserving : serving = s.serving ∨ serving = none) :
    Owned { s with serving, returned := none } := by
  refine ⟨howned.listener, howned.peerListener, ?_, howned.peer, howned.leader,
    ?_, howned.threadsApart, ?_, by simp⟩
  · intro fd c hc
    obtain ⟨hpurpose, hopen⟩ := howned.client fd c hc
    exact ⟨hpurpose, Or.inr (hopen.resolve_left (hcode fd))⟩
  · intro t ht
    obtain ⟨hopen, hpurpose, hhanded⟩ := howned.thread t ht
    exact ⟨hopen, hpurpose, fun htracked =>
      absurd (hhanded htracked) (hcode _)⟩
  · intro h hh
    rcases hserving with rfl | rfl
    · exact howned.serving h hh
    · contradiction

theorem Owned.releaseClient (howned : Owned s) {fd : Fd}
    (hreturned : s.returned = some (fd, 2)) :
    Owned (eraseClient fd { s with serving := none, returned := none }) := by
  refine ⟨howned.listener, howned.peerListener, ?_, howned.peer, howned.leader,
    ?_, howned.threadsApart, by simp [eraseClient], by simp [eraseClient]⟩
  · intro fd' c hc
    by_cases heq : fd' = fd
    · simp [eraseClient, heq] at hc
    · obtain ⟨hpurpose, hopen⟩ := howned.client fd' c
        (by simpa [eraseClient, heq] using hc)
      refine ⟨hpurpose, Or.inr (hopen.resolve_left ?_)⟩
      simp [hreturned, Ne.symm heq]
  · intro t ht
    obtain ⟨hopen, hpurpose, hhanded⟩ := howned.thread t ht
    refine ⟨hopen, hpurpose, fun htracked => ?_⟩
    by_cases heq : t.client_sock.fd = fd
    · simp [eraseClient, heq] at htracked
    · have hlater := hhanded (by simpa [eraseClient, heq] using htracked)
      simp [hreturned, Ne.symm heq] at hlater

theorem Owned.unregisterLogSubscriber (howned : Owned s) (fd : Fd) :
    Owned (unregisterLogSubscriber fd s) :=
  howned.sameSockets ⟨rfl, rfl, rfl, rfl⟩

theorem Owned.clientReturn (howned : Owned s) {fd : Fd} {res : Int}
    (hreturned : s.returned = some (fd, res)) : Owned (clientReturn fd res s) := by
  unfold DaemonServer.clientReturn
  dsimp only
  split
  · rename_i hone
    have hsettled := howned.settle
      (by simp [hreturned, hone]) none (Or.inr rfl)
    obtain ⟨h, hserving, rfl⟩ := howned.returned fd res hreturned
    exact (hsettled.unregisterLogSubscriber h.fd).dropClient rfl rfl
      (howned.serving h hserving)
  · split
    · rename_i htwo
      have hreleased := howned.releaseClient (htwo ▸ hreturned)
      exact hreleased.unregisterLogSubscriber fd
    · rename_i htwo
      refine howned.settle ?_ _ (Or.inl rfl)
      simp [hreturned, htwo]

theorem Owned.peerEof (howned : Owned s) {fd : Fd} {state : PeerClientState}
    (hstate : s.peer_clients fd = some state) : Owned (peerEof fd state s) := by
  obtain ⟨hopen, hpeer⟩ := howned.peer fd state hstate
  have hlive : ∀ k : Handle, k.Live s.process →
      k.connection.purpose ≠ .peer → k.Live (s.process.close fd) :=
    fun k hk hpurpose => hk.close_of_ne (hk.fd_ne hopen (by rwa [hpeer]))
  have hlisteners := howned.listeners_live fun k hk hpurpose =>
    hlive k hk (by rw [hpurpose]; decide)
  constructor
  · exact hlisteners.1
  · exact hlisteners.2
  · intro fd' c hc
    obtain ⟨hpurpose, hclient⟩ := howned.client fd' c hc
    exact ⟨hpurpose, hclient.imp_right fun hclient =>
      hlive _ hclient (by rw [hpurpose]; decide)⟩
  · intro fd' state' hstate'
    by_cases heq : fd' = fd
    · simp [DaemonServer.peerEof, closeFd, heq] at hstate'
    · obtain ⟨hother, hpurpose⟩ := howned.peer fd' state'
        (by simpa [DaemonServer.peerEof, closeFd, heq] using hstate')
      exact ⟨hother.close_of_ne heq, hpurpose⟩
  · exact howned.leader.of_live rfl fun k hk hpurpose =>
      hlive k hk (by rw [hpurpose]; decide)
  · intro t ht
    obtain ⟨hheld, hpurpose, hhanded⟩ := howned.thread t ht
    exact ⟨hlive _ hheld (by rw [hpurpose]; decide), hpurpose, hhanded⟩
  · exact howned.threadsApart
  · exact howned.serving
  · exact howned.returned

theorem Owned.finishThread (howned : Owned s) {position : ℕ} {t : SlowThread}
    (ht : s.threads[position]? = some t) (env : Effects) :
    Owned (finishThread env position t s) := by
  have hsame := threadBody_sameSockets env t.command t.commandName
    t.client_sock.fd s.g_clientSocket.fd s
  have hran := howned.sameSockets hsame
  unfold DaemonServer.finishThread
  dsimp only
  generalize (threadBody (handlers env) t.command t.commandName t.client_sock.fd
    s.g_clientSocket.fd s).1 = s₁ at hran hsame ⊢
  have ht₁ : s₁.threads[position]? = some t := by
    rw [hsame.loop]
    exact ht
  obtain ⟨hlt, hget⟩ := List.getElem?_eq_some_iff.mp ht₁
  obtain ⟨hopen, hpurpose, hhanded⟩ :=
    hran.thread t (List.mem_of_getElem? ht₁)
  have hlive : ∀ k : Handle, k.Live s₁.process →
      k.connection.purpose ≠ .client →
        k.Live (s₁.process.close t.client_sock.fd) :=
    fun k hk hne => hk.close_of_ne (hk.fd_ne hopen (by rwa [hpurpose]))
  have hlisteners := hran.listeners_live fun k hk hpurpose =>
    hlive k hk (by rw [hpurpose]; decide)
  constructor
  · exact hlisteners.1
  · exact hlisteners.2
  · intro fd c hc
    obtain ⟨hclient, hstill⟩ := hran.client fd c hc
    refine ⟨hclient, ?_⟩
    by_cases heq : fd = t.client_sock.fd
    · subst heq
      have htracked : s₁.clients t.client_sock.fd = some c := hc
      exact Or.inl (hhanded (by simp [htracked]))
    · exact hstill.imp_right fun hstill => hstill.close_of_ne heq
  · intro fd state hstate
    obtain ⟨hpeer, hpurpose⟩ := hran.peer fd state hstate
    exact ⟨hlive _ hpeer (by rw [hpurpose]; decide), hpurpose⟩
  · exact hran.leader.of_live rfl fun k hk hne =>
      hlive k hk (by rw [hne]; decide)
  · intro t' ht'
    obtain ⟨hheld, hclient, hhanded'⟩ :=
      hran.thread t' (List.mem_of_mem_eraseIdx ht')
    refine ⟨hheld.close_of_ne ?_, hclient, hhanded'⟩
    intro heq
    obtain ⟨i, hi, hne, hti⟩ := List.mem_eraseIdx_iff_getElem.mp ht'
    have hi' : i < (s₁.threads.map fun t => t.client_sock.fd).length := by
      simpa using hi
    have hlt' : position < (s₁.threads.map fun t => t.client_sock.fd).length := by
      simpa using hlt
    have hsame : (s₁.threads.map fun t => t.client_sock.fd)[i] =
        (s₁.threads.map fun t => t.client_sock.fd)[position] := by
      simpa only [List.getElem_map, hti, hget] using heq
    exact hne (hran.threadsApart.getElem_inj_iff.mp hsame)
  · refine hran.threadsApart.sublist ?_
    exact (List.eraseIdx_sublist _ _).map _
  · exact hran.serving
  · exact hran.returned

end

/-! ## Runs -/

theorem owned_initial : Owned initial := by
  constructor <;> simp [initial, LeaderOwned, PeerManager.initial, Handle.Live,
    DescriptorTable.lookup]

theorem Owned.step {dump : Json → String} {s s' : DaemonState} {label : Label}
    (howned : Owned s) (hok : SlowFromClientsOnly s label)
    (hstep : step dump s label = some s') : Owned s' := by
  cases step_cases hstep with
  | setupPeerSocket succeeds => exact howned.setupPeerSocket succeeds
  | acceptClient hidle => exact howned.acceptClient hidle
  | acceptPeer ip => exact howned.acceptPeer ip
  | read reader fd connection hlookup hidle htracked =>
      obtain ⟨-, hnone⟩ := idle_iff.mp hidle
      refine ⟨howned.listener, howned.peerListener, howned.client, howned.peer,
        howned.leader, howned.thread, howned.threadsApart, ?_, ?_⟩
      · intro h hh
        obtain ⟨rfl, rfl⟩ : reader = .handle_client_data ∧
            ⟨fd, connection⟩ = h := by simpa using hh
        obtain ⟨c, hc⟩ := Option.isSome_iff_exists.mp htracked
        have hopen : s.process.fds.lookup fd = some c :=
          howned.client_live hnone hc
        rw [hlookup] at hopen
        simpa [Option.some.inj hopen] using hc
      · intro fd' res hreturned
        simp [hnone] at hreturned
  | line message env reader h _ hserving hnone hline =>
      exact howned.line hserving hnone (hok reader h hserving) hline
  | clientReturn fd res hreturned => exact howned.clientReturn hreturned
  | endRead hnone =>
      have hsettled := howned.settle (by simp [hnone]) none
        (Or.inr rfl)
      simpa only [hnone] using hsettled
  | clientEof fd hidle htracked =>
      obtain ⟨hserving, hnone⟩ := idle_iff.mp hidle
      obtain ⟨c, hc⟩ := Option.isSome_iff_exists.mp htracked
      exact (howned.unregisterLogSubscriber fd).dropClient hnone hserving hc
  | peerEof fd state hstate => exact howned.peerEof hstate
  | leaderEof =>
      unfold leaderReadFails
      split
      · exact howned.of_process _ rfl
          (fun k hlive hloop => disconnectFromLeader_live hlive
            (howned.leader.fd_not_mem hlive hloop.ne_leader))
          (leaderOwned_disconnectFromLeader _)
      · exact howned
  | finishThread position env thread hthread =>
      exact howned.finishThread hthread env
  | focusChatGPT writeFails =>
      refine howned.sameSockets ?_
      unfold triggerChromeChatGPTFocus
      split <;> exact ⟨rfl, rfl, rfl, rfl⟩
  | peerOp op =>
      exact howned.of_process _ rfl
        (fun k hlive hloop =>
          op.apply_live_of_loopPurpose hok howned.leader hlive hloop)
        (op.apply_leaderOwned hok howned.leader)
  | openOther =>
      exact howned.of_process _ rfl (fun k hlive _ => hlive.open_ .other)
        (howned.leader.of_live rfl fun k hlive _ => hlive.open_ .other)
  | closeOther fd hother =>
      have hlive : ∀ k : Handle, k.Live s.process →
          k.connection.purpose ≠ .other → k.Live (s.process.close fd) := by
        intro k hlive hpurpose
        refine hlive.close_of_purpose fun c hc => ?_
        rw [show c.purpose = .other by simpa [hc] using hother]
        exact hpurpose.symm
      exact howned.of_process _ rfl
        (fun k hk hloop => hlive k hk hloop.ne_other)
        (howned.leader.of_live rfl fun k hk hpurpose =>
          hlive k hk (by rw [hpurpose]; decide))

/-- In every run in which no slow command comes from a peer or the leader and
the peer manager closes only its own sockets, every descriptor of the select set
is open and is the connection that was recorded with it. -/
theorem selectSetLive_of_reachable {dump : Json → String} {s : DaemonState}
    (hreach : ReachableWhere (step dump) SlowFromClientsOnly initial s)
    (hidle : idle s = true) : SelectSetLive s := by
  have howned : Owned s := hreach.invariant (I := Owned)
    (fun howned hok hstep => howned.step hok hstep) owned_initial
  exact howned.selectSetLive hidle

/-- Nothing fails and every other handler answers the same. -/
def uneventful : Effects := ⟨false, fun _ _ => .ok ⟨0, "done\n"⟩⟩

/-- A local client sends a slow command and its thread finishes. -/
def clientRun : List Label :=
  [.acceptClient, .read .handle_client_data 1,
    .line (some echoRequest) uneventful, .clientReturn,
    .finishThread 0 uneventful]

theorem clientRun_selectSetLive :
    ∃ s, execute (step fun _ => "") initial clientRun = some s ∧
      SelectSetLive s := by
  have hok : AllSteps (step fun _ => "") SlowFromClientsOnly initial clientRun := by
    refine fun next hnext => ⟨trivial, ?_⟩
    obtain rfl := Option.some.inj hnext
    refine fun next hnext => ⟨trivial, ?_⟩
    obtain rfl := Option.some.inj hnext
    refine fun next hnext => ⟨?_, ?_⟩
    · rintro reader h hserving hne
      cases hserving
      exact absurd rfl hne
    · exact fun next hnext => ⟨trivial, fun next hnext => ⟨trivial, trivial⟩⟩
  exact ⟨_, rfl, selectSetLive_of_reachable
    (ReachableWhere.of_execute hok rfl) rfl⟩

/-- A peer sends a slow command: its thread closes the connection, which stays
in the loop's table. -/
def peerRun : List Label :=
  [.setupPeerSocket true, .acceptPeer "10.0.0.2", .read .handle_peer_data 2,
    .line (some echoRequest) uneventful, .endRead, .finishThread 0 uneventful]

theorem peerRun_not_selectSetLive :
    ∃ s, Reachable (step fun _ => "") initial s ∧ idle s = true ∧
      ¬ SelectSetLive s := by
  obtain ⟨s, hrun, hidle, ⟨state, hstate⟩, hclosed⟩ :
      ∃ s, execute (step fun _ => "") initial peerRun = some s ∧
        idle s = true ∧ (∃ state, s.peer_clients 2 = some state) ∧
          s.process.fds.lookup 2 = none :=
    ⟨_, rfl, rfl, ⟨_, rfl⟩, rfl⟩
  refine ⟨s, Reachable.of_execute hrun, hidle, fun hlive => ?_⟩
  have hopen := hlive.peer 2 state hstate
  simp [Handle.Live, hclosed] at hopen

end DaemonServer

end AutomateLinux
