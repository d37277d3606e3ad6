import AutomateLinux.PeerManager
import AutomateLinux.TransitionSystem

/-!
# The flag and the socket of the leader connection

`reconnectLoop` decides from `m_connectedToLeader` alone whether to connect
again, so the flag must not be set without a socket.  The operations on the
connection are the labels of a transition system in which other parts of the
daemon open and close descriptors of their own.
-/

namespace AutomateLinux

namespace LeaderLink

open TransitionSystem PeerState

/-- The operations that touch the leader connection, with their outcomes, and
the rest of the daemon using descriptors for itself. -/
inductive Op
  | loadConfig (role id addr : String)
  | setPeerConfig (command : Json) (outcome : ConnectOutcome)
  | registerWorker (hostname : String) (outcome : ConnectOutcome)
  | connectToLeader (outcome : ConnectOutcome)
  | connectIfDisconnected (outcome : ConnectOutcome)
  | disconnectFromLeader
  | sendToLeader (writeSucceeds : Bool)
  | leaderReadFails
  | reconnectAttempt (outcome : ConnectOutcome)
  | reconnectHeartbeat (writeSucceeds : Bool)
  | openDescriptor (purpose : Purpose)
  | closeDescriptor (fd : Fd)

/-- The leader connection's descriptor is opened and closed by the peer manager
only. -/
def step (s : PeerState) : Op → Option PeerState
  | .loadConfig role id addr => some (s.loadConfig role id addr)
  | .setPeerConfig command outcome =>
      some (s.handleSetPeerConfig command outcome).2
  | .registerWorker hostname outcome =>
      some (s.handleRegisterWorker hostname outcome).2
  | .connectToLeader outcome => some (s.connectToLeader outcome).2
  | .connectIfDisconnected outcome => some (s.connectIfDisconnected outcome)
  | .disconnectFromLeader => some s.disconnectFromLeader
  | .sendToLeader writeSucceeds => some (s.sendToLeader writeSucceeds).2
  | .leaderReadFails => some s.leaderReadFails
  | .reconnectAttempt outcome => some (s.reconnectAttempt outcome)
  | .reconnectHeartbeat writeSucceeds =>
      some (s.reconnectHeartbeat writeSucceeds)
  | .openDescriptor purpose =>
      if purpose = .leader then none
      else some { s with process := (s.process.open_ purpose).2 }
  | .closeDescriptor fd =>
      if (s.process.fds.lookup fd).all fun c => c.purpose ≠ .leader then
        some { s with process := s.process.close fd }
      else none

/-- The daemon before its configuration is loaded. -/
def initial : PeerState := ⟨PeerManager.initial, ⟨⟨[]⟩, 0⟩⟩

/-- The flag implies an open socket, and a worker without a socket connects at
the next iteration of `reconnectLoop`. -/
structure Sound (s : PeerState) : Prop where
  connected : s.pm.m_connectedToLeader = true →
    ∃ h, s.pm.m_leaderSocket = some h ∧ h.Live s.process
  retried : s.pm.isLeader = false → s.pm.m_leaderSocket = none →
    ∀ outcome, s.reconnectAttempt outcome = (s.connectToLeader outcome).2

/-- The attempt an operation makes to connect, past the guards, while the flag
is set. -/
def reconnects (s : PeerState) : Op → Option ConnectOutcome
  | .setPeerConfig command outcome =>
      match s.applyConfig command with
      | (.ok none, s) => if s.configuredWorker then some outcome else none
      | _ => none
  | .registerWorker _ outcome => some outcome
  | .connectToLeader outcome => if s.canConnect then some outcome else none
  | _ => none

/-- No attempt to connect again fails. -/
def NoFailedReconnect (s : PeerState) (op : Op) : Prop :=
  s.pm.m_connectedToLeader = true →
    ∀ outcome, reconnects s op = some outcome → outcome.succeeds = true

/-! ## The invariant -/

/-- The flag is set exactly when there is a socket, which is then open. -/
structure Inv (s : PeerState) : Prop where
  socket : s.pm.m_connectedToLeader = true → s.pm.m_leaderSocket.isSome = true
  live : ∀ h, s.pm.m_leaderSocket = some h →
    h.Live s.process ∧ h.connection.purpose = .leader

theorem Inv.sound {s : PeerState} (hinv : Inv s) : Sound s where
  connected := fun hflag => by
    obtain ⟨h, hsocket⟩ := Option.isSome_iff_exists.mp (hinv.socket hflag)
    exact ⟨h, hsocket, (hinv.live h hsocket).1⟩
  retried := fun hworker hnone outcome => by
    have hflag : s.pm.m_connectedToLeader = false := by
      by_contra hset
      have hsome := hinv.socket (by simpa using hset)
      simp [hnone] at hsome
    simp [reconnectAttempt, hworker, hflag]

theorem Inv.of_same_link {s s' : PeerState} (hinv : Inv s)
    (hflag : s'.pm.m_connectedToLeader = s.pm.m_connectedToLeader)
    (hsocket : s'.pm.m_leaderSocket = s.pm.m_leaderSocket)
    (hprocess : s'.process = s.process) : Inv s' where
  socket := by
    rw [hflag, hsocket]
    exact hinv.socket
  live := by
    rw [hsocket, hprocess]
    exact hinv.live

theorem applyConfig_same_link (s : PeerState) (command : Json) :
    (s.applyConfig command).2.pm.m_connectedToLeader =
        s.pm.m_connectedToLeader ∧
      (s.applyConfig command).2.pm.m_leaderSocket = s.pm.m_leaderSocket ∧
      (s.applyConfig command).2.process = s.process := by
  obtain ⟨role, id, addr, heq⟩ := applyConfig_eq_loadConfig command s
  rw [heq]
  exact ⟨rfl, rfl, rfl⟩

theorem Inv.disconnectFromLeader {s : PeerState} (_ : Inv s) :
    Inv s.disconnectFromLeader := by
  unfold PeerState.disconnectFromLeader
  cases hsocket : s.pm.m_leaderSocket with
  | none => exact ⟨by simp, by simp [hsocket]⟩
  | some h => exact ⟨by simp, by simp⟩

theorem Inv.sendToLeader {s : PeerState} (hinv : Inv s) (writeSucceeds : Bool) :
    Inv (s.sendToLeader writeSucceeds).2 := by
  unfold PeerState.sendToLeader
  split
  · exact hinv
  · split
    · exact hinv
    · exact hinv.disconnectFromLeader

theorem inv_openLeaderSocket_connected (s : PeerState)
    (registrationSent : Bool) :
    Inv (s.openLeaderSocket (.connected registrationSent)).2 := by
  refine Inv.sendToLeader ⟨fun _ => rfl, ?_⟩ registrationSent
  rintro h hsocket
  obtain rfl : (s.process.open_ .leader).1 = h := Option.some.inj hsocket
  exact ⟨s.process.open_live .leader, rfl⟩

theorem closeLeaderSocket_link (s : PeerState) :
    s.closeLeaderSocket.pm.m_leaderSocket = none ∧
      s.closeLeaderSocket.pm.m_connectedToLeader =
        s.pm.m_connectedToLeader := by
  unfold PeerState.closeLeaderSocket
  cases hsocket : s.pm.m_leaderSocket with
  | none => exact ⟨hsocket, rfl⟩
  | some h => exact ⟨rfl, rfl⟩

theorem connectToLeader_of_fails {s : PeerState} {outcome : ConnectOutcome}
    (hcan : s.canConnect = true) (hfails : outcome.succeeds = false) :
    (s.connectToLeader outcome).2.pm.m_leaderSocket = none ∧
      (s.connectToLeader outcome).2.pm.m_connectedToLeader =
        s.pm.m_connectedToLeader := by
  obtain ⟨hsocket, hflag⟩ := closeLeaderSocket_link s
  simp only [PeerState.connectToLeader, hcan, Bool.not_true, Bool.false_eq_true,
    if_false]
  cases outcome with
  | socketFails => exact ⟨hsocket, hflag⟩
  | addressInvalid => exact ⟨hsocket, hflag⟩
  | connectFails => exact ⟨hsocket, hflag⟩
  | connected registrationSent => simp [ConnectOutcome.succeeds] at hfails

theorem Inv.connectToLeader {s : PeerState} (hinv : Inv s)
    (outcome : ConnectOutcome)
    (hok : s.pm.m_connectedToLeader = true → s.canConnect = true →
      outcome.succeeds = true) : Inv (s.connectToLeader outcome).2 := by
  cases hcan : s.canConnect with
  | false => simpa [PeerState.connectToLeader, hcan] using hinv
  | true =>
      cases hsucceeds : outcome.succeeds with
      | false =>
          obtain ⟨hsocket, hflag⟩ := connectToLeader_of_fails hcan hsucceeds
          have hclear : s.pm.m_connectedToLeader = false := by
            by_contra hset
            have := hok (by simpa using hset) hcan
            simp [hsucceeds] at this
          exact ⟨by simp [hflag, hclear], by simp [hsocket]⟩
      | true =>
          cases outcome with
          | connected registrationSent =>
              simp only [PeerState.connectToLeader, hcan, Bool.not_true,
                Bool.false_eq_true, if_false]
              exact inv_openLeaderSocket_connected _ registrationSent
          | socketFails => simp [ConnectOutcome.succeeds] at hsucceeds
          | addressInvalid => simp [ConnectOutcome.succeeds] at hsucceeds
          | connectFails => simp [ConnectOutcome.succeeds] at hsucceeds

theorem Inv.open_ {s : PeerState} (hinv : Inv s) (purpose : Purpose) :
    Inv { s with process := (s.process.open_ purpose).2 } where
  socket := hinv.socket
  live := fun h hsocket => by
    obtain ⟨hlive, hpurpose⟩ := hinv.live h hsocket
    exact ⟨hlive.open_ purpose, hpurpose⟩

theorem Inv.close {s : PeerState} (hinv : Inv s) {fd : Fd}
    (hother : (s.process.fds.lookup fd).all fun c => c.purpose ≠ .leader) :
    Inv { s with process := s.process.close fd } where
  socket := hinv.socket
  live := fun h hsocket => by
    obtain ⟨hlive, hpurpose⟩ := hinv.live h hsocket
    refine ⟨hlive.close_of_purpose fun c hc => ?_, hpurpose⟩
    rw [hpurpose]
    simpa [hc] using hother

/-! ## Runs -/

/-- `setPeerConfig` reduces to its attempt to connect. -/
theorem handleSetPeerConfig_eq (s : PeerState) (command : Json)
    (outcome : ConnectOutcome) :
    (s.handleSetPeerConfig command outcome).2 =
      match s.applyConfig command with
      | (.ok none, s) =>
          if s.configuredWorker then (s.connectToLeader outcome).2 else s
      | (_, s) => s := by
  unfold PeerState.handleSetPeerConfig
  split
  · rename_i heq
    simp [heq]
  · rename_i heq
    simp [heq]
  · rename_i heq
    simp only [heq]
    split
    · split <;> simp_all
    · rfl

theorem handleRegisterWorker_eq (s : PeerState) (hostname : String)
    (outcome : ConnectOutcome) :
    (s.handleRegisterWorker hostname outcome).2 =
      ((((s.setRole PEER_ROLE_WORKER).setPeerId hostname).setLeaderAddress
        WG_LEADER_IP).connectToLeader outcome).2 := by
  unfold PeerState.handleRegisterWorker
  dsimp only
  split <;> simp_all

theorem canConnect_of_configuredWorker {s : PeerState}
    (hworker : s.configuredWorker = true) : s.canConnect = true := by
  simp only [configuredWorker, Bool.and_eq_true, decide_eq_true_eq] at hworker
  obtain ⟨hrole, haddress⟩ := hworker
  simp [canConnect, PeerManager.isLeader, hrole, haddress, PEER_ROLE_WORKER,
    PEER_ROLE_LEADER]

theorem Inv.step {s s' : PeerState} {op : Op} (hinv : Inv s)
    (hok : NoFailedReconnect s op) (hstep : step s op = some s') : Inv s' := by
  cases op with
  | loadConfig role id addr =>
      obtain rfl := Option.some.inj hstep
      exact hinv.of_same_link rfl rfl rfl
  | setPeerConfig command outcome =>
      obtain rfl := Option.some.inj hstep
      obtain ⟨hflag, hsocket, hprocess⟩ := applyConfig_same_link s command
      rw [handleSetPeerConfig_eq]
      have hconfigured := hinv.of_same_link hflag hsocket hprocess
      split
      · rename_i heq
        rw [heq] at hconfigured hflag
        split
        · rename_i hworker
          refine hconfigured.connectToLeader outcome fun hset _ => ?_
          refine hok (hflag ▸ hset) outcome ?_
          simp [reconnects, heq, hworker]
        · exact hconfigured
      · rename_i heq
        rw [heq] at hconfigured
        exact hconfigured
  | registerWorker hostname outcome =>
      obtain rfl := Option.some.inj hstep
      rw [handleRegisterWorker_eq]
      have hworker : Inv (((s.setRole PEER_ROLE_WORKER).setPeerId
          hostname).setLeaderAddress WG_LEADER_IP) :=
        hinv.of_same_link rfl rfl rfl
      exact hworker.connectToLeader outcome fun hset _ => hok hset outcome rfl
  | connectToLeader outcome =>
      obtain rfl := Option.some.inj hstep
      refine hinv.connectToLeader outcome fun hset hcan => hok hset outcome ?_
      simp [reconnects, hcan]
  | connectIfDisconnected outcome =>
      obtain rfl := Option.some.inj hstep
      unfold PeerState.connectIfDisconnected
      split
      · rename_i hdisconnected
        refine hinv.connectToLeader outcome fun hset _ => ?_
        simp [hset] at hdisconnected
      · exact hinv
  | disconnectFromLeader =>
      obtain rfl := Option.some.inj hstep
      exact hinv.disconnectFromLeader
  | sendToLeader writeSucceeds =>
      obtain rfl := Option.some.inj hstep
      exact hinv.sendToLeader writeSucceeds
  | leaderReadFails =>
      obtain rfl := Option.some.inj hstep
      unfold PeerState.leaderReadFails
      split
      · exact hinv.disconnectFromLeader
      · exact hinv
  | reconnectAttempt outcome =>
      obtain rfl := Option.some.inj hstep
      unfold PeerState.reconnectAttempt
      split
      · exact hinv
      · split
        · rename_i hdisconnected
          refine hinv.connectToLeader outcome fun hset _ => ?_
          simp [hset] at hdisconnected
        · exact hinv
  | reconnectHeartbeat writeSucceeds =>
      obtain rfl := Option.some.inj hstep
      unfold PeerState.reconnectHeartbeat
      split
      · exact hinv.sendToLeader writeSucceeds
      · exact hinv
  | openDescriptor purpose =>
      simp only [LeaderLink.step] at hstep
      split at hstep
      · contradiction
      · obtain rfl := Option.some.inj hstep
        exact hinv.open_ purpose
  | closeDescriptor fd =>
      simp only [LeaderLink.step] at hstep
      split at hstep
      · rename_i hother
        obtain rfl := Option.some.inj hstep
        exact hinv.close hother
      · contradiction

/-- The state a failed attempt leaves while the flag is set. -/
theorem not_sound_of_failed {s : PeerState} {outcome : ConnectOutcome}
    (hset : s.pm.m_connectedToLeader = true) (hcan : s.canConnect = true)
    (hfails : outcome.succeeds = false) :
    ¬ Sound (s.connectToLeader outcome).2 := by
  obtain ⟨hsocket, hflag⟩ := connectToLeader_of_fails hcan hfails
  intro hsound
  obtain ⟨h, hsome, -⟩ := hsound.connected (hflag.trans hset)
  simp [hsocket] at hsome

theorem not_sound_of_step {s s' : PeerState} {op : Op}
    (hfailed : ¬ NoFailedReconnect s op) (hstep : step s op = some s') :
    ¬ Sound s' := by
  obtain ⟨hset, outcome, hattempt, hfails⟩ :
      s.pm.m_connectedToLeader = true ∧ ∃ outcome,
        reconnects s op = some outcome ∧ outcome.succeeds = false := by
    simpa [NoFailedReconnect] using hfailed
  cases op with
  | loadConfig role id addr => simp [reconnects] at hattempt
  | setPeerConfig command outcome' =>
      obtain rfl := Option.some.inj hstep
      obtain ⟨hflag, -⟩ := applyConfig_same_link s command
      rw [handleSetPeerConfig_eq]
      simp only [reconnects] at hattempt
      split at hattempt
      · rename_i heq
        rw [heq] at hflag
        split at hattempt
        · rename_i hworker
          obtain rfl := Option.some.inj hattempt
          simp only [heq, hworker, if_true]
          exact not_sound_of_failed (hflag.trans hset)
            (canConnect_of_configuredWorker hworker) hfails
        · contradiction
      · contradiction
  | registerWorker hostname outcome' =>
      obtain rfl := Option.some.inj hstep
      obtain rfl := Option.some.inj hattempt
      rw [handleRegisterWorker_eq]
      refine not_sound_of_failed hset ?_ hfails
      simp [canConnect, PeerManager.isLeader, setRole, setPeerId,
        setLeaderAddress, PEER_ROLE_WORKER, PEER_ROLE_LEADER, WG_LEADER_IP]
  | connectToLeader outcome' =>
      obtain rfl := Option.some.inj hstep
      simp only [reconnects] at hattempt
      split at hattempt
      · rename_i hcan
        obtain rfl := Option.some.inj hattempt
        exact not_sound_of_failed hset hcan hfails
      · contradiction
  | connectIfDisconnected outcome' => simp [reconnects] at hattempt
  | disconnectFromLeader => simp [reconnects] at hattempt
  | sendToLeader writeSucceeds => simp [reconnects] at hattempt
  | leaderReadFails => simp [reconnects] at hattempt
  | reconnectAttempt outcome' => simp [reconnects] at hattempt
  | reconnectHeartbeat writeSucceeds => simp [reconnects] at hattempt
  | openDescriptor purpose => simp [reconnects] at hattempt
  | closeDescriptor fd => simp [reconnects] at hattempt

theorem inv_initial : Inv initial :=
  ⟨by simp [initial, PeerManager.initial], by simp [initial, PeerManager.initial]⟩

/-- Along any run, the flag and the socket agree in every state, and a worker
without a socket is always about to be reconnected, exactly when no attempt to
connect again that is made while the flag is set fails. -/
theorem allStates_sound_iff (ops : List Op) :
    AllStates step Sound initial ops ↔
      AllSteps step NoFailedReconnect initial ops :=
  allStates_iff_allSteps Inv.sound Inv.step
    (fun _ hfailed hstep => not_sound_of_step hfailed hstep) inv_initial ops

/-- A worker registers with its leader, and registers again while the leader is
unreachable: the flag stays set without a socket, and `reconnectLoop` leaves it
at that. -/
theorem registerWorker_twice_not_sound :
    ¬ AllStates step Sound initial
      [.registerWorker "laptop" (.connected true),
        .registerWorker "laptop" .connectFails] := by
  intro hall
  obtain ⟨-, hrest⟩ := hall
  obtain ⟨-, hlast⟩ := hrest _ rfl
  obtain ⟨h, hsocket, -⟩ := (hlast _ rfl).connected rfl
  cases hsocket

end LeaderLink

end AutomateLinux
