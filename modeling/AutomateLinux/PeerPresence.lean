import AutomateLinux.DaemonServer
import AutomateLinux.TransitionSystem

/-!
# Who is online

The leader's table of peers is keyed by the peer id, the event loop's table by
the connection.  An end of file marks the peer offline whose id the connection
last gave, whichever connections have given it since.

The registrations made on peer connections are recorded beside the state of the
daemon, the latest first.  Nothing the daemon does depends on that record.
-/

namespace AutomateLinux

structure Presence where
  daemon : DaemonState
  registrations : List (String × Connection)

namespace Presence

open TransitionSystem

/-- What the leader registers on a peer connection when it processes a line. -/
def registered (s : DaemonState) : DaemonServer.Label → Option (String × Connection)
  | .line (some j) _ =>
      match s.serving with
      | some (.handle_peer_data, h) =>
          if DaemonServer.isCommand j "registerPeer" && s.pm.isLeader then
            (DaemonServer.peerRecord j).toOption.map fun record => (record.1, h.connection)
          else none
      | _ => none
  | _ => none

def step (dump : Json → String) (s : Presence) (label : DaemonServer.Label) : Option Presence :=
  (DaemonServer.step dump s.daemon label).map fun daemon =>
    ⟨daemon, (registered s.daemon label).toList ++ s.registrations⟩

def initial : Presence := ⟨DaemonServer.initial, []⟩

/-- Another connection, still open, has registered the peer since the connection
last did. -/
def Superseded (s : Presence) (peer_id : String) (c : Connection) : Prop :=
  ∃ fd state, s.daemon.peer_clients fd = some state ∧
    (peer_id, state.connection) ∈ s.registrations.takeWhile fun row => row ≠ (peer_id, c)

def isOnline (r : PeerRegistry) (peer_id : String) : Bool :=
  (r.peer_registry peer_id).any PeerRecord.is_online

/-- The peer is not marked offline and its status is not cleared. -/
def KeepsPresence (peer_id : String) (r r' : PeerRegistry) : Prop :=
  (isOnline r peer_id = true → isOnline r' peer_id = true) ∧
    ((r.peerAppStatusCache peer_id).isSome = true →
      (r'.peerAppStatusCache peer_id).isSome = true)

/-- There is nothing that marking the peer offline could change. -/
def HasNoPresence (peer_id : String) (r : PeerRegistry) : Prop :=
  isOnline r peer_id = false ∧ r.peerAppStatusCache peer_id = none

/-- An end of file of a connection that is superseded keeps the presence of the
peer. -/
def StaleEofHarmless (dump : Json → String) (s : Presence) : DaemonServer.Label → Prop
  | .peerEof fd => ∀ state after, s.daemon.peer_clients fd = some state →
      state.peer_id ≠ "" → Superseded s state.peer_id state.connection →
      step dump s (.peerEof fd) = some after →
      KeepsPresence state.peer_id s.daemon.registry after.daemon.registry
  | _ => True

/-- The end of file of a connection comes before any other open connection
registers its peer again, or finds the peer absent. -/
def EofInTime (s : Presence) : DaemonServer.Label → Prop
  | .peerEof fd => DaemonServer.idle s.daemon = true →
      ∀ state, s.daemon.peer_clients fd = some state → state.peer_id ≠ "" →
        Superseded s state.peer_id state.connection →
        HasNoPresence state.peer_id s.daemon.registry
  | _ => True

/-- What an end of file does to the peer's entries. -/
theorem registry_peerEof (fd : Fd) {state : PeerClientState} (hpeer : state.peer_id ≠ "")
    (s : DaemonState) :
    isOnline (DaemonServer.peerEof fd state s).registry state.peer_id = false ∧
      (DaemonServer.peerEof fd state s).registry.peerAppStatusCache state.peer_id = none := by
  unfold DaemonServer.peerEof isOnline
  simp only [hpeer, if_false]
  refine ⟨?_, by simp [AppManager.clearPeerAppStatus]⟩
  simp only [AppManager.clearPeerAppStatus, PeerTable.updateOnlineStatus, PeerTable.updateRow,
    Function.update_self]
  cases s.registry.peer_registry state.peer_id <;> rfl

theorem keepsPresence_iff {peer_id : String} {r r' : PeerRegistry}
    (hoffline : isOnline r' peer_id = false) (hcleared : r'.peerAppStatusCache peer_id = none) :
    KeepsPresence peer_id r r' ↔ HasNoPresence peer_id r := by
  simp [KeepsPresence, HasNoPresence, hoffline, hcleared]

theorem staleEofHarmless_iff (dump : Json → String) (s : Presence) (label : DaemonServer.Label) :
    StaleEofHarmless dump s label ↔ EofInTime s label := by
  cases label with
  | peerEof fd =>
      constructor
      · intro hharmless hidle state hstate hpeer hsuperseded
        have hstep : step dump s (.peerEof fd) =
            some ⟨DaemonServer.peerEof fd state s.daemon, s.registrations⟩ := by
          simp [step, DaemonServer.step, hstate, hidle, registered]
        obtain ⟨hoffline, hcleared⟩ := registry_peerEof fd hpeer s.daemon
        exact (keepsPresence_iff hoffline hcleared).mp
          (hharmless state _ hstate hpeer hsuperseded hstep)
      · intro hinTime state after hstate hpeer hsuperseded hstep
        cases hidle : DaemonServer.idle s.daemon with
        | false => simp [step, DaemonServer.step, hstate, hidle] at hstep
        | true =>
            obtain rfl : (⟨DaemonServer.peerEof fd state s.daemon, s.registrations⟩ : Presence) =
                after := by
              simpa [step, DaemonServer.step, hstate, hidle, registered] using hstep
            obtain ⟨hoffline, hcleared⟩ := registry_peerEof fd hpeer s.daemon
            exact (keepsPresence_iff hoffline hcleared).mpr
              (hinTime hidle state hstate hpeer hsuperseded)
  | _ => exact Iff.rfl

/-- Along any run, no end of file of a superseded connection takes the peer's
presence away exactly when every end of file comes in time. -/
theorem allSteps_staleEofHarmless_iff (dump : Json → String) (labels : List DaemonServer.Label) :
    AllSteps (step dump) (StaleEofHarmless dump) initial labels ↔
      AllSteps (step dump) EofInTime initial labels :=
  allSteps_congr (staleEofHarmless_iff dump _ _)

def nothingElse : Effects := ⟨false, fun _ _ => .ok ⟨0, ""⟩⟩

def registerPeerAs (peer_id : String) : Json :=
  .object [("command", .string "registerPeer"), ("peer_id", .string peer_id)]

/-- A worker registers, connects again and registers again. -/
def registeredTwice : List DaemonServer.Label :=
  [.setupPeerSocket true, .peerOp (.loadConfig PEER_ROLE_LEADER "" ""),
    .acceptPeer "10.0.0.2", .read .handle_peer_data 2,
    .line (some (registerPeerAs "laptop")) nothingElse, .endRead,
    .acceptPeer "10.0.0.2", .read .handle_peer_data 3,
    .line (some (registerPeerAs "laptop")) nothingElse, .endRead]

/-- The old connection is superseded and the peer is online. -/
def oldConnectionIsStale (s : Presence) : Bool :=
  DaemonServer.idle s.daemon && isOnline s.daemon.registry "laptop" &&
    (s.daemon.peer_clients 2).any fun old =>
      old.peer_id = "laptop" &&
        (s.daemon.peer_clients 3).any fun new =>
          ("laptop", new.connection) ∈
            s.registrations.takeWhile fun row => row ≠ ("laptop", old.connection)

/-- The end of file of the first connection marks the worker offline. -/
theorem lateEof_takesPresence :
    ¬ ∀ dump labels, AllSteps (step dump) (StaleEofHarmless dump) initial labels := by
  intro hall
  have hrun : (execute (step fun _ => "") initial registeredTwice).any oldConnectionIsStale =
      true := by
    decide +kernel
  obtain ⟨s, hs, hstale⟩ := (Option.any_eq_true _ _).mp hrun
  simp only [oldConnectionIsStale, Bool.and_eq_true, Option.any_eq_true, decide_eq_true_eq]
    at hstale
  obtain ⟨⟨hidle, honline⟩, old, hold, hpeer, new, hnew, hlater⟩ := hstale
  have hlast := ((hall (fun _ => "") (registeredTwice ++ [.peerEof 2])).append hs).2
  obtain ⟨hharmless, -⟩ := hlast
    ⟨DaemonServer.peerEof 2 old s.daemon, s.registrations⟩
    (by simp [step, DaemonServer.step, hold, hidle, registered])
  have hnone := (staleEofHarmless_iff _ _ _).mp hharmless hidle old hold (by simp [hpeer])
    ⟨3, new, hnew, hpeer ▸ hlater⟩
  rw [hpeer] at hnone
  rw [hnone.1] at honline
  cases honline

end Presence

end AutomateLinux
