import AutomateLinux.PeerManager
import AutomateLinux.PeerTable

/-!
# Running a shell command on a peer

`handleExecOnPeer` writes a request to the peer's socket and waits for the
answer, and does so a second time when the first attempt fails.  It takes a
connection that breaks before the answer for a stale one that the request never
got through, whether or not the peer has received the request.
-/

namespace AutomateLinux

namespace ExecOnPeer

open PeerState

def COMMAND_EXEC_REQUEST : String := "execRequest"

def COMMAND_ARG_PEER : String := "peer"

def COMMAND_ARG_DIRECTORY : String := "directory"

def COMMAND_ARG_SHELL_CMD : String := "shellCmd"

/-- What a query to the leader meets: its write, and the text of the answer,
empty when none comes. -/
structure LeaderAnswer where
  writeSucceeds : Bool
  response : String

/-- A write can succeed on a connection that is already broken. -/
inductive SendOutcome
  | failed | lost | delivered
deriving DecidableEq

inductive Errno
  | wouldBlock
  | other (text : String)
deriving DecidableEq

/-- What `read` returns; at the end of the stream `errno` is left as it was. -/
inductive ReadOutcome
  | received (text : String)
  | ended (errno : Errno)
  | failed (errno : Errno)
deriving DecidableEq

/-- `n == 0 || (errno != EAGAIN && errno != EWOULDBLOCK)`, for `n <= 0`. -/
def ReadOutcome.isConnectionError : ReadOutcome → Bool
  | received _ => false
  | ended _ => true
  | failed errno => errno ≠ .wouldBlock

/-- What one attempt meets. -/
structure Attempt where
  leader : LeaderAnswer
  outcome : ConnectOutcome
  send : SendOutcome
  read : ReadOutcome

/-- The command returns, or the loop goes on to the next attempt. -/
inductive Exit
  | answer (result : CmdResult)
  | again

section

variable (parse : String → Option Json)

/-- The address in the leader's answer; a typed read that throws is caught. -/
def addressIn (response : String) : String :=
  match (parse response).bind fun parsed => parsed.find? "ip_address" with
  | some (.string ip) => ip
  | _ => ""

def queryLeaderForPeerIP (leader : LeaderAnswer) (s : PeerState) : String × PeerState :=
  if !s.pm.m_connectedToLeader then ("", s)
  else
    match s.sendToLeader leader.writeSucceeds with
    | (false, s) => ("", s)
    | (true, s) => (if leader.response = "" then "" else addressIn parse leader.response, s)

def getPeerInfo (s : PeerState) (peer_id : String) : PeerInfo :=
  (s.pm.m_peers peer_id).getD ⟨"", "", "", "", false, none⟩

/-- `!(peer.peer_id.empty() || peer.socket_fd < 0)`. -/
def isConnected (s : PeerState) (peer_id : String) : Bool :=
  (getPeerInfo s peer_id).peer_id ≠ "" && (getPeerInfo s peer_id).socket_fd.isSome

/-- The address a connection is made to. -/
def peerAddress (registry : PeerRegistry) (leader : LeaderAnswer) (peer_id : String)
    (s : PeerState) : Except CmdResult String × PeerState :=
  if s.pm.isLeader then
    match registry.peer_registry peer_id with
    | none => (.error ⟨1, "Peer not found: " ++ peer_id ++ "\n"⟩, s)
    | some row =>
        if peer_id = "" then (.error ⟨1, "Peer not found: " ++ peer_id ++ "\n"⟩, s)
        else if row.ip_address = "" then
          (.error ⟨1, "Peer has no IP address: " ++ peer_id ++ "\n"⟩, s)
        else (.ok row.ip_address, s)
  else if !s.pm.m_connectedToLeader then (.error ⟨1, "Not connected to leader\n"⟩, s)
  else
    match queryLeaderForPeerIP parse leader s with
    | (ip, s) =>
        if ip = "" then
          (.error ⟨1, "Peer not found or leader unavailable: " ++ peer_id ++ "\n"⟩, s)
        else (.ok ip, s)

/-- The first part of an attempt: a connection in memory, or one made now. -/
def connect (registry : PeerRegistry) (attempt : ℕ) (env : Attempt) (peer_id : String)
    (s : PeerState) : Except Exit Unit × PeerState :=
  if isConnected s peer_id then (.ok (), s)
  else
    match peerAddress parse registry env.leader peer_id s with
    | (.error result, s) => (.error (.answer result), s)
    | (.ok ip, s) =>
        match s.connectToPeer peer_id ip env.outcome with
        | (true, s) => (.ok (), s)
        | (false, s) =>
            if attempt = 0 then (.error .again, s)
            else
              (.error (.answer ⟨1, "Failed to connect to peer: " ++ peer_id ++ " (" ++ ip ++
                ")\n"⟩), s)

end

/-- The second part; the list is what the peer receives. -/
def send (attempt : ℕ) (env : Attempt) (peer_id : String) (execRequest : Json)
    (s : PeerState) : Except Exit Unit × List Json × PeerState :=
  match s.sendToPeer peer_id (env.send ≠ .failed) with
  | (true, s) => (.ok (), if env.send = .delivered then [execRequest] else [], s)
  | (false, s) =>
      if attempt = 0 then (.error .again, [], s)
      else (.error (.answer ⟨1, "Failed to send command to peer: " ++ peer_id ++ "\n"⟩), [], s)

def readError (peer_id : String) : Errno → CmdResult
  | .wouldBlock => ⟨1, "Timeout waiting for response from " ++ peer_id ++ "\n"⟩
  | .other text => ⟨1, "Failed to read response from " ++ peer_id ++ ": " ++ text ++ "\n"⟩

/-- The last part: a connection error clears the connection and, on the first
attempt, leads to another one. -/
def readResponse (attempt : ℕ) (env : Attempt) (peer_id : String) (s : PeerState) :
    Exit × PeerState :=
  match env.read with
  | .received text => (.answer ⟨0, text⟩, s)
  | .ended errno =>
      let s := s.unregisterPeer peer_id
      if attempt = 0 then (.again, s) else (.answer (readError peer_id errno), s)
  | .failed .wouldBlock => (.answer (readError peer_id .wouldBlock), s)
  | .failed (.other text) =>
      let s := s.unregisterPeer peer_id
      if attempt = 0 then (.again, s) else (.answer (readError peer_id (.other text)), s)

section

variable (parse : String → Option Json) (registry : PeerRegistry)

/-- One round of the loop. -/
def execAttempt (attempt : ℕ) (env : Attempt) (peer_id : String) (execRequest : Json)
    (s : PeerState) : Exit × List Json × PeerState :=
  match connect parse registry attempt env peer_id s with
  | (.error exit, s) => (exit, [], s)
  | (.ok (), s) =>
      match send attempt env peer_id execRequest s with
      | (.error exit, delivered, s) => (exit, delivered, s)
      | (.ok (), delivered, s) =>
          match readResponse attempt env peer_id s with
          | (exit, s) => (exit, delivered, s)

/-- `for (int attempt = 0; attempt < 2; ++attempt)`, with what the attempts meet. -/
def execLoop (peer_id : String) (execRequest : Json) :
    ℕ → List Attempt → PeerState → CmdResult × List Json × PeerState
  | _, [], s => (⟨1, "Unknown error in handleExecOnPeer\n"⟩, [], s)
  | attempt, env :: envs, s =>
      match execAttempt parse registry attempt env peer_id execRequest s with
      | (.answer result, delivered, s) => (result, delivered, s)
      | (.again, delivered, s) =>
          match execLoop peer_id execRequest (attempt + 1) envs s with
          | (result, more, s) => (result, delivered ++ more, s)

/-- The message the peer is sent. -/
def requestFor (directory cmd : String) : Json :=
  .object [("command", .string COMMAND_EXEC_REQUEST),
    (COMMAND_ARG_DIRECTORY, .string directory), (COMMAND_ARG_SHELL_CMD, .string cmd)]

/-- A required argument; one that is missing does not get past
`validateCommand`. -/
def argument (command : Json) (key : String) : Except Exn String :=
  ((command.find? key).getD .null).getString

/-- The result, what the peer has received, and the peer manager afterwards. -/
def handleExecOnPeer (command : Json) (first second : Attempt) (s : PeerState) :
    Except Exn CmdResult × List Json × PeerState :=
  match argument command COMMAND_ARG_PEER, argument command COMMAND_ARG_DIRECTORY,
      argument command COMMAND_ARG_SHELL_CMD with
  | .error e, _, _ => (.error e, [], s)
  | _, .error e, _ => (.error e, [], s)
  | _, _, .error e => (.error e, [], s)
  | .ok peer_id, .ok directory, .ok cmd =>
      match execLoop parse registry peer_id (requestFor directory cmd) 0 [first, second] s with
      | (result, delivered, s) => (.ok result, delivered, s)

end

/-! ## When the peer receives the command twice -/

section

variable (parse : String → Option Json) (registry : PeerRegistry)

def hasSocket (s : PeerState) (peer_id : String) : Bool :=
  ((s.pm.m_peers peer_id).bind PeerInfo.socket_fd).isSome

def addressKnown (leader : LeaderAnswer) (peer_id : String) (s : PeerState) : Bool :=
  (peerAddress parse registry leader peer_id s).1.isOk

/-- The attempt finds a connection or makes one. -/
def reaches (env : Attempt) (peer_id : String) (s : PeerState) : Bool :=
  isConnected s peer_id ||
    addressKnown parse registry env.leader peer_id s &&
      (hasSocket s peer_id || env.outcome.succeeds)

/-- The peer receives the first request, the connection breaks before its
answer, and the second request arrives over a new connection. -/
def resendsDelivered (first second : Attempt) (peer_id : String) (s : PeerState) : Bool :=
  reaches parse registry first peer_id s && first.send = .delivered &&
    first.read.isConnectionError && addressKnown parse registry second.leader peer_id s &&
    second.outcome.succeeds && second.send = .delivered

end

section

variable {parse : String → Option Json} {registry : PeerRegistry} {env : Attempt}
  {peer_id : String} {execRequest : Json} {s s' : PeerState}

theorem hasSocket_of_isConnected (hconnected : isConnected s peer_id = true) :
    hasSocket s peer_id = true := by
  unfold isConnected getPeerInfo at hconnected
  unfold hasSocket
  cases hinfo : s.pm.m_peers peer_id with
  | none => simp [hinfo] at hconnected
  | some info => simpa [hinfo] using (Bool.and_eq_true_iff.mp hconnected).2

theorem isConnected_of_not_hasSocket (hsocket : hasSocket s peer_id = false) :
    isConnected s peer_id = false := by
  by_contra hconnected
  rw [hasSocket_of_isConnected (by simpa using hconnected)] at hsocket
  contradiction

theorem queryLeaderForPeerIP_state {leader : LeaderAnswer} {ip : String}
    (hquery : queryLeaderForPeerIP parse leader s = (ip, s')) (hip : ip ≠ "") : s' = s := by
  unfold queryLeaderForPeerIP sendToLeader at hquery
  split at hquery
  · exact (Prod.mk.inj hquery).2.symm
  · split at hquery
    · exact absurd (Prod.mk.inj hquery).1.symm hip
    · rename_i heq
      split at heq
      · simp at heq
      · split at heq
        · rw [← (Prod.mk.inj heq).2] at hquery
          exact (Prod.mk.inj hquery).2.symm
        · simp at heq

theorem peerAddress_state {leader : LeaderAnswer} {ip : String}
    (haddress : peerAddress parse registry leader peer_id s = (.ok ip, s')) : s' = s := by
  unfold peerAddress at haddress
  split at haddress
  · split at haddress
    · simp at haddress
    · split at haddress
      · simp at haddress
      · split at haddress
        · simp at haddress
        · exact (Prod.mk.inj haddress).2.symm
  · split at haddress
    · simp at haddress
    · split at haddress
      rename_i hquery
      split at haddress
      · simp at haddress
      · rename_i hip
        rw [← (Prod.mk.inj haddress).2]
        exact queryLeaderForPeerIP_state hquery hip

theorem connectToPeer_hasSocket {ip : String} {outcome : ConnectOutcome}
    (hconnect : s.connectToPeer peer_id ip outcome = (true, s')) :
    hasSocket s' peer_id = true := by
  unfold connectToPeer at hconnect
  split at hconnect
  · rename_i hsocket
    rw [← (Prod.mk.inj hconnect).2, hasSocket, hsocket]
    rfl
  · split at hconnect
    · simp at hconnect
    · simp at hconnect
    · simp at hconnect
    · rw [← (Prod.mk.inj hconnect).2]
      simp [hasSocket, registerPeer]

theorem connectToPeer_fst {ip : String} (outcome : ConnectOutcome) :
    (s.connectToPeer peer_id ip outcome).1 =
      (hasSocket s peer_id || outcome.succeeds) := by
  unfold connectToPeer hasSocket
  cases (s.pm.m_peers peer_id).bind PeerInfo.socket_fd with
  | some h => rfl
  | none => cases outcome <;> rfl

/-- The connection to the leader is as it was. -/
structure SameLeader (s s' : PeerState) : Prop where
  role : s'.pm.m_role = s.pm.m_role
  connected : s'.pm.m_connectedToLeader = s.pm.m_connectedToLeader
  socket : s'.pm.m_leaderSocket = s.pm.m_leaderSocket

theorem SameLeader.refl (s : PeerState) : SameLeader s s := ⟨rfl, rfl, rfl⟩

theorem SameLeader.trans {s'' : PeerState} (hfirst : SameLeader s s')
    (hsecond : SameLeader s' s'') : SameLeader s s'' :=
  ⟨hsecond.role.trans hfirst.role, hsecond.connected.trans hfirst.connected,
    hsecond.socket.trans hfirst.socket⟩

theorem connectToPeer_sameLeader (ip : String) (outcome : ConnectOutcome) :
    SameLeader s (s.connectToPeer peer_id ip outcome).2 := by
  unfold connectToPeer
  split
  · exact SameLeader.refl s
  · split <;> exact ⟨rfl, rfl, rfl⟩

theorem unregisterPeer_sameLeader : SameLeader s (s.unregisterPeer peer_id) := by
  unfold unregisterPeer dropPeer
  split
  · exact ⟨rfl, rfl, rfl⟩
  · exact SameLeader.refl s

theorem hasSocket_unregisterPeer : hasSocket (s.unregisterPeer peer_id) peer_id = false := by
  unfold unregisterPeer dropPeer hasSocket
  split
  · simp
  · rename_i hnone
    rw [hnone]
    rfl

theorem sendToLeader_fst (writeSucceeds : Bool) :
    (s.sendToLeader writeSucceeds).1 =
      (s.pm.m_connectedToLeader && s.pm.m_leaderSocket.isSome && writeSucceeds) := by
  unfold sendToLeader
  cases s.pm.m_connectedToLeader <;> cases s.pm.m_leaderSocket <;> cases writeSucceeds <;> rfl

theorem queryLeaderForPeerIP_fst (leader : LeaderAnswer) :
    (queryLeaderForPeerIP parse leader s).1 =
      if s.pm.m_connectedToLeader && s.pm.m_leaderSocket.isSome && leader.writeSucceeds &&
          leader.response ≠ "" then addressIn parse leader.response
      else "" := by
  have hsent : (s.sendToLeader leader.writeSucceeds).1 =
      (s.pm.m_connectedToLeader && s.pm.m_leaderSocket.isSome && leader.writeSucceeds) :=
    sendToLeader_fst leader.writeSucceeds
  unfold queryLeaderForPeerIP
  cases hconnected : s.pm.m_connectedToLeader with
  | false => rfl
  | true =>
      rw [hconnected, Bool.true_and] at hsent
      rcases hsend : s.sendToLeader leader.writeSucceeds with ⟨sent, s'⟩
      rw [hsend] at hsent
      simp only at hsent
      subst hsent
      cases s.pm.m_leaderSocket <;> cases leader.writeSucceeds <;>
        by_cases hresponse : leader.response = "" <;> simp [hresponse]

theorem addressKnown_congr (hsame : SameLeader s s') (leader : LeaderAnswer) :
    addressKnown parse registry leader peer_id s' =
      addressKnown parse registry leader peer_id s := by
  have hleader : s'.pm.isLeader = s.pm.isLeader := by
    rw [PeerManager.isLeader, PeerManager.isLeader, hsame.role]
  have hquery : (queryLeaderForPeerIP parse leader s').1 =
      (queryLeaderForPeerIP parse leader s).1 := by
    rw [queryLeaderForPeerIP_fst, queryLeaderForPeerIP_fst, hsame.connected, hsame.socket]
  unfold addressKnown peerAddress
  rw [hleader, hsame.connected]
  split
  · split
    · rfl
    · split
      · rfl
      · split <;> rfl
  · split
    · rfl
    · rcases hs' : queryLeaderForPeerIP parse leader s' with ⟨ip', t'⟩
      rcases hs : queryLeaderForPeerIP parse leader s with ⟨ip, t⟩
      rw [hs', hs] at hquery
      simp only at hquery
      subst hquery
      dsimp only
      split <;> rfl

variable (parse registry) in
theorem connect_cases (attempt : ℕ) (env : Attempt) (peer_id : String) (s : PeerState) :
    (reaches parse registry env peer_id s = true ∧
      ∃ s', connect parse registry attempt env peer_id s = (.ok (), s') ∧
        hasSocket s' peer_id = true ∧ SameLeader s s') ∨
      (reaches parse registry env peer_id s = false ∧
        ∃ exit s', connect parse registry attempt env peer_id s = (.error exit, s')) := by
  unfold connect reaches
  cases hconnected : isConnected s peer_id with
  | true =>
      exact Or.inl ⟨rfl, s, rfl, hasSocket_of_isConnected hconnected, SameLeader.refl s⟩
  | false =>
      unfold addressKnown
      rcases haddress : peerAddress parse registry env.leader peer_id s with ⟨_ | ip, t⟩
      · exact Or.inr ⟨rfl, _, t, rfl⟩
      · obtain rfl := peerAddress_state haddress
        have hfst : (t.connectToPeer peer_id ip env.outcome).1 =
            (hasSocket t peer_id || env.outcome.succeeds) := connectToPeer_fst env.outcome
        have hsame : SameLeader t (t.connectToPeer peer_id ip env.outcome).2 :=
          connectToPeer_sameLeader ip env.outcome
        rcases hconnect : t.connectToPeer peer_id ip env.outcome with ⟨_ | _, u⟩
        · rw [hconnect] at hfst
          refine Or.inr ⟨by rw [← hfst]; rfl, ?_⟩
          dsimp only [Bool.false_eq_true, if_false]
          by_cases hattempt : attempt = 0
          · exact ⟨.again, u, by simp [hattempt, hconnect]⟩
          · exact ⟨_, u, by simp [hattempt, hconnect]; rfl⟩
        · rw [hconnect] at hfst hsame
          refine Or.inl ⟨by rw [← hfst]; rfl, u, ?_, connectToPeer_hasSocket hconnect, hsame⟩
          simp [hconnect]

end

section

variable (parse : String → Option Json) (registry : PeerRegistry) (peer_id : String)
  (execRequest : Json) {env : Attempt} {s : PeerState}

theorem send_delivered (attempt : ℕ) (env : Attempt) (hsocket : hasSocket s peer_id = true) :
    (send attempt env peer_id execRequest s).2.1 =
      if env.send = .delivered then [execRequest] else [] := by
  unfold hasSocket at hsocket
  obtain ⟨h, hsome⟩ := Option.isSome_iff_exists.mp hsocket
  unfold send sendToPeer
  rw [hsome]
  cases env.send <;> by_cases hattempt : attempt = 0 <;> simp [hattempt]

theorem send_of_sent (attempt : ℕ) (hsocket : hasSocket s peer_id = true)
    (hsent : env.send = .delivered) :
    send attempt env peer_id execRequest s = (.ok (), [execRequest], s) := by
  unfold hasSocket at hsocket
  obtain ⟨h, hsome⟩ := Option.isSome_iff_exists.mp hsocket
  unfold send sendToPeer
  rw [hsome, hsent]
  rfl

theorem execAttempt_delivered (attempt : ℕ) (env : Attempt) (s : PeerState) :
    (execAttempt parse registry attempt env peer_id execRequest s).2.1 =
      if reaches parse registry env peer_id s = true ∧ env.send = .delivered then
        [execRequest] else [] := by
  unfold execAttempt
  rcases connect_cases parse registry attempt env peer_id s with
    ⟨hreaches, s', hconnect, hsocket, -⟩ | ⟨hreaches, exit, s', hconnect⟩
  · have hdelivered := send_delivered peer_id execRequest attempt env hsocket
    simp only [hconnect, hreaches, true_and]
    rw [← hdelivered]
    rcases send attempt env peer_id execRequest s' with ⟨_ | _, delivered, t⟩ <;> rfl
  · simp [hconnect, hreaches]

theorem execAttempt_of_broken (hreaches : reaches parse registry env peer_id s = true)
    (hsent : env.send = .delivered) (hbroken : env.read.isConnectionError = true) :
    ∃ s', execAttempt parse registry 0 env peer_id execRequest s =
        (.again, [execRequest], s') ∧
      hasSocket s' peer_id = false ∧ SameLeader s s' := by
  rcases connect_cases parse registry 0 env peer_id s with
    ⟨-, t, hconnect, hsocket, hsame⟩ | ⟨hnot, -⟩
  · refine ⟨t.unregisterPeer peer_id, ?_, hasSocket_unregisterPeer,
      hsame.trans unregisterPeer_sameLeader⟩
    unfold execAttempt
    simp only [hconnect, send_of_sent peer_id execRequest 0 hsocket hsent]
    unfold readResponse
    cases hread : env.read with
    | received text => simp [hread, ReadOutcome.isConnectionError] at hbroken
    | ended errno => rfl
    | failed errno =>
        cases errno with
        | wouldBlock => simp [hread, ReadOutcome.isConnectionError] at hbroken
        | other text => rfl
  · rw [hreaches] at hnot
    contradiction

/-- An answered request, or one the answer to which did not come in time, is
not repeated. -/
theorem execAttempt_of_not_broken (attempt : ℕ)
    (hreaches : reaches parse registry env peer_id s = true)
    (hsent : env.send = .delivered) (hbroken : env.read.isConnectionError = false) :
    ∃ result s', execAttempt parse registry attempt env peer_id execRequest s =
      (.answer result, [execRequest], s') := by
  rcases connect_cases parse registry attempt env peer_id s with
    ⟨-, t, hconnect, hsocket, -⟩ | ⟨hnot, -⟩
  · unfold execAttempt
    simp only [hconnect, send_of_sent peer_id execRequest attempt hsocket hsent]
    unfold readResponse
    cases hread : env.read with
    | received text => exact ⟨_, t, rfl⟩
    | ended errno => simp [hread, ReadOutcome.isConnectionError] at hbroken
    | failed errno =>
        cases errno with
        | wouldBlock => exact ⟨_, t, rfl⟩
        | other text => simp [hread, ReadOutcome.isConnectionError] at hbroken
  · rw [hreaches] at hnot
    contradiction

theorem reaches_of_not_hasSocket (hsocket : hasSocket s peer_id = false) (env : Attempt) :
    reaches parse registry env peer_id s =
      (addressKnown parse registry env.leader peer_id s && env.outcome.succeeds) := by
  rw [reaches, isConnected_of_not_hasSocket hsocket, hsocket, Bool.false_or, Bool.false_or]

theorem execLoop_last_delivered (attempt : ℕ) (env : Attempt) (s : PeerState) :
    (execLoop parse registry peer_id execRequest attempt [env] s).2.1 =
      if reaches parse registry env peer_id s = true ∧ env.send = .delivered then
        [execRequest] else [] := by
  rw [← execAttempt_delivered parse registry peer_id execRequest attempt env s, execLoop]
  rcases execAttempt parse registry attempt env peer_id execRequest s with
    ⟨_ | _, delivered, t⟩
  · rfl
  · simp [execLoop]

theorem length_ite_le {α : Type*} (c : Prop) [Decidable c] (a : α) :
    (if c then [a] else []).length ≤ 1 := by
  split <;> simp

/-- Two requests are received only when the connection breaks between them. -/
theorem execLoop_delivered_le_one_iff (first second : Attempt) (s : PeerState) :
    (execLoop parse registry peer_id execRequest 0 [first, second] s).2.1.length ≤ 1 ↔
      resendsDelivered parse registry first second peer_id s = false := by
  rw [execLoop]
  by_cases hdelivers : reaches parse registry first peer_id s = true ∧ first.send = .delivered
  · obtain ⟨hreaches, hsent⟩ := hdelivers
    unfold resendsDelivered
    rw [hreaches, hsent]
    cases hbroken : first.read.isConnectionError with
    | false =>
        obtain ⟨result, t, hattempt⟩ := execAttempt_of_not_broken parse registry peer_id
          execRequest 0 hreaches hsent hbroken
        simp [hattempt]
    | true =>
        obtain ⟨t, hattempt, hsocket, hsame⟩ := execAttempt_of_broken parse registry peer_id
          execRequest hreaches hsent hbroken
        have hlast := execLoop_last_delivered parse registry peer_id execRequest 1 second t
        rw [reaches_of_not_hasSocket parse registry peer_id hsocket,
          addressKnown_congr hsame] at hlast
        simp only [hattempt, List.length_append, hlast]
        split
        · rename_i hagain
          simp [hagain.2, Bool.and_eq_true_iff.mp hagain.1]
        · rename_i hagain
          simpa using hagain
  · have hfirst := execAttempt_delivered parse registry peer_id execRequest 0 first s
    rw [if_neg hdelivers] at hfirst
    have hnot : resendsDelivered parse registry first second peer_id s = false := by
      unfold resendsDelivered
      cases hreaches : reaches parse registry first peer_id s with
      | false => rfl
      | true =>
          have hsend : first.send ≠ .delivered := fun h => hdelivers ⟨hreaches, h⟩
          simp [hsend]
    rw [hnot]
    simp only [iff_true]
    rcases hattempt : execAttempt parse registry 0 first peer_id execRequest s with
      ⟨_ | _, delivered, t⟩
    · rw [hattempt] at hfirst
      simp only at hfirst
      simp [hfirst]
    · rw [hattempt] at hfirst
      simp only at hfirst
      simp only [hfirst, List.nil_append,
        execLoop_last_delivered parse registry peer_id execRequest 1 second t]
      exact length_ite_le _ _

/-- The peer receives the shell command at most once exactly when no delivered
request is followed by a broken connection and another delivered request. -/
theorem handleExecOnPeer_once_iff (command : Json) (first second : Attempt) (s : PeerState) :
    (handleExecOnPeer parse registry command first second s).2.1.length ≤ 1 ↔
      ∀ peer_id directory cmd, argument command COMMAND_ARG_PEER = .ok peer_id →
        argument command COMMAND_ARG_DIRECTORY = .ok directory →
        argument command COMMAND_ARG_SHELL_CMD = .ok cmd →
        resendsDelivered parse registry first second peer_id s = false := by
  unfold handleExecOnPeer
  cases hpeer : argument command COMMAND_ARG_PEER with
  | error e => simp
  | ok peer_id =>
      cases hdirectory : argument command COMMAND_ARG_DIRECTORY with
      | error e => simp
      | ok directory =>
          cases hcmd : argument command COMMAND_ARG_SHELL_CMD with
          | error e => simp
          | ok cmd =>
              have hiff := execLoop_delivered_le_one_iff parse registry peer_id
                (requestFor directory cmd) first second s
              simpa using hiff

end

/-! ## A command run twice -/

/-- A leader that knows where the peer is and has no connection to it. -/
def leaderState : PeerState where
  pm := { PeerManager.initial with m_role := PEER_ROLE_LEADER }
  process := ⟨⟨[]⟩, 0⟩

def registryOfWorker : PeerRegistry :=
  PeerTable.upsertPeer "worker" "10.0.0.2" "" "" true 1 PeerRegistry.empty

def execCommand : Json :=
  .object [("command", .string "execOnPeer"), (COMMAND_ARG_PEER, .string "worker"),
    (COMMAND_ARG_DIRECTORY, .string "/"), (COMMAND_ARG_SHELL_CMD, .string "reboot")]

/-- The request arrives and the connection ends or not before the answer. -/
def deliveredThen (read : ReadOutcome) : Attempt :=
  ⟨⟨true, ""⟩, .connected true, .delivered, read⟩

/-- The peer goes down while it runs the command, and is told to run it again. -/
theorem brokenReply_delivered_twice :
    ¬ (handleExecOnPeer (fun _ => none) registryOfWorker execCommand
      (deliveredThen (.ended .wouldBlock)) (deliveredThen (.received ""))
      leaderState).2.1.length ≤ 1 := by
  decide +kernel

end ExecOnPeer

end AutomateLinux
