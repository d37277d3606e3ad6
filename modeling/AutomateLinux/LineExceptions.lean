import AutomateLinux.DaemonServerDescriptors

/-!
# Exceptions that leave the event loop

A line that does not parse is answered or logged, and whatever a handler throws
ends in the dispatcher's `try` block.  Three typed reads are outside of every
block: the name of the command in `mainCommand`, and the peer id and the version
that `handle_peer_data` looks at before the dispatcher does.  A line is
processed to its end exactly when the members these reads find have the types
they ask for.
-/

namespace AutomateLinux

/-- `get<int>` converts the value. -/
def Json.is_convertible : Json → Bool
  | .boolean _ => true
  | j => j.is_number

/-- The member is absent or of the right kind. -/
def Json.memberIs (j : Json) (key : String) (kind : Json → Bool) : Bool :=
  (j.find? key).all kind

namespace DaemonServer

/-- The unguarded reads of a line find what they ask for. -/
def readsTyped (j : Json) : Reader → Bool
  | .handle_peer_data =>
      if isCommand j "heartbeat" && j.contains "peer_id" then
        j.memberIs "peer_id" Json.is_string &&
          j.memberIs "daemon_version" Json.is_convertible
      else if isCommand j "registerPeer" then j.memberIs "peer_id" Json.is_string
      else j.memberIs COMMAND_KEY Json.is_string
  | _ => j.memberIs COMMAND_KEY Json.is_string

section

variable {j : Json} {key : String}

theorem isOk_map {ε α β : Type*} (f : α → β) (e : Except ε α) :
    (e.map f).isOk = e.isOk := by
  cases e <;> rfl

theorem getString_isOk (j : Json) : j.getString.isOk = j.is_string := by
  cases j <;> rfl

theorem getInt_isOk (width : ℕ) (j : Json) :
    (j.getInt width).isOk = j.is_convertible := by
  cases j <;> rfl

theorem commandNameOf_isOk (j : Json) :
    (commandNameOf j).isOk = j.memberIs COMMAND_KEY Json.is_string := by
  unfold commandNameOf Json.memberIs
  cases j.find? COMMAND_KEY with
  | none => rfl
  | some name => exact getString_isOk name

theorem heartbeatVersion_isOk (j : Json) :
    (heartbeatVersion j).isOk =
      j.memberIs "daemon_version" Json.is_convertible := by
  unfold heartbeatVersion Json.memberIs
  cases j.find? "daemon_version" with
  | none => rfl
  | some version =>
      rw [Option.all_some, ← getInt_isOk 32]
      exact isOk_map some (version.getInt 32)

theorem memberIs_of_isCommand {name : String}
    (hname : isCommand j name = true) :
    j.memberIs COMMAND_KEY Json.is_string = true := by
  unfold isCommand at hname
  split at hname
  · rename_i heq
    simp [Json.memberIs, heq, Json.is_string]
  · contradiction

end

section

variable (dump : Json → String) (env : Effects)

/-- Beyond the name of the command nothing escapes the dispatcher, whatever the
handlers throw. -/
theorem callMainCommand_isOk (command : Json) (client_sock : Handle)
    (s : DaemonState) :
    (callMainCommand dump env command client_sock s).isOk =
      command.memberIs COMMAND_KEY Json.is_string := by
  rw [← commandNameOf_isOk]
  unfold callMainCommand mainCommand
  cases commandNameOf command with
  | error e => rfl
  | ok commandName =>
      dsimp only
      split <;> rfl

theorem clientLine_isOk (j : Json) (client : Handle) (s : DaemonState) :
    (clientLine dump env (some j) client s).isOk =
      readsTyped j .handle_client_data := by
  have hcall := callMainCommand_isOk dump env j client s
  unfold clientLine readsTyped
  rw [← hcall]
  dsimp only
  cases callMainCommand dump env j client s <;> rfl

theorem peerHeartbeat_isOk (j peer_id : Json) (peer_fd : Fd) (s : DaemonState) :
    (peerHeartbeat j peer_id peer_fd s).isOk =
      (peer_id.is_string && j.memberIs "daemon_version" Json.is_convertible) := by
  rw [← getString_isOk, ← heartbeatVersion_isOk]
  unfold peerHeartbeat
  cases peer_id.getString with
  | error e => rfl
  | ok hbPeerId =>
      cases heartbeatVersion j with
      | error e => rfl
      | ok version =>
          dsimp only
          split <;> rfl

theorem trackPeerId_isOk (j : Json) (peer_fd : Fd) (s : DaemonState) :
    (trackPeerId j peer_fd s).isOk =
      (!isCommand j "registerPeer" || j.memberIs "peer_id" Json.is_string) := by
  unfold trackPeerId Json.memberIs
  cases isCommand j "registerPeer" with
  | false => rfl
  | true =>
      cases j.find? "peer_id" with
      | none => rfl
      | some value =>
          rw [Bool.not_true, Bool.false_or, Option.all_some, ← getString_isOk]
          dsimp only
          cases value.getString <;> rfl

theorem peerCommand_isOk (j : Json) (peer : Handle) (s : DaemonState) :
    ((trackPeerId j peer.fd s).bind fun s =>
        (callMainCommand dump env j peer s).map Prod.snd).isOk =
      if isCommand j "registerPeer" then j.memberIs "peer_id" Json.is_string
      else j.memberIs COMMAND_KEY Json.is_string := by
  have htrack := trackPeerId_isOk j peer.fd s
  have hcall : ∀ s, ((callMainCommand dump env j peer s).map Prod.snd).isOk =
      j.memberIs COMMAND_KEY Json.is_string := by
    intro s
    rw [isOk_map]
    exact callMainCommand_isOk dump env j peer s
  cases hresult : trackPeerId j peer.fd s with
  | error e =>
      rw [hresult] at htrack
      cases hname : isCommand j "registerPeer" with
      | false => simp [Except.isOk, Except.toBool, hname] at htrack
      | true =>
          rw [hname] at htrack
          exact htrack
  | ok tracked =>
      rw [hresult] at htrack
      change ((callMainCommand dump env j peer tracked).map Prod.snd).isOk = _
      rw [hcall tracked]
      cases hname : isCommand j "registerPeer" with
      | false => simp
      | true =>
          rw [memberIs_of_isCommand hname]
          simpa [Except.isOk, Except.toBool, hname] using htrack

theorem peerLine_isOk (j : Json) (peer : Handle) (s : DaemonState) :
    (peerLine dump env (some j) peer s).isOk =
      readsTyped j .handle_peer_data := by
  have hrest := peerCommand_isOk dump env j peer s
  unfold peerLine readsTyped
  dsimp only
  split
  · rename_i peer_id hheartbeat hid
    simpa [Json.contains, Json.memberIs, hheartbeat, hid] using
      peerHeartbeat_isOk j peer_id peer.fd s
  · rename_i hother
    have hnot : (isCommand j "heartbeat" && j.contains "peer_id") = false := by
      by_contra hboth
      simp only [Bool.not_eq_false, Bool.and_eq_true] at hboth
      obtain ⟨peer_id, hid⟩ := Json.find?_of_contains hboth.2
      exact hother peer_id hboth.1 hid
    rw [hnot, if_neg (by simp), ← hrest]
    cases trackPeerId j peer.fd s <;> rfl

theorem leaderLine_isOk (j : Json) (leader : Handle) (s : DaemonState) :
    (leaderLine dump env (some j) leader s).isOk =
      readsTyped j .handle_leader_data := by
  unfold leaderLine readsTyped
  cases hmember : j.find? COMMAND_KEY with
  | none => simp [Json.contains, Json.memberIs, hmember, Except.isOk, Except.toBool]
  | some name =>
      have hcall := callMainCommand_isOk dump env j leader s
      have hobject := Json.is_object_of_find? hmember
      have hcontains : j.contains COMMAND_KEY = true := by
        simp [Json.contains, hmember]
      simp only [hobject, hcontains, Bool.not_true, Bool.or_self,
        Bool.false_eq_true, if_false, isOk_map, hcall]

/-- No exception leaves the processing of a received line exactly when it does
not parse or its unguarded reads find the types they ask for. -/
theorem line_isOk_iff (parse : List UInt8 → Option Json) (bytes : List UInt8)
    (reader : Reader) (h : Handle) (s : DaemonState) :
    (line dump env (received parse bytes) reader h s).isOk = true ↔
      ∀ j, received parse bytes = some j → readsTyped j reader = true := by
  cases received parse bytes with
  | none => cases reader <;> simp [line, clientLine, peerLine, leaderLine,
      Except.isOk, Except.toBool]
  | some j =>
      cases reader with
      | handle_client_data => simp [line, clientLine_isOk]
      | handle_peer_data => simp [line, peerLine_isOk]
      | handle_leader_data => simp [line, leaderLine_isOk]

end

/-- `{"command": 5}`. -/
def numberedCommand : Json := .object [("command", .number_unsigned 5)]

/-- Its text, as it is received. -/
def numberedLine : List UInt8 :=
  [123, 34, 99, 111, 109, 109, 97, 110, 100, 34, 58, 32, 53, 125]

/-- Whoever sends it, the dispatcher's first read of the name throws. -/
theorem numberedLine_throws :
    ¬ ∃ reader,
      (line (fun _ => "") uneventful
        (received (fun text => if text = numberedLine then some numberedCommand
          else none) numberedLine)
        reader ⟨1, ⟨1, .client⟩⟩ initial).isOk = true := by
  rintro ⟨reader, hok⟩
  have hthrows : line (fun _ => "") uneventful
      (received (fun text => if text = numberedLine then some numberedCommand
        else none) numberedLine)
      reader ⟨1, ⟨1, .client⟩⟩ initial =
      .error (Json.typeError "string" (.number_unsigned 5)) := by
    cases reader <;> rfl
  rw [hthrows] at hok
  exact absurd hok (by decide)

end DaemonServer

end AutomateLinux
