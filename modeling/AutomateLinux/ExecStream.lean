import AutomateLinux.DaemonServerFraming
import AutomateLinux.ExecOnPeer
import AutomateLinux.LeaderStream
import AutomateLinux.Utf8

/-!
# The stream between a daemon and a peer that runs its commands

A call of `handleExecOnPeer` writes its request to the connection kept for the peer
and takes whatever one read returns for the output of its command.  The peer answers
a request twice: once in its main loop, and once from the thread it starts for slow
commands, which closes the connection.  A call that times out leaves the connection
in place, with whatever is still to come on it.

The model follows the connections with one peer.  Every byte carries what it belongs
to, which no function looks at.  A read may return any number of the unread bytes
that fits its buffer, and calls from several threads may overlap.
-/

namespace AutomateLinux

namespace ExecStream

open ExecOnPeer
open LeaderStream (isNewline tagged isDumped written response)
open DaemonServer (cString)

/-! ## Running a command on the peer -/

structure Command where
  directory : String
  cmd : String
deriving DecidableEq

/-- How the run of a shell command goes: there is no pipe or no process for it, or
its output arrives in these pieces until it ends or its time is up. -/
inductive Execution
  | noPipe (error : List UInt8)
  | noProcess (error : List UInt8)
  | ran (pieces : List (List UInt8)) (timedOut : Bool)
deriving DecidableEq

def utf8 (text : String) : List UInt8 := Utf8.encode text.toList

def occursIn (text cmd : String) : Bool := text.toList <:+: cmd.toList

/-- Commands that would connect back to the daemon. -/
def isDeadlockProne (cmd : String) : Bool :=
  occursIn "daemon send" cmd || occursIn "daemon daemon" cmd ||
    occursIn "/daemon send" cmd || occursIn " d " cmd || "d ".toList <+: cmd.toList

/-- `buffer[n] = '\0'; output += buffer;` for each piece. -/
def executeCommandWithTimeout (timeout_sec : String) : Execution → List UInt8
  | .noPipe error => utf8 "Failed to create pipe: " ++ cString error
  | .noProcess error => utf8 "Failed to fork: " ++ cString error
  | .ran pieces timedOut =>
      pieces.flatMap cString ++
        if timedOut then utf8 ("\n[TIMEOUT after " ++ timeout_sec ++ "s]") else []

/-- The message of the result, given how the run goes, if there is one. -/
def handleExecRequest (command : Command) (execution : Execution) : List UInt8 :=
  if isDeadlockProne command.cmd then
    utf8 ("Error: Cannot run daemon commands via execOnPeer (would cause deadlock). " ++
      "Use direct daemon commands instead (e.g., 'd listPorts' locally forwards to " ++
        "leader).\n")
  else executeCommandWithTimeout "60" execution

/-- The command in a line the peer has read. -/
def commandIn (parse : List UInt8 → Option Json) (line : List UInt8) : Option Command :=
  match received parse line with
  | none => none
  | some j =>
      match commandNameOf j, argument j COMMAND_ARG_DIRECTORY,
        argument j COMMAND_ARG_SHELL_CMD with
      | .ok name, .ok directory, .ok cmd =>
          if name = COMMAND_EXEC_REQUEST then some ⟨directory, cmd⟩ else none
      | _, _, _ => none

theorem commandIn_of_requestFor {parse : List UInt8 → Option Json} {line : List UInt8}
    {command : Command} (hdumped : isDumped line = true)
    (hparse : parse line = some (requestFor command.directory command.cmd)) :
    commandIn parse line = some command := by
  have hlast : line.getLast? ≠ some 13 := by
    intro hlast
    simp only [isDumped, Bool.and_eq_true, List.all_eq_true, decide_eq_true_eq] at hdumped
    exact absurd (hdumped.2 13 (List.mem_of_getLast? hlast)) (by decide)
  have hreceived : received parse line =
      some (requestFor command.directory command.cmd) := by
    rw [received, dropCarriageReturn, if_neg hlast, hparse]
  unfold commandIn
  rw [hreceived]
  rfl

/-! ## The parties -/

/-- Where a call stands: before an attempt, with a connection looked up, or waiting
for the answer to a request on the connection it had looked up. -/
inductive Phase
  | starts
  | connected (socket_fd : Fd)
  | reads (socket_fd : Fd) (request : ℕ)

structure Call where
  attempt : ℕ
  phase : Phase

/-- The unread bytes of a connection.  Bytes to the peer belong to a request, bytes
from it to an answer or to a text that answers no request. -/
structure Link where
  toPeer : List (UInt8 × ℕ)
  unread : List (UInt8 × Option ℕ)

/-- A request as the peer has read it, and how the run of its command went. -/
structure Answer where
  request : ℕ
  command : Command
  execution : Execution

def Answer.message (a : Answer) : List UInt8 := handleExecRequest a.command a.execution

/-- A thread of the peer that runs a command once more. -/
structure Thread where
  request : ℕ
  command : Command
  client_sock : Fd

/-- `sockets` and `clients` say which connection a descriptor of the daemon or the
peer stands for, and `socket_fd` is what `m_peers` has for the peer.  `commands`,
`requests`, `answers` and `returned` record what is called, written, run and
returned from the start on: a call is a position in `commands`, a request one in
`requests`, which has the call it is written for. -/
structure State where
  links : ℕ → Link
  opened : ℕ
  sockets : Fd → Option ℕ
  clients : Fd → Option ℕ
  socket_fd : Option Fd
  calls : ℕ → Option Call
  threads : List Thread
  commands : List Command
  requests : List ℕ
  answers : List Answer
  returned : List (ℕ × List UInt8)

/-! ## The functions of the daemon -/

def setLink (l : ℕ) (link : Link) (s : State) : State :=
  { s with links := Function.update s.links l link }

def setCall (id : ℕ) (call : Option Call) (s : State) : State :=
  { s with calls := Function.update s.calls id call }

/-- A new connection, and the descriptors the two ends get for it. -/
def openLink (fd client_sock : Fd) (s : State) : State :=
  { setLink s.opened ⟨[], []⟩ s with
    opened := s.opened + 1
    sockets := Function.update s.sockets fd (some s.opened)
    clients := Function.update s.clients client_sock (some s.opened)
    socket_fd := some fd }

/-- `close(it->second.socket_fd); m_peers.erase(it);`, if there is an entry. -/
def dropPeer (s : State) : State :=
  match s.socket_fd with
  | some fd => { s with sockets := Function.update s.sockets fd none, socket_fd := none }
  | none => s

/-- A failed attempt: the first one is followed by another. -/
def failed (id : ℕ) (attempt : ℕ) (s : State) : State :=
  setCall id (if attempt = 0 then some ⟨1, .starts⟩ else none) s

/-! ## The transition system -/

inductive Label
  | calls (command : Command)
  | finds (id : ℕ)
  | connects (id : ℕ) (fd client_sock : Fd)
  | addressUnknown (id : ℕ)
  | connectFails (id : ℕ)
  | sends (id : ℕ) (line : List UInt8) (n : ℕ)
  | sendFails (id : ℕ)
  | reads (id : ℕ) (n : ℕ)
  | readFails (id : ℕ)
  | readTimesOut (id : ℕ)
  | registers (fd client_sock : Fd)
  | mainReads (fd : Fd) (n : ℕ)
  | mainCloses (fd : Fd)
  | peerHandles (client_sock : Fd) (execution : Execution)
  | threadFinishes (i : ℕ) (execution : Execution)
  | peerWrites (client_sock : Fd) (text : List UInt8)
  | peerCloses (client_sock : Fd)

/-- The peer's answer, as it is written to a connection. -/
def answered (a : Answer) (l : ℕ) (toPeer : List (UInt8 × ℕ)) (s : State) : State :=
  { setLink l
      ⟨toPeer, (s.links l).unread ++ tagged (some s.answers.length) (response a.message)⟩ s with
    answers := s.answers ++ [a] }

/-- The connection is one that `connectToPeer` makes, or one that the peer has made
to register, which the daemon's main loop reads too. -/
def step (parse : List UInt8 → Option Json) (s : State) : Label → Option State
  | .calls command =>
      some
        { setCall s.commands.length (some ⟨0, .starts⟩) s with
          commands := s.commands ++ [command] }
  | .finds id =>
      match s.calls id, s.socket_fd with
      | some ⟨attempt, .starts⟩, some fd => some (setCall id (some ⟨attempt, .connected fd⟩) s)
      | _, _ => none
  | .connects id fd client_sock =>
      match s.calls id, s.sockets fd, s.clients client_sock with
      | some ⟨attempt, .starts⟩, none, none =>
          some (setCall id (some ⟨attempt, .connected fd⟩) (openLink fd client_sock s))
      | _, _, _ => none
  | .addressUnknown id =>
      match s.calls id with
      | some ⟨_, .starts⟩ => some (setCall id none s)
      | _ => none
  | .connectFails id =>
      match s.calls id with
      | some ⟨attempt, .starts⟩ => some (failed id attempt s)
      | _ => none
  | .sends id line n =>
      match s.calls id, s.commands[id]?, s.socket_fd.bind s.sockets with
      | some ⟨attempt, .connected fd⟩, some command, some l =>
          if isDumped line = true ∧ commandIn parse line = some command then
            some
              { setCall id (some ⟨attempt, .reads fd s.requests.length⟩)
                  (setLink l
                    ⟨(s.links l).toPeer ++ tagged s.requests.length ((written line).take n),
                      (s.links l).unread⟩ s) with
                requests := s.requests ++ [id] }
          else none
      | _, _, _ => none
  | .sendFails id =>
      match s.calls id with
      | some ⟨attempt, .connected _⟩ => some (failed id attempt (dropPeer s))
      | _ => none
  | .reads id n =>
      match s.calls id with
      | some ⟨_, .reads fd _⟩ =>
          match s.sockets fd with
          | some l =>
              if 0 < n ∧ n ≤ (s.links l).unread.length ∧ n < 65536 then
                some
                  { setCall id none
                      (setLink l ⟨(s.links l).toPeer, (s.links l).unread.drop n⟩ s) with
                    returned := s.returned ++
                      [(id, cString (((s.links l).unread.take n).map Prod.fst))] }
              else none
          | none => none
      | _ => none
  | .readFails id =>
      match s.calls id with
      | some ⟨attempt, .reads _ _⟩ => some (failed id attempt (dropPeer s))
      | _ => none
  | .readTimesOut id =>
      match s.calls id with
      | some ⟨_, .reads _ _⟩ => some (setCall id none s)
      | _ => none
  | .registers fd client_sock =>
      match s.sockets fd, s.clients client_sock with
      | none, none => some (openLink fd client_sock s)
      | _, _ => none
  | .mainReads fd n =>
      match s.sockets fd with
      | some l =>
          if 0 < n ∧ n ≤ (s.links l).unread.length ∧ n < 4096 then
            some (setLink l ⟨(s.links l).toPeer, (s.links l).unread.drop n⟩ s)
          else none
      | none => none
  | .mainCloses fd => some { s with sockets := Function.update s.sockets fd none }
  | .peerHandles client_sock execution =>
      match s.clients client_sock with
      | some l =>
          match LineFraming.takeLine isNewline (s.links l).toPeer with
          | some (line, newline, rest) =>
              match commandIn parse (line.map Prod.fst) with
              | some command =>
                  some
                    { answered ⟨newline.2, command, execution⟩ l rest s with
                      threads := s.threads ++ [⟨newline.2, command, client_sock⟩] }
              | none => some (setLink l ⟨rest, (s.links l).unread⟩ s)
          | none => none
      | none => none
  | .threadFinishes i execution =>
      match s.threads[i]? with
      | some thread =>
          let a : Answer := ⟨thread.request, thread.command, execution⟩
          match s.clients thread.client_sock with
          | some l =>
              some
                { answered a l (s.links l).toPeer s with
                  threads := s.threads.eraseIdx i
                  clients := Function.update s.clients thread.client_sock none }
          | none =>
              some
                { s with
                  answers := s.answers ++ [a]
                  threads := s.threads.eraseIdx i }
      | none => none
  | .peerWrites client_sock text =>
      match s.clients client_sock with
      | some l =>
          some (setLink l ⟨(s.links l).toPeer, (s.links l).unread ++ tagged none text⟩ s)
      | none => none
  | .peerCloses client_sock =>
      some { s with clients := Function.update s.clients client_sock none }

def initial : State where
  links := fun _ => ⟨[], []⟩
  opened := 0
  sockets := fun _ => none
  clients := fun _ => none
  socket_fd := none
  calls := fun _ => none
  threads := []
  commands := []
  requests := []
  answers := []
  returned := []

/-! ## What a call is for -/

/-- A text a call returns is all of the output of a run of that call's command. -/
def Matched (s : State) : Prop :=
  ∀ id text, (id, text) ∈ s.returned →
    ∃ command, s.commands[id]? = some command ∧
      ∃ a ∈ s.answers, s.requests[a.request]? = some id ∧ a.command = command ∧
        a.message = text

/-- A call waits for the answer to the request. -/
def awaits (s : State) (request : ℕ) : Bool :=
  match s.requests[request]? with
  | some id =>
      match s.calls id with
      | some ⟨_, .reads _ r⟩ => r = request
      | _ => false
  | none => false

def isAwaited (s : State) (answer : ℕ) : Bool :=
  match s.answers[answer]? with
  | some a => awaits s a.request
  | none => false

/-- All the bytes belong to one answer to the request, which ends in a newline of
its own. -/
def oneAnswer (s : State) (request : ℕ) (bytes : List (UInt8 × Option ℕ)) : Bool :=
  match bytes.head? with
  | some (_, some k) =>
      match s.answers[k]? with
      | some a =>
          a.request = request && bytes.all (fun byte => byte.2 = some k) &&
            a.message.getLast? = some 10
      | none => false
  | _ => false

/-- Nothing but one answer to the call's request is unread, and the read takes all
of it. -/
def takesOneAnswer (s : State) (id n : ℕ) : Bool :=
  match s.calls id with
  | some ⟨_, .reads fd request⟩ =>
      match s.sockets fd with
      | some l => oneAnswer s request (s.links l).unread && n = (s.links l).unread.length
      | none => true
  | _ => true

/-- The bytes a read takes belong to no answer a call waits for. -/
def takesNoAnswer (s : State) (fd : Fd) (n : ℕ) : Bool :=
  match s.sockets fd with
  | some l => ((s.links l).unread.take n).all fun byte => !byte.2.any (isAwaited s)
  | none => true

/-- Requests are written whole, a call reads one answer to its request and nothing
else, and the main loop leaves the answers calls wait for alone. -/
def Undisturbed (s : State) : Label → Prop
  | .sends _ line n => n = (written line).length
  | .reads id n => takesOneAnswer s id n = true
  | .mainReads fd n => takesNoAnswer s fd n = true
  | _ => True

instance (s : State) : (label : Label) → Decidable (Undisturbed s label)
  | .sends _ line n => inferInstanceAs (Decidable (n = (written line).length))
  | .reads _ _ => inferInstanceAs (Decidable (_ = true))
  | .mainReads _ _ => inferInstanceAs (Decidable (_ = true))
  | .calls _ => isTrue trivial
  | .finds _ => isTrue trivial
  | .connects _ _ _ => isTrue trivial
  | .addressUnknown _ => isTrue trivial
  | .connectFails _ => isTrue trivial
  | .sendFails _ => isTrue trivial
  | .readFails _ => isTrue trivial
  | .readTimesOut _ => isTrue trivial
  | .registers _ _ => isTrue trivial
  | .mainCloses _ => isTrue trivial
  | .peerHandles _ _ => isTrue trivial
  | .threadFinishes _ _ => isTrue trivial
  | .peerWrites _ _ => isTrue trivial
  | .peerCloses _ => isTrue trivial

end ExecStream

end AutomateLinux
