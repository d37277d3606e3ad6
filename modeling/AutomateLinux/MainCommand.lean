import AutomateLinux.CommandRegistry
import Mathlib.Tactic.Common

/-!
# The command dispatcher

`mainCommand` validates a command, runs its handler, writes the response to the
socket the command came from and tells the event loop what to do with the
connection.  For the slow commands it also starts a thread, which runs
`threadBody` at some later time.  What the handlers themselves do is a
parameter: a handler reads the command, `g_clientSocket` and the state of the
daemon, and returns a result or throws.
-/

namespace AutomateLinux

/-- A file descriptor. -/
abbrev Fd := ℕ

/-- The effect of each handler on a command, the value of `g_clientSocket` and
the state of the daemon. -/
abbrev Handlers (σ : Type*) :=
  Handler → Json → Fd → σ → Except Exn CmdResult × σ

/-- What the processing of a command does to the outside. -/
inductive Event
  | handled (handler : Handler)
  | responded (client_sock : Fd) (message : String)
  | closed (client_sock : Fd)
deriving DecidableEq, Repr

/-- What `mainCommand` returns and does, when nothing escapes it. -/
structure Outcome (σ : Type*) where
  code : Int
  state : σ
  events : List Event

section

variable {σ : Type*} (handlers : Handlers σ) (dump : Json → String)

/-- Run a handler inside its `try` block. -/
def callHandler (handler : Handler) (command : Json) (g_clientSocket : Fd)
    (s : σ) : CmdResult × σ :=
  match handlers handler command g_clientSocket s with
  | (.ok result, s) => (result, s)
  | (.error e, s) => (⟨1, "error: " ++ e.what ++ "\n"⟩, s)

/-- `if (!message.empty() && message.back() != '\n') message += "\n"`. -/
def endWithNewLine (message : String) : String :=
  if message = "" then message
  else if message.toList.getLast? = some '\n' then message
  else message ++ "\n"

/-- The `try` block of `mainCommand`. -/
def runCommand (command : Json) (commandName : String) (client_sock : Fd)
    (s : σ) : CmdResult × σ × List Event :=
  match validateCommand command with
  | .error e => (⟨1, "error: " ++ e.what ++ "\n"⟩, s, [])
  | .ok integrityCheck =>
      if integrityCheck.status ≠ 0 then (integrityCheck, s, [])
      else
        match lookupHandler commandName with
        | some handler =>
            let (result, s) := callHandler handlers handler command client_sock s
            (result, s, [.handled handler])
        | none => (⟨1, "Unhandled command: " ++ dump command ++ "\n"⟩, s, [])

/-- 1 closes the connection, 0 keeps it, 2 hands it over to a thread. -/
def returnCode (commandName : String) : Int :=
  if commandName = "closedTty" then 1
  else if commandName ∈ persistentCommands then 0
  else if commandName ∈ slowCommands then 2
  else 1

/-- Reading a name that is not a string throws before the `try` block. -/
def mainCommand (command : Json) (client_sock : Fd) (s : σ) :
    Except Exn (Outcome σ) :=
  match commandNameOf command with
  | .error e => .error e
  | .ok commandName =>
      let (result, s, events) :=
        runCommand handlers dump command commandName client_sock s
      .ok
        { code := returnCode commandName
          state := s
          events := events ++
            [.responded client_sock (endWithNewLine result.message)] }

/-- The thread of a slow command; `g_clientSocket` may have changed since. -/
def threadBody (command : Json) (commandName : String) (client_sock : Fd)
    (g_clientSocket : Fd) (s : σ) : σ × List Event :=
  match lookupHandler commandName with
  | some handler =>
      let (result, s) := callHandler handlers handler command g_clientSocket s
      (s, [.handled handler,
        .responded client_sock (endWithNewLine result.message),
        .closed client_sock])
  | none =>
      (s, [.responded client_sock "Async handler not found\n",
        .closed client_sock])

/-- Everything the processing of a command does: `mainCommand` in the state
`s`, and its thread, if it starts one, in whatever state `later` the daemon has
by then. -/
def processing (command : Json) (client_sock : Fd) (s : σ)
    (g_clientSocket : Fd) (later : σ) : Except Exn (List Event) :=
  match mainCommand handlers dump command client_sock s with
  | .error e => .error e
  | .ok outcome =>
      if outcome.code = 2 then
        (commandNameOf command).map fun commandName =>
          outcome.events ++
            (threadBody handlers command commandName client_sock g_clientSocket
              later).2
      else .ok outcome.events

end

def Event.handler? : Event → Option Handler
  | handled handler => some handler
  | _ => none

def Event.responseTo? (client_sock : Fd) : Event → Option String
  | responded sock message => if sock = client_sock then some message else none
  | _ => none

/-- The handlers run, in order. -/
def handlersRun (events : List Event) : List Handler :=
  events.filterMap Event.handler?

/-- The responses written to a socket, in order. -/
def responsesTo (client_sock : Fd) (events : List Event) : List String :=
  events.filterMap (Event.responseTo? client_sock)

/-- The command's handler runs exactly once if the command is accepted and
nothing runs if it is rejected; either way there is exactly one response. -/
structure ExactlyOnce (command : Json) (commandName : String) (client_sock : Fd)
    (events : List Event) : Prop where
  accepted : accepts command = true →
    ∃ handler, lookupHandler commandName = some handler ∧
      handlersRun events = [handler]
  rejected : accepts command = false → handlersRun events = []
  response : (responsesTo client_sock events).length = 1

@[simp] theorem handlersRun_append (first second : List Event) :
    handlersRun (first ++ second) = handlersRun first ++ handlersRun second :=
  List.filterMap_append

@[simp] theorem responsesTo_append (client_sock : Fd)
    (first second : List Event) :
    responsesTo client_sock (first ++ second) =
      responsesTo client_sock first ++ responsesTo client_sock second :=
  List.filterMap_append

@[simp] theorem handlersRun_responded (client_sock : Fd) (message : String) :
    handlersRun [.responded client_sock message] = [] := rfl

@[simp] theorem responsesTo_responded (client_sock : Fd) (message : String) :
    responsesTo client_sock [.responded client_sock message] = [message] := by
  simp [responsesTo, Event.responseTo?]

theorem returnCode_eq_two_iff (commandName : String) :
    returnCode commandName = 2 ↔ commandName ∈ slowCommands := by
  unfold returnCode
  have hclosed : "closedTty" ∉ slowCommands := by decide
  have hdisjoint : ∀ name ∈ persistentCommands, name ∉ slowCommands := by decide
  split
  · rename_i heq
    simp [heq, hclosed]
  · split
    · rename_i hmem
      simp [hdisjoint commandName hmem]
    · split <;> simp [*]

theorem returnCode_eq_zero_iff (commandName : String) :
    returnCode commandName = 0 ↔ commandName ∈ persistentCommands := by
  unfold returnCode
  have hclosed : "closedTty" ∉ persistentCommands := by decide
  split
  · rename_i heq
    simp [heq, hclosed]
  · split
    · simp [*]
    · split <;> simp [*]

theorem commandNameOf_eq_ok {command : Json} {commandName : String}
    (hname : command.find? COMMAND_KEY = some (.string commandName)) :
    commandNameOf command = .ok commandName := by
  simp [commandNameOf, hname, Json.getString]

theorem validateCommand_isOk {command : Json} {commandName : String}
    (hname : command.find? COMMAND_KEY = some (.string commandName)) :
    ∃ check, validateCommand command = .ok check := by
  simp only [validateCommand, hname, Json.getString]
  split
  · exact ⟨_, rfl⟩
  · split <;> exact ⟨_, rfl⟩

section

variable {σ : Type*} (handlers : Handlers σ) (dump : Json → String)

/-- The synchronous part runs the handler of an accepted command once. -/
theorem runCommand_handlersRun {command : Json} {commandName : String}
    (hname : command.find? COMMAND_KEY = some (.string commandName))
    (client_sock : Fd) (s : σ) :
    handlersRun (runCommand handlers dump command commandName client_sock s).2.2 =
      if accepts command then (lookupHandler commandName).toList else [] := by
  obtain ⟨check, hcheck⟩ := validateCommand_isOk hname
  simp only [runCommand, accepts, hcheck]
  by_cases hstatus : check.status = 0
  · simp only [hstatus, ne_eq, not_true_eq_false, if_false, decide_true, if_true]
    cases lookupHandler commandName <;> simp [handlersRun, Event.handler?]
  · simp [hstatus, handlersRun]

theorem runCommand_responsesTo (command : Json) (commandName : String)
    (client_sock sock : Fd) (s : σ) :
    responsesTo sock
      (runCommand handlers dump command commandName client_sock s).2.2 = [] := by
  unfold runCommand
  repeat' split
  all_goals simp [responsesTo, Event.responseTo?]

theorem threadBody_responsesTo (command : Json) (commandName : String)
    (client_sock g_clientSocket : Fd) (s : σ) :
    ∃ message, responsesTo client_sock
      (threadBody handlers command commandName client_sock g_clientSocket s).2 =
        [message] := by
  unfold threadBody
  split <;> simp [responsesTo, Event.responseTo?, List.filterMap_cons]

theorem mainCommand_eq {command : Json} {commandName : String}
    (hname : command.find? COMMAND_KEY = some (.string commandName))
    (client_sock : Fd) (s : σ) :
    mainCommand handlers dump command client_sock s =
      .ok
        { code := returnCode commandName
          state := (runCommand handlers dump command commandName client_sock s).2.1
          events :=
            (runCommand handlers dump command commandName client_sock s).2.2 ++
              [.responded client_sock (endWithNewLine
                (runCommand handlers dump command commandName client_sock
                  s).1.message)] } := by
  simp only [mainCommand, commandNameOf_eq_ok hname]

theorem mainCommand_responsesTo {command : Json} {commandName : String}
    (hname : command.find? COMMAND_KEY = some (.string commandName))
    {client_sock : Fd} {s : σ} {outcome : Outcome σ}
    (hmain : mainCommand handlers dump command client_sock s = .ok outcome) :
    ∃ message, responsesTo client_sock outcome.events = [message] := by
  rw [mainCommand_eq handlers dump hname] at hmain
  obtain rfl := Except.ok.inj hmain
  simp [runCommand_responsesTo]

theorem mainCommand_handlersRun {command : Json} {commandName : String}
    (hname : command.find? COMMAND_KEY = some (.string commandName))
    {client_sock : Fd} {s : σ} {outcome : Outcome σ}
    (hmain : mainCommand handlers dump command client_sock s = .ok outcome) :
    handlersRun outcome.events =
      if accepts command then (lookupHandler commandName).toList else [] := by
  rw [mainCommand_eq handlers dump hname] at hmain
  obtain rfl := Except.ok.inj hmain
  simp [runCommand_handlersRun handlers dump hname]

theorem runCommand_cases (command : Json) (commandName : String)
    (client_sock : Fd) (s : σ) :
    (runCommand handlers dump command commandName client_sock s).2.1 = s ∨
      ∃ handler, lookupHandler commandName = some handler ∧
        (runCommand handlers dump command commandName client_sock s).2.1 =
          (handlers handler command client_sock s).2 := by
  unfold runCommand
  split
  · exact Or.inl rfl
  · split
    · exact Or.inl rfl
    · split
      · rename_i handler hhandler
        refine Or.inr ⟨handler, hhandler, ?_⟩
        simp only [callHandler]
        split <;> simp_all
      · exact Or.inl rfl

/-- Everything `mainCommand` can do to the state: nothing, or what the handler
of the command's name does. -/
theorem mainCommand_cases {command : Json} {client_sock : Fd} {s : σ}
    {outcome : Outcome σ}
    (hmain : mainCommand handlers dump command client_sock s = .ok outcome) :
    ∃ commandName, commandNameOf command = .ok commandName ∧
      outcome.code = returnCode commandName ∧
      (outcome.state = s ∨ ∃ handler,
        lookupHandler commandName = some handler ∧
          outcome.state = (handlers handler command client_sock s).2) := by
  unfold mainCommand at hmain
  split at hmain
  · contradiction
  · rename_i commandName hname
    obtain rfl := Except.ok.inj hmain
    exact ⟨commandName, hname, rfl,
      runCommand_cases handlers dump command commandName client_sock s⟩

theorem threadBody_cases (command : Json) (commandName : String)
    (client_sock g_clientSocket : Fd) (s : σ) :
    (threadBody handlers command commandName client_sock g_clientSocket s).1 = s ∨
      ∃ handler, lookupHandler commandName = some handler ∧
        (threadBody handlers command commandName client_sock g_clientSocket
          s).1 = (handlers handler command g_clientSocket s).2 := by
  unfold threadBody
  split
  · rename_i handler hhandler
    refine Or.inr ⟨handler, hhandler, ?_⟩
    simp only [callHandler]
    split <;> simp_all
  · exact Or.inl rfl

/-- The processing of a command is exactly-once precisely when its name is not
one of the slow ones, whose thread runs the handler and writes a response again,
and an accepted name has a handler at all. -/
theorem processing_exactlyOnce_iff {command : Json} {commandName : String}
    (hname : command.find? COMMAND_KEY = some (.string commandName))
    (client_sock : Fd) (s : σ) (g_clientSocket : Fd) (later : σ) :
    ∃ events,
      processing handlers dump command client_sock s g_clientSocket later =
        .ok events ∧
      (ExactlyOnce command commandName client_sock events ↔
        commandName ∉ slowCommands ∧
          (accepts command = true →
            (lookupHandler commandName).isSome = true)) := by
  obtain ⟨outcome, hmain⟩ : ∃ outcome,
      mainCommand handlers dump command client_sock s = .ok outcome :=
    ⟨_, mainCommand_eq handlers dump hname client_sock s⟩
  have hcode : outcome.code = returnCode commandName := by
    rw [mainCommand_eq handlers dump hname] at hmain
    rw [← Except.ok.inj hmain]
  obtain ⟨message, hresponse⟩ := mainCommand_responsesTo handlers dump hname hmain
  have hrun := mainCommand_handlersRun handlers dump hname hmain
  by_cases hslow : commandName ∈ slowCommands
  · have htwo : outcome.code = 2 := by
      rw [hcode, returnCode_eq_two_iff]
      exact hslow
    obtain ⟨again, hthread⟩ := threadBody_responsesTo handlers command commandName
      client_sock g_clientSocket later
    refine ⟨outcome.events ++ (threadBody handlers command commandName
      client_sock g_clientSocket later).2, ?_, ?_⟩
    · simp [processing, hmain, htwo, commandNameOf_eq_ok hname, Except.map]
    · constructor
      · intro honce
        have hlength := honce.response
        simp [hresponse, hthread] at hlength
      · rintro ⟨hnot, -⟩
        exact absurd hslow hnot
  · have hnotTwo : outcome.code ≠ 2 := by
      rw [hcode, Ne, returnCode_eq_two_iff]
      exact hslow
    refine ⟨outcome.events, by simp [processing, hmain, hnotTwo], ?_⟩
    constructor
    · intro honce
      refine ⟨hslow, fun haccepts => ?_⟩
      obtain ⟨handler, hhandler, -⟩ := honce.accepted haccepts
      simp [hhandler]
    · rintro ⟨-, hhandled⟩
      constructor
      · intro haccepts
        obtain ⟨handler, hhandler⟩ :=
          Option.isSome_iff_exists.mp (hhandled haccepts)
        exact ⟨handler, hhandler, by simp [hrun, haccepts, hhandler]⟩
      · intro hrejects
        simp [hrun, hrejects]
      · simp [hresponse]

end

/-- `{"command":"execRequest","directory":"/tmp","shellCmd":"echo hi"}`. -/
def echoRequest : Json :=
  .object [("command", .string "execRequest"), ("directory", .string "/tmp"),
    ("shellCmd", .string "echo hi")]

/-- Handlers that count their calls. -/
def countCalls : Handlers ℕ := fun _ _ _ calls => (.ok ⟨0, "hi\n"⟩, calls + 1)

/-- The shell command of an accepted `execRequest` runs twice. -/
theorem echoRequest_not_exactlyOnce :
    accepts echoRequest = true ∧
      processing countCalls (fun _ => "") echoRequest 7 0 7 1 =
        .ok [.handled .handleExecRequest, .responded 7 "hi\n",
          .handled .handleExecRequest, .responded 7 "hi\n", .closed 7] ∧
      ¬ ExactlyOnce echoRequest "execRequest" 7
        [.handled .handleExecRequest, .responded 7 "hi\n",
          .handled .handleExecRequest, .responded 7 "hi\n", .closed 7] := by
  refine ⟨by decide, ?_, fun honce => ?_⟩
  · rfl
  · exact absurd honce.response (by decide)

theorem echoRequest_exactlyOnce_iff :
    ∃ events,
      processing countCalls (fun _ => "") echoRequest 7 0 7 1 = .ok events ∧
      (ExactlyOnce echoRequest "execRequest" 7 events ↔
        "execRequest" ∉ slowCommands ∧
          (accepts echoRequest = true →
            (lookupHandler "execRequest").isSome = true)) :=
  processing_exactlyOnce_iff countCalls (fun _ => "") (by rfl) 7 0 7 1

end AutomateLinux
