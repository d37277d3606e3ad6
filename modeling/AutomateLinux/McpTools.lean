import AutomateLinux.RequiredFields

/-!
# The tools of the MCP server

The server offers the daemon's commands as tools.  A tool has a schema that says
which arguments a call may have and of which type; the command that is sent has
the arguments that are not empty.  The daemon checks a command against a table of
its own, and its handlers throw when they read a field as another type.
-/

namespace AutomateLinux

namespace McpTools

open HandlerFields Access

/-- The `type` of a property, with its `enum` if it has one. -/
inductive PropertyType where
  | string
  | number
  | oneOf (values : List String)
  | object
deriving DecidableEq, Repr

def PropertyType.admits : PropertyType → Json → Bool
  | string, value => value.is_string
  | number, value => value.is_number
  | oneOf values, .string text => values.contains text
  | oneOf _, _ => false
  | object, value => value.is_object

structure Tool where
  name : String
  command : Option String
  properties : List (String × PropertyType) := []
  required : List String := []
  args : List String := []
deriving DecidableEq, Repr

def DAEMON_TOOLS : List Tool :=
  [ ⟨"daemon_ping", some "ping", [], [], []⟩,
    ⟨"daemon_version", some "version", [], [], []⟩,
    ⟨"daemon_help", some "help", [], [], []⟩,
    ⟨"daemon_list_commands", some "listCommands", [], [], []⟩,
    ⟨"daemon_list_ports", some "listPorts", [], [], []⟩,
    ⟨"daemon_get_port", some "getPort", [("key", .string)], ["key"], ["key"]⟩,
    ⟨"daemon_set_port", some "setPort", [("key", .string), ("value", .number)],
      ["key", "value"], ["key", "value"]⟩,
    ⟨"daemon_list_apps", some "listApps", [], [], []⟩,
    ⟨"daemon_app_status", some "appStatus", [("app", .string)], [], ["app"]⟩,
    ⟨"daemon_start_app", some "startApp",
      [("app", .string), ("mode", .oneOf ["dev", "prod"])], ["app", "mode"], ["app", "mode"]⟩,
    ⟨"daemon_stop_app", some "stopApp",
      [("app", .string), ("mode", .oneOf ["dev", "prod", "all"])], ["app"], ["app", "mode"]⟩,
    ⟨"daemon_restart_app", some "restartApp",
      [("app", .string), ("mode", .oneOf ["dev", "prod"])], ["app", "mode"], ["app", "mode"]⟩,
    ⟨"daemon_build_app", some "buildApp",
      [("app", .string), ("mode", .oneOf ["dev", "prod"])], ["app", "mode"], ["app", "mode"]⟩,
    ⟨"daemon_deploy_to_prod", some "deployToProd", [("app", .string), ("commit", .string)],
      ["app"], ["app", "commit"]⟩,
    ⟨"daemon_prod_status", some "prodStatus", [("app", .string)], ["app"], ["app"]⟩,
    ⟨"daemon_show_db", some "showDB", [], [], []⟩,
    ⟨"daemon_get_entry", some "getEntry", [("key", .string)], ["key"], ["key"]⟩,
    ⟨"daemon_upsert_entry", some "upsertEntry", [("key", .string), ("value", .string)],
      ["key", "value"], ["key", "value"]⟩,
    ⟨"daemon_enable_keyboard", some "enableKeyboard", [], [], []⟩,
    ⟨"daemon_disable_keyboard", some "disableKeyboard", [], [], []⟩,
    ⟨"daemon_simulate_input", some "simulateInput",
      [("string", .string), ("type", .number), ("code", .number), ("value", .number)], [],
      ["string", "type", "code", "value"]⟩,
    ⟨"daemon_get_macros", some "getMacros", [], [], []⟩,
    ⟨"daemon_get_active_context", some "getActiveContext", [], [], []⟩,
    ⟨"daemon_list_windows", some "listWindows", [], [], []⟩,
    ⟨"daemon_activate_window", some "activateWindow", [("windowId", .string)], ["windowId"],
      ["windowId"]⟩,
    ⟨"daemon_get_peer_status", some "getPeerStatus", [], [], []⟩,
    ⟨"daemon_list_peers", some "listPeers", [], [], []⟩,
    ⟨"daemon_get_peer_info", some "getPeerInfo", [("peer", .string)], ["peer"], ["peer"]⟩,
    ⟨"daemon_exec_on_peer", some "execOnPeer",
      [("peer", .string), ("directory", .string), ("shellCmd", .string)],
      ["peer", "directory", "shellCmd"], ["peer", "directory", "shellCmd"]⟩,
    ⟨"daemon_remote_pull", some "remotePull", [("peer", .string)], ["peer"], ["peer"]⟩,
    ⟨"daemon_remote_bd", some "remoteBd", [("peer", .string)], ["peer"], ["peer"]⟩,
    ⟨"daemon_remote_deploy_daemon", some "remoteDeployDaemon", [("peer", .string)], ["peer"],
      ["peer"]⟩,
    ⟨"daemon_send_command", none, [("command", .string), ("args", .object)], ["command"],
      []⟩ ]

/-- The members of the arguments, if the request has any. -/
abbrev Arguments := Option (List (String × Json))

/-- A property of what may be `undefined` cannot be read. -/
def toolArg (arguments : Arguments) (arg : String) : Except String (Option Json) :=
  match arguments with
  | some members => .ok (members.lookup arg)
  | none => .error ("Cannot read properties of undefined (reading '" ++ arg ++ "')")

/-- `toolArgs[arg] !== undefined && toolArgs[arg] !== null && toolArgs[arg] !== ""`. -/
def hasValue : Option Json → Bool
  | none => false
  | some .null => false
  | some (.string text) => text ≠ ""
  | some _ => true

/-- The arguments that have values. -/
def argumentMembers (arguments : Arguments) :
    List String → Except String (List (String × Json))
  | [] => .ok []
  | arg :: args => do
      let value ← toolArg arguments arg
      let members ← argumentMembers arguments args
      match value with
      | some value =>
          if hasValue (some value) then return (arg, value) :: members else return members
      | none => return members

/-- What `{ command: cmdArgs.command, ...cmdArgs.args }` has: a member of `args` comes
after the command and replaces one of the same name. -/
def spread (command : Option Json) (args : List (String × Json)) : List (String × Json) :=
  match args.lookup COMMAND_KEY with
  | some other => (COMMAND_KEY, other) :: args.filter fun member => member.1 ≠ COMMAND_KEY
  | none => (command.map fun name => (COMMAND_KEY, name)).toList ++ args

/-- The command a call sends, or the text of its error. -/
def commandObj (name : String) (arguments : Arguments) : Except String Json :=
  match DAEMON_TOOLS.find? fun tool => tool.name = name with
  | none => .error ("Unknown tool: " ++ name)
  | some tool =>
      match tool.command with
      | none => do
          let command ← toolArg arguments "command"
          let args ← toolArg arguments "args"
          match args with
          | some (.object members) => return .object (spread command members)
          | _ => return .object (spread command [])
      | some command => do
          let members ← argumentMembers arguments tool.args
          return .object ((COMMAND_KEY, .string command) :: members)

/-- The arguments meet the tool's `inputSchema`. -/
structure Conforms (tool : Tool) (arguments : Arguments) : Prop where
  required : ∀ key ∈ tool.required, ∃ value, (arguments.getD []).lookup key = some value
  typed : ∀ property ∈ tool.properties, ∀ value,
    (arguments.getD []).lookup property.1 = some value → property.2.admits value = true

/-! ## Reading well-typed fields -/

section

variable {command : Json} {s : HandlerFields.Surroundings} {α β : Type}

/-- The program comes to an end without throwing. -/
def Returns (x : Reads α) (command : Json) (s : HandlerFields.Surroundings) : Prop :=
  ∃ a, x command s = .returns a

theorem returns_pure (a : α) : Returns (pure a : Reads α) command s := ⟨a, rfl⟩

theorem Returns.bind {x : Reads α} {next : α → Reads β} (hx : Returns x command s)
    (hnext : ∀ a, Returns (next a) command s) : Returns (x >>= next) command s := by
  obtain ⟨a, ha⟩ := hx
  obtain ⟨b, hb⟩ := hnext a
  exact ⟨b, by simp only [Bind.bind, ha, hb]⟩

theorem Returns.bind_of_eq {x : Reads α} {next : α → Reads β} {a : α}
    (hx : x command s = .returns a) (hnext : Returns (next a) command s) :
    Returns (x >>= next) command s := by
  obtain ⟨b, hb⟩ := hnext
  exact ⟨b, by simp only [Bind.bind, hx, hb]⟩

theorem field_eq {key : String} {member : Json} (hkey : command.find? key = some member) :
    field key command s = .returns member := by
  simp only [field, subscript, hkey]

theorem returns_getField {key : String} {get : Json → Except Exn α} {member : Json} {a : α}
    (hkey : command.find? key = some member) (hget : get member = .ok a) :
    Returns (getField key get) command s :=
  .bind_of_eq (field_eq hkey) ⟨a, by simp only [fromExcept, hget]⟩

theorem returns_text {key : String} (hkey : ∃ value, command.find? key = some (.string value)) :
    Returns (text key) command s := by
  obtain ⟨value, hkey⟩ := hkey
  have hget : Returns (getField key Json.getString) command s := returns_getField hkey rfl
  exact hget.bind fun _ => returns_pure _

theorem returns_texts {keys : List String}
    (hkeys : ∀ key ∈ keys, ∃ value, command.find? key = some (.string value)) :
    Returns (texts keys) command s := by
  induction keys with
  | nil => exact returns_pure []
  | cons key keys ih =>
      exact (returns_text (hkeys key List.mem_cons_self)).bind fun _ =>
        (ih fun other hother => hkeys other (List.mem_cons_of_mem _ hother)).bind fun _ =>
          returns_pure _

/-- A field that is a text where the command has it. -/
def TextIfPresent (command : Json) (key : String) : Prop :=
  ∀ member, command.find? key = some member → member.is_string = true

theorem TextIfPresent.exists_text {key : String} (htext : TextIfPresent command key)
    (hkey : command.contains key = true) :
    ∃ value, command.find? key = some (.string value) := by
  obtain ⟨member, hmember⟩ := Json.find?_of_contains hkey
  cases member with
  | string value => exact ⟨value, hmember⟩
  | _ => cases htext _ hmember

theorem returns_textOr {key : String} (fallback : String) (htext : TextIfPresent command key) :
    Returns (textOr key fallback) command s := by
  have hoptional : Returns (optional key Json.getString fallback) command s := by
    refine Returns.bind_of_eq rfl ?_
    split
    · next hkey =>
        obtain ⟨value, hfind⟩ := htext.exists_text hkey
        exact returns_getField hfind rfl
    · exact returns_pure _
  exact hoptional.bind fun _ => returns_pure _

theorem returns_requiring {keys : List String} {next : Reads CmdResult} (message : String)
    (hnext : (∀ key ∈ keys, command.contains key = true) → Returns next command s) :
    Returns (requiring keys message next) command s := by
  refine Returns.bind_of_eq rfl ?_
  split
  · next hall => exact hnext (List.all_eq_true.mp hall)
  · exact returns_pure _

theorem returns_getNumber {key : String} {get : Json → Except Exn α} {member : Json}
    (hkey : command.find? key = some member) (hmember : member.is_number = true)
    (hget : ∀ j : Json, j.is_number = true → ∃ a, get j = .ok a) :
    Returns (getField key get) command s := by
  obtain ⟨a, ha⟩ := hget member hmember
  exact returns_getField hkey ha

theorem getInt_of_is_number (width : ℕ) {j : Json} (hj : j.is_number = true) :
    ∃ value, j.getInt width = .ok value := by
  cases j <;> first | exact ⟨_, rfl⟩ | cases hj

theorem getUInt_of_is_number (width : ℕ) {j : Json} (hj : j.is_number = true) :
    ∃ value, j.getUInt width = .ok value := by
  obtain ⟨value, hvalue⟩ := getInt_of_is_number 64 hj
  exact ⟨_, by rw [Json.getUInt, hvalue]; rfl⟩

/-- How a handler reads a field. -/
inductive FieldKind where
  | text
  | number
  | either
deriving DecidableEq, Repr

def FieldKind.fits : FieldKind → Json → Bool
  | text, value => value.is_string
  | number, value => value.is_number
  | either, value => value.is_string || value.is_number

def fieldKind : Handler → String → FieldKind
  | .handleSetPort, key => if key = "value" then .either else .text
  | .handleSimulateInput, key =>
      if key = "type" ∨ key = "code" ∨ key = "value" then .number else .text
  | _, _ => .text

/-- The handlers that read anything else, or read a number out of a text. -/
def readsOtherwise : Handler → Bool
  | .handleTestLsof | .handleOpenedTty | .handleClosedTty | .handleUpdateDirHistory
  | .handleCdForward | .handleCdBackward | .handleShowTerminalInstance | .handleSetKeyboard
  | .handleActiveWindowChanged | .handleAddExtraApp | .handleSetPeerConfig
  | .handleRegisterPeer | .handleUpdatePeerMacInternal | .handleSetupWireGuardPeer
  | .handleSetupRdp | .handleShouldLog => true
  | _ => false

def WellTyped (handler : Handler) (command : Json) : Prop :=
  ∀ key member, command.find? key = some member → (fieldKind handler key).fits member = true

/-- What a handler does with its arguments does not throw. -/
def Works (s : HandlerFields.Surroundings) : Prop :=
  ∀ handler arguments, ∃ result, s.finish handler arguments = .ok result

theorem returns_finish (hs : Works s) (handler : Handler) (arguments : List Json) :
    Returns (finish handler arguments) command s := by
  obtain ⟨result, hresult⟩ := hs handler arguments
  exact Returns.bind_of_eq rfl ⟨result, by simp only [fromExcept, hresult]⟩

theorem returns_withTexts (hs : Works s) (handler : Handler) {keys : List String}
    (hpresent : ∀ key ∈ keys, command.contains key = true)
    (htexts : ∀ key ∈ keys, TextIfPresent command key) :
    Returns (withTexts handler keys) command s :=
  (returns_texts fun key hkey => (htexts key hkey).exists_text (hpresent key hkey)).bind
    fun arguments => returns_finish hs handler arguments

theorem returns_textsOr {options : List (String × String)}
    (htexts : ∀ option ∈ options, TextIfPresent command option.1) :
    Returns (textsOr options) command s := by
  induction options with
  | nil => exact returns_pure []
  | cons option options ih =>
      exact (returns_textOr option.2 (htexts option List.mem_cons_self)).bind fun _ =>
        (ih fun other hother => htexts other (List.mem_cons_of_mem _ hother)).bind fun _ =>
          returns_pure _

theorem returns_withArguments (hs : Works s) (handler : Handler) (message : String)
    (keys : List String) (options : List (String × String))
    (htexts : ∀ key, TextIfPresent command key) :
    Returns (withArguments handler message keys options) command s :=
  returns_requiring message fun hkeys =>
    (returns_texts fun key hkey => (htexts key).exists_text (hkeys key hkey)).bind fun _ =>
      (returns_textsOr fun option _ => htexts option.1).bind fun _ => returns_finish hs handler _

theorem returns_onLeader {own : Reads CmdResult} (hown : Returns own command s) :
    Returns (onLeader own) command s := by
  refine Returns.bind_of_eq rfl ?_
  split
  · exact returns_pure _
  · exact hown

theorem returns_parsing (hs : Works s) (handler : Handler) (failure : String)
    (hpresent : command.contains "value" = true) (htext : TextIfPresent command "value") :
    Returns (parsing handler failure) command s := by
  obtain ⟨result, hresult⟩ := returns_withTexts hs handler
    (by simpa using hpresent : ∀ key ∈ ["value"], command.contains key = true)
    (by simpa using htext)
  exact ⟨result, by simp only [HandlerFields.parsing, catching, hresult]⟩

theorem returns_handleSetPort (hs : Works s)
    (hpresent : ∀ key ∈ ["key", "value"], command.contains key = true)
    (htyped : WellTyped .handleSetPort command) : Returns handleSetPort command s := by
  have hkey : TextIfPresent command "key" := fun member hmember => htyped "key" member hmember
  obtain ⟨value, hvalue⟩ := Json.find?_of_contains (hpresent "value" (by simp))
  refine returns_onLeader ((returns_text (hkey.exists_text (hpresent "key" (by simp)))).bind
    fun key => ?_)
  refine .bind_of_eq (field_eq hvalue) ?_
  split
  · next hnumber =>
      exact (returns_getNumber hvalue hnumber fun _ => getInt_of_is_number 64).bind fun _ =>
        returns_finish hs _ _
  · next hnumber =>
      have hfits : (value.is_string || value.is_number) = true := htyped "value" value hvalue
      rw [Bool.not_eq_true] at hnumber
      rw [hnumber, Bool.or_false] at hfits
      cases value with
      | string text => exact (returns_text ⟨text, hvalue⟩).bind fun _ => returns_finish hs _ _
      | _ => cases hfits

theorem returns_handleSimulateInput (hs : Works s)
    (htyped : WellTyped .handleSimulateInput command) :
    Returns handleSimulateInput command s := by
  have hone : ∀ key, fieldKind .handleSimulateInput key = .text →
      command.contains key = true → Returns (withTexts .handleSimulateInput [key]) command s :=
    fun key hkind hkey => returns_withTexts hs _ (by simpa using hkey) (by
      simp only [List.mem_singleton, forall_eq]
      intro member hmember
      simpa [hkind, FieldKind.fits] using htyped key member hmember)
  have hnumber : ∀ key, fieldKind .handleSimulateInput key = .number →
      command.contains key = true →
      ∃ member, command.find? key = some member ∧ member.is_number = true := by
    intro key hkind hkey
    obtain ⟨member, hmember⟩ := Json.find?_of_contains hkey
    exact ⟨member, hmember, by simpa [hkind, FieldKind.fits] using htyped key member hmember⟩
  refine Returns.bind_of_eq rfl ?_
  split
  · next hstring => exact hone "string" rfl hstring
  refine Returns.bind_of_eq rfl ?_
  split
  · next hkey => exact hone "key" rfl hkey
  refine returns_requiring _ fun hkeys => ?_
  obtain ⟨type, htype, htypeNumber⟩ := hnumber "type" rfl (hkeys "type" (by simp))
  obtain ⟨code, hcode, hcodeNumber⟩ := hnumber "code" rfl (hkeys "code" (by simp))
  obtain ⟨value, hvalue, hvalueNumber⟩ := hnumber "value" rfl (hkeys "value" (by simp))
  exact (returns_getNumber htype htypeNumber fun _ => getUInt_of_is_number 16).bind fun _ =>
    (returns_getNumber hcode hcodeNumber fun _ => getUInt_of_is_number 16).bind fun _ =>
      (returns_getNumber hvalue hvalueNumber fun _ => getInt_of_is_number 32).bind fun _ =>
        returns_finish hs _ _

theorem text_eq {key value : String} (hkey : command.find? key = some (.string value)) :
    text key command s = .returns (.string value) := by
  simp only [text, getField, Bind.bind, field_eq hkey, fromExcept, Json.getString]
  rfl

theorem returns_remotely (hs : Works s) {directory cmd : String}
    (hpresent : command.contains "peer" = true) (htext : TextIfPresent command "peer") :
    Returns (remotely directory cmd) command s := by
  obtain ⟨peer, hpeer⟩ := htext.exists_text hpresent
  refine .bind_of_eq (text_eq hpeer) ?_
  have hexec : ∀ key ∈ ["peer", "directory", "shellCmd"], ∃ value,
      (Json.object [("command", .string "execOnPeer"), ("peer", .string peer),
        ("directory", .string directory), ("shellCmd", .string cmd)]).find? key =
          some (.string value) := by
    simp [Json.find?, List.lookup]
  exact (returns_texts hexec).bind fun arguments => returns_finish hs _ arguments

/-- A handler comes to an end on a command that has the fields it subscripts
unasked, if every field is of the type the handler reads it as. -/
theorem returns_handle (hs : Works s) {handler : Handler}
    (hhandler : readsOtherwise handler = false)
    (hpresent : ∀ key ∈ subscripted handler, command.contains key = true)
    (htyped : WellTyped handler command) : Returns (handle handler) command s := by
  have htexts : (∀ key, fieldKind handler key = .text) → ∀ key, TextIfPresent command key :=
    fun hkind key member hmember => by
      simpa [hkind, FieldKind.fits] using htyped key member hmember
  cases handler
  case handleSetPort => exact returns_handleSetPort hs hpresent htyped
  case handleSimulateInput => exact returns_handleSimulateInput hs htyped
  case handleUpdateMacros | handleSetEventFilters =>
    exact returns_parsing hs _ _ (hpresent "value" (by decide)) (htexts (fun _ => rfl) "value")
  case handleGetPort | handleDeletePort =>
    exact returns_onLeader (returns_withTexts hs _ hpresent fun key _ =>
      htexts (fun _ => rfl) key)
  case handlePublicTransportationOpenApp =>
    refine Returns.bind_of_eq rfl ?_
    split
    · next hvariant =>
        exact returns_withTexts hs _ (by simpa using hvariant) fun key _ =>
          htexts (fun _ => rfl) key
    · exact returns_finish hs _ _
  case handleRemotePull | handleRemoteBd =>
    exact returns_remotely hs (hpresent "peer" (by decide)) (htexts (fun _ => rfl) "peer")
  case handleAppStatus =>
    exact (returns_textOr "" (htexts (fun _ => rfl) "app")).bind fun _ => returns_finish hs _ _
  case handleGetDir | handleGetFile | handleTestEcho | handleTestLsofScript |
      handleShellSignal | handleShowEntriesByPrefix | handleDeleteEntry |
      handleUpsertEntry | handleGetEntry | handleToggleKeyboard | handleSetActiveTabUrl |
      handleGetAppPeers | handleDeletePeer | handleGetPeerInfo | handleExecOnPeer |
      handleExecRequest | handleRemoteDeployDaemon =>
    exact returns_withTexts hs _ hpresent fun key _ => htexts (fun _ => rfl) key
  case handleStartApp | handleStopApp | handleRestartApp | handleBuildApp |
      handleInstallAppDeps | handleEnableApp | handleDisableApp | handleRemoveExtraApp |
      handleDeployToProd | handleProdStatus | handleCleanProd | handleInstallAppOnPeer |
      handleUninstallAppOnPeer | handleStartAppOnPeer | handleStopAppOnPeer |
      handleInstallAppServices =>
    exact returns_withArguments hs _ _ _ _ (htexts fun _ => rfl)
  all_goals first
    | exact returns_finish hs _ []
    | cases hhandler

end

/-! ## The two tables -/

/-- Every value of the type can be read so. -/
def PropertyType.within : PropertyType → FieldKind → Bool
  | string, kind => kind ≠ .number
  | number, kind => kind ≠ .text
  | oneOf _, kind => kind ≠ .number
  | object, _ => false

theorem PropertyType.fits_of_within {type : PropertyType} {kind : FieldKind} {value : Json}
    (hwithin : type.within kind = true) (hadmits : type.admits value = true) :
    kind.fits value = true := by
  cases type <;> cases kind <;> cases value <;>
    simp_all [within, admits, FieldKind.fits, Json.is_string, Json.is_number]

/-- A required argument that the daemon does not require cannot be empty. -/
def PropertyType.excludesEmpty : PropertyType → Bool
  | oneOf values => !values.contains ""
  | _ => false

/-- What the daemon knows of a tool's command fits the tool's schema. -/
def Agrees (tool : Tool) (row : CommandSignature) (handler : Handler) : Prop :=
  readsOtherwise handler = false ∧ COMMAND_KEY ∉ tool.args ∧
    (∀ key ∈ row.requiredArgs, key ∈ tool.required) ∧ (∀ key ∈ tool.required, key ∈ tool.args) ∧
    (∀ key ∈ tool.args, ∃ property ∈ tool.properties, property.1 = key ∧
      property.2.within (fieldKind handler key) = true) ∧
    ∀ key ∈ tool.required, key ∈ row.requiredArgs ∨
      ∃ property ∈ tool.properties, property.1 = key ∧ property.2.excludesEmpty = true

instance (tool : Tool) (row : CommandSignature) (handler : Handler) :
    Decidable (Agrees tool row handler) := by
  unfold Agrees
  infer_instance

theorem agrees_of_mem :
    ∀ tool ∈ DAEMON_TOOLS, ∀ command ∈ tool.command,
      ∃ row ∈ COMMAND_REGISTRY.find? fun row => row.name = command,
        ∃ handler ∈ lookupHandler command, Agrees tool row handler := by
  decide +kernel

theorem find_tool : ∀ tool ∈ DAEMON_TOOLS,
    DAEMON_TOOLS.find? (fun other => other.name = tool.name) = some tool := by
  decide +kernel

/-! ## Calls -/

/-- The arguments a command gets. -/
def sentMembers (members : List (String × Json)) (args : List String) : List (String × Json) :=
  args.filterMap fun arg =>
    ((members.lookup arg).filter fun value => hasValue (some value)).map fun value => (arg, value)

theorem argumentMembers_some (members : List (String × Json)) (args : List String) :
    argumentMembers (some members) args = .ok (sentMembers members args) := by
  induction args with
  | nil => rfl
  | cons arg args ih =>
      simp only [argumentMembers, toolArg, ih, Bind.bind, Except.bind, sentMembers,
        List.filterMap_cons]
      cases members.lookup arg with
      | none => rfl
      | some value =>
          by_cases hvalue : hasValue (some value) = true
          · simp [hvalue, Option.filter]
            rfl
          · simp [hvalue, Option.filter]
            rfl

theorem lookup_sentMembers (members : List (String × Json)) (args : List String)
    (key : String) : (sentMembers members args).lookup key =
      if key ∈ args then (members.lookup key).filter fun value => hasValue (some value)
      else none := by
  induction args with
  | nil => rfl
  | cons arg args ih =>
      cases hvalue : (members.lookup arg).filter fun value => hasValue (some value) with
      | none =>
          have hrest : sentMembers members (arg :: args) = sentMembers members args := by
            simp [sentMembers, hvalue]
          rw [hrest, ih]
          by_cases hkey : key = arg
          · subst hkey
            simp [hvalue]
          · simp [hkey]
      | some value =>
          have hrest : sentMembers members (arg :: args) =
              (arg, value) :: sentMembers members args := by
            simp [sentMembers, hvalue]
          rw [hrest, List.lookup_cons, ih]
          by_cases hkey : key = arg
          · subst hkey
            simp [hvalue]
          · simp [hkey, beq_false_of_ne hkey]

theorem accepts_object_iff {name : String} {members : List (String × Json)}
    {row : CommandSignature}
    (hrow : COMMAND_REGISTRY.find? (fun row => row.name = name) = some row) :
    accepts (.object ((COMMAND_KEY, .string name) :: members)) = true ↔
      ∀ key ∈ row.requiredArgs,
        (Json.object ((COMMAND_KEY, .string name) :: members)).contains key = true := by
  have hname : (Json.object ((COMMAND_KEY, .string name) :: members)).find? COMMAND_KEY =
      some (.string name) := by
    simp [Json.find?]
  unfold accepts validateCommand
  rw [hname]
  simp only [Json.getString, hrow]
  cases hmissing : row.requiredArgs.find? fun arg =>
      !(Json.object ((COMMAND_KEY, .string name) :: members)).contains arg with
  | none => simpa using List.find?_eq_none.mp hmissing
  | some arg =>
      have hmem := List.mem_of_find?_eq_some hmissing
      have habsent := List.find?_some hmissing
      simp only [Int.reduceEq, decide_false, Bool.false_eq_true, false_iff]
      intro hall
      simp [hall arg hmem] at habsent

/-- The daemon takes the command, and the handler it goes to does not throw before
it has read what it needs. -/
def Handled (command : Json) : Prop :=
  accepts command = true ∧
    ∃ handler, ClientSender.dispatched command = some handler ∧
      ∀ s, Works s → Returns (handle handler) command s

section

variable {tool : Tool} {name : String} {row : CommandSignature} {handler : Handler}

theorem find?_command (members : List (String × Json)) (args : List String) (key : String) :
    (Json.object ((COMMAND_KEY, .string name) :: sentMembers members args)).find? key =
      if key = COMMAND_KEY then some (.string name)
      else if key ∈ args then
        (members.lookup key).filter fun value => hasValue (some value)
      else none := by
  rw [Json.find?, List.lookup_cons, lookup_sentMembers]
  by_cases hkey : key = COMMAND_KEY
  · simp [hkey]
  · simp [hkey, beq_false_of_ne hkey]

theorem fieldKind_command (handler : Handler) : fieldKind handler COMMAND_KEY = .text := by
  unfold fieldKind
  split <;> simp [COMMAND_KEY]

theorem wellTyped_command (hagrees : Agrees tool row handler)
    {members : List (String × Json)} (hconforms : Conforms tool (some members)) :
    WellTyped handler
      (.object ((COMMAND_KEY, .string name) :: sentMembers members tool.args)) := by
  obtain ⟨-, -, -, -, hargs, -⟩ := hagrees
  intro key member hmember
  rw [find?_command] at hmember
  split_ifs at hmember with hkey harg
  · obtain rfl := Option.some.inj hmember
    rw [hkey, fieldKind_command]
    rfl
  · obtain ⟨property, hproperty, rfl, hwithin⟩ := hargs key harg
    obtain ⟨hlookup, -⟩ := Option.filter_eq_some_iff.mp hmember
    exact PropertyType.fits_of_within hwithin (hconforms.typed property hproperty member hlookup)

/-- A required argument reaches the daemon unless it is the empty string. -/
theorem contains_command_iff (hagrees : Agrees tool row handler)
    {members : List (String × Json)} (hconforms : Conforms tool (some members)) {key : String}
    (hkey : key ∈ tool.required) :
    (Json.object ((COMMAND_KEY, .string name) :: sentMembers members tool.args)).contains key =
        true ↔ members.lookup key ≠ some (.string "") := by
  obtain ⟨-, hcommand, -, hrequired, hargs, -⟩ := hagrees
  have harg := hrequired key hkey
  have hne : key ≠ COMMAND_KEY := fun heq => hcommand (heq ▸ harg)
  obtain ⟨value, hvalue⟩ := hconforms.required key hkey
  obtain ⟨property, hproperty, rfl, hwithin⟩ := hargs key harg
  have hadmits := hconforms.typed property hproperty value hvalue
  change List.lookup property.1 members = some value at hvalue
  rw [Json.contains, find?_command, if_neg hne, if_pos harg, hvalue]
  have hnull : value ≠ .null := by
    rintro rfl
    have hfits := PropertyType.fits_of_within hwithin hadmits
    cases hkind : fieldKind handler property.1 <;> rw [hkind] at hfits <;> cases hfits
  cases value <;> simp_all [Option.filter, hasValue]

theorem accepts_iff_of_agrees (hagrees : Agrees tool row handler)
    (hrow : COMMAND_REGISTRY.find? (fun row => row.name = name) = some row)
    {members : List (String × Json)} (hconforms : Conforms tool (some members)) :
    accepts (.object ((COMMAND_KEY, .string name) :: sentMembers members tool.args)) = true ↔
      ∀ key ∈ tool.required, members.lookup key ≠ some (.string "") := by
  have hcontains := fun key => @contains_command_iff tool name row handler hagrees members
    hconforms key
  obtain ⟨-, -, hrowRequired, -, -, hunrequired⟩ := hagrees
  rw [accepts_object_iff hrow]
  constructor
  · intro haccepts key hkey
    rcases hunrequired key hkey with hrequired | ⟨property, hproperty, rfl, hempty⟩
    · exact (hcontains key hkey).mp (haccepts key hrequired)
    · intro hvalue
      have hadmits := hconforms.typed property hproperty _ hvalue
      cases htype : property.2 <;> rw [htype] at hempty hadmits <;>
        simp_all [PropertyType.excludesEmpty, PropertyType.admits]
  · intro hvalues key hkey
    exact (hcontains key (hrowRequired key hkey)).mpr (hvalues key (hrowRequired key hkey))

theorem handled_of_accepts (hagrees : Agrees tool row handler)
    (hlookup : lookupHandler name = some handler) {members : List (String × Json)}
    (hconforms : Conforms tool (some members))
    (haccepts : accepts (.object ((COMMAND_KEY, .string name) ::
      sentMembers members tool.args)) = true) :
    Handled (.object ((COMMAND_KEY, .string name) :: sentMembers members tool.args)) := by
  have htyped : WellTyped handler
      (.object ((COMMAND_KEY, .string name) :: sentMembers members tool.args)) :=
    wellTyped_command hagrees hconforms
  have hreads := hagrees.1
  have hname : (Json.object ((COMMAND_KEY, .string name) ::
      sentMembers members tool.args)).find? COMMAND_KEY = some (.string name) := by
    rw [find?_command, if_pos rfl]
  have hdispatched : ClientSender.dispatched
      (.object ((COMMAND_KEY, .string name) :: sentMembers members tool.args)) = some handler := by
    rw [dispatched_eq hname, hlookup]
  refine ⟨haccepts, handler, hdispatched, fun s hs => returns_handle hs hreads ?_ htyped⟩
  exact present_of_accepts haccepts hdispatched fun heq => by
    rw [heq] at hreads
    cases hreads

end

def daemon_set_port : Tool :=
  ⟨"daemon_set_port", some "setPort", [("key", .string), ("value", .number)],
    ["key", "value"], ["key", "value"]⟩

end McpTools

end AutomateLinux
