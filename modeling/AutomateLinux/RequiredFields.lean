import AutomateLinux.HandlerFields

/-!
# Validated commands have their fields

A handler asks for the fields the registry does not require of its command before
it subscripts them, with one exception: nothing is required of
`updatePeerMacInternal`, and its handler reads both its fields unasked.
-/

namespace AutomateLinux

namespace HandlerFields

open Access

/-- The fields a handler subscripts without having asked for them. -/
def subscripted : Handler → List String
  | .handleGetDir => ["dirName"]
  | .handleGetFile => ["fileName"]
  | .handleTestLsof | .handleTestLsofScript => ["port"]
  | .handleTestEcho => ["message"]
  | .handleUpdateDirHistory => ["pwd"]
  | .handleShellSignal => ["signal"]
  | .handleShowEntriesByPrefix => ["prefix"]
  | .handleDeleteEntry | .handleGetEntry | .handleGetPort | .handleDeletePort => ["key"]
  | .handleUpsertEntry | .handleSetPort => ["key", "value"]
  | .handleSetKeyboard | .handleActiveWindowChanged =>
      ["windowTitle", "wmClass", "wmInstance", "windowId"]
  | .handleToggleKeyboard | .handleShouldLog => ["enable"]
  | .handleUpdateMacros | .handleSetEventFilters => ["value"]
  | .handleSetActiveTabUrl => ["url"]
  | .handleGetAppPeers => ["app"]
  | .handleDeletePeer | .handleGetPeerInfo | .handleRemotePull | .handleRemoteBd
  | .handleRemoteDeployDaemon => ["peer"]
  | .handleExecOnPeer => ["peer", "directory", "shellCmd"]
  | .handleExecRequest => ["directory", "shellCmd"]
  | .handleUpdatePeerMacInternal => ["peer_id", "mac"]
  | .handleSetupWireGuardPeer => ["name"]
  | _ => []

section

variable {command : Json} {s : Surroundings} {α : Type}

/-! ## Reading -/

theorem defined_field_iff (key : String) :
    Defined (field key) command s ↔ command.contains key = true :=
  defined_subscript Json.find? key

theorem defined_getField {key : String} (hkey : command.contains key = true)
    (get : Json → Except Exn α) : Defined (getField key get) command s :=
  ((defined_field_iff key).mpr hkey).bind fun _ => defined_fromExcept _

theorem defined_text {key : String} (hkey : command.contains key = true) :
    Defined (text key) command s :=
  (defined_getField hkey _).bind fun _ => defined_pure _

/-- What is subscripted where the command contains the field. -/
theorem defined_contains_bind {key : String} {present absent : Reads α}
    (hpresent : command.contains key = true → Defined present command s)
    (habsent : Defined absent command s) :
    Defined (contains key >>= fun found => if found = true then present else absent)
      command s := by
  rw [contains, defined_ask_bind]
  split
  · rename_i hkey
    exact hpresent hkey
  · exact habsent

theorem defined_optional (key : String) (get : Json → Except Exn α) (fallback : α) :
    Defined (optional key get fallback) command s :=
  defined_contains_bind (fun hkey => defined_getField hkey get) (defined_pure fallback)

theorem defined_given (key : String) (get : Json → Except Exn α) :
    Defined (given key get) command s :=
  defined_optional key _ none

theorem defined_textOr (key fallback : String) :
    Defined (textOr key fallback) command s :=
  (defined_optional key _ fallback).bind fun _ => defined_pure _

theorem defined_valueOr (key : String) (get : Json → Except Exn α) (fallback : α) :
    Defined (valueOr key get fallback) command s :=
  (defined_ask _).bind fun _ => defined_fromExcept _

theorem defined_text_bind_iff (key : String) (next : Json → Reads α) :
    Defined (text key >>= next) command s ↔
      ∃ member, command.find? key = some member ∧
        ∀ value, member.getString = .ok value → Defined (next (.string value)) command s := by
  rw [text, getField, bind_assoc, bind_assoc, field, defined_subscript_bind]
  refine exists_congr fun member => and_congr_right fun _ => ?_
  rw [defined_fromExcept_bind]
  rfl

/-- Texts are read up to the first that is none. -/
theorem defined_texts_cons_iff (key : String) (keys : List String) :
    Defined (texts (key :: keys)) command s ↔
      ∃ member, command.find? key = some member ∧
        (member.is_string = true → Defined (texts keys) command s) := by
  have hrest : ∀ value, Defined (texts keys >>= fun values => pure (value :: values)) command s ↔
      Defined (texts keys) command s := fun value => by
    rw [defined_bind_iff, and_iff_left fun _ _ => defined_pure _]
  rw [texts, defined_text_bind_iff]
  simp only [hrest]
  refine exists_congr fun member => and_congr_right fun _ => ?_
  cases member <;> simp [Json.getString, Json.is_string]

theorem defined_texts {keys : List String}
    (hkeys : ∀ key ∈ keys, command.contains key = true) : Defined (texts keys) command s := by
  induction keys with
  | nil => exact defined_pure []
  | cons key keys ih =>
      obtain ⟨member, hmember⟩ :=
        Option.isSome_iff_exists.mp (hkeys key List.mem_cons_self)
      exact (defined_texts_cons_iff key keys).mpr
        ⟨member, hmember, fun _ => ih fun key' hkey' => hkeys key' (List.mem_cons_of_mem key hkey')⟩

theorem defined_textsOr (options : List (String × String)) :
    Defined (textsOr options) command s := by
  induction options with
  | nil => exact defined_pure []
  | cons option options ih =>
      exact (defined_textOr option.1 option.2).bind fun _ => ih.bind fun _ => defined_pure _

theorem defined_finish (handler : Handler) (arguments : List Json) :
    Defined (finish handler arguments) command s :=
  (defined_ask _).bind fun _ => defined_fromExcept _

theorem defined_requiring {keys : List String} {next : Reads CmdResult} (message : String)
    (hnext : (∀ key ∈ keys, command.contains key = true) → Defined next command s) :
    Defined (requiring keys message next) command s := by
  unfold requiring
  rw [defined_ask_bind]
  split
  · rename_i hall
    exact hnext (List.all_eq_true.mp hall)
  · exact defined_pure _

/-! ## Families of handlers -/

theorem defined_withTexts_iff (handler : Handler) (keys : List String) :
    Defined (withTexts handler keys) command s ↔ Defined (texts keys) command s := by
  rw [withTexts, defined_bind_iff, and_iff_left fun _ _ => defined_finish handler _]

theorem defined_withTexts {handler : Handler} {keys : List String}
    (hkeys : ∀ key ∈ keys, command.contains key = true) :
    Defined (withTexts handler keys) command s :=
  (defined_withTexts_iff handler keys).mpr (defined_texts hkeys)

theorem defined_parsing {handler : Handler} {failure : String}
    (hkeys : ∀ key ∈ ["value"], command.contains key = true) :
    Defined (parsing handler failure) command s :=
  (defined_withTexts hkeys).catching _

theorem defined_withArguments (handler : Handler) (message : String) (keys : List String)
    (options : List (String × String)) :
    Defined (withArguments handler message keys options) command s :=
  defined_requiring message fun hkeys =>
    (defined_texts hkeys).bind fun _ =>
      (defined_textsOr options).bind fun _ => defined_finish handler _

theorem defined_jsonString (key : String) : Defined (jsonString key) command s := by
  refine defined_contains_bind (fun hkey => ?_) (defined_pure "")
  exact ((defined_field_iff key).mpr hkey).bind fun _ => defined_ask _

theorem defined_withTty {next : Int → Reads CmdResult}
    (hnext : ∀ tty, Defined (next tty) command s) : Defined (withTty next) command s := by
  refine (defined_jsonString "tty").bind fun ttyStr => ?_
  split
  · exact defined_pure _
  · exact (defined_fromExcept _).bind hnext

theorem defined_finishTty (handler : Handler) : Defined (finishTty handler) command s :=
  defined_withTty fun _ => defined_finish handler _

theorem defined_onLeader {own : Reads CmdResult} (hown : Defined own command s) :
    Defined (onLeader own) command s := by
  unfold onLeader
  rw [defined_ask_bind]
  split
  · exact defined_pure _
  · exact hown

theorem defined_onActiveWindowChanged {handler : Handler}
    (hkeys : ∀ key ∈ ["windowTitle", "wmClass", "wmInstance", "windowId"],
      command.contains key = true) :
    Defined (onActiveWindowChanged handler) command s := by
  have htexts : Defined (texts ["windowTitle", "wmClass", "wmInstance"]) command s :=
    defined_texts fun key hkey => hkeys key (List.mem_append_left ["windowId"] hkey)
  have hagain : Defined (texts ["wmClass", "windowTitle"]) command s :=
    defined_texts fun key hkey => hkeys key (by
      simp only [List.mem_cons, List.not_mem_nil, or_false] at hkey ⊢
      tauto)
  exact htexts.bind fun _ =>
    (defined_getField (hkeys "windowId" (by simp)) _).bind fun _ =>
      hagain.bind fun _ => defined_finish handler _

theorem defined_remotely {directory cmd : String}
    (hkeys : ∀ key ∈ ["peer"], command.contains key = true) :
    Defined (remotely directory cmd) command s := by
  refine (defined_text (hkeys "peer" List.mem_cons_self)).bind fun peer => ?_
  rw [defined_onObject]
  exact defined_withTexts (by
    simp [Json.contains, Json.find?, List.lookup])

/-! ## Single handlers -/

theorem defined_handleTestLsof (hkeys : ∀ key ∈ ["port"], command.contains key = true) :
    Defined handleTestLsof command s :=
  (defined_getField (hkeys "port" List.mem_cons_self) _).bind fun _ => defined_finish _ _

theorem defined_handleShouldLog (hkeys : ∀ key ∈ ["enable"], command.contains key = true) :
    Defined handleShouldLog command s := by
  refine ((defined_field_iff "enable").mpr (hkeys "enable" List.mem_cons_self)).bind
    fun val => ?_
  split
  · exact defined_finish _ _
  · exact defined_pure _

theorem defined_handleSimulateInput : Defined handleSimulateInput command s := by
  refine defined_contains_bind (fun hstring => defined_withTexts (by simpa using hstring)) ?_
  refine defined_contains_bind (fun hkey => defined_withTexts (by simpa using hkey)) ?_
  refine defined_requiring _ fun hkeys => ?_
  exact (defined_getField (hkeys "type" (by simp)) _).bind fun _ =>
    (defined_getField (hkeys "code" (by simp)) _).bind fun _ =>
      (defined_getField (hkeys "value" (by simp)) _).bind fun _ => defined_finish _ _

theorem defined_handleUpdateDirHistory
    (hkeys : ∀ key ∈ ["pwd"], command.contains key = true) :
    Defined handleUpdateDirHistory command s :=
  defined_withTty fun _ =>
    (defined_ask _).bind fun _ => (defined_fromExcept _).bind fun _ =>
      (defined_text (hkeys "pwd" List.mem_cons_self)).bind fun _ => defined_finish _ _

theorem defined_handleSetPort
    (hkeys : ∀ key ∈ ["key", "value"], command.contains key = true) :
    Defined handleSetPort command s := by
  have hvalue : command.contains "value" = true := hkeys "value" (by simp)
  refine defined_onLeader ((defined_text (hkeys "key" (by simp))).bind fun key => ?_)
  refine ((defined_field_iff "value").mpr hvalue).bind fun member => ?_
  split
  · exact (defined_getField hvalue _).bind fun _ => defined_finish _ _
  · exact (defined_text hvalue).bind fun _ => defined_finish _ _

theorem defined_handlePublicTransportationOpenApp :
    Defined handlePublicTransportationOpenApp command s :=
  defined_contains_bind (fun hvariant => defined_withTexts (by simpa using hvariant))
    (defined_finish _ _)

theorem defined_handleAddExtraApp : Defined handleAddExtraApp command s := by
  refine defined_requiring _ fun hkeys => ?_
  refine (defined_getField (hkeys "repoUrl" List.mem_cons_self) _).bind fun repoUrl => ?_
  rw [defined_ask_bind]
  split
  · exact defined_pure _
  refine (defined_given "hasServer" _).bind fun hasServer => ?_
  refine (defined_given "serverSubdir" _).bind fun serverSubdir => ?_
  refine (defined_given "clientSubdir" _).bind fun clientSubdir => ?_
  rw [defined_ask_bind]
  split
  · exact defined_pure _
  · exact (defined_given "displayName" _).bind fun _ => defined_finish _ _

theorem defined_handleSetPeerConfig : Defined handleSetPeerConfig command s := by
  refine (defined_given "role" _).bind fun role => ?_
  split
  · exact (defined_given "id" _).bind fun _ =>
      (defined_given "leader" _).bind fun _ => defined_finish _ _
  · exact defined_pure _

theorem defined_handleRegisterPeer : Defined handleRegisterPeer command s := by
  unfold handleRegisterPeer
  rw [defined_ask_bind]
  split
  · exact (defined_textsOr _).bind fun _ =>
      (defined_optional "daemon_version" _ 0).bind fun _ => defined_finish _ _
  · exact defined_pure _

theorem defined_handleSetupWireGuardPeer
    (hkeys : ∀ key ∈ ["name"], command.contains key = true) :
    Defined handleSetupWireGuardPeer command s :=
  (defined_text (hkeys "name" List.mem_cons_self)).bind fun _ =>
    (defined_valueOr "host" _ _).bind fun _ => (defined_valueOr "vpnIp" _ _).bind fun _ =>
      (defined_valueOr "mac" _ _).bind fun _ => (defined_valueOr "dualBoot" _ _).bind fun _ =>
        (defined_valueOr "privateKey" _ _).bind fun _ => defined_finish _ _

theorem defined_handleSetupRdp : Defined handleSetupRdp command s :=
  (defined_valueOr "rdpUsername" _ _).bind fun _ =>
    (defined_valueOr "rdpPassword" _ _).bind fun _ => defined_finish _ _

/-- The MAC update can be read: the peer id is there, and the address too unless
reading the id throws. -/
def MacUpdateReadable (command : Json) : Prop :=
  ∃ peer_id, command.find? "peer_id" = some peer_id ∧
    (peer_id.is_string = true → command.contains "mac" = true)

theorem defined_handleUpdatePeerMacInternal_iff :
    Defined handleUpdatePeerMacInternal command s ↔
      (s.isLeader = true → MacUpdateReadable command) := by
  unfold handleUpdatePeerMacInternal
  rw [defined_ask_bind]
  by_cases hleader : s.isLeader = true
  · rw [if_pos hleader, imp_iff_right hleader]
    have hmac : Defined (texts ["mac"]) command s ↔ command.contains "mac" = true := by
      rw [defined_texts_cons_iff, Json.contains, Option.isSome_iff_exists]
      exact exists_congr fun member => and_iff_left fun _ => defined_pure []
    rw [defined_withTexts_iff, defined_texts_cons_iff, hmac]
    rfl
  · rw [if_neg hleader]
    exact iff_of_true (defined_pure _) fun htrue => absurd htrue hleader

theorem defined_handle {handler : Handler}
    (hpresent : ∀ key ∈ subscripted handler, command.contains key = true) :
    Defined (handle handler) command s := by
  cases handler
  case handleTestLsof => exact defined_handleTestLsof hpresent
  case handleShouldLog => exact defined_handleShouldLog hpresent
  case handleSimulateInput => exact defined_handleSimulateInput
  case handleUpdateDirHistory => exact defined_handleUpdateDirHistory hpresent
  case handleSetPort => exact defined_handleSetPort hpresent
  case handlePublicTransportationOpenApp => exact defined_handlePublicTransportationOpenApp
  case handleAddExtraApp => exact defined_handleAddExtraApp
  case handleSetPeerConfig => exact defined_handleSetPeerConfig
  case handleRegisterPeer => exact defined_handleRegisterPeer
  case handleSetupWireGuardPeer => exact defined_handleSetupWireGuardPeer hpresent
  case handleSetupRdp => exact defined_handleSetupRdp
  case handleSetKeyboard | handleActiveWindowChanged =>
    exact defined_onActiveWindowChanged hpresent
  case handleUpdateMacros | handleSetEventFilters => exact defined_parsing hpresent
  case handleGetPort | handleDeletePort => exact defined_onLeader (defined_withTexts hpresent)
  case handleRemotePull | handleRemoteBd => exact defined_remotely hpresent
  case handleOpenedTty | handleClosedTty | handleCdForward | handleCdBackward |
      handleShowTerminalInstance => exact defined_finishTty _
  case handleAppStatus => exact (defined_textOr "app" "").bind fun _ => defined_finish _ _
  case handleGetDir | handleGetFile | handleTestEcho | handleTestLsofScript |
      handleShellSignal | handleShowEntriesByPrefix | handleDeleteEntry |
      handleUpsertEntry | handleGetEntry | handleToggleKeyboard | handleSetActiveTabUrl |
      handleGetAppPeers | handleDeletePeer | handleGetPeerInfo | handleExecOnPeer |
      handleExecRequest | handleRemoteDeployDaemon => exact defined_withTexts hpresent
  case handleStartApp | handleStopApp | handleRestartApp | handleBuildApp |
      handleInstallAppDeps | handleEnableApp | handleDisableApp | handleRemoveExtraApp |
      handleDeployToProd | handleProdStatus | handleCleanProd | handleInstallAppOnPeer |
      handleUninstallAppOnPeer | handleStartAppOnPeer | handleStopAppOnPeer |
      handleInstallAppServices => exact defined_withArguments _ _ _ _
  case handleUpdatePeerMacInternal =>
    obtain ⟨peer_id, hpeer⟩ := Option.isSome_iff_exists.mp (hpresent "peer_id" (by decide))
    exact defined_handleUpdatePeerMacInternal_iff.mpr fun _ =>
      ⟨peer_id, hpeer, fun _ => hpresent "mac" (by decide)⟩
  all_goals exact defined_finish _ []

/-! ## The registry -/

/-- The registry requires what the handlers subscript unasked. -/
theorem subscripted_required :
    ∀ entry ∈ COMMAND_HANDLERS, entry.2 ≠ .handleUpdatePeerMacInternal →
      ∀ row ∈ COMMAND_REGISTRY.find? fun row => row.name = entry.1,
        ∀ key ∈ subscripted entry.2, key ∈ row.requiredArgs := by
  decide +kernel

theorem name_of_handleUpdatePeerMacInternal :
    ∀ entry ∈ COMMAND_HANDLERS, entry.2 = .handleUpdatePeerMacInternal →
      entry.1 = "updatePeerMacInternal" := by
  decide +kernel

theorem exists_row_of_accepts (haccepts : accepts command = true) :
    ∃ commandName row, command.find? COMMAND_KEY = some (.string commandName) ∧
      COMMAND_REGISTRY.find? (fun row => row.name = commandName) = some row ∧
      ∀ arg ∈ row.requiredArgs, command.contains arg = true := by
  unfold accepts validateCommand at haccepts
  cases hfind : command.find? COMMAND_KEY with
  | none => simp [hfind] at haccepts
  | some name =>
      cases name with
      | string commandName =>
          simp only [hfind, Json.getString] at haccepts
          cases hrow : COMMAND_REGISTRY.find? fun row => row.name = commandName with
          | none => simp [hrow] at haccepts
          | some row =>
              cases hmissing : row.requiredArgs.find? fun arg => !command.contains arg with
              | some arg => simp [hrow, hmissing] at haccepts
              | none =>
                  have hall := List.find?_eq_none.mp hmissing
                  exact ⟨commandName, row, rfl, hrow, fun arg harg => by
                    simpa using hall arg harg⟩
      | _ => simp [hfind, Json.getString] at haccepts

theorem dispatched_eq {commandName : String}
    (hname : command.find? COMMAND_KEY = some (.string commandName)) :
    ClientSender.dispatched command = lookupHandler commandName := by
  rw [ClientSender.dispatched, commandNameOf, hname]
  rfl

theorem mem_of_lookupHandler {commandName : String} {handler : Handler}
    (hlookup : lookupHandler commandName = some handler) :
    (commandName, handler) ∈ COMMAND_HANDLERS := by
  obtain ⟨before, after, hrows, -⟩ := List.lookup_eq_some_iff.mp hlookup
  rw [hrows]
  exact List.mem_append_right before List.mem_cons_self

theorem present_of_accepts (haccepts : accepts command = true) {handler : Handler}
    (hdispatched : ClientSender.dispatched command = some handler)
    (hhandler : handler ≠ .handleUpdatePeerMacInternal) :
    ∀ key ∈ subscripted handler, command.contains key = true := by
  obtain ⟨commandName, row, hname, hrow, hargs⟩ := exists_row_of_accepts haccepts
  rw [dispatched_eq hname] at hdispatched
  intro key hkey
  exact hargs key (subscripted_required _ (mem_of_lookupHandler hdispatched) hhandler row hrow
    key hkey)

/-- No path of the handler that the dispatch table gives for the command subscripts a
missing field. -/
def FieldsPresent (command : Json) (s : Surroundings) : Prop :=
  ∀ handler ∈ ClientSender.dispatched command, Defined (handle handler) command s

end

theorem accepted_fieldsPresent_iff (command : Json) (s : Surroundings) :
    (accepts command = true → FieldsPresent command s) ↔
      (command.find? COMMAND_KEY = some (.string "updatePeerMacInternal") →
        s.isLeader = true → MacUpdateReadable command) := by
  constructor
  · intro hpresent hname
    have haccepts : accepts command = true := by
      have hargs : (COMMAND_REGISTRY.find? fun row => row.name = "updatePeerMacInternal").map
          CommandSignature.requiredArgs = some [] := by decide +kernel
      obtain ⟨row, hrow, hrequired⟩ := Option.map_eq_some_iff.mp hargs
      simp [accepts, validateCommand, hname, Json.getString, hrow, hrequired]
    have hdispatched : ClientSender.dispatched command = some .handleUpdatePeerMacInternal := by
      rw [dispatched_eq hname]
      decide +kernel
    exact defined_handleUpdatePeerMacInternal_iff.mp (hpresent haccepts _ hdispatched)
  · intro hcondition haccepts handler hdispatched
    by_cases hhandler : handler = .handleUpdatePeerMacInternal
    · subst hhandler
      obtain ⟨commandName, row, hname, -, -⟩ := exists_row_of_accepts haccepts
      have hlookup := hdispatched
      rw [dispatched_eq hname] at hlookup
      obtain rfl : commandName = "updatePeerMacInternal" :=
        name_of_handleUpdatePeerMacInternal _ (mem_of_lookupHandler hlookup) rfl
      exact defined_handleUpdatePeerMacInternal_iff.mpr (hcondition hname)
    · exact defined_handle (present_of_accepts haccepts hdispatched hhandler)

def bareMacUpdate : Json := .object [("command", .string "updatePeerMacInternal")]

def onTheLeader : Surroundings where
  isLeader := true
  forwardToLeader := fun _ => none
  terminalFor := fun _ => .ok ()
  refusesApp := fun _ => none
  refusesPorts := fun _ _ => none
  finish := fun _ _ => .ok ⟨0, ""⟩

/-- The leader reads the peer id of an update that has none. -/
theorem bareMacUpdate_undefined :
    ¬ ∀ (command : Json) (s : Surroundings),
      accepts command = true → FieldsPresent command s := by
  intro hall
  have hdispatched : ClientSender.dispatched bareMacUpdate =
      some .handleUpdatePeerMacInternal := by decide +kernel
  have hdefined := hall bareMacUpdate onTheLeader (by decide +kernel) _ hdispatched
  exact hdefined "peer_id" rfl

end HandlerFields

end AutomateLinux
