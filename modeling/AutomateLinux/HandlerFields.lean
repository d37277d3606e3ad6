import AutomateLinux.ClientArguments
import AutomateLinux.FieldAccess

/-!
# The fields the handlers read

The registry says which arguments a command must have; which fields a handler
takes from the command with the subscript operator is written in the handler.  The
handlers below are followed through everything they read of the command and every
way out before that.  What they do with their arguments once they have read the
last of them is left to the surroundings.
-/

namespace AutomateLinux

namespace HandlerFields

open Access

/-- What decides how a handler goes on, apart from the command. -/
structure Surroundings where
  isLeader : Bool
  -- `forwardToLeader` ends the request, or leaves it to the leader's own part
  forwardToLeader : Json → Option CmdResult
  -- the object for a terminal, made if there is none
  terminalFor : Int → Except Exn Unit
  -- an app that cannot be added, up to the clone of its repository
  refusesApp : String → Option CmdResult
  -- no ports for the app as it is detected, with what the command says instead
  refusesPorts : Option Bool → Option String → Option CmdResult
  -- what a handler does with its arguments
  finish : Handler → List Json → Except Exn CmdResult

abbrev Reads (α : Type) : Type := Access Json Surroundings Exn String α

/-! ## Reading -/

/-- `command[key]`. -/
def field (key : String) : Reads Json := subscript Json.find? key

def contains (key : String) : Reads Bool := ask fun command _ => command.contains key

def getField {α : Type} (key : String) (get : Json → Except Exn α) : Reads α := do
  let member ← field key
  fromExcept (get member)

/-- `command[key].get<string>()`. -/
def text (key : String) : Reads Json := do
  let value ← getField key Json.getString
  return .string value

/-- A field that is subscripted only if the command contains it. -/
def optional {α : Type} (key : String) (get : Json → Except Exn α) (fallback : α) :
    Reads α := do
  if ← contains key then getField key get else return fallback

/-- `command.contains(key) ? command[key].get<string>() : fallback`. -/
def textOr (key fallback : String) : Reads Json := do
  let value ← optional key Json.getString fallback
  return .string value

/-- An override: nothing if the command does not contain it. -/
def given {α : Type} (key : String) (get : Json → Except Exn α) : Reads (Option α) :=
  optional key (fun member => (get member).map some) none

/-- `command.value(key, fallback)`. -/
def valueOr {α : Type} (key : String) (get : Json → Except Exn α) (fallback : α) :
    Reads α := do
  let value ← ask fun command _ => command.value key get fallback
  fromExcept value

def texts : List String → Reads (List Json)
  | [] => return []
  | key :: keys => do
      let value ← text key
      let values ← texts keys
      return value :: values

def textsOr : List (String × String) → Reads (List Json)
  | [] => return []
  | (key, fallback) :: keys => do
      let value ← textOr key fallback
      let values ← textsOr keys
      return value :: values

def finish (handler : Handler) (arguments : List Json) : Reads CmdResult := do
  let result ← ask fun _ s => s.finish handler arguments
  fromExcept result

/-- The check for missing arguments a handler makes itself. -/
def requiring (keys : List String) (message : String) (next : Reads CmdResult) :
    Reads CmdResult := do
  if ← ask fun command _ => keys.all command.contains then next else return ⟨1, message⟩

/-- A handler that reads some texts and goes on. -/
def withTexts (handler : Handler) (keys : List String) : Reads CmdResult := do
  let arguments ← texts keys
  finish handler arguments

/-! ## System, database, logging and input -/

def handleGetDir : Reads CmdResult := withTexts .handleGetDir ["dirName"]

def handleGetFile : Reads CmdResult := withTexts .handleGetFile ["fileName"]

def handleTestLsof : Reads CmdResult := do
  let port ← getField "port" (Json.getInt 32)
  finish .handleTestLsof [.number_integer port]

def handleTestEcho : Reads CmdResult := withTexts .handleTestEcho ["message"]

def handleTestLsofScript : Reads CmdResult := withTexts .handleTestLsofScript ["port"]

def handleShowEntriesByPrefix : Reads CmdResult :=
  withTexts .handleShowEntriesByPrefix ["prefix"]

def handleDeleteEntry : Reads CmdResult := withTexts .handleDeleteEntry ["key"]

def handleUpsertEntry : Reads CmdResult := withTexts .handleUpsertEntry ["key", "value"]

def handleGetEntry : Reads CmdResult := withTexts .handleGetEntry ["key"]

def handleToggleKeyboard : Reads CmdResult := withTexts .handleToggleKeyboard ["enable"]

def handleShellSignal : Reads CmdResult := withTexts .handleShellSignal ["signal"]

def handleSetActiveTabUrl : Reads CmdResult := withTexts .handleSetActiveTabUrl ["url"]

/-- A handler whose own `catch` reports what the reading or the parsing throws. -/
def parsing (handler : Handler) (failure : String) : Reads CmdResult :=
  catching (withTexts handler ["value"]) fun e => ⟨1, failure ++ e.what⟩

def handleUpdateMacros : Reads CmdResult :=
  parsing .handleUpdateMacros "Failed to parse macros: "

def handleSetEventFilters : Reads CmdResult :=
  parsing .handleSetEventFilters "Failed to parse filters: "

def handleShouldLog : Reads CmdResult := do
  let val ← field "enable"
  if val.is_string || val.is_number then finish .handleShouldLog [val]
  else return ⟨1, "Invalid logging value type.\n"⟩

def onActiveWindowChanged (handler : Handler) : Reads CmdResult := do
  let _ ← texts ["windowTitle", "wmClass", "wmInstance"]
  let _ ← getField "windowId" (Json.getInt 64)
  let arguments ← texts ["wmClass", "windowTitle"]
  finish handler arguments

def handleSetKeyboard : Reads CmdResult := onActiveWindowChanged .handleSetKeyboard

def handleActiveWindowChanged : Reads CmdResult :=
  onActiveWindowChanged .handleActiveWindowChanged

def handleSimulateInput : Reads CmdResult := do
  if ← contains "string" then withTexts .handleSimulateInput ["string"]
  else if ← contains "key" then withTexts .handleSimulateInput ["key"]
  else
    requiring ["type", "code", "value"]
      "Missing arguments: type, code, value, string, or key\n" do
        let type ← getField "type" (Json.getUInt 16)
        let code ← getField "code" (Json.getUInt 16)
        let value ← getField "value" (Json.getInt 32)
        finish .handleSimulateInput
          [.number_unsigned type, .number_unsigned code, .number_integer value]

/-! ## Terminals -/

/-- `getJsonString`: the field is subscripted once it is known to be there. -/
def jsonString (key : String) : Reads String := do
  if ← contains key then
    let _ ← field key
    ask fun command _ => Terminal.getJsonString command key
  else return ""

def withTty (next : Int → Reads CmdResult) : Reads CmdResult := do
  let ttyStr ← jsonString "tty"
  if ttyStr = "" then return ⟨1, "Missing tty argument\n"⟩
  else
    let tty ← fromExcept (stoi ttyStr)
    next tty

def finishTty (handler : Handler) : Reads CmdResult :=
  withTty fun tty => finish handler [.number_integer tty]

def handleOpenedTty : Reads CmdResult := finishTty .handleOpenedTty

def handleClosedTty : Reads CmdResult := finishTty .handleClosedTty

def handleCdForward : Reads CmdResult := finishTty .handleCdForward

def handleCdBackward : Reads CmdResult := finishTty .handleCdBackward

def handleShowTerminalInstance : Reads CmdResult := finishTty .handleShowTerminalInstance

def handleUpdateDirHistory : Reads CmdResult :=
  withTty fun tty => do
    let terminal ← ask fun _ s => s.terminalFor tty
    fromExcept terminal
    let pwd ← text "pwd"
    finish .handleUpdateDirHistory [.number_integer tty, pwd]

/-! ## Ports -/

/-- A handler whose own part runs on the leader only. -/
def onLeader (own : Reads CmdResult) : Reads CmdResult := do
  match ← ask fun command s => s.forwardToLeader command with
  | some forwarded => return forwarded
  | none => own

def handleGetPort : Reads CmdResult := onLeader (withTexts .handleGetPort ["key"])

def handleDeletePort : Reads CmdResult := onLeader (withTexts .handleDeletePort ["key"])

def handleSetPort : Reads CmdResult :=
  onLeader do
    let key ← text "key"
    let member ← field "value"
    if member.is_number then
      let value ← getField "value" (Json.getInt 64)
      finish .handleSetPort [key, .number_integer value]
    else
      let value ← text "value"
      finish .handleSetPort [key, value]

def handlePublicTransportationOpenApp : Reads CmdResult := do
  if ← contains "variant" then withTexts .handlePublicTransportationOpenApp ["variant"]
  else finish .handlePublicTransportationOpenApp []

/-! ## Apps -/

/-- A handler that checks for its texts, reads them and some optional ones. -/
def withArguments (handler : Handler) (message : String) (keys : List String)
    (options : List (String × String)) : Reads CmdResult :=
  requiring keys message do
    let arguments ← texts keys
    let optionals ← textsOr options
    finish handler (arguments ++ optionals)

def missingApp : String := "Missing required argument: --app\n"

def missingAppPeer : String := "Missing required arguments: --app --peer\n"

def handleStartApp : Reads CmdResult :=
  withArguments .handleStartApp missingApp ["app"] [("mode", "dev")]

def handleStopApp : Reads CmdResult :=
  withArguments .handleStopApp missingApp ["app"] [("mode", "all")]

def handleRestartApp : Reads CmdResult :=
  withArguments .handleRestartApp missingApp ["app"] [("mode", "dev")]

def handleAppStatus : Reads CmdResult := do
  let appId ← textOr "app" ""
  finish .handleAppStatus [appId]

def handleBuildApp : Reads CmdResult :=
  withArguments .handleBuildApp missingApp ["app"] [("mode", "dev"), ("component", "server")]

def handleInstallAppDeps : Reads CmdResult :=
  withArguments .handleInstallAppDeps missingApp ["app"]
    [("mode", "dev"), ("component", "all")]

def handleEnableApp : Reads CmdResult :=
  withArguments .handleEnableApp missingApp ["app"] [("mode", "dev")]

def handleDisableApp : Reads CmdResult :=
  withArguments .handleDisableApp missingApp ["app"] [("mode", "all")]

def ofOption {α : Type} (make : α → Json) (override : Option α) : Json :=
  (override.map make).getD .null

def handleAddExtraApp : Reads CmdResult :=
  requiring ["repoUrl"] "Missing required argument: --repoUrl\n" do
    let repoUrl ← getField "repoUrl" Json.getString
    match ← ask fun _ s => s.refusesApp repoUrl with
    | some failure => return failure
    | none =>
        let hasServer ← given "hasServer" Json.getBool
        let serverSubdir ← given "serverSubdir" Json.getString
        let clientSubdir ← given "clientSubdir" Json.getString
        match ← ask fun _ s => s.refusesPorts hasServer serverSubdir with
        | some failure => return failure
        | none =>
            let displayName ← given "displayName" Json.getString
            finish .handleAddExtraApp
              [.string repoUrl, ofOption .boolean hasServer, ofOption .string serverSubdir,
                ofOption .string clientSubdir, ofOption .string displayName]

def handleRemoveExtraApp : Reads CmdResult :=
  withArguments .handleRemoveExtraApp missingApp ["app"] []

def handleDeployToProd : Reads CmdResult :=
  withArguments .handleDeployToProd missingApp ["app"] [("commit", "")]

def handleProdStatus : Reads CmdResult :=
  withArguments .handleProdStatus missingApp ["app"] []

def handleCleanProd : Reads CmdResult :=
  withArguments .handleCleanProd missingApp ["app"] []

def handleGetAppPeers : Reads CmdResult := withTexts .handleGetAppPeers ["app"]

def handleInstallAppOnPeer : Reads CmdResult :=
  withArguments .handleInstallAppOnPeer missingAppPeer ["app", "peer"] [("mode", "all")]

def handleUninstallAppOnPeer : Reads CmdResult :=
  withArguments .handleUninstallAppOnPeer missingAppPeer ["app", "peer"] []

def handleStartAppOnPeer : Reads CmdResult :=
  withArguments .handleStartAppOnPeer "Missing required arguments: --app --peer --mode\n"
    ["app", "peer", "mode"] []

def handleStopAppOnPeer : Reads CmdResult :=
  withArguments .handleStopAppOnPeer missingAppPeer ["app", "peer"] [("mode", "all")]

def handleInstallAppServices : Reads CmdResult :=
  withArguments .handleInstallAppServices missingApp ["app"] []

/-! ## Peers -/

def handleSetPeerConfig : Reads CmdResult := do
  let role ← given "role" Json.getString
  if role.all fun role => role = "leader" || role = "worker" then
    let id ← given "id" Json.getString
    let leader ← given "leader" Json.getString
    finish .handleSetPeerConfig
      [ofOption .string role, ofOption .string id, ofOption .string leader]
  else return ⟨1, "Invalid role. Use 'leader' or 'worker'.\n"⟩

def handleRegisterPeer : Reads CmdResult := do
  if ← ask fun _ s => s.isLeader then
    let arguments ←
      textsOr [("peer_id", "unknown"), ("ip", ""), ("mac", ""), ("hostname", "")]
    let daemon_version ← optional "daemon_version" (Json.getInt 32) 0
    finish .handleRegisterPeer (arguments ++ [.number_integer daemon_version])
  else return ⟨1, "This daemon is not the leader.\n"⟩

def handleDeletePeer : Reads CmdResult := withTexts .handleDeletePeer ["peer"]

def handleGetPeerInfo : Reads CmdResult := withTexts .handleGetPeerInfo ["peer"]

def handleExecOnPeer : Reads CmdResult :=
  withTexts .handleExecOnPeer ["peer", "directory", "shellCmd"]

def handleExecRequest : Reads CmdResult :=
  withTexts .handleExecRequest ["directory", "shellCmd"]

/-- A command of the handler's own, run by `handleExecOnPeer`. -/
def remotely (directory cmd : String) : Reads CmdResult := do
  let peer ← text "peer"
  onObject
    (.object
      [("command", .string "execOnPeer"), ("peer", peer), ("directory", .string directory),
        ("shellCmd", .string cmd)])
    handleExecOnPeer

def handleRemotePull : Reads CmdResult := remotely "/opt/automateLinux" "git pull"

def handleRemoteBd : Reads CmdResult :=
  remotely "/opt/automateLinux/daemon" "bash -c 'source ./build.sh'"

def handleRemoteDeployDaemon : Reads CmdResult :=
  withTexts .handleRemoteDeployDaemon ["peer"]

def handleUpdatePeerMacInternal : Reads CmdResult := do
  if ← ask fun _ s => s.isLeader then
    withTexts .handleUpdatePeerMacInternal ["peer_id", "mac"]
  else return ⟨1, "This command should only be received by the leader\n"⟩

def handleSetupWireGuardPeer : Reads CmdResult := do
  let name ← text "name"
  let host ← valueOr "host" Json.getString ""
  let vpnIp ← valueOr "vpnIp" Json.getString ""
  let mac ← valueOr "mac" Json.getString ""
  let dualBoot ← valueOr "dualBoot" Json.getBool false
  let privateKey ← valueOr "privateKey" Json.getString ""
  finish .handleSetupWireGuardPeer
    [name, .string host, .string vpnIp, .string mac, .boolean dualBoot, .string privateKey]

def handleSetupRdp : Reads CmdResult := do
  let username ← valueOr "rdpUsername" Json.getString "yaniv"
  let password ← valueOr "rdpPassword" Json.getString "testpass123"
  finish .handleSetupRdp [.string username, .string password]

/-- The handlers that are not listed read nothing of the command. -/
def handle : Handler → Reads CmdResult
  | .handleGetDir => handleGetDir
  | .handleGetFile => handleGetFile
  | .handleTestLsof => handleTestLsof
  | .handleTestEcho => handleTestEcho
  | .handleTestLsofScript => handleTestLsofScript
  | .handleOpenedTty => handleOpenedTty
  | .handleClosedTty => handleClosedTty
  | .handleUpdateDirHistory => handleUpdateDirHistory
  | .handleCdForward => handleCdForward
  | .handleCdBackward => handleCdBackward
  | .handleShellSignal => handleShellSignal
  | .handleShowTerminalInstance => handleShowTerminalInstance
  | .handleShowEntriesByPrefix => handleShowEntriesByPrefix
  | .handleDeleteEntry => handleDeleteEntry
  | .handleUpsertEntry => handleUpsertEntry
  | .handleGetEntry => handleGetEntry
  | .handleSetKeyboard => handleSetKeyboard
  | .handleToggleKeyboard => handleToggleKeyboard
  | .handleSimulateInput => handleSimulateInput
  | .handleUpdateMacros => handleUpdateMacros
  | .handleShouldLog => handleShouldLog
  | .handleSetEventFilters => handleSetEventFilters
  | .handleActiveWindowChanged => handleActiveWindowChanged
  | .handleSetActiveTabUrl => handleSetActiveTabUrl
  | .handleGetPort => handleGetPort
  | .handleSetPort => handleSetPort
  | .handleDeletePort => handleDeletePort
  | .handlePublicTransportationOpenApp => handlePublicTransportationOpenApp
  | .handleStartApp => handleStartApp
  | .handleStopApp => handleStopApp
  | .handleRestartApp => handleRestartApp
  | .handleAppStatus => handleAppStatus
  | .handleBuildApp => handleBuildApp
  | .handleInstallAppDeps => handleInstallAppDeps
  | .handleEnableApp => handleEnableApp
  | .handleDisableApp => handleDisableApp
  | .handleAddExtraApp => handleAddExtraApp
  | .handleRemoveExtraApp => handleRemoveExtraApp
  | .handleDeployToProd => handleDeployToProd
  | .handleProdStatus => handleProdStatus
  | .handleCleanProd => handleCleanProd
  | .handleGetAppPeers => handleGetAppPeers
  | .handleInstallAppOnPeer => handleInstallAppOnPeer
  | .handleUninstallAppOnPeer => handleUninstallAppOnPeer
  | .handleStartAppOnPeer => handleStartAppOnPeer
  | .handleStopAppOnPeer => handleStopAppOnPeer
  | .handleInstallAppServices => handleInstallAppServices
  | .handleSetPeerConfig => handleSetPeerConfig
  | .handleRegisterPeer => handleRegisterPeer
  | .handleDeletePeer => handleDeletePeer
  | .handleGetPeerInfo => handleGetPeerInfo
  | .handleExecOnPeer => handleExecOnPeer
  | .handleExecRequest => handleExecRequest
  | .handleRemotePull => handleRemotePull
  | .handleRemoteBd => handleRemoteBd
  | .handleRemoteDeployDaemon => handleRemoteDeployDaemon
  | .handleUpdatePeerMacInternal => handleUpdatePeerMacInternal
  | .handleSetupWireGuardPeer => handleSetupWireGuardPeer
  | .handleSetupRdp => handleSetupRdp
  | handler => finish handler []

end HandlerFields

end AutomateLinux
