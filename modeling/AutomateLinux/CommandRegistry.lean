import AutomateLinux.JsonValue

/-!
# The command registry and the dispatch table

Two tables describe the commands of the daemon.  The registry says which names
are known and which arguments each needs; the dispatch table says which handler
runs a name.  A name is looked up from the front, so the first row of a name
counts.
-/

namespace AutomateLinux

def COMMAND_KEY : String := "command"

structure CommandSignature where
  name : String
  requiredArgs : List String

def COMMAND_REGISTRY : List CommandSignature :=
  [ ⟨"", []⟩,
    ⟨"help", []⟩,
    ⟨"--help", []⟩,
    ⟨"openedTty", ["tty"]⟩,
    ⟨"closedTty", ["tty"]⟩,
    ⟨"updateDirHistory", ["tty", "pwd"]⟩,
    ⟨"cdForward", ["tty"]⟩,
    ⟨"cdBackward", ["tty"]⟩,
    ⟨"shellSignal", ["signal"]⟩,
    ⟨"showTerminalInstance", ["tty"]⟩,
    ⟨"showAllTerminalInstances", []⟩,
    ⟨"printDirHistory", []⟩,
    ⟨"emptyDirHistoryTable", []⟩,
    ⟨"deleteEntry", ["key"]⟩,
    ⟨"showEntriesByPrefix", ["prefix"]⟩,
    ⟨"deleteEntriesByPrefix", ["prefix"]⟩,
    ⟨"showDB", []⟩,
    ⟨"upsertEntry", ["key", "value"]⟩,
    ⟨"getEntry", ["key"]⟩,
    ⟨"ping", []⟩,
    ⟨"version", []⟩,
    ⟨"quit", []⟩,
    ⟨"getDir", ["dirName"]⟩,
    ⟨"getFile", ["fileName"]⟩,
    ⟨"listCommands", []⟩,
    ⟨"getKeyboardPath", []⟩,
    ⟨"getMousePath", []⟩,
    ⟨"getSocketPath", []⟩,
    ⟨"setKeyboard", ["windowTitle", "wmClass", "wmInstance", "windowId"]⟩,
    ⟨"getKeyboard", []⟩,
    ⟨"getKeyboardEnabled", []⟩,
    ⟨"toggleKeyboard", ["enable"]⟩,
    ⟨"disableKeyboard", []⟩,
    ⟨"enableKeyboard", []⟩,
    ⟨"simulateInput", []⟩,
    ⟨"shouldLog", ["enable"]⟩,
    ⟨"getShouldLog", []⟩,
    ⟨"registerLogListener", []⟩,
    ⟨"addLogFilter", ["action"]⟩,
    ⟨"removeLogFilter", []⟩,
    ⟨"listLogFilters", []⟩,
    ⟨"clearLogFilters", []⟩,
    ⟨"activeWindowChanged", ["windowTitle", "wmClass", "wmInstance", "windowId"]⟩,
    ⟨"setActiveTabUrl", ["url"]⟩,
    ⟨"registerNativeHost", []⟩,
    ⟨"focusChatGPT", []⟩,
    ⟨"focusAck", []⟩,
    ⟨"getActiveContext", []⟩,
    ⟨"registerWindowExtension", []⟩,
    ⟨"listWindows", []⟩,
    ⟨"activateWindow", ["windowId"]⟩,
    ⟨"getMacros", []⟩,
    ⟨"updateMacros", ["value"]⟩,
    ⟨"getEventFilters", []⟩,
    ⟨"setEventFilters", ["value"]⟩,
    ⟨"getPort", ["key"]⟩,
    ⟨"setPort", ["key", "value"]⟩,
    ⟨"listPorts", []⟩,
    ⟨"deletePort", ["key"]⟩,
    ⟨"publicTransportationStartProxy", []⟩,
    ⟨"publicTransportationOpenApp", []⟩,
    ⟨"startApp", ["app"]⟩,
    ⟨"stopApp", ["app"]⟩,
    ⟨"restartApp", ["app"]⟩,
    ⟨"appStatus", []⟩,
    ⟨"listApps", []⟩,
    ⟨"buildApp", ["app"]⟩,
    ⟨"installAppDeps", ["app"]⟩,
    ⟨"enableApp", ["app"]⟩,
    ⟨"disableApp", ["app"]⟩,
    ⟨"addExtraApp", ["repoUrl"]⟩,
    ⟨"removeExtraApp", ["app"]⟩,
    ⟨"listExtraApps", []⟩,
    ⟨"deployToProd", ["app"]⟩,
    ⟨"prodStatus", ["app"]⟩,
    ⟨"cleanProd", ["app"]⟩,
    ⟨"getAppPeers", ["app"]⟩,
    ⟨"installAppOnPeer", ["app", "peer"]⟩,
    ⟨"uninstallAppOnPeer", ["app", "peer"]⟩,
    ⟨"startAppOnPeer", ["app", "peer", "mode"]⟩,
    ⟨"stopAppOnPeer", ["app", "peer"]⟩,
    ⟨"installAppServices", ["app"]⟩,
    ⟨"testIntegrity", []⟩,
    ⟨"testLsof", ["port"]⟩,
    ⟨"testEcho", ["message"]⟩,
    ⟨"testLsofScript", ["port"]⟩,
    ⟨"setPeerConfig", []⟩,
    ⟨"getPeerStatus", []⟩,
    ⟨"registerPeer", []⟩,
    ⟨"listPeers", []⟩,
    ⟨"deletePeer", ["peer"]⟩,
    ⟨"getPeerInfo", ["peer"]⟩,
    ⟨"execOnPeer", ["peer", "directory", "shellCmd"]⟩,
    ⟨"execRequest", ["directory", "shellCmd"]⟩,
    ⟨"remotePull", ["peer"]⟩,
    ⟨"remoteBd", ["peer"]⟩,
    ⟨"remoteDeployDaemon", ["peer"]⟩,
    ⟨"dbSanityCheck", []⟩,
    ⟨"registerWorker", []⟩,
    ⟨"updatePeerMac", []⟩,
    ⟨"updatePeerMacInternal", []⟩,
    ⟨"setupWireGuardPeer", ["name"]⟩,
    ⟨"listWireGuardPeers", []⟩,
    ⟨"getWireGuardIp", []⟩,
    ⟨"setupRdp", []⟩ ]

/-- The handler functions the dispatch table points to. -/
inductive Handler
  | handleHelp | handlePing | handleVersion | handleQuit | handleGetDir
  | handleGetFile | handleGetSocketPath | handleListCommands | handleTestLsof
  | handleTestEcho | handleTestLsofScript | handleOpenedTty | handleClosedTty
  | handleUpdateDirHistory | handleCdForward | handleCdBackward
  | handleShellSignal | handleShowTerminalInstance
  | handleShowAllTerminalInstances | handlePrintDirHistory
  | handleEmptyDirHistoryTable | handleShowEntriesByPrefix
  | handleDeleteEntriesByPrefix | handleShowDb | handleDeleteEntry
  | handleUpsertEntry | handleGetEntry | handleGetKeyboardPath
  | handleGetMousePath | handleSetKeyboard | handleGetKeyboard
  | handleToggleKeyboard | handleDisableKeyboard | handleEnableKeyboard
  | handleSimulateInput | handleTestIntegrity | handleGetMacros
  | handleUpdateMacros | handleShouldLog | handleGetShouldLog
  | handleRegisterLogListener | handleGetEventFilters | handleSetEventFilters
  | handleRegisterWindowExtension | handleListWindows | handleActivateWindow
  | handleActiveWindowChanged | handleGetActiveContext | handleSetActiveTabUrl
  | handleRegisterNativeHost | handleFocusChatGPT | handleFocusAck
  | handleGetPort | handleSetPort | handleListPorts | handleDeletePort
  | handlePublicTransportationStartProxy | handlePublicTransportationOpenApp
  | handleStartApp | handleStopApp | handleRestartApp | handleAppStatus
  | handleListApps | handleBuildApp | handleInstallAppDeps | handleEnableApp
  | handleDisableApp | handleAddExtraApp | handleRemoveExtraApp
  | handleListExtraApps | handleDeployToProd | handleProdStatus
  | handleCleanProd | handleGetAppPeers | handleInstallAppOnPeer
  | handleUninstallAppOnPeer | handleStartAppOnPeer | handleStopAppOnPeer
  | handleInstallAppServices | handleSetPeerConfig | handleGetPeerStatus
  | handleRegisterPeer | handleListPeers | handleDeletePeer
  | handleGetPeerInfo | handleExecOnPeer | handleExecRequest
  | handleRemotePull | handleRemoteBd | handleRemoteDeployDaemon
  | handleDbSanityCheck | handleRegisterWorker | handleUpdatePeerMac
  | handleUpdatePeerMacInternal | handleSetupWireGuardPeer
  | handleListWireGuardPeers | handleGetWireGuardIp | handleSetupRdp
deriving DecidableEq, Repr

def COMMAND_HANDLERS : List (String × Handler) :=
  [ ("", .handleHelp),
    ("help", .handleHelp),
    ("--help", .handleHelp),
    ("ping", .handlePing),
    ("version", .handleVersion),
    ("quit", .handleQuit),
    ("getDir", .handleGetDir),
    ("getFile", .handleGetFile),
    ("getSocketPath", .handleGetSocketPath),
    ("listCommands", .handleListCommands),
    ("testLsof", .handleTestLsof),
    ("testEcho", .handleTestEcho),
    ("testLsofScript", .handleTestLsofScript),
    ("openedTty", .handleOpenedTty),
    ("closedTty", .handleClosedTty),
    ("updateDirHistory", .handleUpdateDirHistory),
    ("cdForward", .handleCdForward),
    ("cdBackward", .handleCdBackward),
    ("shellSignal", .handleShellSignal),
    ("showTerminalInstance", .handleShowTerminalInstance),
    ("showAllTerminalInstances", .handleShowAllTerminalInstances),
    ("printDirHistory", .handlePrintDirHistory),
    ("emptyDirHistoryTable", .handleEmptyDirHistoryTable),
    ("showEntriesByPrefix", .handleShowEntriesByPrefix),
    ("deleteEntriesByPrefix", .handleDeleteEntriesByPrefix),
    ("showDB", .handleShowDb),
    ("deleteEntry", .handleDeleteEntry),
    ("upsertEntry", .handleUpsertEntry),
    ("getEntry", .handleGetEntry),
    ("getKeyboardPath", .handleGetKeyboardPath),
    ("getMousePath", .handleGetMousePath),
    ("setKeyboard", .handleSetKeyboard),
    ("getKeyboard", .handleGetKeyboard),
    ("getKeyboardEnabled", .handleGetKeyboard),
    ("toggleKeyboard", .handleToggleKeyboard),
    ("disableKeyboard", .handleDisableKeyboard),
    ("enableKeyboard", .handleEnableKeyboard),
    ("simulateInput", .handleSimulateInput),
    ("testIntegrity", .handleTestIntegrity),
    ("getMacros", .handleGetMacros),
    ("updateMacros", .handleUpdateMacros),
    ("shouldLog", .handleShouldLog),
    ("getShouldLog", .handleGetShouldLog),
    ("registerLogListener", .handleRegisterLogListener),
    ("getEventFilters", .handleGetEventFilters),
    ("setEventFilters", .handleSetEventFilters),
    ("registerWindowExtension", .handleRegisterWindowExtension),
    ("listWindows", .handleListWindows),
    ("activateWindow", .handleActivateWindow),
    ("activeWindowChanged", .handleActiveWindowChanged),
    ("getActiveContext", .handleGetActiveContext),
    ("setActiveTabUrl", .handleSetActiveTabUrl),
    ("registerNativeHost", .handleRegisterNativeHost),
    ("focusChatGPT", .handleFocusChatGPT),
    ("focusAck", .handleFocusAck),
    ("getPort", .handleGetPort),
    ("setPort", .handleSetPort),
    ("listPorts", .handleListPorts),
    ("deletePort", .handleDeletePort),
    ("publicTransportationStartProxy", .handlePublicTransportationStartProxy),
    ("publicTransportationOpenApp", .handlePublicTransportationOpenApp),
    ("startApp", .handleStartApp),
    ("stopApp", .handleStopApp),
    ("restartApp", .handleRestartApp),
    ("appStatus", .handleAppStatus),
    ("listApps", .handleListApps),
    ("buildApp", .handleBuildApp),
    ("installAppDeps", .handleInstallAppDeps),
    ("enableApp", .handleEnableApp),
    ("disableApp", .handleDisableApp),
    ("addExtraApp", .handleAddExtraApp),
    ("removeExtraApp", .handleRemoveExtraApp),
    ("listExtraApps", .handleListExtraApps),
    ("deployToProd", .handleDeployToProd),
    ("prodStatus", .handleProdStatus),
    ("cleanProd", .handleCleanProd),
    ("getAppPeers", .handleGetAppPeers),
    ("installAppOnPeer", .handleInstallAppOnPeer),
    ("uninstallAppOnPeer", .handleUninstallAppOnPeer),
    ("startAppOnPeer", .handleStartAppOnPeer),
    ("stopAppOnPeer", .handleStopAppOnPeer),
    ("installAppServices", .handleInstallAppServices),
    ("setPeerConfig", .handleSetPeerConfig),
    ("getPeerStatus", .handleGetPeerStatus),
    ("registerPeer", .handleRegisterPeer),
    ("listPeers", .handleListPeers),
    ("deletePeer", .handleDeletePeer),
    ("getPeerInfo", .handleGetPeerInfo),
    ("execOnPeer", .handleExecOnPeer),
    ("execRequest", .handleExecRequest),
    ("remotePull", .handleRemotePull),
    ("remoteBd", .handleRemoteBd),
    ("remoteDeployDaemon", .handleRemoteDeployDaemon),
    ("dbSanityCheck", .handleDbSanityCheck),
    ("registerWorker", .handleRegisterWorker),
    ("updatePeerMac", .handleUpdatePeerMac),
    ("updatePeerMacInternal", .handleUpdatePeerMacInternal),
    ("setupWireGuardPeer", .handleSetupWireGuardPeer),
    ("listWireGuardPeers", .handleListWireGuardPeers),
    ("getWireGuardIp", .handleGetWireGuardIp),
    ("setupRdp", .handleSetupRdp) ]

/-- The loop over the dispatch table. -/
def lookupHandler (commandName : String) : Option Handler :=
  COMMAND_HANDLERS.lookup commandName

/-- The command names whose connection is kept after the response. -/
def persistentCommands : List String :=
  ["registerLogListener", "registerWindowExtension", "registerNativeHost"]

/-- The command names that are handed over to a thread. -/
def slowCommands : List String :=
  ["remoteDeployDaemon", "execOnPeer", "remotePull", "remoteBd", "execRequest",
    "installAppOnPeer", "uninstallAppOnPeer", "startAppOnPeer",
    "stopAppOnPeer"]

/-- A command's name, empty when the key is absent. -/
def commandNameOf (command : Json) : Except Exn String :=
  match command.find? COMMAND_KEY with
  | none => .ok ""
  | some name => name.getString

def validateCommand (command : Json) : Except Exn CmdResult :=
  match command.find? COMMAND_KEY with
  | none => .ok ⟨1, "Missing command key"⟩
  | some name =>
      match name.getString with
      | .error e => .error e
      | .ok commandName =>
          match COMMAND_REGISTRY.find? fun row => row.name = commandName with
          | none => .ok ⟨1, "Unknown command: " ++ commandName ++ "\n"⟩
          | some foundCommand =>
              match foundCommand.requiredArgs.find?
                  fun arg => !command.contains arg with
              | some arg => .ok ⟨1, "Missing required arg: " ++ arg ++ "\n"⟩
              | none => .ok ⟨0, ""⟩

/-- `validateCommand` lets the command through. -/
def accepts (command : Json) : Bool :=
  match validateCommand command with
  | .ok check => check.status = 0
  | .error _ => false

end AutomateLinux
