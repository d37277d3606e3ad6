import AutomateLinux.ExtraApps
import AutomateLinux.NumberText
import AutomateLinux.TextOperations

/-!
# Stopping and restarting apps

An app is one of the configured ones or a record of the registry.  Its services
are named by templates, its ports by settings.  A request to stop or restart an
app stops its services, looks its ports up and clears what still listens there.
The lookups leave a trace next to the other effects, up to the exception that
ends the request if a port does not parse.
-/

namespace AutomateLinux

namespace ExtraApps

open CollatedTable

/-- What a request does to the system, and the settings it reads on the way. -/
inductive AppEffect
  | stopService (serviceName : String)
  | restartService (serviceName : String)
  | getSetting (key : String)
  | killProcessOnPort (port : Int)
  | waitForPortRelease (port : Int)
deriving DecidableEq

def AppEffect.key? : AppEffect → Option String
  | .getSetting key => some key
  | _ => none

/-- A request's result, or the exception that ended it, with its effects. -/
def AppRun (α : Type) := Except Exn α × List AppEffect

namespace AppRun

variable {α β : Type}

instance : Monad AppRun where
  pure a := (.ok a, [])
  bind x f :=
    match x with
    | (.error e, effects) => (.error e, effects)
    | (.ok a, effects) => ((f a).1, effects ++ (f a).2)

def perform (effect : AppEffect) : AppRun Unit := (.ok (), [effect])

def ofExcept (result : Except Exn α) : AppRun α := (result, [])

def keysRead (x : AppRun α) : List String := x.2.filterMap AppEffect.key?

theorem bind_ok {x : AppRun α} {a : α} (hx : x.1 = .ok a) (f : α → AppRun β) :
    x >>= f = ((f a).1, x.2 ++ (f a).2) := by
  obtain ⟨result, effects⟩ := x
  obtain rfl : result = .ok a := hx
  rfl

theorem bind_error {x : AppRun α} {e : Exn} (hx : x.1 = .error e) (f : α → AppRun β) :
    x >>= f = (.error e, x.2) := by
  obtain ⟨result, effects⟩ := x
  obtain rfl : result = .error e := hx
  rfl

@[simp] theorem keysRead_pure (a : α) : keysRead (pure a : AppRun α) = [] := rfl

@[simp] theorem keysRead_perform (effect : AppEffect) :
    keysRead (perform effect) = effect.key?.toList := by
  cases effect <;> rfl

theorem keysRead_bind_ok {x : AppRun α} {a : α} (hx : x.1 = .ok a) (f : α → AppRun β) :
    keysRead (x >>= f) = keysRead x ++ keysRead (f a) := by
  rw [bind_ok hx]
  exact List.filterMap_append

end AppRun

open AppRun

section

variable {weight : String → String}

def recordToConfig (record : ExtraAppRecord) : AppConfig where
  appId := record.app_id
  displayName := record.display_name
  hasServerComponent := record.has_server_component
  serverServiceTemplate := record.server_service_template
  clientServiceTemplate := record.client_service_template
  portKeyClient := record.port_key_client
  portKeyServer := record.port_key_server
  devPath := record.dev_path
  prodPath := record.prod_path
  serverBuildSubdir := record.server_build_subdir
  clientSubdir := record.client_subdir

/-- `getAppConfig`; a configuration with an empty id stands for none. -/
def getAppConfig (s : Registry weight) (appId : String) : Option AppConfig :=
  match APP_CONFIGS.find? fun cfg => cfg.appId = appId with
  | some cfg => some cfg
  | none =>
      match getApp s appId with
      | some record => if record.app_id = "" then none else some (recordToConfig record)
      | none => none

def resolveServiceName (templateStr appId mode : String) : String :=
  let result := TextOperations.replaceFirst "\x7bapp\x7d".toList appId.toList
    templateStr.toList
  String.ofList (TextOperations.replaceFirst "\x7bmode\x7d".toList mode.toList result)

/-- `SettingsTable::getSetting`: a missing setting reads as the empty text. -/
def getSetting (settings : CollatedTable weight String) (key : String) : String :=
  (settings.get? key).getD ""

/-- Look a port up and, if there is one, use it. -/
def usePort (settings : CollatedTable weight String) (key : String)
    (use : Int → AppEffect) : AppRun Unit := do
  perform (.getSetting key)
  let portStr := getSetting settings key
  if portStr = "" then pure ()
  else
    let port ← ofExcept (stoi portStr)
    perform (use port)

def clientPortKey (config : AppConfig) (mode : String) : String :=
  "port_" ++ config.portKeyClient ++ "-" ++ mode

def serverPortKey (config : AppConfig) (mode : String) : String :=
  "port_" ++ config.portKeyServer ++ if mode = "dev" then "-dev" else ""

/-- The ports of an app in one mode, the client's first. -/
def usePorts (settings : CollatedTable weight String) (config : AppConfig)
    (mode : String) (use : Int → AppEffect) : AppRun Unit := do
  usePort settings (clientPortKey config mode) use
  if config.hasServerComponent ∧ config.portKeyServer ≠ "" then
    usePort settings (serverPortKey config mode) use
  else pure ()

def hasServerService (config : AppConfig) : Bool :=
  config.hasServerComponent && config.serverServiceTemplate ≠ ""

/-! ## Stopping -/

/-- The body of the loop over the modes, with the lines it reports. -/
def stopMode (settings : CollatedTable weight String) (config : AppConfig)
    (appId mode : String) : AppRun String := do
  let stopNamed (templateStr : String) : AppRun String := do
    let service := resolveServiceName templateStr appId mode
    perform (.stopService service)
    pure ("Stopped " ++ service ++ "\n")
  let client ←
    if config.clientServiceTemplate ≠ "" then stopNamed config.clientServiceTemplate
    else pure ""
  let server ←
    if hasServerService config then stopNamed config.serverServiceTemplate else pure ""
  usePorts settings config mode .killProcessOnPort
  pure (client ++ server)

def stopModes (settings : CollatedTable weight String) (config : AppConfig)
    (appId : String) : List String → AppRun String
  | [] => pure ""
  | mode :: modes => do
      let first ← stopMode settings config appId mode
      let rest ← stopModes settings config appId modes
      pure (first ++ rest)

def handleStopApp (command : Json) (s : Registry weight) : AppRun CmdResult :=
  match command.find? "app" with
  | none => pure ⟨1, "Missing required argument: --app\n"⟩
  | some member => do
      let appId ← ofExcept member.getString
      let mode ← ofExcept (optionalArg command "mode" Json.getString "all")
      match getAppConfig s appId with
      | none => pure ⟨1, "Unknown app: " ++ appId ++ "\n"⟩
      | some config =>
          if mode = "prod" ∧ config.prodPath = "" then
            pure ⟨1, appId ++ " is dev-only (no prod mode available)\n"⟩
          else
            let modes :=
              if mode = "all" then
                if config.prodPath = "" then ["dev"] else ["prod", "dev"]
              else [mode]
            let result ← stopModes s.system_settings config appId modes
            pure ⟨0, result⟩

/-! ## Restarting -/

/-- Whether the restarts of the server's and the client's service succeed. -/
structure RestartOutcome where
  server : Bool
  client : Bool

def restartNamed (succeeds : Bool) (service : String) : AppRun String := do
  perform (.restartService service)
  pure ((if succeeds then "Restarted " else "Failed to restart ") ++ service ++ "\n")

def handleRestartApp (outcome : RestartOutcome) (command : Json) (s : Registry weight) :
    AppRun CmdResult :=
  match command.find? "app" with
  | none => pure ⟨1, "Missing required argument: --app\n"⟩
  | some member => do
      let appId ← ofExcept member.getString
      let mode ← ofExcept (optionalArg command "mode" Json.getString "dev")
      match getAppConfig s appId with
      | none => pure ⟨1, "Unknown app: " ++ appId ++ "\n"⟩
      | some config =>
          if mode = "prod" ∧ config.prodPath = "" then
            pure ⟨1, appId ++ " is dev-only (no prod mode available)\n"⟩
          else
            let client := resolveServiceName config.clientServiceTemplate appId mode
            let server := resolveServiceName config.serverServiceTemplate appId mode
            if config.clientServiceTemplate ≠ "" then perform (.stopService client)
            if hasServerService config then perform (.stopService server)
            usePorts s.system_settings config mode .waitForPortRelease
            let serverLine ←
              if hasServerService config then restartNamed outcome.server server
              else pure ""
            let clientLine ←
              if config.clientServiceTemplate ≠ "" then restartNamed outcome.client client
              else pure ""
            pure ⟨0, serverLine ++ clientLine⟩

end

end ExtraApps

end AutomateLinux
