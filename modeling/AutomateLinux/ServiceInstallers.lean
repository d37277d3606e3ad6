import AutomateLinux.AppCommands
import AutomateLinux.ExtraAppPorts

/-!
# Two installers of services

The daemon generates the unit files of an app's services itself, or sends the app's
configuration to the manager of a peer, which generates them there.  The daemon tells
the mode of a service from the service's name and takes every port from the setting
of the client in that mode; the manager goes over the services with their modes and
looks the ports up under the app's id.

No unit file is hand-written here.  A file is written over when a later service has
the same name.
-/

namespace AutomateLinux

namespace ExtraApps

open CollatedTable TextOperations

/-- What a generated unit file says about the service; the port is what follows `-p`,
empty without that. -/
structure AppUnit where
  mode : String
  workDir : String
  portStr : String

def AppUnit.port (u : AppUnit) : Option ℕ :=
  if u.portStr = "" then none else some (decimalValue u.portStr)

section

variable {weight : String → String} (settings : CollatedTable weight String)
  (config : AppConfig) (appId : String)

/-! ## The daemon -/

def serviceNames : List String :=
  (if config.clientServiceTemplate ≠ "" then
    resolveServiceName config.clientServiceTemplate appId "dev" ::
      if config.prodPath ≠ "" then
        [resolveServiceName config.clientServiceTemplate appId "prod"]
      else []
  else []) ++
    if hasServerService config then
      resolveServiceName config.serverServiceTemplate appId "dev" ::
        if config.prodPath ≠ "" then
          [resolveServiceName config.serverServiceTemplate appId "prod"]
        else []
    else []

def generatedUnit (svcName : String) : AppUnit :=
  let isDev := occursIn "-dev" svcName
  let mode := if isDev then "dev" else "prod"
  let appPath := if isDev then config.devPath else config.prodPath
  { mode
    workDir :=
      if config.clientSubdir ≠ "" then appPath ++ "/" ++ config.clientSubdir else appPath
    portStr := getSetting settings (clientPortKey config mode) }

/-- The files written, in order, once the configuration is found. -/
def handleInstallAppServices : List (String × AppUnit) :=
  (serviceNames config appId).map fun svcName => (svcName, generatedUnit settings config svcName)

/-! ## The request to the manager -/

abbrev PortTable := String → Option Int

/-- `if (!port.empty()) ports[key] = stoi(port);`. -/
def addPort (key port : String) (ports : PortTable) : Except Exn PortTable :=
  if port = "" then .ok ports
  else (stoi port).map fun n => Function.update ports key (some n)

def getAppPorts : Except Exn PortTable := do
  let prodPort := getSetting settings (clientPortKey config "prod")
  let devPort := getSetting settings (clientPortKey config "dev")
  let ports ← addPort (config.portKeyClient ++ "-prod") prodPort fun _ => none
  let ports ← addPort (config.portKeyClient ++ "-dev") devPort ports
  if config.hasServerComponent ∧ config.portKeyServer ≠ "" then
    addPort config.portKeyServer (getSetting settings ("port_" ++ config.portKeyServer)) ports
  else .ok ports

/-- The part of the message that the services are generated from. -/
structure InstallRequest where
  app_id : String
  has_server : Bool
  client_subdir : String
  client_service_template : String
  server_service_template : String
  dev_path : String
  prod_path : String
  ports : PortTable

def handleInstallAppOnPeer : Except Exn InstallRequest := do
  let ports ← getAppPorts settings config
  return {
    app_id := appId
    has_server := config.hasServerComponent
    client_subdir := config.clientSubdir
    client_service_template := config.clientServiceTemplate
    server_service_template := config.serverServiceTemplate
    dev_path := config.devPath
    prod_path := config.prodPath
    ports }

end

/-! ## The manager -/

inductive Component
  | client | server
deriving DecidableEq

def resolve_service_name (template app_id mode : String) : String :=
  String.ofList (replaceAll "\x7bmode\x7d".toList mode.toList
    (replaceAll "\x7bapp\x7d".toList app_id.toList template.toList))

section

variable (request : InstallRequest)

def service_names : List (Component × String × String) :=
  (if request.client_service_template ≠ "" then
    (.client, "dev",
        resolve_service_name request.client_service_template request.app_id "dev") ::
      if request.prod_path ≠ "" then
        [(.client, "prod",
          resolve_service_name request.client_service_template request.app_id "prod")]
      else []
  else []) ++
    if request.has_server && request.server_service_template ≠ "" then
      (.server, "dev",
          resolve_service_name request.server_service_template request.app_id "dev") ::
        if request.prod_path ≠ "" then
          [(.server, "prod",
            resolve_service_name request.server_service_template request.app_id "prod")]
        else []
    else []

def port_key (app_id : String) (component : Component) (mode : String) : String :=
  if component = .client then app_id ++ "-" ++ mode else app_id ++ "-server"

/-- `str(port) if port else ""`: a missing port and port 0 are left out. -/
def port_text (port : Option Int) : String :=
  match port with
  | some n => if n = 0 then "" else to_string n
  | none => ""

def generated_unit (component : Component) (mode : String) : AppUnit :=
  let app_path := if mode = "dev" then request.dev_path else request.prod_path
  { mode
    workDir :=
      if request.client_subdir ≠ "" then app_path ++ "/" ++ request.client_subdir
      else app_path
    portStr := port_text (request.ports (port_key request.app_id component mode)) }

def install_service_files : List (String × AppUnit) :=
  (service_names request).map fun (component, mode, svc_name) =>
    (svc_name, generated_unit request component mode)

end

end ExtraApps

end AutomateLinux
