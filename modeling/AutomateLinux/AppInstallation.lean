import AutomateLinux.OrderedMap
import AutomateLinux.ServiceInstallers
import AutomateLinux.ResponseReaders
import AutomateLinux.UnitFiles
import Mathlib.Data.String.Basic

/-!
# Installing apps on a machine

A machine's manager installs and uninstalls apps at the request of a daemon, and the
machine's own daemon installs the services of an app.  Every one of these requests
goes over the services of an app and visits the files of each in turn; an app can name
one service twice, and two apps can name the same.

What the commands, the daemon and the directories answer the manager is part of a
request's host.
-/

namespace AutomateLinux

namespace UnitFiles

open ExtraApps

/-- The message `install-app`. -/
structure InstallApp where
  app_id : String
  display_name : String
  repo_url : String
  has_server : Bool
  server_build_subdir : String
  client_subdir : String
  client_service_template : String
  server_service_template : String
  dev_path : String
  prod_path : String
  ports : OrderedMap String Int
  mode : String

def InstallApp.services (request : InstallApp) : InstallRequest where
  app_id := request.app_id
  has_server := request.has_server
  client_subdir := request.client_subdir
  client_service_template := request.client_service_template
  server_service_template := request.server_service_template
  dev_path := request.dev_path
  prod_path := request.prod_path
  ports := request.ports.get?

/-- The message `uninstall-app`. -/
structure UninstallApp where
  app_id : String
  dev_path : String
  prod_path : String
  client_service_template : String
  server_service_template : String
  has_server : Bool
  port_key_client : String
  port_key_server : String

/-- What the manager meets on its machine. -/
structure Host where
  isdir : String → Bool
  isfile : String → Bool
  -- the exit code and the output of a command run in a directory
  run_command : String → String → Int × String
  send_to_daemon : Json → Option String
  -- the services whose links go with `systemctl disable`
  unlinks : String → Bool

abbrev Machine := String → ServiceFiles

structure Reply where
  status : Int
  steps : List (String × Int)

/-- What handling a request comes to: the reply or what was raised, the files it
leaves, and the commands the local daemon was sent. -/
structure Handled where
  reply : Except OSError Reply
  machine : Machine
  sent : List Json

def unit_text (display_name : String) (u : AppUnit) : String :=
  "[Unit]\nDescription=" ++ display_name ++ " (" ++ u.mode ++ ")\n" ++
    "After=network.target daemon.service\nWants=daemon.service\n\n" ++
    "[Service]\nType=simple\nWorkingDirectory=" ++ u.workDir ++ "\n" ++
    "ExecStart=/usr/bin/npm run " ++ (if u.mode = "dev" then "dev" else "start") ++
    (if u.portStr = "" then "" else " -- -p " ++ u.portStr) ++ "\n" ++
    "Restart=on-failure\nRestartSec=5s\nUser=root\nGroup=root\nEnvironment=NODE_ENV=" ++
    (if u.mode = "dev" then "development" else "production") ++ "\n" ++
    "StandardOutput=journal\nStandardError=journal\n\n" ++
    "[Install]\nWantedBy=multi-user.target\n"

/-! ## Installing -/

def BASE_DIR : String := "/opt/automateLinux"

/-- `os.path.join` with a plain file name. -/
def path_join (path file : String) : String :=
  if path = "" ∨ path.endsWith "/" then path ++ file else path ++ "/" ++ file

def strip (text : String) : String :=
  String.ofList (TextOperations.trim ResponseReaders.isPySpace text.toList)

section

variable (host : Host) (request : InstallApp)

/-- A clone that fails ends the request. -/
def clone_or_pull : Except Reply (String × Int) :=
  if host.isdir request.dev_path then
    .ok ("git pull", (host.run_command ("git -C " ++ request.dev_path ++ " pull") BASE_DIR).1)
  else
    let code := (host.run_command
      ("git clone " ++ request.repo_url ++ " " ++ request.dev_path) BASE_DIR).1
    if code ≠ 0 then .error ⟨1, []⟩ else .ok ("git clone", code)

def create_worktree : String × Int :=
  if request.prod_path ≠ "" ∧ host.isdir request.prod_path = false then
    let commit := strip (host.run_command
      ("git -C " ++ request.dev_path ++ " rev-parse HEAD") BASE_DIR).2
    ("worktree", (host.run_command ("git -C " ++ request.dev_path ++
      " worktree add --detach " ++ request.prod_path ++ " " ++ commit) BASE_DIR).1)
  else ("worktree", 0)

/-- The development and the production directory of one part of the app, as the mode
asks for them. -/
def component_paths (subdir : String) : List String :=
  (if request.mode = "all" ∨ request.mode = "dev" then
    [if subdir ≠ "" then request.dev_path ++ "/" ++ subdir else request.dev_path] else []) ++
  if (request.mode = "all" ∨ request.mode = "prod") ∧ request.prod_path ≠ "" then
    [if subdir ≠ "" then request.prod_path ++ "/" ++ subdir else request.prod_path] else []

def npm_install : List (String × Int) :=
  ((component_paths request request.client_subdir).filter fun path =>
    host.isfile (path_join path "package.json")).map fun path =>
      ("npm install (" ++ path ++ ")", (host.run_command "npm install" path).1)

def cpp_build : List (String × Int) :=
  if request.has_server ∧ request.server_build_subdir ≠ "" then
    ((component_paths request request.server_build_subdir).filter fun path =>
      host.isfile (path_join path "CMakeLists.txt")).map fun path =>
        ("C++ build (" ++ path ++ ")", (host.run_command ("cd " ++ path_join path "build" ++
          " && cmake .. && make -j$(nproc)") BASE_DIR).1)
  else []

def visitService (machine : Machine) (svc_name content : String) :
    Except OSError Unit × Machine :=
  let installed := (machine svc_name).install content
  (installed.1, Function.update machine svc_name installed.2)

/-- The loop over the services; what is raised for one leaves the rest out. -/
def install_services : List (Component × String × String) → Machine →
    Except OSError Unit × Machine
  | [], machine => (.ok (), machine)
  | (component, mode, svc_name) :: rest, machine =>
      match visitService machine svc_name
          (unit_text request.display_name (generated_unit request.services component mode)) with
      | (.ok (), machine) => install_services rest machine
      | (.error e, machine) => (.error e, machine)

def setPortMessage (key : String) (port : Int) : Json :=
  .object [("command", .string "setPort"), ("key", .string key),
    ("value", .string (to_string port))]

/-- An empty answer counts as none. -/
def setPortStep (key : String) (port : Int) : String × Int :=
  ("setPort " ++ key ++ "=" ++ to_string port,
    if ((host.send_to_daemon (setPortMessage key port)).getD "") = "" then 1 else 0)

def handle_install_app (machine : Machine) : Handled :=
  match clone_or_pull host request with
  | .error reply => ⟨.ok reply, machine, []⟩
  | .ok cloned =>
      match install_services request (service_names request.services) machine with
      | (.error e, machine) => ⟨.error e, machine, []⟩
      | (.ok (), machine) =>
          let steps := cloned :: create_worktree host request ::
            (npm_install host request ++ cpp_build host request ++ [("services", 0)] ++
              request.ports.entries.map (fun port => setPortStep host port.1 port.2) ++
              [("permissions", 0)])
          ⟨.ok ⟨if steps.any (fun step => step.2 ≠ 0) then 1 else 0, steps⟩, machine,
            request.ports.entries.map fun port => setPortMessage port.1 port.2⟩

end

/-! ## Uninstalling -/

/-- The services that are taken away, the production ones whether or not there are any. -/
def UninstallApp.serviceNames (request : UninstallApp) : List String :=
  let named (template : String) :=
    [resolve_service_name template request.app_id "dev",
      resolve_service_name template request.app_id "prod"]
  (if request.client_service_template ≠ "" then named request.client_service_template else []) ++
    if request.has_server ∧ request.server_service_template ≠ "" then
      named request.server_service_template
    else []

def uninstall_services (host : Host) : List String → Machine → Machine
  | [], machine => machine
  | svc :: rest, machine =>
      uninstall_services host rest
        (Function.update machine svc ((machine svc).uninstall (host.unlinks svc)))

def UninstallApp.portKeys (request : UninstallApp) : List String :=
  [request.port_key_client ++ "-prod", request.port_key_client ++ "-dev"] ++
    if request.has_server ∧ request.port_key_server ≠ "" then [request.port_key_server] else []

def deletePortMessage (key : String) : Json :=
  .object [("command", .string "deletePort"), ("key", .string key)]

/-- The reply reports success whatever happens. -/
def handle_uninstall_app (host : Host) (request : UninstallApp) (machine : Machine) : Handled :=
  let removed :=
    (if request.prod_path ≠ "" ∧ host.isdir request.prod_path then
      [("remove prod worktree", (0 : Int))] else []) ++
    if host.isdir request.dev_path then
      [("remove dev directory",
        (host.run_command ("rm -rf " ++ request.dev_path) BASE_DIR).1)] else []
  ⟨.ok ⟨0, ("stop+disable services", 0) :: removed ++
      [("delete ports", 0), ("remove from registry", 0), ("daemon-reload", 0)]⟩,
    uninstall_services host request.serviceNames machine,
    request.portKeys.map deletePortMessage ++
      [.object [("command", .string "removeExtraApp"), ("app", .string request.app_id)]]⟩

/-! ## Requests -/

section

variable {weight : String → String}

/-- A request to the manager or to the machine's daemon, with what it meets. -/
inductive Request (weight : String → String)
  | install (host : Host) (request : InstallApp)
  | uninstall (host : Host) (request : UninstallApp)
  | installLocally (settings : CollatedTable weight String) (config : AppConfig)
      (appId : String) (writable : String → Bool)

/-- `handleInstallAppServices` on the files of the machine. -/
def installServices (display_name : String) (writable : String → Bool) :
    List (String × AppUnit) → Machine → Machine
  | [], machine => machine
  | (svcName, u) :: rest, machine =>
      installServices display_name writable rest (Function.update machine svcName
        ((machine svcName).installLocally (unit_text display_name u) (writable svcName)))

def handle (machine : Machine) : Request weight → Machine
  | .install host request => (handle_install_app host request machine).machine
  | .uninstall host request => (handle_uninstall_app host request machine).machine
  | .installLocally settings config appId writable =>
      installServices config.displayName writable
        (handleInstallAppServices settings config appId) machine

end

end UnitFiles

end AutomateLinux
