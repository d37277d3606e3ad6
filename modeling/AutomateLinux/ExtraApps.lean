import AutomateLinux.CollatedTable
import AutomateLinux.JsonValue
import Mathlib.Tactic.Common

/-!
# The registry of extra apps

`addExtraApp` clones a repository, finds out what the app consists of, takes
ports from the registry and records the app; `removeExtraApp` deletes the ports
and the record.  The ports are settings under `port_…` keys, next to those that
anyone may set by hand.  The two tables compare their keys by the weight of the
database's collation.  What the shell commands print and return is the
surroundings' choice; every command line is run at most once for a request.
-/

namespace AutomateLinux

namespace ExtraApps

def DEV_APPS_DIR : String := "/opt/dev/"

def PROD_APPS_DIR : String := "/opt/prod/"

structure AppConfig where
  appId : String
  displayName : String
  hasServerComponent : Bool
  serverServiceTemplate : String
  clientServiceTemplate : String
  portKeyClient : String
  portKeyServer : String
  devPath : String
  prodPath : String
  serverBuildSubdir : String
  clientSubdir : String

def APP_CONFIGS : List AppConfig :=
  [ ⟨"cad", "CAD Application", true, "", "cad-\x7bmode\x7d", "cad", "",
      "/opt/dev/cad", "/opt/prod/cad", ".", "web"⟩,
    ⟨"pt", "Public Transportation", false, "", "pt-\x7bmode\x7d", "pt", "",
      "/opt/dev/publicTransportation", "/opt/prod/publicTransportation", "",
      "frontend/public-transportation"⟩,
    ⟨"dashboard", "Dashboard", true, "dashboard-bridge",
      "dashboard-\x7bmode\x7d", "dashboard", "dashboard-bridge",
      "/opt/dev/dashboard", "/opt/prod/dashboard", "", ""⟩ ]

structure ExtraAppRecord where
  app_id : String
  display_name : String
  repo_url : String
  has_server_component : Bool
  server_service_template : String
  client_service_template : String
  port_key_client : String
  port_key_server : String
  dev_path : String
  prod_path : String
  server_build_subdir : String
  client_subdir : String

/-- The tables the two commands read and write. -/
structure Registry (weight : String → String) where
  system_settings : CollatedTable weight String
  extra_apps : CollatedTable weight ExtraAppRecord

/-- What the command lines of one request return and print. -/
structure Shell where
  system : String → Int
  executeCommand : String → String

/-- The part of the text behind the last slash, without `.git`. -/
def extractAppNameFromUrl (repoUrl : String) : String :=
  if '/' ∈ repoUrl.toList then
    let name := (repoUrl.toList.reverse.takeWhile fun c => c ≠ '/').reverse
    let stem := name.take (name.length - 4)
    if 4 < name.length ∧ name.drop (name.length - 4) = ".git".toList then
      String.ofList stem
    else String.ofList name
  else ""

/-! ## Ports -/

/-- `key.find("port_") == 0`. -/
def isPortKey (key : String) : Bool := "port_".toList.isPrefixOf key.toList

section

variable {weight : String → String}

/-- What `stoi` reads of the values under port keys; the others are skipped. -/
def usedPorts (settings : CollatedTable weight String) : List Int :=
  settings.rows.filterMap fun row =>
    if isPortKey row.1 then (stoi row.2).toOption else none

/-- `for (int base = 3000; base < 3500; base += 2)`. -/
def portBases : List Int :=
  (List.range 250).map fun i : ℕ => 3000 + 2 * (i : Int)

def findNextAvailablePortPair (settings : CollatedTable weight String) :
    Int × Int :=
  let usedPorts := usedPorts settings
  match portBases.find? fun base => base ∉ usedPorts ∧ base + 1 ∉ usedPorts with
  | some base => (base, base + 1)
  | none => (-1, -1)

/-- `for (int port = 3500; port < 4000; port++)`. -/
def serverPorts : List Int := (List.range 500).map fun i : ℕ => 3500 + (i : Int)

def findNextAvailableServerPort (settings : CollatedTable weight String) : Int :=
  let usedPorts := usedPorts settings
  (serverPorts.find? fun port => port ∉ usedPorts).getD (-1)

end

/-! ## Adding -/

structure AppStructure where
  hasServer : Bool
  serverSubdir : String
  clientSubdir : String

def serverDirs : List String := ["server", "backend", "api"]

def clientDirs : List String := ["client", "web", "frontend", "app"]

/-- The first of the directories that exists and holds the file. -/
def detectSubdir (shell : Shell) (appPath file : String) (dirs : List String) :
    Option String :=
  dirs.find? fun dir =>
    shell.system ("/usr/bin/test -d " ++ appPath ++ "/" ++ dir) = 0 ∧
      shell.system ("/usr/bin/test -f " ++ appPath ++ "/" ++ dir ++ "/" ++ file) = 0

/-- The check of the root directory changes nothing and is left out. -/
def detectAppStructure (shell : Shell) (appPath : String) : AppStructure :=
  let server := detectSubdir shell appPath "CMakeLists.txt" serverDirs
  let client := detectSubdir shell appPath "package.json" clientDirs
  ⟨server.isSome, server.getD "", client.getD ""⟩

/-- An argument that may be missing. -/
def optionalArg {α : Type} (command : Json) (key : String)
    (get : Json → Except Exn α) (fallback : α) : Except Exn α :=
  match command.find? key with
  | some member => get member
  | none => .ok fallback

/-- The overrides of step 3. -/
def overrideStructure (command : Json) (detected : AppStructure) :
    Except Exn AppStructure := do
  let hasServer ←
    optionalArg command "hasServer" Json.getBool detected.hasServer
  let serverSubdir ←
    optionalArg command "serverSubdir" Json.getString detected.serverSubdir
  let clientSubdir ←
    optionalArg command "clientSubdir" Json.getString detected.clientSubdir
  let given := command.contains "serverSubdir" && serverSubdir ≠ ""
  return ⟨hasServer || given, serverSubdir, clientSubdir⟩

/-- Whether the text occurs in the output. -/
def occursIn (text output : String) : Bool :=
  output.toList.tails.any fun rest => text.toList.isPrefixOf rest

/-- Step 1: the report, or the result that ends the request. -/
def cloneRepository (shell : Shell) (repoUrl devPath : String) :
    CmdResult ⊕ String :=
  if shell.system ("/usr/bin/test -d " ++ devPath) ≠ 0 then
    let cloneOutput := shell.executeCommand
      ("/usr/bin/git clone " ++ repoUrl ++ " " ++ devPath ++ " 2>&1")
    if occursIn "fatal" cloneOutput || occursIn "error" cloneOutput then
      .inl ⟨1, "Failed to clone repository:\n" ++ cloneOutput ++ "\n"⟩
    else
      .inr ("  Cloning repository to " ++ devPath ++ "...\n" ++ "  Clone: OK\n")
  else .inr ("  Directory already exists: " ++ devPath ++ "\n")

/-- `text.erase(text.find_last_not_of(" \n\r\t") + 1)`. -/
def trimRight (text : String) : String :=
  String.ofList (text.toList.reverse.dropWhile fun c =>
    c = ' ' || c = '\n' || c = '\r' || c = '\t').reverse

/-- Step 2: a worktree that cannot be made is only warned about. -/
def createWorktree (shell : Shell) (devPath prodPath : String) : String :=
  if shell.system ("/usr/bin/test -d " ++ prodPath) ≠ 0 then
    let commitHash := trimRight (shell.executeCommand
      ("cd " ++ devPath ++ " && /usr/bin/git rev-parse HEAD"))
    let worktreeOutput := shell.executeCommand
      ("cd " ++ devPath ++ " && /usr/bin/git worktree add --detach " ++ prodPath ++
        " " ++ commitHash ++ " 2>&1")
    "  Creating prod worktree at " ++ prodPath ++ "...\n" ++
      if occursIn "fatal" worktreeOutput then
        "  Warning: Could not create worktree: " ++ worktreeOutput ++ "\n"
      else "  Worktree: OK\n"
  else "  Prod worktree already exists: " ++ prodPath ++ "\n"

def structureReport (app : AppStructure) : String :=
  "  Structure detected:\n" ++
    "    Has server: " ++ (if app.hasServer then "yes" else "no") ++ "\n" ++
    (if app.hasServer then "    Server subdir: " ++ app.serverSubdir ++ "\n"
      else "") ++
    "    Client subdir: " ++
    (if app.clientSubdir = "" then "(root)" else app.clientSubdir) ++ "\n"

/-- The three ports of an app; without a server the last one is -1. -/
structure Ports where
  prodPort : Int
  devPort : Int
  serverPort : Int

def portsReport (appId : String) (hasServer : Bool) (ports : Ports) : String :=
  "  Ports allocated:\n" ++
    "    " ++ appId ++ "-prod: " ++ to_string ports.prodPort ++ "\n" ++
    "    " ++ appId ++ "-dev: " ++ to_string ports.devPort ++ "\n" ++
    if hasServer then
      "    " ++ appId ++ "-server: " ++ to_string ports.serverPort ++ "\n"
    else ""

def nextSteps (appId : String) (hasServer : Bool) : String :=
  "\nApp added successfully!\n" ++ "Next steps:\n" ++
    "  1. Install dependencies: d installAppDeps --app " ++ appId ++ "\n" ++
    (if hasServer then
      "  2. Build server: d buildApp --app " ++ appId ++ " --mode dev\n" else "") ++
    "  3. Create systemd services for " ++ appId ++ "-dev and " ++ appId ++
    "-prod\n" ++
    "  4. Start app: d startApp --app " ++ appId ++ " --mode dev\n"

def appRecord (appId displayName repoUrl devPath prodPath : String)
    (app : AppStructure) : ExtraAppRecord where
  app_id := appId
  display_name := displayName
  repo_url := repoUrl
  has_server_component := app.hasServer
  server_service_template :=
    if app.hasServer then appId ++ "-server-\x7bmode\x7d" else ""
  client_service_template := appId ++ "-\x7bmode\x7d"
  port_key_client := appId
  port_key_server := if app.hasServer then appId ++ "-server" else ""
  dev_path := devPath
  prod_path := prodPath
  server_build_subdir := app.serverSubdir
  client_subdir := app.clientSubdir

section

variable {weight : String → String}

/-- Step 4: the two searches, both before anything is written. -/
def allocatePorts (settings : CollatedTable weight String) (hasServer : Bool) :
    CmdResult ⊕ Ports :=
  let (prodPort, devPort) := findNextAvailablePortPair settings
  if prodPort < 0 then .inl ⟨1, "No available ports in 3000-3499 range\n"⟩
  else if hasServer then
    let serverPort := findNextAvailableServerPort settings
    if serverPort < 0 then
      .inl ⟨1, "No available server ports in 3500+ range\n"⟩
    else .inr ⟨prodPort, devPort, serverPort⟩
  else .inr ⟨prodPort, devPort, -1⟩

/-- Save the ports. -/
def savePorts (settings : CollatedTable weight String) (appId : String)
    (hasServer : Bool) (ports : Ports) : CollatedTable weight String :=
  let settings :=
    settings.upsert ("port_" ++ appId ++ "-prod") (to_string ports.prodPort)
  let settings :=
    settings.upsert ("port_" ++ appId ++ "-dev") (to_string ports.devPort)
  if hasServer then
    settings.upsert ("port_" ++ appId ++ "-server") (to_string ports.serverPort)
  else settings

/-- Steps 3 to 6. -/
def registerApp (shell : Shell) (command : Json)
    (appId repoUrl devPath prodPath result : String) (s : Registry weight) :
    Except Exn CmdResult × Registry weight :=
  match overrideStructure command (detectAppStructure shell devPath) with
  | .error e => (.error e, s)
  | .ok app =>
      match allocatePorts s.system_settings app.hasServer with
      | .inl failure => (.ok failure, s)
      | .inr ports =>
          let s :=
            { s with
              system_settings :=
                savePorts s.system_settings appId app.hasServer ports }
          match optionalArg command "displayName" Json.getString appId with
          | .error e => (.error e, s)
          | .ok displayName =>
              let record :=
                appRecord appId displayName repoUrl devPath prodPath app
              (.ok ⟨0, result ++ structureReport app ++
                  portsReport appId app.hasServer ports ++
                  "  Database entry: OK\n" ++ nextSteps appId app.hasServer⟩,
                { s with extra_apps := s.extra_apps.upsert appId record })

def handleAddExtraApp (shell : Shell) (command : Json) (s : Registry weight) :
    Except Exn CmdResult × Registry weight :=
  match command.find? "repoUrl" with
  | none => (.ok ⟨1, "Missing required argument: --repoUrl\n"⟩, s)
  | some member =>
      match member.getString with
      | .error e => (.error e, s)
      | .ok repoUrl =>
          let appId := extractAppNameFromUrl repoUrl
          let devPath := DEV_APPS_DIR ++ appId
          let prodPath := PROD_APPS_DIR ++ appId
          if appId = "" then
            (.ok ⟨1, "Could not extract app name from URL: " ++ repoUrl ++ "\n"⟩, s)
          else if APP_CONFIGS.any fun cfg => cfg.appId = appId then
            (.ok ⟨1, "App already exists in hardcoded config: " ++ appId ++ "\n"⟩, s)
          else if s.extra_apps.contains appId then
            (.ok ⟨1, "App already registered in database: " ++ appId ++ "\n"⟩, s)
          else
            match cloneRepository shell repoUrl devPath with
            | .inl failure => (.ok failure, s)
            | .inr cloned =>
                registerApp shell command appId repoUrl devPath prodPath
                  ("Adding extra app: " ++ appId ++ "\n" ++ cloned ++
                    createWorktree shell devPath prodPath) s

/-! ## Removing -/

/-- The record as it is read back: the key column holds the id. -/
def getApp (s : Registry weight) (appId : String) : Option ExtraAppRecord :=
  (s.extra_apps.row? appId).map fun row => { row.2 with app_id := row.1 }

def deletePorts (settings : CollatedTable weight String) (appId : String)
    (hasServer : Bool) : CollatedTable weight String :=
  let settings := settings.erase ("port_" ++ appId ++ "-prod")
  let settings := settings.erase ("port_" ++ appId ++ "-dev")
  if hasServer then settings.erase ("port_" ++ appId ++ "-server") else settings

def handleRemoveExtraApp (command : Json) (s : Registry weight) :
    Except Exn CmdResult × Registry weight :=
  match command.find? "app" with
  | none => (.ok ⟨1, "Missing required argument: --app\n"⟩, s)
  | some member =>
      match member.getString with
      | .error e => (.error e, s)
      | .ok appId =>
          match getApp s appId with
          | none => (.ok ⟨1, "App not found in database: " ++ appId ++ "\n"⟩, s)
          | some app =>
              (.ok ⟨0, "Removing extra app: " ++ appId ++ "\n" ++
                  "  Removed port assignments\n" ++
                  "  Removed database entry\n" ++
                  "\nApp removed from registry.\n" ++
                  "Note: Files at " ++ app.dev_path ++ " and " ++ app.prod_path ++
                  " were NOT deleted.\n" ++
                  "To fully remove, manually delete these directories and any systemd services.\n"⟩,
                { system_settings :=
                    deletePorts s.system_settings appId app.has_server_component
                  extra_apps := s.extra_apps.erase appId })

/-! ## Runs -/

/-- One request with the surroundings it meets. -/
inductive Request
  | addExtraApp (command : Json) (shell : Shell)
  | removeExtraApp (command : Json)

def handle (s : Registry weight) : Request →
    Except Exn CmdResult × Registry weight
  | .addExtraApp command shell => handleAddExtraApp shell command s
  | .removeExtraApp command => handleRemoveExtraApp command s

/-- A request is always taken, however it ends. -/
def step (s : Registry weight) (request : Request) : Option (Registry weight) :=
  some (handle s request).2

end

end ExtraApps

end AutomateLinux
