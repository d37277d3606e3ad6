import AutomateLinux.AppInstallation
import AutomateLinux.PortSettings
import AutomateLinux.TransitionSystem

/-!
# The ports of a cluster

The leader keeps the ports: `setPort` and `deletePort` are forwarded to it from
whatever machine they are given on.  An app is installed on a peer by a message with
the ports that the asking machine has for the app; the manager of the peer gives them
to its own daemon one by one, and takes them back when the app is uninstalled.

A manager waits for the answer to each command, and everything else goes on in
between.  A command that is lost on its way, or whose answer is, has its label say
whether it reaches the leader; one that is given on the leader's own machine has no way
to go and is not lost.
-/

namespace AutomateLinux

namespace PortCluster

open ExtraApps UnitFiles TransitionSystem

section

variable {weight : String → String}

def handleDeletePort (forwarded : Option CmdResult) (key : Json) (s : Registry weight) :
    Except Exn CmdResult × Registry weight :=
  match forwarded with
  | some result => (.ok result, s)
  | none =>
      match key.getString with
      | .error e => (.error e, s)
      | .ok key =>
          if s.system_settings.contains ("port_" ++ key) then
            (.ok ⟨0, "Port entry deleted for " ++ key ++ "\n"⟩,
              { s with system_settings := s.system_settings.erase ("port_" ++ key) })
          else (.ok ⟨1, "Port entry not found for " ++ key ++ "\n"⟩, s)

/-- What a command on ports or apps does to the tables of the machine that carries it
out; one without its required arguments is turned down. -/
def carryOut (shell : Shell) (command : Json) (s : Registry weight) : Registry weight :=
  match command.find? "command" with
  | some (.string "setPort") =>
      match command.find? "key", command.find? "value" with
      | some key, some value => (handleSetPort none key value s).2
      | _, _ => s
  | some (.string "deletePort") =>
      match command.find? "key" with
      | some key => (handleDeletePort none key s).2
      | none => s
  | some (.string "addExtraApp") => (handleAddExtraApp shell command s).2
  | some (.string "removeExtraApp") => (handleRemoveExtraApp command s).2
  | _ => s

def isForwarded (command : Json) : Bool :=
  match command.find? "command" with
  | some (.string name) => name = "setPort" || name = "deletePort"
  | _ => false

/-! ## The requests to a manager -/

/-- `if (!port.empty()) ports[key] = stoi(port);`, in the order of the keys. -/
def insertPort (key port : String) (ports : OrderedMap String Int) :
    Except Exn (OrderedMap String Int) :=
  if port = "" then .ok ports else (stoi port).map fun n => ports.insert key n

def appPorts (settings : CollatedTable weight String) (config : AppConfig) :
    Except Exn (OrderedMap String Int) := do
  let prodPort := getSetting settings (clientPortKey config "prod")
  let devPort := getSetting settings (clientPortKey config "dev")
  let ports ← insertPort (config.portKeyClient ++ "-prod") prodPort OrderedMap.empty
  let ports ← insertPort (config.portKeyClient ++ "-dev") devPort ports
  if config.hasServerComponent ∧ config.portKeyServer ≠ "" then
    insertPort config.portKeyServer (getSetting settings ("port_" ++ config.portKeyServer)) ports
  else .ok ports

theorem get?_insertPort (key port : String) (ports : OrderedMap String Int) :
    (insertPort key port ports).map OrderedMap.get? = addPort key port ports.get? := by
  unfold insertPort addPort
  split
  · rfl
  · cases stoi port with
    | error e => rfl
    | ok n =>
        refine congrArg Except.ok (funext fun other => ?_)
        rw [OrderedMap.get?_insert]
        exact (Function.update_apply _ _ _ _).symm

theorem get?_bind {x : Except Exn (OrderedMap String Int)}
    {f : OrderedMap String Int → Except Exn (OrderedMap String Int)}
    {g : PortTable → Except Exn PortTable}
    (hnext : ∀ ports, (f ports).map OrderedMap.get? = g ports.get?) :
    (x >>= f).map OrderedMap.get? = x.map OrderedMap.get? >>= g := by
  cases x with
  | error e => rfl
  | ok ports => exact hnext ports

/-- The table of the request, with an order of its keys. -/
theorem get?_appPorts (settings : CollatedTable weight String) (config : AppConfig) :
    (appPorts settings config).map OrderedMap.get? = getAppPorts settings config := by
  have hempty : (OrderedMap.empty : OrderedMap String Int).get? = fun _ => none :=
    funext OrderedMap.get?_empty
  unfold appPorts getAppPorts
  dsimp only
  rw [← hempty, ← get?_insertPort]
  refine get?_bind fun ports => ?_
  rw [← get?_insertPort]
  refine get?_bind fun ports => ?_
  split
  · exact get?_insertPort _ _ _
  · rfl

/-- `handleInstallAppOnPeer`, up to the message it sends if the app is known and its
ports are numbers. -/
def installRequest (s : Registry weight) (appId repoUrl mode : String) : Option InstallApp :=
  match getAppConfig s appId with
  | none => none
  | some config =>
      match appPorts s.system_settings config with
      | .error _ => none
      | .ok ports => some
          { app_id := appId
            display_name := config.displayName
            repo_url := repoUrl
            has_server := config.hasServerComponent
            server_build_subdir := config.serverBuildSubdir
            client_subdir := config.clientSubdir
            client_service_template := config.clientServiceTemplate
            server_service_template := config.serverServiceTemplate
            dev_path := config.devPath
            prod_path := config.prodPath
            ports
            mode }

/-- `handleUninstallAppOnPeer`, up to the message it sends. -/
def uninstallRequest (s : Registry weight) (appId : String) : Option UninstallApp :=
  (getAppConfig s appId).map fun config =>
    { app_id := appId
      dev_path := config.devPath
      prod_path := config.prodPath
      client_service_template := config.clientServiceTemplate
      server_service_template := config.serverServiceTemplate
      has_server := config.hasServerComponent
      port_key_client := config.portKeyClient
      port_key_server := config.portKeyServer }

/-! ## The cluster -/

variable {ι : Type} [DecidableEq ι]

/-- The tables of every machine, and what each manager at work has still to send to
its own daemon. -/
structure Cluster (ι : Type) (weight : String → String) where
  registries : ι → Registry weight
  jobs : List (ι × List Json)

inductive Label (ι : Type)
  | command (machine : ι) (reaches : Bool) (shell : Shell) (command : Json)
  | install (machine peer : ι) (appId repoUrl mode : String) (host : Host) (files : Machine)
  | uninstall (machine peer : ι) (appId : String) (host : Host) (files : Machine)
  -- the next command of a job
  | send (job : ℕ) (reaches : Bool) (shell : Shell)

namespace Cluster

/-- A command is given on a machine and carried out there or, if it gets there, on
the leader. -/
def give (leader machine : ι) (reaches : Bool) (shell : Shell) (command : Json)
    (c : Cluster ι weight) : Cluster ι weight :=
  let place := if isForwarded command then leader else machine
  if isForwarded command ∧ machine ≠ leader ∧ reaches = false then c
  else { c with registries :=
    Function.update c.registries place (carryOut shell command (c.registries place)) }

def start (peer : ι) (handled : Handled) (c : Cluster ι weight) : Cluster ι weight :=
  { c with jobs := c.jobs ++ [(peer, handled.sent)] }

def step (leader : ι) (c : Cluster ι weight) : Label ι → Option (Cluster ι weight)
  | .command machine reaches shell command => some (c.give leader machine reaches shell command)
  | .install machine peer appId repoUrl mode host files =>
      some (match installRequest (c.registries machine) appId repoUrl mode with
        | none => c
        | some request => c.start peer (handle_install_app host request files))
  | .uninstall machine peer appId host files =>
      some (match uninstallRequest (c.registries machine) appId with
        | none => c
        | some request => c.start peer (handle_uninstall_app host request files))
  | .send job reaches shell =>
      match c.jobs[job]? with
      | some (peer, message :: rest) =>
          some { c.give leader peer reaches shell message with
            jobs := c.jobs.set job (peer, rest) }
      | _ => none

end Cluster

/-- The number of the port that a machine has under a key. -/
def number (s : Registry weight) (key : String) : Option Int :=
  (s.system_settings.get? ("port_" ++ key)).bind fun text => (stoi text).toOption

end

end PortCluster

end AutomateLinux
