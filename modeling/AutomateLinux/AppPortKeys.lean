import AutomateLinux.AppCommands
import AutomateLinux.ExtraAppPorts

/-!
# The port keys of added apps

An app that was added owns three settings: a port for its client in either mode
and one port for its server.  Stopping and restarting look a port up for the
client and one for the server in the mode of the request.
-/

namespace AutomateLinux

namespace ExtraApps

open CollatedTable AppRun

section

variable {weight : String → String} {settings : CollatedTable weight String}
  {s s' later : Registry weight} {config : AppConfig} {appId mode : String}

/-! ## What a request reads -/

theorem keysRead_bind_quiet {α β : Type} {x : AppRun α} {a : α} (hx : x.1 = .ok a)
    (hquiet : keysRead x = []) (f : α → AppRun β) : keysRead (x >>= f) = keysRead (f a) := by
  rw [keysRead_bind_ok hx, hquiet, List.nil_append]

theorem keysRead_bind_of_quiet {α β : Type} (x : AppRun α) {f : α → AppRun β}
    (hquiet : ∀ a, keysRead (f a) = []) : keysRead (x >>= f) = keysRead x := by
  cases hx : x.1 with
  | error e =>
      rw [bind_error hx]
      rfl
  | ok a => rw [keysRead_bind_ok hx, hquiet, List.append_nil]

theorem keysRead_ofExcept_bind {α β : Type} {result : Except Exn α} {a : α}
    (hresult : result = .ok a) (f : α → AppRun β) :
    keysRead (ofExcept result >>= f) = keysRead (f a) :=
  keysRead_bind_quiet hresult rfl f

theorem keysRead_usePort {key : String} {use : Int → AppEffect}
    (huse : ∀ port, (use port).key? = none) :
    keysRead (usePort settings key use) = [key] := by
  unfold usePort
  rw [keysRead_bind_ok rfl]
  dsimp only
  split
  · rfl
  · rw [keysRead_bind_of_quiet]
    · rfl
    · intro port
      rw [keysRead_perform, huse]
      rfl

/-- The setting is a number that was written. -/
def NumericAt (settings : CollatedTable weight String) (key : String) : Prop :=
  ∃ port : ℕ, (port : Int) ≤ INT_MAX ∧ settings.get? key = some (to_string port)

theorem NumericAt.getSetting {key : String} (hnumeric : NumericAt settings key) :
    getSetting settings key ≠ "" ∧ ∃ port, stoi (getSetting settings key) = .ok port := by
  obtain ⟨port, hbound, hget⟩ := hnumeric
  have hsetting : ExtraApps.getSetting settings key = to_string port := by
    rw [ExtraApps.getSetting, hget]
    rfl
  rw [hsetting]
  constructor
  · intro hempty
    exact (isDecimal_to_string port).1 (by rw [hempty]; rfl)
  · exact ⟨port, stoi_to_string hbound⟩

theorem NumericAt.usePort_ok {key : String} (hnumeric : NumericAt settings key)
    (use : Int → AppEffect) : (usePort settings key use).1 = .ok () := by
  obtain ⟨hne, port, hport⟩ := hnumeric.getSetting
  unfold usePort
  rw [bind_ok rfl]
  dsimp only
  rw [if_neg hne, hport]
  rfl

theorem keysRead_usePorts {use : Int → AppEffect} (huse : ∀ port, (use port).key? = none)
    (hserver : config.hasServerComponent = true) (hkey : config.portKeyServer ≠ "")
    (hclient : NumericAt settings (clientPortKey config mode)) :
    keysRead (usePorts settings config mode use) =
      [clientPortKey config mode, serverPortKey config mode] := by
  unfold usePorts
  rw [keysRead_bind_ok (hclient.usePort_ok use), if_pos ⟨hserver, hkey⟩,
    keysRead_usePort huse, keysRead_usePort huse]
  rfl

theorem keysRead_stopMode (settings : CollatedTable weight String) (config : AppConfig)
    (appId mode : String) :
    keysRead (stopMode settings config appId mode) =
      keysRead (usePorts settings config mode .killProcessOnPort) := by
  unfold stopMode
  dsimp only
  split_ifs
  all_goals
    rw [keysRead_bind_quiet rfl rfl, keysRead_bind_quiet rfl rfl,
      keysRead_bind_of_quiet _ fun _ => keysRead_pure _]

/-- A request for an app in one mode. -/
structure Names (request : Json) (appId mode : String) : Prop where
  app : request.find? "app" = some (.string appId)
  mode : request.find? "mode" = some (.string mode)

theorem Names.optionalArg {request : Json} (hnames : Names request appId mode)
    (fallback : String) :
    optionalArg request "mode" Json.getString fallback = .ok mode := by
  rw [ExtraApps.optionalArg, hnames.mode]
  rfl

theorem getString_string (text : String) : (Json.string text).getString = .ok text := rfl

theorem keysRead_handleStopApp {request : Json} (hnames : Names request appId mode)
    (hconfig : getAppConfig s appId = some config) (hprod : config.prodPath ≠ "")
    (hmode : mode ≠ "all") :
    keysRead (handleStopApp request s) =
      keysRead (usePorts s.system_settings config mode .killProcessOnPort) := by
  unfold handleStopApp
  rw [hnames.app]
  dsimp only
  rw [keysRead_ofExcept_bind (getString_string appId),
    keysRead_ofExcept_bind (hnames.optionalArg "all"), hconfig]
  dsimp only
  rw [if_neg fun h => hprod h.2, if_neg hmode,
    keysRead_bind_of_quiet _ fun _ => keysRead_pure _]
  unfold stopModes
  rw [keysRead_bind_of_quiet, keysRead_stopMode]
  intro first
  rfl

theorem keysRead_handleRestartApp {outcome : RestartOutcome} {request : Json}
    (hnames : Names request appId mode) (hconfig : getAppConfig s appId = some config)
    (hprod : config.prodPath ≠ "") :
    keysRead (handleRestartApp outcome request s) =
      keysRead (usePorts s.system_settings config mode .waitForPortRelease) := by
  unfold handleRestartApp
  rw [hnames.app]
  dsimp only
  rw [keysRead_ofExcept_bind (getString_string appId),
    keysRead_ofExcept_bind (hnames.optionalArg "dev"), hconfig]
  dsimp only
  rw [if_neg fun h => hprod h.2]
  have hlines : ∀ {α : Type} (f : Unit → AppRun α), (∀ u, keysRead (f u) = []) →
      keysRead (usePorts s.system_settings config mode .waitForPortRelease >>= f) =
        keysRead (usePorts s.system_settings config mode .waitForPortRelease) :=
    fun f hquiet => keysRead_bind_of_quiet _ hquiet
  split_ifs
  all_goals
    first
    | rw [keysRead_bind_quiet rfl rfl, keysRead_bind_quiet rfl rfl]
    | rw [keysRead_bind_quiet rfl rfl]
    | skip
    rw [hlines]
    intro u
    rfl

/-! ## What adding an app writes -/

def writtenPortKeys (appId : String) (hasServer : Bool) : List String :=
  ["port_" ++ appId ++ "-prod", "port_" ++ appId ++ "-dev"] ++
    if hasServer then ["port_" ++ appId ++ "-server"] else []

def savedPorts (appId : String) (hasServer : Bool) (ports : Ports) : List (String × String) :=
  (writtenPortKeys appId hasServer).zip
    [to_string ports.prodPort, to_string ports.devPort, to_string ports.serverPort]

theorem savePorts_eq (settings : CollatedTable weight String) (appId : String)
    (hasServer : Bool) (ports : Ports) :
    savePorts settings appId hasServer ports =
      (savedPorts appId hasServer ports).foldl
        (fun settings row => settings.upsert row.1 row.2) settings := by
  cases hasServer <;> rfl

theorem NumericAt.upsert {key key' : String} {port : Int} (hnumeric : NumericAt settings key)
    (hport : Writable settings port) : NumericAt (settings.upsert key' (to_string port)) key := by
  obtain ⟨old, hbound, hget⟩ := hnumeric
  obtain ⟨new, rfl, hnew⟩ := hport.eq_natCast
  unfold NumericAt
  rw [get?_upsert]
  split
  · exact ⟨new, hnew, rfl⟩
  · exact ⟨old, hbound, hget⟩

theorem numericAt_upsert_self (settings : CollatedTable weight String) (key : String)
    {port : Int} (hport : Writable settings port) :
    NumericAt (settings.upsert key (to_string port)) key := by
  obtain ⟨new, rfl, hnew⟩ := hport.eq_natCast
  unfold NumericAt
  rw [get?_upsert, if_pos rfl]
  exact ⟨new, hnew, rfl⟩

/-- Whatever spellings share a row, every key that was written reads as a number. -/
theorem numericAt_savePorts {ports : Ports} (hports : Allocated settings true ports)
    {key : String} (hkey : key ∈ writtenPortKeys appId true) :
    NumericAt (savePorts settings appId true ports) key := by
  obtain ⟨hneProd, hneDev⟩ := hports.server_ne rfl
  have hprod := hports.prod
  have hdev := hports.dev.upsert hprod hports.prod_ne_dev.symm ("port_" ++ appId ++ "-prod")
  have hserver := ((hports.server rfl).upsert hprod hneProd
    ("port_" ++ appId ++ "-prod")).upsert hdev hneDev ("port_" ++ appId ++ "-dev")
  have hkeys : key = "port_" ++ appId ++ "-prod" ∨ key = "port_" ++ appId ++ "-dev" ∨
      key = "port_" ++ appId ++ "-server" := by
    simpa [writtenPortKeys] using hkey
  rcases hkeys with rfl | rfl | rfl
  · exact ((numericAt_upsert_self settings _ hprod).upsert hdev).upsert hserver
  · exact (numericAt_upsert_self _ _ hdev).upsert hserver
  · exact numericAt_upsert_self _ _ hserver

/-- The app has just been added: it had no record, and its ports were allocated. -/
structure Added (s s' : Registry weight) (appId : String) (record : ExtraAppRecord) :
    Prop where
  named : appId ≠ ""
  notConfigured : (APP_CONFIGS.any fun cfg => cfg.appId = appId) = false
  unknown : s.extra_apps.contains appId = false
  saved : s'.extra_apps = s.extra_apps.upsert appId record
  described : ∃ displayName repoUrl app, record =
    appRecord appId displayName repoUrl (DEV_APPS_DIR ++ appId) (PROD_APPS_DIR ++ appId) app
  ports : ∃ ports, allocatePorts s.system_settings record.has_server_component = .inr ports ∧
    s'.system_settings =
      savePorts s.system_settings appId record.has_server_component ports

theorem added_of_handleAddExtraApp {shell : Shell} {command : Json} {repoUrl text : String}
    (hurl : command.find? "repoUrl" = some (.string repoUrl))
    (hadd : handleAddExtraApp shell command s = (.ok ⟨0, text⟩, s')) :
    ∃ record, Added s s' (extractAppNameFromUrl repoUrl) record := by
  rcases failed_or_allocates shell command s with ⟨hfailed, -⟩ | ⟨url, app, ports, hallocates⟩
  · rw [hadd] at hfailed
    exact absurd hfailed not_failed_of_status
  obtain rfl : repoUrl = url := by
    simpa [hurl] using hallocates.url
  obtain ⟨text', hhandle⟩ := handleAddExtraApp_of_allocates hallocates
  rw [hhandle] at hadd
  split at hadd
  · simp at hadd
  rename_i displayName hdisplay
  obtain ⟨-, rfl⟩ := Prod.mk.inj hadd
  exact ⟨_, hallocates.named, hallocates.notConfigured, hallocates.unknown, rfl,
    ⟨displayName, repoUrl, app, rfl⟩, ports, hallocates.allocated, rfl⟩

/-! ## The keys agree in prod mode only -/

/-- Later the app's record and its ports are as they were added. -/
structure Keeps (s' later : Registry weight) (appId : String) : Prop where
  record : later.extra_apps.row? appId = s'.extra_apps.row? appId
  ports : ∀ key ∈ writtenPortKeys appId true,
    later.system_settings.get? key = s'.system_settings.get? key

/-- A request reads a key for the client and one for the server; both were written
when the app was added and both name a port. -/
def PortsLookedUp (later : Registry weight) (appId : String) (run : AppRun CmdResult) : Prop :=
  run.keysRead.length = 2 ∧ ∀ key ∈ run.keysRead,
    key ∈ writtenPortKeys appId true ∧
      ∃ port, stoi (getSetting later.system_settings key) = .ok port

theorem getAppConfig_of_added {record : ExtraAppRecord} (hadded : Added s s' appId record)
    (hkeeps : Keeps s' later appId) :
    getAppConfig later appId = some (recordToConfig record) := by
  have hfind : (APP_CONFIGS.find? fun cfg => cfg.appId = appId) = none := by
    simpa using hadded.notConfigured
  have hrow : later.extra_apps.row? appId = some (appId, record) := by
    rw [hkeeps.record, hadded.saved]
    exact row?_upsert_of_not_contains hadded.unknown record
  have hid : record.app_id = appId := by
    obtain ⟨_, _, _, rfl⟩ := hadded.described
    rfl
  have hrecord : getApp later appId = some record := by
    unfold getApp
    rw [hrow, Option.map_some]
    dsimp only
    rw [← hid]
  unfold getAppConfig
  rw [hfind, hrecord]
  dsimp only
  rw [if_neg (hid.trans_ne hadded.named)]

theorem portsLookedUp_iff {run : AppRun CmdResult} {record : ExtraAppRecord}
    {use : Int → AppEffect} (huse : ∀ port, (use port).key? = none)
    (hadded : Added s s' appId record) (hserver : record.has_server_component = true)
    (hkeeps : Keeps s' later appId) (hmode : mode = "prod" ∨ mode = "dev")
    (hrun : keysRead run =
      keysRead (usePorts later.system_settings (recordToConfig record) mode use)) :
    PortsLookedUp later appId run ↔ mode = "prod" := by
  obtain ⟨displayName, repoUrl, app, rfl⟩ := hadded.described
  obtain ⟨ports, hallocate, hsaved⟩ := hadded.ports
  have happ : app.hasServer = true := hserver
  have hnumeric : ∀ key ∈ writtenPortKeys appId true, NumericAt later.system_settings key := by
    intro key hkey
    unfold NumericAt
    rw [hkeeps.ports key hkey, hsaved, hserver]
    rw [hserver] at hallocate
    exact numericAt_savePorts (allocatePorts_allocated hallocate) hkey
  have hclientKey : ∀ {mode}, mode = "prod" ∨ mode = "dev" →
      "port_" ++ appId ++ "-" ++ mode ∈ writtenPortKeys appId true := by
    rintro mode (rfl | rfl)
    · simp [writtenPortKeys, String.append_assoc]
    · simp [writtenPortKeys, String.append_assoc]
  have hportKey : appId ++ "-server" ≠ "" := by
    intro hempty
    have hlength := congrArg String.length hempty
    simp at hlength
  have hreads : keysRead run = ["port_" ++ appId ++ "-" ++ mode,
      "port_" ++ (appId ++ "-server") ++ if mode = "dev" then "-dev" else ""] := by
    rw [hrun, keysRead_usePorts huse hserver]
    · simp [clientPortKey, serverPortKey, recordToConfig, appRecord, happ]
    · simp [recordToConfig, appRecord, happ, hportKey]
    · exact hnumeric _ (hclientKey hmode)
  unfold PortsLookedUp
  rw [hreads]
  constructor
  · rintro ⟨-, hwritten⟩
    rcases hmode with rfl | rfl
    · rfl
    · obtain ⟨hmem, -⟩ := hwritten _ (List.mem_cons_of_mem _ List.mem_cons_self)
      simp [writtenPortKeys, String.append_assoc] at hmem
  · rintro rfl
    have hserverKey : "port_" ++ (appId ++ "-server") ++ (if "prod" = "dev" then "-dev" else "")
        ∈ writtenPortKeys appId true := by
      simp [writtenPortKeys, String.append_assoc]
    refine ⟨rfl, ?_⟩
    intro key hkey
    have hkeyWritten : key ∈ writtenPortKeys appId true := by
      rcases List.mem_cons.mp hkey with rfl | hkey
      · exact hclientKey hmode
      · obtain rfl := List.mem_singleton.mp hkey
        exact hserverKey
    exact ⟨hkeyWritten, (hnumeric key hkeyWritten).getSetting.2⟩

/-- For an app that was added with a server, stopping it and restarting it find
both ports under keys that were written exactly if the mode is prod. -/
theorem addedApp_portsLookedUp_iff {shell : Shell} {command request : Json}
    {outcome : RestartOutcome} {repoUrl text : String} {record : ExtraAppRecord}
    (hurl : command.find? "repoUrl" = some (.string repoUrl))
    (hadd : handleAddExtraApp shell command s = (.ok ⟨0, text⟩, s'))
    (hrecord : getApp s' (extractAppNameFromUrl repoUrl) = some record)
    (hserver : record.has_server_component = true)
    (hkeeps : Keeps s' later (extractAppNameFromUrl repoUrl))
    (hnames : Names request (extractAppNameFromUrl repoUrl) mode)
    (hmode : mode = "prod" ∨ mode = "dev") :
    (PortsLookedUp later (extractAppNameFromUrl repoUrl) (handleStopApp request later) ↔
        mode = "prod") ∧
      (PortsLookedUp later (extractAppNameFromUrl repoUrl)
          (handleRestartApp outcome request later) ↔ mode = "prod") := by
  obtain ⟨added, hadded⟩ := added_of_handleAddExtraApp hurl hadd
  have hsame : record.has_server_component = added.has_server_component := by
    unfold getApp at hrecord
    rw [hadded.saved, row?_upsert_of_not_contains hadded.unknown] at hrecord
    obtain rfl := Option.some.inj hrecord
    rfl
  rw [hsame] at hserver
  have hconfig := getAppConfig_of_added hadded hkeeps
  have hprod : (recordToConfig added).prodPath ≠ "" := by
    obtain ⟨displayName, repoUrl', app, rfl⟩ := hadded.described
    intro hempty
    have hlength := congrArg String.length hempty
    simp [recordToConfig, appRecord, PROD_APPS_DIR] at hlength
  have hall : mode ≠ "all" := by
    rintro rfl
    simp at hmode
  constructor
  · exact portsLookedUp_iff (fun _ => rfl) hadded hserver hkeeps hmode
      (keysRead_handleStopApp hnames hconfig hprod hall)
  · exact portsLookedUp_iff (fun _ => rfl) hadded hserver hkeeps hmode
      (keysRead_handleRestartApp hnames hconfig hprod)

end

def notesRequest (mode : String) : Json :=
  .object [("app", .string "notes"), ("mode", .string mode)]

def notesUrl : String := "git@host:me/notes.git"

/-- Adding `notes`, where every directory and file exists already. -/
def addedNotes : Except Exn CmdResult × Registry id :=
  handleAddExtraApp ⟨fun _ => 0, fun _ => ""⟩ (.object [("repoUrl", .string notesUrl)]) setByHand

def withNotes : Registry id := addedNotes.2

/-- In dev mode the server's port is looked up under a key nobody wrote. -/
theorem notes_dev_notLookedUp :
    addedNotes.1.toOption.any (fun result => result.status = 0) = true ∧
      (getApp withNotes "notes").any (fun record => record.has_server_component) = true ∧
      ¬ PortsLookedUp withNotes "notes" (handleStopApp (notesRequest "dev") withNotes) ∧
      ¬ PortsLookedUp withNotes "notes"
        (handleRestartApp ⟨true, true⟩ (notesRequest "dev") withNotes) ∧
      getSetting withNotes.system_settings "port_notes-server-dev" = "" := by
  have hstop : keysRead (handleStopApp (notesRequest "dev") withNotes) =
      ["port_notes-dev", "port_notes-server-dev"] := by decide +kernel
  have hrestart : keysRead (handleRestartApp ⟨true, true⟩ (notesRequest "dev") withNotes) =
      ["port_notes-dev", "port_notes-server-dev"] := by decide +kernel
  have hunwritten : "port_notes-server-dev" ∉ writtenPortKeys "notes" true := by decide +kernel
  refine ⟨by decide +kernel, by decide +kernel, ?_, ?_, by decide +kernel⟩
  · rintro ⟨-, hwritten⟩
    rw [hstop] at hwritten
    exact hunwritten (hwritten _ (List.mem_cons_of_mem _ List.mem_cons_self)).1
  · rintro ⟨-, hwritten⟩
    rw [hrestart] at hwritten
    exact hunwritten (hwritten _ (List.mem_cons_of_mem _ List.mem_cons_self)).1

theorem addedNotes_eq : ∃ text, addedNotes = (.ok ⟨0, text⟩, withNotes) :=
  exists_text_of_status (by decide +kernel)

theorem notes_prod_lookedUp :
    PortsLookedUp withNotes "notes" (handleStopApp (notesRequest "prod") withNotes) ∧
      PortsLookedUp withNotes "notes"
        (handleRestartApp ⟨true, true⟩ (notesRequest "prod") withNotes) := by
  have hname : extractAppNameFromUrl notesUrl = "notes" := by decide +kernel
  obtain ⟨text, hadd⟩ := addedNotes_eq
  obtain ⟨record, hrecord⟩ : ∃ record, getApp withNotes "notes" = some record :=
    Option.isSome_iff_exists.mp (by decide +kernel)
  have hserver : record.has_server_component = true := by
    have hany : (getApp withNotes "notes").any (fun record => record.has_server_component) =
        true := by decide +kernel
    rw [hrecord] at hany
    exact hany
  have hkeeps : Keeps withNotes withNotes "notes" := ⟨rfl, fun _ _ => rfl⟩
  have hnames : Names (notesRequest "prod") "notes" "prod" := ⟨rfl, rfl⟩
  have hurl : (Json.object [("repoUrl", .string notesUrl)]).find? "repoUrl" =
      some (.string notesUrl) := rfl
  rw [← hname] at hrecord hkeeps hnames
  rw [addedNotes] at hadd
  obtain ⟨hstop, hrestart⟩ :=
    addedApp_portsLookedUp_iff hurl hadd hrecord hserver hkeeps hnames (Or.inl rfl)
  rw [hname] at hstop hrestart
  exact ⟨hstop.mpr rfl, hrestart.mpr rfl⟩

end ExtraApps

end AutomateLinux
