import AutomateLinux.ServiceInstallers

/-!
# When the two installers agree

Both installers go over the same services: the client's and the server's, each in the
modes the app has.  They give a service the same name as long as no placeholder is
filled in twice, and of the services with one name the last one's unit file stays.
-/

namespace AutomateLinux

namespace ExtraApps

open CollatedTable TextOperations

/-! ## The same units -/

/-- The file that is left under a name. -/
def unitNamed (units : List (String × AppUnit)) (svcName : String) : Option AppUnit :=
  units.reverse.lookup svcName

def AppUnit.essentials (u : AppUnit) : String × String × Option ℕ := (u.mode, u.workDir, u.port)

structure SameUnits (here there : List (String × AppUnit)) : Prop where
  names : here.map Prod.fst = there.map Prod.fst
  units : ∀ svcName, (unitNamed here svcName).map AppUnit.essentials =
    (unitNamed there svcName).map AppUnit.essentials

section

variable {weight : String → String} (settings : CollatedTable weight String)
  (config : AppConfig) (appId : String)

/-- The daemon's units are those the manager makes of the daemon's request. -/
def InstallersAgree : Prop :=
  ∃ request, handleInstallAppOnPeer settings config appId = .ok request ∧
    SameUnits (handleInstallAppServices settings config appId) (install_service_files request)

/-- A setting read under a port key is empty or a number that fits an `int`. -/
def PortsNumeric : Prop :=
  ∀ key, isPortKey key = true → getSetting settings key = "" ∨
    IsDecimal (getSetting settings key) ∧
      (decimalValue (getSetting settings key) : Int) ≤ INT_MAX

/-! ## The services of an app -/

structure Service where
  component : Component
  mode : String
  template : String
deriving DecidableEq

def Service.svcName (s : Service) : String := resolveServiceName s.template appId s.mode

def servicesOf (component : Component) (template : String) : List Service :=
  ⟨component, "dev", template⟩ ::
    if config.prodPath ≠ "" then [⟨component, "prod", template⟩] else []

def services : List Service :=
  (if config.clientServiceTemplate ≠ "" then servicesOf config .client config.clientServiceTemplate
  else []) ++
    if hasServerService config then servicesOf config .server config.serverServiceTemplate
    else []

/-- The service whose unit file is left under a name. -/
def lastNamed (svcName : String) : Option Service :=
  (services config).reverse.find? fun s => s.svcName appId = svcName

/-! ## What they agree on -/

/-- Filling the first placeholder of a kind in leaves none of the kind. -/
def SubstitutesOnce (template : String) : Prop :=
  (occurrences "\x7bapp\x7d".toList template.toList ≤ 1 ∨ appId = "\x7bapp\x7d") ∧
    occurrences "\x7bmode\x7d".toList
      (replaceFirst "\x7bapp\x7d".toList appId.toList template.toList) ≤ 1

/-- The name contains `-dev` in dev mode and only then. -/
def TellsMode (s : Service) : Prop := occursIn "-dev" (s.svcName appId) = decide (s.mode = "dev")

def portSetting (key : String) : Option ℕ :=
  if getSetting settings key = "" then none else some (decimalValue (getSetting settings key))

/-- The keys under which ports are sent, each with the value of its setting. -/
def sentKeys : List String :=
  [config.portKeyClient ++ "-prod", config.portKeyClient ++ "-dev"] ++
    if config.hasServerComponent ∧ config.portKeyServer ≠ "" then [config.portKeyServer] else []

/-- The port the manager finds under a key: the setting's, if the key is sent and the
port is not 0. -/
def portOnPeer (key : String) : Option ℕ :=
  if key ∈ sentKeys config then (portSetting settings ("port_" ++ key)).filter (· ≠ 0) else none

def SamePort (s : Service) : Prop :=
  portSetting settings (clientPortKey config s.mode) =
    portOnPeer settings config (port_key appId s.component s.mode)

/-- No placeholder is filled in twice, and the last service of each name has its mode
told by the name and its port under both keys. -/
structure Alike : Prop where
  once : ∀ s ∈ services config, SubstitutesOnce appId s.template
  last : ∀ svcName s, lastNamed config appId svcName = some s →
    TellsMode appId s ∧ SamePort settings config appId s

end

/-! ## Names -/

section

variable {weight : String → String} {settings : CollatedTable weight String}
  {config : AppConfig} {appId template mode : String}

theorem telling_dev :
    Telling "\x7bapp\x7d".toList "\x7bmode\x7d".toList "dev".toList := by
  constructor
  · exact ⟨'v', by decide⟩
  · exact ⟨'m', by decide⟩
  · exact ⟨'\x7b', 'd', "mode\x7d".toList, "ev".toList, by decide⟩

theorem resolveServiceName_eq_of_once (honce : SubstitutesOnce appId template) (mode : String) :
    resolveServiceName template appId mode = resolve_service_name template appId mode := by
  obtain ⟨happ, hmode⟩ := honce
  have happ' : occurrences "\x7bapp\x7d".toList template.toList ≤ 1 ∨
      appId.toList = "\x7bapp\x7d".toList := happ.imp_right (congrArg String.toList)
  unfold resolveServiceName resolve_service_name
  dsimp only
  rw [← replaceFirst_eq_replaceAll_of_once (by decide) happ',
    replaceFirst_eq_replaceAll (by decide) hmode]

theorem resolveServiceName_dev_eq_iff :
    resolveServiceName template appId "dev" = resolve_service_name template appId "dev" ↔
      SubstitutesOnce appId template := by
  unfold resolveServiceName resolve_service_name SubstitutesOnce
  dsimp only
  rw [String.ofList_inj, replaceFirst_twice_eq_iff (by decide) (by decide) telling_dev,
    String.toList_inj]

theorem servicesOf_dev_mem {component : Component} {s : Service}
    (hs : s ∈ servicesOf config component template) :
    s.template = template ∧ s.component = component ∧ (s.mode = "dev" ∨ s.mode = "prod") := by
  unfold servicesOf at hs
  rcases List.mem_cons.mp hs with rfl | hs
  · exact ⟨rfl, rfl, Or.inl rfl⟩
  · split at hs
    · obtain rfl := List.mem_singleton.mp hs
      exact ⟨rfl, rfl, Or.inr rfl⟩
    · exact absurd hs List.not_mem_nil

theorem mem_services {s : Service} (hs : s ∈ services config) :
    (s.mode = "dev" ∨ s.mode = "prod") ∧
      ⟨s.component, "dev", s.template⟩ ∈ services config := by
  unfold services at hs ⊢
  rcases List.mem_append.mp hs with hs | hs
  all_goals
    split at hs
    · rename_i hused
      obtain ⟨htemplate, hcomponent, hmode⟩ := servicesOf_dev_mem hs
      refine ⟨hmode, List.mem_append.mpr ?_⟩
      rw [htemplate, hcomponent]
      first
      | exact Or.inl (by rw [if_pos hused]; exact List.mem_cons_self)
      | exact Or.inr (by rw [if_pos hused]; exact List.mem_cons_self)
    · exact absurd hs List.not_mem_nil

theorem serviceNames_eq (config : AppConfig) (appId : String) :
    serviceNames config appId = (services config).map (Service.svcName appId) := by
  unfold serviceNames services servicesOf
  rw [List.map_append]
  split_ifs <;> rfl

/-! ## Ports -/

/-- The table holds the numbers of the settings of these keys. -/
def Holds (settings : CollatedTable weight String) (keys : List String) (ports : PortTable) :
    Prop :=
  ∀ key, ports key =
    if key ∈ keys then (portSetting settings ("port_" ++ key)).map Int.ofNat else none

theorem Holds.addPort {keys : List String} {ports : PortTable} (hports : Holds settings keys ports)
    (hnumeric : PortsNumeric settings) (key : String) :
    ∃ ports', addPort key (getSetting settings ("port_" ++ key)) ports = .ok ports' ∧
      Holds settings (keys ++ [key]) ports' := by
  have hkey : isPortKey ("port_" ++ key) = true := by
    rw [isPortKey, String.toList_append, List.isPrefixOf_iff_prefix]
    exact List.prefix_append _ _
  unfold ExtraApps.addPort
  by_cases hempty : getSetting settings ("port_" ++ key) = ""
  · have hnone : portSetting settings ("port_" ++ key) = none := if_pos hempty
    rw [if_pos hempty]
    refine ⟨ports, rfl, fun other => ?_⟩
    rw [hports other]
    by_cases hother : other = key
    · subst hother
      simp [hnone]
    · simp [hother]
  · obtain ⟨hdecimal, hbound⟩ := (hnumeric _ hkey).resolve_left hempty
    have hsome : portSetting settings ("port_" ++ key) =
        some (decimalValue (getSetting settings ("port_" ++ key))) := if_neg hempty
    rw [if_neg hempty, stoi_of_isDecimal hdecimal hbound]
    refine ⟨_, rfl, fun other => ?_⟩
    dsimp only
    by_cases hother : other = key
    · subst hother
      simp [hsome]
    · rw [Function.update_of_ne hother, hports other]
      simp [hother]

theorem clientPortKey_eq (config : AppConfig) (mode : String) :
    clientPortKey config mode = "port_" ++ (config.portKeyClient ++ ("-" ++ mode)) := by
  simp [clientPortKey, String.append_assoc]

theorem getAppPorts_holds (hnumeric : PortsNumeric settings) (config : AppConfig) :
    ∃ ports, getAppPorts settings config = .ok ports ∧
      Holds settings (sentKeys config) ports := by
  have hempty : Holds settings [] fun _ => none := fun _ => rfl
  obtain ⟨prod, hprod, hprodHolds⟩ :=
    hempty.addPort hnumeric (config.portKeyClient ++ "-prod")
  obtain ⟨dev, hdev, hdevHolds⟩ :=
    hprodHolds.addPort hnumeric (config.portKeyClient ++ "-dev")
  have hprodKey : clientPortKey config "prod" = "port_" ++ (config.portKeyClient ++ "-prod") :=
    clientPortKey_eq config "prod"
  have hdevKey : clientPortKey config "dev" = "port_" ++ (config.portKeyClient ++ "-dev") :=
    clientPortKey_eq config "dev"
  unfold getAppPorts sentKeys
  simp only [hprodKey, hdevKey, hprod, hdev, bind, Except.bind]
  by_cases hserver : config.hasServerComponent = true ∧ config.portKeyServer ≠ ""
  · rw [if_pos hserver, if_pos hserver]
    exact hdevHolds.addPort hnumeric config.portKeyServer
  · rw [if_neg hserver, if_neg hserver]
    exact ⟨dev, rfl, hdevHolds⟩

theorem to_string_ne_empty (n : ℕ) : to_string (n : Int) ≠ "" := by
  intro hempty
  exact (isDecimal_to_string n).1 (by rw [hempty]; rfl)

theorem port_of_port_text (mode workDir : String) (port : Option ℕ) :
    AppUnit.port ⟨mode, workDir, port_text (port.map Int.ofNat)⟩ = port.filter (· ≠ 0) := by
  cases port with
  | none => rfl
  | some n =>
      by_cases hzero : n = 0
      · subst hzero
        rfl
      · have htext : port_text (some (Int.ofNat n)) = to_string (n : Int) :=
          if_neg (by simpa using hzero)
        rw [Option.map_some, htext, AppUnit.port, if_neg (to_string_ne_empty n),
          decimalValue_to_string]
        simp [Option.filter, hzero]

/-! ## Units -/

def requestWith (config : AppConfig) (appId : String) (ports : PortTable) : InstallRequest where
  app_id := appId
  has_server := config.hasServerComponent
  client_subdir := config.clientSubdir
  client_service_template := config.clientServiceTemplate
  server_service_template := config.serverServiceTemplate
  dev_path := config.devPath
  prod_path := config.prodPath
  ports := ports

theorem handleInstallAppOnPeer_holds (hnumeric : PortsNumeric settings) (config : AppConfig)
    (appId : String) :
    ∃ ports, handleInstallAppOnPeer settings config appId = .ok (requestWith config appId ports) ∧
      Holds settings (sentKeys config) ports := by
  obtain ⟨ports, hports, hholds⟩ := getAppPorts_holds hnumeric config
  refine ⟨ports, ?_, hholds⟩
  simp only [handleInstallAppOnPeer, hports, bind, Except.bind]
  rfl

theorem install_service_files_eq (config : AppConfig) (appId : String) (ports : PortTable) :
    install_service_files (requestWith config appId ports) =
      (services config).map fun s =>
        (resolve_service_name s.template appId s.mode,
          generated_unit (requestWith config appId ports) s.component s.mode) := by
  have hnames : service_names (requestWith config appId ports) =
      (services config).map fun s =>
        (s.component, s.mode, resolve_service_name s.template appId s.mode) := by
    by_cases hprod : config.prodPath = "" <;>
      by_cases hclient : config.clientServiceTemplate = "" <;>
        by_cases hserver : config.serverServiceTemplate = "" <;>
          cases hcomponent : config.hasServerComponent
    all_goals
      simp [service_names, services, servicesOf, hasServerService, requestWith, hprod, hclient,
        hserver, hcomponent]
  rw [install_service_files, hnames, List.map_map]
  rfl

theorem unitNamed_map {α : Type*} (list : List α) (name : α → String) (unit : α → AppUnit)
    (svcName : String) :
    unitNamed (list.map fun s => (name s, unit s)) svcName =
      (list.reverse.find? fun s => name s = svcName).map unit := by
  unfold unitNamed
  rw [← List.map_reverse]
  induction list.reverse with
  | nil => rfl
  | cons s rest ih =>
      rw [List.map_cons, List.lookup_cons, List.find?_cons]
      by_cases hname : name s = svcName
      · simp [hname]
      · have hne : (svcName == name s) = false := by simpa using fun h => hname h.symm
        simp [hname, hne, ih]

/-- The units for one service say the same exactly if its mode is told and its port is
the same. -/
theorem essentials_eq_iff (appId : String) {ports : PortTable}
    (hholds : Holds settings (sentKeys config) ports) {s : Service}
    (hmode : s.mode = "dev" ∨ s.mode = "prod") :
    (generatedUnit settings config (s.svcName appId)).essentials =
        (generated_unit (requestWith config appId ports) s.component s.mode).essentials ↔
      TellsMode appId s ∧ SamePort settings config appId s := by
  have hport : (generated_unit (requestWith config appId ports) s.component s.mode).port =
      portOnPeer settings config (port_key appId s.component s.mode) := by
    have htable := hholds (port_key appId s.component s.mode)
    unfold generated_unit portOnPeer
    dsimp only [requestWith]
    rw [htable]
    by_cases hsent : port_key appId s.component s.mode ∈ sentKeys config
    · rw [if_pos hsent, if_pos hsent]
      exact port_of_port_text _ _ _
    · rw [if_neg hsent, if_neg hsent]
      exact port_of_port_text _ _ none
  unfold AppUnit.essentials
  rw [hport, Prod.mk.injEq, Prod.mk.injEq]
  unfold TellsMode SamePort
  constructor
  · rintro ⟨hsameMode, -, hsamePort⟩
    have htold : occursIn "-dev" (s.svcName appId) = decide (s.mode = "dev") := by
      rcases hmode with hmode | hmode <;>
        cases hoccurs : occursIn "-dev" (s.svcName appId) <;>
          simp_all [generatedUnit, generated_unit]
    refine ⟨htold, ?_⟩
    rw [← hsamePort]
    rcases hmode with hmode | hmode <;>
      simp [generatedUnit, htold, hmode, AppUnit.port, portSetting]
  · rintro ⟨htold, hsamePort⟩
    rw [← hsamePort]
    rcases hmode with hmode | hmode <;>
      simp [generatedUnit, generated_unit, requestWith, htold, hmode, AppUnit.port, portSetting]

/-! ## Agreement -/

theorem names_eq_iff (settings : CollatedTable weight String) (config : AppConfig)
    (appId : String) (ports : PortTable) :
    (handleInstallAppServices settings config appId).map Prod.fst =
        (install_service_files (requestWith config appId ports)).map Prod.fst ↔
      ∀ s ∈ services config, SubstitutesOnce appId s.template := by
  unfold handleInstallAppServices
  rw [install_service_files_eq, serviceNames_eq, List.map_map, List.map_map, List.map_map,
    List.map_inj_left]
  constructor
  · intro heq s hs
    exact resolveServiceName_dev_eq_iff.mp (heq _ (mem_services hs).2)
  · intro honce s hs
    exact resolveServiceName_eq_of_once (honce s hs) s.mode

theorem units_eq_iff {ports : PortTable} (hholds : Holds settings (sentKeys config) ports)
    (honce : ∀ s ∈ services config, SubstitutesOnce appId s.template) :
    (∀ svcName, (unitNamed (handleInstallAppServices settings config appId) svcName).map
          AppUnit.essentials =
        (unitNamed (install_service_files (requestWith config appId ports)) svcName).map
          AppUnit.essentials) ↔
      ∀ svcName s, lastNamed config appId svcName = some s →
        TellsMode appId s ∧ SamePort settings config appId s := by
  have hhere : handleInstallAppServices settings config appId =
      (services config).map fun s =>
        (s.svcName appId, generatedUnit settings config (s.svcName appId)) := by
    rw [handleInstallAppServices, serviceNames_eq, List.map_map]
    rfl
  have hthere : install_service_files (requestWith config appId ports) =
      (services config).map fun s =>
        (s.svcName appId, generated_unit (requestWith config appId ports) s.component s.mode) := by
    rw [install_service_files_eq]
    refine List.map_congr_left fun s hs => ?_
    rw [Service.svcName, resolveServiceName_eq_of_once (honce s hs) s.mode]
  rw [hhere, hthere]
  refine forall_congr' fun svcName => ?_
  rw [unitNamed_map, unitNamed_map, ← lastNamed]
  cases hlast : lastNamed config appId svcName with
  | none => simp
  | some s =>
      have hs : s ∈ services config := List.mem_reverse.mp (List.mem_of_find?_eq_some hlast)
      have hessentials := essentials_eq_iff appId hholds (mem_services hs).1
      simpa using hessentials

end

/-- For numeric ports the daemon and the manager generate the same units exactly in
these cases. -/
theorem installersAgree_iff {weight : String → String} (settings : CollatedTable weight String)
    (hnumeric : PortsNumeric settings) (config : AppConfig) (appId : String) :
    InstallersAgree settings config appId ↔ Alike settings config appId := by
  obtain ⟨ports, hrequest, hholds⟩ := handleInstallAppOnPeer_holds hnumeric config appId
  have hnames := names_eq_iff settings config appId ports
  constructor
  · rintro ⟨request, hok, hsame⟩
    obtain rfl := Except.ok.inj (hrequest.symm.trans hok)
    have honce := hnames.mp hsame.names
    exact ⟨honce, (units_eq_iff hholds honce).mp hsame.units⟩
  · rintro ⟨honce, hlast⟩
    exact ⟨_, hrequest, hnames.mpr honce, (units_eq_iff hholds honce).mpr hlast⟩

/-! ## Configured apps -/

theorem portsNumeric_of_rows {weight : String → String} {settings : CollatedTable weight String}
    (hrows : ∀ row ∈ settings.rows, IsDecimal row.2 ∧ (decimalValue row.2 : Int) ≤ INT_MAX) :
    PortsNumeric settings := by
  intro key _
  unfold getSetting CollatedTable.get?
  cases hrow : settings.row? key with
  | none => exact Or.inl rfl
  | some row => exact Or.inr (hrows row (List.mem_of_find?_eq_some hrow))

def cad : AppConfig :=
  ⟨"cad", "CAD Application", true, "", "cad-\x7bmode\x7d", "cad", "",
    "/opt/dev/cad", "/opt/prod/cad", ".", "web"⟩

def cadPorts : CollatedTable (id : String → String) String :=
  ⟨[("port_cad-prod", "3000"), ("port_cad-dev", "3001")], by decide⟩

theorem cad_installersAgree :
    PortsNumeric cadPorts ∧ InstallersAgree cadPorts cad "cad" := by
  have hnumeric : PortsNumeric cadPorts := by
    refine portsNumeric_of_rows fun row hrow => ?_
    have hcases : row = ("port_cad-prod", "3000") ∨ row = ("port_cad-dev", "3001") := by
      simpa [cadPorts] using hrow
    rcases hcases with rfl | rfl
    · exact ⟨⟨by decide, List.all_eq_true.mp (by decide)⟩, by decide⟩
    · exact ⟨⟨by decide, List.all_eq_true.mp (by decide)⟩, by decide⟩
  have hservices : ∀ s ∈ services cad,
      SubstitutesOnce "cad" s.template ∧ TellsMode "cad" s ∧ SamePort cadPorts cad "cad" s := by
    intro s hs
    have hcases : s = ⟨.client, "dev", "cad-\x7bmode\x7d"⟩ ∨
        s = ⟨.client, "prod", "cad-\x7bmode\x7d"⟩ := by
      simpa [services, servicesOf, hasServerService, cad] using hs
    unfold SubstitutesOnce TellsMode SamePort
    rcases hcases with rfl | rfl <;> decide
  refine ⟨hnumeric, (installersAgree_iff cadPorts hnumeric cad "cad").mpr ⟨?_, ?_⟩⟩
  · exact fun s hs => (hservices s hs).1
  · intro svcName s hlast
    exact (hservices s (List.mem_reverse.mp (List.mem_of_find?_eq_some hlast))).2

def dashboard : AppConfig :=
  ⟨"dashboard", "Dashboard", true, "dashboard-bridge", "dashboard-\x7bmode\x7d", "dashboard",
    "dashboard-bridge", "/opt/dev/dashboard", "/opt/prod/dashboard", "", ""⟩

def dashboardPorts : CollatedTable (id : String → String) String :=
  ⟨[("port_dashboard-prod", "3002"), ("port_dashboard-bridge", "3500")], by decide⟩

/-- The daemon gives the bridge the port of the client, the manager none. -/
theorem dashboard_installersDiffer : ¬ InstallersAgree dashboardPorts dashboard "dashboard" := by
  rintro ⟨request, hrequest, hsame⟩
  obtain rfl := Except.ok.inj hrequest
  have hport := congrArg (Option.map fun essentials => essentials.2.2)
    (hsame.units "dashboard-bridge")
  revert hport
  decide

end ExtraApps

end AutomateLinux
