import AutomateLinux.AppShutdown
import AutomateLinux.ExtraAppFailures

/-!
# Port settings that end a request in between

`setPort` stores what it is given, `addExtraApp` numbers.  A registered app can be
stopped and restarted as long as every setting it looks up in one of its modes is
empty or a number.  A text that is none can be there before the app is: an added
app also looks up keys that its addition does not write.
-/

namespace AutomateLinux

namespace ExtraApps

open TransitionSystem CollatedTable

/-- A number is written as an integer, anything else has to be a text. -/
def portValue (value : Json) : Except Exn String :=
  if value.is_number then (value.getInt 64).map to_string else value.getString

section

variable {weight : String → String} {settings : CollatedTable weight String}
  {s : Registry weight}

/-- `setPort` with the members `key` and `value`; `forwarded` is the leader's answer
to a worker. -/
def handleSetPort (forwarded : Option CmdResult) (key value : Json) (s : Registry weight) :
    Except Exn CmdResult × Registry weight :=
  match forwarded with
  | some result => (.ok result, s)
  | none =>
      match key.getString with
      | .error e => (.error e, s)
      | .ok key =>
          match portValue value with
          | .error e => (.error e, s)
          | .ok value =>
              (.ok ⟨0, "Port set for " ++ key ++ " to " ++ value ++ "\n"⟩,
                { s with
                  system_settings := s.system_settings.upsert ("port_" ++ key) value })

/-- The requests that write port settings. -/
inductive PortRequest
  | setPort (forwarded : Option CmdResult) (key value : Json)
  | addExtraApp (command : Json) (shell : Shell)

def portStep (s : Registry weight) : PortRequest → Option (Registry weight)
  | .setPort forwarded key value => some (handleSetPort forwarded key value s).2
  | .addExtraApp command shell => some (handleAddExtraApp shell command s).2

def initialRegistry : Registry weight := ⟨CollatedTable.empty, CollatedTable.empty⟩

/-! ## Which settings matter -/

/-- A registered app looks the setting up in one of its modes. -/
def LookedUp (s : Registry weight) (key : String) : Prop :=
  ∃ appId mode config, Offers s appId mode config ∧ HasService config ∧
    ∃ looked ∈ portKeys config mode, weight looked = weight key

/-- What an added app looks up in a mode. -/
def addedPortKeys (appId : String) (hasServer : Bool) (mode : String) : List String :=
  ("port_" ++ appId ++ "-" ++ mode) ::
    if hasServer then ["port_" ++ (appId ++ "-server") ++ if mode = "dev" then "-dev" else ""]
    else []

/-- `setPort` stores a number or nothing, or under a key that no registered app looks
up; and what an app that is added looks up beside the ports allocated for it can be
read. -/
def KeepsReadable (s : Registry weight) : PortRequest → Prop
  | .setPort forwarded key value =>
      ∀ name text, forwarded = none → key.getString = .ok name → portValue value = .ok text →
        ReadablePort text ∨ ¬ LookedUp s ("port_" ++ name)
  | .addExtraApp command shell =>
      ∀ repoUrl app ports, Allocates shell command s repoUrl app ports →
        DisplayNameReadable command → ∀ mode,
          ∀ key ∈ addedPortKeys (extractAppNameFromUrl repoUrl) app.hasServer mode,
            (∃ written ∈ writtenPortKeys (extractAppNameFromUrl repoUrl) app.hasServer,
              weight key = weight written) ∨
            ReadablePort (getSetting s.system_settings key)

theorem getSetting_upsert (settings : CollatedTable weight String) (key other value : String) :
    getSetting (settings.upsert key value) other =
      if weight other = weight key then value else getSetting settings other := by
  unfold getSetting
  rw [get?_upsert]
  split <;> rfl

theorem portsReadable_initial : PortsReadable (initialRegistry : Registry weight) :=
  fun _ _ _ _ _ _ _ => Or.inl rfl

theorem Offers.congr {s' : Registry weight} {appId mode : String} {config : AppConfig}
    (hoffers : Offers s appId mode config) (hsame : s'.extra_apps = s.extra_apps) :
    Offers s' appId mode config := by
  refine ⟨?_, hoffers.available⟩
  rw [← hoffers.registered]
  unfold getAppConfig getApp
  rw [hsame]

/-! ## Setting a port -/

theorem portsReadable_upsert_iff {key value : String} (hreadable : PortsReadable s) :
    PortsReadable { s with system_settings := s.system_settings.upsert key value } ↔
      ReadablePort value ∨ ¬ LookedUp s key := by
  constructor
  · intro hafter
    rw [or_iff_not_imp_right, not_not]
    rintro ⟨appId, mode, config, hoffers, hservice, looked, hlooked, hweight⟩
    have hat := hafter appId mode config (hoffers.congr rfl) hservice looked hlooked
    dsimp only at hat
    rwa [getSetting_upsert, if_pos hweight] at hat
  · intro hkeeps appId mode config hoffers hservice looked hlooked
    have hbefore : Offers s appId mode config := hoffers.congr rfl
    dsimp only
    rw [getSetting_upsert]
    split
    · rename_i hweight
      refine hkeeps.resolve_right fun hnot => hnot ?_
      exact ⟨appId, mode, config, hbefore, hservice, looked, hlooked, hweight⟩
    · exact hreadable appId mode config hbefore hservice looked hlooked

theorem portsReadable_setPort_iff {forwarded : Option CmdResult} {key value : Json}
    (hreadable : PortsReadable s) :
    PortsReadable (handleSetPort forwarded key value s).2 ↔
      KeepsReadable s (.setPort forwarded key value) := by
  unfold handleSetPort KeepsReadable
  dsimp only
  cases forwarded with
  | some result => exact iff_of_true hreadable fun _ _ h => nomatch h
  | none =>
      cases hname : key.getString with
      | error e => exact iff_of_true hreadable fun _ _ _ h => nomatch h
      | ok name =>
          dsimp only
          cases htext : portValue value with
          | error e => exact iff_of_true hreadable fun _ _ _ _ h => nomatch h
          | ok text =>
              dsimp only
              rw [portsReadable_upsert_iff hreadable]
              constructor
              · rintro hkeeps _ _ _ ⟨⟩ ⟨⟩
                exact hkeeps
              · intro hkeeps
                exact hkeeps name text rfl rfl rfl

/-! ## Adding an app -/

theorem portKeys_addedConfig {appId displayName repoUrl devPath prodPath mode : String}
    {app : AppStructure} :
    portKeys (recordToConfig (appRecord appId displayName repoUrl devPath prodPath app)) mode =
      addedPortKeys appId app.hasServer mode := by
  have hportKey : appId ++ "-server" ≠ "" := by
    intro hempty
    have hlength := congrArg String.length hempty
    simp at hlength
  unfold portKeys addedPortKeys clientPortKey serverPortKey recordToConfig appRecord
  cases app.hasServer with
  | false => simp
  | true => simp [hportKey]

theorem readablePort_to_string {port : Int} (hport : Writable settings port) :
    ReadablePort (to_string port) := by
  obtain ⟨n, rfl, hn⟩ := hport.eq_natCast
  exact Or.inr ⟨n, stoi_to_string hn⟩

/-- Every port that is saved can be read. -/
theorem readablePort_of_mem_savedPorts {hasServer : Bool} {ports : Ports} {appId : String}
    (hports : Allocated settings hasServer ports) :
    ∀ row ∈ savedPorts appId hasServer ports, ReadablePort row.2 := by
  have hprod := readablePort_to_string hports.prod
  have hdev := readablePort_to_string hports.dev
  cases hasServer with
  | false => simp [savedPorts, writtenPortKeys, hprod, hdev]
  | true =>
      have hserver := readablePort_to_string (hports.server rfl)
      simp [savedPorts, writtenPortKeys, hprod, hdev, hserver]

theorem getSetting_foldl_of_ne {saved : List (String × String)} {key : String}
    (hne : ∀ row ∈ saved, weight key ≠ weight row.1) :
    getSetting (saved.foldl (fun settings row => settings.upsert row.1 row.2) settings) key =
      getSetting settings key := by
  induction saved generalizing settings with
  | nil => rfl
  | cons first saved ih =>
      rw [List.forall_mem_cons] at hne
      rw [List.foldl_cons, ih hne.2, getSetting_upsert, if_neg hne.1]

theorem readablePort_foldl {saved : List (String × String)} {key : String}
    (hsaved : ∀ row ∈ saved, ReadablePort row.2)
    (hkey : (∃ row ∈ saved, weight key = weight row.1) ∨
      ReadablePort (getSetting settings key)) :
    ReadablePort
      (getSetting (saved.foldl (fun settings row => settings.upsert row.1 row.2) settings) key) := by
  induction saved generalizing settings with
  | nil => exact hkey.resolve_left (by simp)
  | cons first saved ih =>
      rw [List.forall_mem_cons] at hsaved
      rw [List.foldl_cons]
      apply ih hsaved.2
      rw [getSetting_upsert]
      split
      · exact Or.inr hsaved.1
      · rename_i hne
        rcases hkey with ⟨row, hrow, hweight⟩ | hread
        · rcases List.mem_cons.mp hrow with rfl | hrow
          · exact absurd hweight hne
          · exact Or.inl ⟨row, hrow, hweight⟩
        · exact Or.inr hread

/-- After ports have been saved, a setting can be read if it is one of them or could be
read before, and only then. -/
theorem readablePort_savePorts_iff {hasServer : Bool} {ports : Ports} {appId key : String}
    (hports : Allocated settings hasServer ports) :
    ReadablePort (getSetting (savePorts settings appId hasServer ports) key) ↔
      (∃ written ∈ writtenPortKeys appId hasServer, weight key = weight written) ∨
        ReadablePort (getSetting settings key) := by
  have hkeys : (∃ written ∈ writtenPortKeys appId hasServer, weight key = weight written) ↔
      ∃ row ∈ savedPorts appId hasServer ports, weight key = weight row.1 := by
    rw [← map_fst_savedPorts appId hasServer ports]
    simp
  rw [savePorts_eq, hkeys]
  constructor
  · intro hafter
    rw [or_iff_not_imp_left]
    intro hnone
    push Not at hnone
    rwa [getSetting_foldl_of_ne hnone] at hafter
  · exact readablePort_foldl (readablePort_of_mem_savedPorts hports)

theorem PortsReadable.withPorts {appId : String} {app : AppStructure} {ports : Ports}
    (hreadable : PortsReadable s) (hports : Allocated s.system_settings app.hasServer ports) :
    PortsReadable (withPorts s appId app ports) := by
  intro other mode config hoffers hservice key hkey
  have hbefore : Offers s other mode config := hoffers.congr rfl
  exact (readablePort_savePorts_iff hports).mpr
    (Or.inr (hreadable other mode config hbefore hservice key hkey))

/-- An app that has been added is offered beside those that were there. -/
theorem getAppConfig_upsert_cases {appId other : String} {record : ExtraAppRecord}
    {config : AppConfig} {later : CollatedTable weight String}
    (hunknown : s.extra_apps.contains appId = false) (hid : record.app_id = appId)
    (hconfig : getAppConfig
      { system_settings := later, extra_apps := s.extra_apps.upsert appId record } other =
        some config) :
    getAppConfig s other = some config ∨ config = recordToConfig record := by
  unfold getAppConfig at hconfig ⊢
  split at hconfig
  · exact Or.inl hconfig
  · rcases row?_upsert_cases hunknown record other with hsame | hnew
    · left
      unfold getApp at hconfig ⊢
      rwa [hsame] at hconfig
    · right
      unfold getApp at hconfig
      rw [hnew, Option.map_some] at hconfig
      dsimp only at hconfig
      rw [← hid] at hconfig
      split at hconfig
      · simp at hconfig
      · exact (Option.some.inj hconfig).symm

theorem Allocates.unique {shell : Shell} {command : Json} {repoUrl repoUrl' : String}
    {app app' : AppStructure} {ports ports' : Ports}
    (hallocates : Allocates shell command s repoUrl app ports)
    (hallocates' : Allocates shell command s repoUrl' app' ports') :
    repoUrl = repoUrl' ∧ app = app' := by
  obtain rfl : repoUrl = repoUrl' := by simpa [hallocates.url] using hallocates'.url
  exact ⟨rfl, Except.ok.inj (hallocates.detected.symm.trans hallocates'.detected)⟩

theorem portsReadable_added_iff {added : Registry weight} {appId displayName repoUrl : String}
    {app : AppStructure} {ports : Ports} {record : ExtraAppRecord}
    (hrecord : record =
      appRecord appId displayName repoUrl (DEV_APPS_DIR ++ appId) (PROD_APPS_DIR ++ appId) app)
    (hadded : Added s added appId record) (hports : Allocated s.system_settings app.hasServer ports)
    (hsettings : added.system_settings = savePorts s.system_settings appId app.hasServer ports)
    (hreadable : PortsReadable s) :
    PortsReadable added ↔ ∀ mode, ∀ key ∈ addedPortKeys appId app.hasServer mode,
      (∃ written ∈ writtenPortKeys appId app.hasServer, weight key = weight written) ∨
        ReadablePort (getSetting s.system_settings key) := by
  have hread : ∀ key, ReadablePort (getSetting added.system_settings key) ↔
      (∃ written ∈ writtenPortKeys appId app.hasServer, weight key = weight written) ∨
        ReadablePort (getSetting s.system_settings key) := by
    rw [hsettings]
    exact fun key => readablePort_savePorts_iff hports
  constructor
  · intro hafter mode key hkey
    have hregistered := getAppConfig_of_added hadded ⟨rfl, fun _ _ => rfl⟩
    have hprod : (recordToConfig record).prodPath ≠ "" := by
      rw [hrecord]
      intro hempty
      have hlength := congrArg String.length hempty
      simp [recordToConfig, appRecord, PROD_APPS_DIR] at hlength
    have hservice : HasService (recordToConfig record) := by
      rw [hrecord]
      refine Or.inl fun hempty => ?_
      have hlength := congrArg String.length hempty
      simp [recordToConfig, appRecord] at hlength
    rw [← hread]
    refine hafter appId mode (recordToConfig record) ⟨hregistered, fun h => hprod h.2⟩ hservice
      key ?_
    rwa [hrecord, portKeys_addedConfig]
  · intro hkeeps other mode config hoffers hservice key hkey
    rw [hread]
    have hid : record.app_id = appId := by rw [hrecord]; rfl
    have hconfig := hoffers.registered
    obtain ⟨later, records⟩ := added
    obtain rfl : records = s.extra_apps.upsert appId record := hadded.saved
    rcases getAppConfig_upsert_cases hadded.unknown hid hconfig with hold | rfl
    · exact Or.inr (hreadable other mode config ⟨hold, hoffers.available⟩ hservice key hkey)
    · rw [hrecord, portKeys_addedConfig] at hkey
      exact hkeeps mode key hkey

theorem portsReadable_addExtraApp_iff {command : Json} {shell : Shell}
    (hreadable : PortsReadable s) :
    PortsReadable (handleAddExtraApp shell command s).2 ↔
      KeepsReadable s (.addExtraApp command shell) := by
  unfold KeepsReadable
  rcases failed_or_allocates shell command s with
    ⟨hfailed, hsame⟩ | ⟨repoUrl, app, ports, hallocates⟩
  · rw [hsame]
    exact iff_of_true hreadable fun _ _ _ hallocates hname =>
      absurd hfailed (not_failed_of_readable hallocates hname)
  have hports := allocatePorts_allocated hallocates.allocated
  by_cases hname : DisplayNameReadable command
  · obtain ⟨text, hhandle⟩ := handleAddExtraApp_of_allocates hallocates
    obtain ⟨displayName, hdisplay⟩ := exists_displayName hname (extractAppNameFromUrl repoUrl)
    rw [hdisplay] at hhandle
    dsimp only at hhandle
    rw [hhandle, portsReadable_added_iff rfl
      ⟨hallocates.named, hallocates.notConfigured, hallocates.unknown, rfl,
        ⟨displayName, repoUrl, app, rfl⟩, ports, hallocates.allocated, rfl⟩ hports rfl hreadable]
    constructor
    · intro hkeeps repoUrl' app' ports' hallocates' _
      obtain ⟨rfl, rfl⟩ := hallocates.unique hallocates'
      exact hkeeps
    · exact fun hkeeps => hkeeps repoUrl app ports hallocates hname
  · obtain ⟨e, hhandle⟩ := handleAddExtraApp_unreadable hallocates hname
    rw [hhandle]
    exact iff_of_true (hreadable.withPorts hports) fun _ _ _ _ h => absurd h hname

/-! ## Runs -/

theorem portsReadable_step_iff {after : Registry weight} {request : PortRequest}
    (hreadable : PortsReadable s) (hstep : portStep s request = some after) :
    PortsReadable after ↔ KeepsReadable s request := by
  cases request with
  | setPort forwarded key value =>
      obtain rfl := Option.some.inj hstep
      exact portsReadable_setPort_iff hreadable
  | addExtraApp command shell =>
      obtain rfl := Option.some.inj hstep
      exact portsReadable_addExtraApp_iff hreadable

/-- In every registry along a run stopping and restarting are carried out to the end
exactly if all requests of the run keep the looked-up settings readable. -/
theorem allStates_stopsWhole_iff (requests : List PortRequest) :
    AllStates portStep StopsWhole (initialRegistry : Registry weight) requests ↔
      AllSteps portStep KeepsReadable (initialRegistry : Registry weight) requests :=
  allStates_iff_allSteps (I := PortsReadable) (fun hreadable => stopsWhole_iff.mpr hreadable)
    (fun hreadable hkeeps hstep => (portsReadable_step_iff hreadable hstep).mpr hkeeps)
    (fun hreadable hnot hstep hwhole =>
      hnot ((portsReadable_step_iff hreadable hstep).mp (stopsWhole_iff.mp hwhole)))
    portsReadable_initial requests

end

/-- `setPort --key cad-dev --value off`. -/
def setPortOff : PortRequest := .setPort none (.string "cad-dev") (.string "off")

def restartCad : Json := .object [("app", .string "cad"), ("mode", .string "dev")]

/-- The client of `cad` has been stopped when its port turns out to be no number, and
is not started again. -/
theorem portOff_cutsRestartShort :
    ¬ ∀ requests, AllStates portStep StopsWhole (initialRegistry : Registry id) requests := by
  intro hall
  have hwhole : StopsWhole (handleSetPort none (.string "cad-dev") (.string "off")
      (initialRegistry : Registry id)).2 := (hall [setPortOff]).2 _ rfl
  obtain ⟨result, hresult⟩ := hwhole.restart ⟨true, true⟩ restartCad
    ⟨"cad-dev", by decide +kernel⟩
  have hnone : (handleRestartApp ⟨true, true⟩ restartCad (handleSetPort none
      (.string "cad-dev") (.string "off") (initialRegistry : Registry id)).2).1.toOption.isNone =
        true := by decide +kernel
  rw [hresult] at hnone
  cases hnone

end ExtraApps

end AutomateLinux
