import AutomateLinux.AppPortKeys
import AutomateLinux.ExtraAppRemoval

/-!
# Stopping an app to the end

`stopApp` and `restartApp` stop services and then look the ports up, with `stoi` and
no guard.  A port setting that is no number ends them in between.  `setPort` takes
any text for a port, also under a key that no app has yet.
-/

namespace AutomateLinux

namespace ExtraApps

open TransitionSystem CollatedTable

namespace AppRun

variable {α β : Type} {x : AppRun α} {f : α → AppRun β}

/-- The request does not end with an exception. -/
def Completes (x : AppRun α) : Prop := ∃ a, x.1 = .ok a

/-- A service has been stopped. -/
def Stops (x : AppRun α) : Prop := ∃ serviceName, .stopService serviceName ∈ x.2

/-- A request that has stopped a service is carried out to its end. -/
def NotCutShort (x : AppRun α) : Prop := Stops x → Completes x

theorem completes_pure (a : α) : Completes (pure a : AppRun α) := ⟨a, rfl⟩

theorem completes_perform (effect : AppEffect) : Completes (perform effect) := ⟨(), rfl⟩

theorem completes_bind_iff :
    Completes (x >>= f) ↔ ∃ a, x.1 = .ok a ∧ Completes (f a) := by
  cases hx : x.1 with
  | error e =>
      rw [Completes, bind_error hx]
      simp
  | ok a =>
      rw [Completes, bind_ok hx]
      simp [Completes]

theorem completes_bind_of_forall (hf : ∀ a, Completes (f a)) :
    Completes (x >>= f) ↔ Completes x := by
  rw [completes_bind_iff]
  exact ⟨fun ⟨a, ha, _⟩ => ⟨a, ha⟩, fun ⟨a, ha⟩ => ⟨a, ha, hf a⟩⟩

theorem completes_bind_of_ok {a : α} (hx : x.1 = .ok a) :
    Completes (x >>= f) ↔ Completes (f a) := by
  rw [Completes, bind_ok hx]
  rfl

theorem stops_bind_iff : Stops (x >>= f) ↔ Stops x ∨ ∃ a, x.1 = .ok a ∧ Stops (f a) := by
  cases hx : x.1 with
  | error e =>
      rw [Stops, bind_error hx]
      simp [Stops]
  | ok a =>
      rw [Stops, bind_ok hx]
      simp [Stops, exists_or]

theorem stops_bind_left (hx : Stops x) : Stops (x >>= f) := stops_bind_iff.mpr (Or.inl hx)

theorem stops_bind_of_ok {a : α} (hx : x.1 = .ok a) (hquiet : ¬ Stops x) :
    Stops (x >>= f) ↔ Stops (f a) := by
  rw [stops_bind_iff, hx, or_iff_right hquiet]
  simp

theorem not_stops_pure (a : α) : ¬ Stops (pure a : AppRun α) := by
  rintro ⟨_, hmem⟩
  cases hmem

theorem ofExcept_bind {result : Except Exn α} {a : α} (hresult : result = .ok a)
    (f : α → AppRun β) : AppRun.ofExcept result >>= f = f a := by
  subst hresult
  rfl

theorem not_stops_ofExcept (result : Except Exn α) : ¬ Stops (AppRun.ofExcept result) := by
  rintro ⟨_, hmem⟩
  cases hmem

end AppRun

open AppRun

section

variable {weight : String → String} {settings : CollatedTable weight String}
  {s : Registry weight} {config : AppConfig} {appId mode : String}

/-! ## The ports of a mode -/

/-- The settings that a request for one mode looks up. -/
def portKeys (config : AppConfig) (mode : String) : List String :=
  clientPortKey config mode ::
    if config.hasServerComponent ∧ config.portKeyServer ≠ "" then [serverPortKey config mode]
    else []

/-- The text is empty, as where there is no setting, or `stoi` reads it. -/
def ReadablePort (text : String) : Prop := text = "" ∨ ∃ port, stoi text = .ok port

/-- The app has a service that is stopped. -/
def HasService (config : AppConfig) : Prop :=
  config.clientServiceTemplate ≠ "" ∨ hasServerService config = true

theorem completes_usePort_iff {key : String} (use : Int → AppEffect) :
    Completes (usePort settings key use) ↔ ReadablePort (getSetting settings key) := by
  unfold usePort ReadablePort
  rw [completes_bind_of_ok rfl]
  dsimp only
  split
  · rename_i hempty
    exact ⟨fun _ => Or.inl hempty, fun _ => completes_pure ()⟩
  · rename_i hne
    rw [completes_bind_of_forall fun port => completes_perform (use port)]
    exact (or_iff_right hne).symm

theorem completes_usePorts_iff (use : Int → AppEffect) :
    Completes (usePorts settings config mode use) ↔
      ∀ key ∈ portKeys config mode, ReadablePort (getSetting settings key) := by
  unfold usePorts portKeys
  rw [List.forall_mem_cons, completes_bind_iff]
  split
  · rw [List.forall_mem_singleton, ← completes_usePort_iff use, ← completes_usePort_iff use]
    exact ⟨fun ⟨a, ha, h⟩ => ⟨⟨a, ha⟩, h⟩, fun ⟨⟨a, ha⟩, h⟩ => ⟨a, ha, h⟩⟩
  · rw [← completes_usePort_iff use]
    constructor
    · rintro ⟨a, ha, -⟩
      exact ⟨⟨a, ha⟩, by simp⟩
    · rintro ⟨⟨a, ha⟩, -⟩
      exact ⟨a, ha, completes_pure ()⟩

theorem not_stops_usePort {key : String} {use : Int → AppEffect}
    (huse : ∀ port serviceName, use port ≠ .stopService serviceName) :
    ¬ Stops (usePort settings key use) := by
  have hperform : ∀ port, ¬ Stops (perform (use port)) := by
    rintro port ⟨serviceName, hmem⟩
    exact huse port serviceName (List.mem_singleton.mp hmem).symm
  have hlookup : ¬ Stops (perform (.getSetting key)) := by
    rintro ⟨serviceName, hmem⟩
    simp [perform] at hmem
  unfold usePort
  rw [stops_bind_iff]
  rintro (h | ⟨-, -, h⟩)
  · exact hlookup h
  · dsimp only at h
    split at h
    · exact not_stops_pure () h
    · rw [stops_bind_iff] at h
      rcases h with h | ⟨port, -, h⟩
      · exact not_stops_ofExcept _ h
      · exact hperform port h

theorem not_stops_usePorts {use : Int → AppEffect}
    (huse : ∀ port serviceName, use port ≠ .stopService serviceName) :
    ¬ Stops (usePorts settings config mode use) := by
  unfold usePorts
  rw [stops_bind_iff]
  rintro (h | ⟨-, -, h⟩)
  · exact not_stops_usePort huse h
  · split at h
    · exact not_stops_usePort huse h
    · exact not_stops_pure () h

/-! ## Stopping -/

variable (appId) in
theorem completes_stopMode_iff :
    Completes (stopMode settings config appId mode) ↔
      ∀ key ∈ portKeys config mode, ReadablePort (getSetting settings key) := by
  rw [← completes_usePorts_iff .killProcessOnPort]
  unfold stopMode
  dsimp only
  split_ifs
  all_goals
    rw [completes_bind_of_ok rfl, completes_bind_of_ok rfl,
      completes_bind_of_forall fun _ => completes_pure _]

theorem stops_stopMode_iff :
    Stops (stopMode settings config appId mode) ↔ HasService config := by
  have hports : ¬ Stops (usePorts settings config mode .killProcessOnPort) :=
    not_stops_usePorts fun _ _ => nofun
  have hrest : ∀ text, ¬ Stops (do
      usePorts settings config mode .killProcessOnPort
      pure text : AppRun String) := by
    intro text
    rw [stops_bind_iff]
    rintro (h | ⟨-, -, h⟩)
    · exact hports h
    · exact not_stops_pure text h
  unfold stopMode HasService
  dsimp only
  split_ifs with hclient hserver hserver
  · refine ⟨fun _ => Or.inl hclient, fun _ => stops_bind_left ⟨_, List.mem_cons_self⟩⟩
  · refine ⟨fun _ => Or.inl hclient, fun _ => stops_bind_left ⟨_, List.mem_cons_self⟩⟩
  · rw [stops_bind_of_ok rfl (not_stops_pure "")]
    refine ⟨fun _ => Or.inr hserver, fun _ => stops_bind_left ⟨_, List.mem_cons_self⟩⟩
  · rw [stops_bind_of_ok rfl (not_stops_pure ""), stops_bind_of_ok rfl (not_stops_pure "")]
    refine ⟨fun h => absurd h (hrest _), ?_⟩
    rintro (h | h)
    · exact absurd h hclient
    · exact absurd h hserver

theorem completes_stopModes_iff (modes : List String) :
    Completes (stopModes settings config appId modes) ↔
      ∀ mode ∈ modes, ∀ key ∈ portKeys config mode, ReadablePort (getSetting settings key) := by
  induction modes with
  | nil => exact ⟨fun _ => by simp, fun _ => completes_pure ""⟩
  | cons mode modes ih =>
      rw [List.forall_mem_cons, ← ih, ← completes_stopMode_iff appId, stopModes,
        completes_bind_iff]
      constructor
      · rintro ⟨first, hfirst, hrest⟩
        rw [completes_bind_of_forall fun _ => completes_pure _] at hrest
        exact ⟨⟨first, hfirst⟩, hrest⟩
      · rintro ⟨⟨first, hfirst⟩, hrest⟩
        refine ⟨first, hfirst, ?_⟩
        rwa [completes_bind_of_forall fun _ => completes_pure _]

theorem hasService_of_stops (modes : List String)
    (hstops : Stops (stopModes settings config appId modes)) : HasService config := by
  induction modes with
  | nil => exact absurd hstops (not_stops_pure "")
  | cons mode modes ih =>
      rw [stopModes, stops_bind_iff] at hstops
      rcases hstops with hfirst | ⟨first, -, hrest⟩
      · exact stops_stopMode_iff.mp hfirst
      · rw [stops_bind_iff] at hrest
        rcases hrest with hrest | ⟨rest, -, hpure⟩
        · exact ih hrest
        · exact absurd hpure (not_stops_pure _)

/-! ## Requests -/

/-- The request is for the app in this mode; `fallback` is the mode it has unless
it gives one. -/
structure Asks (request : Json) (fallback appId mode : String) : Prop where
  app : request.find? "app" = some (.string appId)
  mode : optionalArg request "mode" Json.getString fallback = .ok mode

/-- The app is registered and has the mode. -/
structure Offers (s : Registry weight) (appId mode : String) (config : AppConfig) : Prop where
  registered : getAppConfig s appId = some config
  available : ¬ (mode = "prod" ∧ config.prodPath = "")

def stoppedModes (config : AppConfig) (mode : String) : List String :=
  if mode = "all" then if config.prodPath = "" then ["dev"] else ["prod", "dev"] else [mode]

theorem Offers.of_mem_stoppedModes {mode' : String} (hoffers : Offers s appId mode config)
    (hmode : mode' ∈ stoppedModes config mode) : Offers s appId mode' config := by
  refine ⟨hoffers.registered, ?_⟩
  rintro ⟨rfl, hprod⟩
  unfold stoppedModes at hmode
  rw [if_pos hprod] at hmode
  split at hmode
  · simp at hmode
  · exact hoffers.available ⟨(List.mem_singleton.mp hmode).symm, hprod⟩

theorem handleStopApp_of_asks {request : Json} (hasks : Asks request "all" appId mode)
    (hoffers : Offers s appId mode config) :
    handleStopApp request s =
      stopModes s.system_settings config appId (stoppedModes config mode) >>=
        fun result => pure ⟨0, result⟩ := by
  unfold handleStopApp
  rw [hasks.app]
  dsimp only
  rw [ofExcept_bind (getString_string appId), ofExcept_bind hasks.mode, hoffers.registered]
  dsimp only
  rw [if_neg hoffers.available]
  rfl

/-- The reading of a request, which both handlers begin with. -/
theorem asks_of_stops {request member : Json} {fallback : String} (body : AppConfig → String →
      String → AppRun CmdResult)
    (hmember : request.find? "app" = some member)
    (hstops : Stops (do
      let appId ← AppRun.ofExcept member.getString
      let mode ← AppRun.ofExcept (optionalArg request "mode" Json.getString fallback)
      match getAppConfig s appId with
      | none => pure ⟨1, "Unknown app: " ++ appId ++ "\n"⟩
      | some config =>
          if mode = "prod" ∧ config.prodPath = "" then
            pure ⟨1, appId ++ " is dev-only (no prod mode available)\n"⟩
          else body config appId mode)) :
    ∃ appId mode config, Asks request fallback appId mode ∧ Offers s appId mode config := by
  rw [stops_bind_iff] at hstops
  obtain h | ⟨appId, happId, hstops⟩ := hstops
  · exact absurd h (not_stops_ofExcept _)
  rw [stops_bind_iff] at hstops
  obtain h | ⟨mode, hmode, hstops⟩ := hstops
  · exact absurd h (not_stops_ofExcept _)
  obtain rfl : member = .string appId := by
    cases member <;> simp_all [Json.getString, AppRun.ofExcept]
  split at hstops
  · exact absurd hstops (not_stops_pure _)
  rename_i config hconfig
  split at hstops
  · exact absurd hstops (not_stops_pure _)
  rename_i hoffered
  exact ⟨appId, mode, config, ⟨hmember, hmode⟩, ⟨hconfig, hoffered⟩⟩

theorem asks_of_stops_stopApp {request : Json} (hstops : Stops (handleStopApp request s)) :
    ∃ appId mode config, Asks request "all" appId mode ∧ Offers s appId mode config := by
  unfold handleStopApp at hstops
  split at hstops
  · exact absurd hstops (not_stops_pure _)
  rename_i member hmember
  exact asks_of_stops (fun config appId mode =>
    stopModes s.system_settings config appId (stoppedModes config mode) >>=
      fun result => pure ⟨0, result⟩) hmember hstops

theorem asks_of_stops_restartApp {outcome : RestartOutcome} {request : Json}
    (hstops : Stops (handleRestartApp outcome request s)) :
    ∃ appId mode config, Asks request "dev" appId mode ∧ Offers s appId mode config := by
  unfold handleRestartApp at hstops
  split at hstops
  · exact absurd hstops (not_stops_pure _)
  rename_i member hmember
  exact asks_of_stops _ hmember hstops

theorem completes_restartApp_iff (outcome : RestartOutcome) {request : Json}
    (hasks : Asks request "dev" appId mode) (hoffers : Offers s appId mode config) :
    Completes (handleRestartApp outcome request s) ↔
      ∀ key ∈ portKeys config mode, ReadablePort (getSetting s.system_settings key) := by
  rw [← completes_usePorts_iff .waitForPortRelease]
  unfold handleRestartApp
  rw [hasks.app]
  dsimp only
  rw [ofExcept_bind (getString_string appId), ofExcept_bind hasks.mode, hoffers.registered]
  dsimp only
  rw [if_neg hoffers.available]
  split_ifs
  · rw [completes_bind_of_ok rfl, completes_bind_of_ok rfl,
      completes_bind_of_forall fun _ => ⟨_, rfl⟩]
  · rw [completes_bind_of_ok rfl, completes_bind_of_forall fun _ => ⟨_, rfl⟩]
  · rw [completes_bind_of_ok rfl, completes_bind_of_forall fun _ => ⟨_, rfl⟩]
  · rw [completes_bind_of_forall fun _ => ⟨_, rfl⟩]

theorem stops_restartApp {outcome : RestartOutcome} {request : Json}
    (hasks : Asks request "dev" appId mode) (hoffers : Offers s appId mode config)
    (hservice : HasService config) : Stops (handleRestartApp outcome request s) := by
  unfold handleRestartApp
  rw [hasks.app]
  dsimp only
  rw [ofExcept_bind (getString_string appId), ofExcept_bind hasks.mode, hoffers.registered]
  dsimp only
  rw [if_neg hoffers.available]
  split_ifs with hclient hserver hserver
  · exact stops_bind_left ⟨_, List.mem_cons_self⟩
  · exact stops_bind_left ⟨_, List.mem_cons_self⟩
  · exact stops_bind_left ⟨_, List.mem_cons_self⟩
  · rcases hservice with h | h
    · exact absurd h hclient
    · exact absurd h hserver

theorem hasService_of_stops_restartApp {outcome : RestartOutcome} {request : Json}
    (hasks : Asks request "dev" appId mode) (hoffers : Offers s appId mode config)
    (hstops : Stops (handleRestartApp outcome request s)) : HasService config := by
  have hports : ¬ Stops (usePorts s.system_settings config mode .waitForPortRelease) :=
    not_stops_usePorts fun _ _ => nofun
  unfold handleRestartApp at hstops
  rw [hasks.app] at hstops
  dsimp only at hstops
  rw [ofExcept_bind (getString_string appId), ofExcept_bind hasks.mode,
    hoffers.registered] at hstops
  dsimp only at hstops
  rw [if_neg hoffers.available] at hstops
  split_ifs at hstops with hclient hserver hserver
  · exact Or.inl hclient
  · exact Or.inl hclient
  · exact Or.inr hserver
  · rw [stops_bind_iff] at hstops
    rcases hstops with h | ⟨_, -, h⟩
    · exact absurd h hports
    · exact absurd h (not_stops_pure _)

/-- The port settings of the registered apps can be read, those of the app's modes. -/
def PortsReadable (s : Registry weight) : Prop :=
  ∀ appId mode config, Offers s appId mode config → HasService config →
    ∀ key ∈ portKeys config mode, ReadablePort (getSetting s.system_settings key)

/-- Whatever is asked for, stopping and restarting are not cut short. -/
structure StopsWhole (s : Registry weight) : Prop where
  stop : ∀ request, NotCutShort (handleStopApp request s)
  restart : ∀ outcome request, NotCutShort (handleRestartApp outcome request s)

theorem stopsWhole_iff : StopsWhole s ↔ PortsReadable s := by
  constructor
  · intro hwhole appId mode config hoffers hservice
    have hasks : Asks (.object [("app", .string appId), ("mode", .string mode)]) "dev" appId
        mode := ⟨rfl, rfl⟩
    rw [← completes_restartApp_iff ⟨true, true⟩ hasks hoffers]
    exact hwhole.restart _ _ (stops_restartApp hasks hoffers hservice)
  · intro hreadable
    constructor
    · intro request hstops
      obtain ⟨appId, mode, config, hasks, hoffers⟩ := asks_of_stops_stopApp hstops
      rw [handleStopApp_of_asks hasks hoffers] at hstops ⊢
      rw [stops_bind_iff] at hstops
      rw [completes_bind_of_forall fun _ => completes_pure _, completes_stopModes_iff]
      obtain hstops | ⟨_, -, hpure⟩ := hstops
      · exact fun mode' hmode' => hreadable appId mode' config
          (hoffers.of_mem_stoppedModes hmode') (hasService_of_stops _ hstops)
      · exact absurd hpure (not_stops_pure _)
    · intro outcome request hstops
      obtain ⟨appId, mode, config, hasks, hoffers⟩ := asks_of_stops_restartApp hstops
      rw [completes_restartApp_iff _ hasks hoffers]
      exact hreadable appId mode config hoffers
        (hasService_of_stops_restartApp hasks hoffers hstops)

end

end ExtraApps

end AutomateLinux
