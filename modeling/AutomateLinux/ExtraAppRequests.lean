import AutomateLinux.ExtraApps

/-!
# What an addition can do

A request to add an app fails and leaves the registry as it was, or it gets as far
as allocating ports and saves them.  What remains is the display name: if it
cannot be read, the request ends there, otherwise the app is recorded.
-/

namespace AutomateLinux

namespace ExtraApps

variable {weight : String → String}

/-- The command ends with a status other than zero or with an exception. -/
def Failed (outcome : Except Exn CmdResult) : Prop :=
  ∀ result, outcome = .ok result → result.status ≠ 0

/-- The request gets as far as allocating ports: the url names an app that is
neither configured nor registered, its directory is there or is cloned, the
optional fields that describe it have their types, and ports are free. -/
structure Allocates (shell : Shell) (command : Json) (s : Registry weight)
    (repoUrl : String) (app : AppStructure) (ports : Ports) : Prop where
  url : command.find? "repoUrl" = some (.string repoUrl)
  named : extractAppNameFromUrl repoUrl ≠ ""
  notConfigured :
    (APP_CONFIGS.any fun cfg => cfg.appId = extractAppNameFromUrl repoUrl) = false
  unknown : s.extra_apps.contains (extractAppNameFromUrl repoUrl) = false
  cloned : ∃ report,
    cloneRepository shell repoUrl (DEV_APPS_DIR ++ extractAppNameFromUrl repoUrl) = .inr report
  detected : overrideStructure command
    (detectAppStructure shell (DEV_APPS_DIR ++ extractAppNameFromUrl repoUrl)) = .ok app
  allocated : allocatePorts s.system_settings app.hasServer = .inr ports

section

variable {shell : Shell} {command : Json} {s : Registry weight} {repoUrl : String}
  {app : AppStructure} {ports : Ports} {failure : CmdResult}

theorem failed_error (e : Exn) : Failed (.error e) := by
  intro result hok
  cases hok

theorem failed_of_status (hstatus : failure.status = 1) : Failed (.ok failure) := by
  rintro _ ⟨⟩ hzero
  rw [hstatus] at hzero
  cases hzero

theorem not_failed_of_status {text : String} : ¬ Failed (.ok ⟨0, text⟩) :=
  fun hfailed => hfailed _ rfl rfl

theorem exists_text_of_status {outcome : Except Exn CmdResult × Registry weight}
    (hok : outcome.1.toOption.any (fun result => result.status = 0) = true) :
    ∃ text, outcome = (.ok ⟨0, text⟩, outcome.2) := by
  obtain ⟨result, registry⟩ := outcome
  cases result with
  | error e => exact absurd hok Bool.false_ne_true
  | ok result =>
      obtain ⟨status, text⟩ := result
      obtain rfl : status = 0 := by simpa [Except.toOption] using hok
      exact ⟨text, rfl⟩

theorem status_of_cloneRepository {devPath : String}
    (hclone : cloneRepository shell repoUrl devPath = .inl failure) : failure.status = 1 := by
  unfold cloneRepository at hclone
  dsimp only at hclone
  split at hclone
  · split at hclone
    · rw [← Sum.inl.inj hclone]
    · simp at hclone
  · simp at hclone

theorem status_of_allocatePorts {settings : CollatedTable weight String} {hasServer : Bool}
    (hallocate : allocatePorts settings hasServer = .inl failure) : failure.status = 1 := by
  unfold allocatePorts at hallocate
  dsimp only at hallocate
  split at hallocate
  · rw [← Sum.inl.inj hallocate]
  · split at hallocate
    · split at hallocate
      · rw [← Sum.inl.inj hallocate]
      · simp at hallocate
    · simp at hallocate

/-- Every way out before the ports fails and leaves the registry as it was. -/
theorem failed_or_allocates (shell : Shell) (command : Json) (s : Registry weight) :
    (Failed (handleAddExtraApp shell command s).1 ∧ (handleAddExtraApp shell command s).2 = s) ∨
      ∃ repoUrl app ports, Allocates shell command s repoUrl app ports := by
  unfold handleAddExtraApp
  split
  · exact Or.inl ⟨failed_of_status rfl, rfl⟩
  rename_i member hmember
  split
  · exact Or.inl ⟨failed_error _, rfl⟩
  rename_i repoUrl hrepoUrl
  obtain rfl : member = .string repoUrl := by
    cases member <;> simp_all [Json.getString]
  dsimp only
  split
  · exact Or.inl ⟨failed_of_status rfl, rfl⟩
  rename_i hnamed
  split
  · exact Or.inl ⟨failed_of_status rfl, rfl⟩
  rename_i hconfigured
  split
  · exact Or.inl ⟨failed_of_status rfl, rfl⟩
  rename_i hunknown
  split
  · rename_i failure hclone
    exact Or.inl ⟨failed_of_status (status_of_cloneRepository hclone), rfl⟩
  rename_i report hcloned
  unfold registerApp
  split
  · exact Or.inl ⟨failed_error _, rfl⟩
  rename_i app hdetected
  split
  · rename_i failure hallocate
    exact Or.inl ⟨failed_of_status (status_of_allocatePorts hallocate), rfl⟩
  rename_i ports hallocated
  exact Or.inr ⟨repoUrl, app, ports, hmember, hnamed,
    Bool.eq_false_of_not_eq_true hconfigured, Bool.eq_false_of_not_eq_true hunknown,
    ⟨report, hcloned⟩, hdetected, hallocated⟩

/-- The registry when the ports have been saved. -/
def withPorts (s : Registry weight) (appId : String) (app : AppStructure) (ports : Ports) :
    Registry weight :=
  { s with system_settings := savePorts s.system_settings appId app.hasServer ports }

/-- A request that gets as far as the ports saves them and reads the display name. -/
theorem handleAddExtraApp_of_allocates (hallocates : Allocates shell command s repoUrl app ports) :
    ∃ text, handleAddExtraApp shell command s =
      match optionalArg command "displayName" Json.getString (extractAppNameFromUrl repoUrl) with
      | .error e => (.error e, withPorts s (extractAppNameFromUrl repoUrl) app ports)
      | .ok displayName =>
          (.ok ⟨0, text⟩,
            { system_settings :=
                (withPorts s (extractAppNameFromUrl repoUrl) app ports).system_settings
              extra_apps := s.extra_apps.upsert (extractAppNameFromUrl repoUrl)
                (appRecord (extractAppNameFromUrl repoUrl) displayName repoUrl
                  (DEV_APPS_DIR ++ extractAppNameFromUrl repoUrl)
                  (PROD_APPS_DIR ++ extractAppNameFromUrl repoUrl) app) }) := by
  obtain ⟨report, hcloned⟩ := hallocates.cloned
  unfold handleAddExtraApp
  rw [hallocates.url]
  dsimp only [Json.getString]
  rw [if_neg hallocates.named, hallocates.notConfigured, hallocates.unknown, hcloned]
  dsimp only [Bool.false_eq_true, if_false]
  unfold registerApp
  rw [hallocates.detected]
  dsimp only
  rw [hallocates.allocated]
  exact ⟨_, rfl⟩

end

end ExtraApps

end AutomateLinux
