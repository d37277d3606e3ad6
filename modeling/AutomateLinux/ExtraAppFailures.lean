import AutomateLinux.ClientSender
import AutomateLinux.ExtraAppRequests

/-!
# Failed additions

`addExtraApp` reads its optional fields where it needs them, the display name
after it has saved the ports.  A request that fails before leaves the registry as
it was; a display name of another type than text ends the request in between.
-/

namespace AutomateLinux

namespace ExtraApps

variable {weight : String → String}

def DisplayNameReadable (command : Json) : Prop :=
  ∀ member ∈ command.find? "displayName", member.is_string = true

section

variable {shell : Shell} {command : Json} {s : Registry weight} {repoUrl : String}
  {app : AppStructure} {ports : Ports}

theorem exists_displayName (hreadable : DisplayNameReadable command) (fallback : String) :
    ∃ displayName,
      optionalArg command "displayName" Json.getString fallback = .ok displayName := by
  unfold optionalArg
  cases hfind : command.find? "displayName" with
  | none => exact ⟨fallback, rfl⟩
  | some member =>
      have hstring := hreadable member hfind
      cases member with
      | string text => exact ⟨text, rfl⟩
      | _ => cases hstring

theorem exists_displayName_error (hreadable : ¬ DisplayNameReadable command)
    (fallback : String) :
    ∃ e, optionalArg command "displayName" Json.getString fallback = .error e := by
  unfold DisplayNameReadable at hreadable
  push Not at hreadable
  obtain ⟨member, hfind, hstring⟩ := hreadable
  refine ⟨Json.typeError "string" member, ?_⟩
  rw [optionalArg, Option.mem_def.mp hfind]
  exact Json.getString_eq_error (Bool.eq_false_of_not_eq_true hstring)

theorem handleAddExtraApp_unreadable (hallocates : Allocates shell command s repoUrl app ports)
    (hreadable : ¬ DisplayNameReadable command) :
    ∃ e, handleAddExtraApp shell command s =
      (.error e, withPorts s (extractAppNameFromUrl repoUrl) app ports) := by
  obtain ⟨text, hhandle⟩ := handleAddExtraApp_of_allocates hallocates
  obtain ⟨e, hdisplay⟩ :=
    exists_displayName_error hreadable (extractAppNameFromUrl repoUrl)
  exact ⟨e, by rw [hhandle, hdisplay]⟩

theorem not_failed_of_readable (hallocates : Allocates shell command s repoUrl app ports)
    (hreadable : DisplayNameReadable command) :
    ¬ Failed (handleAddExtraApp shell command s).1 := by
  obtain ⟨text, hhandle⟩ := handleAddExtraApp_of_allocates hallocates
  obtain ⟨displayName, hdisplay⟩ :=
    exists_displayName hreadable (extractAppNameFromUrl repoUrl)
  rw [hhandle, hdisplay]
  exact not_failed_of_status

end

/-- A failed addition changes nothing exactly when the display name can be read or
every port it saves on the way was saved already. -/
theorem failedAdd_unchanged_iff (shell : Shell) (command : Json) (s : Registry weight) :
    (Failed (handleAddExtraApp shell command s).1 →
        (handleAddExtraApp shell command s).2 = s) ↔
      DisplayNameReadable command ∨
        ∀ repoUrl app ports, Allocates shell command s repoUrl app ports →
          savePorts s.system_settings (extractAppNameFromUrl repoUrl) app.hasServer ports =
            s.system_settings := by
  constructor
  · intro hunchanged
    rw [or_iff_not_imp_left]
    intro hreadable repoUrl app ports hallocates
    obtain ⟨e, hhandle⟩ := handleAddExtraApp_unreadable hallocates hreadable
    rw [hhandle] at hunchanged
    exact congrArg Registry.system_settings (hunchanged (failed_error e))
  · intro hcondition hfailed
    rcases failed_or_allocates shell command s with
      ⟨-, hsame⟩ | ⟨repoUrl, app, ports, hallocates⟩
    · exact hsame
    · have hreadable : ¬ DisplayNameReadable command := fun hreadable =>
        not_failed_of_readable hallocates hreadable hfailed
      obtain ⟨e, hhandle⟩ := handleAddExtraApp_unreadable hallocates hreadable
      rw [hhandle, withPorts, (or_iff_right hreadable).mp hcondition repoUrl app ports hallocates]

/-- What the client sends for `addExtraApp --repoUrl … --displayName 7`. -/
def numberedApp : Json :=
  ClientSender.parse_client_args
    ["addExtraApp", "--repoUrl", "git@host:me/notes.git", "--displayName", "7"]

def emptyRegistry : Registry id := ⟨CollatedTable.empty, CollatedTable.empty⟩

def numberedOutcome : Except Exn CmdResult × Registry id :=
  handleAddExtraApp ⟨fun _ => 0, fun _ => ""⟩ numberedApp emptyRegistry

theorem numberedOutcome_failed : Failed numberedOutcome.1 := by
  have herror : numberedOutcome.1.isOk = false := by decide +kernel
  intro result hok
  rw [hok] at herror
  cases herror

theorem numberedOutcome_saved : numberedOutcome.2 ≠ emptyRegistry := by
  intro hsame
  have hsaved : numberedOutcome.2.system_settings.contains "port_notes-prod" = true := by
    decide +kernel
  rw [hsame] at hsaved
  cases hsaved

/-- The client turns a display name of digits into a number. -/
theorem numberedApp_leavesPorts :
    ¬ ∀ (shell : Shell) (command : Json) (s : Registry id),
      Failed (handleAddExtraApp shell command s).1 →
        (handleAddExtraApp shell command s).2 = s := by
  intro hall
  exact numberedOutcome_saved
    (hall ⟨fun _ => 0, fun _ => ""⟩ numberedApp emptyRegistry numberedOutcome_failed)

end ExtraApps

end AutomateLinux
