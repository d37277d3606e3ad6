import AutomateLinux.ExtraAppFailures
import AutomateLinux.ExtraAppPorts

/-!
# The ports the system listens on

The server's port is searched for from 3500 on, among the numbers that no port
setting has.  The daemon listens on one of them and its manager on another, which
nobody writes into the settings.
-/

namespace AutomateLinux

namespace ExtraApps

def PEER_TCP_PORT : Int := 3502

def MANAGER_PORT : Int := 3505

def systemPorts : List Int := [PEER_TCP_PORT, MANAGER_PORT]

/-- The ports that are allocated for an app. -/
def Ports.allocated (ports : Ports) (app : AppStructure) : List Int :=
  [ports.prodPort, ports.devPort] ++ if app.hasServer then [ports.serverPort] else []

section

variable {weight : String → String} {settings : CollatedTable weight String}

/-- The addition succeeds with these ports. -/
structure AddsWith (shell : Shell) (command : Json) (s : Registry weight) (app : AppStructure)
    (ports : Ports) : Prop where
  allocates : ∃ repoUrl, Allocates shell command s repoUrl app ports
  succeeds : ¬ Failed (handleAddExtraApp shell command s).1

/-- No port that a successful addition allocates is one the system listens on. -/
def AvoidsSystemPorts (shell : Shell) (command : Json) (s : Registry weight) : Prop :=
  ∀ app ports, AddsWith shell command s app ports →
    ∀ port ∈ ports.allocated app, port ∉ systemPorts

/-- An app with a server finds the port taken, or a free one before it. -/
def SystemPortsPassedOver (shell : Shell) (command : Json) (s : Registry weight) : Prop :=
  ∀ app ports, AddsWith shell command s app ports → app.hasServer = true →
    ∀ port ∈ systemPorts, port ∈ usedPorts s.system_settings ∨
      ∃ lower, 3500 ≤ lower ∧ lower < port ∧ lower ∉ usedPorts s.system_settings

/-- The search ends at the first number that no port setting has. -/
theorem findNextAvailableServerPort_eq_iff {port : Int} (hlower : 3500 ≤ port)
    (hupper : port < 4000) :
    findNextAvailableServerPort settings = port ↔ port ∉ usedPorts settings ∧
      ∀ lower, 3500 ≤ lower → lower < port → lower ∈ usedPorts settings := by
  obtain ⟨k, rfl⟩ : ∃ k : ℕ, port = 3500 + k := ⟨(port - 3500).toNat, by omega⟩
  have hfound : findNextAvailableServerPort settings = 3500 + (k : Int) ↔
      ((List.range 500).find? fun i : ℕ => 3500 + (i : Int) ∉ usedPorts settings) = some k := by
    unfold findNextAvailableServerPort serverPorts
    dsimp only
    rw [List.find?_map]
    cases hfind : (List.range 500).find? fun i : ℕ => 3500 + (i : Int) ∉ usedPorts settings with
    | none =>
        simp only [Function.comp_def, hfind, Option.map_none, Option.getD_none, reduceCtorEq,
          iff_false]
        omega
    | some i =>
        simp only [Function.comp_def, hfind, Option.map_some, Option.getD_some,
          Option.some.injEq]
        omega
  rw [hfound, List.find?_range_eq_some]
  simp only [decide_eq_true_eq, List.mem_range, Bool.not_eq_true', decide_eq_false_iff_not,
    not_not]
  constructor
  · rintro ⟨hfree, -, hused⟩
    refine ⟨hfree, fun lower hlow hlt => ?_⟩
    have hat := hused (lower - 3500).toNat (by omega)
    rwa [show (3500 : Int) + ((lower - 3500).toNat : Int) = lower by omega] at hat
  · rintro ⟨hfree, hused⟩
    exact ⟨hfree, by omega, fun j hj => hused _ (by omega) (by omega)⟩

theorem allocated_of_addsWith {shell : Shell} {command : Json} {s : Registry weight}
    {app : AppStructure} {ports : Ports} (hadds : AddsWith shell command s app ports) :
    allocatePorts s.system_settings app.hasServer = .inr ports := by
  obtain ⟨repoUrl, hallocates⟩ := hadds.allocates
  exact hallocates.allocated

/-- A successful addition stays clear of the ports the system listens on exactly
if, for an app with a server, each of them is taken or has a free one before it. -/
theorem avoidsSystemPorts_iff (shell : Shell) (command : Json) (s : Registry weight) :
    AvoidsSystemPorts shell command s ↔ SystemPortsPassedOver shell command s := by
  have hsystem : ∀ port ∈ systemPorts, 3500 ≤ port ∧ port < 4000 := by decide
  constructor
  · intro havoids app ports hadds hserver port hport
    obtain ⟨hfind, -⟩ := (searches_of_allocatePorts (allocated_of_addsWith hadds)).2 hserver
    have hother : findNextAvailableServerPort s.system_settings ≠ port := by
      rintro rfl
      refine havoids app ports hadds ports.serverPort ?_ (hfind ▸ hport)
      simp [Ports.allocated, hserver]
    obtain ⟨hlower, hupper⟩ := hsystem port hport
    rw [ne_eq, findNextAvailableServerPort_eq_iff hlower hupper] at hother
    by_cases hused : port ∈ usedPorts s.system_settings
    · exact Or.inl hused
    · push Not at hother
      exact Or.inr (hother hused)
  · intro hpassed app ports hadds port hport hreserved
    obtain ⟨hlower, hupper⟩ := hsystem port hreserved
    obtain ⟨⟨hpair, hfound⟩, hserverFind⟩ :=
      searches_of_allocatePorts (allocated_of_addsWith hadds)
    obtain ⟨⟨-, hdev, hclient⟩, -⟩ := findNextAvailablePortPair_spec hpair hfound
    have hserver : app.hasServer = true ∧ port = ports.serverPort := by
      cases hhas : app.hasServer with
      | false =>
          simp only [Ports.allocated, hhas, Bool.false_eq_true, if_false, List.append_nil,
            List.mem_cons, List.not_mem_nil, or_false] at hport
          omega
      | true =>
          simp only [Ports.allocated, hhas, if_true, List.cons_append, List.nil_append,
            List.mem_cons, List.not_mem_nil, or_false] at hport
          exact ⟨rfl, by omega⟩
    obtain ⟨hhas, rfl⟩ := hserver
    obtain ⟨hfree, hbefore⟩ :=
      (findNextAvailableServerPort_eq_iff hlower hupper).mp (hserverFind hhas).1
    rcases hpassed app ports hadds hhas _ hreserved with hused | ⟨lower, hlow, hlt, hunused⟩
    · exact hfree hused
    · exact hunused (hbefore lower hlow hlt)

end

/-- Two apps with servers have the first two ports of the range. -/
def twoServers : Registry id where
  system_settings := ⟨[("port_one-server", "3500"), ("port_two-server", "3501")], by decide⟩
  extra_apps := CollatedTable.empty

def everythingExists : Shell := ⟨fun _ => 0, fun _ => ""⟩

def addThird : Json := .object [("repoUrl", .string "git@host:me/three.git")]

/-- The third app's server gets the port the daemon listens on. -/
theorem thirdServer_getsPeerPort : ¬ AvoidsSystemPorts everythingExists addThird twoServers := by
  intro havoids
  have hsucceeds : ¬ Failed (handleAddExtraApp everythingExists addThird twoServers).1 := by
    have hok : (handleAddExtraApp everythingExists addThird twoServers).1.toOption.any
        (fun result => result.status = 0) = true := by decide +kernel
    obtain ⟨text, hadd⟩ := exists_text_of_status hok
    rw [hadd]
    exact not_failed_of_status
  rcases failed_or_allocates everythingExists addThird twoServers with
    ⟨hfailed, -⟩ | ⟨repoUrl, app, ports, hallocates⟩
  · exact hsucceeds hfailed
  obtain rfl : "git@host:me/three.git" = repoUrl := by
    simpa [addThird, Json.find?] using hallocates.url
  have hserver : app.hasServer = true := by
    have hany : (overrideStructure addThird (detectAppStructure everythingExists
        (DEV_APPS_DIR ++ extractAppNameFromUrl "git@host:me/three.git"))).toOption.any
          (fun app => app.hasServer) = true := by decide +kernel
    rw [hallocates.detected] at hany
    exact hany
  have hport : findNextAvailableServerPort twoServers.system_settings = 3502 := by
    decide +kernel
  obtain ⟨hfind, -⟩ := (searches_of_allocatePorts hallocates.allocated).2 hserver
  refine havoids app ports ⟨⟨_, hallocates⟩, hsucceeds⟩ 3502 ?_ (by decide)
  simp [Ports.allocated, hserver, ← hfind, hport]

end ExtraApps

end AutomateLinux
