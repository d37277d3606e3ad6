import AutomateLinux.ExtraAppRequests
import AutomateLinux.NumberText
import AutomateLinux.TransitionSystem

/-!
# The ports of the extra apps are distinct

The searches skip every number that `stoi` reads under a port key, and the pair
and the server port come from disjoint ranges.  A port that is written is
therefore on no row, whichever row it is written to, and the three writes of one
request do not meet.  So no request brings two equal ports into the registry,
and none needs to know which keys the registry held before.
-/

namespace AutomateLinux

namespace ExtraApps

open TransitionSystem CollatedTable

/-- The number a text of decimal digits stands for. -/
def decimalValue (text : String) : ℕ := Nat.ofDigitChars 10 text.toList 0

def IsDecimal (text : String) : Prop :=
  text.toList ≠ [] ∧ ∀ c ∈ text.toList, c.isDigit = true

section

variable {weight : String → String} {settings : CollatedTable weight String}

def PortsDecimal (settings : CollatedTable weight String) : Prop :=
  ∀ row ∈ settings.rows, isPortKey row.1 = true → IsDecimal row.2

/-- Two port entries of different keys have different values, as the reading
compares them. -/
def PortsDistinct {α : Type} (reading : String → α)
    (settings : CollatedTable weight String) : Prop :=
  Apart (fun row row' => isPortKey row.1 = true → isPortKey row'.1 = true →
    reading row.2 ≠ reading row'.2) settings

/-- No port entry is read as this port. -/
def Free (settings : CollatedTable weight String) (port : Int) : Prop :=
  ∀ row ∈ settings.rows, isPortKey row.1 = true → stoi row.2 ≠ .ok port

/-- The reading tells a decimal text from a written port unless `stoi` reads the
port from it. -/
def TellsPorts {α : Type} (reading : String → α) : Prop :=
  ∀ (text : String) (port : ℕ), IsDecimal text → (port : Int) ≤ INT_MAX →
    reading text = reading (to_string port) → stoi text = .ok (port : Int)

theorem toList_to_string (port : ℕ) :
    (to_string (port : Int)).toList = Nat.toDigits 10 port :=
  Nat.toList_repr

theorem decimalValue_to_string (port : ℕ) :
    decimalValue (to_string (port : Int)) = port := by
  rw [decimalValue, toList_to_string, Nat.ofDigitChars_ten_toDigits]

theorem isDecimal_to_string (port : ℕ) : IsDecimal (to_string (port : Int)) := by
  rw [IsDecimal, toList_to_string]
  exact ⟨Nat.toDigits_ne_nil, isDigit_toDigits port⟩

theorem stoi_of_isDecimal {text : String} (htext : IsDecimal text)
    (hbound : (decimalValue text : Int) ≤ INT_MAX) :
    stoi text = .ok (decimalValue text : Int) := by
  have hdrop : text.toList.dropWhile isspace = text.toList :=
    dropWhile_isspace (Or.inl rfl) htext.2
  have hsign : signOf text.toList = [] :=
    signOf_append (Or.inl rfl) htext.2
  have hprefix : signedPrefix text.toList = some (decimalValue text : Int) := by
    rw [signedPrefix_eq, hsign, List.length_nil, List.drop_zero,
      digitPrefix_of_forall htext.1 htext.2]
    rfl
  have hmin : INT_MIN ≤ (decimalValue text : Int) := by
    unfold INT_MIN
    omega
  simp [stoi, hdrop, hprefix, hmin, hbound]

theorem tellsPorts_decimalValue : TellsPorts decimalValue := by
  intro text port htext hbound hequal
  rw [decimalValue_to_string] at hequal
  subst hequal
  exact stoi_of_isDecimal htext hbound

theorem tellsPorts_id : TellsPorts (id : String → String) := by
  intro text port _ hbound hequal
  obtain rfl : text = to_string port := hequal
  exact stoi_to_string hbound

/-! ## The searches -/

theorem free_of_notMem_usedPorts {port : Int} (hport : port ∉ usedPorts settings) :
    Free settings port := by
  intro row hrow hkey hread
  apply hport
  refine List.mem_filterMap.mpr ⟨row, hrow, ?_⟩
  rw [if_pos hkey, hread]
  rfl

theorem mem_portBases {base : Int} (hbase : base ∈ portBases) :
    3000 ≤ base ∧ base + 1 < 3500 := by
  obtain ⟨i, hi, rfl⟩ := List.mem_map.mp hbase
  rw [List.mem_range] at hi
  omega

theorem mem_serverPorts {port : Int} (hport : port ∈ serverPorts) :
    3500 ≤ port ∧ port < 4000 := by
  obtain ⟨i, hi, rfl⟩ := List.mem_map.mp hport
  rw [List.mem_range] at hi
  omega

theorem findNextAvailablePortPair_spec {prodPort devPort : Int}
    (hfind : findNextAvailablePortPair settings = (prodPort, devPort))
    (hfound : ¬ prodPort < 0) :
    (3000 ≤ prodPort ∧ devPort = prodPort + 1 ∧ devPort < 3500) ∧
      Free settings prodPort ∧ Free settings devPort := by
  unfold findNextAvailablePortPair at hfind
  dsimp only at hfind
  split at hfind
  · rename_i base hbase
    obtain ⟨rfl, rfl⟩ := Prod.mk.inj hfind
    have hfree := List.find?_some hbase
    simp only [decide_eq_true_eq] at hfree
    obtain ⟨hlower, hupper⟩ := mem_portBases (List.mem_of_find?_eq_some hbase)
    exact ⟨⟨hlower, rfl, hupper⟩, free_of_notMem_usedPorts hfree.1,
      free_of_notMem_usedPorts hfree.2⟩
  · obtain ⟨rfl, -⟩ := Prod.mk.inj hfind
    have hneg : (-1 : Int) < 0 := by decide
    exact absurd hneg hfound

theorem findNextAvailableServerPort_spec {serverPort : Int}
    (hfind : findNextAvailableServerPort settings = serverPort)
    (hfound : ¬ serverPort < 0) :
    (3500 ≤ serverPort ∧ serverPort < 4000) ∧ Free settings serverPort := by
  unfold findNextAvailableServerPort at hfind
  dsimp only at hfind
  cases hport : serverPorts.find? fun port => port ∉ usedPorts settings with
  | none =>
      rw [hport] at hfind
      obtain rfl : (-1 : Int) = serverPort := hfind
      have hneg : (-1 : Int) < 0 := by decide
      exact absurd hneg hfound
  | some port =>
      rw [hport] at hfind
      obtain rfl : port = serverPort := hfind
      have hfree := List.find?_some hport
      simp only [decide_eq_true_eq] at hfree
      exact ⟨mem_serverPorts (List.mem_of_find?_eq_some hport),
        free_of_notMem_usedPorts hfree⟩

/-- A port number that may be written: free and small. -/
structure Writable (settings : CollatedTable weight String) (port : Int) :
    Prop where
  free : Free settings port
  lower : 3000 ≤ port
  upper : port < 4000

/-- What the allocation promises about the ports that are then written. -/
structure Allocated (settings : CollatedTable weight String)
    (hasServer : Bool) (ports : Ports) : Prop where
  prod : Writable settings ports.prodPort
  dev : Writable settings ports.devPort
  server : hasServer = true → Writable settings ports.serverPort
  prod_ne_dev : ports.prodPort ≠ ports.devPort
  server_ne : hasServer = true →
    ports.serverPort ≠ ports.prodPort ∧ ports.serverPort ≠ ports.devPort

/-- What the two searches have found when ports are allocated. -/
theorem searches_of_allocatePorts {hasServer : Bool} {ports : Ports}
    (hallocate : allocatePorts settings hasServer = .inr ports) :
    (findNextAvailablePortPair settings = (ports.prodPort, ports.devPort) ∧
        ¬ ports.prodPort < 0) ∧
      (hasServer = true → findNextAvailableServerPort settings = ports.serverPort ∧
        ¬ ports.serverPort < 0) := by
  unfold allocatePorts at hallocate
  generalize findNextAvailableServerPort settings = serverPort at hallocate ⊢
  generalize findNextAvailablePortPair settings = pair at hallocate ⊢
  obtain ⟨prodPort, devPort⟩ := pair
  dsimp only at hallocate
  split at hallocate
  · exact nomatch hallocate
  rename_i hfound
  split at hallocate
  · split at hallocate
    · exact nomatch hallocate
    · rename_i hserverFound
      obtain rfl := Sum.inr.inj hallocate
      exact ⟨⟨rfl, hfound⟩, fun _ => ⟨rfl, hserverFound⟩⟩
  · rename_i hserver
    obtain rfl := Sum.inr.inj hallocate
    exact ⟨⟨rfl, hfound⟩, fun h => absurd h hserver⟩

theorem allocatePorts_allocated {hasServer : Bool} {ports : Ports}
    (hallocate : allocatePorts settings hasServer = .inr ports) :
    Allocated settings hasServer ports := by
  obtain ⟨⟨hpair, hfound⟩, hserver⟩ := searches_of_allocatePorts hallocate
  obtain ⟨⟨hlower, hdev, hupper⟩, hprodFree, hdevFree⟩ :=
    findNextAvailablePortPair_spec hpair hfound
  refine ⟨⟨hprodFree, hlower, by omega⟩, ⟨hdevFree, by omega, by omega⟩, ?_, by omega, ?_⟩
  · intro hhas
    obtain ⟨hfind, hserverFound⟩ := hserver hhas
    obtain ⟨⟨hserverLower, hserverUpper⟩, hserverFree⟩ :=
      findNextAvailableServerPort_spec hfind hserverFound
    exact ⟨hserverFree, by omega, hserverUpper⟩
  · intro hhas
    obtain ⟨hfind, hserverFound⟩ := hserver hhas
    obtain ⟨⟨hserverLower, -⟩, -⟩ := findNextAvailableServerPort_spec hfind hserverFound
    exact ⟨by omega, by omega⟩

/-! ## The writes -/

/-- The invariant of the settings table. -/
structure PortInvariant {α : Type} (reading : String → α)
    (settings : CollatedTable weight String) : Prop where
  decimal : PortsDecimal settings
  distinct : PortsDistinct reading settings

theorem Writable.eq_natCast {port : Int} (hport : Writable settings port) :
    ∃ n : ℕ, port = n ∧ (n : Int) ≤ INT_MAX := by
  have hlower := hport.lower
  have hupper := hport.upper
  refine ⟨port.toNat, by omega, ?_⟩
  unfold INT_MAX
  omega

theorem Writable.upsert {port other : Int} (hport : Writable settings port)
    (hother : Writable settings other) (hne : port ≠ other) (key : String) :
    Writable (settings.upsert key (to_string other)) port := by
  refine ⟨?_, hport.lower, hport.upper⟩
  intro row hrow hkey hread
  rcases mem_rows_upsert hrow with ⟨hold, -⟩ | ⟨hvalue, -⟩
  · exact hport.free row hold hkey hread
  · obtain ⟨n, rfl, hn⟩ := hother.eq_natCast
    rw [hvalue, stoi_to_string hn] at hread
    exact hne (Except.ok.inj hread).symm

theorem PortInvariant.upsert {α : Type} {reading : String → α}
    (htells : TellsPorts reading) (hinv : PortInvariant reading settings)
    {port : Int} (hport : Writable settings port) (key : String) :
    PortInvariant reading (settings.upsert key (to_string port)) := by
  obtain ⟨n, rfl, hn⟩ := hport.eq_natCast
  constructor
  · intro row hrow hkey
    rcases mem_rows_upsert hrow with ⟨hold, -⟩ | ⟨hvalue, -⟩
    · exact hinv.decimal row hold hkey
    · rw [hvalue]
      exact isDecimal_to_string n
  · apply Apart.upsert hinv.distinct
    · intro row row' hrel hkey hkey'
      exact (hrel hkey' hkey).symm
    · intro row hrow key' hkey _ hequal
      exact hport.free row hrow hkey
        (htells row.2 n (hinv.decimal row hrow hkey) hn hequal)

theorem PortInvariant.erase {α : Type} {reading : String → α}
    (hinv : PortInvariant reading settings) (key : String) :
    PortInvariant reading (settings.erase key) :=
  ⟨fun row hrow => hinv.decimal row (mem_rows_erase.mp hrow).1,
    hinv.distinct.erase key⟩

theorem PortInvariant.savePorts {α : Type} {reading : String → α}
    (htells : TellsPorts reading) (hinv : PortInvariant reading settings)
    {hasServer : Bool} {ports : Ports}
    (hports : Allocated settings hasServer ports) (appId : String) :
    PortInvariant reading (savePorts settings appId hasServer ports) := by
  have hprod := hinv.upsert htells hports.prod ("port_" ++ appId ++ "-prod")
  have hdev := hprod.upsert htells
    (hports.dev.upsert hports.prod hports.prod_ne_dev.symm
      ("port_" ++ appId ++ "-prod")) ("port_" ++ appId ++ "-dev")
  unfold ExtraApps.savePorts
  split
  · rename_i hserver
    obtain ⟨hneProd, hneDev⟩ := hports.server_ne hserver
    apply hdev.upsert htells
    apply Writable.upsert _ _ hneDev
    · exact (hports.server hserver).upsert hports.prod hneProd _
    · exact hports.dev.upsert hports.prod hports.prod_ne_dev.symm _
  · exact hdev

theorem PortInvariant.deletePorts {α : Type} {reading : String → α}
    (hinv : PortInvariant reading settings) (appId : String)
    (hasServer : Bool) :
    PortInvariant reading (deletePorts settings appId hasServer) := by
  have hdeleted := (hinv.erase ("port_" ++ appId ++ "-prod")).erase
    ("port_" ++ appId ++ "-dev")
  unfold ExtraApps.deletePorts
  split
  · exact hdeleted.erase _
  · exact hdeleted

/-! ## Requests and runs -/

/-- Everything an addition can do to the settings: nothing, or saving the ports it
allocated. -/
theorem handleAddExtraApp_settings (shell : Shell) (command : Json)
    (s : Registry weight) :
    (handleAddExtraApp shell command s).2.system_settings = s.system_settings ∨
      ∃ appId hasServer ports,
        allocatePorts s.system_settings hasServer = .inr ports ∧
          (handleAddExtraApp shell command s).2.system_settings =
            savePorts s.system_settings appId hasServer ports := by
  rcases failed_or_allocates shell command s with ⟨-, hsame⟩ | ⟨repoUrl, app, ports, hallocates⟩
  · exact Or.inl (congrArg Registry.system_settings hsame)
  · obtain ⟨text, hhandle⟩ := handleAddExtraApp_of_allocates hallocates
    refine Or.inr ⟨extractAppNameFromUrl repoUrl, app.hasServer, ports, hallocates.allocated, ?_⟩
    rw [hhandle]
    split <;> rfl

theorem handleRemoveExtraApp_settings (command : Json) (s : Registry weight) :
    (handleRemoveExtraApp command s).2.system_settings = s.system_settings ∨
      ∃ appId hasServer, (handleRemoveExtraApp command s).2.system_settings =
        deletePorts s.system_settings appId hasServer := by
  unfold handleRemoveExtraApp
  split
  · exact Or.inl rfl
  · split
    · exact Or.inl rfl
    · split
      · exact Or.inl rfl
      · exact Or.inr ⟨_, _, rfl⟩

/-- No request breaks the invariant, however it ends. -/
theorem PortInvariant.handle {α : Type} {reading : String → α}
    (htells : TellsPorts reading) {s : Registry weight}
    (hinv : PortInvariant reading s.system_settings) (request : Request) :
    PortInvariant reading (handle s request).2.system_settings := by
  cases request with
  | addExtraApp command shell =>
      rcases handleAddExtraApp_settings shell command s with
        hsame | ⟨appId, hasServer, ports, hallocate, hsaved⟩
      · show PortInvariant reading
          (handleAddExtraApp shell command s).2.system_settings
        rw [hsame]
        exact hinv
      · show PortInvariant reading
          (handleAddExtraApp shell command s).2.system_settings
        rw [hsaved]
        exact hinv.savePorts htells (allocatePorts_allocated hallocate) appId
  | removeExtraApp command =>
      rcases handleRemoveExtraApp_settings command s with
        hsame | ⟨appId, hasServer, hdeleted⟩
      · show PortInvariant reading
          (handleRemoveExtraApp command s).2.system_settings
        rw [hsame]
        exact hinv
      · show PortInvariant reading
          (handleRemoveExtraApp command s).2.system_settings
        rw [hdeleted]
        exact hinv.deletePorts appId hasServer

theorem PortInvariant.reachable {α : Type} {reading : String → α}
    (htells : TellsPorts reading) {start s : Registry weight}
    (hstart : PortInvariant reading start.system_settings)
    (hreach : Reachable step start s) :
    PortInvariant reading s.system_settings := by
  refine hreach.invariant (I := fun s => PortInvariant reading s.system_settings)
    ?_ hstart
  intro before request after hinv hstep
  obtain rfl := Option.some.inj hstep
  exact hinv.handle htells request

/-- Requests in any order leave the ports distinct, as numbers and as texts. -/
theorem reachable_portsDistinct {start s : Registry weight}
    (hdecimal : PortsDecimal start.system_settings)
    (hreach : Reachable step start s) :
    (PortsDistinct decimalValue start.system_settings →
        PortsDistinct decimalValue s.system_settings) ∧
      (PortsDistinct id start.system_settings →
        PortsDistinct id s.system_settings) := by
  constructor
  · intro hdistinct
    exact (PortInvariant.reachable tellsPorts_decimalValue ⟨hdecimal, hdistinct⟩
      hreach).distinct
  · intro hdistinct
    exact (PortInvariant.reachable tellsPorts_id ⟨hdecimal, hdistinct⟩
      hreach).distinct

end

/-- A registry in which somebody has set two ports by hand, the second under
the key of an app that is still to be added. -/
def setByHand : Registry id where
  system_settings :=
    ⟨[("port_proxy", "3000"), ("port_notes-prod", "3002")], by decide⟩
  extra_apps := CollatedTable.empty

/-- `d addExtraApp --repoUrl git@host:me/notes.git`, where every directory
exists already. -/
def addNotes : Request :=
  .addExtraApp (.object [("repoUrl", .string "git@host:me/notes.git")])
    ⟨fun _ => 0, fun _ => ""⟩

theorem setByHand_portsDistinct :
    PortsDistinct decimalValue (handle setByHand addNotes).2.system_settings := by
  have hrows : ∀ row ∈ setByHand.system_settings.rows,
      row = ("port_proxy", "3000") ∨ row = ("port_notes-prod", "3002") := by
    intro row hrow
    simpa [setByHand] using hrow
  have hdecimal : PortsDecimal setByHand.system_settings := by
    intro row hrow _
    rcases hrows row hrow with rfl | rfl
    · exact ⟨by decide, List.all_eq_true.mp (by decide)⟩
    · exact ⟨by decide, List.all_eq_true.mp (by decide)⟩
  have hdistinct : PortsDistinct decimalValue setByHand.system_settings := by
    intro row hrow row' hrow' hne _ _
    rcases hrows row hrow with rfl | rfl <;>
      rcases hrows row' hrow' with rfl | rfl
    · exact absurd rfl hne
    · decide
    · decide
    · exact absurd rfl hne
  have hreach : Reachable step setByHand (handle setByHand addNotes).2 :=
    Relation.ReflTransGen.single ⟨addNotes, trivial, rfl⟩
  exact (reachable_portsDistinct hdecimal hreach).1 hdistinct

end ExtraApps

end AutomateLinux
