import AutomateLinux.AppPortKeys

/-!
# Removing an app that was added

The keys under which an addition saves the ports and those that a removal deletes
are put together from the id of the app, with the server's key depending on a flag
of the record.  As the suffixes are told apart by their last letters, no two apps
meet in a key, whatever their ids: a removal takes back what the addition wrote
and nothing else.
-/

namespace AutomateLinux

namespace ExtraApps

open TransitionSystem CollatedTable

/-- What the collation of the key columns is relied on for: a text weighs what its
parts weigh, a letter weighs one character, and two letters weigh the same only
if they differ in case. -/
structure Collates (weight : String → String) : Prop where
  append : ∀ text more, weight (text ++ more) = weight text ++ weight more
  letter : ∀ c : Char, c.isAlpha = true →
    ∃ w, weight (String.singleton c) = String.singleton w
  fold : ∀ c c' : Char, c.isAlpha = true → c'.isAlpha = true →
    weight (String.singleton c) = weight (String.singleton c') → c.toLower = c'.toLower

/-- The request names the app, in its url or by its id. -/
def Request.Names (request : Request) (appId : String) : Prop :=
  match request with
  | .addExtraApp command _ =>
      ∃ repoUrl, command.find? "repoUrl" = some (.string repoUrl) ∧
        extractAppNameFromUrl repoUrl = appId
  | .removeExtraApp command => command.find? "app" = some (.string appId)

/-- A request for another app, as the collation tells them apart. -/
def Request.ForOther (weight : String → String) (appId : String) (request : Request) : Prop :=
  ∀ other, request.Names other → weight other ≠ weight appId

section

variable {weight : String → String} {s added before : Registry weight}
  {settings : CollatedTable weight String} {appId other : String}

/-- The registry has no port of the app and no record of it. -/
structure Fresh (s : Registry weight) (appId : String) : Prop where
  ports : ∀ key ∈ writtenPortKeys appId true, s.system_settings.contains key = false
  record : s.extra_apps.contains appId = false

/-- The entry was written on the way from the first registry to the second. -/
def Written (s added : Registry weight) (row : String × String) : Prop :=
  row ∈ added.system_settings.rows ∧ row ∉ s.system_settings.rows

/-- What was written is gone with the record, and everything else is as it was. -/
structure TakesBack (s added before after : Registry weight) (appId : String) : Prop where
  written : ∀ row, Written s added row → after.system_settings.contains row.1 = false
  settings : ∀ row, row ∈ after.system_settings.rows ↔
    row ∈ before.system_settings.rows ∧ ¬ Written s added row
  record : after.extra_apps.contains appId = false
  records : ∀ row, row ∈ after.extra_apps.rows ↔
    row ∈ before.extra_apps.rows ∧ weight row.1 ≠ weight appId

/-! ## Keys of different apps -/

def portKeySuffixes : List String := ["-prod", "-dev", "-server"]

def portKey (appId suffix : String) : String := "port_" ++ appId ++ suffix

theorem mem_writtenPortKeys {hasServer : Bool} {key : String}
    (hkey : key ∈ writtenPortKeys appId hasServer) :
    ∃ suffix ∈ portKeySuffixes, key = portKey appId suffix := by
  have hcases : key = "port_" ++ appId ++ "-prod" ∨ key = "port_" ++ appId ++ "-dev" ∨
      key = "port_" ++ appId ++ "-server" := by
    cases hasServer
    · have hfirst : key = "port_" ++ appId ++ "-prod" ∨ key = "port_" ++ appId ++ "-dev" := by
        simpa [writtenPortKeys] using hkey
      exact hfirst.imp_right Or.inl
    · simpa [writtenPortKeys] using hkey
  rcases hcases with rfl | rfl | rfl
  · exact ⟨"-prod", by simp [portKeySuffixes], rfl⟩
  · exact ⟨"-dev", by simp [portKeySuffixes], rfl⟩
  · exact ⟨"-server", by simp [portKeySuffixes], rfl⟩

theorem writtenPortKeys_subset {hasServer : Bool} {key : String}
    (hkey : key ∈ writtenPortKeys appId hasServer) : key ∈ writtenPortKeys appId true := by
  cases hasServer
  · exact List.mem_append_left _ (by simpa [writtenPortKeys] using hkey)
  · exact hkey

/-- The suffixes, each with its last letter split off. -/
def lastLetters : List (String × Char) := [("-pro", 'd'), ("-de", 'v'), ("-serve", 'r')]

theorem exists_lastLetter {suffix : String} (hsuffix : suffix ∈ portKeySuffixes) :
    ∃ split ∈ lastLetters, suffix = split.1 ++ String.singleton split.2 := by
  revert suffix
  decide

theorem lastLetters_injective : ∀ split ∈ lastLetters, ∀ split' ∈ lastLetters,
    split.2.toLower = split'.2.toLower → split = split' := by
  decide

theorem isAlpha_lastLetter : ∀ split ∈ lastLetters, split.2.isAlpha = true := by
  decide

theorem Collates.lastLetter (hcollates : Collates weight) {c c' : Char}
    (hc : c.isAlpha = true) (hc' : c'.isAlpha = true) {text text' init init' : String}
    (hsame : text ++ weight (init ++ String.singleton c) =
      text' ++ weight (init' ++ String.singleton c')) : c.toLower = c'.toLower := by
  obtain ⟨w, hw⟩ := hcollates.letter c hc
  obtain ⟨w', hw'⟩ := hcollates.letter c' hc'
  rw [hcollates.append, hcollates.append, hw, hw'] at hsame
  have hlast := congrArg (fun text => text.toList.getLast?) hsame
  obtain rfl : w = w' := by simpa using hlast
  exact hcollates.fold c c' hc hc' (hw.trans hw'.symm)

/-- Two port keys are in one row only if they are the same key of the same app. -/
theorem Collates.eq_of_portKey (hcollates : Collates weight) {suffix suffix' : String}
    (hsuffix : suffix ∈ portKeySuffixes) (hsuffix' : suffix' ∈ portKeySuffixes)
    (hsame : weight (portKey appId suffix) = weight (portKey other suffix')) :
    suffix = suffix' ∧ weight appId = weight other := by
  have hrest : weight appId ++ weight suffix = weight other ++ weight suffix' := by
    rw [portKey, portKey, hcollates.append, hcollates.append, hcollates.append,
      hcollates.append, String.append_assoc, String.append_assoc] at hsame
    exact (String.append_right_inj _).mp hsame
  obtain ⟨split, hsplit, rfl⟩ := exists_lastLetter hsuffix
  obtain ⟨split', hsplit', rfl⟩ := exists_lastLetter hsuffix'
  have hletter := hcollates.lastLetter (isAlpha_lastLetter split hsplit)
    (isAlpha_lastLetter split' hsplit') hrest
  obtain rfl := lastLetters_injective split hsplit split' hsplit' hletter
  exact ⟨rfl, (String.append_left_inj _).mp hrest⟩

theorem nodup_weight_writtenPortKeys (hcollates : Collates weight) (appId : String)
    (hasServer : Bool) : ((writtenPortKeys appId hasServer).map weight).Nodup := by
  have hkeys : (writtenPortKeys appId hasServer).map weight =
      (portKeySuffixes.take (if hasServer then 3 else 2)).map
        fun suffix => weight (portKey appId suffix) := by
    cases hasServer <;> rfl
  have hsuffixes : portKeySuffixes.Nodup := by decide
  rw [hkeys]
  refine List.Nodup.map_on ?_ (hsuffixes.sublist (List.take_sublist _ _))
  intro suffix hsuffix suffix' hsuffix' hsame
  exact (hcollates.eq_of_portKey (List.mem_of_mem_take hsuffix)
    (List.mem_of_mem_take hsuffix') hsame).1

/-! ## Saved and deleted rows -/

theorem map_fst_savedPorts (appId : String) (hasServer : Bool) (ports : Ports) :
    (savedPorts appId hasServer ports).map Prod.fst = writtenPortKeys appId hasServer := by
  cases hasServer <;> rfl

theorem mem_rows_savePorts_of_ne {hasServer : Bool} {ports : Ports} {row : String × String}
    (hne : ∀ key ∈ writtenPortKeys appId hasServer, weight row.1 ≠ weight key) :
    row ∈ (savePorts settings appId hasServer ports).rows ↔ row ∈ settings.rows := by
  rw [← map_fst_savedPorts appId hasServer ports] at hne
  rw [savePorts_eq]
  generalize savedPorts appId hasServer ports = saved at hne
  induction saved generalizing settings with
  | nil => rfl
  | cons first saved ih =>
      rw [List.map_cons, List.forall_mem_cons] at hne
      rw [List.foldl_cons, ih hne.2, mem_rows_upsert_of_ne hne.1]

/-- Ports under keys that are not there yet are added at the end. -/
theorem rows_savePorts (hcollates : Collates weight) {hasServer : Bool} (ports : Ports)
    (hnew : ∀ key ∈ writtenPortKeys appId hasServer, settings.contains key = false) :
    (savePorts settings appId hasServer ports).rows =
      settings.rows ++ savedPorts appId hasServer ports := by
  have hdistinct : ((savedPorts appId hasServer ports).map fun row => weight row.1).Nodup := by
    have hkeys := nodup_weight_writtenPortKeys hcollates appId hasServer
    rwa [← map_fst_savedPorts appId hasServer ports, List.map_map] at hkeys
  rw [← map_fst_savedPorts appId hasServer ports] at hnew
  rw [savePorts_eq]
  generalize savedPorts appId hasServer ports = saved at hnew hdistinct
  induction saved generalizing settings with
  | nil => exact (List.append_nil _).symm
  | cons first saved ih =>
      rw [List.map_cons, List.forall_mem_cons] at hnew
      rw [List.map_cons, List.nodup_cons] at hdistinct
      have hrows := rows_upsert_of_not_contains hnew.1 first.2
      rw [List.foldl_cons, ih _ hdistinct.2, hrows, List.append_assoc]
      · rfl
      · intro key hkey
        rw [contains_eq_false_iff, hrows]
        intro row hrow
        rcases List.mem_append.mp hrow with hold | hlast
        · exact contains_eq_false_iff.mp (hnew.2 key hkey) row hold
        · obtain rfl := List.mem_singleton.mp hlast
          obtain ⟨later, hlater, rfl⟩ := List.mem_map.mp hkey
          intro hsame
          exact hdistinct.1 (List.mem_map.mpr ⟨later, hlater, hsame.symm⟩)

theorem rows_deletePorts (settings : CollatedTable weight String) (appId : String)
    (hasServer : Bool) :
    (deletePorts settings appId hasServer).rows =
      settings.rows.filter fun row =>
        ∀ key ∈ writtenPortKeys appId hasServer, weight row.1 ≠ weight key := by
  unfold deletePorts
  cases hasServer
  · simp [erase, writtenPortKeys, List.filter_filter, Bool.and_comm]
  · simp [erase, writtenPortKeys, List.filter_filter, Bool.and_comm, ← Bool.and_assoc]

theorem mem_rows_deletePorts {hasServer : Bool} {row : String × String} :
    row ∈ (deletePorts settings appId hasServer).rows ↔ row ∈ settings.rows ∧
      ∀ key ∈ writtenPortKeys appId hasServer, weight row.1 ≠ weight key := by
  rw [rows_deletePorts, List.mem_filter, decide_eq_true_eq]

/-! ## What a request can do -/

/-- A request changes nothing, or the rows of the one app it names. -/
inductive Effect (s : Registry weight) (request : Request) : Registry weight → Prop
  | nothing : Effect s request s
  | portsSaved (appId : String) (hnames : request.Names appId) (app : AppStructure)
      (ports : Ports) : Effect s request (withPorts s appId app ports)
  | added (appId : String) (hnames : request.Names appId) (app : AppStructure)
      (ports : Ports) (record : ExtraAppRecord) :
      Effect s request
        { withPorts s appId app ports with extra_apps := s.extra_apps.upsert appId record }
  | removed (appId : String) (hnames : request.Names appId) (hasServer : Bool) :
      Effect s request
        { system_settings := deletePorts s.system_settings appId hasServer
          extra_apps := s.extra_apps.erase appId }

theorem effect_handle (s : Registry weight) (request : Request) :
    Effect s request (handle s request).2 := by
  cases request with
  | addExtraApp command shell =>
      rcases failed_or_allocates shell command s with
        ⟨-, hsame⟩ | ⟨repoUrl, app, ports, hallocates⟩
      · have hnothing : (handle s (.addExtraApp command shell)).2 = s := hsame
        rw [hnothing]
        exact .nothing
      · obtain ⟨text, hhandle⟩ := handleAddExtraApp_of_allocates hallocates
        have hnames : (Request.addExtraApp command shell).Names
            (extractAppNameFromUrl repoUrl) := ⟨repoUrl, hallocates.url, rfl⟩
        show Effect s _ (handleAddExtraApp shell command s).2
        rw [hhandle]
        split
        · exact .portsSaved _ hnames app ports
        · exact .added _ hnames app ports _
  | removeExtraApp command =>
      show Effect s _ (handleRemoveExtraApp command s).2
      unfold handleRemoveExtraApp
      split
      · exact .nothing
      rename_i member hmember
      split
      · exact .nothing
      rename_i appId happId
      obtain rfl : member = .string appId := by
        cases member <;> simp_all [Json.getString]
      have hnames : (Request.removeExtraApp command).Names appId := hmember
      split
      · exact .nothing
      · exact .removed appId hnames _

/-! ## Requests for other apps -/

/-- The key of the row is a port key of the app, whatever its spelling. -/
def OwnKey (weight : String → String) (appId key : String) : Prop :=
  ∃ suffix ∈ portKeySuffixes, weight key = weight (portKey appId suffix)

theorem Collates.ne_of_ownKey (hcollates : Collates weight) {key : String}
    (hown : OwnKey weight appId key) (hother : weight other ≠ weight appId) {hasServer : Bool} :
    ∀ key' ∈ writtenPortKeys other hasServer, weight key ≠ weight key' := by
  intro key' hkey' hsame
  obtain ⟨suffix, hsuffix, hkey⟩ := hown
  obtain ⟨suffix', hsuffix', rfl⟩ := mem_writtenPortKeys hkey'
  exact hother (hcollates.eq_of_portKey hsuffix hsuffix' (hkey.symm.trans hsame)).2.symm

/-- A request for another app leaves the rows of the app alone. -/
structure SameRows (s later : Registry weight) (appId : String) : Prop where
  settings : ∀ row : String × String, OwnKey weight appId row.1 →
    (row ∈ later.system_settings.rows ↔ row ∈ s.system_settings.rows)
  records : ∀ row : String × ExtraAppRecord, weight row.1 = weight appId →
    (row ∈ later.extra_apps.rows ↔ row ∈ s.extra_apps.rows)

theorem SameRows.trans {middle later : Registry weight} (hfirst : SameRows s middle appId)
    (hsecond : SameRows middle later appId) : SameRows s later appId :=
  ⟨fun row hown => (hsecond.settings row hown).trans (hfirst.settings row hown),
    fun row hrow => (hsecond.records row hrow).trans (hfirst.records row hrow)⟩

theorem sameRows_handle (hcollates : Collates weight) {request : Request}
    (hother : request.ForOther weight appId) : SameRows s (handle s request).2 appId := by
  generalize heffect : (handle s request).2 = later
  have hcases : Effect s request later := heffect ▸ effect_handle s request
  cases hcases with
  | nothing => exact ⟨fun _ _ => Iff.rfl, fun _ _ => Iff.rfl⟩
  | portsSaved other hnames app ports =>
      refine ⟨fun row hown => ?_, fun _ _ => Iff.rfl⟩
      exact mem_rows_savePorts_of_ne (hcollates.ne_of_ownKey hown (hother other hnames))
  | added other hnames app ports record =>
      refine ⟨fun row hown => ?_, fun row hrow => ?_⟩
      · exact mem_rows_savePorts_of_ne (hcollates.ne_of_ownKey hown (hother other hnames))
      · exact mem_rows_upsert_of_ne fun hsame => hother other hnames (hsame.symm.trans hrow)
  | removed other hnames hasServer =>
      refine ⟨fun row hown => ?_, fun row hrow => ?_⟩
      · rw [mem_rows_deletePorts]
        exact and_iff_left (hcollates.ne_of_ownKey hown (hother other hnames))
      · rw [mem_rows_erase]
        exact and_iff_left fun hsame => hother other hnames (hsame.symm.trans hrow)

theorem sameRows_execute (hcollates : Collates weight) {requests : List Request}
    (hothers : ∀ request ∈ requests, request.ForOther weight appId)
    (hrun : execute step s requests = some before) : SameRows s before appId := by
  induction requests generalizing s with
  | nil =>
      obtain rfl := Option.some.inj hrun
      exact ⟨fun _ _ => Iff.rfl, fun _ _ => Iff.rfl⟩
  | cons request requests ih =>
      rw [List.forall_mem_cons] at hothers
      exact (sameRows_handle hcollates hothers.1).trans (ih hothers.2 hrun)

/-! ## Adding and removing -/

theorem Fresh.not_mem (hfresh : Fresh s appId) {hasServer : Bool} {key : String}
    (hkey : key ∈ writtenPortKeys appId hasServer) :
    ∀ row ∈ s.system_settings.rows, weight row.1 ≠ weight key :=
  contains_eq_false_iff.mp (hfresh.ports key (writtenPortKeys_subset hkey))

theorem ownKey_of_mem {hasServer : Bool} {row key : String}
    (hkey : key ∈ writtenPortKeys appId hasServer) (hsame : weight row = weight key) :
    OwnKey weight appId row := by
  obtain ⟨suffix, hsuffix, rfl⟩ := mem_writtenPortKeys hkey
  exact ⟨suffix, hsuffix, hsame⟩

/-- What an addition writes are the rows of the app's port keys. -/
theorem written_iff {record : ExtraAppRecord} (hfresh : Fresh s appId)
    (hadded : Added s added appId record) {row : String × String}
    (hrow : row ∈ added.system_settings.rows) :
    Written s added row ↔ ∃ key ∈ writtenPortKeys appId record.has_server_component,
      weight row.1 = weight key := by
  obtain ⟨ports, -, hsaved⟩ := hadded.ports
  constructor
  · rintro ⟨-, hnew⟩
    by_contra hnone
    push Not at hnone
    rw [hsaved, mem_rows_savePorts_of_ne hnone] at hrow
    exact hnew hrow
  · rintro ⟨key, hkey, hsame⟩
    exact ⟨hrow, fun hold => hfresh.not_mem hkey row hold hsame⟩

theorem getApp_of_sameRows {record : ExtraAppRecord} (hadded : Added s added appId record)
    (hsame : SameRows added before appId) : getApp before appId = some record := by
  have hrow : (appId, record) ∈ added.extra_apps.rows := by
    rw [hadded.saved, rows_upsert_of_not_contains hadded.unknown]
    exact List.mem_append_right _ (List.mem_singleton_self _)
  have hbefore := (hsame.records (appId, record) rfl).mpr hrow
  have hid : record.app_id = appId := by
    obtain ⟨_, _, _, rfl⟩ := hadded.described
    rfl
  unfold getApp
  rw [row?_eq_some_of_mem hbefore rfl, Option.map_some]
  dsimp only
  rw [← hid]

theorem handleRemoveExtraApp_of_getApp {removal : Json} {record : ExtraAppRecord}
    (happ : removal.find? "app" = some (.string appId))
    (hrecord : getApp before appId = some record) :
    (handleRemoveExtraApp removal before).2 =
      { system_settings := deletePorts before.system_settings appId record.has_server_component
        extra_apps := before.extra_apps.erase appId } := by
  unfold handleRemoveExtraApp
  rw [happ]
  dsimp only [Json.getString]
  rw [hrecord]

theorem takesBack_of_sameRows {record : ExtraAppRecord} (hfresh : Fresh s appId)
    (hadded : Added s added appId record) (hsame : SameRows added before appId) :
    TakesBack s added before
      { system_settings := deletePorts before.system_settings appId record.has_server_component
        extra_apps := before.extra_apps.erase appId } appId where
  written := by
    intro row hwritten
    obtain ⟨key, hkey, hweight⟩ := (written_iff hfresh hadded hwritten.1).mp hwritten
    rw [contains_eq_false_iff]
    intro left hleft
    rw [hweight]
    exact (mem_rows_deletePorts.mp hleft).2 key hkey
  settings := by
    intro row
    rw [mem_rows_deletePorts]
    refine and_congr_right fun hbefore => ?_
    constructor
    · intro hnone hwritten
      obtain ⟨key, hkey, hweight⟩ := (written_iff hfresh hadded hwritten.1).mp hwritten
      exact hnone key hkey hweight
    · intro hnot key hkey hweight
      have hrow := (hsame.settings row (ownKey_of_mem hkey hweight)).mp hbefore
      exact hnot ((written_iff hfresh hadded hrow).mpr ⟨key, hkey, hweight⟩)
  record := by
    rw [contains_eq_false_iff]
    exact fun row hrow => (mem_rows_erase.mp hrow).2
  records := fun _ => mem_rows_erase

theorem removed_eq_of_added {record : ExtraAppRecord} (hcollates : Collates weight)
    (hfresh : Fresh s appId) (hadded : Added s added appId record) :
    ({ system_settings := deletePorts added.system_settings appId record.has_server_component
       extra_apps := added.extra_apps.erase appId } : Registry weight) = s := by
  obtain ⟨ports, -, hsaved⟩ := hadded.ports
  have hsettings : deletePorts added.system_settings appId record.has_server_component =
      s.system_settings := by
    apply eq_of_rows
    rw [rows_deletePorts, hsaved, rows_savePorts hcollates ports fun key hkey =>
      hfresh.ports key (writtenPortKeys_subset hkey), List.filter_append]
    have hold : s.system_settings.rows.filter (fun row =>
        ∀ key ∈ writtenPortKeys appId record.has_server_component, weight row.1 ≠ weight key) =
        s.system_settings.rows := by
      rw [List.filter_eq_self]
      exact fun row hrow => decide_eq_true fun key hkey => hfresh.not_mem hkey row hrow
    have hnew : (savedPorts appId record.has_server_component ports).filter (fun row =>
        ∀ key ∈ writtenPortKeys appId record.has_server_component, weight row.1 ≠ weight key) =
        [] := by
      rw [List.filter_eq_nil_iff]
      intro row hrow hnone
      have hkey := List.mem_map_of_mem (f := Prod.fst) hrow
      rw [map_fst_savedPorts] at hkey
      exact of_decide_eq_true hnone row.1 hkey rfl
    rw [hold, hnew, List.append_nil]
  have hrecords : added.extra_apps.erase appId = s.extra_apps := by
    rw [hadded.saved, erase_upsert_of_not_contains hfresh.record]
  rw [hsettings, hrecords]

end

theorem collates_id : Collates id where
  append := fun _ _ => rfl
  letter := fun c _ => ⟨c, rfl⟩
  fold := by
    intro c c' _ _ hsame
    obtain rfl : c = c' := by simpa using congrArg String.toList hsame
    rfl

def tasksUrl : String := "git@host:me/tasks.git"

/-- Adding `tasks` to a registry in which ports have been set by hand. -/
def addedTasks : Except Exn CmdResult × Registry id :=
  handleAddExtraApp ⟨fun _ => 0, fun _ => ""⟩ (.object [("repoUrl", .string tasksUrl)]) setByHand

def removeTasks : Json := .object [("app", .string "tasks")]

end ExtraApps

end AutomateLinux
