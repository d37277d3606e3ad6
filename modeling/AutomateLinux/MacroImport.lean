import AutomateLinux.MacroExport

/-!
# Importing macros

`updateMacros` parses a text and overlays the macro table with it, member by
member and macro by macro, as the text is read.  What it leaves behind is
described by the assignments it makes to the applications, the last of which
counts, and by the first exception, if there is one.
-/

namespace AutomateLinux

/-! ## Assignments one after the other -/

section

variable {κ ν : Type*} [DecidableEq κ]

def assignAll (table : κ → Option ν) (rows : List (κ × ν)) : κ → Option ν :=
  rows.foldl (fun table row => Function.update table row.1 (some row.2)) table

/-- The value that the last assignment to a key gives it. -/
def lastAssigned (rows : List (κ × ν)) (key : κ) : Option ν :=
  ((rows.filter fun row => row.1 = key).getLast?).map Prod.snd

theorem assignAll_append (table : κ → Option ν) (rows more : List (κ × ν)) :
    assignAll table (rows ++ more) = assignAll (assignAll table rows) more :=
  List.foldl_append

theorem assignAll_apply (table : κ → Option ν) (rows : List (κ × ν)) (key : κ) :
    assignAll table rows key = (lastAssigned rows key).or (table key) := by
  induction rows using List.reverseRecOn with
  | nil => rfl
  | append_singleton rows row ih =>
      rw [assignAll_append]
      show Function.update (assignAll table rows) row.1 (some row.2) key = _
      unfold lastAssigned
      by_cases hkey : row.1 = key
      · simp [← hkey, List.filter_append]
      · rw [Function.update_of_ne (Ne.symm hkey), ih]
        simp [lastAssigned, List.filter_append, hkey]

theorem lastAssigned_of_nodup {rows : List (κ × ν)} (hnodup : (rows.map Prod.fst).Nodup)
    {row : κ × ν} (hmem : row ∈ rows) : lastAssigned rows row.1 = some row.2 := by
  induction rows with
  | nil => cases hmem
  | cons head rows ih =>
      rw [List.map_cons, List.nodup_cons] at hnodup
      rcases List.mem_cons.mp hmem with rfl | htail
      · have hnone : rows.filter (fun other => other.1 = row.1) = [] := by
          rw [List.filter_eq_nil_iff]
          intro other hother heq
          exact hnodup.1 (of_decide_eq_true heq ▸ List.mem_map_of_mem hother)
        simp [lastAssigned, hnone]
      · have hne : head.1 ≠ row.1 := fun heq =>
          hnodup.1 (heq ▸ List.mem_map_of_mem htail)
        have hrest := ih hnodup.2 htail
        unfold lastAssigned at hrest ⊢
        simpa [hne] using hrest

theorem lastAssigned_eq_none_iff {rows : List (κ × ν)} {key : κ} :
    lastAssigned rows key = none ↔ key ∉ rows.map Prod.fst := by
  simp only [lastAssigned, Option.map_eq_none_iff, List.getLast?_eq_none_iff,
    List.filter_eq_nil_iff, decide_eq_true_eq, List.mem_map, not_exists, not_and]

end

/-! ## What loading does -/

/-- The macros of a list up to the first that throws. -/
def loadedMacros : List Json → List KeyAction
  | [] => []
  | ma :: rest =>
      match loadAction ma with
      | .error _ => []
      | .ok action => action.toList ++ loadedMacros rest

/-- What the first macro that throws throws. -/
def macroError : List Json → Option Exn
  | [] => none
  | ma :: rest =>
      match loadAction ma with
      | .error e => some e
      | .ok _ => macroError rest

/-- The list an application is left with by one of its members, unless the
member has no macro or its first one throws. -/
def installedList : List Json → Option (List KeyAction)
  | [] => none
  | ma :: rest =>
      match loadAction ma with
      | .error _ => none
      | .ok action => some (action.toList ++ loadedMacros rest)

def errorStatus (error : Option Exn) : Except Exn Unit :=
  match error with
  | some e => .error e
  | none => .ok ()

theorem loadApp_eq (app : AppType) (items : List Json) (macros : List KeyAction)
    (table : MacroTable) :
    loadApp app items macros table =
      (errorStatus (macroError items),
        match installedList items with
        | some loaded => Function.update table app (some (macros ++ loaded))
        | none => table) := by
  induction items generalizing macros table with
  | nil => rfl
  | cons ma rest ih =>
      cases haction : loadAction ma with
      | error e => simp [loadApp, macroError, installedList, haction, errorStatus]
      | ok action =>
          simp only [loadApp, macroError, installedList, haction, ih]
          cases rest with
          | nil => simp [loadedMacros]
          | cons next rest =>
              cases hnext : loadAction next with
              | error e => simp [loadedMacros, hnext]
              | ok action' => simp [loadedMacros, hnext]

/-- The assignments that loading the members makes. -/
def installs : List (String × Json) → List (AppType × List KeyAction)
  | [] => []
  | (key, value) :: rest =>
      ((installedList value.elements).map fun macros => (stringToAppType key, macros)).toList ++
        if macroError value.elements = none then installs rest else []

def membersError : List (String × Json) → Option Exn
  | [] => none
  | (_, value) :: rest => (macroError value.elements).or (membersError rest)

theorem loadApps_eq (members : List (String × Json)) (table : MacroTable) :
    loadApps members table =
      (errorStatus (membersError members), assignAll table (installs members)) := by
  induction members generalizing table with
  | nil => rfl
  | cons member rest ih =>
      obtain ⟨key, value⟩ := member
      unfold loadApps installs membersError
      rw [loadApp_eq]
      cases herror : macroError value.elements with
      | some e => cases hlist : installedList value.elements <;> rfl
      | none =>
          dsimp only [errorStatus]
          rw [ih]
          cases hlist : installedList value.elements <;> rfl

/-- The members that are gone through, and what is thrown when there are none. -/
def Json.importMembers : Json → List (String × Json)
  | .object members => members
  | _ => []

def importError (j : Json) : Option Exn :=
  match j with
  | .object members => membersError members
  | j =>
      if j.elements.isEmpty then none
      else some ⟨"[json.exception.invalid_iterator.207] cannot use key() for " ++
        "non-object iterators"⟩

theorem loadMacros_eq (j : Json) (table : MacroTable) :
    loadMacros j table =
      (errorStatus (importError j), assignAll table (installs j.importMembers)) := by
  cases j with
  | object members => exact loadApps_eq members table
  | null | boolean | number_integer | number_unsigned | number_float | string => rfl
  | array items => cases items <;> rfl

/-! ## `updateMacros` -/

/-- The mapper and the saved configuration `custom_macros`. -/
structure MacroStore where
  mapper : InputMapper
  custom_macros : Option String

namespace MacroStore

variable (parse : String → Except Exn Json) (dump : Json → String)

/-- `ConfigTable::setConfig`, which only logs what the database throws. -/
def setConfig (stored : Bool) (text : String) (s : MacroStore) : MacroStore :=
  if stored then { s with custom_macros := some text } else s

def setMacrosFromJson (stored : Bool) (j : Json) (s : MacroStore) :
    Except Exn Unit × MacroStore :=
  match s.mapper.setMacrosFromJsonInternal j with
  | (.error e, mapper) => (.error e, { s with mapper })
  | (.ok (), mapper) => (.ok (), { s with mapper }.setConfig stored (dump j))

/-- The body of the `try` block. -/
def parseAndSetMacros (stored : Bool) (value : Json) (s : MacroStore) :
    Except Exn Unit × MacroStore :=
  match value.getString with
  | .error e => (.error e, s)
  | .ok text =>
      match parse text with
      | .error e => (.error e, s)
      | .ok j => s.setMacrosFromJson dump stored j

def handleUpdateMacros (stored : Bool) (value : Json) (s : MacroStore) :
    CmdResult × MacroStore :=
  match s.parseAndSetMacros parse dump stored value with
  | (.ok (), s) => (⟨0, "Macros updated successfully"⟩, s)
  | (.error e, s) => (⟨1, "Failed to parse macros: " ++ e.what⟩, s)

/-- The macros, the progress of the combos, what they withhold and what is saved
are the same. -/
structure SameMacros (s s' : MacroStore) : Prop where
  appMacros_ : ∀ app, s'.mapper.appMacros_ app = s.mapper.appMacros_ app
  progress : ∀ app comboIdx, s'.mapper.combo app comboIdx = s.mapper.combo app comboIdx
  withheld : s'.mapper.suppressionRegistry_ = s.mapper.suppressionRegistry_
  custom_macros : s'.custom_macros = s.custom_macros

/-- Nothing is in progress, and the assignments made for a value give every
application the list it already has. -/
structure NothingToUndo (m : InputMapper) (j : Json) : Prop where
  progress : ∀ app comboIdx, m.combo app comboIdx = {}
  notEmpty : ¬ MacroTable.IsEmpty m.appMacros_
  assigned : ∀ app macros, lastAssigned (installs j.importMembers) app = some macros →
    m.appMacros_ app = some macros

theorem SameMacros.refl (s : MacroStore) : SameMacros s s :=
  ⟨fun _ => rfl, fun _ _ => rfl, rfl, rfl⟩

theorem setMacrosFromJsonInternal_eq (m : InputMapper) (j : Json) :
    m.setMacrosFromJsonInternal j =
      (errorStatus (importError j),
        { m with
          appMacros_ := assignAll
            (if MacroTable.IsEmpty m.appMacros_ then initialAppMacros else m.appMacros_)
            (installs j.importMembers)
          comboProgress_ := fun _ => OrderedMap.empty }) := by
  unfold InputMapper.setMacrosFromJsonInternal
  dsimp only
  rw [loadMacros_eq]

/-- The assignments leave the table as it is exactly when it is not empty and they
give every application the list it has. -/
theorem assignAll_eq_iff (table : MacroTable) (rows : List (AppType × List KeyAction)) :
    (∀ app, assignAll (if MacroTable.IsEmpty table then initialAppMacros else table) rows app =
        table app) ↔
      ¬ MacroTable.IsEmpty table ∧
        ∀ app macros, lastAssigned rows app = some macros → table app = some macros := by
  simp only [assignAll_apply]
  by_cases hempty : MacroTable.IsEmpty table
  · have hnone : table .OTHER = none := hempty .OTHER (by decide)
    rw [if_pos hempty]
    constructor
    · intro hsame
      have hother := hsame .OTHER
      rw [hnone, Option.or_eq_none_iff] at hother
      exact absurd hother.2 (by decide)
    · exact fun h => absurd hempty h.1
  · rw [if_neg hempty]
    constructor
    · refine fun hsame => ⟨hempty, fun app macros hlast => ?_⟩
      rw [← hsame app, hlast]
      rfl
    · rintro ⟨-, hsame⟩ app
      cases hlast : lastAssigned rows app with
      | none => rfl
      | some macros => exact (hsame app macros hlast).symm

theorem failedImport_sameMacros_iff (s : MacroStore) (j : Json) :
    SameMacros s { s with mapper := (s.mapper.setMacrosFromJsonInternal j).2 } ↔
      NothingToUndo s.mapper j := by
  rw [setMacrosFromJsonInternal_eq]
  constructor
  · intro hsame
    obtain ⟨hnotEmpty, hassigned⟩ := (assignAll_eq_iff _ _).mp hsame.appMacros_
    exact ⟨fun app comboIdx => (hsame.progress app comboIdx).symm, hnotEmpty, hassigned⟩
  · intro hnothing
    exact ⟨(assignAll_eq_iff _ _).mpr ⟨hnothing.notEmpty, hnothing.assigned⟩,
      fun app comboIdx => (hnothing.progress app comboIdx).symm, rfl, rfl⟩

/-- What the value parses to, if it is a string that parses. -/
def parsedValue (value : Json) : Option Json :=
  match value with
  | .string text => (parse text).toOption
  | _ => none

/-- An update that fails changes nothing exactly when its value is no string or
does not parse, or what it parses to is imported without an exception, or all
that is done before the exception changes nothing. -/
theorem handleUpdateMacros_sameMacros_iff (stored : Bool) (value : Json) (s : MacroStore) :
    ((s.handleUpdateMacros parse dump stored value).1.status ≠ 0 →
        SameMacros s (s.handleUpdateMacros parse dump stored value).2) ↔
      ∀ j ∈ parsedValue parse value, importError j ≠ none → NothingToUndo s.mapper j := by
  unfold handleUpdateMacros parseAndSetMacros parsedValue
  cases value with
  | string text =>
      cases hparse : parse text with
      | error e => simp [Json.getString, hparse, SameMacros.refl, Except.toOption]
      | ok j =>
          have hfailed := failedImport_sameMacros_iff s j
          rw [setMacrosFromJsonInternal_eq] at hfailed
          simp only [Json.getString, hparse, setMacrosFromJson, setMacrosFromJsonInternal_eq,
            Except.toOption, Option.mem_def, Option.some.injEq, forall_eq']
          cases herror : importError j with
          | none => simp [errorStatus]
          | some e => simpa [errorStatus] using hfailed
  | null | boolean | number_integer | number_unsigned | number_float | array | object =>
      simp [Json.getString, SameMacros.refl]

/-- A list of two macros, the second of which is a number. -/
def halfBadMacros : Json :=
  .object [("code", .array [.object [("trigger", .object [])], .number_unsigned 5])]

def halfBadText : String :=
  "\x7b\"code\": [\x7b\"trigger\": \x7b\x7d\x7d, 5]\x7d"

/-- The first macro replaces the list of `CODE`, the second one throws. -/
theorem handleUpdateMacros_halfInstalled :
    ¬ ∀ (parse : String → Except Exn Json) (dump : Json → String) (stored : Bool)
        (value : Json) (s : MacroStore),
      (s.handleUpdateMacros parse dump stored value).1.status ≠ 0 →
        SameMacros s (s.handleUpdateMacros parse dump stored value).2 := by
  intro hall
  have hsame := hall (fun text => if text = halfBadText then .ok halfBadMacros else
    .error ⟨"parse_error"⟩) (fun _ => "") true (.string halfBadText) ⟨{}, none⟩
  have hcode := (hsame (by decide +kernel)).appMacros_ .CODE
  revert hcode
  decide +kernel

end MacroStore

/-! ## What a text lists -/

namespace Json

def IsUInt16 (j : Json) (n : ℕ) : Prop := InUInt16 n ∧ j = .number_unsigned n

def IsInt32 (j : Json) (z : Int) : Prop :=
  InInt32 z ∧ (j = .number_integer z ∨ ∃ n : ℕ, z = n ∧ j = .number_unsigned n)

def IsBoolean (j : Json) (b : Bool) : Prop := j = .boolean b

def IsText (j : Json) (text : String) : Prop := j = .string text

/-- An array with an element for each of some values. -/
def IsArrayOf {α : Type} (reads : Json → α → Prop) (j : Json) (values : List α) : Prop :=
  ∃ items, j = .array items ∧ List.Forall₂ reads items values

/-- A member or an element has a value, or is missing and the value is the
default. -/
def ReadsOr {α : Type} (reads : Json → α → Prop) (fallback : α) (j : Option Json) (a : α) :
    Prop :=
  match j with
  | some j => reads j a
  | none => a = fallback

end Json

/-- The two encodings of a trigger step. -/
inductive StepEncoding : Json → TriggerStep → Prop
  | object {members : List (String × Json)} {step : TriggerStep}
      (type : Json.ReadsOr Json.IsUInt16 EV_KEY ((Json.object members).find? "type") step.type)
      (code : Json.ReadsOr Json.IsUInt16 0 ((Json.object members).find? "code") step.code)
      (state : Json.ReadsOr Json.IsInt32 0 ((Json.object members).find? "state") step.value)
      (suppress :
        Json.ReadsOr Json.IsBoolean false ((Json.object members).find? "suppress") step.suppress)
      (ignoreRepeat :
        Json.ReadsOr Json.IsBoolean false ((Json.object members).find? "ignoreRepeat")
          step.ignoreRepeat) :
      StepEncoding (.object members) step
  | array {first second : Json} {rest : List Json} {step : TriggerStep}
      (type : step.type = EV_KEY) (code : first.IsUInt16 step.code)
      (state : second.IsInt32 step.value)
      (suppress : Json.ReadsOr Json.IsBoolean false rest[0]? step.suppress)
      (ignoreRepeat : Json.ReadsOr Json.IsBoolean false rest[1]? step.ignoreRepeat) :
      StepEncoding (.array (first :: second :: rest)) step

inductive SequenceEncoding : Json → ℕ × Int → Prop
  | array {first second : Json} {rest : List Json} {code : ℕ} {value : Int}
      (hcode : first.IsUInt16 code) (hvalue : second.IsInt32 value) :
      SequenceEncoding (.array (first :: second :: rest)) (code, value)

/-- The JSON value is that of the macro. -/
structure MacroEncoding (ma : Json) (action : KeyAction) : Prop where
  isObject : ma.is_object = true
  message : Json.ReadsOr Json.IsText "" (ma.find? "message") action.logMessage
  trigger : ∃ trigger, ma.find? "trigger" = some trigger ∧ trigger.is_object = true ∧
    Json.ReadsOr Json.IsBoolean true (trigger.find? "noiseBreaks") action.trigger.noiseBreaks ∧
    Json.ReadsOr (Json.IsArrayOf StepEncoding) [] (trigger.find? "keys") action.trigger.events
  hasSuppressedKeys :
    action.trigger.hasSuppressedKeys = action.trigger.events.any TriggerStep.suppress
  sequence :
    Json.ReadsOr (Json.IsArrayOf SequenceEncoding) [] (ma.find? "sequence") action.keySequence
  handler : ∃ hasHandler,
    Json.ReadsOr Json.IsBoolean false (ma.find? "hasHandler") hasHandler ∧
    action.customHandler =
      if hasHandler && containsText action.logMessage "ChatGPT" then
        some .triggerChromeChatGPTMacro
      else none

/-- The members name the applications and list their macros. -/
def ListsMacros (members : List (String × Json)) (named : List (AppType × List KeyAction)) :
    Prop :=
  List.Forall₂ (fun member row => stringToAppType member.1 = row.1 ∧
    Json.IsArrayOf MacroEncoding member.2 row.2) members named

theorem getUInt_of_isUInt16 (j : Json) (n : ℕ) (hj : j.IsUInt16 n) : j.getUInt 16 = .ok n := by
  obtain ⟨hn, rfl⟩ := hj
  exact getUInt_number_unsigned hn

theorem getInt_of_isInt32 (j : Json) (z : Int) (hj : j.IsInt32 z) : j.getInt 32 = .ok z := by
  obtain ⟨hz, rfl | ⟨n, rfl, rfl⟩⟩ := hj
  · exact getInt_number_integer hz
  · exact getInt_number_integer hz

theorem getBool_of_isBoolean (j : Json) (b : Bool) (hj : j.IsBoolean b) : j.getBool = .ok b := by
  obtain rfl := hj
  rfl

theorem getString_of_isText (j : Json) (text : String) (hj : j.IsText text) :
    j.getString = .ok text := by
  obtain rfl := hj
  rfl

theorem value_of_readsOr {α : Type} {reads : Json → α → Prop} {get : Json → Except Exn α}
    (hget : ∀ j a, reads j a → get j = .ok a) {j : Json} (hobject : j.is_object = true)
    {key : String} {fallback a : α} (hreads : Json.ReadsOr reads fallback (j.find? key) a) :
    j.value key get fallback = .ok a := by
  obtain ⟨members, rfl⟩ : ∃ members, j = .object members := by
    cases j <;> simp [Json.is_object] at hobject ⊢
  unfold Json.ReadsOr Json.find? at hreads
  unfold Json.value
  dsimp only at hreads ⊢
  cases hfind : members.lookup key with
  | none =>
      rw [hfind] at hreads
      exact congrArg Except.ok hreads.symm
  | some member =>
      rw [hfind] at hreads
      exact hget _ _ hreads

theorem getD_of_readsOr {α : Type} {reads : Json → α → Prop} {get : Json → Except Exn α}
    (hget : ∀ j a, reads j a → get j = .ok a) {j : Option Json} {fallback a : α}
    (hreads : Json.ReadsOr reads fallback j a) : (j.map get).getD (.ok fallback) = .ok a := by
  cases j with
  | none => exact congrArg Except.ok (show a = fallback from hreads).symm
  | some j => exact hget _ _ hreads

theorem loadElements_of_readsOr {α : Type} {reads : Json → α → Prop}
    {load : Json → Except Exn (Option α)}
    (hload : ∀ j a, reads j a → load j = .ok (some a)) {j : Json} {key : String}
    {values : List α} (hreads : Json.ReadsOr (Json.IsArrayOf reads) [] (j.find? key) values) :
    loadElements j key load = .ok values := by
  unfold loadElements
  cases hfind : j.find? key with
  | none =>
      rw [hfind] at hreads
      exact congrArg Except.ok (show values = [] from hreads).symm
  | some member =>
      rw [hfind] at hreads
      obtain ⟨items, rfl, hitems⟩ := hreads
      have hmap : items.mapM load = .ok (values.map some) := by
        clear hfind
        induction hitems with
        | nil => rfl
        | cons hhead _ ih =>
            rw [List.mapM_cons, hload _ _ hhead, ih]
            rfl
      have hall : (values.map some).reduceOption = values := by
        simp [List.reduceOption]
      show (items.mapM load).map _ = _
      rw [hmap]
      exact congrArg Except.ok hall

theorem loadStep_of_encoding (tk : Json) (step : TriggerStep) (hstep : StepEncoding tk step) :
    loadStep tk = .ok (some step) := by
  cases hstep with
  | @object members _ type code state suppress ignoreRepeat =>
      have hobject : (Json.object members).is_object = true := rfl
      have htype := value_of_readsOr getUInt_of_isUInt16 hobject type
      have hcode := value_of_readsOr getUInt_of_isUInt16 hobject code
      have hstate := value_of_readsOr getInt_of_isInt32 hobject state
      have hsuppress := value_of_readsOr getBool_of_isBoolean hobject suppress
      have hignore := value_of_readsOr getBool_of_isBoolean hobject ignoreRepeat
      unfold loadStep
      dsimp only
      rw [htype, hcode, hstate, hsuppress, hignore]
      rfl
  | @array first second rest _ type code state suppress ignoreRepeat =>
      have hsuppress := getD_of_readsOr getBool_of_isBoolean suppress
      have hignore := getD_of_readsOr getBool_of_isBoolean ignoreRepeat
      unfold loadStep
      dsimp only
      rw [getUInt_of_isUInt16 _ _ code, getInt_of_isInt32 _ _ state, hsuppress, hignore, ← type]
      rfl

theorem loadSequenceElement_of_encoding (seq : Json) (sk : ℕ × Int)
    (hseq : SequenceEncoding seq sk) : loadSequenceElement seq = .ok (some sk) := by
  obtain ⟨hcode, hvalue⟩ := hseq
  unfold loadSequenceElement
  dsimp only
  rw [getUInt_of_isUInt16 _ _ hcode, getInt_of_isInt32 _ _ hvalue]
  rfl

theorem loadAction_of_encoding {ma : Json} {action : KeyAction} (hma : MacroEncoding ma action) :
    loadAction ma = .ok (some action) := by
  obtain ⟨trigger, hfind, hobject, hnoise, hkeys⟩ := hma.trigger
  obtain ⟨hasHandler, hreads, hhandler⟩ := hma.handler
  have hmessage := value_of_readsOr getString_of_isText hma.isObject hma.message
  have hnoiseBreaks := value_of_readsOr getBool_of_isBoolean hobject hnoise
  have hevents := loadElements_of_readsOr loadStep_of_encoding hkeys
  have hsequence := loadElements_of_readsOr loadSequenceElement_of_encoding hma.sequence
  have hhasHandler := value_of_readsOr getBool_of_isBoolean hma.isObject hreads
  unfold loadAction
  rw [hmessage, hfind]
  simp only [bind, Except.bind, hnoiseBreaks, hevents, hsequence, hhasHandler,
    ← hma.hasSuppressedKeys, ← hhandler]
  rfl

theorem loaded_of_encodings {items : List Json} {macros : List KeyAction}
    (hitems : List.Forall₂ MacroEncoding items macros) :
    loadedMacros items = macros ∧ macroError items = none := by
  induction hitems with
  | nil => exact ⟨rfl, rfl⟩
  | cons hhead _ ih =>
      have haction := loadAction_of_encoding hhead
      exact ⟨by simp [loadedMacros, haction, ih.1], by simp [macroError, haction, ih.2]⟩

theorem installedList_of_encodings {items : List Json} {macros : List KeyAction}
    (hitems : List.Forall₂ MacroEncoding items macros) :
    installedList items = if macros = [] then none else some macros := by
  cases hitems with
  | nil => rfl
  | cons hhead hrest =>
      simp [installedList, loadAction_of_encoding hhead, (loaded_of_encodings hrest).1]

/-- Only lists that are not empty are assigned. -/
theorem installs_of_listsMacros {members : List (String × Json)}
    {named : List (AppType × List KeyAction)} (hlists : ListsMacros members named) :
    installs members = named.filter (fun row => row.2 ≠ []) ∧ membersError members = none := by
  induction hlists with
  | nil => exact ⟨rfl, rfl⟩
  | @cons member row members named hhead _ ih =>
      obtain ⟨key, value⟩ := member
      obtain ⟨app, macros⟩ := row
      obtain ⟨rfl, items, rfl, hitems⟩ := hhead
      have herror : macroError (Json.array items).elements = none :=
        (loaded_of_encodings hitems).2
      have hinstalled : installedList (Json.array items).elements = _ :=
        installedList_of_encodings hitems
      refine ⟨?_, by simp [membersError, herror, ih.2]⟩
      unfold installs
      rw [herror, hinstalled, if_pos rfl, ih.1]
      by_cases hempty : macros = []
      · simp [hempty]
      · simp [hempty]

/-- The macro list of an application; one without a list has no macros. -/
def InputMapper.macrosOf (m : InputMapper) (app : AppType) : List KeyAction :=
  (m.appMacros_ app).getD []

namespace MacroStore

theorem initialAppMacros_ne_nil (app : AppType) : (initialAppMacros app).getD [] ≠ [] := by
  cases app <;> decide +kernel

/-- What the import leaves an application with. -/
theorem macrosOf_setMacrosFromJson (dump : Json → String) (stored : Bool) (s : MacroStore)
    {members : List (String × Json)} {named : List (AppType × List KeyAction)}
    (hlists : ListsMacros members named) (app : AppType) :
    (s.setMacrosFromJson dump stored (.object members)).2.mapper.macrosOf app =
      ((lastAssigned (named.filter fun row => row.2 ≠ []) app).or
        (if MacroTable.IsEmpty s.mapper.appMacros_ then initialAppMacros app
          else s.mapper.appMacros_ app)).getD [] := by
  obtain ⟨hinstalls, hnone⟩ := installs_of_listsMacros hlists
  have herror : importError (.object members) = none := hnone
  unfold setMacrosFromJson
  rw [setMacrosFromJsonInternal_eq, herror]
  unfold InputMapper.macrosOf
  have hkept : ∀ m : InputMapper,
      (setConfig stored (dump (.object members)) { s with mapper := m }).mapper = m := by
    intro m
    unfold setConfig
    split <;> rfl
  dsimp only [errorStatus]
  rw [hkept]
  dsimp only
  rw [show (Json.object members).importMembers = members from rfl, hinstalls, assignAll_apply]
  split <;> rfl

theorem lastAssigned_filter {named : List (AppType × List KeyAction)}
    (hdistinct : (named.map Prod.fst).Nodup) {row : AppType × List KeyAction} (hmem : row ∈ named) :
    lastAssigned (named.filter fun row => row.2 ≠ []) row.1 =
      if row.2 = [] then none else some row.2 := by
  split
  · rename_i hempty
    rw [lastAssigned_eq_none_iff]
    intro hfiltered
    obtain ⟨other, hother, heq⟩ := List.mem_map.mp hfiltered
    obtain ⟨hnamed, hne⟩ := List.mem_filter.mp hother
    have hsame : other = row := List.inj_on_of_nodup_map hdistinct hnamed hmem heq
    exact of_decide_eq_true hne (hsame ▸ hempty)
  · rename_i hne
    have hsub : ((named.filter fun row => row.2 ≠ []).map Prod.fst).Nodup :=
      hdistinct.sublist (List.Sublist.map Prod.fst List.filter_sublist)
    exact lastAssigned_of_nodup hsub (List.mem_filter.mpr ⟨hmem, decide_eq_true hne⟩)

theorem lastAssigned_filter_of_not_mem {named : List (AppType × List KeyAction)} {app : AppType}
    (hnot : app ∉ named.map Prod.fst) :
    lastAssigned (named.filter fun row => row.2 ≠ []) app = none := by
  rw [lastAssigned_eq_none_iff]
  intro hfiltered
  obtain ⟨row, hrow, heq⟩ := List.mem_map.mp hfiltered
  exact hnot (List.mem_map.mpr ⟨row, (List.mem_filter.mp hrow).1, heq⟩)

theorem macrosOf_of_isEmpty {m : InputMapper} (hempty : MacroTable.IsEmpty m.appMacros_)
    (app : AppType) : m.macrosOf app = [] := by
  unfold InputMapper.macrosOf
  rw [hempty app (AppType.mem_all app)]
  rfl

/-- An import gives the applications it names the lists it has for them, and
leaves the others alone, exactly when those for which it lists nothing have no
macros, and, where the table has no list at all, it lists macros for every
application. -/
theorem setMacrosFromJson_installs_iff (dump : Json → String) (stored : Bool) (s : MacroStore)
    {members : List (String × Json)} {named : List (AppType × List KeyAction)}
    (hlists : ListsMacros members named) (hdistinct : (named.map Prod.fst).Nodup) :
    ((∀ row ∈ named,
        (s.setMacrosFromJson dump stored (.object members)).2.mapper.macrosOf row.1 = row.2) ∧
      ∀ app, app ∉ named.map Prod.fst →
        (s.setMacrosFromJson dump stored (.object members)).2.mapper.macrosOf app =
          s.mapper.macrosOf app) ↔
      (∀ row ∈ named, row.2 = [] → s.mapper.macrosOf row.1 = []) ∧
        (MacroTable.IsEmpty s.mapper.appMacros_ →
          ∀ app, ∃ row ∈ named, row.1 = app ∧ row.2 ≠ []) := by
  simp only [macrosOf_setMacrosFromJson dump stored s hlists]
  by_cases hempty : MacroTable.IsEmpty s.mapper.appMacros_
  · have hnoMacros : ∀ app, s.mapper.macrosOf app = [] := macrosOf_of_isEmpty hempty
    simp only [hempty, if_true, hnoMacros, implies_true, true_and, forall_true_left]
    constructor
    · rintro ⟨hnamed, hothers⟩ app
      by_cases hmem : app ∈ named.map Prod.fst
      · obtain ⟨row, hrow, rfl⟩ := List.mem_map.mp hmem
        refine ⟨row, hrow, rfl, fun hnil => ?_⟩
        have hkept := hnamed row hrow
        rw [lastAssigned_filter hdistinct hrow, if_pos hnil, hnil] at hkept
        exact initialAppMacros_ne_nil row.1 hkept
      · have hkept := hothers app hmem
        rw [lastAssigned_filter_of_not_mem hmem] at hkept
        exact absurd hkept (initialAppMacros_ne_nil app)
    · intro hall
      refine ⟨fun row hrow => ?_, fun app hnot => ?_⟩
      · obtain ⟨other, hother, heq, hne⟩ := hall row.1
        obtain rfl : other = row := List.inj_on_of_nodup_map hdistinct hother hrow heq
        rw [lastAssigned_filter hdistinct hrow, if_neg hne]
        rfl
      · obtain ⟨row, hrow, rfl, -⟩ := hall app
        exact absurd (List.mem_map_of_mem hrow) hnot
  · simp only [hempty, if_false, false_implies, and_true]
    constructor
    · rintro ⟨hnamed, -⟩ row hrow hnil
      have hkept := hnamed row hrow
      rw [lastAssigned_filter hdistinct hrow, if_pos hnil, hnil] at hkept
      exact hkept
    · intro hkept
      refine ⟨fun row hrow => ?_, fun app hnot => ?_⟩
      · rw [lastAssigned_filter hdistinct hrow]
        split
        · rename_i hnil
          rw [hnil]
          exact hkept row hrow hnil
        · rfl
      · rw [lastAssigned_filter_of_not_mem hnot]
        rfl

/-- A macro for the Caps Lock key, and its text, in which the two steps of the trigger are
written in different ways. -/
def capsMacro : KeyAction where
  trigger :=
    { events := [⟨EV_KEY, 58, 1, true, false⟩, ⟨EV_KEY, 58, 0, false, false⟩]
      hasSuppressedKeys := true }
  keySequence := [(30, 1), (30, 0)]
  logMessage := "Caps"

def capsText : Json :=
  .object [("message", .string "Caps"),
    ("sequence", .array [.array [.number_unsigned 30, .number_unsigned 1],
      .array [.number_unsigned 30, .number_unsigned 0]]),
    ("trigger", .object [("keys",
      .array [.array [.number_unsigned 58, .number_unsigned 1, .boolean true],
        .object [("code", .number_unsigned 58), ("state", .number_unsigned 0)]])])]

theorem isUInt16_number_unsigned {n : ℕ} (hn : n < 2 ^ 16) :
    (Json.number_unsigned n).IsUInt16 n := ⟨hn, rfl⟩

theorem isInt32_number_unsigned {n : ℕ} (hn : n < 2 ^ 31) :
    (Json.number_unsigned n).IsInt32 n :=
  ⟨⟨by omega, by exact_mod_cast hn⟩, Or.inr ⟨n, rfl, rfl⟩⟩

theorem capsText_encoding : MacroEncoding capsText capsMacro where
  isObject := rfl
  message := rfl
  trigger := by
    refine ⟨_, rfl, rfl, rfl, _, rfl, .cons ?_ (.cons ?_ .nil)⟩
    · exact .array rfl (isUInt16_number_unsigned (by decide))
        (isInt32_number_unsigned (by decide)) rfl rfl
    · exact .object rfl (isUInt16_number_unsigned (by decide))
        (isInt32_number_unsigned (by decide)) rfl rfl
  hasSuppressedKeys := rfl
  sequence := by
    refine ⟨_, rfl, .cons ?_ (.cons ?_ .nil)⟩
    · exact .array (isUInt16_number_unsigned (by decide)) (isInt32_number_unsigned (by decide))
    · exact .array (isUInt16_number_unsigned (by decide)) (isInt32_number_unsigned (by decide))
  handler := ⟨false, rfl, rfl⟩

/-- Only the terminal has macros. -/
def terminalOnly : MacroStore where
  mapper := { appMacros_ := fun app => if app = .TERMINAL then some [capsMacro] else none }
  custom_macros := none

/-- What is left of it after the macro is imported for two applications. -/
def capsImported : MacroStore :=
  (terminalOnly.setMacrosFromJson (fun _ => "") true
    (.object [("code", .array [capsText]), ("google-chrome", .array [capsText])])).2

theorem capsMacro_installed :
    (∀ row ∈ [(AppType.CODE, [capsMacro]), (AppType.CHROME, [capsMacro])],
        capsImported.mapper.macrosOf row.1 = row.2) ∧
      ∀ app, app ∉ [(AppType.CODE, [capsMacro]), (AppType.CHROME, [capsMacro])].map Prod.fst →
        capsImported.mapper.macrosOf app = terminalOnly.mapper.macrosOf app := by
  have hcaps : Json.IsArrayOf MacroEncoding (.array [capsText]) [capsMacro] :=
    ⟨[capsText], rfl, .cons capsText_encoding .nil⟩
  have hlists : ListsMacros
      [("code", .array [capsText]), ("google-chrome", .array [capsText])]
      [(AppType.CODE, [capsMacro]), (AppType.CHROME, [capsMacro])] :=
    .cons ⟨by decide +kernel, hcaps⟩ (.cons ⟨by decide +kernel, hcaps⟩ .nil)
  refine (setMacrosFromJson_installs_iff (fun _ => "") true terminalOnly hlists
    (by decide)).mpr ⟨by decide, fun hempty => ?_⟩
  exact absurd (hempty .TERMINAL (by decide)) (by decide)

/-- The empty list for `code` leaves the built-in macros of `CODE`. -/
theorem emptyList_not_installed :
    ¬ ∀ (dump : Json → String) (stored : Bool) (s : MacroStore)
        (members : List (String × Json)) (named : List (AppType × List KeyAction)),
      ListsMacros members named → (named.map Prod.fst).Nodup →
      (∀ row ∈ named,
        (s.setMacrosFromJson dump stored (.object members)).2.mapper.macrosOf row.1 = row.2) ∧
      ∀ app, app ∉ named.map Prod.fst →
        (s.setMacrosFromJson dump stored (.object members)).2.mapper.macrosOf app =
          s.mapper.macrosOf app := by
  intro hall
  have hcode := (hall (fun _ => "") true ⟨{}, none⟩ [("code", .array [])] [(.CODE, [])]
    (.cons ⟨by decide +kernel, [], rfl, .nil⟩ .nil) (by decide)).1 (.CODE, []) (by decide)
  revert hcode
  decide +kernel

end MacroStore

end AutomateLinux
