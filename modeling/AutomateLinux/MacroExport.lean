import AutomateLinux.InputMapper
import Mathlib.Data.List.ReduceOption

/-!
# Exporting macros

The macro table is exported to JSON for the tools that show it and loaded back
when they save it.  The exporter writes the message under another key than the
loader reads, leaves out whether noise breaks a trigger, and names the
applications with words that the loader takes for other applications.
-/

namespace AutomateLinux

namespace Json

/-- The order of the keys, character by character. -/
def keyLess (key key' : String) : Bool :=
  List.lex key.toList key'.toList fun c c' => c.toNat < c'.toNat

/-- `members[key] = value`, where the members are sorted by key. -/
def setMember (key : String) (value : Json) :
    List (String × Json) → List (String × Json)
  | [] => [(key, value)]
  | (key', value') :: rest =>
      if key = key' then (key, value) :: rest
      else if keyLess key key' then (key, value) :: (key', value') :: rest
      else (key', value') :: setMember key value rest

/-- An object with some members assigned one after the other. -/
def ofMembers (members : List (String × Json)) : Json :=
  object (members.foldl (fun stored member => setMember member.1 member.2 stored) [])

end Json

def appTypeToString : AppType → String
  | .TERMINAL => "TERMINAL"
  | .CHROME => "CHROME"
  | .CODE => "CODE"
  | .OTHER => "OTHER"

/-- An element of `triggerKeys`. -/
def exportStep (step : TriggerStep) : Json :=
  Json.ofMembers
    [("type", .number_unsigned step.type), ("code", .number_unsigned step.code),
      ("state", .number_integer step.value), ("suppress", .boolean step.suppress),
      ("ignoreRepeat", .boolean step.ignoreRepeat)]

def exportSequenceElement (sk : ℕ × Int) : Json :=
  .array [.number_unsigned sk.1, .number_integer sk.2]

def exportAction (action : KeyAction) : Json :=
  Json.ofMembers
    [("logMessage", .string action.logMessage),
      ("trigger", Json.ofMembers [("keys", .array (action.trigger.events.map exportStep))]),
      ("sequence", .array (action.keySequence.map exportSequenceElement)),
      ("hasHandler", .boolean action.customHandler.isSome)]

/-- `getMacrosJson`. -/
def getMacrosJson (appMacros_ : MacroTable) : Json :=
  Json.ofMembers (AppType.all.filterMap fun app =>
    (appMacros_ app).map fun macros =>
      (appTypeToString app, .array (macros.map exportAction)))

/-! ## Loading what was exported -/

/-- The ranges of `uint16_t` and `int32_t`. -/
def InUInt16 (n : ℕ) : Prop := n < 2 ^ 16

def InInt32 (z : Int) : Prop := -2 ^ 31 ≤ z ∧ z < 2 ^ 31

/-- A macro whose codes and values have the types of their fields. -/
structure KeyAction.WellTyped (action : KeyAction) : Prop where
  events : ∀ step ∈ action.trigger.events,
    InUInt16 step.type ∧ InUInt16 step.code ∧ InInt32 step.value
  keySequence : ∀ sk ∈ action.keySequence, InUInt16 sk.1 ∧ InInt32 sk.2

instance (action : KeyAction) : Decidable action.WellTyped :=
  decidable_of_iff
    ((∀ step ∈ action.trigger.events,
        (step.type < 2 ^ 16 ∧ step.code < 2 ^ 16 ∧ -2 ^ 31 ≤ step.value ∧ step.value < 2 ^ 31)) ∧
      ∀ sk ∈ action.keySequence, sk.1 < 2 ^ 16 ∧ -2 ^ 31 ≤ sk.2 ∧ sk.2 < 2 ^ 31)
    ⟨fun h => ⟨h.1, h.2⟩, fun h => ⟨h.events, h.keySequence⟩⟩

theorem getUInt_number_unsigned {n : ℕ} (hn : InUInt16 n) :
    (Json.number_unsigned n).getUInt 16 = .ok n := by
  unfold InUInt16 at hn
  have hwrap : Json.wrap 64 n = n := by
    unfold Json.wrap
    rw [Int.bmod_def]
    split <;> omega
  have hmod : ((n : Int) % 2 ^ 16).toNat = n := by omega
  show Except.map _ (Except.ok (Json.wrap 64 n)) = _
  rw [hwrap]
  exact congrArg Except.ok hmod

theorem getInt_number_integer {z : Int} (hz : InInt32 z) :
    (Json.number_integer z).getInt 32 = .ok z := by
  obtain ⟨hlower, hupper⟩ := hz
  have hwrap : Json.wrap 32 z = z := by
    unfold Json.wrap
    rw [Int.bmod_def]
    split <;> omega
  exact congrArg Except.ok hwrap

theorem loadStep_exportStep {step : TriggerStep}
    (hstep : InUInt16 step.type ∧ InUInt16 step.code ∧ InInt32 step.value) :
    loadStep (exportStep step) = .ok (some step) := by
  obtain ⟨htype, hcode, hvalue⟩ := hstep
  have hobject : exportStep step = .object
      [("code", .number_unsigned step.code), ("ignoreRepeat", .boolean step.ignoreRepeat),
        ("state", .number_integer step.value), ("suppress", .boolean step.suppress),
        ("type", .number_unsigned step.type)] := by
    simp [exportStep, Json.ofMembers, Json.setMember, Json.keyLess]
  rw [hobject]
  unfold loadStep
  simp only [Json.value, List.lookup_cons, String.reduceBEq, getUInt_number_unsigned htype,
    getUInt_number_unsigned hcode, getInt_number_integer hvalue, Json.getBool]
  rfl

theorem loadSequenceElement_export {sk : ℕ × Int} (hsk : InUInt16 sk.1 ∧ InInt32 sk.2) :
    loadSequenceElement (exportSequenceElement sk) = .ok (some sk) := by
  unfold loadSequenceElement exportSequenceElement
  dsimp only
  rw [getUInt_number_unsigned hsk.1, getInt_number_integer hsk.2]
  rfl

theorem loadElements_map {α : Type} {j : Json} {key : String}
    {load : Json → Except Exn (Option α)} {save : α → Json} {values : List α}
    (hfind : j.find? key = some (.array (values.map save)))
    (hload : ∀ value ∈ values, load (save value) = .ok (some value)) :
    loadElements j key load = .ok values := by
  have hmap : (values.map save).mapM load = .ok (values.map some) := by
    clear hfind
    induction values with
    | nil => rfl
    | cons value values ih =>
        have hrest := ih fun value' h => hload value' (List.mem_cons_of_mem value h)
        rw [List.map_cons, List.mapM_cons, hload value List.mem_cons_self, hrest]
        rfl
  unfold loadElements
  rw [hfind]
  show ((values.map save).mapM load).map _ = _
  rw [hmap]
  have hall : ∀ values : List α, (values.map some).reduceOption = values := by
    intro values
    induction values with
    | nil => exact List.reduceOption_nil
    | cons value values ih => rw [List.map_cons, List.reduceOption_cons_of_some, ih]
  exact congrArg Except.ok (hall values)

/-- What comes back of a macro. -/
def reloaded (action : KeyAction) : KeyAction :=
  { trigger :=
      { events := action.trigger.events
        hasSuppressedKeys := action.trigger.events.any TriggerStep.suppress
        noiseBreaks := true }
    keySequence := action.keySequence
    logMessage := "" }

theorem loadAction_exportAction {action : KeyAction} (htyped : action.WellTyped) :
    loadAction (exportAction action) = .ok (some (reloaded action)) := by
  have hobject : exportAction action = .object
      [("hasHandler", .boolean action.customHandler.isSome),
        ("logMessage", .string action.logMessage),
        ("sequence", .array (action.keySequence.map exportSequenceElement)),
        ("trigger", .object [("keys", .array (action.trigger.events.map exportStep))])] := by
    simp [exportAction, Json.ofMembers, Json.setMember, Json.keyLess]
  have hevents : loadElements
      (.object [("keys", .array (action.trigger.events.map exportStep))]) "keys" loadStep =
        .ok action.trigger.events :=
    loadElements_map rfl fun step hstep => loadStep_exportStep (htyped.events step hstep)
  have hsequence : loadElements (exportAction action) "sequence" loadSequenceElement =
      .ok action.keySequence := by
    have hfind : (exportAction action).find? "sequence" =
        some (.array (action.keySequence.map exportSequenceElement)) := by
      rw [hobject]
      simp [Json.find?, List.lookup_cons]
    exact loadElements_map hfind fun sk hsk =>
      loadSequenceElement_export (htyped.keySequence sk hsk)
  rw [hobject] at hsequence ⊢
  unfold loadAction
  simp only [Json.value, Json.find?, List.lookup_cons, List.lookup_nil, String.reduceBEq,
    Json.getBool]
  rw [hevents, hsequence]
  have hnone : containsText "" "ChatGPT" = false := by decide
  simp only [bind, Except.bind, hnone, Bool.and_false, Bool.false_eq_true, if_false]
  rfl

theorem loadApp_map (app : AppType) {macros : List KeyAction}
    (htyped : ∀ action ∈ macros, action.WellTyped) (loaded : List KeyAction)
    (table : MacroTable) :
    loadApp app (macros.map exportAction) loaded table =
      (.ok (),
        if macros = [] then table
        else Function.update table app (some (loaded ++ macros.map reloaded))) := by
  induction macros generalizing loaded table with
  | nil => rfl
  | cons action macros ih =>
      have hrest : ∀ action' ∈ macros, action'.WellTyped :=
        fun action' h => htyped action' (List.mem_cons_of_mem action h)
      have haction := loadAction_exportAction (htyped action List.mem_cons_self)
      rw [List.map_cons, loadApp, haction]
      dsimp only
      rw [ih hrest]
      by_cases hempty : macros = []
      · simp [hempty]
      · simp [hempty]

/-! ## The table that comes back -/

/-- The applications in the order of their names. -/
def AppType.sorted : List AppType := [.CHROME, .CODE, .OTHER, .TERMINAL]

/-- The lists of macros in the order of the applications' names. -/
def exported (table : MacroTable) : List (List KeyAction) := AppType.sorted.filterMap table

/-- The last list that is loaded at all. -/
def lastLoaded (table : MacroTable) : Option (List KeyAction) :=
  ((exported table).filter (· ≠ [])).getLast?

theorem getMacrosJson_eq (table : MacroTable) :
    getMacrosJson table =
      .object (AppType.sorted.filterMap fun app =>
        (table app).map fun macros =>
          (appTypeToString app, .array (macros.map exportAction))) := by
  unfold getMacrosJson AppType.all AppType.sorted
  cases hother : table .OTHER <;> cases hterminal : table .TERMINAL <;>
    cases hchrome : table .CHROME <;> cases hcode : table .CODE <;>
    simp [Json.ofMembers, Json.setMember, Json.keyLess, appTypeToString, hother, hterminal,
      hchrome, hcode]

/-- Every name that is exported is loaded as that of no known application. -/
theorem stringToAppType_appTypeToString (app : AppType) :
    stringToAppType (appTypeToString app) = .OTHER := by
  cases app <;> decide +kernel

theorem loadApps_exported (apps : List AppType) (table : MacroTable)
    (htyped : ∀ app ∈ apps, ∀ macros, table app = some macros →
      ∀ action ∈ macros, action.WellTyped)
    (stored : MacroTable) :
    loadApps
        (apps.filterMap fun app =>
          (table app).map fun macros =>
            (appTypeToString app, .array (macros.map exportAction)))
        stored =
      (.ok (),
        match ((apps.filterMap table).filter (· ≠ [])).getLast? with
        | none => stored
        | some macros => Function.update stored .OTHER (some (macros.map reloaded))) := by
  induction apps generalizing stored with
  | nil => rfl
  | cons app apps ih =>
      have hrest := ih fun app' h => htyped app' (List.mem_cons_of_mem app h)
      cases happ : table app with
      | none =>
          rw [List.filterMap_cons_none (by rw [happ]; rfl), List.filterMap_cons_none happ]
          exact hrest stored
      | some macros =>
          have hmacros := htyped app List.mem_cons_self macros happ
          rw [List.filterMap_cons_some (by rw [happ]; rfl), List.filterMap_cons_some happ,
            List.filter_cons, loadApps, stringToAppType_appTypeToString]
          have hload := loadApp_map .OTHER hmacros [] stored
          simp only [Json.elements]
          rw [hload]
          dsimp only
          rw [hrest]
          by_cases hempty : macros = []
          · simp [hempty]
          · have hkept : decide (macros ≠ []) = true := decide_eq_true hempty
            rw [if_neg hempty, if_pos hkept]
            cases hlast : ((apps.filterMap table).filter (· ≠ [])).getLast? with
            | none =>
                rw [List.getLast?_eq_none_iff.mp hlast]
                rfl
            | some last =>
                have hne : (apps.filterMap table).filter (· ≠ []) ≠ [] := by
                  intro hnil
                  rw [hnil] at hlast
                  exact absurd hlast (by simp)
                rw [List.getLast?_cons_of_ne_nil hne, hlast]
                dsimp only
                rw [Function.update_idem]

/-- Loading what was exported leaves the table as it was exactly when the table is
not empty and the list of `OTHER` is what comes back of the last list loaded, if
there is one. -/
theorem reload_eq_iff {m : InputMapper}
    (htyped : ∀ app macros, m.appMacros_ app = some macros →
      ∀ action ∈ macros, action.WellTyped) :
    (m.setMacrosFromJsonInternal (getMacrosJson m.appMacros_)).2.appMacros_ = m.appMacros_ ↔
      ¬ MacroTable.IsEmpty m.appMacros_ ∧
        ∀ macros ∈ lastLoaded m.appMacros_,
          m.appMacros_ .OTHER = some (macros.map reloaded) := by
  have hload := loadApps_exported AppType.sorted m.appMacros_
    fun app _ macros => htyped app macros
  have htable : (m.setMacrosFromJsonInternal (getMacrosJson m.appMacros_)).2.appMacros_ =
      match lastLoaded m.appMacros_ with
      | none => if MacroTable.IsEmpty m.appMacros_ then initialAppMacros else m.appMacros_
      | some macros =>
          Function.update
            (if MacroTable.IsEmpty m.appMacros_ then initialAppMacros else m.appMacros_)
            .OTHER (some (macros.map reloaded)) := by
    unfold InputMapper.setMacrosFromJsonInternal
    dsimp only
    rw [getMacrosJson_eq, loadMacros, hload]
    rfl
  rw [htable]
  by_cases hempty : MacroTable.IsEmpty m.appMacros_
  · have hnone : m.appMacros_ .OTHER = none := hempty .OTHER (by decide)
    have hne : ∀ table : MacroTable, (table .OTHER).isSome = true → table ≠ m.appMacros_ := by
      rintro table hsome rfl
      rw [hnone] at hsome
      exact Bool.noConfusion hsome
    rw [if_pos hempty]
    constructor
    · intro heq
      cases hlast : lastLoaded m.appMacros_ with
      | none =>
          rw [hlast] at heq
          exact absurd heq (hne _ rfl)
      | some macros =>
          rw [hlast] at heq
          dsimp only at heq
          exact absurd heq (hne _ (by rw [Function.update_self]; rfl))
    · exact fun h => absurd hempty h.1
  · rw [if_neg hempty]
    cases hlast : lastLoaded m.appMacros_ with
    | none => simp [hempty]
    | some macros =>
        dsimp only
        rw [Function.update_eq_self_iff]
        simp [hempty, eq_comm]

/-- A table whose only list is that of `OTHER`, with nothing to lose. -/
def plainTable : MacroTable
  | .OTHER => some [{ trigger := pressTrigger BTN_FORWARD
                      keySequence := typed [KEY_ENTER]
                      logMessage := "" }]
  | _ => none

theorem plainTable_reload_iff :
    (({ appMacros_ := plainTable } : InputMapper).setMacrosFromJsonInternal
        (getMacrosJson plainTable)).2.appMacros_ = plainTable ↔
      ¬ MacroTable.IsEmpty plainTable ∧
        ∀ macros ∈ lastLoaded plainTable, plainTable .OTHER = some (macros.map reloaded) := by
  apply reload_eq_iff (m := { appMacros_ := plainTable })
  intro app macros hmacros
  cases app with
  | OTHER =>
      obtain rfl := Option.some.inj hmacros
      decide
  | TERMINAL | CHROME | CODE => exact absurd hmacros (Option.some_ne_none macros).symm

/-- The built-in macros of `TERMINAL`, without their messages, replace those of
`OTHER`. -/
theorem initialAppMacros_not_reloaded :
    ¬ ∀ m : InputMapper,
      (∀ app macros, m.appMacros_ app = some macros → ∀ action ∈ macros, action.WellTyped) →
      (m.setMacrosFromJsonInternal (getMacrosJson m.appMacros_)).2.appMacros_ =
        m.appMacros_ := by
  intro hall
  have htyped : ∀ app macros, initialAppMacros app = some macros →
      ∀ action ∈ macros, action.WellTyped := by
    intro app macros hmacros
    cases app <;> obtain rfl := Option.some.inj hmacros <;> decide +kernel
  have hkept := congrFun (hall {} htyped) .OTHER
  revert hkept
  decide +kernel

end AutomateLinux
