import AutomateLinux.InputMapperSoundness

/-!
# Combo progress stays in range

The progress counters and the macro tables are separate maps keyed by
application and position.  The invariant that explains a mapper by its trail
bounds every stored counter by its trigger; the turns of the macro loop start
from such mappers, so each of them finds the step it expects.
-/

namespace AutomateLinux

open TransitionSystem

namespace InputMapper

variable {m m' : InputMapper} {app : AppType} {input : Input}

/-- The counters stored for the macros that exist and have a trigger are short of
the trigger's length. -/
def ProgressInRange (m : InputMapper) : Prop :=
  ∀ app macros comboIdx action state, m.appMacros_ app = some macros →
    macros[comboIdx]? = some action → action.trigger.events ≠ [] →
      (m.comboProgress_ app).get? comboIdx = some state →
        state.nextKeyIndex < action.trigger.events.length

/-! ## Lookups of expected steps -/

/-- The macro loop comparing a counter with its trigger, to index it next. -/
structure Lookup where
  action : KeyAction
  nextKeyIndex : ℕ

def Lookup.InRange (lookup : Lookup) : Prop :=
  lookup.nextKeyIndex < lookup.action.trigger.events.length

def turnLookups (app : AppType) (input : Input) (m : InputMapper) (row : KeyAction × ℕ) :
    List Lookup :=
  if row.1.trigger.events = [] then []
  else
    let expired := m.expired app input row.2
    if expired.numLockActive_ && !isKeyboardOnlyMacro row.1 then []
    else [⟨row.1, (expired.combo app row.2).nextKeyIndex⟩]

def loopLookups (app : AppType) (input : Input) :
    InputMapper × Bool → List (KeyAction × ℕ) → List Lookup
  | _, [] => []
  | acc, row :: rows =>
      turnLookups app input acc.1 row ++
        loopLookups app input (comboTurn app input acc row) rows

def stageLookups (m : InputMapper) (input : Input) (skipMacros : Bool) : List Lookup :=
  if skipMacros then []
  else
    match m.appMacros_ m.activeApp_ with
    | none => []
    | some macros => loopLookups m.activeApp_ input (m, false) macros.zipIdx

def pipelineLookups (nested : InputMapper → Input → List Lookup) (m : InputMapper)
    (input : Input) (skipMacros : Bool) : List Lookup :=
  let m := m.stageContext input
  if m.monitoringMode_ then []
  else if skipMacros then m.stageLookups input true
  else
    match m.detectGKey input.ev with
    | (some gKey, m) => nested m (input.virtual gKey)
    | (none, m) => m.stageLookups input false

/-- The lookups made while an event is processed. -/
def eventLookups (m : InputMapper) (input : Input) (skipMacros : Bool) : List Lookup :=
  m.pipelineLookups (fun m virtual => m.pipelineLookups (fun _ _ => []) virtual false) input
    skipMacros

theorem Explains.progressInRange {marks : List Mark} (hexplains : Explains marks m) :
    m.ProgressInRange := by
  intro app macros comboIdx action state hmacros haction htrigger hstored
  have hrow : (action, comboIdx) ∈ macros.zipIdx := List.mem_zipIdx_iff_getElem?.mpr haction
  have hrange := hexplains.inRange app macros hmacros _ hrow htrigger
  have hcombo : m.combo app comboIdx = state := by
    unfold combo
    rw [hstored]
    rfl
  rw [← hcombo]
  exact hrange

theorem Explains.turnLookups {marks : List Mark} {macros : List KeyAction}
    {row : KeyAction × ℕ} (hexplains : Explains marks m)
    (hmacros : m.appMacros_ app = some macros) (hrow : row ∈ macros.zipIdx) :
    ∀ lookup ∈ turnLookups app input m row, lookup.InRange := by
  intro lookup hlookup
  unfold InputMapper.turnLookups at hlookup
  split at hlookup
  · simp at hlookup
  rename_i htrigger
  dsimp only at hlookup
  split at hlookup
  · simp at hlookup
  obtain rfl := List.mem_singleton.mp hlookup
  have hrange := hexplains.inRange app macros hmacros row hrow htrigger
  have hlive := congrArg SequenceMatcher.Progress.next
    (progress_expired m app input row.2 row.1)
  calc ((m.expired app input row.2).combo app row.2).nextKeyIndex
      = ((m.matcher row.1).live (m.progress app row.2) input).next := hlive
    _ ≤ (m.progress app row.2).next := SequenceMatcher.live_next_le
    _ < row.1.trigger.events.length := hrange

theorem Explains.loopLookups {marks : List Mark} {acc : InputMapper × Bool}
    {rows : List (KeyAction × ℕ)} {macros : List KeyAction} (hexplains : Explains marks acc.1)
    (hmacros : acc.1.appMacros_ app = some macros) (hrows : ∀ row ∈ rows, row ∈ macros.zipIdx) :
    ∀ lookup ∈ loopLookups app input acc rows, lookup.InRange := by
  induction rows generalizing marks acc with
  | nil => simp [InputMapper.loopLookups]
  | cons row rows ih =>
      intro lookup hlookup
      rw [InputMapper.loopLookups, List.mem_append] at hlookup
      have hrow := hrows row List.mem_cons_self
      rcases hlookup with hturn | hrest
      · exact hexplains.turnLookups hmacros hrow lookup hturn
      · have hnext := hexplains.comboTurn input hmacros hrow
        rw [← (sameSettings_comboTurn app input acc row).appMacros_] at hmacros
        exact ih hnext hmacros (fun row' h => hrows row' (List.mem_cons_of_mem row h)) lookup
          hrest

theorem Explains.stageLookups {marks : List Mark} (hexplains : Explains marks m)
    (skipMacros : Bool) : ∀ lookup ∈ m.stageLookups input skipMacros, lookup.InRange := by
  unfold InputMapper.stageLookups
  split
  · simp
  · split
    · simp
    · rename_i macros hmacros
      exact Explains.loopLookups (show Explains marks (m, false).1 from hexplains) hmacros
        fun row h => h

theorem Explains.pipelineLookups {nested : InputMapper → Input → List Lookup}
    {marks : List Mark} (hexplains : Explains marks m)
    (hnested : ∀ {m marks} virtual, Explains marks m →
      ∀ lookup ∈ nested m virtual, lookup.InRange)
    (skipMacros : Bool) :
    ∀ lookup ∈ m.pipelineLookups nested input skipMacros, lookup.InRange := by
  have hcontext := hexplains.stageContext input
  have hdetect := hcontext.sameMatching (sameMatching_detectGKey input.ev)
  unfold InputMapper.pipelineLookups
  dsimp only
  split
  · simp
  · split
    · exact hcontext.stageLookups true
    · rcases hkey : (m.stageContext input).detectGKey input.ev with ⟨gKey, detected⟩
      rw [hkey] at hdetect
      cases gKey with
      | none => exact hdetect.stageLookups false
      | some gKey => exact hnested _ hdetect

theorem Explains.eventLookups {marks : List Mark} (hexplains : Explains marks m)
    (skipMacros : Bool) : ∀ lookup ∈ m.eventLookups input skipMacros, lookup.InRange := by
  apply hexplains.pipelineLookups
  intro m marks virtual hexplains
  apply hexplains.pipelineLookups
  intro m marks virtual hexplains lookup hlookup
  exact absurd hlookup List.not_mem_nil

/-- In every reachable mapper the stored counters are in range, and so is every
counter the macro loop compares with its trigger while an event is processed. -/
theorem reachable_progressInRange (hreach : Reachable step {} m) :
    m.ProgressInRange ∧
      ∀ input skipMacros, ∀ lookup ∈ m.eventLookups input skipMacros, lookup.InRange := by
  obtain ⟨marks, hexplains⟩ := reachable_explained hreach
  exact ⟨hexplains.progressInRange, fun _ skipMacros => hexplains.eventLookups skipMacros⟩

/-- Saved macros for every other application: triggers given by their keys. -/
def savedTriggers (triggers : List (List Json)) : Json :=
  .object [("", .array (triggers.map fun keys =>
    .object [("trigger", .object [("keys", .array keys)])]))]

def pressKey (code : ℕ) : Json := .array [.number_unsigned code, .number_unsigned 1]

/-- The table is replaced in mid-combo by a shorter one whose second macro does not
load. -/
def replaceInMidCombo : List Operation :=
  [.setMacrosFromJson (savedTriggers [[pressKey KEY_A, pressKey KEY_T]]),
    .processEvent ⟨⟨EV_KEY, KEY_A, 1⟩, 0, true⟩ false,
    .setMacrosFromJson (savedTriggers [[pressKey KEY_T], [.array [.boolean true, .boolean true]]])]

theorem replaceInMidCombo_progressInRange :
    (execute step {} (replaceInMidCombo.take 2)).any
        (fun m => (m.combo .OTHER 0).nextKeyIndex = 1) = true ∧
      ∃ m, execute step {} replaceInMidCombo = some m ∧ m.ProgressInRange ∧
        ∀ input skipMacros, ∀ lookup ∈ m.eventLookups input skipMacros, lookup.InRange := by
  obtain ⟨m, hrun⟩ : ∃ m, execute step {} replaceInMidCombo = some m :=
    Option.isSome_iff_exists.mp (by decide +kernel)
  have hprogress := reachable_progressInRange (Reachable.of_execute hrun)
  exact ⟨by decide +kernel, m, hrun, hprogress⟩

end InputMapper

end AutomateLinux
