import AutomateLinux.MacroTable
import AutomateLinux.SuppressionRegistry

/-!
# The input mapper

Every physical event goes through a pipeline: bookkeeping of held keys and of
the NumLock and escape keys, recognition of G-key sequences, matching against
the macros of the active application, and emission to the virtual device.  All
macros of an application progress in parallel; a step may withhold the event
that matches it until its combo completes or breaks.

The mapper is modelled once its devices are open and the virtual device exists.
The processing of one event takes no time, so an event carries the one clock
reading made for it, and each public operation is one step.
-/

namespace AutomateLinux

structure InputEvent where
  type : ℕ
  code : ℕ
  value : Int
deriving DecidableEq

def SYN_REPORT : ℕ := 0

def synReport : InputEvent := ⟨EV_SYN, SYN_REPORT, 0⟩

def WithheldKey.event (wk : WithheldKey) : InputEvent :=
  ⟨wk.type, wk.code, wk.value⟩

/-- A physical event, the clock reading in nanoseconds made for it and, for the
key that starts a grab, whether the hardware reports all keys up in time. -/
structure Input where
  ev : InputEvent
  now : ℕ
  allReleased : Bool := true
deriving DecidableEq

/-- The virtual event that stands for a G-key. -/
def Input.virtual (input : Input) (gKey : ℕ) : Input :=
  { input with ev := { input.ev with code := G_VIRTUAL gKey } }

/-- How far a combo has been matched. -/
structure ComboState where
  nextKeyIndex : ℕ := 0
  suppressedEvents : List InputEvent := []
  lastMatchTime : ℕ := 0
deriving DecidableEq

def ComboState.reset (state : ComboState) : ComboState :=
  { state with nextKeyIndex := 0, suppressedEvents := [] }

abbrev ComboMap := OrderedMap ℕ ComboState

abbrev KeySet := OrderedMap ℕ Unit

/-- The applications in the order of the enumeration. -/
def AppType.all : List AppType := [.OTHER, .TERMINAL, .CHROME, .CODE]

theorem AppType.mem_all (app : AppType) : app ∈ AppType.all := by
  cases app <;> decide

def MacroTable.IsEmpty (table : MacroTable) : Prop :=
  ∀ app ∈ AppType.all, table app = none

instance (table : MacroTable) : Decidable (MacroTable.IsEmpty table) :=
  inferInstanceAs (Decidable (∀ app ∈ AppType.all, table app = none))

/-- The mapper's fields.  `uinput` lists what was written to the virtual device,
`executed` the actions executed so far and `pendingPastes` counts the detached
threads that have yet to paste. -/
structure InputMapper where
  appMacros_ : MacroTable := initialAppMacros
  comboProgress_ : AppType → ComboMap := fun _ => OrderedMap.empty
  suppressionRegistry_ : SuppressionRegistry := .empty
  pressedKeys_ : KeySet := OrderedMap.empty
  monitoringMode_ : Bool := false
  ctrlDown_ : Bool := false
  numLockActive_ : Bool := false
  gToggleState_ : ℕ := 1
  emergencyScrollCount_ : ℕ := 0
  emergencyFirstPress_ : ℕ := 0
  activeApp_ : AppType := .OTHER
  activeUrl_ : String := ""
  activeTitle_ : String := ""
  uinput : List InputEvent := []
  executed : List KeyAction := []
  pendingPastes : ℕ := 0

namespace InputMapper

/-! ## Writing to the virtual device -/

/-- `libevdev_uinput_write_event` for each of some events. -/
def write (m : InputMapper) (events : List InputEvent) : InputMapper :=
  { m with uinput := m.uinput ++ events }

def emitNoSync (m : InputMapper) (ev : InputEvent) : InputMapper := m.write [ev]

def sync (m : InputMapper) : InputMapper := m.emitNoSync synReport

def emit (m : InputMapper) (ev : InputEvent) : InputMapper :=
  (m.emitNoSync ev).sync

def emitSequence (m : InputMapper) (sequence : List (ℕ × Int)) : InputMapper :=
  m.write (sequence.flatMap fun p => [⟨EV_KEY, p.1, p.2⟩, synReport])

def emitFinal (m : InputMapper) (ev : InputEvent) : InputMapper :=
  if ev.type = EV_REL ∨ ev.type = EV_ABS then m.emitNoSync ev else m.emit ev

/-! ## Combos -/

/-- `comboProgress_[app][comboIdx]`, where a missing element is a fresh one. -/
def combo (m : InputMapper) (app : AppType) (comboIdx : ℕ) : ComboState :=
  ((m.comboProgress_ app).get? comboIdx).getD {}

def setCombo (m : InputMapper) (app : AppType) (comboIdx : ℕ)
    (state : ComboState) : InputMapper :=
  { m with
    comboProgress_ :=
      Function.update m.comboProgress_ app
        ((m.comboProgress_ app).insert comboIdx state) }

/-- Indexing with `[]` stores the fresh element. -/
def touchCombo (m : InputMapper) (app : AppType) (comboIdx : ℕ) : InputMapper :=
  m.setCombo app comboIdx (m.combo app comboIdx)

def resetCombo (m : InputMapper) (app : AppType) (comboIdx : ℕ) : InputMapper :=
  m.setCombo app comboIdx (m.combo app comboIdx).reset

/-- `suppressionRegistry_.claim`, without looking at the result. -/
def unclaim (m : InputMapper) (comboIdx : ℕ) : InputMapper :=
  { m with suppressionRegistry_ := m.suppressionRegistry_.unclaimed comboIdx }

/-- A claimed event whose key is still withheld by another combo is not
emitted. -/
def emitUnblocked (m : InputMapper) (wk : WithheldKey) : InputMapper :=
  if m.suppressionRegistry_.isBlocked wk.code then m else m.emit wk.event

/-- What a combo that timed out, was broken or was cut off by NumLock does. -/
def breakCombo (m : InputMapper) (app : AppType) (comboIdx : ℕ) : InputMapper :=
  let claimed := (m.suppressionRegistry_.claim comboIdx).1
  ((claimed.foldl emitUnblocked (m.unclaim comboIdx)).sync).resetCombo app comboIdx

/-- Every combo that has progress stored, application by application. -/
def storedCombos (m : InputMapper) : List (AppType × ℕ) :=
  AppType.all.flatMap fun app => (m.comboProgress_ app).keys.map fun comboIdx =>
    (app, comboIdx)

def flushCombo (m : InputMapper) (row : AppType × ℕ) : InputMapper :=
  let claimed := (m.suppressionRegistry_.claim row.2).1
  (claimed.foldl (fun m wk => m.emit wk.event)
    (m.unclaim row.2)).resetCombo row.1 row.2

def flushAndResetState (m : InputMapper) : InputMapper :=
  { m.storedCombos.foldl flushCombo m with gToggleState_ := 1 }

def dropCombo (m : InputMapper) (row : AppType × ℕ) : InputMapper :=
  (m.unclaim row.2).resetCombo row.1 row.2

def releaseAllPressedKeys (m : InputMapper) : InputMapper :=
  let m := m.storedCombos.foldl dropCombo m
  let m := (m.pressedKeys_.keys.foldl (fun m code => m.emit ⟨EV_KEY, code, 0⟩) m).sync
  { m with pressedKeys_ := OrderedMap.empty }

/-! ## Grabbing, NumLock and the active application -/

def ungrabDevices (m : InputMapper) : InputMapper := { m with monitoringMode_ := true }

/-- The wait ends in a grab when the hardware and `pressedKeys_` show no key. -/
def grabDevices (m : InputMapper) (allReleased : Bool) : InputMapper :=
  if allReleased ∧ m.pressedKeys_.entries = [] then
    { m with monitoringMode_ := false }
  else m

def setNumLockState (m : InputMapper) (active allReleased : Bool) : InputMapper :=
  if m.numLockActive_ = active then m
  else
    let m := { m with numLockActive_ := active }
    let m := if active then m.ungrabDevices else m.grabDevices allReleased
    m.releaseAllPressedKeys

def setContext (m : InputMapper) (appType : AppType) (url title : String) :
    InputMapper :=
  if m.activeApp_ = appType ∧ m.activeUrl_ = url ∧ m.activeTitle_ = title then m
  else
    releaseAllPressedKeys
      { m with activeApp_ := appType, activeUrl_ := url, activeTitle_ := title }

/-! ## Loading macros -/

def setMacrosFromJsonInternal (m : InputMapper) (j : Json) :
    Except Exn Unit × InputMapper :=
  let table := if MacroTable.IsEmpty m.appMacros_ then initialAppMacros else m.appMacros_
  let loaded := loadMacros j table
  (loaded.1,
    { m with appMacros_ := loaded.2, comboProgress_ := fun _ => OrderedMap.empty })

/-- `loadPersistence` with the saved macros, if there are any that parse. -/
def loadPersistence (m : InputMapper) (savedMacros : Option Json) : InputMapper :=
  match savedMacros with
  | some j => (m.setMacrosFromJsonInternal j).2
  | none => m

/-! ## Stage 1: context and tracking -/

def SCROLLLOCK_WINDOW : ℕ := 1000000000

/-- A press of ScrollLock; the third one within a second ungrabs. -/
def pressScrollLock (m : InputMapper) (now : ℕ) : InputMapper :=
  if m.emergencyScrollCount_ = 0 ∨ m.emergencyFirstPress_ + SCROLLLOCK_WINDOW < now then
    { m with emergencyScrollCount_ := 1, emergencyFirstPress_ := now }
  else if 3 ≤ m.emergencyScrollCount_ + 1 then
    { m with emergencyScrollCount_ := 0 }.ungrabDevices
  else
    { m with emergencyScrollCount_ := m.emergencyScrollCount_ + 1 }

def escapeKeys (m : InputMapper) (input : Input) : InputMapper :=
  let m :=
    if input.ev.code = KEY_PAUSE ∧ input.ev.value = 1 then m.ungrabDevices else m
  if input.ev.code = KEY_SCROLLLOCK ∧ input.ev.value = 1 then
    m.pressScrollLock input.now
  else m

/-- The held keys and the state of the Ctrl keys. -/
def trackKey (m : InputMapper) (ev : InputEvent) : InputMapper :=
  let m :=
    if ev.value = 1 then { m with pressedKeys_ := m.pressedKeys_.insert ev.code () }
    else if ev.value = 0 then
      { m with pressedKeys_ := m.pressedKeys_.filterKeys fun code => code ≠ ev.code }
    else m
  if ev.code = KEY_LEFTCTRL ∨ ev.code = KEY_RIGHTCTRL then
    { m with ctrlDown_ := ev.value ≠ 0 }
  else m

def stageContext (m : InputMapper) (input : Input) : InputMapper :=
  if input.ev.type = EV_KEY then
    let m := (m.escapeKeys input).trackKey input.ev
    if input.ev.code = KEY_NUMLOCK ∧ input.ev.value = 1 then
      m.setNumLockState (!m.numLockActive_) input.allReleased
    else m
  else m

/-! ## Stage 2: G-keys -/

/-- `detectGKey` on the toggle state: the G-key detected, if there is one, and
the next toggle state. -/
def nextGToggle (gToggleState : ℕ) (ev : InputEvent) : Option ℕ × ℕ :=
  if ev.type ≠ EV_KEY then (none, gToggleState)
  else if ev.code = KEY_LEFTCTRL then
    if ev.value = 1 then
      (none, if gToggleState = 1 then 2 else if gToggleState = 3 then 4 else 1)
    else (none, gToggleState)
  else if ev.code = KEY_LEFTSHIFT then
    if ev.value = 1 then
      (none, if gToggleState = 2 then 3 else if gToggleState = 4 then 5 else 1)
    else (none, gToggleState)
  else if gToggleState = 5 ∧ KEY_1 ≤ ev.code ∧ ev.code ≤ KEY_6 then
    (some (ev.code - KEY_1 + 1), 1)
  else (none, 1)

def detectGKey (m : InputMapper) (ev : InputEvent) : Option ℕ × InputMapper :=
  let detected := nextGToggle m.gToggleState_ ev
  (detected.1, { m with gToggleState_ := detected.2 })

/-! ## Stage 3: macros -/

inductive PipelineResult
  | CONTINUE | CONSUMED | DROP
deriving DecidableEq

def COMBO_TIMEOUT : ℕ := 2000000000

/-- A code that is neither a mouse button nor a virtual G-key. -/
def isKeyboardCode (code : ℕ) : Bool :=
  !(BTN_MISC ≤ code && code < KEY_OK) && !(1000 ≤ code)

def isKeyboardOnlyMacro (action : KeyAction) : Bool :=
  (action.trigger.events.all fun step => step.type = EV_KEY && isKeyboardCode step.code) &&
    action.keySequence.all fun sq => isKeyboardCode sq.1

def executeKeyAction (m : InputMapper) (action : KeyAction) : InputMapper :=
  let m := { m with executed := m.executed ++ [action] }
  match action.customHandler with
  | some .triggerChromeChatGPTMacro => { m with pendingPastes := m.pendingPastes + 1 }
  | none => m.emitSequence action.keySequence

def timedOut (state : ComboState) (now : ℕ) : Bool :=
  0 < state.nextKeyIndex && state.lastMatchTime + COMBO_TIMEOUT < now

/-- An expected press also matches a repeat. -/
def matchesStep (step : TriggerStep) (ev : InputEvent) : Bool :=
  step.type = ev.type && step.code = ev.code &&
    if ev.type = EV_KEY then
      (step.value = 1 && (ev.value = 1 || ev.value = 2)) || (step.value = 0 && ev.value = 0)
    else step.value = ev.value

/-- Whether an event that does not match the expected step breaks a combo. -/
def shouldBreak (action : KeyAction) (nextKeyIndex : ℕ) (step : TriggerStep)
    (ev : InputEvent) : Bool :=
  let isKeyInActiveCombo :=
    (action.trigger.events.take nextKeyIndex).any fun matched => matched.code = ev.code
  ev.type = EV_KEY &&
    if ev.value = 1 && action.trigger.noiseBreaks then true
    else if ev.value = 0 && isKeyInActiveCombo then true
    else ev.value = 2 && !isKeyInActiveCombo && !step.ignoreRepeat

/-- The bookkeeping of a matched step. -/
def recordMatch (m : InputMapper) (app : AppType) (comboIdx : ℕ) (step : TriggerStep)
    (input : Input) : InputMapper :=
  let state := m.combo app comboIdx
  let state :=
    { state with nextKeyIndex := state.nextKeyIndex + 1, lastMatchTime := input.now }
  if step.suppress then
    let m := m.setCombo app comboIdx
      { state with suppressedEvents := state.suppressedEvents ++ [input.ev] }
    { m with
      suppressionRegistry_ := m.suppressionRegistry_.add
        ⟨input.ev.type, input.ev.code, input.ev.value, comboIdx⟩ }
  else m.setCombo app comboIdx state

def completeCombo (m : InputMapper) (app : AppType) (comboIdx : ℕ) (action : KeyAction) :
    InputMapper :=
  ((m.unclaim comboIdx).executeKeyAction action).resetCombo app comboIdx

def advanceCombo (m : InputMapper) (app : AppType) (comboIdx : ℕ) (action : KeyAction)
    (step : TriggerStep) (input : Input) : InputMapper :=
  let m := m.recordMatch app comboIdx step input
  if (m.combo app comboIdx).nextKeyIndex = action.trigger.events.length then
    m.completeCombo app comboIdx action
  else m

/-- The timeout check at the head of the loop body. -/
def expireCombo (m : InputMapper) (app : AppType) (comboIdx now : ℕ) : InputMapper :=
  if timedOut (m.combo app comboIdx) now then m.breakCombo app comboIdx else m

/-- The loop body after the timeout check; the flag says whether the event has
matched a suppressed step. -/
def matchCombo (m : InputMapper) (app : AppType) (input : Input) (action : KeyAction)
    (comboIdx : ℕ) : InputMapper × Bool :=
  let state := m.combo app comboIdx
  if m.numLockActive_ && !isKeyboardOnlyMacro action then
    (if 0 < state.nextKeyIndex then m.breakCombo app comboIdx else m, false)
  else
    match action.trigger.events[state.nextKeyIndex]? with
    | none => (m, false)
    | some step =>
        if matchesStep step input.ev then
          (m.advanceCombo app comboIdx action step input, step.suppress)
        else if 0 < state.nextKeyIndex && shouldBreak action state.nextKeyIndex step input.ev then
          (m.breakCombo app comboIdx, false)
        else (m, false)

/-- One turn of the loop over the macros. -/
def comboTurn (app : AppType) (input : Input) (acc : InputMapper × Bool)
    (row : KeyAction × ℕ) : InputMapper × Bool :=
  if row.1.trigger.events = [] then acc
  else
    let m := (acc.1.touchCombo app row.2).expireCombo app row.2 input.now
    let turned := m.matchCombo app input row.1 row.2
    (turned.1, acc.2 || turned.2)

def stageMacros (m : InputMapper) (input : Input) (skipMacros : Bool) :
    InputMapper × PipelineResult :=
  if skipMacros then (m, .CONTINUE)
  else
    match m.appMacros_ m.activeApp_ with
    | none => (m, .CONTINUE)
    | some macros =>
        let (m, eventMatchedAnySuppressedStep) :=
          macros.zipIdx.foldl (comboTurn m.activeApp_ input) (m, false)
        if eventMatchedAnySuppressedStep then (m, .DROP)
        else if input.ev.type = EV_KEY ∧ m.suppressionRegistry_.isBlocked input.ev.code then
          (m, .DROP)
        else (m, .CONTINUE)

/-! ## The pipeline -/

/-- Stages 3 and 4. -/
def matchAndEmit (m : InputMapper) (input : Input) (skipMacros : Bool) : InputMapper :=
  match m.stageMacros input skipMacros with
  | (m, .DROP) => m
  | (m, _) => m.emitFinal input.ev

/-- `processEvent`, where `nested` is the recursive call of the second stage. -/
def pipeline (nested : InputMapper → Input → InputMapper) (m : InputMapper)
    (input : Input) (skipMacros : Bool) : InputMapper :=
  let m := m.stageContext input
  if m.monitoringMode_ then m
  else if skipMacros then m.matchAndEmit input true
  else
    match m.detectGKey input.ev with
    | (some gKey, m) => nested m (input.virtual gKey)
    | (none, m) => m.matchAndEmit input false

/-- A virtual event is no number key, so the recursion is one call deep. -/
def processEvent (m : InputMapper) (input : Input) (skipMacros : Bool) : InputMapper :=
  m.pipeline (fun m virtual => m.pipeline (fun m _ => m) virtual false) input skipMacros

theorem nextGToggle_virtual (gToggleState gKey : ℕ) (input : Input) :
    (nextGToggle gToggleState (input.virtual gKey).ev).1 = none := by
  have hsix : ¬ (input.virtual gKey).ev.code ≤ KEY_6 := by
    show ¬ 1000 + gKey ≤ 7
    omega
  unfold nextGToggle
  rw [if_neg fun hready : gToggleState = 5 ∧ _ => hsix hready.2.2]
  split_ifs <;> rfl

theorem pipeline_virtual (nested other : InputMapper → Input → InputMapper)
    (m : InputMapper) (input : Input) (gKey : ℕ) :
    m.pipeline nested (input.virtual gKey) false =
      m.pipeline other (input.virtual gKey) false := by
  unfold pipeline detectGKey
  simp only [nextGToggle_virtual]

/-- The recursion of the source: the nested call is `processEvent` itself. -/
theorem processEvent_eq (m : InputMapper) (input : Input) (skipMacros : Bool) :
    m.processEvent input skipMacros =
      m.pipeline (fun m virtual => m.processEvent virtual false) input skipMacros := by
  have hnested : ∀ (m : InputMapper) gKey,
      m.processEvent (input.virtual gKey) false =
        m.pipeline (fun m _ => m) (input.virtual gKey) false := fun m gKey =>
    pipeline_virtual _ _ m input gKey
  unfold processEvent at hnested ⊢
  unfold pipeline at hnested ⊢
  simp only [hnested]

/-! ## Operations -/

inductive Operation
  | processEvent (input : Input) (skipMacros : Bool)
  | flushAndResetState
  | setContext (appType : AppType) (url title : String)
  | setNumLockState (active allReleased : Bool)
  | setMacrosFromJson (j : Json)
  | loadPersistence (savedMacros : Option Json)
  | setupDevices (pressed : List ℕ)
  | grabDevices (allReleased : Bool)
  | ungrabDevices
  | emit (ev : InputEvent)
  | sync
  | paste

/-- What a detached thread types once the extension has answered or has not. -/
def pasteSequence : List (ℕ × Int) :=
  [(KEY_LEFTCTRL, 1), (KEY_V, 1), (KEY_V, 0), (KEY_LEFTCTRL, 0)]

def step (m : InputMapper) : Operation → Option InputMapper
  | .processEvent input skipMacros => some (m.processEvent input skipMacros)
  | .flushAndResetState => some m.flushAndResetState
  | .setContext appType url title => some (m.setContext appType url title)
  | .setNumLockState active allReleased => some (m.setNumLockState active allReleased)
  | .setMacrosFromJson j => some (m.setMacrosFromJsonInternal j).2
  | .loadPersistence savedMacros => some (m.loadPersistence savedMacros)
  | .setupDevices pressed =>
      some
        { m with
          pressedKeys_ := pressed.foldl (fun keys code => keys.insert code ()) m.pressedKeys_
          monitoringMode_ := true }
  | .grabDevices allReleased => some (m.grabDevices allReleased)
  | .ungrabDevices => some m.ungrabDevices
  | .emit ev => some (m.emit ev)
  | .sync => some m.sync
  | .paste =>
      if 0 < m.pendingPastes then
        some ({ m with pendingPastes := m.pendingPastes - 1 }.emitSequence pasteSequence).sync
      else none

end InputMapper

end AutomateLinux
