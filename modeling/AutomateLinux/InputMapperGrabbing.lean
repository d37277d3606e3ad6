import AutomateLinux.InputMapperTransparency

/-!
# Waiting for the keys before a grab

A grab waits, for a limited time, until a reading of the hardware and the set of
held keys both show no key.  The thread that processes events does the waiting,
so meanwhile only other threads act on the mapper.  Here a grab is given the
readings it makes and what the other threads do between them; with no other
threads it is the grab of a single step.
-/

namespace AutomateLinux

open TransitionSystem

namespace InputMapper

variable {m m' : InputMapper} {input : Input}

/-- The operations of threads other than the one that processes events. -/
def Operation.ofOtherThread : Operation → Bool
  | .setContext _ _ _ | .setMacrosFromJson _ | .loadPersistence _ | .grabDevices _
  | .emit _ | .sync | .paste => true
  | _ => false

/-- A grab that waits makes a reading, or another thread acts. -/
inductive WaitEvent
  | poll (keysUp : Bool)
  | other (op : Operation) (hother : op.ofOtherThread = true)

/-- Another thread's operation; a paste that nobody asked for does nothing. -/
def perform (m : InputMapper) (op : Operation) : InputMapper := (m.step op).getD m

/-- The loop of `grabDevices`, with whether it ended before the time limit. -/
def waitForRelease : InputMapper → List WaitEvent → InputMapper × Bool
  | m, [] => (m, false)
  | m, .poll keysUp :: wait =>
      if keysUp ∧ m.pressedKeys_.entries = [] then (m, true) else waitForRelease m wait
  | m, .other op _ :: wait => waitForRelease (m.perform op) wait

def grabDevicesWaiting (m : InputMapper) (wait : List WaitEvent) : InputMapper :=
  match m.waitForRelease wait with
  | (m, true) => { m with monitoringMode_ := false }
  | (m, false) => m

def setNumLockStateWaiting (m : InputMapper) (active : Bool) (wait : List WaitEvent) :
    InputMapper :=
  if m.numLockActive_ = active then m
  else
    let m := { m with numLockActive_ := active }
    let m := if active then m.ungrabDevices else m.grabDevicesWaiting wait
    m.releaseAllPressedKeys

def stageContextWaiting (m : InputMapper) (input : Input) (wait : List WaitEvent) :
    InputMapper :=
  if input.ev.type = EV_KEY then
    let m := (m.escapeKeys input).trackKey input.ev
    if input.ev.code = KEY_NUMLOCK ∧ input.ev.value = 1 then
      m.setNumLockStateWaiting (!m.numLockActive_) wait
    else m
  else m

/-- The stages after the first one. -/
def afterContext (nested : InputMapper → Input → InputMapper) (m : InputMapper)
    (input : Input) (skipMacros : Bool) : InputMapper :=
  if m.monitoringMode_ then m
  else if skipMacros then m.matchAndEmit input true
  else
    match m.detectGKey input.ev with
    | (some gKey, m) => nested m (input.virtual gKey)
    | (none, m) => m.matchAndEmit input false

/-- `processEvent` with the wait it runs into if it is to grab the devices. -/
def processEventWaiting (m : InputMapper) (input : Input) (wait : List WaitEvent)
    (skipMacros : Bool) : InputMapper :=
  (m.stageContextWaiting input wait).afterContext
    (fun m virtual => m.processEvent virtual false) input skipMacros

/-! ## Waiting undisturbed -/

theorem grabDevicesWaiting_poll (m : InputMapper) (readings : List Bool) :
    m.grabDevicesWaiting (readings.map .poll) = m.grabDevices (readings.any id) := by
  have hwait : m.waitForRelease (readings.map .poll) =
      (m, readings.any id && decide (m.pressedKeys_.entries = [])) := by
    induction readings with
    | nil => rfl
    | cons keysUp readings ih =>
        rw [List.map_cons, waitForRelease, ih]
        by_cases hempty : m.pressedKeys_.entries = []
        · cases keysUp <;> simp [hempty]
        · simp [hempty]
  unfold grabDevicesWaiting grabDevices
  rw [hwait]
  by_cases hempty : m.pressedKeys_.entries = []
  · cases readings.any id <;> simp [hempty]
  · simp [hempty]

/-- Where no other thread acts, waiting is what the single step does. -/
theorem processEventWaiting_poll (m : InputMapper) (input : Input) (readings : List Bool)
    (skipMacros : Bool) :
    m.processEventWaiting { input with allReleased := readings.any id } (readings.map .poll)
        skipMacros =
      m.processEvent { input with allReleased := readings.any id } skipMacros := by
  have hcontext : m.stageContextWaiting { input with allReleased := readings.any id }
      (readings.map .poll) = m.stageContext { input with allReleased := readings.any id } := by
    unfold stageContextWaiting stageContext setNumLockStateWaiting setNumLockState
    simp only [grabDevicesWaiting_poll]
  rw [processEvent_eq]
  unfold processEventWaiting pipeline
  rw [hcontext]
  rfl

/-! ## What the wait depends on -/

/-- The two states agree on what a wait looks at. -/
structure SameWait (m m' : InputMapper) : Prop where
  pressedKeys_ : m'.pressedKeys_ = m.pressedKeys_
  monitoringMode_ : m'.monitoringMode_ = m.monitoringMode_
  numLockActive_ : m'.numLockActive_ = m.numLockActive_
  activeApp_ : m'.activeApp_ = m.activeApp_
  activeUrl_ : m'.activeUrl_ = m.activeUrl_
  activeTitle_ : m'.activeTitle_ = m.activeTitle_

theorem SameWait.refl : SameWait m m := ⟨rfl, rfl, rfl, rfl, rfl, rfl⟩

theorem SameWait.trans {m'' : InputMapper} (hfirst : SameWait m m') (hsecond : SameWait m' m'') :
    SameWait m m'' where
  pressedKeys_ := hsecond.pressedKeys_.trans hfirst.pressedKeys_
  monitoringMode_ := hsecond.monitoringMode_.trans hfirst.monitoringMode_
  numLockActive_ := hsecond.numLockActive_.trans hfirst.numLockActive_
  activeApp_ := hsecond.activeApp_.trans hfirst.activeApp_
  activeUrl_ := hsecond.activeUrl_.trans hfirst.activeUrl_
  activeTitle_ := hsecond.activeTitle_.trans hfirst.activeTitle_

theorem sameWait_foldl_dropCombo (rows : List (AppType × ℕ)) :
    SameWait m (rows.foldl dropCombo m) := by
  induction rows generalizing m with
  | nil => exact SameWait.refl
  | cons row rows ih =>
      have hdropped : SameWait m (m.dropCombo row) := ⟨rfl, rfl, rfl, rfl, rfl, rfl⟩
      exact hdropped.trans ih

theorem releaseAllPressedKeys_spec (m : InputMapper) :
    m.releaseAllPressedKeys.pressedKeys_.entries = [] ∧
      m.releaseAllPressedKeys.monitoringMode_ = m.monitoringMode_ ∧
      m.releaseAllPressedKeys.numLockActive_ = m.numLockActive_ := by
  have hdropped := sameWait_foldl_dropCombo (m := m) m.storedCombos
  obtain ⟨events, heq⟩ := releaseAllPressedKeys_eq_write m
  rw [heq]
  exact ⟨rfl, hdropped.monitoringMode_, hdropped.numLockActive_⟩

def Operation.changesContext (m : InputMapper) : Operation → Bool
  | .setContext appType url title =>
      !(decide (m.activeApp_ = appType ∧ m.activeUrl_ = url ∧ m.activeTitle_ = title))
  | _ => false

/-- The reading of another thread's grab. -/
def Operation.findsKeysUp : Operation → Bool
  | .grabDevices allReleased => allReleased
  | _ => false

def WaitEvent.changesContext (m : InputMapper) : WaitEvent → Bool
  | .poll _ => false
  | .other op _ => op.changesContext m

def WaitEvent.findsKeysUp : WaitEvent → Bool
  | .poll keysUp => keysUp
  | .other op _ => op.findsKeysUp

theorem SameWait.changesContext (hsame : SameWait m m') (event : WaitEvent) :
    event.changesContext m' = event.changesContext m := by
  cases event with
  | poll keysUp => rfl
  | other op hother =>
      cases op <;>
        simp [WaitEvent.changesContext, Operation.changesContext, hsame.activeApp_,
          hsame.activeUrl_, hsame.activeTitle_]

/-- A change of context empties the set of held keys, a grab may follow on the empty
set, and nothing else another thread does matters to a wait. -/
theorem perform_cases {op : Operation} (hother : op.ofOtherThread = true) (m : InputMapper) :
    (op.changesContext m = true ∧ (m.perform op).pressedKeys_.entries = [] ∧
        (m.perform op).monitoringMode_ = m.monitoringMode_ ∧
        (m.perform op).numLockActive_ = m.numLockActive_) ∨
      (op.changesContext m = false ∧ op.findsKeysUp = true ∧
        m.pressedKeys_.entries = [] ∧ m.perform op = { m with monitoringMode_ := false }) ∨
      (op.changesContext m = false ∧
        (op.findsKeysUp = true → m.pressedKeys_.entries ≠ []) ∧
        SameWait m (m.perform op)) := by
  have hquiet : ∀ {m' : InputMapper}, op.changesContext m = false → op.findsKeysUp = false →
      m.perform op = m' → SameWait m m' →
      op.changesContext m = false ∧
        (op.findsKeysUp = true → m.pressedKeys_.entries ≠ []) ∧ SameWait m (m.perform op) := by
    intro m' hcontext hkeys hperform hsame
    refine ⟨hcontext, ?_, hperform ▸ hsame⟩
    rw [hkeys]
    exact fun h => absurd h Bool.false_ne_true
  cases op with
  | setContext appType url title =>
      by_cases hcontext : m.activeApp_ = appType ∧ m.activeUrl_ = url ∧ m.activeTitle_ = title
      · have hperform : m.perform (.setContext appType url title) = m := if_pos hcontext
        refine Or.inr (Or.inr (hquiet ?_ rfl hperform SameWait.refl))
        simp [Operation.changesContext, hcontext]
      · have hperform : m.perform (.setContext appType url title) = releaseAllPressedKeys
            { m with activeApp_ := appType, activeUrl_ := url, activeTitle_ := title } :=
          if_neg hcontext
        left
        rw [hperform]
        refine ⟨?_, releaseAllPressedKeys_spec _⟩
        show (!decide _) = true
        rw [decide_eq_false hcontext]
        rfl
  | grabDevices allReleased =>
      by_cases hgrab : allReleased = true ∧ m.pressedKeys_.entries = []
      · have hperform : m.perform (.grabDevices allReleased) =
            { m with monitoringMode_ := false } := if_pos hgrab
        exact Or.inr (Or.inl ⟨rfl, hgrab.1, hgrab.2, hperform⟩)
      · have hperform : m.perform (.grabDevices allReleased) = m := if_neg hgrab
        refine Or.inr (Or.inr ⟨rfl, fun hreleased hempty => hgrab ⟨hreleased, hempty⟩, ?_⟩)
        rw [hperform]
        exact SameWait.refl
  | loadPersistence savedMacros =>
      have hsame : SameWait m (m.loadPersistence savedMacros) := by
        cases savedMacros <;> exact ⟨rfl, rfl, rfl, rfl, rfl, rfl⟩
      exact Or.inr (Or.inr (hquiet rfl rfl rfl hsame))
  | paste =>
      have hsame : SameWait m (m.perform .paste) := by
        simp only [perform, InputMapper.step]
        split <;> exact ⟨rfl, rfl, rfl, rfl, rfl, rfl⟩
      exact Or.inr (Or.inr (hquiet rfl rfl rfl hsame))
  | setMacrosFromJson | emit | sync =>
      exact Or.inr (Or.inr (hquiet rfl rfl rfl ⟨rfl, rfl, rfl, rfl, rfl, rfl⟩))
  | processEvent | flushAndResetState | setNumLockState | setupDevices | ungrabDevices =>
      exact absurd hother Bool.false_ne_true

/-! ## When a wait ends in a grab -/

theorem grabDevicesWaiting_cons_other {op : Operation}
    (hother : op.ofOtherThread = true) (wait : List WaitEvent) :
    m.grabDevicesWaiting (.other op hother :: wait) = (m.perform op).grabDevicesWaiting wait :=
  rfl

theorem grabbed_iff_of_empty {wait : List WaitEvent} (hempty : m.pressedKeys_.entries = []) :
    (m.grabDevicesWaiting wait).monitoringMode_ = false ↔
      m.monitoringMode_ = false ∨ wait.any WaitEvent.findsKeysUp = true := by
  induction wait generalizing m with
  | nil => simp [grabDevicesWaiting, waitForRelease]
  | cons event wait ih =>
      cases event with
      | poll keysUp =>
          cases keysUp with
          | true => simp [grabDevicesWaiting, waitForRelease, hempty, WaitEvent.findsKeysUp]
          | false =>
              have hnext : m.grabDevicesWaiting (.poll false :: wait) =
                  m.grabDevicesWaiting wait := by
                simp [grabDevicesWaiting, waitForRelease]
              rw [hnext, ih hempty]
              rfl
      | other op hother =>
          rw [grabDevicesWaiting_cons_other, List.any_cons]
          rcases perform_cases hother m with
            ⟨hcontext, hreleased, hmonitoring, -⟩ | ⟨-, hkeys, -, hperform⟩ | ⟨-, hkeys, hsame⟩
          · have hquiet : op.findsKeysUp = false := by
              cases op <;> first | rfl | simp [Operation.changesContext] at hcontext
            rw [ih hreleased, hmonitoring]
            simp [WaitEvent.findsKeysUp, hquiet]
          · have hnext := ih (m := { m with monitoringMode_ := false }) hempty
            rw [hperform, hnext]
            simp [WaitEvent.findsKeysUp, hkeys]
          · have hquiet : op.findsKeysUp = false :=
              Bool.eq_false_of_not_eq_true fun h => hkeys h hempty
            rw [ih (by rw [hsame.pressedKeys_, hempty]), hsame.monitoringMode_]
            simp [WaitEvent.findsKeysUp, hquiet]

theorem grabbed_iff_of_held {wait : List WaitEvent} (hheld : m.pressedKeys_.entries ≠ []) :
    (m.grabDevicesWaiting wait).monitoringMode_ = false ↔
      m.monitoringMode_ = false ∨
        (wait.dropWhile fun event => !event.changesContext m).any WaitEvent.findsKeysUp =
          true := by
  induction wait generalizing m with
  | nil => simp [grabDevicesWaiting, waitForRelease]
  | cons event wait ih =>
      rw [List.dropWhile_cons]
      cases event with
      | poll keysUp =>
          have hnext : m.grabDevicesWaiting (.poll keysUp :: wait) =
              m.grabDevicesWaiting wait := by
            simp [grabDevicesWaiting, waitForRelease, hheld]
          rw [hnext, ih hheld]
          rfl
      | other op hother =>
          rw [grabDevicesWaiting_cons_other]
          rcases perform_cases hother m with
            ⟨hcontext, hreleased, hmonitoring, -⟩ | ⟨-, -, hempty, -⟩ | ⟨hcontext, -, hsame⟩
          · have hquiet : op.findsKeysUp = false := by
              cases op <;> first | rfl | simp [Operation.changesContext] at hcontext
            rw [grabbed_iff_of_empty hreleased, hmonitoring]
            simp [WaitEvent.changesContext, WaitEvent.findsKeysUp, hcontext, hquiet]
          · exact absurd hempty hheld
          · have hchanges : (fun event : WaitEvent =>
                !event.changesContext (m.perform op)) =
                  fun event => !event.changesContext m :=
              funext fun event => congrArg not (hsame.changesContext event)
            rw [ih (by rwa [hsame.pressedKeys_]), hsame.monitoringMode_, hchanges]
            simp [WaitEvent.changesContext, hcontext]

theorem numLockActive_grabDevicesWaiting (wait : List WaitEvent) :
    (m.grabDevicesWaiting wait).numLockActive_ = m.numLockActive_ := by
  induction wait generalizing m with
  | nil => rfl
  | cons event wait ih =>
      cases event with
      | poll keysUp =>
          unfold grabDevicesWaiting waitForRelease
          split_ifs
          · rfl
          · exact ih
      | other op hother =>
          rw [grabDevicesWaiting_cons_other, ih]
          rcases perform_cases hother m with
            ⟨-, -, -, hnumlock⟩ | ⟨-, -, -, hperform⟩ | ⟨-, -, hsame⟩
          · exact hnumlock
          · rw [hperform]
          · exact hsame.numLockActive_

/-! ## NumLock -/

theorem afterContext_numLock {nested : InputMapper → Input → InputMapper} {skipMacros : Bool}
    (hcode : input.ev.code = KEY_NUMLOCK) :
    (m.afterContext nested input skipMacros).monitoringMode_ = m.monitoringMode_ ∧
      (m.afterContext nested input skipMacros).numLockActive_ = m.numLockActive_ := by
  have hnone : (nextGToggle m.gToggleState_ input.ev).1 = none := by
    have hsix : ¬ input.ev.code ≤ KEY_6 := by
      rw [hcode]
      decide
    unfold nextGToggle
    rw [if_neg fun hready : m.gToggleState_ = 5 ∧ _ => hsix hready.2.2]
    split_ifs <;> rfl
  unfold afterContext
  split
  · exact ⟨rfl, rfl⟩
  · split
    · have hsame := sameSettings_matchAndEmit (m := m) input true
      exact ⟨hsame.monitoringMode_, hsame.numLockActive_⟩
    · have hdetect : m.detectGKey input.ev =
          (none, { m with gToggleState_ := (nextGToggle m.gToggleState_ input.ev).2 }) :=
        Prod.ext hnone rfl
      rw [hdetect]
      have hsame := sameSettings_matchAndEmit
        (m := { m with gToggleState_ := (nextGToggle m.gToggleState_ input.ev).2 }) input false
      exact ⟨hsame.monitoringMode_, hsame.numLockActive_⟩

theorem held_of_numLock (hcode : input.ev.code = KEY_NUMLOCK) (hpress : input.ev.value = 1) :
    ∃ tracked, (m.escapeKeys input).trackKey input.ev = tracked ∧
      tracked.pressedKeys_.entries ≠ [] ∧ tracked.monitoringMode_ = m.monitoringMode_ ∧
      tracked.numLockActive_ = m.numLockActive_ ∧
      ∀ event : WaitEvent, event.changesContext tracked = event.changesContext m := by
  have htracked : (m.escapeKeys input).trackKey input.ev =
      { m with pressedKeys_ := m.pressedKeys_.insert KEY_NUMLOCK () } := by
    simp [escapeKeys, trackKey, hcode, hpress, KEY_NUMLOCK, KEY_PAUSE, KEY_SCROLLLOCK,
      KEY_LEFTCTRL, KEY_RIGHTCTRL]
  refine ⟨_, htracked, ?_, rfl, rfl, ?_⟩
  · intro hempty
    have hmem : KEY_NUMLOCK ∈ (m.pressedKeys_.insert KEY_NUMLOCK ()).keys :=
      OrderedMap.mem_keys_insert.mpr (Or.inl rfl)
    rw [OrderedMap.keys, hempty] at hmem
    exact List.not_mem_nil hmem
  · intro event
    cases event with
    | poll keysUp => rfl
    | other op hother => cases op <;> rfl

/-- After a press of NumLock the monitoring flag agrees with the NumLock state
exactly if NumLock was off, the devices were grabbed all the same, or another thread
changes the context while the grab waits and the keys are found up after that. -/
theorem monitoringMode_eq_numLockActive_iff {wait : List WaitEvent} {skipMacros : Bool}
    (hkey : input.ev.type = EV_KEY) (hcode : input.ev.code = KEY_NUMLOCK)
    (hpress : input.ev.value = 1) :
    (m.processEventWaiting input wait skipMacros).monitoringMode_ =
        (m.processEventWaiting input wait skipMacros).numLockActive_ ↔
      m.numLockActive_ = false ∨ m.monitoringMode_ = false ∨
        (wait.dropWhile fun event => !event.changesContext m).any WaitEvent.findsKeysUp =
          true := by
  obtain ⟨tracked, htracked, hheld, hmonitoring, hnumlock, hcontext⟩ :=
    held_of_numLock (m := m) hcode hpress
  have hafter : (m.processEventWaiting input wait skipMacros).monitoringMode_ =
        (m.stageContextWaiting input wait).monitoringMode_ ∧
      (m.processEventWaiting input wait skipMacros).numLockActive_ =
        (m.stageContextWaiting input wait).numLockActive_ := afterContext_numLock hcode
  rw [hafter.1, hafter.2]
  unfold stageContextWaiting
  dsimp only
  rw [if_pos hkey, if_pos ⟨hcode, hpress⟩, htracked]
  unfold setNumLockStateWaiting
  rw [if_neg (Bool.not_ne_self _).symm]
  dsimp only
  obtain ⟨-, hreleasedMonitoring, hreleasedNumlock⟩ := releaseAllPressedKeys_spec
    (if (!tracked.numLockActive_) = true then
      ({ tracked with numLockActive_ := !tracked.numLockActive_ } : InputMapper).ungrabDevices
    else
      ({ tracked with numLockActive_ := !tracked.numLockActive_ } : InputMapper).grabDevicesWaiting
        wait)
  rw [hreleasedMonitoring, hreleasedNumlock]
  cases hbefore : m.numLockActive_ with
  | false =>
      rw [hnumlock, hbefore]
      simp [ungrabDevices]
  | true =>
      rw [hnumlock, hbefore, if_neg (by decide), numLockActive_grabDevicesWaiting]
      have hgrabbed : (({ tracked with numLockActive_ := false } :
          InputMapper).grabDevicesWaiting wait).monitoringMode_ = false ↔ _ :=
        grabbed_iff_of_held hheld
      have hchanges : (fun event : WaitEvent =>
          !event.changesContext ({ tracked with numLockActive_ := false } : InputMapper)) =
            fun event => !event.changesContext m := by
        funext event
        rw [← hcontext event]
        cases event with
        | poll keysUp => rfl
        | other op hother => cases op <;> rfl
      rw [hchanges] at hgrabbed
      simpa [hmonitoring] using hgrabbed

def pressNumLock : Input := ⟨⟨EV_KEY, KEY_NUMLOCK, 1⟩, 0, true⟩

def releaseNumLock : Input := ⟨⟨EV_KEY, KEY_NUMLOCK, 0⟩, 0, true⟩

/-- NumLock has been pressed and released once, so it is on. -/
def numLockOn : InputMapper :=
  (({} : InputMapper).processEvent pressNumLock false).processEvent releaseNumLock false

theorem reachable_numLockOn : Reachable step {} numLockOn := by
  have hrun : execute step {}
      [.processEvent pressNumLock false, .processEvent releaseNumLock false] =
        some numLockOn := rfl
  exact Reachable.of_execute hrun

/-- The next press turns NumLock off and the key is up at every later reading, yet the
devices stay ungrabbed. -/
theorem numLockOn_disagrees :
    Reachable step {} numLockOn ∧ numLockOn.pressedKeys_.entries = [] ∧
      (numLockOn.processEventWaiting pressNumLock [.poll false, .poll true, .poll true]
        false).numLockActive_ = false ∧
      (numLockOn.processEventWaiting pressNumLock [.poll false, .poll true, .poll true]
        false).monitoringMode_ = true :=
  ⟨reachable_numLockOn, by decide +kernel, by decide +kernel, by decide +kernel⟩

theorem numLockOn_agrees :
    (numLockOn.processEventWaiting pressNumLock
        [.poll false, .other (.setContext .CHROME "" "") rfl, .poll true] false).monitoringMode_ =
      (numLockOn.processEventWaiting pressNumLock
        [.poll false, .other (.setContext .CHROME "" "") rfl, .poll true]
          false).numLockActive_ := by
  apply (monitoringMode_eq_numLockActive_iff rfl rfl rfl).mpr
  exact Or.inr (Or.inr (by decide +kernel))

end InputMapper

end AutomateLinux
