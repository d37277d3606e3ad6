import AutomateLinux.InputMapperTurns

/-!
# The emergency escape

A grabbed keyboard is given back by the Pause key, by a press of NumLock that
switches it on, and by three presses of ScrollLock within a second.  The presses
of ScrollLock are counted from the first one of a window; a press after the
window starts a new one, which forgets that the presses in between may have been
close together.
-/

namespace AutomateLinux

namespace InputMapper

variable {m m' : InputMapper} {input : Input}

/-! ## The calls of `ungrabDevices` -/

def isPress (key : ℕ) (input : Input) : Bool :=
  input.ev.type = EV_KEY && input.ev.code = key && input.ev.value = 1

/-- The counter is at rest or its window is over. -/
def opensWindow (m : InputMapper) (now : ℕ) : Bool :=
  m.emergencyScrollCount_ = 0 || m.emergencyFirstPress_ + SCROLLLOCK_WINDOW < now

/-- A press of ScrollLock now is the one that ungrabs. -/
def completesTriple (m : InputMapper) (now : ℕ) : Bool :=
  !m.opensWindow now && 3 ≤ m.emergencyScrollCount_ + 1

/-- Pause, and NumLock when it goes on. -/
def otherUngrabs (m : InputMapper) (input : Input) : Bool :=
  isPress KEY_PAUSE input || (isPress KEY_NUMLOCK input && !m.numLockActive_)

/-- Processing the event calls `ungrabDevices`. -/
def ungrabs (m : InputMapper) (input : Input) : Bool :=
  m.otherUngrabs input || (isPress KEY_SCROLLLOCK input && m.completesTriple input.now)

/-- Processing some event of a sequence calls `ungrabDevices`. -/
def ungrabsAlong : InputMapper → List (Input × Bool) → Bool
  | _, [] => false
  | m, event :: events =>
      m.ungrabs event.1 || (m.processEvent event.1 event.2).ungrabsAlong events

def processAll (m : InputMapper) (events : List (Input × Bool)) : InputMapper :=
  events.foldl (fun m event => m.processEvent event.1 event.2) m

/-! ## What the other stages leave alone -/

/-- The two states agree on what decides whether a key ungrabs. -/
structure SameEscape (m m' : InputMapper) : Prop where
  emergencyScrollCount_ : m'.emergencyScrollCount_ = m.emergencyScrollCount_
  emergencyFirstPress_ : m'.emergencyFirstPress_ = m.emergencyFirstPress_
  numLockActive_ : m'.numLockActive_ = m.numLockActive_
  monitoringMode_ : m'.monitoringMode_ = m.monitoringMode_

theorem SameEscape.refl : SameEscape m m := ⟨rfl, rfl, rfl, rfl⟩

theorem SameEscape.trans {m'' : InputMapper} (hfirst : SameEscape m m')
    (hsecond : SameEscape m' m'') : SameEscape m m'' where
  emergencyScrollCount_ :=
    hsecond.emergencyScrollCount_.trans hfirst.emergencyScrollCount_
  emergencyFirstPress_ := hsecond.emergencyFirstPress_.trans hfirst.emergencyFirstPress_
  numLockActive_ := hsecond.numLockActive_.trans hfirst.numLockActive_
  monitoringMode_ := hsecond.monitoringMode_.trans hfirst.monitoringMode_

theorem sameEscape_trackKey (m : InputMapper) (ev : InputEvent) :
    SameEscape m (m.trackKey ev) := by
  unfold trackKey
  dsimp only
  split_ifs <;> exact ⟨rfl, rfl, rfl, rfl⟩

theorem sameEscape_releaseAllPressedKeys (m : InputMapper) :
    SameEscape m m.releaseAllPressedKeys := by
  have hdrop : ∀ (rows : List (AppType × ℕ)) (m : InputMapper),
      SameEscape m (rows.foldl dropCombo m) := by
    intro rows
    induction rows with
    | nil => exact fun m => SameEscape.refl
    | cons row rows ih =>
        intro m
        have hstep : SameEscape m (m.dropCombo row) := ⟨rfl, rfl, rfl, rfl⟩
        exact hstep.trans (ih (m.dropCombo row))
  obtain ⟨events, heq⟩ := releaseAllPressedKeys_eq_write m
  rw [heq]
  exact (hdrop m.storedCombos m).trans ⟨rfl, rfl, rfl, rfl⟩

theorem sameEscape_recordMatch (m : InputMapper) (app : AppType) (comboIdx : ℕ)
    (step : TriggerStep) (input : Input) :
    SameEscape m (m.recordMatch app comboIdx step input) := by
  unfold recordMatch
  dsimp only
  split <;> exact ⟨rfl, rfl, rfl, rfl⟩

theorem sameEscape_completeCombo (m : InputMapper) (app : AppType) (comboIdx : ℕ)
    (action : KeyAction) : SameEscape m (m.completeCombo app comboIdx action) := by
  obtain ⟨events, pastes, heq⟩ :=
    executeKeyAction_eq (m := m.unclaim comboIdx) action
  unfold completeCombo
  rw [heq]
  exact ⟨rfl, rfl, rfl, rfl⟩

theorem sameEscape_matchAndEmit (m : InputMapper) (input : Input) (skipMacros : Bool) :
    SameEscape m (m.matchAndEmit input skipMacros) := by
  refine matchAndEmit_keeps (I := SameEscape m) (fun row h => ?_)
    (fun events h => h.trans ⟨rfl, rfl, rfl, rfl⟩) skipMacros SameEscape.refl
  refine comboTurn_keeps m.activeApp_ input row (fun h => h.trans ⟨rfl, rfl, rfl, rfl⟩)
    (fun h => h.trans ?_) (fun step h => h.trans (sameEscape_recordMatch _ _ _ step input))
    (fun h => h.trans (sameEscape_completeCombo _ _ _ _)) h
  rw [breakCombo_eq]
  exact ⟨rfl, rfl, rfl, rfl⟩

theorem sameEscape_pipeline {nested : InputMapper → Input → InputMapper}
    (hnested : ∀ (m : InputMapper) gKey, SameEscape m (nested m (input.virtual gKey)))
    (m : InputMapper) (skipMacros : Bool) :
    SameEscape (m.stageContext input) (m.pipeline nested input skipMacros) := by
  unfold pipeline
  dsimp only
  split
  · exact SameEscape.refl
  · split
    · exact sameEscape_matchAndEmit _ input true
    · rcases hkey : (m.stageContext input).detectGKey input.ev with ⟨gKey, detected⟩
      have hdetected : SameEscape (m.stageContext input) detected := by
        have hsame : SameEscape (m.stageContext input)
            ((m.stageContext input).detectGKey input.ev).2 := ⟨rfl, rfl, rfl, rfl⟩
        rwa [hkey] at hsame
      cases gKey with
      | none => exact hdetected.trans (sameEscape_matchAndEmit detected input false)
      | some gKey => exact hdetected.trans (hnested detected gKey)

theorem sameEscape_stageContext_virtual (m : InputMapper) (input : Input) (gKey : ℕ) :
    SameEscape m (m.stageContext (input.virtual gKey)) := by
  rw [stageContext_virtual]
  split
  · exact sameEscape_trackKey m _
  · exact SameEscape.refl

/-- All that decides whether a key ungrabs is settled in the first stage. -/
theorem sameEscape_processEvent (m : InputMapper) (input : Input) (skipMacros : Bool) :
    SameEscape (m.stageContext input) (m.processEvent input skipMacros) := by
  refine sameEscape_pipeline (fun m gKey => ?_) m skipMacros
  refine (sameEscape_stageContext_virtual m input gKey).trans ?_
  refine sameEscape_pipeline (fun m other => SameEscape.refl) m false

/-! ## What the first stage does -/

theorem isPress_iff {key : ℕ} : isPress key input = true ↔ input.ev = ⟨EV_KEY, key, 1⟩ := by
  rcases input with ⟨⟨type, code, value⟩, now, allReleased⟩
  simp [isPress, and_assoc]

theorem isPress_of_ne {key other : ℕ} (hpress : isPress key input = true)
    (hne : other ≠ key) : isPress other input = false := by
  rw [Bool.eq_false_iff, ne_eq, isPress_iff, isPress_iff.mp hpress]
  simp [hne.symm]

theorem sameEscape_stageContext_of_pause (hpause : isPress KEY_PAUSE input = true) :
    SameEscape m.ungrabDevices (m.stageContext input) := by
  have hstage : m.stageContext input = m.ungrabDevices.trackKey input.ev := by
    unfold stageContext escapeKeys
    rw [isPress_iff.mp hpause]
    rfl
  rw [hstage]
  exact sameEscape_trackKey _ _

theorem sameEscape_stageContext_of_scrollLock (hscroll : isPress KEY_SCROLLLOCK input = true) :
    SameEscape (m.pressScrollLock input.now) (m.stageContext input) := by
  have hstage :
      m.stageContext input = (m.pressScrollLock input.now).trackKey input.ev := by
    unfold stageContext escapeKeys
    rw [isPress_iff.mp hscroll]
    rfl
  rw [hstage]
  exact sameEscape_trackKey _ _

theorem sameEscape_stageContext_of_no_press (hpause : isPress KEY_PAUSE input = false)
    (hscroll : isPress KEY_SCROLLLOCK input = false)
    (hnumlock : isPress KEY_NUMLOCK input = false) : SameEscape m (m.stageContext input) := by
  unfold stageContext
  split
  · rename_i htype
    simp only [isPress, htype, decide_true, Bool.true_and, Bool.and_eq_false_iff,
      decide_eq_false_iff_not, ← not_and_or] at hpause hscroll hnumlock
    have hescape : m.escapeKeys input = m := by
      unfold escapeKeys
      rw [if_neg hpause, if_neg hscroll]
    rw [hescape, if_neg hnumlock]
    exact sameEscape_trackKey m _
  · exact SameEscape.refl

/-- A press of NumLock switches it over and, when that switches it on, ungrabs. -/
theorem stageContext_of_numLock (hnumlock : isPress KEY_NUMLOCK input = true) :
    ∃ grabbed : InputMapper, SameEscape grabbed (m.stageContext input) ∧
      grabbed = if m.numLockActive_ then
        { m.trackKey input.ev with numLockActive_ := false }.grabDevices input.allReleased
      else { m.trackKey input.ev with numLockActive_ := true }.ungrabDevices := by
  have hstage : m.stageContext input =
      (m.trackKey input.ev).setNumLockState (!m.numLockActive_) input.allReleased := by
    unfold stageContext escapeKeys
    rw [isPress_iff.mp hnumlock]
    rfl
  have htracked : (m.trackKey input.ev).numLockActive_ = m.numLockActive_ :=
    (sameEscape_trackKey m input.ev).numLockActive_
  refine ⟨_, ?_, rfl⟩
  rw [hstage]
  unfold setNumLockState
  rw [htracked]
  cases m.numLockActive_ <;> exact sameEscape_releaseAllPressedKeys _

/-! ## What one event does -/

def escapeCounter (m : InputMapper) : ℕ × ℕ :=
  (m.emergencyScrollCount_, m.emergencyFirstPress_)

theorem SameEscape.escapeCounter (hsame : SameEscape m m') :
    m'.escapeCounter = m.escapeCounter := by
  unfold InputMapper.escapeCounter
  rw [hsame.emergencyScrollCount_, hsame.emergencyFirstPress_]

@[simp] theorem numLockActive_pressScrollLock (now : ℕ) :
    (m.pressScrollLock now).numLockActive_ = m.numLockActive_ := by
  unfold pressScrollLock
  split_ifs <;> rfl

theorem grabDevices_escape (allReleased : Bool) :
    (m.grabDevices allReleased).escapeCounter = m.escapeCounter ∧
      (m.grabDevices allReleased).numLockActive_ = m.numLockActive_ := by
  unfold grabDevices
  split <;> exact ⟨rfl, rfl⟩

theorem numLockActive_processEvent (m : InputMapper) (input : Input) (skipMacros : Bool) :
    (m.processEvent input skipMacros).numLockActive_ =
      (m.numLockActive_ != isPress KEY_NUMLOCK input) := by
  rw [(sameEscape_processEvent m input skipMacros).numLockActive_]
  cases hnumlock : isPress KEY_NUMLOCK input with
  | true =>
      obtain ⟨grabbed, hsame, heq⟩ := stageContext_of_numLock (m := m) hnumlock
      rw [hsame.numLockActive_, heq]
      cases m.numLockActive_ with
      | true => exact (grabDevices_escape input.allReleased).2
      | false => rfl
  | false =>
      cases hpause : isPress KEY_PAUSE input with
      | true => simp [(sameEscape_stageContext_of_pause hpause).numLockActive_, ungrabDevices]
      | false =>
          cases hscroll : isPress KEY_SCROLLLOCK input with
          | true => simp [(sameEscape_stageContext_of_scrollLock hscroll).numLockActive_]
          | false =>
              simp [(sameEscape_stageContext_of_no_press hpause hscroll hnumlock).numLockActive_]

theorem escapeCounter_processEvent_of_scrollLock (m : InputMapper) (skipMacros : Bool)
    (hscroll : isPress KEY_SCROLLLOCK input = true) :
    (m.processEvent input skipMacros).escapeCounter =
      (m.pressScrollLock input.now).escapeCounter :=
  ((sameEscape_stageContext_of_scrollLock hscroll).trans
    (sameEscape_processEvent m input skipMacros)).escapeCounter

/-- Only presses of ScrollLock count. -/
theorem escapeCounter_processEvent_of_other (m : InputMapper) (skipMacros : Bool)
    (hscroll : isPress KEY_SCROLLLOCK input = false) :
    (m.processEvent input skipMacros).escapeCounter = m.escapeCounter := by
  rw [(sameEscape_processEvent m input skipMacros).escapeCounter]
  cases hnumlock : isPress KEY_NUMLOCK input with
  | true =>
      obtain ⟨grabbed, hsame, heq⟩ := stageContext_of_numLock (m := m) hnumlock
      rw [hsame.escapeCounter, heq]
      have htracked := (sameEscape_trackKey m input.ev).escapeCounter
      cases m.numLockActive_ with
      | true => exact (grabDevices_escape input.allReleased).1.trans htracked
      | false => exact htracked
  | false =>
      cases hpause : isPress KEY_PAUSE input with
      | true => exact (sameEscape_stageContext_of_pause hpause).escapeCounter
      | false => exact (sameEscape_stageContext_of_no_press hpause hscroll hnumlock).escapeCounter

theorem opensWindow_iff {now : ℕ} : m.opensWindow now = true ↔
    m.emergencyScrollCount_ = 0 ∨ m.emergencyFirstPress_ + SCROLLLOCK_WINDOW < now := by
  simp [opensWindow]

theorem monitoringMode_pressScrollLock (now : ℕ) :
    (m.pressScrollLock now).monitoringMode_ =
      (m.monitoringMode_ || m.completesTriple now) := by
  unfold pressScrollLock completesTriple
  cases hopens : m.opensWindow now with
  | true => rw [if_pos (opensWindow_iff.mp hopens)]; simp
  | false =>
      rw [if_neg (mt opensWindow_iff.mpr (by simp [hopens]))]
      split_ifs with hthird
      · simp [hthird, ungrabDevices]
      · simp [hthird]

/-- A mapper that has grabbed the devices gives them back in processing exactly
the events that `ungrabs` names. -/
theorem monitoringMode_processEvent_of_grabbed (m : InputMapper) (input : Input)
    (skipMacros : Bool) (hgrabbed : m.monitoringMode_ = false) :
    (m.processEvent input skipMacros).monitoringMode_ = m.ungrabs input := by
  rw [(sameEscape_processEvent m input skipMacros).monitoringMode_]
  unfold ungrabs otherUngrabs
  cases hnumlock : isPress KEY_NUMLOCK input with
  | true =>
      have hpause : isPress KEY_PAUSE input = false := isPress_of_ne hnumlock (by decide)
      have hscroll : isPress KEY_SCROLLLOCK input = false := isPress_of_ne hnumlock (by decide)
      obtain ⟨grabbed, hsame, heq⟩ := stageContext_of_numLock (m := m) hnumlock
      rw [hsame.monitoringMode_, heq, hpause, hscroll]
      have htracked := (sameEscape_trackKey m input.ev).monitoringMode_
      cases m.numLockActive_ with
      | true =>
          simp only [if_true]
          unfold grabDevices
          split
          · rfl
          · exact htracked.trans hgrabbed
      | false => rfl
  | false =>
      cases hpause : isPress KEY_PAUSE input with
      | true =>
          simp [(sameEscape_stageContext_of_pause hpause).monitoringMode_, ungrabDevices]
      | false =>
          cases hscroll : isPress KEY_SCROLLLOCK input with
          | true =>
              rw [(sameEscape_stageContext_of_scrollLock hscroll).monitoringMode_,
                monitoringMode_pressScrollLock, hgrabbed]
              simp
          | false =>
              rw [(sameEscape_stageContext_of_no_press hpause hscroll hnumlock).monitoringMode_,
                hgrabbed]
              simp

/-! ## What a sequence does -/

@[simp] theorem processAll_append (m : InputMapper) (events more : List (Input × Bool)) :
    m.processAll (events ++ more) = (m.processAll events).processAll more :=
  List.foldl_append

/-- How many presses of NumLock it takes to switch it on. -/
def numLockDistance (m : InputMapper) : ℕ := if m.numLockActive_ then 2 else 1

/-- Pause is pressed, or NumLock often enough to go on. -/
def otherKeysUngrab (m : InputMapper) (events : List (Input × Bool)) : Bool :=
  (events.any fun event => isPress KEY_PAUSE event.1) ||
    m.numLockDistance ≤ events.countP fun event => isPress KEY_NUMLOCK event.1

theorem otherKeysUngrab_eq_false {events : List (Input × Bool)}
    (hnone : ∀ event ∈ events, isPress KEY_PAUSE event.1 = false ∧
      isPress KEY_NUMLOCK event.1 = false) : m.otherKeysUngrab events = false := by
  have hpause : (events.any fun event => isPress KEY_PAUSE event.1) = false := by
    simpa using fun input skip hmem => (hnone (input, skip) hmem).1
  have hnumlock : (events.countP fun event => isPress KEY_NUMLOCK event.1) = 0 := by
    simpa [List.countP_eq_zero] using fun input skip hmem => (hnone (input, skip) hmem).2
  unfold otherKeysUngrab numLockDistance
  rw [hpause, hnumlock]
  cases m.numLockActive_ <;> rfl

/-- Some press of ScrollLock is the third one in its window. -/
def scrollLockUngrabs : InputMapper → List (Input × Bool) → Bool
  | _, [] => false
  | m, event :: events =>
      (isPress KEY_SCROLLLOCK event.1 && m.completesTriple event.1.now) ||
        (m.processEvent event.1 event.2).scrollLockUngrabs events

theorem otherKeysUngrab_cons (m : InputMapper) (event : Input × Bool)
    (events : List (Input × Bool)) :
    m.otherKeysUngrab (event :: events) =
      (m.otherUngrabs event.1 || (m.processEvent event.1 event.2).otherKeysUngrab events) := by
  unfold otherKeysUngrab otherUngrabs numLockDistance
  rw [numLockActive_processEvent, List.any_cons, List.countP_cons, Bool.eq_iff_iff]
  generalize (events.any fun event => isPress KEY_PAUSE event.1) = paused
  generalize (events.countP fun event => isPress KEY_NUMLOCK event.1) = presses
  cases m.numLockActive_ <;> cases isPress KEY_NUMLOCK event.1 <;> simp [or_assoc]

theorem ungrabsAlong_eq (m : InputMapper) (events : List (Input × Bool)) :
    m.ungrabsAlong events = (m.otherKeysUngrab events || m.scrollLockUngrabs events) := by
  induction events generalizing m with
  | nil => cases hactive : m.numLockActive_ <;>
      simp [ungrabsAlong, otherKeysUngrab, scrollLockUngrabs, numLockDistance, hactive]
  | cons event events ih =>
      simp only [ungrabsAlong, scrollLockUngrabs, ih, otherKeysUngrab_cons, ungrabs]
      ac_rfl

/-! ## Three presses of ScrollLock -/

/-- The press at `first` is the second one of a window, which is over at
`second`. -/
def windowEndsBetween (m : InputMapper) (first second : ℕ) : Prop :=
  m.emergencyScrollCount_ = 1 ∧ first ≤ m.emergencyFirstPress_ + SCROLLLOCK_WINDOW ∧
    m.emergencyFirstPress_ + SCROLLLOCK_WINDOW < second

instance (m : InputMapper) (first second : ℕ) : Decidable (m.windowEndsBetween first second) :=
  inferInstanceAs (Decidable (_ ∧ _ ∧ _))

def Nondecreasing (events : List (Input × Bool)) : Prop :=
  events.Pairwise fun earlier later => earlier.1.now ≤ later.1.now

instance (events : List (Input × Bool)) : Decidable (Nondecreasing events) :=
  inferInstanceAs (Decidable (events.Pairwise _))

theorem completesTriple_iff {now : ℕ} : m.completesTriple now = true ↔
    2 ≤ m.emergencyScrollCount_ ∧ now ≤ m.emergencyFirstPress_ + SCROLLLOCK_WINDOW := by
  simp only [completesTriple, opensWindow, Bool.and_eq_true, Bool.not_eq_true',
    Bool.or_eq_false_iff, decide_eq_false_iff_not, decide_eq_true_eq]
  omega

theorem escapeCounter_pressScrollLock (now : ℕ) :
    (m.pressScrollLock now).escapeCounter =
      if m.emergencyScrollCount_ = 0 ∨ m.emergencyFirstPress_ + SCROLLLOCK_WINDOW < now then
        (1, now)
      else if 3 ≤ m.emergencyScrollCount_ + 1 then (0, m.emergencyFirstPress_)
      else (m.emergencyScrollCount_ + 1, m.emergencyFirstPress_) := by
  unfold pressScrollLock
  split_ifs <;> rfl

/-- The counter over three presses, where nothing else is counted. -/
theorem completesTriple_of_three {m m₁ m₂ : InputMapper} {first second third : ℕ}
    (hfirst : m₁.escapeCounter = (m.pressScrollLock first).escapeCounter)
    (hsecond : m₂.escapeCounter = (m₁.pressScrollLock second).escapeCounter)
    (hfs : first ≤ second) (hst : second ≤ third) (hwithin : third ≤ first + SCROLLLOCK_WINDOW) :
    (m.completesTriple first || (m₁.completesTriple second || m₂.completesTriple third)) = true ↔
      ¬ m.windowEndsBetween first second := by
  rw [escapeCounter_pressScrollLock] at hfirst hsecond
  simp only [Bool.or_eq_true, completesTriple_iff, windowEndsBetween]
  unfold escapeCounter at hfirst hsecond
  split_ifs at hfirst hsecond <;> simp only [Prod.mk.injEq] at hfirst hsecond <;> omega

theorem scrollLockUngrabs_append (m : InputMapper) (events more : List (Input × Bool)) :
    m.scrollLockUngrabs (events ++ more) =
      (m.scrollLockUngrabs events || (m.processAll events).scrollLockUngrabs more) := by
  induction events generalizing m with
  | nil => rfl
  | cons event events ih =>
      simp only [List.cons_append, scrollLockUngrabs, ih, Bool.or_assoc]
      rfl

theorem no_scrollLock {m : InputMapper} {events : List (Input × Bool)}
    (hother : ∀ event ∈ events, isPress KEY_SCROLLLOCK event.1 = false) :
    m.scrollLockUngrabs events = false ∧
      (m.processAll events).escapeCounter = m.escapeCounter := by
  induction events generalizing m with
  | nil => exact ⟨rfl, rfl⟩
  | cons event events ih =>
      have hhead := hother event List.mem_cons_self
      obtain ⟨hungrabs, hcounter⟩ := ih (m := m.processEvent event.1 event.2)
        fun other hmem => hother other (List.mem_cons_of_mem event hmem)
      refine ⟨by simp [scrollLockUngrabs, hhead, hungrabs], ?_⟩
      exact hcounter.trans (escapeCounter_processEvent_of_other m event.2 hhead)

theorem scrollLockUngrabs_three_iff (m : InputMapper) {first second third : Input × Bool}
    {between after : List (Input × Bool)}
    (hfirst : isPress KEY_SCROLLLOCK first.1 = true)
    (hsecond : isPress KEY_SCROLLLOCK second.1 = true)
    (hthird : isPress KEY_SCROLLLOCK third.1 = true)
    (hbetween : ∀ event ∈ between, isPress KEY_SCROLLLOCK event.1 = false)
    (hafter : ∀ event ∈ after, isPress KEY_SCROLLLOCK event.1 = false)
    (hfs : first.1.now ≤ second.1.now) (hst : second.1.now ≤ third.1.now)
    (hwithin : third.1.now ≤ first.1.now + SCROLLLOCK_WINDOW) :
    m.scrollLockUngrabs (first :: between ++ second :: after ++ [third]) = true ↔
      ¬ m.windowEndsBetween first.1.now second.1.now := by
  obtain ⟨hquiet, hcounter⟩ := no_scrollLock (m := m.processEvent first.1 first.2) hbetween
  obtain ⟨hquiet', hcounter'⟩ := no_scrollLock
    (m := ((m.processEvent first.1 first.2).processAll between).processEvent second.1 second.2)
    hafter
  have hsegment : m.scrollLockUngrabs (first :: between ++ second :: after ++ [third]) =
      (m.completesTriple first.1.now ||
        (((m.processEvent first.1 first.2).processAll between).completesTriple second.1.now ||
          ((((m.processEvent first.1 first.2).processAll between).processEvent second.1
            second.2).processAll after).completesTriple third.1.now)) := by
    simp only [List.cons_append, List.append_assoc, scrollLockUngrabs, scrollLockUngrabs_append,
      hfirst, hsecond, hthird, hquiet, hquiet', Bool.true_and, Bool.false_or, Bool.or_false]
  rw [hsegment]
  exact completesTriple_of_three
    (hcounter.trans (escapeCounter_processEvent_of_scrollLock m first.2 hfirst))
    (hcounter'.trans (escapeCounter_processEvent_of_scrollLock _ second.2 hsecond))
    hfs hst hwithin

/-- Three consecutive presses of ScrollLock within a second ungrab, unless the
first of them is the second press of a window that ends before the second of
them; then it takes another key in the meantime. -/
theorem three_scrollLocks_ungrab_iff (m : InputMapper) {first second third : Input × Bool}
    {before between after : List (Input × Bool)}
    (hpresses : ∀ press ∈ [first, second, third], isPress KEY_SCROLLLOCK press.1 = true)
    (hothers : ∀ event ∈ between ++ after, isPress KEY_SCROLLLOCK event.1 = false)
    (hsorted : Nondecreasing (before ++ (first :: between ++ second :: after ++ [third])))
    (hwithin : third.1.now ≤ first.1.now + SCROLLLOCK_WINDOW) :
    (m.processAll before).ungrabsAlong (first :: between ++ second :: after ++ [third]) = true ↔
      ¬ (m.processAll before).windowEndsBetween first.1.now second.1.now ∨
        (m.processAll before).otherKeysUngrab
          (first :: between ++ second :: after ++ [third]) = true := by
  have hsegment := (List.pairwise_append.mp hsorted).2.1
  have hfs : first.1.now ≤ second.1.now := by
    rw [List.append_assoc, List.cons_append, List.pairwise_cons] at hsegment
    exact hsegment.1 second (by simp)
  have hst : second.1.now ≤ third.1.now :=
    (List.pairwise_append.mp hsegment).2.2 second (by simp) third (by simp)
  have hthree := scrollLockUngrabs_three_iff (m.processAll before) (hpresses first (by simp))
    (hpresses second (by simp)) (hpresses third (by simp))
    (fun event hmem => hothers event (List.mem_append_left after hmem))
    (fun event hmem => hothers event (List.mem_append_right between hmem)) hfs hst hwithin
  rw [ungrabsAlong_eq, Bool.or_eq_true, hthree, or_comm]

def scrollLockAt (now : ℕ) : Input × Bool := (⟨⟨EV_KEY, KEY_SCROLLLOCK, 1⟩, now, true⟩, false)

/-- Three quick presses from rest. -/
theorem three_scrollLocks_ungrab_from_rest :
    (({} : InputMapper).processAll []).ungrabsAlong
      [scrollLockAt 0, scrollLockAt 300000000, scrollLockAt 600000000] = true := by
  have hothers : ∀ event ∈ ([] ++ [] : List (Input × Bool)),
      isPress KEY_SCROLLLOCK event.1 = false := by decide
  have hsorted : Nondecreasing ([] ++ (scrollLockAt 0 :: [] ++ scrollLockAt 300000000 :: [] ++
      [scrollLockAt 600000000])) := by decide
  exact (three_scrollLocks_ungrab_iff {} (by decide) hothers hsorted (by decide)).mpr
    (Or.inl (by decide))

/-- A slow press at 0, then presses at 0.9, 1.5 and 1.8 seconds. -/
theorem three_scrollLocks_missed :
    ¬ ∀ (m : InputMapper) (first second third : Input × Bool)
        (before between after : List (Input × Bool)),
      (∀ press ∈ [first, second, third], isPress KEY_SCROLLLOCK press.1 = true) →
      (∀ event ∈ between ++ after, isPress KEY_SCROLLLOCK event.1 = false) →
      Nondecreasing (before ++ (first :: between ++ second :: after ++ [third])) →
      third.1.now ≤ first.1.now + SCROLLLOCK_WINDOW →
      (m.processAll before).ungrabsAlong
        (first :: between ++ second :: after ++ [third]) = true := by
  intro hall
  have hungrabs := hall {} (scrollLockAt 900000000) (scrollLockAt 1500000000)
    (scrollLockAt 1800000000) [scrollLockAt 0] [] [] (by decide) (by decide) (by decide)
    (by decide)
  have hcounter : (({} : InputMapper).processAll [scrollLockAt 0]).escapeCounter = (1, 0) :=
    escapeCounter_processEvent_of_scrollLock {} false
      (by decide : isPress KEY_SCROLLLOCK (scrollLockAt 0).1 = true)
  have hends : (({} : InputMapper).processAll [scrollLockAt 0]).windowEndsBetween
      900000000 1500000000 := by
    unfold escapeCounter at hcounter
    simp only [Prod.mk.injEq] at hcounter
    simp [windowEndsBetween, hcounter, SCROLLLOCK_WINDOW]
  rw [ungrabsAlong_eq, Bool.or_eq_true, scrollLockUngrabs_three_iff _ (by decide) (by decide)
    (by decide) (by decide) (by decide) (by decide) (by decide) (by decide)] at hungrabs
  rcases hungrabs with hother | hwindow
  · rw [otherKeysUngrab_eq_false (by decide)] at hother
    exact absurd hother (by decide)
  · exact hwindow hends

end InputMapper

end AutomateLinux
