import AutomateLinux.InputMapper

/-!
# What one turn of the macro loop does

A turn either leaves a combo alone, releases it, or records a match, which may
complete it.  Releasing and completing claim the combo's events and reset its
progress; only a recorded match adds to the registry.  Nothing else of the
mapper changes but the events written and the actions executed.
-/

namespace AutomateLinux

namespace InputMapper

variable {m m' m'' : InputMapper} {app app' : AppType} {comboIdx j : ℕ}

/-! ## Writing -/

@[simp] theorem write_combo (events : List InputEvent) :
    (m.write events).combo app j = m.combo app j := rfl

@[simp] theorem write_suppressionRegistry_ (events : List InputEvent) :
    (m.write events).suppressionRegistry_ = m.suppressionRegistry_ := rfl

theorem write_write (events more : List InputEvent) :
    (m.write events).write more = m.write (events ++ more) := by
  simp [write]

theorem emit_eq_write (ev : InputEvent) : m.emit ev = m.write [ev, synReport] := by
  simp [emit, sync, emitNoSync, write]

/-- The withheld events, each followed by a report. -/
def replay (claimed : List WithheldKey) : List InputEvent :=
  claimed.flatMap fun wk => [wk.event, synReport]

theorem foldl_emitUnblocked (claimed : List WithheldKey) :
    claimed.foldl emitUnblocked m =
      m.write (replay (claimed.filter fun wk => !m.suppressionRegistry_.isBlocked wk.code)) := by
  induction claimed generalizing m with
  | nil => simp [replay, write]
  | cons wk claimed ih =>
      rw [List.foldl_cons, ih]
      unfold emitUnblocked
      by_cases hblocked : m.suppressionRegistry_.isBlocked wk.code = true
      · simp [hblocked]
      · simp [hblocked, emit_eq_write, write_write, replay]

theorem foldl_emit {α : Type*} (event : α → InputEvent) (rows : List α) :
    rows.foldl (fun m row => m.emit (event row)) m =
      m.write (rows.flatMap fun row => [event row, synReport]) := by
  induction rows generalizing m with
  | nil => simp [write]
  | cons row rows ih =>
      rw [List.foldl_cons, ih, emit_eq_write, write_write]
      rfl

/-- The last stage writes the event, and a report unless it is a movement. -/
theorem emitFinal_eq_write (m : InputMapper) (ev : InputEvent) :
    ∃ own, own <+: [ev, synReport] ∧ m.emitFinal ev = m.write own := by
  unfold emitFinal
  split
  · exact ⟨[ev], ⟨[synReport], rfl⟩, rfl⟩
  · exact ⟨[ev, synReport], List.prefix_refl _, emit_eq_write ev⟩

/-- What is written for the event itself, if anything, comes after all that its
matching writes. -/
theorem matchAndEmit_eq_write (m : InputMapper) (input : Input) (skipMacros : Bool) :
    ∃ own, own <+: [input.ev, synReport] ∧
      m.matchAndEmit input skipMacros = (m.stageMacros input skipMacros).1.write own := by
  unfold matchAndEmit
  split
  · rename_i heq
    exact ⟨[], List.nil_prefix, by simp [heq, write]⟩
  · rename_i heq
    rw [heq]
    exact emitFinal_eq_write _ input.ev

/-- A release drops every combo and then writes the releases of the held keys. -/
theorem releaseAllPressedKeys_eq_write (m : InputMapper) :
    ∃ events, m.releaseAllPressedKeys =
      { (m.storedCombos.foldl dropCombo m).write events with
        pressedKeys_ := OrderedMap.empty } := by
  unfold releaseAllPressedKeys
  dsimp only
  rw [foldl_emit]
  exact ⟨_, congrArg (fun m : InputMapper => { m with pressedKeys_ := OrderedMap.empty })
    (write_write _ [synReport])⟩

/-! ## Progress and claims -/

theorem combo_setCombo (state : ComboState) :
    (m.setCombo app comboIdx state).combo app' j =
      if app' = app ∧ j = comboIdx then state else m.combo app' j := by
  unfold combo setCombo
  by_cases happ : app' = app
  · subst happ
    by_cases hj : j = comboIdx <;> simp [hj]
  · simp [happ]

@[simp] theorem setCombo_suppressionRegistry_ (state : ComboState) :
    (m.setCombo app comboIdx state).suppressionRegistry_ = m.suppressionRegistry_ := rfl

@[simp] theorem unclaim_combo : (m.unclaim comboIdx).combo app j = m.combo app j := rfl

@[simp] theorem unclaim_suppressionRegistry_ :
    (m.unclaim comboIdx).suppressionRegistry_ =
      m.suppressionRegistry_.unclaimed comboIdx := rfl

@[simp] theorem touchCombo_combo :
    (m.touchCombo app comboIdx).combo app' j = m.combo app' j := by
  unfold touchCombo
  rw [combo_setCombo]
  split
  · rename_i heq
    rw [heq.1, heq.2]
  · rfl

@[simp] theorem touchCombo_suppressionRegistry_ :
    (m.touchCombo app comboIdx).suppressionRegistry_ = m.suppressionRegistry_ := rfl

/-- Two states differ by giving up a combo: its events are claimed and its
progress is reset. -/
structure Released (m : InputMapper) (app : AppType) (comboIdx : ℕ) (m' : InputMapper) :
    Prop where
  registry : m'.suppressionRegistry_ = m.suppressionRegistry_.unclaimed comboIdx
  reset : m'.combo app comboIdx = (m.combo app comboIdx).reset
  others : ∀ app' j, ¬ (app' = app ∧ j = comboIdx) → m'.combo app' j = m.combo app' j

theorem released_resetCombo (hregistry : m'.suppressionRegistry_ =
      m.suppressionRegistry_.unclaimed comboIdx)
    (hcombo : ∀ app' j, m'.combo app' j = m.combo app' j) :
    Released m app comboIdx (m'.resetCombo app comboIdx) where
  registry := hregistry
  reset := by
    unfold resetCombo
    rw [combo_setCombo, if_pos ⟨rfl, rfl⟩, hcombo]
  others := by
    intro app' j hother
    unfold resetCombo
    rw [combo_setCombo, if_neg hother, hcombo]

/-- What a combo that is broken hands back. -/
def replayed (m : InputMapper) (comboIdx : ℕ) : List InputEvent :=
  replay ((m.suppressionRegistry_.claim comboIdx).1.filter fun wk =>
    !(m.suppressionRegistry_.unclaimed comboIdx).isBlocked wk.code)

theorem breakCombo_eq :
    m.breakCombo app comboIdx =
      ((m.unclaim comboIdx).write (m.replayed comboIdx ++ [synReport])).resetCombo app
        comboIdx := by
  unfold breakCombo
  dsimp only
  rw [foldl_emitUnblocked]
  simp only [sync, emitNoSync, write_write]
  rfl

theorem released_breakCombo (m : InputMapper) (app : AppType) (comboIdx : ℕ) :
    Released m app comboIdx (m.breakCombo app comboIdx) := by
  rw [breakCombo_eq]
  exact released_resetCombo rfl fun _ _ => rfl

theorem executeKeyAction_eq (action : KeyAction) :
    ∃ events pastes, m.executeKeyAction action =
      { m.write events with executed := m.executed ++ [action], pendingPastes := pastes } := by
  unfold executeKeyAction
  cases action.customHandler with
  | none => exact ⟨_, _, rfl⟩
  | some handler =>
      cases handler
      exact ⟨[], m.pendingPastes + 1, by simp [write]⟩

theorem released_completeCombo (m : InputMapper) (app : AppType) (comboIdx : ℕ)
    (action : KeyAction) :
    Released m app comboIdx (m.completeCombo app comboIdx action) := by
  obtain ⟨events, pastes, heq⟩ :=
    executeKeyAction_eq (m := m.unclaim comboIdx) action
  unfold completeCombo
  rw [heq]
  exact released_resetCombo rfl fun _ _ => rfl

theorem combo_recordMatch (step : TriggerStep) (input : Input)
    (hother : ¬ (app' = app ∧ j = comboIdx)) :
    (m.recordMatch app comboIdx step input).combo app' j = m.combo app' j := by
  unfold recordMatch
  dsimp only
  split
  · exact (combo_setCombo _).trans (if_neg hother)
  · exact (combo_setCombo _).trans (if_neg hother)

theorem combo_recordMatch_self (step : TriggerStep) (input : Input) :
    (m.recordMatch app comboIdx step input).combo app comboIdx =
      { nextKeyIndex := (m.combo app comboIdx).nextKeyIndex + 1
        suppressedEvents :=
          (m.combo app comboIdx).suppressedEvents ++ if step.suppress then [input.ev] else []
        lastMatchTime := input.now } := by
  unfold recordMatch
  dsimp only
  by_cases hsuppress : step.suppress = true
  · rw [if_pos hsuppress, if_pos hsuppress]
    exact (combo_setCombo _).trans (if_pos ⟨rfl, rfl⟩)
  · rw [if_neg hsuppress, if_neg hsuppress, List.append_nil]
    exact (combo_setCombo _).trans (if_pos ⟨rfl, rfl⟩)

/-- The entry that a suppressed step adds to the registry. -/
def withheldKey (input : Input) (comboIdx : ℕ) : WithheldKey :=
  ⟨input.ev.type, input.ev.code, input.ev.value, comboIdx⟩

theorem recordMatch_suppressionRegistry_ (step : TriggerStep) (input : Input) :
    (m.recordMatch app comboIdx step input).suppressionRegistry_ =
      if step.suppress then m.suppressionRegistry_.add (withheldKey input comboIdx)
      else m.suppressionRegistry_ := by
  unfold recordMatch
  dsimp only
  split <;> rfl

/-! ## The turns -/

theorem expireCombo_cases (m : InputMapper) (app : AppType) (comboIdx now : ℕ) :
    m.expireCombo app comboIdx now = m.breakCombo app comboIdx ∨
      m.expireCombo app comboIdx now = m := by
  unfold expireCombo
  split
  · exact Or.inl rfl
  · exact Or.inr rfl

/-- The mapper after the timeout check. -/
def expired (m : InputMapper) (app : AppType) (input : Input) (comboIdx : ℕ) : InputMapper :=
  (m.touchCombo app comboIdx).expireCombo app comboIdx input.now

theorem executed_breakCombo : (m.breakCombo app comboIdx).executed = m.executed := by
  rw [breakCombo_eq]
  rfl

theorem executed_recordMatch (step : TriggerStep) (input : Input) :
    (m.recordMatch app comboIdx step input).executed = m.executed := by
  unfold recordMatch
  dsimp only
  split <;> rfl

theorem executed_completeCombo (action : KeyAction) :
    (m.completeCombo app comboIdx action).executed = m.executed ++ [action] := by
  obtain ⟨events, pastes, heq⟩ :=
    executeKeyAction_eq (m := m.unclaim comboIdx) action
  unfold completeCombo
  rw [heq]
  rfl

theorem executed_expired (m : InputMapper) (app : AppType) (input : Input) (comboIdx : ℕ) :
    (m.expired app input comboIdx).executed = m.executed := by
  unfold expired
  rcases expireCombo_cases (m.touchCombo app comboIdx) app comboIdx input.now with h | h
  · rw [h, executed_breakCombo]
    rfl
  · rw [h]
    rfl

/-- NumLock keeps all but the keyboard macros from matching. -/
def disabled (m : InputMapper) (action : KeyAction) : Bool :=
  m.numLockActive_ && !isKeyboardOnlyMacro action

/-- The step that the event matches, if it is the expected one. -/
def matchedStep (m : InputMapper) (app : AppType) (input : Input) (action : KeyAction)
    (comboIdx : ℕ) : Option TriggerStep :=
  if m.disabled action then none
  else (action.trigger.events[(m.combo app comboIdx).nextKeyIndex]?).filter fun step =>
    matchesStep step input.ev

/-- A combo in progress is broken, by NumLock or by the event. -/
def breaks (m : InputMapper) (app : AppType) (input : Input) (action : KeyAction)
    (comboIdx : ℕ) : Bool :=
  let nextKeyIndex := (m.combo app comboIdx).nextKeyIndex
  0 < nextKeyIndex &&
    (m.disabled action ||
      (action.trigger.events[nextKeyIndex]?).any fun step =>
        !matchesStep step input.ev && shouldBreak action nextKeyIndex step input.ev)

theorem matchCombo_eq (app : AppType) (input : Input) (action : KeyAction) (comboIdx : ℕ) :
    m.matchCombo app input action comboIdx =
      if m.breaks app input action comboIdx then (m.breakCombo app comboIdx, false)
      else match m.matchedStep app input action comboIdx with
        | none => (m, false)
        | some step => (m.advanceCombo app comboIdx action step input, step.suppress) := by
  unfold matchCombo breaks matchedStep disabled
  dsimp only
  by_cases hdisabled : (m.numLockActive_ && !isKeyboardOnlyMacro action) = true
  · by_cases hprogress : 0 < (m.combo app comboIdx).nextKeyIndex <;>
      simp [hdisabled, hprogress]
  · rcases Option.eq_none_or_eq_some
        action.trigger.events[(m.combo app comboIdx).nextKeyIndex]? with hnone | ⟨step, hstep⟩
    · simp [hdisabled, hnone]
    · by_cases hmatch : matchesStep step input.ev = true
      · simp [hdisabled, hstep, Option.filter, hmatch]
      · simp [hdisabled, hstep, Option.filter, hmatch]

theorem matchCombo_cases (app : AppType) (input : Input) (action : KeyAction)
    (comboIdx : ℕ) :
    m.matchCombo app input action comboIdx = (m.breakCombo app comboIdx, false) ∨
    m.matchCombo app input action comboIdx = (m, false) ∨
    ∃ step,
      m.matchCombo app input action comboIdx =
          (m.recordMatch app comboIdx step input, step.suppress) ∨
      m.matchCombo app input action comboIdx =
          ((m.recordMatch app comboIdx step input).completeCombo app comboIdx action,
            step.suppress) := by
  rw [matchCombo_eq]
  split
  · exact Or.inl rfl
  · split
    · exact Or.inr (Or.inl rfl)
    · rename_i step _
      refine Or.inr (Or.inr ⟨step, ?_⟩)
      unfold advanceCombo
      dsimp only
      split
      · exact Or.inr rfl
      · exact Or.inl rfl

theorem comboTurn_fst {input : Input} {acc : InputMapper × Bool} {row : KeyAction × ℕ}
    (htrigger : row.1.trigger.events ≠ []) :
    (comboTurn app input acc row).1 =
      ((acc.1.expired app input row.2).matchCombo app input row.1 row.2).1 := by
  unfold comboTurn
  rw [if_neg htrigger]
  rfl

/-- The rule for a property of the mapper along the macro loop: it is enough
that touching, breaking, recording and completing keep it. -/
theorem comboTurn_keeps {I : InputMapper → Prop} (app : AppType) (input : Input)
    (row : KeyAction × ℕ)
    (htouch : ∀ {m}, I m → I (m.touchCombo app row.2))
    (hbreak : ∀ {m}, I m → I (m.breakCombo app row.2))
    (hrecord : ∀ {m} step, I m → I (m.recordMatch app row.2 step input))
    (hcomplete : ∀ {m}, I m → I (m.completeCombo app row.2 row.1))
    {acc : InputMapper × Bool} (hinv : I acc.1) :
    I (comboTurn app input acc row).1 := by
  unfold comboTurn
  split
  · exact hinv
  · have hexpired : I ((acc.1.touchCombo app row.2).expireCombo app row.2 input.now) := by
      rcases expireCombo_cases (acc.1.touchCombo app row.2) app row.2 input.now with h | h
      · rw [h]
        exact hbreak (htouch hinv)
      · rw [h]
        exact htouch hinv
    rcases matchCombo_cases (m := (acc.1.touchCombo app row.2).expireCombo app row.2 input.now)
      app input row.1 row.2 with h | h | ⟨step, h | h⟩
    · simp only [h]
      exact hbreak hexpired
    · simp only [h]
      exact hexpired
    · simp only [h]
      exact hrecord step hexpired
    · simp only [h]
      exact hcomplete (hrecord step hexpired)

theorem stageMacros_keeps {I : InputMapper → Prop} (input : Input) (skipMacros : Bool)
    (hturn : ∀ {acc} row, I acc.1 → I (comboTurn m.activeApp_ input acc row).1)
    (hinv : I m) : I (m.stageMacros input skipMacros).1 := by
  unfold stageMacros
  split
  · exact hinv
  · split
    · exact hinv
    · rename_i macros _
      have hloop : ∀ (rows : List (KeyAction × ℕ)) acc, I acc.1 →
          I (rows.foldl (comboTurn m.activeApp_ input) acc).1 := by
        intro rows
        induction rows with
        | nil => exact fun _ h => h
        | cons row rows ih => exact fun acc h => ih _ (hturn row h)
      have hfinal := hloop macros.zipIdx (m, false) hinv
      dsimp only
      split
      · exact hfinal
      · split <;> exact hfinal

theorem stageMacros_fst {input : Input} {macros : List KeyAction}
    (hmacros : m.appMacros_ m.activeApp_ = some macros) :
    (m.stageMacros input false).1 =
      (macros.zipIdx.foldl (comboTurn m.activeApp_ input) (m, false)).1 := by
  unfold stageMacros
  rw [if_neg (by decide), hmacros]
  dsimp only
  split_ifs <;> rfl

/-! ## What a turn leaves alone -/

/-- The two states have the same application, macros and modes. -/
structure SameSettings (m m' : InputMapper) : Prop where
  appMacros_ : m'.appMacros_ = m.appMacros_
  activeApp_ : m'.activeApp_ = m.activeApp_
  numLockActive_ : m'.numLockActive_ = m.numLockActive_
  monitoringMode_ : m'.monitoringMode_ = m.monitoringMode_

theorem SameSettings.refl : SameSettings m m := ⟨rfl, rfl, rfl, rfl⟩

theorem SameSettings.trans (hfirst : SameSettings m m') (hsecond : SameSettings m' m'') :
    SameSettings m m'' where
  appMacros_ := hsecond.appMacros_.trans hfirst.appMacros_
  activeApp_ := hsecond.activeApp_.trans hfirst.activeApp_
  numLockActive_ := hsecond.numLockActive_.trans hfirst.numLockActive_
  monitoringMode_ := hsecond.monitoringMode_.trans hfirst.monitoringMode_

theorem sameSettings_breakCombo : SameSettings m (m.breakCombo app comboIdx) := by
  rw [breakCombo_eq]
  exact ⟨rfl, rfl, rfl, rfl⟩

theorem sameSettings_recordMatch (step : TriggerStep) (input : Input) :
    SameSettings m (m.recordMatch app comboIdx step input) := by
  unfold recordMatch
  dsimp only
  split <;> exact ⟨rfl, rfl, rfl, rfl⟩

theorem sameSettings_completeCombo (action : KeyAction) :
    SameSettings m (m.completeCombo app comboIdx action) := by
  obtain ⟨events, pastes, heq⟩ :=
    executeKeyAction_eq (m := m.unclaim comboIdx) action
  unfold completeCombo
  rw [heq]
  exact ⟨rfl, rfl, rfl, rfl⟩

theorem sameSettings_comboTurn (app : AppType) (input : Input) (acc : InputMapper × Bool)
    (row : KeyAction × ℕ) : SameSettings acc.1 (comboTurn app input acc row).1 :=
  comboTurn_keeps (I := SameSettings acc.1) app input row
    (fun h => h.trans ⟨rfl, rfl, rfl, rfl⟩)
    (fun h => h.trans sameSettings_breakCombo)
    (fun step h => h.trans (sameSettings_recordMatch step input))
    (fun h => h.trans (sameSettings_completeCombo row.1)) SameSettings.refl

theorem sameSettings_stageMacros (input : Input) (skipMacros : Bool) :
    SameSettings m (m.stageMacros input skipMacros).1 :=
  stageMacros_keeps (I := SameSettings m) input skipMacros
    (fun {acc} row h => h.trans (sameSettings_comboTurn m.activeApp_ input acc row))
    SameSettings.refl

theorem sameSettings_matchAndEmit (input : Input) (skipMacros : Bool) :
    SameSettings m (m.matchAndEmit input skipMacros) := by
  obtain ⟨own, -, heq⟩ := matchAndEmit_eq_write m input skipMacros
  rw [heq]
  exact (sameSettings_stageMacros input skipMacros).trans ⟨rfl, rfl, rfl, rfl⟩

/-- The two states agree on all that macro matching reads and writes. -/
structure SameMatching (m m' : InputMapper) : Prop where
  appMacros_ : m'.appMacros_ = m.appMacros_
  comboProgress_ : m'.comboProgress_ = m.comboProgress_
  suppressionRegistry_ : m'.suppressionRegistry_ = m.suppressionRegistry_
  numLockActive_ : m'.numLockActive_ = m.numLockActive_
  activeApp_ : m'.activeApp_ = m.activeApp_
  uinput : m'.uinput = m.uinput
  executed : m'.executed = m.executed

theorem SameMatching.trans (hfirst : SameMatching m m') (hsecond : SameMatching m' m'') :
    SameMatching m m'' where
  appMacros_ := hsecond.appMacros_.trans hfirst.appMacros_
  comboProgress_ := hsecond.comboProgress_.trans hfirst.comboProgress_
  suppressionRegistry_ := hsecond.suppressionRegistry_.trans hfirst.suppressionRegistry_
  numLockActive_ := hsecond.numLockActive_.trans hfirst.numLockActive_
  activeApp_ := hsecond.activeApp_.trans hfirst.activeApp_
  uinput := hsecond.uinput.trans hfirst.uinput
  executed := hsecond.executed.trans hfirst.executed

theorem SameMatching.combo (hsame : SameMatching m m') (app : AppType) (j : ℕ) :
    m'.combo app j = m.combo app j := by
  unfold InputMapper.combo
  rw [hsame.comboProgress_]

theorem SameMatching.refl : SameMatching m m := ⟨rfl, rfl, rfl, rfl, rfl, rfl, rfl⟩

theorem sameMatching_pressScrollLock (now : ℕ) : SameMatching m (m.pressScrollLock now) := by
  unfold pressScrollLock
  split_ifs <;> exact ⟨rfl, rfl, rfl, rfl, rfl, rfl, rfl⟩

theorem sameMatching_escapeKeys (input : Input) : SameMatching m (m.escapeKeys input) := by
  have hpause : SameMatching m
      (if input.ev.code = KEY_PAUSE ∧ input.ev.value = 1 then m.ungrabDevices else m) := by
    split <;> exact ⟨rfl, rfl, rfl, rfl, rfl, rfl, rfl⟩
  unfold escapeKeys
  dsimp only
  split
  · exact hpause.trans (sameMatching_pressScrollLock input.now)
  · exact hpause

theorem sameMatching_trackKey (ev : InputEvent) : SameMatching m (m.trackKey ev) := by
  unfold trackKey
  dsimp only
  split_ifs <;> exact ⟨rfl, rfl, rfl, rfl, rfl, rfl, rfl⟩

theorem sameMatching_detectGKey (ev : InputEvent) :
    SameMatching m (m.detectGKey ev).2 :=
  ⟨rfl, rfl, rfl, rfl, rfl, rfl, rfl⟩

/-- NumLock presses apart, the first stage keeps out of the macros. -/
theorem stageContext_cases (input : Input) :
    SameMatching m (m.stageContext input) ∨
      ∃ tracked active allReleased, SameMatching m tracked ∧
        m.stageContext input = tracked.setNumLockState active allReleased := by
  have htracked : SameMatching m ((m.escapeKeys input).trackKey input.ev) :=
    (sameMatching_escapeKeys input).trans (sameMatching_trackKey input.ev)
  unfold stageContext
  split
  · dsimp only
    split
    · exact Or.inr ⟨_, _, _, htracked, rfl⟩
    · exact Or.inl htracked
  · exact Or.inl SameMatching.refl

theorem sameMatching_stageContext_of_not_press {input : Input}
    (hpress : ¬ (input.ev.code = KEY_NUMLOCK ∧ input.ev.value = 1)) :
    SameMatching m (m.stageContext input) := by
  unfold stageContext
  split
  · exact (sameMatching_escapeKeys input).trans (sameMatching_trackKey input.ev)
  · exact SameMatching.refl

theorem sameMatching_stageContext {input : Input} (hnumlock : input.ev.code ≠ KEY_NUMLOCK) :
    SameMatching m (m.stageContext input) :=
  sameMatching_stageContext_of_not_press fun h => hnumlock h.1

/-- The virtual event of a G-key is no key that the first stage knows. -/
theorem stageContext_virtual (input : Input) (gKey : ℕ) :
    m.stageContext (input.virtual gKey) =
      if input.ev.type = EV_KEY then m.trackKey (input.virtual gKey).ev else m := by
  have hcode : (input.virtual gKey).ev.code = 1000 + gKey := rfl
  have hother : ∀ known, known < 1000 →
      ¬ ((input.virtual gKey).ev.code = known ∧ (input.virtual gKey).ev.value = 1) := by
    rintro known hknown ⟨heq, -⟩
    omega
  have hescape : m.escapeKeys (input.virtual gKey) = m := by
    unfold escapeKeys
    rw [if_neg (hother KEY_PAUSE (by decide)), if_neg (hother KEY_SCROLLLOCK (by decide))]
  unfold stageContext
  rw [hescape, if_neg (hother KEY_NUMLOCK (by decide))]
  rfl

/-! ## Where the macros come in -/

def pipelineUpToMacros (nested : InputMapper → Input → InputMapper × Option Input)
    (m : InputMapper) (input : Input) (skipMacros : Bool) : InputMapper × Option Input :=
  let m := m.stageContext input
  if m.monitoringMode_ then (m, none)
  else if skipMacros then (m.matchAndEmit input true, none)
  else
    match m.detectGKey input.ev with
    | (some gKey, m) => nested m (input.virtual gKey)
    | (none, m) => (m, some input)

/-- The mapper when an event has been through the first two stages, and the event
that is then matched against the macros, if there is one. -/
def upToMacros (m : InputMapper) (input : Input) (skipMacros : Bool) :
    InputMapper × Option Input :=
  m.pipelineUpToMacros (fun m virtual => m.pipelineUpToMacros (fun m _ => (m, none)) virtual false)
    input skipMacros

def matchReached (reached : InputMapper × Option Input) : InputMapper :=
  match reached.2 with
  | some e => reached.1.matchAndEmit e false
  | none => reached.1

theorem pipeline_eq_matchReached {nested : InputMapper → Input → InputMapper}
    {nestedUpTo : InputMapper → Input → InputMapper × Option Input}
    (hnested : ∀ m virtual, nested m virtual = matchReached (nestedUpTo m virtual))
    (m : InputMapper) (input : Input) (skipMacros : Bool) :
    m.pipeline nested input skipMacros =
      matchReached (m.pipelineUpToMacros nestedUpTo input skipMacros) := by
  unfold pipeline pipelineUpToMacros
  dsimp only
  split
  · rfl
  · split
    · rfl
    · rcases (m.stageContext input).detectGKey input.ev with ⟨gKey, detected⟩
      cases gKey with
      | none => rfl
      | some gKey => exact hnested detected (input.virtual gKey)

theorem processEvent_eq_matchReached (m : InputMapper) (input : Input) (skipMacros : Bool) :
    m.processEvent input skipMacros = matchReached (m.upToMacros input skipMacros) := by
  have hdeepest : ∀ (m : InputMapper) (_ : Input), m = matchReached (m, none) := fun _ _ => rfl
  exact pipeline_eq_matchReached
    (fun m virtual => pipeline_eq_matchReached hdeepest m virtual false) m input skipMacros

theorem pipelineUpToMacros_keeps {I : InputMapper → Prop}
    {nested : InputMapper → Input → InputMapper × Option Input}
    (hsame : ∀ {m m'}, SameMatching m m' → I m → I m')
    (hwrite : ∀ {m} events, I m → I (m.write events)) (input : Input)
    (hnested : ∀ {m} gKey, I m → I (nested m (input.virtual gKey)).1) (skipMacros : Bool)
    (hcontext : I (m.stageContext input)) :
    I (m.pipelineUpToMacros nested input skipMacros).1 := by
  have hdetect := hsame (sameMatching_detectGKey (m := m.stageContext input) input.ev) hcontext
  unfold pipelineUpToMacros
  dsimp only
  split
  · exact hcontext
  · split
    · obtain ⟨own, -, heq⟩ := matchAndEmit_eq_write (m.stageContext input) input true
      rw [heq]
      exact hwrite own hcontext
    · rcases hkey : (m.stageContext input).detectGKey input.ev with ⟨gKey, detected⟩
      rw [hkey] at hdetect
      cases gKey with
      | none => exact hdetect
      | some gKey => exact hnested gKey hdetect

theorem sameMatching_stageContext_virtual (m : InputMapper) (input : Input) (gKey : ℕ) :
    SameMatching m (m.stageContext (input.virtual gKey)) := by
  apply sameMatching_stageContext
  show 1000 + gKey ≠ KEY_NUMLOCK
  unfold KEY_NUMLOCK
  omega

/-- The rule for a property of the mapper in the first two stages. -/
theorem upToMacros_keeps {I : InputMapper → Prop}
    (hsame : ∀ {m m'}, SameMatching m m' → I m → I m')
    (hwrite : ∀ {m} events, I m → I (m.write events)) (input : Input) (skipMacros : Bool)
    (hcontext : I (m.stageContext input)) : I (m.upToMacros input skipMacros).1 :=
  pipelineUpToMacros_keeps hsame hwrite input
    (fun gKey h =>
      pipelineUpToMacros_keeps hsame hwrite (input.virtual gKey) (fun _ h => h) false
        (hsame (sameMatching_stageContext_virtual _ input gKey) h))
    skipMacros hcontext

/-- The rule for a property of the mapper in the last two stages. -/
theorem matchAndEmit_keeps {I : InputMapper → Prop} {input : Input}
    (hturn : ∀ {acc} row, I acc.1 → I (comboTurn m.activeApp_ input acc row).1)
    (hwrite : ∀ {m} events, I m → I (m.write events)) (skipMacros : Bool) (hinv : I m) :
    I (m.matchAndEmit input skipMacros) := by
  obtain ⟨own, -, heq⟩ := matchAndEmit_eq_write m input skipMacros
  rw [heq]
  exact hwrite own (stageMacros_keeps input skipMacros hturn hinv)

end InputMapper

end AutomateLinux
