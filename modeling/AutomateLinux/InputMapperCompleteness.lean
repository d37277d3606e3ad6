import AutomateLinux.InputMapperSoundness

/-!
# Typed macros are executed

The last events that the macro stage was fed match a trigger.  The combo
completes at the last of them when it was at its start before the first; when a
partial match is in its way, it completes only if the partial match lasts until
the two are level.  The event that breaks a partial match is not tried as the
first step.
-/

namespace AutomateLinux

open TransitionSystem

namespace InputMapper

open SequenceMatcher (Progress Verdict)

variable {m m' : InputMapper} {app app' : AppType} {comboIdx j : ℕ} {input : Input}
  {action : KeyAction}

/-! ## What the macro stage is fed -/

/-- The event that an operation hands to the macro stage. -/
def fedEvent (m : InputMapper) : Operation → Option Input
  | .processEvent input skipMacros =>
      let m := m.stageContext input
      if m.monitoringMode_ || skipMacros then none
      else
        match (m.detectGKey input.ev).1 with
        | some gKey => some (input.virtual gKey)
        | none => some input
  | _ => none

def fed : InputMapper → List Operation → List Input
  | _, [] => []
  | m, op :: ops =>
      match m.step op with
      | none => []
      | some next => (m.fedEvent op).toList ++ fed next ops

/-- An operation while the devices are grabbed that leaves the application, the
macros and NumLock alone. -/
def Quiet (m : InputMapper) : Operation → Prop
  | .processEvent input _ =>
      ¬ (input.ev.code = KEY_NUMLOCK ∧ input.ev.value = 1) ∧
        (m.stageContext input).monitoringMode_ = false
  | .emit _ => True
  | .sync => True
  | .paste => True
  | _ => False

instance (m : InputMapper) : ∀ op, Decidable (m.Quiet op)
  | .processEvent input _ =>
      inferInstanceAs (Decidable (¬ (input.ev.code = KEY_NUMLOCK ∧ input.ev.value = 1) ∧
        (m.stageContext input).monitoringMode_ = false))
  | .emit _ | .sync | .paste => .isTrue trivial
  | .flushAndResetState | .setContext _ _ _ | .setNumLockState _ _ | .setMacrosFromJson _
  | .loadPersistence _ | .setupDevices _ | .grabDevices _ | .ungrabDevices => .isFalse id

/-- Two states whose combos are the same and have executed the same. -/
structure SameCombos (m m' : InputMapper) : Prop where
  appMacros_ : m'.appMacros_ = m.appMacros_
  activeApp_ : m'.activeApp_ = m.activeApp_
  numLockActive_ : m'.numLockActive_ = m.numLockActive_
  progress : ∀ app j, m'.progress app j = m.progress app j
  executed : m'.executed = m.executed

theorem SameMatching.sameCombos (hsame : SameMatching m m') : SameCombos m m' where
  appMacros_ := hsame.appMacros_
  activeApp_ := hsame.activeApp_
  numLockActive_ := hsame.numLockActive_
  progress := by
    intro app j
    unfold InputMapper.progress
    rw [hsame.combo]
  executed := hsame.executed

theorem sameCombos_write (events : List InputEvent) : SameCombos m (m.write events) :=
  ⟨rfl, rfl, rfl, fun _ _ => rfl, rfl⟩

theorem sameCombos_emitFinal (ev : InputEvent) : SameCombos m (m.emitFinal ev) := by
  obtain ⟨own, -, heq⟩ := emitFinal_eq_write m ev
  rw [heq]
  exact sameCombos_write own

theorem SameCombos.trans {m'' : InputMapper} (hfirst : SameCombos m m')
    (hsecond : SameCombos m' m'') : SameCombos m m'' where
  appMacros_ := hsecond.appMacros_.trans hfirst.appMacros_
  activeApp_ := hsecond.activeApp_.trans hfirst.activeApp_
  numLockActive_ := hsecond.numLockActive_.trans hfirst.numLockActive_
  progress := fun app j => (hsecond.progress app j).trans (hfirst.progress app j)
  executed := hsecond.executed.trans hfirst.executed

theorem SameCombos.matcher (hsame : SameCombos m m') : m'.matcher action = m.matcher action := by
  unfold InputMapper.matcher
  rw [hsame.numLockActive_]

theorem SameCombos.completes (hsame : SameCombos m m') (row : KeyAction × ℕ) :
    m'.completes app input row = m.completes app input row := by
  unfold InputMapper.completes verdict
  rw [hsame.matcher, hsame.progress]

/-- The virtual event of a G-key passes the first stage unnoticed. -/
theorem sameMatching_virtual (m : InputMapper) (input : Input) (gKey : ℕ) :
    SameMatching m (m.stageContext (input.virtual gKey)) ∧
      (m.stageContext (input.virtual gKey)).monitoringMode_ = m.monitoringMode_ := by
  rw [stageContext_virtual]
  split
  · refine ⟨sameMatching_trackKey _, ?_⟩
    unfold trackKey
    dsimp only
    split_ifs <;> rfl
  · exact ⟨SameMatching.refl, rfl⟩

theorem processEvent_of_fed {skipMacros : Bool} {e : Input}
    (hquiet : m.Quiet (.processEvent input skipMacros))
    (hfed : m.fedEvent (.processEvent input skipMacros) = some e) :
    ∃ ready, SameMatching m ready ∧
      m.processEvent input skipMacros = ready.matchAndEmit e false := by
  obtain ⟨hpress, hgrabbed⟩ := hquiet
  have hcontext := sameMatching_stageContext_of_not_press (m := m) hpress
  have hdetect := hcontext.trans (sameMatching_detectGKey input.ev)
  unfold fedEvent at hfed
  dsimp only at hfed
  rw [hgrabbed] at hfed
  cases skipMacros with
  | true => simp at hfed
  | false =>
      unfold processEvent pipeline
      dsimp only
      rw [hgrabbed]
      rcases hkey : (m.stageContext input).detectGKey input.ev with ⟨gKey, detected⟩
      rw [hkey] at hfed hdetect
      cases gKey with
      | none =>
          obtain rfl : input = e := by simpa using hfed
          exact ⟨detected, hdetect, rfl⟩
      | some gKey =>
          obtain rfl : input.virtual gKey = e := by simpa using hfed
          obtain ⟨hvirtual, hmonitoring⟩ :=
            sameMatching_virtual detected input gKey
          have hgrabbed' : detected.monitoringMode_ = false := by
            have hdetected : ((m.stageContext input).detectGKey input.ev).2 = detected :=
              congrArg Prod.snd hkey
            rw [← hgrabbed, ← hdetected]
            rfl
          have hnone : ((detected.stageContext (input.virtual gKey)).detectGKey
              (input.virtual gKey).ev).1 = none := nextGToggle_virtual _ gKey input
          rcases hkey' : (detected.stageContext (input.virtual gKey)).detectGKey
            (input.virtual gKey).ev with ⟨gKey', ready⟩
          rw [hkey'] at hnone
          obtain rfl : gKey' = none := hnone
          have hready := hvirtual.trans (sameMatching_detectGKey (input.virtual gKey).ev)
          rw [hkey'] at hready
          refine ⟨ready, hdetect.trans hready, ?_⟩
          dsimp only
          rw [hmonitoring, hgrabbed', hkey']
          rfl

theorem processEvent_of_not_fed {skipMacros : Bool}
    (hquiet : m.Quiet (.processEvent input skipMacros))
    (hfed : m.fedEvent (.processEvent input skipMacros) = none) :
    SameCombos m (m.processEvent input skipMacros) := by
  obtain ⟨hpress, hgrabbed⟩ := hquiet
  have hcontext := (sameMatching_stageContext_of_not_press (m := m) hpress).sameCombos
  unfold fedEvent at hfed
  dsimp only at hfed
  rw [hgrabbed] at hfed
  cases skipMacros with
  | true =>
      unfold processEvent pipeline
      dsimp only
      rw [hgrabbed]
      exact hcontext.trans (sameCombos_emitFinal input.ev)
  | false =>
      rcases (m.stageContext input).detectGKey input.ev with ⟨gKey, detected⟩
      cases hgKey : ((m.stageContext input).detectGKey input.ev).1 <;> simp [hgKey] at hfed

/-! ## The window -/

/-- The combos after the macro stage has been fed an event. -/
structure FedBy (m : InputMapper) (e : Input) (macros : List KeyAction) (m' : InputMapper) :
    Prop where
  appMacros_ : m'.appMacros_ = m.appMacros_
  activeApp_ : m'.activeApp_ = m.activeApp_
  numLockActive_ : m'.numLockActive_ = m.numLockActive_
  progress : ∀ row ∈ macros.zipIdx, row.1.trigger.events ≠ [] →
    m'.progress m.activeApp_ row.2 =
      (m.matcher row.1).step (m.progress m.activeApp_ row.2) e
  executed : m'.executed =
    m.executed ++ (macros.zipIdx.filter (m.completes m.activeApp_ e)).map Prod.fst

theorem fedBy_matchAndEmit {e : Input} {macros : List KeyAction}
    (hmacros : m.appMacros_ m.activeApp_ = some macros) :
    FedBy m e macros (m.matchAndEmit e false) := by
  obtain ⟨hprogress, hexecuted⟩ := stageMacros_spec e hmacros
  have hsettings := sameSettings_stageMacros (m := m) e false
  have hcombos : SameCombos (m.stageMacros e false).1 (m.matchAndEmit e false) := by
    obtain ⟨own, -, heq⟩ := matchAndEmit_eq_write m e false
    rw [heq]
    exact sameCombos_write own
  constructor
  · rw [hcombos.appMacros_, hsettings.appMacros_]
  · rw [hcombos.activeApp_, hsettings.activeApp_]
  · rw [hcombos.numLockActive_, hsettings.numLockActive_]
  · intro row hrow htrigger
    rw [hcombos.progress]
    exact hprogress row hrow htrigger
  · rw [hcombos.executed, hexecuted]

theorem fedBy_step {op : Operation} {e : Input} {macros : List KeyAction}
    (hmacros : m.appMacros_ m.activeApp_ = some macros) (hquiet : m.Quiet op)
    (hstep : m.step op = some m') (hfed : m.fedEvent op = some e) : FedBy m e macros m' := by
  cases op with
  | processEvent input skipMacros =>
      obtain rfl := Option.some.inj hstep
      obtain ⟨ready, hsame, heq⟩ := processEvent_of_fed hquiet hfed
      have hcombos := hsame.sameCombos
      have hmacros' : ready.appMacros_ ready.activeApp_ = some macros := by
        rw [hcombos.appMacros_, hcombos.activeApp_]
        exact hmacros
      have hfedBy := fedBy_matchAndEmit (e := e) hmacros'
      rw [heq]
      constructor
      · rw [hfedBy.appMacros_, hcombos.appMacros_]
      · rw [hfedBy.activeApp_, hcombos.activeApp_]
      · rw [hfedBy.numLockActive_, hcombos.numLockActive_]
      · intro row hrow htrigger
        have hprogress := hfedBy.progress row hrow htrigger
        rwa [hcombos.activeApp_, hcombos.progress, hcombos.matcher] at hprogress
      · have hcompletes : ready.completes m.activeApp_ e = m.completes m.activeApp_ e :=
          funext fun row => hcombos.completes row
        rw [hfedBy.executed, hcombos.executed, hcombos.activeApp_, hcompletes]
  | _ => simp [fedEvent] at hfed

theorem sameCombos_step {op : Operation} (hquiet : m.Quiet op)
    (hstep : m.step op = some m') (hfed : m.fedEvent op = none) : SameCombos m m' := by
  cases op with
  | processEvent input skipMacros =>
      obtain rfl := Option.some.inj hstep
      exact processEvent_of_not_fed hquiet hfed
  | emit ev =>
      obtain rfl := Option.some.inj hstep
      rw [emit_eq_write]
      exact sameCombos_write _
  | sync =>
      obtain rfl := Option.some.inj hstep
      exact sameCombos_write _
  | paste =>
      simp only [step] at hstep
      split at hstep
      · obtain rfl := Option.some.inj hstep
        exact ⟨rfl, rfl, rfl, fun _ _ => rfl, rfl⟩
      · simp at hstep
  | _ => exact False.elim hquiet

theorem progress_run {ops : List Operation} {macros : List KeyAction} {row : KeyAction × ℕ}
    (hmacros : m.appMacros_ m.activeApp_ = some macros) (hrow : row ∈ macros.zipIdx)
    (htrigger : row.1.trigger.events ≠ []) (hquiet : AllSteps step Quiet m ops)
    (hrun : execute step m ops = some m') :
    m'.appMacros_ m'.activeApp_ = some macros ∧ m'.activeApp_ = m.activeApp_ ∧
      m'.numLockActive_ = m.numLockActive_ ∧
      m'.progress m.activeApp_ row.2 =
        (fed m ops).foldl (m.matcher row.1).step (m.progress m.activeApp_ row.2) := by
  induction ops generalizing m with
  | nil =>
      obtain rfl : m = m' := by simpa [execute] using hrun
      exact ⟨hmacros, rfl, rfl, rfl⟩
  | cons op ops ih =>
      obtain ⟨next, hnext, hrest⟩ : ∃ next, step m op = some next ∧
          execute step next ops = some m' := by
        simpa [execute, Option.bind_eq_some_iff] using hrun
      obtain ⟨hop, hops⟩ := hquiet next hnext
      have hhead : next.appMacros_ = m.appMacros_ ∧ next.activeApp_ = m.activeApp_ ∧
          next.numLockActive_ = m.numLockActive_ ∧
          next.progress m.activeApp_ row.2 =
            (m.fedEvent op).toList.foldl (m.matcher row.1).step
              (m.progress m.activeApp_ row.2) := by
        cases hfed : m.fedEvent op with
        | none =>
            have hsame := sameCombos_step hop hnext hfed
            exact ⟨hsame.appMacros_, hsame.activeApp_, hsame.numLockActive_,
              hsame.progress m.activeApp_ row.2⟩
        | some e =>
            have hfedBy := fedBy_step hmacros hop hnext hfed
            exact ⟨hfedBy.appMacros_, hfedBy.activeApp_, hfedBy.numLockActive_,
              hfedBy.progress row hrow htrigger⟩
      obtain ⟨htable, happ, hnumlock, hprogress⟩ := hhead
      have hmatcher : next.matcher row.1 = m.matcher row.1 := by
        unfold matcher
        rw [hnumlock]
      have hmacros' : next.appMacros_ next.activeApp_ = some macros := by
        rw [htable, happ]
        exact hmacros
      obtain ⟨hfinal, happ', hnumlock', hprogress'⟩ := ih hmacros' hops hrest
      rw [happ, hmatcher, hprogress] at hprogress'
      refine ⟨hfinal, happ'.trans happ, hnumlock'.trans hnumlock, ?_⟩
      rw [hprogress', fed, hnext, List.foldl_append]

theorem fed_concat {ops : List Operation} {last : Operation} {e : Input}
    {before after : InputMapper} (hbefore : execute step m ops = some before)
    (hafter : before.step last = some after) (hfed : before.fedEvent last = some e) :
    fed m (ops ++ [last]) = fed m ops ++ [e] := by
  induction ops generalizing m with
  | nil =>
      obtain rfl : m = before := by simpa [execute] using hbefore
      simp [fed, hafter, hfed]
  | cons op ops ih =>
      obtain ⟨next, hnext, hrest⟩ : ∃ next, step m op = some next ∧
          execute step next ops = some before := by
        simpa [execute, Option.bind_eq_some_iff] using hbefore
      simp only [List.cons_append, fed, hnext]
      rw [ih hrest, List.append_assoc]

/-! ## Occurrences -/

def isKey (e : Input) : Bool := e.ev.type = EV_KEY

def isRepeat (e : Input) : Bool := e.ev.value = 2

/-- From the first to the last of some events, the key events match a trigger step
by step and in time. -/
structure Typed (action : KeyAction) (events : List Input) : Prop where
  steps : List.Forall₂ (fun step e => matchesStep step e.ev = true) action.trigger.events
    (events.filter isKey)
  first : ∀ e ∈ events.head?, isKey e = true
  last : ∀ e ∈ events.getLast?, isKey e = true
  ordered : events.Pairwise fun e e' => e.now ≤ e'.now
  gaps : (events.filter isKey).IsChain fun e e' => e'.now ≤ e.now + COMBO_TIMEOUT

instance (action : KeyAction) (events : List Input) : Decidable (Typed action events) :=
  decidable_of_iff
    (List.Forall₂ (fun step e => matchesStep step e.ev = true) action.trigger.events
        (events.filter isKey) ∧
      (∀ e ∈ events.head?, isKey e = true) ∧ (∀ e ∈ events.getLast?, isKey e = true) ∧
      events.Pairwise (fun e e' => e.now ≤ e'.now) ∧
      (events.filter isKey).IsChain fun e e' => e'.now ≤ e.now + COMBO_TIMEOUT)
    ⟨fun h => ⟨h.1, h.2.1, h.2.2.1, h.2.2.2.1, h.2.2.2.2⟩,
      fun h => ⟨h.steps, h.first, h.last, h.ordered, h.gaps⟩⟩

/-- NumLock does not disable the combo, and it is at its start when the first of
the key events comes (never begun, reset or timed out) or gets level with them:
while it is ahead each event comes in time and matches the expected step, which is
not the last, or is a repeat. -/
def CatchesUp (m : InputMapper) (action : KeyAction) (comboIdx : ℕ) (keys : List Input) :
    Prop :=
  m.disabled action = false ∧
    ∃ first ∈ keys.head?,
      (m.matcher action).CatchesUp isRepeat
        ((m.matcher action).live (m.progress m.activeApp_ comboIdx) first) 0 keys

/-- A key event that matches a step matched before breaks a noise-breaking combo
unless it is a repeat. -/
theorem breaksUnless_isRepeat (hnoise : action.trigger.noiseBreaks = true)
    (hdisabled : m.disabled action = false) :
    (m.matcher action).BreaksUnless isKey isRepeat := by
  intro n i s e hi hn hs hkey hhit
  have hmatch : matchesStep s e.ev = true := (Bool.and_eq_true_iff.mp hhit).2
  have hkey' : e.ev.type = EV_KEY := of_decide_eq_true hkey
  have hn' : n < action.trigger.events.length := hn
  have hstep : action.trigger.events[n]? = some action.trigger.events[n] :=
    List.getElem?_eq_getElem hn'
  have hbreaks : (m.matcher action).breaks n e =
      shouldBreak action n action.trigger.events[n] e.ev := by
    show (m.disabled action || _) = _
    rw [hdisabled, hstep]
    rfl
  unfold matchesStep at hmatch
  rw [if_pos hkey', Bool.and_eq_true_iff, Bool.and_eq_true_iff] at hmatch
  obtain ⟨⟨-, hcode⟩, hvalue⟩ := hmatch
  have hactive : ((action.trigger.events.take n).any fun matched =>
      matched.code = e.ev.code) = true := by
    rw [List.any_eq_true]
    have hs' : (action.trigger.events.take n)[i]? = some s := by
      rw [List.getElem?_take_of_lt hi]
      exact hs
    exact ⟨s, List.mem_of_getElem? hs', hcode⟩
  rw [hbreaks]
  unfold shouldBreak isRepeat
  rw [hactive, hnoise]
  simp only [hkey', Bool.or_eq_true, Bool.and_eq_true, decide_eq_true_eq] at hvalue ⊢
  rcases hvalue with ⟨-, hpress | hrepeat⟩ | ⟨-, hlift⟩
  · simp [hpress]
  · simp [hrepeat]
  · simp [hlift]

theorem keySteps_of_matched {steps : List TriggerStep} {keys : List Input}
    (hsteps : List.Forall₂ (fun step e => matchesStep step e.ev = true) steps keys)
    (hkeys : ∀ e ∈ keys, isKey e = true) : ∀ step ∈ steps, step.type = EV_KEY := by
  induction hsteps with
  | nil => exact fun step hstep => absurd hstep List.not_mem_nil
  | @cons s e steps keys hmatch _ ih =>
      intro step hstep
      rcases List.mem_cons.mp hstep with rfl | hstep
      · have htype : e.ev.type = EV_KEY := of_decide_eq_true (hkeys e List.mem_cons_self)
        unfold matchesStep at hmatch
        rw [Bool.and_eq_true_iff, Bool.and_eq_true_iff] at hmatch
        exact (of_decide_eq_true hmatch.1.1).trans htype
      · exact ih (fun e' he' => hkeys e' (List.mem_cons_of_mem e he')) step hstep

theorem Typed.occurs {events : List Input} (htyped : Typed action events)
    (hdisabled : m.disabled action = false) :
    (m.matcher action).Occurs isKey action.trigger.events events where
  hits := by
    apply htyped.steps.imp
    intro step e hmatch
    have hnumlock : (m.numLockActive_ && !isKeyboardOnlyMacro action) = false := hdisabled
    show (!(m.numLockActive_ && !isKeyboardOnlyMacro action) && matchesStep step e.ev) = true
    rw [hnumlock, hmatch]
    rfl
  inert := by
    intro e _ hkey p
    have hkeys : ∀ e ∈ events.filter isKey, isKey e = true :=
      fun e he => (List.mem_filter.mp he).2
    have hsteps := keySteps_of_matched htyped.steps hkeys
    have hother : e.ev.type ≠ EV_KEY := of_decide_eq_false hkey
    constructor
    · show (action.trigger.events[p.next]?).any _ = false
      rw [Option.any_eq_false]
      intro step hstep
      have htype := hsteps step (List.mem_of_getElem? hstep)
      have hmiss : matchesStep step e.ev = false := by
        unfold matchesStep
        rw [htype, decide_eq_false hother.symm]
        rfl
      show (_ && matchesStep step e.ev) = false
      rw [hmiss, Bool.and_false]
    · show (m.disabled action || _) = false
      rw [hdisabled, Bool.false_or, Option.any_eq_false]
      intro step _
      unfold shouldBreak
      rw [decide_eq_false hother]
      exact Bool.false_and _
  last := htyped.last
  ordered := htyped.ordered
  gaps := htyped.gaps

theorem not_completed_of_disabled {p : Progress}
    (hdisabled : m.disabled action = true) (e : Input) :
    (m.matcher action).verdict p e ≠ .completed := by
  intro hcompleted
  have hhit := SequenceMatcher.hit_of_verdict (Or.inr hcompleted)
  have hnumlock : (m.numLockActive_ && !isKeyboardOnlyMacro action) = true := hdisabled
  unfold SequenceMatcher.hit at hhit
  rw [Option.any_eq_true] at hhit
  obtain ⟨step, -, hhits⟩ := hhit
  have hfalse : (!(m.numLockActive_ && !isKeyboardOnlyMacro action) &&
      matchesStep step e.ev) = true := hhits
  rw [hnumlock] at hfalse
  exact Bool.false_ne_true hfalse

theorem reachable_inRange (hreach : Reachable step {} m) {macros : List KeyAction}
    {row : KeyAction × ℕ} (hmacros : m.appMacros_ app = some macros)
    (hrow : row ∈ macros.zipIdx) (htrigger : row.1.trigger.events ≠ []) :
    (m.progress app row.2).next < row.1.trigger.events.length := by
  obtain ⟨marks, hexplains⟩ := reachable_explained hreach
  exact hexplains.inRange app macros hmacros row hrow htrigger

/-- If at most one combo completes, its completion is what is executed. -/
theorem executed_eq_iff_completes {e : Input} {macros : List KeyAction} {row : KeyAction × ℕ}
    (hfedBy : FedBy m e macros m') (hrow : row ∈ macros.zipIdx)
    (hothers : ∀ row' ∈ macros.zipIdx, row'.2 ≠ row.2 →
      m.completes m.activeApp_ e row' = false) :
    m'.executed = m.executed ++ [row.1] ↔ m.completes m.activeApp_ e row = true := by
  rw [hfedBy.executed, List.append_cancel_left_eq]
  constructor
  · intro hmap
    obtain ⟨row', hrow', -⟩ : ∃ row' ∈ macros.zipIdx.filter (m.completes m.activeApp_ e),
        row'.1 = row.1 := by
      rw [← List.mem_map, hmap]
      exact List.mem_singleton_self row.1
    obtain ⟨hmem, hcompletes⟩ := List.mem_filter.mp hrow'
    by_cases hidx : row'.2 = row.2
    · rwa [eq_of_mem_zipIdx hrow hmem hidx] at hcompletes
    · rw [hothers row' hmem hidx] at hcompletes
      exact Bool.noConfusion hcompletes
  · intro hcompletes
    have hsingle : macros.zipIdx.filter (m.completes m.activeApp_ e) = [row] := by
      have hcongr : macros.zipIdx.filter (m.completes m.activeApp_ e) =
          macros.zipIdx.filter fun row' => row' = row := by
        apply List.filter_congr
        intro row' hmem
        by_cases hidx : row'.2 = row.2
        · rw [eq_of_mem_zipIdx hrow hmem hidx, hcompletes]
          simp
        · rw [hothers row' hmem hidx]
          have hne : row' ≠ row := fun h => hidx (congrArg Prod.snd h)
          simp [hne]
      have hnodup : macros.zipIdx.Nodup := List.Nodup.of_map _ (nodup_zipIdx_snd macros)
      rw [hcongr, List.filter_eq, List.count_eq_one_of_mem hnodup hrow]
      rfl
    rw [hsingle]
    rfl

/-- The matcher of a combo completes on key events typed for it exactly when it
catches up with them. -/
theorem lastVerdict_completed_iff {events : List Input} {e : Input}
    (hnoise : action.trigger.noiseBreaks = true)
    (htyped : Typed action (events ++ [e]))
    (hrange : (m.progress m.activeApp_ comboIdx).next < action.trigger.events.length) :
    (m.matcher action).lastVerdict (m.progress m.activeApp_ comboIdx) (events ++ [e]) =
        some .completed ↔
      m.CatchesUp action comboIdx ((events ++ [e]).filter isKey) := by
  unfold CatchesUp
  by_cases hdisabled : m.disabled action = true
  · have hnot : (m.matcher action).lastVerdict (m.progress m.activeApp_ comboIdx)
        (events ++ [e]) ≠ some .completed := by
      rw [SequenceMatcher.lastVerdict_append]
      exact fun h => not_completed_of_disabled hdisabled e (Option.some.inj h)
    simp [hnot, hdisabled]
  rw [Bool.not_eq_true] at hdisabled
  have hoccurs := htyped.occurs hdisabled
  have hfirst := htyped.first
  cases hsplit : events ++ [e] with
  | nil => simp at hsplit
  | cons first rest =>
      rw [hsplit] at hoccurs hfirst
      have hkey : isKey first = true := hfirst first rfl
      have hkeys : (first :: rest).filter isKey = first :: rest.filter isKey :=
        List.filter_cons_of_pos hkey
      have hsteps : (m.matcher action).steps = [] ++ action.trigger.events := rfl
      have hrule := SequenceMatcher.completed_iff_catchesUp
        (p := (m.matcher action).live (m.progress m.activeApp_ comboIdx) first)
        hsteps (List.cons_ne_nil first rest) hoccurs (Nat.zero_le _)
        (lt_of_le_of_lt SequenceMatcher.live_next_le hrange)
        (breaksUnless_isRepeat hnoise hdisabled)
        (by
          intro e' he'
          obtain rfl : first = e' := by simpa using he'
          exact Or.inr ⟨hkey, SequenceMatcher.timedOut_live⟩)
      rw [SequenceMatcher.lastVerdict_live] at hrule
      rw [hrule, hkeys]
      constructor
      · exact fun h => ⟨hdisabled, first, rfl, h⟩
      · rintro ⟨-, first', hfirst', h⟩
        obtain rfl : first = first' := by simpa using hfirst'
        exact h

/-- Where nothing else completes, the last of the key events typed executes the
action exactly when the combo catches up with them. -/
theorem executed_iff_catchesUp {before after : InputMapper} {ops : List Operation}
    {last : Operation} {macros : List KeyAction} {e : Input} (hreach : Reachable step {} m)
    (hmacros : m.appMacros_ m.activeApp_ = some macros)
    (haction : macros[comboIdx]? = some action)
    (hnoise : action.trigger.noiseBreaks = true)
    (hquiet : AllSteps step Quiet m (ops ++ [last]))
    (hbefore : execute step m ops = some before) (hafter : before.step last = some after)
    (hfed : before.fedEvent last = some e)
    (htyped : Typed action (fed m (ops ++ [last])))
    (hothers : ∀ row ∈ macros.zipIdx, row.2 ≠ comboIdx →
      before.completes before.activeApp_ e row = false) :
    after.executed = before.executed ++ [action] ↔
      m.CatchesUp action comboIdx ((fed m (ops ++ [last])).filter isKey) := by
  have hevents := fed_concat hbefore hafter hfed
  have hrow : (action, comboIdx) ∈ macros.zipIdx :=
    List.mem_zipIdx_iff_getElem?.mpr haction
  have htrigger : action.trigger.events ≠ [] := by
    intro hempty
    have hlength := htyped.steps.length_eq
    have hkey := htyped.last e (by rw [hevents]; simp)
    rw [hempty, hevents, List.filter_append, List.filter_singleton, hkey] at hlength
    simp at hlength
  obtain ⟨hops, hlast⟩ := hquiet.append hbefore
  obtain ⟨htable, happ, hnumlock, hprogress⟩ :=
    progress_run hmacros hrow htrigger hops hbefore
  have hfedBy := fedBy_step htable (hlast after hafter).1 hafter hfed
  have hmatcher : before.matcher action = m.matcher action := by
    unfold matcher
    rw [hnumlock]
  have hcompletes : before.completes before.activeApp_ e (action, comboIdx) = true ↔
      (m.matcher action).lastVerdict (m.progress m.activeApp_ comboIdx)
        (fed m (ops ++ [last])) = some .completed := by
    rw [hevents, SequenceMatcher.lastVerdict_append, Option.some_inj, ← hprogress,
      ← hmatcher, ← happ]
    unfold completes verdict
    simp [htrigger]
  have hrange := reachable_inRange hreach hmacros hrow htrigger
  rw [executed_eq_iff_completes hfedBy hrow hothers, hcompletes, hevents]
  rw [hevents] at htyped
  exact lastVerdict_completed_iff hnoise htyped hrange

/-- A pressed and released, then T. -/
def tapThenT : KeyAction :=
  { trigger :=
      { events :=
          [keyStep KEY_A 1 false false, keyStep KEY_A 0 false false,
            keyStep KEY_T 1 false false] }
    keySequence := []
    logMessage := "" }

def tapTable : Json :=
  .object [("", .array [.object [("trigger", .object [("keys", .array
    [.array [.number_unsigned KEY_A, .number_unsigned 1],
      .array [.number_unsigned KEY_A, .number_unsigned 0],
      .array [.number_unsigned KEY_T, .number_unsigned 1]])])]])]

def tapMapper : InputMapper := (({} : InputMapper).setMacrosFromJsonInternal tapTable).2

theorem reachable_tapMapper : Reachable step {} tapMapper := by
  have hrun : execute step {} [.setMacrosFromJson tapTable] = some tapMapper := rfl
  exact Reachable.of_execute hrun

def key (code : ℕ) (value : Int) (now : ℕ) : Operation :=
  .processEvent ⟨⟨EV_KEY, code, value⟩, now, true⟩ false

/-- A is tapped and T is pressed. -/
theorem tapThenT_executed_iff :
    (((tapMapper.processEvent ⟨⟨EV_KEY, KEY_A, 1⟩, 0, true⟩ false).processEvent
        ⟨⟨EV_KEY, KEY_A, 0⟩, 1, true⟩ false).processEvent
        ⟨⟨EV_KEY, KEY_T, 1⟩, 2, true⟩ false).executed =
      ((tapMapper.processEvent ⟨⟨EV_KEY, KEY_A, 1⟩, 0, true⟩ false).processEvent
        ⟨⟨EV_KEY, KEY_A, 0⟩, 1, true⟩ false).executed ++ [tapThenT] ↔
      tapMapper.CatchesUp tapThenT 0
        ((fed tapMapper ([key KEY_A 1 0, key KEY_A 0 1] ++ [key KEY_T 1 2])).filter
          isKey) :=
  executed_iff_catchesUp (m := tapMapper) (e := ⟨⟨EV_KEY, KEY_T, 1⟩, 2, true⟩)
    reachable_tapMapper (by decide +kernel : _ = some [tapThenT]) rfl rfl
    (by decide +kernel) rfl rfl (by decide +kernel) (by decide +kernel) (by decide +kernel)

/-- A is tapped twice and T is pressed: the second press of A breaks the combo and
is not its first step. -/
theorem tapTwiceThenT_not_executed :
    ¬ ∀ (m before after : InputMapper) (ops : List Operation) (last : Operation)
      (macros : List KeyAction) (action : KeyAction) (comboIdx : ℕ) (e : Input),
      Reachable step {} m → m.appMacros_ m.activeApp_ = some macros →
      macros[comboIdx]? = some action → action.trigger.noiseBreaks = true →
      AllSteps step Quiet m (ops ++ [last]) → execute step m ops = some before →
      before.step last = some after → before.fedEvent last = some e →
      Typed action (fed m (ops ++ [last])) →
      (∀ row ∈ macros.zipIdx, row.2 ≠ comboIdx →
        before.completes before.activeApp_ e row = false) →
      after.executed = before.executed ++ [action] := by
  intro hall
  have hreach : Reachable step {}
      ((tapMapper.processEvent ⟨⟨EV_KEY, KEY_A, 1⟩, 0, true⟩ false).processEvent
        ⟨⟨EV_KEY, KEY_A, 0⟩, 1, true⟩ false) := by
    have hrun : execute step tapMapper [key KEY_A 1 0, key KEY_A 0 1] = some _ := rfl
    exact reachable_tapMapper.trans (Reachable.of_execute hrun)
  have hexecuted := hall _ _ _ [key KEY_A 1 2, key KEY_A 0 3] (key KEY_T 1 4) [tapThenT]
    tapThenT 0 ⟨⟨EV_KEY, KEY_T, 1⟩, 4, true⟩ hreach (by decide +kernel) rfl rfl
    (by decide +kernel) rfl rfl (by decide +kernel) (by decide +kernel) (by decide +kernel)
  revert hexecuted
  decide +kernel

end InputMapper

end AutomateLinux
