import AutomateLinux.HoldQueue
import AutomateLinux.InputMapperSuppression

/-!
# What becomes of the events of one key

For one key code the macro loop is a hold queue: the owners are the combos, a
combo that times out or breaks releases what it holds, and one that matches a
suppressed step holds the event back.  Every other event of the key passes
exactly when nothing is held.  What the loop does to the queue is read off the
mapper turn by turn, and the queue's rule says when no event is lost.
-/

namespace AutomateLinux

open TransitionSystem

namespace InputMapper

variable {m m' : InputMapper} {app : AppType} {comboIdx code : ℕ}

/-! ## The queue of one key -/

def isKeyEvent (code : ℕ) (ev : InputEvent) : Bool := ev.type = EV_KEY && ev.code = code

/-- The events of a key that were written to the virtual device. -/
def written (code : ℕ) (m : InputMapper) : List InputEvent :=
  m.uinput.filter (isKeyEvent code)

/-- The events of a key that are withheld, with their owners. -/
def heldOn (code : ℕ) (m : InputMapper) : List (ℕ × InputEvent) :=
  (m.suppressionRegistry_.withheld code).map fun wk => (wk.owningComboIdx, wk.event)

/-- The registry holds key events only, under their own codes. -/
def HoldsKeys (m : InputMapper) : Prop :=
  ∀ code, ∀ wk ∈ m.suppressionRegistry_.withheld code, wk.code = code ∧ wk.type = EV_KEY

theorem HoldsKeys.keyed (hkeys : HoldsKeys m) : m.suppressionRegistry_.Keyed :=
  fun code wk hwk => (hkeys code wk hwk).1

theorem HoldsKeys.released {app : AppType} (hkeys : HoldsKeys m)
    (hreleased : Released m app comboIdx m') : HoldsKeys m' := by
  intro code wk hwk
  rw [hreleased.registry, SuppressionRegistry.mem_withheld_unclaimed] at hwk
  exact hkeys code wk hwk.1

theorem HoldsKeys.recordMatch (hkeys : HoldsKeys m) (step : TriggerStep) {input : Input}
    (hinput : input.ev.type = EV_KEY) :
    HoldsKeys (m.recordMatch app comboIdx step input) := by
  intro code wk hwk
  rw [recordMatch_suppressionRegistry_] at hwk
  split at hwk
  · rw [SuppressionRegistry.withheld_add] at hwk
    split at hwk
    · rename_i hcode
      rcases List.mem_append.mp hwk with hold | hnew
      · rw [hcode]
        exact hkeys _ wk hold
      · obtain rfl := List.mem_singleton.mp hnew
        exact ⟨hcode.symm, hinput⟩
    · exact hkeys code wk hwk
  · exact hkeys code wk hwk

theorem filter_replay {claimed : List WithheldKey}
    (hkeys : ∀ wk ∈ claimed, wk.type = EV_KEY) :
    (replay claimed).filter (isKeyEvent code) =
      (claimed.filter fun wk => wk.code = code).map WithheldKey.event := by
  induction claimed with
  | nil => rfl
  | cons wk claimed ih =>
      have htype : wk.type = EV_KEY := hkeys wk List.mem_cons_self
      have hrest := ih fun wk' hwk' => hkeys wk' (List.mem_cons_of_mem wk hwk')
      have hsyn : isKeyEvent code synReport = false := rfl
      have hevent : isKeyEvent code wk.event = decide (wk.code = code) := by
        simp [isKeyEvent, WithheldKey.event, htype]
      unfold replay at hrest ⊢
      rw [List.flatMap_cons, List.filter_append, hrest]
      by_cases hcode : wk.code = code
      · simp [hsyn, hevent, hcode]
      · simp [hsyn, hevent, hcode]

theorem heldOn_released (hreleased : Released m app comboIdx m') :
    m'.heldOn code = (m.heldOn code).filter fun entry => entry.1 ≠ comboIdx := by
  unfold heldOn
  rw [hreleased.registry, SuppressionRegistry.withheld_unclaimed, List.filter_map]
  congr 1
  refine List.filter_congr fun wk _ => ?_
  simp [SuppressionRegistry.isOwnedBy]

theorem written_breakCombo (hkeys : HoldsKeys m) :
    (m.breakCombo app comboIdx).written code =
      m.written code ++
        if (m.heldOn code).filter (fun entry => entry.1 ≠ comboIdx) = [] then
          (m.heldOn code).map Prod.snd
        else [] := by
  have hclaimed : ∀ wk ∈ (m.suppressionRegistry_.claim comboIdx).1, wk.type = EV_KEY := by
    intro wk hwk
    obtain ⟨row, hrow, hwk⟩ := List.mem_flatMap.mp hwk
    have hget : m.suppressionRegistry_.get? row.1 = some row.2 :=
      OrderedMap.get?_eq_some_iff.mpr hrow
    refine (hkeys row.1 wk ?_).2
    unfold SuppressionRegistry.withheld
    rw [hget]
    exact List.mem_of_mem_drop hwk
  have hwritten : (m.breakCombo app comboIdx).written code =
      m.written code ++ (m.replayed comboIdx).filter (isKeyEvent code) := by
    rw [breakCombo_eq]
    show (m.uinput ++ (m.replayed comboIdx ++ [synReport])).filter (isKeyEvent code) = _
    rw [List.filter_append, List.filter_append]
    show _ = m.uinput.filter (isKeyEvent code) ++ _
    simp [isKeyEvent, synReport, EV_SYN, EV_KEY]
  rw [hwritten]
  congr 1
  have hlast : ((m.heldOn code).filter fun entry => entry.1 ≠ comboIdx) = [] ↔
      (m.suppressionRegistry_.unclaimed comboIdx).withheld code = [] := by
    rw [← heldOn_released (released_breakCombo m app comboIdx)]
    unfold heldOn
    rw [List.map_eq_nil_iff, (released_breakCombo m app comboIdx).registry]
  have hswap : ∀ (p : WithheldKey → Bool) (claimed : List WithheldKey),
      (claimed.filter p).filter (fun wk => wk.code = code) =
        (claimed.filter fun wk => wk.code = code).filter p := by
    intro p claimed
    rw [List.filter_filter, List.filter_filter]
    exact List.filter_congr fun wk _ => Bool.and_comm _ _
  unfold replayed
  rw [filter_replay fun wk hwk => hclaimed wk (List.mem_of_mem_filter hwk), hswap]
  by_cases hempty : (m.suppressionRegistry_.unclaimed comboIdx).withheld code = []
  · rw [if_pos (hlast.mpr hempty),
      SuppressionRegistry.filter_claim_of_unclaimed_eq_nil hkeys.keyed hempty,
      List.filter_eq_self.mpr]
    · simp [heldOn]
    · intro wk hwk
      rw [(hkeys code wk hwk).1, SuppressionRegistry.isBlocked_eq_false_iff.mpr hempty]
      rfl
  · rw [if_neg fun h => hempty (hlast.mp h), List.map_eq_nil_iff, List.filter_eq_nil_iff]
    intro wk hwk
    have hcode : wk.code = code := by simpa using (List.mem_filter.mp hwk).2
    have hblocked : (m.suppressionRegistry_.unclaimed comboIdx).isBlocked wk.code = true := by
      rw [hcode, ← Bool.not_eq_false]
      exact fun h => hempty (SuppressionRegistry.isBlocked_eq_false_iff.mp h)
    simp [hblocked]

/-- The queue holds what the registry withholds of a key, and has passed on what
was written for it since the start. -/
structure SimulatesQueue (code : ℕ) (before : List InputEvent) (m : InputMapper)
    (q : HoldQueue ℕ InputEvent) : Prop where
  held : q.held = m.heldOn code
  passed : m.written code = before ++ q.passed

/-- The arriving item of a key's queue. -/
def arrivalOf (code : ℕ) (ev : InputEvent) : Option InputEvent :=
  if ev.code = code then some ev else none

/-- Breaking a combo is a release. -/
theorem SimulatesQueue.breakCombo {before : List InputEvent} {q : HoldQueue ℕ InputEvent}
    (hsim : SimulatesQueue code before m q) (hkeys : HoldsKeys m) (app : AppType)
    (comboIdx : ℕ) :
    SimulatesQueue code before (m.breakCombo app comboIdx) (q.release comboIdx) := by
  have hothers : q.heldByOthers comboIdx =
      (m.heldOn code).filter fun entry => entry.1 ≠ comboIdx := by
    unfold HoldQueue.heldByOthers
    rw [hsim.held]
  constructor
  · rw [heldOn_released (released_breakCombo m app comboIdx), ← hothers]
    unfold HoldQueue.release
    split
    · rename_i hlast
      exact hlast.symm
    · rfl
  · rw [written_breakCombo hkeys, hsim.passed, ← hothers, ← hsim.held]
    unfold HoldQueue.release
    split <;> simp

/-- Recording a suppressed step is holding the event back. -/
theorem SimulatesQueue.recordMatch {before : List InputEvent} {q : HoldQueue ℕ InputEvent}
    (hsim : SimulatesQueue code before m q) (app : AppType) (comboIdx : ℕ)
    (step : TriggerStep) (input : Input) :
    SimulatesQueue code before (m.recordMatch app comboIdx step input)
      (if step.suppress then q.withhold comboIdx (arrivalOf code input.ev) else q) := by
  have hwritten : (m.recordMatch app comboIdx step input).written code = m.written code := by
    unfold InputMapper.recordMatch
    dsimp only
    split <;> rfl
  constructor
  · unfold heldOn
    rw [recordMatch_suppressionRegistry_]
    by_cases hsuppress : step.suppress = true
    · rw [if_pos hsuppress, if_pos hsuppress, SuppressionRegistry.withheld_add]
      unfold HoldQueue.withhold arrivalOf
      have hheld := hsim.held
      unfold heldOn at hheld
      rw [hheld]
      by_cases hcode : input.ev.code = code
      · subst hcode
        simp [withheldKey, WithheldKey.event]
      · simp [withheldKey, hcode, Ne.symm hcode]
    · rw [if_neg hsuppress, if_neg hsuppress]
      exact hsim.held
  · rw [hwritten, hsim.passed]
    split <;> rfl

/-! ## One turn of the loop -/

/-- What a combo does to the queues in its turn. -/
def turnOf (app : AppType) (input : Input) (m : InputMapper) (row : KeyAction × ℕ) :
    HoldQueue.Turn ℕ :=
  let expired := m.expired app input row.2
  let active := row.1.trigger.events ≠ []
  let breaks := expired.breaks app input row.1 row.2
  { owner := row.2
    releases := active && (timedOut (m.combo app row.2) input.now || breaks)
    withholds :=
      active && !breaks &&
        (expired.matchedStep app input row.1 row.2).any TriggerStep.suppress }

theorem breaks_expired_of_timedOut {input : Input} {action : KeyAction}
    (htimeout : timedOut (m.combo app comboIdx) input.now = true) :
    (m.expired app input comboIdx).breaks app input action comboIdx = false := by
  have hexpired : m.expired app input comboIdx =
      (m.touchCombo app comboIdx).breakCombo app comboIdx := by
    unfold expired expireCombo
    rw [touchCombo_combo, if_pos htimeout]
  have hreset : ((m.expired app input comboIdx).combo app comboIdx).nextKeyIndex = 0 := by
    rw [hexpired, (released_breakCombo _ _ _).reset]
    rfl
  unfold breaks
  simp [hreset]

theorem SimulatesQueue.expired {before : List InputEvent} {q : HoldQueue ℕ InputEvent}
    (hsim : SimulatesQueue code before m q) (hkeys : HoldsKeys m) (app : AppType)
    (input : Input) (comboIdx : ℕ) :
    SimulatesQueue code before (m.expired app input comboIdx)
      (if timedOut (m.combo app comboIdx) input.now then q.release comboIdx else q) := by
  have htouched : SimulatesQueue code before (m.touchCombo app comboIdx) q :=
    ⟨hsim.held, hsim.passed⟩
  unfold InputMapper.expired expireCombo
  rw [touchCombo_combo]
  split
  · exact htouched.breakCombo hkeys app comboIdx
  · exact htouched

theorem holdsKeys_comboTurn {input : Input} (hinput : input.ev.type = EV_KEY)
    {acc : InputMapper × Bool} (row : KeyAction × ℕ) (hkeys : HoldsKeys acc.1) :
    HoldsKeys (comboTurn app input acc row).1 :=
  comboTurn_keeps (I := HoldsKeys) app input row
    (fun h => h) (fun h => h.released (released_breakCombo _ app _))
    (fun step h => h.recordMatch step hinput)
    (fun h => h.released (released_completeCombo _ app _ row.1)) hkeys

theorem executed_comboTurn (input : Input) (acc : InputMapper × Bool) (row : KeyAction × ℕ) :
    acc.1.executed <+: (comboTurn app input acc row).1.executed :=
  comboTurn_keeps (I := fun m => acc.1.executed <+: m.executed) app input row
    (fun h => h) (fun h => by rwa [executed_breakCombo])
    (fun step h => by rwa [executed_recordMatch])
    (fun h => by
      rw [executed_completeCombo]
      exact h.trans (List.prefix_append _ _))
    (List.prefix_refl _)

theorem comboTurn_flag (input : Input) (acc : InputMapper × Bool) (row : KeyAction × ℕ) :
    (comboTurn app input acc row).2 =
      (acc.2 || (turnOf app input acc.1 row).withholds) := by
  unfold comboTurn turnOf
  dsimp only
  by_cases htrigger : row.1.trigger.events = []
  · simp [htrigger]
  · rw [if_neg htrigger, matchCombo_eq]
    show (acc.2 || _) = _
    unfold expired
    by_cases hbreaks :
        ((acc.1.touchCombo app row.2).expireCombo app row.2 input.now).breaks app input row.1
          row.2 = true
    · simp [hbreaks]
    · rw [if_neg hbreaks]
      rcases Option.eq_none_or_eq_some
          (((acc.1.touchCombo app row.2).expireCombo app row.2 input.now).matchedStep app input
            row.1 row.2) with hnone | ⟨step, hstep⟩
      · simp [hnone]
      · simp [hstep, htrigger, hbreaks]

theorem holdsKeys_expired (hkeys : HoldsKeys m) (input : Input) :
    HoldsKeys (m.expired app input comboIdx) := by
  unfold expired
  rcases expireCombo_cases (m.touchCombo app comboIdx) app comboIdx input.now with h | h
  · rw [h]
    exact HoldsKeys.released (m := m.touchCombo app comboIdx) hkeys
      (released_breakCombo _ app comboIdx)
  · rw [h]
    exact hkeys

theorem advanceCombo_of_executed {action : KeyAction} {step : TriggerStep} {input : Input}
    (hexecuted : (m.advanceCombo app comboIdx action step input).executed = m.executed) :
    m.advanceCombo app comboIdx action step input =
      m.recordMatch app comboIdx step input := by
  unfold advanceCombo at hexecuted ⊢
  dsimp only at hexecuted ⊢
  split
  · rename_i hcomplete
    rw [if_pos hcomplete, executed_completeCombo, executed_recordMatch] at hexecuted
    simp at hexecuted
  · rfl

/-- A turn in which no combo completes is a turn of the queue. -/
theorem SimulatesQueue.comboTurn {before : List InputEvent} {q : HoldQueue ℕ InputEvent}
    {input : Input} {acc : InputMapper × Bool} {row : KeyAction × ℕ}
    (hsim : SimulatesQueue code before acc.1 q) (hkeys : HoldsKeys acc.1)
    (hexecuted : (comboTurn app input acc row).1.executed = acc.1.executed) :
    SimulatesQueue code before (comboTurn app input acc row).1
      (HoldQueue.takeTurn (arrivalOf code input.ev) q (turnOf app input acc.1 row)) := by
  by_cases htrigger : row.1.trigger.events = []
  · simpa [InputMapper.comboTurn, turnOf, HoldQueue.takeTurn, htrigger] using hsim
  · have hexpired := hsim.expired hkeys app input row.2
    have hturn : (InputMapper.comboTurn app input acc row).1 =
        ((acc.1.expired app input row.2).matchCombo app input row.1 row.2).1 :=
      comboTurn_fst htrigger
    rw [hturn, ← executed_expired acc.1 app input row.2,
      matchCombo_eq] at hexecuted
    rw [hturn, matchCombo_eq]
    by_cases hbreaks :
        (acc.1.expired app input row.2).breaks app input row.1 row.2 = true
    · -- a combo that is broken has not timed out, so the queue releases once
      have htimeout : timedOut (acc.1.combo app row.2) input.now = false := by
        rw [← Bool.not_eq_true]
        intro h
        rw [breaks_expired_of_timedOut h] at hbreaks
        exact absurd hbreaks (by decide)
      rw [if_pos hbreaks]
      rw [htimeout] at hexpired
      have hbroken := hexpired.breakCombo (holdsKeys_expired hkeys input) app row.2
      simpa [HoldQueue.takeTurn, turnOf, htrigger, hbreaks, htimeout] using hbroken
    · rw [if_neg hbreaks] at hexecuted ⊢
      have hqueue : HoldQueue.takeTurn (arrivalOf code input.ev) q
            (turnOf app input acc.1 row) =
          if ((acc.1.expired app input row.2).matchedStep app input row.1 row.2).any
              TriggerStep.suppress then
            (if timedOut (acc.1.combo app row.2) input.now then q.release row.2 else
              q).withhold row.2 (arrivalOf code input.ev)
          else if timedOut (acc.1.combo app row.2) input.now then q.release row.2 else q := by
        simp [HoldQueue.takeTurn, turnOf, htrigger, hbreaks]
      rw [hqueue]
      rcases Option.eq_none_or_eq_some
          ((acc.1.expired app input row.2).matchedStep app input row.1 row.2) with
        hnone | ⟨step, hstep⟩
      · simpa [hnone] using hexpired
      · rw [hstep] at hexecuted
        have hadvance := advanceCombo_of_executed hexecuted
        have hrecorded := hexpired.recordMatch app row.2 step input
        simpa [hstep, hadvance] using hrecorded

/-! ## The loop and the pipeline -/

/-- The turns of all combos at one event. -/
def turns (app : AppType) (input : Input) :
    InputMapper × Bool → List (KeyAction × ℕ) → List (HoldQueue.Turn ℕ)
  | _, [] => []
  | acc, row :: rows =>
      turnOf app input acc.1 row :: turns app input (comboTurn app input acc row) rows

theorem owners_turns (input : Input) (acc : InputMapper × Bool)
    (rows : List (KeyAction × ℕ)) :
    (turns app input acc rows).map HoldQueue.Turn.owner = rows.map Prod.snd := by
  induction rows generalizing acc with
  | nil => rfl
  | cons row rows ih =>
      rw [turns, List.map_cons, ih]
      rfl

theorem executed_loop (app : AppType) (input : Input) (acc : InputMapper × Bool)
    (rows : List (KeyAction × ℕ)) :
    acc.1.executed <+: (rows.foldl (comboTurn app input) acc).1.executed := by
  induction rows generalizing acc with
  | nil => exact List.prefix_refl _
  | cons row rows ih => exact (executed_comboTurn input acc row).trans (ih _)

/-- The loop, at an event that completes nothing, takes the queue through its
turns, and its flag says whether one of them withholds the event. -/
theorem SimulatesQueue.loop {before : List InputEvent} {q : HoldQueue ℕ InputEvent}
    (app : AppType) {input : Input} (acc : InputMapper × Bool) (rows : List (KeyAction × ℕ))
    (hsim : SimulatesQueue code before acc.1 q) (hkeys : HoldsKeys acc.1)
    (hinput : input.ev.type = EV_KEY)
    (hexecuted : (rows.foldl (InputMapper.comboTurn app input) acc).1.executed =
      acc.1.executed) :
    HoldsKeys (rows.foldl (InputMapper.comboTurn app input) acc).1 ∧
      SimulatesQueue code before (rows.foldl (InputMapper.comboTurn app input) acc).1
        ((turns app input acc rows).foldl
          (HoldQueue.takeTurn (arrivalOf code input.ev)) q) ∧
      (rows.foldl (InputMapper.comboTurn app input) acc).2 =
        (acc.2 || (turns app input acc rows).any HoldQueue.Turn.withholds) := by
  induction rows generalizing acc q with
  | nil => exact ⟨hkeys, hsim, by simp [turns]⟩
  | cons row rows ih =>
      have hfirst : (InputMapper.comboTurn app input acc row).1.executed =
          acc.1.executed := by
        have hrest := executed_loop app input
          (InputMapper.comboTurn app input acc row) rows
        rw [List.foldl_cons] at hexecuted
        rw [hexecuted] at hrest
        exact (antisymm (executed_comboTurn input acc row) hrest).symm
      obtain ⟨hkeys', hsim', hflag⟩ := ih _ (hsim.comboTurn hkeys hfirst)
        (holdsKeys_comboTurn hinput row hkeys) (hexecuted.trans hfirst.symm)
      refine ⟨hkeys', hsim', ?_⟩
      rw [List.foldl_cons, hflag, comboTurn_flag, turns, List.any_cons, Bool.or_assoc]

theorem SimulatesQueue.emitFinal {before : List InputEvent} {q : HoldQueue ℕ InputEvent}
    {ev : InputEvent} (hsim : SimulatesQueue code before m q) (hkey : ev.type = EV_KEY)
    (hfree : m.suppressionRegistry_.withheld ev.code = []) :
    SimulatesQueue code before (m.emitFinal ev) (q.settle (arrivalOf code ev)) := by
  have hemit : m.emitFinal ev = m.write [ev, synReport] := by
    unfold InputMapper.emitFinal
    rw [if_neg (by simp [hkey, EV_KEY, EV_REL, EV_ABS]), emit_eq_write]
  have hwritten : (m.emitFinal ev).written code =
      m.written code ++ (arrivalOf code ev).toList := by
    rw [hemit]
    show (m.uinput ++ [ev, synReport]).filter (isKeyEvent code) = _
    rw [List.filter_append]
    unfold arrivalOf
    by_cases hcode : ev.code = code
    · simp [written, isKeyEvent, hkey, hcode, synReport, EV_SYN, EV_KEY]
    · simp [written, isKeyEvent, hcode, synReport, EV_SYN, EV_KEY]
  have hheld : (m.emitFinal ev).heldOn code = m.heldOn code := by
    rw [hemit]
    rfl
  unfold arrivalOf at hwritten ⊢
  by_cases hcode : ev.code = code
  · have hempty : q.held = [] := by
      rw [hsim.held, heldOn, ← hcode, hfree]
      rfl
    rw [if_pos hcode] at hwritten ⊢
    constructor
    · rw [hheld, ← hsim.held]
      simp [HoldQueue.settle, hempty]
    · rw [hwritten, hsim.passed]
      simp [HoldQueue.settle, hempty]
  · rw [if_neg hcode] at hwritten ⊢
    exact ⟨hsim.held.trans hheld.symm, by simpa [HoldQueue.settle, hsim.passed] using hwritten⟩

theorem SimulatesQueue.drop {before : List InputEvent} {q : HoldQueue ℕ InputEvent}
    {ev : InputEvent} (hsim : SimulatesQueue code before m q)
    (hheld : ev.code = code → q.held ≠ []) :
    SimulatesQueue code before m (q.settle (arrivalOf code ev)) := by
  unfold arrivalOf
  by_cases hcode : ev.code = code
  · rw [if_pos hcode]
    constructor
    · simpa [HoldQueue.settle, hheld hcode] using hsim.held
    · simpa [HoldQueue.settle, hheld hcode] using hsim.passed
  · rw [if_neg hcode]
    exact hsim

/-- Where the application has no macros nothing is withheld. -/
def FreeWithoutMacros (m : InputMapper) : Prop :=
  m.appMacros_ m.activeApp_ = none → m.suppressionRegistry_.IsEmpty

/-- The turns of the combos of the active application. -/
def stageTurns (m : InputMapper) (input : Input) : List (HoldQueue.Turn ℕ) :=
  match m.appMacros_ m.activeApp_ with
  | none => []
  | some macros => turns m.activeApp_ input (m, false) macros.zipIdx

theorem nodup_owners_stageTurns (m : InputMapper) (input : Input) :
    ((m.stageTurns input).map HoldQueue.Turn.owner).Nodup := by
  unfold stageTurns
  split
  · exact List.nodup_nil
  · rw [owners_turns, List.zipIdx_map_snd]
    exact List.nodup_range'

theorem executed_emitFinal (ev : InputEvent) : (m.emitFinal ev).executed = m.executed := by
  obtain ⟨own, -, heq⟩ := emitFinal_eq_write m ev
  rw [heq]
  rfl

theorem executed_matchAndEmit (input : Input) :
    m.executed <+: (m.matchAndEmit input false).executed :=
  matchAndEmit_keeps (I := fun m' => m.executed <+: m'.executed)
    (fun {acc} row h => h.trans (executed_comboTurn input acc row)) (fun _ h => h) false
    (List.prefix_refl _)

theorem suppressionRegistry_emitFinal (ev : InputEvent) :
    (m.emitFinal ev).suppressionRegistry_ = m.suppressionRegistry_ := by
  obtain ⟨own, -, heq⟩ := emitFinal_eq_write m ev
  rw [heq]
  rfl

theorem matchAndEmit_of_macros {input : Input} {macros : List KeyAction}
    (hmacros : m.appMacros_ m.activeApp_ = some macros) (hinput : input.ev.type = EV_KEY)
    {acc : InputMapper × Bool}
    (hacc : macros.zipIdx.foldl (comboTurn m.activeApp_ input) (m, false) = acc) :
    m.matchAndEmit input false =
      if acc.2 = true ∨ acc.1.suppressionRegistry_.isBlocked input.ev.code = true then acc.1
      else acc.1.emitFinal input.ev := by
  unfold matchAndEmit stageMacros
  rw [if_neg (by decide), hmacros]
  dsimp only
  rw [hacc]
  by_cases hflag : acc.2 = true
  · simp [hflag]
  · by_cases hblocked : acc.1.suppressionRegistry_.isBlocked input.ev.code = true
    · simp [hflag, hblocked, hinput]
    · simp [hflag, hblocked]

/-- Matching and emitting an event that completes nothing is a round of the
queue. -/
theorem SimulatesQueue.matchAndEmit {before : List InputEvent} {q : HoldQueue ℕ InputEvent}
    {input : Input} (hsim : SimulatesQueue code before m q) (hkeys : HoldsKeys m)
    (hfree : FreeWithoutMacros m) (hinput : input.ev.type = EV_KEY)
    (hexecuted : (m.matchAndEmit input false).executed = m.executed) :
    HoldsKeys (m.matchAndEmit input false) ∧
      SimulatesQueue code before (m.matchAndEmit input false)
        (q.round ⟨arrivalOf code input.ev, m.stageTurns input⟩) := by
  have hkeysEmit : ∀ {m : InputMapper} ev, HoldsKeys m → HoldsKeys (m.emitFinal ev) := by
    intro m ev h code wk hwk
    rw [suppressionRegistry_emitFinal] at hwk
    exact h code wk hwk
  unfold HoldQueue.round stageTurns
  dsimp only
  cases hmacros : m.appMacros_ m.activeApp_ with
  | none =>
      have hemit : m.matchAndEmit input false = m.emitFinal input.ev := by
        simp [InputMapper.matchAndEmit, stageMacros, hmacros]
      rw [hemit]
      exact ⟨hkeysEmit _ hkeys, hsim.emitFinal hinput (hfree hmacros _)⟩
  | some macros =>
      obtain ⟨acc, hacc⟩ : ∃ acc,
          macros.zipIdx.foldl (InputMapper.comboTurn m.activeApp_ input) (m, false) = acc :=
        ⟨_, rfl⟩
      rw [matchAndEmit_of_macros hmacros hinput hacc] at hexecuted ⊢
      have hloop : acc.1.executed = m.executed := by
        split at hexecuted
        · exact hexecuted
        · rwa [executed_emitFinal] at hexecuted
      obtain ⟨hkeys', hsim', hflag⟩ := hsim.loop m.activeApp_ (m, false)
        macros.zipIdx hkeys hinput (by rw [hacc]; exact hloop)
      rw [hacc] at hkeys' hsim' hflag
      by_cases hdrop : acc.2 = true ∨
          acc.1.suppressionRegistry_.isBlocked input.ev.code = true
      · rw [if_pos hdrop]
        refine ⟨hkeys', hsim'.drop fun hcode => ?_⟩
        rcases hdrop with hmatched | hblocked
        · -- the combo that withheld the event has had its turn
          rw [hmatched, Bool.false_or] at hflag
          have howners : ((turns m.activeApp_ input (m, false) macros.zipIdx).map
              HoldQueue.Turn.owner).Nodup := by
            rw [owners_turns, List.zipIdx_map_snd]
            exact List.nodup_range'
          unfold arrivalOf
          rw [if_pos hcode]
          exact HoldQueue.held_ne_nil_of_withholds howners hflag.symm
        · rw [hsim'.held, heldOn, ne_eq, List.map_eq_nil_iff, ← hcode]
          intro hnone
          rw [SuppressionRegistry.isBlocked_eq_false_iff.mpr hnone] at hblocked
          exact absurd hblocked (by decide)
      · rw [if_neg hdrop]
        rw [not_or, Bool.not_eq_true, Bool.not_eq_true] at hdrop
        exact ⟨hkeysEmit _ hkeys',
          hsim'.emitFinal hinput (SuppressionRegistry.isBlocked_eq_false_iff.mp hdrop.2)⟩

/-! ## Events without side effects -/

/-- The mapper as macro matching finds it at an event. -/
def ready (m : InputMapper) (input : Input) : InputMapper :=
  ((m.stageContext input).detectGKey input.ev).2

/-- A key event, NumLock apart, that the mapper gets while its devices are
grabbed and that ends no G-key sequence. -/
structure PlainKey (m : InputMapper) (input : Input) : Prop where
  key : input.ev.type = EV_KEY
  notNumLock : input.ev.code ≠ KEY_NUMLOCK
  grabbed : (m.stageContext input).monitoringMode_ = false
  noGKey : ((m.stageContext input).detectGKey input.ev).1 = none

instance (m : InputMapper) (input : Input) : Decidable (m.PlainKey input) :=
  decidable_of_iff
    (input.ev.type = EV_KEY ∧ input.ev.code ≠ KEY_NUMLOCK ∧
      (m.stageContext input).monitoringMode_ = false ∧
      ((m.stageContext input).detectGKey input.ev).1 = none)
    ⟨fun h => ⟨h.1, h.2.1, h.2.2.1, h.2.2.2⟩,
      fun h => ⟨h.key, h.notNumLock, h.grabbed, h.noGKey⟩⟩

theorem PlainKey.sameMatching_ready {input : Input} (hplain : m.PlainKey input) :
    SameMatching m (m.ready input) :=
  (sameMatching_stageContext hplain.notNumLock).trans (sameMatching_detectGKey input.ev)

theorem PlainKey.processEvent_eq {input : Input} (hplain : m.PlainKey input) :
    m.processEvent input false = (m.ready input).matchAndEmit input false := by
  have hdetect : (m.stageContext input).detectGKey input.ev = (none, m.ready input) :=
    Prod.ext hplain.noGKey rfl
  unfold InputMapper.processEvent pipeline
  dsimp only
  rw [hplain.grabbed, hdetect]
  rfl

theorem PlainKey.executed_processEvent {input : Input} (hplain : m.PlainKey input) :
    m.executed <+: (m.processEvent input false).executed := by
  rw [hplain.processEvent_eq, ← hplain.sameMatching_ready.executed]
  exact executed_matchAndEmit input

theorem PlainKey.freeWithoutMacros {input : Input} (hplain : m.PlainKey input)
    (hfree : FreeWithoutMacros m) : FreeWithoutMacros (m.processEvent input false) := by
  have hsame := hplain.sameMatching_ready
  have hsettings := sameSettings_matchAndEmit (m := m.ready input) input false
  intro hnone
  rw [hplain.processEvent_eq] at hnone ⊢
  rw [hsettings.appMacros_, hsettings.activeApp_] at hnone
  have hemit : (m.ready input).matchAndEmit input false =
      (m.ready input).emitFinal input.ev := by
    simp [matchAndEmit, stageMacros, hnone]
  rw [hemit, suppressionRegistry_emitFinal, hsame.suppressionRegistry_]
  refine hfree ?_
  rw [← hsame.appMacros_, ← hsame.activeApp_]
  exact hnone

theorem PlainKey.simulatesQueue {before : List InputEvent} {q : HoldQueue ℕ InputEvent}
    {input : Input} (hplain : m.PlainKey input) (hsim : SimulatesQueue code before m q)
    (hkeys : HoldsKeys m) (hfree : FreeWithoutMacros m)
    (hexecuted : (m.processEvent input false).executed = m.executed) :
    HoldsKeys (m.processEvent input false) ∧
      SimulatesQueue code before (m.processEvent input false)
        (q.round ⟨arrivalOf code input.ev, (m.ready input).stageTurns input⟩) := by
  have hsame := hplain.sameMatching_ready
  rw [hplain.processEvent_eq] at hexecuted ⊢
  refine SimulatesQueue.matchAndEmit (m := m.ready input) ⟨?_, ?_⟩ ?_ ?_ hplain.key
    (hexecuted.trans hsame.executed.symm)
  · rw [hsim.held]
    unfold heldOn
    rw [hsame.suppressionRegistry_]
  · rw [← hsim.passed]
    unfold written
    rw [hsame.uinput]
  · intro code wk hwk
    rw [hsame.suppressionRegistry_] at hwk
    exact hkeys code wk hwk
  · intro hnone
    rw [hsame.appMacros_, hsame.activeApp_] at hnone
    rw [hsame.suppressionRegistry_]
    exact hfree hnone

/-! ## Runs -/

def physical (m : InputMapper) (input : Input) : Option InputMapper :=
  m.step (.processEvent input false)

/-- Feeding the mapper physical events. -/
def feed (m : InputMapper) (inputs : List Input) : InputMapper :=
  inputs.foldl (fun m input => m.processEvent input false) m

/-- What a run does to the queue of a key. -/
def rounds (code : ℕ) : InputMapper → List Input → List (HoldQueue.Round ℕ InputEvent)
  | _, [] => []
  | m, input :: inputs =>
      ⟨arrivalOf code input.ev, (m.ready input).stageTurns input⟩ ::
        rounds code (m.processEvent input false) inputs

/-- A run of plain key events from and to states with no combo in progress, the
first of which withholds nothing, in which no combo completes. -/
structure Undisturbed (m : InputMapper) (inputs : List Input) : Prop where
  plain : AllSteps physical PlainKey m inputs
  idle : Idle m.activeApp_ m
  nothingWithheld : m.suppressionRegistry_.IsEmpty
  noCompletion : (m.feed inputs).executed = m.executed
  idleAfter : Idle (m.feed inputs).activeApp_ (m.feed inputs)

instance (m : InputMapper) (inputs : List Input) : Decidable (m.Undisturbed inputs) :=
  decidable_of_iff
    (AllSteps physical PlainKey m inputs ∧ Idle m.activeApp_ m ∧
      m.suppressionRegistry_.IsEmpty ∧ (m.feed inputs).executed = m.executed ∧
      Idle (m.feed inputs).activeApp_ (m.feed inputs))
    ⟨fun h => ⟨h.1, h.2.1, h.2.2.1, h.2.2.2.1, h.2.2.2.2⟩,
      fun h => ⟨h.plain, h.idle, h.nothingWithheld, h.noCompletion, h.idleAfter⟩⟩

theorem arrivals_rounds (code : ℕ) (m : InputMapper) (inputs : List Input) :
    HoldQueue.arrivals (rounds code m inputs) =
      (inputs.map Input.ev).filter fun ev => ev.code = code := by
  induction inputs generalizing m with
  | nil => rfl
  | cons input inputs ih =>
      have hrest := ih (m.processEvent input false)
      unfold HoldQueue.arrivals at hrest ⊢
      rw [rounds, List.flatMap_cons, hrest, List.map_cons, List.filter_cons]
      unfold arrivalOf
      by_cases hcode : input.ev.code = code <;> simp [hcode]

theorem distinctOwners_rounds (code : ℕ) (m : InputMapper) (inputs : List Input) :
    ∀ r ∈ rounds code m inputs, r.DistinctOwners := by
  induction inputs generalizing m with
  | nil => exact fun r hr => absurd hr List.not_mem_nil
  | cons input inputs ih =>
      intro r hr
      rcases List.mem_cons.mp hr with rfl | hr
      · exact nodup_owners_stageTurns _ input
      · exact ih _ r hr

theorem executed_feed {inputs : List Input}
    (hplain : AllSteps physical PlainKey m inputs) :
    m.executed <+: (m.feed inputs).executed := by
  induction inputs generalizing m with
  | nil => exact List.prefix_refl _
  | cons input inputs ih =>
      obtain ⟨hfirst, hrest⟩ := hplain _ rfl
      exact hfirst.executed_processEvent.trans (ih hrest)

theorem SimulatesQueue.feed {before : List InputEvent} {q : HoldQueue ℕ InputEvent}
    {inputs : List Input} (hplain : AllSteps physical PlainKey m inputs)
    (hexecuted : (m.feed inputs).executed = m.executed) (hkeys : HoldsKeys m)
    (hfree : FreeWithoutMacros m) (hsim : SimulatesQueue code before m q) :
    SimulatesQueue code before (m.feed inputs) (q.run (rounds code m inputs)) := by
  induction inputs generalizing m q with
  | nil => exact hsim
  | cons input inputs ih =>
      obtain ⟨hfirst, hrest⟩ := hplain _ rfl
      have htail := executed_feed hrest
      rw [show (m.processEvent input false).feed inputs = m.feed (input :: inputs) from rfl,
        hexecuted] at htail
      have hsame : (m.processEvent input false).executed = m.executed :=
        (antisymm hfirst.executed_processEvent htail).symm
      obtain ⟨hkeys', hsim'⟩ := hfirst.simulatesQueue hsim hkeys hfree hsame
      exact ih hrest (hexecuted.trans hsame.symm) hkeys'
        (hfirst.freeWithoutMacros hfree) hsim'

theorem owned_feed (inputs : List Input) (howned : Owned m.activeApp_ m) :
    Owned (m.feed inputs).activeApp_ (m.feed inputs) := by
  induction inputs generalizing m with
  | nil => exact howned
  | cons input inputs ih => exact ih (owned_processEvent input false howned)

/-- In an undisturbed run every key's events come out as they went in exactly
when each combo that breaks or times out as the last holder of a key has
withheld every event of that key that waits. -/
theorem transparent_iff_wholeRounds {m : InputMapper} {inputs : List Input}
    (hrun : m.Undisturbed inputs) :
    (∀ code, written code (m.feed inputs) =
        written code m ++ (inputs.map Input.ev).filter fun ev => ev.code = code) ↔
      ∀ code, HoldQueue.WholeRounds {} (rounds code m inputs) := by
  refine forall_congr' fun code => ?_
  have hempty : (m.feed inputs).suppressionRegistry_.IsEmpty :=
    (owned_feed inputs (Owned.of_isEmpty hrun.nothingWithheld)).isEmpty hrun.idleAfter
  have hkeys : HoldsKeys m := fun code wk hwk => by
    rw [hrun.nothingWithheld code] at hwk
    exact absurd hwk List.not_mem_nil
  have hstart : SimulatesQueue code (written code m) m {} := by
    refine ⟨?_, (List.append_nil _).symm⟩
    unfold heldOn
    rw [hrun.nothingWithheld code]
    rfl
  have hfinal := hstart.feed hrun.plain hrun.noCompletion hkeys
    fun _ => hrun.nothingWithheld
  have hheld : (({} : HoldQueue ℕ InputEvent).run (rounds code m inputs)).held = [] := by
    rw [hfinal.held, heldOn, hempty code]
    rfl
  rw [hfinal.passed, ← arrivals_rounds code m inputs, List.append_cancel_left_eq]
  exact HoldQueue.passed_eq_arrivals_iff (distinctOwners_rounds code m inputs) hheld

/-- A macro that withholds the press of A but not its release, and waits for
a C. -/
def heldPress : KeyAction :=
  { trigger :=
      { events :=
          [keyStep KEY_A 1 true false, keyStep KEY_A 0 false false, keyStep KEY_C 1 false false]
        hasSuppressedKeys := true }
    keySequence := []
    logMessage := "A, then C" }

def heldPressMapper : InputMapper :=
  { appMacros_ := fun app => if app = .CODE then some [heldPress] else none
    activeApp_ := .CODE }

def press (code now : ℕ) : Input := ⟨⟨EV_KEY, code, 1⟩, now, true⟩

def lift (code now : ℕ) : Input := ⟨⟨EV_KEY, code, 0⟩, now, true⟩

/-- A is still down when T breaks the combo. -/
theorem brokenWhileDown_transparent_iff :
    (∀ code,
        written code
            (heldPressMapper.feed [press KEY_A 0, press KEY_T 1, lift KEY_T 2, lift KEY_A 3]) =
          written code heldPressMapper ++
            ([press KEY_A 0, press KEY_T 1, lift KEY_T 2, lift KEY_A 3].map Input.ev).filter
              fun ev => ev.code = code) ↔
      ∀ code, HoldQueue.WholeRounds {}
        (rounds code heldPressMapper
          [press KEY_A 0, press KEY_T 1, lift KEY_T 2, lift KEY_A 3]) :=
  transparent_iff_wholeRounds (by decide +kernel)

/-- A was released before T broke the combo: its press comes out and its release
does not. -/
theorem brokenAfterRelease_not_transparent :
    ¬ ∀ (m : InputMapper) (inputs : List Input), m.Undisturbed inputs →
      ∀ code, written code (m.feed inputs) =
        written code m ++ (inputs.map Input.ev).filter fun ev => ev.code = code := by
  intro hall
  have hlost := hall heldPressMapper
    [press KEY_A 0, lift KEY_A 1, press KEY_T 2, lift KEY_T 3] (by decide +kernel) KEY_A
  revert hlost
  decide +kernel

end InputMapper

end AutomateLinux
