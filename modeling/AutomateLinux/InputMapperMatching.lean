import AutomateLinux.InputMapperTurns
import AutomateLinux.SequenceMatcher

/-!
# The macro loop as sequence matchers

Each combo of the active application is a sequence matcher of its own: its turn
takes the matcher of its trigger by one step and leaves the progress of every
other combo alone.  A combo that NumLock disables hits nothing, and any event
breaks it.
-/

namespace AutomateLinux

namespace InputMapper

open SequenceMatcher (Progress Verdict)

variable {m : InputMapper} {app app' : AppType} {comboIdx j : ℕ} {input : Input}
  {action : KeyAction}

/-- The matcher of a trigger. -/
def comboMatcher (numLockActive : Bool) (action : KeyAction) :
    SequenceMatcher TriggerStep Input where
  steps := action.trigger.events
  hits step input :=
    !(numLockActive && !isKeyboardOnlyMacro action) && matchesStep step input.ev
  breaks nextKeyIndex input :=
    (numLockActive && !isKeyboardOnlyMacro action) ||
      (action.trigger.events[nextKeyIndex]?).any fun step =>
        shouldBreak action nextKeyIndex step input.ev
  time := Input.now
  timeout := COMBO_TIMEOUT

/-- The progress of a combo without the events it withholds. -/
def progress (m : InputMapper) (app : AppType) (comboIdx : ℕ) : Progress :=
  ⟨(m.combo app comboIdx).nextKeyIndex, (m.combo app comboIdx).lastMatchTime⟩

def matcher (m : InputMapper) (action : KeyAction) : SequenceMatcher TriggerStep Input :=
  comboMatcher m.numLockActive_ action

/-- The matcher's verdict on an event in the turn of a combo. -/
def verdict (m : InputMapper) (app : AppType) (input : Input) (row : KeyAction × ℕ) :
    Verdict :=
  (m.matcher row.1).verdict (m.progress app row.2) input

theorem Released.progress {m' : InputMapper} (hreleased : Released m app comboIdx m') :
    m'.progress app comboIdx = { m.progress app comboIdx with next := 0 } := by
  unfold InputMapper.progress
  rw [hreleased.reset]
  rfl

theorem Released.progress_of_ne {m' : InputMapper} (hreleased : Released m app comboIdx m')
    (hother : ¬ (app' = app ∧ j = comboIdx)) : m'.progress app' j = m.progress app' j := by
  unfold InputMapper.progress
  rw [hreleased.others app' j hother]

/-! ## The timeout check -/

theorem timedOut_matcher :
    (m.matcher action).timedOut (m.progress app comboIdx) input =
      timedOut (m.combo app comboIdx) input.now := rfl

theorem progress_expired (m : InputMapper) (app : AppType) (input : Input) (comboIdx : ℕ)
    (action : KeyAction) :
    (m.expired app input comboIdx).progress app comboIdx =
      (m.matcher action).live (m.progress app comboIdx) input := by
  unfold expired expireCombo SequenceMatcher.live
  rw [touchCombo_combo, timedOut_matcher]
  by_cases htime : timedOut (m.combo app comboIdx) input.now = true
  · rw [if_pos htime, if_pos htime, (released_breakCombo _ app comboIdx).progress]
    unfold InputMapper.progress
    rw [touchCombo_combo]
  · rw [if_neg htime, if_neg htime]
    unfold InputMapper.progress
    rw [touchCombo_combo]

theorem progress_expired_of_ne (hother : ¬ (app' = app ∧ j = comboIdx)) :
    (m.expired app input comboIdx).progress app' j = m.progress app' j := by
  have htouched : (m.touchCombo app comboIdx).progress app' j = m.progress app' j := by
    unfold InputMapper.progress
    rw [touchCombo_combo]
  unfold expired
  rcases expireCombo_cases (m.touchCombo app comboIdx) app comboIdx input.now with h | h
  · rw [h, (released_breakCombo _ app comboIdx).progress_of_ne hother, htouched]
  · rw [h, htouched]

theorem sameSettings_expired : SameSettings m (m.expired app input comboIdx) := by
  have htouched : SameSettings m (m.touchCombo app comboIdx) := ⟨rfl, rfl, rfl, rfl⟩
  unfold expired
  rcases expireCombo_cases (m.touchCombo app comboIdx) app comboIdx input.now with h | h
  · rw [h]
    exact htouched.trans sameSettings_breakCombo
  · rw [h]
    exact htouched

theorem matcher_expired (m : InputMapper) (app : AppType) (input : Input) (comboIdx : ℕ) :
    (m.expired app input comboIdx).matcher action = m.matcher action := by
  unfold matcher
  rw [sameSettings_expired.numLockActive_]

/-! ## The loop body -/

theorem hit_matcher :
    (m.matcher action).hit (m.progress app comboIdx) input =
      (m.matchedStep app input action comboIdx).isSome := by
  unfold SequenceMatcher.hit matchedStep disabled matcher comboMatcher progress
  dsimp only
  by_cases hdisabled : (m.numLockActive_ && !isKeyboardOnlyMacro action) = true
  · simp [hdisabled]
  · cases action.trigger.events[(m.combo app comboIdx).nextKeyIndex]? with
    | none => simp
    | some step => by_cases hmatch : matchesStep step input.ev = true <;>
        simp [hdisabled, hmatch, Option.filter]

theorem breaks_matcher :
    m.breaks app input action comboIdx =
      (!(m.matcher action).hit (m.progress app comboIdx) input &&
        (0 < (m.progress app comboIdx).next &&
          (m.matcher action).breaks (m.progress app comboIdx).next input)) := by
  unfold SequenceMatcher.hit breaks disabled matcher comboMatcher progress
  dsimp only
  by_cases hdisabled : (m.numLockActive_ && !isKeyboardOnlyMacro action) = true
  · simp [hdisabled]
  · cases action.trigger.events[(m.combo app comboIdx).nextKeyIndex]? with
    | none => simp [hdisabled]
    | some step => by_cases hmatch : matchesStep step input.ev = true <;>
        simp [hdisabled, hmatch]

theorem advanceCombo_eq (step : TriggerStep) :
    m.advanceCombo app comboIdx action step input =
      if (m.progress app comboIdx).next + 1 = action.trigger.events.length then
        (m.recordMatch app comboIdx step input).completeCombo app comboIdx action
      else m.recordMatch app comboIdx step input := by
  unfold advanceCombo
  dsimp only
  rw [combo_recordMatch_self]
  rfl

theorem progress_recordMatch (step : TriggerStep) :
    (m.recordMatch app comboIdx step input).progress app comboIdx =
      ⟨(m.progress app comboIdx).next + 1, input.now⟩ := by
  unfold InputMapper.progress
  rw [combo_recordMatch_self]

theorem progress_recordMatch_of_ne (step : TriggerStep)
    (hother : ¬ (app' = app ∧ j = comboIdx)) :
    (m.recordMatch app comboIdx step input).progress app' j = m.progress app' j := by
  unfold InputMapper.progress
  rw [combo_recordMatch step input hother]

theorem matchCombo_verdict :
    (m.matchCombo app input action comboIdx).1 =
      match (m.matcher action).judge (m.progress app comboIdx) input with
      | .missed => m
      | .matched =>
          ((m.matchedStep app input action comboIdx).elim m fun step =>
            m.recordMatch app comboIdx step input)
      | .completed =>
          ((m.matchedStep app input action comboIdx).elim m fun step =>
            (m.recordMatch app comboIdx step input).completeCombo app comboIdx action)
      | .broken => m.breakCombo app comboIdx := by
  rw [matchCombo_eq, breaks_matcher]
  unfold SequenceMatcher.judge
  rw [hit_matcher]
  cases hstep : m.matchedStep app input action comboIdx with
  | none =>
      by_cases hbreaks : (decide (0 < (m.progress app comboIdx).next) &&
          (m.matcher action).breaks (m.progress app comboIdx).next input) = true
      · simp [hbreaks]
      · simp [hbreaks]
  | some step =>
      have hsteps : (m.matcher action).steps = action.trigger.events := rfl
      rw [hsteps]
      by_cases hlast :
          (m.progress app comboIdx).next + 1 = action.trigger.events.length
      · simp [hlast, advanceCombo_eq]
      · simp [hlast, advanceCombo_eq]

/-! ## A turn -/

/-- A turn and the verdict in it. -/
structure Turn (m : InputMapper) (app : AppType) (input : Input) (row : KeyAction × ℕ)
    (m' : InputMapper) : Prop where
  progress : m'.progress app row.2 =
    (m.matcher row.1).step (m.progress app row.2) input
  others : ∀ app' j, ¬ (app' = app ∧ j = row.2) → m'.progress app' j = m.progress app' j
  executed : m'.executed =
    m.executed ++ if m.verdict app input row = .completed then [row.1] else []

theorem verdict_expired {row : KeyAction × ℕ} :
    (m.matcher row.1).judge ((m.expired app input row.2).progress app row.2) input =
      m.verdict app input row := by
  rw [progress_expired m app input row.2 row.1]
  rfl

theorem exists_matchedStep {row : KeyAction × ℕ}
    (hverdict : m.verdict app input row = .matched ∨ m.verdict app input row = .completed) :
    ∃ step, (m.expired app input row.2).matchedStep app input row.1 row.2 = some step := by
  have hhit := SequenceMatcher.hit_of_verdict hverdict
  rw [← progress_expired m app input row.2 row.1, ← matcher_expired m app input row.2,
    hit_matcher] at hhit
  exact Option.isSome_iff_exists.mp hhit

theorem turn_comboTurn (app : AppType) (input : Input) (acc : InputMapper × Bool)
    {row : KeyAction × ℕ}
    (htrigger : row.1.trigger.events ≠ []) :
    Turn acc.1 app input row (comboTurn app input acc row).1 := by
  have hself := progress_expired acc.1 app input row.2 row.1
  have hothers : ∀ app' j, ¬ (app' = app ∧ j = row.2) →
      (acc.1.expired app input row.2).progress app' j = acc.1.progress app' j :=
    fun app' j hother => progress_expired_of_ne hother
  have hexecuted := executed_expired acc.1 app input row.2
  rw [comboTurn_fst htrigger, matchCombo_verdict, matcher_expired, verdict_expired]
  cases hverdict : acc.1.verdict app input row with
  | missed =>
      constructor
      · rw [SequenceMatcher.step_of_missed hverdict]
        exact hself
      · exact hothers
      · rw [hexecuted, hverdict]
        simp
  | matched =>
      obtain ⟨step, hmatched⟩ := exists_matchedStep (Or.inl hverdict)
      simp only [hmatched, Option.elim_some]
      constructor
      · rw [SequenceMatcher.step_of_matched hverdict, ← hself]
        exact progress_recordMatch step
      · intro app' j hother
        rw [← hothers app' j hother]
        exact progress_recordMatch_of_ne step hother
      · rw [executed_recordMatch, hexecuted, hverdict]
        simp
  | completed =>
      obtain ⟨step, hmatched⟩ := exists_matchedStep (Or.inr hverdict)
      have hreleased := released_completeCombo
        ((acc.1.expired app input row.2).recordMatch app row.2 step input) app row.2 row.1
      simp only [hmatched, Option.elim_some]
      constructor
      · rw [SequenceMatcher.step_of_completed hverdict, hreleased.progress,
          progress_recordMatch]
        rfl
      · intro app' j hother
        rw [hreleased.progress_of_ne hother, progress_recordMatch_of_ne step hother]
        exact hothers app' j hother
      · rw [executed_completeCombo, executed_recordMatch, hexecuted, hverdict]
        simp
  | broken =>
      have hreleased :=
        released_breakCombo (acc.1.expired app input row.2) app row.2
      dsimp only
      constructor
      · rw [SequenceMatcher.step_of_broken hverdict, hreleased.progress, hself]
      · intro app' j hother
        rw [hreleased.progress_of_ne hother]
        exact hothers app' j hother
      · rw [executed_breakCombo, hexecuted, hverdict]
        simp

theorem matcher_comboTurn (input : Input) (acc : InputMapper × Bool) (row : KeyAction × ℕ) :
    (comboTurn app input acc row).1.matcher action = acc.1.matcher action := by
  unfold matcher
  rw [(sameSettings_comboTurn app input acc row).numLockActive_]

/-! ## The loop -/

theorem progress_comboTurn_of_ne {acc : InputMapper × Bool} {row : KeyAction × ℕ}
    (hother : ¬ (app' = app ∧ j = row.2)) :
    (comboTurn app input acc row).1.progress app' j = acc.1.progress app' j := by
  by_cases htrigger : row.1.trigger.events = []
  · simp [comboTurn, htrigger]
  · exact (turn_comboTurn app input acc htrigger).others app' j hother

theorem verdict_comboTurn_of_ne {acc : InputMapper × Bool} {row row' : KeyAction × ℕ}
    (hother : row'.2 ≠ row.2) :
    (comboTurn app input acc row).1.verdict app input row' = acc.1.verdict app input row' := by
  unfold verdict
  rw [matcher_comboTurn, progress_comboTurn_of_ne fun h => hother h.2]

theorem progress_loop_of_not_mem {acc : InputMapper × Bool} {rows : List (KeyAction × ℕ)}
    (hrows : j ∉ rows.map Prod.snd) :
    (rows.foldl (comboTurn app input) acc).1.progress app j = acc.1.progress app j := by
  induction rows generalizing acc with
  | nil => rfl
  | cons row rows ih =>
      rw [List.map_cons, List.mem_cons, not_or] at hrows
      rw [List.foldl_cons, ih hrows.2, progress_comboTurn_of_ne fun h => hrows.1 h.2]

/-- The loop takes the matcher of each of its combos by one step. -/
theorem progress_loop {acc : InputMapper × Bool} {rows : List (KeyAction × ℕ)}
    {row : KeyAction × ℕ} (hnodup : (rows.map Prod.snd).Nodup) (hrow : row ∈ rows)
    (htrigger : row.1.trigger.events ≠ []) :
    (rows.foldl (comboTurn app input) acc).1.progress app row.2 =
      (acc.1.matcher row.1).step (acc.1.progress app row.2) input := by
  induction rows generalizing acc with
  | nil => exact absurd hrow List.not_mem_nil
  | cons first rows ih =>
      rw [List.map_cons, List.nodup_cons] at hnodup
      rw [List.foldl_cons]
      rcases List.mem_cons.mp hrow with rfl | hrow
      · rw [progress_loop_of_not_mem hnodup.1]
        exact (turn_comboTurn app input acc htrigger).progress
      · have hother : row.2 ≠ first.2 := by
          intro heq
          apply hnodup.1
          rw [← heq]
          exact List.mem_map_of_mem hrow
        rw [ih hnodup.2 hrow, matcher_comboTurn, progress_comboTurn_of_ne fun h => hother h.2]

/-- An event completes a combo. -/
def completes (m : InputMapper) (app : AppType) (input : Input) (row : KeyAction × ℕ) : Bool :=
  row.1.trigger.events ≠ [] && m.verdict app input row = .completed

/-- The loop executes the actions of the combos that the event completes. -/
theorem executed_loop_eq {acc : InputMapper × Bool} {rows : List (KeyAction × ℕ)}
    (hnodup : (rows.map Prod.snd).Nodup) :
    (rows.foldl (comboTurn app input) acc).1.executed =
      acc.1.executed ++ (rows.filter (acc.1.completes app input)).map Prod.fst := by
  induction rows generalizing acc with
  | nil => simp
  | cons row rows ih =>
      rw [List.map_cons, List.nodup_cons] at hnodup
      have hothers : rows.filter ((comboTurn app input acc row).1.completes app input) =
          rows.filter (acc.1.completes app input) := by
        apply List.filter_congr
        intro row' hrow'
        have hother : row'.2 ≠ row.2 := by
          intro heq
          apply hnodup.1
          rw [← heq]
          exact List.mem_map_of_mem hrow'
        unfold completes
        rw [verdict_comboTurn_of_ne hother]
      rw [List.foldl_cons, ih hnodup.2, hothers, List.filter_cons]
      by_cases htrigger : row.1.trigger.events = []
      · simp [comboTurn, completes, htrigger]
      · rw [(turn_comboTurn app input acc htrigger).executed]
        by_cases hverdict : acc.1.verdict app input row = .completed <;>
          simp [completes, htrigger, hverdict]

theorem nodup_zipIdx_snd (macros : List KeyAction) :
    (macros.zipIdx.map Prod.snd).Nodup := by
  rw [List.zipIdx_map_snd]
  exact List.nodup_range'

theorem stageMacros_spec (input : Input) {macros : List KeyAction}
    (hmacros : m.appMacros_ m.activeApp_ = some macros) :
    (∀ row ∈ macros.zipIdx, row.1.trigger.events ≠ [] →
        (m.stageMacros input false).1.progress m.activeApp_ row.2 =
          (m.matcher row.1).step (m.progress m.activeApp_ row.2) input) ∧
      (m.stageMacros input false).1.executed =
        m.executed ++ (macros.zipIdx.filter (m.completes m.activeApp_ input)).map Prod.fst := by
  have hfst : (m.stageMacros input false).1 =
      (macros.zipIdx.foldl (comboTurn m.activeApp_ input) (m, false)).1 := by
    unfold stageMacros
    rw [if_neg Bool.false_ne_true, hmacros]
    dsimp only
    split
    · rfl
    · split <;> rfl
  rw [hfst]
  exact ⟨fun row hrow htrigger => progress_loop (nodup_zipIdx_snd macros) hrow htrigger,
    executed_loop_eq (nodup_zipIdx_snd macros)⟩

end InputMapper

end AutomateLinux
