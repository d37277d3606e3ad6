import AutomateLinux.InputMapperMatching
import AutomateLinux.InputMapperSuppression

/-!
# Executed macros were typed

A run leaves a trail: for each combo the events its turns look at, its resets
and its executions, in the order the loop comes to them.  An execution is
preceded by the event that completes the combo, which is the last of events that
match the trigger in order and in time, all of them after the combo's last
reset.
-/

namespace AutomateLinux

open TransitionSystem

namespace InputMapper

open SequenceMatcher (Progress Verdict)

variable {m m' : InputMapper} {app app' : AppType} {comboIdx j : ℕ} {input : Input}
  {action : KeyAction}

/-! ## Trails -/

/-- What happens to the combos: one looks at an event, is reset (by a timeout, a
break or its completion) or is executed, or all of them are reset (by a change of
context, a flush, a NumLock toggle or a macro update). -/
inductive Mark
  | seen (app : AppType) (comboIdx : ℕ) (input : Input)
  | reset (app : AppType) (comboIdx : ℕ)
  | executed (app : AppType) (comboIdx : ℕ) (action : KeyAction)
  | resetAll
deriving DecidableEq

def Mark.action? : Mark → Option KeyAction
  | .executed _ _ action => some action
  | _ => none

def Mark.seenBy (app : AppType) (comboIdx : ℕ) : Mark → Option Input
  | .seen app' j input => if app' = app ∧ j = comboIdx then some input else none
  | _ => none

/-- The marks of one turn of the macro loop. -/
def turnMarks (app : AppType) (input : Input) (m : InputMapper) (row : KeyAction × ℕ) :
    List Mark :=
  if row.1.trigger.events = [] then []
  else
    let expired := m.expired app input row.2
    (if timedOut (m.combo app row.2) input.now then [.reset app row.2] else []) ++
      [.seen app row.2 input] ++
      if expired.breaks app input row.1 row.2 then [.reset app row.2]
      else if (expired.matchedStep app input row.1 row.2).isSome ∧
          (expired.combo app row.2).nextKeyIndex + 1 = row.1.trigger.events.length then
        [.executed app row.2 row.1, .reset app row.2]
      else []

def loopMarks (app : AppType) (input : Input) :
    InputMapper × Bool → List (KeyAction × ℕ) → List Mark
  | _, [] => []
  | acc, row :: rows =>
      turnMarks app input acc.1 row ++
        loopMarks app input (comboTurn app input acc row) rows

def stageMarks (m : InputMapper) (input : Input) (skipMacros : Bool) : List Mark :=
  if skipMacros then []
  else
    match m.appMacros_ m.activeApp_ with
    | none => []
    | some macros => loopMarks m.activeApp_ input (m, false) macros.zipIdx

def contextMarks (input : Input) : List Mark :=
  if input.ev.type = EV_KEY ∧ input.ev.code = KEY_NUMLOCK ∧ input.ev.value = 1 then
    [.resetAll]
  else []

def pipelineMarks (nested : InputMapper → Input → List Mark) (m : InputMapper)
    (input : Input) (skipMacros : Bool) : List Mark :=
  let m := m.stageContext input
  contextMarks input ++
    if m.monitoringMode_ then []
    else if skipMacros then m.stageMarks input true
    else
      match m.detectGKey input.ev with
      | (some gKey, m) => nested m (input.virtual gKey)
      | (none, m) => m.stageMarks input false

def eventMarks (m : InputMapper) (input : Input) (skipMacros : Bool) : List Mark :=
  m.pipelineMarks (fun m virtual => m.pipelineMarks (fun _ _ => []) virtual false) input
    skipMacros

def opMarks (m : InputMapper) : Operation → List Mark
  | .processEvent input skipMacros => m.eventMarks input skipMacros
  | .flushAndResetState => [.resetAll]
  | .setContext appType url title =>
      if m.activeApp_ = appType ∧ m.activeUrl_ = url ∧ m.activeTitle_ = title then []
      else [.resetAll]
  | .setNumLockState active _ => if m.numLockActive_ = active then [] else [.resetAll]
  | .setMacrosFromJson _ => [.resetAll]
  | .loadPersistence (some _) => [.resetAll]
  | _ => []

/-- The marks of a run. -/
def trail : InputMapper → List Operation → List Mark
  | _, [] => []
  | m, op :: ops =>
      match m.step op with
      | none => []
      | some next => m.opMarks op ++ trail next ops

/-! ## The events since a reset -/

def Mark.record (app : AppType) (comboIdx : ℕ) (since : List Input) : Mark → List Input
  | .seen app' j input => if app' = app ∧ j = comboIdx then since ++ [input] else since
  | .reset app' j => if app' = app ∧ j = comboIdx then [] else since
  | .executed _ _ _ => since
  | .resetAll => []

/-- The events that a combo has looked at since it was last reset. -/
def eventsSince (app : AppType) (comboIdx : ℕ) (marks : List Mark) : List Input :=
  marks.foldl (Mark.record app comboIdx) []

theorem eventsSince_append (marks more : List Mark) :
    eventsSince app comboIdx (marks ++ more) =
      more.foldl (Mark.record app comboIdx) (eventsSince app comboIdx marks) :=
  List.foldl_append

theorem foldl_record_sublist (since : List Input) (marks : List Mark) :
    (marks.foldl (Mark.record app comboIdx) since).Sublist
      (since ++ marks.filterMap (Mark.seenBy app comboIdx)) := by
  induction marks generalizing since with
  | nil => simp
  | cons mark marks ih =>
      apply (ih (mark.record app comboIdx since)).trans
      rw [List.filterMap_cons]
      cases mark with
      | seen app' j input =>
          by_cases hcombo : app' = app ∧ j = comboIdx
          · simp [Mark.record, Mark.seenBy, hcombo]
          · simp [Mark.record, Mark.seenBy, hcombo]
      | reset app' j =>
          by_cases hcombo : app' = app ∧ j = comboIdx
          · simp [Mark.record, Mark.seenBy, hcombo]
          · simp [Mark.record, Mark.seenBy, hcombo]
      | executed app' j action => exact List.Sublist.refl _
      | resetAll => simp [Mark.record, Mark.seenBy]

theorem eventsSince_sublist (marks : List Mark) :
    (eventsSince app comboIdx marks).Sublist (marks.filterMap (Mark.seenBy app comboIdx)) :=
  foldl_record_sublist [] marks

/-- Events that a combo has seen since its reset, the last of them just now, match
its trigger step by step and in time. -/
structure CompletedBy (marks : List Mark) (app : AppType) (comboIdx : ℕ)
    (action : KeyAction) (matched : List Input) : Prop where
  current : ∃ e, marks.getLast? = some (.seen app comboIdx e) ∧ matched.getLast? = some e
  since : matched.Sublist (eventsSince app comboIdx marks)
  steps : List.Forall₂ (fun step input => matchesStep step input.ev = true)
    action.trigger.events matched
  gaps : matched.IsChain fun e e' => e'.now ≤ e.now + COMBO_TIMEOUT

/-- Every execution in a trail has events that complete the combo. -/
def Justified (marks : List Mark) : Prop :=
  ∀ before app comboIdx action after,
    marks = before ++ .executed app comboIdx action :: after →
      ∃ matched, CompletedBy before app comboIdx action matched

theorem justified_nil : Justified [] := by
  intro before app comboIdx action after heq
  simp at heq

theorem Justified.snoc {marks : List Mark} {mark : Mark} (hjustified : Justified marks)
    (hmark : ∀ app comboIdx action, mark = .executed app comboIdx action →
      ∃ matched, CompletedBy marks app comboIdx action matched) : Justified (marks ++ [mark]) := by
  intro before app comboIdx action after heq
  rcases List.eq_nil_or_concat' after with rfl | ⟨after', last, rfl⟩
  · obtain ⟨rfl, hlast⟩ := List.append_inj' heq rfl
    exact hmark app comboIdx action (List.cons.inj hlast).1
  · rw [← List.cons_append, ← List.append_assoc] at heq
    obtain ⟨hinit, -⟩ := List.append_inj' heq rfl
    exact hjustified before app comboIdx action after' hinit

theorem Justified.append {marks more : List Mark} (hjustified : Justified marks)
    (hmore : ∀ mark ∈ more, mark.action? = none) : Justified (marks ++ more) := by
  induction more generalizing marks with
  | nil => rwa [List.append_nil]
  | cons mark more ih =>
      have hfirst : Justified (marks ++ [mark]) := by
        apply hjustified.snoc
        intro app comboIdx action hmark
        have hnone := hmore mark List.mem_cons_self
        rw [hmark] at hnone
        exact absurd hnone (Option.some_ne_none action)
      have htail := ih hfirst fun mark' h => hmore mark' (List.mem_cons_of_mem mark h)
      rwa [List.append_assoc, List.singleton_append] at htail

/-! ## The turns -/

theorem turnMarks_eq {row : KeyAction × ℕ} (htrigger : row.1.trigger.events ≠ []) :
    turnMarks app input m row =
      ((if (m.matcher row.1).timedOut (m.progress app row.2) input then
          [Mark.reset app row.2]
        else []) ++ [.seen app row.2 input]) ++
        match m.verdict app input row with
        | .completed => [.executed app row.2 row.1, .reset app row.2]
        | .broken => [.reset app row.2]
        | _ => [] := by
  have hlive := progress_expired m app input row.2 row.1
  have hnext : ((m.expired app input row.2).combo app row.2).nextKeyIndex =
      ((m.matcher row.1).live (m.progress app row.2) input).next := by
    rw [← hlive]
    rfl
  unfold turnMarks
  dsimp only
  rw [if_neg htrigger, breaks_matcher, ← hit_matcher, matcher_expired, hlive, hnext,
    timedOut_matcher]
  congr 1
  unfold verdict SequenceMatcher.verdict SequenceMatcher.judge
  have hsteps : (m.matcher row.1).steps = row.1.trigger.events := rfl
  rw [hsteps]
  split_ifs <;> simp_all

/-- The trail of a run so far explains the mapper: the progress of each combo is
short of completion and backed by the events since its reset, and every execution
is accounted for. -/
structure Explains (marks : List Mark) (m : InputMapper) : Prop where
  inRange : ∀ app macros, m.appMacros_ app = some macros → ∀ row ∈ macros.zipIdx,
    row.1.trigger.events ≠ [] →
      (m.progress app row.2).next < row.1.trigger.events.length
  backed : ∀ app macros, m.appMacros_ app = some macros → ∀ row ∈ macros.zipIdx,
    (m.matcher row.1).Backed (m.progress app row.2) (eventsSince app row.2 marks)
  justified : Justified marks
  executed : m.executed = marks.filterMap Mark.action?

theorem Explains.congr {marks : List Mark} (hexplains : Explains marks m)
    (hmacros : m'.appMacros_ = m.appMacros_)
    (hcombo : ∀ app j, m'.combo app j = m.combo app j)
    (hnumlock : m'.numLockActive_ = m.numLockActive_) (hexecuted : m'.executed = m.executed) :
    Explains marks m' where
  inRange := by
    intro app macros happ row hrow htrigger
    rw [hmacros] at happ
    have hrange := hexplains.inRange app macros happ row hrow htrigger
    unfold progress at hrange ⊢
    rwa [hcombo]
  backed := by
    intro app macros happ row hrow
    rw [hmacros] at happ
    have hbacked := hexplains.backed app macros happ row hrow
    unfold progress matcher at hbacked ⊢
    rwa [hcombo, hnumlock]
  justified := hexplains.justified
  executed := hexecuted.trans hexplains.executed

theorem Explains.sameMatching {marks : List Mark} (hexplains : Explains marks m)
    (hsame : SameMatching m m') : Explains marks m' :=
  hexplains.congr hsame.appMacros_ hsame.combo hsame.numLockActive_ hsame.executed

/-- Nothing has to be explained of combos that are not in progress. -/
theorem Explains.resetAll {marks : List Mark} (hexplains : Explains marks m)
    (hidle : ∀ app, Idle app m') (hexecuted : m'.executed = m.executed) :
    Explains (marks ++ [.resetAll]) m' where
  inRange := by
    intro app _ _ row _ htrigger
    show (m'.combo app row.2).nextKeyIndex < row.1.trigger.events.length
    rw [hidle app row.2]
    exact List.length_pos_of_ne_nil htrigger
  backed := fun app _ _ row _ => SequenceMatcher.backed_of_next_eq_zero (hidle app row.2)
  justified := hexplains.justified.append (by simp [Mark.action?])
  executed := by
    rw [hexecuted, hexplains.executed, List.filterMap_append]
    exact (List.append_nil _).symm

theorem eventsSince_seen {marks : List Mark} {row : KeyAction × ℕ} (timedOut : Bool) :
    eventsSince app row.2
        (marks ++ ((if timedOut then [.reset app row.2] else []) ++ [.seen app row.2 input])) =
      (if timedOut then [] else eventsSince app row.2 marks) ++ [input] := by
  rw [eventsSince_append]
  cases timedOut <;> simp [Mark.record]

theorem eventsSince_turnMarks_of_ne {marks : List Mark} {row : KeyAction × ℕ}
    (hother : ¬ (app' = app ∧ j = row.2)) :
    eventsSince app' j (marks ++ turnMarks app input m row) = eventsSince app' j marks := by
  have hother' : ¬ (app = app' ∧ row.2 = j) := fun h => hother ⟨h.1.symm, h.2.symm⟩
  rw [eventsSince_append]
  by_cases htrigger : row.1.trigger.events = []
  · simp [turnMarks, htrigger]
  · rw [turnMarks_eq htrigger, List.foldl_append, List.foldl_append]
    have htimeout : ∀ since : List Input,
        List.foldl (Mark.record app' j) since
          (if (m.matcher row.1).timedOut (m.progress app row.2) input then
            [Mark.reset app row.2] else []) = since := by
      intro since
      split <;> simp [Mark.record, hother']
    rw [htimeout]
    cases m.verdict app input row <;> simp [Mark.record, hother']

theorem eventsSince_turnMarks {marks : List Mark} {row : KeyAction × ℕ}
    (htrigger : row.1.trigger.events ≠ []) :
    eventsSince app row.2 (marks ++ turnMarks app input m row) =
      if (m.verdict app input row).resets then []
      else
        (if (m.matcher row.1).timedOut (m.progress app row.2) input then []
          else eventsSince app row.2 marks) ++ [input] := by
  rw [turnMarks_eq htrigger, ← List.append_assoc, eventsSince_append, eventsSince_seen]
  cases m.verdict app input row <;> simp [Mark.record, Verdict.resets]

theorem action?_turnMarks {row : KeyAction × ℕ} (htrigger : row.1.trigger.events ≠ []) :
    (turnMarks app input m row).filterMap Mark.action? =
      if m.verdict app input row = .completed then [row.1] else [] := by
  rw [turnMarks_eq htrigger]
  split
  all_goals cases m.verdict app input row <;> rfl

theorem Justified.turnMarks {marks : List Mark} {row : KeyAction × ℕ}
    (hjustified : Justified marks) (htrigger : row.1.trigger.events ≠ [])
    (hcompleted : m.verdict app input row = .completed →
      ∃ matched, CompletedBy
        (marks ++
          ((if (m.matcher row.1).timedOut (m.progress app row.2) input then
            [Mark.reset app row.2] else []) ++ [.seen app row.2 input]))
        app row.2 row.1 matched) :
    Justified (marks ++ InputMapper.turnMarks app input m row) := by
  have hseen : Justified
      (marks ++
        ((if (m.matcher row.1).timedOut (m.progress app row.2) input then
          [Mark.reset app row.2] else []) ++ [.seen app row.2 input])) := by
    apply hjustified.append
    intro mark hmark
    split at hmark <;> simp at hmark <;> aesop
  rw [turnMarks_eq htrigger, ← List.append_assoc]
  cases hverdict : m.verdict app input row with
  | missed | matched =>
      apply hseen.append
      intro mark hmark
      exact absurd hmark List.not_mem_nil
  | completed =>
      have hexecuted := hseen.snoc fun app' j action heq => by
        obtain ⟨rfl, rfl, rfl⟩ := Mark.executed.inj heq
        exact hcompleted hverdict
      have hreset : ∀ mark ∈ [Mark.reset app row.2], mark.action? = none := by
        simp [Mark.action?]
      have hboth := hexecuted.append hreset
      rwa [List.append_assoc] at hboth
  | broken =>
      apply hseen.append
      simp [Mark.action?]

theorem completedBy_of_matched {marks : List Mark} {earlier : List Input}
    {row : KeyAction × ℕ} (hlast : marks.getLast? = some (.seen app row.2 input))
    (hsub : (earlier ++ [input]).Sublist (eventsSince app row.2 marks))
    (hmatched : (m.matcher row.1).Matched row.1.trigger.events (earlier ++ [input])) :
    CompletedBy marks app row.2 row.1 (earlier ++ [input]) where
  current := ⟨input, hlast, List.getLast?_concat⟩
  since := hsub
  steps := by
    apply hmatched.hits.imp
    intro step e hhit
    exact (Bool.and_eq_true_iff.mp hhit).2
  gaps := hmatched.gaps

theorem eq_of_mem_zipIdx {macros : List KeyAction} {row row' : KeyAction × ℕ}
    (hrow : row ∈ macros.zipIdx) (hrow' : row' ∈ macros.zipIdx) (hidx : row'.2 = row.2) :
    row' = row := by
  rw [List.mem_zipIdx_iff_getElem?] at hrow hrow'
  rw [hidx, hrow] at hrow'
  exact Prod.ext (Option.some.inj hrow').symm hidx

theorem Explains.comboTurn {marks : List Mark} {acc : InputMapper × Bool}
    {row : KeyAction × ℕ} {macros : List KeyAction} (hexplains : Explains marks acc.1)
    (input : Input)
    (hmacros : acc.1.appMacros_ app = some macros) (hrow : row ∈ macros.zipIdx) :
    Explains (marks ++ turnMarks app input acc.1 row) (comboTurn app input acc row).1 := by
  by_cases htrigger : row.1.trigger.events = []
  · have hmarks : turnMarks app input acc.1 row = [] := by simp [turnMarks, htrigger]
    have hturn : InputMapper.comboTurn app input acc row = acc := by
      simp [InputMapper.comboTurn, htrigger]
    rw [hmarks, hturn, List.append_nil]
    exact hexplains
  have hturn := turn_comboTurn app input acc htrigger
  have hsettings := sameSettings_comboTurn app input acc row
  obtain ⟨hbacked, hcompleted⟩ :=
    (hexplains.backed app macros hmacros row hrow).step (e := input)
  -- a combo is that of one row only
  have hsame : ∀ {macros' row'}, acc.1.appMacros_ app = some macros' → row' ∈ macros'.zipIdx →
      row'.2 = row.2 → row' = row := by
    intro macros' row' hmacros' hrow' hidx
    obtain rfl : macros = macros' := Option.some.inj (hmacros.symm.trans hmacros')
    exact eq_of_mem_zipIdx hrow hrow' hidx
  constructor
  · intro app' macros' hmacros' row' hrow' htrigger'
    rw [hsettings.appMacros_] at hmacros'
    have hrange := hexplains.inRange app' macros' hmacros' row' hrow' htrigger'
    by_cases hcombo : app' = app ∧ row'.2 = row.2
    · obtain ⟨rfl, hidx⟩ := hcombo
      obtain rfl := hsame hmacros' hrow' hidx
      rw [hturn.progress]
      exact SequenceMatcher.step_next_lt hrange
    · rw [hturn.others app' row'.2 hcombo]
      exact hrange
  · intro app' macros' hmacros' row' hrow'
    rw [hsettings.appMacros_] at hmacros'
    rw [matcher_comboTurn]
    by_cases hcombo : app' = app ∧ row'.2 = row.2
    · obtain ⟨rfl, hidx⟩ := hcombo
      obtain rfl := hsame hmacros' hrow' hidx
      rw [hturn.progress, eventsSince_turnMarks htrigger]
      exact hbacked
    · rw [hturn.others app' row'.2 hcombo, eventsSince_turnMarks_of_ne hcombo]
      exact hexplains.backed app' macros' hmacros' row' hrow'
  · apply hexplains.justified.turnMarks htrigger
    intro hverdict
    obtain ⟨earlier, hsub, hmatched⟩ := hcompleted hverdict
    refine ⟨earlier ++ [input], completedBy_of_matched ?_ ?_ hmatched⟩
    · simp
    · rw [eventsSince_seen]
      exact hsub
  · rw [hturn.executed, List.filterMap_append, action?_turnMarks htrigger,
      hexplains.executed]

/-! ## The loop and the pipeline -/

theorem Explains.loop {marks : List Mark} {acc : InputMapper × Bool}
    {rows : List (KeyAction × ℕ)} {macros : List KeyAction} (hexplains : Explains marks acc.1)
    (input : Input)
    (hmacros : acc.1.appMacros_ app = some macros) (hrows : ∀ row ∈ rows, row ∈ macros.zipIdx) :
    Explains (marks ++ loopMarks app input acc rows)
      (rows.foldl (InputMapper.comboTurn app input) acc).1 := by
  induction rows generalizing marks acc with
  | nil =>
      rw [loopMarks, List.append_nil]
      exact hexplains
  | cons row rows ih =>
      have hturn := hexplains.comboTurn input hmacros (hrows row List.mem_cons_self)
      rw [← (sameSettings_comboTurn app input acc row).appMacros_] at hmacros
      rw [loopMarks, ← List.append_assoc, List.foldl_cons]
      exact ih hturn hmacros fun row' h => hrows row' (List.mem_cons_of_mem row h)

theorem Explains.stageMacros {marks : List Mark} (hexplains : Explains marks m) (input : Input)
    (skipMacros : Bool) :
    Explains (marks ++ m.stageMarks input skipMacros)
      (m.stageMacros input skipMacros).1 := by
  unfold stageMarks InputMapper.stageMacros
  split
  · rw [List.append_nil]
    exact hexplains
  · cases hmacros : m.appMacros_ m.activeApp_ with
    | none =>
        rw [List.append_nil]
        exact hexplains
    | some macros =>
        have hloop := Explains.loop (show Explains marks (m, false).1 from hexplains) input
          hmacros fun row h => h
        dsimp only
        split
        · exact hloop
        · split <;> exact hloop

theorem Explains.matchAndEmit {marks : List Mark} (hexplains : Explains marks m)
    (skipMacros : Bool) :
    Explains (marks ++ m.stageMarks input skipMacros) (m.matchAndEmit input skipMacros) := by
  obtain ⟨own, -, heq⟩ := matchAndEmit_eq_write m input skipMacros
  rw [heq]
  exact (hexplains.stageMacros input skipMacros).congr rfl (fun _ _ => rfl) rfl rfl

theorem executed_foldl_dropCombo (rows : List (AppType × ℕ)) :
    (rows.foldl dropCombo m).executed = m.executed := by
  induction rows generalizing m with
  | nil => rfl
  | cons row rows ih => exact ih

theorem executed_releaseAllPressedKeys : m.releaseAllPressedKeys.executed = m.executed := by
  obtain ⟨events, heq⟩ := releaseAllPressedKeys_eq_write m
  rw [heq]
  exact executed_foldl_dropCombo _

theorem executed_flushCombo (row : AppType × ℕ) : (m.flushCombo row).executed = m.executed := by
  unfold flushCombo
  dsimp only
  rw [foldl_emit]
  rfl

theorem executed_flushAndResetState : m.flushAndResetState.executed = m.executed := by
  have hrows : ∀ (rows : List (AppType × ℕ)) (m : InputMapper),
      (rows.foldl flushCombo m).executed = m.executed := by
    intro rows
    induction rows with
    | nil => exact fun m => rfl
    | cons row rows ih => exact fun m => (ih _).trans (executed_flushCombo row)
  exact hrows _ m

theorem Explains.setNumLockState {marks : List Mark} (hexplains : Explains marks m)
    (active allReleased : Bool) :
    Explains (marks ++ if m.numLockActive_ = active then [] else [.resetAll])
      (m.setNumLockState active allReleased) := by
  unfold InputMapper.setNumLockState
  split
  · rw [List.append_nil]
    exact hexplains
  · apply hexplains.resetAll (idle_releaseAllPressedKeys ·)
    rw [executed_releaseAllPressedKeys]
    unfold ungrabDevices grabDevices
    dsimp only
    split_ifs <;> rfl

theorem Explains.stageContext {marks : List Mark} (hexplains : Explains marks m)
    (input : Input) :
    Explains (marks ++ contextMarks input) (m.stageContext input) := by
  have htracked : SameMatching m ((m.escapeKeys input).trackKey input.ev) :=
    (sameMatching_escapeKeys input).trans (sameMatching_trackKey input.ev)
  have hexplains' := hexplains.sameMatching htracked
  unfold contextMarks InputMapper.stageContext
  dsimp only
  by_cases hkey : input.ev.type = EV_KEY
  · by_cases hnumlock : input.ev.code = KEY_NUMLOCK ∧ input.ev.value = 1
    · have htoggled := hexplains'.setNumLockState
        (!((m.escapeKeys input).trackKey input.ev).numLockActive_) input.allReleased
      rw [if_neg (Bool.not_ne_self _).symm] at htoggled
      rw [if_pos ⟨hkey, hnumlock⟩, if_pos hkey, if_pos hnumlock]
      exact htoggled
    · rw [if_neg fun h => hnumlock h.2, if_pos hkey, if_neg hnumlock, List.append_nil]
      exact hexplains'
  · rw [if_neg fun h => hkey h.1, if_neg hkey, List.append_nil]
    exact hexplains

theorem Explains.pipeline {nested : InputMapper → Input → InputMapper}
    {nestedMarks : InputMapper → Input → List Mark} {marks : List Mark}
    (hexplains : Explains marks m)
    (hnested : ∀ {m marks} virtual, Explains marks m →
      Explains (marks ++ nestedMarks m virtual) (nested m virtual))
    (skipMacros : Bool) :
    Explains (marks ++ m.pipelineMarks nestedMarks input skipMacros)
      (m.pipeline nested input skipMacros) := by
  have hcontext := hexplains.stageContext input
  have hdetect := hcontext.sameMatching (sameMatching_detectGKey input.ev)
  unfold pipelineMarks InputMapper.pipeline
  dsimp only
  rw [← List.append_assoc]
  split
  · rw [List.append_nil]
    exact hcontext
  · split
    · exact hcontext.matchAndEmit true
    · rcases hkey : (m.stageContext input).detectGKey input.ev with ⟨gKey, detected⟩
      rw [hkey] at hdetect
      cases gKey with
      | none => exact hdetect.matchAndEmit false
      | some gKey => exact hnested _ hdetect

theorem Explains.processEvent {marks : List Mark} (hexplains : Explains marks m)
    (skipMacros : Bool) :
    Explains (marks ++ m.eventMarks input skipMacros) (m.processEvent input skipMacros) := by
  apply hexplains.pipeline
  intro m marks virtual hexplains
  apply hexplains.pipeline
  intro m marks virtual hexplains
  rw [List.append_nil]
  exact hexplains

/-! ## Runs -/

theorem Explains.step {op : Operation} {marks : List Mark} (hexplains : Explains marks m)
    (hstep : m.step op = some m') : Explains (marks ++ m.opMarks op) m' := by
  have hsame : ∀ {m'}, SameMatching m m' → Explains (marks ++ []) m' := by
    intro m' hsame
    rw [List.append_nil]
    exact hexplains.sameMatching hsame
  have hwritten : ∀ events, Explains (marks ++ []) (m.write events) := by
    intro events
    rw [List.append_nil]
    exact hexplains.congr rfl (fun _ _ => rfl) rfl rfl
  cases op with
  | processEvent input skipMacros =>
      obtain rfl := Option.some.inj hstep
      exact hexplains.processEvent skipMacros
  | flushAndResetState =>
      obtain rfl := Option.some.inj hstep
      apply hexplains.resetAll _ executed_flushAndResetState
      exact fun app => idle_foldl_released released_flushCombo app
  | setContext appType url title =>
      obtain rfl := Option.some.inj hstep
      unfold opMarks setContext
      dsimp only
      split
      · exact hsame SameMatching.refl
      · apply hexplains.resetAll (idle_releaseAllPressedKeys ·)
        rw [executed_releaseAllPressedKeys]
  | setNumLockState active allReleased =>
      obtain rfl := Option.some.inj hstep
      exact hexplains.setNumLockState active allReleased
  | setMacrosFromJson j =>
      obtain rfl := Option.some.inj hstep
      exact hexplains.resetAll (fun _ _ => rfl) rfl
  | loadPersistence savedMacros =>
      obtain rfl := Option.some.inj hstep
      cases savedMacros with
      | none => exact hsame SameMatching.refl
      | some j => exact hexplains.resetAll (fun _ _ => rfl) rfl
  | grabDevices allReleased =>
      obtain rfl := Option.some.inj hstep
      apply hsame
      unfold grabDevices
      split <;> exact ⟨rfl, rfl, rfl, rfl, rfl, rfl, rfl⟩
  | setupDevices pressed | ungrabDevices =>
      obtain rfl := Option.some.inj hstep
      exact hsame ⟨rfl, rfl, rfl, rfl, rfl, rfl, rfl⟩
  | emit ev =>
      obtain rfl := Option.some.inj hstep
      rw [emit_eq_write]
      exact hwritten _
  | sync =>
      obtain rfl := Option.some.inj hstep
      exact hwritten _
  | paste =>
      simp only [InputMapper.step] at hstep
      split at hstep
      · obtain rfl := Option.some.inj hstep
        unfold opMarks
        rw [List.append_nil]
        exact hexplains.congr rfl (fun _ _ => rfl) rfl rfl
      · simp at hstep

theorem Explains.run {ops : List Operation} {marks : List Mark} (hexplains : Explains marks m)
    (hrun : execute InputMapper.step m ops = some m') : Explains (marks ++ trail m ops) m' := by
  induction ops generalizing m marks with
  | nil =>
      obtain rfl : m = m' := by simpa [execute] using hrun
      rw [trail, List.append_nil]
      exact hexplains
  | cons op ops ih =>
      obtain ⟨next, hnext, hrest⟩ : ∃ next, m.step op = some next ∧
          execute InputMapper.step next ops = some m' := by
        simpa [execute, Option.bind_eq_some_iff] using hrun
      have htail := ih (hexplains.step hnext) hrest
      rw [List.append_assoc] at htail
      simpa only [trail, hnext] using htail

/-! ## The events of a run -/

def Operation.input? : Operation → Option Input
  | .processEvent input _ => some input
  | _ => none

/-- The event is the physical one or the virtual one of a G-key it ends. -/
def StandsFor (input physical : Input) : Prop :=
  input = physical ∨ ∃ gKey, input = physical.virtual gKey

theorem seenBy_turnMarks (app app' : AppType) (comboIdx : ℕ) (input : Input) (m : InputMapper)
    (row : KeyAction × ℕ) :
    ((turnMarks app' input m row).filterMap (Mark.seenBy app comboIdx)).Sublist
      (if row.2 = comboIdx then [input] else []) := by
  by_cases htrigger : row.1.trigger.events = []
  · simp [turnMarks, htrigger]
  · have hseen : (turnMarks app' input m row).filterMap (Mark.seenBy app comboIdx) =
        if app' = app ∧ row.2 = comboIdx then [input] else [] := by
      rw [turnMarks_eq htrigger]
      split
      all_goals
        cases m.verdict app' input row <;>
          by_cases hcombo : app' = app ∧ row.2 = comboIdx <;>
            simp [Mark.seenBy, List.filterMap_cons, hcombo]
    rw [hseen]
    by_cases hidx : row.2 = comboIdx
    · split <;> simp
    · simp [hidx]

theorem seenBy_loopMarks (acc : InputMapper × Bool) (rows : List (KeyAction × ℕ)) :
    ((loopMarks app' input acc rows).filterMap (Mark.seenBy app comboIdx)).Sublist
      ((rows.filter fun row => row.2 = comboIdx).map fun _ => input) := by
  induction rows generalizing acc with
  | nil => exact List.Sublist.refl _
  | cons row rows ih =>
      rw [loopMarks, List.filterMap_append, List.filter_cons]
      have hturn := seenBy_turnMarks app app' comboIdx input acc.1 row
      have htail := ih (comboTurn app' input acc row)
      by_cases hidx : row.2 = comboIdx
      · rw [if_pos hidx] at hturn
        simpa [hidx] using hturn.append htail
      · rw [if_neg hidx] at hturn
        simpa [hidx] using hturn.append htail

theorem seenBy_stageMarks (skipMacros : Bool) :
    ((m.stageMarks input skipMacros).filterMap (Mark.seenBy app comboIdx)).Sublist
      [input] := by
  unfold stageMarks
  split
  · simp
  · cases hmacros : m.appMacros_ m.activeApp_ with
    | none => simp
    | some macros =>
        apply (seenBy_loopMarks _ _).trans
        rw [List.map_const', show [input] = List.replicate 1 input from rfl,
          List.replicate_sublist_replicate]
        have hindices : (macros.zipIdx.filter fun row => row.2 = comboIdx).map Prod.snd =
            List.replicate (macros.zipIdx.filter fun row => row.2 = comboIdx).length
              comboIdx := by
          rw [List.eq_replicate_iff]
          constructor
          · exact List.length_map _
          · intro j hj
            obtain ⟨row, hrow, rfl⟩ := List.mem_map.mp hj
            simpa using (List.mem_filter.mp hrow).2
        have hnodup : ((macros.zipIdx.filter fun row => row.2 = comboIdx).map
            Prod.snd).Nodup := by
          apply List.Nodup.sublist (List.filter_sublist.map Prod.snd)
          exact nodup_zipIdx_snd macros
        rwa [hindices, List.nodup_replicate] at hnodup

theorem seenBy_contextMarks :
    (contextMarks input).filterMap (Mark.seenBy app comboIdx) = [] := by
  unfold contextMarks
  split <;> rfl

theorem seenBy_pipelineMarks {nestedMarks : InputMapper → Input → List Mark}
    {physical : Input} (skipMacros : Bool) (hstands : StandsFor input physical)
    (hnested : ∀ m gKey, ∃ e, StandsFor e physical ∧
      ((nestedMarks m (input.virtual gKey)).filterMap (Mark.seenBy app comboIdx)).Sublist
        [e]) :
    ∃ e, StandsFor e physical ∧
      ((m.pipelineMarks nestedMarks input skipMacros).filterMap
        (Mark.seenBy app comboIdx)).Sublist [e] := by
  unfold pipelineMarks
  dsimp only
  rw [List.filterMap_append, seenBy_contextMarks, List.nil_append]
  split
  · exact ⟨input, hstands, List.nil_sublist _⟩
  · split
    · exact ⟨input, hstands, seenBy_stageMarks true⟩
    · rcases (m.stageContext input).detectGKey input.ev with ⟨gKey, detected⟩
      cases gKey with
      | none => exact ⟨input, hstands, seenBy_stageMarks false⟩
      | some gKey => exact hnested detected gKey

/-- A combo looks at a physical event, or the virtual one it ends, once. -/
theorem seenBy_opMarks (m : InputMapper) (app : AppType) (comboIdx : ℕ) (op : Operation) :
    ∃ events, List.Forall₂ StandsFor events op.input?.toList ∧
      ((m.opMarks op).filterMap (Mark.seenBy app comboIdx)).Sublist events := by
  cases op with
  | processEvent physical skipMacros =>
      have hphysical : StandsFor physical physical := Or.inl rfl
      have hseen : ∃ e, StandsFor e physical ∧
          ((m.eventMarks physical skipMacros).filterMap (Mark.seenBy app comboIdx)).Sublist
            [e] := by
        apply seenBy_pipelineMarks skipMacros hphysical
        intro m gKey
        have hvirtual : StandsFor (physical.virtual gKey) physical := Or.inr ⟨gKey, rfl⟩
        apply seenBy_pipelineMarks false hvirtual
        intro m gKey'
        exact ⟨physical, hphysical, List.nil_sublist _⟩
      obtain ⟨e, hstands, hsub⟩ := hseen
      exact ⟨[e], List.Forall₂.cons hstands List.Forall₂.nil, hsub⟩
  | setContext | setNumLockState =>
      refine ⟨[], List.Forall₂.nil, ?_⟩
      dsimp only [opMarks]
      split <;> exact List.Sublist.refl _
  | loadPersistence savedMacros =>
      cases savedMacros <;> exact ⟨[], List.Forall₂.nil, List.Sublist.refl _⟩
  | flushAndResetState | setMacrosFromJson | setupDevices | grabDevices | ungrabDevices
  | emit | sync | paste => exact ⟨[], List.Forall₂.nil, List.Sublist.refl _⟩

theorem seenBy_trail (app : AppType) (comboIdx : ℕ) (m : InputMapper) (ops : List Operation) :
    ∃ events, List.Forall₂ StandsFor events (ops.filterMap Operation.input?) ∧
      ((trail m ops).filterMap (Mark.seenBy app comboIdx)).Sublist events := by
  induction ops generalizing m with
  | nil => exact ⟨[], List.Forall₂.nil, List.Sublist.refl _⟩
  | cons op ops ih =>
      obtain ⟨first, hfirst, hseen⟩ :=
        seenBy_opMarks m app comboIdx op
      have hinputs : (op :: ops).filterMap Operation.input? =
          op.input?.toList ++ ops.filterMap Operation.input? := by
        cases hop : op.input? <;> simp [hop]
      rw [hinputs]
      cases hnext : m.step op with
      | none =>
          obtain ⟨rest, hrest, -⟩ := ih m
          refine ⟨first ++ rest, List.rel_append hfirst hrest, ?_⟩
          simp [trail, hnext]
      | some next =>
          obtain ⟨rest, hrest, hsub⟩ := ih next
          refine ⟨first ++ rest, List.rel_append hfirst hrest, ?_⟩
          simp only [trail, hnext, List.filterMap_append]
          exact hseen.append hsub

theorem explains_initial : Explains [] {} where
  inRange := fun _ _ _ _ _ htrigger => List.length_pos_of_ne_nil htrigger
  backed := fun _ _ _ _ _ => SequenceMatcher.backed_of_next_eq_zero rfl
  justified := justified_nil
  executed := rfl

theorem reachable_explained (hreach : Reachable InputMapper.step {} m) :
    ∃ marks, Explains marks m := by
  apply hreach.invariant (I := fun m => ∃ marks, Explains marks m)
  · rintro before op after ⟨marks, hexplains⟩ hstep
    exact ⟨_, hexplains.step hstep⟩
  · exact ⟨[], explains_initial⟩

/-- In every run the actions executed are those of its trail, and each of them has
events of the run, seen since the combo's last reset, that complete it. -/
theorem executed_completedBy {ops : List Operation}
    (hrun : execute step {} ops = some m) :
    m.executed = (trail {} ops).filterMap Mark.action? ∧
      ∀ before app comboIdx action after,
        trail {} ops = before ++ .executed app comboIdx action :: after →
          ∃ matched events, CompletedBy before app comboIdx action matched ∧
            matched.Sublist events ∧
            List.Forall₂ StandsFor events (ops.filterMap Operation.input?) := by
  have hexplains := explains_initial.run hrun
  rw [List.nil_append] at hexplains
  constructor
  · exact hexplains.executed
  · intro before app comboIdx action after hsplit
    obtain ⟨matched, hcompleted⟩ := hexplains.justified _ _ _ _ _ hsplit
    obtain ⟨events, hstands, hseen⟩ :=
      seenBy_trail app comboIdx {} ops
    have hbefore : (before.filterMap (Mark.seenBy app comboIdx)).Sublist events := by
      rw [hsplit, List.filterMap_append] at hseen
      exact (List.sublist_append_left _ _).trans hseen
    exact ⟨matched, events, hcompleted,
      hcompleted.since.trans ((eventsSince_sublist before).trans hbefore), hstands⟩

/-- Ctrl and V, typed in Chrome. -/
def ctrlV : List Operation :=
  [.setContext .CHROME "" "", .processEvent ⟨⟨EV_KEY, KEY_LEFTCTRL, 1⟩, 0, true⟩ false,
    .processEvent ⟨⟨EV_KEY, KEY_V, 1⟩, COMBO_TIMEOUT, true⟩ false]

theorem ctrlV_completedBy :
    ∃ m, execute step {} ctrlV = some m ∧
      m.executed = (trail {} ctrlV).filterMap Mark.action? ∧ m.executed ≠ [] ∧
      ∀ before app comboIdx action after,
        trail {} ctrlV = before ++ .executed app comboIdx action :: after →
          ∃ matched events, CompletedBy before app comboIdx action matched ∧
            matched.Sublist events ∧
            List.Forall₂ StandsFor events (ctrlV.filterMap Operation.input?) := by
  obtain ⟨m, hrun⟩ : ∃ m, execute step {} ctrlV = some m :=
    Option.isSome_iff_exists.mp (by decide +kernel)
  obtain ⟨hexecuted, hcompleted⟩ := executed_completedBy hrun
  have htyped : (trail {} ctrlV).filterMap Mark.action? ≠ [] := by decide +kernel
  rw [← hexecuted] at htyped
  exact ⟨m, hrun, hexecuted, htyped, hcompleted⟩

end InputMapper

end AutomateLinux
