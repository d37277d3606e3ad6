import AutomateLinux.InputMapperTransparency

/-!
# The order in which a broken combo gives its events back

A combo records the events it withholds in the order in which they arrive, and
the registry files them by key code.  A break claims them from the registry and
so replays them code by code.  The two agree on every single key, and hence on
the whole exactly when the combo withheld its events in ascending order of code.
-/

namespace AutomateLinux

open TransitionSystem
open RegroupedList (SameByKey Ascending)

namespace InputMapper

variable {m m' : InputMapper} {app : AppType} {comboIdx : ℕ}

/-! ## What the combos have recorded -/

/-- For every combo of an application and every key, the registry withholds what
the combo has recorded as withheld. -/
structure Recorded (app : AppType) (m : InputMapper) : Prop where
  keyed : m.suppressionRegistry_.Keyed
  events : ∀ comboIdx code,
    ((m.suppressionRegistry_.withheld code).filter
        (SuppressionRegistry.isOwnedBy comboIdx)).map WithheldKey.event =
      (m.combo app comboIdx).suppressedEvents.filter fun ev => ev.code = code

theorem Recorded.congr (hrecorded : Recorded app m)
    (hregistry : m'.suppressionRegistry_ = m.suppressionRegistry_)
    (hcombo : ∀ j, (m'.combo app j).suppressedEvents = (m.combo app j).suppressedEvents) :
    Recorded app m' := by
  refine ⟨hregistry ▸ hrecorded.keyed, fun comboIdx code => ?_⟩
  rw [hregistry, hcombo]
  exact hrecorded.events comboIdx code

theorem Recorded.released (hrecorded : Recorded app m)
    (hreleased : Released m app comboIdx m') : Recorded app m' := by
  constructor
  · rw [hreleased.registry]
    exact SuppressionRegistry.keyed_unclaimed hrecorded.keyed comboIdx
  · intro j code
    rw [hreleased.registry, SuppressionRegistry.withheld_unclaimed, List.filter_filter]
    by_cases hj : j = comboIdx
    · subst hj
      rw [hreleased.reset]
      simp [ComboState.reset]
    · rw [hreleased.others app j fun h => hj h.2, ← hrecorded.events]
      congr 1
      refine List.filter_congr fun wk _ => ?_
      by_cases howner : wk.owningComboIdx = j <;> simp [SuppressionRegistry.isOwnedBy, howner, hj]

theorem Recorded.recordMatch (hrecorded : Recorded app m) (step : TriggerStep)
    (input : Input) : Recorded app (m.recordMatch app comboIdx step input) := by
  have hother : ∀ j, j ≠ comboIdx →
      (m.recordMatch app comboIdx step input).combo app j = m.combo app j :=
    fun j hj => combo_recordMatch step input fun h => hj h.2
  by_cases hsuppress : step.suppress = true
  · have hregistry : (m.recordMatch app comboIdx step input).suppressionRegistry_ =
        m.suppressionRegistry_.add (withheldKey input comboIdx) := by
      rw [recordMatch_suppressionRegistry_, if_pos hsuppress]
    constructor
    · rw [hregistry]
      exact SuppressionRegistry.keyed_add hrecorded.keyed _
    · intro j code
      rw [hregistry, SuppressionRegistry.filter_withheld_add, List.map_append,
        hrecorded.events j code]
      by_cases hj : j = comboIdx
      · subst hj
        rw [combo_recordMatch_self, if_pos hsuppress, List.filter_append]
        by_cases hcode : code = input.ev.code
        · simp [withheldKey, WithheldKey.event, hcode]
        · simp [withheldKey, hcode, Ne.symm hcode]
      · rw [hother j hj]
        simp [withheldKey, hj]
  · refine hrecorded.congr ?_ fun j => ?_
    · rw [recordMatch_suppressionRegistry_, if_neg hsuppress]
    · by_cases hj : j = comboIdx
      · subst hj
        rw [combo_recordMatch_self, if_neg hsuppress, List.append_nil]
      · rw [hother j hj]

theorem Recorded.comboTurn (input : Input) {acc : InputMapper × Bool} (row : KeyAction × ℕ)
    (hrecorded : Recorded app acc.1) : Recorded app (comboTurn app input acc row).1 :=
  comboTurn_keeps (I := Recorded app) app input row
    (fun h => h.congr rfl fun _ => congrArg ComboState.suppressedEvents touchCombo_combo)
    (fun h => h.released (released_breakCombo _ _ _))
    (fun step h => h.recordMatch step input)
    (fun h => h.released (released_completeCombo _ _ _ row.1)) hrecorded

/-- Nothing is withheld and no combo of the active application has recorded
anything. -/
structure NothingWithheld (m : InputMapper) : Prop where
  registry : m.suppressionRegistry_.IsEmpty
  combos : ∀ comboIdx, (m.combo m.activeApp_ comboIdx).suppressedEvents = []

theorem Recorded.of_isEmpty (hempty : m.suppressionRegistry_.IsEmpty)
    (hcombos : ∀ comboIdx, (m.combo app comboIdx).suppressedEvents = []) : Recorded app m := by
  constructor
  · intro code wk hwk
    rw [hempty code] at hwk
    exact absurd hwk List.not_mem_nil
  · intro comboIdx code
    rw [hempty code, hcombos comboIdx]
    rfl

theorem combo_releaseAllPressedKeys (app : AppType) (j : ℕ) :
    m.releaseAllPressedKeys.combo app j = (m.combo app j).reset := by
  obtain ⟨events, heq⟩ := releaseAllPressedKeys_eq_write m
  rw [heq]
  exact combo_foldl_released released_dropCombo app j

theorem recorded_releaseAllPressedKeys (howned : Owned app m) (app' : AppType) :
    Recorded app' m.releaseAllPressedKeys := by
  refine Recorded.of_isEmpty (isEmpty_releaseAllPressedKeys howned) fun j => ?_
  rw [combo_releaseAllPressedKeys]
  rfl

/-- The combos of the active application own and have recorded what is withheld. -/
structure InStep (m : InputMapper) : Prop where
  owned : Owned m.activeApp_ m
  recorded : Recorded m.activeApp_ m

theorem NothingWithheld.inStep (hnothing : NothingWithheld m) : InStep m :=
  ⟨Owned.of_isEmpty hnothing.registry, Recorded.of_isEmpty hnothing.registry hnothing.combos⟩

theorem SameMatching.inStep (hsame : SameMatching m m') (hstep : InStep m) : InStep m' := by
  refine ⟨hsame.owned hstep.owned, ?_⟩
  rw [hsame.activeApp_]
  exact hstep.recorded.congr hsame.suppressionRegistry_ fun j =>
    congrArg ComboState.suppressedEvents (hsame.combo m.activeApp_ j)

theorem InStep.setNumLockState (active allReleased : Bool) (hstep : InStep m) :
    InStep (m.setNumLockState active allReleased) := by
  refine ⟨owned_setNumLockState active allReleased hstep.owned, ?_⟩
  unfold InputMapper.setNumLockState
  split
  · exact hstep.recorded
  · refine recorded_releaseAllPressedKeys (?_ : Owned m.activeApp_ _) _
    unfold ungrabDevices grabDevices
    dsimp only
    split_ifs <;> exact hstep.owned.congr rfl fun _ => rfl

theorem InStep.write (events : List InputEvent) (hstep : InStep m) :
    InStep (m.write events) :=
  ⟨hstep.owned.write events, hstep.recorded.congr rfl fun _ => rfl⟩

theorem InStep.stageContext (input : Input) (hstep : InStep m) :
    InStep (m.stageContext input) := by
  rcases stageContext_cases (m := m) input with hsame | ⟨_, _, _, htracked, heq⟩
  · exact hsame.inStep hstep
  · rw [heq]
    exact (htracked.inStep hstep).setNumLockState _ _

theorem InStep.upToMacros (input : Input) (skipMacros : Bool) (hstep : InStep m) :
    InStep (m.upToMacros input skipMacros).1 :=
  upToMacros_keeps SameMatching.inStep (fun events h => h.write events) input skipMacros
    (hstep.stageContext input)

theorem Recorded.matchAndEmit (input : Input) (skipMacros : Bool)
    (hrecorded : Recorded m.activeApp_ m) :
    Recorded m.activeApp_ (m.matchAndEmit input skipMacros) :=
  matchAndEmit_keeps (I := Recorded m.activeApp_) (fun row h => h.comboTurn input row)
    (fun _ h => h.congr rfl fun _ => rfl) skipMacros hrecorded

theorem InStep.matchAndEmit (input : Input) (skipMacros : Bool) (hstep : InStep m) :
    InStep (m.matchAndEmit input skipMacros) := by
  have happ := (sameSettings_matchAndEmit (m := m) input skipMacros).activeApp_
  constructor
  · rw [happ]
    exact hstep.owned.matchAndEmit input skipMacros
  · rw [happ]
    exact hstep.recorded.matchAndEmit input skipMacros

theorem InStep.processEvent (input : Input) (skipMacros : Bool) (hstep : InStep m) :
    InStep (m.processEvent input skipMacros) := by
  have hreached := hstep.upToMacros input skipMacros
  rw [processEvent_eq_matchReached]
  unfold matchReached
  split
  · exact hreached.matchAndEmit _ false
  · exact hreached

/-! ## Replays -/

/-- A combo of an application that times out or is broken in its turn at an event,
and the mapper before and after the turn. -/
structure Replay where
  app : AppType
  comboIdx : ℕ
  before : InputMapper
  after : InputMapper

def heldByOthers (m : InputMapper) (comboIdx code : ℕ) : Bool :=
  (m.suppressionRegistry_.withheld code).any fun wk => wk.owningComboIdx ≠ comboIdx

/-- What the combo withholds and no other combo holds back, in the order in which
it was withheld. -/
def Replay.events (r : Replay) : List InputEvent :=
  (r.before.combo r.app r.comboIdx).suppressedEvents.filter fun ev =>
    !r.before.heldByOthers r.comboIdx ev.code

/-- The events, each followed by a report. -/
def reported (events : List InputEvent) : List InputEvent :=
  events.flatMap fun ev => [ev, synReport]

/-- What the turn writes first is what the combo withholds, in order. -/
def Replay.InOrder (r : Replay) : Prop :=
  r.before.uinput ++ reported r.events <+: r.after.uinput

instance (r : Replay) : Decidable r.InOrder := inferInstanceAs (Decidable (_ <+: _))

def Replay.InCodeOrder (r : Replay) : Prop := Ascending InputEvent.code r.events

def turnReplays (app : AppType) (input : Input) (acc : InputMapper × Bool)
    (row : KeyAction × ℕ) : List Replay :=
  if (turnOf app input acc.1 row).releases then
    [⟨app, row.2, acc.1, (comboTurn app input acc row).1⟩]
  else []

def loopReplays (app : AppType) (input : Input) :
    InputMapper × Bool → List (KeyAction × ℕ) → List Replay
  | _, [] => []
  | acc, row :: rows =>
      turnReplays app input acc row ++ loopReplays app input (comboTurn app input acc row) rows

/-- The replays of `stageMacros` at an event. -/
def stageReplays (m : InputMapper) (input : Input) : List Replay :=
  match m.appMacros_ m.activeApp_ with
  | none => []
  | some macros => loopReplays m.activeApp_ input (m, false) macros.zipIdx

/-- The replays made while an event is processed. -/
def eventReplays (m : InputMapper) (input : Input) (skipMacros : Bool) : List Replay :=
  let reached := m.upToMacros input skipMacros
  match reached.2 with
  | some e => reached.1.stageReplays e
  | none => []

theorem reported_injective {events events' : List InputEvent}
    (heq : reported events = reported events') : events = events' := by
  induction events generalizing events' with
  | nil =>
      cases events' with
      | nil => rfl
      | cons ev events' => simp [reported] at heq
  | cons ev events ih =>
      cases events' with
      | nil => simp [reported] at heq
      | cons ev' events' =>
          obtain ⟨rfl, hrest⟩ : ev = ev' ∧ reported events = reported events' := by
            simpa [reported] using heq
          rw [ih hrest]

/-- The claimed events that a break emits. -/
def claimedEvents (m : InputMapper) (comboIdx : ℕ) : List InputEvent :=
  ((m.suppressionRegistry_.claim comboIdx).1.filter fun wk =>
    !(m.suppressionRegistry_.unclaimed comboIdx).isBlocked wk.code).map WithheldKey.event

theorem replayed_eq_reported (m : InputMapper) (comboIdx : ℕ) :
    m.replayed comboIdx = reported (m.claimedEvents comboIdx) := by
  unfold replayed replay reported claimedEvents
  rw [List.flatMap_map]

theorem ascending_claimedEvents (hrecorded : Recorded app m) (comboIdx : ℕ) :
    Ascending InputEvent.code (m.claimedEvents comboIdx) :=
  List.pairwise_map.mpr
    ((SuppressionRegistry.ascending_claim hrecorded.keyed comboIdx).sublist List.filter_sublist)

theorem heldByOthers_eq_isBlocked {code : ℕ} :
    m.heldByOthers comboIdx code =
      (m.suppressionRegistry_.unclaimed comboIdx).isBlocked code := by
  rw [SuppressionRegistry.isBlocked_unclaimed]
  unfold heldByOthers SuppressionRegistry.isOwnedBy
  simp

/-- Key by key a break emits what its combo withholds. -/
theorem sameByKey_claimedEvents (hrecorded : Recorded app m) (comboIdx : ℕ) :
    SameByKey InputEvent.code (m.claimedEvents comboIdx)
      ((m.combo app comboIdx).suppressedEvents.filter fun ev =>
        !m.heldByOthers comboIdx ev.code) := by
  intro code
  have hclaimed : (m.claimedEvents comboIdx).filter (fun ev => ev.code = code) =
      ((((m.suppressionRegistry_.claim comboIdx).1.filter fun wk => wk.code = code).filter fun wk =>
        !(m.suppressionRegistry_.unclaimed comboIdx).isBlocked wk.code).map WithheldKey.event) := by
    unfold claimedEvents
    rw [List.filter_map, List.filter_filter, List.filter_filter]
    congr 1
    exact List.filter_congr fun wk _ => Bool.and_comm _ _
  have hrecordedKey : ((m.combo app comboIdx).suppressedEvents.filter fun ev =>
        !m.heldByOthers comboIdx ev.code).filter (fun ev => ev.code = code) =
      (((m.combo app comboIdx).suppressedEvents.filter fun ev => ev.code = code).filter fun ev =>
        !m.heldByOthers comboIdx ev.code) := by
    rw [List.filter_filter, List.filter_filter]
    exact List.filter_congr fun ev _ => Bool.and_comm _ _
  rw [hclaimed, hrecordedKey, ← hrecorded.events comboIdx code]
  by_cases hheld : m.heldByOthers comboIdx code = true
  · -- the key stays blocked, so nothing of it comes out
    rw [List.filter_eq_nil_iff.mpr, List.filter_eq_nil_iff.mpr]
    · rfl
    · intro ev hev
      obtain ⟨wk, hwk, rfl⟩ := List.mem_map.mp hev
      have hcode := hrecorded.keyed code wk (List.mem_of_mem_filter hwk)
      simp [WithheldKey.event, hcode, hheld]
    · intro wk hwk
      have hcode : wk.code = code := by simpa using (List.mem_filter.mp hwk).2
      simp [hcode, ← heldByOthers_eq_isBlocked, hheld]
  · rw [heldByOthers_eq_isBlocked, Bool.not_eq_true,
      SuppressionRegistry.isBlocked_eq_false_iff] at hheld
    have howned : ∀ wk ∈ m.suppressionRegistry_.withheld code,
        SuppressionRegistry.isOwnedBy comboIdx wk = true := by
      rw [SuppressionRegistry.withheld_unclaimed] at hheld
      intro wk hwk
      simpa using List.filter_eq_nil_iff.mp hheld wk hwk
    have hfree : (m.suppressionRegistry_.unclaimed comboIdx).isBlocked code = false :=
      SuppressionRegistry.isBlocked_eq_false_iff.mpr hheld
    rw [SuppressionRegistry.filter_claim_of_unclaimed_eq_nil hrecorded.keyed hheld,
      List.filter_eq_self.mpr howned, List.filter_eq_self.mpr, List.filter_eq_self.mpr]
    · intro ev hev
      obtain ⟨wk, hwk, rfl⟩ := List.mem_map.mp hev
      have hcode : wk.event.code = code := hrecorded.keyed code wk hwk
      rw [hcode, heldByOthers_eq_isBlocked, hfree]
      rfl
    · intro wk hwk
      rw [hrecorded.keyed code wk hwk, hfree]
      rfl

/-! ## What is written, and when -/

theorem uinput_breakCombo :
    (m.breakCombo app comboIdx).uinput = m.uinput ++ (m.replayed comboIdx ++ [synReport]) := by
  rw [breakCombo_eq]
  rfl

theorem uinput_recordMatch (step : TriggerStep) (input : Input) :
    (m.recordMatch app comboIdx step input).uinput = m.uinput := by
  unfold recordMatch
  dsimp only
  split <;> rfl

theorem uinput_completeCombo (m : InputMapper) (app : AppType) (comboIdx : ℕ)
    (action : KeyAction) : m.uinput <+: (m.completeCombo app comboIdx action).uinput := by
  obtain ⟨events, pastes, heq⟩ := executeKeyAction_eq (m := m.unclaim comboIdx) action
  unfold completeCombo
  rw [heq]
  exact List.prefix_append _ _

theorem uinput_matchCombo (input : Input) (action : KeyAction) :
    m.uinput <+: (m.matchCombo app input action comboIdx).1.uinput := by
  rcases matchCombo_cases (m := m) app input action comboIdx with h | h | ⟨step, h | h⟩
  · rw [h, uinput_breakCombo]
    exact List.prefix_append _ _
  · rw [h]
  · rw [h, uinput_recordMatch]
  · rw [h]
    have hcomplete :=
      uinput_completeCombo (m.recordMatch app comboIdx step input) app comboIdx action
    rwa [uinput_recordMatch] at hcomplete

theorem uinput_comboTurn (input : Input) (acc : InputMapper × Bool) (row : KeyAction × ℕ) :
    acc.1.uinput <+: (comboTurn app input acc row).1.uinput :=
  comboTurn_keeps (I := fun m => acc.1.uinput <+: m.uinput) app input row
    (fun h => h)
    (fun h => by
      rw [uinput_breakCombo]
      exact h.trans (List.prefix_append _ _))
    (fun step h => by rwa [uinput_recordMatch])
    (fun h => h.trans (uinput_completeCombo _ app row.2 row.1)) (List.prefix_refl _)

theorem uinput_loop (app : AppType) (input : Input) (acc : InputMapper × Bool)
    (rows : List (KeyAction × ℕ)) :
    acc.1.uinput <+: (rows.foldl (comboTurn app input) acc).1.uinput := by
  induction rows generalizing acc with
  | nil => exact List.prefix_refl _
  | cons row rows ih => exact (uinput_comboTurn input acc row).trans (ih _)

theorem replayed_prefix_of_releases {input : Input} {acc : InputMapper × Bool}
    {row : KeyAction × ℕ} (hreleases : (turnOf app input acc.1 row).releases = true) :
    acc.1.uinput ++ acc.1.replayed row.2 <+: (comboTurn app input acc row).1.uinput := by
  have hbroken : acc.1.uinput ++ acc.1.replayed row.2 <+:
      ((acc.1.touchCombo app row.2).breakCombo app row.2).uinput := by
    rw [uinput_breakCombo, ← List.append_assoc]
    exact List.prefix_append _ _
  unfold turnOf at hreleases
  simp only [Bool.and_eq_true, Bool.or_eq_true, decide_eq_true_eq] at hreleases
  obtain ⟨htrigger, htimeout | hbreaks⟩ := hreleases
  · rw [comboTurn_fst htrigger]
    have hexpired : acc.1.expired app input row.2 =
        (acc.1.touchCombo app row.2).breakCombo app row.2 := by
      unfold expired expireCombo
      rw [touchCombo_combo, if_pos htimeout]
    rw [hexpired]
    exact hbroken.trans (uinput_matchCombo input row.1)
  · rw [comboTurn_fst htrigger, matchCombo_eq, if_pos hbreaks]
    -- a combo that is broken has not timed out
    have htimeout : ¬ timedOut (acc.1.combo app row.2) input.now = true := fun h => by
      rw [breaks_expired_of_timedOut h] at hbreaks
      exact absurd hbreaks (by decide)
    have hexpired : acc.1.expired app input row.2 = acc.1.touchCombo app row.2 := by
      unfold expired expireCombo
      rw [touchCombo_combo, if_neg htimeout]
    rw [hexpired]
    exact hbroken

/-- A replay is in order exactly when its combo withheld its events in ascending
order of code. -/
theorem inOrder_iff_of_releases {input : Input} {acc : InputMapper × Bool}
    {row : KeyAction × ℕ} (hrecorded : Recorded app acc.1)
    (hreleases : (turnOf app input acc.1 row).releases = true) :
    (⟨app, row.2, acc.1, (comboTurn app input acc row).1⟩ : Replay).InOrder ↔
      (⟨app, row.2, acc.1, (comboTurn app input acc row).1⟩ : Replay).InCodeOrder := by
  have hsame := sameByKey_claimedEvents hrecorded row.2
  have hwritten := replayed_prefix_of_releases hreleases
  rw [replayed_eq_reported] at hwritten
  unfold Replay.InOrder Replay.InCodeOrder Replay.events
  dsimp only
  rw [← hsame.eq_iff_ascending (ascending_claimedEvents hrecorded row.2)]
  constructor
  · intro hordered
    have hlength := hsame.length_eq
    have hwhole : acc.1.uinput ++ reported (acc.1.claimedEvents row.2) =
        acc.1.uinput ++ reported ((acc.1.combo app row.2).suppressedEvents.filter fun ev =>
          !acc.1.heldByOthers row.2 ev.code) := by
      refine (List.prefix_of_prefix_length_le hwritten hordered ?_).eq_of_length ?_
      · simp [reported, hlength]
      · simp [reported, hlength]
    exact reported_injective (List.append_cancel_left hwhole)
  · intro heq
    rw [← heq]
    exact hwritten

theorem forall_turnReplays_iff {input : Input} {acc : InputMapper × Bool} {row : KeyAction × ℕ}
    (hrecorded : Recorded app acc.1) :
    (∀ r ∈ turnReplays app input acc row, r.InOrder) ↔
      ∀ r ∈ turnReplays app input acc row, r.InCodeOrder := by
  unfold turnReplays
  split
  · rename_i hreleases
    simpa using inOrder_iff_of_releases hrecorded hreleases
  · simp

theorem forall_loopReplays_iff {input : Input} {acc : InputMapper × Bool}
    {rows : List (KeyAction × ℕ)} (hrecorded : Recorded app acc.1) :
    (∀ r ∈ loopReplays app input acc rows, r.InOrder) ↔
      ∀ r ∈ loopReplays app input acc rows, r.InCodeOrder := by
  induction rows generalizing acc with
  | nil => simp [loopReplays]
  | cons row rows ih =>
      rw [loopReplays, List.forall_mem_append, List.forall_mem_append,
        forall_turnReplays_iff hrecorded, ih (hrecorded.comboTurn input row)]

theorem forall_stageReplays_iff {input : Input} (hrecorded : Recorded m.activeApp_ m) :
    (∀ r ∈ m.stageReplays input, r.InOrder) ↔ ∀ r ∈ m.stageReplays input, r.InCodeOrder := by
  unfold stageReplays
  split
  · simp
  · exact forall_loopReplays_iff (show Recorded m.activeApp_ (m, false).1 from hrecorded)

theorem forall_eventReplays_iff {input : Input} {skipMacros : Bool} (hstep : InStep m) :
    (∀ r ∈ m.eventReplays input skipMacros, r.InOrder) ↔
      ∀ r ∈ m.eventReplays input skipMacros, r.InCodeOrder := by
  have hreached := (hstep.upToMacros input skipMacros).recorded
  unfold eventReplays
  dsimp only
  split
  · exact forall_stageReplays_iff hreached
  · simp

theorem combo_comboTurn_of_ne (input : Input) (acc : InputMapper × Bool)
    {row : KeyAction × ℕ} {j : ℕ} (hother : j ≠ row.2) :
    (comboTurn app input acc row).1.combo app j = acc.1.combo app j :=
  comboTurn_keeps (I := fun m => m.combo app j = acc.1.combo app j) app input row
    (fun h => touchCombo_combo.trans h)
    (fun {m} h => ((released_breakCombo m app row.2).others app j fun hj => hother hj.2).trans h)
    (fun step h => (combo_recordMatch step input fun hj => hother hj.2).trans h)
    (fun {m} h =>
      ((released_completeCombo m app row.2 row.1).others app j fun hj => hother hj.2).trans h)
    rfl

theorem app_of_mem_loopReplays {input : Input} {acc : InputMapper × Bool}
    {rows : List (KeyAction × ℕ)} : ∀ r ∈ loopReplays app input acc rows, r.app = app := by
  induction rows generalizing acc with
  | nil => simp [loopReplays]
  | cons row rows ih =>
      intro r hr
      rcases List.mem_append.mp hr with hturn | hrest
      · unfold turnReplays at hturn
        split at hturn
        · rw [List.mem_singleton.mp hturn]
        · exact absurd hturn List.not_mem_nil
      · exact ih r hrest

/-- A replay hands back what its combo had recorded before the event, and what it
writes is written in the loop. -/
theorem mem_loopReplays {input : Input} {acc : InputMapper × Bool}
    {rows : List (KeyAction × ℕ)} (hnodup : (rows.map Prod.snd).Nodup) :
    ∀ r ∈ loopReplays app input acc rows,
      r.comboIdx ∈ rows.map Prod.snd ∧
        r.before.combo r.app r.comboIdx = acc.1.combo r.app r.comboIdx ∧
        r.after.uinput <+: (rows.foldl (comboTurn app input) acc).1.uinput := by
  induction rows generalizing acc with
  | nil => simp [loopReplays]
  | cons row rows ih =>
      obtain ⟨hrow, hrest⟩ := List.nodup_cons.mp hnodup
      intro r hr
      rcases List.mem_append.mp hr with hturn | htail
      · unfold turnReplays at hturn
        split at hturn
        · obtain rfl := List.mem_singleton.mp hturn
          exact ⟨List.mem_cons_self, rfl, uinput_loop app input _ rows⟩
        · exact absurd hturn List.not_mem_nil
      · obtain ⟨hmem, hcombo, hwritten⟩ := ih hrest r htail
        have happ : r.app = app := app_of_mem_loopReplays r htail
        have hother : r.comboIdx ≠ row.2 := fun heq => hrow (heq ▸ hmem)
        refine ⟨List.mem_cons_of_mem _ hmem, ?_, hwritten⟩
        rw [hcombo, happ, combo_comboTurn_of_ne input acc hother]

theorem mem_stageReplays {input : Input} :
    ∀ r ∈ m.stageReplays input,
      r.before.combo r.app r.comboIdx = m.combo r.app r.comboIdx ∧
        r.after.uinput <+: (m.stageMacros input false).1.uinput := by
  unfold stageReplays
  split
  · simp
  · rename_i macros hmacros
    rw [stageMacros_fst hmacros]
    have hnodup : (macros.zipIdx.map Prod.snd).Nodup := by
      rw [List.zipIdx_map_snd]
      exact List.nodup_range'
    exact fun r hr => (mem_loopReplays hnodup r hr).2

/-! ## Runs -/

def processing (m : InputMapper) (arrival : Input × Bool) : Option InputMapper :=
  m.step (.processEvent arrival.1 arrival.2)

/-- While an event is processed, each combo that times out or breaks gives its
events back in the order in which it withheld them.  It had withheld them before
the event came, and the event itself is written, if it is, when all combos have
had their turns. -/
structure ReplaysInOrder (m : InputMapper) (arrival : Input × Bool) : Prop where
  inOrder : ∀ r ∈ m.eventReplays arrival.1 arrival.2, r.InOrder
  beforeEvent : ∀ ready e, m.upToMacros arrival.1 arrival.2 = (ready, some e) →
    (∀ r ∈ m.eventReplays arrival.1 arrival.2,
      r.before.combo r.app r.comboIdx = ready.combo r.app r.comboIdx ∧
        r.after.uinput <+: (ready.stageMacros e false).1.uinput) ∧
    ∃ own, own <+: [e.ev, synReport] ∧
      (m.processEvent arrival.1 arrival.2).uinput =
        (ready.stageMacros e false).1.uinput ++ own

/-- Each combo that times out or breaks withheld the events that no other combo
holds back in ascending order of key code. -/
def WithheldInCodeOrder (m : InputMapper) (arrival : Input × Bool) : Prop :=
  ∀ r ∈ m.eventReplays arrival.1 arrival.2, r.InCodeOrder

theorem replaysInOrder_iff {arrival : Input × Bool} (hstep : InStep m) :
    m.ReplaysInOrder arrival ↔ m.WithheldInCodeOrder arrival := by
  unfold WithheldInCodeOrder
  rw [← forall_eventReplays_iff hstep]
  refine ⟨fun h => h.inOrder, fun h => ⟨h, fun ready e hready => ⟨?_, ?_⟩⟩⟩
  · unfold eventReplays
    rw [hready]
    exact mem_stageReplays
  · obtain ⟨own, hown, heq⟩ := matchAndEmit_eq_write ready e false
    rw [processEvent_eq_matchReached, hready]
    exact ⟨own, hown, congrArg uinput heq⟩

theorem replaysInOrder_iff_withheldInCodeOrder {m : InputMapper} (arrivals : List (Input × Bool))
    (hnothing : NothingWithheld m) :
    AllSteps processing ReplaysInOrder m arrivals ↔
      AllSteps processing WithheldInCodeOrder m arrivals := by
  have hstart := hnothing.inStep
  clear hnothing
  induction arrivals generalizing m with
  | nil => exact Iff.rfl
  | cons arrival arrivals ih =>
      refine forall_congr' fun next => forall_congr' fun hnext => ?_
      obtain rfl := Option.some.inj hnext
      exact and_congr (replaysInOrder_iff hstart) (ih (hstart.processEvent arrival.1 arrival.2))

/-- A macro that withholds a press of B and a press of A and waits for a C. -/
def heldPair : KeyAction :=
  { trigger :=
      { events :=
          [keyStep 48 1 true false, keyStep KEY_A 1 true false, keyStep KEY_C 1 false false]
        hasSuppressedKeys := true }
    keySequence := []
    logMessage := "B, A, then C" }

def heldPairMapper : InputMapper :=
  { appMacros_ := fun app => if app = .CODE then some [heldPair] else none
    activeApp_ := .CODE }

theorem nothingWithheld_heldPairMapper : NothingWithheld heldPairMapper :=
  ⟨fun _ => rfl, fun _ => rfl⟩

theorem brokenPair_replaysInOrder_iff :
    AllSteps processing ReplaysInOrder heldPairMapper
        [(press 48 0, false), (press KEY_T 1, false)] ↔
      AllSteps processing WithheldInCodeOrder heldPairMapper
        [(press 48 0, false), (press KEY_T 1, false)] :=
  replaysInOrder_iff_withheldInCodeOrder _ nothingWithheld_heldPairMapper

/-- T breaks the combo when B and then A are withheld: A comes out before B. -/
theorem brokenPair_not_replaysInOrder :
    ¬ ∀ (m : InputMapper) (arrivals : List (Input × Bool)), NothingWithheld m →
      AllSteps processing ReplaysInOrder m arrivals := by
  intro hall
  have hsteps := hall heldPairMapper
    [(press 48 0, false), (press KEY_A 1, false), (press KEY_T 2, false)]
    nothingWithheld_heldPairMapper
  obtain ⟨-, hsecond⟩ := hsteps _ rfl
  obtain ⟨-, hthird⟩ := hsecond _ rfl
  have hlast := (hthird _ rfl).1.inOrder
  revert hlast
  decide +kernel

end InputMapper

end AutomateLinux
