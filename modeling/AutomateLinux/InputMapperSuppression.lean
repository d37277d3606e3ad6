import AutomateLinux.InputMapperTurns
import AutomateLinux.TransitionSystem

/-!
# Who holds back a key

The registry says which events are withheld and the progress of the combos says
who withheld them; six operations change one or the other.  Every one of them
keeps the two in step, except that loading macros forgets the progress of all
combos and leaves the registry as it is.
-/

namespace AutomateLinux

open TransitionSystem

namespace InputMapper

variable {m m' : InputMapper} {app app' : AppType} {comboIdx : ℕ}

/-- The combo that a withheld event names is in progress and withheld it. -/
def Owns (m : InputMapper) (app : AppType) (wk : WithheldKey) : Prop :=
  0 < (m.combo app wk.owningComboIdx).nextKeyIndex ∧
    wk.event ∈ (m.combo app wk.owningComboIdx).suppressedEvents

/-- Combos of one application own everything that is withheld. -/
def Owned (app : AppType) (m : InputMapper) : Prop :=
  ∀ code, ∀ wk ∈ m.suppressionRegistry_.withheld code, m.Owns app wk

/-- No combo of an application is in progress. -/
def Idle (app : AppType) (m : InputMapper) : Prop :=
  ∀ comboIdx, (m.combo app comboIdx).nextKeyIndex = 0

instance (app : AppType) (m : InputMapper) : Decidable (Idle app m) :=
  decidable_of_iff (∀ row ∈ (m.comboProgress_ app).entries, row.2.nextKeyIndex = 0) (by
    unfold Idle combo
    constructor
    · intro hall comboIdx
      cases hget : (m.comboProgress_ app).get? comboIdx with
      | none => rfl
      | some state => exact hall (comboIdx, state) (OrderedMap.get?_eq_some_iff.mp hget)
    · rintro hidle ⟨comboIdx, state⟩ hrow
      have hzero := hidle comboIdx
      rw [OrderedMap.get?_eq_some_iff.mpr hrow] at hzero
      exact hzero)

/-- Every withheld event is owned by a combo of the active application, and
without a combo in progress no key is blocked. -/
def SuppressionOwned (m : InputMapper) : Prop :=
  Owned m.activeApp_ m ∧
    (Idle m.activeApp_ m → ∀ code, m.suppressionRegistry_.isBlocked code = false)

theorem Owned.isEmpty (howned : Owned app m) (hidle : Idle app m) :
    m.suppressionRegistry_.IsEmpty := by
  intro code
  rw [List.eq_nil_iff_forall_not_mem]
  intro wk hwk
  have hprogress := (howned code wk hwk).1
  rw [hidle] at hprogress
  exact absurd hprogress (lt_irrefl 0)

theorem Owned.of_isEmpty (hempty : m.suppressionRegistry_.IsEmpty) : Owned app m := by
  intro code wk hwk
  rw [hempty code] at hwk
  exact absurd hwk List.not_mem_nil

theorem Owned.suppressionOwned (howned : Owned m.activeApp_ m) : SuppressionOwned m :=
  ⟨howned, fun hidle code =>
    SuppressionRegistry.isBlocked_eq_false_iff.mpr (howned.isEmpty hidle code)⟩

theorem Owned.congr (howned : Owned app m)
    (hregistry : m'.suppressionRegistry_ = m.suppressionRegistry_)
    (hcombo : ∀ j, m'.combo app j = m.combo app j) : Owned app m' := by
  intro code wk hwk
  rw [hregistry] at hwk
  unfold Owns
  rw [hcombo]
  exact howned code wk hwk

theorem Owned.released (howned : Owned app m) (hreleased : Released m app' comboIdx m') :
    Owned app m' := by
  intro code wk hwk
  rw [hreleased.registry, SuppressionRegistry.mem_withheld_unclaimed] at hwk
  unfold Owns
  rw [hreleased.others app wk.owningComboIdx fun h => hwk.2 h.2]
  exact howned code wk hwk.1

theorem Owned.recordMatch (howned : Owned app m) (step : TriggerStep) (input : Input) :
    Owned app (m.recordMatch app comboIdx step input) := by
  have hkept : ∀ wk, m.Owns app wk → (m.recordMatch app comboIdx step input).Owns app wk := by
    intro wk howns
    unfold Owns
    by_cases howner : wk.owningComboIdx = comboIdx
    · subst howner
      rw [combo_recordMatch_self]
      exact ⟨Nat.succ_pos _, List.mem_append_left _ howns.2⟩
    · rw [combo_recordMatch step input fun h => howner h.2]
      exact howns
  intro code wk hwk
  rw [recordMatch_suppressionRegistry_] at hwk
  split at hwk
  · rename_i hsuppress
    rw [SuppressionRegistry.withheld_add] at hwk
    split at hwk
    · rcases List.mem_append.mp hwk with hold | hnew
      · exact hkept wk (howned _ wk hold)
      · obtain rfl := List.mem_singleton.mp hnew
        unfold Owns
        rw [show (withheldKey input comboIdx).owningComboIdx = comboIdx from rfl,
          combo_recordMatch_self, if_pos hsuppress]
        exact ⟨Nat.succ_pos _, List.mem_append_right _ (List.mem_singleton_self _)⟩
    · exact hkept wk (howned code wk hwk)
  · exact hkept wk (howned code wk hwk)

theorem Owned.comboTurn (input : Input) {acc : InputMapper × Bool} (row : KeyAction × ℕ)
    (howned : Owned app acc.1) : Owned app (comboTurn app input acc row).1 :=
  comboTurn_keeps (I := Owned app) app input row
    (fun h => h.congr rfl fun _ => touchCombo_combo)
    (fun h => h.released (released_breakCombo _ _ _))
    (fun step h => h.recordMatch step input)
    (fun h => h.released (released_completeCombo _ _ _ row.1)) howned

/-! ## Releasing every combo -/

theorem combo_of_not_mem_storedCombos {j : ℕ} (hmem : (app, j) ∉ m.storedCombos) :
    m.combo app j = {} := by
  have hnone : (m.comboProgress_ app).get? j = none := by
    rw [Option.eq_none_iff_forall_not_mem]
    intro state hstate
    apply hmem
    apply List.mem_flatMap.mpr
    have hkey := OrderedMap.mem_keys_iff.mpr ⟨state, hstate⟩
    exact ⟨app, app.mem_all, List.mem_map.mpr ⟨j, hkey, rfl⟩⟩
  unfold combo
  rw [hnone]
  rfl

theorem combo_foldl_released {release : InputMapper → AppType × ℕ → InputMapper}
    (hrelease : ∀ m row, Released m row.1 row.2 (release m row)) (app : AppType) (j : ℕ) :
    (m.storedCombos.foldl release m).combo app j = (m.combo app j).reset := by
  have hfold : ∀ (rows : List (AppType × ℕ)) (m : InputMapper),
      (rows.foldl release m).combo app j =
        if (app, j) ∈ rows then (m.combo app j).reset else m.combo app j := by
    intro rows
    induction rows with
    | nil => exact fun m => rfl
    | cons row rows ih =>
        intro m
        rw [List.foldl_cons, ih (release m row)]
        by_cases hrow : app = row.1 ∧ j = row.2
        · have hmem : (app, j) ∈ row :: rows := List.mem_cons.mpr (Or.inl (Prod.ext hrow.1 hrow.2))
          rw [if_pos hmem, hrow.1, hrow.2, (hrelease m row).reset]
          split <;> rfl
        · have hmem : (app, j) ∈ row :: rows ↔ (app, j) ∈ rows := by
            rw [List.mem_cons, or_iff_right]
            exact fun heq => hrow ⟨congrArg Prod.fst heq, congrArg Prod.snd heq⟩
          rw [(hrelease m row).others app j hrow]
          simp only [hmem]
  rw [hfold]
  split
  · rfl
  · rename_i hmem
    rw [combo_of_not_mem_storedCombos hmem]
    rfl

theorem idle_foldl_released {release : InputMapper → AppType × ℕ → InputMapper}
    (hrelease : ∀ m row, Released m row.1 row.2 (release m row)) (app : AppType) :
    Idle app (m.storedCombos.foldl release m) := by
  intro j
  rw [combo_foldl_released hrelease]
  rfl

theorem owned_foldl_released {release : InputMapper → AppType × ℕ → InputMapper}
    (hrelease : ∀ m row, Released m row.1 row.2 (release m row)) (howned : Owned app m)
    (rows : List (AppType × ℕ)) : Owned app (rows.foldl release m) := by
  induction rows generalizing m with
  | nil => exact howned
  | cons row rows ih => exact ih (howned.released (hrelease m row))

theorem released_dropCombo (m : InputMapper) (row : AppType × ℕ) :
    Released m row.1 row.2 (m.dropCombo row) :=
  released_resetCombo rfl fun _ _ => rfl

theorem released_flushCombo (m : InputMapper) (row : AppType × ℕ) :
    Released m row.1 row.2 (m.flushCombo row) := by
  unfold flushCombo
  dsimp only
  rw [foldl_emit]
  exact released_resetCombo rfl fun _ _ => rfl

theorem idle_releaseAllPressedKeys (app : AppType) : Idle app m.releaseAllPressedKeys := by
  obtain ⟨events, heq⟩ := releaseAllPressedKeys_eq_write m
  rw [heq]
  exact idle_foldl_released released_dropCombo app

theorem isEmpty_releaseAllPressedKeys (howned : Owned app m) :
    m.releaseAllPressedKeys.suppressionRegistry_.IsEmpty := by
  obtain ⟨events, heq⟩ := releaseAllPressedKeys_eq_write m
  rw [heq]
  exact (owned_foldl_released released_dropCombo howned _).isEmpty
    (idle_foldl_released released_dropCombo app)

theorem isEmpty_flushAndResetState (howned : Owned app m) :
    m.flushAndResetState.suppressionRegistry_.IsEmpty :=
  (owned_foldl_released released_flushCombo howned _).isEmpty
    (idle_foldl_released released_flushCombo app)

theorem owned_setNumLockState (active allReleased : Bool) (howned : Owned m.activeApp_ m) :
    Owned (m.setNumLockState active allReleased).activeApp_
      (m.setNumLockState active allReleased) := by
  unfold setNumLockState
  split
  · exact howned
  · refine Owned.of_isEmpty (isEmpty_releaseAllPressedKeys (?_ : Owned m.activeApp_ _))
    unfold ungrabDevices grabDevices
    dsimp only
    split_ifs <;> exact howned.congr rfl fun _ => rfl

theorem owned_setContext (appType : AppType) (url title : String)
    (howned : Owned m.activeApp_ m) :
    Owned (m.setContext appType url title).activeApp_ (m.setContext appType url title) := by
  unfold setContext
  split
  · exact howned
  · exact Owned.of_isEmpty (isEmpty_releaseAllPressedKeys (howned.congr rfl fun _ => rfl))

/-! ## The pipeline -/

theorem SameMatching.owned (hsame : SameMatching m m') (howned : Owned m.activeApp_ m) :
    Owned m'.activeApp_ m' := by
  rw [hsame.activeApp_]
  exact howned.congr hsame.suppressionRegistry_ fun j => hsame.combo m.activeApp_ j

theorem owned_stageContext (input : Input) (howned : Owned m.activeApp_ m) :
    Owned (m.stageContext input).activeApp_ (m.stageContext input) := by
  rcases stageContext_cases (m := m) input with hsame | ⟨_, _, _, htracked, heq⟩
  · exact hsame.owned howned
  · rw [heq]
    exact owned_setNumLockState _ _ (htracked.owned howned)

theorem Owned.write (events : List InputEvent) (howned : Owned app m) :
    Owned app (m.write events) :=
  howned.congr rfl fun _ => rfl

theorem Owned.matchAndEmit (input : Input) (skipMacros : Bool) (howned : Owned m.activeApp_ m) :
    Owned m.activeApp_ (m.matchAndEmit input skipMacros) :=
  matchAndEmit_keeps (I := Owned m.activeApp_) (fun row h => h.comboTurn input row)
    (fun events h => h.write events) skipMacros howned

theorem owned_processEvent (input : Input) (skipMacros : Bool)
    (howned : Owned m.activeApp_ m) :
    Owned (m.processEvent input skipMacros).activeApp_ (m.processEvent input skipMacros) := by
  have hreached : Owned (m.upToMacros input skipMacros).1.activeApp_
      (m.upToMacros input skipMacros).1 :=
    upToMacros_keeps (I := fun m => Owned m.activeApp_ m) SameMatching.owned
      (fun events h => h.write events) input skipMacros (owned_stageContext input howned)
  rw [processEvent_eq_matchReached]
  unfold matchReached
  split
  · rename_i e _
    rw [(sameSettings_matchAndEmit (m := (m.upToMacros input skipMacros).1) e false).activeApp_]
    exact hreached.matchAndEmit e false
  · exact hreached

/-! ## Runs -/

/-- A step that loads macros finds nothing withheld. -/
def LoadsUnblocked (m : InputMapper) : Operation → Prop
  | .setMacrosFromJson _ => m.suppressionRegistry_.IsEmpty
  | .loadPersistence (some _) => m.suppressionRegistry_.IsEmpty
  | _ => True

instance (m : InputMapper) (op : Operation) : Decidable (m.LoadsUnblocked op) := by
  unfold LoadsUnblocked
  split <;> infer_instance

theorem owned_step {op : Operation} (howned : Owned m.activeApp_ m)
    (hload : m.LoadsUnblocked op) (hstep : m.step op = some m') :
    Owned m'.activeApp_ m' := by
  cases op with
  | processEvent input skipMacros =>
      obtain rfl := Option.some.inj hstep
      exact owned_processEvent input skipMacros howned
  | flushAndResetState =>
      obtain rfl := Option.some.inj hstep
      exact Owned.of_isEmpty (isEmpty_flushAndResetState howned)
  | setContext appType url title =>
      obtain rfl := Option.some.inj hstep
      exact owned_setContext appType url title howned
  | setNumLockState active allReleased =>
      obtain rfl := Option.some.inj hstep
      exact owned_setNumLockState active allReleased howned
  | setMacrosFromJson j =>
      obtain rfl := Option.some.inj hstep
      exact Owned.of_isEmpty hload
  | loadPersistence savedMacros =>
      obtain rfl := Option.some.inj hstep
      cases savedMacros with
      | none => exact howned
      | some j => exact Owned.of_isEmpty hload
  | grabDevices allReleased =>
      obtain rfl := Option.some.inj hstep
      unfold grabDevices
      split <;> exact howned.congr rfl fun _ => rfl
  | paste =>
      simp only [step] at hstep
      split at hstep
      · obtain rfl := Option.some.inj hstep
        exact howned.congr rfl fun _ => rfl
      · simp at hstep
  | setupDevices pressed | ungrabDevices | emit ev | sync =>
      obtain rfl := Option.some.inj hstep
      exact howned.congr rfl fun _ => rfl

/-- Loading macros while an event is withheld leaves it without an owner. -/
theorem not_suppressionOwned_of_load {op : Operation} (hload : ¬ m.LoadsUnblocked op)
    (hstep : m.step op = some m') : ¬ SuppressionOwned m' := by
  have hforgets : ∀ (j : Json), ¬ m.suppressionRegistry_.IsEmpty →
      ¬ SuppressionOwned (m.setMacrosFromJsonInternal j).2 := fun j hwithheld hafter =>
    hwithheld (hafter.1.isEmpty fun _ => rfl)
  cases op with
  | setMacrosFromJson j =>
      obtain rfl := Option.some.inj hstep
      exact hforgets j hload
  | loadPersistence savedMacros =>
      obtain rfl := Option.some.inj hstep
      cases savedMacros with
      | none => exact absurd trivial hload
      | some j => exact hforgets j hload
  | processEvent | flushAndResetState | setContext | setNumLockState | setupDevices
  | grabDevices | ungrabDevices | emit | sync | paste => exact absurd trivial hload

/-- All along a run every withheld event has its owner exactly when each of the
run's macro loads finds nothing withheld. -/
theorem suppressionOwned_iff_loadsUnblocked (ops : List Operation) :
    AllStates step SuppressionOwned {} ops ↔ AllSteps step LoadsUnblocked {} ops :=
  allStates_iff_allSteps (I := fun m => Owned m.activeApp_ m)
    (fun howned => howned.suppressionOwned)
    (fun howned hload hstep => owned_step howned hload hstep)
    (fun _ hload hstep => not_suppressionOwned_of_load hload hstep)
    (Owned.of_isEmpty fun _ => rfl) ops

/-- A table whose only macro withholds A and waits for a second key. -/
def withholdingTable : Json :=
  .object [("code", .array [.object
    [("message", .string "A, then B"),
      ("trigger", .object [("keys", .array
        [.array [.number_unsigned KEY_A, .number_unsigned 1, .boolean true],
          .array [.number_unsigned 48, .number_unsigned 1]])]),
      ("sequence", .array [])]])]

/-- Macros are updated while A is withheld: its combo is forgotten, and the key
stays blocked with no combo in progress. -/
theorem updatedWhileWithheld_not_suppressionOwned :
    ¬ ∀ ops, AllStates step SuppressionOwned {} ops := by
  intro hall
  obtain ⟨final, hrun, hblocked, hidle⟩ :
      ∃ final, execute step {}
          [.setMacrosFromJson withholdingTable, .setContext .CODE "" "", .setupDevices [],
            .grabDevices true, .processEvent ⟨⟨EV_KEY, KEY_A, 1⟩, 0, true⟩ false,
            .setMacrosFromJson (.object [])] = some final ∧
        final.suppressionRegistry_.isBlocked KEY_A = true ∧
        Idle final.activeApp_ final :=
    ⟨_, rfl, by decide, fun _ => rfl⟩
  have hfree := ((hall _).last hrun).2 hidle KEY_A
  rw [hblocked] at hfree
  exact absurd hfree (by decide)

end InputMapper

end AutomateLinux
