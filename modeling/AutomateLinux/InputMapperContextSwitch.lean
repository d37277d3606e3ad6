import AutomateLinux.InputMapperSuppression
import AutomateLinux.ProvenanceLog

/-!
# Switching the application while events are processed

A change of the active application takes two critical sections: one sets the
application, the other releases all keys and resets the combos.  The macros of an
event are matched in a critical section of their own, for the application that
was read before it.  The registry names the owner of a withheld event by its
position among the macros of its application, so between the sections the combo
at the same position of the new application passes for the owner.
-/

namespace AutomateLinux

open TransitionSystem

namespace InputMapper

variable {m m' : InputMapper} {app : AppType} {comboIdx : ℕ}

/-! ## What the combos do to the registry -/

abbrev WithheldLog := ProvenanceLog AppType ℕ WithheldKey

abbrev RegistryAction := ProvenanceLog.Action AppType ℕ ℕ WithheldKey

/-- A break claims for its combo, looks each claimed key up and emits what it
finds unblocked. -/
def breakActions (m : InputMapper) (app : AppType) (comboIdx : ℕ) : List RegistryAction :=
  let claimed := (m.suppressionRegistry_.claim comboIdx).1
  .claim app comboIdx (claimed.filter fun wk =>
      !(m.suppressionRegistry_.unclaimed comboIdx).isBlocked wk.code) ::
    claimed.map fun wk => .consult app wk.code

def turnActions (app : AppType) (input : Input) (m : InputMapper) (row : KeyAction × ℕ) :
    List RegistryAction :=
  if row.1.trigger.events = [] then []
  else
    let expired := m.expired app input row.2
    (if timedOut (m.combo app row.2) input.now then m.breakActions app row.2 else []) ++
      if expired.breaks app input row.1 row.2 then expired.breakActions app row.2
      else
        match expired.matchedStep app input row.1 row.2 with
        | none => []
        | some step =>
            (if step.suppress then [.withhold app row.2 (withheldKey input row.2)] else []) ++
              if (expired.combo app row.2).nextKeyIndex + 1 = row.1.trigger.events.length then
                [.claim app row.2 []]
              else []

def loopActions (app : AppType) (input : Input) :
    InputMapper × Bool → List (KeyAction × ℕ) → List RegistryAction
  | _, [] => []
  | acc, row :: rows =>
      turnActions app input acc.1 row ++
        loopActions app input (comboTurn app input acc row) rows

/-- A key event that no combo has withheld is dropped if its key is blocked. -/
def stageActions (m : InputMapper) (input : Input) : List RegistryAction :=
  match m.appMacros_ m.activeApp_ with
  | none => []
  | some macros =>
      loopActions m.activeApp_ input (m, false) macros.zipIdx ++
        if (macros.zipIdx.foldl (comboTurn m.activeApp_ input) (m, false)).2 = false ∧
            input.ev.type = EV_KEY then
          [.consult m.activeApp_ input.ev.code]
        else []

/-- A press of NumLock releases all keys in the first stage. -/
def contextActions (m : InputMapper) (input : Input) : List RegistryAction :=
  if input.ev.type = EV_KEY ∧ input.ev.code = KEY_NUMLOCK ∧ input.ev.value = 1 then
    [.reset m.storedCombos]
  else []

/-- Stages 3 and 4 of an event whose application has been read before. -/
def matchFor (m : InputMapper) (app : AppType) (input : Input) : InputMapper :=
  { ({ m with activeApp_ := app } : InputMapper).matchAndEmit input false with
    activeApp_ := m.activeApp_ }

/-! ## The log describes the registry -/

/-- Key by key the log has the registry's entries, in the same order. -/
structure Logs (log : WithheldLog) (m : InputMapper) : Prop where
  owner : ∀ entry ∈ log, entry.owner = entry.item.owningComboIdx
  withheld : ∀ code, m.suppressionRegistry_.withheld code =
    (log.filter fun entry => entry.item.code = code).map LogEntry.item

section

variable {log : WithheldLog}

theorem Logs.congr (hlogs : Logs log m)
    (hregistry : m'.suppressionRegistry_ = m.suppressionRegistry_) : Logs log m' :=
  ⟨hlogs.owner, fun code => by rw [hregistry, hlogs.withheld code]⟩

theorem Logs.mem_withheld (hlogs : Logs log m) {entry : LogEntry AppType ℕ WithheldKey}
    (hentry : entry ∈ log) :
    entry.item ∈ m.suppressionRegistry_.withheld entry.item.code := by
  rw [hlogs.withheld]
  exact List.mem_map_of_mem (List.mem_filter.mpr ⟨hentry, by simp⟩)

theorem Logs.eq_nil_of_isEmpty (hlogs : Logs log m)
    (hempty : m.suppressionRegistry_.IsEmpty) : log = [] := by
  rw [List.eq_nil_iff_forall_not_mem]
  intro entry hentry
  have hwithheld := hlogs.mem_withheld hentry
  rw [hempty] at hwithheld
  exact absurd hwithheld List.not_mem_nil

/-- Entries are removed from the log by owner as they are from the registry. -/
theorem Logs.filter_owner (hlogs : Logs log m) (m' : InputMapper) (p : ℕ → Bool)
    (hwithheld : ∀ code, m'.suppressionRegistry_.withheld code =
      (m.suppressionRegistry_.withheld code).filter fun wk => p wk.owningComboIdx) :
    Logs (log.filter fun entry => p entry.owner) m' := by
  constructor
  · exact fun entry hentry => hlogs.owner entry (List.mem_of_mem_filter hentry)
  · intro code
    rw [hwithheld, hlogs.withheld, List.filter_map, List.filter_filter, List.filter_filter]
    congr 1
    refine List.filter_congr fun entry hentry => ?_
    simp only [Function.comp, hlogs.owner entry hentry]
    exact Bool.and_comm _ _

theorem Logs.released (hlogs : Logs log m) (hreleased : Released m app comboIdx m')
    (principal : AppType) (emitted : List WithheldKey) :
    Logs (log.apply (.claim principal comboIdx emitted : RegistryAction)) m' := by
  refine hlogs.filter_owner m' (fun owner => owner ≠ comboIdx) fun code => ?_
  rw [hreleased.registry, SuppressionRegistry.withheld_unclaimed]
  refine List.filter_congr fun wk _ => ?_
  simp [SuppressionRegistry.isOwnedBy]

theorem foldl_breakActions (m : InputMapper) (app : AppType) (comboIdx : ℕ)
    (log : WithheldLog) :
    (m.breakActions app comboIdx).foldl ProvenanceLog.apply log =
      log.apply (.claim app comboIdx [] : RegistryAction) := by
  have hconsult : ∀ (codes : List WithheldKey) (log : WithheldLog),
      (codes.map fun wk => (.consult app wk.code : RegistryAction)).foldl
        ProvenanceLog.apply log = log := by
    intro codes
    induction codes with
    | nil => exact fun _ => rfl
    | cons wk codes ih => exact fun log => ih log
  unfold breakActions
  dsimp only
  rw [List.foldl_cons, hconsult]
  rfl

theorem Logs.breakCombo (hlogs : Logs log m) (app : AppType) (comboIdx : ℕ) :
    Logs ((m.breakActions app comboIdx).foldl ProvenanceLog.apply log)
      (m.breakCombo app comboIdx) := by
  rw [foldl_breakActions]
  exact hlogs.released (released_breakCombo m app comboIdx) app []

theorem Logs.recordMatch (hlogs : Logs log m) (app : AppType) (comboIdx : ℕ)
    (step : TriggerStep) (input : Input) :
    Logs
      ((if step.suppress then
          [(.withhold app comboIdx (withheldKey input comboIdx) : RegistryAction)]
        else []).foldl ProvenanceLog.apply log)
      (m.recordMatch app comboIdx step input) := by
  by_cases hsuppress : step.suppress = true
  · rw [if_pos hsuppress]
    have happly : [(.withhold app comboIdx (withheldKey input comboIdx) :
        RegistryAction)].foldl ProvenanceLog.apply log =
          log ++ [⟨app, comboIdx, withheldKey input comboIdx⟩] := rfl
    rw [happly]
    constructor
    · intro entry hentry
      rcases List.mem_append.mp hentry with hold | hnew
      · exact hlogs.owner entry hold
      · rw [List.mem_singleton.mp hnew]
        rfl
    · intro code
      rw [recordMatch_suppressionRegistry_, if_pos hsuppress, SuppressionRegistry.withheld_add,
        List.filter_append, List.map_append, ← hlogs.withheld]
      by_cases hcode : code = (withheldKey input comboIdx).code
      · simp [hcode]
      · simp [hcode, Ne.symm hcode]
  · rw [if_neg hsuppress]
    exact hlogs.congr (by rw [recordMatch_suppressionRegistry_, if_neg hsuppress])

theorem Logs.expired (hlogs : Logs log m) (app : AppType) (input : Input) (comboIdx : ℕ) :
    Logs
      ((if timedOut (m.combo app comboIdx) input.now then m.breakActions app comboIdx
        else []).foldl ProvenanceLog.apply log)
      (m.expired app input comboIdx) := by
  have htouched : Logs log (m.touchCombo app comboIdx) := hlogs.congr rfl
  unfold InputMapper.expired expireCombo
  rw [touchCombo_combo]
  split
  · exact htouched.breakCombo app comboIdx
  · exact htouched

theorem Logs.comboTurn {acc : InputMapper × Bool} (hlogs : Logs log acc.1) (input : Input)
    (row : KeyAction × ℕ) :
    Logs ((turnActions app input acc.1 row).foldl ProvenanceLog.apply log)
      (comboTurn app input acc row).1 := by
  by_cases htrigger : row.1.trigger.events = []
  · unfold turnActions InputMapper.comboTurn
    rw [if_pos htrigger, if_pos htrigger]
    exact hlogs
  · have hexpired := hlogs.expired app input row.2
    unfold turnActions
    rw [if_neg htrigger, comboTurn_fst htrigger, matchCombo_eq]
    dsimp only
    rw [List.foldl_append]
    generalize (if timedOut (acc.1.combo app row.2) input.now then
      acc.1.breakActions app row.2 else []).foldl ProvenanceLog.apply log = log' at hexpired ⊢
    split
    · exact hexpired.breakCombo app row.2
    · rcases Option.eq_none_or_eq_some
          ((acc.1.expired app input row.2).matchedStep app input row.1 row.2) with
        hnone | ⟨step, hstep⟩
      · rw [hnone]
        exact hexpired
      · have hrecorded := hexpired.recordMatch app row.2 step input
        rw [hstep]
        dsimp only
        rw [List.foldl_append]
        unfold advanceCombo
        dsimp only
        rw [combo_recordMatch_self]
        by_cases hcomplete : ((acc.1.expired app input row.2).combo app row.2).nextKeyIndex + 1 =
            row.1.trigger.events.length
        · rw [if_pos hcomplete, if_pos hcomplete]
          exact hrecorded.released (released_completeCombo _ app row.2 row.1) app []
        · rw [if_neg hcomplete, if_neg hcomplete]
          exact hrecorded

theorem Logs.loop {acc : InputMapper × Bool} (hlogs : Logs log acc.1) (app : AppType)
    (input : Input) (rows : List (KeyAction × ℕ)) :
    Logs ((loopActions app input acc rows).foldl ProvenanceLog.apply log)
      (rows.foldl (InputMapper.comboTurn app input) acc).1 := by
  induction rows generalizing acc log with
  | nil => exact hlogs
  | cons row rows ih =>
      rw [loopActions, List.foldl_append]
      exact ih (hlogs.comboTurn input row)

theorem Logs.matchAndEmit (hlogs : Logs log m) (input : Input) :
    Logs ((m.stageActions input).foldl ProvenanceLog.apply log)
      (m.matchAndEmit input false) := by
  obtain ⟨own, -, heq⟩ := matchAndEmit_eq_write m input false
  rw [heq]
  refine Logs.congr (m := (m.stageMacros input false).1) ?_ rfl
  unfold stageActions
  cases hmacros : m.appMacros_ m.activeApp_ with
  | none =>
      unfold stageMacros
      rw [if_neg (by decide), hmacros]
      exact hlogs
  | some macros =>
      have hstart : Logs log (m, false).1 := hlogs
      have hloop := hstart.loop m.activeApp_ input macros.zipIdx
      rw [stageMacros_fst hmacros]
      dsimp only
      rw [List.foldl_append]
      split
      · exact hloop
      · exact hloop

theorem Logs.matchFor (hlogs : Logs log m) (app : AppType) (input : Input) :
    Logs ((({ m with activeApp_ := app } : InputMapper).stageActions input).foldl
        ProvenanceLog.apply log)
      (m.matchFor app input) := by
  have hactive : Logs log { m with activeApp_ := app } := hlogs.congr rfl
  exact (hactive.matchAndEmit input).congr rfl

/-! ## Resets -/

theorem withheld_foldl_released {release : InputMapper → AppType × ℕ → InputMapper}
    (hrelease : ∀ m row, Released m row.1 row.2 (release m row)) (rows : List (AppType × ℕ))
    (m : InputMapper) (code : ℕ) :
    (rows.foldl release m).suppressionRegistry_.withheld code =
      (m.suppressionRegistry_.withheld code).filter fun wk =>
        wk.owningComboIdx ∉ rows.map Prod.snd := by
  induction rows generalizing m with
  | nil => simp
  | cons row rows ih =>
      rw [List.foldl_cons, ih, (hrelease m row).registry, SuppressionRegistry.withheld_unclaimed,
        List.filter_filter]
      refine List.filter_congr fun wk _ => ?_
      by_cases howner : wk.owningComboIdx = row.2 <;>
        simp [SuppressionRegistry.isOwnedBy, howner]

theorem Logs.releaseAllPressedKeys (hlogs : Logs log m) :
    Logs (log.apply (.reset m.storedCombos : RegistryAction)) m.releaseAllPressedKeys := by
  have hdropped := hlogs.filter_owner (m.storedCombos.foldl dropCombo m)
    (fun owner => owner ∉ m.storedCombos.map Prod.snd)
    (withheld_foldl_released released_dropCombo m.storedCombos m)
  obtain ⟨events, heq⟩ := releaseAllPressedKeys_eq_write m
  rw [heq]
  exact hdropped.congr rfl

theorem storedCombos_congr (hsame : m'.comboProgress_ = m.comboProgress_) :
    m'.storedCombos = m.storedCombos := by
  unfold storedCombos
  rw [hsame]

/-- A press of NumLock toggles it, which releases all keys; any other event leaves
the combos alone in the first stage. -/
theorem stageContext_press_or_sameMatching (m : InputMapper) (input : Input) :
    (∃ tracked : InputMapper, tracked.comboProgress_ = m.comboProgress_ ∧
        tracked.suppressionRegistry_ = m.suppressionRegistry_ ∧
        tracked.activeApp_ = m.activeApp_ ∧
        m.contextActions input = [.reset tracked.storedCombos] ∧
        m.stageContext input = tracked.releaseAllPressedKeys) ∨
      m.contextActions input = [] ∧ SameMatching m (m.stageContext input) := by
  by_cases hkey : input.ev.type = EV_KEY
  · by_cases hpress : input.ev.code = KEY_NUMLOCK ∧ input.ev.value = 1
    · have htracked : SameMatching m ((m.escapeKeys input).trackKey input.ev) :=
        (sameMatching_escapeKeys input).trans (sameMatching_trackKey input.ev)
      obtain ⟨toggled, hprogress, hregistry, happ, heq⟩ : ∃ toggled : InputMapper,
          toggled.comboProgress_ = m.comboProgress_ ∧
          toggled.suppressionRegistry_ = m.suppressionRegistry_ ∧
          toggled.activeApp_ = m.activeApp_ ∧
          m.stageContext input = toggled.releaseAllPressedKeys := by
        unfold stageContext setNumLockState
        rw [if_pos hkey]
        dsimp only
        rw [if_pos hpress, if_neg (by simp)]
        refine ⟨_, ?_, ?_, ?_, rfl⟩
        · unfold ungrabDevices grabDevices
          split_ifs <;> exact htracked.comboProgress_
        · unfold ungrabDevices grabDevices
          split_ifs <;> exact htracked.suppressionRegistry_
        · unfold ungrabDevices grabDevices
          split_ifs <;> exact htracked.activeApp_
      refine Or.inl ⟨toggled, hprogress, hregistry, happ, ?_, heq⟩
      unfold contextActions
      rw [if_pos ⟨hkey, hpress.1, hpress.2⟩, storedCombos_congr hprogress]
    · refine Or.inr ⟨?_, sameMatching_stageContext_of_not_press hpress⟩
      unfold contextActions
      rw [if_neg fun h => hpress ⟨h.2.1, h.2.2⟩]
  · refine Or.inr ⟨?_, ?_⟩
    · unfold contextActions
      rw [if_neg fun h => hkey h.1]
    · unfold stageContext
      rw [if_neg hkey]
      exact SameMatching.refl

theorem Logs.upToMacros (hlogs : Logs log m) (input : Input) (skipMacros : Bool) :
    Logs ((m.contextActions input).foldl ProvenanceLog.apply log)
      (m.upToMacros input skipMacros).1 := by
  apply upToMacros_keeps (I := Logs ((m.contextActions input).foldl ProvenanceLog.apply log))
    (fun hsame h => h.congr hsame.suppressionRegistry_)
    (fun _ h => h.congr rfl)
  rcases stageContext_press_or_sameMatching m input with
    ⟨tracked, -, hregistry, -, hactions, heq⟩ | ⟨hactions, hsame⟩
  · rw [hactions, heq]
    exact (hlogs.congr hregistry).releaseAllPressedKeys
  · rw [hactions]
    exact hlogs.congr hsame.suppressionRegistry_

end

/-! ## Owners -/

theorem Owned.mem_storedCombos (howned : Owned app m) {code : ℕ} {wk : WithheldKey}
    (hwk : wk ∈ m.suppressionRegistry_.withheld code) :
    (app, wk.owningComboIdx) ∈ m.storedCombos := by
  by_contra hmem
  have hprogress := (howned code wk hwk).1
  rw [combo_of_not_mem_storedCombos hmem] at hprogress
  exact absurd hprogress (lt_irrefl 0)

theorem Owned.releaseAllPressedKeys (howned : Owned app m) (app' : AppType) :
    Owned app' m.releaseAllPressedKeys :=
  Owned.of_isEmpty (isEmpty_releaseAllPressedKeys howned)

theorem Owned.upToMacros (howned : Owned app m) (input : Input) (skipMacros : Bool) :
    Owned app (m.upToMacros input skipMacros).1 := by
  apply upToMacros_keeps (I := Owned app)
    (fun hsame h => h.congr hsame.suppressionRegistry_ fun j => hsame.combo app j)
    (fun events h => h.write events)
  rcases stageContext_press_or_sameMatching m input with
    ⟨tracked, hprogress, hregistry, -, -, heq⟩ | ⟨-, hsame⟩
  · rw [heq]
    refine (howned.congr hregistry fun j => ?_).releaseAllPressedKeys app
    unfold combo
    rw [hprogress]
  · exact howned.congr hsame.suppressionRegistry_ fun j => hsame.combo app j

theorem Owned.matchFor (howned : Owned app m) (input : Input) :
    Owned app (m.matchFor app input) := by
  have hactive : Owned app { m with activeApp_ := app } := howned.congr rfl fun _ => rfl
  have hmatched := Owned.matchAndEmit (m := { m with activeApp_ := app }) input false hactive
  exact hmatched.congr rfl fun _ => rfl

theorem activeApp_releaseAllPressedKeys : m.releaseAllPressedKeys.activeApp_ = m.activeApp_ := by
  have hdropped : ∀ (rows : List (AppType × ℕ)) (m : InputMapper),
      (rows.foldl dropCombo m).activeApp_ = m.activeApp_ := by
    intro rows
    induction rows with
    | nil => exact fun _ => rfl
    | cons row rows ih => exact fun m => ih (m.dropCombo row)
  obtain ⟨events, heq⟩ := releaseAllPressedKeys_eq_write m
  rw [heq]
  exact hdropped m.storedCombos m

/-- The first two stages keep the application, and withhold nothing. -/
theorem upToMacros_settled (howned : Owned app m) (input : Input) (skipMacros : Bool) :
    (m.upToMacros input skipMacros).1.activeApp_ = m.activeApp_ ∧
      (m.suppressionRegistry_.IsEmpty →
        (m.upToMacros input skipMacros).1.suppressionRegistry_.IsEmpty) := by
  apply upToMacros_keeps (I := fun m' => m'.activeApp_ = m.activeApp_ ∧
      (m.suppressionRegistry_.IsEmpty → m'.suppressionRegistry_.IsEmpty))
    (fun hsame h => ⟨hsame.activeApp_.trans h.1, fun hempty => by
      rw [hsame.suppressionRegistry_]
      exact h.2 hempty⟩)
    (fun _ h => h)
  rcases stageContext_press_or_sameMatching m input with
    ⟨tracked, hprogress, hregistry, happ, -, heq⟩ | ⟨-, hsame⟩
  · rw [heq, activeApp_releaseAllPressedKeys]
    have htracked : Owned app tracked := howned.congr hregistry fun j => by
      unfold combo
      rw [hprogress]
    exact ⟨happ, fun _ => isEmpty_releaseAllPressedKeys htracked⟩
  · rw [hsame.activeApp_, hsame.suppressionRegistry_]
    exact ⟨rfl, id⟩

/-! ## Whose actions they are -/

theorem isBy_breakActions (m : InputMapper) (app : AppType) (comboIdx : ℕ) :
    ∀ action ∈ m.breakActions app comboIdx, action.IsBy app := by
  intro action haction
  rcases List.mem_cons.mp haction with rfl | hconsult
  · rfl
  · obtain ⟨wk, -, rfl⟩ := List.mem_map.mp hconsult
    rfl

theorem isBy_turnActions (input : Input) (m : InputMapper) (row : KeyAction × ℕ) :
    ∀ action ∈ turnActions app input m row, action.IsBy app := by
  intro action haction
  unfold turnActions at haction
  split at haction
  · exact absurd haction List.not_mem_nil
  · rcases List.mem_append.mp haction with hexpired | hmatched
    · split at hexpired
      · exact isBy_breakActions _ _ _ action hexpired
      · exact absurd hexpired List.not_mem_nil
    · split at hmatched
      · exact isBy_breakActions _ _ _ action hmatched
      · split at hmatched
        · exact absurd hmatched List.not_mem_nil
        · rcases List.mem_append.mp hmatched with hwithheld | hcompleted
          · split at hwithheld
            · rw [List.mem_singleton.mp hwithheld]
              rfl
            · exact absurd hwithheld List.not_mem_nil
          · split at hcompleted
            · rw [List.mem_singleton.mp hcompleted]
              rfl
            · exact absurd hcompleted List.not_mem_nil

theorem isBy_loopActions (input : Input) (acc : InputMapper × Bool)
    (rows : List (KeyAction × ℕ)) :
    ∀ action ∈ loopActions app input acc rows, action.IsBy app := by
  induction rows generalizing acc with
  | nil => exact fun action haction => absurd haction List.not_mem_nil
  | cons row rows ih =>
      intro action haction
      rcases List.mem_append.mp haction with hturn | hrest
      · exact isBy_turnActions input acc.1 row action hturn
      · exact ih _ action hrest

theorem isBy_stageActions (m : InputMapper) (input : Input) :
    ∀ action ∈ m.stageActions input, action.IsBy m.activeApp_ := by
  intro action haction
  unfold stageActions at haction
  split at haction
  · exact absurd haction List.not_mem_nil
  · rcases List.mem_append.mp haction with hloop | hblocked
    · exact isBy_loopActions input _ _ action hloop
    · split at hblocked
      · rw [List.mem_singleton.mp hblocked]
        rfl
      · exact absurd hblocked List.not_mem_nil

end InputMapper

/-! ## The sections and their runs -/

/-- The mapper, the calls of `setContext` that are between their sections and the
event whose application has been read and whose macros have not been matched.
`lastApp` is the application of the last event matched and `log` says for which
application each event in the registry was withheld. -/
structure ContextSwitch where
  mapper : InputMapper
  releasing : ℕ := 0
  reading : Option (Input × AppType) := none
  lastApp : AppType := .OTHER
  log : InputMapper.WithheldLog := []

namespace ContextSwitch

inductive Section
  | changeContext (appType : AppType) (url title : String)
  | releaseKeys
  | beginEvent (input : Input) (skipMacros : Bool)
  | matchEvent

def actions (s : ContextSwitch) : Section → List InputMapper.RegistryAction
  | .changeContext _ _ _ => []
  | .releaseKeys => [.reset s.mapper.storedCombos]
  | .beginEvent input _ => s.mapper.contextActions input
  | .matchEvent =>
      match s.reading with
      | some (e, app) => ({ s.mapper with activeApp_ := app } : InputMapper).stageActions e
      | none => []

def next (s : ContextSwitch) : Section → Option ContextSwitch
  | .changeContext appType url title =>
      if s.mapper.activeApp_ = appType ∧ s.mapper.activeUrl_ = url ∧
          s.mapper.activeTitle_ = title then
        some s
      else
        some
          { s with
            mapper :=
              { s.mapper with activeApp_ := appType, activeUrl_ := url, activeTitle_ := title }
            releasing := s.releasing + 1 }
  | .releaseKeys =>
      if 0 < s.releasing then
        some
          { s with
            mapper := s.mapper.releaseAllPressedKeys
            releasing := s.releasing - 1 }
      else none
  | .beginEvent input skipMacros =>
      if s.reading = none then
        let reached := s.mapper.upToMacros input skipMacros
        some
          { s with
            mapper := reached.1
            reading := reached.2.map fun e => (e, reached.1.activeApp_) }
      else none
  | .matchEvent =>
      s.reading.map fun event =>
        { s with
          mapper := s.mapper.matchFor event.2 event.1
          reading := none
          lastApp := event.2 }

def step (s : ContextSwitch) (label : Section) : Option ContextSwitch :=
  (s.next label).map fun next =>
    { next with log := (s.actions label).foldl ProvenanceLog.apply s.log }

/-- Nothing that was withheld by a combo of one application is emitted, claimed or
used to block a key for another application. -/
def LeakFree (s : ContextSwitch) (label : Section) : Prop :=
  AllSteps ProvenanceLog.step (ProvenanceLog.LeakFree WithheldKey.code) s.log (s.actions label)

instance (s : ContextSwitch) (label : Section) : Decidable (s.LeakFree label) :=
  inferInstanceAs (Decidable (AllSteps _ _ _ _))

/-- When macros are matched, nothing is withheld or the last event was matched
for the same application. -/
def Unmixed (s : ContextSwitch) : Section → Prop
  | .matchEvent => ∀ event ∈ s.reading,
      s.mapper.suppressionRegistry_.IsEmpty ∨ s.lastApp = event.2
  | _ => True

instance (s : ContextSwitch) : ∀ label, Decidable (s.Unmixed label)
  | .matchEvent => inferInstanceAs (Decidable (∀ event ∈ s.reading,
      s.mapper.suppressionRegistry_.IsEmpty ∨ s.lastApp = event.2))
  | .changeContext _ _ _ | .releaseKeys | .beginEvent _ _ => .isTrue trivial

section

variable {s s' : ContextSwitch} {label : Section}

/-- The log describes the registry, and everything in it was withheld for the
application of the last event, whose combos still own it. -/
structure Consistent (s : ContextSwitch) : Prop where
  logs : InputMapper.Logs s.log s.mapper
  allFrom : ProvenanceLog.AllFrom s.lastApp s.log
  owned : InputMapper.Owned s.lastApp s.mapper

theorem Consistent.of_isEmpty {m : InputMapper} (hempty : m.suppressionRegistry_.IsEmpty) :
    Consistent { mapper := m } where
  logs := ⟨fun _ hentry => absurd hentry List.not_mem_nil, fun code => hempty code⟩
  allFrom := fun _ hentry => absurd hentry List.not_mem_nil
  owned := InputMapper.Owned.of_isEmpty hempty

/-- What a release takes out belongs to combos that it resets. -/
theorem Consistent.leakFree_reset (hconsistent : Consistent s) :
    s.log.LeakFree WithheldKey.code (.reset s.mapper.storedCombos) := by
  intro entry hentry _
  rw [hconsistent.allFrom entry hentry, hconsistent.logs.owner entry hentry]
  exact hconsistent.owned.mem_storedCombos (hconsistent.logs.mem_withheld hentry)

/-- Where macros are matched for one application, all that is withheld was
withheld for it. -/
theorem Consistent.allFrom_reading (hconsistent : Consistent s) (hok : s.Unmixed .matchEvent)
    {e : Input} {app : AppType} (hreading : s.reading = some (e, app)) :
    ProvenanceLog.AllFrom app s.log ∧ InputMapper.Owned app s.mapper := by
  rcases hok (e, app) hreading with hempty | hsame
  · rw [hconsistent.logs.eq_nil_of_isEmpty hempty]
    exact ⟨fun _ hentry => absurd hentry List.not_mem_nil,
      InputMapper.Owned.of_isEmpty hempty⟩
  · obtain rfl : s.lastApp = app := hsame
    exact ⟨hconsistent.allFrom, hconsistent.owned⟩

theorem allSteps_singleton {action : InputMapper.RegistryAction}
    (hfree : s.log.LeakFree WithheldKey.code action) :
    AllSteps ProvenanceLog.step (ProvenanceLog.LeakFree WithheldKey.code) s.log [action] :=
  fun _ _ => ⟨hfree, trivial⟩

theorem Consistent.leakFree (hconsistent : Consistent s) (hok : s.Unmixed label) :
    s.LeakFree label := by
  unfold LeakFree
  cases label with
  | changeContext appType url title => exact trivial
  | releaseKeys => exact allSteps_singleton hconsistent.leakFree_reset
  | beginEvent input skipMacros =>
      show AllSteps _ _ _ (s.mapper.contextActions input)
      unfold InputMapper.contextActions
      split
      · exact allSteps_singleton hconsistent.leakFree_reset
      · exact trivial
  | matchEvent =>
      unfold actions
      cases hreading : s.reading with
      | none => exact trivial
      | some event =>
          obtain ⟨e, app⟩ := event
          exact ((hconsistent.allFrom_reading hok hreading).1.run WithheldKey.code
            (InputMapper.isBy_stageActions _ e)).1

theorem Consistent.step (hconsistent : Consistent s) (hok : s.Unmixed label)
    (hstep : s.step label = some s') : Consistent s' := by
  unfold ContextSwitch.step next at hstep
  cases label with
  | changeContext appType url title =>
      simp only at hstep
      split at hstep
      · obtain rfl := Option.some.inj hstep
        exact ⟨hconsistent.logs, hconsistent.allFrom, hconsistent.owned⟩
      · obtain rfl := Option.some.inj hstep
        exact ⟨hconsistent.logs.congr rfl, hconsistent.allFrom,
          hconsistent.owned.congr rfl fun _ => rfl⟩
  | releaseKeys =>
      simp only at hstep
      split at hstep
      · obtain rfl := Option.some.inj hstep
        exact ⟨hconsistent.logs.releaseAllPressedKeys, hconsistent.allFrom.filter _,
          hconsistent.owned.releaseAllPressedKeys _⟩
      · simp at hstep
  | beginEvent input skipMacros =>
      simp only at hstep
      split at hstep
      · obtain rfl := Option.some.inj hstep
        refine ⟨hconsistent.logs.upToMacros input skipMacros, ?_,
          hconsistent.owned.upToMacros input skipMacros⟩
        show ProvenanceLog.AllFrom _ ((s.mapper.contextActions input).foldl _ s.log)
        unfold InputMapper.contextActions
        split
        · exact hconsistent.allFrom.filter _
        · exact hconsistent.allFrom
      · simp at hstep
  | matchEvent =>
      cases hreading : s.reading with
      | none => simp [hreading] at hstep
      | some event =>
          obtain ⟨e, app⟩ := event
          obtain ⟨hfrom, howned⟩ := hconsistent.allFrom_reading hok hreading
          simp only [hreading, Option.map_some, actions] at hstep
          obtain rfl := Option.some.inj hstep
          exact ⟨hconsistent.logs.matchFor app e,
            (hfrom.run WithheldKey.code (InputMapper.isBy_stageActions _ e)).2,
            howned.matchFor e⟩

/-- In a run that matches macros only where nothing is withheld or the application
is still that of the last event, nothing leaks from one application to another. -/
theorem leakFree_of_unmixed {m : InputMapper} {labels : List Section}
    (hempty : m.suppressionRegistry_.IsEmpty)
    (hok : AllSteps step Unmixed { mapper := m } labels) :
    AllSteps step LeakFree { mapper := m } labels := by
  have hstart := Consistent.of_isEmpty hempty
  revert hok
  generalize ({ mapper := m } : ContextSwitch) = s at hstart
  induction labels generalizing s with
  | nil => exact fun _ => trivial
  | cons label labels ih =>
      intro hok next hnext
      obtain ⟨hlabel, hrest⟩ := hok next hnext
      exact ⟨hstart.leakFree hlabel, ih next (hstart.step hlabel hnext) hrest⟩

/-- CODE withholds A and waits for B, CHROME waits for C and then for B. -/
def twoApplications : InputMapper :=
  let waitsFor (step : TriggerStep) : List KeyAction :=
    [{ trigger := { events := [step, keyStep 48 1 false false], hasSuppressedKeys := step.suppress }
       keySequence := []
       logMessage := "" }]
  { appMacros_ := fun app =>
      match app with
      | .CODE => some (waitsFor (keyStep KEY_A 1 true false))
      | .CHROME => some (waitsFor (keyStep KEY_C 1 false false))
      | _ => none
    activeApp_ := .CODE }

def pressed (code now : ℕ) : List Section :=
  [.beginEvent ⟨⟨EV_KEY, code, 1⟩, now, true⟩ false, .matchEvent]

theorem switchedAtOnce_leakFree :
    AllSteps step LeakFree { mapper := twoApplications }
      (pressed KEY_A 0 ++ [.changeContext .CHROME "" "", .releaseKeys] ++ pressed KEY_C 1 ++
        pressed KEY_T 2) :=
  leakFree_of_unmixed (by decide +kernel) (by decide +kernel)

/-- C and T are pressed between the two sections: T breaks the combo of CHROME,
which emits the A that the combo of CODE has withheld. -/
theorem pressedBetweenSections_not_leakFree :
    ¬ ∀ (m : InputMapper) (labels : List Section), m.suppressionRegistry_.IsEmpty →
      AllSteps step LeakFree { mapper := m } labels := by
  intro hall
  have hleak := hall twoApplications
    (pressed KEY_A 0 ++ [.changeContext .CHROME "" ""] ++ pressed KEY_C 1 ++ pressed KEY_T 2 ++
      [.releaseKeys]) (by decide +kernel)
  revert hleak
  decide +kernel

/-! ## Events that no change of the application overlaps -/

/-- No call of `setContext` is between its sections and the application has not
changed since it was read when macros are matched. -/
def Separate (s : ContextSwitch) : Section → Prop
  | .matchEvent => s.releasing = 0 ∧ ∀ event ∈ s.reading, event.2 = s.mapper.activeApp_
  | _ => True

/-- Outside the calls of `setContext`, what is withheld was withheld for the active
application. -/
def Settled (s : ContextSwitch) : Prop :=
  s.releasing = 0 →
    s.mapper.suppressionRegistry_.IsEmpty ∨ s.lastApp = s.mapper.activeApp_

theorem Settled.unmixed (hsettled : Settled s) (hok : s.Separate label) : s.Unmixed label := by
  cases label with
  | matchEvent =>
      intro event hevent
      rw [hok.2 event hevent]
      exact hsettled hok.1
  | changeContext | releaseKeys | beginEvent => exact trivial

theorem Settled.step (hsettled : Settled s) (hconsistent : Consistent s)
    (hok : s.Separate label) (hstep : s.step label = some s') : Settled s' := by
  unfold ContextSwitch.step next at hstep
  cases label with
  | changeContext appType url title =>
      simp only at hstep
      split at hstep
      · obtain rfl := Option.some.inj hstep
        exact hsettled
      · obtain rfl := Option.some.inj hstep
        exact fun hzero => absurd hzero (Nat.succ_ne_zero _)
  | releaseKeys =>
      simp only at hstep
      split at hstep
      · obtain rfl := Option.some.inj hstep
        exact fun _ => Or.inl (InputMapper.isEmpty_releaseAllPressedKeys hconsistent.owned)
      · simp at hstep
  | beginEvent input skipMacros =>
      simp only at hstep
      split at hstep
      · obtain rfl := Option.some.inj hstep
        obtain ⟨happ, hempty⟩ :=
          InputMapper.upToMacros_settled hconsistent.owned input skipMacros
        intro hzero
        rcases hsettled hzero with hnothing | hsame
        · exact Or.inl (hempty hnothing)
        · exact Or.inr (hsame.trans happ.symm)
      · simp at hstep
  | matchEvent =>
      cases hreading : s.reading with
      | none => simp [hreading] at hstep
      | some event =>
          simp only [hreading, Option.map_some] at hstep
          obtain rfl := Option.some.inj hstep
          exact fun _ => Or.inr (hok.2 event hreading)

/-- The events of a run are matched like that if no call of `setContext` overlaps
one, so nothing would leak if the two sections were one. -/
theorem unmixed_of_separate {m : InputMapper} {labels : List Section}
    (hempty : m.suppressionRegistry_.IsEmpty)
    (hok : AllSteps step Separate { mapper := m } labels) :
    AllSteps step Unmixed { mapper := m } labels := by
  have hstart := Consistent.of_isEmpty hempty
  have hsettled : Settled { mapper := m } := fun _ => Or.inl hempty
  revert hok
  generalize ({ mapper := m } : ContextSwitch) = s at hstart hsettled
  induction labels generalizing s with
  | nil => exact fun _ => trivial
  | cons label labels ih =>
      intro hok next hnext
      obtain ⟨hlabel, hrest⟩ := hok next hnext
      have hunmixed := hsettled.unmixed hlabel
      exact ⟨hunmixed, ih next (hstart.step hunmixed hnext)
        (hsettled.step hstart hlabel hnext) hrest⟩

/-! ## The sections of the whole operations -/

theorem execute_setContext {appType : AppType} {url title : String}
    (hchange : ¬ (s.mapper.activeApp_ = appType ∧ s.mapper.activeUrl_ = url ∧
      s.mapper.activeTitle_ = title)) :
    (execute step s [.changeContext appType url title, .releaseKeys]).map mapper =
      some (s.mapper.setContext appType url title) := by
  unfold InputMapper.setContext
  rw [if_neg hchange]
  simp [execute, ContextSwitch.step, next, hchange]

theorem matchFor_activeApp_ (m : InputMapper) (e : Input) :
    m.matchFor m.activeApp_ e = m.matchAndEmit e false := by
  have happ := (InputMapper.sameSettings_matchAndEmit (m := m) e false).activeApp_
  show { m.matchAndEmit e false with activeApp_ := m.activeApp_ } = m.matchAndEmit e false
  rw [← happ]

/-- The sections of an event, undisturbed, process it. -/
theorem execute_processEvent (hidle : s.reading = none) (input : Input) (skipMacros : Bool) :
    ∃ labels, (labels = [.beginEvent input skipMacros] ∨
        labels = [.beginEvent input skipMacros, .matchEvent]) ∧
      (execute step s labels).map (fun after => (after.mapper, after.reading)) =
        some (s.mapper.processEvent input skipMacros, none) := by
  rw [InputMapper.processEvent_eq_matchReached]
  rcases hreached : s.mapper.upToMacros input skipMacros with ⟨ready, event⟩
  cases event with
  | none =>
      refine ⟨_, Or.inl rfl, ?_⟩
      simp [execute, ContextSwitch.step, next, hidle, hreached, InputMapper.matchReached]
  | some e =>
      refine ⟨_, Or.inr rfl, ?_⟩
      simp [execute, ContextSwitch.step, next, hidle, hreached, InputMapper.matchReached,
        matchFor_activeApp_]

end

end ContextSwitch

end AutomateLinux
