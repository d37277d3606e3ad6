import AutomateLinux.InputMapperTurns
import AutomateLinux.TransitionSystem

/-!
# Held keys

The mapper keeps the set of keys that are held down and waits for it to be empty
before it grabs the devices.  Beside the mapper runs the history of the physical
keys since the set was last cleared.  The press that ends a G-key sequence adds
the code of the virtual key, which no physical key ever releases.
-/

namespace AutomateLinux

open TransitionSystem

namespace InputMapper

variable {m m' : InputMapper} {app : AppType} {comboIdx : ℕ} {input : Input}

/-! ## The history of the keys -/

/-- The values of the last events of the keys. -/
abbrev KeyHistory := List (ℕ × Int)

def KeyHistory.last? (history : KeyHistory) (code : ℕ) : Option Int :=
  ((history.filter fun event => event.1 = code).getLast?).map Prod.snd

theorem KeyHistory.last?_concat (history : KeyHistory) (event : ℕ × Int) (code : ℕ) :
    KeyHistory.last? (history ++ [event]) code =
      if event.1 = code then some event.2 else KeyHistory.last? history code := by
  unfold KeyHistory.last?
  rw [List.filter_append, List.filter_singleton]
  by_cases hcode : event.1 = code <;> simp [hcode]

theorem KeyHistory.exists_of_last? {history : KeyHistory} {code : ℕ} {value : Int}
    (hlast : KeyHistory.last? history code = some value) : (code, value) ∈ history := by
  unfold KeyHistory.last? at hlast
  rw [Option.map_eq_some_iff] at hlast
  obtain ⟨event, hevent, rfl⟩ := hlast
  obtain ⟨hmem, hcode⟩ := List.mem_filter.mp (List.mem_of_getLast? hevent)
  have hcode' : event.1 = code := of_decide_eq_true hcode
  rw [← hcode']
  exact hmem

/-- Number of key codes of the kernel. -/
def KEY_CNT : ℕ := 0x300

/-- The keys of an operation are physical ones. -/
def Physical : Operation → Prop
  | .processEvent input _ => input.ev.type = EV_KEY → input.ev.code < KEY_CNT
  | .setupDevices pressed => ∀ code ∈ pressed, code < KEY_CNT
  | _ => True

instance (op : Operation) : Decidable (Physical op) := by
  unfold Physical
  split <;> infer_instance

/-- The history after an operation; the set is cleared by NumLock and by changes of
context. -/
def nextHistory (m : InputMapper) (history : KeyHistory) : Operation → KeyHistory
  | .processEvent input _ =>
      if input.ev.type = EV_KEY then
        if input.ev.code = KEY_NUMLOCK ∧ input.ev.value = 1 then []
        else history ++ [(input.ev.code, input.ev.value)]
      else history
  | .setContext appType url title =>
      if m.activeApp_ = appType ∧ m.activeUrl_ = url ∧ m.activeTitle_ = title then history
      else []
  | .setNumLockState active _ => if m.numLockActive_ = active then history else []
  | .setupDevices pressed => history ++ pressed.map fun code => (code, 1)
  | _ => history

/-- A mapper and the history of its keys. -/
structure Tracked where
  mapper : InputMapper := {}
  history : KeyHistory := []

def trackedStep (s : Tracked) (op : Operation) : Option Tracked :=
  if Physical op then
    (s.mapper.step op).map fun next => ⟨next, s.mapper.nextHistory s.history op⟩
  else none

/-- Every code in the set is that of a physical key whose last event was no
release. -/
def Held (s : Tracked) : Prop :=
  ∀ code ∈ s.mapper.pressedKeys_.keys,
    ∃ value, s.history.last? code = some value ∧ value ≠ 0

/-- The keys held are tracked, and once all have been released a grab does not
wait in vain. -/
def HeldTracked (s : Tracked) : Prop :=
  Held s ∧
    ((∀ code value, s.history.last? code = some value → value = 0) →
      s.mapper.pressedKeys_.entries = [] ∧
        (s.mapper.grabDevices true).monitoringMode_ = false)

theorem Held.tracked {s : Tracked} (hheld : Held s) : HeldTracked s := by
  refine ⟨hheld, fun hreleased => ?_⟩
  have hempty : s.mapper.pressedKeys_.entries = [] := by
    rw [List.eq_nil_iff_forall_not_mem]
    intro entry hentry
    obtain ⟨value, hlast, hdown⟩ := hheld entry.1 (List.mem_map_of_mem hentry)
    exact hdown (hreleased entry.1 value hlast)
  constructor
  · exact hempty
  · unfold grabDevices
    rw [if_pos ⟨rfl, hempty⟩]

/-- A press that ends a G-key sequence while the devices are grabbed. -/
def PressesGKey (m : InputMapper) : Operation → Prop
  | .processEvent input skipMacros =>
      skipMacros = false ∧ (m.stageContext input).monitoringMode_ = false ∧
        ((m.stageContext input).detectGKey input.ev).1.isSome ∧ input.ev.value = 1
  | _ => False

instance (m : InputMapper) (op : Operation) : Decidable (m.PressesGKey op) := by
  unfold PressesGKey
  split <;> infer_instance

/-! ## What changes the set -/

theorem pressedKeys_stageMacros (m : InputMapper) (input : Input) (skipMacros : Bool) :
    (m.stageMacros input skipMacros).1.pressedKeys_ = m.pressedKeys_ := by
  apply stageMacros_keeps (I := fun m' => m'.pressedKeys_ = m.pressedKeys_) input skipMacros
  · intro acc row h
    apply comboTurn_keeps (I := fun m' => m'.pressedKeys_ = m.pressedKeys_)
    · exact fun h => h
    · intro m' h
      rw [breakCombo_eq]
      exact h
    · intro m' step h
      unfold recordMatch
      dsimp only
      split <;> exact h
    · intro m' h
      obtain ⟨events, pastes, heq⟩ :=
        executeKeyAction_eq (m := m'.unclaim row.2) row.1
      unfold completeCombo
      rw [heq]
      exact h
    · exact h
  · rfl

theorem pressedKeys_matchAndEmit (skipMacros : Bool) :
    (m.matchAndEmit input skipMacros).pressedKeys_ = m.pressedKeys_ := by
  obtain ⟨own, -, heq⟩ := matchAndEmit_eq_write m input skipMacros
  rw [heq]
  exact pressedKeys_stageMacros m input skipMacros

theorem pressedKeys_escapeKeys (m : InputMapper) (input : Input) :
    (m.escapeKeys input).pressedKeys_ = m.pressedKeys_ := by
  unfold escapeKeys pressScrollLock ungrabDevices
  dsimp only
  split_ifs <;> rfl

theorem pressedKeys_trackKey (ev : InputEvent) :
    (m.trackKey ev).pressedKeys_ =
      if ev.value = 1 then m.pressedKeys_.insert ev.code ()
      else if ev.value = 0 then m.pressedKeys_.filterKeys fun code => code ≠ ev.code
      else m.pressedKeys_ := by
  unfold trackKey
  dsimp only
  split_ifs <;> rfl

theorem mem_keys_trackKey {ev : InputEvent} {code : ℕ} :
    code ∈ (m.trackKey ev).pressedKeys_.keys ↔
      (code = ev.code ∧ ev.value = 1) ∨
        code ∈ m.pressedKeys_.keys ∧ ¬ (code = ev.code ∧ ev.value = 0) := by
  rw [pressedKeys_trackKey]
  split_ifs with hpress hlift
  · rw [OrderedMap.mem_keys_insert]
    simp [hpress]
  · rw [OrderedMap.keys_filterKeys, List.mem_filter]
    simp [hlift]
  · simp [hpress, hlift]

theorem Held.congr {history : KeyHistory} (hheld : Held ⟨m, history⟩)
    (hkeys : m'.pressedKeys_ = m.pressedKeys_) : Held ⟨m', history⟩ := by
  intro code hmem
  apply hheld code
  rwa [← hkeys]

theorem held_of_cleared {history : KeyHistory} (hkeys : m.pressedKeys_ = OrderedMap.empty) :
    Held ⟨m, history⟩ := by
  intro code hmem
  rw [show (Tracked.mk m history).mapper.pressedKeys_ = OrderedMap.empty from hkeys] at hmem
  exact absurd hmem List.not_mem_nil

theorem Held.trackKey {history : KeyHistory} (hheld : Held ⟨m, history⟩) (ev : InputEvent) :
    Held ⟨m.trackKey ev, history ++ [(ev.code, ev.value)]⟩ := by
  intro code hmem
  rw [show (Tracked.mk (m.trackKey ev) _).history = history ++ [(ev.code, ev.value)] from rfl,
    KeyHistory.last?_concat]
  rcases mem_keys_trackKey.mp hmem with ⟨rfl, hpress⟩ | ⟨hmem, hnotLift⟩
  · rw [if_pos rfl, hpress]
    exact ⟨1, rfl, by decide⟩
  · by_cases hcode : ev.code = code
    · rw [if_pos hcode]
      exact ⟨ev.value, rfl, fun hlift => hnotLift ⟨hcode.symm, hlift⟩⟩
    · rw [if_neg hcode]
      exact hheld code hmem

theorem pressedKeys_setNumLockState {active allReleased : Bool}
    (hchange : m.numLockActive_ ≠ active) :
    (m.setNumLockState active allReleased).pressedKeys_ = OrderedMap.empty := by
  unfold setNumLockState
  rw [if_neg hchange]
  rfl

theorem Held.stageContext {history : KeyHistory} (hheld : Held ⟨m, history⟩) (input : Input)
    (skipMacros : Bool) :
    Held ⟨m.stageContext input, m.nextHistory history (.processEvent input skipMacros)⟩ := by
  have htracked := (hheld.congr (pressedKeys_escapeKeys m input)).trackKey input.ev
  unfold InputMapper.stageContext nextHistory
  dsimp only
  by_cases hkey : input.ev.type = EV_KEY
  · rw [if_pos hkey, if_pos hkey]
    by_cases hnumlock : input.ev.code = KEY_NUMLOCK ∧ input.ev.value = 1
    · rw [if_pos hnumlock, if_pos hnumlock]
      exact held_of_cleared (pressedKeys_setNumLockState (Bool.not_ne_self _).symm)
    · rw [if_neg hnumlock, if_neg hnumlock]
      exact htracked
  · rw [if_neg hkey, if_neg hkey]
    exact hheld

theorem type_of_detected {gToggleState gKey : ℕ} {ev : InputEvent}
    (hdetected : (nextGToggle gToggleState ev).1 = some gKey) : ev.type = EV_KEY := by
  by_contra hother
  unfold nextGToggle at hdetected
  rw [if_pos hother] at hdetected
  exact absurd hdetected (Option.some_ne_none gKey).symm

theorem pressedKeys_pipeline_virtual {nested : InputMapper → Input → InputMapper} (gKey : ℕ)
    (hkey : input.ev.type = EV_KEY) :
    (m.pipeline nested (input.virtual gKey) false).pressedKeys_ =
      (m.trackKey (input.virtual gKey).ev).pressedKeys_ := by
  have hnone : ((m.trackKey (input.virtual gKey).ev).detectGKey
      (input.virtual gKey).ev).1 = none := nextGToggle_virtual _ gKey input
  unfold pipeline
  rw [stageContext_virtual, if_pos hkey]
  dsimp only
  rcases hdetect : (m.trackKey (input.virtual gKey).ev).detectGKey
    (input.virtual gKey).ev with ⟨detected, ready⟩
  rw [hdetect] at hnone
  obtain rfl : detected = none := hnone
  have hready : ready.pressedKeys_ = (m.trackKey (input.virtual gKey).ev).pressedKeys_ := by
    have hsnd := congrArg Prod.snd hdetect
    rw [← show ((m.trackKey (input.virtual gKey).ev).detectGKey
      (input.virtual gKey).ev).2 = ready from hsnd]
    rfl
  split
  · rfl
  · rw [if_neg Bool.false_ne_true]
    dsimp only
    rw [pressedKeys_matchAndEmit, hready]

/-- The set after a physical event: what the first stage makes of it, and the
virtual key where the event ends a G-key sequence. -/
theorem pressedKeys_processEvent (skipMacros : Bool) :
    (m.processEvent input skipMacros).pressedKeys_ =
      if skipMacros = false ∧ (m.stageContext input).monitoringMode_ = false then
        match ((m.stageContext input).detectGKey input.ev).1 with
        | some gKey => ((m.stageContext input).trackKey (input.virtual gKey).ev).pressedKeys_
        | none => (m.stageContext input).pressedKeys_
      else (m.stageContext input).pressedKeys_ := by
  unfold processEvent
  rw [pipeline]
  cases hmonitoring : (m.stageContext input).monitoringMode_ with
  | true => simp
  | false =>
      cases skipMacros with
      | true => exact pressedKeys_matchAndEmit true
      | false =>
          rw [if_neg Bool.false_ne_true, if_neg Bool.false_ne_true, if_pos ⟨rfl, rfl⟩]
          rcases hdetect : (m.stageContext input).detectGKey input.ev with ⟨detected, ready⟩
          have hready : ready = ((m.stageContext input).detectGKey input.ev).2 :=
            (congrArg Prod.snd hdetect).symm
          cases detected with
          | none =>
              dsimp only
              rw [pressedKeys_matchAndEmit, hready]
              rfl
          | some gKey =>
              have hkey := type_of_detected (congrArg Prod.fst hdetect)
              dsimp only
              rw [pressedKeys_pipeline_virtual gKey hkey, hready, pressedKeys_trackKey,
                pressedKeys_trackKey]
              rfl

/-! ## Steps -/

theorem Held.processEvent {history : KeyHistory} (hheld : Held ⟨m, history⟩)
    (skipMacros : Bool) (hpress : ¬ m.PressesGKey (.processEvent input skipMacros)) :
    Held ⟨m.processEvent input skipMacros,
      m.nextHistory history (.processEvent input skipMacros)⟩ := by
  have hcontext := hheld.stageContext input skipMacros
  intro code hmem
  rw [show (Tracked.mk (m.processEvent input skipMacros) _).mapper.pressedKeys_ = _ from
    pressedKeys_processEvent skipMacros] at hmem
  split at hmem
  · rename_i hactive
    split at hmem
    · rename_i gKey hdetected
      rcases mem_keys_trackKey.mp hmem with ⟨-, hvalue⟩ | ⟨hmem, -⟩
      · have hgKey : ((m.stageContext input).detectGKey input.ev).1.isSome := by
          rw [hdetected]
          rfl
        exact absurd ⟨hactive.1, hactive.2, hgKey, hvalue⟩ hpress
      · exact hcontext code hmem
    · exact hcontext code hmem
  · exact hcontext code hmem

theorem pressedKeys_flushAndResetState :
    m.flushAndResetState.pressedKeys_ = m.pressedKeys_ := by
  have hrows : ∀ (rows : List (AppType × ℕ)) (m : InputMapper),
      (rows.foldl flushCombo m).pressedKeys_ = m.pressedKeys_ := by
    intro rows
    induction rows with
    | nil => exact fun m => rfl
    | cons row rows ih =>
        intro m
        apply (ih (m.flushCombo row)).trans
        unfold flushCombo
        dsimp only
        rw [foldl_emit]
        rfl
  exact hrows _ m

theorem mem_keys_setupDevices {pressed : List ℕ} {keys : KeySet} {code : ℕ} :
    code ∈ (pressed.foldl (fun keys code => keys.insert code ()) keys).keys ↔
      code ∈ pressed ∨ code ∈ keys.keys := by
  induction pressed generalizing keys with
  | nil => simp
  | cons first pressed ih =>
      rw [List.foldl_cons, ih, OrderedMap.mem_keys_insert, List.mem_cons]
      tauto

theorem last?_setupDevices {history : KeyHistory} {pressed : List ℕ} {code : ℕ} :
    KeyHistory.last? (history ++ pressed.map fun code => (code, 1)) code =
      if code ∈ pressed then some 1 else KeyHistory.last? history code := by
  induction pressed using List.reverseRecOn with
  | nil => simp
  | append_singleton pressed last ih =>
      rw [List.map_append, ← List.append_assoc]
      rw [show ([last].map fun code => (code, (1 : Int))) = [(last, 1)] from rfl,
        KeyHistory.last?_concat, ih]
      by_cases hlast : last = code
      · simp [hlast]
      · simp [hlast, Ne.symm hlast]

theorem held_step {s s' : Tracked} {op : Operation} (hheld : Held s)
    (hpress : ¬ s.mapper.PressesGKey op) (hstep : trackedStep s op = some s') : Held s' := by
  obtain ⟨m, history⟩ := s
  unfold trackedStep at hstep
  split at hstep
  swap
  · simp at hstep
  rw [Option.map_eq_some_iff] at hstep
  obtain ⟨next, hnext, rfl⟩ := hstep
  cases op with
  | processEvent input skipMacros =>
      obtain rfl := Option.some.inj hnext
      exact hheld.processEvent skipMacros hpress
  | flushAndResetState =>
      obtain rfl := Option.some.inj hnext
      exact hheld.congr pressedKeys_flushAndResetState
  | setContext appType url title =>
      obtain rfl := Option.some.inj hnext
      show Held ⟨m.setContext appType url title, m.nextHistory history _⟩
      unfold setContext nextHistory
      dsimp only
      split
      · exact hheld
      · exact held_of_cleared rfl
  | setNumLockState active allReleased =>
      obtain rfl := Option.some.inj hnext
      show Held ⟨m.setNumLockState active allReleased, m.nextHistory history _⟩
      unfold nextHistory
      dsimp only
      split
      · rename_i hsame
        unfold setNumLockState
        rw [if_pos hsame]
        exact hheld
      · rename_i hchange
        exact held_of_cleared (pressedKeys_setNumLockState hchange)
  | setupDevices pressed =>
      obtain rfl := Option.some.inj hnext
      intro code hmem
      show ∃ value, KeyHistory.last? (history ++ _) code = some value ∧ value ≠ 0
      rw [last?_setupDevices]
      by_cases hpressed : code ∈ pressed
      · rw [if_pos hpressed]
        exact ⟨1, rfl, by decide⟩
      · rw [if_neg hpressed]
        exact hheld code ((mem_keys_setupDevices.mp hmem).resolve_left hpressed)
  | grabDevices allReleased =>
      obtain rfl := Option.some.inj hnext
      apply hheld.congr
      unfold grabDevices
      split <;> rfl
  | loadPersistence savedMacros =>
      obtain rfl := Option.some.inj hnext
      cases savedMacros <;> exact hheld
  | paste =>
      simp only [step] at hnext
      split at hnext
      · obtain rfl := Option.some.inj hnext
        exact hheld
      · simp at hnext
  | setMacrosFromJson | ungrabDevices | emit | sync =>
      obtain rfl := Option.some.inj hnext
      exact hheld

/-! ## Runs -/

/-- Physical codes are below those of the virtual keys. -/
def PhysicalHistory (history : KeyHistory) : Prop := ∀ event ∈ history, event.1 < KEY_CNT

theorem PhysicalHistory.step {s s' : Tracked} {op : Operation}
    (hhistory : PhysicalHistory s.history) (hstep : trackedStep s op = some s') :
    PhysicalHistory s'.history := by
  unfold trackedStep at hstep
  split at hstep
  swap
  · simp at hstep
  rename_i hphysical
  rw [Option.map_eq_some_iff] at hstep
  obtain ⟨next, -, rfl⟩ := hstep
  have hnil : PhysicalHistory [] := fun event h => absurd h List.not_mem_nil
  cases op with
  | processEvent input skipMacros =>
      dsimp only [nextHistory]
      split
      · rename_i hkey
        split
        · exact hnil
        · intro event hevent
          rcases List.mem_append.mp hevent with h | h
          · exact hhistory event h
          · rw [List.mem_singleton.mp h]
            exact hphysical hkey
      · exact hhistory
  | setContext | setNumLockState =>
      dsimp only [nextHistory]
      split
      · exact hhistory
      · exact hnil
  | setupDevices pressed =>
      intro event hevent
      rcases List.mem_append.mp hevent with h | h
      · exact hhistory event h
      · obtain ⟨code, hcode, rfl⟩ := List.mem_map.mp h
        exact hphysical code hcode
  | flushAndResetState | setMacrosFromJson | loadPersistence | grabDevices | ungrabDevices
  | emit | sync | paste => exact hhistory

/-- The press that ends a G-key sequence leaves the virtual key in the set. -/
theorem not_held_of_pressesGKey {s s' : Tracked} {op : Operation}
    (hhistory : PhysicalHistory s.history) (hpress : s.mapper.PressesGKey op)
    (hstep : trackedStep s op = some s') : ¬ HeldTracked s' := by
  have hhistory' := hhistory.step hstep
  rintro ⟨hheld, -⟩
  cases op with
  | processEvent input skipMacros =>
      obtain ⟨hskip, hmonitoring, hdetected, hvalue⟩ := hpress
      obtain ⟨gKey, hgKey⟩ := Option.isSome_iff_exists.mp hdetected
      have hmapper : s'.mapper = s.mapper.processEvent input skipMacros := by
        unfold trackedStep at hstep
        split at hstep
        · rw [Option.map_eq_some_iff] at hstep
          obtain ⟨next, hnext, rfl⟩ := hstep
          exact (Option.some.inj hnext).symm
        · simp at hstep
      have hmem : 1000 + gKey ∈ s'.mapper.pressedKeys_.keys := by
        rw [hmapper, pressedKeys_processEvent, if_pos ⟨hskip, hmonitoring⟩, hgKey]
        exact mem_keys_trackKey.mpr (Or.inl ⟨rfl, hvalue⟩)
      obtain ⟨value, hlast, -⟩ := hheld _ hmem
      have hphysical := hhistory' _ (KeyHistory.exists_of_last? hlast)
      have hbound : 1000 + gKey < 0x300 := hphysical
      omega
  | _ => exact hpress

/-- All along a run the keys held are tracked exactly when no press of it ends a
G-key sequence while the devices are grabbed. -/
theorem heldTracked_iff_noGKeyPress (ops : List Operation) :
    AllStates trackedStep HeldTracked {} ops ↔
      AllSteps trackedStep (fun s op => ¬ s.mapper.PressesGKey op) {} ops :=
  allStates_iff_allSteps (I := fun s => Held s ∧ PhysicalHistory s.history)
    (fun h => h.1.tracked)
    (fun h hpress hstep => ⟨held_step h.1 hpress hstep, h.2.step hstep⟩)
    (fun h hpress hstep => not_held_of_pressesGKey h.2 (not_not.mp hpress) hstep)
    ⟨fun _ h => absurd h List.not_mem_nil, fun _ h => absurd h List.not_mem_nil⟩ ops

/-- Ctrl and Shift twice, then 1; afterwards all three keys are up. -/
def gKeyTyped : List Operation :=
  [(KEY_LEFTCTRL, 1), (KEY_LEFTSHIFT, 1), (KEY_LEFTCTRL, 0), (KEY_LEFTSHIFT, 0),
    (KEY_LEFTCTRL, 1), (KEY_LEFTSHIFT, 1), (KEY_1, 1), (KEY_1, 0), (KEY_LEFTSHIFT, 0),
    (KEY_LEFTCTRL, 0)].map fun event =>
      .processEvent ⟨⟨EV_KEY, event.1, event.2⟩, 0, true⟩ false

/-- The virtual key stays in the set when every physical key is up. -/
theorem gKeyTyped_not_heldTracked : ¬ ∀ ops, AllStates trackedStep HeldTracked {} ops := by
  intro hall
  obtain ⟨final, hrun, hreleased, hkeys⟩ :
      ∃ final, execute trackedStep {} gKeyTyped = some final ∧
        (∀ event ∈ final.history, final.history.last? event.1 = some 0) ∧
        final.mapper.pressedKeys_.keys = [G_VIRTUAL 1] :=
    ⟨_, rfl, by decide +kernel, by decide +kernel⟩
  have hall' := ((hall gKeyTyped).last hrun).2
  have hempty := (hall' fun code value hlast => by
    have hzero := hreleased _ (KeyHistory.exists_of_last? hlast)
    rw [hlast] at hzero
    exact Option.some.inj hzero).1
  unfold OrderedMap.keys at hkeys
  rw [hempty] at hkeys
  exact absurd hkeys (by simp)

end InputMapper

end AutomateLinux
