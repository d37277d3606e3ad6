import AutomateLinux.InputMapperEscape

/-!
# Events in place of events

The second stage calls `processEvent` again, with the virtual event of the G-key that it
has detected.  Here the two functions call each other to a given depth and note which
events they are called for and what becomes of each.  The virtual event never makes a
G-key of its own, whatever the state of the toggle, so that a depth of two is enough.
-/

namespace AutomateLinux

namespace InputMapper

/-! ## The recursion -/

inductive Note
  | called (ev : InputEvent)
  | consumed (ev : InputEvent)
  | dropped (ev : InputEvent)
  | emitted (ev : InputEvent)
deriving DecidableEq

/-- Stages 3 and 4. -/
def matchAndEmitNoted (m : InputMapper) (input : Input) (isMouse : Bool) : InputMapper × Note :=
  match m.stageMacros input isMouse with
  | (m, .DROP) => (m, .dropped input.ev)
  | (m, _) => (m.emitFinal input.ev, .emitted input.ev)

def stageGKey (processEvent : InputMapper → Input → Option (InputMapper × List Note))
    (m : InputMapper) (input : Input) : Option (PipelineResult × InputMapper × List Note) :=
  match m.detectGKey input.ev with
  | (some gKey, m) => (processEvent m (input.virtual gKey)).map fun after => (.CONSUMED, after)
  | (none, m) => some (.CONTINUE, m, [])

/-- What `processEvent` does behind the second stage. -/
def afterGKey (input : Input) (isMouse : Bool) :
    PipelineResult × InputMapper × List Note → InputMapper × List Note
  | (.CONSUMED, m, notes) => (m, .called input.ev :: notes ++ [.consumed input.ev])
  | (_, m, notes) =>
      let (m, note) := m.matchAndEmitNoted input isMouse
      (m, .called input.ev :: notes ++ [note])

/-- `processEvent`, with the depth that the calls may still reach. -/
def processEventWithin : ℕ → InputMapper → Input → Bool → Option (InputMapper × List Note)
  | 0, _, _, _ => none
  | depth + 1, m, input, isMouse =>
      let m := m.stageContext input
      if m.monitoringMode_ then some (m, [.called input.ev])
      else if isMouse then some (afterGKey input true (.CONTINUE, m, []))
      else
        (m.stageGKey (fun m virtual => processEventWithin depth m virtual false) input).map
          (afterGKey input false)

/-! ## What becomes of an event -/

def calls (notes : List Note) : List InputEvent :=
  notes.filterMap fun note =>
    match note with
    | .called ev => some ev
    | _ => none

def outcomes (ev : InputEvent) (notes : List Note) : List Note :=
  notes.filter fun note => note = .consumed ev ∨ note = .dropped ev ∨ note = .emitted ev

/-- All that happens is that the event is dropped, or that it is emitted. -/
def Passes (input : Input) (notes : List Note) : Prop :=
  notes = [.called input.ev, .dropped input.ev] ∨ notes = [.called input.ev, .emitted input.ev]

/-- The virtual event of a G-key passes before the event is consumed. -/
def IsReplaced (input : Input) (notes : List Note) : Prop :=
  ∃ gKey nested, 1 ≤ gKey ∧ gKey ≤ 6 ∧ Passes (input.virtual gKey) nested ∧
    notes = .called input.ev :: nested ++ [.consumed input.ev]

section

variable {input : Input} {notes : List Note}

theorem Passes.length_calls (hpasses : Passes input notes) : (calls notes).length = 1 := by
  rcases hpasses with rfl | rfl
  · rfl
  · rfl

theorem Passes.length_outcomes (hpasses : Passes input notes) :
    (outcomes input.ev notes).length = 1 := by
  rcases hpasses with rfl | rfl
  · simp [outcomes]
  · simp [outcomes]

theorem Passes.outcomes_of_ne (hpasses : Passes input notes) {ev : InputEvent}
    (hne : input.ev ≠ ev) : outcomes ev notes = [] := by
  rcases hpasses with rfl | rfl
  · simp [outcomes, hne]
  · simp [outcomes, hne]

theorem IsReplaced.length_calls (hreplaced : IsReplaced input notes) :
    (calls notes).length = 2 := by
  obtain ⟨gKey, nested, -, -, hpasses, rfl⟩ := hreplaced
  rcases hpasses with rfl | rfl
  · rfl
  · rfl

/-- The virtual event is another one, so that its outcome does not count. -/
theorem IsReplaced.length_outcomes (hreplaced : IsReplaced input notes)
    (hcode : input.ev.code ≤ KEY_6) : (outcomes input.ev notes).length = 1 := by
  obtain ⟨gKey, nested, -, -, hpasses, rfl⟩ := hreplaced
  have hne : (input.virtual gKey).ev ≠ input.ev := by
    intro hsame
    have hvirtual : 1000 + gKey = input.ev.code := congrArg InputEvent.code hsame
    have hsix : KEY_6 < 1000 := by decide
    omega
  have hnested := hpasses.outcomes_of_ne hne
  unfold outcomes at hnested ⊢
  rw [List.cons_append, List.filter_cons_of_neg (by simp), List.filter_append, hnested]
  simp

end

section

variable {m : InputMapper} {input : Input} {isMouse : Bool}

/-! ## Calls without a G-key -/

/-- Where no G-key has been detected the event is dropped or emitted. -/
theorem afterGKey_continue (m : InputMapper) (input : Input) (isMouse : Bool) :
    ∃ notes, Passes input notes ∧
      afterGKey input isMouse (.CONTINUE, m, []) = (m.matchAndEmit input isMouse, notes) := by
  have hafter : afterGKey input isMouse (.CONTINUE, m, []) =
      ((m.matchAndEmitNoted input isMouse).1,
        [.called input.ev, (m.matchAndEmitNoted input isMouse).2]) := rfl
  rw [hafter]
  unfold matchAndEmitNoted matchAndEmit
  rcases m.stageMacros input isMouse with ⟨after, result⟩
  cases result with
  | DROP => exact ⟨_, Or.inl rfl, rfl⟩
  | CONTINUE => exact ⟨_, Or.inr rfl, rfl⟩
  | CONSUMED => exact ⟨_, Or.inr rfl, rfl⟩

theorem processEventWithin_of_not_detected
    (hgrabbed : (m.stageContext input).monitoringMode_ = false)
    (hnone : isMouse = true ∨ ((m.stageContext input).detectGKey input.ev).1 = none) :
    ∃ notes, Passes input notes ∧ ∀ depth,
      processEventWithin (depth + 1) m input isMouse =
        some (m.processEvent input isMouse, notes) := by
  have hready : ¬ (m.stageContext input).monitoringMode_ = true := by simp [hgrabbed]
  cases isMouse with
  | true =>
      obtain ⟨notes, hpasses, heq⟩ := afterGKey_continue (m.stageContext input) input true
      refine ⟨notes, hpasses, fun depth => ?_⟩
      rw [processEvent_eq, pipeline, processEventWithin, if_neg hready, if_neg hready, if_pos rfl,
        if_pos rfl, heq]
  | false =>
      have hkey := hnone.resolve_left (by decide)
      rcases hdetect : (m.stageContext input).detectGKey input.ev with ⟨gKey, detected⟩
      obtain rfl : gKey = none := by rwa [hdetect] at hkey
      obtain ⟨notes, hpasses, heq⟩ := afterGKey_continue detected input false
      refine ⟨notes, hpasses, fun depth => ?_⟩
      rw [processEvent_eq, pipeline, processEventWithin, if_neg hready, if_neg hready,
        if_neg (by decide), if_neg (by decide), stageGKey, hdetect]
      dsimp only
      rw [Option.map_some, heq]

/-! ## Calls with a virtual event -/

theorem processEventWithin_virtual (hgrabbed : m.monitoringMode_ = false) (input : Input)
    (gKey : ℕ) :
    ∃ notes, Passes (input.virtual gKey) notes ∧ ∀ depth,
      processEventWithin (depth + 1) m (input.virtual gKey) false =
        some (m.processEvent (input.virtual gKey) false, notes) := by
  have hsame := (sameEscape_stageContext_virtual m input gKey).monitoringMode_
  exact processEventWithin_of_not_detected (hsame.trans hgrabbed)
    (Or.inr (nextGToggle_virtual _ gKey input))

theorem detectGKey_eq_some {gKey : ℕ} {ev : InputEvent} (hkey : (m.detectGKey ev).1 = some gKey) :
    1 ≤ gKey ∧ gKey ≤ 6 ∧ ev.code ≤ KEY_6 := by
  unfold detectGKey nextGToggle at hkey
  dsimp only at hkey
  split_ifs at hkey with _ _ _ _ _ hready
  obtain ⟨-, hone, hsix⟩ := hready
  have hnumber : ev.code - KEY_1 + 1 = gKey := Option.some.inj hkey
  refine ⟨by omega, ?_, hsix⟩
  unfold KEY_1 at hone hnumber
  unfold KEY_6 at hsix
  omega

theorem processEventWithin_of_detected {gKey : ℕ}
    (hgrabbed : (m.stageContext input).monitoringMode_ = false)
    (hkey : ((m.stageContext input).detectGKey input.ev).1 = some gKey) :
    ∃ notes, IsReplaced input notes ∧ ∀ depth,
      processEventWithin (depth + 2) m input false =
        some (m.processEvent input false, notes) := by
  have hready : ¬ (m.stageContext input).monitoringMode_ = true := by simp [hgrabbed]
  have hmode : ((m.stageContext input).detectGKey input.ev).2.monitoringMode_ = false := hgrabbed
  obtain ⟨hone, hsix, -⟩ := detectGKey_eq_some hkey
  rcases hdetect : (m.stageContext input).detectGKey input.ev with ⟨gKey?, detected⟩
  obtain rfl : gKey? = some gKey := by rwa [hdetect] at hkey
  rw [hdetect] at hmode
  obtain ⟨nested, hpasses, heq⟩ := processEventWithin_virtual hmode input gKey
  refine ⟨.called input.ev :: nested ++ [.consumed input.ev],
    ⟨gKey, nested, hone, hsix, hpasses, rfl⟩, fun depth => ?_⟩
  rw [processEvent_eq, pipeline, processEventWithin, if_neg hready, if_neg hready,
    if_neg (by decide), if_neg (by decide), stageGKey, hdetect]
  dsimp only
  rw [heq, Option.map_some, Option.map_some]
  rfl

/-! ## All calls -/

/-- Two calls are enough for every event.  One that comes while the devices are grabbed has
one outcome: it is consumed for the virtual event that passes in its place, dropped or
emitted. -/
theorem processEventWithin_settles (m : InputMapper) (input : Input) (isMouse : Bool) :
    ∃ notes, (∀ depth, 2 ≤ depth →
        processEventWithin depth m input isMouse = some (m.processEvent input isMouse, notes)) ∧
      (calls notes).length ≤ 2 ∧
        ((m.stageContext input).monitoringMode_ = false →
          (outcomes input.ev notes).length = 1 ∧
            (IsReplaced input notes ∨ Passes input notes)) := by
  have hdepth : ∀ {result}, (∀ depth, processEventWithin (depth + 2) m input isMouse = result) →
      ∀ depth, 2 ≤ depth → processEventWithin depth m input isMouse = result := by
    intro result hresult depth htwo
    obtain ⟨more, rfl⟩ := Nat.exists_eq_add_of_le' htwo
    exact hresult more
  by_cases hgrabbed : (m.stageContext input).monitoringMode_ = true
  · refine ⟨[.called input.ev], hdepth fun depth => ?_, Nat.le_succ 1, fun h => ?_⟩
    · rw [processEvent_eq, pipeline, processEventWithin, if_pos hgrabbed, if_pos hgrabbed]
    · rw [hgrabbed] at h
      contradiction
  · have hready : (m.stageContext input).monitoringMode_ = false := by simpa using hgrabbed
    by_cases hnone : isMouse = true ∨ ((m.stageContext input).detectGKey input.ev).1 = none
    · obtain ⟨notes, hpasses, heq⟩ := processEventWithin_of_not_detected hready hnone
      refine ⟨notes, hdepth fun depth => heq (depth + 1), ?_,
        fun _ => ⟨hpasses.length_outcomes, Or.inr hpasses⟩⟩
      rw [hpasses.length_calls]
      exact Nat.le_succ 1
    · obtain ⟨hmouse, hsome⟩ := not_or.mp hnone
      obtain rfl : isMouse = false := by simpa using hmouse
      obtain ⟨gKey, hkey⟩ := Option.ne_none_iff_exists'.mp hsome
      obtain ⟨-, -, hcode⟩ := detectGKey_eq_some hkey
      obtain ⟨notes, hreplaced, heq⟩ := processEventWithin_of_detected hready hkey
      exact ⟨notes, hdepth heq, hreplaced.length_calls.le,
        fun _ => ⟨hreplaced.length_outcomes hcode, Or.inl hreplaced⟩⟩

end

end InputMapper

end AutomateLinux
