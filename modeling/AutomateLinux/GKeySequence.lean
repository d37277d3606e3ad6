import AutomateLinux.InputMapper
import AutomateLinux.RestartingRecogniser
import Mathlib.Data.List.DropRight
import Mathlib.Tactic.IntervalCases
import Mathlib.Tactic.Tauto

/-!
# The G-key sequence

A G-key is announced by presses of left Ctrl, left Shift, left Ctrl and left
Shift followed by a number key.  `detectGKey` counts the presses it has seen of
this sequence and starts over on any press that does not continue it, also when
that press is the Ctrl that begins the sequence anew; in the ready state it
looks only at the code of the number key.
-/

namespace AutomateLinux

open RestartingRecogniser

inductive Modifier
  | ctrl | shift
deriving DecidableEq

namespace InputEvent

/-- The press of left Ctrl or of left Shift that an event is. -/
def modifierPress (ev : InputEvent) : Option Modifier :=
  if ev.type = EV_KEY ∧ ev.value = 1 then
    if ev.code = KEY_LEFTCTRL then some .ctrl
    else if ev.code = KEY_LEFTSHIFT then some .shift
    else none
  else none

def isOtherKey (ev : InputEvent) : Bool :=
  ev.type = EV_KEY && !(ev.code = KEY_LEFTCTRL || ev.code = KEY_LEFTSHIFT)

def isNumberKey (ev : InputEvent) : Bool :=
  ev.type = EV_KEY && KEY_1 ≤ ev.code && ev.code ≤ KEY_6

end InputEvent

def gKeySequence : List Modifier := [.ctrl, .shift, .ctrl, .shift]

/-- The number key pressed announces G-key `k` when the last presses are the
G-key sequence and no other key has had an event since it began. -/
def AnnouncesGKey (past : List InputEvent) (ev : InputEvent) (k : ℕ) : Prop :=
  (ev.type = EV_KEY ∧ ev.value = 1 ∧ 1 ≤ k ∧ k ≤ 6 ∧ ev.code + 1 = KEY_1 + k) ∧
    ∃ recent, recent <:+ past ∧ (∀ e ∈ recent, e.isOtherKey = false) ∧
      recent.filterMap InputEvent.modifierPress = gKeySequence

/-- The presses of left Ctrl and left Shift since the last event of another key. -/
def modifierRun (past : List InputEvent) : List Modifier :=
  (past.rtakeWhile fun e => !e.isOtherKey).filterMap InputEvent.modifierPress

namespace InputMapper

/-- `detectGKey` on a stream of events. -/
def afterEvents (m : InputMapper) (past : List InputEvent) : InputMapper :=
  past.foldl (fun m ev => (m.detectGKey ev).2) m

end InputMapper

section

variable {past : List InputEvent} {ev : InputEvent} {k : ℕ}

theorem modifierRun_concat :
    modifierRun (past ++ [ev]) =
      if ev.isOtherKey then [] else modifierRun past ++ ev.modifierPress.toList := by
  unfold modifierRun
  rw [List.rtakeWhile_concat]
  cases ev.isOtherKey with
  | true => rfl
  | false => cases hpress : ev.modifierPress <;> simp [List.filterMap_append, hpress]

theorem rtakeWhile_append_of_forall {α : Type*} {p : α → Bool} {front recent : List α}
    (hall : ∀ e ∈ recent, p e = true) :
    (front ++ recent).rtakeWhile p = front.rtakeWhile p ++ recent := by
  induction recent using List.reverseRecOn with
  | nil => simp
  | append_singleton recent e ih =>
      have he : p e = true := hall e (by simp)
      rw [← List.append_assoc, List.rtakeWhile_concat_pos _ _ _ he,
        ih fun x hx => hall x (List.mem_append_left _ hx), List.append_assoc]

theorem exists_recent_iff :
    (∃ recent, recent <:+ past ∧ (∀ e ∈ recent, e.isOtherKey = false) ∧
        recent.filterMap InputEvent.modifierPress = gKeySequence) ↔
      gKeySequence <:+ modifierRun past := by
  constructor
  · rintro ⟨recent, ⟨front, rfl⟩, hown, hpresses⟩
    unfold modifierRun
    rw [rtakeWhile_append_of_forall fun e he => by simp [hown e he],
      List.filterMap_append, hpresses]
    exact List.suffix_append _ _
  · rintro ⟨spent, hrun⟩
    obtain ⟨front, recent, hsplit, -, hpresses⟩ := List.filterMap_eq_append_iff.mp hrun.symm
    have hsuffix : recent <:+ past.rtakeWhile fun e => !e.isOtherKey :=
      hsplit ▸ List.suffix_append front recent
    refine ⟨recent, hsuffix.trans (List.rtakeWhile_suffix _ _), fun e he => ?_, hpresses⟩
    simpa using List.mem_rtakeWhile_imp (hsuffix.subset he)

/-- Matched presses are counted from zero, toggle states from one. -/
theorem nextGToggle_snd {matched : ℕ} (hmatched : matched ≤ 4) :
    (InputMapper.nextGToggle (matched + 1) ev).2 =
      if ev.isOtherKey then 1
      else ev.modifierPress.toList.foldl (advance gKeySequence) matched + 1 := by
  unfold InputMapper.nextGToggle InputEvent.isOtherKey InputEvent.modifierPress
  by_cases htype : ev.type = EV_KEY
  · by_cases hctrl : ev.code = KEY_LEFTCTRL
    · by_cases hvalue : ev.value = 1
      · interval_cases matched <;> simp [htype, hctrl, hvalue, advance, gKeySequence]
      · simp [htype, hctrl, hvalue]
    · by_cases hshift : ev.code = KEY_LEFTSHIFT
      · have hne : KEY_LEFTSHIFT ≠ KEY_LEFTCTRL := by decide
        by_cases hvalue : ev.value = 1
        · interval_cases matched <;> simp [htype, hshift, hne, hvalue, advance, gKeySequence]
        · simp [htype, hshift, hne, hvalue]
      · simp [htype, hctrl, hshift, apply_ite Prod.snd]
  · simp [htype]

theorem nextGToggle_fst_eq_some_iff {s : ℕ} :
    (InputMapper.nextGToggle s ev).1 = some k ↔
      ev.isNumberKey = true ∧ s = 5 ∧ k = ev.code - KEY_1 + 1 := by
  have hctrl : ev.code = KEY_LEFTCTRL → ¬ ev.code ≤ KEY_6 := by
    unfold KEY_LEFTCTRL KEY_6
    omega
  have hshift : ev.code = KEY_LEFTSHIFT → ¬ ev.code ≤ KEY_6 := by
    unfold KEY_LEFTSHIFT KEY_6
    omega
  unfold InputMapper.nextGToggle InputEvent.isNumberKey
  split_ifs with htype hcode hvalue hcode hvalue hready
  all_goals grind

theorem afterEvents_concat (m : InputMapper) :
    m.afterEvents (past ++ [ev]) = ((m.afterEvents past).detectGKey ev).2 := by
  simp [InputMapper.afterEvents]

theorem gToggleState_afterEvents {m : InputMapper} (hstart : m.gToggleState_ = 1)
    (past : List InputEvent) :
    (m.afterEvents past).gToggleState_ =
      matchedAfter gKeySequence (modifierRun past) + 1 := by
  induction past using List.reverseRecOn with
  | nil => exact hstart
  | append_singleton past ev ih =>
      have hle : matchedAfter gKeySequence (modifierRun past) ≤ 4 :=
        (exists_spent gKeySequence (modifierRun past)).1
      rw [afterEvents_concat, modifierRun_concat]
      show (InputMapper.nextGToggle (m.afterEvents past).gToggleState_ ev).2 = _
      rw [ih, nextGToggle_snd hle]
      unfold matchedAfter
      split_ifs
      · rfl
      · rw [List.foldl_append]

theorem detectGKey_eq_some_iff {m : InputMapper} (hstart : m.gToggleState_ = 1) :
    ((m.afterEvents past).detectGKey ev).1 = some k ↔
      (ev.isNumberKey = true ∧ k = ev.code - KEY_1 + 1) ∧
        ∃ spent, Spent gKeySequence spent ∧ modifierRun past = spent ++ gKeySequence := by
  rw [← matchedAfter_eq_length_iff]
  show (InputMapper.nextGToggle (m.afterEvents past).gToggleState_ ev).1 = some k ↔ _
  rw [nextGToggle_fst_eq_some_iff, gToggleState_afterEvents hstart]
  have hready : matchedAfter gKeySequence (modifierRun past) + 1 = 5 ↔
      matchedAfter gKeySequence (modifierRun past) = gKeySequence.length :=
    Nat.succ_inj
  rw [hready]
  tauto

theorem announcesGKey_iff :
    AnnouncesGKey past ev k ↔
      (ev.isNumberKey = true ∧ k = ev.code - KEY_1 + 1) ∧ ev.value = 1 ∧
        ∃ spent, modifierRun past = spent ++ gKeySequence := by
  have hkey : (ev.type = EV_KEY ∧ 1 ≤ k ∧ k ≤ 6 ∧ ev.code + 1 = KEY_1 + k) ↔
      ev.isNumberKey = true ∧ k = ev.code - KEY_1 + 1 := by
    simp only [InputEvent.isNumberKey, Bool.and_eq_true, decide_eq_true_eq, and_assoc]
    refine and_congr_right fun _ => ?_
    unfold KEY_1 KEY_6
    omega
  have hsuffix : gKeySequence <:+ modifierRun past ↔
      ∃ spent, modifierRun past = spent ++ gKeySequence :=
    exists_congr fun _ => eq_comm
  unfold AnnouncesGKey
  rw [exists_recent_iff, hsuffix, ← hkey]
  tauto

/-- At the number keys: when the last presses are the G-key sequence, what comes
before them falls into failed attempts exactly if the event is a press. -/
def WellAnnounced (past : List InputEvent) (ev : InputEvent) : Prop :=
  ev.isNumberKey = true → ∀ spent, modifierRun past = spent ++ gKeySequence →
    (ev.value = 1 ↔ Spent gKeySequence spent)

/-- `detectGKey` reports the announced G-keys exactly at the well announced events. -/
theorem detectGKey_iff_announcesGKey (past : List InputEvent) (ev : InputEvent) :
    (∀ k, ((InputMapper.afterEvents {} past).detectGKey ev).1 = some k ↔
        AnnouncesGKey past ev k) ↔
      WellAnnounced past ev := by
  simp only [detectGKey_eq_some_iff (m := {}) rfl, announcesGKey_iff]
  have hspent : ∀ spent, modifierRun past = spent ++ gKeySequence →
      ((∃ word, Spent gKeySequence word ∧ modifierRun past = word ++ gKeySequence) ↔
        Spent gKeySequence spent) := by
    intro spent hrun
    simp only [hrun, List.append_cancel_right_eq, exists_eq_right']
  constructor
  · intro hall hnumber spent hrun
    have hkey := hall (ev.code - KEY_1 + 1)
    rw [hspent spent hrun] at hkey
    have hended : ∃ word, modifierRun past = word ++ gKeySequence := ⟨spent, hrun⟩
    tauto
  · intro hwell k
    by_cases hended : ∃ word, modifierRun past = word ++ gKeySequence
    · obtain ⟨spent, hrun⟩ := hended
      have hpress := fun hnumber => hwell hnumber spent hrun
      rw [hspent spent hrun]
      have hended : ∃ word, modifierRun past = word ++ gKeySequence := ⟨spent, hrun⟩
      tauto
    · have hmissed : ¬ ∃ word, Spent gKeySequence word ∧
          modifierRun past = word ++ gKeySequence := fun ⟨word, _, hrun⟩ =>
        hended ⟨word, hrun⟩
      tauto

/-- A tap of Ctrl before the G-key sequence. -/
def extraCtrlTap : List InputEvent :=
  [KEY_LEFTCTRL, KEY_LEFTCTRL, KEY_LEFTSHIFT, KEY_LEFTCTRL, KEY_LEFTSHIFT].flatMap
    fun code => [⟨EV_KEY, code, 1⟩, ⟨EV_KEY, code, 0⟩]

theorem not_detectGKey_extraCtrlTap :
    ¬ ∀ (past : List InputEvent) (ev : InputEvent) (k : ℕ),
      ((InputMapper.afterEvents {} past).detectGKey ev).1 = some k ↔
        AnnouncesGKey past ev k := by
  intro hall
  have hdetected := (hall extraCtrlTap ⟨EV_KEY, KEY_1, 1⟩ 1).mpr
    ⟨by decide, extraCtrlTap.drop 2, List.drop_suffix _ _, by decide, by decide⟩
  revert hdetected
  decide

end

end AutomateLinux
