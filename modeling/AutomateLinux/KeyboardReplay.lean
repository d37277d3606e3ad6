import Mathlib.Data.List.Basic

/-!
# What a keyboard types

Presses and releases of keys are replayed through a layout, which gives the
character of a key with and without shift.  The keys that are down are a list;
shift is on while one of the shift keys is among them.
-/

namespace KeyboardReplay

inductive Stroke (κ : Type*)
  | press (key : κ) | release (key : κ)

structure Layout (κ α : Type*) where
  isShift : κ → Bool
  char : κ → Bool → Option α

structure State (κ α : Type*) where
  down : List κ
  typed : List α
deriving DecidableEq

variable {κ α β : Type*} [DecidableEq κ] (layout : Layout κ α)

def stroke (s : State κ α) : Stroke κ → State κ α
  | .press key =>
      { down := key :: s.down
        typed := s.typed ++ (layout.char key (s.down.any layout.isShift)).toList }
  | .release key => { s with down := s.down.filter fun other => other ≠ key }

def replay (strokes : List (Stroke κ)) (s : State κ α) : State κ α :=
  strokes.foldl (stroke layout) s

def tap (key : κ) : List (Stroke κ) := [.press key, .release key]

/-- Strokes while a key is held. -/
def holding (held : κ) (strokes : List (Stroke κ)) : List (Stroke κ) :=
  .press held :: strokes ++ [.release held]

theorem replay_append (strokes more : List (Stroke κ)) (s : State κ α) :
    replay layout (strokes ++ more) s = replay layout more (replay layout strokes s) :=
  List.foldl_append

theorem replay_tap {key : κ} {s : State κ α} (hup : key ∉ s.down) :
    replay layout (tap key) s =
      { s with typed := s.typed ++ (layout.char key (s.down.any layout.isShift)).toList } := by
  have hother : ∀ other ∈ s.down, ¬ other = key := by
    rintro other hmem rfl
    exact hup hmem
  simpa [replay, tap, stroke] using hother

/-- A key tapped while a silent shift key is held. -/
theorem replay_holding_tap {held key : κ} {typed : List α} (hne : key ≠ held)
    (hshift : layout.isShift held = true) (hsilent : ∀ shift, layout.char held shift = none) :
    replay layout (holding held (tap key)) ⟨[], typed⟩ =
      ⟨[], typed ++ (layout.char key true).toList⟩ := by
  simp [replay, holding, tap, stroke, hshift, hsilent, hne.symm]

/-- A text whose characters are typed one by one, each leaving no key down. -/
theorem replay_flatMap {strokes : β → List (Stroke κ)} {output : β → List α}
    (hone : ∀ b typed, replay layout (strokes b) ⟨[], typed⟩ = ⟨[], typed ++ output b⟩)
    (text : List β) (typed : List α) :
    replay layout (text.flatMap strokes) ⟨[], typed⟩ = ⟨[], typed ++ text.flatMap output⟩ := by
  induction text generalizing typed with
  | nil => simp [replay]
  | cons b text ih =>
      rw [List.flatMap_cons, replay_append, hone, ih, List.flatMap_cons, List.append_assoc]

end KeyboardReplay
