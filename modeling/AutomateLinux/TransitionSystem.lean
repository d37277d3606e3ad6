import Mathlib.Logic.Relation
import Mathlib.Tactic.ByContra

/-!
# Labelled transition systems with guarded runs

A system is a partial step function: the label carries everything the system
does not decide itself, and `none` means that the label is not enabled.  Runs
are the reflexive transitive closure of the step relation, restricted to the
steps whose label meets a side condition in the state it is taken from.  The
unrestricted runs are the special case of a condition that always holds.
-/

namespace TransitionSystem

variable {σ ℓ : Type*}

/-- Some enabled label that meets `ok` leads from the first state to the
second. -/
def StepWhere (step : σ → ℓ → Option σ) (ok : σ → ℓ → Prop)
    (before after : σ) : Prop :=
  ∃ label, ok before label ∧ step before label = some after

/-- Reachability by steps that all meet the condition `ok`. -/
def ReachableWhere (step : σ → ℓ → Option σ) (ok : σ → ℓ → Prop) :
    σ → σ → Prop :=
  Relation.ReflTransGen (StepWhere step ok)

/-- Reachability by arbitrary steps. -/
def Reachable (step : σ → ℓ → Option σ) : σ → σ → Prop :=
  ReachableWhere step fun _ _ => True

/-- Run a list of labels, stopping when one of them is not enabled. -/
def execute (step : σ → ℓ → Option σ) : σ → List ℓ → Option σ
  | state, [] => some state
  | state, label :: labels =>
      (step state label).bind fun next => execute step next labels

/-- Every step of a run meets `ok` in the state it is taken from. -/
def AllSteps (step : σ → ℓ → Option σ) (ok : σ → ℓ → Prop) :
    σ → List ℓ → Prop
  | _, [] => True
  | state, label :: labels =>
      ∀ next, step state label = some next →
        ok state label ∧ AllSteps step ok next labels

/-- Every state of a run, the first and the last included, satisfies `P`. -/
def AllStates (step : σ → ℓ → Option σ) (P : σ → Prop) : σ → List ℓ → Prop
  | state, [] => P state
  | state, label :: labels =>
      P state ∧
        ∀ next, step state label = some next → AllStates step P next labels

section

variable {step : σ → ℓ → Option σ} {ok : σ → ℓ → Prop}

/-- The invariant rule: a property kept by every step that meets the
condition holds wherever such steps lead. -/
theorem ReachableWhere.invariant {I : σ → Prop} {start state : σ}
    (hreach : ReachableWhere step ok start state)
    (hstep : ∀ {before label after}, I before → ok before label →
      step before label = some after → I after)
    (hstart : I start) : I state := by
  induction hreach with
  | refl => exact hstart
  | tail _ hlast ih =>
      obtain ⟨label, hok, hnext⟩ := hlast
      exact hstep ih hok hnext

theorem Reachable.invariant {I : σ → Prop} {start state : σ}
    (hreach : Reachable step start state)
    (hstep : ∀ {before label after}, I before →
      step before label = some after → I after)
    (hstart : I start) : I state :=
  ReachableWhere.invariant hreach (fun hinv _ => hstep hinv) hstart

theorem ReachableWhere.trans {first second third : σ}
    (hleft : ReachableWhere step ok first second)
    (hright : ReachableWhere step ok second third) :
    ReachableWhere step ok first third :=
  Relation.ReflTransGen.trans hleft hright

theorem ReachableWhere.of_execute {start final : σ} {labels : List ℓ}
    (hok : AllSteps step ok start labels)
    (hrun : execute step start labels = some final) :
    ReachableWhere step ok start final := by
  induction labels generalizing start with
  | nil =>
      obtain rfl : start = final := by simpa [execute] using hrun
      exact Relation.ReflTransGen.refl
  | cons label labels ih =>
      obtain ⟨next, hnext, hrest⟩ : ∃ next, step start label = some next ∧
          execute step next labels = some final := by
        simpa [execute, Option.bind_eq_some_iff] using hrun
      obtain ⟨hlabel, hlabels⟩ := hok next hnext
      exact Relation.ReflTransGen.head ⟨label, hlabel, hnext⟩
        (ih hlabels hrest)

theorem allSteps_true (start : σ) (labels : List ℓ) :
    AllSteps step (fun _ _ => True) start labels := by
  induction labels generalizing start with
  | nil => exact trivial
  | cons label labels ih => exact fun next _ => ⟨trivial, ih next⟩

theorem allSteps_congr {ok' : σ → ℓ → Prop}
    (hiff : ∀ {state label}, ok state label ↔ ok' state label) {start : σ} {labels : List ℓ} :
    AllSteps step ok start labels ↔ AllSteps step ok' start labels := by
  induction labels generalizing start with
  | nil => exact Iff.rfl
  | cons label labels ih =>
      unfold AllSteps
      simp only [hiff, ih]

theorem AllSteps.append {start : σ} {labels more : List ℓ}
    (hall : AllSteps step ok start (labels ++ more)) :
    ∀ {final}, execute step start labels = some final →
      AllSteps step ok start labels ∧ AllSteps step ok final more := by
  induction labels generalizing start with
  | nil =>
      intro final hrun
      obtain rfl : start = final := by simpa [execute] using hrun
      exact ⟨trivial, hall⟩
  | cons label labels ih =>
      intro final hrun
      obtain ⟨next, hnext, hrest⟩ : ∃ next, step start label = some next ∧
          execute step next labels = some final := by
        simpa [execute, Option.bind_eq_some_iff] using hrun
      obtain ⟨hlabel, hlabels⟩ := hall next hnext
      obtain ⟨hfirst, hsecond⟩ := ih hlabels hrest
      refine ⟨fun next' hnext' => ?_, hsecond⟩
      obtain rfl : next = next' := Option.some.inj (hnext.symm.trans hnext')
      exact ⟨hlabel, hfirst⟩

/-- A condition that can be decided for a step can be decided for a run. -/
instance decidableAllSteps [∀ state label, Decidable (ok state label)] :
    ∀ state labels, Decidable (AllSteps step ok state labels)
  | _, [] => isTrue trivial
  | state, label :: labels =>
      match hnext : step state label with
      | none => isTrue fun next heq => by simp [hnext] at heq
      | some next =>
          have := decidableAllSteps next labels
          decidable_of_iff (ok state label ∧ AllSteps step ok next labels)
            (by simp [AllSteps, hnext])

theorem Reachable.of_execute {start final : σ} {labels : List ℓ}
    (hrun : execute step start labels = some final) :
    Reachable step start final :=
  ReachableWhere.of_execute (allSteps_true start labels) hrun

theorem AllStates.head {P : σ → Prop} {state : σ} {labels : List ℓ}
    (hall : AllStates step P state labels) : P state := by
  cases labels with
  | nil => exact hall
  | cons label labels => exact hall.1

theorem AllStates.last {P : σ → Prop} {start final : σ} {labels : List ℓ}
    (hall : AllStates step P start labels)
    (hrun : execute step start labels = some final) : P final := by
  induction labels generalizing start with
  | nil =>
      obtain rfl : start = final := by simpa [execute] using hrun
      exact hall
  | cons label labels ih =>
      obtain ⟨next, hnext, hrest⟩ : ∃ next, step start label = some next ∧
          execute step next labels = some final := by
        simpa [execute, Option.bind_eq_some_iff] using hrun
      exact ih (hall.2 next hnext) hrest

/-- The exact-condition rule: if the steps that meet `ok` keep an invariant
that implies `P`, and a step that does not meet it destroys `P`, then `P` holds
all along a run exactly when all its steps meet `ok`. -/
theorem allStates_iff_allSteps {I P : σ → Prop}
    (himp : ∀ {state}, I state → P state)
    (hkeep : ∀ {before label after}, I before → ok before label →
      step before label = some after → I after)
    (hbreak : ∀ {before label after}, I before → ¬ ok before label →
      step before label = some after → ¬ P after)
    {start : σ} (hstart : I start) (labels : List ℓ) :
    AllStates step P start labels ↔ AllSteps step ok start labels := by
  induction labels generalizing start with
  | nil => exact ⟨fun _ => trivial, fun _ => himp hstart⟩
  | cons label labels ih =>
      constructor
      · rintro ⟨-, hrest⟩ next hnext
        have hok : ok start label := by
          by_contra hnot
          exact hbreak hstart hnot hnext (hrest next hnext).head
        exact ⟨hok, (ih (hkeep hstart hok hnext)).mp (hrest next hnext)⟩
      · intro hsteps
        refine ⟨himp hstart, fun next hnext => ?_⟩
        obtain ⟨hok, hrest⟩ := hsteps next hnext
        exact (ih (hkeep hstart hok hnext)).mpr hrest

end

end TransitionSystem
