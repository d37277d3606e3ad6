import AutomateLinux.TransitionSystem
import Mathlib.Data.List.Basic

/-!
# Where the items of a shared store come from

Several principals share one store.  An item in it carries the local name of its
owner, and all principals use the same local names, so the store cannot tell
whose item it is.  The log of a run can: it keeps the principal with every item.
An action leaks if it takes or heeds, for one principal, an item of another.
While all items come from the principal that acts, nothing leaks.
-/

structure LogEntry (π ι ε : Type*) where
  origin : π
  owner : ι
  item : ε
deriving DecidableEq

abbrev ProvenanceLog (π ι ε : Type*) := List (LogEntry π ι ε)

namespace ProvenanceLog

open TransitionSystem

/-- A principal puts an item into the store, takes its owner's items out and
passes some items on, or looks whether an item of some key is there; or the
owners of some rows are made to give up what they have. -/
inductive Action (π ι κ ε : Type*)
  | withhold (principal : π) (owner : ι) (item : ε)
  | claim (principal : π) (owner : ι) (emitted : List ε)
  | consult (principal : π) (key : κ)
  | reset (rows : List (π × ι))

variable {π ι κ ε : Type*} [DecidableEq ι]

def apply (log : ProvenanceLog π ι ε) : Action π ι κ ε → ProvenanceLog π ι ε
  | .withhold principal owner item => log ++ [⟨principal, owner, item⟩]
  | .claim _ owner _ => log.filter fun entry => entry.owner ≠ owner
  | .consult _ _ => log
  | .reset rows => log.filter fun entry => entry.owner ∉ rows.map Prod.snd

def step (log : ProvenanceLog π ι ε) (action : Action π ι κ ε) :
    Option (ProvenanceLog π ι ε) :=
  some (log.apply action)

omit [DecidableEq ι] in
/-- What a claim takes out or passes on and what is looked at comes from the
principal itself, and what a reset takes out comes from the rows it resets. -/
def LeakFree (key : ε → κ) (log : ProvenanceLog π ι ε) : Action π ι κ ε → Prop
  | .withhold _ _ _ => True
  | .claim principal owner emitted =>
      ∀ entry ∈ log, entry.owner = owner ∨ entry.item ∈ emitted → entry.origin = principal
  | .consult principal k => ∀ entry ∈ log, key entry.item = k → entry.origin = principal
  | .reset rows =>
      ∀ entry ∈ log, entry.owner ∈ rows.map Prod.snd → (entry.origin, entry.owner) ∈ rows

instance [DecidableEq π] [DecidableEq κ] [DecidableEq ε] (key : ε → κ)
    (log : ProvenanceLog π ι ε) : ∀ action, Decidable (log.LeakFree key action)
  | .withhold _ _ _ => .isTrue trivial
  | .claim principal owner emitted =>
      inferInstanceAs (Decidable (∀ entry ∈ log, entry.owner = owner ∨ entry.item ∈ emitted →
        entry.origin = principal))
  | .consult principal k =>
      inferInstanceAs (Decidable (∀ entry ∈ log, key entry.item = k → entry.origin = principal))
  | .reset rows =>
      inferInstanceAs (Decidable (∀ entry ∈ log, entry.owner ∈ rows.map Prod.snd →
        (entry.origin, entry.owner) ∈ rows))

omit [DecidableEq ι] in
def AllFrom (principal : π) (log : ProvenanceLog π ι ε) : Prop :=
  ∀ entry ∈ log, entry.origin = principal

omit [DecidableEq ι] in
def Action.IsBy (principal : π) : Action π ι κ ε → Prop
  | .withhold other _ _ => other = principal
  | .claim other _ _ => other = principal
  | .consult other _ => other = principal
  | .reset _ => False

variable {log : ProvenanceLog π ι ε} {principal : π} {action : Action π ι κ ε}

omit [DecidableEq ι] in
theorem AllFrom.filter (hall : AllFrom principal log) (p : LogEntry π ι ε → Bool) :
    AllFrom principal (log.filter p) :=
  fun entry hentry => hall entry (List.mem_of_mem_filter hentry)

theorem AllFrom.apply (hall : AllFrom principal log) (hby : action.IsBy principal) :
    AllFrom principal (log.apply action) := by
  cases action with
  | withhold other owner item =>
      intro entry hentry
      rcases List.mem_append.mp hentry with hold | hnew
      · exact hall entry hold
      · rw [List.mem_singleton.mp hnew]
        exact hby
  | claim other owner emitted => exact hall.filter _
  | consult other key => exact hall
  | reset rows => exact hby.elim

omit [DecidableEq ι] in
theorem AllFrom.leakFree (hall : AllFrom principal log) (hby : action.IsBy principal)
    (key : ε → κ) : log.LeakFree key action := by
  cases action with
  | withhold other owner item => exact trivial
  | claim other owner emitted => exact fun entry hentry _ => (hall entry hentry).trans hby.symm
  | consult other k => exact fun entry hentry _ => (hall entry hentry).trans hby.symm
  | reset rows => exact hby.elim

/-- Nothing leaks while one principal acts on its own items, and the items stay
its own. -/
theorem AllFrom.run {actions : List (Action π ι κ ε)} (key : ε → κ)
    (hall : AllFrom principal log) (hby : ∀ action ∈ actions, action.IsBy principal) :
    AllSteps step (LeakFree key) log actions ∧
      AllFrom principal (actions.foldl ProvenanceLog.apply log) := by
  induction actions generalizing log with
  | nil => exact ⟨trivial, hall⟩
  | cons action actions ih =>
      have hfirst := hby action List.mem_cons_self
      obtain ⟨hrest, hafter⟩ := ih (hall.apply hfirst)
        fun later hlater => hby later (List.mem_cons_of_mem _ hlater)
      refine ⟨fun next hnext => ?_, hafter⟩
      obtain rfl := Option.some.inj hnext
      exact ⟨hall.leakFree hfirst key, hrest⟩

end ProvenanceLog
