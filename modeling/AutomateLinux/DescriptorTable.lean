import Mathlib.Data.List.Basic

/-!
# Descriptor tables

A process names its open objects by small numbers.  The table is the list of
its slots: a slot holds the object the number denotes, or is free.  Opening an
object takes the lowest free number, so a number that was closed is handed out
again to an unrelated object.
-/

/-- The slots of a process's descriptor table, indexed by descriptor. -/
structure DescriptorTable (α : Type*) where
  slots : List (Option α)
deriving DecidableEq

namespace DescriptorTable

variable {α : Type*}

/-- The object a descriptor denotes, if it is open. -/
def lookup (table : DescriptorTable α) (fd : ℕ) : Option α :=
  table.slots.getD fd none

/-- The lowest free descriptor of a list of slots. -/
def lowestFreeIn : List (Option α) → ℕ
  | [] => 0
  | none :: _ => 0
  | some _ :: rest => lowestFreeIn rest + 1

def lowestFree (table : DescriptorTable α) : ℕ := lowestFreeIn table.slots

/-- Fill the lowest free slot. -/
def fillLowest (a : α) : List (Option α) → List (Option α)
  | [] => [some a]
  | none :: rest => some a :: rest
  | some b :: rest => some b :: fillLowest a rest

/-- Open `a`; the new descriptor is `lowestFree`. -/
def openLowest (table : DescriptorTable α) (a : α) : DescriptorTable α :=
  ⟨fillLowest a table.slots⟩

def close (table : DescriptorTable α) (fd : ℕ) : DescriptorTable α :=
  ⟨table.slots.set fd none⟩

theorem getD_fillLowest (a : α) (slots : List (Option α)) (fd : ℕ) :
    (fillLowest a slots).getD fd none =
      if fd = lowestFreeIn slots then some a else slots.getD fd none := by
  induction slots generalizing fd with
  | nil => cases fd <;> simp [fillLowest, lowestFreeIn]
  | cons slot rest ih =>
      cases slot with
      | none => cases fd <;> simp [fillLowest, lowestFreeIn]
      | some b =>
          cases fd with
          | zero => simp [fillLowest, lowestFreeIn]
          | succ fd => simpa [fillLowest, lowestFreeIn] using ih fd

theorem getD_lowestFreeIn (slots : List (Option α)) :
    slots.getD (lowestFreeIn slots) none = none := by
  induction slots with
  | nil => rfl
  | cons slot rest ih =>
      cases slot with
      | none => rfl
      | some b => simpa [lowestFreeIn] using ih

@[simp] theorem lookup_openLowest (table : DescriptorTable α) (a : α) (fd : ℕ) :
    (table.openLowest a).lookup fd =
      if fd = table.lowestFree then some a else table.lookup fd :=
  getD_fillLowest a table.slots fd

@[simp] theorem lookup_lowestFree (table : DescriptorTable α) :
    table.lookup table.lowestFree = none :=
  getD_lowestFreeIn table.slots

@[simp] theorem lookup_close (table : DescriptorTable α) (closed fd : ℕ) :
    (table.close closed).lookup fd =
      if fd = closed then none else table.lookup fd := by
  unfold lookup close
  by_cases h : fd = closed
  · subst h
    by_cases hlt : fd < table.slots.length <;> simp [List.getD, hlt]
  · simp [List.getD, List.getElem?_set_ne (Ne.symm h), h]

theorem ne_lowestFree_of_lookup {table : DescriptorTable α} {fd : ℕ} {a : α}
    (hopen : table.lookup fd = some a) : fd ≠ table.lowestFree := by
  rintro rfl
  simp at hopen

end DescriptorTable
