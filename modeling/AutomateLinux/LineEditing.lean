import Mathlib.Data.List.Basic
import Mathlib.Data.List.Infix
import Mathlib.Data.Nat.Notation

/-!
# Searching and deleting lines

Line tools search every line for an expression and delete ranges of lines.  The
expressions are made of symbols that stand for themselves and of a wildcard that stands
for any symbol.  A range begins at a line that matches and ends at the next one that
does, or with the file.
-/

namespace LineEditing

/-! ## Expressions -/

section

variable {α : Type*} [DecidableEq α] (wildcard : α)

/-- The expression matches at the beginning of the text. -/
def matchesAt : List α → List α → Bool
  | [], _ => true
  | _ :: _, [] => false
  | p :: pattern, c :: text => (p = wildcard || p = c) && matchesAt pattern text

/-- The expression matches somewhere in the text. -/
def search (pattern : List α) : List α → Bool
  | [] => matchesAt wildcard pattern []
  | c :: text => matchesAt wildcard pattern (c :: text) || search pattern text

variable {wildcard} {pattern text : List α} {c : α}

theorem matchesAt_append (front : List α) :
    matchesAt wildcard (front ++ pattern) (front ++ text) = matchesAt wildcard pattern text := by
  induction front with
  | nil => rfl
  | cons c front ih => simp [matchesAt, ih]

theorem matchesAt_self (text : List α) : matchesAt wildcard text text = true := by
  have hall : matchesAt wildcard (text ++ []) (text ++ []) = matchesAt wildcard ([] : List α) [] :=
    matchesAt_append text
  rw [List.append_nil] at hall
  exact hall

theorem length_le_of_matchesAt (hmatch : matchesAt wildcard pattern text = true) :
    pattern.length ≤ text.length := by
  induction pattern generalizing text with
  | nil => exact Nat.zero_le _
  | cons p pattern ih =>
      cases text with
      | nil => contradiction
      | cons c text =>
          rw [matchesAt, Bool.and_eq_true] at hmatch
          exact Nat.succ_le_succ (ih hmatch.2)

theorem search_eq_false_of_length_lt (hshort : text.length < pattern.length) :
    search wildcard pattern text = false := by
  have hnot : ∀ text : List α, text.length < pattern.length →
      matchesAt wildcard pattern text = false := by
    intro text hlt
    rw [Bool.eq_false_iff]
    intro hmatch
    exact absurd (length_le_of_matchesAt hmatch) (Nat.not_le_of_lt hlt)
  induction text with
  | nil => exact hnot [] hshort
  | cons c text ih =>
      rw [List.length_cons] at hshort
      rw [search, hnot (c :: text) hshort, ih (Nat.lt_of_succ_lt hshort)]
      rfl

/-- A text that lacks the first symbol of the expression is not matched. -/
theorem search_eq_false_of_not_mem (hc : c ≠ wildcard) (hnot : c ∉ text) :
    search wildcard (c :: pattern) text = false := by
  induction text with
  | nil => rfl
  | cons d text ih =>
      have hd : c ≠ d := fun h => hnot (h ▸ List.mem_cons_self)
      rw [search, matchesAt, ih fun h => hnot (List.mem_cons_of_mem d h)]
      simp [hc, hd]

theorem search_cons_self (hc : c ≠ wildcard) (hnot : c ∉ text) :
    search wildcard (c :: pattern) (c :: text) = matchesAt wildcard pattern text := by
  rw [search, search_eq_false_of_not_mem hc hnot, matchesAt]
  simp

end

/-! ## Ranges -/

section

variable {α : Type*} (starts ends : α → Bool)

/-- The lines outside the ranges; the flag says whether the file begins inside of one. -/
def deleteRange : Bool → List α → List α
  | _, [] => []
  | true, a :: rest => deleteRange (!ends a) rest
  | false, a :: rest => if starts a then deleteRange true rest else a :: deleteRange false rest

variable {starts ends} {a : α} {lines rest : List α}

theorem deleteRange_cons_of_starts (ha : starts a = true) :
    deleteRange starts ends false (a :: rest) = deleteRange starts ends true rest := by
  rw [deleteRange, if_pos ha]

theorem deleteRange_cons_of_not_starts (ha : starts a = false) :
    deleteRange starts ends false (a :: rest) = a :: deleteRange starts ends false rest := by
  rw [deleteRange, if_neg (by simp [ha])]

theorem deleteRange_cons_of_ends (ha : ends a = true) :
    deleteRange starts ends true (a :: rest) = deleteRange starts ends false rest := by
  rw [deleteRange, ha]
  rfl

theorem deleteRange_inside (hlines : ∀ a ∈ lines, ends a = false) :
    deleteRange starts ends true (lines ++ rest) = deleteRange starts ends true rest := by
  induction lines with
  | nil => rfl
  | cons a lines ih =>
      obtain ⟨ha, hrest⟩ := List.forall_mem_cons.mp hlines
      rw [List.cons_append, deleteRange, ha]
      exact ih hrest

theorem deleteRange_outside (hlines : ∀ a ∈ lines, starts a = false) :
    deleteRange starts ends false (lines ++ rest) =
      lines ++ deleteRange starts ends false rest := by
  induction lines with
  | nil => rfl
  | cons a lines ih =>
      obtain ⟨ha, hrest⟩ := List.forall_mem_cons.mp hlines
      rw [List.cons_append, deleteRange_cons_of_not_starts ha, ih hrest]
      rfl

theorem deleteRange_sublist (inside : Bool) (lines : List α) :
    (deleteRange starts ends inside lines).Sublist lines := by
  induction lines generalizing inside with
  | nil => exact List.Sublist.slnil
  | cons a lines ih =>
      cases inside with
      | true => exact (ih _).cons a
      | false =>
          rw [deleteRange]
          split
          · exact (ih true).cons a
          · exact (ih false).cons_cons a

variable (starts ends) in
theorem map_deleteRange {β : Type*} (f : β → α) (inside : Bool) (lines : List β) :
    (deleteRange (fun b => starts (f b)) (fun b => ends (f b)) inside lines).map f =
      deleteRange starts ends inside (lines.map f) := by
  induction lines generalizing inside with
  | nil => rfl
  | cons b lines ih =>
      cases inside with
      | true => exact ih _
      | false =>
          rw [List.map_cons, deleteRange, deleteRange]
          split
          · exact ih true
          · rw [List.map_cons, ih]

end

end LineEditing
