import Mathlib.Data.List.Basic
import Mathlib.Data.List.Induction
import Mathlib.Data.Nat.Notation

/-!
# Recognisers that start over on a mismatch

A recogniser counts how many letters of a pattern have been matched.  A letter
that does not continue the match is used up and the count starts from zero, so
the word read so far falls into attempts that failed at their last letter and
one attempt still under way.  An occurrence of the pattern that begins inside a
failed attempt is missed.
-/

namespace RestartingRecogniser

variable {α : Type*}

def FailedAttempt (pattern attempt : List α) : Prop :=
  ∃ n a, n ≤ pattern.length ∧ pattern[n]? ≠ some a ∧ attempt = pattern.take n ++ [a]

/-- A word that is used up by failed attempts. -/
def Spent (pattern word : List α) : Prop :=
  ∃ attempts : List (List α), (∀ attempt ∈ attempts, FailedAttempt pattern attempt) ∧
    attempts.flatten = word

variable {pattern word : List α} {n : ℕ}

theorem spent_nil : Spent pattern [] := ⟨[], by simp, rfl⟩

theorem Spent.concat {attempt : List α} (hspent : Spent pattern word)
    (hfailed : FailedAttempt pattern attempt) : Spent pattern (word ++ attempt) := by
  obtain ⟨attempts, hall, rfl⟩ := hspent
  refine ⟨attempts ++ [attempt], fun x hx => ?_, by simp⟩
  rcases List.mem_append.mp hx with hx | hx
  · exact hall x hx
  · rwa [List.mem_singleton.mp hx]

variable [DecidableEq α]

def advance (pattern : List α) (matched : ℕ) (a : α) : ℕ :=
  if pattern[matched]? = some a then matched + 1 else 0

def matchedAfter (pattern word : List α) : ℕ := word.foldl (advance pattern) 0

theorem matchedAfter_concat (a : α) :
    matchedAfter pattern (word ++ [a]) = advance pattern (matchedAfter pattern word) a := by
  simp [matchedAfter]

theorem foldl_take (hn : n ≤ pattern.length) :
    (pattern.take n).foldl (advance pattern) 0 = n := by
  induction n with
  | zero => rfl
  | succ n ih =>
      have hletter : pattern[n]? = some pattern[n] := List.getElem?_eq_getElem hn
      rw [List.take_add_one, hletter, Option.toList_some, List.foldl_append, ih (by omega)]
      simp [advance]

theorem matchedAfter_of_spent (hspent : Spent pattern word) :
    matchedAfter pattern word = 0 := by
  obtain ⟨attempts, hall, rfl⟩ := hspent
  unfold matchedAfter
  induction attempts with
  | nil => rfl
  | cons attempt rest ih =>
      obtain ⟨n, a, hn, hmiss, rfl⟩ := hall attempt List.mem_cons_self
      have hattempt : (pattern.take n ++ [a]).foldl (advance pattern) 0 = 0 := by
        rw [List.foldl_append, foldl_take hn]
        simp [advance, hmiss]
      rw [List.flatten_cons, List.foldl_append, hattempt]
      exact ih fun x hx => hall x (List.mem_cons_of_mem _ hx)

theorem exists_spent (pattern word : List α) :
    matchedAfter pattern word ≤ pattern.length ∧
      ∃ spent, Spent pattern spent ∧
        word = spent ++ pattern.take (matchedAfter pattern word) := by
  induction word using List.reverseRecOn with
  | nil => exact ⟨Nat.zero_le _, [], spent_nil, rfl⟩
  | append_singleton word a ih =>
      obtain ⟨hle, spent, hspent, hword⟩ := ih
      rw [matchedAfter_concat]
      generalize matchedAfter pattern word = matched at hle hword
      unfold advance
      split_ifs with hletter
      · have hlt : matched < pattern.length := (List.getElem?_eq_some_iff.mp hletter).1
        refine ⟨hlt, spent, hspent, ?_⟩
        rw [List.take_add_one, hletter, Option.toList_some, ← List.append_assoc, ← hword]
      · refine ⟨Nat.zero_le _, word ++ [a], ?_, by simp⟩
        rw [hword, List.append_assoc]
        exact hspent.concat ⟨matched, a, hle, hletter, rfl⟩

/-- The count is the part of the pattern that the failed attempts leave over. -/
theorem matchedAfter_eq_iff :
    matchedAfter pattern word = n ↔
      n ≤ pattern.length ∧ ∃ spent, Spent pattern spent ∧ word = spent ++ pattern.take n := by
  constructor
  · rintro rfl
    exact exists_spent pattern word
  · rintro ⟨hn, spent, hspent, rfl⟩
    have hzero := matchedAfter_of_spent hspent
    unfold matchedAfter at hzero ⊢
    rw [List.foldl_append, hzero, foldl_take hn]

/-- The whole pattern is matched exactly at its occurrences that no failed
attempt runs into. -/
theorem matchedAfter_eq_length_iff :
    matchedAfter pattern word = pattern.length ↔
      ∃ spent, Spent pattern spent ∧ word = spent ++ pattern := by
  rw [matchedAfter_eq_iff, List.take_length]
  simp

end RestartingRecogniser
