import AutomateLinux.TerminalIsolation
import AutomateLinux.TerminalPruning

/-!
# Which rows a prune keeps

`pruneHistory` finds its cutoff by counting on from the least index, as if the
rows were numbered without gaps.  Where some of the oldest indices are missing
the cutoff comes too low, and more rows are kept than it was asked to keep.
-/

namespace OrderedMap

variable {ν : Type*}

/-- Dropping the rows below a bound drops as many rows as have smaller keys. -/
theorem filter_ge_eq_drop {rows : List (Int × ν)}
    (hsorted : (rows.map Prod.fst).Pairwise (· < ·)) (bound : Int) :
    (rows.filter fun row => decide (bound ≤ row.1)) =
      rows.drop ((rows.map Prod.fst).filter fun key => decide (key < bound)).length := by
  induction rows with
  | nil => rfl
  | cons row rest ih =>
      obtain ⟨hleast, hrest⟩ := List.pairwise_cons.mp hsorted
      by_cases hlt : row.1 < bound
      · rw [List.filter_cons_of_neg (by simpa using hlt), List.map_cons,
          List.filter_cons_of_pos (by simpa using hlt), List.length_cons, List.drop_succ_cons]
        exact ih hrest
      · have hall : ∀ row' ∈ row :: rest, bound ≤ row'.1 := by
          intro row' hrow'
          rcases List.mem_cons.mp hrow' with rfl | hrow'
          · omega
          · have hafter := hleast row'.1 (List.mem_map.mpr ⟨row', hrow', rfl⟩)
            omega
        have hnone : (((row :: rest).map Prod.fst).filter fun key => decide (key < bound)) =
            [] := by
          refine List.filter_eq_nil_iff.mpr fun key hkey => ?_
          obtain ⟨row', hrow', rfl⟩ := List.mem_map.mp hkey
          simpa using hall row' hrow'
        rw [hnone, List.length_nil, List.drop_zero, List.filter_eq_self]
        exact fun row' hrow' => decide_eq_true (hall row' hrow')

/-- A bound `n` above the least key has `n` keys below it exactly when none of the
integers in between is missing. -/
theorem length_keys_lt_eq_iff {m : OrderedMap Int ν} {low : Int} {n : ℕ}
    (hlow : ∀ key ∈ m.keys, low ≤ key) :
    (m.keys.filter fun key => decide (key < low + n)).length = n ↔
      ∀ i, low ≤ i → i < low + n → i ∈ m.keys := by
  have hnodup : (m.keys.filter fun key => decide (key < low + n)).Nodup :=
    (m.sorted.imp fun hlt => hlt.ne).filter _
  have hsub : (m.keys.filter fun key => decide (key < low + n)).toFinset ⊆
      Finset.Ico low (low + n) := by
    intro key hkey
    obtain ⟨hmem, hlt⟩ := List.mem_filter.mp (List.mem_toFinset.mp hkey)
    exact Finset.mem_Ico.mpr ⟨hlow key hmem, of_decide_eq_true hlt⟩
  have hcard : (Finset.Ico low (low + n)).card = n := by
    rw [Int.card_Ico]
    omega
  rw [← List.toFinset_card_of_nodup hnodup]
  constructor
  · intro hlength i hle hlt
    have heq := Finset.eq_of_subset_of_card_le hsub (hcard.trans hlength.symm).le
    have hmem : i ∈ (m.keys.filter fun key => decide (key < low + n)).toFinset := by
      rw [heq]
      exact Finset.mem_Ico.mpr ⟨hle, hlt⟩
    exact (List.mem_filter.mp (List.mem_toFinset.mp hmem)).1
  · intro hall
    have hsup : Finset.Ico low (low + n) ⊆
        (m.keys.filter fun key => decide (key < low + n)).toFinset := by
      intro i hi
      obtain ⟨hle, hlt⟩ := Finset.mem_Ico.mp hi
      rw [List.mem_toFinset, List.mem_filter]
      exact ⟨hall i hle hlt, decide_eq_true hlt⟩
    rw [hsub.antisymm hsup, hcard]

end OrderedMap

namespace AutomateLinux

open TerminalTable SettingsTable

namespace TerminalTable

/-- The rows left are the newest `maxSize`, or all when there are no more, with every
index lowered by the same amount. -/
def KeepsNewest (db db' : Database) (maxSize : Int) : Prop :=
  ∃ d : Int, db'.terminal_history.entries =
    (db.terminal_history.entries.drop (db.terminal_history.size - maxSize.toNat)).map
      fun row => (row.1 - d, row.2)

/-- Counting on from the least index, none of the indices of the rows that are too many
is missing. -/
def OldestConsecutive (db : Database) (maxSize : Int) : Prop :=
  ∀ low, db.terminal_history.minKey? = some low →
    ∀ i, low ≤ i → i < low + (db.terminal_history.size - maxSize) →
      i ∈ db.terminal_history.keys

variable {db : Database} {maxSize : Int}

theorem entries_pruneBelow {cutoff newMin : Int} (hpos : 0 < newMin)
    (hmin : (db.terminal_history.filterKeys fun index =>
      decide (cutoff ≤ index)).minKey? = some newMin) :
    (pruneBelow (fun _ => true) db cutoff).terminal_history.entries =
      (db.terminal_history.entries.filter fun row => decide (cutoff ≤ row.1)).map
        fun row => (row.1 - newMin, row.2) := by
  have hnot : ¬ newMin ≤ 0 := by omega
  simp only [pruneBelow, Bool.not_true, Bool.false_eq_true, if_false, hmin,
    Option.getD_some, hnot]
  rw [rebaseLastTouched_history]
  rfl

theorem shifted_eq_shifted_iff {rows : List (Int × String)} {c k : ℕ} (hc : c ≤ rows.length)
    (hk : k ≤ rows.length) {newMin : Int} :
    (∃ d : Int, ((rows.drop c).map fun row => (row.1 - newMin, row.2)) =
        (rows.drop k).map fun row => (row.1 - d, row.2)) ↔ c = k := by
  constructor
  · rintro ⟨d, heq⟩
    have hlength := congrArg List.length heq
    simp only [List.length_map, List.length_drop] at hlength
    omega
  · rintro rfl
    exact ⟨newMin, rfl⟩

theorem pruneHistory_keepsNewest_iff_of_nonneg
    (hindex : ∀ i ∈ db.terminal_history.keys, 0 ≤ i) (hmax : 1 ≤ maxSize) :
    KeepsNewest db (pruneHistory (fun _ => true) db maxSize) maxSize ↔
      OldestConsecutive db maxSize := by
  by_cases hle : (db.terminal_history.size : Int) ≤ maxSize
  · have hsame : pruneHistory (fun _ => true) db maxSize = db := by
      simp only [pruneHistory, Bool.not_true, Bool.false_eq_true, if_false, if_pos hle]
    have hall : db.terminal_history.size - maxSize.toNat = 0 := by omega
    refine iff_of_true ⟨0, ?_⟩ fun low _ i hlow hlt => by omega
    rw [hsame, hall, List.drop_zero]
    simp
  · obtain ⟨hcutoff, hmin⟩ := minKey_aboveCutoff hindex (by omega) (not_le.mp hle)
    have hoffset := (OrderedMap.minKey?_eq_some_iff.mp hmin).1
    rw [OrderedMap.keys_filterKeys, List.mem_filter, decide_eq_true_iff] at hoffset
    have hprune : pruneHistory (fun _ => true) db maxSize = pruneBelow (fun _ => true) db
        (db.terminal_history.minKey?.getD 0 + (db.terminal_history.size - maxSize)) := by
      simp only [pruneHistory, Bool.not_true, Bool.false_eq_true, if_false, if_neg hle]
    obtain ⟨low, hlow⟩ : ∃ low, db.terminal_history.minKey? = some low := by
      cases hkey : db.terminal_history.minKey? with
      | some low => exact ⟨low, rfl⟩
      | none =>
          rw [OrderedMap.minKey?_eq_none_iff.mp hkey] at hoffset
          exact absurd hoffset.1 List.not_mem_nil
    -- the number of rows that are too many
    obtain ⟨k, hk⟩ : ∃ k : ℕ, (k : Int) = db.terminal_history.size - maxSize :=
      ⟨(db.terminal_history.size - maxSize).toNat, by omega⟩
    have hdrop : db.terminal_history.size - maxSize.toNat = k := by omega
    have hentries := entries_pruneBelow (by omega) hmin
    rw [← hprune, hlow, Option.getD_some, ← hk,
      OrderedMap.filter_ge_eq_drop db.terminal_history.sorted] at hentries
    unfold KeepsNewest
    rw [hentries, hdrop, shifted_eq_shifted_iff]
    · have hcount := OrderedMap.length_keys_lt_eq_iff (n := k)
        (OrderedMap.minKey?_eq_some_iff.mp hlow).2
      refine hcount.trans ?_
      unfold OldestConsecutive
      simp only [hlow, Option.some.injEq, forall_eq', ← hk]
    · exact (List.length_filter_le _ _).trans (List.length_map _).le
    · show k ≤ db.terminal_history.size
      omega

/-- Whatever commands, restarts and emptyings of the table led to it: a prune keeps
exactly the newest rows if and only if the oldest are numbered without gaps. -/
theorem pruneHistory_keepsNewest_iff (inputs : List Terminal.StoreInput) (maxSize : Int)
    (hmax : 1 ≤ maxSize) :
    KeepsNewest (Terminal.storeRun TerminalState.initial inputs).db
        (pruneHistory (fun _ => true) (Terminal.storeRun TerminalState.initial inputs).db
          maxSize) maxSize ↔
      OldestConsecutive (Terminal.storeRun TerminalState.initial inputs).db maxSize :=
  pruneHistory_keepsNewest_iff_of_nonneg
    (Terminal.storeRun_recorded (s := TerminalState.initial) Recorded.empty inputs).index hmax

open Terminal

/-- Two terminals keep their pointers while the table is emptied, and write to it
again: the second leaves a row far below the others. -/
def staleLowPointer : List StoreInput :=
  [.terminal (.command .openedTty (ttyCommand 1) (surroundingsWith [defaultDir])),
    .terminal (.command .updateDirHistory (pwdCommand 1 "/a") (surroundingsWith [])),
    .terminal (.command .updateDirHistory (pwdCommand 1 "/b") (surroundingsWith [])),
    .terminal (.command .openedTty (ttyCommand 2) (surroundingsWith [defaultDir])),
    .emptyDirHistoryTable,
    .terminal (.command .openedTty (ttyCommand 1) (surroundingsWith [defaultDir])),
    .terminal (.command .updateDirHistory (pwdCommand 1 "/c") (surroundingsWith [])),
    .terminal (.command .openedTty (ttyCommand 2) (surroundingsWith [defaultDir]))]

theorem staleLowPointer_keepsNewest :
    KeepsNewest (storeRun TerminalState.initial staleLowPointer).db
      (pruneHistory (fun _ => true) (storeRun TerminalState.initial staleLowPointer).db 2) 2 := by
  refine (pruneHistory_keepsNewest_iff staleLowPointer 2 (by decide)).mpr ?_
  intro low hlow i hle hlt
  have hmin : (storeRun TerminalState.initial staleLowPointer).db.terminal_history.minKey? =
      some 0 := by decide +kernel
  have hsize : (storeRun TerminalState.initial staleLowPointer).db.terminal_history.size = 3 := by
    decide +kernel
  obtain rfl : (0 : Int) = low := Option.some.inj (hmin.symm.trans hlow)
  obtain rfl : i = 0 := by omega
  decide +kernel

theorem staleLowPointer_not_keepsNewest :
    ¬ ∀ (inputs : List StoreInput) (maxSize : Int), 1 ≤ maxSize →
      KeepsNewest (storeRun TerminalState.initial inputs).db
        (pruneHistory (fun _ => true) (storeRun TerminalState.initial inputs).db maxSize)
        maxSize := by
  intro hall
  obtain ⟨d, hentries⟩ := hall staleLowPointer 1 (by decide)
  have hlength := congrArg List.length hentries
  rw [List.length_map] at hlength
  revert hlength
  decide +kernel

end TerminalTable

end AutomateLinux
