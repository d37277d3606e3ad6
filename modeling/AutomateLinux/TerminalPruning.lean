import AutomateLinux.TerminalStore

/-!
# Positions across a prune

`pruneHistory` deletes the oldest rows, renumbers the others from zero and
lowers the pointers by the same amount, one statement after the other.  Here the
table may have any non-negative indices, with gaps between them.
-/

namespace AutomateLinux

namespace TerminalTable

/-- What a prune that moves the surviving entries to new indices is to do. -/
structure PositionsKept (db db' : Database) (survivor : Int → Option Int) : Prop where
  paths : ∀ i ∈ db.terminal_history.keys, ∀ j, survivor i = some j →
    j ∈ db'.terminal_history.keys ∧ getHistory db' j = getHistory db i
  onto : ∀ j ∈ db'.terminal_history.keys,
    ∃ i ∈ db.terminal_history.keys, survivor i = some j
  order : ∀ i i' j j', i < i' → survivor i = some j → survivor i' = some j' → j < j'
  oldest : ∀ i i', i < i' → survivor i' = none → survivor i = none
  least : ∀ i ∈ db.terminal_history.keys, survivor i = none →
    db'.terminal_history.minKey? = some 0

/-- Where a pointer to the entry `i` points afterwards. -/
def pointsTo (db' : Database) (survivor : Int → Option Int) (i : Int) : Option Int :=
  match survivor i with
  | some j => some j
  | none => db'.terminal_history.minKey?

/-- The pointers of the sessions and the last-touched index, where they are set,
follow their entries. -/
structure PointersKept (db db' : Database) (survivor : Int → Option Int) : Prop where
  sessions : ∀ tty, db'.terminal_sessions tty =
    (db.terminal_sessions tty).bind (pointsTo db' survivor)
  unset : db.system_settings INDEX_OF_LAST_TOUCHED_DIR_KEY = none →
    db'.system_settings INDEX_OF_LAST_TOUCHED_DIR_KEY = none
  lastTouched : ∀ val i, db.system_settings INDEX_OF_LAST_TOUCHED_DIR_KEY = some val →
    stoi val = .ok i →
    ∃ val' j, db'.system_settings INDEX_OF_LAST_TOUCHED_DIR_KEY = some val' ∧
      stoi val' = .ok j ∧ pointsTo db' survivor i = some j

/-- The new index of an entry once those below `d` are gone. -/
def lowered (d i : Int) : Option Int := if d ≤ i then some (i - d) else none

variable {db : Database} {maxSize : Int}

theorem lowered_eq_some_iff {d i j : Int} : lowered d i = some j ↔ d ≤ i ∧ j = i - d := by
  unfold lowered
  split <;> simp [*, eq_comm]

theorem lowered_eq_none_iff {d i : Int} : lowered d i = none ↔ i < d := by
  unfold lowered
  split <;> simp <;> omega

theorem lowered_lt_lowered {d i i' j j' : Int} (hlt : i < i') (hj : lowered d i = some j)
    (hj' : lowered d i' = some j') : j < j' := by
  have hi := lowered_eq_some_iff.mp hj
  have hi' := lowered_eq_some_iff.mp hj'
  omega

theorem lowered_eq_none_of_lt {d i i' : Int} (hlt : i < i') (hnone : lowered d i' = none) :
    lowered d i = none := by
  have hi' := lowered_eq_none_iff.mp hnone
  exact lowered_eq_none_iff.mpr (by omega)

theorem le_INT_MAX_of_stoi {val : String} {i : Int} (hval : stoi val = .ok i) : i ≤ INT_MAX := by
  unfold stoi at hval
  split at hval
  · simp at hval
  · split at hval
    · rename_i hrange
      obtain rfl := Except.ok.inj hval
      exact hrange.2
    · simp at hval

theorem stoi_to_string_of_nonneg {i : Int} (hnonneg : 0 ≤ i) (hle : i ≤ INT_MAX) :
    stoi (to_string i) = .ok i := by
  obtain ⟨k, rfl⟩ := Int.eq_ofNat_of_zero_le hnonneg
  exact stoi_to_string hle

theorem stoi_to_string_max {val : String} {i : Int} (hval : stoi val = .ok i) {d : Int}
    (hd : 0 ≤ d) : stoi (to_string (max 0 (i - d))) = .ok (max 0 (i - d)) := by
  have hmax := le_INT_MAX_of_stoi hval
  refine stoi_to_string_of_nonneg (le_max_left 0 (i - d)) ?_
  unfold INT_MAX at hmax ⊢
  omega

theorem pruneBelow_settings {cutoff newMin : Int} (hpos : 0 < newMin)
    (hmin : (db.terminal_history.filterKeys fun index =>
      decide (cutoff ≤ index)).minKey? = some newMin) :
    (pruneBelow (fun _ => true) db cutoff).system_settings =
      (rebaseLastTouched (fun _ => true) db newMin).system_settings := by
  have hnot : ¬ newMin ≤ 0 := by omega
  simp only [pruneBelow, Bool.not_true, Bool.false_eq_true, if_false, hmin,
    Option.getD_some, hnot]
  exact rebaseLastTouched_settings_congr _ (by rfl) newMin

theorem positionsKept_of_same (hindex : ∀ i ∈ db.terminal_history.keys, 0 ≤ i) :
    PositionsKept db db (lowered 0) where
  paths := by
    intro i hi j hj
    obtain ⟨-, rfl⟩ := lowered_eq_some_iff.mp hj
    rw [sub_zero]
    exact ⟨hi, rfl⟩
  onto := fun j hj => ⟨j, hj, lowered_eq_some_iff.mpr ⟨hindex j hj, (sub_zero j).symm⟩⟩
  order := fun _ _ _ _ => lowered_lt_lowered
  oldest := fun _ _ => lowered_eq_none_of_lt
  least := by
    intro i hi hnone
    have hneg := lowered_eq_none_iff.mp hnone
    exact absurd (hindex i hi) (by omega)

theorem pointersKept_of_same (hindex : ∀ i ∈ db.terminal_history.keys, 0 ≤ i)
    (hsession : ∀ tty p, db.terminal_sessions tty = some p → p ∈ db.terminal_history.keys)
    (htouched : ∀ val, db.system_settings INDEX_OF_LAST_TOUCHED_DIR_KEY = some val →
      ∃ i ∈ db.terminal_history.keys, stoi val = .ok i) :
    PointersKept db db (lowered 0) := by
  have hpoints : ∀ i ∈ db.terminal_history.keys, pointsTo db (lowered 0) i = some i := by
    intro i hi
    unfold pointsTo
    rw [lowered_eq_some_iff.mpr ⟨hindex i hi, (sub_zero i).symm⟩]
  constructor
  · intro tty
    cases hp : db.terminal_sessions tty with
    | none => rfl
    | some p => exact (hpoints p (hsession tty p hp)).symm
  · exact fun hunset => hunset
  · intro val i hset hval
    obtain ⟨i', hi', hval'⟩ := htouched val hset
    obtain rfl : i' = i := Except.ok.inj (hval'.symm.trans hval)
    exact ⟨val, i', hset, hval, hpoints i' hi'⟩

section

variable {db' : Database} {d cutoff : Int}

theorem mem_keys_of_prunedBy (hpruned : PrunedBy db db' d) {j : Int} :
    j ∈ db'.terminal_history.keys ↔ 0 ≤ j ∧ j + d ∈ db.terminal_history.keys := by
  rw [OrderedMap.mem_keys_iff, OrderedMap.mem_keys_iff, hpruned.rows]
  split <;> simp [*]

theorem minKey_of_prunedBy (hpruned : PrunedBy db db' d)
    (hmem : d ∈ db.terminal_history.keys) : db'.terminal_history.minKey? = some 0 := by
  rw [OrderedMap.minKey?_eq_some_iff, mem_keys_of_prunedBy hpruned, zero_add]
  exact ⟨⟨le_rfl, hmem⟩, fun j hj => ((mem_keys_of_prunedBy hpruned).mp hj).1⟩

theorem positionsKept_of_prunedBy (hpruned : PrunedBy db db' d)
    (hmem : d ∈ db.terminal_history.keys) : PositionsKept db db' (lowered d) where
  paths := by
    intro i hi j hj
    obtain ⟨hle, rfl⟩ := lowered_eq_some_iff.mp hj
    have hnonneg : 0 ≤ i - d := by omega
    constructor
    · rw [mem_keys_of_prunedBy hpruned, sub_add_cancel]
      exact ⟨hnonneg, hi⟩
    · unfold getHistory
      rw [hpruned.rows, if_pos hnonneg, sub_add_cancel]
  onto := by
    intro j hj
    obtain ⟨hnonneg, hold⟩ := (mem_keys_of_prunedBy hpruned).mp hj
    exact ⟨j + d, hold, lowered_eq_some_iff.mpr ⟨by omega, by omega⟩⟩
  order := fun _ _ _ _ => lowered_lt_lowered
  oldest := fun _ _ => lowered_eq_none_of_lt
  least := fun _ _ _ => minKey_of_prunedBy hpruned hmem

theorem pointsTo_lowered (hpruned : PrunedBy db db' d)
    (hmem : d ∈ db.terminal_history.keys) (i : Int) :
    pointsTo db' (lowered d) i = some (max 0 (i - d)) := by
  unfold pointsTo
  by_cases hle : d ≤ i
  · rw [lowered_eq_some_iff.mpr ⟨hle, rfl⟩, max_eq_right (by omega)]
  · rw [lowered_eq_none_iff.mpr (by omega), max_eq_left (by omega)]
    exact minKey_of_prunedBy hpruned hmem

theorem pointersKept_of_prunedBy (hpruned : PrunedBy db db' d)
    (hmem : d ∈ db.terminal_history.keys)
    (hsettings : db'.system_settings =
      (rebaseLastTouched (fun _ => true) db d).system_settings) :
    PointersKept db db' (lowered d) where
  sessions := by
    intro tty
    rw [hpruned.sessions]
    cases db.terminal_sessions tty with
    | none => rfl
    | some p => exact (pointsTo_lowered hpruned hmem p).symm
  unset := by
    intro hunset
    rw [hsettings, rebaseLastTouched, hunset]
    exact hunset
  lastTouched := by
    intro val i hset hval
    refine ⟨_, _, ?_, stoi_to_string_max hval hpruned.nonneg, pointsTo_lowered hpruned hmem i⟩
    rw [hsettings, rebaseLastTouched, hset]
    simp only [hval, if_true, Function.update_self]

end

/-- Whatever the gaps in the table: after a prune in which every statement
succeeds, the entries left keep their paths and their order, and every pointer
follows its entry, or points at the least entry left when its own is gone. -/
theorem pruneHistory_keepsPositions (hindex : ∀ i ∈ db.terminal_history.keys, 0 ≤ i)
    (hsession : ∀ tty p, db.terminal_sessions tty = some p → p ∈ db.terminal_history.keys)
    (htouched : ∀ val, db.system_settings INDEX_OF_LAST_TOUCHED_DIR_KEY = some val →
      ∃ i ∈ db.terminal_history.keys, stoi val = .ok i)
    (hmax : 1 ≤ maxSize) :
    ∃ survivor,
      PositionsKept db (pruneHistory (fun _ => true) db maxSize) survivor ∧
        PointersKept db (pruneHistory (fun _ => true) db maxSize) survivor := by
  have hpos : 0 < maxSize := by omega
  have hpruned := prunedBy_pruneHistory hindex
    (fun tty p hp => hindex p (hsession tty p hp)) hpos
  refine ⟨lowered (pruneOffset db maxSize), ?_⟩
  rcases pruneHistory_cases hindex hpos with ⟨hsame, hoffset⟩ | ⟨cutoff, hcutoff, hmin, heq⟩
  · rw [hsame, hoffset]
    exact ⟨positionsKept_of_same hindex, pointersKept_of_same hindex hsession htouched⟩
  · have hleast := (OrderedMap.minKey?_eq_some_iff.mp hmin).1
    rw [OrderedMap.keys_filterKeys, List.mem_filter, decide_eq_true_iff] at hleast
    have hsettings := pruneBelow_settings (by omega) hmin
    rw [← heq] at hsettings
    exact ⟨positionsKept_of_prunedBy hpruned hleast.1,
      pointersKept_of_prunedBy hpruned hleast.1 hsettings⟩

/-- Three entries with gaps; one session is at the oldest, another at the newest. -/
def gappedHistory : Database where
  terminal_history :=
    ((OrderedMap.empty.insert 3 "/a/").insert 5 "/b/").insert 9 "/c/"
  terminal_sessions := fun tty => if tty = 1 then some 3 else if tty = 2 then some 9 else none
  system_settings := fun key =>
    if key = INDEX_OF_LAST_TOUCHED_DIR_KEY then some "5" else none

theorem gappedHistory_keepsPositions :
    ∃ survivor,
      PositionsKept gappedHistory (pruneHistory (fun _ => true) gappedHistory 2) survivor ∧
        PointersKept gappedHistory (pruneHistory (fun _ => true) gappedHistory 2) survivor := by
  apply pruneHistory_keepsPositions
  · decide
  · intro tty p hp
    have hcases : p = 3 ∨ p = 9 := by
      simp only [gappedHistory] at hp
      split_ifs at hp <;> simp_all
    rcases hcases with rfl | rfl <;> decide
  · intro val hset
    obtain rfl : "5" = val := Option.some.inj hset
    exact ⟨5, by decide, by rfl⟩
  · decide

end TerminalTable

end AutomateLinux
