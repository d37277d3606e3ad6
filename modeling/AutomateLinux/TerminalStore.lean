import AutomateLinux.TerminalInvariant

/-!
# Every history the daemon can reach

`emptyDirHistoryTable` empties the history without touching the pointers, and
the settings commands may write anything into the last-touched index.  With
them in the runs the indices have gaps and a pointer may point at nothing.
What is left is weaker than density and is all that the repairs of the
constructor and of `_openedTty` can rely on: paths are stored in the form
`standardizePath` gives them, none is the root, and no index is negative.
-/

namespace AutomateLinux

open TerminalTable SettingsTable

namespace Terminal

/-- Everything that writes to the tables of the directory history. -/
inductive StoreInput
  | terminal (input : Input)
  | emptyDirHistoryTable
  | upsertEntry (key value : String)
  | deleteEntry (key : String)

/-- `MySQLManager::emptyTable("terminal_history")`. -/
def emptyDirHistoryTable (db : Database) : Database :=
  { db with terminal_history := OrderedMap.empty }

def deleteSetting (db : Database) (key : String) : Database :=
  { db with system_settings := Function.update db.system_settings key none }

def storeStep (s : TerminalState) : StoreInput → TerminalState
  | .terminal input => step s input
  | .emptyDirHistoryTable => { s with db := Terminal.emptyDirHistoryTable s.db }
  | .upsertEntry key value => { s with db := setSetting s.db key value }
  | .deleteEntry key => { s with db := deleteSetting s.db key }

def storeRun (s : TerminalState) (inputs : List StoreInput) : TerminalState :=
  inputs.foldl storeStep s

/-- A path in the form in which paths are recorded. -/
structure IsStandard (path : String) : Prop where
  fixed : standardizePath path = path
  ne_root : path ≠ "/"

theorem standardizePath_fixed (path : String) :
    standardizePath (standardizePath path) = standardizePath path := by
  unfold standardizePath
  by_cases hempty : path = ""
  · rw [if_pos hempty]
    decide
  · rw [if_neg hempty]
    by_cases hslash : path.toList.getLast? = some '/'
    · rw [if_pos hslash, if_neg hempty, if_pos hslash]
    · have hlast : (path ++ "/").toList.getLast? = some '/' := by simp
      have hne : path ++ "/" ≠ "" := by
        intro heq
        rw [heq] at hlast
        simp at hlast
      rw [if_neg hslash, if_neg hne, if_pos hlast]

theorem isStandard_standardizePath {path : String}
    (hroot : standardizePath path ≠ "/") : IsStandard (standardizePath path) :=
  ⟨standardizePath_fixed path, hroot⟩

theorem isStandard_defaultDir : IsStandard defaultDir :=
  ⟨by decide, by decide⟩

end Terminal

/-- What holds of the tables after any run. -/
structure Recorded (db : Database) : Prop where
  path : ∀ i path, db.terminal_history.get? i = some path → Terminal.IsStandard path
  index : ∀ i ∈ db.terminal_history.keys, 0 ≤ i
  session : ∀ tty p, db.terminal_sessions tty = some p → 0 ≤ p

theorem Recorded.empty : Recorded Database.empty := by
  constructor <;> simp [Database.empty]

section

variable {db : Database}

/-! ## The table operations -/

theorem Recorded.maxIndex_ge (hrec : Recorded db) : -1 ≤ getMaxHistoryIndex db := by
  unfold getMaxHistoryIndex
  cases hmax : db.terminal_history.maxKey? with
  | none => exact le_rfl
  | some k =>
      have hmem := (OrderedMap.maxKey?_eq_some hmax).1
      have hnonneg := hrec.index k hmem
      simp only [Option.getD_some]
      omega

theorem le_maxIndex {i : Int} (hmem : i ∈ db.terminal_history.keys) :
    i ≤ getMaxHistoryIndex db := by
  unfold getMaxHistoryIndex
  cases hmax : db.terminal_history.maxKey? with
  | none =>
      rw [OrderedMap.maxKey?_eq_none_iff.mp hmax] at hmem
      exact absurd hmem List.not_mem_nil
  | some k => exact (OrderedMap.maxKey?_eq_some hmax).2 i hmem

/-- Reading a row is reading its standardized path; a missing row is the root. -/
theorem Recorded.standardizePath_getHistory (hrec : Recorded db) {i : Int}
    (hroot : Terminal.standardizePath (getHistory db i) ≠ "/") :
    db.terminal_history.get? i = some (Terminal.standardizePath (getHistory db i)) := by
  unfold getHistory at *
  cases hget : db.terminal_history.get? i with
  | none =>
      rw [hget] at hroot
      exact absurd (by decide) hroot
  | some path => rw [Option.getD_some, (hrec.path i path hget).fixed]

theorem Recorded.upsertHistory (hrec : Recorded db) {i : Int} {path : String}
    (hnonneg : 0 ≤ i) (hpath : Terminal.IsStandard path) :
    Recorded (upsertHistory db i path) where
  path := fun j stored hget => by
    simp only [TerminalTable.upsertHistory, OrderedMap.get?_insert] at hget
    split at hget
    · obtain rfl := Option.some.inj hget
      exact hpath
    · exact hrec.path j stored hget
  index := fun j hmem => by
    rcases OrderedMap.mem_keys_insert.mp hmem with rfl | hmem
    · exact hnonneg
    · exact hrec.index j hmem
  session := hrec.session

theorem Recorded.setSessionPointer (hrec : Recorded db) (tty : Int) {i : Int}
    (hnonneg : 0 ≤ i) : Recorded (setSessionPointer db tty i) where
  path := hrec.path
  index := hrec.index
  session := fun tty' p hp => by
    by_cases htty : tty' = tty
    · subst htty
      obtain rfl : i = p := by simpa [TerminalTable.setSessionPointer] using hp
      exact hnonneg
    · refine hrec.session tty' p ?_
      simpa [TerminalTable.setSessionPointer, htty] using hp

theorem Recorded.deleteSession (hrec : Recorded db) (tty : Int) :
    Recorded (deleteSession db tty) where
  path := hrec.path
  index := hrec.index
  session := fun tty' p hp => by
    by_cases htty : tty' = tty
    · subst htty
      simp [TerminalTable.deleteSession] at hp
    · refine hrec.session tty' p ?_
      simpa [TerminalTable.deleteSession, htty] using hp

theorem Recorded.congr {db' : Database} (hrec : Recorded db)
    (hrows : db'.terminal_history = db.terminal_history)
    (hsessions : db'.terminal_sessions = db.terminal_sessions) : Recorded db' where
  path := fun i path hget => hrec.path i path (hrows ▸ hget)
  index := fun i hmem => hrec.index i (hrows ▸ hmem)
  session := fun tty p hp => hrec.session tty p (hsessions ▸ hp)

theorem Recorded.setSetting (hrec : Recorded db) (key value : String) :
    Recorded (setSetting db key value) :=
  hrec.congr rfl rfl

theorem Recorded.emptyDirHistoryTable (hrec : Recorded db) :
    Recorded (Terminal.emptyDirHistoryTable db) where
  path := fun i path hget => by simp [Terminal.emptyDirHistoryTable] at hget
  index := fun i hmem => by simp [Terminal.emptyDirHistoryTable] at hmem
  session := hrec.session

end

/-! ## Pruning -/

/-- By how much pruning to `maxSize` rows lowers every index. -/
def TerminalTable.pruneOffset (db : Database) (maxSize : Int) : Int :=
  let rows := db.terminal_history
  if (rows.size : Int) ≤ maxSize then 0
  else
    let cutoff := rows.minKey?.getD 0 + (rows.size - maxSize)
    (rows.filterKeys fun index => decide (cutoff ≤ index)).minKey?.getD 0

/-- The rows below `d` are gone, the others and the pointers are lowered by it. -/
structure PrunedBy (db db' : Database) (d : Int) : Prop where
  nonneg : 0 ≤ d
  newest : d ≤ max 0 (getMaxHistoryIndex db)
  rows : ∀ i, db'.terminal_history.get? i =
    if 0 ≤ i then db.terminal_history.get? (i + d) else none
  sessions : ∀ tty, db'.terminal_sessions tty =
    (db.terminal_sessions tty).map fun p => max 0 (p - d)

section

variable {db db' : Database} {d : Int}

theorem get?_eq_none_of_neg (hindex : ∀ i ∈ db.terminal_history.keys, 0 ≤ i) {i : Int}
    (hneg : i < 0) : db.terminal_history.get? i = none := by
  cases hget : db.terminal_history.get? i with
  | none => rfl
  | some path =>
      have hnonneg := hindex i (OrderedMap.mem_keys_iff.mpr ⟨path, hget⟩)
      omega

theorem prunedBy_zero (hindex : ∀ i ∈ db.terminal_history.keys, 0 ≤ i)
    (hsession : ∀ tty p, db.terminal_sessions tty = some p → 0 ≤ p) : PrunedBy db db 0 where
  nonneg := le_rfl
  newest := le_max_left _ _
  rows := fun i => by
    split
    · rw [add_zero]
    · exact get?_eq_none_of_neg hindex (by omega)
  sessions := fun tty => by
    cases hp : db.terminal_sessions tty with
    | none => rfl
    | some p =>
        have hnonneg := hsession tty p hp
        simp [max_eq_right hnonneg]

theorem Recorded.prunedBy_zero (hrec : Recorded db) : PrunedBy db db 0 :=
  AutomateLinux.prunedBy_zero hrec.index hrec.session

theorem PrunedBy.recorded (hpruned : PrunedBy db db' d) (hrec : Recorded db) :
    Recorded db' where
  path := fun i path hget => by
    rw [hpruned.rows] at hget
    split at hget
    · exact hrec.path _ path hget
    · contradiction
  index := fun i hmem => by
    obtain ⟨path, hget⟩ := OrderedMap.mem_keys_iff.mp hmem
    rw [hpruned.rows] at hget
    split at hget
    · assumption
    · contradiction
  session := fun tty p hp => by
    rw [hpruned.sessions] at hp
    obtain ⟨q, -, rfl⟩ := Option.map_eq_some_iff.mp hp
    exact le_max_left _ _

theorem prunedBy_pruneBelow {cutoff newMin : Int}
    (hpos : 0 < cutoff)
    (hmin : (db.terminal_history.filterKeys fun index =>
      decide (cutoff ≤ index)).minKey? = some newMin) :
    PrunedBy db (pruneBelow (fun _ => true) db cutoff) newMin := by
  obtain ⟨hmem, hleast⟩ := OrderedMap.minKey?_eq_some_iff.mp hmin
  rw [OrderedMap.keys_filterKeys, List.mem_filter, decide_eq_true_iff] at hmem
  have hnot : ¬ newMin ≤ 0 := by omega
  simp only [pruneBelow, Bool.not_true, Bool.false_eq_true, if_false, hmin,
    Option.getD_some, hnot]
  constructor
  · omega
  · exact le_max_of_le_right (le_maxIndex hmem.1)
  · intro i
    rw [rebaseLastTouched_history]
    have hshift := OrderedMap.get?_mapKeys
      (db.terminal_history.filterKeys fun index => decide (cutoff ≤ index))
      (strictMono_rebase newMin) (i + newMin)
    rw [add_sub_cancel_right, OrderedMap.get?_filterKeys] at hshift
    refine hshift.trans ?_
    by_cases hi : 0 ≤ i
    · rw [if_pos hi, if_pos (by simp only [decide_eq_true_iff]; omega)]
    · rw [if_neg hi]
      split
      · rename_i hcut
        cases hget : db.terminal_history.get? (i + newMin) with
        | none => rfl
        | some path =>
            -- a row between the cutoff and the least row left
            have hle := hleast (i + newMin) (by
              rw [OrderedMap.keys_filterKeys, List.mem_filter]
              exact ⟨OrderedMap.mem_keys_iff.mpr ⟨path, hget⟩, hcut⟩)
            omega
      · rfl
  · intro tty
    rw [rebaseLastTouched_sessions]
    rfl

/-- When there are more rows than are kept, the cutoff leaves some and drops some. -/
theorem minKey_aboveCutoff (hindex : ∀ i ∈ db.terminal_history.keys, 0 ≤ i) {maxSize : Int}
    (hpos : 0 < maxSize) (hlt : maxSize < db.terminal_history.size) :
    0 < db.terminal_history.minKey?.getD 0 + (db.terminal_history.size - maxSize) ∧
      (db.terminal_history.filterKeys fun index => decide
        (db.terminal_history.minKey?.getD 0 + (db.terminal_history.size - maxSize) ≤
          index)).minKey? = some (pruneOffset db maxSize) := by
  have hsize : (db.terminal_history.keys.length : Int) = db.terminal_history.size := by
    rw [OrderedMap.length_keys]
  simp only [pruneOffset, if_neg (not_le.mpr hlt)]
  cases hmin : db.terminal_history.minKey? with
  | none =>
      rw [OrderedMap.minKey?_eq_none_iff.mp hmin, List.length_nil] at hsize
      omega
  | some low =>
      obtain ⟨hmem, hleast⟩ := OrderedMap.minKey?_eq_some_iff.mp hmin
      have hlow := hindex low hmem
      rw [Option.getD_some]
      obtain ⟨k, hk, hcut⟩ := OrderedMap.exists_key_ge
        (low + (db.terminal_history.size - maxSize)) hleast (by omega) (by omega)
      cases hkept : (db.terminal_history.filterKeys fun index => decide
          (low + (db.terminal_history.size - maxSize) ≤ index)).minKey? with
      | none =>
          have hnil := OrderedMap.minKey?_eq_none_iff.mp hkept
          rw [OrderedMap.keys_filterKeys, List.filter_eq_nil_iff] at hnil
          exact absurd (decide_eq_true hcut) (hnil k hk)
      | some newMin => exact ⟨by omega, rfl⟩

/-- Either every row is kept, or rows are deleted below a cutoff that leaves some. -/
theorem pruneHistory_cases (hindex : ∀ i ∈ db.terminal_history.keys, 0 ≤ i) {maxSize : Int}
    (hpos : 0 < maxSize) :
    (pruneHistory (fun _ => true) db maxSize = db ∧ pruneOffset db maxSize = 0) ∨
      ∃ cutoff, 0 < cutoff ∧
        (db.terminal_history.filterKeys fun index => decide (cutoff ≤ index)).minKey? =
          some (pruneOffset db maxSize) ∧
        pruneHistory (fun _ => true) db maxSize = pruneBelow (fun _ => true) db cutoff := by
  simp only [pruneHistory, Bool.not_true, Bool.false_eq_true, if_false]
  by_cases hle : (db.terminal_history.size : Int) ≤ maxSize
  · rw [if_pos hle]
    exact Or.inl ⟨rfl, if_pos hle⟩
  · rw [if_neg hle]
    obtain ⟨hcutoff, hmin⟩ := minKey_aboveCutoff hindex hpos (not_le.mp hle)
    exact Or.inr ⟨_, hcutoff, hmin, rfl⟩

theorem prunedBy_pruneHistory (hindex : ∀ i ∈ db.terminal_history.keys, 0 ≤ i)
    (hsession : ∀ tty p, db.terminal_sessions tty = some p → 0 ≤ p) {maxSize : Int}
    (hpos : 0 < maxSize) :
    PrunedBy db (pruneHistory (fun _ => true) db maxSize) (pruneOffset db maxSize) := by
  rcases pruneHistory_cases hindex hpos with ⟨hsame, hoffset⟩ | ⟨cutoff, hcutoff, hmin, heq⟩
  · rw [hsame, hoffset]
    exact prunedBy_zero hindex hsession
  · rw [heq]
    exact prunedBy_pruneBelow hcutoff hmin

theorem Recorded.prunedBy_pruneHistory (hrec : Recorded db) {maxSize : Int}
    (hpos : 0 < maxSize) :
    PrunedBy db (pruneHistory (fun _ => true) db maxSize) (pruneOffset db maxSize) :=
  AutomateLinux.prunedBy_pruneHistory hrec.index hrec.session hpos

/-- A row among the newest two survives a prune that keeps two rows or more. -/
theorem Recorded.pruneOffset_le (hrec : Recorded db) {k maxSize : Int}
    (hmem : k ∈ db.terminal_history.keys)
    (hall : ∀ j ∈ db.terminal_history.keys, j ≤ k + 1) (htwo : 2 ≤ maxSize) :
    pruneOffset db maxSize ≤ k := by
  have hnonneg := hrec.index k hmem
  simp only [pruneOffset]
  by_cases hle : (db.terminal_history.size : Int) ≤ maxSize
  · rw [if_pos hle]
    exact hnonneg
  · rw [if_neg hle]
    cases hmin : db.terminal_history.minKey? with
    | none =>
        rw [OrderedMap.minKey?_eq_none_iff.mp hmin] at hmem
        exact absurd hmem List.not_mem_nil
    | some low =>
        obtain ⟨-, hleast⟩ := OrderedMap.minKey?_eq_some_iff.mp hmin
        obtain ⟨j, hj, hfar⟩ := OrderedMap.exists_key_ge
          (low + (db.terminal_history.size - 1)) hleast (by omega) (by omega)
        have hnear := hall j hj
        rw [Option.getD_some]
        cases hkept : (db.terminal_history.filterKeys fun index => decide
            (low + (db.terminal_history.size - maxSize) ≤ index)).minKey? with
        | none => exact hnonneg
        | some newMin =>
            have hleft := (OrderedMap.minKey?_eq_some_iff.mp hkept).2
            refine hleft k ?_
            rw [OrderedMap.keys_filterKeys, List.mem_filter, decide_eq_true_iff]
            exact ⟨hmem, by omega⟩

end

namespace Terminal

/-! ## The searches -/

theorem walkBackward_eq_none_iff {env : Surroundings} {entry : Int → String} {count : ℕ} :
    walkBackward env entry count = .ok none ↔
      ∀ i : Int, 0 ≤ i → i < count → isUsable env (entry i) = .ok false := by
  induction count with
  | zero =>
      simp only [walkBackward, true_iff]
      intro i hnonneg hlt
      omega
  | succ count ih =>
      simp only [walkBackward]
      constructor
      · intro hwalk i hnonneg hlt
        split at hwalk
        · contradiction
        · simp at hwalk
        · rename_i hlast
          by_cases htop : i = count
          · rw [htop]
            exact hlast
          · exact ih.mp hwalk i hnonneg (by omega)
      · intro hall
        have hlast := hall count (by omega) (by omega)
        rw [hlast]
        exact ih.mpr fun i hnonneg hlt => hall i hnonneg (by omega)

/-- No row up to `top` is of a directory a terminal can be put in. -/
def NoneUsable (env : Surroundings) (db : Database) (top : Int) : Prop :=
  ∀ i, 0 ≤ i → i ≤ top → isUsable env (getHistory db i) = .ok false

theorem isUsable_standardizePath {db : Database} (hrec : Recorded db)
    (env : Surroundings) (i : Int) :
    isUsable env (standardizePath (getHistory db i)) = isUsable env (getHistory db i) := by
  unfold getHistory
  cases hget : db.terminal_history.get? i with
  | none => rfl
  | some path => rw [Option.getD_some, (hrec.path i path hget).fixed]

theorem isUsable_eq_true_iff {env : Surroundings} {dir : String} :
    isUsable env dir = .ok true ↔
      dir ≠ "" ∧ dir ≠ "/" ∧ env.is_directory dir = .ok true := by
  unfold isUsable
  by_cases h : dir ≠ "" ∧ dir ≠ "/"
  · rw [if_pos h]
    tauto
  · rw [if_neg h]
    simp only [Except.ok.injEq, Bool.false_eq_true, false_iff]
    tauto

/-! ## The constructor -/

theorem startingPoint_cases (db : Database) (hrec : Recorded db) :
    (0 ≤ (startingPoint db).1 ∧ (startingPoint db).2 = db) ∨
      (startingPoint db = (0, upsertHistory db 0 defaultDir) ∧
        db.terminal_history.keys = []) := by
  unfold startingPoint
  dsimp only
  by_cases hlast : lastTouchedIndex db < 0
  · rw [if_pos hlast]
    by_cases hmax : getMaxHistoryIndex db < 0
    · rw [if_pos hmax]
      refine Or.inr ⟨rfl, ?_⟩
      unfold getMaxHistoryIndex at hmax
      cases hkey : db.terminal_history.maxKey? with
      | none => exact OrderedMap.maxKey?_eq_none_iff.mp hkey
      | some k =>
          have hnonneg := hrec.index k (OrderedMap.maxKey?_eq_some hkey).1
          rw [hkey, Option.getD_some] at hmax
          omega
    · rw [if_neg hmax]
      exact Or.inl ⟨by omega, rfl⟩
  · rw [if_neg hlast, if_neg hlast]
    exact Or.inl ⟨by omega, rfl⟩

theorem startingPoint_recorded {db : Database} (hrec : Recorded db) :
    Recorded (startingPoint db).2 := by
  rcases startingPoint_cases db hrec with ⟨-, hsame⟩ | ⟨hstart, -⟩
  · rw [hsame]
    exact hrec
  · rw [hstart]
    exact hrec.upsertHistory le_rfl isStandard_defaultDir

theorem startingPoint_nonneg {db : Database} (hrec : Recorded db) :
    0 ≤ (startingPoint db).1 := by
  rcases startingPoint_cases db hrec with ⟨hnonneg, -⟩ | ⟨hstart, -⟩
  · exact hnonneg
  · rw [hstart]

/-- How creating a terminal can end: the search throws, it finds a row, or the
default directory is written over the newest row. -/
inductive Created (env : Surroundings) (tty : Int) (db : Database) :
    Except Exn Unit → Database → Prop
  | failed (e : Exn) (hsome : ¬ NoneUsable env (startingPoint db).2 (startingPoint db).1) :
      Created env tty db (.error e) (startingPoint db).2
  | found (i : Int) (hnonneg : 0 ≤ i) (hle : i ≤ (startingPoint db).1)
      (husable : isUsable env (getHistory (startingPoint db).2 i) = .ok true) :
      Created env tty db (.ok ()) (setSessionPointer (startingPoint db).2 tty i)
  | repaired (hnone : NoneUsable env (startingPoint db).2 (startingPoint db).1) :
      Created env tty db (.ok ())
        (setSessionPointer
          (upsertHistory (startingPoint db).2
            (max 0 (getMaxHistoryIndex (startingPoint db).2)) defaultDir)
          tty (max 0 (getMaxHistoryIndex (startingPoint db).2)))

theorem construct_created {s : TerminalState} (hrec : Recorded s.db)
    (env : Surroundings) (tty : Int) :
    Created env tty s.db (construct env tty s).1 (construct env tty s).2.db := by
  have hstart := startingPoint_nonneg hrec
  unfold construct
  dsimp only
  rcases hwalk : walkBackward env (getHistory (startingPoint s.db).2)
      ((startingPoint s.db).1 + 1).toNat with e | (_ | ⟨i, dir⟩)
  · refine .failed e fun hnone => ?_
    rw [walkBackward_eq_none_iff.mpr fun i hi hlt => hnone i hi (by omega)] at hwalk
    contradiction
  · have hmax : (if getMaxHistoryIndex (startingPoint s.db).2 < 0 then 0
        else getMaxHistoryIndex (startingPoint s.db).2) =
          max 0 (getMaxHistoryIndex (startingPoint s.db).2) := by
      split <;> omega
    simp only [hmax]
    refine .repaired fun i hnonneg hle => ?_
    exact walkBackward_eq_none_iff.mp hwalk i hnonneg (by omega)
  · obtain ⟨hnonneg, hlt, hdir, husable⟩ := walkBackward_eq_some hwalk
    rw [hdir] at husable
    exact .found i hnonneg (by omega) husable

theorem Created.recorded {env : Surroundings} {tty : Int} {db db' : Database}
    {result : Except Exn Unit} (hcreated : Created env tty db result db')
    (hrec : Recorded db) : Recorded db' := by
  have hstart := startingPoint_recorded hrec
  cases hcreated with
  | failed e hsome => exact hstart
  | found i hnonneg hle husable => exact hstart.setSessionPointer tty hnonneg
  | repaired hnone =>
      have hmax : 0 ≤ max 0 (getMaxHistoryIndex (startingPoint db).2) := le_max_left _ _
      exact (hstart.upsertHistory hmax isStandard_defaultDir).setSessionPointer tty hmax

theorem ensureInstance_recorded {s : TerminalState} (hrec : Recorded s.db)
    (env : Surroundings) (tty : Int) : Recorded (ensureInstance env tty s).2.db := by
  unfold ensureInstance
  split
  · exact hrec
  · exact (construct_created hrec env tty).recorded hrec

/-! ## The methods -/

/-- How `_openedTty` can end once the pointer is `index`. -/
inductive Opened (env : Surroundings) (tty : Int) (db : Database) (index : Int) :
    CmdResult → Database → Prop
  | failed (e : Exn) : Opened env tty db index (openedTtyError e) db
  | stays (hdir : env.is_directory (standardizePath (getHistory db index)) = .ok true)
      (hroot : standardizePath (getHistory db index) ≠ "/") :
      Opened env tty db index
        ⟨0, standardizePath (getHistory db index) ++ mustEndWithNewLine⟩ db
  | movesBack (i : Int) (hnonneg : 0 ≤ i) (hle : i ≤ index)
      (husable : isUsable env (getHistory db i) = .ok true)
      (hroot : standardizePath (getHistory db i) ≠ "/") :
      Opened env tty db index
        ⟨0, standardizePath (getHistory db i) ++ mustEndWithNewLine⟩
        (setSessionPointer db tty i)
  | gaveUp (hroot : standardizePath (getHistory db index) ≠ "/")
      (hnone : NoneUsable env db index) :
      Opened env tty db index ⟨0, defaultDir ++ mustEndWithNewLine⟩
        (setSessionPointer db tty 0)
  | repaired (hroot : standardizePath (getHistory db index) = "/") :
      Opened env tty db index ⟨0, defaultDir ++ mustEndWithNewLine⟩
        (upsertHistory db index defaultDir)

theorem standardizePath_ne_empty (path : String) : standardizePath path ≠ "" := by
  intro hempty
  have hfixed := standardizePath_fixed path
  rw [hempty] at hfixed
  exact absurd hfixed (by decide)

theorem openedTtyValidated_of_ne_root (db : Database) (index : Int) {path : String}
    (hroot : standardizePath path ≠ "/") :
    openedTtyValidated db index (standardizePath path) =
      (⟨0, standardizePath path ++ mustEndWithNewLine⟩, db) := by
  have hnot : ¬ (standardizePath path = "" ∨ standardizePath path = "/") :=
    not_or.mpr ⟨standardizePath_ne_empty path, hroot⟩
  rw [openedTtyValidated, if_neg hnot]

theorem openedTtyPointer_recorded {db : Database} (hrec : Recorded db) (tty : Int) :
    Recorded (openedTtyPointer db tty).2 ∧ 0 ≤ (openedTtyPointer db tty).1 := by
  unfold openedTtyPointer
  dsimp only
  split
  · exact ⟨(hrec.setSessionPointer tty le_rfl).upsertHistory le_rfl isStandard_defaultDir,
      le_rfl⟩
  · exact ⟨hrec, by omega⟩

theorem _openedTty_opened {db : Database} (hrec : Recorded db)
    (env : Surroundings) (tty : Int) :
    Opened env tty (openedTtyPointer db tty).2 (openedTtyPointer db tty).1
      (_openedTty env tty db).1 (_openedTty env tty db).2 := by
  obtain ⟨hpointer, hnonneg⟩ := openedTtyPointer_recorded hrec tty
  unfold _openedTty
  generalize openedTtyPointer db tty = pointer at hpointer hnonneg ⊢
  obtain ⟨index, db⟩ := pointer
  dsimp only at hpointer hnonneg ⊢
  by_cases hroot : standardizePath (getHistory db index) = "/"
  · rw [if_neg (by simp [hroot]), openedTtyValidated, if_pos (Or.inr hroot)]
    exact .repaired hroot
  · rw [if_pos ⟨standardizePath_ne_empty _, hroot⟩]
    cases hdir : env.is_directory (standardizePath (getHistory db index)) with
    | error e => exact .failed e
    | ok exists_ =>
        cases exists_ with
        | true =>
            simp only [openedTtyValidated_of_ne_root db index hroot]
            exact .stays hdir hroot
        | false =>
            rcases hwalk : walkBackward env
                (fun i => standardizePath (getHistory db i)) index.toNat
              with e | (_ | ⟨i, dir⟩)
            · exact .failed e
            · have hdefault : defaultDir ≠ "/" := isStandard_defaultDir.ne_root
              simp only [defaultDir] at hdefault ⊢
              rw [openedTtyValidated_of_ne_root _ index hdefault]
              refine .gaveUp hroot fun i hi hle => ?_
              rw [← isUsable_standardizePath hpointer]
              by_cases htop : i = index
              · rw [htop, isUsable, if_pos ⟨standardizePath_ne_empty _, hroot⟩, hdir]
              · exact walkBackward_eq_none_iff.mp hwalk i hi (by omega)
            · obtain ⟨hi, hlt, rfl, husable⟩ := walkBackward_eq_some hwalk
              have hroot' := (isUsable_eq_true_iff.mp husable).2.1
              rw [isUsable_standardizePath hpointer] at husable
              simp only [openedTtyValidated_of_ne_root _ i hroot']
              exact .movesBack i hi (by omega) husable hroot'

theorem Opened.recorded {env : Surroundings} {tty : Int} {db db' : Database}
    {index : Int} {result : CmdResult} (hopened : Opened env tty db index result db')
    (hrec : Recorded db) (hnonneg : 0 ≤ index) : Recorded db' := by
  cases hopened with
  | failed e => exact hrec
  | stays hdir hroot => exact hrec
  | movesBack i hi hle husable hroot => exact hrec.setSessionPointer tty hi
  | gaveUp hroot hnone => exact hrec.setSessionPointer tty le_rfl
  | repaired hroot => exact hrec.upsertHistory hnonneg isStandard_defaultDir

/-- The tables `_updateDirHistory` hands to `pruneHistory` when it appends. -/
def appendEntry (tty : Int) (pwd : String) (db : Database) : Database :=
  let db := setSetting db INDEX_OF_LAST_TOUCHED_DIR_KEY (to_string (getIndex db tty))
  let insertIndex := getMaxHistoryIndex db + 1
  let db := upsertHistory db insertIndex pwd
  let db := setSessionPointer db tty insertIndex
  setSetting db INDEX_OF_LAST_TOUCHED_DIR_KEY (to_string insertIndex)

/-- How `_updateDirHistory` can end; the settings are left out of what it says
about the tables. -/
inductive Updated (tty : Int) (command : Json) (db : Database) :
    Except Exn CmdResult → Database → Prop
  | refused {result : Except Exn CmdResult} {db' : Database}
      (hresult : ∀ answer, result = .ok answer → answer.status ≠ 0)
      (hroot : ∀ text, getPWD command = .ok text → standardizePath text = "/")
      (hrows : db'.terminal_history = db.terminal_history)
      (hsessions : db'.terminal_sessions = db.terminal_sessions) :
      Updated tty command db result db'
  | stays {text : String} {db' : Database} (htext : getPWD command = .ok text)
      (hroot : standardizePath text ≠ "/")
      (hhere : standardizePath (getHistory db (getIndex db tty)) = standardizePath text)
      (hrows : db'.terminal_history = db.terminal_history)
      (hsessions : db'.terminal_sessions = db.terminal_sessions) :
      Updated tty command db (.ok ⟨0, "\n"⟩) db'
  | movesOn {text : String} {db' : Database} (htext : getPWD command = .ok text)
      (hroot : standardizePath text ≠ "/")
      (hhere : standardizePath (getHistory db (getIndex db tty)) ≠ standardizePath text)
      (hnext : standardizePath (getHistory db (getIndex db tty + 1)) = standardizePath text)
      (hrows : db'.terminal_history = db.terminal_history)
      (hsessions : db'.terminal_sessions =
        (setSessionPointer db tty (getIndex db tty + 1)).terminal_sessions) :
      Updated tty command db (.ok ⟨0, "\n"⟩) db'
  | appends {text : String} (htext : getPWD command = .ok text)
      (hroot : standardizePath text ≠ "/")
      (hhere : standardizePath (getHistory db (getIndex db tty)) ≠ standardizePath text)
      (hnext : standardizePath (getHistory db (getIndex db tty + 1)) ≠ standardizePath text) :
      Updated tty command db (.ok ⟨0, "\n"⟩)
        (pruneHistory (fun _ => true) (appendEntry tty (standardizePath text) db)
          MAX_DIR_HISTORY_SIZE)

theorem _updateDirHistory_updated (tty : Int) (command : Json) (db : Database) :
    Updated tty command db (_updateDirHistory tty command db).1
      (_updateDirHistory tty command db).2 := by
  unfold _updateDirHistory
  cases htext : getPWD command with
  | error e =>
      refine .refused (fun answer heq => by contradiction) (fun text heq => ?_) rfl rfl
      rw [htext] at heq
      contradiction
  | ok text =>
      dsimp only
      by_cases hroot : standardizePath text = "/"
      · rw [if_pos (Or.inr hroot)]
        refine .refused (fun answer heq => ?_) (fun text' heq => ?_) rfl rfl
        · obtain rfl := Except.ok.inj heq
          decide
        · obtain rfl := Except.ok.inj (htext.symm.trans heq)
          exact hroot
      · rw [if_neg (not_or.mpr ⟨standardizePath_ne_empty text, hroot⟩)]
        by_cases hhere : standardizePath (getHistory db (getIndex db tty)) =
            standardizePath text
        · rw [if_pos hhere]
          exact .stays htext hroot hhere rfl rfl
        · rw [if_neg hhere]
          by_cases hnext : standardizePath (getHistory db (getIndex db tty + 1)) =
              standardizePath text
          · rw [if_pos hnext]
            exact .movesOn htext hroot hhere hnext rfl rfl
          · rw [if_neg hnext]
            exact .appends htext hroot hhere hnext

theorem appendEntry_recorded {db : Database} (hrec : Recorded db) (tty : Int)
    {pwd : String} (hpwd : IsStandard pwd) : Recorded (appendEntry tty pwd db) := by
  have hindex : 0 ≤ getMaxHistoryIndex db + 1 := by
    have hmax := hrec.maxIndex_ge
    omega
  exact (((hrec.setSetting _ _).upsertHistory hindex hpwd).setSessionPointer tty
    hindex).setSetting _ _

theorem getIndex_nonneg (db : Database) (tty : Int) : 0 ≤ getIndex db tty := by
  unfold getIndex
  dsimp only
  split <;> omega

theorem Updated.recorded {tty : Int} {command : Json} {db db' : Database}
    {result : Except Exn CmdResult} (hupdated : Updated tty command db result db')
    (hrec : Recorded db) : Recorded db' := by
  cases hupdated with
  | refused hresult hroot hrows hsessions => exact hrec.congr hrows hsessions
  | stays htext hroot hhere hrows hsessions => exact hrec.congr hrows hsessions
  | movesOn htext hroot hhere hnext hrows hsessions =>
      have hindex := getIndex_nonneg db tty
      have hmoved := hrec.setSessionPointer tty (i := getIndex db tty + 1) (by omega)
      exact hmoved.congr hrows hsessions
  | appends htext hroot hhere hnext =>
      have happended := appendEntry_recorded hrec tty (isStandard_standardizePath hroot)
      exact (happended.prunedBy_pruneHistory (by decide)).recorded happended

theorem cdAnswer_recorded {db : Database} (hrec : Recorded db) (tty : Int)
    (atEnd : String) {found : Except Exn (Option (Int × String))}
    (hfound : ∀ i dir, found = .ok (some (i, dir)) → 0 ≤ i) :
    Recorded (cdAnswer db tty atEnd found).2 := by
  unfold cdAnswer
  split
  · exact hrec
  · exact hrec.setSessionPointer tty (hfound _ _ rfl)
  · exact hrec

theorem _cdForward_recorded {db : Database} (hrec : Recorded db) (env : Surroundings)
    (tty : Int) : Recorded (_cdForward env tty db).2 := by
  refine cdAnswer_recorded hrec tty _ fun i dir hwalk => ?_
  have hindex := getIndex_nonneg db tty
  have hle := (walkForward_eq_some hwalk).1
  omega

theorem _cdBackward_recorded {db : Database} (hrec : Recorded db) (env : Surroundings)
    (tty : Int) : Recorded (_cdBackward env tty db).2 :=
  cdAnswer_recorded hrec tty _ fun _ _ hwalk => (walkBackward_eq_some hwalk).1

/-! ## Runs -/

section

variable {s : TerminalState}

theorem withInstance_recorded (hrec : Recorded s.db) (env : Surroundings)
    (command : Json) {method : Int → Database → Except Exn CmdResult × Database}
    (hmethod : ∀ tty {db}, Recorded db → Recorded (method tty db).2) :
    Recorded (withInstance env command method s).2.db := by
  unfold withInstance
  split
  · exact hrec
  · exact hrec
  · rename_i tty _
    have hensured := ensureInstance_recorded hrec env tty
    split
    · rename_i s' heq
      rw [heq] at hensured
      exact hensured
    · rename_i s' heq
      rw [heq] at hensured
      exact hmethod tty hensured

theorem closedTty_recorded (hrec : Recorded s.db) (env : Surroundings)
    (command : Json) : Recorded (closedTty env command s).2.db := by
  unfold closedTty
  split
  · exact hrec
  · exact hrec
  · split
    · exact (hrec.deleteSession _).deleteSession _
    · exact hrec

theorem handle_recorded (hrec : Recorded s.db) (env : Surroundings) (verb : Verb)
    (command : Json) : Recorded (handle env verb command s).2.db := by
  cases verb with
  | openedTty =>
      refine withInstance_recorded hrec env command fun tty {db} hdb => ?_
      obtain ⟨hpointer, hnonneg⟩ := openedTtyPointer_recorded hdb tty
      exact (_openedTty_opened hdb env tty).recorded hpointer hnonneg
  | closedTty => exact closedTty_recorded hrec env command
  | updateDirHistory =>
      exact withInstance_recorded hrec env command fun tty {db} hdb =>
        (_updateDirHistory_updated tty command db).recorded hdb
  | cdForward =>
      exact withInstance_recorded hrec env command fun tty {_} hdb =>
        _cdForward_recorded hdb env tty
  | cdBackward =>
      exact withInstance_recorded hrec env command fun tty {_} hdb =>
        _cdBackward_recorded hdb env tty

theorem storeStep_recorded (hrec : Recorded s.db) (input : StoreInput) :
    Recorded (storeStep s input).db := by
  cases input with
  | terminal input =>
      cases input with
      | command verb command env => exact handle_recorded hrec env verb command
      | restart => exact hrec
  | emptyDirHistoryTable => exact hrec.emptyDirHistoryTable
  | upsertEntry key value => exact hrec.setSetting key value
  | deleteEntry key => exact hrec.congr rfl rfl

theorem storeRun_recorded (hrec : Recorded s.db) (inputs : List StoreInput) :
    Recorded (storeRun s inputs).db := by
  induction inputs generalizing s with
  | nil => exact hrec
  | cons input inputs ih => exact ih (storeStep_recorded hrec input)

end

end Terminal

end AutomateLinux
