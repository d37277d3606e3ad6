import AutomateLinux.Terminal
import Mathlib.Data.List.Infix
import Mathlib.Tactic.Common

/-!
# The directory history stays dense

Pointers into the history are bare integers, so the history is usable only as
long as its indices are an initial segment and nothing points outside it.  The
invariant is stated once for the database, kept by each table operation, and
then carried through the constructor, the five commands and whole runs.
-/

namespace AutomateLinux

open TerminalTable SettingsTable

/-- The history rows are numbered `0, …, n - 1` and every pointer into them,
a session's or the last-touched one, is such a number. -/
structure Dense (db : Database) (n : ℕ) : Prop where
  rows : db.terminal_history.keys = (List.range n).map Int.ofNat
  session : ∀ tty p, db.terminal_sessions tty = some p → 0 ≤ p ∧ p < n
  lastTouched : ∀ text,
    db.system_settings INDEX_OF_LAST_TOUCHED_DIR_KEY = some text →
      ∃ k : ℕ, k < n ∧ text = to_string k

theorem Dense.empty : Dense Database.empty 0 := by
  constructor <;> simp [Database.empty]

section

variable {db : Database} {n : ℕ}

theorem Dense.mem_keys (hdense : Dense db n) (i : Int) :
    i ∈ db.terminal_history.keys ↔ 0 ≤ i ∧ i < n := by
  rw [hdense.rows]
  constructor
  · intro hmem
    obtain ⟨k, hk, rfl⟩ := List.mem_map.mp hmem
    have := List.mem_range.mp hk
    simp only [Int.ofNat_eq_natCast]
    omega
  · rintro ⟨hnonneg, hlt⟩
    refine List.mem_map.mpr ⟨i.toNat, List.mem_range.mpr (by omega), ?_⟩
    simp only [Int.ofNat_eq_natCast]
    omega

theorem Dense.size (hdense : Dense db n) : db.terminal_history.size = n := by
  rw [← OrderedMap.length_keys, hdense.rows]
  simp

theorem Dense.maxIndex (hdense : Dense db n) :
    getMaxHistoryIndex db = (n : Int) - 1 := by
  unfold getMaxHistoryIndex OrderedMap.maxKey?
  rw [hdense.rows]
  cases n with
  | zero => rfl
  | succ m => simp [List.range_succ]

/-- A missing row reads as the root directory, which no command accepts. -/
theorem Dense.index_lt_of_entry (hdense : Dense db n) {i : Int}
    (hentry : Terminal.standardizePath (getHistory db i) ≠ "/") :
    0 ≤ i ∧ i < n := by
  rw [← hdense.mem_keys, OrderedMap.mem_keys_iff]
  cases hget : db.terminal_history.get? i with
  | some path => exact ⟨path, rfl⟩
  | none =>
      refine absurd ?_ hentry
      simp [getHistory, hget, Terminal.standardizePath]

/-! ## The table operations -/

theorem Dense.upsert_existing (hdense : Dense db n) {i : Int} (path : String)
    (hnonneg : 0 ≤ i) (hlt : i < n) : Dense (upsertHistory db i path) n where
  rows := by
    rw [upsertHistory, OrderedMap.keys_insert_of_mem path
      ((hdense.mem_keys i).mpr ⟨hnonneg, hlt⟩), hdense.rows]
  session := hdense.session
  lastTouched := hdense.lastTouched

theorem Dense.upsert_next (hdense : Dense db n) (path : String) :
    Dense (upsertHistory db n path) (n + 1) where
  rows := by
    rw [upsertHistory, OrderedMap.keys_insert_of_forall_lt path
      (fun j hj => ((hdense.mem_keys j).mp hj).2), hdense.rows, List.range_succ]
    simp
  session := fun tty p hp => by
    have := hdense.session tty p hp
    omega
  lastTouched := fun text htext => by
    obtain ⟨k, hk, htext⟩ := hdense.lastTouched text htext
    exact ⟨k, by omega, htext⟩

theorem Dense.setSessionPointer (hdense : Dense db n) (tty : Int) {i : Int}
    (hnonneg : 0 ≤ i) (hlt : i < n) :
    Dense (setSessionPointer db tty i) n where
  rows := hdense.rows
  session := fun tty' p hp => by
    by_cases htty : tty' = tty
    · subst htty
      obtain rfl : i = p := by simpa [TerminalTable.setSessionPointer] using hp
      exact ⟨hnonneg, hlt⟩
    · refine hdense.session tty' p ?_
      simpa [TerminalTable.setSessionPointer, htty] using hp
  lastTouched := hdense.lastTouched

theorem Dense.deleteSession (hdense : Dense db n) (tty : Int) :
    Dense (deleteSession db tty) n where
  rows := hdense.rows
  session := fun tty' p hp => by
    by_cases htty : tty' = tty
    · subst htty
      simp [TerminalTable.deleteSession] at hp
    · refine hdense.session tty' p ?_
      simpa [TerminalTable.deleteSession, htty] using hp
  lastTouched := hdense.lastTouched

theorem Dense.setLastTouched (hdense : Dense db n) {i : Int}
    (hnonneg : 0 ≤ i) (hlt : i < n) :
    Dense (setSetting db INDEX_OF_LAST_TOUCHED_DIR_KEY (to_string i)) n where
  rows := hdense.rows
  session := hdense.session
  lastTouched := fun text htext => by
    obtain rfl : to_string i = text := by simpa [setSetting] using htext
    refine ⟨i.toNat, by omega, ?_⟩
    rw [Int.toNat_of_nonneg hnonneg]

theorem Dense.getSessionPointer_lt (hdense : Dense db n) (tty : Int)
    (hnonneg : 0 ≤ getSessionPointer db tty) : getSessionPointer db tty < n := by
  unfold getSessionPointer at *
  cases hp : db.terminal_sessions tty with
  | none => simp [hp] at hnonneg
  | some p => exact (hdense.session tty p hp).2

/-! ## Pruning -/

theorem Dense.rebase (hdense : Dense db n) {c : ℕ} (hc : c < n) :
    (((db.terminal_history.filterKeys fun i => decide ((c : Int) ≤ i)).mapKeys
      (fun i => i - (c : Int)) (strictMono_rebase c)).keys =
        (List.range (n - c)).map Int.ofNat) := by
  have hsplit : List.range n =
      List.range c ++ (List.range (n - c)).map (c + ·) := by
    rw [← List.range_add]
    congr 1
    omega
  rw [OrderedMap.keys_mapKeys, OrderedMap.keys_filterKeys, hdense.rows, hsplit]
  have hbelow : ((List.range c).map Int.ofNat).filter
      (fun i => decide ((c : Int) ≤ i)) = [] := by
    simp
  have habove : (((List.range (n - c)).map (c + ·)).map Int.ofNat).filter
      (fun i => decide ((c : Int) ≤ i)) =
        ((List.range (n - c)).map (c + ·)).map Int.ofNat := by
    simp
  rw [List.map_append, List.filter_append, hbelow, habove]
  simp [List.map_map, Function.comp_def]

theorem Dense.minKey_filter (hdense : Dense db n) {c : ℕ} (hc : c < n) :
    (db.terminal_history.filterKeys fun i => decide ((c : Int) ≤ i)).minKey? =
      some (c : Int) := by
  have hkeys := hdense.rebase hc
  rw [OrderedMap.keys_mapKeys] at hkeys
  unfold OrderedMap.minKey?
  obtain ⟨m, hm⟩ : ∃ m, n - c = m + 1 := ⟨n - c - 1, by omega⟩
  rw [hm, List.range_succ_eq_map] at hkeys
  cases hfilter : (db.terminal_history.filterKeys
      fun i => decide ((c : Int) ≤ i)).keys with
  | nil => simp [hfilter] at hkeys
  | cons first rest =>
      simp only [hfilter, List.map_cons, List.cons.injEq] at hkeys
      have hfirst := hkeys.1
      simp only [Int.ofNat_eq_natCast] at hfirst
      simp only [List.head?_cons, Option.some.injEq]
      omega

theorem rebaseLastTouched_history (succeeds : PruneStatement → Bool)
    (db : Database) (d : Int) :
    (rebaseLastTouched succeeds db d).terminal_history = db.terminal_history := by
  unfold rebaseLastTouched
  repeat' split
  all_goals rfl

theorem rebaseLastTouched_sessions (succeeds : PruneStatement → Bool)
    (db : Database) (d : Int) :
    (rebaseLastTouched succeeds db d).terminal_sessions =
      db.terminal_sessions := by
  unfold rebaseLastTouched
  repeat' split
  all_goals rfl

theorem rebaseLastTouched_settings_congr (succeeds : PruneStatement → Bool)
    {db db' : Database} (hsame : db.system_settings = db'.system_settings)
    (d : Int) :
    (rebaseLastTouched succeeds db d).system_settings =
      (rebaseLastTouched succeeds db' d).system_settings := by
  unfold rebaseLastTouched
  rw [hsame]
  cases db'.system_settings INDEX_OF_LAST_TOUCHED_DIR_KEY with
  | none => exact hsame
  | some val =>
      cases hval : stoi val with
      | error e => simpa [hval] using hsame
      | ok oldIdx =>
          cases hwrite : succeeds .writeLastTouched <;> simp [hval, hsame]

theorem Dense.rebaseLastTouched (hdense : Dense db n)
    (hint : (n : Int) ≤ INT_MAX) {c : ℕ} (hc : c < n) {text : String}
    (htext : (TerminalTable.rebaseLastTouched (fun _ => true) db c).system_settings
      INDEX_OF_LAST_TOUCHED_DIR_KEY = some text) :
    ∃ k : ℕ, k < n - c ∧ text = to_string k := by
  unfold TerminalTable.rebaseLastTouched at htext
  cases hset : db.system_settings INDEX_OF_LAST_TOUCHED_DIR_KEY with
  | none =>
      rw [hset] at htext
      simp [hset] at htext
  | some val =>
      obtain ⟨k, hk, rfl⟩ := hdense.lastTouched val hset
      have hstoi : stoi (to_string k) = .ok (k : Int) := stoi_to_string (by omega)
      simp only [hset, hstoi, if_true, Function.update_self,
        Option.some.injEq] at htext
      refine ⟨k - c, by omega, ?_⟩
      rw [← htext]
      congr 1
      omega

theorem Dense.minKey (hdense : Dense db n) (hpos : 0 < n) :
    db.terminal_history.minKey? = some 0 := by
  obtain ⟨m, rfl⟩ : ∃ m, n = m + 1 := ⟨n - 1, by omega⟩
  unfold OrderedMap.minKey?
  rw [hdense.rows, List.range_succ_eq_map]
  rfl

theorem Dense.pruneBelow (hdense : Dense db n) (hint : (n : Int) ≤ INT_MAX)
    {c : ℕ} (hpos : 0 < c) (hc : c < n) :
    Dense (TerminalTable.pruneBelow (fun _ => true) db c) (n - c) := by
  have hmin := hdense.minKey_filter hc
  have hnot : ¬ (c : Int) ≤ 0 := by omega
  simp only [TerminalTable.pruneBelow, Bool.not_true, Bool.false_eq_true,
    if_false, hmin, Option.getD_some, hnot]
  constructor
  · rw [rebaseLastTouched_history]
    exact hdense.rebase hc
  · intro tty p hp
    rw [rebaseLastTouched_sessions] at hp
    obtain ⟨q, hq, rfl⟩ : ∃ q, db.terminal_sessions tty = some q ∧
        max 0 (q - (c : Int)) = p := by
      simpa [rebaseSessions, rebaseHistory] using hp
    have := hdense.session tty q hq
    omega
  · intro text htext
    refine hdense.rebaseLastTouched hint hc ?_
    rw [← htext]
    exact congrFun (rebaseLastTouched_settings_congr _ (by rfl) c) _

/-- Pruning keeps the newest rows and renumbers them from zero. -/
theorem Dense.pruneHistory (hdense : Dense db n) (hint : (n : Int) ≤ INT_MAX)
    {maxSize : ℕ} (hpos : 0 < maxSize) :
    Dense (TerminalTable.pruneHistory (fun _ => true) db maxSize)
      (min n maxSize) := by
  simp only [TerminalTable.pruneHistory, Bool.not_true, Bool.false_eq_true,
    if_false, hdense.size]
  by_cases hle : n ≤ maxSize
  · rw [if_pos (by omega), min_eq_left hle]
    exact hdense
  · have hcutoff : (0 : Int) + ((n : Int) - (maxSize : Int)) =
        ((n - maxSize : ℕ) : Int) := by omega
    rw [if_neg (by omega), hdense.minKey (by omega), Option.getD_some, hcutoff]
    have hprune := hdense.pruneBelow hint (c := n - maxSize) (by omega) (by omega)
    have hsize : n - (n - maxSize) = min n maxSize := by omega
    rwa [hsize] at hprune

end

namespace Terminal

/-! ## The searches -/

theorem walkBackward_eq_some {env : Surroundings} {entry : Int → String}
    {count : ℕ} {i : Int} {dir : String}
    (hwalk : walkBackward env entry count = .ok (some (i, dir))) :
    0 ≤ i ∧ i < count ∧ dir = entry i ∧ isUsable env dir = .ok true := by
  induction count with
  | zero => simp [walkBackward] at hwalk
  | succ count ih =>
      simp only [walkBackward] at hwalk
      split at hwalk
      · contradiction
      · rename_i husable
        simp only [Except.ok.injEq, Option.some.injEq, Prod.mk.injEq] at hwalk
        obtain ⟨rfl, rfl⟩ := hwalk
        exact ⟨by omega, by omega, rfl, husable⟩
      · obtain ⟨hnonneg, hlt, hdir, husable⟩ := ih hwalk
        exact ⟨hnonneg, by omega, hdir, husable⟩

theorem walkForward_eq_some {env : Surroundings} {entry : Int → String}
    {count : ℕ} {start i : Int} {dir : String}
    (hwalk : walkForward env entry count start = .ok (some (i, dir))) :
    start ≤ i ∧ i < start + count ∧ dir = entry i ∧
      isUsable env dir = .ok true := by
  induction count generalizing start with
  | zero => simp [walkForward] at hwalk
  | succ count ih =>
      simp only [walkForward] at hwalk
      split at hwalk
      · contradiction
      · rename_i husable
        simp only [Except.ok.injEq, Option.some.injEq, Prod.mk.injEq] at hwalk
        obtain ⟨rfl, rfl⟩ := hwalk
        exact ⟨by omega, by omega, rfl, husable⟩
      · obtain ⟨hle, hlt, hdir, husable⟩ := ih hwalk
        exact ⟨by omega, by omega, hdir, husable⟩

/-! ## The constructor -/

/-- The history is dense and within its bound, and it is not empty once there
is a terminal object. -/
structure Consistent (s : TerminalState) (n : ℕ) : Prop where
  dense : Dense s.db n
  bound : n ≤ MAX_DIR_HISTORY_SIZE
  nonempty : s.instances ≠ [] → 0 < n

theorem Consistent.initial : Consistent TerminalState.initial 0 where
  dense := Dense.empty
  bound := Nat.zero_le _
  nonempty := fun h => absurd rfl h

theorem bound_le_INT_MAX {n : ℕ} (hbound : n ≤ MAX_DIR_HISTORY_SIZE) :
    (n : Int) < INT_MAX := by
  unfold MAX_DIR_HISTORY_SIZE at hbound
  unfold INT_MAX
  omega

theorem lastTouchedIndex_lt {db : Database} {n : ℕ} (hdense : Dense db n)
    (hint : (n : Int) < INT_MAX) (hnonneg : 0 ≤ lastTouchedIndex db) :
    lastTouchedIndex db < n := by
  unfold lastTouchedIndex getSetting at *
  cases hset : db.system_settings INDEX_OF_LAST_TOUCHED_DIR_KEY with
  | none => simp [hset] at hnonneg
  | some text =>
      obtain ⟨k, hk, rfl⟩ := hdense.lastTouched text hset
      have hstoi : stoi (to_string k) = .ok (k : Int) := stoi_to_string (by omega)
      simp only [hset, Option.getD_some, hstoi] at hnonneg ⊢
      split <;> omega

/-- The search starts inside a history that is by then not empty. -/
theorem startingPoint_spec {db : Database} {n : ℕ} (hdense : Dense db n)
    (hint : (n : Int) < INT_MAX) :
    Dense (startingPoint db).2 (max n 1) ∧
      0 ≤ (startingPoint db).1 ∧ (startingPoint db).1 < (max n 1 : ℕ) := by
  have htouched := lastTouchedIndex_lt hdense hint
  have hmax := hdense.maxIndex
  unfold startingPoint
  by_cases hlast : lastTouchedIndex db < 0
  · by_cases hempty : n = 0
    · subst hempty
      have hneg : getMaxHistoryIndex db < 0 := by omega
      simp only [if_pos hlast, if_pos hneg]
      exact ⟨hdense.upsert_next defaultDir, by omega, by omega⟩
    · have hnonneg : ¬ getMaxHistoryIndex db < 0 := by omega
      have hsize : max n 1 = n := by omega
      simp only [if_pos hlast, if_neg hnonneg, hsize]
      exact ⟨hdense, by omega, by omega⟩
  · have hlt := htouched (by omega)
    have hsize : max n 1 = n := by omega
    simp only [if_neg hlast, hsize]
    exact ⟨hdense, by omega, by omega⟩

theorem Consistent.construct {s : TerminalState} {n : ℕ}
    (hcons : Consistent s n) (env : Surroundings) (tty : Int) :
    Consistent (construct env tty s).2 (max n 1) := by
  obtain ⟨hdense, hnonneg, hlt⟩ :=
    startingPoint_spec hcons.dense (bound_le_INT_MAX hcons.bound)
  have hbound : max n 1 ≤ MAX_DIR_HISTORY_SIZE :=
    max_le hcons.bound (by decide)
  have hpos : 0 < max n 1 := by omega
  unfold Terminal.construct
  generalize startingPoint s.db = start at hdense hnonneg hlt ⊢
  obtain ⟨startIndex, db⟩ := start
  simp only at hdense hnonneg hlt ⊢
  split
  · exact ⟨hdense, hbound, fun _ => hpos⟩
  · rename_i hwalk
    obtain ⟨hi, hilt, -⟩ := walkBackward_eq_some hwalk
    exact ⟨hdense.setSessionPointer tty hi (by omega), hbound, fun _ => hpos⟩
  · have hmax := hdense.maxIndex
    have hmaxNonneg : ¬ getMaxHistoryIndex db < 0 := by omega
    simp only [if_neg hmaxNonneg]
    refine ⟨?_, hbound, fun _ => hpos⟩
    exact (hdense.upsert_existing defaultDir (by omega) (by omega)).setSessionPointer
      tty (by omega) (by omega)

theorem instances_ne_nil_of_getInstanceByTTY {env : Surroundings}
    {s : TerminalState} {tty : Int} {position : ℕ}
    (hfound : getInstanceByTTY env s tty = some position) :
    s.instances ≠ [] := by
  intro hnil
  simp [getInstanceByTTY, hnil] at hfound

/-- Whether or not the object had to be made, the history is not empty. -/
theorem Consistent.ensureInstance {s : TerminalState} {n : ℕ}
    (hcons : Consistent s n) (env : Surroundings) (tty : Int) :
    Consistent (ensureInstance env tty s).2 (max n 1) := by
  unfold Terminal.ensureInstance
  split
  · rename_i hfound
    have hpos := hcons.nonempty (instances_ne_nil_of_getInstanceByTTY hfound)
    have hsize : max n 1 = n := by omega
    rw [hsize]
    exact hcons
  · exact hcons.construct env tty

/-! ## The methods -/

section

variable {db : Database} {n : ℕ}

theorem getIndex_spec (hdense : Dense db n) (hpos : 0 < n) (tty : Int) :
    0 ≤ getIndex db tty ∧ getIndex db tty < n := by
  unfold getIndex
  dsimp only
  split
  · rename_i hnonneg
    exact ⟨hnonneg, hdense.getSessionPointer_lt tty hnonneg⟩
  · exact ⟨le_rfl, by omega⟩

theorem openedTtyValidated_dense (hdense : Dense db n) {index : Int}
    (hnonneg : 0 ≤ index) (hlt : index < n) (dir : String) :
    Dense (openedTtyValidated db index dir).2 n := by
  unfold openedTtyValidated
  split
  · exact hdense.upsert_existing defaultDir hnonneg hlt
  · exact hdense

theorem openedTtyPointer_spec (hdense : Dense db n) (hpos : 0 < n) (tty : Int) :
    Dense (openedTtyPointer db tty).2 n ∧ 0 ≤ (openedTtyPointer db tty).1 ∧
      (openedTtyPointer db tty).1 < n := by
  unfold openedTtyPointer
  dsimp only
  split
  · have hpointer := hdense.setSessionPointer tty (i := 0) le_rfl (by omega)
    exact ⟨hpointer.upsert_existing defaultDir le_rfl (by omega), le_rfl, by omega⟩
  · rename_i hnonneg
    exact ⟨hdense, by omega, hdense.getSessionPointer_lt tty (by omega)⟩

theorem _openedTty_dense (hdense : Dense db n) (hpos : 0 < n)
    (env : Surroundings) (tty : Int) : Dense (_openedTty env tty db).2 n := by
  obtain ⟨hpointer, hnonneg, hlt⟩ := openedTtyPointer_spec hdense hpos tty
  unfold _openedTty
  generalize openedTtyPointer db tty = pointer at hpointer hnonneg hlt ⊢
  obtain ⟨index, db⟩ := pointer
  dsimp only at hpointer hnonneg hlt ⊢
  split
  · split
    · exact hpointer
    · exact openedTtyValidated_dense hpointer hnonneg hlt _
    · split
      · exact hpointer
      · rename_i hwalk
        obtain ⟨hi, hilt, -⟩ := walkBackward_eq_some hwalk
        exact openedTtyValidated_dense
          (hpointer.setSessionPointer tty hi (by omega)) hi (by omega) _
      · exact openedTtyValidated_dense
          (hpointer.setSessionPointer tty le_rfl (by omega)) hnonneg hlt _
  · exact openedTtyValidated_dense hpointer hnonneg hlt _

/-- The next entry is only moved to when it exists, and a new entry is appended
at the end before the history is pruned. -/
theorem _updateDirHistory_dense (hdense : Dense db n) (hpos : 0 < n)
    (hbound : n ≤ MAX_DIR_HISTORY_SIZE) (tty : Int) (command : Json) :
    ∃ m, 0 < m ∧ m ≤ MAX_DIR_HISTORY_SIZE ∧
      Dense (_updateDirHistory tty command db).2 m := by
  obtain ⟨hnonneg, hlt⟩ := getIndex_spec hdense hpos tty
  have hint := bound_le_INT_MAX hbound
  have htouched := hdense.setLastTouched hnonneg hlt
  unfold _updateDirHistory
  split
  · exact ⟨n, hpos, hbound, hdense⟩
  · rename_i text _
    dsimp only
    split
    · exact ⟨n, hpos, hbound, htouched⟩
    · rename_i hroot
      split
      · exact ⟨n, hpos, hbound, htouched⟩
      · split
        · rename_i hnext
          have hentry := hdense.index_lt_of_entry (i := getIndex db tty + 1)
            (by rw [hnext]; exact fun heq => hroot (Or.inr heq))
          exact ⟨n, hpos, hbound,
            htouched.setSessionPointer tty (by omega) (by omega)⟩
        · have hmax : getMaxHistoryIndex (setSetting db
              INDEX_OF_LAST_TOUCHED_DIR_KEY (to_string (getIndex db tty))) + 1 =
                (n : Int) := by
            rw [htouched.maxIndex]
            omega
          rw [hmax]
          have happended := htouched.upsert_next (standardizePath text)
          have hpointed := happended.setSessionPointer tty (i := n)
            (by omega) (by omega)
          have hlast := hpointed.setLastTouched (i := n) (by omega) (by omega)
          refine ⟨min (n + 1) MAX_DIR_HISTORY_SIZE, ?_, min_le_right _ _,
            hlast.pruneHistory (by omega) (by decide)⟩
          exact lt_min (by omega) (by decide)

theorem cdAnswer_dense (hdense : Dense db n) (tty : Int) (atEnd : String)
    {found : Except Exn (Option (Int × String))}
    (hfound : ∀ i dir, found = .ok (some (i, dir)) → 0 ≤ i ∧ i < n) :
    Dense (cdAnswer db tty atEnd found).2 n := by
  unfold cdAnswer
  split
  · exact hdense
  · obtain ⟨hnonneg, hlt⟩ := hfound _ _ rfl
    exact hdense.setSessionPointer tty hnonneg hlt
  · exact hdense

theorem _cdForward_dense (hdense : Dense db n) (hpos : 0 < n)
    (env : Surroundings) (tty : Int) : Dense (_cdForward env tty db).2 n := by
  obtain ⟨hnonneg, hlt⟩ := getIndex_spec hdense hpos tty
  refine cdAnswer_dense hdense tty _ fun i dir hwalk => ?_
  obtain ⟨hle, hilt, -⟩ := walkForward_eq_some hwalk
  rw [hdense.maxIndex] at hilt
  omega

theorem _cdBackward_dense (hdense : Dense db n) (hpos : 0 < n)
    (env : Surroundings) (tty : Int) : Dense (_cdBackward env tty db).2 n := by
  obtain ⟨hnonneg, hlt⟩ := getIndex_spec hdense hpos tty
  refine cdAnswer_dense hdense tty _ fun i dir hwalk => ?_
  obtain ⟨hi, hilt, -⟩ := walkBackward_eq_some hwalk
  omega

end

/-! ## Commands and runs -/

section

variable {s : TerminalState} {n : ℕ}

/-- A command whose method keeps a history that is not empty dense keeps the
state consistent. -/
theorem Consistent.withInstance (hcons : Consistent s n) (env : Surroundings)
    (command : Json) {method : Int → Database → Except Exn CmdResult × Database}
    (hmethod : ∀ tty {db n}, Dense db n → 0 < n → n ≤ MAX_DIR_HISTORY_SIZE →
      ∃ m, 0 < m ∧ m ≤ MAX_DIR_HISTORY_SIZE ∧ Dense (method tty db).2 m) :
    ∃ m, Consistent (withInstance env command method s).2 m := by
  unfold Terminal.withInstance
  split
  · exact ⟨n, hcons⟩
  · exact ⟨n, hcons⟩
  · rename_i tty _
    have hensured := hcons.ensureInstance env tty
    split
    · rename_i s' heq
      rw [heq] at hensured
      exact ⟨_, hensured⟩
    · rename_i s' heq
      rw [heq] at hensured
      obtain ⟨m, hpos, hbound, hdense⟩ :=
        hmethod tty hensured.dense (by omega) hensured.bound
      exact ⟨m, hdense, hbound, fun _ => hpos⟩

theorem Consistent.closedTty (hcons : Consistent s n) (env : Surroundings)
    (command : Json) : Consistent (closedTty env command s).2 n := by
  unfold Terminal.closedTty
  split
  · exact hcons
  · exact hcons
  · split
    · refine ⟨(hcons.dense.deleteSession _).deleteSession _, hcons.bound, fun hne => ?_⟩
      refine hcons.nonempty fun hnil => hne ?_
      simp [_closedTty, hnil]
    · exact hcons

theorem Consistent.step (hcons : Consistent s n) (input : Input) :
    ∃ m, Consistent (step s input) m := by
  cases input with
  | restart => exact ⟨n, hcons.dense, hcons.bound, fun hne => absurd rfl hne⟩
  | command verb command env =>
      cases verb with
      | openedTty =>
          exact hcons.withInstance env command fun tty _ _ hdense hpos hbound =>
            ⟨_, hpos, hbound, _openedTty_dense hdense hpos env tty⟩
      | closedTty => exact ⟨n, hcons.closedTty env command⟩
      | updateDirHistory =>
          exact hcons.withInstance env command fun tty _ _ hdense hpos hbound =>
            _updateDirHistory_dense hdense hpos hbound tty command
      | cdForward =>
          exact hcons.withInstance env command fun tty _ _ hdense hpos hbound =>
            ⟨_, hpos, hbound, _cdForward_dense hdense hpos env tty⟩
      | cdBackward =>
          exact hcons.withInstance env command fun tty _ _ hdense hpos hbound =>
            ⟨_, hpos, hbound, _cdBackward_dense hdense hpos env tty⟩

theorem Consistent.run (hcons : Consistent s n) (inputs : List Input) :
    ∃ m, Consistent (run s inputs) m := by
  induction inputs generalizing s n with
  | nil => exact ⟨n, hcons⟩
  | cons input inputs ih =>
      obtain ⟨m, hstep⟩ := hcons.step input
      exact ih hstep

end

/-- The history's indices are `0, …, n - 1` for some `n` within the bound, and
every session pointer and the last-touched index, once they are set, are among
them. -/
structure HistoryWellFormed (db : Database) : Prop where
  rows : ∃ n ≤ MAX_DIR_HISTORY_SIZE,
    db.terminal_history.keys = (List.range n).map Int.ofNat
  session : ∀ tty p, db.terminal_sessions tty = some p →
    p ∈ db.terminal_history.keys
  lastTouched : ∀ text,
    db.system_settings INDEX_OF_LAST_TOUCHED_DIR_KEY = some text →
      ∃ i ∈ db.terminal_history.keys, text = to_string i

theorem HistoryWellFormed.dense {db : Database} (hwf : HistoryWellFormed db) :
    ∃ n ≤ MAX_DIR_HISTORY_SIZE, Dense db n := by
  obtain ⟨n, hbound, hrows⟩ := hwf.rows
  have hmem : ∀ i ∈ db.terminal_history.keys, 0 ≤ i ∧ i < n := by
    intro i hi
    rw [hrows] at hi
    obtain ⟨k, hk, rfl⟩ := List.mem_map.mp hi
    have hlt := List.mem_range.mp hk
    simp only [Int.ofNat_eq_natCast]
    omega
  refine ⟨n, hbound, hrows, fun tty p hp => hmem p (hwf.session tty p hp), fun text htext => ?_⟩
  obtain ⟨i, hi, rfl⟩ := hwf.lastTouched text htext
  obtain ⟨hnonneg, hlt⟩ := hmem i hi
  exact ⟨i.toNat, by omega, by rw [Int.toNat_of_nonneg hnonneg]⟩

theorem Consistent.wellFormed {s : TerminalState} {n : ℕ}
    (hcons : Consistent s n) : HistoryWellFormed s.db := by
  obtain ⟨hdense, hbound, -⟩ := hcons
  refine ⟨⟨n, hbound, hdense.rows⟩, fun tty p hp => ?_, fun text htext => ?_⟩
  · exact (hdense.mem_keys p).mpr (hdense.session tty p hp)
  · obtain ⟨k, hk, rfl⟩ := hdense.lastTouched text htext
    exact ⟨k, (hdense.mem_keys k).mpr ⟨by omega, by omega⟩, rfl⟩

/-- Whatever commands come from whatever ttys, whatever the filesystem says at
each of them and wherever the daemon restarts, the history is well formed. -/
theorem run_history_wellFormed (inputs : List Input) :
    HistoryWellFormed (run TerminalState.initial inputs).db := by
  obtain ⟨n, hcons⟩ := Consistent.initial.run inputs
  exact hcons.wellFormed

end Terminal

end AutomateLinux
