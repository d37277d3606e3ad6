import AutomateLinux.TerminalPruning
import AutomateLinux.TerminalPrompts

/-!
# Where a terminal opened next starts

`_updateDirHistory` writes the last-touched index first, as the pointer it has
found, and again when it appends.  When it moves on to the next row instead,
only the pointer is moved.
-/

namespace AutomateLinux

open TerminalTable SettingsTable

namespace Terminal

/-- The last-touched index is the tty's pointer. -/
def LastTouchedAt (db : Database) (tty : Int) : Prop :=
  db.system_settings INDEX_OF_LAST_TOUCHED_DIR_KEY = some (to_string (getIndex db tty))

/-- The directory is not that of the row at the pointer but that of the next one. -/
def IsNext (db : Database) (tty : Int) (dir : String) : Prop :=
  standardizePath (getHistory db (getIndex db tty)) ≠ standardizePath dir ∧
    standardizePath (getHistory db (getIndex db tty + 1)) = standardizePath dir

section

variable {db : Database} {tty : Int} {command : Json} {n : ℕ}

theorem to_string_succ_ne {i : Int} (hnonneg : 0 ≤ i) (hlt : i < INT_MAX) :
    to_string i ≠ to_string (i + 1) := by
  intro heq
  have hread := stoi_to_string_of_nonneg hnonneg hlt.le
  rw [heq, stoi_to_string_of_nonneg (by omega) (by omega)] at hread
  have hsucc := Except.ok.inj hread
  omega

theorem setSetting_self (db : Database) (key value : String) :
    (setSetting db key value).system_settings key = some value :=
  Function.update_self _ _ _

/-- A prune lowers the pointer and the last-touched index alike. -/
theorem lastTouchedAt_pruneHistory (hindex : ∀ i ∈ db.terminal_history.keys, 0 ≤ i)
    (hsessions : ∀ tty p, db.terminal_sessions tty = some p → 0 ≤ p) {maxSize p : Int}
    (hpos : 0 < maxSize) (hpointer : db.terminal_sessions tty = some p) (hle : p ≤ INT_MAX)
    (htouched : db.system_settings INDEX_OF_LAST_TOUCHED_DIR_KEY = some (to_string p)) :
    LastTouchedAt (pruneHistory (fun _ => true) db maxSize) tty := by
  have hnonneg := hsessions tty p hpointer
  have hpruned := prunedBy_pruneHistory hindex hsessions hpos
  have hlowered : getIndex (pruneHistory (fun _ => true) db maxSize) tty =
      max 0 (p - pruneOffset db maxSize) := by
    unfold getIndex getSessionPointer
    rw [hpruned.sessions, hpointer]
    simp
  unfold LastTouchedAt
  rw [hlowered]
  rcases pruneHistory_cases hindex hpos with ⟨hsame, hoffset⟩ | ⟨cutoff, hcutoff, hmin, heq⟩
  · rw [hsame, hoffset, htouched, sub_zero, max_eq_right hnonneg]
  · have hleast := (OrderedMap.minKey?_eq_some_iff.mp hmin).1
    rw [OrderedMap.keys_filterKeys, List.mem_filter, decide_eq_true_iff] at hleast
    rw [heq, pruneBelow_settings (by omega) hmin, rebaseLastTouched, htouched]
    simp only [stoi_to_string_of_nonneg hnonneg hle, if_true, Function.update_self]

theorem lastTouchedAt_appendEntry (hdense : Dense db n) (hint : (n : Int) ≤ INT_MAX)
    (tty : Int) (pwd : String) :
    LastTouchedAt (pruneHistory (fun _ => true) (appendEntry tty pwd db) MAX_DIR_HISTORY_SIZE)
      tty := by
  have hinsert : getMaxHistoryIndex db + 1 = n := by
    rw [hdense.maxIndex]
    omega
  have hpointer : (appendEntry tty pwd db).terminal_sessions tty =
      some (getMaxHistoryIndex db + 1) := Function.update_self _ _ _
  refine lastTouchedAt_pruneHistory (fun i hi => ?_) (fun tty' p hp => ?_) (by decide) hpointer
    (by omega) (setSetting_self _ _ _)
  · rcases OrderedMap.mem_keys_insert.mp hi with rfl | hi
    · show 0 ≤ getMaxHistoryIndex db + 1
      omega
    · exact ((hdense.mem_keys i).mp hi).1
  · by_cases htty : tty' = tty
    · subst htty
      obtain rfl := Option.some.inj (hpointer.symm.trans hp)
      omega
    · exact (hdense.session tty' p ((Function.update_of_ne htty _ _).symm.trans hp)).1

/-- `_updateDirHistory` leaves the last-touched index behind exactly when it moves on
to the next row. -/
theorem _updateDirHistory_lastTouchedAt_iff (tty : Int) (hdense : Dense db n)
    (hint : (n : Int) < INT_MAX) {dir : String} (hdir : getPWD command = .ok dir)
    (hroot : standardizePath dir ≠ "/") :
    LastTouchedAt (_updateDirHistory tty command db).2 tty ↔ ¬ IsNext db tty dir := by
  have hnonneg := getIndex_nonneg db tty
  have hne : ¬ (standardizePath dir = "" ∨ standardizePath dir = "/") :=
    not_or.mpr ⟨standardizePath_ne_empty dir, hroot⟩
  unfold _updateDirHistory IsNext
  simp only [hdir, if_neg hne]
  by_cases hhere : standardizePath (getHistory db (getIndex db tty)) = standardizePath dir
  · rw [if_pos hhere]
    exact iff_of_true (setSetting_self _ _ _) fun hnext => hnext.1 hhere
  · rw [if_neg hhere]
    by_cases hnext : standardizePath (getHistory db (getIndex db tty + 1)) = standardizePath dir
    · rw [if_pos hnext]
      have hlt := (hdense.index_lt_of_entry (hnext ▸ hroot)).2
      refine iff_of_false (fun hat => ?_) (not_not.mpr ⟨hhere, hnext⟩)
      unfold LastTouchedAt at hat
      rw [getIndex_setSessionPointer (by omega)] at hat
      refine to_string_succ_ne hnonneg (by omega) ?_
      exact Option.some.inj ((setSetting_self db INDEX_OF_LAST_TOUCHED_DIR_KEY _).symm.trans hat)
    · rw [if_neg hnext]
      exact iff_of_true (lastTouchedAt_appendEntry hdense hint.le tty _) fun hboth =>
        hnext hboth.2

end

/-! ## The command -/

theorem construct_db_congr (env : Surroundings) (tty : Int) (s : TerminalState) :
    (construct env tty s).2.db = (construct env tty ⟨s.db, []⟩).2.db := by
  unfold construct
  dsimp only
  split <;> rfl

theorem ensureInstance_dense {s : TerminalState} {n : ℕ} (hdense : Dense s.db n)
    (hbound : n ≤ MAX_DIR_HISTORY_SIZE) (env : Surroundings) (tty : Int) :
    ∃ m ≤ MAX_DIR_HISTORY_SIZE, Dense (ensureInstance env tty s).2.db m := by
  unfold ensureInstance
  split
  · exact ⟨n, hbound, hdense⟩
  · have hcons : Consistent ⟨s.db, []⟩ n := ⟨hdense, hbound, fun hne => absurd rfl hne⟩
    have hmade := hcons.construct env tty
    rw [construct_db_congr]
    exact ⟨_, hmade.bound, hmade.dense⟩

/-- After an `updateDirHistory` that succeeds the last-touched index is the tty's
pointer unless the directory was found on the next row. -/
theorem updateDirHistory_lastTouchedAt_iff (env : Surroundings) (command : Json) (tty : Int)
    (s s' : TerminalState) (result : CmdResult) (dir : String)
    (hwf : HistoryWellFormed s.db) (htty : ttyArgument command = .ok (.inr tty))
    (hanswer : handle env .updateDirHistory command s = (.ok result, s'))
    (hstatus : result.status = 0) (hdir : getPWD command = .ok dir) :
    LastTouchedAt s'.db tty ↔ ¬ IsNext (ensureInstance env tty s).2.db tty dir := by
  obtain ⟨n, hn, hdense⟩ := hwf.dense
  obtain ⟨m, hm, hensured⟩ := ensureInstance_dense hdense hn env tty
  have hupdate : updateDirHistory env command s = (.ok result, s') := hanswer
  obtain ⟨-, hmethod⟩ := withInstance_eq_ok htty hupdate
  have hroot : standardizePath dir ≠ "/" := by
    intro hroot
    simp only [_updateDirHistory, hdir, if_pos (Or.inr hroot), Prod.mk.injEq,
      Except.ok.injEq] at hmethod
    rw [← hmethod.1] at hstatus
    contradiction
  have hiff := _updateDirHistory_lastTouchedAt_iff tty hensured
    (bound_le_INT_MAX hm) hdir hroot
  rwa [hmethod] at hiff

theorem nextReported_lastTouchedAt :
    LastTouchedAt (handle (surroundingsWith []) .updateDirHistory (pwdCommand 1 "/b")
      (wentBack "/a")).2.db 1 := by
  obtain ⟨n, hcons⟩ : ∃ n, Consistent (wentBack "/a") n := Consistent.initial.run _
  refine (updateDirHistory_lastTouchedAt_iff (surroundingsWith []) (pwdCommand 1 "/b") 1
    (wentBack "/a") _ ⟨0, "\n"⟩ "/b" hcons.wellFormed (by rfl) (by rfl) rfl (by rfl)).mpr ?_
  rintro ⟨-, hnext⟩
  revert hnext
  decide +kernel

/-- The terminal has gone back and its shell is moved on by hand. -/
theorem movedOn_not_lastTouchedAt :
    ¬ ∀ (env : Surroundings) (command : Json) (tty : Int) (s s' : TerminalState)
        (result : CmdResult), HistoryWellFormed s.db →
      ttyArgument command = .ok (.inr tty) →
      handle env .updateDirHistory command s = (.ok result, s') → result.status = 0 →
      LastTouchedAt s'.db tty := by
  intro hall
  obtain ⟨n, hcons⟩ : ∃ n, Consistent (wentBack "/a") n := Consistent.initial.run _
  have hat := hall (surroundingsWith []) (pwdCommand 1 "/a") 1 (wentBack "/a") _ ⟨0, "\n"⟩
    hcons.wellFormed (by rfl) (by rfl) rfl
  unfold LastTouchedAt at hat
  revert hat
  decide +kernel

end Terminal

end AutomateLinux
