import AutomateLinux.TerminalPruning

/-!
# A prune that is cut short

The statements of `pruneHistory` are no transaction: one that throws leaves what
the earlier ones have written.  The rows may then be gone or renumbered while
the pointers of the sessions, or the last-touched index, still are the old ones.
-/

namespace AutomateLinux

open TerminalTable SettingsTable

namespace TerminalTable

/-- Every pointer and the last-touched index refer to an entry. -/
structure ReferencesExist (db : Database) : Prop where
  index : ∀ i ∈ db.terminal_history.keys, 0 ≤ i
  session : ∀ tty p, db.terminal_sessions tty = some p → p ∈ db.terminal_history.keys
  lastTouched : ∀ val, db.system_settings INDEX_OF_LAST_TOUCHED_DIR_KEY = some val →
    ∃ i ∈ db.terminal_history.keys, stoi val = .ok i

theorem HistoryWellFormed.referencesExist {db : Database}
    (hwf : Terminal.HistoryWellFormed db) : ReferencesExist db := by
  obtain ⟨n, hbound, hdense⟩ := hwf.dense
  refine ⟨fun i hi => ((hdense.mem_keys i).mp hi).1, hwf.session, fun val hset => ?_⟩
  obtain ⟨i, hi, rfl⟩ := hwf.lastTouched val hset
  obtain ⟨hnonneg, hlt⟩ := (hdense.mem_keys i).mp hi
  have hmax := Terminal.bound_le_INT_MAX hbound
  exact ⟨i, hi, stoi_to_string_of_nonneg hnonneg (by omega)⟩

/-- The last-touched index reads as `i`. -/
def LastTouchedReads (db : Database) (i : Int) : Prop :=
  ∃ val, db.system_settings INDEX_OF_LAST_TOUCHED_DIR_KEY = some val ∧ stoi val = .ok i

/-- The bound below which entries are deleted, when the prune gets to that. -/
def deletedBelow (succeeds : PruneStatement → Bool) (db : Database) (maxSize : Int) :
    Option Int :=
  if succeeds .countRows ∧ maxSize < db.terminal_history.size ∧ succeeds .minBefore ∧
      succeeds .deleteOldest then
    some (db.terminal_history.minKey?.getD 0 + (db.terminal_history.size - maxSize))
  else none

/-- The entry of the old index `i` is deleted, or the new index `j` is that of an entry
with the same path. -/
def RefersOn (db db' : Database) (bound : Option Int) (i j : Int) : Prop :=
  j ∈ db'.terminal_history.keys ∧
    ((∀ cutoff, bound = some cutoff → cutoff ≤ i) → getHistory db' j = getHistory db i)

/-- The pointers of the sessions and the last-touched index still refer to entries, and
to the same paths where these have not been deleted. -/
structure ReferencesKept (db db' : Database) (bound : Option Int) : Prop where
  session : ∀ tty p, db.terminal_sessions tty = some p →
    ∃ p', db'.terminal_sessions tty = some p' ∧ RefersOn db db' bound p p'
  lastTouched : ∀ i, LastTouchedReads db i →
    ∃ i', LastTouchedReads db' i' ∧ RefersOn db db' bound i i'

/-- The old index `i` may stand among entries lowered by `d`. -/
def Stands (db : Database) (d i : Int) : Prop :=
  i + d ∈ db.terminal_history.keys ∧ (d ≤ i → getHistory db (i + d) = getHistory db i)

/-- The references that keep their old value when a statement after the deletion throws:
all, or the last-touched index alone; and what this asks of them. -/
def CutShortSafely (succeeds : PruneStatement → Bool) (db : Database) (maxSize : Int) : Prop :=
  let d := pruneOffset db maxSize
  let sessions := fun safe : Int → Prop => ∀ tty p, db.terminal_sessions tty = some p → safe p
  let lastTouched := fun safe : Int → Prop => ∀ i, LastTouchedReads db i → safe i
  if !succeeds .minAfter || !succeeds .rebaseHistory then
    sessions (d ≤ ·) ∧ lastTouched (d ≤ ·)
  else if !succeeds .rebaseSessions then sessions (Stands db d) ∧ lastTouched (Stands db d)
  else if !succeeds .readLastTouched || !succeeds .writeLastTouched then
    lastTouched (Stands db d)
  else True

variable {db db' : Database} {succeeds : PruneStatement → Bool} {maxSize cutoff : Int}

theorem pruneHistory_of_not_deleted (hnone : deletedBelow succeeds db maxSize = none) :
    pruneHistory succeeds db maxSize = db := by
  unfold deletedBelow at hnone
  unfold pruneHistory pruneBelow
  dsimp only
  cases hcount : succeeds .countRows with
  | false => rfl
  | true =>
      by_cases hle : (db.terminal_history.size : Int) ≤ maxSize
      · simp [hle]
      · cases hmin : succeeds .minBefore with
        | false => simp
        | true =>
            cases hdelete : succeeds .deleteOldest with
            | false => simp
            | true =>
                rw [if_pos ⟨hcount, not_le.mp hle, hmin, hdelete⟩] at hnone
                contradiction

theorem referencesKept_self (hrefs : ReferencesExist db) : ReferencesKept db db none where
  session := fun tty p hp => ⟨p, hp, hrefs.session tty p hp, fun _ => rfl⟩
  lastTouched := by
    rintro i ⟨val, hset, hval⟩
    obtain ⟨i', hi', hval'⟩ := hrefs.lastTouched val hset
    obtain rfl : i' = i := Except.ok.inj (hval'.symm.trans hval)
    exact ⟨i', ⟨val, hset, hval⟩, hi', fun _ => rfl⟩

/-- The rows once the oldest are deleted. -/
def withoutOldest (db : Database) (cutoff : Int) : Database :=
  { db with
    terminal_history :=
      db.terminal_history.filterKeys fun index => decide (cutoff ≤ index) }

/-- What the statements after the deletion do, from the first that throws. -/
theorem pruneHistory_of_deleted (hindex : ∀ i ∈ db.terminal_history.keys, 0 ≤ i)
    (hpos : 0 < maxSize) (hdeleted : deletedBelow succeeds db maxSize = some cutoff) :
    pruneHistory succeeds db maxSize =
      if !succeeds .minAfter || !succeeds .rebaseHistory then withoutOldest db cutoff
      else
        let rebased := rebaseHistory (withoutOldest db cutoff) (pruneOffset db maxSize)
        if !succeeds .rebaseSessions then rebased
        else
          let rebased := rebaseSessions rebased (pruneOffset db maxSize)
          if !succeeds .readLastTouched then rebased
          else rebaseLastTouched succeeds rebased (pruneOffset db maxSize) := by
  unfold deletedBelow at hdeleted
  split at hdeleted
  · rename_i hall
    obtain ⟨hcount, hlt, hminBefore, hdelete⟩ := hall
    obtain rfl := Option.some.inj hdeleted
    obtain ⟨hcutoff, hmin⟩ := minKey_aboveCutoff hindex hpos hlt
    have hleast := (OrderedMap.minKey?_eq_some_iff.mp hmin).1
    rw [OrderedMap.keys_filterKeys, List.mem_filter, decide_eq_true_iff] at hleast
    have hnot : ¬ pruneOffset db maxSize ≤ 0 := by omega
    have hle : ¬ (db.terminal_history.size : Int) ≤ maxSize := not_le.mpr hlt
    simp only [pruneHistory, pruneBelow, hcount, hminBefore, hdelete, Bool.not_true,
      Bool.false_eq_true, if_false, if_neg hle, hmin, Option.getD_some, if_neg hnot,
      withoutOldest]
    cases succeeds .minAfter <;> cases succeeds .rebaseHistory <;> rfl
  · contradiction

/-! ## The references after each statement -/

/-- The least index left, `d`, is the bound that matters for the entries. -/
structure LeastLeft (db : Database) (cutoff d : Int) : Prop where
  index : ∀ i ∈ db.terminal_history.keys, 0 ≤ i
  mem : d ∈ db.terminal_history.keys
  bound : ∀ i ∈ db.terminal_history.keys, cutoff ≤ i ↔ d ≤ i
  rows : ∀ i, (rebaseHistory (withoutOldest db cutoff) d).terminal_history.get? i =
    if 0 ≤ i then db.terminal_history.get? (i + d) else none

theorem leastLeft_pruneOffset (hindex : ∀ i ∈ db.terminal_history.keys, 0 ≤ i)
    (hpos : 0 < maxSize) (hdeleted : deletedBelow succeeds db maxSize = some cutoff) :
    LeastLeft db cutoff (pruneOffset db maxSize) := by
  unfold deletedBelow at hdeleted
  split at hdeleted
  · rename_i hall
    obtain rfl := Option.some.inj hdeleted
    obtain ⟨hcutoff, hmin⟩ := minKey_aboveCutoff hindex hpos hall.2.1
    have hrows := (prunedBy_pruneBelow hcutoff hmin).rows
    obtain ⟨hmem, hleast⟩ := OrderedMap.minKey?_eq_some_iff.mp hmin
    rw [OrderedMap.keys_filterKeys, List.mem_filter, decide_eq_true_iff] at hmem
    refine ⟨hindex, hmem.1, fun i hi => ⟨fun hle => ?_, fun hle => by omega⟩, fun i => ?_⟩
    · refine hleast i ?_
      rw [OrderedMap.keys_filterKeys, List.mem_filter]
      exact ⟨hi, decide_eq_true hle⟩
    · rw [← hrows]
      have hnot : ¬ pruneOffset db maxSize ≤ 0 := by omega
      simp only [pruneBelow, Bool.not_true, Bool.false_eq_true, if_false, hmin,
        Option.getD_some, if_neg hnot]
      rw [rebaseLastTouched_history]
      rfl
  · contradiction

section

variable {d i : Int}

theorem LeastLeft.kept_iff (hleft : LeastLeft db cutoff d) (hi : i ∈ db.terminal_history.keys) :
    (∀ cutoff', some cutoff = some cutoff' → cutoff' ≤ i) ↔ d ≤ i := by
  rw [← hleft.bound i hi]
  simp

theorem LeastLeft.refersOn_withoutOldest (hleft : LeastLeft db cutoff d)
    (hi : i ∈ db.terminal_history.keys) :
    RefersOn db (withoutOldest db cutoff) (some cutoff) i i ↔ d ≤ i := by
  have hrow : cutoff ≤ i → getHistory (withoutOldest db cutoff) i = getHistory db i := by
    intro hle
    unfold getHistory withoutOldest
    rw [OrderedMap.get?_filterKeys, if_pos (decide_eq_true hle)]
  unfold RefersOn
  rw [hleft.kept_iff hi, withoutOldest, OrderedMap.keys_filterKeys, List.mem_filter,
    decide_eq_true_iff, hleft.bound i hi]
  exact ⟨fun h => h.1.2, fun hle => ⟨⟨hi, hle⟩, fun _ => hrow ((hleft.bound i hi).mpr hle)⟩⟩

theorem LeastLeft.mem_keys_rebased (hleft : LeastLeft db cutoff d)
    (hhistory : db'.terminal_history =
      (rebaseHistory (withoutOldest db cutoff) d).terminal_history) (j : Int) :
    j ∈ db'.terminal_history.keys ↔ 0 ≤ j ∧ j + d ∈ db.terminal_history.keys := by
  rw [hhistory, OrderedMap.mem_keys_iff, OrderedMap.mem_keys_iff, hleft.rows]
  split <;> simp [*]

theorem LeastLeft.getHistory_rebased (hleft : LeastLeft db cutoff d)
    (hhistory : db'.terminal_history =
      (rebaseHistory (withoutOldest db cutoff) d).terminal_history) {j : Int}
    (hnonneg : 0 ≤ j) : getHistory db' j = getHistory db (j + d) := by
  unfold getHistory
  rw [hhistory, hleft.rows, if_pos hnonneg]

/-- A reference that is lowered with the entries follows its entry. -/
theorem LeastLeft.refersOn_lowered (hleft : LeastLeft db cutoff d)
    (hhistory : db'.terminal_history =
      (rebaseHistory (withoutOldest db cutoff) d).terminal_history)
    (hi : i ∈ db.terminal_history.keys) :
    RefersOn db db' (some cutoff) i (max 0 (i - d)) := by
  unfold RefersOn
  rw [hleft.kept_iff hi, hleft.mem_keys_rebased hhistory]
  by_cases hle : d ≤ i
  · have hlowered : max 0 (i - d) = i - d := max_eq_right (by omega)
    have hback : i - d + d = i := by omega
    rw [hlowered, hback]
    refine ⟨⟨by omega, hi⟩, fun _ => ?_⟩
    rw [hleft.getHistory_rebased hhistory (by omega), hback]
  · have hlowered : max 0 (i - d) = 0 := max_eq_left (by omega)
    rw [hlowered, zero_add]
    exact ⟨⟨le_rfl, hleft.mem⟩, fun hle' => absurd hle' hle⟩

/-- A reference that is not lowered stands on whatever entry has come to its index. -/
theorem LeastLeft.refersOn_rebased (hleft : LeastLeft db cutoff d)
    (hhistory : db'.terminal_history =
      (rebaseHistory (withoutOldest db cutoff) d).terminal_history)
    (hi : i ∈ db.terminal_history.keys) :
    RefersOn db db' (some cutoff) i i ↔ Stands db d i := by
  have hnonneg := hleft.index i hi
  unfold RefersOn Stands
  rw [hleft.kept_iff hi, hleft.mem_keys_rebased hhistory,
    hleft.getHistory_rebased hhistory hnonneg]
  simp [hnonneg]

end

theorem lastTouchedReads_congr (hsettings : db'.system_settings = db.system_settings) {i : Int} :
    LastTouchedReads db' i ↔ LastTouchedReads db i := by
  unfold LastTouchedReads
  rw [hsettings]

theorem LastTouchedReads.unique {i j : Int} (hi : LastTouchedReads db i)
    (hj : LastTouchedReads db j) : i = j := by
  obtain ⟨val, hset, hval⟩ := hi
  obtain ⟨val', hset', hval'⟩ := hj
  obtain rfl := Option.some.inj (hset.symm.trans hset')
  exact Except.ok.inj (hval.symm.trans hval')

theorem ReferencesExist.mem_of_reads (hrefs : ReferencesExist db) {i : Int}
    (hi : LastTouchedReads db i) : i ∈ db.terminal_history.keys := by
  obtain ⟨val, hset, -⟩ := id hi
  obtain ⟨j, hj, hval⟩ := hrefs.lastTouched val hset
  rwa [hi.unique ⟨val, hset, hval⟩]

/-- Where the pointers are the old ones, each has to refer on under its old index. -/
theorem sessions_kept_iff (hsessions : db'.terminal_sessions = db.terminal_sessions)
    {bound : Option Int} {safe : Int → Prop} (hrefs : ReferencesExist db)
    (hsafe : ∀ i ∈ db.terminal_history.keys, RefersOn db db' bound i i ↔ safe i) :
    (∀ tty p, db.terminal_sessions tty = some p →
        ∃ p', db'.terminal_sessions tty = some p' ∧ RefersOn db db' bound p p') ↔
      ∀ tty p, db.terminal_sessions tty = some p → safe p := by
  rw [hsessions]
  refine forall₃_congr fun tty p hp => ?_
  rw [← hsafe p (hrefs.session tty p hp)]
  simp [hp]

theorem lastTouched_kept_iff (hsettings : db'.system_settings = db.system_settings)
    {bound : Option Int} {safe : Int → Prop} (hrefs : ReferencesExist db)
    (hsafe : ∀ i ∈ db.terminal_history.keys, RefersOn db db' bound i i ↔ safe i) :
    (∀ i, LastTouchedReads db i → ∃ i', LastTouchedReads db' i' ∧ RefersOn db db' bound i i') ↔
      ∀ i, LastTouchedReads db i → safe i := by
  refine forall₂_congr fun i hi => ?_
  rw [← hsafe i (hrefs.mem_of_reads hi)]
  simp only [lastTouchedReads_congr hsettings]
  exact ⟨fun ⟨i', hi', hrefers⟩ => by rwa [← hi.unique hi'] at hrefers,
    fun hrefers => ⟨i, hi, hrefers⟩⟩

theorem referencesKept_iff {bound : Option Int} :
    ReferencesKept db db' bound ↔
      (∀ tty p, db.terminal_sessions tty = some p →
        ∃ p', db'.terminal_sessions tty = some p' ∧ RefersOn db db' bound p p') ∧
      ∀ i, LastTouchedReads db i →
        ∃ i', LastTouchedReads db' i' ∧ RefersOn db db' bound i i' :=
  ⟨fun h => ⟨h.session, h.lastTouched⟩, fun h => ⟨h.1, h.2⟩⟩

theorem rebaseLastTouched_of_write_throws (hthrows : succeeds .writeLastTouched = false)
    (d : Int) : rebaseLastTouched succeeds db d = db := by
  unfold rebaseLastTouched
  split
  · rfl
  · split
    · rfl
    · rw [hthrows]
      rfl

theorem lastTouchedReads_rebased {i d : Int} (hi : LastTouchedReads db i) (hd : 0 ≤ d)
    (hwrites : succeeds .writeLastTouched = true) :
    LastTouchedReads (rebaseLastTouched succeeds db d) (max 0 (i - d)) := by
  obtain ⟨val, hset, hval⟩ := hi
  refine ⟨to_string (max 0 (i - d)), ?_, stoi_to_string_max hval hd⟩
  simp only [rebaseLastTouched, hset, hval, hwrites, if_true, Function.update_self]

/-- Pointers that are lowered with the entries follow them, and the last-touched index
is all that is left to see to. -/
theorem LeastLeft.referencesKept_lowered_iff {d : Int} (hleft : LeastLeft db cutoff d)
    (hrefs : ReferencesExist db)
    (hhistory : db'.terminal_history =
      (rebaseHistory (withoutOldest db cutoff) d).terminal_history)
    (hsessions : db'.terminal_sessions = (rebaseSessions db d).terminal_sessions) :
    ReferencesKept db db' (some cutoff) ↔
      ∀ i, LastTouchedReads db i →
        ∃ i', LastTouchedReads db' i' ∧ RefersOn db db' (some cutoff) i i' := by
  rw [referencesKept_iff]
  refine and_iff_right fun tty p hp => ?_
  refine ⟨max 0 (p - d), ?_, hleft.refersOn_lowered hhistory (hrefs.session tty p hp)⟩
  rw [hsessions]
  simp [rebaseSessions, hp]

/-- Whichever statements throw: after a prune the pointers and the last-touched index
still refer to their entries exactly when nothing was deleted or the prune was cut
short safely. -/
theorem pruneHistory_referencesKept_iff (succeeds : PruneStatement → Bool) (db : Database)
    (maxSize : Int) (hrefs : ReferencesExist db) (hmax : 1 ≤ maxSize) :
    ReferencesKept db (pruneHistory succeeds db maxSize) (deletedBelow succeeds db maxSize) ↔
      (deletedBelow succeeds db maxSize ≠ none → CutShortSafely succeeds db maxSize) := by
  cases hdeleted : deletedBelow succeeds db maxSize with
  | none =>
      rw [pruneHistory_of_not_deleted hdeleted]
      exact iff_of_true (referencesKept_self hrefs) fun hne => absurd rfl hne
  | some cutoff =>
      have hleft := leastLeft_pruneOffset hrefs.index (by omega) hdeleted
      rw [pruneHistory_of_deleted hrefs.index (by omega) hdeleted, CutShortSafely]
      generalize pruneOffset db maxSize = d at hleft
      have hd : 0 ≤ d := hleft.index d hleft.mem
      simp only [ne_eq, reduceCtorEq, not_false_eq_true, forall_const]
      by_cases hearly : (!succeeds .minAfter || !succeeds .rebaseHistory) = true
      · rw [if_pos hearly, if_pos hearly, referencesKept_iff]
        exact and_congr
          (sessions_kept_iff (by rfl) hrefs fun i hi => hleft.refersOn_withoutOldest hi)
          (lastTouched_kept_iff (by rfl) hrefs fun i hi => hleft.refersOn_withoutOldest hi)
      rw [if_neg hearly, if_neg hearly]
      by_cases hsessions : (!succeeds .rebaseSessions) = true
      · rw [if_pos hsessions, if_pos hsessions, referencesKept_iff]
        exact and_congr
          (sessions_kept_iff (by rfl) hrefs fun i hi => hleft.refersOn_rebased (by rfl) hi)
          (lastTouched_kept_iff (by rfl) hrefs fun i hi => hleft.refersOn_rebased (by rfl) hi)
      rw [if_neg hsessions, if_neg hsessions]
      by_cases hread : (!succeeds .readLastTouched || !succeeds .writeLastTouched) = true
      · have hold : ∀ db : Database, (if !succeeds .readLastTouched then db
            else rebaseLastTouched succeeds db d) = db := by
          intro db
          cases hreads : succeeds .readLastTouched with
          | false => rfl
          | true => exact rebaseLastTouched_of_write_throws (by simpa [hreads] using hread) d
        rw [hold, if_pos hread, hleft.referencesKept_lowered_iff hrefs (by rfl) (by rfl)]
        exact lastTouched_kept_iff (by rfl) hrefs fun i hi => hleft.refersOn_rebased (by rfl) hi
      · obtain ⟨hreads, hwrites⟩ : succeeds .readLastTouched = true ∧
            succeeds .writeLastTouched = true := by simpa using hread
        have hhistory := rebaseLastTouched_history succeeds
          (rebaseSessions (rebaseHistory (withoutOldest db cutoff) d) d) d
        have hlowered := rebaseLastTouched_sessions succeeds
          (rebaseSessions (rebaseHistory (withoutOldest db cutoff) d) d) d
        rw [if_neg hread, if_neg (by simp [hreads]),
          hleft.referencesKept_lowered_iff hrefs hhistory hlowered]
        refine iff_true_intro fun i hi => ⟨max 0 (i - d), ?_, ?_⟩
        · exact lastTouchedReads_rebased ((lastTouchedReads_congr (by rfl)).mpr hi) hd hwrites
        · exact hleft.refersOn_lowered hhistory (hrefs.mem_of_reads hi)

/-- Three entries, with a session on the newest. -/
def threeEntries : Database where
  terminal_history :=
    ((OrderedMap.empty.insert 0 "/a/").insert 1 "/b/").insert 2 "/c/"
  terminal_sessions := fun tty => if tty = 1 then some 2 else none
  system_settings := fun key =>
    if key = INDEX_OF_LAST_TOUCHED_DIR_KEY then some "2" else none

theorem threeEntries_wellFormed : Terminal.HistoryWellFormed threeEntries where
  rows := ⟨3, by decide, by decide⟩
  session := by
    intro tty p hp
    simp only [threeEntries] at hp
    split_ifs at hp
    obtain rfl := Option.some.inj hp
    decide
  lastTouched := by
    intro text htext
    obtain rfl : "2" = text := Option.some.inj htext
    exact ⟨2, by decide, by rfl⟩

theorem threeEntries_cutShortSafely :
    ReferencesKept threeEntries
      (pruneHistory (fun statement => statement ≠ .rebaseHistory) threeEntries 2)
      (deletedBelow (fun statement => statement ≠ .rebaseHistory) threeEntries 2) := by
  refine (pruneHistory_referencesKept_iff _ threeEntries 2
    (HistoryWellFormed.referencesExist threeEntries_wellFormed) (by decide)).mpr fun _ => ?_
  have hoffset : pruneOffset threeEntries 2 = 1 := by decide +kernel
  show (∀ tty p, _ → _) ∧ ∀ i, _ → _
  rw [hoffset]
  constructor
  · intro tty p hp
    simp only [threeEntries] at hp
    split_ifs at hp
    obtain rfl := Option.some.inj hp
    decide
  · intro i hi
    obtain rfl : i = 2 := hi.unique ⟨"2", by rfl, by rfl⟩
    decide

/-- The rows are renumbered and the statement that lowers the pointers throws. -/
theorem threeEntries_not_referencesKept :
    ¬ ∀ (succeeds : PruneStatement → Bool) (db : Database) (maxSize : Int),
      Terminal.HistoryWellFormed db → 1 ≤ maxSize →
      ReferencesKept db (pruneHistory succeeds db maxSize) (deletedBelow succeeds db maxSize) := by
  intro hall
  have hkept := hall (fun statement => statement ≠ .rebaseSessions) threeEntries 2
    threeEntries_wellFormed (by decide)
  obtain ⟨p, hp, hmem, -⟩ := hkept.session 1 2 (by rfl)
  have hpointer : (pruneHistory (fun statement => statement ≠ .rebaseSessions) threeEntries
      2).terminal_sessions 1 = some 2 := by decide +kernel
  obtain rfl : (2 : Int) = p := Option.some.inj (hpointer.symm.trans hp)
  revert hmem
  decide +kernel

end TerminalTable

end AutomateLinux
