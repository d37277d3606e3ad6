import AutomateLinux.OrderedMap
import AutomateLinux.StandardLibrary
import Mathlib

/-!
# The directory-history tables

The daemon keeps the directory history in three tables: the history rows by
index, one pointer into them for each terminal, and a settings row holding the
index touched last.  Every function below is the effect of its SQL statements
on the tables when they succeed; `pruneHistory` takes one flag for each of its
statements, because it is one `try` block and stops at the first that throws.
-/

namespace AutomateLinux

def INDEX_OF_LAST_TOUCHED_DIR_KEY : String := "indexOfLastTouchedDir"

def DIR_HISTORY_DEFAULT_DIR : String := "/opt/automateLinux/"

def MAX_DIR_HISTORY_SIZE : ℕ := 500

structure Database where
  terminal_history : OrderedMap Int String
  terminal_sessions : Int → Option Int
  system_settings : String → Option String

def Database.empty : Database where
  terminal_history := OrderedMap.empty
  terminal_sessions := fun _ => none
  system_settings := fun _ => none

namespace TerminalTable

def upsertHistory (db : Database) (index : Int) (path : String) : Database :=
  { db with terminal_history := db.terminal_history.insert index path }

/-- A missing row reads as the empty path. -/
def getHistory (db : Database) (index : Int) : String :=
  (db.terminal_history.get? index).getD ""

def setSessionPointer (db : Database) (tty index : Int) : Database :=
  { db with
    terminal_sessions := Function.update db.terminal_sessions tty (some index) }

def getSessionPointer (db : Database) (tty : Int) : Int :=
  (db.terminal_sessions tty).getD (-1)

def deleteSession (db : Database) (tty : Int) : Database :=
  { db with
    terminal_sessions := Function.update db.terminal_sessions tty none }

def getMaxHistoryIndex (db : Database) : Int :=
  db.terminal_history.maxKey?.getD (-1)

/-- The statements of `pruneHistory`, in the order they are executed. -/
inductive PruneStatement
  | countRows | minBefore | deleteOldest | minAfter
  | rebaseHistory | rebaseSessions | readLastTouched | writeLastTouched
deriving DecidableEq

theorem strictMono_rebase (d : Int) : StrictMono fun index : Int => index - d :=
  fun _ _ hlt => Int.sub_lt_sub_right hlt d

/-- `UPDATE terminal_history SET entry_index = entry_index - d`. -/
def rebaseHistory (db : Database) (d : Int) : Database :=
  { db with
    terminal_history :=
      db.terminal_history.mapKeys (fun index => index - d) (strictMono_rebase d) }

/-- `UPDATE terminal_sessions SET history_index =
GREATEST(0, history_index - d)`. -/
def rebaseSessions (db : Database) (d : Int) : Database :=
  { db with
    terminal_sessions := fun tty =>
      (db.terminal_sessions tty).map fun index => max 0 (index - d) }

/-- The last-touched index is text: it is rebased only when it reads as a
number, and a statement that throws here is swallowed. -/
def rebaseLastTouched (succeeds : PruneStatement → Bool) (db : Database)
    (d : Int) : Database :=
  match db.system_settings INDEX_OF_LAST_TOUCHED_DIR_KEY with
  | none => db
  | some val =>
      match stoi val with
      | .error _ => db
      | .ok oldIdx =>
          if succeeds .writeLastTouched then
            { db with
              system_settings :=
                Function.update db.system_settings INDEX_OF_LAST_TOUCHED_DIR_KEY
                  (some (to_string (max 0 (oldIdx - d)))) }
          else db

/-- Everything `pruneHistory` does from its `DELETE` statement on. -/
def pruneBelow (succeeds : PruneStatement → Bool) (db : Database)
    (cutoff : Int) : Database :=
  if !succeeds .deleteOldest then db else
  let db :=
    { db with
      terminal_history :=
        db.terminal_history.filterKeys fun index => decide (cutoff ≤ index) }
  if !succeeds .minAfter then db else
  let newMin := db.terminal_history.minKey?.getD 0
  if newMin ≤ 0 then db else
  if !succeeds .rebaseHistory then db else
  let db := rebaseHistory db newMin
  if !succeeds .rebaseSessions then db else
  let db := rebaseSessions db newMin
  if !succeeds .readLastTouched then db else
  rebaseLastTouched succeeds db newMin

def pruneHistory (succeeds : PruneStatement → Bool) (db : Database)
    (maxSize : Int) : Database :=
  if !succeeds .countRows then db else
  let count : Int := db.terminal_history.size
  if count ≤ maxSize then db else
  if !succeeds .minBefore then db else
  let minIndex := db.terminal_history.minKey?.getD 0
  pruneBelow succeeds db (minIndex + (count - maxSize))

end TerminalTable

namespace SettingsTable

def setSetting (db : Database) (key value : String) : Database :=
  { db with system_settings := Function.update db.system_settings key (some value) }

/-- A missing setting reads as the empty string. -/
def getSetting (db : Database) (key : String) : String :=
  (db.system_settings key).getD ""

end SettingsTable

end AutomateLinux
