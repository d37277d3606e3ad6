import AutomateLinux.NumberText
import AutomateLinux.JsonValue
import AutomateLinux.ResponseReaders
import Mathlib.Data.List.Induction
import Mathlib.Algebra.Ring.Parity

/-!
# The logging mask

The daemon keeps the categories it logs in an `unsigned int` and stores it as
decimal text, from which a restarted daemon reads it back.  The clock extension
shows eight of the categories as switches.  A switch that is toggled changes one
bit of the menu's own mask, a JavaScript number that its bitwise operators make
signed, and sends the daemon the whole mask.

Every message opens a connection of its own, so the daemon may handle the
messages of one menu in another order than they were sent in.
-/

namespace AutomateLinux

open TextOperations ResponseReaders

def LOG_NONE : BitVec 32 := 0
def LOG_INPUT : BitVec 32 := 1 <<< 0
def LOG_WINDOW : BitVec 32 := 1 <<< 1
def LOG_AUTOMATION : BitVec 32 := 1 <<< 2
def LOG_CORE : BitVec 32 := 1 <<< 3
def LOG_MACROS : BitVec 32 := 1 <<< 4
def LOG_NETWORK : BitVec 32 := 1 <<< 5
def LOG_CHROME : BitVec 32 := 1 <<< 6
def LOG_TERMINAL : BitVec 32 := 1 <<< 7
def LOG_INPUT_DEBUG : BitVec 32 := 1 <<< 8

def LOG_ALL : BitVec 32 :=
  LOG_INPUT ||| LOG_WINDOW ||| LOG_AUTOMATION ||| LOG_CORE ||| LOG_MACROS |||
    LOG_NETWORK ||| LOG_CHROME ||| LOG_TERMINAL ||| LOG_INPUT_DEBUG

def ULONG_MAX : ℕ := 18446744073709551615

/-- A minus sign negates in `unsigned long`. -/
def stoul (text : String) : Except Exn (BitVec 64) :=
  match signedPrefix (text.toList.dropWhile isspace) with
  | none => .error ⟨"stoul"⟩
  | some value =>
      if value.natAbs ≤ ULONG_MAX then .ok (BitVec.ofInt 64 value) else .error ⟨"stoul"⟩

/-- The daemon's mask and the text of the setting `shouldLogState`, which is
empty when there is none. -/
structure LoggingDaemon where
  shouldLog : BitVec 32 := LOG_ALL
  shouldLogState : String := ""
deriving DecidableEq, Repr

namespace LoggingDaemon

/-- The mask a command asks for. -/
def newLogMask (val : Json) : Except String (BitVec 32) :=
  match val with
  | .string enableStr =>
      if enableStr = "true" then .ok LOG_ALL
      else if enableStr = "false" then .ok LOG_NONE
      else
        match stoul enableStr with
        | .ok value => .ok (value.setWidth 32)
        | .error _ => .error "Invalid logging value string.\n"
  | val =>
      if val.is_number then
        match val.getUInt 32 with
        | .ok value => .ok (BitVec.ofNat 32 value)
        | .error exn => .error exn.what
      else .error "Invalid logging value type.\n"

/-- `setSetting` writes nothing when the database is out of reach, and says
nothing either. -/
def handleShouldLog (databaseUp : Bool) (val : Json) (d : LoggingDaemon) :
    CmdResult × LoggingDaemon :=
  match newLogMask val with
  | .error message => (⟨1, message⟩, d)
  | .ok mask =>
      (⟨0, "Logging mask set to: " ++ to_string mask.toNat ++ "\n"⟩,
        { shouldLog := mask,
          shouldLogState := if databaseUp then to_string mask.toNat else d.shouldLogState })

def handleGetShouldLog (d : LoggingDaemon) : CmdResult :=
  ⟨0, to_string d.shouldLog.toNat ++ "\n"⟩

/-- How `initialize_daemon` restores the mask. -/
def initialize_daemon (databaseUp : Bool) (d : LoggingDaemon) : LoggingDaemon :=
  let savedLogState := if databaseUp then d.shouldLogState else ""
  { d with
    shouldLog :=
      if savedLogState ≠ "" then
        match stoul savedLogState with
        | .ok value => value.setWidth 32
        | .error _ => LOG_CORE
      else LOG_CORE }

/-- What clients and restarts do to the daemon. -/
inductive Action where
  | shouldLog (databaseUp : Bool) (val : Json)
  | getShouldLog
  | restart (databaseUp : Bool)

def Action.databaseUp : Action → Bool
  | .shouldLog up _ => up
  | .getShouldLog => true
  | .restart up => up

def Action.isCommand : Action → Bool
  | .restart _ => false
  | _ => true

/-- One action, with the reply to a command. -/
def act (d : LoggingDaemon) : Action → List CmdResult × LoggingDaemon
  | .shouldLog up val => ([(d.handleShouldLog up val).1], (d.handleShouldLog up val).2)
  | .getShouldLog => ([d.handleGetShouldLog], d)
  | .restart up => ([], d.initialize_daemon up)

def run (d : LoggingDaemon) : List Action → List CmdResult × LoggingDaemon
  | [] => ([], d)
  | action :: actions =>
      let result := (d.act action).2.run actions
      ((d.act action).1 ++ result.1, result.2)

end LoggingDaemon

theorem stoul_to_string {value : Int} (hlower : LLONG_MIN ≤ value)
    (hupper : value ≤ LLONG_MAX) : stoul (to_string value) = .ok (BitVec.ofInt 64 value) := by
  have hrange : value.natAbs ≤ ULONG_MAX := by
    simp only [LLONG_MIN, LLONG_MAX, ULONG_MAX] at *
    omega
  simp only [stoul, signedPrefix_to_string hlower hupper, hrange, if_true]

theorem stoul_to_string_toNat (mask : BitVec 32) :
    stoul (to_string mask.toNat) = .ok (BitVec.ofNat 64 mask.toNat) := by
  have hmask := mask.isLt
  rw [stoul_to_string (by simp only [LLONG_MIN]; omega) (by simp only [LLONG_MAX]; omega)]
  rfl

theorem to_string_toNat_ne_empty (mask : BitVec 32) : to_string mask.toNat ≠ "" := by
  intro hempty
  have hread := stoul_to_string_toNat mask
  rw [hempty] at hread
  cases hread

namespace LoggingDaemon

/-- A restart would change nothing. -/
def Restored (d : LoggingDaemon) : Prop := d.initialize_daemon true = d

theorem restored_initialize_daemon (d : LoggingDaemon) : (d.initialize_daemon true).Restored :=
  rfl

/-- The setting holds the mask. -/
theorem restored_of_stored (mask : BitVec 32) : Restored ⟨mask, to_string mask.toNat⟩ := by
  have hvalue : (BitVec.ofNat 64 mask.toNat).setWidth 32 = mask := by
    apply BitVec.eq_of_toNat_eq
    have hmask := mask.isLt
    simp only [BitVec.toNat_setWidth, BitVec.toNat_ofNat]
    omega
  simp only [Restored, LoggingDaemon.initialize_daemon, if_true, ne_eq,
    to_string_toNat_ne_empty, not_false_eq_true, stoul_to_string_toNat, hvalue]

theorem Restored.act {d : LoggingDaemon} (hd : d.Restored) {action : Action}
    (hup : action.databaseUp = true) : (d.act action).2.Restored := by
  cases action with
  | shouldLog up val =>
      obtain rfl : up = true := hup
      simp only [LoggingDaemon.act, handleShouldLog]
      split
      · exact hd
      · exact restored_of_stored _
  | getShouldLog => exact hd
  | restart up =>
      obtain rfl : up = true := hup
      exact restored_initialize_daemon d

theorem Restored.run_of_databaseUp {d : LoggingDaemon} (hd : d.Restored) (actions : List Action)
    (hup : ∀ action ∈ actions, action.databaseUp = true) :
    d.run actions = d.run (actions.filter Action.isCommand) := by
  induction actions generalizing d with
  | nil => rfl
  | cons action actions ih =>
      have hrest := ih (hd.act (hup action List.mem_cons_self)) fun other hother =>
        hup other (List.mem_cons_of_mem _ hother)
      cases action with
      | restart up =>
          obtain rfl : up = true := hup _ List.mem_cons_self
          have hsame : d.initialize_daemon true = d := hd
          rw [List.filter_cons_of_neg (by simp [Action.isCommand]), LoggingDaemon.run]
          simp only [LoggingDaemon.act, hsame, List.nil_append] at hrest ⊢
          rw [hrest]
      | shouldLog up val =>
          rw [List.filter_cons_of_pos rfl, LoggingDaemon.run, LoggingDaemon.run, hrest]
      | getShouldLog =>
          rw [List.filter_cons_of_pos rfl, LoggingDaemon.run, LoggingDaemon.run, hrest]

/-- While the database is in reach no client can tell a daemon that was restarted from one
that was not, whatever text the setting held when the daemon started. -/
theorem run_restarts (d : LoggingDaemon) (actions : List Action)
    (hup : ∀ action ∈ actions, action.databaseUp = true) :
    (d.initialize_daemon true).run actions =
      (d.initialize_daemon true).run (actions.filter Action.isCommand) :=
  (restored_initialize_daemon d).run_of_databaseUp actions hup

/-- A fresh database. -/
theorem run_restarts_core :
    (initialize_daemon true {}).run
        [.restart true, .shouldLog true (.number_integer (-1)), .restart true, .getShouldLog] =
      (initialize_daemon true {}).run ([Action.restart true,
        .shouldLog true (.number_integer (-1)), .restart true,
        .getShouldLog].filter Action.isCommand) :=
  run_restarts {} _ (by simp [Action.databaseUp])

end LoggingDaemon

/-- The categories the menu has switches for. -/
inductive LogCategory where
  | input
  | window
  | automation
  | core
  | macroDebug
  | network
  | chrome
  | terminal
deriving DecidableEq, Repr

namespace LogCategory

/-- The bit of the mask that stands for the category. -/
def bit : LogCategory → ℕ
  | input => 0
  | window => 1
  | automation => 2
  | core => 3
  | macroDebug => 4
  | network => 5
  | chrome => 6
  | terminal => 7

def mask (cat : LogCategory) : BitVec 32 := BitVec.twoPow 32 cat.bit

theorem bit_injective : Function.Injective bit := by
  intro cat other hbit
  cases cat <;> cases other <;> first | rfl | cases hbit

theorem bit_lt (cat : LogCategory) : cat.bit < 32 := by
  cases cat <;> decide

theorem getLsbD_mask (cat : LogCategory) (i : ℕ) :
    cat.mask.getLsbD i = decide (i = cat.bit) := by
  rw [mask, BitVec.getLsbD_twoPow]
  simp [bit_lt, eq_comm]

end LogCategory

/-- JavaScript's bitwise operators work on numbers modulo `2 ^ 32`. -/
def toInt32 (value : Int) : BitVec 32 := BitVec.ofInt 32 value

/-- `parseInt` of decimal text. -/
def parseInt (text : String) : Option Int :=
  signedPrefix (text.toList.dropWhile isspace)

structure LogMenu where
  _daemonLoggingMask : Int
  _logItems : LogCategory → Bool

namespace LogMenu

def _loadDaemonLoggingState (response : String) : LogMenu :=
  let trimmed := String.ofList (trim isJsSpace response.toList)
  let mask :=
    if trimmed = "true" then 15
    else if trimmed = "false" then 0
    else (parseInt trimmed).getD 0
  { _daemonLoggingMask := mask
    _logItems := fun cat => toInt32 mask &&& cat.mask ≠ 0 }

/-- A switch changes its state and hands the new one on; the text is the
message's `enable`. -/
def _onLogCategoryToggled (menu : LogMenu) (cat : LogCategory) : String × LogMenu :=
  let state := !menu._logItems cat
  let mask :=
    if state then (toInt32 menu._daemonLoggingMask ||| cat.mask).toInt
    else (toInt32 menu._daemonLoggingMask &&& ~~~cat.mask).toInt
  (to_string mask,
    { _daemonLoggingMask := mask
      _logItems := Function.update menu._logItems cat state })

end LogMenu

/-- A daemon, the menu and every message the menu has sent. -/
structure LogSystem where
  daemon : LoggingDaemon
  menu : LogMenu
  sent : List String := []

/-- The daemon may handle any message that was sent, whatever it has handled
before; `other` is the command of another client. -/
inductive LogAction where
  | toggled (cat : LogCategory)
  | handled (k : ℕ) (databaseUp : Bool)
  | other (databaseUp : Bool) (val : Json)
  | restart (databaseUp : Bool)

namespace LogSystem

def loaded (d : LoggingDaemon) : LogSystem :=
  { daemon := d, menu := LogMenu._loadDaemonLoggingState d.handleGetShouldLog.message }

def step (s : LogSystem) : LogAction → LogSystem
  | .toggled cat =>
      { s with
        menu := (s.menu._onLogCategoryToggled cat).2
        sent := s.sent ++ [(s.menu._onLogCategoryToggled cat).1] }
  | .handled k up =>
      match s.sent[k]? with
      | some enable => { s with daemon := (s.daemon.handleShouldLog up (.string enable)).2 }
      | none => s
  | .other up val => { s with daemon := (s.daemon.handleShouldLog up val).2 }
  | .restart up => { s with daemon := s.daemon.initialize_daemon up }

def run (s : LogSystem) (actions : List LogAction) : LogSystem := actions.foldl step s

end LogSystem

/-- The switches toggled in a run, in order. -/
def toggledIn (actions : List LogAction) : List LogCategory :=
  actions.filterMap fun
    | .toggled cat => some cat
    | _ => none

/-- Actions that leave the mask alone, a restart only if it was stored. -/
def LogAction.keepsMask (stored : Bool) : LogAction → Bool
  | .toggled _ => true
  | .restart up => stored && up
  | _ => false

/-- Whether a bit that starts as `initial` is set once the switches in `cats`
have been toggled. -/
def bitAfter (initial : BitVec 32) (cats : List LogCategory) (i : ℕ) : Bool :=
  initial.getLsbD i ^^ decide (Odd (cats.countP fun cat => cat.bit = i))

def flips (initial : BitVec 32) (cats : List LogCategory) : BitVec 32 :=
  cats.foldl (fun mask cat => mask ^^^ cat.mask) initial

theorem flips_append_singleton (initial : BitVec 32) (cats : List LogCategory)
    (cat : LogCategory) : flips initial (cats ++ [cat]) = flips initial cats ^^^ cat.mask := by
  simp [flips]

theorem getLsbD_flips (initial : BitVec 32) (cats : List LogCategory) (i : ℕ) :
    (flips initial cats).getLsbD i = bitAfter initial cats i := by
  induction cats using List.reverseRecOn with
  | nil => simp [flips, bitAfter]
  | append_singleton cats cat ih =>
      rw [flips_append_singleton, BitVec.getLsbD_xor, ih, LogCategory.getLsbD_mask, bitAfter,
        bitAfter, List.countP_append, Bool.xor_assoc]
      by_cases hbit : i = cat.bit
      · subst hbit
        by_cases hodd : Odd (cats.countP fun other => other.bit = cat.bit) <;>
          simp [Nat.odd_add_one, hodd]
      · simp [hbit, Ne.symm hbit]

theorem newLogMask_to_string (mask : BitVec 32) :
    LoggingDaemon.newLogMask (.string (to_string mask.toInt)) = .ok mask := by
  have hlower := BitVec.le_toInt mask
  have hupper := @BitVec.toInt_lt 32 mask
  have hread : stoul (to_string mask.toInt) = .ok (BitVec.ofInt 64 mask.toInt) :=
    stoul_to_string (by simp only [LLONG_MIN]; omega) (by simp only [LLONG_MAX]; omega)
  have hvalue : (BitVec.ofInt 64 mask.toInt).setWidth 32 = mask := by
    apply BitVec.eq_of_toNat_eq
    have hmask := mask.isLt
    rw [BitVec.toNat_setWidth, BitVec.toNat_ofInt, BitVec.toInt_eq_toNat_cond]
    split <;> omega
  have htrue : to_string mask.toInt ≠ "true" := fun htext => by
    rw [htext] at hread
    cases hread
  have hfalse : to_string mask.toInt ≠ "false" := fun htext => by
    rw [htext] at hread
    cases hread
  simp only [LoggingDaemon.newLogMask, htrue, hfalse, if_false, hread, hvalue]

/-- The menu holds this mask and its switches show it. -/
structure LogMenu.Shows (menu : LogMenu) (mask : BitVec 32) : Prop where
  number : toInt32 menu._daemonLoggingMask = mask
  items : ∀ cat, menu._logItems cat = mask.getLsbD cat.bit

theorem and_mask_ne_zero (mask : BitVec 32) (cat : LogCategory) :
    decide (mask &&& cat.mask ≠ 0) = mask.getLsbD cat.bit := by
  have hne : BitVec.twoPow 32 cat.bit ≠ 0 := by
    cases cat <;> decide
  rw [LogCategory.mask, BitVec.and_twoPow]
  split
  · next hbit => simpa [hbit] using hne
  · next hbit => simp [hbit]

theorem isJsSpace_of_isDigit {c : Char} (hc : c.isDigit = true) : isJsSpace c = false := by
  have hrange : 48 ≤ c.toNat ∧ c.toNat ≤ 57 := by
    simpa [Char.isDigit, UInt32.le_iff_toNat_le] using hc
  simp only [isJsSpace, isUnicodeSpace, Bool.or_eq_false_iff, Bool.and_eq_false_iff,
    decide_eq_false_iff_not]
  omega

theorem shows_loaded (d : LoggingDaemon) :
    (LogSystem.loaded d).menu.Shows d.shouldLog := by
  have hmask := d.shouldLog.isLt
  have hread : parseInt (to_string d.shouldLog.toNat) = some (d.shouldLog.toNat : Int) :=
    signedPrefix_to_string (by simp only [LLONG_MIN]; omega) (by simp only [LLONG_MAX]; omega)
  have htrim : String.ofList (trim isJsSpace d.handleGetShouldLog.message.toList) =
      to_string d.shouldLog.toNat := by
    have hdigits : ∀ c ∈ (to_string d.shouldLog.toNat).toList, isJsSpace c = false := by
      intro c hc
      have htext : (to_string d.shouldLog.toNat).toList = Nat.toDigits 10 d.shouldLog.toNat :=
        Nat.toList_repr
      exact isJsSpace_of_isDigit (isDigit_toDigits d.shouldLog.toNat c (htext ▸ hc))
    have hafter := @trim_surrounded _ isJsSpace (to_string d.shouldLog.toNat).toList [] ['\n']
      (by simp) (by simp [isJsSpace, isUnicodeSpace])
    rw [LoggingDaemon.handleGetShouldLog, String.toList_append]
    simp only [List.nil_append] at hafter
    rw [show "\n".toList = ['\n'] from rfl, hafter, trim_eq_self hdigits, String.ofList_toList]
  have htrue : to_string d.shouldLog.toNat ≠ "true" := fun htext => by
    rw [htext] at hread
    cases hread
  have hfalse : to_string d.shouldLog.toNat ≠ "false" := fun htext => by
    rw [htext] at hread
    cases hread
  have hvalue : toInt32 (d.shouldLog.toNat : Int) = d.shouldLog := by
    rw [toInt32, BitVec.ofInt_natCast, BitVec.ofNat_toNat, BitVec.setWidth_eq]
  refine ⟨?_, fun cat => ?_⟩
  · simp only [LogSystem.loaded, LogMenu._loadDaemonLoggingState, htrim, htrue, hfalse, if_false,
      hread, Option.getD_some, hvalue]
  · simp only [LogSystem.loaded, LogMenu._loadDaemonLoggingState, htrim, htrue, hfalse, if_false,
      hread, Option.getD_some, hvalue, and_mask_ne_zero]

theorem or_mask {mask : BitVec 32} {cat : LogCategory} (hbit : mask.getLsbD cat.bit = false) :
    mask ||| cat.mask = mask ^^^ cat.mask := by
  refine BitVec.eq_of_getLsbD_eq fun i _ => ?_
  rw [BitVec.getLsbD_or, BitVec.getLsbD_xor, LogCategory.getLsbD_mask]
  by_cases hi : i = cat.bit
  · simp [hi, hbit]
  · simp [hi]

theorem and_not_mask {mask : BitVec 32} {cat : LogCategory}
    (hbit : mask.getLsbD cat.bit = true) : mask &&& ~~~cat.mask = mask ^^^ cat.mask := by
  refine BitVec.eq_of_getLsbD_eq fun i hi => ?_
  rw [BitVec.getLsbD_and, BitVec.getLsbD_not, BitVec.getLsbD_xor, LogCategory.getLsbD_mask]
  by_cases hi : i = cat.bit
  · simp [hi, hbit]
  · simp_all

theorem LogMenu.Shows.toggled {menu : LogMenu} {mask : BitVec 32} (hmenu : menu.Shows mask)
    (cat : LogCategory) :
    (menu._onLogCategoryToggled cat).1 = to_string (mask ^^^ cat.mask).toInt ∧
      (menu._onLogCategoryToggled cat).2.Shows (mask ^^^ cat.mask) := by
  have hmask : (if !menu._logItems cat then
        (toInt32 menu._daemonLoggingMask ||| cat.mask).toInt
      else (toInt32 menu._daemonLoggingMask &&& ~~~cat.mask).toInt) =
      (mask ^^^ cat.mask).toInt := by
    rw [hmenu.number, hmenu.items]
    by_cases hbit : mask.getLsbD cat.bit = true
    · rw [hbit, ← and_not_mask hbit]
      rfl
    · rw [Bool.not_eq_true] at hbit
      rw [hbit, ← or_mask hbit]
      rfl
  refine ⟨congrArg to_string hmask, ?_, fun other => ?_⟩
  · change toInt32 (if !menu._logItems cat then _ else _) = _
    rw [hmask, toInt32, BitVec.ofInt_toInt]
  · change Function.update menu._logItems cat (!menu._logItems cat) other = _
    rw [BitVec.getLsbD_xor, LogCategory.getLsbD_mask]
    by_cases hcat : other = cat
    · subst hcat
      simp [hmenu.items]
    · have hbit : other.bit ≠ cat.bit := fun hbit => hcat (LogCategory.bit_injective hbit)
      simp [hcat, hbit, hmenu.items]

namespace LogSystem

/-- The menu shows every toggle, and each message holds the mask of the toggles
up to its own. -/
structure Sound (initial : BitVec 32) (cats : List LogCategory) (s : LogSystem) : Prop where
  menu : s.menu.Shows (flips initial cats)
  length : s.sent.length = cats.length
  sent : ∀ k < cats.length,
    s.sent[k]? = some (to_string (flips initial (cats.take (k + 1))).toInt)

variable {initial : BitVec 32} {cats : List LogCategory} {s : LogSystem}

theorem Sound.toggled (hs : s.Sound initial cats) (cat : LogCategory) :
    (s.step (.toggled cat)).Sound initial (cats ++ [cat]) := by
  obtain ⟨htext, hmenu⟩ := hs.menu.toggled cat
  rw [← flips_append_singleton] at htext hmenu
  refine ⟨hmenu, ?_, fun k hk => ?_⟩
  · simp [step, hs.length]
  · change (s.sent ++ [(s.menu._onLogCategoryToggled cat).1])[k]? = _
    rw [htext]
    by_cases hlast : k < cats.length
    · rw [List.getElem?_append_left (by rwa [hs.length]), hs.sent k hlast,
        List.take_append_of_le_length hlast]
    · have hk : k = cats.length := by
        simp only [List.length_append, List.length_singleton] at hk
        omega
      subst hk
      rw [List.take_of_length_le (by simp), ← hs.length, List.getElem?_concat_length]

theorem Sound.step (hs : s.Sound initial cats) (action : LogAction) :
    (s.step action).Sound initial (cats ++ toggledIn [action]) := by
  cases action with
  | toggled cat => exact hs.toggled cat
  | handled k up =>
      change (LogSystem.step s _).Sound initial (cats ++ [])
      rw [List.append_nil, LogSystem.step]
      split <;> exact ⟨hs.menu, hs.length, hs.sent⟩
  | other up val =>
      change (LogSystem.step s _).Sound initial (cats ++ [])
      rw [List.append_nil]
      exact ⟨hs.menu, hs.length, hs.sent⟩
  | restart up =>
      change (LogSystem.step s _).Sound initial (cats ++ [])
      rw [List.append_nil]
      exact ⟨hs.menu, hs.length, hs.sent⟩

theorem toggledIn_append (before after : List LogAction) :
    toggledIn (before ++ after) = toggledIn before ++ toggledIn after :=
  List.filterMap_append

theorem Sound.run (hs : s.Sound initial cats) (actions : List LogAction) :
    (s.run actions).Sound initial (cats ++ toggledIn actions) := by
  induction actions generalizing s cats with
  | nil => simpa [LogSystem.run, toggledIn] using hs
  | cons action actions ih =>
      have hrest := ih (hs.step action)
      rwa [List.append_assoc, ← toggledIn_append] at hrest

theorem sound_loaded (d : LoggingDaemon) : (loaded d).Sound d.shouldLog [] :=
  ⟨shows_loaded d, rfl, fun _ hk => absurd hk (Nat.not_lt_zero _)⟩

theorem daemon_run_of_keepsMask {s : LogSystem} {stored : Bool}
    (hs : stored = true → s.daemon.Restored) {actions : List LogAction}
    (hactions : ∀ action ∈ actions, action.keepsMask stored = true) :
    (s.run actions).daemon = s.daemon := by
  induction actions generalizing s with
  | nil => rfl
  | cons action actions ih =>
      have hstep : (s.step action).daemon = s.daemon := by
        have haction := hactions action List.mem_cons_self
        cases action with
        | toggled cat => rfl
        | restart up =>
            obtain ⟨hstored, rfl⟩ : stored = true ∧ up = true :=
              Bool.and_eq_true_iff.mp haction
            exact hs hstored
        | handled k up => cases haction
        | other up val => cases haction
      have hrest := ih (hstep ▸ hs) fun other hother =>
        hactions other (List.mem_cons_of_mem _ hother)
      exact hrest.trans hstep

/-- A switch agrees with the daemon when it was toggled an even number of times
since the message the daemon handled last. -/
theorem bitAfter_take_eq_iff (initial : BitVec 32) (cats : List LogCategory) (k : ℕ)
    (cat : LogCategory) :
    bitAfter initial (cats.take k) cat.bit = bitAfter initial cats cat.bit ↔
      Even ((cats.drop k).count cat) := by
  have hcount : ∀ others : List LogCategory,
      (others.countP fun other => other.bit = cat.bit) = others.count cat := fun others =>
    List.countP_congr fun other _ => by
      simp [LogCategory.bit_injective.eq_iff]
  have hsplit : cats.count cat = (cats.take k).count cat + (cats.drop k).count cat := by
    rw [← List.count_append, List.take_append_drop]
  rw [bitAfter, bitAfter, hcount, hcount, hsplit, Bool.xor_right_inj, decide_eq_decide,
    Nat.odd_add]
  tauto

/-- Whatever the daemon handled before, in whatever order, and whatever other
clients asked for: it ends up with the switches as they were when the message it
handled last was sent.  What it logs is what the menu shows exactly if the
toggles since then cancel out. -/
theorem log_categories_of_handled (d : LoggingDaemon) {before after : List LogAction} {k : ℕ}
    {databaseUp : Bool} (hk : k < (toggledIn before).length)
    (hafter : ∀ action ∈ after, action.keepsMask databaseUp = true) :
    let actions := before ++ .handled k databaseUp :: after
    let s := (loaded d).run actions
    (∀ i, s.daemon.shouldLog.getLsbD i =
        bitAfter d.shouldLog ((toggledIn before).take (k + 1)) i) ∧
      ((∀ cat, s.daemon.shouldLog.getLsbD cat.bit = s.menu._logItems cat) ↔
        ∀ cat, Even (((toggledIn actions).drop (k + 1)).count cat)) := by
  intro actions s
  have hbefore : ((loaded d).run before).Sound d.shouldLog (toggledIn before) :=
    (sound_loaded d).run before
  have hsound : s.Sound d.shouldLog (toggledIn actions) := (sound_loaded d).run actions
  set handled := ((loaded d).run before).step (.handled k databaseUp) with hhandled
  have hmask : handled.daemon.shouldLog = flips d.shouldLog ((toggledIn before).take (k + 1)) := by
    rw [hhandled, step, hbefore.sent k hk]
    simp only [LoggingDaemon.handleShouldLog, newLogMask_to_string]
  have hrestored : databaseUp = true → handled.daemon.Restored := by
    rintro rfl
    rw [hhandled, step, hbefore.sent k hk]
    simp only [LoggingDaemon.handleShouldLog, newLogMask_to_string, if_true]
    exact LoggingDaemon.restored_of_stored _
  have hrun : s = handled.run after := by
    simp only [s, actions, run, List.foldl_append, List.foldl_cons, hhandled]
  have hfinal : s.daemon.shouldLog = flips d.shouldLog ((toggledIn before).take (k + 1)) := by
    rw [hrun, daemon_run_of_keepsMask hrestored hafter, hmask]
  have htake : (toggledIn before).take (k + 1) = (toggledIn actions).take (k + 1) := by
    rw [toggledIn_append, List.take_append_of_le_length hk]
  refine ⟨fun i => by rw [hfinal, getLsbD_flips], forall_congr' fun cat => ?_⟩
  rw [hfinal, hsound.menu.items, getLsbD_flips, getLsbD_flips, htake, bitAfter_take_eq_iff]

/-- Two switches are turned on and the daemon handles the second message first:
the window category stays off although its switch is on. -/
theorem log_categories_overtaken :
    let actions := [.toggled .input, .toggled .window, .handled 1 true] ++
      .handled 0 true :: [.restart true]
    let s := (loaded ⟨LOG_CORE, "8"⟩).run actions
    (∀ i, s.daemon.shouldLog.getLsbD i = bitAfter LOG_CORE [.input] i) ∧
      ((∀ cat, s.daemon.shouldLog.getLsbD cat.bit = s.menu._logItems cat) ↔
        ∀ cat, Even (((toggledIn actions).drop 1).count cat)) :=
  log_categories_of_handled ⟨LOG_CORE, "8"⟩
    (by decide : 0 < (toggledIn [.toggled .input, .toggled .window, .handled 1 true]).length)
    (by decide)

end LogSystem

end AutomateLinux
