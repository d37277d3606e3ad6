import AutomateLinux.RateWindow
import AutomateLinux.SimulateInput

/-!
# Key names and single events

Besides a string, `simulateInput` takes the name of a key or the three numbers
of an event.  Events given by number are counted in windows of ten
milliseconds: the fifty-first in a window and those after it are dropped if they
move the pointer.  The limit is stated here for what reaches the virtual device
in a stretch of any run, whatever the commands in it are.
-/

namespace AutomateLinux

def EV_MSC : ℕ := 4
def MSC_SCAN : ℕ := 4
def KEY_ESC : ℕ := 1
def KEY_BACKSPACE : ℕ := 14
def KEY_CAPSLOCK : ℕ := 58
def KEY_F1 : ℕ := 59
def KEY_F2 : ℕ := 60
def KEY_F3 : ℕ := 61
def KEY_F4 : ℕ := 62
def KEY_F5 : ℕ := 63
def KEY_F6 : ℕ := 64
def KEY_F7 : ℕ := 65
def KEY_F8 : ℕ := 66
def KEY_F9 : ℕ := 67
def KEY_F10 : ℕ := 68
def KEY_F11 : ℕ := 87
def KEY_F12 : ℕ := 88
def KEY_HOME : ℕ := 102
def KEY_UP : ℕ := 103
def KEY_PAGEUP : ℕ := 104
def KEY_LEFT : ℕ := 105
def KEY_RIGHT : ℕ := 106
def KEY_DOWN : ℕ := 108
def KEY_PAGEDOWN : ℕ := 109
def KEY_INSERT : ℕ := 110
def KEY_DELETE : ℕ := 111
def KEY_LEFTMETA : ℕ := 125

/-! ## Key names -/

def KEY_NAME_TO_CODE : List (String × ℕ) :=
  [("keyA", KEY_A), ("keyB", KEY_B), ("keyC", KEY_C), ("keyD", KEY_D), ("keyE", KEY_E),
    ("keyF", KEY_F), ("keyG", KEY_G), ("keyH", KEY_H), ("keyI", KEY_I), ("keyJ", KEY_J),
    ("keyK", KEY_K), ("keyL", KEY_L), ("keyM", KEY_M), ("keyN", KEY_N), ("keyO", KEY_O),
    ("keyP", KEY_P), ("keyQ", KEY_Q), ("keyR", KEY_R), ("keyS", KEY_S), ("keyT", KEY_T),
    ("keyU", KEY_U), ("keyV", KEY_V), ("keyW", KEY_W), ("keyX", KEY_X), ("keyY", KEY_Y),
    ("keyZ", KEY_Z), ("period", KEY_DOT), ("dot", KEY_DOT), ("slash", KEY_SLASH),
    ("minus", KEY_MINUS), ("dash", KEY_MINUS), ("space", KEY_SPACE), ("comma", KEY_COMMA),
    ("equals", KEY_EQUAL), ("equal", KEY_EQUAL), ("backspace", KEY_BACKSPACE),
    ("semicolon", KEY_SEMICOLON), ("apostrophe", KEY_APOSTROPHE), ("quote", KEY_APOSTROPHE),
    ("backslash", KEY_BACKSLASH), ("bracket_left", KEY_LEFTBRACE),
    ("leftbracket", KEY_LEFTBRACE), ("bracket_right", KEY_RIGHTBRACE),
    ("rightbracket", KEY_RIGHTBRACE), ("backtick", KEY_GRAVE), ("grave", KEY_GRAVE),
    ("enter", KEY_ENTER), ("keyShift", KEY_LEFTSHIFT), ("keyCtrl", KEY_LEFTCTRL),
    ("keyAlt", KEY_LEFTALT), ("keyMeta", KEY_LEFTMETA), ("keyTab", KEY_TAB),
    ("keyCaps", KEY_CAPSLOCK), ("keyEsc", KEY_ESC), ("keyF1", KEY_F1), ("keyF2", KEY_F2),
    ("keyF3", KEY_F3), ("keyF4", KEY_F4), ("keyF5", KEY_F5), ("keyF6", KEY_F6),
    ("keyF7", KEY_F7), ("keyF8", KEY_F8), ("keyF9", KEY_F9), ("keyF10", KEY_F10),
    ("keyF11", KEY_F11), ("keyF12", KEY_F12), ("keyUp", KEY_UP), ("keyDown", KEY_DOWN),
    ("keyLeft", KEY_LEFT), ("keyRight", KEY_RIGHT), ("keyPageUp", KEY_PAGEUP),
    ("keyPageDown", KEY_PAGEDOWN), ("keyHome", KEY_HOME), ("keyEnd", KEY_END),
    ("keyInsert", KEY_INSERT), ("keyDelete", KEY_DELETE), ("numlock", KEY_NUMLOCK),
    ("enter", KEY_ENTER), ("syn", 0)]

def APP_NAME_TO_CODE : List (String × ℕ) :=
  [("code", 102), ("gnome-terminal-server", 103), ("google-chrome", 104),
    ("DefaultKeyboard", 101)]

def KEY_CODE_FOR_APP_SWITCH : ℕ := 100

/-- A name without its suffix, and the value the suffix stands for. -/
def splitSuffix (keyName : String) : String × Option Int :=
  let name := keyName.toList
  if 4 < name.length ∧ name.drop (name.length - 4) = "Down".toList then
    (String.ofList (name.take (name.length - 4)), some 1)
  else if 2 < name.length ∧ name.drop (name.length - 2) = "Up".toList then
    (String.ofList (name.take (name.length - 2)), some 0)
  else (keyName, none)

namespace InputMapper

def emitNumlock (m : InputMapper) (value : Int) : InputMapper :=
  ((m.emit ⟨EV_MSC, MSC_SCAN, 0x45⟩).emit ⟨EV_KEY, KEY_NUMLOCK, value⟩).sync

def emitAppSwitch (m : InputMapper) (appCode : ℕ) : InputMapper :=
  let m := [0, 1, 2].foldl (fun m (i : ℕ) =>
    ((m.emit ⟨EV_MSC, MSC_SCAN, KEY_CODE_FOR_APP_SWITCH⟩).emit
      ⟨EV_MSC, MSC_SCAN, KEY_CODE_FOR_APP_SWITCH + 100 + i⟩).sync) m
  (m.emit ⟨EV_MSC, MSC_SCAN, appCode⟩).sync

/-- The command with the name of a key. -/
def simulateKey (m : InputMapper) (keyName : String) : CmdResult × InputMapper :=
  let (baseName, value) := splitSuffix keyName
  if keyName = "syn" then (⟨0, ""⟩, m.sync)
  else if keyName = "numlock" then (⟨0, ""⟩, (m.emitNumlock 1).emitNumlock 0)
  else if keyName = "numlockDown" then (⟨0, ""⟩, m.emitNumlock 1)
  else if keyName = "numlockUp" then (⟨0, ""⟩, m.emitNumlock 0)
  else
    match APP_NAME_TO_CODE.lookup keyName with
    | some appCode => (⟨0, ""⟩, m.emitAppSwitch appCode)
    | none =>
        match KEY_NAME_TO_CODE.lookup baseName with
        | none => (⟨1, "Unknown key name: " ++ keyName ++ "\n"⟩, m)
        | some keyCode =>
            match value with
            | none => (⟨0, ""⟩, (m.emitAndSync keyCode 1).emitAndSync keyCode 0)
            | some value => (⟨0, ""⟩, m.emitAndSync keyCode value)

/-- An event given by its numbers.  The caller of an absolute movement sends the
report itself. -/
def simulateEvent (m : InputMapper) (ev : InputEvent) : InputMapper :=
  if ev.type = EV_SYN then m.sync
  else if ev.type = EV_ABS then m.emitNoSync ev
  else m.emit ev

end InputMapper

/-! ## The rate limit -/

/-- The handler's static variables, the time in nanoseconds. -/
structure RateLimiter where
  lastEventTime : ℕ := 0
  eventCount : ℕ := 0

/-- Count an event; the first result is whether it is dropped. -/
def RateLimiter.limit (now type : ℕ) (limiter : RateLimiter) : Bool × RateLimiter :=
  let elapsed := (now - limiter.lastEventTime) / 1000000
  if elapsed < 10 then
    let limiter := { limiter with eventCount := limiter.eventCount + 1 }
    if 50 < limiter.eventCount then (type = EV_ABS ∨ type = EV_REL, limiter)
    else (false, limiter)
  else (false, ⟨now, 1⟩)

/-- The event of a command that has neither a string nor a key. -/
def eventOf (command : Json) : Option (Except Exn InputEvent) :=
  match command.find? "type", command.find? "code", command.find? "value" with
  | some type, some code, some value => some do
      let type ← type.getUInt 16
      let code ← code.getUInt 16
      let value ← value.getInt 32
      return ⟨type, code, value⟩
  | _, _, _ => none

def withoutString (now : ℕ) (limiter : RateLimiter) (command : Json) (m : InputMapper) :
    Except Exn CmdResult × InputMapper :=
  match command.find? "key" with
  | some member =>
      match member.getString with
      | .error e => (.error e, m)
      | .ok keyName => (.ok (m.simulateKey keyName).1, (m.simulateKey keyName).2)
  | none =>
      match eventOf command with
      | none => (.ok ⟨1, "Missing arguments: type, code, value, string, or key\n"⟩, m)
      | some (.error e) => (.error e, m)
      | some (.ok ev) =>
          (.ok ⟨0, ""⟩, if (limiter.limit now ev.type).1 then m else m.simulateEvent ev)

/-- The event of a command that reaches the limit. -/
def countedEvent (command : Json) : Option InputEvent :=
  if command.contains "string" || command.contains "key" then none
  else
    match eventOf command with
    | some (.ok ev) => some ev
    | _ => none

def RateLimiter.afterCommand (now : ℕ) (command : Json) (limiter : RateLimiter) : RateLimiter :=
  match countedEvent command with
  | some ev => (limiter.limit now ev.type).2
  | none => limiter

structure Simulator where
  limiter : RateLimiter := {}
  mapper : InputMapper := {}

namespace Simulator

/-- `handleSimulateInput` for a command that arrives at a time. -/
def simulate (s : Simulator) (now : ℕ) (command : Json) : Except Exn CmdResult × Simulator :=
  let handled := InputMapper.handleSimulateInput (withoutString now s.limiter) command s.mapper
  (handled.1, ⟨s.limiter.afterCommand now command, handled.2⟩)

/-- The commands of a run, each with the time of its arrival. -/
def simulateAll (s : Simulator) (commands : List (ℕ × Json)) : Simulator :=
  commands.foldl (fun s command => (s.simulate command.1 command.2).2) s

/-- What the virtual device gets for a command when nothing else has been sent. -/
def alone (command : Json) : List InputEvent :=
  (({} : Simulator).simulate 0 command).2.mapper.uinput

end Simulator

def isMovement (ev : InputEvent) : Bool := ev.type = EV_ABS ∨ ev.type = EV_REL

def isKeyEvent (ev : InputEvent) : Bool := ev.type = EV_KEY

/-! ## What a command writes -/

def numlockEvents (value : Int) : List InputEvent :=
  [⟨EV_MSC, MSC_SCAN, 0x45⟩, synReport, ⟨EV_KEY, KEY_NUMLOCK, value⟩, synReport, synReport]

def appSwitchEvents (appCode : ℕ) : List InputEvent :=
  [0, 1, 2].flatMap (fun (i : ℕ) =>
    [⟨EV_MSC, MSC_SCAN, KEY_CODE_FOR_APP_SWITCH⟩, synReport,
      ⟨EV_MSC, MSC_SCAN, KEY_CODE_FOR_APP_SWITCH + 100 + i⟩, synReport, synReport]) ++
    [⟨EV_MSC, MSC_SCAN, appCode⟩, synReport, synReport]

def simulateKeyEvents (keyName : String) : List InputEvent :=
  if keyName = "syn" then [synReport]
  else if keyName = "numlock" then numlockEvents 1 ++ numlockEvents 0
  else if keyName = "numlockDown" then numlockEvents 1
  else if keyName = "numlockUp" then numlockEvents 0
  else
    match APP_NAME_TO_CODE.lookup keyName with
    | some appCode => appSwitchEvents appCode
    | none =>
        match KEY_NAME_TO_CODE.lookup (splitSuffix keyName).1 with
        | none => []
        | some keyCode =>
            match (splitSuffix keyName).2 with
            | none => keyEvents keyCode 1 ++ keyEvents keyCode 0
            | some value => keyEvents keyCode value

def simulateEventEvents (ev : InputEvent) : List InputEvent :=
  if ev.type = EV_SYN then [synReport]
  else if ev.type = EV_ABS then [ev]
  else [ev, synReport]

def commandEvents (command : Json) : List InputEvent :=
  match command.find? "string" with
  | some member =>
      match member.getString with
      | .error _ => []
      | .ok str => (Utf8.encode str.toList).flatMap typeCharEvents
  | none =>
      match command.find? "key" with
      | some member =>
          match member.getString with
          | .error _ => []
          | .ok keyName => simulateKeyEvents keyName
      | none =>
          match eventOf command with
          | some (.ok ev) => simulateEventEvents ev
          | _ => []

theorem write_nil (m : InputMapper) : m.write [] = m := by simp [InputMapper.write]

namespace InputMapper

variable {m : InputMapper}

theorem emitNumlock_eq_write (value : Int) :
    m.emitNumlock value = m.write (numlockEvents value) := by
  simp [emitNumlock, numlockEvents, emit, sync, emitNoSync, write]

theorem emitAppSwitch_eq_write (appCode : ℕ) :
    m.emitAppSwitch appCode = m.write (appSwitchEvents appCode) := by
  simp [emitAppSwitch, appSwitchEvents, emit, sync, emitNoSync, write]

theorem simulateKey_eq_write (keyName : String) :
    (m.simulateKey keyName).2 = m.write (simulateKeyEvents keyName) := by
  unfold simulateKey simulateKeyEvents
  split_ifs
  · rfl
  · rw [emitNumlock_eq_write, emitNumlock_eq_write, write_write]
  · exact emitNumlock_eq_write 1
  · exact emitNumlock_eq_write 0
  · cases APP_NAME_TO_CODE.lookup keyName with
    | some appCode => exact emitAppSwitch_eq_write appCode
    | none =>
        dsimp only
        cases KEY_NAME_TO_CODE.lookup (splitSuffix keyName).1 with
        | none => simp [write]
        | some keyCode =>
            cases (splitSuffix keyName).2 with
            | none =>
                dsimp only
                rw [emitAndSync_eq_write, emitAndSync_eq_write, write_write]
            | some value => exact emitAndSync_eq_write keyCode value

theorem simulateEvent_eq_write (ev : InputEvent) :
    m.simulateEvent ev = m.write (simulateEventEvents ev) := by
  unfold simulateEvent simulateEventEvents
  split_ifs <;> simp [emit, sync, emitNoSync, write]

end InputMapper

/-- Whether the limit drops a command's event. -/
def dropped (limiter : RateLimiter) (now : ℕ) (command : Json) : Bool :=
  match countedEvent command with
  | some ev => (limiter.limit now ev.type).1
  | none => false

/-- The commands whose events are counted. -/
def isCounted (command : ℕ × Json) : Bool := (countedEvent command.2).isSome

namespace Simulator

theorem mapper_simulate (s : Simulator) (now : ℕ) (command : Json) :
    (s.simulate now command).2.mapper =
      s.mapper.write (if dropped s.limiter now command then [] else commandEvents command) := by
  unfold simulate dropped commandEvents countedEvent InputMapper.handleSimulateInput
    withoutString Json.contains
  cases command.find? "string" with
  | some member =>
      cases hread : member.getString with
      | error e => simp [hread, write_nil]
      | ok str => simp [hread, InputMapper.foldl_typeChar]
  | none =>
      cases command.find? "key" with
      | some member =>
          cases hread : member.getString with
          | error e => simp [hread, write_nil]
          | ok keyName => simp [hread, InputMapper.simulateKey_eq_write]
      | none =>
          cases eventOf command with
          | none => simp [write_nil]
          | some read =>
              cases read with
              | error e => simp [write_nil]
              | ok ev =>
                  simp only [InputMapper.simulateEvent_eq_write]
                  cases hlimit : (s.limiter.limit now ev.type).1 <;> simp [hlimit, write_nil]

theorem dropped_initial (command : Json) : dropped {} 0 command = false := by
  unfold dropped
  cases countedEvent command <;> rfl

theorem alone_eq (command : Json) : alone command = commandEvents command := by
  rw [alone, mapper_simulate, dropped_initial]
  rfl

/-- What a run writes. -/
def written (limiter : RateLimiter) : List (ℕ × Json) → List InputEvent
  | [] => []
  | (now, command) :: commands =>
      (if dropped limiter now command then [] else commandEvents command) ++
        written (limiter.afterCommand now command) commands

theorem mapper_simulateAll (s : Simulator) (commands : List (ℕ × Json)) :
    (s.simulateAll commands).mapper = s.mapper.write (written s.limiter commands) := by
  induction commands generalizing s with
  | nil => exact (write_nil s.mapper).symm
  | cons command commands ih =>
      change ((s.simulate command.1 command.2).2.simulateAll commands).mapper = _
      rw [ih, mapper_simulate, InputMapper.write_write]
      rfl

end Simulator

/-! ## The windows of the limit -/

open RateWindow

def RateLimiter.window (limiter : RateLimiter) : Window :=
  ⟨limiter.lastEventTime, limiter.eventCount⟩

def windowWidth : ℕ := 10000000

theorem window_initial : ({} : RateLimiter).window = {} := rfl

theorem window_limit (limiter : RateLimiter) (now type : ℕ) :
    (limiter.limit now type).2.window = limiter.window.record windowWidth now := by
  unfold RateLimiter.limit Window.record RateLimiter.window windowWidth
  have hwindow : (now - limiter.lastEventTime) / 1000000 < 10 ↔
      now < limiter.lastEventTime + 10000000 := by omega
  simp only [hwindow]
  split_ifs <;> rfl

theorem limit_eq_true_iff (limiter : RateLimiter) (now type : ℕ) :
    (limiter.limit now type).1 = true ↔
      50 < (limiter.window.record windowWidth now).count ∧ (type = EV_ABS ∨ type = EV_REL) := by
  unfold RateLimiter.limit Window.record RateLimiter.window windowWidth
  have hwindow : (now - limiter.lastEventTime) / 1000000 < 10 ↔
      now < limiter.lastEventTime + 10000000 := by omega
  simp only [hwindow]
  split_ifs <;> simp_all

theorem window_afterCommand (limiter : RateLimiter) (now : ℕ) (command : Json) :
    (limiter.afterCommand now command).window =
      if isCounted (now, command) then limiter.window.record windowWidth now
      else limiter.window := by
  unfold RateLimiter.afterCommand isCounted
  cases hcounted : countedEvent command with
  | none => simp
  | some ev => simpa using window_limit limiter now ev.type

namespace Simulator

theorem window_simulateAll (s : Simulator) (commands : List (ℕ × Json)) :
    (s.simulateAll commands).limiter.window =
      s.limiter.window.recordAll windowWidth ((commands.filter isCounted).map Prod.fst) := by
  induction commands generalizing s with
  | nil => rfl
  | cons command commands ih =>
      change ((s.simulate command.1 command.2).2.simulateAll commands).limiter.window = _
      rw [ih, List.filter_cons]
      change Window.recordAll windowWidth
        (s.limiter.afterCommand command.1 command.2).window _ = _
      rw [window_afterCommand]
      split <;> rfl

end Simulator

theorem filter_isMovement_keyEvents (code : ℕ) (value : Int) :
    (keyEvents code value).filter isMovement = [] := by
  simp [keyEvents, isMovement, synReport, EV_SYN, EV_KEY, EV_REL, EV_ABS]

theorem filter_isMovement_typeCharEvents (c : UInt8) :
    (typeCharEvents c).filter isMovement = [] := by
  unfold typeCharEvents
  split
  · rfl
  · split
    · rfl
    · unfold typeKeyEvents
      split <;> simp [filter_isMovement_keyEvents]

theorem filter_isMovement_simulateKeyEvents (keyName : String) :
    (simulateKeyEvents keyName).filter isMovement = [] := by
  have hnumlock (value : Int) : (numlockEvents value).filter isMovement = [] := by
    simp [numlockEvents, isMovement, synReport, EV_SYN, EV_KEY, EV_REL, EV_ABS, EV_MSC]
  have happ (appCode : ℕ) : (appSwitchEvents appCode).filter isMovement = [] := by
    simp [appSwitchEvents, isMovement, synReport, EV_SYN, EV_REL, EV_ABS, EV_MSC]
  unfold simulateKeyEvents
  split_ifs
  · rfl
  · simp [hnumlock]
  · exact hnumlock 1
  · exact hnumlock 0
  · split
    · exact happ _
    · split
      · rfl
      · split <;> simp [filter_isMovement_keyEvents]

/-- Only an event given by its numbers moves the pointer, and it is counted. -/
theorem filter_isMovement_commandEvents {command : Json}
    (hcounted : countedEvent command = none) :
    (commandEvents command).filter isMovement = [] := by
  unfold commandEvents
  unfold countedEvent Json.contains at hcounted
  cases hstring : command.find? "string" with
  | some member =>
      dsimp only
      split
      · rfl
      · simp [List.filter_flatMap, filter_isMovement_typeCharEvents]
  | none =>
      cases hkey : command.find? "key" with
      | some member =>
          dsimp only
          split
          · rfl
          · exact filter_isMovement_simulateKeyEvents _
      | none =>
          dsimp only
          split
          · next hread => simp [hstring, hkey, hread] at hcounted
          · rfl

theorem commandEvents_of_counted {command : Json} {ev : InputEvent}
    (hcounted : countedEvent command = some ev) :
    commandEvents command = simulateEventEvents ev := by
  unfold countedEvent Json.contains at hcounted
  unfold commandEvents
  cases hstring : command.find? "string" with
  | some member => simp [hstring] at hcounted
  | none =>
      cases hkey : command.find? "key" with
      | some member => simp [hkey] at hcounted
      | none =>
          simp only [hstring, hkey, Option.isSome_none, Bool.or_self, Bool.false_eq_true,
            if_false] at hcounted
          split at hcounted
          · next hread =>
              obtain rfl := Option.some.inj hcounted
              rfl
          · cases hcounted

theorem length_filter_isMovement_le (ev : InputEvent) :
    ((simulateEventEvents ev).filter isMovement).length ≤ 1 := by
  have hreport : isMovement synReport = false := rfl
  unfold simulateEventEvents
  split_ifs
  · simp [hreport]
  · exact List.length_filter_le _ [ev]
  · rw [List.filter_cons, List.filter_cons_of_neg (by simp [hreport]), List.filter_nil]
    split <;> simp

theorem filter_isMovement_of_not {ev : InputEvent} (hev : ¬ (ev.type = EV_ABS ∨ ev.type = EV_REL)) :
    (simulateEventEvents ev).filter isMovement = [] := by
  unfold simulateEventEvents
  split_ifs <;>
    simp_all [isMovement, synReport, EV_SYN, EV_REL, EV_ABS]

namespace Simulator

/-- Every movement a run writes is one of the events its windows admit. -/
theorem length_movements_written_le (limiter : RateLimiter) (commands : List (ℕ × Json)) :
    ((written limiter commands).filter isMovement).length ≤
      (admitted windowWidth 50 Prod.fst limiter.window (commands.filter isCounted)).length := by
  induction commands generalizing limiter with
  | nil => simp [written]
  | cons command commands ih =>
      have hrest := ih (limiter.afterCommand command.1 command.2)
      rw [window_afterCommand] at hrest
      rw [written, List.filter_append, List.length_append, List.filter_cons]
      cases hcounted : countedEvent command.2 with
      | none =>
          have hnot : isCounted command = false := by simp [isCounted, hcounted]
          have hnone : ((if dropped limiter command.1 command.2 then []
              else commandEvents command.2).filter isMovement) = [] := by
            split
            · rfl
            · exact filter_isMovement_commandEvents hcounted
          rw [hnone]
          simp only [hnot, Bool.false_eq_true, if_false] at hrest ⊢
          simpa using hrest
      | some ev =>
          have hyes : isCounted command = true := by simp [isCounted, hcounted]
          simp only [hyes, if_true] at hrest ⊢
          rw [admitted, List.length_append]
          refine Nat.add_le_add ?_ hrest
          simp only [dropped, hcounted, commandEvents_of_counted hcounted]
          by_cases hmove : ev.type = EV_ABS ∨ ev.type = EV_REL
          · by_cases hlimit : (limiter.limit command.1 ev.type).1 = true
            · simp [hlimit]
            · have hcount : (limiter.window.record windowWidth command.1).count ≤ 50 := by
                by_contra hmany
                exact hlimit ((limit_eq_true_iff _ _ _).mpr ⟨Nat.not_le.mp hmany, hmove⟩)
              simpa [hlimit, hcount] using length_filter_isMovement_le ev
          · rw [apply_ite (List.filter isMovement), filter_isMovement_of_not hmove]
            simp

/-- Keys are written whatever the limit is. -/
theorem filter_isKeyEvent_written (limiter : RateLimiter) (commands : List (ℕ × Json)) :
    (written limiter commands).filter isKeyEvent =
      (commands.flatMap fun command => commandEvents command.2).filter isKeyEvent := by
  induction commands generalizing limiter with
  | nil => rfl
  | cons command commands ih =>
      rw [written, List.flatMap_cons, List.filter_append, List.filter_append, ih]
      congr 1
      cases hcounted : countedEvent command.2 with
      | none => simp [dropped, hcounted]
      | some ev =>
          by_cases hlimit : (limiter.limit command.1 ev.type).1 = true
          · have hmove := ((limit_eq_true_iff _ _ _).mp hlimit).2
            have hreport : isKeyEvent synReport = false := rfl
            have hnoKey : isKeyEvent ev = false := by
              rcases hmove with hmove | hmove <;>
                simp [isKeyEvent, hmove, EV_KEY, EV_ABS, EV_REL]
            rw [commandEvents_of_counted hcounted]
            simp only [dropped, hcounted, hlimit, if_true, List.filter_nil]
            unfold simulateEventEvents
            split_ifs <;> simp [hreport, hnoKey]
          · simp [dropped, hcounted, hlimit]

/-- In any stretch of a run the virtual device gets at most fifty movements for
each ten milliseconds begun and for one window more, and it gets every key
exactly as if each command were the only one. -/
theorem simulateAll_movements_le (s : Simulator) {commands : List (ℕ × Json)} {start span : ℕ}
    (hfrom : ∀ command ∈ commands, start ≤ command.1)
    (hto : ∀ command ∈ commands, command.1 ≤ start + span) :
    ∃ events, (s.simulateAll commands).mapper.uinput = s.mapper.uinput ++ events ∧
      (events.filter isMovement).length ≤ 50 * (span / windowWidth + 2) ∧
      events.filter isKeyEvent =
        (commands.flatMap fun command => alone command.2).filter isKeyEvent := by
  refine ⟨written s.limiter commands, ?_, ?_, ?_⟩
  · rw [mapper_simulateAll]
    rfl
  · have hadmitted := @length_admitted_le_of_span _ windowWidth 50 Prod.fst
      (commands.filter isCounted) s.limiter.window start span
      (fun command hcommand => hfrom command (List.mem_of_mem_filter hcommand))
      (fun command hcommand => hto command (List.mem_of_mem_filter hcommand))
      (by decide)
    have hmovements := length_movements_written_le s.limiter commands
    omega
  · simp only [alone_eq]
    exact filter_isKeyEvent_written s.limiter commands

def nudge : Json :=
  .object [("type", .number_unsigned 2), ("code", .number_unsigned 0),
    ("value", .number_integer 5)]

theorem nudges_movements_le :
    ∃ events, (({} : Simulator).simulateAll [(7, nudge), (9, nudge)]).mapper.uinput =
        ({} : Simulator).mapper.uinput ++ events ∧
      (events.filter isMovement).length ≤ 50 * (2 / windowWidth + 2) ∧
      events.filter isKeyEvent =
        ([(7, nudge), (9, nudge)].flatMap fun command => alone command.2).filter isKeyEvent :=
  simulateAll_movements_le {}
    (by simp : ∀ command ∈ [(7, nudge), (9, nudge)], 7 ≤ command.1) (by simp)

theorem filter_times (width now : ℕ) (commands : List (ℕ × Json)) :
    (((commands.filter isCounted).map Prod.fst).filter fun earlier => now < earlier + width) =
      (commands.filter fun other => isCounted other && now < other.1 + width).map Prod.fst := by
  rw [List.filter_map, List.filter_filter]
  simp only [Function.comp_def, Bool.and_comm]

theorem not_dropped_of_sparse (m : InputMapper) {commands : List (ℕ × Json)} {now : ℕ}
    (command : Json) (hsorted : commands.Pairwise fun earlier later => earlier.1 ≤ later.1)
    (hsparse :
      (commands.filter fun other => isCounted other && now < other.1 + windowWidth).length < 50) :
    dropped ((⟨{}, m⟩ : Simulator).simulateAll commands).limiter now command = false := by
  have hcount : (((commands.filter isCounted).map Prod.fst).filter
      fun earlier => now < earlier + windowWidth).length < 50 := by
    rw [filter_times, List.length_map]
    exact hsparse
  have htimes : ((commands.filter isCounted).map Prod.fst).Pairwise (· ≤ ·) :=
    List.pairwise_map.mpr (hsorted.sublist List.filter_sublist)
  have hwindow := count_record_le_of_sparse htimes hcount
  unfold dropped
  split
  · next ev _ =>
      rw [Bool.eq_false_iff]
      intro hlimit
      have hmany := ((limit_eq_true_iff _ _ _).mp hlimit).1
      rw [window_simulateAll, window_initial] at hmany
      omega
  · rfl

/-- The limit drops nothing but counted events. -/
theorem dropped_of_not_counted (limiter : RateLimiter) (now : ℕ) {command : ℕ × Json}
    (hcounted : isCounted command = false) : dropped limiter now command.2 = false := by
  unfold dropped
  rw [Option.isSome_eq_false_iff.mp hcounted |> Option.isNone_iff_eq_none.mp]

/-- A run in which no counted event follows fifty others within ten milliseconds
is written in full. -/
theorem simulateAll_of_sparse (m : InputMapper) {commands : List (ℕ × Json)}
    (hsorted : commands.Pairwise fun earlier later => earlier.1 ≤ later.1)
    (hsparse : ∀ earlier command later, commands = earlier ++ command :: later →
      isCounted command = true →
      (earlier.filter fun other => isCounted other && command.1 < other.1 + windowWidth).length <
        50) :
    ((⟨{}, m⟩ : Simulator).simulateAll commands).mapper.uinput =
      m.uinput ++ commands.flatMap fun command => alone command.2 := by
  induction commands using List.reverseRecOn with
  | nil => exact (List.append_nil _).symm
  | append_singleton commands command ih =>
      obtain ⟨hbefore, -, -⟩ := List.pairwise_append.mp hsorted
      have hrest := ih hbefore fun earlier other later hsplit =>
        hsparse earlier other (later ++ [command]) (by simp [hsplit])
      have hnot : dropped ((⟨{}, m⟩ : Simulator).simulateAll commands).limiter command.1
          command.2 = false := by
        by_cases hcounted : isCounted command = true
        · exact not_dropped_of_sparse m command.2 hbefore
            (hsparse commands command [] rfl hcounted)
        · exact dropped_of_not_counted _ _ (Bool.eq_false_iff.mpr hcounted)
      have hlast : (⟨{}, m⟩ : Simulator).simulateAll (commands ++ [command]) =
          (((⟨{}, m⟩ : Simulator).simulateAll commands).simulate command.1 command.2).2 := by
        simp [simulateAll]
      rw [hlast, mapper_simulate, hnot]
      change _ ++ commandEvents command.2 = _
      rw [hrest, List.append_assoc, List.flatMap_append]
      simp [alone_eq]

theorem nudges_written :
    ((⟨{}, {}⟩ : Simulator).simulateAll [(7, nudge), (9, nudge)]).mapper.uinput =
      ({} : InputMapper).uinput ++
        [(7, nudge), (9, nudge)].flatMap fun command => alone command.2 :=
  simulateAll_of_sparse {} (by simp) fun earlier command later hsplit _ => by
    have hlength := congrArg List.length hsplit
    simp only [List.length_cons, List.length_nil, List.length_append] at hlength
    exact (List.length_filter_le _ _).trans_lt (by omega)

end Simulator

end AutomateLinux
