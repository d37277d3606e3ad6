import AutomateLinux.JsonValue
import Mathlib.Data.List.Infix
import Mathlib.Logic.Function.Basic

/-!
# Macro tables

A macro is a sequence of trigger steps and what to do when they have been
matched one after the other.  The input mapper keeps a list of macros for each
kind of application: the defaults it is built with, overlaid by what is loaded
from JSON.  Loading stops at the first member of a wrong type and keeps what it
has stored up to there.
-/

namespace AutomateLinux

inductive AppType
  | OTHER | TERMINAL | CHROME | CODE
deriving DecidableEq

/-- One element of a trigger's `events`. -/
structure TriggerStep where
  type : ℕ
  code : ℕ
  value : Int
  suppress : Bool
  ignoreRepeat : Bool
deriving DecidableEq

structure KeyTrigger where
  events : List TriggerStep
  hasSuppressedKeys : Bool := false
  noiseBreaks : Bool := true
deriving DecidableEq

/-- The callbacks a macro can be bound to. -/
inductive CustomHandler
  | triggerChromeChatGPTMacro
deriving DecidableEq

structure KeyAction where
  trigger : KeyTrigger
  keySequence : List (ℕ × Int)
  logMessage : String
  customHandler : Option CustomHandler := none
deriving DecidableEq

abbrev MacroTable := AppType → Option (List KeyAction)

/-! ## Event types and key codes -/

def EV_SYN : ℕ := 0
def EV_KEY : ℕ := 1
def EV_REL : ℕ := 2
def EV_ABS : ℕ := 3

def KEY_1 : ℕ := 2
def KEY_6 : ℕ := 7
def KEY_7 : ℕ := 8
def KEY_T : ℕ := 20
def KEY_I : ℕ := 23
def KEY_ENTER : ℕ := 28
def KEY_LEFTCTRL : ℕ := 29
def KEY_A : ℕ := 30
def KEY_S : ℕ := 31
def KEY_G : ℕ := 34
def KEY_LEFTSHIFT : ℕ := 42
def KEY_C : ℕ := 46
def KEY_V : ℕ := 47
def KEY_LEFTALT : ℕ := 56
def KEY_SPACE : ℕ := 57
def KEY_NUMLOCK : ℕ := 69
def KEY_SCROLLLOCK : ℕ := 70
def KEY_RIGHTCTRL : ℕ := 97
def KEY_END : ℕ := 107
def KEY_PAUSE : ℕ := 119
def BTN_MISC : ℕ := 0x100
def BTN_LEFT : ℕ := 0x110
def BTN_FORWARD : ℕ := 0x115
def KEY_OK : ℕ := 0x160

/-- The virtual code of the `k`-th G-key. -/
def G_VIRTUAL (k : ℕ) : ℕ := 1000 + k

/-! ## The defaults -/

/-- A step on a key or button. -/
def keyStep (code : ℕ) (value : Int) (suppress ignoreRepeat : Bool) :
    TriggerStep :=
  ⟨EV_KEY, code, value, suppress, ignoreRepeat⟩

def pressTrigger (code : ℕ) : KeyTrigger := { events := [keyStep code 1 false false] }

/-- Press and release each key in turn. -/
def typed (codes : List ℕ) : List (ℕ × Int) :=
  codes.flatMap fun code => [(code, 1), (code, 0)]

def defaultMacros : List KeyAction :=
  [{ trigger := pressTrigger BTN_FORWARD
     keySequence := typed [KEY_ENTER]
     logMessage := "Triggering mouse forward button (press) → Enter" },
   { trigger := pressTrigger (G_VIRTUAL 6)
     keySequence :=
      [(KEY_LEFTCTRL, 1), (KEY_C, 1), (KEY_C, 0), (KEY_LEFTCTRL, 0)]
     logMessage := "Triggering G6 (press) Ctrl+C macro" }]

/-- A macro replaces the first with the same trigger, or is added. -/
def applyOverride (finalMacros : List KeyAction) (appMacro : KeyAction) :
    List KeyAction :=
  match finalMacros.findIdx? fun m => m.trigger = appMacro.trigger with
  | some i => finalMacros.set i appMacro
  | none => finalMacros ++ [appMacro]

def applyOverrides (appSpecificMacros : List KeyAction) : List KeyAction :=
  appSpecificMacros.foldl applyOverride defaultMacros

def terminalSpecificMacros : List KeyAction :=
  [{ trigger := pressTrigger (G_VIRTUAL 1)
     keySequence :=
      [(KEY_LEFTCTRL, 1), (KEY_LEFTALT, 1), (KEY_C, 1), (KEY_C, 0),
        (KEY_LEFTALT, 0), (KEY_LEFTCTRL, 0)]
     logMessage :=
      "Triggering G1 (press) SIGINT macro (Ctrl+Alt+C) for Gnome Terminal" },
   { trigger := pressTrigger (G_VIRTUAL 2)
     keySequence := typed [KEY_G, KEY_I, KEY_T, KEY_SPACE, KEY_S, KEY_ENTER]
     logMessage :=
      "Triggering G2 (press) GITS macro (G+I+T+S+Enter) for Gnome Terminal" },
   { trigger :=
      { events :=
          [keyStep KEY_LEFTCTRL 1 false false, keyStep BTN_LEFT 1 true false]
        hasSuppressedKeys := true
        noiseBreaks := false }
     keySequence :=
      [(KEY_LEFTCTRL, 0), (KEY_7, 1), (KEY_7, 0), (KEY_LEFTCTRL, 1)]
     logMessage := "Triggering Terminal Ctrl+Left Click macro (map to '7')" }]

def codeSpecificMacros : List KeyAction :=
  [{ trigger := pressTrigger (G_VIRTUAL 2)
     keySequence := typed [KEY_END]
     logMessage := "Triggering G2 (press) End macro for VS Code" },
   { trigger := pressTrigger BTN_FORWARD
     keySequence := typed [KEY_A]
     logMessage := "Triggering mouse forward button (press) -> A in Code app " ++
      "(override default)" }]

def chromeSpecificMacros : List KeyAction :=
  [{ trigger :=
      { events := [keyStep KEY_LEFTCTRL 1 false true, keyStep KEY_V 1 true false] }
     keySequence := []
     logMessage := "Triggering ChatGPT Ctrl+V macro (Focus + Paste)"
     customHandler := some .triggerChromeChatGPTMacro }]

/-- `initializeAppMacros`. -/
def initialAppMacros : MacroTable
  | .TERMINAL => some (applyOverrides terminalSpecificMacros)
  | .CODE => some (applyOverrides codeSpecificMacros)
  | .CHROME => some (applyOverrides chromeSpecificMacros)
  | .OTHER => some defaultMacros

/-! ## Loading from JSON -/

/-- `text.find(part) != npos`. -/
def containsText (text part : String) : Bool :=
  decide (part.toList <:+: text.toList)

def stringToAppType (appName : String) : AppType :=
  if appName = "gnome-terminal-server" then .TERMINAL
  else if appName = "google-chrome" then .CHROME
  else if appName = "code" then .CODE
  else
    let lower := String.ofList (appName.toList.map Char.toLower)
    if containsText lower "antigravity" || containsText lower "chatgpt" then
      .CHROME
    else .OTHER

/-- One element of `trigger.keys`; what is neither an object nor a long enough
array is passed over. -/
def loadStep (tk : Json) : Except Exn (Option TriggerStep) :=
  match tk with
  | .object _ => do
      let type ← tk.value "type" (Json.getUInt 16) EV_KEY
      let code ← tk.value "code" (Json.getUInt 16) 0
      let value ← tk.value "state" (Json.getInt 32) 0
      let suppress ← tk.value "suppress" Json.getBool false
      let ignoreRepeat ← tk.value "ignoreRepeat" Json.getBool false
      return some ⟨type, code, value, suppress, ignoreRepeat⟩
  | .array (first :: second :: rest) => do
      let code ← first.getUInt 16
      let value ← second.getInt 32
      let suppress ← (rest[0]?.map Json.getBool).getD (.ok false)
      let ignoreRepeat ← (rest[1]?.map Json.getBool).getD (.ok false)
      return some ⟨EV_KEY, code, value, suppress, ignoreRepeat⟩
  | _ => .ok none

def loadSequenceElement (seq : Json) : Except Exn (Option (ℕ × Int)) :=
  match seq with
  | .array (first :: second :: _) => do
      let code ← first.getUInt 16
      let value ← second.getInt 32
      return some (code, value)
  | _ => .ok none

/-- The elements of a member, if it is there, that are not passed over. -/
def loadElements {α : Type} (j : Json) (key : String)
    (load : Json → Except Exn (Option α)) : Except Exn (List α) :=
  match j.find? key with
  | some member => (member.elements.mapM load).map fun loaded => loaded.reduceOption
  | none => .ok []

/-- One macro; one without a trigger is passed over. -/
def loadAction (ma : Json) : Except Exn (Option KeyAction) := do
  let logMessage ← ma.value "message" Json.getString ""
  match ma.find? "trigger" with
  | none => return none
  | some trigger => do
      let noiseBreaks ← trigger.value "noiseBreaks" Json.getBool true
      let events ← loadElements trigger "keys" loadStep
      let keySequence ← loadElements ma "sequence" loadSequenceElement
      let hasHandler ← ma.value "hasHandler" Json.getBool false
      return some
        { trigger :=
            { events
              hasSuppressedKeys := events.any TriggerStep.suppress
              noiseBreaks }
          keySequence
          logMessage
          customHandler :=
            if hasHandler && containsText logMessage "ChatGPT" then
              some .triggerChromeChatGPTMacro
            else none }

/-- The macros of one application, stored anew after each of them. -/
def loadApp (app : AppType) :
    List Json → List KeyAction → MacroTable → Except Exn Unit × MacroTable
  | [], _, table => (.ok (), table)
  | ma :: rest, macros, table =>
      match loadAction ma with
      | .error e => (.error e, table)
      | .ok action =>
          let macros := macros ++ action.toList
          loadApp app rest macros (Function.update table app (some macros))

def loadApps : List (String × Json) → MacroTable → Except Exn Unit × MacroTable
  | [], table => (.ok (), table)
  | (key, value) :: rest, table =>
      match loadApp (stringToAppType key) value.elements [] table with
      | (.error e, table) => (.error e, table)
      | (.ok (), table) => loadApps rest table

/-- The loop over the members of the JSON value; the iterators of any other
value have no key. -/
def loadMacros (j : Json) (table : MacroTable) : Except Exn Unit × MacroTable :=
  match j with
  | .object members => loadApps members table
  | j =>
      if j.elements.isEmpty then (.ok (), table)
      else
        (.error ⟨"[json.exception.invalid_iterator.207] cannot use key() for " ++
          "non-object iterators"⟩, table)

end AutomateLinux
