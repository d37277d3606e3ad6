import AutomateLinux.LineFraming
import AutomateLinux.NumberText
import AutomateLinux.TransitionSystem
import AutomateLinux.Utf8

/-!
# Asking the window extension

The GNOME extension registers on a connection that it keeps.  `listWindows` and
`activateWindow` write a line on this connection and then read once, and the whole daemon
waits in this read.  Nothing in an answer says which request it belongs to: what a read
leaves behind is the answer to the next request, or the main loop takes it for commands.

The model follows one connection from its registration, while it is open.
-/

namespace AutomateLinux

namespace WindowExtension

open TransitionSystem Utf8

/-! ## The extension -/

/-- A window of the tab list; `workspace` is the index of its workspace, if it has one. -/
structure Window where
  id : ℕ
  title : Option String
  wm_class : Option String
  workspace : Option Int

/-- What the daemon asks for, with what `parseInt` makes of the id that is sent along. -/
inductive Request
  | listWindows
  | activateWindow (winId : Option Int)
deriving DecidableEq

/-- `sizeof(buffer) - 1` of the handler. -/
def Request.room : Request → ℕ
  | .listWindows => 4095
  | .activateWindow _ => 1023

/-- A character of a string as `JSON.stringify` writes it. -/
def stringifyChar (c : Char) : List Char :=
  if c = '"' then ['\\', '"']
  else if c = '\\' then ['\\', '\\']
  else if c = '\x08' then ['\\', 'b']
  else if c = '\x0c' then ['\\', 'f']
  else if c = '\n' then ['\\', 'n']
  else if c = '\r' then ['\\', 'r']
  else if c = '\t' then ['\\', 't']
  else if c.toNat < 32 then
    ['\\', 'u', '0', '0', (c.toNat / 16).digitChar, (c.toNat % 16).digitChar]
  else [c]

def stringifyText : Option String → List Char
  | none => "null".toList
  | some text => ['"'] ++ text.toList.flatMap stringifyChar ++ ['"']

def stringifyWindow (w : Window) (index : Int) : List Char :=
  "\x7b\"id\":".toList ++ (to_string w.id).toList ++
    ",\"title\":".toList ++ stringifyText w.title ++
    ",\"wm_class\":".toList ++ stringifyText w.wm_class ++
    ",\"workspace\":".toList ++ (to_string index).toList ++ "\x7d".toList

def commaSeparated : List (List Char) → List Char
  | [] => []
  | [item] => item
  | item :: items => item ++ [','] ++ commaSeparated items

/-- What `_handleMessage` writes.  It throws, and writes nothing, where a listed window has
no workspace. -/
def handleMessage (windows : List Window) : Request → Option (List Char)
  | .listWindows => do
      let winList ← windows.mapM fun w => w.workspace.map (stringifyWindow w)
      some (['['] ++ commaSeparated winList ++ [']', '\n'])
  | .activateWindow winId =>
      let result := if windows.any fun w => some (w.id : Int) = winId then "activated"
        else "not_found"
      some ("\x7b\"status\":\"".toList ++ result.toList ++ "\",\"id\":".toList ++
        (winId.elim "null" to_string).toList ++ "\x7d\n".toList)

/-! ## The connection -/

/-- A line that the daemon writes: a request, or a text without an `action`, such as the
reply to the registration or a complaint. -/
inductive Line
  | request (id : ℕ) (request : Request)
  | other

/-- A request as the extension has handled it, with the windows of that moment. -/
structure Handled where
  id : ℕ
  request : Request
  windows : List Window

def Handled.answer (h : Handled) : Option (List UInt8) :=
  (handleMessage h.windows h.request).map encode

/-- `asked`, `handled` and `returned` are what the parties have done from the start of the
connection on; a request is known by its position in `asked`. -/
structure Channel where
  toExtension : List Line
  unread : List UInt8
  waiting : Option (ℕ × Request)
  buffer : List UInt8
  asked : List Request
  handled : List Handled
  returned : List (ℕ × List UInt8)
  commands : List (List UInt8)

/-- `handle_client_data` on the connection of the extension, whose lines are no commands. -/
def handle_client_data (s : Channel) : Channel :=
  let stream := s.buffer ++ (s.unread.take 4095).takeWhile fun byte => byte ≠ 0
  let commands := LineFraming.lines (fun byte => decide (byte = 10)) stream
  { s with
    toExtension := s.toExtension ++ commands.map fun _ => .other
    unread := s.unread.drop 4095
    buffer := LineFraming.remainder (fun byte => decide (byte = 10)) stream
    commands := s.commands ++ commands }

inductive Label
  | ask (request : Request)
  | answerRead
  | mainReads
  | extensionReads (windows : List Window)

def step (s : Channel) : Label → Option Channel
  | .ask request =>
      if s.waiting.isNone then
        some
          { s with
            toExtension := s.toExtension ++ [.request s.asked.length request]
            waiting := some (s.asked.length, request)
            asked := s.asked ++ [request] }
      else none
  | .answerRead =>
      match s.waiting with
      | none => none
      | some (id, request) =>
          if s.unread ≠ [] then
            some
              { s with
                unread := s.unread.drop request.room
                waiting := none
                returned := s.returned ++
                  [(id, (s.unread.take request.room).takeWhile fun byte => byte ≠ 0)] }
          else none
  | .mainReads =>
      if s.waiting.isNone ∧ s.unread ≠ [] then some (handle_client_data s) else none
  | .extensionReads windows =>
      match s.toExtension with
      | [] => none
      | .other :: rest => some { s with toExtension := rest }
      | .request id request :: rest =>
          let h : Handled := ⟨id, request, windows⟩
          some
            { s with
              toExtension := rest
              unread := s.unread ++ h.answer.getD []
              handled := s.handled ++ [h] }

/-- The connection as the registration leaves it. -/
def initial : Channel := ⟨[.other], [], none, [], [], [], [], []⟩

/-! ## What the connection is for -/

/-- The extension has given the answer to this very request, for the windows that it found
when it handled the request. -/
def Own (s : Channel) (answer : ℕ × List UInt8) : Prop :=
  ∃ h ∈ s.handled, h.id = answer.1 ∧ s.asked[answer.1]? = some h.request ∧
    h.answer = some answer.2

/-- Requests get their own answers, and no part of an answer is taken for a command. -/
structure Matched (s : Channel) : Prop where
  own : ∀ answer ∈ s.returned, Own s answer
  commands : s.commands = []

/-- What the extension has written for the requests that have returned fits the buffers. -/
def Fits (s : Channel) : Prop :=
  ∀ answer ∈ s.returned, ∀ h ∈ s.handled, h.id = answer.1 →
    (h.answer.getD []).length ≤ h.request.room

instance (s : Channel) : Decidable (Fits s) :=
  inferInstanceAs (Decidable (∀ _ ∈ _, ∀ _ ∈ _, _))

end WindowExtension

end AutomateLinux
