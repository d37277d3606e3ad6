import AutomateLinux.TerminalTable
import AutomateLinux.JsonValue

/-!
# Terminals and their directory history

The daemon keeps one `Terminal` object for each tty it has heard of and the
history itself in the database.  The objects are lost when the daemon restarts.
A constructor that throws has already pushed its pointer: the vector then holds
a pointer to freed memory, whose `tty` field reads as whatever the allocator
left there.  Both that and the filesystem are part of the surroundings a
command is run in, which may be different for every command.
-/

namespace AutomateLinux

def TTY_KEY : String := "tty"

def PWD_KEY : String := "pwd"

def mustEndWithNewLine : String := "\n"

/-- What a command meets outside the daemon's own state. -/
structure Surroundings where
  /-- `std::filesystem::is_directory`, which throws on an unreadable path. -/
  is_directory : String → Except Exn Bool
  /-- The `tty` field of a freed object, by its position in the vector. -/
  freedTty : ℕ → Int

/-- The database and `Terminal::instances`; a freed object is `none`. -/
structure TerminalState where
  db : Database
  instances : List (Option Int)

def TerminalState.initial : TerminalState := ⟨Database.empty, []⟩

namespace Terminal

open TerminalTable SettingsTable

def standardizePath (path : String) : String :=
  if path = "" then "/"
  else if path.toList.getLast? = some '/' then path
  else path ++ "/"

def defaultDir : String := standardizePath DIR_HISTORY_DEFAULT_DIR

/-- `!dir.empty() && dir != "/" && is_directory(dir)`, left to right. -/
def isUsable (env : Surroundings) (dir : String) : Except Exn Bool :=
  if dir ≠ "" ∧ dir ≠ "/" then env.is_directory dir else .ok false

/-- `for (int i = count - 1; i >= 0; i--)`: the first usable entry. -/
def walkBackward (env : Surroundings) (entry : Int → String) :
    ℕ → Except Exn (Option (Int × String))
  | 0 => .ok none
  | i + 1 =>
      match isUsable env (entry i) with
      | .error e => .error e
      | .ok true => .ok (some (i, entry i))
      | .ok false => walkBackward env entry i

/-- `for (int j = i; j < i + count; j++)`: the first usable entry. -/
def walkForward (env : Surroundings) (entry : Int → String) :
    ℕ → Int → Except Exn (Option (Int × String))
  | 0, _ => .ok none
  | count + 1, i =>
      match isUsable env (entry i) with
      | .error e => .error e
      | .ok true => .ok (some (i, entry i))
      | .ok false => walkForward env entry count (i + 1)

/-- The last-touched setting as a number, `-1` if unset or unreadable. -/
def lastTouchedIndex (db : Database) : Int :=
  let lastTouched := getSetting db INDEX_OF_LAST_TOUCHED_DIR_KEY
  if lastTouched = "" then -1
  else
    match stoi lastTouched with
    | .ok index => index
    | .error _ => -1

/-- Where the constructor starts looking, with the default entry it makes when
the history is empty. -/
def startingPoint (db : Database) : Int × Database :=
  let startIndex := lastTouchedIndex db
  let startIndex := if startIndex < 0 then getMaxHistoryIndex db else startIndex
  if startIndex < 0 then (0, upsertHistory db 0 defaultDir) else (startIndex, db)

/-- `Terminal::Terminal`. -/
def construct (env : Surroundings) (tty : Int) (s : TerminalState) :
    Except Exn Unit × TerminalState :=
  let (startIndex, db) := startingPoint s.db
  match walkBackward env (getHistory db) (startIndex + 1).toNat with
  | .error e => (.error e, ⟨db, s.instances ++ [none]⟩)
  | .ok (some (i, _)) =>
      (.ok (), ⟨setSessionPointer db tty i, s.instances ++ [some tty]⟩)
  | .ok none =>
      let startIndex := getMaxHistoryIndex db
      let startIndex := if startIndex < 0 then 0 else startIndex
      let db := upsertHistory db startIndex defaultDir
      (.ok (), ⟨setSessionPointer db tty startIndex, s.instances ++ [some tty]⟩)

/-- The position of the first object whose `tty` field reads as `tty`. -/
def getInstanceByTTY (env : Surroundings) (s : TerminalState) (tty : Int) :
    Option ℕ :=
  s.instances.zipIdx.findIdx? fun object =>
    object.1.getD (env.freedTty object.2) = tty

def getJsonString (j : Json) (key : String) : String :=
  match j.find? key with
  | some (.string value) => value
  | some value =>
      if value.is_number then
        match value.getInt 64 with
        | .ok n => to_string n
        | .error _ => ""
      else ""
  | none => ""

/-- The tty argument of a command, or the result that reports it missing. -/
def ttyArgument (command : Json) : Except Exn (CmdResult ⊕ Int) :=
  let ttyStr := getJsonString command TTY_KEY
  if ttyStr = "" then .ok (.inl ⟨1, "Missing tty argument\n"⟩)
  else (stoi ttyStr).map .inr

def getIndex (db : Database) (tty : Int) : Int :=
  let idx := getSessionPointer db tty
  if 0 ≤ idx then idx else 0

/-! ## The commands on an existing object -/

/-- The end of `_openedTty`, after the directory has been validated. -/
def openedTtyValidated (db : Database) (index : Int) (dir : String) :
    CmdResult × Database :=
  if dir = "" ∨ dir = "/" then
    (⟨0, defaultDir ++ mustEndWithNewLine⟩, upsertHistory db index defaultDir)
  else (⟨0, dir ++ mustEndWithNewLine⟩, db)

/-- `_openedTty`'s own session pointer, made when there is none. -/
def openedTtyPointer (db : Database) (tty : Int) : Int × Database :=
  let index := getSessionPointer db tty
  if index < 0 then
    (0, upsertHistory (setSessionPointer db tty 0) 0 defaultDir)
  else (index, db)

def openedTtyError (e : Exn) : CmdResult :=
  ⟨1, "Error in openedTty: " ++ e.what ++ "\n"⟩

def _openedTty (env : Surroundings) (tty : Int) (db : Database) :
    CmdResult × Database :=
  let (index, db) := openedTtyPointer db tty
  let entry := fun i => standardizePath (getHistory db i)
  let dir := entry index
  if dir ≠ "" ∧ dir ≠ "/" then
    match env.is_directory dir with
    | .error e => (openedTtyError e, db)
    | .ok true => openedTtyValidated db index dir
    | .ok false =>
        match walkBackward env entry index.toNat with
        | .error e => (openedTtyError e, db)
        | .ok (some (i, candidate)) =>
            openedTtyValidated (setSessionPointer db tty i) i candidate
        | .ok none =>
            openedTtyValidated (setSessionPointer db tty 0) index defaultDir
  else openedTtyValidated db index dir

/-- `_closedTty` on the object at `position`; the destructor's second
`deleteSession` finds nothing left to delete. -/
def _closedTty (position : ℕ) (tty : Int) (s : TerminalState) :
    CmdResult × TerminalState :=
  (⟨0, "\n"⟩,
    ⟨deleteSession (deleteSession s.db tty) tty, s.instances.eraseIdx position⟩)

/-- A missing `pwd` does not get past `validateCommand`. -/
def getPWD (command : Json) : Except Exn String :=
  ((command.find? PWD_KEY).getD .null).getString

def _updateDirHistory (tty : Int) (command : Json) (db : Database) :
    Except Exn CmdResult × Database :=
  let index := getIndex db tty
  match getPWD command with
  | .error e => (.error e, db)
  | .ok text =>
      let pwd := standardizePath text
      let currentDir := standardizePath (getHistory db index)
      let nextDir := standardizePath (getHistory db (index + 1))
      let db := setSetting db INDEX_OF_LAST_TOUCHED_DIR_KEY (to_string index)
      if pwd = "" ∨ pwd = "/" then
        (.ok ⟨1, "No directory provided to updateDirHistory\n"⟩, db)
      else if currentDir = pwd then (.ok ⟨0, "\n"⟩, db)
      else if nextDir = pwd then
        (.ok ⟨0, "\n"⟩, setSessionPointer db tty (index + 1))
      else
        let insertIndex := getMaxHistoryIndex db + 1
        let db := upsertHistory db insertIndex pwd
        let db := setSessionPointer db tty insertIndex
        let db :=
          setSetting db INDEX_OF_LAST_TOUCHED_DIR_KEY (to_string insertIndex)
        (.ok ⟨0, "\n"⟩, pruneHistory (fun _ => true) db MAX_DIR_HISTORY_SIZE)

def cdAnswer (db : Database) (tty : Int) (atEnd : String) :
    Except Exn (Option (Int × String)) → Except Exn CmdResult × Database
  | .error e => (.error e, db)
  | .ok (some (i, dir)) =>
      (.ok ⟨0, "cd " ++ dir ++ mustEndWithNewLine⟩, setSessionPointer db tty i)
  | .ok none => (.ok ⟨0, atEnd ++ mustEndWithNewLine⟩, db)

def _cdForward (env : Surroundings) (tty : Int) (db : Database) :
    Except Exn CmdResult × Database :=
  let index := getIndex db tty
  let maxIndex := getMaxHistoryIndex db
  cdAnswer db tty "echo \nEND OF HISTORY reached\n"
    (walkForward env (fun i => standardizePath (getHistory db i))
      (maxIndex - index).toNat (index + 1))

def _cdBackward (env : Surroundings) (tty : Int) (db : Database) :
    Except Exn CmdResult × Database :=
  cdAnswer db tty "echo \nBEGINNING OF HISTORY reached\n"
    (walkBackward env (fun i => standardizePath (getHistory db i))
      (getIndex db tty).toNat)

/-! ## The commands -/

/-- `getInstanceByTTY`, creating the object when there is none. -/
def ensureInstance (env : Surroundings) (tty : Int) (s : TerminalState) :
    Except Exn Unit × TerminalState :=
  match getInstanceByTTY env s tty with
  | some _ => (.ok (), s)
  | none => construct env tty s

/-- The frame shared by the commands that make sure an object exists and then
run one of its methods on the database. -/
def withInstance (env : Surroundings) (command : Json)
    (method : Int → Database → Except Exn CmdResult × Database)
    (s : TerminalState) : Except Exn CmdResult × TerminalState :=
  match ttyArgument command with
  | .error e => (.error e, s)
  | .ok (.inl missing) => (.ok missing, s)
  | .ok (.inr tty) =>
      match ensureInstance env tty s with
      | (.error e, s) => (.error e, s)
      | (.ok (), s) =>
          let (result, db) := method tty s.db
          (result, { s with db })

def openedTty (env : Surroundings) (command : Json) (s : TerminalState) :
    Except Exn CmdResult × TerminalState :=
  withInstance env command
    (fun tty db => let (result, db) := _openedTty env tty db; (.ok result, db)) s

def updateDirHistory (env : Surroundings) (command : Json) (s : TerminalState) :
    Except Exn CmdResult × TerminalState :=
  withInstance env command (fun tty db => _updateDirHistory tty command db) s

def cdForward (env : Surroundings) (command : Json) (s : TerminalState) :
    Except Exn CmdResult × TerminalState :=
  withInstance env command (_cdForward env) s

def cdBackward (env : Surroundings) (command : Json) (s : TerminalState) :
    Except Exn CmdResult × TerminalState :=
  withInstance env command (_cdBackward env) s

def closedTty (env : Surroundings) (command : Json) (s : TerminalState) :
    Except Exn CmdResult × TerminalState :=
  match ttyArgument command with
  | .error e => (.error e, s)
  | .ok (.inl missing) => (.ok missing, s)
  | .ok (.inr tty) =>
      match getInstanceByTTY env s tty with
      | some position =>
          let (result, s) := _closedTty position tty s
          (.ok result, s)
      | none =>
          (.ok ⟨1, "Terminal instance not found for tty " ++
            getJsonString command TTY_KEY ++ mustEndWithNewLine⟩, s)

/-! ## Runs -/

/-- The commands that work on the directory history of a tty. -/
inductive Verb
  | openedTty | closedTty | updateDirHistory | cdForward | cdBackward
deriving DecidableEq

/-- One command with the surroundings it meets, or a restart of the daemon. -/
inductive Input
  | command (verb : Verb) (command : Json) (env : Surroundings)
  | restart

def handle (env : Surroundings) : Verb → Json → TerminalState →
    Except Exn CmdResult × TerminalState
  | .openedTty => openedTty env
  | .closedTty => closedTty env
  | .updateDirHistory => updateDirHistory env
  | .cdForward => cdForward env
  | .cdBackward => cdBackward env

def step (s : TerminalState) : Input → TerminalState
  | .command verb command env => (handle env verb command s).2
  | .restart => { s with instances := [] }

def run (s : TerminalState) (inputs : List Input) : TerminalState :=
  inputs.foldl step s

end Terminal

end AutomateLinux
