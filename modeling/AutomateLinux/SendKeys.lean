import AutomateLinux.SimulateInputEvents

/-!
# The `sendKeys` utility

`sendKeys` writes to the keyboard device what its arguments name.  It has a key
table of its own and cuts a name off at the front of a command, so that the
first row that fits decides.  The daemon cuts the suffix off at the end and
looks the rest up.  What both know they write alike, up to the reports between
the events.
-/

namespace AutomateLinux

namespace SendKeys

def KEY_MAP : List (String × ℕ) :=
  [("keyA", KEY_A), ("keyB", KEY_B), ("keyC", KEY_C), ("keyD", KEY_D), ("keyE", KEY_E),
    ("keyF", KEY_F), ("keyG", KEY_G), ("keyH", KEY_H), ("keyI", KEY_I), ("keyJ", KEY_J),
    ("keyK", KEY_K), ("keyL", KEY_L), ("keyM", KEY_M), ("keyN", KEY_N), ("keyO", KEY_O),
    ("keyP", KEY_P), ("keyQ", KEY_Q), ("keyR", KEY_R), ("keyS", KEY_S), ("keyT", KEY_T),
    ("keyU", KEY_U), ("keyV", KEY_V), ("keyW", KEY_W), ("keyX", KEY_X), ("keyY", KEY_Y),
    ("keyZ", KEY_Z), ("period", KEY_DOT), ("slash", KEY_SLASH), ("minus", KEY_MINUS),
    ("space", KEY_SPACE), ("comma", KEY_COMMA), ("equals", KEY_EQUAL),
    ("backspace", KEY_BACKSPACE), ("semicolon", KEY_SEMICOLON),
    ("apostrophe", KEY_APOSTROPHE), ("backslash", KEY_BACKSLASH),
    ("bracket_left", KEY_LEFTBRACE), ("bracket_right", KEY_RIGHTBRACE),
    ("backtick", KEY_GRAVE), ("enter", KEY_ENTER), ("keyShift", KEY_LEFTSHIFT)]

def codeForAppCodes : ℕ := 100
def codeForDefault : ℕ := 101
def codeForCode : ℕ := 102
def codeForGnomeTerminal : ℕ := 103
def codeForGoogleChrome : ℕ := 104

def isApp (input : String) : ℕ :=
  if input = "code" then codeForCode
  else if input = "gnome-terminal-server" then codeForGnomeTerminal
  else if input = "google-chrome" then codeForGoogleChrome
  else if input = "DefaultKeyboard" then codeForDefault
  else 0

/-- The key of the first row whose name the command begins with, and the rest of
the command. -/
def lookup_key (cmd : String) : Option (ℕ × List Char) :=
  KEY_MAP.findSome? fun row =>
    (row.1.toList.isPrefixOf? cmd.toList).map fun suffix => (row.2, suffix)

/-- `atoi`: the text is read as a `long` and cut down to an `int`. -/
def atoi (text : List Char) : Int :=
  match signedPrefix (text.dropWhile isspace) with
  | none => 0
  | some value => Json.wrap 32 (max (-2 ^ 63) (min value (2 ^ 63 - 1)))

/-- `ev.code` has sixteen bits. -/
def sendEvent (type : ℕ) (code value : Int) : InputEvent :=
  ⟨type, (code % 2 ^ 16).toNat, value⟩

def sendReport : InputEvent := sendEvent EV_SYN SYN_REPORT 0

/-- What a command writes to the device. -/
def handle_command (cmd : String) : List InputEvent :=
  match lookup_key cmd with
  | some (key_code, suffix) =>
      if suffix = [] then
        [sendEvent EV_KEY key_code 1, sendEvent EV_KEY key_code 0, sendReport]
      else if suffix = "Down".toList then [sendEvent EV_KEY key_code 1, sendReport]
      else if suffix = "Up".toList then [sendEvent EV_KEY key_code 0, sendReport]
      else []
  | none =>
      match "keycode:".toList.isPrefixOf? cmd.toList with
      | some number =>
          if 0 < atoi number then
            [sendEvent EV_KEY (atoi number) 1, sendEvent EV_KEY (atoi number) 0, sendReport]
          else []
      | none =>
          if cmd = "numlock" then
            [sendEvent EV_MSC MSC_SCAN 0x45, sendEvent EV_KEY KEY_NUMLOCK 1, sendReport,
              sendEvent EV_MSC MSC_SCAN 0x45, sendEvent EV_KEY KEY_NUMLOCK 0, sendReport]
          else if cmd = "numlockDown" then
            [sendEvent EV_MSC MSC_SCAN 0x45, sendEvent EV_KEY KEY_NUMLOCK 1, sendReport]
          else if cmd = "numlockUp" then
            [sendEvent EV_MSC MSC_SCAN 0x45, sendEvent EV_KEY KEY_NUMLOCK 0, sendReport]
          else if cmd = "syn" then [sendReport]
          else if isApp cmd = 0 then []
          else
            [0, 1, 2].flatMap (fun i : ℕ =>
              [sendEvent EV_MSC MSC_SCAN codeForAppCodes,
                sendEvent EV_MSC MSC_SCAN (codeForAppCodes + 100 + i), sendReport]) ++
              [sendEvent EV_MSC MSC_SCAN (isApp cmd), sendReport]

def sendKeys_with_fd (commands : List String) : List InputEvent :=
  commands.flatMap handle_command

end SendKeys

/-- The command that asks the daemon for a key. -/
def keyRequest (keyName : String) : Json := .object [("key", .string keyName)]

/-- Everything but the reports. -/
def isStroke (ev : InputEvent) : Bool := ev.type ≠ EV_SYN

namespace InputMapper

theorem status_simulateKey (m : InputMapper) (keyName : String) :
    (m.simulateKey keyName).1.status = (({} : InputMapper).simulateKey keyName).1.status := by
  unfold simulateKey
  dsimp only
  split_ifs
  · rfl
  · rfl
  · rfl
  · rfl
  · cases APP_NAME_TO_CODE.lookup keyName with
    | some appCode => rfl
    | none =>
        dsimp only
        cases KEY_NAME_TO_CODE.lookup (splitSuffix keyName).1 with
        | none => rfl
        | some keyCode => cases (splitSuffix keyName).2 <;> rfl

end InputMapper

namespace SendKeys

/-- The daemon takes a name as well and writes the strokes of `events` for it. -/
def Agrees (keyName : String) (events : List InputEvent) : Prop :=
  (({} : InputMapper).simulateKey keyName).1.status = 0 ∧
    (simulateKeyEvents keyName).filter isStroke = events.filter isStroke

instance (keyName : String) (events : List InputEvent) : Decidable (Agrees keyName events) :=
  inferInstanceAs (Decidable (_ ∧ _))

/-- The events for a key and what may follow its name. -/
def suffixes (key_code : ℕ) : List (String × List InputEvent) :=
  [("", [sendEvent EV_KEY key_code 1, sendEvent EV_KEY key_code 0, sendReport]),
    ("Down", [sendEvent EV_KEY key_code 1, sendReport]),
    ("Up", [sendEvent EV_KEY key_code 0, sendReport])]

/-- The daemon's table has every row of this one, and no name in it ends like a
suffix. -/
theorem agrees_row : ∀ row ∈ KEY_MAP, ∀ suffix ∈ suffixes row.2,
    Agrees (row.1 ++ suffix.1) suffix.2 := by
  decide +kernel

theorem agrees_special : ∀ cmd ∈ ["numlock", "numlockDown", "numlockUp", "syn", "code",
    "gnome-terminal-server", "google-chrome", "DefaultKeyboard"],
    Agrees cmd (handle_command cmd) := by
  decide +kernel

theorem exists_row_of_lookup_key {cmd : String} {key_code : ℕ} {suffix : List Char}
    (hlookup : lookup_key cmd = some (key_code, suffix)) :
    ∃ name, (name, key_code) ∈ KEY_MAP ∧ cmd = name ++ String.ofList suffix := by
  obtain ⟨row, hrow, hfound⟩ := List.exists_of_findSome?_eq_some hlookup
  obtain ⟨rest, hrest, hpair⟩ := Option.map_eq_some_iff.mp hfound
  obtain ⟨rfl, rfl⟩ := Prod.mk.inj hpair
  have hsplit : row.1.toList ++ rest = cmd.toList := List.isPrefixOf?_eq_some_iff_append_eq.mp hrest
  exact ⟨row.1, hrow, String.toList_injective (by simp [hsplit])⟩

/-- Apart from `keycode:`, the daemon takes every command for which the utility
writes anything, and writes the same strokes. -/
theorem agrees_of_known {cmd : String} (hcode : ¬ "keycode:".toList <+: cmd.toList)
    (hknown : handle_command cmd ≠ []) : Agrees cmd (handle_command cmd) := by
  cases hlookup : lookup_key cmd with
  | some found =>
      obtain ⟨key_code, suffix⟩ := found
      obtain ⟨name, hrow, rfl⟩ := exists_row_of_lookup_key hlookup
      have hrows := agrees_row (name, key_code) hrow
      unfold handle_command at hknown ⊢
      rw [hlookup] at hknown ⊢
      dsimp only at hknown ⊢
      by_cases hempty : suffix = []
      · rw [if_pos hempty, hempty]
        exact hrows _ List.mem_cons_self
      rw [if_neg hempty] at hknown ⊢
      by_cases hdown : suffix = "Down".toList
      · rw [if_pos hdown, hdown, String.ofList_toList]
        exact hrows _ (List.mem_cons_of_mem _ List.mem_cons_self)
      rw [if_neg hdown] at hknown ⊢
      by_cases hup : suffix = "Up".toList
      · rw [if_pos hup, hup, String.ofList_toList]
        exact hrows _ (List.mem_cons_of_mem _ (List.mem_cons_of_mem _ List.mem_cons_self))
      · exact absurd (if_neg hup) hknown
  | none =>
      refine agrees_special cmd ?_
      have hnumber : "keycode:".toList.isPrefixOf? cmd.toList = none := by
        by_contra hsome
        obtain ⟨number, hnumber⟩ := Option.ne_none_iff_exists'.mp hsome
        exact hcode ⟨number, List.isPrefixOf?_eq_some_iff_append_eq.mp hnumber⟩
      unfold handle_command isApp at hknown
      rw [hlookup, hnumber] at hknown
      by_contra hnone
      simp only [List.mem_cons, List.not_mem_nil, or_false, not_or] at hnone
      simp [hnone] at hknown

theorem mapper_simulate_keyRequest (s : Simulator) (now : ℕ) (keyName : String) :
    (s.simulate now (keyRequest keyName)).2.mapper = s.mapper.write (simulateKeyEvents keyName) :=
  s.mapper_simulate now (keyRequest keyName)

theorem simulate_keyRequest (s : Simulator) (now : ℕ) (keyName : String) :
    (s.simulate now (keyRequest keyName)).1 = .ok (s.mapper.simulateKey keyName).1 := rfl

/-- A script that `sendKeys` understands may be sent to the daemon word by word:
every word is taken, and the virtual device gets the same strokes. -/
theorem simulateAll_of_sendKeys (s : Simulator) {requests : List (ℕ × String)}
    (hcode : ∀ request ∈ requests, ¬ "keycode:".toList <+: request.2.toList)
    (hknown : ∀ request ∈ requests, handle_command request.2 ≠ []) :
    (∀ request ∈ requests, ∀ s' : Simulator, ∃ result,
        (s'.simulate request.1 (keyRequest request.2)).1 = .ok result ∧ result.status = 0) ∧
      (s.simulateAll (requests.map fun request =>
          (request.1, keyRequest request.2))).mapper.uinput.filter isStroke =
        s.mapper.uinput.filter isStroke ++
          (sendKeys_with_fd (requests.map Prod.snd)).filter isStroke := by
  have hagrees : ∀ request ∈ requests, Agrees request.2 (handle_command request.2) :=
    fun request hrequest => agrees_of_known (hcode request hrequest) (hknown request hrequest)
  clear hcode hknown
  constructor
  · intro request hrequest s'
    refine ⟨_, simulate_keyRequest s' request.1 request.2, ?_⟩
    rw [InputMapper.status_simulateKey]
    exact (hagrees request hrequest).1
  · induction requests generalizing s with
    | nil => simp [Simulator.simulateAll, sendKeys_with_fd]
    | cons request requests ih =>
        obtain ⟨hfirst, hrest⟩ := List.forall_mem_cons.mp hagrees
        have hnext := ih (s.simulate request.1 (keyRequest request.2)).2 hrest
        change ((s.simulate request.1 (keyRequest request.2)).2.simulateAll _).mapper.uinput.filter
          isStroke = _
        rw [hnext, mapper_simulate_keyRequest]
        change List.filter isStroke (_ ++ _) ++ _ = _
        rw [List.filter_append, hfirst.2, List.append_assoc, List.map_cons, sendKeys_with_fd,
          sendKeys_with_fd, List.flatMap_cons, List.filter_append]

theorem simulateAll_of_script :
    (∀ request ∈ [(1, "keyADown"), (2, "numlock")], ∀ s' : Simulator, ∃ result,
        (s'.simulate request.1 (keyRequest request.2)).1 = .ok result ∧ result.status = 0) ∧
      (({} : Simulator).simulateAll ([(1, "keyADown"), (2, "numlock")].map fun request =>
          (request.1, keyRequest request.2))).mapper.uinput.filter isStroke =
        ({} : Simulator).mapper.uinput.filter isStroke ++
          (sendKeys_with_fd ([(1, "keyADown"), (2, "numlock")].map Prod.snd)).filter isStroke :=
  simulateAll_of_sendKeys {} (by decide +kernel) (by decide +kernel)

/-- The row of `keyShift` is never reached: that of `keyS` fits first. -/
theorem handle_command_keyShift (suffix : String) : handle_command ("keyShift" ++ suffix) = [] := by
  have hlookup : lookup_key ("keyShift" ++ suffix) =
      some (KEY_S, "hift".toList ++ suffix.toList) := by
    simp [lookup_key, KEY_MAP, List.isPrefixOf?]
  unfold handle_command
  rw [hlookup]
  simp

end SendKeys

end AutomateLinux
