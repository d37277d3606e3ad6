import AutomateLinux.DaemonServerFraming
import AutomateLinux.LengthFraming
import AutomateLinux.NativeHostMessages
import AutomateLinux.PersistentConnections

/-!
# From the browser to the daemon

The extension posts objects, which the browser writes to the native host behind their
length.  The host reads them one by one, turns each into a command and writes it to the
daemon on a line of its own; the first message that it cannot read ends it.  Whatever the
reads of the daemon cut, it gets the commands in their order, but it leaves the connection
after the first one that does not register.
-/

namespace AutomateLinux

namespace NativeHost

open Utf8 LengthFraming

/-- Whether Python takes the value for true. -/
def truthy : Json → Bool
  | .null => false
  | .boolean value => value
  | .number_integer value => value ≠ 0
  | .number_unsigned value => value ≠ 0
  | .number_float value => value ≠ 0
  | .string value => value ≠ ""
  | .array items => !items.isEmpty
  | .object members => !members.isEmpty

/-- The message has the methods that `read_from_chrome` calls on it for its log. -/
def logged (parsed : Json) : Bool :=
  parsed.is_object &&
    ((parsed.find? "action").any truthy || (parsed.find? "command").any truthy ||
      (parsed.find? "url").all Json.is_string)

/-- The command that `main` sends for a message. -/
def commandFor (message : Json) : Option Json :=
  if message.contains "command" then some message
  else
    match message.find? "url" with
    | some url => some (.object [("command", .string "setActiveTabUrl"), ("url", url)])
    | none =>
        match message.find? "action" with
        | some (.string "focusAck") => some (.object [("command", .string "focusAck")])
        | _ => none

section

variable (loads : List Char → Option Json) (dumps : Json → List Char)

/-- The message, and what is left of the standard input.  What `read` returns is shorter
than asked for only at its end. -/
def read_from_chrome (stdin : List UInt8) : Option (Json × List UInt8) :=
  let raw_length := stdin.take 4
  if raw_length.length < 4 then none
  else
    let message_length := unpack raw_length
    if message_length > 10 * 1024 * 1024 then none
    else
      match (decodeStrict ((stdin.drop 4).take message_length)).bind loads with
      | none => none
      | some parsed =>
          if logged parsed then some (parsed, (stdin.drop 4).drop message_length) else none

/-- The commands that `main` sends until it leaves its loop. -/
def main (stdin : List UInt8) : List Json :=
  match _hread : read_from_chrome loads stdin with
  | none => []
  | some (message, rest) => (commandFor message).toList ++ main rest
termination_by stdin.length
decreasing_by
  unfold read_from_chrome at _hread
  dsimp only at _hread
  split_ifs at _hread with hshort
  split at _hread
  · exact nomatch _hread
  · split_ifs at _hread
    obtain ⟨-, rfl⟩ := Prod.mk.inj (Option.some.inj _hread)
    rw [List.length_take] at hshort
    rw [List.length_drop, List.length_drop]
    omega

/-- `DaemonLink.connect` registers, and `send` writes each command on a line. -/
def written (commands : List Json) : List UInt8 :=
  (.object [("command", .string "registerNativeHost")] :: commands).flatMap fun command =>
    encode (dumps command ++ ['\n'])

end

section

variable {loads : List Char → Option Json} {dumps : Json → List Char}
  {parse : List UInt8 → Option Json} {posted : List Message}

/-! ## What the host reads -/

/-- What the extension posts: the text is JSON for the object, and the browser can write
its length. -/
structure Posted (loads : List Char → Option Json) (m : Message) : Prop where
  parses : loads m.text = some m.object
  fits : (encode m.text).length < 256 ^ 4

/-- The host does not end at the message. -/
def readable (m : Message) : Bool :=
  decide ((encode m.text).length ≤ 10 * 1024 * 1024) && logged m.object

theorem read_from_chrome_frame {m : Message} (hposted : Posted loads m) (rest : List UInt8) :
    read_from_chrome loads (frame 4 (encode m.text) ++ rest) =
      if readable m then some (m.object, rest) else none := by
  have hheader : ¬ ((frame 4 (encode m.text) ++ rest).take 4).length < 4 := by
    rw [take_frame, length_pack]
    omega
  unfold read_from_chrome readable
  dsimp only
  rw [if_neg hheader, unpack_take_frame hposted.fits, drop_frame, List.take_left, List.drop_left,
    decodeStrict_encode, Option.bind_some, hposted.parses]
  dsimp only
  by_cases hlarge : (encode m.text).length > 10 * 1024 * 1024
  · rw [if_pos hlarge, decide_eq_false (by omega), Bool.false_and, if_neg Bool.false_ne_true]
  · rw [if_neg hlarge, decide_eq_true (by omega), Bool.true_and]

/-- The first message that the host cannot read ends it. -/
theorem main_frames (hposted : ∀ m ∈ posted, Posted loads m) :
    main loads (posted.flatMap fun m => frame 4 (encode m.text)) =
      (posted.takeWhile readable).filterMap fun m => commandFor m.object := by
  induction posted with
  | nil =>
      rw [main]
      rfl
  | cons m posted ih =>
      rw [List.flatMap_cons, main, List.takeWhile_cons]
      have hread := read_from_chrome_frame (hposted m List.mem_cons_self)
        (posted.flatMap fun m => frame 4 (encode m.text))
      cases hreadable : readable m with
      | false =>
          rw [hreadable] at hread
          split
          · rfl
          · rename_i hsome
            exact nomatch hread.symm.trans hsome
      | true =>
          rw [hreadable] at hread
          split
          · rename_i hnone
            exact nomatch hread.symm.trans hnone
          · rename_i message rest hsome
            obtain ⟨rfl, rfl⟩ := Prod.mk.inj (Option.some.inj (hread.symm.trans hsome))
            rw [ih fun m' hm' => hposted m' (List.mem_cons_of_mem m hm')]
            simp only [if_true, List.filterMap_cons]
            cases commandFor m.object <;> rfl

/-! ## What the daemon gets -/

def registration : Json := .object [("command", .string "registerNativeHost")]

/-- The commands that the daemon is to get for the messages. -/
def commandsOf (posted : List Message) : List Json :=
  registration :: (posted.takeWhile readable).filterMap fun m => commandFor m.object

/-- The lines that the host writes are those that the daemon cuts off. -/
theorem lines_written (hdumps : ∀ command, ∀ c ∈ dumps command, 32 ≤ c.toNat)
    (commands : List Json) :
    LineFraming.lines DaemonServer.endsLine (written dumps commands) =
      (registration :: commands).map fun command => encode (dumps command) := by
  have hline (command : Json) : ∀ byte ∈ encode (dumps command),
      DaemonServer.endsLine byte = false := by
    intro byte hbyte
    rw [DaemonServer.endsLine, decide_eq_false_iff_not]
    rintro rfl
    have hcontrol := hdumps command _ ((mem_encode_iff encodeChar_newline).mp hbyte)
    exact absurd hcontrol (by decide)
  have hwritten : written dumps commands =
      ((registration :: commands).map fun command => encode (dumps command)).flatMap
        fun text => text ++ [10] := by
    rw [List.flatMap_map]
    refine List.flatMap_congr fun command _ => ?_
    rw [encode_append]
    rfl
  rw [hwritten, LineFraming.lines, LineFraming.split_flatMap_line ?_ rfl]
  intro text htext
  obtain ⟨command, -, rfl⟩ := List.mem_map.mp htext
  exact hline command

theorem not_nul_written (hdumps : ∀ command, ∀ c ∈ dumps command, 32 ≤ c.toNat)
    (commands : List Json) : (0 : UInt8) ∉ written dumps commands := by
  intro hnul
  obtain ⟨command, -, hbyte⟩ := List.mem_flatMap.mp hnul
  have hmem := (mem_encode_iff encodeChar_nul).mp hbyte
  rcases List.mem_append.mp hmem with hmem | hmem
  · exact absurd (hdumps command _ hmem) (by decide)
  · exact absurd hmem (by decide)

theorem dropCarriageReturn_dumps (hdumps : ∀ command, ∀ c ∈ dumps command, 32 ≤ c.toNat)
    (command : Json) : dropCarriageReturn (encode (dumps command)) = encode (dumps command) := by
  refine if_neg fun hlast => ?_
  have hmem := (mem_encode_iff (show String.utf8EncodeChar '\r' = [13] by decide)).mp
    (List.mem_of_getLast? hlast)
  exact absurd (hdumps command _ hmem) (by decide)

/-- The daemon keeps the connection on which it gets the command. -/
def keepsOpen (command : Json) : Bool :=
  match commandNameOf command with
  | .ok commandName => decide (returnCode commandName = 0)
  | .error _ => false

/-- The daemon leaves the connection at the line. -/
def leaves (parse : List UInt8 → Option Json) (line : List UInt8) : Bool :=
  (received parse line).any fun command => !keepsOpen command

theorem leavesAt_leaves (dump : Json → String) (h : Handle) (call : DaemonServer.Call) :
    LineFraming.LeavesAt (leaves parse)
      (DaemonServer.processLine dump parse .handle_client_data h call) := by
  intro n line s left s' hprocess
  simp only [DaemonServer.processLine, DaemonServer.clientMessage] at hprocess
  unfold leaves
  split at hprocess
  · rename_i hreceived
    rw [hreceived]
    exact (Prod.mk.inj (Except.ok.inj hprocess)).1.symm
  · rename_i command hreceived
    rw [hreceived, Option.any_some, keepsOpen]
    split at hprocess
    · contradiction
    · rename_i res _ hcall
      obtain ⟨rfl, -⟩ := Prod.mk.inj (Except.ok.inj hprocess)
      unfold DaemonServer.callMainCommand mainCommand at hcall
      cases hname : commandNameOf command with
      | error e =>
          rw [hname] at hcall
          exact nomatch hcall
      | ok commandName =>
          have hres : res = returnCode commandName := by
            simp only [hname] at hcall
            split at hcall
            · rename_i htwo
              exact (Prod.mk.inj (Except.ok.inj hcall)).1.symm.trans htwo.symm
            · exact (Prod.mk.inj (Except.ok.inj hcall)).1.symm
          rw [hres]
          rcases DaemonServer.returnCode_range commandName with hcode | hcode | hcode <;>
            simp [hcode]

theorem takeWhile_congr {α : Type} {p q : α → Bool} {l : List α} (hsame : ∀ a ∈ l, p a = q a) :
    l.takeWhile p = l.takeWhile q := by
  induction l with
  | nil => rfl
  | cons a l ih =>
      rw [List.takeWhile_cons, List.takeWhile_cons, hsame a List.mem_cons_self,
        ih fun a' ha' => hsame a' (List.mem_cons_of_mem a ha')]

end

/-! ## Two tabs -/

def tabMessage : Message :=
  ⟨"\x7b\"url\":\"u\"\x7d".toList, .object [("url", .string "u")]⟩

def tabCommand : Json := .object [("command", .string "setActiveTabUrl"), ("url", .string "u")]

def tabLoads (text : List Char) : Option Json :=
  if text = tabMessage.text then some tabMessage.object else none

def registrationText : List Char := "\x7b\"command\": \"registerNativeHost\"\x7d".toList

def tabCommandText : List Char := "\x7b\"command\": \"setActiveTabUrl\", \"url\": \"u\"\x7d".toList

def tabDumps (command : Json) : List Char :=
  if (command.find? "url").isSome then tabCommandText else registrationText

def tabParse (line : List UInt8) : Option Json :=
  if line = encode tabCommandText then some tabCommand
  else if line = encode registrationText then some registration
  else none

def tabReads : List DaemonServer.Call :=
  DaemonServer.readsOf
    [encode (registrationText ++ ['\n'] ++ tabCommandText.take 7),
      encode (tabCommandText.drop 7 ++ ['\n'] ++ tabCommandText ++ ['\n'])]

theorem tabReads_calls : ∃ r, DaemonServer.calls (fun _ => "") tabParse .handle_client_data
    ⟨1, ⟨1, .client⟩⟩ tabReads [] DaemonServer.initial = .ok r := by
  rw [DaemonServer.calls_eq_receiveAll]
  obtain ⟨s₁, s₂, hfirst, hsecond⟩ : ∃ s₁ s₂,
      DaemonServer.processLine (fun _ => "") tabParse .handle_client_data ⟨1, ⟨1, .client⟩⟩
        tabReads[0] 0 (encode registrationText) DaemonServer.initial = .ok (false, s₁) ∧
      DaemonServer.processLine (fun _ => "") tabParse .handle_client_data ⟨1, ⟨1, .client⟩⟩
        tabReads[1] 0 (encode tabCommandText) s₁ = .ok (true, s₂) := ⟨_, _, rfl, rfl⟩
  have htakeFirst : LineFraming.takeLine DaemonServer.endsLine
      ([] ++ DaemonServer.cString tabReads[0].chunk) =
        some (encode registrationText, 10, encode (tabCommandText.take 7)) := by decide
  have hrest : LineFraming.takeLine DaemonServer.endsLine (encode (tabCommandText.take 7)) =
      none := by decide
  have htakeSecond : LineFraming.takeLine DaemonServer.endsLine
      (encode (tabCommandText.take 7) ++ DaemonServer.cString tabReads[1].chunk) =
        some (encode tabCommandText, 10, encode (tabCommandText ++ ['\n'])) := by decide
  refine ⟨⟨[(encode registrationText, false), (encode tabCommandText, true)],
    encode (tabCommandText ++ ['\n']), s₂⟩, ?_⟩
  rw [show tabReads = [tabReads[0], tabReads[1]] from rfl, List.map_cons, List.map_singleton,
    LineFraming.receiveAll, LineFraming.extract_of_some htakeFirst, hfirst]
  dsimp only
  rw [LineFraming.extract_of_none hrest]
  dsimp only [Except.map]
  rw [if_neg (by simp [LineFraming.Extracted.left]), LineFraming.receiveAll,
    LineFraming.extract_of_some htakeSecond, hsecond]
  rfl

end NativeHost

end AutomateLinux
