import AutomateLinux.InputMapperTurns
import AutomateLinux.KeyboardReplay
import AutomateLinux.Utf8

/-!
# Typing a text

`simulateInput` types a string byte by byte: a table gives the key for each
character it knows and whether shift has to be held for it, and every other
byte is passed over.
-/

namespace AutomateLinux

def KEY_2 : ℕ := 3
def KEY_3 : ℕ := 4
def KEY_4 : ℕ := 5
def KEY_5 : ℕ := 6
def KEY_8 : ℕ := 9
def KEY_9 : ℕ := 10
def KEY_0 : ℕ := 11
def KEY_MINUS : ℕ := 12
def KEY_EQUAL : ℕ := 13
def KEY_TAB : ℕ := 15
def KEY_Q : ℕ := 16
def KEY_W : ℕ := 17
def KEY_E : ℕ := 18
def KEY_R : ℕ := 19
def KEY_Y : ℕ := 21
def KEY_U : ℕ := 22
def KEY_O : ℕ := 24
def KEY_P : ℕ := 25
def KEY_LEFTBRACE : ℕ := 26
def KEY_RIGHTBRACE : ℕ := 27
def KEY_D : ℕ := 32
def KEY_F : ℕ := 33
def KEY_H : ℕ := 35
def KEY_J : ℕ := 36
def KEY_K : ℕ := 37
def KEY_L : ℕ := 38
def KEY_SEMICOLON : ℕ := 39
def KEY_APOSTROPHE : ℕ := 40
def KEY_GRAVE : ℕ := 41
def KEY_BACKSLASH : ℕ := 43
def KEY_Z : ℕ := 44
def KEY_X : ℕ := 45
def KEY_B : ℕ := 48
def KEY_N : ℕ := 49
def KEY_M : ℕ := 50
def KEY_COMMA : ℕ := 51
def KEY_DOT : ℕ := 52
def KEY_SLASH : ℕ := 53

/-! ## `typeChar` -/

/-- The cases of the switch: a character, its key and whether it takes shift. -/
def typeCharCases : List (Char × ℕ × Bool) :=
  [('a', KEY_A, false), ('b', KEY_B, false), ('c', KEY_C, false), ('d', KEY_D, false),
    ('e', KEY_E, false), ('f', KEY_F, false), ('g', KEY_G, false), ('h', KEY_H, false),
    ('i', KEY_I, false), ('j', KEY_J, false), ('k', KEY_K, false), ('l', KEY_L, false),
    ('m', KEY_M, false), ('n', KEY_N, false), ('o', KEY_O, false), ('p', KEY_P, false),
    ('q', KEY_Q, false), ('r', KEY_R, false), ('s', KEY_S, false), ('t', KEY_T, false),
    ('u', KEY_U, false), ('v', KEY_V, false), ('w', KEY_W, false), ('x', KEY_X, false),
    ('y', KEY_Y, false), ('z', KEY_Z, false), ('A', KEY_A, true), ('B', KEY_B, true),
    ('C', KEY_C, true), ('D', KEY_D, true), ('E', KEY_E, true), ('F', KEY_F, true),
    ('G', KEY_G, true), ('H', KEY_H, true), ('I', KEY_I, true), ('J', KEY_J, true),
    ('K', KEY_K, true), ('L', KEY_L, true), ('M', KEY_M, true), ('N', KEY_N, true),
    ('O', KEY_O, true), ('P', KEY_P, true), ('Q', KEY_Q, true), ('R', KEY_R, true),
    ('S', KEY_S, true), ('T', KEY_T, true), ('U', KEY_U, true), ('V', KEY_V, true),
    ('W', KEY_W, true), ('X', KEY_X, true), ('Y', KEY_Y, true), ('Z', KEY_Z, true),
    ('1', KEY_1, false), ('2', KEY_2, false), ('3', KEY_3, false), ('4', KEY_4, false),
    ('5', KEY_5, false), ('6', KEY_6, false), ('7', KEY_7, false), ('8', KEY_8, false),
    ('9', KEY_9, false), ('0', KEY_0, false), ('!', KEY_1, true), ('@', KEY_2, true),
    ('#', KEY_3, true), ('$', KEY_4, true), ('%', KEY_5, true), ('^', KEY_6, true),
    ('&', KEY_7, true), ('*', KEY_8, true), ('(', KEY_9, true), (')', KEY_0, true),
    ('-', KEY_MINUS, false), ('_', KEY_MINUS, true), ('=', KEY_EQUAL, false),
    ('+', KEY_EQUAL, true), ('[', KEY_LEFTBRACE, false), ('\x7b', KEY_LEFTBRACE, true),
    (']', KEY_RIGHTBRACE, false), ('\x7d', KEY_RIGHTBRACE, true), ('\\', KEY_BACKSLASH, false),
    ('|', KEY_BACKSLASH, true), (';', KEY_SEMICOLON, false), (':', KEY_SEMICOLON, true),
    ('\'', KEY_APOSTROPHE, false), ('\"', KEY_APOSTROPHE, true), (',', KEY_COMMA, false),
    ('<', KEY_COMMA, true), ('.', KEY_DOT, false), ('>', KEY_DOT, true),
    ('/', KEY_SLASH, false), ('?', KEY_SLASH, true), ('\x60', KEY_GRAVE, false),
    ('~', KEY_GRAVE, true), (' ', KEY_SPACE, false), ('\n', KEY_ENTER, false),
    ('\t', KEY_TAB, false)]

namespace InputMapper

/-- `emit` and then `sync`. -/
def emitAndSync (m : InputMapper) (code : ℕ) (value : Int) : InputMapper :=
  (m.emit ⟨EV_KEY, code, value⟩).sync

def typeKey (m : InputMapper) (code : ℕ) (shift : Bool) : InputMapper :=
  let m := if shift then m.emitAndSync KEY_LEFTSHIFT 1 else m
  let m := (m.emitAndSync code 1).emitAndSync code 0
  if shift then m.emitAndSync KEY_LEFTSHIFT 0 else m

def typeChar (m : InputMapper) (c : UInt8) : InputMapper :=
  match typeCharCases.lookup (Char.ofNat c.toNat) with
  | none => m
  | some (code, shift) => if code = 0 then m else m.typeKey code shift

/-- The command with a string; `withoutString` is what it does with a key or
nothing instead. -/
def handleSimulateInput
    (withoutString : Json → InputMapper → Except Exn CmdResult × InputMapper)
    (command : Json) (m : InputMapper) : Except Exn CmdResult × InputMapper :=
  match command.find? "string" with
  | none => withoutString command m
  | some member =>
      match member.getString with
      | .error e => (.error e, m)
      | .ok str => (.ok ⟨0, ""⟩, (Utf8.encode str.toList).foldl typeChar m)

end InputMapper

/-! ## The keyboard -/

/-- The rows of the keyboard from their first keys on, without and with shift. -/
def usLayoutRows : List (ℕ × String × String) :=
  [(KEY_1, "1234567890-=", "!@#$%^&*()_+"), (KEY_TAB, "\t", "\t"),
    (KEY_Q, "qwertyuiop[]", "QWERTYUIOP\x7b\x7d"), (KEY_ENTER, "\n", "\n"),
    (KEY_A, "asdfghjkl;\'\x60", "ASDFGHJKL:\"~"), (KEY_BACKSLASH, "\\", "|"),
    (KEY_Z, "zxcvbnm,./", "ZXCVBNM<>?"), (KEY_SPACE, " ", " ")]

def usChar (code : ℕ) (shift : Bool) : Option Char :=
  usLayoutRows.findSome? fun row =>
    if row.1 ≤ code then
      (if shift then row.2.2 else row.2.1).toList[code - row.1]?
    else none

def KEY_RIGHTSHIFT : ℕ := 54

def usLayout : KeyboardReplay.Layout ℕ Char where
  isShift := fun code => code = KEY_LEFTSHIFT || code = KEY_RIGHTSHIFT
  char := usChar

open KeyboardReplay

/-- What an event is to the keyboard. -/
def strokeOf (ev : InputEvent) : Option (Stroke ℕ) :=
  if ev.type = EV_KEY then
    if ev.value = 1 then some (.press ev.code)
    else if ev.value = 0 then some (.release ev.code)
    else none
  else none

/-- What is typed on a US keyboard by events that find no key down, and what is
down then. -/
def typedOn (layout : Layout ℕ Char) (events : List InputEvent) : State ℕ Char :=
  replay layout (events.filterMap strokeOf) ⟨[], []⟩

/-- Printable ASCII, newline and tab. -/
def isTypeable (c : Char) : Bool := (32 ≤ c.toNat && c.toNat ≤ 126) || c = '\n' || c = '\t'

/-! ## One character -/

def keyEvents (code : ℕ) (value : Int) : List InputEvent :=
  [⟨EV_KEY, code, value⟩, synReport, synReport]

def typeKeyEvents (code : ℕ) (shift : Bool) : List InputEvent :=
  (if shift then keyEvents KEY_LEFTSHIFT 1 else []) ++ keyEvents code 1 ++ keyEvents code 0 ++
    if shift then keyEvents KEY_LEFTSHIFT 0 else []

/-- What is written for a byte. -/
def typeCharEvents (c : UInt8) : List InputEvent :=
  match typeCharCases.lookup (Char.ofNat c.toNat) with
  | none => []
  | some (code, shift) => if code = 0 then [] else typeKeyEvents code shift

namespace InputMapper

variable {m : InputMapper}

theorem emitAndSync_eq_write (code : ℕ) (value : Int) :
    m.emitAndSync code value = m.write (keyEvents code value) := by
  simp [emitAndSync, emit, sync, emitNoSync, write, keyEvents]

theorem typeKey_eq_write (code : ℕ) (shift : Bool) :
    m.typeKey code shift = m.write (typeKeyEvents code shift) := by
  cases shift <;> simp [typeKey, typeKeyEvents, emitAndSync_eq_write, write_write]

theorem typeChar_eq_write (c : UInt8) : m.typeChar c = m.write (typeCharEvents c) := by
  unfold typeChar typeCharEvents
  split
  · simp [write]
  · split
    · simp [write]
    · exact typeKey_eq_write _ _

theorem foldl_typeChar (bytes : List UInt8) :
    bytes.foldl typeChar m = m.write (bytes.flatMap typeCharEvents) := by
  induction bytes generalizing m with
  | nil => simp [write]
  | cons c bytes ih => rw [List.foldl_cons, ih, typeChar_eq_write, write_write, List.flatMap_cons]

end InputMapper

theorem strokes_typeKeyEvents (code : ℕ) (shift : Bool) :
    (typeKeyEvents code shift).filterMap strokeOf =
      if shift then holding KEY_LEFTSHIFT (tap code) else tap code := by
  cases shift <;> simp [typeKeyEvents, keyEvents, strokeOf, synReport, holding, tap, EV_KEY, EV_SYN]

/-- Every case names a key, other than shift, that types its character. -/
theorem typeCharCases_typed : ∀ row ∈ typeCharCases,
    (row.2.1 ≠ 0 ∧ row.2.1 ≠ KEY_LEFTSHIFT) ∧ usChar row.2.1 row.2.2 = some row.1 ∧
      isTypeable row.1 = true := by
  decide +kernel

theorem typeCharCases_complete : ∀ n < 127, isTypeable (Char.ofNat n) = true →
    (typeCharCases.lookup (Char.ofNat n)).isSome = true := by
  decide +kernel

theorem usChar_leftShift (shift : Bool) : usChar KEY_LEFTSHIFT shift = none := by
  cases shift <;> decide +kernel

theorem isTypeable_toNat {c : Char} (hc : isTypeable c = true) : c.toNat < 127 := by
  simp only [isTypeable, Bool.or_eq_true, Bool.and_eq_true, decide_eq_true_eq] at hc
  rcases hc with (⟨-, hle⟩ | rfl) | rfl
  · omega
  · decide
  · decide

theorem isTypeable_of_high {c : Char} (hhigh : 128 ≤ c.toNat) : isTypeable c = false := by
  by_contra htypeable
  have hlow := isTypeable_toNat (Bool.not_eq_false _ ▸ htypeable)
  omega

theorem lookup_typeCharCases (c : Char) :
    (isTypeable c = false ∧ typeCharCases.lookup c = none) ∨
      ∃ code shift, isTypeable c = true ∧ typeCharCases.lookup c = some (code, shift) ∧
        (code ≠ 0 ∧ code ≠ KEY_LEFTSHIFT) ∧ usChar code shift = some c := by
  cases hlookup : typeCharCases.lookup c with
  | none =>
      refine Or.inl ⟨?_, rfl⟩
      by_contra htypeable
      rw [Bool.not_eq_false] at htypeable
      have hsome := typeCharCases_complete c.toNat (isTypeable_toNat htypeable)
      rw [Char.ofNat_toNat, hlookup] at hsome
      exact absurd (hsome htypeable) (by decide)
  | some row =>
      have hmem : (c, row) ∈ typeCharCases := by
        obtain ⟨before, after, heq, -⟩ := List.lookup_eq_some_iff.mp hlookup
        rw [heq]
        exact List.mem_append_right before List.mem_cons_self
      obtain ⟨hkey, hchar, htypeable⟩ := typeCharCases_typed (c, row) hmem
      exact Or.inr ⟨row.1, row.2, htypeable, rfl, hkey, hchar⟩

/-- The characters a byte comes back as. -/
def typedByte (c : UInt8) : List Char := [Char.ofNat c.toNat].filter isTypeable

theorem replay_typeCharEvents (c : UInt8) (typed : List Char) :
    replay usLayout ((typeCharEvents c).filterMap strokeOf) ⟨[], typed⟩ =
      ⟨[], typed ++ typedByte c⟩ := by
  unfold typeCharEvents typedByte
  rcases lookup_typeCharCases (Char.ofNat c.toNat) with
    ⟨htypeable, hlookup⟩ | ⟨code, shift, htypeable, hlookup, ⟨hcode, hshift⟩, hchar⟩
  · simp [hlookup, htypeable, replay]
  · rw [hlookup]
    dsimp only
    rw [if_neg hcode, strokes_typeKeyEvents, List.filter_cons_of_pos htypeable]
    cases shift with
    | true =>
        rw [if_pos rfl, replay_holding_tap usLayout hshift rfl usChar_leftShift]
        simp [usLayout, hchar]
    | false =>
        rw [if_neg (by decide), replay_tap usLayout (by simp)]
        simp [usLayout, hchar]

/-! ## A text -/

/-- Every byte string comes back without the bytes that are not typed. -/
theorem typedOn_bytes (bytes : List UInt8) :
    typedOn usLayout (bytes.flatMap typeCharEvents) = ⟨[], bytes.flatMap typedByte⟩ := by
  unfold typedOn
  rw [List.filterMap_flatMap, replay_flatMap usLayout replay_typeCharEvents]
  rfl

theorem encodeChar_of_ascii {c : Char} (hascii : c.toNat < 128) :
    String.utf8EncodeChar c = [c.val.toUInt8] ∧ c.val.toUInt8.toNat = c.toNat := by
  have hval : c.val.toNat = c.toNat := rfl
  have hsize : c.utf8Size = 1 := by
    rw [Char.utf8Size_eq_one_iff, UInt32.le_iff_toNat_le, hval]
    exact Nat.le_of_lt_succ hascii
  refine ⟨String.utf8EncodeChar_eq_singleton hsize, ?_⟩
  rw [UInt32.toNat_toUInt8, hval]
  omega

theorem toNat_ofNat_byte (x : UInt8) : (Char.ofNat x.toNat).toNat = x.toNat := by
  have hsmall : x.toNat < 55296 := lt_trans (UInt8.toNat_lt x) (by decide)
  rw [Char.ofNat, dif_pos (Or.inl hsmall)]
  rfl

/-- A byte of a longer encoding is no ASCII character. -/
theorem not_ascii_of_mem_encodeChar {c : Char} (hascii : ¬ c.toNat < 128) {x : UInt8}
    (hx : x ∈ String.utf8EncodeChar c) : 128 ≤ x.toNat := by
  by_contra hlow
  have hnat := toNat_ofNat_byte x
  obtain ⟨hencode, hbyte⟩ := encodeChar_of_ascii (c := Char.ofNat x.toNat) (by omega)
  have hx' : (Char.ofNat x.toNat).val.toUInt8 = x := by
    rw [← UInt8.toNat_inj, hbyte, hnat]
  rw [hx'] at hencode
  obtain rfl := (Utf8.mem_encodeChar_iff hencode).mp hx
  omega

theorem flatMap_typedByte_encodeChar (c : Char) :
    (String.utf8EncodeChar c).flatMap typedByte = [c].filter isTypeable := by
  by_cases hascii : c.toNat < 128
  · obtain ⟨hencode, hbyte⟩ := encodeChar_of_ascii hascii
    rw [hencode, List.flatMap_singleton, typedByte, hbyte, Char.ofNat_toNat]
  · have hnone : isTypeable c = false := isTypeable_of_high (by omega)
    rw [List.filter_cons_of_neg (by simp [hnone]), List.filter_nil, List.flatMap_eq_nil_iff]
    intro x hx
    have hother : isTypeable (Char.ofNat x.toNat) = false := by
      apply isTypeable_of_high
      rw [toNat_ofNat_byte]
      exact not_ascii_of_mem_encodeChar hascii hx
    simp [typedByte, hother]

theorem flatMap_typedByte_encode (text : List Char) :
    (Utf8.encode text).flatMap typedByte = text.filter isTypeable := by
  induction text with
  | nil => rfl
  | cons c text ih =>
      rw [Utf8.encode_cons, List.flatMap_append, flatMap_typedByte_encodeChar, ih,
        ← List.filter_append]
      rfl

/-- What `simulateInput` writes for a string types it on a US keyboard, without
the characters other than printable ASCII, newline and tab. -/
theorem handleSimulateInput_types
    (withoutString : Json → InputMapper → Except Exn CmdResult × InputMapper)
    (m : InputMapper) {command : Json} {s : String}
    (hstring : command.find? "string" = some (.string s)) :
    ∃ events, (InputMapper.handleSimulateInput withoutString command m).2.uinput =
        m.uinput ++ events ∧
      typedOn usLayout events = ⟨[], s.toList.filter isTypeable⟩ := by
  refine ⟨(Utf8.encode s.toList).flatMap typeCharEvents, ?_, ?_⟩
  · unfold InputMapper.handleSimulateInput
    rw [hstring]
    dsimp only [Json.getString]
    rw [InputMapper.foldl_typeChar]
    rfl
  · rw [typedOn_bytes, flatMap_typedByte_encode]

theorem handleSimulateInput_types_greeting :
    ∃ events, (InputMapper.handleSimulateInput (fun _ m => (.ok ⟨1, ""⟩, m))
        (.object [("string", .string "Hé!\n")]) {}).2.uinput =
          ({} : InputMapper).uinput ++ events ∧
      typedOn usLayout events = ⟨[], "Hé!\n".toList.filter isTypeable⟩ :=
  handleSimulateInput_types (fun _ m => (.ok ⟨1, ""⟩, m)) {} rfl

end AutomateLinux
