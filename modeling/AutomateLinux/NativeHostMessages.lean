import AutomateLinux.JsonValue
import AutomateLinux.LineFraming
import AutomateLinux.ResponseReaders

/-!
# What the native host forwards

The listener of the native host decodes every chunk that `recv` returns by itself,
appends the text to a buffer and cuts complete lines off it; each line that parses
to an object is written to the browser behind its length.  A chunk that does not
decode raises: the socket is dropped, the buffer stays.
-/

namespace AutomateLinux

namespace NativeHost

open Utf8 TextOperations LineFraming ResponseReaders

def isLineFeed (c : Char) : Bool := c = '\n'

/-- The listener's buffer, where no complete line is left once a chunk has been
handled, whether there is a socket, and what the browser has been sent. -/
structure Listener where
  buffer : List Char := []
  unterminated : ∀ c ∈ buffer, isLineFeed c = false := by simp
  connected : Bool := false
  forwarded : List Json := []

/-- `struct.pack('I', n)` on a little-endian machine. -/
def packUnsigned (n : ℕ) : List UInt8 := (List.range 4).map fun i => UInt8.ofNat (n / 256 ^ i)

section

-- `json.loads`, which may raise, and `json.dumps`
variable (loads : List Char → Option Json) (dumps : Json → List Char)

/-- What is written to standard output, or nothing where it returns `False`. -/
def send_to_chrome (message : Json) : Option (List UInt8) :=
  if message.is_object then
    let encoded_message := encode (dumps message)
    -- packing a length that does not fit raises
    if encoded_message.length < 2 ^ 32 then
      some (packUnsigned encoded_message.length ++ encoded_message)
    else none
  else none

/-- The body of the inner loop: the message that a line makes the host forward. -/
def handleLine (line : List Char) : Option Json :=
  if trim isPySpace line = [] then none
  else (loads line).filter fun msg => (send_to_chrome dumps msg).isSome

/-- One pass of the outer loop over what `recv` has returned. -/
def receive (s : Listener) (chunk : List UInt8) : Listener :=
  if s.connected = false then s
  else
    match decodeStrict chunk with
    | none | some [] => { s with connected := false }
    | some data =>
        { buffer := remainder isLineFeed (s.buffer ++ data)
          unterminated := not_mem_remainder _
          connected := true
          forwarded :=
            s.forwarded ++
              (lines isLineFeed (s.buffer ++ data)).filterMap (handleLine loads dumps) }

/-- A connection, made in the state that earlier ones have left, and its chunks. -/
def listen_loop (s : Listener) (chunks : List (List UInt8)) : Listener :=
  chunks.foldl (receive loads dumps) { s with connected := true }

/-! ## Messages -/

structure Message where
  text : List Char
  object : Json

/-- The text is a line of JSON for the object. -/
structure IsMessage (m : Message) : Prop where
  parses : loads m.text = some m.object
  isObject : m.object.is_object = true
  oneLine : ∀ c ∈ m.text, isLineFeed c = false
  ink : ∃ c ∈ m.text, isPySpace c = false

/-- The daemon's lines, cut into what `recv(4096)` returns. -/
structure SentIn (messages : List Message) (chunks : List (List UInt8)) : Prop where
  join : chunks.flatten = encode (messages.flatMap fun m => m.text ++ ['\n'])
  chunks : ∀ chunk ∈ chunks, chunk ≠ [] ∧ chunk.length ≤ 4096

/-- Exactly the objects have been forwarded, in order, and there still is a socket. -/
structure ForwardsAll (s after : Listener) (messages : List Message) : Prop where
  forwarded : after.forwarded = s.forwarded ++ messages.map Message.object
  connected : after.connected = true

/-- No chunk cuts a character, what an earlier connection has left in the buffer does
not change the first object, and no object is too long for the length field. -/
structure ArrivesWhole (s : Listener) (messages : List Message)
    (chunks : List (List UInt8)) : Prop where
  uncut : ∀ chunk ∈ chunks, ∃ part, chunk = encode part
  leftover : ∀ first ∈ messages.head?, loads (s.buffer ++ first.text) = some first.object
  fits : ∀ m ∈ messages, (encode (dumps m.object)).length < 2 ^ 32

variable {loads dumps} {s : Listener} {messages : List Message} {chunks : List (List UInt8)}

theorem foldl_receive_of_not_connected (hnot : s.connected = false) :
    chunks.foldl (receive loads dumps) s = s := by
  induction chunks with
  | nil => rfl
  | cons chunk chunks ih =>
      have hstep : receive loads dumps s chunk = s := if_pos hnot
      rw [List.foldl_cons, hstep, ih]

theorem receive_encode (hconnected : s.connected = true) {part : List Char} (hpart : part ≠ []) :
    receive loads dumps s (encode part) =
      { buffer := remainder isLineFeed (s.buffer ++ part)
        unterminated := not_mem_remainder _
        connected := true
        forwarded :=
          s.forwarded ++
            (lines isLineFeed (s.buffer ++ part)).filterMap (handleLine loads dumps) } := by
  obtain ⟨c, rest, rfl⟩ := List.exists_cons_of_ne_nil hpart
  unfold receive
  rw [if_neg (by simp [hconnected]), decodeStrict_encode]

theorem connected_receive {chunk : List UInt8}
    (hafter : (receive loads dumps s chunk).connected = true) :
    s.connected = true ∧ ∃ part, chunk = encode part := by
  unfold receive at hafter
  split at hafter
  · rename_i hnot
    rw [hnot] at hafter
    contradiction
  · rename_i hconnected
    refine ⟨by simpa using hconnected, ?_⟩
    cases hdecode : decodeStrict chunk with
    | none =>
        rw [hdecode] at hafter
        contradiction
    | some part => exact ⟨part, decodeStrict_eq_some_iff.mp hdecode⟩

/-- A connection that is kept has only brought whole characters. -/
theorem uncut_of_connected (hafter : (chunks.foldl (receive loads dumps) s).connected = true) :
    ∀ chunk ∈ chunks, ∃ part, chunk = encode part := by
  induction chunks generalizing s with
  | nil => simp
  | cons chunk chunks ih =>
      rw [List.foldl_cons] at hafter
      have hstill : (receive loads dumps s chunk).connected = true := by
        by_contra hnot
        rw [Bool.not_eq_true] at hnot
        rw [foldl_receive_of_not_connected hnot, hnot] at hafter
        contradiction
      exact List.forall_mem_cons.mpr ⟨(connected_receive hstill).2, ih hafter⟩

/-- Whole characters, however they are cut, give the lines of the joined text. -/
theorem foldl_receive_encode {parts : List (List Char)} (hparts : ∀ part ∈ parts, part ≠ [])
    (hconnected : s.connected = true) :
    ((parts.map encode).foldl (receive loads dumps) s).connected = true ∧
      ((parts.map encode).foldl (receive loads dumps) s).forwarded =
        s.forwarded ++ (lines isLineFeed (s.buffer ++ parts.flatten)).filterMap
          (handleLine loads dumps) := by
  induction parts generalizing s with
  | nil =>
      have hlines : lines isLineFeed s.buffer = [] :=
        congrArg Prod.fst (split_of_forall_not s.unterminated)
      simp [hconnected, hlines]
  | cons part parts ih =>
      obtain ⟨hpart, hparts⟩ := List.forall_mem_cons.mp hparts
      rw [List.map_cons, List.foldl_cons, receive_encode hconnected hpart]
      obtain ⟨hafter, hforwarded⟩ := ih (s := ⟨_, not_mem_remainder _, true, _⟩) hparts rfl
      refine ⟨hafter, hforwarded.trans ?_⟩
      dsimp only
      rw [List.flatten_cons, ← List.append_assoc s.buffer, lines_append (s.buffer ++ part),
        List.filterMap_append, List.append_assoc]

theorem exists_parts (huncut : ∀ chunk ∈ chunks, ∃ part, chunk = encode part) :
    ∃ parts : List (List Char), chunks = parts.map encode := by
  induction chunks with
  | nil => exact ⟨[], rfl⟩
  | cons chunk chunks ih =>
      obtain ⟨⟨part, rfl⟩, hrest⟩ := List.forall_mem_cons.mp huncut
      obtain ⟨parts, rfl⟩ := ih hrest
      exact ⟨part :: parts, rfl⟩

theorem encode_flatten (parts : List (List Char)) :
    encode parts.flatten = (parts.map encode).flatten := by
  induction parts with
  | nil => rfl
  | cons part parts ih =>
      rw [List.flatten_cons, encode_append, ih, List.map_cons, List.flatten_cons]

/-! ## The lines of the messages -/

theorem lines_messages (hlines : ∀ m ∈ messages, ∀ c ∈ m.text, isLineFeed c = false) :
    lines isLineFeed (messages.flatMap fun m => m.text ++ ['\n']) =
      messages.map Message.text := by
  have htexts : ∀ text ∈ messages.map Message.text, ∀ c ∈ text, isLineFeed c = false := by
    simpa using hlines
  have hsplit := split_flatMap_line htexts (show isLineFeed '\n' = true from rfl)
  rw [List.flatMap_map] at hsplit
  exact congrArg Prod.fst hsplit

/-- What is left in the buffer only reaches the first line. -/
theorem lines_leftover {first : Message}
    (hlines : ∀ m ∈ first :: messages, ∀ c ∈ m.text, isLineFeed c = false) :
    lines isLineFeed (s.buffer ++ (first :: messages).flatMap fun m => m.text ++ ['\n']) =
      (s.buffer ++ first.text) :: messages.map Message.text := by
  obtain ⟨hline, hrest⟩ := List.forall_mem_cons.mp hlines
  have hfirst : ∀ c ∈ s.buffer ++ first.text, isLineFeed c = false := by
    intro c hc
    rcases List.mem_append.mp hc with h | h
    · exact s.unterminated c h
    · exact hline c h
  have hsplit := split_line_append hfirst (show isLineFeed '\n' = true from rfl)
    (messages.flatMap fun m => m.text ++ ['\n'])
  rw [← lines_messages hrest, List.flatMap_cons, List.append_assoc, ← List.append_assoc s.buffer]
  exact congrArg Prod.fst hsplit

theorem isSome_send_to_chrome {object : Json} (hobject : object.is_object = true) :
    (send_to_chrome dumps object).isSome = true ↔ (encode (dumps object)).length < 2 ^ 32 := by
  unfold send_to_chrome
  rw [if_pos hobject]
  dsimp only
  split <;> simp_all

theorem handleLine_eq_some_iff {line : List Char} {object : Json}
    (hink : ∃ c ∈ line, isPySpace c = false) (hobject : object.is_object = true) :
    handleLine loads dumps line = some object ↔
      loads line = some object ∧ (encode (dumps object)).length < 2 ^ 32 := by
  have hnotBlank : trim isPySpace line ≠ [] := by
    intro hblank
    obtain ⟨c, hc, hcInk⟩ := hink
    have hnoInk : inkCount isPySpace line = 0 := by
      rw [← inkCount_trim, hblank]
      rfl
    rw [inkCount_eq_zero_iff.mp hnoInk c hc] at hcInk
    contradiction
  unfold handleLine
  rw [if_neg hnotBlank, Option.filter_eq_some_iff, isSome_send_to_chrome hobject]

/-- As many results as there are lines means that every line has its own. -/
theorem filterMap_eq_iff_of_length {α β : Type*} {f : α → Option β} {l : List α} {results : List β}
    (hlength : l.length = results.length) :
    l.filterMap f = results ↔ l.map f = results.map some := by
  induction l generalizing results with
  | nil =>
      obtain rfl := List.length_eq_zero_iff.mp hlength.symm
      simp
  | cons a l ih =>
      obtain ⟨b, results, rfl⟩ := List.exists_cons_of_length_eq_add_one hlength.symm
      have hrest : l.length = results.length := Nat.succ.inj hlength
      rw [List.map_cons, List.map_cons, List.cons.injEq, ← ih hrest]
      cases hf : f a with
      | none =>
          rw [List.filterMap_cons_none hf]
          constructor
          · intro heq
            have hshort := List.length_filterMap_le f l
            rw [heq, List.length_cons] at hshort
            omega
          · rintro ⟨hnone, -⟩
            contradiction
      | some c => rw [List.filterMap_cons_some hf, List.cons.injEq, Option.some.injEq]

variable (hmessages : ∀ m ∈ messages, IsMessage loads m)

include hmessages in
theorem forwarded_iff :
    (lines isLineFeed (s.buffer ++ messages.flatMap fun m => m.text ++ ['\n'])).filterMap
        (handleLine loads dumps) = messages.map Message.object ↔
      (∀ first ∈ messages.head?, loads (s.buffer ++ first.text) = some first.object) ∧
        ∀ m ∈ messages, (encode (dumps m.object)).length < 2 ^ 32 := by
  cases messages with
  | nil =>
      have hlines : lines isLineFeed s.buffer = [] :=
        congrArg Prod.fst (split_of_forall_not s.unterminated)
      simp [hlines]
  | cons first messages =>
      obtain ⟨hfirst, hrest⟩ := List.forall_mem_cons.mp hmessages
      have hink : ∃ c ∈ s.buffer ++ first.text, isPySpace c = false := by
        obtain ⟨c, hc, hcInk⟩ := hfirst.ink
        exact ⟨c, List.mem_append_right _ hc, hcInk⟩
      have hothers : messages.map (handleLine loads dumps ∘ Message.text) =
          messages.map (some ∘ Message.object) ↔
            ∀ m ∈ messages, (encode (dumps m.object)).length < 2 ^ 32 := by
        rw [List.map_inj_left]
        refine forall₂_congr fun m hm => ?_
        have hmessage := hrest m hm
        refine (handleLine_eq_some_iff hmessage.ink hmessage.isObject).trans ?_
        exact and_iff_right hmessage.parses
      rw [lines_leftover fun m hm => (hmessages m hm).oneLine,
        filterMap_eq_iff_of_length (by simp), List.map_cons, List.map_cons, List.map_cons,
        List.cons.injEq, List.map_map, List.map_map, hothers,
        handleLine_eq_some_iff hink hfirst.isObject, List.forall_mem_cons]
      simp [and_assoc]

include hmessages in
/-- The objects are forwarded and the connection is kept exactly if they arrive whole. -/
theorem listen_loop_forwardsAll_iff (hsent : SentIn messages chunks) :
    ForwardsAll s (listen_loop loads dumps s chunks) messages ↔
      ArrivesWhole loads dumps s messages chunks := by
  have hwhole : (∀ chunk ∈ chunks, ∃ part, chunk = encode part) →
      (listen_loop loads dumps s chunks).connected = true ∧
        (listen_loop loads dumps s chunks).forwarded = s.forwarded ++
          (lines isLineFeed (s.buffer ++ messages.flatMap fun m => m.text ++ ['\n'])).filterMap
            (handleLine loads dumps) := by
    intro huncut
    obtain ⟨parts, rfl⟩ := exists_parts huncut
    have hjoin : parts.flatten = messages.flatMap fun m => m.text ++ ['\n'] := by
      apply encode_injective
      rw [encode_flatten]
      exact hsent.join
    rw [← hjoin]
    refine foldl_receive_encode ?_ rfl
    rintro part hpart rfl
    exact (hsent.chunks [] (List.mem_map_of_mem hpart)).1 rfl
  constructor
  · rintro ⟨hforwarded, hconnected⟩
    have huncut := uncut_of_connected hconnected
    rw [(hwhole huncut).2, List.append_cancel_left_eq, forwarded_iff hmessages] at hforwarded
    exact ⟨huncut, hforwarded.1, hforwarded.2⟩
  · rintro ⟨huncut, hleftover, hfits⟩
    obtain ⟨hconnected, hforwarded⟩ := hwhole huncut
    rw [(forwarded_iff hmessages).mpr ⟨hleftover, hfits⟩] at hforwarded
    exact ⟨hforwarded, hconnected⟩

end

/-- An object with a character of two bytes, as the daemon writes it. -/
def accented : Message :=
  ⟨['{', '"', 'a', '"', ':', '"', 'é', '"', '}'], .object [("a", .string "é")]⟩

def loadsAccented (text : List Char) : Option Json :=
  if text = accented.text then some accented.object else none

def dumpsAccented (_ : Json) : List Char :=
  ['{', '"', 'a', '"', ':', ' ', '"', '\\', 'u', '0', '0', 'e', '9', '"', '}']

theorem accented_isMessage : ∀ m ∈ [accented], IsMessage loadsAccented m := by
  intro m hm
  obtain rfl := List.mem_singleton.mp hm
  refine ⟨if_pos rfl, rfl, ?_, 'a', by simp [accented], rfl⟩
  simp [accented, isLineFeed]

def accentedInOne : List (List UInt8) := [[123, 34, 97, 34, 58, 34, 195, 169, 34, 125, 10]]

def accentedCut : List (List UInt8) := [[123, 34, 97, 34, 58, 34, 195], [169, 34, 125, 10]]

/-- A message that arrives in one chunk is forwarded. -/
theorem accentedInOne_forwarded :
    ForwardsAll {} (listen_loop loadsAccented dumpsAccented {} accentedInOne) [accented] := by
  apply (listen_loop_forwardsAll_iff accented_isMessage ⟨by decide, by decide⟩).mpr
  refine ⟨?_, ?_, ?_⟩
  · intro chunk hchunk
    obtain rfl := List.mem_singleton.mp hchunk
    exact ⟨accented.text ++ ['\n'], by decide⟩
  · intro first hfirst
    obtain rfl := Option.some.inj hfirst
    exact if_pos rfl
  · intro m hm
    obtain rfl := List.mem_singleton.mp hm
    decide

/-- The same message in two chunks, cut inside the character, is lost together with
the connection. -/
theorem accentedCut_lost :
    (∀ m ∈ [accented], IsMessage loadsAccented m) ∧ SentIn [accented] accentedCut ∧
      (listen_loop loadsAccented dumpsAccented {} accentedCut).forwarded = [] ∧
      (listen_loop loadsAccented dumpsAccented {} accentedCut).connected = false ∧
      ¬ ForwardsAll {} (listen_loop loadsAccented dumpsAccented {} accentedCut) [accented] := by
  have hlost : (listen_loop loadsAccented dumpsAccented {} accentedCut).connected = false := by
    decide
  refine ⟨accented_isMessage, ⟨by decide, by decide⟩, rfl, hlost, fun hall => ?_⟩
  rw [hall.connected] at hlost
  contradiction

end NativeHost

end AutomateLinux
