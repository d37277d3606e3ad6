import AutomateLinux.JsonValue
import AutomateLinux.Utf8

/-!
# The manager's replies

The manager of a peer answers a request with one line of JSON, which has the exit
status of what it ran and its output.  `sendToManager` receives once, into a
buffer of fixed size, and takes what has arrived for the whole reply; what does
not parse is passed on as the output of a success.
-/

namespace AutomateLinux

namespace ManagerReplies

def MANAGER_PORT : String := "3505"

/-- How far a request gets; the last case are the chunks in which the reply
arrives. -/
inductive Outcome
  | socketFails | addressInvalid | connectFails | sendFails | recvFails
  | received (chunks : List (List UInt8))

/-- `string(buffer)`. -/
def bufferText (buffer : List UInt8) : String := String.ofList (Utf8.decodeLossy buffer)

/-- What the `try` block reads from the parsed response. -/
def readReply (raw : String) (response : Json) : Except Exn CmdResult := do
  let status ←
    match response.find? "status" with
    | some member => member.getInt 32
    | none => .ok 1
  let output ←
    match response.find? "output" with
    | some member => member.getString
    | none => .ok raw
  return ⟨status, output⟩

/-- The buffer as a C string, parsed and read; every exception ends in the raw
text with status 0. -/
def interpret (parse : List UInt8 → Option Json) (buffer : List UInt8) : CmdResult :=
  let text := buffer.takeWhile fun byte => byte ≠ 0
  match (parse text).map (readReply (bufferText text)) with
  | some (.ok result) => result
  | _ => ⟨0, bufferText text⟩

def sendToManager (parse : List UInt8 → Option Json) (ip : String) : Outcome → CmdResult
  | .socketFails => ⟨1, "Failed to create socket for manager\n"⟩
  | .addressInvalid => ⟨1, "Invalid IP address for manager: " ++ ip ++ "\n"⟩
  | .connectFails =>
      ⟨1, "Failed to connect to manager at " ++ ip ++ ":" ++ MANAGER_PORT ++ "\n"⟩
  | .sendFails => ⟨1, "Failed to send command to manager at " ++ ip ++ "\n"⟩
  | .recvFails | .received [] => ⟨1, "No response from manager at " ++ ip ++ "\n"⟩
  | .received (chunk :: _) => interpret parse chunk

/-! ## Replies -/

/-- An integer that the parser keeps as one. -/
def IsInteger (j : Json) (z : Int) : Prop :=
  j = .number_integer z ∨ ∃ n : ℕ, z = n ∧ j = .number_unsigned n

/-- A reply with a status, and an output that is text if there is one. -/
structure IsReply (j : Json) (status : Int) : Prop where
  status : ∃ member, j.find? "status" = some member ∧ IsInteger member status
  output : ∀ member, j.find? "output" = some member → member.is_string = true

/-- The text is the JSON value's: the parser takes it with or without its newline
and none of it cut short, and it has no NUL. -/
structure IsTextOf (parse : List UInt8 → Option Json) (text : List UInt8) (j : Json) :
    Prop where
  whole : parse text = some j
  line : parse (text ++ [10]) = some j
  cut : ∀ front, front <+: text → front ≠ text → parse front = none
  noNul : ∀ byte ∈ text, byte ≠ 0

/-- A stream arrives in chunks of at most `sizeof(buffer) - 1` bytes. -/
structure ArrivesIn (stream : List UInt8) (chunks : List (List UInt8)) : Prop where
  whole : chunks.flatten = stream
  chunks : ∀ chunk ∈ chunks, chunk ≠ [] ∧ chunk.length ≤ 65535

variable {parse : List UInt8 → Option Json} {text : List UInt8} {j : Json} {status : Int}

theorem readReply_of_isReply (hreply : IsReply j status) (raw : String) :
    ∃ output, readReply raw j = .ok ⟨Json.wrap 32 status, output⟩ := by
  obtain ⟨member, hfind, hinteger⟩ := hreply.status
  have hstatus : member.getInt 32 = .ok (Json.wrap 32 status) := by
    rcases hinteger with rfl | ⟨n, rfl, rfl⟩ <;> rfl
  unfold readReply
  rw [hfind]
  dsimp only
  rw [hstatus]
  cases houtput : j.find? "output" with
  | none => exact ⟨raw, rfl⟩
  | some output =>
      have hstring := hreply.output output houtput
      cases output with
      | string value => exact ⟨value, rfl⟩
      | null | boolean | number_integer | number_unsigned | number_float | array | object =>
          simp [Json.is_string] at hstring

theorem interpret_eq {chunk : List UInt8} (hnul : ∀ byte ∈ chunk, byte ≠ 0) :
    interpret parse chunk =
      match (parse chunk).map (readReply (bufferText chunk)) with
      | some (.ok result) => result
      | _ => ⟨0, bufferText chunk⟩ := by
  have hstring : chunk.takeWhile (fun byte => byte ≠ 0) = chunk := by
    rw [List.takeWhile_eq_self_iff]
    exact fun byte hbyte => decide_eq_true (hnul byte hbyte)
  unfold interpret
  rw [hstring]

theorem interpret_whole (hreply : IsReply j status) {chunk : List UInt8}
    (hparse : parse chunk = some j) (hnul : ∀ byte ∈ chunk, byte ≠ 0) :
    (interpret parse chunk).status = Json.wrap 32 status := by
  obtain ⟨output, hread⟩ := readReply_of_isReply hreply (bufferText chunk)
  rw [interpret_eq hnul, hparse, Option.map_some, hread]

theorem interpret_cut {chunk : List UInt8} (hparse : parse chunk = none)
    (hnul : ∀ byte ∈ chunk, byte ≠ 0) : (interpret parse chunk).status = 0 := by
  rw [interpret_eq hnul, hparse]
  rfl

/-- The first chunk is cut inside the text, or it has all of it. -/
theorem firstChunk_cases {chunk rest : List UInt8} (hstream : chunk ++ rest = text ++ [10]) :
    (chunk.length < text.length ∧ chunk <+: text) ∨
      text.length ≤ chunk.length ∧ (chunk = text ∨ chunk = text ++ [10]) := by
  by_cases hlength : chunk.length < text.length
  · refine Or.inl ⟨hlength, ?_⟩
    exact List.prefix_of_prefix_length_le ⟨rest, hstream⟩ (List.prefix_append text [10])
      (Nat.le_of_lt hlength)
  · refine Or.inr ⟨not_lt.mp hlength, ?_⟩
    obtain ⟨last, rfl⟩ : text <+: chunk :=
      List.prefix_of_prefix_length_le (List.prefix_append text [10]) ⟨rest, hstream⟩
        (not_lt.mp hlength)
    rw [List.append_assoc, List.append_cancel_left_eq, List.append_eq_singleton_iff] at hstream
    rcases hstream with ⟨rfl, -⟩ | ⟨rfl, -⟩
    · exact Or.inl (List.append_nil text)
    · exact Or.inr rfl

/-- A status 0 from `sendToManager` is the manager's exactly when it is, or when
the first chunk has the whole text and the status is not a multiple of `2^32`. -/
theorem sendToManager_status_iff (htext : IsTextOf parse text j) (hreply : IsReply j status)
    {chunks : List (List UInt8)} (harrives : ArrivesIn (text ++ [10]) chunks) (ip : String) :
    ((sendToManager parse ip (.received chunks)).status = 0 → status = 0) ↔
      status = 0 ∨
        (text.length ≤ (chunks.headD []).length ∧ Json.wrap 32 status ≠ 0) := by
  obtain ⟨chunk, rest, rfl⟩ : ∃ chunk rest, chunks = chunk :: rest := by
    cases chunks with
    | nil => simpa using harrives.whole
    | cons chunk rest => exact ⟨chunk, rest, rfl⟩
  have hstream := harrives.whole
  rw [List.flatten_cons] at hstream
  have hnul : ∀ byte ∈ chunk, byte ≠ 0 := by
    intro byte hbyte
    have hmem : byte ∈ text ++ [10] := hstream ▸ List.mem_append_left _ hbyte
    rcases List.mem_append.mp hmem with hmem | hmem
    · exact htext.noNul byte hmem
    · rw [List.mem_singleton.mp hmem]
      decide
  show ((interpret parse chunk).status = 0 → status = 0) ↔
    status = 0 ∨ (text.length ≤ chunk.length ∧ Json.wrap 32 status ≠ 0)
  rcases firstChunk_cases hstream with ⟨hshort, hfront⟩ | ⟨hwhole, hchunk⟩
  · have hcut := htext.cut chunk hfront (by rintro rfl; exact lt_irrefl _ hshort)
    simp [interpret_cut hcut hnul, not_le.mpr hshort]
  · have hparse : parse chunk = some j := by
      rcases hchunk with rfl | rfl
      · exact htext.whole
      · exact htext.line
    rw [interpret_whole hreply hparse hnul]
    constructor
    · intro himp
      by_cases hzero : Json.wrap 32 status = 0
      · exact Or.inl (himp hzero)
      · exact Or.inr ⟨hwhole, hzero⟩
    · rintro (hzero | ⟨-, hne⟩) heq
      · exact hzero
      · exact absurd heq hne

/-- The text of a failed deployment and how it is parsed. -/
def failedText : List UInt8 := Utf8.encode "\x7b\"status\": 1\x7d".toList

def failedReply : Json := .object [("status", .number_unsigned 1)]

def parseFailed (bytes : List UInt8) : Option Json :=
  if bytes = failedText ∨ bytes = failedText ++ [10] then some failedReply else none

theorem failedReply_isReply : IsReply failedReply 1 where
  status := ⟨.number_unsigned 1, rfl, Or.inr ⟨1, rfl, rfl⟩⟩
  output := by
    have hnone : failedReply.find? "output" = none := rfl
    simp [hnone]

theorem failedText_isTextOf : IsTextOf parseFailed failedText failedReply where
  whole := by simp [parseFailed]
  line := by simp [parseFailed]
  cut := by
    intro front hfront hne
    have hlength := hfront.length_le
    refine if_neg ?_
    rintro (heq | heq)
    · exact hne heq
    · rw [heq, List.length_append, List.length_singleton] at hlength
      omega
  noNul := by decide +kernel

theorem failedText_arrivesInOne : ArrivesIn (failedText ++ [10]) [failedText ++ [10]] :=
  ⟨by simp, by decide⟩

theorem failedReply_inOneChunk :
    (sendToManager parseFailed "10.0.0.2" (.received [failedText ++ [10]])).status ≠ 0 := by
  have hstatus := (sendToManager_status_iff failedText_isTextOf failedReply_isReply
    failedText_arrivesInOne "10.0.0.2").mpr (Or.inr ⟨by decide, by decide⟩)
  exact fun hzero => absurd (hstatus hzero) (by decide)

/-- The status of a failed deployment arrives in two chunks. -/
theorem failedReply_inTwoChunks :
    ¬ ∀ (parse : List UInt8 → Option Json) (text : List UInt8) (j : Json) (status : Int)
        (chunks : List (List UInt8)) (ip : String),
      IsTextOf parse text j → IsReply j status → ArrivesIn (text ++ [10]) chunks →
        (sendToManager parse ip (.received chunks)).status = 0 → status = 0 := by
  intro hall
  have hzero := hall parseFailed failedText failedReply 1
    [failedText.take 6, failedText.drop 6 ++ [10]] "10.0.0.2" failedText_isTextOf
    failedReply_isReply ⟨by decide, by decide⟩ (by decide)
  exact absurd hzero (by decide)

end ManagerReplies

end AutomateLinux
