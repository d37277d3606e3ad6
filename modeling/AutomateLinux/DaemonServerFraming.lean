import AutomateLinux.DaemonServer
import AutomateLinux.LineFraming

/-!
# From reads to lines

`handle_peer_data`, `handle_leader_data` and `handle_client_data` are one loop
with different exits.  A call appends what it has read to the buffer it keeps
for the connection, as a C string, and processes every complete line on the
way.  As long as no NUL byte cuts a read short the lines do not depend on how
the stream was cut into reads.
-/

namespace AutomateLinux

namespace DaemonServer

open LineFraming

/-- `sizeof(buffer) - 1`. -/
def READ_SIZE : ℕ := 4095

def endsLine (byte : UInt8) : Bool := byte = 10

/-- `buffer[bytesRead] = '\0'` and what `+= buffer` then appends. -/
def cString (bytes : List UInt8) : List UInt8 := bytes.takeWhile fun byte => byte ≠ 0

/-- One call: the bytes `read` returns, and for each line the effects its
handler meets and what the other threads do before it. -/
structure Call where
  chunk : List UInt8
  env : ℕ → Effects
  others : ℕ → DaemonState → DaemonState

section

variable (dump : Json → String) (parse : List UInt8 → Option Json)

/-- A line of a local client, and whether its processing closes the connection
or hands it over. -/
def clientMessage (env : Effects) (message : Option Json) (client : Handle)
    (s : DaemonState) : Except Exn (Bool × DaemonState) :=
  match message with
  | none => .ok (false, s)
  | some j =>
      match callMainCommand dump env j client s with
      | .error e => .error e
      | .ok (res, s) => .ok (decide (res = 1 ∨ res = 2), clientReturn client.fd res s)

def handle_peer_data (call : Call) (peer : Handle) (buffer : List UInt8)
    (s : DaemonState) : Except Exn (Extracted UInt8 DaemonState) :=
  extract endsLine
    (fun n message s =>
      (peerLine dump (call.env n) (received parse message) peer (call.others n s)).map
        (false, ·))
    0 (buffer ++ cString call.chunk) s

def handle_leader_data (call : Call) (leader : Handle) (leader_buffer : List UInt8)
    (s : DaemonState) : Except Exn (Extracted UInt8 DaemonState) :=
  extract endsLine
    (fun n message s =>
      (leaderLine dump (call.env n) (received parse message) leader (call.others n s)).map
        (false, ·))
    0 (leader_buffer ++ cString call.chunk) s

def handle_client_data (call : Call) (client : Handle) (buffer : List UInt8)
    (s : DaemonState) : Except Exn (Extracted UInt8 DaemonState) :=
  extract endsLine
    (fun n message s =>
      clientMessage dump (call.env n) (received parse message) client (call.others n s))
    0 (buffer ++ cString call.chunk) s

def handleData : Reader → Call → Handle → List UInt8 → DaemonState →
    Except Exn (Extracted UInt8 DaemonState)
  | .handle_client_data => handle_client_data dump parse
  | .handle_peer_data => handle_peer_data dump parse
  | .handle_leader_data => handle_leader_data dump parse

/-- The successive calls for a connection; one that closes the connection or
hands it over is the last. -/
def calls (reader : Reader) (h : Handle) : List Call → List UInt8 → DaemonState →
    Except Exn (Extracted UInt8 DaemonState)
  | [], buffer, s => .ok ⟨[], buffer, s⟩
  | call :: rest, buffer, s =>
      match handleData dump parse reader call h buffer s with
      | .error e => .error e
      | .ok r =>
          if r.left then .ok r
          else
            (calls reader h rest r.buffer r.state).map fun r' =>
              { r' with lines := r.lines ++ r'.lines }

end

/-- The messages extracted, as they are parsed. -/
def messages {σ : Type} (r : Extracted UInt8 σ) : List (List UInt8) :=
  r.lines.map fun line => dropCarriageReturn line.1

/-- The terminated lines of a stream, less a trailing carriage return. -/
def framed (stream : List UInt8) : List (List UInt8) :=
  (lines endsLine stream).map dropCarriageReturn

/-- The buffer before the first read of a connection. -/
def firstBuffer (leader_buffer : List UInt8) : Reader → List UInt8
  | .handle_leader_data => leader_buffer
  | .handle_peer_data | .handle_client_data => []

/-- The reads are non-empty, fit the buffer and make up the stream. -/
structure Segmentation (stream : List UInt8) (segments : List Call) : Prop where
  whole : (segments.map Call.chunk).flatten = stream
  nonempty : ∀ call ∈ segments, call.chunk ≠ []
  fits : ∀ call ∈ segments, call.chunk.length ≤ READ_SIZE

section

variable {dump : Json → String} {parse : List UInt8 → Option Json}

theorem cString_of_no_nul {bytes : List UInt8} (hnul : (0 : UInt8) ∉ bytes) :
    cString bytes = bytes := by
  unfold cString
  rw [List.takeWhile_eq_self_iff]
  intro byte hbyte
  simp only [ne_eq, decide_not, Bool.not_eq_true', decide_eq_false_iff_not]
  rintro rfl
  exact hnul hbyte

/-- The dispatcher and the loop's reaction to its return code, as one step. -/
theorem clientMessage_eq (env : Effects) (j : Json) (client : Handle) (s : DaemonState) :
    (clientMessage dump env (some j) client s).map Prod.snd =
      (clientLine dump env (some j) client s).map fun s =>
        match s.returned with
        | some (fd, res) => clientReturn fd res s
        | none => s := by
  unfold clientMessage clientLine
  dsimp only
  cases callMainCommand dump env j client s <;> rfl

/-- How each function processes a line. -/
def processLine (dump : Json → String) (parse : List UInt8 → Option Json)
    (reader : Reader) (h : Handle) (call : Call) (n : ℕ) (message : List UInt8)
    (s : DaemonState) : Except Exn (Bool × DaemonState) :=
  match reader with
  | .handle_client_data =>
      clientMessage dump (call.env n) (received parse message) h (call.others n s)
  | reader =>
      (line dump (call.env n) (received parse message) reader h (call.others n s)).map
        (false, ·)

theorem handleData_eq (reader : Reader) (call : Call) (h : Handle) (buffer : List UInt8)
    (s : DaemonState) :
    handleData dump parse reader call h buffer s =
      extract endsLine (processLine dump parse reader h call) 0
        (buffer ++ cString call.chunk) s := by
  cases reader <;> rfl

theorem calls_eq_receiveAll (reader : Reader) (h : Handle) (segments : List Call)
    (buffer : List UInt8) (s : DaemonState) :
    calls dump parse reader h segments buffer s =
      receiveAll endsLine
        (segments.map fun call => (cString call.chunk, processLine dump parse reader h call))
        buffer s := by
  induction segments generalizing buffer s with
  | nil => rfl
  | cons call segments ih =>
      rw [calls, List.map_cons, receiveAll, handleData_eq]
      simp only [ih]
      rcases extract endsLine (processLine dump parse reader h call) 0
        (buffer ++ cString call.chunk) s with _ | _ <;> rfl

theorem processLine_stays {reader : Reader} (hreader : reader ≠ .handle_client_data)
    (h : Handle) (call : Call) : Stays (processLine dump parse reader h call) := by
  intro n message s left s' hprocess
  have hmap : ∀ {e : Except Exn DaemonState}, e.map (false, ·) = .ok (left, s') →
      left = false := by
    intro e heq
    cases e with
    | error e => contradiction
    | ok s'' => exact (Prod.mk.inj (Except.ok.inj heq)).1.symm
  cases reader with
  | handle_client_data => contradiction
  | handle_peer_data => exact hmap hprocess
  | handle_leader_data => exact hmap hprocess

theorem Segmentation.appended {stream : List UInt8} {segments : List Call}
    (hsegments : Segmentation stream segments) (hnul : (0 : UInt8) ∉ stream)
    (process : Call → ℕ → List UInt8 → DaemonState → Except Exn (Bool × DaemonState)) :
    ((segments.map fun call => (cString call.chunk, process call)).map Prod.fst).flatten =
      stream := by
  rw [← hsegments.whole, List.map_map]
  congr 1
  refine List.map_congr_left fun call hcall => cString_of_no_nul fun hmem => hnul ?_
  rw [← hsegments.whole]
  exact List.mem_flatten.mpr ⟨call.chunk, List.mem_map.mpr ⟨call, hcall, rfl⟩, hmem⟩

theorem calls_frames {stream : List UInt8} (hnul : (0 : UInt8) ∉ stream)
    {segments : List Call} (hsegments : Segmentation stream segments) {reader : Reader}
    {h : Handle} {s : DaemonState} {r : Extracted UInt8 DaemonState}
    (hcalls : calls dump parse reader h segments [] s = .ok r) :
    Frames endsLine stream r := by
  rw [calls_eq_receiveAll] at hcalls
  have hframes := frames_of_receiveAll hcalls
  rwa [hsegments.appended hnul] at hframes

theorem calls_left {segments : List Call} {kept : List UInt8} {reader : Reader}
    (hreader : reader ≠ .handle_client_data) {h : Handle} {s : DaemonState}
    {r : Extracted UInt8 DaemonState}
    (hcalls : calls dump parse reader h segments kept s = .ok r) : r.left = false := by
  rw [calls_eq_receiveAll] at hcalls
  refine receiveAll_left (fun read hread => ?_) hcalls
  obtain ⟨call, -, rfl⟩ := List.mem_map.mp hread
  exact processLine_stays hreader h call

theorem messages_of_map {r : Extracted UInt8 DaemonState} {found : List (List UInt8)}
    (hfound : r.lines.map Prod.fst = found) : messages r = found.map dropCarriageReturn := by
  rw [← hfound, List.map_map]
  rfl

/-- What the calls for two cuts of a stream have extracted: for a peer or the leader every
line, for a local client those up to the first whose processing closes or hands over the
connection. -/
structure FramesLines (stream : List UInt8) (reader : Reader)
    (r₁ r₂ : Extracted UInt8 DaemonState) : Prop where
  persistent : reader ≠ .handle_client_data →
    messages r₁ = messages r₂ ∧ r₁.buffer = r₂.buffer ∧
      messages r₁ = framed stream ∧ r₁.buffer = remainder endsLine stream
  client : reader = .handle_client_data →
    messages r₁ <+: framed stream ∧
      (r₁.left = false →
        messages r₁ = framed stream ∧ r₁.buffer = remainder endsLine stream) ∧
      (r₁.left = true → ∃ front line, r₁.lines = front ++ [(line, true)] ∧
        ∀ l ∈ front, l.2 = false)

theorem calls_persistent {stream kept : List UInt8} (hnul : (0 : UInt8) ∉ stream)
    {segments : List Call} (hsegments : Segmentation stream segments) {reader : Reader}
    (hreader : reader ≠ .handle_client_data) {h : Handle} {s : DaemonState}
    {r : Extracted UInt8 DaemonState}
    (hcalls : calls dump parse reader h segments kept s = .ok r) :
    (stream = [] ∧ messages r = [] ∧ r.buffer = kept) ∨
      (stream ≠ [] ∧ messages r = framed (kept ++ stream) ∧
        r.buffer = remainder endsLine (kept ++ stream)) := by
  have hleft := calls_left hreader hcalls
  have happended := hsegments.appended hnul fun call => processLine dump parse reader h call
  rw [calls_eq_receiveAll] at hcalls
  cases segments with
  | nil =>
      obtain rfl := Except.ok.inj hcalls
      exact Or.inl ⟨hsegments.whole.symm, rfl, rfl⟩
  | cons call segments =>
      rw [List.map_cons, List.map_cons, List.flatten_cons] at happended
      have hframes := frames_of_receiveAll_cons hcalls
      rw [happended] at hframes
      obtain ⟨hlines, hbuffer⟩ := hframes.complete hleft
      refine Or.inr ⟨fun hstream => ?_, messages_of_map hlines, hbuffer⟩
      have hwhole := hsegments.whole
      rw [hstream, List.map_cons, List.flatten_cons, List.append_eq_nil_iff] at hwhole
      exact hsegments.nonempty call List.mem_cons_self hwhole.1

theorem dropCarriageReturn_append_iff (kept line : List UInt8) :
    dropCarriageReturn (kept ++ line) = dropCarriageReturn line ↔
      kept = [] ∨ (kept = [13] ∧ line = []) := by
  rcases List.eq_nil_or_concat' line with rfl | ⟨front, last, rfl⟩
  · rw [List.append_nil]
    rcases List.eq_nil_or_concat' kept with rfl | ⟨before, byte, rfl⟩
    · simp
    · by_cases hbyte : byte = 13
      · simp [dropCarriageReturn, hbyte]
      · have hne : before ++ [byte] ≠ [13] := fun h =>
          hbyte (by simpa using congrArg List.getLast? h)
        simp [dropCarriageReturn, hbyte, hne]
  · rw [← List.append_assoc]
    by_cases hlast : last = 13
    · simp [dropCarriageReturn, hlast]
    · simp [dropCarriageReturn, hlast]

/-- Something in front of a stream is noticed, except that a lone carriage return is dropped
from an empty first line. -/
theorem framed_append_iff (kept stream : List UInt8) :
    (framed (kept ++ stream) = framed stream ∧
      remainder endsLine (kept ++ stream) = remainder endsLine stream) ↔
      kept = [] ∨ (kept = [13] ∧ stream.head? = some 10) := by
  by_cases hkept : ∀ byte ∈ kept, endsLine byte = false
  · rcases forall_not_or_exists_line endsLine stream with
      hnone | ⟨line, newline, rest, rfl, hline, hnewline⟩
    · have hall : ∀ byte ∈ kept ++ stream, endsLine byte = false := by
        simpa [or_imp, forall_and] using ⟨hkept, hnone⟩
      have hhead : stream.head? ≠ some 10 := fun h => by
        have hten := hnone 10 (List.mem_of_head? h)
        simp [endsLine] at hten
      simp [framed, lines, remainder, split_of_forall_not hall, split_of_forall_not hnone, hhead]
    · obtain rfl : newline = 10 := of_decide_eq_true hnewline
      have hall : ∀ byte ∈ kept ++ line, endsLine byte = false := by
        simpa [or_imp, forall_and] using ⟨hkept, hline⟩
      have hhead : (line ++ 10 :: rest).head? = some 10 ↔ line = [] := by
        cases line with
        | nil => simp
        | cons byte line =>
            have hbyte : byte ≠ 10 := fun h => by simp [endsLine, h] at hline
            simp [hbyte]
      have hshort := split_line_append hline hnewline rest
      have hlong := split_line_append hall hnewline rest
      rw [hhead, ← dropCarriageReturn_append_iff]
      unfold framed lines remainder
      rw [← List.append_assoc, hshort, hlong]
      simp
  · push Not at hkept
    obtain ⟨byte, hbyte, hends⟩ := hkept
    have hends : endsLine byte = true := by simpa using hends
    refine iff_of_false (fun hsame => ?_) ?_
    · have hlength := congrArg List.length hsame.1
      rw [framed, framed, List.length_map, List.length_map, length_lines, length_lines,
        List.countP_append] at hlength
      have hpos : 0 < kept.countP endsLine := List.countP_pos_iff.mpr ⟨byte, hbyte, hends⟩
      omega
    · rintro (rfl | ⟨rfl, -⟩)
      · exact absurd hbyte List.not_mem_nil
      · obtain rfl := List.mem_singleton.mp hbyte
        exact absurd hends (by decide)

/-- The lines of a connection are those of its stream, for any two cuts of it, exactly if
the buffer was empty when it began, or the buffer of the leader held nothing but a carriage
return and the stream begins with the end of a line. -/
theorem framesLines_iff (stream : List UInt8) (hnul : (0 : UInt8) ∉ stream)
    (leader_buffer : List UInt8) (segments₁ segments₂ : List Call)
    (hsegments₁ : Segmentation stream segments₁) (hsegments₂ : Segmentation stream segments₂)
    (reader : Reader) (h : Handle) (s₁ s₂ : DaemonState) (r₁ r₂ : Extracted UInt8 DaemonState)
    (hcalls₁ : calls dump parse reader h segments₁ (firstBuffer leader_buffer reader) s₁ = .ok r₁)
    (hcalls₂ : calls dump parse reader h segments₂ (firstBuffer leader_buffer reader) s₂ = .ok r₂) :
    FramesLines stream reader r₁ r₂ ↔
      (reader = .handle_leader_data →
        leader_buffer = [] ∨ (leader_buffer = [13] ∧ stream.head? = some 10)) := by
  by_cases hreader : reader = .handle_client_data
  · subst hreader
    have hframes := calls_frames hnul hsegments₁ hcalls₁
    refine iff_of_true ⟨fun hne => absurd rfl hne, fun _ => ⟨?_, fun hleft => ?_, hframes.left⟩⟩
      nofun
    · rw [messages_of_map rfl]
      exact hframes.isPrefix.map dropCarriageReturn
    · obtain ⟨hlines, hbuffer⟩ := hframes.complete hleft
      exact ⟨messages_of_map hlines, hbuffer⟩
  · have hkept : (reader = .handle_leader_data →
        leader_buffer = [] ∨ (leader_buffer = [13] ∧ stream.head? = some 10)) ↔
        (firstBuffer leader_buffer reader = [] ∨
          (firstBuffer leader_buffer reader = [13] ∧ stream.head? = some 10)) := by
      cases reader <;> simp [firstBuffer]
    rw [hkept]
    have hpersistent₁ := calls_persistent hnul hsegments₁ hreader hcalls₁
    have hpersistent₂ := calls_persistent hnul hsegments₂ hreader hcalls₂
    generalize firstBuffer leader_buffer reader = kept at hpersistent₁ hpersistent₂ ⊢
    rcases hpersistent₁ with ⟨rfl, hmessages₁, hbuffer₁⟩ | ⟨hstream, hmessages₁, hbuffer₁⟩
    · obtain ⟨-, hmessages₂, hbuffer₂⟩ :=
        hpersistent₂.resolve_right fun h => h.1 rfl
      refine ⟨fun hframes => Or.inl ?_, fun h => ⟨fun _ => ?_, fun h => absurd h hreader⟩⟩
      · exact hbuffer₁.symm.trans (hframes.persistent hreader).2.2.2
      · have hkept : kept = [] := by simpa using h
        rw [hmessages₁, hmessages₂, hbuffer₁, hbuffer₂, hkept]
        exact ⟨rfl, rfl, rfl, rfl⟩
    · obtain ⟨-, hmessages₂, hbuffer₂⟩ := hpersistent₂.resolve_left fun h => hstream h.1
      rw [← framed_append_iff, ← hmessages₁, ← hbuffer₁]
      refine ⟨fun hframes => (hframes.persistent hreader).2.2, fun h => ⟨fun _ => ?_,
        fun h => absurd h hreader⟩⟩
      exact ⟨hmessages₁.trans hmessages₂.symm, hbuffer₁.trans hbuffer₂.symm, h⟩

end

/-! ## Two cuts of one stream -/

/-- Reads of the given bytes with nothing else going on. -/
def readsOf (chunks : List (List UInt8)) : List Call :=
  chunks.map fun chunk => ⟨chunk, fun _ => ⟨false, fun _ _ => .ok ⟨0, ""⟩⟩, fun _ s => s⟩

theorem calls_readsOf_singleBytes :
    calls (fun _ => "") (fun _ => none) .handle_leader_data ⟨1, ⟨1, .leader⟩⟩
        (readsOf [[120], [13], [10, 121]]) [] initial =
      .ok ⟨[([120, 13], false)], [121], initial⟩ := by
  simp [readsOf, calls, handleData, handle_leader_data, extract, takeLine, endsLine, cString,
    leaderLine, received, Except.map, Extracted.left]

theorem calls_readsOf_whole :
    calls (fun _ => "") (fun _ => none) .handle_leader_data ⟨1, ⟨1, .leader⟩⟩
        (readsOf [[120, 13, 10, 121]]) [] initial =
      .ok ⟨[([120, 13], false)], [121], initial⟩ := by
  simp [readsOf, calls, handleData, handle_leader_data, extract, takeLine, endsLine, cString,
    leaderLine, received, Except.map, Extracted.left]

theorem twoCuts_framesLines :
    FramesLines [120, 13, 10, 121] .handle_leader_data
      (⟨[([120, 13], false)], [121], initial⟩ : Extracted UInt8 DaemonState)
      ⟨[([120, 13], false)], [121], initial⟩ :=
  (framesLines_iff [120, 13, 10, 121] (by decide) [] (readsOf [[120], [13], [10, 121]])
    (readsOf [[120, 13, 10, 121]]) ⟨by decide, by decide, by decide⟩
    ⟨by decide, by decide, by decide⟩ .handle_leader_data _ initial initial _ _
    calls_readsOf_singleBytes calls_readsOf_whole).mpr fun _ => Or.inl rfl

theorem calls_readsOf_leftover :
    calls (fun _ => "") (fun _ => none) .handle_leader_data ⟨1, ⟨1, .leader⟩⟩
        (readsOf [[98, 10]]) [97] initial =
      .ok ⟨[([97, 98], false)], [], initial⟩ := by
  simp [readsOf, calls, handleData, handle_leader_data, extract, takeLine, endsLine, cString,
    leaderLine, received, Except.map, Extracted.left]

/-- An earlier connection to the leader was lost after the first byte of a line. -/
theorem leftover_not_framesLines :
    ¬ ∀ (dump : Json → String) (parse : List UInt8 → Option Json) (stream : List UInt8),
      (0 : UInt8) ∉ stream → ∀ (leader_buffer : List UInt8) (segments : List Call),
        Segmentation stream segments → ∀ (reader : Reader) (h : Handle) (s : DaemonState)
          (r : Extracted UInt8 DaemonState),
          calls dump parse reader h segments (firstBuffer leader_buffer reader) s = .ok r →
            FramesLines stream reader r r := by
  intro hall
  have hframes := hall (fun _ => "") (fun _ => none) [98, 10] (by decide) [97]
    (readsOf [[98, 10]]) ⟨by decide, by decide, by decide⟩ .handle_leader_data _ initial _
    calls_readsOf_leftover
  exact absurd (hframes.persistent (by decide)).2.2.1 (by decide)

end DaemonServer

end AutomateLinux
