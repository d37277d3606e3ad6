import AutomateLinux.Utf8

/-!
# Clients that read until a newline

The MCP server, the manager and a worker that forwards a request all take a
response for complete as soon as what they have read ends in a newline.  The MCP
server decodes each chunk by itself, the manager decodes the whole, and the worker
cuts each chunk at its first NUL.
-/

namespace AutomateLinux

namespace ResponseReaders

open Utf8 TextOperations

/-! ## The readers -/

def isUnicodeSpace (c : Char) : Bool :=
  let n := c.toNat
  (0x09 ≤ n && n ≤ 0x0D) || n = 0x20 || n = 0xA0 || n = 0x1680 ||
    (0x2000 ≤ n && n ≤ 0x200A) || n = 0x2028 || n = 0x2029 || n = 0x202F || n = 0x205F ||
    n = 0x3000

/-- What JavaScript's `trim` removes. -/
def isJsSpace (c : Char) : Bool := isUnicodeSpace c || c.toNat = 0xFEFF

/-- What Python's `strip` removes. -/
def isPySpace (c : Char) : Bool :=
  isUnicodeSpace c || (0x1C ≤ c.toNat && c.toNat ≤ 0x1F) || c.toNat = 0x85

/-- White space for any of the readers. -/
def isWhite (c : Char) : Bool := isJsSpace c || isPySpace c

/-- The loop the readers share: what a chunk adds, and the test for the end.  Without
a chunk that ends the response the reader waits on, until it gives up. -/
def readUntil {β : Type} (gain : List UInt8 → List β) (last : β) [DecidableEq β] :
    List β → List (List UInt8) → Option (List β)
  | _, [] => none
  | response, chunk :: chunks =>
      let response := response ++ gain chunk
      if response.getLast? = some last then some response
      else readUntil gain last response chunks

/-- The MCP server: `response += data.toString()`, then `response.trim()`. -/
def sendToDaemon (chunks : List (List UInt8)) : Option (List Char) :=
  (readUntil decodeLossy '\n' [] chunks).map (trim isJsSpace)

/-- The manager: `response.decode().strip()`; a response that does not decode is an
exception. -/
def send_to_daemon (chunks : List (List UInt8)) : Option (List Char) :=
  ((readUntil id 10 [] chunks).bind decodeStrict).map (trim isPySpace)

/-- The worker's loop in `handleGetAppPeers`: `buffer[n] = '\0'; response += buffer;`. -/
def readFromLeader (chunks : List (List UInt8)) : Option (List UInt8) :=
  readUntil (fun chunk => chunk.takeWhile fun byte => byte ≠ 0) 10 [] chunks

/-! ## What is read and what is left -/

/-- The chunks up to the first one that ends in a newline. -/
def received : List (List UInt8) → List (List UInt8)
  | [] => []
  | chunk :: chunks =>
      if chunk.getLast? = some 10 then [chunk] else chunk :: received chunks

def unread : List (List UInt8) → List (List UInt8)
  | [] => []
  | chunk :: chunks => if chunk.getLast? = some 10 then chunks else unread chunks

theorem received_append_unread (chunks : List (List UInt8)) :
    received chunks ++ unread chunks = chunks := by
  induction chunks with
  | nil => rfl
  | cons chunk chunks ih =>
      rw [received, unread]
      split
      · rfl
      · rw [List.cons_append, ih]

theorem getLast?_flatten_received {chunks : List (List UInt8)}
    (hends : ∃ chunk ∈ chunks, chunk.getLast? = some 10) :
    (received chunks).flatten.getLast? = some 10 := by
  induction chunks with
  | nil => simp at hends
  | cons chunk chunks ih =>
      rw [received]
      split
      · rename_i hlast
        simpa using hlast
      · rename_i hlast
        have hends' : ∃ chunk ∈ chunks, chunk.getLast? = some 10 := by
          obtain ⟨last, hmem, hten⟩ := hends
          rcases List.mem_cons.mp hmem with rfl | hmem
          · exact absurd hten hlast
          · exact ⟨last, hmem, hten⟩
        have hrest := ih hends'
        have hne : (received chunks).flatten ≠ [] := by
          intro hempty
          simp [hempty] at hrest
        rw [List.flatten_cons, List.getLast?_append_of_ne_nil _ hne]
        exact hrest

/-- Where what a chunk adds ends like the chunk, the loop stops with the chunks up to
the first one that ends in a newline. -/
theorem readUntil_eq {β : Type} [DecidableEq β] {gain : List UInt8 → List β} {last : β}
    {chunks : List (List UInt8)}
    (hgain : ∀ chunk ∈ chunks, gain chunk ≠ [] ∧
      ((gain chunk).getLast? = some last ↔ chunk.getLast? = some 10))
    (hends : ∃ chunk ∈ chunks, chunk.getLast? = some 10) (response : List β) :
    readUntil gain last response chunks = some (response ++ (received chunks).flatMap gain) := by
  induction chunks generalizing response with
  | nil => simp at hends
  | cons chunk chunks ih =>
      obtain ⟨hne, hlast⟩ := hgain chunk List.mem_cons_self
      rw [readUntil, received, List.getLast?_append_of_ne_nil _ hne]
      by_cases hten : chunk.getLast? = some 10
      · rw [if_pos (hlast.mpr hten), if_pos hten]
        simp
      · have hends' : ∃ chunk ∈ chunks, chunk.getLast? = some 10 := by
          obtain ⟨last', hmem, hten'⟩ := hends
          rcases List.mem_cons.mp hmem with rfl | hmem
          · exact absurd hten' hten
          · exact ⟨last', hmem, hten'⟩
        rw [if_neg fun h => hten (hlast.mp h), if_neg hten,
          ih (fun chunk' h => hgain chunk' (List.mem_cons_of_mem chunk h)) hends']
        simp [List.append_assoc]

/-! ## The whole response -/

/-- The two texts are the same up to white space around them. -/
def SameUpToSpace (result text : List Char) : Prop := trim isWhite result = trim isWhite text

instance (result text : List Char) : Decidable (SameUpToSpace result text) :=
  inferInstanceAs (Decidable (trim isWhite result = trim isWhite text))

/-- All three readers return the response. -/
structure ReturnedWhole (text : List Char) (chunks : List (List UInt8)) : Prop where
  mcpServer : ∃ result, sendToDaemon chunks = some result ∧ SameUpToSpace result text
  manager : ∃ result, send_to_daemon chunks = some result ∧ SameUpToSpace result text
  worker : ∃ bytes result, readFromLeader chunks = some bytes ∧ bytes = encode result ∧
    SameUpToSpace result text

/-- No chunk ends in a newline before the ink of the response has arrived, no chunk up
to that one cuts a character, and no NUL is in the response. -/
structure ArrivesWell (text : List Char) (chunks : List (List UInt8)) : Prop where
  rest : ∃ after, (unread chunks).flatten = encode after ∧ ∀ c ∈ after, isWhite c = true
  uncut : ∀ chunk ∈ received chunks, ∃ part, chunk = encode part
  noNul : '\x00' ∉ text

/-- A text that ends in a newline, sent in chunks. -/
structure Sent (text : List Char) (chunks : List (List UInt8)) : Prop where
  ends : text.getLast? = some '\n'
  nonempty : ∀ chunk ∈ chunks, chunk ≠ []
  join : chunks.flatten = encode text

section

variable {text : List Char} {chunks : List (List UInt8)}

theorem Sent.exists_newline (hsent : Sent text chunks) :
    ∃ chunk ∈ chunks, chunk.getLast? = some 10 := by
  have hne : encode text ≠ [] := by
    intro hempty
    have htext : text = [] := encode_injective hempty
    simp [htext] at hsent
    exact absurd hsent.ends (by simp)
  have hlast : (encode text).getLast? = some 10 := by
    rw [← getLast?_decodeLossy hne, decodeLossy_encode]
    exact hsent.ends
  rcases List.eq_nil_or_concat' chunks with rfl | ⟨init, chunk, rfl⟩
  · exact absurd hsent.join.symm hne
  · refine ⟨chunk, by simp, ?_⟩
    have hjoin := hsent.join
    rw [List.flatten_append, List.flatten_singleton] at hjoin
    rwa [← hjoin, List.getLast?_append_of_ne_nil _ (hsent.nonempty chunk (by simp))] at hlast

theorem Sent.split (hsent : Sent text chunks) :
    ∃ before after, text = before ++ after ∧ (received chunks).flatten = encode before ∧
      (unread chunks).flatten = encode after := by
  apply eq_encode_of_getLast? _ (getLast?_flatten_received hsent.exists_newline)
  rw [← List.flatten_append, received_append_unread, hsent.join]

theorem mem_chunks_of_mem_received {chunk : List UInt8} (hchunk : chunk ∈ received chunks) :
    chunk ∈ chunks := by
  rw [← received_append_unread chunks]
  exact List.mem_append_left _ hchunk

theorem Sent.sendToDaemon (hsent : Sent text chunks) :
    sendToDaemon chunks =
      some (trim isJsSpace ((received chunks).flatMap decodeLossy)) := by
  unfold ResponseReaders.sendToDaemon
  rw [readUntil_eq _ hsent.exists_newline]
  · rfl
  · intro chunk hchunk
    have hne := hsent.nonempty chunk hchunk
    exact ⟨decodeLossy_ne_nil hne, getLast?_decodeLossy hne⟩

theorem Sent.send_to_daemon (hsent : Sent text chunks) {before : List Char}
    (hbefore : (received chunks).flatten = encode before) :
    send_to_daemon chunks = some (trim isPySpace before) := by
  unfold ResponseReaders.send_to_daemon
  rw [readUntil_eq _ hsent.exists_newline]
  · rw [List.nil_append, List.flatMap_id, hbefore, Option.bind_some, decodeStrict_encode]
    rfl
  · exact fun chunk hchunk => ⟨hsent.nonempty chunk hchunk, Iff.rfl⟩

theorem Sent.readFromLeader (hsent : Sent text chunks) (hnul : '\x00' ∉ text) :
    readFromLeader chunks = some (received chunks).flatten := by
  have huncut : ∀ chunk ∈ chunks, (chunk.takeWhile fun byte => byte ≠ 0) = chunk := by
    intro chunk hchunk
    rw [List.takeWhile_eq_self_iff]
    intro byte hbyte
    simp only [ne_eq, decide_not, Bool.not_eq_true', decide_eq_false_iff_not]
    rintro rfl
    apply hnul
    rw [← mem_encode_iff encodeChar_nul, ← hsent.join]
    exact List.mem_flatten.mpr ⟨chunk, hchunk, hbyte⟩
  unfold ResponseReaders.readFromLeader
  rw [readUntil_eq _ hsent.exists_newline]
  · rw [List.nil_append, ← List.flatMap_id]
    congr 1
    exact List.flatMap_congr fun chunk hchunk =>
      huncut chunk (mem_chunks_of_mem_received hchunk)
  · intro chunk hchunk
    rw [huncut chunk hchunk]
    exact ⟨hsent.nonempty chunk hchunk, Iff.rfl⟩

theorem nul_notMem_readUntil {response bytes : List UInt8} (hresponse : 0 ∉ response)
    (hread : readUntil (fun chunk => chunk.takeWhile fun byte => byte ≠ 0) 10 response
      chunks = some bytes) : 0 ∉ bytes := by
  induction chunks generalizing response with
  | nil => simp [readUntil] at hread
  | cons chunk chunks ih =>
      have hgain : 0 ∉ response ++ chunk.takeWhile fun byte => byte ≠ 0 := by
        intro hmem
        rcases List.mem_append.mp hmem with h | h
        · exact hresponse h
        · exact absurd (List.mem_takeWhile_imp h) (by decide)
      rw [readUntil] at hread
      split at hread
      · obtain rfl := Option.some.inj hread
        exact hgain
      · exact ih hgain hread

theorem mem_of_sameUpToSpace {result : List Char} {c : Char} (hsame : SameUpToSpace result text)
    (hc : c ∈ text) (hink : isWhite c = false) : c ∈ result := by
  have hkept : ∀ {l : List Char}, c ∈ l → c ∈ trim isWhite l := by
    intro l hl
    obtain ⟨before, after, heq, hbefore, hafter⟩ := exists_trim isWhite l
    rw [heq, List.mem_append, List.mem_append] at hl
    rcases hl with (h | h) | h
    · simp [hbefore c h] at hink
    · exact h
    · simp [hafter c h] at hink
  obtain ⟨before, after, heq, -, -⟩ := exists_trim isWhite result
  have hmem := hkept hc
  rw [← hsame] at hmem
  rw [heq]
  exact List.mem_append_left after (List.mem_append_right before hmem)

/-- The three readers return the whole response exactly if it arrives so. -/
theorem returnedWhole_iff (hsent : Sent text chunks) :
    ReturnedWhole text chunks ↔ ArrivesWell text chunks := by
  obtain ⟨before, after, htext, hbefore, hafter⟩ := hsent.split
  have hjs : ∀ c, isJsSpace c = true → isWhite c = true := by
    intro c hc
    simp [isWhite, hc]
  have hpy : ∀ c, isPySpace c = true → isWhite c = true := by
    intro c hc
    simp [isWhite, hc]
  have hrest : SameUpToSpace before text ↔ ∀ c ∈ after, isWhite c = true := by
    unfold SameUpToSpace
    rw [htext]
    exact trim_eq_trim_append_iff
  constructor
  · rintro ⟨⟨jsResult, hjsRead, hjsSame⟩, ⟨pyResult, hpyRead, hpySame⟩,
      ⟨bytes, result, hread, rfl, hsame⟩⟩
    have hwhite : ∀ c ∈ after, isWhite c = true := by
      rw [hsent.send_to_daemon hbefore] at hpyRead
      obtain rfl := Option.some.inj hpyRead
      rw [SameUpToSpace, trim_trim_of_imp hpy] at hpySame
      exact hrest.mp hpySame
    refine ⟨⟨after, hafter, hwhite⟩, ?_, ?_⟩
    · rw [hsent.sendToDaemon] at hjsRead
      obtain rfl := Option.some.inj hjsRead
      rw [SameUpToSpace, trim_trim_of_imp hjs, ← hrest.mpr hwhite] at hjsSame
      have hcount := congrArg (inkCount isWhite) hjsSame
      rw [inkCount_trim, inkCount_trim] at hcount
      exact uncut_of_inkCount (by decide) hbefore hcount
    · intro hnul
      have hmem := mem_of_sameUpToSpace hsame hnul (by decide)
      rw [← mem_encode_iff encodeChar_nul] at hmem
      exact nul_notMem_readUntil (by simp) hread hmem
  · rintro ⟨⟨after', hafter', hwhite⟩, huncut, hnul⟩
    obtain rfl : after' = after := encode_injective (hafter'.symm.trans hafter)
    have hsame := hrest.mpr hwhite
    refine ⟨⟨_, hsent.sendToDaemon, ?_⟩, ⟨_, hsent.send_to_daemon hbefore, ?_⟩,
      ⟨_, before, hsent.readFromLeader hnul, hbefore, hsame⟩⟩
    · rw [SameUpToSpace, trim_trim_of_imp hjs, flatMap_decodeLossy hbefore huncut]
      exact hsame
    · rw [SameUpToSpace, trim_trim_of_imp hpy]
      exact hsame

end

/-- An empty listing, on two lines. -/
def listing : List Char := ['[', '\n', ']', '\n']

/-- Every reader takes the first line for the listing if it comes alone. -/
theorem listing_cutShort :
    Sent listing [[91, 10], [93, 10]] ∧
      sendToDaemon [[91, 10], [93, 10]] = some ['['] ∧
      send_to_daemon [[91, 10], [93, 10]] = some ['['] ∧
      readFromLeader [[91, 10], [93, 10]] = some (encode ['[', '\n']) ∧
      ¬ SameUpToSpace ['['] listing ∧ ¬ SameUpToSpace ['[', '\n'] listing :=
  ⟨⟨by decide, by decide, by decide⟩, by decide +kernel, by decide +kernel, by decide +kernel,
    by decide +kernel, by decide +kernel⟩

/-- Cut elsewhere it is returned whole. -/
theorem listing_returnedWhole : ReturnedWhole listing [[91], [10, 93], [10]] := by
  have hsent : Sent listing [[91], [10, 93], [10]] := ⟨by decide, by decide, by decide⟩
  apply (returnedWhole_iff hsent).mpr
  refine ⟨⟨[], rfl, by simp⟩, ?_, by decide⟩
  have hall : received [[91], [10, 93], [10]] =
      [encode ['['], encode ['\n', ']'], encode ['\n']] := by
    decide
  rw [hall]
  intro chunk hchunk
  simp only [List.mem_cons, List.not_mem_nil, or_false] at hchunk
  rcases hchunk with rfl | rfl | rfl
  · exact ⟨['['], rfl⟩
  · exact ⟨['\n', ']'], rfl⟩
  · exact ⟨['\n'], rfl⟩

end ResponseReaders

end AutomateLinux
