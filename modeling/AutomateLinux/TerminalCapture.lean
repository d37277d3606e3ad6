import AutomateLinux.LineFraming
import AutomateLinux.StandardLibrary
import Mathlib.Data.List.DropRight

/-!
# Copying the output of earlier commands

Every prompt leaves a marker line in the capture file of its terminal, and
`terminalToClipboard fromPrompt` copies the lines between two markers.  It computes the
positions of the markers with the shell's arithmetic, in fixed-width integers without a
check for overflow, and the shell counts a negative subscript from the end of an array.
-/

namespace AutomateLinux

namespace TerminalCapture

abbrev Text := List Char

def isLineFeed (c : Char) : Bool := c = '\n'

/-- A capture file, not longer than file offsets reach. -/
structure Capture where
  text : Text
  fits : text.length < 9223372036854775808

/-- The lines of a file, the last of them perhaps without its line break. -/
def fileLines (text : Text) : List Text :=
  let last := LineFraming.remainder isLineFeed text
  LineFraming.lines isLineFeed text ++ if last = [] then [] else [last]

/-! ## The shell -/

/-- `mapfile -t`; a string of the shell ends at its first NUL. -/
def mapfile (text : Text) : List Text :=
  (fileLines text).map fun line => line.takeWhile (· ≠ '\x00')

/-- A word that `echo` takes for options. -/
def isEchoOption : Text → Bool
  | '-' :: letters => letters ≠ [] && letters.all fun c => c = 'n' || c = 'e' || c = 'E'
  | _ => false

/-- `echo -n "$text"`. -/
def echo (text : Text) : Text := if isEchoOption text then [] else text

/-- The value of a result in an `intmax_t`. -/
def wrapped (value : Int) : Int :=
  (value + 9223372036854775808) % 18446744073709551616 - 9223372036854775808

/-- The value of a variable of digits inside `$((…))`: octal after a leading zero, and an
error where a digit is not one of the base. -/
def arithmetic (numeral : Text) : Option Int :=
  match numeral with
  | '0' :: octal =>
      if octal.all (fun c => c < '8') then some (wrapped (Nat.ofDigitChars 8 octal 0)) else none
  | _ => some (wrapped (Nat.ofDigitChars 10 numeral 0))

/-- `[ left -lt right ]`, an error and so not true of a number beyond `intmax_t`. -/
def lessThan (left right : Text) : Bool :=
  let left := Nat.ofDigitChars 10 left 0
  let right := Nat.ofDigitChars 10 right 0
  left < 9223372036854775808 && right < 9223372036854775808 && left < right

/-- `${array[subscript]}`; nothing for a bad subscript. -/
def subscript (array : List ℕ) (i : Int) : Option ℕ :=
  if 0 ≤ i then array[i.toNat]?
  else if 0 ≤ array.length + i then array[(array.length + i).toNat]?
  else none

/-! ## Stripping escape sequences -/

/-- `s/…//g` of an expression whose longest match at the head has the length `len`. -/
def deleteMatches (len : Text → ℕ) : ℕ → Text → Text
  | _, [] => []
  | skip + 1, _ :: rest => deleteMatches len skip rest
  | 0, c :: rest =>
      match len (c :: rest) with
      | 0 => c :: deleteMatches len 0 rest
      | skip + 1 => deleteMatches len skip rest

/-- `\x1b\[[0-9;?]*[A-Za-z]` -/
def controlSequence : Text → ℕ
  | '\x1b' :: '[' :: rest =>
      let params := rest.takeWhile fun c => c.isDigit || c = ';' || c = '?'
      match rest.drop params.length with
      | c :: _ => if c.isAlpha then params.length + 3 else 0
      | [] => 0
  | _ => 0

/-- The length up to the last `\x1b\\`. -/
def lastTerminator : Text → Option ℕ
  | [] => none
  | c :: rest =>
      match lastTerminator rest with
      | some n => some (n + 1)
      | none => if c = '\x1b' ∧ rest.head? = some '\\' then some 2 else none

/-- `\x1b\][^\x07]*(\x07|\x1b\\)` -/
def systemCommand : Text → ℕ
  | '\x1b' :: ']' :: rest =>
      let body := rest.takeWhile (· ≠ '\x07')
      if body = rest then
        match lastTerminator rest with
        | some n => n + 2
        | none => 0
      else body.length + 3
  | _ => 0

/-- `\x1b\([A-Z]` -/
def characterSet : Text → ℕ
  | '\x1b' :: '(' :: c :: _ => if c.isUpper then 3 else 0
  | _ => 0

/-- What the last four expressions delete. -/
def isControl (c : Char) : Bool :=
  c = '\x08' || c = '\r' || c = '\x7f' || c ≤ '\x08' || c = '\x0b' || c = '\x0c' ||
    ('\x0e' ≤ c && c ≤ '\x1a')

/-- `sed` on one line. -/
def stripEscapeSequences (line : Text) : Text :=
  (deleteMatches characterSet 0
    (deleteMatches systemCommand 0 (deleteMatches controlSequence 0 line))).filter
      fun c => !isControl c

/-! ## The program -/

def marker_pattern (line : Text) : Bool :=
  let before := "---PROMPT[timestamp:".toList
  let digits := (line.drop before.length).takeWhile Char.isDigit
  digits ≠ [] && line = before ++ digits ++ "]---".toList

def prompt_indexes (lines : List Text) : List ℕ :=
  (List.range lines.length).filter fun i => marker_pattern (lines.getD i [])

/-- The lines that are no markers from one index up to another. -/
def content (lines : List Text) (collect_from collect_to : ℕ) : List Text :=
  ((lines.take collect_to).drop collect_from).filter fun line => !marker_pattern line

/-- The exits before a position is looked at: without a marker, without content before the
last one, with a single one. -/
def returnsEarly (lines : List Text) : Bool :=
  match (prompt_indexes lines).getLast? with
  | none => true
  | some last_prompt =>
      (content lines 0 last_prompt).length = 0 || (prompt_indexes lines).length < 2

/-- `start_prompt` and `end_prompt` as the argument gives them. -/
def promptNumbers (fp_arg : Text) : Text × Text :=
  let isNumber := fun text : Text => text ≠ [] && text.all Char.isDigit
  let before := fp_arg.takeWhile (· ≠ '-')
  let after := fp_arg.drop (before.length + 1)
  if fp_arg = before ++ '-' :: after && isNumber before && isNumber after then (before, after)
  else if isNumber fp_arg then (fp_arg, fp_arg)
  else (['1'], ['1'])

/-- `collect_from` and `collect_to`. -/
def promptRange (prompt_indexes : List ℕ) (total : ℕ) (start_prompt end_prompt : Int) : ℕ × ℕ :=
  let prompt_count : Int := prompt_indexes.length
  let start_idx := wrapped (prompt_count - 1 - start_prompt)
  let end_idx := wrapped (prompt_count - 1 - end_prompt)
  let start_idx := if start_idx < 0 then 0 else start_idx
  let end_idx := if prompt_count ≤ end_idx then prompt_count - 1 else end_idx
  let collect_from := (subscript prompt_indexes start_idx).getD 0 + 1
  let collect_to := (subscript prompt_indexes (end_idx + 1)).getD 0
  (collect_from, if prompt_count ≤ end_idx + 1 then total else collect_to)

/-- The text of lines without their escape sequences, if there is any; the command
substitution drops the line breaks at the end. -/
def clipboardText (lines : List Text) : Option Text :=
  let text := ((lines.map stripEscapeSequences).flatMap fun line => line ++ ['\n']).rdropWhile
    isLineFeed
  if text = [] then none else some text

/-- What reaches the clipboard of the selected lines.  The first `echo` is given a text that
ends in a line break, which is no option; the second one is not. -/
def copied (to_copy : List Text) : Option Text := (clipboardText to_copy).map echo

/-- `terminalToClipboard fromPrompt fp_arg`: the text it copies, if it does not fail. -/
def fromPrompt (file : Capture) (fp_arg : Text) : Option Text :=
  let lines := mapfile file.text
  if returnsEarly lines then none
  else
    let (start_prompt, end_prompt) := promptNumbers fp_arg
    let (start_prompt, end_prompt) :=
      if lessThan start_prompt end_prompt then (end_prompt, start_prompt)
      else (start_prompt, end_prompt)
    match arithmetic start_prompt, arithmetic end_prompt with
    | some start_prompt, some end_prompt =>
        let (collect_from, collect_to) :=
          promptRange (prompt_indexes lines) lines.length start_prompt end_prompt
        copied (content lines collect_from collect_to)
    | _, _ => none

/-! ## What it is meant to copy -/

/-- What is asked for: the output of one command, counted from the last, or of all from one
to another. -/
inductive Request
  | command (n : ℕ)
  | commands (n m : ℕ)

namespace Request

def first : Request → ℕ
  | command n | commands n _ => n

def second : Request → ℕ
  | command n => n
  | commands _ m => m

def further (r : Request) : ℕ := max r.first r.second

def nearer (r : Request) : ℕ := min r.first r.second

def argument : Request → Text
  | command n => Nat.toDigits 10 n
  | commands n m => Nat.toDigits 10 n ++ '-' :: Nat.toDigits 10 m

end Request

/-- The indices of the markers, the last marker first. -/
def lastPrompts (lines : List Text) : List ℕ := (prompt_indexes lines).reverse

/-- The line after the `n + 1`-th last marker. -/
def outputStart (lines : List Text) (n : ℕ) : ℕ := (lastPrompts lines).getD n 0 + 1

/-- The `n`-th last marker; the 0-th is the end of the file. -/
def outputEnd (lines : List Text) : ℕ → ℕ
  | 0 => lines.length
  | n + 1 => (lastPrompts lines).getD n 0

/-- The lines a request names, clipped to the prompts there are; none of them may be left. -/
def requested (lines : List Text) (r : Request) : Option (List Text) :=
  if (prompt_indexes lines).length ≤ r.nearer then none
  else
    some (content lines (outputStart lines (min r.further ((prompt_indexes lines).length - 1)))
      (outputEnd lines r.nearer))

/-- The text a request asks for, if there is any. -/
def requestedText (lines : List Text) (r : Request) : Option Text :=
  (requested lines r).bind clipboardText

def CopiesRequested (file : Capture) (r : Request) : Prop :=
  fromPrompt file r.argument = requestedText (fileLines file.text) r

/-! ## When it does -/

/-- Where a number beyond `intmax_t` makes the selection start. -/
def startLine (lines : List Text) (start_prompt : Int) : ℕ :=
  let prompts : ℕ := (prompt_indexes lines).length
  if 0 ≤ start_prompt then outputStart lines (min start_prompt.toNat (prompts - 1))
  else if prompts - 1 - start_prompt < 9223372036854775808 then 1
  else outputStart lines (prompts - 1)

/-- Where it makes the selection end. -/
def endLine (lines : List Text) (end_prompt : Int) : ℕ :=
  let prompts : ℕ := (prompt_indexes lines).length
  if 0 ≤ end_prompt then
    if end_prompt ≤ prompts then outputEnd lines end_prompt.toNat
    -- a negative subscript
    else if end_prompt ≤ 2 * prompts then outputEnd lines (end_prompt.toNat - prompts)
    else 0
  else if prompts - 1 - end_prompt < 9223372036854775808 then lines.length
  else 0

/-- The lines between the positions that the numbers of a request come to. -/
def selected (lines : List Text) (r : Request) : List Text :=
  if r.further < 9223372036854775808 then
    content lines (startLine lines r.further) (endLine lines r.nearer)
  else content lines (startLine lines (wrapped r.first)) (endLine lines (wrapped r.second))

/-- Nothing is copied in place of commands there are not, and `echo` takes no output for
options. -/
def ReachedIn (lines : List Text) (r : Request) : Prop :=
  let prompts := (prompt_indexes lines).length
  if returnsEarly lines then r.nearer = 0 → requestedText lines r = none
  else if r.further < 9223372036854775808 then
    (∀ text, requestedText lines r = some text → isEchoOption text = false) ∧
      (prompts < r.nearer → r.nearer < 2 * prompts →
        clipboardText (content lines (outputStart lines (prompts - 1))
          (outputEnd lines (r.nearer - prompts))) = none)
  else copied (selected lines r) = requestedText lines r

/-- No NUL changes what is asked for, or the other lines selected make up for it. -/
def Reached (file : Capture) (r : Request) : Prop :=
  let lines := mapfile file.text
  let meant := requestedText (fileLines file.text) r
  if requestedText lines r = meant then ReachedIn lines r
  else if returnsEarly lines then meant = none
  else copied (selected lines r) = meant

/-! ## The numbers of a request -/

theorem wrapped_of_le {value : Int} (hlower : -9223372036854775808 ≤ value)
    (hupper : value < 9223372036854775808) : wrapped value = value := by
  unfold wrapped
  omega

theorem head?_toDigits {n : ℕ} (hn : 0 < n) : (Nat.toDigits 10 n).head? ≠ some '0' := by
  have hdigit : ∀ d < 10, 0 < d → [Nat.digitChar d].head? ≠ some '0' := by decide
  induction n using Nat.strong_induction_on with
  | _ n ih =>
      rw [Nat.toDigits_eq_if (by decide)]
      split
      · rename_i hlt
        exact hdigit n hlt hn
      · rw [List.head?_append_of_ne_nil _ Nat.toDigits_ne_nil]
        exact ih (n / 10) (by omega) (by omega)

theorem arithmetic_toDigits (n : ℕ) : arithmetic (Nat.toDigits 10 n) = some (wrapped n) := by
  rcases Nat.eq_zero_or_pos n with rfl | hn
  · rfl
  · unfold arithmetic
    split
    · rename_i hdigits
      exact absurd (by rw [hdigits]; rfl) (head?_toDigits hn)
    · rw [Nat.ofDigitChars_ten_toDigits]

theorem lessThan_toDigits (n m : ℕ) :
    lessThan (Nat.toDigits 10 n) (Nat.toDigits 10 m) = true ↔
      n < m ∧ m < 9223372036854775808 := by
  simp only [lessThan, Nat.ofDigitChars_ten_toDigits, Bool.and_eq_true, decide_eq_true_eq]
  omega

theorem takeWhile_toDigits (n : ℕ) (rest : Text) :
    (Nat.toDigits 10 n ++ rest).takeWhile (· ≠ '-') =
      Nat.toDigits 10 n ++ rest.takeWhile (· ≠ '-') := by
  refine List.takeWhile_append_of_pos fun c hc => ?_
  have hdigit := isDigit_toDigits n c hc
  simp only [ne_eq, decide_not, Bool.not_eq_true', decide_eq_false_iff_not]
  rintro rfl
  contradiction

theorem promptNumbers_argument (r : Request) :
    promptNumbers r.argument = (Nat.toDigits 10 r.first, Nat.toDigits 10 r.second) := by
  have hnumber : ∀ n, (Nat.toDigits 10 n ≠ [] && (Nat.toDigits 10 n).all Char.isDigit) = true := by
    intro n
    simp [Nat.toDigits_ne_nil, List.all_eq_true.mpr (isDigit_toDigits n)]
  cases r with
  | command n =>
      show promptNumbers (Nat.toDigits 10 n) = (Nat.toDigits 10 n, Nat.toDigits 10 n)
      have htake := takeWhile_toDigits n []
      rw [List.append_nil, List.takeWhile_nil, List.append_nil] at htake
      have hshort : Nat.toDigits 10 n ≠ Nat.toDigits 10 n ++
          '-' :: (Nat.toDigits 10 n).drop ((Nat.toDigits 10 n).length + 1) := by
        intro heq
        simpa using congrArg List.length heq
      simp only [promptNumbers, htake, hshort, decide_false, Bool.false_and, Bool.false_eq_true,
        if_false]
      rw [if_pos (hnumber n)]
  | commands n m =>
      have htake := takeWhile_toDigits n ('-' :: Nat.toDigits 10 m)
      rw [List.takeWhile_cons_of_neg (by simp), List.append_nil] at htake
      have hdrop : (Nat.toDigits 10 n ++ '-' :: Nat.toDigits 10 m).drop
          ((Nat.toDigits 10 n).length + 1) = Nat.toDigits 10 m := by
        rw [List.drop_append]
        simp
      simp only [promptNumbers, Request.argument, Request.first, Request.second, htake, hdrop,
        hnumber, decide_true, Bool.and_self, if_true]

theorem fromPrompt_argument {file : Capture} (r : Request)
    (hearly : returnsEarly (mapfile file.text) = false) :
    fromPrompt file r.argument =
      let lines := mapfile file.text
      let swaps := r.first < r.second ∧ r.second < 9223372036854775808
      let range := promptRange (prompt_indexes lines) lines.length
        (wrapped (if swaps then r.second else r.first))
        (wrapped (if swaps then r.first else r.second))
      copied (content lines range.1 range.2) := by
  unfold fromPrompt
  rw [if_neg (by rw [hearly]; decide), promptNumbers_argument]
  dsimp only
  by_cases hswaps : r.first < r.second ∧ r.second < 9223372036854775808
  · rw [if_pos ((lessThan_toDigits _ _).mpr hswaps), if_pos hswaps, if_pos hswaps,
      arithmetic_toDigits, arithmetic_toDigits]
  · rw [if_neg fun h => hswaps ((lessThan_toDigits _ _).mp h), if_neg hswaps, if_neg hswaps,
      arithmetic_toDigits, arithmetic_toDigits]

theorem ordered_of_lt {r : Request} (hfits : r.further < 9223372036854775808) :
    wrapped (if r.first < r.second ∧ r.second < 9223372036854775808 then r.second else r.first) =
        r.further ∧
      wrapped (if r.first < r.second ∧ r.second < 9223372036854775808 then r.first else r.second) =
        r.nearer := by
  have hfirst : r.first ≤ r.further := le_max_left _ _
  have hsecond : r.second ≤ r.further := le_max_right _ _
  unfold Request.further at *
  unfold Request.nearer
  split <;> constructor <;> rw [wrapped_of_le (by omega) (by omega)] <;> omega

/-! ## The positions of the markers -/

theorem map_getD_range (lines : List Text) :
    (List.range lines.length).map (fun i => lines.getD i []) = lines := by
  refine List.ext_getElem (by simp) fun i hi hi' => ?_
  simp [hi']

theorem length_prompt_indexes (lines : List Text) :
    (prompt_indexes lines).length = lines.countP marker_pattern := by
  conv_rhs => rw [← map_getD_range lines]
  rw [List.countP_map, List.countP_eq_length_filter]
  rfl

theorem two_le_length_of_marker {line : Text} (hline : marker_pattern line = true) :
    2 ≤ line.length := by
  simp only [marker_pattern, Bool.and_eq_true, decide_eq_true_eq] at hline
  rw [hline.2]
  simp only [List.length_append, String.length_toList]
  have hbefore : "---PROMPT[timestamp:".length = 20 := rfl
  omega

/-- A line before its first NUL is no longer than the line. -/
theorem two_le_length_of_cut {line : Text}
    (hcut : marker_pattern (line.takeWhile (· ≠ '\x00')) = true) : 2 ≤ line.length :=
  (two_le_length_of_marker hcut).trans (List.takeWhile_sublist _).length_le

theorem two_mul_prompts_le (text : Text) :
    2 * (prompt_indexes (mapfile text)).length ≤ text.length := by
  rw [length_prompt_indexes]
  induction text using LineFraming.line_induction isLineFeed with
  | unterminated text hnone =>
      rw [mapfile, fileLines, LineFraming.lines, LineFraming.remainder,
        LineFraming.split_of_forall_not hnone]
      dsimp only
      split
      · exact Nat.zero_le _
      · rw [List.nil_append, List.map_singleton, List.countP_singleton]
        split
        · rename_i hmarker
          have hlength := two_le_length_of_cut hmarker
          omega
        · omega
  | line line newline rest hline hnewline ih =>
      have hmap : mapfile (line ++ newline :: rest) =
          line.takeWhile (· ≠ '\x00') :: mapfile rest := by
        rw [mapfile, fileLines, LineFraming.lines, LineFraming.remainder,
          LineFraming.split_line_append hline hnewline]
        rfl
      rw [hmap, List.countP_cons, List.length_append, List.length_cons]
      split
      · rename_i hmarker
        have hlength := two_le_length_of_cut hmarker
        omega
      · omega

section

variable {lines : List Text} {s e : Int}

/-- The `n + 1`-th last marker has a subscript from the front and one from the end. -/
theorem subscript_eq {n : ℕ} {i : Int} (hn : n < (prompt_indexes lines).length)
    (hi : i = (prompt_indexes lines).length - 1 - n ∨ i = -1 - n) :
    (subscript (prompt_indexes lines) i).getD 0 = (lastPrompts lines).getD n 0 := by
  have hlast : (lastPrompts lines).getD n 0 =
      ((prompt_indexes lines)[(prompt_indexes lines).length - 1 - n]?).getD 0 := by
    rw [lastPrompts, List.getD_eq_getElem?_getD, List.getElem?_reverse hn]
  rw [hlast, subscript]
  rcases hi with rfl | rfl
  · rw [if_pos (by omega)]
    congr 2
    omega
  · rw [if_neg (by omega), if_pos (by omega)]
    congr 2
    omega

theorem subscript_eq_none {array : List ℕ} {i : Int}
    (hi : i < -array.length ∨ array.length ≤ i) : subscript array i = none := by
  unfold subscript
  split
  · rw [List.getElem?_eq_none]
    omega
  · rw [if_neg (by omega)]

/-- The clamp below and what a subscript past the array leaves. -/
theorem collect_from_eq (hprompts : 0 < (prompt_indexes lines).length)
    (hcount : 2 * (prompt_indexes lines).length < 9223372036854775808)
    (hlower : -9223372036854775808 ≤ s) (hupper : s < 9223372036854775808) (total : ℕ) (e : Int) :
    (promptRange (prompt_indexes lines) total s e).1 = startLine lines s := by
  simp only [promptRange, startLine]
  by_cases hs : 0 ≤ s
  · rw [if_pos hs, wrapped_of_le (by omega) (by omega), outputStart]
    congr 1
    split
    · exact subscript_eq (by omega) (Or.inl (by omega))
    · exact subscript_eq (by omega) (Or.inl (by omega))
  · rw [if_neg hs]
    by_cases hreach : ((prompt_indexes lines).length : Int) - 1 - s < 9223372036854775808
    · rw [if_pos hreach, wrapped_of_le (by omega) hreach, if_neg (by omega),
        subscript_eq_none (Or.inr (by omega))]
      rfl
    · rw [if_neg hreach, if_pos (by unfold wrapped; omega), outputStart]
      congr 1
      exact subscript_eq (by omega) (Or.inl (by omega))

/-- The clamp above and the subscripts that count from the end. -/
theorem collect_to_eq (hprompts : 0 < (prompt_indexes lines).length)
    (hcount : 2 * (prompt_indexes lines).length < 9223372036854775808)
    (hlower : -9223372036854775808 ≤ e) (hupper : e < 9223372036854775808) (s : Int) :
    (promptRange (prompt_indexes lines) lines.length s e).2 = endLine lines e := by
  simp only [promptRange, endLine]
  by_cases he : 0 ≤ e
  · obtain ⟨n, rfl⟩ : ∃ n : ℕ, e = n := ⟨e.toNat, by omega⟩
    have hclamp : ¬ ((prompt_indexes lines).length : Int) ≤ (prompt_indexes lines).length - 1 - n :=
      by omega
    rw [if_pos he, wrapped_of_le (by omega) (by omega), if_neg hclamp, Int.toNat_natCast]
    cases n with
    | zero =>
        rw [if_pos (by omega), if_pos (by omega), outputEnd]
    | succ n =>
        rw [if_neg (by omega)]
        split
        · exact subscript_eq (by omega) (Or.inl (by omega))
        · split
          · obtain ⟨k, hk⟩ : ∃ k, n + 1 - (prompt_indexes lines).length = k + 1 :=
              ⟨n - (prompt_indexes lines).length, by omega⟩
            rw [hk, outputEnd]
            exact subscript_eq (by omega) (Or.inr (by omega))
          · rw [subscript_eq_none (Or.inl (by omega))]
            rfl
  · rw [if_neg he]
    by_cases hreach : ((prompt_indexes lines).length : Int) - 1 - e < 9223372036854775808
    · rw [if_pos hreach, wrapped_of_le (by omega) hreach, if_pos (by omega : _ ≤ _ - 1 - e),
        if_pos (by omega)]
    · have hwrapped : wrapped ((prompt_indexes lines).length - 1 - e) =
          (prompt_indexes lines).length - 1 - e - 18446744073709551616 := by
        unfold wrapped
        omega
      have hclamp : ¬ ((prompt_indexes lines).length : Int) ≤
          (prompt_indexes lines).length - 1 - e - 18446744073709551616 := by omega
      rw [if_neg hreach, hwrapped, if_neg hclamp, if_neg (by omega),
        subscript_eq_none (Or.inl (by omega))]
      rfl

end

/-! ## The selection -/

theorem clipboardText_nil : clipboardText [] = none := rfl

theorem clipboardText_ne_nil {lines : List Text} {text : Text}
    (htext : clipboardText lines = some text) : text ≠ [] := by
  unfold clipboardText at htext
  dsimp only at htext
  split at htext
  · contradiction
  · rename_i hne
    exact Option.some.inj htext ▸ hne

theorem copied_eq_none_iff {lines : List Text} :
    copied lines = none ↔ clipboardText lines = none := by
  rw [copied, Option.map_eq_none_iff]

/-- A text is copied unless `echo` takes it for options. -/
theorem copied_eq_clipboardText_iff {lines : List Text} :
    copied lines = clipboardText lines ↔
      ∀ text, clipboardText lines = some text → isEchoOption text = false := by
  unfold copied
  cases htext : clipboardText lines with
  | none => simp
  | some text =>
      have hne := clipboardText_ne_nil htext
      rw [Option.map_some, Option.some.injEq, echo]
      cases hoption : isEchoOption text with
      | true => simp [hne.symm, hoption]
      | false => simp [hoption]

section

variable {lines : List Text} {r : Request}

theorem content_of_le {first last : ℕ} (hle : last ≤ first) : content lines first last = [] := by
  unfold content
  rw [List.drop_eq_nil_of_le (by rw [List.length_take]; omega)]
  rfl

theorem content_eq_nil_of_le {first last upper : ℕ} (hupper : content lines 0 upper = [])
    (hle : last ≤ upper) : content lines first last = [] := by
  rw [content, List.filter_eq_nil_iff] at hupper ⊢
  intro line hline
  refine hupper line ?_
  have hmem := List.mem_of_mem_drop hline
  rw [← Nat.min_eq_left hle, ← List.take_take] at hmem
  exact List.mem_of_mem_take hmem

theorem le_of_getLast? {i last_prompt : ℕ} (hi : i ∈ prompt_indexes lines)
    (hlast : (prompt_indexes lines).getLast? = some last_prompt) : i ≤ last_prompt := by
  have hsorted : (prompt_indexes lines).Pairwise (· < ·) := List.pairwise_lt_range.filter _
  obtain ⟨front, hfront⟩ := List.getLast?_eq_some_iff.mp hlast
  rw [hfront] at hi hsorted
  rcases List.mem_append.mp hi with hi | hi
  · exact (List.pairwise_append.mp hsorted).2.2 i hi last_prompt (by simp) |>.le
  · exact (List.mem_singleton.mp hi).le

theorem two_le_prompts (hearly : returnsEarly lines = false) :
    2 ≤ (prompt_indexes lines).length := by
  unfold returnsEarly at hearly
  split at hearly
  · contradiction
  · simp only [Bool.or_eq_false_iff, decide_eq_false_iff_not] at hearly
    omega

/-- An exit before the markers are looked up loses nothing that lies before the last one. -/
theorem requested_of_returnsEarly (hearly : returnsEarly lines = true) (hr : 0 < r.nearer) :
    requestedText lines r = none := by
  unfold requestedText requested
  split
  · rfl
  · rename_i hnearer
    obtain ⟨n, hn⟩ : ∃ n, r.nearer = n + 1 := ⟨r.nearer - 1, by omega⟩
    have hlength : n < (prompt_indexes lines).length := by omega
    unfold returnsEarly at hearly
    split at hearly
    · rename_i hnone
      rw [List.getLast?_eq_none_iff.mp hnone] at hlength
      contradiction
    · rename_i last_prompt hlast
      rw [Bool.or_eq_true, decide_eq_true_eq, decide_eq_true_eq] at hearly
      have hempty : content lines 0 last_prompt = [] :=
        List.eq_nil_of_length_eq_zero (hearly.resolve_right (by omega))
      have hend : outputEnd lines (n + 1) ∈ prompt_indexes lines := by
        have hn' : n < (lastPrompts lines).length := by rwa [lastPrompts, List.length_reverse]
        rw [outputEnd, List.getD_eq_getElem?_getD, List.getElem?_eq_getElem hn', Option.getD_some]
        exact List.mem_reverse.mp (List.getElem_mem hn')
      rw [Option.bind_some, hn, content_eq_nil_of_le hempty (le_of_getLast? hend hlast),
        clipboardText_nil]

theorem startLine_natCast (s : ℕ) :
    startLine lines s = outputStart lines (min s ((prompt_indexes lines).length - 1)) := by
  unfold startLine
  rw [if_pos (by omega)]
  rfl

theorem endLine_natCast (e : ℕ) :
    endLine lines e =
      if e ≤ (prompt_indexes lines).length then outputEnd lines e
      else if e ≤ 2 * (prompt_indexes lines).length then
        outputEnd lines (e - (prompt_indexes lines).length)
      else 0 := by
  unfold endLine
  rw [if_pos (by omega)]
  norm_cast

/-- The oldest output starts behind the marker that would end one older still. -/
theorem outputEnd_length (hprompts : 0 < (prompt_indexes lines).length) :
    outputEnd lines (prompt_indexes lines).length <
      outputStart lines ((prompt_indexes lines).length - 1) := by
  obtain ⟨n, hn⟩ : ∃ n, (prompt_indexes lines).length = n + 1 :=
    ⟨(prompt_indexes lines).length - 1, by omega⟩
  rw [hn]
  exact Nat.lt_succ_self _

/-- Within `intmax_t` the selection is the requested one, but beyond the oldest command it
starts over from the last. -/
theorem copied_selected_iff (hprompts : 0 < (prompt_indexes lines).length)
    (hfurther : r.further < 9223372036854775808) :
    copied (selected lines r) = requestedText lines r ↔
      (∀ text, requestedText lines r = some text → isEchoOption text = false) ∧
        ((prompt_indexes lines).length < r.nearer →
          r.nearer < 2 * (prompt_indexes lines).length →
            clipboardText (content lines (outputStart lines ((prompt_indexes lines).length - 1))
              (outputEnd lines (r.nearer - (prompt_indexes lines).length))) = none) := by
  have hle : r.nearer ≤ r.further := (min_le_left _ _).trans (le_max_left _ _)
  rw [selected, if_pos hfurther, startLine_natCast, endLine_natCast, requestedText, requested]
  rcases lt_or_ge r.nearer (prompt_indexes lines).length with hnearer | hnearer
  · rw [if_pos hnearer.le, if_neg (by omega), Option.bind_some, copied_eq_clipboardText_iff]
    exact (and_iff_left fun h => absurd h (by omega)).symm
  · have hstart : min r.further ((prompt_indexes lines).length - 1) =
        (prompt_indexes lines).length - 1 := by omega
    have hempty : content lines (outputStart lines ((prompt_indexes lines).length - 1))
        (outputEnd lines (prompt_indexes lines).length) = [] :=
      content_of_le (outputEnd_length hprompts).le
    have hnothing : ∀ text, (none : Option Text) = some text → isEchoOption text = false :=
      fun _ h => absurd h (by simp)
    rw [hstart, if_pos hnearer, Option.bind_none, and_iff_right hnothing, copied_eq_none_iff]
    rcases hnearer.eq_or_lt with heq | hlt
    · rw [if_pos heq.ge, ← heq, hempty]
      exact iff_of_true clipboardText_nil fun h => absurd h (by omega)
    · rw [if_neg (by omega)]
      rcases lt_trichotomy r.nearer (2 * (prompt_indexes lines).length) with hbelow | hat | habove
      · rw [if_pos hbelow.le]
        exact ⟨fun h _ _ => h, fun h => h hlt hbelow⟩
      · have hend : r.nearer - (prompt_indexes lines).length = (prompt_indexes lines).length := by
          omega
        rw [if_pos hat.le, hend, hempty]
        exact iff_of_true clipboardText_nil fun _ h => absurd h (by omega)
      · rw [if_neg (by omega), content_of_le (Nat.zero_le _)]
        exact iff_of_true clipboardText_nil fun _ h => absurd h (by omega)

end

section

variable {file : Capture} (r : Request)

theorem fromPrompt_of_returnsEarly (fp_arg : Text)
    (hearly : returnsEarly (mapfile file.text) = true) : fromPrompt file fp_arg = none := by
  unfold fromPrompt
  rw [if_pos hearly]

/-- What the arithmetic of the shell selects. -/
theorem fromPrompt_eq_selected (hearly : returnsEarly (mapfile file.text) = false) :
    fromPrompt file r.argument = copied (selected (mapfile file.text) r) := by
  have hprompts := two_le_prompts hearly
  have hcount := two_mul_prompts_le file.text
  have hfits := file.fits
  have hwrapped : ∀ n, -9223372036854775808 ≤ wrapped n ∧ wrapped n < 9223372036854775808 := by
    intro n
    unfold wrapped
    omega
  rw [fromPrompt_argument r hearly]
  dsimp only
  rw [collect_from_eq (by omega) (by omega) (hwrapped _).1 (hwrapped _).2,
    collect_to_eq (by omega) (by omega) (hwrapped _).1 (hwrapped _).2, selected]
  by_cases hfurther : r.further < 9223372036854775808
  · rw [if_pos hfurther, ordered_of_lt hfurther |>.1, ordered_of_lt hfurther |>.2]
  · have hswaps : ¬ (r.first < r.second ∧ r.second < 9223372036854775808) := by
      rintro ⟨hlt, hsecond⟩
      exact hfurther (max_lt (by omega) hsecond)
    rw [if_neg hfurther, if_neg hswaps, if_neg hswaps]

/-- Of the lines as the shell reads them it copies what is asked for, but for what the
negative subscripts, the early exits and the options of `echo` make of it. -/
theorem fromPrompt_eq_requestedText_iff :
    fromPrompt file r.argument = requestedText (mapfile file.text) r ↔
      ReachedIn (mapfile file.text) r := by
  unfold ReachedIn
  cases hearly : returnsEarly (mapfile file.text) with
  | true =>
      rw [fromPrompt_of_returnsEarly _ hearly, if_pos rfl]
      constructor
      · intro heq _
        exact heq.symm
      · intro hzero
        rcases Nat.eq_zero_or_pos r.nearer with hr | hr
        · exact (hzero hr).symm
        · exact (requested_of_returnsEarly hearly hr).symm
  | false =>
      have hprompts := two_le_prompts hearly
      rw [fromPrompt_eq_selected r hearly, if_neg (by decide)]
      split
      · rename_i hfurther
        exact copied_selected_iff (by omega) hfurther
      · rfl

end

/-- What is copied is what is asked for exactly when the lines lose nothing of it at a NUL
and the selection of the shell reaches it. -/
theorem copiesRequested_iff (file : Capture) (r : Request) :
    CopiesRequested file r ↔ Reached file r := by
  unfold CopiesRequested Reached
  dsimp only
  split
  · rename_i hmeant
    rw [← hmeant]
    exact fromPrompt_eq_requestedText_iff r
  · cases hearly : returnsEarly (mapfile file.text) with
    | true =>
        rw [fromPrompt_of_returnsEarly _ hearly, if_pos rfl]
        exact eq_comm
    | false => rw [fromPrompt_eq_selected r hearly, if_neg (by decide)]

def twoPrompts : Capture where
  text := "---PROMPT[timestamp:1]---\na\n---PROMPT[timestamp:2]---\n".toList
  fits := by decide +kernel

/-- The third last of two prompts: the only command is copied in its place. -/
theorem thirdLast_copied : ¬ CopiesRequested twoPrompts (.command 3) := by
  unfold CopiesRequested
  decide +kernel

end TerminalCapture

end AutomateLinux
