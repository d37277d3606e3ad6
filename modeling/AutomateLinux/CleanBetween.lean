import AutomateLinux.IgnorePatterns
import AutomateLinux.LineFraming
import AutomateLinux.StandardLibrary
import Mathlib.Logic.Function.Basic

/-!
# Removing blank lines between braces

`cleanBetween` copies a file to a temporary one, without the blank lines that stand
between braces, and puts the copy in its place.  It reads with `fgets`, so that what
it judges are pieces of at most `MAX_LINE - 1` bytes and not lines.  Counting braces
beyond the range of an `int` is undefined.

Files are known by the text of their path: another spelling of `tempfile.txt`, or a link
to it, is taken for another file.
-/

namespace AutomateLinux

namespace CleanBetween

open LastChanged (Text fgetsFrom)

def MAX_LINE : ℕ := 1024

def tempFile : String := "tempfile.txt"

def isLineFeed (c : Char) : Bool := c = '\n'

/-! ## The program -/

/-- What `fgets` returns, one call after the other. -/
def pieces (text : Text) : List Text := fgetsFrom (MAX_LINE - 1) (MAX_LINE - 1) [] text

/-- A buffer as a C string. -/
def cString (piece : Text) : Text := piece.takeWhile fun c => c ≠ '\x00'

/-- The first inner loop. -/
def countBraces : Int → Text → Option Int
  | braceLevel, [] => some braceLevel
  | braceLevel, c :: line =>
      if c = '{' then
        if braceLevel = INT_MAX then none else countBraces (braceLevel + 1) line
      else if c = '}' then
        if braceLevel = INT_MIN then none else countBraces (braceLevel - 1) line
      else countBraces braceLevel line

def isEmpty (line : Text) : Bool := line.all isspace

/-- The loop over the pieces; what is written to the temporary file. -/
def copyLines : Int → List Text → Option Text
  | _, [] => some []
  | braceLevel, piece :: rest =>
      let line := cString piece
      match countBraces braceLevel line with
      | none => none
      | some braceLevel =>
          (copyLines braceLevel rest).map fun out =>
            (if 0 < braceLevel ∧ isEmpty line then [] else line) ++ out

/-- The files after a run on `path`; `renames` says whether `rename` succeeds, which it
cannot where there is nothing to rename. -/
def main (path : String) (renames : Bool) (files : String → Option Text) :
    Option (String → Option Text) :=
  match files path with
  | none => some files
  | some _ =>
      -- opening the temporary file empties it, also where it is the file itself
      let files := Function.update files tempFile (some [])
      (copyLines 0 (pieces ((files path).getD []))).map fun out =>
        let files := Function.update (Function.update files tempFile (some out)) path none
        match files tempFile with
        | some copied =>
            if renames then
              Function.update (Function.update files tempFile none) path (some copied)
            else files
        | none => files

/-! ## What it is meant to do -/

/-- The lines of a text, each with its line break. -/
def wholeLines : Text → List Text
  | [] => []
  | c :: text =>
      if c = '\n' then [c] :: wholeLines text
      else
        match wholeLines text with
        | [] => [[c]]
        | line :: lines => (c :: line) :: lines

/-- By how many more braces a text opens than it closes. -/
def braces (text : Text) : Int := text.count '{' - text.count '}'

/-- The chunks that are not blank, and those with no more braces opened than closed
before them. -/
def kept : Int → List Text → List Text
  | _, [] => []
  | level, chunk :: rest =>
      if 0 < level ∧ isEmpty chunk then kept level rest
      else chunk :: kept (level + braces chunk) rest

def cleaned (text : Text) : Text := (kept 0 (wholeLines text)).flatten

/-! ## Pieces and lines -/

section

variable {size room : ℕ} {piece text line rest : Text}

theorem fgetsFrom_append_line (hline : ∀ c ∈ line, isLineFeed c = false) (rest : Text) :
    fgetsFrom size room piece (line ++ '\n' :: rest) =
      fgetsFrom size room piece (line ++ ['\n']) ++ fgetsFrom size size [] rest := by
  induction line generalizing room piece with
  | nil => simp [fgetsFrom]
  | cons c line ih =>
      obtain ⟨hc, hrest⟩ := List.forall_mem_cons.mp hline
      have hc' : c ≠ '\n' := by simpa [isLineFeed] using hc
      rw [List.cons_append, List.cons_append, fgetsFrom, fgetsFrom]
      by_cases hroom : room ≤ 1
      · rw [if_pos (Or.inr hroom), if_pos (Or.inr hroom), ih hrest]
        rfl
      · rw [if_neg (by simp [hc', hroom]), if_neg (by simp [hc', hroom]), ih hrest]

theorem wholeLines_append_line (hline : ∀ c ∈ line, isLineFeed c = false) (rest : Text) :
    wholeLines (line ++ '\n' :: rest) = (line ++ ['\n']) :: wholeLines rest := by
  induction line with
  | nil => simp [wholeLines]
  | cons c line ih =>
      obtain ⟨hc, hrest⟩ := List.forall_mem_cons.mp hline
      have hc' : c ≠ '\n' := by simpa [isLineFeed] using hc
      rw [List.cons_append, wholeLines, if_neg hc', ih hrest]
      rfl

theorem wholeLines_of_unterminated (htext : ∀ c ∈ text, isLineFeed c = false) :
    wholeLines text = if text = [] then [] else [text] := by
  induction text with
  | nil => rfl
  | cons c text ih =>
      obtain ⟨hc, hrest⟩ := List.forall_mem_cons.mp htext
      have hc' : c ≠ '\n' := by simpa [isLineFeed] using hc
      rw [wholeLines, if_neg hc', ih hrest]
      cases text <;> rfl

/-- `fgets` never reads past the end of a line. -/
theorem pieces_eq_flatMap (text : Text) : pieces text = (wholeLines text).flatMap pieces := by
  induction text using LineFraming.line_induction isLineFeed with
  | unterminated text hnone =>
      rw [wholeLines_of_unterminated hnone]
      split
      · rename_i hempty
        subst hempty
        rfl
      · simp
  | line line newline rest hline hnewline ih =>
      obtain rfl : newline = '\n' := by simpa [isLineFeed] using hnewline
      rw [wholeLines_append_line hline, List.flatMap_cons, ← ih]
      exact fgetsFrom_append_line hline rest

theorem flatten_fgetsFrom (size room : ℕ) (piece text : Text) :
    (fgetsFrom size room piece text).flatten = piece ++ text := by
  induction text generalizing room piece with
  | nil =>
      rw [fgetsFrom]
      split <;> simp_all
  | cons c text ih =>
      rw [fgetsFrom]
      split
      · rw [List.flatten_cons, ih]
        simp
      · rw [ih]
        simp

theorem flatten_pieces (text : Text) : (pieces text).flatten = text :=
  flatten_fgetsFrom _ _ _ text

theorem ne_nil_of_mem_fgetsFrom {p : Text} (hp : p ∈ fgetsFrom size room piece text) :
    p ≠ [] := by
  induction text generalizing room piece with
  | nil =>
      rw [fgetsFrom] at hp
      split at hp
      · simp at hp
      · rename_i hpiece
        obtain rfl := List.mem_singleton.mp hp
        exact hpiece
  | cons c text ih =>
      rw [fgetsFrom] at hp
      split at hp
      · rcases List.mem_cons.mp hp with rfl | hp
        · simp
        · exact ih hp
      · exact ih hp

end

/-! ## Counting braces -/

/-- Counting on from `level`, the count stays in the range of an `int`. -/
def InRange (level : Int) (text : Text) : Prop :=
  ∀ front, front <+: text →
    INT_MIN ≤ level + braces front ∧ level + braces front ≤ INT_MAX

section

variable {level after : Int} {c : Char} {line text : Text} {chunks lines : List Text}

@[simp] theorem braces_nil : braces [] = 0 := rfl

theorem braces_append (text more : Text) : braces (text ++ more) = braces text + braces more := by
  unfold braces
  rw [List.count_append, List.count_append]
  omega

theorem braces_cons (c : Char) (text : Text) : braces (c :: text) = braces [c] + braces text :=
  braces_append [c] text

theorem braces_of_isEmpty (hline : isEmpty line = true) : braces line = 0 := by
  have hnone : ∀ c, isspace c = false → line.count c = 0 := by
    intro c hc
    rw [List.count_eq_zero]
    intro hmem
    rw [List.all_eq_true.mp hline c hmem] at hc
    contradiction
  unfold braces
  rw [hnone '{' rfl, hnone '}' rfl]
  rfl

theorem InRange.here (hrange : InRange level text) : INT_MIN ≤ level ∧ level ≤ INT_MAX := by
  simpa using hrange [] List.nil_prefix

theorem inRange_nil_iff : InRange level [] ↔ INT_MIN ≤ level ∧ level ≤ INT_MAX := by
  refine ⟨InRange.here, fun hlevel front hfront => ?_⟩
  rw [List.prefix_nil.mp hfront]
  simpa using hlevel

theorem inRange_cons :
    InRange level (c :: text) ↔
      (INT_MIN ≤ level ∧ level ≤ INT_MAX) ∧ InRange (level + braces [c]) text := by
  constructor
  · intro hrange
    refine ⟨hrange.here, fun front hfront => ?_⟩
    have hlong := hrange (c :: front) (List.cons_prefix_cons.mpr ⟨rfl, hfront⟩)
    rwa [braces_cons, ← Int.add_assoc] at hlong
  · rintro ⟨hlevel, htext⟩ front hfront
    cases front with
    | nil => simpa using hlevel
    | cons d front =>
        obtain ⟨rfl, hrest⟩ := List.cons_prefix_cons.mp hfront
        rw [braces_cons, ← Int.add_assoc]
        exact htext front hrest

theorem inRange_append :
    InRange level (line ++ text) ↔ InRange level line ∧ InRange (level + braces line) text := by
  induction line generalizing level with
  | nil =>
      rw [List.nil_append, inRange_nil_iff, braces_nil, Int.add_zero]
      exact ⟨fun h => ⟨h.here, h⟩, fun h => h.2⟩
  | cons c line ih =>
      rw [List.cons_append, inRange_cons, inRange_cons, ih, braces_cons c line, ← Int.add_assoc]
      exact and_assoc.symm

theorem countBraces_eq_some_iff (hlevel : INT_MIN ≤ level ∧ level ≤ INT_MAX) :
    countBraces level text = some after ↔ InRange level text ∧ after = level + braces text := by
  induction text generalizing level with
  | nil =>
      rw [countBraces, inRange_nil_iff, braces_nil, Int.add_zero, Option.some.injEq]
      exact ⟨fun h => ⟨hlevel, h.symm⟩, fun h => h.2.symm⟩
  | cons c text ih =>
      rw [countBraces, inRange_cons, braces_cons c text, ← Int.add_assoc]
      by_cases hopen : c = '{'
      · have hone : braces [c] = 1 := by rw [hopen]; rfl
        rw [if_pos hopen, hone]
        split
        · rename_i hmax
          refine iff_of_false nofun fun h => ?_
          have hhere := h.1.2.here
          omega
        · rename_i hmax
          rw [ih (by omega), and_iff_right hlevel]
      · rw [if_neg hopen]
        by_cases hclose : c = '}'
        · have hone : braces [c] = -1 := by rw [hclose]; rfl
          rw [if_pos hclose, hone]
          split
          · rename_i hmin
            refine iff_of_false nofun fun h => ?_
            have hhere := h.1.2.here
            omega
          · rename_i hmin
            rw [ih (by omega), and_iff_right hlevel, Int.sub_eq_add_neg]
        · have hnone : braces [c] = 0 := by simp [braces, hopen, hclose]
          rw [if_neg hclose, hnone, Int.add_zero, ih hlevel, and_iff_right hlevel]

/-! ## The loop -/

theorem kept_cons (level : Int) (chunk : Text) (chunks : List Text) :
    (kept level (chunk :: chunks)).flatten =
      (if 0 < level ∧ isEmpty chunk then [] else chunk) ++
        (kept (level + braces chunk) chunks).flatten := by
  rw [kept]
  split
  · rename_i hdropped
    rw [braces_of_isEmpty hdropped.2, Int.add_zero]
    rfl
  · rfl

theorem cString_eq {piece : Text} (hnul : '\x00' ∉ piece) : cString piece = piece := by
  unfold cString
  rw [List.takeWhile_eq_self_iff]
  intro c hc
  simpa using fun h : c = '\x00' => hnul (h ▸ hc)

/-- Without overflow the loop keeps chunks by the same rule. -/
theorem copyLines_eq_some_iff {out : Text} (hlevel : INT_MIN ≤ level ∧ level ≤ INT_MAX)
    (hnul : ∀ chunk ∈ chunks, '\x00' ∉ chunk) :
    copyLines level chunks = some out ↔
      InRange level chunks.flatten ∧ out = (kept level chunks).flatten := by
  induction chunks generalizing level out with
  | nil =>
      rw [copyLines, Option.some.injEq]
      exact ⟨fun h => ⟨inRange_nil_iff.mpr hlevel, h.symm⟩, fun h => h.2.symm⟩
  | cons chunk chunks ih =>
      obtain ⟨hchunk, hrest⟩ := List.forall_mem_cons.mp hnul
      rw [copyLines, cString_eq hchunk, List.flatten_cons, inRange_append, kept_cons]
      cases hcount : countBraces level chunk with
      | none =>
          refine iff_of_false nofun fun h => ?_
          have hsome := (countBraces_eq_some_iff hlevel).mpr ⟨h.1.1, rfl⟩
          rw [hcount] at hsome
          contradiction
      | some after =>
          obtain ⟨hrange, rfl⟩ := (countBraces_eq_some_iff hlevel).mp hcount
          have hafter : INT_MIN ≤ level + braces chunk ∧ level + braces chunk ≤ INT_MAX :=
            hrange chunk (List.prefix_refl chunk)
          have hsame : (if 0 < level + braces chunk ∧ isEmpty chunk then ([] : Text) else chunk) =
              if 0 < level ∧ isEmpty chunk then [] else chunk := by
            by_cases hempty : isEmpty chunk = true
            · rw [braces_of_isEmpty hempty, Int.add_zero]
            · rw [if_neg fun h => hempty h.2, if_neg fun h => hempty h.2]
          dsimp only
          rw [hsame, Option.map_eq_some_iff, and_iff_right hrange]
          constructor
          · rintro ⟨rest, hcopy, rfl⟩
            obtain ⟨hrange', rfl⟩ := (ih hafter hrest).mp hcopy
            exact ⟨hrange', rfl⟩
          · rintro ⟨hrange', rfl⟩
            exact ⟨_, (ih hafter hrest).mpr ⟨hrange', rfl⟩, rfl⟩

/-! ## Which chunks make a difference -/

/-- No blank chunk stands where more braces are opened than closed. -/
def NoneDropped (level : Int) (chunks : List Text) : Prop :=
  ∀ front chunk back, chunks = front ++ chunk :: back → isEmpty chunk = true →
    level + braces front.flatten ≤ 0

/-- Every line that is not blank keeps all its pieces. -/
def LinesWhole (level : Int) (lines : List Text) : Prop :=
  ∀ before line after, lines = before ++ line :: after → isEmpty line = false →
    NoneDropped (level + braces before.flatten) (pieces line)

theorem noneDropped_cons {chunk : Text} :
    NoneDropped level (chunk :: chunks) ↔
      (isEmpty chunk = true → level ≤ 0) ∧ NoneDropped (level + braces chunk) chunks := by
  constructor
  · intro hnone
    refine ⟨fun hempty => by simpa using hnone [] chunk chunks rfl hempty, ?_⟩
    intro front other back hchunks hempty
    have hlevel := hnone (chunk :: front) other back (by rw [hchunks]; rfl) hempty
    rwa [List.flatten_cons, braces_append, ← Int.add_assoc] at hlevel
  · rintro ⟨hfirst, hrest⟩ front other back hchunks hempty
    cases front with
    | nil =>
        obtain ⟨rfl, -⟩ := List.cons.inj hchunks
        simpa using hfirst hempty
    | cons first front =>
        obtain ⟨rfl, hback⟩ := List.cons.inj hchunks
        rw [List.flatten_cons, braces_append, ← Int.add_assoc]
        exact hrest front other back hback hempty

theorem linesWhole_cons :
    LinesWhole level (line :: lines) ↔
      (isEmpty line = false → NoneDropped level (pieces line)) ∧
        LinesWhole (level + braces line) lines := by
  constructor
  · intro hwhole
    refine ⟨fun hink => by simpa using hwhole [] line lines rfl hink, ?_⟩
    intro before other after hlines hink
    have hnone := hwhole (line :: before) other after (by rw [hlines]; rfl) hink
    rwa [List.flatten_cons, braces_append, ← Int.add_assoc] at hnone
  · rintro ⟨hfirst, hrest⟩ before other after hlines hink
    cases before with
    | nil =>
        obtain ⟨rfl, -⟩ := List.cons.inj hlines
        simpa using hfirst hink
    | cons first before =>
        obtain ⟨rfl, hafter⟩ := List.cons.inj hlines
        rw [List.flatten_cons, braces_append, ← Int.add_assoc]
        exact hrest before other after hafter hink

theorem length_kept_le (level : Int) (chunks : List Text) :
    (kept level chunks).flatten.length ≤ chunks.flatten.length := by
  induction chunks generalizing level with
  | nil => exact Nat.le_refl _
  | cons chunk chunks ih =>
      have hrest := ih (level + braces chunk)
      rw [kept_cons, List.flatten_cons, List.length_append, List.length_append]
      split
      · simp only [List.length_nil]
        omega
      · omega

theorem flatten_kept_eq_iff (hne : ∀ chunk ∈ chunks, chunk ≠ []) :
    (kept level chunks).flatten = chunks.flatten ↔ NoneDropped level chunks := by
  induction chunks generalizing level with
  | nil => exact iff_of_true rfl (fun front _ _ h => by simp at h)
  | cons chunk chunks ih =>
      obtain ⟨hchunk, hrest⟩ := List.forall_mem_cons.mp hne
      rw [kept_cons, noneDropped_cons, List.flatten_cons]
      split
      · rename_i hdropped
        refine iff_of_false (fun heq => ?_) fun h => absurd (h.1 hdropped.2) (by omega)
        have hlength := congrArg List.length heq
        have hshort := length_kept_le (level + braces chunk) chunks
        have hpos := List.length_pos_of_ne_nil hchunk
        simp only [List.nil_append, List.length_append] at hlength
        omega
      · rename_i hkept
        rw [List.append_cancel_left_eq, ih hrest]
        refine (and_iff_right fun hempty => ?_).symm
        by_contra hlevel
        exact hkept ⟨by omega, hempty⟩

theorem kept_append (level : Int) (chunks more : List Text) :
    (kept level (chunks ++ more)).flatten =
      (kept level chunks).flatten ++ (kept (level + braces chunks.flatten) more).flatten := by
  induction chunks generalizing level with
  | nil => simp [kept]
  | cons chunk chunks ih =>
      rw [List.cons_append, kept_cons, kept_cons, ih, List.flatten_cons, braces_append,
        Int.add_assoc, List.append_assoc]

/-- All pieces of a blank line are blank. -/
theorem kept_of_isEmpty (hchunks : ∀ chunk ∈ chunks, isEmpty chunk = true) :
    (kept level chunks).flatten = if 0 < level then [] else chunks.flatten := by
  induction chunks with
  | nil => simp [kept]
  | cons chunk chunks ih =>
      obtain ⟨hchunk, hrest⟩ := List.forall_mem_cons.mp hchunks
      rw [kept_cons, braces_of_isEmpty hchunk, Int.add_zero, ih hrest]
      by_cases hlevel : 0 < level <;> simp [hlevel, hchunk]

theorem isEmpty_of_mem_pieces {piece : Text} (hpiece : piece ∈ pieces line)
    (hline : isEmpty line = true) : isEmpty piece = true := by
  unfold isEmpty at hline ⊢
  rw [List.all_eq_true] at hline ⊢
  intro c hc
  apply hline
  rw [← flatten_pieces line]
  exact List.mem_flatten.mpr ⟨piece, hpiece, hc⟩

/-- What the loop writes of one line is what is kept of it, unless a piece of it is
taken for a blank line. -/
theorem kept_pieces_line (level : Int) (line : Text) :
    (kept level (pieces line)).flatten.length ≤
        (if 0 < level ∧ isEmpty line then [] else line).length ∧
      ((kept level (pieces line)).flatten = (if 0 < level ∧ isEmpty line then [] else line) ↔
        (isEmpty line = false → NoneDropped level (pieces line))) := by
  by_cases hempty : isEmpty line = true
  · have hkept : (kept level (pieces line)).flatten = _ :=
      kept_of_isEmpty fun piece hpiece => isEmpty_of_mem_pieces hpiece hempty
    rw [hkept, flatten_pieces]
    simp [hempty]
  · rw [if_neg fun h => hempty h.2]
    have hlength := length_kept_le level (pieces line)
    have hwhole : (kept level (pieces line)).flatten = (pieces line).flatten ↔
        NoneDropped level (pieces line) :=
      flatten_kept_eq_iff fun piece hpiece => ne_nil_of_mem_fgetsFrom hpiece
    rw [flatten_pieces] at hlength hwhole
    refine ⟨hlength, hwhole.trans ?_⟩
    simp [hempty]

theorem kept_pieces_iff (level : Int) (lines : List Text) :
    (kept level (lines.flatMap pieces)).flatten.length ≤ (kept level lines).flatten.length ∧
      ((kept level (lines.flatMap pieces)).flatten = (kept level lines).flatten ↔
        LinesWhole level lines) := by
  induction lines generalizing level with
  | nil => exact ⟨Nat.le_refl _, iff_of_true rfl fun before _ _ h => by simp at h⟩
  | cons line lines ih =>
      obtain ⟨hshort, hsame⟩ := kept_pieces_line level line
      obtain ⟨hshorter, hrest⟩ := ih (level + braces line)
      rw [List.flatMap_cons, kept_append, flatten_pieces, kept_cons, linesWhole_cons, ← hsame,
        ← hrest, List.length_append, List.length_append]
      refine ⟨Nat.add_le_add hshort hshorter, fun heq => ?_, fun ⟨hline, hlines⟩ => by
        rw [hline, hlines]⟩
      -- neither part is longer, so both have the same length
      have hlength := congrArg List.length heq
      rw [List.length_append, List.length_append] at hlength
      exact List.append_inj heq (by omega)

/-! ## The rewritten file -/

variable {path : String} {renames : Bool} {files : String → Option Text}

/-- The file is there afterwards, cleaned. -/
def Rewrites (path : String) (renames : Bool) (files : String → Option Text) (text : Text) :
    Prop :=
  ∃ after, main path renames files = some after ∧ after path = some (cleaned text)

/-- The temporary file is another one and takes the place of the file, the count of
braces fits an `int`, and no piece of a line that is not blank is taken for a blank
line. -/
structure Rewritable (path : String) (renames : Bool) (text : Text) : Prop where
  otherFile : path ≠ tempFile
  renames : renames = true
  inRange : InRange 0 text
  whole : LinesWhole 0 (wholeLines text)

theorem main_otherFile (hfile : files path = some text) (hother : path ≠ tempFile) :
    main path renames files = (copyLines 0 (pieces text)).map fun out =>
      let files := Function.update (Function.update (Function.update files tempFile (some []))
        tempFile (some out)) path none
      if renames then Function.update (Function.update files tempFile none) path (some out)
      else files := by
  unfold main
  rw [hfile]
  dsimp only
  rw [Function.update_of_ne hother, hfile]
  refine congrArg (Option.map · _) (funext fun out => ?_)
  rw [Function.update_of_ne hother.symm, Function.update_self]

/-- The file itself is emptied, copied into nothing and removed. -/
theorem main_tempFile (hfile : files tempFile = some text) {after : String → Option Text}
    (hmain : main tempFile renames files = some after) : after tempFile = none := by
  unfold main at hmain
  rw [hfile] at hmain
  obtain ⟨out, -, rfl⟩ := Option.map_eq_some_iff.mp hmain
  simp

/-- A file is rewritten as intended exactly in these cases. -/
theorem rewrites_iff (hfile : files path = some text) (hnul : '\x00' ∉ text) :
    Rewrites path renames files text ↔ Rewritable path renames text := by
  have hpieces : ∀ piece ∈ pieces text, '\x00' ∉ piece := by
    intro piece hpiece hmem
    apply hnul
    rw [← flatten_pieces text]
    exact List.mem_flatten.mpr ⟨piece, hpiece, hmem⟩
  have hcopy (out : Text) : copyLines 0 (pieces text) = some out ↔
      InRange 0 (pieces text).flatten ∧ out = (kept 0 (pieces text)).flatten :=
    copyLines_eq_some_iff (by decide) hpieces
  have hwhole := (kept_pieces_iff 0 (wholeLines text)).2
  rw [← pieces_eq_flatMap] at hwhole
  constructor
  · rintro ⟨after, hmain, hafter⟩
    have hother : path ≠ tempFile := by
      rintro rfl
      rw [main_tempFile hfile hmain] at hafter
      contradiction
    rw [main_otherFile hfile hother] at hmain
    obtain ⟨out, hout, rfl⟩ := Option.map_eq_some_iff.mp hmain
    cases renames with
    | false => simp at hafter
    | true =>
        obtain ⟨hrange, rfl⟩ := (hcopy out).mp hout
        rw [flatten_pieces] at hrange
        refine ⟨hother, rfl, hrange, hwhole.mp ?_⟩
        simpa [cleaned] using hafter
  · rintro ⟨hother, rfl, hrange, hlines⟩
    have hout := (hcopy _).mpr ⟨(flatten_pieces text).symm ▸ hrange, rfl⟩
    refine ⟨_, (main_otherFile hfile hother).trans (congrArg _ hout), ?_⟩
    simp [hwhole.mpr hlines, cleaned]

end

/-! ## Two files -/

/-- A brace and, on the next line, as much as one read takes. -/
def longLine : Text := ['{', '\n'] ++ List.replicate (MAX_LINE - 1) 'x' ++ ['\n', '}', '\n']

def onlyFile (text : Text) (path : String) : Option Text := if path = "a.c" then some text else none

def blankLine : Text := ['{', '\n', ' ', '\n', '}', '\n']

/-- A short blank line goes, and nothing else. -/
theorem blankLine_removed :
    cleaned blankLine = ['{', '\n', '}', '\n'] ∧ Rewritable "a.c" true blankLine := by
  have hfile : onlyFile blankLine "a.c" = some blankLine := rfl
  refine ⟨by decide, (rewrites_iff hfile (by decide)).mp ⟨_, rfl, ?_⟩⟩
  decide +kernel

/-- The line loses its break. -/
theorem longLine_joined :
    '\x00' ∉ longLine ∧
      (main "a.c" true (onlyFile longLine)).map (fun after => after "a.c") =
        some (some (['{', '\n'] ++ List.replicate (MAX_LINE - 1) 'x' ++ ['}', '\n'])) ∧
      cleaned longLine = longLine ∧ ¬ Rewrites "a.c" true (onlyFile longLine) longLine := by
  have hmain : (main "a.c" true (onlyFile longLine)).map (fun after => after "a.c") =
      some (some (['{', '\n'] ++ List.replicate (MAX_LINE - 1) 'x' ++ ['}', '\n'])) := by
    decide +kernel
  have hcleaned : cleaned longLine = longLine := by decide +kernel
  refine ⟨by decide +kernel, hmain, hcleaned, ?_⟩
  rintro ⟨after, hafter, hfile⟩
  rw [hafter, Option.map_some, hfile, hcleaned] at hmain
  have hlength := congrArg (fun result => (result.getD none).elim 0 List.length) hmain
  exact absurd hlength (by decide +kernel)

end CleanBetween

end AutomateLinux
