import AutomateLinux.LineFraming
import AutomateLinux.Utf8

/-!
# Annotated diffs

The git extension and a shell function turn the unified diff of two versions of a
file into the file's lines, marked as removed, added or unchanged.  Both tell the
lines of the diff apart by how they begin.  The diff is git's: a script of lines
behind the file's and the hunk's header, no hunk for equal versions, and a note instead
of one if git takes a version for binary.
-/

namespace AutomateLinux

namespace DiffAnnotation

open LineFraming

def isLineFeed (c : Char) : Bool := c = '\n'

/-- The lines, each with its line break. -/
def terminatedText (lines : List (List Char)) : List Char :=
  lines.flatMap fun line => line ++ ['\n']

/-! ## The diff of two versions -/

inductive Change
  | removed | added | unchanged
deriving DecidableEq

def Change.sign : Change → Char
  | .removed => '-'
  | .added => '+'
  | .unchanged => ' '

/-- A line of one version or of both, and whether a line break follows it there. -/
structure DiffLine where
  change : Change
  content : List Char
  terminated : Bool := true
deriving DecidableEq

def DiffLine.printed (line : DiffLine) : List (List Char) :=
  (line.change.sign :: line.content) ::
    if line.terminated then [] else ["\\ No newline at end of file".toList]

/-- A version's lines, among those of a script. -/
def version (absent : Change) (script : List DiffLine) : List (List Char × Bool) :=
  (script.filter fun line => line.change ≠ absent).map fun line =>
    (line.content, line.terminated)

def oldVersion : List DiffLine → List (List Char × Bool) := version .added

def newVersion : List DiffLine → List (List Char × Bool) := version .removed

/-- What `git diff -U999` has to say about a file of fewer than 999 lines in either
version: lines such as `index` or `new file mode`, the texts behind the marks of the
header lines, and the lines of the one hunk. -/
structure FileDiff where
  extended : List (List Char)
  fromFile : List Char
  toFile : List Char
  hunk : List Char
  script : List DiffLine
  lowerCase : ∀ line ∈ extended, line.head?.any Char.isLower = true
  oneLine : ∀ line ∈ fromFile :: toFile :: hunk :: extended ++ script.map DiffLine.content,
    ∀ c ∈ line, isLineFeed c = false
  short : (oldVersion script).length < 999 ∧ (newVersion script).length < 999
  equal : oldVersion script = newVersion script → ∀ line ∈ script, line.change = .unchanged

/-- What is in the file. -/
def versionText (lines : List (List Char × Bool)) : List Char :=
  lines.flatMap fun line => line.1 ++ if line.2 then ['\n'] else []

/-- git looks for a NUL among the first 8000 bytes. -/
def isBinary (lines : List (List Char × Bool)) : Bool :=
  ((Utf8.encode (versionText lines)).take 8000).contains 0

def FileDiff.binary (d : FileDiff) : Bool :=
  isBinary (oldVersion d.script) || isBinary (newVersion d.script)

def FileDiff.binaryNote (d : FileDiff) : List Char :=
  "Binary files ".toList ++ d.fromFile ++ (" and ".toList ++ d.toFile ++ " differ".toList)

/-- Equal versions have no hunk, nor have binary ones. -/
def FileDiff.printed (d : FileDiff) : List (List Char) :=
  if oldVersion d.script = newVersion d.script then d.extended
  else if d.binary then d.extended ++ [d.binaryNote]
  else
    d.extended ++
      ["--- ".toList ++ d.fromFile, "+++ ".toList ++ d.toFile, "@@ ".toList ++ d.hunk] ++
      d.script.flatMap DiffLine.printed

def FileDiff.stdout (d : FileDiff) : List Char := terminatedText d.printed

/-! ## The two annotators -/

/-- The `awk` program on a record, and the tests of the extension on a line: header
lines are skipped, then the first character decides. -/
def markLine (line : List Char) : Option (List Char) :=
  if ['@', '@'] <+: line ∨ ['-', '-', '-'] <+: line ∨ ['+', '+', '+'] <+: line then none
  else
    match line with
    | '-' :: content => some (content ++ " //remove".toList)
    | '+' :: content => some ("//".toList ++ content ++ " //add".toList)
    | ' ' :: content => some content
    | _ => none

/-- The extension keeps an empty line as well. -/
def annotateLine (line : List Char) : Option (List Char) :=
  if line = [] then some [] else markLine line

def maxBuffer : ℕ := 10 * 1024 * 1024

/-- Rejected if the output does not fit; else `split('\n')` and `join('\n')`. -/
def annotateDiffChanges (stdout : List Char) : Option (List Char) :=
  if maxBuffer < (Utf8.encode stdout).length then none
  else
    some (List.intercalate ['\n']
      ((lines isLineFeed stdout ++ [remainder isLineFeed stdout]).filterMap annotateLine))

/-- The records of `awk` are the lines, the last one with or without a line break. -/
def gitAnnotateChanges (stdout : List Char) : List Char :=
  let last := remainder isLineFeed stdout
  terminatedText
    ((lines isLineFeed stdout ++ if last = [] then [] else [last]).filterMap markLine)

/-! ## What they are meant to show -/

def DiffLine.marked (line : DiffLine) : List Char :=
  match line.change with
  | .removed => line.content ++ " //remove".toList
  | .added => "//".toList ++ line.content ++ " //add".toList
  | .unchanged => line.content

/-- The lines with line breaks between them, and perhaps one behind the last. -/
def IsTextOf (text : List Char) (lines : List (List Char)) : Prop :=
  text = List.intercalate ['\n'] lines ∨ text = terminatedText lines

/-- Both show every line of the versions, marked, and nothing else. -/
structure AnnotatesAll (d : FileDiff) : Prop where
  extension : ∃ text, annotateDiffChanges d.stdout = some text ∧
    IsTextOf text (d.script.map DiffLine.marked)
  shell : IsTextOf (gitAnnotateChanges d.stdout) (d.script.map DiffLine.marked)

/-- Printed with its sign, the line begins like a header line. -/
def DiffLine.LooksLikeHeader (line : DiffLine) : Prop :=
  line.change = .removed ∧ ['-', '-'] <+: line.content ∨
    line.change = .added ∧ ['+', '+'] <+: line.content

instance (line : DiffLine) : Decidable line.LooksLikeHeader :=
  inferInstanceAs (Decidable (_ ∨ _))

/-! ## What they show -/

section

variable {line : DiffLine} {script : List DiffLine} {d : FileDiff}

theorem markLine_sign (line : DiffLine) :
    markLine (line.change.sign :: line.content) =
      if line.LooksLikeHeader then none else some line.marked := by
  obtain ⟨change, content, terminated⟩ := line
  unfold markLine DiffLine.LooksLikeHeader
  cases change with
  | removed =>
      have hskip : (['@', '@'] <+: '-' :: content ∨ ['-', '-', '-'] <+: '-' :: content ∨
          ['+', '+', '+'] <+: '-' :: content) ↔ ['-', '-'] <+: content := by simp
      simp only [Change.sign, hskip]
      split <;> simp_all [DiffLine.marked]
  | added =>
      have hskip : (['@', '@'] <+: '+' :: content ∨ ['-', '-', '-'] <+: '+' :: content ∨
          ['+', '+', '+'] <+: '+' :: content) ↔ ['+', '+'] <+: content := by simp
      simp only [Change.sign, hskip]
      split <;> simp_all [DiffLine.marked]
  | unchanged => simp [Change.sign, DiffLine.marked]

theorem markLine_printed (line : DiffLine) :
    line.printed.filterMap markLine =
      if line.LooksLikeHeader then [] else [line.marked] := by
  have hnote : (if line.terminated then [] else
      ["\\ No newline at end of file".toList]).filterMap markLine = [] := by
    split <;> decide
  have hmark := markLine_sign line
  unfold DiffLine.printed
  by_cases hheader : line.LooksLikeHeader
  · rw [if_pos hheader] at hmark ⊢
    rw [List.filterMap_cons_none hmark, hnote]
  · rw [if_neg hheader] at hmark ⊢
    rw [List.filterMap_cons_some hmark, hnote]

/-- The lines that are not lost. -/
theorem filterMap_markLine_script (script : List DiffLine) :
    (script.flatMap DiffLine.printed).filterMap markLine =
      (script.filter fun line => ¬ line.LooksLikeHeader).map DiffLine.marked := by
  induction script with
  | nil => rfl
  | cons line script ih =>
      rw [List.flatMap_cons, List.filterMap_append, markLine_printed, ih]
      by_cases hheader : line.LooksLikeHeader
      · rw [if_pos hheader, List.filter_cons_of_neg (by simpa using hheader)]
        rfl
      · rw [if_neg hheader, List.filter_cons_of_pos (by simpa using hheader)]
        rfl

theorem markLine_of_lowerCase {line : List Char} (hline : line.head?.any Char.isLower = true) :
    markLine line = none := by
  cases line with
  | nil => rfl
  | cons c rest =>
      have hlower : c.isLower = true := hline
      have hne : c ≠ '-' ∧ c ≠ '+' ∧ c ≠ ' ' := by
        refine ⟨?_, ?_, ?_⟩ <;> rintro rfl <;> exact absurd hlower (by decide)
      unfold markLine
      split
      · rfl
      · simp_all

theorem markLine_header {mark : List Char}
    (hmark : ['@', '@'] <+: mark ∨ ['-', '-', '-'] <+: mark ∨ ['+', '+', '+'] <+: mark)
    (text : List Char) : markLine (mark ++ text) = none := by
  have hstart : mark <+: mark ++ text := List.prefix_append mark text
  exact if_pos (hmark.imp (·.trans hstart) (Or.imp (·.trans hstart) (·.trans hstart)))

theorem markLine_binaryNote (d : FileDiff) : markLine d.binaryNote = none := by
  unfold FileDiff.binaryNote markLine
  simp

theorem filterMap_markLine_printed (d : FileDiff) :
    d.printed.filterMap markLine =
      if oldVersion d.script = newVersion d.script then []
      else if d.binary then []
      else (d.script.filter fun line => ¬ line.LooksLikeHeader).map DiffLine.marked := by
  have hextended : d.extended.filterMap markLine = [] := by
    rw [List.filterMap_eq_nil_iff]
    exact fun line hline => markLine_of_lowerCase (d.lowerCase line hline)
  unfold FileDiff.printed
  split
  · exact hextended
  · split
    · rw [List.filterMap_append, hextended, List.filterMap_cons_none (markLine_binaryNote d)]
      rfl
    rw [List.filterMap_append, List.filterMap_append, hextended, filterMap_markLine_script,
      List.filterMap_cons_none (markLine_header (by decide) _),
      List.filterMap_cons_none (markLine_header (by decide) _),
      List.filterMap_cons_none (markLine_header (by decide) _)]
    rfl

theorem oneLine_of_all {text : List Char} (htext : (text.all fun c => !isLineFeed c) = true) :
    ∀ c ∈ text, isLineFeed c = false := by
  intro c hc
  simpa using List.all_eq_true.mp htext c hc

theorem oneLine_printed (d : FileDiff) :
    ∀ line ∈ d.printed, ∀ c ∈ line, isLineFeed c = false := by
  have hplain := d.oneLine
  simp only [List.cons_append, List.forall_mem_cons, List.forall_mem_append,
    List.forall_mem_map] at hplain
  obtain ⟨hfrom, hto, hhunk, hextended, hscript⟩ := hplain
  have hheader : ∀ mark text : List Char, (∀ c ∈ mark, isLineFeed c = false) →
      (∀ c ∈ text, isLineFeed c = false) → ∀ c ∈ mark ++ text, isLineFeed c = false :=
    fun mark text hmark htext => List.forall_mem_append.mpr ⟨hmark, htext⟩
  unfold FileDiff.printed
  split
  · exact hextended
  · split
    · unfold FileDiff.binaryNote
      simp only [List.forall_mem_append, List.forall_mem_singleton]
      exact ⟨hextended, ⟨oneLine_of_all rfl, hfrom⟩, ⟨oneLine_of_all rfl, hto⟩, oneLine_of_all rfl⟩
    rw [List.append_assoc, List.forall_mem_append, List.forall_mem_append]
    refine ⟨hextended, ?_, ?_⟩
    · simp only [List.forall_mem_cons, List.not_mem_nil, IsEmpty.forall_iff, implies_true,
        and_true]
      exact ⟨hheader _ _ (oneLine_of_all rfl) hfrom, hheader _ _ (oneLine_of_all rfl) hto,
        hheader _ _ (oneLine_of_all rfl) hhunk⟩
    · intro text htext
      obtain ⟨line, hline, hprinted⟩ := List.mem_flatMap.mp htext
      rcases List.mem_cons.mp hprinted with rfl | hnote
      · rw [List.forall_mem_cons]
        exact ⟨by cases line.change <;> rfl, hscript line hline⟩
      · split at hnote
        · simp at hnote
        · obtain rfl := List.mem_singleton.mp hnote
          exact oneLine_of_all rfl

theorem split_stdout (d : FileDiff) :
    lines isLineFeed d.stdout = d.printed ∧ remainder isLineFeed d.stdout = [] := by
  have hsplit := split_flatMap_line (oneLine_printed d) (show isLineFeed '\n' = true from rfl)
  exact ⟨congrArg Prod.fst hsplit, congrArg Prod.snd hsplit⟩

theorem gitAnnotateChanges_stdout (d : FileDiff) :
    gitAnnotateChanges d.stdout = terminatedText (d.printed.filterMap markLine) := by
  obtain ⟨hlines, hremainder⟩ := split_stdout d
  unfold gitAnnotateChanges
  rw [hlines, hremainder]
  dsimp only
  rw [if_pos rfl, List.append_nil]

theorem intercalate_append_nil (texts : List (List Char)) :
    List.intercalate ['\n'] (texts ++ [[]]) = terminatedText texts := by
  induction texts with
  | nil => rfl
  | cons text texts ih =>
      have hnext : texts ++ [[]] ≠ [] := by simp
      obtain ⟨next, rest, hrest⟩ := List.exists_cons_of_ne_nil hnext
      rw [List.cons_append, hrest, List.intercalate_cons_cons, ← hrest, ih]
      rfl

theorem ne_nil_of_mem_printed {line : List Char} (hline : line ∈ d.printed) : line ≠ [] := by
  rintro rfl
  unfold FileDiff.printed at hline
  split at hline
  · exact absurd (d.lowerCase [] hline) (by decide)
  · split at hline
    · rcases List.mem_append.mp hline with hextended | hnote
      · exact absurd (d.lowerCase [] hextended) (by decide)
      · have hne : d.binaryNote ≠ [] := List.append_ne_nil_of_left_ne_nil
          (List.append_ne_nil_of_left_ne_nil (by decide) _) _
        exact hne (List.mem_singleton.mp hnote).symm
    rcases List.mem_append.mp hline with hheader | hscript
    · rcases List.mem_append.mp hheader with hextended | hmark
      · exact absurd (d.lowerCase [] hextended) (by decide)
      · simp at hmark
    · obtain ⟨line, -, hprinted⟩ := List.mem_flatMap.mp hscript
      rcases List.mem_cons.mp hprinted with hsign | hnote
      · contradiction
      · split at hnote <;> simp at hnote

theorem annotateDiffChanges_stdout (d : FileDiff) :
    annotateDiffChanges d.stdout =
      if maxBuffer < (Utf8.encode d.stdout).length then none
      else some (terminatedText (d.printed.filterMap markLine)) := by
  obtain ⟨hlines, hremainder⟩ := split_stdout d
  have hsame : d.printed.filterMap annotateLine = d.printed.filterMap markLine :=
    List.filterMap_congr fun line hline => if_neg (ne_nil_of_mem_printed hline)
  have hend : [[]].filterMap annotateLine = [[]] := rfl
  unfold annotateDiffChanges
  rw [hlines, hremainder, List.filterMap_append, hsame, hend, intercalate_append_nil]

/-! ## When no line is lost -/

theorem length_le_of_isTextOf {text : List Char} {marked : List (List Char)}
    (htext : IsTextOf text marked) : (terminatedText marked).length ≤ text.length + 1 := by
  rcases htext with rfl | rfl
  · induction marked with
    | nil => simp [terminatedText]
    | cons line marked ih =>
        cases marked with
        | nil => simp [terminatedText]
        | cons next marked =>
            rw [List.intercalate_cons_cons]
            unfold terminatedText at ih ⊢
            rw [List.flatMap_cons, List.length_append]
            simp only [List.length_append, List.length_singleton]
            omega
  · omega

theorem length_filter_le (keep : DiffLine → Bool) (script : List DiffLine) :
    (terminatedText ((script.filter keep).map DiffLine.marked)).length ≤
      (terminatedText (script.map DiffLine.marked)).length := by
  induction script with
  | nil => exact Nat.le_refl _
  | cons line script ih =>
      unfold terminatedText at ih ⊢
      by_cases hkeep : keep line = true
      · rw [List.filter_cons_of_pos hkeep, List.map_cons, List.map_cons, List.flatMap_cons,
          List.flatMap_cons]
        simp only [List.length_append] at ih ⊢
        omega
      · rw [List.filter_cons_of_neg hkeep, List.map_cons, List.flatMap_cons, List.length_append]
        omega

/-- A line that is left out is missed: its mark alone is longer than a line break. -/
theorem forall_of_isTextOf_filter {keep : DiffLine → Bool}
    (hlong : ∀ line ∈ script, keep line = false → line.marked ≠ [])
    (htext : IsTextOf (terminatedText ((script.filter keep).map DiffLine.marked))
      (script.map DiffLine.marked)) : ∀ line ∈ script, keep line = true := by
  have hlength := length_le_of_isTextOf htext
  clear htext
  by_contra hlost
  push Not at hlost
  obtain ⟨line, hline, hkeep⟩ := hlost
  have hkeep' : keep line = false := by simpa using hkeep
  obtain ⟨before, after, rfl⟩ := List.append_of_mem hline
  have hbefore := length_filter_le keep before
  have hafter := length_filter_le keep after
  have hmark := List.length_pos_of_ne_nil (hlong line hline hkeep')
  unfold terminatedText at hlength hbefore hafter
  rw [List.filter_append, List.filter_cons_of_neg hkeep, List.map_append, List.map_append,
    List.map_cons, List.flatMap_append, List.flatMap_append, List.flatMap_cons] at hlength
  simp only [List.length_append, List.length_singleton] at hlength
  omega

theorem isTextOf_nil_iff {marked : List (List Char)} :
    IsTextOf [] marked ↔ marked = [] ∨ marked = [[]] := by
  constructor
  · intro htext
    have hlength := length_le_of_isTextOf htext
    match marked, hlength with
    | [], _ => exact Or.inl rfl
    | [[]], _ => exact Or.inr rfl
    | [_ :: _], hlength => simp [terminatedText] at hlength
    | _ :: _ :: _, hlength =>
        simp only [terminatedText, List.flatMap_cons, List.length_append, List.length_singleton,
          List.length_nil] at hlength
        omega
  · rintro (rfl | rfl)
    · exact Or.inl rfl
    · exact Or.inl rfl

/-- No line begins like a header line, git takes neither version for binary, the versions
differ (or there is nothing in them but perhaps an empty line), and the diff fits into the
extension's buffer. -/
structure ShownWhole (d : FileDiff) : Prop where
  plain : ∀ line ∈ d.script, ¬ line.LooksLikeHeader
  text : d.binary = false
  differ : oldVersion d.script = newVersion d.script →
    d.script.map DiffLine.content = [] ∨ d.script.map DiffLine.content = [[]]
  fits : (Utf8.encode d.stdout).length ≤ maxBuffer

theorem marked_of_equal (d : FileDiff) (hequal : oldVersion d.script = newVersion d.script) :
    d.script.map DiffLine.marked = d.script.map DiffLine.content := by
  refine List.map_congr_left fun line hline => ?_
  have hunchanged := d.equal hequal line hline
  unfold DiffLine.marked
  rw [hunchanged]

theorem isBinary_version {absent : Change} (hbinary : isBinary (version absent script) = true) :
    ∃ line ∈ script, line.content ≠ [] := by
  have hnul := List.mem_of_mem_take (List.contains_iff_mem.mp hbinary)
  obtain ⟨c, hc, hzero⟩ := List.mem_flatMap.mp hnul
  obtain ⟨found, hfound, hmem⟩ := List.mem_flatMap.mp hc
  obtain ⟨line, hline, rfl⟩ := List.mem_map.mp hfound
  refine ⟨line, List.mem_of_mem_filter hline, fun hempty => ?_⟩
  -- the NUL is not the line break
  rw [hempty, List.nil_append] at hmem
  split at hmem
  · obtain rfl := List.mem_singleton.mp hmem
    exact absurd hzero (by decide)
  · exact absurd hmem List.not_mem_nil

/-- What git takes for binary is not shown. -/
theorem exists_content_of_binary (hbinary : d.binary = true) :
    ∃ line ∈ d.script, line.content ≠ [] := by
  rcases Bool.or_eq_true_iff.mp hbinary with hold | hnew
  · exact isBinary_version hold
  · exact isBinary_version hnew

theorem not_isTextOf_nil_of_binary (hbinary : d.binary = true) :
    ¬ IsTextOf [] (d.script.map DiffLine.marked) := by
  obtain ⟨line, hline, hcontent⟩ := exists_content_of_binary hbinary
  have hmarked : line.marked ≠ [] := by
    unfold DiffLine.marked
    split
    · simp
    · simp
    · exact hcontent
  have hmem := List.mem_map_of_mem (f := DiffLine.marked) hline
  rw [isTextOf_nil_iff]
  rintro (hnil | hempty)
  · rw [hnil] at hmem
    exact absurd hmem List.not_mem_nil
  · rw [hempty] at hmem
    exact hmarked (List.mem_singleton.mp hmem)

theorem isTextOf_shown_iff (d : FileDiff) :
    IsTextOf (terminatedText (d.printed.filterMap markLine)) (d.script.map DiffLine.marked) ↔
      (∀ line ∈ d.script, ¬ line.LooksLikeHeader) ∧ d.binary = false ∧
        (oldVersion d.script = newVersion d.script →
          d.script.map DiffLine.content = [] ∨ d.script.map DiffLine.content = [[]]) := by
  rw [filterMap_markLine_printed]
  cases hbinary : d.binary with
  | true =>
      have hnot := not_isTextOf_nil_of_binary hbinary
      refine iff_of_false ?_ nofun
      split <;> exact hnot
  | false =>
      rw [if_neg Bool.false_ne_true, and_iff_right rfl]
      by_cases hequal : oldVersion d.script = newVersion d.script
      · have hplain : ∀ line ∈ d.script, ¬ line.LooksLikeHeader := by
          intro line hline
          simp [DiffLine.LooksLikeHeader, d.equal hequal line hline]
        rw [if_pos hequal, marked_of_equal d hequal]
        refine isTextOf_nil_iff.trans ?_
        exact ⟨fun hnothing => ⟨hplain, fun _ => hnothing⟩, fun hshown => hshown.2 hequal⟩
      · rw [if_neg hequal]
        constructor
        · intro htext
          refine ⟨?_, fun h => absurd h hequal⟩
          have hkept := forall_of_isTextOf_filter ?_ htext
          · simpa using hkept
          · intro line _ hheader
            obtain ⟨change, content, terminated⟩ := line
            cases change with
            | removed | added => simp [DiffLine.marked]
            | unchanged => simp [DiffLine.LooksLikeHeader] at hheader
        · rintro ⟨hplain, -⟩
          rw [List.filter_eq_self.mpr (by simpa using hplain)]
          exact Or.inr rfl

end

/-- In a script for SQL a comment is removed, and a line kept. -/
def commentRemoved : FileDiff where
  extended := ["diff --git a/s.sql b/s.sql".toList, "index 3f1c2aa..9ab2e01 100644".toList]
  fromFile := "a/s.sql".toList
  toFile := "b/s.sql".toList
  hunk := "-1,2 +1 @@".toList
  script := [⟨.removed, "-- old".toList, true⟩, ⟨.unchanged, "go".toList, true⟩]
  lowerCase := by decide
  oneLine line hline := by
    refine oneLine_of_all ?_
    revert line
    decide
  short := by decide
  equal := by decide

end DiffAnnotation

end AutomateLinux
