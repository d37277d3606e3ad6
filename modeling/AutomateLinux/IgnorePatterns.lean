import Mathlib.Data.List.Basic
import Mathlib.Data.List.Infix
import Mathlib.Data.Nat.Notation
import Mathlib.Tactic.Common

/-!
# Ignore patterns

`lastChanged` keeps the patterns of all `.gitignore` files it has read in one list,
each with the directory of its file.  The last pattern that matches a path decides,
among those whose directory is above it.  `fnmatch` is the one of the C library; its
flag is `FNM_PATHNAME`.
-/

namespace AutomateLinux

namespace LastChanged

/-- A C string. -/
abbrev Text := List Char

def MAX_IGNORE : ℕ := 5000

structure IgnorePattern where
  pattern : Text
  isNegation : Bool
  isDirectory : Bool
  baseDir : Text
deriving DecidableEq

/-! ## Reading patterns -/

def isBlank (c : Char) : Bool := c = ' ' || c = '\t'

/-- The pattern of a line, if there is one. -/
def parsePattern (line baseDir : Text) : Option IgnorePattern :=
  let isNegation := line.head? = some '!'
  let pattern := if isNegation then line.tail else line
  if pattern = [] then none
  else
    let pattern := pattern.dropWhile isBlank
    if pattern = [] then none
    else
      let isDirectory := pattern.getLast? = some '/'
      some ⟨if isDirectory then pattern.dropLast else pattern, isNegation, isDirectory, baseDir⟩

def addPattern (line baseDir : Text) (ignorePatterns : List IgnorePattern) :
    List IgnorePattern :=
  if MAX_IGNORE ≤ ignorePatterns.length then ignorePatterns
  else ignorePatterns ++ (parsePattern line baseDir).toList

/-- What `fgets` reads with `room` characters left in its buffer of `size`, behind
the piece it has. -/
def fgetsFrom (size : ℕ) : ℕ → Text → Text → List Text
  | _, piece, [] => if piece = [] then [] else [piece]
  | room, piece, c :: text =>
      if c = '\n' ∨ room ≤ 1 then (piece ++ [c]) :: fgetsFrom size size [] text
      else fgetsFrom size (room - 1) (piece ++ [c]) text

/-- `line[strcspn(line, "\r\n")] = 0;` and the blanks in front. -/
def trimmed (line : Text) : Text :=
  (line.takeWhile fun c => c ≠ '\r' ∧ c ≠ '\n' ∧ c ≠ '\x00').dropWhile isBlank

/-- The lines of the file that are passed to `addPattern`. -/
def patternLines (content : Text) : List Text :=
  ((fgetsFrom 511 511 [] content).map trimmed).filter fun line =>
    line ≠ [] ∧ line.head? ≠ some '#'

/-- A file that cannot be opened has no lines. -/
def readGitignore (file : Option Text) (baseDir : Text) (ignorePatterns : List IgnorePattern) :
    List IgnorePattern :=
  (file.elim [] patternLines).foldl
    (fun ignorePatterns line => addPattern line baseDir ignorePatterns) ignorePatterns

/-! ## Matching -/

def pathIsUnderDir (path dir : Text) : Bool :=
  dir = ['.'] || dir <+: path && ((path.drop dir.length).head?.all fun c => c = '/')

/-- What follows each slash. -/
def afterSlashes : Text → List Text
  | [] => []
  | c :: rest => if c = '/' then rest :: afterSlashes rest else afterSlashes rest

def withoutDotSlash (path : Text) : Text :=
  if ['.', '/'] <+: path then path.drop 2 else path

section

variable (fnmatch : Text → Text → Bool → Bool)

def pathMatches (pattern path : Text) (isDirectory checkDir : Bool) : Bool :=
  if isDirectory && !checkDir then false
  else if '/' ∈ pattern then fnmatch pattern (withoutDotSlash path) true
  else
    let basename := (path.reverse.takeWhile fun c => c ≠ '/').reverse
    let p := withoutDotSlash path
    fnmatch pattern basename false ||
      ((p :: afterSlashes p).filter fun p => p ≠ []).any fun p => fnmatch pattern p true

/-- The path as the pattern's directory sees it. -/
def relPath (path baseDir : Text) : Text :=
  if baseDir = ['.'] then path
  else if baseDir <+: path then
    match path.drop baseDir.length with
    | [] => ['.']
    | c :: rest => if c = '/' then rest else path
  else path

/-- The body of the loop over the patterns. -/
def applyPattern (path : Text) (isDir : Bool) (ignored : Bool) (p : IgnorePattern) : Bool :=
  if !pathIsUnderDir path p.baseDir then ignored
  else if pathMatches fnmatch p.pattern (relPath path p.baseDir) p.isDirectory isDir then
    !p.isNegation
  else ignored

def shouldIgnore (ignorePatterns : List IgnorePattern) (path : Text) (isDir : Bool) : Bool :=
  ignorePatterns.foldl (applyPattern fnmatch path isDir) false

end

/-! ## The patterns of a file -/

def patternsOf (file : Option Text) (baseDir : Text) : List IgnorePattern :=
  (file.elim [] patternLines).flatMap fun line => (parsePattern line baseDir).toList

theorem parsePattern_baseDir {line baseDir : Text} {p : IgnorePattern}
    (hp : parsePattern line baseDir = some p) : p.baseDir = baseDir := by
  simp only [parsePattern, Option.ite_none_left_eq_some, Option.some.injEq] at hp
  obtain ⟨-, -, rfl⟩ := hp
  rfl

theorem patternsOf_baseDir {file : Option Text} {baseDir : Text} {p : IgnorePattern}
    (hp : p ∈ patternsOf file baseDir) : p.baseDir = baseDir := by
  obtain ⟨line, -, hline⟩ := List.mem_flatMap.mp hp
  exact parsePattern_baseDir (Option.mem_toList.mp hline)

theorem addPattern_of_fits {line baseDir : Text} {ignorePatterns : List IgnorePattern}
    (hfits : ignorePatterns.length + (parsePattern line baseDir).toList.length ≤ MAX_IGNORE) :
    addPattern line baseDir ignorePatterns =
      ignorePatterns ++ (parsePattern line baseDir).toList := by
  unfold addPattern
  split
  · have hnone : (parsePattern line baseDir).toList = [] :=
      List.length_eq_zero_iff.mp (by omega)
    rw [hnone, List.append_nil]
  · rfl

/-- Lines of several files, as long as there is room for their patterns. -/
theorem foldl_addPattern {α : Type} (line baseDir : α → Text) {entries : List α}
    {ignorePatterns : List IgnorePattern}
    (hfits : ignorePatterns.length +
      (entries.flatMap fun e => (parsePattern (line e) (baseDir e)).toList).length ≤
        MAX_IGNORE) :
    entries.foldl (fun ignorePatterns e => addPattern (line e) (baseDir e) ignorePatterns)
        ignorePatterns =
      ignorePatterns ++ entries.flatMap fun e => (parsePattern (line e) (baseDir e)).toList := by
  induction entries generalizing ignorePatterns with
  | nil => simp
  | cons e entries ih =>
      rw [List.flatMap_cons, List.length_append] at hfits
      rw [List.foldl_cons, addPattern_of_fits (by omega), ih, List.flatMap_cons,
        List.append_assoc]
      rw [List.length_append]
      omega

theorem readGitignore_of_fits {file : Option Text} {baseDir : Text}
    {ignorePatterns : List IgnorePattern}
    (hfits : ignorePatterns.length + (patternsOf file baseDir).length ≤ MAX_IGNORE) :
    readGitignore file baseDir ignorePatterns = ignorePatterns ++ patternsOf file baseDir :=
  foldl_addPattern (fun line => line) (fun _ => baseDir) hfits

/-! ## Which patterns count -/

section

variable {path dir baseDir : Text}

theorem pathIsUnderDir_iff : pathIsUnderDir path dir = true ↔
    dir = ['.'] ∨ ∃ rest, path = dir ++ rest ∧ ∀ c, rest.head? = some c → c = '/' := by
  unfold pathIsUnderDir
  rw [Bool.or_eq_true, decide_eq_true_eq]
  refine or_congr_right ?_
  rw [Bool.and_eq_true, decide_eq_true_eq]
  constructor
  · rintro ⟨⟨rest, rfl⟩, hslash⟩
    rw [List.drop_left, Option.all_eq_true] at hslash
    exact ⟨rest, rfl, fun c hc => of_decide_eq_true (hslash c hc)⟩
  · rintro ⟨rest, rfl, hslash⟩
    rw [List.drop_left, Option.all_eq_true]
    exact ⟨List.prefix_append _ _, fun c hc => decide_eq_true (hslash c hc)⟩

theorem pathIsUnderDir_trans (hpath : pathIsUnderDir path baseDir = true)
    (hbase : pathIsUnderDir baseDir dir = true) (hdir : baseDir ≠ ['.']) :
    pathIsUnderDir path dir = true := by
  rw [pathIsUnderDir_iff] at *
  obtain ⟨rest, rfl, hrest⟩ := hpath.resolve_left hdir
  rcases hbase with hdot | ⟨rest', rfl, hrest'⟩
  · exact Or.inl hdot
  · refine Or.inr ⟨rest' ++ rest, List.append_assoc _ _ _, fun c hc => ?_⟩
    cases rest' with
    | nil => exact hrest c hc
    | cons c' rest' => exact hrest' c hc

variable {fnmatch : Text → Text → Bool → Bool} {ignorePatterns : List IgnorePattern}
  {isDir : Bool}

theorem shouldIgnore_append (first second : List IgnorePattern) :
    shouldIgnore fnmatch (first ++ second) path isDir =
      second.foldl (applyPattern fnmatch path isDir) (shouldIgnore fnmatch first path isDir) :=
  List.foldl_append

/-- Patterns of directories that are not above a path say nothing about it. -/
theorem shouldIgnore_append_of_not_under {more : List IgnorePattern}
    (hmore : ∀ p ∈ more, pathIsUnderDir path p.baseDir = false) :
    shouldIgnore fnmatch (ignorePatterns ++ more) path isDir =
      shouldIgnore fnmatch ignorePatterns path isDir := by
  rw [shouldIgnore_append]
  generalize shouldIgnore fnmatch ignorePatterns path isDir = ignored
  induction more with
  | nil => rfl
  | cons p more ih =>
      have hp : applyPattern fnmatch path isDir ignored p = ignored := by
        unfold applyPattern
        rw [hmore p List.mem_cons_self]
        rfl
      rw [List.foldl_cons, hp]
      exact ih fun p' hp' => hmore p' (List.mem_cons_of_mem p hp')

end

end LastChanged

end AutomateLinux
