import AutomateLinux.DirectoryOrders

/-!
# The sizes of the files below a directory

`fileSize` walks over a directory like `lastChanged` does, with the same patterns in one
list for the whole scan, but never takes patterns out of it: a repository adds its own
to those of the directories around it.  The scan adds up the sizes of the files it goes
over and collects the files while its array has room, and the largest are printed.

A directory is what `lstat` sees; the size of a file is the length of its content.
`stat` and `fopen` would follow a symbolic link named `.git` or `.gitignore`; such links
are not represented.
-/

namespace AutomateLinux

namespace FileSize

open LastChanged (Text Entry IgnorePattern Scope MAX_FILES child isRepository gitignore ownPatterns
  addPattern readGitignore shouldIgnore ignores)

structure FileEntry where
  path : Text
  size : ℕ
  lines : ℕ
deriving DecidableEq

structure Scanner where
  ignorePatterns : List IgnorePattern
  files : List FileEntry

def countLines (content : Text) : ℕ := content.count '\n'

def fileEntry (path content : Text) : FileEntry :=
  ⟨path, content.length, countLines content⟩

def addFile (file : FileEntry) (s : Scanner) : Scanner :=
  if s.files.length < MAX_FILES then { s with files := s.files ++ [file] } else s

/-- The part of `scanDir` before its loop. -/
def enter (dir : Text) (inRepo : Bool) (entries : List Entry) (s : Scanner) :
    Bool × Scanner :=
  if isRepository entries then
    (true, { s with
      ignorePatterns :=
        addPattern ".git/".toList dir (readGitignore (gitignore entries) dir s.ignorePatterns) })
  else if inRepo then
    (true, { s with ignorePatterns := readGitignore (gitignore entries) dir s.ignorePatterns })
  else (false, s)

section

variable (fnmatch : Text → Text → Bool → Bool)

mutual

/-- The body of the loop, with what it adds to `totalSize`. -/
def scanEntry (dir : Text) (inRepo : Bool) : Entry → Scanner → ℕ × Scanner
  | .file name _ content, s =>
      if inRepo && shouldIgnore fnmatch s.ignorePatterns (child dir name) false then (0, s)
      else (content.length, addFile (fileEntry (child dir name) content) s)
  | .special _, s => (0, s)
  | .dir name entries, s =>
      if inRepo && shouldIgnore fnmatch s.ignorePatterns (child dir name) true then (0, s)
      else
        match enter (child dir name) inRepo entries s with
        | (inRepo, s) => scanEntries (child dir name) inRepo entries s

def scanEntries (dir : Text) (inRepo : Bool) : List Entry → Scanner → ℕ × Scanner
  | [], s => (0, s)
  | e :: entries, s =>
      let first := scanEntry dir inRepo e s
      let rest := scanEntries dir inRepo entries first.2
      (first.1 + rest.1, rest.2)

end

def scanDir (dir : Text) (inRepo : Bool) (entries : List Entry) (s : Scanner) :
    ℕ × Scanner :=
  match enter dir inRepo entries s with
  | (inRepo, s) => scanEntries fnmatch dir inRepo entries s

/-! ## What the files of the tree say -/

/-- The patterns in force below a directory: a repository adds to them. -/
def inside (dir : Text) (entries : List Entry) (scope : Scope) : Scope :=
  if isRepository entries then some (scope.getD [] ++ ownPatterns dir entries)
  else scope.map fun patterns => patterns ++ ownPatterns dir entries

/-- The patterns that are read on entering a directory. -/
def patternsRead (dir : Text) (scope : Scope) (entries : List Entry) : List IgnorePattern :=
  if (inside dir entries scope).isSome then ownPatterns dir entries else []

mutual

/-- How many patterns are read below an entry: those of ignored directories are not. -/
def patternCountEntry (dir : Text) (scope : Scope) : Entry → ℕ
  | .file _ _ _ | .special _ => 0
  | .dir name entries =>
      if ignores fnmatch scope (child dir name) true then 0
      else (patternsRead (child dir name) scope entries).length +
        patternCount (child dir name) (inside (child dir name) entries scope) entries

def patternCount (dir : Text) (scope : Scope) : List Entry → ℕ
  | [] => 0
  | e :: entries => patternCountEntry dir scope e + patternCount dir scope entries

end

mutual

/-- The files below an entry that no `.gitignore` on the way to them ignores. -/
def keptEntry (dir : Text) (scope : Scope) : Entry → List FileEntry
  | .file name _ content =>
      if ignores fnmatch scope (child dir name) false then []
      else [fileEntry (child dir name) content]
  | .special _ => []
  | .dir name entries =>
      if ignores fnmatch scope (child dir name) true then []
      else kept (child dir name) (inside (child dir name) entries scope) entries

def kept (dir : Text) (scope : Scope) : List Entry → List FileEntry
  | [] => []
  | e :: entries => keptEntry dir scope e ++ kept dir scope entries

end

end

/-! ## The largest files -/

/-- `qsort` leaves files of one size in any order. -/
structure Sorts (files sorted : List FileEntry) : Prop where
  perm : sorted.Perm files
  descending : sorted.Pairwise fun a b => b.size ≤ a.size

/-- The files that `topSizes` prints. -/
def topSizes (n : ℕ) (sorted : List FileEntry) : List FileEntry := sorted.take n

end FileSize

end AutomateLinux
