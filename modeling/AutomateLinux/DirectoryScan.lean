import AutomateLinux.IgnorePatterns

/-!
# Scanning a directory

`scanDir` goes over the entries of a directory in the order in which `readdir` returns
them and into each directory it does not ignore.  Its patterns are in one list for the
whole scan: entering a directory appends the patterns of its `.gitignore`, and entering
a directory that has a `.git` of its own clears the list first.

The model takes a directory as the list of its entries, as `stat` sees them, and paths
to be shorter than `MAX_PATH`.
-/

namespace AutomateLinux

namespace LastChanged

def MAX_FILES : ℕ := 10000

inductive Entry
  | file (name : Text) (mtime : Int) (content : Text)
  | special (name : Text)
  | dir (name : Text) (entries : List Entry)

def Entry.name : Entry → Text
  | .file name _ _ => name
  | .special name => name
  | .dir name _ => name

structure FileEntry where
  path : Text
  mtime : Int
deriving DecidableEq

/-- The scanner's global variables. -/
structure Scanner where
  ignorePatterns : List IgnorePattern
  files : List FileEntry

def child (dir name : Text) : Text := dir ++ '/' :: name

def Entry.isGitDir : Entry → Bool
  | .dir name _ => name = ".git".toList
  | _ => false

def Entry.gitignore? : Entry → Option Text
  | .file name _ content => if name = ".gitignore".toList then some content else none
  | _ => none

/-- The directory has a directory `.git`. -/
def isRepository (entries : List Entry) : Bool := entries.any Entry.isGitDir

def gitignore (entries : List Entry) : Option Text := entries.findSome? Entry.gitignore?

/-- The part of `scanDir` before its loop, with whether the directory is in a
repository. -/
def enter (dir : Text) (inRepo : Bool) (entries : List Entry) (s : Scanner) : Bool × Scanner :=
  if isRepository entries then
    (true, { s with
      ignorePatterns := addPattern ".git/".toList dir (readGitignore (gitignore entries) dir []) })
  else if inRepo then
    (true, { s with
      ignorePatterns := readGitignore (gitignore entries) dir s.ignorePatterns })
  else (false, s)

def addFile (file : FileEntry) (s : Scanner) : Scanner :=
  if s.files.length < MAX_FILES then { s with files := s.files ++ [file] } else s

section

variable (fnmatch : Text → Text → Bool → Bool)

mutual

/-- The body of the loop. -/
def scanEntry (dir : Text) (inRepo : Bool) : Entry → Scanner → Scanner
  | .file name mtime _, s =>
      if inRepo && shouldIgnore fnmatch s.ignorePatterns (child dir name) false then s
      else addFile ⟨child dir name, mtime⟩ s
  | .special _, s => s
  | .dir name entries, s =>
      if inRepo && shouldIgnore fnmatch s.ignorePatterns (child dir name) true then s
      else
        match enter (child dir name) inRepo entries s with
        | (inRepo, s) => scanEntries (child dir name) inRepo entries s

def scanEntries (dir : Text) (inRepo : Bool) : List Entry → Scanner → Scanner
  | [], s => s
  | e :: entries, s => scanEntries dir inRepo entries (scanEntry dir inRepo e s)

end

def scanDir (dir : Text) (inRepo : Bool) (entries : List Entry) (s : Scanner) : Scanner :=
  match enter dir inRepo entries s with
  | (inRepo, s) => scanEntries fnmatch dir inRepo entries s

end

/-! ## Directory trees -/

/-- The names in a directory are distinct and contain no slash. -/
inductive DirectoryOk : List Entry → Prop
  | intro {entries : List Entry} (distinct : (entries.map Entry.name).Nodup)
      (noSlash : ∀ e ∈ entries, '/' ∉ e.name)
      (below : ∀ name sub, .dir name sub ∈ entries → DirectoryOk sub) : DirectoryOk entries

/-- The patterns that entering a directory reads. -/
def ownPatterns (dir : Text) (entries : List Entry) : List IgnorePattern :=
  patternsOf (gitignore entries) dir ++
    if isRepository entries then (parsePattern ".git/".toList dir).toList else []

mutual

def Entry.fileTotal : Entry → ℕ
  | .file _ _ _ => 1
  | .special _ => 0
  | .dir _ entries => fileTotal entries

def fileTotal : List Entry → ℕ
  | [] => 0
  | e :: entries => e.fileTotal + fileTotal entries

end

mutual

def Entry.patternTotal (dir : Text) : Entry → ℕ
  | .file _ _ _ => 0
  | .special _ => 0
  | .dir name entries =>
      (ownPatterns (child dir name) entries).length + patternTotal (child dir name) entries

def patternTotal (dir : Text) : List Entry → ℕ
  | [] => 0
  | e :: entries => e.patternTotal dir + patternTotal dir entries

end

/-! ## The patterns in force -/

/-- The patterns that decide about the entries of a directory; outside of repositories
there are none to decide. -/
abbrev Scope := Option (List IgnorePattern)

def inside (dir : Text) (entries : List Entry) (scope : Scope) : Scope :=
  if isRepository entries then some (ownPatterns dir entries)
  else scope.map fun patterns => patterns ++ ownPatterns dir entries

def dropped (scope : Scope) : Scope := scope.map fun _ => []

section

variable (fnmatch : Text → Text → Bool → Bool)

def ignores (scope : Scope) (path : Text) (isDir : Bool) : Bool :=
  scope.any fun patterns => shouldIgnore fnmatch patterns path isDir

mutual

/-- The files below an entry that the `.gitignore` files of their own repositories, on
the way to them, do not ignore. -/
def keptEntry (dir : Text) (scope : Scope) : Entry → List FileEntry
  | .file name mtime _ =>
      if ignores fnmatch scope (child dir name) false then [] else [⟨child dir name, mtime⟩]
  | .special _ => []
  | .dir name entries =>
      if ignores fnmatch scope (child dir name) true then []
      else kept (child dir name) (inside (child dir name) entries scope) entries

def kept (dir : Text) (scope : Scope) : List Entry → List FileEntry
  | [] => []
  | e :: entries => keptEntry dir scope e ++ kept dir scope entries

end

mutual

/-- A repository is entered below the entry. -/
def resetsEntry (dir : Text) (scope : Scope) : Entry → Bool
  | .dir name entries =>
      !ignores fnmatch scope (child dir name) true &&
        (isRepository entries ||
          resets (child dir name) (inside (child dir name) entries scope) entries)
  | _ => false

def resets (dir : Text) (scope : Scope) : List Entry → Bool
  | [] => false
  | e :: entries => resetsEntry dir scope e || resets dir scope entries

end

mutual

/-- The scan with the patterns in force as a value of its own: the files collected, and
whether a repository is entered, after which the patterns are gone. -/
def runEntry (dir : Text) (scope : Scope) : Entry → List FileEntry × Bool
  | .file name mtime _ =>
      (if ignores fnmatch scope (child dir name) false then [] else [⟨child dir name, mtime⟩],
        false)
  | .special _ => ([], false)
  | .dir name entries =>
      if ignores fnmatch scope (child dir name) true then ([], false)
      else
        let below := run (child dir name) (inside (child dir name) entries scope) entries
        (below.1, isRepository entries || below.2)

def run (dir : Text) (scope : Scope) : List Entry → List FileEntry × Bool
  | [] => ([], false)
  | e :: entries =>
      let first := runEntry dir scope e
      let rest := run dir (if first.2 then dropped scope else scope) entries
      (first.1 ++ rest.1, first.2 || rest.2)

end

end

end LastChanged

end AutomateLinux
