import AutomateLinux.FileSize
import Mathlib

/-!
# What the size scan collects

The one list of patterns decides about the entries still to come as the patterns of the
directories around them do: what was added elsewhere says nothing about them.  So the
scan collects the files that no `.gitignore` on the way to them ignores, and neither its
total nor the sizes printed depend on the order in which directories are read.
-/

namespace AutomateLinux

namespace FileSize

open LastChanged (Text Entry IgnorePattern Scope MAX_FILES MAX_IGNORE child isRepository gitignore
  ownPatterns addPattern readGitignore shouldIgnore ignores DirectoryOk pathIsUnderDir Reordered
  outerScope)

section

variable {fnmatch : Text → Text → Bool → Bool} {dir path : Text} {scope : Scope}
  {entries rest : List Entry} {e : Entry} {s s' : Scanner} {isDir : Bool}

/-! ## One directory -/

/-- The list decides about the paths below these entries as the patterns in force do;
where none are in force, it says nothing about them. -/
def Governs (fnmatch : Text → Text → Bool → Bool) (ignorePatterns : List IgnorePattern)
    (scope : Scope) (dir : Text) (entries : List Entry) : Prop :=
  ∀ e ∈ entries, ∀ path, pathIsUnderDir path (child dir e.name) = true → ∀ isDir,
    shouldIgnore fnmatch ignorePatterns path isDir =
      shouldIgnore fnmatch (scope.getD []) path isDir

theorem Governs.ignores (hgoverns : Governs fnmatch s.ignorePatterns scope dir [e])
    (isDir : Bool) :
    (scope.isSome && shouldIgnore fnmatch s.ignorePatterns (child dir e.name) isDir) =
      ignores fnmatch scope (child dir e.name) isDir := by
  cases scope with
  | none => rfl
  | some patterns =>
      exact hgoverns e List.mem_cons_self _ (LastChanged.child_under_self _ _) isDir

/-- Entering a directory of a repository adds its patterns to the list. -/
theorem enter_spec (dir : Text) (scope : Scope) (entries : List Entry) (s : Scanner)
    (hroom : s.ignorePatterns.length + (patternsRead dir scope entries).length ≤ MAX_IGNORE) :
    (enter dir scope.isSome entries s).1 = (inside dir entries scope).isSome ∧
      (enter dir scope.isSome entries s).2 =
        { s with ignorePatterns := s.ignorePatterns ++ patternsRead dir scope entries } := by
  have hread : ∀ patterns, patterns.length + (ownPatterns dir entries).length ≤ MAX_IGNORE →
      readGitignore (gitignore entries) dir patterns =
        patterns ++ LastChanged.patternsOf (gitignore entries) dir := by
    intro patterns hfits
    rw [ownPatterns, List.length_append] at hfits
    exact LastChanged.readGitignore_of_fits (by omega)
  unfold enter patternsRead inside at *
  cases hrepository : isRepository entries with
  | true =>
      simp only [hrepository, if_true, Option.isSome_some] at hroom ⊢
      have hread' := hread s.ignorePatterns hroom
      rw [ownPatterns, hrepository, if_pos rfl, List.length_append] at hroom
      have hadd : addPattern ".git/".toList dir
          (s.ignorePatterns ++ LastChanged.patternsOf (gitignore entries) dir) =
          s.ignorePatterns ++ LastChanged.patternsOf (gitignore entries) dir ++
            (LastChanged.parsePattern ".git/".toList dir).toList :=
        LastChanged.addPattern_of_fits (by rw [List.length_append]; omega)
      rw [hread', hadd, List.append_assoc, ownPatterns, hrepository, if_pos rfl]
      exact ⟨trivial, rfl⟩
  | false =>
      cases scope with
      | none => simp
      | some patterns =>
          rw [hrepository] at hroom
          have hread' := hread s.ignorePatterns hroom
          simp [hread', ownPatterns, hrepository]

theorem own_elsewhere (hpath : pathIsUnderDir path dir = false) :
    ∀ p ∈ ownPatterns dir entries, pathIsUnderDir path p.baseDir = false := by
  intro p hp
  rw [LastChanged.ownPatterns_baseDir hp, hpath]

/-- What a scan of these entries does. -/
structure Scanned (fnmatch : Text → Text → Bool → Bool) (dir : Text) (entries : List Entry)
    (s : Scanner) (result : ℕ × Scanner) (out : List FileEntry) (patterns : ℕ) : Prop where
  total : result.1 = (out.map FileEntry.size).sum
  files : result.2.files = s.files ++ out
  length : result.2.ignorePatterns.length = s.ignorePatterns.length + patterns
  elsewhere : ∀ path isDir, (∀ e ∈ entries, pathIsUnderDir path (child dir e.name) = false) →
    shouldIgnore fnmatch result.2.ignorePatterns path isDir =
      shouldIgnore fnmatch s.ignorePatterns path isDir

/-- Nothing is collected, and no pattern added. -/
theorem scanned_nothing (dir : Text) (entries : List Entry) (s : Scanner) :
    Scanned fnmatch dir entries s (0, s) [] 0 :=
  ⟨rfl, (List.append_nil _).symm, rfl, fun _ _ _ => rfl⟩

theorem Scanned.governs {result : ℕ × Scanner} {out : List FileEntry} {patterns : ℕ}
    (hscanned : Scanned fnmatch dir [e] s result out patterns)
    (hdistinct : ((e :: rest).map Entry.name).Nodup) (hnoSlash : ∀ e' ∈ e :: rest, '/' ∉ e'.name)
    (hgoverns : Governs fnmatch s.ignorePatterns scope dir rest) :
    Governs fnmatch result.2.ignorePatterns scope dir rest := by
  intro e' he' path hpath isDir
  have hother : pathIsUnderDir path (child dir e.name) = false := by
    by_contra hunder
    rw [Bool.not_eq_false] at hunder
    have hsame := LastChanged.name_eq_of_under (hnoSlash e List.mem_cons_self)
      (hnoSlash e' (List.mem_cons_of_mem e he')) hunder hpath
    rw [List.map_cons, List.nodup_cons] at hdistinct
    exact hdistinct.1 (hsame ▸ List.mem_map_of_mem he')
  rw [hscanned.elsewhere path isDir (by simpa using hother)]
  exact hgoverns e' he' path hpath isDir

theorem Scanned.cons {result : ℕ × Scanner} {first out : List FileEntry}
    {later : ℕ × Scanner} {patterns more : ℕ}
    (hfirst : Scanned fnmatch dir [e] s result first patterns)
    (hrest : Scanned fnmatch dir rest result.2 later out more) :
    Scanned fnmatch dir (e :: rest) s (result.1 + later.1, later.2) (first ++ out)
      (patterns + more) := by
  constructor
  · rw [hfirst.total, hrest.total, List.map_append, List.sum_append]
  · rw [hrest.files, hfirst.files, List.append_assoc]
  · rw [hrest.length, hfirst.length, Nat.add_assoc]
  · intro path isDir hpath
    rw [hrest.elsewhere path isDir fun e' he' => hpath e' (List.mem_cons_of_mem e he'),
      hfirst.elsewhere path isDir (by simpa using hpath e List.mem_cons_self)]

/-- With the patterns of a directory added, the list decides below it as the patterns
in force there do. -/
theorem governs_inside
    (houter : ∀ e ∈ entries, ∀ path, pathIsUnderDir path (child dir e.name) = true → ∀ isDir,
      shouldIgnore fnmatch s.ignorePatterns path isDir =
        shouldIgnore fnmatch (scope.getD []) path isDir)
    (hs' : s'.ignorePatterns = s.ignorePatterns ++ patternsRead dir scope entries) :
    Governs fnmatch s'.ignorePatterns (inside dir entries scope) dir entries := by
  intro e he path hpath isDir
  rw [hs', LastChanged.shouldIgnore_append, houter e he path hpath isDir]
  unfold patternsRead inside
  cases isRepository entries with
  | true => exact (LastChanged.shouldIgnore_append _ _).symm
  | false =>
      cases scope with
      | none => rfl
      | some patterns => exact (LastChanged.shouldIgnore_append _ _).symm

/-- The scan of these entries follows the patterns in force, while its arrays have room. -/
def Follows (fnmatch : Text → Text → Bool → Bool) (entries : List Entry) : Prop :=
  ∀ dir scope s, Governs fnmatch s.ignorePatterns scope dir entries →
    s.files.length + (kept fnmatch dir scope entries).length ≤ MAX_FILES →
    s.ignorePatterns.length + patternCount fnmatch dir scope entries ≤ MAX_IGNORE →
    Scanned fnmatch dir entries s (scanEntries fnmatch dir scope.isSome entries s)
      (kept fnmatch dir scope entries) (patternCount fnmatch dir scope entries)

theorem scanEntries_singleton (dir : Text) (inRepo : Bool) (e : Entry) (s : Scanner) :
    scanEntries fnmatch dir inRepo [e] s = scanEntry fnmatch dir inRepo e s := rfl

theorem kept_singleton (dir : Text) (scope : Scope) (e : Entry) :
    kept fnmatch dir scope [e] = keptEntry fnmatch dir scope e :=
  List.append_nil _

theorem patternCount_singleton (dir : Text) (scope : Scope) (e : Entry) :
    patternCount fnmatch dir scope [e] = patternCountEntry fnmatch dir scope e :=
  Nat.add_zero _

theorem follows_file {name content : Text} {mtime : Int} :
    Follows fnmatch [.file name mtime content] := by
  intro dir scope s hgoverns hfiles _
  have hdecide := hgoverns.ignores false
  simp only [Entry.name] at hdecide
  rw [kept_singleton, keptEntry] at hfiles
  rw [scanEntries_singleton, kept_singleton, patternCount_singleton, scanEntry, keptEntry,
    patternCountEntry, hdecide]
  cases hignores : ignores fnmatch scope (child dir name) false with
  | true => exact scanned_nothing dir _ s
  | false =>
      rw [hignores, if_neg Bool.false_ne_true, List.length_singleton] at hfiles
      have hroom : s.files.length < MAX_FILES := hfiles
      rw [if_neg Bool.false_ne_true, if_neg Bool.false_ne_true, addFile, if_pos hroom]
      exact ⟨rfl, rfl, rfl, fun _ _ _ => rfl⟩

theorem follows_dir {name : Text} {sub : List Entry} (hsub : Follows fnmatch sub) :
    Follows fnmatch [.dir name sub] := by
  intro dir scope s hgoverns hfiles hpatterns
  have hdecide := hgoverns.ignores true
  simp only [Entry.name] at hdecide
  rw [kept_singleton, keptEntry] at hfiles
  rw [patternCount_singleton, patternCountEntry] at hpatterns
  rw [scanEntries_singleton, kept_singleton, patternCount_singleton, scanEntry, keptEntry,
    patternCountEntry, hdecide]
  cases hignores : ignores fnmatch scope (child dir name) true with
  | true => exact scanned_nothing dir _ s
  | false =>
      rw [hignores, if_neg Bool.false_ne_true] at hfiles hpatterns
      have hentered := enter_spec (child dir name) scope sub s (by omega)
      rw [if_neg Bool.false_ne_true, if_neg Bool.false_ne_true, if_neg Bool.false_ne_true]
      generalize hresult : enter (child dir name) scope.isSome sub s = result at hentered
      obtain ⟨inRepo, entered⟩ := result
      obtain ⟨rfl, hentered⟩ := hentered
      have hignore := congrArg Scanner.ignorePatterns hentered
      have hcollected := congrArg Scanner.files hentered
      dsimp only at hignore hcollected
      have hlength := congrArg List.length hignore
      rw [List.length_append] at hlength
      have hbelow := hsub (child dir name) (inside (child dir name) sub scope) entered
        (governs_inside (fun e' _ path hpath isDir => hgoverns _ List.mem_cons_self path
          (LastChanged.under_of_under_child hpath) isDir) hignore)
        (by rw [hcollected]; omega) (by omega)
      refine ⟨hbelow.total, ?_, ?_, fun path isDir hpath => ?_⟩
      · rw [← hcollected]
        exact hbelow.files
      · rw [hbelow.length, hlength, Nat.add_assoc]
      · have hname : pathIsUnderDir path (child dir name) = false := hpath _ List.mem_cons_self
        rw [hbelow.elsewhere path isDir, hignore, patternsRead]
        · split
          · exact LastChanged.shouldIgnore_append_of_not_under (own_elsewhere hname)
          · rw [List.append_nil]
        · intro e' _
          by_contra hunder
          rw [Bool.not_eq_false] at hunder
          rw [LastChanged.under_of_under_child hunder] at hname
          exact Bool.noConfusion hname

theorem follows_cons (hdistinct : ((e :: rest).map Entry.name).Nodup)
    (hnoSlash : ∀ e' ∈ e :: rest, '/' ∉ e'.name) (hfirst : Follows fnmatch [e])
    (hrest : Follows fnmatch rest) : Follows fnmatch (e :: rest) := by
  intro dir scope s hgoverns hfiles hpatterns
  simp only [kept, List.length_append] at hfiles
  simp only [patternCount] at hpatterns
  have hgovernsFirst : Governs fnmatch s.ignorePatterns scope dir [e] := fun e' he' =>
    hgoverns e' (List.mem_cons.mpr (.inl (List.mem_singleton.mp he')))
  have hgovernsRest : Governs fnmatch s.ignorePatterns scope dir rest := fun e' he' =>
    hgoverns e' (List.mem_cons_of_mem e he')
  have hscanned := hfirst dir scope s hgovernsFirst (by rw [kept_singleton]; omega)
    (by rw [patternCount_singleton]; omega)
  rw [kept_singleton, patternCount_singleton] at hscanned
  have hbehind := hrest dir scope _ (hscanned.governs hdistinct hnoSlash hgovernsRest)
    (by rw [hscanned.files, List.length_append]; omega) (by rw [hscanned.length]; omega)
  exact hscanned.cons hbehind

theorem follows_of_directoryOk (hok : DirectoryOk entries) : Follows fnmatch entries := by
  induction hok with
  | @intro entries distinct noSlash below ih =>
      have hentry : ∀ e ∈ entries, Follows fnmatch [e] := by
        intro e he
        cases e with
        | file name mtime content => exact follows_file
        | special name => exact fun dir scope s _ _ _ => scanned_nothing dir _ s
        | dir name sub => exact follows_dir (ih name sub he)
      clear ih below
      induction entries with
      | nil => exact fun dir scope s _ _ _ => scanned_nothing dir _ s
      | cons e rest ihRest =>
          refine follows_cons distinct noSlash (hentry e List.mem_cons_self) (ihRest ?_ ?_ ?_)
          · exact (List.nodup_cons.mp distinct).2
          · exact fun e' he' => noSlash e' (List.mem_cons_of_mem e he')
          · exact fun e' he' => hentry e' (List.mem_cons_of_mem e he')

/-! ## The whole scan -/

/-- What `main` leaves for `scanDir`: the patterns of a repository above, and no files. -/
structure Started (inRepo : Bool) (s : Scanner) : Prop where
  files : s.files = []
  outside : inRepo = false → s.ignorePatterns = []

theorem Started.shouldIgnore {inRepo : Bool} (hstarted : Started inRepo s) (path : Text)
    (isDir : Bool) :
    LastChanged.shouldIgnore fnmatch s.ignorePatterns path isDir =
      LastChanged.shouldIgnore fnmatch ((outerScope inRepo s.ignorePatterns).getD []) path
        isDir := by
  cases inRepo with
  | true => rfl
  | false => rw [hstarted.outside rfl]; rfl

/-- The arrays have room for the files that are not ignored and the patterns that are read. -/
structure Room (fnmatch : Text → Text → Bool → Bool) (dir : Text) (inRepo : Bool)
    (entries : List Entry) (s : Scanner) : Prop where
  files : (kept fnmatch dir (inside dir entries (outerScope inRepo s.ignorePatterns))
    entries).length ≤ MAX_FILES
  patterns : s.ignorePatterns.length +
    (patternsRead dir (outerScope inRepo s.ignorePatterns) entries).length +
      patternCount fnmatch dir (inside dir entries (outerScope inRepo s.ignorePatterns))
        entries ≤ MAX_IGNORE

variable (fnmatch dir) in
/-- The scan collects the files that no `.gitignore` on the way to them ignores, and
returns the sum of their sizes. -/
theorem scanDir_eq_kept (inRepo : Bool) (hok : DirectoryOk entries)
    (hstarted : Started inRepo s) (hroom : Room fnmatch dir inRepo entries s) :
    (scanDir fnmatch dir inRepo entries s).1 =
        ((kept fnmatch dir (inside dir entries (outerScope inRepo s.ignorePatterns)) entries).map
          FileEntry.size).sum ∧
      (scanDir fnmatch dir inRepo entries s).2.files =
        kept fnmatch dir (inside dir entries (outerScope inRepo s.ignorePatterns)) entries := by
  obtain ⟨hfiles, hpatterns⟩ := hroom
  have henter := enter_spec dir (outerScope inRepo s.ignorePatterns) entries s (by omega)
  rw [LastChanged.outerScope_isSome] at henter
  unfold scanDir
  generalize hresult : enter dir inRepo entries s = result at henter
  obtain ⟨inRepo', entered⟩ := result
  obtain ⟨rfl, hentered⟩ := henter
  have hignore := congrArg Scanner.ignorePatterns hentered
  have hcollected := congrArg Scanner.files hentered
  dsimp only at hignore hcollected
  rw [hstarted.files] at hcollected
  have hlength := congrArg List.length hignore
  rw [List.length_append] at hlength
  have hscanned : Scanned fnmatch dir entries entered _ _ _ := follows_of_directoryOk hok dir
    (inside dir entries (outerScope inRepo s.ignorePatterns)) entered
    (governs_inside (fun e he path _ isDir => hstarted.shouldIgnore path isDir) hignore)
    (by rw [hcollected, List.length_nil]; omega) (by omega)
  refine ⟨hscanned.total, hscanned.files.trans ?_⟩
  rw [hcollected, List.nil_append]

/-! ## Directories in another order -/

variable {entries' : List Entry}

theorem inside_reordered (horder : Reordered entries entries') (hok : DirectoryOk entries)
    (dir : Text) (scope : Scope) : inside dir entries scope = inside dir entries' scope := by
  unfold inside
  rw [horder.isRepository_eq, horder.ownPatterns_eq hok]

variable (fnmatch) in
theorem kept_reordered (horder : Reordered entries entries') (hok : DirectoryOk entries)
    (dir : Text) (scope : Scope) :
    (kept fnmatch dir scope entries).Perm (kept fnmatch dir scope entries') := by
  induction horder generalizing dir scope with
  | nil => exact .rfl
  | cons e _ ih =>
      exact (ih (LastChanged.directoryOk_cons_iff.mp hok).2.2.2 dir scope).append_left _
  | dir name hsub _ ihsub ih =>
      obtain ⟨-, -, hbelow, hrest⟩ := LastChanged.directoryOk_cons_iff.mp hok
      have hoksub := hbelow name _ rfl
      refine List.Perm.append ?_ (ih hrest dir scope)
      rw [keptEntry, keptEntry, inside_reordered hsub hoksub]
      split
      · exact .rfl
      · exact ihsub hoksub _ _
  | swap e e' rest =>
      rw [kept, kept, kept, kept, ← List.append_assoc, ← List.append_assoc]
      exact List.perm_append_comm.append_right _
  | trans hfirst _ ih ih' =>
      exact (ih hok dir scope).trans (ih' (hfirst.directoryOk hok) dir scope)

theorem patternsRead_reordered (horder : Reordered entries entries') (hok : DirectoryOk entries)
    (dir : Text) (scope : Scope) :
    patternsRead dir scope entries = patternsRead dir scope entries' := by
  unfold patternsRead
  rw [inside_reordered horder hok, horder.ownPatterns_eq hok]

variable (fnmatch) in
theorem patternCount_reordered (horder : Reordered entries entries') (hok : DirectoryOk entries)
    (dir : Text) (scope : Scope) :
    patternCount fnmatch dir scope entries = patternCount fnmatch dir scope entries' := by
  induction horder generalizing dir scope with
  | nil => rfl
  | cons e _ ih =>
      rw [patternCount, patternCount, ih (LastChanged.directoryOk_cons_iff.mp hok).2.2.2]
  | dir name hsub _ ihsub ih =>
      obtain ⟨-, -, hbelow, hrest⟩ := LastChanged.directoryOk_cons_iff.mp hok
      have hoksub := hbelow name _ rfl
      rw [patternCount, patternCount, ih hrest, patternCountEntry, patternCountEntry,
        patternsRead_reordered hsub hoksub, inside_reordered hsub hoksub, ihsub hoksub]
  | swap e e' rest =>
      simp only [patternCount]
      omega
  | trans hfirst _ ih ih' =>
      exact (ih hok dir scope).trans (ih' (hfirst.directoryOk hok) dir scope)

theorem Room.reordered {inRepo : Bool} (horder : Reordered entries entries')
    (hok : DirectoryOk entries) (hroom : Room fnmatch dir inRepo entries s) :
    Room fnmatch dir inRepo entries' s where
  files := by
    rw [← inside_reordered horder hok, ← (kept_reordered fnmatch horder hok dir _).length_eq]
    exact hroom.files
  patterns := by
    rw [← inside_reordered horder hok, ← patternsRead_reordered horder hok,
      ← patternCount_reordered fnmatch horder hok]
    exact hroom.patterns

/-- However `qsort` orders files of one size, these are the sizes in descending order. -/
theorem Sorts.sizes {files files' sorted : List FileEntry} (hsorts : Sorts files sorted)
    (hperm : files.Perm files') :
    sorted.map FileEntry.size = (files'.map FileEntry.size).insertionSort (· ≥ ·) := by
  have hsizes : (sorted.map FileEntry.size).Perm
      ((files'.map FileEntry.size).insertionSort (· ≥ ·)) :=
    ((hsorts.perm.trans hperm).map _).trans (List.perm_insertionSort _ _).symm
  have hdescending : (sorted.map FileEntry.size).Pairwise (· ≥ ·) :=
    List.pairwise_map.mpr hsorts.descending
  exact hsizes.eq_of_pairwise' hdescending (List.pairwise_insertionSort _ _)

/-- `fnmatch` on patterns without special characters. -/
def literalMatch (pattern text : Text) (_pathname : Bool) : Bool := pattern = text

/-- A repository that ignores `build`, with a repository inside. -/
def outerRepository : List Entry :=
  [.dir ".git".toList [], .file ".gitignore".toList 1 "build\n".toList,
    .dir "sub".toList [.dir ".git".toList [], .file "build".toList 2 "ab".toList,
      .file "notes".toList 3 "abcdefg\n".toList]]

def initial : Scanner := ⟨addPattern ".git/".toList "/r".toList [], []⟩

theorem outerRepository_ok : DirectoryOk outerRepository := by
  simp [outerRepository, LastChanged.directoryOk_cons_iff, LastChanged.directoryOk_nil,
    Entry.name]

end

end FileSize

end AutomateLinux
