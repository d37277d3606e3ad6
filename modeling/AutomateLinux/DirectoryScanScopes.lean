import AutomateLinux.DirectoryScan

/-!
# The list of patterns and the patterns in force

What the one list says about a path below the entries still to come is what the
patterns in force say, as long as both are cleared when a repository is entered: the
patterns of a directory say nothing about a path elsewhere.
-/

namespace AutomateLinux

namespace LastChanged

/-! ## Paths -/

section

variable {dir name other path : Text}

theorem child_ne_dot (dir name : Text) : child dir name ≠ ['.'] := by
  intro heq
  have hmem : '/' ∈ child dir name := by simp [child]
  rw [heq] at hmem
  simp at hmem

theorem under_of_child (hpath : pathIsUnderDir path (child dir name) = true) :
    ∃ rest, path = dir ++ '/' :: (name ++ rest) ∧ ∀ c, rest.head? = some c → c = '/' := by
  obtain ⟨rest, rfl, hrest⟩ := (pathIsUnderDir_iff.mp hpath).resolve_left (child_ne_dot dir name)
  exact ⟨rest, by simp [child], hrest⟩

theorem child_under_self (dir name : Text) :
    pathIsUnderDir (child dir name) (child dir name) = true :=
  pathIsUnderDir_iff.mpr (Or.inr ⟨[], by simp, by simp⟩)

theorem child_under (dir name : Text) : pathIsUnderDir (child dir name) dir = true :=
  pathIsUnderDir_iff.mpr (Or.inr ⟨'/' :: name, rfl, by simp⟩)

theorem under_of_under_child (hpath : pathIsUnderDir path (child (child dir name) other) = true) :
    pathIsUnderDir path (child dir name) = true :=
  pathIsUnderDir_trans hpath (child_under _ _) (child_ne_dot _ _)

theorem takeWhile_name {rest : Text} (hname : '/' ∉ name)
    (hrest : ∀ c, rest.head? = some c → c = '/') :
    (name ++ rest).takeWhile (fun c => c ≠ '/') = name := by
  have hall : ∀ c ∈ name, decide (c ≠ '/') = true := by
    intro c hc
    rw [decide_eq_true_eq]
    rintro rfl
    exact hname hc
  rw [List.takeWhile_append_of_pos hall]
  cases rest with
  | nil => simp
  | cons c rest => simp [hrest c rfl]

/-- A path is below one entry of a directory at most. -/
theorem name_eq_of_under (hname : '/' ∉ name) (hother : '/' ∉ other)
    (hpath : pathIsUnderDir path (child dir name) = true)
    (hpath' : pathIsUnderDir path (child dir other) = true) : name = other := by
  obtain ⟨rest, rfl, hrest⟩ := under_of_child hpath
  obtain ⟨rest', heq, hrest'⟩ := under_of_child hpath'
  have hbehind := (List.cons.inj (List.append_cancel_left heq)).2
  rw [← takeWhile_name hname hrest, ← takeWhile_name hother hrest', hbehind]

end

/-! ## One directory -/

section

variable {fnmatch : Text → Text → Bool → Bool} {dir path : Text} {scope : Scope}
  {entries rest : List Entry} {e : Entry} {s s' : Scanner} {isDir : Bool}

theorem ownPatterns_baseDir {p : IgnorePattern} (hp : p ∈ ownPatterns dir entries) :
    p.baseDir = dir := by
  rcases List.mem_append.mp hp with hp | hp
  · exact patternsOf_baseDir hp
  · split at hp
    · exact parsePattern_baseDir (Option.mem_toList.mp hp)
    · exact absurd hp List.not_mem_nil

/-- The list decides about the paths below these entries as the patterns in force do. -/
def Governs (fnmatch : Text → Text → Bool → Bool) (ignorePatterns : List IgnorePattern)
    (scope : Scope) (dir : Text) (entries : List Entry) : Prop :=
  ∀ patterns, scope = some patterns → ∀ e ∈ entries, ∀ path,
    pathIsUnderDir path (child dir e.name) = true → ∀ isDir,
      shouldIgnore fnmatch ignorePatterns path isDir = shouldIgnore fnmatch patterns path isDir

theorem Governs.ignores (hgoverns : Governs fnmatch s.ignorePatterns scope dir [e])
    (isDir : Bool) :
    (scope.isSome && shouldIgnore fnmatch s.ignorePatterns (child dir e.name) isDir) =
      ignores fnmatch scope (child dir e.name) isDir := by
  cases hscope : scope with
  | none => rfl
  | some patterns =>
      exact hgoverns patterns hscope e List.mem_cons_self _ (child_under_self _ _) isDir

theorem enter_spec (scope : Scope)
    (hroom : s.ignorePatterns.length + (ownPatterns dir entries).length ≤ MAX_IGNORE) :
    (enter dir scope.isSome entries s).1 = (inside dir entries scope).isSome ∧
      (enter dir scope.isSome entries s).2.files = s.files ∧
      (enter dir scope.isSome entries s).2.ignorePatterns =
        (if isRepository entries then ownPatterns dir entries
        else if scope.isSome then s.ignorePatterns ++ ownPatterns dir entries
        else s.ignorePatterns) := by
  unfold enter inside ownPatterns at *
  rw [List.length_append] at hroom
  cases hrepository : isRepository entries with
  | true =>
      rw [hrepository, if_pos rfl] at hroom
      have hread : readGitignore (gitignore entries) dir [] = patternsOf (gitignore entries) dir :=
        readGitignore_of_fits (by rw [List.length_nil]; omega)
      have hadd : addPattern ".git/".toList dir (patternsOf (gitignore entries) dir) =
          patternsOf (gitignore entries) dir ++ (parsePattern ".git/".toList dir).toList :=
        addPattern_of_fits (by omega)
      rw [if_pos rfl, hread, hadd]
      exact ⟨rfl, rfl, rfl⟩
  | false =>
      rw [hrepository, if_neg Bool.false_ne_true, List.length_nil] at hroom
      cases scope with
      | none => exact ⟨rfl, rfl, rfl⟩
      | some patterns =>
          have hread : readGitignore (gitignore entries) dir s.ignorePatterns =
              s.ignorePatterns ++ patternsOf (gitignore entries) dir :=
            readGitignore_of_fits (by omega)
          simp [hread]

theorem enter_length (scope : Scope)
    (hroom : s.ignorePatterns.length + (ownPatterns dir entries).length ≤ MAX_IGNORE) :
    (enter dir scope.isSome entries s).2.ignorePatterns.length ≤
      s.ignorePatterns.length + (ownPatterns dir entries).length := by
  rw [(enter_spec scope hroom).2.2]
  split
  · omega
  · split
    · rw [List.length_append]
    · omega

/-- What a scan of these entries does. -/
structure Scanned (fnmatch : Text → Text → Bool → Bool) (dir : Text) (entries : List Entry)
    (s s' : Scanner) (out : List FileEntry × Bool) : Prop where
  files : s'.files = s.files ++ out.1
  fileRoom : out.1.length ≤ fileTotal entries
  patternRoom : s'.ignorePatterns.length ≤ s.ignorePatterns.length + patternTotal dir entries
  elsewhere : ∀ path isDir, (∀ e ∈ entries, pathIsUnderDir path (child dir e.name) = false) →
    shouldIgnore fnmatch s'.ignorePatterns path isDir =
      if out.2 then false else shouldIgnore fnmatch s.ignorePatterns path isDir

theorem scanned_nil : Scanned fnmatch dir [] s s ([], false) := by
  refine ⟨by simp, by simp [fileTotal], by simp [patternTotal], fun path isDir _ => ?_⟩
  simp

theorem Scanned.governs {out : List FileEntry × Bool}
    (hscanned : Scanned fnmatch dir [e] s s' out)
    (hdistinct : ((e :: rest).map Entry.name).Nodup) (hnoSlash : ∀ e' ∈ e :: rest, '/' ∉ e'.name)
    (hgoverns : Governs fnmatch s.ignorePatterns scope dir rest) :
    Governs fnmatch s'.ignorePatterns (if out.2 then dropped scope else scope) dir rest := by
  intro patterns hpatterns e' he' path hpath isDir
  have hother : pathIsUnderDir path (child dir e.name) = false := by
    by_contra hunder
    rw [Bool.not_eq_false] at hunder
    have hsame := name_eq_of_under (hnoSlash e List.mem_cons_self)
      (hnoSlash e' (List.mem_cons_of_mem e he')) hunder hpath
    rw [List.map_cons, List.nodup_cons] at hdistinct
    exact hdistinct.1 (hsame ▸ List.mem_map_of_mem he')
  rw [hscanned.elsewhere path isDir (by simpa using hother)]
  cases hreset : out.2 with
  | true =>
      rw [hreset, if_pos rfl] at hpatterns
      obtain ⟨-, -, rfl⟩ := Option.map_eq_some_iff.mp hpatterns
      rfl
  | false =>
      rw [hreset, if_neg Bool.false_ne_true] at hpatterns
      exact hgoverns patterns hpatterns e' he' path hpath isDir

theorem Scanned.cons {s'' : Scanner} {first out : List FileEntry × Bool}
    (hfirst : Scanned fnmatch dir [e] s s' first) (hrest : Scanned fnmatch dir rest s' s'' out) :
    Scanned fnmatch dir (e :: rest) s s'' (first.1 ++ out.1, first.2 || out.2) := by
  constructor
  · rw [hrest.files, hfirst.files, List.append_assoc]
  · have hroom := hfirst.fileRoom
    have hroom' := hrest.fileRoom
    simp only [fileTotal] at hroom ⊢
    rw [List.length_append]
    omega
  · have hroom := hfirst.patternRoom
    have hroom' := hrest.patternRoom
    simp only [patternTotal] at hroom ⊢
    omega
  · intro path isDir hpath
    rw [hrest.elsewhere path isDir fun e' he' => hpath e' (List.mem_cons_of_mem e he'),
      hfirst.elsewhere path isDir (by simpa using hpath e List.mem_cons_self)]
    cases first.2 <;> cases out.2 <;> rfl

theorem Governs.cons_iff {ignorePatterns : List IgnorePattern} :
    Governs fnmatch ignorePatterns scope dir (e :: rest) ↔
      Governs fnmatch ignorePatterns scope dir [e] ∧
        Governs fnmatch ignorePatterns scope dir rest := by
  simp only [Governs, List.forall_mem_cons, List.not_mem_nil, false_implies, implies_true,
    and_true]
  exact ⟨fun h => ⟨fun patterns hp => (h patterns hp).1, fun patterns hp => (h patterns hp).2⟩,
    fun h patterns hp => ⟨h.1 patterns hp, h.2 patterns hp⟩⟩

theorem Governs.inside {name : Text} {sub : List Entry}
    (hgoverns : Governs fnmatch s.ignorePatterns scope dir [.dir name sub])
    (hs' : s'.ignorePatterns =
      if isRepository sub then ownPatterns (child dir name) sub
      else if scope.isSome then s.ignorePatterns ++ ownPatterns (child dir name) sub
      else s.ignorePatterns) :
    Governs fnmatch s'.ignorePatterns (inside (child dir name) sub scope) (child dir name) sub := by
  intro patterns hpatterns e' _ path hpath isDir
  unfold LastChanged.inside at hpatterns
  cases hrepository : isRepository sub with
  | true =>
      rw [hrepository, if_pos rfl] at hs' hpatterns
      rw [hs', Option.some.inj hpatterns]
  | false =>
      rw [hrepository, if_neg Bool.false_ne_true] at hs' hpatterns
      obtain ⟨outer, rfl, rfl⟩ := Option.map_eq_some_iff.mp hpatterns
      rw [Option.isSome_some, if_pos rfl] at hs'
      rw [hs', shouldIgnore_append, shouldIgnore_append,
        hgoverns outer rfl _ List.mem_cons_self path (under_of_under_child hpath) isDir]

/-- What is in a directory says nothing about a path elsewhere, but a repository takes
the patterns away. -/
theorem shouldIgnore_elsewhere {name : Text} {sub : List Entry}
    (hs' : s'.ignorePatterns =
      if isRepository sub then ownPatterns (child dir name) sub
      else if scope.isSome then s.ignorePatterns ++ ownPatterns (child dir name) sub
      else s.ignorePatterns)
    (hpath : pathIsUnderDir path (child dir name) = false) :
    shouldIgnore fnmatch s'.ignorePatterns path isDir =
      if isRepository sub then false else shouldIgnore fnmatch s.ignorePatterns path isDir := by
  have hown : ∀ p ∈ ownPatterns (child dir name) sub, pathIsUnderDir path p.baseDir = false := by
    intro p hp
    rw [ownPatterns_baseDir hp, hpath]
  cases hrepository : isRepository sub with
  | true =>
      rw [hrepository, if_pos rfl] at hs'
      rw [hs', if_pos rfl, ← List.nil_append (ownPatterns _ _),
        shouldIgnore_append_of_not_under hown]
      rfl
  | false =>
      rw [hrepository, if_neg Bool.false_ne_true] at hs'
      rw [if_neg Bool.false_ne_true, hs']
      split
      · exact shouldIgnore_append_of_not_under hown
      · rfl

/-- The scan of these entries follows the patterns in force, while its arrays have room. -/
def Follows (fnmatch : Text → Text → Bool → Bool) (entries : List Entry) : Prop :=
  ∀ dir scope s, Governs fnmatch s.ignorePatterns scope dir entries →
    s.files.length + fileTotal entries ≤ MAX_FILES →
    s.ignorePatterns.length + patternTotal dir entries ≤ MAX_IGNORE →
    Scanned fnmatch dir entries s (scanEntries fnmatch dir scope.isSome entries s)
      (run fnmatch dir scope entries)

theorem follows_file {name content : Text} {mtime : Int} :
    Follows fnmatch [.file name mtime content] := by
  intro dir scope s hgoverns hfiles hpatterns
  have hdecide := hgoverns.ignores false
  simp only [Entry.name] at hdecide
  simp only [scanEntries, scanEntry, run, runEntry, hdecide]
  cases ignores fnmatch scope (child dir name) false with
  | true =>
      refine ⟨by simp, by simp, by simp, fun path isDir _ => ?_⟩
      simp
  | false =>
      have hroom : s.files.length < MAX_FILES := by
        simp only [fileTotal, Entry.fileTotal] at hfiles
        omega
      refine ⟨by simp [addFile, hroom], by simp [fileTotal, Entry.fileTotal],
        by simp [addFile, hroom], fun path isDir _ => ?_⟩
      simp [addFile, hroom]

theorem follows_special {name : Text} : Follows fnmatch [.special name] := by
  intro dir scope s _ _ _
  refine ⟨by simp [scanEntries, scanEntry, run, runEntry], by simp [run, runEntry],
    by simp [scanEntries, scanEntry], fun path isDir _ => ?_⟩
  simp [scanEntries, scanEntry, run, runEntry]

theorem follows_dir {name : Text} {sub : List Entry} (hsub : Follows fnmatch sub) :
    Follows fnmatch [.dir name sub] := by
  intro dir scope s hgoverns hfiles hpatterns
  have hdecide := hgoverns.ignores true
  simp only [Entry.name] at hdecide
  simp only [fileTotal, Entry.fileTotal, Nat.add_zero] at hfiles
  simp only [patternTotal, Entry.patternTotal, Nat.add_zero] at hpatterns
  simp only [scanEntries, scanEntry, run, runEntry, hdecide]
  cases ignores fnmatch scope (child dir name) true with
  | true =>
      refine ⟨by simp, by simp, by simp, fun path isDir _ => ?_⟩
      simp
  | false =>
      have hroom : s.ignorePatterns.length + (ownPatterns (child dir name) sub).length ≤
          MAX_IGNORE := by omega
      obtain ⟨hin, henterFiles, henter⟩ := enter_spec scope hroom
      have hlength := enter_length scope hroom
      have hbelow := hsub (child dir name) (inside (child dir name) sub scope)
        (enter (child dir name) scope.isSome sub s).2 (hgoverns.inside henter)
        (by rw [henterFiles]; omega) (by omega)
      rw [← hin] at hbelow
      simp only [Bool.false_eq_true, if_false, List.append_nil, Bool.or_false]
      constructor
      · rw [hbelow.files, henterFiles]
      · simpa only [fileTotal, Entry.fileTotal, Nat.add_zero] using hbelow.fileRoom
      · have hroom := hbelow.patternRoom
        simp only [patternTotal, Entry.patternTotal, Nat.add_zero]
        omega
      · intro path isDir hpath
        have hname : pathIsUnderDir path (child dir name) = false :=
          hpath _ List.mem_cons_self
        rw [hbelow.elsewhere path isDir, shouldIgnore_elsewhere henter hname]
        · cases isRepository sub <;> simp
        · intro e' _
          by_contra hunder
          rw [Bool.not_eq_false] at hunder
          rw [under_of_under_child hunder] at hname
          exact Bool.noConfusion hname

theorem follows_cons (hdistinct : ((e :: rest).map Entry.name).Nodup)
    (hnoSlash : ∀ e' ∈ e :: rest, '/' ∉ e'.name) (hfirst : Follows fnmatch [e])
    (hrest : Follows fnmatch rest) : Follows fnmatch (e :: rest) := by
  intro dir scope s hgoverns hfiles hpatterns
  simp only [fileTotal] at hfiles
  simp only [patternTotal] at hpatterns
  obtain ⟨hgovernsFirst, hgovernsRest⟩ := Governs.cons_iff.mp hgoverns
  have hscanned := hfirst dir scope s hgovernsFirst (by simp only [fileTotal]; omega)
    (by simp only [patternTotal]; omega)
  have hroom := hscanned.fileRoom
  have hroom' := hscanned.patternRoom
  simp only [fileTotal] at hroom
  simp only [patternTotal] at hroom'
  have hbehind := hrest dir _ _ (hscanned.governs hdistinct hnoSlash hgovernsRest)
    (by rw [hscanned.files, List.length_append]; omega) (by omega)
  have hsome : (if (run fnmatch dir scope [e]).2 then dropped scope else scope).isSome =
      scope.isSome := by
    split
    · exact Option.isSome_map
    · rfl
  rw [hsome] at hbehind
  have hall := hscanned.cons hbehind
  simpa only [scanEntries, run, List.append_nil, Bool.or_false] using hall

theorem follows_of_directoryOk (hok : DirectoryOk entries) : Follows fnmatch entries := by
  induction hok with
  | @intro entries distinct noSlash below ih =>
      have hentry : ∀ e ∈ entries, Follows fnmatch [e] := by
        intro e he
        cases e with
        | file name mtime content => exact follows_file
        | special name => exact follows_special
        | dir name sub => exact follows_dir (ih name sub he)
      clear ih below
      induction entries with
      | nil =>
          intro dir scope s _ _ _
          exact scanned_nil
      | cons e rest ihRest =>
          refine follows_cons distinct noSlash (hentry e List.mem_cons_self) (ihRest ?_ ?_ ?_)
          · exact (List.nodup_cons.mp distinct).2
          · exact fun e' he' => noSlash e' (List.mem_cons_of_mem e he')
          · exact fun e' he' => hentry e' (List.mem_cons_of_mem e he')

/-- The patterns that `main` has read before the scan count if there is a repository
above. -/
def outerScope (inRepo : Bool) (ignorePatterns : List IgnorePattern) : Scope :=
  if inRepo then some ignorePatterns else none

theorem outerScope_isSome (inRepo : Bool) (ignorePatterns : List IgnorePattern) :
    (outerScope inRepo ignorePatterns).isSome = inRepo := by
  cases inRepo <;> rfl

theorem governs_enter (inRepo : Bool)
    (hroom : s.ignorePatterns.length + (ownPatterns dir entries).length ≤ MAX_IGNORE) :
    Governs fnmatch (enter dir inRepo entries s).2.ignorePatterns
      (inside dir entries (outerScope inRepo s.ignorePatterns)) dir entries := by
  intro patterns hpatterns e _ path _ isDir
  have henter := (enter_spec (outerScope inRepo s.ignorePatterns) hroom).2.2
  rw [outerScope_isSome] at henter
  rw [henter]
  unfold inside at hpatterns
  cases hrepository : isRepository entries with
  | true =>
      rw [hrepository, if_pos rfl] at hpatterns
      rw [if_pos rfl, Option.some.inj hpatterns]
  | false =>
      rw [hrepository, if_neg Bool.false_ne_true] at hpatterns
      cases inRepo with
      | false => exact nomatch hpatterns
      | true => rw [if_neg Bool.false_ne_true, if_pos rfl, ← Option.some.inj hpatterns]

theorem scanDir_files (inRepo : Bool) (hok : DirectoryOk entries)
    (hfiles : s.files.length + fileTotal entries ≤ MAX_FILES)
    (hpatterns : s.ignorePatterns.length + (ownPatterns dir entries).length +
      patternTotal dir entries ≤ MAX_IGNORE) :
    (scanDir fnmatch dir inRepo entries s).files = s.files ++
      (run fnmatch dir (inside dir entries (outerScope inRepo s.ignorePatterns)) entries).1 := by
  have hroom : s.ignorePatterns.length + (ownPatterns dir entries).length ≤ MAX_IGNORE := by omega
  obtain ⟨hin, henterFiles, -⟩ := enter_spec (outerScope inRepo s.ignorePatterns) hroom
  have hlength := enter_length (outerScope inRepo s.ignorePatterns) hroom
  rw [outerScope_isSome] at hin henterFiles hlength
  have hgoverns : Governs fnmatch (enter dir inRepo entries s).2.ignorePatterns _ dir entries :=
    governs_enter inRepo hroom
  have hscanned := follows_of_directoryOk hok dir _ _ hgoverns (by rw [henterFiles]; omega)
    (by omega)
  rw [← hin] at hscanned
  rw [← henterFiles]
  exact hscanned.files

end

end LastChanged

end AutomateLinux
