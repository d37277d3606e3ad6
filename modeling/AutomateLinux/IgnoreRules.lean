import AutomateLinux.IgnorePatterns
import AutomateLinux.TextOperations

/-!
# Ignore patterns as git reads them

For patterns without special characters `fnmatch` compares texts, and git's rules say
which path a pattern names: one with a slash in front or inside is anchored at the
directory of its `.gitignore`, one without names an entry at any depth, a slash at the
end asks for a directory, and the last pattern that matches decides.  `lastChanged`
and `fileSize` have the same code for them.
-/

namespace AutomateLinux

/-! ## The second tool -/

namespace FileSize

abbrev addPattern := LastChanged.addPattern

abbrev pathMatches := LastChanged.pathMatches

abbrev pathIsUnderDir := LastChanged.pathIsUnderDir

abbrev shouldIgnore := LastChanged.shouldIgnore

end FileSize

namespace LastChanged

open TextOperations

/-! ## Paths -/

/-- The directory that the components lead to from `root`. -/
def pathText (root : Text) (components : List Text) : Text :=
  root ++ components.flatMap fun c => '/' :: c

def IsComponent (c : Text) : Prop := c ≠ [] ∧ '/' ∉ c ∧ c ≠ ['.']

instance (c : Text) : Decidable (IsComponent c) := inferInstanceAs (Decidable (_ ∧ _))

/-! ## Git's rules -/

/-- A line of the `.gitignore` of a directory. -/
structure IgnoreLine where
  directory : List Text
  line : Text

namespace IgnoreLine

def isNegation (l : IgnoreLine) : Bool := l.line.head? = some '!'

def pattern (l : IgnoreLine) : Text := if l.isNegation then l.line.tail else l.line

def isDirectory (l : IgnoreLine) : Bool := l.pattern.getLast? = some '/'

def body (l : IgnoreLine) : Text := if l.isDirectory then l.pattern.dropLast else l.pattern

def leadingSlash (l : IgnoreLine) : Bool := l.body.head? = some '/'

/-- The pattern matches a path below its directory, given from there. -/
def matchesBelow (l : IgnoreLine) (path : List Text) (isDir : Bool) : Bool :=
  (!l.isDirectory || isDir) &&
    if '/' ∈ l.body then
      decide ((if l.leadingSlash then l.body.tail else l.body) = List.intercalate ['/'] path)
    else path.getLast? = some l.body

def gitMatches (path : List Text) (isDir : Bool) (l : IgnoreLine) : Bool :=
  decide (l.directory <+: path) && l.matchesBelow (path.drop l.directory.length) isDir

end IgnoreLine

/-- The last line that matches decides. -/
def gitIgnores (lines : List IgnoreLine) (path : List Text) (isDir : Bool) : Bool :=
  (lines.filter (IgnoreLine.gitMatches path isDir)).getLast?.any fun l => !l.isNegation

/-! ## The tools on the same lines -/

def ignorePatternsOf (root : Text) (lines : List IgnoreLine) : List IgnorePattern :=
  lines.foldl (fun ignorePatterns l => addPattern l.line (pathText root l.directory) ignorePatterns)
    []

def SPECIAL : List Char := ['*', '?', '[', '\\']

/-- A pattern without special characters and blanks around it, and no comment. -/
structure IgnoreLine.IsPlain (l : IgnoreLine) : Prop where
  noSpecial : ∀ c ∈ l.line, c ∉ SPECIAL
  noBlankBefore : ∀ c ∈ l.pattern.head?, isBlank c = false
  noBlankAfter : ∀ c ∈ l.pattern.getLast?, isBlank c = false
  noComment : l.line.head? ≠ some '#'

/-- The lines fit into the table, and the path is none of their directories. -/
structure Applies (lines : List IgnoreLine) (path : List Text) : Prop where
  plain : ∀ l ∈ lines, l.IsPlain
  components : ∀ l ∈ lines, ∀ c ∈ l.directory, IsComponent c
  below : ∀ l ∈ lines, l.directory ≠ path
  path : ∀ c ∈ path, IsComponent c
  capacity : lines.length ≤ MAX_IGNORE

/-- Both tools decide as git does. -/
structure DecidesAsGit (fnmatch : Text → Text → Bool → Bool) (root : Text)
    (lines : List IgnoreLine) (path : List Text) (isDir : Bool) : Prop where
  lastChanged : shouldIgnore fnmatch (ignorePatternsOf root lines) (pathText root path) isDir =
    gitIgnores lines path isDir
  fileSize : FileSize.shouldIgnore fnmatch (ignorePatternsOf root lines) (pathText root path)
    isDir = gitIgnores lines path isDir

/-- If the last line that matches has a slash in front, leaving out all lines that do
comes to the same. -/
def SlashHarmless (lines : List IgnoreLine) (path : List Text) (isDir : Bool) : Prop :=
  ∀ l ∈ (lines.filter (IgnoreLine.gitMatches path isDir)).getLast?, l.leadingSlash = true →
    gitIgnores (lines.filter fun l => !l.leadingSlash) path isDir = !l.isNegation

/-! ## Paths as texts -/

section

variable {root : Text} {path directory : List Text} {c : Text}

theorem pathText_append (root : Text) (first second : List Text) :
    pathText root (first ++ second) = pathText (pathText root first) second := by
  unfold pathText
  rw [List.flatMap_append, List.append_assoc]

theorem pathText_eq_intercalate (root : Text) (hpath : path ≠ []) :
    pathText root path = root ++ '/' :: List.intercalate ['/'] path := by
  unfold pathText
  induction path with
  | nil => contradiction
  | cons c rest ih =>
      cases rest with
      | nil => simp
      | cons next rest =>
          have hrest := ih (List.cons_ne_nil _ _)
          rw [List.append_cancel_left_eq] at hrest
          rw [List.flatMap_cons, hrest, List.intercalate_cons_cons]
          simp

/-- A component ends at the next slash. -/
theorem component_append_inj {c c' rest rest' : Text} (hc : '/' ∉ c) (hc' : '/' ∉ c')
    (hrest : ∀ x ∈ rest.head?, x = '/') (hrest' : ∀ x ∈ rest'.head?, x = '/')
    (heq : c ++ rest = c' ++ rest') : c = c' ∧ rest = rest' := by
  have htake : ∀ (c rest : Text), '/' ∉ c → (∀ x ∈ rest.head?, x = '/') →
      (c ++ rest).takeWhile (fun x => x ≠ '/') = c := by
    intro c rest hc hrest
    rw [List.takeWhile_append_of_pos]
    · cases rest with
      | nil => simp
      | cons x rest =>
          obtain rfl := hrest x rfl
          simp
    · intro x hx
      simpa using fun h : x = '/' => hc (h ▸ hx)
  have hsame : c = c' := by
    rw [← htake c rest hc hrest, heq, htake c' rest' hc' hrest']
  subst hsame
  exact ⟨rfl, List.append_cancel_left heq⟩

theorem head?_flatMap_slash (path : List Text) :
    ∀ x ∈ (path.flatMap fun c => '/' :: c).head?, x = '/' := by
  cases path with
  | nil => simp
  | cons c path =>
      intro x hx
      simpa using hx.symm

theorem prefix_of_flatMap_append {rest : Text} (hdirectory : ∀ c ∈ directory, '/' ∉ c)
    (hpath : ∀ c ∈ path, '/' ∉ c) (hrest : ∀ x ∈ rest.head?, x = '/')
    (heq : path.flatMap (fun c => '/' :: c) = directory.flatMap (fun c => '/' :: c) ++ rest) :
    directory <+: path := by
  induction directory generalizing path with
  | nil => exact List.nil_prefix
  | cons c directory ih =>
      obtain ⟨hc, hbelow⟩ := List.forall_mem_cons.mp hdirectory
      cases path with
      | nil => simp at heq
      | cons c' path =>
          obtain ⟨hc', hother⟩ := List.forall_mem_cons.mp hpath
          rw [List.flatMap_cons, List.flatMap_cons, List.cons_append, List.cons_append,
            List.cons_append, List.cons.injEq, List.append_assoc] at heq
          have hhead : ∀ x ∈ (directory.flatMap (fun c => '/' :: c) ++ rest).head?, x = '/' := by
            cases directory with
            | nil => exact hrest
            | cons d directory => exact head?_flatMap_slash (d :: directory)
          obtain ⟨rfl, hmore⟩ := component_append_inj hc' hc (head?_flatMap_slash path) hhead heq.2
          exact List.cons_prefix_cons.mpr ⟨rfl, ih hbelow hother hmore⟩

theorem pathText_ne_dot (hdirectory : directory ≠ []) : pathText root directory ≠ ['.'] := by
  intro hdot
  have hmem : '/' ∈ pathText root directory := by
    obtain ⟨c, rest, rfl⟩ := List.exists_cons_of_ne_nil hdirectory
    simp [pathText]
  rw [hdot] at hmem
  simp at hmem

variable (root) in
theorem pathIsUnderDir_pathText (hdirectory : ∀ c ∈ directory, '/' ∉ c)
    (hpath : ∀ c ∈ path, '/' ∉ c) :
    pathIsUnderDir (pathText root path) (pathText root directory) = true ↔
      directory <+: path := by
  rw [pathIsUnderDir_iff]
  constructor
  · rintro (hdot | ⟨rest, heq, hrest⟩)
    · by_cases hempty : directory = []
      · rw [hempty]
        exact List.nil_prefix
      · exact absurd hdot (pathText_ne_dot hempty)
    · unfold pathText at heq
      rw [List.append_assoc, List.append_cancel_left_eq] at heq
      exact prefix_of_flatMap_append hdirectory hpath (fun x hx => hrest x hx) heq
  · rintro ⟨below, rfl⟩
    refine Or.inr ⟨below.flatMap fun c => '/' :: c, ?_, fun x hx => head?_flatMap_slash below x hx⟩
    rw [pathText_append]
    rfl

variable (root directory) in
/-- Seen from one of the directories above it, a path is what follows, or that behind
a `./`. -/
theorem relPath_pathText (hpath : path ≠ []) :
    relPath (pathText root (directory ++ path)) (pathText root directory) =
        List.intercalate ['/'] path ∨
      relPath (pathText root (directory ++ path)) (pathText root directory) =
        '.' :: '/' :: List.intercalate ['/'] path := by
  rw [pathText_append, pathText_eq_intercalate _ hpath]
  unfold relPath
  split
  · rename_i hdot
    rw [hdot]
    exact Or.inr rfl
  · rw [if_pos (List.prefix_append _ _), List.drop_left]
    exact Or.inl rfl

/-! ## Matching one pattern -/

theorem withoutDotSlash_intercalate (hpath : ∀ c ∈ path, IsComponent c) :
    withoutDotSlash (List.intercalate ['/'] path) = List.intercalate ['/'] path := by
  refine if_neg fun hdot => ?_
  obtain ⟨rest, hrest⟩ := hdot
  cases path with
  | nil => simp at hrest
  | cons c path =>
      obtain ⟨hne, hslash, hself⟩ := hpath c List.mem_cons_self
      cases path with
      | nil =>
          rw [List.intercalate_singleton] at hrest
          exact hslash (hrest ▸ by simp)
      | cons next path =>
          rw [List.intercalate_cons_cons, List.append_assoc] at hrest
          have hsame : ['.'] = c ∧ '/' :: rest = _ :=
            component_append_inj (by simp) hslash (by simp) (by simp) hrest
          exact hself hsame.1.symm

theorem withoutDotSlash_dotSlash (text : Text) : withoutDotSlash ('.' :: '/' :: text) = text :=
  if_pos ⟨text, rfl⟩

theorem exists_of_mem_afterSlashes {text p : Text} (hp : p ∈ afterSlashes text) :
    ∃ front, text = front ++ '/' :: p := by
  induction text with
  | nil => simp [afterSlashes] at hp
  | cons c text ih =>
      rw [afterSlashes] at hp
      split at hp
      · rename_i hc
        subst hc
        rcases List.mem_cons.mp hp with rfl | hp
        · exact ⟨[], rfl⟩
        · obtain ⟨front, rfl⟩ := ih hp
          exact ⟨'/' :: front, rfl⟩
      · obtain ⟨front, rfl⟩ := ih hp
        exact ⟨c :: front, rfl⟩

/-- The text ends in the component. -/
def EndsIn (text last : Text) : Prop := text = last ∨ ∃ front, text = front ++ '/' :: last

theorem basename_of_endsIn {text last : Text} (hends : EndsIn text last) (hlast : '/' ∉ last) :
    (text.reverse.takeWhile fun c => c ≠ '/').reverse = last := by
  have hkeep : ∀ c ∈ last, decide (c ≠ '/') = true := by
    intro c hc
    simpa using fun h : c = '/' => hlast (h ▸ hc)
  rcases hends with rfl | ⟨front, rfl⟩
  · rw [List.takeWhile_eq_self_iff.mpr, List.reverse_reverse]
    exact fun c hc => hkeep c (List.mem_reverse.mp hc)
  · exact rtakeWhile_append_cons (by simp) hkeep front

theorem endsIn_intercalate (init : List Text) (last : Text) :
    EndsIn (List.intercalate ['/'] (init ++ [last])) last := by
  induction init with
  | nil =>
      left
      simp
  | cons c init ih =>
      have hne : init ++ [last] ≠ [] := by simp
      obtain ⟨next, rest, hrest⟩ := List.exists_cons_of_ne_nil hne
      right
      rw [List.cons_append, hrest, List.intercalate_cons_cons, ← hrest]
      rcases ih with hself | ⟨front, hfront⟩
      · exact ⟨c, by rw [hself, List.append_assoc]; rfl⟩
      · exact ⟨c ++ '/' :: front, by simp [hfront]⟩

section

variable {fnmatch : Text → Text → Bool → Bool}

/-- `fnmatch` compares texts where the pattern has no special characters. -/
def ComparesPlain (fnmatch : Text → Text → Bool → Bool) : Prop :=
  ∀ pattern text flag, (∀ c ∈ pattern, c ∉ SPECIAL) →
    fnmatch pattern text flag = decide (pattern = text)

theorem any_suffix_iff (hfnmatch : ComparesPlain fnmatch) {pattern last : Text}
    {init : List Text} (hpattern : ∀ c ∈ pattern, c ∉ SPECIAL) (hslash : '/' ∉ pattern)
    (hlast : '/' ∉ last)
    (hany : ((List.intercalate ['/'] (init ++ [last]) ::
      afterSlashes (List.intercalate ['/'] (init ++ [last]))).filter fun p => p ≠ []).any
        (fun p => fnmatch pattern p true) = true) : pattern = last := by
  obtain ⟨p, hp, hmatch⟩ := List.any_eq_true.mp hany
  rw [hfnmatch _ _ _ hpattern, decide_eq_true_eq] at hmatch
  subst hmatch
  have hends : EndsIn (List.intercalate ['/'] (init ++ [last])) pattern := by
    rcases List.mem_cons.mp (List.mem_filter.mp hp).1 with hself | hsuffix
    · exact Or.inl hself.symm
    · exact Or.inr (exists_of_mem_afterSlashes hsuffix)
  rw [← basename_of_endsIn hends hslash, basename_of_endsIn (endsIn_intercalate init last) hlast]

theorem pathMatches_eq (hfnmatch : ComparesPlain fnmatch) {pattern text : Text}
    (hpattern : ∀ c ∈ pattern, c ∉ SPECIAL) (hpath : ∀ c ∈ path, IsComponent c)
    (hne : path ≠ []) (htext : text = List.intercalate ['/'] path ∨
      text = '.' :: '/' :: List.intercalate ['/'] path) (isDirectory isDir : Bool) :
    pathMatches fnmatch pattern text isDirectory isDir =
      ((!isDirectory || isDir) &&
        if '/' ∈ pattern then decide (pattern = List.intercalate ['/'] path)
        else path.getLast? = some pattern) := by
  have hclean : withoutDotSlash text = List.intercalate ['/'] path := by
    rcases htext with rfl | rfl
    · exact withoutDotSlash_intercalate hpath
    · exact withoutDotSlash_dotSlash _
  obtain ⟨init, last, rfl⟩ : ∃ init last, path = init ++ [last] :=
    ⟨path.dropLast, path.getLast hne, (List.dropLast_append_getLast hne).symm⟩
  have hlast : '/' ∉ last := (hpath last (by simp)).2.1
  have hends : EndsIn text last := by
    rcases htext with rfl | rfl
    · exact endsIn_intercalate init last
    · right
      rcases endsIn_intercalate init last with hself | ⟨front, hfront⟩
      · exact ⟨['.'], by rw [hself]; rfl⟩
      · exact ⟨'.' :: '/' :: front, by rw [hfront]; rfl⟩
  unfold pathMatches
  split
  · rename_i hdirectory
    simp_all
  · rename_i hdirectory
    have hallowed : (!isDirectory || isDir) = true := by
      cases isDirectory <;> cases isDir <;> simp_all
    rw [hallowed, Bool.true_and, hclean]
    split
    · exact hfnmatch _ _ _ hpattern
    · rename_i hslash
      rw [basename_of_endsIn hends hlast]
      dsimp only
      rw [hfnmatch _ _ _ hpattern, Bool.eq_iff_iff, Bool.or_eq_true, decide_eq_true_eq,
        decide_eq_true_eq, List.getLast?_append_cons, List.getLast?_singleton, Option.some.injEq]
      constructor
      · rintro (rfl | hany)
        · rfl
        · exact (any_suffix_iff hfnmatch hpattern hslash hlast hany).symm
      · rintro rfl
        exact Or.inl rfl

/-! ## One line -/

variable {l : IgnoreLine} {lines : List IgnoreLine} {isDir : Bool}

theorem parsePattern_line (hplain : l.IsPlain) (baseDir : Text) :
    parsePattern l.line baseDir =
      if l.pattern = [] then none
      else some ⟨l.body, l.isNegation, l.isDirectory, baseDir⟩ := by
  have hdrop : l.pattern.dropWhile isBlank = l.pattern := by
    have hblank := hplain.noBlankBefore
    cases hpattern : l.pattern with
    | nil => rfl
    | cons c rest =>
        rw [hpattern] at hblank
        exact List.dropWhile_cons_of_neg (by simp [hblank c rfl])
  have hread : (if l.line.head? = some '!' then l.line.tail else l.line) = l.pattern := by
    simp [IgnoreLine.pattern, IgnoreLine.isNegation]
  unfold parsePattern
  dsimp only
  rw [hread, hdrop]
  split
  · rfl
  · simp [IgnoreLine.body, IgnoreLine.isDirectory, IgnoreLine.isNegation]

theorem mem_line_of_mem_body {c : Char} (hc : c ∈ l.body) : c ∈ l.line := by
  have hpattern : c ∈ l.pattern := by
    unfold IgnoreLine.body at hc
    split at hc
    · exact List.mem_of_mem_dropLast hc
    · exact hc
  unfold IgnoreLine.pattern at hpattern
  split at hpattern
  · exact List.mem_of_mem_tail hpattern
  · exact hpattern

theorem head?_intercalate_ne (hpath : ∀ c ∈ path, IsComponent c) :
    (List.intercalate ['/'] path).head? ≠ some '/' := by
  cases path with
  | nil => simp
  | cons c path =>
      obtain ⟨hne, hslash, -⟩ := hpath c List.mem_cons_self
      obtain ⟨x, rest, rfl⟩ := List.exists_cons_of_ne_nil hne
      have hx : x ≠ '/' := fun h => hslash (by simp [h])
      cases path with
      | nil => simpa using hx
      | cons next path =>
          rw [List.intercalate_cons_cons]
          simpa using hx

variable (isDir) in
/-- A pattern that keeps a slash in front matches nothing below its directory. -/
theorem pathMatches_line (hfnmatch : ComparesPlain fnmatch) (hplain : l.IsPlain)
    (hpath : ∀ c ∈ path, IsComponent c) (hne : path ≠ []) {text : Text}
    (htext : text = List.intercalate ['/'] path ∨
      text = '.' :: '/' :: List.intercalate ['/'] path) :
    pathMatches fnmatch l.body text l.isDirectory isDir =
      (l.matchesBelow path isDir && !l.leadingSlash) := by
  rw [pathMatches_eq hfnmatch (fun c hc => hplain.noSpecial c (mem_line_of_mem_body hc)) hpath hne
    htext]
  unfold IgnoreLine.matchesBelow
  cases hleading : l.leadingSlash with
  | false => simp
  | true =>
      have hhead : l.body.head? = some '/' := of_decide_eq_true hleading
      have hmem : '/' ∈ l.body := List.mem_of_head? hhead
      have hnot : l.body ≠ List.intercalate ['/'] path := by
        intro heq
        exact head?_intercalate_ne hpath (heq ▸ hhead)
      simp [hmem, hnot]

theorem gitMatches_of_pattern_eq_nil (hpath : ∀ c ∈ path, IsComponent c)
    (hpattern : l.pattern = []) : l.gitMatches path isDir = false := by
  have hbody : l.body = [] := by simp [IgnoreLine.body, hpattern]
  have hnone : (path.drop l.directory.length).getLast? ≠ some [] := by
    intro hlast
    exact (hpath [] (List.mem_of_mem_drop (List.mem_of_getLast? hlast))).1 rfl
  simp [IgnoreLine.gitMatches, IgnoreLine.matchesBelow, hbody, hnone]

theorem applyPattern_line (hfnmatch : ComparesPlain fnmatch) (hplain : l.IsPlain)
    (hdirectory : ∀ c ∈ l.directory, IsComponent c) (hpath : ∀ c ∈ path, IsComponent c)
    (hbelow : l.directory ≠ path) (ignored : Bool) :
    applyPattern fnmatch (pathText root path) isDir ignored
        ⟨l.body, l.isNegation, l.isDirectory, pathText root l.directory⟩ =
      if l.gitMatches path isDir && !l.leadingSlash then !l.isNegation else ignored := by
  have hunder := pathIsUnderDir_pathText root (fun c hc => (hdirectory c hc).2.1)
    fun c hc => (hpath c hc).2.1
  unfold applyPattern IgnoreLine.gitMatches
  by_cases hprefix : l.directory <+: path
  · obtain ⟨rest, rfl⟩ := hprefix
    have hrest : rest ≠ [] := by
      rintro rfl
      simp at hbelow
    have hcomponents : ∀ c ∈ rest, IsComponent c := fun c hc =>
      hpath c (List.mem_append_right _ hc)
    have hmatch := pathMatches_line isDir hfnmatch hplain hcomponents hrest
      (relPath_pathText root l.directory hrest)
    simp [hunder.mpr (List.prefix_append _ _), hmatch]
  · have hnot : pathIsUnderDir (pathText root path) (pathText root l.directory) = false := by
      simpa using fun h => hprefix (hunder.mp h)
    simp [hnot, hprefix]

/-! ## All lines -/

theorem foldl_eq_elim_getLast? {α β : Type*} (p : α → Bool) (v : α → β) (b : β) (l : List α) :
    l.foldl (fun b a => if p a then v a else b) b = (l.filter p).getLast?.elim b v := by
  induction l generalizing b with
  | nil => rfl
  | cons a l ih =>
      rw [List.foldl_cons, ih]
      by_cases ha : p a = true
      · rw [if_pos ha, List.filter_cons_of_pos ha, List.getLast?_cons]
        cases (l.filter p).getLast? <;> rfl
      · rw [if_neg ha, List.filter_cons_of_neg ha]

theorem length_parsed_le (root : Text) :
    (lines.flatMap fun l =>
      (parsePattern l.line (pathText root l.directory)).toList).length ≤ lines.length := by
  induction lines with
  | nil => exact Nat.le_refl _
  | cons l lines ih =>
      have hone : (parsePattern l.line (pathText root l.directory)).toList.length ≤ 1 := by
        cases parsePattern l.line (pathText root l.directory) <;> simp
      rw [List.flatMap_cons, List.length_append, List.length_cons]
      omega

variable (root isDir) in
/-- The tools leave the lines with a slash in front out of account. -/
theorem shouldIgnore_ignorePatternsOf (hfnmatch : ComparesPlain fnmatch)
    (happlies : Applies lines path) :
    shouldIgnore fnmatch (ignorePatternsOf root lines) (pathText root path) isDir =
      gitIgnores (lines.filter fun l => !l.leadingSlash) path isDir := by
  obtain ⟨hplain, hcomponents, hbelow, hpath, hcapacity⟩ := happlies
  have hstep : ∀ (ls : List IgnoreLine) (ignored : Bool), (∀ l ∈ ls, l ∈ lines) →
      (ls.flatMap fun l => (parsePattern l.line (pathText root l.directory)).toList).foldl
          (applyPattern fnmatch (pathText root path) isDir) ignored =
        ls.foldl (fun ignored l =>
          if l.gitMatches path isDir && !l.leadingSlash then !l.isNegation else ignored)
          ignored := by
    intro ls
    induction ls with
    | nil => exact fun _ _ => rfl
    | cons l ls ih =>
        intro ignored hmem
        obtain ⟨hl, hls⟩ := List.forall_mem_cons.mp hmem
        rw [List.flatMap_cons, List.foldl_append, List.foldl_cons, ← ih _ hls,
          parsePattern_line (hplain l hl)]
        by_cases hpattern : l.pattern = []
        · rw [if_pos hpattern, gitMatches_of_pattern_eq_nil hpath hpattern]
          rfl
        · rw [if_neg hpattern, ← applyPattern_line hfnmatch (hplain l hl) (hcomponents l hl) hpath
            (hbelow l hl)]
          rfl
  have hfits : ([] : List IgnorePattern).length + (lines.flatMap fun l =>
      (parsePattern l.line (pathText root l.directory)).toList).length ≤ MAX_IGNORE := by
    have hlines : _ ≤ lines.length := length_parsed_le root
    rw [List.length_nil, Nat.zero_add]
    exact hlines.trans hcapacity
  unfold shouldIgnore ignorePatternsOf gitIgnores
  rw [foldl_addPattern IgnoreLine.line (fun l => pathText root l.directory) hfits,
    List.nil_append, hstep lines false fun _ h => h, foldl_eq_elim_getLast?, List.filter_filter]
  generalize (lines.filter fun l => l.gitMatches path isDir && !l.leadingSlash).getLast? = last
  cases last <;> rfl

theorem gitIgnores_withoutSlash_iff (lines : List IgnoreLine) (path : List Text) (isDir : Bool) :
    gitIgnores (lines.filter fun l => !l.leadingSlash) path isDir = gitIgnores lines path isDir ↔
      SlashHarmless lines path isDir := by
  unfold SlashHarmless
  cases hlast : (lines.filter (IgnoreLine.gitMatches path isDir)).getLast? with
  | none =>
      have hnone := List.getLast?_eq_none_iff.mp hlast
      have hrest : gitIgnores (lines.filter fun l => !l.leadingSlash) path isDir = false := by
        unfold gitIgnores
        rw [List.filter_comm, hnone]
        rfl
      have hall : gitIgnores lines path isDir = false := by
        unfold gitIgnores
        rw [hnone]
        rfl
      simp [hrest, hall]
  | some last =>
      have hgit : gitIgnores lines path isDir = !last.isNegation := by
        unfold gitIgnores
        rw [hlast]
        rfl
      rw [hgit]
      cases hleading : last.leadingSlash with
      | true => simp [hleading]
      | false =>
          obtain ⟨init, hinit⟩ := List.getLast?_eq_some_iff.mp hlast
          have hrest : gitIgnores (lines.filter fun l => !l.leadingSlash) path isDir =
              !last.isNegation := by
            unfold gitIgnores
            rw [List.filter_comm, hinit, List.filter_append,
              List.filter_cons_of_pos (by simp [hleading])]
            simp
          simp [hrest, hleading]

/-- The tools decide as git does exactly if the slashes in front do no harm. -/
theorem decidesAsGit_iff (hfnmatch : ComparesPlain fnmatch) (happlies : Applies lines path) :
    DecidesAsGit fnmatch root lines path isDir ↔ SlashHarmless lines path isDir := by
  rw [← gitIgnores_withoutSlash_iff]
  have hcode := shouldIgnore_ignorePatternsOf root isDir hfnmatch happlies
  constructor
  · rintro ⟨hlast, -⟩
    rw [← hlast, hcode]
  · intro hsame
    exact ⟨hcode.trans hsame, hcode.trans hsame⟩

end

end

/-! ## A build directory -/

def sameText (pattern text : Text) (_ : Bool) : Bool := pattern = text

theorem sameText_comparesPlain : ComparesPlain sameText := fun _ _ _ _ => rfl

def buildPath : List Text := ["src".toList, "build".toList]

theorem IgnoreLine.isPlain_of_all {l : IgnoreLine}
    (hplain : (l.line.all fun c => decide (c ∉ SPECIAL) && !isBlank c) = true)
    (hcomment : l.line.head? ≠ some '#') : l.IsPlain := by
  have hchars : ∀ c ∈ l.line, c ∉ SPECIAL ∧ isBlank c = false := by
    intro c hc
    simpa using List.all_eq_true.mp hplain c hc
  have hpattern : ∀ c ∈ l.pattern, isBlank c = false := by
    intro c hc
    unfold IgnoreLine.pattern at hc
    split at hc
    · exact (hchars c (List.mem_of_mem_tail hc)).2
    · exact (hchars c hc).2
  exact ⟨fun c hc => (hchars c hc).1, fun c hc => hpattern c (List.mem_of_head? hc),
    fun c hc => hpattern c (List.mem_of_getLast? hc), hcomment⟩

theorem build_applies {lines : List IgnoreLine}
    (hdirectory : ∀ l ∈ lines, l.directory = [] ∨ l.directory = ["src".toList])
    (hplain : ∀ l ∈ lines, (l.line.all fun c => decide (c ∉ SPECIAL) && !isBlank c) = true)
    (hcomment : ∀ l ∈ lines, l.line.head? ≠ some '#') (hcapacity : lines.length ≤ MAX_IGNORE) :
    Applies lines buildPath := by
  refine ⟨fun l hl => IgnoreLine.isPlain_of_all (hplain l hl) (hcomment l hl),
    fun l hl c hc => ?_, fun l hl => ?_, by decide, hcapacity⟩
  · rcases hdirectory l hl with hroot | hsrc
    · simp [hroot] at hc
    · rw [hsrc] at hc
      obtain rfl := List.mem_singleton.mp hc
      decide
  · rcases hdirectory l hl with hroot | hsrc
    · rw [hroot]
      decide
    · rw [hsrc]
      decide

/-- The directory is ignored, then not, then ignored again, twice. -/
def negatedBetween : List IgnoreLine :=
  [⟨[], "build".toList⟩, ⟨["src".toList], "!build".toList⟩, ⟨["src".toList], "build/".toList⟩,
    ⟨[], "/src/build".toList⟩, ⟨[], "!out".toList⟩]

theorem negatedBetween_applies : Applies negatedBetween buildPath :=
  build_applies (by decide) (by decide) (by decide) (by decide)

/-- The last line that matches has a slash in front, and does no harm. -/
theorem negatedBetween_decidesAsGit :
    gitIgnores negatedBetween buildPath true = true ∧
      DecidesAsGit sameText "/r".toList negatedBetween buildPath true := by
  refine ⟨by decide, (decidesAsGit_iff sameText_comparesPlain negatedBetween_applies).mpr ?_⟩
  intro l hl hleading
  obtain rfl : ⟨[], "/src/build".toList⟩ = l := Option.some.inj hl
  decide

/-- `/build/` is ignored by git only. -/
theorem leadingSlash_notIgnored :
    ComparesPlain sameText ∧ Applies [⟨["src".toList], "/build/".toList⟩] buildPath ∧
      gitIgnores [⟨["src".toList], "/build/".toList⟩] buildPath true = true ∧
      shouldIgnore sameText (ignorePatternsOf "/r".toList [⟨["src".toList], "/build/".toList⟩])
        (pathText "/r".toList buildPath) true = false ∧
      ¬ DecidesAsGit sameText "/r".toList [⟨["src".toList], "/build/".toList⟩] buildPath
        true := by
  have hgit : gitIgnores [⟨["src".toList], "/build/".toList⟩] buildPath true = true := by decide
  have hcode : shouldIgnore sameText (ignorePatternsOf "/r".toList
      [⟨["src".toList], "/build/".toList⟩]) (pathText "/r".toList buildPath) true = false := by
    decide
  have happlies : Applies [⟨["src".toList], "/build/".toList⟩] buildPath :=
    build_applies (by decide) (by decide) (by decide) (by decide)
  refine ⟨sameText_comparesPlain, happlies, hgit, hcode, fun hall => ?_⟩
  have hsame := hall.lastChanged
  rw [hgit, hcode] at hsame
  contradiction

end LastChanged

end AutomateLinux
