import AutomateLinux.GitExtension
import Mathlib.Data.List.DropRight
import Mathlib.Logic.Function.Basic

/-!
# The saved states of several files

The git extension keeps the saved states of a repository in one directory, under the
base name of the file with everything but letters and digits replaced.  The model
follows the whole repository: what one file's checkouts and restores write, and what
restoring another file would write.
-/

namespace AutomateLinux

namespace GitExtension

/-! ## The place of a saved state -/

/-- `path.basename`: trailing slashes do not count. -/
def basename (path : List Char) : List Char :=
  (path.rdropWhile fun c => c = '/').rtakeWhile fun c => c ≠ '/'

/-- `replace(/[^a-zA-Z0-9]/g, '_')` goes through the UTF-16 code units. -/
def replaced (c : Char) : List Char :=
  if c.isAlphanum then [c] else if c.toNat < 0x10000 then ['_'] else ['_', '_']

def fileHash (filePath : String) : List Char := (basename filePath.toList).flatMap replaced

def statePath (stateDir filePath : String) : String :=
  stateDir ++ "/" ++ String.ofList (fileHash filePath) ++ ".state"

/-! ## The repository -/

structure Repository where
  files : String → Option (List UInt8)
  lastCheckedOut : List (String × String)

namespace Repository

def writeFile (path : String) (content : List UInt8) (r : Repository) : Repository :=
  { r with files := Function.update r.files path (some content) }

def updateLastCheckedOut (filePath hash : String) (r : Repository) : Repository :=
  { r with lastCheckedOut := assign r.lastCheckedOut filePath hash }

@[simp] theorem files_writeFile (path : String) (content : List UInt8) (r : Repository) :
    (r.writeFile path content).files = Function.update r.files path (some content) := rfl

@[simp] theorem lastCheckedOut_writeFile (path : String) (content : List UInt8)
    (r : Repository) : (r.writeFile path content).lastCheckedOut = r.lastCheckedOut := rfl

@[simp] theorem files_updateLastCheckedOut (filePath hash : String) (r : Repository) :
    (r.updateLastCheckedOut filePath hash).files = r.files := rfl

@[simp] theorem lastCheckedOut_updateLastCheckedOut (filePath hash : String)
    (r : Repository) :
    (r.updateLastCheckedOut filePath hash).lastCheckedOut =
      assign r.lastCheckedOut filePath hash := rfl

section

variable (stateDir : String) (lower : String → String) (filePath : String)

/-- A file that cannot be read is not saved. -/
def saveFileState (r : Repository) : Repository :=
  match r.files filePath with
  | some content => r.writeFile (statePath stateDir filePath) (rewritten content)
  | none => r

/-- The repository afterwards, if there is a saved state. -/
def restoreFileState (r : Repository) : Option Repository :=
  (r.files (statePath stateDir filePath)).map fun saved => r.writeFile filePath (rewritten saved)

/-- The command `git.checkoutFileFromCommit`. -/
def checkoutFileFromCommit (commitHash : String) (git : GitResult) (r : Repository) :
    Repository :=
  if getLastCheckedOutHash lower filePath r.lastCheckedOut = some commitHash then r
  else if commitHash = CURRENT then
    match r.restoreFileState stateDir filePath with
    | some r => r.updateLastCheckedOut filePath CURRENT
    | none => r
  else
    let r := r.saveFileState stateDir filePath
    match git with
    | .written content =>
        (r.writeFile filePath content).updateLastCheckedOut filePath commitHash
    | .noSuchFile => (r.writeFile filePath []).updateLastCheckedOut filePath commitHash
    | .failed => r

/-- Checkouts of a file; `CURRENT` restores it. -/
def checkouts (operations : List (String × GitResult)) (r : Repository) : Repository :=
  operations.foldl (fun r operation =>
    r.checkoutFileFromCommit stateDir lower filePath operation.1 operation.2) r

/-- What checking `CURRENT` out would write into the file. -/
def restorable (r : Repository) : Option (List UInt8) :=
  if getLastCheckedOutHash lower filePath r.lastCheckedOut = some CURRENT then none
  else (r.files (statePath stateDir filePath)).map rewritten

end

end Repository

/-! ## One file of the repository -/

theorem basename_append_slash {directory name : List Char} (hname : name ≠ [])
    (hslash : ∀ c ∈ name, c ≠ '/') : basename (directory ++ '/' :: name) = name := by
  have hlast : (directory ++ '/' :: name).rdropWhile (fun c => c = '/') =
      directory ++ '/' :: name := by
    rw [List.rdropWhile_eq_self_iff]
    intro hne
    have hend : (directory ++ '/' :: name).getLast hne = name.getLast hname := by
      simp [List.getLast_cons hname]
    rw [hend]
    simpa using hslash _ (List.getLast_mem hname)
  unfold basename
  rw [hlast, TextOperations.rtakeWhile_append_cons (by simp) (by simpa using hslash)]

theorem length_le_flatMap_replaced (name : List Char) :
    name.length ≤ (name.flatMap replaced).length := by
  induction name with
  | nil => simp
  | cons c name ih =>
      have hone : 1 ≤ (replaced c).length := by
        unfold replaced
        split
        · rfl
        · split <;> decide
      rw [List.flatMap_cons, List.length_append, List.length_cons]
      omega

theorem slash_notMem_replaced (c : Char) : '/' ∉ replaced c := by
  unfold replaced
  split
  · rename_i halnum
    rw [List.mem_singleton]
    rintro rfl
    exact absurd halnum (by decide)
  · split <;> decide

/-- No file is its own saved state. -/
theorem statePath_ne (stateDir filePath : String) : statePath stateDir filePath ≠ filePath := by
  intro hself
  have htext := congrArg (fun s => basename s.toList) hself
  have hname : ∀ c ∈ fileHash filePath ++ ".state".toList, c ≠ '/' := by
    rintro c hc rfl
    rcases List.mem_append.mp hc with hc | hc
    · obtain ⟨c', -, hc'⟩ := List.mem_flatMap.mp hc
      exact slash_notMem_replaced c' hc'
    · exact absurd hc (by decide)
  have hbase : basename (statePath stateDir filePath).toList =
      fileHash filePath ++ ".state".toList := by
    have hsplit : (statePath stateDir filePath).toList =
        stateDir.toList ++ '/' :: (fileHash filePath ++ ".state".toList) := by
      simp [statePath]
    rw [hsplit]
    exact basename_append_slash (by simp) hname
  rw [hbase] at htext
  have hlong := length_le_flatMap_replaced (basename filePath.toList)
  rw [← fileHash, ← htext, List.length_append, String.length_toList] at hlong
  have hsix : ".state".length = 6 := rfl
  omega

section

variable {stateDir : String} {lower : String → String} {f g : String} {r : Repository}
  {commitHash : String} {git : GitResult} {operations : List (String × GitResult)}

/-- What the commands do for one file is what the model of a single file does. -/
theorem checkoutFileFromCommit_file {content : List UInt8} (hcontent : r.files f = some content) :
    let after := r.checkoutFileFromCommit stateDir lower f commitHash git
    let workspace := checkoutFileFromCommit lower f commitHash git
      ⟨content, r.files (statePath stateDir f), r.lastCheckedOut⟩
    after.files f = some workspace.content ∧
      after.files (statePath stateDir f) = workspace.saved ∧
      after.lastCheckedOut = workspace.lastCheckedOut := by
  have hslot := statePath_ne stateDir f
  unfold Repository.checkoutFileFromCommit checkoutFileFromCommit
  dsimp only
  split
  · exact ⟨hcontent, rfl, rfl⟩
  · split
    · unfold Repository.restoreFileState
      cases hsaved : r.files (statePath stateDir f) with
      | none => exact ⟨hcontent, hsaved, rfl⟩
      | some saved => simp [updateLastCheckedOut, Function.update_of_ne hslot, hsaved]
    · unfold Repository.saveFileState
      rw [hcontent]
      cases git <;>
        simp [updateLastCheckedOut, saveFileState, Function.update_of_ne hslot,
          Function.update_of_ne hslot.symm, hcontent]

/-! ## What the other file's restore depends on -/

theorem files_checkoutFileFromCommit_of_ne {path : String} (hpath : path ≠ f)
    (hslot : path ≠ statePath stateDir f) :
    (r.checkoutFileFromCommit stateDir lower f commitHash git).files path = r.files path := by
  have hsaved : (r.saveFileState stateDir f).files path = r.files path := by
    unfold Repository.saveFileState
    split
    · exact Function.update_of_ne hslot _ _
    · rfl
  unfold Repository.checkoutFileFromCommit
  split
  · rfl
  · split
    · unfold Repository.restoreFileState
      cases r.files (statePath stateDir f) with
      | none => rfl
      | some saved => exact Function.update_of_ne hpath _ _
    · cases git with
      | failed => exact hsaved
      | written | noSuchFile => exact (Function.update_of_ne hpath _ _).trans hsaved

variable (stateDir lower f r commitHash git) in
theorem lastCheckedOut_checkoutFileFromCommit :
    (r.checkoutFileFromCommit stateDir lower f commitHash git).lastCheckedOut =
        r.lastCheckedOut ∨
      ∃ hash, (r.checkoutFileFromCommit stateDir lower f commitHash git).lastCheckedOut =
        assign r.lastCheckedOut f hash := by
  have hsaved : (r.saveFileState stateDir f).lastCheckedOut = r.lastCheckedOut := by
    unfold Repository.saveFileState
    split <;> rfl
  unfold Repository.checkoutFileFromCommit
  split
  · exact Or.inl rfl
  · split
    · unfold Repository.restoreFileState
      cases r.files (statePath stateDir f) with
      | none => exact Or.inl rfl
      | some saved => exact Or.inr ⟨CURRENT, rfl⟩
    · cases git with
      | failed => exact Or.inl hsaved
      | written | noSuchFile => exact Or.inr ⟨commitHash, by simp [hsaved]⟩

theorem lookup_assign_of_ne (hne : f ≠ g) (table : List (String × String)) (hash : String) :
    (assign table f hash).lookup g = table.lookup g := by
  have hkey : (g == f) = false := by simpa using hne.symm
  induction table with
  | nil => simp [assign, List.lookup_cons, hkey]
  | cons row rest ih =>
      obtain ⟨key, value⟩ := row
      rw [assign]
      split
      · rename_i hrow
        obtain rfl : key = f := hrow
        rw [List.lookup_cons, List.lookup_cons, hkey]
      · rw [List.lookup_cons, List.lookup_cons, ih]

theorem getLastCheckedOutHash_eq (table : List (String × String)) :
    getLastCheckedOutHash lower g table =
      if (table.lookup g).getD "" = "" then
        (table.find? fun row => lower row.1 = lower g).map Prod.snd
      else table.lookup g := by
  unfold getLastCheckedOutHash
  cases table.lookup g with
  | none => rfl
  | some hash => rfl

/-- The first recorded path that equals `g` up to case, if there is one, is `f`. -/
def IsFirstLike (lower : String → String) (f g : String) (table : List (String × String)) :
    Prop :=
  lower f = lower g ∧ ∀ row ∈ table.find? (fun row => lower row.1 = lower g), row.1 = f

theorem find?_assign_of_isFirstLike {table : List (String × String)}
    (hfirst : IsFirstLike lower f g table) (hash : String) :
    (assign table f hash).find? (fun row => lower row.1 = lower g) = some (f, hash) := by
  obtain ⟨hlower, hrow⟩ := hfirst
  induction table with
  | nil => simp [assign, hlower]
  | cons row rest ih =>
      rw [assign]
      split
      · simp [hlower]
      · rename_i hkey
        have hother : lower row.1 ≠ lower g := by
          intro hlike
          exact hkey (hrow row (by simp [hlike]))
        rw [List.find?_cons_of_neg (by simpa using hother)] at hrow ⊢
        exact ih hrow

theorem find?_assign_of_not_isFirstLike {table : List (String × String)}
    (hfirst : ¬ IsFirstLike lower f g table) (hash : String) :
    (assign table f hash).find? (fun row => lower row.1 = lower g) =
      table.find? fun row => lower row.1 = lower g := by
  induction table with
  | nil =>
      have hlower : lower f ≠ lower g := fun h => hfirst ⟨h, by simp⟩
      simp [assign, hlower]
  | cons row rest ih =>
      rw [assign]
      split
      · rename_i hkey
        have hlower : lower f ≠ lower g := by
          intro hlike
          refine hfirst ⟨hlike, fun row' hrow' => ?_⟩
          rw [List.find?_cons_of_pos (by simp [hkey, hlike])] at hrow'
          obtain rfl := Option.some.inj hrow'
          exact hkey
        rw [List.find?_cons_of_neg (by simpa using hlower),
          List.find?_cons_of_neg (by simpa [hkey] using hlower)]
      · by_cases hlike : lower row.1 = lower g
        · rw [List.find?_cons_of_pos (by simpa using hlike),
            List.find?_cons_of_pos (by simpa using hlike)]
        · rw [List.find?_cons_of_neg (by simpa using hlike),
            List.find?_cons_of_neg (by simpa using hlike)]
          apply ih
          rintro ⟨hlower, hrow⟩
          refine hfirst ⟨hlower, ?_⟩
          rwa [List.find?_cons_of_neg (by simpa using hlike)]

/-- What was last checked out for `f` is what is read for `g`. -/
def ReadsEntryOf (lower : String → String) (f g : String) (table : List (String × String)) :
    Prop :=
  (table.lookup g).getD "" = "" ∧ IsFirstLike lower f g table

theorem getLastCheckedOutHash_of_readsEntryOf (hne : f ≠ g) {table : List (String × String)}
    (hreads : ReadsEntryOf lower f g table) (hash : String) :
    getLastCheckedOutHash lower g (assign table f hash) = some hash := by
  rw [getLastCheckedOutHash_eq, lookup_assign_of_ne hne, if_pos hreads.1,
    find?_assign_of_isFirstLike hreads.2]
  rfl

theorem getLastCheckedOutHash_of_not_readsEntryOf (hne : f ≠ g)
    {table : List (String × String)} (hreads : ¬ ReadsEntryOf lower f g table) (hash : String) :
    getLastCheckedOutHash lower g (assign table f hash) = getLastCheckedOutHash lower g table := by
  rw [getLastCheckedOutHash_eq, getLastCheckedOutHash_eq, lookup_assign_of_ne hne]
  split
  · rename_i hown
    rw [find?_assign_of_not_isFirstLike fun hfirst => hreads ⟨hown, hfirst⟩]
  · rfl

theorem readsEntryOf_assign (hne : f ≠ g) (table : List (String × String)) (hash : String) :
    ReadsEntryOf lower f g (assign table f hash) ↔ ReadsEntryOf lower f g table := by
  unfold ReadsEntryOf
  rw [lookup_assign_of_ne hne]
  refine and_congr_right fun _ => ?_
  by_cases hfirst : IsFirstLike lower f g table
  · refine iff_of_true ⟨hfirst.1, ?_⟩ hfirst
    rw [find?_assign_of_isFirstLike hfirst]
    rintro row ⟨⟩
    rfl
  · unfold IsFirstLike
    rw [find?_assign_of_not_isFirstLike hfirst]

theorem readsEntryOf_checkoutFileFromCommit (hne : f ≠ g) :
    ReadsEntryOf lower f g
        (r.checkoutFileFromCommit stateDir lower f commitHash git).lastCheckedOut ↔
      ReadsEntryOf lower f g r.lastCheckedOut := by
  rcases lastCheckedOut_checkoutFileFromCommit stateDir lower f r commitHash git with
    hsame | ⟨hash, hassign⟩
  · rw [hsame]
  · rw [hassign, readsEntryOf_assign hne]

/-! ## Runs -/

/-- The two files are saved in different places, and `f` is not where `g` is saved. -/
structure Apart (stateDir f g : String) : Prop where
  slots : statePath stateDir g ≠ statePath stateDir f
  file : statePath stateDir g ≠ f

theorem files_checkouts (hapart : Apart stateDir f g) :
    (r.checkouts stateDir lower f operations).files (statePath stateDir g) =
      r.files (statePath stateDir g) := by
  induction operations generalizing r with
  | nil => rfl
  | cons operation operations ih =>
      exact ih.trans (files_checkoutFileFromCommit_of_ne hapart.file hapart.slots)

theorem readsEntryOf_checkouts (hne : f ≠ g) :
    ReadsEntryOf lower f g (r.checkouts stateDir lower f operations).lastCheckedOut ↔
      ReadsEntryOf lower f g r.lastCheckedOut := by
  induction operations generalizing r with
  | nil => rfl
  | cons operation operations ih => exact ih.trans (readsEntryOf_checkoutFileFromCommit hne)

theorem getLastCheckedOutHash_checkouts (hne : f ≠ g)
    (hreads : ¬ ReadsEntryOf lower f g r.lastCheckedOut) :
    getLastCheckedOutHash lower g (r.checkouts stateDir lower f operations).lastCheckedOut =
      getLastCheckedOutHash lower g r.lastCheckedOut := by
  induction operations generalizing r with
  | nil => rfl
  | cons operation operations ih =>
      refine (ih fun h => hreads ((readsEntryOf_checkoutFileFromCommit hne).mp h)).trans ?_
      rcases lastCheckedOut_checkoutFileFromCommit stateDir lower f r operation.1 operation.2
        with hsame | ⟨hash, hassign⟩
      · rw [hsame]
      · rw [hassign, getLastCheckedOutHash_of_not_readsEntryOf hne hreads]

/-- `f` and `g` are apart, and nothing is saved for `g` or what is read for it is not
the entry of `f`; or nothing is restored for `g`, which some other entry has at
`CURRENT`. -/
def KeptSeparate (stateDir : String) (lower : String → String) (f g : String)
    (r : Repository) : Prop :=
  Apart stateDir f g ∧
      (r.files (statePath stateDir g) = none ∨ ¬ ReadsEntryOf lower f g r.lastCheckedOut) ∨
    getLastCheckedOutHash lower g r.lastCheckedOut = some CURRENT ∧
      ¬ ReadsEntryOf lower f g r.lastCheckedOut

theorem restorable_checkouts (hne : f ≠ g) (hseparate : KeptSeparate stateDir lower f g r) :
    (r.checkouts stateDir lower f operations).restorable stateDir lower g =
      r.restorable stateDir lower g := by
  unfold Repository.restorable
  rcases hseparate with ⟨hapart, hnothing | hreads⟩ | ⟨hcurrent, hreads⟩
  · rw [files_checkouts hapart, hnothing]
    simp
  · rw [files_checkouts hapart, getLastCheckedOutHash_checkouts hne hreads]
  · rw [getLastCheckedOutHash_checkouts hne hreads, if_pos hcurrent, if_pos hcurrent]

/-! ## Runs that mix the files up -/

variable (stateDir) in
theorem checkoutFileFromCommit_written {content : List UInt8}
    (hlast : getLastCheckedOutHash lower f r.lastCheckedOut ≠ some commitHash)
    (hcommit : commitHash ≠ CURRENT) :
    r.checkoutFileFromCommit stateDir lower f commitHash (.written content) =
      ((r.saveFileState stateDir f).writeFile f content).updateLastCheckedOut f commitHash := by
  unfold Repository.checkoutFileFromCommit
  rw [if_neg hlast, if_neg hcommit]

/-- Some two checkouts in a row leave a given text both in the file and saved for it. -/
theorem exists_twoCheckouts (stateDir : String) (lower : String → String) (f g : String)
    (r : Repository) :
    ∃ first second, second ≠ CURRENT ∧ ∀ content, rewritten content = content →
      let after := r.checkouts stateDir lower f [(first, .written content),
        (second, .written content)]
      after.files f = some content ∧ after.files (statePath stateDir f) = some content ∧
        getLastCheckedOutHash lower f after.lastCheckedOut = some second ∧
        (f ≠ g → ReadsEntryOf lower f g r.lastCheckedOut →
          getLastCheckedOutHash lower g after.lastCheckedOut = some second) := by
  obtain ⟨first, hfirst, second, hsecond, hlast, hchange⟩ :
      ∃ first, (first ≠ CURRENT ∧ first ≠ "") ∧ ∃ second, (second ≠ CURRENT ∧ second ≠ "") ∧
        getLastCheckedOutHash lower f r.lastCheckedOut ≠ some first ∧ first ≠ second := by
    by_cases hzero : getLastCheckedOutHash lower f r.lastCheckedOut = some "0"
    · exact ⟨"1", by decide, "0", by decide, by simp [hzero], by decide⟩
    · exact ⟨"0", by decide, "1", by decide, hzero, by decide⟩
  refine ⟨first, second, hsecond.1, fun content htext => ?_⟩
  have hone : r.checkoutFileFromCommit stateDir lower f first (.written content) = _ :=
    checkoutFileFromCommit_written stateDir hlast hfirst.1
  have hnext : getLastCheckedOutHash lower f (r.checkoutFileFromCommit stateDir lower f first
      (.written content)).lastCheckedOut ≠ some second := by
    rw [hone, Repository.lastCheckedOut_updateLastCheckedOut,
      getLastCheckedOutHash_assign hfirst.2]
    simpa using hchange
  have hfile : (r.checkoutFileFromCommit stateDir lower f first (.written content)).files f =
      some content := by
    rw [hone]
    exact Function.update_self _ _ _
  have hreads (hne : f ≠ g) : ReadsEntryOf lower f g (r.checkoutFileFromCommit stateDir lower f
      first (.written content)).lastCheckedOut ↔ ReadsEntryOf lower f g r.lastCheckedOut :=
    readsEntryOf_checkoutFileFromCommit hne
  have htwo : r.checkouts stateDir lower f [(first, .written content),
      (second, .written content)] =
      ((Repository.saveFileState stateDir f (r.checkoutFileFromCommit stateDir lower f first
        (.written content))).writeFile f content).updateLastCheckedOut f second :=
    checkoutFileFromCommit_written stateDir hnext hsecond.1
  dsimp only
  rw [htwo]
  generalize r.checkoutFileFromCommit stateDir lower f first (.written content) = middle at *
  have hsave : middle.saveFileState stateDir f =
      middle.writeFile (statePath stateDir f) content := by
    unfold Repository.saveFileState
    rw [hfile]
    dsimp only
    rw [htext]
  rw [hsave]
  refine ⟨Function.update_self _ _ _, ?_, getLastCheckedOutHash_assign hsecond.2 _, ?_⟩
  · exact (Function.update_of_ne (statePath_ne stateDir f) _ _).trans (Function.update_self _ _ _)
  · exact fun hne hbefore =>
      getLastCheckedOutHash_of_readsEntryOf hne ((hreads hne).mpr hbefore) second

theorem restorable_of_getLastCheckedOutHash_ne
    (hlast : getLastCheckedOutHash lower g r.lastCheckedOut ≠ some CURRENT) :
    r.restorable stateDir lower g = (r.files (statePath stateDir g)).map rewritten :=
  if_neg hlast

variable (git) in
theorem restorable_checkoutCurrent (hne : f ≠ g)
    (hlast : getLastCheckedOutHash lower f r.lastCheckedOut ≠ some CURRENT)
    {saved : List UInt8} (hsaved : r.files (statePath stateDir f) = some saved)
    (hreads : ReadsEntryOf lower f g r.lastCheckedOut) :
    (r.checkoutFileFromCommit stateDir lower f CURRENT git).restorable stateDir lower g =
      none := by
  have hrestored : r.checkoutFileFromCommit stateDir lower f CURRENT git =
      (r.writeFile f (rewritten saved)).updateLastCheckedOut f CURRENT := by
    unfold Repository.checkoutFileFromCommit Repository.restoreFileState
    rw [if_neg hlast, if_pos rfl, hsaved]
    rfl
  rw [hrestored]
  exact if_pos (getLastCheckedOutHash_of_readsEntryOf hne hreads CURRENT)

/-- Whatever is checked out and restored for `f`, restoring `g` writes the same, exactly
if the two are kept separate. -/
theorem restorable_checkouts_iff (hne : f ≠ g) :
    (∀ operations, (r.checkouts stateDir lower f operations).restorable stateDir lower g =
      r.restorable stateDir lower g) ↔ KeptSeparate stateDir lower f g r := by
  refine ⟨fun hall => ?_, fun hseparate operations => restorable_checkouts hne hseparate⟩
  obtain ⟨first, second, hsecond, htwo⟩ := exists_twoCheckouts stateDir lower f g r
  have hcommit : (some second : Option String) ≠ some CURRENT := by simpa using hsecond
  by_cases hapart : Apart stateDir f g
  · refine Or.inl ⟨hapart, ?_⟩
    by_contra hboth
    obtain ⟨hsome, hreads⟩ := not_or.mp hboth
    rw [not_not] at hreads
    obtain ⟨-, hslot, hlast, hlike⟩ := htwo [97] (by decide)
    have hkept := hall [(first, .written [97]), (second, .written [97])]
    have hlost := hall ([(first, .written [97]), (second, .written [97])] ++ [(CURRENT, .failed)])
    have hstill : ReadsEntryOf lower f g (r.checkouts stateDir lower f
        [(first, .written [97]), (second, .written [97])]).lastCheckedOut :=
      (readsEntryOf_checkouts hne).mpr hreads
    rw [restorable_of_getLastCheckedOutHash_ne (hlike hne hreads ▸ hcommit),
      files_checkouts hapart] at hkept
    have hnone := restorable_checkoutCurrent .failed hne (hlast ▸ hcommit) hslot hstill
    rw [Repository.checkouts, List.foldl_append] at hlost
    rw [hlost.symm.trans hnone, Option.map_eq_none_iff] at hkept
    exact hsome hkept
  · right
    by_contra hother
    have hwrites : ∀ content, rewritten content = content →
        r.restorable stateDir lower g = some content := by
      intro content htext
      obtain ⟨hfile, hslot, -, hlike⟩ := htwo content htext
      have hsaved : (r.checkouts stateDir lower f [(first, .written content),
          (second, .written content)]).files (statePath stateDir g) = some content := by
        by_cases hslots : statePath stateDir g = statePath stateDir f
        · rw [hslots, hslot]
        · by_cases hsame : statePath stateDir g = f
          · rw [hsame, hfile]
          · exact absurd ⟨hslots, hsame⟩ hapart
      rw [← hall [(first, .written content), (second, .written content)],
        restorable_of_getLastCheckedOutHash_ne, hsaved, Option.map_some, htext]
      by_cases hreads : ReadsEntryOf lower f g r.lastCheckedOut
      · rw [hlike hne hreads]
        exact hcommit
      · rw [getLastCheckedOutHash_checkouts hne hreads]
        exact fun hcurrent => hother ⟨hcurrent, hreads⟩
    have hboth := (hwrites [97] (by decide)).symm.trans (hwrites [98] (by decide))
    simp at hboth

end

/-- Two files of one name, in different directories, each with a saved state. -/
def sameName : Repository :=
  ⟨fun path =>
    if path = "/r/a/index.ts" then some [97]
    else if path = "/r/b/index.ts" then some [98]
    else if path = statePath "/r/.git-extension-state" "/r/b/index.ts" then some [98]
    else none, []⟩

/-- Checking one of them out saves it over the other. -/
theorem sameName_overwritten :
    "/r/a/index.ts" ≠ "/r/b/index.ts" ∧
      sameName.restorable "/r/.git-extension-state" String.toLower "/r/b/index.ts" = some [98] ∧
      (sameName.checkouts "/r/.git-extension-state" String.toLower "/r/a/index.ts"
        [("1f0c", .written [99])]).restorable "/r/.git-extension-state" String.toLower
          "/r/b/index.ts" = some [97] ∧
      ¬ ∀ operations, (sameName.checkouts "/r/.git-extension-state" String.toLower
        "/r/a/index.ts" operations).restorable "/r/.git-extension-state" String.toLower
          "/r/b/index.ts" =
        sameName.restorable "/r/.git-extension-state" String.toLower "/r/b/index.ts" := by
  have hbefore : sameName.restorable "/r/.git-extension-state" String.toLower "/r/b/index.ts" =
      some [98] := by decide +kernel
  have hafter : (sameName.checkouts "/r/.git-extension-state" String.toLower "/r/a/index.ts"
      [("1f0c", .written [99])]).restorable "/r/.git-extension-state" String.toLower
        "/r/b/index.ts" = some [97] := by decide +kernel
  refine ⟨by decide, hbefore, hafter, fun hall => ?_⟩
  rw [hall, hbefore] at hafter
  exact absurd hafter (by decide)

/-- A file of another name leaves the saved state alone. -/
theorem otherName_kept :
    "/r/a/main.ts" ≠ "/r/b/index.ts" ∧ ∀ operations,
      (sameName.checkouts "/r/.git-extension-state" String.toLower "/r/a/main.ts"
        operations).restorable "/r/.git-extension-state" String.toLower "/r/b/index.ts" =
      sameName.restorable "/r/.git-extension-state" String.toLower "/r/b/index.ts" := by
  refine ⟨by decide, (restorable_checkouts_iff (by decide)).mpr (Or.inl ⟨⟨?_, ?_⟩, Or.inr ?_⟩)⟩
  · decide +kernel
  · decide +kernel
  · rintro ⟨-, hlower, -⟩
    revert hlower
    decide +kernel

end GitExtension

end AutomateLinux
