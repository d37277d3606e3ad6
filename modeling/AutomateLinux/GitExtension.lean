import AutomateLinux.Utf8

/-!
# Checking a file out and back

The git extension keeps one saved state for a file.  It saves the file before each
checkout it carries out and restores the saved state when `CURRENT` is checked out;
a checkout of what was last checked out is skipped.  Both ways the content passes
through a text.  The model follows one file between two edits by the user, who gives
the next command when git is done with the one before.
-/

namespace AutomateLinux

namespace GitExtension

open Utf8

def CURRENT : String := "CURRENT"

/-- What `git checkout` does with the file: it writes the content of the commit, finds
that the commit has no such file, or fails otherwise. -/
inductive GitResult
  | written (content : List UInt8)
  | noSuchFile
  | failed

/-- The file, the text saved for it if there is one, and what was last checked out
for which path, in the order the paths were first recorded. -/
structure Workspace where
  content : List UInt8
  saved : Option (List UInt8)
  lastCheckedOut : List (String × String)

/-- The content read as a text and written back. -/
def rewritten (content : List UInt8) : List UInt8 := encode (decodeLossy content)

theorem rewritten_rewritten (content : List UInt8) :
    rewritten (rewritten content) = rewritten content := by
  unfold rewritten
  rw [decodeLossy_encode]

/-- Assignment to a key of the record. -/
def assign (table : List (String × String)) (key value : String) : List (String × String) :=
  match table with
  | [] => [(key, value)]
  | row :: rest => if row.1 = key then (key, value) :: rest else row :: assign rest key value

section

/-! `lower` is the conversion to lower case. -/

variable (lower : String → String) (filePath : String)

/-- The exact path, else a path that differs in case only. -/
def getLastCheckedOutHash (table : List (String × String)) : Option String :=
  match table.lookup filePath with
  | some hash =>
      if hash = "" then
        (table.find? fun row => lower row.1 = lower filePath).map Prod.snd
      else some hash
  | none => (table.find? fun row => lower row.1 = lower filePath).map Prod.snd

def updateLastCheckedOut (hash : String) (s : Workspace) : Workspace :=
  { s with lastCheckedOut := assign s.lastCheckedOut filePath hash }

def saveFileState (s : Workspace) : Workspace :=
  { s with saved := some (rewritten s.content) }

/-- The command `git.checkoutFileFromCommit`. -/
def checkoutFileFromCommit (commitHash : String) (git : GitResult) (s : Workspace) :
    Workspace :=
  if getLastCheckedOutHash lower filePath s.lastCheckedOut = some commitHash then s
  else if commitHash = CURRENT then
    match s.saved with
    | some saved =>
        updateLastCheckedOut filePath CURRENT { s with content := rewritten saved }
    | none => s
  else
    let s := saveFileState s
    match git with
    | .written content => updateLastCheckedOut filePath commitHash { s with content }
    | .noSuchFile => updateLastCheckedOut filePath commitHash { s with content := [] }
    | .failed => s

/-- A checkout of a commit. -/
structure Checkout where
  hash : String
  git : GitResult
  isCommit : hash ≠ "" ∧ hash ≠ CURRENT

def checkouts (list : List Checkout) (s : Workspace) : Workspace :=
  list.foldl (fun s c => checkoutFileFromCommit lower filePath c.hash c.git s) s

/-- `CURRENT` runs no git command. -/
def checkoutCurrent (s : Workspace) : Workspace :=
  checkoutFileFromCommit lower filePath CURRENT .failed s

end

/-! ## Which checkouts are carried out -/

def Checkout.succeeds (c : Checkout) : Bool :=
  match c.git with
  | .failed => false
  | _ => true

def Checkout.leaves (content : List UInt8) (c : Checkout) : List UInt8 :=
  match c.git with
  | .written written => written
  | .noSuchFile => []
  | .failed => content

/-- The checkouts that are not skipped, given what was last checked out. -/
def carriedOut : Option String → List Checkout → List Checkout
  | _, [] => []
  | last, c :: rest =>
      if last = some c.hash then carriedOut last rest
      else c :: carriedOut (if c.succeeds then some c.hash else last) rest

def contentAfter (content : List UInt8) (done : List Checkout) : List UInt8 :=
  done.foldl Checkout.leaves content

section

variable {lower : String → String} {filePath : String} {s : Workspace}

theorem lookup_assign (table : List (String × String)) (key value : String) :
    (assign table key value).lookup key = some value := by
  induction table with
  | nil => simp [assign]
  | cons row rest ih =>
      rw [assign]
      split
      · simp
      · rename_i hkey
        obtain ⟨k, v⟩ := row
        have hne : (key == k) = false := by simpa using fun h : key = k => hkey h.symm
        rw [List.lookup_cons, hne]
        exact ih

theorem getLastCheckedOutHash_assign {hash : String} (hhash : hash ≠ "")
    (table : List (String × String)) :
    getLastCheckedOutHash lower filePath (assign table filePath hash) = some hash := by
  unfold getLastCheckedOutHash
  rw [lookup_assign]
  exact if_neg hhash

theorem checkoutFileFromCommit_skipped {c : Checkout}
    (hlast : getLastCheckedOutHash lower filePath s.lastCheckedOut = some c.hash) :
    checkoutFileFromCommit lower filePath c.hash c.git s = s :=
  if_pos hlast

theorem checkoutFileFromCommit_spec {c : Checkout}
    (hlast : getLastCheckedOutHash lower filePath s.lastCheckedOut ≠ some c.hash) :
    (checkoutFileFromCommit lower filePath c.hash c.git s).content = c.leaves s.content ∧
      (checkoutFileFromCommit lower filePath c.hash c.git s).saved =
        some (rewritten s.content) ∧
      getLastCheckedOutHash lower filePath
          (checkoutFileFromCommit lower filePath c.hash c.git s).lastCheckedOut =
        if c.succeeds then some c.hash
        else getLastCheckedOutHash lower filePath s.lastCheckedOut := by
  obtain ⟨hash, git, hhash, hcurrent⟩ := c
  unfold checkoutFileFromCommit
  rw [if_neg hlast, if_neg hcurrent]
  cases git with
  | written content | noSuchFile =>
      exact ⟨rfl, rfl, getLastCheckedOutHash_assign hhash s.lastCheckedOut⟩
  | failed => exact ⟨rfl, rfl, rfl⟩

/-- What checkouts leave behind, read off the ones that are carried out. -/
theorem checkouts_spec (lower : String → String) (filePath : String) (s : Workspace)
    (list : List Checkout) {done : List Checkout}
    (hdone : carriedOut (getLastCheckedOutHash lower filePath s.lastCheckedOut) list = done) :
    (checkouts lower filePath list s).content = contentAfter s.content done ∧
      (checkouts lower filePath list s).saved =
        (if done = [] then s.saved
          else some (rewritten (contentAfter s.content done.dropLast))) ∧
      (getLastCheckedOutHash lower filePath (checkouts lower filePath list s).lastCheckedOut =
          some CURRENT ↔
        getLastCheckedOutHash lower filePath s.lastCheckedOut = some CURRENT ∧
          ∀ c ∈ done, c.succeeds = false) := by
  induction list generalizing s done with
  | nil =>
      obtain rfl : [] = done := hdone
      exact ⟨rfl, rfl, by simp [checkouts]⟩
  | cons c list ih =>
      rw [carriedOut] at hdone
      rw [checkouts, List.foldl_cons, ← checkouts]
      split at hdone
      · rename_i hlast
        rw [checkoutFileFromCommit_skipped hlast]
        exact ih s hdone
      · rename_i hlast
        subst hdone
        obtain ⟨hcontent, hsaved, hnext⟩ := checkoutFileFromCommit_spec hlast
        obtain ⟨hcontents, hsaves, hlasts⟩ := ih _ (congrArg (carriedOut · list) hnext)
        refine ⟨?_, ?_, ?_⟩
        · rw [hcontents, hcontent]
          rfl
        · rw [hsaves, if_neg (List.cons_ne_nil _ _), hsaved, hcontent]
          generalize carriedOut _ list = later
          cases later <;> rfl
        · rw [hlasts, hnext]
          cases hsucceeds : c.succeeds with
          | true => simp [hsucceeds, c.isCommit.2]
          | false => simp [hsucceeds]

/-! ## Restoring -/

theorem checkoutCurrent_content :
    (checkoutCurrent lower filePath s).content =
      if getLastCheckedOutHash lower filePath s.lastCheckedOut = some CURRENT then s.content
      else (s.saved.map rewritten).getD s.content := by
  unfold checkoutCurrent checkoutFileFromCommit
  split
  · rfl
  · rw [if_pos rfl]
    cases s.saved <;> rfl

/-- `CURRENT` was checked out last and every checkout carried out since has failed,
or what was in the file before the last one carried out is what was there at first
and survives being a text; where none is carried out, the same holds of what was
saved for the file before. -/
def Restorable (s : Workspace) (last : Option String) (list : List Checkout) : Prop :=
  let done := carriedOut last list
  if done = [] then ∀ saved, s.saved = some saved → rewritten saved = s.content
  else
    (last = some CURRENT ∧ ∀ c ∈ done, c.succeeds = false) ∨
      rewritten (contentAfter s.content done.dropLast) = s.content

theorem contentAfter_of_failed {content : List UInt8} {done : List Checkout}
    (hfailed : ∀ c ∈ done, c.succeeds = false) : contentAfter content done = content := by
  induction done with
  | nil => rfl
  | cons c done ih =>
      have hc : c.leaves content = content := by
        have hsucceeds := hfailed c List.mem_cons_self
        unfold Checkout.succeeds at hsucceeds
        unfold Checkout.leaves
        split at hsucceeds
        · rename_i hgit
          rw [hgit]
        · simp at hsucceeds
      rw [contentAfter, List.foldl_cons, hc]
      exact ih fun c' h => hfailed c' (List.mem_cons_of_mem c h)

theorem last_of_carriedOut_eq_nil {last : Option String} {list : List Checkout}
    (hlist : list ≠ []) (hnone : carriedOut last list = []) : last ≠ some CURRENT := by
  obtain ⟨c, rest, rfl⟩ := List.exists_cons_of_ne_nil hlist
  rw [carriedOut] at hnone
  split at hnone
  · rename_i hlast
    rw [hlast]
    intro hcurrent
    exact c.isCommit.2 (Option.some.inj hcurrent)
  · simp at hnone

/-- A commit that cannot be checked out, and another one that is checked out twice. -/
def failedThenTwice : List Checkout :=
  [⟨"1f0c", .failed, by decide⟩, ⟨"9ab2", .written [98], by decide⟩,
    ⟨"9ab2", .written [98], by decide⟩]

end

end GitExtension

end AutomateLinux
