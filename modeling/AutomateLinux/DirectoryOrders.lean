import AutomateLinux.DirectoryScanScopes
import Mathlib.Data.List.Perm.Basic

/-!
# Orders of a directory tree

`readdir` returns the entries of a directory in any order.  What the patterns say about
the files of a tree does not depend on it: they are read from the one `.gitignore` of
each directory.
-/

namespace AutomateLinux

namespace LastChanged

/-- The same tree, with the entries of its directories in another order. -/
inductive Reordered : List Entry → List Entry → Prop
  | nil : Reordered [] []
  | cons (e : Entry) {rest rest' : List Entry} (hrest : Reordered rest rest') :
      Reordered (e :: rest) (e :: rest')
  | dir (name : Text) {sub sub' rest rest' : List Entry} (hsub : Reordered sub sub')
      (hrest : Reordered rest rest') :
      Reordered (.dir name sub :: rest) (.dir name sub' :: rest')
  | swap (e e' : Entry) (rest : List Entry) : Reordered (e' :: e :: rest) (e :: e' :: rest)
  | trans {entries entries' entries'' : List Entry} (hfirst : Reordered entries entries')
      (hsecond : Reordered entries' entries'') : Reordered entries entries''

inductive SameEntry : Entry → Entry → Prop
  | refl (e : Entry) : SameEntry e e
  | dir (name : Text) {sub sub' : List Entry} (hsub : Reordered sub sub') :
      SameEntry (.dir name sub) (.dir name sub')

section

variable {entries entries' rest sub sub' : List Entry} {e e' : Entry}

theorem Reordered.refl (entries : List Entry) : Reordered entries entries := by
  induction entries with
  | nil => exact Reordered.nil
  | cons e rest ih => exact Reordered.cons e ih

theorem Reordered.symm (horder : Reordered entries entries') : Reordered entries' entries := by
  induction horder with
  | nil => exact Reordered.nil
  | cons e _ ih => exact Reordered.cons e ih
  | dir name _ _ ihsub ih => exact Reordered.dir name ihsub ih
  | swap e e' rest => exact Reordered.swap e' e rest
  | trans _ _ ih ih' => exact Reordered.trans ih' ih

theorem Reordered.of_perm (hperm : entries.Perm entries') : Reordered entries entries' := by
  induction hperm with
  | nil => exact Reordered.nil
  | cons e _ ih => exact Reordered.cons e ih
  | swap e e' rest => exact Reordered.swap e e' rest
  | trans _ _ ih ih' => exact Reordered.trans ih ih'

theorem Reordered.cons_same (hsame : SameEntry e e') (hrest : Reordered entries entries') :
    Reordered (e :: entries) (e' :: entries') := by
  cases hsame with
  | refl => exact Reordered.cons e hrest
  | dir name hsub => exact Reordered.dir name hsub hrest

theorem SameEntry.symm (hsame : SameEntry e e') : SameEntry e' e := by
  cases hsame with
  | refl => exact SameEntry.refl e
  | dir name hsub => exact SameEntry.dir name hsub.symm

theorem SameEntry.trans {e'' : Entry} (hfirst : SameEntry e e') (hsecond : SameEntry e' e'') :
    SameEntry e e'' := by
  cases hfirst with
  | refl => exact hsecond
  | dir name hsub =>
      cases hsecond with
      | refl => exact SameEntry.dir name hsub
      | dir name hsub' => exact SameEntry.dir name (hsub.trans hsub')

theorem SameEntry.name_eq (hsame : SameEntry e e') : e.name = e'.name := by
  cases hsame <;> rfl

theorem Reordered.exists_same (horder : Reordered entries entries') :
    ∀ e ∈ entries, ∃ e' ∈ entries', SameEntry e e' := by
  induction horder with
  | nil => simp
  | cons e hrest ih =>
      rintro e' (_ | ⟨_, he'⟩)
      · exact ⟨e, List.mem_cons_self, SameEntry.refl e⟩
      · obtain ⟨e'', he'', hsame⟩ := ih e' he'
        exact ⟨e'', List.mem_cons_of_mem _ he'', hsame⟩
  | dir name hsub hrest _ ih =>
      rintro e' (_ | ⟨_, he'⟩)
      · exact ⟨_, List.mem_cons_self, SameEntry.dir name hsub⟩
      · obtain ⟨e'', he'', hsame⟩ := ih e' he'
        exact ⟨e'', List.mem_cons_of_mem _ he'', hsame⟩
  | swap e e' rest =>
      intro e'' he''
      exact ⟨e'', (List.Perm.swap e e' rest).mem_iff.mp he'', SameEntry.refl e''⟩
  | trans _ _ ih ih' =>
      intro e he
      obtain ⟨e', he', hsame⟩ := ih e he
      obtain ⟨e'', he'', hsame'⟩ := ih' e' he'
      exact ⟨e'', he'', hsame.trans hsame'⟩

/-! ## What is the same in every order -/

theorem Reordered.names (horder : Reordered entries entries') :
    (entries.map Entry.name).Perm (entries'.map Entry.name) := by
  induction horder with
  | nil => exact List.Perm.nil
  | cons e _ ih => exact ih.cons e.name
  | dir name _ _ _ ih => exact ih.cons name
  | swap e e' rest => exact List.Perm.swap e.name e'.name _
  | trans _ _ ih ih' => exact ih.trans ih'

theorem directoryOk_cons_iff : DirectoryOk (e :: rest) ↔
    e.name ∉ rest.map Entry.name ∧ '/' ∉ e.name ∧
      (∀ name sub, e = .dir name sub → DirectoryOk sub) ∧ DirectoryOk rest := by
  constructor
  · rintro ⟨distinct, noSlash, below⟩
    rw [List.map_cons, List.nodup_cons] at distinct
    refine ⟨distinct.1, noSlash e List.mem_cons_self, ?_, ?_⟩
    · rintro name sub rfl
      exact below name sub List.mem_cons_self
    · exact ⟨distinct.2, fun e' he' => noSlash e' (List.mem_cons_of_mem e he'),
        fun name sub hsub => below name sub (List.mem_cons_of_mem e hsub)⟩
  · rintro ⟨hname, hslash, hbelow, distinct, noSlash, below⟩
    constructor
    · exact List.nodup_cons.mpr ⟨hname, distinct⟩
    · rintro e' (_ | ⟨_, he'⟩)
      · exact hslash
      · exact noSlash e' he'
    · rintro name sub (_ | ⟨_, hsub⟩)
      · exact hbelow name sub rfl
      · exact below name sub hsub

theorem directoryOk_nil : DirectoryOk [] := ⟨List.nodup_nil, by simp, by simp⟩

theorem DirectoryOk.of_mem {name : Text} (hok : DirectoryOk entries)
    (hmem : .dir name sub ∈ entries) : DirectoryOk sub := by
  cases hok with
  | intro _ _ below => exact below name sub hmem

theorem DirectoryOk.noSlash (hok : DirectoryOk entries) : ∀ e ∈ entries, '/' ∉ e.name := by
  cases hok with
  | intro _ noSlash _ => exact noSlash

theorem DirectoryOk.distinct (hok : DirectoryOk entries) : (entries.map Entry.name).Nodup := by
  cases hok with
  | intro distinct _ _ => exact distinct

theorem Reordered.directoryOk (horder : Reordered entries entries') (hok : DirectoryOk entries) :
    DirectoryOk entries' := by
  induction horder with
  | nil => exact hok
  | cons e hrest ih =>
      rw [directoryOk_cons_iff] at hok ⊢
      obtain ⟨hname, hslash, hbelow, hok⟩ := hok
      exact ⟨fun hmem => hname (hrest.names.mem_iff.mpr hmem), hslash, hbelow, ih hok⟩
  | dir name hsub hrest ihsub ih =>
      rw [directoryOk_cons_iff] at hok ⊢
      obtain ⟨hname, hslash, hbelow, hok⟩ := hok
      refine ⟨fun hmem => hname (hrest.names.mem_iff.mpr hmem), hslash, ?_, ih hok⟩
      rintro _ _ ⟨rfl, rfl⟩
      exact ihsub (hbelow _ _ rfl)
  | swap e e' rest =>
      simp only [directoryOk_cons_iff, List.map_cons, List.mem_cons, not_or] at hok ⊢
      obtain ⟨⟨hne, hname'⟩, hslash', hbelow', hname, hslash, hbelow, hok⟩ := hok
      exact ⟨⟨Ne.symm hne, hname⟩, hslash, hbelow, hname', hslash', hbelow', hok⟩
  | trans _ _ ih ih' => exact ih' (ih hok)

theorem Reordered.isRepository_eq (horder : Reordered entries entries') :
    isRepository entries = isRepository entries' := by
  unfold isRepository
  induction horder with
  | nil => rfl
  | cons e _ ih => rw [List.any_cons, List.any_cons, ih]
  | dir name _ _ _ ih => rw [List.any_cons, List.any_cons, ih]; rfl
  | swap e e' rest => simp only [List.any_cons, Bool.or_left_comm]
  | trans _ _ ih ih' => exact ih.trans ih'

theorem name_of_gitignore {content : Text} (hcontent : e.gitignore? = some content) :
    e.name = ".gitignore".toList := by
  cases e with
  | file name mtime content' =>
      simp only [Entry.gitignore?, Option.ite_none_right_eq_some] at hcontent
      exact hcontent.1
  | special _ => exact nomatch hcontent
  | dir _ _ => exact nomatch hcontent

theorem Reordered.gitignore_eq (horder : Reordered entries entries') (hok : DirectoryOk entries) :
    gitignore entries = gitignore entries' := by
  unfold gitignore
  induction horder with
  | nil => rfl
  | cons e _ ih =>
      rw [List.findSome?_cons, List.findSome?_cons, ih (directoryOk_cons_iff.mp hok).2.2.2]
  | dir name _ _ _ ih => exact ih (directoryOk_cons_iff.mp hok).2.2.2
  | swap e e' rest =>
      simp only [List.findSome?_cons]
      cases hcontent : e.gitignore? with
      | none => rfl
      | some content =>
          cases hcontent' : e'.gitignore? with
          | none => rfl
          | some content' =>
              refine absurd ?_ (directoryOk_cons_iff.mp hok).1
              rw [name_of_gitignore hcontent', ← name_of_gitignore hcontent]
              exact List.mem_map_of_mem List.mem_cons_self
  | trans hfirst _ ih ih' => exact (ih hok).trans (ih' (hfirst.directoryOk hok))

theorem Reordered.ownPatterns_eq (horder : Reordered entries entries')
    (hok : DirectoryOk entries) (dir : Text) :
    ownPatterns dir entries = ownPatterns dir entries' := by
  unfold ownPatterns
  rw [horder.gitignore_eq hok, horder.isRepository_eq]

theorem Reordered.inside_eq (horder : Reordered entries entries') (hok : DirectoryOk entries)
    (dir : Text) (scope : Scope) : inside dir entries scope = inside dir entries' scope := by
  unfold LastChanged.inside
  rw [horder.ownPatterns_eq hok, horder.isRepository_eq]

theorem Reordered.fileTotal_eq (horder : Reordered entries entries') :
    fileTotal entries = fileTotal entries' := by
  induction horder with
  | nil => rfl
  | cons e _ ih => rw [fileTotal, fileTotal, ih]
  | dir name _ _ ihsub ih =>
      rw [fileTotal, fileTotal, Entry.fileTotal, Entry.fileTotal, ihsub, ih]
  | swap e e' rest =>
      simp only [fileTotal]
      omega
  | trans _ _ ih ih' => exact ih.trans ih'

theorem Reordered.patternTotal_eq (horder : Reordered entries entries')
    (hok : DirectoryOk entries) (dir : Text) :
    patternTotal dir entries = patternTotal dir entries' := by
  induction horder generalizing dir with
  | nil => rfl
  | cons e _ ih => rw [patternTotal, patternTotal, ih (directoryOk_cons_iff.mp hok).2.2.2]
  | dir name hsub _ ihsub ih =>
      obtain ⟨-, -, hbelow, hrest⟩ := directoryOk_cons_iff.mp hok
      have hoksub := hbelow name _ rfl
      rw [patternTotal, patternTotal, Entry.patternTotal, Entry.patternTotal,
        hsub.ownPatterns_eq hoksub, ihsub hoksub, ih hrest]
  | swap e e' rest =>
      simp only [patternTotal]
      omega
  | trans hfirst _ ih ih' => exact (ih hok dir).trans (ih' (hfirst.directoryOk hok) dir)

variable {fnmatch : Text → Text → Bool → Bool} {file : FileEntry}

theorem Reordered.mem_kept_iff (horder : Reordered entries entries') (hok : DirectoryOk entries)
    (dir : Text) (scope : Scope) :
    file ∈ kept fnmatch dir scope entries ↔ file ∈ kept fnmatch dir scope entries' := by
  induction horder generalizing dir scope with
  | nil => rfl
  | cons e _ ih =>
      rw [kept, kept, List.mem_append, List.mem_append, ih (directoryOk_cons_iff.mp hok).2.2.2]
  | dir name hsub _ ihsub ih =>
      obtain ⟨-, -, hbelow, hrest⟩ := directoryOk_cons_iff.mp hok
      have hoksub := hbelow name _ rfl
      rw [kept, kept, List.mem_append, List.mem_append, ih hrest, keptEntry, keptEntry,
        hsub.inside_eq hoksub]
      refine or_congr_left ?_
      split
      · rfl
      · exact ihsub hoksub _ _
  | swap e e' rest => simp only [kept, List.mem_append, or_left_comm]
  | trans hfirst _ ih ih' =>
      exact (ih hok dir scope).trans (ih' (hfirst.directoryOk hok) dir scope)

theorem Reordered.resets_eq (horder : Reordered entries entries') (hok : DirectoryOk entries)
    (dir : Text) (scope : Scope) :
    resets fnmatch dir scope entries = resets fnmatch dir scope entries' := by
  induction horder generalizing dir scope with
  | nil => rfl
  | cons e _ ih => rw [resets, resets, ih (directoryOk_cons_iff.mp hok).2.2.2]
  | dir name hsub _ ihsub ih =>
      obtain ⟨-, -, hbelow, hrest⟩ := directoryOk_cons_iff.mp hok
      have hoksub := hbelow name _ rfl
      rw [resets, resets, resetsEntry, resetsEntry, hsub.isRepository_eq,
        hsub.inside_eq hoksub, ihsub hoksub, ih hrest]
  | swap e e' rest => simp only [resets, Bool.or_left_comm]
  | trans hfirst _ ih ih' =>
      exact (ih hok dir scope).trans (ih' (hfirst.directoryOk hok) dir scope)

theorem SameEntry.mem_keptEntry_iff (hsame : SameEntry e e')
    (hok : ∀ name sub, e = .dir name sub → DirectoryOk sub) (dir : Text) (scope : Scope) :
    file ∈ keptEntry fnmatch dir scope e ↔ file ∈ keptEntry fnmatch dir scope e' := by
  cases hsame with
  | refl => rfl
  | @dir name sub _ hsub =>
      have hoksub := hok name sub rfl
      rw [keptEntry, keptEntry, hsub.inside_eq hoksub]
      split
      · rfl
      · exact hsub.mem_kept_iff hoksub _ _

theorem SameEntry.resetsEntry_eq (hsame : SameEntry e e')
    (hok : ∀ name sub, e = .dir name sub → DirectoryOk sub) (dir : Text) (scope : Scope) :
    resetsEntry fnmatch dir scope e = resetsEntry fnmatch dir scope e' := by
  cases hsame with
  | refl => rfl
  | @dir name sub _ hsub =>
      have hoksub := hok name sub rfl
      rw [resetsEntry, resetsEntry, hsub.isRepository_eq, hsub.inside_eq hoksub,
        hsub.resets_eq hoksub]

end

end LastChanged

end AutomateLinux
