import AutomateLinux.DirectoryOrders
import Mathlib.Data.List.Nodup

/-!
# Scans in every order

An entry is decided with the patterns in force or, behind a sibling that leads into a
repository, with none of the patterns from outside of it.  The scan collects the same
files in every order exactly when this makes no difference anywhere.
-/

namespace AutomateLinux

namespace LastChanged

section

variable {fnmatch : Text → Text → Bool → Bool} {file : FileEntry}

/-! ## Where the files are -/

mutual

theorem under_of_mem_keptEntry (dir : Text) (scope : Scope) : ∀ (e : Entry),
    file ∈ keptEntry fnmatch dir scope e →
      pathIsUnderDir file.path (child dir e.name) = true
  | .file name mtime _, hfile => by
      rw [keptEntry] at hfile
      split at hfile
      · exact absurd hfile List.not_mem_nil
      · rw [List.mem_singleton.mp hfile]
        exact child_under_self dir name
  | .special _, hfile => by
      rw [keptEntry] at hfile
      exact absurd hfile List.not_mem_nil
  | .dir name entries, hfile => by
      rw [keptEntry] at hfile
      split at hfile
      · exact absurd hfile List.not_mem_nil
      · obtain ⟨e, -, hunder⟩ := under_of_mem_kept (child dir name) _ entries hfile
        exact under_of_under_child hunder

theorem under_of_mem_kept (dir : Text) (scope : Scope) : ∀ (entries : List Entry),
    file ∈ kept fnmatch dir scope entries →
      ∃ e ∈ entries, pathIsUnderDir file.path (child dir e.name) = true
  | [], hfile => by
      rw [kept] at hfile
      exact absurd hfile List.not_mem_nil
  | e :: entries, hfile => by
      rw [kept, List.mem_append] at hfile
      rcases hfile with hfile | hfile
      · exact ⟨e, List.mem_cons_self, under_of_mem_keptEntry dir scope e hfile⟩
      · obtain ⟨e', he', hunder⟩ := under_of_mem_kept dir scope entries hfile
        exact ⟨e', List.mem_cons_of_mem e he', hunder⟩

end

mutual

theorem under_of_mem_runEntry (dir : Text) (scope : Scope) : ∀ (e : Entry),
    file ∈ (runEntry fnmatch dir scope e).1 →
      pathIsUnderDir file.path (child dir e.name) = true
  | .file name mtime _, hfile => by
      rw [runEntry] at hfile
      split at hfile
      · exact absurd hfile List.not_mem_nil
      · rw [List.mem_singleton.mp hfile]
        exact child_under_self dir name
  | .special _, hfile => by
      rw [runEntry] at hfile
      exact absurd hfile List.not_mem_nil
  | .dir name entries, hfile => by
      rw [runEntry] at hfile
      split at hfile
      · exact absurd hfile List.not_mem_nil
      · obtain ⟨e, -, hunder⟩ := under_of_mem_run (child dir name) _ entries hfile
        exact under_of_under_child hunder

theorem under_of_mem_run (dir : Text) (scope : Scope) : ∀ (entries : List Entry),
    file ∈ (run fnmatch dir scope entries).1 →
      ∃ e ∈ entries, pathIsUnderDir file.path (child dir e.name) = true
  | [], hfile => by
      rw [run] at hfile
      exact absurd hfile List.not_mem_nil
  | e :: entries, hfile => by
      rw [run, List.mem_append] at hfile
      rcases hfile with hfile | hfile
      · exact ⟨e, List.mem_cons_self, under_of_mem_runEntry dir scope e hfile⟩
      · obtain ⟨e', he', hunder⟩ := under_of_mem_run dir _ entries hfile
        exact ⟨e', List.mem_cons_of_mem e he', hunder⟩

end

variable {dir : Text} {scope seen : Scope} {entries entries' rest : List Entry} {e e' : Entry}

theorem eq_of_under (hok : DirectoryOk entries) (he : e ∈ entries) (he' : e' ∈ entries)
    (hunder : pathIsUnderDir file.path (child dir e.name) = true)
    (hunder' : pathIsUnderDir file.path (child dir e'.name) = true) : e = e' :=
  List.inj_on_of_nodup_map hok.distinct he he'
    (name_eq_of_under (hok.noSlash e he) (hok.noSlash e' he') hunder hunder')

theorem mem_kept_iff_of_under (hok : DirectoryOk entries) (he : e ∈ entries)
    (hunder : pathIsUnderDir file.path (child dir e.name) = true) :
    file ∈ kept fnmatch dir scope entries ↔ file ∈ keptEntry fnmatch dir scope e := by
  induction entries with
  | nil => exact absurd he List.not_mem_nil
  | cons first rest ih =>
      have hokRest := (directoryOk_cons_iff.mp hok).2.2.2
      rw [kept, List.mem_append]
      rcases List.mem_cons.mp he with rfl | he
      · refine or_iff_left fun hfile => ?_
        obtain ⟨e', he', hunder'⟩ := under_of_mem_kept dir scope rest hfile
        have hsame := eq_of_under hok List.mem_cons_self (List.mem_cons_of_mem e he') hunder hunder'
        exact (directoryOk_cons_iff.mp hok).1 (hsame ▸ List.mem_map_of_mem he')
      · rw [ih hokRest he]
        refine or_iff_right fun hfile => ?_
        have hunder' := under_of_mem_keptEntry dir scope first hfile
        have hsame := eq_of_under hok List.mem_cons_self (List.mem_cons_of_mem first he)
          hunder' hunder
        exact (directoryOk_cons_iff.mp hok).1 (hsame ▸ List.mem_map_of_mem he)

theorem not_mem_run_of_under (hok : DirectoryOk (e :: rest))
    (hunder : pathIsUnderDir file.path (child dir e.name) = true) :
    file ∉ (run fnmatch dir scope rest).1 := by
  intro hfile
  obtain ⟨e', he', hunder'⟩ := under_of_mem_run dir scope rest hfile
  have hsame := eq_of_under hok List.mem_cons_self (List.mem_cons_of_mem e he') hunder hunder'
  exact (directoryOk_cons_iff.mp hok).1 (hsame ▸ List.mem_map_of_mem he')

/-! ## Repositories entered -/

mutual

theorem runEntry_reset (dir : Text) (scope : Scope) : ∀ (e : Entry),
    (runEntry fnmatch dir scope e).2 = resetsEntry fnmatch dir scope e
  | .file _ _ _ => rfl
  | .special _ => rfl
  | .dir name entries => by
      rw [runEntry, resetsEntry]
      split
      · rename_i hignored
        rw [hignored]
        rfl
      · rename_i hignored
        rw [eq_false_of_ne_true hignored]
        simp only [run_reset (child dir name) _ entries, Bool.not_false, Bool.true_and]

theorem run_reset (dir : Text) (scope : Scope) : ∀ (entries : List Entry),
    (run fnmatch dir scope entries).2 = resets fnmatch dir scope entries
  | [] => rfl
  | e :: entries => by
      rw [run, resets]
      simp only [runEntry_reset dir scope e]
      cases resetsEntry fnmatch dir scope e with
      | true => rfl
      | false => exact run_reset dir scope entries

end

/-- The patterns the scan may have when it comes to an entry of this name. -/
inductive Sees (fnmatch : Text → Text → Bool → Bool) (dir : Text) (scope : Scope)
    (entries : List Entry) (name : Text) : Scope → Prop
  | inForce : Sees fnmatch dir scope entries name scope
  | behind (other : Entry) (hother : other ∈ entries) (hname : other.name ≠ name)
      (hreset : resetsEntry fnmatch dir scope other = true) :
      Sees fnmatch dir scope entries name (dropped scope)

/-- At no entry does it matter that the patterns may have been dropped before it. -/
inductive OrderFree (fnmatch : Text → Text → Bool → Bool) : Text → Scope → List Entry → Prop
  | intro {dir : Text} {scope : Scope} {entries : List Entry}
      (same : ∀ e ∈ entries, ∀ seen, Sees fnmatch dir scope entries e.name seen → ∀ file,
        file ∈ keptEntry fnmatch dir seen e ↔ file ∈ keptEntry fnmatch dir scope e)
      (below : ∀ name sub, .dir name sub ∈ entries → ∀ seen,
        Sees fnmatch dir scope entries name seen →
        ignores fnmatch seen (child dir name) true = false →
        OrderFree fnmatch (child dir name) (inside (child dir name) sub seen) sub) :
      OrderFree fnmatch dir scope entries

theorem Reordered.sees (horder : Reordered entries entries') (hok : DirectoryOk entries)
    {name : Text} (hsees : Sees fnmatch dir scope entries name seen) :
    Sees fnmatch dir scope entries' name seen := by
  cases hsees with
  | inForce => exact Sees.inForce
  | behind other hother hname hreset =>
      obtain ⟨other', hother', hsame⟩ := horder.exists_same other hother
      refine Sees.behind other' hother' (hsame.name_eq ▸ hname) ?_
      rw [← hreset]
      refine (hsame.resetsEntry_eq ?_ dir scope).symm
      rintro name sub rfl
      exact hok.of_mem hother

theorem OrderFree.reordered (hfree : OrderFree fnmatch dir scope entries)
    (hok : DirectoryOk entries) (horder : Reordered entries entries') :
    OrderFree fnmatch dir scope entries' := by
  induction hfree generalizing entries' with
  | @intro dir scope entries same below ih =>
      have hback := horder.symm
      have hok' := horder.directoryOk hok
      constructor
      · intro e' he' seen hsees file
        obtain ⟨e, he, hsame⟩ := hback.exists_same e' he'
        have hoke : ∀ name sub, e' = .dir name sub → DirectoryOk sub := by
          rintro name sub rfl
          exact hok'.of_mem he'
        rw [hsame.mem_keptEntry_iff hoke, hsame.mem_keptEntry_iff hoke]
        rw [hsame.name_eq] at hsees
        exact same e he seen (hback.sees hok' hsees) file
      · intro name sub' hsub' seen hsees hignored
        have hsees' := hback.sees hok' hsees
        obtain ⟨e, he, hsame⟩ := hback.exists_same _ hsub'
        have hoksub := hok'.of_mem hsub'
        cases hsame with
        | refl =>
            exact ih name sub' he seen hsees' hignored hoksub (Reordered.refl sub')
        | @dir _ _ sub hsame =>
            rw [hsame.inside_eq hoksub]
            exact ih name sub he seen hsees' hignored (hsame.directoryOk hoksub) hsame.symm

/-! ## From no difference to every order -/

theorem dropped_dropped (scope : Scope) : dropped (dropped scope) = dropped scope := by
  cases scope <;> rfl

theorem Sees.next {name : Text} (hsees : Sees fnmatch dir scope entries e.name seen)
    (hsees' : Sees fnmatch dir scope entries name seen) (he : e ∈ entries)
    (hname : e.name ≠ name) :
    Sees fnmatch dir scope entries name
      (if (runEntry fnmatch dir seen e).2 then dropped seen else seen) := by
  split
  · rename_i hreset
    cases hsees with
    | inForce =>
        rw [runEntry_reset] at hreset
        exact Sees.behind e he hname hreset
    | behind other _ _ _ =>
        rw [dropped_dropped]
        exact hsees'
  · exact hsees'

/-- The entries of a directory still to come, when each is run as it would be kept. -/
theorem mem_run_iff (hentry : ∀ e ∈ rest, ∀ seen, Sees fnmatch dir scope entries e.name seen →
      ∀ file, file ∈ (runEntry fnmatch dir seen e).1 ↔ file ∈ keptEntry fnmatch dir scope e)
    (hrest : ∀ e ∈ rest, e ∈ entries) (hdistinct : (rest.map Entry.name).Nodup)
    (hsees : ∀ e ∈ rest, Sees fnmatch dir scope entries e.name seen) (file : FileEntry) :
    file ∈ (run fnmatch dir seen rest).1 ↔ file ∈ kept fnmatch dir scope rest := by
  induction rest generalizing seen with
  | nil => rfl
  | cons e rest ih =>
      rw [List.map_cons, List.nodup_cons] at hdistinct
      have hfirst := hsees e List.mem_cons_self
      rw [run, kept, List.mem_append, List.mem_append,
        hentry e List.mem_cons_self seen hfirst file]
      refine or_congr_right (ih ?_ ?_ hdistinct.2 ?_)
      · exact fun e' he' => hentry e' (List.mem_cons_of_mem e he')
      · exact fun e' he' => hrest e' (List.mem_cons_of_mem e he')
      · intro e' he'
        refine hfirst.next (hsees e' (List.mem_cons_of_mem e he')) (hrest e List.mem_cons_self) ?_
        exact fun heq => hdistinct.1 (heq ▸ List.mem_map_of_mem he')

theorem OrderFree.mem_run_iff (hfree : OrderFree fnmatch dir scope entries)
    (hok : DirectoryOk entries) (file : FileEntry) :
    file ∈ (run fnmatch dir scope entries).1 ↔ file ∈ kept fnmatch dir scope entries := by
  induction hfree generalizing file with
  | @intro dir scope entries same below ih =>
      refine LastChanged.mem_run_iff ?_ (fun _ he => he) hok.distinct (fun _ _ => Sees.inForce) file
      intro e he seen hsees file
      rw [← same e he seen hsees file]
      cases e with
      | file name mtime content => rw [runEntry, keptEntry]
      | special name => rw [runEntry, keptEntry]
      | dir name sub =>
          rw [runEntry, keptEntry]
          split
          · rfl
          · rename_i hignored
            exact ih name sub he seen hsees (eq_false_of_ne_true hignored)
              (hok.of_mem he) file

/-! ## From every order to no difference -/

theorem mem_run_cons_iff (hok : DirectoryOk (e :: rest))
    (hunder : pathIsUnderDir file.path (child dir e.name) = true) :
    file ∈ (run fnmatch dir scope (e :: rest)).1 ↔ file ∈ (runEntry fnmatch dir scope e).1 := by
  rw [run, List.mem_append]
  exact or_iff_left (not_mem_run_of_under hok hunder)

/-- There is an order in which the scan comes to the entry with these patterns. -/
theorem exists_order_seeing (hok : DirectoryOk entries) (he : e ∈ entries)
    (hsees : Sees fnmatch dir scope entries e.name seen) (hsame : SameEntry e e') :
    ∃ entries', Reordered entries entries' ∧
      ∀ file, pathIsUnderDir file.path (child dir e.name) = true →
        (file ∈ (run fnmatch dir scope entries').1 ↔
          file ∈ (runEntry fnmatch dir seen e').1) := by
  cases hsees with
  | inForce =>
      obtain ⟨before, behind, rfl⟩ := List.append_of_mem he
      have horder : Reordered (before ++ e :: behind) (e' :: (before ++ behind)) :=
        (Reordered.of_perm List.perm_middle).trans
          (Reordered.cons_same hsame (Reordered.refl _))
      refine ⟨e' :: (before ++ behind), horder, fun file hunder => ?_⟩
      rw [hsame.name_eq] at hunder
      exact mem_run_cons_iff (horder.directoryOk hok) hunder
  | behind other hother hname hreset =>
      obtain ⟨before, behind, rfl⟩ := List.append_of_mem he
      have hperm : (before ++ e :: behind).Perm (e :: (before ++ behind)) := List.perm_middle
      have hrest : other ∈ before ++ behind := by
        rcases List.mem_cons.mp (hperm.mem_iff.mp hother) with rfl | hrest
        · exact absurd rfl hname
        · exact hrest
      obtain ⟨first, second, hsplit⟩ := List.append_of_mem hrest
      have hfront : (before ++ e :: behind).Perm (other :: e :: (first ++ second)) := by
        calc (before ++ e :: behind).Perm (e :: (before ++ behind)) := hperm
          _ = e :: (first ++ other :: second) := by rw [hsplit]
          List.Perm _ (e :: other :: (first ++ second)) := List.perm_middle.cons e
          List.Perm _ (other :: e :: (first ++ second)) := List.Perm.swap _ _ _
      have horder : Reordered (before ++ e :: behind) (other :: e' :: (first ++ second)) :=
        (Reordered.of_perm hfront).trans
          (Reordered.cons other (Reordered.cons_same hsame (Reordered.refl _)))
      have hok' := horder.directoryOk hok
      refine ⟨_, horder, fun file hunder => ?_⟩
      have hother : file ∉ (runEntry fnmatch dir scope other).1 := fun hfile =>
        hname (name_eq_of_under (hok'.noSlash other List.mem_cons_self) (hok.noSlash e he)
          (under_of_mem_runEntry dir scope other hfile) hunder)
      rw [run, List.mem_append, or_iff_right hother, runEntry_reset, hreset, if_pos rfl]
      rw [hsame.name_eq] at hunder
      exact mem_run_cons_iff (directoryOk_cons_iff.mp hok').2.2.2 hunder

theorem exists_same_deciding (hbelow : ∀ name sub, e = .dir name sub → DirectoryOk sub ∧
      ∀ dir scope file, ∃ sub', Reordered sub sub' ∧
        (file ∈ (run fnmatch dir scope sub').1 ↔ file ∈ kept fnmatch dir scope sub))
    (dir : Text) (scope : Scope) (file : FileEntry) :
    ∃ e', SameEntry e e' ∧
      (file ∈ (runEntry fnmatch dir scope e').1 ↔ file ∈ keptEntry fnmatch dir scope e) := by
  cases e with
  | file name mtime content => exact ⟨_, SameEntry.refl _, by rw [runEntry, keptEntry]⟩
  | special name => exact ⟨_, SameEntry.refl _, by rw [runEntry, keptEntry]⟩
  | dir name sub =>
      obtain ⟨hok, hsub⟩ := hbelow name sub rfl
      obtain ⟨sub', horder, hfile⟩ :=
        hsub (child dir name) (inside (child dir name) sub scope) file
      refine ⟨.dir name sub', SameEntry.dir name horder, ?_⟩
      rw [runEntry, keptEntry, ← horder.inside_eq hok]
      split
      · rfl
      · exact hfile

theorem exists_order_deciding (hok : DirectoryOk entries) (dir : Text) (scope : Scope)
    (file : FileEntry) :
    ∃ entries', Reordered entries entries' ∧
      (file ∈ (run fnmatch dir scope entries').1 ↔ file ∈ kept fnmatch dir scope entries) := by
  induction hok generalizing dir scope file with
  | @intro entries distinct noSlash below ih =>
      have hok : DirectoryOk entries := ⟨distinct, noSlash, below⟩
      by_cases hunder : ∃ e ∈ entries, pathIsUnderDir file.path (child dir e.name) = true
      · obtain ⟨e, he, hunder⟩ := hunder
        have hbelow : ∀ name sub, e = .dir name sub → DirectoryOk sub ∧
            ∀ dir scope file, ∃ sub', Reordered sub sub' ∧
              (file ∈ (run fnmatch dir scope sub').1 ↔ file ∈ kept fnmatch dir scope sub) := by
          rintro name sub rfl
          exact ⟨below name sub he, ih name sub he⟩
        obtain ⟨e', hsame, hfile⟩ := exists_same_deciding hbelow dir scope file
        obtain ⟨entries', horder, hrun⟩ := exists_order_seeing hok he Sees.inForce hsame
        refine ⟨entries', horder, ?_⟩
        rw [hrun file hunder, hfile, mem_kept_iff_of_under hok he hunder]
      · refine ⟨entries, Reordered.refl entries, iff_of_false ?_ ?_⟩
        · exact fun hfile => hunder (under_of_mem_run dir scope entries hfile)
        · exact fun hfile => hunder (under_of_mem_kept dir scope entries hfile)

theorem exists_same_of_directoryOk (hok : DirectoryOk entries) (he : e ∈ entries) (dir : Text)
    (scope : Scope) (file : FileEntry) :
    ∃ e', SameEntry e e' ∧
      (file ∈ (runEntry fnmatch dir scope e').1 ↔ file ∈ keptEntry fnmatch dir scope e) := by
  refine exists_same_deciding ?_ dir scope file
  rintro name sub rfl
  exact ⟨hok.of_mem he, exists_order_deciding (hok.of_mem he)⟩

theorem keptEntry_same (hok : DirectoryOk entries) (he : e ∈ entries)
    (horders : ∀ entries', Reordered entries entries' → ∀ file,
      file ∈ (run fnmatch dir scope entries').1 ↔ file ∈ kept fnmatch dir scope entries)
    (hsees : Sees fnmatch dir scope entries e.name seen) (file : FileEntry) :
    file ∈ keptEntry fnmatch dir seen e ↔ file ∈ keptEntry fnmatch dir scope e := by
  by_cases hunder : pathIsUnderDir file.path (child dir e.name) = true
  · obtain ⟨e', hsame, hfile⟩ : ∃ e', SameEntry e e' ∧
        (file ∈ (runEntry fnmatch dir seen e').1 ↔ file ∈ keptEntry fnmatch dir seen e) :=
      exists_same_of_directoryOk hok he dir seen file
    obtain ⟨entries', horder, hrun⟩ := exists_order_seeing hok he hsees hsame
    rw [← hfile, ← hrun file hunder, horders entries' horder file,
      mem_kept_iff_of_under hok he hunder]
  · refine iff_of_false ?_ ?_
    · exact fun hfile => hunder (under_of_mem_keptEntry dir seen e hfile)
    · exact fun hfile => hunder (under_of_mem_keptEntry dir scope e hfile)

theorem orderFree_of_orders (hok : DirectoryOk entries)
    (horders : ∀ entries', Reordered entries entries' → ∀ file,
      file ∈ (run fnmatch dir scope entries').1 ↔ file ∈ kept fnmatch dir scope entries) :
    OrderFree fnmatch dir scope entries := by
  induction hok generalizing dir scope with
  | @intro entries distinct noSlash below ih =>
      have hok : DirectoryOk entries := ⟨distinct, noSlash, below⟩
      constructor
      · exact fun e he seen hsees => keptEntry_same hok he horders hsees
      · intro name sub hsub seen hsees hignored
        refine ih name sub hsub fun sub' horder file => ?_
        have hoksub := below name sub hsub
        obtain ⟨entries', horder', hrun⟩ :=
          exists_order_seeing hok hsub hsees (SameEntry.dir name horder)
        by_cases hunder : pathIsUnderDir file.path (child dir name) = true
        · have hdecided := hrun file hunder
          rw [horders entries' horder' file, mem_kept_iff_of_under hok hsub hunder,
            ← keptEntry_same hok hsub horders hsees file, runEntry, keptEntry, hignored,
            if_neg Bool.false_ne_true, if_neg Bool.false_ne_true,
            ← horder.inside_eq hoksub] at hdecided
          exact hdecided.symm
        · refine iff_of_false ?_ ?_
          · intro hfile
            obtain ⟨e, -, hunder'⟩ := under_of_mem_run _ _ _ hfile
            exact hunder (under_of_under_child hunder')
          · intro hfile
            obtain ⟨e, -, hunder'⟩ := under_of_mem_kept _ _ _ hfile
            exact hunder (under_of_under_child hunder')

theorem resets_eq_false_iff : resets fnmatch dir scope entries = false ↔
    ∀ e ∈ entries, resetsEntry fnmatch dir scope e = false := by
  induction entries with
  | nil => simp [resets]
  | cons e rest ih => rw [resets, Bool.or_eq_false_iff, ih, List.forall_mem_cons]

/-- Without a repository inside of the directory the order does not matter. -/
theorem orderFree_of_not_resets (hok : DirectoryOk entries)
    (hresets : resets fnmatch dir scope entries = false) : OrderFree fnmatch dir scope entries := by
  induction hok generalizing dir scope with
  | @intro entries distinct noSlash below ih =>
      rw [resets_eq_false_iff] at hresets
      have honly : ∀ name seen, Sees fnmatch dir scope entries name seen → seen = scope := by
        intro name seen hsees
        cases hsees with
        | inForce => rfl
        | behind other hother _ hreset =>
            rw [hresets other hother] at hreset
            exact Bool.noConfusion hreset
      constructor
      · intro e he seen hsees file
        rw [honly e.name seen hsees]
      · intro name sub hsub seen hsees hignored
        rw [honly name seen hsees] at hignored ⊢
        have hentry := hresets _ hsub
        rw [resetsEntry, hignored, Bool.not_false, Bool.true_and, Bool.or_eq_false_iff] at hentry
        exact ih name sub hsub hentry.2

/-- Outside of repositories there is nothing to drop: repositories side by side do not
disturb each other. -/
theorem orderFree_outside_iff : OrderFree fnmatch dir none entries ↔
    ∀ name sub, .dir name sub ∈ entries →
      OrderFree fnmatch (child dir name) (inside (child dir name) sub none) sub := by
  have honly : ∀ name seen, Sees fnmatch dir none entries name seen → seen = none := by
    intro name seen hsees
    cases hsees <;> rfl
  constructor
  · rintro ⟨-, below⟩ name sub hsub
    exact below name sub hsub none Sees.inForce rfl
  · intro hbelow
    constructor
    · intro e he seen hsees file
      rw [honly e.name seen hsees]
    · intro name sub hsub seen hsees _
      rw [honly name seen hsees]
      exact hbelow name sub hsub

/-! ## What is collected -/

def collected (fnmatch : Text → Text → Bool → Bool) (dir : Text) (inRepo : Bool)
    (ignorePatterns : List IgnorePattern) (entries : List Entry) : List FileEntry :=
  (scanDir fnmatch dir inRepo entries ⟨ignorePatterns, []⟩).files

theorem collected_eq_run (fnmatch : Text → Text → Bool → Bool) (dir : Text) (inRepo : Bool)
    {ignorePatterns : List IgnorePattern} (hok : DirectoryOk entries)
    (hfiles : fileTotal entries ≤ MAX_FILES)
    (hpatterns : ignorePatterns.length + (ownPatterns dir entries).length +
      patternTotal dir entries ≤ MAX_IGNORE)
    (horder : Reordered entries entries') :
    collected fnmatch dir inRepo ignorePatterns entries' =
      (run fnmatch dir (inside dir entries (outerScope inRepo ignorePatterns)) entries').1 := by
  rw [horder.fileTotal_eq] at hfiles
  rw [horder.ownPatterns_eq hok, horder.patternTotal_eq hok] at hpatterns
  have hfits : ([] : List FileEntry).length + fileTotal entries' ≤ MAX_FILES := by
    rw [List.length_nil, Nat.zero_add]
    exact hfiles
  unfold collected
  rw [horder.inside_eq hok]
  exact scanDir_files inRepo (horder.directoryOk hok) hfits hpatterns

/-- The scan collects the same files in every order, those which the `.gitignore` files
of their own repositories leave, if and only if no entry depends on what was scanned
before it. -/
theorem collected_same_iff (fnmatch : Text → Text → Bool → Bool) (dir : Text) (inRepo : Bool)
    (ignorePatterns : List IgnorePattern) (entries : List Entry) (hok : DirectoryOk entries)
    (hfiles : fileTotal entries ≤ MAX_FILES)
    (hpatterns : ignorePatterns.length + (ownPatterns dir entries).length +
      patternTotal dir entries ≤ MAX_IGNORE) :
    ((∀ entries', Reordered entries entries' → ∀ file,
        file ∈ collected fnmatch dir inRepo ignorePatterns entries' ↔
          file ∈ collected fnmatch dir inRepo ignorePatterns entries) ∧
      ∀ file, file ∈ collected fnmatch dir inRepo ignorePatterns entries ↔
        file ∈ kept fnmatch dir (inside dir entries (outerScope inRepo ignorePatterns)) entries) ↔
    OrderFree fnmatch dir (inside dir entries (outerScope inRepo ignorePatterns)) entries := by
  have hrun : ∀ entries', Reordered entries entries' →
      collected fnmatch dir inRepo ignorePatterns entries' =
        (run fnmatch dir (inside dir entries (outerScope inRepo ignorePatterns)) entries').1 :=
    fun entries' horder => collected_eq_run fnmatch dir inRepo hok hfiles hpatterns horder
  constructor
  · rintro ⟨hsame, hkept⟩
    refine orderFree_of_orders hok fun entries' horder file => ?_
    rw [← hrun entries' horder, hsame entries' horder file, hkept file]
  · intro hfree
    have hall : ∀ entries', Reordered entries entries' → ∀ file,
        file ∈ collected fnmatch dir inRepo ignorePatterns entries' ↔
          file ∈ kept fnmatch dir (inside dir entries (outerScope inRepo ignorePatterns))
            entries := by
      intro entries' horder file
      rw [hrun entries' horder, (hfree.reordered hok horder).mem_run_iff (horder.directoryOk hok),
        horder.mem_kept_iff hok]
    refine ⟨fun entries' horder file => ?_, hall entries (Reordered.refl entries)⟩
    rw [hall entries' horder file, hall entries (Reordered.refl entries) file]

/-- `fnmatch` on patterns without special characters. -/
def plainMatch (pattern text : Text) (_pathname : Bool) : Bool := pattern = text

/-- What `main` reads before it scans the repository `/r`. -/
def rootPatterns : List IgnorePattern := addPattern ".git/".toList "/r".toList []

/-- A repository with an ignored directory. -/
def plainRepository : List Entry :=
  [.dir ".git".toList [.file "HEAD".toList 1 []],
    .file ".gitignore".toList 2 "build\n".toList,
    .dir "build".toList [.file "out".toList 3 []],
    .file "notes".toList 4 []]

theorem plainRepository_ok : DirectoryOk plainRepository := by
  simp [plainRepository, directoryOk_cons_iff, directoryOk_nil, Entry.name]

/-- A directory outside of repositories with two of them in it. -/
def projects : List Entry :=
  [.dir "a".toList plainRepository, .dir "b".toList plainRepository,
    .file "todo".toList 5 []]

theorem projects_ok : DirectoryOk projects := by
  simp [projects, directoryOk_cons_iff, directoryOk_nil, Entry.name, plainRepository_ok]

theorem projects_collected :
    (∀ entries', Reordered projects entries' → ∀ file,
        file ∈ collected plainMatch "/p".toList false [] entries' ↔
          file ∈ collected plainMatch "/p".toList false [] projects) ∧
      ∀ file, file ∈ collected plainMatch "/p".toList false [] projects ↔
        file ∈ kept plainMatch "/p".toList (inside "/p".toList projects (outerScope false []))
          projects := by
  refine (collected_same_iff plainMatch "/p".toList false [] projects projects_ok (by decide)
    (by decide)).mpr (orderFree_outside_iff.mpr fun name sub hsub => ?_)
  simp only [projects, List.mem_cons, Entry.dir.injEq, List.not_mem_nil, or_false,
    reduceCtorEq] at hsub
  rcases hsub with ⟨rfl, rfl⟩ | ⟨rfl, rfl⟩
  · exact orderFree_of_not_resets plainRepository_ok (by decide)
  · exact orderFree_of_not_resets plainRepository_ok (by decide)

/-- A repository whose first entry is another one. -/
def nestedRepository : List Entry :=
  [.dir "sub".toList [.dir ".git".toList []], .dir ".git".toList [.file "HEAD".toList 1 []]]

theorem nestedRepository_collected :
    DirectoryOk nestedRepository ∧ fileTotal nestedRepository ≤ MAX_FILES ∧
      rootPatterns.length + (ownPatterns "/r".toList nestedRepository).length +
        patternTotal "/r".toList nestedRepository ≤ MAX_IGNORE ∧
      ¬∀ entries', Reordered nestedRepository entries' → ∀ file,
        file ∈ collected plainMatch "/r".toList true rootPatterns entries' ↔
          file ∈ collected plainMatch "/r".toList true rootPatterns nestedRepository := by
  refine ⟨?_, by decide, by decide, fun hsame => ?_⟩
  · simp [nestedRepository, directoryOk_cons_iff, directoryOk_nil, Entry.name]
  · have hhead := hsame nestedRepository.reverse
      (Reordered.of_perm (List.reverse_perm nestedRepository).symm) ⟨"/r/.git/HEAD".toList, 1⟩
    revert hhead
    decide

end

end LastChanged

end AutomateLinux
