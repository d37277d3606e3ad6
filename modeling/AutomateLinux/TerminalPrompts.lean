import AutomateLinux.TerminalPointers

/-!
# What the prompt reports

The shell's prompt hook sends `updateDirHistory` after every command.  After a
navigation it reports the directory it was just sent to, which is already the
row at the pointer.  A report that is rejected comes after the terminal has been
registered and, for the root, after the last-touched index has been written.
-/

namespace AutomateLinux

open TerminalTable SettingsTable

namespace Terminal

/-! ## After a navigation -/

/-- A navigation of the tty that answers `cd dir`. -/
structure Announces (env : Surroundings) (verb : Verb) (command : Json) (tty : Int)
    (s : TerminalState) (dir : String) : Prop where
  navigates : verb = .cdForward ∨ verb = .cdBackward
  argument : ttyArgument command = .ok (.inr tty)
  answer : ∃ result, (handle env verb command s).1 = .ok result ∧
    result.message = "cd " ++ dir ++ mustEndWithNewLine

/-- An `updateDirHistory` command of the tty for a directory in one of some forms. -/
def Reports (tty : Int) (form : String → Prop) (command : Json) : Prop :=
  ttyArgument command = .ok (.inr tty) ∧ ∃ pwd, getPWD command = .ok pwd ∧ form pwd

/-- The directory with or without its trailing slash. -/
def SlashOptional (dir pwd : String) : Prop := pwd = dir ∨ pwd ++ "/" = dir

/-- Without the slash the directory may not end in another one, which would count
as the missing slash. -/
def SingleSlashOptional (dir pwd : String) : Prop :=
  pwd = dir ∨ pwd ++ "/" = dir ∧ (pwd.toList.getLast? = some '/' → pwd = "/")

/-- A prompt, with the filesystem it meets; freed memory reads as it did before. -/
def promptStep (env : Surroundings) (s : TerminalState)
    (prompt : Json × (String → Except Exn Bool)) : TerminalState :=
  (handle { env with is_directory := prompt.2 } .updateDirHistory prompt.1 s).2

/-- The history table and the pointers are the same. -/
def SameHistory (db db' : Database) : Prop :=
  db'.terminal_history = db.terminal_history ∧
    db'.terminal_sessions = db.terminal_sessions

section

variable {env : Surroundings} {tty : Int} {command : Json} {s : TerminalState}
  {db : Database} {dir : String}

theorem SameHistory.refl (db : Database) : SameHistory db db := ⟨rfl, rfl⟩

theorem SameHistory.trans {db' db'' : Database} (h : SameHistory db db')
    (h' : SameHistory db' db'') : SameHistory db db'' :=
  ⟨h'.1.trans h.1, h'.2.trans h.2⟩

theorem SameHistory.getIndex {db' : Database} (h : SameHistory db db') (tty : Int) :
    getIndex db' tty = getIndex db tty := by
  unfold Terminal.getIndex getSessionPointer
  rw [h.2]

theorem SameHistory.getHistory {db' : Database} (h : SameHistory db db') (i : Int) :
    getHistory db' i = getHistory db i := by
  unfold TerminalTable.getHistory
  rw [h.1]

/-- The row at the tty's pointer is that of the directory, which is not the root. -/
structure AtDirectory (db : Database) (tty : Int) (dir : String) : Prop where
  row : standardizePath (getHistory db (getIndex db tty)) = dir
  ne_root : dir ≠ "/"

theorem AtDirectory.congr {db' : Database} (hat : AtDirectory db tty dir)
    (hsame : SameHistory db db') : AtDirectory db' tty dir where
  row := by rw [hsame.getIndex, hsame.getHistory, hat.row]
  ne_root := hat.ne_root

theorem standardizePath_of_singleSlashOptional {pwd : String} (hroot : dir ≠ "/")
    (hdir : standardizePath dir = dir) (hpwd : SingleSlashOptional dir pwd) :
    standardizePath pwd = dir ∨ standardizePath pwd = "/" := by
  rcases hpwd with rfl | ⟨hslash, hsingle⟩
  · exact Or.inl hdir
  · have hne : pwd ≠ "" := by
      rintro rfl
      exact hroot (hslash.symm.trans (by decide))
    by_cases hlast : pwd.toList.getLast? = some '/'
    · rw [hsingle hlast]
      exact Or.inr (by decide)
    · left
      rw [standardizePath, if_neg hne, if_neg hlast, hslash]

/-- Reporting the directory at the pointer writes the last-touched index only. -/
theorem _updateDirHistory_sameHistory (hat : AtDirectory db tty dir)
    (hreports : Reports tty (SingleSlashOptional dir) command) :
    SameHistory db (_updateDirHistory tty command db).2 := by
  obtain ⟨-, pwd, hpwd, hform⟩ := hreports
  have hfixed : standardizePath dir = dir := by
    rw [← hat.row]
    exact standardizePath_fixed _
  have hupdated := _updateDirHistory_updated tty command db
  unfold _updateDirHistory at hupdated ⊢
  simp only [hpwd]
  rcases standardizePath_of_singleSlashOptional hat.ne_root hfixed hform with hstays | hroot
  · rw [hstays, if_neg (not_or.mpr ⟨?_, hat.ne_root⟩), if_pos hat.row]
    · exact ⟨rfl, rfl⟩
    · rw [← hstays]
      exact standardizePath_ne_empty pwd
  · rw [if_pos (Or.inr hroot)]
    exact ⟨rfl, rfl⟩

/-! ### The terminal of the tty is there -/

theorem ensureInstance_found (hok : (ensureInstance env tty s).1 = .ok ()) :
    getInstanceByTTY env (ensureInstance env tty s).2 tty ≠ none := by
  unfold ensureInstance at hok ⊢
  cases hfound : getInstanceByTTY env s tty with
  | some position => simp [hfound]
  | none =>
      rw [hfound] at hok
      have hinstances : (construct env tty s).2.instances = s.instances ++ [some tty] := by
        unfold construct at hok ⊢
        dsimp only at hok ⊢
        split at hok
        · contradiction
        · rfl
        · rfl
      simp only [getInstanceByTTY, hinstances, List.zipIdx_append, List.findIdx?_append]
      simp

theorem ensureInstance_of_found (hfound : getInstanceByTTY env s tty ≠ none) :
    ensureInstance env tty s = (.ok (), s) := by
  unfold ensureInstance
  cases hposition : getInstanceByTTY env s tty with
  | none => exact absurd hposition hfound
  | some position => rfl

theorem withInstance_of_found {method : Int → Database → Except Exn CmdResult × Database}
    (htty : ttyArgument command = .ok (.inr tty))
    (hfound : getInstanceByTTY env s tty ≠ none) :
    withInstance env command method s =
      ((method tty s.db).1, { s with db := (method tty s.db).2 }) := by
  simp only [withInstance, htty, ensureInstance_of_found hfound]

/-! ### The navigation -/

theorem cdAnswer_atDirectory {atEnd : String} (hend : ∃ rest, atEnd = "echo" ++ rest)
    {found : Except Exn (Option (Int × String))}
    (hfound : ∀ i shown, found = .ok (some (i, shown)) →
      0 ≤ i ∧ shown = standardizePath (getHistory db i) ∧ shown ≠ "/")
    {result : CmdResult} (hanswer : (cdAnswer db tty atEnd found).1 = .ok result)
    (hmessage : result.message = "cd " ++ dir ++ mustEndWithNewLine) :
    AtDirectory (cdAnswer db tty atEnd found).2 tty dir := by
  rcases found with e | (_ | ⟨i, shown⟩)
  · simp [cdAnswer] at hanswer
  · simp only [cdAnswer, Except.ok.injEq] at hanswer
    obtain ⟨rest, rfl⟩ := hend
    rw [← hanswer, String.append_assoc, String.append_assoc] at hmessage
    exact absurd hmessage (cd_append_ne _ _)
  · obtain ⟨hnonneg, hshown, hroot⟩ := hfound i shown rfl
    simp only [cdAnswer, Except.ok.injEq] at hanswer ⊢
    have hdir : shown = dir := by
      rw [← hanswer] at hmessage
      have hlist := congrArg String.toList (append_newLine_inj hmessage)
      simp only [String.toList_append] at hlist
      exact String.toList_inj.mp (List.append_cancel_left hlist)
    subst hdir
    refine ⟨?_, hroot⟩
    rw [getIndex_setSessionPointer hnonneg]
    exact hshown.symm

theorem _cdForward_atDirectory {result : CmdResult}
    (hanswer : (_cdForward env tty db).1 = .ok result)
    (hmessage : result.message = "cd " ++ dir ++ mustEndWithNewLine) :
    AtDirectory (_cdForward env tty db).2 tty dir := by
  refine cdAnswer_atDirectory ⟨" \nEND OF HISTORY reached\n", rfl⟩
    (fun i shown hwalk => ?_) hanswer hmessage
  obtain ⟨hle, -, hshown, husable⟩ := walkForward_eq_some hwalk
  have hnonneg := getIndex_nonneg db tty
  exact ⟨by omega, hshown, (isUsable_eq_true_iff.mp husable).2.1⟩

theorem _cdBackward_atDirectory {result : CmdResult}
    (hanswer : (_cdBackward env tty db).1 = .ok result)
    (hmessage : result.message = "cd " ++ dir ++ mustEndWithNewLine) :
    AtDirectory (_cdBackward env tty db).2 tty dir := by
  refine cdAnswer_atDirectory ⟨" \nBEGINNING OF HISTORY reached\n", rfl⟩
    (fun i shown hwalk => ?_) hanswer hmessage
  obtain ⟨hnonneg, -, hshown, husable⟩ := walkBackward_eq_some hwalk
  exact ⟨hnonneg, hshown, (isUsable_eq_true_iff.mp husable).2.1⟩

theorem withInstance_atDirectory {method : Int → Database → Except Exn CmdResult × Database}
    (hmethod : ∀ db result, (method tty db).1 = .ok result →
      result.message = "cd " ++ dir ++ mustEndWithNewLine → AtDirectory (method tty db).2 tty dir)
    (htty : ttyArgument command = .ok (.inr tty)) {result : CmdResult}
    (hanswer : (withInstance env command method s).1 = .ok result)
    (hmessage : result.message = "cd " ++ dir ++ mustEndWithNewLine) :
    AtDirectory (withInstance env command method s).2.db tty dir ∧
      getInstanceByTTY env (withInstance env command method s).2 tty ≠ none := by
  simp only [withInstance, htty] at hanswer ⊢
  have hensured := @ensureInstance_found env tty s
  generalize ensureInstance env tty s = ensured at hanswer hensured ⊢
  obtain ⟨made | ⟨⟨⟩⟩, s₁⟩ := ensured
  · contradiction
  · exact ⟨hmethod s₁.db result hanswer hmessage, hensured rfl⟩

theorem Announces.atDirectory {verb : Verb} (hannounces : Announces env verb command tty s dir) :
    AtDirectory (handle env verb command s).2.db tty dir ∧
      getInstanceByTTY env (handle env verb command s).2 tty ≠ none := by
  obtain ⟨hverb, htty, result, hanswer, hmessage⟩ := hannounces
  rcases hverb with rfl | rfl
  · exact withInstance_atDirectory (fun _ _ => _cdForward_atDirectory) htty hanswer hmessage
  · exact withInstance_atDirectory (fun _ _ => _cdBackward_atDirectory) htty hanswer hmessage

/-! ### The prompts -/

theorem promptStep_sameHistory {prompt : Json × (String → Except Exn Bool)}
    (hat : AtDirectory s.db tty dir) (hfound : getInstanceByTTY env s tty ≠ none)
    (hreports : Reports tty (SingleSlashOptional dir) prompt.1) :
    SameHistory s.db (promptStep env s prompt).db ∧
      (promptStep env s prompt).instances = s.instances := by
  have hfound' : getInstanceByTTY { env with is_directory := prompt.2 } s tty ≠ none := hfound
  have hstep : promptStep env s prompt =
      { s with db := (_updateDirHistory tty prompt.1 s.db).2 } := by
    show (withInstance _ prompt.1
      (fun tty db => _updateDirHistory tty prompt.1 db) s).2 = _
    rw [withInstance_of_found hreports.1 hfound']
  rw [hstep]
  exact ⟨_updateDirHistory_sameHistory hat hreports, rfl⟩

theorem promptSteps_sameHistory {prompts : List (Json × (String → Except Exn Bool))}
    (hat : AtDirectory s.db tty dir) (hfound : getInstanceByTTY env s tty ≠ none)
    (hreports : ∀ prompt ∈ prompts, Reports tty (SingleSlashOptional dir) prompt.1) :
    SameHistory s.db (prompts.foldl (promptStep env) s).db := by
  induction prompts generalizing s with
  | nil => exact .refl _
  | cons prompt rest ih =>
      obtain ⟨hsame, hinstances⟩ :=
        promptStep_sameHistory hat hfound (hreports prompt List.mem_cons_self)
      have hfound' : getInstanceByTTY env (promptStep env s prompt) tty ≠ none := by
        unfold getInstanceByTTY at hfound ⊢
        rwa [hinstances]
      exact hsame.trans (ih (hat.congr hsame) hfound' fun prompt' hmem =>
        hreports prompt' (List.mem_cons_of_mem prompt hmem))

end

/-- After a navigation that answers `cd dir` any number of prompts that report the
directory, with its slash or without it, leave the history and every pointer. -/
theorem prompts_after_navigation (env : Surroundings) (verb : Verb) (command : Json)
    (tty : Int) (s : TerminalState) (dir : String)
    (hannounces : Announces env verb command tty s dir)
    (prompts : List (Json × (String → Except Exn Bool)))
    (hreports : ∀ prompt ∈ prompts, Reports tty (SingleSlashOptional dir) prompt.1) :
    SameHistory (handle env verb command s).2.db
      (prompts.foldl (promptStep env) (handle env verb command s).2).db := by
  obtain ⟨hat, hfound⟩ := hannounces.atDirectory
  exact promptSteps_sameHistory hat hfound hreports

/-- A path is reported and the terminal goes back. -/
def wentBack (pwd : String) : TerminalState :=
  run TerminalState.initial
    [.command .openedTty (ttyCommand 1) (surroundingsWith [defaultDir]),
      .command .updateDirHistory (pwdCommand 1 pwd) (surroundingsWith [defaultDir]),
      .command .cdBackward (ttyCommand 1) (surroundingsWith [defaultDir])]

theorem prompts_after_goingForward :
    SameHistory
      (handle (surroundingsWith ["/a/"]) .cdForward (ttyCommand 1) (wentBack "/a")).2.db
      ([pwdCommand 1 "/a", pwdCommand 1 "/a/"].map (fun command =>
          (command, (surroundingsWith ["/a/"]).is_directory)) |>.foldl
        (promptStep (surroundingsWith ["/a/"]))
        (handle (surroundingsWith ["/a/"]) .cdForward (ttyCommand 1) (wentBack "/a")).2).db := by
  refine prompts_after_navigation (surroundingsWith ["/a/"]) .cdForward (ttyCommand 1) 1
    (wentBack "/a") "/a/" ⟨Or.inl rfl, by rfl, ⟨0, "cd /a/\n"⟩, by rfl, by decide⟩ _ ?_
  intro prompt hmem
  simp only [List.map_cons, List.map_nil, List.mem_cons, List.not_mem_nil, or_false] at hmem
  rcases hmem with rfl | rfl
  · exact ⟨by rfl, "/a", by rfl, Or.inr ⟨by decide, by decide⟩⟩
  · exact ⟨by rfl, "/a/", by rfl, Or.inl rfl⟩

/-- A second slash at the end counts as the one that may be left out. -/
theorem doubledSlash_not_sameHistory :
    ¬ ∀ (env : Surroundings) (verb : Verb) (command : Json) (tty : Int) (s : TerminalState)
        (dir : String), HistoryWellFormed s.db → Announces env verb command tty s dir →
      ∀ prompts : List (Json × (String → Except Exn Bool)),
        (∀ prompt ∈ prompts, Reports tty (SlashOptional dir) prompt.1) →
        SameHistory (handle env verb command s).2.db
          (prompts.foldl (promptStep env) (handle env verb command s).2).db := by
  intro hall
  obtain ⟨n, hcons⟩ : ∃ n, Consistent (wentBack "/a//") n := Consistent.initial.run _
  have hsame := hall (surroundingsWith ["/a//"]) .cdForward (ttyCommand 1) 1 (wentBack "/a//")
    "/a//" hcons.wellFormed ⟨Or.inl rfl, by rfl, ⟨0, "cd /a//\n"⟩, by rfl, by decide⟩
    [(pwdCommand 1 "/a/", fun _ => .ok true)] (by
      intro prompt hmem
      obtain rfl := List.mem_singleton.mp hmem
      exact ⟨by rfl, "/a/", by rfl, Or.inr (by decide)⟩)
  have hsize := congrArg OrderedMap.size hsame.1
  revert hsize
  decide +kernel

/-! ## Rejected reports -/

def Rejected (answer : Except Exn CmdResult) : Prop :=
  ∀ result, answer = .ok result → result.status ≠ 0

/-- What a rejected report does to the tables: it registers the terminal if that
is not done yet, and no more. -/
structure OnlyRegisters (env : Surroundings) (command : Json) (s s' : TerminalState) :
    Prop where
  unread : (∀ tty, ttyArgument command ≠ .ok (.inr tty)) → s' = s
  known : ∀ tty, ttyArgument command = .ok (.inr tty) → getInstanceByTTY env s tty ≠ none →
    SameHistory s.db s'.db
  created : ∀ tty, ttyArgument command = .ok (.inr tty) → getInstanceByTTY env s tty = none →
    SameHistory (construct env tty s).2.db s'.db
  others : ∀ tty, ttyArgument command = .ok (.inr tty) → ∀ tty', tty' ≠ tty →
    s'.db.terminal_sessions tty' = s.db.terminal_sessions tty'
  settings : (∀ text, getPWD command = .ok text → standardizePath text ≠ "/") →
    s'.db.system_settings = s.db.system_settings

section

variable {env : Surroundings} {tty : Int} {command : Json} {s : TerminalState}
  {db : Database}

theorem startingPoint_frame (db : Database) :
    (startingPoint db).2.terminal_sessions = db.terminal_sessions ∧
      (startingPoint db).2.system_settings = db.system_settings := by
  unfold startingPoint
  dsimp only
  split_ifs <;> exact ⟨rfl, rfl⟩

/-- Making a terminal writes no setting and no other terminal's pointer. -/
theorem construct_frame (env : Surroundings) (tty : Int) (s : TerminalState) :
    (∀ tty', tty' ≠ tty →
        (construct env tty s).2.db.terminal_sessions tty' = s.db.terminal_sessions tty') ∧
      (construct env tty s).2.db.system_settings = s.db.system_settings := by
  obtain ⟨hsessions, hsettings⟩ := startingPoint_frame s.db
  unfold construct
  generalize startingPoint s.db = start at hsessions hsettings ⊢
  dsimp only
  split
  · exact ⟨fun tty' _ => congrFun hsessions tty', hsettings⟩
  · refine ⟨fun tty' hne => ?_, hsettings⟩
    exact (Function.update_of_ne hne _ _).trans (congrFun hsessions tty')
  · refine ⟨fun tty' hne => ?_, hsettings⟩
    exact (Function.update_of_ne hne _ _).trans (congrFun hsessions tty')

theorem ensureInstance_frame (env : Surroundings) (tty : Int) (s : TerminalState) :
    (∀ tty', tty' ≠ tty →
        (ensureInstance env tty s).2.db.terminal_sessions tty' =
          s.db.terminal_sessions tty') ∧
      (ensureInstance env tty s).2.db.system_settings = s.db.system_settings := by
  unfold ensureInstance
  split
  · exact ⟨fun _ _ => rfl, rfl⟩
  · exact construct_frame env tty s

/-- A rejected report stops before it looks at the history. -/
theorem _updateDirHistory_rejected
    (hrejected : Rejected (_updateDirHistory tty command db).1) :
    SameHistory db (_updateDirHistory tty command db).2 ∧
      ((∀ text, getPWD command = .ok text → standardizePath text ≠ "/") →
        (_updateDirHistory tty command db).2 = db) := by
  have hupdated := _updateDirHistory_updated tty command db
  generalize hafter : _updateDirHistory tty command db = after at hrejected hupdated ⊢
  obtain ⟨answer, db'⟩ := after
  dsimp only at hrejected hupdated ⊢
  cases hupdated with
  | refused hresult hroot hrows hsessions =>
      refine ⟨⟨hrows, hsessions⟩, fun hne => ?_⟩
      cases hpwd : getPWD command with
      | ok text => exact absurd (hroot text hpwd) (hne text hpwd)
      | error e =>
          simp only [_updateDirHistory, hpwd, Prod.mk.injEq] at hafter
          exact hafter.2.symm
  | stays => exact absurd rfl (hrejected _ rfl)
  | movesOn => exact absurd rfl (hrejected _ rfl)
  | appends => exact absurd rfl (hrejected _ rfl)

theorem withInstance_rejected (htty : ttyArgument command = .ok (.inr tty))
    (hrejected : Rejected (withInstance env command
      (fun tty db => _updateDirHistory tty command db) s).1) :
    SameHistory (ensureInstance env tty s).2.db
        (withInstance env command (fun tty db => _updateDirHistory tty command db) s).2.db ∧
      ((∀ text, getPWD command = .ok text → standardizePath text ≠ "/") →
        (withInstance env command
            (fun tty db => _updateDirHistory tty command db) s).2.db.system_settings =
          (ensureInstance env tty s).2.db.system_settings) := by
  simp only [withInstance, htty] at hrejected ⊢
  generalize ensureInstance env tty s = ensured at hrejected ⊢
  obtain ⟨e | ⟨⟨⟩⟩, s₁⟩ := ensured
  · exact ⟨.refl _, fun _ => rfl⟩
  · obtain ⟨hsame, hsettings⟩ := _updateDirHistory_rejected hrejected
    exact ⟨hsame, fun hne => congrArg Database.system_settings (hsettings hne)⟩

end

/-- Whatever the store: an `updateDirHistory` that ends with a non-zero status or
an exception leaves the tables as registering the terminal leaves them. -/
theorem rejectedUpdate_onlyRegisters (env : Surroundings) (command : Json)
    (s : TerminalState)
    (hrejected : Rejected (handle env .updateDirHistory command s).1) :
    OnlyRegisters env command s (handle env .updateDirHistory command s).2 := by
  simp only [handle, updateDirHistory] at hrejected ⊢
  by_cases hread : ∃ tty, ttyArgument command = .ok (.inr tty)
  · obtain ⟨tty, htty⟩ := hread
    obtain ⟨hsame, hsettings⟩ := withInstance_rejected htty hrejected
    obtain ⟨hothers, hregistered⟩ := ensureInstance_frame env tty s
    have htty_eq : ∀ tty', ttyArgument command = .ok (.inr tty') → tty' = tty := by
      intro tty' htty'
      simpa [htty] using htty'.symm
    refine ⟨fun hnone => absurd htty (hnone tty), ?_, ?_, ?_, ?_⟩
    · rintro tty' htty' hfound
      obtain rfl := htty_eq tty' htty'
      rwa [ensureInstance_of_found hfound] at hsame
    · rintro tty' htty' hnone
      obtain rfl := htty_eq tty' htty'
      rwa [ensureInstance, hnone] at hsame
    · rintro tty' htty' other hne
      obtain rfl := htty_eq tty' htty'
      exact (congrFun hsame.2 other).trans (hothers other hne)
    · exact fun hne => (hsettings hne).trans hregistered
  · have hsame : (withInstance env command
        (fun tty db => _updateDirHistory tty command db) s).2 = s := by
      unfold withInstance
      split
      · rfl
      · rfl
      · exact absurd ⟨_, ‹_›⟩ hread
    rw [hsame]
    refine ⟨fun _ => rfl, ?_, ?_, ?_, fun _ => rfl⟩
    all_goals exact fun tty htty => absurd ⟨tty, htty⟩ hread

/-- The root is rejected on a terminal that is known. -/
theorem rootReported_onlyRegisters :
    OnlyRegisters (surroundingsWith []) (pwdCommand 1 "/") (wentBack "/a")
      (handle (surroundingsWith []) .updateDirHistory (pwdCommand 1 "/") (wentBack "/a")).2 := by
  refine rejectedUpdate_onlyRegisters (surroundingsWith []) (pwdCommand 1 "/") (wentBack "/a") ?_
  intro result hanswer
  obtain rfl : ⟨1, "No directory provided to updateDirHistory\n"⟩ = result :=
    Except.ok.inj ((by rfl : (_ : Except Exn CmdResult) = _).trans hanswer)
  decide

theorem rejectedUpdate_registers :
    ¬ ∀ (inputs : List StoreInput) (env : Surroundings) (command : Json),
      let s := storeRun TerminalState.initial inputs
      Rejected (handle env .updateDirHistory command s).1 →
        SameHistory s.db (handle env .updateDirHistory command s).2.db ∧
          (handle env .updateDirHistory command s).2.db.system_settings
              INDEX_OF_LAST_TOUCHED_DIR_KEY =
            s.db.system_settings INDEX_OF_LAST_TOUCHED_DIR_KEY := by
  intro hall
  have hsame := hall [] (surroundingsWith [defaultDir]) (pwdCommand 1 "/") (by
    intro result hanswer
    obtain rfl : ⟨1, "No directory provided to updateDirHistory\n"⟩ = result :=
      Except.ok.inj ((by rfl : (_ : Except Exn CmdResult) = _).trans hanswer)
    decide)
  have hpointer := congrFun hsame.1.2 1
  revert hpointer
  decide +kernel

end Terminal

end AutomateLinux
