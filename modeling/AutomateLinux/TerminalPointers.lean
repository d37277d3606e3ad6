import AutomateLinux.TerminalIsolation

/-!
# The pointer of a terminal and the directory it was shown

A command that answers with a directory, or that records the one the shell is
in, should leave the terminal's pointer on the row of that directory: the next
navigation starts there.  Two branches miss it.  When `_openedTty` gives up its
search it shows the default directory and moves the pointer to the first row,
without writing the default there.  And `_updateDirHistory` takes a missing
pointer for the first row, without storing it.
-/

namespace AutomateLinux

open TerminalTable SettingsTable

namespace Terminal

/-- The directory a successful command returns or records. -/
def Shows (verb : Verb) (command : Json) (result : CmdResult) (dir : String) : Prop :=
  result.status = 0 ∧
    match verb with
    | .openedTty => result.message = dir ++ mustEndWithNewLine
    | .closedTty => False
    | .updateDirHistory => getPWD command = .ok dir
    | .cdForward => result.message = "cd " ++ dir ++ mustEndWithNewLine
    | .cdBackward => result.message = "cd " ++ dir ++ mustEndWithNewLine

/-- The row at the stored pointer is that of the directory. -/
def Agrees (db : Database) (tty : Int) (dir : String) : Prop :=
  ∃ p, db.terminal_sessions tty = some p ∧
    db.terminal_history.get? p = some (standardizePath dir)

/-- No row up to the pointer is usable, and the first is not the default. -/
def GivesUp (env : Surroundings) (db : Database) (p : Int) : Prop :=
  p ∈ db.terminal_history.keys ∧ NoneUsable env db p ∧
    db.terminal_history.get? 0 ≠ some defaultDir

section

variable {env : Surroundings} {tty : Int} {db db' : Database}

theorem append_newLine_inj {dir dir' : String}
    (heq : dir ++ mustEndWithNewLine = dir' ++ mustEndWithNewLine) : dir = dir' := by
  have hlist := congrArg String.toList heq
  simp only [String.toList_append] at hlist
  exact String.toList_inj.mp (List.append_cancel_right hlist)

theorem agrees_setSessionPointer (hrec : Recorded db) {i : Int} {dir : String}
    (hdir : standardizePath (getHistory db i) = standardizePath dir)
    (hroot : standardizePath dir ≠ "/") : Agrees (setSessionPointer db tty i) tty dir := by
  refine ⟨i, Function.update_self _ _ _, ?_⟩
  rw [← hdir] at hroot ⊢
  exact hrec.standardizePath_getHistory hroot

/-- A missing row reads as the root, which a recorded path is not. -/
theorem not_mem_keys_of_root (hrec : Recorded db) {i : Int}
    (hroot : standardizePath (getHistory db i) = "/") : i ∉ db.terminal_history.keys := by
  intro hmem
  obtain ⟨path, hget⟩ := OrderedMap.mem_keys_iff.mp hmem
  rw [getHistory, hget, Option.getD_some, (hrec.path i path hget).fixed] at hroot
  exact (hrec.path i path hget).ne_root hroot

theorem NoneUsable.ne_true {top i : Int} (hnone : NoneUsable env db top)
    (hnonneg : 0 ≤ i) (hle : i ≤ top) : isUsable env (getHistory db i) ≠ .ok true := by
  rw [hnone i hnonneg hle]
  simp

theorem Opened.agrees_iff {p : Int} {result : CmdResult} {dir : String}
    (hopened : Opened env tty db p result db') (hrec : Recorded db)
    (hpointer : db.terminal_sessions tty = some p) (hstatus : result.status = 0)
    (hmessage : result.message = dir ++ mustEndWithNewLine) :
    Agrees db' tty dir ↔ ¬ GivesUp env db p := by
  have hnonneg := hrec.session tty p hpointer
  cases hopened with
  | failed e => exact absurd hstatus (by simp [openedTtyError])
  | stays hdir hroot =>
      obtain rfl := append_newLine_inj hmessage
      have hrow := hrec.standardizePath_getHistory hroot
      have husable : isUsable env (getHistory db p) = .ok true := by
        rw [← isUsable_standardizePath hrec, isUsable_eq_true_iff]
        exact ⟨standardizePath_ne_empty _, hroot, hdir⟩
      constructor
      · rintro - ⟨-, hnone, -⟩
        exact hnone.ne_true hnonneg le_rfl husable
      · intro _
        exact ⟨p, hpointer, by rw [standardizePath_fixed, hrow]⟩
  | movesBack i hi hle husable hroot =>
      obtain rfl := append_newLine_inj hmessage
      constructor
      · rintro - ⟨-, hnone, -⟩
        exact hnone.ne_true hi hle husable
      · intro _
        rw [← standardizePath_fixed] at hroot
        exact agrees_setSessionPointer hrec (standardizePath_fixed _).symm hroot
  | gaveUp hroot hnone =>
      obtain rfl := append_newLine_inj hmessage
      have hmem : p ∈ db.terminal_history.keys :=
        OrderedMap.mem_keys_iff.mpr ⟨_, hrec.standardizePath_getHistory hroot⟩
      constructor
      · rintro ⟨q, hq, hrow⟩ ⟨-, -, hfirst⟩
        obtain rfl : (0 : Int) = q := by simpa [setSessionPointer] using hq
        exact hfirst (by rw [← isStandard_defaultDir.fixed]; exact hrow)
      · intro hnot
        have hfirst : db.terminal_history.get? 0 = some defaultDir := by
          by_contra hne
          exact hnot ⟨hmem, hnone, hne⟩
        refine ⟨0, Function.update_self _ _ _, ?_⟩
        rw [isStandard_defaultDir.fixed]
        exact hfirst
  | repaired hroot =>
      obtain rfl := append_newLine_inj hmessage
      constructor
      · rintro - ⟨hmem, -, -⟩
        exact not_mem_keys_of_root hrec hroot hmem
      · intro _
        refine ⟨p, hpointer, ?_⟩
        rw [isStandard_defaultDir.fixed]
        exact (OrderedMap.get?_insert _ _ _ _).trans (if_pos rfl)

/-- A pointer that is made is made with the row it points at. -/
theorem openedTtyPointer_cases (hrec : Recorded db) (tty : Int) :
    (db.terminal_sessions tty = some (openedTtyPointer db tty).1 ∧
        (openedTtyPointer db tty).2 = db) ∨
      (db.terminal_sessions tty = none ∧
        (openedTtyPointer db tty).2.terminal_sessions tty =
          some (openedTtyPointer db tty).1 ∧
        (openedTtyPointer db tty).2.terminal_history.get? 0 = some defaultDir) := by
  unfold openedTtyPointer getSessionPointer
  cases hp : db.terminal_sessions tty with
  | none =>
      refine Or.inr ⟨rfl, Function.update_self _ _ _, ?_⟩
      exact (OrderedMap.get?_insert _ _ _ _).trans (if_pos rfl)
  | some p =>
      have hnonneg := hrec.session tty p hp
      simp only [Option.getD_some]
      rw [if_neg (by omega)]
      exact Or.inl ⟨rfl, rfl⟩

theorem _openedTty_agrees_iff (hrec : Recorded db) {result : CmdResult} {dir : String}
    (hopened : _openedTty env tty db = (result, db')) (hstatus : result.status = 0)
    (hmessage : result.message = dir ++ mustEndWithNewLine) :
    Agrees db' tty dir ↔
      ∀ p, db.terminal_sessions tty = some p → ¬ GivesUp env db p := by
  obtain ⟨hpointer, -⟩ := openedTtyPointer_recorded hrec tty
  have hends := _openedTty_opened hrec env tty
  rw [hopened] at hends
  rcases openedTtyPointer_cases hrec tty with ⟨hp, hsame⟩ | ⟨hp, hmade, hfirst⟩
  · rw [hsame] at hends
    rw [hends.agrees_iff hrec hp hstatus hmessage, hp]
    simp
  · rw [hends.agrees_iff hpointer hmade hstatus hmessage, hp]
    simp [GivesUp, hfirst]

end

/-! ## After the creation of the terminal -/

/-- The default written over the newest row is not usable, nor is any row below
it, and the first row is another one. -/
def CreationGivesUp (env : Surroundings) (db : Database) : Prop :=
  NoneUsable env db (startingPoint db).1 ∧ NoneUsable env db (getMaxHistoryIndex db - 1) ∧
    isUsable env defaultDir = .ok false ∧ 0 < getMaxHistoryIndex db ∧
    db.terminal_history.get? 0 ≠ some defaultDir

section

variable {env : Surroundings} {tty : Int} {db db' : Database}

theorem getHistory_upsertHistory (db : Database) (i j : Int) (path : String) :
    getHistory (upsertHistory db i path) j = if j = i then path else getHistory db j := by
  unfold getHistory upsertHistory
  rw [OrderedMap.get?_insert]
  split <;> rfl

theorem maxIndex_of_keys (hkeys : db.terminal_history.keys = []) :
    getMaxHistoryIndex db = -1 := by
  rw [getMaxHistoryIndex, OrderedMap.maxKey?_eq_none_iff.mpr hkeys]
  rfl

theorem noneUsable_upsertHistory_iff {m : Int} (hnonneg : 0 ≤ m) {path : String} :
    NoneUsable env (upsertHistory db m path) m ↔
      NoneUsable env db (m - 1) ∧ isUsable env path = .ok false := by
  unfold NoneUsable
  simp only [getHistory_upsertHistory]
  constructor
  · intro hnone
    refine ⟨fun i hi hle => ?_, ?_⟩
    · have hrow := hnone i hi (by omega)
      rwa [if_neg (by omega)] at hrow
    · have hrow := hnone m hnonneg le_rfl
      rwa [if_pos rfl] at hrow
  · rintro ⟨hnone, hpath⟩ i hi hle
    split
    · exact hpath
    · exact hnone i hi (by omega)

theorem Created.givesUp_iff (hcreated : Created env tty db (.ok ()) db')
    (hrec : Recorded db) :
    (∀ p, db'.terminal_sessions tty = some p → ¬ GivesUp env db' p) ↔
      ¬ CreationGivesUp env db := by
  have hpointed : ∀ {db : Database} {i : Int},
      (∀ p, (setSessionPointer db tty i).terminal_sessions tty = some p →
        ¬ GivesUp env (setSessionPointer db tty i) p) ↔
          ¬ GivesUp env (setSessionPointer db tty i) i := by
    intro db i
    simp [setSessionPointer]
  cases hcreated with
  | found i hnonneg hle husable =>
      rw [hpointed]
      constructor
      · rintro - ⟨hnone, -, -, hmax, -⟩
        rcases startingPoint_cases db hrec with ⟨-, hsame⟩ | ⟨-, hkeys⟩
        · rw [hsame] at husable
          exact hnone.ne_true hnonneg hle husable
        · rw [maxIndex_of_keys hkeys] at hmax
          omega
      · rintro - ⟨-, hnone, -⟩
        exact hnone.ne_true hnonneg le_rfl husable
  | repaired hnone =>
      rw [hpointed, not_iff_not]
      rcases startingPoint_cases db hrec with ⟨-, hsame⟩ | ⟨hstart, hkeys⟩
      · rw [hsame] at hnone ⊢
        by_cases hmax : 0 < getMaxHistoryIndex db
        · rw [max_eq_right hmax.le]
          have hrow : (upsertHistory db (getMaxHistoryIndex db) defaultDir).terminal_history.get?
              0 = db.terminal_history.get? 0 := by
            rw [upsertHistory, OrderedMap.get?_insert, if_neg (by omega)]
          constructor
          · rintro ⟨-, hall, hfirst⟩
            obtain ⟨hbelow, hdefault⟩ := (noneUsable_upsertHistory_iff hmax.le).mp hall
            exact ⟨hnone, hbelow, hdefault, hmax, fun h => hfirst (hrow.trans h)⟩
          · rintro ⟨-, hbelow, hdefault, -, hfirst⟩
            exact ⟨OrderedMap.mem_keys_insert.mpr (Or.inl rfl),
              (noneUsable_upsertHistory_iff hmax.le).mpr ⟨hbelow, hdefault⟩,
              fun h => hfirst (hrow.symm.trans h)⟩
        · rw [max_eq_left (by omega)]
          constructor
          · rintro ⟨-, -, hfirst⟩
            exact absurd ((OrderedMap.get?_insert _ _ _ _).trans (if_pos rfl)) hfirst
          · rintro ⟨-, -, -, hpos, -⟩
            exact absurd hpos hmax
      · -- the first row has just been made, with the default
        rw [hstart]
        constructor
        · rintro ⟨-, -, hfirst⟩
          refine absurd ?_ hfirst
          simp [setSessionPointer, upsertHistory]
        · rintro ⟨-, -, -, hpos, -⟩
          rw [maxIndex_of_keys hkeys] at hpos
          omega

end

/-! ## The other methods -/

section

variable {tty : Int} {command : Json} {db db' : Database}

theorem Agrees.congr {dir : String} {db₁ db₂ : Database}
    (hrows : db₂.terminal_history = db₁.terminal_history)
    (hsessions : db₂.terminal_sessions = db₁.terminal_sessions) :
    Agrees db₂ tty dir ↔ Agrees db₁ tty dir := by
  unfold Agrees
  rw [hrows, hsessions]

theorem appendEntry_agrees (tty : Int) (dir : String) (db : Database) :
    Agrees (appendEntry tty (standardizePath dir) db) tty dir :=
  ⟨getMaxHistoryIndex db + 1, Function.update_self _ _ _,
    (OrderedMap.get?_insert _ _ _ _).trans (if_pos rfl)⟩

/-- A prune moves the newest row and the pointer at it together. -/
theorem prunedBy_agrees {d : Int} {dir : String} (hpruned : PrunedBy db db' d)
    (hrec : Recorded db)
    (hpointer : db.terminal_sessions tty = some (getMaxHistoryIndex db))
    (hagrees : Agrees db tty dir) : Agrees db' tty dir := by
  obtain ⟨p, hp, hrow⟩ := hagrees
  obtain rfl := Option.some.inj (hp.symm.trans hpointer)
  have hnonneg := hrec.session tty _ hpointer
  have hnewest := hpruned.newest
  refine ⟨getMaxHistoryIndex db - d, ?_, ?_⟩
  · rw [hpruned.sessions, hpointer, Option.map_some, max_eq_right (by omega)]
  · rw [hpruned.rows, if_pos (by omega), sub_add_cancel]
    exact hrow

theorem maxIndex_appendEntry (tty : Int) (pwd : String) (db : Database) :
    getMaxHistoryIndex (appendEntry tty pwd db) = getMaxHistoryIndex db + 1 := by
  have hmem : getMaxHistoryIndex db + 1 ∈ (appendEntry tty pwd db).terminal_history.keys :=
    mem_keys_appendEntry.mpr (Or.inl rfl)
  have hle := le_maxIndex hmem
  have hmax : getMaxHistoryIndex (appendEntry tty pwd db) ∈
      (appendEntry tty pwd db).terminal_history.keys := by
    unfold getMaxHistoryIndex at hle ⊢
    cases hkey : (appendEntry tty pwd db).terminal_history.maxKey? with
    | none =>
        rw [OrderedMap.maxKey?_eq_none_iff.mp hkey] at hmem
        exact absurd hmem List.not_mem_nil
    | some k => exact (OrderedMap.maxKey?_eq_some hkey).1
  rcases mem_keys_appendEntry.mp hmax with heq | hold
  · exact heq
  · have hold := le_maxIndex hold
    omega

theorem Updated.agrees_iff {result : CmdResult} {dir : String}
    (hupdated : Updated tty command db (.ok result) db') (hrec : Recorded db)
    (hstatus : result.status = 0) (hdir : getPWD command = .ok dir) :
    Agrees db' tty dir ↔
      (db.terminal_sessions tty = none →
        standardizePath (getHistory db 0) ≠ standardizePath dir) := by
  have hindex : db.terminal_sessions tty = none → getIndex db tty = 0 := by
    intro hnone
    rw [getIndex, getSessionPointer, hnone]
    rfl
  cases hupdated with
  | refused hresult hroot hrows hsessions => exact absurd hstatus (hresult result rfl)
  | stays htext hroot hhere hrows hsessions =>
      obtain rfl := Except.ok.inj (htext.symm.trans hdir)
      rw [Agrees.congr hrows hsessions]
      have hrow := hrec.standardizePath_getHistory (hhere ▸ hroot)
      rw [hhere] at hrow
      cases hp : db.terminal_sessions tty with
      | none =>
          rw [hindex hp] at hhere
          simp [Agrees, hp, hhere]
      | some p =>
          have hnonneg := hrec.session tty p hp
          have hat : getIndex db tty = p := by
            rw [getIndex, getSessionPointer, hp, Option.getD_some, if_pos hnonneg]
          rw [hat] at hrow
          simp [Agrees, hp, hrow]
  | movesOn htext hroot hhere hnext hrows hsessions =>
      obtain rfl := Except.ok.inj (htext.symm.trans hdir)
      constructor
      · intro _ hnone
        rwa [hindex hnone] at hhere
      · intro _
        have hsame : db'.terminal_history =
            (setSessionPointer db tty (getIndex db tty + 1)).terminal_history := hrows
        exact (Agrees.congr hsame hsessions).mpr
          (agrees_setSessionPointer hrec hnext hroot)
  | appends htext hroot hhere hnext =>
      obtain rfl := Except.ok.inj (htext.symm.trans hdir)
      have happended := appendEntry_recorded hrec tty (isStandard_standardizePath hroot)
      constructor
      · intro _ hnone
        rwa [hindex hnone] at hhere
      · intro _
        refine prunedBy_agrees (happended.prunedBy_pruneHistory (by decide)) happended ?_
          (appendEntry_agrees tty _ db)
        rw [maxIndex_appendEntry]
        exact Function.update_self _ _ _

theorem cd_append_ne (dir rest : String) : "echo" ++ rest ≠ "cd " ++ dir := by
  intro heq
  have hhead := congrArg (fun text => text.toList.head?) heq
  simp at hhead

theorem cdAnswer_agrees {atEnd : String} (hend : ∃ rest, atEnd = "echo" ++ rest)
    {entry : Int → String} (hentry : ∀ i, entry i = standardizePath (getHistory db i))
    {found : Except Exn (Option (Int × String))}
    (hfound : ∀ i dir, found = .ok (some (i, dir)) → dir = entry i ∧ dir ≠ "/")
    (hrec : Recorded db) {result : CmdResult} {dir : String}
    (hanswer : cdAnswer db tty atEnd found = (.ok result, db'))
    (hmessage : result.message = "cd " ++ dir ++ mustEndWithNewLine) :
    Agrees db' tty dir := by
  rcases found with e | (_ | ⟨i, shown⟩)
  · simp [cdAnswer] at hanswer
  · simp only [cdAnswer, Prod.mk.injEq, Except.ok.injEq] at hanswer
    obtain ⟨rfl, rfl⟩ := hanswer
    obtain ⟨rest, rfl⟩ := hend
    rw [String.append_assoc, String.append_assoc] at hmessage
    exact absurd hmessage (cd_append_ne _ _)
  · simp only [cdAnswer, Prod.mk.injEq, Except.ok.injEq] at hanswer
    obtain ⟨rfl, rfl⟩ := hanswer
    obtain ⟨rfl, hroot⟩ := hfound i shown rfl
    have hdir : entry i = dir := by
      have hlist := congrArg String.toList (append_newLine_inj hmessage)
      simp only [String.toList_append] at hlist
      exact String.toList_inj.mp (List.append_cancel_left hlist)
    rw [hentry i] at hdir hroot
    subst hdir
    rw [← standardizePath_fixed] at hroot
    exact agrees_setSessionPointer hrec (standardizePath_fixed _).symm hroot

end

/-! ## The commands -/

/-- What has to hold before a command for the pointer to agree after it. -/
def PointsAtShown (env : Surroundings) (verb : Verb) (command : Json) (tty : Int)
    (s : TerminalState) : Prop :=
  match verb with
  | .openedTty =>
      (getInstanceByTTY env s tty = none → ¬ CreationGivesUp env s.db) ∧
        (getInstanceByTTY env s tty ≠ none →
          ∀ p, s.db.terminal_sessions tty = some p → ¬ GivesUp env s.db p)
  | .updateDirHistory =>
      getInstanceByTTY env s tty ≠ none → s.db.terminal_sessions tty = none →
        ∀ dir, getPWD command = .ok dir →
          standardizePath (getHistory s.db 0) ≠ standardizePath dir
  | _ => True

section

variable {env : Surroundings} {tty : Int} {command : Json} {s s' : TerminalState}

theorem withInstance_eq_ok {method : Int → Database → Except Exn CmdResult × Database}
    {result : CmdResult} (htty : ttyArgument command = .ok (.inr tty))
    (hanswer : withInstance env command method s = (.ok result, s')) :
    (ensureInstance env tty s).1 = .ok () ∧
      method tty (ensureInstance env tty s).2.db = (.ok result, s'.db) := by
  simp only [withInstance, htty] at hanswer
  split at hanswer
  · simp at hanswer
  · rename_i ensured heq
    simp only [Prod.mk.injEq] at hanswer
    obtain ⟨hresult, rfl⟩ := hanswer
    rw [heq, ← hresult]
    exact ⟨rfl, rfl⟩

theorem Created.exists_pointer {db db' : Database}
    (hcreated : Created env tty db (.ok ()) db') :
    ∃ p, db'.terminal_sessions tty = some p := by
  cases hcreated with
  | found i hnonneg hle husable => exact ⟨i, Function.update_self _ _ _⟩
  | repaired hnone => exact ⟨_, Function.update_self _ _ _⟩

theorem openedTty_agrees_iff (hrec : Recorded s.db)
    (htty : ttyArgument command = .ok (.inr tty)) {result : CmdResult} {dir : String}
    (hanswer : openedTty env command s = (.ok result, s')) (hstatus : result.status = 0)
    (hmessage : result.message = dir ++ mustEndWithNewLine) :
    Agrees s'.db tty dir ↔ PointsAtShown env .openedTty command tty s := by
  rw [openedTty_eq_withInstance] at hanswer
  obtain ⟨hok, hmethod⟩ := withInstance_eq_ok htty hanswer
  have hensured := ensureInstance_recorded hrec env tty
  have hopened : _openedTty env tty (ensureInstance env tty s).2.db = (result, s'.db) := by
    simp only [Prod.mk.injEq, Except.ok.injEq] at hmethod
    exact Prod.ext hmethod.1 hmethod.2
  rw [_openedTty_agrees_iff hensured hopened hstatus hmessage]
  unfold PointsAtShown
  rcases ensureInstance_cases hrec env tty with ⟨hfound, heq⟩ | ⟨hnone, hcreated⟩
  · simp [heq, hfound]
  · rw [hok] at hcreated
    rw [hcreated.givesUp_iff hrec]
    simp [hnone]

theorem updateDirHistory_agrees_iff (hrec : Recorded s.db)
    (htty : ttyArgument command = .ok (.inr tty)) {result : CmdResult} {dir : String}
    (hanswer : updateDirHistory env command s = (.ok result, s'))
    (hstatus : result.status = 0) (hdir : getPWD command = .ok dir) :
    Agrees s'.db tty dir ↔ PointsAtShown env .updateDirHistory command tty s := by
  obtain ⟨hok, hmethod⟩ := withInstance_eq_ok htty hanswer
  have hensured := ensureInstance_recorded hrec env tty
  have hupdated := _updateDirHistory_updated tty command (ensureInstance env tty s).2.db
  rw [hmethod] at hupdated
  rw [hupdated.agrees_iff hensured hstatus hdir]
  unfold PointsAtShown
  rcases ensureInstance_cases hrec env tty with ⟨hfound, heq⟩ | ⟨hnone, hcreated⟩
  · simp [heq, hfound, hdir]
  · rw [hok] at hcreated
    obtain ⟨p, hp⟩ := hcreated.exists_pointer
    simp [hnone, hp]

theorem cdForward_agrees (hrec : Recorded s.db)
    (htty : ttyArgument command = .ok (.inr tty)) {result : CmdResult} {dir : String}
    (hanswer : cdForward env command s = (.ok result, s'))
    (hmessage : result.message = "cd " ++ dir ++ mustEndWithNewLine) :
    Agrees s'.db tty dir := by
  obtain ⟨-, hmethod⟩ := withInstance_eq_ok htty hanswer
  refine cdAnswer_agrees ⟨" \nEND OF HISTORY reached\n", rfl⟩ (fun _ => rfl)
    (fun i dir hwalk => ?_) (ensureInstance_recorded hrec env tty) hmethod hmessage
  obtain ⟨-, -, hdir, husable⟩ := walkForward_eq_some hwalk
  exact ⟨hdir, (isUsable_eq_true_iff.mp husable).2.1⟩

theorem cdBackward_agrees (hrec : Recorded s.db)
    (htty : ttyArgument command = .ok (.inr tty)) {result : CmdResult} {dir : String}
    (hanswer : cdBackward env command s = (.ok result, s'))
    (hmessage : result.message = "cd " ++ dir ++ mustEndWithNewLine) :
    Agrees s'.db tty dir := by
  obtain ⟨-, hmethod⟩ := withInstance_eq_ok htty hanswer
  refine cdAnswer_agrees ⟨" \nBEGINNING OF HISTORY reached\n", rfl⟩ (fun _ => rfl)
    (fun i dir hwalk => ?_) (ensureInstance_recorded hrec env tty) hmethod hmessage
  obtain ⟨-, -, hdir, husable⟩ := walkBackward_eq_some hwalk
  exact ⟨hdir, (isUsable_eq_true_iff.mp husable).2.1⟩

end

/-- Over every run of the commands that write to the tables: after a command
that shows or records a directory the pointer is on its row exactly when
neither of the two branches is taken. -/
theorem handle_agrees_iff (inputs : List StoreInput) (env : Surroundings) (verb : Verb)
    (command : Json) (tty : Int) (htty : ttyArgument command = .ok (.inr tty))
    (result : CmdResult) (s' : TerminalState)
    (hanswer : handle env verb command (storeRun TerminalState.initial inputs) =
      (.ok result, s'))
    (dir : String) (hshows : Shows verb command result dir) :
    Agrees s'.db tty dir ↔
      PointsAtShown env verb command tty (storeRun TerminalState.initial inputs) := by
  have hrec := storeRun_recorded (s := TerminalState.initial) Recorded.empty inputs
  generalize storeRun TerminalState.initial inputs = s at hrec hanswer ⊢
  obtain ⟨hstatus, hshows⟩ := hshows
  cases verb with
  | openedTty => exact openedTty_agrees_iff hrec htty hanswer hstatus hshows
  | closedTty => exact hshows.elim
  | updateDirHistory => exact updateDirHistory_agrees_iff hrec htty hanswer hstatus hshows
  | cdForward => exact iff_of_true (cdForward_agrees hrec htty hanswer hshows) trivial
  | cdBackward => exact iff_of_true (cdBackward_agrees hrec htty hanswer hshows) trivial

/-- A terminal reports a second directory. -/
def secondReported : List StoreInput :=
  [.terminal (.command .openedTty (ttyCommand 1) (surroundingsWith [defaultDir])),
    .terminal (.command .updateDirHistory (pwdCommand 1 "/a")
      (surroundingsWith [defaultDir, "/a/"]))]

/-- The second directory is deleted: the pointer goes back to the first one. -/
theorem secondDeleted_agrees :
    (storeRun TerminalState.initial secondReported).db.terminal_sessions 1 = some 1 ∧
      Agrees (handle (surroundingsWith [defaultDir]) .openedTty (ttyCommand 1)
        (storeRun TerminalState.initial secondReported)).2.db 1 defaultDir := by
  have hpointer : (storeRun TerminalState.initial secondReported).db.terminal_sessions 1 =
      some 1 := by decide +kernel
  refine ⟨hpointer, (handle_agrees_iff secondReported (surroundingsWith [defaultDir]) .openedTty
    (ttyCommand 1) 1 (by rfl) ⟨0, defaultDir ++ mustEndWithNewLine⟩ _ (by rfl) defaultDir
    ⟨by rfl, by rfl⟩).mpr ⟨fun hnone => ?_, fun _ p _ hgives => ?_⟩⟩
  · exact absurd hnone (by decide +kernel)
  · exact hgives.2.2 (by decide +kernel)

/-- The table is emptied, the shell reports a directory and the directory is
deleted. -/
def reportedDeleted : List StoreInput :=
  [.terminal (.command .openedTty (ttyCommand 1) (surroundingsWith [defaultDir])),
    .emptyDirHistoryTable,
    .terminal (.command .updateDirHistory (pwdCommand 1 "/a") (surroundingsWith ["/a/"]))]

theorem reportedDeleted_not_agrees :
    Shows .openedTty (ttyCommand 1) ⟨0, defaultDir ++ mustEndWithNewLine⟩ defaultDir ∧
      (handle (surroundingsWith []) .openedTty (ttyCommand 1)
        (storeRun TerminalState.initial reportedDeleted)).1 =
          .ok ⟨0, defaultDir ++ mustEndWithNewLine⟩ ∧
      ¬ Agrees (handle (surroundingsWith []) .openedTty (ttyCommand 1)
        (storeRun TerminalState.initial reportedDeleted)).2.db 1 defaultDir := by
  refine ⟨⟨rfl, rfl⟩, by rfl, ?_⟩
  rintro ⟨p, hp, hrow⟩
  have hpointer : (handle (surroundingsWith []) .openedTty (ttyCommand 1)
      (storeRun TerminalState.initial reportedDeleted)).2.db.terminal_sessions 1 = some 0 := by
    decide +kernel
  obtain rfl : (0 : Int) = p := Option.some.inj (hpointer.symm.trans hp)
  revert hrow
  decide +kernel

end Terminal

end AutomateLinux
