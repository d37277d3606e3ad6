import AutomateLinux.TerminalStore

/-!
# What the repairs of one terminal do to the others

The constructor and `_openedTty` write the default directory over a row of the
shared history.  The repair of the constructor is harmless exactly when the
newest row, which its search may not have looked at, is not of a directory that
is still there.  The first `updateDirHistory` of a terminal may also append to a
full history, and the prune that follows renumbers everybody's rows; the repairs
are therefore followed through the renumbering first.
-/

namespace AutomateLinux

open TerminalTable SettingsTable

namespace Terminal

/-- Every live row from `d` on is found `d` lower with its path, and so is the
pointer of every other terminal. -/
structure Isolated (live : String → Prop) (tty d : Int) (before after : Database) :
    Prop where
  rows : ∀ i path, before.terminal_history.get? i = some path → live path → d ≤ i →
    after.terminal_history.get? (i - d) = some path
  pointers : ∀ other, other ≠ tty →
    after.terminal_sessions other =
      (before.terminal_sessions other).map fun p => max 0 (p - d)

/-- Every live row and the pointer of every other terminal stay as they are. -/
structure Keeps (live : String → Prop) (tty : Int) (before after : Database) : Prop where
  rows : ∀ i path, before.terminal_history.get? i = some path → live path →
    after.terminal_history.get? i = some path
  pointers : ∀ other, other ≠ tty →
    after.terminal_sessions other = before.terminal_sessions other

section

variable {live : String → Prop} {tty d : Int} {a b c : Database}

theorem Keeps.refl (live : String → Prop) (tty : Int) (db : Database) :
    Keeps live tty db db where
  rows := fun _ _ hget _ => hget
  pointers := fun _ _ => rfl

theorem Keeps.trans (hab : Keeps live tty a b) (hbc : Keeps (fun _ => True) tty b c) :
    Keeps live tty a c where
  rows := fun i path hget hlive => hbc.rows i path (hab.rows i path hget hlive) trivial
  pointers := fun other hother => by
    rw [hbc.pointers other hother, hab.pointers other hother]

theorem Keeps.congr (hab : Keeps live tty a b)
    (hrows : c.terminal_history = b.terminal_history)
    (hsessions : c.terminal_sessions = b.terminal_sessions) : Keeps live tty a c where
  rows := fun i path hget hlive => by
    rw [hrows]
    exact hab.rows i path hget hlive
  pointers := fun other hother => by
    rw [hsessions]
    exact hab.pointers other hother

theorem Keeps.setSessionPointer (hab : Keeps live tty a b) (i : Int) :
    Keeps live tty a (setSessionPointer b tty i) where
  rows := hab.rows
  pointers := fun other hother => by
    rw [← hab.pointers other hother]
    exact Function.update_of_ne hother _ _

theorem Keeps.deleteSession (hab : Keeps live tty a b) :
    Keeps live tty a (deleteSession b tty) where
  rows := hab.rows
  pointers := fun other hother => by
    rw [← hab.pointers other hother]
    exact Function.update_of_ne hother _ _

/-- Writing a row disturbs nobody when no live row of another path was there. -/
theorem Keeps.upsertHistory (hab : Keeps live tty a b) {i : Int} {path : String}
    (hfree : ∀ old, a.terminal_history.get? i = some old → live old → old = path) :
    Keeps live tty a (upsertHistory b i path) where
  rows := fun j old hget hlive => by
    rw [TerminalTable.upsertHistory, OrderedMap.get?_insert]
    by_cases hj : j = i
    · subst hj
      rw [if_pos rfl, hfree old hget hlive]
    · rw [if_neg hj]
      exact hab.rows j old hget hlive
  pointers := hab.pointers

theorem Keeps.isolated (hab : Keeps live tty a b) (hpruned : PrunedBy b c d) :
    Isolated live tty d a c where
  rows := fun i path hget hlive hle => by
    rw [hpruned.rows, if_pos (by omega), sub_add_cancel]
    exact hab.rows i path hget hlive
  pointers := fun other hother => by
    rw [hpruned.sessions, hab.pointers other hother]

theorem isolated_zero_iff (hrec : Recorded a) :
    Isolated live tty 0 a c ↔ Keeps live tty a c := by
  constructor
  · intro hisolated
    constructor
    · intro i path hget hlive
      have hnonneg := hrec.index i (OrderedMap.mem_keys_iff.mpr ⟨path, hget⟩)
      have hafter := hisolated.rows i path hget hlive hnonneg
      rwa [sub_zero] at hafter
    · intro other hother
      rw [hisolated.pointers other hother, ← hrec.prunedBy_zero.sessions other]
  · intro hkeeps
    constructor
    · intro i path hget hlive _
      rw [sub_zero]
      exact hkeeps.rows i path hget hlive
    · intro other hother
      rw [hkeeps.pointers other hother, ← hrec.prunedBy_zero.sessions other]

/-- What is kept through a prune: rows that are found again `d` higher, and pointers to
the first row. -/
theorem keeps_iff_of_prunedBy (hrec : Recorded a) (hpruned : PrunedBy b c d) (hpos : 0 < d)
    (hsessions : ∀ other, other ≠ tty → b.terminal_sessions other = a.terminal_sessions other) :
    Keeps live tty a c ↔
      (∀ i path, a.terminal_history.get? i = some path → live path →
        b.terminal_history.get? (i + d) = some path) ∧
      ∀ other p, other ≠ tty → a.terminal_sessions other = some p → p = 0 := by
  have hrow : ∀ {i : Int} {path : String}, a.terminal_history.get? i = some path →
      c.terminal_history.get? i = b.terminal_history.get? (i + d) := by
    intro i path hget
    rw [hpruned.rows, if_pos (hrec.index i (OrderedMap.mem_keys_iff.mpr ⟨path, hget⟩))]
  constructor
  · intro hkeeps
    refine ⟨fun i path hget hlive => ?_, fun other p hother hp => ?_⟩
    · rw [← hrow hget]
      exact hkeeps.rows i path hget hlive
    · have hafter := hkeeps.pointers other hother
      rw [hpruned.sessions, hsessions other hother, hp, Option.map_some, Option.some.injEq]
        at hafter
      have hnonneg := hrec.session other p hp
      omega
  · rintro ⟨hrows, hpointers⟩
    refine ⟨fun i path hget hlive => ?_, fun other hother => ?_⟩
    · rw [hrow hget]
      exact hrows i path hget hlive
    · rw [hpruned.sessions, hsessions other hother]
      cases hp : a.terminal_sessions other with
      | none => rfl
      | some p =>
          rw [Option.map_some, hpointers other p hother hp, max_eq_left (by omega)]

/-- A live row that something else was written over is missing afterwards. -/
theorem Isolated.path_eq (hisolated : Isolated live tty d a c)
    (hpruned : PrunedBy b c d) {i : Int} {old path : String}
    (hold : a.terminal_history.get? i = some old) (hlive : live old)
    (hnew : b.terminal_history.get? i = some path) (hle : d ≤ i) : old = path := by
  have hafter := hisolated.rows i old hold hlive hle
  rw [hpruned.rows, if_pos (by omega), sub_add_cancel, hnew] at hafter
  exact (Option.some.inj hafter).symm

end

/-! ## The repairs -/

/-- Writing the default over this row would not lose a directory still there. -/
def Spared (env : Surroundings) (db : Database) (i : Int) : Prop :=
  ∀ path, db.terminal_history.get? i = some path → env.is_directory path = .ok true →
    path = defaultDir

/-- The newest row may be written over when no row is found below the start. -/
def CreationSpares (env : Surroundings) (db : Database) : Prop :=
  NoneUsable env db (startingPoint db).1 →
    Spared env db (max 0 (getMaxHistoryIndex db))

section

variable {env : Surroundings} {tty : Int} {db db' : Database} {result : Except Exn Unit}

theorem get?_eq_none_of_keys (hkeys : db.terminal_history.keys = []) (i : Int) :
    db.terminal_history.get? i = none := by
  cases hget : db.terminal_history.get? i with
  | none => rfl
  | some path =>
      have hmem : i ∈ db.terminal_history.keys := OrderedMap.mem_keys_iff.mpr ⟨path, hget⟩
      rw [hkeys] at hmem
      exact absurd hmem List.not_mem_nil

theorem Created.keeps (hcreated : Created env tty db result db') (hrec : Recorded db)
    (hspares : CreationSpares env db) :
    Keeps (fun path => env.is_directory path = .ok true) tty db db' := by
  rcases startingPoint_cases db hrec with ⟨-, hsame⟩ | ⟨hstart, hkeys⟩
  · cases hcreated with
    | failed e hsome =>
        rw [hsame]
        exact Keeps.refl _ tty db
    | found i hnonneg hle husable =>
        rw [hsame]
        exact (Keeps.refl _ tty db).setSessionPointer i
    | repaired hnone =>
        rw [hsame] at hnone ⊢
        exact ((Keeps.refl _ tty db).upsertHistory (hspares hnone)).setSessionPointer _
  · -- an empty history has nothing to lose
    have hempty := get?_eq_none_of_keys hkeys
    have hpath : ∀ {i : Int} {path : String}, db.terminal_history.get? i ≠ some path := by
      intro i path
      rw [hempty i]
      exact (Option.some_ne_none path).symm
    have hfirst : Keeps (fun path => env.is_directory path = .ok true) tty db
        (startingPoint db).2 := by
      rw [hstart]
      exact (Keeps.refl _ tty db).upsertHistory fun old hget => absurd hget hpath
    cases hcreated with
    | failed e hsome => exact hfirst
    | found i hnonneg hle husable => exact hfirst.setSessionPointer i
    | repaired hnone =>
        exact (hfirst.upsertHistory fun old hget => absurd hget hpath).setSessionPointer _

/-- A search that comes back empty writes the default over the newest row. -/
theorem Created.overwrites (hcreated : Created env tty db result db')
    (hrec : Recorded db) (hspares : ¬ CreationSpares env db) :
    result = .ok () ∧ ∃ i old, db.terminal_history.get? i = some old ∧
      env.is_directory old = .ok true ∧ old ≠ defaultDir ∧
      db'.terminal_history.get? i = some defaultDir ∧
      i = getMaxHistoryIndex db' := by
  unfold CreationSpares Spared at hspares
  push Not at hspares
  obtain ⟨hnone, old, hget, hdir, hne⟩ := hspares
  have hmem : max 0 (getMaxHistoryIndex db) ∈ db.terminal_history.keys :=
    OrderedMap.mem_keys_iff.mpr ⟨old, hget⟩
  have hmax : max 0 (getMaxHistoryIndex db) = getMaxHistoryIndex db := by
    have hle := le_maxIndex hmem
    omega
  rw [hmax] at hget
  rcases startingPoint_cases db hrec with ⟨-, hsame⟩ | ⟨-, hkeys⟩
  · cases hcreated with
    | failed e hsome => exact absurd (by rwa [hsame]) hsome
    | found i hnonneg hle husable =>
        have hfalse := hnone i hnonneg hle
        rw [hsame, hfalse] at husable
        contradiction
    | repaired hnone =>
        rw [hmax] at hmem
        refine ⟨rfl, _, old, hget, hdir, hne, ?_, ?_⟩
        · rw [hsame, hmax]
          exact (OrderedMap.get?_insert _ _ _ _).trans (if_pos rfl)
        · have hkeys := OrderedMap.keys_insert_of_mem defaultDir hmem
          rw [hsame, hmax]
          simp only [getMaxHistoryIndex, OrderedMap.maxKey?, TerminalTable.setSessionPointer,
            TerminalTable.upsertHistory] at hkeys ⊢
          rw [hkeys]
  · rw [get?_eq_none_of_keys hkeys] at hget
    contradiction

theorem Opened.keeps {index : Int} {answer : CmdResult}
    (hopened : Opened env tty db index answer db') (hrec : Recorded db) :
    Keeps (fun _ => True) tty db db' := by
  have hrefl := Keeps.refl (fun _ => True) tty db
  cases hopened with
  | failed e => exact hrefl
  | stays hdir hroot => exact hrefl
  | movesBack i hnonneg hle husable hroot => exact hrefl.setSessionPointer i
  | gaveUp hroot hnone => exact hrefl.setSessionPointer 0
  | repaired hroot =>
      -- the row that reads as the root is missing
      refine hrefl.upsertHistory fun old hget _ => ?_
      have hold := hrec.path index old hget
      have hread : standardizePath (getHistory db index) = old := by
        rw [getHistory, hget, Option.getD_some, hold.fixed]
      exact absurd (hread ▸ hroot) hold.ne_root

theorem openedTtyPointer_keeps
    (hspares : getSessionPointer db tty < 0 → Spared env db 0) :
    Keeps (fun path => env.is_directory path = .ok true) tty db
      (openedTtyPointer db tty).2 := by
  unfold openedTtyPointer
  dsimp only
  split
  · rename_i hneg
    exact ((Keeps.refl _ tty db).setSessionPointer 0).upsertHistory (hspares hneg)
  · exact Keeps.refl _ tty db

end

/-! ## The prune of a command -/

/-- By how much the prune of an `updateDirHistory` lowers the indices. -/
def droppedByUpdate (tty : Int) (command : Json) (db : Database) : Int :=
  match getPWD command with
  | .error _ => 0
  | .ok text =>
      let pwd := standardizePath text
      if pwd ≠ "/" ∧ standardizePath (getHistory db (getIndex db tty)) ≠ pwd ∧
          standardizePath (getHistory db (getIndex db tty + 1)) ≠ pwd then
        pruneOffset (appendEntry tty pwd db) MAX_DIR_HISTORY_SIZE
      else 0

/-- By how much a command lowers the indices: only an `updateDirHistory` that
gets as far as its method prunes. -/
def dropped (env : Surroundings) (verb : Verb) (command : Json) (tty : Int)
    (s : TerminalState) : Int :=
  match verb, ensureInstance env tty s with
  | .updateDirHistory, (.ok (), s) => droppedByUpdate tty command s.db
  | _, _ => 0

section

variable {tty : Int} {command : Json} {db db' : Database}

theorem mem_keys_appendEntry {pwd : String} {i : Int} :
    i ∈ (appendEntry tty pwd db).terminal_history.keys ↔
      i = getMaxHistoryIndex db + 1 ∨ i ∈ db.terminal_history.keys := by
  unfold appendEntry
  exact OrderedMap.mem_keys_insert

theorem get?_above_newest (db : Database) :
    db.terminal_history.get? (getMaxHistoryIndex db + 1) = none := by
  cases hget : db.terminal_history.get? (getMaxHistoryIndex db + 1) with
  | none => rfl
  | some path =>
      have hle := le_maxIndex (OrderedMap.mem_keys_iff.mpr ⟨path, hget⟩)
      omega

theorem appendEntry_keeps (tty : Int) (pwd : String) (db : Database) :
    Keeps (fun _ => True) tty db (appendEntry tty pwd db) := by
  have hrefl := Keeps.refl (fun _ => True) tty db
  have hwritten : Keeps (fun _ => True) tty db
      (upsertHistory db (getMaxHistoryIndex db + 1) pwd) := by
    refine hrefl.upsertHistory fun old hget _ => ?_
    rw [get?_above_newest] at hget
    contradiction
  exact (hwritten.setSessionPointer (getMaxHistoryIndex db + 1)).congr rfl rfl

theorem Updated.keeps {result : Except Exn CmdResult}
    (hupdated : Updated tty command db result db') (hrec : Recorded db) :
    ∃ mid, Keeps (fun _ => True) tty db mid ∧
      PrunedBy mid db' (droppedByUpdate tty command db) := by
  have hrefl := Keeps.refl (fun _ => True) tty db
  have hafter := hupdated.recorded hrec
  unfold droppedByUpdate
  cases hupdated with
  | refused hresult hroot hrows hsessions =>
      refine ⟨db', hrefl.congr hrows hsessions, ?_⟩
      cases htext : getPWD command with
      | error e => exact hafter.prunedBy_zero
      | ok text =>
          simp only [hroot text htext, ne_eq, not_true_eq_false, false_and, if_false]
          exact hafter.prunedBy_zero
  | stays htext hroot hhere hrows hsessions =>
      refine ⟨db', hrefl.congr hrows hsessions, ?_⟩
      simp only [htext, hhere, ne_eq, not_true_eq_false, false_and, and_false, if_false]
      exact hafter.prunedBy_zero
  | movesOn htext hroot hhere hnext hrows hsessions =>
      refine ⟨db', (hrefl.setSessionPointer _).congr hrows hsessions, ?_⟩
      simp only [htext, hnext, ne_eq, not_true_eq_false, and_false, if_false]
      exact hafter.prunedBy_zero
  | @appends text htext hroot hhere hnext =>
      simp only [htext]
      rw [if_pos ⟨hroot, hhere, hnext⟩]
      refine ⟨_, appendEntry_keeps tty (standardizePath text) db, ?_⟩
      have happended := appendEntry_recorded hrec tty (isStandard_standardizePath hroot)
      exact happended.prunedBy_pruneHistory (by decide)

/-- The row that was the newest before an append is still there after it. -/
theorem droppedByUpdate_le (hrec : Recorded db) (tty : Int) (command : Json)
    (hmem : getMaxHistoryIndex db ∈ db.terminal_history.keys) :
    droppedByUpdate tty command db ≤ getMaxHistoryIndex db := by
  have hnonneg := hrec.index _ hmem
  unfold droppedByUpdate
  split
  · exact hnonneg
  · dsimp only
    split
    · rename_i hcond
      have happended := appendEntry_recorded hrec tty (isStandard_standardizePath hcond.1)
      refine happended.pruneOffset_le (mem_keys_appendEntry.mpr (Or.inr hmem)) ?_ (by decide)
      intro j hj
      rcases mem_keys_appendEntry.mp hj with rfl | hj
      · exact le_rfl
      · have hle := le_maxIndex hj
        omega
    · exact hnonneg

end

/-! ## The commands -/

/-- No repair made on the way falls on a directory that is still there. -/
def RepairsSpare (env : Surroundings) (verb : Verb) (tty : Int) (s : TerminalState) : Prop :=
  (verb ≠ .closedTty → getInstanceByTTY env s tty = none → CreationSpares env s.db) ∧
    (verb = .openedTty → getInstanceByTTY env s tty ≠ none →
      getSessionPointer s.db tty < 0 → Spared env s.db 0)

section

variable {env : Surroundings} {tty : Int} {command : Json} {s : TerminalState}

theorem ensureInstance_cases (hrec : Recorded s.db) (env : Surroundings) (tty : Int) :
    (getInstanceByTTY env s tty ≠ none ∧ ensureInstance env tty s = (.ok (), s)) ∨
      (getInstanceByTTY env s tty = none ∧
        Created env tty s.db (ensureInstance env tty s).1 (ensureInstance env tty s).2.db) := by
  unfold ensureInstance
  cases hfound : getInstanceByTTY env s tty with
  | some position => exact Or.inl ⟨Option.some_ne_none position, rfl⟩
  | none => exact Or.inr ⟨rfl, construct_created hrec env tty⟩

/-- A repair from `a` to `b` decides, whatever the rest of the command keeps. -/
theorem isolated_iff_of_repair {live : String → Prop} {d : Int} {a b mid c : Database}
    {spares : Prop} (hkeeps : spares → Keeps live tty a b)
    (hviolates : ¬ spares → ∃ i old, a.terminal_history.get? i = some old ∧ live old ∧
      old ≠ defaultDir ∧ b.terminal_history.get? i = some defaultDir ∧ d ≤ i)
    (hmid : Keeps (fun _ => True) tty b mid) (hpruned : PrunedBy mid c d) :
    Isolated live tty d a c ↔ spares := by
  constructor
  · intro hisolated
    by_contra hnot
    obtain ⟨i, old, hold, hlive, hne, hnew, hle⟩ := hviolates hnot
    exact hne (hisolated.path_eq hpruned hold hlive (hmid.rows i _ hnew trivial) hle)
  · intro hspares
    exact ((hkeeps hspares).trans hmid).isolated hpruned

/-- What the creation of the terminal decides about a command that then runs a
method which disturbs no other terminal, except that it may prune. -/
theorem withInstance_isolated_iff (hrec : Recorded s.db)
    (htty : ttyArgument command = .ok (.inr tty))
    (method : Int → Database → Except Exn CmdResult × Database) (lowers : Database → Int)
    (ready : Database → Prop) (hfirst : getInstanceByTTY env s tty ≠ none → ready s.db)
    (hready : ∀ db', Created env tty s.db (.ok ()) db' → ready db')
    (hmethod : ∀ db, Recorded db → ready db → ∃ mid, Keeps (fun _ => True) tty db mid ∧
      PrunedBy mid (method tty db).2 (lowers db))
    (hlowers : ∀ db, Recorded db → getMaxHistoryIndex db ∈ db.terminal_history.keys →
      lowers db ≤ getMaxHistoryIndex db) :
    Isolated (fun path => env.is_directory path = .ok true) tty
        (match ensureInstance env tty s with
          | (.ok (), s) => lowers s.db
          | (.error _, _) => 0)
        s.db (withInstance env command method s).2.db ↔
      (getInstanceByTTY env s tty = none → CreationSpares env s.db) := by
  simp only [withInstance, htty]
  have hensured := ensureInstance_recorded hrec env tty
  rcases ensureInstance_cases hrec env tty with ⟨hfound, heq⟩ | ⟨hnone, hcreated⟩
  · rw [heq]
    obtain ⟨mid, hmid, hpruned⟩ := hmethod s.db hrec (hfirst hfound)
    refine isolated_iff_of_repair (fun _ => Keeps.refl _ tty s.db) (fun hnot => ?_)
      hmid hpruned
    exact absurd (fun h => absurd h hfound) hnot
  · generalize ensureInstance env tty s = ensured at hensured hcreated ⊢
    obtain ⟨result, s'⟩ := ensured
    have hkeeps : (getInstanceByTTY env s tty = none → CreationSpares env s.db) →
        Keeps (fun path => env.is_directory path = .ok true) tty s.db s'.db :=
      fun hspares => hcreated.keeps hrec (hspares hnone)
    cases result with
    | error e =>
        refine isolated_iff_of_repair hkeeps (fun hnot => ?_)
          (Keeps.refl _ tty _) hensured.prunedBy_zero
        obtain ⟨-, hnot⟩ := Classical.not_imp.mp hnot
        obtain ⟨hok, -⟩ := hcreated.overwrites hrec hnot
        contradiction
    | ok done =>
        obtain ⟨mid, hmid, hpruned⟩ := hmethod s'.db hensured (hready s'.db hcreated)
        refine isolated_iff_of_repair hkeeps (fun hnot => ?_) hmid hpruned
        obtain ⟨-, hnot⟩ := Classical.not_imp.mp hnot
        obtain ⟨-, i, old, hold, hdir, hne, hnew, hmax⟩ := hcreated.overwrites hrec hnot
        refine ⟨i, old, hold, hdir, hne, hnew, ?_⟩
        rw [hmax]
        exact hlowers s'.db hensured (hmax ▸ OrderedMap.mem_keys_iff.mpr ⟨_, hnew⟩)

theorem Created.getSessionPointer_nonneg {db db' : Database} (hrec : Recorded db')
    (hcreated : Created env tty db (.ok ()) db') : 0 ≤ getSessionPointer db' tty := by
  have hpointer : ∃ p, db'.terminal_sessions tty = some p := by
    cases hcreated with
    | found i hnonneg hle husable => exact ⟨i, Function.update_self _ _ _⟩
    | repaired hnone => exact ⟨_, Function.update_self _ _ _⟩
  obtain ⟨p, hp⟩ := hpointer
  rw [getSessionPointer, hp]
  exact hrec.session tty p hp

theorem openedTtyPointer_of_nonneg {db : Database}
    (hnonneg : 0 ≤ getSessionPointer db tty) :
    openedTtyPointer db tty = (getSessionPointer db tty, db) := by
  unfold openedTtyPointer
  rw [if_neg (by omega)]

theorem openedTty_eq_withInstance :
    openedTty env command s = withInstance env command
      (fun tty db => (.ok (_openedTty env tty db).1, (_openedTty env tty db).2)) s :=
  rfl

theorem lowered_eq_zero (env : Surroundings) (tty : Int) (s : TerminalState) :
    (match ensureInstance env tty s with
      | (.ok (), _) => (0 : Int)
      | (.error _, _) => 0) = 0 := by
  split <;> rfl

theorem openedTty_isolated_iff (hrec : Recorded s.db)
    (htty : ttyArgument command = .ok (.inr tty)) :
    Isolated (fun path => env.is_directory path = .ok true) tty 0
        s.db (openedTty env command s).2.db ↔ RepairsSpare env .openedTty tty s := by
  rw [openedTty_eq_withInstance]
  rcases ensureInstance_cases hrec env tty with ⟨hfound, heq⟩ | ⟨hnone, -⟩
  · have hspares : RepairsSpare env .openedTty tty s ↔
        (getSessionPointer s.db tty < 0 → Spared env s.db 0) := by
      simp [RepairsSpare, hfound]
    obtain ⟨hpointer, -⟩ := openedTtyPointer_recorded hrec tty
    have hopened := _openedTty_opened hrec env tty
    have hafter := (hopened.recorded hpointer (openedTtyPointer_recorded hrec tty).2)
    simp only [withInstance, htty, heq]
    rw [hspares]
    refine isolated_iff_of_repair openedTtyPointer_keeps (fun hnot => ?_)
      (hopened.keeps hpointer) hafter.prunedBy_zero
    unfold Spared at hnot
    push Not at hnot
    obtain ⟨hneg, old, hold, hdir, hne⟩ := hnot
    refine ⟨0, old, hold, hdir, hne, ?_, le_rfl⟩
    rw [openedTtyPointer, if_pos hneg]
    exact (OrderedMap.get?_insert _ _ _ _).trans (if_pos rfl)
  · have hspares : RepairsSpare env .openedTty tty s ↔
        (getInstanceByTTY env s tty = none → CreationSpares env s.db) := by
      simp [RepairsSpare, hnone]
    rw [hspares, ← lowered_eq_zero env tty s]
    refine withInstance_isolated_iff hrec htty _ (fun _ => 0)
      (fun db => 0 ≤ getSessionPointer db tty) (fun hfound => absurd hnone hfound)
      (fun db' hcreated => hcreated.getSessionPointer_nonneg (hcreated.recorded hrec))
      (fun db hdb hpointer => ?_) (fun db hdb hmem => hdb.index _ hmem)
    have hopened := _openedTty_opened hdb env tty
    rw [openedTtyPointer_of_nonneg hpointer] at hopened
    exact ⟨_, hopened.keeps hdb, (hopened.recorded hdb hpointer).prunedBy_zero⟩

theorem cdAnswer_keeps (db : Database) (tty : Int) (atEnd : String)
    (found : Except Exn (Option (Int × String))) :
    Keeps (fun _ => True) tty db (cdAnswer db tty atEnd found).2 := by
  unfold cdAnswer
  split
  · exact Keeps.refl _ tty db
  · exact (Keeps.refl _ tty db).setSessionPointer _
  · exact Keeps.refl _ tty db

theorem closedTty_keeps (htty : ttyArgument command = .ok (.inr tty)) :
    Keeps (fun _ => True) tty s.db (closedTty env command s).2.db := by
  unfold closedTty
  rw [htty]
  dsimp only
  split
  · exact (Keeps.refl _ tty s.db).deleteSession.deleteSession
  · exact Keeps.refl _ tty s.db

theorem repairsSpare_iff {verb : Verb} (hopened : verb ≠ .openedTty)
    (hclosed : verb ≠ .closedTty) :
    RepairsSpare env verb tty s ↔
      (getInstanceByTTY env s tty = none → CreationSpares env s.db) := by
  simp [RepairsSpare, hopened, hclosed]

theorem dropped_eq_zero {verb : Verb} (hverb : verb ≠ .updateDirHistory) :
    dropped env verb command tty s = 0 := by
  unfold dropped
  split
  · contradiction
  · rfl

/-- A navigation command disturbs another terminal only by creating its own. -/
theorem withInstance_isolated_iff_of_keeps (hrec : Recorded s.db)
    (htty : ttyArgument command = .ok (.inr tty))
    {method : Int → Database → Except Exn CmdResult × Database}
    (hrecorded : ∀ db, Recorded db → Recorded (method tty db).2)
    (hkeeps : ∀ db, Keeps (fun _ => True) tty db (method tty db).2) :
    Isolated (fun path => env.is_directory path = .ok true) tty 0
        s.db (withInstance env command method s).2.db ↔
      (getInstanceByTTY env s tty = none → CreationSpares env s.db) := by
  rw [← lowered_eq_zero env tty s]
  exact withInstance_isolated_iff hrec htty method (fun _ => 0) (fun _ => True)
    (fun _ => trivial) (fun _ _ => trivial)
    (fun db hdb _ => ⟨_, hkeeps db, (hrecorded db hdb).prunedBy_zero⟩)
    (fun db hdb hmem => hdb.index _ hmem)

theorem updateDirHistory_isolated_iff (hrec : Recorded s.db)
    (htty : ttyArgument command = .ok (.inr tty)) :
    Isolated (fun path => env.is_directory path = .ok true) tty
        (dropped env .updateDirHistory command tty s)
        s.db (updateDirHistory env command s).2.db ↔
      (getInstanceByTTY env s tty = none → CreationSpares env s.db) := by
  have hlowers : dropped env .updateDirHistory command tty s =
      match ensureInstance env tty s with
      | (.ok (), s) => droppedByUpdate tty command s.db
      | (.error _, _) => 0 := by
    unfold dropped
    rcases ensureInstance env tty s with ⟨_ | _, s'⟩ <;> rfl
  rw [hlowers]
  exact withInstance_isolated_iff hrec htty
    (fun tty db => _updateDirHistory tty command db) (droppedByUpdate tty command)
    (fun _ => True) (fun _ => trivial) (fun _ _ => trivial)
    (fun db hdb _ => (_updateDirHistory_updated tty command db).keeps hdb)
    (fun db hdb hmem => droppedByUpdate_le hdb tty command hmem)

/-- A command disturbs the rows and pointers of the others, but for the prune, exactly when
one of its repairs falls on a directory that is still there. -/
theorem handle_isolated_iff (hrec : Recorded s.db) (env : Surroundings) (verb : Verb)
    (command : Json) (tty : Int) (htty : ttyArgument command = .ok (.inr tty)) :
    Isolated (fun path => env.is_directory path = .ok true) tty
        (dropped env verb command tty s) s.db (handle env verb command s).2.db ↔
      RepairsSpare env verb tty s := by
  cases verb with
  | openedTty =>
      rw [dropped_eq_zero (by decide)]
      exact openedTty_isolated_iff hrec htty
  | closedTty =>
      rw [dropped_eq_zero (by decide), isolated_zero_iff hrec]
      have hkeeps : Keeps (fun _ => True) tty s.db (closedTty env command s).2.db :=
        closedTty_keeps htty
      constructor
      · intro _
        exact ⟨fun h => absurd rfl h, fun h => by contradiction⟩
      · intro _
        exact (Keeps.refl _ tty s.db).trans hkeeps
  | updateDirHistory =>
      rw [repairsSpare_iff (by decide) (by decide)]
      exact updateDirHistory_isolated_iff hrec htty
  | cdForward =>
      rw [dropped_eq_zero (by decide), repairsSpare_iff (by decide) (by decide)]
      exact withInstance_isolated_iff_of_keeps hrec htty
        (fun db hdb => _cdForward_recorded hdb env tty) fun db => cdAnswer_keeps db tty _ _
  | cdBackward =>
      rw [dropped_eq_zero (by decide), repairsSpare_iff (by decide) (by decide)]
      exact withInstance_isolated_iff_of_keeps hrec htty
        (fun db hdb => _cdBackward_recorded hdb env tty) fun db => cdAnswer_keeps db tty _ _

end

/-! ## The first update of a terminal -/

/-- The update appends and drops the oldest rows: the history is full, and the directory is
neither the one the new terminal is put in nor the next. -/
def Prunes (env : Surroundings) (command : Json) (db : Database) : Prop :=
  MAX_DIR_HISTORY_SIZE ≤ db.terminal_history.size ∧
    ∃ text, getPWD command = .ok text ∧ standardizePath text ≠ "/" ∧
      match walkBackward env (getHistory db) ((startingPoint db).1 + 1).toNat with
      | .error _ => False
      | .ok (some (i, path)) => standardizePath path ≠ standardizePath text ∧
          standardizePath (getHistory db (i + 1)) ≠ standardizePath text
      | .ok none => defaultDir ≠ standardizePath text

/-- A prune after a repair that nobody notices: what is written over the newest row and
behind it makes every live row read the same from `d` rows higher, and the other pointers
are at the first row. -/
def Unnoticed (env : Surroundings) (command : Json) (tty : Int) (db : Database) : Prop :=
  NoneUsable env db (startingPoint db).1 ∧
    ∃ text, getPWD command = .ok text ∧
      let grown := appendEntry tty (standardizePath text)
        (upsertHistory db (getMaxHistoryIndex db) defaultDir)
      (∀ i path, db.terminal_history.get? i = some path → env.is_directory path = .ok true →
        grown.terminal_history.get? (i + pruneOffset grown MAX_DIR_HISTORY_SIZE) =
          some path) ∧
      ∀ other p, other ≠ tty → db.terminal_sessions other = some p → p = 0

/-- The command creates its terminal or is an `openedTty`. -/
def CreatesOrOpens (env : Surroundings) (verb : Verb) (tty : Int) (s : TerminalState) : Prop :=
  verb = .openedTty ∨ verb ≠ .closedTty ∧ getInstanceByTTY env s tty = none

/-- The repairs fall on no directory that is still there, and no prune is noticed. -/
def Harmless (env : Surroundings) (verb : Verb) (command : Json) (tty : Int)
    (s : TerminalState) : Prop :=
  (verb = .updateDirHistory ∧ Prunes env command s.db → Unnoticed env command tty s.db) ∧
    (¬ (verb = .updateDirHistory ∧ Prunes env command s.db) → RepairsSpare env verb tty s)

section

variable {env : Surroundings} {tty : Int} {command : Json} {db : Database}

theorem forall_keys_lt_append (db : Database) :
    ∀ j ∈ db.terminal_history.keys, j < getMaxHistoryIndex db + 1 := by
  intro j hj
  have hle := le_maxIndex hj
  omega

theorem size_appendEntry (tty : Int) (pwd : String) (db : Database) :
    (appendEntry tty pwd db).terminal_history.size = db.terminal_history.size + 1 := by
  have hkeys : (appendEntry tty pwd db).terminal_history.keys =
      db.terminal_history.keys ++ [getMaxHistoryIndex db + 1] :=
    OrderedMap.keys_insert_of_forall_lt pwd (forall_keys_lt_append db)
  rw [← OrderedMap.length_keys, hkeys, List.length_append, OrderedMap.length_keys,
    List.length_singleton]

/-- An append to a full history drops rows. -/
theorem pruneOffset_appendEntry_pos {pwd : String} (hrec : Recorded db) (tty : Int)
    (hpwd : IsStandard pwd) (hfull : MAX_DIR_HISTORY_SIZE ≤ db.terminal_history.size) :
    0 < pruneOffset (appendEntry tty pwd db) MAX_DIR_HISTORY_SIZE := by
  have hgrown := appendEntry_recorded hrec tty hpwd
  have hlt : (MAX_DIR_HISTORY_SIZE : Int) < (appendEntry tty pwd db).terminal_history.size := by
    rw [size_appendEntry]
    omega
  obtain ⟨hcutoff, hmin⟩ := minKey_aboveCutoff hgrown.index (by decide) hlt
  have hmem := (OrderedMap.minKey?_eq_some_iff.mp hmin).1
  rw [OrderedMap.keys_filterKeys, List.mem_filter, decide_eq_true_iff] at hmem
  omega

/-- Only an append to a full history drops rows. -/
theorem droppedByUpdate_eq_zero_iff (hrec : Recorded db) :
    droppedByUpdate tty command db = 0 ↔
      ¬ (MAX_DIR_HISTORY_SIZE ≤ db.terminal_history.size ∧
        ∃ text, getPWD command = .ok text ∧ standardizePath text ≠ "/" ∧
          standardizePath (getHistory db (getIndex db tty)) ≠ standardizePath text ∧
          standardizePath (getHistory db (getIndex db tty + 1)) ≠ standardizePath text) := by
  unfold droppedByUpdate
  cases htext : getPWD command with
  | error e => simp
  | ok text =>
      simp only [Except.ok.injEq, exists_eq_left']
      by_cases happends : standardizePath text ≠ "/" ∧
          standardizePath (getHistory db (getIndex db tty)) ≠ standardizePath text ∧
          standardizePath (getHistory db (getIndex db tty + 1)) ≠ standardizePath text
      · rw [if_pos happends, and_iff_left happends, not_le]
        have hsize := size_appendEntry tty (standardizePath text) db
        constructor
        · intro hzero
          by_contra hfull
          have hpos := pruneOffset_appendEntry_pos hrec tty
            (isStandard_standardizePath happends.1) (not_lt.mp hfull)
          omega
        · intro hroom
          exact if_pos (by omega)
      · rw [if_neg happends]
        exact iff_of_true rfl fun h => happends h.2

theorem startingPoint_of_size_pos (hrec : Recorded db) (hsize : 0 < db.terminal_history.size) :
    (startingPoint db).2 = db := by
  rcases startingPoint_cases db hrec with ⟨-, hsame⟩ | ⟨-, hkeys⟩
  · exact hsame
  · rw [← OrderedMap.length_keys, hkeys] at hsize
    contradiction

theorem getMaxHistoryIndex_mem (hsize : 0 < db.terminal_history.size) :
    getMaxHistoryIndex db ∈ db.terminal_history.keys := by
  unfold getMaxHistoryIndex
  cases hmax : db.terminal_history.maxKey? with
  | none =>
      rw [← OrderedMap.length_keys, OrderedMap.maxKey?_eq_none_iff.mp hmax] at hsize
      contradiction
  | some k => exact (OrderedMap.maxKey?_eq_some hmax).1

/-- The repair writes over the newest row, or makes the first. -/
theorem size_upsertHistory_newest (hrec : Recorded db) (path : String) :
    (upsertHistory db (max 0 (getMaxHistoryIndex db)) path).terminal_history.size =
      max 1 db.terminal_history.size := by
  rw [← OrderedMap.length_keys]
  rcases Nat.eq_zero_or_pos db.terminal_history.size with hzero | hpos
  · have hnil : db.terminal_history.keys = [] := by
      rw [← List.length_eq_zero_iff, OrderedMap.length_keys, hzero]
    have hkeys : (upsertHistory db (max 0 (getMaxHistoryIndex db)) path).terminal_history.keys =
        db.terminal_history.keys ++ [max 0 (getMaxHistoryIndex db)] :=
      OrderedMap.keys_insert_of_forall_lt path (by simp [hnil])
    rw [hkeys, hnil, hzero]
    rfl
  · have hmem := getMaxHistoryIndex_mem hpos
    have hnonneg := hrec.index _ hmem
    rw [← max_eq_right hnonneg] at hmem
    have hkeys : (upsertHistory db (max 0 (getMaxHistoryIndex db)) path).terminal_history.keys =
        db.terminal_history.keys := OrderedMap.keys_insert_of_mem path hmem
    rw [hkeys, OrderedMap.length_keys]
    omega

theorem size_startingPoint_le (hrec : Recorded db) :
    (startingPoint db).2.terminal_history.size ≤ max 1 db.terminal_history.size := by
  rcases startingPoint_cases db hrec with ⟨-, hsame⟩ | ⟨hstart, hkeys⟩
  · rw [hsame]
    exact le_max_right _ _
  · have hmax : getMaxHistoryIndex db = -1 := by
      unfold getMaxHistoryIndex
      rw [OrderedMap.maxKey?_eq_none_iff.mpr hkeys]
      rfl
    have hsize := size_upsertHistory_newest hrec defaultDir
    rw [hmax] at hsize
    rw [hstart]
    exact hsize.le

theorem Created.size_le {db' : Database} {result : Except Exn Unit}
    (hcreated : Created env tty db result db') (hrec : Recorded db) :
    db'.terminal_history.size ≤ max 1 db.terminal_history.size := by
  have hstart := size_startingPoint_le hrec
  cases hcreated with
  | failed e hsome => exact hstart
  | found i hnonneg hle husable => exact hstart
  | repaired hnone =>
      have hrepair := size_upsertHistory_newest (startingPoint_recorded hrec) defaultDir
      refine hrepair.le.trans ?_
      omega

theorem getIndex_setSessionPointer {i : Int} (hnonneg : 0 ≤ i) :
    getIndex (setSessionPointer db tty i) tty = i := by
  have hpointer : getSessionPointer (setSessionPointer db tty i) tty = i := by
    have hself : (setSessionPointer db tty i).terminal_sessions tty = some i :=
      Function.update_self _ _ _
    rw [getSessionPointer, hself, Option.getD_some]
  rw [getIndex, hpointer]
  exact if_pos hnonneg

theorem getHistory_repaired (db : Database) (tty i : Int) :
    getHistory (setSessionPointer (upsertHistory db i defaultDir) tty i) i = defaultDir := by
  rw [getHistory, setSessionPointer, upsertHistory, OrderedMap.get?_insert, if_pos rfl,
    Option.getD_some]

theorem get?_appendEntry (tty : Int) (pwd : String) (db : Database) (i : Int) :
    (appendEntry tty pwd db).terminal_history.get? i =
      if i = getMaxHistoryIndex db + 1 then some pwd else db.terminal_history.get? i :=
  OrderedMap.get?_insert _ _ _ _

/-- A path that is found `d` rows higher wherever it is would come to the appended row. -/
theorem eq_of_shifted {d : Int} {path pwd : String} (hpos : 0 < d)
    (hshifted : ∀ j, db.terminal_history.get? j = some path →
      (appendEntry tty pwd db).terminal_history.get? (j + d) = some path)
    {i : Int} (hget : db.terminal_history.get? i = some path) : path = pwd := by
  by_contra hne
  have hall : ∀ n : ℕ, ∃ j, i + n ≤ j ∧ db.terminal_history.get? j = some path := by
    intro n
    induction n with
    | zero => exact ⟨i, by omega, hget⟩
    | succ n ih =>
        obtain ⟨j, hle, hj⟩ := ih
        have hnext := hshifted j hj
        rw [get?_appendEntry] at hnext
        split at hnext
        · exact absurd (Option.some.inj hnext).symm hne
        · exact ⟨j + d, by omega, hnext⟩
  obtain ⟨j, hle, hj⟩ := hall (getMaxHistoryIndex db + 1 - i).toNat
  have hmax := le_maxIndex (OrderedMap.mem_keys_iff.mpr ⟨path, hj⟩)
  omega

/-- Where a new terminal is put on a row, the rows are not all found again higher. -/
theorem not_shifted_of_usable (hrec : Recorded db) {d i : Int} {pwd : String} (hpos : 0 < d)
    (husable : isUsable env (getHistory db i) = .ok true)
    (hne : standardizePath (getHistory db i) ≠ pwd) :
    ¬ ∀ j path, db.terminal_history.get? j = some path → env.is_directory path = .ok true →
      (appendEntry tty pwd (setSessionPointer db tty i)).terminal_history.get? (j + d) =
        some path := by
  intro hrows
  obtain ⟨hempty, -, hlive⟩ := isUsable_eq_true_iff.mp husable
  cases hget : db.terminal_history.get? i with
  | none =>
      rw [getHistory, hget] at hempty
      exact hempty rfl
  | some path =>
      have hrow : getHistory db i = path := by rw [getHistory, hget, Option.getD_some]
      rw [hrow] at hlive hne
      rw [(hrec.path i path hget).fixed] at hne
      exact hne (eq_of_shifted hpos (fun j hj => hrows j path hj hlive) hget)

end

section

variable {env : Surroundings} {tty : Int} {command : Json} {s : TerminalState}

/-- What the constructor does to a history that is not empty. -/
theorem ensureInstance_eq (hrec : Recorded s.db) (hnone : getInstanceByTTY env s tty = none)
    (hsize : 0 < s.db.terminal_history.size) :
    ensureInstance env tty s =
      match walkBackward env (getHistory s.db) ((startingPoint s.db).1 + 1).toNat with
      | .error e => (.error e, ⟨s.db, s.instances ++ [none]⟩)
      | .ok (some (i, _)) => (.ok (), ⟨setSessionPointer s.db tty i, s.instances ++ [some tty]⟩)
      | .ok none => (.ok (), ⟨setSessionPointer
          (upsertHistory s.db (getMaxHistoryIndex s.db) defaultDir) tty (getMaxHistoryIndex s.db),
          s.instances ++ [some tty]⟩) := by
  have hmax := hrec.index _ (getMaxHistoryIndex_mem hsize)
  rw [ensureInstance, hnone]
  dsimp only
  rw [construct]
  have hstart := startingPoint_of_size_pos hrec hsize
  generalize startingPoint s.db = start at hstart ⊢
  obtain ⟨startIndex, db⟩ := start
  dsimp only at hstart ⊢
  subst hstart
  rcases walkBackward env (getHistory s.db) (startIndex + 1).toNat with
    e | _ | ⟨i, dir⟩
  · rfl
  · simp only [if_neg (not_lt.mpr hmax)]
  · rfl

/-- The database that the new terminal's method is run on. -/
theorem ensureInstance_of_prunes (hrec : Recorded s.db)
    (hnone : getInstanceByTTY env s tty = none) (hprunes : Prunes env command s.db) :
    ∃ text s', getPWD command = .ok text ∧ standardizePath text ≠ "/" ∧
      ensureInstance env tty s = (.ok (), s') ∧
      MAX_DIR_HISTORY_SIZE ≤ s'.db.terminal_history.size ∧
      standardizePath (getHistory s'.db (getIndex s'.db tty)) ≠ standardizePath text ∧
      standardizePath (getHistory s'.db (getIndex s'.db tty + 1)) ≠ standardizePath text ∧
      ((∃ i, isUsable env (getHistory s.db i) = .ok true ∧ 0 ≤ i ∧ i ≤ (startingPoint s.db).1 ∧
          s'.db = setSessionPointer s.db tty i ∧
          standardizePath (getHistory s.db i) ≠ standardizePath text) ∨
        NoneUsable env s.db (startingPoint s.db).1 ∧
          s'.db = setSessionPointer (upsertHistory s.db (getMaxHistoryIndex s.db) defaultDir) tty
            (getMaxHistoryIndex s.db)) := by
  obtain ⟨hfull, text, htext, hroot, hplaced⟩ := hprunes
  have hsize : 0 < s.db.terminal_history.size := Nat.lt_of_lt_of_le (by decide) hfull
  have heq := ensureInstance_eq hrec hnone hsize
  have hmax := hrec.index _ (getMaxHistoryIndex_mem hsize)
  refine ⟨text, (ensureInstance env tty s).2, htext, hroot, ?_⟩
  rcases hwalk : walkBackward env (getHistory s.db) ((startingPoint s.db).1 + 1).toNat with
    e | (_ | ⟨i, path⟩)
  · rw [hwalk] at hplaced
    contradiction
  · rw [hwalk] at hplaced heq
    dsimp only at hplaced heq
    rw [heq]
    have hrepair := size_upsertHistory_newest hrec defaultDir
    rw [max_eq_right hmax, max_eq_right hsize] at hrepair
    refine ⟨rfl, hfull.trans hrepair.ge, ?_, ?_, Or.inr ⟨fun i hnonneg hle => ?_, rfl⟩⟩
    · rwa [getIndex_setSessionPointer hmax, getHistory_repaired, isStandard_defaultDir.fixed]
    · rw [getIndex_setSessionPointer hmax]
      have hrow : getHistory (setSessionPointer
          (upsertHistory s.db (getMaxHistoryIndex s.db) defaultDir) tty (getMaxHistoryIndex s.db))
          (getMaxHistoryIndex s.db + 1) = "" := by
        rw [getHistory, setSessionPointer, upsertHistory, OrderedMap.get?_insert,
          if_neg (by omega), get?_above_newest, Option.getD_none]
      rw [hrow]
      exact hroot.symm
    · exact walkBackward_eq_none_iff.mp hwalk i hnonneg (by omega)
  · rw [hwalk] at hplaced heq
    dsimp only at hplaced heq
    obtain ⟨hnonneg, hlt, rfl, husable⟩ := walkBackward_eq_some hwalk
    rw [heq]
    dsimp only
    rw [getIndex_setSessionPointer hnonneg]
    exact ⟨rfl, hfull, hplaced.1, hplaced.2,
      Or.inl ⟨i, husable, hnonneg, by omega, rfl, hplaced.1⟩⟩

theorem dropped_eq_zero_of_not_prunes (hrec : Recorded s.db)
    (hnone : getInstanceByTTY env s tty = none) (hnot : ¬ Prunes env command s.db) :
    dropped env .updateDirHistory command tty s = 0 := by
  have hensured := ensureInstance_recorded hrec env tty
  rcases ensureInstance_cases hrec env tty with ⟨hfound, -⟩ | ⟨-, hcreated⟩
  · exact absurd hnone hfound
  · unfold dropped
    rcases hensure : ensureInstance env tty s with ⟨_ | _, s'⟩
    · rfl
    · rw [hensure] at hensured hcreated
      dsimp only at hensured hcreated ⊢
      rw [droppedByUpdate_eq_zero_iff hensured]
      rintro ⟨hfull, text, htext, hroot, hhere, hnext⟩
      have hsize := hcreated.size_le hrec
      have hcapacity : MAX_DIR_HISTORY_SIZE = 500 := rfl
      have heq := ensureInstance_eq hrec hnone (by omega)
      have hnewest : getMaxHistoryIndex s.db ∈ s.db.terminal_history.keys :=
        getMaxHistoryIndex_mem (by omega)
      have hmax := hrec.index _ hnewest
      rw [hensure] at heq
      refine hnot ⟨by omega, text, htext, hroot, ?_⟩
      rcases hwalk : walkBackward env (getHistory s.db) ((startingPoint s.db).1 + 1).toNat with
        e | (_ | ⟨i, path⟩)
      · rw [hwalk] at heq
        exact absurd (Prod.mk.inj heq).1 (by simp)
      · rw [hwalk] at heq
        obtain rfl := (Prod.mk.inj heq).2
        rwa [getIndex_setSessionPointer hmax, getHistory_repaired,
          isStandard_defaultDir.fixed] at hhere
      · rw [hwalk] at heq
        obtain rfl := (Prod.mk.inj heq).2
        obtain ⟨hnonneg, hlt, rfl, husable⟩ := walkBackward_eq_some hwalk
        rw [getIndex_setSessionPointer hnonneg] at hhere hnext
        exact ⟨hhere, hnext⟩

theorem updateDirHistory_of_appends {s' : TerminalState} {text : String}
    (htty : ttyArgument command = .ok (.inr tty))
    (hensure : ensureInstance env tty s = (.ok (), s'))
    (htext : getPWD command = .ok text) (hroot : standardizePath text ≠ "/")
    (hhere : standardizePath (getHistory s'.db (getIndex s'.db tty)) ≠ standardizePath text)
    (hnext : standardizePath (getHistory s'.db (getIndex s'.db tty + 1)) ≠ standardizePath text) :
    (updateDirHistory env command s).2.db =
      pruneHistory (fun _ => true) (appendEntry tty (standardizePath text) s'.db)
        MAX_DIR_HISTORY_SIZE := by
  have hroot' : ¬ (standardizePath text = "" ∨ standardizePath text = "/") :=
    not_or.mpr ⟨standardizePath_ne_empty text, hroot⟩
  simp only [updateDirHistory, withInstance, htty, hensure, _updateDirHistory, htext]
  rw [if_neg hroot', if_neg hhere, if_neg hnext]
  rfl

/-- A new terminal put on a row that is still there moves that row by its prune; one that
is put on the repaired row may go unnoticed. -/
theorem updateDirHistory_keeps_iff (hrec : Recorded s.db)
    (htty : ttyArgument command = .ok (.inr tty)) (hnone : getInstanceByTTY env s tty = none)
    (hprunes : Prunes env command s.db) :
    Keeps (fun path => env.is_directory path = .ok true) tty s.db
        (updateDirHistory env command s).2.db ↔ Unnoticed env command tty s.db := by
  obtain ⟨text, s', htext, hroot, hensure, hfull, hhere, hnext, hplaced⟩ :=
    ensureInstance_of_prunes hrec hnone hprunes
  have hrec' : Recorded s'.db := by
    have hensured := ensureInstance_recorded hrec env tty
    rwa [hensure] at hensured
  have hpwd := isStandard_standardizePath hroot
  have hgrown := appendEntry_recorded hrec' tty hpwd
  have hpruned : PrunedBy _ _ (pruneOffset _ MAX_DIR_HISTORY_SIZE) :=
    hgrown.prunedBy_pruneHistory (by decide)
  have hpos := pruneOffset_appendEntry_pos hrec' tty hpwd hfull
  have hsessions : ∀ other, other ≠ tty →
      (appendEntry tty (standardizePath text) s'.db).terminal_sessions other =
        s.db.terminal_sessions other := by
    intro other hother
    rw [(appendEntry_keeps tty _ s'.db).pointers other hother]
    rcases hplaced with ⟨i, -, -, -, hdb, -⟩ | ⟨-, hdb⟩
    · rw [hdb]
      exact Function.update_of_ne hother _ _
    · rw [hdb]
      exact Function.update_of_ne hother _ _
  rw [updateDirHistory_of_appends htty hensure htext hroot hhere hnext,
    keeps_iff_of_prunedBy hrec hpruned hpos hsessions]
  rcases hplaced with ⟨i, husable, hnonneg, hle, hdb, hne⟩ | ⟨hnone', hdb⟩
  · refine iff_of_false ?_ ?_
    · rintro ⟨hrows, -⟩
      rw [hdb] at hrows hpos
      exact not_shifted_of_usable hrec hpos husable hne hrows
    · rintro ⟨hnone', -⟩
      rw [hnone' i hnonneg hle] at husable
      contradiction
  · rw [hdb]
    constructor
    · intro hshifted
      exact ⟨hnone', text, htext, hshifted⟩
    · rintro ⟨-, text', htext', hshifted⟩
      obtain rfl := Except.ok.inj (htext.symm.trans htext')
      exact hshifted

/-- After any run of the commands that write to the tables: a command that creates its
terminal, or an `openedTty`, leaves the live rows and the other pointers alone exactly when
no repair of it falls on a directory that is still there and no prune is noticed. -/
theorem handle_keeps_iff (inputs : List StoreInput) (env : Surroundings) (verb : Verb)
    (command : Json) (tty : Int) (htty : ttyArgument command = .ok (.inr tty))
    (hruns : CreatesOrOpens env verb tty (storeRun TerminalState.initial inputs)) :
    Keeps (fun path => env.is_directory path = .ok true) tty
        (storeRun TerminalState.initial inputs).db
        (handle env verb command (storeRun TerminalState.initial inputs)).2.db ↔
      Harmless env verb command tty (storeRun TerminalState.initial inputs) := by
  have hrec := storeRun_recorded (s := TerminalState.initial) Recorded.empty inputs
  generalize storeRun TerminalState.initial inputs = s at hrec hruns ⊢
  have hisolated := handle_isolated_iff hrec env verb command tty htty
  unfold Harmless
  by_cases hupdate : verb = .updateDirHistory ∧ Prunes env command s.db
  · obtain ⟨rfl, hprunes⟩ := hupdate
    have hnone : getInstanceByTTY env s tty = none := by
      rcases hruns with hopens | hcreates
      · contradiction
      · exact hcreates.2
    simp only [hprunes, and_self, true_implies, not_true_eq_false, false_implies, and_true]
    exact updateDirHistory_keeps_iff hrec htty hnone hprunes
  · have hzero : dropped env verb command tty s = 0 := by
      rcases hruns with rfl | ⟨-, hnone⟩
      · exact dropped_eq_zero (by decide)
      · by_cases hverb : verb = .updateDirHistory
        · subst hverb
          exact dropped_eq_zero_of_not_prunes hrec hnone fun h => hupdate ⟨rfl, h⟩
        · exact dropped_eq_zero hverb
    rw [hzero, isolated_zero_iff hrec] at hisolated
    simp only [hupdate, false_implies, not_false_eq_true, true_implies, true_and]
    exact hisolated

end

/-! ## A directory overwritten -/

def ttyCommand (tty : Int) : Json := .object [(TTY_KEY, .number_integer tty)]

def pwdCommand (tty : Int) (pwd : String) : Json :=
  .object [(TTY_KEY, .number_integer tty), (PWD_KEY, .string pwd)]

/-- A filesystem with the given directories and nothing unreadable. -/
def surroundingsWith (directories : List String) : Surroundings where
  is_directory := fun path => .ok (decide (path ∈ directories))
  freedTty := fun _ => 0

/-- The last-touched row is the default one, which is deleted; the row above it
is of a directory that is still there. -/
def defaultDeleted : List StoreInput :=
  [.terminal (.command .openedTty (ttyCommand 1) (surroundingsWith [defaultDir, "/a/"])),
    .terminal (.command .updateDirHistory (pwdCommand 1 "/a")
      (surroundingsWith [defaultDir, "/a/"])),
    .terminal (.command .cdBackward (ttyCommand 1) (surroundingsWith [defaultDir, "/a/"])),
    .terminal (.command .updateDirHistory (pwdCommand 1 "/opt/automateLinux")
      (surroundingsWith [defaultDir, "/a/"]))]

/-- The same history while the default directory is there: the other terminal starts with an
update, which appends a third row. -/
theorem secondTerminal_isolated :
    Keeps (fun path => (surroundingsWith [defaultDir, "/a/"]).is_directory path = .ok true) 2
      (storeRun TerminalState.initial defaultDeleted).db
      (handle (surroundingsWith [defaultDir, "/a/"]) .updateDirHistory (pwdCommand 2 "/b")
        (storeRun TerminalState.initial defaultDeleted)).2.db := by
  refine (handle_keeps_iff defaultDeleted _ .updateDirHistory (pwdCommand 2 "/b") 2 (by rfl)
    (Or.inr ⟨by decide, by decide +kernel⟩)).mpr ⟨?_, fun _ => ⟨fun _ _ hnone => ?_, ?_⟩⟩
  · rintro ⟨-, hfull, -⟩
    exact absurd hfull (by decide +kernel)
  · exact absurd (hnone 0 (by decide) (by decide +kernel)) (by decide +kernel)
  · exact fun hopened => by contradiction

theorem secondTerminal_not_isolated :
    ¬ Keeps (fun path => (surroundingsWith ["/a/"]).is_directory path = .ok true) 2
      (storeRun TerminalState.initial defaultDeleted).db
      (handle (surroundingsWith ["/a/"]) .openedTty (ttyCommand 2)
        (storeRun TerminalState.initial defaultDeleted)).2.db := by
  intro hkeeps
  have hrow : (storeRun TerminalState.initial defaultDeleted).db.terminal_history.get? 1 =
      some "/a/" := by decide +kernel
  have hafter := hkeeps.rows 1 "/a/" hrow (by decide +kernel)
  revert hafter
  decide +kernel

end Terminal

end AutomateLinux
