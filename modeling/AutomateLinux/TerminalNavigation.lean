import AutomateLinux.StopSearch
import AutomateLinux.TerminalPrompts

/-!
# Walking through the history

`cdForward` and `cdBackward` go to the next row, up or down, whose directory can
be entered.  Called again and again they go through all such rows, except where
the check of a row throws: the search is given up there each time, and the rows
behind it are out of reach.
-/

namespace AutomateLinux

open TerminalTable SettingsTable StopSearch

namespace Terminal

/-- The test both searches make of a row. -/
def checkRow (env : Surroundings) (db : Database) (i : Int) : Except Exn Bool :=
  isUsable env (standardizePath (getHistory db i))

/-- A row whose path is not the root and whose directory exists. -/
structure IsStop (env : Surroundings) (db : Database) (i : Int) : Prop where
  row : i ∈ db.terminal_history.keys
  ne_root : standardizePath (getHistory db i) ≠ "/"
  directory : env.is_directory (standardizePath (getHistory db i)) = .ok true

/-- A row for which `is_directory` throws. -/
structure Throws (env : Surroundings) (db : Database) (i : Int) : Prop where
  row : i ∈ db.terminal_history.keys
  ne_root : standardizePath (getHistory db i) ≠ "/"
  throws : ∃ e, env.is_directory (standardizePath (getHistory db i)) = .error e

/-- `start, start + 1, …`, as the loop of `_cdForward` counts. -/
def positionsFrom : Int → ℕ → List Int
  | _, 0 => []
  | start, count + 1 => start :: positionsFrom (start + 1) count

/-- `n - 1, …, 0`, as the loop of `_cdBackward` counts. -/
def positionsBelow : ℕ → List Int
  | 0 => []
  | n + 1 => (n : Int) :: positionsBelow n

/-- The rows `_cdForward` may look at from the pointer `p`. -/
def rowsAbove (db : Database) (p : Int) : List Int :=
  positionsFrom (p + 1) (getMaxHistoryIndex db - p).toNat

def rowsBelow (_ : Database) (p : Int) : List Int := positionsBelow p.toNat

section

variable {env : Surroundings} {db : Database} {tty p i : Int}

theorem mem_positionsFrom {start : Int} {count : ℕ} :
    i ∈ positionsFrom start count ↔ start ≤ i ∧ i < start + count := by
  induction count generalizing start with
  | zero =>
      simp only [positionsFrom, List.not_mem_nil, false_iff]
      omega
  | succ count ih =>
      simp only [positionsFrom, List.mem_cons, ih]
      omega

theorem mem_positionsBelow {n : ℕ} : i ∈ positionsBelow n ↔ 0 ≤ i ∧ i < n := by
  induction n with
  | zero =>
      simp only [positionsBelow, List.not_mem_nil, false_iff]
      omega
  | succ n ih =>
      simp only [positionsBelow, List.mem_cons, ih]
      omega

theorem pairwise_positionsFrom (start : Int) (count : ℕ) :
    (positionsFrom start count).Pairwise (· < ·) := by
  induction count generalizing start with
  | zero => exact List.Pairwise.nil
  | succ count ih =>
      refine List.pairwise_cons.mpr ⟨fun j hj => ?_, ih (start + 1)⟩
      have hle := (mem_positionsFrom.mp hj).1
      omega

theorem pairwise_positionsBelow (n : ℕ) : (positionsBelow n).Pairwise (· > ·) := by
  induction n with
  | zero => exact List.Pairwise.nil
  | succ n ih =>
      refine List.pairwise_cons.mpr ⟨fun j hj => ?_, ih⟩
      exact (mem_positionsBelow.mp hj).2

theorem isUsable_eq_error_iff {dir : String} {e : Exn} :
    isUsable env dir = .error e ↔
      dir ≠ "" ∧ dir ≠ "/" ∧ env.is_directory dir = .error e := by
  unfold isUsable
  by_cases h : dir ≠ "" ∧ dir ≠ "/"
  · rw [if_pos h]
    tauto
  · rw [if_neg h]
    simp only [reduceCtorEq, false_iff]
    tauto

theorem mem_keys_of_ne_root (hroot : standardizePath (getHistory db i) ≠ "/") :
    i ∈ db.terminal_history.keys := by
  rw [OrderedMap.mem_keys_iff]
  cases hget : db.terminal_history.get? i with
  | some path => exact ⟨path, rfl⟩
  | none => exact absurd (by rw [getHistory, hget]; decide) hroot

theorem accepts_checkRow : StopSearch.accepts (checkRow env db) i = true ↔ IsStop env db i := by
  have hcheck : StopSearch.accepts (checkRow env db) i = true ↔ checkRow env db i = .ok true := by
    unfold StopSearch.accepts
    cases checkRow env db i <;> simp
  rw [hcheck, checkRow, isUsable_eq_true_iff]
  constructor
  · rintro ⟨-, hroot, hdir⟩
    exact ⟨mem_keys_of_ne_root hroot, hroot, hdir⟩
  · rintro ⟨-, hroot, hdir⟩
    exact ⟨standardizePath_ne_empty _, hroot, hdir⟩

theorem fails_checkRow : fails (checkRow env db) i = true ↔ Throws env db i := by
  have hcheck : fails (checkRow env db) i = true ↔ ∃ e, checkRow env db i = .error e := by
    unfold fails
    cases checkRow env db i <;> simp
  rw [hcheck]
  simp only [checkRow, isUsable_eq_error_iff]
  constructor
  · rintro ⟨e, -, hroot, hdir⟩
    exact ⟨mem_keys_of_ne_root hroot, hroot, e, hdir⟩
  · rintro ⟨-, hroot, e, hdir⟩
    exact ⟨e, standardizePath_ne_empty _, hroot, hdir⟩

/-! ## One navigation -/

theorem next_positionsFrom (env : Surroundings) (entry : Int → String) (start : Int) (count : ℕ) :
    next (fun i => isUsable env (entry i)) (positionsFrom start count) =
      match walkForward env entry count start with
      | .ok (some (i, _)) => some (i, positionsFrom (i + 1) (start + count - (i + 1)).toNat)
      | _ => none := by
  induction count generalizing start with
  | zero => rfl
  | succ count ih =>
      rw [positionsFrom, next, walkForward]
      cases hcheck : isUsable env (entry start) with
      | error e => rfl
      | ok verdict =>
          cases verdict with
          | true =>
              have hcount : (start + ((count + 1 : ℕ) : Int) - (start + 1)).toNat = count := by
                omega
              simp only [hcount]
          | false =>
              have hcount : start + ((count + 1 : ℕ) : Int) = start + 1 + count := by omega
              simp only [ih, hcount]

theorem next_positionsBelow (env : Surroundings) (entry : Int → String) (n : ℕ) :
    next (fun i => isUsable env (entry i)) (positionsBelow n) =
      match walkBackward env entry n with
      | .ok (some (i, _)) => some (i, positionsBelow i.toNat)
      | _ => none := by
  induction n with
  | zero => rfl
  | succ n ih =>
      rw [positionsBelow, next, walkBackward]
      cases hcheck : isUsable env (entry n) with
      | error e => rfl
      | ok verdict =>
          cases verdict with
          | true => simp
          | false => exact ih

/-- A navigation moves the pointer to the next stop among some rows, which then has
the rows behind that stop before it. -/
structure Navigates (env : Surroundings) (tty : Int) (navigate : Database → Database)
    (rows : Database → Int → List Int) : Prop where
  step : ∀ db, navigate db =
    match next (checkRow env db) (rows db (getIndex db tty)) with
    | none => db
    | some (i, _) => setSessionPointer db tty i
  rest : ∀ db i rest, next (checkRow env db) (rows db (getIndex db tty)) = some (i, rest) →
    0 ≤ i ∧ rest = rows (setSessionPointer db tty i) i

def forwardStep (env : Surroundings) (tty : Int) (db : Database) : Database :=
  (_cdForward env tty db).2

def backwardStep (env : Surroundings) (tty : Int) (db : Database) : Database :=
  (_cdBackward env tty db).2

theorem navigates_forwardStep (env : Surroundings) (tty : Int) :
    Navigates env tty (forwardStep env tty) rowsAbove where
  step := by
    intro db
    have hnext := next_positionsFrom env (fun i => standardizePath (getHistory db i))
      (getIndex db tty + 1) (getMaxHistoryIndex db - getIndex db tty).toNat
    unfold checkRow rowsAbove
    rw [hnext]
    unfold forwardStep _cdForward
    dsimp only
    rcases walkForward env (fun i => standardizePath (getHistory db i))
      (getMaxHistoryIndex db - getIndex db tty).toNat (getIndex db tty + 1)
      with e | (_ | ⟨i, dir⟩) <;> rfl
  rest := by
    intro db i rest hrest
    have hnonneg := getIndex_nonneg db tty
    have hnext := next_positionsFrom env (fun i => standardizePath (getHistory db i))
      (getIndex db tty + 1) (getMaxHistoryIndex db - getIndex db tty).toNat
    unfold checkRow rowsAbove at hrest
    rw [hnext] at hrest
    rcases hwalk : walkForward env (fun i => standardizePath (getHistory db i))
      (getMaxHistoryIndex db - getIndex db tty).toNat (getIndex db tty + 1)
      with e | (_ | ⟨j, dir⟩) <;> rw [hwalk] at hrest
    · contradiction
    · contradiction
    · obtain ⟨hle, hlt, -, -⟩ := walkForward_eq_some hwalk
      obtain ⟨rfl, rfl⟩ := Prod.mk.inj (Option.some.inj hrest)
      refine ⟨by omega, ?_⟩
      have hmax : getMaxHistoryIndex (setSessionPointer db tty j) = getMaxHistoryIndex db := rfl
      rw [rowsAbove, hmax]
      congr 1
      omega

theorem navigates_backwardStep (env : Surroundings) (tty : Int) :
    Navigates env tty (backwardStep env tty) rowsBelow where
  step := by
    intro db
    have hnext := next_positionsBelow env (fun i => standardizePath (getHistory db i))
      (getIndex db tty).toNat
    unfold checkRow rowsBelow
    rw [hnext]
    unfold backwardStep _cdBackward
    rcases walkBackward env (fun i => standardizePath (getHistory db i))
      (getIndex db tty).toNat with e | (_ | ⟨i, dir⟩) <;> rfl
  rest := by
    intro db i rest hrest
    have hnext := next_positionsBelow env (fun i => standardizePath (getHistory db i))
      (getIndex db tty).toNat
    unfold checkRow rowsBelow at hrest
    rw [hnext] at hrest
    rcases hwalk : walkBackward env (fun i => standardizePath (getHistory db i))
      (getIndex db tty).toNat with e | (_ | ⟨j, dir⟩) <;> rw [hwalk] at hrest
    · contradiction
    · contradiction
    · obtain ⟨hnonneg, -⟩ := walkBackward_eq_some hwalk
      obtain ⟨rfl, rfl⟩ := Prod.mk.inj (Option.some.inj hrest)
      exact ⟨hnonneg, rfl⟩

/-! ## Navigation after navigation -/

theorem Navigates.getIndex_iterate {navigate : Database → Database}
    {rows : Database → Int → List Int} (hnavigates : Navigates env tty navigate rows) (k : ℕ)
    (db : Database) :
    getIndex (navigate^[k] db) tty =
      walk (checkRow env db) k (getIndex db tty) (rows db (getIndex db tty)) := by
  induction k generalizing db with
  | zero => rfl
  | succ k ih =>
      rw [Function.iterate_succ_apply, ih]
      have hstep := hnavigates.step db
      cases hnext : next (checkRow env db) (rows db (getIndex db tty)) with
      | none =>
          rw [hnext] at hstep
          rw [hstep, walk_of_next_eq_none hnext, walk_of_next_eq_none hnext]
      | some stop =>
          obtain ⟨i, rest⟩ := stop
          obtain ⟨hnonneg, hrest⟩ := hnavigates.rest db i rest hnext
          rw [hnext] at hstep
          rw [hstep, getIndex_setSessionPointer hnonneg, walk, hnext, hrest]
          rfl

/-- Navigating again and again from the pointer goes through exactly the stops on one
side of it, in the order `r` of their distance, and then stays where it is. -/
def VisitsAll (env : Surroundings) (tty : Int) (navigate : Database → Database)
    (r : Int → Int → Prop) (db : Database) : Prop :=
  ∃ stops : List Int, stops.Pairwise r ∧
    (∀ i, i ∈ stops ↔ r (getIndex db tty) i ∧ IsStop env db i) ∧
    ∀ k, (getIndex db tty :: stops)[min k stops.length]? =
      some (getIndex (navigate^[k] db) tty)

/-- No stop lies, seen from `p`, behind a row whose check throws. -/
def NoneBehindThrow (env : Surroundings) (db : Database) (r : Int → Int → Prop) (p : Int) :
    Prop :=
  ∀ i j, r p i → r i j → Throws env db i → ¬ IsStop env db j

theorem pairwise_iff_of_sorted {r : Int → Int → Prop} (hasymm : ∀ a b, r a b → ¬ r b a)
    {rows : List Int} (hsorted : rows.Pairwise r) {q : Int → Int → Prop} :
    rows.Pairwise q ↔ ∀ a ∈ rows, ∀ b ∈ rows, r a b → q a b := by
  constructor
  · intro hpairwise a ha b hb
    have hforth : rows.Pairwise fun a b => r a b → q a b :=
      hpairwise.imp fun {a b} (h : q a b) (_ : r a b) => h
    have hback : rows.Pairwise (flip fun a b => r a b → q a b) :=
      hsorted.imp fun {a b} h hflip => absurd hflip (hasymm a b h)
    exact hforth.forall_of_forall_of_flip
      (fun a _ hself => absurd hself (hasymm a a hself)) hback ha hb
  · intro hall
    exact hsorted.imp_of_mem fun {a b} ha hb h => hall a ha b hb h

theorem Navigates.visitsAll_iff {navigate : Database → Database}
    {rows : Database → Int → List Int} (hnavigates : Navigates env tty navigate rows)
    {r : Int → Int → Prop} (hasymm : ∀ a b, r a b → ¬ r b a)
    (htrans : ∀ a b c, r a b → r b c → r a c)
    (hsorted : (rows db (getIndex db tty)).Pairwise r)
    (hside : ∀ i ∈ rows db (getIndex db tty), r (getIndex db tty) i)
    (hall : ∀ i ∈ db.terminal_history.keys, r (getIndex db tty) i →
      i ∈ rows db (getIndex db tty)) :
    VisitsAll env tty navigate r db ↔ NoneBehindThrow env db r (getIndex db tty) := by
  have hirrefl : Std.Irrefl r := ⟨fun a h => hasymm a a h h⟩
  have hantisymm : Std.Antisymm r := ⟨fun a b h h' => absurd h' (hasymm a b h)⟩
  generalize hp : getIndex db tty = p at hsorted hside hall ⊢
  have hnodup : (p :: rows db p).Nodup :=
    List.nodup_cons.mpr ⟨fun hmem => hasymm p p (hside p hmem) (hside p hmem), hsorted.nodup⟩
  have hstops : ∀ i, i ∈ (rows db p).filter (StopSearch.accepts (checkRow env db)) ↔
      r p i ∧ IsStop env db i := by
    intro i
    rw [List.mem_filter, accepts_checkRow]
    exact ⟨fun h => ⟨hside i h.1, h.2⟩, fun h => ⟨hall i h.2.row h.1, h.2⟩⟩
  have hvisits : VisitsAll env tty navigate r db ↔
      Visits (checkRow env db) p (rows db p)
        ((rows db p).filter (StopSearch.accepts (checkRow env db))) := by
    unfold VisitsAll Visits
    simp only [hnavigates.getIndex_iterate, hp]
    constructor
    · rintro ⟨stops, hpairwise, hmem, hwalk⟩
      have heq := hpairwise.eq_of_mem_iff (hsorted.filter (StopSearch.accepts (checkRow env db)))
        fun i => (hmem i).trans (hstops i).symm
      rwa [heq] at hwalk
    · exact fun hwalk => ⟨_, hsorted.filter _, hstops, hwalk⟩
  rw [hvisits, visits_accepted_iff hnodup, pairwise_iff_of_sorted hasymm hsorted]
  constructor
  · intro hnone i j hi hj hthrows hstop
    have hrefused := hnone i (hall i hthrows.row hi) j
      (hall j hstop.row (htrans p i j hi hj)) hj (fails_checkRow.mpr hthrows)
    rw [accepts_checkRow.mpr hstop] at hrefused
    contradiction
  · intro hnone i hi j hj hij hthrows
    have hnot := hnone i j (hside i hi) hij (fails_checkRow.mp hthrows)
    rwa [← accepts_checkRow, Bool.not_eq_true] at hnot

/-! ### There and back -/

/-- A navigation and one the other way return to the entry they started from. -/
def Returns (env : Surroundings) (tty : Int) (navigate back : Database → Database)
    (db : Database) : Prop :=
  getIndex (navigate db) tty ≠ getIndex db tty → IsStop env db (getIndex db tty) →
    getIndex (back (navigate db)) tty = getIndex db tty

theorem IsStop.checkRow_eq (hstop : IsStop env db i) : checkRow env db i = .ok true :=
  isUsable_eq_true_iff.mpr ⟨standardizePath_ne_empty _, hstop.ne_root, hstop.directory⟩

theorem Navigates.returns {navigate back : Database → Database}
    {rows rows' : Database → Int → List Int} (hnavigates : Navigates env tty navigate rows)
    (hback : Navigates env tty back rows') {r : Int → Int → Prop}
    (hasymm : ∀ a b, r a b → ¬ r b a)
    (hsorted : (rows db (getIndex db tty)).Pairwise r)
    (hsorted' : ∀ j, (rows' (setSessionPointer db tty j) j).Pairwise (flip r))
    (hstart : ∀ j ∈ rows db (getIndex db tty),
      getIndex db tty ∈ db.terminal_history.keys →
      getIndex db tty ∈ rows' (setSessionPointer db tty j) j)
    (hbetween : ∀ j ∈ rows db (getIndex db tty), ∀ b ∈ rows' (setSessionPointer db tty j) j,
      r (getIndex db tty) b → b ∈ rows db (getIndex db tty) ∧ r b j) :
    Returns env tty navigate back db := by
  intro hmoves hstop
  have hstep := hnavigates.step db
  cases hnext : next (checkRow env db) (rows db (getIndex db tty)) with
  | none =>
      rw [hnext] at hstep
      exact absurd (by rw [hstep]) hmoves
  | some stop =>
      obtain ⟨j, rest⟩ := stop
      obtain ⟨hnonneg, -⟩ := hnavigates.rest db j rest hnext
      rw [hnext] at hstep
      obtain ⟨hj, -, hrefused⟩ := (exists_next_eq_some_iff hasymm hsorted).mp ⟨rest, hnext⟩
      obtain ⟨rest', hreturn⟩ : ∃ rest', next (checkRow env db)
          (rows' (setSessionPointer db tty j) j) = some (getIndex db tty, rest') := by
        refine (exists_next_eq_some_iff (fun a b h h' => hasymm b a h h') (hsorted' j)).mpr
          ⟨hstart j hj hstop.row, hstop.checkRow_eq, fun b hb hbefore => ?_⟩
        obtain ⟨hmem, hlt⟩ := hbetween j hj b hb hbefore
        exact hrefused b hmem hlt
      have hpointer : getIndex (setSessionPointer db tty j) tty = j :=
        getIndex_setSessionPointer hnonneg
      have hstep' := hback.step (setSessionPointer db tty j)
      rw [hpointer] at hstep'
      have hcheck : checkRow env (setSessionPointer db tty j) = checkRow env db := rfl
      rw [hcheck, hreturn] at hstep'
      rw [hstep, hstep']
      exact getIndex_setSessionPointer (getIndex_nonneg db tty)

theorem mem_rowsAbove : i ∈ rowsAbove db p ↔ p < i ∧ i ≤ getMaxHistoryIndex db := by
  rw [rowsAbove, mem_positionsFrom]
  omega

theorem mem_rowsBelow : i ∈ rowsBelow db p ↔ 0 ≤ i ∧ i < p := by
  rw [rowsBelow, mem_positionsBelow]
  omega

theorem returns_forward (env : Surroundings) (tty : Int) (db : Database) :
    Returns env tty (forwardStep env tty) (backwardStep env tty) db := by
  refine (navigates_forwardStep env tty).returns (navigates_backwardStep env tty)
    (r := (· < ·)) (fun a b h h' => lt_asymm h h') (pairwise_positionsFrom _ _)
    (fun j => pairwise_positionsBelow _) (fun j hj _ => ?_) (fun j hj b hb hlt => ?_)
  · exact mem_rowsBelow.mpr ⟨getIndex_nonneg db tty, (mem_rowsAbove.mp hj).1⟩
  · have hmax := (mem_rowsAbove.mp hj).2
    have hbelow := (mem_rowsBelow.mp hb).2
    exact ⟨mem_rowsAbove.mpr ⟨hlt, by omega⟩, hbelow⟩

theorem returns_backward (env : Surroundings) (tty : Int) (db : Database) :
    Returns env tty (backwardStep env tty) (forwardStep env tty) db := by
  refine (navigates_backwardStep env tty).returns (navigates_forwardStep env tty)
    (r := (· > ·)) (fun a b h h' => lt_asymm h' h) (pairwise_positionsBelow _)
    (fun j => pairwise_positionsFrom _ _) (fun j hj hmem => ?_) (fun j hj b hb hlt => ?_)
  · exact mem_rowsAbove.mpr ⟨(mem_rowsBelow.mp hj).2, le_maxIndex hmem⟩
  · have hnonneg := (mem_rowsBelow.mp hj).1
    have habove := (mem_rowsAbove.mp hb).1
    exact ⟨mem_rowsBelow.mpr ⟨by omega, hlt⟩, habove⟩

end

/-- What navigation is to do from the pointer of a tty. -/
structure VisitsEverything (env : Surroundings) (tty : Int) (db : Database) : Prop where
  forward : VisitsAll env tty (forwardStep env tty) (· < ·) db
  backward : VisitsAll env tty (backwardStep env tty) (· > ·) db
  forthAndBack : Returns env tty (forwardStep env tty) (backwardStep env tty) db
  backAndForth : Returns env tty (backwardStep env tty) (forwardStep env tty) db

/-- Navigation visits everything exactly when no directory lies behind a row whose
check throws, on either side of the pointer. -/
theorem visitsEverything_iff (env : Surroundings) (tty : Int) (db : Database)
    (hwf : HistoryWellFormed db) :
    VisitsEverything env tty db ↔
      NoneBehindThrow env db (· < ·) (getIndex db tty) ∧
        NoneBehindThrow env db (· > ·) (getIndex db tty) := by
  obtain ⟨n, -, hdense⟩ := hwf.dense
  have hforward : VisitsAll env tty (forwardStep env tty) (· < ·) db ↔
      NoneBehindThrow env db (· < ·) (getIndex db tty) :=
    (navigates_forwardStep env tty).visitsAll_iff
      (fun a b h h' => lt_asymm h h') (fun a b c h h' => lt_trans h h')
      (pairwise_positionsFrom _ _) (fun i hi => (mem_rowsAbove.mp hi).1)
      (fun i hi hlt => mem_rowsAbove.mpr ⟨hlt, le_maxIndex hi⟩)
  have hbackward : VisitsAll env tty (backwardStep env tty) (· > ·) db ↔
      NoneBehindThrow env db (· > ·) (getIndex db tty) :=
    (navigates_backwardStep env tty).visitsAll_iff
      (fun a b h h' => lt_asymm h' h) (fun a b c h h' => lt_trans h' h)
      (pairwise_positionsBelow _) (fun i hi => (mem_rowsBelow.mp hi).2)
      (fun i hi hlt => mem_rowsBelow.mpr ⟨((hdense.mem_keys i).mp hi).1, hlt⟩)
  rw [← hforward, ← hbackward]
  exact ⟨fun h => ⟨h.forward, h.backward⟩,
    fun h => ⟨h.1, h.2, returns_forward env tty db, returns_backward env tty db⟩⟩

/-- A terminal that has been in two directories. -/
def threeRows : TerminalState :=
  run TerminalState.initial
    [.command .openedTty (ttyCommand 1) (surroundingsWith [defaultDir]),
      .command .updateDirHistory (pwdCommand 1 "/a") (surroundingsWith []),
      .command .updateDirHistory (pwdCommand 1 "/b") (surroundingsWith [])]

theorem threeRows_wellFormed : HistoryWellFormed threeRows.db := by
  obtain ⟨n, hcons⟩ : ∃ n, Consistent threeRows n := Consistent.initial.run _
  exact hcons.wellFormed

theorem threeRows_visitsEverything :
    VisitsEverything (surroundingsWith [defaultDir, "/b/"]) 1 threeRows.db := by
  have hnever : ∀ i, ¬ Throws (surroundingsWith [defaultDir, "/b/"]) threeRows.db i := by
    rintro i ⟨-, -, e, herror⟩
    contradiction
  exact (visitsEverything_iff (surroundingsWith [defaultDir, "/b/"]) 1 threeRows.db
    threeRows_wellFormed).mpr
    ⟨fun i _ _ _ hthrows => absurd hthrows (hnever i),
      fun i _ _ _ hthrows => absurd hthrows (hnever i)⟩

/-- The directory of the middle row has become a loop of symbolic links. -/
def loopAtMiddle : Surroundings where
  is_directory := fun path =>
    if path = "/a/" then
      .error ⟨"filesystem error: status: Too many levels of symbolic links [/a/]"⟩
    else .ok true
  freedTty := fun _ => 0

theorem loopAtMiddle_not_visitsEverything :
    ¬ ∀ (env : Surroundings) (tty : Int) (db : Database),
      HistoryWellFormed db → VisitsEverything env tty db := by
  intro hall
  obtain ⟨stops, -, hmem, hwalk⟩ :=
    (hall loopAtMiddle 1 threeRows.db threeRows_wellFormed).backward
  have hpointer : getIndex threeRows.db 1 = 2 := by decide +kernel
  have hstuck : getIndex ((backwardStep loopAtMiddle 1)^[1] threeRows.db) 1 = 2 := by
    decide +kernel
  have hfirst : 0 ∈ stops :=
    (hmem 0).mpr ⟨by rw [hpointer]; decide, by decide +kernel, by decide +kernel, by rfl⟩
  have hone := hwalk 1
  rw [hpointer, hstuck] at hone
  cases stops with
  | nil => simp at hfirst
  | cons b rest =>
      obtain rfl : b = 2 := by simpa using hone
      have habove := ((hmem 2).mp List.mem_cons_self).1
      rw [hpointer] at habove
      exact absurd habove (by decide)

end Terminal

end AutomateLinux
