import Mathlib.Data.List.Basic
import Mathlib.Data.List.Sublists

/-!
# Queues whose items are held back by several owners

Items arrive one by one.  In the round of an arrival every owner takes a turn,
in which it may give up what it holds and may then hold back the arriving item.
When the last owner gives up, what it holds is passed on.  At the end of the
round the item is passed on if nobody holds anything, and waits otherwise.

An item that waits is not lost only if some owner still holds it when the queue
empties.  The queue is exact as long as every owner that empties it holds all
that waits; the first time one does not, an item is gone for good.
-/

/-- What the owners hold, in the order in which they held it back, the items that
wait, and the items that were passed on. -/
structure HoldQueue (ι ε : Type*) where
  held : List (ι × ε) := []
  waiting : List ε := []
  passed : List ε := []

namespace HoldQueue

/-- What an owner does in its turn. -/
structure Turn (ι : Type*) where
  owner : ι
  releases : Bool
  withholds : Bool

/-- The turns of all owners and the item that arrives, if it is one of this
queue. -/
structure Round (ι ε : Type*) where
  arrival : Option ε
  turns : List (Turn ι)

variable {ι ε : Type*} [DecidableEq ι]

/-- What is held by others than `i`. -/
def heldByOthers (q : HoldQueue ι ε) (i : ι) : List (ι × ε) :=
  q.held.filter fun entry => entry.1 ≠ i

def heldBy (q : HoldQueue ι ε) (i : ι) : List ε :=
  (q.held.filter fun entry => entry.1 = i).map Prod.snd

def release (q : HoldQueue ι ε) (i : ι) : HoldQueue ι ε :=
  if q.heldByOthers i = [] then
    { held := [], waiting := [], passed := q.passed ++ q.held.map Prod.snd }
  else { q with held := q.heldByOthers i }

omit [DecidableEq ι] in
def withhold (q : HoldQueue ι ε) (i : ι) (arrival : Option ε) : HoldQueue ι ε :=
  { q with held := q.held ++ arrival.toList.map fun e => (i, e) }

def takeTurn (arrival : Option ε) (q : HoldQueue ι ε) (turn : Turn ι) : HoldQueue ι ε :=
  let q := if turn.releases then q.release turn.owner else q
  if turn.withholds then q.withhold turn.owner arrival else q

omit [DecidableEq ι] in
def settle (q : HoldQueue ι ε) : Option ε → HoldQueue ι ε
  | none => q
  | some e =>
      if q.held = [] then { q with passed := q.passed ++ [e] }
      else { q with waiting := q.waiting ++ [e] }

def round (q : HoldQueue ι ε) (r : Round ι ε) : HoldQueue ι ε :=
  (r.turns.foldl (takeTurn r.arrival) q).settle r.arrival

def run (q : HoldQueue ι ε) (rounds : List (Round ι ε)) : HoldQueue ι ε :=
  rounds.foldl round q

omit [DecidableEq ι] in
def arrivals (rounds : List (Round ι ε)) : List ε :=
  rounds.flatMap fun r => r.arrival.toList

/-- If the owner is the last one, it holds all that waits. -/
def Whole (q : HoldQueue ι ε) (i : ι) : Prop :=
  q.heldByOthers i = [] → q.held.map Prod.snd = q.waiting

/-- Every release in a list of turns is whole. -/
def WholeTurns (arrival : Option ε) : HoldQueue ι ε → List (Turn ι) → Prop
  | _, [] => True
  | q, turn :: turns =>
      (turn.releases = true → q.Whole turn.owner) ∧
        WholeTurns arrival (takeTurn arrival q turn) turns

/-- Every release in a run is whole. -/
def WholeRounds : HoldQueue ι ε → List (Round ι ε) → Prop
  | _, [] => True
  | q, r :: rounds => WholeTurns r.arrival q r.turns ∧ WholeRounds (q.round r) rounds

instance [DecidableEq ε] (q : HoldQueue ι ε) (i : ι) : Decidable (q.Whole i) :=
  inferInstanceAs (Decidable (_ → _))

instance decidableWholeTurns [DecidableEq ε] (arrival : Option ε) :
    ∀ (q : HoldQueue ι ε) turns, Decidable (WholeTurns arrival q turns)
  | _, [] => isTrue trivial
  | q, turn :: turns =>
      have := decidableWholeTurns arrival (takeTurn arrival q turn) turns
      inferInstanceAs (Decidable (_ ∧ _))

instance decidableWholeRounds [DecidableEq ε] :
    ∀ (q : HoldQueue ι ε) rounds, Decidable (WholeRounds q rounds)
  | _, [] => isTrue trivial
  | q, r :: rounds =>
      have := decidableWholeRounds (q.round r) rounds
      inferInstanceAs (Decidable (_ ∧ _))

omit [DecidableEq ι] in
/-- No owner takes two turns in a round. -/
def Round.DistinctOwners (r : Round ι ε) : Prop := (r.turns.map Turn.owner).Nodup

section

variable {q : HoldQueue ι ε} {arrival : Option ε} {turn : Turn ι} {turns : List (Turn ι)}

/-! ## What is held fits what waits -/

/-- Within a round, an owner that has yet to take its turn holds items that
wait, and the others may also hold the arriving one. -/
structure Fits (q : HoldQueue ι ε) (arrival : Option ε) (remaining : List ι) : Prop where
  heldBy_sublist : ∀ i, (q.heldBy i).Sublist (q.waiting ++ arrival.toList)
  remaining_sublist : ∀ i ∈ remaining, (q.heldBy i).Sublist q.waiting
  waiting_eq_nil : q.held = [] → q.waiting = []

theorem fits_nil {remaining : List ι} :
    ({} : HoldQueue ι ε).Fits none remaining :=
  ⟨fun _ => List.Sublist.refl _, fun _ _ => List.Sublist.refl _, fun _ => rfl⟩

theorem Fits.begin (hfits : q.Fits none []) (arrival : Option ε) (remaining : List ι) :
    q.Fits arrival remaining where
  heldBy_sublist := fun i =>
    (by simpa using hfits.heldBy_sublist i : (q.heldBy i).Sublist q.waiting).trans
      (List.sublist_append_left _ _)
  remaining_sublist := fun i _ => by simpa using hfits.heldBy_sublist i
  waiting_eq_nil := hfits.waiting_eq_nil

theorem heldBy_release_sublist (i j : ι) :
    ((q.release i).heldBy j).Sublist (if j = i then [] else q.heldBy j) := by
  unfold release
  split
  · exact List.nil_sublist _
  · unfold heldBy heldByOthers
    by_cases hji : j = i
    · subst hji
      simp [List.filter_filter]
    · have hsame : ∀ entry : ι × ε,
          (decide (entry.1 = j) && decide (entry.1 ≠ i)) = decide (entry.1 = j) := by
        intro entry
        by_cases hentry : entry.1 = j
        · simp [hentry, hji]
        · simp [hentry]
      simp only [List.filter_filter, hsame, if_neg hji]
      exact List.Sublist.refl _

theorem Fits.release {i : ι} {remaining : List ι} (hfits : q.Fits arrival remaining) :
    (q.release i).Fits arrival remaining := by
  by_cases hlast : q.heldByOthers i = []
  · have hrelease : q.release i =
        { held := [], waiting := [], passed := q.passed ++ q.held.map Prod.snd } := if_pos hlast
    rw [hrelease]
    exact ⟨fun _ => List.nil_sublist _, fun _ _ => List.nil_sublist _, fun _ => rfl⟩
  · have hrelease : q.release i = { q with held := q.heldByOthers i } := if_neg hlast
    have hwaiting : (q.release i).waiting = q.waiting := by rw [hrelease]
    have hheld : ∀ j, ((q.release i).heldBy j).Sublist (q.heldBy j) := by
      intro j
      refine (heldBy_release_sublist i j).trans ?_
      split
      · exact List.nil_sublist _
      · exact List.Sublist.refl _
    refine ⟨fun j => ?_, fun j hj => ?_, fun hempty => ?_⟩
    · rw [hwaiting]
      exact (hheld j).trans (hfits.heldBy_sublist j)
    · rw [hwaiting]
      exact (hheld j).trans (hfits.remaining_sublist j hj)
    · rw [hrelease] at hempty
      exact absurd hempty hlast

theorem heldBy_withhold (i j : ι) :
    (q.withhold i arrival).heldBy j =
      q.heldBy j ++ if j = i then arrival.toList else [] := by
  unfold heldBy withhold
  rw [List.filter_append, List.map_append]
  by_cases hji : j = i
  · subst hji
    cases arrival <;> simp
  · simp [hji, Ne.symm hji]

theorem Fits.withhold {i : ι} {rest : List ι} (hfits : q.Fits arrival (i :: rest))
    (hi : i ∉ rest) : (q.withhold i arrival).Fits arrival rest where
  heldBy_sublist := by
    intro j
    rw [heldBy_withhold]
    by_cases hji : j = i
    · rw [if_pos hji, hji]
      exact (hfits.remaining_sublist i List.mem_cons_self).append (List.Sublist.refl _)
    · rw [if_neg hji, List.append_nil]
      exact hfits.heldBy_sublist j
  remaining_sublist := by
    intro j hj
    have hji : j ≠ i := fun h => hi (h ▸ hj)
    rw [heldBy_withhold, if_neg hji, List.append_nil]
    exact hfits.remaining_sublist j (List.mem_cons_of_mem i hj)
  waiting_eq_nil := fun hempty =>
    hfits.waiting_eq_nil (List.append_eq_nil_iff.mp hempty).1

theorem Fits.tail {i : ι} {rest : List ι} (hfits : q.Fits arrival (i :: rest)) :
    q.Fits arrival rest :=
  ⟨hfits.heldBy_sublist, fun j hj => hfits.remaining_sublist j (List.mem_cons_of_mem i hj),
    hfits.waiting_eq_nil⟩

theorem Fits.takeTurn {rest : List ι} (hfits : q.Fits arrival (turn.owner :: rest))
    (hturn : turn.owner ∉ rest) : (takeTurn arrival q turn).Fits arrival rest := by
  have hreleased : (if turn.releases then q.release turn.owner else q).Fits arrival
      (turn.owner :: rest) := by
    split
    · exact hfits.release
    · exact hfits
  unfold HoldQueue.takeTurn
  dsimp only
  split
  · exact hreleased.withhold hturn
  · exact hreleased.tail

theorem Fits.settle (hfits : q.Fits arrival []) : (q.settle arrival).Fits none [] := by
  cases arrival with
  | none => exact hfits
  | some e =>
      by_cases hheld : q.held = []
      · have hsettle : q.settle (some e) = { q with passed := q.passed ++ [e] } :=
          if_pos hheld
        rw [hsettle]
        refine ⟨fun i => ?_, fun i hi => absurd hi List.not_mem_nil, hfits.waiting_eq_nil⟩
        simp [heldBy, hheld]
      · have hsettle : q.settle (some e) = { q with waiting := q.waiting ++ [e] } :=
          if_neg hheld
        rw [hsettle]
        refine ⟨fun i => ?_, fun i hi => absurd hi List.not_mem_nil, fun h => absurd h hheld⟩
        rw [Option.toList_none, List.append_nil]
        exact hfits.heldBy_sublist i

/-! ## What arrived is passed on, waits or is lost -/

/-- The items that were passed on, followed by those that wait. -/
def content (q : HoldQueue ι ε) : List ε := q.passed ++ q.waiting

theorem heldBy_of_heldByOthers_eq_nil {i : ι} (hlast : q.heldByOthers i = []) :
    q.held.map Prod.snd = q.heldBy i := by
  have hall : ∀ entry ∈ q.held, decide (entry.1 = i) = true := by
    simpa [heldByOthers, List.filter_eq_nil_iff] using hlast
  unfold heldBy
  rw [List.filter_eq_self.mpr hall]

theorem content_release_of_whole {i : ι} (hwhole : q.Whole i) :
    (q.release i).content = q.content := by
  unfold release
  split
  · rename_i hlast
    simp [content, hwhole hlast]
  · rfl

theorem length_content_release {i : ι} {rest : List ι}
    (hfits : q.Fits arrival (i :: rest)) :
    (q.release i).content.length ≤ q.content.length ∧
      (¬ q.Whole i → (q.release i).content.length < q.content.length) := by
  by_cases hlast : q.heldByOthers i = []
  · have hsublist : (q.held.map Prod.snd).Sublist q.waiting := by
      rw [heldBy_of_heldByOthers_eq_nil hlast]
      exact hfits.remaining_sublist i List.mem_cons_self
    have hcontent : (q.release i).content = q.passed ++ q.held.map Prod.snd := by
      simp [release, hlast, content]
    rw [hcontent]
    simp only [content, List.length_append]
    refine ⟨Nat.add_le_add_left hsublist.length_le _, fun hnot => ?_⟩
    have hne : q.held.map Prod.snd ≠ q.waiting := fun heq => hnot fun _ => heq
    exact Nat.add_lt_add_left
      (lt_of_le_of_ne hsublist.length_le fun hlen => hne (hsublist.eq_of_length hlen)) _
  · have hcontent : (q.release i).content = q.content := by
      simp [release, hlast, content]
    exact ⟨hcontent ▸ le_refl _, fun hnot => absurd (fun h => absurd h hlast) hnot⟩

/-- A turn loses nothing exactly when its release is whole. -/
theorem takeTurn_content {rest : List ι} (hfits : q.Fits arrival (turn.owner :: rest)) :
    ((turn.releases = true → q.Whole turn.owner) →
        (takeTurn arrival q turn).content = q.content) ∧
      (takeTurn arrival q turn).content.length ≤ q.content.length ∧
      (¬ (turn.releases = true → q.Whole turn.owner) →
        (takeTurn arrival q turn).content.length < q.content.length) := by
  have hcontent : (takeTurn arrival q turn).content =
      (if turn.releases then q.release turn.owner else q).content := by
    unfold HoldQueue.takeTurn
    dsimp only
    split <;> rfl
  rw [hcontent]
  by_cases hreleases : turn.releases = true
  · rw [if_pos hreleases]
    obtain ⟨hle, hlt⟩ := length_content_release hfits
    exact ⟨fun hwhole => content_release_of_whole (hwhole hreleases), hle,
      fun hnot => hlt fun hwhole => hnot fun _ => hwhole⟩
  · rw [if_neg hreleases]
    exact ⟨fun _ => rfl, le_refl _, fun hnot => absurd (fun h => absurd h hreleases) hnot⟩

theorem turns_content (hfits : q.Fits arrival (turns.map Turn.owner))
    (howners : (turns.map Turn.owner).Nodup) :
    (turns.foldl (takeTurn arrival) q).Fits arrival [] ∧
      (WholeTurns arrival q turns →
        (turns.foldl (takeTurn arrival) q).content = q.content) ∧
      (turns.foldl (takeTurn arrival) q).content.length ≤ q.content.length ∧
      (¬ WholeTurns arrival q turns →
        (turns.foldl (takeTurn arrival) q).content.length < q.content.length) := by
  induction turns generalizing q with
  | nil => exact ⟨hfits, fun _ => rfl, le_refl _, fun hnot => absurd trivial hnot⟩
  | cons turn turns ih =>
      rw [List.map_cons, List.nodup_cons] at howners
      obtain ⟨hkeep, hle, hlt⟩ := takeTurn_content hfits
      obtain ⟨hfits', hkeep', hle', hlt'⟩ := ih (hfits.takeTurn howners.1) howners.2
      refine ⟨hfits', fun hwhole => (hkeep' hwhole.2).trans (hkeep hwhole.1),
        hle'.trans hle, fun hnot => ?_⟩
      by_cases hturn : turn.releases = true → q.Whole turn.owner
      · exact (hlt' fun hrest => hnot ⟨hturn, hrest⟩).trans_le hle
      · exact hle'.trans_lt (hlt hturn)

omit [DecidableEq ι] in
theorem content_settle (hempty : q.held = [] → q.waiting = []) :
    (q.settle arrival).content = q.content ++ arrival.toList := by
  cases arrival with
  | none => simp [settle]
  | some e =>
      by_cases hheld : q.held = []
      · simp [settle, content, hheld, hempty hheld]
      · simp [settle, content, hheld]

/-- The run rule: a run loses nothing exactly when all its releases are whole,
and what is lost does not come back. -/
theorem run_content {rounds : List (Round ι ε)} (hfits : q.Fits none [])
    (howners : ∀ r ∈ rounds, r.DistinctOwners) :
    (q.run rounds).Fits none [] ∧
      (WholeRounds q rounds → (q.run rounds).content = q.content ++ arrivals rounds) ∧
      (q.run rounds).content.length ≤ q.content.length + (arrivals rounds).length ∧
      (¬ WholeRounds q rounds →
        (q.run rounds).content.length < q.content.length + (arrivals rounds).length) := by
  induction rounds generalizing q with
  | nil =>
      exact ⟨hfits, fun _ => by simp [run, arrivals], by simp [run, arrivals],
        fun hnot => absurd trivial hnot⟩
  | cons r rounds ih =>
      obtain ⟨hturns, hkeep, hle, hlt⟩ := turns_content
        (hfits.begin r.arrival (r.turns.map Turn.owner)) (howners r List.mem_cons_self)
      have hround : (q.round r).content =
          (r.turns.foldl (takeTurn r.arrival) q).content ++ r.arrival.toList :=
        content_settle hturns.waiting_eq_nil
      obtain ⟨hfits', hkeep', hle', hlt'⟩ :=
        ih (q := q.round r) hturns.settle fun r' hr' => howners r' (List.mem_cons_of_mem r hr')
      have hlen : (q.round r).content.length =
          (r.turns.foldl (takeTurn r.arrival) q).content.length + r.arrival.toList.length := by
        rw [hround, List.length_append]
      have harrivals : (arrivals (r :: rounds)).length =
          r.arrival.toList.length + (arrivals rounds).length := by
        simp [arrivals]
      refine ⟨hfits', fun hwhole => ?_, ?_, fun hnot => ?_⟩
      · calc
          (q.run (r :: rounds)).content = (q.round r).content ++ arrivals rounds :=
            hkeep' hwhole.2
          _ = q.content ++ arrivals (r :: rounds) := by
            rw [hround, hkeep hwhole.1, List.append_assoc]
            rfl
      · have hrun : (q.run (r :: rounds)).content.length ≤
            (q.round r).content.length + (arrivals rounds).length := hle'
        omega
      · by_cases hwhole : WholeTurns r.arrival q r.turns
        · have hrun : (q.run (r :: rounds)).content.length <
              (q.round r).content.length + (arrivals rounds).length :=
            hlt' fun hrest => hnot ⟨hwhole, hrest⟩
          omega
        · have hloss := hlt hwhole
          have hrun : (q.run (r :: rounds)).content.length ≤
              (q.round r).content.length + (arrivals rounds).length := hle'
          omega

/-- Over a run from the empty queue back to a queue in which nothing is held,
what is passed on is what arrived exactly when all releases are whole. -/
theorem passed_eq_arrivals_iff {rounds : List (Round ι ε)}
    (howners : ∀ r ∈ rounds, r.DistinctOwners)
    (hheld : (({} : HoldQueue ι ε).run rounds).held = []) :
    (({} : HoldQueue ι ε).run rounds).passed = arrivals rounds ↔
      WholeRounds ({} : HoldQueue ι ε) rounds := by
  obtain ⟨hfits, hkeep, -, hlt⟩ :=
    run_content (q := ({} : HoldQueue ι ε)) fits_nil howners
  have hpassed : (({} : HoldQueue ι ε).run rounds).content =
      (({} : HoldQueue ι ε).run rounds).passed := by
    unfold content
    rw [hfits.waiting_eq_nil hheld, List.append_nil]
  rw [← hpassed]
  constructor
  · intro heq
    by_contra hnot
    have hloss := hlt hnot
    rw [heq] at hloss
    simp [content] at hloss
  · intro hwhole
    simpa [content] using hkeep hwhole

/-! ## Who is left holding -/

theorem mem_held_takeTurn {entry : ι × ε} (hentry : entry ∈ q.held)
    (hother : turn.owner ≠ entry.1) : entry ∈ (takeTurn arrival q turn).held := by
  have hkept : entry ∈ q.heldByOthers turn.owner :=
    List.mem_filter.mpr ⟨hentry, by simpa using Ne.symm hother⟩
  have hreleased : entry ∈ (if turn.releases then q.release turn.owner else q).held := by
    split
    · unfold release
      rw [if_neg fun h => absurd (h ▸ hkept) List.not_mem_nil]
      exact hkept
    · exact hentry
  unfold HoldQueue.takeTurn
  dsimp only
  split
  · exact List.mem_append_left _ hreleased
  · exact hreleased

/-- What an owner holds stays until its own turn. -/
theorem mem_held_turns {entry : ι × ε} (hentry : entry ∈ q.held)
    (hothers : entry.1 ∉ turns.map Turn.owner) :
    entry ∈ (turns.foldl (takeTurn arrival) q).held := by
  induction turns generalizing q with
  | nil => exact hentry
  | cons turn turns ih =>
      rw [List.map_cons, List.mem_cons, not_or] at hothers
      exact ih (mem_held_takeTurn hentry (Ne.symm hothers.1)) hothers.2

/-- An arriving item that some owner holds back is still held when all turns
are over. -/
theorem held_ne_nil_of_withholds {e : ε} (howners : (turns.map Turn.owner).Nodup)
    (hwithholds : turns.any Turn.withholds = true) :
    (turns.foldl (takeTurn (some e)) q).held ≠ [] := by
  induction turns generalizing q with
  | nil => simp at hwithholds
  | cons turn turns ih =>
      rw [List.map_cons, List.nodup_cons] at howners
      by_cases hturn : turn.withholds = true
      · have hmem : (turn.owner, e) ∈ (takeTurn (some e) q turn).held := by
          simp [HoldQueue.takeTurn, hturn, withhold]
        rw [List.foldl_cons]
        exact List.ne_nil_of_mem (mem_held_turns hmem howners.1)
      · refine ih howners.2 ?_
        simpa [hturn] using hwithholds

end

end HoldQueue
