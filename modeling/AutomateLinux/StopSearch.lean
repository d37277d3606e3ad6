import Mathlib.Data.List.Nodup
import Mathlib.Data.Nat.Notation

/-!
# Walks that stop at the next accepted position

A walk goes along a list of positions from stop to stop.  Each search tests the
positions one after the other: it passes those that are refused, ends at the
first that is accepted, and is given up at a test that fails, so that the walk
stays where it is.  A walk therefore reaches every accepted position exactly
when none of them lies behind a failing test.
-/

namespace StopSearch

variable {α ε : Type*} (check : α → Except ε Bool)

def accepts (a : α) : Bool :=
  match check a with
  | .ok verdict => verdict
  | .error _ => false

def fails (a : α) : Bool :=
  match check a with
  | .ok _ => false
  | .error _ => true

/-- The next stop and the positions behind it. -/
def next : List α → Option (α × List α)
  | [] => none
  | a :: rest =>
      match check a with
      | .error _ => none
      | .ok true => some (a, rest)
      | .ok false => next rest

/-- Where a walk from `p` is after a number of searches. -/
def walk : ℕ → α → List α → α
  | 0, p, _ => p
  | k + 1, p, positions =>
      match next check positions with
      | none => p
      | some (a, rest) => walk k a rest

/-- The walk from `p` goes through the stops in their order and stays at the last. -/
def Visits (p : α) (positions stops : List α) : Prop :=
  ∀ k, (p :: stops)[min k stops.length]? = some (walk check k p positions)

variable {check}

theorem walk_of_next_eq_none {p : α} {positions : List α}
    (hnone : next check positions = none) (k : ℕ) : walk check k p positions = p := by
  cases k with
  | zero => rfl
  | succ k => rw [walk, hnone]

theorem walk_congr {p : α} {positions positions' : List α}
    (hnext : next check positions = next check positions') (k : ℕ) :
    walk check k p positions = walk check k p positions' := by
  cases k with
  | zero => rfl
  | succ k => rw [walk, walk, hnext]

theorem visits_nil_iff {p : α} {positions : List α} :
    Visits check p positions [] ↔ ∀ k, walk check k p positions = p := by
  simp [Visits, eq_comm]

theorem visits_cons_iff {p a : α} {positions rest stops : List α}
    (hnext : next check positions = some (a, rest)) :
    Visits check p positions (a :: stops) ↔ Visits check a rest stops := by
  have hstep : ∀ k, walk check (k + 1) p positions = walk check k a rest := by
    intro k
    rw [walk, hnext]
  have hindex : ∀ k, (p :: a :: stops)[min (k + 1) (a :: stops).length]? =
      (a :: stops)[min k stops.length]? := by
    intro k
    rw [List.length_cons, Nat.add_min_add_right, List.getElem?_cons_succ]
  constructor
  · intro hvisits k
    rw [← hindex, hvisits, hstep]
  · intro hvisits k
    cases k with
    | zero => rw [Nat.zero_min, List.getElem?_cons_zero, walk]
    | succ k => rw [hindex, hvisits, hstep]

/-- The walk reaches all that is accepted exactly when nothing accepted comes after
a test that fails. -/
theorem visits_accepted_iff {p : α} {positions : List α} (hnodup : (p :: positions).Nodup) :
    Visits check p positions (positions.filter (accepts check)) ↔
      positions.Pairwise fun a b => fails check a = true → accepts check b = false := by
  induction positions generalizing p with
  | nil =>
      rw [List.filter_nil, visits_nil_iff]
      exact iff_of_true (walk_of_next_eq_none rfl) List.Pairwise.nil
  | cons a rest ih =>
      obtain ⟨hp, hrest⟩ := List.nodup_cons.mp hnodup
      rw [List.pairwise_cons]
      cases hcheck : check a with
      | error e =>
          have hnext : next check (a :: rest) = none := by rw [next, hcheck]
          have hrefused : ¬ accepts check a = true := by simp [accepts, hcheck]
          have hfails : fails check a = true := by simp [fails, hcheck]
          rw [List.filter_cons_of_neg hrefused]
          constructor
          · intro hvisits
            have hone := hvisits 1
            rw [walk_of_next_eq_none hnext] at hone
            have hnone : rest.filter (accepts check) = [] := by
              cases hfilter : rest.filter (accepts check) with
              | nil => rfl
              | cons b stops =>
                  rw [hfilter] at hone
                  obtain rfl : b = p := by simpa using hone
                  have hmem : b ∈ rest := (List.mem_filter.mp (hfilter ▸ List.mem_cons_self)).1
                  exact absurd (List.mem_cons_of_mem a hmem) hp
            have hall : ∀ b ∈ rest, accepts check b = false := by
              simpa using hnone
            exact ⟨fun b hb _ => hall b hb,
              List.pairwise_of_forall_mem_list fun _ _ b hb _ => hall b hb⟩
          · rintro ⟨hall, -⟩
            have hnone : rest.filter (accepts check) = [] :=
              List.filter_eq_nil_iff.mpr fun b hb => by simp [hall b hb hfails]
            rw [hnone, visits_nil_iff]
            exact walk_of_next_eq_none hnext
      | ok verdict =>
          have hfails : fails check a = false := by simp [fails, hcheck]
          cases verdict with
          | true =>
              have hnext : next check (a :: rest) = some (a, rest) := by rw [next, hcheck]
              have haccepted : accepts check a = true := by simp [accepts, hcheck]
              rw [List.filter_cons_of_pos haccepted, visits_cons_iff hnext, ih hrest]
              simp [hfails]
          | false =>
              have hnext : next check (a :: rest) = next check rest := by rw [next, hcheck]
              have hrefused : ¬ accepts check a = true := by simp [accepts, hcheck]
              have hp' : (p :: rest).Nodup :=
                List.nodup_cons.mpr ⟨fun hmem => hp (List.mem_cons_of_mem a hmem),
                  (List.nodup_cons.mp hrest).2⟩
              have hsame : Visits check p (a :: rest) (rest.filter (accepts check)) ↔
                  Visits check p rest (rest.filter (accepts check)) := by
                unfold Visits
                simp only [walk_congr hnext]
              rw [List.filter_cons_of_neg hrefused, hsame, ih hp']
              simp [hfails]

/-- Among sorted positions the next stop is the accepted one with all before it
refused. -/
theorem exists_next_eq_some_iff {r : α → α → Prop} (hasymm : ∀ a b, r a b → ¬ r b a)
    {positions : List α} (hsorted : positions.Pairwise r) {a : α} :
    (∃ rest, next check positions = some (a, rest)) ↔
      a ∈ positions ∧ check a = .ok true ∧
        ∀ b ∈ positions, r b a → check b = .ok false := by
  induction positions with
  | nil => simp [next]
  | cons c positions ih =>
      obtain ⟨hfirst, hrest⟩ := List.pairwise_cons.mp hsorted
      rw [next]
      cases hcheck : check c with
      | error e =>
          simp only [reduceCtorEq, exists_false, false_iff]
          rintro ⟨hmem, haccepted, hrefused⟩
          rcases List.mem_cons.mp hmem with rfl | hmem
          · rw [hcheck] at haccepted
            contradiction
          · have hc := hrefused c List.mem_cons_self (hfirst a hmem)
            rw [hcheck] at hc
            contradiction
      | ok verdict =>
          cases verdict with
          | true =>
              simp only [Option.some.injEq, Prod.mk.injEq, exists_and_left, exists_eq', and_true]
              constructor
              · rintro rfl
                refine ⟨List.mem_cons_self, hcheck, fun b hb hbefore => ?_⟩
                rcases List.mem_cons.mp hb with rfl | hb
                · exact absurd hbefore (hasymm b b hbefore)
                · exact absurd hbefore (hasymm c b (hfirst b hb))
              · rintro ⟨hmem, -, hrefused⟩
                rcases List.mem_cons.mp hmem with rfl | hmem
                · rfl
                · have hc := hrefused c List.mem_cons_self (hfirst a hmem)
                  rw [hcheck] at hc
                  simp at hc
          | false =>
              rw [ih hrest]
              constructor
              · rintro ⟨hmem, haccepted, hrefused⟩
                refine ⟨List.mem_cons_of_mem c hmem, haccepted, fun b hb hbefore => ?_⟩
                rcases List.mem_cons.mp hb with rfl | hb
                · exact hcheck
                · exact hrefused b hb hbefore
              · rintro ⟨hmem, haccepted, hrefused⟩
                rcases List.mem_cons.mp hmem with rfl | hmem
                · rw [hcheck] at haccepted
                  simp at haccepted
                · exact ⟨hmem, haccepted, fun b hb => hrefused b (List.mem_cons_of_mem c hb)⟩

end StopSearch
