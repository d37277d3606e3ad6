import Mathlib.Data.List.Basic
import Mathlib.Order.Lattice

/-!
# Lists regrouped by key

A container that files items under keys gives them back key by key, those of one
key in the order in which they came.  Nothing is lost or added by that, but the
items come back in the order in which they went in only if their keys came in
ascending order.
-/

namespace RegroupedList

variable {α κ : Type*} [LinearOrder κ] {key : α → κ} {xs ys : List α}

/-- Under every key the two lists have the same items in the same order. -/
def SameByKey (key : α → κ) (xs ys : List α) : Prop :=
  ∀ k, xs.filter (fun x => key x = k) = ys.filter (fun x => key x = k)

def Ascending (key : α → κ) (xs : List α) : Prop :=
  xs.Pairwise fun x y => key x ≤ key y

instance (key : α → κ) (xs : List α) : Decidable (Ascending key xs) :=
  inferInstanceAs (Decidable (xs.Pairwise fun x y => key x ≤ key y))

theorem SameByKey.symm (hsame : SameByKey key xs ys) : SameByKey key ys xs :=
  fun k => (hsame k).symm

theorem SameByKey.mem_iff (hsame : SameByKey key xs ys) (x : α) : x ∈ xs ↔ x ∈ ys := by
  have hown : ∀ zs : List α, x ∈ zs ↔ x ∈ zs.filter fun z => key z = key x := by
    intro zs
    simp
  rw [hown xs, hown ys, hsame (key x)]

theorem SameByKey.length_eq (hsame : SameByKey key xs ys) : xs.length = ys.length := by
  classical
  refine List.Perm.length_eq (List.perm_iff_count.mpr fun x => ?_)
  have hown : ∀ zs : List α, zs.count x = (zs.filter fun z => key z = key x).count x := by
    intro zs
    rw [List.count_filter (by simp)]
  rw [hown xs, hown ys, hsame (key x)]

theorem SameByKey.of_cons {x : α} (hsame : SameByKey key (x :: xs) (x :: ys)) :
    SameByKey key xs ys := by
  intro k
  have hk := hsame k
  rw [List.filter_cons, List.filter_cons] at hk
  split at hk
  · exact (List.cons.inj hk).2
  · exact hk

/-- Where every key of the list is at least that of its first item, no item of
that key is in front of it in the other list either. -/
theorem SameByKey.head_le {x y : α} (hsame : SameByKey key (x :: xs) (y :: ys))
    (hascending : Ascending key (y :: ys)) : key y ≤ key x := by
  rcases List.mem_cons.mp ((hsame.mem_iff x).mp List.mem_cons_self) with rfl | hmem
  · exact le_rfl
  · exact (List.pairwise_cons.mp hascending).1 x hmem

theorem SameByKey.eq_of_ascending (hsame : SameByKey key xs ys) (hxs : Ascending key xs)
    (hys : Ascending key ys) : xs = ys := by
  induction xs generalizing ys with
  | nil => exact (List.length_eq_zero_iff.mp hsame.length_eq.symm).symm
  | cons x xs ih =>
      cases ys with
      | nil => exact absurd hsame.length_eq (by simp)
      | cons y ys =>
          have hkey : key x = key y :=
            le_antisymm (hsame.symm.head_le hxs) (hsame.head_le hys)
          have hfirst := hsame (key x)
          rw [List.filter_cons, List.filter_cons, if_pos (by simp),
            if_pos (by simp [hkey])] at hfirst
          obtain rfl : x = y := (List.cons.inj hfirst).1
          rw [ih hsame.of_cons hxs.tail hys.tail]

/-- A list in key order is the list it regroups exactly when that one is in key
order too. -/
theorem SameByKey.eq_iff_ascending (hsame : SameByKey key xs ys) (hxs : Ascending key xs) :
    xs = ys ↔ Ascending key ys :=
  ⟨fun heq => heq ▸ hxs, hsame.eq_of_ascending hxs⟩

end RegroupedList
