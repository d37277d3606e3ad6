import Mathlib.Data.List.Sort
import Mathlib.Order.Lattice

/-!
# Sorting with a comparison that may throw

A sorting function of a standard library is known by what it promises only: a
strict weak order sorts, and what a comparison throws leaves the sorting.  No
element can be placed among others without having been compared.
-/

variable {ε α κ : Type}

def Throws (result : Except ε α) : Prop := ∃ e, result = .error e

theorem throws_of_bind {result : Except ε α} (hresult : Throws result)
    (next : α → Except ε κ) : Throws (result >>= next) := by
  obtain ⟨e, rfl⟩ := hresult
  exact ⟨e, rfl⟩

theorem throws_or_ok (result : Except ε α) : Throws result ∨ ∃ a, result = .ok a := by
  cases result with
  | error e => exact .inl ⟨e, rfl⟩
  | ok a => exact .inr ⟨a, rfl⟩

structure ThrowingSort (ε α κ : Type) [LinearOrder κ] where
  sort : (α → α → Except ε Bool) → List α → Except ε (List α)
  few : ∀ less xs, xs.length ≤ 1 → sort less xs = .ok xs
  sorts : ∀ less (key : α → κ) xs,
    (∀ a ∈ xs, ∀ b ∈ xs, less a b = .ok (decide (key a < key b))) →
      ∃ ys, sort less xs = .ok ys ∧ ys.Perm xs ∧ ys.Pairwise fun a b => key a ≤ key b
  throws : ∀ less xs, 2 ≤ xs.length → ∀ a ∈ xs,
    (∀ b, Throws (less a b) ∧ Throws (less b a)) → Throws (sort less xs)

namespace ThrowingSort

/-! ## Insertion sort -/

def insertBy (less : α → α → Except ε Bool) (x : α) : List α → Except ε (List α)
  | [] => .ok [x]
  | y :: ys => do
      if ← less y x then
        let rest ← insertBy less x ys
        return y :: rest
      else return x :: y :: ys

def insertionSort (less : α → α → Except ε Bool) : List α → Except ε (List α)
  | [] => .ok []
  | x :: xs => do
      let sorted ← insertionSort less xs
      insertBy less x sorted

section

variable [LinearOrder κ] {less : α → α → Except ε Bool} {key : α → κ}

theorem insertBy_eq {x : α} {ys : List α}
    (hless : ∀ y ∈ ys, less y x = .ok (decide (key y < key x))) :
    insertBy less x ys = .ok (ys.orderedInsert (fun a b => key a ≤ key b) x) := by
  induction ys with
  | nil => rfl
  | cons y ys ih =>
      have hrest := ih fun z hz => hless z (List.mem_cons_of_mem y hz)
      unfold insertBy
      rw [hless y List.mem_cons_self, hrest, List.orderedInsert_cons]
      by_cases hlt : key y < key x
      · simp [hlt, bind, Except.bind, pure, Except.pure]
      · simp [hlt, not_lt.mp hlt, bind, Except.bind, pure, Except.pure]

theorem insertionSort_eq {xs : List α}
    (hless : ∀ a ∈ xs, ∀ b ∈ xs, less a b = .ok (decide (key a < key b))) :
    insertionSort less xs = .ok (xs.insertionSort fun a b => key a ≤ key b) := by
  induction xs with
  | nil => rfl
  | cons x xs ih =>
      have hrest := ih fun a ha b hb =>
        hless a (List.mem_cons_of_mem x ha) b (List.mem_cons_of_mem x hb)
      unfold insertionSort
      rw [hrest]
      refine insertBy_eq fun y hy => ?_
      have hmem : y ∈ xs := (List.perm_insertionSort _ xs).mem_iff.mp hy
      exact hless y (List.mem_cons_of_mem x hmem) x List.mem_cons_self

end

section

variable {less : α → α → Except ε Bool}

theorem insertBy_perm {x : α} {ys zs : List α} (hinsert : insertBy less x ys = .ok zs) :
    zs.Perm (x :: ys) := by
  induction ys generalizing zs with
  | nil =>
      cases hinsert
      rfl
  | cons y ys ih =>
      unfold insertBy at hinsert
      cases hyx : less y x with
      | error e => simp [hyx, bind, Except.bind] at hinsert
      | ok before =>
          cases before with
          | false =>
              simp only [hyx, bind, Except.bind, pure, Except.pure] at hinsert
              cases hinsert
              rfl
          | true =>
              cases hrest : insertBy less x ys with
              | error e => simp [hyx, hrest, bind, Except.bind] at hinsert
              | ok rest =>
                  simp only [hyx, hrest, bind, Except.bind, pure, Except.pure] at hinsert
                  cases hinsert
                  exact ((ih hrest).cons y).trans (List.Perm.swap x y ys)

theorem insertionSort_perm {xs ys : List α} (hsort : insertionSort less xs = .ok ys) :
    ys.Perm xs := by
  induction xs generalizing ys with
  | nil =>
      cases hsort
      rfl
  | cons x xs ih =>
      unfold insertionSort at hsort
      cases hrest : insertionSort less xs with
      | error e => simp [hrest, bind, Except.bind] at hsort
      | ok sorted =>
          simp only [hrest, bind, Except.bind] at hsort
          exact (insertBy_perm hsort).trans ((ih hrest).cons x)

theorem insertBy_throws {x y : α} {ys : List α} (hyx : Throws (less y x)) :
    Throws (insertBy less x (y :: ys)) :=
  throws_of_bind hyx _

theorem insertionSort_throws {xs : List α} (hlength : 2 ≤ xs.length) {a : α} (ha : a ∈ xs)
    (hthrows : ∀ b, Throws (less a b) ∧ Throws (less b a)) :
    Throws (insertionSort less xs) := by
  induction xs with
  | nil => simp at ha
  | cons x xs ih =>
      unfold insertionSort
      rcases throws_or_ok (insertionSort less xs) with hrest | ⟨sorted, hrest⟩
      · exact throws_of_bind hrest _
      · rw [hrest]
        change Throws (insertBy less x sorted)
        have hperm := insertionSort_perm hrest
        rcases List.mem_cons.mp ha with rfl | hmem
        · cases sorted with
          | nil =>
              have hnil : xs = [] := hperm.symm.eq_nil
              simp [hnil] at hlength
          | cons y ys => exact insertBy_throws (hthrows y).2
        · by_cases hone : 2 ≤ xs.length
          · obtain ⟨e, he⟩ := ih hone hmem
            rw [hrest] at he
            cases he
          · obtain ⟨b, rfl⟩ : ∃ b, xs = [b] := by
              rw [← List.length_eq_one_iff]
              have hpos := List.length_pos_of_mem hmem
              omega
            obtain rfl : a = b := by simpa using hmem
            obtain rfl : sorted = [a] := List.perm_singleton.mp hperm
            exact insertBy_throws (hthrows x).1

end

/-- Insertion sort keeps what a sorting function promises. -/
def insertion (ε α κ : Type) [LinearOrder κ] : ThrowingSort ε α κ where
  sort := insertionSort
  few less xs hlength := by
    match xs with
    | [] => rfl
    | [_] => rfl
    | _ :: _ :: _ => simp at hlength
  sorts less key xs hless :=
    ⟨_, insertionSort_eq hless, List.perm_insertionSort _ xs,
      List.pairwise_insertionSort _ xs⟩
  throws _ _ hlength _ ha hthrows := insertionSort_throws hlength ha hthrows

/-! ## Keys that may be unreadable -/

def lessByKey [LinearOrder κ] (key : α → Except ε κ) (a b : α) : Except ε Bool := do
  let ka ← key a
  let kb ← key b
  return decide (ka < kb)

section

variable [LinearOrder κ] {key : α → Except ε κ}

theorem lessByKey_eq {a b : α} {ka kb : κ} (ha : key a = .ok ka) (hb : key b = .ok kb) :
    lessByKey key a b = .ok (decide (ka < kb)) := by
  unfold lessByKey
  rw [ha, hb]
  rfl

theorem lessByKey_throws {a : α} (ha : Throws (key a)) (b : α) :
    Throws (lessByKey key a b) ∧ Throws (lessByKey key b a) := by
  refine ⟨throws_of_bind ha _, ?_⟩
  rcases throws_or_ok (key b) with hb | ⟨kb, hb⟩
  · exact throws_of_bind hb _
  · unfold lessByKey
    rw [hb]
    exact throws_of_bind ha _

/-- The keys that can be read are in order. -/
def OrderedByKey (key : α → Except ε κ) (xs : List α) : Prop :=
  xs.Pairwise fun a b => ∀ ka kb, key a = .ok ka → key b = .ok kb → ka ≤ kb

theorem orderedByKey_of_length_le_one {xs : List α} (hlength : xs.length ≤ 1) :
    OrderedByKey key xs := by
  match xs with
  | [] => exact List.Pairwise.nil
  | [_] => exact List.pairwise_singleton _ _
  | _ :: _ :: _ => simp at hlength

theorem sort_of_readable (S : ThrowingSort ε α κ) {xs : List α}
    (hreadable : ∀ a ∈ xs, ∃ ka, key a = .ok ka) :
    ∃ ys, S.sort (lessByKey key) xs = .ok ys ∧ ys.Perm xs ∧ OrderedByKey key ys := by
  cases xs with
  | nil => exact ⟨[], S.few _ _ (Nat.zero_le 1), List.Perm.refl _, List.Pairwise.nil⟩
  | cons x xs =>
      obtain ⟨kx, -⟩ := hreadable x List.mem_cons_self
      let total : α → κ := fun a => (key a).toOption.getD kx
      have htotal : ∀ a ka, key a = .ok ka → total a = ka := by
        intro a ka ha
        simp [total, ha, Except.toOption]
      have hless : ∀ a ∈ x :: xs, ∀ b ∈ x :: xs,
          lessByKey key a b = .ok (decide (total a < total b)) := by
        intro a ha b hb
        obtain ⟨ka, hka⟩ := hreadable a ha
        obtain ⟨kb, hkb⟩ := hreadable b hb
        rw [lessByKey_eq hka hkb, htotal a ka hka, htotal b kb hkb]
      obtain ⟨ys, hsort, hperm, hsorted⟩ := S.sorts _ total _ hless
      refine ⟨ys, hsort, hperm, hsorted.imp ?_⟩
      intro a b hab ka kb hka hkb
      rwa [htotal a ka hka, htotal b kb hkb] at hab

theorem sort_throws_of_unreadable (S : ThrowingSort ε α κ) {xs : List α}
    (hlength : 2 ≤ xs.length) {a : α} (ha : a ∈ xs) (hkey : Throws (key a)) :
    Throws (S.sort (lessByKey key) xs) :=
  S.throws _ xs hlength a ha (lessByKey_throws hkey)

/-- Sorting by keys succeeds exactly when no key has to be read or every key can. -/
theorem sort_ok_iff (S : ThrowingSort ε α κ) (xs : List α) :
    (∃ ys, S.sort (lessByKey key) xs = .ok ys) ↔
      xs.length ≤ 1 ∨ ∀ a ∈ xs, ∃ ka, key a = .ok ka := by
  constructor
  · rintro ⟨ys, hsort⟩
    rw [or_iff_not_imp_left]
    intro hlength a ha
    rcases throws_or_ok (key a) with hthrows | hok
    · obtain ⟨e, he⟩ := sort_throws_of_unreadable S (by omega) ha hthrows
      rw [hsort] at he
      cases he
    · exact hok
  · rintro (hlength | hreadable)
    · exact ⟨xs, S.few _ xs hlength⟩
    · obtain ⟨ys, hsort, -⟩ := sort_of_readable S hreadable
      exact ⟨ys, hsort⟩

theorem perm_and_ordered_of_sort (S : ThrowingSort ε α κ) {xs ys : List α}
    (hsort : S.sort (lessByKey key) xs = .ok ys) : ys.Perm xs ∧ OrderedByKey key ys := by
  rcases (sort_ok_iff S xs).mp ⟨ys, hsort⟩ with hlength | hreadable
  · obtain rfl : xs = ys := by simpa [S.few _ xs hlength] using hsort
    exact ⟨List.Perm.refl _, orderedByKey_of_length_le_one hlength⟩
  · obtain ⟨zs, hzs, hperm, hordered⟩ := sort_of_readable S hreadable
    obtain rfl : zs = ys := by simpa [hzs] using hsort
    exact ⟨hperm, hordered⟩

end

end ThrowingSort
