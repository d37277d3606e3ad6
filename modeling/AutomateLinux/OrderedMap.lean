import Mathlib.Order.Monotone.Defs
import Mathlib.Order.Lattice
import Mathlib.Data.List.Basic
import Mathlib.Data.Int.Interval

/-!
# Finite maps kept in key order

A map is the list of its entries with strictly increasing keys, so equal maps
have equal entry lists, iteration goes from the least key to the greatest, and
the first and last rows are the extreme keys.  This is how an ordered standard
container or a table with a primary key presents itself to a program.
-/

/-- A finite map whose entries are listed by strictly increasing key. -/
structure OrderedMap (κ ν : Type*) [LinearOrder κ] where
  entries : List (κ × ν)
  sorted : (entries.map Prod.fst).Pairwise (· < ·)

namespace OrderedMap

variable {κ ν ω : Type*} [LinearOrder κ]

def empty : OrderedMap κ ν := ⟨[], List.Pairwise.nil⟩

def keys (m : OrderedMap κ ν) : List κ := m.entries.map Prod.fst

def get? (m : OrderedMap κ ν) (k : κ) : Option ν := m.entries.lookup k

def size (m : OrderedMap κ ν) : ℕ := m.entries.length

def minKey? (m : OrderedMap κ ν) : Option κ := m.keys.head?

def maxKey? (m : OrderedMap κ ν) : Option κ := m.keys.getLast?

def insertEntry (k : κ) (v : ν) : List (κ × ν) → List (κ × ν)
  | [] => [(k, v)]
  | (k', v') :: rest =>
      if k < k' then (k, v) :: (k', v') :: rest
      else if k = k' then (k, v) :: rest
      else (k', v') :: insertEntry k v rest

theorem mem_keys_insertEntry (k : κ) (v : ν) (rows : List (κ × ν)) (j : κ) :
    j ∈ (insertEntry k v rows).map Prod.fst ↔
      j = k ∨ j ∈ rows.map Prod.fst := by
  induction rows with
  | nil => simp [insertEntry]
  | cons row rest ih =>
      obtain ⟨k', v'⟩ := row
      simp only [insertEntry]
      split
      · simp
      · split
        · rename_i heq
          subst heq
          simp
        · simp only [List.map_cons, List.mem_cons, ih]
          tauto

theorem sorted_insertEntry (k : κ) (v : ν) {rows : List (κ × ν)}
    (hsorted : (rows.map Prod.fst).Pairwise (· < ·)) :
    ((insertEntry k v rows).map Prod.fst).Pairwise (· < ·) := by
  induction rows with
  | nil => simp [insertEntry]
  | cons row rest ih =>
      obtain ⟨k', v'⟩ := row
      simp only [List.map_cons, List.pairwise_cons] at hsorted
      simp only [insertEntry]
      split
      · rename_i hlt
        simp only [List.map_cons, List.pairwise_cons, List.mem_cons]
        refine ⟨?_, hsorted⟩
        rintro j (rfl | hj)
        · exact hlt
        · exact hlt.trans (hsorted.1 j hj)
      · split
        · rename_i heq
          subst heq
          simpa using hsorted
        · rename_i hlt hne
          have hgt : k' < k := lt_of_le_of_ne (not_lt.mp hlt) (Ne.symm hne)
          simp only [List.map_cons, List.pairwise_cons]
          refine ⟨fun j hj => ?_, ih hsorted.2⟩
          rcases (mem_keys_insertEntry k v rest j).mp hj with rfl | hj
          · exact hgt
          · exact hsorted.1 j hj

/-- Insert a row, replacing the row of the same key if there is one. -/
def insert (m : OrderedMap κ ν) (k : κ) (v : ν) : OrderedMap κ ν :=
  ⟨insertEntry k v m.entries, sorted_insertEntry k v m.sorted⟩

/-- Keep the rows whose key satisfies `p`. -/
def filterKeys (m : OrderedMap κ ν) (p : κ → Bool) : OrderedMap κ ν :=
  ⟨m.entries.filter fun row => p row.1,
    m.sorted.sublist (List.filter_sublist.map Prod.fst)⟩

/-- Change every value, keeping the keys. -/
def mapValues (m : OrderedMap κ ν) (f : κ → ν → ω) : OrderedMap κ ω :=
  ⟨m.entries.map fun row => (row.1, f row.1 row.2), by
    simpa [List.map_map, Function.comp_def] using m.sorted⟩

/-- Rename every key by a strictly increasing function, keeping the values. -/
def mapKeys (m : OrderedMap κ ν) (f : κ → κ) (hf : StrictMono f) :
    OrderedMap κ ν :=
  ⟨m.entries.map fun row => (f row.1, row.2), by
    have h := m.sorted.map f fun _ _ hlt => hf hlt
    simpa [List.map_map, Function.comp_def] using h⟩

/-! ## Looking a key up -/

theorem lookup_cons_if (k : κ) (row : κ × ν) (rest : List (κ × ν)) :
    (row :: rest).lookup k = if k = row.1 then some row.2 else rest.lookup k := by
  obtain ⟨k', v'⟩ := row
  by_cases h : k = k'
  · subst h
    simp
  · have hbeq : (k == k') = false := by simpa using h
    simp only [List.lookup_cons, hbeq, if_neg h]

theorem lookup_insertEntry (k : κ) (v : ν) (rows : List (κ × ν)) (j : κ) :
    (insertEntry k v rows).lookup j =
      if j = k then some v else rows.lookup j := by
  induction rows with
  | nil => simp [insertEntry, lookup_cons_if]
  | cons row rest ih =>
      obtain ⟨k', v'⟩ := row
      simp only [insertEntry]
      split
      · simp only [lookup_cons_if]
      · split
        · rename_i heq
          subst heq
          by_cases h : j = k <;> simp [lookup_cons_if, h]
        · rename_i hne
          by_cases h : j = k'
          · subst h
            simp [Ne.symm hne]
          · simp [lookup_cons_if, h, ih]

@[simp] theorem get?_empty (k : κ) : (empty : OrderedMap κ ν).get? k = none :=
  rfl

@[simp] theorem get?_insert (m : OrderedMap κ ν) (k : κ) (v : ν) (j : κ) :
    (m.insert k v).get? j = if j = k then some v else m.get? j :=
  lookup_insertEntry k v m.entries j

theorem lookup_eq_some_iff {rows : List (κ × ν)} {k : κ} {v : ν}
    (hsorted : (rows.map Prod.fst).Pairwise (· < ·)) :
    rows.lookup k = some v ↔ (k, v) ∈ rows := by
  induction rows with
  | nil => simp
  | cons row rest ih =>
      obtain ⟨k', v'⟩ := row
      simp only [List.map_cons, List.pairwise_cons] at hsorted
      by_cases h : k = k'
      · subst h
        have hrest : (k, v) ∉ rest := fun hmem =>
          lt_irrefl k (hsorted.1 k (List.mem_map.mpr ⟨_, hmem, rfl⟩))
        simp [hrest, eq_comm]
      · simp [lookup_cons_if, h, ih hsorted.2]

theorem get?_eq_some_iff {m : OrderedMap κ ν} {k : κ} {v : ν} :
    m.get? k = some v ↔ (k, v) ∈ m.entries :=
  lookup_eq_some_iff m.sorted

theorem mem_keys_iff {m : OrderedMap κ ν} {k : κ} :
    k ∈ m.keys ↔ ∃ v, m.get? k = some v := by
  simp [keys, get?_eq_some_iff]

@[simp] theorem get?_mapValues (m : OrderedMap κ ν) (f : κ → ν → ω) (k : κ) :
    (m.mapValues f).get? k = (m.get? k).map (f k) := by
  obtain ⟨rows, hsorted⟩ := m
  simp only [get?, mapValues]
  clear hsorted
  induction rows with
  | nil => rfl
  | cons row rest ih =>
      by_cases h : k = row.1 <;> simp [lookup_cons_if, h, ih]

@[simp] theorem get?_filterKeys (m : OrderedMap κ ν) (p : κ → Bool) (k : κ) :
    (m.filterKeys p).get? k = if p k then m.get? k else none := by
  obtain ⟨rows, hsorted⟩ := m
  simp only [get?, filterKeys]
  clear hsorted
  induction rows with
  | nil => simp
  | cons row rest ih =>
      rw [List.filter_cons, lookup_cons_if]
      by_cases hkey : k = row.1
      · subst hkey
        by_cases hp : p row.1
        · rw [if_pos hp, lookup_cons_if, if_pos rfl, if_pos hp, if_pos rfl]
        · rw [if_neg hp, ih, if_neg hp, if_neg hp]
      · rw [if_neg hkey, ← ih]
        by_cases hp : p row.1
        · rw [if_pos hp, lookup_cons_if, if_neg hkey]
        · rw [if_neg hp]

theorem get?_mapKeys (m : OrderedMap κ ν) {f : κ → κ} (hf : StrictMono f) (k : κ) :
    (m.mapKeys f hf).get? (f k) = m.get? k := by
  obtain ⟨rows, hsorted⟩ := m
  simp only [get?, mapKeys]
  clear hsorted
  induction rows with
  | nil => simp
  | cons row rest ih =>
      rw [List.map_cons, lookup_cons_if, lookup_cons_if, ih]
      simp only [hf.injective.eq_iff]

theorem flatMap_entries {β : Type*} {m : OrderedMap κ ν} {k : κ} {f : κ × ν → List β}
    (hothers : ∀ row ∈ m.entries, row.1 ≠ k → f row = []) :
    m.entries.flatMap f = ((m.get? k).map fun v => f (k, v)).getD [] := by
  obtain ⟨rows, hsorted⟩ := m
  simp only [get?] at hothers ⊢
  induction rows with
  | nil => rfl
  | cons row rest ih =>
      simp only [List.map_cons, List.pairwise_cons] at hsorted
      rw [List.flatMap_cons, lookup_cons_if]
      by_cases h : k = row.1
      · have hrest : ∀ row' ∈ rest, f row' = [] := by
          intro row' hrow'
          refine hothers row' (List.mem_cons_of_mem row hrow') ?_
          rw [h]
          exact (hsorted.1 row'.1 (List.mem_map.mpr ⟨row', hrow', rfl⟩)).ne'
        rw [if_pos h, h, List.flatMap_eq_nil_iff.mpr hrest]
        simp
      · rw [if_neg h, hothers row List.mem_cons_self (Ne.symm h), List.nil_append]
        exact ih hsorted.2 fun row' hrow' => hothers row' (List.mem_cons_of_mem row hrow')

/-! ## The keys after each operation -/

@[simp] theorem keys_empty : (empty : OrderedMap κ ν).keys = [] := rfl

@[simp] theorem length_keys (m : OrderedMap κ ν) : m.keys.length = m.size := by
  simp [keys, size]

theorem mem_keys_insert {m : OrderedMap κ ν} {k : κ} {v : ν} {j : κ} :
    j ∈ (m.insert k v).keys ↔ j = k ∨ j ∈ m.keys := by
  unfold keys insert
  exact mem_keys_insertEntry k v m.entries j

theorem keys_insert_of_mem {m : OrderedMap κ ν} {k : κ} (v : ν)
    (hmem : k ∈ m.keys) : (m.insert k v).keys = m.keys := by
  obtain ⟨rows, hsorted⟩ := m
  simp only [keys, insert] at hmem ⊢
  induction rows with
  | nil => simp at hmem
  | cons row rest ih =>
      obtain ⟨k', v'⟩ := row
      simp only [List.map_cons, List.pairwise_cons, List.mem_cons]
        at hsorted hmem
      rcases hmem with rfl | hmem
      · simp [insertEntry]
      · have hlt : k' < k := hsorted.1 k hmem
        simp [insertEntry, hlt.not_gt, hlt.ne', ih hsorted.2 hmem]

theorem keys_insert_of_forall_lt {m : OrderedMap κ ν} {k : κ} (v : ν)
    (hlt : ∀ j ∈ m.keys, j < k) : (m.insert k v).keys = m.keys ++ [k] := by
  obtain ⟨rows, hsorted⟩ := m
  simp only [keys, insert] at hlt ⊢
  clear hsorted
  induction rows with
  | nil => simp [insertEntry]
  | cons row rest ih =>
      obtain ⟨k', v'⟩ := row
      have hhead : k' < k := hlt k' (by simp)
      have htail : ∀ j ∈ rest.map Prod.fst, j < k := fun j hj =>
        hlt j (by simp only [List.map_cons, List.mem_cons]; exact Or.inr hj)
      simp [insertEntry, hhead.not_gt, hhead.ne', ih htail]

theorem keys_filterKeys (m : OrderedMap κ ν) (p : κ → Bool) :
    (m.filterKeys p).keys = m.keys.filter p := by
  simp [keys, filterKeys, List.filter_map, Function.comp_def]

theorem keys_mapKeys (m : OrderedMap κ ν) (f : κ → κ) (hf : StrictMono f) :
    (m.mapKeys f hf).keys = m.keys.map f := by
  simp [keys, mapKeys, List.map_map, Function.comp_def]

/-! ## The extreme keys -/

theorem minKey?_eq_some_iff {m : OrderedMap κ ν} {k : κ} :
    m.minKey? = some k ↔ k ∈ m.keys ∧ ∀ j ∈ m.keys, k ≤ j := by
  have hsorted : m.keys.Pairwise (· < ·) := m.sorted
  unfold minKey?
  cases hkeys : m.keys with
  | nil => simp
  | cons first rest =>
      rw [hkeys, List.pairwise_cons] at hsorted
      simp only [List.head?_cons, Option.some.injEq, List.mem_cons]
      constructor
      · rintro rfl
        refine ⟨Or.inl rfl, ?_⟩
        rintro j (rfl | hj)
        · exact le_rfl
        · exact (hsorted.1 j hj).le
      · rintro ⟨rfl | hmem, hleast⟩
        · rfl
        · exact absurd (hleast first (Or.inl rfl)) (not_le.mpr (hsorted.1 k hmem))

theorem maxKey?_eq_some {m : OrderedMap κ ν} {k : κ} (hmax : m.maxKey? = some k) :
    k ∈ m.keys ∧ ∀ j ∈ m.keys, j ≤ k := by
  have hsorted : m.keys.Pairwise (· < ·) := m.sorted
  obtain ⟨front, hkeys⟩ := List.getLast?_eq_some_iff.mp hmax
  rw [hkeys, List.pairwise_append] at hsorted
  rw [hkeys]
  refine ⟨by simp, fun j hj => ?_⟩
  rcases List.mem_append.mp hj with hfront | hlast
  · exact (hsorted.2.2 j hfront k (by simp)).le
  · exact (List.mem_singleton.mp hlast).le

theorem minKey?_eq_none_iff {m : OrderedMap κ ν} :
    m.minKey? = none ↔ m.keys = [] := by
  unfold minKey?
  exact List.head?_eq_none_iff

theorem maxKey?_eq_none_iff {m : OrderedMap κ ν} :
    m.maxKey? = none ↔ m.keys = [] := by
  unfold maxKey?
  exact List.getLast?_eq_none_iff

theorem exists_key_ge {m : OrderedMap Int ν} {low : Int} (cutoff : Int)
    (hlow : ∀ j ∈ m.keys, low ≤ j) (hle : low ≤ cutoff)
    (hsize : cutoff - low < m.size) :
    ∃ k ∈ m.keys, cutoff ≤ k := by
  by_contra hnone
  push Not at hnone
  have hnodup : m.keys.Nodup := m.sorted.imp fun hlt => hlt.ne
  have hsub : m.keys.toFinset ⊆ Finset.Ico low cutoff := by
    intro j hj
    have hmem := List.mem_toFinset.mp hj
    exact Finset.mem_Ico.mpr ⟨hlow j hmem, hnone j hmem⟩
  have hcard := Finset.card_le_card hsub
  rw [List.toFinset_card_of_nodup hnodup, length_keys, Int.card_Ico] at hcard
  omega

end OrderedMap
