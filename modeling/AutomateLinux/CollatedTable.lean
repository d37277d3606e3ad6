import Mathlib.Data.List.Basic
import Mathlib.Data.List.Nodup

/-!
# Tables whose primary key is compared by weight

A database compares the values of a key column by the weight its collation gives
them: two spellings of the same weight name one row.  A row keeps the spelling
it was inserted with; an upsert of another spelling changes its value only.  The
weight is arbitrary, the identity being the collation that tells all spellings
apart.
-/

variable {κ ω ν : Type*}

structure CollatedTable (weight : κ → ω) (ν : Type*) where
  rows : List (κ × ν)
  unique : (rows.map fun row => weight row.1).Nodup

namespace CollatedTable

variable [DecidableEq ω] {weight : κ → ω}

def empty : CollatedTable weight ν := ⟨[], List.nodup_nil⟩

/-- The row a key names. -/
def row? (t : CollatedTable weight ν) (key : κ) : Option (κ × ν) :=
  t.rows.find? fun row => weight row.1 = weight key

def get? (t : CollatedTable weight ν) (key : κ) : Option ν :=
  (t.row? key).map Prod.snd

def contains (t : CollatedTable weight ν) (key : κ) : Bool :=
  (t.row? key).isSome

/-- Change the value of the row the key names. -/
def replaceRow (weight : κ → ω) (key : κ) (value : ν) (row : κ × ν) : κ × ν :=
  if weight row.1 = weight key then (row.1, value) else row

theorem weight_replaceRow (key : κ) (value : ν) (row : κ × ν) :
    weight (replaceRow weight key value row).1 = weight row.1 := by
  unfold replaceRow
  split <;> rfl

/-- `INSERT … ON DUPLICATE KEY UPDATE`. -/
def upsert (t : CollatedTable weight ν) (key : κ) (value : ν) :
    CollatedTable weight ν :=
  if hkey : weight key ∈ t.rows.map fun row => weight row.1 then
    ⟨t.rows.map (replaceRow weight key value), by
      simpa [List.map_map, Function.comp_def, weight_replaceRow] using t.unique⟩
  else
    ⟨t.rows ++ [(key, value)], by
      rw [List.map_append, List.nodup_append]
      refine ⟨t.unique, List.nodup_singleton _, ?_⟩
      rintro _ hold _ hnew rfl
      rw [List.map_singleton, List.mem_singleton] at hnew
      exact hkey (hnew ▸ hold)⟩

theorem row?_map_replaceRow (rows : List (κ × ν)) (key other : κ) (value : ν) :
    (rows.map (replaceRow weight key value)).find? (fun row => weight row.1 = weight other) =
      (rows.find? fun row => weight row.1 = weight other).map
        (replaceRow weight key value) := by
  rw [List.find?_map]
  simp only [Function.comp_def, weight_replaceRow]

theorem get?_upsert (t : CollatedTable weight ν) (key other : κ) (value : ν) :
    (t.upsert key value).get? other =
      if weight other = weight key then some value else t.get? other := by
  unfold get? row? upsert
  split
  · rename_i hkey
    dsimp only
    rw [row?_map_replaceRow]
    cases hfind : t.rows.find? fun row => weight row.1 = weight other with
    | none =>
        have hother : weight other ≠ weight key := by
          intro hweight
          obtain ⟨row, hrow, hrowKey⟩ := List.mem_map.mp hkey
          have hnone := List.find?_eq_none.mp hfind row hrow
          simp [hrowKey, hweight] at hnone
        simp [hother]
    | some row =>
        have hrow : weight row.1 = weight other := by simpa using List.find?_some hfind
        by_cases hweight : weight other = weight key
        · simp [replaceRow, hrow, hweight]
        · simp [replaceRow, hrow, hweight]
  · rename_i hkey
    dsimp only
    rw [List.find?_append]
    by_cases hweight : weight other = weight key
    · have hnone : (t.rows.find? fun row => weight row.1 = weight other) = none := by
        rw [List.find?_eq_none]
        intro row hrow
        simp only [decide_eq_true_eq]
        intro heq
        exact hkey (List.mem_map.mpr ⟨row, hrow, heq.trans hweight⟩)
      rw [hnone]
      simp [hweight]
    · have hweight' : weight key ≠ weight other := fun h => hweight h.symm
      simp [hweight, hweight']

theorem contains_iff (t : CollatedTable weight ν) (key : κ) :
    t.contains key = true ↔ ∃ row ∈ t.rows, weight row.1 = weight key := by
  simp [contains, row?, List.find?_isSome]

theorem contains_eq_get?_isSome (t : CollatedTable weight ν) (key : κ) :
    t.contains key = (t.get? key).isSome := by
  simp [contains, get?]

theorem contains_upsert (t : CollatedTable weight ν) (key other : κ) (value : ν) :
    (t.upsert key value).contains other = true ↔
      weight other = weight key ∨ t.contains other = true := by
  rw [contains_eq_get?_isSome, contains_eq_get?_isSome, get?_upsert]
  by_cases hweight : weight other = weight key
  · simp [hweight]
  · simp [hweight]

theorem row?_upsert_of_not_contains {t : CollatedTable weight ν} {key : κ}
    (hkey : t.contains key = false) (value : ν) :
    (t.upsert key value).row? key = some (key, value) := by
  have hnone : t.row? key = none := by simpa [contains] using hkey
  have hnew : weight key ∉ t.rows.map fun row => weight row.1 := by
    intro hmem
    obtain ⟨row, hrow, hrowKey⟩ := List.mem_map.mp hmem
    have hfind := List.find?_eq_none.mp hnone row hrow
    simp [hrowKey] at hfind
  unfold row? at hnone
  simp [upsert, hnew, row?, List.find?_append, hnone]

/-- `DELETE … WHERE key = ?`. -/
def erase (t : CollatedTable weight ν) (key : κ) : CollatedTable weight ν :=
  ⟨t.rows.filter fun row => weight row.1 ≠ weight key,
    t.unique.sublist (List.filter_sublist.map _)⟩

theorem mem_rows_upsert {t : CollatedTable weight ν} {key : κ} {value : ν}
    {row : κ × ν} (hrow : row ∈ (t.upsert key value).rows) :
    (row ∈ t.rows ∧ weight row.1 ≠ weight key) ∨
      (row.2 = value ∧ weight row.1 = weight key) := by
  unfold upsert at hrow
  split at hrow
  · obtain ⟨old, hold, rfl⟩ := List.mem_map.mp hrow
    by_cases hkey : weight old.1 = weight key
    · right
      simp [replaceRow, hkey]
    · left
      simp [replaceRow, hkey, hold]
  · rename_i hkey
    rcases List.mem_append.mp hrow with hold | hnew
    · refine Or.inl ⟨hold, ?_⟩
      intro hweight
      exact hkey (hweight ▸ List.mem_map.mpr ⟨row, hold, rfl⟩)
    · obtain rfl := List.mem_singleton.mp hnew
      exact Or.inr ⟨rfl, rfl⟩

theorem mem_rows_erase {t : CollatedTable weight ν} {key : κ} {row : κ × ν} :
    row ∈ (t.erase key).rows ↔ row ∈ t.rows ∧ weight row.1 ≠ weight key := by
  simp [erase]

omit [DecidableEq ω] in
theorem eq_of_rows {t t' : CollatedTable weight ν} (hrows : t.rows = t'.rows) : t = t' := by
  obtain ⟨rows, unique⟩ := t
  obtain ⟨rows', unique'⟩ := t'
  obtain rfl : rows = rows' := hrows
  rfl

theorem row?_eq_some_of_mem {t : CollatedTable weight ν} {key : κ} {row : κ × ν}
    (hrow : row ∈ t.rows) (hkey : weight row.1 = weight key) : t.row? key = some row := by
  cases hfind : t.row? key with
  | none => exact absurd hkey (by simpa using List.find?_eq_none.mp hfind row hrow)
  | some found =>
      have hfound : weight found.1 = weight row.1 := by
        rw [hkey]
        simpa using List.find?_some hfind
      have hmem := List.mem_of_find?_eq_some hfind
      exact congrArg some (List.inj_on_of_nodup_map t.unique hmem hrow hfound)

theorem contains_eq_false_iff {t : CollatedTable weight ν} {key : κ} :
    t.contains key = false ↔ ∀ row ∈ t.rows, weight row.1 ≠ weight key := by
  rw [Bool.eq_false_iff, ne_eq, contains_iff]
  push Not
  exact Iff.rfl

theorem rows_upsert_of_not_contains {t : CollatedTable weight ν} {key : κ}
    (hkey : t.contains key = false) (value : ν) :
    (t.upsert key value).rows = t.rows ++ [(key, value)] := by
  have hnew : weight key ∉ t.rows.map fun row => weight row.1 := by
    intro hmem
    obtain ⟨row, hrow, hweight⟩ := List.mem_map.mp hmem
    exact contains_eq_false_iff.mp hkey row hrow hweight
  unfold upsert
  rw [dif_neg hnew]

/-- An upsert leaves the rows of the other keys alone. -/
theorem mem_rows_upsert_of_ne {t : CollatedTable weight ν} {key : κ} {value : ν}
    {row : κ × ν} (hne : weight row.1 ≠ weight key) :
    row ∈ (t.upsert key value).rows ↔ row ∈ t.rows := by
  constructor
  · intro hrow
    rcases mem_rows_upsert hrow with ⟨hold, -⟩ | ⟨-, hkey⟩
    · exact hold
    · exact absurd hkey hne
  · intro hrow
    unfold upsert
    split
    · exact List.mem_map.mpr ⟨row, hrow, if_neg hne⟩
    · exact List.mem_append_left _ hrow

theorem row?_upsert_cases {t : CollatedTable weight ν} {key : κ}
    (hkey : t.contains key = false) (value : ν) (other : κ) :
    (t.upsert key value).row? other = t.row? other ∨
      (t.upsert key value).row? other = some (key, value) := by
  have hrows : (t.upsert key value).row? other = (t.row? other).or
      ([(key, value)].find? fun row => weight row.1 = weight other) := by
    unfold row?
    rw [rows_upsert_of_not_contains hkey, List.find?_append]
  rw [hrows]
  cases t.row? other with
  | some row => exact Or.inl rfl
  | none =>
      by_cases hweight : weight key = weight other
      · right
        simp [hweight]
      · left
        simp [hweight]

theorem rows_erase (t : CollatedTable weight ν) (key : κ) :
    (t.erase key).rows = t.rows.filter fun row => weight row.1 ≠ weight key := rfl

theorem erase_upsert_of_not_contains {t : CollatedTable weight ν} {key : κ}
    (hkey : t.contains key = false) (value : ν) : (t.upsert key value).erase key = t := by
  have hnone := contains_eq_false_iff.mp hkey
  apply eq_of_rows
  rw [rows_erase, rows_upsert_of_not_contains hkey, List.filter_append]
  simpa using hnone

theorem get?_congr (t : CollatedTable weight ν) {key other : κ}
    (hweight : weight other = weight key) : t.get? other = t.get? key := by
  rw [get?, get?, row?, row?, hweight]

theorem get?_erase (t : CollatedTable weight ν) (key other : κ) :
    (t.erase key).get? other = if weight other = weight key then none else t.get? other := by
  unfold get? row? erase
  dsimp only
  rw [List.find?_filter]
  split
  · rename_i hweight
    rw [List.find?_eq_none.mpr]
    · rfl
    · intro row _ hrow
      simp_all
  · rename_i hweight
    congr 2
    funext row
    by_cases hrow : weight row.1 = weight other
    · simp [hrow, hweight]
    · simp [hrow]

/-- Any two rows of different keys are in the relation. -/
def Apart (rel : κ × ν → κ × ν → Prop) (t : CollatedTable weight ν) : Prop :=
  ∀ row ∈ t.rows, ∀ row' ∈ t.rows, weight row.1 ≠ weight row'.1 → rel row row'

theorem Apart.erase {rel : κ × ν → κ × ν → Prop} {t : CollatedTable weight ν}
    (hapart : Apart rel t) (key : κ) : Apart rel (t.erase key) := by
  intro row hrow row' hrow' hne
  exact hapart row (mem_rows_erase.mp hrow).1 row' (mem_rows_erase.mp hrow').1 hne

/-- An upsert keeps the rows apart when the new value is apart from the rows of
the other keys. -/
theorem Apart.upsert {rel : κ × ν → κ × ν → Prop} {t : CollatedTable weight ν}
    (hapart : Apart rel t) (hsymm : ∀ row row', rel row row' → rel row' row)
    {key : κ} {value : ν}
    (hnew : ∀ row ∈ t.rows, ∀ key', rel row (key', value)) :
    Apart rel (t.upsert key value) := by
  intro row hrow row' hrow' hne
  rcases mem_rows_upsert hrow with ⟨hold, -⟩ | ⟨hvalue, hkey⟩
  · rcases mem_rows_upsert hrow' with ⟨hold', -⟩ | ⟨hvalue', -⟩
    · exact hapart row hold row' hold' hne
    · obtain ⟨key', value'⟩ := row'
      obtain rfl : value' = value := hvalue'
      exact hnew row hold key'
  · rcases mem_rows_upsert hrow' with ⟨hold', -⟩ | ⟨-, hkey'⟩
    · obtain ⟨key', value'⟩ := row
      obtain rfl : value' = value := hvalue
      exact hsymm _ _ (hnew row' hold' key')
    · exact absurd (hkey.trans hkey'.symm) hne

end CollatedTable
