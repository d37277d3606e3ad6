import AutomateLinux.OrderedMap
import AutomateLinux.RegroupedList
import AutomateLinux.StandardLibrary

/-!
# Withheld keys

The registry lists, for each key code, the events that combos hold back, in the
order in which they were withheld.  A combo that breaks or completes claims its
events.  `claim` copies what `std::remove_if` leaves behind the kept elements,
which are the claimed events only where no other combo holds the key.
-/

namespace AutomateLinux

/-- A key being held back by a macro. -/
structure WithheldKey where
  type : ℕ
  code : ℕ
  value : Int
  owningComboIdx : ℕ
deriving DecidableEq

/-- The map `withheld`; an empty list cannot be told from a missing one. -/
abbrev SuppressionRegistry := OrderedMap ℕ (List WithheldKey)

theorem flatMap_eq_flatMap_iff {α β : Type*} {rows : List α} {f g : α → List β}
    (hlen : ∀ row ∈ rows, (f row).length = (g row).length) :
    rows.flatMap f = rows.flatMap g ↔ ∀ row ∈ rows, f row = g row := by
  induction rows with
  | nil => simp
  | cons row rest ih =>
      have hrow : (f row).length = (g row).length := hlen row List.mem_cons_self
      have hrest := ih fun row' hrow' => hlen row' (List.mem_cons_of_mem row hrow')
      rw [List.flatMap_cons, List.flatMap_cons, List.forall_mem_cons, ← hrest]
      exact ⟨fun h => List.append_inj h hrow, fun h => by rw [h.1, h.2]⟩

namespace SuppressionRegistry

def empty : SuppressionRegistry := OrderedMap.empty

/-- The events withheld for a key code. -/
def withheld (r : SuppressionRegistry) (code : ℕ) : List WithheldKey :=
  (r.get? code).getD []

def add (r : SuppressionRegistry) (wk : WithheldKey) : SuppressionRegistry :=
  r.insert wk.code (r.withheld wk.code ++ [wk])

def isOwnedBy (comboIdx : ℕ) (wk : WithheldKey) : Bool :=
  wk.owningComboIdx = comboIdx

/-- What is left in the registry. -/
def unclaimed (r : SuppressionRegistry) (comboIdx : ℕ) : SuppressionRegistry :=
  r.mapValues fun _ vec => (remove_if (isOwnedBy comboIdx) vec).1

/-- `claim`: the claimed events, by key code, and the registry without them. -/
def claim (r : SuppressionRegistry) (comboIdx : ℕ) :
    List WithheldKey × SuppressionRegistry :=
  (r.entries.flatMap fun row => (remove_if (isOwnedBy comboIdx) row.2).2,
    r.unclaimed comboIdx)

def isBlocked (r : SuppressionRegistry) (code : ℕ) : Bool :=
  !(r.withheld code).isEmpty

section

variable {r : SuppressionRegistry} {comboIdx : ℕ}

@[simp] theorem withheld_empty (code : ℕ) : empty.withheld code = [] := rfl

theorem withheld_add (r : SuppressionRegistry) (wk : WithheldKey) (code : ℕ) :
    (r.add wk).withheld code =
      if code = wk.code then r.withheld wk.code ++ [wk] else r.withheld code := by
  unfold add withheld
  rw [OrderedMap.get?_insert]
  split <;> rfl

theorem withheld_unclaimed (r : SuppressionRegistry) (comboIdx code : ℕ) :
    (r.unclaimed comboIdx).withheld code =
      (r.withheld code).filter fun wk => !isOwnedBy comboIdx wk := by
  unfold unclaimed withheld
  rw [OrderedMap.get?_mapValues]
  cases r.get? code <;> rfl

theorem isBlocked_eq_false_iff {code : ℕ} :
    r.isBlocked code = false ↔ r.withheld code = [] := by
  simp [isBlocked]

theorem mem_withheld_unclaimed {wk : WithheldKey} {code : ℕ} :
    wk ∈ (r.unclaimed comboIdx).withheld code ↔
      wk ∈ r.withheld code ∧ wk.owningComboIdx ≠ comboIdx := by
  rw [withheld_unclaimed, List.mem_filter]
  simp [isOwnedBy]

theorem isBlocked_unclaimed :
    (r.unclaimed comboIdx).isBlocked code =
      (r.withheld code).any fun wk => !isOwnedBy comboIdx wk := by
  unfold isBlocked
  rw [withheld_unclaimed, Bool.eq_iff_iff]
  simp

theorem filter_withheld_add (r : SuppressionRegistry) (wk : WithheldKey) (comboIdx code : ℕ) :
    ((r.add wk).withheld code).filter (isOwnedBy comboIdx) =
      (r.withheld code).filter (isOwnedBy comboIdx) ++
        if code = wk.code ∧ comboIdx = wk.owningComboIdx then [wk] else [] := by
  rw [withheld_add]
  by_cases hcode : code = wk.code
  · rw [if_pos hcode, List.filter_append, hcode]
    by_cases howner : comboIdx = wk.owningComboIdx
    · simp [isOwnedBy, howner]
    · simp [isOwnedBy, howner, Ne.symm howner]
  · simp [hcode]

/-- Every entry is filed under its own key code. -/
def Keyed (r : SuppressionRegistry) : Prop :=
  ∀ code, ∀ wk ∈ r.withheld code, wk.code = code

theorem keyed_add (hkeyed : r.Keyed) (wk : WithheldKey) : (r.add wk).Keyed := by
  intro code wk' hwk'
  rw [withheld_add] at hwk'
  split at hwk'
  · rename_i hcode
    rcases List.mem_append.mp hwk' with hold | hnew
    · rw [hcode]
      exact hkeyed _ wk' hold
    · obtain rfl := List.mem_singleton.mp hnew
      exact hcode.symm
  · exact hkeyed code wk' hwk'

theorem keyed_unclaimed (hkeyed : r.Keyed) (comboIdx : ℕ) : (r.unclaimed comboIdx).Keyed :=
  fun code wk hwk => hkeyed code wk (mem_withheld_unclaimed.mp hwk).1

theorem code_of_mem_claimed (hkeyed : r.Keyed) {row : ℕ × List WithheldKey}
    (hrow : row ∈ r.entries) {wk : WithheldKey}
    (hwk : wk ∈ (remove_if (isOwnedBy comboIdx) row.2).2) : wk.code = row.1 := by
  refine hkeyed row.1 wk ?_
  have hget : r.get? row.1 = some row.2 := OrderedMap.get?_eq_some_iff.mpr hrow
  unfold withheld
  rw [hget]
  exact List.mem_of_mem_drop hwk

theorem filter_claim (hkeyed : r.Keyed) (comboIdx code : ℕ) :
    (r.claim comboIdx).1.filter (fun wk => wk.code = code) =
      (remove_if (isOwnedBy comboIdx) (r.withheld code)).2 := by
  unfold claim
  rw [List.filter_flatMap, OrderedMap.flatMap_entries (k := code)]
  · unfold withheld
    cases hget : r.get? code with
    | none => rfl
    | some vec =>
        have hself : ∀ wk ∈ (remove_if (isOwnedBy comboIdx) vec).2, wk.code = code :=
          fun wk hwk => code_of_mem_claimed hkeyed (OrderedMap.get?_eq_some_iff.mp hget) hwk
        simpa using hself
  · intro row hmem hne
    refine List.filter_eq_nil_iff.mpr fun wk hwk => ?_
    rw [code_of_mem_claimed hkeyed hmem hwk]
    simpa using hne

/-- A claim walks the map from the least code to the greatest. -/
theorem ascending_claim (hkeyed : r.Keyed) (comboIdx : ℕ) :
    RegroupedList.Ascending WithheldKey.code (r.claim comboIdx).1 := by
  unfold claim RegroupedList.Ascending
  rw [List.pairwise_flatMap]
  constructor
  · intro row hrow
    refine List.pairwise_of_forall_mem_list fun wk hwk wk' hwk' => ?_
    exact (code_of_mem_claimed hkeyed hrow hwk).trans_le
      (code_of_mem_claimed hkeyed hrow hwk').ge
  · have hsorted := List.pairwise_map.mp r.sorted
    refine hsorted.imp_of_mem fun {row row'} hrow hrow' hlt wk hwk wk' hwk' => ?_
    rw [code_of_mem_claimed hkeyed hrow hwk, code_of_mem_claimed hkeyed hrow' hwk']
    exact hlt.le

/-- When no other combo holds the key, a claim returns all that is withheld. -/
theorem filter_claim_of_unclaimed_eq_nil (hkeyed : r.Keyed) {code : ℕ}
    (hlast : (r.unclaimed comboIdx).withheld code = []) :
    (r.claim comboIdx).1.filter (fun wk => wk.code = code) = r.withheld code := by
  rw [filter_claim hkeyed]
  rw [withheld_unclaimed] at hlast
  rw [remove_if_of_forall fun wk hwk => by
    simpa using List.filter_eq_nil_iff.mp hlast wk hwk]

/-- Nothing is withheld. -/
def IsEmpty (r : SuppressionRegistry) : Prop := ∀ code, r.withheld code = []

instance (r : SuppressionRegistry) : Decidable r.IsEmpty :=
  decidable_of_iff (∀ row ∈ r.entries, row.2 = []) (by
    constructor
    · intro hall code
      unfold withheld
      cases hget : r.get? code with
      | none => rfl
      | some vec => exact hall (code, vec) (OrderedMap.get?_eq_some_iff.mp hget)
    · rintro hempty ⟨code, vec⟩ hrow
      have hget := OrderedMap.get?_eq_some_iff.mpr hrow
      simpa [withheld, hget] using hempty code)

/-! ## When a claim gets exactly the combo's events -/

/-- A claim returns, key code by key code, the combo's own events and leaves the
others where they are, each in the order in which they were withheld. -/
def ClaimSplits (r : SuppressionRegistry) (comboIdx : ℕ) : Prop :=
  (r.claim comboIdx).1 =
      r.entries.flatMap (fun row => row.2.filter (isOwnedBy comboIdx)) ∧
    ∀ code, (r.claim comboIdx).2.withheld code =
      (r.withheld code).filter fun wk => !isOwnedBy comboIdx wk

/-- No key has an event of another combo withheld after one of the combo's. -/
def OwnedLast (r : SuppressionRegistry) (comboIdx : ℕ) : Prop :=
  ∀ code, (r.withheld code).Pairwise fun wk wk' =>
    isOwnedBy comboIdx wk = true → isOwnedBy comboIdx wk' = true

theorem ownedLast_iff_entries :
    r.OwnedLast comboIdx ↔ ∀ row ∈ r.entries, row.2.Pairwise fun wk wk' =>
      isOwnedBy comboIdx wk = true → isOwnedBy comboIdx wk' = true := by
  constructor
  · rintro hlast ⟨code, vec⟩ hrow
    have hget : r.get? code = some vec := OrderedMap.get?_eq_some_iff.mpr hrow
    simpa [withheld, hget] using hlast code
  · intro hrows code
    unfold withheld
    cases hget : r.get? code with
    | none => exact List.Pairwise.nil
    | some vec => exact hrows (code, vec) (OrderedMap.get?_eq_some_iff.mp hget)

theorem claim_fst_eq_iff :
    (r.claim comboIdx).1 =
        r.entries.flatMap (fun row => row.2.filter (isOwnedBy comboIdx)) ↔
      r.OwnedLast comboIdx := by
  rw [ownedLast_iff_entries]
  unfold claim
  rw [flatMap_eq_flatMap_iff fun row _ => length_remove_if_snd _ row.2]
  simp only [remove_if_snd_eq_filter_iff]

theorem claimSplits_iff_ownedLast (r : SuppressionRegistry) (comboIdx : ℕ) :
    r.ClaimSplits comboIdx ↔ r.OwnedLast comboIdx := by
  unfold ClaimSplits
  rw [claim_fst_eq_iff]
  exact ⟨fun h => h.1, fun h => ⟨h, withheld_unclaimed r comboIdx⟩⟩

/-- A press of A withheld by the first combo and its repeat by the second. -/
def interleavedOwners : SuppressionRegistry :=
  (empty.add ⟨1, 30, 1, 0⟩).add ⟨1, 30, 2, 1⟩

theorem not_claimSplits_interleavedOwners :
    ¬ ∀ (r : SuppressionRegistry) (comboIdx : ℕ), r.ClaimSplits comboIdx := by
  intro hall
  have hclaim := (hall interleavedOwners 0).1
  revert hclaim
  decide

end

end SuppressionRegistry

end AutomateLinux
