import Mathlib.Data.List.Basic
import Mathlib.Data.List.DropRight
import Mathlib.Data.List.Infix
import Mathlib.Tactic.Common

/-!
# Trimming texts and replacing patterns in them

A text is a list of symbols.  Trimming removes the symbols of one kind from both
ends.  One substitution replaces the first occurrence of a pattern, the other
every occurrence from left to right without going back over what it has put in.
-/

namespace TextOperations

variable {α : Type*}

/-! ## Trimming -/

section

variable {white also : α → Bool} {text before after : List α}

def trim (white : α → Bool) (text : List α) : List α :=
  (text.dropWhile white).rdropWhile white

theorem rdropWhile_append_white (text : List α) (hafter : ∀ c ∈ after, white c = true) :
    (text ++ after).rdropWhile white = text.rdropWhile white := by
  unfold List.rdropWhile
  rw [List.reverse_append, List.dropWhile_append_of_pos]
  intro c hc
  exact hafter c (List.mem_reverse.mp hc)

theorem trim_surrounded (hbefore : ∀ c ∈ before, white c = true)
    (hafter : ∀ c ∈ after, white c = true) :
    trim white (before ++ text ++ after) = trim white text := by
  unfold trim
  rw [List.append_assoc, List.dropWhile_append_of_pos hbefore, List.dropWhile_append]
  split
  · rename_i hempty
    have hafterEmpty : after.dropWhile white = [] := List.dropWhile_eq_nil_iff.mpr hafter
    rw [hafterEmpty, List.isEmpty_iff.mp hempty]
  · exact rdropWhile_append_white _ hafter

theorem trim_eq_self (htext : ∀ c ∈ text, white c = false) : trim white text = text := by
  rcases text.eq_nil_or_concat with rfl | ⟨init, last, rfl⟩
  · rfl
  · have hfirst : (init ++ [last]).dropWhile white = init ++ [last] := by
      rw [List.dropWhile_eq_self_iff]
      intro hpos
      exact Bool.eq_false_iff.mp (htext _ (by simp))
    have hlast : white last = false := htext last (by simp)
    simp [trim, hfirst, hlast]

theorem exists_trim (white : α → Bool) (text : List α) :
    ∃ before after, text = before ++ trim white text ++ after ∧
      (∀ c ∈ before, white c = true) ∧ ∀ c ∈ after, white c = true := by
  refine ⟨text.takeWhile white, (text.dropWhile white).rtakeWhile white, ?_, ?_, ?_⟩
  · rw [trim, List.append_assoc, List.rdropWhile_append_rtakeWhile,
      List.takeWhile_append_dropWhile]
  · exact fun c hc => List.mem_takeWhile_imp hc
  · intro c hc
    exact List.mem_rtakeWhile_imp hc

/-- What stands behind the last symbol that is not kept. -/
theorem rtakeWhile_append_cons {keep : α → Bool} {c : α} (hc : keep c = false)
    (hafter : ∀ c ∈ after, keep c = true) (before : List α) :
    (before ++ c :: after).rtakeWhile keep = after := by
  unfold List.rtakeWhile
  rw [List.reverse_append, List.reverse_cons, List.append_assoc, List.takeWhile_append_of_pos]
  · simp [hc]
  · intro c hc
    exact hafter c (List.mem_reverse.mp hc)

theorem trim_trim_of_imp (himp : ∀ c, white c = true → also c = true) (text : List α) :
    trim also (trim white text) = trim also text := by
  obtain ⟨before, after, htext, hbefore, hafter⟩ := exists_trim white text
  nth_rewrite 2 [htext]
  exact (trim_surrounded (fun c hc => himp c (hbefore c hc))
    fun c hc => himp c (hafter c hc)).symm

/-- The number of symbols that trimming cannot remove. -/
def inkCount (white : α → Bool) (text : List α) : ℕ := text.countP fun c => !white c

@[simp] theorem inkCount_append (text more : List α) :
    inkCount white (text ++ more) = inkCount white text + inkCount white more :=
  List.countP_append

theorem inkCount_eq_zero_iff : inkCount white text = 0 ↔ ∀ c ∈ text, white c = true := by
  simp [inkCount]

theorem inkCount_trim (text : List α) : inkCount white (trim white text) = inkCount white text := by
  obtain ⟨before, after, htext, hbefore, hafter⟩ := exists_trim white text
  nth_rewrite 2 [htext]
  rw [inkCount_append, inkCount_append, inkCount_eq_zero_iff.mpr hbefore,
    inkCount_eq_zero_iff.mpr hafter]
  omega

theorem trim_eq_trim_append_iff :
    trim white text = trim white (text ++ after) ↔ ∀ c ∈ after, white c = true := by
  constructor
  · intro heq
    have hcount := congrArg (inkCount white) heq
    rw [inkCount_trim, inkCount_trim, inkCount_append] at hcount
    exact inkCount_eq_zero_iff.mp (by omega)
  · intro hafter
    have hnothing : ∀ c ∈ ([] : List α), white c = true := by simp
    exact (trim_surrounded hnothing hafter).symm

end

/-! ## Substitution -/

section

variable [DecidableEq α]

/-- The text with the first occurrence of the pattern replaced. -/
def replaceFirst (pattern replacement : List α) : List α → List α
  | [] => []
  | c :: text =>
      if pattern <+: c :: text then replacement ++ (c :: text).drop pattern.length
      else c :: replaceFirst pattern replacement text

/-- The text with every occurrence replaced, behind the symbols that are still to be
skipped. -/
def replaceFrom (pattern replacement : List α) : ℕ → List α → List α
  | _, [] => []
  | skip + 1, _ :: text => replaceFrom pattern replacement skip text
  | 0, c :: text =>
      if pattern <+: c :: text then
        replacement ++ replaceFrom pattern replacement (pattern.length - 1) text
      else c :: replaceFrom pattern replacement 0 text

def replaceAll (pattern replacement text : List α) : List α :=
  replaceFrom pattern replacement 0 text

def occurrencesFrom (pattern : List α) : ℕ → List α → ℕ
  | _, [] => 0
  | skip + 1, _ :: text => occurrencesFrom pattern skip text
  | 0, c :: text =>
      if pattern <+: c :: text then occurrencesFrom pattern (pattern.length - 1) text + 1
      else occurrencesFrom pattern 0 text

/-- The number of occurrences that replacing them all goes over. -/
def occurrences (pattern text : List α) : ℕ := occurrencesFrom pattern 0 text

variable {pattern replacement text : List α}

theorem replaceFrom_eq_drop (pattern replacement : List α) (skip : ℕ) (text : List α) :
    replaceFrom pattern replacement skip text =
      replaceAll pattern replacement (text.drop skip) := by
  induction text generalizing skip with
  | nil => cases skip <;> rfl
  | cons c text ih =>
      cases skip with
      | zero => rfl
      | succ skip => exact ih skip

theorem occurrencesFrom_eq_drop (pattern : List α) (skip : ℕ) (text : List α) :
    occurrencesFrom pattern skip text = occurrences pattern (text.drop skip) := by
  induction text generalizing skip with
  | nil => cases skip <;> rfl
  | cons c text ih =>
      cases skip with
      | zero => rfl
      | succ skip => exact ih skip

theorem substitution_cases (hpattern : pattern ≠ []) (text : List α) :
    (occurrences pattern text = 0 ∧ ∀ replacement,
        replaceFirst pattern replacement text = text ∧
          replaceAll pattern replacement text = text) ∨
      ∃ before after, text = before ++ pattern ++ after ∧
        occurrences pattern text = occurrences pattern after + 1 ∧ ∀ replacement,
          replaceFirst pattern replacement text = before ++ replacement ++ after ∧
            replaceAll pattern replacement text =
              before ++ replacement ++ replaceAll pattern replacement after := by
  induction text with
  | nil => exact Or.inl ⟨rfl, fun _ => ⟨rfl, rfl⟩⟩
  | cons c text ih =>
      by_cases hprefix : pattern <+: c :: text
      · right
        obtain ⟨after, hafter⟩ := hprefix
        have hdrop : text.drop (pattern.length - 1) = after := by
          obtain ⟨d, rest, rfl⟩ := List.exists_cons_of_ne_nil hpattern
          obtain ⟨rfl, rfl⟩ := List.cons.inj hafter
          simp
        refine ⟨[], after, hafter.symm, ?_, fun replacement => ⟨?_, ?_⟩⟩
        · rw [occurrences, occurrencesFrom, if_pos ⟨after, hafter⟩, occurrencesFrom_eq_drop,
            hdrop]
        · rw [replaceFirst, if_pos ⟨after, hafter⟩, ← hafter, List.drop_left]
          rfl
        · rw [replaceAll, replaceFrom, if_pos ⟨after, hafter⟩, replaceFrom_eq_drop, hdrop]
          rfl
      · have hfirst : ∀ replacement, replaceFirst pattern replacement (c :: text) =
            c :: replaceFirst pattern replacement text := by
          intro replacement
          rw [replaceFirst, if_neg hprefix]
        have hall : ∀ replacement, replaceAll pattern replacement (c :: text) =
            c :: replaceAll pattern replacement text := by
          intro replacement
          rw [replaceAll, replaceFrom, if_neg hprefix]
          rfl
        have hcount : occurrences pattern (c :: text) = occurrences pattern text := by
          rw [occurrences, occurrencesFrom, if_neg hprefix]
          rfl
        rcases ih with ⟨hnone, hsame⟩ | ⟨before, after, htext, hsome, hreplaced⟩
        · left
          refine ⟨hcount.trans hnone, fun replacement => ?_⟩
          rw [hfirst, hall, (hsame replacement).1, (hsame replacement).2]
          exact ⟨rfl, rfl⟩
        · right
          refine ⟨c :: before, after, by rw [htext]; rfl, hcount.trans hsome,
            fun replacement => ?_⟩
          rw [hfirst, hall, (hreplaced replacement).1, (hreplaced replacement).2]
          exact ⟨rfl, rfl⟩

theorem replaceAll_of_occurrences_eq_zero (hpattern : pattern ≠ [])
    (hnone : occurrences pattern text = 0) (replacement : List α) :
    replaceAll pattern replacement text = text := by
  rcases substitution_cases hpattern text with ⟨-, hsame⟩ | ⟨before, after, -, hsome, -⟩
  · exact (hsame replacement).2
  · omega

theorem replaceFirst_eq_replaceAll (hpattern : pattern ≠ [])
    (honce : occurrences pattern text ≤ 1) (replacement : List α) :
    replaceFirst pattern replacement text = replaceAll pattern replacement text := by
  rcases substitution_cases hpattern text with
    ⟨-, hsame⟩ | ⟨before, after, -, hsome, hreplaced⟩
  · rw [(hsame replacement).1, (hsame replacement).2]
  · rw [(hreplaced replacement).1, (hreplaced replacement).2,
      replaceAll_of_occurrences_eq_zero hpattern (by omega)]

theorem replaceFirst_self (hpattern : pattern ≠ []) (text : List α) :
    replaceFirst pattern pattern text = text := by
  rcases substitution_cases hpattern text with ⟨-, hsame⟩ | ⟨before, after, htext, -, hreplaced⟩
  · exact (hsame pattern).1
  · rw [(hreplaced pattern).1, htext]

/-- An induction along the occurrences that `replaceAll` replaces. -/
theorem occurrence_induction (hpattern : pattern ≠ []) {motive : List α → Prop}
    (unchanged : ∀ text, occurrences pattern text = 0 →
      (∀ replacement, replaceAll pattern replacement text = text) → motive text)
    (occurrence : ∀ before after,
      occurrences pattern (before ++ pattern ++ after) = occurrences pattern after + 1 →
      (∀ replacement, replaceAll pattern replacement (before ++ pattern ++ after) =
        before ++ replacement ++ replaceAll pattern replacement after) →
      motive after → motive (before ++ pattern ++ after)) (text : List α) : motive text := by
  induction hlength : text.length using Nat.strong_induction_on generalizing text with
  | _ length ih =>
      rcases substitution_cases hpattern text with
        ⟨hnone, hsame⟩ | ⟨before, after, rfl, hsome, hreplaced⟩
      · exact unchanged text hnone fun replacement => (hsame replacement).2
      · have hpositive := List.length_pos_of_ne_nil hpattern
        refine occurrence before after hsome (fun replacement => (hreplaced replacement).2)
          (ih after.length ?_ after rfl)
        simp only [List.length_append] at hlength
        omega

theorem replaceAll_self (hpattern : pattern ≠ []) (text : List α) :
    replaceAll pattern pattern text = text := by
  induction text using occurrence_induction hpattern with
  | unchanged text hnone hsame => exact hsame pattern
  | occurrence before after hsome hreplaced ih => rw [hreplaced, ih]

/-! ## Counting symbols -/

theorem count_replaceFirst (hpattern : pattern ≠ []) (replacement text : List α) (c : α) :
    (replaceFirst pattern replacement text).count c +
        min 1 (occurrences pattern text) * pattern.count c =
      text.count c + min 1 (occurrences pattern text) * replacement.count c := by
  rcases substitution_cases hpattern text with
    ⟨hnone, hsame⟩ | ⟨before, after, htext, hsome, hreplaced⟩
  · rw [(hsame replacement).1, hnone]
    simp
  · have hone : min 1 (occurrences pattern text) = 1 := by omega
    rw [hone, (hreplaced replacement).1, htext]
    simp only [List.count_append]
    omega

theorem count_replaceAll (hpattern : pattern ≠ []) (replacement text : List α) (c : α) :
    (replaceAll pattern replacement text).count c +
        occurrences pattern text * pattern.count c =
      text.count c + occurrences pattern text * replacement.count c := by
  induction text using occurrence_induction hpattern with
  | unchanged text hnone hsame =>
      rw [hsame, hnone]
      simp
  | occurrence before after hsome hreplaced ih =>
      rw [hsome, hreplaced, Nat.succ_mul, Nat.succ_mul]
      simp only [List.count_append]
      omega

/-- With a replacement made of other symbols, more than one occurrence tells the two
substitutions apart. -/
theorem replaceFirst_eq_replaceAll_iff (hpattern : pattern ≠ []) {c : α}
    (hcount : replacement.count c ≠ pattern.count c) :
    replaceFirst pattern replacement text = replaceAll pattern replacement text ↔
      occurrences pattern text ≤ 1 := by
  refine ⟨fun heq => ?_, fun honce => replaceFirst_eq_replaceAll hpattern honce replacement⟩
  by_contra hmany
  have hfirst := count_replaceFirst hpattern replacement text c
  have hall := count_replaceAll hpattern replacement text c
  rw [heq] at hfirst
  obtain ⟨n, hn⟩ : ∃ n, occurrences pattern text = n + 2 :=
    ⟨occurrences pattern text - 2, by omega⟩
  have hone : min 1 (occurrences pattern text) = 1 := by omega
  rw [hone] at hfirst
  rw [hn, Nat.add_mul, Nat.add_mul] at hall
  have hmul : (n + 1) * pattern.count c = (n + 1) * replacement.count c := by
    rw [Nat.add_mul, Nat.add_mul]
    omega
  exact hcount (Nat.eq_of_mul_eq_mul_left (Nat.succ_pos n) hmul).symm

/-! ## Where texts differ first -/

def firstDifference : List α → List α → Option (α × α)
  | a :: text, b :: other => if a = b then firstDifference text other else some (a, b)
  | _, _ => none

theorem firstDifference_self (text : List α) : firstDifference text text = none := by
  induction text with
  | nil => rfl
  | cons c text ih => rw [firstDifference, if_pos rfl, ih]

theorem firstDifference_append (before : List α) {a b : α} (hne : a ≠ b)
    (text other : List α) :
    firstDifference (before ++ a :: text) (before ++ b :: other) = some (a, b) := by
  induction before with
  | nil => exact if_neg hne
  | cons c before ih => rw [List.cons_append, List.cons_append, firstDifference, if_pos rfl, ih]

theorem exists_difference {text other : List α} (hlength : text.length = other.length)
    (hne : text ≠ other) : ∃ before a b after after',
      text = before ++ a :: after ∧ other = before ++ b :: after' ∧ a ≠ b := by
  induction text generalizing other with
  | nil => exact absurd (List.length_eq_zero_iff.mp hlength.symm).symm hne
  | cons c text ih =>
      obtain ⟨d, other, rfl⟩ : ∃ d rest, other = d :: rest :=
        List.exists_cons_of_length_pos (by rw [← hlength]; simp)
      by_cases hcd : c = d
      · subst hcd
        obtain ⟨before, a, b, after, after', rfl, rfl, hab⟩ :=
          ih (by simpa using hlength) (by simpa using hne)
        exact ⟨c :: before, a, b, after, after', rfl, rfl, hab⟩
      · exact ⟨[], c, d, text, other, rfl, rfl, hcd⟩

/-! ## Two substitutions in a row -/

variable {second secondReplacement : List α}

/-- Two texts that become the same when one pattern in each is replaced are the same,
or differ first in the heads of the pattern and its replacement. -/
theorem firstDifference_of_replaced {text other before after before' after' rest rest' : List α}
    {x y : α} (hxy : x ≠ y)
    (htext : text = before ++ x :: rest ++ after)
    (hother : other = before' ++ x :: rest ++ after')
    (hsame : before ++ y :: rest' ++ after = before' ++ y :: rest' ++ after') :
    text = other ∨ firstDifference text other = some (x, y) ∨
      firstDifference text other = some (y, x) := by
  simp only [List.append_assoc] at htext hother hsame
  rcases List.append_eq_append_iff.mp hsame with ⟨gap, rfl, hgap⟩ | ⟨gap, rfl, hgap⟩
  · cases gap with
    | nil =>
        left
        rw [List.nil_append] at hgap
        rw [htext, hother, List.append_nil, List.append_cancel_left hgap]
    | cons d gap =>
        right
        left
        obtain ⟨rfl, -⟩ := List.cons.inj hgap
        rw [htext, hother, List.append_assoc]
        exact firstDifference_append before hxy _ _
  · cases gap with
    | nil =>
        left
        rw [List.nil_append] at hgap
        rw [htext, hother, List.append_nil, List.append_cancel_left hgap]
    | cons d gap =>
        right
        right
        obtain ⟨rfl, -⟩ := List.cons.inj hgap
        rw [htext, hother, List.append_assoc]
        exact firstDifference_append before' hxy.symm _ _

theorem firstDifference_of_many (hpattern : pattern ≠ [])
    (hmany : 2 ≤ occurrences pattern text) (hperm : replacement.Perm pattern)
    (hne : replacement ≠ pattern) :
    ∃ a ∈ pattern, ∃ b ∈ pattern,
      firstDifference (replaceFirst pattern replacement text)
        (replaceAll pattern replacement text) = some (a, b) := by
  rcases substitution_cases hpattern text with
    ⟨hnone, -⟩ | ⟨before, after, -, hsome, hreplaced⟩
  · omega
  rcases substitution_cases hpattern after with
    ⟨hnone, -⟩ | ⟨before', after', hafter, -, hreplaced'⟩
  · omega
  obtain ⟨shared, a, b, rest, rest', hp, hr, hab⟩ :=
    exists_difference hperm.length_eq.symm hne.symm
  refine ⟨a, by simp [hp], b, hperm.subset (by simp [hr]), ?_⟩
  have hfirst : replaceFirst pattern replacement text =
      (before ++ replacement ++ before' ++ shared) ++ a :: (rest ++ after') := by
    rw [(hreplaced replacement).1, hafter, hp]
    simp
  have hall : replaceAll pattern replacement text =
      (before ++ replacement ++ before' ++ shared) ++
        b :: (rest' ++ replaceAll pattern replacement after') := by
    rw [(hreplaced replacement).2, (hreplaced' replacement).2]
    nth_rewrite 2 [hr]
    simp
  rw [hfirst, hall]
  exact firstDifference_append _ hab _ _

/-- What tells the two substitutions apart after a further one: a symbol that only the
further replacement brings, one that only the further pattern takes away, and the heads
of these two, of which the first pattern does not have the replacement's. -/
structure Telling (pattern second secondReplacement : List α) : Prop where
  brings : ∃ c, pattern.count c = 0 ∧ second.count c = 0 ∧ 0 < secondReplacement.count c
  takes : ∃ c, pattern.count c = 0 ∧ 0 < second.count c ∧ secondReplacement.count c = 0
  heads : ∃ x y rest rest', second = x :: rest ∧ secondReplacement = y :: rest' ∧ x ≠ y ∧
    y ∉ pattern

/-- As many occurrences of the further pattern, and a replacement made of the symbols
of the first, is what equal results come down to. -/
theorem perm_of_replaced_eq (hpattern : pattern ≠ []) (hsecond : second ≠ [])
    (htelling : Telling pattern second secondReplacement)
    (hmany : 2 ≤ occurrences pattern text)
    (heq : replaceFirst second secondReplacement (replaceFirst pattern replacement text) =
      replaceAll second secondReplacement (replaceAll pattern replacement text)) :
    min 1 (occurrences second (replaceFirst pattern replacement text)) =
        occurrences second (replaceAll pattern replacement text) ∧
      replacement.Perm pattern := by
  obtain ⟨n, hn⟩ : ∃ n, occurrences pattern text = n + 2 :=
    ⟨occurrences pattern text - 2, by omega⟩
  have hone : min 1 (occurrences pattern text) = 1 := by omega
  generalize hj : min 1 (occurrences second (replaceFirst pattern replacement text)) = j
  generalize hk : occurrences second (replaceAll pattern replacement text) = k
  have hcounts : ∀ c,
      n * replacement.count c + replacement.count c + k * secondReplacement.count c +
          j * second.count c =
        n * pattern.count c + pattern.count c + j * secondReplacement.count c +
          k * second.count c := by
    intro c
    have hfirst := count_replaceFirst hpattern replacement text c
    have hall := count_replaceAll hpattern replacement text c
    have hfirst' := count_replaceFirst hsecond secondReplacement
      (replaceFirst pattern replacement text) c
    have hall' := count_replaceAll hsecond secondReplacement
      (replaceAll pattern replacement text) c
    rw [hone] at hfirst
    rw [hn, Nat.add_mul, Nat.add_mul] at hall
    rw [hj, heq] at hfirst'
    rw [hk] at hall'
    omega
  have hkj : k = j := by
    obtain ⟨v, hv, hv', hpos⟩ := htelling.brings
    obtain ⟨o, ho, hpos', ho'⟩ := htelling.takes
    have hbrought := hcounts v
    have htaken := hcounts o
    simp only [hv, hv', ho, ho', Nat.mul_zero, Nat.add_zero, Nat.zero_add] at hbrought htaken
    have hle : k ≤ j := Nat.le_of_mul_le_mul_right (by omega) hpos
    have hge : j ≤ k := Nat.le_of_mul_le_mul_right (by omega) hpos'
    omega
  refine ⟨hkj.symm, List.perm_iff_count.mpr fun c => ?_⟩
  have hc := hcounts c
  rw [hkj] at hc
  have hmul : (n + 1) * replacement.count c = (n + 1) * pattern.count c := by
    rw [Nat.add_mul, Nat.add_mul]
    omega
  exact Nat.eq_of_mul_eq_mul_left (Nat.succ_pos n) hmul

theorem firstDifference_of_replaced_eq (hsecond : second ≠ [])
    {x y : α} {rest rest' : List α} (hx : second = x :: rest)
    (hy : secondReplacement = y :: rest') (hxy : x ≠ y) {other : List α}
    (hcount : min 1 (occurrences second text) = occurrences second other)
    (heq : replaceFirst second secondReplacement text =
      replaceAll second secondReplacement other) :
    text = other ∨ firstDifference text other = some (x, y) ∨
      firstDifference text other = some (y, x) := by
  rcases substitution_cases hsecond text with
    ⟨hnone, hkept⟩ | ⟨before, after, htext, hsome, hreplaced⟩
  · left
    rw [hnone] at hcount
    rw [(hkept secondReplacement).1,
      replaceAll_of_occurrences_eq_zero hsecond hcount.symm] at heq
    exact heq
  · rcases substitution_cases hsecond other with
      ⟨hnone', -⟩ | ⟨before', after', hother, hsome', hreplaced'⟩
    · omega
    · rw [(hreplaced secondReplacement).1, (hreplaced' secondReplacement).2,
        replaceAll_of_occurrences_eq_zero hsecond (by omega)] at heq
      rw [hx] at htext hother
      rw [hy] at heq
      exact firstDifference_of_replaced hxy htext hother heq

theorem replaceFirst_eq_replaceAll_of_once (hpattern : pattern ≠ [])
    (honce : occurrences pattern text ≤ 1 ∨ replacement = pattern) :
    replaceFirst pattern replacement text = replaceAll pattern replacement text := by
  rcases honce with honce | rfl
  · exact replaceFirst_eq_replaceAll hpattern honce replacement
  · rw [replaceFirst_self hpattern, replaceAll_self hpattern]

/-- Replacing first occurrences in a row does what replacing all of them does exactly if
neither meets a second one. -/
theorem replaceFirst_twice_eq_iff (hpattern : pattern ≠ []) (hsecond : second ≠ [])
    (htelling : Telling pattern second secondReplacement) :
    replaceFirst second secondReplacement (replaceFirst pattern replacement text) =
        replaceAll second secondReplacement (replaceAll pattern replacement text) ↔
      (occurrences pattern text ≤ 1 ∨ replacement = pattern) ∧
        occurrences second (replaceFirst pattern replacement text) ≤ 1 := by
  constructor
  · intro heq
    by_cases honce : occurrences pattern text ≤ 1 ∨ replacement = pattern
    · refine ⟨honce, ?_⟩
      obtain ⟨c, -, hnone, hpos⟩ := htelling.brings
      have hne : secondReplacement.count c ≠ second.count c := by omega
      refine (replaceFirst_eq_replaceAll_iff hsecond hne).mp ?_
      rw [heq, replaceFirst_eq_replaceAll_of_once hpattern honce]
    · exfalso
      push Not at honce
      obtain ⟨hmany, hne⟩ := honce
      obtain ⟨hcount, hperm⟩ := perm_of_replaced_eq hpattern hsecond htelling hmany heq
      obtain ⟨a, ha, b, hb, hdiffer⟩ := firstDifference_of_many hpattern hmany hperm hne
      obtain ⟨x, y, rest, rest', hx, hy, hxy, hynot⟩ := htelling.heads
      rcases firstDifference_of_replaced_eq hsecond hx hy hxy hcount heq with
        hequal | hxdiffer | hydiffer
      · rw [hequal, firstDifference_self] at hdiffer
        contradiction
      · rw [hxdiffer] at hdiffer
        obtain ⟨-, rfl⟩ := Prod.mk.inj (Option.some.inj hdiffer)
        exact hynot hb
      · rw [hydiffer] at hdiffer
        obtain ⟨rfl, -⟩ := Prod.mk.inj (Option.some.inj hdiffer)
        exact hynot ha
  · rintro ⟨honce, hagain⟩
    rw [← replaceFirst_eq_replaceAll_of_once hpattern honce]
    exact replaceFirst_eq_replaceAll hsecond hagain secondReplacement

end

/-! ## Words in a text -/

/-- A word does not reach over a symbol that it does not contain. -/
theorem infix_append_cons_iff {word before after : List α} {c : α} (hc : c ∉ word) :
    word <:+: before ++ c :: after ↔ word <:+: before ∨ word <:+: after := by
  have hprefix : ∀ {part : List α}, part <+: c :: after → c ∉ part → part = [] := by
    rintro (_ | ⟨a, part⟩) hpart hnot
    · rfl
    · obtain rfl := (List.cons_prefix_cons.mp hpart).1
      exact absurd List.mem_cons_self hnot
  constructor
  · intro hinfix
    rcases List.infix_append_iff.mp hinfix with hbefore | hafter | ⟨left, right, rfl, hleft, hright⟩
    · exact Or.inl hbefore
    · rcases List.infix_cons_iff.mp hafter with hhead | htail
      · obtain rfl := hprefix hhead hc
        exact Or.inl (List.nil_infix)
      · exact Or.inr htail
    · obtain rfl := hprefix hright fun hmem => hc (List.mem_append_right _ hmem)
      exact Or.inl (by simpa using hleft.isInfix)
  · rintro (hbefore | hafter)
    · exact hbefore.trans (List.prefix_append _ _).isInfix
    · exact hafter.trans ((List.suffix_cons _ _).trans (List.suffix_append _ _)).isInfix

end TextOperations
