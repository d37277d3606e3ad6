import Mathlib.Data.List.Basic
import Mathlib.Data.List.TakeWhile
import Mathlib.Data.Nat.Notation

/-!
# The standard-library operations the sources rely on

Integers are written to and read from text with `std::to_string` and
`std::stoi`, and a vector is thinned out with `std::remove_if`.  The models
follow their documented behaviour: `stoi` reads the longest decimal prefix
after white space and a sign and throws when there is none or the value does
not fit an `int`; `remove_if` moves the kept elements forward and leaves the
positions behind them as the moves left them.
-/

namespace AutomateLinux

/-- A thrown exception, known by its `what()` text. -/
structure Exn where
  what : String
deriving DecidableEq, Repr

def INT_MAX : Int := 2147483647

def INT_MIN : Int := -2147483648

def to_string (value : Int) : String := toString value

/-- `isspace` in the default locale. -/
def isspace (c : Char) : Bool :=
  c = ' ' || c = '\t' || c = '\n' || c = '\x0b' || c = '\x0c' || c = '\r'

/-- The value of the longest prefix of decimal digits, if there is one. -/
def digitPrefix (text : List Char) : Option ℕ :=
  let digits := text.takeWhile Char.isDigit
  if digits = [] then none else some (Nat.ofDigitChars 10 digits 0)

def signedPrefix : List Char → Option Int
  | '-' :: rest => (digitPrefix rest).map fun n => -(n : Int)
  | '+' :: rest => (digitPrefix rest).map fun n => (n : Int)
  | rest => (digitPrefix rest).map fun n => (n : Int)

def stoi (text : String) : Except Exn Int :=
  match signedPrefix (text.toList.dropWhile isspace) with
  | none => .error ⟨"stoi"⟩
  | some value =>
      if INT_MIN ≤ value ∧ value ≤ INT_MAX then .ok value
      else .error ⟨"stoi"⟩

theorem isDigit_toDigits (n : ℕ) : ∀ c ∈ Nat.toDigits 10 n, c.isDigit = true :=
  fun _ hc => Nat.isDigit_of_mem_toDigits (by decide) (by decide) hc

theorem digitPrefix_toDigits (n : ℕ) :
    digitPrefix (Nat.toDigits 10 n) = some n := by
  have hall : (Nat.toDigits 10 n).takeWhile Char.isDigit = Nat.toDigits 10 n :=
    List.takeWhile_eq_self_iff.mpr (isDigit_toDigits n)
  simp [digitPrefix, hall, Nat.toDigits_ne_nil, Nat.ofDigitChars_ten_toDigits]

theorem signedPrefix_of_isDigit {text : List Char} {c : Char}
    (hhead : text.head? = some c) (hdigit : c.isDigit = true) :
    signedPrefix text = (digitPrefix text).map fun n => (n : Int) := by
  obtain ⟨rest, rfl⟩ : ∃ rest, text = c :: rest := by
    cases text with
    | nil => simp at hhead
    | cons d rest => exact ⟨rest, by simpa using hhead⟩
  unfold signedPrefix
  split
  · rename_i heq
    obtain rfl : c = '-' := (List.cons.inj heq).1
    exact absurd hdigit (by decide)
  · rename_i heq
    obtain rfl : c = '+' := (List.cons.inj heq).1
    exact absurd hdigit (by decide)
  · rfl

theorem stoi_to_string {n : ℕ} (hn : (n : Int) ≤ INT_MAX) :
    stoi (to_string (n : Int)) = .ok (n : Int) := by
  have htext : (to_string (n : Int)).toList = Nat.toDigits 10 n := by
    show (Nat.repr n).toList = Nat.toDigits 10 n
    exact Nat.toList_repr
  obtain ⟨c, rest, hdigits⟩ : ∃ c rest, Nat.toDigits 10 n = c :: rest := by
    cases h : Nat.toDigits 10 n with
    | nil => exact absurd h Nat.toDigits_ne_nil
    | cons c rest => exact ⟨c, rest, rfl⟩
  have hc : c.isDigit = true := isDigit_toDigits n c (by simp [hdigits])
  have hspace : isspace c = false := by
    unfold isspace
    simp only [Bool.or_eq_false_iff, decide_eq_false_iff_not]
    refine ⟨⟨⟨⟨⟨?_, ?_⟩, ?_⟩, ?_⟩, ?_⟩, ?_⟩ <;> rintro rfl <;> revert hc <;> decide
  have hdrop : (Nat.toDigits 10 n).dropWhile isspace = Nat.toDigits 10 n := by
    rw [hdigits]
    simp [hspace]
  have hsigned : signedPrefix (Nat.toDigits 10 n) = some (n : Int) := by
    rw [signedPrefix_of_isDigit (c := c) (by simp [hdigits]) hc,
      digitPrefix_toDigits]
    rfl
  have hmin : INT_MIN ≤ (n : Int) := by
    unfold INT_MIN
    omega
  simp [stoi, htext, hdrop, hsigned, hmin, hn]

/-! ## `std::remove_if` -/

/-- `remove_if` over a vector of trivially copyable elements: the vector
afterwards is the first component followed by the second, the returned
iterator pointing between them. -/
def remove_if {α : Type*} (pred : α → Bool) (vec : List α) :
    List α × List α :=
  let kept := vec.filter fun a => !pred a
  (kept, vec.drop kept.length)

theorem remove_if_of_forall {α : Type*} {pred : α → Bool} {vec : List α}
    (hall : ∀ a ∈ vec, pred a = true) : remove_if pred vec = ([], vec) := by
  have hkept : (vec.filter fun a => !pred a) = [] := by
    simpa using hall
  simp [remove_if, hkept]

theorem length_remove_if_snd {α : Type*} (pred : α → Bool) (vec : List α) :
    (remove_if pred vec).2.length = (vec.filter pred).length := by
  have hsplit := List.length_eq_length_filter_add (l := vec) pred
  show (vec.drop (vec.filter fun a => !pred a).length).length = (vec.filter pred).length
  rw [List.length_drop]
  omega

theorem forall_of_remove_if_snd {α : Type*} {pred : α → Bool} {a : α} {rest : List α}
    (ha : pred a = true)
    (htail : (remove_if pred (a :: rest)).2 = (a :: rest).filter pred) :
    ∀ b ∈ rest, pred b = true := by
  let kept := rest.filter fun b => !pred b
  have hbehind : (a :: rest).drop kept.length = (a :: rest).filter pred := by
    simpa [remove_if, ha] using htail
  cases hkept : kept with
  | nil => simpa [kept] using hkept
  | cons first others =>
      exfalso
      have hdrop : rest.drop others.length = (a :: rest).filter pred := by
        simpa [hkept] using hbehind
      have hnone : (rest.drop others.length).filter (fun b => !pred b) = [] := by
        rw [hdrop]
        simp
      have hsplit : kept = (rest.take others.length).filter fun b => !pred b := by
        have hparts := List.filter_append (p := fun b => !pred b)
          (rest.take others.length) (rest.drop others.length)
        rwa [List.take_append_drop, hnone, List.append_nil] at hparts
      have hshort : kept.length ≤ others.length := by
        rw [hsplit]
        exact (List.length_filter_le _ _).trans (List.length_take_le _ _)
      rw [hkept, List.length_cons] at hshort
      omega

/-- What `remove_if` leaves behind the kept elements are the removed ones exactly
when no element is kept that comes after a removed one. -/
theorem remove_if_snd_eq_filter_iff {α : Type*} {pred : α → Bool} {vec : List α} :
    (remove_if pred vec).2 = vec.filter pred ↔
      vec.Pairwise fun a b => pred a = true → pred b = true := by
  induction vec with
  | nil => simp [remove_if]
  | cons a rest ih =>
      cases ha : pred a with
      | false =>
          have htail : (remove_if pred (a :: rest)).2 = (remove_if pred rest).2 := by
            simp [remove_if, ha]
          rw [htail, List.filter_cons_of_neg (by simp [ha]), ih, List.pairwise_cons]
          simp [ha]
      | true =>
          rw [List.pairwise_cons]
          constructor
          · intro htail
            have hall := forall_of_remove_if_snd ha htail
            exact ⟨fun b hb _ => hall b hb,
              List.pairwise_of_forall_mem_list fun _ _ b hb _ => hall b hb⟩
          · rintro ⟨hall, -⟩
            have hall : ∀ b ∈ a :: rest, pred b = true := by
              simpa [ha] using hall
            rw [remove_if_of_forall hall, List.filter_eq_self.mpr hall]

end AutomateLinux
