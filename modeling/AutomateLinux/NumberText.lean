import AutomateLinux.StandardLibrary
import Mathlib.Algebra.Order.Ring.Int

/-!
# Text that is a number from end to end

`std::stoll` reports where it stopped reading.  A caller that compares the
position with the length of the text learns whether the text is nothing but a
number: white space, a sign and decimal digits whose value fits a `long long`.
Writing a number with `std::to_string` gives such a text, but most numbers have
other texts as well.
-/

namespace AutomateLinux

def LLONG_MAX : Int := 9223372036854775807

def LLONG_MIN : Int := -9223372036854775808

/-- The sign a text starts with. -/
def signOf : List Char → List Char
  | '-' :: _ => ['-']
  | '+' :: _ => ['+']
  | _ => []

/-- How many characters `stoll` reads. -/
def readLength (text : List Char) : ℕ :=
  let rest := text.dropWhile isspace
  let digits := rest.drop (signOf rest).length
  (text.takeWhile isspace).length + (signOf rest).length +
    (digits.takeWhile Char.isDigit).length

/-- The value and the position behind what was read. -/
def stoll (text : String) : Except Exn (Int × ℕ) :=
  match signedPrefix (text.toList.dropWhile isspace) with
  | none => .error ⟨"stoll"⟩
  | some value =>
      if LLONG_MIN ≤ value ∧ value ≤ LLONG_MAX then
        .ok (value, readLength text.toList)
      else .error ⟨"stoll"⟩

/-- The value of digits behind a sign. -/
def signedValue (sign digits : List Char) : Int :=
  let magnitude : Int := Nat.ofDigitChars 10 digits 0
  if sign = ['-'] then -magnitude else magnitude

/-- The text is white space, a sign and digits, of this value. -/
structure IsNumber (text : String) (value : Int) : Prop where
  shape : ∃ spaces sign digits, text.toList = spaces ++ (sign ++ digits) ∧
    (∀ c ∈ spaces, isspace c = true) ∧
    (sign = [] ∨ sign = ['-'] ∨ sign = ['+']) ∧
    digits ≠ [] ∧ (∀ c ∈ digits, c.isDigit = true) ∧
    value = signedValue sign digits
  lower : LLONG_MIN ≤ value
  upper : value ≤ LLONG_MAX

theorem isspace_of_isDigit {c : Char} (hc : c.isDigit = true) :
    isspace c = false := by
  unfold isspace
  simp only [Bool.or_eq_false_iff, decide_eq_false_iff_not]
  refine ⟨⟨⟨⟨⟨?_, ?_⟩, ?_⟩, ?_⟩, ?_⟩, ?_⟩ <;> rintro rfl <;> revert hc <;> decide

theorem signOf_cases (text : List Char) :
    signOf text = [] ∨ signOf text = ['-'] ∨ signOf text = ['+'] := by
  unfold signOf
  split <;> simp

theorem eq_signOf_append (text : List Char) :
    text = signOf text ++ text.drop (signOf text).length := by
  unfold signOf
  split <;> simp

theorem signedPrefix_eq (text : List Char) :
    signedPrefix text =
      (digitPrefix (text.drop (signOf text).length)).map fun n =>
        if signOf text = ['-'] then -(n : Int) else (n : Int) := by
  unfold signedPrefix signOf
  split <;> simp

/-- A sign in front of digits is the sign the whole starts with. -/
theorem signOf_append {sign digits : List Char}
    (hsign : sign = [] ∨ sign = ['-'] ∨ sign = ['+'])
    (hdigits : ∀ c ∈ digits, c.isDigit = true) :
    signOf (sign ++ digits) = sign := by
  rcases hsign with rfl | rfl | rfl
  · cases digits with
    | nil => rfl
    | cons c rest =>
        have hc : c.isDigit = true := hdigits c (by simp)
        simp only [List.nil_append]
        unfold signOf
        split
        · rename_i heq
          obtain rfl := (List.cons.inj heq).1
          exact absurd hc (by decide)
        · rename_i heq
          obtain rfl := (List.cons.inj heq).1
          exact absurd hc (by decide)
        · rfl
  · rfl
  · rfl

theorem dropWhile_isspace {sign digits : List Char}
    (hsign : sign = [] ∨ sign = ['-'] ∨ sign = ['+'])
    (hdigits : ∀ c ∈ digits, c.isDigit = true) :
    (sign ++ digits).dropWhile isspace = sign ++ digits := by
  rcases hsign with rfl | rfl | rfl
  · cases digits with
    | nil => rfl
    | cons c rest =>
        simp [isspace_of_isDigit (hdigits c (by simp))]
  · rfl
  · rfl

theorem digitPrefix_of_forall {digits : List Char} (hne : digits ≠ [])
    (hdigits : ∀ c ∈ digits, c.isDigit = true) :
    digitPrefix digits = some (Nat.ofDigitChars 10 digits 0) := by
  have hall : digits.takeWhile Char.isDigit = digits :=
    List.takeWhile_eq_self_iff.mpr hdigits
  simp [digitPrefix, hall, hne]

/-- What is read of a text of the right shape is all of it. -/
theorem IsNumber.stoll_eq {text : String} {value : Int}
    (hnumber : IsNumber text value) :
    stoll text = .ok (value, text.length) := by
  obtain ⟨spaces, sign, digits, htext, hspaces, hsign, hne, hdigits, hvalue⟩ :=
    hnumber.shape
  have htake : text.toList.takeWhile isspace = spaces := by
    have hnone : (sign ++ digits).takeWhile isspace = [] := by
      have hrest := List.takeWhile_append_dropWhile (p := isspace) (l := sign ++ digits)
      rw [dropWhile_isspace hsign hdigits] at hrest
      exact List.append_left_eq_self.mp hrest
    rw [htext, List.takeWhile_append_of_pos hspaces, hnone, List.append_nil]
  have hdrop : text.toList.dropWhile isspace = sign ++ digits := by
    rw [htext, List.dropWhile_append_of_pos hspaces,
      dropWhile_isspace hsign hdigits]
  have hsignOf := signOf_append hsign hdigits
  have hall : digits.takeWhile Char.isDigit = digits :=
    List.takeWhile_eq_self_iff.mpr hdigits
  have hlength : readLength text.toList = text.length := by
    have htotal := congrArg List.length htext
    rw [String.length_toList, List.length_append, List.length_append] at htotal
    simp only [readLength, htake, hdrop, hsignOf, List.drop_left, hall, htotal,
      Nat.add_assoc]
  have hprefix : signedPrefix (sign ++ digits) = some value := by
    rw [signedPrefix_eq, hsignOf, List.drop_left, digitPrefix_of_forall hne hdigits,
      hvalue]
    rfl
  simp [stoll, hdrop, hprefix, hnumber.lower, hnumber.upper, hlength]

theorem isNumber_of_stoll_eq {text : String} {value : Int}
    (hread : stoll text = .ok (value, text.length)) : IsNumber text value := by
  unfold stoll at hread
  set rest := text.toList.dropWhile isspace with hrest
  split at hread
  · contradiction
  · rename_i read hprefix
    split at hread
    · rename_i hrange
      obtain ⟨rfl, hlength⟩ : read = value ∧ readLength text.toList = text.length := by
        simpa using hread
      rw [signedPrefix_eq] at hprefix
      set digits := rest.drop (signOf rest).length with hdigits
      obtain ⟨n, hn, hvalue⟩ := Option.map_eq_some_iff.mp hprefix
      have hsplit : text.toList = text.toList.takeWhile isspace ++
          (signOf rest ++ digits) := by
        rw [hdigits, ← eq_signOf_append, hrest, List.takeWhile_append_dropWhile]
      have hwhole : digits.takeWhile Char.isDigit = digits := by
        have htotal := congrArg List.length hsplit
        rw [String.length_toList, ← hlength] at htotal
        simp only [readLength, ← hrest, ← hdigits, List.length_append] at htotal
        exact (List.takeWhile_prefix _).eq_of_length (by omega)
      have hall : ∀ c ∈ digits, c.isDigit = true :=
        List.takeWhile_eq_self_iff.mp hwhole
      have hne : digits ≠ [] := by
        intro hnil
        simp [digitPrefix, hnil] at hn
      have hmagnitude : n = Nat.ofDigitChars 10 digits 0 := by
        rw [digitPrefix_of_forall hne hall] at hn
        exact (Option.some.inj hn).symm
      exact
        { shape := ⟨_, _, _, hsplit,
            fun c hc => List.mem_takeWhile_imp hc, signOf_cases rest, hne, hall,
            by rw [← hvalue, hmagnitude]; rfl⟩
          lower := hrange.1
          upper := hrange.2 }
    · contradiction

theorem IsNumber.unique {text : String} {value value' : Int}
    (hnumber : IsNumber text value) (hnumber' : IsNumber text value') :
    value = value' := by
  have hread := hnumber.stoll_eq
  rw [hnumber'.stoll_eq] at hread
  exact (Prod.mk.inj (Except.ok.inj hread)).1.symm

theorem isNumber_to_string {value : Int} (hlower : LLONG_MIN ≤ value)
    (hupper : value ≤ LLONG_MAX) : IsNumber (to_string value) value := by
  refine ⟨?_, hlower, hupper⟩
  cases value with
  | ofNat n =>
      have htext : (to_string (Int.ofNat n)).toList = Nat.toDigits 10 n :=
        Nat.toList_repr
      refine ⟨[], [], Nat.toDigits 10 n, htext, by simp, Or.inl rfl,
        Nat.toDigits_ne_nil, isDigit_toDigits n, ?_⟩
      simp [signedValue, Nat.ofDigitChars_ten_toDigits]
  | negSucc n =>
      have htext : (to_string (Int.negSucc n)).toList =
          ['-'] ++ Nat.toDigits 10 (n + 1) := by
        show ("-" ++ Nat.repr (n + 1)).toList = _
        rw [String.toList_append, Nat.toList_repr]
        rfl
      refine ⟨[], ['-'], Nat.toDigits 10 (n + 1), htext, by simp, Or.inr (Or.inl rfl),
        Nat.toDigits_ne_nil, isDigit_toDigits (n + 1), ?_⟩
      simp only [signedValue, Nat.ofDigitChars_ten_toDigits, if_true]
      omega

theorem signedPrefix_to_string {value : Int} (hlower : LLONG_MIN ≤ value)
    (hupper : value ≤ LLONG_MAX) :
    signedPrefix ((to_string value).toList.dropWhile isspace) = some value := by
  obtain ⟨spaces, sign, digits, htext, hspaces, hsign, hne, hdigits, hvalue⟩ :=
    (isNumber_to_string hlower hupper).shape
  rw [htext, List.dropWhile_append_of_pos hspaces, dropWhile_isspace hsign hdigits,
    signedPrefix_eq, signOf_append hsign hdigits, List.drop_left,
    digitPrefix_of_forall hne hdigits, hvalue]
  rfl

/-- A number that was read is written so that it is read back. -/
theorem stoi_to_string_of_stoi {text : String} {value : Int} (htext : stoi text = .ok value) :
    stoi (to_string value) = .ok value := by
  have hrange : INT_MIN ≤ value ∧ value ≤ INT_MAX := by
    unfold stoi at htext
    split at htext
    · simp at htext
    · split at htext
      · rename_i hrange
        rwa [Except.ok.inj htext] at hrange
      · simp at htext
  have hprefix : signedPrefix ((to_string value).toList.dropWhile isspace) = some value := by
    simp only [INT_MIN, INT_MAX] at hrange
    exact signedPrefix_to_string (by simp only [LLONG_MIN]; omega)
      (by simp only [LLONG_MAX]; omega)
  rw [stoi, hprefix]
  exact if_pos hrange
end AutomateLinux
