import AutomateLinux.TextOperations
import Mathlib.Tactic.Common

/-!
# UTF-8 in pieces

Encoding writes each character as one to four bytes.  Strict decoding fails on
bytes that encode no text.  Lossy decoding never fails: it puts a replacement
character for each maximal part of a sequence that is cut short or ill formed, and
goes on behind it.  A text that arrives in pieces is therefore decoded in pieces
without loss exactly if no piece ends inside a character.
-/

namespace Utf8

def encode (text : List Char) : List UInt8 := text.flatMap String.utf8EncodeChar

def REPLACEMENT : Char := '\uFFFD'

/-- The character that the bytes begin with. -/
def decodeChar? (bytes : List UInt8) : Option Char := bytes.toByteArray.utf8DecodeChar? 0

def isContinuation (b : UInt8) : Bool := b &&& 0xC0 = 0x80

/-- The number of continuation bytes that a lead byte announces. -/
def continuations (b : UInt8) : ℕ :=
  if b &&& 0xE0 = 0xC0 ∧ 0xC2 ≤ b then 1
  else if b &&& 0xF0 = 0xE0 then 2
  else if b &&& 0xF8 = 0xF0 ∧ b ≤ 0xF4 then 3
  else 0

/-- Whether a byte may come second behind a lead byte. -/
def isSecond (b second : UInt8) : Bool :=
  isContinuation second &&
    if b = 0xE0 then 0xA0 ≤ second
    else if b = 0xED then second ≤ 0x9F
    else if b = 0xF0 then 0x90 ≤ second
    else if b = 0xF4 then second ≤ 0x8F
    else true

/-- Where no character can be decoded, the number of bytes behind the first one that
could still have led to a character. -/
def subpartLength (b : UInt8) (rest : List UInt8) : ℕ :=
  match continuations b, rest with
  | n + 1, second :: more =>
      if isSecond b second then 1 + ((more.take n).takeWhile isContinuation).length else 0
  | _, _ => 0

/-- Lossy decoding of what follows the bytes that are still to be skipped. -/
def decodeFrom : ℕ → List UInt8 → List Char
  | _, [] => []
  | skip + 1, _ :: rest => decodeFrom skip rest
  | 0, b :: rest =>
      match decodeChar? (b :: rest) with
      | some c => c :: decodeFrom (c.utf8Size - 1) rest
      | none => REPLACEMENT :: decodeFrom (subpartLength b rest) rest

def decodeLossy (bytes : List UInt8) : List Char := decodeFrom 0 bytes

def decodeStrictFrom : ℕ → List UInt8 → Option (List Char)
  | _, [] => some []
  | skip + 1, _ :: rest => decodeStrictFrom skip rest
  | 0, b :: rest =>
      match decodeChar? (b :: rest) with
      | some c => (decodeStrictFrom (c.utf8Size - 1) rest).map (c :: ·)
      | none => none

def decodeStrict (bytes : List UInt8) : Option (List Char) := decodeStrictFrom 0 bytes

/-! ## Single characters -/

@[simp] theorem encode_nil : encode [] = [] := rfl

@[simp] theorem encode_cons (c : Char) (text : List Char) :
    encode (c :: text) = String.utf8EncodeChar c ++ encode text := rfl

@[simp] theorem encode_append (text more : List Char) :
    encode (text ++ more) = encode text ++ encode more :=
  List.flatMap_append

theorem decodeChar?_encodeChar (c : Char) (rest : List UInt8) :
    decodeChar? (String.utf8EncodeChar c ++ rest) = some c := by
  unfold decodeChar?
  rw [List.toByteArray_append]
  exact ByteArray.utf8DecodeChar?_utf8EncodeChar_append

theorem decodeChar?_eq_some_iff {bytes : List UInt8} {c : Char} :
    decodeChar? bytes = some c ↔ String.utf8EncodeChar c <+: bytes := by
  constructor
  · intro hdecode
    obtain ⟨rest, hrest⟩ := ByteArray.exists_of_utf8DecodeChar?_eq_some hdecode
    refine ⟨rest.data.toList, ?_⟩
    have hlist := congrArg (fun b : ByteArray => b.data.toList) hrest
    simpa using hlist.symm
  · rintro ⟨rest, rfl⟩
    exact decodeChar?_encodeChar c rest

theorem exists_lead (c : Char) : ∃ lead tail, String.utf8EncodeChar c = lead :: tail ∧
    tail.length = c.utf8Size - 1 ∧ lead.IsUTF8FirstByte ∧
      ∀ b ∈ tail, ¬ b.IsUTF8FirstByte := by
  cases hencode : String.utf8EncodeChar c with
  | nil => exact absurd hencode String.utf8EncodeChar_ne_nil
  | cons lead tail =>
      have hlength := String.length_utf8EncodeChar c
      rw [hencode, List.length_cons] at hlength
      have hfirst : ∀ i (hi : i < (lead :: tail).length),
          (lead :: tail)[i].IsUTF8FirstByte ↔ i = 0 := by
        rw [← hencode]
        intro i hi
        exact UInt8.isUTF8FirstByte_getElem_utf8EncodeChar
      refine ⟨lead, tail, rfl, by omega, (hfirst 0 (by simp)).mpr rfl, ?_⟩
      intro b hb hlead
      obtain ⟨i, hi, rfl⟩ := List.getElem_of_mem hb
      have hzero := (hfirst (i + 1) (by simpa using hi)).mp hlead
      omega

theorem mem_encodeChar_iff {c single : Char} {x : UInt8}
    (hsingle : String.utf8EncodeChar single = [x]) :
    x ∈ String.utf8EncodeChar c ↔ c = single := by
  constructor
  · intro hmem
    obtain ⟨lead, tail, hencode, -, -, htail⟩ := exists_lead c
    obtain ⟨lead', tail', hencode', -, hlead', -⟩ := exists_lead single
    rw [hsingle] at hencode'
    obtain ⟨rfl, -⟩ := List.cons.inj hencode'
    rw [hencode] at hmem
    rcases List.mem_cons.mp hmem with rfl | hmem
    · have hstart : String.utf8EncodeChar single <+: String.utf8EncodeChar c := by
        rw [hsingle, hencode]
        exact ⟨tail, rfl⟩
      have hself := decodeChar?_encodeChar c []
      rw [List.append_nil, decodeChar?_eq_some_iff.mpr hstart] at hself
      exact (Option.some.inj hself).symm
    · exact absurd hlead' (htail x hmem)
  · rintro rfl
    rw [hsingle]
    exact List.mem_singleton_self x

theorem mem_encode_iff {text : List Char} {single : Char} {x : UInt8}
    (hsingle : String.utf8EncodeChar single = [x]) : x ∈ encode text ↔ single ∈ text := by
  simp [encode, mem_encodeChar_iff hsingle]

theorem encodeChar_newline : String.utf8EncodeChar '\n' = [10] := by decide

theorem encodeChar_nul : String.utf8EncodeChar '\x00' = [0] := by decide

/-! ## Lossy decoding -/

theorem decodeFrom_eq_drop (skip : ℕ) (bytes : List UInt8) :
    decodeFrom skip bytes = decodeLossy (bytes.drop skip) := by
  induction skip generalizing bytes with
  | zero => rfl
  | succ skip ih =>
      cases bytes with
      | nil => rfl
      | cons b rest => exact ih rest

theorem decodeLossy_of_some {b : UInt8} {rest : List UInt8} {c : Char}
    (hdecode : decodeChar? (b :: rest) = some c) :
    decodeLossy (b :: rest) = c :: decodeLossy (rest.drop (c.utf8Size - 1)) := by
  rw [← decodeFrom_eq_drop]
  unfold decodeLossy
  rw [decodeFrom, hdecode]

theorem decodeLossy_of_none {b : UInt8} {rest : List UInt8}
    (hdecode : decodeChar? (b :: rest) = none) :
    decodeLossy (b :: rest) =
      REPLACEMENT :: decodeLossy (rest.drop (subpartLength b rest)) := by
  rw [← decodeFrom_eq_drop]
  unfold decodeLossy
  rw [decodeFrom, hdecode]

theorem decodeLossy_encodeChar_append (c : Char) (rest : List UInt8) :
    decodeLossy (String.utf8EncodeChar c ++ rest) = c :: decodeLossy rest := by
  have hdecode := decodeChar?_encodeChar c rest
  obtain ⟨lead, tail, hencode, hlength, -, -⟩ := exists_lead c
  rw [hencode, List.cons_append] at hdecode ⊢
  rw [decodeLossy_of_some hdecode, ← hlength, List.drop_left]

theorem decodeLossy_encode_append (text : List Char) (rest : List UInt8) :
    decodeLossy (encode text ++ rest) = text ++ decodeLossy rest := by
  induction text with
  | nil => rfl
  | cons c text ih =>
      rw [encode_cons, List.append_assoc, decodeLossy_encodeChar_append, ih]
      rfl

theorem decodeLossy_encode (text : List Char) : decodeLossy (encode text) = text := by
  have hdecode := decodeLossy_encode_append text []
  rwa [List.append_nil, show decodeLossy [] = [] from rfl, List.append_nil] at hdecode

theorem encode_injective : Function.Injective encode := by
  intro text text' heq
  rw [← decodeLossy_encode text, heq, decodeLossy_encode]

theorem decodeStrictFrom_eq_drop (skip : ℕ) (bytes : List UInt8) :
    decodeStrictFrom skip bytes = decodeStrict (bytes.drop skip) := by
  induction skip generalizing bytes with
  | zero => rfl
  | succ skip ih =>
      cases bytes with
      | nil => rfl
      | cons b rest => exact ih rest

theorem decodeStrict_encodeChar_append (c : Char) (rest : List UInt8) :
    decodeStrict (String.utf8EncodeChar c ++ rest) = (decodeStrict rest).map (c :: ·) := by
  have hdecode := decodeChar?_encodeChar c rest
  obtain ⟨lead, tail, hencode, hlength, -, -⟩ := exists_lead c
  rw [hencode, List.cons_append] at hdecode ⊢
  unfold decodeStrict
  rw [decodeStrictFrom, hdecode]
  dsimp only
  rw [decodeStrictFrom_eq_drop, ← hlength, List.drop_left]
  rfl

theorem decodeStrict_encode (text : List Char) : decodeStrict (encode text) = some text := by
  induction text with
  | nil => rfl
  | cons c text ih =>
      rw [encode_cons, decodeStrict_encodeChar_append, ih]
      rfl

theorem decodeStrict_eq_some_iff {bytes : List UInt8} {text : List Char} :
    decodeStrict bytes = some text ↔ bytes = encode text := by
  refine ⟨fun hdecode => ?_, fun hbytes => hbytes ▸ decodeStrict_encode text⟩
  induction hlength : bytes.length using Nat.strong_induction_on generalizing bytes text with
  | h length ih =>
      cases bytes with
      | nil =>
          obtain rfl := Option.some.inj hdecode
          rfl
      | cons b rest =>
          cases hchar : decodeChar? (b :: rest) with
          | none =>
              unfold decodeStrict at hdecode
              rw [decodeStrictFrom, hchar] at hdecode
              contradiction
          | some c =>
              obtain ⟨more, hmore⟩ := decodeChar?_eq_some_iff.mp hchar
              have hsize := congrArg List.length hmore
              have hpos := c.utf8Size_pos
              rw [List.length_append, String.length_utf8EncodeChar] at hsize
              rw [← hmore, decodeStrict_encodeChar_append, Option.map_eq_some_iff] at hdecode
              obtain ⟨tail, htail, rfl⟩ := hdecode
              rw [← hmore, encode_cons, ih more.length (by omega) htail rfl]

theorem decodeChar?_of_not_first {b : UInt8} {rest : List UInt8}
    (hb : ¬ b.IsUTF8FirstByte) : decodeChar? (b :: rest) = none := by
  rw [Option.eq_none_iff_forall_not_mem]
  intro c hc
  obtain ⟨lead, tail, hencode, -, hlead, -⟩ := exists_lead c
  obtain ⟨more, hmore⟩ := decodeChar?_eq_some_iff.mp hc
  rw [hencode] at hmore
  obtain ⟨rfl, -⟩ := List.cons.inj hmore
  exact hb hlead

theorem continuations_of_not_first {b : UInt8} (hb : ¬ b.IsUTF8FirstByte) :
    continuations b = 0 := by
  unfold UInt8.IsUTF8FirstByte at hb
  unfold continuations
  rw [if_neg fun h => hb (Or.inr (Or.inl h.1)), if_neg fun h => hb (Or.inr (Or.inr (Or.inl h))),
    if_neg fun h => hb (Or.inr (Or.inr (Or.inr h.1)))]

theorem decodeLossy_of_not_first {bytes : List UInt8}
    (hbytes : ∀ b ∈ bytes, ¬ b.IsUTF8FirstByte) (rest : List UInt8) :
    decodeLossy (bytes ++ rest) =
      List.replicate bytes.length REPLACEMENT ++ decodeLossy rest := by
  induction bytes with
  | nil => rfl
  | cons b bytes ih =>
      have hb := hbytes b List.mem_cons_self
      have hsubpart : subpartLength b (bytes ++ rest) = 0 := by
        unfold subpartLength
        rw [continuations_of_not_first hb]
      rw [List.cons_append, decodeLossy_of_none (decodeChar?_of_not_first hb), hsubpart,
        List.drop_zero, ih fun b' h => hbytes b' (List.mem_cons_of_mem b h)]
      rfl

theorem decodeChar?_of_cut {c : Char} {cut rest : List UInt8}
    (hchar : String.utf8EncodeChar c = cut ++ rest) (hrest : rest ≠ []) :
    decodeChar? cut = none := by
  rw [Option.eq_none_iff_forall_not_mem]
  intro c' hc'
  have hstart : String.utf8EncodeChar c' <+: cut := decodeChar?_eq_some_iff.mp hc'
  have hlong : String.utf8EncodeChar c' <+: String.utf8EncodeChar c := by
    rw [hchar]
    exact hstart.trans (List.prefix_append cut rest)
  have hself := decodeChar?_encodeChar c []
  rw [List.append_nil, decodeChar?_eq_some_iff.mpr hlong] at hself
  obtain rfl := Option.some.inj hself
  have hlength := hstart.length_le
  rw [hchar, List.length_append] at hlength
  exact hrest (List.length_eq_zero_iff.mp (by omega))

theorem decodeLossy_ne_nil {bytes : List UInt8} (hbytes : bytes ≠ []) : decodeLossy bytes ≠ [] := by
  obtain ⟨b, rest, rfl⟩ := List.exists_cons_of_ne_nil hbytes
  cases hdecode : decodeChar? (b :: rest) with
  | none => simp [decodeLossy_of_none hdecode]
  | some c => simp [decodeLossy_of_some hdecode]

/-! ## The last character -/

theorem isContinuation_of_mem_subpart {b x : UInt8} {rest : List UInt8}
    (hx : x ∈ rest.take (subpartLength b rest)) : isContinuation x = true := by
  unfold subpartLength at hx
  split at hx
  · rename_i n second more hcount
    split at hx
    · rename_i hsecond
      rw [Nat.add_comm, List.take_succ_cons] at hx
      rcases List.mem_cons.mp hx with rfl | hx
      · exact (Bool.and_eq_true_iff.mp hsecond).1
      · have hstart : more.take ((more.take n).takeWhile isContinuation).length =
            (more.take n).takeWhile isContinuation := by
          have htake : (more.take n).takeWhile isContinuation <+: more :=
            (List.takeWhile_prefix _).trans (List.take_prefix n more)
          exact (List.prefix_iff_eq_take.mp htake).symm
        rw [hstart] at hx
        exact List.mem_takeWhile_imp hx
    · simp at hx
  · simp at hx

theorem getLast?_of_drop_eq_nil {b : UInt8} {rest : List UInt8}
    (hrest : (decodeChar? (b :: rest) = none ∧ rest.drop (subpartLength b rest) = []) ∨
      ∃ c, decodeChar? (b :: rest) = some c ∧ rest.drop (c.utf8Size - 1) = []) :
    (decodeLossy (b :: rest)).getLast? = some '\n' ↔ (b :: rest).getLast? = some 10 := by
  rcases hrest with ⟨hdecode, hdrop⟩ | ⟨c, hdecode, hdrop⟩
  · rw [decodeLossy_of_none hdecode, hdrop]
    have hlast : (b :: rest).getLast? ≠ some 10 := by
      intro hlast
      rcases List.eq_nil_or_concat' rest with rfl | ⟨init, last, rfl⟩
      · obtain rfl : b = 10 := by simpa using hlast
        have hnewline := decodeChar?_encodeChar '\n' []
        rw [encodeChar_newline, List.append_nil, hdecode] at hnewline
        simp at hnewline
      · obtain rfl : last = 10 := by simpa [List.getLast?_cons] using hlast
        have hall := List.drop_eq_nil_iff.mp hdrop
        have hmem : 10 ∈ (init ++ [10]).take (subpartLength b (init ++ [10])) := by
          rw [List.take_of_length_le hall]
          exact List.mem_append_right init (List.mem_singleton_self 10)
        exact absurd (isContinuation_of_mem_subpart hmem) (by decide)
    have hreplaced : [REPLACEMENT].getLast? ≠ some '\n' := by decide
    exact ⟨fun h => absurd h hreplaced, fun h => absurd h hlast⟩
  · have hencode : b :: rest = String.utf8EncodeChar c := by
      obtain ⟨more, hmore⟩ := decodeChar?_eq_some_iff.mp hdecode
      have hlength := congrArg List.length hmore
      have hsize := List.drop_eq_nil_iff.mp hdrop
      have hpos := c.utf8Size_pos
      rw [List.length_append, String.length_utf8EncodeChar, List.length_cons] at hlength
      obtain rfl : more = [] := List.length_eq_zero_iff.mp (by omega)
      rw [← hmore, List.append_nil]
    rw [decodeLossy_of_some hdecode, hdrop, hencode]
    constructor
    · intro hlast
      obtain rfl : c = '\n' := by simpa [decodeLossy, decodeFrom] using hlast
      rw [encodeChar_newline]
      rfl
    · intro hlast
      obtain rfl := (mem_encodeChar_iff encodeChar_newline).mp (List.mem_of_getLast? hlast)
      rfl

theorem getLast?_decodeLossy {bytes : List UInt8} (hbytes : bytes ≠ []) :
    (decodeLossy bytes).getLast? = some '\n' ↔ bytes.getLast? = some 10 := by
  induction hlength : bytes.length using Nat.strong_induction_on generalizing bytes with
  | h length ih =>
      obtain ⟨b, rest, rfl⟩ := List.exists_cons_of_ne_nil hbytes
      have hrecurse : ∀ {x : Char} {k : ℕ},
          decodeLossy (b :: rest) = x :: decodeLossy (rest.drop k) →
          rest.drop k ≠ [] →
            ((decodeLossy (b :: rest)).getLast? = some '\n' ↔ (b :: rest).getLast? = some 10) := by
        intro x k hdecode hdrop
        have hrest := ih (rest.drop k).length (by
          rw [← hlength, List.length_drop, List.length_cons]
          omega) hdrop rfl
        have hsuffix : (b :: rest).getLast? = (rest.drop k).getLast? := by
          conv_lhs => rw [← List.take_append_drop k rest, ← List.cons_append]
          exact List.getLast?_append_of_ne_nil _ hdrop
        rw [hdecode, hsuffix, ← hrest]
        exact Eq.congr_left (List.getLast?_append_of_ne_nil [x] (decodeLossy_ne_nil hdrop))
      cases hdecode : decodeChar? (b :: rest) with
      | none =>
          by_cases hdrop : rest.drop (subpartLength b rest) = []
          · exact getLast?_of_drop_eq_nil (Or.inl ⟨hdecode, hdrop⟩)
          · exact hrecurse (decodeLossy_of_none hdecode) hdrop
      | some c =>
          by_cases hdrop : rest.drop (c.utf8Size - 1) = []
          · exact getLast?_of_drop_eq_nil (Or.inr ⟨c, hdecode, hdrop⟩)
          · exact hrecurse (decodeLossy_of_some hdecode) hdrop

/-! ## Pieces of an encoded text -/

/-- A text is cut between two characters or inside one. -/
theorem cut_cases {text : List Char} {front back : List UInt8}
    (htext : front ++ back = encode text) :
    (∃ before after, text = before ++ after ∧ front = encode before ∧ back = encode after) ∨
      ∃ before c after cut rest, text = before ++ c :: after ∧ front = encode before ++ cut ∧
        back = rest ++ encode after ∧ String.utf8EncodeChar c = cut ++ rest ∧
        cut ≠ [] ∧ rest ≠ [] := by
  induction text generalizing front with
  | nil =>
      obtain ⟨rfl, rfl⟩ := List.append_eq_nil_iff.mp htext
      exact Or.inl ⟨[], [], rfl, rfl, rfl⟩
  | cons c text ih =>
      rw [encode_cons] at htext
      rcases List.append_eq_append_iff.mp htext with ⟨rest, hchar, hback⟩ | ⟨more, hfront, hmore⟩
      · by_cases hcut : front = []
        · left
          refine ⟨[], c :: text, rfl, hcut, ?_⟩
          rw [hcut, List.nil_append] at hchar
          rw [hback, encode_cons, hchar]
        · by_cases hrest : rest = []
          · left
            rw [hrest, List.append_nil] at hchar
            rw [hrest, List.nil_append] at hback
            exact ⟨[c], text, rfl, by simp [hchar], hback⟩
          · exact Or.inr ⟨[], c, text, front, rest, rfl, by simp, hback, hchar, hcut, hrest⟩
      · rcases ih hmore.symm with ⟨before, after, rfl, rfl, hback⟩ |
            ⟨before, c', after, cut, rest, rfl, rfl, hback, hchar, hcut, hrest⟩
        · exact Or.inl ⟨c :: before, after, rfl, by rw [hfront, encode_cons], hback⟩
        · refine Or.inr ⟨c :: before, c', after, cut, rest, rfl, ?_, hback, hchar, hcut, hrest⟩
          rw [hfront, encode_cons, List.append_assoc]

theorem eq_encode_of_getLast? {text : List Char} {front back : List UInt8}
    (htext : front ++ back = encode text) (hlast : front.getLast? = some 10) :
    ∃ before after, text = before ++ after ∧ front = encode before ∧ back = encode after := by
  rcases cut_cases htext with
    hbetween | ⟨before, c, after, cut, rest, -, rfl, -, hchar, hcut, hrest⟩
  · exact hbetween
  · rw [List.getLast?_append_of_ne_nil _ hcut] at hlast
    have hmem : (10 : UInt8) ∈ String.utf8EncodeChar c := by
      rw [hchar]
      exact List.mem_append_left rest (List.mem_of_getLast? hlast)
    obtain rfl := (mem_encodeChar_iff encodeChar_newline).mp hmem
    have hlength := congrArg List.length hchar
    rw [encodeChar_newline, List.length_append, List.length_singleton] at hlength
    have hcutPos := List.length_pos_of_ne_nil hcut
    have hrestPos := List.length_pos_of_ne_nil hrest
    omega

theorem not_first_of_cut {c : Char} {cut rest : List UInt8}
    (hchar : String.utf8EncodeChar c = cut ++ rest) (hcut : cut ≠ []) :
    ∀ b ∈ rest, ¬ b.IsUTF8FirstByte := by
  obtain ⟨lead, tail, hencode, -, -, htail⟩ := exists_lead c
  obtain ⟨b, cut, rfl⟩ := List.exists_cons_of_ne_nil hcut
  rw [hencode, List.cons_append] at hchar
  obtain ⟨-, htailEq⟩ := List.cons.inj hchar
  intro b hb
  exact htail b (htailEq ▸ List.mem_append_right cut hb)

theorem flatMap_decodeLossy {pieces : List (List UInt8)} {text : List Char}
    (hjoin : pieces.flatten = encode text)
    (huncut : ∀ piece ∈ pieces, ∃ part, piece = encode part) :
    pieces.flatMap decodeLossy = text := by
  apply encode_injective
  rw [← hjoin]
  unfold encode
  rw [List.flatMap_assoc, ← List.flatMap_id]
  apply List.flatMap_congr
  intro piece hpiece
  obtain ⟨part, rfl⟩ := huncut piece hpiece
  change encode (decodeLossy (encode part)) = encode part
  rw [decodeLossy_encode]

section

open TextOperations

variable {white : Char → Bool}

theorem inkCount_replicate (hwhite : white REPLACEMENT = false) (n : ℕ) :
    inkCount white (List.replicate n REPLACEMENT) = n := by
  simp [inkCount, List.countP_replicate, hwhite]

theorem inkCount_cut (hwhite : white REPLACEMENT = false) {c : Char} {cut rest : List UInt8}
    (hchar : String.utf8EncodeChar c = cut ++ rest) (hcut : cut ≠ []) (hrest : rest ≠ []) :
    1 ≤ inkCount white (decodeLossy cut) := by
  obtain ⟨b, more, rfl⟩ := List.exists_cons_of_ne_nil hcut
  rw [decodeLossy_of_none (decodeChar?_of_cut hchar hrest)]
  simp [inkCount, hwhite]

/-- Decoding in pieces never loses ink, and gains some where a character is cut.
The first piece may begin inside a character. -/
theorem inkCount_pieces (hwhite : white REPLACEMENT = false) {pieces : List (List UInt8)}
    {text : List Char} {started : List UInt8} (hstarted : ∀ b ∈ started, ¬ b.IsUTF8FirstByte)
    (hjoin : pieces.flatten = started ++ encode text) :
    started.length + inkCount white text ≤ inkCount white (pieces.flatMap decodeLossy) ∧
      (started = [] → (∃ piece ∈ pieces, ∀ part, piece ≠ encode part) →
        inkCount white text < inkCount white (pieces.flatMap decodeLossy)) := by
  induction pieces generalizing text started with
  | nil =>
      obtain ⟨rfl, htext⟩ := List.append_eq_nil_iff.mp hjoin.symm
      have hempty : text = [] := encode_injective htext
      simp [hempty]
  | cons piece pieces ih =>
      rw [List.flatten_cons] at hjoin
      rw [List.flatMap_cons, inkCount_append]
      rcases List.append_eq_append_iff.mp hjoin with ⟨left, hleft, hrest⟩ | ⟨own, hpiece, hrest⟩
      · -- the piece ends before the next character begins
        subst hleft
        have hpieceOnly := decodeLossy_of_not_first
          (fun b hb => hstarted b (List.mem_append_left left hb)) ([] : List UInt8)
        have hink : inkCount white (decodeLossy piece) = piece.length := by
          rw [List.append_nil, show decodeLossy [] = [] from rfl, List.append_nil] at hpieceOnly
          rw [hpieceOnly, inkCount_replicate hwhite]
        obtain ⟨hle, hlt⟩ := ih (fun b hb => hstarted b (List.mem_append_right piece hb)) hrest
        rw [hink, List.length_append]
        refine ⟨by omega, ?_⟩
        intro hempty hbad
        obtain ⟨rfl, rfl⟩ := List.append_eq_nil_iff.mp hempty
        have hbad' : ∃ piece ∈ pieces, ∀ part, piece ≠ encode part := by
          obtain ⟨bad, hmem, hbad⟩ := hbad
          rcases List.mem_cons.mp hmem with rfl | hmem
          · exact absurd rfl (hbad [])
          · exact ⟨bad, hmem, hbad⟩
        have hstrict := hlt rfl hbad'
        omega
      · have hown := decodeLossy_of_not_first hstarted own
        have hink : inkCount white (decodeLossy piece) =
            started.length + inkCount white (decodeLossy own) := by
          rw [hpiece, hown, inkCount_append, inkCount_replicate hwhite]
        rw [hink]
        rcases cut_cases hrest.symm with ⟨before, after, rfl, rfl, hback⟩ |
            ⟨before, c, after, cut, rest, rfl, rfl, hback, hchar, hcut, hrestNe⟩
        · have hnone : ∀ b ∈ ([] : List UInt8), ¬ b.IsUTF8FirstByte := by simp
          obtain ⟨hle, hlt⟩ := ih hnone (hback.trans (List.nil_append _).symm)
          rw [decodeLossy_encode, inkCount_append]
          rw [List.length_nil] at hle
          refine ⟨by omega, ?_⟩
          rintro rfl ⟨bad, hmem, hbad⟩
          rcases List.mem_cons.mp hmem with rfl | hmem
          · exact absurd hpiece (hbad before)
          · have hstrict := hlt rfl ⟨bad, hmem, hbad⟩
            omega
        · -- a cut character costs one replacement here and one for each byte that follows
          obtain ⟨hle, -⟩ := ih (not_first_of_cut hchar hcut) hback
          have hcutInk := inkCount_cut hwhite hchar hcut hrestNe
          have hrestPos := List.length_pos_of_ne_nil hrestNe
          have hone : inkCount white [c] ≤ 1 := List.countP_le_length
          have hsplit : inkCount white (c :: after) =
              inkCount white [c] + inkCount white after := inkCount_append [c] after
          rw [decodeLossy_encode_append, inkCount_append, inkCount_append, hsplit]
          refine ⟨by omega, fun hempty hbad => ?_⟩
          omega

/-- Pieces that lose nothing and gain nothing end between characters. -/
theorem uncut_of_inkCount (hwhite : white REPLACEMENT = false) {pieces : List (List UInt8)}
    {text : List Char} (hjoin : pieces.flatten = encode text)
    (hink : inkCount white (pieces.flatMap decodeLossy) = inkCount white text) :
    ∀ piece ∈ pieces, ∃ part, piece = encode part := by
  by_contra huncut
  push Not at huncut
  have hnone : ∀ b ∈ ([] : List UInt8), ¬ b.IsUTF8FirstByte := by simp
  have hgained := (inkCount_pieces hwhite hnone (hjoin.trans (List.nil_append _).symm)).2 rfl huncut
  omega

end

end Utf8
