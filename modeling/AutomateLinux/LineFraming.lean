import Mathlib.Data.List.Basic
import Mathlib.Data.List.Chain
import Mathlib.Data.List.Infix
import Mathlib.Data.List.TakeWhile

/-!
# Framing a stream into terminated lines

A receiver appends whatever a read returns to a buffer and cuts complete lines
off its front.  The lines it extracts, and the rest it keeps, depend only on
the stream and not on how the reads cut it: `split_append` says so for one more
read.  Streams made of whole messages split into the lines of the messages.
-/

namespace LineFraming

variable {α : Type*} (isNewline : α → Bool)

/-- The complete lines of a stream, without their terminators, and the
unterminated rest. -/
def split : List α → List (List α) × List α
  | [] => ([], [])
  | a :: rest =>
      if isNewline a then ([] :: (split rest).1, (split rest).2)
      else
        match split rest with
        | ([], remainder) => ([], a :: remainder)
        | (line :: lines, remainder) => ((a :: line) :: lines, remainder)

def lines (stream : List α) : List (List α) := (split isNewline stream).1

def remainder (stream : List α) : List α := (split isNewline stream).2

/-- What a receiver has extracted and what it keeps after one more read. -/
def receive (state : List (List α) × List α) (chunk : List α) :
    List (List α) × List α :=
  (state.1 ++ lines isNewline (state.2 ++ chunk),
    remainder isNewline (state.2 ++ chunk))

variable {isNewline}

@[simp] theorem split_nil : split isNewline [] = ([], []) := rfl

theorem remainder_cons_newline {a : α} (ha : isNewline a = true)
    (rest : List α) :
    remainder isNewline (a :: rest) = remainder isNewline rest := by
  simp [remainder, split, ha]

theorem split_of_forall_not {stream : List α}
    (hnone : ∀ a ∈ stream, isNewline a = false) :
    split isNewline stream = ([], stream) := by
  induction stream with
  | nil => rfl
  | cons a rest ih =>
      have ha : isNewline a = false := hnone a (by simp)
      have hrest := ih fun b hb => hnone b (List.mem_cons_of_mem a hb)
      simp [split, ha, hrest]

theorem not_mem_remainder (stream : List α) :
    ∀ a ∈ remainder isNewline stream, isNewline a = false := by
  induction stream with
  | nil => simp [remainder]
  | cons a rest ih =>
      by_cases ha : isNewline a = true
      · rw [remainder_cons_newline ha]
        exact ih
      · intro b hb
        unfold remainder at hb ih
        simp only [split, ha, Bool.false_eq_true, if_false] at hb
        split at hb
        · rename_i heq
          simp only [List.mem_cons] at hb
          rcases hb with rfl | hb
          · simpa using ha
          · exact ih b (by simpa [heq] using hb)
        · rename_i heq
          exact ih b (by simpa [heq] using hb)

theorem split_line_append {line : List α} {newline : α}
    (hline : ∀ a ∈ line, isNewline a = false)
    (hnewline : isNewline newline = true) (rest : List α) :
    split isNewline (line ++ newline :: rest) =
      (line :: lines isNewline rest, remainder isNewline rest) := by
  induction line with
  | nil => simp [split, hnewline, lines, remainder]
  | cons a line ih =>
      have ha : isNewline a = false := hline a (by simp)
      have htail := ih fun b hb => hline b (List.mem_cons_of_mem a hb)
      simp [split, ha, htail]

variable (isNewline) in
theorem forall_not_or_exists_line (stream : List α) :
    (∀ a ∈ stream, isNewline a = false) ∨
      ∃ line newline rest, stream = line ++ newline :: rest ∧
        (∀ a ∈ line, isNewline a = false) ∧ isNewline newline = true := by
  induction stream with
  | nil => exact Or.inl (by simp)
  | cons a stream ih =>
      by_cases ha : isNewline a = true
      · exact Or.inr ⟨[], a, stream, rfl, by simp, ha⟩
      · have ha' : isNewline a = false := by simpa using ha
        rcases ih with hnone | ⟨line, newline, rest, rfl, hline, hnewline⟩
        · exact Or.inl (by simpa [ha'] using hnone)
        · exact Or.inr ⟨a :: line, newline, rest, rfl,
            by simpa [ha'] using hline, hnewline⟩

variable (isNewline) in
theorem line_induction {motive : List α → Prop}
    (unterminated : ∀ stream, (∀ a ∈ stream, isNewline a = false) →
      motive stream)
    (line : ∀ line newline rest, (∀ a ∈ line, isNewline a = false) →
      isNewline newline = true → motive rest →
      motive (line ++ newline :: rest)) (stream : List α) : motive stream := by
  induction hlength : stream.length using Nat.strong_induction_on
    generalizing stream with
  | _ length ih =>
      rcases forall_not_or_exists_line isNewline stream with
        hnone | ⟨first, newline, rest, rfl, hfirst, hnewline⟩
      · exact unterminated stream hnone
      · refine line first newline rest hfirst hnewline (ih rest.length ?_ rest rfl)
        simp only [List.length_append, List.length_cons] at hlength
        omega

/-- Reading on: the lines of a longer stream are the lines of its first part
followed by those of the kept rest together with the second part. -/
theorem split_append (first second : List α) :
    split isNewline (first ++ second) =
      (lines isNewline first ++
          lines isNewline (remainder isNewline first ++ second),
        remainder isNewline (remainder isNewline first ++ second)) := by
  induction first using line_induction isNewline with
  | unterminated first hnone =>
      have hfirst := split_of_forall_not hnone
      simp [lines, remainder, hfirst]
  | line line newline rest hline hnewline ih =>
      have hlong := split_line_append hline hnewline (rest ++ second)
      have hshort := split_line_append hline hnewline rest
      have hlines : lines isNewline (line ++ newline :: rest) =
          line :: lines isNewline rest := congrArg Prod.fst hshort
      have hrest : remainder isNewline (line ++ newline :: rest) =
          remainder isNewline rest := by
        unfold remainder
        rw [hshort]
        rfl
      have hih : split isNewline (rest ++ second) =
          (lines isNewline (rest ++ second),
            remainder isNewline (rest ++ second)) := rfl
      rw [hih, Prod.mk.injEq] at ih
      rw [List.append_assoc, List.cons_append, hlong, hlines, hrest, ih.1, ih.2,
        List.cons_append]

theorem lines_append (first second : List α) :
    lines isNewline (first ++ second) =
      lines isNewline first ++
        lines isNewline (remainder isNewline first ++ second) :=
  congrArg Prod.fst (split_append first second)

theorem remainder_append (first second : List α) :
    remainder isNewline (first ++ second) =
      remainder isNewline (remainder isNewline first ++ second) := by
  have h : (split isNewline (first ++ second)).2 = _ :=
    congrArg Prod.snd (split_append first second)
  exact h

/-! ## Streams made of whole messages -/

/-- Nothing is left over after the last terminator. -/
def Terminated (isNewline : α → Bool) (stream : List α) : Prop :=
  remainder isNewline stream = []

theorem terminated_nil : Terminated isNewline ([] : List α) := rfl

theorem terminated_line {line : List α} {newline : α}
    (hline : ∀ a ∈ line, isNewline a = false)
    (hnewline : isNewline newline = true) :
    Terminated isNewline (line ++ [newline]) := by
  have h := split_line_append hline hnewline []
  exact congrArg Prod.snd h

theorem lines_line {line : List α} {newline : α}
    (hline : ∀ a ∈ line, isNewline a = false)
    (hnewline : isNewline newline = true) :
    lines isNewline (line ++ [newline]) = [line] := by
  have h := split_line_append hline hnewline []
  exact congrArg Prod.fst h

/-- Whole lines, each behind the other, split into themselves. -/
theorem split_flatMap_line {texts : List (List α)} {newline : α}
    (htexts : ∀ text ∈ texts, ∀ a ∈ text, isNewline a = false)
    (hnewline : isNewline newline = true) :
    split isNewline (texts.flatMap fun text => text ++ [newline]) = (texts, []) := by
  induction texts with
  | nil => rfl
  | cons text texts ih =>
      obtain ⟨htext, hrest⟩ := List.forall_mem_cons.mp htexts
      have hsplit := ih hrest
      rw [List.flatMap_cons, List.append_assoc, List.singleton_append,
        split_line_append htext hnewline, lines, remainder, hsplit]

variable (isNewline) in
theorem length_lines (stream : List α) :
    (lines isNewline stream).length = stream.countP isNewline := by
  induction stream using line_induction isNewline with
  | unterminated stream hnone =>
      have hsplit := congrArg Prod.fst (split_of_forall_not hnone)
      rw [show lines isNewline stream = [] from hsplit, List.length_nil, eq_comm,
        List.countP_eq_zero]
      exact fun a ha => by simp [hnone a ha]
  | line line newline rest hline hnewline ih =>
      have hsplit := congrArg Prod.fst (split_line_append hline hnewline rest)
      have hzero : line.countP isNewline = 0 :=
        List.countP_eq_zero.mpr fun a ha => by simp [hline a ha]
      rw [show lines isNewline (line ++ newline :: rest) = line :: lines isNewline rest from hsplit,
        List.length_cons, ih, List.countP_append, List.countP_cons_of_pos hnewline, hzero,
        Nat.zero_add]

theorem lines_append_of_terminated {first : List α}
    (hfirst : Terminated isNewline first) (second : List α) :
    lines isNewline (first ++ second) =
      lines isNewline first ++ lines isNewline second := by
  rw [lines_append, hfirst, List.nil_append]

theorem Terminated.append {first second : List α}
    (hfirst : Terminated isNewline first)
    (hsecond : Terminated isNewline second) :
    Terminated isNewline (first ++ second) := by
  unfold Terminated at hfirst hsecond ⊢
  rw [remainder_append, hfirst, List.nil_append, hsecond]

theorem Terminated.flatten {messages : List (List α)}
    (hall : ∀ message ∈ messages, Terminated isNewline message) :
    Terminated isNewline messages.flatten := by
  induction messages with
  | nil => exact terminated_nil
  | cons message messages ih =>
      have htail := ih fun m hm => hall m (List.mem_cons_of_mem message hm)
      exact (hall message (by simp)).append htail

theorem terminated_of_getLast? {stream : List α} {newline : α}
    (hlast : stream.getLast? = some newline)
    (hnewline : isNewline newline = true) : Terminated isNewline stream := by
  induction stream using line_induction isNewline with
  | unterminated stream hnone =>
      have hmem : newline ∈ stream := List.mem_of_getLast? hlast
      rw [hnone newline hmem] at hnewline
      contradiction
  | line line newline' rest hline hnewline' ih =>
      have hrest : Terminated isNewline rest := by
        cases rest with
        | nil => exact terminated_nil
        | cons a rest => exact ih (by simpa using hlast)
      have h := (terminated_line hline hnewline').append hrest
      simpa using h

theorem Terminated.getLast? {stream : List α} {a : α}
    (hterminated : Terminated isNewline stream)
    (hlast : stream.getLast? = some a) : isNewline a = true := by
  induction stream using line_induction isNewline with
  | unterminated stream hnone =>
      have hempty : stream = [] := by
        have hsplit := congrArg Prod.snd (split_of_forall_not hnone)
        exact hsplit.symm.trans hterminated
      simp [hempty] at hlast
  | line line newline rest hline hnewline ih =>
      cases rest with
      | nil =>
          obtain rfl : newline = a := by simpa using hlast
          exact hnewline
      | cons b rest =>
          refine ih ?_ (by simpa using hlast)
          have hsplit := congrArg Prod.snd
            (split_line_append hline hnewline (b :: rest))
          exact hsplit.symm.trans hterminated

variable (isNewline) in
theorem remainder_suffix (stream : List α) :
    remainder isNewline stream <:+ stream := by
  induction stream using line_induction isNewline with
  | unterminated stream hnone =>
      have hsplit := congrArg Prod.snd (split_of_forall_not hnone)
      rw [show remainder isNewline stream = stream from hsplit]
  | line line newline rest hline hnewline ih =>
      have hsplit := congrArg Prod.snd (split_line_append hline hnewline rest)
      rw [show remainder isNewline (line ++ newline :: rest) =
        remainder isNewline rest from hsplit]
      exact ih.trans ⟨line ++ [newline], by simp⟩

theorem mem_of_mem_lines {stream line : List α}
    (hline : line ∈ lines isNewline stream) {a : α} (ha : a ∈ line) :
    a ∈ stream := by
  induction stream using line_induction isNewline with
  | unterminated stream hnone =>
      have hsplit := congrArg Prod.fst (split_of_forall_not hnone)
      rw [show lines isNewline stream = [] from hsplit] at hline
      contradiction
  | line first newline rest hfirst hnewline ih =>
      have hsplit := congrArg Prod.fst (split_line_append hfirst hnewline rest)
      rw [show lines isNewline (first ++ newline :: rest) =
        first :: lines isNewline rest from hsplit] at hline
      rcases List.mem_cons.mp hline with rfl | hline
      · exact List.mem_append_left _ ha
      · exact List.mem_append_right _ (List.mem_cons_of_mem _ (ih hline))

/-! ## The first line of a stream -/

/-- The first line, its terminator and what follows, once the line is there. -/
def takeLine (isNewline : α → Bool) : List α → Option (List α × α × List α)
  | [] => none
  | a :: rest =>
      if isNewline a then some ([], a, rest)
      else
        (takeLine isNewline rest).map fun (line, newline, rest) =>
          (a :: line, newline, rest)

theorem takeLine_line_append {line : List α} {newline : α}
    (hline : ∀ a ∈ line, isNewline a = false)
    (hnewline : isNewline newline = true) (rest : List α) :
    takeLine isNewline (line ++ newline :: rest) =
      some (line, newline, rest) := by
  induction line with
  | nil => simp [takeLine, hnewline]
  | cons a line ih =>
      have ha : isNewline a = false := hline a (by simp)
      have htail := ih fun b hb => hline b (List.mem_cons_of_mem a hb)
      simp [takeLine, ha, htail]

theorem takeLine_eq_some {stream line rest : List α} {newline : α}
    (htake : takeLine isNewline stream = some (line, newline, rest)) :
    stream = line ++ newline :: rest ∧ (∀ a ∈ line, isNewline a = false) ∧
      isNewline newline = true := by
  induction stream generalizing line with
  | nil => contradiction
  | cons a stream ih =>
      by_cases ha : isNewline a = true
      · simp only [takeLine, ha, if_true, Option.some.injEq, Prod.mk.injEq] at htake
        obtain ⟨rfl, rfl, rfl⟩ := htake
        exact ⟨rfl, by simp, ha⟩
      · rw [takeLine, if_neg ha] at htake
        obtain ⟨⟨line', newline', rest'⟩, htail, heq⟩ := Option.map_eq_some_iff.mp htake
        simp only [Prod.mk.injEq] at heq
        obtain ⟨rfl, rfl, rfl⟩ := heq
        obtain ⟨rfl, hline, hnewline⟩ := ih htail
        refine ⟨rfl, fun b hb => ?_, hnewline⟩
        rcases List.mem_cons.mp hb with rfl | hb
        · simpa using ha
        · exact hline b hb

/-! ## A receiver's loop

Each line is processed as soon as it has been cut off the buffer.  Processing
may throw, and it may make the receiver leave the loop for good. -/

/-- The lines cut off, with whether processing them made the receiver leave,
what is left in the buffer, and the state after the processing. -/
structure Extracted (α σ : Type*) where
  lines : List (List α × Bool)
  buffer : List α
  state : σ

def Extracted.left {σ : Type*} (r : Extracted α σ) : Bool := r.lines.any Prod.snd

section

variable {σ ε : Type*} (isNewline)

/-- `process` is given the number of the line within the read. -/
def extract (process : ℕ → List α → σ → Except ε (Bool × σ)) (n : ℕ) (buffer : List α)
    (s : σ) : Except ε (Extracted α σ) :=
  match _htake : takeLine isNewline buffer with
  | none => .ok ⟨[], buffer, s⟩
  | some (line, _, rest) =>
      match process n line s with
      | .error e => .error e
      | .ok (true, s) => .ok ⟨[(line, true)], rest, s⟩
      | .ok (false, s) =>
          (extract process (n + 1) rest s).map fun r =>
            { r with lines := (line, false) :: r.lines }
termination_by buffer.length
decreasing_by
  have hsplit := (takeLine_eq_some _htake).1
  rw [hsplit]
  simp only [List.length_append, List.length_cons]
  omega

/-- The reads of a connection, each with the processing of its lines. -/
def receiveAll : List (List α × (ℕ → List α → σ → Except ε (Bool × σ))) →
    List α → σ → Except ε (Extracted α σ)
  | [], buffer, s => .ok ⟨[], buffer, s⟩
  | (chunk, process) :: reads, buffer, s =>
      match extract isNewline process 0 (buffer ++ chunk) s with
      | .error e => .error e
      | .ok r =>
          if r.left then .ok r
          else
            (receiveAll reads r.buffer r.state).map fun r' =>
              { r' with lines := r.lines ++ r'.lines }

variable {isNewline}

/-- Every line of the stream, or those up to the first that made the receiver
leave. -/
structure Frames (isNewline : α → Bool) (stream : List α) (r : Extracted α σ) : Prop where
  complete : r.left = false →
    r.lines.map Prod.fst = lines isNewline stream ∧ r.buffer = remainder isNewline stream
  isPrefix : r.lines.map Prod.fst <+: lines isNewline stream
  left : r.left = true → ∃ front line,
    r.lines = front ++ [(line, true)] ∧ ∀ l ∈ front, l.2 = false

theorem exists_of_map_eq_ok {β γ : Type*} {x : Except ε β} {f : β → γ} {c : γ}
    (hmap : x.map f = .ok c) : ∃ b, x = .ok b ∧ f b = c := by
  cases x with
  | error e => contradiction
  | ok b => exact ⟨b, rfl, Except.ok.inj hmap⟩

theorem extract_of_none {process : ℕ → List α → σ → Except ε (Bool × σ)} {n : ℕ}
    {buffer : List α} {s : σ} (htake : takeLine isNewline buffer = none) :
    extract isNewline process n buffer s = .ok ⟨[], buffer, s⟩ := by
  rw [extract]
  split
  · rfl
  · rename_i htake'
    rw [htake] at htake'
    contradiction

theorem extract_of_some {process : ℕ → List α → σ → Except ε (Bool × σ)} {n : ℕ}
    {buffer line rest : List α} {newline : α} {s : σ}
    (htake : takeLine isNewline buffer = some (line, newline, rest)) :
    extract isNewline process n buffer s =
      match process n line s with
      | .error e => .error e
      | .ok (true, s) => .ok ⟨[(line, true)], rest, s⟩
      | .ok (false, s) =>
          (extract isNewline process (n + 1) rest s).map fun r =>
            { r with lines := (line, false) :: r.lines } := by
  rw [extract]
  split
  · rename_i htake'
    rw [htake] at htake'
    contradiction
  · rename_i htake'
    rw [htake] at htake'
    simp only [Option.some.injEq, Prod.mk.injEq] at htake'
    obtain ⟨rfl, rfl, rfl⟩ := htake'
    rfl

theorem Frames.cons {rest line : List α} {newline : α} {r : Extracted α σ}
    (hline : ∀ a ∈ line, isNewline a = false) (hnewline : isNewline newline = true)
    (hframes : Frames isNewline rest r) :
    Frames isNewline (line ++ newline :: rest)
      { r with lines := (line, false) :: r.lines } := by
  have hsplit := split_line_append hline hnewline rest
  have hlines : lines isNewline (line ++ newline :: rest) = line :: lines isNewline rest :=
    congrArg Prod.fst hsplit
  have hrest : remainder isNewline (line ++ newline :: rest) = remainder isNewline rest := by
    have hsecond := congrArg Prod.snd hsplit
    exact hsecond
  constructor
  · intro hleft
    obtain ⟨hall, hbuffer⟩ := hframes.complete (by simpa [Extracted.left] using hleft)
    rw [hlines, hrest, List.map_cons, hall]
    exact ⟨rfl, hbuffer⟩
  · rw [hlines, List.map_cons, List.cons_prefix_cons]
    exact ⟨rfl, hframes.isPrefix⟩
  · intro hleft
    obtain ⟨front, last, hlast, hfront⟩ :=
      hframes.left (by simpa [Extracted.left] using hleft)
    refine ⟨(line, false) :: front, last, by rw [hlast]; rfl, fun l hl => ?_⟩
    rcases List.mem_cons.mp hl with rfl | hl
    · rfl
    · exact hfront l hl

theorem frames_of_unterminated {stream : List α}
    (hnone : ∀ a ∈ stream, isNewline a = false) (s : σ) :
    Frames isNewline stream ⟨[], stream, s⟩ := by
  have hsplit := split_of_forall_not hnone
  constructor
  · intro _
    exact ⟨(congrArg Prod.fst hsplit).symm, (congrArg Prod.snd hsplit).symm⟩
  · exact List.nil_prefix
  · intro hleft
    contradiction

theorem takeLine_of_forall_not {stream : List α}
    (hnone : ∀ a ∈ stream, isNewline a = false) : takeLine isNewline stream = none := by
  cases htake : takeLine isNewline stream with
  | none => rfl
  | some found =>
      obtain ⟨hstream, -, hnewline⟩ := takeLine_eq_some htake
      rw [hnone found.2.1 (by rw [hstream]; simp)] at hnewline
      contradiction

theorem extract_frames {process : ℕ → List α → σ → Except ε (Bool × σ)} {n : ℕ}
    {buffer : List α} {s : σ} {r : Extracted α σ}
    (hextract : extract isNewline process n buffer s = .ok r) :
    Frames isNewline buffer r := by
  induction buffer using line_induction isNewline generalizing n s r with
  | unterminated buffer hnone =>
      rw [extract_of_none (takeLine_of_forall_not hnone)] at hextract
      obtain rfl := Except.ok.inj hextract
      exact frames_of_unterminated hnone s
  | line line newline rest hline hnewline ih =>
      rw [extract_of_some (takeLine_line_append hline hnewline rest)] at hextract
      split at hextract
      · contradiction
      · obtain rfl := Except.ok.inj hextract
        have hlines : lines isNewline (line ++ newline :: rest) =
            line :: lines isNewline rest :=
          congrArg Prod.fst (split_line_append hline hnewline rest)
        constructor
        · intro hleft
          contradiction
        · rw [hlines]
          exact List.cons_prefix_cons.mpr ⟨rfl, List.nil_prefix⟩
        · intro _
          exact ⟨[], line, rfl, fun l hl => absurd hl List.not_mem_nil⟩
      · obtain ⟨r', hrest, rfl⟩ := exists_of_map_eq_ok hextract
        exact (ih hrest).cons hline hnewline

/-- A receiver that leaves in the pass over a chunk is done, whatever follows. -/
theorem frames_of_left {seen chunk : List α} {earlier : List (List α × Bool)}
    {first : Extracted α σ} (hearlier : earlier.map Prod.fst = lines isNewline seen)
    (hstayed : ∀ l ∈ earlier, l.2 = false)
    (hframes : Frames isNewline (remainder isNewline seen ++ chunk) first)
    (hleft : first.left = true) (rest : List α) :
    Frames isNewline (seen ++ chunk ++ rest)
      { first with lines := earlier ++ first.lines } := by
  constructor
  · intro hstill
    have hany : (earlier ++ first.lines).any Prod.snd = true := by
      rw [List.any_append, Bool.or_eq_true]
      exact Or.inr hleft
    rw [Extracted.left, hany] at hstill
    contradiction
  · rw [List.map_append, hearlier, lines_append, lines_append, List.append_assoc,
      List.prefix_append_right_inj]
    exact hframes.isPrefix.trans (List.prefix_append _ _)
  · intro _
    obtain ⟨front, line, hlines, hfront⟩ := hframes.left hleft
    refine ⟨earlier ++ front, line, by rw [hlines, List.append_assoc], fun l hl => ?_⟩
    rcases List.mem_append.mp hl with hl | hl
    · exact hstayed l hl
    · exact hfront l hl

theorem receiveAll_frames
    {reads : List (List α × (ℕ → List α → σ → Except ε (Bool × σ)))} {seen : List α}
    {earlier : List (List α × Bool)} {s : σ} {r : Extracted α σ}
    (hearlier : earlier.map Prod.fst = lines isNewline seen)
    (hstayed : ∀ l ∈ earlier, l.2 = false)
    (hreceive : receiveAll isNewline reads (remainder isNewline seen) s = .ok r) :
    Frames isNewline (seen ++ (reads.map Prod.fst).flatten)
      { r with lines := earlier ++ r.lines } := by
  induction reads generalizing seen earlier s r with
  | nil =>
      obtain rfl := Except.ok.inj hreceive
      rw [List.map_nil, List.flatten_nil, List.append_nil, List.append_nil]
      refine ⟨fun _ => ⟨hearlier, rfl⟩, by rw [hearlier], fun hleft => ?_⟩
      obtain ⟨l, hl, htrue⟩ := List.any_eq_true.mp hleft
      rw [hstayed l hl] at htrue
      contradiction
  | cons read reads ih =>
      obtain ⟨chunk, process⟩ := read
      rw [receiveAll] at hreceive
      split at hreceive
      · contradiction
      · rename_i first hfirst
        have hframes := extract_frames hfirst
        rw [List.map_cons, List.flatten_cons, ← List.append_assoc]
        split at hreceive
        · rename_i hleft
          obtain rfl := Except.ok.inj hreceive
          exact frames_of_left hearlier hstayed hframes hleft _
        · rename_i hleft
          have hnot : first.left = false := by simpa using hleft
          obtain ⟨hall, hbuffer⟩ := hframes.complete hnot
          rw [hbuffer, ← remainder_append] at hreceive
          obtain ⟨last, hrest, rfl⟩ := exists_of_map_eq_ok hreceive
          have hsofar : (earlier ++ first.lines).map Prod.fst =
              lines isNewline (seen ++ chunk) := by
            rw [List.map_append, hearlier, hall, lines_append seen chunk]
          have hstill : ∀ l ∈ earlier ++ first.lines, l.2 = false := by
            intro l hl
            rcases List.mem_append.mp hl with hl | hl
            · exact hstayed l hl
            · simpa using List.any_eq_false.mp hnot l hl
          rw [← List.append_assoc]
          exact ih hsofar hstill hrest

theorem frames_of_receiveAll
    {reads : List (List α × (ℕ → List α → σ → Except ε (Bool × σ)))} {s : σ}
    {r : Extracted α σ} (hreceive : receiveAll isNewline reads [] s = .ok r) :
    Frames isNewline (reads.map Prod.fst).flatten r := by
  have hnothing : ([] : List (List α × Bool)).map Prod.fst = lines isNewline [] := rfl
  have hframes := receiveAll_frames hnothing (fun l hl => absurd hl List.not_mem_nil) hreceive
  exact hframes

/-- A receiver whose buffer is not empty at its first read. -/
theorem frames_of_receiveAll_cons {chunk kept : List α}
    {process : ℕ → List α → σ → Except ε (Bool × σ)}
    {reads : List (List α × (ℕ → List α → σ → Except ε (Bool × σ)))} {s : σ}
    {r : Extracted α σ}
    (hreceive : receiveAll isNewline ((chunk, process) :: reads) kept s = .ok r) :
    Frames isNewline (kept ++ (chunk ++ (reads.map Prod.fst).flatten)) r := by
  have hfirst : receiveAll isNewline ((kept ++ chunk, process) :: reads) [] s = .ok r := hreceive
  have hframes := frames_of_receiveAll hfirst
  rwa [List.map_cons, List.flatten_cons, List.append_assoc] at hframes

/-- Processing that keeps the receiver in the loop. -/
def Stays (process : ℕ → List α → σ → Except ε (Bool × σ)) : Prop :=
  ∀ n line s left s', process n line s = .ok (left, s') → left = false

theorem extract_left {process : ℕ → List α → σ → Except ε (Bool × σ)}
    (hstays : Stays process) {n : ℕ} {buffer : List α} {s : σ} {r : Extracted α σ}
    (hextract : extract isNewline process n buffer s = .ok r) : r.left = false := by
  induction buffer using line_induction isNewline generalizing n s r with
  | unterminated buffer hnone =>
      rw [extract_of_none (takeLine_of_forall_not hnone)] at hextract
      obtain rfl := Except.ok.inj hextract
      rfl
  | line line newline rest hline hnewline ih =>
      rw [extract_of_some (takeLine_line_append hline hnewline rest)] at hextract
      split at hextract
      · contradiction
      · rename_i hprocess
        exact absurd (hstays _ _ _ _ _ hprocess) (by simp)
      · obtain ⟨r', hrest, rfl⟩ := exists_of_map_eq_ok hextract
        simpa [Extracted.left] using ih hrest

theorem receiveAll_left {reads : List (List α × (ℕ → List α → σ → Except ε (Bool × σ)))}
    (hstays : ∀ read ∈ reads, Stays read.2) {buffer : List α} {s : σ} {r : Extracted α σ}
    (hreceive : receiveAll isNewline reads buffer s = .ok r) : r.left = false := by
  induction reads generalizing buffer s r with
  | nil =>
      obtain rfl := Except.ok.inj hreceive
      rfl
  | cons read reads ih =>
      obtain ⟨chunk, process⟩ := read
      rw [receiveAll] at hreceive
      split at hreceive
      · contradiction
      · rename_i first hfirst
        have hnot : first.left = false :=
          extract_left (hstays _ List.mem_cons_self) hfirst
        rw [if_neg (by simp [hnot])] at hreceive
        obtain ⟨last, hrest, rfl⟩ := exists_of_map_eq_ok hreceive
        have hlast := ih (fun read hread => hstays read (List.mem_cons_of_mem _ hread)) hrest
        unfold Extracted.left at hnot hlast ⊢
        rw [List.any_append, hnot, hlast]
        rfl

/-- Processing that makes the receiver leave at the lines that say so. -/
def LeavesAt (leaves : List α → Bool) (process : ℕ → List α → σ → Except ε (Bool × σ)) : Prop :=
  ∀ n line s left s', process n line s = .ok (left, s') → left = leaves line

theorem extract_flags {leaves : List α → Bool}
    {process : ℕ → List α → σ → Except ε (Bool × σ)} (hleaves : LeavesAt leaves process) {n : ℕ}
    {buffer : List α} {s : σ} {r : Extracted α σ}
    (hextract : extract isNewline process n buffer s = .ok r) :
    ∀ l ∈ r.lines, l.2 = leaves l.1 := by
  induction buffer using line_induction isNewline generalizing n s r with
  | unterminated buffer hnone =>
      rw [extract_of_none (takeLine_of_forall_not hnone)] at hextract
      obtain rfl := Except.ok.inj hextract
      exact nofun
  | line line newline rest hline hnewline ih =>
      rw [extract_of_some (takeLine_line_append hline hnewline rest)] at hextract
      split at hextract
      · contradiction
      · rename_i hprocess
        obtain rfl := Except.ok.inj hextract
        intro l hl
        obtain rfl := List.mem_singleton.mp hl
        exact hleaves _ _ _ _ _ hprocess
      · rename_i hprocess
        obtain ⟨r', hrest, rfl⟩ := exists_of_map_eq_ok hextract
        intro l hl
        rcases List.mem_cons.mp hl with rfl | hl
        · exact hleaves _ _ _ _ _ hprocess
        · exact ih hrest l hl

theorem receiveAll_flags {leaves : List α → Bool}
    {reads : List (List α × (ℕ → List α → σ → Except ε (Bool × σ)))}
    (hleaves : ∀ read ∈ reads, LeavesAt leaves read.2) {buffer : List α} {s : σ}
    {r : Extracted α σ} (hreceive : receiveAll isNewline reads buffer s = .ok r) :
    ∀ l ∈ r.lines, l.2 = leaves l.1 := by
  induction reads generalizing buffer s r with
  | nil =>
      obtain rfl := Except.ok.inj hreceive
      exact nofun
  | cons read reads ih =>
      obtain ⟨chunk, process⟩ := read
      rw [receiveAll] at hreceive
      split at hreceive
      · contradiction
      · rename_i first hfirst
        have hflags := extract_flags (hleaves _ List.mem_cons_self) hfirst
        split at hreceive
        · obtain rfl := Except.ok.inj hreceive
          exact hflags
        · obtain ⟨last, hrest, rfl⟩ := exists_of_map_eq_ok hreceive
          intro l hl
          rcases List.mem_append.mp hl with hl | hl
          · exact hflags l hl
          · exact ih (fun read hread => hleaves read (List.mem_cons_of_mem _ hread)) hrest l hl

/-- The lines up to the first at which the receiver leaves, that line included. -/
def upToLeaving (leaves : List α → Bool) (found : List (List α)) : List (List α) :=
  found.take ((found.takeWhile fun line => !leaves line).length + 1)

theorem Frames.lines_eq {leaves : List α → Bool} {stream : List α} {r : Extracted α σ}
    (hframes : Frames isNewline stream r) (hflags : ∀ l ∈ r.lines, l.2 = leaves l.1) :
    r.lines.map Prod.fst = upToLeaving leaves (lines isNewline stream) := by
  unfold upToLeaving
  cases hleft : r.left with
  | false =>
      obtain ⟨hall, -⟩ := hframes.complete hleft
      have hstays : ∀ line ∈ lines isNewline stream, (!leaves line) = true := by
        intro line hline
        rw [← hall] at hline
        obtain ⟨l, hl, rfl⟩ := List.mem_map.mp hline
        rw [← hflags l hl, Bool.not_eq_true']
        simpa using List.any_eq_false.mp hleft l hl
      rw [List.takeWhile_eq_self_iff.mpr hstays, List.take_of_length_le (Nat.le_succ _), hall]
  | true =>
      obtain ⟨front, line, hlines, hfront⟩ := hframes.left hleft
      obtain ⟨rest, hrest⟩ := hframes.isPrefix
      have hline : leaves line = true := (hflags (line, true) (by simp [hlines])).symm
      have hstay : ∀ stayed ∈ front.map Prod.fst, (!leaves stayed) = true := by
        intro stayed hstayed
        obtain ⟨l, hl, rfl⟩ := List.mem_map.mp hstayed
        rw [← hflags l (hlines ▸ List.mem_append_left _ hl), hfront l hl]
        rfl
      rw [hlines, List.map_append, List.map_singleton] at hrest ⊢
      have hwhile : (front.map Prod.fst ++ line :: rest).takeWhile (fun line => !leaves line) =
          front.map Prod.fst := by
        rw [List.takeWhile_append_of_pos hstay, List.takeWhile_cons_of_neg (by simp [hline]),
          List.append_nil]
      rw [← hrest, List.append_assoc, List.singleton_append, hwhile, List.take_append]
      simp

end

/-! ## Lines and the parties that wrote them -/

section

variable {τ : Type*} (owner : α → τ)

/-- The bytes of each line, its terminator included, have one owner. -/
def OneOwner (isNewline : α → Bool) (stream : List α) : Prop :=
  stream.IsChain fun a b => isNewline a = true ∨ owner a = owner b

variable {owner}

theorem oneOwner_of_forall {stream : List α} {party : τ}
    (hall : ∀ a ∈ stream, owner a = party) : OneOwner owner isNewline stream := by
  unfold OneOwner
  rw [List.isChain_iff_getElem]
  intro i hi
  exact Or.inr ((hall _ (List.getElem_mem _)).trans
    (hall _ (List.getElem_mem _)).symm)

theorem OneOwner.append {first second : List α}
    (hterminated : Terminated isNewline first)
    (hfirst : OneOwner owner isNewline first)
    (hsecond : OneOwner owner isNewline second) :
    OneOwner owner isNewline (first ++ second) :=
  List.IsChain.append hfirst hsecond fun _ hlast _ _ =>
    Or.inl (hterminated.getLast? hlast)

theorem OneOwner.suffix {first second : List α}
    (hsecond : OneOwner owner isNewline second) (hsuffix : first <:+ second) :
    OneOwner owner isNewline first :=
  List.IsChain.suffix hsecond hsuffix

/-- An unterminated line and what follows it have one owner. -/
theorem OneOwner.unterminated {line rest : List α} {a b : α}
    (howned : OneOwner owner isNewline (line ++ rest))
    (hline : ∀ a ∈ line, isNewline a = false)
    (hlast : line.getLast? = some a) (hhead : rest.head? = some b) :
    owner a = owner b := by
  have hboundary := (List.isChain_append.mp howned).2.2 a hlast b hhead
  have hnot := hline a (List.mem_of_getLast? hlast)
  simpa [hnot] using hboundary

end

end LineFraming
