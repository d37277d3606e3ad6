import Mathlib.Data.List.Chain
import Mathlib.Data.List.Sublists
import Mathlib.Data.List.Forall2
import Mathlib.Tactic.ByContra

/-!
# Matching a sequence of steps online

A matcher keeps the index of the step it expects next and the time of the last
match.  An event that comes too late finds the matcher back at the start.  An
event that hits the expected step advances it, and the last step completes the
sequence; an event that misses may break it.  The event that breaks a match is
not tried against the first step.

Completion is sound: the matched events are there, in order and in time, since
the matcher was last reset.  It is complete only while nothing resets the
matcher between the first and the last event of an occurrence.
-/

structure SequenceMatcher (σ ε : Type*) where
  steps : List σ
  hits : σ → ε → Bool
  breaks : ℕ → ε → Bool
  time : ε → ℕ
  timeout : ℕ

namespace SequenceMatcher

/-- The index of the expected step and the time of the last match. -/
structure Progress where
  next : ℕ := 0
  last : ℕ := 0
deriving DecidableEq

inductive Verdict
  | missed | matched | completed | broken
deriving DecidableEq

/-- The verdicts after which a matcher starts over. -/
def Verdict.resets : Verdict → Bool
  | .completed => true
  | .broken => true
  | _ => false

variable {σ ε : Type*}

def timedOut (M : SequenceMatcher σ ε) (p : Progress) (e : ε) : Bool :=
  0 < p.next && p.last + M.timeout < M.time e

/-- The progress in which an event finds the matcher. -/
def live (M : SequenceMatcher σ ε) (p : Progress) (e : ε) : Progress :=
  if M.timedOut p e then { p with next := 0 } else p

def hit (M : SequenceMatcher σ ε) (p : Progress) (e : ε) : Bool :=
  (M.steps[p.next]?).any fun step => M.hits step e

def judge (M : SequenceMatcher σ ε) (p : Progress) (e : ε) : Verdict :=
  if M.hit p e then
    if p.next + 1 = M.steps.length then .completed else .matched
  else if 0 < p.next && M.breaks p.next e then .broken
  else .missed

def verdict (M : SequenceMatcher σ ε) (p : Progress) (e : ε) : Verdict :=
  M.judge (M.live p e) e

def step (M : SequenceMatcher σ ε) (p : Progress) (e : ε) : Progress :=
  match M.verdict p e with
  | .missed => M.live p e
  | .matched => ⟨(M.live p e).next + 1, M.time e⟩
  | .completed => ⟨0, M.time e⟩
  | .broken => { M.live p e with next := 0 }

/-- Events that hit the steps one by one, each in time after the one before. -/
structure Matched (M : SequenceMatcher σ ε) (steps : List σ) (events : List ε) : Prop where
  hits : List.Forall₂ (fun step e => M.hits step e = true) steps events
  gaps : events.IsChain fun e e' => M.time e' ≤ M.time e + M.timeout

/-- The matched steps are backed by events, the last of which came at the time
that is kept. -/
def Backed (M : SequenceMatcher σ ε) (p : Progress) (since : List ε) : Prop :=
  0 < p.next →
    ∃ events, events.Sublist since ∧ M.Matched (M.steps.take p.next) events ∧
      events.getLast?.map M.time = some p.last

/-- The verdict on the last of some events. -/
def lastVerdict (M : SequenceMatcher σ ε) : Progress → List ε → Option Verdict
  | _, [] => none
  | p, [e] => some (M.verdict p e)
  | p, e :: rest => M.lastVerdict (M.step p e) rest

/-- The matcher is level with an occurrence of which some steps are done, or gets
level at one of the events: until then each event comes in time and hits the
expected step, which is not the last, or is one that `waits` lets pass. -/
def CatchesUp (M : SequenceMatcher σ ε) (waits : ε → Bool) :
    Progress → ℕ → List ε → Prop
  | _, _, [] => False
  | p, done, e :: rest =>
      M.timedOut p e = false ∧
        (p.next = done ∨
          if M.hit p e then
            p.next + 1 ≠ M.steps.length ∧
              M.CatchesUp waits ⟨p.next + 1, M.time e⟩ (done + 1) rest
          else waits e = true ∧ M.CatchesUp waits p (done + 1) rest)

/-- A relevant event that hits a step matched before breaks the match unless it is
one that `waits` lets pass. -/
def BreaksUnless (M : SequenceMatcher σ ε) (relevant waits : ε → Bool) : Prop :=
  ∀ n i s e, i < n → n < M.steps.length → M.steps[i]? = some s → relevant e = true →
    M.hits s e = true → M.breaks n e = !waits e

section

variable {M : SequenceMatcher σ ε} {p : Progress} {e : ε} {since : List ε}

/-! ## One event -/

theorem live_next_le : (M.live p e).next ≤ p.next := by
  unfold live
  split
  · exact Nat.zero_le _
  · exact le_refl _

theorem live_of_not_timedOut (htime : M.timedOut p e = false) : M.live p e = p := by
  simp [live, htime]

theorem live_next_of_timedOut (htime : M.timedOut p e = true) : (M.live p e).next = 0 := by
  simp [live, htime]

theorem timedOut_mono {e' : ε} (hle : M.time e ≤ M.time e') (htime : M.timedOut p e' = false) :
    M.timedOut p e = false := by
  unfold timedOut at htime ⊢
  simp only [Bool.and_eq_false_iff, decide_eq_false_iff_not] at htime ⊢
  omega

theorem timedOut_live : M.timedOut (M.live p e) e = false := by
  by_cases htime : M.timedOut p e = true
  · simp [timedOut, live_next_of_timedOut htime]
  · rw [Bool.not_eq_true] at htime
    rw [live_of_not_timedOut htime]
    exact htime

theorem live_live : M.live (M.live p e) e = M.live p e :=
  live_of_not_timedOut timedOut_live

theorem step_of_missed (hverdict : M.verdict p e = .missed) : M.step p e = M.live p e := by
  simp [step, hverdict]

theorem step_of_matched (hverdict : M.verdict p e = .matched) :
    M.step p e = ⟨(M.live p e).next + 1, M.time e⟩ := by
  simp [step, hverdict]

theorem step_of_completed (hverdict : M.verdict p e = .completed) :
    M.step p e = ⟨0, M.time e⟩ := by
  simp [step, hverdict]

theorem step_of_broken (hverdict : M.verdict p e = .broken) :
    M.step p e = { M.live p e with next := 0 } := by
  simp [step, hverdict]

theorem step_next_le : (M.step p e).next ≤ (M.live p e).next + 1 := by
  unfold step
  split <;> simp

theorem step_next_of_resets (hresets : (M.verdict p e).resets = true) :
    (M.step p e).next = 0 := by
  unfold step
  cases hverdict : M.verdict p e <;> simp [hverdict, Verdict.resets] at hresets ⊢

theorem step_next_lt (hrange : p.next < M.steps.length) :
    (M.step p e).next < M.steps.length := by
  have hlive : (M.live p e).next < M.steps.length := lt_of_le_of_lt live_next_le hrange
  unfold step
  cases hverdict : M.verdict p e with
  | missed => exact hlive
  | matched =>
      have hnotLast : (M.live p e).next + 1 ≠ M.steps.length := by
        intro hlast
        unfold verdict judge at hverdict
        rw [if_pos hlast] at hverdict
        split_ifs at hverdict
      show (M.live p e).next + 1 < M.steps.length
      omega
  | completed => exact Nat.zero_lt_of_lt hrange
  | broken => exact Nat.zero_lt_of_lt hrange

theorem hit_of_verdict
    (hverdict : M.verdict p e = .matched ∨ M.verdict p e = .completed) :
    M.hit (M.live p e) e = true := by
  by_contra hmiss
  unfold verdict judge at hverdict
  rw [if_neg hmiss] at hverdict
  split_ifs at hverdict <;> simp at hverdict

theorem completed_iff : M.verdict p e = .completed ↔
    M.hit (M.live p e) e = true ∧ (M.live p e).next + 1 = M.steps.length := by
  unfold verdict judge
  split_ifs with hhit hlast hbreaks <;> simp [*]

theorem verdict_of_hit (hlive : M.live p e = p) (hhit : M.hit p e = true)
    (hmore : p.next + 1 ≠ M.steps.length) : M.verdict p e = .matched := by
  unfold verdict judge
  rw [hlive, if_pos hhit, if_neg hmore]

theorem verdict_of_miss (hlive : M.live p e = p) (hmiss : ¬ M.hit p e = true)
    (hpos : 0 < p.next) :
    M.verdict p e = if M.breaks p.next e then .broken else .missed := by
  unfold verdict judge
  rw [hlive, if_neg hmiss]
  simp [hpos]

/-! ## Soundness -/

theorem Matched.snoc {steps : List σ} {events : List ε} {s : σ}
    (hmatched : M.Matched steps events) (hhits : M.hits s e = true)
    (hgap : ∀ last ∈ events.getLast?, M.time e ≤ M.time last + M.timeout) :
    M.Matched (steps ++ [s]) (events ++ [e]) where
  hits := List.rel_append hmatched.hits (List.Forall₂.cons hhits List.Forall₂.nil)
  gaps := by
    apply List.IsChain.append hmatched.gaps (List.isChain_singleton e)
    intro last hlast e' he'
    obtain rfl : e = e' := by simpa using he'
    exact hgap last hlast

theorem Backed.mono {since' : List ε} (hbacked : M.Backed p since)
    (hsince : since.Sublist since') : M.Backed p since' := by
  intro hprogress
  obtain ⟨events, hsub, hmatched, hlast⟩ := hbacked hprogress
  exact ⟨events, hsub.trans hsince, hmatched, hlast⟩

theorem backed_of_next_eq_zero (hnext : p.next = 0) : M.Backed p since := by
  intro hprogress
  omega

theorem Backed.live (hbacked : M.Backed p since) :
    M.Backed (M.live p e) (if M.timedOut p e then [] else since) := by
  by_cases htime : M.timedOut p e = true
  · exact backed_of_next_eq_zero (live_next_of_timedOut htime)
  · rw [Bool.not_eq_true] at htime
    rw [live_of_not_timedOut htime, htime]
    exact hbacked

theorem Backed.hit (hbacked : M.Backed p since) (hhit : M.hit p e = true)
    (htime : M.timedOut p e = false) :
    ∃ earlier, (earlier ++ [e]).Sublist (since ++ [e]) ∧
      M.Matched (M.steps.take (p.next + 1)) (earlier ++ [e]) := by
  obtain ⟨s, hs, hhits⟩ : ∃ s, M.steps[p.next]? = some s ∧ M.hits s e = true := by
    unfold SequenceMatcher.hit at hhit
    rwa [Option.any_eq_true] at hhit
  have htake : M.steps.take (p.next + 1) = M.steps.take p.next ++ [s] := by
    rw [List.take_add_one, hs]
    rfl
  rw [htake]
  by_cases hprogress : 0 < p.next
  · obtain ⟨events, hsub, hmatched, hlast⟩ := hbacked hprogress
    have hintime : M.time e ≤ p.last + M.timeout := by
      simpa [SequenceMatcher.timedOut, hprogress] using htime
    have hgap : ∀ last ∈ events.getLast?, M.time e ≤ M.time last + M.timeout := by
      intro last hmem
      rw [hmem, Option.map_some, Option.some.injEq] at hlast
      rw [hlast]
      exact hintime
    exact ⟨events, hsub.append (List.Sublist.refl _), hmatched.snoc hhits hgap⟩
  · have hzero : p.next = 0 := by omega
    have hempty : M.Matched (M.steps.take p.next) [] := by
      rw [hzero]
      exact ⟨List.Forall₂.nil, List.isChain_nil⟩
    exact ⟨[], List.sublist_append_right since [e],
      hempty.snoc hhits fun last hmem => by simp at hmem⟩

/-- The soundness rule.  An event leaves the progress backed by the events since
the last reset, and if it completes the sequence it is the last of events that
match all the steps. -/
theorem Backed.step (hbacked : M.Backed p since) :
    M.Backed (M.step p e)
        (if (M.verdict p e).resets then []
        else (if M.timedOut p e then [] else since) ++ [e]) ∧
      (M.verdict p e = .completed →
        ∃ earlier,
          (earlier ++ [e]).Sublist ((if M.timedOut p e then [] else since) ++ [e]) ∧
          M.Matched M.steps (earlier ++ [e])) := by
  have hlive := hbacked.live (e := e)
  have htime : M.timedOut (M.live p e) e = false := timedOut_live
  constructor
  · cases hverdict : M.verdict p e with
    | missed =>
        rw [step_of_missed hverdict]
        exact hlive.mono (List.sublist_append_left _ _)
    | matched =>
        obtain ⟨earlier, hsub, hmatched⟩ :=
          hlive.hit (hit_of_verdict (Or.inl hverdict)) htime
        rw [step_of_matched hverdict]
        intro _
        exact ⟨earlier ++ [e], hsub, hmatched, by simp⟩
    | completed =>
        exact backed_of_next_eq_zero (step_next_of_resets (by rw [hverdict]; rfl))
    | broken =>
        exact backed_of_next_eq_zero (step_next_of_resets (by rw [hverdict]; rfl))
  · intro hverdict
    obtain ⟨hhit, hlast⟩ := completed_iff.mp hverdict
    obtain ⟨earlier, hsub, hmatched⟩ := hlive.hit hhit htime
    rw [hlast, List.take_length] at hmatched
    exact ⟨earlier, hsub, hmatched⟩

/-! ## Completeness -/

/-- Some events contain, in order and in time, one that hits each of the steps,
the last of them last; the others are inert. -/
structure Occurs (M : SequenceMatcher σ ε) (relevant : ε → Bool) (steps : List σ)
    (events : List ε) : Prop where
  hits : List.Forall₂ (fun step e => M.hits step e = true) steps (events.filter relevant)
  inert : ∀ e ∈ events, relevant e = false → ∀ p, M.hit p e = false ∧ M.breaks p.next e = false
  last : ∀ e ∈ events.getLast?, relevant e = true
  ordered : events.Pairwise fun e e' => M.time e ≤ M.time e'
  gaps : (events.filter relevant).IsChain fun e e' => M.time e' ≤ M.time e + M.timeout

/-- The conditions on the events go over to what is left of them. -/
theorem Occurs.rest {relevant : ε → Bool} {steps steps' : List σ} {rest : List ε}
    (hoccurs : M.Occurs relevant steps (e :: rest)) (hrest : rest ≠ [])
    (hhits : List.Forall₂ (fun step e => M.hits step e = true) steps' (rest.filter relevant))
    (hgaps : (rest.filter relevant).IsChain fun e e' => M.time e' ≤ M.time e + M.timeout) :
    M.Occurs relevant steps' rest where
  hits := hhits
  inert := fun e' he' => hoccurs.inert e' (List.mem_cons_of_mem e he')
  last := by
    intro last hlast
    apply hoccurs.last last
    rwa [List.getLast?_cons_of_ne_nil hrest]
  ordered := (List.pairwise_cons.mp hoccurs.ordered).2
  gaps := hgaps

theorem Occurs.skip {relevant : ε → Bool} {steps : List σ} {rest : List ε}
    (hoccurs : M.Occurs relevant steps (e :: rest)) (hrest : rest ≠ [])
    (hrelevant : relevant e = false) : M.Occurs relevant steps rest := by
  have hfilter : (e :: rest).filter relevant = rest.filter relevant :=
    List.filter_cons_of_neg (by simp [hrelevant])
  have hhits := hoccurs.hits
  have hgaps := hoccurs.gaps
  rw [hfilter] at hhits hgaps
  exact hoccurs.rest hrest hhits hgaps

theorem Occurs.tail {relevant : ε → Bool} {steps : List σ} {rest : List ε}
    (hoccurs : M.Occurs relevant steps (e :: rest)) (hrest : rest ≠ [])
    (hrelevant : relevant e = true) :
    ∃ s steps', steps = s :: steps' ∧ M.hits s e = true ∧ M.Occurs relevant steps' rest := by
  have hfilter : (e :: rest).filter relevant = e :: rest.filter relevant :=
    List.filter_cons_of_pos hrelevant
  have hhits := hoccurs.hits
  have hgaps := hoccurs.gaps
  rw [hfilter] at hhits hgaps
  cases hhits with
  | cons hhit htail => exact ⟨_, _, rfl, hhit, hoccurs.rest hrest htail hgaps.tail⟩

theorem Occurs.singleton {relevant : ε → Bool} {steps : List σ}
    (hoccurs : M.Occurs relevant steps [e]) :
    relevant e = true ∧ ∃ s, steps = [s] ∧ M.hits s e = true := by
  have hrelevant : relevant e = true := hoccurs.last e (by simp)
  have hhits := hoccurs.hits
  rw [List.filter_cons_of_pos hrelevant, List.filter_nil] at hhits
  cases hhits with
  | cons hhit hrest =>
      cases hrest
      exact ⟨hrelevant, _, rfl, hhit⟩

theorem Occurs.next {relevant : ε → Bool} {steps : List σ} {events : List ε}
    (hoccurs : M.Occurs relevant steps events) (hne : events ≠ []) :
    ∃ e' rest, events.filter relevant = e' :: rest ∧
      ∀ e ∈ events.head?, M.time e ≤ M.time e' := by
  induction events with
  | nil => exact absurd rfl hne
  | cons e events ih =>
      by_cases hrelevant : relevant e = true
      · refine ⟨e, _, List.filter_cons_of_pos hrelevant, ?_⟩
        simp
      · rw [Bool.not_eq_true] at hrelevant
        have hrest : events ≠ [] := by
          rintro rfl
          rw [hoccurs.last e (by simp)] at hrelevant
          exact Bool.noConfusion hrelevant
        obtain ⟨e', rest, hfilter, -⟩ := ih (hoccurs.skip hrest hrelevant) hrest
        have hmem : e' ∈ events := by
          have h : e' ∈ events.filter relevant := hfilter ▸ List.mem_cons_self
          exact (List.mem_filter.mp h).1
        refine ⟨e', rest, ?_, ?_⟩
        · rw [List.filter_cons_of_neg (by simp [hrelevant]), hfilter]
        · simpa using (List.pairwise_cons.mp hoccurs.ordered).1 e' hmem

theorem verdict_of_inert (hmiss : ∀ p, M.hit p e = false ∧ M.breaks p.next e = false) :
    M.verdict p e = .missed := by
  simp [verdict, judge, hmiss]

theorem step_of_inert (hmiss : ∀ p, M.hit p e = false ∧ M.breaks p.next e = false) :
    M.step p e = M.live p e :=
  step_of_missed (verdict_of_inert hmiss)

/-- A matcher that is behind stays behind: each event that could hit advances it
by one step at most. -/
theorem not_completed_of_behind {relevant : ε → Bool} {steps done : List σ} {events : List ε}
    (hsteps : M.steps = done ++ steps) (hoccurs : M.Occurs relevant steps events)
    (hbehind : p.next < done.length) : M.lastVerdict p events ≠ some .completed := by
  induction events generalizing p steps done with
  | nil => simp [lastVerdict]
  | cons e rest ih =>
      have hlive : (M.live p e).next < done.length := lt_of_le_of_lt live_next_le hbehind
      cases rest with
      | nil =>
          obtain ⟨-, s, rfl, -⟩ := hoccurs.singleton
          intro hcompleted
          have hlast := (completed_iff.mp (Option.some.inj hcompleted)).2
          rw [hsteps, List.length_append, List.length_singleton] at hlast
          omega
      | cons e' rest =>
          have hne : e' :: rest ≠ [] := List.cons_ne_nil e' rest
          by_cases hrelevant : relevant e = true
          · obtain ⟨s, steps', rfl, -, htail⟩ := hoccurs.tail hne hrelevant
            have hsplit : M.steps = (done ++ [s]) ++ steps' := by simp [hsteps]
            have hnext : (M.step p e).next < (done ++ [s]).length := by
              have hstep := step_next_le (M := M) (p := p) (e := e)
              rw [List.length_append, List.length_singleton]
              omega
            exact ih hsplit htail hnext
          · rw [Bool.not_eq_true] at hrelevant
            have hmiss := hoccurs.inert e List.mem_cons_self hrelevant
            apply ih hsteps (hoccurs.skip hne hrelevant)
            rw [step_of_inert hmiss]
            exact hlive

/-- A matcher that is level with the occurrence and in time for its next event
completes. -/
theorem completed_of_level {relevant : ε → Bool} {steps done : List σ} {events : List ε}
    (hsteps : M.steps = done ++ steps) (hne : events ≠ [])
    (hoccurs : M.Occurs relevant steps events) (hlevel : p.next = done.length)
    (hintime : ∀ e ∈ (events.filter relevant).head?, M.timedOut p e = false) :
    M.lastVerdict p events = some .completed := by
  induction events generalizing p steps done with
  | nil => exact absurd rfl hne
  | cons e rest ih =>
      have htime : M.timedOut p e = false := by
        obtain ⟨e', _, hfilter, hbefore⟩ := hoccurs.next hne
        apply timedOut_mono (hbefore e rfl)
        apply hintime
        rw [hfilter]
        rfl
      have hlive : M.live p e = p := live_of_not_timedOut htime
      cases rest with
      | nil =>
          obtain ⟨-, s, rfl, hhit⟩ := hoccurs.singleton
          apply congrArg some
          apply completed_iff.mpr
          rw [hlive, hsteps, hlevel, List.length_append]
          exact ⟨by simp [hit, hlevel, hsteps, hhit], rfl⟩
      | cons e' rest =>
          have hrest : e' :: rest ≠ [] := List.cons_ne_nil e' rest
          by_cases hrelevant : relevant e = true
          · have hgaps := hoccurs.gaps
            rw [List.filter_cons_of_pos hrelevant, List.isChain_cons] at hgaps
            obtain ⟨s, steps', rfl, hhit, htail⟩ := hoccurs.tail hrest hrelevant
            have hmatched : M.verdict p e = .matched := by
              have hhits : M.hit p e = true := by simp [hit, hlevel, hsteps, hhit]
              have hmore : p.next + 1 ≠ M.steps.length := by
                obtain ⟨_, _, hfilter, -⟩ := htail.next hrest
                have hlength := htail.hits.length_eq
                rw [hfilter, List.length_cons] at hlength
                rw [hsteps, List.length_append, List.length_cons]
                omega
              exact verdict_of_hit hlive hhits hmore
            have hstep : M.step p e = ⟨p.next + 1, M.time e⟩ := by
              rw [step_of_matched hmatched, hlive]
            show M.lastVerdict (M.step p e) (e' :: rest) = some .completed
            rw [hstep]
            have hsplit : M.steps = (done ++ [s]) ++ steps' := by simp [hsteps]
            apply ih hsplit hrest htail
            · simp [hlevel]
            · intro late hlate
              have hgap := hgaps.1 late hlate
              simp [timedOut, hgap]
          · rw [Bool.not_eq_true] at hrelevant
            have hskip : (e :: e' :: rest).filter relevant = (e' :: rest).filter relevant :=
              List.filter_cons_of_neg (by simp [hrelevant])
            have hmiss := hoccurs.inert e List.mem_cons_self hrelevant
            show M.lastVerdict (M.step p e) (e' :: rest) = some .completed
            rw [step_of_inert hmiss, hlive]
            rw [hskip] at hintime
            exact ih hsteps hrest (hoccurs.skip hrest hrelevant) hlevel hintime

theorem lastVerdict_live {rest : List ε} :
    M.lastVerdict (M.live p e) (e :: rest) = M.lastVerdict p (e :: rest) := by
  have hverdict : M.verdict (M.live p e) e = M.verdict p e := by
    unfold verdict
    rw [live_live]
  have hstep : M.step (M.live p e) e = M.step p e := by
    unfold step
    rw [hverdict, live_live]
  cases rest with
  | nil => exact congrArg some hverdict
  | cons e' rest =>
      show M.lastVerdict (M.step (M.live p e) e) (e' :: rest) = _
      rw [hstep]
      rfl

theorem lastVerdict_append (events : List ε) :
    M.lastVerdict p (events ++ [e]) = some (M.verdict (events.foldl M.step p) e) := by
  induction events generalizing p with
  | nil => rfl
  | cons first rest ih =>
      rw [List.foldl_cons, ← ih]
      cases rest <;> rfl

theorem not_completed_of_resets {relevant : ε → Bool} {steps done : List σ} {e' : ε}
    {rest : List ε} (hsteps : M.steps = done ++ steps)
    (hoccurs : M.Occurs relevant steps (e' :: rest)) (hdone : done ≠ [])
    (hresets : (M.verdict p e).resets = true) :
    M.lastVerdict p (e :: e' :: rest) ≠ some .completed := by
  show M.lastVerdict (M.step p e) (e' :: rest) ≠ some .completed
  apply not_completed_of_behind hsteps hoccurs
  rw [step_next_of_resets hresets]
  exact List.length_pos_of_ne_nil hdone

theorem not_completed_of_timedOut {relevant : ε → Bool} {steps done : List σ}
    {rest : List ε} (hsteps : M.steps = done ++ steps)
    (hoccurs : M.Occurs relevant steps (e :: rest)) (hdone : done ≠ [])
    (htime : M.timedOut p e = true) :
    M.lastVerdict p (e :: rest) ≠ some .completed := by
  rw [← lastVerdict_live]
  apply not_completed_of_behind hsteps hoccurs
  rw [live_next_of_timedOut htime]
  exact List.length_pos_of_ne_nil hdone

/-- One relevant event in time, for a matcher that is ahead of the occurrence: it
has to hit the expected step, which is not the last, or to be let pass. -/
theorem completed_iff_of_ahead {relevant waits : ε → Bool} {steps done : List σ} {s : σ}
    {e' : ε} {rest : List ε} (hsteps : M.steps = (done ++ [s]) ++ steps)
    (hoccurs : M.Occurs relevant steps (e' :: rest)) (hlive : M.live p e = p)
    (hahead : done.length < p.next) (hrange : p.next < M.steps.length)
    (hbreaks : M.BreaksUnless relevant waits) (hrelevant : relevant e = true)
    (hhits : M.hits s e = true) :
    M.lastVerdict p (e :: e' :: rest) = some .completed ↔
      if M.hit p e then
        p.next + 1 ≠ M.steps.length ∧
          M.lastVerdict ⟨p.next + 1, M.time e⟩ (e' :: rest) = some .completed
      else waits e = true ∧ M.lastVerdict p (e' :: rest) = some .completed := by
  have hdone : done ++ [s] ≠ [] := by simp
  have hunfold : M.lastVerdict p (e :: e' :: rest) =
      M.lastVerdict (M.step p e) (e' :: rest) := rfl
  by_cases hhit : M.hit p e = true
  · rw [if_pos hhit]
    by_cases hfull : p.next + 1 = M.steps.length
    · have hcompleted : M.verdict p e = .completed := by
        rw [completed_iff, hlive]
        exact ⟨hhit, hfull⟩
      have hnot := not_completed_of_resets hsteps hoccurs hdone
        (congrArg Verdict.resets hcompleted)
      simp [hnot, hfull]
    · have hmatched := verdict_of_hit hlive hhit hfull
      rw [hunfold, step_of_matched hmatched, hlive]
      simp [hfull]
  · rw [if_neg hhit]
    have hpos : 0 < p.next := by omega
    have hstep : M.steps[done.length]? = some s := by simp [hsteps]
    have hverdict := verdict_of_miss hlive hhit hpos
    rw [hbreaks p.next done.length s e hahead hrange hstep hrelevant hhits] at hverdict
    by_cases hwaits : waits e = true
    · have hmissed : M.verdict p e = .missed := by simpa [hwaits] using hverdict
      rw [hunfold, step_of_missed hmissed, hlive]
      simp [hwaits]
    · have hbroken : M.verdict p e = .broken := by simpa [hwaits] using hverdict
      have hnot := not_completed_of_resets hsteps hoccurs hdone
        (congrArg Verdict.resets hbroken)
      simp [hnot, hwaits]

/-- The completeness rule for a matcher that is not behind: it completes exactly
when it catches up. -/
theorem completed_iff_catchesUp {relevant waits : ε → Bool} {steps done : List σ}
    {events : List ε} (hsteps : M.steps = done ++ steps) (hne : events ≠ [])
    (hoccurs : M.Occurs relevant steps events) (hahead : done.length ≤ p.next)
    (hrange : p.next < M.steps.length) (hbreaks : M.BreaksUnless relevant waits)
    (hstart : ∀ e ∈ events.head?, done ≠ [] ∨ relevant e = true ∧ M.timedOut p e = false) :
    M.lastVerdict p events = some .completed ↔
      M.CatchesUp waits p done.length (events.filter relevant) := by
  induction events generalizing p steps done with
  | nil => exact absurd rfl hne
  | cons e rest ih =>
      obtain ⟨first, later, hfilter, hbefore⟩ := hoccurs.next hne
      by_cases htime : M.timedOut p e = true
      · -- the timeout leaves the matcher behind
        have hdone : done ≠ [] := by
          rcases hstart e rfl with h | ⟨-, h⟩
          · exact h
          · rw [htime] at h
            exact Bool.noConfusion h
        have hlate : M.timedOut p first = true := by
          rw [← Bool.not_eq_false]
          intro h
          rw [timedOut_mono (hbefore e rfl) h] at htime
          exact Bool.noConfusion htime
        have hbehind := not_completed_of_timedOut hsteps hoccurs hdone htime
        rw [hfilter]
        constructor
        · exact fun h => absurd h hbehind
        · intro hcatches
          have hintime := hcatches.1
          rw [hlate] at hintime
          exact Bool.noConfusion hintime
      · rw [Bool.not_eq_true] at htime
        have hlive : M.live p e = p := live_of_not_timedOut htime
        by_cases hrelevant : relevant e = true
        · rw [List.filter_cons_of_pos hrelevant]
          by_cases hlevel : p.next = done.length
          · have hcompleted : M.lastVerdict p (e :: rest) = some .completed := by
              apply completed_of_level hsteps hne hoccurs hlevel
              rw [List.filter_cons_of_pos hrelevant]
              intro e' he'
              obtain rfl : e = e' := by simpa using he'
              exact htime
            exact ⟨fun _ => ⟨htime, Or.inl hlevel⟩, fun _ => hcompleted⟩
          · have hlength : 0 < rest.length := by
              rw [List.length_pos_iff]
              rintro rfl
              obtain ⟨-, s, rfl, -⟩ := hoccurs.singleton
              rw [hsteps, List.length_append, List.length_singleton] at hrange
              omega
            obtain ⟨e', rest, rfl⟩ := List.exists_cons_of_length_pos hlength
            have hrest : e' :: rest ≠ [] := List.cons_ne_nil e' rest
            obtain ⟨s, steps', rfl, hhit, htail⟩ := hoccurs.tail hrest hrelevant
            have hsplit : M.steps = (done ++ [s]) ++ steps' := by simp [hsteps]
            have hbehind : done.length < p.next := by omega
            have hdone : (done ++ [s]).length = done.length + 1 := by simp
            have hlater : ∀ p' : Progress, ∀ late ∈ (e' :: rest).head?,
                done ++ [s] ≠ [] ∨ relevant late = true ∧ M.timedOut p' late = false :=
              fun _ _ _ => Or.inl (by simp)
            rw [completed_iff_of_ahead hsplit htail hlive hbehind hrange hbreaks hrelevant hhit]
            simp only [CatchesUp, htime, hlevel, true_and, false_or]
            by_cases hhits : M.hit p e = true
            · rw [if_pos hhits, if_pos hhits, ← hdone]
              apply and_congr_right
              intro hmore
              exact ih hsplit hrest htail (by rw [hdone]; exact Nat.succ_le_succ hahead)
                (lt_of_le_of_ne hrange hmore) (hlater _)
            · rw [if_neg hhits, if_neg hhits, ← hdone]
              apply and_congr_right
              intro _
              exact ih hsplit hrest htail (by rw [hdone]; exact hbehind) hrange (hlater _)
        · rw [Bool.not_eq_true] at hrelevant
          have hskip : (e :: rest).filter relevant = rest.filter relevant :=
            List.filter_cons_of_neg (by simp [hrelevant])
          have hdone : done ≠ [] := by
            rcases hstart e rfl with h | ⟨h, -⟩
            · exact h
            · rw [hrelevant] at h
              exact Bool.noConfusion h
          have hmiss := hoccurs.inert e List.mem_cons_self hrelevant
          cases rest with
          | nil =>
              rw [hoccurs.last e (by simp)] at hrelevant
              exact Bool.noConfusion hrelevant
          | cons e' rest =>
              have hrest : e' :: rest ≠ [] := List.cons_ne_nil e' rest
              show M.lastVerdict (M.step p e) (e' :: rest) = _ ↔ _
              rw [step_of_inert hmiss, hlive, hskip]
              exact ih hsteps hrest (hoccurs.skip hrest hrelevant) hahead hrange
                fun _ _ => Or.inl hdone

end

end SequenceMatcher
