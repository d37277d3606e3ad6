import Mathlib.Data.List.Induction
import Mathlib.Tactic.Ring

/-!
# Fixed-window rate limits

A limiter counts events in a window that the first event outside the previous
window opens.  Windows are therefore at least `width` apart, but an interval of
time may meet one window that was opened before it.  The two bounds below say
how much a limit really lets through, and when it lets through everything.
-/

namespace RateWindow

variable {α : Type*}

structure Window where
  opened : ℕ := 0
  count : ℕ := 0

/-- An event is counted in the open window or opens the next one. -/
def Window.record (width now : ℕ) (w : Window) : Window :=
  if now < w.opened + width then ⟨w.opened, w.count + 1⟩ else ⟨now, 1⟩

def Window.recordAll (width : ℕ) (w : Window) (times : List ℕ) : Window :=
  times.foldl (fun w now => w.record width now) w

/-- The events that find no more than `limit` events in their window, counting
themselves. -/
def admitted (width limit : ℕ) (time : α → ℕ) : Window → List α → List α
  | _, [] => []
  | w, event :: events =>
      (if (w.record width (time event)).count ≤ limit then [event] else []) ++
        admitted width limit time (w.record width (time event)) events

section

variable {width limit : ℕ} {time : α → ℕ}

theorem record_of_lt {w : Window} {now : ℕ} (hnow : now < w.opened + width) :
    w.record width now = ⟨w.opened, w.count + 1⟩ := by
  simp [Window.record, hnow]

theorem record_of_le {w : Window} {now : ℕ} (hnow : w.opened + width ≤ now) :
    w.record width now = ⟨now, 1⟩ := by
  simp [Window.record, Nat.not_lt.mpr hnow]

/-- Before `k` further windows have passed, the rest of the open window and `k`
full ones are all that can be used up. -/
theorem length_admitted_le_of_lt (events : List α) (w : Window) (k : ℕ)
    (hend : ∀ event ∈ events, time event < w.opened + (k + 1) * width) :
    (admitted width limit time w events).length ≤ (limit - w.count) + k * limit := by
  induction events generalizing w k with
  | nil => simp [admitted]
  | cons event events ih =>
      have hevent := hend event List.mem_cons_self
      rw [admitted, List.length_append]
      by_cases hopen : time event < w.opened + width
      · have hrest := ih ⟨w.opened, w.count + 1⟩ k
          fun other hother => hend other (List.mem_cons_of_mem _ hother)
        rw [record_of_lt hopen]
        simp only at hrest ⊢
        split <;> simp only [List.length_singleton, List.length_nil] <;> omega
      · obtain ⟨j, rfl⟩ : ∃ j, k = j + 1 := by
          cases k with
          | zero => omega
          | succ j => exact ⟨j, rfl⟩
        have hlater : w.opened + (j + 2) * width ≤ time event + (j + 1) * width := by
          have hsplit : (j + 2) * width = (j + 1) * width + width := by ring
          omega
        have hrest := ih ⟨time event, 1⟩ j fun other hother =>
          (hend other (List.mem_cons_of_mem _ hother)).trans_le hlater
        rw [record_of_le (Nat.not_lt.mp hopen), Nat.succ_mul]
        simp only at hrest ⊢
        split <;> simp only [List.length_singleton, List.length_nil] <;> omega

/-- In any interval of length `span` a limiter lets through what is left of the
window it meets and one full window for each `width` begun. -/
theorem length_admitted_le_of_span (events : List α) (w : Window) {start span : ℕ}
    (hfrom : ∀ event ∈ events, start ≤ time event)
    (hto : ∀ event ∈ events, time event ≤ start + span) (hwidth : 0 < width) :
    (admitted width limit time w events).length ≤
      (limit - w.count) + (span / width + 1) * limit := by
  induction events generalizing w with
  | nil => simp [admitted]
  | cons event events ih =>
      have hfrom' := fun other hother => hfrom other (List.mem_cons_of_mem event hother)
      have hto' := fun other hother => hto other (List.mem_cons_of_mem event hother)
      rw [admitted, List.length_append]
      by_cases hopen : time event < w.opened + width
      · have hrest := ih ⟨w.opened, w.count + 1⟩ hfrom' hto'
        rw [record_of_lt hopen]
        simp only at hrest ⊢
        split <;> simp only [List.length_singleton, List.length_nil] <;> omega
      · have hspan : span < (span / width + 1) * width := by
          rw [Nat.mul_comm]
          exact Nat.lt_mul_div_succ span hwidth
        have hrest : (admitted width limit time ⟨time event, 1⟩ events).length ≤
            (limit - 1) + (span / width) * limit :=
          length_admitted_le_of_lt events ⟨time event, 1⟩ (span / width) fun other hother => by
            have hstart := hfrom event List.mem_cons_self
            have hstop := hto' other hother
            change time other < time event + (span / width + 1) * width
            omega
        rw [record_of_le (Nat.not_lt.mp hopen), Nat.succ_mul]
        simp only at hrest ⊢
        split <;> simp only [List.length_singleton, List.length_nil] <;> omega

theorem count_record_pos (w : Window) (now : ℕ) : 0 < (w.record width now).count := by
  unfold Window.record
  split <;> simp

theorem opened_eq_zero_of_count_eq_zero {times : List ℕ}
    (hcount : (Window.recordAll width {} times).count = 0) :
    (Window.recordAll width {} times).opened = 0 := by
  rcases times.eq_nil_or_concat with rfl | ⟨earlier, now, rfl⟩
  · rfl
  · simp only [Window.recordAll, List.concat_eq_append, List.foldl_append, List.foldl_cons,
      List.foldl_nil] at hcount
    exact absurd hcount (count_record_pos _ now).ne'

/-- What an open window has counted are the latest events, none of them older
than the window. -/
theorem exists_counted (times : List ℕ) (hsorted : times.Pairwise (· ≤ ·)) :
    ∃ older counted, times = older ++ counted ∧
      counted.length = (Window.recordAll width {} times).count ∧
      ∀ now ∈ counted, (Window.recordAll width {} times).opened ≤ now := by
  induction times using List.reverseRecOn with
  | nil => exact ⟨[], [], rfl, rfl, by simp⟩
  | append_singleton times now ih =>
      obtain ⟨hbefore, -, hnow⟩ := List.pairwise_append.mp hsorted
      obtain ⟨older, counted, hsplit, hlength, hopened⟩ := ih hbefore
      rw [Window.recordAll, List.foldl_append, List.foldl_cons, List.foldl_nil]
      change ∃ older counted, _ ∧ _ = ((Window.recordAll width {} times).record width now).count ∧
        ∀ _ ∈ _, ((Window.recordAll width {} times).record width now).opened ≤ _
      by_cases hopen : now < (Window.recordAll width {} times).opened + width
      · have hlatest : (Window.recordAll width {} times).opened ≤ now := by
          cases counted with
          | nil =>
              rw [opened_eq_zero_of_count_eq_zero hlength.symm]
              exact Nat.zero_le now
          | cons first counted =>
              exact (hopened first List.mem_cons_self).trans
                (hnow first (by simp [hsplit]) now List.mem_cons_self)
        rw [record_of_lt hopen]
        refine ⟨older, counted ++ [now], by rw [hsplit, List.append_assoc],
          by simp [hlength], fun other hother => ?_⟩
        rcases List.mem_append.mp hother with hother | hother
        · exact hopened other hother
        · obtain rfl := List.mem_singleton.mp hother
          exact hlatest
      · rw [record_of_le (Nat.not_lt.mp hopen)]
        exact ⟨times, [now], rfl, rfl, by simp⟩

/-- An event is let through when few events arrived in the `width` before it. -/
theorem count_record_le_of_sparse {times : List ℕ} {now : ℕ}
    (hsorted : times.Pairwise (· ≤ ·))
    (hsparse : (times.filter fun earlier => now < earlier + width).length < limit) :
    ((Window.recordAll width {} times).record width now).count ≤ limit := by
  obtain ⟨older, counted, hsplit, hlength, hopened⟩ := @exists_counted width times hsorted
  by_cases hopen : now < (Window.recordAll width {} times).opened + width
  · have hcounted : counted.filter (fun earlier => now < earlier + width) = counted :=
      List.filter_eq_self.mpr fun earlier hmem => by
        have hearlier := hopened earlier hmem
        exact decide_eq_true (by omega)
    rw [hsplit, List.filter_append, List.length_append, hcounted] at hsparse
    rw [record_of_lt hopen]
    change _ + 1 ≤ limit
    omega
  · rw [record_of_le (Nat.not_lt.mp hopen)]
    exact Nat.one_le_of_lt hsparse

end

end RateWindow
