import Mathlib.Data.List.Basic

/-!
# Periodic messages over a channel with a bounded delay

A sender sends at least once a period and every message arrives within a delay.
The receiver has then seen a message that was sent no longer than a period and a
delay ago, however many messages are under way.
-/

namespace PeriodicSends

/-- The messages under way were sent at these times, each within a period of the
one before; the first follows the message seen last, and none was sent after
`last`. -/
def Spaced (period : ℕ) : ℕ → List ℕ → ℕ → Prop
  | seen, [], last => last ≤ seen
  | seen, sent :: rest, last => sent ≤ seen + period ∧ Spaced period sent rest last

variable {period delay seen last now : ℕ} {times : List ℕ}

theorem Spaced.refl (period seen : ℕ) : Spaced period seen [] seen := Nat.le_refl seen

/-- Another message is sent. -/
theorem Spaced.send (hspaced : Spaced period seen times last) (hnow : now ≤ last + period) :
    Spaced period seen (times ++ [now]) now := by
  induction times generalizing seen with
  | nil =>
      have hlast : last ≤ seen := hspaced
      exact ⟨by omega, Nat.le_refl now⟩
  | cons sent times ih => exact ⟨hspaced.1, ih hspaced.2⟩

theorem Spaced.le (hspaced : Spaced period seen times last)
    (hdelay : ∀ sent ∈ times, now ≤ sent + delay) (hnow : now ≤ last + period) :
    now ≤ seen + period + delay := by
  cases times with
  | nil =>
      have hlast : last ≤ seen := hspaced
      omega
  | cons sent times =>
      have hfirst := hspaced.1
      have hsent := hdelay sent List.mem_cons_self
      omega

end PeriodicSends
