import Mathlib.Order.Basic
import Mathlib.Tactic.Ring

/-! A counter that wraps. A loop that waits for it to get to a value by `while (now < stop)` sees it at moments
    of its own choosing, none of which it can tell from the same one a wrap later. -/

namespace Ticks

/-- What a counter modulo `M` shows `e` ticks after it has shown `first`. -/
def reading (M first e : ℕ) : ℕ := (first + e) % M

variable {M first stop need : ℕ}

theorem reading_of_lt {e : ℕ} (h : first + e < M) : reading M first e = first + e := Nat.mod_eq_of_lt h

/-- It shows every value again, however late. -/
theorem exists_reading (hM : 0 < M) {v : ℕ} (hv : v < M) (first n : ℕ) : ∃ e, n ≤ e ∧ reading M first e = v := by
  refine ⟨n * M + (first + n) * (M - 1) + v + n, by omega, ?_⟩
  have hsum : first + (n * M + (first + n) * (M - 1) + v + n) = v + (2 * n + first) * M := by
    obtain ⟨k, rfl⟩ : ∃ k, M = k + 1 := ⟨M - 1, by omega⟩
    rw [Nat.add_sub_cancel]
    ring
  rw [reading, hsum, Nat.add_mul_mod_self_right]
  exact Nat.mod_eq_of_lt hv

/-- The loop ends no sooner than `need` ticks on just where nothing is needed or the value it waits for is that far
    ahead without a wrap. -/
theorem never_short_iff (hfirst : first < M) (hstop : stop < M) :
    (∀ e, stop ≤ reading M first e → need ≤ e) ↔ need = 0 ∨ first + need ≤ stop := by
  constructor
  · intro h
    rcases Nat.eq_zero_or_pos need with hzero | hpos
    · exact .inl hzero
    · have hahead : first < stop := by
        by_contra hpast
        have hfirstReading : stop ≤ reading M first 0 := by
          rw [reading_of_lt (by omega)]
          omega
        exact absurd (h 0 hfirstReading) (by omega)
      have hlast : stop ≤ reading M first (stop - first) := by
        rw [reading_of_lt (by omega)]
        omega
      have hneed := h (stop - first) hlast
      exact .inr (by omega)
  · rintro (rfl | hahead) e hend
    · exact Nat.zero_le e
    · by_contra hshort
      rw [reading_of_lt (by omega)] at hend
      omega

end Ticks
