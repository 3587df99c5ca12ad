import Mathlib.Order.Basic

/-! The numbers cut into segments of given lengths, one behind the other: the segment a number lies in and its place
    there. -/

namespace Segments

/-- Where segment `k` starts. -/
def start (len : ℕ → ℕ) : ℕ → ℕ
  | 0 => 0
  | k + 1 => start len k + len k

/-- The segment of `n` and the place in it, found from the first segment on. -/
def locate (len : ℕ → ℕ) : (fuel n : ℕ) → ℕ × ℕ
  | 0, n => (0, n)
  | fuel + 1, n =>
    if n < len 0 then (0, n)
    else
      let (k, r) := locate (fun i => len (i + 1)) fuel (n - len 0)
      (k + 1, r)

variable {len : ℕ → ℕ} {k l n fuel r s : ℕ}

theorem start_succ' (len : ℕ → ℕ) (k : ℕ) : start len (k + 1) = len 0 + start (fun i => len (i + 1)) k := by
  induction k with
  | zero => rw [start, start, start, Nat.add_comm]
  | succ k ih => rw [start, ih, start, Nat.add_assoc]

theorem start_add_le (h : k < l) : start len k + len k ≤ start len l := by
  induction l with
  | zero => exact absurd h (Nat.not_lt_zero k)
  | succ l ih =>
    rw [start]
    rcases Nat.lt_succ_iff_lt_or_eq.mp h with hlt | rfl
    · have hle := ih hlt
      omega
    · exact Nat.le_refl _

theorem start_le (h : k ≤ l) : start len k ≤ start len l := by
  rcases Nat.lt_or_eq_of_le h with hlt | rfl
  · have hle := (start_add_le hlt : start len k + len k ≤ start len l)
    omega
  · exact Nat.le_refl _

/-- Numbers are in the order of their segments, and in one segment of their places. -/
theorem lt_iff (hr : r < len k) (hs : s < len l) :
    start len k + r < start len l + s ↔ k < l ∨ k = l ∧ r < s := by
  rcases Nat.lt_trichotomy k l with hlt | rfl | hgt
  · have hle := (start_add_le hlt : start len k + len k ≤ start len l)
    exact iff_of_true (by omega) (.inl hlt)
  · constructor
    · intro h
      exact .inr ⟨rfl, by omega⟩
    · rintro (h | ⟨-, h⟩) <;> omega
  · have hle := (start_add_le hgt : start len l + len l ≤ start len k)
    exact iff_of_false (by omega) (by omega)

theorem locate_spec (hpos : ∀ i, 0 < len i) (hfuel : n ≤ fuel) :
    start len (locate len fuel n).1 + (locate len fuel n).2 = n ∧
      (locate len fuel n).2 < len (locate len fuel n).1 := by
  induction fuel generalizing len n with
  | zero =>
    obtain rfl := Nat.le_zero.mp hfuel
    exact ⟨rfl, hpos 0⟩
  | succ fuel ih =>
    rw [locate]
    split
    case isTrue hlt => exact ⟨Nat.zero_add n, hlt⟩
    case isFalse hge =>
      have hlen := hpos 0
      have hrest := ih (fun i => hpos (i + 1)) (n := n - len 0) (by omega)
      revert hrest
      rcases locate (fun i => len (i + 1)) fuel (n - len 0) with ⟨k, r⟩
      rintro ⟨hsum, hplace⟩
      refine ⟨?_, hplace⟩
      dsimp only at hsum ⊢
      rw [start_succ']
      omega

end Segments
