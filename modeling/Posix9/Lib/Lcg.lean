import Mathlib.Algebra.Group.Nat.Defs
import Mathlib.Data.Nat.Bitwise
import Mathlib.Data.Nat.Factorization.Basic
import Mathlib.Data.Nat.ModEq
import Mathlib.Logic.Function.Iterate
import Mathlib.Tactic.Ring

/-! Linear congruential generators modulo a power of two, with a multiplier of the form `4 * t + 1` and an odd
    increment. The state is not reduced: its residue modulo `2 ^ k` is the state of the generator with `k` bits. -/

namespace Lcg

/-- One step with the multiplier `4 * t + 1`. -/
def next (t c x : ℕ) : ℕ := (4 * t + 1) * x + c

/-- The sum of the first `n` powers of the multiplier. -/
def powers (t : ℕ) : ℕ → ℕ
  | 0 => 0
  | n + 1 => (4 * t + 1) * powers t n + 1

variable {t c k m n : ℕ} (x : ℕ)

theorem powers_add (t m n : ℕ) :
    powers t (m + n) = powers t m + powers t n + 4 * t * (powers t m * powers t n) := by
  induction n with
  | zero => simp [powers]
  | succ n ih =>
    rw [← Nat.add_assoc, powers, powers, ih]
    ring

/-- The steps from `x` are by multiples of one number. -/
theorem iterate_next (t c n x : ℕ) : (next t c)^[n] x = x + powers t n * (4 * t * x + c) := by
  induction n with
  | zero => simp [powers]
  | succ n ih =>
    rw [Function.iterate_succ_apply', ih, next, powers]
    ring

/-- Twice as many powers have a sum twice as large, but for an odd factor. -/
theorem powers_two_mul (t m : ℕ) : powers t (2 * m) = 2 * (powers t m * (2 * (t * powers t m) + 1)) := by
  rw [Nat.two_mul, powers_add]
  ring

theorem dvd_mul_odd_iff (u v : ℕ) : 2 ^ k ∣ u * (2 * v + 1) ↔ 2 ^ k ∣ u := by
  have hodd : Nat.Coprime (2 ^ k) (2 * v + 1) := Nat.Coprime.pow_left k (by simp)
  exact hodd.dvd_mul_right

/-- The sum of `n` powers has just the powers of two in it that `n` has. -/
theorem dvd_powers_iff (t k n : ℕ) : 2 ^ k ∣ powers t n ↔ 2 ^ k ∣ n := by
  induction k generalizing n with
  | zero => simp
  | succ k ih =>
    obtain ⟨m, rfl | rfl⟩ := Nat.even_or_odd' n
    · rw [powers_two_mul, Nat.pow_succ', Nat.mul_dvd_mul_iff_left (by decide), Nat.mul_dvd_mul_iff_left (by decide),
        dvd_mul_odd_iff, ih]
    · have hodd : ¬ 2 ∣ powers t (2 * m + 1) := by
        rw [powers, powers_two_mul, Nat.mul_left_comm]
        omega
      have heven : 2 ∣ 2 ^ (k + 1) := Dvd.intro_left (2 ^ k) rfl
      exact iff_of_false (fun h => hodd (heven.trans h)) fun h => absurd (heven.trans h) (by omega)

/-- The generator is where it was after just the multiples of its modulus. -/
theorem iterate_modEq_iff (hc : c % 2 = 1) : (next t c)^[n] x ≡ x [MOD 2 ^ k] ↔ 2 ^ k ∣ n := by
  obtain ⟨v, hv⟩ : ∃ v, 4 * t * x + c = 2 * v + 1 := ⟨2 * (t * x) + c / 2, by
    rw [Nat.mul_assoc]
    omega⟩
  rw [iterate_next, hv, Nat.ModEq.comm, Nat.modEq_iff_dvd' (Nat.le_add_right _ _), Nat.add_sub_cancel_left,
    dvd_mul_odd_iff, dvd_powers_iff]

/-- Two numbers of steps lead to the same state just where they have the same residue. -/
theorem iterate_modEq_iterate_iff (hc : c % 2 = 1) :
    (next t c)^[m] x ≡ (next t c)^[n] x [MOD 2 ^ k] ↔ m ≡ n [MOD 2 ^ k] := by
  wlog hle : m ≤ n
  · rw [Nat.ModEq.comm, this x hc (Nat.le_of_not_le hle), Nat.ModEq.comm]
  obtain ⟨d, rfl⟩ := Nat.exists_eq_add_of_le hle
  have hd : m ≡ m + d [MOD 2 ^ k] ↔ 2 ^ k ∣ d := by
    rw [Nat.modEq_iff_dvd' (Nat.le_add_right m d), Nat.add_sub_cancel_left]
  rw [hd, Nat.add_comm m d, Function.iterate_add_apply, Nat.ModEq.comm, iterate_modEq_iff _ hc]

/-- After `2 ^ k` steps bit `k` is not as before. -/
theorem testBit_iterate (hc : c % 2 = 1) (k x : ℕ) : ((next t c)^[2 ^ k] x).testBit k = !x.testBit k := by
  have hlow : (next t c)^[2 ^ k] x % 2 ^ k = x % 2 ^ k := (iterate_modEq_iff x hc).mpr (Nat.dvd_refl _)
  have hhigh : (next t c)^[2 ^ k] x % 2 ^ (k + 1) ≠ x % 2 ^ (k + 1) := by
    intro h
    have hdvd := (iterate_modEq_iff x hc).mp h
    exact absurd ((Nat.pow_dvd_pow_iff_le_right (by decide)).mp hdvd) (by omega)
  rw [Nat.mod_pow_succ, Nat.mod_pow_succ, hlow] at hhigh
  have hbit : (next t c)^[2 ^ k] x / 2 ^ k % 2 ≠ x / 2 ^ k % 2 := fun h => hhigh (by rw [h])
  rw [Nat.testBit_eq_decide_div_mod_eq, Nat.testBit_eq_decide_div_mod_eq, ← decide_not, decide_eq_decide]
  omega

/-! ### The bits that are given out -/

/-- The `w` bits from bit `low` on. -/
def bits (low w y : ℕ) : ℕ := y / 2 ^ low % 2 ^ w

variable {low w : ℕ}

theorem bits_of_modEq {y z : ℕ} (h : y ≡ z [MOD 2 ^ (low + w)]) : bits low w y = bits low w z := by
  rw [Nat.ModEq, Nat.pow_add] at h
  rw [bits, bits, ← Nat.mod_mul_right_div_self, ← Nat.mod_mul_right_div_self, h]

theorem testBit_bits (hw : 0 < w) (y : ℕ) : (bits low w y).testBit (w - 1) = y.testBit (low + w - 1) := by
  rw [bits, Nat.testBit_mod_two_pow, Nat.testBit_div_two_pow, decide_eq_true (by omega : w - 1 < w), Bool.true_and]
  congr 1
  omega

/-- Of a number that is no multiple of `2 ^ T` some multiple has the residue `2 ^ (T - 1)`. -/
theorem exists_mul_eq {p T : ℕ} (h : ¬ 2 ^ (T + 1) ∣ p) : ∃ u r, p * u = 2 ^ T + 2 ^ (T + 1) * r := by
  obtain ⟨k, q, ⟨r, rfl⟩, rfl⟩ := Nat.exists_eq_two_pow_mul_odd (n := p) (by
    rintro rfl
    exact h (Nat.dvd_zero _))
  have hk : k ≤ T := by
    by_contra hlt
    exact h ((Nat.pow_dvd_pow 2 (by omega)).trans (Nat.dvd_mul_right _ _))
  refine ⟨2 ^ (T - k), r, ?_⟩
  have hpow : 2 ^ T = 2 ^ k * 2 ^ (T - k) := by
    rw [← Nat.pow_add, Nat.add_sub_cancel' hk]
  rw [Nat.pow_succ, hpow]
  ring

/-- What is given out repeats after just the multiples of `2 ^ (low + w)`. -/
theorem bits_period_iff (hc : c % 2 = 1) (hw : 0 < w) (p : ℕ) :
    (∀ n, bits low w ((next t c)^[n + p] x) = bits low w ((next t c)^[n] x)) ↔ 2 ^ (low + w) ∣ p := by
  have hback : ∀ {q}, 2 ^ (low + w) ∣ q → ∀ n, bits low w ((next t c)^[n + q] x) = bits low w ((next t c)^[n] x) := by
    intro q hq n
    rw [Nat.add_comm, Function.iterate_add_apply]
    exact bits_of_modEq ((iterate_modEq_iff _ hc).mpr hq)
  refine ⟨fun hp => ?_, hback⟩
  by_contra hdvd
  obtain ⟨T, hT⟩ : ∃ T, low + w = T + 1 := ⟨low + w - 1, by omega⟩
  rw [hT] at hdvd
  obtain ⟨u, r, hu⟩ := exists_mul_eq hdvd
  have hmul : ∀ u n, bits low w ((next t c)^[n + p * u] x) = bits low w ((next t c)^[n] x) := by
    intro u
    induction u with
    | zero => intro n; rfl
    | succ u ih =>
      intro n
      rw [Nat.mul_succ, ← Nat.add_assoc, hp, ih]
  have hhalf : bits low w ((next t c)^[0 + 2 ^ T] x) = bits low w x := by
    rw [← hback (q := 2 ^ (T + 1) * r) (hT ▸ Nat.dvd_mul_right _ _), Nat.add_assoc, ← hu, hmul]
    rfl
  have hbit : (bits low w ((next t c)^[0 + 2 ^ T] x)).testBit (w - 1) = (bits low w x).testBit (w - 1) := by
    rw [hhalf]
  rw [testBit_bits hw, testBit_bits hw, Nat.zero_add, hT, Nat.add_sub_cancel, testBit_iterate hc] at hbit
  cases h : x.testBit T <;> simp [h] at hbit

/-! ### How often each value is given out -/

theorem bits_eq_iff {v y : ℕ} (hy : y < 2 ^ (low + w)) : bits low w y = v ↔ v * 2 ^ low ≤ y ∧ y < (v + 1) * 2 ^ low := by
  have hlt : y / 2 ^ low < 2 ^ w := Nat.div_lt_of_lt_mul (by rwa [← Nat.pow_add])
  rw [bits, Nat.mod_eq_of_lt hlt, Nat.div_eq_iff (Nat.two_pow_pos low), Nat.add_mul]
  have hpos := Nat.two_pow_pos low
  omega

/-- In `2 ^ (low + w)` steps each value is given out `2 ^ low` times. -/
theorem card_bits (hc : c % 2 = 1) {v : ℕ} (hv : v < 2 ^ w) (s : ℕ) :
    ((Finset.range (2 ^ (low + w))).filter fun n => bits low w ((next t c)^[s + n] x) = v).card = 2 ^ low := by
  generalize hM : 2 ^ (low + w) = M
  have hpos : 0 < M := hM ▸ Nat.two_pow_pos _
  let g : ℕ → ℕ := fun n => (next t c)^[s + n] x % M
  have hinj : Set.InjOn g (Finset.range M) := by
    intro m hm n hn h
    have hsame : (next t c)^[s + m] x ≡ (next t c)^[s + n] x [MOD M] := h
    rw [← hM, iterate_modEq_iterate_iff x hc, hM] at hsame
    exact (Nat.ModEq.add_left_cancel' s hsame).eq_of_lt_of_lt (Finset.mem_range.mp hm) (Finset.mem_range.mp hn)
  have himage : (Finset.range M).image g = Finset.range M := by
    refine Finset.eq_of_subset_of_card_le (fun y hy => ?_) (by rw [Finset.card_image_of_injOn hinj])
    obtain ⟨n, -, rfl⟩ := Finset.mem_image.mp hy
    exact Finset.mem_range.mpr (Nat.mod_lt _ hpos)
  have hvalues : ((Finset.range M).filter fun y => bits low w y = v) =
      Finset.Ico (v * 2 ^ low) ((v + 1) * 2 ^ low) := by
    ext y
    rw [Finset.mem_filter, Finset.mem_range, Finset.mem_Ico, ← hM]
    constructor
    · rintro ⟨hy, hbits⟩
      exact (bits_eq_iff hy).mp hbits
    · intro h
      have hy : y < 2 ^ (low + w) := by
        rw [Nat.pow_add, Nat.mul_comm]
        exact h.2.trans_le (Nat.mul_le_mul_right _ hv)
      exact ⟨hy, (bits_eq_iff hy).mpr h⟩
  calc ((Finset.range M).filter fun n => bits low w ((next t c)^[s + n] x) = v).card
      = ((Finset.range M).filter fun n => bits low w (g n) = v).card := by
        have hbits : ∀ n, bits low w (g n) = bits low w ((next t c)^[s + n] x) := fun n =>
          bits_of_modEq (hM ▸ Nat.mod_modEq _ _)
        simp only [hbits]
    _ = (((Finset.range M).image g).filter fun y => bits low w y = v).card := by
        rw [Finset.filter_image, Finset.card_image_of_injOn (hinj.mono (Finset.coe_subset.mpr (Finset.filter_subset _ _)))]
    _ = 2 ^ low := by
        rw [himage, hvalues, Nat.card_Ico, Nat.add_mul, Nat.one_mul, Nat.add_sub_cancel_left]

end Lcg
