import Mathlib.Data.Set.Card
import Posix9.Lib.Lcg

/-! posix9_misc.c: random and its relatives, and os9_get_random_bytes of os9_platform.c. An unsigned long has 32
    bits. `random_seed` is passed along; it starts at 1, and srandom sets it. -/

namespace Posix9

/-- `random_seed` as the program starts. -/
def randomStart : BitVec 32 := 1

/-- Each function gives what it returns, and `random_seed` after it. -/
def random (random_seed : BitVec 32) : BitVec 32 × BitVec 32 :=
  let random_seed := random_seed * 1103515245 + 12345
  (random_seed >>> 16 &&& 0x7FFFFFFF, random_seed)

/-- `RAND_MAX` is the C library's. -/
def rand (RAND_MAX random_seed : BitVec 32) : BitVec 32 × BitVec 32 :=
  let (r, random_seed) := random random_seed
  (r.umod (RAND_MAX + 1), random_seed)

structure UnsignedWide where
  hi : BitVec 32
  lo : BitVec 32

/-- `us` is what Microseconds gives. -/
def arc4random (us : UnsignedWide) (random_seed : BitVec 32) : BitVec 32 × BitVec 32 :=
  random (random_seed ^^^ (us.lo ^^^ us.hi <<< 16))

/-- What `buf` holds: a byte for each reading of the clock. -/
def arc4random_buf : List UnsignedWide → BitVec 32 → List (BitVec 8) × BitVec 32
  | [], random_seed => ([], random_seed)
  | us :: readings, random_seed =>
    let (r, random_seed) := arc4random us random_seed
    let (bytes, random_seed) := arc4random_buf readings random_seed
    ((r &&& 0xFF).setWidth 8 :: bytes, random_seed)

def os9_get_random_bytes (readings : List UnsignedWide) (random_seed : BitVec 32) : List (BitVec 8) × BitVec 32 :=
  arc4random_buf readings random_seed

/-! ### The numbers of random -/

/-- `random_seed` after `n` calls of random. -/
def seedAfter (n : ℕ) (random_seed : BitVec 32) : BitVec 32 := (fun s => (random s).2)^[n] random_seed

theorem seedAfter_succ (n : ℕ) (random_seed : BitVec 32) :
    seedAfter (n + 1) random_seed = (random (seedAfter n random_seed)).2 := Function.iterate_succ_apply' ..

/-- What call `n` of random returns, from 0 on. -/
def randomAt (random_seed : BitVec 32) (n : ℕ) : BitVec 32 := (random (seedAfter n random_seed)).1

/-- The generator that is not reduced. -/
abbrev lcg : ℕ → ℕ := Lcg.next 275878811 12345

theorem toNat_random (random_seed : BitVec 32) : (random random_seed).2.toNat = lcg random_seed.toNat % 2 ^ 32 := by
  rw [random, BitVec.toNat_add, BitVec.toNat_mul, lcg, Lcg.next, Nat.mul_comm]
  simp

theorem toNat_seedAfter (n : ℕ) (random_seed : BitVec 32) :
    (seedAfter n random_seed).toNat = lcg^[n] random_seed.toNat % 2 ^ 32 := by
  induction n with
  | zero => exact (Nat.mod_eq_of_lt random_seed.isLt).symm
  | succ n ih =>
    rw [seedAfter_succ, toNat_random, ih, Function.iterate_succ_apply']
    exact (((Nat.mod_modEq _ _).mul_left _).add_right _ : _ ≡ _ [MOD 2 ^ 32])

/-- random returns the upper half of the seed. -/
theorem toNat_randomAt (random_seed : BitVec 32) (n : ℕ) :
    (randomAt random_seed n).toNat = Lcg.bits 16 16 (lcg^[n + 1] random_seed.toNat) := by
  have hseed : (random (seedAfter n random_seed)).2.toNat = lcg^[n + 1] random_seed.toNat % 2 ^ 32 := by
    rw [← toNat_seedAfter, seedAfter_succ]
  have hlow : ((random (seedAfter n random_seed)).2 >>> 16 &&& 0x7FFFFFFF).toNat =
      (random (seedAfter n random_seed)).2.toNat / 2 ^ 16 := by
    rw [BitVec.toNat_and, BitVec.toNat_ushiftRight, Nat.shiftRight_eq_div_pow]
    have hlt := (random (seedAfter n random_seed)).2.isLt
    exact (Nat.and_two_pow_sub_one_eq_mod _ 31).trans (Nat.mod_eq_of_lt (by omega))
  rw [randomAt, ← Lcg.bits_of_modEq (Nat.mod_modEq _ _), ← hseed]
  refine hlow.trans ?_
  rw [Lcg.bits, Nat.mod_eq_of_lt]
  have hlt := (random (seedAfter n random_seed)).2.isLt
  omega

/-- No number is above 65535, so that rand returns the same as random. -/
theorem rand_eq_random {RAND_MAX : BitVec 32} (hlow : 65535 ≤ RAND_MAX.toNat) (hhigh : RAND_MAX.toNat < 2 ^ 31)
    (random_seed : BitVec 32) : rand RAND_MAX random_seed = random random_seed := by
  have hvalue : (random random_seed).1.toNat < 2 ^ 16 := by
    refine (congrArg (· < 2 ^ 16) (toNat_randomAt random_seed 0)).mpr ?_
    exact Nat.mod_lt _ (by decide)
  have hmax : (RAND_MAX + 1).toNat = RAND_MAX.toNat + 1 := by
    rw [BitVec.toNat_add]
    exact Nat.mod_eq_of_lt (by simp; omega)
  refine Prod.ext (BitVec.eq_of_toNat_eq ?_) rfl
  change ((random random_seed).1.umod (RAND_MAX + 1)).toNat = _
  rw [BitVec.umod_eq, BitVec.toNat_umod, hmax, Nat.mod_eq_of_lt (by omega)]

/-- The lower `j` bits of what random returns repeat after just the multiples of `2 ^ (16 + j)` calls. -/
theorem random_period (random_seed : BitVec 32) {j : ℕ} (hpos : 1 ≤ j) (hj : j ≤ 16) (p : ℕ) :
    (∀ n, (randomAt random_seed (n + p)).toNat % 2 ^ j = (randomAt random_seed n).toNat % 2 ^ j) ↔
      2 ^ (16 + j) ∣ p := by
  have hbits : ∀ n, (randomAt random_seed n).toNat % 2 ^ j = Lcg.bits 16 j (lcg^[n] (lcg random_seed.toNat)) := by
    intro n
    rw [toNat_randomAt, Lcg.bits, Nat.mod_mod_of_dvd _ (Nat.pow_dvd_pow 2 hj), Function.iterate_succ_apply, Lcg.bits]
  simp only [hbits]
  exact Lcg.bits_period_iff _ (by decide) hpos p

/-- The lowest byte repeats after `2 ^ 24` calls and not after half of them. -/
theorem random_period_byte :
    (∀ n, (randomAt randomStart (n + 2 ^ 24)).toNat % 2 ^ 8 = (randomAt randomStart n).toNat % 2 ^ 8) ∧
      ¬ ∀ n, (randomAt randomStart (n + 2 ^ 23)).toNat % 2 ^ 8 = (randomAt randomStart n).toNat % 2 ^ 8 :=
  ⟨(random_period randomStart (by decide) (by decide) (2 ^ 24)).mpr (Nat.dvd_refl _),
    fun h => absurd ((random_period randomStart (by decide) (by decide) (2 ^ 23)).mp h) (by decide)⟩

/-- In any `2 ^ 32` calls of random in a row each number up to 65535 is returned `2 ^ 16` times. -/
theorem random_uniform (random_seed : BitVec 32) (first : ℕ) {v : ℕ} (hv : v < 2 ^ 16) :
    ((Finset.range (2 ^ 32)).filter fun n => (randomAt random_seed (first + n)).toNat = v).card = 2 ^ 16 := by
  have hbits : ∀ n, (randomAt random_seed (first + n)).toNat =
      Lcg.bits 16 16 (lcg^[first + n] (lcg random_seed.toNat)) := by
    intro n
    rw [toNat_randomAt, Function.iterate_succ_apply]
  simp only [hbits]
  exact Lcg.card_bits _ (by decide) hv first

theorem random_uniform_zero : ((Finset.range (2 ^ 32)).filter fun n =>
    (randomAt randomStart (0 + n)).toNat = 0).card = 2 ^ 16 := random_uniform randomStart 0 (by decide)

/-! ### The bytes of arc4random_buf -/

/-- The byte that is kept of what random returns. -/
def lowByte (r : BitVec 32) : BitVec 8 := (r &&& 0xFF).setWidth 8

theorem lowByte_random (s : BitVec 32) :
    lowByte (random s).1 = (((random s).2.setWidth 24) >>> 16).setWidth 8 := by
  change ((random s).2 >>> 16 &&& 0x7FFFFFFF &&& 0xFF).setWidth 8 = _
  refine BitVec.eq_of_toNat_eq ?_
  have hmask (y : ℕ) : y &&& 2147483647 &&& 255 = y % 2 ^ 8 := by
    rw [Nat.and_assoc]
    exact Nat.and_two_pow_sub_one_eq_mod y 8
  rw [BitVec.toNat_setWidth, BitVec.toNat_and, BitVec.toNat_and, BitVec.toNat_ushiftRight, BitVec.toNat_setWidth,
    BitVec.toNat_ushiftRight, BitVec.toNat_setWidth, Nat.shiftRight_eq_div_pow, Nat.shiftRight_eq_div_pow]
  refine (congrArg (· % 2 ^ 8) (hmask _)).trans ?_
  omega

/-- The lower 24 bits of the seed after a call depend on no others before it. -/
theorem seed_low {s t : BitVec 32} (h : s.setWidth 24 = t.setWidth 24) :
    (random s).2.setWidth 24 = (random t).2.setWidth 24 := by
  rw [random, random, BitVec.setWidth_add _ _ (by decide), BitVec.setWidth_mul _ _ (by decide), h,
    BitVec.setWidth_add _ _ (by decide), BitVec.setWidth_mul _ _ (by decide)]

theorem arc4random_buf_low (readings : List UnsignedWide) {s t : BitVec 32} (h : s.setWidth 24 = t.setWidth 24) :
    (arc4random_buf readings s).1 = (arc4random_buf readings t).1 := by
  induction readings generalizing s t with
  | nil => rfl
  | cons us readings ih =>
    have hmixed : (s ^^^ (us.lo ^^^ us.hi <<< 16)).setWidth 24 = (t ^^^ (us.lo ^^^ us.hi <<< 16)).setWidth 24 := by
      rw [BitVec.setWidth_xor, h, ← BitVec.setWidth_xor]
    have hseed := seed_low hmixed
    have hbyte := lowByte_random (s ^^^ (us.lo ^^^ us.hi <<< 16))
    rw [hseed, ← lowByte_random] at hbyte
    exact congrArg₂ List.cons hbyte (ih hseed)

/-- However many bytes os9_get_random_bytes is asked for, it gives one of at most `2 ^ 24` buffers, whatever the clock
    shows. -/
theorem random_bytes_le (readings : List UnsignedWide) :
    (Set.range fun random_seed => (os9_get_random_bytes readings random_seed).1).encard ≤ 2 ^ 24 := by
  have hrange : (Set.range fun random_seed => (os9_get_random_bytes readings random_seed).1) ⊆
      (fun low => (os9_get_random_bytes readings (BitVec.ofNat 32 low)).1) '' Finset.range (2 ^ 24) := by
    rintro _ ⟨random_seed, rfl⟩
    refine ⟨random_seed.toNat % 2 ^ 24, Finset.mem_coe.mpr (Finset.mem_range.mpr (Nat.mod_lt _ (by decide))), ?_⟩
    refine arc4random_buf_low readings (BitVec.eq_of_toNat_eq ?_)
    rw [BitVec.toNat_setWidth, BitVec.toNat_ofNat, BitVec.toNat_setWidth]
    omega
  calc (Set.range fun random_seed => (os9_get_random_bytes readings random_seed).1).encard
      ≤ (Finset.range (2 ^ 24) : Set ℕ).encard := (Set.encard_le_encard hrange).trans (Set.encard_image_le _ _)
    _ = 2 ^ 24 := by
        rw [Set.encard_coe_eq_coe_finsetCard, Finset.card_range]
        rfl

end Posix9
