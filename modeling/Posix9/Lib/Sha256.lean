import Mathlib.Analysis.SpecialFunctions.Pow.NthRootLemmas
import Mathlib.Data.Nat.Nth
import Mathlib.Data.Nat.Prime.Defs

/-! SHA-256 as FIPS 180-4 defines it, for messages of whole bytes. -/

namespace Sha256

abbrev Byte := BitVec 8
abbrev Word := BitVec 32

variable {m p : List Byte} {k n t : ℕ}

/-! ### Functions and constants -/

def Ch (x y z : Word) : Word := (x &&& y) ^^^ (~~~x &&& z)
def Maj (x y z : Word) : Word := (x &&& y) ^^^ (x &&& z) ^^^ (y &&& z)
def bigSigma0 (x : Word) : Word := x.rotateRight 2 ^^^ x.rotateRight 13 ^^^ x.rotateRight 22
def bigSigma1 (x : Word) : Word := x.rotateRight 6 ^^^ x.rotateRight 11 ^^^ x.rotateRight 25
def smallSigma0 (x : Word) : Word := x.rotateRight 7 ^^^ x.rotateRight 18 ^^^ x >>> 3
def smallSigma1 (x : Word) : Word := x.rotateRight 17 ^^^ x.rotateRight 19 ^^^ x >>> 10

/-- The first 32 bits of the fractional part of the `k`-th root of `a`. -/
def rootFraction (k a : ℕ) : Word := BitVec.ofNat 32 (Nat.nthRoot k (a * 2 ^ (32 * k)))

/-- From the cube roots of the first 64 primes. -/
noncomputable def K (t : ℕ) : Word := rootFraction 3 (Nat.nth Nat.Prime t)

/-! ### Bytes and words -/

/-- `n` in `k` bytes, the most significant first. -/
def bigEndian : ℕ → ℕ → List Byte
  | 0, _ => []
  | k + 1, n => bigEndian k (n / 256) ++ [BitVec.ofNat 8 n]

/-- The four bytes from `k` on, as a word. -/
def wordAt (p : List Byte) (k : ℕ) : Word :=
  p.getD k 0 ++ p.getD (k + 1) 0 ++ p.getD (k + 2) 0 ++ p.getD (k + 3) 0

/-! ### Preprocessing -/

theorem exists_zeros (len : ℕ) : ∃ z, 64 ∣ len + 1 + z + 8 :=
  ⟨(119 - len % 64) % 64, by omega⟩

/-- The least number of zero bytes. -/
def zeros (len : ℕ) : ℕ := Nat.find (exists_zeros len)

def pad (m : List Byte) : List Byte :=
  m ++ 0x80 :: (List.replicate (zeros m.length) 0 ++ bigEndian 8 (8 * m.length))

/-- The words of the `i`-th block. -/
def block (p : List Byte) (i : ℕ) (j : ℕ) : Word := wordAt p (64 * i + 4 * j)

/-- The message schedule. -/
def W (M : ℕ → Word) (t : ℕ) : Word :=
  if t < 16 then M t
  else smallSigma1 (W M (t - 2)) + W M (t - 7) + smallSigma0 (W M (t - 15)) + W M (t - 16)

/-! ### Computation -/

/-- The working variables, and the hash value. -/
structure Vars where
  a : Word
  b : Word
  c : Word
  d : Word
  e : Word
  f : Word
  g : Word
  h : Word
  deriving DecidableEq

/-- From the square roots of the first eight primes. -/
noncomputable def H0 : Vars :=
  let H (i : ℕ) : Word := rootFraction 2 (Nat.nth Nat.Prime i)
  ⟨H 0, H 1, H 2, H 3, H 4, H 5, H 6, H 7⟩

noncomputable def round (W : ℕ → Word) (v : Vars) (t : ℕ) : Vars :=
  let T1 := v.h + bigSigma1 v.e + Ch v.e v.f v.g + K t + W t
  let T2 := bigSigma0 v.a + Maj v.a v.b v.c
  ⟨T1 + T2, v.a, v.b, v.c, v.d + T1, v.e, v.f, v.g⟩

/-- The next hash value from the last one and a block. -/
noncomputable def compress (H : Vars) (M : ℕ → Word) : Vars :=
  let v := (List.range 64).foldl (round (W M)) H
  ⟨v.a + H.a, v.b + H.b, v.c + H.c, v.d + H.d, v.e + H.e, v.f + H.f, v.g + H.g, v.h + H.h⟩

def Vars.bytes (H : Vars) : List Byte :=
  [H.a, H.b, H.c, H.d, H.e, H.f, H.g, H.h].flatMap fun x => bigEndian 4 x.toNat

noncomputable def digest (m : List Byte) : List Byte :=
  (((List.range ((pad m).length / 64)).map (block (pad m))).foldl compress H0).bytes

/-! ### The constants -/

theorem length_filter_range (P : ℕ → Prop) [DecidablePred P] (n : ℕ) :
    ((List.range n).filter P).length = Nat.count P n := by
  induction n with
  | zero => rfl
  | succ n ih =>
    rw [List.range_succ, List.filter_append, List.length_append, ih, Nat.count_succ]
    by_cases hn : P n <;> simp [hn]

theorem nth_eq_getElem_filter {P : ℕ → Prop} [DecidablePred P] (n : ℕ)
    (h : t < ((List.range n).filter P).length) : Nat.nth P t = ((List.range n).filter P)[t] := by
  induction n with
  | zero => exact absurd h (Nat.not_lt_zero t)
  | succ n ih =>
    by_cases ht : t < ((List.range n).filter P).length
    · simp only [List.range_succ, List.filter_append, List.getElem_append_left ht]
      exact ih ht
    · have hcount : Nat.count P n ≤ t := by
        rw [← length_filter_range]
        exact Nat.not_lt.mp ht
      rw [length_filter_range, Nat.count_succ] at h
      have hn : P n := by
        by_contra hn
        rw [if_neg hn] at h
        omega
      rw [if_pos hn] at h
      obtain rfl : t = Nat.count P n := by omega
      simp only [List.range_succ, List.filter_append, List.getElem_append_right (Nat.not_lt.mp ht)]
      rw [Nat.nth_count hn]
      simp [hn]

/-- The primes by which a number below 18 * 18 is divided where it is not prime. -/
def divisors : List ℕ := [2, 3, 5, 7, 11, 13, 17]

theorem mem_divisors : ∀ q < 18, q.Prime → q ∈ divisors := by decide

theorem prime_iff_of_lt (hn : n < 18 * 18) : n.Prime ↔ 2 ≤ n ∧ ∀ q ∈ divisors, q ∣ n → q = n := by
  constructor
  · intro hp
    refine ⟨hp.two_le, fun q hq hdvd => ?_⟩
    have hone : ∀ q ∈ divisors, q ≠ 1 := by decide
    exact (hp.eq_one_or_self_of_dvd q hdvd).resolve_left (hone q hq)
  · rintro ⟨htwo, hdiv⟩
    by_contra hp
    have hsq : n.minFac ^ 2 ≤ n := Nat.minFac_sq_le_self (by omega) hp
    have hlt : n.minFac < 18 := by nlinarith
    have hprime : n.minFac.Prime := Nat.minFac_prime (by omega)
    have heq : n.minFac = n := hdiv _ (mem_divisors _ hlt hprime) (Nat.minFac_dvd n)
    exact hp (heq ▸ hprime)

/-- The first 64 primes. -/
def primes : List ℕ := (List.range 312).filter fun n => 2 ≤ n ∧ ∀ q ∈ divisors, q ∣ n → q = n

theorem primes_eq : primes = (List.range 312).filter Nat.Prime := by
  refine List.filter_congr fun n hn => ?_
  have hlt : n < 18 * 18 := Nat.lt_trans (List.mem_range.mp hn) (by decide)
  exact decide_eq_decide.mpr (prime_iff_of_lt hlt).symm

theorem length_primes : primes.length = 64 := by decide +kernel

theorem nth_prime (h : t < primes.length) : Nat.nth Nat.Prime t = primes[t] := by
  have ht : t < ((List.range 312).filter Nat.Prime).length := by rwa [← primes_eq]
  rw [nth_eq_getElem_filter 312 ht]
  simp only [primes_eq]

theorem K_eq (h : t < primes.length) : K t = rootFraction 3 primes[t] := by
  rw [K, nth_prime h]

/-! ### The padded message -/

theorem zeros_eq (len : ℕ) : zeros len = (119 - len % 64) % 64 := by
  rw [zeros, Nat.find_eq_iff]
  exact ⟨by omega, fun z hz => by omega⟩

theorem length_bigEndian (k n : ℕ) : (bigEndian k n).length = k := by
  induction k generalizing n with
  | zero => rfl
  | succ k ih => rw [bigEndian, List.length_append, ih, List.length_singleton]

theorem getD_bigEndian {i : ℕ} (h : i < k) :
    (bigEndian k n).getD i 0 = BitVec.ofNat 8 (n / 256 ^ (k - 1 - i)) := by
  induction k generalizing n with
  | zero => exact absurd h (Nat.not_lt_zero i)
  | succ k ih =>
    rw [bigEndian]
    by_cases hi : i < k
    · have hpow : 256 ^ (k + 1 - 1 - i) = 256 * 256 ^ (k - 1 - i) := by
        rw [← Nat.pow_succ']
        congr 1
        omega
      rw [List.getD_append _ _ _ _ (by rwa [length_bigEndian]), ih hi, hpow, Nat.div_div_eq_div_mul]
    · obtain rfl : i = k := by omega
      rw [List.getD_append_right _ _ _ _ (by rw [length_bigEndian]), length_bigEndian]
      simp

theorem length_pad (m : List Byte) : (pad m).length = (m.length + 9 + 63) / 64 * 64 := by
  simp only [pad, List.length_append, List.length_cons, List.length_replicate, length_bigEndian, zeros_eq]
  omega

theorem getD_pad_of_lt (h : k < m.length) : (pad m).getD k 0 = m.getD k 0 :=
  List.getD_append _ _ _ _ h

theorem getD_pad_length (m : List Byte) : (pad m).getD m.length 0 = 0x80 := by
  rw [pad, List.getD_append_right _ _ _ _ le_rfl, Nat.sub_self, List.getD_cons_zero]

theorem getD_pad_succ (m : List Byte) (k : ℕ) : (pad m).getD (m.length + 1 + k) 0 =
    (List.replicate (zeros m.length) 0 ++ bigEndian 8 (8 * m.length)).getD k 0 := by
  rw [pad, List.getD_append_right _ _ _ _ (by omega), show m.length + 1 + k - m.length = k + 1 by omega,
    List.getD_cons_succ]

theorem getD_pad_zero (hlow : m.length < k) (hhigh : k < (pad m).length - 8) : (pad m).getD k 0 = 0 := by
  obtain ⟨j, rfl⟩ := Nat.exists_eq_add_of_le (Nat.succ_le_of_lt hlow)
  have hj : j < zeros m.length := by
    rw [length_pad] at hhigh
    rw [zeros_eq]
    omega
  rw [getD_pad_succ, List.getD_append _ _ _ _ (by rwa [List.length_replicate])]
  simp [hj]

theorem getD_pad_size {i : ℕ} (h : i < 8) :
    (pad m).getD ((pad m).length - 8 + i) 0 = BitVec.ofNat 8 (8 * m.length / 256 ^ (7 - i)) := by
  have hpos : (pad m).length - 8 + i = m.length + 1 + (zeros m.length + i) := by
    rw [length_pad, zeros_eq]
    omega
  rw [hpos, getD_pad_succ, List.getD_append_right _ _ _ _ (by rw [List.length_replicate]; omega),
    List.length_replicate, Nat.add_sub_cancel_left, getD_bigEndian h]

/-! ### The schedule -/

theorem W_of_lt (M : ℕ → Word) (h : t < 16) : W M t = M t := by
  rw [W, if_pos h]

theorem W_of_le (M : ℕ → Word) (h : 16 ≤ t) : W M t =
    smallSigma1 (W M (t - 2)) + W M (t - 7) + smallSigma0 (W M (t - 15)) + W M (t - 16) := by
  rw [W, if_neg (Nat.not_lt.mpr h)]

end Sha256
