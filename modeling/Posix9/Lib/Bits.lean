import Mathlib.Data.Finset.Card
import Mathlib.Data.Finset.Range
import Mathlib.Data.Nat.ModEq

/-! Sets of numbers kept as the bits of an array of words: a number is a word's index and the bit's in the word. -/

namespace Bits

variable {w : ℕ} {n m size : ℕ} {ws : ℕ → BitVec w}

/-- The mask for bit `i`. -/
theorem getLsbD_mask {i j : ℕ} (hj : j < w) : (1#w <<< i).getLsbD j = decide (j = i) := by
  rw [BitVec.getLsbD_shiftLeft, BitVec.getLsbD_one, Bool.eq_iff_iff]
  simp only [Bool.and_eq_true, decide_eq_true_eq, Bool.not_eq_true', decide_eq_false_iff_not]
  omega

/-- The word has the bit `i`, by the mask for it. -/
theorem and_mask_ne_zero {x : BitVec w} {i : ℕ} (hi : i < w) : x &&& 1#w <<< i ≠ 0#w ↔ x.getLsbD i = true := by
  have hbit (j : ℕ) (hj : j < w) : (x &&& 1#w <<< i).getLsbD j = (decide (j = i) && x.getLsbD i) := by
    rw [BitVec.getLsbD_and, getLsbD_mask hj]
    rcases eq_or_ne j i with rfl | hne
    · exact Bool.and_comm _ _
    · simp [hne]
  constructor
  · intro hne
    by_contra hunset
    refine hne (BitVec.eq_of_getLsbD_eq fun j hj => ?_)
    rw [hbit j hj, BitVec.getLsbD_zero, eq_false_of_ne_true hunset, Bool.and_false]
  · intro hset hzero
    have hclear := hbit i hi
    rw [hzero, hset] at hclear
    simp at hclear

/-- Bit `n % w` of word `n / w` is set. -/
def Mem (n : ℕ) (ws : ℕ → BitVec w) : Prop := (ws (n / w)).getLsbD (n % w) = true

instance : Decidable (Mem n ws) := inferInstanceAs (Decidable (_ = _))

/-- The bit is set, by the mask for it. -/
def insert (n : ℕ) (ws : ℕ → BitVec w) : ℕ → BitVec w :=
  Function.update ws (n / w) (ws (n / w) ||| 1#w <<< (n % w))

theorem mem_insert (hw : 0 < w) : Mem m (insert n ws) ↔ m = n ∨ Mem m ws := by
  have hsame : m = n ↔ m / w = n / w ∧ m % w = n % w := by
    constructor
    · rintro rfl
      exact ⟨rfl, rfl⟩
    · rintro ⟨hdiv, hmod⟩
      rw [← Nat.div_add_mod m w, hdiv, hmod, Nat.div_add_mod]
  have hbit := Nat.mod_lt m hw
  rw [Mem, Mem, insert]
  rcases eq_or_ne (m / w) (n / w) with hdiv | hdiv
  · rw [hdiv, Function.update_self, BitVec.getLsbD_or, getLsbD_mask hbit, hsame, Bool.or_eq_true, decide_eq_true_iff]
    exact or_comm.trans (or_congr_left (and_iff_right hdiv).symm)
  · rw [Function.update_of_ne hdiv, hsame]
    exact (or_iff_right fun h => hdiv h.1).symm

/-- How many of the numbers below `size` are in it. -/
def count (size : ℕ) (ws : ℕ → BitVec w) : ℕ := ((Finset.range size).filter (Mem · ws)).card

theorem count_insert (hw : 0 < w) (hn : n < size) (hnew : ¬ Mem n ws) :
    count size (insert n ws) = count size ws + 1 := by
  have hfilter : (Finset.range size).filter (Mem · (insert n ws)) =
      Insert.insert n ((Finset.range size).filter (Mem · ws)) := by
    ext m
    rw [Finset.mem_insert, Finset.mem_filter, Finset.mem_filter, Finset.mem_range, mem_insert hw]
    constructor
    · rintro ⟨hm, rfl | hmem⟩
      · exact .inl rfl
      · exact .inr ⟨hm, hmem⟩
    · rintro (rfl | ⟨hm, hmem⟩)
      · exact ⟨hn, .inl rfl⟩
      · exact ⟨hm, .inr hmem⟩
  rw [count, hfilter, Finset.card_insert_of_notMem (by simp [hnew]), count]

theorem count_congr {ws' : ℕ → BitVec w} (h : ∀ n < size, Mem n ws ↔ Mem n ws') : count size ws = count size ws' :=
  congrArg Finset.card (Finset.filter_congr fun n hn => h n (Finset.mem_range.mp hn))

theorem count_eq_zero : count size ws = 0 ↔ ∀ n < size, ¬ Mem n ws := by
  simp [count, Finset.filter_eq_empty_iff]

end Bits
