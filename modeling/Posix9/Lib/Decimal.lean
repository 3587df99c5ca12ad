import Mathlib.Algebra.Group.Nat.Defs
import Mathlib.Data.List.Basic

/-! Numbers in decimal, with zeros in front. -/

namespace Decimal

variable {n width k : ℕ} {c : Char}

/-- The digits of `n`, at least `width` of them. -/
def padded (width n : ℕ) : List Char := (Nat.toDigits 10 n).leftpad width '0'

theorem padded_eq (width n : ℕ) :
    padded width n = List.replicate (width - (Nat.toDigits 10 n).length) '0' ++ Nat.toDigits 10 n := rfl

theorem padded_ne_nil (width n : ℕ) : padded width n ≠ [] := by
  rw [padded_eq]
  exact List.append_ne_nil_of_right_ne_nil _ (List.ne_nil_of_length_pos Nat.length_toDigits_pos)

theorem isDigit_of_mem_padded (h : c ∈ padded width n) : c.isDigit = true := by
  rw [padded_eq] at h
  rcases List.mem_append.mp h with hzero | hdigit
  · rw [List.eq_of_mem_replicate hzero]
    rfl
  · exact Nat.isDigit_of_mem_toDigits (by decide) (by decide) hdigit

theorem length_padded_le (hk : 0 < k) (hn : n < 10 ^ k) (hwidth : width ≤ k) : (padded width n).length ≤ k := by
  have hdigits := (Nat.length_toDigits_le_iff (by decide) hk).mpr hn
  rw [padded_eq, List.length_append, List.length_replicate]
  omega

/-! ### Numerals of one width -/

theorem padded_succ (hw : 0 < width) (n : ℕ) : padded (width + 1) n = padded width (n / 10) ++ [Nat.digitChar (n % 10)] := by
  obtain ⟨w, rfl⟩ : ∃ w, width = w + 1 := ⟨width - 1, by omega⟩
  rcases Nat.lt_or_ge n 10 with hlt | hge
  · rw [Nat.div_eq_of_lt hlt, Nat.mod_eq_of_lt hlt, padded_eq, padded_eq, Nat.toDigits_zero,
      Nat.toDigits_of_lt_base hlt, List.length_singleton, List.length_singleton, Nat.add_sub_cancel, Nat.add_sub_cancel,
      List.replicate_succ']
  · rw [padded_eq, padded_eq, Nat.toDigits_of_base_le (by decide) hge, List.length_append, List.length_singleton,
      Nat.add_sub_add_right, List.append_assoc]

theorem padded_one (hn : n < 10) : padded 1 n = [Nat.digitChar n] := by
  rw [padded_eq, Nat.toDigits_of_lt_base hn]
  rfl

theorem length_padded (hw : 0 < width) (hn : n < 10 ^ width) : (padded width n).length = width := by
  have hdigits := (Nat.length_toDigits_le_iff (by decide) hw).mpr hn
  rw [padded_eq, List.length_append, List.length_replicate]
  omega

/-- Texts that differ before their ends are in the order of their beginnings. -/
theorem append_lt_append_iff {a b x y : List Char} (hlen : a.length = b.length) :
    a ++ x < b ++ y ↔ a < b ∨ a = b ∧ x < y := by
  induction a generalizing b with
  | nil =>
    obtain rfl := List.length_eq_zero_iff.mp hlen.symm
    simp
  | cons c a ih =>
    rcases b with _ | ⟨d, b⟩
    · cases hlen
    · rw [List.cons_append, List.cons_append, List.cons_lt_cons_iff, List.cons_lt_cons_iff, ih (Nat.succ.inj hlen),
        List.cons_eq_cons]
      tauto

theorem digitChar_lt_iff {m n : ℕ} (hm : m < 10) (hn : n < 10) : Nat.digitChar m < Nat.digitChar n ↔ m < n := by
  have hdigits : ∀ m < 10, ∀ n < 10, (Nat.digitChar m < Nat.digitChar n ↔ m < n) := by decide
  exact hdigits m hm n hn

/-- Of one width, numerals are in the order of their numbers. -/
theorem padded_lt_iff {m n : ℕ} (hw : 0 < width) (hm : m < 10 ^ width) (hn : n < 10 ^ width) :
    padded width m < padded width n ↔ m < n := by
  induction width generalizing m n with
  | zero => cases hw
  | succ w ih =>
    rcases Nat.eq_zero_or_pos w with rfl | hpos
    · rw [padded_one hm, padded_one hn, List.cons_lt_cons_iff, digitChar_lt_iff hm hn]
      simp
    · have hm' : m / 10 < 10 ^ w := Nat.div_lt_of_lt_mul (by rwa [← Nat.pow_succ'])
      have hn' : n / 10 < 10 ^ w := Nat.div_lt_of_lt_mul (by rwa [← Nat.pow_succ'])
      have hsame : padded w (m / 10) = padded w (n / 10) ↔ m / 10 = n / 10 := by
        refine ⟨fun h => ?_, congrArg _⟩
        have hlt := (ih hpos hm' hn').not.mp (h ▸ List.lt_irrefl _)
        have hgt := (ih hpos hn' hm').not.mp (h ▸ List.lt_irrefl _)
        omega
      rw [padded_succ hpos, padded_succ hpos,
        append_lt_append_iff ((length_padded hpos hm').trans (length_padded hpos hn').symm), ih hpos hm' hn', hsame,
        List.cons_lt_cons_iff, digitChar_lt_iff (Nat.mod_lt m (by decide)) (Nat.mod_lt n (by decide))]
      simp only [List.not_lt_nil, and_false, or_false]
      omega

end Decimal
