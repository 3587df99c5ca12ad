import Mathlib.Data.Fintype.Card

/-! How many of finitely many parties are in a state of some kind, when one party at a time moves. -/

namespace Count

variable {ι β : Type*} [Fintype ι] {P : β → Prop} [DecidablePred P] {g : ι → β} {i j : ι} {b : β}

/-- How many `i` have `P (g i)`. -/
def count (P : β → Prop) [DecidablePred P] (g : ι → β) : ℕ := (Finset.univ.filter fun i => P (g i)).card

/-- None satisfies it exactly if the count is zero. -/
theorem count_eq_zero : count P g = 0 ↔ ∀ i, ¬ P (g i) := by
  rw [count, Finset.card_eq_zero, Finset.filter_eq_empty_iff]
  exact ⟨fun h i => h (Finset.mem_univ i), fun h i _ => h i⟩

theorem count_pos : 0 < count P g ↔ ∃ i, P (g i) := by
  rw [Nat.pos_iff_ne_zero, Ne, count_eq_zero]
  push Not
  exact Iff.rfl

/-- Two different ones make two. -/
theorem one_lt_count (hne : i ≠ j) (hi : P (g i)) (hj : P (g j)) : 1 < count P g :=
  Finset.one_lt_card.mpr ⟨i, by simp [hi], j, by simp [hj], hne⟩

variable [DecidableEq ι]

/-- One that did not and now does counts one more. -/
theorem count_update_enter (hi : ¬ P (g i)) (hb : P b) :
    count P (Function.update g i b) = count P g + 1 := by
  have hmem : i ∉ Finset.univ.filter fun j => P (g j) := by simp [hi]
  rw [count, count, ← Finset.card_insert_of_notMem hmem]
  congr 1
  ext j
  rcases eq_or_ne j i with rfl | hne <;> simp [*]

/-- One that changes without crossing over leaves the count. -/
theorem count_update_same (h : P (g i) ↔ P b) : count P (Function.update g i b) = count P g := by
  rw [count, count]
  congr 1
  ext j
  rcases eq_or_ne j i with rfl | hne <;> simp [*]

/-- One that did and does no longer counts one less. -/
theorem count_update_leave (hi : P (g i)) (hb : ¬ P b) :
    count P (Function.update g i b) + 1 = count P g := by
  have hback := count_update_enter (g := Function.update g i b) (i := i) (by simpa using hb) hi
  rw [Function.update_idem, Function.update_eq_self] at hback
  exact hback.symm

end Count
