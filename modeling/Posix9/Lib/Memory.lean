import Mathlib.Data.List.TakeWhile

/-! Words in a memory of numbered cells: what a write puts there, what it leaves alone, and the string that
    ends at the first cell with a given mark. -/

namespace Memory

variable {α : Type*} {mem : ℕ → α} {p q k n : ℕ} {w v : List α} {x : α}

/-- The memory after `w` has been written from `p` on. -/
def write (mem : ℕ → α) (p : ℕ) (w : List α) (k : ℕ) : α :=
  if h : p ≤ k ∧ k - p < w.length then w[k - p] else mem k

/-- `w` stands from `p` on. -/
def HoldsAt (mem : ℕ → α) (p : ℕ) (w : List α) : Prop := ∀ k (h : k < w.length), mem (p + k) = w[k]

theorem write_of_lt (mem : ℕ → α) (w : List α) (h : k < p) : write mem p w k = mem k :=
  dif_neg fun hin => absurd hin.1 (Nat.not_le.mpr h)

theorem write_of_le (mem : ℕ → α) (h : p + w.length ≤ k) : write mem p w k = mem k :=
  dif_neg fun hin => by omega

theorem write_nil (mem : ℕ → α) (p : ℕ) : write mem p [] = mem := by
  funext k
  exact dif_neg fun hin => Nat.not_lt_zero _ hin.2

theorem holdsAt_write (mem : ℕ → α) (p : ℕ) (w : List α) : HoldsAt (write mem p w) p w := by
  intro k hk
  rw [write, dif_pos ⟨Nat.le_add_right p k, by omega⟩]
  simp

/-- Two memories that agree on the cells of a word. -/
theorem HoldsAt.congr (h : HoldsAt mem p w) {mem' : ℕ → α}
    (hsame : ∀ k, p ≤ k → k < p + w.length → mem' k = mem k) : HoldsAt mem' p w := by
  intro k hk
  rw [hsame (p + k) (Nat.le_add_right p k) (by omega)]
  exact h k hk

theorem HoldsAt.write (h : HoldsAt mem p w) (hq : p + w.length ≤ q) : HoldsAt (write mem q v) p w :=
  h.congr fun _ _ hk => write_of_lt mem v (by omega)

theorem holdsAt_append : HoldsAt mem p (w ++ v) ↔ HoldsAt mem p w ∧ HoldsAt mem (p + w.length) v := by
  constructor
  · intro h
    refine ⟨fun k hk => ?_, fun k hk => ?_⟩
    · rw [h k (by rw [List.length_append]; omega), List.getElem_append_left hk]
    · rw [Nat.add_assoc, h (w.length + k) (by rw [List.length_append]; omega)]
      simp
  · rintro ⟨hw, hv⟩ k hk
    by_cases hlt : k < w.length
    · rw [List.getElem_append_left hlt]
      exact hw k hlt
    · rw [List.getElem_append_right (Nat.not_lt.mp hlt)]
      have hrest := hv (k - w.length) (by rw [List.length_append] at hk; omega)
      rwa [Nat.add_assoc, Nat.add_sub_cancel' (Nat.not_lt.mp hlt)] at hrest

theorem holdsAt_singleton : HoldsAt mem p [x] ↔ mem p = x := by
  constructor
  · exact fun h => h 0 (Nat.succ_pos 0)
  · rintro rfl k hk
    obtain rfl : k = 0 := by simpa using hk
    rfl

theorem holdsAt_cons : HoldsAt mem p (x :: w) ↔ mem p = x ∧ HoldsAt mem (p + 1) w := by
  rw [← List.singleton_append, holdsAt_append, holdsAt_singleton]
  rfl

/-- Two words of one length in one place are the same. -/
theorem HoldsAt.unique (hw : HoldsAt mem p w) (hv : HoldsAt mem p v) (hlen : w.length = v.length) : w = v :=
  List.ext_getElem hlen fun k hk hk' => (hw k hk).symm.trans (hv k hk')

/-- Two words written one behind the other. -/
theorem write_append (mem : ℕ → α) (p : ℕ) (w v : List α) :
    write (write mem p w) (p + w.length) v = write mem p (w ++ v) := by
  funext k
  by_cases hv : p + w.length ≤ k ∧ k - (p + w.length) < v.length
  · have hin : p ≤ k ∧ k - p < (w ++ v).length := by
      rw [List.length_append]
      omega
    rw [write, dif_pos hv, write, dif_pos hin, List.getElem_append_right (by omega)]
    congr 1
    omega
  · rw [write, dif_neg hv]
    by_cases hw : p ≤ k ∧ k - p < w.length
    · have hin : p ≤ k ∧ k - p < (w ++ v).length := by
        rw [List.length_append]
        omega
      rw [write, dif_pos hw, write, dif_pos hin, List.getElem_append_left hw.2]
    · have hin : ¬ (p ≤ k ∧ k - p < (w ++ v).length) := by
        rw [List.length_append]
        omega
      rw [write, dif_neg hw, write, dif_neg hin]

theorem length_flatMap_range (f : ℕ → List α) {size : ℕ} (hsize : ∀ i, (f i).length = size) (n : ℕ) :
    ((List.range n).flatMap f).length = n * size := by
  induction n with
  | zero => simp
  | succ n ih =>
    rw [List.range_succ, List.flatMap_append, List.length_append, ih, List.flatMap_singleton, hsize, Nat.succ_mul]

/-- Words of one length, each written behind the one before. -/
theorem foldl_write (f : ℕ → List α) {size : ℕ} (hsize : ∀ i, (f i).length = size) (mem : ℕ → α) (n : ℕ) :
    (List.range n).foldl (fun mem i => write mem (i * size) (f i)) mem =
      write mem 0 ((List.range n).flatMap f) := by
  induction n with
  | zero => exact (write_nil mem 0).symm
  | succ n ih =>
    rw [List.range_succ, List.foldl_append, ih, List.flatMap_append, ← write_append,
      length_flatMap_range f hsize]
    simp

section Strings

variable [DecidableEq α] {mark : α}

/-- The string from `p` on, of the `n` cells there: it ends before the first mark. -/
def stringAt (mark : α) (mem : ℕ → α) (p n : ℕ) : List α :=
  ((List.range n).map fun k => mem (p + k)).takeWhile (· ≠ mark)

theorem stringAt_succ (p n : ℕ) : stringAt mark mem p (n + 1) =
    if mem p = mark then [] else mem p :: stringAt mark mem (p + 1) n := by
  rw [stringAt, List.range_succ_eq_map, List.map_cons, List.map_map, List.takeWhile_cons, Nat.add_zero]
  have hshift : (fun k => mem (p + k)) ∘ Nat.succ = fun k => mem (p + 1 + k) := by
    funext k
    simp only [Function.comp_apply, Nat.succ_eq_add_one]
    congr 1
    omega
  rw [hshift]
  by_cases hmark : mem p = mark
  · rw [if_pos hmark, if_neg (by simpa using hmark)]
  · rw [if_neg hmark, if_pos (by simpa using hmark)]
    rfl

theorem stringAt_of_holdsAt (h : HoldsAt mem p (w ++ [mark])) (hmark : mark ∉ w) (hn : w.length < n) :
    stringAt mark mem p n = w := by
  induction w generalizing p n with
  | nil =>
    obtain ⟨n, rfl⟩ := Nat.exists_eq_succ_of_ne_zero (Nat.ne_of_gt hn)
    rw [stringAt_succ, if_pos (holdsAt_cons.mp h).1]
  | cons x w ih =>
    obtain ⟨n, rfl⟩ := Nat.exists_eq_succ_of_ne_zero (Nat.ne_of_gt (Nat.zero_lt_of_lt hn))
    obtain ⟨hx, hrest⟩ := holdsAt_cons.mp h
    have hne : x ≠ mark := by
      rintro rfl
      exact hmark List.mem_cons_self
    rw [stringAt_succ, hx, if_neg hne, ih hrest (fun hmem => hmark (List.mem_cons_of_mem _ hmem))
      (Nat.lt_of_succ_lt_succ hn)]

end Strings

end Memory
