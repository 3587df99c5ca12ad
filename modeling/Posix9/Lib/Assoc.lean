import Mathlib.Data.List.Nodup

/-! Association lists: a list of keys with their values, read as a map. The first entry of a key counts. Setting
    the value where the key stands, or behind a list without the key, updates the map; erasing the entry takes
    the key out, where no key stands twice. -/

namespace Assoc

variable {κ β : Type*} [DecidableEq κ] {k : κ} {v : β} {xs : List (κ × β)}

/-- Where the entry of a key is, or the length of the list. -/
def indexOf (k : κ) (xs : List (κ × β)) : ℕ := xs.findIdx fun x => x.1 = k

/-- The value of the first entry with the key. -/
def lookup (k : κ) (xs : List (κ × β)) : Option β :=
  (xs.find? fun x => x.1 = k).map Prod.snd

theorem lookup_cons (x : κ × β) (xs : List (κ × β)) :
    lookup k (x :: xs) = if x.1 = k then some x.2 else lookup k xs := by
  rw [lookup, List.find?_cons]
  by_cases h : x.1 = k
  · simp [h]
  · simp [h, lookup]

theorem indexOf_cons (x : κ × β) (xs : List (κ × β)) :
    indexOf k (x :: xs) = if x.1 = k then 0 else indexOf k xs + 1 := by
  rw [indexOf, List.findIdx_cons]
  by_cases h : x.1 = k <;> simp [h, indexOf]

/-- A key is found if there is an entry with it. -/
theorem lookup_eq_none : lookup k xs = none ↔ k ∉ xs.map Prod.fst := by
  simp only [lookup, Option.map_eq_none_iff, List.find?_eq_none, List.mem_map, decide_eq_true_eq]
  exact ⟨fun h ⟨x, hx, hfst⟩ => h x hx hfst, fun h x hx hfst => h ⟨x, hx, hfst⟩⟩

/-- Then its index is one of the list. -/
theorem indexOf_lt : indexOf k xs < xs.length ↔ lookup k xs ≠ none := by
  rw [indexOf, List.findIdx_lt_length, Ne, lookup_eq_none, not_not, List.mem_map]
  simp

/-- The entry at the index. -/
theorem lookup_getElem (h : indexOf k xs < xs.length) :
    xs[indexOf k xs].1 = k ∧ lookup k xs = some xs[indexOf k xs].2 := by
  induction xs with
  | nil => cases h
  | cons x xs ih =>
    rw [lookup_cons]
    simp only [indexOf_cons] at h ⊢
    split
    case isTrue heq => exact ⟨heq, rfl⟩
    case isFalse hne =>
      rw [if_neg hne] at h
      exact ih (Nat.lt_of_succ_lt_succ h)

/-- The entry of a key overwritten: the key has the new value, the others what they had. -/
theorem lookup_set (h : indexOf k xs < xs.length) (k' : κ) :
    lookup k' (xs.set (indexOf k xs) (k, v)) =
      if k' = k then some v else lookup k' xs := by
  induction xs with
  | nil => cases h
  | cons x xs ih =>
    rw [indexOf_cons] at h ⊢
    split
    case isTrue heq =>
      rw [List.set_cons_zero, lookup_cons, lookup_cons]
      grind
    case isFalse hne =>
      rw [if_neg hne] at h
      rw [List.set_cons_succ, lookup_cons, lookup_cons, ih (Nat.lt_of_succ_lt_succ h)]
      grind

/-- A key that was not there, appended. -/
theorem lookup_append (h : lookup k xs = none) (k' : κ) :
    lookup k' (xs ++ [(k, v)]) = if k' = k then some v else lookup k' xs := by
  induction xs with
  | nil =>
    rw [List.nil_append, lookup_cons]
    grind
  | cons x xs ih =>
    rw [lookup_cons] at h
    have hne : x.1 ≠ k := by
      intro heq
      rw [if_pos heq] at h
      cases h
    rw [if_neg hne] at h
    rw [List.cons_append, lookup_cons, lookup_cons, ih h]
    grind

/-- The entry of a key taken out. No second one comes to light where keys occur once. -/
theorem lookup_eraseIdx (hkeys : (xs.map Prod.fst).Nodup) (k' : κ) :
    lookup k' (xs.eraseIdx (indexOf k xs)) = if k' = k then none else lookup k' xs := by
  induction xs with
  | nil => simp [lookup]
  | cons x xs ih =>
    obtain ⟨hnew, hkeys⟩ := List.nodup_cons.mp hkeys
    rw [indexOf_cons]
    split
    case isTrue heq =>
      rw [List.eraseIdx_cons_zero, lookup_cons]
      have hgone : lookup x.1 xs = none := lookup_eq_none.mpr hnew
      grind
    case isFalse hne =>
      rw [List.eraseIdx_cons_succ, lookup_cons, lookup_cons, ih hkeys]
      grind

end Assoc
