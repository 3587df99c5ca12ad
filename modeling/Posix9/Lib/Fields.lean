import Mathlib.Data.List.Basic

/-! Fields of a separated text: what `List.splitOn` reads when the text grows by one character, by a
    separator, or has its separator renamed. Nothing here knows what the fields mean. -/

namespace Fields

variable {α : Type*} [DecidableEq α] {a b : α}

/-- A text always has a first field. -/
theorem exists_fields (a : α) (xs : List α) : ∃ h t, xs.splitOn a = h :: t :=
  List.exists_cons_of_ne_nil (List.splitOn_ne_nil a xs)

@[simp] theorem splitOn_cons_self (a : α) (xs : List α) :
    (a :: xs).splitOn a = [] :: xs.splitOn a := by
  simp [List.splitOn_cons_eq_if_modifyHead]

/-- A character other than the separator joins the first field. -/
theorem splitOn_cons_of_ne {x : α} {xs : List α} {h : List α} {t : List (List α)} (hx : x ≠ a)
    (hxs : xs.splitOn a = h :: t) : (x :: xs).splitOn a = (x :: h) :: t := by
  simp [List.splitOn_cons_eq_if_modifyHead, hx, hxs]

/-- Leading separators are empty fields. -/
theorem splitOn_replicate_append (k : ℕ) (xs : List α) :
    (List.replicate k a ++ xs).splitOn a = List.replicate k [] ++ xs.splitOn a := by
  induction k with
  | zero => simp
  | succ k ih => simp [List.replicate_succ, ih]

/-- A final separator adds one empty field. -/
theorem splitOn_concat_self (xs : List α) : (xs ++ [a]).splitOn a = xs.splitOn a ++ [[]] := by
  simpa using List.splitOn_append_cons_self xs []

/-- No field contains the separator. -/
theorem not_mem_field {xs f : List α} (hf : f ∈ xs.splitOn a) : a ∉ f := by
  induction xs generalizing f with
  | nil => simp_all
  | cons x xs ih =>
    obtain ⟨h, t, ht⟩ := exists_fields a xs
    rcases eq_or_ne x a with rfl | hx
    · rcases List.mem_cons.mp (by simpa using hf) with rfl | hf
      · simp
      · exact ih hf
    · rw [splitOn_cons_of_ne hx ht] at hf
      rcases List.mem_cons.mp hf with rfl | hf
      · have := ih (f := h) (by simp [ht])
        simp [this, Ne.symm hx]
      · exact ih (by simp [ht, hf])

/-- A character that is no separator and in no field is not in the text. -/
theorem not_mem_of_fields {xs : List α} {x : α} (hx : x ≠ a)
    (h : ∀ f ∈ xs.splitOn a, x ∉ f) : x ∉ xs := by
  induction xs with
  | nil => simp
  | cons y ys ih =>
    obtain ⟨f, fs, hf⟩ := exists_fields a ys
    rcases eq_or_ne y a with rfl | hy
    · have := ih fun g hg => h g (by simp [hg])
      simp [hx, this]
    · rw [splitOn_cons_of_ne hy hf] at h
      have hhead := h (y :: f) (by simp)
      have := ih fun g hg => by
        rw [hf] at hg
        rcases List.mem_cons.mp hg with rfl | hg
        · exact fun hm => hhead (List.mem_cons_of_mem _ hm)
        · exact h g (by simp [hg])
      exact fun hm => (List.mem_cons.mp hm).elim (fun e => hhead (by simp [e])) this

/-- Renaming the separator in a text without the new one keeps the fields. -/
theorem splitOn_rename {xs : List α} (hb : b ∉ xs) :
    (xs.map fun x => if x = a then b else x).splitOn b = xs.splitOn a := by
  induction xs with
  | nil => simp
  | cons x xs ih =>
    obtain ⟨hxb, hb⟩ := not_or.mp (mt List.mem_cons.mpr hb)
    obtain ⟨h, t, ht⟩ := exists_fields a xs
    rcases eq_or_ne x a with rfl | hx
    · simpa using ih hb
    · have hmap := (ih hb).trans ht
      rw [splitOn_cons_of_ne hx ht, List.map_cons, if_neg hx]
      exact splitOn_cons_of_ne (Ne.symm hxb) hmap

/-- A text is its first field, alone or in front of a separator and the text of the other fields. -/
theorem eq_of_splitOn {xs f : List α} {fs : List (List α)} (h : xs.splitOn a = f :: fs) :
    (xs = f ∧ fs = []) ∨ ∃ rest, xs = f ++ a :: rest ∧ rest.splitOn a = fs := by
  induction xs generalizing f with
  | nil => simp_all
  | cons x xs ih =>
    obtain ⟨g, gs, hg⟩ := exists_fields a xs
    rcases eq_or_ne x a with rfl | hx
    · obtain ⟨rfl, rfl⟩ : [] = f ∧ xs.splitOn x = fs := by simpa using h
      exact .inr ⟨xs, rfl, rfl⟩
    · obtain ⟨rfl, rfl⟩ : x :: g = f ∧ gs = fs := by simpa [splitOn_cons_of_ne hx hg] using h
      rcases ih hg with ⟨rfl, rfl⟩ | ⟨rest, rfl, hrest⟩
      · exact .inl ⟨rfl, rfl⟩
      · exact .inr ⟨rest, rfl, hrest⟩

/-- A text that ends in a character other than the separator has a non-empty last field. -/
theorem splitOn_concat_of_ne (xs : List α) {c : α} (hc : c ≠ a) :
    ∃ init last, (xs ++ [c]).splitOn a = init ++ [last] ∧ last ≠ [] := by
  induction xs with
  | nil => exact ⟨[], [c], splitOn_cons_of_ne hc (List.splitOn_nil a), by simp⟩
  | cons x xs ih =>
    obtain ⟨init, last, heq, hlast⟩ := ih
    rcases eq_or_ne x a with rfl | hx
    · exact ⟨[] :: init, last, by simp [heq], hlast⟩
    · cases init with
      | nil => exact ⟨[], x :: last, splitOn_cons_of_ne hx heq, by simp⟩
      | cons f init => exact ⟨(x :: f) :: init, last, splitOn_cons_of_ne hx heq, hlast⟩

end Fields
