import Mathlib.Data.Int.Notation
import Mathlib.Data.List.Basic
import Mathlib.Data.Option.Basic

/-! Walks through a tree of directories: a walk goes up to the enclosing directory or down into a
    named child. A catalog answers each move, so two pathnames that start in the same place and make
    the same moves reach the same place in every catalog. The fields of a pathname whose separator
    doubles as "up" are read off by `ofFields`. -/

namespace Walk

variable {ν : Type*}

/-- One move of a walk. -/
inductive Step (ν : Type*) where | up | down (name : ν)
  deriving DecidableEq

/-- What is known of a tree of directories: the parent of each directory and its named children. -/
@[ext]
structure Catalog (ν δ : Type*) where
  parent : δ → Option δ
  child : δ → ν → Option δ

/-- The directory one move leads to. -/
def Catalog.move {δ : Type*} (cat : Catalog ν δ) (d : δ) : Step ν → Option δ
  | .up => cat.parent d
  | .down n => cat.child d n

/-- The directory a walk leads to, if every move of it succeeds. -/
def Catalog.follow {δ : Type*} (cat : Catalog ν δ) (d : δ) (w : List (Step ν)) : Option δ :=
  w.foldlM cat.move d

/-- The catalog in which every walk leads to a place of its own. -/
def Catalog.free (ν σ : Type*) : Catalog ν (σ × List (Step ν)) where
  parent d := some (d.1, d.2 ++ [.up])
  child d n := some (d.1, d.2 ++ [.down n])

theorem Catalog.follow_free {σ : Type*} (s : σ) (v w : List (Step ν)) :
    (Catalog.free ν σ).follow (s, v) w = some (s, v ++ w) := by
  induction w generalizing v with
  | nil => simp [Catalog.follow]
  | cons m w ih =>
    have hmove : (Catalog.free ν σ).move (s, v) m = some (s, v ++ [m]) := by
      cases m <;> rfl
    have hw := ih (v ++ [m])
    rw [List.append_assoc, List.singleton_append] at hw
    rw [← hw, Catalog.follow, List.foldlM_cons, hmove]
    rfl

/-- How far down a walk leads. -/
def height : List (Step ν) → ℤ
  | [] => 0
  | .up :: w => height w - 1
  | .down _ :: w => height w + 1

/-- The catalog in which every walk leads somewhere, and only how far down it leads matters. -/
def Catalog.depths (ν σ : Type*) : Catalog ν (σ × ℤ) where
  parent d := some (d.1, d.2 - 1)
  child d _ := some (d.1, d.2 + 1)

theorem Catalog.follow_depths {σ : Type*} (v : σ) (n : ℤ) (w : List (Step ν)) :
    (Catalog.depths ν σ).follow (v, n) w = some (v, n + height w) := by
  induction w generalizing n with
  | nil =>
    rw [height, Int.add_zero]
    rfl
  | cons m w ih =>
    cases m with
    | up =>
      have hmove : n + height (.up :: w) = n - 1 + height w := by
        rw [height]
        omega
      rw [hmove, ← ih (n - 1)]
      rfl
    | down name =>
      have hmove : n + height (.down name :: w) = n + 1 + height w := by
        rw [height]
        omega
      rw [hmove, ← ih (n + 1)]
      rfl

theorem height_append (v w : List (Step ν)) : height (v ++ w) = height v + height w := by
  induction v with
  | nil => simp [height]
  | cons m v ih =>
    cases m <;> rw [List.cons_append, height, height, ih] <;> omega

/-! ### Renaming a child -/

section

variable {δ : Type*} {cat cat' : Catalog ν δ} {d o x y : δ} {old new : ν} {w : List (Step ν)}

theorem Catalog.follow_cons (cat : Catalog ν δ) (x : δ) (m : Step ν) (w : List (Step ν)) :
    cat.follow x (m :: w) = (cat.move x m).bind (cat.follow · w) := rfl

theorem Catalog.follow_concat (cat : Catalog ν δ) (x : δ) (w : List (Step ν)) (m : Step ν) :
    cat.follow x (w ++ [m]) = (cat.follow x w).bind (cat.move · m) := by
  rw [Catalog.follow, Catalog.follow, List.foldlM_append]
  simp

/-- A property of the place a walk starts in that every move keeps holds where it ends. -/
theorem Catalog.follow_keeps {P : δ → Prop} (hmove : ∀ e m e', P e → cat.move e m = some e' → P e') (hx : P x)
    (h : cat.follow x w = some y) : P y := by
  induction w generalizing x with
  | nil => exact Option.some.inj h ▸ hx
  | cons m w ih =>
    rw [Catalog.follow_cons, Option.bind_eq_some_iff] at h
    obtain ⟨e, he, hw⟩ := h
    exact ih (hmove x m e hx he) hw

/-- No move of a walk is of the kind `bad`. -/
def Catalog.Avoids (cat : Catalog ν δ) (bad : δ → Step ν → Prop) : δ → List (Step ν) → Prop
  | _, [] => True
  | x, m :: w => ¬ bad x m ∧ ∀ e, cat.move x m = some e → cat.Avoids bad e w

/-- The child `old` of `d`, which is `o`, is called `new` now, and nothing else has moved. `same` are the names that
    are taken for one. -/
structure Renamed (same : ν → ν → Prop) (cat cat' : Catalog ν δ) (d : δ) (old new : ν) (o : δ) : Prop where
  parent : cat'.parent = cat.parent
  here : ∀ n, same n new → cat'.child d n = some o
  gone : ∀ n, ¬ same n new → same n old → cat'.child d n = none
  kept : ∀ e n, e ≠ d ∨ (¬ same n new ∧ ¬ same n old) → cat'.child e n = cat.child e n

/-- The move into the child `old` of `d`. -/
def Into (same : ν → ν → Prop) (d : δ) (old : ν) (e : δ) (m : Step ν) : Prop :=
  e = d ∧ ∃ n, m = .down n ∧ same n old

variable {same : ν → ν → Prop}

theorem Renamed.move_eq (h : Renamed same cat cat' d old new o)
    (hfree : ¬ same new old → ∀ n, same n new → cat.child d n = none) (hdiff : ¬ same new old) {m : Step ν}
    (hm : cat.move x m = some y) (hinto : ¬ Into same d old x m) : cat'.move x m = some y := by
  rw [← hm]
  cases m with
  | up => rw [Catalog.move, Catalog.move, h.parent]
  | down n =>
    rw [Catalog.move, Catalog.move]
    refine h.kept x n ?_
    by_contra hno
    push Not at hno
    obtain ⟨rfl, hnew⟩ := hno
    by_cases hn : same n new
    · rw [Catalog.move, hfree hdiff n hn] at hm
      cases hm
    · exact hinto ⟨rfl, n, rfl, hnew hn⟩

/-- Under a name that is taken for the old one nothing changes. -/
theorem Renamed.eq_of_same (h : Renamed same cat cat' d old new o) (hequiv : Equivalence same)
    (hold : ∀ n, same n old → cat.child d n = some o) (hsame : same new old) : cat' = cat := by
  refine Catalog.ext h.parent (funext fun e => funext fun n => ?_)
  by_cases hn : e = d ∧ same n new
  · obtain ⟨rfl, hn⟩ := hn
    rw [h.here n hn, hold n (hequiv.trans hn hsame)]
  · refine h.kept e n ?_
    by_cases he : e = d
    · have hnew : ¬ same n new := fun hs => hn ⟨he, hs⟩
      exact .inr ⟨hnew, fun hs => hnew (hequiv.trans hs (hequiv.symm hsame))⟩
    · exact .inl he

/-- A walk that led somewhere still leads there unless it goes through the child by its old name. -/
theorem Renamed.follow_iff (h : Renamed same cat cat' d old new o) (hequiv : Equivalence same)
    (hold : ∀ n, same n old → cat.child d n = some o)
    (hfree : ¬ same new old → ∀ n, same n new → cat.child d n = none) (hw : cat.follow x w = some y) :
    cat'.follow x w = some y ↔ same new old ∨ cat.Avoids (Into same d old) x w := by
  by_cases hsame : same new old
  · rw [h.eq_of_same hequiv hold hsame]
    exact iff_of_true hw (.inl hsame)
  rw [or_iff_right hsame]
  induction w generalizing x with
  | nil => exact iff_of_true hw trivial
  | cons m w ih =>
    rw [Catalog.follow_cons, Option.bind_eq_some_iff] at hw
    obtain ⟨e, hm, hw⟩ := hw
    rw [Catalog.Avoids, Catalog.follow_cons]
    by_cases hinto : Into same d old x m
    · obtain ⟨rfl, n, rfl, hn⟩ := hinto
      have hnew : ¬ same n new := fun h => hsame (hequiv.trans (hequiv.symm h) hn)
      rw [Catalog.move, h.gone n hnew hn]
      exact iff_of_false (fun h => by cases h) fun h => h.1 ⟨rfl, n, rfl, hn⟩
    · rw [h.move_eq hfree hsame hm hinto, Option.bind_some, ih hw]
      refine ⟨fun hrest => ⟨hinto, fun e' he' => ?_⟩, fun hrest => hrest.2 e hm⟩
      rw [hm] at he'
      exact Option.some.inj he' ▸ hrest

end

/-! ### Fields whose separator doubles as "up" -/

variable {α : Type*}

/-- Every empty field but a final one goes up; any other field goes down into the name it spells. -/
def ofFields : List (List α) → List (Step (List α))
  | [] => []
  | [[]] => []
  | [] :: f :: fs => .up :: ofFields (f :: fs)
  | (c :: cs) :: fs => .down (c :: cs) :: ofFields fs

@[simp] theorem ofFields_nil : ofFields ([] : List (List α)) = [] := rfl

@[simp] theorem ofFields_final : ofFields ([[]] : List (List α)) = [] := rfl

@[simp] theorem ofFields_up (f : List α) (fs : List (List α)) :
    ofFields ([] :: f :: fs) = .up :: ofFields (f :: fs) := by simp [ofFields]

theorem ofFields_down {f : List α} (hf : f ≠ []) (fs : List (List α)) :
    ofFields (f :: fs) = .down f :: ofFields fs := by
  cases f with
  | nil => exact absurd rfl hf
  | cons c cs => simp [ofFields]

@[simp] theorem ofFields_cons_cons (c : α) (cs : List α) (fs : List (List α)) :
    ofFields ((c :: cs) :: fs) = .down (c :: cs) :: ofFields fs := ofFields_down (by simp) fs

/-- Leading empty fields are moves up. -/
theorem ofFields_replicate_append (k : ℕ) (f : List α) (fs : List (List α)) :
    ofFields (List.replicate k [] ++ f :: fs) = List.replicate k .up ++ ofFields (f :: fs) := by
  induction k with
  | zero => simp
  | succ k ih =>
    obtain ⟨g, gs, hg⟩ : ∃ g gs, List.replicate k [] ++ f :: fs = g :: gs :=
      List.exists_cons_of_ne_nil (by simp)
    rw [List.replicate_succ, List.cons_append, hg, ofFields_up, ← hg, ih]
    simp [List.replicate_succ]

/-- An empty field added behind a non-empty one changes no move. -/
theorem ofFields_concat_nil (fs : List (List α)) {last : List α} (hl : last ≠ []) :
    ofFields (fs ++ [last] ++ [[]]) = ofFields (fs ++ [last]) := by
  induction fs with
  | nil => simp [ofFields_down hl]
  | cons f fs ih =>
    obtain ⟨g, gs, hg⟩ : ∃ g gs, fs ++ [last] = g :: gs := List.exists_cons_of_ne_nil (by simp)
    cases f with
    | nil =>
      simp only [List.cons_append, hg] at ih ⊢
      rw [ofFields_up, ofFields_up, ih]
    | cons c cs =>
      simp only [List.cons_append] at ih ⊢
      rw [ofFields_cons_cons, ofFields_cons_cons, ih]

/-- A name a walk goes down into is a field. -/
theorem mem_of_down_mem {f : List α} {fs : List (List α)} (h : .down f ∈ ofFields fs) :
    f ∈ fs := by
  fun_induction ofFields fs with
  | case1 => simp at h
  | case2 => simp at h
  | case3 g gs ih => exact List.mem_cons_of_mem _ (ih (by simpa using h))
  | case4 c cs gs ih =>
    rcases List.mem_cons.mp h with h | h
    · simp [Step.down.inj h]
    · exact List.mem_cons_of_mem _ (ih h)

end Walk
