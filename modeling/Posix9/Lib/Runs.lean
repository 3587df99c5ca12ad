import Mathlib.Data.List.Basic

/-! Runs of a deterministic machine: a step takes a state and an input to the next state, and a run
    is a list of inputs. A safety law that only some steps keep is proved of the runs that meet a
    condition at every step. -/

namespace Runs

variable {σ α : Type*} (step : σ → α → σ)

/-- The state a run ends in. -/
def run (s : σ) (as : List α) : σ := as.foldl step s

/-- `P` holds in every state of the run, the first included. -/
def Always (P : σ → Prop) : σ → List α → Prop
  | s, [] => P s
  | s, a :: as => P s ∧ Always P (step s a) as

/-- Every step of the run meets `C`, a condition on the state before it and its input. -/
def Meets (C : σ → α → Prop) : σ → List α → Prop
  | _, [] => True
  | s, a :: as => C s a ∧ Meets C (step s a) as

instance decidableMeets (C : σ → α → Prop) [∀ s a, Decidable (C s a)] :
    ∀ s as, Decidable (Meets step C s as)
  | _, [] => .isTrue trivial
  | s, a :: as =>
    have := decidableMeets C (step s a) as
    inferInstanceAs (Decidable (C s a ∧ Meets step C (step s a) as))

/-- The run ends in the first of its states where `P` holds. -/
def First (P : σ → Prop) : σ → List α → Prop
  | s, [] => P s
  | s, a :: as => ¬ P s ∧ First P (step s a) as

instance decidableFirst (P : σ → Prop) [DecidablePred P] : ∀ s as, Decidable (First step P s as)
  | s, [] => inferInstanceAs (Decidable (P s))
  | s, a :: as =>
    have := decidableFirst P (step s a) as
    inferInstanceAs (Decidable (¬ P s ∧ First step P (step s a) as))

@[simp] theorem run_nil (s : σ) : run step s [] = s := rfl

@[simp] theorem run_cons (s : σ) (a : α) (as : List α) :
    run step s (a :: as) = run step (step s a) as := rfl

theorem run_concat (s : σ) (as : List α) (a : α) : run step s (as ++ [a]) = step (run step s as) a := by
  rw [run, List.foldl_append]
  rfl

variable {step}

theorem Always.mono {P Q : σ → Prop} (h : ∀ s, P s → Q s) {s : σ} {as : List α}
    (hP : Always step P s as) : Always step Q s as := by
  induction as generalizing s with
  | nil => exact h s hP
  | cons a as ih => exact ⟨h s hP.1, ih hP.2⟩

theorem Meets.and {C D : σ → α → Prop} {s : σ} {as : List α} (hC : Meets step C s as)
    (hD : Meets step D s as) : Meets step (fun s a => C s a ∧ D s a) s as := by
  induction as generalizing s with
  | nil => trivial
  | cons a as ih => exact ⟨⟨hC.1, hD.1⟩, ih hC.2 hD.2⟩

theorem meets_of_forall_mem {C : σ → α → Prop} {as : List α} (h : ∀ a ∈ as, ∀ s, C s a) (s : σ) :
    Meets step C s as := by
  induction as generalizing s with
  | nil => trivial
  | cons a as ih =>
    exact ⟨h a List.mem_cons_self s, ih (fun b hb => h b (List.mem_cons_of_mem a hb)) (step s a)⟩

theorem Always.last {P : σ → Prop} {s : σ} {as : List α} (h : Always step P s as) :
    P (run step s as) := by
  induction as generalizing s with
  | nil => exact h
  | cons a as ih => exact ih h.2

/-- What holds in every state of a run holds after every initial part of it. -/
theorem always_iff_prefix {P : σ → Prop} {s : σ} {as : List α} :
    Always step P s as ↔ ∀ pre, pre <+: as → P (run step s pre) := by
  induction as generalizing s with
  | nil =>
    constructor
    · intro h pre hpre
      obtain rfl := List.prefix_nil.mp hpre
      exact h
    · intro h
      exact h [] List.prefix_rfl
  | cons a as ih =>
    constructor
    · rintro ⟨hs, hrest⟩ pre hpre
      rcases pre with _ | ⟨b, pre⟩
      · exact hs
      · obtain ⟨rfl, htail⟩ := List.cons_prefix_cons.mp hpre
        exact ih.mp hrest pre htail
    · intro h
      refine ⟨h [] List.nil_prefix, ih.mpr fun pre hpre => ?_⟩
      exact h (a :: pre) (List.cons_prefix_cons.mpr ⟨rfl, hpre⟩)

section Invariant

variable {I P : σ → Prop} {C : σ → α → Prop}

/-- An invariant of the steps that meet the condition holds throughout the runs that do. -/
theorem always_of_meets (hstep : ∀ s a, I s → C s a → I (step s a)) {s : σ} {as : List α}
    (hs : I s) (hC : Meets step C s as) : Always step I s as := by
  induction as generalizing s with
  | nil => exact hs
  | cons a as ih => exact ⟨hs, ih (hstep s a hs hC.1) hC.2⟩

theorem always_of_step (hstep : ∀ s a, I s → I (step s a)) {s : σ} (hs : I s) (as : List α) :
    Always step I s as := by
  induction as generalizing s with
  | nil => exact hs
  | cons a as ih => exact ⟨hs, ih (hstep s a hs)⟩

/-- What an invariant gives of each step holds of every step of a run. -/
theorem meets_of_step (hstep : ∀ s a, I s → I (step s a)) (hC : ∀ s a, I s → C s a) {s : σ} (hs : I s)
    (as : List α) : Meets step C s as := by
  induction as generalizing s with
  | nil => trivial
  | cons a as ih => exact ⟨hC s a hs, ih (hstep s a hs)⟩

/-- Where every other step breaks the law at once, the law holds throughout just those runs. -/
theorem always_iff_meets (hstep : ∀ s a, I s → C s a → I (step s a)) (hP : ∀ s, I s → P s)
    (hnec : ∀ s a, I s → P (step s a) → C s a) {s : σ} {as : List α} (hs : I s) :
    Always step P s as ↔ Meets step C s as := by
  constructor
  · intro h
    induction as generalizing s with
    | nil => trivial
    | cons a as ih =>
      have hnext : P (step s a) := by
        cases as with
        | nil => exact h.2
        | cons b bs => exact h.2.1
      have hC := hnec s a hs hnext
      exact ⟨hC, ih (hstep s a hs hC) h.2⟩
  · intro h
    exact (always_of_meets hstep hs h).mono hP

/-- Where an invariant of a run makes two conditions on its inputs one. -/
theorem meets_congr {C' D : σ → α → Prop} (hstep : ∀ s a, I s → D s a → I (step s a))
    (hiff : ∀ s a, I s → (C s a ↔ C' s a)) {s : σ} {as : List α} (hs : I s) (hD : Meets step D s as) :
    Meets step C s as ↔ Meets step C' s as := by
  induction as generalizing s with
  | nil => exact Iff.rfl
  | cons a as ih => exact and_congr (hiff s a hs) (ih (hstep s a hs hD.1) hD.2)

/-- Where the steps that meet the condition keep what makes a law on steps one with it, the law holds of just
    the runs that meet it. -/
theorem meets_iff {D : σ → α → Prop} (hstep : ∀ s a, I s → C s a → I (step s a))
    (hiff : ∀ s a, I s → (D s a ↔ C s a)) {s : σ} {as : List α} (hs : I s) :
    Meets step D s as ↔ Meets step C s as := by
  induction as generalizing s with
  | nil => exact Iff.rfl
  | cons a as ih =>
    constructor
    · rintro ⟨hD, hrest⟩
      have hC := (hiff s a hs).mp hD
      exact ⟨hC, (ih (hstep s a hs hC)).mp hrest⟩
    · rintro ⟨hC, hrest⟩
      exact ⟨(hiff s a hs).mpr hC, (ih (hstep s a hs hC)).mpr hrest⟩

/-- What is kept until `P` first holds, and what the step that gets there gives. -/
theorem First.holds {Q : σ → Prop} (hI : ∀ s, I s → ¬ P s)
    (hstep : ∀ s a, I s → I (step s a) ∨ P (step s a) ∧ Q (step s a)) {s : σ} {as : List α} (hs : I s)
    (h : First step P s as) : Q (run step s as) := by
  induction as generalizing s with
  | nil => exact absurd h (hI s hs)
  | cons a as ih =>
    rcases hstep s a hs with hnext | ⟨hP, hQ⟩
    · exact ih hnext h.2
    · cases as with
      | nil => exact hQ
      | cons b bs => exact absurd hP h.2.1

end Invariant

end Runs
