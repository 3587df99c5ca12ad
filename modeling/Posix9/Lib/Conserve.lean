import Posix9.Lib.Runs

/-! A buffer over the runs of a machine: what goes into it and what comes out of it since it was last cleared, kept
    in books beside the run. Where each step conserves what it moves, the books balance in every run. -/

namespace Conserve

open Runs

variable {σ α β : Type*}

/-- What one buffer holds in a state, and what a step moves. -/
structure Flow (σ α β : Type*) where
  holds : σ → List β
  enters : σ → α → List β
  leaves : σ → α → List β
  /-- The step may lose some of what the buffer holds. -/
  loses : σ → α → Bool
  /-- The buffer behind the step is a new one. -/
  clears : σ → α → Bool

/-- What has entered and what has left since the buffer was cleared. -/
structure Books (β : Type*) where
  entered : List β
  left : List β
  lost : Bool

def Books.empty : Books β := ⟨[], [], false⟩

def Flow.enter (F : Flow σ α β) (s : σ) (a : α) (b : Books β) : Books β :=
  if F.clears s a then .empty
  else ⟨b.entered ++ F.enters s a, b.left ++ F.leaves s a, b.lost || F.loses s a⟩

/-- A step, with its books. -/
def Flow.audited (F : Flow σ α β) (step : σ → α → σ) (x : σ × Books β) (a : α) : σ × Books β :=
  (step x.1 a, F.enter x.1 a x.2)

/-- Where the invariant holds, a step conserves what it moves: what leaves comes first of what was held and what has
    entered, and nothing else is missing but what is lost. -/
structure Flow.Conserves (F : Flow σ α β) (step : σ → α → σ) (I : σ → Prop) : Prop where
  keeps : ∀ s a, I s → F.clears s a = false → F.loses s a = false →
    F.holds s ++ F.enters s a = F.leaves s a ++ F.holds (step s a)
  loses : ∀ s a, I s → F.clears s a = false → F.loses s a = true →
    (F.leaves s a ++ F.holds (step s a)).Sublist (F.holds s ++ F.enters s a)
  clears : ∀ s a, I s → F.clears s a = true → F.holds (step s a) = []

/-- What has left and what is held are of what has entered and in its order; all of it, where nothing was lost. -/
structure Flow.Balanced (F : Flow σ α β) (x : σ × Books β) : Prop where
  sublist : (x.2.left ++ F.holds x.1).Sublist x.2.entered
  whole : x.2.lost = false → x.2.entered = x.2.left ++ F.holds x.1

variable {F : Flow σ α β} {step : σ → α → σ} {I : σ → Prop}

theorem Flow.Balanced.audited (hF : F.Conserves step I) {x : σ × Books β} (hI : I x.1) (hx : F.Balanced x) (a : α) :
    F.Balanced (F.audited step x a) := by
  obtain ⟨s, b⟩ := x
  rw [Flow.audited, Flow.enter]
  by_cases hclears : F.clears s a = true
  case pos =>
    have hempty := hF.clears s a hI hclears
    rw [if_pos hclears]
    refine ⟨?_, fun _ => ?_⟩ <;> simp [Books.empty, hempty]
  case neg =>
    have hclears := Bool.eq_false_iff.mpr hclears
    rw [hclears, if_neg Bool.false_ne_true]
    rcases hlost : F.loses s a with _ | _
    · have hkeeps := hF.keeps s a hI hclears hlost
      refine ⟨?_, fun h => ?_⟩
      · have hentered := hx.sublist.append_right (F.enters s a)
        rwa [List.append_assoc, hkeeps, ← List.append_assoc] at hentered
      · have hwhole := hx.whole (Bool.or_eq_false_iff.mp h).1
        dsimp only at hwhole ⊢
        rw [hwhole, List.append_assoc, hkeeps, ← List.append_assoc]
    · have hloses := (hF.loses s a hI hclears hlost).append_left b.left
      refine ⟨?_, fun h => ?_⟩
      · rw [← List.append_assoc, ← List.append_assoc] at hloses
        exact hloses.trans (hx.sublist.append_right (F.enters s a))
      · cases (Bool.or_eq_false_iff.mp h).2

/-- The books balance in every state of every run. -/
theorem Flow.Conserves.balanced (hF : F.Conserves step I) (hstep : ∀ s a, I s → I (step s a)) {s : σ} (hs : I s)
    (hempty : F.holds s = []) (as : List α) : F.Balanced (run (F.audited step) (s, .empty) as) := by
  have hinv : ∀ x a, I x.1 ∧ F.Balanced x → I (F.audited step x a).1 ∧ F.Balanced (F.audited step x a) :=
    fun x a hx => ⟨hstep x.1 a hx.1, hx.2.audited hF hx.1 a⟩
  have hstart : F.Balanced (s, .empty) := by
    refine ⟨?_, fun _ => ?_⟩ <;> simp [Books.empty, hempty]
  exact (always_of_step hinv ⟨hs, hstart⟩ as).last.2

/-- The run is that of the machine alone. -/
theorem Flow.run_audited (F : Flow σ α β) (step : σ → α → σ) (x : σ × Books β) (as : List α) :
    (run (F.audited step) x as).1 = run step x.1 as := by
  induction as generalizing x with
  | nil => rfl
  | cons a as ih => exact ih _

end Conserve
