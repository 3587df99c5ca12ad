import Mathlib.Data.Fintype.Basic
import Mathlib.Logic.Function.Basic
import Posix9.Lib.Runs

/-! pthread_once. A step is what one thread does from its call, or from the YieldToAnyThread its
    init_routine is in, up to the routine's next YieldToAnyThread or to its return; which of the two comes
    first is part of the input, so the routine may yield any number of times. -/

namespace Posix9
open Runs

/-- What has happened around the control; read by nothing. -/
inductive OnceEvent (τ : Type) where
  | called (t : τ)
  | started (t : τ)
  | completed (t : τ)
  | returned (t : τ)
  deriving DecidableEq

structure OnceState (τ : Type) where
  /-- `once_control->done`. -/
  done : ℤ
  /-- How many calls of pthread_once the thread is in, each inside its init_routine. -/
  inside : τ → ℕ
  log : List (OnceEvent τ)

/-- `returns`: init_routine gets to its end before it yields. -/
inductive OnceInput (τ : Type) where
  | call (t : τ) (returns : Bool)
  | resume (t : τ) (returns : Bool)

namespace OnceState

variable {τ : Type} {s : OnceState τ} {t u : τ}

/-- `PTHREAD_ONCE_INIT`. -/
def start : OnceState τ := ⟨0, fun _ => 0, []⟩

def record (s : OnceState τ) (e : OnceEvent τ) : OnceState τ := { s with log := e :: s.log }

/-- init_routine returns: `once_control->done = 1; return 0`. -/
def finish (s : OnceState τ) (t : τ) : OnceState τ :=
  ({ s.record (.completed t) with done := 1 } : OnceState τ).record (.returned t)

def pthread_once [DecidableEq τ] (s : OnceState τ) (t : τ) (returns : Bool) : OnceState τ :=
  let s := s.record (.called t)
  if s.done = 0 then
    let s := s.record (.started t)
    if returns then s.finish t else { s with inside := Function.update s.inside t (s.inside t + 1) }
  else s.record (.returned t)

/-- init_routine goes on behind a yield. -/
def resume [DecidableEq τ] (s : OnceState τ) (t : τ) (returns : Bool) : OnceState τ :=
  if s.inside t = 0 ∨ ¬ returns then s
  else ({ s with inside := Function.update s.inside t (s.inside t - 1) } : OnceState τ).finish t

def step [DecidableEq τ] (s : OnceState τ) : OnceInput τ → OnceState τ
  | .call t returns => s.pthread_once t returns
  | .resume t returns => s.resume t returns

/-! ### The law -/

def isStart : OnceEvent τ → Bool
  | .started _ => true
  | _ => false

def isCall : OnceEvent τ → Bool
  | .called _ => true
  | _ => false

/-- How often init_routine has been started. -/
def starts (s : OnceState τ) : ℕ := s.log.countP isStart

def calls (s : OnceState τ) : ℕ := s.log.countP isCall

/-- Every return comes behind a completion. -/
def Ordered (log : List (OnceEvent τ)) : Prop :=
  ∀ newer older t, log = newer ++ .returned t :: older → ∃ u, .completed u ∈ older

/-- Once it has been called for, init_routine is started exactly once, and no call returns before that
    execution has completed. -/
structure RunsOnce (s : OnceState τ) : Prop where
  once : s.starts = if s.calls = 0 then 0 else 1
  ordered : Ordered s.log

/-- A call finds no thread inside init_routine. -/
def Alone (s : OnceState τ) : OnceInput τ → Prop
  | .call _ _ => ∀ u, s.inside u = 0
  | .resume _ _ => True

instance [Fintype τ] (s : OnceState τ) : (a : OnceInput τ) → Decidable (s.Alone a)
  | .call _ _ => inferInstanceAs (Decidable (∀ u, s.inside u = 0))
  | .resume _ _ => .isTrue trivial

@[simp] theorem finish_starts (s : OnceState τ) (t : τ) : (s.finish t).starts = s.starts := by
  simp [starts, finish, record, isStart]

@[simp] theorem finish_calls (s : OnceState τ) (t : τ) : (s.finish t).calls = s.calls := by
  simp [calls, finish, record, isCall]

theorem Ordered.of_unreturned {log : List (OnceEvent τ)} (h : ∀ t, .returned t ∉ log) : Ordered log :=
  fun newer _ t hlog => absurd (hlog ▸ List.mem_append_right newer List.mem_cons_self) (h t)

theorem Ordered.cons {log : List (OnceEvent τ)} (h : Ordered log) {e : OnceEvent τ}
    (he : ∀ t, e = .returned t → ∃ u, .completed u ∈ log) : Ordered (e :: log) := by
  intro newer older t hlog
  rcases newer with _ | ⟨e', newer⟩
  · obtain ⟨rfl, rfl⟩ := List.cons.inj hlog
    exact he t rfl
  · obtain ⟨-, htail⟩ := List.cons.inj hlog
    exact h newer older t htail

variable [DecidableEq τ]

/-! ### The three stages -/

/-- Nobody has called; one thread is inside init_routine; init_routine has completed. -/
inductive Stage (s : OnceState τ) : Prop where
  | fresh (hs : s = start)
  | within (u : τ) (hdone : s.done = 0) (hinside : s.inside = Function.update (fun _ => 0) u 1)
      (hstarts : s.starts = 1) (hcalls : s.calls ≠ 0) (hlog : ∀ t, .returned t ∉ s.log)
  | finished (u : τ) (hdone : s.done ≠ 0) (hinside : ∀ t, s.inside t = 0) (hstarts : s.starts = 1)
      (hcalls : s.calls ≠ 0) (hlog : .completed u ∈ s.log) (hordered : Ordered s.log)

theorem Stage.runsOnce (h : s.Stage) : s.RunsOnce := by
  cases h with
  | fresh hs =>
    subst hs
    exact ⟨rfl, Ordered.of_unreturned fun _ => List.not_mem_nil⟩
  | within u hdone hinside hstarts hcalls hlog =>
    exact ⟨by rw [if_neg hcalls, hstarts], Ordered.of_unreturned hlog⟩
  | finished u hdone hinside hstarts hcalls hlog hordered =>
    exact ⟨by rw [if_neg hcalls, hstarts], hordered⟩

/-! ### What a step does to the stage -/

/-- init_routine completes for the first time. -/
theorem Stage.finish (hinside : ∀ u, s.inside u = 0) (hstarts : s.starts = 1) (hcalls : s.calls ≠ 0)
    (hlog : ∀ u, .returned u ∉ s.log) (t : τ) : (s.finish t).Stage := by
  refine .finished t (by decide : (1 : ℤ) ≠ 0) hinside (by simp [hstarts]) (by simpa using hcalls)
    (List.mem_cons_of_mem _ List.mem_cons_self) ?_
  have hcompleted : Ordered (.completed t :: s.log) :=
    (Ordered.of_unreturned hlog).cons fun u hu => by cases hu
  exact hcompleted.cons fun u _ => ⟨t, List.mem_cons_self⟩

/-- The call that starts init_routine. -/
theorem pthread_once_start (t : τ) (returns : Bool) : (start.pthread_once t returns).Stage := by
  cases returns with
  | true =>
    exact .finish (s := (start.record (.called t)).record (.started t)) (fun _ => rfl) rfl
      Nat.one_ne_zero (by simp [start, record]) t
  | false => exact .within t rfl rfl rfl Nat.one_ne_zero (by simp [pthread_once, start, record])

/-- A call that finds init_routine completed. -/
theorem Stage.call_over (hdone : s.done ≠ 0) (hinside : ∀ v, s.inside v = 0) (hstarts : s.starts = 1)
    (hlog : .completed u ∈ s.log) (hordered : Ordered s.log) (t : τ) (returns : Bool) :
    (s.pthread_once t returns).Stage := by
  have heq : s.pthread_once t returns = (s.record (.called t)).record (.returned t) := if_neg hdone
  have hcalled : Ordered (.called t :: s.log) := hordered.cons fun v hv => by cases hv
  rw [heq]
  refine .finished u hdone hinside ?_ ?_ (List.mem_cons_of_mem _ (List.mem_cons_of_mem _ hlog)) ?_
  · simpa [starts, record, isStart] using hstarts
  · simp [calls, record, isCall]
  · exact hcalled.cons fun v _ => ⟨u, List.mem_cons_of_mem _ hlog⟩

theorem Stage.resume (h : s.Stage) (t : τ) (returns : Bool) : (s.resume t returns).Stage := by
  rw [OnceState.resume]
  split
  · exact h
  · rename_i hrun
    rw [not_or] at hrun
    cases h with
    | fresh hs =>
      subst hs
      exact absurd rfl hrun.1
    | within u hdone hinside hstarts hcalls hlog =>
      obtain rfl : t = u := by
        by_contra hne
        exact hrun.1 (by rw [hinside, Function.update_of_ne hne])
      refine .finish (s := { s with inside := Function.update s.inside t (s.inside t - 1) }) (fun v => ?_)
        hstarts hcalls hlog t
      rcases eq_or_ne v t with rfl | hne
      · simp [hinside]
      · simp [hinside, hne]
    | finished u hdone hinside => exact absurd (hinside t) hrun.1

theorem Stage.step (h : s.Stage) {a : OnceInput τ} (halone : s.Alone a) : (s.step a).Stage := by
  cases a with
  | resume t returns => exact h.resume t returns
  | call t returns =>
    cases h with
    | fresh hs =>
      subst hs
      exact pthread_once_start t returns
    | within u hdone hinside =>
      have hu := halone u
      rw [hinside, Function.update_self] at hu
      exact absurd hu Nat.one_ne_zero
    | finished u hdone hinside hstarts hcalls hlog hordered =>
      exact .call_over hdone hinside hstarts hlog hordered t returns

/-- A call while a thread is inside init_routine starts it again. -/
theorem not_runsOnce_of_not_alone (h : s.Stage) {a : OnceInput τ} (halone : ¬ s.Alone a) :
    ¬ (s.step a).RunsOnce := by
  intro hruns
  cases a with
  | resume t returns => exact halone trivial
  | call t returns =>
    cases h with
    | fresh hs =>
      subst hs
      exact halone fun _ => rfl
    | finished u hdone hinside => exact halone hinside
    | within u hdone hinside hstarts hcalls =>
      have hagain : (s.pthread_once t returns).starts = 2 := by
        have hcount : s.log.countP isStart = 1 := hstarts
        cases returns <;>
          simp [pthread_once, starts, OnceState.finish, record, hdone, List.countP_cons, isStart, hcount]
      have honce := hruns.once
      rw [OnceState.step, hagain] at honce
      split at honce <;> omega

/-- init_routine runs once, throughout a run, exactly when no pthread_once is called while a thread is
    inside it. -/
theorem runsOnce_iff_alone (inputs : List (OnceInput τ)) :
    Always step RunsOnce start inputs ↔ Meets step Alone start inputs :=
  always_iff_meets (fun _ _ h halone => h.step halone) (fun _ h => h.runsOnce)
    (fun _ _ h hruns => by_contra fun halone => not_runsOnce_of_not_alone h halone hruns) (.fresh rfl)

/-- The routine of thread 0 yields, and thread 1 calls pthread_once: it starts the routine again. -/
theorem init_routine_started_twice :
    ¬ Always step RunsOnce (start : OnceState (Fin 2)) [.call 0 false, .call 1 false] := by
  intro h
  have hruns := always_iff_prefix.mp h _ List.prefix_rfl
  exact absurd hruns.once (by decide)

end OnceState

end Posix9
