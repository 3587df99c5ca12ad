import Mathlib.Data.List.Basic

/-! Programs that make calls and go on with what the calls reply. What is called is a relation, so that it may reply
    in any of several ways. Of a program that acquires a handle with one call and releases it with another, it is
    followed call by call where the handle is. -/

inductive Program (κ : Type) (ρ : κ → Type) (α : Type) where
  | ret (a : α)
  | call (c : κ) (rest : ρ c → Program κ ρ α)

namespace Program

variable {κ κ' : Type} {ρ : κ → Type} {ρ' : κ' → Type} {α β σ : Type}

def bind : Program κ ρ α → (α → Program κ ρ β) → Program κ ρ β
  | .ret a, f => f a
  | .call c rest, f => .call c fun r => (rest r).bind f

instance : Monad (Program κ ρ) where
  pure := .ret
  bind := bind

/-- Each call is a program of other calls. -/
def interpret (h : (c : κ) → Program κ' ρ' (ρ c)) : Program κ ρ α → Program κ' ρ' α
  | .ret a => .ret a
  | .call c rest => (h c).bind fun r => (rest r).interpret h

theorem pure_eq (a : α) : (pure a : Program κ ρ α) = .ret a := rfl

theorem bind_eq (p : Program κ ρ α) (f : α → Program κ ρ β) : p >>= f = p.bind f := rfl

@[simp] theorem ret_bind (a : α) (f : α → Program κ ρ β) : (ret a).bind f = f a := rfl

@[simp] theorem call_bind (c : κ) (rest : ρ c → Program κ ρ α) (f : α → Program κ ρ β) :
    (call c rest).bind f = call c fun r => (rest r).bind f := rfl

/-! ### Runs -/

/-- Calls with what they have replied. -/
abbrev Log (κ : Type) (ρ : κ → Type) := List ((c : κ) × ρ c)

variable {R : σ → (c : κ) → ρ c → σ → Prop} {s t u : σ} {p : Program κ ρ α} {f : α → Program κ ρ β} {a b : α}
  {c : κ} {rest : ρ c → Program κ ρ α} {log : Log κ ρ}

/-- `R` takes a state and a call to a reply and the state behind it. -/
inductive Runs (R : σ → (c : κ) → ρ c → σ → Prop) : σ → Program κ ρ α → Log κ ρ → α → σ → Prop
  | ret {s : σ} {a : α} : Runs R s (.ret a) [] a s
  | call {s t u : σ} {c : κ} {rest : ρ c → Program κ ρ α} {r : ρ c} {log : Log κ ρ} {a : α} :
    R s c r t → Runs R t (rest r) log a u → Runs R s (.call c rest) (⟨c, r⟩ :: log) a u

theorem Runs.bind {b : β} {log₁ log₂ : Log κ ρ} (hp : Runs R s p log₁ a t) (hf : Runs R t (f a) log₂ b u) :
    Runs R s (p.bind f) (log₁ ++ log₂) b u := by
  induction hp with
  | ret => exact hf
  | call hreply _ ih => exact .call hreply (ih hf)

/-- A run of one program and then of the next. -/
theorem Runs.split {b : β} (h : Runs R s (p.bind f) log b u) :
    ∃ log₁ a t log₂, Runs R s p log₁ a t ∧ Runs R t (f a) log₂ b u ∧ log = log₁ ++ log₂ := by
  induction p generalizing s log with
  | ret a => exact ⟨[], a, s, log, .ret, h, rfl⟩
  | call c rest ih =>
    cases h with
    | call hreply hrest =>
      obtain ⟨log₁, a, t, log₂, hfirst, hsecond, rfl⟩ := ih _ hrest
      exact ⟨_, a, t, log₂, .call hreply hfirst, hsecond, rfl⟩

/-- What some run ends in. -/
def Yields (R : σ → (c : κ) → ρ c → σ → Prop) (s : σ) (p : Program κ ρ α) (a : α) (t : σ) : Prop :=
  ∃ log, Runs R s p log a t

@[simp] theorem yields_ret : Yields R s (.ret a : Program κ ρ α) b t ↔ b = a ∧ t = s := by
  constructor
  · rintro ⟨log, h⟩
    cases h
    exact ⟨rfl, rfl⟩
  · rintro ⟨rfl, rfl⟩
    exact ⟨[], .ret⟩

@[simp] theorem yields_call : Yields R s (.call c rest) a u ↔ ∃ r t, R s c r t ∧ Yields R t (rest r) a u := by
  constructor
  · rintro ⟨log, h⟩
    cases h with
    | call hreply hrest => exact ⟨_, _, hreply, _, hrest⟩
  · rintro ⟨r, t, hreply, log, hrest⟩
    exact ⟨_, .call hreply hrest⟩

theorem yields_bind {b : β} : Yields R s (p.bind f) b u ↔ ∃ a t, Yields R s p a t ∧ Yields R t (f a) b u := by
  constructor
  · rintro ⟨log, h⟩
    obtain ⟨log₁, a, t, log₂, hp, hf, -⟩ := h.split
    exact ⟨a, t, ⟨log₁, hp⟩, log₂, hf⟩
  · rintro ⟨a, t, ⟨log₁, hp⟩, log₂, hf⟩
    exact ⟨_, hp.bind hf⟩

/-- The run in which each call replies what a function says; none where a call does not reply. -/
def exec (f : σ → (c : κ) → Option (ρ c × σ)) : σ → Program κ ρ α → Option (Log κ ρ × α × σ)
  | s, .ret a => some ([], a, s)
  | s, .call c rest =>
    (f s c).bind fun (r, t) => (exec f t (rest r)).map fun (log, a, u) => (⟨c, r⟩ :: log, a, u)

theorem runs_exec {f : σ → (c : κ) → Option (ρ c × σ)} (hf : ∀ s c r t, f s c = some (r, t) → R s c r t)
    (h : exec f s p = some (log, a, t)) : Runs R s p log a t := by
  induction p generalizing s log with
  | ret b =>
    cases h
    exact .ret
  | call c rest ih =>
    rw [exec] at h
    obtain ⟨⟨r, u⟩, hreply, hrest⟩ := Option.bind_eq_some_iff.mp h
    obtain ⟨⟨log', b, v⟩, hrun, heq⟩ := Option.map_eq_some_iff.mp hrest
    cases heq
    exact .call (hf _ _ _ _ hreply) (ih r hrun)

/-! ### What calls a program can make -/

/-- Whatever is replied, the program makes no calls but those of `P`. -/
def Makes (P : κ → Prop) : Program κ ρ α → Prop
  | .ret _ => True
  | .call c rest => P c ∧ ∀ r, (rest r).Makes P

variable {P : κ → Prop}

theorem Makes.bind (hp : p.Makes P) (hf : ∀ a, (f a).Makes P) : (p.bind f).Makes P := by
  induction p with
  | ret a => exact hf a
  | call c rest ih => exact ⟨hp.1, fun r => ih r (hp.2 r)⟩

theorem makes_interpret {P : κ' → Prop} {h : (c : κ) → Program κ' ρ' (ρ c)} (hP : ∀ c, (h c).Makes P)
    (p : Program κ ρ α) : (p.interpret h).Makes P := by
  induction p with
  | ret a => trivial
  | call c rest ih => exact (hP c).bind ih

/-! ### Where a program can end -/

/-- From here on the program makes no calls but those of `P`, and `Q` holds wherever it ends. -/
def Ends (R : σ → (c : κ) → ρ c → σ → Prop) (P : κ → Prop) (Q : α → σ → Prop) : Program κ ρ α → σ → Prop
  | .ret a, s => Q a s
  | .call c rest, s => P c ∧ ∀ r t, R s c r t → (rest r).Ends R P Q t

variable {Q Q' : α → σ → Prop}

theorem Ends.mono (h : p.Ends R P Q s) (hQ : ∀ a t, Q a t → Q' a t) : p.Ends R P Q' s := by
  induction p generalizing s with
  | ret a => exact hQ a s h
  | call c rest ih => exact ⟨h.1, fun r t hreply => ih r (h.2 r t hreply)⟩

theorem Ends.of_runs (h : p.Ends R P Q s) (hrun : Runs R s p log a t) : Q a t ∧ ∀ e ∈ log, P e.1 := by
  induction hrun with
  | ret => exact ⟨h, fun e he => by cases he⟩
  | call hreply _ ih =>
    obtain ⟨hQ, hrest⟩ := ih (h.2 _ _ hreply)
    refine ⟨hQ, fun e he => ?_⟩
    rcases List.mem_cons.mp he with rfl | he
    · exact h.1
    · exact hrest e he

theorem ends_bind {Q : β → σ → Prop} :
    (p.bind f).Ends R P Q s ↔ p.Ends R P (fun a t => (f a).Ends R P Q t) s := by
  induction p generalizing s with
  | ret a => exact Iff.rfl
  | call c rest ih =>
    refine and_congr_right fun _ => forall_congr' fun r => forall_congr' fun t => ?_
    exact imp_congr_right fun _ => ih r

/-! ### One handle -/

/-- Where the one handle of a program is: not acquired yet, held, or released. -/
inductive Stage (η : Type) where
  | idle
  | holding (h : η)
  | done

/-- The handle, and how many can still be acquired. -/
def Stage.held {η : Type} : Stage η → List η
  | .holding h => [h]
  | _ => []

def Stage.left {η : Type} : Stage η → ℕ
  | .idle => 1
  | _ => 0

/-- Which calls acquire a handle, and which release one. -/
structure Handles (κ : Type) (ρ : κ → Type) (η : Type) where
  acquires : κ → Bool
  acquired : (c : κ) → ρ c → Option η
  released : κ → Option η
  only : ∀ c r h, acquired c r = some h → acquires c = true
  apart : ∀ c, acquires c = true → released c = none

namespace Handles

variable {η : Type} (H : Handles κ ρ η)

/-- A handle is acquired once at the most, and what is released is the handle that is held. -/
structure Permits (st : Stage η) (c : κ) : Prop where
  acquires : H.acquires c = true → st = .idle
  releases : ∀ h, H.released c = some h → st = .holding h

def next (st : Stage η) (c : κ) (r : ρ c) : Stage η :=
  match H.released c, H.acquired c r with
  | some _, _ => .done
  | none, some h => .holding h
  | none, none => st

/-- Whatever is replied, the program makes no call that is not permitted, and `Q` holds where it ends. -/
def Follows (Q : Stage η → α → Prop) : Stage η → Program κ ρ α → Prop
  | st, .ret a => Q st a
  | st, .call c rest => H.Permits st c ∧ ∀ r, Follows Q (H.next st c r) (rest r)

/-- A call that neither acquires nor releases. -/
structure Plain (c : κ) : Prop where
  acquires : H.acquires c = false
  released : H.released c = none

variable {H} {Q Q' : Stage η → α → Prop} {st st' : Stage η} {h : η}

theorem Plain.permits (hc : H.Plain c) (st : Stage η) : H.Permits st c :=
  ⟨fun hacq => absurd hacq (by simp [hc.acquires]), fun h hrel => by simp [hc.released] at hrel⟩

theorem Plain.acquired (hc : H.Plain c) (r : ρ c) : H.acquired c r = none :=
  Option.eq_none_iff_forall_not_mem.mpr fun h hh => by cases hc.acquires.symm.trans (H.only c r h hh)

theorem Plain.next (hc : H.Plain c) (st : Stage η) (r : ρ c) : H.next st c r = st := by
  rw [Handles.next, hc.released, hc.acquired r]

theorem next_acquired {r : ρ c} (hr : H.acquired c r = some h) : H.next st c r = .holding h := by
  rw [next, H.apart c (H.only c r h hr), hr]

theorem next_released {r : ρ c} (hc : H.released c = some h) : H.next st c r = .done := by
  rw [next, hc]

theorem follows_bind {Q : Stage η → β → Prop} :
    H.Follows Q st (p.bind f) ↔ H.Follows (fun st a => H.Follows Q st (f a)) st p := by
  induction p generalizing st with
  | ret a => exact Iff.rfl
  | call c rest ih => exact and_congr_right fun _ => forall_congr' fun r => ih r

theorem Follows.mono (hp : H.Follows Q st p) (hQ : ∀ st a, Q st a → Q' st a) : H.Follows Q' st p := by
  induction p generalizing st with
  | ret a => exact hQ st a hp
  | call c rest ih => exact ⟨hp.1, fun r => ih r (hp.2 r)⟩

theorem follows_plain (hc : H.Plain c) (h : ∀ r, H.Follows Q st (rest r)) : H.Follows Q st (.call c rest) := by
  refine ⟨hc.permits st, fun r => ?_⟩
  rw [hc.next]
  exact h r

/-- Plain calls leave the handle where it is. -/
theorem follows_of_plain (hp : p.Makes H.Plain) (hQ : ∀ a, Q st a) : H.Follows Q st p := by
  induction p with
  | ret a => exact hQ a
  | call c rest ih => exact follows_plain hp.1 fun r => ih r (hp.2 r)

/-! ### The accounts of a run -/

/-- The handles acquired in a run, and those released. -/
def opened (H : Handles κ ρ η) (log : Log κ ρ) : List η := log.filterMap fun e => H.acquired e.1 e.2

def closed (H : Handles κ ρ η) (log : Log κ ρ) : List η := log.filterMap fun e => H.released e.1

theorem opened_none {r : ρ c} (hr : H.acquired c r = none) (log : Log κ ρ) :
    H.opened (⟨c, r⟩ :: log) = H.opened log := List.filterMap_cons_none hr

theorem opened_some {r : ρ c} (hr : H.acquired c r = some h) (log : Log κ ρ) :
    H.opened (⟨c, r⟩ :: log) = h :: H.opened log := List.filterMap_cons_some hr

theorem closed_none (hc : H.released c = none) (r : ρ c) (log : Log κ ρ) :
    H.closed (⟨c, r⟩ :: log) = H.closed log := List.filterMap_cons_none hc

theorem closed_some (hc : H.released c = some h) (r : ρ c) (log : Log κ ρ) :
    H.closed (⟨c, r⟩ :: log) = h :: H.closed log := List.filterMap_cons_some hc

/-- What has been acquired has been released, but for what is held. -/
structure Accounts (H : Handles κ ρ η) (st : Stage η) (log : Log κ ρ) (st' : Stage η) : Prop where
  balance : st.held ++ H.opened log = H.closed log ++ st'.held
  once : (H.opened log).length ≤ st.left

theorem Accounts.nil (st : Stage η) : H.Accounts st [] st := ⟨List.append_nil _, Nat.zero_le _⟩

theorem Accounts.cons (hc : H.Permits st c) {r : ρ c} (h : H.Accounts (H.next st c r) log st') :
    H.Accounts st (⟨c, r⟩ :: log) st' := by
  rcases hrel : H.released c with _ | k
  · rcases hacq : H.acquired c r with _ | k
    · have hnext : H.next st c r = st := by
        rw [next, hrel, hacq]
      rw [hnext] at h
      refine ⟨?_, ?_⟩ <;> rw [opened_none hacq]
      · rw [closed_none hrel]
        exact h.balance
      · exact h.once
    · obtain rfl := hc.acquires (H.only c r k hacq)
      rw [next_acquired hacq] at h
      refine ⟨?_, ?_⟩ <;> rw [opened_some hacq]
      · rw [closed_none hrel]
        exact h.balance
      · rw [List.length_cons]
        exact Nat.succ_le_succ h.once
  · obtain rfl := hc.releases k hrel
    have hacq : H.acquired c r = none := by
      refine Option.eq_none_iff_forall_not_mem.mpr fun m hm => ?_
      cases (H.apart c (H.only c r m hm)).symm.trans hrel
    rw [next_released hrel] at h
    refine ⟨?_, ?_⟩ <;> rw [opened_none hacq]
    · rw [closed_some hrel]
      exact congrArg (k :: ·) h.balance
    · exact h.once

/-- A run of a program whose calls are permitted keeps what each permitted call keeps, and its accounts balance. -/
theorem Follows.run {Link : Stage η → σ → Prop}
    (hstep : ∀ st s c r t, Link st s → H.Permits st c → R s c r t → Link (H.next st c r) t)
    (hp : H.Follows Q st p) (hs : Link st s) (hrun : Runs R s p log a t) :
    ∃ st', Q st' a ∧ Link st' t ∧ H.Accounts st log st' := by
  induction hrun generalizing st with
  | ret => exact ⟨st, hp, hs, .nil st⟩
  | call hreply _ ih =>
    obtain ⟨st', hQ, hlink, haccounts⟩ := ih (hp.2 _) (hstep _ _ _ _ _ hs hp.1 hreply)
    exact ⟨st', hQ, hlink, haccounts.cons hp.1⟩

end Handles

end Program
