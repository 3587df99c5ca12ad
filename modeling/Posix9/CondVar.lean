import Posix9.Lib.Count
import Posix9.Lib.Runs
import Posix9.Sync

/-! Condition variables. `waiting` counts the threads in the loop of a wait, and `signaled` stays set until
    the last of them has left it. So no thread that was waiting at a signal is forgotten; but a thread
    that comes to wait before the others have left does not wait at all. -/

namespace Posix9.SyncState
open Count Runs

variable {τ : Type} [DecidableEq τ] {self : τ → ℕ} {s s' : SyncState τ} {t u : τ} {w : CondWait}
  {k : Option Locking} {c : ℕ}

/-! ### What a step does to a condition variable -/

/-- In the loop of a wait on `c`. -/
def Inside (c : ℕ) : Place → Prop
  | .waiting w => w.cond = c
  | _ => False

instance (c : ℕ) : DecidablePred (Inside c)
  | .waiting w => inferInstanceAs (Decidable (w.cond = c))
  | .program | .locking _ => .isFalse id

theorem not_inside_locking (k : Locking) : ¬ Inside c (.locking k) := id

theorem not_inside_program : ¬ Inside c .program := id

/-- What pthread_cond_signal and pthread_cond_broadcast have in common. -/
structure Signals (s s' : SyncState τ) (t : τ) (c : ℕ) : Prop where
  place : s'.place = Function.update s.place t .program
  returned : s'.returned = s.returned
  signals : s'.signals = Function.update s.signals c (s.signals c + 1)
  other : ∀ d, d ≠ c → s'.conds d = s.conds d
  waiting : (s'.conds c).waiting = (s.conds c).waiting
  signaled : (s.conds c).waiting > 0 ∧ (s'.conds c).signaled ≠ 0 ∨
    ¬ (s.conds c).waiting > 0 ∧ (s'.conds c).signaled = (s.conds c).signaled

theorem signal_signals (s : SyncState τ) (t : τ) (c : ℕ) :
    Signals s ((s.pthread_cond_signal c).return_ t 0) t c := by
  rw [pthread_cond_signal]
  split
  · rename_i hwaiting
    refine ⟨rfl, rfl, rfl, fun d hd => Function.update_of_ne hd _ _, ?_, .inl ⟨hwaiting, ?_⟩⟩
    · simp [setCond, return_, goTo]
    · simp [setCond, return_, goTo]
  · rename_i hnone
    exact ⟨rfl, rfl, rfl, fun _ _ => rfl, rfl, .inr ⟨hnone, rfl⟩⟩

theorem broadcast_signals (s : SyncState τ) (t : τ) (c : ℕ) :
    Signals s ((s.pthread_cond_broadcast c).return_ t 0) t c := by
  rw [pthread_cond_broadcast]
  split
  · rename_i hwaiting
    refine ⟨rfl, rfl, rfl, fun d hd => Function.update_of_ne hd _ _, ?_, .inl ⟨hwaiting, ?_⟩⟩
    · simp [setCond, return_, goTo]
    · simpa [setCond, return_, goTo] using Int.ne_of_gt hwaiting
  · rename_i hnone
    exact ⟨rfl, rfl, rfl, fun _ _ => rfl, rfl, .inr ⟨hnone, rfl⟩⟩

/-- One step, for what is kept of the condition variables whoever has the locks: locks, signals, and
    waits, which enter the loop and run it from its test on. -/
theorem step_induct {J : SyncState τ → Prop} (a : SyncInput τ) (h : J s)
    (whoever : ∀ q held rwHeld, J q → J { q with held := held, rwHeld := rwHeld })
    (outside : ∀ s' k, Outside s s' a.thread k → (∀ c, ¬ Inside c (s.place a.thread)) →
      (∀ w v, k = some (.wait w v) → s.place a.thread = .locking (.wait w v)) → J s')
    (signal : ∀ s' c, Signals s s' a.thread c → s.place a.thread = .program → J s')
    (enter : ∀ w now, s.place a.thread = .program → w.start = s.signals w.cond →
      (w.endTicks = none → ∃ m, a = .call a.thread (.pthread_cond_wait w.cond m) now) →
      J ((s.enterWait a.thread w).waitLoop self a.thread w now))
    (loop : ∀ w now, s.place a.thread = .waiting w → J (s.waitLoop self a.thread w now)) :
    J (s.step self a) := by
  rw [step]
  refine whoever _ _ _ ?_
  cases a with
  | call t c now =>
    rw [turn]
    split
    · rename_i hprogram
      dsimp only [SyncInput.thread] at outside signal enter
      have hcall : ∀ s' k, Outside s s' t k → (∀ w v, k ≠ some (.wait w v)) → J s' := by
        intro s' k hs' hk
        refine outside s' k hs' (fun c => ?_) fun w v hwait => absurd hwait (hk w v)
        rw [hprogram]
        exact not_inside_program
      cases c with
      | pthread_mutex_lock m => exact hcall _ _ (lock_outside self s t _) (fun _ _ => by simp)
      | pthread_mutex_trylock m => exact hcall _ _ (trylock_outside self s t _ _) (fun _ _ => by simp)
      | pthread_mutex_unlock m =>
        exact hcall _ none ⟨rfl, rfl, .inl rfl, .inl rfl⟩ (fun _ _ => by simp)
      | pthread_cond_wait c m => exact enter _ now hprogram rfl fun _ => ⟨m, rfl⟩
      | pthread_cond_timedwait c m tv_sec ticks =>
        exact enter _ now hprogram rfl fun hno => absurd hno (by simp)
      | pthread_cond_signal c => exact signal _ c (signal_signals s t c) hprogram
      | pthread_cond_broadcast c => exact signal _ c (broadcast_signals s t c) hprogram
      | pthread_rwlock_rdlock l => exact hcall _ _ (lock_outside self s t _) (fun _ _ => by simp)
      | pthread_rwlock_tryrdlock l => exact hcall _ _ (tryrdlock_outside self s t _ _) (fun _ _ => by simp)
      | pthread_rwlock_wrlock l => exact hcall _ _ (lock_outside self s t _) (fun _ _ => by simp)
      | pthread_rwlock_trywrlock l => exact hcall _ _ (trywrlock_outside self s t _ _) (fun _ _ => by simp)
      | pthread_rwlock_unlock l => exact hcall _ _ (lock_outside self s t _) (fun _ _ => by simp)
    · exact h
  | resume t now =>
    rw [turn]
    dsimp only [SyncInput.thread] at outside loop
    cases hplace : s.place t with
    | program => exact h
    | locking k =>
      refine outside _ _ (lock_outside self s t k) (fun c => ?_) (fun w v hk => ?_)
      · rw [hplace]
        exact not_inside_locking k
      · rw [hplace, Option.some.inj hk]
    | waiting w => exact loop w now hplace

/-! ### No wakeup is lost -/

/-- The thread is in the loop, and finds that it has been signalled when it goes on. -/
structure Woken (s : SyncState τ) (c : ℕ) (t : τ) : Prop where
  inside : Inside c (s.place t)
  signaled : (s.conds c).signaled ≠ 0

theorem Woken.enterWait (h : s.Woken c t) (hne : t ≠ u) : (s.enterWait u w).Woken c t := by
  refine ⟨?_, ?_⟩
  · rw [enterWait_place, Function.update_of_ne hne]
    exact h.inside
  · rcases eq_or_ne c w.cond with rfl | hother
    · rw [enterWait_cond]
      exact h.signaled
    · rw [enterWait_of_ne hother]
      exact h.signaled

theorem Outside.place_eq (h : Outside s s' t k) :
    ∃ p, s'.place = Function.update s.place t p ∧ ∀ c, ¬ Inside c p := by
  rcases h.place with hplace | ⟨k', -, hplace⟩
  · exact ⟨_, hplace, fun c => not_inside_program⟩
  · exact ⟨_, hplace, fun c => not_inside_locking k'⟩

section Law

variable [Fintype τ]

/-- `waiting` counts the threads in the loop, and no signal outlasts them. -/
structure Counts (s : SyncState τ) (c : ℕ) : Prop where
  waiting : (s.conds c).waiting = count (Inside c) s.place
  stale : (s.conds c).waiting = 0 → (s.conds c).signaled = 0

def CondLaw (s : SyncState τ) : Prop := ∀ c, s.Counts c

omit [DecidableEq τ] in
theorem CondLaw.start : (SyncState.start : SyncState τ).CondLaw := fun c => by
  have hnone : count (Inside c) (SyncState.start : SyncState τ).place = 0 :=
    count_eq_zero.mpr fun _ => not_inside_program
  refine ⟨?_, fun _ => rfl⟩
  rw [hnone]
  rfl

omit [DecidableEq τ] in
theorem Counts.pos (h : s.Counts c) (ht : Inside c (s.place t)) : 0 < (s.conds c).waiting := by
  rw [h.waiting]
  exact Int.natCast_pos.mpr (count_pos.mpr ⟨t, ht⟩)

/-- A thread moves, but not into the loop or out of it. -/
theorem Counts.same {p : Place} (h : s.Counts c) (hconds : s'.conds c = s.conds c)
    (hplace : s'.place = Function.update s.place t p) (hp : Inside c (s.place t) ↔ Inside c p) :
    s'.Counts c := by
  refine ⟨?_, ?_⟩
  · rw [hconds, hplace, count_update_same hp]
    exact h.waiting
  · rw [hconds]
    exact h.stale

/-- A thread leaves the loop. -/
theorem Counts.leave {p : Place} {x : Cond} (h : s.Counts c) (ht : Inside c (s.place t))
    (hconds : s'.conds c = x) (hplace : s'.place = Function.update s.place t p) (hp : ¬ Inside c p)
    (hwaiting : x.waiting = (s.conds c).waiting - 1) (hsignaled : x.waiting = 0 → x.signaled = 0) :
    s'.Counts c := by
  have hcount := count_update_leave (P := Inside c) ht hp
  refine ⟨?_, by rwa [hconds]⟩
  rw [hconds, hplace, hwaiting, h.waiting]
  omega

theorem CondLaw.waitLoop (h : s.CondLaw) (hplace : s.place t = .waiting w) (now : ℕ) :
    (s.waitLoop self t w now).CondLaw := by
  rcases waitLoop_cases self s t w now with ⟨-, heq⟩ | ⟨x, v, heq, hwaiting, hsignaled⟩
  · rw [heq]
    intro c
    refine (h c).same rfl rfl ?_
    rw [hplace]
  · rw [heq]
    have hout := lock_outside self (s.setCond w.cond x) t (.wait w v)
    obtain ⟨p, hp, hinside⟩ := hout.place_eq
    intro c
    rcases eq_or_ne c w.cond with rfl | hne
    · refine (h w.cond).leave (by rw [hplace]; rfl) ?_ hp (hinside _) hwaiting ?_
      · rw [hout.conds, setCond_self]
      · intro hnone
        rcases hsignaled with ⟨-, -, hx⟩ | ⟨-, hx⟩
        · exact hx
        · rw [hx, if_pos hnone]
    · refine (h c).same ?_ hp ?_
      · rw [hout.conds, setCond_of_ne hne]
      · rw [hplace]
        exact ⟨fun hc => absurd hc.symm hne, fun hc => absurd hc (hinside c)⟩

/-- A thread comes to the loop. -/
theorem CondLaw.enterWait (h : s.CondLaw) (hplace : s.place t = .program) :
    (s.enterWait t w).CondLaw := by
  intro c
  have hout : ¬ Inside c (s.place t) := by
    rw [hplace]
    exact not_inside_program
  rcases eq_or_ne c w.cond with rfl | hne
  · have hcount := count_update_enter (P := Inside w.cond) (b := .waiting w) hout rfl
    have hwaiting := (h w.cond).waiting
    refine ⟨?_, ?_⟩
    · rw [enterWait_cond, enterWait_place, hcount]
      dsimp only
      omega
    · rw [enterWait_cond]
      dsimp only
      omega
  · refine (h c).same (enterWait_of_ne hne) rfl ?_
    exact ⟨fun hc => absurd hc hout, fun hc => absurd hc.symm hne⟩

theorem CondLaw.signals (h : s.CondLaw) (hsignals : Signals s s' t c) (hplace : s.place t = .program) :
    s'.CondLaw := by
  intro d
  have hinside : Inside d (s.place t) ↔ Inside d .program := by rw [hplace]
  rcases eq_or_ne d c with rfl | hne
  · refine ⟨?_, ?_⟩
    · rw [hsignals.waiting, hsignals.place, count_update_same hinside]
      exact (h d).waiting
    · rw [hsignals.waiting]
      intro hnone
      rcases hsignals.signaled with ⟨hsome, -⟩ | ⟨-, hsame⟩
      · omega
      · rw [hsame]
        exact (h d).stale hnone
  · exact (h d).same (hsignals.other d hne) hsignals.place hinside

theorem CondLaw.step (self : τ → ℕ) (h : s.CondLaw) (a : SyncInput τ) : (s.step self a).CondLaw := by
  refine step_induct a h (fun q _ _ hq c => ⟨(hq c).waiting, (hq c).stale⟩) ?_ ?_ ?_ ?_
  · intro s' k hout hfrom _ c
    obtain ⟨p, hp, hinside⟩ := hout.place_eq
    refine (h c).same (by rw [hout.conds]) hp ?_
    exact ⟨fun hc => absurd hc (hfrom c), fun hc => absurd hc (hinside c)⟩
  · intro s' c hsignals hplace
    exact h.signals hsignals hplace
  · intro w now hplace _ _
    exact (h.enterWait hplace).waitLoop (Function.update_self ..) now
  · intro w now hplace
    exact h.waitLoop hplace now

/-- Another thread in the loop does not reset `signaled` when it leaves. -/
theorem Woken.waitLoop (h : s.Woken c t) (hlaw : s.CondLaw) (hne : t ≠ u) (hplace : s.place u = .waiting w)
    (now : ℕ) : (s.waitLoop self u w now).Woken c t := by
  rcases waitLoop_cases self s u w now with ⟨-, heq⟩ | ⟨x, v, heq, hwaiting, hsignaled⟩
  · rw [heq]
    refine ⟨?_, h.signaled⟩
    rw [goTo_of_ne hne]
    exact h.inside
  · rw [heq]
    have hout := lock_outside self (s.setCond w.cond x) u (.wait w v)
    obtain ⟨p, hp, -⟩ := hout.place_eq
    refine ⟨?_, ?_⟩
    · rw [hp, Function.update_of_ne hne]
      exact h.inside
    · rw [hout.conds]
      rcases eq_or_ne c w.cond with rfl | hother
      · rw [setCond_self]
        have hstill : x.waiting ≠ 0 := by
          have htwo := one_lt_count (P := Inside w.cond) (g := s.place) hne h.inside
            (by rw [hplace]; rfl)
          have hcount := (hlaw w.cond).waiting
          omega
        rcases hsignaled with ⟨hnone, -⟩ | ⟨-, hx⟩
        · exact absurd hnone h.signaled
        · rw [hx, if_neg hstill]
          exact h.signaled
      · rw [setCond_of_ne hother]
        exact h.signaled

theorem Woken.step (self : τ → ℕ) (h : s.Woken c t) (hlaw : s.CondLaw) {a : SyncInput τ}
    (hne : t ≠ a.thread) :
    (s.step self a).Woken c t := by
  refine step_induct (J := fun s' => s'.Woken c t) a h (fun q _ _ hq => ⟨hq.inside, hq.signaled⟩) ?_ ?_ ?_ ?_
  · intro s' k hout _ _
    obtain ⟨p, hp, -⟩ := hout.place_eq
    refine ⟨?_, by rw [hout.conds]; exact h.signaled⟩
    rw [hp, Function.update_of_ne hne]
    exact h.inside
  · intro s' d hsignals _
    refine ⟨?_, ?_⟩
    · rw [hsignals.place, Function.update_of_ne hne]
      exact h.inside
    · rcases eq_or_ne c d with rfl | hother
      · rcases hsignals.signaled with ⟨-, hset⟩ | ⟨-, hsame⟩
        · exact hset
        · rw [hsame]
          exact h.signaled
      · rw [hsignals.other c hother]
        exact h.signaled
  · intro w now hplace _ _
    exact (h.enterWait hne).waitLoop (hlaw.enterWait hplace) hne (Function.update_self ..) now
  · intro w now hplace
    exact h.waitLoop hlaw hne hplace now

theorem Signals.woken (h : Signals s s' u c) (hlaw : s.CondLaw) (hplace : s.place u = .program)
    (hinside : Inside c (s.place t)) : s'.Woken c t := by
  have hne : t ≠ u := by
    rintro rfl
    rw [hplace] at hinside
    exact not_inside_program hinside
  refine ⟨?_, ?_⟩
  · rw [h.place, Function.update_of_ne hne]
    exact hinside
  · rcases h.signaled with ⟨-, hset⟩ | ⟨hnone, -⟩
    · exact hset
    · exact absurd ((hlaw c).pos hinside) hnone

theorem Woken.run (self : τ → ℕ) {after : List (SyncInput τ)} (h : s.Woken c t) (hlaw : s.CondLaw)
    (hafter : ∀ a ∈ after, t ≠ SyncInput.thread a) :
    (Runs.run (SyncState.step self) s after).Woken c t := by
  induction after generalizing s with
  | nil => exact h
  | cons a after ih =>
    have hstep := h.step self hlaw (hafter a List.mem_cons_self)
    exact ih hstep (hlaw.step self a) fun b hb => hafter b (List.mem_cons_of_mem a hb)

/-- `waiting` counts the threads in the loop and `signaled` is 0 when there are none, at every moment; and a
    thread in the loop when its condition variable is signalled finds that it has been, whatever other
    threads do before it goes on. -/
theorem cond_wakeups (inputs : List (SyncInput τ)) :
    Always (step self) CondLaw start inputs ∧
    ∀ c u t now after call, (call = .pthread_cond_signal c ∨ call = .pthread_cond_broadcast c) →
      (run (step self) start inputs).place u = .program →
      Inside c ((run (step self) start inputs).place t) → (∀ a ∈ after, t ≠ SyncInput.thread a) →
      Woken (run (step self) (run (step self) start inputs) (.call u call now :: after)) c t := by
  have hlaw := always_of_step (fun s a (h : CondLaw s) => h.step self a) CondLaw.start inputs
  refine ⟨hlaw, ?_⟩
  intro c u t now after call hcall hprogram hinside hafter
  have hhere := hlaw.last
  generalize run (step self) start inputs = s at hprogram hinside hhere ⊢
  have hsignals : Signals s (s.step self (.call u call now)) u c := by
    have hturn : Signals s (s.turn self (.call u call now)) u c := by
      rw [turn, if_pos hprogram]
      rcases hcall with rfl | rfl
      · exact signal_signals s u c
      · exact broadcast_signals s u c
    exact ⟨hturn.place, hturn.returned, hturn.signals, hturn.other, hturn.waiting, hturn.signaled⟩
  rw [run_cons]
  exact (hsignals.woken hhere hprogram hinside).run self (hhere.step self _) hafter

/-- Two threads wait, the third signals, and the second leaves before the first goes on. -/
theorem cond_wakeups_two :
    Woken (run (step handles) (run (step handles) start
      [.call 0 (.pthread_mutex_lock 0) 0, .call 0 (.pthread_cond_wait 0 0) 0,
        .call 1 (.pthread_mutex_lock 0) 0, .call 1 (.pthread_cond_timedwait 0 0 1 0) 0])
      [.call 2 (.pthread_cond_signal 0) 0, .resume 1 10]) 0 0 :=
  (cond_wakeups _).2 0 2 0 0 [.resume 1 10] _ (.inl rfl) (by decide +kernel) (by decide +kernel)
    (by decide +kernel)

end Law

/-! ### A signal releases a later wait -/

/-- A call of pthread_cond_wait that began after a signal has returned after a further one. -/
def Later (r : Returned τ) : Prop := r.wait.endTicks = none → 0 < r.wait.start → r.wait.start < r.signals

def ReleasedLater (s : SyncState τ) : Prop := ∀ r ∈ s.returned, Later r

/-- pthread_cond_wait is called only when no earlier signal is still set. -/
def Unsignalled (s : SyncState τ) : SyncInput τ → Prop
  | .call t (.pthread_cond_wait c _) _ => s.place t = .program → (s.conds c).signaled = 0
  | _ => True

instance (s : SyncState τ) : (a : SyncInput τ) → Decidable (s.Unsignalled a)
  | .call t (.pthread_cond_wait c _) _ =>
    inferInstanceAs (Decidable (s.place t = .program → (s.conds c).signaled = 0))
  | .call _ (.pthread_mutex_lock _) _ | .call _ (.pthread_mutex_trylock _) _
  | .call _ (.pthread_mutex_unlock _) _ | .call _ (.pthread_cond_timedwait ..) _
  | .call _ (.pthread_cond_signal _) _ | .call _ (.pthread_cond_broadcast _) _
  | .call _ (.pthread_rwlock_rdlock _) _ | .call _ (.pthread_rwlock_tryrdlock _) _
  | .call _ (.pthread_rwlock_wrlock _) _ | .call _ (.pthread_rwlock_trywrlock _) _
  | .call _ (.pthread_rwlock_unlock _) _ | .resume .. => .isTrue trivial

/-- What a thread has seen of its wait: in the loop, a signal that is set has come since the wait began;
    past the loop, so has the one that ended it. -/
def Seen (s : SyncState τ) : Place → Prop
  | .program => True
  | .locking (.wait w _) => w.endTicks = none → w.start < s.signals w.cond
  | .locking _ => True
  | .waiting w => w.start ≤ s.signals w.cond ∧
      (w.endTicks = none → (s.conds w.cond).signaled ≠ 0 → w.start < s.signals w.cond)

structure Releases (s : SyncState τ) : Prop where
  returned : s.ReleasedLater
  seen : ∀ t, s.Seen (s.place t)
  set : ∀ c, (s.conds c).signaled ≠ 0 → 0 < s.signals c

/-- A signal that is set now was set before, or has come in between. -/
structure Since (s s' : SyncState τ) : Prop where
  signals : ∀ c, s.signals c ≤ s'.signals c
  set : ∀ c, (s'.conds c).signaled ≠ 0 → (s.conds c).signaled ≠ 0 ∨ s.signals c < s'.signals c

omit [DecidableEq τ] in
theorem Since.seen {p : Place} (h : Since s s') (hp : s.Seen p) : s'.Seen p := by
  cases p with
  | program => trivial
  | locking k =>
    cases k with
    | wait w v => exact fun hno => Nat.lt_of_lt_of_le (hp hno) (h.signals w.cond)
    | program | rdlock | wrlock | unlock => trivial
  | waiting w =>
    refine ⟨Nat.le_trans hp.1 (h.signals w.cond), ?_⟩
    intro hno hset
    rcases h.set w.cond hset with hbefore | hmore
    · exact Nat.lt_of_lt_of_le (hp.2 hno hbefore) (h.signals w.cond)
    · exact Nat.lt_of_le_of_lt hp.1 hmore

omit [DecidableEq τ] in
theorem Since.positive (h : Since s s') (hs : s.Releases) {c : ℕ} (hset : (s'.conds c).signaled ≠ 0) :
    0 < s'.signals c := by
  rcases h.set c hset with hbefore | hmore
  · exact Nat.lt_of_lt_of_le (hs.set c hbefore) (h.signals c)
  · exact Nat.zero_lt_of_lt hmore

/-- One thread moves, and nothing returns. -/
theorem Releases.move {p : Place} (h : s.Releases) (hsince : Since s s')
    (hplace : s'.place = Function.update s.place t p) (hp : s'.Seen p)
    (hreturned : s'.returned = s.returned) : s'.Releases := by
  refine ⟨?_, ?_, fun c => hsince.positive h⟩
  · rw [ReleasedLater, hreturned]
    exact h.returned
  · intro u
    rw [hplace]
    rcases eq_or_ne u t with rfl | hne
    · rwa [Function.update_self]
    · rw [Function.update_of_ne hne]
      exact hsince.seen (h.seen u)

theorem Releases.outside (h : s.Releases) (hout : Outside s s' t k)
    (hlock : ∀ w v, k = some (.wait w v) → w.endTicks = none → w.start < s.signals w.cond) :
    s'.Releases := by
  have hsince : Since s s' :=
    ⟨fun c => Nat.le_of_eq (by rw [hout.signals]), fun c hset => .inl (by rwa [← hout.conds])⟩
  have hplace : ∃ p, s'.place = Function.update s.place t p ∧ s'.Seen p := by
    rcases hout.place with hplace | ⟨k', rfl, hplace⟩
    · exact ⟨.program, hplace, trivial⟩
    · refine ⟨.locking k', hplace, ?_⟩
      cases k' with
      | wait w v =>
        intro hno
        rw [hout.signals]
        exact hlock w v rfl hno
      | program | rdlock | wrlock | unlock => trivial
  obtain ⟨p, hp, hseen⟩ := hplace
  rcases hout.returned with hreturned | ⟨w, v, rfl, hreturned⟩
  · exact h.move hsince hp hseen hreturned
  · have hrest : Releases { s' with returned := s.returned } := h.move ⟨hsince.signals, hsince.set⟩ hp
      (by cases p <;> exact hseen) rfl
    refine ⟨?_, hrest.seen, hrest.set⟩
    rw [ReleasedLater, hreturned]
    rintro r (_ | ⟨_, hr⟩)
    · exact fun hno _ => hlock w v rfl hno
    · exact h.returned r hr

theorem Releases.waitLoop (self : τ → ℕ) (h : s.Releases) (hplace : s.place t = .waiting w) (now : ℕ) :
    (s.waitLoop self t w now).Releases := by
  have hseen := h.seen t
  rw [hplace] at hseen
  rcases waitLoop_cases self s t w now with ⟨-, heq⟩ | ⟨x, v, heq, -, hsignaled⟩
  · rw [heq]
    exact h.move ⟨fun _ => Nat.le_refl _, fun _ => .inl⟩ rfl hseen rfl
  · rw [heq]
    have hsince : Since s (s.setCond w.cond x) := by
      refine ⟨fun _ => Nat.le_refl _, fun c hset => .inl ?_⟩
      rcases eq_or_ne c w.cond with rfl | hne
      · rw [setCond_self] at hset
        rcases hsignaled with ⟨-, -, hx⟩ | ⟨hold, -⟩
        · exact absurd hx hset
        · exact hold
      · rwa [setCond_of_ne hne] at hset
    have hmoved : (s.setCond w.cond x).Releases :=
      h.move hsince (Function.update_eq_self t s.place).symm (hsince.seen (h.seen t)) rfl
    refine hmoved.outside (lock_outside self _ t (.wait w v)) ?_
    intro w' v' hk hno
    obtain ⟨rfl, -⟩ := Locking.wait.inj (Option.some.inj hk)
    rcases hsignaled with ⟨-, htimed, -⟩ | ⟨hset, -⟩
    · exact absurd hno htimed
    · exact hseen.2 hno hset

theorem Releases.enterWait (h : s.Releases) (hstart : w.start = s.signals w.cond)
    (hfresh : w.endTicks = none → (s.conds w.cond).signaled = 0) : (s.enterWait t w).Releases := by
  have hsame : ∀ c, ((s.enterWait t w).conds c).signaled = (s.conds c).signaled := by
    intro c
    rcases eq_or_ne c w.cond with rfl | hne
    · rw [enterWait_cond]
    · rw [enterWait_of_ne hne]
  refine h.move ⟨fun _ => Nat.le_refl _, fun c hset => .inl (by rwa [← hsame])⟩ rfl ?_ rfl
  refine ⟨Nat.le_of_eq hstart, ?_⟩
  intro hno hset
  rw [hsame] at hset
  exact absurd (hfresh hno) hset

theorem Releases.signals (h : s.Releases) (hsignals : Signals s s' t c) : s'.Releases := by
  refine h.move ⟨?_, ?_⟩ hsignals.place trivial hsignals.returned
  · intro d
    rw [hsignals.signals]
    rcases eq_or_ne d c with rfl | hne
    · rw [Function.update_self]
      exact Nat.le_succ _
    · rw [Function.update_of_ne hne]
  · intro d hset
    rcases eq_or_ne d c with rfl | hne
    · rw [hsignals.signals, Function.update_self]
      exact .inr (Nat.lt_succ_self _)
    · rw [hsignals.other d hne] at hset
      exact .inl hset

theorem Releases.step (self : τ → ℕ) (s : SyncState τ) (a : SyncInput τ) (h : s.Releases)
    (hC : s.Unsignalled a) : (s.step self a).Releases := by
  refine step_induct a h (fun q _ _ hq => ⟨hq.returned, hq.seen, hq.set⟩) ?_ ?_ ?_ ?_
  · intro s' k hout _ hwait
    refine h.outside hout fun w v hk hno => ?_
    have hseen := h.seen a.thread
    rw [hwait w v hk] at hseen
    exact hseen hno
  · intro s' c hsignals _
    exact h.signals hsignals
  · intro w now hplace hstart hcall
    have hfresh : w.endTicks = none → (s.conds w.cond).signaled = 0 := by
      intro hno
      obtain ⟨m, ha⟩ := hcall hno
      rw [ha] at hC
      exact hC hplace
    exact (h.enterWait hstart hfresh).waitLoop self (Function.update_self ..) now
  · intro w now hplace
    exact h.waitLoop self hplace now

omit [DecidableEq τ] in
theorem Releases.start : (SyncState.start : SyncState τ).Releases :=
  ⟨fun r hr => (by cases hr), fun _ => trivial, fun _ hset => absurd rfl hset⟩

/-- A call of pthread_cond_wait that finds an earlier signal set returns at once: it has just given its
    mutex back. -/
theorem cond_wait_returns (self : τ → ℕ) (s : SyncState τ) (t : τ) (c m now : ℕ)
    (hset : (s.conds c).signaled ≠ 0) : (s.pthread_cond_wait self t c m now).returned =
      ⟨t, ⟨c, m, none, s.signals c⟩, 0, s.signals c⟩ :: s.returned := by
  have hfree : ((s.enterWait t ⟨c, m, none, s.signals c⟩).mutexes (.mutex m)).locked = 0 := by
    simp [SyncState.enterWait, goTo, pthread_mutex_unlock]
  have hset' : ((s.enterWait t ⟨c, m, none, s.signals c⟩).conds c).signaled ≠ 0 := by
    simpa [SyncState.enterWait, goTo, pthread_mutex_unlock, setCond] using hset
  rw [pthread_cond_wait, SyncState.waitLoop]
  dsimp only
  rw [if_neg hset', pthread_mutex_lock, if_pos (by exact hfree)]
  rfl

theorem unsignalled_of_released (self : τ → ℕ) (s : SyncState τ) (a : SyncInput τ) (h : s.Releases)
    (hnext : (s.step self a).ReleasedLater) : s.Unsignalled a := by
  cases a with
  | resume t now => trivial
  | call t call now =>
    cases call with
    | pthread_cond_wait c m =>
      intro hprogram
      by_contra hset
      have hreturned := cond_wait_returns self s t c m now hset
      have hlater := hnext ⟨t, ⟨c, m, none, s.signals c⟩, 0, s.signals c⟩ (by
        rw [step, turn, if_pos hprogram, exec, hreturned]
        exact List.mem_cons_self)
      exact Nat.lt_irrefl _ (hlater rfl (h.set c hset))
    | pthread_mutex_lock | pthread_mutex_trylock | pthread_mutex_unlock | pthread_cond_timedwait
    | pthread_cond_signal | pthread_cond_broadcast | pthread_rwlock_rdlock | pthread_rwlock_tryrdlock
    | pthread_rwlock_wrlock | pthread_rwlock_trywrlock | pthread_rwlock_unlock => trivial

/-- Every call of pthread_cond_wait that begins after a signal waits for a further one, in just the runs in
    which it is never called while a signal is still set for threads that have not gone on. -/
theorem releasedLater_iff_unsignalled (self : τ → ℕ) (inputs : List (SyncInput τ)) :
    Always (step self) ReleasedLater start inputs ↔ Meets (step self) Unsignalled start inputs :=
  always_iff_meets (Releases.step self) (fun _ h => h.returned) (unsignalled_of_released self)
    Releases.start

/-- One thread waits, another signals, and a third comes to wait before the first goes on: it does not
    wait. -/
theorem cond_wait_not_waiting : ¬ Always (step handles) ReleasedLater start
    [.call 0 (.pthread_mutex_lock 0) 0, .call 0 (.pthread_cond_wait 0 0) 0,
      .call 1 (.pthread_cond_signal 0) 0, .call 2 (.pthread_mutex_lock 0) 0,
      .call 2 (.pthread_cond_wait 0 0) 0] := by
  intro h
  have hend := h.last ⟨2, ⟨0, 0, none, 1⟩, 0, 1⟩ (by decide +kernel)
  exact absurd (hend rfl (by decide)) (by decide)

end Posix9.SyncState
