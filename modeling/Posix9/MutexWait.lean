import Posix9.Lib.Runs
import Posix9.Sync

/-! Mutual exclusion. A mutex is tested and taken between two yields, so at most one thread has it; a
    condition wait gives its mutex back before it first yields and takes it again before it returns,
    whichever way it ends. Who has a mutex is what the calls have told: a lock or a trylock that returned
    0, a wait that returned. So a call that returns without the mutex breaks the law. -/

namespace Posix9.SyncState
open Runs

variable {τ : Type} [DecidableEq τ] {self : τ → ℕ} {s s' : SyncState τ} {t u : τ} {w : CondWait}
  {m : MutexAddr} {k : Locking} {n : ℕ}

/-! ### The law -/

/-- At most one thread has the mutex; `locked` says whether one does, and `owner` which. -/
structure MutexLaw (pthread_self : τ → ℕ) (s : SyncState τ) (m : MutexAddr) : Prop where
  one : ∀ t u, s.held m t = true → s.held m u = true → t = u
  locked : (s.mutexes m).locked = 1 ↔ ∃ t, s.held m t = true
  owner : ∀ t, s.held m t = true → (s.mutexes m).owner = pthread_self t

def Exclusive (self : τ → ℕ) (s : SyncState τ) : Prop := ∀ m, s.MutexLaw self m

/-- Mutexes are given back, and passed to condition waits, by the thread that has them. -/
def ByHolder (s : SyncState τ) : SyncInput τ → Prop
  | .call t (.pthread_mutex_unlock m) _ | .call t (.pthread_cond_wait _ m) _
  | .call t (.pthread_cond_timedwait _ m _ _) _ => s.place t = .program → s.held (.mutex m) t = true
  | _ => True

instance (s : SyncState τ) : (a : SyncInput τ) → Decidable (s.ByHolder a)
  | .call t (.pthread_mutex_unlock m) _ | .call t (.pthread_cond_wait _ m) _
  | .call t (.pthread_cond_timedwait _ m _ _) _ =>
    inferInstanceAs (Decidable (s.place t = .program → s.held (.mutex m) t = true))
  | .call _ (.pthread_mutex_lock _) _ | .call _ (.pthread_mutex_trylock _) _
  | .call _ (.pthread_cond_signal _) _ | .call _ (.pthread_cond_broadcast _) _
  | .call _ (.pthread_rwlock_rdlock _) _ | .call _ (.pthread_rwlock_tryrdlock _) _
  | .call _ (.pthread_rwlock_wrlock _) _ | .call _ (.pthread_rwlock_trywrlock _) _
  | .call _ (.pthread_rwlock_unlock _) _ | .resume .. => .isTrue trivial

/-- The thread is in a condition wait that was passed the mutex `n`. -/
def WaitingWith (n : ℕ) : Place → Prop
  | .waiting w | .locking (.wait w _) => w.mutex = n
  | _ => False

/-- The step is the first of a condition wait that is passed the mutex `n`, or a later one. -/
def WaitStep (s : SyncState τ) (n : ℕ) : SyncInput τ → Prop
  | .call t (.pthread_cond_wait _ m) _ | .call t (.pthread_cond_timedwait _ m _ _) _ =>
    s.place t = .program ∧ m = n
  | .call .. => False
  | .resume t _ => WaitingWith n (s.place t)

/-- The step is of a call of pthread_mutex_lock or pthread_mutex_trylock on `n`: its first, or a later
    one. -/
def LockStep (s : SyncState τ) (n : ℕ) : SyncInput τ → Prop
  | .call t (.pthread_mutex_lock m) _ | .call t (.pthread_mutex_trylock m) _ => s.place t = .program ∧ m = n
  | .call .. => False
  | .resume t _ => s.place t = .locking (.program n)

/-- What a step of such a wait does: where the wait returns, the thread has the mutex, and no other mutex
    is touched. -/
structure WaitKeeps (pthread_self : τ → ℕ) (s s' : SyncState τ) (t : τ) (n : ℕ) : Prop where
  returns : s'.place t = .program →
    s'.held (.mutex n) t = true ∧ s'.mutexes (.mutex n) = ⟨1, pthread_self t⟩
  mutexes : ∀ m, m ≠ .mutex n → s'.mutexes m = s.mutexes m
  held : ∀ m, m ≠ .mutex n → s'.held m = s.held m

/-- What a step of a lock or a trylock does: where the call returns 0, the thread has the mutex, which was
    free; where it returns something else or has to wait, the mutex and who has it stay as they are. -/
structure LockKeeps (pthread_self : τ → ℕ) (s s' : SyncState τ) (t : τ) (n : ℕ) : Prop where
  acquires : s'.answer t = some 0 → (s.mutexes (.mutex n)).locked = 0 ∧
    s'.held (.mutex n) t = true ∧ s'.mutexes (.mutex n) = ⟨1, pthread_self t⟩
  refused : s'.answer t ≠ some 0 →
    s'.mutexes (.mutex n) = s.mutexes (.mutex n) ∧ s'.held (.mutex n) = s.held (.mutex n)
  mutexes : ∀ m, m ≠ .mutex n → s'.mutexes m = s.mutexes m
  held : ∀ m, m ≠ .mutex n → s'.held m = s.held m

/-! ### What a step does to the mutexes -/

/-- The step starts a call that gives the mutex `n` back. -/
def GivesBack (s : SyncState τ) (a : SyncInput τ) (n : ℕ) : Prop :=
  match a with
  | .call t (.pthread_mutex_unlock m) _ | .call t (.pthread_cond_wait _ m) _
  | .call t (.pthread_cond_timedwait _ m _ _) _ => s.place t = .program ∧ m = n
  | _ => False

omit [DecidableEq τ] in
theorem ByHolder.has {a : SyncInput τ} (hC : s.ByHolder a) (hgives : s.GivesBack a n) :
    s.held (.mutex n) a.thread = true := by
  cases a with
  | resume t now => exact hgives.elim
  | call t c now =>
    cases c with
    | pthread_mutex_unlock m | pthread_cond_wait c m | pthread_cond_timedwait c m tv_sec ticks =>
      obtain ⟨hplace, rfl⟩ := hgives
      exact hC hplace
    | pthread_mutex_lock | pthread_mutex_trylock | pthread_cond_signal | pthread_cond_broadcast
    | pthread_rwlock_rdlock | pthread_rwlock_tryrdlock | pthread_rwlock_wrlock | pthread_rwlock_trywrlock
    | pthread_rwlock_unlock => exact hgives.elim

/-- The mutexes after a step of the thread `id`, and the change it makes of who has one; `gives` are the
    mutexes that its call gives back. -/
inductive Touches (id : ℕ) (gives : ℕ → Prop) (x : MutexAddr → Mutex) :
    (MutexAddr → Mutex) → Option (MutexAddr × Bool) → Prop where
  | nothing : Touches id gives x x none
  /-- An operation on a read-write lock takes the lock's mutex and gives it back. -/
  | borrow (l : ℕ) (hfree : (x (.rwlock l)).locked = 0) :
    Touches id gives x (Function.update x (.rwlock l) ⟨0, 0⟩) none
  | take (n : ℕ) (hfree : (x (.mutex n)).locked = 0) :
    Touches id gives x (Function.update x (.mutex n) ⟨1, id⟩) (some (.mutex n, true))
  | release (n : ℕ) (hgives : gives n) :
    Touches id gives x (Function.update x (.mutex n) ⟨0, 0⟩) (some (.mutex n, false))
  /-- A condition wait that finds its mutex free as soon as it has given it back. -/
  | retake (n : ℕ) (hgives : gives n) :
    Touches id gives x (Function.update x (.mutex n) ⟨1, id⟩) (some (.mutex n, true))

variable {gives : ℕ → Prop}

omit [DecidableEq τ] in
/-- The mutex of a read-write lock is taken and given back. -/
theorem take_unlock (self : τ → ℕ) (s : SyncState τ) (t : τ) (m : MutexAddr) :
    ((s.take self t m).pthread_mutex_unlock m).mutexes = Function.update s.mutexes m ⟨0, 0⟩ :=
  Function.update_idem ..

/-- What the caller of pthread_mutex_lock leaves behind when it has found the mutex free. -/
theorem locked_touches (self : τ → ℕ) (s : SyncState τ) (t : τ) (k : Locking)
    (hfree : (s.mutexes k.mutex).locked = 0) :
    Touches (self t) gives s.mutexes ((s.take self t k.mutex).locked self t k).mutexes
      (k.call.passes false (((s.take self t k.mutex).locked self t k).answer t)) := by
  have hborrow : ∀ {r : SyncState τ} {c : SyncCall} {l : ℕ}, (s.mutexes (.rwlock l)).locked = 0 →
      r.mutexes = ((s.take self t (.rwlock l)).pthread_mutex_unlock (.rwlock l)).mutexes →
      c.passes false (r.answer t) = none →
      Touches (self t) gives s.mutexes r.mutexes (c.passes false (r.answer t)) := by
    intro r c l hfree hr hc
    rw [hr, hc, take_unlock]
    exact .borrow l hfree
  cases k with
  | program n =>
    rw [locked, return_answer]
    exact .take n hfree
  | wait w v =>
    rw [locked, return_answer]
    exact .take w.mutex hfree
  | rdlock l =>
    rw [locked]
    split <;> exact hborrow hfree rfl rfl
  | wrlock l =>
    rw [locked]
    split <;> exact hborrow hfree rfl rfl
  | unlock l =>
    rw [locked]
    dsimp only
    split
    · exact hborrow hfree rfl rfl
    · split <;> exact hborrow hfree rfl rfl

theorem lock_touches (self : τ → ℕ) (s : SyncState τ) (t : τ) (k : Locking) :
    Touches (self t) gives s.mutexes (s.pthread_mutex_lock self t k).mutexes
      (k.call.passes false ((s.pthread_mutex_lock self t k).answer t)) := by
  rw [pthread_mutex_lock]
  split
  · rename_i hfree
    exact locked_touches self s t k hfree
  · rw [goTo_answer (by simp)]
    cases k <;> exact .nothing

theorem trylock_touches (self : τ → ℕ) (s : SyncState τ) (t : τ) (n : ℕ) :
    Touches (self t) gives s.mutexes ((s.pthread_mutex_trylock self t (.mutex n)).2.return_ t
      (s.pthread_mutex_trylock self t (.mutex n)).1).mutexes
      (SyncCall.passes true (some (s.pthread_mutex_trylock self t (.mutex n)).1)
        (.pthread_mutex_trylock n)) := by
  rw [pthread_mutex_trylock]
  split
  · rename_i hfree
    exact .take n hfree
  · exact .nothing

omit [DecidableEq τ] in
theorem tryrdlock_touches (self : τ → ℕ) (s : SyncState τ) (t : τ) (l : ℕ) :
    Touches (self t) gives s.mutexes (s.pthread_rwlock_tryrdlock self t l).2.mutexes none := by
  rw [pthread_rwlock_tryrdlock, pthread_mutex_trylock]
  rcases eq_or_ne (s.mutexes (.rwlock l)).locked 0 with hfree | htaken
  · have hborrow : Touches (self t) gives s.mutexes _ _ := .borrow l hfree
    rw [← take_unlock self s t] at hborrow
    rw [if_pos hfree]
    dsimp only
    rw [if_neg (by decide)]
    split <;> exact hborrow
  · rw [if_neg htaken]
    exact .nothing

omit [DecidableEq τ] in
theorem trywrlock_touches (self : τ → ℕ) (s : SyncState τ) (t : τ) (l : ℕ) :
    Touches (self t) gives s.mutexes (s.pthread_rwlock_trywrlock self t l).2.mutexes none := by
  rw [pthread_rwlock_trywrlock, pthread_mutex_trylock]
  rcases eq_or_ne (s.mutexes (.rwlock l)).locked 0 with hfree | htaken
  · have hborrow : Touches (self t) gives s.mutexes _ _ := .borrow l hfree
    rw [← take_unlock self s t] at hborrow
    rw [if_pos hfree]
    dsimp only
    rw [if_neg (by decide)]
    split <;> exact hborrow
  · rw [if_neg htaken]
    exact .nothing

/-- A wait from the test of its loop on: it stays, or takes its mutex if it is free. -/
theorem waitLoop_touches (self : τ → ℕ) (s : SyncState τ) (t : τ) (w : CondWait) (now : ℕ) :
    Touches (self t) gives s.mutexes (s.waitLoop self t w now).mutexes
      (SyncCall.passes false ((s.waitLoop self t w now).answer t) (.pthread_cond_wait w.cond w.mutex)) := by
  rcases waitLoop_cases self s t w now with ⟨-, heq⟩ | ⟨x, v, heq, -⟩
  · rw [heq, goTo_answer (by simp)]
    exact .nothing
  · rw [heq]
    exact lock_touches self (s.setCond w.cond x) t (.wait w v)

/-- A wait from its start on: its mutex is given back, and taken again if the wait is over at once. -/
theorem enterWait_touches (self : τ → ℕ) (s : SyncState τ) (t : τ) (w : CondWait) (now : ℕ)
    (hgives : gives w.mutex) :
    Touches (self t) gives s.mutexes ((s.enterWait t w).waitLoop self t w now).mutexes
      (SyncCall.passes true (((s.enterWait t w).waitLoop self t w now).answer t)
        (.pthread_cond_wait w.cond w.mutex)) := by
  rcases waitLoop_cases self (s.enterWait t w) t w now with ⟨-, heq⟩ | ⟨x, v, heq, -⟩
  · rw [heq, goTo_answer (by simp)]
    exact .release w.mutex hgives
  · have hfree : (((s.enterWait t w).setCond w.cond x).mutexes (.mutex w.mutex)).locked = 0 := by
      simp [SyncState.enterWait, goTo, pthread_mutex_unlock, setCond]
    rw [heq, pthread_mutex_lock, if_pos (by exact hfree), locked, return_answer]
    have hretake : Touches (self t) gives s.mutexes _ _ := .retake w.mutex hgives
    rw [← Function.update_idem (v := ⟨0, 0⟩)] at hretake
    exact hretake

/-- One step, whoever has the mutex. -/
theorem turn_touches (self : τ → ℕ) (s : SyncState τ) (a : SyncInput τ) :
    Touches (self a.thread) (s.GivesBack a) s.mutexes (s.turn self a).mutexes (s.passes self a) := by
  rw [passes]
  cases a with
  | call t c now =>
    rw [turn, callOf]
    split
    · rename_i hplace
      dsimp only [SyncInput.thread, SyncInput.starts, Option.bind_some]
      cases c with
      | pthread_mutex_lock n => exact lock_touches self s t (.program n)
      | pthread_mutex_trylock n =>
        rw [exec, return_answer]
        exact trylock_touches self s t n
      | pthread_mutex_unlock n =>
        rw [exec, return_answer]
        exact .release n ⟨hplace, rfl⟩
      | pthread_cond_wait c n => exact enterWait_touches self s t _ now ⟨hplace, rfl⟩
      | pthread_cond_timedwait c n tv_sec ticks => exact enterWait_touches self s t _ now ⟨hplace, rfl⟩
      | pthread_cond_signal c =>
        rw [exec, pthread_cond_signal]
        split <;> exact .nothing
      | pthread_cond_broadcast c =>
        rw [exec, pthread_cond_broadcast]
        split <;> exact .nothing
      | pthread_rwlock_rdlock l => exact lock_touches self s t (.rdlock l)
      | pthread_rwlock_tryrdlock l => exact tryrdlock_touches self s t l
      | pthread_rwlock_wrlock l => exact lock_touches self s t (.wrlock l)
      | pthread_rwlock_trywrlock l => exact trywrlock_touches self s t l
      | pthread_rwlock_unlock l => exact lock_touches self s t (.unlock l)
    · exact .nothing
  | resume t now =>
    rw [turn, callOf]
    dsimp only [SyncInput.thread, SyncInput.starts]
    cases s.place t with
    | program => exact .nothing
    | locking k => exact lock_touches self s t k
    | waiting w => exact waitLoop_touches self s t w now

/-! ### What keeps the law -/

/-- A mutex that is not locked is had by nobody; a locked one by its owner alone. -/
structure Excludes (pthread_self : τ → ℕ) (s : SyncState τ) (m : MutexAddr) : Prop where
  free : (s.mutexes m).locked = 0 → ∀ t, s.held m t = false
  taken : (s.mutexes m).locked ≠ 0 → (s.mutexes m).locked = 1 ∧
    ∃ t, s.held m t = true ∧ (s.mutexes m).owner = pthread_self t ∧ ∀ u, s.held m u = true → u = t

omit [DecidableEq τ] in
theorem Excludes.law (h : s.Excludes self m) : s.MutexLaw self m := by
  rcases eq_or_ne (s.mutexes m).locked 0 with hfree | htaken
  · have hnone : ∀ t, ¬ s.held m t = true := fun t ht => by simp [h.free hfree t] at ht
    refine ⟨fun t u ht => absurd ht (hnone t), ?_, fun t ht => absurd ht (hnone t)⟩
    rw [hfree]
    exact ⟨fun habs => (by cases habs), fun ⟨t, ht⟩ => absurd ht (hnone t)⟩
  · obtain ⟨hone, o, ho, howner, honly⟩ := h.taken htaken
    refine ⟨?_, ⟨fun _ => ⟨o, ho⟩, fun _ => hone⟩, ?_⟩
    · intro t u ht hu
      rw [honly t ht, honly u hu]
    · intro t ht
      rw [honly t ht]
      exact howner

omit [DecidableEq τ] in
theorem Excludes.congr (h : s.Excludes self m) (hmutex : s'.mutexes m = s.mutexes m)
    (hheld : s'.held m = s.held m) : s'.Excludes self m := by
  refine ⟨?_, ?_⟩
  · rw [hmutex, hheld]
    exact h.free
  · rw [hmutex, hheld]
    exact h.taken

omit [DecidableEq τ] in
theorem Excludes.start : (SyncState.start : SyncState τ).Excludes self m :=
  ⟨fun _ _ => rfl, fun htaken => absurd rfl htaken⟩

/-- A thread takes a mutex that no other thread has. -/
theorem Excludes.take (hmutex : s'.mutexes m = ⟨1, self t⟩)
    (hheld : s'.held m = Function.update (s.held m) t true) (hnobody : ∀ u, u ≠ t → s.held m u = false) :
    s'.Excludes self m := by
  refine ⟨fun habs => ?_, fun _ => ⟨by rw [hmutex], t, ?_, by rw [hmutex], ?_⟩⟩
  · rw [hmutex] at habs
    cases habs
  · rw [hheld, Function.update_self]
  · intro u hu
    by_contra hother
    rw [hheld, Function.update_of_ne hother, hnobody u hother] at hu
    cases hu

/-- The thread that has a mutex gives it back. -/
theorem Excludes.release (hmutex : s'.mutexes m = ⟨0, 0⟩)
    (hheld : s'.held m = Function.update (s.held m) t false) (hnobody : ∀ u, u ≠ t → s.held m u = false) :
    s'.Excludes self m := by
  refine ⟨fun _ u => ?_, fun htaken => ?_⟩
  · rw [hheld]
    rcases eq_or_ne u t with rfl | hother
    · rw [Function.update_self]
    · rw [Function.update_of_ne hother]
      exact hnobody u hother
  · rw [hmutex] at htaken
    exact absurd rfl htaken

omit [DecidableEq τ] in
/-- Where a thread has the mutex, no other has it. -/
theorem Excludes.others (h : s.Excludes self m) (ht : s.held m t = true) (hne : u ≠ t) :
    s.held m u = false := by
  by_contra hu
  exact hne (h.law.one u t (by simpa using hu) ht)

/-- A step of a thread that gives back only what it has. -/
theorem Excludes.touch {change : Option (MutexAddr × Bool)} (h : s.Excludes self m)
    (htouch : Touches (self t) gives s.mutexes s'.mutexes change)
    (hgives : ∀ n, gives n → s.held (.mutex n) t = true)
    (hheld : s'.held m = Function.update (s.held m) t (passed change m (s.held m t))) :
    s'.Excludes self m := by
  have hnobody : (s.mutexes m).locked = 0 → ∀ u, u ≠ t → s.held m u = false :=
    fun hfree u _ => h.free hfree u
  have hothers : ∀ n, gives n → m = .mutex n → ∀ u, u ≠ t → s.held m u = false :=
    fun n hn heq u hne => h.others (by rw [heq]; exact hgives n hn) hne
  have hsame : ∀ {y : MutexAddr} {x : Mutex} {b : Bool}, m ≠ y → change = some (y, b) →
      s'.mutexes = Function.update s.mutexes y x → s'.Excludes self m := by
    intro y x b hne hchange hmutexes
    refine h.congr (by rw [hmutexes, Function.update_of_ne hne]) ?_
    rw [hheld, hchange, passed, if_neg hne.symm, Function.update_eq_self]
  generalize hy : s'.mutexes = y at htouch
  cases htouch with
  | nothing =>
    refine h.congr (by rw [hy]) ?_
    rw [hheld, passed, Function.update_eq_self]
  | borrow l hfree =>
    have hkept : s'.held m = s.held m := by rw [hheld, passed, Function.update_eq_self]
    rcases eq_or_ne m (.rwlock l) with rfl | hne
    · refine ⟨fun _ u => by rw [hkept]; exact h.free hfree u, fun htaken => ?_⟩
      rw [hy, Function.update_self] at htaken
      exact absurd rfl htaken
    · exact h.congr (by rw [hy, Function.update_of_ne hne]) hkept
  | take n hfree =>
    rcases eq_or_ne m (.mutex n) with rfl | hne
    · rw [passed, if_pos rfl] at hheld
      exact .take (by rw [hy, Function.update_self]) hheld (hnobody hfree)
    · exact hsame hne rfl hy
  | release n hn =>
    rcases eq_or_ne m (.mutex n) with rfl | hne
    · rw [passed, if_pos rfl] at hheld
      exact .release (by rw [hy, Function.update_self]) hheld (hothers n hn rfl)
    · exact hsame hne rfl hy
  | retake n hn =>
    rcases eq_or_ne m (.mutex n) with rfl | hne
    · rw [passed, if_pos rfl] at hheld
      exact .take (by rw [hy, Function.update_self]) hheld (hothers n hn rfl)
    · exact hsame hne rfl hy

theorem Excludes.step (h : s.Excludes self m) {a : SyncInput τ} (hC : s.ByHolder a) :
    (s.step self a).Excludes self m :=
  h.touch (turn_touches self s a) (fun _ => hC.has) rfl

/-! ### Calls on one mutex -/

/-- A step whose call passes the mutex `n` at most leaves every other with those who have it. -/
theorem held_elsewhere {a : SyncInput τ} (hchange : ∀ y b, s.passes self a = some (y, b) → y = .mutex n)
    (hm : m ≠ .mutex n) : (s.step self a).held m = s.held m := by
  rw [step_held]
  rcases hpasses : s.passes self a with _ | ⟨y, b⟩
  · rw [passed, Function.update_eq_self]
  · rw [passed, if_neg (by rw [hchange y b hpasses]; exact hm.symm), Function.update_eq_self]

/-- Where the step passes the mutex `n`, it is the thread that has it or has it no longer. -/
theorem held_passed {a : SyncInput τ} {b : Bool} (hchange : s.passes self a = some (.mutex n, b)) :
    (s.step self a).held (.mutex n) a.thread = b := by
  rw [step_held, Function.update_self, hchange, passed, if_pos rfl]

theorem passes_wait (self : τ → ℕ) {a : SyncInput τ} (hwait : s.WaitStep n a) :
    s.passes self a =
      SyncCall.passes a.starts ((s.step self a).answer a.thread) (.pthread_cond_wait 0 n) := by
  rw [passes]
  cases a with
  | call t c now =>
    cases c with
    | pthread_cond_wait c m =>
      obtain ⟨hplace, rfl⟩ := hwait
      rw [callOf, if_pos hplace]
      rfl
    | pthread_cond_timedwait c m tv_sec ticks =>
      obtain ⟨hplace, rfl⟩ := hwait
      rw [callOf, if_pos hplace]
      rfl
    | pthread_mutex_lock | pthread_mutex_trylock | pthread_mutex_unlock | pthread_cond_signal
    | pthread_cond_broadcast | pthread_rwlock_rdlock | pthread_rwlock_tryrdlock | pthread_rwlock_wrlock
    | pthread_rwlock_trywrlock | pthread_rwlock_unlock => exact hwait.elim
  | resume t now =>
    rw [WaitStep] at hwait
    rw [callOf]
    cases hplace : s.place t with
    | program =>
      rw [hplace] at hwait
      exact hwait.elim
    | locking k =>
      rw [hplace] at hwait
      cases k with
      | wait w v =>
        obtain rfl : w.mutex = n := hwait
        rfl
      | program | rdlock | wrlock | unlock => exact hwait.elim
    | waiting w =>
      rw [hplace] at hwait
      obtain rfl : w.mutex = n := hwait
      rfl

/-- What a step of a wait does to the mutexes, whoever has them. -/
structure Relocks (pthread_self : τ → ℕ) (s s' : SyncState τ) (t : τ) (n : ℕ) : Prop where
  returns : s'.place t = .program → s'.mutexes (.mutex n) = ⟨1, pthread_self t⟩
  mutexes : ∀ m, m ≠ .mutex n → s'.mutexes m = s.mutexes m

/-- The last part of a wait: its mutex is taken if it is free. -/
theorem lock_relocks (self : τ → ℕ) (s : SyncState τ) (t : τ) (w : CondWait) (v : ℤ) :
    Relocks self s (s.pthread_mutex_lock self t (.wait w v)) t w.mutex := by
  rw [pthread_mutex_lock]
  split
  · exact ⟨fun _ => Function.update_self .., fun m hm => Function.update_of_ne hm _ _⟩
  · refine ⟨fun habs => ?_, fun _ _ => rfl⟩
    rw [goTo_self] at habs
    cases habs

theorem waitLoop_relocks (self : τ → ℕ) (s : SyncState τ) (t : τ) (w : CondWait) (now : ℕ) :
    Relocks self s (s.waitLoop self t w now) t w.mutex := by
  rcases waitLoop_cases self s t w now with ⟨-, heq⟩ | ⟨x, v, heq, -⟩
  · rw [heq]
    refine ⟨fun habs => ?_, fun _ _ => rfl⟩
    rw [goTo_self] at habs
    cases habs
  · rw [heq]
    have hlock := lock_relocks self (s.setCond w.cond x) t w v
    exact ⟨hlock.returns, hlock.mutexes⟩

theorem enterWait_relocks (self : τ → ℕ) (s : SyncState τ) (t : τ) (w : CondWait) (now : ℕ) :
    Relocks self s ((s.enterWait t w).waitLoop self t w now) t w.mutex := by
  have hloop := waitLoop_relocks self (s.enterWait t w) t w now
  refine ⟨hloop.returns, ?_⟩
  intro m hm
  exact (hloop.mutexes m hm).trans (Function.update_of_ne hm _ _)

theorem turn_relocks (self : τ → ℕ) {a : SyncInput τ} (hwait : s.WaitStep n a) :
    Relocks self s (s.turn self a) a.thread n := by
  cases a with
  | call t c now =>
    cases c with
    | pthread_cond_wait c m =>
      obtain ⟨hplace, rfl⟩ := hwait
      rw [turn, if_pos hplace]
      exact enterWait_relocks self s t _ now
    | pthread_cond_timedwait c m tv_sec ticks =>
      obtain ⟨hplace, rfl⟩ := hwait
      rw [turn, if_pos hplace]
      exact enterWait_relocks self s t _ now
    | pthread_mutex_lock | pthread_mutex_trylock | pthread_mutex_unlock | pthread_cond_signal
    | pthread_cond_broadcast | pthread_rwlock_rdlock | pthread_rwlock_tryrdlock | pthread_rwlock_wrlock
    | pthread_rwlock_trywrlock | pthread_rwlock_unlock => exact hwait.elim
  | resume t now =>
    rw [WaitStep] at hwait
    rw [turn]
    cases hplace : s.place t with
    | program =>
      rw [hplace] at hwait
      exact hwait.elim
    | locking k =>
      rw [hplace] at hwait
      cases k with
      | wait w v =>
        obtain rfl : w.mutex = n := hwait
        exact lock_relocks self s t w v
      | program | rdlock | wrlock | unlock => exact hwait.elim
    | waiting w =>
      rw [hplace] at hwait
      obtain rfl : w.mutex = n := hwait
      exact waitLoop_relocks self s t w now

theorem waitStep_keeps (self : τ → ℕ) (s : SyncState τ) (a : SyncInput τ) (n : ℕ)
    (hwait : s.WaitStep n a) : WaitKeeps self s (s.step self a) a.thread n := by
  have hrelocks := turn_relocks self hwait
  have hpasses := passes_wait self hwait
  refine ⟨fun hplace => ⟨held_passed ?_, hrelocks.returns hplace⟩, hrelocks.mutexes,
    fun m => held_elsewhere ?_⟩
  · rw [hpasses, SyncCall.passes, answer, if_pos hplace]
    rfl
  · intro y b hchange
    rw [hpasses, SyncCall.passes] at hchange
    split at hchange
    · cases hchange
      rfl
    · split at hchange <;> cases hchange
      rfl

/-- What a step of a lock or a trylock does to the mutexes, whoever has them. -/
structure Locks (pthread_self : τ → ℕ) (s s' : SyncState τ) (t : τ) (n : ℕ) : Prop where
  acquires : s'.answer t = some 0 →
    (s.mutexes (.mutex n)).locked = 0 ∧ s'.mutexes (.mutex n) = ⟨1, pthread_self t⟩
  refused : s'.answer t ≠ some 0 → s'.mutexes (.mutex n) = s.mutexes (.mutex n)
  mutexes : ∀ m, m ≠ .mutex n → s'.mutexes m = s.mutexes m

theorem lock_locks (self : τ → ℕ) (s : SyncState τ) (t : τ) (n : ℕ) :
    Locks self s (s.pthread_mutex_lock self t (.program n)) t n := by
  rw [pthread_mutex_lock]
  split
  · rename_i hfree
    refine ⟨fun _ => ⟨hfree, Function.update_self ..⟩, fun habs => ?_,
      fun m hm => Function.update_of_ne hm _ _⟩
    rw [locked, return_answer] at habs
    exact absurd rfl habs
  · refine ⟨fun habs => ?_, fun _ => rfl, fun _ _ => rfl⟩
    rw [goTo_answer (by simp)] at habs
    cases habs

theorem trylock_locks (self : τ → ℕ) (s : SyncState τ) (t : τ) (n : ℕ) :
    Locks self s ((s.pthread_mutex_trylock self t (.mutex n)).2.return_ t
      (s.pthread_mutex_trylock self t (.mutex n)).1) t n := by
  rw [pthread_mutex_trylock]
  split
  · rename_i hfree
    refine ⟨fun _ => ⟨hfree, Function.update_self ..⟩, fun habs => ?_,
      fun m hm => Function.update_of_ne hm _ _⟩
    rw [return_answer] at habs
    exact absurd rfl habs
  · refine ⟨fun habs => ?_, fun _ => rfl, fun _ _ => rfl⟩
    rw [return_answer] at habs
    cases habs

theorem passes_lock (self : τ → ℕ) {a : SyncInput τ} (hlock : s.LockStep n a) :
    s.passes self a =
      SyncCall.passes a.starts ((s.step self a).answer a.thread) (.pthread_mutex_lock n) := by
  rw [passes]
  cases a with
  | call t c now =>
    cases c with
    | pthread_mutex_lock m | pthread_mutex_trylock m =>
      obtain ⟨hplace, rfl⟩ := hlock
      rw [callOf, if_pos hplace]
      rfl
    | pthread_mutex_unlock | pthread_cond_wait | pthread_cond_timedwait | pthread_cond_signal
    | pthread_cond_broadcast | pthread_rwlock_rdlock | pthread_rwlock_tryrdlock | pthread_rwlock_wrlock
    | pthread_rwlock_trywrlock | pthread_rwlock_unlock => exact hlock.elim
  | resume t now =>
    rw [callOf, (hlock : s.place t = .locking (.program n))]
    rfl

theorem turn_locks (self : τ → ℕ) {a : SyncInput τ} (hlock : s.LockStep n a) :
    Locks self s (s.turn self a) a.thread n := by
  cases a with
  | call t c now =>
    cases c with
    | pthread_mutex_lock m =>
      obtain ⟨hplace, rfl⟩ := hlock
      rw [turn, if_pos hplace]
      exact lock_locks self s t m
    | pthread_mutex_trylock m =>
      obtain ⟨hplace, rfl⟩ := hlock
      rw [turn, if_pos hplace]
      exact trylock_locks self s t m
    | pthread_mutex_unlock | pthread_cond_wait | pthread_cond_timedwait | pthread_cond_signal
    | pthread_cond_broadcast | pthread_rwlock_rdlock | pthread_rwlock_tryrdlock | pthread_rwlock_wrlock
    | pthread_rwlock_trywrlock | pthread_rwlock_unlock => exact hlock.elim
  | resume t now =>
    rw [turn, (hlock : s.place t = .locking (.program n))]
    exact lock_locks self s t n

theorem lockStep_keeps (self : τ → ℕ) (s : SyncState τ) (a : SyncInput τ) (n : ℕ)
    (hlock : s.LockStep n a) : LockKeeps self s (s.step self a) a.thread n := by
  have hlocks := turn_locks self hlock
  have hpasses := passes_lock self hlock
  have hchange : ∀ y b, s.passes self a = some (y, b) → y = .mutex n := by
    intro y b hchange
    rw [hpasses, SyncCall.passes] at hchange
    split at hchange <;> cases hchange
    rfl
  refine ⟨fun hzero => ?_, fun hno => ⟨hlocks.refused hno, ?_⟩, hlocks.mutexes,
    fun m => held_elsewhere hchange⟩
  · obtain ⟨hfree, hmutex⟩ := hlocks.acquires hzero
    refine ⟨hfree, held_passed ?_, hmutex⟩
    rw [hpasses, SyncCall.passes, if_pos hzero]
  · rw [SyncCall.passes, if_neg hno] at hpasses
    rw [step_held, hpasses, passed, Function.update_eq_self]

/-- Where mutexes are given back by the threads that have them, every mutex excludes at every moment; a
    lock or a trylock that returns 0 leaves its caller the holder, and one that does not leaves the mutex
    alone; a condition wait returns, timed out or not, to a thread that has its mutex again; and neither
    touches any other. -/
theorem exclusive_through_waits (self : τ → ℕ) (inputs : List (SyncInput τ))
    (hC : Meets (step self) ByHolder start inputs) :
    Always (step self) (Exclusive self) start inputs ∧
    (∀ a n, (run (step self) start inputs).LockStep n a →
      LockKeeps self (run (step self) start inputs)
        ((run (step self) start inputs).step self a) a.thread n) ∧
    ∀ a n, (run (step self) start inputs).WaitStep n a →
      WaitKeeps self (run (step self) start inputs)
        ((run (step self) start inputs).step self a) a.thread n := by
  have hexcludes := always_of_meets (I := fun s => ∀ m, Excludes self s m)
    (fun s a h hCa m => (h m).step hCa) (fun _ => Excludes.start) hC
  refine ⟨hexcludes.mono fun s h m => (h m).law, ?_, ?_⟩
  · exact fun a n => lockStep_keeps self _ a n
  · exact fun a n => waitStep_keeps self _ a n

/-- A wait that has timed out while another thread has the mutex, and goes on when that has given it
    back. -/
theorem exclusive_through_waits_timed_out :
    ((run (step handles) start
      [.call 0 (.pthread_mutex_lock 0) 0, .call 0 (.pthread_cond_timedwait 0 0 1 0) 0,
        .call 1 (.pthread_mutex_lock 0) 0, .resume 0 60, .call 1 (.pthread_mutex_unlock 0) 0]).step
      handles (.resume 0 61)).held (.mutex 0) 0 = true :=
  (((exclusive_through_waits handles _ (by decide +kernel)).2.2 (.resume 0 61) 0
    (by exact (rfl : (0 : ℕ) = 0))).returns (by decide +kernel)).1

end Posix9.SyncState
