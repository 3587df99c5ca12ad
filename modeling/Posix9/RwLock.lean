import Posix9.Lib.Count
import Posix9.Lib.Runs
import Posix9.Sync

/-! Read-write locks. Every operation takes the mutex of the lock and gives it back before it yields or
    returns, so the mutex is free whenever another thread runs, and the try operations fail only because
    of those who have the lock. Who has it, and in which mode, is what the calls have told that returned
    0; the lock's own fields have to agree with them. -/

namespace Posix9.SyncState
open Count Runs

variable {τ : Type} [DecidableEq τ] {self : τ → ℕ} {s s' : SyncState τ} {t u : τ} {k : Locking}
  {l : ℕ} {x : RwLock} {mode : Option RwMode} {p : Place} {gets : Option (ℕ × Option RwMode)}

/-! ### What a step does to a lock -/

/-- What a call of pthread_mutex_lock is for, when it is made on behalf of the lock `l`. -/
def Coming (l : ℕ) : Place → Prop
  | .locking (.rdlock l') | .locking (.wrlock l') => l' = l
  | _ => False

/-- A step of `t` leaves the lock as `x` with its mutex free, and the thread at `p`. -/
structure Leaves (s s' : SyncState τ) (t : τ) (l : ℕ) (x : RwLock) (p : Place) : Prop where
  free : (s'.mutexes (.rwlock l)).locked = 0
  rwlock : s'.rwlocks l = x
  place : s'.place = Function.update s.place t p

/-- How a thread with `pthread_self() = id` changes a lock and what it has of it. -/
inductive Changes (id : ℕ) (x : RwLock) : Option RwMode → RwLock → Option RwMode → Prop where
  | same (mode : Option RwMode) : Changes id x mode x mode
  | read (hwriter : x.writer = 0) : Changes id x none { x with readers := x.readers + 1 } (some .read)
  | write (hreaders : ¬ x.readers > 0) (hwriter : x.writer = 0) :
    Changes id x none { x with writer := id } (some .write)
  | release (mode : RwMode) : Changes id x (some mode)
      (if x.writer = id then { x with writer := 0 }
        else if x.readers > 0 then { x with readers := x.readers - 1 } else x) none

/-- What the lock counts is who has it: some threads for reading, or one for writing. -/
structure Tallies [Fintype τ] (pthread_self : τ → ℕ) (x : RwLock) (held : τ → Option RwMode) : Prop where
  readers : x.readers = count (· = some .read) held
  alone : ∀ t, held t = some .write → x.writer = pthread_self t ∧ ∀ u, u ≠ t → held u = none
  unwritten : (∀ t, held t ≠ some .write) → x.writer = 0

/-- The lock is in order with its mutex free, and no thread comes to it that has it. -/
structure Agrees [Fintype τ] (pthread_self : τ → ℕ) (s : SyncState τ) (l : ℕ) : Prop where
  free : (s.mutexes (.rwlock l)).locked = 0
  tallies : Tallies pthread_self (s.rwlocks l) (s.rwHeld l)
  coming : ∀ t, Coming l (s.place t) → s.rwHeld l t = none
  releasing : ∀ t, s.place t ≠ .locking (.unlock l)

/-! ### The law -/

variable [Fintype τ]

omit [Fintype τ] in
/-- The step is of a call that acquires the lock in `mode`: its first, or a later one. -/
def Acquires (l : ℕ) (mode : RwMode) (s : SyncState τ) : SyncInput τ → Prop
  | .call t (.pthread_rwlock_rdlock r) _ | .call t (.pthread_rwlock_tryrdlock r) _ =>
    s.place t = .program ∧ r = l ∧ mode = .read
  | .call t (.pthread_rwlock_wrlock r) _ | .call t (.pthread_rwlock_trywrlock r) _ =>
    s.place t = .program ∧ r = l ∧ mode = .write
  | .call .. => False
  | .resume t _ => s.place t = .locking (.rdlock l) ∧ mode = .read ∨
    s.place t = .locking (.wrlock l) ∧ mode = .write

/-- Either one thread has the lock for writing and no other has it, or none has it for writing; the lock
    says which; an acquiring call that returns 0 has got the lock in its mode, and one that does not
    return 0 has got nothing; and the try operations fail for no other reason. -/
structure RwLaw (pthread_self : τ → ℕ) (s : SyncState τ) (l : ℕ) : Prop where
  one : ∀ t u, s.rwHeld l t = some .write → s.rwHeld l u = some .write → t = u
  apart : ∀ t u, s.rwHeld l t = some .write → s.rwHeld l u ≠ some .read
  readers : (s.rwlocks l).readers = count (· = some .read) (s.rwHeld l)
  writer : ∀ t, s.rwHeld l t = some .write → (s.rwlocks l).writer = pthread_self t
  unwritten : (∀ t, s.rwHeld l t ≠ some .write) → (s.rwlocks l).writer = 0
  free : (s.mutexes (.rwlock l)).locked = 0
  acquires : ∀ a mode, s.Acquires l mode a → (s.step pthread_self a).answer a.thread = some 0 →
    (s.step pthread_self a).rwHeld l a.thread = some mode
  refused : ∀ a mode, s.Acquires l mode a → (s.step pthread_self a).answer a.thread ≠ some 0 →
    (s.step pthread_self a).rwHeld l = s.rwHeld l
  tryrdlock : ∀ t now, s.place t = .program →
    ((s.step pthread_self (.call t (.pthread_rwlock_tryrdlock l) now)).result t = EBUSY ↔
      ∃ u, s.rwHeld l u = some .write)
  trywrlock : ∀ t now, s.place t = .program →
    ((s.step pthread_self (.call t (.pthread_rwlock_trywrlock l) now)).result t = EBUSY ↔
      ∃ u, s.rwHeld l u ≠ none)

omit [Fintype τ] in
/-- The lock is given back by threads that have it, and acquired by threads that do not. -/
def Orderly (l : ℕ) (s : SyncState τ) : SyncInput τ → Prop
  | .call t (.pthread_rwlock_rdlock r) _ | .call t (.pthread_rwlock_tryrdlock r) _
  | .call t (.pthread_rwlock_wrlock r) _ | .call t (.pthread_rwlock_trywrlock r) _ =>
    s.place t = .program → r = l → s.rwHeld l t = none
  | .call t (.pthread_rwlock_unlock r) _ => s.place t = .program → r = l → s.rwHeld l t ≠ none
  | _ => True

omit [Fintype τ] in
instance (l : ℕ) (s : SyncState τ) : (a : SyncInput τ) → Decidable (s.Orderly l a)
  | .call t (.pthread_rwlock_rdlock r) _ | .call t (.pthread_rwlock_tryrdlock r) _
  | .call t (.pthread_rwlock_wrlock r) _ | .call t (.pthread_rwlock_trywrlock r) _ =>
    inferInstanceAs (Decidable (s.place t = .program → r = l → s.rwHeld l t = none))
  | .call t (.pthread_rwlock_unlock r) _ =>
    inferInstanceAs (Decidable (s.place t = .program → r = l → s.rwHeld l t ≠ none))
  | .call _ (.pthread_mutex_lock _) _ | .call _ (.pthread_mutex_trylock _) _
  | .call _ (.pthread_mutex_unlock _) _ | .call _ (.pthread_cond_wait ..) _
  | .call _ (.pthread_cond_timedwait ..) _ | .call _ (.pthread_cond_signal _) _
  | .call _ (.pthread_cond_broadcast _) _ | .resume .. => .isTrue trivial

/-! ### Who has the lock -/

section Tallies

variable {held : τ → Option RwMode}

omit [DecidableEq τ] in
theorem Tallies.writer_iff (h : Tallies self x held) (hself : ∀ t, self t ≠ 0) :
    x.writer ≠ 0 ↔ ∃ u, held u = some .write := by
  constructor
  · intro hwriter
    by_contra hno
    push Not at hno
    exact hwriter (h.unwritten hno)
  · rintro ⟨u, hu⟩
    rw [(h.alone u hu).1]
    exact hself u

omit [DecidableEq τ] in
theorem Tallies.readers_iff (h : Tallies self x held) : x.readers > 0 ↔ ∃ u, held u = some .read := by
  rw [h.readers, ← count_pos (P := fun mode => mode = some RwMode.read)]
  exact Int.natCast_pos

omit [DecidableEq τ] in
theorem Tallies.busy_iff (h : Tallies self x held) (hself : ∀ t, self t ≠ 0) :
    x.readers > 0 ∨ x.writer ≠ 0 ↔ ∃ u, held u ≠ none := by
  rw [h.readers_iff, h.writer_iff hself]
  constructor
  · rintro (⟨u, hu⟩ | ⟨u, hu⟩) <;> exact ⟨u, by rw [hu]; simp⟩
  · rintro ⟨u, hu⟩
    rcases hmode : held u with _ | _ | _
    · exact absurd hmode hu
    · exact .inl ⟨u, hmode⟩
    · exact .inr ⟨u, hmode⟩

omit [DecidableEq τ] in
theorem Tallies.start : Tallies self PTHREAD_RWLOCK_INITIALIZER fun _ : τ => none := by
  have hnone : count (· = some RwMode.read) (fun _ : τ => none) = 0 :=
    count_eq_zero.mpr fun t ht => (by cases ht)
  refine ⟨?_, fun t ht => (by cases ht), fun _ => rfl⟩
  rw [hnone]
  rfl

/-- A thread that has nothing gets the lock for reading. -/
theorem Tallies.read (h : Tallies self x held) (hself : ∀ t, self t ≠ 0) (hwriter : x.writer = 0)
    (ht : held t = none) :
    Tallies self { x with readers := x.readers + 1 } (Function.update held t (some .read)) := by
  have hnobody : ∀ u, held u ≠ some .write := fun u hu =>
    (h.writer_iff hself).mpr ⟨u, hu⟩ hwriter
  have hcount := count_update_enter (P := fun mode => mode = some RwMode.read) (g := held) (i := t)
    (b := some .read) (by rw [ht]; simp) rfl
  refine ⟨?_, ?_, fun _ => hwriter⟩
  · have hreaders := h.readers
    rw [hcount]
    dsimp only
    omega
  · intro u hu
    rcases eq_or_ne u t with rfl | hne
    · rw [Function.update_self] at hu
      cases hu
    · rw [Function.update_of_ne hne] at hu
      exact absurd hu (hnobody u)

/-- A thread gets the lock for writing when nobody has it. -/
theorem Tallies.write (h : Tallies self x held) (hself : ∀ t, self t ≠ 0) (hreaders : ¬ x.readers > 0)
    (hwriter : x.writer = 0) (ht : held t = none) :
    Tallies self { x with writer := self t } (Function.update held t (some .write)) := by
  have hnobody : ∀ u, held u = none := by
    intro u
    rcases hu : held u with _ | _ | _
    · rfl
    · exact absurd (h.readers_iff.mpr ⟨u, hu⟩) hreaders
    · exact absurd hwriter ((h.writer_iff hself).mpr ⟨u, hu⟩)
  have hcount := count_update_same (P := fun mode => mode = some RwMode.read) (g := held) (i := t)
    (b := some .write) (by rw [ht]; simp)
  refine ⟨?_, ?_, ?_⟩
  · rw [hcount]
    exact h.readers
  · intro u hu
    rcases eq_or_ne u t with rfl | hne
    · refine ⟨rfl, fun v hv => ?_⟩
      rw [Function.update_of_ne hv]
      exact hnobody v
    · rw [Function.update_of_ne hne, hnobody u] at hu
      cases hu
  · intro hno
    exact absurd (Function.update_self ..) (hno t)

/-- A thread gives back what it has. -/
theorem Tallies.release (h : Tallies self x held) (hself : ∀ t, self t ≠ 0) (mode : RwMode)
    (ht : held t = some mode) :
    Tallies self (if x.writer = self t then { x with writer := 0 }
      else if x.readers > 0 then { x with readers := x.readers - 1 } else x)
      (Function.update held t none) := by
  have hothers : ∀ {P : Prop} {u : τ}, Function.update held t none u = some .write →
      (held u = some .write → u ≠ t → P) → P := by
    intro P u hu hP
    rcases eq_or_ne u t with rfl | hne
    · rw [Function.update_self] at hu
      cases hu
    · rw [Function.update_of_ne hne] at hu
      exact hP hu hne
  cases mode with
  | write =>
    obtain ⟨hwriter, halone⟩ := h.alone t ht
    have hcount := count_update_same (P := fun mode => mode = some RwMode.read) (g := held) (i := t)
      (b := none) (by rw [ht]; simp)
    rw [if_pos hwriter]
    refine ⟨?_, ?_, fun _ => rfl⟩
    · rw [hcount]
      exact h.readers
    · intro u hu
      refine hothers hu fun hwrites hne => ?_
      rw [halone u hne] at hwrites
      cases hwrites
  | read =>
    have hnobody : ∀ u, held u ≠ some .write := by
      intro u hu
      have hnone := (h.alone u hu).2 t (by rintro rfl; rw [ht] at hu; cases hu)
      rw [ht] at hnone
      cases hnone
    have hwriter := h.unwritten hnobody
    have hcount := count_update_leave (P := fun mode => mode = some RwMode.read) (g := held) (i := t)
      (b := none) ht (by simp)
    rw [if_neg (by rw [hwriter]; exact (hself t).symm), if_pos (h.readers_iff.mpr ⟨t, ht⟩)]
    refine ⟨?_, ?_, fun _ => hwriter⟩
    · have hreaders := h.readers
      dsimp only
      omega
    · intro u hu
      exact hothers hu fun hwrites _ => absurd hwrites (hnobody u)

theorem Tallies.change {x' : RwLock} (h : Tallies self x held) (hself : ∀ t, self t ≠ 0)
    (hchanges : Changes (self t) x (held t) x' mode) :
    Tallies self x' (Function.update held t mode) := by
  generalize hbefore : held t = before at hchanges
  cases hchanges with
  | same =>
    rw [← hbefore, Function.update_eq_self]
    exact h
  | read hwriter => exact h.read hself hwriter hbefore
  | write hreaders hwriter => exact h.write hself hreaders hwriter hbefore
  | release mode => exact h.release hself mode hbefore

end Tallies

/-! ### The operations -/

/-- What a step of `t` does to the lock is what the operations do, where the thread gets or gives back
    what `gets` says, and it does not come to a lock it has. -/
def Operates (self : τ → ℕ) (s s' : SyncState τ) (t : τ) (l : ℕ) (gets : Option (ℕ × Option RwMode)) :
    Prop :=
  ∃ x p, Leaves s s' t l x p ∧
    Changes (self t) (s.rwlocks l) (s.rwHeld l t) x (passed gets l (s.rwHeld l t)) ∧
    (Coming l p → passed gets l (s.rwHeld l t) = none) ∧ p ≠ .locking (.unlock l)

section Spares

omit [Fintype τ]

/-- The lock and its mutex stay as they are. -/
structure Spares (l : ℕ) (s s' : SyncState τ) : Prop where
  mutex : s'.mutexes (.rwlock l) = s.mutexes (.rwlock l)
  rwlock : s'.rwlocks l = s.rwlocks l

variable {q : SyncState τ} {m : MutexAddr} {r : ℕ}

omit [DecidableEq τ] in
theorem Spares.trans (h : Spares l s s') (h' : Spares l s' q) : Spares l s q :=
  ⟨h'.mutex.trans h.mutex, h'.rwlock.trans h.rwlock⟩

omit [DecidableEq τ] in
theorem take_spares (hm : m ≠ .rwlock l) : Spares l s (s.take self t m) :=
  ⟨Function.update_of_ne hm.symm _ _, rfl⟩

omit [DecidableEq τ] in
theorem unlock_spares (hm : m ≠ .rwlock l) : Spares l s (s.pthread_mutex_unlock m) :=
  ⟨Function.update_of_ne hm.symm _ _, rfl⟩

omit [DecidableEq τ] in
theorem setRwLock_spares (hr : r ≠ l) : Spares l s (s.setRwLock r x) :=
  ⟨rfl, Function.update_of_ne hr.symm _ _⟩

theorem goTo_spares : Spares l s (s.goTo t p) := ⟨rfl, rfl⟩

theorem return_spares {v : ℤ} : Spares l s (s.return_ t v) := ⟨rfl, rfl⟩

omit [DecidableEq τ] in
/-- An operation on another lock, once it has that lock's mutex. -/
theorem acquired_spares (hr : r ≠ l) : Spares l s ((s.setRwLock r x).pthread_mutex_unlock (.rwlock r)) :=
  (setRwLock_spares hr).trans (unlock_spares fun heq => hr (MutexAddr.rwlock.inj heq))

theorem locked_spares (hk : k.mutex ≠ .rwlock l) : Spares l s (s.locked self t k) := by
  cases k with
  | program | wait => exact ⟨rfl, rfl⟩
  | rdlock r =>
    have hr : r ≠ l := fun heq => hk (by rw [heq]; rfl)
    rw [locked]
    split
    · exact (unlock_spares hk).trans goTo_spares
    · exact (acquired_spares hr).trans return_spares
  | wrlock r =>
    have hr : r ≠ l := fun heq => hk (by rw [heq]; rfl)
    rw [locked]
    split
    · exact (unlock_spares hk).trans goTo_spares
    · exact (acquired_spares hr).trans return_spares
  | unlock r =>
    have hr : r ≠ l := fun heq => hk (by rw [heq]; rfl)
    rw [locked]
    dsimp only
    split
    · exact (acquired_spares hr).trans return_spares
    · split
      · exact (acquired_spares hr).trans return_spares
      · exact (unlock_spares hk).trans return_spares

theorem lock_spares (self : τ → ℕ) (s : SyncState τ) (t : τ) (hk : k.mutex ≠ .rwlock l) :
    Spares l s (s.pthread_mutex_lock self t k) := by
  rw [pthread_mutex_lock]
  split
  · exact (take_spares hk).trans (locked_spares hk)
  · exact goTo_spares

omit [DecidableEq τ] in
theorem trylock_spares (self : τ → ℕ) (s : SyncState τ) (t : τ) (hm : m ≠ .rwlock l) :
    Spares l s (s.pthread_mutex_trylock self t m).2 := by
  rw [pthread_mutex_trylock]
  split
  · exact take_spares hm
  · exact ⟨rfl, rfl⟩

omit [DecidableEq τ] in
theorem tryrdlock_spares (hr : r ≠ l) : Spares l s (s.pthread_rwlock_tryrdlock self t r).2 := by
  have hm : MutexAddr.rwlock r ≠ .rwlock l := fun heq => hr (MutexAddr.rwlock.inj heq)
  have htry := trylock_spares self s t hm
  rw [pthread_rwlock_tryrdlock]
  dsimp only
  split
  · exact htry
  · split
    · exact htry.trans (unlock_spares hm)
    · exact htry.trans (acquired_spares hr)

omit [DecidableEq τ] in
theorem trywrlock_spares (hr : r ≠ l) : Spares l s (s.pthread_rwlock_trywrlock self t r).2 := by
  have hm : MutexAddr.rwlock r ≠ .rwlock l := fun heq => hr (MutexAddr.rwlock.inj heq)
  have htry := trylock_spares self s t hm
  rw [pthread_rwlock_trywrlock]
  dsimp only
  split
  · exact htry
  · split
    · exact htry.trans (unlock_spares hm)
    · exact htry.trans (acquired_spares hr)

omit [DecidableEq τ] in
theorem setCond_spares {c : ℕ} {y : Cond} : Spares l s (s.setCond c y) := ⟨rfl, rfl⟩

theorem waitLoop_spares {w : CondWait} {now : ℕ} : Spares l s (s.waitLoop self t w now) := by
  have hleaves : ∀ y v, Spares l s ((s.setCond w.cond y).pthread_mutex_lock self t (.wait w v)) :=
    fun y v => setCond_spares.trans (lock_spares self _ t (by simp [Locking.mutex]))
  rw [waitLoop]
  split
  · cases w.endTicks with
    | none => exact goTo_spares
    | some endTicks =>
      dsimp only
      split
      · exact hleaves _ _
      · exact goTo_spares
  · exact hleaves _ _

theorem enterWait_spares {w : CondWait} : Spares l s (s.enterWait t w) :=
  (setCond_spares.trans (unlock_spares (by simp))).trans goTo_spares

omit [DecidableEq τ] in
theorem signal_spares {c : ℕ} : Spares l s (s.pthread_cond_signal c) := by
  rw [pthread_cond_signal]
  split <;> exact ⟨rfl, rfl⟩

omit [DecidableEq τ] in
theorem broadcast_spares {c : ℕ} : Spares l s (s.pthread_cond_broadcast c) := by
  rw [pthread_cond_broadcast]
  split <;> exact ⟨rfl, rfl⟩

end Spares

section Operates

omit [Fintype τ]

/-- A step that leaves the lock and who has it alone; the thread may come to a lock it does not have. -/
theorem Operates.unchanged (hfree : (s'.mutexes (.rwlock l)).locked = 0)
    (hrwlock : s'.rwlocks l = s.rwlocks l) (hgets : ∀ had, passed gets l had = had)
    (hplace : s'.place = Function.update s.place t p) (hcoming : Coming l p → s.rwHeld l t = none)
    (hp : p ≠ .locking (.unlock l)) : Operates self s s' t l gets := by
  refine ⟨s.rwlocks l, p, ⟨hfree, hrwlock, hplace⟩, ?_, ?_, hp⟩
  · rw [hgets]
    exact .same _
  · rw [hgets]
    exact hcoming

theorem Spares.operates (h : Spares l s s') (hfree : (s.mutexes (.rwlock l)).locked = 0)
    (hgets : ∀ had, passed gets l had = had) (hplace : s'.place = Function.update s.place t p)
    (hcoming : ¬ Coming l p) (hp : p ≠ .locking (.unlock l)) : Operates self s s' t l gets :=
  .unchanged (by rw [h.mutex]; exact hfree) h.rwlock hgets hplace (fun habs => absurd habs hcoming) hp

omit [DecidableEq τ] in
theorem unlock_free (s : SyncState τ) (m : MutexAddr) :
    ((s.pthread_mutex_unlock m).mutexes m).locked = 0 := by
  have hnew : (s.pthread_mutex_unlock m).mutexes m = ⟨0, 0⟩ := Function.update_self ..
  rw [hnew]

theorem lock_free (hfree : (s.mutexes k.mutex).locked = 0) :
    s.pthread_mutex_lock self t k = (s.take self t k.mutex).locked self t k := by
  rw [pthread_mutex_lock, if_pos hfree]

/-- The calls that acquire the lock, with the mode they acquire it in. -/
inductive AcquireCall (l : ℕ) : RwMode → SyncCall → Prop where
  | rdlock : AcquireCall l .read (.pthread_rwlock_rdlock l)
  | tryrdlock : AcquireCall l .read (.pthread_rwlock_tryrdlock l)
  | wrlock : AcquireCall l .write (.pthread_rwlock_wrlock l)
  | trywrlock : AcquireCall l .write (.pthread_rwlock_trywrlock l)

/-- An acquiring call gets the lock where it returns 0, and only there. -/
theorem AcquireCall.passed_eq {mode : RwMode} {c : SyncCall} (h : AcquireCall l mode c) (answer : Option ℤ)
    (had : Option RwMode) :
    passed (c.passesRw answer) l had = if answer = some 0 then some mode else had := by
  have hpassed : ∀ m : RwMode, passed (if answer = some 0 then some (l, some m) else none) l had =
      if answer = some 0 then some m else had := by
    intro m
    split
    · rw [passed, if_pos rfl]
    · rfl
  cases h <;> exact hpassed _

/-- The thread finds the lock taken: it yields, or fails. -/
theorem yields_operates (self : τ → ℕ) {c : SyncCall} {rw : RwMode} (hc : AcquireCall l rw c)
    (hnone : s.rwHeld l t = none) (hp : p ≠ .locking (.unlock l)) (hprogram : p ≠ .program) :
    Operates self s (((s.take self t (.rwlock l)).pthread_mutex_unlock (.rwlock l)).goTo t p) t l
      (c.passesRw ((((s.take self t (.rwlock l)).pthread_mutex_unlock (.rwlock l)).goTo t p).answer t)) := by
  refine .unchanged (unlock_free _ _) rfl (fun had => ?_) rfl (fun _ => hnone) hp
  rw [hc.passed_eq, goTo_answer hprogram, if_neg (by simp)]

theorem fails_operates (self : τ → ℕ) (s : SyncState τ) (t : τ) {c : SyncCall} {rw : RwMode}
    (hc : AcquireCall l rw c) {v : ℤ} (hv : v ≠ 0) :
    Operates self s (((s.take self t (.rwlock l)).pthread_mutex_unlock (.rwlock l)).return_ t v) t l
      (c.passesRw (some v)) := by
  refine .unchanged (p := .program) (unlock_free _ _) rfl (fun had => ?_) rfl (fun habs => habs.elim) (by simp)
  rw [hc.passed_eq, if_neg (by simpa using hv)]

/-- The lock is changed with its mutex taken, and the call returns. -/
theorem acquired_operates {v : ℤ}
    (hchanges : Changes (self t) (s.rwlocks l) (s.rwHeld l t) x (passed gets l (s.rwHeld l t))) :
    Operates self s ((((s.take self t (.rwlock l)).setRwLock l x).pthread_mutex_unlock
      (.rwlock l)).return_ t v) t l gets := by
  refine ⟨x, .program, ⟨?_, ?_, rfl⟩, hchanges, fun habs => habs.elim, by simp⟩
  · exact unlock_free ((s.take self t (.rwlock l)).setRwLock l x) (.rwlock l)
  · exact Function.update_self ..

theorem rdlock_operates (self : τ → ℕ) (hfree : (s.mutexes (.rwlock l)).locked = 0)
    (hnone : s.rwHeld l t = none) :
    Operates self s (s.pthread_mutex_lock self t (.rdlock l)) t l
      (SyncCall.passesRw ((s.pthread_mutex_lock self t (.rdlock l)).answer t) (.pthread_rwlock_rdlock l)) := by
  have hc : AcquireCall l .read (.pthread_rwlock_rdlock l) := .rdlock
  rw [lock_free hfree, locked]
  split
  · exact yields_operates self hc hnone (by simp) (by simp)
  · rename_i hwriter
    refine acquired_operates ?_
    rw [hc.passed_eq, return_answer, if_pos rfl, hnone]
    exact .read (not_not.mp hwriter)

theorem wrlock_operates (self : τ → ℕ) (hfree : (s.mutexes (.rwlock l)).locked = 0)
    (hnone : s.rwHeld l t = none) :
    Operates self s (s.pthread_mutex_lock self t (.wrlock l)) t l
      (SyncCall.passesRw ((s.pthread_mutex_lock self t (.wrlock l)).answer t) (.pthread_rwlock_wrlock l)) := by
  have hc : AcquireCall l .write (.pthread_rwlock_wrlock l) := .wrlock
  rw [lock_free hfree, locked]
  split
  · exact yields_operates self hc hnone (by simp) (by simp)
  · rename_i hbusy
    obtain ⟨hreaders, hwriter⟩ := not_or.mp hbusy
    refine acquired_operates ?_
    rw [hc.passed_eq, return_answer, if_pos rfl, hnone]
    exact .write hreaders (not_not.mp hwriter)

omit [DecidableEq τ] in
theorem setRwLock_eq_self (s : SyncState τ) (l : ℕ) : s.setRwLock l (s.rwlocks l) = s := by
  rw [setRwLock, Function.update_eq_self]

theorem rwunlock_operates (self : τ → ℕ) (hfree : (s.mutexes (.rwlock l)).locked = 0)
    {mode : RwMode} (hsome : s.rwHeld l t = some mode) :
    Operates self s (s.pthread_mutex_lock self t (.unlock l)) t l
      (SyncCall.passesRw ((s.pthread_mutex_lock self t (.unlock l)).answer t) (.pthread_rwlock_unlock l)) := by
  have hchanges : Changes (self t) (s.rwlocks l) (some mode) _ none := .release mode
  have hgets : passed (SyncCall.passesRw (some 0) (.pthread_rwlock_unlock l)) l (s.rwHeld l t) = none := by
    rw [SyncCall.passesRw, if_pos rfl, passed, if_pos rfl]
  rw [← hsome, ← hgets] at hchanges
  rw [lock_free hfree, locked]
  dsimp only
  rw [return_answer]
  split
  · rename_i hwriter
    rw [if_pos (by exact hwriter)] at hchanges
    exact acquired_operates hchanges
  · rename_i hwriter
    rw [if_neg (by exact hwriter)] at hchanges
    split
    · rename_i hreaders
      rw [if_pos (by exact hreaders)] at hchanges
      exact acquired_operates hchanges
    · rename_i hreaders
      rw [if_neg (by exact hreaders)] at hchanges
      have hreleased := acquired_operates (v := 0) hchanges
      rwa [show (s.take self t (.rwlock l)).setRwLock l (s.rwlocks l) = s.take self t (.rwlock l) from
        setRwLock_eq_self (s.take self t (.rwlock l)) l] at hreleased

omit [DecidableEq τ] in
/-- tryrdlock answers by who writes. -/
theorem tryrdlock_eq (self : τ → ℕ) (s : SyncState τ) (t : τ)
    (hfree : (s.mutexes (.rwlock l)).locked = 0) :
    s.pthread_rwlock_tryrdlock self t l =
      if (s.rwlocks l).writer ≠ 0 then
        (EBUSY, (s.take self t (.rwlock l)).pthread_mutex_unlock (.rwlock l))
      else (0, ((s.take self t (.rwlock l)).setRwLock l
        { s.rwlocks l with readers := (s.rwlocks l).readers + 1 }).pthread_mutex_unlock (.rwlock l)) := by
  rw [pthread_rwlock_tryrdlock, pthread_mutex_trylock, if_pos hfree]
  rfl

omit [DecidableEq τ] in
theorem trywrlock_eq (self : τ → ℕ) (s : SyncState τ) (t : τ)
    (hfree : (s.mutexes (.rwlock l)).locked = 0) :
    s.pthread_rwlock_trywrlock self t l =
      if (s.rwlocks l).readers > 0 ∨ (s.rwlocks l).writer ≠ 0 then
        (EBUSY, (s.take self t (.rwlock l)).pthread_mutex_unlock (.rwlock l))
      else (0, ((s.take self t (.rwlock l)).setRwLock l
        { s.rwlocks l with writer := self t }).pthread_mutex_unlock (.rwlock l)) := by
  rw [pthread_rwlock_trywrlock, pthread_mutex_trylock, if_pos hfree]
  rfl

theorem tryrdlock_operates (self : τ → ℕ) (hfree : (s.mutexes (.rwlock l)).locked = 0)
    (hnone : s.rwHeld l t = none) :
    Operates self s ((s.pthread_rwlock_tryrdlock self t l).2.return_ t
      (s.pthread_rwlock_tryrdlock self t l).1) t l
      (SyncCall.passesRw (some (s.pthread_rwlock_tryrdlock self t l).1) (.pthread_rwlock_tryrdlock l)) := by
  have hc : AcquireCall l .read (.pthread_rwlock_tryrdlock l) := .tryrdlock
  rw [tryrdlock_eq self s t hfree]
  split
  · exact fails_operates self s t hc (v := EBUSY) (by decide)
  · rename_i hwriter
    refine acquired_operates ?_
    rw [hc.passed_eq, if_pos rfl, hnone]
    exact .read (not_not.mp hwriter)

theorem trywrlock_operates (self : τ → ℕ) (hfree : (s.mutexes (.rwlock l)).locked = 0)
    (hnone : s.rwHeld l t = none) :
    Operates self s ((s.pthread_rwlock_trywrlock self t l).2.return_ t
      (s.pthread_rwlock_trywrlock self t l).1) t l
      (SyncCall.passesRw (some (s.pthread_rwlock_trywrlock self t l).1) (.pthread_rwlock_trywrlock l)) := by
  have hc : AcquireCall l .write (.pthread_rwlock_trywrlock l) := .trywrlock
  rw [trywrlock_eq self s t hfree]
  split
  · exact fails_operates self s t hc (v := EBUSY) (by decide)
  · rename_i hbusy
    obtain ⟨hreaders, hwriter⟩ := not_or.mp hbusy
    refine acquired_operates ?_
    rw [hc.passed_eq, if_pos rfl, hnone]
    exact .write hreaders (not_not.mp hwriter)

/-! ### Other objects -/

/-- A call on another lock, or on none, changes nothing in who has this one. -/
theorem gets_elsewhere (hk : k.mutex ≠ .rwlock l) (answer : Option ℤ) (had : Option RwMode) :
    passed (k.call.passesRw answer) l had = had := by
  have hother : ∀ r mode, MutexAddr.rwlock r ≠ .rwlock l →
      passed (if answer = some 0 then some (r, mode) else none) l had = had := by
    intro r mode hr
    split
    · rw [passed, if_neg fun heq => hr (congrArg MutexAddr.rwlock heq)]
    · rfl
  cases k with
  | program | wait => rfl
  | rdlock r | wrlock r | unlock r => exact hother r _ hk

/-- A call that takes some other mutex. -/
theorem lock_elsewhere (self : τ → ℕ) (t : τ) (hk : k.mutex ≠ .rwlock l)
    (hfree : (s.mutexes (.rwlock l)).locked = 0) :
    Operates self s (s.pthread_mutex_lock self t k) t l
      (k.call.passesRw ((s.pthread_mutex_lock self t k).answer t)) := by
  have hspares := lock_spares self s t hk
  rcases (lock_outside self s t k).place with hplace | ⟨k', hk', hplace⟩
  · exact hspares.operates hfree (gets_elsewhere hk _) hplace id (by simp)
  · obtain rfl := Option.mem_some.mp hk'
    refine hspares.operates hfree (gets_elsewhere hk _) hplace (fun hcoming => ?_) (fun heq => ?_)
    · cases k with
      | rdlock r | wrlock r => exact hk (by rw [← (hcoming : r = l)]; rfl)
      | program | wait | unlock => exact hcoming
    · rw [Place.locking.inj heq] at hk
      exact hk rfl

/-- A call that returns at once and leaves the lock alone. -/
theorem Spares.returns (h : Spares l s s') (hfree : (s.mutexes (.rwlock l)).locked = 0)
    (hgets : ∀ had, passed gets l had = had) (hout : Outside s s' t none) : Operates self s s' t l gets := by
  rcases hout.place with hplace | ⟨k, hk, -⟩
  · exact h.operates hfree hgets hplace id (by simp)
  · cases hk

/-- A try on another lock. -/
theorem try_elsewhere {r : ℕ} (hr : r ≠ l) {c : SyncCall} {rw : RwMode} (hc : AcquireCall r rw c)
    (answer : Option ℤ) (had : Option RwMode) : passed (c.passesRw answer) l had = had := by
  have hk : (Locking.rdlock r).mutex ≠ .rwlock l := fun heq => hr (MutexAddr.rwlock.inj heq)
  cases hc with
  | rdlock | tryrdlock => exact gets_elsewhere (k := .rdlock r) hk answer had
  | wrlock | trywrlock => exact gets_elsewhere (k := .wrlock r) hk answer had

/-- A wait from the test of its loop on leaves the thread outside the lock. -/
theorem waitLoop_operates (self : τ → ℕ) (t : τ) (w : CondWait) (now : ℕ)
    (hfree : (s.mutexes (.rwlock l)).locked = 0) (hgets : ∀ had, passed gets l had = had) :
    Operates self s (s.waitLoop self t w now) t l gets := by
  have hspares : Spares l s (s.waitLoop self t w now) := waitLoop_spares
  rcases waitLoop_cases self s t w now with ⟨-, heq⟩ | ⟨x, v, heq, -⟩
  · rw [heq] at hspares ⊢
    exact hspares.operates hfree hgets rfl id (by simp)
  · rw [heq] at hspares ⊢
    rcases (lock_outside self (s.setCond w.cond x) t (.wait w v)).place with hplace | ⟨k', hk', hplace⟩
    · exact hspares.operates hfree hgets hplace id (by simp)
    · obtain rfl := Option.mem_some.mp hk'
      exact hspares.operates hfree hgets hplace id (by simp)

/-- A wait, up to where it goes to sleep or has its mutex again. -/
theorem enterWait_operates (self : τ → ℕ) (t : τ) (w : CondWait) (now : ℕ)
    (hfree : (s.mutexes (.rwlock l)).locked = 0) (hgets : ∀ had, passed gets l had = had) :
    Operates self s ((s.enterWait t w).waitLoop self t w now) t l gets := by
  have henter : Spares l s (s.enterWait t w) := enterWait_spares
  have hloop : Operates self (s.enterWait t w) ((s.enterWait t w).waitLoop self t w now) t l gets :=
    waitLoop_operates self t w now (by rw [henter.mutex]; exact hfree) hgets
  obtain ⟨x, p, hleaves, hchanges, hcoming, hp⟩ := hloop
  refine ⟨x, p, ⟨hleaves.free, hleaves.rwlock, ?_⟩, ?_, hcoming, hp⟩
  · rw [hleaves.place, enterWait_place, Function.update_idem]
  · rw [← henter.rwlock]
    exact hchanges

end Operates

/-! ### Runs -/

omit [DecidableEq τ] in
theorem Agrees.start : (SyncState.start : SyncState τ).Agrees self l :=
  ⟨rfl, Tallies.start, fun t ht => ht.elim, fun t ht => (by cases ht)⟩

omit [Fintype τ] in
theorem turn_called (hfree : (s.mutexes (.rwlock l)).locked = 0) (hplace : s.place t = .program)
    (c : SyncCall) (now : ℕ) (hC : s.Orderly l (.call t c now)) :
    Operates self s (s.exec self t now c) t l (c.passesRw ((s.exec self t now c).answer t)) := by
  have hgets : ∀ had : Option RwMode, passed none l had = had := fun _ => rfl
  cases c with
  | pthread_mutex_lock n => exact lock_elsewhere self t (k := .program n) (by simp [Locking.mutex]) hfree
  | pthread_mutex_trylock n =>
    exact ((trylock_spares self s t (by simp)).trans return_spares).returns hfree hgets
      (trylock_outside self s t _ _)
  | pthread_mutex_unlock n =>
    exact ((unlock_spares (by simp)).trans return_spares).returns hfree hgets ⟨rfl, rfl, .inl rfl, .inl rfl⟩
  | pthread_cond_wait c n => exact enterWait_operates self t _ now hfree hgets
  | pthread_cond_timedwait c n tv_sec ticks => exact enterWait_operates self t _ now hfree hgets
  | pthread_cond_signal c =>
    refine (signal_spares.trans return_spares).operates (t := t) (p := .program) hfree hgets ?_ id (by simp)
    exact congrArg (Function.update · t .program) signal_place
  | pthread_cond_broadcast c =>
    refine (broadcast_spares.trans return_spares).operates (t := t) (p := .program) hfree hgets ?_ id (by simp)
    exact congrArg (Function.update · t .program) broadcast_place
  | pthread_rwlock_rdlock r =>
    rcases eq_or_ne r l with rfl | hne
    · exact rdlock_operates self hfree (hC hplace rfl)
    · exact lock_elsewhere self t (k := .rdlock r) (by simpa [Locking.mutex] using hne) hfree
  | pthread_rwlock_tryrdlock r =>
    rw [exec, return_answer]
    rcases eq_or_ne r l with rfl | hne
    · exact tryrdlock_operates self hfree (hC hplace rfl)
    · exact ((tryrdlock_spares hne).trans return_spares).returns hfree
        (try_elsewhere hne .tryrdlock _) (tryrdlock_outside self s t r _)
  | pthread_rwlock_wrlock r =>
    rcases eq_or_ne r l with rfl | hne
    · exact wrlock_operates self hfree (hC hplace rfl)
    · exact lock_elsewhere self t (k := .wrlock r) (by simpa [Locking.mutex] using hne) hfree
  | pthread_rwlock_trywrlock r =>
    rw [exec, return_answer]
    rcases eq_or_ne r l with rfl | hne
    · exact trywrlock_operates self hfree (hC hplace rfl)
    · exact ((trywrlock_spares hne).trans return_spares).returns hfree
        (try_elsewhere hne .trywrlock _) (trywrlock_outside self s t r _)
  | pthread_rwlock_unlock r =>
    rcases eq_or_ne r l with rfl | hne
    · obtain ⟨mode, hmode⟩ := Option.ne_none_iff_exists'.mp (hC hplace rfl)
      exact rwunlock_operates self hfree hmode
    · exact lock_elsewhere self t (k := .unlock r) (by simpa [Locking.mutex] using hne) hfree

omit [Fintype τ] in
/-- A step that finds nothing to do. -/
theorem idle_operates (hfree : (s.mutexes (.rwlock l)).locked = 0)
    (hcoming : Coming l (s.place t) → s.rwHeld l t = none) (hp : s.place t ≠ .locking (.unlock l)) :
    Operates self s s t l none :=
  .unchanged hfree rfl (fun _ => rfl) (Function.update_eq_self ..).symm hcoming hp

/-- A thread that has its turn again takes the mutex it waits for, or looks whether it has been signalled. -/
theorem turn_resumes (h : s.Agrees self l) (t : τ) (now : ℕ) :
    Operates self s (s.turn self (.resume t now)) t l (s.passesRw self (.resume t now)) := by
  rw [passesRw, turn, callOf]
  dsimp only [SyncInput.thread]
  cases hplace : s.place t with
  | program => exact idle_operates h.free (h.coming t) (h.releasing t)
  | waiting w => exact waitLoop_operates self t w now h.free fun _ => rfl
  | locking k =>
    rcases eq_or_ne k.mutex (.rwlock l) with hk | hk
    · cases k with
      | rdlock r =>
        obtain rfl : r = l := MutexAddr.rwlock.inj hk
        exact rdlock_operates self h.free (h.coming t (by rw [hplace]; rfl))
      | wrlock r =>
        obtain rfl : r = l := MutexAddr.rwlock.inj hk
        exact wrlock_operates self h.free (h.coming t (by rw [hplace]; rfl))
      | unlock r =>
        obtain rfl : r = l := MutexAddr.rwlock.inj hk
        exact absurd hplace (h.releasing t)
      | program | wait => cases hk
    · exact lock_elsewhere self t hk h.free

/-- A step does to the lock what the operations do. -/
theorem turn_operates (h : s.Agrees self l) (a : SyncInput τ) (hC : s.Orderly l a) :
    Operates self s (s.turn self a) a.thread l (s.passesRw self a) := by
  cases a with
  | resume t now => exact turn_resumes h t now
  | call t c now =>
    rw [passesRw, turn, callOf]
    split
    · rename_i hplace
      exact turn_called h.free hplace c now hC
    · exact idle_operates h.free (h.coming t) (h.releasing t)

theorem Agrees.step (hself : ∀ t, self t ≠ 0) (s : SyncState τ) (a : SyncInput τ) (h : s.Agrees self l)
    (hC : s.Orderly l a) : (s.step self a).Agrees self l := by
  obtain ⟨x, p, hleaves, hchanges, hcoming, hp⟩ := turn_operates h a hC
  have hrwlock : (s.step self a).rwlocks l = x := hleaves.rwlock
  have hplace : (s.step self a).place = Function.update s.place a.thread p := hleaves.place
  refine ⟨hleaves.free, ?_, fun u => ?_, fun u => ?_⟩
  · rw [step_rwHeld, hrwlock]
    exact h.tallies.change hself hchanges
  · rw [hplace, step_rwHeld]
    rcases eq_or_ne u a.thread with rfl | hne
    · rw [Function.update_self, Function.update_self]
      exact hcoming
    · rw [Function.update_of_ne hne, Function.update_of_ne hne]
      exact h.coming u
  · rw [hplace]
    rcases eq_or_ne u a.thread with rfl | hne
    · rwa [Function.update_self]
    · rw [Function.update_of_ne hne]
      exact h.releasing u

omit [Fintype τ] [DecidableEq τ] in
theorem Acquires.call {mode : RwMode} {a : SyncInput τ} (h : s.Acquires l mode a) :
    ∃ c, s.callOf a = some c ∧ AcquireCall l mode c := by
  cases a with
  | call t c now =>
    cases c with
    | pthread_rwlock_rdlock r =>
      obtain ⟨hplace, rfl, rfl⟩ := h
      exact ⟨_, if_pos hplace, .rdlock⟩
    | pthread_rwlock_tryrdlock r =>
      obtain ⟨hplace, rfl, rfl⟩ := h
      exact ⟨_, if_pos hplace, .tryrdlock⟩
    | pthread_rwlock_wrlock r =>
      obtain ⟨hplace, rfl, rfl⟩ := h
      exact ⟨_, if_pos hplace, .wrlock⟩
    | pthread_rwlock_trywrlock r =>
      obtain ⟨hplace, rfl, rfl⟩ := h
      exact ⟨_, if_pos hplace, .trywrlock⟩
    | pthread_mutex_lock | pthread_mutex_trylock | pthread_mutex_unlock | pthread_cond_wait
    | pthread_cond_timedwait | pthread_cond_signal | pthread_cond_broadcast | pthread_rwlock_unlock =>
      exact h.elim
  | resume t now =>
    rcases h with ⟨hplace, rfl⟩ | ⟨hplace, rfl⟩
    · exact ⟨_, by rw [callOf, hplace]; rfl, .rdlock⟩
    · exact ⟨_, by rw [callOf, hplace]; rfl, .wrlock⟩

omit [Fintype τ] in
/-- After a step of an acquiring call the thread has the lock in its mode, if the call has returned 0. -/
theorem Acquires.held {mode : RwMode} {a : SyncInput τ} (h : s.Acquires l mode a) :
    (s.step self a).rwHeld l = Function.update (s.rwHeld l) a.thread
      (if (s.step self a).answer a.thread = some 0 then some mode else s.rwHeld l a.thread) := by
  obtain ⟨c, hcall, hc⟩ := h.call
  rw [step_rwHeld, passesRw, hcall, Option.bind_some, hc.passed_eq]
  rfl

theorem Agrees.law (hself : ∀ t, self t ≠ 0) (h : s.Agrees self l) : s.RwLaw self l := by
  refine ⟨?_, ?_, h.tallies.readers, fun t ht => (h.tallies.alone t ht).1, h.tallies.unwritten, h.free,
    fun a mode hacq hzero => ?_, fun a mode hacq hno => ?_, ?_, ?_⟩
  · intro t u ht hu
    by_contra hne
    have hnone := (h.tallies.alone u hu).2 t hne
    rw [ht] at hnone
    cases hnone
  · intro t u ht hu
    have hnone := (h.tallies.alone t ht).2 u (by rintro rfl; rw [ht] at hu; cases hu)
    rw [hu] at hnone
    cases hnone
  · rw [hacq.held, if_pos hzero, Function.update_self]
  · rw [hacq.held, if_neg hno, Function.update_eq_self]
  · intro t now hplace
    rw [SyncState.step, turn, if_pos hplace, exec, return_result, tryrdlock_eq self s t h.free,
      ← h.tallies.writer_iff hself]
    split
    · rename_i hwriter
      exact ⟨fun _ => hwriter, fun _ => rfl⟩
    · rename_i hfree
      exact ⟨fun habs => (by cases habs), fun habs => absurd habs hfree⟩
  · intro t now hplace
    rw [SyncState.step, turn, if_pos hplace, exec, return_result, trywrlock_eq self s t h.free,
      ← h.tallies.busy_iff hself]
    split
    · rename_i hbusy
      exact ⟨fun _ => hbusy, fun _ => rfl⟩
    · rename_i hfree
      exact ⟨fun habs => (by cases habs), fun habs => absurd habs hfree⟩

/-- Where the lock is given back by threads that have it and acquired by threads that do not, it excludes,
    counts and answers as it should at every moment. -/
theorem rwLaw_of_orderly (self : τ → ℕ) (hself : ∀ t, self t ≠ 0) (l : ℕ) (inputs : List (SyncInput τ))
    (hC : Meets (SyncState.step self) (Orderly l) start inputs) :
    Always (SyncState.step self) (fun s => s.RwLaw self l) start inputs :=
  (always_of_meets (Agrees.step hself) Agrees.start hC).mono fun _ h => h.law hself

/-- Two threads read, a third waits to write, and one reader leaves. -/
theorem rwLaw_readers : Always (SyncState.step handles) (fun s => s.RwLaw handles 0) start
    [.call 0 (.pthread_rwlock_rdlock 0) 0, .call 1 (.pthread_rwlock_tryrdlock 0) 0,
      .call 2 (.pthread_rwlock_wrlock 0) 0, .call 0 (.pthread_rwlock_unlock 0) 0, .resume 2 0] :=
  rwLaw_of_orderly handles (by decide) 0 _ (by decide +kernel)

end Posix9.SyncState
