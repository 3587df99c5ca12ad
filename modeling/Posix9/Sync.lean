import Mathlib.Logic.Function.Basic
import Posix9.Types

/-! posix9_thread.c: mutexes, condition variables and read-write locks. Threads are cooperative, so a step
    is what one thread does from a call, or from the YieldToAnyThread it is in, up to its next
    YieldToAnyThread or to the return of the call. Which thread takes the next step, and what it calls,
    is part of the input; so is TickCount. -/

namespace Posix9

/-! ### The objects -/

/-- `pthread_mutex_t`. -/
structure Mutex where
  locked : ℤ
  owner : ℕ
  deriving DecidableEq

/-- `pthread_cond_t`. -/
structure Cond where
  waiting : ℤ
  signaled : ℤ
  deriving DecidableEq

/-- `pthread_rwlock_t`, but for its mutex. -/
structure RwLock where
  readers : ℤ
  writer : ℕ
  deriving DecidableEq

/-- `PTHREAD_MUTEX_INITIALIZER`, and what pthread_mutex_init stores. -/
def PTHREAD_MUTEX_INITIALIZER : Mutex := ⟨0, 0⟩
def PTHREAD_COND_INITIALIZER : Cond := ⟨0, 0⟩
def PTHREAD_RWLOCK_INITIALIZER : RwLock := ⟨0, 0⟩

/-- The address of a mutex: one of the program's, or the one in a read-write lock. -/
inductive MutexAddr where
  | mutex (m : ℕ)
  | rwlock (l : ℕ)
  deriving DecidableEq

inductive RwMode where
  | read
  | write
  deriving DecidableEq

/-! ### Control -/

/-- A call of pthread_cond_wait, or of pthread_cond_timedwait with the tick it gives up at. `start` is how
    often the condition variable had been signalled when the call began; nothing reads it. -/
structure CondWait where
  cond : ℕ
  mutex : ℕ
  endTicks : Option ℕ
  start : ℕ
  deriving DecidableEq

/-- A call of pthread_mutex_lock, by who makes it. -/
inductive Locking where
  | program (m : ℕ)
  /-- A condition wait, which is to return `v`. -/
  | wait (w : CondWait) (v : ℤ)
  | rdlock (l : ℕ)
  | wrlock (l : ℕ)
  | unlock (l : ℕ)
  deriving DecidableEq

def Locking.mutex : Locking → MutexAddr
  | .program m => .mutex m
  | .wait w _ => .mutex w.mutex
  | .rdlock l | .wrlock l | .unlock l => .rwlock l

/-- Where a thread is. -/
inductive Place where
  | program
  /-- It has yielded, and tests a mutex when it goes on: in the loop of pthread_mutex_lock, or in a loop
      around it. -/
  | locking (k : Locking)
  /-- It has yielded in the loop of a condition wait. -/
  | waiting (w : CondWait)
  deriving DecidableEq

/-- A condition wait that has returned `value` to `thread`, after `signals` signals in all. -/
structure Returned (τ : Type) where
  thread : τ
  wait : CondWait
  value : ℤ
  signals : ℕ
  deriving DecidableEq

structure SyncState (τ : Type) where
  mutexes : MutexAddr → Mutex
  conds : ℕ → Cond
  rwlocks : ℕ → RwLock
  place : τ → Place
  /-- The value of the thread's last call that returned. -/
  result : τ → ℤ
  /-- Whether the thread has the mutex, as its calls have told it. No operation reads or writes this or
      what the locks are held in: a step derives both from the call it is of and what that returned. -/
  held : MutexAddr → τ → Bool
  rwHeld : ℕ → τ → Option RwMode
  /-- How often the condition variable has been signalled; read by nothing, as what follows. -/
  signals : ℕ → ℕ
  returned : List (Returned τ)

namespace SyncState

variable {τ : Type} [DecidableEq τ] (self : τ → ℕ)

/-- Every object is initialised, and every thread in the program. -/
def start : SyncState τ where
  mutexes _ := PTHREAD_MUTEX_INITIALIZER
  conds _ := PTHREAD_COND_INITIALIZER
  rwlocks _ := PTHREAD_RWLOCK_INITIALIZER
  place _ := .program
  result _ := 0
  held _ _ := false
  rwHeld _ _ := none
  signals _ := 0
  returned := []

def setCond (s : SyncState τ) (c : ℕ) (x : Cond) : SyncState τ :=
  { s with conds := Function.update s.conds c x }

def setRwLock (s : SyncState τ) (l : ℕ) (x : RwLock) : SyncState τ :=
  { s with rwlocks := Function.update s.rwlocks l x }

def goTo (s : SyncState τ) (t : τ) (p : Place) : SyncState τ :=
  { s with place := Function.update s.place t p }

def return_ (s : SyncState τ) (t : τ) (v : ℤ) : SyncState τ :=
  { s.goTo t .program with result := Function.update s.result t v }

/-! ### Mutexes -/

/-- `mutex->locked = 1; mutex->owner = self`. -/
def take (s : SyncState τ) (t : τ) (m : MutexAddr) : SyncState τ :=
  { s with mutexes := Function.update s.mutexes m ⟨1, self t⟩ }

/-- It clears both fields, whoever calls it. -/
def pthread_mutex_unlock (s : SyncState τ) (m : MutexAddr) : SyncState τ :=
  { s with mutexes := Function.update s.mutexes m ⟨0, 0⟩ }

def pthread_mutex_trylock (s : SyncState τ) (t : τ) (m : MutexAddr) : ℤ × SyncState τ :=
  if (s.mutexes m).locked = 0 then (0, s.take self t m) else (EBUSY, s)

/-- What the caller of pthread_mutex_lock does when it has got the mutex. -/
def locked (s : SyncState τ) (t : τ) : Locking → SyncState τ
  | .program _ => s.return_ t 0
  | .wait w v => { s with returned := ⟨t, w, v, s.signals w.cond⟩ :: s.returned }.return_ t v
  | .rdlock l =>
    if (s.rwlocks l).writer ≠ 0 then (s.pthread_mutex_unlock (.rwlock l)).goTo t (.locking (.rdlock l))
    else
      ((s.setRwLock l { s.rwlocks l with readers := (s.rwlocks l).readers + 1 }).pthread_mutex_unlock
        (.rwlock l)).return_ t 0
  | .wrlock l =>
    if (s.rwlocks l).readers > 0 ∨ (s.rwlocks l).writer ≠ 0 then
      (s.pthread_mutex_unlock (.rwlock l)).goTo t (.locking (.wrlock l))
    else
      ((s.setRwLock l { s.rwlocks l with writer := self t }).pthread_mutex_unlock (.rwlock l)).return_ t 0
  | .unlock l =>
    let s :=
      if (s.rwlocks l).writer = self t then s.setRwLock l { s.rwlocks l with writer := 0 }
      else if (s.rwlocks l).readers > 0 then
        s.setRwLock l { s.rwlocks l with readers := (s.rwlocks l).readers - 1 }
      else s
    (s.pthread_mutex_unlock (.rwlock l)).return_ t 0

/-- pthread_mutex_lock from the test of its loop on, and on to what its caller does then. -/
def pthread_mutex_lock (s : SyncState τ) (t : τ) (k : Locking) : SyncState τ :=
  if (s.mutexes k.mutex).locked = 0 then (s.take self t k.mutex).locked self t k
  else s.goTo t (.locking k)

/-! ### Condition variables -/

/-- `cond->waiting--; if (cond->waiting == 0) cond->signaled = 0`. -/
def Cond.leave (x : Cond) : Cond :=
  { waiting := x.waiting - 1, signaled := if x.waiting - 1 = 0 then 0 else x.signaled }

/-- A condition wait from the test of its loop on; `now` is TickCount. -/
def waitLoop (s : SyncState τ) (t : τ) (w : CondWait) (now : ℕ) : SyncState τ :=
  let x := s.conds w.cond
  if x.signaled = 0 then
    match w.endTicks with
    | none => s.goTo t (.waiting w)
    | some endTicks =>
      if now ≥ endTicks then
        (s.setCond w.cond { x with waiting := x.waiting - 1 }).pthread_mutex_lock self t (.wait w ETIMEDOUT)
      else s.goTo t (.waiting w)
  else (s.setCond w.cond (Cond.leave x)).pthread_mutex_lock self t (.wait w 0)

/-- `cond->waiting++; pthread_mutex_unlock(mutex)`, in front of the loop. -/
def enterWait (s : SyncState τ) (t : τ) (w : CondWait) : SyncState τ :=
  ((s.setCond w.cond { s.conds w.cond with waiting := (s.conds w.cond).waiting + 1 }).pthread_mutex_unlock
    (.mutex w.mutex)).goTo t (.waiting w)

def pthread_cond_wait (s : SyncState τ) (t : τ) (cond mutex now : ℕ) : SyncState τ :=
  (s.enterWait t ⟨cond, mutex, none, s.signals cond⟩).waitLoop self t ⟨cond, mutex, none, s.signals cond⟩ now

/-- `TickCount() + (abstime->tv_sec * 60)`, an unsigned long. -/
def endTicksOf (ticks : ℕ) (tv_sec : ℤ) : ℕ := ((ticks + tv_sec * 60) % 0x100000000).toNat

/-- `ticks` is TickCount at its entry. -/
def pthread_cond_timedwait (s : SyncState τ) (t : τ) (cond mutex : ℕ) (tv_sec : ℤ) (ticks now : ℕ) :
    SyncState τ :=
  (s.enterWait t ⟨cond, mutex, some (endTicksOf ticks tv_sec), s.signals cond⟩).waitLoop self t
    ⟨cond, mutex, some (endTicksOf ticks tv_sec), s.signals cond⟩ now

/-- The condition variable is signalled. -/
def noteSignal (s : SyncState τ) (c : ℕ) : SyncState τ :=
  { s with signals := Function.update s.signals c (s.signals c + 1) }

def pthread_cond_signal (s : SyncState τ) (c : ℕ) : SyncState τ :=
  if (s.conds c).waiting > 0 then (s.noteSignal c).setCond c { s.conds c with signaled := 1 }
  else s.noteSignal c

def pthread_cond_broadcast (s : SyncState τ) (c : ℕ) : SyncState τ :=
  if (s.conds c).waiting > 0 then
    (s.noteSignal c).setCond c { s.conds c with signaled := (s.conds c).waiting }
  else s.noteSignal c

/-! ### Read-write locks -/

def pthread_rwlock_tryrdlock (s : SyncState τ) (t : τ) (l : ℕ) : ℤ × SyncState τ :=
  let v := (s.pthread_mutex_trylock self t (.rwlock l)).1
  let s := (s.pthread_mutex_trylock self t (.rwlock l)).2
  if v ≠ 0 then (EBUSY, s)
  else if (s.rwlocks l).writer ≠ 0 then (EBUSY, s.pthread_mutex_unlock (.rwlock l))
  else
    (0, (s.setRwLock l { s.rwlocks l with readers := (s.rwlocks l).readers + 1 }).pthread_mutex_unlock
      (.rwlock l))

def pthread_rwlock_trywrlock (s : SyncState τ) (t : τ) (l : ℕ) : ℤ × SyncState τ :=
  let v := (s.pthread_mutex_trylock self t (.rwlock l)).1
  let s := (s.pthread_mutex_trylock self t (.rwlock l)).2
  if v ≠ 0 then (EBUSY, s)
  else if (s.rwlocks l).readers > 0 ∨ (s.rwlocks l).writer ≠ 0 then
    (EBUSY, s.pthread_mutex_unlock (.rwlock l))
  else
    (0, (s.setRwLock l { s.rwlocks l with writer := self t }).pthread_mutex_unlock (.rwlock l))

end SyncState

/-! ### Runs -/

inductive SyncCall where
  | pthread_mutex_lock (m : ℕ)
  | pthread_mutex_trylock (m : ℕ)
  | pthread_mutex_unlock (m : ℕ)
  | pthread_cond_wait (c m : ℕ)
  | pthread_cond_timedwait (c m : ℕ) (tv_sec : ℤ) (ticks : ℕ)
  | pthread_cond_signal (c : ℕ)
  | pthread_cond_broadcast (c : ℕ)
  | pthread_rwlock_rdlock (l : ℕ)
  | pthread_rwlock_tryrdlock (l : ℕ)
  | pthread_rwlock_wrlock (l : ℕ)
  | pthread_rwlock_trywrlock (l : ℕ)
  | pthread_rwlock_unlock (l : ℕ)

inductive SyncInput (τ : Type) where
  /-- A thread makes a call. -/
  | call (t : τ) (c : SyncCall) (now : ℕ)
  /-- A thread that has yielded in a call goes on. -/
  | resume (t : τ) (now : ℕ)

def SyncInput.thread {τ : Type} : SyncInput τ → τ
  | .call t _ _ | .resume t _ => t

/-- Whether the step is the first of its call. -/
def SyncInput.starts {τ : Type} : SyncInput τ → Bool
  | .call .. => true
  | .resume .. => false

/-- The call of the program that a thread has yielded in. -/
def Locking.call : Locking → SyncCall
  | .program m => .pthread_mutex_lock m
  | .wait w _ => .pthread_cond_wait w.cond w.mutex
  | .rdlock l => .pthread_rwlock_rdlock l
  | .wrlock l => .pthread_rwlock_wrlock l
  | .unlock l => .pthread_rwlock_unlock l

def Place.call : Place → Option SyncCall
  | .program => none
  | .locking k => some k.call
  | .waiting w => some (.pthread_cond_wait w.cond w.mutex)

/-- The mutex whose holder a step of the call changes: the caller has it (`true`) or has given it back.
    `starts` says that the step is the call's first, and `answer` is what it has returned, if it has. A
    condition wait gives its mutex back as it starts and has it again when it returns, with whatever
    value. -/
def SyncCall.passes (starts : Bool) (answer : Option ℤ) : SyncCall → Option (MutexAddr × Bool)
  | .pthread_mutex_lock m | .pthread_mutex_trylock m =>
    if answer = some 0 then some (.mutex m, true) else none
  | .pthread_mutex_unlock m => if answer = some 0 then some (.mutex m, false) else none
  | .pthread_cond_wait _ m | .pthread_cond_timedwait _ m _ _ =>
    if answer.isSome then some (.mutex m, true) else if starts then some (.mutex m, false) else none
  | _ => none

/-- The read-write lock that a step of the call gives its caller, and in which mode, or takes from it. -/
def SyncCall.passesRw (answer : Option ℤ) : SyncCall → Option (ℕ × Option RwMode)
  | .pthread_rwlock_rdlock l | .pthread_rwlock_tryrdlock l =>
    if answer = some 0 then some (l, some .read) else none
  | .pthread_rwlock_wrlock l | .pthread_rwlock_trywrlock l =>
    if answer = some 0 then some (l, some .write) else none
  | .pthread_rwlock_unlock l => if answer = some 0 then some (l, none) else none
  | _ => none

/-- What a thread has of the object `x` after such a change, when it had `had` of it. -/
def passed {α β : Type} [DecidableEq α] (change : Option (α × β)) (x : α) (had : β) : β :=
  match change with
  | some (y, has) => if y = x then has else had
  | none => had

namespace SyncState

variable {τ : Type} [DecidableEq τ] (self : τ → ℕ)

def exec (s : SyncState τ) (t : τ) (now : ℕ) : SyncCall → SyncState τ
  | .pthread_mutex_lock m => s.pthread_mutex_lock self t (.program m)
  | .pthread_mutex_trylock m =>
    (s.pthread_mutex_trylock self t (.mutex m)).2.return_ t (s.pthread_mutex_trylock self t (.mutex m)).1
  | .pthread_mutex_unlock m => (s.pthread_mutex_unlock (.mutex m)).return_ t 0
  | .pthread_cond_wait c m => s.pthread_cond_wait self t c m now
  | .pthread_cond_timedwait c m tv_sec ticks => s.pthread_cond_timedwait self t c m tv_sec ticks now
  | .pthread_cond_signal c => (s.pthread_cond_signal c).return_ t 0
  | .pthread_cond_broadcast c => (s.pthread_cond_broadcast c).return_ t 0
  | .pthread_rwlock_rdlock l => s.pthread_mutex_lock self t (.rdlock l)
  | .pthread_rwlock_tryrdlock l =>
    (s.pthread_rwlock_tryrdlock self t l).2.return_ t (s.pthread_rwlock_tryrdlock self t l).1
  | .pthread_rwlock_wrlock l => s.pthread_mutex_lock self t (.wrlock l)
  | .pthread_rwlock_trywrlock l =>
    (s.pthread_rwlock_trywrlock self t l).2.return_ t (s.pthread_rwlock_trywrlock self t l).1
  | .pthread_rwlock_unlock l => s.pthread_mutex_lock self t (.unlock l)

/-- What the operations do in a step. An input that does not fit the state changes nothing. -/
def turn (s : SyncState τ) : SyncInput τ → SyncState τ
  | .call t c now => if s.place t = .program then s.exec self t now c else s
  | .resume t now =>
    match s.place t with
    | .program => s
    | .locking k => s.pthread_mutex_lock self t k
    | .waiting w => s.waitLoop self t w now

/-- The call that a step is of: the one made in it, or the one its thread has yielded in. -/
def callOf (s : SyncState τ) : SyncInput τ → Option SyncCall
  | .call t c _ => if s.place t = .program then some c else none
  | .resume t _ => (s.place t).call

/-- What the thread's call has returned, if it has. -/
def answer (s : SyncState τ) (t : τ) : Option ℤ := if s.place t = .program then some (s.result t) else none

/-- The change that a step makes of who has a mutex, and of who has a read-write lock. -/
def passes (s : SyncState τ) (a : SyncInput τ) : Option (MutexAddr × Bool) :=
  (s.callOf a).bind (SyncCall.passes a.starts ((s.turn self a).answer a.thread))

def passesRw (s : SyncState τ) (a : SyncInput τ) : Option (ℕ × Option RwMode) :=
  (s.callOf a).bind (SyncCall.passesRw ((s.turn self a).answer a.thread))

/-- A step: what the operations do, and who has what by the call and its answer. -/
def step (s : SyncState τ) (a : SyncInput τ) : SyncState τ :=
  { s.turn self a with
    held := fun m =>
      Function.update (s.held m) a.thread (passed (s.passes self a) m (s.held m a.thread))
    rwHeld := fun l =>
      Function.update (s.rwHeld l) a.thread (passed (s.passesRw self a) l (s.rwHeld l a.thread)) }

/-- `pthread_self()` of each of three threads. -/
def handles (t : Fin 3) : ℕ := t.val + 1

/-! ### What a step leaves alone -/

variable {self} {s s' : SyncState τ} {t u : τ} {k : Option Locking} {w : CondWait} {c d : ℕ} {x : Cond}
  {p : Place}

theorem step_held (self : τ → ℕ) (s : SyncState τ) (a : SyncInput τ) (m : MutexAddr) :
    (s.step self a).held m =
      Function.update (s.held m) a.thread (passed (s.passes self a) m (s.held m a.thread)) := rfl

theorem step_rwHeld (self : τ → ℕ) (s : SyncState τ) (a : SyncInput τ) (l : ℕ) :
    (s.step self a).rwHeld l =
      Function.update (s.rwHeld l) a.thread (passed (s.passesRw self a) l (s.rwHeld l a.thread)) := rfl

omit [DecidableEq τ] in
@[simp] theorem setCond_self : (s.setCond c x).conds c = x := Function.update_self ..

omit [DecidableEq τ] in
theorem setCond_of_ne (h : d ≠ c) : (s.setCond c x).conds d = s.conds d := Function.update_of_ne h _ _

@[simp] theorem goTo_self : (s.goTo t p).place t = p := Function.update_self ..

theorem goTo_of_ne (h : u ≠ t) : (s.goTo t p).place u = s.place u := Function.update_of_ne h _ _

@[simp] theorem return_answer {v : ℤ} : (s.return_ t v).answer t = some v := by
  rw [answer, if_pos (by exact Function.update_self ..)]
  exact congrArg some (Function.update_self ..)

theorem goTo_answer (hp : p ≠ .program) : (s.goTo t p).answer t = none := by
  rw [answer, goTo_self, if_neg hp]

@[simp] theorem return_result {v : ℤ} : (s.return_ t v).result t = v := Function.update_self ..

omit [DecidableEq τ] in
theorem signal_place : (s.pthread_cond_signal c).place = s.place := by
  rw [pthread_cond_signal]
  split <;> rfl

omit [DecidableEq τ] in
theorem broadcast_place : (s.pthread_cond_broadcast c).place = s.place := by
  rw [pthread_cond_broadcast]
  split <;> rfl

@[simp] theorem enterWait_place : (s.enterWait t w).place = Function.update s.place t (.waiting w) := rfl

theorem enterWait_cond : (s.enterWait t w).conds w.cond =
    { s.conds w.cond with waiting := (s.conds w.cond).waiting + 1 } := Function.update_self ..

theorem enterWait_of_ne (h : d ≠ w.cond) : (s.enterWait t w).conds d = s.conds d :=
  Function.update_of_ne h _ _

/-- A step of one thread that has to do with mutexes and read-write locks only, and leaves the thread
    outside the loop of a condition wait. `k` is the call of pthread_mutex_lock it makes, if any. -/
structure Outside (s s' : SyncState τ) (t : τ) (k : Option Locking) : Prop where
  conds : s'.conds = s.conds
  signals : s'.signals = s.signals
  place : s'.place = Function.update s.place t .program ∨
    ∃ k' ∈ k, s'.place = Function.update s.place t (.locking k')
  returned : s'.returned = s.returned ∨
    ∃ w v, k = some (.wait w v) ∧ s'.returned = ⟨t, w, v, s.signals w.cond⟩ :: s.returned

theorem locked_outside (self : τ → ℕ) (s : SyncState τ) (t : τ) (k : Locking) :
    Outside s (s.locked self t k) t (some k) := by
  cases k with
  | program m => exact ⟨rfl, rfl, .inl rfl, .inl rfl⟩
  | wait w v => exact ⟨rfl, rfl, .inl rfl, .inr ⟨w, v, rfl, rfl⟩⟩
  | rdlock l =>
    rw [locked]
    split
    · exact ⟨rfl, rfl, .inr ⟨_, rfl, rfl⟩, .inl rfl⟩
    · exact ⟨rfl, rfl, .inl rfl, .inl rfl⟩
  | wrlock l =>
    rw [locked]
    split
    · exact ⟨rfl, rfl, .inr ⟨_, rfl, rfl⟩, .inl rfl⟩
    · exact ⟨rfl, rfl, .inl rfl, .inl rfl⟩
  | unlock l =>
    rw [locked]
    dsimp only
    split
    · exact ⟨rfl, rfl, .inl rfl, .inl rfl⟩
    · split <;> exact ⟨rfl, rfl, .inl rfl, .inl rfl⟩

theorem lock_outside (self : τ → ℕ) (s : SyncState τ) (t : τ) (k : Locking) :
    Outside s (s.pthread_mutex_lock self t k) t (some k) := by
  rw [pthread_mutex_lock]
  split
  · obtain ⟨hconds, hsignals, hplace, hreturned⟩ :=
      locked_outside self (s.take self t k.mutex) t k
    exact ⟨hconds, hsignals, hplace, hreturned⟩
  · exact ⟨rfl, rfl, .inr ⟨k, rfl, rfl⟩, .inl rfl⟩

theorem trylock_outside (self : τ → ℕ) (s : SyncState τ) (t : τ) (m : MutexAddr) (v : ℤ) :
    Outside s ((s.pthread_mutex_trylock self t m).2.return_ t v) t none := by
  rw [pthread_mutex_trylock]
  split <;> exact ⟨rfl, rfl, .inl rfl, .inl rfl⟩

theorem tryrdlock_outside (self : τ → ℕ) (s : SyncState τ) (t : τ) (l : ℕ) (v : ℤ) :
    Outside s ((s.pthread_rwlock_tryrdlock self t l).2.return_ t v) t none := by
  rw [pthread_rwlock_tryrdlock, pthread_mutex_trylock]
  dsimp only
  split
  · split
    · exact ⟨rfl, rfl, .inl rfl, .inl rfl⟩
    · split <;> exact ⟨rfl, rfl, .inl rfl, .inl rfl⟩
  · split
    · exact ⟨rfl, rfl, .inl rfl, .inl rfl⟩
    · split <;> exact ⟨rfl, rfl, .inl rfl, .inl rfl⟩

theorem trywrlock_outside (self : τ → ℕ) (s : SyncState τ) (t : τ) (l : ℕ) (v : ℤ) :
    Outside s ((s.pthread_rwlock_trywrlock self t l).2.return_ t v) t none := by
  rw [pthread_rwlock_trywrlock, pthread_mutex_trylock]
  dsimp only
  split
  · split
    · exact ⟨rfl, rfl, .inl rfl, .inl rfl⟩
    · split <;> exact ⟨rfl, rfl, .inl rfl, .inl rfl⟩
  · split
    · exact ⟨rfl, rfl, .inl rfl, .inl rfl⟩
    · split <;> exact ⟨rfl, rfl, .inl rfl, .inl rfl⟩

/-- A thread in the loop of a wait stays there, as nothing has been signalled, or it has been, or the
    thread gives up. -/
theorem waitLoop_cases (self : τ → ℕ) (s : SyncState τ) (t : τ) (w : CondWait) (now : ℕ) :
    (s.conds w.cond).signaled = 0 ∧ s.waitLoop self t w now = s.goTo t (.waiting w) ∨
    ∃ x v, s.waitLoop self t w now = (s.setCond w.cond x).pthread_mutex_lock self t (.wait w v) ∧
      x.waiting = (s.conds w.cond).waiting - 1 ∧
      ((s.conds w.cond).signaled = 0 ∧ w.endTicks ≠ none ∧ x.signaled = 0 ∨
        (s.conds w.cond).signaled ≠ 0 ∧
          x.signaled = if x.waiting = 0 then 0 else (s.conds w.cond).signaled) := by
  rw [waitLoop]
  split
  · rename_i hsignaled
    cases hticks : w.endTicks with
    | none => exact .inl ⟨hsignaled, rfl⟩
    | some endTicks =>
      dsimp only
      split
      · exact .inr ⟨_, _, rfl, rfl, .inl ⟨hsignaled, by simp, hsignaled⟩⟩
      · exact .inl ⟨hsignaled, rfl⟩
  · rename_i hsignaled
    exact .inr ⟨_, _, rfl, rfl, .inr ⟨hsignaled, rfl⟩⟩

end SyncState

end Posix9
