import Mathlib.Data.List.FinRange
import Mathlib.Logic.Function.Basic
import Posix9.Types

/-! posix9_thread.c: the thread table, thread-specific data, and the calls that create, end and wait for
    threads. The Thread Manager is cooperative, but a program may yield between any two of its calls, so
    a step is what one thread does up to the next point where it may yield: a call, the start or the
    return of a routine of the program, or a round of the loop in pthread_join. Which thread takes the
    next step is part of the input. -/

namespace Posix9

/-! ### The tables -/

def MAX_THREADS : ℕ := 64
def MAX_KEYS : ℕ := 64

abbrev Slot := Fin MAX_THREADS
abbrev Key := Fin MAX_KEYS

/-- The slot that is reserved for the main thread. -/
def mainSlot : Slot := ⟨0, by decide⟩

/-- A `void *` or the address of a function; NULL is 0. -/
abbrev Ptr := ℕ

abbrev ThreadID := ℕ

/-- `posix9_thread_entry`. -/
structure ThreadEntry where
  threadID : ThreadID
  inUse : Bool
  detached : Bool
  finished : Bool
  result : Ptr
  start : Ptr
  arg : Ptr
  deriving DecidableEq

/-- `memset(entry, 0, sizeof(posix9_thread_entry))`. -/
def ThreadEntry.zero : ThreadEntry := ⟨0, false, false, false, 0, 0, 0⟩

def PTHREAD_CREATE_DETACHED : ℤ := 1

structure PthreadAttr where
  stacksize : ℕ
  detachstate : ℤ

/-- `attr && attr->detachstate == PTHREAD_CREATE_DETACHED`. -/
def createDetached : Option PthreadAttr → Bool
  | some attr => attr.detachstate = PTHREAD_CREATE_DETACHED
  | none => false

/-- The stack size NewThread is asked for; 0 stands for its default. -/
def stackSize : Option PthreadAttr → ℕ
  | some attr => if attr.stacksize > 0 then attr.stacksize else 0
  | none => 0

/-! ### Mac threads -/

/-- A Mac thread by its number in the order of creation. The ID it has may come back. -/
abbrev Uid := ℕ

/-- What a Mac thread is doing. -/
inductive Phase where
  /-- It has not been made yet, or is gone. -/
  | absent
  /-- It has been made and has not run yet. -/
  | ready
  /-- It runs a routine of the program: main, its start routine or a destructor. -/
  | running
  /-- It has yielded in pthread_join, which holds the address of an entry. `target` is the thread that
      the entry had been handed to when pthread_join was called. -/
  | joining (entry : Slot) (retval : Bool) (target : Uid)
  deriving DecidableEq

/-- The loop over the keys that runs the TLS destructors: the row, and the key it goes on with. -/
structure DestructorLoop where
  idx : Slot
  key : ℕ
  deriving DecidableEq

structure MacThread where
  threadID : ThreadID
  /-- The argument of thread_entry: the entry it was created for. -/
  entry : Slot
  phase : Phase
  /-- The loops whose destructors are running, the innermost first. -/
  loops : List DestructorLoop
  /-- What its start routine returned or it gave to pthread_exit; read by nothing. -/
  ended : Option Ptr
  deriving DecidableEq

def mainThread : Uid := 0

/-- What is kept of a run, and read by nothing in it. -/
inductive ThreadEvent where
  /-- The start routine is called. -/
  | started (u : Uid) (start arg : Ptr)
  /-- A thread that ends writes result and finished into the entry that was last handed to `owner`. -/
  | wrote (u owner : Uid)
  | destructor (u : Uid) (key : Key) (value : Ptr)
  /-- pthread_join returns 0: what it stores, and what its target had ended with. -/
  | joined (target : Uid) (stored ended : Option Ptr)
  | keyCreated (key : Key)
  | keyDeleted (key : Key)
  | set (u : Uid) (key : Key) (value : Ptr)
  deriving DecidableEq

structure ThreadState where
  thread_table : Slot → ThreadEntry
  thread_table_initialized : Bool
  main_thread_id : ℕ
  tls_data : Slot → Key → Ptr
  tls_destructors : Key → Ptr
  tls_key_used : Key → Bool
  threads : Uid → MacThread
  /-- How many Mac threads have been made. -/
  created : ℕ
  /-- The thread that a slot was last handed to; read by nothing. -/
  owner : Slot → Uid
  log : List ThreadEvent

namespace ThreadState

/-- Static storage is zero; the main thread runs. -/
def start (main : ThreadID) : ThreadState where
  thread_table _ := .zero
  thread_table_initialized := false
  main_thread_id := 0
  tls_data _ _ := 0
  tls_destructors _ := 0
  tls_key_used _ := false
  threads u := if u = mainThread then ⟨main, mainSlot, .running, [], none⟩
    else ⟨0, mainSlot, .absent, [], none⟩
  created := 1
  owner _ := mainThread
  log := []

def modifyEntry (s : ThreadState) (i : Slot) (f : ThreadEntry → ThreadEntry) : ThreadState :=
  { s with thread_table := Function.update s.thread_table i (f (s.thread_table i)) }

def modifyThread (s : ThreadState) (u : Uid) (f : MacThread → MacThread) : ThreadState :=
  { s with threads := Function.update s.threads u (f (s.threads u)) }

def record (s : ThreadState) (e : ThreadEvent) : ThreadState := { s with log := e :: s.log }

/-- The thread exists and can still execute. -/
def Live (s : ThreadState) (u : Uid) : Prop := (s.threads u).phase ≠ .absent

instance (s : ThreadState) (u : Uid) : Decidable (s.Live u) :=
  inferInstanceAs (Decidable (_ ≠ _))

/-! ### Internal helpers -/

/-- `u` is the current thread. -/
def init_thread_table (s : ThreadState) (u : Uid) : ThreadState :=
  if s.thread_table_initialized then s
  else
    { s with
      thread_table := fun i =>
        if i = mainSlot then { s.thread_table i with threadID := (s.threads u).threadID, inUse := true }
        else { s.thread_table i with threadID := 0, inUse := false }
      thread_table_initialized := true
      main_thread_id := 1
      tls_data := fun _ _ => 0
      tls_destructors := fun _ => 0
      tls_key_used := fun _ => false }

/-- The slot the search of alloc_thread ends at. -/
def freeSlot (s : ThreadState) : Option Slot :=
  (List.finRange MAX_THREADS).find? fun i => i ≠ mainSlot && !(s.thread_table i).inUse

/-- A `pthread_t` is the number of its slot and 1. -/
def handle (i : Slot) : ℕ := i.val + 1

def alloc_thread (s : ThreadState) (u : Uid) : Option Slot × ThreadState :=
  let s := s.init_thread_table u
  match s.freeSlot with
  | some i => (some i, s.modifyEntry i fun _ => { ThreadEntry.zero with inUse := true })
  | none => (none, s)

def get_thread (s : ThreadState) (thread : ℕ) : Option Slot :=
  if h : 1 ≤ thread ∧ thread ≤ MAX_THREADS then
    if (s.thread_table ⟨thread - 1, by omega⟩).inUse then some ⟨thread - 1, by omega⟩ else none
  else none

def get_thread_index (s : ThreadState) (tid : ThreadID) : Option Slot :=
  (List.finRange MAX_THREADS).find? fun i =>
    (s.thread_table i).inUse && (s.thread_table i).threadID = tid

/-- GetCurrentThread and get_thread_index, when thread `u` calls them. -/
def index (s : ThreadState) (u : Uid) : Option Slot := s.get_thread_index (s.threads u).threadID

/-! ### The Thread Manager -/

/-- No thread that exists has this ID. -/
def Unused (s : ThreadState) (tid : ThreadID) : Prop :=
  ∀ u < s.created, s.Live u → (s.threads u).threadID ≠ tid

instance (s : ThreadState) (tid : ThreadID) : Decidable (s.Unused tid) :=
  inferInstanceAs (Decidable (∀ u < s.created, _))

/-- NewThread with the entry as argument and as the place of the ID. Whether it succeeds is up to the
    Thread Manager; the ID is one that no thread has. -/
def NewThread (s : ThreadState) (i : Slot) (answer : Option ThreadID) : Option ThreadState :=
  match answer with
  | none => none
  | some tid =>
    if s.Unused tid then
      some { (s.modifyEntry i fun e => { e with threadID := tid }) with
        threads := Function.update s.threads s.created ⟨tid, i, .ready, [], none⟩
        created := s.created + 1
        owner := Function.update s.owner i s.created }
    else none

/-- The thread returns from thread_entry, or calls DisposeThread on itself, which does not return. -/
def terminates (s : ThreadState) (u : Uid) : ThreadState :=
  s.modifyThread u fun t => { t with phase := .absent, loops := [] }

/-! ### The end of a thread -/

/-- The loop over the TLS destructors from `key` on: to the first instruction of the next destructor, or
    to the end of the thread. -/
def runDestructors (s : ThreadState) (u : Uid) (idx : Slot) (key : ℕ) : ThreadState :=
  match (List.finRange MAX_KEYS).find? fun k => key ≤ k.val && s.tls_key_used k &&
      s.tls_data idx k ≠ 0 && s.tls_destructors k ≠ 0 with
  | some k =>
    (s.modifyThread u fun t => { t with loops := ⟨idx, k.val + 1⟩ :: t.loops }).record
      (.destructor u k (s.tls_data idx k))
  | none => s.terminates u

/-- `entry->result = result; entry->finished = true`. -/
def finish (s : ThreadState) (u : Uid) (i : Slot) (result : Ptr) : ThreadState :=
  (s.modifyEntry i fun e => { e with result := result, finished := true }).record (.wrote u (s.owner i))

/-- thread_entry up to the start routine. -/
def thread_entry (s : ThreadState) (u : Uid) : ThreadState :=
  (s.modifyThread u fun t => { t with phase := .running }).record
    (.started u (s.thread_table (s.threads u).entry).start (s.thread_table (s.threads u).entry).arg)

/-- thread_entry from the return of the start routine on. -/
def startReturns (s : ThreadState) (u : Uid) (result : Ptr) : ThreadState :=
  let i := (s.threads u).entry
  let s := (s.modifyThread u fun t => { t with ended := some result }).finish u i result
  match s.get_thread_index (s.thread_table i).threadID with
  | some idx => s.runDestructors u idx 0
  | none => s.terminates u

/-- A routine of the program returns: the destructor that is running, or else the start routine. -/
def routineReturns (s : ThreadState) (u : Uid) (result : Ptr) : ThreadState :=
  match (s.threads u).loops with
  | l :: rest => (s.modifyThread u fun t => { t with loops := rest }).runDestructors u l.idx l.key
  | [] =>
    -- with the return of main the program is over
    if u = mainThread then s else s.startReturns u result

/-! ### POSIX thread functions -/

/-- The `pthread_t` it stores, or the error. -/
def pthread_create (s : ThreadState) (u : Uid) (attr : Option PthreadAttr) (start_routine arg : Ptr)
    (newThread : ℕ → Option ThreadID) : Except ℤ ℕ × ThreadState :=
  let s := s.init_thread_table u
  match s.alloc_thread u with
  | (none, s) => (.error EAGAIN, s)
  | (some slot, s) =>
    let s := s.modifyEntry slot fun e =>
      { e with start := start_routine, arg := arg, detached := createDetached attr }
    match s.NewThread slot (newThread (stackSize attr)) with
    | some s => (.ok (handle slot), s)
    | none => (.error EAGAIN, s.modifyEntry slot fun e => { e with inUse := false })

/-- The loop of pthread_join from its test on. It returns 0, or yields. -/
def joinRound (s : ThreadState) (u : Uid) (i : Slot) (retval : Bool) (target : Uid) :
    Option ℤ × ThreadState :=
  if (s.thread_table i).finished then
    let stored := if retval then some (s.thread_table i).result else none
    let s := s.record (.joined target stored (s.threads target).ended)
    let s := s.modifyEntry i fun e => { e with inUse := false }
    (some 0, s.modifyThread u fun t => { t with phase := .running })
  else (none, s.modifyThread u fun t => { t with phase := .joining i retval target })

/-- `retval` is whether a place for the result is given. -/
def pthread_join (s : ThreadState) (u : Uid) (thread : ℕ) (retval : Bool) : Option ℤ × ThreadState :=
  match s.get_thread thread with
  | none => (some ESRCH, s)
  | some i =>
    if (s.thread_table i).detached then (some EINVAL, s) else s.joinRound u i retval (s.owner i)

def pthread_detach (s : ThreadState) (thread : ℕ) : ℤ × ThreadState :=
  match s.get_thread thread with
  | none => (ESRCH, s)
  | some i =>
    let s := s.modifyEntry i fun e => { e with detached := true }
    if (s.thread_table i).finished then (0, s.modifyEntry i fun e => { e with inUse := false })
    else (0, s)

def pthread_exit (s : ThreadState) (u : Uid) (retval : Ptr) : ThreadState :=
  let s := s.modifyThread u fun t => { t with ended := some retval }
  match s.index u with
  | some idx => (s.finish u idx retval).runDestructors u idx 0
  | none => s.terminates u

def pthread_self (s : ThreadState) (u : Uid) : ℕ × ThreadState :=
  let s := s.init_thread_table u
  match s.index u with
  | some idx => (handle idx, s)
  | none => (0, s)

def pthread_cancel (s : ThreadState) (thread : ℕ) : ℤ × ThreadState :=
  match s.get_thread thread with
  | none => (ESRCH, s)
  | some i => (0, s.modifyEntry i fun e => { e with finished := true })

/-! ### Thread-specific data -/

/-- `key >= MAX_KEYS` turned round: the key a number stands for. -/
def keyOf (key : ℕ) : Option Key := if h : key < MAX_KEYS then some ⟨key, h⟩ else none

/-- The key the search of pthread_key_create ends at. -/
def freeKey (s : ThreadState) : Option Key :=
  (List.finRange MAX_KEYS).find? fun k => !s.tls_key_used k

/-- The key it stores, or the error. -/
def pthread_key_create (s : ThreadState) (destructor : Ptr) : Except ℤ ℕ × ThreadState :=
  match s.freeKey with
  | some k =>
    (.ok k.val, { s with
      tls_key_used := Function.update s.tls_key_used k true
      tls_destructors := Function.update s.tls_destructors k destructor
      log := .keyCreated k :: s.log })
  | none => (.error EAGAIN, s)

def pthread_key_delete (s : ThreadState) (key : ℕ) : ℤ × ThreadState :=
  match keyOf key with
  | none => (EINVAL, s)
  | some k =>
    (0, { s with
      tls_key_used := Function.update s.tls_key_used k false
      tls_destructors := Function.update s.tls_destructors k 0
      log := .keyDeleted k :: s.log })

def pthread_getspecific (s : ThreadState) (u : Uid) (key : ℕ) : Ptr :=
  match keyOf key with
  | none => 0
  | some k =>
    match s.index u with
    | none => 0
    | some idx => s.tls_data idx k

def pthread_setspecific (s : ThreadState) (u : Uid) (key : ℕ) (value : Ptr) : ℤ × ThreadState :=
  match keyOf key with
  | none => (EINVAL, s)
  | some k =>
    match s.index u with
    | none => (EINVAL, s)
    | some idx =>
      (0, { s with
        tls_data := Function.update s.tls_data idx (Function.update (s.tls_data idx) k value)
        log := .set u k value :: s.log })

end ThreadState

/-! ### Runs -/

inductive ThreadCall where
  | pthread_create (attr : Option PthreadAttr) (start_routine arg : Ptr)
      (newThread : ℕ → Option ThreadID)
  | pthread_join (thread : ℕ) (retval : Bool)
  | pthread_detach (thread : ℕ)
  | pthread_exit (retval : Ptr)
  | pthread_self
  | pthread_cancel (thread : ℕ)
  | pthread_key_create (destructor : Ptr)
  | pthread_key_delete (key : ℕ)
  | pthread_getspecific (key : ℕ)
  | pthread_setspecific (key : ℕ) (value : Ptr)

inductive ThreadInput where
  /-- A routine of the program makes a call. -/
  | call (u : Uid) (c : ThreadCall)
  /-- A routine of the program returns. -/
  | returns (u : Uid) (result : Ptr)
  /-- A new thread runs for the first time. -/
  | begins (u : Uid)
  /-- YieldToAnyThread returns in pthread_join. -/
  | resumes (u : Uid)

namespace ThreadState

def exec (s : ThreadState) (u : Uid) : ThreadCall → ThreadState
  | .pthread_create attr start_routine arg newThread =>
    (s.pthread_create u attr start_routine arg newThread).2
  | .pthread_join thread retval => (s.pthread_join u thread retval).2
  | .pthread_detach thread => (s.pthread_detach thread).2
  | .pthread_exit retval => s.pthread_exit u retval
  | .pthread_self => (s.pthread_self u).2
  | .pthread_cancel thread => (s.pthread_cancel thread).2
  | .pthread_key_create destructor => (s.pthread_key_create destructor).2
  | .pthread_key_delete key => (s.pthread_key_delete key).2
  | .pthread_getspecific _ => s
  | .pthread_setspecific key value => (s.pthread_setspecific u key value).2

/-- An input that does not fit the state changes nothing. -/
def step (s : ThreadState) (a : ThreadInput) : ThreadState :=
  match a with
  | .call u c => if (s.threads u).phase = .running then s.exec u c else s
  | .returns u result => if (s.threads u).phase = .running then s.routineReturns u result else s
  | .begins u => if (s.threads u).phase = .ready then s.thread_entry u else s
  | .resumes u =>
    match (s.threads u).phase with
    | .joining i retval target => (s.joinRound u i retval target).2
    | _ => s

/-- The slot a step gives back. -/
def released (s : ThreadState) : ThreadInput → Option Slot
  | .call u (.pthread_join thread _) =>
    if (s.threads u).phase = .running then
      (s.get_thread thread).filter fun i => !(s.thread_table i).detached && (s.thread_table i).finished
    else none
  | .call u (.pthread_detach thread) =>
    if (s.threads u).phase = .running then
      (s.get_thread thread).filter fun i => (s.thread_table i).finished
    else none
  | .resumes u =>
    match (s.threads u).phase with
    | .joining i _ _ => if (s.thread_table i).finished then some i else none
    | _ => none
  | _ => none

/-! ### What the calls do -/

section Calls

variable {s : ThreadState} {u : Uid} {i : Slot}

/-- At the start there is only the main thread. -/
theorem live_start {main : ThreadID} (h : (start main).Live u) : u = mainThread := by
  by_contra hne
  exact h (by simp [start, hne])

@[simp] theorem modifyEntry_self (f : ThreadEntry → ThreadEntry) :
    (s.modifyEntry i f).thread_table i = f (s.thread_table i) := Function.update_self ..

theorem modifyEntry_of_ne {j : Slot} (h : j ≠ i) (f : ThreadEntry → ThreadEntry) :
    (s.modifyEntry i f).thread_table j = s.thread_table j := Function.update_of_ne h ..

@[simp] theorem modifyThread_self (f : MacThread → MacThread) :
    (s.modifyThread u f).threads u = f (s.threads u) := Function.update_self ..

theorem modifyThread_of_ne {v : Uid} (h : v ≠ u) (f : MacThread → MacThread) :
    (s.modifyThread u f).threads v = s.threads v := Function.update_of_ne h ..

theorem live_of_running (h : (s.threads u).phase = .running) : s.Live u := by
  rw [Live, h]
  exact Phase.noConfusion

theorem freeSlot_spec (h : s.freeSlot = some i) :
    i ≠ mainSlot ∧ (s.thread_table i).inUse = false := by
  simpa using List.find?_some h

theorem get_thread_spec {thread : ℕ} (h : s.get_thread thread = some i) :
    (s.thread_table i).inUse = true := by
  simp only [get_thread] at h
  split at h
  · split at h
    · rename_i hused
      obtain rfl := Option.some.inj h
      exact hused
    · cases h
  · cases h

theorem get_thread_index_spec {tid : ThreadID} (h : s.get_thread_index tid = some i) :
    (s.thread_table i).inUse = true ∧ (s.thread_table i).threadID = tid := by
  simpa using List.find?_some h

theorem init_thread_table_of_initialized (h : s.thread_table_initialized = true) (u : Uid) :
    s.init_thread_table u = s := by
  rw [init_thread_table, if_pos h]

@[simp] theorem init_thread_table_initialized (s : ThreadState) (u : Uid) :
    (s.init_thread_table u).thread_table_initialized = true := by
  simp only [init_thread_table]
  split
  · assumption
  · rfl

@[simp] theorem init_thread_table_threads (s : ThreadState) (u : Uid) :
    (s.init_thread_table u).threads = s.threads := by
  simp only [init_thread_table]
  split <;> rfl

theorem pthread_self_state (s : ThreadState) (u : Uid) :
    (s.pthread_self u).2 = s.init_thread_table u := by
  rw [pthread_self]
  split <;> rfl

/-- `s` with a new thread for slot `i`, and `e` in it. -/
def withThread (s : ThreadState) (i : Slot) (tid : ThreadID) (e : ThreadEntry) : ThreadState :=
  { s with
    thread_table := Function.update s.thread_table i e
    threads := Function.update s.threads s.created ⟨tid, i, .ready, [], none⟩
    created := s.created + 1
    owner := Function.update s.owner i s.created }

section WithThread

variable {j : Slot} {v : Uid} {tid : ThreadID} {e : ThreadEntry}

@[simp] theorem withThread_newborn :
    (s.withThread i tid e).threads s.created = ⟨tid, i, .ready, [], none⟩ := Function.update_self ..

theorem withThread_older (h : v ≠ s.created) : (s.withThread i tid e).threads v = s.threads v :=
  Function.update_of_ne h ..

theorem withThread_live (h : v ≠ s.created) : (s.withThread i tid e).Live v ↔ s.Live v := by
  rw [Live, Live, withThread_older h]

@[simp] theorem withThread_table_self : (s.withThread i tid e).thread_table i = e :=
  Function.update_self ..

@[simp] theorem withThread_owner_self : (s.withThread i tid e).owner i = s.created :=
  Function.update_self ..

theorem withThread_table (h : j ≠ i) : (s.withThread i tid e).thread_table j = s.thread_table j :=
  Function.update_of_ne h ..

theorem withThread_owner (h : j ≠ i) : (s.withThread i tid e).owner j = s.owner j :=
  Function.update_of_ne h ..

end WithThread

/-- What pthread_create leaves, once the table is initialised: nothing but it; or a slot whose entry is
    wiped; or a new thread for a slot. -/
theorem pthread_create_cases (s : ThreadState) (u : Uid) (attr : Option PthreadAttr)
    (start_routine arg : Ptr) (newThread : ℕ → Option ThreadID) :
    let t := s.init_thread_table u
    let made := s.pthread_create u attr start_routine arg newThread
    (t.freeSlot = none ∧ made = (.error EAGAIN, t)) ∨
    (∃ i, t.freeSlot = some i ∧ (∀ tid, newThread (stackSize attr) = some tid → ¬ t.Unused tid) ∧
      made = (.error EAGAIN, t.modifyEntry i fun _ =>
        ⟨0, false, createDetached attr, false, 0, start_routine, arg⟩)) ∨
    ∃ i tid, t.freeSlot = some i ∧ newThread (stackSize attr) = some tid ∧ t.Unused tid ∧
      made = (.ok (handle i), t.withThread i tid
        ⟨tid, true, createDetached attr, false, 0, start_routine, arg⟩) := by
  intro t made
  have hinit : t.init_thread_table u = t :=
    init_thread_table_of_initialized (init_thread_table_initialized s u) u
  cases hfree : t.freeSlot with
  | none =>
    refine .inl ⟨rfl, ?_⟩
    simp only [made, pthread_create, alloc_thread, t, hinit, hfree]
  | some i =>
    refine .inr ?_
    have hmade : made = (match (t.modifyEntry i fun _ =>
        ⟨0, true, createDetached attr, false, 0, start_routine, arg⟩).NewThread i
          (newThread (stackSize attr)) with
      | some s => (.ok (handle i), s)
      | none => (.error EAGAIN, t.modifyEntry i fun _ =>
          ⟨0, false, createDetached attr, false, 0, start_routine, arg⟩)) := by
      simp only [made, pthread_create, alloc_thread, t, hinit, hfree]
      simp [modifyEntry, ThreadEntry.zero]
    rw [hmade]
    cases htid : newThread (stackSize attr) with
    | none => exact .inl ⟨i, rfl, fun tid h => (by cases h), rfl⟩
    | some tid =>
      by_cases hunused : t.Unused tid
      · refine .inr ⟨i, tid, rfl, rfl, hunused, ?_⟩
        rw [NewThread, if_pos (show (t.modifyEntry i _).Unused tid from hunused)]
        simp [modifyEntry, withThread]
      · refine .inl ⟨i, rfl, ?_, ?_⟩
        · intro tid' h
          obtain rfl := Option.some.inj h
          exact hunused
        · rw [NewThread, if_neg (show ¬ (t.modifyEntry i _).Unused tid from hunused)]

end Calls

end ThreadState

end Posix9
