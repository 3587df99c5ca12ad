import Posix9.ThreadSteps

/-! pthread_self and the `pthread_t` that pthread_create has stored. pthread_self finds a thread by its ID,
    in the first slot in use that has it, and the Thread Manager may give the ID of a thread that has
    ended to a new one. The new thread is found in its own slot as long as no slot before it has kept the
    ID, and no slot is given back before its thread is gone. -/

namespace Posix9
open Runs

/-- The threads, and what the pthread_create that started each of them has stored. -/
structure Handed where
  state : ThreadState
  stored : Uid → ℕ

namespace ThreadState

/-- The `pthread_t` that the step stores. -/
def stores (s : ThreadState) : ThreadInput → Option ℕ
  | .call u (.pthread_create attr start_routine arg newThread) =>
    if (s.threads u).phase = .running then
      (s.pthread_create u attr start_routine arg newThread).1.toOption
    else none
  | _ => none

/-- No slot before the one for the new thread is in use and has its ID. -/
def FoundFirst (s : ThreadState) (u : Uid) : ThreadCall → Prop
  | .pthread_create attr _ _ newThread =>
    let s := s.init_thread_table u
    ∀ i ∈ s.freeSlot, ∀ tid ∈ newThread (stackSize attr), s.Unused tid →
      ∀ j < i, (s.thread_table j).inUse = true → (s.thread_table j).threadID ≠ tid
  | _ => True

/-- No slot in use is given back while its thread is there, and a new thread is found first in its own. -/
def Tidy (s : ThreadState) (a : ThreadInput) : Prop :=
  (∀ i ∈ s.released a, (s.thread_table i).inUse = true →
    ∀ v < s.created, s.Live v → (s.threads v).entry ≠ i) ∧
    match a with
    | .call u c => (s.threads u).phase = .running → s.FoundFirst u c
    | _ => True

instance (s : ThreadState) (u : Uid) : (c : ThreadCall) → Decidable (s.FoundFirst u c)
  | .pthread_create attr _ _ newThread => inferInstanceAs (Decidable
      (∀ i ∈ (s.init_thread_table u).freeSlot, ∀ tid ∈ newThread (stackSize attr),
        (s.init_thread_table u).Unused tid → ∀ j < i,
          ((s.init_thread_table u).thread_table j).inUse = true →
            ((s.init_thread_table u).thread_table j).threadID ≠ tid))
  | .pthread_join .. | .pthread_detach _ | .pthread_exit _ | .pthread_self | .pthread_cancel _
  | .pthread_key_create _ | .pthread_key_delete _ | .pthread_getspecific _
  | .pthread_setspecific .. => .isTrue trivial

instance (s : ThreadState) : (a : ThreadInput) → Decidable (s.Tidy a)
  | .call u c => inferInstanceAs (Decidable
      ((∀ i ∈ s.released (.call u c), (s.thread_table i).inUse = true →
        ∀ v < s.created, s.Live v → (s.threads v).entry ≠ i) ∧
          ((s.threads u).phase = .running → s.FoundFirst u c)))
  | .returns .. | .begins _ | .resumes _ => inferInstanceAs (Decidable
      ((∀ i ∈ s.released _, (s.thread_table i).inUse = true →
        ∀ v < s.created, s.Live v → (s.threads v).entry ≠ i) ∧ True))

end ThreadState

namespace Handed

variable {s : Handed} {u v : Uid} {i : Slot}

def start (main : ThreadID) : Handed where
  state := .start main
  stored u := if u = mainThread then 1 else 0

def step (s : Handed) (a : ThreadInput) : Handed where
  state := s.state.step a
  stored :=
    match s.state.stores a with
    | some thread => Function.update s.stored s.state.created thread
    | none => s.stored

/-- Whichever thread calls pthread_self next gets what pthread_create has stored for it, the main thread
    1, and no two threads get the same, or read the same row. -/
structure Own (s : Handed) : Prop where
  creation : ∀ u, s.state.Live u → (s.state.pthread_self u).1 = s.stored u
  main : s.state.Live mainThread → (s.state.pthread_self mainThread).1 = 1
  apart : ∀ u v, s.state.Live u → s.state.Live v →
    (s.state.pthread_self u).1 = (s.state.pthread_self v).1 → u = v
  rows : ∀ u v i, s.state.Live u → s.state.Live v → s.state.index u = some i →
    s.state.index v = some i → u = v

/-- What carries the law: a thread is found in the slot it was created for, once the table is
    initialised. -/
structure Found (s : Handed) : Prop where
  sound : s.state.Sound
  main : (s.state.threads mainThread).entry = mainSlot ∧ 0 < s.state.created
  alone : s.state.thread_table_initialized = false → ∀ u, s.state.Live u → u = mainThread
  stored : ∀ u, s.state.Live u → s.stored u = ThreadState.handle (s.state.threads u).entry
  found : ∀ u, s.state.Live u →
    (s.state.init_thread_table u).index u = some (s.state.threads u).entry

end Handed

namespace ThreadState

variable {s t : ThreadState} {u v : Uid} {i j : Slot} {tid : ThreadID}

/-! ### Handles -/

theorem handle_inj (h : handle i = handle j) : i = j := Fin.ext (Nat.succ.inj h)

theorem pthread_self_eq_handle :
    (s.pthread_self u).1 = handle i ↔ (s.init_thread_table u).index u = some i := by
  rw [pthread_self]

  cases hindex : (s.init_thread_table u).index u with
  | none => simp [handle]
  | some j =>
    constructor
    · intro h
      rw [handle_inj h]
    · intro h
      rw [Option.some.inj h]

theorem stores_of_not_storing {a : ThreadInput} (h : ¬ s.StoringCall a) : s.stores a = none := by
  cases a with
  | call u c =>
    cases c with
    | pthread_create attr start_routine arg newThread =>
      refine if_neg fun hu => h ⟨u, _, rfl, hu, trivial⟩
    | _ => rfl
  | returns | begins | resumes => rfl

/-- Of a step that stores nothing only the slot it gives back matters. -/
theorem tidy_iff_of_not_storing {a : ThreadInput} (h : ¬ s.StoringCall a) :
    s.Tidy a ↔ ∀ i ∈ s.released a, (s.thread_table i).inUse = true →
      ∀ v < s.created, s.Live v → (s.threads v).entry ≠ i := by
  cases a with
  | call u c =>
    refine and_iff_left fun hu => ?_
    cases c with
    | pthread_create => exact absurd ⟨u, _, rfl, hu, trivial⟩ h
    | _ => trivial
  | returns | begins | resumes => exact and_iff_left trivial

/-- The new thread is found in its own slot just when no slot in use before it has its ID. -/
theorem indexWith_eq : s.indexWith i tid = some i ↔
    ∀ j < i, (s.thread_table j).inUse = true → (s.thread_table j).threadID ≠ tid := by
  rw [indexWith, find?_finRange, and_iff_right (by simp)]
  refine forall₂_congr fun j hj => ?_
  simp [hj.ne]

end ThreadState

namespace Handed

variable {s : Handed} {t : ThreadState} {u v : Uid} {i : Slot}

/-! ### The law holds -/

theorem Found.start (main : ThreadID) : (start main).Found := by
  refine ⟨ThreadState.Sound.start main, ⟨rfl, Nat.zero_lt_one⟩, ?_, ?_, ?_⟩
  · intro _ u hu
    exact ThreadState.live_start hu
  · intro u hu
    obtain rfl := ThreadState.live_start hu
    rfl
  · intro u hu
    obtain rfl := ThreadState.live_start hu
    exact ThreadState.index_init_of_uninit rfl mainThread

theorem Found.index_eq (h : s.Found) (hinit : s.state.thread_table_initialized = true)
    (hu : s.state.Live u) : s.state.index u = some (s.state.threads u).entry := by
  have hfound := h.found u hu
  rwa [ThreadState.init_thread_table_of_initialized hinit] at hfound

theorem Found.entry_inj (h : s.Found) (hu : s.state.Live u) (hv : s.state.Live v)
    (heq : (s.state.threads u).entry = (s.state.threads v).entry) : u = v := by
  cases hinit : s.state.thread_table_initialized with
  | true => exact h.sound.index_inj hu hv (h.index_eq hinit hu) (heq ▸ h.index_eq hinit hv)
  | false => rw [h.alone hinit u hu, h.alone hinit v hv]

theorem Found.own (h : s.Found) : s.Own := by
  have hself : ∀ u, s.state.Live u →
      (s.state.pthread_self u).1 = ThreadState.handle (s.state.threads u).entry := by
    intro u hu
    exact ThreadState.pthread_self_eq_handle.mpr (h.found u hu)
  refine ⟨?_, ?_, ?_, ?_⟩
  · intro u hu
    rw [hself u hu, h.stored u hu]
  · intro hmain
    rw [hself mainThread hmain, h.main.1]
    rfl
  · intro u v hu hv heq
    rw [hself u hu, hself v hv] at heq
    exact h.entry_inj hu hv (ThreadState.handle_inj heq)
  · intro u v i hu hv
    exact h.sound.index_inj hu hv

/-! ### A step -/

/-- The step makes no thread, and changes no lookup. -/
theorem Found.keeps (h : s.Found) (hsound : t.Sound) (hcreated : t.created = s.state.created)
    (hinit : t.thread_table_initialized = s.state.thread_table_initialized)
    (hlive : ∀ u, t.Live u → s.state.Live u)
    (hentry : ∀ u, (t.threads u).entry = (s.state.threads u).entry)
    (hindex : s.state.thread_table_initialized = true → ∀ u, t.Live u → t.index u = s.state.index u) :
    Found ⟨t, s.stored⟩ := by
  refine ⟨hsound, ⟨(hentry mainThread).trans h.main.1, hcreated ▸ h.main.2⟩, ?_, ?_, ?_⟩
  · intro huninit u hu
    exact h.alone (hinit.symm.trans huninit) u (hlive u hu)
  · intro u hu
    rw [hentry]
    exact h.stored u (hlive u hu)
  · intro u hu
    have hfound := h.found u (hlive u hu)
    rw [hentry, ← hfound]
    cases hs : s.state.thread_table_initialized with
    | true =>
      rw [ThreadState.init_thread_table_of_initialized hs,
        ThreadState.init_thread_table_of_initialized (hinit.trans hs)]
      exact hindex hs u hu
    | false =>
      rw [ThreadState.index_init_of_uninit hs, ThreadState.index_init_of_uninit (hinit.trans hs)]

theorem Found.init (h : s.Found) (hu : s.state.Live u) :
    Found ⟨s.state.init_thread_table u, s.stored⟩ := by
  cases hinit : s.state.thread_table_initialized with
  | true =>
    rw [ThreadState.init_thread_table_of_initialized hinit]
    exact h
  | false =>
    have hcreated := ThreadState.init_thread_table_created s.state u
    have hthreads := ThreadState.init_thread_table_threads s.state u
    refine ⟨h.sound.init u, ?_, ?_, ?_, ?_⟩
    · dsimp only
      rw [hthreads, hcreated]
      exact h.main
    · intro huninit
      rw [ThreadState.init_thread_table_initialized] at huninit
      cases huninit
    · intro v hv
      dsimp only [ThreadState.Live] at hv ⊢
      rw [hthreads] at hv ⊢
      exact h.stored v hv
    · intro v hv
      dsimp only [ThreadState.Live] at hv ⊢
      rw [hthreads] at hv ⊢
      rw [ThreadState.init_thread_table_of_initialized
        (ThreadState.init_thread_table_initialized s.state u)]
      -- it was alone
      obtain rfl := (h.alone hinit v hv).trans (h.alone hinit u hu).symm
      exact h.found v hv

/-- A new thread is found in its own slot, and the others where they were. -/
theorem Found.withThread (h : s.Found) (hinit : s.state.thread_table_initialized = true)
    (hfree : s.state.freeSlot = some i) {tid : ThreadID} (hunused : s.state.Unused tid)
    (hfirst : ∀ j < i, (s.state.thread_table j).inUse = true → (s.state.thread_table j).threadID ≠ tid)
    {e : ThreadEntry} (he : e.inUse = true ∧ e.threadID = tid) :
    Found ⟨s.state.withThread i tid e,
      Function.update s.stored s.state.created (ThreadState.handle i)⟩ := by
  have hcreates := ThreadState.creates_withThread hinit hfree hunused he
  have hmain : mainThread ≠ s.state.created := Nat.ne_of_lt h.main.2
  refine ⟨hcreates.sound h.sound, ⟨?_, Nat.succ_pos _⟩, ?_, ?_, ?_⟩
  · dsimp only
    rw [hcreates.older mainThread hmain]
    exact h.main.1
  · intro huninit
    exact absurd (hinit.symm.trans huninit) Bool.noConfusion
  · intro u hu
    dsimp only at hu ⊢
    rcases eq_or_ne u s.state.created with rfl | hne
    · rw [Function.update_self, ThreadState.withThread_newborn]
    · rw [Function.update_of_ne hne, hcreates.older u hne]
      exact h.stored u (hcreates.live_older hne hu)
  · intro u hu
    dsimp only at hu ⊢
    rw [ThreadState.init_thread_table_of_initialized hcreates.initialized]
    rcases eq_or_ne u s.state.created with rfl | hne
    · rw [hcreates.index_newborn, ThreadState.withThread_newborn]
      exact ThreadState.indexWith_eq.mpr hfirst
    · have hlive := hcreates.live_older hne hu
      rw [hcreates.index_older (h.sound.born u hlive) hlive, hcreates.older u hne]
      exact h.index_eq hinit hlive

theorem Found.still (h : s.Found) (hstill : ThreadState.Still s.state t)
    (hentry : ∀ u, (t.threads u).entry = (s.state.threads u).entry) : Found ⟨t, s.stored⟩ :=
  h.keeps (h.sound.quiet hstill.toQuiet) hstill.created hstill.initialized hstill.live hentry
    fun _ u _ => hstill.index u

/-- A slot is given back: it was no live thread's. -/
theorem Found.releases (h : s.Found) (hrel : ThreadState.Releases s.state t i)
    (hentry : ∀ u, (t.threads u).entry = (s.state.threads u).entry)
    (hgone : (s.state.thread_table i).inUse = true →
      ∀ v < s.state.created, s.state.Live v → (s.state.threads v).entry ≠ i) :
    Found ⟨t, s.stored⟩ := by
  refine h.keeps (h.sound.quiet hrel.toQuiet) hrel.created hrel.initialized hrel.live hentry ?_
  intro hinit u hu
  have hlive := hrel.live u hu
  have hfound := h.index_eq hinit hlive
  rw [hrel.index]
  refine ThreadState.indexWithout_of_ne ?_
  rw [hfound]
  rintro ⟨rfl⟩
  exact hgone (ThreadState.get_thread_index_spec hfound).1 u (h.sound.born u hlive) hlive rfl

theorem Found.sameTable (h : s.Found) (hsame : ThreadState.SameTable s.state t) (hsound : t.Sound) :
    Found ⟨t, s.stored⟩ := by
  refine h.keeps hsound hsame.created hsame.initialized ?_ ?_ fun _ u _ => hsame.index u
  · intro u hu
    rw [ThreadState.Live, hsame.threads] at hu
    exact hu
  · intro u
    rw [hsame.threads]

theorem step_of_stores_none {a : ThreadInput} (h : s.state.stores a = none) :
    s.step a = ⟨s.state.step a, s.stored⟩ := by
  rw [step, h]

theorem Found.create (h : s.Found) (hu : (s.state.threads u).phase = .running)
    (attr : Option PthreadAttr) (start_routine arg : Ptr) (newThread : ℕ → Option ThreadID)
    (hfirst : s.state.FoundFirst u (.pthread_create attr start_routine arg newThread)) :
    (s.step (.call u (.pthread_create attr start_routine arg newThread))).Found := by
  have hinit := h.init (ThreadState.live_of_running hu)
  rw [step, ThreadState.step, if_pos hu, ThreadState.stores, if_pos hu, ThreadState.exec]
  rcases s.state.pthread_create_cases u attr start_routine arg newThread with
    ⟨hfree, hmade⟩ | ⟨i, hfree, hused, hmade⟩ | ⟨i, tid, hfree, htid, hunused, hmade⟩
  · rw [hmade]
    exact hinit
  · rw [hmade]
    exact hinit.still (ThreadState.still_wiped hfree rfl) fun _ => rfl
  · rw [hmade, ← ThreadState.init_thread_table_created s.state u]
    refine hinit.withThread (ThreadState.init_thread_table_initialized s.state u) hfree hunused
      (hfirst i hfree tid htid hunused) ?_
    exact ⟨rfl, rfl⟩

theorem Found.step (h : s.Found) (a : ThreadInput) (htidy : s.state.Tidy a) : (s.step a).Found := by
  by_cases hstoring : s.state.StoringCall a
  · obtain ⟨u, c, rfl, hu, hc⟩ := hstoring
    have hlive := ThreadState.live_of_running hu
    have hstep : s.state.step (.call u c) = s.state.exec u c := by rw [ThreadState.step, if_pos hu]
    cases c with
    | pthread_create attr start_routine arg newThread =>
      exact h.create hu attr start_routine arg newThread (htidy.2 hu)
    | pthread_self =>
      rw [step_of_stores_none rfl, hstep, ThreadState.exec, ThreadState.pthread_self_state]
      exact h.init hlive
    | pthread_key_create destructor =>
      rw [step_of_stores_none rfl, hstep, ThreadState.exec]
      exact h.sameTable (ThreadState.sameTable_key_create s.state destructor)
        (h.sound.keyCreate destructor)
    | pthread_setspecific key value =>
      rw [step_of_stores_none rfl, hstep, ThreadState.exec]
      exact h.sameTable (ThreadState.sameTable_setspecific s.state u key value)
        (h.sound.setspecific hlive key value)
    | _ => exact hc.elim
  · rw [step_of_stores_none (ThreadState.stores_of_not_storing hstoring)]
    have hentry := (ThreadState.tenants_step hstoring).entry
    have hgone := (ThreadState.tidy_iff_of_not_storing hstoring).mp htidy
    rcases ThreadState.quiet_of_not_storing hstoring with ⟨_, hstill⟩ | ⟨i, hsome, hrel⟩
    · exact h.still hstill hentry
    · exact h.releases hrel hentry (hgone i hsome)

/-! ### Every other step breaks the law -/

/-- A live thread whose slot is given back is no longer found in it. -/
theorem Found.gone (h : s.Found) (hrel : ThreadState.Releases s.state t i)
    (hused : (s.state.thread_table i).inUse = true) (hown : Own ⟨t, s.stored⟩) (hv : s.state.Live v) :
    (s.state.threads v).entry ≠ i := by
  rintro rfl
  have hinit : t.thread_table_initialized = true := by
    rw [hrel.initialized]
    by_contra huninit
    rw [h.sound.uninit (Bool.eq_false_of_not_eq_true huninit)] at hused
    cases hused
  have hself := hown.creation v (hrel.alive v hv)
  dsimp only at hself
  rw [h.stored v hv, ThreadState.pthread_self_eq_handle,
    ThreadState.init_thread_table_of_initialized hinit] at hself
  have hfound := (ThreadState.get_thread_index_spec hself).1
  rw [hrel.gone] at hfound
  cases hfound

/-- A new thread that is found first elsewhere is not given its own handle. -/
theorem foundFirst_of_own (hu : (s.state.threads u).phase = .running)
    {attr : Option PthreadAttr} {start_routine arg : Ptr} {newThread : ℕ → Option ThreadID}
    (hown : (s.step (.call u (.pthread_create attr start_routine arg newThread))).Own) :
    s.state.FoundFirst u (.pthread_create attr start_routine arg newThread) := by
  rw [step, ThreadState.step, if_pos hu, ThreadState.stores, if_pos hu, ThreadState.exec] at hown
  intro i hi tid htid hunused
  rcases s.state.pthread_create_cases u attr start_routine arg newThread with
    ⟨hfree, _⟩ | ⟨i', _, hused, _⟩ | ⟨i', tid', hfree, htid', _, hmade⟩
  · rw [hfree] at hi
    cases hi
  · exact absurd hunused (hused tid htid)
  · obtain rfl := Option.some.inj (hfree.symm.trans hi)
    obtain rfl := Option.some.inj (htid'.symm.trans htid)
    rw [hmade, ← ThreadState.init_thread_table_created s.state u] at hown
    have hcreates := ThreadState.creates_withThread
      (e := ⟨tid', true, createDetached attr, false, 0, start_routine, arg⟩)
      (ThreadState.init_thread_table_initialized s.state u) hfree hunused ⟨rfl, rfl⟩
    have hself := hown.creation (s.state.init_thread_table u).created hcreates.newborn.1
    dsimp only [Except.toOption] at hself
    rw [Function.update_self, ThreadState.pthread_self_eq_handle,
      ThreadState.init_thread_table_of_initialized hcreates.initialized] at hself
    exact ThreadState.indexWith_eq.mp (hcreates.index_newborn.symm.trans hself)

theorem Found.tidy (h : s.Found) {a : ThreadInput} (hown : (s.step a).Own) : s.state.Tidy a := by
  by_cases hstoring : s.state.StoringCall a
  · obtain ⟨u, c, rfl, hu, hc⟩ := hstoring
    refine ⟨?_, fun _ => ?_⟩
    · rw [ThreadState.released_of_stores hc]
      intro i hi
      cases hi
    · cases c with
      | pthread_create attr start_routine arg newThread => exact foundFirst_of_own hu hown
      | _ => trivial
  · rw [step_of_stores_none (ThreadState.stores_of_not_storing hstoring)] at hown
    rw [ThreadState.tidy_iff_of_not_storing hstoring]
    intro i hi hused v _ hv
    rcases ThreadState.quiet_of_not_storing hstoring with ⟨hnone, _⟩ | ⟨j, hsome, hrel⟩
    · rw [hnone] at hi
      cases hi
    · obtain rfl := Option.some.inj (hsome.symm.trans hi)
      exact h.gone hrel hused hown hv

/-! ### Runs -/

/-- In a run from the start, pthread_self is always the handle that pthread_create has stored exactly
    when no slot is given back before its thread is gone, and no new thread gets an ID that a slot in use
    before its own has kept. -/
theorem own_iff_tidy (main : ThreadID) (as : List ThreadInput) :
    Always step Own (start main) as ↔ Meets step (fun s a => s.state.Tidy a) (start main) as := by
  refine always_iff_meets (I := Found) ?_ ?_ ?_ (Found.start main)
  · intro s a hs htidy
    exact hs.step a htidy
  · intro s hs
    exact hs.own
  · intro s a hs hown
    exact hs.tidy hown

/-- A thread ends and is not joined, so that its slot stays in use with its ID; the ID comes back with the
    next thread, and pthread_self tells that one the handle of the first. -/
theorem self_is_handle_of_ended : ¬ ∀ (main : ThreadID) (as : List ThreadInput),
    Always step Own (start main) as := by
  intro h
  have hown := (h 2 [
    .call 0 (.pthread_create none 500 0 fun _ => some 3),
    .begins 1, .returns 1 0,
    .call 0 (.pthread_create none 500 0 fun _ => some 3),
    .begins 2]).last
  exact absurd (hown.creation 2 (by decide +kernel)) (by decide +kernel)

end Handed

end Posix9
