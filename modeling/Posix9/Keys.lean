import Posix9.ThreadSteps

/-! The keys of thread-specific data. pthread_key_create takes the first key that is not in use, in the
    tables as they stand; init_thread_table, which pthread_self and pthread_create call, forgets every key
    the first time it runs. So keys stay apart as long as none is created before that. -/

namespace Posix9
open Runs

/-- The threads, and the destructor of each key that has been created and not deleted since. -/
structure Keyed where
  state : ThreadState
  live : Key → Option Ptr

namespace ThreadState

/-- The key that the step creates or deletes, and the destructor it then has. -/
def keyWritten (s : ThreadState) : ThreadInput → Option (Key × Option Ptr)
  | .call u (.pthread_key_create destructor) =>
    if (s.threads u).phase = .running then
      ((s.pthread_key_create destructor).1.toOption.bind keyOf).map fun k => (k, some destructor)
    else none
  | .call u (.pthread_key_delete key) =>
    if (s.threads u).phase = .running then (keyOf key).map fun k => (k, none) else none
  | _ => none

/-- The step makes init_thread_table run for the first time. -/
def initialises (s : ThreadState) : ThreadInput → Bool
  | .call u .pthread_self | .call u (.pthread_create ..) =>
    !s.thread_table_initialized && (s.threads u).phase = .running
  | _ => false

end ThreadState

namespace Keyed

variable {s : Keyed} {t : ThreadState} {u : Uid} {k : Key}

def start (main : ThreadID) : Keyed := ⟨.start main, fun _ => none⟩

def step (s : Keyed) (a : ThreadInput) : Keyed where
  state := s.state.step a
  live :=
    match s.state.keyWritten a with
    | some (k, destructor) => Function.update s.live k destructor
    | none => s.live

/-- Whichever pthread_key_create succeeds next, its key is not live, and every live key has the destructor
    it was created with. -/
structure Distinct (s : Keyed) : Prop where
  fresh : ∀ destructor key, (s.state.pthread_key_create destructor).1 = .ok key →
    ∀ k, s.live k ≠ none → k.val ≠ key
  registered : ∀ k destructor, s.live k = some destructor → s.state.tls_destructors k = destructor

/-- No key is live when the table is initialised. -/
def Early (s : Keyed) (a : ThreadInput) : Prop := s.state.initialises a = true → ∀ k, s.live k = none

instance (s : Keyed) (a : ThreadInput) : Decidable (s.Early a) :=
  inferInstanceAs (Decidable (_ → ∀ k, s.live k = none))

/-- What carries the law: a live key is in use, with its destructor. -/
def Kept (s : Keyed) : Prop :=
  ∀ k destructor, s.live k = some destructor →
    s.state.tls_key_used k = true ∧ s.state.tls_destructors k = destructor

end Keyed

namespace ThreadState

variable {s : ThreadState} {u : Uid} {k : Key}

theorem freeKey_spec (h : s.freeKey = some k) : s.tls_key_used k = false := by
  simpa using List.find?_some h

theorem keyOf_val (k : Key) : keyOf k.val = some k := dif_pos k.isLt

/-- pthread_create leaves the keys as the initialisation of the table does. -/
theorem keys_pthread_create (s : ThreadState) (u : Uid) (attr : Option PthreadAttr)
    (start_routine arg : Ptr) (newThread : ℕ → Option ThreadID) :
    (s.pthread_create u attr start_routine arg newThread).2.tls_key_used =
        (s.init_thread_table u).tls_key_used ∧
      (s.pthread_create u attr start_routine arg newThread).2.tls_destructors =
        (s.init_thread_table u).tls_destructors := by
  rcases s.pthread_create_cases u attr start_routine arg newThread with
    ⟨_, hmade⟩ | ⟨i, _, _, hmade⟩ | ⟨i, tid, _, _, _, hmade⟩ <;>
  · rw [hmade]
    exact ⟨rfl, rfl⟩

theorem keys_pthread_setspecific (s : ThreadState) (u : Uid) (key : ℕ) (value : Ptr) :
    (s.pthread_setspecific u key value).2.tls_key_used = s.tls_key_used ∧
      (s.pthread_setspecific u key value).2.tls_destructors = s.tls_destructors := by
  rw [pthread_setspecific]
  split
  · exact ⟨rfl, rfl⟩
  · split <;> exact ⟨rfl, rfl⟩

end ThreadState

namespace Keyed

variable {s : Keyed} {t : ThreadState} {u : Uid} {k : Key}

/-! ### A step -/

theorem Kept.distinct (h : s.Kept) : s.Distinct := by
  refine ⟨?_, ?_⟩
  · intro destructor key hkey k hlive heq
    obtain ⟨d, hd⟩ := Option.ne_none_iff_exists'.mp hlive
    have hused := (h k d hd).1
    rw [ThreadState.pthread_key_create] at hkey
    split at hkey
    · rename_i k' hfree
      have hval : k'.val = key := Except.ok.inj hkey
      obtain rfl : k = k' := Fin.ext (heq.trans hval.symm)
      rw [ThreadState.freeKey_spec hfree] at hused
      cases hused
    · cases hkey
  · intro k d hd
    exact (h k d hd).2

theorem Kept.start (main : ThreadID) : (start main).Kept := by
  intro k d hd
  cases hd

theorem Kept.keeps (h : s.Kept) (hkeys : t.tls_key_used = s.state.tls_key_used ∧
    t.tls_destructors = s.state.tls_destructors) : Kept ⟨t, s.live⟩ := by
  intro k d hd
  dsimp only at hd ⊢
  rw [hkeys.1, hkeys.2]
  exact h k d hd

/-- The first initialisation finds no live key. -/
theorem Kept.init (h : s.Kept)
    (hearly : s.state.thread_table_initialized = false → ∀ k, s.live k = none) :
    Kept ⟨s.state.init_thread_table u, s.live⟩ := by
  cases hinit : s.state.thread_table_initialized with
  | true =>
    rw [ThreadState.init_thread_table_of_initialized hinit]
    exact h
  | false =>
    intro k d hd
    dsimp only at hd
    rw [hearly hinit k] at hd
    cases hd

theorem step_of_not_written {a : ThreadInput} (h : s.state.keyWritten a = none) :
    s.step a = ⟨s.state.step a, s.live⟩ := by
  rw [step, h]

theorem Kept.create (h : s.Kept) (hu : (s.state.threads u).phase = .running) (destructor : Ptr) :
    (s.step (.call u (.pthread_key_create destructor))).Kept := by
  rw [Keyed.step, ThreadState.step, if_pos hu, ThreadState.keyWritten, if_pos hu, ThreadState.exec,
    ThreadState.pthread_key_create]
  cases hfree : s.state.freeKey with
  | none => exact h
  | some k =>
    intro j d hd
    dsimp only [Except.toOption, Option.bind] at hd ⊢
    rw [ThreadState.keyOf_val] at hd
    dsimp only [Option.map] at hd
    rcases eq_or_ne j k with rfl | hne
    · rw [Function.update_self] at hd ⊢
      rw [Function.update_self]
      exact ⟨rfl, Option.some.inj hd⟩
    · rw [Function.update_of_ne hne] at hd ⊢
      rw [Function.update_of_ne hne]
      exact h j d hd

theorem Kept.delete (h : s.Kept) (hu : (s.state.threads u).phase = .running) (key : ℕ) :
    (s.step (.call u (.pthread_key_delete key))).Kept := by
  rw [Keyed.step, ThreadState.step, if_pos hu, ThreadState.keyWritten, if_pos hu, ThreadState.exec,
    ThreadState.pthread_key_delete]
  cases hkey : ThreadState.keyOf key with
  | none => exact h
  | some k =>
    intro j d hd
    dsimp only [Option.map] at hd ⊢
    rcases eq_or_ne j k with rfl | hne
    · rw [Function.update_self] at hd
      cases hd
    · rw [Function.update_of_ne hne] at hd ⊢
      rw [Function.update_of_ne hne]
      exact h j d hd

theorem Kept.step (h : s.Kept) (a : ThreadInput) (hearly : s.Early a) : (s.step a).Kept := by
  by_cases hstoring : s.state.StoringCall a
  · obtain ⟨u, c, rfl, hu, hc⟩ := hstoring
    have hstep : s.state.step (.call u c) = s.state.exec u c := by rw [ThreadState.step, if_pos hu]
    have hfirst : (s.state.thread_table_initialized = false → s.state.initialises (.call u c) = true) →
        s.state.thread_table_initialized = false → ∀ k, s.live k = none :=
      fun hc hinit => hearly (hc hinit)
    cases c with
    | pthread_create attr start_routine arg newThread =>
      rw [step_of_not_written rfl, hstep]
      have hinit : Kept ⟨s.state.init_thread_table u, s.live⟩ := by
        refine h.init (hfirst ?_)
        intro hinit
        simp [ThreadState.initialises, hinit, hu]
      exact hinit.keeps (ThreadState.keys_pthread_create s.state u attr start_routine arg newThread)
    | pthread_self =>
      rw [step_of_not_written rfl, hstep, ThreadState.exec, ThreadState.pthread_self_state]
      refine h.init (hfirst ?_)
      intro hinit
      simp [ThreadState.initialises, hinit, hu]
    | pthread_key_create destructor => exact h.create hu destructor
    | pthread_setspecific key value =>
      rw [step_of_not_written rfl, hstep]
      exact h.keeps (ThreadState.keys_pthread_setspecific s.state u key value)
    | _ => exact hc.elim
  · by_cases hdelete : ∃ u key, a = .call u (.pthread_key_delete key)
    · obtain ⟨u, key, rfl⟩ := hdelete
      by_cases hu : (s.state.threads u).phase = .running
      · exact h.delete hu key
      · have hwritten : s.state.keyWritten (.call u (.pthread_key_delete key)) = none := if_neg hu
        rw [step_of_not_written hwritten, ThreadState.step, if_neg hu]
        exact h
    · have hframe := ThreadState.frame_step hstoring fun u key heq => hdelete ⟨u, key, heq⟩
      have hwritten : s.state.keyWritten a = none := by
        cases a with
        | call u c =>
          cases c with
          | pthread_key_create destructor =>
            exact if_neg fun hu => hstoring ⟨u, _, rfl, hu, trivial⟩
          | pthread_key_delete key => exact absurd ⟨u, key, rfl⟩ hdelete
          | _ => rfl
        | returns | begins | resumes => rfl
      rw [step_of_not_written hwritten]
      exact h.keeps ⟨hframe.tls_key_used, hframe.tls_destructors⟩

/-! ### Runs -/

/-- In a run from the start in which no key is live when the table is initialised, a new key is always
    different from the live ones, and these keep their destructors. -/
theorem distinct_of_early (main : ThreadID) (as : List ThreadInput)
    (hearly : Meets step Early (start main) as) : Always step Distinct (start main) as := by
  refine (always_of_meets (I := Kept) ?_ (Kept.start main) hearly).mono fun s hs => hs.distinct
  intro s a hs ha
  exact hs.step a ha

/-- The table is initialised, and two keys are created, one of them anew. -/
theorem distinct_after_pthread_self : Always step Distinct (start 2) [
    .call 0 .pthread_self, .call 0 (.pthread_key_create 900), .call 0 (.pthread_key_create 901),
    .call 0 (.pthread_key_delete 0), .call 0 (.pthread_key_create 902)] :=
  distinct_of_early 2 _ (by decide +kernel)

/-- A key is created before the table is initialised; the next one is the same. -/
theorem key_created_twice : ¬ ∀ (main : ThreadID) (as : List ThreadInput),
    Always step Distinct (start main) as := by
  intro h
  have hlaw := (h 2 [.call 0 (.pthread_key_create 900), .call 0 .pthread_self]).last
  exact hlaw.fresh 901 0 (by decide +kernel) ⟨0, by decide⟩ (by decide +kernel) rfl

end Keyed

end Posix9
