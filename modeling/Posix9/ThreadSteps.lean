import Posix9.ThreadData

/-! What the steps of the threads leave alone. Every thread keeps the entry it was created for. Only
    pthread_create hands a slot to a thread, and only pthread_key_create, pthread_key_delete and the first
    initialisation of the table write the keys. -/

namespace Posix9

namespace ThreadState

variable {s t : ThreadState} {u v : Uid} {i : Slot}

/-- The step makes no thread, hands on no slot, and leaves the keys as they are. -/
structure Frame (s t : ThreadState) : Prop where
  entry : ∀ u, (t.threads u).entry = (s.threads u).entry
  owner : t.owner = s.owner
  created : t.created = s.created
  initialized : t.thread_table_initialized = s.thread_table_initialized
  tls_data : t.tls_data = s.tls_data
  tls_key_used : t.tls_key_used = s.tls_key_used
  tls_destructors : t.tls_destructors = s.tls_destructors

theorem Frame.refl (s : ThreadState) : Frame s s := ⟨fun _ => rfl, rfl, rfl, rfl, rfl, rfl, rfl⟩

theorem Frame.trans {r : ThreadState} (h : Frame r s) (h' : Frame s t) : Frame r t where
  entry u := (h'.entry u).trans (h.entry u)
  owner := h'.owner.trans h.owner
  created := h'.created.trans h.created
  initialized := h'.initialized.trans h.initialized
  tls_data := h'.tls_data.trans h.tls_data
  tls_key_used := h'.tls_key_used.trans h.tls_key_used
  tls_destructors := h'.tls_destructors.trans h.tls_destructors

section Frame

variable {r : ThreadState} (h : Frame r s)
include h

/-- What is stored in a slot is no part of the frame. -/
theorem Frame.modifyEntry (i : Slot) (f : ThreadEntry → ThreadEntry) : Frame r (s.modifyEntry i f) :=
  h.trans ⟨fun _ => rfl, rfl, rfl, rfl, rfl, rfl, rfl⟩

/-- What changes of a thread of the Thread Manager may be anything but its entry. -/
theorem Frame.modifyThread {f : MacThread → MacThread} (hf : ∀ m, (f m).entry = m.entry) :
    Frame r (s.modifyThread u f) := by
  refine h.trans ⟨fun v => ?_, rfl, rfl, rfl, rfl, rfl, rfl⟩
  rcases eq_or_ne v u with rfl | hne
  · simp [ThreadState.modifyThread, hf]
  · simp [ThreadState.modifyThread, hne]

theorem Frame.record (e : ThreadEvent) : Frame r (s.record e) :=
  h.trans ⟨fun _ => rfl, rfl, rfl, rfl, rfl, rfl, rfl⟩

theorem Frame.terminates (u : Uid) : Frame r (s.terminates u) := h.modifyThread fun _ => rfl

/-- A round of destructors calls one and clears a value. The slots it leaves alone. -/
theorem Frame.runDestructors (u : Uid) (idx : Slot) (key : ℕ) : Frame r (s.runDestructors u idx key) := by
  rw [ThreadState.runDestructors]
  split
  · refine (h.modifyThread ?_).record _
    intro m
    rfl
  · exact h.terminates u

end Frame

/-- A thread that ends leaves its result, and its slot to whoever reclaims it. -/
theorem Frame.marked (s : ThreadState) (u : Uid) (result : Ptr) (i : Option Slot) :
    Frame s (s.marked u result i) := by
  have hended : Frame s (s.modifyThread u fun m => { m with ended := some result }) := by
    refine (Frame.refl s).modifyThread ?_
    intro m
    rfl
  cases i with
  | none => exact hended
  | some i => exact (hended.modifyEntry i _).record _

/-- A step that neither stores nor deletes a key. -/
theorem frame_of_case {a : ThreadInput} (h : s.Case a t)
    (hdelete : ∀ u key, a ≠ .call u (.pthread_key_delete key)) : Frame s t := by
  have hrefl := Frame.refl s
  cases h with
  | idle => exact hrefl
  | deletes u key => exact absurd rfl (hdelete u key)
  | begins u =>
    refine (hrefl.modifyThread ?_).record _
    intro m
    rfl
  | cancels u thread i => exact hrefl.modifyEntry i _
  | detaches u thread i => exact hrefl.modifyEntry i _
  | frees u thread i => exact (hrefl.modifyEntry i _).modifyEntry i _
  | waits a u i retval target =>
    refine hrefl.modifyThread ?_
    intro m
    rfl
  | joins a u i retval target =>
    refine ((hrefl.record _).modifyEntry i _).modifyThread ?_
    intro m
    rfl
  | goesOn u result l rest =>
    refine (hrefl.modifyThread ?_).runDestructors u _ _
    intro m
    rfl
  | ends a u result i idx =>
    cases idx with
    | none => exact (Frame.marked s u result i).terminates u
    | some idx => exact (Frame.marked s u result i).runDestructors u idx 0

/-- The same of one step: only the calls that store, and pthread_key_delete, break the frame. -/
theorem frame_step {a : ThreadInput} (h : ¬ s.StoringCall a)
    (hdelete : ∀ u key, a ≠ .call u (.pthread_key_delete key)) : Frame s (s.step a) :=
  frame_of_case (case_step h) hdelete

/-- The step changes neither an entry nor a thread. -/
structure SameTable (s t : ThreadState) : Prop where
  thread_table : t.thread_table = s.thread_table
  threads : t.threads = s.threads
  created : t.created = s.created
  owner : t.owner = s.owner
  initialized : t.thread_table_initialized = s.thread_table_initialized

theorem SameTable.refl (s : ThreadState) : SameTable s s := ⟨rfl, rfl, rfl, rfl, rfl⟩

/-- The calls on keys and values leave the table of threads alone. -/
theorem sameTable_key_create (s : ThreadState) (destructor : Ptr) :
    SameTable s (s.pthread_key_create destructor).2 := by
  rw [pthread_key_create]
  split
  · exact ⟨rfl, rfl, rfl, rfl, rfl⟩
  · exact SameTable.refl s

theorem sameTable_key_delete (s : ThreadState) (key : ℕ) : SameTable s (s.pthread_key_delete key).2 := by
  rw [pthread_key_delete]
  split
  · exact SameTable.refl s
  · exact ⟨rfl, rfl, rfl, rfl, rfl⟩

theorem sameTable_setspecific (s : ThreadState) (u : Uid) (key : ℕ) (value : Ptr) :
    SameTable s (s.pthread_setspecific u key value).2 := by
  rw [pthread_setspecific]
  split
  · exact SameTable.refl s
  · split
    · exact SameTable.refl s
    · exact ⟨rfl, rfl, rfl, rfl, rfl⟩

/-- Every thread keeps the entry it was created for, and every slot its thread. -/
structure Tenants (s t : ThreadState) : Prop where
  entry : ∀ u, (t.threads u).entry = (s.threads u).entry
  owner : t.owner = s.owner
  created : t.created = s.created
  initialized : t.thread_table_initialized = s.thread_table_initialized

theorem SameTable.tenants (h : SameTable s t) : Tenants s t :=
  ⟨fun u => by rw [h.threads], h.owner, h.created, h.initialized⟩

theorem Frame.tenants (h : Frame s t) : Tenants s t := ⟨h.entry, h.owner, h.created, h.initialized⟩

/-- No step but the storing calls hands a slot on. -/
theorem tenants_step {a : ThreadInput} (h : ¬ s.StoringCall a) : Tenants s (s.step a) := by
  by_cases hdelete : ∃ u key, a = .call u (.pthread_key_delete key)
  · obtain ⟨u, key, rfl⟩ := hdelete
    rw [step]
    split
    · exact (sameTable_key_delete s key).tenants
    · exact (SameTable.refl s).tenants
  · refine (frame_step h ?_).tenants
    intro u key heq
    exact hdelete ⟨u, key, heq⟩

/-- A step that stores nothing takes no slot, and frees the one it gives back. -/
theorem inUse_step {a : ThreadInput} (h : ¬ s.StoringCall a) (i : Slot) :
    ((s.step a).thread_table i).inUse = true ↔
      (s.thread_table i).inUse = true ∧ s.released a ≠ some i := by
  rcases quiet_of_not_storing h with ⟨hnone, hstill⟩ | ⟨j, hsome, hrel⟩
  · rw [(hstill.entry i).1, hnone]
    simp
  · rw [hsome]
    rcases eq_or_ne i j with rfl | hne
    · simp [hrel.gone]
    · rw [(hrel.entry i hne).1]
      simp [hne.symm]

@[simp] theorem init_thread_table_created (s : ThreadState) (u : Uid) :
    (s.init_thread_table u).created = s.created := by
  simp only [init_thread_table]
  split <;> rfl

@[simp] theorem init_thread_table_owner (s : ThreadState) (u : Uid) :
    (s.init_thread_table u).owner = s.owner := by
  simp only [init_thread_table]
  split <;> rfl

@[simp] theorem init_thread_table_log (s : ThreadState) (u : Uid) :
    (s.init_thread_table u).log = s.log := by
  simp only [init_thread_table]
  split <;> rfl

/-! ### Lookups -/

/-- The search takes the first slot that fits. -/
theorem find?_finRange {n : ℕ} {p : Fin n → Bool} {i : Fin n} :
    (List.finRange n).find? p = some i ↔ p i = true ∧ ∀ j < i, p j = false := by
  rw [List.find?_eq_some_iff_getElem]
  refine and_congr_right fun _ => ⟨?_, fun h => ?_⟩
  · rintro ⟨m, hm, rfl, hbefore⟩ j hj
    have hlt : j.val < m := by simpa [Fin.lt_def] using hj
    have hbool := hbefore j.val hlt
    simpa using hbool
  · refine ⟨i.val, by simp, by simp, fun j hj => ?_⟩
    have hfalse := h ⟨j, hj.trans i.isLt⟩ hj
    simpa using hfalse

/-- get_thread_index only reads what these have in common. -/
theorem SameTable.index (h : SameTable s t) (u : Uid) : t.index u = s.index u := by
  rw [ThreadState.index, ThreadState.index, get_thread_index, get_thread_index, h.thread_table, h.threads]

/-- The thread that initialises the table gets the main thread's slot. -/
theorem index_init_of_uninit (hinit : s.thread_table_initialized = false) (u : Uid) :
    (s.init_thread_table u).index u = some mainSlot := by
  refine find?_finRange.mpr ⟨?_, ?_⟩
  · simp [init_thread_table, hinit]
  · intro j hj
    exact absurd hj (Nat.not_lt_zero _)

end ThreadState

end Posix9
