import Posix9.Handles

/-! The destructors of thread-specific data. A thread that ends calls them with what lies in the row of its
    slot, and leaves the row as it is. So a value is destroyed once as long as the row that a new thread
    gets holds nothing that would be destroyed, the slot stays with the thread until it is gone, and no
    destructor starts the loop again over values that have been destroyed. -/

namespace Posix9
open Runs

namespace ThreadState

variable {s t : ThreadState} {u v : Uid} {i idx : Slot} {j k : Key} {key : ℕ} {log : List ThreadEvent}
  {x : Option Uid}

/-! ### The law -/

/-- What the thread has set the key to, if no destructor has been called since. -/
def owed (u : Uid) (k : Key) : List ThreadEvent → Option Ptr
  | [] => none
  | .set v j value :: log => if v = u ∧ j = k then some value else owed u k log
  | .destructor v j _ :: log => if v = u ∧ j = k then none else owed u k log
  | _ :: log => owed u k log

/-- Every destructor has been called with what its thread had set last, and for the first time since. -/
def Once : List ThreadEvent → Prop
  | [] => True
  | .destructor u k value :: log => owed u k log = some value ∧ Once log
  | _ :: log => Once log

instance decidableOnce : ∀ log, Decidable (Once log)
  | [] => .isTrue trivial
  | .destructor u k value :: log =>
    have := decidableOnce log
    inferInstanceAs (Decidable (owed u k log = some value ∧ Once log))
  | .started .. :: log | .wrote .. :: log | .joined .. :: log | .keyCreated .. :: log
  | .keyDeleted .. :: log | .set .. :: log => decidableOnce log

def DestroysOnce (s : ThreadState) : Prop := Once s.log

instance (s : ThreadState) : Decidable s.DestroysOnce := decidableOnce s.log

/-- The keys are created before there is a second thread and outside of destructors, and never deleted. -/
def KeysFirst (s : ThreadState) : ThreadInput → Prop
  | .call u (.pthread_key_create _) =>
    (s.threads u).phase = .running → s.created = 1 ∧ (s.threads u).loops = []
  | .call u (.pthread_key_delete _) => (s.threads u).phase ≠ .running
  | _ => True

/-- What lies in the cell would be destroyed. -/
def Doomed (s : ThreadState) (i : Slot) (k : Key) : Prop :=
  s.tls_key_used k = true ∧ s.tls_data i k ≠ 0 ∧ s.tls_destructors k ≠ 0

/-- A new thread gets a row in which nothing would be destroyed; and a destructor that calls pthread_exit
    leaves no value that has been destroyed. -/
def Cleared (s : ThreadState) : ThreadInput → Prop
  | .call u (.pthread_create attr _ _ newThread) => (s.threads u).phase = .running →
    ∀ i ∈ (s.init_thread_table u).freeSlot, ∀ tid ∈ newThread (stackSize attr),
      (s.init_thread_table u).Unused tid → ∀ k, ¬ (s.init_thread_table u).Doomed i k
  | .call u (.pthread_exit _) => (s.threads u).phase = .running → (s.threads u).loops ≠ [] →
    ∀ i ∈ s.index u, ∀ k, s.Doomed i k → owed u k s.log ≠ none
  | _ => True

instance (s : ThreadState) (i : Slot) (k : Key) : Decidable (s.Doomed i k) :=
  inferInstanceAs (Decidable (_ ∧ _ ∧ _))

instance (s : ThreadState) : (a : ThreadInput) → Decidable (s.KeysFirst a)
  | .call u (.pthread_key_create _) => inferInstanceAs (Decidable
      ((s.threads u).phase = .running → s.created = 1 ∧ (s.threads u).loops = []))
  | .call u (.pthread_key_delete _) => inferInstanceAs (Decidable ((s.threads u).phase ≠ .running))
  | .call _ (.pthread_create ..) | .call _ (.pthread_join ..) | .call _ (.pthread_detach _)
  | .call _ (.pthread_exit _) | .call _ .pthread_self | .call _ (.pthread_cancel _)
  | .call _ (.pthread_getspecific _) | .call _ (.pthread_setspecific ..) | .returns .. | .begins _
  | .resumes _ => .isTrue trivial

instance (s : ThreadState) : (a : ThreadInput) → Decidable (s.Cleared a)
  | .call u (.pthread_create attr _ _ newThread) => inferInstanceAs (Decidable
      ((s.threads u).phase = .running → ∀ i ∈ (s.init_thread_table u).freeSlot,
        ∀ tid ∈ newThread (stackSize attr), (s.init_thread_table u).Unused tid →
          ∀ k, ¬ (s.init_thread_table u).Doomed i k))
  | .call u (.pthread_exit _) => inferInstanceAs (Decidable
      ((s.threads u).phase = .running → (s.threads u).loops ≠ [] → ∀ i ∈ s.index u, ∀ k,
        s.Doomed i k → owed u k s.log ≠ none))
  | .call _ (.pthread_join ..) | .call _ (.pthread_detach _) | .call _ .pthread_self
  | .call _ (.pthread_cancel _) | .call _ (.pthread_key_create _) | .call _ (.pthread_key_delete _)
  | .call _ (.pthread_getspecific _) | .call _ (.pthread_setspecific ..) | .returns .. | .begins _
  | .resumes _ => .isTrue trivial

/-! ### Events -/

/-- The event neither sets a value nor destroys one. -/
def Plain : ThreadEvent → Prop
  | .set .. | .destructor .. => False
  | _ => True

theorem owed_plain {e : ThreadEvent} (he : Plain e) (u : Uid) (k : Key) (log : List ThreadEvent) :
    owed u k (e :: log) = owed u k log := by
  cases e with
  | set | destructor => exact he.elim
  | _ => rfl

theorem once_plain {e : ThreadEvent} (he : Plain e) : Once (e :: log) ↔ Once log := by
  cases e with
  | set | destructor => exact he.elim
  | _ => exact Iff.rfl

theorem owed_destructor (value : Ptr) : owed v j (.destructor u k value :: log) =
    if u = v ∧ k = j then none else owed v j log := rfl

theorem owed_set (value : Ptr) : owed v j (.set u k value :: log) =
    if u = v ∧ k = j then some value else owed v j log := rfl

/-! ### What a step does to the loops -/

/-- The step sets and destroys nothing, and leaves the loops of all threads but `x` as they are. -/
structure Mute (x : Option Uid) (s t : ThreadState) : Prop where
  loops : ∀ v, some v ≠ x → (t.threads v).loops = (s.threads v).loops
  owed : ∀ v k, owed v k t.log = owed v k s.log
  once : Once s.log → Once t.log

theorem Mute.refl (s : ThreadState) : Mute x s s := ⟨fun _ _ => rfl, fun _ _ => rfl, fun h => h⟩

theorem Mute.trans {r : ThreadState} (h : Mute x r s) (h' : Mute x s t) : Mute x r t where
  loops v hv := (h'.loops v hv).trans (h.loops v hv)
  owed v k := (h'.owed v k).trans (h.owed v k)
  once hr := h'.once (h.once hr)

section Mute

variable {r : ThreadState} (h : Mute x r s)
include h

theorem Mute.modifyEntry (i : Slot) (f : ThreadEntry → ThreadEntry) : Mute x r (s.modifyEntry i f) :=
  h.trans ⟨fun _ _ => rfl, fun _ _ => rfl, fun h => h⟩

theorem Mute.modifyThread {f : MacThread → MacThread} (hf : ∀ m, (f m).loops = m.loops) :
    Mute x r (s.modifyThread u f) := by
  refine h.trans ⟨fun v _ => ?_, fun _ _ => rfl, fun h => h⟩
  rcases eq_or_ne v u with rfl | hne
  · rw [modifyThread_self, hf]
  · rw [modifyThread_of_ne hne]

theorem Mute.record {e : ThreadEvent} (he : Plain e) : Mute x r (s.record e) :=
  h.trans ⟨fun _ _ => rfl, fun v k => owed_plain he v k s.log, (once_plain he).mpr⟩

end Mute

/-- The loop of `u` over the row `idx` calls the destructor of `k`. -/
structure Calls (s t : ThreadState) (u : Uid) (idx : Slot) (k : Key) : Prop where
  loops : ∀ v, v ≠ u → (t.threads v).loops = (s.threads v).loops
  head : (t.threads u).loops.head? = some ⟨idx, k.val + 1⟩
  owed : ∀ v j, owed v j t.log = if u = v ∧ k = j then none else owed v j s.log
  once : Once s.log → ThreadState.owed u k s.log = some (s.tls_data idx k) → Once t.log

/-- Where the loop over the destructors comes from. -/
inductive Enters (s : ThreadState) (u : Uid) (a : ThreadInput) : Slot → ℕ → Prop where
  | goesOn (l : DestructorLoop) (rest : List DestructorLoop) (h : (s.threads u).loops = l :: rest) :
    Enters s u a l.idx l.key
  | returns (idx : Slot) (hmain : u ≠ mainThread) (hloops : (s.threads u).loops = [])
      (h : s.get_thread_index (s.thread_table (s.threads u).entry).threadID = some idx) :
    Enters s u a idx 0
  | exits (idx : Slot) (retval : Ptr) (ha : a = .call u (.pthread_exit retval))
      (h : s.index u = some idx) : Enters s u a idx 0

/-- A step that stores nothing sets and destroys nothing, or ends a thread, or calls a destructor. -/
inductive LoopStep (s : ThreadState) (a : ThreadInput) : Prop where
  | mute (h : Mute none s (s.step a))
  | ends (u : Uid) (h : Mute (some u) s (s.step a)) (hdead : ¬ (s.step a).Live u)
  | calls (u : Uid) (idx : Slot) (key : ℕ) (k : Key) (hu : (s.threads u).phase = .running)
      (henters : s.Enters u a idx key) (hkey : key ≤ k.val) (hdoomed : s.Doomed idx k)
      (h : Calls s (s.step a) u idx k)

theorem not_live_terminates : ¬ (s.terminates u).Live u := by
  simp [Live, terminates]

theorem mute_terminates {r : ThreadState} (h : Mute (some u) s r) : Mute (some u) s (r.terminates u) := by
  refine h.trans ⟨fun v hv => ?_, fun _ _ => rfl, fun h => h⟩
  have hne : v ≠ u := fun heq => hv (congrArg some heq)
  rw [terminates, modifyThread_of_ne hne]

/-- The loop ends the thread or calls a destructor. -/
theorem runDestructors_cases {r : ThreadState} (h : Mute (some u) s r) (hframe : Frame s r) (idx : Slot)
    (key : ℕ) :
    (Mute (some u) s (r.runDestructors u idx key) ∧ ¬ (r.runDestructors u idx key).Live u) ∨
    ∃ k : Key, key ≤ k.val ∧ s.Doomed idx k ∧ Calls s (r.runDestructors u idx key) u idx k := by
  rw [runDestructors]
  split
  · rename_i k hfind
    have hspec := List.find?_some hfind
    simp only [hframe.tls_key_used, hframe.tls_data, hframe.tls_destructors, Bool.and_eq_true,
      decide_eq_true_eq] at hspec
    obtain ⟨⟨⟨hkey, hused⟩, hdata⟩, hdestructor⟩ := hspec
    refine .inr ⟨k, hkey, ⟨hused, hdata, hdestructor⟩, ?_, ?_, ?_, ?_⟩
    · intro v hne
      rw [record, modifyThread_of_ne hne]
      exact h.loops v fun heq => hne (Option.some.inj heq)
    · rw [record, modifyThread_self]
      rfl
    · intro v j
      rw [record, owed_destructor, ← h.owed]
      rfl
    · intro honce howed
      rw [hframe.tls_data]
      exact ⟨(h.owed u k).trans howed, h.once honce⟩
  · exact .inl ⟨mute_terminates h, not_live_terminates⟩

theorem loopStep_of_run {a : ThreadInput} {r : ThreadState} (h : Mute (some u) s r) (hframe : Frame s r)
    (hu : (s.threads u).phase = .running) (henters : s.Enters u a idx key)
    (hstep : s.step a = r.runDestructors u idx key) : s.LoopStep a := by
  rcases runDestructors_cases h hframe idx key with ⟨hmute, hdead⟩ | ⟨k, hkey, hdoomed, hcalls⟩
  · exact .ends u (hstep ▸ hmute) (hstep ▸ hdead)
  · exact .calls u idx key k hu henters hkey hdoomed (hstep ▸ hcalls)

theorem mute_marked (s : ThreadState) (u : Uid) (result : Ptr) (i : Option Slot) :
    Mute x s (s.marked u result i) := by
  have hended : Mute x s (s.modifyThread u fun m => { m with ended := some result }) := by
    refine (Mute.refl s).modifyThread ?_
    intro m
    rfl
  cases i with
  | none => exact hended
  | some i => exact (hended.modifyEntry i _).record trivial

theorem Ends.enters {a : ThreadInput} {result : Ptr} {i : Option Slot}
    (h : s.Ends a u result i (some idx)) : s.Enters u a idx 0 := by
  generalize hidx : some idx = o at h
  cases h with
  | returns u result hu hloops hmain => exact .returns idx hmain hloops hidx.symm
  | exits u result hu => exact .exits idx result rfl hidx.symm

theorem loopStep (s : ThreadState) {a : ThreadInput} (h : ¬ s.StoringCall a) : s.LoopStep a := by
  have hcase := case_step h
  obtain ⟨t, ht⟩ : ∃ t, s.step a = t := ⟨_, rfl⟩
  rw [ht] at hcase
  have hrefl := Mute.refl (x := none) s
  have hmute : Mute none s t → s.LoopStep a := by
    intro hmute
    refine .mute ?_
    rwa [ht]
  cases hcase with
  | idle a => exact hmute hrefl
  | deletes u key k =>
    exact hmute ⟨fun _ _ => rfl, fun v j => owed_plain (e := .keyDeleted k) trivial v j s.log,
      (once_plain (e := .keyDeleted k) trivial).mpr⟩
  | begins u =>
    refine hmute ((hrefl.modifyThread ?_).record trivial)
    intro m
    rfl
  | cancels u thread i => exact hmute (hrefl.modifyEntry i _)
  | detaches u thread i => exact hmute (hrefl.modifyEntry i _)
  | frees u thread i => exact hmute ((hrefl.modifyEntry i _).modifyEntry i _)
  | waits a u i retval target =>
    refine hmute (hrefl.modifyThread ?_)
    intro m
    rfl
  | joins a u i retval target =>
    refine hmute (((hrefl.record ?_).modifyEntry i _).modifyThread ?_)
    · trivial
    · intro m
      rfl
  | goesOn u result l rest hu hloops =>
    refine loopStep_of_run ?_ ?_ hu (.goesOn l rest hloops) ht
    · refine ⟨fun v hv => ?_, fun _ _ => rfl, fun h => h⟩
      rw [modifyThread_of_ne fun heq => hv (congrArg some heq)]
    · refine (Frame.refl s).modifyThread ?_
      intro m
      rfl
  | ends a u result i idx hends =>
    have hmarked := mute_marked (x := some u) s u result i
    cases idx with
    | none =>
      refine .ends u ?_ ?_
      · rw [ht]
        exact mute_terminates hmarked
      · rw [ht]
        exact not_live_terminates
    | some idx =>
      exact loopStep_of_run hmarked (Frame.marked s u result i) hends.running hends.enters ht

/-! ### What carries the law -/

/-- The key from which the destructors of the thread are still to be called. -/
def nextKey (s : ThreadState) (u : Uid) : ℕ := (s.threads u).loops.head?.elim 0 DestructorLoop.key

/-- What lies in a thread's row and is still to be destroyed has been set by it since it was last destroyed,
    and what it has set lies there. As long as keys are created, this goes for all of the row. -/
structure Owing (s : ThreadState) : Prop where
  once : Once s.log
  rows : ∀ u, s.Live u → ∀ k : Key, s.nextKey u ≤ k.val → s.Doomed (s.threads u).entry k →
    owed u k s.log ≠ none
  early : s.created = 1 → ∀ u, s.Live u → (s.threads u).loops = [] →
    ∀ k, s.tls_data (s.threads u).entry k ≠ 0 → owed u k s.log ≠ none
  cells : ∀ u k value, owed u k s.log = some value → s.thread_table_initialized = true ∧
    u < s.created ∧ (s.Live u → s.tls_data (s.threads u).entry k = value)
  loops : ∀ u l, s.Live u → (s.threads u).loops.head? = some l → l.idx = (s.threads u).entry

theorem nextKey_congr (h : (t.threads u).loops = (s.threads u).loops) : t.nextKey u = s.nextKey u := by
  rw [nextKey, nextKey, h]

theorem Frame.doomed (h : Frame s t) : t.Doomed i k ↔ s.Doomed i k := by
  rw [Doomed, Doomed, h.tls_data, h.tls_key_used, h.tls_destructors]

theorem Owing.start (main : ThreadID) : (start main).Owing := by
  refine ⟨trivial, ?_, ?_, ?_, ?_⟩
  · intro u _ k _ hdoomed
    exact absurd rfl hdoomed.2.1
  · intro _ u _ _ k hdata
    exact absurd rfl hdata
  · intro u k value howed
    cases howed
  · intro u l hu hl
    rw [live_start hu] at hl
    cases hl

/-! ### A step that stores nothing -/

/-- The step neither sets nor destroys a value, and changes the loops of no thread that lives on. -/
theorem Owing.keeps (h : s.Owing) (honce : Once t.log) (howed : ∀ v k, owed v k t.log = owed v k s.log)
    (hten : Tenants s t) (hlive : ∀ v, t.Live v → s.Live v)
    (hloops : ∀ v, t.Live v → (t.threads v).loops = (s.threads v).loops)
    (hdata : t.tls_data = s.tls_data)
    (hrows : ∀ v k, s.Live v → t.Doomed (s.threads v).entry k →
      s.Doomed (s.threads v).entry k ∨ owed v k s.log ≠ none) : t.Owing := by
  refine ⟨honce, ?_, ?_, ?_, ?_⟩
  · intro u hu k hkey hdoomed
    rw [nextKey_congr (hloops u hu)] at hkey
    rw [hten.entry] at hdoomed
    rw [howed]
    rcases hrows u k (hlive u hu) hdoomed with hold | howes
    · exact h.rows u (hlive u hu) k hkey hold
    · exact howes
  · intro hcreated u hu hnil k hcell
    rw [hloops u hu] at hnil
    rw [hten.entry, hdata] at hcell
    rw [howed]
    exact h.early (hten.created.symm.trans hcreated) u (hlive u hu) hnil k hcell
  · intro u k value hvalue
    rw [howed] at hvalue
    obtain ⟨hinit, hborn, hcell⟩ := h.cells u k value hvalue
    rw [hten.initialized, hten.created, hten.entry, hdata]
    exact ⟨hinit, hborn, fun hu => hcell (hlive u hu)⟩
  · intro u l hu hl
    rw [hloops u hu] at hl
    rw [hten.entry]
    exact h.loops u l (hlive u hu) hl

/-- A destructor is called with what its thread owes. -/
theorem Owing.calls (h : s.Owing) (hframe : Frame s t) (hlive : ∀ v, t.Live v → s.Live v)
    (hu : s.Live u) (hdoomed : s.Doomed (s.threads u).entry k)
    (howes : ∀ j : Key, k.val ≤ j.val → s.Doomed (s.threads u).entry j → owed u j s.log ≠ none)
    (hcalls : Calls s t u (s.threads u).entry k) : t.Owing := by
  refine ⟨?_, ?_, ?_, ?_, ?_⟩
  · obtain ⟨value, hvalue⟩ := Option.ne_none_iff_exists'.mp (howes k le_rfl hdoomed)
    refine hcalls.once h.once ?_
    rw [hvalue, (h.cells u k value hvalue).2.2 hu]
  · intro v hv j hkey hj
    rw [hframe.entry, hframe.doomed] at hj
    rw [hcalls.owed]
    rcases eq_or_ne v u with rfl | hne
    · rw [nextKey, hcalls.head] at hkey
      have hlt : k.val < j.val := hkey
      rw [if_neg fun heq => (Nat.ne_of_lt hlt) (congrArg Fin.val heq.2)]
      exact howes j hlt.le hj
    · rw [nextKey_congr (hcalls.loops v hne)] at hkey
      rw [if_neg fun heq => hne heq.1.symm]
      exact h.rows v (hlive v hv) j hkey hj
  · intro hcreated v hv hnil j hcell
    rcases eq_or_ne v u with rfl | hne
    · have hhead := hcalls.head
      rw [hnil] at hhead
      cases hhead
    · rw [hcalls.loops v hne] at hnil
      rw [hframe.entry, hframe.tls_data] at hcell
      rw [hcalls.owed, if_neg fun heq => hne heq.1.symm]
      exact h.early (hframe.created.symm.trans hcreated) v (hlive v hv) hnil j hcell
  · intro v j value hvalue
    rw [hcalls.owed] at hvalue
    split at hvalue
    · cases hvalue
    · obtain ⟨hinit, hborn, hcell⟩ := h.cells v j value hvalue
      rw [hframe.initialized, hframe.created, hframe.entry, hframe.tls_data]
      exact ⟨hinit, hborn, fun hv => hcell (hlive v hv)⟩
  · intro v l hv hl
    rw [hframe.entry]
    rcases eq_or_ne v u with rfl | hne
    · rw [hcalls.head] at hl
      rw [← Option.some.inj hl]
    · rw [hcalls.loops v hne] at hl
      exact h.loops v l (hlive v hv) hl

/-- The loop runs over the thread's own row, and what is left in it to destroy is owed. -/
theorem Owing.enters (h : s.Owing) {stored : Uid → ℕ} (hfound : Handed.Found ⟨s, stored⟩)
    {a : ThreadInput} (hu : (s.threads u).phase = .running) (hcleared : s.Cleared a)
    (henters : s.Enters u a idx key) :
    idx = (s.threads u).entry ∧
      ∀ k : Key, key ≤ k.val → s.Doomed (s.threads u).entry k → owed u k s.log ≠ none := by
  have hlive := live_of_running hu
  cases henters with
  | goesOn l rest hloops =>
    have hhead : (s.threads u).loops.head? = some l := by
      rw [hloops]
      rfl
    refine ⟨h.loops u l hlive hhead, ?_⟩
    intro k hkey hdoomed
    refine h.rows u hlive k ?_ hdoomed
    rw [nextKey, hhead]
    exact hkey
  | returns idx hmain hloops hidx =>
    have hinit : s.thread_table_initialized = true := by
      by_contra huninit
      exact hmain (hfound.alone (Bool.eq_false_of_not_eq_true huninit) u hlive)
    have hindex := hfound.index_eq hinit hlive
    rw [(get_thread_index_spec hindex).2] at hidx
    refine ⟨Option.some.inj (hidx.symm.trans hindex), ?_⟩
    intro k hkey hdoomed
    refine h.rows u hlive k ?_ hdoomed
    rw [nextKey, hloops]
    exact hkey
  | exits idx retval ha hidx =>
    have hindex := hfound.index_eq (hfound.sound.initialized_of_index hidx) hlive
    refine ⟨Option.some.inj (hidx.symm.trans hindex), ?_⟩
    intro k hkey hdoomed
    subst ha
    by_cases hloops : (s.threads u).loops = []
    · refine h.rows u hlive k ?_ hdoomed
      rw [nextKey, hloops]
      exact hkey
    · exact hcleared hu hloops _ hindex k hdoomed

theorem frame_of_keysFirst {a : ThreadInput} (h : ¬ s.StoringCall a) (hkeys : s.KeysFirst a) :
    Frame s (s.step a) := by
  by_cases hdelete : ∃ u key, a = .call u (.pthread_key_delete key)
  · obtain ⟨u, key, rfl⟩ := hdelete
    rw [step, if_neg hkeys]
    exact Frame.refl s
  · refine frame_step h ?_
    intro u key heq
    exact hdelete ⟨u, key, heq⟩

theorem live_step {a : ThreadInput} (h : ¬ s.StoringCall a) (hv : (s.step a).Live v) : s.Live v := by
  rcases quiet_of_not_storing h with ⟨_, hstill⟩ | ⟨_, _, hrel⟩
  · exact hstill.live v hv
  · exact hrel.live v hv

theorem Owing.quiet (h : s.Owing) {stored : Uid → ℕ} (hfound : Handed.Found ⟨s, stored⟩)
    {a : ThreadInput} (hstoring : ¬ s.StoringCall a) (hkeys : s.KeysFirst a) (hcleared : s.Cleared a) :
    (s.step a).Owing := by
  have hframe := frame_of_keysFirst hstoring hkeys
  have hlive : ∀ v, (s.step a).Live v → s.Live v := fun v => live_step hstoring
  have hrows : ∀ v k, s.Live v → (s.step a).Doomed (s.threads v).entry k →
      s.Doomed (s.threads v).entry k ∨ owed v k s.log ≠ none :=
    fun v k _ hdoomed => .inl (hframe.doomed.mp hdoomed)
  cases s.loopStep hstoring with
  | mute hmute =>
    refine h.keeps (hmute.once h.once) hmute.owed hframe.tenants hlive ?_ hframe.tls_data hrows
    intro v _
    exact hmute.loops v (Option.some_ne_none v)
  | ends u hmute hdead =>
    refine h.keeps (hmute.once h.once) hmute.owed hframe.tenants hlive ?_ hframe.tls_data hrows
    intro v hv
    refine hmute.loops v fun heq => ?_
    obtain rfl := Option.some.inj heq
    exact hdead hv
  | calls u idx key k hu henters hkey hdoomed hcalls =>
    obtain ⟨rfl, howes⟩ := h.enters hfound hu hcleared henters
    exact h.calls hframe hlive (live_of_running hu) hdoomed (fun j hj => howes j (hkey.trans hj)) hcalls

/-! ### Calls that store -/

theorem Owing.init (h : s.Owing) (u : Uid) : (s.init_thread_table u).Owing := by
  cases hinit : s.thread_table_initialized with
  | true => rwa [init_thread_table_of_initialized hinit]
  | false =>
    have hdata : ∀ i k, (s.init_thread_table u).tls_data i k = 0 := by
      intro i k
      simp [init_thread_table, hinit]
    refine ⟨?_, ?_, ?_, ?_, ?_⟩
    · rw [init_thread_table_log]
      exact h.once
    · intro v _ k _ hdoomed
      exact absurd (hdata _ k) hdoomed.2.1
    · intro _ v _ _ k hcell
      exact absurd (hdata _ k) hcell
    · intro v k value hvalue
      rw [init_thread_table_log] at hvalue
      rw [(h.cells v k value hvalue).1] at hinit
      cases hinit
    · intro v l hv hl
      rw [Live, init_thread_table_threads] at hv
      rw [init_thread_table_threads] at hl ⊢
      exact h.loops v l hv hl

/-- A new thread gets a row in which nothing would be destroyed. -/
theorem Owing.withThread (h : s.Owing) (hsome : 0 < s.created) (hclear : ∀ k, ¬ s.Doomed i k)
    (tid : ThreadID) (e : ThreadEntry) : (s.withThread i tid e).Owing := by
  refine ⟨h.once, ?_, ?_, ?_, ?_⟩
  · intro v hv k hkey hdoomed
    rcases eq_or_ne v s.created with rfl | hne
    · rw [withThread_newborn] at hdoomed
      exact absurd hdoomed (hclear k)
    · rw [nextKey, withThread_older hne] at hkey
      rw [withThread_older hne] at hdoomed
      exact h.rows v ((withThread_live hne).mp hv) k hkey hdoomed
  · intro hcreated
    exact absurd (Nat.succ.inj hcreated) (Nat.ne_of_gt hsome)
  · intro v k value hvalue
    obtain ⟨hinit, hborn, hcell⟩ := h.cells v k value hvalue
    have hne := Nat.ne_of_lt hborn
    refine ⟨hinit, Nat.lt_succ_of_lt hborn, fun hv => ?_⟩
    rw [withThread_older hne]
    exact hcell ((withThread_live hne).mp hv)
  · intro v l hv hl
    rcases eq_or_ne v s.created with rfl | hne
    · rw [withThread_newborn] at hl
      cases hl
    · rw [withThread_older hne] at hl ⊢
      exact h.loops v l ((withThread_live hne).mp hv) hl

theorem Owing.create (h : s.Owing) (hsome : 0 < s.created) (hu : (s.threads u).phase = .running)
    {attr : Option PthreadAttr} {start_routine arg : Ptr} {newThread : ℕ → Option ThreadID}
    (hcleared : s.Cleared (.call u (.pthread_create attr start_routine arg newThread))) :
    (s.pthread_create u attr start_routine arg newThread).2.Owing := by
  have hinit := h.init u
  rcases s.pthread_create_cases u attr start_routine arg newThread with
    ⟨_, hmade⟩ | ⟨i, _, _, hmade⟩ | ⟨i, tid, hfree, htid, hunused, hmade⟩
  · rw [hmade]
    exact hinit
  · rw [hmade]
    exact hinit.keeps hinit.once (fun _ _ => rfl) ⟨fun _ => rfl, rfl, rfl, rfl⟩ (fun _ hv => hv)
      (fun _ _ => rfl) rfl fun _ _ _ hdoomed => .inl hdoomed
  · rw [hmade]
    refine hinit.withThread ?_ (hcleared hu i hfree tid htid hunused) tid _
    rw [init_thread_table_created]
    exact hsome

/-- A new key: there is only one thread, and what lies in its row it has set. -/
theorem Owing.keyCreate (h : s.Owing) (hsound : s.Sound) (hu : s.Live u) (hcreated : s.created = 1)
    (hloops : (s.threads u).loops = []) (destructor : Ptr) :
    (s.pthread_key_create destructor).2.Owing := by
  have hsame := sameTable_key_create s destructor
  have hlog : Once (s.pthread_key_create destructor).2.log ∧
      (∀ v k, owed v k (s.pthread_key_create destructor).2.log = owed v k s.log) ∧
      (s.pthread_key_create destructor).2.tls_data = s.tls_data := by
    rw [pthread_key_create]
    split
    · rename_i k _
      exact ⟨(once_plain (e := .keyCreated k) trivial).mpr h.once,
        fun v j => owed_plain (e := .keyCreated k) trivial v j s.log, rfl⟩
    · exact ⟨h.once, fun _ _ => rfl, rfl⟩
  refine h.keeps hlog.1 hlog.2.1 hsame.tenants ?_ ?_ hlog.2.2 ?_
  · intro v hv
    rwa [Live, hsame.threads] at hv
  · intro v _
    rw [hsame.threads]
  · intro v k hv hdoomed
    have hvu : v = u := by
      have hv' := hsound.born v hv
      have hu' := hsound.born u hu
      rw [hcreated] at hv' hu'
      rw [Nat.lt_one_iff.mp hv', Nat.lt_one_iff.mp hu']
    subst hvu
    have hcell := hdoomed.2.1
    rw [hlog.2.2] at hcell
    exact .inr (h.early hcreated v hv hloops k hcell)

/-- A thread writes its own row, which is no other thread's. -/
theorem Owing.set (h : s.Owing) {stored : Uid → ℕ} (hfound : Handed.Found ⟨s, stored⟩)
    (hinit : s.thread_table_initialized = true) (hu : s.Live u) (k : Key) (value : Ptr) :
    Owing { s with
      tls_data := Function.update s.tls_data (s.threads u).entry
        (Function.update (s.tls_data (s.threads u).entry) k value)
      log := .set u k value :: s.log } := by
  set r : ThreadState := { s with
    tls_data := Function.update s.tls_data (s.threads u).entry
      (Function.update (s.tls_data (s.threads u).entry) k value)
    log := .set u k value :: s.log }
  have hcell : ∀ v j, s.Live v → r.tls_data (s.threads v).entry j =
      if u = v ∧ k = j then value else s.tls_data (s.threads v).entry j := by
    intro v j hv
    rcases eq_or_ne u v with rfl | hne
    · rcases eq_or_ne k j with rfl | hkj
      · simp [r]
      · simp [r, hkj, hkj.symm]
    · have hentry : (s.threads v).entry ≠ (s.threads u).entry := fun heq =>
        hne (hfound.entry_inj hv hu heq).symm
      rw [if_neg fun heq => hne heq.1]
      simp [r, hentry]
  have howed : ∀ v j, owed v j r.log = if u = v ∧ k = j then some value else owed v j s.log :=
    fun v j => owed_set value
  refine ⟨h.once, ?_, ?_, ?_, h.loops⟩
  · intro v hv j hkey hdoomed
    have hdata := hdoomed.2.1
    rw [hcell v j hv] at hdata
    rw [howed]
    by_cases hvj : u = v ∧ k = j
    · rw [if_pos hvj]
      exact Option.some_ne_none value
    · rw [if_neg hvj] at hdata ⊢
      exact h.rows v hv j hkey ⟨hdoomed.1, hdata, hdoomed.2.2⟩
  · intro hcreated v hv hloops j hdata
    rw [hcell v j hv] at hdata
    rw [howed]
    by_cases hvj : u = v ∧ k = j
    · rw [if_pos hvj]
      exact Option.some_ne_none value
    · rw [if_neg hvj] at hdata ⊢
      exact h.early hcreated v hv hloops j hdata
  · intro v j x hx
    rw [howed] at hx
    by_cases hvj : u = v ∧ k = j
    · rw [if_pos hvj] at hx
      refine ⟨hinit, hvj.1 ▸ hfound.sound.born u hu, fun hv => ?_⟩
      rw [hcell v j hv, if_pos hvj]
      exact Option.some.inj hx
    · rw [if_neg hvj] at hx
      obtain ⟨_, hborn, hold⟩ := h.cells v j x hx
      refine ⟨hinit, hborn, fun hv => ?_⟩
      rw [hcell v j hv, if_neg hvj]
      exact hold hv

theorem Owing.setspecific (h : s.Owing) {stored : Uid → ℕ} (hfound : Handed.Found ⟨s, stored⟩)
    (hu : s.Live u) (key : ℕ) (value : Ptr) : (s.pthread_setspecific u key value).2.Owing := by
  rw [pthread_setspecific]
  split
  · exact h
  · rename_i k _
    cases hindex : s.index u with
    | none => exact h
    | some idx =>
      have hinit := hfound.sound.initialized_of_index hindex
      obtain rfl := Option.some.inj (hindex.symm.trans (hfound.index_eq hinit hu))
      exact h.set hfound hinit hu k value

/-! ### Runs -/

theorem Owing.step (h : s.Owing) {stored : Uid → ℕ} (hfound : Handed.Found ⟨s, stored⟩)
    {a : ThreadInput} (hkeys : s.KeysFirst a) (hcleared : s.Cleared a) : (s.step a).Owing := by
  by_cases hstoring : s.StoringCall a
  · obtain ⟨u, c, rfl, hu, hc⟩ := hstoring
    have hlive := live_of_running hu
    rw [ThreadState.step, if_pos hu]
    cases c with
    | pthread_create attr start_routine arg newThread => exact h.create hfound.main.2 hu hcleared
    | pthread_self =>
      rw [exec, pthread_self_state]
      exact h.init u
    | pthread_key_create destructor =>
      exact h.keyCreate hfound.sound hlive (hkeys hu).1 (hkeys hu).2 destructor
    | pthread_setspecific key value => exact h.setspecific hfound hlive key value
    | _ => exact hc.elim
  · exact h.quiet hfound hstoring hkeys hcleared

/-- In a run from the start whose keys are created first, each destructor is called with what its thread had
    set last, and once for it, as long as slots stay with their threads until these are gone, a new thread
    is found in its own slot and finds nothing in its row that would be destroyed, and no destructor that
    calls pthread_exit leaves what has been destroyed. -/
theorem destroysOnce_of_cleared (main : ThreadID) (as : List ThreadInput)
    (hkeys : Meets step KeysFirst (start main) as) (htidy : Meets step Tidy (start main) as)
    (hcleared : Meets step Cleared (start main) as) : Always step DestroysOnce (start main) as := by
  have hstart : (∃ stored, Handed.Found ⟨start main, stored⟩) ∧ (start main).Owing :=
    ⟨⟨_, Handed.Found.start main⟩, Owing.start main⟩
  refine (always_of_meets (I := fun s => (∃ stored, Handed.Found ⟨s, stored⟩) ∧ s.Owing) ?_ hstart
    ((hkeys.and htidy).and hcleared)).mono fun s hs => hs.2.once
  rintro s a ⟨⟨stored, hfound⟩, howing⟩ ⟨⟨hk, ht⟩, hc⟩
  exact ⟨⟨_, hfound.step a ht⟩, howing.step hfound hk hc⟩

/-- A value is destroyed by a thread that then sets it to NULL; the next thread in its slot has one of its
    own. -/
theorem destroysOnce_reused_slot : Always step DestroysOnce (start 2) [
    .call 0 .pthread_self, .call 0 (.pthread_key_create 900),
    .call 0 (.pthread_create none 500 0 fun _ => some 3),
    .begins 1, .call 1 (.pthread_setspecific 0 7), .returns 1 9,
    .call 1 (.pthread_setspecific 0 0), .returns 1 0, .call 0 (.pthread_join 2 true),
    .call 0 (.pthread_create none 500 0 fun _ => some 4),
    .begins 2, .call 2 (.pthread_setspecific 0 8), .returns 2 9, .returns 2 0] :=
  destroysOnce_of_cleared 2 _ (by decide +kernel) (by decide +kernel) (by decide +kernel)

/-- A value is destroyed at the end of its thread, and again at the end of the next thread in the slot. -/
theorem destroyed_again_in_reused_slot : ¬ ∀ (main : ThreadID) (as : List ThreadInput),
    Meets step KeysFirst (start main) as → Always step DestroysOnce (start main) as := by
  intro h
  have hall := always_iff_prefix.mp (h 2 [
    .call 0 .pthread_self, .call 0 (.pthread_key_create 900),
    .call 0 (.pthread_create none 500 0 fun _ => some 3),
    .begins 1, .call 1 (.pthread_setspecific 0 7), .returns 1 9, .returns 1 0,
    .call 0 (.pthread_join 2 true),
    .call 0 (.pthread_create none 500 0 fun _ => some 4),
    .begins 2, .returns 2 9] (by decide +kernel)) _ List.prefix_rfl
  revert hall
  decide +kernel

end ThreadState

end Posix9
