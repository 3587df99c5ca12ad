import Posix9.Lib.Runs
import Posix9.ThreadCases

/-! pthread_join and the life of a slot. An entry is marked finished before its thread has run its
    destructors, and by pthread_cancel at any time, so join and detach can give back the slot of a thread
    that still runs. As long as they give back slots of threads that are gone, a slot stays with its thread
    to the end, and pthread_join returns what the thread ended with. -/

namespace Posix9
open Runs

/-- The entry that a thread in pthread_join holds the address of, and the thread it waits for. -/
def Phase.awaits : Phase → Option (Slot × Uid)
  | .joining i _ target => some (i, target)
  | _ => none

namespace ThreadState

variable {s t : ThreadState} {u v target : Uid} {i j : Slot}

/-! ### The law -/

/-- pthread_join returns 0 only for a thread that has ended, and stores what it ended with; a thread that
    ends writes into its own entry. -/
def Honest : ThreadEvent → Prop
  | .joined _ stored ended => ∃ v, ended = some v ∧ ∀ x ∈ stored, x = v
  | .wrote u owner => u = owner
  | _ => True

/-- Besides, no slot has been handed to a thread while another that it was handed to can still execute. -/
structure Faithful (s : ThreadState) : Prop where
  honest : ∀ e ∈ s.log, Honest e
  own_slot : ∀ u v, s.Live u → s.Live v → (s.threads u).entry = (s.threads v).entry → u = v

/-- No pthread_join is called for a thread that another pthread_join waits for. -/
def OneJoiner (s : ThreadState) : ThreadInput → Prop
  | .call u (.pthread_join thread _) => (s.threads u).phase = .running →
      ∀ i ∈ s.get_thread thread, ∀ v < s.created, (s.threads v).phase.awaits ≠ some (i, s.owner i)
  | _ => True

/-- What a call needs besides: pthread_detach gives back no slot that a pthread_join waits for, and
    pthread_exit finds the slot of its own thread. -/
def Heeds (s : ThreadState) (u : Uid) : ThreadCall → Prop
  | .pthread_detach thread => ∀ i ∈ s.released (.call u (.pthread_detach thread)), ∀ v < s.created,
      (s.threads v).phase.awaits ≠ some (i, s.owner i)
  | .pthread_exit _ => (s.threads u).phase = .running → ∀ i ∈ s.index u, i = (s.threads u).entry
  | _ => True

/-- Only the slots of threads that are gone are given back. -/
def Gone (s : ThreadState) (a : ThreadInput) : Prop :=
  (∀ i ∈ s.released a, ∀ v < s.created, s.Live v → (s.threads v).entry ≠ i) ∧
    match a with
    | .call u c => s.Heeds u c
    | _ => True

instance (s : ThreadState) : (a : ThreadInput) → Decidable (s.OneJoiner a)
  | .call u (.pthread_join thread _) => inferInstanceAs (Decidable ((s.threads u).phase = .running →
      ∀ i ∈ s.get_thread thread, ∀ v < s.created, (s.threads v).phase.awaits ≠ some (i, s.owner i)))
  | .call _ (.pthread_create ..) | .call _ (.pthread_detach _) | .call _ (.pthread_exit _)
  | .call _ .pthread_self | .call _ (.pthread_cancel _) | .call _ (.pthread_key_create _)
  | .call _ (.pthread_key_delete _) | .call _ (.pthread_getspecific _)
  | .call _ (.pthread_setspecific ..) | .returns .. | .begins _ | .resumes _ => .isTrue trivial

instance (s : ThreadState) (u : Uid) : (c : ThreadCall) → Decidable (s.Heeds u c)
  | .pthread_detach thread => inferInstanceAs (Decidable
      (∀ i ∈ s.released (.call u (.pthread_detach thread)), ∀ v < s.created,
        (s.threads v).phase.awaits ≠ some (i, s.owner i)))
  | .pthread_exit _ => inferInstanceAs (Decidable
      ((s.threads u).phase = .running → ∀ i ∈ s.index u, i = (s.threads u).entry))
  | .pthread_create .. | .pthread_join .. | .pthread_self | .pthread_cancel _ | .pthread_key_create _
  | .pthread_key_delete _ | .pthread_getspecific _ | .pthread_setspecific .. => .isTrue trivial

instance (s : ThreadState) : (a : ThreadInput) → Decidable (s.Gone a)
  | .call u c => inferInstanceAs (Decidable ((∀ i ∈ s.released (.call u c), ∀ v < s.created,
      s.Live v → (s.threads v).entry ≠ i) ∧ s.Heeds u c))
  | .returns .. | .begins _ | .resumes _ => inferInstanceAs (Decidable
      ((∀ i ∈ s.released _, ∀ v < s.created, s.Live v → (s.threads v).entry ≠ i) ∧ True))

/-! ### What carries the law -/

/-- The slot was created for `u`, and is its own. -/
structure Occupies (s : ThreadState) (u : Uid) : Prop where
  inUse : (s.thread_table (s.threads u).entry).inUse = true
  owner : s.owner (s.threads u).entry = u
  threadID : (s.thread_table (s.threads u).entry).threadID = (s.threads u).threadID

/-- What holds of a slot in use: the thread it was handed to is there or has ended, and what that thread
    ended with lies in it. -/
structure Tenancy (s : ThreadState) (i : Slot) : Prop where
  born : s.owner i < s.created
  entry : (s.threads (s.owner i)).entry = i
  ended : ¬ s.Live (s.owner i) → (s.threads (s.owner i)).ended ≠ none
  result : ∀ v, (s.threads (s.owner i)).ended = some v → (s.thread_table i).result = v

/-- The thread and its own slot are as before. -/
theorem Occupies.transfer (h : s.Occupies u)
    (hthread : (t.threads u).threadID = (s.threads u).threadID ∧ (t.threads u).entry = (s.threads u).entry)
    (howner : t.owner (s.threads u).entry = s.owner (s.threads u).entry)
    (hentry : (t.thread_table (s.threads u).entry).inUse = (s.thread_table (s.threads u).entry).inUse ∧
      (t.thread_table (s.threads u).entry).threadID = (s.thread_table (s.threads u).entry).threadID) :
    t.Occupies u := by
  refine ⟨?_, ?_, ?_⟩ <;> rw [hthread.2]
  · exact hentry.1.trans h.inUse
  · exact howner.trans h.owner
  · rw [hthread.1]
    exact hentry.2.trans h.threadID

/-- What the slot holds is as before, and so is the thread it was handed to. -/
theorem Tenancy.transfer (h : s.Tenancy i) (hcreated : s.created ≤ t.created) (howner : t.owner i = s.owner i)
    (hthread : t.threads (s.owner i) = s.threads (s.owner i))
    (hresult : (t.thread_table i).result = (s.thread_table i).result) : t.Tenancy i := by
  refine ⟨?_, ?_, ?_, ?_⟩ <;> rw [howner]
  · exact Nat.lt_of_lt_of_le h.born hcreated
  · rw [hthread]
    exact h.entry
  · rw [Live, hthread]
    exact h.ended
  · rw [hthread, hresult]
    exact h.result

structure Held (s : ThreadState) : Prop where
  honest : ∀ e ∈ s.log, Honest e
  born : ∀ u, s.Live u → u < s.created
  occupies : s.thread_table_initialized = true → ∀ u, s.Live u → s.Occupies u
  tenancy : ∀ i, (s.thread_table i).inUse = true → s.Tenancy i
  dying : ∀ u, (s.threads u).loops ≠ [] → (s.threads u).ended ≠ none
  awaits : ∀ u i target, (s.threads u).phase.awaits = some (i, target) →
    (s.thread_table i).inUse = true ∧ s.owner i = target
  alone : ∀ u v i target target', (s.threads u).phase.awaits = some (i, target) →
    (s.threads v).phase.awaits = some (i, target') → u = v
  main : s.owner mainSlot = mainThread ∧ (s.threads mainThread).entry = mainSlot ∧ 0 < s.created
  uninit : s.thread_table_initialized = false →
    (∀ i, (s.thread_table i).inUse = false) ∧
      ∀ u, s.Live u → u = mainThread ∧ (s.threads u).ended = none

theorem Held.faithful (h : s.Held) : s.Faithful := by
  refine ⟨h.honest, ?_⟩
  intro u v hu hv heq
  cases hinit : s.thread_table_initialized with
  | true =>
    have hown := (h.occupies hinit u hu).owner
    rw [heq, (h.occupies hinit v hv).owner] at hown
    exact hown.symm
  | false => rw [((h.uninit hinit).2 u hu).1, ((h.uninit hinit).2 v hv).1]

theorem Held.start (main : ThreadID) : (start main).Held := by
  have hidle : ∀ u, ((ThreadState.start main).threads u).phase.awaits = none ∧
      ((ThreadState.start main).threads u).loops = [] := by
    intro u
    simp only [ThreadState.start]
    split <;> exact ⟨rfl, rfl⟩
  refine ⟨?_, ?_, ?_, ?_, ?_, ?_, ?_, ⟨rfl, rfl, Nat.zero_lt_one⟩, ?_⟩
  · intro e he
    cases he
  · intro u hu
    rw [live_start hu]
    exact Nat.zero_lt_one
  · intro hinit
    cases hinit
  · intro i hi
    cases hi
  · intro u hu
    exact absurd (hidle u).2 hu
  · intro u i target hu
    rw [(hidle u).1] at hu
    cases hu
  · intro u v i target target' hu
    rw [(hidle u).1] at hu
    cases hu
  · intro _
    refine ⟨fun _ => rfl, ?_⟩
    intro u hu
    obtain rfl := live_start hu
    exact ⟨rfl, rfl⟩

/-! ### What keeps it -/

/-- The step changes nothing of the table, the threads and what is kept of them, and logs nothing but what
    is honest. -/
theorem Held.congr (h : s.Held) (htable : t.thread_table = s.thread_table)
    (hthreads : t.threads = s.threads) (hcreated : t.created = s.created)
    (hinit : t.thread_table_initialized = s.thread_table_initialized) (howner : t.owner = s.owner)
    (hlog : ∀ e ∈ t.log, e ∈ s.log ∨ Honest e) : t.Held := by
  cases t
  obtain rfl := htable
  obtain rfl := hthreads
  obtain rfl := hcreated
  obtain rfl := hinit
  obtain rfl := howner
  refine ⟨?_, h.born, fun hi u hu => ?_, fun i hi => ?_, h.dying, h.awaits, h.alone, h.main, h.uninit⟩
  · intro e he
    rcases hlog e he with hold | hnew
    · exact h.honest e hold
    · exact hnew
  · exact (h.occupies hi u hu).transfer ⟨rfl, rfl⟩ rfl ⟨rfl, rfl⟩
  · exact (h.tenancy i hi).transfer (Nat.le_refl _) rfl rfl rfl

theorem Held.record (h : s.Held) {e : ThreadEvent} (he : Honest e) : (s.record e).Held := by
  refine h.congr rfl rfl rfl rfl rfl ?_
  intro e' he'
  rcases List.mem_cons.mp he' with rfl | hold
  · exact .inr he
  · exact .inl hold

/-- A write to an entry that leaves its use as it is, and if it is in use its ID and its result. -/
theorem Held.modifyEntry (h : s.Held) {f : ThreadEntry → ThreadEntry}
    (hf : (f (s.thread_table i)).inUse = (s.thread_table i).inUse)
    (hkept : (s.thread_table i).inUse = true →
      (f (s.thread_table i)).threadID = (s.thread_table i).threadID ∧
        (f (s.thread_table i)).result = (s.thread_table i).result) :
    (s.modifyEntry i f).Held := by
  have hinUse : ∀ j, ((s.modifyEntry i f).thread_table j).inUse = (s.thread_table j).inUse := by
    intro j
    rcases eq_or_ne j i with rfl | hne
    · rw [modifyEntry_self, hf]
    · rw [modifyEntry_of_ne hne]
  have hentry : ∀ j, (s.thread_table j).inUse = true →
      ((s.modifyEntry i f).thread_table j).threadID = (s.thread_table j).threadID ∧
      ((s.modifyEntry i f).thread_table j).result = (s.thread_table j).result := by
    intro j hj
    rcases eq_or_ne j i with rfl | hne
    · rw [modifyEntry_self]
      exact hkept hj
    · rw [modifyEntry_of_ne hne]
      exact ⟨rfl, rfl⟩
  refine ⟨h.honest, h.born, ?_, ?_, h.dying, ?_, h.alone, h.main, ?_⟩
  · intro hinit u hu
    have hocc := h.occupies hinit u hu
    exact hocc.transfer ⟨rfl, rfl⟩ rfl ⟨hinUse _, (hentry _ hocc.inUse).1⟩
  · intro j hj
    rw [hinUse] at hj
    exact (h.tenancy j hj).transfer (Nat.le_refl _) rfl rfl (hentry j hj).2
  · intro u j target hu
    rw [hinUse]
    exact h.awaits u j target hu
  · intro hinit
    refine ⟨?_, (h.uninit hinit).2⟩
    intro j
    rw [hinUse]
    exact (h.uninit hinit).1 j

/-- A thread goes on to something else, or is gone once it has ended. -/
theorem Held.modifyThread (h : s.Held) {f : MacThread → MacThread}
    (hkept : ∀ m, (f m).threadID = m.threadID ∧ (f m).entry = m.entry ∧ (f m).ended = m.ended)
    (hlive : (f (s.threads u)).phase ≠ .absent → s.Live u)
    (hgone : (f (s.threads u)).phase = .absent → (s.threads u).ended ≠ none)
    (hloops : (f (s.threads u)).loops ≠ [] → (s.threads u).ended ≠ none)
    (hawaits : ∀ i target, (f (s.threads u)).phase.awaits = some (i, target) →
      (s.thread_table i).inUse = true ∧ s.owner i = target ∧
        ∀ v, v ≠ u → ∀ target', (s.threads v).phase.awaits ≠ some (i, target')) :
    (s.modifyThread u f).Held := by
  have hself := modifyThread_self (s := s) (u := u) f
  have hother : ∀ v, v ≠ u → (s.modifyThread u f).threads v = s.threads v := fun v hne =>
    modifyThread_of_ne hne f
  have hsame : ∀ v, ((s.modifyThread u f).threads v).threadID = (s.threads v).threadID ∧
      ((s.modifyThread u f).threads v).entry = (s.threads v).entry ∧
      ((s.modifyThread u f).threads v).ended = (s.threads v).ended := by
    intro v
    rcases eq_or_ne v u with rfl | hne
    · rw [hself]
      exact hkept _
    · rw [hother v hne]
      exact ⟨rfl, rfl, rfl⟩
  have hlive' : ∀ v, (s.modifyThread u f).Live v → s.Live v := by
    intro v hv
    rcases eq_or_ne v u with rfl | hne
    · rw [Live, hself] at hv
      exact hlive hv
    · rw [Live, hother v hne] at hv
      exact hv
  refine ⟨h.honest, ?_, ?_, ?_, ?_, ?_, ?_, ?_, ?_⟩
  · intro v hv
    exact h.born v (hlive' v hv)
  · intro hinit v hv
    exact (h.occupies hinit v (hlive' v hv)).transfer ⟨(hsame v).1, (hsame v).2.1⟩ rfl ⟨rfl, rfl⟩
  · intro i hi
    have hten := h.tenancy i hi
    refine ⟨hten.born, ?_, ?_, ?_⟩
    · exact (hsame _).2.1.trans hten.entry
    · intro hdead
      have hended := (hsame (s.owner i)).2.2
      rw [show (s.modifyThread u f).owner i = s.owner i from rfl] at hdead ⊢
      rw [hended]
      rcases eq_or_ne (s.owner i) u with heq | hne
      · rw [Live, heq, hself, ne_eq, not_not] at hdead
        rw [heq]
        exact hgone hdead
      · rw [Live, hother _ hne] at hdead
        exact hten.ended hdead
    · intro v hv
      rw [(hsame _).2.2] at hv
      exact hten.result v hv
  · intro v hv
    rw [(hsame v).2.2]
    rcases eq_or_ne v u with rfl | hne
    · rw [hself] at hv
      exact hloops hv
    · rw [hother v hne] at hv
      exact h.dying v hv
  · intro v i target hv
    rcases eq_or_ne v u with rfl | hne
    · rw [hself] at hv
      exact ⟨(hawaits i target hv).1, (hawaits i target hv).2.1⟩
    · rw [hother v hne] at hv
      exact h.awaits v i target hv
  · intro v w i target target' hv hw
    rcases eq_or_ne v u with rfl | hne <;> rcases eq_or_ne w v with rfl | hne'
    · rfl
    · rw [hself] at hv
      rw [hother w hne'] at hw
      exact absurd hw ((hawaits i target hv).2.2 w hne' target')
    · rfl
    · rw [hother v hne] at hv
      rcases eq_or_ne w u with rfl | hne''
      · rw [hself] at hw
        exact absurd hv ((hawaits i target' hw).2.2 v hne target)
      · rw [hother w hne''] at hw
        exact h.alone v w i target target' hv hw
  · rw [(hsame mainThread).2.1]
    exact h.main
  · intro hinit
    refine ⟨(h.uninit hinit).1, ?_⟩
    intro v hv
    rw [(hsame v).2.2]
    exact (h.uninit hinit).2 v (hlive' v hv)

theorem awaits_of_running (h : (s.threads u).phase = .running) : (s.threads u).phase.awaits = none := by
  rw [h]
  rfl

/-- A thread that runs and has ended goes on to another loop over the keys. -/
theorem Held.setLoops (h : s.Held) (hu : (s.threads u).phase = .running)
    (hended : (s.threads u).ended ≠ none) (loops : List DestructorLoop) :
    (s.modifyThread u fun m => { m with loops := loops }).Held := by
  refine h.modifyThread ?_ ?_ ?_ ?_ ?_
  · intro m
    exact ⟨rfl, rfl, rfl⟩
  · intro hne
    exact hne
  · intro _
    exact hended
  · intro _
    exact hended
  · intro i target hi
    rw [show Phase.awaits _ = none from awaits_of_running hu] at hi
    cases hi

/-- A live thread goes on to another phase, in which it may wait for a thread that no other waits for. -/
theorem Held.setPhase (h : s.Held) (hu : s.Live u) {phase : Phase} (hphase : phase ≠ .absent)
    (hawaits : ∀ i target, phase.awaits = some (i, target) →
      (s.thread_table i).inUse = true ∧ s.owner i = target ∧
        ∀ v, v ≠ u → ∀ target', (s.threads v).phase.awaits ≠ some (i, target')) :
    (s.modifyThread u fun m => { m with phase := phase }).Held := by
  refine h.modifyThread ?_ ?_ ?_ ?_ hawaits
  · intro m
    exact ⟨rfl, rfl, rfl⟩
  · intro _
    exact hu
  · intro habsent
    exact absurd habsent hphase
  · intro hloops
    exact h.dying u hloops

theorem Held.setRunning (h : s.Held) (hu : s.Live u) :
    (s.modifyThread u fun m => { m with phase := .running }).Held := by
  refine h.setPhase hu Phase.noConfusion ?_
  rintro i target ⟨⟩

/-! ### The end of a thread -/

theorem Held.terminates (h : s.Held) (hended : (s.threads u).ended ≠ none) : (s.terminates u).Held := by
  refine h.modifyThread ?_ ?_ ?_ ?_ ?_
  · intro m
    exact ⟨rfl, rfl, rfl⟩
  · intro hne
    exact absurd rfl hne
  · intro _
    exact hended
  · intro hne
    exact absurd rfl hne
  · rintro i target ⟨⟩

theorem Held.runDestructors (h : s.Held) (hu : (s.threads u).phase = .running)
    (hended : (s.threads u).ended ≠ none) (idx : Slot) (key : ℕ) :
    (s.runDestructors u idx key).Held := by
  rw [ThreadState.runDestructors]
  split
  · rename_i k _
    exact (h.setLoops hu hended (⟨idx, k.val + 1⟩ :: (s.threads u).loops)).record trivial
  · exact h.terminates hended

/-- A thread that ends writes into its own entry, which from then on holds what it ended with. -/
theorem Held.finish (h : s.Held) (hinit : s.thread_table_initialized = true) (hu : s.Live u)
    (result : Ptr) :
    ((s.modifyThread u fun m => { m with ended := some result }).finish u (s.threads u).entry
      result).Held := by
  have hocc := h.occupies hinit u hu
  set r := (s.modifyThread u fun m => { m with ended := some result }).finish u (s.threads u).entry
    result with hr
  have hself : r.threads u = { s.threads u with ended := some result } := Function.update_self ..
  have hother : ∀ v, v ≠ u → r.threads v = s.threads v := fun v hne => Function.update_of_ne hne ..
  have hthread : ∀ v, (r.threads v).threadID = (s.threads v).threadID ∧
      (r.threads v).entry = (s.threads v).entry ∧ (r.threads v).phase = (s.threads v).phase := by
    intro v
    rcases eq_or_ne v u with rfl | hne
    · rw [hself]
      exact ⟨rfl, rfl, rfl⟩
    · rw [hother v hne]
      exact ⟨rfl, rfl, rfl⟩
  have hlive : ∀ v, r.Live v ↔ s.Live v := by
    intro v
    rw [Live, Live, (hthread v).2.2]
  have hresult : (r.thread_table (s.threads u).entry).result = result := by
    simp [hr, ThreadState.finish, ThreadState.modifyEntry, ThreadState.record,
      ThreadState.modifyThread]
  have hentry : ∀ j, (r.thread_table j).inUse = (s.thread_table j).inUse ∧
      (r.thread_table j).threadID = (s.thread_table j).threadID := by
    intro j
    rcases eq_or_ne j (s.threads u).entry with rfl | hne
    · simp [hr, ThreadState.finish, ThreadState.modifyEntry, ThreadState.record,
        ThreadState.modifyThread]
    · simp [hr, ThreadState.finish, ThreadState.modifyEntry, ThreadState.record,
        ThreadState.modifyThread, hne]
  refine ⟨?_, ?_, ?_, ?_, ?_, ?_, ?_, ?_, ?_⟩
  · intro e he
    rcases List.mem_cons.mp he with rfl | hold
    · exact hocc.owner.symm
    · exact h.honest e hold
  · intro v hv
    exact h.born v ((hlive v).mp hv)
  · intro _ v hv
    exact (h.occupies hinit v ((hlive v).mp hv)).transfer ⟨(hthread v).1, (hthread v).2.1⟩ rfl (hentry _)
  · intro j hj
    rw [(hentry j).1] at hj
    have hten := h.tenancy j hj
    rcases eq_or_ne (s.owner j) u with heq | hne
    · have hended : (r.threads (s.owner j)).ended = some result := by rw [heq, hself]
      refine ⟨hten.born, (hthread _).2.1.trans hten.entry, ?_, ?_⟩
      · intro _ hnone
        exact Option.some_ne_none result (hended.symm.trans hnone)
      · intro x hx
        obtain rfl := Option.some.inj (hended.symm.trans hx)
        rw [← hten.entry, heq]
        exact hresult
    · have hj' : j ≠ (s.threads u).entry := by
        rintro rfl
        exact hne hocc.owner
      have hsame : r.thread_table j = s.thread_table j := Function.update_of_ne hj' ..
      exact hten.transfer (Nat.le_refl _) rfl (hother _ hne) (congrArg ThreadEntry.result hsame)
  · intro v hv
    rcases eq_or_ne v u with rfl | hne
    · rw [hself]
      exact Option.some_ne_none result
    · rw [hother v hne] at hv ⊢
      exact h.dying v hv
  · intro v i target hv
    rw [(hthread v).2.2] at hv
    rw [(hentry i).1]
    exact h.awaits v i target hv
  · intro v w i target target' hv hw
    rw [(hthread v).2.2] at hv
    rw [(hthread w).2.2] at hw
    exact h.alone v w i target target' hv hw
  · rw [(hthread mainThread).2.1]
    exact h.main
  · intro hinit'
    rw [show r.thread_table_initialized = true from hinit] at hinit'
    cases hinit'

theorem finish_running (hu : (s.threads u).phase = .running) (result : Ptr) (i : Slot) :
    (((s.modifyThread u fun m => { m with ended := some result }).finish u i result).threads u).phase =
        .running ∧
      (((s.modifyThread u fun m => { m with ended := some result }).finish u i result).threads u).ended ≠
        none := by
  have hself : ((s.modifyThread u fun m => { m with ended := some result }).finish u i result).threads u =
      { s.threads u with ended := some result } := Function.update_self ..
  rw [hself]
  exact ⟨hu, Option.some_ne_none result⟩

/-- Before the table is initialised there is only the main thread, and pthread_exit leaves none. -/
theorem Held.exitUninit (h : s.Held) (hinit : s.thread_table_initialized = false) (hu : s.Live u)
    (retval : Ptr) : ((s.modifyThread u fun m => { m with ended := some retval }).terminates u).Held := by
  set r := (s.modifyThread u fun m => { m with ended := some retval }).terminates u with hr
  have hself : r.threads u = { s.threads u with phase := .absent, loops := [], ended := some retval } := by
    simp [hr, ThreadState.terminates, ThreadState.modifyThread]
  have hother : ∀ v, v ≠ u → r.threads v = s.threads v := by
    intro v hne
    simp [hr, ThreadState.terminates, ThreadState.modifyThread, hne]
  have hdead : ∀ v, ¬ r.Live v := by
    intro v hv
    rcases eq_or_ne v u with rfl | hne
    · exact hv (by rw [hself])
    · rw [Live, hother v hne] at hv
      exact hne (((h.uninit hinit).2 v hv).1.trans ((h.uninit hinit).2 u hu).1.symm)
  have hidle : ∀ v i target, (r.threads v).phase.awaits ≠ some (i, target) := by
    intro v i target hv
    rcases eq_or_ne v u with rfl | hne
    · rw [hself] at hv
      cases hv
    · rw [hother v hne] at hv
      have hused := (h.awaits v i target hv).1
      rw [(h.uninit hinit).1 i] at hused
      cases hused
  refine ⟨h.honest, ?_, ?_, ?_, ?_, ?_, ?_, ?_, ?_⟩
  · intro v hv
    exact absurd hv (hdead v)
  · intro _ v hv
    exact absurd hv (hdead v)
  · intro i hi
    have hused : (s.thread_table i).inUse = true := hi
    rw [(h.uninit hinit).1 i] at hused
    cases hused
  · intro v hv
    rcases eq_or_ne v u with rfl | hne
    · rw [hself] at hv
      exact absurd rfl hv
    · rw [hother v hne] at hv ⊢
      exact h.dying v hv
  · intro v i target hv
    exact absurd hv (hidle v i target)
  · intro v w i target target' hv
    exact absurd hv (hidle v i target)
  · have hentry : (r.threads mainThread).entry = (s.threads mainThread).entry := by
      rcases eq_or_ne mainThread u with heq | hne
      · rw [heq, hself]
      · rw [hother _ hne]
    rw [hentry]
    exact h.main
  · intro _
    refine ⟨(h.uninit hinit).1, ?_⟩
    intro v hv
    exact absurd hv (hdead v)

/-- A thread ends: it marks its own entry, and runs its destructors or is gone. -/
theorem Held.ends (h : s.Held) {a : ThreadInput} {result : Ptr} {i idx : Option Slot}
    (hends : s.Ends a u result i idx) (hgone : s.Gone a) :
    ((s.marked u result i).destroys u idx).Held := by
  have hu := hends.running
  have hlive := live_of_running hu
  have hdone : s.thread_table_initialized = true → i = some (s.threads u).entry →
      ((s.marked u result i).destroys u idx).Held := by
    rintro hinit rfl
    have hheld := h.finish hinit hlive result
    obtain ⟨hrun, hended⟩ := finish_running hu result (s.threads u).entry
    cases idx with
    | none => exact hheld.terminates hended
    | some idx => exact hheld.runDestructors hrun hended idx 0
  cases hinit : s.thread_table_initialized with
  | true =>
    refine hdone hinit ?_
    cases hends with
    | returns => rfl
    | exits =>
      have hocc := h.occupies hinit u hlive
      cases hi : s.index u with
      | none =>
        have hnone := List.find?_eq_none.mp hi (s.threads u).entry (List.mem_finRange _)
        simp [hocc.inUse, hocc.threadID] at hnone
      | some j => rw [hgone.2 hu j hi]
  | false =>
    cases hends with
    | returns _ _ _ _ hmain => exact absurd ((h.uninit hinit).2 u hlive).1 hmain
    | exits =>
      have hnone : s.index u = none := by
        refine List.find?_eq_none.mpr ?_
        intro i _
        simp [(h.uninit hinit).1 i]
      rw [hnone]
      exact h.exitUninit hinit hlive result

/-! ### Slots are given back and handed on -/

/-- The slot of a thread that is gone, and that nobody waits for, is given back. -/
theorem Held.release (h : s.Held) (hgone : ∀ v, s.Live v → (s.threads v).entry ≠ i)
    (hidle : ∀ v target, (s.threads v).phase.awaits ≠ some (i, target)) :
    (s.modifyEntry i fun e => { e with inUse := false }).Held := by
  set r := s.modifyEntry i fun e => { e with inUse := false } with hr
  have hother : ∀ j, j ≠ i → r.thread_table j = s.thread_table j := fun j hne =>
    modifyEntry_of_ne hne _
  have hfree : (r.thread_table i).inUse = false := by rw [hr, modifyEntry_self]
  have hold : ∀ j, (r.thread_table j).inUse = true → j ≠ i := by
    rintro j hj rfl
    rw [hfree] at hj
    cases hj
  refine ⟨h.honest, h.born, ?_, ?_, h.dying, ?_, h.alone, h.main, ?_⟩
  · intro hinit v hv
    have hentry : r.thread_table (s.threads v).entry = s.thread_table (s.threads v).entry :=
      hother _ (hgone v hv)
    exact (h.occupies hinit v hv).transfer ⟨rfl, rfl⟩ rfl
      ⟨congrArg ThreadEntry.inUse hentry, congrArg ThreadEntry.threadID hentry⟩
  · intro j hj
    have hsame := hother j (hold j hj)
    rw [hsame] at hj
    exact (h.tenancy j hj).transfer (Nat.le_refl _) rfl rfl (congrArg ThreadEntry.result hsame)
  · intro v j target hv
    have hne : j ≠ i := by
      rintro rfl
      exact hidle v target hv
    rw [hother j hne]
    exact h.awaits v j target hv
  · intro hinit
    refine ⟨?_, (h.uninit hinit).2⟩
    intro j
    rcases eq_or_ne j i with rfl | hne
    · exact hfree
    · rw [hother j hne]
      exact (h.uninit hinit).1 j

/-- The slot of a thread that is gone is given back by the one that has waited for it. -/
theorem Held.joins (h : s.Held) (hu : s.Live u) (hi : (s.thread_table i).inUse = true)
    (hidle : ∀ v, v ≠ u → ∀ target, (s.threads v).phase.awaits ≠ some (i, target))
    (hgone : ∀ v, s.Live v → (s.threads v).entry ≠ i) {stored : Option Ptr}
    (hstored : ∀ x ∈ stored, x = (s.thread_table i).result) :
    (((s.record (.joined (s.owner i) stored (s.threads (s.owner i)).ended)).modifyEntry i fun e =>
      { e with inUse := false }).modifyThread u fun m => { m with phase := .running }).Held := by
  have hten := h.tenancy i hi
  have hdead : ¬ s.Live (s.owner i) := fun hlive => hgone _ hlive hten.entry
  obtain ⟨x, hx⟩ := Option.ne_none_iff_exists'.mp (hten.ended hdead)
  have hhonest : Honest (.joined (s.owner i) stored (s.threads (s.owner i)).ended) := by
    refine ⟨x, hx, ?_⟩
    intro y hy
    rw [hstored y hy, hten.result x hx]
  -- the order of the last two writes does not matter
  refine Held.release (s := (s.record (.joined (s.owner i) stored
    (s.threads (s.owner i)).ended)).modifyThread u fun m => { m with phase := .running })
    ((h.record hhonest).setRunning hu) ?_ ?_
  · intro v hv
    rcases eq_or_ne v u with rfl | hne
    · rw [modifyThread_self]
      exact hgone v hu
    · rw [Live, modifyThread_of_ne hne] at hv
      rw [modifyThread_of_ne hne]
      exact hgone v hv
  · intro v target hv
    rcases eq_or_ne v u with rfl | hne
    · rw [modifyThread_self] at hv
      cases hv
    · rw [modifyThread_of_ne hne] at hv
      exact hidle v hne target hv

theorem Held.init (h : s.Held) (hu : s.Live u) : (s.init_thread_table u).Held := by
  cases hinit : s.thread_table_initialized with
  | true => rwa [init_thread_table_of_initialized hinit]
  | false =>
    obtain ⟨hunused, hmain⟩ := h.uninit hinit
    obtain ⟨hum, hended⟩ := hmain u hu
    rw [init_thread_table, if_neg (by simp [hinit])]
    refine ⟨h.honest, h.born, ?_, ?_, h.dying, ?_, h.alone, h.main, ?_⟩
    · intro _ v hv
      obtain rfl := (hmain v hv).1.trans hum.symm
      have hentry : (s.threads v).entry = mainSlot := hum ▸ h.main.2.1
      refine ⟨?_, ?_, ?_⟩
      · simp [hentry]
      · rw [hentry]
        exact h.main.1.trans hum.symm
      · simp [hentry]
    · intro i hi
      have him : i = mainSlot := by
        by_contra hne
        simp [hne] at hi
      have howner : s.owner i = u := by rw [him, h.main.1, hum]
      refine ⟨?_, ?_, ?_, ?_⟩
      · rw [howner]
        exact h.born u hu
      · rw [howner, him, hum]
        exact h.main.2.1
      · rw [howner]
        intro hdead
        exact absurd hu hdead
      · intro x hx
        rw [howner] at hx
        exact absurd (hx.symm.trans hended) (Option.some_ne_none x)
    · intro v i target hv
      have hused := (h.awaits v i target hv).1
      rw [hunused i] at hused
      cases hused
    · intro h'
      cases h'

/-- A new thread takes a free slot. -/
theorem Held.newThread (h : s.Held) (hinit : s.thread_table_initialized = true) (hi : i ≠ mainSlot)
    (hfree : (s.thread_table i).inUse = false) (tid : ThreadID) {e : ThreadEntry}
    (he : e.inUse = true ∧ e.threadID = tid) :
    (s.withThread i tid e).Held := by
  set r := s.withThread i tid e
  have hnew : r.threads s.created = ⟨tid, i, .ready, [], none⟩ := withThread_newborn
  have hold : ∀ v, v ≠ s.created → r.threads v = s.threads v := fun v hne => withThread_older hne
  have hslot : r.thread_table i = e ∧ r.owner i = s.created :=
    ⟨withThread_table_self, withThread_owner_self⟩
  have hother : ∀ j, j ≠ i → r.thread_table j = s.thread_table j ∧ r.owner j = s.owner j := fun j hne =>
    ⟨withThread_table hne, withThread_owner hne⟩
  have hne : ∀ j, (s.thread_table j).inUse = true → j ≠ i := by
    rintro j hj rfl
    rw [hfree] at hj
    cases hj
  have hlive : ∀ v, v ≠ s.created → r.Live v → s.Live v := fun v hv => (withThread_live hv).mp
  refine ⟨h.honest, ?_, ?_, ?_, ?_, ?_, ?_, ?_, ?_⟩
  · intro v hv
    rcases eq_or_ne v s.created with rfl | hv'
    · exact Nat.lt_succ_self _
    · exact Nat.lt_succ_of_lt (h.born v (hlive v hv' hv))
  · intro _ v hv
    rcases eq_or_ne v s.created with rfl | hv'
    · refine ⟨?_, ?_, ?_⟩ <;> rw [hnew]
      · rw [hslot.1]
        exact he.1
      · exact hslot.2
      · rw [hslot.1]
        exact he.2
    · have hocc := h.occupies hinit v (hlive v hv' hv)
      have hentry := hother _ (hne _ hocc.inUse)
      exact hocc.transfer ⟨congrArg MacThread.threadID (hold v hv'), congrArg MacThread.entry (hold v hv')⟩ hentry.2
        ⟨congrArg ThreadEntry.inUse hentry.1, congrArg ThreadEntry.threadID hentry.1⟩
  · intro j hj
    rcases eq_or_ne j i with rfl | hji
    · refine ⟨?_, ?_, ?_, ?_⟩ <;> rw [hslot.2]
      · exact Nat.lt_succ_self _
      · rw [hnew]
      · intro hdead
        refine absurd ?_ hdead
        rw [Live, hnew]
        exact Phase.noConfusion
      · intro x hx
        rw [hnew] at hx
        cases hx
    · rw [(hother j hji).1] at hj
      have hten := h.tenancy j hj
      exact hten.transfer (Nat.le_succ _) (hother j hji).2 (hold _ (Nat.ne_of_lt hten.born))
        (congrArg ThreadEntry.result (hother j hji).1)
  · intro v hv
    rcases eq_or_ne v s.created with rfl | hv'
    · rw [hnew] at hv
      exact absurd rfl hv
    · rw [hold v hv'] at hv ⊢
      exact h.dying v hv
  · intro v j target hv
    rcases eq_or_ne v s.created with rfl | hv'
    · rw [hnew] at hv
      cases hv
    · rw [hold v hv'] at hv
      have hawaits := h.awaits v j target hv
      rw [(hother j (hne j hawaits.1)).1, (hother j (hne j hawaits.1)).2]
      exact hawaits
  · intro v w j target target' hv hw
    rcases eq_or_ne v s.created with rfl | hv'
    · rw [hnew] at hv
      cases hv
    · rcases eq_or_ne w s.created with rfl | hw'
      · rw [hnew] at hw
        cases hw
      · rw [hold v hv'] at hv
        rw [hold w hw'] at hw
        exact h.alone v w j target target' hv hw
  · rw [(hother mainSlot hi.symm).2, hold mainThread (Nat.ne_of_lt h.main.2.2)]
    exact ⟨h.main.1, h.main.2.1, Nat.succ_pos _⟩
  · intro hinit'
    rw [show r.thread_table_initialized = true from hinit] at hinit'
    cases hinit'

theorem Held.create (h : s.Held) (hu : s.Live u) (attr : Option PthreadAttr) (start_routine arg : Ptr)
    (newThread : ℕ → Option ThreadID) :
    (s.pthread_create u attr start_routine arg newThread).2.Held := by
  have hheld := h.init hu
  rcases s.pthread_create_cases u attr start_routine arg newThread with
    ⟨_, hmade⟩ | ⟨i, hfree, _, hmade⟩ | ⟨i, tid, hfree, _, _, hmade⟩
  · rw [hmade]
    exact hheld
  · rw [hmade]
    have hfalse := (freeSlot_spec hfree).2
    dsimp only
    refine hheld.modifyEntry ?_ ?_
    · exact hfalse.symm
    · intro htrue
      rw [hfalse] at htrue
      cases htrue
  · rw [hmade]
    exact hheld.newThread (init_thread_table_initialized s u) (freeSlot_spec hfree).1
      (freeSlot_spec hfree).2 tid ⟨rfl, rfl⟩

/-! ### Runs -/

theorem live_of_awaits (h : (s.threads u).phase.awaits = some (i, target)) : s.Live u := by
  intro habsent
  rw [habsent] at h
  cases h

theorem Held.idle (h : s.Held)
    (hidle : ∀ v < s.created, (s.threads v).phase.awaits ≠ some (i, s.owner i)) (v target : Uid) :
    (s.threads v).phase.awaits ≠ some (i, target) := by
  intro hv
  have howner := (h.awaits v i target hv).2
  exact hidle v (h.born v (live_of_awaits hv)) (howner ▸ hv)

/-- In a round of pthread_join nobody else waits for the entry. -/
theorem Held.round (h : s.Held) {a : ThreadInput} {retval : Bool} (hone : s.OneJoiner a)
    (hround : s.Rounds a u i retval target) :
    (s.thread_table i).inUse = true ∧ s.owner i = target ∧
      ∀ v, v ≠ u → ∀ target', (s.threads v).phase.awaits ≠ some (i, target') := by
  cases hround with
  | calls u thread retval i hu hi hdet =>
    refine ⟨get_thread_spec hi, rfl, ?_⟩
    intro v _ target'
    exact h.idle (hone hu i hi) v target'
  | resumes u i retval target hphase =>
    have hu : (s.threads u).phase.awaits = some (i, target) := by
      rw [hphase]
      rfl
    obtain ⟨hi, howner⟩ := h.awaits u i target hu
    refine ⟨hi, howner, ?_⟩
    intro v hne target' hv
    exact hne (h.alone v u i target' _ hv hu)

/-- A step that stores nothing. -/
theorem Held.quiet (h : s.Held) {a : ThreadInput} (hcase : s.Case a t) (hone : s.OneJoiner a)
    (hgone : s.Gone a) : t.Held := by
  have hgone' : ∀ i ∈ s.released a, ∀ v, s.Live v → (s.threads v).entry ≠ i := fun i hi v hv =>
    hgone.1 i hi v (h.born v hv) hv
  cases hcase with
  | idle => exact h
  | deletes u key k =>
    exact (h.record (e := .keyDeleted k) trivial).congr rfl rfl rfl rfl rfl fun _ he => .inl he
  | begins u hu =>
    have hlive : s.Live u := by
      rw [Live, hu]
      exact Phase.noConfusion
    exact (h.setRunning hlive).record trivial
  | cancels u thread i =>
    refine h.modifyEntry ?_ ?_
    · rfl
    · intro _
      exact ⟨rfl, rfl⟩
  | detaches u thread i =>
    refine h.modifyEntry ?_ ?_
    · rfl
    · intro _
      exact ⟨rfl, rfl⟩
  | frees u thread i hu hi hfin =>
    have hrel : i ∈ s.released (.call u (.pthread_detach thread)) := by simp [released, hu, hi, hfin]
    have hdet : (s.modifyEntry i fun e => { e with detached := true }).Held := by
      refine h.modifyEntry ?_ ?_
      · rfl
      · intro _
        exact ⟨rfl, rfl⟩
    exact hdet.release (hgone' i hrel) fun v target => h.idle (hgone.2 i hrel) v target
  | waits a u i retval target hround =>
    obtain ⟨hi, howner, hidle⟩ := h.round hone hround
    refine h.setPhase hround.live Phase.noConfusion ?_
    intro j target' hj
    obtain ⟨rfl, rfl⟩ := Prod.mk.inj (Option.some.inj hj)
    exact ⟨hi, howner, hidle⟩
  | joins a u i retval target hround hfin =>
    obtain ⟨hi, rfl, hidle⟩ := h.round hone hround
    have hrel : i ∈ s.released a := by
      rw [hround.released, if_pos hfin]
      exact rfl
    refine h.joins hround.live hi hidle (hgone' i hrel) ?_
    intro x hx
    split at hx
    · exact (Option.some.inj hx).symm
    · cases hx
  | goesOn u result l rest hu hloops =>
    have hended : (s.threads u).ended ≠ none := h.dying u (by rw [hloops]; exact List.cons_ne_nil l rest)
    refine Held.runDestructors (h.setLoops hu hended rest) ?_ ?_ l.idx l.key
    · rw [modifyThread_self]
      exact hu
    · rw [modifyThread_self]
      exact hended
  | ends a u result i idx hends => exact h.ends hends hgone

theorem Held.stores (h : s.Held) (hu : s.Live u) {c : ThreadCall} (hc : Stores c) :
    (s.exec u c).Held := by
  cases c with
  | pthread_create attr start_routine arg newThread =>
    exact h.create hu attr start_routine arg newThread
  | pthread_self =>
    rw [exec, pthread_self_state]
    exact h.init hu
  | pthread_key_create destructor =>
    rw [exec, pthread_key_create]
    split
    · rename_i k _
      exact (h.record (e := .keyCreated k) trivial).congr rfl rfl rfl rfl rfl fun _ he => .inl he
    · exact h
  | pthread_setspecific key value =>
    rw [exec, pthread_setspecific]
    split
    · exact h
    · split
      · exact h
      · rename_i k _ _ _ _
        exact (h.record (e := .set u k value) trivial).congr rfl rfl rfl rfl rfl fun _ he => .inl he
  | _ => exact hc.elim

theorem Held.step (h : s.Held) (a : ThreadInput) (hone : s.OneJoiner a) (hgone : s.Gone a) :
    (s.step a).Held := by
  by_cases hstoring : s.StoringCall a
  · obtain ⟨u, c, rfl, hu, hc⟩ := hstoring
    rw [ThreadState.step, if_pos hu]
    exact h.stores (live_of_running hu) hc
  · exact h.quiet (case_step hstoring) hone hgone

/-- In a run from the start in which only slots of threads that are gone are given back, pthread_join
    returns what its thread ended with, and no slot is handed on while its thread can still execute. -/
theorem faithful_of_gone (main : ThreadID) (as : List ThreadInput)
    (hone : Meets step OneJoiner (start main) as) (hgone : Meets step Gone (start main) as) :
    Always step Faithful (start main) as := by
  refine (always_of_meets (I := Held) ?_ (Held.start main) (hone.and hgone)).mono fun s hs => hs.faithful
  intro s a hs hmeets
  exact hs.step a hmeets.1 hmeets.2

/-- A thread with a destructor is joined when it is gone, and its slot is handed on. -/
theorem faithful_join_after_destructor : Always step Faithful (start 2) [
    .call 0 (.pthread_create none 500 0 fun _ => some 3),
    .call 0 (.pthread_key_create 900),
    .begins 1, .call 1 (.pthread_setspecific 0 7), .call 0 (.pthread_join 2 true),
    .returns 1 9, .returns 1 0, .resumes 0,
    .call 0 (.pthread_create none 500 0 fun _ => some 3)] :=
  faithful_of_gone 2 _ (by decide +kernel) (by decide +kernel)

/-- A thread is joined while a destructor of it runs, and its slot is handed on. -/
theorem slot_handed_on_in_destructor : ¬ ∀ (main : ThreadID) (as : List ThreadInput),
    Meets step OneJoiner (start main) as → Always step Faithful (start main) as := by
  intro h
  have hall := always_iff_prefix.mp (h 2 [
    .call 0 (.pthread_create none 500 0 fun _ => some 3),
    .call 0 (.pthread_key_create 900),
    .begins 1, .call 1 (.pthread_setspecific 0 7), .returns 1 9,
    .call 0 (.pthread_join 2 true),
    .call 0 (.pthread_create none 500 0 fun _ => some 4)] (by decide +kernel)) _ List.prefix_rfl
  have hsame := hall.own_slot 1 2 (by decide +kernel) (by decide +kernel) (by decide +kernel)
  exact absurd hsame (by decide)

end ThreadState

end Posix9
