import Mathlib.Data.Fintype.Card
import Posix9.Join
import Posix9.ThreadSteps

/-! When a slot is given back. Of the ends of a slot's life only pthread_join, and a pthread_detach that
    comes after the end of the thread, give it back; thread_entry and pthread_exit do not. So a thread that
    is detached when it ends keeps its slot for good, and all other slots are given back in time. -/

namespace Posix9
open Runs

namespace ThreadState

variable {s t : ThreadState} {u v target : Uid} {i j : Slot}

/-! ### The law -/

def Joined (s : ThreadState) (u : Uid) : Prop := ∃ stored ended, .joined u stored ended ∈ s.log

/-- The thread has not ended, or it is not detached and has not been joined. -/
def Wanted (s : ThreadState) (u : Uid) : Prop :=
  (s.threads u).ended = none ∨
    ((s.thread_table (s.threads u).entry).detached = false ∧ ¬ s.Joined u)

/-- Every slot in use but the main thread's belongs to a thread that still needs it, and the search for a
    slot fails only when there are 63 such threads. -/
structure Reclaimed (s : ThreadState) : Prop where
  slots : ∀ i, i ≠ mainSlot → (s.thread_table i).inUse = true →
    (s.threads (s.owner i)).entry = i ∧ s.Wanted (s.owner i)
  full : ∀ u, s.Live u → (s.alloc_thread u).1 = none →
    ∃ us : Finset Uid, us.card = 63 ∧ ∀ v ∈ us, v ≠ mainThread ∧ s.Wanted v

/-- No thread is detached when it ends, and a thread that is detached after its end is marked finished. -/
def Timely (s : ThreadState) (a : ThreadInput) : Prop :=
  (∀ u ∈ s.ends a, ∀ i, i ≠ mainSlot → (s.thread_table i).inUse = true → s.owner i = u →
    (s.thread_table i).detached = false) ∧
  ∀ i ∈ s.detaches a, i ≠ mainSlot → (s.thread_table i).finished = false →
    (s.threads (s.owner i)).ended = none

/-! ### What every run keeps -/

/-- A slot in use is the one its thread was created for, and that thread has not been joined; who waits
    for an entry waits for a thread that was created for it. -/
structure Leased (s : ThreadState) : Prop where
  entry : ∀ i, (s.thread_table i).inUse = true →
    (s.threads (s.owner i)).entry = i ∧ s.owner i < s.created
  fresh : ∀ i, i ≠ mainSlot → (s.thread_table i).inUse = true → ¬ s.Joined (s.owner i)
  awaits : ∀ u i target, (s.threads u).phase.awaits = some (i, target) →
    (s.threads target).entry = i ∧ target < s.created
  joined : ∀ v, s.Joined v → v < s.created
  main : (s.threads mainThread).entry = mainSlot ∧ s.owner mainSlot = mainThread ∧ 0 < s.created
  uninit : s.thread_table_initialized = false → ∀ i, (s.thread_table i).inUse = false

theorem Leased.start (main : ThreadID) : (start main).Leased := by
  refine ⟨?_, ?_, ?_, ?_, ⟨rfl, rfl, Nat.zero_lt_one⟩, fun _ _ => rfl⟩
  · intro i hi
    cases hi
  · intro i _ hi
    cases hi
  · intro u i target hawaits
    have hlive : (ThreadState.start main).Live u := live_of_awaits hawaits
    rw [live_start hlive] at hawaits
    cases hawaits
  · rintro v ⟨stored, ended, hmem⟩
    cases hmem

/-! ### What a step does to the slots -/

/-- The step detaches no entry, joins and ends no thread, and sends none to wait. -/
structure Passes (s t : ThreadState) : Prop where
  detached : ∀ i, (t.thread_table i).detached = (s.thread_table i).detached
  joined : ∀ v, t.Joined v ↔ s.Joined v
  ended : ∀ v, (t.threads v).ended = (s.threads v).ended
  awaits : ∀ v x, (t.threads v).phase.awaits = some x → (s.threads v).phase.awaits = some x

theorem Passes.refl (s : ThreadState) : Passes s s :=
  ⟨fun _ => rfl, fun _ => Iff.rfl, fun _ => rfl, fun _ _ h => h⟩

theorem Passes.trans {r : ThreadState} (h : Passes r s) (h' : Passes s t) : Passes r t where
  detached i := (h'.detached i).trans (h.detached i)
  joined v := (h'.joined v).trans (h.joined v)
  ended v := (h'.ended v).trans (h.ended v)
  awaits v x hx := h.awaits v x (h'.awaits v x hx)

theorem joined_record {e : ThreadEvent} (he : ∀ stored ended, e ≠ .joined v stored ended) :
    (s.record e).Joined v ↔ s.Joined v := by
  have hcons : ∀ stored ended, .joined v stored ended ∈ e :: s.log ↔ .joined v stored ended ∈ s.log := by
    intro stored ended
    rw [List.mem_cons, or_iff_right (Ne.symm (he stored ended))]
  exact exists₂_congr hcons

section Passes

variable {r : ThreadState} (h : Passes r s)
include h

theorem Passes.modifyEntry {f : ThreadEntry → ThreadEntry} (hf : ∀ e, (f e).detached = e.detached) :
    Passes r (s.modifyEntry i f) := by
  refine h.trans ⟨fun j => ?_, fun _ => Iff.rfl, fun _ => rfl, fun _ _ h => h⟩
  rcases eq_or_ne j i with rfl | hne
  · rw [modifyEntry_self, hf]
  · rw [modifyEntry_of_ne hne]

theorem Passes.modifyThread {f : MacThread → MacThread} (hended : ∀ m, (f m).ended = m.ended)
    (hawaits : ∀ x, (f (s.threads u)).phase.awaits = some x → (s.threads u).phase.awaits = some x) :
    Passes r (s.modifyThread u f) := by
  refine h.trans ⟨fun _ => rfl, fun _ => Iff.rfl, fun v => ?_, fun v x hx => ?_⟩
  · rcases eq_or_ne v u with rfl | hne
    · rw [modifyThread_self, hended]
    · rw [modifyThread_of_ne hne]
  · rcases eq_or_ne v u with rfl | hne
    · rw [modifyThread_self] at hx
      exact hawaits x hx
    · rwa [modifyThread_of_ne hne] at hx

theorem Passes.record {e : ThreadEvent} (he : ∀ v stored ended, e ≠ .joined v stored ended) :
    Passes r (s.record e) :=
  h.trans ⟨fun _ => rfl, fun v => joined_record (he v), fun _ => rfl, fun _ _ h => h⟩

theorem Passes.terminates (u : Uid) : Passes r (s.terminates u) := by
  refine h.modifyThread ?_ ?_
  · intro m
    rfl
  · intro x hx
    cases hx

theorem Passes.runDestructors (u : Uid) (idx : Slot) (key : ℕ) :
    Passes r (s.runDestructors u idx key) := by
  rw [ThreadState.runDestructors]
  split
  · refine (h.modifyThread ?_ ?_).record ?_
    · intro m
      rfl
    · intro x hx
      exact hx
    · intro v stored ended
      exact ThreadEvent.noConfusion
  · exact h.terminates u

end Passes

/-- A step that stores nothing is one change to a slot's life, or none, and lets the rest pass. -/
inductive SlotStep (s : ThreadState) (a : ThreadInput) : Prop where
  | passes (h : Passes s (s.step a)) (hends : s.ends a = none) (hdetaches : s.detaches a = none)
  | ends (u : Uid) (result : Ptr) (hends : s.ends a = some u) (hdetaches : s.detaches a = none)
      (h : Passes (s.modifyThread u fun m => { m with ended := some result }) (s.step a))
  | detaches (i : Slot) (hends : s.ends a = none) (hdetaches : s.detaches a = some i)
      (h : Passes (s.modifyEntry i fun e => { e with detached := true }) (s.step a))
  | waits (u : Uid) (i : Slot) (retval : Bool) (hends : s.ends a = none)
      (hdetaches : s.detaches a = none) (hi : (s.thread_table i).inUse = true)
      (h : Passes (s.modifyThread u fun m => { m with phase := .joining i retval (s.owner i) })
        (s.step a))
  | joins (i : Slot) (target : Uid) (stored ended : Option Ptr) (hends : s.ends a = none)
      (hdetaches : s.detaches a = none) (hreleased : s.released a = some i)
      (htarget : ((s.thread_table i).inUse = true ∧ s.owner i = target) ∨
        ∃ u, (s.threads u).phase.awaits = some (i, target))
      (h : Passes (s.record (.joined target stored ended)) (s.step a))

theorem passes_marked (s : ThreadState) (u : Uid) (result : Ptr) (i : Option Slot) :
    Passes (s.modifyThread u fun m => { m with ended := some result }) (s.marked u result i) := by
  have hrefl := Passes.refl (s.modifyThread u fun m => { m with ended := some result })
  cases i with
  | none => exact hrefl
  | some i =>
    refine (hrefl.modifyEntry ?_).record ?_
    · intro e
      rfl
    · intro v stored ended
      exact ThreadEvent.noConfusion

theorem SameTable.passes (h : SameTable s t) (hlog : ∀ v, t.Joined v ↔ s.Joined v) : Passes s t := by
  refine ⟨?_, hlog, ?_, ?_⟩
  · intro i
    rw [h.thread_table]
  · intro v
    rw [h.threads]
  · intro v x hx
    rwa [h.threads] at hx

theorem passes_pthread_key_create (s : ThreadState) (destructor : Ptr) :
    Passes s (s.pthread_key_create destructor).2 := by
  refine (sameTable_key_create s destructor).passes fun v => ?_
  rw [pthread_key_create]
  split
  · exact joined_record fun _ _ => ThreadEvent.noConfusion
  · exact Iff.rfl

theorem passes_pthread_setspecific (s : ThreadState) (u : Uid) (key : ℕ) (value : Ptr) :
    Passes s (s.pthread_setspecific u key value).2 := by
  refine (sameTable_setspecific s u key value).passes fun v => ?_
  rw [pthread_setspecific]
  split
  · exact Iff.rfl
  · split
    · exact Iff.rfl
    · exact joined_record fun _ _ => ThreadEvent.noConfusion

theorem Ends.ends {a : ThreadInput} {result : Ptr} {i idx : Option Slot}
    (h : s.Ends a u result i idx) : s.ends a = some u ∧ s.detaches a = none := by
  cases h with
  | returns u result hu hloops hmain => exact ⟨if_pos ⟨hu, hloops, hmain⟩, rfl⟩
  | exits u retval hu => exact ⟨if_pos hu, rfl⟩

theorem Rounds.ends {a : ThreadInput} {retval : Bool} (h : s.Rounds a u i retval target) :
    s.ends a = none ∧ s.detaches a = none := by
  cases h <;> exact ⟨rfl, rfl⟩

/-- The step waits or joins for the thread of an entry in use, or for the one it has waited for. -/
theorem Rounds.waited {a : ThreadInput} {retval : Bool} (h : s.Rounds a u i retval target) :
    ((s.thread_table i).inUse = true ∧ s.owner i = target) ∨
      (s.threads u).phase.awaits = some (i, target) := by
  cases h with
  | calls u thread retval i hu hi hdet => exact .inl ⟨get_thread_spec hi, rfl⟩
  | resumes u i retval target hphase =>
    rw [hphase]
    exact .inr rfl

theorem slotStep (s : ThreadState) {a : ThreadInput} (h : ¬ s.StoringCall a) : s.SlotStep a := by
  have hcase := case_step h
  obtain ⟨t, ht⟩ : ∃ t, s.step a = t := ⟨_, rfl⟩
  rw [ht] at hcase
  have hrefl := Passes.refl s
  cases hcase with
  | idle a _ hends hdetaches =>
    refine .passes ?_ hends hdetaches
    rw [ht]
    exact hrefl
  | deletes u key k =>
    refine .passes ?_ rfl rfl
    rw [ht]
    exact ⟨fun _ => rfl, fun v => joined_record (e := .keyDeleted k) fun _ _ => ThreadEvent.noConfusion,
      fun _ => rfl, fun _ _ h => h⟩
  | begins u =>
    refine .passes ?_ rfl rfl
    rw [ht]
    refine (hrefl.modifyThread ?_ ?_).record ?_
    · intro m
      rfl
    · intro x hx
      cases hx
    · intro v stored ended
      exact ThreadEvent.noConfusion
  | cancels u thread i =>
    refine .passes ?_ rfl rfl
    rw [ht]
    refine hrefl.modifyEntry ?_
    intro e
    rfl
  | detaches u thread i hu hi _ =>
    refine .detaches i rfl (by rw [ThreadState.detaches, if_pos hu, hi]) ?_
    rw [ht]
    exact Passes.refl _
  | frees u thread i hu hi _ =>
    refine .detaches i rfl (by rw [ThreadState.detaches, if_pos hu, hi]) ?_
    rw [ht]
    refine (Passes.refl _).modifyEntry ?_
    intro e
    rfl
  | waits a u i retval target hround _ =>
    obtain ⟨hends, hdetaches⟩ := hround.ends
    rcases hround.waited with ⟨hi, rfl⟩ | hawaits
    · refine .waits u i retval hends hdetaches hi ?_
      rw [ht]
      exact Passes.refl _
    · refine .passes ?_ hends hdetaches
      rw [ht]
      refine hrefl.modifyThread ?_ ?_
      · intro m
        rfl
      · intro x hx
        exact hawaits.trans hx
  | joins a u i retval target hround hfin =>
    obtain ⟨hends, hdetaches⟩ := hround.ends
    refine .joins i target (if retval then some (s.thread_table i).result else none)
      (s.threads target).ended hends hdetaches ?_
      (hround.waited.imp_right fun hawaits => ⟨u, hawaits⟩) ?_
    · rw [hround.released, if_pos hfin]
    · rw [ht]
      refine ((Passes.refl _).modifyEntry ?_).modifyThread ?_ ?_
      · intro e
        rfl
      · intro m
        rfl
      · intro x hx
        cases hx
  | goesOn u result l rest hu hloops =>
    refine .passes ?_ (if_neg fun hends => ?_) rfl
    · rw [ht]
      refine (hrefl.modifyThread ?_ ?_).runDestructors u _ _
      · intro m
        rfl
      · intro x hx
        exact hx
    · rw [hloops] at hends
      cases hends.2.1
  | ends a u result i idx hends =>
    refine .ends u result hends.ends.1 hends.ends.2 ?_
    rw [ht]
    cases idx with
    | none => exact (passes_marked s u result i).terminates u
    | some idx => exact (passes_marked s u result i).runDestructors u idx 0

/-! ### Who has ended, and which entries are detached -/

section Step

variable {a : ThreadInput} (h : ¬ s.StoringCall a)
include h

theorem ended_step (v : Uid) : ((s.step a).threads v).ended = none ↔
    (s.threads v).ended = none ∧ s.ends a ≠ some v := by
  cases s.slotStep h with
  | passes hpass hends _ =>
    rw [hpass.ended, hends]
    simp
  | ends u result hends _ hpass =>
    rw [hpass.ended, hends]
    rcases eq_or_ne v u with rfl | hne
    · simp
    · simp [modifyThread_of_ne hne, hne.symm]
  | detaches i hends _ hpass =>
    rw [hpass.ended, hends]
    simp [modifyEntry]
  | waits u i retval hends _ _ hpass =>
    rw [hpass.ended, hends]
    rcases eq_or_ne v u with rfl | hne
    · simp
    · simp [modifyThread_of_ne hne]
  | joins i target stored ended hends _ _ _ hpass =>
    rw [hpass.ended, hends]
    simp [record]

theorem detached_step (i : Slot) : ((s.step a).thread_table i).detached = false ↔
    (s.thread_table i).detached = false ∧ s.detaches a ≠ some i := by
  cases s.slotStep h with
  | passes hpass _ hdetaches =>
    rw [hpass.detached, hdetaches]
    simp
  | ends u result _ hdetaches hpass =>
    rw [hpass.detached, hdetaches]
    simp [modifyThread]
  | detaches j _ hdetaches hpass =>
    rw [hpass.detached, hdetaches]
    rcases eq_or_ne i j with rfl | hne
    · simp
    · simp [modifyEntry_of_ne hne, hne.symm]
  | waits u j retval _ hdetaches _ hpass =>
    rw [hpass.detached, hdetaches]
    simp [modifyThread]
  | joins j target stored ended _ hdetaches _ _ hpass =>
    rw [hpass.detached, hdetaches]
    simp [record]

theorem ends_or_detaches : s.ends a = none ∨ s.detaches a = none := by
  cases s.slotStep h with
  | passes _ hends _ | detaches _ hends _ _ | waits _ _ _ hends _ _ _ | joins _ _ _ _ hends _ _ _ _ =>
    exact .inl hends
  | ends _ _ _ hdetaches _ => exact .inr hdetaches

end Step

theorem released_of_ends {a : ThreadInput} (h : u ∈ s.ends a) : s.released a = none := by
  cases a with
  | call v c =>
    cases c with
    | pthread_exit retval => rfl
    | _ => cases h
  | returns v result => rfl
  | begins v | resumes v => cases h

theorem released_of_detaches {a : ThreadInput} (h : i ∈ s.detaches a) :
    (s.thread_table i).inUse = true ∧
      ((s.thread_table i).finished = false ↔ s.released a ≠ some i) := by
  cases a with
  | call v c =>
    cases c with
    | pthread_detach thread =>
      rw [detaches] at h
      split at h
      · rename_i hv
        have hi : s.get_thread thread = some i := h
        refine ⟨get_thread_spec hi, ?_⟩
        simp [released, hv, hi]
      · cases h
    | _ => cases h
  | returns v result | begins v | resumes v => cases h

/-! ### A step keeps the leases -/

theorem Leased.keeps (h : s.Leased) (hten : Tenants s t)
    (hinUse : ∀ i, (t.thread_table i).inUse = true → (s.thread_table i).inUse = true)
    (hjoined : ∀ v, t.Joined v → s.Joined v ∨
      (v < s.created ∧ (t.thread_table (s.threads v).entry).inUse = false))
    (hawaits : ∀ u i target, (t.threads u).phase.awaits = some (i, target) →
      (s.threads u).phase.awaits = some (i, target) ∨
        ((s.thread_table i).inUse = true ∧ s.owner i = target)) : t.Leased := by
  refine ⟨?_, ?_, ?_, ?_, ?_, ?_⟩
  · intro i hi
    rw [hten.owner, hten.entry, hten.created]
    exact h.entry i (hinUse i hi)
  · intro i hne hi hjoin
    rw [hten.owner] at hjoin
    rcases hjoined _ hjoin with hold | ⟨_, hfree⟩
    · exact h.fresh i hne (hinUse i hi) hold
    · rw [(h.entry i (hinUse i hi)).1, hi] at hfree
      cases hfree
  · intro u i target hu
    rw [hten.entry, hten.created]
    rcases hawaits u i target hu with hold | ⟨hi, rfl⟩
    · exact h.awaits u i target hold
    · exact h.entry i hi
  · intro v hv
    rw [hten.created]
    rcases hjoined v hv with hold | ⟨hlt, _⟩
    · exact h.joined v hold
    · exact hlt
  · rw [hten.entry, hten.owner, hten.created]
    exact h.main
  · intro hinit i
    have hfree := h.uninit (hten.initialized.symm.trans hinit) i
    cases hi : (t.thread_table i).inUse with
    | false => rfl
    | true =>
      rw [hinUse i hi] at hfree
      cases hfree

theorem Leased.quiet (h : s.Leased) {a : ThreadInput} (hstoring : ¬ s.StoringCall a) :
    (s.step a).Leased := by
  have hten := tenants_step hstoring
  have hinUse : ∀ i, ((s.step a).thread_table i).inUse = true → (s.thread_table i).inUse = true :=
    fun i hi => ((inUse_step hstoring i).mp hi).1
  cases s.slotStep hstoring with
  | passes hpass =>
    refine h.keeps hten hinUse ?_ ?_
    · intro v hv
      exact .inl ((hpass.joined v).mp hv)
    · intro v j target hv
      exact .inl (hpass.awaits v _ hv)
  | ends u result _ _ hpass =>
    refine h.keeps hten hinUse ?_ ?_
    · intro v hv
      exact .inl ((hpass.joined v).mp hv)
    · intro v j target hv
      have hv' := hpass.awaits v _ hv
      rcases eq_or_ne v u with rfl | hne
      · rw [modifyThread_self] at hv'
        exact .inl hv'
      · rw [modifyThread_of_ne hne] at hv'
        exact .inl hv'
  | detaches i _ _ hpass =>
    refine h.keeps hten hinUse ?_ ?_
    · intro v hv
      exact .inl ((hpass.joined v).mp hv)
    · intro v j target hv
      exact .inl (hpass.awaits v _ hv)
  | waits u i retval _ _ hi hpass =>
    refine h.keeps hten hinUse ?_ ?_
    · intro v hv
      exact .inl ((hpass.joined v).mp hv)
    · intro v j target hv
      have hv' := hpass.awaits v _ hv
      rcases eq_or_ne v u with rfl | hne
      · rw [modifyThread_self] at hv'
        obtain ⟨rfl, rfl⟩ := Prod.mk.inj (Option.some.inj hv')
        exact .inr ⟨hi, rfl⟩
      · rw [modifyThread_of_ne hne] at hv'
        exact .inl hv'
  | joins i target stored ended _ _ hreleased htarget hpass =>
    have htarget' : (s.threads target).entry = i ∧ target < s.created := by
      rcases htarget with ⟨hi, rfl⟩ | ⟨u, hu⟩
      · exact h.entry i hi
      · exact h.awaits u i target hu
    refine h.keeps hten hinUse ?_ ?_
    · intro v hv
      rcases eq_or_ne v target with rfl | hne
      · refine .inr ⟨htarget'.2, ?_⟩
        rw [htarget'.1, ← Bool.not_eq_true, inUse_step hstoring, hreleased]
        simp
      · refine .inl ((joined_record ?_).mp ((hpass.joined v).mp hv))
        intro stored' ended' heq
        exact hne (ThreadEvent.joined.inj heq).1.symm
    · intro v j target' hv
      exact .inl (hpass.awaits v _ hv)

/-- The thread that initialises the table gets its slot; no other comes into use. -/
theorem inUse_init (hne : i ≠ mainSlot) (hi : ((s.init_thread_table u).thread_table i).inUse = true) :
    (s.init_thread_table u) = s ∧ (s.thread_table i).inUse = true := by
  cases hinit : s.thread_table_initialized with
  | true =>
    rw [init_thread_table_of_initialized hinit] at hi ⊢
    exact ⟨rfl, hi⟩
  | false => simp [init_thread_table, hinit, hne] at hi

theorem Leased.init (h : s.Leased) (u : Uid) : (s.init_thread_table u).Leased := by
  have hjoined : ∀ v, (s.init_thread_table u).Joined v ↔ s.Joined v := by
    intro v
    rw [Joined, Joined, init_thread_table_log]
  refine ⟨?_, ?_, ?_, ?_, ?_, ?_⟩
  · intro i hi
    rw [init_thread_table_owner, init_thread_table_threads, init_thread_table_created]
    rcases eq_or_ne i mainSlot with rfl | hne
    · rw [h.main.2.1]
      exact ⟨h.main.1, h.main.2.2⟩
    · exact h.entry i (inUse_init hne hi).2
  · intro i hne hi
    rw [init_thread_table_owner, hjoined]
    exact h.fresh i hne (inUse_init hne hi).2
  · rw [init_thread_table_threads, init_thread_table_created]
    exact h.awaits
  · intro v hv
    rw [init_thread_table_created]
    exact h.joined v ((hjoined v).mp hv)
  · rw [init_thread_table_owner, init_thread_table_threads, init_thread_table_created]
    exact h.main
  · intro hinit
    rw [init_thread_table_initialized] at hinit
    cases hinit

theorem Leased.withThread (h : s.Leased) (hinit : s.thread_table_initialized = true)
    (hfree : s.freeSlot = some i) (tid : ThreadID) (e : ThreadEntry) : (s.withThread i tid e).Leased := by
  have hmain := (freeSlot_spec hfree).1
  have hold : ∀ v, v < s.created → (s.withThread i tid e).threads v = s.threads v := fun v hv =>
    withThread_older (Nat.ne_of_lt hv)
  refine ⟨?_, ?_, ?_, ?_, ?_, ?_⟩
  · intro j hj
    rcases eq_or_ne j i with rfl | hne
    · rw [withThread_owner_self, withThread_newborn]
      exact ⟨rfl, Nat.lt_succ_self _⟩
    · rw [withThread_table hne] at hj
      have hentry := h.entry j hj
      rw [withThread_owner hne, hold _ hentry.2]
      exact ⟨hentry.1, Nat.lt_succ_of_lt hentry.2⟩
  · intro j hne hj
    rcases eq_or_ne j i with rfl | hne'
    · rw [withThread_owner_self]
      intro hjoin
      exact absurd (h.joined s.created hjoin) (lt_irrefl _)
    · rw [withThread_table hne'] at hj
      rw [withThread_owner hne']
      exact h.fresh j hne hj
  · intro u j target hu
    rcases eq_or_ne u s.created with rfl | hne
    · rw [withThread_newborn] at hu
      cases hu
    · rw [withThread_older hne] at hu
      have hawaits := h.awaits u j target hu
      rw [hold target hawaits.2]
      exact ⟨hawaits.1, Nat.lt_succ_of_lt hawaits.2⟩
  · intro v hv
    exact Nat.lt_succ_of_lt (h.joined v hv)
  · rw [hold mainThread h.main.2.2, withThread_owner hmain.symm]
    exact ⟨h.main.1, h.main.2.1, Nat.succ_pos _⟩
  · intro huninit
    exact absurd (hinit.symm.trans huninit) Bool.noConfusion

/-! ### The law, slot by slot -/

/-- The thread of every slot in use has not ended or is not detached. -/
def Needed (s : ThreadState) : Prop :=
  ∀ i, i ≠ mainSlot → (s.thread_table i).inUse = true →
    (s.threads (s.owner i)).ended = none ∨ (s.thread_table i).detached = false

theorem Leased.wanted_iff (h : s.Leased) (hne : i ≠ mainSlot) (hi : (s.thread_table i).inUse = true) :
    s.Wanted (s.owner i) ↔
      (s.threads (s.owner i)).ended = none ∨ (s.thread_table i).detached = false := by
  rw [Wanted, (h.entry i hi).1]
  exact or_congr_right (and_iff_left (h.fresh i hne hi))

/-- When no slot is free, the threads of the 63 slots other than the main thread's are all there. -/
theorem Leased.full (h : s.Leased) (hneeded : s.Needed) (hfull : (s.alloc_thread u).1 = none) :
    ∃ us : Finset Uid, us.card = 63 ∧ ∀ v ∈ us, v ≠ mainThread ∧ s.Wanted v := by
  have hfree : (s.init_thread_table u).freeSlot = none := by
    rw [alloc_thread] at hfull
    dsimp only at hfull
    split at hfull
    · cases hfull
    · assumption
  have hused : ∀ i, i ≠ mainSlot → (s.thread_table i).inUse = true := by
    intro i hne
    have hpass := List.find?_eq_none.mp hfree i (List.mem_finRange i)
    simp only [hne, ne_eq, not_false_eq_true, decide_true, Bool.true_and, Bool.not_eq_true,
      Bool.not_eq_false'] at hpass
    exact (inUse_init hne hpass).2
  refine ⟨(Finset.univ.erase mainSlot).image s.owner, ?_, ?_⟩
  · rw [Finset.card_image_of_injOn]
    · rw [Finset.card_erase_of_mem (Finset.mem_univ _)]
      rfl
    · intro i hi j hj heq
      have hi' := (h.entry i (hused i (Finset.ne_of_mem_erase hi))).1
      have hj' := (h.entry j (hused j (Finset.ne_of_mem_erase hj))).1
      rw [← hi', ← hj', heq]
  · intro v hv
    obtain ⟨i, hi, rfl⟩ := Finset.mem_image.mp hv
    have hne := Finset.ne_of_mem_erase hi
    refine ⟨?_, (h.wanted_iff hne (hused i hne)).mpr (hneeded i hne (hused i hne))⟩
    intro heq
    have hentry := (h.entry i (hused i hne)).1
    rw [heq, h.main.1] at hentry
    exact hne hentry.symm

theorem Leased.reclaimed_iff (h : s.Leased) : s.Reclaimed ↔ s.Needed := by
  constructor
  · intro hlaw i hne hi
    exact (h.wanted_iff hne hi).mp (hlaw.slots i hne hi).2
  · intro hneeded
    refine ⟨?_, ?_⟩
    · intro i hne hi
      exact ⟨(h.entry i hi).1, (h.wanted_iff hne hi).mpr (hneeded i hne hi)⟩
    · intro u _ hfull
      exact h.full hneeded hfull

/-- A step that stores nothing keeps the law just when it ends and detaches in time. -/
theorem needed_step {a : ThreadInput} (h : ¬ s.StoringCall a) (hneeded : s.Needed) :
    (s.step a).Needed ↔ s.Timely a := by
  have howner := (tenants_step h).owner
  constructor
  · intro hnext
    refine ⟨?_, ?_⟩
    · rintro u hu i hne hi rfl
      have hkept : s.released a ≠ some i := by
        rw [released_of_ends hu]
        exact (Option.some_ne_none i).symm
      have hi' := (inUse_step h i).mpr ⟨hi, hkept⟩
      rcases hnext i hne hi' with hended | hdet
      · rw [howner] at hended
        exact absurd hu ((ended_step h _).mp hended).2
      · exact ((detached_step h i).mp hdet).1
    · intro i hi hne hfin
      obtain ⟨hused, hrel⟩ := released_of_detaches hi
      have hi' := (inUse_step h i).mpr ⟨hused, hrel.mp hfin⟩
      rcases hnext i hne hi' with hended | hdet
      · rw [howner] at hended
        exact ((ended_step h _).mp hended).1
      · exact absurd hi ((detached_step h i).mp hdet).2
  · rintro ⟨hends, hdetaches⟩ i hne hi'
    obtain ⟨hi, hrel⟩ := (inUse_step h i).mp hi'
    rw [howner, ended_step h, detached_step h]
    by_cases hend : s.ends a = some (s.owner i)
    · refine .inr ⟨hends _ hend i hne hi rfl, ?_⟩
      rcases ends_or_detaches h with hnone | hnone
      · rw [hend] at hnone
        cases hnone
      · rw [hnone]
        exact (Option.some_ne_none i).symm
    · by_cases hdet : s.detaches a = some i
      · have hfin := (released_of_detaches hdet).2.mpr hrel
        exact .inl ⟨hdetaches i hdet hne hfin, hend⟩
      · exact (hneeded i hne hi).imp (fun hnone => ⟨hnone, hend⟩) fun hfalse => ⟨hfalse, hdet⟩

/-! ### Calls that store -/

theorem Needed.init (h : s.Needed) (u : Uid) : (s.init_thread_table u).Needed := by
  intro i hne hi
  obtain ⟨hsame, hused⟩ := inUse_init hne hi
  rw [hsame]
  exact h i hne hused

theorem Needed.withThread (h : s.Needed) (hleased : s.Leased) (tid : ThreadID) (e : ThreadEntry) :
    (s.withThread i tid e).Needed := by
  intro j hne hj
  rcases eq_or_ne j i with rfl | hji
  · refine .inl ?_
    rw [withThread_owner_self, withThread_newborn]
  · rw [withThread_table hji] at hj ⊢
    have hlt := (hleased.entry j hj).2
    rw [withThread_owner hji, withThread_older (Nat.ne_of_lt hlt)]
    exact h j hne hj

theorem SameTable.needed (h : SameTable s t) (hneeded : s.Needed) : t.Needed := by
  intro i hne hi
  rw [h.thread_table] at hi ⊢
  rw [h.threads, h.owner]
  exact hneeded i hne hi

theorem Leased.sameTable (h : s.Leased) (hsame : SameTable s t) (hpass : Passes s t) : t.Leased := by
  refine h.keeps hsame.tenants ?_ ?_ ?_
  · intro i hi
    rwa [hsame.thread_table] at hi
  · intro v hv
    exact .inl ((hpass.joined v).mp hv)
  · intro v i target hv
    exact .inl (hpass.awaits v _ hv)

/-- The failing pthread_create wipes an entry that is free. -/
theorem Leased.wiped (h : s.Leased) (hneeded : s.Needed) {e : ThreadEntry}
    (he : e.inUse = false) :
    (s.modifyEntry i fun _ => e).Leased ∧ (s.modifyEntry i fun _ => e).Needed := by
  have hused : ∀ j, ((s.modifyEntry i fun _ => e).thread_table j).inUse = true → j ≠ i := by
    rintro j hj rfl
    rw [modifyEntry_self, he] at hj
    cases hj
  refine ⟨h.keeps ⟨fun _ => rfl, rfl, rfl, rfl⟩ ?_ (fun v hv => .inl hv) fun v i target hv => .inl hv, ?_⟩
  · intro j hj
    rwa [modifyEntry_of_ne (hused j hj)] at hj
  · intro j hne hj
    have hji := hused j hj
    rw [modifyEntry_of_ne hji] at hj ⊢
    exact hneeded j hne hj

theorem Leased.create (h : s.Leased) (hneeded : s.Needed) (u : Uid) (attr : Option PthreadAttr)
    (start_routine arg : Ptr) (newThread : ℕ → Option ThreadID) :
    (s.pthread_create u attr start_routine arg newThread).2.Leased ∧
      (s.pthread_create u attr start_routine arg newThread).2.Needed := by
  have hinit := h.init u
  have hneeded' := hneeded.init u
  rcases s.pthread_create_cases u attr start_routine arg newThread with
    ⟨hfree, hmade⟩ | ⟨i, hfree, _, hmade⟩ | ⟨i, tid, hfree, _, _, hmade⟩
  · rw [hmade]
    exact ⟨hinit, hneeded'⟩
  · rw [hmade]
    exact hinit.wiped hneeded' rfl
  · rw [hmade]
    exact ⟨hinit.withThread (init_thread_table_initialized s u) hfree tid _,
      hneeded'.withThread hinit tid _⟩

/-- A call that stores keeps the law. -/
theorem Leased.stores (h : s.Leased) (hneeded : s.Needed) {c : ThreadCall} (hc : Stores c) :
    (s.exec u c).Leased ∧ (s.exec u c).Needed := by
  cases c with
  | pthread_create attr start_routine arg newThread =>
    exact h.create hneeded u attr start_routine arg newThread
  | pthread_self =>
    rw [exec, pthread_self_state]
    exact ⟨h.init u, hneeded.init u⟩
  | pthread_key_create destructor =>
    have hsame := sameTable_key_create s destructor
    exact ⟨h.sameTable hsame (passes_pthread_key_create s destructor), hsame.needed hneeded⟩
  | pthread_setspecific key value =>
    have hsame := sameTable_setspecific s u key value
    exact ⟨h.sameTable hsame (passes_pthread_setspecific s u key value), hsame.needed hneeded⟩
  | _ => exact hc.elim

/-! ### Runs -/

theorem timely_of_stores {c : ThreadCall} (hc : Stores c) : s.Timely (.call u c) := by
  cases c with
  | pthread_create | pthread_self | pthread_key_create | pthread_setspecific =>
    refine ⟨?_, ?_⟩
    · intro v hv
      cases hv
    · intro i hi
      cases hi
  | _ => exact hc.elim

theorem leased_step (h : s.Leased) (hneeded : s.Needed) (a : ThreadInput) :
    (s.step a).Leased ∧ ((s.step a).Needed ↔ s.Timely a) := by
  by_cases hstoring : s.StoringCall a
  · obtain ⟨u, c, rfl, hu, hc⟩ := hstoring
    rw [step, if_pos hu]
    have hstores := h.stores (u := u) hneeded hc
    exact ⟨hstores.1, iff_of_true hstores.2 (timely_of_stores hc)⟩
  · exact ⟨h.quiet hstoring, needed_step hstoring hneeded⟩

/-- In a run from the start every slot in use belongs to a thread that needs it, always, exactly when no
    thread is detached at its end and none that has ended without a mark is detached. -/
theorem reclaimed_iff_timely (main : ThreadID) (as : List ThreadInput) :
    Always step Reclaimed (start main) as ↔ Meets step Timely (start main) as := by
  have hstart : (start main).Leased ∧ (start main).Needed := by
    refine ⟨Leased.start main, ?_⟩
    intro i _ hi
    cases hi
  refine always_iff_meets (I := fun s => s.Leased ∧ s.Needed) ?_ ?_ ?_ hstart
  · intro s a hs htimely
    have hstep := leased_step hs.1 hs.2 a
    exact ⟨hstep.1, hstep.2.mpr htimely⟩
  · intro s hs
    exact hs.1.reclaimed_iff.mpr hs.2
  · intro s a hs hnext
    have hstep := leased_step hs.1 hs.2 a
    exact hstep.2.mp (hstep.1.reclaimed_iff.mp hnext)

/-- A thread is detached and returns; its slot stays in use. -/
theorem detached_slot_kept : ¬ ∀ (main : ThreadID) (as : List ThreadInput),
    Always step Reclaimed (start main) as := by
  intro h
  have hlaw := (h 2 [
    .call 0 (.pthread_create (some ⟨0, PTHREAD_CREATE_DETACHED⟩) 500 0 fun _ => some 3),
    .begins 1, .returns 1 0]).last
  rcases (hlaw.slots ⟨1, by decide⟩ (by decide) (by decide +kernel)).2 with hended | ⟨hdet, _⟩
  · exact absurd hended (by decide +kernel)
  · exact absurd hdet (by decide +kernel)

end ThreadState

end Posix9
