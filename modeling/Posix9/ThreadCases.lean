import Posix9.Thread

/-! What a step of a thread can do. The calls that store something have their own lemmas; of every other
    step the cases are listed here once, each with the state it leaves, and what a step leaves alone is read
    off the list. -/

namespace Posix9

namespace ThreadState

variable {s t : ThreadState} {u : Uid} {i : Slot} {a : ThreadInput}

/-- The calls that hand on a row or a column, or write a cell. -/
def Stores : ThreadCall → Prop
  | .pthread_create .. | .pthread_self | .pthread_key_create _ | .pthread_setspecific .. => True
  | _ => False

/-- The step is a call that stores. -/
def StoringCall (s : ThreadState) (a : ThreadInput) : Prop :=
  ∃ u c, a = .call u c ∧ (s.threads u).phase = .running ∧ Stores c

/-- The thread whose start routine returns, or that calls pthread_exit. -/
def ends (s : ThreadState) : ThreadInput → Option Uid
  | .call u (.pthread_exit _) => if (s.threads u).phase = .running then some u else none
  | .returns u _ =>
    if (s.threads u).phase = .running ∧ (s.threads u).loops = [] ∧ u ≠ mainThread then some u else none
  | _ => none

/-- The slot whose entry pthread_detach marks. -/
def detaches (s : ThreadState) : ThreadInput → Option Slot
  | .call u (.pthread_detach thread) =>
    if (s.threads u).phase = .running then s.get_thread thread else none
  | _ => none

/-! ### The cases -/

/-- The step is a round of pthread_join. -/
inductive Rounds (s : ThreadState) : ThreadInput → Uid → Slot → Bool → Uid → Prop where
  | calls (u : Uid) (thread : ℕ) (retval : Bool) (i : Slot) (hu : (s.threads u).phase = .running)
      (hi : s.get_thread thread = some i) (hdet : (s.thread_table i).detached = false) :
      Rounds s (.call u (.pthread_join thread retval)) u i retval (s.owner i)
  | resumes (u : Uid) (i : Slot) (retval : Bool) (target : Uid)
      (hphase : (s.threads u).phase = .joining i retval target) :
      Rounds s (.resumes u) u i retval target

/-- The thread ends with a result: the slot it writes that into, and the row it destroys. -/
inductive Ends (s : ThreadState) : ThreadInput → Uid → Ptr → Option Slot → Option Slot → Prop where
  | returns (u : Uid) (result : Ptr) (hu : (s.threads u).phase = .running)
      (hloops : (s.threads u).loops = []) (hmain : u ≠ mainThread) :
      Ends s (.returns u result) u result (some (s.threads u).entry)
        (s.get_thread_index (s.thread_table (s.threads u).entry).threadID)
  | exits (u : Uid) (retval : Ptr) (hu : (s.threads u).phase = .running) :
      Ends s (.call u (.pthread_exit retval)) u retval (s.index u) (s.index u)

/-- What the end of a thread leaves before its destructors. -/
def marked (s : ThreadState) (u : Uid) (result : Ptr) : Option Slot → ThreadState
  | some i => (s.modifyThread u fun m => { m with ended := some result }).finish u i result
  | none => s.modifyThread u fun m => { m with ended := some result }

/-- The destructors of the row, or the end where there is none. -/
def destroys (s : ThreadState) (u : Uid) : Option Slot → ThreadState
  | some idx => s.runDestructors u idx 0
  | none => s.terminates u

/-- A step that stores nothing, and the state it leaves. -/
inductive Case (s : ThreadState) : ThreadInput → ThreadState → Prop where
  | idle (a : ThreadInput) (hreleased : s.released a = none) (hends : s.ends a = none)
      (hdetaches : s.detaches a = none) : Case s a s
  | deletes (u : Uid) (key : ℕ) (k : Key) (hu : (s.threads u).phase = .running) :
      Case s (.call u (.pthread_key_delete key)) { s with
        tls_key_used := Function.update s.tls_key_used k false
        tls_destructors := Function.update s.tls_destructors k 0
        log := .keyDeleted k :: s.log }
  | begins (u : Uid) (hu : (s.threads u).phase = .ready) : Case s (.begins u) (s.thread_entry u)
  | cancels (u : Uid) (thread : ℕ) (i : Slot) :
      Case s (.call u (.pthread_cancel thread)) (s.modifyEntry i fun e => { e with finished := true })
  | detaches (u : Uid) (thread : ℕ) (i : Slot) (hu : (s.threads u).phase = .running)
      (hi : s.get_thread thread = some i) (hfin : (s.thread_table i).finished = false) :
      Case s (.call u (.pthread_detach thread)) (s.modifyEntry i fun e => { e with detached := true })
  | frees (u : Uid) (thread : ℕ) (i : Slot) (hu : (s.threads u).phase = .running)
      (hi : s.get_thread thread = some i) (hfin : (s.thread_table i).finished = true) :
      Case s (.call u (.pthread_detach thread))
        ((s.modifyEntry i fun e => { e with detached := true }).modifyEntry i fun e =>
          { e with inUse := false })
  | waits (a : ThreadInput) (u : Uid) (i : Slot) (retval : Bool) (target : Uid)
      (hround : s.Rounds a u i retval target) (hfin : (s.thread_table i).finished = false) :
      Case s a (s.modifyThread u fun m => { m with phase := .joining i retval target })
  | joins (a : ThreadInput) (u : Uid) (i : Slot) (retval : Bool) (target : Uid)
      (hround : s.Rounds a u i retval target) (hfin : (s.thread_table i).finished = true) :
      Case s a (((s.record (.joined target (if retval then some (s.thread_table i).result else none)
        (s.threads target).ended)).modifyEntry i fun e => { e with inUse := false }).modifyThread u fun m =>
          { m with phase := .running })
  | goesOn (u : Uid) (result : Ptr) (l : DestructorLoop) (rest : List DestructorLoop)
      (hu : (s.threads u).phase = .running) (hloops : (s.threads u).loops = l :: rest) :
      Case s (.returns u result)
        ((s.modifyThread u fun m => { m with loops := rest }).runDestructors u l.idx l.key)
  | ends (a : ThreadInput) (u : Uid) (result : Ptr) (i idx : Option Slot)
      (hends : s.Ends a u result i idx) : Case s a ((s.marked u result i).destroys u idx)

/-! ### Every step is one of them -/

/-- To mark an entry finished changes no lookup. -/
theorem get_thread_index_finish (u : Uid) (i : Slot) (result : Ptr) (tid : ThreadID) :
    (s.finish u i result).get_thread_index tid = s.get_thread_index tid := by
  have hentry : ∀ j, ((s.finish u i result).thread_table j).inUse = (s.thread_table j).inUse ∧
      ((s.finish u i result).thread_table j).threadID = (s.thread_table j).threadID := by
    intro j
    rw [finish, record]
    rcases eq_or_ne j i with rfl | hne
    · rw [modifyEntry_self]
      exact ⟨rfl, rfl⟩
    · rw [modifyEntry_of_ne hne]
      exact ⟨rfl, rfl⟩
  simp only [get_thread_index, hentry]

theorem threadID_finish (u : Uid) (i : Slot) (result : Ptr) :
    ((s.finish u i result).thread_table i).threadID = (s.thread_table i).threadID := by
  rw [finish, record, modifyEntry_self]

theorem startReturns_eq (s : ThreadState) (u : Uid) (result : Ptr) :
    s.startReturns u result = (s.marked u result (some (s.threads u).entry)).destroys u
      (s.get_thread_index (s.thread_table (s.threads u).entry).threadID) := by
  have hindex : (s.modifyThread u fun m => { m with ended := some result }).get_thread_index
      (s.thread_table (s.threads u).entry).threadID =
        s.get_thread_index (s.thread_table (s.threads u).entry).threadID := rfl
  rw [startReturns, get_thread_index_finish, threadID_finish]
  change (match (s.modifyThread u _).get_thread_index (s.thread_table (s.threads u).entry).threadID with
    | some idx => _
    | none => _) = _
  rw [hindex]
  cases s.get_thread_index (s.thread_table (s.threads u).entry).threadID <;> rfl

theorem pthread_exit_eq (s : ThreadState) (u : Uid) (retval : Ptr) :
    s.pthread_exit u retval = (s.marked u retval (s.index u)).destroys u (s.index u) := by
  have hindex : (s.modifyThread u fun m => { m with ended := some retval }).index u = s.index u := by
    rw [index, modifyThread_self]
    rfl
  rw [pthread_exit, hindex]
  cases s.index u <;> rfl

theorem case_joinRound {retval : Bool} {target : Uid} (h : s.Rounds a u i retval target) :
    s.Case a (s.joinRound u i retval target).2 := by
  rw [joinRound]
  cases hfin : (s.thread_table i).finished with
  | true => exact .joins a u i retval target h hfin
  | false => exact .waits a u i retval target h hfin

theorem case_call {c : ThreadCall} (hu : (s.threads u).phase = .running) (hc : ¬ Stores c) :
    s.Case (.call u c) (s.exec u c) := by
  cases c with
  | pthread_create | pthread_self | pthread_key_create | pthread_setspecific => exact absurd trivial hc
  | pthread_join thread retval =>
    rw [exec, pthread_join]
    cases hi : s.get_thread thread with
    | none => exact .idle _ (by rw [released, if_pos hu, hi]; rfl) rfl rfl
    | some i =>
      dsimp only
      cases hdet : (s.thread_table i).detached with
      | true => exact .idle _ (by simp [released, hi, hdet]) rfl rfl
      | false => exact case_joinRound (.calls u thread retval i hu hi hdet)
  | pthread_detach thread =>
    rw [exec, pthread_detach]
    cases hi : s.get_thread thread with
    | none =>
      exact .idle _ (by rw [released, if_pos hu, hi]; rfl) rfl (by rw [ThreadState.detaches, if_pos hu, hi])
    | some i =>
      dsimp only
      rw [modifyEntry_self]
      cases hfin : (s.thread_table i).finished with
      | true => exact .frees u thread i hu hi hfin
      | false => exact .detaches u thread i hu hi hfin
  | pthread_exit retval =>
    rw [exec, pthread_exit_eq]
    exact .ends _ u retval _ _ (.exits u retval hu)
  | pthread_cancel thread =>
    rw [exec, pthread_cancel]
    split
    · exact .idle _ rfl rfl rfl
    · exact .cancels u thread _
  | pthread_key_delete key =>
    rw [exec, pthread_key_delete]
    split
    · exact .idle _ rfl rfl rfl
    · exact .deletes u key _ hu
  | pthread_getspecific key => exact .idle _ rfl rfl rfl

theorem case_step (h : ¬ s.StoringCall a) : s.Case a (s.step a) := by
  cases a with
  | call u c =>
    rw [step]
    split
    · rename_i hu
      exact case_call hu fun hc => h ⟨u, c, rfl, hu, hc⟩
    · rename_i hu
      refine .idle _ ?_ ?_ ?_ <;> cases c <;> simp [released, ThreadState.ends, ThreadState.detaches, hu]
  | returns u result =>
    rw [step]
    by_cases hu : (s.threads u).phase = .running
    · rw [if_pos hu, routineReturns]
      cases hloops : (s.threads u).loops with
      | cons l rest => exact .goesOn u result l rest hu hloops
      | nil =>
        dsimp only
        split
        · rename_i hmain
          exact .idle _ rfl (if_neg fun h => h.2.2 hmain) rfl
        · rename_i hmain
          rw [startReturns_eq]
          exact .ends _ u result _ _ (.returns u result hu hloops hmain)
    · rw [if_neg hu]
      exact .idle _ rfl (if_neg fun h => hu h.1) rfl
  | begins u =>
    rw [step]
    split
    · exact .begins u ‹_›
    · exact .idle _ rfl rfl rfl
  | resumes u =>
    rw [step]
    cases hphase : (s.threads u).phase with
    | absent | ready | running => exact .idle _ (by rw [released, hphase]) rfl rfl
    | joining i retval target => exact case_joinRound (.resumes u i retval target hphase)

/-! ### What a step gives back -/

theorem Rounds.released {retval : Bool} {target : Uid} (h : s.Rounds a u i retval target) :
    s.released a = if (s.thread_table i).finished then some i else none := by
  cases h with
  | calls u thread retval i hu hi hdet => simp [ThreadState.released, hu, hi, hdet, Option.filter]
  | resumes u i retval target hphase => rw [ThreadState.released, hphase]

theorem Rounds.live {retval : Bool} {target : Uid} (h : s.Rounds a u i retval target) : s.Live u := by
  cases h with
  | calls _ _ _ _ hu _ _ => exact live_of_running hu
  | resumes _ _ _ _ hphase =>
    rw [Live, hphase]
    exact Phase.noConfusion

theorem Ends.released {result : Ptr} {i idx : Option Slot} (h : s.Ends a u result i idx) :
    s.released a = none := by
  cases h <;> rfl

theorem Ends.running {result : Ptr} {i idx : Option Slot} (h : s.Ends a u result i idx) :
    (s.threads u).phase = .running := by
  cases h <;> assumption

end ThreadState

end Posix9
