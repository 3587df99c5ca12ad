import Posix9.Lib.Runs
import Posix9.ThreadCases

/-! Thread-specific data. A value lies in the row of the slot under which the table finds the thread's
    ID, and in the column of the key. Neither is wiped when it is handed on, so a thread reads its own
    values exactly as long as every row and column handed on is clear. -/

namespace Posix9
open Runs

namespace ThreadState

variable {s t : ThreadState} {u v : Uid} {i j : Slot} {k : Key} {n : ℕ}

/-! ### The law -/

/-- What an event makes of the value that thread `u` has for a key. -/
def touches (u : Uid) (key : ℕ) : ThreadEvent → Option Ptr
  | .keyCreated k => if k.val = key then some 0 else none
  | .set v k value => if v = u ∧ k.val = key then some value else none
  | _ => none

/-- What `u` last set the key to since it was last created, or NULL. -/
def lastSet (u : Uid) (key : ℕ) (log : List ThreadEvent) : Ptr := (log.findSome? (touches u key)).getD 0

/-- Whichever thread calls pthread_getspecific next gets what it last set. -/
def Specific (s : ThreadState) : Prop :=
  ∀ u, s.Live u → ∀ key, s.pthread_getspecific u key = lastSet u key s.log

/-- What lies for a key in the row of a slot, and NULL where there is no slot. -/
def cell (s : ThreadState) (i : Option Slot) (k : Key) : Ptr := i.elim 0 fun i => s.tls_data i k

/-- The slot under which `u` is found once slot `i` is given back. -/
def indexWithout (s : ThreadState) (i : Slot) (u : Uid) : Option Slot :=
  (List.finRange MAX_THREADS).find? fun j =>
    j ≠ i && ((s.thread_table j).inUse && (s.thread_table j).threadID = (s.threads u).threadID)

/-- The slot under which a thread with ID `tid` is found once it has been created for slot `i`. -/
def indexWith (s : ThreadState) (i : Slot) (tid : ThreadID) : Option Slot :=
  (List.finRange MAX_THREADS).find? fun j =>
    j = i || ((s.thread_table j).inUse && (s.thread_table j).threadID = tid)

/-- No live thread is found under the slot, or it finds the same values elsewhere. -/
def Unread (s : ThreadState) (i : Slot) : Prop :=
  ∀ u < s.created, s.Live u → s.index u = some i → ∀ k, s.tls_data i k = s.cell (s.indexWithout i u) k

/-- What the call hands on is clear: the row that the new thread is found under, or the column of the new
    key in the rows of the live threads. -/
def ClearCall (s : ThreadState) (u : Uid) : ThreadCall → Prop
  | .pthread_create attr _ _ newThread =>
    let s := s.init_thread_table u
    ∀ i ∈ s.freeSlot, ∀ tid ∈ newThread (stackSize attr), s.Unused tid →
      ∀ k, s.cell (s.indexWith i tid) k = 0
  | .pthread_key_create _ => ∀ k ∈ s.freeKey, ∀ v < s.created, s.Live v → s.cell (s.index v) k = 0
  | _ => True

/-- The step hands on nothing but clear rows and columns, and takes no thread's row from it. -/
def Clear (s : ThreadState) (a : ThreadInput) : Prop :=
  (∀ i ∈ s.released a, s.Unread i) ∧
    match a with
    | .call u c => (s.threads u).phase = .running → s.ClearCall u c
    | _ => True

/-! ### Reading -/

theorem getspecific_eq (k : Key) : s.pthread_getspecific u k.val = s.cell (s.index u) k := by
  simp only [pthread_getspecific, keyOf, k.isLt, dif_pos, cell]
  cases s.index u <;> rfl

theorem getspecific_of_le {key : ℕ} (h : MAX_KEYS ≤ key) : s.pthread_getspecific u key = 0 := by
  simp only [pthread_getspecific, keyOf, dif_neg (Nat.not_lt.mpr h)]

theorem lastSet_cons (u : Uid) (key : ℕ) (e : ThreadEvent) (log : List ThreadEvent) :
    lastSet u key (e :: log) = (touches u key e).getD (lastSet u key log) := by
  simp only [lastSet, List.findSome?_cons]
  cases touches u key e <;> rfl

theorem touches_of_le {key : ℕ} (h : MAX_KEYS ≤ key) (e : ThreadEvent) : touches u key e = none := by
  have hne : ∀ k : Key, k.val ≠ key := fun k => by have := k.isLt; omega
  cases e <;> simp [touches, hne]

theorem lastSet_of_le {key : ℕ} (h : MAX_KEYS ≤ key) (log : List ThreadEvent) :
    lastSet u key log = 0 := by
  have : log.findSome? (touches u key) = none :=
    List.findSome?_eq_none_iff.mpr fun e _ => touches_of_le h e
  rw [lastSet, this]
  rfl

/-- The law, cell by cell. -/
theorem specific_iff :
    s.Specific ↔ ∀ u, s.Live u → ∀ k : Key, s.cell (s.index u) k = lastSet u k.val s.log := by
  constructor
  · intro h u hu k
    rw [← getspecific_eq]
    exact h u hu k.val
  · intro h u hu key
    rcases Nat.lt_or_ge key MAX_KEYS with hlt | hle
    · exact (getspecific_eq ⟨key, hlt⟩).trans (h u hu ⟨key, hlt⟩)
    · rw [getspecific_of_le hle, lastSet_of_le hle]

/-! ### What every run keeps -/

/-- IDs tell the live threads apart, threads to come have set nothing, and until the table is initialised
    no slot is in use. -/
structure Sound (s : ThreadState) : Prop where
  distinct : ∀ u v, s.Live u → s.Live v → (s.threads u).threadID = (s.threads v).threadID → u = v
  born : ∀ u, s.Live u → u < s.created
  unborn : ∀ u k, s.created ≤ u → lastSet u k s.log = 0
  uninit : s.thread_table_initialized = false → ∀ i, (s.thread_table i).inUse = false

/-- The step changes nothing that a thread reads, but may let go of slots and end threads. -/
structure Quiet (s t : ThreadState) : Prop where
  tls_data : t.tls_data = s.tls_data
  created : t.created = s.created
  initialized : t.thread_table_initialized = s.thread_table_initialized
  threadID : ∀ u, (t.threads u).threadID = (s.threads u).threadID
  live : ∀ u, t.Live u → s.Live u
  lastSet : ∀ u k, lastSet u k t.log = lastSet u k s.log
  inUse : ∀ i, (t.thread_table i).inUse = true → (s.thread_table i).inUse = true

/-- Besides, it lets go of no slot, and writes no ID of a slot in use. -/
structure Still (s t : ThreadState) : Prop extends Quiet s t where
  entry : ∀ i, (t.thread_table i).inUse = (s.thread_table i).inUse ∧
    ((s.thread_table i).inUse = true → (t.thread_table i).threadID = (s.thread_table i).threadID)

theorem Sound.quiet (h : s.Sound) (hq : Quiet s t) : t.Sound := by
  refine ⟨fun u v hu hv heq => ?_, fun u hu => ?_, fun u k hu => ?_, fun hinit i => ?_⟩
  · rw [hq.threadID, hq.threadID] at heq
    exact h.distinct u v (hq.live u hu) (hq.live v hv) heq
  · rw [hq.created]
    exact h.born u (hq.live u hu)
  · rw [hq.lastSet]
    exact h.unborn u k (hq.created ▸ hu)
  · have hunused := h.uninit (hq.initialized ▸ hinit) i
    cases hused : (t.thread_table i).inUse with
    | false => rfl
    | true => rw [hq.inUse i hused] at hunused; cases hunused

theorem cell_congr (h : t.tls_data = s.tls_data) (i : Option Slot) (k : Key) :
    t.cell i k = s.cell i k := by
  rw [cell, cell, h]

theorem Still.index (h : Still s t) (u : Uid) : t.index u = s.index u := by
  have hfun : (fun i => (t.thread_table i).inUse &&
      decide ((t.thread_table i).threadID = (t.threads u).threadID)) = fun i =>
      (s.thread_table i).inUse && decide ((s.thread_table i).threadID = (s.threads u).threadID) := by
    funext i
    rw [(h.entry i).1, h.threadID]
    cases hused : (s.thread_table i).inUse with
    | false => rfl
    | true => rw [(h.entry i).2 hused]
  rw [ThreadState.index, ThreadState.index, get_thread_index, get_thread_index, hfun]

theorem Still.specific (h : Still s t) (hs : s.Specific) : t.Specific := by
  rw [specific_iff] at hs ⊢
  intro u hu k
  rw [cell_congr h.tls_data, h.index, h.lastSet]
  exact hs u (h.live u hu) k

theorem Still.refl (s : ThreadState) : Still s s where
  tls_data := rfl
  created := rfl
  initialized := rfl
  threadID _ := rfl
  live _ h := h
  lastSet _ _ := rfl
  inUse _ h := h
  entry _ := ⟨rfl, fun _ => rfl⟩

theorem Still.trans {r : ThreadState} (h : Still r s) (h' : Still s t) : Still r t where
  tls_data := h'.tls_data.trans h.tls_data
  created := h'.created.trans h.created
  initialized := h'.initialized.trans h.initialized
  threadID u := (h'.threadID u).trans (h.threadID u)
  live u hu := h.live u (h'.live u hu)
  lastSet u k := (h'.lastSet u k).trans (h.lastSet u k)
  inUse i hi := h.inUse i (h'.inUse i hi)
  entry i := ⟨(h'.entry i).1.trans (h.entry i).1, fun hi =>
    ((h'.entry i).2 ((h.entry i).1.trans hi)).trans ((h.entry i).2 hi)⟩

theorem Still.modifyEntry {r : ThreadState} (h : Still r s) {f : ThreadEntry → ThreadEntry}
    (hf : (f (s.thread_table i)).inUse = (s.thread_table i).inUse)
    (hid : (s.thread_table i).inUse = true →
      (f (s.thread_table i)).threadID = (s.thread_table i).threadID) :
    Still r (s.modifyEntry i f) := by
  have hentry : ∀ j, ((s.modifyEntry i f).thread_table j).inUse = (s.thread_table j).inUse ∧
      ((s.thread_table j).inUse = true →
        ((s.modifyEntry i f).thread_table j).threadID = (s.thread_table j).threadID) := by
    intro j
    rcases eq_or_ne j i with rfl | hne
    · simpa [ThreadState.modifyEntry, hf] using hid
    · simp [ThreadState.modifyEntry, hne]
  refine h.trans ⟨⟨rfl, rfl, rfl, fun _ => rfl, fun _ h => h, fun _ _ => rfl, fun j hj => ?_⟩, hentry⟩
  rw [← (hentry j).1]
  exact hj

theorem Still.modifyThread {r : ThreadState} (h : Still r s) {f : MacThread → MacThread}
    (hid : ∀ m, (f m).threadID = m.threadID)
    (hlive : (f (s.threads u)).phase ≠ .absent → (s.threads u).phase ≠ .absent) :
    Still r (s.modifyThread u f) := by
  refine h.trans ⟨⟨rfl, rfl, rfl, fun v => ?_, fun v hv => ?_, fun _ _ => rfl, fun _ h => h⟩,
    fun _ => ⟨rfl, fun _ => rfl⟩⟩
  · rcases eq_or_ne v u with rfl | hne
    · simp [ThreadState.modifyThread, hid]
    · simp [ThreadState.modifyThread, hne]
  · rcases eq_or_ne v u with rfl | hne
    · simp only [Live, ThreadState.modifyThread, Function.update_self] at hv
      exact hlive hv
    · simpa [Live, ThreadState.modifyThread, hne] using hv

theorem Still.record {r : ThreadState} (h : Still r s) {e : ThreadEvent}
    (he : ∀ u key, touches u key e = none) : Still r (s.record e) := by
  refine h.trans ⟨⟨rfl, rfl, rfl, fun _ => rfl, fun _ h => h, fun u k => ?_, fun _ h => h⟩,
    fun _ => ⟨rfl, fun _ => rfl⟩⟩
  rw [ThreadState.record, lastSet_cons, he]
  rfl

/-! ### The steps that hand nothing on -/

theorem Still.terminates {r : ThreadState} (h : Still r s) (u : Uid) : Still r (s.terminates u) :=
  h.modifyThread (fun _ => rfl) fun hne => absurd rfl hne

theorem Still.runDestructors {r : ThreadState} (h : Still r s) (u : Uid) (idx : Slot) (key : ℕ) :
    Still r (s.runDestructors u idx key) := by
  rw [ThreadState.runDestructors]
  split
  · refine (h.modifyThread ?_ ?_).record ?_
    · intro m
      rfl
    · intro hlive
      exact hlive
    · intro v k
      rfl
  · exact h.terminates u

/-- The end of a thread up to its destructors. -/
theorem Still.marked (s : ThreadState) (u : Uid) (result : Ptr) (i : Option Slot) :
    Still s (s.marked u result i) := by
  have hended : Still s (s.modifyThread u fun m => { m with ended := some result }) := by
    refine (Still.refl s).modifyThread ?_ ?_
    · intro m
      rfl
    · intro hlive
      exact hlive
  cases i with
  | none => exact hended
  | some i =>
    refine (hended.modifyEntry ?_ ?_).record ?_
    · rfl
    · intro _
      rfl
    · intro v k
      rfl

theorem Still.destroys {r : ThreadState} (h : Still r s) (u : Uid) (idx : Option Slot) :
    Still r (s.destroys u idx) := by
  cases idx with
  | none => exact h.terminates u
  | some idx => exact h.runDestructors u idx 0

/-! ### A slot is given back -/

/-- `t` is `s` without slot `i`. -/
structure Releases (s t : ThreadState) (i : Slot) : Prop extends Quiet s t where
  alive : ∀ u, s.Live u → t.Live u
  gone : (t.thread_table i).inUse = false
  entry : ∀ j, j ≠ i → (t.thread_table j).inUse = (s.thread_table j).inUse ∧
    ((s.thread_table j).inUse = true → (t.thread_table j).threadID = (s.thread_table j).threadID)

theorem Still.release (h : Still s t) (halive : ∀ u, s.Live u → t.Live u) (i : Slot) :
    Releases s (t.modifyEntry i fun e => { e with inUse := false }) i := by
  have hentry : ∀ j, j ≠ i → (t.modifyEntry i fun e => { e with inUse := false }).thread_table j =
      t.thread_table j := by
    intro j hne
    simp [ThreadState.modifyEntry, hne]
  have hgone : ((t.modifyEntry i fun e => { e with inUse := false }).thread_table i).inUse = false := by
    simp [ThreadState.modifyEntry]
  refine ⟨⟨h.tls_data, h.created, h.initialized, h.threadID, h.live, h.lastSet, fun j hj => ?_⟩,
    halive, hgone, fun j hne => ?_⟩
  · rcases eq_or_ne j i with rfl | hne
    · rw [hgone] at hj
      cases hj
    · rw [hentry j hne] at hj
      exact h.inUse j hj
  · rw [hentry j hne]
    exact h.entry j

theorem Releases.index (h : Releases s t i) (u : Uid) : t.index u = s.indexWithout i u := by
  have hfun : (fun j => (t.thread_table j).inUse &&
      decide ((t.thread_table j).threadID = (t.threads u).threadID)) = fun j => decide (j ≠ i) &&
      ((s.thread_table j).inUse && decide ((s.thread_table j).threadID = (s.threads u).threadID)) := by
    funext j
    rcases eq_or_ne j i with rfl | hne
    · simp [h.gone]
    · rw [(h.entry j hne).1, h.threadID]
      cases hused : (s.thread_table j).inUse with
      | false => simp
      | true => simp [(h.entry j hne).2 hused, hne]
  rw [ThreadState.index, get_thread_index, indexWithout, hfun]

/-- The search ends at the same slot when another is passed over. -/
theorem find?_pass {α : Type*} [DecidableEq α] {p : α → Bool} {a : α} :
    ∀ {l : List α}, l.find? p ≠ some a → l.find? (fun b => b ≠ a && p b) = l.find? p
  | [], _ => rfl
  | b :: l, h => by
    cases hb : p b with
    | true =>
      rw [List.find?_cons_of_pos hb] at h ⊢
      have hne : b ≠ a := fun heq => h (congrArg some heq)
      rw [List.find?_cons_of_pos (by simp [hne, hb])]
    | false =>
      rw [List.find?_cons_of_neg (by simp [hb])] at h ⊢
      rw [List.find?_cons_of_neg (by simp [hb])]
      exact find?_pass h

theorem indexWithout_of_ne (h : s.index u ≠ some i) : s.indexWithout i u = s.index u :=
  find?_pass h

theorem Releases.specific_iff (h : Releases s t i) (hsound : s.Sound) (hs : s.Specific) :
    t.Specific ↔ s.Unread i := by
  rw [ThreadState.specific_iff] at hs ⊢
  constructor
  · intro ht u _ hu hindex k
    have hread := hs u hu k
    rw [hindex] at hread
    have hread' := ht u (h.alive u hu) k
    rw [cell_congr h.tls_data, h.index, h.lastSet, ← hread] at hread'
    exact hread'.symm
  · intro hunread u hu k
    have hlive := h.live u hu
    rw [cell_congr h.tls_data, h.index, h.lastSet, ← hs u hlive k]
    by_cases hindex : s.index u = some i
    · rw [hindex]
      exact (hunread u (hsound.born u hlive) hlive hindex k).symm
    · rw [indexWithout_of_ne hindex]

theorem live_modifyThread {f : MacThread → MacThread} (hf : ∀ m, (f m).phase ≠ .absent)
    (hv : s.Live v) : (s.modifyThread u f).Live v := by
  rcases eq_or_ne v u with rfl | hne
  · simp [Live, modifyThread, hf]
  · simpa [Live, modifyThread, hne] using hv

/-- A step that stores nothing changes nothing that is read, or gives a slot back. -/
theorem quiet_of_case {a : ThreadInput} (h : s.Case a t) :
    (s.released a = none ∧ Still s t) ∨ ∃ i, s.released a = some i ∧ Releases s t i := by
  have hrefl := Still.refl s
  cases h with
  | idle a hreleased => exact .inl ⟨hreleased, hrefl⟩
  | deletes u key k =>
    refine .inl ⟨rfl, ⟨rfl, rfl, rfl, fun _ => rfl, fun _ h => h, ?_, fun _ h => h⟩,
      fun _ => ⟨rfl, fun _ => rfl⟩⟩
    intro v j
    rw [lastSet_cons]
    rfl
  | begins u hu =>
    refine .inl ⟨rfl, (hrefl.modifyThread ?_ ?_).record ?_⟩
    · intro m
      rfl
    · intro _
      rw [hu]
      exact Phase.noConfusion
    · intro v k
      rfl
  | cancels u thread i =>
    refine .inl ⟨rfl, hrefl.modifyEntry ?_ ?_⟩
    · rfl
    · intro _
      rfl
  | detaches u thread i hu hi hfin =>
    refine .inl ⟨by simp [released, hi, hfin], hrefl.modifyEntry ?_ ?_⟩
    · rfl
    · intro _
      rfl
  | frees u thread i hu hi hfin =>
    refine .inr ⟨i, by simp [released, hu, hi, hfin], ?_⟩
    refine (hrefl.modifyEntry ?_ ?_).release (fun _ hv => hv) i
    · rfl
    · intro _
      rfl
  | waits a u i retval target hround hfin =>
    refine .inl ⟨?_, hrefl.modifyThread ?_ ?_⟩
    · rw [hround.released, if_neg (by simp [hfin])]
    · intro m
      rfl
    · intro _
      exact hround.live
  | joins a u i retval target hround hfin =>
    refine .inr ⟨i, by rw [hround.released, if_pos hfin], ?_⟩
    -- the order of the last two writes does not matter
    refine Still.release (t := (s.record _).modifyThread u fun m => { m with phase := .running })
      ((hrefl.record ?_).modifyThread ?_ ?_) ?_ i
    · intro v key
      rfl
    · intro m
      rfl
    · intro _
      exact hround.live
    · intro v hv
      exact live_modifyThread (fun m => Phase.noConfusion) hv
  | goesOn u result l rest =>
    refine .inl ⟨rfl, (hrefl.modifyThread ?_ ?_).runDestructors u _ _⟩
    · intro m
      rfl
    · intro hlive
      exact hlive
  | ends a u result i idx hends =>
    exact .inl ⟨hends.released, (Still.marked s u result i).destroys u idx⟩

/-! ### The table is initialised -/

theorem Sound.index_of_uninit (h : s.Sound) (hinit : s.thread_table_initialized = false) (u : Uid) :
    s.index u = none := by
  rw [index, get_thread_index, List.find?_eq_none]
  intro i _
  simp [h.uninit hinit i]

/-- Who is found in the table has found it initialised. -/
theorem Sound.initialized_of_index (h : s.Sound) (hindex : s.index u = some i) :
    s.thread_table_initialized = true := by
  by_contra huninit
  rw [h.index_of_uninit (Bool.eq_false_of_not_eq_true huninit)] at hindex
  cases hindex

theorem Sound.init (h : s.Sound) (u : Uid) : (s.init_thread_table u).Sound := by
  cases hinit : s.thread_table_initialized with
  | true => rwa [init_thread_table_of_initialized hinit]
  | false =>
    rw [init_thread_table, if_neg (by simp [hinit])]
    refine ⟨h.distinct, h.born, h.unborn, ?_⟩
    intro h'
    cases h'

theorem Sound.specific_init (h : s.Sound) (u : Uid) :
    (s.init_thread_table u).Specific ↔ s.Specific := by
  cases hinit : s.thread_table_initialized with
  | true => rw [init_thread_table_of_initialized hinit]
  | false =>
    -- nobody had a row, and all rows are wiped
    have hcell : ∀ v k, (s.init_thread_table u).cell ((s.init_thread_table u).index v) k =
        s.cell (s.index v) k := by
      intro v k
      have hdata : (s.init_thread_table u).tls_data = fun _ _ => 0 := by
        simp [init_thread_table, hinit]
      rw [h.index_of_uninit hinit, cell, hdata]
      cases (s.init_thread_table u).index v <;> rfl
    have hlog : (s.init_thread_table u).log = s.log := by simp [init_thread_table, hinit]
    simp only [specific_iff, hcell, hlog, Live, init_thread_table_threads]

/-! ### A row is handed on -/

/-- `t` is `s` with a new thread, created for slot `i` under the ID `tid`. -/
structure Creates (s t : ThreadState) (i : Slot) (tid : ThreadID) : Prop where
  tls_data : t.tls_data = s.tls_data
  log : t.log = s.log
  initialized : t.thread_table_initialized = true
  created : t.created = s.created + 1
  unused : s.Unused tid
  newborn : t.Live s.created ∧ (t.threads s.created).threadID = tid
  older : ∀ u, u ≠ s.created → t.threads u = s.threads u
  free : (s.thread_table i).inUse = false
  taken : (t.thread_table i).inUse = true ∧ (t.thread_table i).threadID = tid
  entry : ∀ j, j ≠ i → t.thread_table j = s.thread_table j

theorem Creates.live_older (h : Creates s t i tid) (hu : u ≠ s.created) (hlive : t.Live u) : s.Live u := by
  rw [Live, h.older u hu] at hlive
  exact hlive

theorem Creates.sound (h : Creates s t i tid) (hs : s.Sound) : t.Sound := by
  have hold : ∀ u, u ≠ s.created → t.Live u → s.Live u ∧ u < s.created := fun u hu hlive =>
    ⟨h.live_older hu hlive, hs.born u (h.live_older hu hlive)⟩
  refine ⟨fun u v hu hv heq => ?_, fun u hu => ?_, fun u k hu => ?_, fun hinit => ?_⟩
  · rcases eq_or_ne u s.created with rfl | hne
    · rcases eq_or_ne v s.created with rfl | hne'
      · rfl
      · obtain ⟨hlive, hlt⟩ := hold v hne' hv
        rw [h.newborn.2, h.older v hne'] at heq
        exact absurd heq.symm (h.unused v hlt hlive)
    · obtain ⟨hlive, hlt⟩ := hold u hne hu
      rcases eq_or_ne v s.created with rfl | hne'
      · rw [h.newborn.2, h.older u hne] at heq
        exact absurd heq (h.unused u hlt hlive)
      · rw [h.older u hne, h.older v hne'] at heq
        exact hs.distinct u v hlive (hold v hne' hv).1 heq
  · rw [h.created]
    rcases eq_or_ne u s.created with rfl | hne
    · exact Nat.lt_succ_self _
    · exact Nat.lt_succ_of_lt (hold u hne hu).2
  · rw [h.log]
    rw [h.created] at hu
    exact hs.unborn u k (Nat.le_of_succ_le hu)
  · rw [h.initialized] at hinit
    cases hinit

theorem Creates.index_newborn (h : Creates s t i tid) : t.index s.created = s.indexWith i tid := by
  have hfun : (fun j => (t.thread_table j).inUse &&
      decide ((t.thread_table j).threadID = (t.threads s.created).threadID)) = fun j =>
      decide (j = i) || ((s.thread_table j).inUse && decide ((s.thread_table j).threadID = tid)) := by
    funext j
    rw [h.newborn.2]
    rcases eq_or_ne j i with rfl | hne
    · simp [h.taken]
    · simp [h.entry j hne, hne]
  rw [index, get_thread_index, indexWith, hfun]

theorem Creates.index_older (h : Creates s t i tid) (hu : u < s.created) (hlive : s.Live u) :
    t.index u = s.index u := by
  have hold : t.threads u = s.threads u := h.older u (Nat.ne_of_lt hu)
  have hne := h.unused u hu hlive
  have hfun : (fun j => (t.thread_table j).inUse &&
      decide ((t.thread_table j).threadID = (t.threads u).threadID)) = fun j =>
      (s.thread_table j).inUse && decide ((s.thread_table j).threadID = (s.threads u).threadID) := by
    funext j
    rw [hold]
    rcases eq_or_ne j i with rfl | hne'
    · simp [h.taken, h.free, Ne.symm hne]
    · rw [h.entry j hne']
  rw [index, index, get_thread_index, get_thread_index, hfun]

theorem Creates.specific_iff (h : Creates s t i tid) (hsound : s.Sound) (hs : s.Specific) :
    t.Specific ↔ ∀ k, s.cell (s.indexWith i tid) k = 0 := by
  rw [ThreadState.specific_iff] at hs ⊢
  constructor
  · intro ht k
    have hread := ht s.created h.newborn.1 k
    rwa [cell_congr h.tls_data, h.index_newborn, h.log, hsound.unborn _ _ le_rfl] at hread
  · intro hclear u hu k
    rw [cell_congr h.tls_data, h.log]
    rcases eq_or_ne u s.created with rfl | hne
    · rw [h.index_newborn, hsound.unborn _ _ le_rfl]
      exact hclear k
    · have hlive := h.live_older hne hu
      rw [h.index_older (hsound.born u hlive) hlive]
      exact hs u hlive k

theorem creates_withThread (hinit : s.thread_table_initialized = true) (hfree : s.freeSlot = some i)
    {tid : ThreadID} (hunused : s.Unused tid) {e : ThreadEntry} (he : e.inUse = true ∧ e.threadID = tid) :
    Creates s (s.withThread i tid e) i tid := by
  refine ⟨rfl, rfl, hinit, rfl, hunused, ?_, ?_, (freeSlot_spec hfree).2, ?_, ?_⟩
  · simp [Live]
  · intro v hne
    exact withThread_older hne
  · rw [withThread_table_self]
    exact he
  · intro j hne
    exact withThread_table hne

theorem still_wiped (hfree : s.freeSlot = some i) {e : ThreadEntry} (he : e.inUse = false) :
    Still s (s.modifyEntry i fun _ => e) := by
  have hfalse := (freeSlot_spec hfree).2
  refine (Still.refl s).modifyEntry ?_ ?_
  · rw [hfalse]
    exact he
  · intro htrue
    rw [hfalse] at htrue
    cases htrue

/-- Once the table is initialised, pthread_create does nothing that is read, or makes a thread. -/
theorem creates_or_still (s : ThreadState) (u : Uid) (attr : Option PthreadAttr) (start_routine arg : Ptr)
    (newThread : ℕ → Option ThreadID) :
    let t := s.init_thread_table u
    let r := (s.pthread_create u attr start_routine arg newThread).2
    (Still t r ∧ ∀ i ∈ t.freeSlot, ∀ tid ∈ newThread (stackSize attr), ¬ t.Unused tid) ∨
    ∃ i tid, t.freeSlot = some i ∧ newThread (stackSize attr) = some tid ∧ Creates t r i tid := by
  intro t r
  rcases s.pthread_create_cases u attr start_routine arg newThread with
    ⟨hfree, hmade⟩ | ⟨i, hfree, hused, hmade⟩ | ⟨i, tid, hfree, htid, hunused, hmade⟩
  · refine .inl ⟨?_, ?_⟩
    · rw [show r = t from congrArg Prod.snd hmade]
      exact Still.refl t
    · intro i hi
      rw [hfree] at hi
      cases hi
  · refine .inl ⟨?_, ?_⟩
    · rw [show r = _ from congrArg Prod.snd hmade]
      exact still_wiped hfree rfl
    · intro j _ tid htid
      exact hused tid htid
  · refine .inr ⟨i, tid, hfree, htid, ?_⟩
    rw [show r = _ from congrArg Prod.snd hmade]
    exact creates_withThread (init_thread_table_initialized s u) hfree hunused ⟨rfl, rfl⟩

/-! ### A column is handed on, and a cell is written -/

theorem Sound.keyCreate (h : s.Sound) (d : Ptr) : (s.pthread_key_create d).2.Sound := by
  rw [pthread_key_create]
  split
  · refine ⟨h.distinct, h.born, ?_, h.uninit⟩
    intro u key hu
    rw [lastSet_cons, h.unborn u key hu, touches]
    split <;> rfl
  · exact h

theorem Sound.specific_keyCreate (h : s.Sound) (hs : s.Specific) (d : Ptr) :
    (s.pthread_key_create d).2.Specific ↔
      ∀ k ∈ s.freeKey, ∀ v < s.created, s.Live v → s.cell (s.index v) k = 0 := by
  cases hfree : s.freeKey with
  | none =>
    have hnone : ∀ k ∈ (none : Option Key), ∀ v < s.created, s.Live v → s.cell (s.index v) k = 0 := by
      intro k hk
      cases hk
    simp only [pthread_key_create, hfree]
    exact iff_of_true hs hnone
  | some k =>
    simp only [pthread_key_create, hfree]
    rw [ThreadState.specific_iff] at hs ⊢
    constructor
    · intro ht k' hk' v _ hv
      obtain rfl := Option.some.inj hk'
      have hread := ht v hv k
      rwa [lastSet_cons, touches, if_pos rfl] at hread
    · intro hclear v hv k'
      rw [lastSet_cons, touches]
      rcases eq_or_ne k' k with rfl | hne
      · rw [if_pos rfl]
        exact hclear k' rfl v (h.born v hv) hv
      · rw [if_neg (fun heq => hne (Fin.ext heq.symm))]
        exact hs v hv k'

theorem Sound.index_inj (h : s.Sound) (hu : s.Live u) (hv : s.Live v) (hi : s.index u = some i)
    (hj : s.index v = some i) : u = v :=
  h.distinct u v hu hv ((get_thread_index_spec hi).2.symm.trans (get_thread_index_spec hj).2)

theorem Sound.setspecific (h : s.Sound) (hu : s.Live u) (key : ℕ) (value : Ptr) :
    (s.pthread_setspecific u key value).2.Sound := by
  rw [pthread_setspecific]
  split
  · exact h
  · split
    · exact h
    · refine ⟨h.distinct, h.born, ?_, h.uninit⟩
      intro v key' hv
      have hne : u ≠ v := by
        rintro rfl
        exact absurd (h.born u hu) (Nat.not_lt.mpr hv)
      rw [lastSet_cons, touches, if_neg fun heq => hne heq.1]
      exact h.unborn v key' hv

theorem Sound.specific_setspecific (h : s.Sound) (hs : s.Specific) (hu : s.Live u) (key : ℕ)
    (value : Ptr) : (s.pthread_setspecific u key value).2.Specific := by
  rw [pthread_setspecific]
  split
  · exact hs
  · rename_i k _
    cases hindex : s.index u with
    | none => exact hs
    | some i =>
      rw [ThreadState.specific_iff] at hs ⊢
      intro v hv k'
      have hread : (s.index v).elim 0 (fun j => s.tls_data j k') = lastSet v k'.val s.log := hs v hv k'
      rw [lastSet_cons, touches]
      change (s.index v).elim 0 (fun j =>
        Function.update s.tls_data i (Function.update (s.tls_data i) k value) j k') = _
      rcases eq_or_ne u v with rfl | hne
      · rw [hindex] at hread ⊢
        rcases eq_or_ne k k' with rfl | hk
        · simp
        · rw [if_neg fun heq => hk (Fin.ext heq.2), Option.getD_none, ← hread]
          simp [hk.symm]
      · rw [if_neg fun heq => hne heq.1, Option.getD_none, ← hread]
        cases hv' : s.index v with
        | none => rfl
        | some j =>
          -- two live threads share no row
          have hji : j ≠ i := by
            rintro rfl
            exact hne (h.index_inj hu hv hindex hv')
          simp [hji]

/-! ### Runs -/

theorem Sound.start (main : ThreadID) : (start main).Sound := by
  refine ⟨?_, ?_, ?_, ?_⟩
  · intro u v hu hv _
    rw [live_start hu, live_start hv]
  · intro u hu
    rw [live_start hu]
    exact Nat.zero_lt_one
  · intro u k _
    rfl
  · intro _ i
    rfl

theorem specific_start (main : ThreadID) : (start main).Specific := by
  rw [specific_iff]
  intro u _ k
  rw [(Sound.start main).index_of_uninit rfl]
  rfl

theorem Sound.create (h : s.Sound) (u : Uid) (attr : Option PthreadAttr) (start_routine arg : Ptr)
    (newThread : ℕ → Option ThreadID) :
    (s.pthread_create u attr start_routine arg newThread).2.Sound := by
  rcases creates_or_still s u attr start_routine arg newThread with
    ⟨hstill, _⟩ | ⟨i, tid, _, _, hcreates⟩
  · exact (h.init u).quiet hstill.toQuiet
  · exact hcreates.sound (h.init u)

theorem Sound.specific_create (h : s.Sound) (hs : s.Specific) (u : Uid) (attr : Option PthreadAttr)
    (start_routine arg : Ptr) (newThread : ℕ → Option ThreadID) :
    (s.pthread_create u attr start_routine arg newThread).2.Specific ↔
      s.ClearCall u (.pthread_create attr start_routine arg newThread) := by
  have hs' := (h.specific_init u).mpr hs
  rcases creates_or_still s u attr start_routine arg newThread with
    ⟨hstill, hnone⟩ | ⟨i, tid, hfree, htid, hcreates⟩
  · refine iff_of_true (hstill.specific hs') ?_
    intro i hi tid htid hunused
    exact absurd hunused (hnone i hi tid htid)
  · rw [hcreates.specific_iff (h.init u) hs']
    constructor
    · intro hclear j hj tid' htid' _
      obtain rfl := Option.some.inj (hfree.symm.trans hj)
      obtain rfl := Option.some.inj (htid.symm.trans htid')
      exact hclear
    · intro hclear
      exact hclear i hfree tid htid hcreates.unused

/-- The step stores nothing; or it gives a slot back and does no more that is read; or it is a call that
    stores. -/
inductive StepCase (s : ThreadState) (a : ThreadInput) : Prop where
  | still (h : Still s (s.step a)) (clear : s.Clear a)
  | releases (i : Slot) (h : Releases s (s.step a) i) (clear : s.Clear a ↔ s.Unread i)
  | stores (u : Uid) (c : ThreadCall) (hu : s.Live u) (hc : Stores c) (h : s.step a = s.exec u c)
      (clear : s.Clear a ↔ s.ClearCall u c)

theorem released_of_stores {c : ThreadCall} (hc : Stores c) : s.released (.call u c) = none := by
  cases c with
  | pthread_join | pthread_detach => exact hc.elim
  | _ => rfl

theorem quiet_of_not_storing {a : ThreadInput} (h : ¬ s.StoringCall a) :
    (s.released a = none ∧ Still s (s.step a)) ∨
      ∃ i, s.released a = some i ∧ Releases s (s.step a) i :=
  quiet_of_case (case_step h)

theorem clearCall_of_not_stores {c : ThreadCall} (h : ¬ Stores c) : s.ClearCall u c := by
  cases c with
  | pthread_create | pthread_self | pthread_key_create | pthread_setspecific =>
    exact absurd trivial h
  | _ => trivial

/-- Of a step that stores nothing only the slot it gives back matters. -/
theorem clear_iff_of_not_storing {a : ThreadInput} (h : ¬ s.StoringCall a) :
    s.Clear a ↔ ∀ i ∈ s.released a, s.Unread i := by
  cases a with
  | call u c =>
    refine and_iff_left fun hu => clearCall_of_not_stores fun hc => ?_
    exact h ⟨u, c, rfl, hu, hc⟩
  | returns | begins | resumes => exact and_iff_left trivial

theorem stepCase (s : ThreadState) (a : ThreadInput) : StepCase s a := by
  by_cases hstoring : s.StoringCall a
  · obtain ⟨u, c, rfl, hu, hc⟩ := hstoring
    have hstep : s.step (.call u c) = s.exec u c := by rw [step, if_pos hu]
    refine .stores u c (live_of_running hu) hc hstep ⟨fun h => h.2 hu, fun h => ⟨?_, fun _ => h⟩⟩
    rw [released_of_stores hc]
    intro i hi
    cases hi
  · have hclear := clear_iff_of_not_storing hstoring
    rcases quiet_of_not_storing hstoring with ⟨hnone, hstill⟩ | ⟨i, hsome, hrel⟩
    · refine .still hstill (hclear.mpr ?_)
      rw [hnone]
      intro i hi
      cases hi
    · refine .releases i hrel (hclear.trans ⟨fun h => h i hsome, fun hunread j hj => ?_⟩)
      obtain rfl := Option.some.inj (hsome.symm.trans hj)
      exact hunread

theorem Sound.step (h : s.Sound) (a : ThreadInput) : (s.step a).Sound := by
  cases stepCase s a with
  | still hstill _ => exact h.quiet hstill.toQuiet
  | releases i hrel _ => exact h.quiet hrel.toQuiet
  | stores u c hu hc heq _ =>
    rw [heq]
    cases c with
    | pthread_create attr start_routine arg newThread => exact h.create u attr start_routine arg newThread
    | pthread_self =>
      rw [exec, pthread_self_state]
      exact h.init u
    | pthread_key_create destructor => exact h.keyCreate destructor
    | pthread_setspecific key value => exact h.setspecific hu key value
    | _ => exact hc.elim

/-- The step keeps the law exactly when what it hands on is clear. -/
theorem specific_step (h : s.Sound) (hs : s.Specific) (a : ThreadInput) :
    (s.step a).Specific ↔ s.Clear a := by
  cases stepCase s a with
  | still hstill hclear => exact iff_of_true (hstill.specific hs) hclear
  | releases i hrel hclear => exact (hrel.specific_iff h hs).trans hclear.symm
  | stores u c hu hc heq hclear =>
    rw [heq, hclear]
    cases c with
    | pthread_create attr start_routine arg newThread =>
      exact h.specific_create hs u attr start_routine arg newThread
    | pthread_self =>
      rw [exec, pthread_self_state]
      exact iff_of_true ((h.specific_init u).mpr hs) trivial
    | pthread_key_create destructor => exact h.specific_keyCreate hs destructor
    | pthread_setspecific key value =>
      exact iff_of_true (h.specific_setspecific hs hu key value) trivial
    | _ => exact hc.elim

/-- In a run from the start, every thread always reads what it last set exactly when every step hands on
    nothing but clear rows and columns. -/
theorem specific_iff_clear (main : ThreadID) (as : List ThreadInput) :
    Always step Specific (start main) as ↔ Meets step Clear (start main) as := by
  have hstart : (start main).Sound ∧ (start main).Specific :=
    ⟨Sound.start main, specific_start main⟩
  refine always_iff_meets (I := fun s => s.Sound ∧ s.Specific) ?_ ?_ ?_ hstart
  · intro s a hs hclear
    exact ⟨hs.1.step a, (specific_step hs.1 hs.2 a).mpr hclear⟩
  · intro s hs
    exact hs.2
  · intro s a hs hnext
    exact (specific_step hs.1 hs.2 a).mp hnext

/-- A thread sets a key and is joined; the next one gets its slot, and reads what it set. -/
theorem new_thread_reads_old_value :
    ¬ ∀ (main : ThreadID) (as : List ThreadInput), Always step Specific (start main) as := by
  intro h
  have hall := always_iff_prefix.mp (h 2 [
    .call 0 (.pthread_create none 500 0 fun _ => some 3),
    .call 0 (.pthread_key_create 0),
    .begins 1, .call 1 (.pthread_setspecific 0 7), .returns 1 0,
    .call 0 (.pthread_join 2 false),
    .call 0 (.pthread_create none 500 0 fun _ => some 4)]) _ List.prefix_rfl
  have hread := hall 2 (by decide +kernel) 0
  revert hread
  decide +kernel

end ThreadState

end Posix9
