import Posix9.Descriptors
import Posix9.Stat

/-! Whether a duplicate behaves like its original. dup and dup2 copy the entry, but read and write also
    look at the number of a stdio descriptor, and dup2 closes its target before it copies. -/

namespace Posix9.FileState

variable {fm : FileManager} {info : fm.Info} {s t : FileState fm} {i j : Fd}

/-! ### The law -/

/-- The call that duplicates a descriptor. -/
inductive Copying where
  | dup
  | dup2 (newfd : ℤ)

def duplicate (s : FileState fm) (oldfd : Fd) : Copying → ℤ × FileState fm
  | .dup => s.dup oldfd
  | .dup2 newfd => s.dup2 oldfd newfd

/-- What is done next with a descriptor. -/
inductive FollowUp where
  | read (count : ℕ)
  | write (buf : List UInt8)
  | lseek (offset whence : ℤ)
  | fstat (buf : Stat)
  | fsync

/-- What it gives back: the result, the bytes read, the buffer of fstat. -/
structure Reply where
  result : ℤ
  bytes : List UInt8
  stat : Option Stat

def follow (info : fm.Info) (s : FileState fm) (fd : ℤ) : FollowUp → Reply × FileState fm
  | .read count => let ((v, bytes), s) := s.read fd count; (⟨v, bytes, none⟩, s)
  | .write buf => let (v, s) := s.write fd buf; (⟨v, [], none⟩, s)
  | .lseek offset whence => let (v, s) := s.lseek fd offset whence; (⟨v, [], none⟩, s)
  | .fstat buf => let ((v, buf), s) := s.fstat info fd buf; (⟨v, [], some buf⟩, s)
  | .fsync => let (v, s) := s.fsync info fd; (⟨v, [], none⟩, s)

/-- The original keeps its entry, no descriptor but the two is touched, and whatever is called next does
    the same through either of them. -/
structure Faithful (info : fm.Info) (s : FileState fm) (fd : Fd) (d : ℤ) (t : FileState fm) : Prop where
  kept : t.fd_table fd = s.fd_table fd
  others : ∀ j : Fd, j ≠ fd → (j : ℤ) ≠ d → t.fd_table j = s.fd_table j
  alike : ∀ c, t.follow info d c = t.follow info fd c

/-! ### The condition -/

/-- What read and write take a stdio descriptor for. -/
inductive Role where | input | output | neither
  deriving DecidableEq

def role (i : Fd) : Role :=
  if i = STDIN_FILENO then .input
  else if i = STDOUT_FILENO ∨ i = STDERR_FILENO then .output
  else .neither

/-- What dup2 closes is not the original, unless there is no refNum to lose; a stdio descriptor is copied
    to a number with the same role; and dup does not initialise the table, unless that changes nothing. -/
def CopiesWell (s : FileState fm) (fd : Fd) : Copying → Prop
  | .dup =>
    if s.fd_table_initialized then (s.fd_table fd).isStdio = true → role fd = .neither
    else fd.val = 3 ∧ ∀ j, (s.alloc_fd.2.fd_table j) = s.fd_table j
  | .dup2 newfd =>
    if newfd = fd then (s.fd_table fd).isStdio = true ∨ (s.fd_table fd).refNum = 0
    else (s.fd_table fd).isStdio = true → ∃ new : Fd, newfd = new ∧ role fd = role new

/-! ### What a descriptor's number decides -/

theorem role_input : role i = .input ↔ i = STDIN_FILENO := by
  rw [role]
  split
  · simp [*]
  · split <;> simp [*]

theorem role_output : role i = .output ↔ i = STDOUT_FILENO ∨ i = STDERR_FILENO := by
  rw [role]
  split
  · rename_i hin
    subst hin
    decide
  · split <;> simp [*]

theorem role_neither (h : 3 ≤ i.val) : role i = .neither := by
  have hin : i ≠ STDIN_FILENO := by
    rintro rfl
    exact absurd h (by decide)
  have hout : ¬(i = STDOUT_FILENO ∨ i = STDERR_FILENO) := by
    rintro (rfl | rfl) <;> exact absurd h (by decide)
  rw [role, if_neg hin, if_neg hout]

/-- Two descriptors with the same entry and the same history. -/
structure Twins (t : FileState fm) (i j : Fd) : Prop where
  inUse : (t.fd_table i).inUse = true
  entry : t.fd_table j = t.fd_table i
  origin : t.ledger.origin j = t.ledger.origin i

theorem get_fd_entry_self (h : (s.fd_table i).inUse = true) : s.get_fd_entry i = some i :=
  get_fd_entry_eq_some.mpr ⟨rfl, h⟩

theorem Twins.get_fd_entry (h : Twins t i j) : t.get_fd_entry j = some j :=
  get_fd_entry_self (by rw [h.entry, h.inUse])

/-- Twins do alike, where a stdio entry has the same role in both. -/
theorem Twins.follow_eq (h : Twins t i j) (hrole : (t.fd_table i).isStdio = true → role i = role j)
    (c : FollowUp) : t.follow info j c = t.follow info i c := by
  have hi := get_fd_entry_self h.inUse
  have hj := h.get_fd_entry
  cases c with
  | read count =>
    rw [follow, follow, read, read, hi, hj]
    dsimp only
    rw [h.entry, h.origin]
    split
    · rename_i hstdio
      simp only [← role_input, hrole hstdio]
    · rfl
  | write buf =>
    rw [follow, follow, write, write, hi, hj]
    dsimp only
    rw [h.entry, h.origin]
    split
    · rename_i hstdio
      simp only [← role_output, hrole hstdio]
    · rfl
  | lseek offset whence =>
    rw [follow, follow, lseek, lseek, hi, hj]
    dsimp only
    rw [h.entry, h.origin]
  | fstat buf =>
    rw [follow, follow, fstat, fstat, hi, hj]
    dsimp only
    rw [h.entry, h.origin]
  | fsync =>
    rw [follow, follow, fsync, fsync, hi, hj]
    dsimp only
    rw [h.entry, h.origin]

/-- Twins with a stdio entry that do alike have the same role: read and write tell the roles apart. -/
theorem Twins.role_eq (h : Twins t i j) (hstdio : (t.fd_table i).isStdio = true)
    (halike : ∀ c, t.follow info j c = t.follow info i c) : role j = role i := by
  have hi := get_fd_entry_self h.inUse
  have hj := h.get_fd_entry
  have hread := halike (.read 0)
  rw [follow, follow, read, read, hi, hj] at hread
  dsimp only at hread
  rw [h.entry, if_pos hstdio, if_pos hstdio] at hread
  have herrno : (if j = STDIN_FILENO then ENOSYS else EBADF) = if i = STDIN_FILENO then ENOSYS else EBADF :=
    congrArg (fun x => x.2.posix9_errno) hread
  have hin : j = STDIN_FILENO ↔ i = STDIN_FILENO := by
    by_cases hj : j = STDIN_FILENO <;> by_cases hi : i = STDIN_FILENO <;>
      simp [hj, hi, ENOSYS, EBADF] at herrno ⊢
  have hwrite := halike (.write [0])
  rw [follow, follow, write, write, hi, hj] at hwrite
  dsimp only at hwrite
  rw [h.entry, if_pos hstdio, if_pos hstdio] at hwrite
  have hout : (j = STDOUT_FILENO ∨ j = STDERR_FILENO) ↔ i = STDOUT_FILENO ∨ i = STDERR_FILENO := by
    have hresult := congrArg (fun x => x.1.result) hwrite
    by_cases hj : j = STDOUT_FILENO ∨ j = STDERR_FILENO <;>
      by_cases hi : i = STDOUT_FILENO ∨ i = STDERR_FILENO <;>
        simp [hj, hi, badFd] at hresult ⊢
  rw [role, role, if_congr hin rfl (if_congr hout rfl rfl)]

/-! ### What the duplication leaves -/

theorem inUse_again {e : FdEntry} (h : e.inUse = true) : { e with inUse := true } = e := by
  rw [← h]

/-- An entry copied to another slot. -/
structure Copied (s t : FileState fm) (old new : Fd) : Prop where
  entry : t.fd_table new = s.fd_table old
  other : ∀ j, j ≠ new → t.fd_table j = s.fd_table j
  origin : t.ledger.origin new = t.ledger.origin old

theorem Copied.twins (h : Copied s t i j) (hne : j ≠ i) (huse : (s.fd_table i).inUse = true) :
    Twins t i j := by
  have hold := h.other i (Ne.symm hne)
  exact ⟨by rw [hold, huse], by rw [h.entry, hold], h.origin⟩

theorem Copied.faithful_iff (h : Copied s t i j) (hne : j ≠ i) (huse : (s.fd_table i).inUse = true) :
    Faithful info s i j t ↔ ((s.fd_table i).isStdio = true → role i = role j) := by
  have htwins := h.twins hne huse
  have hold := h.other i (Ne.symm hne)
  constructor
  · intro hf hstdio
    exact (htwins.role_eq (by rw [hold, hstdio]) hf.alike).symm
  · intro hrole
    refine ⟨hold, fun k _ hk => h.other k fun hkj => hk (by rw [hkj]), fun c => ?_⟩
    exact htwins.follow_eq (by rwa [hold]) c

/-- alloc_fd in a table that has been initialised. -/
theorem alloc_fd_initialized (hinit : s.fd_table_initialized = true) {new : Fd} {t : FileState fm}
    (halloc : s.alloc_fd = (some new, t)) : 3 ≤ new.val ∧ (s.fd_table new).inUse = false ∧
      t = s.setEntry new { s.fd_table new with inUse := true } := by
  have hcases := alloc_fd_cases s
  rw [init_of_initialized hinit, halloc] at hcases
  rcases hcases with ⟨i, hi, hfree, heq⟩ | ⟨-, heq⟩
  · obtain ⟨hnew, ht⟩ := Prod.mk.inj heq
    obtain rfl := Option.some.inj hnew
    exact ⟨mem_slots.mp hi, hfree, ht⟩
  · cases (Prod.mk.inj heq).1

theorem dup_copied (hinit : s.fd_table_initialized = true) (huse : (s.fd_table i).inUse = true)
    (hok : (s.dup i).1 ≠ -1) : ∃ new : Fd, 3 ≤ new.val ∧ new ≠ i ∧ (s.dup i).1 = new ∧
      Copied s (s.dup i).2 i new := by
  rw [dup, get_fd_entry_self huse] at hok ⊢
  dsimp only at hok ⊢
  rcases halloc : s.alloc_fd with ⟨_ | new, t⟩
  · rw [halloc] at hok
    exact absurd rfl hok
  · obtain ⟨hslot, hfree, rfl⟩ := alloc_fd_initialized hinit halloc
    have hne : new ≠ i := by
      rintro rfl
      exact Bool.false_ne_true (hfree.symm.trans huse)
    refine ⟨new, hslot, hne, rfl, ?_, fun j hj => ?_, ?_⟩
    · exact (setEntry_self _).trans (setEntry_of_ne (Ne.symm hne) _)
    · exact (setEntry_of_ne hj _).trans (setEntry_of_ne hj _)
    · change Function.update s.ledger.origin new _ new = Function.update s.ledger.origin new _ i
      rw [Function.update_self, Function.update_of_ne (Ne.symm hne)]
      rfl

/-- Behind an initialisation dup copies to descriptor 3. -/
theorem dup_uninitialized (hinit : s.fd_table_initialized = false) (huse : (s.fd_table i).inUse = true) :
    ∃ new : Fd, new.val = 3 ∧ (s.dup i).1 = new ∧ Copied s.alloc_fd.2 (s.dup i).2 i new ∧
      ∀ j, j ≠ new → s.alloc_fd.2.fd_table j = s.init_fd_table.fd_table j := by
  obtain ⟨new, hnew, halloc⟩ := alloc_fd_first hinit
  rw [dup, get_fd_entry_self huse, halloc]
  refine ⟨new, hnew, rfl, ⟨setEntry_self _, fun j hj => setEntry_of_ne hj _, ?_⟩,
    fun j hj => setEntry_of_ne hj _⟩
  change (Function.update _ new _ : Fd → ℕ) new = (Function.update _ new _ : Fd → ℕ) i
  rw [Function.update_self]
  rcases eq_or_ne i new with rfl | hne
  · rw [Function.update_self]
  · rw [Function.update_of_ne hne]
    rfl

theorem init_role (hinit : s.fd_table_initialized = false)
    (huse : (s.init_fd_table.fd_table i).inUse = true) :
    (s.init_fd_table.fd_table i).isStdio = true ∧ role i ≠ .neither := by
  rw [init_fd_table, if_neg (by simp [hinit])] at huse ⊢
  refine ⟨huse, fun hrole => ?_⟩
  rcases of_decide_eq_true huse with rfl | rfl | rfl <;> exact absurd hrole (by decide)

/-- dup before an initialisation: the copy is lost unless the descriptor is 3, the copy itself. -/
theorem dup_uninitialized_iff (hinit : s.fd_table_initialized = false)
    (huse : (s.fd_table i).inUse = true) : Faithful info s i (s.dup i).1 (s.dup i).2 ↔
      i.val = 3 ∧ ∀ j, s.alloc_fd.2.fd_table j = s.fd_table j := by
  obtain ⟨new, hnew, hfd, hcopied, hinitial⟩ := dup_uninitialized hinit huse
  constructor
  · intro h
    have hsame : i = new := by
      by_contra hne
      have hkept : s.alloc_fd.2.fd_table i = s.fd_table i := by
        rw [← hcopied.other i hne, h.kept]
      have hinitialised := hinitial i hne
      obtain ⟨hstdio, hrole⟩ := init_role hinit (i := i) (by rw [← hinitialised, hkept, huse])
      have htwins := hcopied.twins (Ne.symm hne) (by rw [hkept, huse])
      have halike := h.alike
      rw [hfd] at halike
      have heq := htwins.role_eq (by rw [hcopied.other i hne, hinitialised, hstdio]) halike
      exact hrole (heq ▸ role_neither (Nat.le_of_eq hnew.symm))
    subst hsame
    refine ⟨hnew, fun j => ?_⟩
    rcases eq_or_ne j i with rfl | hne
    · rw [← h.kept, hcopied.entry]
    · rw [← h.others j hne (by rw [hfd]; exact fun h => hne (Fin.ext (Int.ofNat.inj h))), hcopied.other j hne]
  · rintro ⟨hthree, hsteady⟩
    obtain rfl : i = new := Fin.ext (hthree.trans hnew.symm)
    refine ⟨by rw [hcopied.entry, hsteady], fun j hj _ => ?_, fun c => by rw [hfd]⟩
    rw [hcopied.other j hj, hsteady]

theorem closeEntry_table (hi : s.Holds i) : (s.closeEntry i).2.fd_table =
    (s.setEntry i { s.fd_table i with inUse := false, refNum := 0 }).fd_table := by
  obtain ⟨e, he⟩ := closeEntry_holds hi
  rw [he]
  rfl

theorem dup2_fst {newfd : ℤ} (huse : (s.fd_table i).inUse = true) (hok : (s.dup2 i newfd).1 ≠ -1) :
    ∃ new : Fd, newfd = new ∧ (s.dup2 i newfd).1 = new := by
  rw [dup2, get_fd_entry_self huse] at hok ⊢
  dsimp only at hok ⊢
  split
  · rename_i hrange
    have hnew : newfd = ((⟨newfd.toNat, by omega⟩ : Fd) : ℕ) := (Int.toNat_of_nonneg hrange.1).symm
    exact ⟨_, hnew, hnew⟩
  · rename_i hrange
    rw [dif_neg hrange] at hok
    exact absurd rfl hok

/-- dup2 to another number. -/
theorem dup2_copied (huse : (s.fd_table i).inUse = true) (hne : j ≠ i) :
    Copied s (s.dup2 i j).2 i j := by
  rw [dup2_eq (get_fd_entry_self huse) rfl]
  generalize hu : (if (s.fd_table j).inUse ∧ ¬(s.fd_table j).isStdio then (s.closeEntry j).2 else s) = u
  have hother : ∀ k, k ≠ j → u.fd_table k = s.fd_table k := by
    intro k hk
    rw [← hu]
    split
    · rename_i hheld
      rw [closeEntry_table ⟨hheld.1, by simpa using hheld.2⟩]
      exact setEntry_of_ne hk _
    · rfl
  refine ⟨?_, fun k hk => (overwrite_of_ne hk).trans (hother k hk), ?_⟩
  · rw [overwrite_self, hother i (Ne.symm hne), inUse_again huse]
  · change (Function.update _ j _ : Fd → ℕ) j = (Function.update _ j _ : Fd → ℕ) i
    rw [Function.update_self, Function.update_of_ne (Ne.symm hne)]
    rfl

/-- dup2 of a descriptor onto itself: an entry that is not stdio is closed and loses its refNum. -/
theorem dup2_self_iff (huse : (s.fd_table i).inUse = true) : Faithful info s i i (s.dup2 i i).2 ↔
    (s.fd_table i).isStdio = true ∨ (s.fd_table i).refNum = 0 := by
  have hother : ∀ k, k ≠ i → (s.dup2 i i).2.fd_table k = s.fd_table k := by
    intro k hk
    rw [dup2_eq (get_fd_entry_self huse) rfl, overwrite_of_ne hk]
    split
    · rename_i hheld
      rw [closeEntry_table ⟨hheld.1, by simpa using hheld.2⟩]
      exact setEntry_of_ne hk _
    · rfl
  have hentry : (s.dup2 i i).2.fd_table i = s.fd_table i ↔
      (s.fd_table i).isStdio = true ∨ (s.fd_table i).refNum = 0 := by
    rw [dup2_eq (get_fd_entry_self huse) rfl, overwrite_self]
    by_cases hstdio : (s.fd_table i).isStdio = true
    · rw [if_neg (by simp [hstdio])]
      exact iff_of_true (inUse_again huse) (.inl hstdio)
    · rw [if_pos ⟨huse, hstdio⟩, closeEntry_table ⟨huse, by simpa using hstdio⟩, setEntry_self,
        or_iff_right hstdio]
      constructor
      · intro h
        exact (congrArg FdEntry.refNum h).symm
      · intro h
        have hsame := inUse_again huse
        rw [← h]
        exact hsame
  constructor
  · intro h
    exact hentry.mp h.kept
  · intro h
    exact ⟨hentry.mpr h, fun k hk _ => hother k hk, fun c => rfl⟩

/-- A duplicate is as good as its original exactly when `CopiesWell` says so. -/
theorem faithful_iff_copiesWell (info : fm.Info) (s : FileState fm) (fd : Fd) (c : Copying)
    (huse : (s.fd_table fd).inUse = true) (hok : (s.duplicate fd c).1 ≠ -1) :
    Faithful info s fd (s.duplicate fd c).1 (s.duplicate fd c).2 ↔ s.CopiesWell fd c := by
  cases c with
  | dup =>
    rw [duplicate] at hok ⊢
    rw [CopiesWell]
    cases hinit : s.fd_table_initialized with
    | true =>
      obtain ⟨new, hslot, hne, hfd, hcopied⟩ := dup_copied hinit huse hok
      rw [← role_neither hslot, if_pos rfl, ← hcopied.faithful_iff hne huse, hfd]
    | false => rw [if_neg (by simp), dup_uninitialized_iff hinit huse]
  | dup2 newfd =>
    rw [duplicate] at hok ⊢
    obtain ⟨new, rfl, hfd⟩ := dup2_fst huse hok
    rw [CopiesWell, hfd]
    rcases eq_or_ne new fd with rfl | hne
    · rw [if_pos rfl, dup2_self_iff huse]
    · have hnumber : ¬((new : ℤ) = fd) := fun h => hne (Fin.ext (Int.ofNat.inj h))
      rw [if_neg hnumber, (dup2_copied huse hne).faithful_iff hne huse]
      refine imp_congr_right fun _ => ⟨fun h => ⟨new, rfl, h⟩, ?_⟩
      rintro ⟨new', hnew, hrole⟩
      obtain rfl : new = new' := Fin.ext (Int.ofNat.inj hnew)
      exact hrole

/-- A File Manager whose files are empty and flush without an error. -/
def bareInfo : bareDisk.Info where
  GetEOF _ _ := (noErr, 0)
  PBGetCatInfoSync _ _ := (noErr, ⟨0, 0, 0⟩)
  PBFlushFileSync _ opened := (noErr, opened)
  PBFlushVolSync _ opened := (noErr, opened)
  HGetVol _ := (noErr, c_to_pstr "Macintosh HD".toList, -1, 2)
  HSetVol _ _ opened := (noErr, opened)

/-- The library behind its first open: descriptor 3 is a file. -/
def oneFile : FileState bareDisk :=
  ((FileState.start [] fun _ => false : FileState bareDisk).open_ "a".toList O_RDWR).2

/-- A copy of an open file. -/
theorem faithful_open_file : Faithful bareInfo oneFile ⟨3, by decide⟩
    (oneFile.duplicate ⟨3, by decide⟩ .dup).1 (oneFile.duplicate ⟨3, by decide⟩ .dup).2 := by
  refine (faithful_iff_copiesWell bareInfo oneFile ⟨3, by decide⟩ .dup (by decide +kernel)
    (by decide +kernel)).mpr ?_
  rw [CopiesWell, if_pos (by decide +kernel)]
  exact fun hstdio => absurd hstdio (by decide +kernel)

/-- A copy of standard output: writing to the original succeeds, writing to the copy fails. -/
theorem stdout_copy_fails : ¬ Faithful bareInfo oneFile STDOUT_FILENO
    (oneFile.duplicate STDOUT_FILENO .dup).1 (oneFile.duplicate STDOUT_FILENO .dup).2 := by
  intro h
  have hresult := congrArg (fun x => x.1.result) (h.alike (.write [104, 105]))
  exact absurd hresult (by decide +kernel)

end Posix9.FileState
