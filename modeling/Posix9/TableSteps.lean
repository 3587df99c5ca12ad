import Posix9.Creation
import Posix9.Duplicates

/-! What each call does to the descriptor table: it leaves the table, takes a free slot, frees one, or
    overwrites one with the copy of another. -/

namespace Posix9

/-- The calls on descriptors. -/
abbrev TableCall := {c : FileCall // c ≠ .posix9_cleanup}

namespace FileState

variable {fm : FileManager} {s t : FileState fm} {i j : Fd} {flags : BitVec 32}

/-- The descriptor table, and whether it has been initialised, are as they were. Files, marks and errno may
    differ. -/
structure SameTable (s t : FileState fm) : Prop where
  table : t.fd_table = s.fd_table
  initialized : t.fd_table_initialized = s.fd_table_initialized

/-- Before the initialisation no descriptor is in use. -/
def Idle (s : FileState fm) : Prop := s.fd_table_initialized = false → ∀ i, (s.fd_table i).inUse = false

/-- What leaves the table alone leaves an idle one idle. -/
theorem SameTable.idle (h : SameTable s t) (hs : s.Idle) : t.Idle := by
  rw [Idle, h.table, h.initialized]
  exact hs

/-- A descriptor is in use only where the table has been initialised. -/
theorem Idle.initialized (h : s.Idle) (huse : (s.fd_table i).inUse = true) : s.fd_table_initialized = true := by
  by_contra hinit
  rw [h (by simpa using hinit) i] at huse
  cases huse

theorem idle_of_initialized (h : s.fd_table_initialized = true) : s.Idle := fun hinit =>
  absurd (h.symm.trans hinit) (by decide)

/-! ### open -/

/-- What open leaves, up to what it does to files. -/
inductive OpenStep (s : FileState fm) (flags : BitVec 32) : ℤ × FileState fm → Prop where
  | fails {t : FileState fm} (hkept : SameTable s.init_fd_table t) : OpenStep s flags (-1, t)
  | takes {t : FileState fm} (i : Fd) (e : FdEntry) (hslot : 3 ≤ i.val)
      (hfree : (s.init_fd_table.fd_table i).inUse = false) (huse : e.inUse = true) (hflags : e.flags = flags)
      (hstdio : e.isStdio = (s.init_fd_table.fd_table i).isStdio)
      (hkept : SameTable (s.init_fd_table.setEntry i e) t) : OpenStep s flags (i, t)

theorem SameTable.trans {u : FileState fm} (h : SameTable s t) (h' : SameTable t u) : SameTable s u :=
  ⟨h'.table.trans h.table, h'.initialized.trans h.initialized⟩

/-- The same entry written to both keeps them alike. -/
theorem SameTable.setEntry (h : SameTable s t) (i : Fd) (e : FdEntry) :
    SameTable (s.setEntry i e) (t.setEntry i e) :=
  ⟨congrArg (fun table : Fd → FdEntry => Function.update table i e) h.table, h.initialized⟩

/-- open from FSpOpenDF on: alloc_fd has nothing left to initialise, so that the slot it finds is free in
    the table open has initialised. -/
theorem openFork_step (h : SameTable s.init_fd_table t) (flags : BitVec 32) (spec : FSSpec) :
    OpenStep s flags (t.openFork flags spec) := by
  rcases openFork_table (h.initialized.trans init_initialized) flags spec with
    ⟨u, hopen, htable, hinit⟩ | ⟨i, refNum, u, hopen, hi, hfree, htable, hinit⟩
  · rw [hopen]
    exact .fails (h.trans ⟨htable, hinit⟩)
  · rw [hopen]
    -- the Macintosh part of `t` plays no role: the slot was found free in the table both share
    rw [h.table] at hfree htable
    refine .takes i (openedEntry (s.init_fd_table.fd_table i) refNum spec flags) (mem_slots.mp hi) hfree rfl rfl rfl ?_
    exact (h.setEntry i _).trans ⟨htable, hinit⟩

/-- open with the path resolved. The two early exits write errno only. -/
theorem openResolved_step (h : SameTable s.init_fd_table t) (flags : BitVec 32) (err : OSErr) (spec : FSSpec) :
    OpenStep s flags (t.openResolved flags err spec) := by
  rw [openResolved]
  split
  · exact .fails (h.trans ⟨rfl, rfl⟩)
  · split
    · exact .fails (h.trans ⟨rfl, rfl⟩)
    · exact openFork_step h flags spec

/-- open is one of the two, whatever the path and the flags: it initialises the table and then fails, or
    takes one free slot from 3 on. -/
theorem open_step (s : FileState fm) (path : CStr) (flags : BitVec 32) : OpenStep s flags (s.open_ path flags) := by
  rw [open_]
  dsimp only
  split
  · have hcreate : ∀ spec, SameTable s.init_fd_table (s.init_fd_table.FSpCreate spec).2 := fun _ => ⟨rfl, rfl⟩
    split
    · exact .fails ⟨rfl, rfl⟩
    · exact openResolved_step (hcreate _) flags _ _
  · exact openResolved_step ⟨rfl, rfl⟩ flags _ _

/-! ### close -/

/-- What close leaves: it refuses a number that is no file descriptor, does nothing to a stdio descriptor,
    and frees the slot of any other, also where FSClose fails. -/
inductive CloseStep (s : FileState fm) (fd : ℤ) : ℤ × FileState fm → Prop where
  | refuses {v : ℤ} {t : FileState fm} (hfd : ∀ i : Fd, fd = i → (s.fd_table i).inUse = false)
      (hkept : SameTable s t) : CloseStep s fd (v, t)
  | spares (i : Fd) (hfd : fd = i) (hstdio : (s.fd_table i).isStdio = true) : CloseStep s fd (0, s)
  | frees {v : ℤ} {t : FileState fm} (i : Fd) (hfd : fd = i) (hi : s.Holds i)
      (hkept : SameTable (s.setEntry i { s.fd_table i with inUse := false, refNum := 0 }) t) : CloseStep s fd (v, t)

/-- close of a file changes its own slot only. -/
theorem closeEntry_kept (hi : s.Holds i) :
    SameTable (s.setEntry i { s.fd_table i with inUse := false, refNum := 0 }) (s.closeEntry i).2 := by
  obtain ⟨e, he⟩ := closeEntry_holds hi
  rw [he]
  exact ⟨rfl, rfl⟩

/-- close, of any number, is one of the three. -/
theorem close_step (s : FileState fm) (fd : ℤ) : CloseStep s fd (s.close fd) := by
  by_cases hsocket : s.posix9_is_socket fd = true
  · have hfd : ∀ i : Fd, fd = i → (s.fd_table i).inUse = false := by
      rintro i rfl
      rw [not_socket] at hsocket
      cases hsocket
    rw [close, if_pos hsocket, posix9_close_socket]
    split
    · split <;> exact .refuses hfd ⟨rfl, rfl⟩
    · exact .refuses hfd ⟨rfl, rfl⟩
  -- no socket descriptor from here on
  · rcases hentry : s.get_fd_entry fd with _ | i
    · have hfd : ∀ i : Fd, fd = i → (s.fd_table i).inUse = false := by
        rintro i rfl
        by_contra huse
        rw [get_fd_entry_self (by simpa using huse)] at hentry
        cases hentry
      rw [close, if_neg hsocket, hentry]
      exact .refuses hfd ⟨rfl, rfl⟩
    · obtain ⟨rfl, huse⟩ := get_fd_entry_eq_some.mp hentry
      rw [close_eq rfl huse]
      rcases hstdio : (s.fd_table i).isStdio with _ | _
      · exact .frees i rfl ⟨huse, hstdio⟩ (closeEntry_kept ⟨huse, hstdio⟩)
      · rw [closeEntry, if_pos hstdio]
        exact .spares i rfl hstdio

/-! ### dup, dup2 -/

/-- A copy to a slot that the call may take, if there is one. -/
inductive CopyStep (s : FileState fm) (oldfd : ℤ) (target : Fd → Prop) : ℤ × FileState fm → Prop where
  | fails {t : FileState fm} (hno : ∀ old new, s.get_fd_entry oldfd = some old → ¬ target new)
      (hkept : SameTable s t) : CopyStep s oldfd target (-1, t)
  | copies {t : FileState fm} (old new : Fd) (e : FdEntry) (hold : s.get_fd_entry oldfd = some old)
      (hnew : target new) (huse : e.inUse = true) (hflags : e.flags = (s.fd_table old).flags)
      (hstdio : e.isStdio = (s.fd_table old).isStdio) (hkept : SameTable (s.setEntry new e) t) :
      CopyStep s oldfd target (new, t)

/-- dup copies to a free slot from 3 on, and fails only where there is none or the descriptor is not open.
    -/
theorem dup_step (h : s.Idle) (oldfd : ℤ) :
    CopyStep s oldfd (fun new => 3 ≤ new.val ∧ (s.fd_table new).inUse = false) (s.dup oldfd) := by
  rcases hold : s.get_fd_entry oldfd with _ | old
  · rw [dup, hold]
    refine .fails (fun old _ hsome => ?_) ⟨rfl, rfl⟩
    cases hold.symm.trans hsome
  have huse := (get_fd_entry_eq_some.mp hold).2
  -- an open descriptor means that alloc_fd finds the table initialised
  have hinit := h.initialized huse
  rw [dup, hold]
  rcases halloc : s.alloc_fd with ⟨_ | new, t⟩
  · have hcases := alloc_fd_cases s
    rw [init_of_initialized hinit, halloc] at hcases
    rcases hcases with ⟨i, -, -, heq⟩ | ⟨hfull, heq⟩
    · cases (Prod.mk.inj heq).1
    · obtain ⟨-, rfl⟩ := Prod.mk.inj heq
      refine .fails (fun _ new _ hnew => ?_) ⟨rfl, rfl⟩
      exact Bool.false_ne_true (hnew.2.symm.trans (hfull new (mem_slots.mpr hnew.1)))
  · obtain ⟨hslot, hfree, rfl⟩ := alloc_fd_initialized hinit halloc
    have hne : old ≠ new := by
      rintro rfl
      exact Bool.false_ne_true (hfree.symm.trans huse)
    dsimp only
    rw [copyEntry, setEntry_of_ne hne, setEntry_setEntry]
    exact .copies old new (s.fd_table old) hold ⟨hslot, hfree⟩ huse rfl rfl ⟨rfl, rfl⟩

/-- The copy dup2 makes, where it has closed what was there. -/
theorem overwrite_kept (s : FileState fm) (old new : Fd) :
    SameTable (s.setEntry new { s.fd_table old with inUse := true }) (s.overwrite old new) := by
  refine ⟨?_, rfl⟩
  funext k
  rcases eq_or_ne k new with rfl | hne
  · rw [overwrite_self, setEntry_self]
  · rw [overwrite_of_ne hne, setEntry_of_ne hne]

/-- dup2 copies to the number it is given, over whatever is open there, and fails only where that is out of
    range or the descriptor is not open. -/
theorem dup2_step (s : FileState fm) (oldfd newfd : ℤ) :
    CopyStep s oldfd (fun new => newfd = new) (s.dup2 oldfd newfd) := by
  rcases hold : s.get_fd_entry oldfd with _ | old
  · rw [dup2, hold]
    refine .fails (fun old _ hsome => ?_) ⟨rfl, rfl⟩
    cases hold.symm.trans hsome
  by_cases hrange : 0 ≤ newfd ∧ newfd < POSIX9_OPEN_MAX
  · obtain ⟨new, rfl⟩ : ∃ new : Fd, newfd = new.val :=
      ⟨⟨newfd.toNat, by omega⟩, (Int.toNat_of_nonneg hrange.1).symm⟩
    have hfst : (s.dup2 oldfd new).1 = new := by
      rw [dup2, hold]
      dsimp only
      rw [dif_pos hrange]
    rw [← Prod.eta (s.dup2 oldfd new), hfst, dup2_eq hold rfl]
    split
    · rename_i hheld
      have hclosed := closeEntry_kept ⟨hheld.1, by simpa using hheld.2⟩
      -- dup2(fd, fd) closes the entry it then copies: its flags and isStdio survive the close
      have hentry : ((s.closeEntry new).2.fd_table old).flags = (s.fd_table old).flags ∧
          ((s.closeEntry new).2.fd_table old).isStdio = (s.fd_table old).isStdio := by
        rw [hclosed.table]
        rcases eq_or_ne old new with rfl | hne
        · rw [setEntry_self]
          exact ⟨rfl, rfl⟩
        · rw [setEntry_of_ne hne]
          exact ⟨rfl, rfl⟩
      refine .copies old new { (s.closeEntry new).2.fd_table old with inUse := true } hold rfl rfl hentry.1
        hentry.2 (SameTable.trans ?_ (overwrite_kept (s.closeEntry new).2 old new))
      refine ⟨?_, hclosed.initialized⟩
      rw [(hclosed.setEntry new _).table, setEntry_setEntry]
    · exact .copies old new { s.fd_table old with inUse := true } hold rfl rfl rfl rfl (overwrite_kept s old new)
  · rw [dup2, hold]
    dsimp only
    rw [dif_neg hrange]
    refine .fails (fun _ new _ hnew => hrange ?_) ⟨rfl, rfl⟩
    have hlt : new.val < POSIX9_OPEN_MAX := new.isLt
    omega

/-! ### read, write, lseek, ftruncate -/

/-- read moves the mark of its file and writes errno. The table it only reads. -/
theorem read_kept (s : FileState fm) (fd : ℤ) (count : ℕ) : SameTable s (s.read fd count).2 := by
  rw [read]
  split
  · exact ⟨rfl, rfl⟩
  dsimp only
  split
  · exact ⟨rfl, rfl⟩
  · split
    · exact ⟨rfl, rfl⟩
    · split <;> exact ⟨rfl, rfl⟩

/-- write does, too, with the seek to the end in front that O_APPEND asks for. -/
theorem write_kept (s : FileState fm) (fd : ℤ) (buf : List UInt8) : SameTable s (s.write fd buf).2 := by
  rw [write]
  split
  · exact ⟨rfl, rfl⟩
  rename_i i hi
  dsimp only
  split
  · split <;> exact ⟨rfl, rfl⟩
  · obtain ⟨hseek, hseekInit⟩ := seekEnd_table s (s.fd_table i).flags (s.ledger.origin i) (s.fd_table i).refNum
    split <;> exact ⟨hseek, hseekInit⟩

theorem lseek_kept (s : FileState fm) (fd offset whence : ℤ) : SameTable s (s.lseek fd offset whence).2 := by
  rw [lseek]
  split
  · exact ⟨rfl, rfl⟩
  dsimp only
  split
  · exact ⟨rfl, rfl⟩
  · split
    · exact ⟨rfl, rfl⟩
    · split
      · exact ⟨rfl, rfl⟩
      · split <;> exact ⟨rfl, rfl⟩

theorem ftruncate_kept (s : FileState fm) (fd length : ℤ) : SameTable s (s.ftruncate fd length).2 := by
  rw [ftruncate]
  split
  · exact ⟨rfl, rfl⟩
  dsimp only
  split
  · exact ⟨rfl, rfl⟩
  · split <;> exact ⟨rfl, rfl⟩

end FileState
end Posix9
