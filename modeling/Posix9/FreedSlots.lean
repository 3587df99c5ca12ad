import Mathlib.Data.Fintype.Card
import Posix9.TableSteps

/-! Whether close frees the slot. It leaves an entry marked as stdio alone, and dup and dup2 copy the mark
    along with the rest of the entry, to slots that are not stdio. -/

namespace Posix9
open Runs

namespace FileState

variable {fm : FileManager} {s t : FileState fm} {i j : Fd} {held held' : Fd → Bool}

/-! ### Runs -/

/-- A call that gives back a descriptor has obtained it. -/
def obtained (held : Fd → Bool) (result : ℤ) (i : Fd) : Bool := result = i || held i

/-- close has given a descriptor back where it returns 0. -/
def released (held : Fd → Bool) (fd result : ℤ) (i : Fd) : Bool := !(fd = i && result = 0) && held i

/-- The descriptors obtained from open, dup and dup2 and not closed successfully since. -/
def holding (s : FileState fm) (held : Fd → Bool) : FileCall → Fd → Bool
  | .open_ path flags => obtained held (s.open_ path flags).1
  | .dup oldfd => obtained held (s.dup oldfd).1
  | .dup2 oldfd newfd => obtained held (s.dup2 oldfd newfd).1
  | .close fd => released held fd (s.close fd).1
  | _ => held

/-- The table beside what the program still has to close. -/
structure Tally (fm : FileManager) where
  state : FileState fm
  held : Fd → Bool

def Tally.start (mac : fm.State) (socket_inUse : Fin MAX_SOCKETS → Bool) : Tally fm :=
  ⟨FileState.start mac socket_inUse, fun _ => false⟩

def Tally.step (x : Tally fm) (c : TableCall) : Tally fm :=
  ⟨x.state.step c, x.state.holding x.held c⟩

/-! ### The law -/

/-- What a descriptor is behind a close that frees it. -/
structure Freed (t : FileState fm) (fd : ℤ) : Prop where
  unused : ∀ i : Fd, fd = i → (t.fd_table i).inUse = false
  again : (t.close fd).1 = -1 ∧ (t.close fd).2.posix9_errno = EBADF
  /-- Allocating over and over gets to it. -/
  allocatable : ∃ i : Fd, fd = i ∧ ∃ n, ((fun t => t.alloc_fd.2)^[n] t).alloc_fd.1 = some i

structure FreesSlots (x : Tally fm) : Prop where
  close : ∀ fd : ℤ, 3 ≤ fd → x.state.posix9_is_socket fd = false → (x.state.close fd).1 = 0 →
    Freed (x.state.close fd).2 fd
  all : (∀ i, x.held i = false) → ∀ i : Fd, 3 ≤ i.val → (x.state.fd_table i).inUse = false

/-! ### The condition -/

/-- The calls that copy no stdio entry to a slot behind stdio. -/
def KeepsMarks (s : FileState fm) : FileCall → Prop
  | .dup oldfd => ∀ old, s.get_fd_entry oldfd = some old → (s.fd_table old).isStdio = true → s.Full
  | .dup2 oldfd newfd => ∀ old, s.get_fd_entry oldfd = some old → (s.fd_table old).isStdio = true →
      ¬(3 ≤ newfd ∧ newfd < POSIX9_OPEN_MAX)
  | _ => True

/-! ### The invariant -/

/-- No slot behind stdio has the mark, and what is in use there is held. -/
structure Sound (s : FileState fm) (held : Fd → Bool) : Prop where
  idle : s.Idle
  unmarked : ∀ i : Fd, 3 ≤ i.val → (s.fd_table i).isStdio = false
  held : ∀ i : Fd, 3 ≤ i.val → (s.fd_table i).inUse = true → held i = true

theorem Sound.start (mac : fm.State) (socket_inUse : Fin MAX_SOCKETS → Bool) :
    Sound (FileState.start mac socket_inUse) fun _ => false :=
  ⟨fun _ _ => rfl, fun _ _ => rfl, fun _ _ huse => huse⟩

theorem Sound.congr (h : Sound s held) (hkept : SameTable s t) : Sound t held := by
  refine ⟨hkept.idle h.idle, ?_, ?_⟩ <;> rw [hkept.table]
  · exact h.unmarked
  · exact h.held

theorem Sound.mono (h : Sound s held) (hmono : ∀ i : Fd, 3 ≤ i.val → (s.fd_table i).inUse = true →
    held i = true → held' i = true) : Sound s held' :=
  ⟨h.idle, h.unmarked, fun i hi huse => hmono i hi huse (h.held i hi huse)⟩

theorem Sound.init (h : Sound s held) : Sound s.init_fd_table held := by
  rw [init_fd_table]
  split
  · exact h
  · have hslot : ∀ i : Fd, 3 ≤ i.val → decide (i = STDIN_FILENO ∨ i = STDOUT_FILENO ∨ i = STDERR_FILENO) =
        false := by
      intro i hi
      rw [decide_eq_false_iff_not]
      rintro (rfl | rfl | rfl) <;> exact absurd hi (by decide)
    refine ⟨idle_of_initialized rfl, hslot, fun i hi huse => ?_⟩
    exact absurd (huse.symm.trans (hslot i hi)) (by decide)

theorem Sound.put (h : Sound s held) (hinit : s.fd_table_initialized = true) {e : FdEntry}
    (hstdio : 3 ≤ i.val → e.isStdio = false) (hheld : e.inUse = true → held' i = true)
    (hmono : ∀ j, j ≠ i → held j = true → held' j = true) : Sound (s.setEntry i e) held' := by
  refine ⟨idle_of_initialized hinit, fun j hj => ?_, fun j hj huse => ?_⟩
  · rcases eq_or_ne j i with rfl | hne
    · rw [setEntry_self]
      exact hstdio hj
    · rw [setEntry_of_ne hne]
      exact h.unmarked j hj
  · rcases eq_or_ne j i with rfl | hne
    · rw [setEntry_self] at huse
      exact hheld huse
    · rw [setEntry_of_ne hne] at huse
      exact hmono j hne (h.held j hj huse)

theorem obtained_self (held : Fd → Bool) (i : Fd) : obtained held i i = true := by simp [obtained]

theorem obtained_mono {result : ℤ} (hj : held j = true) : obtained held result j = true := by
  simp [obtained, hj]

theorem Sound.obtains (h : Sound s held) (result : ℤ) : Sound s (obtained held result) :=
  h.mono fun _ _ _ hi => obtained_mono hi

theorem Sound.open_ (h : Sound s held) {flags : BitVec 32} {r : ℤ × FileState fm} (hr : OpenStep s flags r) :
    Sound r.2 (obtained held r.1) := by
  cases hr with
  | fails hkept => exact (h.init.congr hkept).obtains (-1)
  | takes i e hslot hfree huse hflags hstdio hkept =>
    refine Sound.congr ?_ hkept
    refine h.init.put init_initialized (fun hi => ?_) (fun _ => obtained_self held i) fun j _ hj => obtained_mono hj
    rw [hstdio]
    exact h.init.unmarked i hi

theorem Sound.close (h : Sound s held) {fd : ℤ} {r : ℤ × FileState fm} (hr : CloseStep s fd r) :
    Sound r.2 (released held fd r.1) := by
  cases hr with
  | refuses hfd hkept =>
    refine Sound.congr (h.mono fun i _ huse hi => ?_) hkept
    have hne : ¬(fd = i) := fun heq => Bool.false_ne_true ((hfd i heq).symm.trans huse)
    simp [released, hne, hi]
  | spares i hfd hstdio =>
    refine h.mono fun j hj _ hheld => ?_
    have hne : ¬(fd = j) := by
      rintro rfl
      obtain rfl : j = i := Fin.ext (Int.ofNat.inj hfd)
      exact Bool.false_ne_true ((h.unmarked j hj).symm.trans hstdio)
    simp [released, hne, hheld]
  | frees i hfd hi hkept =>
    subst hfd
    refine Sound.congr ?_ hkept
    refine h.put (h.idle.initialized hi.1) (fun _ => hi.2) (fun habs => ?_) fun j hne hj => ?_
    · cases habs
    · have hother : ¬((i : ℤ) = j) := fun heq => hne (Fin.ext (Int.ofNat.inj heq)).symm
      simp [released, hother, hj]

theorem Sound.copy (h : Sound s held) {oldfd : ℤ} {target : Fd → Prop} {r : ℤ × FileState fm}
    (hr : CopyStep s oldfd target r) (hC : ∀ old new, s.get_fd_entry oldfd = some old → target new → 3 ≤ new.val →
      (s.fd_table old).isStdio = false) : Sound r.2 (obtained held r.1) := by
  cases hr with
  | fails hno hkept => exact (h.congr hkept).obtains (-1)
  | copies old new e hold hnew huse hflags hstdio hkept =>
    have hinit := h.idle.initialized (get_fd_entry_eq_some.mp hold).2
    refine Sound.congr (h.put hinit (fun hslot => ?_) (fun _ => obtained_self held new)
      fun j _ hj => obtained_mono hj) hkept
    rw [hstdio]
    exact hC old new hold hnew hslot

theorem Sound.step (h : Sound s held) (c : TableCall) (hC : s.KeepsMarks c) :
    Sound (s.step c) (s.holding held c) := by
  obtain ⟨c, hc⟩ := c
  cases c with
  | open_ path flags => exact h.open_ (open_step s path flags)
  | close fd => exact h.close (close_step s fd)
  | dup oldfd =>
    refine h.copy (dup_step h.idle oldfd) fun old new hold hnew _ => ?_
    by_contra hmark
    have hfull := hC old hold (by simpa using hmark) new (mem_slots.mpr hnew.1)
    rw [init_of_initialized (h.idle.initialized (get_fd_entry_eq_some.mp hold).2), hnew.2] at hfull
    cases hfull
  | dup2 oldfd newfd =>
    refine h.copy (dup2_step s oldfd newfd) fun old new hold hnew hslot => ?_
    by_contra hmark
    have hlt : new.val < POSIX9_OPEN_MAX := new.isLt
    exact hC old hold (by simpa using hmark) ⟨by omega, by omega⟩
  | read fd count => exact h.congr (read_kept s fd count)
  | write fd buf => exact h.congr (write_kept s fd buf)
  | lseek fd offset whence => exact h.congr (lseek_kept s fd offset whence)
  | ftruncate fd length => exact h.congr (ftruncate_kept s fd length)
  | posix9_cleanup => exact absurd rfl hc

/-! ### What the invariant gives -/

/-- Allocating takes one free slot at a time, so it gets to each of them. -/
theorem allocates (t : FileState fm) (hinit : t.fd_table_initialized = true) (hslot : 3 ≤ i.val)
    (hfree : (t.fd_table i).inUse = false) : ∃ n, ((fun t => t.alloc_fd.2)^[n] t).alloc_fd.1 = some i := by
  generalize hk : (Finset.univ.filter fun j : Fd => (t.fd_table j).inUse = false).card = k
  induction k using Nat.strong_induction_on generalizing t with
  | _ k ih =>
    have hcases := alloc_fd_cases t
    rw [init_of_initialized hinit] at hcases
    rcases hcases with ⟨j, -, hjfree, halloc⟩ | ⟨hfull, -⟩
    · rcases eq_or_ne i j with rfl | hne
      · exact ⟨0, congrArg Prod.fst halloc⟩
      · have hnext : t.alloc_fd.2 = t.setEntry j { t.fd_table j with inUse := true } := congrArg Prod.snd halloc
        have hfewer : (Finset.univ.filter fun j : Fd => (t.alloc_fd.2.fd_table j).inUse = false) ⊂
            Finset.univ.filter fun j : Fd => (t.fd_table j).inUse = false := by
          rw [hnext, Finset.ssubset_iff_of_subset]
          · refine ⟨j, by simpa using hjfree, ?_⟩
            simp [setEntry_self]
          · intro k hk
            rcases eq_or_ne k j with rfl | hkj
            · simpa using hjfree
            · simpa [setEntry_of_ne hkj] using hk
        obtain ⟨n, hn⟩ := ih _ (hk ▸ Finset.card_lt_card hfewer) t.alloc_fd.2 (by rw [hnext]; exact hinit)
          (by rw [hnext, setEntry_of_ne hne]; exact hfree) rfl
        exact ⟨n + 1, hn⟩
    · rw [hfull i (mem_slots.mpr hslot)] at hfree
      cases hfree

theorem close_unused (hfree : (t.fd_table i).inUse = false) : t.close i = t.badFd := by
  have hentry : t.get_fd_entry i = none := by
    rw [Option.eq_none_iff_forall_ne_some]
    intro j hj
    obtain ⟨hij, huse⟩ := get_fd_entry_eq_some.mp hj
    obtain rfl : i = j := Fin.ext (Int.ofNat.inj hij)
    exact Bool.false_ne_true (hfree.symm.trans huse)
  rw [close, not_socket, hentry]
  rfl

theorem Sound.freesSlots (h : Sound s held) : FreesSlots ⟨s, held⟩ := by
  refine ⟨fun fd hfd hsocket hresult => ?_, fun hnone i hi => ?_⟩
  · dsimp only at hsocket hresult ⊢
    rcases hentry : s.get_fd_entry fd with _ | i
    · rw [FileState.close, if_neg (by simp [hsocket]), hentry] at hresult
      exact absurd hresult (by simp [badFd])
    · obtain ⟨rfl, huse⟩ := get_fd_entry_eq_some.mp hentry
      have hslot : 3 ≤ i.val := by omega
      have hi : s.Holds i := ⟨huse, h.unmarked i hslot⟩
      have hkept := closeEntry_kept hi
      rw [← close_eq rfl huse] at hkept
      have hfree : ((s.close i).2.fd_table i).inUse = false := by rw [hkept.table, setEntry_self]
      have hinit : (s.close i).2.fd_table_initialized = true :=
        hkept.initialized.trans (h.idle.initialized huse)
      refine ⟨fun j hj => ?_, ?_, i, rfl, allocates _ hinit hslot hfree⟩
      · obtain rfl : i = j := Fin.ext (Int.ofNat.inj hj)
        exact hfree
      · rw [close_unused hfree]
        exact ⟨rfl, rfl⟩
  · by_contra huse
    have hheld := h.held i hi (by simpa using huse)
    exact Bool.false_ne_true ((hnone i).symm.trans hheld)

/-- An entry with the mark in a slot behind stdio is never freed. -/
theorem FreesSlots.unmarked (h : FreesSlots ⟨s, held⟩) (hi : 3 ≤ i.val) (huse : (s.fd_table i).inUse = true) :
    (s.fd_table i).isStdio = false := by
  by_contra hmark
  have hclose : s.close i = (0, s) := by
    rw [close_eq rfl huse, closeEntry, if_pos (by simpa using hmark)]
  have hfreed := h.close i (by omega) (not_socket i) (congrArg Prod.fst hclose)
  have hunused : ((s.close i).2.fd_table i).inUse = false := hfreed.unused i rfl
  rw [hclose, huse] at hunused
  cases hunused

/-- No stdio entry has been copied behind stdio. -/
theorem not_copied {oldfd : ℤ} {target : Fd → Prop} {r : ℤ × FileState fm} (hr : CopyStep s oldfd target r)
    (hnext : FreesSlots ⟨r.2, held⟩) {old new : Fd} (hold : s.get_fd_entry oldfd = some old)
    (hmark : (s.fd_table old).isStdio = true) (hslots : ∀ j, target j → 3 ≤ j.val) : ¬ target new := by
  intro hnew
  cases hr with
  | fails hno hkept => exact hno old new hold hnew
  | copies old' k e hold' hk huse hflags hstdio hkept =>
    obtain rfl : old = old' := Option.some.inj (hold.symm.trans hold')
    have hentry := congrFun hkept.table k
    rw [setEntry_self] at hentry
    have hunmarked := hnext.unmarked (i := k) (hslots k hk) ((congrArg FdEntry.inUse hentry).trans huse)
    rw [hentry, hstdio, hmark] at hunmarked
    cases hunmarked

theorem keepsMarks_of_freesSlots (h : Sound s held) (c : TableCall)
    (hnext : FreesSlots ⟨s.step c, s.holding held c⟩) : s.KeepsMarks c := by
  obtain ⟨c, hc⟩ := c
  cases c with
  | dup oldfd =>
    intro old hold hmark new hnew
    rw [init_of_initialized (h.idle.initialized (get_fd_entry_eq_some.mp hold).2)]
    by_contra hfree
    have htarget : new.val ≥ 3 ∧ (s.fd_table new).inUse = false := ⟨mem_slots.mp hnew, by simpa using hfree⟩
    exact not_copied (dup_step h.idle oldfd) hnext hold hmark (fun _ hj => hj.1) htarget
  | dup2 oldfd newfd =>
    rintro old hold hmark ⟨hslot, hlt⟩
    have htarget : newfd = ((⟨newfd.toNat, by omega⟩ : Fd).val : ℤ) := (Int.toNat_of_nonneg (by omega)).symm
    exact not_copied (dup2_step s oldfd newfd) hnext hold hmark (fun _ hj => by omega) htarget
  | open_ | close | read | write | lseek | ftruncate | posix9_cleanup => trivial

/-- Every close that returns 0 frees its slot, in just the runs whose calls of dup and dup2 copy no stdio entry
    to a slot behind stdio. -/
theorem freesSlots_iff_keepsMarks (mac : fm.State) (socket_inUse : Fin MAX_SOCKETS → Bool)
    (calls : List TableCall) : Always Tally.step FreesSlots (.start mac socket_inUse) calls ↔
      Meets Tally.step (fun x c => x.state.KeepsMarks c) (.start mac socket_inUse) calls :=
  always_iff_meets (I := fun x : Tally fm => Sound x.state x.held)
    (fun _ c h hC => h.step c hC) (fun _ h => h.freesSlots) (fun _ c h hnext => keepsMarks_of_freesSlots h c hnext)
    (Sound.start mac socket_inUse)

/-- A copy of standard output is closed with result 0 and stays in use. -/
theorem stdout_copy_stays : ¬ Always Tally.step FreesSlots (.start [] fun _ => false : Tally bareDisk)
    [⟨.open_ "a".toList O_RDWR, nofun⟩, ⟨.dup 1, nofun⟩] := by
  intro h
  have hlast := h.last
  have hunmarked := hlast.unmarked (i := ⟨4, by decide⟩) (by decide) (by decide +kernel)
  exact absurd hunmarked (by decide +kernel)

end FileState
end Posix9
