import Posix9.TableSteps

/-! Whether O_APPEND appends. write moves the mark of its own refNum to the end of the file in front of every
    FSWrite, by the flags that open has stored in the entry and dup has copied with it. -/

namespace Posix9

/-- What is relied on of marks, one for each refNum: SetFPos(r, fsFromLEOF, 0) moves the mark of `r` to the end of
    its file and does nothing else; FSWrite stores what it says it has written at the mark, over what is there and
    behind it, in that file only, and fails where there is no file. -/
structure FileManager.Disk.Marked {fm : FileManager} (disk : fm.Disk) (mark : fm.State → RefNum → ℕ) : Prop where
  seek_leadsTo : ∀ r st, disk.leadsTo (fm.SetFPos r .fsFromLEOF 0 st).2 = disk.leadsTo st
  seek_contents : ∀ r st, disk.contents (fm.SetFPos r .fsFromLEOF 0 st).2 = disk.contents st
  seek : ∀ r st f bytes, disk.leadsTo st r = some f → disk.contents st f = some bytes →
    mark (fm.SetFPos r .fsFromLEOF 0 st).2 r = bytes.length
  write : ∀ r buf st f bytes err n st', disk.leadsTo st r = some f → disk.contents st f = some bytes →
    mark st r ≤ bytes.length → fm.FSWrite r buf st = ((err, n), st') →
    disk.contents st' f = some (bytes.take (mark st r) ++ buf.take n ++ bytes.drop (mark st r + n)) ∧
      ∀ g, g ≠ f → disk.contents st' g = disk.contents st g
  write_nowhere : ∀ r buf st err n st', (∀ f, disk.leadsTo st r = some f → disk.contents st f = none) →
    fm.FSWrite r buf st = ((err, n), st') → err ≠ noErr ∧ disk.contents st' = disk.contents st

open Runs

namespace FileState

variable {fm : FileManager} {disk : fm.Disk} {mark : fm.State → RefNum → ℕ} {s t : FileState fm} {i : Fd}
  {appending : ℤ → Bool}

/-! ### The law -/

/-- A call gives back a descriptor that appends or does not. -/
def noted (appending : ℤ → Bool) (result : ℤ) (appends : Bool) : ℤ → Bool :=
  if result = -1 then appending else Function.update appending result appends

/-- The descriptors opened with O_APPEND, and the duplicates of such. -/
def opensAppending (s : FileState fm) (appending : ℤ → Bool) : FileCall → ℤ → Bool
  | .open_ path flags => noted appending (s.open_ path flags).1 (has flags O_APPEND)
  | .dup oldfd => noted appending (s.dup oldfd).1 (appending oldfd)
  | .dup2 oldfd newfd => noted appending (s.dup2 oldfd newfd).1 (appending oldfd)
  | _ => appending

structure Appender (fm : FileManager) where
  state : FileState fm
  appending : ℤ → Bool

def Appender.start (mac : fm.State) (socket_inUse : Fin MAX_SOCKETS → Bool) : Appender fm :=
  ⟨FileState.start mac socket_inUse, fun _ => false⟩

def Appender.step (x : Appender fm) (c : TableCall) : Appender fm :=
  ⟨x.state.step c, x.state.opensAppending x.appending c⟩

/-- What a write leaves of the files: each as it was, up to what is behind it; where it succeeds, the file of the
    descriptor with as much of the buffer behind it as write says, and the others as they were. -/
structure Appends (disk : fm.Disk) (s : FileState fm) (fd : ℤ) (buf : List UInt8) : Prop where
  grows : ∀ f bytes, disk.contents s.mac f = some bytes →
    ∃ more, disk.contents (s.write fd buf).2.mac f = some (bytes ++ more)
  exact_ : 0 ≤ (s.write fd buf).1 → ∃ (i : Fd) (f : disk.File) (bytes : List UInt8), fd = i ∧
    disk.leadsTo s.mac (s.fd_table i).refNum = some f ∧ disk.contents s.mac f = some bytes ∧
    disk.contents (s.write fd buf).2.mac f = some (bytes ++ buf.take (s.write fd buf).1.toNat) ∧
    ∀ g, g ≠ f → disk.contents (s.write fd buf).2.mac g = disk.contents s.mac g

/-- A write through a descriptor that appends does so. -/
def WritesAppend (disk : fm.Disk) (x : Appender fm) (c : TableCall) : Prop :=
  ∀ fd buf, c.val = .write fd buf → x.appending fd = true → Appends disk x.state fd buf

/-! ### One write -/

theorem Appends.of_same {fd : ℤ} {buf : List UInt8} (hneg : (s.write fd buf).1 = -1)
    (hsame : disk.contents (s.write fd buf).2.mac = disk.contents s.mac) : Appends disk s fd buf := by
  refine ⟨fun f bytes hbytes => ⟨[], ?_⟩, fun hpos => ?_⟩
  · rw [hsame, hbytes, List.append_nil]
  · rw [hneg] at hpos
    exact absurd hpos (by decide)

/-- FSWrite behind the SetFPos of write. -/
theorem writes_at_end (hmarks : disk.Marked mark) {r : RefNum} {buf : List UInt8} {st : fm.State} {f : disk.File}
    {bytes : List UInt8} {err : OSErr} {n : ℕ} {st' : fm.State} (hleads : disk.leadsTo st r = some f)
    (hbytes : disk.contents st f = some bytes)
    (hwrite : fm.FSWrite r buf (fm.SetFPos r .fsFromLEOF 0 st).2 = ((err, n), st')) :
    disk.contents st' f = some (bytes ++ buf.take n) ∧ ∀ g, g ≠ f → disk.contents st' g = disk.contents st g := by
  have hmark := hmarks.seek r st f bytes hleads hbytes
  have hleads' : disk.leadsTo (fm.SetFPos r .fsFromLEOF 0 st).2 r = some f := by
    rw [hmarks.seek_leadsTo, hleads]
  have hbytes' : disk.contents (fm.SetFPos r .fsFromLEOF 0 st).2 f = some bytes := by
    rw [hmarks.seek_contents, hbytes]
  obtain ⟨hstored, hothers⟩ := hmarks.write r buf _ f bytes err n st' hleads' hbytes' (Nat.le_of_eq hmark) hwrite
  rw [hmark, List.take_length, List.drop_eq_nil_of_le (Nat.le_add_right _ n), List.append_nil] at hstored
  refine ⟨hstored, fun g hg => ?_⟩
  rw [hothers g hg, hmarks.seek_contents]

/-- A write of a descriptor that appends: SetFPos, and FSWrite behind it. -/
theorem write_behind_end (hi : s.Holds i) (hflags : has (s.fd_table i).flags O_APPEND = true) (buf : List UInt8) :
    ∃ err n, fm.FSWrite (s.fd_table i).refNum buf (fm.SetFPos (s.fd_table i).refNum .fsFromLEOF 0 s.mac).2 =
        ((err, n), (s.write i buf).2.mac) ∧ (s.write i buf).1 = if err = noErr then (n : ℤ) else -1 := by
  rcases hcall : (s.SetFPos (s.ledger.origin i) (s.fd_table i).refNum .fsFromLEOF 0).2.FSWrite (s.ledger.origin i)
    (s.fd_table i).refNum buf with ⟨⟨err, n⟩, t⟩
  have hwrite : fm.FSWrite (s.fd_table i).refNum buf (fm.SetFPos (s.fd_table i).refNum .fsFromLEOF 0 s.mac).2 =
      ((err, n), t.mac) := by
    rw [FSWrite] at hcall
    obtain ⟨hres, rfl⟩ := Prod.mk.inj hcall
    exact Prod.ext hres rfl
  have hcases : s.write i buf = if err ≠ noErr then t.fail err else ((n : ℤ), t) := by
    rw [write, get_fd_entry_self hi.1]
    dsimp only
    rw [if_neg (by simp [hi.2]), seekEnd, if_pos hflags, hcall]
  refine ⟨err, n, ?_⟩
  rw [hwrite, hcases]
  by_cases herr : err = noErr
  · rw [if_pos herr, if_neg (not_not.mpr herr)]
    exact ⟨rfl, rfl⟩
  · rw [if_neg herr, if_pos herr]
    exact ⟨rfl, rfl⟩

/-- A refNum that leads to no file: nothing is written. -/
theorem writes_nowhere (hmarks : disk.Marked mark) {r : RefNum} {st st' : fm.State} {buf : List UInt8} {err : OSErr}
    {n : ℕ} (hfile : ¬ ∃ f bytes, disk.leadsTo st r = some f ∧ disk.contents st f = some bytes)
    (hwrite : fm.FSWrite r buf (fm.SetFPos r .fsFromLEOF 0 st).2 = ((err, n), st')) :
    err ≠ noErr ∧ disk.contents st' = disk.contents st := by
  have hnowhere : ∀ f, disk.leadsTo (fm.SetFPos r .fsFromLEOF 0 st).2 r = some f →
      disk.contents (fm.SetFPos r .fsFromLEOF 0 st).2 f = none := by
    intro f hleads
    rw [hmarks.seek_leadsTo] at hleads
    rw [hmarks.seek_contents, Option.eq_none_iff_forall_ne_some]
    exact fun bytes hbytes => hfile ⟨f, bytes, hleads, hbytes⟩
  obtain ⟨herr, hsame⟩ := hmarks.write_nowhere r buf _ err n st' hnowhere hwrite
  exact ⟨herr, by rw [hsame, hmarks.seek_contents]⟩

theorem appends_of_flags (hmarks : disk.Marked mark) (hi : s.Holds i)
    (hflags : has (s.fd_table i).flags O_APPEND = true) (buf : List UInt8) : Appends disk s i buf := by
  obtain ⟨err, n, hwrite, hresult⟩ := write_behind_end hi hflags buf
  by_cases hfile : ∃ f bytes, disk.leadsTo s.mac (s.fd_table i).refNum = some f ∧
      disk.contents s.mac f = some bytes
  · obtain ⟨f, bytes, hleads, hbytes⟩ := hfile
    obtain ⟨hstored, hothers⟩ := writes_at_end hmarks hleads hbytes hwrite
    refine ⟨fun g bytes' hbytes' => ?_, fun hpos => ⟨i, f, bytes, rfl, hleads, hbytes, ?_, hothers⟩⟩
    · by_cases hg : g = f
      · subst hg
        obtain rfl : bytes = bytes' := Option.some.inj (hbytes.symm.trans hbytes')
        exact ⟨_, hstored⟩
      · exact ⟨[], by rw [hothers g hg, hbytes', List.append_nil]⟩
    · rw [hstored]
      rw [hresult] at hpos ⊢
      split at hpos
      · rename_i herr
        rw [if_pos herr, Int.toNat_natCast]
      · exact absurd hpos (by decide)
  · obtain ⟨herr, hsame⟩ := writes_nowhere hmarks hfile hwrite
    refine Appends.of_same ?_ hsame
    rw [hresult, if_neg herr]

/-! ### The invariant -/

/-- The entry of a descriptor that appends has O_APPEND among its flags. -/
structure Lasting (s : FileState fm) (appending : ℤ → Bool) : Prop where
  fresh : s.fd_table_initialized = false → ∀ i : Fd, (s.fd_table i).inUse = false ∧ appending i = false
  unmarked : ∀ i, (s.fd_table i).inUse = false → (s.fd_table i).isStdio = false
  flags : ∀ i : Fd, (s.fd_table i).inUse = true → appending i = true →
    (s.fd_table i).isStdio = false ∧ has (s.fd_table i).flags O_APPEND = true

theorem Lasting.start (mac : fm.State) (socket_inUse : Fin MAX_SOCKETS → Bool) :
    Lasting (FileState.start mac socket_inUse) fun _ => false :=
  ⟨fun _ _ => ⟨rfl, rfl⟩, fun _ _ => rfl, fun _ huse => by cases huse⟩

theorem Lasting.idle (h : Lasting s appending) : s.Idle := fun hinit i => (h.fresh hinit i).1

theorem Lasting.congr (h : Lasting s appending) (hkept : SameTable s t) : Lasting t appending := by
  refine ⟨?_, ?_, ?_⟩ <;> rw [hkept.table]
  · rw [hkept.initialized]
    exact h.fresh
  · exact h.unmarked
  · exact h.flags

theorem Lasting.init (h : Lasting s appending) : Lasting s.init_fd_table appending := by
  rw [init_fd_table]
  split
  · exact h
  · rename_i hinit
    refine ⟨fun habs => ?_, fun i huse => huse, fun i _ happending => ?_⟩
    · cases habs
    · rw [(h.fresh (by simpa using hinit) i).2] at happending
      cases happending

theorem Lasting.put (h : Lasting s appending) (hinit : s.fd_table_initialized = true) {e : FdEntry} {appends : Bool}
    (huse : e.inUse = true) (hflags : appends = true → e.isStdio = false ∧ has e.flags O_APPEND = true) :
    Lasting (s.setEntry i e) (noted appending i appends) := by
  have hok : ¬((i : ℤ) = -1) := fd_ne_neg_one i
  rw [noted, if_neg hok]
  refine ⟨fun habs => ?_, fun j hfree => ?_, fun j hj happending => ?_⟩
  · exact absurd (hinit.symm.trans habs) (by decide)
  · rcases eq_or_ne j i with rfl | hne
    · rw [setEntry_self, huse] at hfree
      cases hfree
    · rw [setEntry_of_ne hne] at hfree ⊢
      exact h.unmarked j hfree
  · rcases eq_or_ne j i with rfl | hne
    · rw [setEntry_self]
      exact hflags (by rwa [Function.update_self] at happending)
    · rw [setEntry_of_ne hne] at hj ⊢
      have hcast : (j : ℤ) ≠ i := fun heq => hne (Fin.ext (Int.ofNat.inj heq))
      rw [Function.update_of_ne hcast] at happending
      exact h.flags j hj happending

theorem Lasting.open_ (h : Lasting s appending) {flags : BitVec 32} {r : ℤ × FileState fm}
    (hr : OpenStep s flags r) : Lasting r.2 (noted appending r.1 (has flags O_APPEND)) := by
  cases hr with
  | fails hkept => exact h.init.congr hkept
  | takes i e hslot hfree huse hflags hstdio hkept =>
    refine Lasting.congr (h.init.put init_initialized huse fun happends => ⟨?_, ?_⟩) hkept
    · rw [hstdio, h.init.unmarked i hfree]
    · rw [hflags, happends]

theorem Lasting.close (h : Lasting s appending) {fd : ℤ} {r : ℤ × FileState fm} (hr : CloseStep s fd r) :
    Lasting r.2 appending := by
  cases hr with
  | refuses hfd hkept => exact h.congr hkept
  | spares i hfd hstdio => exact h
  | frees i hfd hi hkept =>
    refine Lasting.congr ⟨fun habs => ?_, fun j hfree => ?_, fun j hj happending => ?_⟩ hkept
    · exact absurd ((h.idle.initialized hi.1).symm.trans habs) (by decide)
    · rcases eq_or_ne j i with rfl | hne
      · rw [setEntry_self]
        exact hi.2
      · rw [setEntry_of_ne hne] at hfree ⊢
        exact h.unmarked j hfree
    · rcases eq_or_ne j i with rfl | hne
      · rw [setEntry_self] at hj
        cases hj
      · rw [setEntry_of_ne hne] at hj ⊢
        exact h.flags j hj happending

theorem Lasting.copy (h : Lasting s appending) {oldfd : ℤ} {target : Fd → Prop} {r : ℤ × FileState fm}
    (hr : CopyStep s oldfd target r) : Lasting r.2 (noted appending r.1 (appending oldfd)) := by
  cases hr with
  | fails hno hkept => exact h.congr hkept
  | copies old new e hold hnew huse hflags hstdio hkept =>
    obtain ⟨rfl, hused⟩ := get_fd_entry_eq_some.mp hold
    refine Lasting.congr (h.put (h.idle.initialized hused) huse fun happends => ?_) hkept
    rw [hstdio, hflags]
    exact h.flags old hused happends

theorem Lasting.step (h : Lasting s appending) (c : TableCall) :
    Lasting (s.step c) (s.opensAppending appending c) := by
  obtain ⟨c, hc⟩ := c
  cases c with
  | open_ path flags => exact h.open_ (open_step s path flags)
  | close fd => exact h.close (close_step s fd)
  | dup oldfd => exact h.copy (dup_step h.idle oldfd)
  | dup2 oldfd newfd => exact h.copy (dup2_step s oldfd newfd)
  | read fd count => exact h.congr (read_kept s fd count)
  | write fd buf => exact h.congr (write_kept s fd buf)
  | lseek fd offset whence => exact h.congr (lseek_kept s fd offset whence)
  | ftruncate fd length => exact h.congr (ftruncate_kept s fd length)
  | posix9_cleanup => exact absurd rfl hc

theorem Lasting.appends (hmarks : disk.Marked mark) (h : Lasting s appending) {fd : ℤ}
    (happending : appending fd = true) (buf : List UInt8) : Appends disk s fd buf := by
  rcases hentry : s.get_fd_entry fd with _ | i
  · have hbad : s.write fd buf = s.badFd := by rw [FileState.write, hentry]
    exact Appends.of_same (congrArg Prod.fst hbad) (congrArg (fun x => disk.contents x.2.mac) hbad)
  · obtain ⟨rfl, huse⟩ := get_fd_entry_eq_some.mp hentry
    obtain ⟨hstdio, hflags⟩ := h.flags i huse happending
    exact appends_of_flags hmarks ⟨huse, hstdio⟩ hflags buf

/-- In every run, each write through a descriptor opened with O_APPEND, or through a duplicate of one, appends. -/
theorem writes_append (hmarks : disk.Marked mark) (mac : fm.State) (socket_inUse : Fin MAX_SOCKETS → Bool)
    (calls : List TableCall) : Meets Appender.step (WritesAppend disk) (.start mac socket_inUse) calls :=
  meets_of_step (I := fun x : Appender fm => Lasting x.state x.appending) (fun _ c h => h.step c)
    (fun _ _ h _ buf _ happending => h.appends hmarks happending buf) (Lasting.start mac socket_inUse) calls

/-! ### A file with two marks -/

/-- The mark of an access path in memory. -/
def ramMark (st : RamDisk) (r : RefNum) : ℕ := ((st.paths r).map Prod.snd).getD 0

theorem lookup_of_file {st : RamDisk} {r : RefNum} {f : FSSpec} {bytes : List UInt8}
    (hleads : (st.paths r).map Prod.fst = some f) (hbytes : st.files f = some bytes) :
    st.lookup r = some (f, ramMark st r, bytes) := by
  obtain ⟨⟨f', m⟩, hpath, rfl⟩ := Option.map_eq_some_iff.mp hleads
  rw [RamDisk.lookup, ramMark, hpath]
  dsimp only
  rw [hbytes]
  rfl

section Found

variable {st st' : RamDisk} {r : RefNum} {f : FSSpec} {m n : ℕ} {bytes buf : List UInt8} {err : OSErr}

theorem setPos_end (h : st.lookup r = some (f, m, bytes)) :
    RamDisk.setPos r .fsFromLEOF 0 st = (noErr, st.setMark r f bytes.length) := by
  have hpos : ¬((bytes.length : ℤ) + 0 < 0) := by omega
  have hend : ¬((bytes.length : ℤ) < bytes.length + 0) := by omega
  rw [RamDisk.setPos, h]
  dsimp only [RamDisk.target]
  rw [if_neg hpos, if_neg hend, Int.add_zero, Int.toNat_natCast]

theorem setPos_end_leadsTo (r : RefNum) (st : RamDisk) :
    ramFiles.leadsTo (RamDisk.setPos r .fsFromLEOF 0 st).2 = ramFiles.leadsTo st := by
  rcases h : st.lookup r with _ | ⟨f, m, bytes⟩
  · rw [RamDisk.setPos, h]
  · rw [setPos_end h]
    funext q
    change (Function.update st.paths r (some (f, bytes.length)) q).map Prod.fst = (st.paths q).map Prod.fst
    rcases eq_or_ne q r with rfl | hne
    · rw [Function.update_self, (RamDisk.lookup_eq_some h).1]
      rfl
    · rw [Function.update_of_ne hne]

theorem setPos_end_mark (hleads : (st.paths r).map Prod.fst = some f) (hbytes : st.files f = some bytes) :
    ramMark (RamDisk.setPos r .fsFromLEOF 0 st).2 r = bytes.length := by
  rw [setPos_end (lookup_of_file hleads hbytes), ramMark, RamDisk.setMark]
  dsimp only
  rw [Function.update_self]
  rfl

theorem write_found (hleads : (st.paths r).map Prod.fst = some f) (hbytes : st.files f = some bytes)
    (hwrite : RamDisk.write r buf st = ((err, n), st')) :
    st'.files f = some (bytes.take (ramMark st r) ++ buf.take n ++ bytes.drop (ramMark st r + n)) ∧
      ∀ g, g ≠ f → st'.files g = st.files g := by
  rw [RamDisk.write, lookup_of_file hleads hbytes] at hwrite
  obtain ⟨hres, rfl⟩ := Prod.mk.inj hwrite
  obtain ⟨-, rfl⟩ := Prod.mk.inj hres
  refine ⟨?_, fun g hg => Function.update_of_ne hg _ _⟩
  rw [List.take_length]
  exact Function.update_self ..

theorem write_nowhere (hnowhere : ∀ f, (st.paths r).map Prod.fst = some f → st.files f = none)
    (hwrite : RamDisk.write r buf st = ((err, n), st')) : err ≠ noErr ∧ st'.files = st.files := by
  have hlookup : st.lookup r = none := by
    rw [Option.eq_none_iff_forall_ne_some]
    rintro ⟨f, m, bytes⟩ hsome
    obtain ⟨hpath, hfile⟩ := RamDisk.lookup_eq_some hsome
    have hnone := hnowhere f (congrArg (Option.map Prod.fst) hpath)
    exact Option.some_ne_none _ (hfile.symm.trans hnone)
  rw [RamDisk.write, hlookup] at hwrite
  obtain ⟨hres, rfl⟩ := Prod.mk.inj hwrite
  obtain ⟨rfl, -⟩ := Prod.mk.inj hres
  exact ⟨by decide, rfl⟩

end Found

theorem ramFiles_marked : ramFiles.Marked ramMark where
  seek_leadsTo := setPos_end_leadsTo
  seek_contents r st := RamDisk.setPos_files r .fsFromLEOF 0 st
  seek _ _ _ _ hleads hbytes := setPos_end_mark hleads hbytes
  write _ _ _ _ _ _ _ _ hleads hbytes _ hwrite := write_found hleads hbytes hwrite
  write_nowhere _ _ _ _ _ _ hnowhere hwrite := write_nowhere hnowhere hwrite

/-- Two descriptors on one log file and a duplicate: the seek back and the other's writes do no harm. -/
theorem writes_append_log : Meets Appender.step (WritesAppend ramFiles) (.start RamDisk.empty fun _ => false)
    [⟨.open_ "log".toList (O_CREAT ||| O_WRONLY ||| O_APPEND), nofun⟩, ⟨.write 3 [1, 2], nofun⟩,
      ⟨.open_ "log".toList O_WRONLY, nofun⟩, ⟨.dup 3, nofun⟩, ⟨.lseek 5 0 0, nofun⟩, ⟨.write 4 [3, 4, 5], nofun⟩,
      ⟨.write 5 [6], nofun⟩] :=
  writes_append ramFiles_marked RamDisk.empty (fun _ => false) _

end FileState
end Posix9
