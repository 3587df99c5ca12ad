import Posix9.Cleanup
import Posix9.Creation
import Posix9.Directory
import Mathlib.Data.Int.ModEq

/-! What identifies a file. stat and fstat take the ID of the directory a file is in for its inode number,
    readdir takes the ID of the file, and each of them puts it into 16 bits. -/

namespace Posix9

variable {fm : FileManager}

/-- The path leads to an object: the specification made of it, and what the catalog says of the object. -/
structure Leads (cat : fm.Catalog) (mac : fm.State) (path : CStr) (spec : FSSpec) (obj : CatRec) : Prop where
  made : fm.FSMakeFSSpec (basicPPath path) mac = (noErr, spec)
  named : cat.named spec mac = (noErr, obj)

/-- The next entry of a stream in use is that object. -/
structure DirState.NextEntry (cat : fm.Catalog) (s : DirState fm) (d : DirIdx) (name : Str255) (spec : FSSpec)
    (obj : CatRec) : Prop where
  inUse : (s.dir_pool d).inUse = true
  vRefNum : spec.vRefNum = (s.dir_pool d).vRefNum
  parID : spec.parID = (s.dir_pool d).dirID
  entry : cat.catInfo (s.dir_pool d).vRefNum (s.dir_pool d).dirID name (s.dir_pool d).index s.mac = (noErr, obj)

/-- What tells one file from another. -/
def Stat.identity (buf : Stat) : BitVec 16 × BitVec 16 := (buf.st_dev, buf.st_ino)

theorem ofInt_eq_iff {a b : ℤ} : BitVec.ofInt 16 a = BitVec.ofInt 16 b ↔ a ≡ b [ZMOD 65536] := by
  rw [← BitVec.toNat_inj, BitVec.toNat_ofInt, BitVec.toNat_ofInt, Int.ModEq]
  omega

/-! ### Each of the calls -/

namespace FileState

variable {cat : fm.Catalog} {s t : FileState fm} {path : CStr} {spec : FSSpec} {obj : CatRec} {flags : BitVec 32}
  {i : Fd}

theorem stat_identity (h : Leads cat s.mac path spec obj) :
    (s.stat cat path).1.2.identity = (BitVec.ofInt 16 spec.vRefNum, BitVec.ofInt 16 spec.parID) := by
  rw [stat, h.made]
  dsimp only
  rw [h.named]
  dsimp only
  cases obj.isDirectory <;> rfl

/-- The entry of a file in use. -/
structure Opened (s : FileState fm) (i : Fd) (spec : FSSpec) : Prop where
  inUse : (s.fd_table i).inUse = true
  isStdio : (s.fd_table i).isStdio = false
  vRefNum : (s.fd_table i).vRefNum = spec.vRefNum
  dirID : (s.fd_table i).dirID = spec.parID

theorem openFork_opened (hinit : t.fd_table_initialized = true)
    (hstdio : ∀ i, (t.fd_table i).isStdio = true → (t.fd_table i).inUse = true)
    (h : (t.openFork flags spec).1 = i) : (t.openFork flags spec).2.Opened i spec := by
  rcases openFork_table hinit flags spec with ⟨u, hopen, -, -⟩ | ⟨j, refNum, u, hopen, -, hfree, htable, -⟩
  · rw [hopen] at h
    exact absurd h.symm (fd_ne_neg_one i)
  · rw [hopen] at h ⊢
    have hfd : (j : ℤ) = i := h
    obtain rfl : j = i := Fin.ext (by exact_mod_cast hfd)
    have hfile : (t.fd_table j).isStdio = false := by
      refine Bool.eq_false_iff.mpr fun habs => ?_
      rw [hstdio j habs] at hfree
      cases hfree
    have hentry : u.fd_table j = openedEntry (t.fd_table j) refNum spec flags := by
      rw [htable, setEntry_self]
    exact ⟨by rw [hentry, openedEntry], by rw [hentry, openedEntry, hfile], by rw [hentry, openedEntry],
      by rw [hentry, openedEntry]⟩

/-- The entry open makes of a file that is there. -/
theorem open_opened (hfm : fm.Lawful) (hs : s.Tracked 0)
    (hmade : fm.FSMakeFSSpec (basicPPath path) s.mac = (noErr, spec))
    (h : (s.open_ path flags).1 = i) : (s.open_ path flags).2.Opened i spec := by
  have hpresent : ¬(noErr = fnfErr ∧ has flags O_CREAT = true) := fun habs => absurd habs.1 (by decide)
  obtain ⟨hinit, hready⟩ := hs.init hfm
  rw [open_resolves hmade hpresent] at h ⊢
  rw [openResolved] at h ⊢
  split at h
  · exact absurd h.symm (fd_ne_neg_one i)
  rename_i hexcl
  rw [if_neg hexcl]
  exact openFork_opened hready hinit.stdio h

theorem fstat_st_ino (h : t.Opened i spec) {buf : Stat} (hok : (t.fstat cat.toInfo i buf).1.1 = 0) :
    (t.fstat cat.toInfo i buf).1.2.st_ino = BitVec.ofInt 16 spec.parID := by
  have hentry : t.get_fd_entry i = some i := get_fd_entry_eq_some.mpr ⟨rfl, h.inUse⟩
  rw [fstat, hentry] at hok ⊢
  dsimp only at hok ⊢
  rw [if_neg (by simp [h.isStdio])] at hok ⊢
  split at hok
  · cases hok
  rename_i hlength
  rw [if_neg hlength, h.dirID]
  dsimp only
  split <;> rfl

end FileState

theorem DirState.readdir_entry {cat : fm.Catalog} {s : DirState fm} {d : DirIdx} {name : Str255} {spec : FSSpec}
    {obj : CatRec} (h : s.NextEntry cat d name spec obj) :
    (s.readdir cat (some d) name).1 = some (direntOf obj) := by
  rw [readdir, if_pos h.inUse, readEntry, h.entry]
  rfl

/-! ### All of them -/

open FileState Runs

/-- At any moment of any run: stat tells two objects of a volume from each other exactly where the IDs of
    their directories differ modulo 65536, and an entry has the inode number that stat, or fstat on a
    descriptor that open has returned, reports of it exactly where its ID and that of its directory agree
    modulo 65536. -/
theorem identity_iff (hfm : fm.Lawful) (cat : fm.Catalog) (mac : fm.State)
    (socket_inUse : Fin MAX_SOCKETS → Bool) (cs : List FileCall) :
    let s := run FileState.step (FileState.start mac socket_inUse) cs
    (∀ path path' spec spec' obj obj', Leads cat s.mac path spec obj → Leads cat s.mac path' spec' obj' →
      spec.vRefNum = spec'.vRefNum →
      ((s.stat cat path).1.2.identity ≠ (s.stat cat path').1.2.identity ↔
        ¬ spec.parID ≡ spec'.parID [ZMOD 65536])) ∧
    ∀ (dirs : DirState fm) d name path spec obj, dirs.mac = s.mac → Leads cat s.mac path spec obj →
      dirs.NextEntry cat d name spec obj →
      ∃ e, (dirs.readdir cat (some d) name).1 = some e ∧
        (e.d_ino = (s.stat cat path).1.2.st_ino ↔ obj.ioDirID ≡ spec.parID [ZMOD 65536]) ∧
        ∀ flags (i : Fd) (t : FileState fm) buf, (s.open_ path flags).1 = i →
          t.fd_table i = (s.open_ path flags).2.fd_table i → (t.fstat cat.toInfo i buf).1.1 = 0 →
          (e.d_ino = (t.fstat cat.toInfo i buf).1.2.st_ino ↔ obj.ioDirID ≡ spec.parID [ZMOD 65536]) := by
  intro s
  have hs : (run FileState.step (FileState.start mac socket_inUse) cs).Tracked 0 :=
    (always_of_step (fun _ c h => h.step hfm c) (Tracked.start mac socket_inUse (hfm.zero mac)) cs).last
  refine ⟨fun path path' spec spec' obj obj' hleads hleads' hvol => ?_,
    fun dirs d name path spec obj _ hleads hnext => ⟨DirState.direntOf obj, DirState.readdir_entry hnext, ?_, ?_⟩⟩
  · rw [stat_identity hleads, stat_identity hleads', hvol, ← ofInt_eq_iff, Ne, Prod.mk.injEq]
    simp
  · have hino : (s.stat cat path).1.2.st_ino = BitVec.ofInt 16 spec.parID :=
      congrArg Prod.snd (stat_identity hleads)
    rw [hino]
    exact ofInt_eq_iff
  · intro flags i t buf hopen hkept hok
    have hopened := open_opened hfm hs hleads.made hopen
    have ht : t.Opened i spec := by
      refine ⟨?_, ?_, ?_, ?_⟩
      · rw [hkept]
        exact hopened.inUse
      · rw [hkept]
        exact hopened.isStdio
      · rw [hkept]
        exact hopened.vRefNum
      · rw [hkept]
        exact hopened.dirID
    rw [fstat_st_ino ht hok]
    exact ofInt_eq_iff

/-! ### Two files of one directory -/

/-- `a` and `b` are in directory 16, `c` is in directory 19; other paths lead to directory 16. -/
def workDisk : FileManager :=
  { bareDisk with
    FSMakeFSSpec := fun name _ =>
      if name = c_to_pstr ":a".toList then (noErr, ⟨-1, 16, c_to_pstr "a".toList⟩)
      else if name = c_to_pstr ":b".toList then (noErr, ⟨-1, 16, c_to_pstr "b".toList⟩)
      else if name = c_to_pstr ":c".toList then (noErr, ⟨-1, 19, c_to_pstr "c".toList⟩)
      else (noErr, ⟨-1, fsRtDirID, c_to_pstr "Work".toList⟩) }

theorem workDisk_lawful : workDisk.Lawful where
  zero := bareDisk_lawful.zero
  open_fresh := bareDisk_lawful.open_fresh
  open_failed := bareDisk_lawful.open_failed
  close := bareDisk_lawful.close
  create := bareDisk_lawful.create
  read := bareDisk_lawful.read
  write := bareDisk_lawful.write
  setFPos := bareDisk_lawful.setFPos
  setEOF := bareDisk_lawful.setEOF

def workFile (name : String) (fileID : ℤ) : CatRec := ⟨c_to_pstr name.toList, 0, fileID, 0, 0, 0⟩

def workInfo (dirID : ℤ) (name : Str255) (i : BitVec 16) : OSErr × CatRec :=
  if dirID = fsRtDirID then (noErr, ⟨c_to_pstr "Work".toList, ioDirMask, 16, 0, 0, 2⟩)
  else if dirID = 16 ∧ (i = 1 ∨ i = 0 ∧ name = c_to_pstr "a".toList) then (noErr, workFile "a" 17)
  else if dirID = 16 ∧ (i = 2 ∨ i = 0 ∧ name = c_to_pstr "b".toList) then (noErr, workFile "b" 18)
  else if dirID = 19 ∧ (i = 1 ∨ i = 0 ∧ name = c_to_pstr "c".toList) then (noErr, workFile "c" 20)
  else (fnfErr, workFile "" 0)

def workCatalog : workDisk.Catalog where
  GetEOF _ _ := (noErr, 0)
  PBGetCatInfoSync spec _ := ((workInfo spec.parID spec.name 0).1, (workInfo spec.parID spec.name 0).2.info)
  PBFlushFileSync _ opened := (noErr, opened)
  PBFlushVolSync _ opened := (noErr, opened)
  HGetVol _ := (noErr, c_to_pstr "Macintosh HD".toList, -1, fsRtDirID)
  HSetVol _ _ opened := (noErr, opened)
  catInfo _ dirID name i _ := workInfo dirID name i
  info_eq _ _ := rfl
  FSpDelete _ opened := (noErr, opened)
  FSpRename _ _ opened := (noErr, opened)
  DirCreate _ _ _ opened := (dupFNErr, opened)

def onWork : FileState workDisk := FileState.start [] fun _ => false

/-- The stream opendir makes of the directory. -/
def workStream : DirState workDisk :=
  ((DirState.start []).opendir workCatalog macintoshHD "/Work".toList).2

theorem leads_a : Leads workCatalog onWork.mac "a".toList ⟨-1, 16, c_to_pstr "a".toList⟩ (workFile "a" 17) :=
  ⟨by decide +kernel, by decide +kernel⟩

theorem leads_b : Leads workCatalog onWork.mac "b".toList ⟨-1, 16, c_to_pstr "b".toList⟩ (workFile "b" 18) :=
  ⟨by decide +kernel, by decide +kernel⟩

theorem leads_c : Leads workCatalog onWork.mac "c".toList ⟨-1, 19, c_to_pstr "c".toList⟩ (workFile "c" 20) :=
  ⟨by decide +kernel, by decide +kernel⟩

theorem nextEntry_a : workStream.NextEntry workCatalog ⟨0, by decide⟩ (c_to_pstr [])
    ⟨-1, 16, c_to_pstr "a".toList⟩ (workFile "a" 17) :=
  ⟨by decide +kernel, by decide +kernel, by decide +kernel, by decide +kernel⟩

/-- Files of two directories are told from each other; the entry of a file has another inode number. -/
theorem identity_work :
    (onWork.stat workCatalog "a".toList).1.2.identity ≠ (onWork.stat workCatalog "c".toList).1.2.identity ∧
      ∃ e, (workStream.readdir workCatalog (some ⟨0, by decide⟩) (c_to_pstr [])).1 = some e ∧
        e.d_ino ≠ (onWork.stat workCatalog "a".toList).1.2.st_ino := by
  obtain ⟨hpairs, hentries⟩ := identity_iff workDisk_lawful workCatalog [] (fun _ => false) []
  have hmac : workStream.mac = onWork.mac := rfl
  obtain ⟨e, he, hstat, -⟩ := hentries workStream _ _ _ _ _ hmac leads_a nextEntry_a
  refine ⟨(hpairs _ _ _ _ _ _ leads_a leads_c rfl).mpr (by decide), e, he, fun heq => ?_⟩
  exact absurd (hstat.mp heq) (by decide)

/-- Files 17 and 18 of directory 16 have one identity, and an inode number that is not that of the entry. -/
theorem identity_shared :
    ¬ (∀ path path' spec spec' obj obj', Leads workCatalog onWork.mac path spec obj →
      Leads workCatalog onWork.mac path' spec' obj' → spec.vRefNum = spec'.vRefNum →
      obj.ioDirID ≠ obj'.ioDirID → 0 < obj.ioDirID → obj.ioDirID < 65536 → 0 < obj'.ioDirID →
      obj'.ioDirID < 65536 →
      (onWork.stat workCatalog path).1.2.identity ≠ (onWork.stat workCatalog path').1.2.identity) ∧
    ¬ (∀ d name path spec obj e, Leads workCatalog onWork.mac path spec obj →
      workStream.NextEntry workCatalog d name spec obj →
      (workStream.readdir workCatalog (some d) name).1 = some e →
      e.d_ino = (onWork.stat workCatalog path).1.2.st_ino) := by
  refine ⟨fun h => ?_, fun h => ?_⟩
  · refine h _ _ _ _ _ _ leads_a leads_b rfl (by decide) (by decide) (by decide) (by decide) (by decide) ?_
    rw [FileState.stat_identity leads_a, FileState.stat_identity leads_b]
  · have heq := h _ _ _ _ _ _ leads_a nextEntry_a (DirState.readdir_entry nextEntry_a)
    revert heq
    decide +kernel

end Posix9
