import Posix9.Stat

/-! posix9_file.c: stat, unlink and rename, and the calls of the File Manager that work on the catalog. -/

namespace Posix9

/-- What PBGetCatInfoSync leaves in its block and in the name the block points to. `hFileInfo.ioDirID` and
    `dirInfo.ioDrDirID` are one field of it: the catalog ID of the file or the directory. -/
structure CatRec where
  ioNamePtr : Str255
  ioFlAttrib : BitVec 8
  ioDirID : ℤ
  ioFlMdDat : BitVec 32
  ioFlLgLen : ℤ
  ioDrNmFls : ℤ
  deriving DecidableEq

/-- What fstat and chdir look at. -/
def CatRec.info (cat : CatRec) : CatInfo := ⟨cat.ioFlAttrib, cat.ioDirID, cat.ioFlMdDat⟩

def CatRec.isDirectory (cat : CatRec) : Bool := cat.info.isDirectory

structure FileManager.Catalog (fm : FileManager) extends fm.Info where
  /-- `PBGetCatInfoSync` for a volume, a directory, a name and an index. -/
  catInfo : ℤ → ℤ → Str255 → BitVec 16 → fm.State → OSErr × CatRec
  info_eq : ∀ spec st, PBGetCatInfoSync spec st =
    ((catInfo spec.vRefNum spec.parID spec.name 0 st).1, (catInfo spec.vRefNum spec.parID spec.name 0 st).2.info)
  FSpDelete : FSSpec → fm.State → OSErr × fm.State
  FSpRename : FSSpec → Str255 → fm.State → OSErr × fm.State
  /-- The ID of the new directory is not looked at. -/
  DirCreate : ℤ → ℤ → Str255 → fm.State → OSErr × fm.State

/-- With `ioFDirIndex` 0: the object a file specification names. -/
def FileManager.Catalog.named {fm : FileManager} (cat : fm.Catalog) (spec : FSSpec) (mac : fm.State) :
    OSErr × CatRec :=
  cat.catInfo spec.vRefNum spec.parID spec.name 0 mac

def S_IFDIR : ℕ := 0o040000

/-- `strrchr(s, c) + 1`, none where there is no `c`. -/
def afterLast (c : Char) (s : CStr) : Option CStr :=
  if c ∈ s then some (s.reverse.takeWhile (· ≠ c)).reverse else none

/-- What rename takes for the new name: what is behind the last slash, or else the last colon. -/
def lastComponent (newpath : CStr) : CStr :=
  match afterLast '/' newpath with
  | some leaf => leaf
  | none => (afterLast ':' newpath).getD newpath

variable {fm : FileManager} (cat : fm.Catalog)

namespace FileState

def stat (s : FileState fm) (path : CStr) : (ℤ × Stat) × FileState fm :=
  let (err, spec) := fm.FSMakeFSSpec (basicPPath path) s.mac
  if err ≠ noErr then ((-1, Stat.zero), s.setErrno (posix9_macos_to_errno err))
  else
    let (err, catInfo) := cat.named spec s.mac
    if err ≠ noErr then ((-1, Stat.zero), s.setErrno (posix9_macos_to_errno err))
    else
      let buf : Stat := { Stat.zero with
        st_dev := BitVec.ofInt 16 spec.vRefNum, st_ino := BitVec.ofInt 16 spec.parID
        st_nlink := 1, st_blksize := 512 }
      let buf : Stat :=
        if catInfo.isDirectory then { buf with st_mode := S_IFDIR + 0o755, st_size := 0, st_blocks := 0 }
        else
          { buf with
            st_mode := S_IFREG + 0o644
            st_size := catInfo.ioFlLgLen, st_blocks := (catInfo.ioFlLgLen + 511).tdiv 512 }
      ((0, buf.setTimes catInfo.ioFlMdDat), s)

def unlink (s : FileState fm) (path : CStr) : ℤ × FileState fm :=
  let (err, spec) := fm.FSMakeFSSpec (basicPPath path) s.mac
  if err ≠ noErr then s.fail err
  else
    let (err, mac) := cat.FSpDelete spec s.mac
    let s := { s with mac }
    if err ≠ noErr then s.fail err else (0, s)

/-- `newFile` has 255 bytes. -/
def rename (s : FileState fm) (oldpath newpath : CStr) : ℤ × FileState fm :=
  let (err, oldSpec) := fm.FSMakeFSSpec (basicPPath oldpath) s.mac
  if err ≠ noErr then s.fail err
  else
    let newFile := strncpyNul (lastComponent newpath) 255
    let (err, mac) := cat.FSpRename oldSpec (c_to_pstr newFile) s.mac
    let s := { s with mac }
    if err ≠ noErr then s.fail err else (0, s)

theorem rename_not_found {s : FileState fm} {oldpath : CStr} (newpath : CStr)
    (hold : (fm.FSMakeFSSpec (basicPPath oldpath) s.mac).1 ≠ noErr) :
    (s.rename cat oldpath newpath).1 = -1 ∧ (s.rename cat oldpath newpath).2.mac = s.mac := by
  rcases hmake : fm.FSMakeFSSpec (basicPPath oldpath) s.mac with ⟨err, spec⟩
  rw [hmake] at hold
  rw [rename, hmake]
  dsimp only
  rw [if_pos hold]
  exact ⟨rfl, rfl⟩

end FileState

end Posix9
