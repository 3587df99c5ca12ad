import Posix9.Catalog
import Posix9.Cwd
import Posix9.Disk

/-! posix9_dir.c: directory streams, mkdir and rmdir. The pool of streams is static data, and so is what
    posix9_path.c keeps, whose state comes along: these calls translate their paths with it. -/

namespace Posix9

def ENOTEMPTY : ℤ := 39

def MAX_DIR_STREAMS : ℕ := 32

/-- `struct dirent`; the array of `d_name` holds POSIX9_NAME_MAX + 1 characters. -/
structure Dirent where
  d_ino : BitVec 16
  d_name : CStr
  deriving DecidableEq

/-- `struct posix9_dir`. -/
structure DirStream where
  vRefNum : ℤ
  dirID : ℤ
  index : BitVec 16
  inUse : Bool
  path : CStr
  entry : Dirent

/-- A DIR pointer is an index into the pool. -/
abbrev DirIdx := Fin MAX_DIR_STREAMS

structure DirState (fm : FileManager) where
  dir_pool : DirIdx → DirStream
  dir_pool_initialized : Bool
  cwd : CwdState fm

variable {fm : FileManager}

namespace DirState

/-- The state the program starts in: static storage is zero. -/
def start (mac : fm.State) : DirState fm :=
  ⟨fun _ => ⟨0, 0, 0, false, [], ⟨0, []⟩⟩, false, CwdState.start mac⟩

def mac (s : DirState fm) : fm.State := s.cwd.mac

def setErrno (s : DirState fm) (e : ℤ) : DirState fm := { s with cwd := s.cwd.setErrno e }

def setMac (s : DirState fm) (mac : fm.State) : DirState fm := { s with cwd := { s.cwd with mac } }

def setStream (s : DirState fm) (d : DirIdx) (dir : DirStream) : DirState fm :=
  { s with dir_pool := Function.update s.dir_pool d dir }

def fail (s : DirState fm) (err : OSErr) : ℤ × DirState fm :=
  (-1, s.setErrno (posix9_macos_to_errno err))

@[simp] theorem setStream_self (s : DirState fm) (d : DirIdx) (dir : DirStream) :
    (s.setStream d dir).dir_pool d = dir :=
  Function.update_self ..

theorem setStream_of_ne (s : DirState fm) {d e : DirIdx} (dir : DirStream) (h : e ≠ d) :
    (s.setStream d dir).dir_pool e = s.dir_pool e :=
  Function.update_of_ne h ..

@[simp] theorem setStream_mac (s : DirState fm) (d : DirIdx) (dir : DirStream) :
    (s.setStream d dir).mac = s.mac := rfl

/-! ### Streams -/

def init_dir_pool (s : DirState fm) : DirState fm :=
  if s.dir_pool_initialized then s
  else
    { s with dir_pool := fun d => { s.dir_pool d with inUse := false }, dir_pool_initialized := true }

def alloc_dir (s : DirState fm) : Option DirIdx × DirState fm :=
  let s := s.init_dir_pool
  match (List.finRange MAX_DIR_STREAMS).find? fun d => !(s.dir_pool d).inUse with
  | some d => (some d, s.setStream d { s.dir_pool d with inUse := true, index := 1 })
  | none => (none, s.setErrno EMFILE)

def free_dir (s : DirState fm) (d : DirIdx) : DirState fm :=
  s.setStream d { s.dir_pool d with inUse := false }

variable (cat : fm.Catalog) (default_volume : VolumeName)

/-- What posix9_path_to_mac does besides writing the pathname. -/
def initFor (s : DirState fm) (path : CStr) : DirState fm :=
  { s with cwd := s.cwd.initFor cat.toInfo default_volume path }

/-- `none` is NULL. -/
def opendir (s : DirState fm) (name : CStr) : Option DirIdx × DirState fm :=
  let s := s.initFor cat default_volume name
  let (err, spec) := fm.FSMakeFSSpec (fullPPath default_volume name) s.mac
  if err ≠ noErr ∧ err ≠ fnfErr then (none, s.setErrno (posix9_macos_to_errno err))
  else
    let (err, catInfo) := cat.named spec s.mac
    if err ≠ noErr then (none, s.setErrno (posix9_macos_to_errno err))
    else if ¬ catInfo.isDirectory then (none, s.setErrno ENOTDIR)
    else
      match s.alloc_dir with
      | (none, s) => (none, s)
      | (some d, s) =>
        (some d, s.setStream d { s.dir_pool d with
          vRefNum := spec.vRefNum, dirID := catInfo.ioDirID, index := 1
          path := strncpyNul name POSIX9_PATH_MAX })

/-- The entry filled in from the block. -/
def direntOf (catInfo : CatRec) : Dirent where
  d_ino := BitVec.ofInt 16 catInfo.ioDirID
  d_name := p_to_cstr catInfo.ioNamePtr 256

/-- readdir of a stream in use. `name` is what the array of that name holds, which nothing has written to.
    The index is incremented in a short. -/
def readEntry (s : DirState fm) (d : DirIdx) (name : Str255) : Option Dirent × DirState fm :=
  let dir := s.dir_pool d
  let (err, catInfo) := cat.catInfo dir.vRefNum dir.dirID name dir.index s.mac
  if err = fnfErr then (none, s)
  else if err ≠ noErr then (none, s.setErrno (posix9_macos_to_errno err))
  else (some (direntOf catInfo), s.setStream d { dir with entry := direntOf catInfo, index := dir.index + 1 })

def readdir (s : DirState fm) (dirp : Option DirIdx) (name : Str255) : Option Dirent × DirState fm :=
  match dirp with
  | none => (none, s.setErrno EBADF)
  | some d => if (s.dir_pool d).inUse then s.readEntry cat d name else (none, s.setErrno EBADF)

def closedir (s : DirState fm) (dirp : Option DirIdx) : ℤ × DirState fm :=
  match dirp with
  | none => (-1, s.setErrno EBADF)
  | some d => if (s.dir_pool d).inUse then (0, s.free_dir d) else (-1, s.setErrno EBADF)

def rewinddir (s : DirState fm) (dirp : Option DirIdx) : DirState fm :=
  match dirp with
  | none => s
  | some d => if (s.dir_pool d).inUse then s.setStream d { s.dir_pool d with index := 1 } else s

/-! ### mkdir and rmdir -/

/-- What is left of `parent_path`: what stands before the last colon, nothing where there is none. -/
def parentPath (parent_path : CStr) : CStr :=
  match afterLast ':' parent_path with
  | some leaf => parent_path.take (parent_path.length - leaf.length - 1)
  | none => []

/-- `DirCreate(vRefNum, dirID, dirname, &newDirID)` and what is made of its result. -/
def dirCreate (s : DirState fm) (vRefNum dirID : ℤ) (dirname : Str255) : ℤ × DirState fm :=
  let (err, mac) := cat.DirCreate vRefNum dirID dirname s.mac
  let s := s.setMac mac
  if err ≠ noErr then s.fail err else (0, s)

def mkdir (s : DirState fm) (path : CStr) : ℤ × DirState fm :=
  let s := s.initFor cat default_volume path
  let mac_path := posix9_path_to_mac default_volume path POSIX9_PATH_MAX
  let parent_path := strncpyNul mac_path POSIX9_PATH_MAX
  let dirname := c_to_pstr ((afterLast ':' parent_path).getD mac_path)
  if parentPath parent_path ≠ [] then
    let (err, parentSpec) := fm.FSMakeFSSpec (c_to_pstr (parentPath parent_path)) s.mac
    if err ≠ noErr ∧ err ≠ fnfErr then s.fail err
    else
      let (err, catInfo) := cat.named parentSpec s.mac
      if err ≠ noErr then s.fail err else s.dirCreate cat parentSpec.vRefNum catInfo.ioDirID dirname
  else
    -- the result of HGetVol is not looked at
    let (_, _, vRefNum, dirID) := cat.HGetVol s.mac
    s.dirCreate cat vRefNum dirID dirname

def rmdir (s : DirState fm) (path : CStr) : ℤ × DirState fm :=
  let s := s.initFor cat default_volume path
  let (err, spec) := fm.FSMakeFSSpec (fullPPath default_volume path) s.mac
  if err ≠ noErr then s.fail err
  else
    let (err, catInfo) := cat.named spec s.mac
    if err ≠ noErr then s.fail err
    else if ¬ catInfo.isDirectory then (-1, s.setErrno ENOTDIR)
    else if 0 < catInfo.ioDrNmFls then (-1, s.setErrno ENOTEMPTY)
    else
      let (err, mac) := cat.FSpDelete spec s.mac
      let s := s.setMac mac
      if err ≠ noErr then s.fail err else (0, s)

end DirState

/-! ### Files in memory -/

def ramInfo (spec : FSSpec) (st : RamDisk) : OSErr × CatRec :=
  match st.files spec with
  | none => (fnfErr, ⟨spec.name, 0, 0, 0, 0, 0⟩)
  | some bytes => (noErr, ⟨spec.name, 0, 16, 0, bytes.length, 0⟩)

def ramCatalog : ramDisk.Catalog where
  GetEOF r st :=
    match st.lookup r with
    | none => (rfNumErr, 0)
    | some (_, _, bytes) => (noErr, bytes.length)
  PBGetCatInfoSync spec st := ((ramInfo spec st).1, (ramInfo spec st).2.info)
  PBFlushFileSync _ st := (noErr, st)
  PBFlushVolSync _ st := (noErr, st)
  HGetVol _ := (noErr, c_to_pstr "Macintosh HD".toList, -1, fsRtDirID)
  HSetVol _ _ st := (noErr, st)
  catInfo vRefNum dirID name _ st := ramInfo ⟨vRefNum, dirID, name⟩ st
  info_eq _ _ := rfl
  FSpDelete spec st :=
    if (st.files spec).isSome then (noErr, { st with files := Function.update st.files spec none })
    else (fnfErr, st)
  FSpRename _ _ st := (vLckdErr, st)
  DirCreate _ _ _ st := (vLckdErr, st)

end Posix9
