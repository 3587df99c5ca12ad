import Posix9.File

/-! posix9_file.c: fstat and fsync, and the File Manager calls that only the catalog and the default
    directory are asked with. -/

namespace Posix9

/-- What PBGetCatInfoSync says of a file or a directory. -/
structure CatInfo where
  ioFlAttrib : BitVec 8
  /-- `dirInfo.ioDrDirID`, of a directory. -/
  ioDrDirID : ℤ
  /-- Seconds since 1904. -/
  ioFlMdDat : BitVec 32

def ioDirMask : BitVec 8 := 0x10

def CatInfo.isDirectory (info : CatInfo) : Bool := info.ioFlAttrib &&& ioDirMask ≠ 0

/-- The calls that open, read and write do not make. -/
structure FileManager.Info (fm : FileManager) where
  GetEOF : RefNum → fm.State → OSErr × ℤ
  /-- `PBGetCatInfoSync` with `ioFDirIndex` 0: the object of that name in a directory of a volume. -/
  PBGetCatInfoSync : FSSpec → fm.State → OSErr × CatInfo
  PBFlushFileSync : RefNum → fm.State → OSErr × fm.State
  PBFlushVolSync : ℤ → fm.State → OSErr × fm.State
  /-- `HGetVol`: the name of the default volume, its number and the default directory. -/
  HGetVol : fm.State → OSErr × Str255 × ℤ × ℤ
  /-- `HSetVol(NULL, vRefNum, dirID)`. -/
  HSetVol : ℤ → ℤ → fm.State → OSErr × fm.State

/-! ### struct stat -/

def S_IFREG : ℕ := 0o100000
def S_IFCHR : ℕ := 0o020000

structure Stat where
  st_dev : BitVec 16
  st_ino : BitVec 16
  st_mode : ℕ
  st_nlink : ℕ
  st_uid : ℕ
  st_gid : ℕ
  st_size : ℤ
  st_atime : BitVec 32
  st_mtime : BitVec 32
  st_ctime : BitVec 32
  st_blksize : ℤ
  st_blocks : ℤ
  deriving DecidableEq

/-- `memset(buf, 0, sizeof(*buf))`. -/
def Stat.zero : Stat := ⟨0, 0, 0, 0, 0, 0, 0, 0, 0, 0, 0, 0⟩

/-- `macTime - 2082844800UL`, in an unsigned long. -/
def unixTime (macTime : BitVec 32) : BitVec 32 := macTime - 2082844800

def Stat.setTimes (buf : Stat) (macTime : BitVec 32) : Stat :=
  { buf with st_mtime := unixTime macTime, st_atime := unixTime macTime, st_ctime := unixTime macTime }

variable {fm : FileManager}

namespace FileState

/-- `buf` is what the caller's buffer holds. The result of PBGetFCBInfoSync is not looked at. -/
def fstat (info : fm.Info) (s : FileState fm) (fd : ℤ) (buf : Stat) : (ℤ × Stat) × FileState fm :=
  match s.get_fd_entry fd with
  | none => ((-1, buf), s.setErrno EBADF)
  | some i =>
    let entry := s.fd_table i
    if entry.isStdio then ((0, { Stat.zero with st_mode := S_IFCHR + 0o666, st_nlink := 1 }), s)
    else
      let s := s.noteUse (s.ledger.origin i) entry.refNum
      let (err, eof) := info.GetEOF entry.refNum s.mac
      if err ≠ noErr then ((-1, Stat.zero), s.setErrno (posix9_macos_to_errno err))
      else
        let buf : Stat := { Stat.zero with
          st_dev := BitVec.ofInt 16 entry.vRefNum, st_ino := BitVec.ofInt 16 entry.dirID
          st_mode := S_IFREG + 0o644, st_nlink := 1, st_size := eof
          st_blksize := 512, st_blocks := (eof + 511).tdiv 512 }
        let (err, cat) := info.PBGetCatInfoSync ⟨entry.vRefNum, entry.dirID, c_to_pstr entry.name⟩ s.mac
        ((0, if err = noErr then buf.setTimes cat.ioFlMdDat else buf), s)

def fsync (info : fm.Info) (s : FileState fm) (fd : ℤ) : ℤ × FileState fm :=
  match s.get_fd_entry fd with
  | none => s.badFd
  | some i =>
    let entry := s.fd_table i
    if entry.isStdio then (0, s)
    else
      let (err, mac) := info.PBFlushFileSync entry.refNum s.mac
      let s := { s.noteUse (s.ledger.origin i) entry.refNum with mac }
      if err ≠ noErr then s.fail err
      else (0, { s with mac := (info.PBFlushVolSync entry.vRefNum s.mac).2 })

end FileState

end Posix9
