import Posix9.FileManager
import Posix9.Path

/-! posix9_file.c: the descriptor table and the calls on it. `fd_table`, `fd_table_initialized` and
    `errno` are the static data; a function takes the state it finds and returns its result and the
    state it leaves. -/

namespace Posix9

/-! ### errno -/

def posix9_macos_to_errno (err : OSErr) : ℤ :=
  if err = noErr then 0
  else if err = fnfErr then ENOENT
  else if err = nsvErr then ENOENT
  else if err = dirNFErr then ENOENT
  else if err = bdNamErr then EINVAL
  else if err = ioErr then EIO
  else if err = tmfoErr then EMFILE
  else if err = opWrErr then EACCES
  else if err = permErr then EACCES
  else if err = afpAccessDenied then EACCES
  else if err = wrPermErr then EROFS
  else if err = fLckdErr then EACCES
  else if err = vLckdErr then EROFS
  else if err = wPrErr then EROFS
  else if err = dskFulErr then ENOSPC
  else if err = rfNumErr then EBADF
  else if err = fnOpnErr then EBADF
  else if err = eofErr then 0
  else if err = posErr then EINVAL
  else if err = dupFNErr then EEXIST
  else if err = fBsyErr then EBUSY
  else if err = dirFulErr then ENOSPC
  else if err = memFullErr then ENOMEM
  else if err = paramErr then EINVAL
  else EIO

/-! ### Flags -/

def O_WRONLY : BitVec 32 := 0x0001
def O_RDWR : BitVec 32 := 0x0002
def O_APPEND : BitVec 32 := 0x0008
def O_CREAT : BitVec 32 := 0x0200
def O_TRUNC : BitVec 32 := 0x0400
def O_EXCL : BitVec 32 := 0x0800

/-- `flags & flag`, as a condition. -/
def has (flags flag : BitVec 32) : Bool := flags &&& flag ≠ 0

def permission (flags : BitVec 32) : Permission :=
  if flags &&& O_RDWR = O_RDWR then .fsRdWrPerm
  else if has flags O_WRONLY then .fsWrPerm
  else .fsRdPerm

/-! ### The descriptor table -/

/-- `posix9_fd_entry`. -/
structure FdEntry where
  refNum : RefNum
  vRefNum : ℤ
  dirID : ℤ
  flags : BitVec 32
  inUse : Bool
  isStdio : Bool
  name : CStr

abbrev Fd := Fin POSIX9_OPEN_MAX

def STDIN_FILENO : Fd := ⟨0, by decide⟩
def STDOUT_FILENO : Fd := ⟨1, by decide⟩
def STDERR_FILENO : Fd := ⟨2, by decide⟩

/-- `for (i = 3; i < POSIX9_OPEN_MAX; i++)`. -/
def slots : List Fd := (List.finRange POSIX9_OPEN_MAX).drop 3

def SOCKET_FD_BASE : ℤ := 1000
def MAX_SOCKETS : ℕ := 128

structure FileState (fm : FileManager) where
  fd_table : Fd → FdEntry
  fd_table_initialized : Bool
  posix9_errno : ℤ
  /-- The `inUse` flags of posix9_socket.c's `socket_table`: all that close looks at. -/
  socket_inUse : Fin MAX_SOCKETS → Bool
  mac : fm.State
  ledger : Ledger

variable {fm : FileManager}

namespace FileState

/-- The state the program starts in: static storage is zero. -/
def start (mac : fm.State) (socket_inUse : Fin MAX_SOCKETS → Bool) : FileState fm where
  fd_table _ := ⟨0, 0, 0, 0, false, false, []⟩
  fd_table_initialized := false
  posix9_errno := 0
  socket_inUse
  mac
  ledger := Ledger.empty

def setErrno (s : FileState fm) (e : ℤ) : FileState fm := { s with posix9_errno := e }

def setEntry (s : FileState fm) (fd : Fd) (e : FdEntry) : FileState fm :=
  { s with fd_table := Function.update s.fd_table fd e }

def install (s : FileState fm) (fd : Fd) (origin : ℕ) : FileState fm :=
  { s with ledger := s.ledger.installed fd origin }

/-! ### Calls of the File Manager -/

/-- The open() whose file a refNum stands for now. -/
def fileOf (s : FileState fm) (r : RefNum) : Option ℕ :=
  if fm.isOpen s.mac r then s.ledger.stems r else none

/-- A call on `r` made for a descriptor that descends from `origin`. -/
def noteUse (s : FileState fm) (origin : ℕ) (r : RefNum) : FileState fm :=
  { s with ledger := s.ledger.used origin (s.fileOf r) }

def FSpCreate (s : FileState fm) (spec : FSSpec) : OSErr × FileState fm :=
  let (err, mac) := fm.FSpCreate spec s.mac
  (err, { s with mac })

def FSpOpenDF (s : FileState fm) (spec : FSSpec) (perm : Permission) :
    (OSErr × RefNum) × FileState fm :=
  let ((err, r), mac) := fm.FSpOpenDF spec perm s.mac
  ((err, r), { s with mac, ledger := if err = noErr then s.ledger.opened r else s.ledger })

def FSClose (s : FileState fm) (origin : ℕ) (r : RefNum) : OSErr × FileState fm :=
  let (err, mac) := fm.FSClose r s.mac
  let s := s.noteUse origin r
  (err, { s with mac, ledger := s.ledger.closed r })

def FSRead (s : FileState fm) (origin : ℕ) (r : RefNum) (count : ℕ) :
    (OSErr × List UInt8) × FileState fm :=
  let (res, mac) := fm.FSRead r count s.mac
  (res, { s.noteUse origin r with mac })

def FSWrite (s : FileState fm) (origin : ℕ) (r : RefNum) (buf : List UInt8) :
    (OSErr × ℕ) × FileState fm :=
  let (res, mac) := fm.FSWrite r buf s.mac
  (res, { s.noteUse origin r with mac })

def SetFPos (s : FileState fm) (origin : ℕ) (r : RefNum) (mode : PosMode) (off : ℤ) :
    OSErr × FileState fm :=
  let (err, mac) := fm.SetFPos r mode off s.mac
  (err, { s.noteUse origin r with mac })

def SetEOF (s : FileState fm) (origin : ℕ) (r : RefNum) (len : ℤ) : OSErr × FileState fm :=
  let (err, mac) := fm.SetEOF r len s.mac
  (err, { s.noteUse origin r with mac })

/-! ### Internal helpers -/

def init_fd_table (s : FileState fm) : FileState fm :=
  if s.fd_table_initialized then s
  else
    { s with
      fd_table := fun i =>
        let stdio : Bool := i = STDIN_FILENO ∨ i = STDOUT_FILENO ∨ i = STDERR_FILENO
        { s.fd_table i with inUse := stdio, refNum := 0, isStdio := stdio }
      fd_table_initialized := true }

/-- The slot is marked as in use; its other fields are left as they are. `none` is -1. -/
def alloc_fd (s : FileState fm) : Option Fd × FileState fm :=
  let s := s.init_fd_table
  match slots.find? fun i => !(s.fd_table i).inUse with
  | some i => (some i, s.setEntry i { s.fd_table i with inUse := true })
  | none => (none, s.setErrno EMFILE)

def free_fd (s : FileState fm) (fd : Fd) : FileState fm :=
  if (s.fd_table fd).isStdio then s
  else s.setEntry fd { s.fd_table fd with inUse := false, refNum := 0 }

/-- The index of the entry it returns a pointer to. -/
def get_fd_entry (s : FileState fm) (fd : ℤ) : Option Fd :=
  if h : 0 ≤ fd ∧ fd < POSIX9_OPEN_MAX then
    let i : Fd := ⟨fd.toNat, by omega⟩
    if (s.fd_table i).inUse then some i else none
  else none

/-- `errno = posix9_macos_to_errno(err); return -1`. -/
def fail (s : FileState fm) (err : OSErr) : ℤ × FileState fm :=
  (-1, s.setErrno (posix9_macos_to_errno err))

/-- `errno = EBADF; return -1`. -/
def badFd (s : FileState fm) : ℤ × FileState fm := (-1, s.setErrno EBADF)

/-- `if (flags & O_APPEND) SetFPos(refNum, fsFromLEOF, 0)`. -/
def seekEnd (s : FileState fm) (flags : BitVec 32) (origin : ℕ) (refNum : RefNum) : FileState fm :=
  if has flags O_APPEND then (s.SetFPos origin refNum .fsFromLEOF 0).2 else s

/-! ### open -/

/-- open from FSpOpenDF on. -/
def openFork (s : FileState fm) (flags : BitVec 32) (spec : FSSpec) : ℤ × FileState fm :=
  let ((err, refNum), s) := s.FSpOpenDF spec (permission flags)
  if err ≠ noErr then s.fail err
  else
    let origin := s.ledger.opens - 1
    let s := if has flags O_TRUNC then (s.SetEOF origin refNum 0).2 else s
    match (s.seekEnd flags origin refNum).alloc_fd with
    | (none, s) => (-1, (s.FSClose origin refNum).2)
    | (some fd, s) =>
      let e := { s.fd_table fd with
        refNum, vRefNum := spec.vRefNum, dirID := spec.parID, flags
        name := p_to_cstr spec.name 64 }
      (fd, (s.setEntry fd e).install fd origin)

/-- open once the path has been resolved with result `err`. -/
def openResolved (s : FileState fm) (flags : BitVec 32) (err : OSErr) (spec : FSSpec) :
    ℤ × FileState fm :=
  if has flags O_CREAT ∧ has flags O_EXCL ∧ err = noErr then (-1, s.setErrno EEXIST)
  else if err ≠ noErr then s.fail err
  else s.openFork flags spec

def open_ (s : FileState fm) (path : CStr) (flags : BitVec 32) : ℤ × FileState fm :=
  let s := s.init_fd_table
  let (err, spec) := fm.FSMakeFSSpec (basicPPath path) s.mac
  if err = fnfErr ∧ has flags O_CREAT then
    let (err, s) := s.FSpCreate spec
    if err ≠ noErr ∧ err ≠ dupFNErr then s.fail err
    else
      let (err, spec) := fm.FSMakeFSSpec (basicPPath path) s.mac
      s.openResolved flags err spec
  else s.openResolved flags err spec

/-! ### close -/

/-- The slot of `socket_table` a descriptor stands for. -/
def socketIndex (fd : ℤ) : Option (Fin MAX_SOCKETS) :=
  if h : 0 ≤ fd - SOCKET_FD_BASE ∧ fd - SOCKET_FD_BASE < MAX_SOCKETS then
    some ⟨(fd - SOCKET_FD_BASE).toNat, by omega⟩
  else none

def posix9_is_socket (s : FileState fm) (fd : ℤ) : Bool :=
  match socketIndex fd with
  | some i => s.socket_inUse i
  | none => false

/-- What posix9_close_socket leaves of the slot; the endpoint it closes is not a file. -/
def posix9_close_socket (s : FileState fm) (fd : ℤ) : ℤ × FileState fm :=
  match socketIndex fd with
  | some i =>
    if s.socket_inUse i then (0, { s with socket_inUse := Function.update s.socket_inUse i false })
    else s.badFd
  | none => s.badFd

/-- close of an entry in use. -/
def closeEntry (s : FileState fm) (i : Fd) : ℤ × FileState fm :=
  if (s.fd_table i).isStdio then (0, s)
  else
    let (err, s) := s.FSClose (s.ledger.origin i) (s.fd_table i).refNum
    let s := s.free_fd i
    if err ≠ noErr then s.fail err else (0, s)

def close (s : FileState fm) (fd : ℤ) : ℤ × FileState fm :=
  if s.posix9_is_socket fd then s.posix9_close_socket fd
  else
    match s.get_fd_entry fd with
    | none => s.badFd
    | some i => s.closeEntry i

/-! ### read, write, lseek, ftruncate -/

def read (s : FileState fm) (fd : ℤ) (count : ℕ) : (ℤ × List UInt8) × FileState fm :=
  match s.get_fd_entry fd with
  | none => ((-1, []), s.setErrno EBADF)
  | some i =>
    let entry := s.fd_table i
    if entry.isStdio then ((-1, []), s.setErrno (if i = STDIN_FILENO then ENOSYS else EBADF))
    else
      let ((err, bytes), s) := s.FSRead (s.ledger.origin i) entry.refNum count
      if err = eofErr then ((bytes.length, bytes), s)
      else if err ≠ noErr then ((-1, bytes), s.setErrno (posix9_macos_to_errno err))
      else ((bytes.length, bytes), s)

def write (s : FileState fm) (fd : ℤ) (buf : List UInt8) : ℤ × FileState fm :=
  match s.get_fd_entry fd with
  | none => s.badFd
  | some i =>
    let entry := s.fd_table i
    if entry.isStdio then
      if i = STDOUT_FILENO ∨ i = STDERR_FILENO then (buf.length, s) else s.badFd
    else
      let origin := s.ledger.origin i
      let s := s.seekEnd entry.flags origin entry.refNum
      let ((err, bytes), s) := s.FSWrite origin entry.refNum buf
      if err ≠ noErr then s.fail err else (bytes, s)

/-- `whence` of lseek. -/
def posMode (whence : ℤ) : Option PosMode :=
  if whence = 0 then some .fsFromStart
  else if whence = 1 then some .fsFromMark
  else if whence = 2 then some .fsFromLEOF
  else none

def lseek (s : FileState fm) (fd offset whence : ℤ) : ℤ × FileState fm :=
  match s.get_fd_entry fd with
  | none => s.badFd
  | some i =>
    let entry := s.fd_table i
    if entry.isStdio then (-1, s.setErrno ESPIPE)
    else
      match posMode whence with
      | none => (-1, s.setErrno EINVAL)
      | some mode =>
        let (err, s) := s.SetFPos (s.ledger.origin i) entry.refNum mode offset
        if err ≠ noErr then s.fail err
        else
          let (err, pos) := fm.GetFPos entry.refNum s.mac
          if err ≠ noErr then s.fail err else (pos, s)

def ftruncate (s : FileState fm) (fd length : ℤ) : ℤ × FileState fm :=
  match s.get_fd_entry fd with
  | none => s.badFd
  | some i =>
    let entry := s.fd_table i
    if entry.isStdio then (-1, s.setErrno EINVAL)
    else
      let (err, s) := s.SetEOF (s.ledger.origin i) entry.refNum length
      if err ≠ noErr then s.fail err else (0, s)

/-! ### dup, dup2 -/

/-- `memcpy(&fd_table[newfd], &fd_table[oldfd], sizeof(posix9_fd_entry))`. -/
def copyEntry (s : FileState fm) (old new : Fd) : FileState fm :=
  (s.setEntry new (s.fd_table old)).install new (s.ledger.origin old)

def dup (s : FileState fm) (oldfd : ℤ) : ℤ × FileState fm :=
  match s.get_fd_entry oldfd with
  | none => s.badFd
  | some old =>
    match s.alloc_fd with
    | (none, s) => (-1, s)
    -- the entry is read now, behind whatever alloc_fd did to the table
    | (some new, s) => (new, s.copyEntry old new)

def dup2 (s : FileState fm) (oldfd newfd : ℤ) : ℤ × FileState fm :=
  match s.get_fd_entry oldfd with
  | none => s.badFd
  | some old =>
    if h : 0 ≤ newfd ∧ newfd < POSIX9_OPEN_MAX then
      let new : Fd := ⟨newfd.toNat, by omega⟩
      let s := if (s.fd_table new).inUse ∧ ¬(s.fd_table new).isStdio then (s.close newfd).2 else s
      let s := s.copyEntry old new
      (newfd, s.setEntry new { s.fd_table new with inUse := true })
    else s.badFd

/-! ### posix9_cleanup -/

/-- One round of the loop of posix9_cleanup. -/
def cleanupEntry (s : FileState fm) (i : Fd) : FileState fm :=
  if (s.fd_table i).inUse ∧ ¬(s.fd_table i).isStdio then (s.close i).2 else s

def posix9_cleanup (s : FileState fm) : FileState fm :=
  { slots.foldl cleanupEntry s with fd_table_initialized := false }

end FileState

/-! ### Runs -/

/-- A call of the library on the descriptor table. -/
inductive FileCall where
  | open_ (path : CStr) (flags : BitVec 32)
  | close (fd : ℤ)
  | read (fd : ℤ) (count : ℕ)
  | write (fd : ℤ) (buf : List UInt8)
  | lseek (fd offset whence : ℤ)
  | ftruncate (fd length : ℤ)
  | dup (oldfd : ℤ)
  | dup2 (oldfd newfd : ℤ)
  | posix9_cleanup

def FileState.step (s : FileState fm) : FileCall → FileState fm
  | .open_ path flags => (s.open_ path flags).2
  | .close fd => (s.close fd).2
  | .read fd count => (s.read fd count).2
  | .write fd buf => (s.write fd buf).2
  | .lseek fd offset whence => (s.lseek fd offset whence).2
  | .ftruncate fd length => (s.ftruncate fd length).2
  | .dup oldfd => (s.dup oldfd).2
  | .dup2 oldfd newfd => (s.dup2 oldfd newfd).2
  | .posix9_cleanup => s.posix9_cleanup

end Posix9
