import Posix9.Creation
import Posix9.Directory
import Posix9.SocketSteps
import Posix9.Wire

/-! What errno says of a failure. A call that gives up on an answer of the File Manager or of Open Transport
    translates it, and the two translations map eofErr, kOTNoUDErr and success to 0. -/

namespace Posix9

variable {fm : FileManager} {ot : OpenTransport}

/-! ### Failures -/

/-- The answers a call of the library gives up on. -/
inductive Failure where
  | fileManager (err : OSErr) (h : err ≠ noErr)
  | openTransport (err : OTResult) (h : err ≠ noErr)
  /-- OTOpenEndpoint has succeeded and returned no endpoint. -/
  | noEndpoint
  /-- OTCreateConfiguration has returned no configuration. -/
  | noConfiguration
  /-- A result of InitOpenTransport or OTInstallNotifier, whichever it is. -/
  | general (err : OTResult) (h : err ≠ noErr)

/-- The failure a result stands for, if it is not success. -/
def Failure.of (failure : (err : ℤ) → err ≠ noErr → Failure) (err : ℤ) : Option Failure :=
  if h : err = noErr then none else some (failure err h)

abbrev failed (err : OSErr) : Option Failure := Failure.of .fileManager err

abbrev failedOT (err : OTResult) : Option Failure := Failure.of .openTransport err

/-- With fnfErr the call goes on. -/
def failedButFound (err : OSErr) : Option Failure := if err = fnfErr then none else failed err

/-- What errno is set to. -/
def Failure.errno : Failure → ℤ
  | .fileManager err _ => posix9_macos_to_errno err
  | .openTransport err _ => ot_error_to_errno err
  | .noEndpoint => ot_error_to_errno noErr
  | .noConfiguration => EPROTONOSUPPORT
  | .general _ _ => EIO

/-- The failures that errno has a number for. -/
def Failure.Reported : Failure → Prop
  | .fileManager err _ => err ≠ eofErr
  | .openTransport err _ => err ≠ kOTNoUDErr
  | .noEndpoint => False
  | .noConfiguration | .general _ _ => True

/-- A mark is not negative. -/
def FileManager.MarksNonneg (fm : FileManager) : Prop :=
  ∀ r st, (fm.GetFPos r st).1 = noErr → 0 ≤ (fm.GetFPos r st).2

/-! ### Operations -/

/-- The calls of the file, the directory and the socket layer that ask the File Manager or Open Transport. -/
inductive Operation where
  | open_ (path : CStr) (flags : BitVec 32)
  | close (fd : ℤ)
  | read (fd : ℤ) (count : ℕ)
  | write (fd : ℤ) (buf : List UInt8)
  | lseek (fd offset whence : ℤ)
  | stat (path : CStr)
  | fstat (fd : ℤ) (buf : Stat)
  | unlink (path : CStr)
  | rename (oldpath newpath : CStr)
  | ftruncate (fd length : ℤ)
  | chdir (path : CStr)
  | mkdir (path : CStr)
  | rmdir (path : CStr)
  | socket (domain type protocol : ℤ)
  | bind (sockfd : ℤ) (addr : InetAddress)
  | listen (sockfd backlog : ℤ)
  | accept (sockfd : ℤ)
  | connect (sockfd : ℤ) (addr : InetAddress)
  | send (sockfd : ℤ) (buf : List UInt8) (flags : BitVec 32)
  | recv (sockfd : ℤ) (len : ℕ)
  | sendto (sockfd : ℤ) (buf : List UInt8) (flags : BitVec 32) (addr : InetAddress)
  | recvfrom (sockfd : ℤ) (len : ℕ)
  | shutdown (sockfd how : ℤ)

structure Layers (fm : FileManager) (ot : OpenTransport) where
  files : FileState fm
  dirs : DirState fm
  sockets : SocketState ot

/-! ### What each of them gives up on -/

namespace FileState

/-- A call on the descriptor of a file. -/
def onFile (s : FileState fm) (fd : ℤ) (answers : FdEntry → Option Failure) : Option Failure :=
  match s.get_fd_entry fd with
  | none => none
  | some i => if (s.fd_table i).isStdio then none else answers (s.fd_table i)

/-- open of a path resolved with result `made`. -/
def openResolvedGivesUp (flags : BitVec 32) (made : OSErr × FSSpec) (mac : fm.State) : Option Failure :=
  if has flags O_CREAT ∧ has flags O_EXCL ∧ made.1 = noErr then none
  else failed made.1 <|> failed (fm.FSpOpenDF made.2 (permission flags) mac).1.1

def openGivesUp (s : FileState fm) (path : CStr) (flags : BitVec 32) : Option Failure :=
  let made := fm.FSMakeFSSpec (basicPPath path) s.mac
  if made.1 = fnfErr ∧ has flags O_CREAT then
    let created := fm.FSpCreate made.2 s.mac
    if created.1 ≠ noErr ∧ created.1 ≠ dupFNErr then failed created.1
    else openResolvedGivesUp flags (fm.FSMakeFSSpec (basicPPath path) created.2) created.2
  else openResolvedGivesUp flags made s.mac

def readGivesUp (s : FileState fm) (count : ℕ) (entry : FdEntry) : Option Failure :=
  let err := (fm.FSRead entry.refNum count s.mac).1.1
  if err = eofErr then none else failed err

def writeGivesUp (s : FileState fm) (buf : List UInt8) (entry : FdEntry) : Option Failure :=
  let mac := if has entry.flags O_APPEND then (fm.SetFPos entry.refNum .fsFromLEOF 0 s.mac).2 else s.mac
  failed (fm.FSWrite entry.refNum buf mac).1.1

def lseekGivesUp (s : FileState fm) (offset whence : ℤ) (entry : FdEntry) : Option Failure :=
  match posMode whence with
  | none => none
  | some mode =>
    let moved := fm.SetFPos entry.refNum mode offset s.mac
    failed moved.1 <|> failed (fm.GetFPos entry.refNum moved.2).1

def statGivesUp (cat : fm.Catalog) (s : FileState fm) (path : CStr) : Option Failure :=
  let made := fm.FSMakeFSSpec (basicPPath path) s.mac
  failed made.1 <|> failed (cat.named made.2 s.mac).1

def unlinkGivesUp (cat : fm.Catalog) (s : FileState fm) (path : CStr) : Option Failure :=
  let made := fm.FSMakeFSSpec (basicPPath path) s.mac
  failed made.1 <|> failed (cat.FSpDelete made.2 s.mac).1

def renameGivesUp (cat : fm.Catalog) (s : FileState fm) (oldpath newpath : CStr) : Option Failure :=
  let made := fm.FSMakeFSSpec (basicPPath oldpath) s.mac
  failed made.1 <|> failed (cat.FSpRename made.2 (c_to_pstr (strncpyNul (lastComponent newpath) 255)) s.mac).1

end FileState

namespace DirState

variable (cat : fm.Catalog) (default_volume : VolumeName)

def chdirGivesUp (s : DirState fm) (path : CStr) : Option Failure :=
  let made := fm.FSMakeFSSpec (fullPPath default_volume path) s.mac
  failedButFound made.1 <|> failed (cat.PBGetCatInfoSync made.2 s.mac).1

def mkdirGivesUp (s : DirState fm) (path : CStr) : Option Failure :=
  let mac_path := posix9_path_to_mac default_volume path POSIX9_PATH_MAX
  let parent_path := strncpyNul mac_path POSIX9_PATH_MAX
  let dirname := c_to_pstr ((afterLast ':' parent_path).getD mac_path)
  if parentPath parent_path ≠ [] then
    let made := fm.FSMakeFSSpec (c_to_pstr (parentPath parent_path)) s.mac
    let named := cat.named made.2 s.mac
    failedButFound made.1 <|> failed named.1 <|>
      failed (cat.DirCreate made.2.vRefNum named.2.ioDirID dirname s.mac).1
  else
    let volume := cat.HGetVol s.mac
    failed (cat.DirCreate volume.2.2.1 volume.2.2.2 dirname s.mac).1

def rmdirGivesUp (s : DirState fm) (path : CStr) : Option Failure :=
  let made := fm.FSMakeFSSpec (fullPPath default_volume path) s.mac
  let named := cat.named made.2 s.mac
  failed made.1 <|> failed named.1 <|>
    if named.2.isDirectory ∧ ¬ 0 < named.2.ioDrNmFls then failed (cat.FSpDelete made.2 s.mac).1 else none

end DirState

namespace SocketState

def onSocket (s : SocketState ot) (sockfd : ℤ) (answers : SockIdx → Option Failure) : Option Failure :=
  match s.get_socket sockfd with
  | none => none
  | some i => answers i

/-- socket from OTOpenEndpoint on. -/
def openSocketGivesUp (i : SockIdx) (config : OTConfigurationRef) (net : ot.State) : Option Failure :=
  let opened := ot.call (.OTOpenEndpoint config) net
  failedOT opened.1.result <|>
    if opened.1.ref = kOTInvalidEndpointRef then some .noEndpoint
    else Failure.of .general (ot.call (.OTInstallNotifier opened.1.ref i) opened.2).1.result

def socketGivesUp (s : SocketState ot) (domain type protocol : ℤ) : Option Failure :=
  let started := s.init_open_transport
  Failure.of .general started.1 <|>
    if domain ≠ AF_INET then none
    else
      match configuration type protocol with
      | none => none
      | some (configStr, _) =>
        match started.2.alloc_socket with
        | (none, _) => none
        | (some i, t) =>
          let config := ot.call (.OTCreateConfiguration configStr) t.net
          if config.1.ref = kOTInvalidConfigurationRef then some .noConfiguration
          else openSocketGivesUp i config.1.ref config.2

def listenGivesUp (s : SocketState ot) (backlog : ℤ) (i : SockIdx) : Option Failure :=
  let sock := s.socket_table i
  if sock.type = SOCK_STREAM ∧ sock.bound then
    let net := (ot.call (.OTUnbind sock.ep) s.net).2
    failedOT (ot.call (.OTBind sock.ep sock.localAddr (queueLength backlog)) net).1.result
  else none

/-- accept from OTOpenEndpoint on. -/
def openAcceptedGivesUp (ep : EndpointRef) (call : TCall) (net : ot.State) : Option Failure :=
  let config := ot.call (.OTCreateConfiguration .kTCPName) net
  let opened := ot.call (.OTOpenEndpoint config.1.ref) config.2
  failedOT opened.1.result <|> failedOT (ot.call (.OTAccept ep opened.1.ref call) opened.2).1.result

def acceptGivesUp (s : SocketState ot) (i : SockIdx) : Option Failure :=
  let sock := s.socket_table i
  if ¬ sock.listening ∨ ot.waits (.OTListen sock.ep) s.net then none
  else
    let listened := s.callOT (.OTListen sock.ep)
    failedOT listened.1.result <|>
      match listened.2.alloc_socket with
      | (none, _) => none
      | (some _, t) => openAcceptedGivesUp (t.socket_table i).ep listened.1.call t.net

/-- A call that may wait, and fails with any result but success. -/
def waitingGivesUp (s : SocketState ot) (c : OTCall) : Option Failure :=
  if ot.waits c s.net then none else failedOT (ot.call c s.net).1.result

/-- A call that may wait, and returns a number of bytes or a negative result. -/
def transferGivesUp (s : SocketState ot) (c : OTCall) : Option Failure :=
  if ot.waits c s.net ∨ ¬ (ot.call c s.net).1.result < 0 then none else failedOT (ot.call c s.net).1.result

def sendGivesUp (s : SocketState ot) (buf : List UInt8) (flags : BitVec 32) (i : SockIdx) : Option Failure :=
  let sock := s.socket_table i
  if ¬ sock.connected ∧ sock.type = SOCK_STREAM then none
  else s.transferGivesUp (.OTSnd sock.ep buf (has flags MSG_OOB))

/-- Without data a blocking recv returns 0. -/
def recvGivesUp (s : SocketState ot) (len : ℕ) (i : SockIdx) : Option Failure :=
  let sock := s.socket_table i
  if (ot.call (.OTRcv sock.ep len) s.net).1.result = kOTNoDataErr ∧ ¬ sock.nonblocking then none
  else s.transferGivesUp (.OTRcv sock.ep len)

def sendtoGivesUp (s : SocketState ot) (buf : List UInt8) (flags : BitVec 32) (addr : InetAddress)
    (i : SockIdx) : Option Failure :=
  let sock := s.socket_table i
  if sock.type ≠ SOCK_DGRAM then s.sendGivesUp buf flags i
  else s.waitingGivesUp (.OTSndUData sock.ep addr buf)

def recvfromGivesUp (s : SocketState ot) (len : ℕ) (i : SockIdx) : Option Failure :=
  let sock := s.socket_table i
  if sock.type ≠ SOCK_DGRAM then s.recvGivesUp len i else s.waitingGivesUp (.OTRcvUData sock.ep len)

def shutdownGivesUp (s : SocketState ot) (how : ℤ) (i : SockIdx) : Option Failure :=
  if how = SHUT_WR ∨ how = SHUT_RDWR then
    failedOT (ot.call (.OTSndOrderlyDisconnect (s.socket_table i).ep) s.net).1.result
  else none

end SocketState

def DirState.errno (s : DirState fm) : ℤ := s.cwd.posix9_errno

/-- The number a call returns and the errno it leaves. -/
def outcome {α σ : Type} (ret : α → ℤ) (errno : σ → ℤ) (res : α × σ) : ℤ × ℤ := (ret res.1, errno res.2)

/-- The same of accept, which may go on. -/
def acceptOutcome (res : Option ℤ × SocketState ot) : Option (ℤ × ℤ) := res.1.map (·, res.2.posix9_errno)

namespace Layers

variable (cat : fm.Catalog) (default_volume : VolumeName)

/-- The answer an operation gives up on, if it gives up on one. -/
def gaveUpOn (s : Layers fm ot) : Operation → Option Failure
  | .open_ path flags => s.files.openGivesUp path flags
  | .close fd =>
    if s.files.posix9_is_socket fd then none
    else s.files.onFile fd fun entry => failed (fm.FSClose entry.refNum s.files.mac).1
  | .read fd count => s.files.onFile fd (s.files.readGivesUp count)
  | .write fd buf => s.files.onFile fd (s.files.writeGivesUp buf)
  | .lseek fd offset whence => s.files.onFile fd (s.files.lseekGivesUp offset whence)
  | .stat path => s.files.statGivesUp cat path
  | .fstat fd _ => s.files.onFile fd fun entry => failed (cat.GetEOF entry.refNum s.files.mac).1
  | .unlink path => s.files.unlinkGivesUp cat path
  | .rename oldpath newpath => s.files.renameGivesUp cat oldpath newpath
  | .ftruncate fd length => s.files.onFile fd fun entry => failed (fm.SetEOF entry.refNum length s.files.mac).1
  | .chdir path => s.dirs.chdirGivesUp cat default_volume path
  | .mkdir path => s.dirs.mkdirGivesUp cat default_volume path
  | .rmdir path => s.dirs.rmdirGivesUp cat default_volume path
  | .socket domain type protocol => s.sockets.socketGivesUp domain type protocol
  | .bind sockfd addr => s.sockets.onSocket sockfd fun i =>
    failedOT (ot.call (.OTBind (s.sockets.socket_table i).ep addr 0) s.sockets.net).1.result
  | .listen sockfd backlog => s.sockets.onSocket sockfd (s.sockets.listenGivesUp backlog)
  | .accept sockfd => s.sockets.onSocket sockfd s.sockets.acceptGivesUp
  | .connect sockfd addr => s.sockets.onSocket sockfd fun i =>
    s.sockets.waitingGivesUp (.OTConnect (s.sockets.socket_table i).ep addr)
  | .send sockfd buf flags => s.sockets.onSocket sockfd (s.sockets.sendGivesUp buf flags)
  | .recv sockfd len => s.sockets.onSocket sockfd (s.sockets.recvGivesUp len)
  | .sendto sockfd buf flags addr => s.sockets.onSocket sockfd (s.sockets.sendtoGivesUp buf flags addr)
  | .recvfrom sockfd len => s.sockets.onSocket sockfd (s.sockets.recvfromGivesUp len)
  | .shutdown sockfd how => s.sockets.onSocket sockfd (s.sockets.shutdownGivesUp how)

/-- What an operation returns and the errno it leaves, none if it has not returned. -/
def perform (s : Layers fm ot) : Operation → Option (ℤ × ℤ)
  | .open_ path flags => some (outcome id FileState.posix9_errno (s.files.open_ path flags))
  | .close fd => some (outcome id FileState.posix9_errno (s.files.close fd))
  | .read fd count => some (outcome Prod.fst FileState.posix9_errno (s.files.read fd count))
  | .write fd buf => some (outcome id FileState.posix9_errno (s.files.write fd buf))
  | .lseek fd offset whence => some (outcome id FileState.posix9_errno (s.files.lseek fd offset whence))
  | .stat path => some (outcome Prod.fst FileState.posix9_errno (s.files.stat cat path))
  | .fstat fd buf => some (outcome Prod.fst FileState.posix9_errno (s.files.fstat cat.toInfo fd buf))
  | .unlink path => some (outcome id FileState.posix9_errno (s.files.unlink cat path))
  | .rename oldpath newpath =>
    some (outcome id FileState.posix9_errno (s.files.rename cat oldpath newpath))
  | .ftruncate fd length => some (outcome id FileState.posix9_errno (s.files.ftruncate fd length))
  | .chdir path =>
    some (outcome id CwdState.posix9_errno (s.dirs.cwd.chdir cat.toInfo default_volume path))
  | .mkdir path => some (outcome id DirState.errno (s.dirs.mkdir cat default_volume path))
  | .rmdir path => some (outcome id DirState.errno (s.dirs.rmdir cat default_volume path))
  | .socket domain type protocol =>
    some (outcome id SocketState.posix9_errno (s.sockets.socket domain type protocol))
  | .bind sockfd addr => some (outcome id SocketState.posix9_errno (s.sockets.bind sockfd addr))
  | .listen sockfd backlog => some (outcome id SocketState.posix9_errno (s.sockets.listen sockfd backlog))
  | .accept sockfd => (s.sockets.accept sockfd).bind acceptOutcome
  | .connect sockfd addr => (s.sockets.connect sockfd addr).map (outcome id SocketState.posix9_errno)
  | .send sockfd buf flags => (s.sockets.send sockfd buf flags).map (outcome id SocketState.posix9_errno)
  | .recv sockfd len => (s.sockets.recv sockfd len).map (outcome Prod.fst SocketState.posix9_errno)
  | .sendto sockfd buf flags addr =>
    (s.sockets.sendto sockfd buf flags addr).map (outcome id SocketState.posix9_errno)
  | .recvfrom sockfd len => (s.sockets.recvfrom sockfd len).map (outcome Prod.fst SocketState.posix9_errno)
  | .shutdown sockfd how => some (outcome id SocketState.posix9_errno (s.sockets.shutdown sockfd how))

/-- With errno set to 0. -/
def cleared (s : Layers fm ot) : Layers fm ot := ⟨s.files.setErrno 0, s.dirs.setErrno 0, s.sockets.setErrno 0⟩

/-- If the operation fails, it sets errno, and not to 0. -/
def SetsErrno (s : Layers fm ot) (op : Operation) : Prop :=
  ∀ e, s.cleared.perform cat default_volume op = some (-1, e) → e ≠ 0

end Layers

/-! ### The translations -/

variable {cat : fm.Catalog} {default_volume : VolumeName} {s : Layers fm ot} {err r e : ℤ} {f g : Option Failure}

theorem macos_to_errno_eq_zero : posix9_macos_to_errno err = 0 ↔ err = noErr ∨ err = eofErr := by
  constructor
  · intro h
    by_contra hne
    rw [not_or] at hne
    refine absurd h ?_
    rw [posix9_macos_to_errno, if_neg hne.1, if_neg hne.2]
    repeat' first | decide | refine FileState.ite_ne ?_ ?_
  · rintro (rfl | rfl) <;> decide

theorem ot_error_to_errno_eq_zero : ot_error_to_errno err = 0 ↔ err = noErr ∨ err = kOTNoUDErr := by
  have hzero : ∀ p ∈ otErrors, p.2 = 0 → p.1 = noErr ∨ p.1 = kOTNoUDErr := by decide
  constructor
  · intro h
    rw [ot_error_to_errno] at h
    rcases hlookup : otErrors.lookup err with _ | errno
    · rw [hlookup] at h
      exact absurd h (by decide)
    · rw [hlookup] at h
      obtain ⟨before, after, heq, -⟩ := List.lookup_eq_some_iff.mp hlookup
      have hmem : (err, errno) ∈ otErrors := heq ▸ List.mem_append_right before List.mem_cons_self
      exact hzero (err, errno) hmem h
  · rintro (rfl | rfl) <;> decide

theorem Failure.errno_eq_zero (f : Failure) : f.errno = 0 ↔ ¬ f.Reported := by
  cases f with
  | fileManager err h =>
    rw [errno, macos_to_errno_eq_zero, Reported, not_not]
    exact or_iff_right h
  | openTransport err h =>
    rw [errno, ot_error_to_errno_eq_zero, Reported, not_not]
    exact or_iff_right h
  | noEndpoint => exact iff_of_true (by decide) fun h => h
  | noConfiguration => exact iff_of_false (by decide) fun h => h trivial
  | general err h => exact iff_of_false (by decide : EIO ≠ 0) fun h => h trivial

/-! ### How an operation ends -/

/-- The operation has given up on `f`, or on no answer. -/
def Ends (f : Option Failure) (res : Option (ℤ × ℤ)) : Prop :=
  match f with
  | some f => res = some (-1, f.errno)
  | none => ∀ e, res = some (-1, e) → e ≠ 0

variable {failure : (err : ℤ) → err ≠ noErr → Failure} {res : Option (ℤ × ℤ)}

theorem Ends.returned (h : r ≠ -1) : Ends none (some (r, e)) := by
  rintro e' ⟨⟩
  exact absurd rfl h

theorem Ends.succeeded : Ends none (some (0, e)) := Ends.returned (by decide)

theorem Ends.refused (h : e ≠ 0) : Ends none (some (-1, e)) := by
  rintro e' ⟨⟩
  exact h

theorem Ends.waits : Ends none none := by
  rintro e ⟨⟩

/-- A result is looked at: the call gives up on it, or goes on and gives up on what comes behind. -/
theorem Ends.or (hbad : ∀ h : err ≠ noErr, res = some (-1, (failure err h).errno))
    (hok : err = noErr → Ends g res) : Ends (Failure.of failure err <|> g) res := by
  rw [Failure.of]
  split
  · rename_i h
    exact hok h
  · rename_i h
    exact hbad h

/-- The last result the call looks at. -/
theorem Ends.last (hbad : ∀ h : err ≠ noErr, res = some (-1, (failure err h).errno))
    (hok : err = noErr → Ends none res) : Ends (Failure.of failure err) res := by
  have hends := Ends.or hbad hok
  simpa using hends

/-- The same, as the calls spell it. -/
theorem Ends.or_ite {α : Type} (out : α → Option (ℤ × ℤ)) {a b : α}
    (hbad : ∀ h : err ≠ noErr, out a = some (-1, (failure err h).errno)) (hok : err = noErr → Ends g (out b)) :
    Ends (Failure.of failure err <|> g) (out (if err ≠ noErr then a else b)) := by
  refine Ends.or (fun h => ?_) fun h => ?_
  · rw [if_pos h]
    exact hbad h
  · rw [if_neg (not_not.mpr h)]
    exact hok h

theorem Ends.last_ite {α : Type} (out : α → Option (ℤ × ℤ)) {a b : α}
    (hbad : ∀ h : err ≠ noErr, out a = some (-1, (failure err h).errno)) (hok : err = noErr → Ends none (out b)) :
    Ends (Failure.of failure err) (out (if err ≠ noErr then a else b)) := by
  have hends := Ends.or_ite out hbad hok
  simpa using hends

theorem Ends.badFd : Ends none (some (-1, EBADF)) := Ends.refused (by decide)

theorem nat_ne_neg_one (n : ℕ) : (n : ℤ) ≠ -1 := by omega

theorem ne_neg_one (h : ¬ r < 0) : r ≠ -1 := by omega

theorem ne_noErr (h : r < 0) : r ≠ noErr := by
  rw [noErr]
  omega

/-! ### Files -/

namespace FileState

variable {files : FileState fm} {flags : BitVec 32} {spec : FSSpec} {fd : ℤ}

/-- A call that ends with the result it has found. -/
theorem ends_result (err : OSErr) (hr : err = noErr → r ≠ -1) :
    Ends (failed err) (some (outcome id posix9_errno (if err ≠ noErr then files.fail err else (r, files)))) := by
  refine Ends.last_ite (some <| outcome id posix9_errno ·) (fun _ => rfl) fun h => ?_
  exact Ends.returned (hr h)

theorem seekEnd_mac (s : FileState fm) (flags : BitVec 32) (origin : ℕ) (r : RefNum) :
    (s.seekEnd flags origin r).mac =
      if has flags O_APPEND then (fm.SetFPos r .fsFromLEOF 0 s.mac).2 else s.mac := by
  rw [seekEnd]
  split <;> rfl

theorem openFork_outcome (files : FileState fm) (flags : BitVec 32) (spec : FSSpec) :
    Ends (failed (fm.FSpOpenDF spec (permission flags) files.mac).1.1)
      (some (outcome id posix9_errno (files.openFork flags spec))) := by
  rw [openFork, FSpOpenDF]
  rcases fm.FSpOpenDF spec (permission flags) files.mac with ⟨⟨err, refNum⟩, mac⟩
  dsimp only
  refine Ends.last_ite (some <| outcome id posix9_errno ·) (fun _ => rfl) fun _ => ?_
  generalize seekEnd _ _ _ _ = t
  rcases alloc_fd_cases t with ⟨i, -, -, halloc⟩ | ⟨-, halloc⟩
  · rw [halloc]
    exact Ends.returned (fd_ne_neg_one i)
  · rw [halloc]
    exact Ends.refused (by decide : EMFILE ≠ 0)

theorem openResolved_outcome (files : FileState fm) (flags : BitVec 32) (made : OSErr × FSSpec) :
    Ends (openResolvedGivesUp flags made files.mac)
      (some (outcome id posix9_errno (files.openResolved flags made.1 made.2))) := by
  rw [openResolvedGivesUp, openResolved]
  split
  · exact Ends.refused (by decide : EEXIST ≠ 0)
  refine Ends.or_ite (some <| outcome id posix9_errno ·) (fun _ => rfl) fun _ => ?_
  exact openFork_outcome files flags made.2

theorem open_outcome (files : FileState fm) (path : CStr) (flags : BitVec 32) :
    Ends (files.openGivesUp path flags) (some (outcome id posix9_errno (files.open_ path flags))) := by
  rcases hmake : fm.FSMakeFSSpec (basicPPath path) files.mac with ⟨err, spec⟩
  rw [openGivesUp, hmake]
  by_cases habsent : err = fnfErr ∧ has flags O_CREAT
  · rcases hcreate : fm.FSpCreate spec files.mac with ⟨created, mac⟩
    rw [open_creates hmake habsent hcreate rfl]
    dsimp only
    rw [if_pos habsent]
    split
    · rename_i hfailed
      exact Ends.last (fun _ => rfl) fun h => absurd h hfailed.1
    · exact openResolved_outcome { files.init_fd_table with mac } flags _
  · rw [open_resolves hmake habsent]
    dsimp only
    rw [if_neg habsent, ← init_mac]
    exact openResolved_outcome files.init_fd_table flags (err, spec)

theorem closeSocket_outcome (files : FileState fm) (fd : ℤ) :
    Ends none (some (outcome id posix9_errno (files.posix9_close_socket fd))) := by
  rw [posix9_close_socket]
  split
  · split
    · exact Ends.succeeded
    · exact Ends.badFd
  · exact Ends.badFd

theorem close_outcome (files : FileState fm) (fd : ℤ) :
    Ends (if files.posix9_is_socket fd then none
        else files.onFile fd fun entry => failed (fm.FSClose entry.refNum files.mac).1)
      (some (outcome id posix9_errno (files.close fd))) := by
  rw [close, onFile]
  split
  · exact closeSocket_outcome files fd
  rcases files.get_fd_entry fd with _ | i
  · exact Ends.badFd
  dsimp only
  rw [closeEntry]
  split
  · exact Ends.succeeded
  · exact ends_result _ fun _ => by decide

theorem write_outcome (files : FileState fm) (fd : ℤ) (buf : List UInt8) :
    Ends (files.onFile fd (files.writeGivesUp buf)) (some (outcome id posix9_errno (files.write fd buf))) := by
  rw [write, onFile]
  rcases files.get_fd_entry fd with _ | i
  · exact Ends.badFd
  dsimp only
  split
  · split
    · exact Ends.returned (nat_ne_neg_one _)
    · exact Ends.badFd
  · rw [writeGivesUp, ← seekEnd_mac]
    exact ends_result _ fun _ => nat_ne_neg_one _

theorem lseek_outcome (hmarks : fm.MarksNonneg) (files : FileState fm) (fd offset whence : ℤ) :
    Ends (files.onFile fd (files.lseekGivesUp offset whence))
      (some (outcome id posix9_errno (files.lseek fd offset whence))) := by
  rw [lseek, onFile]
  rcases files.get_fd_entry fd with _ | i
  · exact Ends.badFd
  dsimp only
  split
  · exact Ends.refused (by decide : ESPIPE ≠ 0)
  rw [lseekGivesUp]
  rcases posMode whence with _ | mode
  · exact Ends.refused (by decide : EINVAL ≠ 0)
  dsimp only
  rw [FileState.SetFPos]
  rcases fm.SetFPos (files.fd_table i).refNum mode offset files.mac with ⟨err, mac⟩
  dsimp only
  refine Ends.or_ite (some <| outcome id posix9_errno ·) (fun _ => rfl) fun _ => ?_
  refine ends_result _ fun h => ?_
  have hpos : 0 ≤ (fm.GetFPos (files.fd_table i).refNum mac).2 := hmarks _ mac h
  exact ne_neg_one (Int.not_lt.mpr hpos)

theorem read_outcome (files : FileState fm) (fd : ℤ) (count : ℕ) :
    Ends (files.onFile fd (files.readGivesUp count))
      (some (outcome Prod.fst posix9_errno (files.read fd count))) := by
  rw [read, onFile]
  rcases files.get_fd_entry fd with _ | i
  · exact Ends.badFd
  dsimp only
  split
  · refine Ends.refused (ite_ne ?_ ?_) <;> decide
  rw [readGivesUp, FSRead]
  rcases fm.FSRead (files.fd_table i).refNum count files.mac with ⟨⟨err, bytes⟩, mac⟩
  dsimp only
  split
  · exact Ends.returned (nat_ne_neg_one _)
  refine Ends.last_ite (some <| outcome Prod.fst posix9_errno ·) (fun _ => rfl) fun _ => ?_
  exact Ends.returned (nat_ne_neg_one _)

theorem ftruncate_outcome (files : FileState fm) (fd length : ℤ) :
    Ends (files.onFile fd fun entry => failed (fm.SetEOF entry.refNum length files.mac).1)
      (some (outcome id posix9_errno (files.ftruncate fd length))) := by
  rw [ftruncate, onFile]
  rcases files.get_fd_entry fd with _ | i
  · exact Ends.badFd
  dsimp only
  split
  · exact Ends.refused (by decide : EINVAL ≠ 0)
  · exact ends_result _ fun _ => by decide

theorem fstat_outcome (cat : fm.Catalog) (files : FileState fm) (fd : ℤ) (buf : Stat) :
    Ends (files.onFile fd fun entry => failed (cat.GetEOF entry.refNum files.mac).1)
      (some (outcome Prod.fst posix9_errno (files.fstat cat.toInfo fd buf))) := by
  rw [fstat, onFile]
  rcases files.get_fd_entry fd with _ | i
  · exact Ends.badFd
  dsimp only
  split
  · exact Ends.succeeded
  exact Ends.last_ite (some <| outcome Prod.fst posix9_errno ·) (fun _ => rfl) fun _ => Ends.succeeded

theorem stat_outcome (cat : fm.Catalog) (files : FileState fm) (path : CStr) :
    Ends (files.statGivesUp cat path) (some (outcome Prod.fst posix9_errno (files.stat cat path))) := by
  rw [stat, statGivesUp]
  rcases fm.FSMakeFSSpec (basicPPath path) files.mac with ⟨err, spec⟩
  dsimp only
  refine Ends.or_ite (some <| outcome Prod.fst posix9_errno ·) (fun _ => rfl) fun _ => ?_
  rcases cat.named spec files.mac with ⟨err, obj⟩
  dsimp only
  refine Ends.last_ite (some <| outcome Prod.fst posix9_errno ·) (fun _ => rfl) fun _ => ?_
  exact Ends.succeeded

theorem unlink_outcome (cat : fm.Catalog) (files : FileState fm) (path : CStr) :
    Ends (files.unlinkGivesUp cat path) (some (outcome id posix9_errno (files.unlink cat path))) := by
  rw [unlink, unlinkGivesUp]
  rcases fm.FSMakeFSSpec (basicPPath path) files.mac with ⟨err, spec⟩
  dsimp only
  refine Ends.or_ite (some <| outcome id posix9_errno ·) (fun _ => rfl) fun _ => ?_
  exact ends_result _ fun _ => by decide

theorem rename_outcome (cat : fm.Catalog) (files : FileState fm) (oldpath newpath : CStr) :
    Ends (files.renameGivesUp cat oldpath newpath)
      (some (outcome id posix9_errno (files.rename cat oldpath newpath))) := by
  rw [rename, renameGivesUp]
  rcases fm.FSMakeFSSpec (basicPPath oldpath) files.mac with ⟨err, spec⟩
  dsimp only
  refine Ends.or_ite (some <| outcome id posix9_errno ·) (fun _ => rfl) fun _ => ?_
  exact ends_result _ fun _ => by decide

end FileState

/-! ### Directories -/

namespace DirState

variable {dirs : DirState fm}

/-- A resolution that fnfErr does not end. -/
theorem ends_found (hbad : err ≠ noErr → err ≠ fnfErr → res = some (-1, posix9_macos_to_errno err))
    (hok : ¬(err ≠ noErr ∧ err ≠ fnfErr) → Ends g res) : Ends (failedButFound err <|> g) res := by
  rw [failedButFound]
  split
  · rename_i hfound
    exact hok fun h => h.2 hfound
  · rename_i hfound
    exact Ends.or (fun h => hbad h hfound) fun h => hok fun habs => habs.1 h

theorem chdir_outcome (cat : fm.Catalog) (default_volume : VolumeName) (dirs : DirState fm) (path : CStr) :
    Ends (dirs.chdirGivesUp cat default_volume path)
      (some (outcome id CwdState.posix9_errno (dirs.cwd.chdir cat.toInfo default_volume path))) := by
  have hmac : (dirs.cwd.initFor cat.toInfo default_volume path).mac = dirs.mac :=
    (CwdState.initFor_spec cat.toInfo default_volume dirs.cwd path).1
  rw [chdirGivesUp, CwdState.chdir]
  generalize dirs.cwd.initFor cat.toInfo default_volume path = t at hmac
  rw [← hmac]
  rcases fm.FSMakeFSSpec (fullPPath default_volume path) t.mac with ⟨err, spec⟩
  dsimp only
  refine ends_found (fun h hfound => ?_) fun h => ?_
  · rw [if_pos ⟨h, hfound⟩]
    rfl
  rw [if_neg h]
  refine Ends.last_ite (some <| outcome id CwdState.posix9_errno ·) (fun _ => rfl) fun _ => ?_
  split
  · exact Ends.refused (by decide : ENOTDIR ≠ 0)
  · exact Ends.succeeded

/-- A call that ends with the result it has found. -/
theorem ends_result (err : OSErr) :
    Ends (failed err) (some (outcome id errno (if err ≠ noErr then dirs.fail err else (0, dirs)))) := by
  refine Ends.last_ite (some <| outcome id errno ·) (fun _ => rfl) fun _ => ?_
  exact Ends.succeeded

theorem dirCreate_outcome (cat : fm.Catalog) (dirs : DirState fm) (vRefNum dirID : ℤ) (dirname : Str255) :
    Ends (failed (cat.DirCreate vRefNum dirID dirname dirs.mac).1)
      (some (outcome id errno (dirs.dirCreate cat vRefNum dirID dirname))) := by
  rw [dirCreate]
  exact ends_result _

theorem mkdir_outcome (cat : fm.Catalog) (default_volume : VolumeName) (dirs : DirState fm) (path : CStr) :
    Ends (dirs.mkdirGivesUp cat default_volume path)
      (some (outcome id errno (dirs.mkdir cat default_volume path))) := by
  have hmac : (dirs.initFor cat default_volume path).mac = dirs.mac :=
    (CwdState.initFor_spec cat.toInfo default_volume dirs.cwd path).1
  rw [mkdirGivesUp, mkdir]
  dsimp -iota only
  generalize dirs.initFor cat default_volume path = t at hmac
  rw [← hmac]
  generalize posix9_path_to_mac default_volume path POSIX9_PATH_MAX = mac_path
  split
  · rcases fm.FSMakeFSSpec (c_to_pstr (parentPath (strncpyNul mac_path POSIX9_PATH_MAX))) t.mac with ⟨err, spec⟩
    dsimp only
    refine ends_found (fun h hfound => ?_) fun h => ?_
    · rw [if_pos ⟨h, hfound⟩]
      rfl
    rw [if_neg h]
    rcases cat.named spec t.mac with ⟨err, obj⟩
    dsimp only
    refine Ends.or_ite (some <| outcome id errno ·) (fun _ => rfl) fun _ => ?_
    exact dirCreate_outcome cat t _ _ _
  · exact dirCreate_outcome cat t _ _ _

theorem rmdir_outcome (cat : fm.Catalog) (default_volume : VolumeName) (dirs : DirState fm) (path : CStr) :
    Ends (dirs.rmdirGivesUp cat default_volume path)
      (some (outcome id errno (dirs.rmdir cat default_volume path))) := by
  have hmac : (dirs.initFor cat default_volume path).mac = dirs.mac :=
    (CwdState.initFor_spec cat.toInfo default_volume dirs.cwd path).1
  rw [rmdirGivesUp, rmdir]
  generalize dirs.initFor cat default_volume path = t at hmac
  rw [← hmac]
  rcases fm.FSMakeFSSpec (fullPPath default_volume path) t.mac with ⟨err, spec⟩
  dsimp only
  refine Ends.or_ite (some <| outcome id errno ·) (fun _ => rfl) fun _ => ?_
  rcases cat.named spec t.mac with ⟨err, obj⟩
  dsimp only
  refine Ends.or_ite (some <| outcome id errno ·) (fun _ => rfl) fun _ => ?_
  by_cases hdir : obj.isDirectory = true
  · rw [if_neg (not_not.mpr hdir)]
    by_cases hempty : 0 < obj.ioDrNmFls
    · rw [if_pos hempty, if_neg fun habs => habs.2 hempty]
      exact Ends.refused (by decide : ENOTEMPTY ≠ 0)
    · rw [if_neg hempty, if_pos ⟨hdir, hempty⟩]
      exact ends_result _
  · rw [if_pos hdir, if_neg fun habs => hdir habs.1]
    exact Ends.refused (by decide : ENOTDIR ≠ 0)

end DirState

/-! ### Sockets -/

namespace SocketState

variable {sockets : SocketState ot} {i : SockIdx}

/-- A call that ends with the result it has found. -/
theorem ends_result (err : OTResult) {t : SocketState ot} :
    Ends (failedOT err) (some (outcome id posix9_errno (if err ≠ noErr then sockets.failOT err else (0, t)))) := by
  refine Ends.last_ite (some <| outcome id posix9_errno ·) (fun _ => rfl) fun _ => ?_
  exact Ends.succeeded

theorem openSocket_outcome (sockets : SocketState ot) (i : SockIdx) (config : OTConfigurationRef)
    (domain type protocol : ℤ) :
    Ends (openSocketGivesUp i config sockets.net)
      (some (outcome id posix9_errno (sockets.openSocket i config domain type protocol))) := by
  rw [openSocketGivesUp, openSocket, callOT]
  rcases ot.call (.OTOpenEndpoint config) sockets.net with ⟨opened, net⟩
  dsimp only
  refine Ends.or (fun h => ?_) fun h => ?_
  · rw [if_pos (.inl h)]
    rfl
  split
  · rename_i href
    rw [if_pos (.inr href)]
    change some (-1, ot_error_to_errno opened.result) = some (-1, ot_error_to_errno noErr)
    rw [h]
  rename_i href
  rw [if_neg (not_or.mpr ⟨not_not.mpr h, href⟩)]
  refine Ends.last_ite (some <| outcome id posix9_errno ·) (fun _ => rfl) fun _ => ?_
  exact Ends.returned (by simp only [id, sockFd, SOCKET_FD_BASE]; omega)

theorem socket_outcome (sockets : SocketState ot) (domain type protocol : ℤ) :
    Ends (sockets.socketGivesUp domain type protocol)
      (some (outcome id posix9_errno (sockets.socket domain type protocol))) := by
  rw [socketGivesUp, socket]
  rcases sockets.init_open_transport with ⟨err, t⟩
  dsimp only
  refine Ends.or_ite (some <| outcome id posix9_errno ·) (fun _ => rfl) fun _ => ?_
  split
  · exact Ends.refused (by decide : EAFNOSUPPORT ≠ 0)
  rcases configuration type protocol with _ | ⟨configStr, protocol⟩
  · exact Ends.refused (by decide : ESOCKTNOSUPPORT ≠ 0)
  dsimp only
  rcases alloc_cases t with halloc | ⟨i, -, halloc⟩
  · rw [halloc]
    exact Ends.refused (by decide : EMFILE ≠ 0)
  rw [halloc]
  generalize t.init_socket_table.updateEntry i _ = u
  dsimp only
  rw [callOT]
  rcases ot.call (.OTCreateConfiguration configStr) u.net with ⟨config, net⟩
  dsimp only
  have hopen : ∀ v : SocketState ot, v.net = net → Ends (openSocketGivesUp i config.ref net)
      (some (outcome id posix9_errno (v.openSocket i config.ref domain type protocol))) := by
    rintro v rfl
    exact openSocket_outcome v i config.ref domain type protocol
  by_cases hconfig : config.ref = kOTInvalidConfigurationRef
  · rw [if_pos hconfig, if_pos hconfig]
    rfl
  · rw [if_neg hconfig, if_neg hconfig]
    exact hopen _ rfl

theorem bind_outcome (sockets : SocketState ot) (sockfd : ℤ) (addr : InetAddress) :
    Ends (sockets.onSocket sockfd fun i =>
        failedOT (ot.call (.OTBind (sockets.socket_table i).ep addr 0) sockets.net).1.result)
      (some (outcome id posix9_errno (sockets.bind sockfd addr))) := by
  rw [bind, onSocket]
  rcases sockets.get_socket sockfd with _ | i
  · exact Ends.badFd
  · exact ends_result _

theorem listen_outcome (sockets : SocketState ot) (sockfd backlog : ℤ) :
    Ends (sockets.onSocket sockfd (sockets.listenGivesUp backlog))
      (some (outcome id posix9_errno (sockets.listen sockfd backlog))) := by
  rw [listen, onSocket]
  rcases sockets.get_socket sockfd with _ | i
  · exact Ends.badFd
  change Ends (sockets.listenGivesUp backlog i) _
  rw [listenGivesUp]
  dsimp only
  by_cases htype : (sockets.socket_table i).type = SOCK_STREAM
  · rw [if_neg (not_not.mpr htype)]
    by_cases hbound : (sockets.socket_table i).bound = true
    · rw [if_pos hbound, if_pos ⟨htype, hbound⟩]
      exact ends_result _
    · rw [if_neg hbound, if_neg fun h => hbound h.2]
      exact Ends.succeeded
  · rw [if_pos htype, if_neg fun h => htype h.1]
    exact Ends.refused (by decide : EOPNOTSUPP ≠ 0)

theorem shutdown_outcome (sockets : SocketState ot) (sockfd how : ℤ) :
    Ends (sockets.onSocket sockfd (sockets.shutdownGivesUp how))
      (some (outcome id posix9_errno (sockets.shutdown sockfd how))) := by
  rw [shutdown, onSocket]
  rcases sockets.get_socket sockfd with _ | i
  · exact Ends.badFd
  dsimp only
  rw [shutdownGivesUp]
  split
  · exact ends_result _
  · exact Ends.succeeded

theorem connect_outcome (sockets : SocketState ot) (sockfd : ℤ) (addr : InetAddress) :
    Ends (sockets.onSocket sockfd fun i =>
        sockets.waitingGivesUp (.OTConnect (sockets.socket_table i).ep addr))
      ((sockets.connect sockfd addr).map (outcome id posix9_errno)) := by
  rw [connect, onSocket]
  rcases sockets.get_socket sockfd with _ | i
  · exact Ends.badFd
  dsimp only
  rw [waitingGivesUp]
  split
  · exact Ends.waits
  refine Ends.last_ite (Option.map (outcome id posix9_errno)) (fun _ => rfl) fun _ => ?_
  exact Ends.succeeded

/-- A transfer of bytes, once it has returned. -/
theorem transfer_outcome (sockets : SocketState ot) (c : OTCall) :
    Ends (sockets.transferGivesUp c)
      ((if ot.waits c sockets.net then none
        else
          let (r, t) := sockets.callOT c
          if r.result < 0 then some (t.failOT r.result) else some (r.result, t)).map
        (outcome id posix9_errno)) := by
  rw [transferGivesUp, callOT]
  by_cases hwaits : ot.waits c sockets.net = true
  · rw [if_pos (.inl hwaits), if_pos hwaits]
    exact Ends.waits
  rw [if_neg hwaits]
  rcases ot.call c sockets.net with ⟨r, net⟩
  dsimp only
  by_cases hneg : r.result < 0
  · rw [if_neg (not_or.mpr ⟨hwaits, not_not.mpr hneg⟩), if_pos hneg]
    exact Ends.last (fun _ => rfl) fun h => absurd h (ne_noErr hneg)
  · rw [if_pos (.inr hneg), if_neg hneg]
    exact Ends.returned (ne_neg_one hneg)

theorem send_outcome (sockets : SocketState ot) (sockfd : ℤ) (buf : List UInt8) (flags : BitVec 32) :
    Ends (sockets.onSocket sockfd (sockets.sendGivesUp buf flags))
      ((sockets.send sockfd buf flags).map (outcome id posix9_errno)) := by
  rw [send, onSocket]
  rcases sockets.get_socket sockfd with _ | i
  · exact Ends.badFd
  change Ends (sockets.sendGivesUp buf flags i) _
  rw [sendGivesUp]
  dsimp only
  split
  · exact Ends.refused (by decide : ENOTCONN ≠ 0)
  · exact transfer_outcome sockets _

theorem recv_outcome (sockets : SocketState ot) (sockfd : ℤ) (len : ℕ) :
    Ends (sockets.onSocket sockfd (sockets.recvGivesUp len))
      ((sockets.recv sockfd len).map (outcome Prod.fst posix9_errno)) := by
  rw [recv, onSocket]
  rcases sockets.get_socket sockfd with _ | i
  · exact Ends.badFd
  change Ends (sockets.recvGivesUp len i) _
  rw [recvGivesUp, transferGivesUp]
  dsimp only
  by_cases hwaits : ot.waits (.OTRcv (sockets.socket_table i).ep len) sockets.net = true
  · have hor : ot.waits (.OTRcv (sockets.socket_table i).ep len) sockets.net = true ∨
        ¬ (ot.call (.OTRcv (sockets.socket_table i).ep len) sockets.net).1.result < 0 := .inl hwaits
    rw [if_pos hor, ite_self, if_pos hwaits]
    exact Ends.waits
  rw [if_neg hwaits, callOT]
  rcases ot.call (.OTRcv (sockets.socket_table i).ep len) sockets.net with ⟨r, net⟩
  dsimp only
  by_cases hneg : r.result < 0
  · rw [if_neg (not_or.mpr ⟨hwaits, not_not.mpr hneg⟩), if_pos hneg]
    by_cases hnone : r.result = kOTNoDataErr
    · rw [if_pos hnone]
      by_cases hmode : (sockets.socket_table i).nonblocking = true
      · rw [if_pos hmode, if_neg fun h => h.2 hmode]
        refine Ends.last (fun _ => ?_) fun h => absurd h (ne_noErr hneg)
        change some (-1, EAGAIN) = some (-1, ot_error_to_errno r.result)
        rw [hnone]
        rfl
      · rw [if_neg hmode, if_pos ⟨hnone, hmode⟩]
        exact Ends.succeeded
    · rw [if_neg hnone, if_neg fun h => hnone h.1]
      exact Ends.last (fun _ => rfl) fun h => absurd h (ne_noErr hneg)
  · have hor : ot.waits (.OTRcv (sockets.socket_table i).ep len) sockets.net = true ∨ ¬ r.result < 0 := .inr hneg
    rw [if_pos hor, ite_self, if_neg hneg]
    exact Ends.returned (ne_neg_one hneg)

theorem sendto_outcome (sockets : SocketState ot) (sockfd : ℤ) (buf : List UInt8) (flags : BitVec 32)
    (addr : InetAddress) :
    Ends (sockets.onSocket sockfd (sockets.sendtoGivesUp buf flags addr))
      ((sockets.sendto sockfd buf flags addr).map (outcome id posix9_errno)) := by
  have hsend := send_outcome sockets sockfd buf flags
  rw [onSocket] at hsend
  rw [sendto, onSocket]
  rcases hsock : sockets.get_socket sockfd with _ | i
  · exact Ends.badFd
  rw [hsock] at hsend
  change Ends (sockets.sendtoGivesUp buf flags addr i) _
  rw [sendtoGivesUp]
  dsimp only
  split
  · exact hsend
  rw [waitingGivesUp]
  split
  · exact Ends.waits
  refine Ends.last_ite (Option.map (outcome id posix9_errno)) (fun _ => rfl) fun _ => ?_
  exact Ends.returned (nat_ne_neg_one _)

theorem recvfrom_outcome (sockets : SocketState ot) (sockfd : ℤ) (len : ℕ) :
    Ends (sockets.onSocket sockfd (sockets.recvfromGivesUp len))
      ((sockets.recvfrom sockfd len).map (outcome Prod.fst posix9_errno)) := by
  have hrecv := recv_outcome sockets sockfd len
  rw [onSocket] at hrecv
  rw [recvfrom, onSocket]
  rcases hsock : sockets.get_socket sockfd with _ | i
  · exact Ends.badFd
  rw [hsock] at hrecv
  change Ends (sockets.recvfromGivesUp len i) _
  rw [recvfromGivesUp]
  dsimp only
  split
  · rw [Option.map_map]
    exact hrecv
  rw [waitingGivesUp]
  split
  · exact Ends.waits
  refine Ends.last_ite (Option.map (outcome Prod.fst posix9_errno)) (fun _ => rfl) fun _ => ?_
  exact Ends.returned (nat_ne_neg_one _)

theorem openAccepted_outcome (sockets : SocketState ot) (i newsock : SockIdx) (call : TCall) :
    Ends (openAcceptedGivesUp (sockets.socket_table i).ep call sockets.net)
      (acceptOutcome (sockets.openAccepted i newsock call)) := by
  rw [openAcceptedGivesUp, openAccepted]
  dsimp only
  refine Ends.or_ite acceptOutcome (fun _ => rfl) fun _ => ?_
  refine Ends.last_ite acceptOutcome (fun _ => rfl) fun _ => ?_
  exact Ends.waits

theorem accept_outcome (sockets : SocketState ot) (sockfd : ℤ) :
    Ends (sockets.onSocket sockfd sockets.acceptGivesUp) ((sockets.accept sockfd).bind acceptOutcome) := by
  rw [accept, onSocket]
  rcases sockets.get_socket sockfd with _ | i
  · exact Ends.badFd
  change Ends (sockets.acceptGivesUp i) _
  rw [acceptGivesUp]
  dsimp only
  by_cases hlistening : (sockets.socket_table i).listening = true
  · rw [if_neg (not_not.mpr hlistening)]
    by_cases hwaits : ot.waits (.OTListen (sockets.socket_table i).ep) sockets.net = true
    · rw [if_pos (.inr hwaits), if_pos hwaits]
      exact Ends.waits
    rw [if_neg (not_or.mpr ⟨not_not.mpr hlistening, hwaits⟩), if_neg hwaits]
    rcases sockets.callOT (.OTListen (sockets.socket_table i).ep) with ⟨listened, t⟩
    refine Ends.or (fun h => ?_) fun h => ?_
    · dsimp only
      rw [if_pos h]
      rfl
    dsimp only
    rw [if_neg (not_not.mpr h)]
    rcases alloc_cases t with halloc | ⟨newsock, -, halloc⟩
    · rw [halloc]
      exact Ends.refused (by decide : EMFILE ≠ 0)
    · rw [halloc]
      exact openAccepted_outcome _ i newsock listened.call
  · rw [if_pos (.inl hlistening), if_pos hlistening]
    exact Ends.refused (by decide : EINVAL ≠ 0)

end SocketState

/-! ### Every operation -/

namespace Layers

/-- A call that gives up on an answer returns -1 with the number of the failure; any other that returns -1 has
    set errno. -/
theorem ends (hmarks : fm.MarksNonneg) (cat : fm.Catalog) (default_volume : VolumeName) (s : Layers fm ot)
    (op : Operation) : Ends (s.gaveUpOn cat default_volume op) (s.perform cat default_volume op) := by
  cases op with
  | open_ path flags => exact s.files.open_outcome path flags
  | close fd => exact s.files.close_outcome fd
  | read fd count => exact s.files.read_outcome fd count
  | write fd buf => exact s.files.write_outcome fd buf
  | lseek fd offset whence => exact FileState.lseek_outcome hmarks s.files fd offset whence
  | stat path => exact FileState.stat_outcome cat s.files path
  | fstat fd buf => exact FileState.fstat_outcome cat s.files fd buf
  | unlink path => exact FileState.unlink_outcome cat s.files path
  | rename oldpath newpath => exact FileState.rename_outcome cat s.files oldpath newpath
  | ftruncate fd length => exact s.files.ftruncate_outcome fd length
  | chdir path => exact DirState.chdir_outcome cat default_volume s.dirs path
  | mkdir path => exact DirState.mkdir_outcome cat default_volume s.dirs path
  | rmdir path => exact DirState.rmdir_outcome cat default_volume s.dirs path
  | socket domain type protocol => exact s.sockets.socket_outcome domain type protocol
  | bind sockfd addr => exact s.sockets.bind_outcome sockfd addr
  | listen sockfd backlog => exact s.sockets.listen_outcome sockfd backlog
  | accept sockfd => exact s.sockets.accept_outcome sockfd
  | connect sockfd addr => exact s.sockets.connect_outcome sockfd addr
  | send sockfd buf flags => exact s.sockets.send_outcome sockfd buf flags
  | recv sockfd len => exact s.sockets.recv_outcome sockfd len
  | sendto sockfd buf flags addr => exact s.sockets.sendto_outcome sockfd buf flags addr
  | recvfrom sockfd len => exact s.sockets.recvfrom_outcome sockfd len
  | shutdown sockfd how => exact s.sockets.shutdown_outcome sockfd how

/-- A failure leaves errno at 0 exactly where the call has given up on eofErr, on kOTNoUDErr or on an endpoint
    that is none. -/
theorem setsErrno_iff (hmarks : fm.MarksNonneg) (s : Layers fm ot) (op : Operation) :
    s.SetsErrno cat default_volume op ↔
      ∀ f, s.cleared.gaveUpOn cat default_volume op = some f → f.Reported := by
  have hends := ends hmarks cat default_volume s.cleared op
  constructor
  · intro hsets f hf
    rw [hf] at hends
    by_contra hno
    exact hsets f.errno hends (f.errno_eq_zero.mpr hno)
  · intro hreported e he
    rcases hf : s.cleared.gaveUpOn cat default_volume op with _ | f
    · rw [hf] at hends
      exact hends e he
    · rw [hf] at hends
      obtain rfl : f.errno = e := congrArg Prod.snd (Option.some.inj (hends.symm.trans he))
      exact fun hzero => f.errno_eq_zero.mp hzero (hreported f hf)

end Layers

/-! ### Files in memory -/

theorem ramDisk_marksNonneg : ramDisk.MarksNonneg := by
  intro r st _
  unfold ramDisk
  dsimp only
  split
  · exact Int.le_refl 0
  · exact Int.natCast_nonneg _

namespace Layers

open FileState

/-- The library over files in memory, with a network where nothing happens. -/
def onRam (files : FileState ramDisk) : Layers ramDisk wire :=
  ⟨files, DirState.start .empty, SocketState.start Wire.idle⟩

/-- There is no such file. -/
theorem setsErrno_missing :
    (onRam (onRamDisk .empty)).SetsErrno ramCatalog macintoshHD (.open_ "notes".toList O_RDWR) := by
  refine (setsErrno_iff ramDisk_marksNonneg _ _).mpr fun f hf => ?_
  have hmissing : (onRam (onRamDisk .empty)).cleared.gaveUpOn ramCatalog macintoshHD
        (.open_ "notes".toList O_RDWR) =
      some (.fileManager fnfErr (by decide)) := rfl
  obtain rfl := Option.some.inj (hmissing.symm.trans hf)
  exact (by decide : fnfErr ≠ eofErr)

/-- Past the end of a file SetFPos says eofErr: lseek returns -1 and sets errno to 0. -/
theorem seek_past_end : ¬ (onRam ((onRamDisk .empty).open_ "notes".toList (O_CREAT ||| O_RDWR)).2).SetsErrno
    ramCatalog macintoshHD (.lseek 3 1 0) := by
  intro h
  exact h 0 (by decide +kernel) rfl

end Layers

end Posix9
