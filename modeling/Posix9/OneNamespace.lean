import Posix9.Descriptors
import Posix9.SocketTurns
import Posix9.Wire

/-! Files and sockets behind one set of descriptors. posix9_file.c and posix9_socket.c number theirs apart,
    and close asks for the other table first; read and write look in their own table only. -/

namespace Posix9

/-! ### The file side alone -/

namespace FileState

variable {fm : FileManager} {s : FileState fm}

theorem init_socket_inUse (s : FileState fm) : s.init_fd_table.socket_inUse = s.socket_inUse := by
  rw [init_fd_table]
  split <;> rfl

theorem alloc_fd_socket_inUse (s : FileState fm) : s.alloc_fd.2.socket_inUse = s.socket_inUse := by
  rw [alloc_fd]
  dsimp only
  split <;> exact init_socket_inUse s

theorem free_fd_socket_inUse (s : FileState fm) (fd : Fd) : (s.free_fd fd).socket_inUse = s.socket_inUse := by
  rw [free_fd]
  split <;> rfl

theorem seekEnd_socket_inUse (s : FileState fm) (flags : BitVec 32) (origin : ℕ) (r : RefNum) :
    (s.seekEnd flags origin r).socket_inUse = s.socket_inUse := by
  rw [seekEnd]
  split <;> rfl

theorem openResolved_socket_inUse (s : FileState fm) (flags : BitVec 32) (err : OSErr) (spec : FSSpec) :
    (s.openResolved flags err spec).2.socket_inUse = s.socket_inUse := by
  rw [openResolved]
  split
  · rfl
  split
  · rfl
  rw [openFork]
  dsimp only
  split
  · rfl
  generalize halloc : FileState.alloc_fd _ = res
  have hsame := congrArg (fun res => res.2.socket_inUse) halloc
  rw [alloc_fd_socket_inUse, seekEnd_socket_inUse] at hsame
  have hres : res.2.socket_inUse = s.socket_inUse := by
    rw [← hsame]
    split <;> rfl
  split <;> exact hres

theorem open_socket_inUse (s : FileState fm) (path : CStr) (flags : BitVec 32) :
    (s.open_ path flags).2.socket_inUse = s.socket_inUse := by
  rw [open_]
  dsimp only
  split
  · split
    · exact init_socket_inUse s
    · exact (openResolved_socket_inUse _ ..).trans (init_socket_inUse s)
  · exact (openResolved_socket_inUse _ ..).trans (init_socket_inUse s)

theorem close_socket_inUse {fd : ℤ} (h : s.posix9_is_socket fd = false) :
    (s.close fd).2.socket_inUse = s.socket_inUse := by
  rw [close, h, if_neg Bool.false_ne_true]
  split
  · rfl
  rw [closeEntry]
  split
  · rfl
  · dsimp only
    split <;> exact free_fd_socket_inUse _ _

theorem read_socket_inUse (s : FileState fm) (fd : ℤ) (count : ℕ) :
    (s.read fd count).2.socket_inUse = s.socket_inUse := by
  rw [read]
  split
  · rfl
  dsimp only
  split
  · rfl
  split
  · rfl
  split <;> rfl

theorem write_socket_inUse (s : FileState fm) (fd : ℤ) (buf : List UInt8) :
    (s.write fd buf).2.socket_inUse = s.socket_inUse := by
  rw [write]
  split
  · rfl
  dsimp only
  split
  · split <;> rfl
  split <;> exact seekEnd_socket_inUse s _ _ _

theorem lseek_socket_inUse (s : FileState fm) (fd offset whence : ℤ) :
    (s.lseek fd offset whence).2.socket_inUse = s.socket_inUse := by
  rw [lseek]
  split
  · rfl
  dsimp only
  split
  · rfl
  split
  · rfl
  split
  · rfl
  split <;> rfl

theorem ftruncate_socket_inUse (s : FileState fm) (fd length : ℤ) :
    (s.ftruncate fd length).2.socket_inUse = s.socket_inUse := by
  rw [ftruncate]
  split
  · rfl
  dsimp only
  split
  · rfl
  split <;> rfl

theorem dup_socket_inUse (s : FileState fm) (oldfd : ℤ) : (s.dup oldfd).2.socket_inUse = s.socket_inUse := by
  rw [dup]
  split
  · rfl
  have halloc := alloc_fd_socket_inUse s
  split <;> rename_i h <;> rw [h] at halloc <;> exact halloc

theorem dup2_socket_inUse (s : FileState fm) (oldfd newfd : ℤ) :
    (s.dup2 oldfd newfd).2.socket_inUse = s.socket_inUse := by
  rw [dup2]
  split
  · rfl
  split
  · rename_i hnew
    dsimp only
    have hfile := not_socket (s := s) ⟨newfd.toNat, by omega⟩
    split
    · exact close_socket_inUse (by simpa [Int.toNat_of_nonneg hnew.1] using hfile)
    · rfl
  · rfl

theorem foldl_cleanup_socket_inUse (l : List Fd) (s : FileState fm) :
    (l.foldl cleanupEntry s).socket_inUse = s.socket_inUse := by
  induction l generalizing s with
  | nil => rfl
  | cons i l ih =>
    rw [List.foldl_cons, ih, cleanupEntry]
    split
    · exact close_socket_inUse (not_socket i)
    · rfl

theorem cleanup_socket_inUse (s : FileState fm) : s.posix9_cleanup.socket_inUse = s.socket_inUse := by
  rw [posix9_cleanup]
  generalize slots = l
  exact foldl_cleanup_socket_inUse l s

/-- Of the calls only close of a socket writes to the socket table. -/
theorem step_socket_inUse (s : FileState fm) (c : FileCall)
    (hclose : ∀ fd, c = .close fd → s.posix9_is_socket fd = false) :
    (s.step c).socket_inUse = s.socket_inUse := by
  cases c with
  | open_ path flags => exact open_socket_inUse s path flags
  | close fd => exact close_socket_inUse (hclose fd rfl)
  | read fd count => exact read_socket_inUse s fd count
  | write fd buf => exact write_socket_inUse s fd buf
  | lseek fd offset whence => exact lseek_socket_inUse s fd offset whence
  | ftruncate fd length => exact ftruncate_socket_inUse s fd length
  | dup oldfd => exact dup_socket_inUse s oldfd
  | dup2 oldfd newfd => exact dup2_socket_inUse s oldfd newfd
  | posix9_cleanup => exact cleanup_socket_inUse s

end FileState

/-! ### Both sides -/

/-- Both tables. errno and the `inUse` flags of socket_table are the same memory on both sides. -/
structure IoState (fm : FileManager) (ot : OpenTransport) where
  files : FileState fm
  sockets : SocketState ot
  inUse_eq : files.socket_inUse = fun i => (sockets.socket_table i).inUse
  errno_eq : files.posix9_errno = sockets.posix9_errno

variable {fm : FileManager} {ot : OpenTransport}

namespace IoState

/-- The two sides, with what is shared as the socket side has it. -/
def join (files : FileState fm) (sockets : SocketState ot) : IoState fm ot where
  files := { files with
    socket_inUse := fun i => (sockets.socket_table i).inUse, posix9_errno := sockets.posix9_errno }
  sockets
  inUse_eq := rfl
  errno_eq := rfl

def start (mac : fm.State) (net : ot.State) : IoState fm ot :=
  join (.start mac fun _ => false) (.start net)

/-- A call of posix9_file.c on its own table; errno is all it changes on the other side. -/
def onFiles {α : Type} (s : IoState fm ot) (f : FileState fm → α × FileState fm) : α × IoState fm ot :=
  ((f s.files).1, join (f s.files).2 (s.sockets.setErrno (f s.files).2.posix9_errno))

def onSockets {α : Type} (s : IoState fm ot) (f : SocketState ot → α × SocketState ot) : α × IoState fm ot :=
  ((f s.sockets).1, join s.files (f s.sockets).2)

/-! ### The calls -/

def read (s : IoState fm ot) (fd : ℤ) (count : ℕ) : (ℤ × List UInt8) × IoState fm ot :=
  s.onFiles fun files => files.read fd count

def write (s : IoState fm ot) (fd : ℤ) (buf : List UInt8) : ℤ × IoState fm ot :=
  s.onFiles fun files => files.write fd buf

/-- The one call that asks for the other table. -/
def close (s : IoState fm ot) (fd : ℤ) : ℤ × IoState fm ot :=
  if s.files.posix9_is_socket fd then s.onSockets fun sockets => sockets.posix9_close_socket fd
  else s.onFiles fun files => files.close fd

/-- `none` where it waits. -/
def send (s : IoState fm ot) (sockfd : ℤ) (buf : List UInt8) (flags : BitVec 32) : Option (ℤ × IoState fm ot) :=
  (s.sockets.send sockfd buf flags).map fun (r, sockets) => (r, join s.files sockets)

/-- Behind the store of recv, with nothing coming in between. -/
def recv (s : IoState fm ot) (sockfd : ℤ) (len : ℕ) : Option ((ℤ × List UInt8) × IoState fm ot) :=
  (s.sockets.recv sockfd len).map fun (r, sockets) => (r, join s.files sockets.stores)

end IoState

/-- What happens next: a call of either side, or what `SocketInput` has besides. -/
inductive IoInput where
  | file (c : FileCall)
  | socket (a : SocketInput)

/-- The slot whose descriptor accept has yet to return. -/
def UnderWay.unreturned : UnderWay → Option SockIdx
  | .accepting a | .accepted a => some a.newsock
  | .connected .. | .received _ => none

namespace IoState

/-- While a call on a socket is under way no other call is made. -/
def step (s : IoState fm ot) : IoInput → IoState fm ot
  | .file c =>
    if s.sockets.underWay.isSome then s
    else
      match c with
      | .close fd => (s.close fd).2
      | c => (s.onFiles fun files => ((), files.step c)).2
  | .socket a => (s.onSockets fun sockets => ((), sockets.step a)).2

/-! ### The claim -/

variable {s : IoState fm ot} {fd : ℤ} {i : SockIdx}

/-- A descriptor socket or accept has returned and that has not been closed. -/
def IsOpenSocket (s : IoState fm ot) (fd : ℤ) : Prop :=
  ∃ i, s.sockets.get_socket fd = some i ∧ ∀ w ∈ s.sockets.underWay, w.unreturned ≠ some i

/-- close returns 0, and neither the descriptor nor its endpoint is open any longer. -/
def Releases (s : IoState fm ot) (fd : ℤ) : Prop :=
  (s.close fd).1 = 0 ∧ (s.close fd).2.sockets.get_socket fd = none ∧ ∀ i, s.sockets.get_socket fd = some i →
    (ot.endpoint (s.close fd).2.sockets.net (s.sockets.socket_table i).ep).isOpen = false

/-- No descriptor is in both tables. -/
def Disjoint (s : IoState fm ot) : Prop := ∀ fd, s.files.get_fd_entry fd = none ∨ s.sockets.get_socket fd = none

/-- A socket is a descriptor like any other. -/
structure OneNamespace (s : IoState fm ot) (fd : ℤ) : Prop where
  write : ∀ buf, s.send fd buf 0 = some (s.write fd buf)
  read : ∀ count, s.recv fd count = some (s.read fd count)
  close : s.Releases fd
  disjoint : s.Disjoint

/-- What it is to read, write and close. -/
structure Severed (s : IoState fm ot) (fd : ℤ) : Prop where
  write : ∀ buf, (s.write fd buf).1 = -1 ∧ (s.write fd buf).2.files.posix9_errno = EBADF ∧
    s.send fd buf 0 ≠ some (s.write fd buf)
  read : ∀ count, (s.read fd count).1.1 = -1 ∧ (s.read fd count).2.files.posix9_errno = EBADF ∧
    s.recv fd count ≠ some (s.read fd count)
  close : s.Releases fd
  disjoint : s.Disjoint

/-! ### Descriptors of sockets -/

/-- The two ranges of numbers have nothing in common. -/
theorem get_fd_entry_of_socket (files : FileState fm) {sockets : SocketState ot}
    (h : sockets.get_socket fd = some i) : files.get_fd_entry fd = none := by
  have hindex := (SocketState.get_socket_eq_some.mp h).1
  rw [FileState.get_fd_entry, dif_neg]
  rintro ⟨-, hlt⟩
  rw [FileState.socketIndex, dif_neg] at hindex
  · cases hindex
  rintro ⟨hbase, -⟩
  rw [SOCKET_FD_BASE] at hbase
  rw [POSIX9_OPEN_MAX] at hlt
  omega

theorem disjoint (s : IoState fm ot) : s.Disjoint := by
  intro fd
  rcases h : s.sockets.get_socket fd with _ | i
  · exact .inr rfl
  · exact .inl (get_fd_entry_of_socket s.files h)

/-- What read and write do to a socket. -/
theorem write_socket (h : s.sockets.get_socket fd = some i) (buf : List UInt8) :
    s.write fd buf = (-1, join (s.files.setErrno EBADF) (s.sockets.setErrno EBADF)) := by
  rw [IoState.write, onFiles, FileState.write, get_fd_entry_of_socket s.files h]
  rfl

theorem read_socket (h : s.sockets.get_socket fd = some i) (count : ℕ) :
    s.read fd count = ((-1, []), join (s.files.setErrno EBADF) (s.sockets.setErrno EBADF)) := by
  rw [IoState.read, onFiles, FileState.read, get_fd_entry_of_socket s.files h]
  rfl

/-- send waits, finds the socket not connected, or hands the bytes to Open Transport. -/
theorem send_cases {sockets : SocketState ot} (h : sockets.get_socket fd = some i) (buf : List UInt8)
    (flags : BitVec 32) : sockets.send fd buf flags = none ∨
      sockets.send fd buf flags = some (-1, sockets.setErrno ENOTCONN) ∨
      ∃ r t record, sockets.send fd buf flags = some (r, t) ∧ t.log = record :: sockets.log := by
  rw [SocketState.send, h]
  dsimp only
  split
  · exact .inr (.inl rfl)
  split
  · exact .inl rfl
  split
  · exact .inr (.inr ⟨_, _, _, rfl, rfl⟩)
  · exact .inr (.inr ⟨_, _, _, rfl, rfl⟩)

theorem recv_cases {sockets : SocketState ot} (h : sockets.get_socket fd = some i) (len : ℕ) :
    sockets.recv fd len = none ∨
      ∃ r t record, sockets.recv fd len = some (r, t) ∧ t.stores.log = record :: sockets.log := by
  simp only [SocketState.stores_log]
  rw [SocketState.recv, h]
  dsimp only
  split
  · exact .inl rfl
  split
  · split
    · split
      · exact .inr ⟨_, _, _, rfl, rfl⟩
      · exact .inr ⟨_, _, _, rfl, rfl⟩
    · exact .inr ⟨_, _, _, rfl, rfl⟩
  · exact .inr ⟨_, _, _, rfl, rfl⟩

theorem send_ne_write (h : s.sockets.get_socket fd = some i) (buf : List UInt8) :
    s.send fd buf 0 ≠ some (s.write fd buf) := by
  intro heq
  rw [write_socket h, send] at heq
  rcases send_cases h buf 0 with hsend | hsend | ⟨r, t, record, hsend, hlog⟩ <;> rw [hsend] at heq
  · cases heq
  · have herrno := congrArg (Option.map fun r => r.2.sockets.posix9_errno) heq
    exact absurd (Option.some.inj herrno) (by decide : (ENOTCONN : ℤ) ≠ EBADF)
  · have hsame := congrArg (Option.map fun r => r.2.sockets.log) heq
    exact List.cons_ne_self record s.sockets.log (hlog.symm.trans (Option.some.inj hsame))

theorem recv_ne_read (h : s.sockets.get_socket fd = some i) (count : ℕ) :
    s.recv fd count ≠ some (s.read fd count) := by
  intro heq
  rw [read_socket h, recv] at heq
  rcases recv_cases h count with hrecv | ⟨r, t, record, hrecv, hlog⟩ <;> rw [hrecv] at heq
  · cases heq
  · have hsame := congrArg (Option.map fun r => r.2.sockets.log) heq
    exact List.cons_ne_self record s.sockets.log (hlog.symm.trans (Option.some.inj hsame))

/-! ### close -/

theorem is_socket_of_get_socket (h : s.sockets.get_socket fd = some i) :
    s.files.posix9_is_socket fd = true := by
  obtain ⟨hindex, hi⟩ := SocketState.get_socket_eq_some.mp h
  rw [FileState.posix9_is_socket, hindex, s.inUse_eq]
  exact hi

/-- The slot is given back and the endpoint closed. -/
theorem releases (hot : ot.Lawful) (hs : s.sockets.Wired) (h : s.sockets.get_socket fd = some i) :
    s.Releases fd := by
  have hi := SocketState.get_socket_inUse h
  obtain ⟨t, hclose⟩ : ∃ t : SocketState ot, s.sockets.posix9_close_socket fd =
      (0, (t.callOT (.OTCloseProvider (s.sockets.socket_table i).ep)).2.free_socket i) := by
    rw [SocketState.posix9_close_socket, h]
    dsimp only
    rw [if_pos (hs.valid i hi).1]
    split
    · exact ⟨_, rfl⟩
    · exact ⟨_, rfl⟩
  have hafter : s.close fd = (0, join s.files
      ((t.callOT (.OTCloseProvider (s.sockets.socket_table i).ep)).2.free_socket i)) := by
    rw [close, if_pos (is_socket_of_get_socket h), onSockets, hclose]
  refine ⟨by rw [hafter], ?_, fun k hk => ?_⟩
  · rw [hafter, Option.eq_none_iff_forall_not_mem]
    intro k hk
    obtain ⟨hindex, hk⟩ := SocketState.get_socket_eq_some.mp hk
    obtain rfl := Option.some.inj ((SocketState.get_socket_eq_some.mp h).1.symm.trans hindex)
    exact absurd (SocketState.free_socket_inUse.symm.trans hk) (by simp)
  · obtain rfl := Option.some.inj (h.symm.trans hk)
    rw [hafter]
    exact hot.closed _ _

/-! ### Runs -/

/-- The file side takes the steps of `FileState`. -/
theorem files_step (hidle : s.sockets.underWay = none) {c : FileCall}
    (hclose : ∀ fd, c = .close fd → s.files.posix9_is_socket fd = false) :
    (s.step (.file c)).files = s.files.step c := by
  have hjoin : ∀ t : FileState fm, t.socket_inUse = s.files.socket_inUse →
      (join t (s.sockets.setErrno t.posix9_errno)).files = t := by
    intro t ht
    have hshared := ht.trans s.inUse_eq
    rw [join]
    dsimp only
    exact congrArg (fun inUse => { t with socket_inUse := inUse }) hshared.symm
  have hstep := hjoin _ (FileState.step_socket_inUse s.files c hclose)
  unfold step
  dsimp only
  rw [hidle]
  cases c with
  | close fd =>
    rw [← hstep]
    change (s.close fd).2.files = _
    rw [close, hclose fd rfl]
    rfl
  | _ => exact hstep

theorem wellFormed_step (hot : ot.Lawful) (hstr : ot.Streams) (hs : s.sockets.WellFormed) (a : IoInput) :
    (s.step a).sockets.WellFormed := by
  have herrno : ∀ e, (s.sockets.setErrno e).WellFormed := fun e => ⟨hs.toWired.setErrno e, hs.filling, hs.filled⟩
  cases a with
  | file c =>
    unfold step
    dsimp only
    split
    · exact hs
    rename_i hidle
    split
    · rename_i fd
      rw [close]
      split
      · have hclose := hs.step hot hstr (.call (.close fd))
        rw [SocketState.step, if_neg hidle] at hclose
        exact hclose
      · exact herrno _
    · exact herrno _
  | socket a => exact hs.step hot hstr a

/-- In no reachable state is an open socket a descriptor like any other: write and read fail on it with EBADF
    and are not what send and recv are, and only close finds it. -/
theorem severed_of_open (hot : ot.Lawful) (hstr : ot.Streams) (mac : fm.State) (net : ot.State)
    (inputs : List IoInput) (fd : ℤ) (hopen : (Runs.run step (start mac net) inputs).IsOpenSocket fd) :
    (Runs.run step (start mac net) inputs).Severed fd ∧
      ¬ (Runs.run step (start mac net) inputs).OneNamespace fd := by
  have hs := (Runs.always_of_step (I := fun s : IoState fm ot => s.sockets.WellFormed)
    (fun _ a h => wellFormed_step hot hstr h a) (s := start mac net) (.start net) inputs).last
  obtain ⟨i, hget, -⟩ := hopen
  refine ⟨⟨fun buf => ?_, fun count => ?_, releases hot hs.toWired hget, disjoint _⟩, fun h => ?_⟩
  · refine ⟨?_, ?_, send_ne_write hget buf⟩ <;> rw [write_socket hget]
    rfl
  · refine ⟨?_, ?_, recv_ne_read hget count⟩ <;> rw [read_socket hget]
    rfl
  · exact send_ne_write hget [] (h.write [])

/-- A client with a connection. -/
def connectedClient : List IoInput := [.socket (.call (.socket AF_INET SOCK_STREAM 0)),
  .socket (.call (.bind 1000 ⟨0, 0⟩)), .socket (.call (.connect 1000 ⟨80, 1⟩)), .socket .stores]

theorem isOpen_connectedClient :
    (Runs.run step (start [] Wire.idle : IoState bareDisk wire) connectedClient).IsOpenSocket 1000 :=
  ⟨⟨0, by decide⟩, by decide +kernel, by decide +kernel⟩

theorem severed_connectedClient :
    (Runs.run step (start [] Wire.idle : IoState bareDisk wire) connectedClient).Severed 1000 :=
  (@severed_of_open bareDisk wire wire_lawful wire_streams [] Wire.idle connectedClient 1000
    isOpen_connectedClient).1

/-- send takes a byte on the connection; write fails. -/
theorem socket_write_fails : ¬ ∀ inputs fd,
    (Runs.run step (start [] Wire.idle : IoState bareDisk wire) inputs).IsOpenSocket fd →
      (Runs.run step (start [] Wire.idle : IoState bareDisk wire) inputs).OneNamespace fd := by
  intro h
  have hwrite := (h connectedClient 1000 isOpen_connectedClient).write [65]
  have hsent : ((Runs.run step (start [] Wire.idle : IoState bareDisk wire) connectedClient).send
      1000 [65] 0).map (fun r => r.1) = some 1 := by decide +kernel
  have hwritten : ((Runs.run step (start [] Wire.idle : IoState bareDisk wire) connectedClient).write
      1000 [65]).1 = -1 := by decide +kernel
  have hfst := congrArg (Option.map fun r => r.1) hwrite
  rw [hsent, Option.map_some, hwritten] at hfst
  exact absurd hfst (by decide)

end IoState

end Posix9
