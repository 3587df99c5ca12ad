import Posix9.OpenTransport

/-! posix9_socket.c: the socket table and the calls on it.

    A call that Open Transport keeps waiting has not returned: its model gives `none` and the state is as
    before, so that what arrives in the meantime comes first. A notifier runs at any moment, also between
    the last call of Open Transport that a function makes and what it stores in the entry then. Where the
    notifier writes the same fields (accept, connect, recv) the stores are a step of their own, and accept
    is three, since what arrives between OTAccept and OTInstallNotifier reaches no notifier. Each round of
    the loop of select is a step, too. -/

namespace Posix9

/-! ### Error mapping -/

/-- The cases of `ot_error_to_errno`. -/
def otErrors : List (OTResult × ℤ) := [
  (kOTNoError, 0), (kOTBadAddressErr, EADDRNOTAVAIL), (kOTBadOptionErr, EINVAL), (kOTAccessErr, EACCES),
  (kOTBadReferenceErr, EBADF), (kOTNoAddressErr, EDESTADDRREQ), (kOTOutStateErr, EINVAL),
  (kOTBadSequenceErr, EINVAL), (kOTSysErrorErr, EIO), (kOTLookErr, EAGAIN), (kOTBadDataErr, EMSGSIZE),
  (kOTBufferOverflowErr, ENOBUFS), (kOTFlowErr, EAGAIN), (kOTNoDataErr, EAGAIN),
  (kOTNoDisconnectErr, ENOTCONN), (kOTNoUDErr, 0), (kOTBadFlagErr, EINVAL), (kOTNoRelErr, ENOTCONN),
  (kOTNotSupportedErr, EOPNOTSUPP), (kOTStateChangeErr, EINVAL), (kOTNoStructureTypeErr, EINVAL),
  (kOTBadNameErr, EINVAL), (kOTBadQLenErr, EINVAL), (kOTAddressBusyErr, EADDRINUSE), (kOTIndOutErr, EINVAL),
  (kOTProviderMismatchErr, EAFNOSUPPORT), (kOTResQLenErr, EINVAL), (kOTResAddressErr, EADDRNOTAVAIL),
  (kOTQFullErr, ENOBUFS), (kOTProtocolErr, EPROTONOSUPPORT), (kOTBadSyncErr, EINVAL),
  (kOTCanceledErr, ECANCELED), (kEPERMErr, EPERM), (kENOENTErr, ENOENT), (kENXIOErr, ENXIO),
  (kEBADFErr, EBADF), (kEAGAINErr, EAGAIN), (kENOMEMErr, ENOMEM), (kEACCESErr, EACCES), (kEFAULTErr, EFAULT),
  (kEBUSYErr, EBUSY), (kEEXISTErr, EEXIST), (kENODEVErr, ENODEV), (kEINVALErr, EINVAL), (kENOTTYErr, ENOTTY),
  (kEPIPEErr, EPIPE), (kERANGEErr, ERANGE), (kEWOULDBLOCKErr, EWOULDBLOCK), (kEDEADLKErr, EDEADLK),
  (kENOTSOCKErr, ENOTSOCK), (kEDESTADDRREQErr, EDESTADDRREQ), (kEMSGSIZEErr, EMSGSIZE),
  (kEPROTOTYPEErr, EPROTOTYPE), (kENOPROTOOPTErr, ENOPROTOOPT), (kEPROTONOSUPPORTErr, EPROTONOSUPPORT),
  (kESOCKTNOSUPPORTErr, ESOCKTNOSUPPORT), (kEOPNOTSUPPErr, EOPNOTSUPP), (kEADDRINUSEErr, EADDRINUSE),
  (kEADDRNOTAVAILErr, EADDRNOTAVAIL), (kENETDOWNErr, ENETDOWN), (kENETUNREACHErr, ENETUNREACH),
  (kENETRESETErr, ENETRESET), (kECONNABORTEDErr, ECONNABORTED), (kECONNRESETErr, ECONNRESET),
  (kENOBUFSErr, ENOBUFS), (kEISCONNErr, EISCONN), (kENOTCONNErr, ENOTCONN), (kESHUTDOWNErr, ESHUTDOWN),
  (kETIMEDOUTErr, ETIMEDOUT), (kECONNREFUSEDErr, ECONNREFUSED), (kEHOSTDOWNErr, EHOSTDOWN),
  (kEHOSTUNREACHErr, EHOSTUNREACH), (kEALREADYErr, EALREADY), (kEINPROGRESSErr, EINPROGRESS)]

def ot_error_to_errno (err : OTResult) : ℤ := (otErrors.lookup err).getD EIO

/-! ### The socket table -/

def AF_INET : ℤ := 2
def SOCK_STREAM : ℤ := 1
def SOCK_DGRAM : ℤ := 2
def IPPROTO_TCP : ℤ := 6
def IPPROTO_UDP : ℤ := 17
def SOL_SOCKET : ℤ := 0xFFFF
def SO_ERROR : ℤ := 0x1007
def SO_TYPE : ℤ := 0x1008
def SHUT_WR : ℤ := 1
def SHUT_RDWR : ℤ := 2
def MSG_OOB : BitVec 32 := 0x01

/-- `posix9_socket_entry`. -/
structure SocketEntry where
  ep : EndpointRef
  domain : ℤ
  type : ℤ
  protocol : ℤ
  inUse : Bool
  bound : Bool
  listening : Bool
  connected : Bool
  nonblocking : Bool
  localAddr : InetAddress
  peerAddr : InetAddress
  asyncError : OTResult
  readable : Bool
  writable : Bool
  hasOOB : Bool

/-- `memset(&socket_table[i], 0, sizeof(posix9_socket_entry))`. -/
def SocketEntry.zero : SocketEntry :=
  ⟨kOTInvalidEndpointRef, 0, 0, 0, false, false, false, false, false, ⟨0, 0⟩, ⟨0, 0⟩, 0, false, false, false⟩

/-- An accept behind OTAccept. -/
structure Accepting where
  sock : SockIdx
  newsock : SockIdx
  clientAddr : InetAddress

/-- A call that has been made and has not returned. -/
inductive UnderWay where
  /-- In front of OTInstallNotifier. -/
  | accepting (a : Accepting)
  /-- In front of what accept stores in the new entry. -/
  | accepted (a : Accepting)
  /-- In front of what connect stores behind OTConnect. -/
  | connected (i : SockIdx) (addr : InetAddress)
  /-- In front of what recv stores behind OTRcv. -/
  | received (i : SockIdx)

/-- The slot it fills, or that it is made for. -/
def UnderWay.slot : UnderWay → SockIdx
  | .accepting a | .accepted a => a.newsock
  | .connected i _ | .received i => i

/-- What has passed between the library and Open Transport: the calls made and the events a notifier was
    called with. -/
inductive OTRecord where
  | call (c : OTCall) (r : OTReply)
  | event (ep : EndpointRef) (event : OTEventCode) (result : OTResult)

structure SocketState (ot : OpenTransport) where
  socket_table : SockIdx → SocketEntry
  socket_table_initialized : Bool
  ot_initialized : Bool
  posix9_errno : ℤ
  net : ot.State
  /-- The context the notifier of an endpoint was installed with. -/
  notifiers : EndpointRef → Option SockIdx
  underWay : Option UnderWay
  /-- The newest first; kept beside the program and never read by it. -/
  log : List OTRecord

variable {ot : OpenTransport}

namespace SocketState

/-- The state the program starts in: static storage is zero. -/
def start (net : ot.State) : SocketState ot where
  socket_table _ := SocketEntry.zero
  socket_table_initialized := false
  ot_initialized := false
  posix9_errno := 0
  net
  notifiers _ := none
  underWay := none
  log := []

def setErrno (s : SocketState ot) (e : ℤ) : SocketState ot := { s with posix9_errno := e }

def updateEntry (s : SocketState ot) (i : SockIdx) (f : SocketEntry → SocketEntry) : SocketState ot :=
  { s with socket_table := Function.update s.socket_table i (f (s.socket_table i)) }

/-- The notifiers behind a call. -/
def notifiersAfter (notifiers : EndpointRef → Option SockIdx) (r : OTReply) :
    OTCall → EndpointRef → Option SockIdx
  | .OTInstallNotifier ep context =>
    if r.result = noErr then Function.update notifiers ep (some context) else notifiers
  | .OTCloseProvider ep => Function.update notifiers ep none
  | _ => notifiers

def callOT (s : SocketState ot) (c : OTCall) : OTReply × SocketState ot :=
  ((ot.call c s.net).1, { s with
    net := (ot.call c s.net).2
    notifiers := notifiersAfter s.notifiers (ot.call c s.net).1 c
    log := .call c (ot.call c s.net).1 :: s.log })

/-- `errno = ot_error_to_errno(err); return -1`. -/
def failOT (s : SocketState ot) (err : OTResult) : ℤ × SocketState ot :=
  (-1, s.setErrno (ot_error_to_errno err))

def badFd (s : SocketState ot) : ℤ × SocketState ot := (-1, s.setErrno EBADF)

def sockFd (i : SockIdx) : ℤ := SOCKET_FD_BASE + i

theorem sockFd_injective : Function.Injective sockFd := by
  intro i j h
  have hcast : SOCKET_FD_BASE + (i : ℤ) = SOCKET_FD_BASE + (j : ℤ) := h
  exact Fin.ext (by omega)

def init_open_transport (s : SocketState ot) : OTResult × SocketState ot :=
  if s.ot_initialized then (noErr, s)
  else
    let (r, s) := s.callOT .InitOpenTransport
    (r.result, if r.result = noErr then { s with ot_initialized := true } else s)

def init_socket_table (s : SocketState ot) : SocketState ot :=
  if s.socket_table_initialized then s
  else
    { s with
      socket_table := fun i => { s.socket_table i with inUse := false, ep := kOTInvalidEndpointRef }
      socket_table_initialized := true }

def alloc_socket (s : SocketState ot) : Option SockIdx × SocketState ot :=
  let s := s.init_socket_table
  match (List.finRange MAX_SOCKETS).find? fun i => !(s.socket_table i).inUse with
  | some i => (some i, s.updateEntry i fun _ => { SocketEntry.zero with inUse := true })
  | none => (none, s.setErrno EMFILE)

def free_socket (s : SocketState ot) (i : SockIdx) : SocketState ot :=
  s.updateEntry i fun e => { e with inUse := false, ep := kOTInvalidEndpointRef }

/-- The index of the entry it returns a pointer to. -/
def get_socket (s : SocketState ot) (fd : ℤ) : Option SockIdx :=
  match FileState.socketIndex fd with
  | some i => if (s.socket_table i).inUse then some i else none
  | none => none

/-! ### The notifier -/

def socket_notifier (s : SocketState ot) (i : SockIdx) (event : OTEventCode) (result : OTResult) :
    SocketState ot :=
  match event with
  | .T_DATA | .T_LISTEN => s.updateEntry i fun e => { e with readable := true }
  | .T_GODATA => s.updateEntry i fun e => { e with writable := true }
  | .T_EXDATA => s.updateEntry i fun e => { e with hasOOB := true }
  | .T_CONNECT => s.updateEntry i fun e => { e with connected := true, asyncError := result }
  | .T_DISCONNECT | .T_ORDREL => s.updateEntry i fun e => { e with connected := false }
  | .T_PASSCON | .T_UDERR => s

/-- Something arrives: Open Transport may call the notifier of the endpoint, if there is one. -/
def arrive (s : SocketState ot) (ep : EndpointRef) (a : Arrival) : SocketState ot :=
  let told := (ot.arrive ep a s.net).1
  let s := { s with net := (ot.arrive ep a s.net).2 }
  match s.notifiers ep with
  | some i =>
    if told then
      { s with log := .event ep a.event.1 a.event.2 :: s.log }.socket_notifier i a.event.1 a.event.2
    else s
  | none => s

/-! ### socket, bind, listen -/

/-- The configuration for a type, and the protocol stored. -/
def configuration (type protocol : ℤ) : Option (ConfigName × ℤ) :=
  if type = SOCK_STREAM then some (.kTCPName, if protocol = 0 then IPPROTO_TCP else protocol)
  else if type = SOCK_DGRAM then some (.kUDPName, if protocol = 0 then IPPROTO_UDP else protocol)
  else none

/-- socket from OTOpenEndpoint on. -/
def openSocket (s : SocketState ot) (i : SockIdx) (config : OTConfigurationRef) (domain type protocol : ℤ) :
    ℤ × SocketState ot :=
  let (opened, s) := s.callOT (.OTOpenEndpoint config)
  let s := s.updateEntry i fun e => { e with ep := opened.ref }
  if opened.result ≠ noErr ∨ opened.ref = kOTInvalidEndpointRef then (s.free_socket i).failOT opened.result
  else
    let (installed, s) := s.callOT (.OTInstallNotifier opened.ref i)
    if installed.result ≠ noErr then
      let (_, s) := s.callOT (.OTCloseProvider opened.ref)
      (-1, (s.free_socket i).setErrno EIO)
    else
      let (_, s) := s.callOT (.OTSetSynchronous opened.ref)
      let (_, s) := s.callOT (.OTSetBlocking opened.ref)
      (sockFd i, s.updateEntry i fun e => { e with domain, type, protocol, writable := true })

def socket (s : SocketState ot) (domain type protocol : ℤ) : ℤ × SocketState ot :=
  let (err, s) := s.init_open_transport
  if err ≠ noErr then (-1, s.setErrno EIO)
  else if domain ≠ AF_INET then (-1, s.setErrno EAFNOSUPPORT)
  else
    match configuration type protocol with
    | none => (-1, s.setErrno ESOCKTNOSUPPORT)
    | some (configStr, protocol) =>
      match s.alloc_socket with
      | (none, s) => (-1, s)
      | (some i, s) =>
        let (config, s) := s.callOT (.OTCreateConfiguration configStr)
        if config.ref = kOTInvalidConfigurationRef then (-1, (s.free_socket i).setErrno EPROTONOSUPPORT)
        else s.openSocket i config.ref domain type protocol

def bind (s : SocketState ot) (sockfd : ℤ) (addr : InetAddress) : ℤ × SocketState ot :=
  match s.get_socket sockfd with
  | none => s.badFd
  | some i =>
    let (ret, s) := s.callOT (.OTBind (s.socket_table i).ep addr 0)
    if ret.result ≠ noErr then s.failOT ret.result
    else (0, s.updateEntry i fun e => { e with bound := true, localAddr := ret.addr })

/-- `backlog > 0 ? backlog : 5`. -/
def queueLength (backlog : ℤ) : ℕ := if 0 < backlog then backlog.toNat else 5

def listen (s : SocketState ot) (sockfd backlog : ℤ) : ℤ × SocketState ot :=
  match s.get_socket sockfd with
  | none => s.badFd
  | some i =>
    let sock := s.socket_table i
    if sock.type ≠ SOCK_STREAM then (-1, s.setErrno EOPNOTSUPP)
    else if sock.bound then
      let (_, s) := s.callOT (.OTUnbind sock.ep)
      let (ret, s) := s.callOT (.OTBind sock.ep sock.localAddr (queueLength backlog))
      if ret.result ≠ noErr then s.failOT ret.result
      else (0, s.updateEntry i fun e => { e with localAddr := ret.addr, listening := true })
    else (0, s.updateEntry i fun e => { e with listening := true })

/-! ### accept, connect -/

/-- accept from OTOpenEndpoint on, up to OTAccept; `none` is that it goes on. -/
def openAccepted (s : SocketState ot) (i newsock : SockIdx) (call : TCall) : Option ℤ × SocketState ot :=
  let ep := (s.socket_table i).ep
  let (config, s) := s.callOT (.OTCreateConfiguration .kTCPName)
  let (opened, s) := s.callOT (.OTOpenEndpoint config.ref)
  let s := s.updateEntry newsock fun e => { e with ep := opened.ref }
  if opened.result ≠ noErr then
    let (_, s) := (s.free_socket newsock).callOT (.OTSndDisconnect ep (some call))
    (some (-1), s.setErrno (ot_error_to_errno opened.result))
  else
    let (accepted, s) := s.callOT (.OTAccept ep opened.ref call)
    if accepted.result ≠ noErr then
      let (_, s) := s.callOT (.OTCloseProvider opened.ref)
      (some (-1), (s.free_socket newsock).setErrno (ot_error_to_errno accepted.result))
    else (none, { s with underWay := some (.accepting ⟨i, newsock, call.addr⟩) })

/-- accept up to OTInstallNotifier. -/
def accept (s : SocketState ot) (sockfd : ℤ) : Option (Option ℤ × SocketState ot) :=
  match s.get_socket sockfd with
  | none => some (some (-1), s.setErrno EBADF)
  | some i =>
    let sock := s.socket_table i
    if ¬ sock.listening then some (some (-1), s.setErrno EINVAL)
    else if ot.waits (.OTListen sock.ep) s.net then none
    else
      let (listened, s) := s.callOT (.OTListen sock.ep)
      if listened.result ≠ noErr then some (some (-1), s.setErrno (ot_error_to_errno listened.result))
      else
        match s.alloc_socket with
        | (none, s) => some (some (-1), (s.callOT (.OTSndDisconnect sock.ep (some listened.call))).2)
        | (some newsock, s) => some (s.openAccepted i newsock listened.call)

/-- accept from OTInstallNotifier up to its stores. -/
def acceptInstalls (s : SocketState ot) (a : Accepting) : SocketState ot :=
  let ep := (s.socket_table a.newsock).ep
  let (_, s) := s.callOT (.OTInstallNotifier ep a.newsock)
  let (_, s) := s.callOT (.OTSetSynchronous ep)
  let (_, s) := s.callOT (.OTSetBlocking ep)
  { s with underWay := some (.accepted a) }

/-- The stores of accept, and what it returns. -/
def acceptReturns (s : SocketState ot) (a : Accepting) : (ℤ × InetAddress) × SocketState ot :=
  let sock := s.socket_table a.sock
  let s := s.updateEntry a.newsock fun e =>
    { e with domain := sock.domain, type := sock.type, protocol := sock.protocol, connected := true
             peerAddr := a.clientAddr, writable := true }
  ((sockFd a.newsock, a.clientAddr), { s with underWay := none })

/-- connect up to its stores, where it succeeds. -/
def connect (s : SocketState ot) (sockfd : ℤ) (addr : InetAddress) : Option (ℤ × SocketState ot) :=
  match s.get_socket sockfd with
  | none => some s.badFd
  | some i =>
    let ep := (s.socket_table i).ep
    if ot.waits (.OTConnect ep addr) s.net then none
    else
      let (r, s) := s.callOT (.OTConnect ep addr)
      if r.result ≠ noErr then some (s.failOT r.result)
      else some (0, { s with underWay := some (.connected i addr) })

/-- The stores of connect. -/
def connectReturns (s : SocketState ot) (i : SockIdx) (addr : InetAddress) : SocketState ot :=
  { s.updateEntry i fun e => { e with connected := true, peerAddr := addr } with underWay := none }

/-! ### Data -/

def send (s : SocketState ot) (sockfd : ℤ) (buf : List UInt8) (flags : BitVec 32) :
    Option (ℤ × SocketState ot) :=
  match s.get_socket sockfd with
  | none => some s.badFd
  | some i =>
    let sock := s.socket_table i
    if ¬ sock.connected ∧ sock.type = SOCK_STREAM then some (-1, s.setErrno ENOTCONN)
    else if ot.waits (.OTSnd sock.ep buf (has flags MSG_OOB)) s.net then none
    else
      let (r, s) := s.callOT (.OTSnd sock.ep buf (has flags MSG_OOB))
      if r.result < 0 then some (s.failOT r.result) else some (r.result, s)

/-- recv up to its store, where it returns data. -/
def recv (s : SocketState ot) (sockfd : ℤ) (len : ℕ) : Option ((ℤ × List UInt8) × SocketState ot) :=
  match s.get_socket sockfd with
  | none => some ((-1, []), s.setErrno EBADF)
  | some i =>
    let ep := (s.socket_table i).ep
    if ot.waits (.OTRcv ep len) s.net then none
    else
      let (r, s) := s.callOT (.OTRcv ep len)
      if r.result < 0 then
        if r.result = kOTNoDataErr then
          if (s.socket_table i).nonblocking then some ((-1, []), s.setErrno EAGAIN)
          else some ((0, []), s)
        else some ((-1, []), s.setErrno (ot_error_to_errno r.result))
      else some ((r.result, r.bytes), { s with underWay := some (.received i) })

/-- The store of recv: "Will be set again by notifier". -/
def recvReturns (s : SocketState ot) (i : SockIdx) : SocketState ot :=
  { s.updateEntry i fun e => { e with readable := false } with underWay := none }

def sendto (s : SocketState ot) (sockfd : ℤ) (buf : List UInt8) (flags : BitVec 32) (addr : InetAddress) :
    Option (ℤ × SocketState ot) :=
  match s.get_socket sockfd with
  | none => some s.badFd
  | some i =>
    let sock := s.socket_table i
    if sock.type ≠ SOCK_DGRAM then s.send sockfd buf flags
    else if ot.waits (.OTSndUData sock.ep addr buf) s.net then none
    else
      let (r, s) := s.callOT (.OTSndUData sock.ep addr buf)
      if r.result ≠ noErr then some (s.failOT r.result) else some (buf.length, s)

/-- The address is the sender's, of a datagram. -/
def recvfrom (s : SocketState ot) (sockfd : ℤ) (len : ℕ) :
    Option ((ℤ × List UInt8 × Option InetAddress) × SocketState ot) :=
  match s.get_socket sockfd with
  | none => some ((-1, [], none), s.setErrno EBADF)
  | some i =>
    let sock := s.socket_table i
    if sock.type ≠ SOCK_DGRAM then
      (s.recv sockfd len).map fun (res, s) => ((res.1, res.2, none), s)
    else if ot.waits (.OTRcvUData sock.ep len) s.net then none
    else
      let (r, s) := s.callOT (.OTRcvUData sock.ep len)
      if r.result ≠ noErr then some ((-1, [], none), s.setErrno (ot_error_to_errno r.result))
      else some ((r.bytes.length, r.bytes, some r.addr), s)

def shutdown (s : SocketState ot) (sockfd how : ℤ) : ℤ × SocketState ot :=
  match s.get_socket sockfd with
  | none => s.badFd
  | some i =>
    if how = SHUT_WR ∨ how = SHUT_RDWR then
      let (r, s) := s.callOT (.OTSndOrderlyDisconnect (s.socket_table i).ep)
      if r.result ≠ noErr then s.failOT r.result else (0, s)
    else (0, s)

/-- What it writes to `optval`, if it writes. -/
def getsockopt (s : SocketState ot) (sockfd level optname : ℤ) : (ℤ × Option ℤ) × SocketState ot :=
  match s.get_socket sockfd with
  | none => ((-1, none), s.setErrno EBADF)
  | some i =>
    let sock := s.socket_table i
    if level = SOL_SOCKET ∧ optname = SO_TYPE then ((0, some sock.type), s)
    else if level = SOL_SOCKET ∧ optname = SO_ERROR then
      ((0, some sock.asyncError), s.updateEntry i fun e => { e with asyncError := 0 })
    else ((-1, none), s.setErrno ENOPROTOOPT)

/-! ### select -/

/-- The descriptors whose bit is set. -/
abbrev FdSet := ℤ → Bool

/-- `set && FD_ISSET(fd, set)`. -/
def isSet (fd : ℤ) : Option FdSet → Bool
  | none => false
  | some set => set fd

structure Selected where
  count : ℕ
  readResult : FdSet
  writeResult : FdSet
  exceptResult : FdSet

/-- The count and the sets as each round finds them: only the last round sets a bit. -/
def Selected.zero : Selected := ⟨0, fun _ => false, fun _ => false, fun _ => false⟩

/-- The arguments of select that its loop looks at. -/
structure SelectArgs where
  nfds : ℤ
  readfds : Option FdSet
  writefds : Option FdSet
  exceptfds : Option FdSet
  endTime : BitVec 32

/-- `endTime`, from what TickCount says and the seconds and microseconds of the timeout. -/
def selectEndTime (tickCount : BitVec 32) : Option (BitVec 32 × BitVec 32) → BitVec 32
  | some (tv_sec, tv_usec) => tickCount + tv_sec * 60 + (tv_usec * 60).sdiv 1000000
  | none => 0xFFFFFFFF

/-- The three tests of a socket. -/
def selectTests (args : SelectArgs) (i : SockIdx) (sock : SocketEntry) (res : Selected) : Selected :=
  let fd := sockFd i
  let res := if isSet fd args.readfds ∧ (sock.readable ∨ sock.listening) then
    { res with count := res.count + 1, readResult := Function.update res.readResult fd true } else res
  let res := if isSet fd args.writefds ∧ (sock.writable ∧ sock.connected) then
    { res with count := res.count + 1, writeResult := Function.update res.writeResult fd true } else res
  if isSet fd args.exceptfds ∧ sock.hasOOB then
    { res with count := res.count + 1, exceptResult := Function.update res.exceptResult fd true } else res

/-- One descriptor of a round. -/
def selectFd (args : SelectArgs) (acc : Selected × SocketState ot) (i : SockIdx) : Selected × SocketState ot :=
  let (res, s) := acc
  if ¬ (s.socket_table i).inUse then (res, s.setErrno EBADF)
  else
    let (_, s) := s.callOT (.OTLook (s.socket_table i).ep)
    (selectTests args i (s.socket_table i) res, s)

/-- `for (fd = SOCKET_FD_BASE; fd < nfds && fd < SOCKET_FD_BASE + MAX_SOCKETS; fd++)`. -/
def selectScan (args : SelectArgs) (s : SocketState ot) : Selected × SocketState ot :=
  ((List.finRange MAX_SOCKETS).filter fun i => sockFd i < args.nfds).foldl (selectFd args) (Selected.zero, s)

/-- One round of the loop of select, with what TickCount says at its end; `none` is that it goes round
    again. -/
def select (args : SelectArgs) (now : BitVec 32) (s : SocketState ot) : Option Selected × SocketState ot :=
  let (res, s) := s.selectScan args
  if 0 < res.count ∨ ¬ now < args.endTime then (some res, s) else (none, s)

/-! ### close, fcntl, ioctl -/

def posix9_close_socket (s : SocketState ot) (fd : ℤ) : ℤ × SocketState ot :=
  match s.get_socket fd with
  | none => s.badFd
  | some i =>
    let sock := s.socket_table i
    let s :=
      if sock.ep ≠ kOTInvalidEndpointRef then
        let s := if sock.connected then (s.callOT (.OTSndDisconnect sock.ep none)).2 else s
        (s.callOT (.OTCloseProvider sock.ep)).2
      else s
    (0, s.free_socket i)

def F_GETFD : ℤ := 1
def F_SETFD : ℤ := 2
def F_GETFL : ℤ := 3
def F_SETFL : ℤ := 4
def O_NONBLOCK : BitVec 32 := 0x0004

/-- Sets the mode of the endpoint and the flag. -/
def setNonblocking (s : SocketState ot) (i : SockIdx) (nonblocking : Bool) : SocketState ot :=
  let ep := (s.socket_table i).ep
  let (_, s) := s.callOT (if nonblocking then .OTSetNonBlocking ep else .OTSetBlocking ep)
  s.updateEntry i fun e => { e with nonblocking }

def fcntl (s : SocketState ot) (fd cmd : ℤ) (flags : BitVec 32) : ℤ × SocketState ot :=
  match s.get_socket fd with
  | none => s.badFd
  | some i =>
    if cmd = F_GETFL then (if (s.socket_table i).nonblocking then O_NONBLOCK.toInt else 0, s)
    else if cmd = F_SETFL then
      (0, if has flags O_NONBLOCK = (s.socket_table i).nonblocking then s
        else s.setNonblocking i (has flags O_NONBLOCK))
    else if cmd = F_GETFD ∨ cmd = F_SETFD then (0, s)
    else (-1, s.setErrno EINVAL)

def FIONBIO : ℤ := 0x5421
def FIONREAD : ℤ := 0x541B
def TIOCGWINSZ : ℤ := 0x5413
def TIOCSWINSZ : ℤ := 0x5414

/-- `val` is what `argp` points to, if it is not NULL; the numbers are what is written there. -/
def ioctl (s : SocketState ot) (fd request : ℤ) (val : Option ℤ) : (ℤ × List ℤ) × SocketState ot :=
  match s.get_socket fd with
  | none => ((-1, []), s.setErrno EBADF)
  | some i =>
    if request = FIONBIO then ((0, []), s.setNonblocking i (val.any (· ≠ 0)))
    else if request = FIONREAD then ((0, if val.isSome then [0] else []), s)
    else if request = TIOCGWINSZ then ((0, if val.isSome then [24, 80, 0, 0] else []), s)
    else if request = TIOCSWINSZ then ((0, []), s)
    else ((-1, []), s.setErrno EINVAL)

end SocketState

/-! ### Runs -/

/-- A call of the library on the socket table. -/
inductive SocketCall where
  | socket (domain type protocol : ℤ)
  | bind (sockfd : ℤ) (addr : InetAddress)
  | listen (sockfd backlog : ℤ)
  | accept (sockfd : ℤ)
  | connect (sockfd : ℤ) (addr : InetAddress)
  | send (sockfd : ℤ) (buf : List UInt8) (flags : BitVec 32)
  | recv (sockfd : ℤ) (len : ℕ)
  | sendto (sockfd : ℤ) (buf : List UInt8) (flags : BitVec 32) (addr : InetAddress)
  | recvfrom (sockfd : ℤ) (len : ℕ)
  | shutdown (sockfd how : ℤ)
  | getsockopt (sockfd level optname : ℤ)
  | select (args : SocketState.SelectArgs) (now : BitVec 32)
  | close (fd : ℤ)
  | fcntl (fd cmd : ℤ) (flags : BitVec 32)
  | ioctl (fd request : ℤ) (val : Option ℤ)

/-- What happens next: a call of the library, the next part of the one under way, or something that
    arrives. -/
inductive SocketInput where
  | call (c : SocketCall)
  | installs
  | stores
  | arrival (ep : EndpointRef) (a : Arrival)

namespace SocketState

/-- The state behind a call, the state before it where it has not returned. -/
def after {α : Type} (s : SocketState ot) (res : Option (α × SocketState ot)) : SocketState ot :=
  match res with
  | none => s
  | some (_, s) => s

def stepCall (s : SocketState ot) : SocketCall → SocketState ot
  | .socket domain type protocol => (s.socket domain type protocol).2
  | .bind sockfd addr => (s.bind sockfd addr).2
  | .listen sockfd backlog => (s.listen sockfd backlog).2
  | .accept sockfd => s.after (s.accept sockfd)
  | .connect sockfd addr => s.after (s.connect sockfd addr)
  | .send sockfd buf flags => s.after (s.send sockfd buf flags)
  | .recv sockfd len => s.after (s.recv sockfd len)
  | .sendto sockfd buf flags addr => s.after (s.sendto sockfd buf flags addr)
  | .recvfrom sockfd len => s.after (s.recvfrom sockfd len)
  | .shutdown sockfd how => (s.shutdown sockfd how).2
  | .getsockopt sockfd level optname => (s.getsockopt sockfd level optname).2
  | .select args now => (s.select args now).2
  | .close fd => (s.posix9_close_socket fd).2
  | .fcntl fd cmd flags => (s.fcntl fd cmd flags).2
  | .ioctl fd request val => (s.ioctl fd request val).2

/-- What the call under way stores, behind its last call of Open Transport. -/
def stores (s : SocketState ot) : SocketState ot :=
  match s.underWay with
  | some (.accepted a) => (s.acceptReturns a).2
  | some (.connected i addr) => s.connectReturns i addr
  | some (.received i) => s.recvReturns i
  | _ => s

/-- While a call is under way no other is made. -/
def step (s : SocketState ot) : SocketInput → SocketState ot
  | .call c => if s.underWay.isSome then s else s.stepCall c
  | .installs =>
    match s.underWay with
    | some (.accepting a) => s.acceptInstalls a
    | _ => s
  | .stores => s.stores
  | .arrival ep a => s.arrive ep a

end SocketState

end Posix9
