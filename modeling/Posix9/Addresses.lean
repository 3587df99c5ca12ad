import Posix9.Readiness
import Posix9.SocketFrames

/-! The addresses of a socket. bind, listen, connect and accept note in the entry what Open Transport has bound the
    endpoint to and what it is connected to; getsockname and getpeername read the entry and never ask again. -/

namespace Posix9.SocketState
open Runs

variable {ot : OpenTransport} {s t : SocketState ot} {i j : SockIdx} {c : OTCall} {r : OTReply}
  {ep : EndpointRef} {f : SocketEntry → SocketEntry} {log : List OTRecord}

/-! ### getsockname and getpeername -/

/-- With the address they write, if they write one. -/
def getsockname (s : SocketState ot) (sockfd : ℤ) : (ℤ × Option InetAddress) × SocketState ot :=
  match s.get_socket sockfd with
  | none => ((-1, none), s.setErrno EBADF)
  | some i => ((0, some (s.socket_table i).localAddr), s)

def getpeername (s : SocketState ot) (sockfd : ℤ) : (ℤ × Option InetAddress) × SocketState ot :=
  match s.get_socket sockfd with
  | none => ((-1, none), s.setErrno EBADF)
  | some i =>
    if ¬ (s.socket_table i).connected then ((-1, none), s.setErrno ENOTCONN)
    else ((0, some (s.socket_table i).peerAddr), s)

/-! ### The law -/

/-- The two addresses of a socket. -/
structure Names where
  localAddr : InetAddress
  peerAddr : InetAddress
  deriving DecidableEq

def Names.zero : Names := ⟨⟨0, 0⟩, ⟨0, 0⟩⟩

/-- The endpoint a call gives addresses to. -/
def addresses : OTCall → OTReply → Option EndpointRef
  | .OTOpenEndpoint _, r => some r.ref
  | .OTBind ep _ _, _ | .OTConnect ep _, _ | .OTAccept _ ep _, _ => some ep
  | _, _ => none

/-- The addresses of the endpoint once the call has succeeded. -/
def readdress (n : Names) : OTCall → OTReply → Names
  | .OTOpenEndpoint _, _ => .zero
  | .OTBind _ _ _, r => { n with localAddr := r.addr }
  | .OTConnect _ addr, _ => { n with peerAddr := addr }
  | .OTAccept _ _ call, _ => { n with peerAddr := call.addr }
  | _, _ => n

/-- What Open Transport has said of an endpoint since it opened it: the address it bound it to last, and the one it
    connected it to last, in an OTConnect or OTAccept that returned noErr. -/
def namesOf (ep : EndpointRef) : List OTRecord → Names
  | [] => .zero
  | .call c r :: log =>
    if r.result = noErr ∧ addresses c r = some ep then readdress (namesOf ep log) c r else namesOf ep log
  | .event _ _ _ :: log => namesOf ep log

def entryNames (e : SocketEntry) : Names := ⟨e.localAddr, e.peerAddr⟩

/-- The peer that the call under way has yet to store, with the slot it goes into. -/
def toStore (s : SocketState ot) : Option (SockIdx × InetAddress) :=
  match s.underWay with
  | some (.accepting a) | some (.accepted a) => some (a.newsock, a.clientAddr)
  | some (.connected i addr) => some (i, addr)
  | _ => none

/-- The addresses noted of a slot, with the peer that a call under way stores there before it returns. -/
def noted (s : SocketState ot) (i : SockIdx) : Names :=
  match s.toStore with
  | some (k, addr) => if k = i then { entryNames (s.socket_table i) with peerAddr := addr }
    else entryNames (s.socket_table i)
  | none => entryNames (s.socket_table i)

/-- What is noted of the slots in use is what Open Transport has said of their endpoints. -/
def Named (s : SocketState ot) : Prop :=
  ∀ i, (s.socket_table i).inUse = true → s.noted i = namesOf (s.socket_table i).ep s.log

/-- What getsockname and getpeername give of a descriptor whose slot is `i`. -/
structure AsSaid (s : SocketState ot) (fd : ℤ) (i : SockIdx) : Prop where
  sockname : (s.getsockname fd).1 = (0, some (namesOf (s.socket_table i).ep s.log).localAddr)
  peername : (s.getpeername fd).1 =
    if (s.socket_table i).connected then (0, some (namesOf (s.socket_table i).ep s.log).peerAddr) else (-1, none)

/-! ### The log -/

theorem namesOf_of_not (h : ¬ (r.result = noErr ∧ addresses c r = some ep)) :
    namesOf ep (.call c r :: log) = namesOf ep log := if_neg h

theorem namesOf_call (hok : r.result = noErr) (h : addresses c r = some ep) :
    namesOf ep (.call c r :: log) = readdress (namesOf ep log) c r := if_pos ⟨hok, h⟩

theorem namesOf_made (h : Made (fun c r => ¬ (r.result = noErr ∧ addresses c r = some ep)) s t) :
    namesOf ep t.log = namesOf ep s.log := by
  obtain ⟨l, hl, hnot⟩ := h
  rw [hl]
  clear hl
  induction l with
  | nil => rfl
  | cons record l ih =>
    have ih := ih fun c r hmem => hnot c r (List.mem_cons_of_mem _ hmem)
    cases record with
    | call c r => exact (namesOf_of_not (hnot c r List.mem_cons_self)).trans ih
    | event => exact ih

/-! ### The entries -/

/-- The addresses in the entries are as before, and so is what there is to store. -/
structure SameNames (s t : SocketState ot) : Prop where
  names : ∀ j, entryNames (t.socket_table j) = entryNames (s.socket_table j)
  toStore : t.toStore = s.toStore

theorem SameNames.of_table (htable : t.socket_table = s.socket_table) (hw : t.underWay = s.underWay) :
    SameNames s t where
  names j := by rw [htable]
  toStore := by rw [SocketState.toStore, SocketState.toStore, hw]

theorem SameNames.update (h : SameNames s t)
    (hf : entryNames (f (t.socket_table i)) = entryNames (t.socket_table i)) : SameNames s (t.updateEntry i f) where
  names j := by
    rcases eq_or_ne j i with rfl | hne
    · rw [updateEntry_self, hf]
      exact h.names j
    · rw [updateEntry_of_ne t f hne]
      exact h.names j
  toStore := h.toStore

theorem SameNames.free (h : SameNames s t) (i : SockIdx) : SameNames s (t.free_socket i) := h.update rfl

/-- recv has no peer to store. -/
theorem recv_names (hidle : s.underWay = none) (sockfd : ℤ) (len : ℕ) :
    SameNames s (s.after (s.recv sockfd len)) := by
  rw [recv]
  rcases s.get_socket sockfd with _ | i
  · exact .of_table rfl rfl
  dsimp only
  split
  · exact .of_table rfl rfl
  split
  · split
    · split <;> exact .of_table rfl rfl
    · exact .of_table rfl rfl
  · refine ⟨fun _ => rfl, ?_⟩
    simp only [toStore, hidle, after]

theorem getsockopt_names (s : SocketState ot) (sockfd level optname : ℤ) :
    SameNames s (s.getsockopt sockfd level optname).2 := by
  rw [getsockopt]
  rcases s.get_socket sockfd with _ | i
  · exact .of_table rfl rfl
  dsimp only
  split
  · exact .of_table rfl rfl
  split
  · dsimp only
    refine SameNames.update (.of_table rfl rfl) ?_
    rfl
  · exact .of_table rfl rfl

/-- No round of select writes to an entry. -/
theorem select_names (s : SocketState ot) (args : SelectArgs) (now : BitVec 32) :
    SameNames s (s.select args now).2 := by
  have hfd : ∀ (acc : Selected × SocketState ot) i, (selectFd args acc i).2.underWay = acc.2.underWay := by
    intro acc i
    rw [selectFd]
    dsimp only
    split <;> rfl
  have hfold : ∀ (is : List SockIdx) (acc : Selected × SocketState ot),
      (is.foldl (selectFd args) acc).2.socket_table = acc.2.socket_table ∧
        (is.foldl (selectFd args) acc).2.underWay = acc.2.underWay := by
    intro is
    induction is with
    | nil => exact fun acc => ⟨rfl, rfl⟩
    | cons i is ih => exact fun acc => ⟨(ih _).1.trans (selectFd_table args acc i), (ih _).2.trans (hfd acc i)⟩
  rw [select, selectScan]
  dsimp only
  split <;> exact .of_table (hfold _ (.zero, s)).1 (hfold _ (.zero, s)).2

theorem send_names (s : SocketState ot) (sockfd : ℤ) (buf : List UInt8) (flags : BitVec 32) :
    SameNames s (s.after (s.send sockfd buf flags)) := by
  rw [send]
  rcases s.get_socket sockfd with _ | i
  · exact .of_table rfl rfl
  dsimp only
  split
  · exact .of_table rfl rfl
  split
  · exact .of_table rfl rfl
  split <;> exact .of_table rfl rfl

theorem sendto_names (s : SocketState ot) (sockfd : ℤ) (buf : List UInt8) (flags : BitVec 32) (addr : InetAddress) :
    SameNames s (s.after (s.sendto sockfd buf flags addr)) := by
  rw [sendto]
  rcases s.get_socket sockfd with _ | i
  · exact .of_table rfl rfl
  dsimp only
  split
  · exact send_names s sockfd buf flags
  split
  · exact .of_table rfl rfl
  split <;> exact .of_table rfl rfl

theorem recvfrom_names (hidle : s.underWay = none) (sockfd : ℤ) (len : ℕ) :
    SameNames s (s.after (s.recvfrom sockfd len)) := by
  rcases hget : s.get_socket sockfd with _ | i
  · rw [recvfrom, hget]
    exact .of_table rfl rfl
  by_cases htype : (s.socket_table i).type = SOCK_DGRAM
  · rw [recvfrom, hget]
    dsimp only
    rw [if_neg (not_not.mpr htype)]
    split
    · exact .of_table rfl rfl
    split <;> exact .of_table rfl rfl
  · rw [after_recvfrom len hget htype]
    exact recv_names hidle sockfd len

theorem shutdown_names (s : SocketState ot) (sockfd how : ℤ) : SameNames s (s.shutdown sockfd how).2 := by
  rw [shutdown]
  rcases s.get_socket sockfd with _ | i
  · exact .of_table rfl rfl
  dsimp only
  split
  · split <;> exact .of_table rfl rfl
  · exact .of_table rfl rfl

theorem close_names (s : SocketState ot) (fd : ℤ) : SameNames s (s.posix9_close_socket fd).2 := by
  rw [posix9_close_socket]
  rcases s.get_socket fd with _ | i
  · exact .of_table rfl rfl
  dsimp only
  split
  · split <;>
    · refine SameNames.free ?_ i
      exact .of_table rfl rfl
  · refine SameNames.free ?_ i
    exact .of_table rfl rfl

theorem setNonblocking_names (s : SocketState ot) (i : SockIdx) (nonblocking : Bool) :
    SameNames s (s.setNonblocking i nonblocking) := by
  rw [setNonblocking]
  exact SameNames.update (.of_table rfl rfl) rfl

theorem fcntl_names (s : SocketState ot) (fd cmd : ℤ) (flags : BitVec 32) :
    SameNames s (s.fcntl fd cmd flags).2 := by
  rw [fcntl]
  rcases s.get_socket fd with _ | i
  · exact .of_table rfl rfl
  dsimp only
  split
  · exact .of_table rfl rfl
  split
  · dsimp only
    split
    · exact .of_table rfl rfl
    · exact setNonblocking_names s i _
  split <;> exact .of_table rfl rfl

theorem ioctl_names (s : SocketState ot) (fd request : ℤ) (val : Option ℤ) :
    SameNames s (s.ioctl fd request val).2 := by
  rw [ioctl]
  rcases s.get_socket fd with _ | i
  · exact .of_table rfl rfl
  dsimp only
  split
  · exact setNonblocking_names s i _
  repeat' split
  all_goals exact .of_table rfl rfl

/-- A notifier writes no address. -/
theorem arrive_names (s : SocketState ot) (ep : EndpointRef) (a : Arrival) : SameNames s (s.arrive ep a) := by
  rcases arrive_cases s ep a with ⟨harrive, -⟩ | ⟨i, -, -, harrive⟩ <;> rw [harrive]
  · exact .of_table rfl rfl
  · cases a.event.1 with
    | T_PASSCON | T_UDERR => exact .of_table rfl rfl
    | _ =>
      dsimp only [socket_notifier]
      exact SameNames.update (.of_table rfl rfl) rfl

/-! ### One call keeps the law -/

theorem toStore_of_idle (hidle : s.underWay = none) : s.toStore = none := by
  rw [toStore, hidle]

theorem noted_of_none (h : s.toStore = none) (i : SockIdx) : s.noted i = entryNames (s.socket_table i) := by
  rw [noted, h]

theorem noted_congr (hstore : t.toStore = s.toStore)
    (hnames : entryNames (t.socket_table i) = entryNames (s.socket_table i)) : t.noted i = s.noted i := by
  rw [noted, noted, hstore, hnames]

/-- A slot that was in use and is not concerned. -/
theorem Named.of_same (hn : s.Named) (hj : (s.socket_table j).inUse = true)
    (hep : (t.socket_table j).ep = (s.socket_table j).ep) (hnoted : t.noted j = s.noted j)
    (hlog : namesOf (s.socket_table j).ep t.log = namesOf (s.socket_table j).ep s.log) :
    t.noted j = namesOf (t.socket_table j).ep t.log := by
  rw [hnoted, hep, hlog]
  exact hn j hj

/-- A call that gives no address to an endpoint of a slot in use. -/
theorem Named.call (hn : s.Named) (h : ∀ j, (s.socket_table j).inUse = true →
    ¬ ((s.callOT c).1.result = noErr ∧ addresses c (s.callOT c).1 = some (s.socket_table j).ep)) :
    (s.callOT c).2.Named :=
  fun j hj => hn.of_same hj rfl rfl (namesOf_of_not (h j hj))

/-- A call that succeeds in giving an address to the endpoint of a slot, and the address noted there. -/
theorem Named.readdressed (hn : s.Named) (hdistinct : ∀ j, (s.socket_table j).inUse = true → j ≠ i →
      (s.socket_table j).ep ≠ (s.socket_table i).ep) (hi : (s.socket_table i).inUse = true)
    (hnone : s.toStore = none) (hok : (s.callOT c).1.result = noErr)
    (hc : addresses c (s.callOT c).1 = some (s.socket_table i).ep)
    (hf : (f (s.socket_table i)).inUse = (s.socket_table i).inUse ∧ (f (s.socket_table i)).ep = (s.socket_table i).ep)
    (hnames : entryNames (f (s.socket_table i)) =
      readdress (entryNames (s.socket_table i)) c (s.callOT c).1) :
    ((s.callOT c).2.updateEntry i f).Named := by
  have hfi : ((s.callOT c).2.updateEntry i f).socket_table i = f (s.socket_table i) := updateEntry_self ..
  intro j hj
  rcases eq_or_ne j i with rfl | hne
  · have hlog : namesOf (s.socket_table j).ep ((s.callOT c).2.updateEntry j f).log =
        readdress (namesOf (s.socket_table j).ep s.log) c (s.callOT c).1 := namesOf_call hok hc
    rw [noted_of_none (s := (s.callOT c).2.updateEntry j f) hnone, hfi, hf.2, hnames, hlog, ← hn j hi,
      noted_of_none hnone]
  · have hsame : ((s.callOT c).2.updateEntry i f).socket_table j = s.socket_table j := updateEntry_of_ne _ _ hne
    rw [hsame] at hj
    refine hn.of_same hj (congrArg SocketEntry.ep hsame) (noted_congr rfl (congrArg entryNames hsame)) ?_
    refine namesOf_of_not fun hsome => ?_
    exact hdistinct j hj hne (Option.some.inj (hsome.2.symm.trans hc))

theorem Named.update (hn : s.Named)
    (hf : (f (s.socket_table i)).inUse = (s.socket_table i).inUse ∧ (f (s.socket_table i)).ep = (s.socket_table i).ep)
    (hnames : entryNames (f (s.socket_table i)) = entryNames (s.socket_table i)) : (s.updateEntry i f).Named := by
  intro j hj
  have hslots : SameSlots s (s.updateEntry i f) := .update hf
  have hsame : SameNames s (s.updateEntry i f) := SameNames.update (.of_table rfl rfl) hnames
  have hj := (hslots.inUse j).symm.trans hj
  exact hn.of_same hj (hslots.ep j hj) (noted_congr rfl (hsame.names j)) rfl

theorem Owned.distinct_ep (hs : s.Owned) (hi : (s.socket_table i).inUse = true) :
    ∀ j, (s.socket_table j).inUse = true → j ≠ i → (s.socket_table j).ep ≠ (s.socket_table i).ep :=
  fun j hj hne hep => hne (hs.distinct j i hj hi hep)

theorem bind_named (hs : s.Owned) (hn : s.Named) (hidle : s.underWay = none) (sockfd : ℤ) (addr : InetAddress) :
    (s.bind sockfd addr).2.Named := by
  rw [bind]
  rcases hget : s.get_socket sockfd with _ | i
  · exact hn
  have hi := get_socket_inUse hget
  dsimp only
  split
  case isTrue hfail => exact hn.call fun j _ hok => hfail hok.1
  case isFalse hok =>
    dsimp only
    refine hn.readdressed (hs.distinct_ep hi) hi (toStore_of_idle hidle) (not_not.mp hok) rfl ?_ ?_
    · exact ⟨rfl, rfl⟩
    · rfl

/-- A socket that is bound is unbound first, which says nothing of its address. -/
theorem listen_named (hs : s.Owned) (hn : s.Named) (hidle : s.underWay = none) (sockfd backlog : ℤ) :
    (s.listen sockfd backlog).2.Named := by
  rw [listen]
  rcases hget : s.get_socket sockfd with _ | i
  · exact hn
  have hi := get_socket_inUse hget
  have hunbind : (s.callOT (.OTUnbind (s.socket_table i).ep)).2.Named :=
    hn.call fun j _ h => by cases h.2
  dsimp only
  split
  · exact hn
  split
  · split
    case isTrue hfail => exact hunbind.call fun j _ hok => hfail hok.1
    case isFalse hok =>
      dsimp only
      refine hunbind.readdressed (hs.distinct_ep hi) hi (toStore_of_idle hidle) (not_not.mp hok) rfl ?_ ?_
      · exact ⟨rfl, rfl⟩
      · rfl
  · dsimp only
    refine hn.update ?_ ?_
    · exact ⟨rfl, rfl⟩
    · rfl

/-- connect has the peer to store that OTConnect has connected the endpoint to. -/
theorem Named.connected (hn : s.Named) {addr : InetAddress} (hdistinct : ∀ j, (s.socket_table j).inUse = true → j ≠ i →
      (s.socket_table j).ep ≠ (s.socket_table i).ep) (hi : (s.socket_table i).inUse = true)
    (hidle : s.underWay = none) (hok : (s.callOT (.OTConnect (s.socket_table i).ep addr)).1.result = noErr) :
    Named { (s.callOT (.OTConnect (s.socket_table i).ep addr)).2 with underWay := some (.connected i addr) } := by
  intro j hj
  rcases eq_or_ne j i with rfl | hne
  · have hlog : namesOf (s.socket_table j).ep (s.callOT (.OTConnect (s.socket_table j).ep addr)).2.log =
        { namesOf (s.socket_table j).ep s.log with peerAddr := addr } := namesOf_call hok rfl
    rw [← hn j hi, noted_of_none (toStore_of_idle hidle)] at hlog
    exact (if_pos rfl).trans hlog.symm
  · have hnoted : noted { (s.callOT (.OTConnect (s.socket_table i).ep addr)).2 with
        underWay := some (.connected i addr) } j = entryNames (s.socket_table j) := if_neg hne.symm
    refine hn.of_same hj rfl (hnoted.trans (noted_of_none (toStore_of_idle hidle) j).symm) ?_
    exact namesOf_of_not fun hsome => hdistinct j hj hne (Option.some.inj hsome.2).symm

theorem connect_named (hs : s.Owned) (hn : s.Named) (hidle : s.underWay = none) (sockfd : ℤ) (addr : InetAddress) :
    (s.after (s.connect sockfd addr)).Named := by
  rw [connect]
  rcases hget : s.get_socket sockfd with _ | i
  · exact hn
  have hi := get_socket_inUse hget
  dsimp only
  split
  · exact hn
  split
  case isTrue hfail => exact hn.call fun j _ hok => hfail hok.1
  case isFalse hok => exact hn.connected (hs.distinct_ep hi) hi hidle (not_not.mp hok)

/-! ### socket and accept -/

/-- Nothing is said of the addresses of an endpoint. -/
abbrev Silent (e : EndpointRef) (c : OTCall) (r : OTReply) : Prop := ¬ (r.result = noErr ∧ addresses c r = some e)

theorem silent_of_none {e : EndpointRef} (h : addresses c r = none) : Silent e c r := fun hsome => by
  cases h.symm.trans hsome.2

/-- The calls that give an endpoint addresses. -/
def addressing : SocketInput → Bool
  | .call (.bind ..) | .call (.listen ..) | .call (.accept _) | .call (.connect ..) => true
  | _ => false

/-- Any other input leaves the endpoints of the slots in use alone: socket opens one that none of them has. -/
theorem issued_silent {a : SocketInput} (ha : addressing a = false) (h : Issued s a c r)
    (hj : (s.socket_table j).inUse = true) : Silent (s.socket_table j).ep c r := by
  rintro ⟨hok, hsome⟩
  obtain ⟨hmakes, hapart⟩ := h
  rcases a with d | _ | _ | _
  · cases c with
    | OTOpenEndpoint config => exact hapart hok j hj (Option.some.inj hsome).symm
    | OTBind | OTConnect | OTAccept =>
      cases d <;> first
        | cases ha; done
        | cases hmakes
    | _ => cases hsome
  all_goals
    cases c <;> first
      | cases hmakes; done
      | cases hsome

/-- A slot without addresses, and an endpoint nothing has been said of. -/
structure Nameless (s : SocketState ot) (i : SockIdx) : Prop where
  entry : entryNames (s.socket_table i) = .zero
  said : namesOf (s.socket_table i).ep s.log = .zero

theorem openSocket_of_ne (h : j ≠ i) (config : OTConfigurationRef) (domain type protocol : ℤ) :
    (s.openSocket i config domain type protocol).2.socket_table j = s.socket_table j := by
  rw [openSocket]
  dsimp only
  split
  · exact (free_socket_of_ne h).trans (updateEntry_of_ne _ _ h)
  split
  · refine (free_socket_of_ne h).trans ?_
    simp only [callOT_table, updateEntry_of_ne _ _ h]
  · simp only [callOT_table, updateEntry_of_ne _ _ h]

theorem openSocket_new (hzero : entryNames (s.socket_table i) = .zero) (config : OTConfigurationRef)
    (domain type protocol : ℤ)
    (hi : ((s.openSocket i config domain type protocol).2.socket_table i).inUse = true) :
    (s.openSocket i config domain type protocol).2.Nameless i := by
  rw [openSocket] at hi ⊢
  dsimp only at hi ⊢
  split at hi
  · cases free_socket_inUse.symm.trans hi
  rename_i hopened
  split at hi
  · cases free_socket_inUse.symm.trans hi
  rename_i hinstalled
  have hok : (s.callOT (.OTOpenEndpoint config)).1.result = noErr := not_not.mp (not_or.mp hopened).1
  rw [if_neg hopened, if_neg hinstalled]
  dsimp only
  refine ⟨?_, ?_⟩ <;> simp only [updateEntry_self, callOT_table]
  · exact hzero
  calc namesOf (s.callOT (.OTOpenEndpoint config)).1.ref _
      = namesOf (s.callOT (.OTOpenEndpoint config)).1.ref (s.callOT (.OTOpenEndpoint config)).2.log :=
        ((namesOf_of_not (silent_of_none rfl)).trans (namesOf_of_not (silent_of_none rfl))).trans
          (namesOf_of_not (silent_of_none rfl))
    _ = .zero := namesOf_call hok rfl

theorem init_open_transport_table (s : SocketState ot) : s.init_open_transport.2.socket_table = s.socket_table := by
  rw [init_open_transport]
  split
  · rfl
  · dsimp only
    split <;> rfl

/-- In a table that has just been initialised no slot is in use. -/
theorem init_socket_table_used (hj : (s.init_socket_table.socket_table j).inUse = true) :
    s.init_socket_table.socket_table j = s.socket_table j := by
  rw [init_socket_table] at hj ⊢
  split at hj
  case isTrue hinit => rw [if_pos hinit]
  case isFalse => cases hj

/-- A slot in use behind socket was so before, or is new. -/
theorem socket_entry {domain type protocol : ℤ}
    (hj : ((s.socket domain type protocol).2.socket_table j).inUse = true) :
    (s.socket domain type protocol).2.socket_table j = s.socket_table j ∨
      (s.socket domain type protocol).2.Nameless j := by
  have hopenOT := init_open_transport_table s
  obtain ⟨e, hsocket⟩ | ⟨e, hsocket⟩ | ⟨i, configStr, -, config, rfl, hend⟩ := s.socket_cases domain type protocol
  · rw [hsocket]
    exact .inl (congrFun hopenOT j)
  · rw [hsocket] at hj ⊢
    exact .inl ((init_socket_table_used hj).trans (congrFun hopenOT j))
  rcases eq_or_ne j i with rfl | hne
  · rcases hend with hsocket | ⟨protocol', hsocket⟩ <;> rw [hsocket] at hj ⊢
    · cases free_socket_inUse.symm.trans hj
    · refine .inr (openSocket_new ?_ _ domain type protocol' hj)
      rw [callOT_table, updateEntry_self]
      rfl
  · have hsame : (s.socket domain type protocol).2.socket_table j =
        s.init_open_transport.2.init_socket_table.socket_table j := by
      rcases hend with hsocket | ⟨protocol', hsocket⟩ <;> rw [hsocket]
      · refine (free_socket_of_ne hne).trans ?_
        rw [callOT_table, updateEntry_of_ne _ _ hne]
      · refine (openSocket_of_ne hne _ domain type protocol').trans ?_
        rw [callOT_table, updateEntry_of_ne _ _ hne]
    rw [hsame] at hj ⊢
    exact .inl ((init_socket_table_used hj).trans (congrFun hopenOT j))

/-- An endpoint that is open is not one OTOpenEndpoint opens. -/
theorem ref_ne (hot : ot.Lawful) {e : EndpointRef} (he : (ot.endpoint s.net e).isOpen = true)
    {config : OTConfigurationRef} (hok : (s.callOT (.OTOpenEndpoint config)).1.result = noErr) :
    (s.callOT (.OTOpenEndpoint config)).1.ref ≠ e := by
  rintro rfl
  cases ((hot.opened config s.net hok).2.1).symm.trans he

/-- accept says nothing of the endpoints that are open before it opens one. -/
theorem openAccepted_log (hot : ot.Lawful) {e : EndpointRef} (he : (ot.endpoint s.net e).isOpen = true)
    (i newsock : SockIdx) (call : TCall) : Made (Silent e) s (s.openAccepted i newsock call).2 := by
  have hconfig : Made (Silent e) s (s.callOT (.OTCreateConfiguration .kTCPName)).2 := .call (silent_of_none rfl)
  have he' : (ot.endpoint (s.callOT (.OTCreateConfiguration .kTCPName)).2.net e).isOpen = true :=
    (isOpen_plain hot rfl s.net e).trans he
  rw [openAccepted]
  dsimp only
  generalize (s.callOT (.OTCreateConfiguration .kTCPName)).1.ref = config
  generalize (s.callOT (.OTCreateConfiguration .kTCPName)).2 = t at hconfig he'
  have hopen : Made (Silent e) s (t.callOT (.OTOpenEndpoint config)).2 :=
    hconfig.trans (.call fun h => ref_ne hot he' h.1 (Option.some.inj h.2))
  split
  · exact hopen.trans (.trans (.of_log rfl) (.trans (.call (silent_of_none rfl)) (.of_log rfl)))
  rename_i hok
  split
  case isTrue hfail =>
    exact hopen.trans (.trans (.of_log rfl) (.trans (.call fun h => hfail h.1)
      (.trans (.call (silent_of_none rfl)) (.of_log rfl))))
  case isFalse =>
    refine hopen.trans (.trans (.of_log rfl) (.trans (Made.call
      (c := .OTAccept (s.socket_table i).ep (t.callOT (.OTOpenEndpoint config)).1.ref call) ?_) (.of_log rfl)))
    exact fun h => ref_ne hot he' (not_not.mp hok) (Option.some.inj h.2)

theorem openAccepted_of_ne {newsock : SockIdx} (h : j ≠ newsock) (call : TCall) :
    (s.openAccepted i newsock call).2.socket_table j = s.socket_table j := by
  rw [openAccepted]
  dsimp only
  split
  · exact (free_socket_of_ne h).trans (updateEntry_of_ne _ _ h)
  split
  · refine (free_socket_of_ne h).trans ?_
    simp only [callOT_table, updateEntry_of_ne _ _ h]
  · simp only [callOT_table, updateEntry_of_ne _ _ h]

/-- accept fails and gives its slot back, or is under way with a slot whose endpoint has been connected. -/
theorem openAccepted_new {newsock : SockIdx} (hzero : entryNames (s.socket_table newsock) = .zero) (call : TCall) :
    ((s.openAccepted i newsock call).2.socket_table newsock).inUse = false ∧
        (s.openAccepted i newsock call).2.underWay = s.underWay ∨
      (s.openAccepted i newsock call).2.underWay = some (.accepting ⟨i, newsock, call.addr⟩) ∧
        entryNames ((s.openAccepted i newsock call).2.socket_table newsock) = .zero ∧
        namesOf ((s.openAccepted i newsock call).2.socket_table newsock).ep (s.openAccepted i newsock call).2.log =
          { Names.zero with peerAddr := call.addr } := by
  rw [openAccepted]
  dsimp only
  generalize (s.callOT (.OTCreateConfiguration .kTCPName)).1.ref = config
  have htable : (s.callOT (.OTCreateConfiguration .kTCPName)).2.socket_table = s.socket_table := rfl
  have hsame : (s.callOT (.OTCreateConfiguration .kTCPName)).2.underWay = s.underWay := rfl
  generalize (s.callOT (.OTCreateConfiguration .kTCPName)).2 = t at htable hsame
  split
  · exact .inl ⟨free_socket_inUse, hsame⟩
  rename_i hopened
  split
  · exact .inl ⟨free_socket_inUse, hsame⟩
  rename_i haccepted
  refine .inr ⟨rfl, ?_, ?_⟩ <;> simp only [updateEntry_self, callOT_table]
  · rw [← hzero, ← htable]
    rfl
  calc namesOf (t.callOT (.OTOpenEndpoint config)).1.ref _
      = readdress (namesOf (t.callOT (.OTOpenEndpoint config)).1.ref (t.callOT (.OTOpenEndpoint config)).2.log) _ _ :=
        namesOf_call (not_not.mp haccepted) rfl
    _ = { Names.zero with peerAddr := call.addr } :=
        congrArg (fun n : Names => { n with peerAddr := call.addr }) (namesOf_call (not_not.mp hopened) rfl)

theorem accept_named (hot : ot.Lawful) (hs : s.Owned) (hn : s.Named) (hidle : s.underWay = none) {fd : ℤ}
    {res : Option ℤ × SocketState ot} (haccept : s.accept fd = some res) : res.2.Named := by
  obtain ⟨e, rfl⟩ | ⟨i, listened, hget, rfl, hend⟩ := accept_cases haccept
  · exact hn
  have hi := get_socket_inUse hget
  have hlisten : (s.callOT (.OTListen (s.socket_table i).ep)).2.Named := hn.call fun j _ h => by cases h.2
  have hinit : (s.callOT (.OTListen (s.socket_table i).ep)).2.init_socket_table =
      (s.callOT (.OTListen (s.socket_table i).ep)).2 := if_pos (hs.initialized i hi)
  rw [hinit] at hend
  obtain ⟨-, e, rfl⟩ | ⟨-, rfl | ⟨newsock, hfree, rfl⟩⟩ := hend
  · exact hlisten
  · exact Named.call (s := (s.callOT (.OTListen (s.socket_table i).ep)).2.setErrno EMFILE) hlisten
      fun j _ h => by cases h.2
  generalize (s.callOT (.OTListen (s.socket_table i).ep)).1.call = call
  let u := (s.callOT (.OTListen (s.socket_table i).ep)).2.updateEntry newsock fun _ =>
    { SocketEntry.zero with inUse := true }
  change (u.openAccepted i newsock call).2.Named
  have hzero : entryNames (u.socket_table newsock) = .zero := by rw [updateEntry_self]; rfl
  have hnew := openAccepted_new (i := i) hzero call
  intro j hj
  rcases eq_or_ne j newsock with rfl | hne
  · rcases hnew with ⟨hunused, -⟩ | ⟨haccepting, hentry, hsaid⟩
    · cases hunused.symm.trans hj
    · rw [noted, toStore, haccepting]
      dsimp only
      rw [if_pos rfl, hentry, hsaid]
  · have hsame : (u.openAccepted i newsock call).2.socket_table j = s.socket_table j :=
      (openAccepted_of_ne hne call).trans (updateEntry_of_ne _ _ hne)
    rw [hsame] at hj
    refine hn.of_same hj (congrArg SocketEntry.ep hsame) ?_ ?_
    · rw [noted_of_none (toStore_of_idle hidle), ← hsame]
      rcases hnew with ⟨-, hback⟩ | ⟨haccepting, -, -⟩
      · exact noted_of_none (toStore_of_idle (hback.trans hidle)) j
      · rw [noted, toStore, haccepting]
        exact if_neg hne.symm
    · have hlistened : Made (Silent (s.socket_table j).ep) s u :=
        (Made.call (c := .OTListen (s.socket_table i).ep) (silent_of_none rfl)).trans (.of_log rfl)
      have hopen : (ot.endpoint u.net (s.socket_table j).ep).isOpen = true :=
        (isOpen_plain hot rfl s.net (s.socket_table j).ep).trans (hs.isOpen j hj)
      exact namesOf_made (hlistened.trans (openAccepted_log hot hopen i newsock call))

/-! ### Steps -/

theorem stepCall_said (hot : ot.Lawful) (hs : s.Owned) {d : SocketCall} (hd : addressing (.call d) = false)
    (hj : (s.socket_table j).inUse = true) :
    namesOf (s.socket_table j).ep (s.stepCall d).log = namesOf (s.socket_table j).ep s.log := by
  have hmade : Made (Issued s (.call d)) s (s.stepCall d) := by
    rcases call_ends hot hs d with h | ⟨i, -, h | h⟩
    · exact h.made
    · exact h.made
    · exact h.made
  exact namesOf_made (hmade.mono fun c r h => issued_silent hd h hj)

theorem openSocket_underWay (s : SocketState ot) (i : SockIdx) (config : OTConfigurationRef)
    (domain type protocol : ℤ) : (s.openSocket i config domain type protocol).2.underWay = s.underWay := by
  rw [openSocket]
  dsimp only
  split
  · rfl
  split <;> rfl

theorem socket_underWay (s : SocketState ot) (domain type protocol : ℤ) :
    (s.socket domain type protocol).2.underWay = s.underWay := by
  have hopenOT : s.init_open_transport.2.underWay = s.underWay := by
    rw [init_open_transport]
    split
    · rfl
    · dsimp only
      split <;> rfl
  have hinit : s.init_open_transport.2.init_socket_table.underWay = s.underWay := by
    rw [init_socket_table]
    split <;> exact hopenOT
  obtain ⟨e, hsocket⟩ | ⟨e, hsocket⟩ | ⟨i, configStr, -, config, rfl, hend⟩ := s.socket_cases domain type protocol
  · rw [hsocket]
    exact hopenOT
  · rw [hsocket]
    exact hinit
  · rcases hend with hsocket | ⟨protocol', hsocket⟩ <;> rw [hsocket]
    · exact hinit
    · exact (openSocket_underWay _ i _ domain type protocol').trans hinit

theorem socket_named (hot : ot.Lawful) (hs : s.Owned) (hn : s.Named) (hidle : s.underWay = none)
    (domain type protocol : ℤ) : (s.socket domain type protocol).2.Named := by
  intro j hj
  have hsame := (socket_underWay s domain type protocol).trans hidle
  have hstore : (s.socket domain type protocol).2.toStore = s.toStore :=
    (toStore_of_idle hsame).trans (toStore_of_idle hidle).symm
  rcases socket_entry hj with hentry | hnew
  · rw [hentry] at hj
    exact hn.of_same hj (congrArg SocketEntry.ep hentry) (noted_congr hstore (congrArg entryNames hentry))
      (stepCall_said hot hs (d := .socket domain type protocol) rfl hj)
  · rw [noted_of_none (toStore_of_idle hsame), hnew.entry, hnew.said]

/-- A call that neither takes a slot nor gives an endpoint addresses. -/
theorem Named.stepCall_of_same (hot : ot.Lawful) (hs : s.Owned) (hn : s.Named) {d : SocketCall}
    (hd : addressing (.call d) = false)
    (hslots : ∀ j, ((s.stepCall d).socket_table j).inUse = true → (s.socket_table j).inUse = true ∧
      ((s.stepCall d).socket_table j).ep = (s.socket_table j).ep)
    (hnames : SameNames s (s.stepCall d)) : (s.stepCall d).Named := by
  intro j hj
  obtain ⟨hj, hep⟩ := hslots j hj
  exact hn.of_same hj hep (noted_congr hnames.toStore (hnames.names j)) (stepCall_said hot hs hd hj)

theorem SameSlots.used (h : SameSlots s t) (j : SockIdx) (hj : (t.socket_table j).inUse = true) :
    (s.socket_table j).inUse = true ∧ (t.socket_table j).ep = (s.socket_table j).ep :=
  have hj := (h.inUse j).symm.trans hj
  ⟨hj, h.ep j hj⟩

theorem stepCall_named (hot : ot.Lawful) (hs : s.Owned) (hn : s.Named) (hidle : s.underWay = none) (d : SocketCall) :
    (s.stepCall d).Named := by
  have hquiet := @Named.stepCall_of_same ot s hot hs hn
  cases d with
  | socket domain type protocol => exact socket_named hot hs hn hidle domain type protocol
  | bind sockfd addr => exact bind_named hs hn hidle sockfd addr
  | listen sockfd backlog => exact listen_named hs hn hidle sockfd backlog
  | accept sockfd =>
    rcases haccept : s.accept sockfd with _ | res
    · rw [stepCall, haccept]
      exact hn
    · rw [stepCall, haccept]
      exact accept_named hot hs hn hidle haccept
  | connect sockfd addr => exact connect_named hs hn hidle sockfd addr
  | send sockfd buf flags =>
    exact hquiet rfl (send_keeps hot s sockfd buf flags).used (send_names s sockfd buf flags)
  | recv sockfd len => exact hquiet rfl (recv_keeps hot s sockfd len).used (recv_names hidle sockfd len)
  | sendto sockfd buf flags addr =>
    exact hquiet rfl (sendto_keeps hot s sockfd buf flags addr).used (sendto_names s sockfd buf flags addr)
  | recvfrom sockfd len =>
    exact hquiet rfl (recvfrom_keeps hot s sockfd len).used (recvfrom_names hidle sockfd len)
  | shutdown sockfd how =>
    exact hquiet rfl (shutdown_keeps hot s sockfd how).used (shutdown_names s sockfd how)
  | getsockopt sockfd level optname =>
    exact hquiet rfl (getsockopt_keeps (P := fun _ _ => True) s sockfd level optname).used
      (getsockopt_names s sockfd level optname)
  | select args now =>
    exact hquiet rfl (select_keeps hot s args now).used (select_names s args now)
  | fcntl fd cmd flags => exact hquiet rfl (fcntl_keeps hot s fd cmd flags).used (fcntl_names s fd cmd flags)
  | ioctl fd request val =>
    exact hquiet rfl (ioctl_keeps hot s fd request val).used (ioctl_names s fd request val)
  | close fd =>
    refine hquiet rfl (fun j hj => ?_) (close_names s fd)
    rcases close_ends hot hs fd with ⟨-, h⟩ | ⟨i, -, -, h⟩
    · exact h.toSameSlots.used j hj
    · have hne : j ≠ i := ne_of_inUse h.free hj
      have hj := (h.inUse j hne).symm.trans hj
      exact ⟨hj, h.ep j hne hj⟩

/-- What the call under way stores is the peer it had to store, if it had one. -/
theorem stores_noted (s : SocketState ot) (j : SockIdx) : s.stores.noted j = s.noted j := by
  rw [stores]
  rcases hw : s.underWay with _ | ⟨acc | acc | ⟨i, addr⟩ | i⟩
  · rfl
  · rfl
  · rw [noted_of_none (s := (s.acceptReturns acc).2) rfl, noted, toStore, hw, acceptReturns]
    dsimp only
    rcases eq_or_ne j acc.newsock with rfl | hne
    · rw [updateEntry_self, if_pos rfl]
      rfl
    · rw [updateEntry_of_ne _ _ hne, if_neg hne.symm]
  · rw [noted_of_none (s := s.connectReturns i addr) rfl, noted, toStore, hw, connectReturns]
    dsimp only
    rcases eq_or_ne j i with rfl | hne
    · rw [updateEntry_self, if_pos rfl]
      rfl
    · rw [updateEntry_of_ne _ _ hne, if_neg hne.symm]
  · rw [noted_of_none (s := s.recvReturns i) rfl, noted, toStore, hw, recvReturns]
    dsimp only
    rcases eq_or_ne j i with rfl | hne
    · rw [updateEntry_self]
      rfl
    · rw [updateEntry_of_ne _ _ hne]

theorem stores_named (hn : s.Named) : s.stores.Named := by
  have hkeeps : Keeps (fun _ _ => False) s s.stores := stores_keeps s
  intro j hj
  obtain ⟨hj, hep⟩ := hkeeps.used j hj
  exact hn.of_same hj hep (stores_noted s j) (namesOf_made (hkeeps.made.mono fun _ _ h => h.elim))

/-- The peer of an accept stays the same while the notifier is installed. -/
theorem acceptInstalls_named (hot : ot.Lawful) (hn : s.Named) {a : Accepting}
    (hacc : s.underWay = some (.accepting a)) : (s.acceptInstalls a).Named := by
  have hkeeps := acceptInstalls_keeps hot s a
  have hstore : (s.acceptInstalls a).toStore = s.toStore := by rw [toStore, toStore, hacc]; rfl
  intro j hj
  obtain ⟨hj, hep⟩ := hkeeps.used j hj
  refine hn.of_same hj hep (noted_congr hstore rfl) (namesOf_made (hkeeps.made.mono fun c r hmakes =>
    silent_of_none ?_))
  cases c <;> first
    | rfl
    | cases hmakes

theorem arrive_named (hot : ot.Lawful) (hn : s.Named) (ep : EndpointRef) (a : Arrival) : (s.arrive ep a).Named := by
  have hkeeps : Keeps (fun _ _ => False) s (s.arrive ep a) := arrive_keeps_slots hot s ep a
  have hsame := arrive_names s ep a
  intro j hj
  obtain ⟨hj, hep⟩ := hkeeps.used j hj
  exact hn.of_same hj hep (noted_congr hsame.toStore (hsame.names j))
    (namesOf_made (hkeeps.made.mono fun _ _ h => h.elim))

theorem Named.step (hot : ot.Lawful) (hs : s.Owned) (hn : s.Named) (a : SocketInput) : (s.step a).Named := by
  cases a with
  | call c =>
    rw [SocketState.step]
    split
    · exact hn
    · rename_i hidle
      exact stepCall_named hot hs hn (by simpa using hidle) c
  | installs =>
    rw [SocketState.step]
    split
    · rename_i a hacc
      exact acceptInstalls_named hot hn hacc
    · exact hn
  | stores => exact stores_named hn
  | arrival ep a => exact arrive_named hot hn ep a

theorem named_run (hot : ot.Lawful) (net : ot.State) (inputs : List SocketInput) :
    (run step (start net) inputs).Named := by
  have hrun := always_of_step (I := fun s : SocketState ot => s.Owned ∧ s.Named)
    (fun _ a hs => ⟨hs.1.step hot a, hs.2.step hot hs.1 a⟩) ⟨.start net, fun i hi => by cases hi⟩ inputs
  exact hrun.last.2

/-- In every run, of a descriptor that is open while no call is under way: getsockname gives the address Open
    Transport has bound its endpoint to last, and getpeername, where the socket is connected, the one of the last
    OTConnect or OTAccept on it that returned noErr; zero where none has since the endpoint was opened. -/
theorem names_as_said (hot : ot.Lawful) (net : ot.State) (inputs : List SocketInput) (fd : ℤ) (i : SockIdx)
    (hidle : (run step (start net) inputs).underWay = none)
    (hget : (run step (start net) inputs).get_socket fd = some i) : (run step (start net) inputs).AsSaid fd i := by
  have hnamed := named_run hot net inputs i (get_socket_inUse hget)
  rw [noted_of_none (toStore_of_idle hidle)] at hnamed
  refine ⟨?_, ?_⟩
  · rw [getsockname, hget, ← hnamed]
    rfl
  · rw [getpeername, hget, ← hnamed]
    dsimp only
    by_cases hconnected : ((run step (start net) inputs).socket_table i).connected = true
    · rw [if_neg (not_not.mpr hconnected), if_pos hconnected]
      rfl
    · rw [if_pos hconnected, if_neg hconnected]

/-- A server that has accepted a client from port 4000 of host 7. -/
def served : List SocketInput := [
  .call (.socket AF_INET SOCK_STREAM 0), .call (.bind 1000 ⟨22, 0⟩), .call (.listen 1000 5),
  .arrival 1 (.indication ⟨⟨4000, 7⟩, 1⟩), .call (.accept 1000), .installs, .stores]

theorem names_as_said_served : (run step (start Wire.idle : SocketState wire) served).AsSaid 1001 ⟨1, by decide⟩ :=
  names_as_said wire_lawful Wire.idle served 1001 ⟨1, by decide⟩ (by decide +kernel) (by decide +kernel)

end Posix9.SocketState
