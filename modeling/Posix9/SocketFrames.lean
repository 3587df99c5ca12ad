import Posix9.Endpoints

/-! What the calls on the socket table leave alone: the accept that is under way, and the modes the slots have
    noted. Only accept begins to accept, and only fcntl and ioctl change a mode that has been noted. -/

namespace Posix9.SocketState

variable {ot : OpenTransport} {s t u : SocketState ot} {i j : SockIdx} {c : OTCall} {f : SocketEntry → SocketEntry}
  {but : SockIdx → Prop} {P Q : OTCall → OTReply → Prop} {r : OTReply}

/-- The accept that has passed its connection on and has no notifier for it yet. -/
def accepting (s : SocketState ot) : Option Accepting :=
  match s.underWay with
  | some (.accepting acc) => some acc
  | _ => none

/-- The accept that has only its stores to make. -/
def accepted (s : SocketState ot) : Option Accepting :=
  match s.underWay with
  | some (.accepted acc) => some acc
  | _ => none

theorem accepting_eq_some {acc : Accepting} : s.accepting = some acc ↔ s.underWay = some (.accepting acc) := by
  rw [accepting]
  split <;> simp_all

theorem accepted_eq_some {acc : Accepting} : s.accepted = some acc ↔ s.underWay = some (.accepted acc) := by
  rw [accepted]
  split <;> simp_all

/-- With nothing under way no accept is. -/
theorem accepting_of_idle (hidle : s.underWay = none) : s.accepting = none := by
  rw [accepting, hidle]

theorem accepted_of_idle (hidle : s.underWay = none) : s.accepted = none := by
  rw [accepted, hidle]

/-- Neither changes, but for the modes of some slots. -/
structure Steady (but : SockIdx → Prop) (s t : SocketState ot) : Prop where
  accepting : t.accepting = s.accepting
  accepted : t.accepted = s.accepted
  nonblocking : ∀ j, ¬ but j → (t.socket_table j).nonblocking = (s.socket_table j).nonblocking

theorem Steady.refl (s : SocketState ot) : Steady but s s := ⟨rfl, rfl, fun _ _ => rfl⟩

theorem Steady.trans (hst : Steady but s t) (htu : Steady but t u) : Steady but s u where
  accepting := htu.accepting.trans hst.accepting
  accepted := htu.accepted.trans hst.accepted
  nonblocking j hj := (htu.nonblocking j hj).trans (hst.nonblocking j hj)

theorem Steady.call (h : Steady but s t) (c : OTCall) : Steady but s (t.callOT c).2 :=
  ⟨h.accepting, h.accepted, h.nonblocking⟩

theorem Steady.setErrno (h : Steady but s t) (e : ℤ) : Steady but s (t.setErrno e) :=
  ⟨h.accepting, h.accepted, h.nonblocking⟩

/-- A call that is no accept goes on. -/
theorem Steady.waits (h : Steady but s t) (hidle : s.underWay = none) {w : UnderWay}
    (hw : ∀ acc, w ≠ .accepting acc ∧ w ≠ .accepted acc) : Steady but s { t with underWay := some w } where
  accepting := by
    rw [accepting_of_idle hidle]
    cases w with
    | accepting acc => exact absurd rfl (hw acc).1
    | _ => rfl
  accepted := by
    rw [accepted_of_idle hidle]
    cases w with
    | accepted acc => exact absurd rfl (hw acc).2
    | _ => rfl
  nonblocking := h.nonblocking

/-- An entry changes, and either its mode does not or it may. -/
theorem Steady.update (h : Steady but s t)
    (hf : but i ∨ (f (t.socket_table i)).nonblocking = (t.socket_table i).nonblocking) :
    Steady but s (t.updateEntry i f) where
  accepting := h.accepting
  accepted := h.accepted
  nonblocking j hj := by
    rcases eq_or_ne j i with rfl | hne
    · rw [updateEntry_self, hf.resolve_left hj]
      exact h.nonblocking j hj
    · rw [updateEntry_of_ne t f hne]
      exact h.nonblocking j hj

theorem Steady.free (h : Steady but s t) (i : SockIdx) : Steady but s (t.free_socket i) := h.update (.inr rfl)

/-! ### Records -/

/-- A call among the new records. -/
theorem Made.of_mem {l : List OTRecord} (h : Made P s t) (hl : t.log = l ++ s.log) (hmem : .call c r ∈ l) : P c r := by
  obtain ⟨l', hl', hP⟩ := h
  obtain rfl : l = l' := List.append_cancel_right (hl.symm.trans hl')
  exact hP c r hmem

/-- What is made between two states has both properties. -/
theorem Made.and (h : Made P s t) (h' : Made Q s t) : Made (fun c r => P c r ∧ Q c r) s t := by
  obtain ⟨l, hl, hP⟩ := h
  exact ⟨l, hl, fun c r hmem => ⟨hP c r hmem, h'.of_mem hl hmem⟩⟩

/-- The records before the last. -/
theorem Made.before {record : OTRecord} (h : Made P s t) (hu : Made Q s u) (hlog : t.log = record :: u.log) :
    Made P s u := by
  obtain ⟨l, hl, -⟩ := hu
  refine ⟨l, hl, fun c r hmem => h.of_mem (l := record :: l) ?_ (List.mem_cons_of_mem _ hmem)⟩
  rw [hlog, hl, List.cons_append]

/-! ### Calls -/

/-- bind and listen store flags and addresses. -/
theorem bind_steady (s : SocketState ot) (sockfd : ℤ) (addr : InetAddress) : Steady but s (s.bind sockfd addr).2 := by
  rw [bind]
  rcases s.get_socket sockfd with _ | i
  · exact (Steady.refl s).setErrno EBADF
  dsimp only
  split
  · exact ((Steady.refl s).call _).setErrno _
  · dsimp only
    refine Steady.update ((Steady.refl s).call _) ?_
    exact .inr rfl

theorem listen_steady (s : SocketState ot) (sockfd backlog : ℤ) : Steady but s (s.listen sockfd backlog).2 := by
  rw [listen]
  rcases s.get_socket sockfd with _ | i
  · exact (Steady.refl s).setErrno EBADF
  dsimp only
  split
  · exact (Steady.refl s).setErrno EOPNOTSUPP
  split
  · split
    · exact (((Steady.refl s).call _).call _).setErrno _
    · dsimp only
      refine Steady.update (((Steady.refl s).call _).call _) ?_
      exact .inr rfl
  · dsimp only
    refine Steady.update (Steady.refl s) ?_
    exact .inr rfl

/-- connect goes over to its stores, as no accept. -/
theorem connect_steady (hidle : s.underWay = none) (sockfd : ℤ) (addr : InetAddress) :
    Steady but s (s.after (s.connect sockfd addr)) := by
  rw [connect]
  rcases s.get_socket sockfd with _ | i
  · exact (Steady.refl s).setErrno EBADF
  dsimp only
  split
  · exact .refl s
  split
  · exact ((Steady.refl s).call _).setErrno _
  · exact ((Steady.refl s).call _).waits hidle (by simp)

/-- send changes no entry at all. -/
theorem send_steady (s : SocketState ot) (sockfd : ℤ) (buf : List UInt8) (flags : BitVec 32) :
    Steady but s (s.after (s.send sockfd buf flags)) := by
  rw [send]
  rcases s.get_socket sockfd with _ | i
  · exact (Steady.refl s).setErrno EBADF
  dsimp only
  split
  · exact (Steady.refl s).setErrno ENOTCONN
  split
  · exact .refl s
  split
  · exact ((Steady.refl s).call _).setErrno _
  · exact (Steady.refl s).call _

/-- recv only looks at the mode, which decides between EAGAIN and 0. -/
theorem recv_steady (hidle : s.underWay = none) (sockfd : ℤ) (len : ℕ) :
    Steady but s (s.after (s.recv sockfd len)) := by
  rw [recv]
  rcases s.get_socket sockfd with _ | i
  · exact (Steady.refl s).setErrno EBADF
  dsimp only
  split
  · exact .refl s
  split
  · split
    · split
      · exact ((Steady.refl s).call _).setErrno EAGAIN
      · exact (Steady.refl s).call _
    · exact ((Steady.refl s).call _).setErrno _
  · exact ((Steady.refl s).call _).waits hidle (by simp)

theorem sendto_steady (s : SocketState ot) (sockfd : ℤ) (buf : List UInt8) (flags : BitVec 32) (addr : InetAddress) :
    Steady but s (s.after (s.sendto sockfd buf flags addr)) := by
  rw [sendto]
  rcases s.get_socket sockfd with _ | i
  · exact (Steady.refl s).setErrno EBADF
  dsimp only
  split
  · exact send_steady s sockfd buf flags
  split
  · exact .refl s
  split
  · exact ((Steady.refl s).call _).setErrno _
  · exact (Steady.refl s).call _

/-- recvfrom on a stream socket is recv; on another it changes no entry. -/
theorem recvfrom_steady (hidle : s.underWay = none) (sockfd : ℤ) (len : ℕ) :
    Steady but s (s.after (s.recvfrom sockfd len)) := by
  rcases hget : s.get_socket sockfd with _ | i
  · rw [recvfrom, hget]
    exact (Steady.refl s).setErrno EBADF
  by_cases htype : (s.socket_table i).type ≠ SOCK_DGRAM
  · rw [after_recvfrom len hget htype]
    exact recv_steady hidle sockfd len
  rw [recvfrom, hget]
  dsimp only
  rw [if_neg htype]
  split
  · exact .refl s
  split
  · exact ((Steady.refl s).call _).setErrno _
  · exact (Steady.refl s).call _

theorem shutdown_steady (s : SocketState ot) (sockfd how : ℤ) : Steady but s (s.shutdown sockfd how).2 := by
  rw [shutdown]
  rcases s.get_socket sockfd with _ | i
  · exact (Steady.refl s).setErrno EBADF
  dsimp only
  split
  · split
    · exact ((Steady.refl s).call _).setErrno _
    · exact (Steady.refl s).call _
  · exact .refl s

theorem getsockopt_steady (s : SocketState ot) (sockfd level optname : ℤ) :
    Steady but s (s.getsockopt sockfd level optname).2 := by
  rw [getsockopt]
  rcases s.get_socket sockfd with _ | i
  · exact (Steady.refl s).setErrno EBADF
  dsimp only
  split
  · exact .refl s
  split
  · dsimp only
    refine Steady.update (Steady.refl s) ?_
    exact .inr rfl
  · exact (Steady.refl s).setErrno ENOPROTOOPT

/-- select reads the entries of its descriptors one after the other. -/
theorem select_steady (s : SocketState ot) (args : SelectArgs) (now : BitVec 32) :
    Steady but s (s.select args now).2 := by
  have hfd : ∀ (acc : Selected × SocketState ot) (i : SockIdx), Steady but acc.2 (selectFd args acc i).2 := by
    intro acc i
    rw [selectFd]
    dsimp only
    split
    · exact (Steady.refl _).setErrno EBADF
    · exact (Steady.refl _).call _
  have hfold : ∀ (is : List SockIdx) (acc : Selected × SocketState ot),
      Steady but acc.2 (is.foldl (selectFd args) acc).2 := by
    intro is
    induction is with
    | nil => exact fun acc => .refl acc.2
    | cons i is ih => exact fun acc => (hfd acc i).trans (ih _)
  rw [select, selectScan]
  dsimp only
  split <;> exact hfold _ (.zero, s)

/-- free_socket leaves the mode in the slot, which the next socket clears. -/
theorem close_steady (s : SocketState ot) (fd : ℤ) : Steady but s (s.posix9_close_socket fd).2 := by
  rw [posix9_close_socket]
  rcases s.get_socket fd with _ | i
  · exact (Steady.refl s).setErrno EBADF
  dsimp only
  split
  · split
    · exact (((Steady.refl s).call _).call _).free i
    · exact ((Steady.refl s).call _).free i
  · exact (Steady.refl s).free i

/-- The mode of the slot may change. -/
theorem setNonblocking_steady (s : SocketState ot) (hi : but i) (nonblocking : Bool) :
    Steady but s (s.setNonblocking i nonblocking) := by
  rw [setNonblocking]
  exact ((Steady.refl s).call _).update (.inl hi)

/-- The two initialisations come before the first slot is taken. -/
theorem init_open_transport_steady (s : SocketState ot) : Steady but s s.init_open_transport.2 := by
  rw [init_open_transport]
  split
  · exact .refl s
  · dsimp only
    split
    · exact ⟨rfl, rfl, fun _ _ => rfl⟩
    · exact (Steady.refl s).call _

theorem init_socket_table_steady (s : SocketState ot) : Steady but s s.init_socket_table := by
  rw [init_socket_table]
  split
  · exact .refl s
  · exact ⟨rfl, rfl, fun _ _ => rfl⟩

/-- What arrives changes neither. -/
theorem arrive_steady (s : SocketState ot) (ep : EndpointRef) (a : Arrival) : Steady but s (s.arrive ep a) := by
  have hnotifier : ∀ (t : SocketState ot) i event result, Steady but t (t.socket_notifier i event result) := by
    intro t i event result
    -- the notifier writes flags, and the mode is none of them
    cases event with
    | T_PASSCON | T_UDERR => exact .refl t
    | _ =>
      dsimp only [socket_notifier]
      refine Steady.update (.refl t) ?_
      exact .inr rfl
  rcases arrive_cases s ep a with ⟨harrive, -⟩ | ⟨i, -, -, harrive⟩ <;> rw [harrive]
  · exact ⟨rfl, rfl, fun _ _ => rfl⟩
  · have hreached : Steady but s (s.reached ep a true) := ⟨rfl, rfl, fun _ _ => rfl⟩
    exact hreached.trans (hnotifier (s.reached ep a true) i _ _)

/-! ### socket and accept -/

/-- The slot that is taken was free before: the table is initialised only once. -/
theorem free_of_init (hs : s.Owned) {a : SocketInput} (hst : Balanced a s t)
    (hfree : (t.init_socket_table.socket_table i).inUse = false) : (s.socket_table i).inUse = false := by
  have hinit := hst.trans (init_socket_table_keeps hs hst.toSameSlots hst.initialized)
  exact (hinit.inUse i).symm.trans hfree

/-- socket from OTOpenEndpoint on writes to the slot it fills. -/
theorem openSocket_steady (hi : but i) (s : SocketState ot) (config : OTConfigurationRef)
    (domain type protocol : ℤ) : Steady but s (s.openSocket i config domain type protocol).2 := by
  have hopen (x : EndpointRef) := Steady.update (f := fun e => { e with ep := x }) ((Steady.refl s).call
    (.OTOpenEndpoint config)) (.inl hi)
  rw [openSocket]
  dsimp only
  split
  · exact ((hopen _).free i).setErrno _
  split
  · exact ((((hopen _).call _).call _).free i).setErrno EIO
  · dsimp only
    exact Steady.update ((((hopen _).call _).call _).call _) (.inl hi)

/-- socket changes the mode of the slot it takes. -/
theorem socket_steady (hot : ot.Lawful) (hs : s.Owned) (domain type protocol : ℤ) :
    Steady (fun j => (s.socket_table j).inUse = false) s (s.socket domain type protocol).2 := by
  have hopenOT : Steady (fun j => (s.socket_table j).inUse = false) s s.init_open_transport.2 :=
    init_open_transport_steady s
  have hbalanced : Balanced (.call (.socket domain type protocol)) s s.init_open_transport.2 :=
    (Balanced.refl s).trans (init_open_transport_keeps hot s fun _ => ⟨rfl, rfl⟩)
  have hinit := hopenOT.trans (init_socket_table_steady _)
  obtain ⟨e, hsocket⟩ | ⟨e, hsocket⟩ | ⟨i, configStr, hfree, config, rfl, hend⟩ :=
    s.socket_cases domain type protocol
  · rw [hsocket]
    exact hopenOT.setErrno e
  · rw [hsocket]
    exact hinit.setErrno e
  have hi := free_of_init hs hbalanced hfree
  have htaken := hinit.update (i := i) (f := fun _ => { SocketEntry.zero with inUse := true }) (.inl hi)
  rcases hend with hsocket | ⟨protocol', hsocket⟩ <;> rw [hsocket]
  · exact ((htaken.call _).free i).setErrno EPROTONOSUPPORT
  · exact (htaken.call _).trans (openSocket_steady hi _ _ domain type protocol')

/-- accept from OTOpenEndpoint on: it fails, or is under way and will fill the slot. -/
theorem openAccepted_steady {newsock : SockIdx} (hi : but newsock) (s : SocketState ot) (call : TCall) :
    (s.openAccepted i newsock call).1 = some (-1) ∧ Steady but s (s.openAccepted i newsock call).2 ∨
      ∃ u acc, (s.openAccepted i newsock call).2 = { u with underWay := some (.accepting acc) } ∧ Steady but s u ∧
        (s.openAccepted i newsock call).1 = none ∧ acc.newsock = newsock ∧
        (u.socket_table newsock).inUse = (s.socket_table newsock).inUse ∧
        (u.socket_table newsock).nonblocking = (s.socket_table newsock).nonblocking := by
  have hconfig : Steady but s (s.callOT (.OTCreateConfiguration .kTCPName)).2 := (Steady.refl s).call _
  rw [openAccepted]
  dsimp only
  generalize (s.callOT (.OTCreateConfiguration .kTCPName)).1.ref = config
  have hopen (x : EndpointRef) := Steady.update (f := fun e => { e with ep := x })
    (hconfig.call (.OTOpenEndpoint config)) (.inl hi)
  split
  · exact .inl ⟨rfl, (((hopen _).free newsock).call _).setErrno _⟩
  split
  · exact .inl ⟨rfl, ((((hopen _).call _).call _).free newsock).setErrno _⟩
  · refine .inr ⟨_, _, rfl, (hopen _).call _, rfl, rfl, ?_⟩
    rw [callOT_table, updateEntry_self]
    exact ⟨rfl, rfl⟩

/-- accept fails, or changes the mode of the slot it takes, which it has noted as blocking. -/
theorem accept_steady (hot : ot.Lawful) (hs : s.Owned) {fd : ℤ} {res : Option ℤ × SocketState ot}
    (haccept : s.accept fd = some res) :
    res.1 = some (-1) ∧ Steady (fun j => (s.socket_table j).inUse = false) s res.2 ∨
      ∃ u acc, res.2 = { u with underWay := some (.accepting acc) } ∧ Steady (fun j => (s.socket_table j).inUse = false) s u ∧
        res.1 = none ∧ (s.socket_table acc.newsock).inUse = false ∧ (u.socket_table acc.newsock).inUse = true ∧
        (u.socket_table acc.newsock).nonblocking = false := by
  obtain ⟨e, rfl⟩ | ⟨i, listened, -, rfl, hend⟩ := accept_cases haccept
  · exact .inl ⟨rfl, (Steady.refl s).setErrno e⟩
  have hlisten : Steady (fun j => (s.socket_table j).inUse = false) s
      (s.callOT (.OTListen (s.socket_table i).ep)).2 := (Steady.refl s).call _
  have hbalanced : Balanced (.call (.accept fd)) s (s.callOT (.OTListen (s.socket_table i).ep)).2 :=
    (Balanced.refl s).trans (.call hot rfl ⟨rfl, rfl⟩)
  have hinit := hlisten.trans (init_socket_table_steady _)
  obtain ⟨-, e, rfl⟩ | ⟨-, rfl | ⟨j, hfree, rfl⟩⟩ := hend
  · exact .inl ⟨rfl, hlisten.setErrno e⟩
  · exact .inl ⟨rfl, (hinit.setErrno EMFILE).call _⟩
  have hj := free_of_init hs hbalanced hfree
  have htaken := hinit.update (i := j) (f := fun _ => { SocketEntry.zero with inUse := true }) (.inl hj)
  -- the slot was free before accept, so that its mode is nobody's
  let but : SockIdx → Prop := fun j => (s.socket_table j).inUse = false
  rcases openAccepted_steady (i := i) (show but j from hj) _
    (s.callOT (.OTListen (s.socket_table i).ep)).1.call with ⟨hres, hback⟩ |
      ⟨u, acc, hres, hu, hnone, rfl, hused, hmode⟩
  · exact .inl ⟨hres, htaken.trans hback⟩
  · rw [updateEntry_self] at hused hmode
    exact .inr ⟨u, acc, hres, htaken.trans hu, hnone, hj, hused, hmode⟩

/-! ### Steps -/

/-- The calls that set a mode, or take a slot. -/
def setsMode : SocketCall → Bool
  | .socket .. | .accept _ | .fcntl .. | .ioctl .. => true
  | _ => false

/-- Any call but the four that set a mode or take a slot. -/
theorem stepCall_steady (hidle : s.underWay = none) {d : SocketCall} (hd : setsMode d = false) :
    Steady but s (s.stepCall d) := by
  cases d with
  | socket | accept | fcntl | ioctl => cases hd
  | bind sockfd addr => exact bind_steady s sockfd addr
  | listen sockfd backlog => exact listen_steady s sockfd backlog
  | connect sockfd addr => exact connect_steady hidle sockfd addr
  | send sockfd buf flags => exact send_steady s sockfd buf flags
  | recv sockfd len => exact recv_steady hidle sockfd len
  | sendto sockfd buf flags addr => exact sendto_steady s sockfd buf flags addr
  | recvfrom sockfd len => exact recvfrom_steady hidle sockfd len
  | shutdown sockfd how => exact shutdown_steady s sockfd how
  | getsockopt sockfd level optname => exact getsockopt_steady s sockfd level optname
  | select args now => exact select_steady s args now
  | close fd => exact close_steady s fd

/-- fcntl and ioctl may change the mode of any slot, and begin nothing. -/
theorem fcntl_steady (s : SocketState ot) (fd cmd : ℤ) (flags : BitVec 32) :
    Steady (fun _ => True) s (s.fcntl fd cmd flags).2 := by
  rw [fcntl]
  rcases s.get_socket fd with _ | i
  · exact (Steady.refl s).setErrno EBADF
  dsimp only
  split
  · exact .refl s
  split
  · dsimp only
    split
    · exact .refl s
    · exact setNonblocking_steady s trivial _
  split
  · exact .refl s
  · exact (Steady.refl s).setErrno EINVAL

theorem ioctl_steady (s : SocketState ot) (fd request : ℤ) (val : Option ℤ) :
    Steady (fun _ => True) s (s.ioctl fd request val).2 := by
  rw [ioctl]
  rcases s.get_socket fd with _ | i
  · exact (Steady.refl s).setErrno EBADF
  dsimp only
  split
  · exact setNonblocking_steady s trivial _
  repeat' split
  all_goals first
    | exact .refl s
    | exact (Steady.refl s).setErrno EINVAL

/-- What accept has left to call of Open Transport sets the mode of the endpoint; no flag changes. -/
theorem acceptInstalls_steady (s : SocketState ot) (acc : Accepting) (j : SockIdx) :
    ((s.acceptInstalls acc).socket_table j).nonblocking = (s.socket_table j).nonblocking := rfl

/-- Nor does one with what is stored. -/
theorem stores_steady (s : SocketState ot) (j : SockIdx) :
    (s.stores.socket_table j).nonblocking = (s.socket_table j).nonblocking := by
  rcases stores_cases s with hstores | ⟨-, i, f, hstores, hsame⟩ <;> rw [hstores]
  rcases eq_or_ne j i with rfl | hne
  · exact (congrArg SocketEntry.nonblocking (updateEntry_self s j f)).trans (hsame _).nonblocking
  · exact congrArg SocketEntry.nonblocking (updateEntry_of_ne s f hne)

/-- Only accept begins to accept. -/
theorem stepCall_accepting (hot : ot.Lawful) (hs : s.Owned) (hidle : s.underWay = none) {d : SocketCall}
    (hd : ∀ fd, d ≠ .accept fd) : (s.stepCall d).accepting = none ∧ (s.stepCall d).accepted = none := by
  have hidles := And.intro (accepting_of_idle hidle) (accepted_of_idle hidle)
  -- `Steady` carries that over, with whatever modes the call may change
  have hnone : ∀ {but}, Steady but s (s.stepCall d) →
      (s.stepCall d).accepting = none ∧ (s.stepCall d).accepted = none :=
    fun h => ⟨h.accepting.trans hidles.1, h.accepted.trans hidles.2⟩
  cases d with
  | accept fd => exact absurd rfl (hd fd)
  | socket domain type protocol => exact hnone (socket_steady hot hs domain type protocol)
  | fcntl fd cmd flags => exact hnone (fcntl_steady s fd cmd flags)
  | ioctl fd request val => exact hnone (ioctl_steady s fd request val)
  | _ => exact hnone (@stepCall_steady ot s (fun _ => False) hidle _ rfl)

end Posix9.SocketState
