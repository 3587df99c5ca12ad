import Posix9.SocketTurns

/-! Which calls of Open Transport a call of the library makes, and which slots and endpoints it leaves alone.
    The table below is read off posix9_socket.c; every call is shown to keep to its line of it. -/

namespace Posix9

open SocketState

/-- The calls of Open Transport each call of the library can make. -/
def SocketCall.makes : SocketCall → OTCall → Bool
  | .socket .., .InitOpenTransport | .socket .., .OTCreateConfiguration _ | .socket .., .OTOpenEndpoint _
  | .socket .., .OTInstallNotifier .. | .socket .., .OTCloseProvider _ | .socket .., .OTSetSynchronous _
  | .socket .., .OTSetBlocking _ => true
  | .bind .., .OTBind .. => true
  | .listen .., .OTUnbind _ | .listen .., .OTBind .. => true
  | .accept _, .OTListen _ | .accept _, .OTCreateConfiguration _ | .accept _, .OTOpenEndpoint _
  | .accept _, .OTAccept .. | .accept _, .OTCloseProvider _ | .accept _, .OTSndDisconnect _ (some _) => true
  | .connect .., .OTConnect .. => true
  | .send .., .OTSnd .. => true
  | .recv .., .OTRcv .. => true
  | .sendto .., .OTSnd .. | .sendto .., .OTSndUData .. => true
  | .recvfrom .., .OTRcv .. | .recvfrom .., .OTRcvUData .. => true
  | .shutdown .., .OTSndOrderlyDisconnect _ => true
  | .select .., .OTLook _ => true
  | .close _, .OTSndDisconnect _ none | .close _, .OTCloseProvider _ => true
  | .fcntl .., .OTSetBlocking _ | .fcntl .., .OTSetNonBlocking _ => true
  | .ioctl .., .OTSetBlocking _ | .ioctl .., .OTSetNonBlocking _ => true
  | _, _ => false

/-- The same of an input. What a call stores makes none. -/
def SocketInput.makes : SocketInput → OTCall → Bool
  | .call c, d => c.makes d
  | .installs, .OTInstallNotifier .. | .installs, .OTSetSynchronous _ | .installs, .OTSetBlocking _ => true
  | _, _ => false

namespace SocketState

variable {ot : OpenTransport} {s t u : SocketState ot} {i j : SockIdx} {P Q : OTCall → OTReply → Prop}
  {c : OTCall} {f : SocketEntry → SocketEntry}

/-! ### New records -/

/-- Each call of Open Transport made between two states is one of `P`. -/
def Made (P : OTCall → OTReply → Prop) (s t : SocketState ot) : Prop :=
  ∃ l, t.log = l ++ s.log ∧ ∀ c r, .call c r ∈ l → P c r

/-- What makes no record makes no call. -/
theorem Made.of_log (h : t.log = s.log) : Made P s t := ⟨[], h, fun _ _ h => by cases h⟩

theorem Made.refl (s : SocketState ot) : Made P s s := .of_log rfl

theorem Made.trans (hst : Made P s t) (htu : Made P t u) : Made P s u := by
  obtain ⟨l, hl, hP⟩ := hst
  obtain ⟨l', hl', hP'⟩ := htu
  refine ⟨l' ++ l, by rw [hl', hl, List.append_assoc], fun c r h => ?_⟩
  rcases List.mem_append.mp h with h | h
  · exact hP' c r h
  · exact hP c r h

/-- `P` may be wider than it has to be. -/
theorem Made.mono (hPQ : ∀ c r, P c r → Q c r) (h : Made P s t) : Made Q s t := by
  obtain ⟨l, hl, hP⟩ := h
  exact ⟨l, hl, fun c r h => hPQ c r (hP c r h)⟩

/-- One call of Open Transport is one record. -/
theorem Made.call (h : P c (s.callOT c).1) : Made P s (s.callOT c).2 := by
  refine ⟨[.call c (s.callOT c).1], rfl, fun d r hd => ?_⟩
  obtain ⟨rfl, rfl⟩ := OTRecord.call.inj (List.mem_singleton.mp hd)
  exact h

/-! ### Slots -/

/-- The same slots are in use, with the same endpoints. -/
structure SameSlots (s t : SocketState ot) : Prop where
  inUse : ∀ j, (t.socket_table j).inUse = (s.socket_table j).inUse
  ep : ∀ j, (s.socket_table j).inUse = true → (t.socket_table j).ep = (s.socket_table j).ep

/-- What leaves the table alone. -/
theorem SameSlots.of_table (h : t.socket_table = s.socket_table) : SameSlots s t :=
  ⟨fun j => by rw [h], fun j _ => by rw [h]⟩

theorem SameSlots.trans (hst : SameSlots s t) (htu : SameSlots t u) : SameSlots s u where
  inUse j := (htu.inUse j).trans (hst.inUse j)
  ep j hj := (htu.ep j ((hst.inUse j).trans hj)).trans (hst.ep j hj)

/-- An entry changes, but for its `inUse` and its endpoint. -/
theorem SameSlots.update (hf : (f (s.socket_table i)).inUse = (s.socket_table i).inUse ∧
    (f (s.socket_table i)).ep = (s.socket_table i).ep) : SameSlots s (s.updateEntry i f) where
  inUse j := by
    rcases eq_or_ne j i with rfl | hne
    · rw [updateEntry_self, hf.1]
    · rw [updateEntry_of_ne s f hne]
  ep j _ := by
    rcases eq_or_ne j i with rfl | hne
    · rw [updateEntry_self, hf.2]
    · rw [updateEntry_of_ne s f hne]

/-- The entry of a free slot changes. -/
theorem SameSlots.update_free (hfree : (s.socket_table i).inUse = false)
    (hf : (f (s.socket_table i)).inUse = false) : SameSlots s (s.updateEntry i f) where
  inUse j := by
    rcases eq_or_ne j i with rfl | hne
    · rw [updateEntry_self, hf, hfree]
    · rw [updateEntry_of_ne s f hne]
  ep j hj := by rw [updateEntry_of_ne s f (ne_of_inUse hfree hj)]

/-- The calls that neither open nor close an endpoint. -/
def plain : OTCall → Bool
  | .OTOpenEndpoint _ | .OTCloseProvider _ => false
  | _ => true

/-- They leave every endpoint as open as it was. -/
theorem isOpen_plain (hot : ot.Lawful) (hc : plain c = true) (net : ot.State) (e : EndpointRef) :
    (ot.endpoint (ot.call c net).2 e).isOpen = (ot.endpoint net e).isOpen := by
  refine isOpen_call hot ?_ net ?_
  · rintro config rfl
    cases hc
  · rintro rfl
    cases hc

/-- A stretch that takes and gives back no slot and closes no endpoint. -/
structure Keeps (P : OTCall → OTReply → Prop) (s t : SocketState ot) : Prop extends SameSlots s t where
  made : Made P s t
  stays : ∀ e, (ot.endpoint s.net e).isOpen = true → (ot.endpoint t.net e).isOpen = true
  initialized : s.socket_table_initialized = true → t.socket_table_initialized = true

theorem Keeps.refl (s : SocketState ot) : Keeps P s s := ⟨.of_table rfl, .refl s, fun _ => id, id⟩

theorem Keeps.trans (hst : Keeps P s t) (htu : Keeps P t u) : Keeps P s u where
  toSameSlots := hst.toSameSlots.trans htu.toSameSlots
  made := hst.made.trans htu.made
  stays e he := htu.stays e (hst.stays e he)
  initialized h := htu.initialized (hst.initialized h)

theorem Keeps.mono (hPQ : ∀ c r, P c r → Q c r) (h : Keeps P s t) : Keeps Q s t :=
  ⟨h.toSameSlots, h.made.mono hPQ, h.stays, h.initialized⟩

/-- A call of Open Transport that neither opens nor closes keeps everything, and makes its own record. -/
theorem Keeps.call (hot : ot.Lawful) (hc : plain c = true) (h : P c (s.callOT c).1) : Keeps P s (s.callOT c).2 :=
  ⟨.of_table rfl, .call h, fun e he => (isOpen_plain hot hc s.net e).trans he, id⟩

theorem Keeps.setErrno (h : Keeps P s t) (e : ℤ) : Keeps P s (t.setErrno e) :=
  ⟨⟨h.inUse, h.ep⟩, h.made, h.stays, h.initialized⟩

/-- An entry may change between the calls, as in `SameSlots.update`. -/
theorem Keeps.update (h : Keeps P s t) (hf : (f (t.socket_table i)).inUse = (t.socket_table i).inUse ∧
    (f (t.socket_table i)).ep = (t.socket_table i).ep) : Keeps P s (t.updateEntry i f) :=
  ⟨h.toSameSlots.trans (.update hf), h.made, h.stays, h.initialized⟩

/-- A call goes on, or is done. -/
theorem Keeps.waits (h : Keeps P s t) (w : Option UnderWay) : Keeps P s { t with underWay := w } :=
  ⟨⟨h.inUse, h.ep⟩, h.made, h.stays, h.initialized⟩

/-! ### Calls that take and give back no slot -/

/-- What the calls of its line of the table can be, whatever they answer. -/
abbrev Allowed (a : SocketInput) (c : OTCall) (_ : OTReply) : Prop := a.makes c = true

/-- bind makes one call, and stores behind it. -/
theorem bind_keeps (hot : ot.Lawful) (s : SocketState ot) (sockfd : ℤ) (addr : InetAddress) :
    Keeps (Allowed (.call (.bind sockfd addr))) s (s.bind sockfd addr).2 := by
  rw [bind]
  rcases s.get_socket sockfd with _ | i
  · exact (Keeps.refl s).setErrno EBADF
  have hbind : Keeps (Allowed (.call (.bind sockfd addr))) s
      (s.callOT (.OTBind (s.socket_table i).ep addr 0)).2 := .call hot rfl rfl
  dsimp only
  split
  · exact hbind.setErrno _
  · dsimp only
    refine hbind.update ?_
    exact ⟨rfl, rfl⟩

/-- listen makes two on a bound socket and none on another. -/
theorem listen_keeps (hot : ot.Lawful) (s : SocketState ot) (sockfd backlog : ℤ) :
    Keeps (Allowed (.call (.listen sockfd backlog))) s (s.listen sockfd backlog).2 := by
  rw [listen]
  rcases s.get_socket sockfd with _ | i
  · exact (Keeps.refl s).setErrno EBADF
  have hunbind : Keeps (Allowed (.call (.listen sockfd backlog))) s
      (s.callOT (.OTUnbind (s.socket_table i).ep)).2 := .call hot rfl rfl
  have hbind := hunbind.trans (.call hot (c := .OTBind (s.socket_table i).ep (s.socket_table i).localAddr
    (queueLength backlog)) rfl rfl)
  dsimp only
  split
  · exact (Keeps.refl s).setErrno EOPNOTSUPP
  split
  · split
    · exact hbind.setErrno _
    · dsimp only
      refine hbind.update ?_
      exact ⟨rfl, rfl⟩
  · dsimp only
    refine (Keeps.refl s).update ?_
    exact ⟨rfl, rfl⟩

/-- connect makes one, or waits in it; what it stores comes later. -/
theorem connect_keeps (hot : ot.Lawful) (s : SocketState ot) (sockfd : ℤ) (addr : InetAddress) :
    Keeps (Allowed (.call (.connect sockfd addr))) s (s.after (s.connect sockfd addr)) := by
  rw [connect]
  rcases s.get_socket sockfd with _ | i
  · exact (Keeps.refl s).setErrno EBADF
  have hconnect : Keeps (Allowed (.call (.connect sockfd addr))) s
      (s.callOT (.OTConnect (s.socket_table i).ep addr)).2 := .call hot rfl rfl
  dsimp only
  split
  · exact .refl s
  split
  · exact hconnect.setErrno _
  · exact hconnect.waits _

/-- A stream socket that is not connected gets no OTSnd. -/
theorem send_keeps (hot : ot.Lawful) (s : SocketState ot) (sockfd : ℤ) (buf : List UInt8) (flags : BitVec 32) :
    Keeps (Allowed (.call (.send sockfd buf flags))) s (s.after (s.send sockfd buf flags)) := by
  rw [send]
  rcases s.get_socket sockfd with _ | i
  · exact (Keeps.refl s).setErrno EBADF
  have hsnd : Keeps (Allowed (.call (.send sockfd buf flags))) s
      (s.callOT (.OTSnd (s.socket_table i).ep buf (has flags MSG_OOB))).2 := .call hot rfl rfl
  dsimp only
  split
  · exact (Keeps.refl s).setErrno ENOTCONN
  split
  · exact .refl s
  split
  · exact hsnd.setErrno _
  · exact hsnd

/-- The three ways recv ends behind OTRcv differ in errno and in what is left to store. -/
theorem recv_keeps (hot : ot.Lawful) (s : SocketState ot) (sockfd : ℤ) (len : ℕ) :
    Keeps (Allowed (.call (.recv sockfd len))) s (s.after (s.recv sockfd len)) := by
  rw [recv]
  rcases s.get_socket sockfd with _ | i
  · exact (Keeps.refl s).setErrno EBADF
  have hrcv : Keeps (Allowed (.call (.recv sockfd len))) s
      (s.callOT (.OTRcv (s.socket_table i).ep len)).2 := .call hot rfl rfl
  dsimp only
  split
  · exact .refl s
  split
  · split
    · split
      · exact hrcv.setErrno EAGAIN
      · exact hrcv
    · exact hrcv.setErrno _
  · exact hrcv.waits _

/-- On a stream socket sendto is send, whose line of the table is part of its own. -/
theorem sendto_keeps (hot : ot.Lawful) (s : SocketState ot) (sockfd : ℤ) (buf : List UInt8) (flags : BitVec 32)
    (addr : InetAddress) :
    Keeps (Allowed (.call (.sendto sockfd buf flags addr))) s (s.after (s.sendto sockfd buf flags addr)) := by
  rw [sendto]
  rcases s.get_socket sockfd with _ | i
  · exact (Keeps.refl s).setErrno EBADF
  have hsnd : Keeps (Allowed (.call (.sendto sockfd buf flags addr))) s
      (s.callOT (.OTSndUData (s.socket_table i).ep addr buf)).2 := .call hot rfl rfl
  dsimp only
  split
  -- a stream socket: every call of the line of send stands in that of sendto
  · refine (send_keeps hot s sockfd buf flags).mono fun d _ hd => ?_
    cases d <;> first
      | rfl
      | cases hd
  split
  · exact .refl s
  split
  · exact hsnd.setErrno _
  · exact hsnd

/-- recvfrom is recv in the same way. -/
theorem recvfrom_keeps (hot : ot.Lawful) (s : SocketState ot) (sockfd : ℤ) (len : ℕ) :
    Keeps (Allowed (.call (.recvfrom sockfd len))) s (s.after (s.recvfrom sockfd len)) := by
  rcases hget : s.get_socket sockfd with _ | i
  · rw [recvfrom, hget]
    exact (Keeps.refl s).setErrno EBADF
  by_cases htype : (s.socket_table i).type ≠ SOCK_DGRAM
  · rw [after_recvfrom len hget htype]
    refine (recv_keeps hot s sockfd len).mono fun d _ hd => ?_
    cases d <;> first
      | rfl
      | cases hd
  · have hrcv : Keeps (Allowed (.call (.recvfrom sockfd len))) s
        (s.callOT (.OTRcvUData (s.socket_table i).ep len)).2 := .call hot rfl rfl
    rw [recvfrom, hget]
    dsimp only
    rw [if_neg htype]
    split
    · exact .refl s
    split
    · exact hrcv.setErrno _
    · exact hrcv

theorem shutdown_keeps (hot : ot.Lawful) (s : SocketState ot) (sockfd how : ℤ) :
    Keeps (Allowed (.call (.shutdown sockfd how))) s (s.shutdown sockfd how).2 := by
  rw [shutdown]
  rcases s.get_socket sockfd with _ | i
  · exact (Keeps.refl s).setErrno EBADF
  have hsnd : Keeps (Allowed (.call (.shutdown sockfd how))) s
      (s.callOT (.OTSndOrderlyDisconnect (s.socket_table i).ep)).2 := .call hot rfl rfl
  dsimp only
  split
  · split
    · exact hsnd.setErrno _
    · exact hsnd
  · exact .refl s

/-- getsockopt makes no call. SO_ERROR takes the error out of the entry. -/
theorem getsockopt_keeps (s : SocketState ot) (sockfd level optname : ℤ) :
    Keeps P s (s.getsockopt sockfd level optname).2 := by
  rw [getsockopt]
  rcases s.get_socket sockfd with _ | i
  · exact (Keeps.refl s).setErrno EBADF
  dsimp only
  split
  · exact .refl s
  split
  · dsimp only
    refine (Keeps.refl s).update ?_
    exact ⟨rfl, rfl⟩
  · exact (Keeps.refl s).setErrno ENOPROTOOPT

/-- A descriptor of a round: OTLook where it is open, EBADF where it is not. -/
theorem selectFd_keeps (hot : ot.Lawful) (args : SelectArgs) (now : BitVec 32)
    (acc : Selected × SocketState ot) (i : SockIdx) :
    Keeps (Allowed (.call (.select args now))) acc.2 (selectFd args acc i).2 := by
  rw [selectFd]
  dsimp only
  split
  · exact (Keeps.refl _).setErrno EBADF
  · exact .call hot rfl rfl

theorem select_keeps (hot : ot.Lawful) (s : SocketState ot) (args : SelectArgs) (now : BitVec 32) :
    Keeps (Allowed (.call (.select args now))) s (s.select args now).2 := by
  -- the scan is a fold over the descriptors below nfds; the induction is on their list
  have hfold : ∀ (is : List SockIdx) (acc : Selected × SocketState ot),
      Keeps (Allowed (.call (.select args now))) acc.2 (is.foldl (selectFd args) acc).2 := by
    intro is
    induction is with
    | nil => exact fun acc => .refl acc.2
    | cons i is ih => exact fun acc => (selectFd_keeps hot args now acc i).trans (ih _)
  rw [select, selectScan]
  dsimp only
  split <;> exact hfold _ (.zero, s)

/-- The two calls that set a mode, whichever call of the library is behind them. -/
theorem setNonblocking_keeps (hot : ot.Lawful) (s : SocketState ot) (i : SockIdx) (nonblocking : Bool)
    (hset : ∀ ep r, P (.OTSetNonBlocking ep) r) (hclear : ∀ ep r, P (.OTSetBlocking ep) r) :
    Keeps P s (s.setNonblocking i nonblocking) := by
  rw [setNonblocking]
  dsimp only
  refine Keeps.update (.call hot ?_ ?_) ?_
  · cases nonblocking <;> rfl
  · cases nonblocking
    · exact hclear _ _
    · exact hset _ _
  · exact ⟨rfl, rfl⟩

theorem fcntl_keeps (hot : ot.Lawful) (s : SocketState ot) (fd cmd : ℤ) (flags : BitVec 32) :
    Keeps (Allowed (.call (.fcntl fd cmd flags))) s (s.fcntl fd cmd flags).2 := by
  rw [fcntl]
  rcases s.get_socket fd with _ | i
  · exact (Keeps.refl s).setErrno EBADF
  have hset := fun n => setNonblocking_keeps (P := Allowed (.call (.fcntl fd cmd flags))) hot s i n
    (fun _ _ => rfl) (fun _ _ => rfl)
  dsimp only
  split
  · exact .refl s
  split
  · dsimp only
    split
    · exact .refl s
    · exact hset _
  split
  · exact .refl s
  · exact (Keeps.refl s).setErrno EINVAL

theorem ioctl_keeps (hot : ot.Lawful) (s : SocketState ot) (fd request : ℤ) (val : Option ℤ) :
    Keeps (Allowed (.call (.ioctl fd request val))) s (s.ioctl fd request val).2 := by
  rw [ioctl]
  rcases s.get_socket fd with _ | i
  · exact (Keeps.refl s).setErrno EBADF
  have hset := fun n => setNonblocking_keeps (P := Allowed (.call (.ioctl fd request val))) hot s i n
    (fun _ _ => rfl) (fun _ _ => rfl)
  dsimp only
  split
  · exact hset _
  repeat' split
  all_goals first
    | exact .refl s
    | exact (Keeps.refl s).setErrno EINVAL

/-- The part of accept behind OTAccept makes three calls on the new endpoint. -/
theorem acceptInstalls_keeps (hot : ot.Lawful) (s : SocketState ot) (a : Accepting) :
    Keeps (Allowed .installs) s (s.acceptInstalls a) := by
  have hinstall : Keeps (Allowed .installs) s
      (s.callOT (.OTInstallNotifier (s.socket_table a.newsock).ep a.newsock)).2 := .call hot rfl rfl
  have hset := hinstall.trans (.call hot (c := .OTSetSynchronous (s.socket_table a.newsock).ep) rfl rfl)
  have hblock := hset.trans (.call hot (c := .OTSetBlocking (s.socket_table a.newsock).ep) rfl rfl)
  exact hblock.waits _

/-- What is stored is no endpoint, and takes and frees no slot. -/
theorem stores_keeps (s : SocketState ot) : Keeps P s s.stores := by
  rcases stores_cases s with hstores | ⟨-, i, f, hstores, hsame⟩ <;> rw [hstores]
  · exact .refl s
  · exact ((Keeps.refl s).update ⟨(hsame _).inUse, (hsame _).ep⟩).waits none

/-- The notifier writes flags and asyncError only, and makes no call. -/
theorem notifier_keeps (s : SocketState ot) (i : SockIdx) (event : OTEventCode) (result : OTResult) :
    Keeps P s (s.socket_notifier i event result) := by
  cases event with
  | T_PASSCON | T_UDERR => exact .refl s
  | _ =>
    dsimp only [socket_notifier]
    refine (Keeps.refl s).update ?_
    exact ⟨rfl, rfl⟩

/-- What arrives may run the notifier. It opens and closes nothing. -/
theorem arrive_keeps_slots (hot : ot.Lawful) (s : SocketState ot) (ep : EndpointRef) (a : Arrival) :
    Keeps P s (s.arrive ep a) := by
  have hreached : ∀ event, Keeps P s (s.reached ep a event) := by
    intro event
    refine ⟨.of_table rfl, ?_, fun e he => ?_, id⟩
    · cases event
      · exact .of_log rfl
      -- the one new record is an event, no call
      · refine ⟨[.event ep a.event.1 a.event.2], rfl, fun c r h => ?_⟩
        cases List.mem_singleton.mp h
    · rcases eq_or_ne e ep with rfl | hne
      · exact (hot.arrive_stays e a s.net).trans he
      · exact (congrArg Endpoint.isOpen (hot.arrive_frame ep a s.net e hne)).trans he
  rcases arrive_cases s ep a with ⟨harrive, -⟩ | ⟨i, -, -, harrive⟩
  · exact harrive ▸ hreached false
  · exact harrive ▸ (hreached true).trans (notifier_keeps _ i a.event.1 a.event.2)

end SocketState

end Posix9
