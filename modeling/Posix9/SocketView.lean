import Posix9.Socket

/-! A socket as its users see it: the flags of its slot next to what Open Transport knows of its endpoint.
    Each call of Open Transport and each change of an entry is followed through this view, slot by slot. -/

namespace Posix9

/-- The queue length an endpoint is bound with: what the last of OTBind and OTUnbind to succeed on it,
    since it was opened, has left. -/
def queueOf (ep : EndpointRef) : List OTRecord → Option ℕ
  | [] => none
  | .call (.OTBind e _ qlen) r :: log => if e = ep ∧ r.result = noErr then some qlen else queueOf ep log
  | .call (.OTUnbind e) r :: log => if e = ep ∧ r.result = noErr then none else queueOf ep log
  | .call (.OTOpenEndpoint _) r :: log => if r.ref = ep ∧ r.result = noErr then none else queueOf ep log
  | .call _ _ :: log => queueOf ep log
  | .event _ _ _ :: log => queueOf ep log

/-- The latest outcome of a connection on an endpoint, by OTConnect, OTAccept or a T_CONNECT event, was a
    success, and neither T_DISCONNECT nor T_ORDREL has followed. -/
def linkedIn (ep : EndpointRef) : List OTRecord → Bool
  | [] => false
  | .call (.OTConnect e _) r :: log => if e = ep then r.result = noErr else linkedIn ep log
  | .call (.OTAccept _ e _) r :: log => if e = ep then r.result = noErr else linkedIn ep log
  | .call (.OTOpenEndpoint _) r :: log =>
    if r.ref = ep ∧ r.result = noErr then false else linkedIn ep log
  | .call _ _ :: log => linkedIn ep log
  | .event e code result :: log =>
    if e = ep then
      match code with
      | .T_CONNECT => result = noErr
      | .T_DISCONNECT | .T_ORDREL => false
      | _ => linkedIn ep log
    else linkedIn ep log

structure View where
  type : ℤ
  bound : Bool
  listening : Bool
  connected : Bool
  readable : Bool
  stream : Stream
  listens : Bool
  notified : Bool
  queue : Option ℕ
  linked : Bool

/-- A slot just filled: its endpoint has been opened and nothing else has been done. -/
def View.fresh : View := ⟨0, false, false, false, false, Endpoint.new.toStream, false, false, none, false⟩

/-- The calls that neither bind nor connect, and that install and remove no notifier. -/
def OTCall.silent : OTCall → Bool
  | .OTOpenEndpoint _ | .OTInstallNotifier _ _ | .OTBind _ _ _ | .OTUnbind _ | .OTAccept _ _ _
  | .OTConnect _ _ | .OTCloseProvider _ => false
  | _ => true

variable {ot : OpenTransport}

namespace SocketState

variable {s : SocketState ot} {i j : SockIdx} {c : OTCall} {f : SocketEntry → SocketEntry}

def view (s : SocketState ot) (i : SockIdx) : View where
  type := (s.socket_table i).type
  bound := (s.socket_table i).bound
  listening := (s.socket_table i).listening
  connected := (s.socket_table i).connected
  readable := (s.socket_table i).readable
  stream := (ot.endpoint s.net (s.socket_table i).ep).toStream
  listens := (ot.endpoint s.net (s.socket_table i).ep).listens
  notified := s.notifiers (s.socket_table i).ep == some i
  queue := queueOf (s.socket_table i).ep s.log
  linked := linkedIn (s.socket_table i).ep s.log

/-! ### Parts of the state -/

@[simp] theorem updateEntry_self (s : SocketState ot) (i : SockIdx) (f : SocketEntry → SocketEntry) :
    (s.updateEntry i f).socket_table i = f (s.socket_table i) := Function.update_self ..

theorem updateEntry_of_ne (s : SocketState ot) (f : SocketEntry → SocketEntry) (h : j ≠ i) :
    (s.updateEntry i f).socket_table j = s.socket_table j := Function.update_of_ne h ..

theorem updateEntry_updateEntry (s : SocketState ot) (i : SockIdx) (f g : SocketEntry → SocketEntry) :
    (s.updateEntry i f).updateEntry i g = s.updateEntry i (g ∘ f) := by
  simp [updateEntry]

/-- A slot that is free is none of those in use. -/
theorem ne_of_inUse (hfree : (s.socket_table i).inUse = false) (hj : (s.socket_table j).inUse = true) :
    j ≠ i := by
  rintro rfl
  rw [hfree] at hj
  cases hj

@[simp] theorem updateEntry_net : (s.updateEntry i f).net = s.net := rfl
@[simp] theorem updateEntry_log : (s.updateEntry i f).log = s.log := rfl
@[simp] theorem updateEntry_notifiers : (s.updateEntry i f).notifiers = s.notifiers := rfl

@[simp] theorem callOT_table : (s.callOT c).2.socket_table = s.socket_table := rfl
@[simp] theorem callOT_underWay : (s.callOT c).2.underWay = s.underWay := rfl
@[simp] theorem callOT_net : (s.callOT c).2.net = (ot.call c s.net).2 := rfl

theorem callOT_updateEntry (s : SocketState ot) (i : SockIdx) (f : SocketEntry → SocketEntry) (c : OTCall) :
    ((s.updateEntry i f).callOT c).2 = (s.callOT c).2.updateEntry i f := rfl

@[simp] theorem view_setErrno (e : ℤ) : (s.setErrno e).view i = s.view i := rfl

/-- The entry get_socket returns is the one of its number, where that is in use. -/
theorem get_socket_eq_some {fd : ℤ} :
    s.get_socket fd = some i ↔ FileState.socketIndex fd = some i ∧ (s.socket_table i).inUse = true := by
  rw [get_socket]
  rcases FileState.socketIndex fd with _ | k
  · simp
  · dsimp only
    constructor
    · intro h
      split at h
      · obtain rfl := Option.some.inj h
        exact ⟨rfl, by assumption⟩
      · cases h
    · rintro ⟨hk, hi⟩
      obtain rfl := Option.some.inj hk
      exact if_pos hi

theorem get_socket_inUse {fd : ℤ} (h : s.get_socket fd = some i) : (s.socket_table i).inUse = true :=
  (get_socket_eq_some.mp h).2

/-- The number of a slot is read back as the slot. -/
theorem socketIndex_sockFd (i : SockIdx) : FileState.socketIndex (sockFd i) = some i := by
  have hoffset : sockFd i - SOCKET_FD_BASE = ((i : ℕ) : ℤ) := by
    rw [sockFd]
    omega
  have hi : ((i : ℕ) : ℤ) < (MAX_SOCKETS : ℕ) := Int.ofNat_lt.mpr i.isLt
  rw [FileState.socketIndex, dif_pos ⟨by omega, by omega⟩]
  exact congrArg some (Fin.ext (by simp [hoffset]))

theorem get_socket_sockFd (hi : (s.socket_table i).inUse = true) : s.get_socket (sockFd i) = some i :=
  get_socket_eq_some.mpr ⟨socketIndex_sockFd i, hi⟩

/-! ### Calls of Open Transport -/

theorem queueOf_silent (hc : c.silent = true) (ep : EndpointRef) (r : OTReply) (log : List OTRecord) :
    queueOf ep (.call c r :: log) = queueOf ep log ∧ linkedIn ep (.call c r :: log) = linkedIn ep log := by
  cases c <;> first
    | exact ⟨rfl, rfl⟩
    | simp [OTCall.silent] at hc

/-- Nor do they install a notifier or take one away. -/
theorem notifiersAfter_silent (hc : c.silent = true) (notifiers : EndpointRef → Option SockIdx) (r : OTReply) :
    notifiersAfter notifiers r c = notifiers := by
  cases c <;> first
    | rfl
    | simp [OTCall.silent] at hc

theorem binds_silent (hc : c.silent = true) : c.binds = false := by
  cases c <;> first
    | rfl
    | simp [OTCall.silent] at hc

/-- A silent call that leaves the receiving side of the endpoint alone. -/
theorem view_callOT (hstr : ot.Streams) (hc : c.silent = true) (hkeeps : c.keeps (s.socket_table i).ep = true) :
    (s.callOT c).2.view i = s.view i := by
  have hlog := queueOf_silent hc (s.socket_table i).ep (ot.call c s.net).1 s.log
  simp only [view, callOT, hstr.keeps c s.net _ hkeeps, hstr.listens_same c s.net _ (binds_silent hc),
    notifiersAfter_silent hc, hlog]

/-- The records of other endpoints say nothing about this one. -/
theorem queueOf_of_not_mem {ep : EndpointRef} (hopen : ∀ config, c ≠ .OTOpenEndpoint config)
    (hep : ep ∉ c.names) (r : OTReply) (log : List OTRecord) :
    queueOf ep (.call c r :: log) = queueOf ep log ∧ linkedIn ep (.call c r :: log) = linkedIn ep log := by
  cases c with
  | OTOpenEndpoint config => exact absurd rfl (hopen config)
  | _ => simp_all [queueOf, linkedIn, OTCall.names, eq_comm]

/-- Their notifiers are their own. -/
theorem notifiersAfter_of_not_mem {ep : EndpointRef} (hep : ep ∉ c.names)
    (notifiers : EndpointRef → Option SockIdx) (r : OTReply) :
    notifiersAfter notifiers r c ep = notifiers ep := by
  cases c with
  | OTInstallNotifier e context =>
    rw [notifiersAfter]
    split
    · exact Function.update_of_ne (by simpa [OTCall.names] using hep) ..
    · rfl
  | OTCloseProvider e => exact Function.update_of_ne (by simpa [OTCall.names] using hep) ..
  | _ => rfl

/-- A call on other endpoints. -/
theorem view_callOT_of_not_mem (hot : ot.Lawful) (hopen : ∀ config, c ≠ .OTOpenEndpoint config)
    (hep : (s.socket_table i).ep ∉ c.names) : (s.callOT c).2.view i = s.view i := by
  have hlog := queueOf_of_not_mem hopen hep (ot.call c s.net).1 s.log
  simp only [view, callOT, hot.frame c s.net _ hep hopen, notifiersAfter_of_not_mem hep, hlog]

/-- OTOpenEndpoint is nothing to an endpoint that is open. -/
theorem view_callOT_open (hot : ot.Lawful) (config : OTConfigurationRef)
    (hopen : (ot.endpoint s.net (s.socket_table i).ep).isOpen = true) :
    (s.callOT (.OTOpenEndpoint config)).2.view i = s.view i := by
  obtain ⟨hother, hne⟩ : ot.endpoint (ot.call (.OTOpenEndpoint config) s.net).2 (s.socket_table i).ep =
        ot.endpoint s.net (s.socket_table i).ep ∧
      ¬((ot.call (.OTOpenEndpoint config) s.net).1.ref = (s.socket_table i).ep ∧
        (ot.call (.OTOpenEndpoint config) s.net).1.result = noErr) := by
    by_cases hres : (ot.call (.OTOpenEndpoint config) s.net).1.result = noErr
    · obtain ⟨-, hshut, -, hothers⟩ := hot.opened config s.net hres
      have hne : (s.socket_table i).ep ≠ (ot.call (.OTOpenEndpoint config) s.net).1.ref := by
        intro h
        rw [← h, hopen] at hshut
        cases hshut
      exact ⟨hothers _ hne, fun h => hne h.1.symm⟩
    · exact ⟨congrFun (hot.open_failed config s.net hres) _, fun h => hres h.2⟩
  simp only [view, callOT, hother, notifiersAfter, queueOf, linkedIn, if_neg hne]

/-! ### Changes of an entry -/

theorem view_updateEntry_of_ne (f : SocketEntry → SocketEntry) (h : j ≠ i) :
    (s.updateEntry i f).view j = s.view j := by
  simp only [view, updateEntry_of_ne s f h, updateEntry_net, updateEntry_notifiers, updateEntry_log]

/-- An entry that keeps its endpoint takes over its flags into the view. -/
theorem view_updateEntry (hep : (f (s.socket_table i)).ep = (s.socket_table i).ep) :
    (s.updateEntry i f).view i = { s.view i with
      type := (f (s.socket_table i)).type
      bound := (f (s.socket_table i)).bound
      listening := (f (s.socket_table i)).listening
      connected := (f (s.socket_table i)).connected
      readable := (f (s.socket_table i)).readable } := by
  simp [view, hep]

/-! ### Slots and endpoints -/

/-- Every slot in use holds an open endpoint of its own, and a notifier leads to the slot that holds its
    endpoint. The slot of a call under way is in use; the one accept is filling has no notifier installed. -/
structure Wired (s : SocketState ot) : Prop where
  initialized : ∀ i, (s.socket_table i).inUse = true → s.socket_table_initialized = true
  distinct : ∀ i j, (s.socket_table i).inUse = true → (s.socket_table j).inUse = true →
    (s.socket_table i).ep = (s.socket_table j).ep → i = j
  valid : ∀ i, (s.socket_table i).inUse = true → (s.socket_table i).ep ≠ kOTInvalidEndpointRef ∧
    (ot.endpoint s.net (s.socket_table i).ep).isOpen = true
  installed : ∀ e i, s.notifiers e = some i → (s.socket_table i).inUse = true ∧ (s.socket_table i).ep = e
  underWay : ∀ w, s.underWay = some w → (s.socket_table w.slot).inUse = true
  accepting : ∀ a, s.underWay = some (.accepting a) → s.notifiers (s.socket_table a.newsock).ep = none

/-- accept has taken its slot before it calls OTAccept. -/
theorem Wired.accepting_inUse (hs : s.Wired) {a : Accepting} (ha : s.underWay = some (.accepting a)) :
    (s.socket_table a.newsock).inUse = true := hs.underWay _ ha

theorem Wired.accepted_inUse (hs : s.Wired) {a : Accepting} (ha : s.underWay = some (.accepted a)) :
    (s.socket_table a.newsock).inUse = true := hs.underWay _ ha

/-- The slot connect or recv is called on stays in use until it has stored, since no close comes between. -/
theorem Wired.connected_inUse (hs : s.Wired) {addr : InetAddress} (h : s.underWay = some (.connected i addr)) :
    (s.socket_table i).inUse = true := hs.underWay _ h

theorem Wired.received_inUse (hs : s.Wired) (h : s.underWay = some (.received i)) :
    (s.socket_table i).inUse = true := hs.underWay _ h

/-- Before the first call no slot is in use. -/
theorem Wired.start (net : ot.State) : (start net).Wired where
  initialized _ h := by cases h
  distinct _ _ h := by cases h
  valid _ h := by cases h
  installed _ _ h := by cases h
  underWay _ h := by cases h
  accepting _ h := by cases h

variable {t : SocketState ot}

/-- The table and the endpoints in use are as before, and there is no new notifier. -/
theorem Wired.transfer (hs : s.Wired)
    (htable : ∀ i, (t.socket_table i).inUse = (s.socket_table i).inUse ∧
      ((s.socket_table i).inUse = true → (t.socket_table i).ep = (s.socket_table i).ep))
    (hinit : s.socket_table_initialized = true → t.socket_table_initialized = true)
    (hopen : ∀ i, (s.socket_table i).inUse = true →
      (ot.endpoint t.net (s.socket_table i).ep).isOpen = (ot.endpoint s.net (s.socket_table i).ep).isOpen)
    (hnotifiers : ∀ e i, t.notifiers e = some i → s.notifiers e = some i)
    (hunderWay : t.underWay = s.underWay) : t.Wired where
  initialized i hi := hinit (hs.initialized i ((htable i).1 ▸ hi))
  distinct i j hi hj heq := by
    have hi' := (htable i).1 ▸ hi
    have hj' := (htable j).1 ▸ hj
    rw [(htable i).2 hi', (htable j).2 hj'] at heq
    exact hs.distinct i j hi' hj' heq
  valid i hi := by
    have hi' := (htable i).1 ▸ hi
    rw [(htable i).2 hi', hopen i hi']
    exact hs.valid i hi'
  installed e i h := by
    obtain ⟨hi, hep⟩ := hs.installed e i (hnotifiers e i h)
    rw [(htable i).1, (htable i).2 hi]
    exact ⟨hi, hep⟩
  underWay w hw := (htable w.slot).1.trans (hs.underWay w (hunderWay ▸ hw))
  accepting a ha := by
    have hi := hs.accepting_inUse (hunderWay ▸ ha)
    have hnone := hs.accepting a (hunderWay ▸ ha)
    rw [(htable a.newsock).2 hi]
    rcases h : t.notifiers (s.socket_table a.newsock).ep with _ | i
    · rfl
    · rw [hnotifiers _ i h] at hnone
      cases hnone

theorem Wired.setErrno (hs : s.Wired) (e : ℤ) : (s.setErrno e).Wired :=
  hs.transfer (fun _ => ⟨rfl, fun _ => rfl⟩) id (fun _ _ => rfl) (fun _ _ h => h) rfl

/-- Flags and addresses may change at will. -/
theorem Wired.updateEntry (hs : s.Wired) (i : SockIdx)
    (hf : (f (s.socket_table i)).inUse = (s.socket_table i).inUse ∧
      (f (s.socket_table i)).ep = (s.socket_table i).ep) : (s.updateEntry i f).Wired := by
  refine hs.transfer (fun j => ?_) id (fun _ _ => rfl) (fun _ _ h => h) rfl
  rcases eq_or_ne j i with rfl | hne
  · rw [updateEntry_self]
    exact ⟨hf.1, fun _ => hf.2⟩
  · rw [updateEntry_of_ne s f hne]
    exact ⟨rfl, fun _ => rfl⟩

/-- Whether an endpoint is open changes with its own OTCloseProvider only, once it has been opened. -/
theorem isOpen_call (hot : ot.Lawful) (hopen : ∀ config, c ≠ .OTOpenEndpoint config) (net : ot.State)
    {e : EndpointRef} (hclose : c ≠ .OTCloseProvider e) :
    (ot.endpoint (ot.call c net).2 e).isOpen = (ot.endpoint net e).isOpen := by
  by_cases he : e ∈ c.names
  · exact hot.stays c net e he hclose
  · rw [hot.frame c net e he hopen]

/-- A call that neither opens nor closes an endpoint and installs no notifier. -/
theorem Wired.callOT (hot : ot.Lawful) (hs : s.Wired) (hopen : ∀ config, c ≠ .OTOpenEndpoint config)
    (hclose : ∀ e, c ≠ .OTCloseProvider e) (hinstall : ∀ e i, c ≠ .OTInstallNotifier e i) :
    (s.callOT c).2.Wired := by
  refine hs.transfer (fun _ => ⟨rfl, fun _ => rfl⟩) id
    (fun i _ => isOpen_call hot hopen s.net (hclose _)) (fun e i h => ?_) rfl
  have hnotifiers : notifiersAfter s.notifiers (ot.call c s.net).1 c = s.notifiers := by
    cases c with
    | OTInstallNotifier e i => exact absurd rfl (hinstall e i)
    | OTCloseProvider e => exact absurd rfl (hclose e)
    | _ => rfl
  exact (congrFun hnotifiers e).symm.trans h

/-- A silent call is one of these. -/
theorem Wired.callOT_silent (hot : ot.Lawful) (hs : s.Wired) (hc : c.silent = true) :
    (s.callOT c).2.Wired := by
  refine hs.callOT hot ?_ ?_ ?_
  · rintro config rfl
    cases hc
  · rintro e rfl
    cases hc
  · rintro e i rfl
    cases hc

end SocketState

end Posix9
