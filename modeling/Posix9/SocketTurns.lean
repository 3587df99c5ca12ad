import Posix9.SocketSteps

/-! What one input does to each socket, said once: `Turn` lists the views a slot in use can have after it. -/

namespace Posix9

/-- A view after something has arrived and, if `told`, the notifier of the slot has been called with it. -/
def View.arrived (v : View) (a : Arrival) (told : Bool) (stream : Stream) : View :=
  let v := { v with stream }
  if told then
    match a with
    | .data _ _ | .indication _ => { v with readable := true }
    | .connected result => { v with connected := true, linked := result = noErr }
    | .disconnect | .orderlyRelease => { v with connected := false, linked := false }
    | .expedited _ _ | .goData | .passed | .unitError => v
  else v

namespace View

variable (v : View) (a : Arrival) (told : Bool) (stream : Stream)

@[simp] theorem arrived_type : (v.arrived a told stream).type = v.type := by
  cases a <;> cases told <;> rfl

@[simp] theorem arrived_bound : (v.arrived a told stream).bound = v.bound := by
  cases a <;> cases told <;> rfl

@[simp] theorem arrived_listening : (v.arrived a told stream).listening = v.listening := by
  cases a <;> cases told <;> rfl

@[simp] theorem arrived_stream : (v.arrived a told stream).stream = stream := by
  cases a <;> cases told <;> rfl

@[simp] theorem arrived_listens : (v.arrived a told stream).listens = v.listens := by
  cases a <;> cases told <;> rfl

@[simp] theorem arrived_queue : (v.arrived a told stream).queue = v.queue := by
  cases a <;> cases told <;> rfl

/-- Only data and indications make a socket readable, and only if the notifier is called. -/
theorem arrived_readable : (v.arrived a told stream).readable = true ↔ v.readable = true ∨
    told = true ∧ (a.event.1 = .T_DATA ∨ a.event.1 = .T_LISTEN) := by
  cases a <;> cases told <;> simp [arrived, Arrival.event]

end View

namespace SocketState

variable {ot : OpenTransport}

/-! ### The replies a call meets -/

/-- What OTBind answers in bind. -/
def bindReply (s : SocketState ot) (i : SockIdx) (addr : InetAddress) : OTReply :=
  (s.callOT (.OTBind (s.socket_table i).ep addr 0)).1

/-- What OTUnbind answers in listen. -/
def unbindReply (s : SocketState ot) (i : SockIdx) : OTReply := (s.callOT (.OTUnbind (s.socket_table i).ep)).1

/-- What OTBind answers in listen, after OTUnbind. -/
def rebindReply (s : SocketState ot) (i : SockIdx) (backlog : ℤ) : OTReply :=
  ((s.callOT (.OTUnbind (s.socket_table i).ep)).2.callOT
    (.OTBind (s.socket_table i).ep (s.socket_table i).localAddr (queueLength backlog))).1

/-- What OTConnect answers in connect. -/
def connectReply (s : SocketState ot) (i : SockIdx) (addr : InetAddress) : OTReply :=
  (s.callOT (.OTConnect (s.socket_table i).ep addr)).1

/-- What OTRcv answers in recv, and the receiving side of the endpoint after it. -/
def rcvReply (s : SocketState ot) (i : SockIdx) (len : ℕ) : OTReply :=
  (s.callOT (.OTRcv (s.socket_table i).ep len)).1

def rcvStream (s : SocketState ot) (i : SockIdx) (len : ℕ) : Stream :=
  (ot.endpoint (s.callOT (.OTRcv (s.socket_table i).ep len)).2.net (s.socket_table i).ep).toStream

/-- The slot OTRcv is called for, and the length. -/
def receipt (s : SocketState ot) : SocketCall → Option (SockIdx × ℕ)
  | .recv fd len => (s.get_socket fd).map fun i => (i, len)
  | .recvfrom fd len =>
    match s.get_socket fd with
    | none => none
    | some i => if (s.socket_table i).type ≠ SOCK_DGRAM then some (i, len) else none
  | _ => none

/-- The notifier of the slot is called for what arrives. -/
def told (s : SocketState ot) (i : SockIdx) (a : Arrival) : Bool :=
  (ot.arrive (s.socket_table i).ep a s.net).1 && s.notifiers (s.socket_table i).ep == some i

/-- The receiving side of the endpoint of the slot after what arrives. -/
def arrivedStream (s : SocketState ot) (i : SockIdx) (a : Arrival) : Stream :=
  (ot.endpoint (ot.arrive (s.socket_table i).ep a s.net).2 (s.socket_table i).ep).toStream

/-- A receipt is made on an open socket. -/
theorem receipt_inUse {s : SocketState ot} {c : SocketCall} {i : SockIdx} {len : ℕ}
    (h : s.receipt c = some (i, len)) : (s.socket_table i).inUse = true := by
  cases c with
  | recv fd n =>
    rcases hget : s.get_socket fd with _ | k <;> rw [receipt, hget] at h
    · cases h
    · obtain ⟨rfl, -⟩ := Prod.mk.inj (Option.some.inj h)
      exact get_socket_inUse hget
  | recvfrom fd n =>
    rcases hget : s.get_socket fd with _ | k <;> rw [receipt, hget] at h
    · cases h
    · dsimp only at h
      split at h
      · obtain ⟨rfl, -⟩ := Prod.mk.inj (Option.some.inj h)
        exact get_socket_inUse hget
      · cases h
  | _ => cases h

/-! ### The views after an input -/

inductive Turn (s : SocketState ot) : SocketInput → SockIdx → View → Prop
  | same {a j} : (s.socket_table j).inUse = true → Turn s a j (s.view j)
  | opened {domain type protocol j} : (s.socket_table j).inUse = false →
    Turn s (.call (.socket domain type protocol)) j { View.fresh with type, notified := true }
  | accepted {fd j} : (s.socket_table j).inUse = false →
    Turn s (.call (.accept fd)) j { View.fresh with linked := true }
  | installed {a} (notified : Bool) : s.underWay = some (.accepting a) →
    Turn s .installs a.newsock { s.view a.newsock with notified }
  | acceptStored {a} : s.underWay = some (.accepted a) → (s.socket_table a.newsock).inUse = true →
    Turn s .stores a.newsock { s.view a.newsock with
      type := (s.socket_table a.sock).type, connected := true }
  | connectStored {j addr} : s.underWay = some (.connected j addr) → (s.socket_table j).inUse = true →
    Turn s .stores j { s.view j with connected := true }
  | recvStored {j} : s.underWay = some (.received j) → (s.socket_table j).inUse = true →
    Turn s .stores j { s.view j with readable := false }
  | bound {fd addr j listens} : s.get_socket fd = some j → (s.bindReply j addr).result = noErr →
    (listens = true → (s.view j).listens = true) →
    Turn s (.call (.bind fd addr)) j { s.view j with bound := true, queue := some 0, listens }
  | bindFailed {fd addr j listens} : s.get_socket fd = some j → (s.bindReply j addr).result ≠ noErr →
    (listens = true → (s.view j).listens = true) →
    Turn s (.call (.bind fd addr)) j { s.view j with listens }
  | listening {fd backlog j} : s.get_socket fd = some j → (s.socket_table j).type = SOCK_STREAM →
    (s.socket_table j).bound = false →
    Turn s (.call (.listen fd backlog)) j { s.view j with listening := true }
  | rebound {fd backlog j} (listens : Bool) : s.get_socket fd = some j →
    (s.socket_table j).type = SOCK_STREAM → (s.socket_table j).bound = true →
    (s.rebindReply j backlog).result = noErr →
    Turn s (.call (.listen fd backlog)) j
      { s.view j with listening := true, queue := some (queueLength backlog), listens }
  | rebindFailed {fd backlog j listens} : s.get_socket fd = some j →
    (s.socket_table j).type = SOCK_STREAM → (s.socket_table j).bound = true →
    (s.rebindReply j backlog).result ≠ noErr → (listens = true → (s.view j).listens = true) →
    Turn s (.call (.listen fd backlog)) j { s.view j with
      queue := if (s.unbindReply j).result = noErr then none else (s.view j).queue, listens }
  | connected {fd addr j} : s.get_socket fd = some j → (s.connectReply j addr).result = noErr →
    Turn s (.call (.connect fd addr)) j { s.view j with linked := true }
  | connectFailed {fd addr j} : s.get_socket fd = some j →
    ot.waits (.OTConnect (s.socket_table j).ep addr) s.net = false →
    (s.connectReply j addr).result ≠ noErr →
    Turn s (.call (.connect fd addr)) j { s.view j with linked := false }
  | received {c len j} : s.receipt c = some (j, len) →
    ot.waits (.OTRcv (s.socket_table j).ep len) s.net = false → 0 ≤ (s.rcvReply j len).result →
    Turn s (.call c) j { s.view j with stream := s.rcvStream j len }
  | receivedNone {c len j} : s.receipt c = some (j, len) → (s.rcvReply j len).result < 0 →
    Turn s (.call c) j { s.view j with stream := s.rcvStream j len }
  | receivedUnit {fd len j} (stream : Stream) : s.get_socket fd = some j →
    (s.socket_table j).type = SOCK_DGRAM →
    Turn s (.call (.recvfrom fd len)) j { s.view j with stream }
  | arrived {e a j} : (s.socket_table j).inUse = true → (s.socket_table j).ep = e →
    Turn s (.arrival e a) j ((s.view j).arrived a (s.told j a) (s.arrivedStream j a))

/-- A state an input leads to. -/
structure Turns (s : SocketState ot) (a : SocketInput) (t : SocketState ot) : Prop where
  wired : t.Wired
  turn : ∀ j, (t.socket_table j).inUse = true → Turn s a j (t.view j)
  filling : ∀ acc, t.underWay = some (.accepting acc) → s.underWay = some (.accepting acc) ∨
    t.view acc.newsock = { View.fresh with linked := true }
  filled : ∀ acc, t.underWay = some (.accepted acc) → s.underWay = some (.accepted acc) ∨
    s.underWay = some (.accepting acc) ∧ a = .installs

variable {s t u : SocketState ot} {i j : SockIdx} {c : OTCall} {a : SocketInput}

/-- Nothing has happened to any socket. -/
theorem Unchanged.turns (h : Unchanged s t) : Turns s a t where
  wired := h.wired
  turn j hj := by
    have hj' := (h.inUse j).symm.trans hj
    rw [h.view j hj']
    exact .same hj'
  filling acc hacc := .inl (h.underWay.symm.trans hacc)
  filled acc hacc := .inl (h.underWay.symm.trans hacc)

/-- Something has happened to one. -/
theorem Acts.turns (h : Acts i s t) (hi : Turn s a i (t.view i)) : Turns s a t where
  wired := h.wired
  turn j hj := by
    rcases eq_or_ne j i with rfl | hne
    · exact hi
    · have hj' := (h.inUse j).symm.trans hj
      rw [h.view j hne hj']
      exact .same hj'
  filling acc hacc := .inl (h.underWay.symm.trans hacc)
  filled acc hacc := .inl (h.underWay.symm.trans hacc)

/-- The entry changes last. -/
theorem Acts.turns_update (h : Acts i s t) {v : View} (hview : t.view i = v) {f : SocketEntry → SocketEntry}
    (g : View → View) (hf : (f (t.socket_table i)).inUse = (t.socket_table i).inUse ∧
      (f (t.socket_table i)).ep = (t.socket_table i).ep)
    (hg : (t.updateEntry i f).view i = g (t.view i)) (hi : Turn s a i (g v)) : Turns s a (t.updateEntry i f) := by
  refine (h.trans (acts_updateEntry h.wired hf)).turns ?_
  rw [hg, hview]
  exact hi

/-- A call is done: what it was made for is of no concern any longer. -/
theorem Wired.idle (hs : s.Wired) : Wired { s with underWay := none } :=
  { hs with underWay := fun _ h => (by cases h), accepting := fun _ h => (by cases h) }

/-- A call goes on: it is made for a slot in use. -/
theorem Wired.goesOn (hs : s.Wired) {w : UnderWay} (hi : (s.socket_table w.slot).inUse = true)
    (hw : ∀ acc, w ≠ .accepting acc) : Wired { s with underWay := some w } :=
  { hs with
    underWay := fun _ h => Option.some.inj h ▸ hi
    accepting := fun acc h => absurd (Option.some.inj h) (hw acc) }

/-- A call that is not done, though Open Transport has answered. -/
theorem Acts.turns_underWay (h : Acts i s t) (hi : Turn s a i (t.view i)) {w : UnderWay}
    (hslot : (s.socket_table w.slot).inUse = true) (hw : ∀ acc, w ≠ .accepting acc ∧ w ≠ .accepted acc) :
    Turns s a { t with underWay := some w } where
  wired := h.wired.goesOn ((h.inUse _).trans hslot) fun acc => (hw acc).1
  turn := (h.turns hi).turn
  filling acc hacc := absurd (Option.some.inj hacc) (hw acc).1
  filled acc hacc := absurd (Option.some.inj hacc) (hw acc).2

/-- A call is done with what it stores in an entry. -/
theorem Acts.turns_done (h : Acts i s t) (hi : (s.socket_table i).inUse = true → Turn s a i (t.view i)) :
    Turns s a { t with underWay := none } where
  wired := h.wired.idle
  turn j hj := by
    have hj' := (h.inUse j).symm.trans hj
    rcases eq_or_ne j i with rfl | hne
    · exact hi hj'
    · exact h.view j hne hj' ▸ .same hj'
  filling _ hacc := by cases hacc
  filled _ hacc := by cases hacc

/-- One slot has been filled. -/
theorem Fills.turns (h : Fills i s t) (hi : Turn s a i (t.view i)) : Turns s a t where
  wired := h.wired
  turn j hj := by
    rcases eq_or_ne j i with rfl | hne
    · exact hi
    · have hj' := (h.inUse j hne).symm.trans hj
      rw [h.view j hne hj']
      exact .same hj'
  filling acc hacc := .inl (h.underWay.symm.trans hacc)
  filled acc hacc := .inl (h.underWay.symm.trans hacc)

/-- One has been given back. -/
theorem GivesBack.turns (h : GivesBack i s t) : Turns s a t where
  wired := h.wired
  turn j hj := by
    have hne : j ≠ i := ne_of_inUse h.free hj
    have hj' := (h.inUse j hne).symm.trans hj
    rw [h.view j hne hj']
    exact .same hj'
  filling acc hacc := .inl (h.underWay.symm.trans hacc)
  filled acc hacc := .inl (h.underWay.symm.trans hacc)

/-! ### socket -/

theorem unchanged_init_open_transport (hot : ot.Lawful) (hstr : ot.Streams) (hs : s.Wired) :
    Unchanged s s.init_open_transport.2 := by
  rw [init_open_transport]
  split
  · exact .refl hs
  · have hcall := unchanged_callOT hot hstr hs (c := .InitOpenTransport) rfl fun _ => rfl
    dsimp only
    split
    · exact ⟨hcall.wired.transfer (fun _ => ⟨rfl, fun _ => rfl⟩) id (fun _ _ => rfl) (fun _ _ h => h) rfl,
        hcall.underWay, hcall.inUse, hcall.view⟩
    · exact hcall

/-- What OTInstallNotifier does to the view of its slot. -/
theorem view_install (hstr : ot.Streams) (s : SocketState ot) (i : SockIdx) :
    (s.callOT (.OTInstallNotifier (s.socket_table i).ep i)).2.view i =
      { s.view i with notified := (s.callOT (.OTInstallNotifier (s.socket_table i).ep i)).1.result == noErr ||
          (s.view i).notified } := by
  have hkeeps := hstr.keeps (.OTInstallNotifier (s.socket_table i).ep i) s.net (s.socket_table i).ep rfl
  have hlistens := hstr.listens_same (.OTInstallNotifier (s.socket_table i).ep i) s.net (s.socket_table i).ep rfl
  simp only [view, callOT, hkeeps, hlistens, notifiersAfter, queueOf, linkedIn]
  split <;> simp_all

/-- The notifier of a slot installed, and the modes of its endpoint set. -/
def attached (s : SocketState ot) (i : SockIdx) : SocketState ot :=
  (((s.callOT (.OTInstallNotifier (s.socket_table i).ep i)).2.callOT
    (.OTSetSynchronous (s.socket_table i).ep)).2.callOT (.OTSetBlocking (s.socket_table i).ep)).2

theorem acts_attached (hot : ot.Lawful) (hstr : ot.Streams) (hs : s.Wired)
    (hi : (s.socket_table i).inUse = true) (hidle : s.underWay = none) :
    Acts i s (s.attached i) ∧ (s.attached i).view i = { s.view i with
      notified := (s.callOT (.OTInstallNotifier (s.socket_table i).ep i)).1.result == noErr ||
        (s.view i).notified } := by
  have hacts := acts_install hot hs hi hidle
  have hset := unchanged_callOT hot hstr hacts.wired (c := .OTSetSynchronous (s.socket_table i).ep) rfl fun _ => rfl
  have hblock := unchanged_callOT hot hstr hset.wired (c := .OTSetBlocking (s.socket_table i).ep) rfl fun _ => rfl
  have hmodes := hset.trans hblock
  exact ⟨hacts.trans (hmodes.acts i), (hmodes.view i ((hacts.inUse i).trans hi)).trans (view_install hstr s i)⟩

/-- A slot with an endpoint just opened is given back where its notifier cannot be installed. -/
theorem install_failed (hot : ot.Lawful) (hfills : Fills i s t) (hidle : s.underWay = none) :
    Unchanged s (((t.callOT (.OTInstallNotifier (t.socket_table i).ep i)).2.callOT
      (.OTCloseProvider (t.socket_table i).ep)).2.free_socket i) := by
  have hidle' := hfills.underWay.trans hidle
  have hacts := acts_install hot hfills.wired hfills.taken hidle'
  have hclose := givesBack_close hot hacts.wired ((hacts.inUse i).trans hfills.taken) (hacts.underWay.trans hidle')
  exact (hfills.acts hacts).givesBack hclose

/-- It is filled where it can. -/
theorem install_done (hot : ot.Lawful) (hstr : ot.Streams) (hfills : Fills i s t)
    (hfresh : t.view i = View.fresh) (hidle : s.underWay = none)
    (hres : (t.callOT (.OTInstallNotifier (t.socket_table i).ep i)).1.result = noErr)
    (domain type protocol : ℤ) :
    Fills i s ((t.attached i).updateEntry i fun e => { e with domain, type, protocol, writable := true }) ∧
      ((t.attached i).updateEntry i fun e => { e with domain, type, protocol, writable := true }).view i =
        { View.fresh with type, notified := true } := by
  obtain ⟨hacts, hview⟩ := acts_attached hot hstr hfills.wired hfills.taken (hfills.underWay.trans hidle)
  have hdone := acts_updateEntry hacts.wired (i := i)
    (f := fun e => { e with domain, type, protocol, writable := true }) ⟨rfl, rfl⟩
  rw [hfresh, hres] at hview
  exact ⟨hfills.acts (hacts.trans hdone),
    (view_updateEntry rfl).trans (congrArg (fun v : View => { v with type }) hview)⟩

/-- socket from OTOpenEndpoint on fills the slot or gives it back. -/
theorem openSocket_cases (hot : ot.Lawful) (hstr : ot.Streams) (hs : s.Wired)
    (hinit : s.socket_table_initialized = true) (hidle : s.underWay = none)
    (hfree : (s.socket_table i).inUse = false) (config : OTConfigurationRef) (domain type protocol : ℤ) :
    Unchanged s ((s.updateEntry i fun _ => { SocketEntry.zero with inUse := true }).openSocket i config
        domain type protocol).2 ∨
      Fills i s ((s.updateEntry i fun _ => { SocketEntry.zero with inUse := true }).openSocket i config
          domain type protocol).2 ∧
        ((s.updateEntry i fun _ => { SocketEntry.zero with inUse := true }).openSocket i config
          domain type protocol).2.view i = { View.fresh with type, notified := true } := by
  rw [openSocket]
  dsimp only
  by_cases hres : (ot.call (.OTOpenEndpoint config) s.net).1.result = noErr
  case neg =>
    rw [if_pos (.inl hres)]
    exact .inl ((unchanged_open_failed hot hs hfree hres).setErrno _)
  case pos =>
    obtain ⟨hfills, hfresh, -⟩ := fills_opened hot hs hinit hfree hres
    have hvalid := (hot.opened config s.net hres).1
    have hfailed := install_failed hot hfills hidle
    have hdone := install_done hot hstr hfills hfresh hidle
    simp only [attached, opened_self] at hfailed hdone
    rw [if_neg (by exact not_or.mpr ⟨not_not.mpr hres, hvalid⟩)]
    split
    case isTrue => exact .inl (hfailed.setErrno EIO)
    case isFalse hinstalled => exact .inr (hdone (not_not.mp hinstalled) domain type protocol)

theorem socket_turns (hot : ot.Lawful) (hstr : ot.Streams) (hs : s.Wired) (hidle : s.underWay = none)
    (domain type protocol : ℤ) :
    Turns s (.call (.socket domain type protocol)) (s.socket domain type protocol).2 := by
  have hopenOT := unchanged_init_open_transport hot hstr hs
  have hinit := hopenOT.trans (unchanged_init hopenOT.wired)
  obtain ⟨e, hsocket⟩ | ⟨e, hsocket⟩ | ⟨i, configStr, hfree, config, rfl, hend⟩ :=
    s.socket_cases domain type protocol
  · rw [hsocket]
    exact (hopenOT.setErrno e).turns
  · rw [hsocket]
    exact (hinit.setErrno e).turns
  have hconfig := unchanged_callOT hot hstr hinit.wired (c := .OTCreateConfiguration configStr) rfl fun _ => rfl
  have hbefore := hinit.trans hconfig
  rcases hend with hsocket | ⟨protocol', hsocket⟩ <;> rw [hsocket]
  · exact ((hbefore.trans (unchanged_free_alloc hconfig.wired hfree)).setErrno _).turns
  rcases openSocket_cases hot hstr hconfig.wired (initialized_init (s := s.init_open_transport.2))
    (hbefore.underWay.trans hidle) hfree _ domain type protocol' with hback | ⟨hfills, hview⟩
  · exact (hbefore.trans hback).turns
  · refine (hbefore.fills hfills).turns ?_
    rw [hview]
    exact .opened ((hbefore.inUse i).symm.trans hfree)

/-! ### bind, listen, connect -/

/-- The endpoint of the slot is bound with a queue after a call. -/
def listensAfter (s : SocketState ot) (i : SockIdx) (c : OTCall) : Bool :=
  (ot.endpoint (s.callOT c).2.net (s.socket_table i).ep).listens

/-- OTBind shows in the queue, and in whether connections are told of. -/
theorem view_bind (hstr : ot.Streams) (s : SocketState ot) (i : SockIdx) (addr : InetAddress) (qlen : ℕ) :
    (s.callOT (.OTBind (s.socket_table i).ep addr qlen)).2.view i = { s.view i with
      queue := if (s.callOT (.OTBind (s.socket_table i).ep addr qlen)).1.result = noErr then some qlen
        else (s.view i).queue
      listens := s.listensAfter i (.OTBind (s.socket_table i).ep addr qlen) } := by
  have hkeeps := hstr.keeps (.OTBind (s.socket_table i).ep addr qlen) s.net (s.socket_table i).ep rfl
  by_cases hres : (ot.call (.OTBind (s.socket_table i).ep addr qlen) s.net).1.result = noErr <;>
    simp [view, callOT, hkeeps, notifiersAfter, queueOf, linkedIn, listensAfter, hres]

theorem view_unbind (hstr : ot.Streams) (s : SocketState ot) (i : SockIdx) :
    (s.callOT (.OTUnbind (s.socket_table i).ep)).2.view i = { s.view i with
      queue := if (s.unbindReply i).result = noErr then none else (s.view i).queue
      listens := s.listensAfter i (.OTUnbind (s.socket_table i).ep) } := by
  have hkeeps := hstr.keeps (.OTUnbind (s.socket_table i).ep) s.net (s.socket_table i).ep rfl
  by_cases hres : (ot.call (.OTUnbind (s.socket_table i).ep) s.net).1.result = noErr <;>
    simp [view, callOT, hkeeps, notifiersAfter, queueOf, linkedIn, listensAfter, unbindReply, hres]

theorem view_rebind (hstr : ot.Streams) (s : SocketState ot) (i : SockIdx) (backlog : ℤ) :
    ((s.callOT (.OTUnbind (s.socket_table i).ep)).2.callOT (.OTBind (s.socket_table i).ep
        (s.socket_table i).localAddr (queueLength backlog))).2.view i = { s.view i with
      queue := if (s.rebindReply i backlog).result = noErr then some (queueLength backlog)
        else if (s.unbindReply i).result = noErr then none else (s.view i).queue
      listens := (s.callOT (.OTUnbind (s.socket_table i).ep)).2.listensAfter i
        (.OTBind (s.socket_table i).ep (s.socket_table i).localAddr (queueLength backlog)) } := by
  refine (view_bind hstr (s.callOT (.OTUnbind (s.socket_table i).ep)).2 i _ _).trans ?_
  rw [view_unbind hstr s i]
  rfl

/-- OTConnect shows as a connection, or as none. -/
theorem view_connect (hstr : ot.Streams) (s : SocketState ot) (i : SockIdx) (addr : InetAddress) :
    (s.callOT (.OTConnect (s.socket_table i).ep addr)).2.view i =
      { s.view i with linked := decide ((s.connectReply i addr).result = noErr) } := by
  have hkeeps := hstr.keeps (.OTConnect (s.socket_table i).ep addr) s.net (s.socket_table i).ep rfl
  have hlistens := hstr.listens_same (.OTConnect (s.socket_table i).ep addr) s.net (s.socket_table i).ep rfl
  by_cases hres : (ot.call (.OTConnect (s.socket_table i).ep addr) s.net).1.result = noErr <;>
    simp [view, callOT, hkeeps, hlistens, notifiersAfter, queueOf, linkedIn, connectReply, hres]

theorem bind_turns (hot : ot.Lawful) (hstr : ot.Streams) (hs : s.Wired) (sockfd : ℤ) (addr : InetAddress) :
    Turns s (.call (.bind sockfd addr)) (s.bind sockfd addr).2 := by
  rw [bind]
  rcases hget : s.get_socket sockfd with _ | i
  · exact ((Unchanged.refl hs).setErrno EBADF).turns
  have hacts := acts_callOT hot hs (get_socket_inUse hget) (c := .OTBind (s.socket_table i).ep addr 0) rfl
    (by simp) (by simp)
  have hview := view_bind hstr s i addr 0
  have hlistens : s.listensAfter i (.OTBind (s.socket_table i).ep addr 0) = true → (s.view i).listens = true :=
    fun h => (hstr.listens_bind _ _ _ _ _ h).resolve_right fun hq => absurd hq.1 (by simp)
  dsimp only
  split
  case isTrue hfailed =>
    refine (hacts.setErrno _).turns ?_
    rw [view_setErrno, hview, if_neg hfailed]
    exact .bindFailed hget hfailed hlistens
  case isFalse hbound =>
    rw [if_pos (not_not.mp hbound)] at hview
    dsimp only
    refine hacts.turns_update hview (fun v => { v with bound := true }) ?_ ?_ (.bound hget (not_not.mp hbound) hlistens)
    · exact ⟨rfl, rfl⟩
    · exact view_updateEntry rfl

theorem listen_turns (hot : ot.Lawful) (hstr : ot.Streams) (hs : s.Wired) (sockfd backlog : ℤ) :
    Turns s (.call (.listen sockfd backlog)) (s.listen sockfd backlog).2 := by
  rw [listen]
  rcases hget : s.get_socket sockfd with _ | i
  · exact ((Unchanged.refl hs).setErrno EBADF).turns
  have hi := get_socket_inUse hget
  dsimp only
  split
  · exact ((Unchanged.refl hs).setErrno EOPNOTSUPP).turns
  rename_i htype
  have htype := not_not.mp htype
  split
  case isFalse hunbound =>
    dsimp only
    refine ((Unchanged.refl hs).acts i).turns_update rfl (fun v => { v with listening := true }) ?_ ?_
      (.listening hget htype (Bool.eq_false_iff.mpr hunbound))
    · exact ⟨rfl, rfl⟩
    · exact view_updateEntry rfl
  case isTrue hbound =>
    have hunbind := acts_callOT hot hs hi (c := .OTUnbind (s.socket_table i).ep) rfl (by simp) (by simp)
    have hrebind := acts_callOT hot hunbind.wired hi
      (c := .OTBind (s.socket_table i).ep (s.socket_table i).localAddr (queueLength backlog)) rfl (by simp) (by simp)
    have hacts := hunbind.trans hrebind
    have hview := view_rebind hstr s i backlog
    split
    case isTrue hfailed =>
      have hfailed : (s.rebindReply i backlog).result ≠ noErr := hfailed
      rw [if_neg hfailed] at hview
      refine (hacts.setErrno _).turns ?_
      rw [view_setErrno, hview]
      refine .rebindFailed hget htype hbound hfailed fun h => ?_
      exact hstr.listens_unbind _ _ _ ((hstr.listens_bind _ _ _ _ _ h).resolve_right fun hq => hfailed hq.2)
    case isFalse hdone =>
      have hdone : (s.rebindReply i backlog).result = noErr := not_not.mp hdone
      rw [if_pos hdone] at hview
      dsimp only
      refine hacts.turns_update hview (fun v => { v with listening := true }) ?_ ?_ (.rebound _ hget htype hbound hdone)
      · exact ⟨rfl, rfl⟩
      · exact view_updateEntry rfl

theorem connect_turns (hot : ot.Lawful) (hstr : ot.Streams) (hs : s.Wired) (sockfd : ℤ) (addr : InetAddress) :
    Turns s (.call (.connect sockfd addr)) (s.after (s.connect sockfd addr)) := by
  rw [connect]
  rcases hget : s.get_socket sockfd with _ | i
  · exact ((Unchanged.refl hs).setErrno EBADF).turns
  dsimp only
  split
  · exact (Unchanged.refl hs).turns
  rename_i hwaits
  have hacts := acts_callOT hot hs (get_socket_inUse hget) (c := .OTConnect (s.socket_table i).ep addr) rfl
    (by simp) (by simp)
  have hview := view_connect hstr s i addr
  split
  case isTrue hfailed =>
    have hfailed : (s.connectReply i addr).result ≠ noErr := hfailed
    rw [decide_eq_false hfailed] at hview
    refine (hacts.setErrno _).turns ?_
    rw [view_setErrno, hview]
    exact .connectFailed hget (Bool.eq_false_iff.mpr hwaits) hfailed
  case isFalse hdone =>
    have hdone : (s.connectReply i addr).result = noErr := not_not.mp hdone
    rw [decide_eq_true hdone] at hview
    exact hacts.turns_underWay (hview ▸ .connected hget hdone) (get_socket_inUse hget) (by simp)

/-! ### Data -/

/-- A silent call shows only in the receiving side of the endpoint. -/
theorem view_callOT_silent (hstr : ot.Streams) (s : SocketState ot) (i : SockIdx) (hc : c.silent = true) :
    (s.callOT c).2.view i = { s.view i with
      stream := (ot.endpoint (s.callOT c).2.net (s.socket_table i).ep).toStream } := by
  have hlog := queueOf_silent hc (s.socket_table i).ep (ot.call c s.net).1 s.log
  have hlistens := hstr.listens_same c s.net (s.socket_table i).ep (binds_silent hc)
  simp only [view, callOT, hlistens, notifiersAfter_silent hc, hlog]

/-- recv that has data, up to its store. -/
theorem recv_got {sockfd : ℤ} {len : ℕ} (hget : s.get_socket sockfd = some i)
    (hwaits : ot.waits (.OTRcv (s.socket_table i).ep len) s.net = false) (hgot : 0 ≤ (s.rcvReply i len).result) :
    s.after (s.recv sockfd len) =
      { (s.callOT (.OTRcv (s.socket_table i).ep len)).2 with underWay := some (.received i) } := by
  have hgot : 0 ≤ (s.callOT (.OTRcv (s.socket_table i).ep len)).1.result := hgot
  simp only [recv, hget, hwaits, if_neg (Int.not_lt.mpr hgot)]
  rfl

/-- recvfrom on a stream socket is recv. -/
theorem after_recvfrom {sockfd : ℤ} (len : ℕ) (hget : s.get_socket sockfd = some i)
    (htype : (s.socket_table i).type ≠ SOCK_DGRAM) :
    s.after (s.recvfrom sockfd len) = s.after (s.recv sockfd len) := by
  simp only [recvfrom, hget, if_pos htype]
  rcases s.recv sockfd len with _ | ⟨r, t⟩ <;> rfl

/-- recv, which recvfrom calls too. -/
theorem recv_turns (hot : ot.Lawful) (hstr : ot.Streams) (hs : s.Wired) {sockfd : ℤ} {len : ℕ} {c : SocketCall}
    (hc : ∀ i, s.get_socket sockfd = some i → s.receipt c = some (i, len)) :
    Turns s (.call c) (s.after (s.recv sockfd len)) := by
  rw [recv]
  rcases hget : s.get_socket sockfd with _ | i
  · exact ((Unchanged.refl hs).setErrno EBADF).turns
  dsimp only
  split
  · exact (Unchanged.refl hs).turns
  rename_i hwaits
  have hacts := acts_callOT hot hs (get_socket_inUse hget) (c := .OTRcv (s.socket_table i).ep len) rfl
    (by simp) (by simp)
  have hview := view_callOT_silent hstr s i (c := .OTRcv (s.socket_table i).ep len) rfl
  split
  case isTrue hfailed =>
    have hturns : ∀ e, Turns s (.call c) ((s.callOT (.OTRcv (s.socket_table i).ep len)).2.setErrno e) ∧
        Turns s (.call c) (s.callOT (.OTRcv (s.socket_table i).ep len)).2 := fun e =>
      ⟨(hacts.setErrno e).turns (hview ▸ .receivedNone (hc i hget) hfailed),
        hacts.turns (hview ▸ .receivedNone (hc i hget) hfailed)⟩
    split
    · split
      · exact (hturns EAGAIN).1
      · exact (hturns 0).2
    · exact (hturns _).1
  case isFalse hgot =>
    exact hacts.turns_underWay
      (hview ▸ .received (hc i hget) (Bool.eq_false_iff.mpr hwaits) (Int.not_lt.mp hgot))
      (get_socket_inUse hget) (by simp)

theorem recvfrom_turns (hot : ot.Lawful) (hstr : ot.Streams) (hs : s.Wired) (sockfd : ℤ) (len : ℕ) :
    Turns s (.call (.recvfrom sockfd len)) (s.after (s.recvfrom sockfd len)) := by
  rcases hget : s.get_socket sockfd with _ | i
  · rw [recvfrom, hget]
    exact ((Unchanged.refl hs).setErrno EBADF).turns
  by_cases htype : (s.socket_table i).type ≠ SOCK_DGRAM
  case pos =>
    rw [after_recvfrom len hget htype]
    refine recv_turns hot hstr hs fun k hk => ?_
    obtain rfl := Option.some.inj (hget.symm.trans hk)
    rw [receipt, hget]
    exact if_pos htype
  case neg =>
    rw [recvfrom, hget]
    dsimp only
    rw [if_neg htype]
    split
    · exact (Unchanged.refl hs).turns
    have hacts := acts_callOT hot hs (get_socket_inUse hget) (c := .OTRcvUData (s.socket_table i).ep len) rfl
      (by simp) (by simp)
    have hview := view_callOT_silent hstr s i (c := .OTRcvUData (s.socket_table i).ep len) rfl
    have hturn := hview ▸ @Turn.receivedUnit ot s sockfd len i _ hget (not_not.mp htype)
    split
    · exact (hacts.setErrno _).turns hturn
    · exact hacts.turns hturn

/-! ### The other calls -/

/-- What every call on a descriptor that is not open does. -/
theorem turns_badFd (hs : s.Wired) : Turns s a s.badFd.2 := ((Unchanged.refl hs).setErrno EBADF).turns

/-- A call of the library that makes one silent call of Open Transport, or none. -/
theorem send_turns (hot : ot.Lawful) (hstr : ot.Streams) (hs : s.Wired) (sockfd : ℤ) (buf : List UInt8)
    (flags : BitVec 32) : Turns s a (s.after (s.send sockfd buf flags)) := by
  rw [send]
  rcases s.get_socket sockfd with _ | i
  · exact turns_badFd hs
  dsimp only
  split
  · exact ((Unchanged.refl hs).setErrno ENOTCONN).turns
  split
  · exact (Unchanged.refl hs).turns
  have hcall := unchanged_callOT hot hstr hs
    (c := .OTSnd (s.socket_table i).ep buf (has flags MSG_OOB)) rfl fun _ => rfl
  split
  · exact (hcall.setErrno _).turns
  · exact hcall.turns

theorem sendto_turns (hot : ot.Lawful) (hstr : ot.Streams) (hs : s.Wired) (sockfd : ℤ) (buf : List UInt8)
    (flags : BitVec 32) (addr : InetAddress) : Turns s a (s.after (s.sendto sockfd buf flags addr)) := by
  rw [sendto]
  rcases s.get_socket sockfd with _ | i
  · exact turns_badFd hs
  dsimp only
  split
  · exact send_turns hot hstr hs sockfd buf flags
  split
  · exact (Unchanged.refl hs).turns
  have hcall := unchanged_callOT hot hstr hs (c := .OTSndUData (s.socket_table i).ep addr buf) rfl fun _ => rfl
  split
  · exact (hcall.setErrno _).turns
  · exact hcall.turns

theorem shutdown_turns (hot : ot.Lawful) (hstr : ot.Streams) (hs : s.Wired) (sockfd how : ℤ) :
    Turns s a (s.shutdown sockfd how).2 := by
  rw [shutdown]
  rcases s.get_socket sockfd with _ | i
  · exact turns_badFd hs
  dsimp only
  split
  · have hcall := unchanged_callOT hot hstr hs (c := .OTSndOrderlyDisconnect (s.socket_table i).ep) rfl fun _ => rfl
    split
    · exact (hcall.setErrno _).turns
    · exact hcall.turns
  · exact (Unchanged.refl hs).turns

theorem getsockopt_turns (hs : s.Wired) (sockfd level optname : ℤ) :
    Turns s a (s.getsockopt sockfd level optname).2 := by
  rw [getsockopt]
  rcases s.get_socket sockfd with _ | i
  · exact turns_badFd hs
  dsimp only
  split
  · exact (Unchanged.refl hs).turns
  split
  · have hcleared := unchanged_updateEntry hs (i := i) (f := fun e => { e with asyncError := 0 }) ⟨rfl, rfl⟩
      (view_updateEntry rfl)
    exact hcleared.turns
  · exact ((Unchanged.refl hs).setErrno ENOPROTOOPT).turns

theorem unchanged_setNonblocking (hot : ot.Lawful) (hstr : ot.Streams) (hs : s.Wired) (i : SockIdx)
    (nonblocking : Bool) : Unchanged s (s.setNonblocking i nonblocking) := by
  have hcall := unchanged_callOT hot hstr hs (c := if nonblocking then .OTSetNonBlocking (s.socket_table i).ep
    else .OTSetBlocking (s.socket_table i).ep) (by cases nonblocking <;> rfl) (by cases nonblocking <;> exact fun _ => rfl)
  exact hcall.trans (unchanged_updateEntry hcall.wired (i := i) (f := fun e => { e with nonblocking }) ⟨rfl, rfl⟩
    (view_updateEntry rfl))

theorem fcntl_turns (hot : ot.Lawful) (hstr : ot.Streams) (hs : s.Wired) (fd cmd : ℤ) (flags : BitVec 32) :
    Turns s a (s.fcntl fd cmd flags).2 := by
  rw [fcntl]
  rcases s.get_socket fd with _ | i
  · exact turns_badFd hs
  dsimp only
  split
  · exact (Unchanged.refl hs).turns
  split
  · dsimp only
    split
    · exact (Unchanged.refl hs).turns
    · exact (unchanged_setNonblocking hot hstr hs i _).turns
  split
  · exact (Unchanged.refl hs).turns
  · exact ((Unchanged.refl hs).setErrno EINVAL).turns

theorem ioctl_turns (hot : ot.Lawful) (hstr : ot.Streams) (hs : s.Wired) (fd request : ℤ) (val : Option ℤ) :
    Turns s a (s.ioctl fd request val).2 := by
  rw [ioctl]
  rcases s.get_socket fd with _ | i
  · exact turns_badFd hs
  dsimp only
  split
  · exact (unchanged_setNonblocking hot hstr hs i _).turns
  repeat' split
  all_goals first
    | exact (Unchanged.refl hs).turns
    | exact ((Unchanged.refl hs).setErrno EINVAL).turns

theorem close_turns (hot : ot.Lawful) (hs : s.Wired) (hidle : s.underWay = none) (fd : ℤ) :
    Turns s a (s.posix9_close_socket fd).2 := by
  rw [posix9_close_socket]
  rcases hget : s.get_socket fd with _ | i
  · exact turns_badFd hs
  have hi := get_socket_inUse hget
  dsimp only
  rw [if_pos (hs.valid i hi).1]
  split
  · have hacts := acts_callOT hot hs hi (c := .OTSndDisconnect (s.socket_table i).ep none) rfl (by simp) (by simp)
    exact (hacts.givesBack (givesBack_close hot hacts.wired hi hidle)).turns
  · exact (givesBack_close hot hs hi hidle).turns

/-! ### select -/

theorem unchanged_selectFd (hot : ot.Lawful) (hstr : ot.Streams) (args : SelectArgs)
    (acc : Selected × SocketState ot) (hs : acc.2.Wired) (i : SockIdx) :
    Unchanged acc.2 (selectFd args acc i).2 := by
  obtain ⟨res, s⟩ := acc
  rw [selectFd]
  dsimp only
  split
  · exact (Unchanged.refl hs).setErrno EBADF
  · exact unchanged_callOT hot hstr hs (c := .OTLook (s.socket_table i).ep) rfl fun _ => rfl

theorem unchanged_foldl_selectFd (hot : ot.Lawful) (hstr : ot.Streams) (args : SelectArgs) (is : List SockIdx)
    (acc : Selected × SocketState ot) (hs : acc.2.Wired) :
    Unchanged acc.2 (is.foldl (selectFd args) acc).2 := by
  induction is generalizing acc with
  | nil => exact .refl hs
  | cons i is ih =>
    have hfd := unchanged_selectFd hot hstr args acc hs i
    exact hfd.trans (ih _ hfd.wired)

theorem select_turns (hot : ot.Lawful) (hstr : ot.Streams) (hs : s.Wired) (args : SelectArgs) (now : BitVec 32) :
    Turns s a (s.select args now).2 := by
  have hscan : Unchanged s (s.selectScan args).2 := unchanged_foldl_selectFd hot hstr args _ (.zero, s) hs
  rw [select]
  dsimp only
  split <;> exact hscan.turns

/-! ### accept -/

/-- What OTAccept does to the endpoint the connection is passed to. -/
theorem view_accept (hstr : ot.Streams) (s : SocketState ot) (i : SockIdx) (ep : EndpointRef) (call : TCall) :
    (s.callOT (.OTAccept ep (s.socket_table i).ep call)).2.view i = { s.view i with
      linked := decide ((s.callOT (.OTAccept ep (s.socket_table i).ep call)).1.result = noErr) } := by
  have hkeeps := hstr.keeps (.OTAccept ep (s.socket_table i).ep call) s.net (s.socket_table i).ep rfl
  have hlistens := hstr.listens_same (.OTAccept ep (s.socket_table i).ep call) s.net (s.socket_table i).ep rfl
  by_cases hres : (ot.call (.OTAccept ep (s.socket_table i).ep call) s.net).1.result = noErr <;>
    simp [view, callOT, hkeeps, hlistens, notifiersAfter, queueOf, linkedIn, hres]

/-- It is nothing to the others, the one it listens on included. -/
theorem acts_accept (hot : ot.Lawful) (hstr : ot.Streams) (hs : s.Wired) (hi : (s.socket_table i).inUse = true)
    (ep : EndpointRef) (call : TCall) : Acts i s (s.callOT (.OTAccept ep (s.socket_table i).ep call)).2 where
  wired := hs.callOT hot (by simp) (by simp) (by simp)
  underWay := rfl
  inUse _ := rfl
  view j hne hj := by
    have hep : (s.socket_table i).ep ≠ (s.socket_table j).ep := fun h => hne (hs.distinct j i hj hi h.symm)
    have hkeeps := hstr.keeps (.OTAccept ep (s.socket_table i).ep call) s.net (s.socket_table j).ep rfl
    have hlistens := hstr.listens_same (.OTAccept ep (s.socket_table i).ep call) s.net (s.socket_table j).ep rfl
    simp [view, callOT, hkeeps, hlistens, notifiersAfter, queueOf, linkedIn, hep]

/-- The end of an accept that goes on. -/
theorem Fills.turns_accepting (h : Fills i s t) (hview : t.view i = { View.fresh with linked := true })
    (hnone : t.notifiers (t.socket_table i).ep = none) (k : SockIdx) (addr : InetAddress) (fd : ℤ) :
    Turns s (.call (.accept fd)) { t with underWay := some (.accepting ⟨k, i, addr⟩) } where
  wired := { h.wired with
    underWay := fun _ hw => Option.some.inj hw ▸ h.taken
    accepting := fun _ ha => UnderWay.accepting.inj (Option.some.inj ha) ▸ hnone }
  turn j hj := by
    rcases eq_or_ne j i with rfl | hne
    · exact hview ▸ .accepted h.free
    · have hj' := (h.inUse j hne).symm.trans hj
      exact h.view j hne hj' ▸ .same hj'
  filling acc hacc := by
    obtain rfl := UnderWay.accepting.inj (Option.some.inj hacc)
    exact .inr hview
  filled _ hacc := by cases hacc

/-- A slot with an endpoint just opened is given back where the connection cannot be passed to it. -/
theorem accept_failed (hot : ot.Lawful) (hstr : ot.Streams) (hfills : Fills i s t) (hidle : s.underWay = none)
    (ep : EndpointRef) (call : TCall) :
    Unchanged s (((t.callOT (.OTAccept ep (t.socket_table i).ep call)).2.callOT
      (.OTCloseProvider (t.socket_table i).ep)).2.free_socket i) := by
  have hacts := acts_accept hot hstr hfills.wired hfills.taken ep call
  have hclose := givesBack_close hot hacts.wired hfills.taken (hfills.underWay.trans hidle)
  exact (hfills.acts hacts).givesBack hclose

/-- accept goes on where it can. -/
theorem accept_done (hot : ot.Lawful) (hstr : ot.Streams) (hfills : Fills i s t) (hfresh : t.view i = View.fresh)
    (hnone : t.notifiers (t.socket_table i).ep = none) {ep : EndpointRef} {call : TCall}
    (hres : (t.callOT (.OTAccept ep (t.socket_table i).ep call)).1.result = noErr) (k : SockIdx)
    (addr : InetAddress) (fd : ℤ) : Turns s (.call (.accept fd))
      { (t.callOT (.OTAccept ep (t.socket_table i).ep call)).2 with underWay := some (.accepting ⟨k, i, addr⟩) } := by
  have hacts := acts_accept hot hstr hfills.wired hfills.taken ep call
  have hview := view_accept hstr t i ep call
  rw [hfresh, decide_eq_true hres] at hview
  exact (hfills.acts hacts).turns_accepting hview hnone k addr fd

theorem openAccepted_turns (hot : ot.Lawful) (hstr : ot.Streams) (hbefore : Unchanged u s)
    (hinit : s.socket_table_initialized = true) (hidle : s.underWay = none)
    (hfree : (s.socket_table j).inUse = false) (hi : (s.socket_table i).inUse = true) (call : TCall) (fd : ℤ) :
    Turns u (.call (.accept fd))
      ((s.updateEntry j fun _ => { SocketEntry.zero with inUse := true }).openAccepted i j call).2 := by
  have hne : i ≠ j := ne_of_inUse hfree hi
  have hcall := unchanged_callOT hot hstr hbefore.wired (c := .OTCreateConfiguration .kTCPName) rfl fun _ => rfl
  have hconfig := hbefore.trans hcall
  rw [openAccepted, updateEntry_of_ne s _ hne]
  dsimp only
  by_cases hres : (ot.call (.OTOpenEndpoint (s.callOT (.OTCreateConfiguration .kTCPName)).1.ref)
      (s.callOT (.OTCreateConfiguration .kTCPName)).2.net).1.result = noErr
  case neg =>
    have hback := hconfig.trans (unchanged_open_failed hot hcall.wired hfree hres)
    have hrefuse := unchanged_callOT hot hstr hback.wired
      (c := .OTSndDisconnect (s.socket_table i).ep (some call)) rfl fun _ => rfl
    rw [if_pos (by exact hres)]
    exact ((hback.trans hrefuse).setErrno _).turns
  case pos =>
    obtain ⟨hopened, hfresh, hnone⟩ := fills_opened hot hcall.wired hinit hfree hres
    have hfills := hconfig.fills hopened
    have hfailed := accept_failed hot hstr hfills (hbefore.underWay.symm.trans hidle) (s.socket_table i).ep call
    have hdone := @accept_done _ _ _ _ hot hstr hfills hfresh hnone (s.socket_table i).ep call
    simp only [opened_self] at hfailed hdone
    rw [if_neg (by exact not_not.mpr hres)]
    split
    case isTrue => exact (hfailed.setErrno _).turns
    case isFalse haccepted => exact hdone (not_not.mp haccepted) i call.addr fd

theorem accept_turns (hot : ot.Lawful) (hstr : ot.Streams) (hs : s.Wired) (hidle : s.underWay = none)
    (sockfd : ℤ) : Turns s (.call (.accept sockfd)) (s.after (s.accept sockfd)) := by
  rcases haccept : s.accept sockfd with _ | res
  · exact (Unchanged.refl hs).turns
  change Turns s _ res.2
  obtain ⟨e, rfl⟩ | ⟨i, listened, hget, rfl, hend⟩ := accept_cases haccept
  · exact ((Unchanged.refl hs).setErrno e).turns
  have hi := get_socket_inUse hget
  have hlisten := unchanged_callOT hot hstr hs (c := .OTListen (s.socket_table i).ep) rfl fun _ => rfl
  have hbefore := hlisten.trans (unchanged_init hlisten.wired)
  obtain ⟨-, e, rfl⟩ | ⟨-, rfl | ⟨j, hfree, rfl⟩⟩ := hend
  · exact (hlisten.setErrno e).turns
  · have hfull := hbefore.setErrno EMFILE
    have hrefuse := unchanged_callOT hot hstr hfull.wired (c := .OTSndDisconnect (s.socket_table i).ep
      (some (s.callOT (.OTListen (s.socket_table i).ep)).1.call)) rfl fun _ => rfl
    exact (hfull.trans hrefuse).turns
  · exact openAccepted_turns hot hstr hbefore initialized_init (hbefore.underWay.trans hidle) hfree
      ((hbefore.inUse i).trans hi) (s.callOT (.OTListen (s.socket_table i).ep)).1.call sockfd

/-- accept from OTInstallNotifier up to its stores. -/
theorem installs_turns (hot : ot.Lawful) (hstr : ot.Streams) (hs : s.Wired) {acc : Accepting}
    (hacc : s.underWay = some (.accepting acc)) : Turns s .installs (s.acceptInstalls acc) := by
  have hi := hs.accepting_inUse hacc
  obtain ⟨hacts, hview⟩ := acts_attached hot hstr hs.idle hi rfl
  refine ⟨hacts.wired.goesOn ((hacts.inUse _).trans hi) (by simp), fun j hj => ?_, fun _ h => (by cases h), fun acc' h => ?_⟩
  · rcases eq_or_ne j acc.newsock with rfl | hne
    · exact hview ▸ .installed _ hacc
    · have hj' := (hacts.inUse j).symm.trans hj
      exact (hacts.view j hne hj') ▸ .same hj'
  · obtain rfl := UnderWay.accepted.inj (Option.some.inj h)
    exact .inr ⟨hacc, rfl⟩

/-! ### Stores -/

theorem view_acceptReturns (s : SocketState ot) (acc : Accepting) :
    (s.acceptReturns acc).2.view acc.newsock = { s.view acc.newsock with
      type := (s.socket_table acc.sock).type, connected := true } := by
  simp [view, acceptReturns]

theorem view_connectReturns (s : SocketState ot) (i : SockIdx) (addr : InetAddress) :
    (s.connectReturns i addr).view i = { s.view i with connected := true } := by
  simp [view, connectReturns]

theorem view_recvReturns (s : SocketState ot) (i : SockIdx) :
    (s.recvReturns i).view i = { s.view i with readable := false } := by
  simp [view, recvReturns]

/-- Each of the three stores in the entry of its slot, and is done. -/
theorem stores_turns (hs : s.Wired) : Turns s .stores s.stores := by
  rw [stores]
  rcases hw : s.underWay with _ | ⟨acc | acc | ⟨i, addr⟩ | i⟩
  · exact (Unchanged.refl hs).turns
  · exact (Unchanged.refl hs).turns
  · have hacts := acts_updateEntry hs (i := acc.newsock) (f := fun e => { e with
      domain := (s.socket_table acc.sock).domain, type := (s.socket_table acc.sock).type
      protocol := (s.socket_table acc.sock).protocol, connected := true
      peerAddr := acc.clientAddr, writable := true }) ⟨rfl, rfl⟩
    exact hacts.turns_done fun hi => (view_acceptReturns s acc) ▸ .acceptStored hw hi
  · have hacts := acts_updateEntry hs (i := i)
      (f := fun e => { e with connected := true, peerAddr := addr }) ⟨rfl, rfl⟩
    exact hacts.turns_done fun hi => (view_connectReturns s i addr) ▸ .connectStored hw hi
  · have hacts := acts_updateEntry hs (i := i) (f := fun e => { e with readable := false }) ⟨rfl, rfl⟩
    exact hacts.turns_done fun hi => (view_recvReturns s i) ▸ .recvStored hw hi

/-! ### Arrivals -/

/-- The state once something has arrived for the endpoint of a slot, the call of its notifier in the log. -/
def reached (s : SocketState ot) (ep : EndpointRef) (a : Arrival) (event : Bool) : SocketState ot :=
  { s with
    net := (ot.arrive ep a s.net).2
    log := if event then .event ep a.event.1 a.event.2 :: s.log else s.log }

theorem wired_reached (hot : ot.Lawful) (hs : s.Wired) (ep : EndpointRef) (a : Arrival) (event : Bool) :
    (s.reached ep a event).Wired := by
  refine hs.transfer (fun _ => ⟨rfl, fun _ => rfl⟩) id (fun j _ => ?_) (fun _ _ h => h) rfl
  by_cases hep : (s.socket_table j).ep = ep
  · rw [hep]
    exact hot.arrive_stays ep a s.net
  · exact congrArg Endpoint.isOpen (hot.arrive_frame ep a s.net _ hep)

/-- It is nothing to the slots with other endpoints. -/
theorem view_reached_of_ne (hot : ot.Lawful) {ep : EndpointRef} (a : Arrival) (event : Bool)
    (hep : (s.socket_table j).ep ≠ ep) : (s.reached ep a event).view j = s.view j := by
  cases event <;> simp [view, reached, hot.arrive_frame ep a s.net _ hep, queueOf, linkedIn, Ne.symm hep]

/-- Without a notifier only the stream shows it. -/
theorem view_reached_silent (hstr : ot.Streams) (s : SocketState ot) (j : SockIdx) (a : Arrival) :
    (s.reached (s.socket_table j).ep a false).view j = { s.view j with stream := s.arrivedStream j a } := by
  simp [view, reached, arrivedStream, hstr.arrive_listens]

/-- The notifier writes to the entry it was installed for. -/
theorem acts_notifier (hs : s.Wired) (i : SockIdx) (event : OTEventCode) (result : OTResult) :
    Acts i s (s.socket_notifier i event result) := by
  cases event with
  | T_PASSCON | T_UDERR => exact (Unchanged.refl hs).acts i
  | _ =>
    dsimp only [socket_notifier]
    refine acts_updateEntry hs ?_
    exact ⟨rfl, rfl⟩

/-- The call of the notifier shows in the view as `View.arrived` says. -/
theorem view_notified (hstr : ot.Streams) (s : SocketState ot) (j : SockIdx) (a : Arrival) :
    ((s.reached (s.socket_table j).ep a true).socket_notifier j a.event.1 a.event.2).view j =
      (s.view j).arrived a true (s.arrivedStream j a) := by
  cases a <;>
    simp [view, reached, socket_notifier, Arrival.event, View.arrived, arrivedStream, hstr.arrive_listens,
      queueOf, linkedIn]

/-- What arrives reaches a notifier, or only Open Transport. -/
theorem arrive_cases (s : SocketState ot) (ep : EndpointRef) (a : Arrival) :
    s.arrive ep a = s.reached ep a false ∧ (∀ j, (s.socket_table j).ep = ep → s.told j a = false) ∨
      ∃ i, s.notifiers ep = some i ∧ (ot.arrive ep a s.net).1 = true ∧
        s.arrive ep a = (s.reached ep a true).socket_notifier i a.event.1 a.event.2 := by
  rw [arrive]
  dsimp only
  rcases hnotifier : s.notifiers ep with _ | i
  · refine .inl ⟨rfl, fun j hep => ?_⟩
    rw [told, hep, hnotifier]
    exact Bool.and_false _
  dsimp only
  split
  case isTrue htold => exact .inr ⟨i, rfl, htold, rfl⟩
  case isFalse htold =>
    refine .inl ⟨rfl, fun j hep => ?_⟩
    rw [told, hep, Bool.eq_false_iff.mpr htold]
    rfl

/-- It changes neither which slots are in use nor what is under way. -/
theorem arrive_keeps (hot : ot.Lawful) (hs : s.Wired) (ep : EndpointRef) (a : Arrival) :
    (s.arrive ep a).Wired ∧ (s.arrive ep a).underWay = s.underWay ∧
      ∀ j, ((s.arrive ep a).socket_table j).inUse = (s.socket_table j).inUse := by
  rcases arrive_cases s ep a with ⟨harrive, -⟩ | ⟨i, -, -, harrive⟩
  · exact harrive ▸ ⟨wired_reached hot hs ep a false, rfl, fun _ => rfl⟩
  · have hacts := acts_notifier (wired_reached hot hs ep a true) i a.event.1 a.event.2
    exact harrive ▸ ⟨hacts.wired, hacts.underWay, hacts.inUse⟩

/-- The slot that holds the endpoint is told, if any slot is. -/
theorem view_arrive (hstr : ot.Streams) (hs : s.Wired) (hj : (s.socket_table j).inUse = true) (a : Arrival) :
    (s.arrive (s.socket_table j).ep a).view j = (s.view j).arrived a (s.told j a) (s.arrivedStream j a) := by
  rcases arrive_cases s (s.socket_table j).ep a with ⟨harrive, hsilent⟩ | ⟨i, hnotifier, htold, harrive⟩
  · rw [harrive, hsilent j rfl]
    exact view_reached_silent hstr s j a
  · obtain ⟨hi, hep⟩ := hs.installed _ i hnotifier
    obtain rfl := hs.distinct i j hi hj hep
    have htold' : s.told i a = true := by
      rw [told, htold, hnotifier, beq_self_eq_true]
      rfl
    rw [harrive, htold']
    exact view_notified hstr s i a

theorem view_arrive_of_ne (hot : ot.Lawful) (hs : s.Wired) {ep : EndpointRef} (a : Arrival)
    (hj : (s.socket_table j).inUse = true) (hep : (s.socket_table j).ep ≠ ep) :
    (s.arrive ep a).view j = s.view j := by
  rcases arrive_cases s ep a with ⟨harrive, -⟩ | ⟨i, hnotifier, -, harrive⟩
  · exact harrive ▸ view_reached_of_ne hot a false hep
  · have hne : j ≠ i := by
      rintro rfl
      exact hep (hs.installed ep j hnotifier).2
    have hview := (acts_notifier (wired_reached hot hs ep a true) i a.event.1 a.event.2).view j hne hj
    exact harrive ▸ hview.trans (view_reached_of_ne hot a true hep)

theorem arrive_turns (hot : ot.Lawful) (hstr : ot.Streams) (hs : s.Wired) (ep : EndpointRef) (a : Arrival) :
    Turns s (.arrival ep a) (s.arrive ep a) := by
  obtain ⟨hwired, hunderWay, hinUse⟩ := arrive_keeps hot hs ep a
  refine ⟨hwired, fun j hj => ?_, fun acc hacc => .inl (hunderWay.symm.trans hacc),
    fun acc hacc => .inl (hunderWay.symm.trans hacc)⟩
  have hj' := (hinUse j).symm.trans hj
  by_cases hep : (s.socket_table j).ep = ep
  · subst hep
    exact (view_arrive hstr hs hj' a) ▸ .arrived hj' rfl
  · exact (view_arrive_of_ne hot hs a hj' hep) ▸ .same hj'

/-! ### Steps -/

theorem turns_step (hot : ot.Lawful) (hstr : ot.Streams) (hs : s.Wired) (a : SocketInput) :
    Turns s a (s.step a) := by
  cases a with
  | call c =>
    rw [step]
    split
    · exact (Unchanged.refl hs).turns
    rename_i hbusy
    have hidle := Option.not_isSome_iff_eq_none.mp hbusy
    cases c with
    | socket domain type protocol => exact socket_turns hot hstr hs hidle domain type protocol
    | bind sockfd addr => exact bind_turns hot hstr hs sockfd addr
    | listen sockfd backlog => exact listen_turns hot hstr hs sockfd backlog
    | accept sockfd => exact accept_turns hot hstr hs hidle sockfd
    | connect sockfd addr => exact connect_turns hot hstr hs sockfd addr
    | send sockfd buf flags => exact send_turns hot hstr hs sockfd buf flags
    | recv sockfd len => exact recv_turns hot hstr hs fun i hi => by rw [receipt, hi]; rfl
    | sendto sockfd buf flags addr => exact sendto_turns hot hstr hs sockfd buf flags addr
    | recvfrom sockfd len => exact recvfrom_turns hot hstr hs sockfd len
    | shutdown sockfd how => exact shutdown_turns hot hstr hs sockfd how
    | getsockopt sockfd level optname => exact getsockopt_turns hs sockfd level optname
    | select args now => exact select_turns hot hstr hs args now
    | close fd => exact close_turns hot hs hidle fd
    | fcntl fd cmd flags => exact fcntl_turns hot hstr hs fd cmd flags
    | ioctl fd request val => exact ioctl_turns hot hstr hs fd request val
  | installs =>
    rw [step]
    rcases hw : s.underWay with _ | ⟨acc | acc | ⟨i, addr⟩ | i⟩
    case some.accepting => exact installs_turns hot hstr hs hw
    all_goals exact (Unchanged.refl hs).turns
  | stores => exact stores_turns hs
  | arrival ep a => exact arrive_turns hot hstr hs ep a

/-- A call made while another is under way is refused. -/
theorem step_cases (s : SocketState ot) (a : SocketInput) :
    s.step a = s ∨ ∀ c, a = .call c → s.underWay = none := by
  cases a with
  | call c =>
    rcases hw : s.underWay with _ | w
    · exact .inr fun _ _ => rfl
    · exact .inl (if_pos (Option.isSome_iff_exists.mpr ⟨w, hw⟩))
  | _ => exact .inr fun _ h => by cases h

/-- A receipt that returns data, as a step: its store is still to come. -/
theorem step_receipt {c : SocketCall} {len : ℕ} (hidle : s.underWay = none) (hreceipt : s.receipt c = some (i, len))
    (hwaits : ot.waits (.OTRcv (s.socket_table i).ep len) s.net = false) (hgot : 0 ≤ (s.rcvReply i len).result) :
    s.step (.call c) =
      { (s.callOT (.OTRcv (s.socket_table i).ep len)).2 with underWay := some (.received i) } := by
  have hrefused : ¬ s.underWay.isSome = true := by simp [hidle]
  rw [step, if_neg hrefused]
  cases c with
  | recv fd n =>
    rcases hget : s.get_socket fd with _ | k <;> rw [receipt, hget] at hreceipt
    · cases hreceipt
    · obtain ⟨rfl, rfl⟩ := Prod.mk.inj (Option.some.inj hreceipt)
      exact recv_got hget hwaits hgot
  | recvfrom fd n =>
    rcases hget : s.get_socket fd with _ | k <;> rw [receipt, hget] at hreceipt
    · cases hreceipt
    · dsimp only at hreceipt
      split at hreceipt
      case isTrue htype =>
        obtain ⟨rfl, rfl⟩ := Prod.mk.inj (Option.some.inj hreceipt)
        exact (after_recvfrom _ hget htype).trans (recv_got hget hwaits hgot)
      case isFalse => cases hreceipt
  | _ => cases hreceipt

/-- `Wired`, nothing but data has come to the slot accept is filling before its notifier is installed, and
    accept has not stored in it what it takes from the listening one. -/
structure WellFormed (s : SocketState ot) : Prop extends s.Wired where
  filling : ∀ acc, s.underWay = some (.accepting acc) →
    ∃ stream, s.view acc.newsock = { View.fresh with linked := true, stream }
  filled : ∀ acc, s.underWay = some (.accepted acc) →
    (s.view acc.newsock).type = 0 ∧ (s.view acc.newsock).listening = false

theorem WellFormed.start (net : ot.State) : (start net).WellFormed where
  toWired := .start net
  filling _ h := by cases h
  filled _ h := by cases h

/-- What arrives for the slot accept is filling reaches no notifier. -/
theorem filling_arrive (hot : ot.Lawful) (hstr : ot.Streams) (hs : s.WellFormed) {acc : Accepting}
    (hacc : s.underWay = some (.accepting acc)) (ep : EndpointRef) (a : Arrival) :
    ∃ stream, (s.arrive ep a).view acc.newsock = { View.fresh with linked := true, stream } := by
  obtain ⟨stream, hview⟩ := hs.filling acc hacc
  have hi := hs.accepting_inUse hacc
  have hnone := hs.accepting acc hacc
  by_cases hep : (s.socket_table acc.newsock).ep = ep
  · subst hep
    have htold : s.told acc.newsock a = false := by
      rw [told, hnone]
      exact Bool.and_false _
    have harrive := view_arrive hstr hs.toWired hi a
    rw [hview, htold] at harrive
    exact ⟨_, harrive⟩
  · exact ⟨stream, (view_arrive_of_ne hot hs.toWired a hi hep).trans hview⟩

/-- The type of an accepted socket and its listening flag are no business of the notifier. -/
theorem filled_arrive (hot : ot.Lawful) (hstr : ot.Streams) (hs : s.WellFormed) {acc : Accepting}
    (hacc : s.underWay = some (.accepted acc)) (ep : EndpointRef) (a : Arrival) :
    ((s.arrive ep a).view acc.newsock).type = 0 ∧ ((s.arrive ep a).view acc.newsock).listening = false := by
  have hi := hs.accepted_inUse hacc
  obtain ⟨htype, hlistening⟩ := hs.filled acc hacc
  by_cases hep : (s.socket_table acc.newsock).ep = ep
  · subst hep
    rw [view_arrive hstr hs.toWired hi a, View.arrived_type, View.arrived_listening]
    exact ⟨htype, hlistening⟩
  · rw [view_arrive_of_ne hot hs.toWired a hi hep]
    exact ⟨htype, hlistening⟩

/-- The stages of accept follow on each other, and nothing but arrivals comes between. -/
theorem WellFormed.step (hot : ot.Lawful) (hstr : ot.Streams) (hs : s.WellFormed) (a : SocketInput) :
    (s.step a).WellFormed := by
  have hturns := turns_step hot hstr hs.toWired a
  refine ⟨hturns.wired, fun acc hacc => ?_, fun acc hacc => ?_⟩
  · rcases hturns.filling acc hacc with hbefore | hview
    case inr => exact ⟨_, hview⟩
    cases a with
    | call c =>
      rcases step_cases s (.call c) with hrefused | hidle
      · exact hrefused.symm ▸ hs.filling acc hbefore
      · cases hbefore.symm.trans (hidle c rfl)
    | installs =>
      simp only [SocketState.step, hbefore] at hacc
      cases hacc
    | stores =>
      have hsame : s.step .stores = s := by rw [SocketState.step, stores, hbefore]
      exact hsame.symm ▸ hs.filling acc hbefore
    | arrival ep a => exact filling_arrive hot hstr hs hbefore ep a
  · rcases hturns.filled acc hacc with hbefore | ⟨hbefore, rfl⟩
    · cases a with
      | call c =>
        rcases step_cases s (.call c) with hrefused | hidle
        · exact hrefused.symm ▸ hs.filled acc hbefore
        · cases hbefore.symm.trans (hidle c rfl)
      | installs =>
        have hsame : s.step .installs = s := by rw [SocketState.step, hbefore]
        exact hsame.symm ▸ hs.filled acc hbefore
      | stores =>
        simp only [SocketState.step, stores, hbefore] at hacc
        cases hacc
      | arrival ep a => exact filled_arrive hot hstr hs hbefore ep a
    · obtain ⟨stream, hview⟩ := hs.filling acc hbefore
      obtain ⟨-, hafter⟩ := acts_attached hot hstr hs.idle (hs.accepting_inUse hbefore) rfl
      simp only [SocketState.step, hbefore]
      have hafter : (s.acceptInstalls acc).view acc.newsock = _ := hafter
      rw [hafter, show view { s with underWay := none } acc.newsock = _ from hview]
      exact ⟨rfl, rfl⟩

end SocketState

end Posix9
