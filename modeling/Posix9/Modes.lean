import Posix9.Readiness
import Posix9.SocketFrames

/-! The flag and the mode of the endpoint. fcntl makes no call where the flag agrees with what is asked for, so the
    flag of a slot has to be the mode set last on its endpoint, through every creation, change and reuse. -/

namespace Posix9

/-- The mode set last on an endpoint since it was opened: whether it is non-blocking. -/
def modeOf (ep : EndpointRef) : List OTRecord → Option Bool
  | [] => none
  | .call (.OTOpenEndpoint _) r :: log => if r.result = noErr ∧ r.ref = ep then none else modeOf ep log
  | .call (.OTSetBlocking e) _ :: log => if e = ep then some false else modeOf ep log
  | .call (.OTSetNonBlocking e) _ :: log => if e = ep then some true else modeOf ep log
  | .call _ _ :: log => modeOf ep log
  | .event _ _ _ :: log => modeOf ep log

namespace SocketState

open Runs

variable {ot : OpenTransport} {s t : SocketState ot} {i j : SockIdx} {a : SocketInput} {c : OTCall} {r : OTReply}
  {ep : EndpointRef}

/-! ### The law -/

/-- The flag of every slot in use is the mode of its endpoint, but for one that accept has not set it on yet; what
    fcntl is asked for is what the endpoint is then in, and what it reports is what the endpoint is in. -/
structure Mirrors (s : SocketState ot) : Prop where
  modes : ∀ i, (s.socket_table i).inUse = true → (∀ acc ∈ s.accepting, acc.newsock ≠ i) →
    modeOf (s.socket_table i).ep s.log = some (s.socket_table i).nonblocking
  sets : s.accepting = none → ∀ fd i flags, s.get_socket fd = some i →
    modeOf (s.socket_table i).ep (s.fcntl fd F_SETFL flags).2.log = some (has flags O_NONBLOCK)
  reports : s.accepting = none → ∀ fd i flags, s.get_socket fd = some i → (s.fcntl fd F_GETFL flags).1 =
    if modeOf (s.socket_table i).ep s.log = some true then O_NONBLOCK.toInt else 0

/-! ### Calls that set no mode -/

/-- The endpoint whose mode a call sets. -/
def setsOn : OTCall → Option EndpointRef
  | .OTSetBlocking ep | .OTSetNonBlocking ep => some ep
  | _ => none

/-- A call does not set the mode of an endpoint, or open it. -/
def Spares (ep : EndpointRef) : OTCall → OTReply → Prop
  | .OTSetBlocking e, _ | .OTSetNonBlocking e, _ => e ≠ ep
  | .OTOpenEndpoint _, r => r.result = noErr → r.ref ≠ ep
  | _, _ => True

theorem modeOf_spared (h : Spares ep c r) (log : List OTRecord) : modeOf ep (.call c r :: log) = modeOf ep log := by
  cases c with
  | OTSetBlocking | OTSetNonBlocking => exact if_neg h
  | OTOpenEndpoint => exact if_neg fun hopen => h hopen.1 hopen.2
  | _ => rfl

theorem modeOf_made (h : Made (Spares ep) s t) : modeOf ep t.log = modeOf ep s.log := by
  obtain ⟨l, hl, hspares⟩ := h
  rw [hl]
  clear hl
  induction l with
  | nil => rfl
  | cons record l ih =>
    have ih := ih fun c r h => hspares c r (List.mem_cons_of_mem _ h)
    cases record with
    | call c r => exact (modeOf_spared (hspares c r List.mem_cons_self) _).trans ih
    | event => exact ih

/-- Where no mode is set those of the slots in use stay: an endpoint that is opened is none of theirs. -/
theorem spares_of_apart (hj : (s.socket_table j).inUse = true) (hapart : s.Apart c r) (hsets : setsOn c = none) :
    Spares (s.socket_table j).ep c r := by
  cases c with
  | OTSetBlocking | OTSetNonBlocking => cases hsets
  | OTOpenEndpoint => exact fun hres => (hapart hres j hj).symm
  | _ => trivial

/-! ### What the runs keep -/

structure Modal (s : SocketState ot) : Prop where
  owned : s.Owned
  modes : ∀ i, (s.socket_table i).inUse = true → (∀ acc ∈ s.accepting, acc.newsock ≠ i) →
    modeOf (s.socket_table i).ep s.log = some (s.socket_table i).nonblocking
  filling : ∀ acc ∈ s.accepting, (s.socket_table acc.newsock).inUse = true ∧
    (s.socket_table acc.newsock).nonblocking = false

theorem Modal.start (net : ot.State) : (start net).Modal where
  owned := .start net
  modes _ h := by cases h
  filling _ h := by cases h

/-- A stretch that takes no slot and sets no mode. -/
theorem Modal.steady (hs : s.Modal) (ht : t.Owned) (hsteady : Steady (fun j => (s.socket_table j).inUse = false) s t)
    (hmade : Made (fun c r => s.Apart c r ∧ setsOn c = none) s t)
    (hold : ∀ j, (t.socket_table j).inUse = true →
      (s.socket_table j).inUse = true ∧ (t.socket_table j).ep = (s.socket_table j).ep)
    (hfilling : ∀ acc ∈ s.accepting, (t.socket_table acc.newsock).inUse = true) : t.Modal where
  owned := ht
  modes i hi hother := by
    obtain ⟨hi', hep⟩ := hold i hi
    rw [hep, modeOf_made (hmade.mono fun c r hc => spares_of_apart hi' hc.1 hc.2),
      hsteady.nonblocking i (by simp [hi'])]
    exact hs.modes i hi' fun acc hacc => hother acc (hsteady.accepting ▸ hacc)
  filling acc hacc := by
    rw [hsteady.accepting] at hacc
    obtain ⟨hused, hmode⟩ := hs.filling acc hacc
    exact ⟨hfilling acc hacc, (hsteady.nonblocking _ (by simp [hused])).trans hmode⟩

/-- A stretch that keeps the slots. -/
theorem Modal.balanced (hs : s.Modal) (h : Balanced a s t)
    (hsteady : Steady (fun j => (s.socket_table j).inUse = false) s t)
    (hsets : Made (fun c _ => setsOn c = none) s t) : t.Modal := by
  refine hs.steady (h.owned hs.owned) hsteady ((h.made.mono fun c r hc => hc.apart).and hsets) (fun j hj => ?_)
    fun acc hacc => (h.inUse _).trans (hs.filling acc hacc).1
  rw [h.inUse j] at hj
  exact ⟨hj, h.ep j hj⟩

/-- One that gives a slot back. -/
theorem Modal.returns (hs : s.Modal) (hacc : s.accepting = none) (h : Returns a i s t)
    (hsteady : Steady (fun j => (s.socket_table j).inUse = false) s t)
    (hsets : Made (fun c _ => setsOn c = none) s t) : t.Modal := by
  refine hs.steady (h.owned hs.owned) hsteady ((h.made.mono fun c r hc => hc.apart).and hsets) (fun j hj => ?_)
    fun acc h => by rw [hacc] at h; cases h
  have hne : j ≠ i := ne_of_inUse h.free hj
  rw [h.inUse j hne] at hj
  exact ⟨hj, h.ep j hne hj⟩

/-! ### Calls that take a slot -/

/-- What is open already keeps its mode while a slot is taken, if no mode is set before the last record and the last
    record sets none but the new endpoint's. -/
theorem Modal.taken (hs : s.Modal) (h : Takes a i s t) (hacc : s.accepting = none)
    (hmode : ∀ j, j ≠ i → (s.socket_table j).inUse = true →
      modeOf (s.socket_table j).ep t.log = modeOf (s.socket_table j).ep s.log)
    (hflag : ∀ j, (s.socket_table j).inUse = true →
      (t.socket_table j).nonblocking = (s.socket_table j).nonblocking)
    (hj : (t.socket_table j).inUse = true) (hne : j ≠ i) :
    modeOf (t.socket_table j).ep t.log = some (t.socket_table j).nonblocking := by
  rw [h.inUse j hne] at hj
  rw [h.ep j hne hj, hmode j hne hj, hflag j hj]
  exact hs.modes j hj fun acc h => by rw [hacc] at h; cases h

/-- socket fails and sets no mode, or sets that of the endpoint it has opened last of all. -/
theorem openSocket_modes (s : SocketState ot) (i : SockIdx) (config : OTConfigurationRef) (domain type protocol : ℤ) :
    (s.openSocket i config domain type protocol).1 = -1 ∧
        Made (fun c _ => setsOn c = none) s (s.openSocket i config domain type protocol).2 ∨
      ∃ u r, (s.openSocket i config domain type protocol).1 = sockFd i ∧ Made (fun c _ => setsOn c = none) s u ∧
        (s.openSocket i config domain type protocol).2.log =
          .call (.OTSetBlocking ((s.openSocket i config domain type protocol).2.socket_table i).ep) r :: u.log ∧
        ((s.openSocket i config domain type protocol).2.socket_table i).nonblocking =
          (s.socket_table i).nonblocking := by
  have hopen : Made (fun c _ => setsOn c = none) s ((s.callOT (.OTOpenEndpoint config)).2.updateEntry i fun e =>
      { e with ep := (s.callOT (.OTOpenEndpoint config)).1.ref }) := .trans (.call rfl) (.of_log rfl)
  rw [openSocket]
  dsimp only
  generalize ht : ((s.callOT (.OTOpenEndpoint config)).2.updateEntry i fun e =>
    { e with ep := (s.callOT (.OTOpenEndpoint config)).1.ref }) = t at hopen ⊢
  have hep : (t.socket_table i).ep = (s.callOT (.OTOpenEndpoint config)).1.ref := by
    rw [← ht, updateEntry_self]
  have hflag : (t.socket_table i).nonblocking = (s.socket_table i).nonblocking := by
    rw [← ht, updateEntry_self]
    rfl
  rw [← hep]
  have hinstall := hopen.trans (.call (c := .OTInstallNotifier (t.socket_table i).ep i) rfl)
  split
  · exact .inl ⟨rfl, hopen.trans (.of_log rfl)⟩
  split
  · exact .inl ⟨rfl, (hinstall.trans (.call (c := .OTCloseProvider (t.socket_table i).ep) rfl)).trans (.of_log rfl)⟩
  · have hset := hinstall.trans (.call (c := .OTSetSynchronous (t.socket_table i).ep) rfl)
    generalize hv : ((t.callOT (.OTInstallNotifier (t.socket_table i).ep i)).2.callOT
      (.OTSetSynchronous (t.socket_table i).ep)).2 = v at hset ⊢
    have htable : v.socket_table = t.socket_table := by
      rw [← hv]
      rfl
    refine .inr ⟨v, (v.callOT (.OTSetBlocking (t.socket_table i).ep)).1, rfl, hset, ?_, ?_⟩
    · dsimp only
      rw [updateEntry_self, callOT_table, htable]
      rfl
    · dsimp only
      rw [updateEntry_self, callOT_table, htable]
      exact hflag

/-- So does socket; the slot it takes has the flag of a blocking one. -/
theorem socket_modes (s : SocketState ot) (domain type protocol : ℤ) :
    (s.socket domain type protocol).1 = -1 ∧
        Made (fun c _ => setsOn c = none) s (s.socket domain type protocol).2 ∨
      ∃ i u r, (s.socket domain type protocol).1 = sockFd i ∧ Made (fun c _ => setsOn c = none) s u ∧
        (s.socket domain type protocol).2.log =
          .call (.OTSetBlocking ((s.socket domain type protocol).2.socket_table i).ep) r :: u.log ∧
        ((s.socket domain type protocol).2.socket_table i).nonblocking = false := by
  have hopenOT : Made (fun c _ => setsOn c = none) s s.init_open_transport.2 := by
    rw [init_open_transport]
    split
    · exact .refl s
    · have hcall : Made (fun c _ => setsOn c = none) s (s.callOT .InitOpenTransport).2 := .call rfl
      dsimp only
      split
      · exact hcall.trans (.of_log rfl)
      · exact hcall
  have hinit : Made (fun c _ => setsOn c = none) s s.init_open_transport.2.init_socket_table := by
    refine hopenOT.trans (.of_log ?_)
    rw [init_socket_table]
    split <;> rfl
  obtain ⟨e, hsocket⟩ | ⟨e, hsocket⟩ | ⟨i, configStr, -, config, rfl, hend⟩ :=
    s.socket_cases domain type protocol
  · rw [hsocket]
    exact .inl ⟨rfl, hopenOT.trans (.of_log rfl)⟩
  · rw [hsocket]
    exact .inl ⟨rfl, hinit.trans (.of_log rfl)⟩
  have htaken := hinit.trans (.of_log (t := s.init_open_transport.2.init_socket_table.updateEntry i
    fun _ => { SocketEntry.zero with inUse := true }) rfl)
  have hconfig := htaken.trans (.call (c := .OTCreateConfiguration configStr) rfl)
  rcases hend with hsocket | ⟨protocol', hsocket⟩ <;> rw [hsocket]
  · exact .inl ⟨rfl, hconfig.trans (.of_log rfl)⟩
  rcases openSocket_modes _ i _ domain type protocol' with ⟨hres, hmade⟩ | ⟨u, r, hres, hmade, hlog, hflag⟩
  · exact .inl ⟨hres, hconfig.trans hmade⟩
  · refine .inr ⟨i, u, r, hres, hconfig.trans hmade, hlog, hflag.trans ?_⟩
    rw [callOT_table, updateEntry_self]
    rfl

theorem sockFd_ne_fail (i : SockIdx) : sockFd i ≠ -1 := by
  rw [sockFd, SOCKET_FD_BASE]
  omega

theorem socket_modal (hot : ot.Lawful) (hs : s.Modal) (hacc : s.accepting = none) (domain type protocol : ℤ) :
    (s.socket domain type protocol).2.Modal := by
  have hsteady := socket_steady hot hs.owned domain type protocol
  rcases socket_ends hot hs.owned domain type protocol with ⟨hres, hbalanced⟩ | ⟨i, hres, htakes⟩ <;>
    rcases socket_modes s domain type protocol with ⟨hres', hmade⟩ | ⟨k, u, r, hres', hmade, hlog, hflag⟩ <;>
    have hsame := hres.symm.trans hres'
  · exact hs.balanced hbalanced hsteady hmade
  · exact absurd hsame.symm (sockFd_ne_fail k)
  · exact absurd hsame (sockFd_ne_fail i)
  · obtain rfl := sockFd_injective hsame
    have howned := htakes.owned hs.owned
    have hidle := hsteady.accepting.trans hacc
    refine ⟨howned, fun j hj _ => ?_, fun acc h => by rw [hidle] at h; cases h⟩
    rcases eq_or_ne j i with rfl | hne
    · rw [hlog, hflag]
      exact if_pos rfl
    · refine hs.taken htakes hacc (fun k hki hk => ?_) (fun k hk => hsteady.nonblocking k (by simp [hk])) hj hne
      have hother : ((s.socket domain type protocol).2.socket_table i).ep ≠ (s.socket_table k).ep := by
        rw [← htakes.ep k hki hk]
        exact fun hep => hki (howned.distinct i k htakes.taken ((htakes.inUse k hki).trans hk) hep).symm
      have hspared : Made (Spares (s.socket_table k).ep) s u :=
        ((htakes.made.before hmade hlog).and hmade).mono fun c r hc => spares_of_apart hk hc.1.apart hc.2
      rw [hlog]
      exact (if_neg hother).trans (modeOf_made hspared)

/-- accept itself sets no mode. -/
theorem setsOn_of_accept {fd : ℤ} (hc : SocketInput.makes (.call (.accept fd)) c = true) : setsOn c = none := by
  cases c <;> first
    | rfl
    | cases hc

theorem accept_modal (hot : ot.Lawful) (hs : s.Modal) (hacc : s.accepting = none) (fd : ℤ) :
    (s.after (s.accept fd)).Modal := by
  rcases haccept : s.accept fd with _ | res
  · exact hs
  change res.2.Modal
  rcases accept_ends hot hs.owned haccept with ⟨hres, hbalanced⟩ | ⟨i, hres, htakes⟩ <;>
    rcases accept_steady hot hs.owned haccept with ⟨hres', hsteady⟩ | ⟨u, acc, hu, hsteady, hres', hfree, hused, hmode⟩ <;>
    have hsame := hres.symm.trans hres'
  · exact hs.balanced hbalanced hsteady (hbalanced.made.mono fun c r hc => setsOn_of_accept hc.makes)
  · cases hsame
  · cases hsame
  · have htable : res.2.socket_table = u.socket_table := by rw [hu]
    have hnew : acc.newsock = i := by
      by_contra hne
      rw [← htable, htakes.inUse _ hne, hfree] at hused
      cases hused
    have hfilling : res.2.accepting = some acc := accepting_eq_some.mpr (by rw [hu])
    refine ⟨htakes.owned hs.owned, fun j hj hother => ?_, fun acc' hacc' => ?_⟩
    · have hne : j ≠ i := fun hji => hother acc hfilling (hnew.trans hji.symm)
      refine hs.taken htakes hacc (fun k _ hk => ?_) (fun k hk => ?_) hj hne
      · exact modeOf_made (htakes.made.mono fun c r hc => spares_of_apart hk hc.apart (setsOn_of_accept hc.makes))
      · rw [htable]
        exact hsteady.nonblocking k (by simp [hk])
    · obtain rfl := Option.some.inj (hfilling.symm.trans hacc')
      rw [htable]
      exact ⟨hused, hmode⟩

/-! ### Calls that set a mode -/

theorem acceptInstalls_modal (hs : s.Modal) {acc : Accepting} (hacc : s.accepting = some acc)
    (ht : (s.acceptInstalls acc).Owned) (hslots : SameSlots s (s.acceptInstalls acc)) :
    (s.acceptInstalls acc).Modal := by
  obtain ⟨hused, hflag⟩ := hs.filling acc hacc
  refine ⟨ht, fun j hj _ => ?_, fun acc' h => by cases h⟩
  rw [hslots.inUse j] at hj
  rw [hslots.ep j hj, acceptInstalls_steady s acc j]
  rcases eq_or_ne j acc.newsock with rfl | hne
  · rw [hflag]
    exact if_pos rfl
  · have hother : (s.socket_table acc.newsock).ep ≠ (s.socket_table j).ep :=
      fun hep => hne (hs.owned.distinct _ j hused hj hep).symm
    refine (if_neg hother).trans (hs.modes j hj fun acc' hacc' => ?_)
    obtain rfl := Option.some.inj (hacc.symm.trans hacc')
    exact hne.symm

/-- No mode is among what is stored. -/
theorem stores_modal (hs : s.Modal) (ht : s.stores.Owned) : s.stores.Modal := by
  rcases stores_cases s with hstores | ⟨hnone, i, f, hstores, -⟩
  · exact hstores.symm ▸ hs
  have hslots : SameSlots s s.stores := (stores_keeps (P := fun _ _ => True) s).toSameSlots
  have hlog : s.stores.log = s.log := by rw [hstores]; rfl
  have hidle : s.stores.accepting = none := by rw [hstores]; rfl
  refine ⟨ht, fun j hj _ => ?_, fun acc h => by rw [hidle] at h; cases h⟩
  rw [hslots.inUse j] at hj
  rw [hslots.ep j hj, hlog, stores_steady s j]
  exact hs.modes j hj fun acc hacc => absurd (accepting_eq_some.mp hacc) (hnone acc)

/-- What is asked of the endpoint is noted. -/
theorem setNonblocking_modal (hot : ot.Lawful) (hs : s.Modal) (hacc : s.accepting = none)
    (hi : (s.socket_table i).inUse = true) (nonblocking : Bool) : (s.setNonblocking i nonblocking).Modal := by
  have hkeeps : Keeps (Allowed (.call (.ioctl 0 FIONBIO none))) s (s.setNonblocking i nonblocking) :=
    setNonblocking_keeps hot s i nonblocking (fun _ _ => rfl) fun _ _ => rfl
  have ht := (hkeeps.balanced (plain_of_makes rfl)).owned hs.owned
  have hlog : ∀ ep, modeOf ep (s.setNonblocking i nonblocking).log =
      if (s.socket_table i).ep = ep then some nonblocking else modeOf ep s.log := by
    intro ep
    cases nonblocking <;> rfl
  have hself : (s.setNonblocking i nonblocking).socket_table i = { s.socket_table i with nonblocking } := by
    rw [setNonblocking]
    exact updateEntry_self _ i _
  have hother : ∀ j, j ≠ i → (s.setNonblocking i nonblocking).socket_table j = s.socket_table j := by
    intro j hne
    rw [setNonblocking]
    exact updateEntry_of_ne _ _ hne
  have hidle : (s.setNonblocking i nonblocking).accepting = none := hacc
  refine ⟨ht, fun j hj _ => ?_, fun acc h => by rw [hidle] at h; cases h⟩
  rcases eq_or_ne j i with rfl | hne
  · rw [hlog, hself]
    exact if_pos rfl
  · rw [hother j hne] at hj ⊢
    rw [hlog, if_neg fun hep => hne (hs.owned.distinct i j hi hj hep).symm]
    exact hs.modes j hj fun acc h => by rw [hacc] at h; cases h

theorem Modal.setErrno (hs : s.Modal) (e : ℤ) : (s.setErrno e).Modal :=
  ⟨⟨⟨hs.owned.ledger, hs.owned.distinct, hs.owned.isOpen⟩, hs.owned.initialized, hs.owned.valid⟩, hs.modes, hs.filling⟩

theorem fcntl_modal (hot : ot.Lawful) (hs : s.Modal) (hacc : s.accepting = none) (fd cmd : ℤ) (flags : BitVec 32) :
    (s.fcntl fd cmd flags).2.Modal := by
  rw [fcntl]
  rcases hget : s.get_socket fd with _ | i
  · exact hs.setErrno EBADF
  have hi := get_socket_inUse hget
  dsimp only
  split
  · exact hs
  split
  · dsimp only
    split
    · exact hs
    · exact setNonblocking_modal hot hs hacc hi _
  split
  · exact hs
  · exact hs.setErrno EINVAL

theorem ioctl_modal (hot : ot.Lawful) (hs : s.Modal) (hacc : s.accepting = none) (fd request : ℤ) (val : Option ℤ) :
    (s.ioctl fd request val).2.Modal := by
  rw [ioctl]
  rcases hget : s.get_socket fd with _ | i
  · exact hs.setErrno EBADF
  have hi := get_socket_inUse hget
  dsimp only
  split
  · exact setNonblocking_modal hot hs hacc hi _
  repeat' split
  all_goals first
    | exact hs
    | exact hs.setErrno EINVAL

/-! ### Steps -/

/-- The inputs that set no mode. -/
theorem setsOn_of_makes {d : SocketCall} (hd : setsMode d = false) (hc : d.makes c = true) : setsOn c = none := by
  cases d <;> cases c <;> first
    | rfl
    | cases hd; done
    | cases hc

/-- A slot is taken only by a step that opens an endpoint. -/
theorem Takes.opens (hs : s.Owned) (h : Takes a i s t) : ¬ Made (fun c _ => plain c = true) s t := by
  intro hplain
  have hledger := h.ledger (t.socket_table i).ep
  rw [if_pos rfl, ledgerOf_made hplain, hs.ledger] at hledger
  obtain ⟨j, hj, hep⟩ := of_decide_eq_true (Option.some.inj hledger)
  exact hs.ne_of_shut h.shut hj hep

theorem plainCall_modal (hot : ot.Lawful) (hs : s.Modal) (hidle : s.underWay = none) {d : SocketCall}
    (hd : setsMode d = false) (howns : owns (.call d) = false) : (s.stepCall d).Modal := by
  have hacc := accepting_of_idle hidle
  have hsteady : Steady (fun j => (s.socket_table j).inUse = false) s (s.stepCall d) := stepCall_steady hidle hd
  rcases call_ends hot hs.owned d with h | ⟨i, -, h | h⟩
  · exact hs.balanced h hsteady (h.made.mono fun c r hc => setsOn_of_makes hd hc.makes)
  · exact absurd (h.made.mono fun c r hc => plain_of_makes howns c hc.makes) (h.opens hs.owned)
  · exact hs.returns hacc h hsteady (h.made.mono fun c r hc => setsOn_of_makes hd hc.makes)

theorem stepCall_modal (hot : ot.Lawful) (hs : s.Modal) (hidle : s.underWay = none) (d : SocketCall) :
    (s.stepCall d).Modal := by
  have hacc := accepting_of_idle hidle
  cases d with
  | socket domain type protocol => exact socket_modal hot hs hacc domain type protocol
  | accept fd => exact accept_modal hot hs hacc fd
  | fcntl fd cmd flags => exact fcntl_modal hot hs hacc fd cmd flags
  | ioctl fd request val => exact ioctl_modal hot hs hacc fd request val
  | close fd =>
    rcases close_ends hot hs.owned fd with ⟨-, hbalanced⟩ | ⟨i, -, -, hreturns⟩
    · exact hs.balanced hbalanced (close_steady s fd)
        (hbalanced.made.mono fun c r hc => setsOn_of_makes (d := .close fd) rfl hc.makes)
    · exact hs.returns hacc hreturns (close_steady s fd)
        (hreturns.made.mono fun c r hc => setsOn_of_makes (d := .close fd) rfl hc.makes)
  | _ => exact plainCall_modal hot hs hidle rfl rfl

theorem Modal.step (hot : ot.Lawful) (hs : s.Modal) (a : SocketInput) : (s.step a).Modal := by
  have howned := hs.owned.step hot a
  cases a with
  | call d =>
    rw [SocketState.step]
    split
    · exact hs
    · rename_i hidle
      exact stepCall_modal hot hs (Option.not_isSome_iff_eq_none.mp hidle) d
  | installs =>
    rw [SocketState.step] at howned ⊢
    split at howned
    · rename_i acc hw
      exact acceptInstalls_modal hs (accepting_eq_some.mpr hw) howned (acceptInstalls_keeps hot s acc).toSameSlots
    · exact hs
  | stores => exact stores_modal hs howned
  | arrival ep a =>
    have hkeeps := arrive_keeps_slots (P := Allowed (.arrival ep a)) hot s ep a
    refine hs.balanced (hkeeps.balanced (plain_of_makes rfl)) (arrive_steady s ep a) ?_
    exact hkeeps.made.mono fun c r hc => by cases hc

theorem Modal.mirrors (hs : s.Modal) : s.Mirrors := by
  have hmode : s.accepting = none → ∀ fd i, s.get_socket fd = some i →
      modeOf (s.socket_table i).ep s.log = some (s.socket_table i).nonblocking := by
    intro hacc fd i hget
    exact hs.modes i (get_socket_inUse hget) fun acc h => by rw [hacc] at h; cases h
  refine ⟨hs.modes, fun hacc fd i flags hget => ?_, fun hacc fd i flags hget => ?_⟩
  · rw [fcntl, hget]
    dsimp only
    rw [if_neg (by decide), if_pos rfl]
    dsimp only
    split
    · rename_i hagrees
      rw [hagrees]
      exact hmode hacc fd i hget
    · rw [setNonblocking]
      cases has flags O_NONBLOCK <;> exact if_pos rfl
  · rw [fcntl, hget, hmode hacc fd i hget]
    dsimp only
    rw [if_pos rfl]
    simp

/-- In every state of every run the flags mirror the modes of the endpoints. -/
theorem modes_mirrored (hot : ot.Lawful) (net : ot.State) (inputs : List SocketInput) :
    Always step Mirrors (start net) inputs :=
  (always_of_step (fun _ a hs => hs.step hot a) (Modal.start net) inputs).mono fun _ hs => hs.mirrors

/-- A socket made non-blocking, closed, and its slot taken again. -/
theorem modes_mirrored_reused : Always step Mirrors (@start wire Wire.idle)
    [.call (.socket AF_INET SOCK_STREAM 0), .call (.fcntl 1000 F_SETFL O_NONBLOCK), .call (.ioctl 1000 FIONBIO (some 1)),
      .call (.close 1000), .call (.socket AF_INET SOCK_STREAM 0), .call (.fcntl 1000 F_SETFL 0)] :=
  modes_mirrored wire_lawful _ _

end SocketState

end Posix9
