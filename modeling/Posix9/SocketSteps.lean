import Posix9.SocketView

/-! What a stretch of a call leaves alone: every socket, every socket but one, or every socket while a slot is
    taken or given back. The stretches of one call are put together. -/

namespace Posix9.SocketState

variable {ot : OpenTransport} {s t u : SocketState ot} {i j : SockIdx} {c : OTCall}
  {f : SocketEntry → SocketEntry}

/-! ### What a call leaves alone -/

/-- All sockets are as before. -/
structure Unchanged (s t : SocketState ot) : Prop where
  wired : t.Wired
  underWay : t.underWay = s.underWay
  inUse : ∀ j, (t.socket_table j).inUse = (s.socket_table j).inUse
  view : ∀ j, (s.socket_table j).inUse = true → t.view j = s.view j

/-- All sockets but `i` are as before, and `i` is in use if it was. -/
structure Acts (i : SockIdx) (s t : SocketState ot) : Prop where
  wired : t.Wired
  underWay : t.underWay = s.underWay
  inUse : ∀ j, (t.socket_table j).inUse = (s.socket_table j).inUse
  view : ∀ j, j ≠ i → (s.socket_table j).inUse = true → t.view j = s.view j

theorem Unchanged.refl (hs : s.Wired) : Unchanged s s := ⟨hs, rfl, fun _ => rfl, fun _ _ => rfl⟩

theorem Unchanged.trans (hst : Unchanged s t) (htu : Unchanged t u) : Unchanged s u where
  wired := htu.wired
  underWay := htu.underWay.trans hst.underWay
  inUse j := (htu.inUse j).trans (hst.inUse j)
  view j hj := (htu.view j ((hst.inUse j).trans hj)).trans (hst.view j hj)

theorem Acts.trans (hst : Acts i s t) (htu : Acts i t u) : Acts i s u where
  wired := htu.wired
  underWay := htu.underWay.trans hst.underWay
  inUse j := (htu.inUse j).trans (hst.inUse j)
  view j hne hj := (htu.view j hne ((hst.inUse j).trans hj)).trans (hst.view j hne hj)

theorem Unchanged.acts (h : Unchanged s t) (i : SockIdx) : Acts i s t where
  wired := h.wired
  underWay := h.underWay
  inUse := h.inUse
  view j _ := h.view j

theorem Unchanged.setErrno (hst : Unchanged s t) (e : ℤ) : Unchanged s (t.setErrno e) where
  wired := hst.wired.setErrno e
  underWay := hst.underWay
  inUse := hst.inUse
  view := hst.view

theorem Acts.setErrno (hst : Acts i s t) (e : ℤ) : Acts i s (t.setErrno e) where
  wired := hst.wired.setErrno e
  underWay := hst.underWay
  inUse := hst.inUse
  view := hst.view

theorem unchanged_callOT (hot : ot.Lawful) (hstr : ot.Streams) (hs : s.Wired) (hc : c.silent = true)
    (hkeeps : ∀ e, c.keeps e = true) : Unchanged s (s.callOT c).2 where
  wired := hs.callOT_silent hot hc
  underWay := rfl
  inUse _ := rfl
  view _ _ := view_callOT hstr hc (hkeeps _)

/-- A call on the endpoint of a slot. -/
theorem acts_callOT (hot : ot.Lawful) (hs : s.Wired) (hi : (s.socket_table i).inUse = true)
    (hnames : c.names = [(s.socket_table i).ep]) (hclose : ∀ e, c ≠ .OTCloseProvider e)
    (hinstall : ∀ e k, c ≠ .OTInstallNotifier e k) : Acts i s (s.callOT c).2 := by
  have hopen : ∀ config, c ≠ .OTOpenEndpoint config := by
    rintro config rfl
    cases hnames
  refine ⟨hs.callOT hot hopen hclose hinstall, rfl, fun _ => rfl, fun j hne hj => ?_⟩
  refine view_callOT_of_not_mem hot hopen ?_
  rw [hnames, List.mem_singleton]
  exact fun hep => hne (hs.distinct j i hj hi hep)

theorem acts_updateEntry (hs : s.Wired) (hf : (f (s.socket_table i)).inUse = (s.socket_table i).inUse ∧
    (f (s.socket_table i)).ep = (s.socket_table i).ep) : Acts i s (s.updateEntry i f) where
  wired := hs.updateEntry i hf
  underWay := rfl
  inUse j := by
    rcases eq_or_ne j i with rfl | hne
    · rw [updateEntry_self, hf.1]
    · rw [updateEntry_of_ne s f hne]
  view j hne _ := view_updateEntry_of_ne f hne

/-- An entry changes in a field no view shows. -/
theorem unchanged_updateEntry (hs : s.Wired)
    (hf : (f (s.socket_table i)).inUse = (s.socket_table i).inUse ∧
      (f (s.socket_table i)).ep = (s.socket_table i).ep)
    (hview : (s.updateEntry i f).view i = s.view i) : Unchanged s (s.updateEntry i f) where
  wired := hs.updateEntry i hf
  underWay := rfl
  inUse := (acts_updateEntry hs hf).inUse
  view j hj := by
    rcases eq_or_ne j i with rfl | hne
    · exact hview
    · exact view_updateEntry_of_ne f hne

/-- The entry of a slot that is free and stays so changes. -/
theorem unchanged_updateEntry_free (hs : s.Wired) (hfree : (s.socket_table i).inUse = false)
    (hf : (f (s.socket_table i)).inUse = false) : Unchanged s (s.updateEntry i f) := by
  have hinUse : ∀ j, ((s.updateEntry i f).socket_table j).inUse = (s.socket_table j).inUse := by
    intro j
    rcases eq_or_ne j i with rfl | hne
    · rw [updateEntry_self, hf, hfree]
    · rw [updateEntry_of_ne s f hne]
  refine ⟨hs.transfer (fun j => ⟨hinUse j, fun hj => ?_⟩) id (fun _ _ => rfl) (fun _ _ h => h) rfl, rfl, hinUse,
    fun j hj => view_updateEntry_of_ne f (ne_of_inUse hfree hj)⟩
  rw [updateEntry_of_ne s f (ne_of_inUse hfree hj)]

/-! ### Slots taken and given back -/

/-- What OTInstallNotifier does to the slot it installs the notifier for. -/
theorem acts_install (hot : ot.Lawful) (hs : s.Wired) (hi : (s.socket_table i).inUse = true)
    (hidle : s.underWay = none) : Acts i s (s.callOT (.OTInstallNotifier (s.socket_table i).ep i)).2 where
  wired := by
    refine ⟨hs.initialized, hs.distinct, fun k hk => ?_, fun e k h => ?_, hs.underWay, fun a ha => ?_⟩
    · refine ⟨(hs.valid k hk).1, ?_⟩
      rw [callOT_net, callOT_table, isOpen_call hot (by simp) s.net (by simp)]
      exact (hs.valid k hk).2
    · have hcases : s.notifiers e = some k ∨ (s.socket_table i).ep = e ∧ i = k := by
        simp only [callOT, notifiersAfter] at h
        split at h
        · rcases eq_or_ne e (s.socket_table i).ep with rfl | hne
          · rw [Function.update_self] at h
            exact .inr ⟨rfl, Option.some.inj h⟩
          · rw [Function.update_of_ne hne] at h
            exact .inl h
        · exact .inl h
      rcases hcases with hold | ⟨hep, rfl⟩
      · exact hs.installed e k hold
      · exact ⟨hi, hep⟩
    · rw [callOT_underWay, hidle] at ha
      cases ha
  underWay := rfl
  inUse _ := rfl
  view j hne hj := by
    refine view_callOT_of_not_mem hot (by simp) ?_
    simpa [OTCall.names] using fun hep => hne (hs.distinct j i hj hi hep)

/-- OTCloseProvider on the endpoint of a slot, and the slot given back. -/
structure GivesBack (i : SockIdx) (s t : SocketState ot) : Prop where
  wired : t.Wired
  underWay : t.underWay = s.underWay
  free : (t.socket_table i).inUse = false
  inUse : ∀ j, j ≠ i → (t.socket_table j).inUse = (s.socket_table j).inUse
  view : ∀ j, j ≠ i → (s.socket_table j).inUse = true → t.view j = s.view j

theorem free_socket_of_ne (h : j ≠ i) : (s.free_socket i).socket_table j = s.socket_table j :=
  updateEntry_of_ne s _ h

theorem free_socket_inUse : ((s.free_socket i).socket_table i).inUse = false := by
  rw [free_socket, updateEntry_self]

theorem givesBack_close (hot : ot.Lawful) (hs : s.Wired) (hi : (s.socket_table i).inUse = true)
    (hidle : s.underWay = none) :
    GivesBack i s ((s.callOT (.OTCloseProvider (s.socket_table i).ep)).2.free_socket i) := by
  have hothers : ∀ j, j ≠ i → (s.socket_table j).inUse = true → (s.socket_table j).ep ≠ (s.socket_table i).ep :=
    fun j hne hj hep => hne (hs.distinct j i hj hi hep)
  have htable : ∀ j, j ≠ i →
      ((s.callOT (.OTCloseProvider (s.socket_table i).ep)).2.free_socket i).socket_table j = s.socket_table j :=
    fun j hne => free_socket_of_ne hne
  have hused : ∀ j, (((s.callOT (.OTCloseProvider (s.socket_table i).ep)).2.free_socket i).socket_table j).inUse =
      true → j ≠ i ∧ (s.socket_table j).inUse = true := by
    intro j hj
    have hne : j ≠ i := ne_of_inUse free_socket_inUse hj
    exact ⟨hne, htable j hne ▸ hj⟩
  refine ⟨⟨fun j hj => ?_, fun j k hj hk hep => ?_, fun j hj => ?_, fun e j h => ?_, fun w hw => ?_, fun a ha => ?_⟩,
    rfl, free_socket_inUse, fun j hne => by rw [htable j hne], fun j hne hj => ?_⟩
  · exact hs.initialized j (hused j hj).2
  · obtain ⟨hji, hj'⟩ := hused j hj
    obtain ⟨hki, hk'⟩ := hused k hk
    rw [htable j hji, htable k hki] at hep
    exact hs.distinct j k hj' hk' hep
  · obtain ⟨hji, hj'⟩ := hused j hj
    rw [htable j hji]
    refine ⟨(hs.valid j hj').1, ?_⟩
    change (ot.endpoint (ot.call _ s.net).2 _).isOpen = true
    rw [hot.frame _ s.net _ (by simpa [OTCall.names] using hothers j hji hj') (by simp)]
    exact (hs.valid j hj').2
  · have hne : e ≠ (s.socket_table i).ep := by
      rintro rfl
      change Function.update s.notifiers _ none _ = some j at h
      rw [Function.update_self] at h
      cases h
    have hold : s.notifiers e = some j := by
      change Function.update s.notifiers _ none _ = some j at h
      rwa [Function.update_of_ne hne] at h
    obtain ⟨hj, hep⟩ := hs.installed e j hold
    have hji : j ≠ i := by
      rintro rfl
      exact hne hep.symm
    rw [htable j hji]
    exact ⟨hj, hep⟩
  · change s.underWay = some w at hw
    rw [hidle] at hw
    cases hw
  · change s.underWay = some (.accepting a) at ha
    rw [hidle] at ha
    cases ha
  · rw [free_socket, view_updateEntry_of_ne _ hne]
    exact view_callOT_of_not_mem hot (by simp) (by simpa [OTCall.names] using hothers j hne hj)

theorem initialized_init : s.init_socket_table.socket_table_initialized = true := by
  rw [init_socket_table]
  split
  · assumption
  · rfl

/-- In a table that has not been initialised no slot is in use. -/
theorem unchanged_init (hs : s.Wired) : Unchanged s s.init_socket_table := by
  by_cases hinit : s.socket_table_initialized = true
  · rw [init_socket_table, if_pos hinit]
    exact .refl hs
  have hunused : ∀ i, (s.socket_table i).inUse = false := fun i =>
    Bool.eq_false_iff.mpr fun hi => hinit (hs.initialized i hi)
  rw [init_socket_table, if_neg hinit]
  refine ⟨hs.transfer (fun i => ⟨(hunused i).symm, fun hi => ?_⟩) (fun _ => rfl) (fun _ _ => rfl)
    (fun _ _ h => h) rfl, rfl, fun i => (hunused i).symm, fun i hi => ?_⟩
  all_goals exact absurd ((hunused i).symm.trans hi) (by simp)

theorem alloc_cases (s : SocketState ot) :
    s.alloc_socket = (none, s.init_socket_table.setErrno EMFILE) ∨
      ∃ i, (s.init_socket_table.socket_table i).inUse = false ∧ s.alloc_socket =
        (some i, s.init_socket_table.updateEntry i fun _ => { SocketEntry.zero with inUse := true }) := by
  rw [alloc_socket]
  dsimp only
  rcases hfind : (List.finRange MAX_SOCKETS).find? fun i => !(s.init_socket_table.socket_table i).inUse with _ | i
  · exact .inl rfl
  · exact .inr ⟨i, by simpa using List.find?_some hfind, rfl⟩

/-- socket up to OTOpenEndpoint: it gives up before it has a slot, or gives the slot back, or goes on. -/
theorem socket_cases (s : SocketState ot) (domain type protocol : ℤ) :
    (∃ e, s.socket domain type protocol = (-1, s.init_open_transport.2.setErrno e)) ∨
      (∃ e, s.socket domain type protocol = (-1, s.init_open_transport.2.init_socket_table.setErrno e)) ∨
      ∃ i configStr, (s.init_open_transport.2.init_socket_table.socket_table i).inUse = false ∧ ∃ config,
        config = (s.init_open_transport.2.init_socket_table.updateEntry i fun _ =>
          { SocketEntry.zero with inUse := true }).callOT (.OTCreateConfiguration configStr) ∧
        (s.socket domain type protocol = (-1, (config.2.free_socket i).setErrno EPROTONOSUPPORT) ∨
          ∃ protocol', s.socket domain type protocol = config.2.openSocket i config.1.ref domain type protocol') := by
  rw [socket]
  rcases s.init_open_transport with ⟨err, s₁⟩
  dsimp only
  split
  · exact .inl ⟨_, rfl⟩
  split
  · exact .inl ⟨_, rfl⟩
  rcases configuration type protocol with _ | ⟨configStr, protocol'⟩
  · exact .inl ⟨_, rfl⟩
  dsimp only
  rcases alloc_cases s₁ with halloc | ⟨i, hfree, halloc⟩ <;> rw [halloc]
  · exact .inr (.inl ⟨_, rfl⟩)
  refine .inr (.inr ⟨i, configStr, hfree, _, rfl, ?_⟩)
  dsimp only
  split
  · exact .inl rfl
  · exact .inr ⟨protocol', rfl⟩

/-- accept up to OTOpenEndpoint: it fails before OTListen or in it, or it has an indication, which it rejects where
    there is no slot. -/
theorem accept_cases {fd : ℤ} {res : Option ℤ × SocketState ot} (haccept : s.accept fd = some res) :
    (∃ e, res = (some (-1), s.setErrno e)) ∨
      ∃ i listened, s.get_socket fd = some i ∧ listened = s.callOT (.OTListen (s.socket_table i).ep) ∧
        ((listened.1.result ≠ noErr ∧ ∃ e, res = (some (-1), listened.2.setErrno e)) ∨
          listened.1.result = noErr ∧
            (res = (some (-1), ((listened.2.init_socket_table.setErrno EMFILE).callOT
                (.OTSndDisconnect (s.socket_table i).ep (some listened.1.call))).2) ∨
              ∃ j, (listened.2.init_socket_table.socket_table j).inUse = false ∧ res =
                (listened.2.init_socket_table.updateEntry j fun _ =>
                  { SocketEntry.zero with inUse := true }).openAccepted i j listened.1.call)) := by
  rw [accept] at haccept
  rcases hget : s.get_socket fd with _ | i <;> rw [hget] at haccept
  · exact .inl ⟨_, (Option.some.inj haccept).symm⟩
  dsimp only at haccept
  split at haccept
  · exact .inl ⟨_, (Option.some.inj haccept).symm⟩
  split at haccept
  · cases haccept
  refine .inr ⟨i, _, rfl, rfl, ?_⟩
  split at haccept
  case isTrue hres => exact .inl ⟨hres, _, (Option.some.inj haccept).symm⟩
  case isFalse hres =>
    refine .inr ⟨not_not.mp hres, ?_⟩
    rcases alloc_cases (s.callOT (.OTListen (s.socket_table i).ep)).2 with halloc | ⟨j, hfree, halloc⟩ <;>
      rw [halloc] at haccept
    · exact .inl (Option.some.inj haccept).symm
    · exact .inr ⟨j, hfree, (Option.some.inj haccept).symm⟩

/-- A slot that was free is taken, and the others are as before. -/
structure Fills (i : SockIdx) (s t : SocketState ot) : Prop where
  wired : t.Wired
  underWay : t.underWay = s.underWay
  free : (s.socket_table i).inUse = false
  taken : (t.socket_table i).inUse = true
  inUse : ∀ j, j ≠ i → (t.socket_table j).inUse = (s.socket_table j).inUse
  view : ∀ j, j ≠ i → (s.socket_table j).inUse = true → t.view j = s.view j

/-- A free slot marked as in use, with what OTOpenEndpoint returns as its endpoint. -/
def opened (s : SocketState ot) (i : SockIdx) (config : OTConfigurationRef) : SocketState ot :=
  ((s.updateEntry i fun _ => { SocketEntry.zero with inUse := true }).callOT (.OTOpenEndpoint config)).2.updateEntry
    i fun e => { e with ep := (ot.call (.OTOpenEndpoint config) s.net).1.ref }

theorem opened_of_ne (config : OTConfigurationRef) (h : j ≠ i) :
    (s.opened i config).socket_table j = s.socket_table j := by
  rw [opened, updateEntry_of_ne _ _ h, callOT_table, updateEntry_of_ne s _ h]

@[simp] theorem opened_self (s : SocketState ot) (i : SockIdx) (config : OTConfigurationRef) :
    (s.opened i config).socket_table i = { SocketEntry.zero with
      inUse := true, ep := (ot.call (.OTOpenEndpoint config) s.net).1.ref } := by
  rw [opened, updateEntry_self, callOT_table, updateEntry_self]

theorem view_opened_of_ne (hot : ot.Lawful) (hs : s.Wired) (config : OTConfigurationRef) (h : j ≠ i)
    (hj : (s.socket_table j).inUse = true) : (s.opened i config).view j = s.view j := by
  rw [opened, view_updateEntry_of_ne _ h, view_callOT_open hot config, view_updateEntry_of_ne _ h]
  rw [updateEntry_of_ne s _ h]
  exact (hs.valid j hj).2

theorem isOpen_opened (hot : ot.Lawful) (config : OTConfigurationRef) {e : EndpointRef}
    (h : (ot.endpoint s.net e).isOpen = true) :
    (ot.endpoint (ot.call (.OTOpenEndpoint config) s.net).2 e).isOpen = true := by
  by_cases hres : (ot.call (.OTOpenEndpoint config) s.net).1.result = noErr
  · obtain ⟨-, hshut, -, hothers⟩ := hot.opened config s.net hres
    rw [hothers e (by rintro rfl; rw [h] at hshut; cases hshut)]
    exact h
  · rw [hot.open_failed config s.net hres]
    exact h

theorem fills_opened (hot : ot.Lawful) (hs : s.Wired) (hinit : s.socket_table_initialized = true)
    (hfree : (s.socket_table i).inUse = false) {config : OTConfigurationRef}
    (hres : (ot.call (.OTOpenEndpoint config) s.net).1.result = noErr) :
    Fills i s (s.opened i config) ∧ (s.opened i config).view i = View.fresh ∧
      (s.opened i config).notifiers ((s.opened i config).socket_table i).ep = none := by
  obtain ⟨hvalid, hshut, hnew, hothers⟩ := hot.opened config s.net hres
  have hnone : s.notifiers (ot.call (.OTOpenEndpoint config) s.net).1.ref = none := by
    rcases h : s.notifiers (ot.call (.OTOpenEndpoint config) s.net).1.ref with _ | k
    · rfl
    · obtain ⟨hk, hep⟩ := hs.installed _ k h
      rw [← hep, (hs.valid k hk).2] at hshut
      cases hshut
  have hdistinct : ∀ j, (s.socket_table j).inUse = true →
      (s.socket_table j).ep ≠ (ot.call (.OTOpenEndpoint config) s.net).1.ref := by
    intro j hj hep
    rw [← hep, (hs.valid j hj).2] at hshut
    cases hshut
  have hslot : ∀ j, ((s.opened i config).socket_table j).inUse = true →
      j = i ∨ j ≠ i ∧ (s.socket_table j).inUse = true := by
    intro j hj
    rcases eq_or_ne j i with rfl | hji
    · exact .inl rfl
    · exact .inr ⟨hji, opened_of_ne config hji ▸ hj⟩
  refine ⟨⟨⟨fun j _ => hinit, fun j k hj hk hep => ?_, fun j hj => ?_, fun e j h => ?_, fun w hw => ?_, fun a ha => ?_⟩,
    rfl, hfree, by rw [opened_self], fun j hji => by rw [opened_of_ne config hji],
    fun j hji hj => view_opened_of_ne hot hs config hji hj⟩, ?_, ?_⟩
  · rcases hslot j hj with rfl | ⟨hji, hj'⟩ <;> rcases hslot k hk with rfl | ⟨hki, hk'⟩
    · rfl
    · rw [opened_self, opened_of_ne config hki] at hep
      exact absurd hep.symm (hdistinct k hk')
    · rw [opened_self, opened_of_ne config hji] at hep
      exact absurd hep (hdistinct j hj')
    · rw [opened_of_ne config hji, opened_of_ne config hki] at hep
      exact hs.distinct j k hj' hk' hep
  · rcases hslot j hj with rfl | ⟨hji, hj'⟩
    · rw [opened_self]
      refine ⟨hvalid, ?_⟩
      change (ot.endpoint (ot.call _ s.net).2 _).isOpen = true
      rw [hnew]
      rfl
    · rw [opened_of_ne config hji]
      exact ⟨(hs.valid j hj').1, isOpen_opened hot config (hs.valid j hj').2⟩
  · obtain ⟨hj, hep⟩ := hs.installed e j h
    rw [opened_of_ne config (ne_of_inUse hfree hj)]
    exact ⟨hj, hep⟩
  · have hj := hs.underWay w hw
    rw [opened_of_ne config (ne_of_inUse hfree hj)]
    exact hj
  · rw [opened_of_ne config (ne_of_inUse hfree (hs.accepting_inUse ha))]
    exact hs.accepting a ha
  · simp only [view, opened_self]
    change View.mk 0 false false false false (ot.endpoint (ot.call _ s.net).2 _).toStream
      (ot.endpoint (ot.call _ s.net).2 _).listens (s.notifiers _ == some i)
      (queueOf _ (.call _ _ :: s.log)) (linkedIn _ (.call _ _ :: s.log)) = View.fresh
    rw [hnew, hnone, queueOf, linkedIn, if_pos ⟨rfl, hres⟩, if_pos ⟨rfl, hres⟩]
    rfl
  · rw [opened_self]
    exact hnone

/-- OTOpenEndpoint where it fails. -/
theorem unchanged_callOT_open (hot : ot.Lawful) (hs : s.Wired) {config : OTConfigurationRef}
    (hres : (ot.call (.OTOpenEndpoint config) s.net).1.result ≠ noErr) :
    Unchanged s (s.callOT (.OTOpenEndpoint config)).2 where
  wired := by
    refine hs.transfer (fun _ => ⟨rfl, fun _ => rfl⟩) id (fun j _ => ?_) (fun _ _ h => h) rfl
    rw [callOT_net, hot.open_failed config s.net hres]
  underWay := rfl
  inUse _ := rfl
  view j hj := view_callOT_open hot config (hs.valid j hj).2

theorem unchanged_open_failed (hot : ot.Lawful) (hs : s.Wired) (hfree : (s.socket_table i).inUse = false)
    {config : OTConfigurationRef} (hres : (ot.call (.OTOpenEndpoint config) s.net).1.result ≠ noErr) :
    Unchanged s ((s.opened i config).free_socket i) := by
  have hopen := unchanged_callOT_open hot hs hres
  rw [opened, callOT_updateEntry, free_socket, updateEntry_updateEntry, updateEntry_updateEntry]
  exact hopen.trans (unchanged_updateEntry_free hopen.wired hfree rfl)

/-- A free slot taken and given back before an endpoint has been opened. -/
theorem unchanged_free_alloc (hs : s.Wired) (hfree : (s.socket_table i).inUse = false) :
    Unchanged s ((s.updateEntry i fun _ => { SocketEntry.zero with inUse := true }).free_socket i) := by
  rw [free_socket, updateEntry_updateEntry]
  exact unchanged_updateEntry_free hs hfree rfl

/-! ### Stores -/

/-- The fields of an entry that no store behind a call of Open Transport touches. -/
structure SameSocket (e e' : SocketEntry) : Prop where
  inUse : e'.inUse = e.inUse
  ep : e'.ep = e.ep
  bound : e'.bound = e.bound
  listening : e'.listening = e.listening
  nonblocking : e'.nonblocking = e.nonblocking
  localAddr : e'.localAddr = e.localAddr

/-- What the call under way stores goes into one entry, and the call is done; where there is nothing to store
    nothing happens. -/
theorem stores_cases (s : SocketState ot) : s.stores = s ∨
    (∀ acc, s.underWay ≠ some (.accepting acc)) ∧
      ∃ i f, s.stores = { s.updateEntry i f with underWay := none } ∧ ∀ e, SameSocket e (f e) := by
  rw [stores]
  rcases s.underWay with _ | ⟨acc | acc | ⟨i, addr⟩ | i⟩
  · exact .inl rfl
  · exact .inl rfl
  all_goals exact .inr ⟨by simp, _, _, rfl, fun _ => ⟨rfl, rfl, rfl, rfl, rfl, rfl⟩⟩

theorem stores_log (s : SocketState ot) : s.stores.log = s.log := by
  rcases stores_cases s with hstores | ⟨-, i, f, hstores, -⟩ <;> rw [hstores]
  rfl

/-! ### Stretches put together -/

theorem Unchanged.fills (hst : Unchanged s t) (htu : Fills i t u) : Fills i s u where
  wired := htu.wired
  underWay := htu.underWay.trans hst.underWay
  free := (hst.inUse i).symm.trans htu.free
  taken := htu.taken
  inUse j hne := (htu.inUse j hne).trans (hst.inUse j)
  view j hne hj := (htu.view j hne ((hst.inUse j).trans hj)).trans (hst.view j hj)

theorem Fills.acts (hst : Fills i s t) (htu : Acts i t u) : Fills i s u where
  wired := htu.wired
  underWay := htu.underWay.trans hst.underWay
  free := hst.free
  taken := (htu.inUse i).trans hst.taken
  inUse j hne := (htu.inUse j).trans (hst.inUse j hne)
  view j hne hj := (htu.view j hne ((hst.inUse j hne).trans hj)).trans (hst.view j hne hj)

/-- A slot is taken and given back. -/
theorem Fills.givesBack (hst : Fills i s t) (htu : GivesBack i t u) : Unchanged s u where
  wired := htu.wired
  underWay := htu.underWay.trans hst.underWay
  inUse j := by
    rcases eq_or_ne j i with rfl | hne
    · rw [htu.free, hst.free]
    · exact (htu.inUse j hne).trans (hst.inUse j hne)
  view j hj := by
    have hne : j ≠ i := ne_of_inUse hst.free hj
    exact (htu.view j hne ((hst.inUse j hne).trans hj)).trans (hst.view j hne hj)

theorem Acts.givesBack (hst : Acts i s t) (htu : GivesBack i t u) : GivesBack i s u where
  wired := htu.wired
  underWay := htu.underWay.trans hst.underWay
  free := htu.free
  inUse j hne := (htu.inUse j hne).trans (hst.inUse j)
  view j hne hj := (htu.view j hne ((hst.inUse j).trans hj)).trans (hst.view j hne hj)

end Posix9.SocketState
