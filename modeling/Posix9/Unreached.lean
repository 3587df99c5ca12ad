import Posix9.Attestation
import Posix9.Mining
import Posix9.Readiness

/-! The miner over the socket layer. http_post connects a socket that bind has not been called for, and connect does not
    bind it: an Open Transport that refuses OTConnect on an endpoint in T_UNBND refuses every one it makes. -/

namespace Posix9

/-! ### The rule -/

/-- The calls an endpoint can be bound by. -/
def OTCall.mayBind : OTCall → EndpointRef → Bool
  | .OTBind e _ _, ep | .OTAccept _ e _, ep => e = ep
  | _, _ => false

/-- Which endpoints are bound, in an Open Transport that keeps to XTI: one that has been opened is in T_UNBND, it stays
    there until it is bound, and OTConnect on it returns kOTOutStateErr at once. -/
structure OpenTransport.RefusesUnbound (ot : OpenTransport) (bound : ot.State → EndpointRef → Bool) : Prop where
  opened : ∀ config st, (ot.call (.OTOpenEndpoint config) st).1.result = noErr →
    bound (ot.call (.OTOpenEndpoint config) st).2 (ot.call (.OTOpenEndpoint config) st).1.ref = false
  keeps : ∀ c st ep, c.mayBind ep = false → bound st ep = false → bound (ot.call c st).2 ep = false
  arrives : ∀ e a st ep, bound (ot.arrive e a st).2 ep = bound st ep
  refuses : ∀ ep addr st, (ot.endpoint st ep).isOpen = true → bound st ep = false →
    ot.waits (.OTConnect ep addr) st = false ∧ (ot.call (.OTConnect ep addr) st).1.result = kOTOutStateErr

variable {ot : OpenTransport} {bound : ot.State → EndpointRef → Bool}

/-! ### The socket layer -/

namespace SocketState

variable {s : SocketState ot} {i j : SockIdx}

theorem openSocket_unbound (hx : ot.RefusesUnbound bound) (config : OTConfigurationRef) (domain type protocol : ℤ)
    (hres : (s.openSocket i config domain type protocol).1 = sockFd j) :
    bound (s.openSocket i config domain type protocol).2.net
      ((s.openSocket i config domain type protocol).2.socket_table j).ep = false := by
  have hfail : -1 ≠ sockFd j := by
    rw [sockFd, SOCKET_FD_BASE]
    omega
  rw [openSocket] at hres ⊢
  dsimp only at hres ⊢
  split at hres
  · exact absurd hres hfail
  rename_i hopened
  split at hres
  · exact absurd hres hfail
  rename_i hinstalled
  obtain rfl := sockFd_injective hres
  rw [if_neg hopened, if_neg hinstalled]
  dsimp only
  simp only [updateEntry_self, callOT_table]
  have hopen := hx.opened config s.net (not_not.mp (not_or.mp hopened).1)
  exact hx.keeps _ _ _ rfl (hx.keeps _ _ _ rfl (hx.keeps _ _ _ rfl hopen))

/-- socket gives a descriptor of an endpoint that is not bound. -/
theorem socket_unbound (hx : ot.RefusesUnbound bound) {domain type protocol : ℤ}
    (hres : (s.socket domain type protocol).1 = sockFd i) :
    bound (s.socket domain type protocol).2.net ((s.socket domain type protocol).2.socket_table i).ep = false := by
  have hfail : -1 ≠ sockFd i := by
    rw [sockFd, SOCKET_FD_BASE]
    omega
  obtain ⟨e, hsocket⟩ | ⟨e, hsocket⟩ | ⟨k, configStr, -, config, rfl, hsocket | ⟨protocol', hsocket⟩⟩ :=
    s.socket_cases domain type protocol
  all_goals rw [hsocket] at hres ⊢
  · exact absurd hres hfail
  · exact absurd hres hfail
  · exact absurd hres hfail
  · exact openSocket_unbound hx _ domain type protocol' hres

/-- connect on such a descriptor fails. -/
theorem connect_unbound (hx : ot.RefusesUnbound bound) (hs : s.Owned) {fd : ℤ} (hget : s.get_socket fd = some i)
    (hunbound : bound s.net (s.socket_table i).ep = false) (addr : InetAddress) {res : ℤ × SocketState ot}
    (hconnect : s.connect fd addr = some res) : res.1 = -1 := by
  obtain ⟨hwaits, hresult⟩ := hx.refuses (s.socket_table i).ep addr s.net (hs.isOpen i (get_socket_inUse hget)) hunbound
  have hrefused : (s.callOT (.OTConnect (s.socket_table i).ep addr)).1.result ≠ noErr := by
    change (ot.call (.OTConnect (s.socket_table i).ep addr) s.net).1.result ≠ noErr
    rw [hresult]
    decide
  rw [connect, hget] at hconnect
  dsimp only at hconnect
  rw [if_neg (by rw [hwaits]; exact Bool.false_ne_true), if_pos hrefused] at hconnect
  obtain rfl := Option.some.inj hconnect
  rfl

/-- What arrives binds nothing. -/
theorem arrive_unbound (hot : ot.Lawful) (hx : ot.RefusesUnbound bound) (ep : EndpointRef) (a : Arrival)
    (hi : (s.socket_table i).inUse = true) (hunbound : bound s.net (s.socket_table i).ep = false) :
    bound (s.arrive ep a).net ((s.arrive ep a).socket_table i).ep = false := by
  have hkeeps : Keeps (fun _ _ => True) s (s.arrive ep a) := arrive_keeps_slots hot s ep a
  have hnet : (s.arrive ep a).net = (ot.arrive ep a s.net).2 := by
    rcases arrive_cases s ep a with ⟨harrive, -⟩ | ⟨k, -, -, harrive⟩ <;> rw [harrive]
    · rfl
    · cases a.event.1 <;> rfl
  rw [hkeeps.ep i hi, hnet, hx.arrives]
  exact hunbound

end SocketState

namespace Miner

open Program

variable {fm : FileManager} {s t : IoState fm ot} {b : Build} {v : b.Statics} {x : b.Args} {log : Log NetCall Reply}
  {fd : ℤ} {i : SockIdx} {α : Type} {Q : α → IoState fm ot → Prop}

/-! ### The calls -/

/-- The calls that lead up to a connection, and close. -/
def Dials : NetCall → Prop
  | .gethostbyname _ | .socket .. | .connect .. | .close _ => True
  | .send .. | .recv .. | .shutdown .. | .TickCount => False

/-- A descriptor whose endpoint is not bound. -/
structure Dialing (bound : ot.State → EndpointRef → Bool) (fd : ℤ) (i : SockIdx) (s : IoState fm ot) : Prop where
  owned : s.sockets.Owned
  fd : fd = SocketState.sockFd i
  taken : inUse s i = true
  unbound : bound s.sockets.net (s.sockets.socket_table i).ep = false

theorem Dialing.arrived (hot : ot.Lawful) (hx : ot.RefusesUnbound bound) (h : Dialing bound fd i s)
    (arrivals : List (EndpointRef × Arrival)) : Dialing bound fd i (arrived s arrivals) := by
  induction arrivals generalizing s with
  | nil => exact h
  | cons x arrivals ih =>
    have hsame := arrived_same hot h.owned [x]
    exact ih ⟨hsame.owned, h.fd, (hsame.inUse i).trans h.taken,
      SocketState.arrive_unbound hot hx x.1 x.2 h.taken h.unbound⟩

/-- A call that replies whatever it likes. -/
theorem ends_any {c : NetCall} {rest : Reply c → Program NetCall Reply α} (hc : Dials c)
    (h : ∀ r t, (rest r).Ends Replies Dials Q t) : (Program.call c rest).Ends Replies Dials Q s :=
  ⟨hc, fun r t _ => h r t⟩

theorem ends_gethostbyname (hot : ot.Lawful) (hs : s.sockets.Owned) {name : CStr}
    {rest : Option (BitVec 32) → Program NetCall Reply α}
    (h : ∀ found t, t.sockets.Owned → (rest found).Ends Replies Dials Q t) :
    ((gethostbyname name).bind rest).Ends Replies Dials Q s := by
  refine ⟨trivial, fun found t hreply => h found t ?_⟩
  obtain ⟨arrivals, rfl⟩ := hreply
  exact (arrived_same hot hs arrivals).owned

/-- socket fails, or gives a descriptor of an endpoint that is not bound. -/
theorem ends_socket (hot : ot.Lawful) (hx : ot.RefusesUnbound bound) (hs : s.sockets.Owned)
    {domain type protocol : ℤ} {rest : ℤ → Program NetCall Reply α}
    (hfail : ∀ t, (rest (-1)).Ends Replies Dials Q t)
    (hsock : ∀ fd i t, 0 ≤ fd → Dialing bound fd i t → (rest fd).Ends Replies Dials Q t) :
    ((socket domain type protocol).bind rest).Ends Replies Dials Q s := by
  refine ⟨trivial, fun fd t hreply => ?_⟩
  obtain ⟨arrivals, hanswer⟩ := hreply
  have hbefore := (arrived_same hot hs arrivals).owned
  generalize Miner.arrived s arrivals = u at hanswer hbefore
  obtain ⟨rfl, rfl⟩ := Prod.mk.inj hanswer
  rcases SocketState.socket_ends hot hbefore domain type protocol with ⟨hres, -⟩ | ⟨i, hres, htakes⟩
  · change (rest (u.sockets.socket domain type protocol).1).Ends Replies Dials Q _
    rw [hres]
    exact hfail _
  · have hpos : (0 : ℤ) ≤ SocketState.sockFd i := by
      rw [SocketState.sockFd, SOCKET_FD_BASE]
      omega
    exact hsock _ i _ (hres ▸ hpos) ⟨htakes.owned hbefore, hres, htakes.taken, SocketState.socket_unbound hx hres⟩

/-- connect fails. -/
theorem ends_connect (hot : ot.Lawful) (hx : ot.RefusesUnbound bound) (h : Dialing bound fd i s) {addr : InetAddress}
    {rest : ℤ → Program NetCall Reply α} (hfail : ∀ t, (rest (-1)).Ends Replies Dials Q t) :
    ((connect fd addr).bind rest).Ends Replies Dials Q s := by
  refine ⟨trivial, fun r t hreply => ?_⟩
  obtain ⟨arrivals, hanswer⟩ := hreply
  have hdialing := h.arrived hot hx arrivals
  obtain ⟨mid, window, hconnect, -⟩ := hanswer
  have hget : (Miner.arrived s arrivals).sockets.get_socket fd = some i :=
    hdialing.fd ▸ SocketState.get_socket_sockFd hdialing.taken
  obtain rfl : r = -1 := SocketState.connect_unbound hx hdialing.owned hget hdialing.unbound addr hconnect
  exact hfail t

/-! ### The two builds -/

theorem http_post_ends (hot : ot.Lawful) (hx : ot.RefusesUnbound bound) (hs : s.sockets.Owned)
    (post : Post plainHost) (response : Buffer) :
    (http_post post response).Ends Replies Dials (fun result _ => result.1 = -1) s := by
  rw [http_post]
  refine ends_gethostbyname hot hs fun found t ht => ?_
  rcases found with _ | h_addr
  · exact rfl
  refine ends_socket hot hx ht (fun t => ?_) fun fd i t hpos hdialing => ?_
  · rw [if_pos (by decide)]
    exact rfl
  rw [if_neg (Int.not_lt.mpr hpos)]
  refine ends_connect hot hx hdialing fun t => ?_
  rw [if_pos (by decide)]
  exact ends_any trivial fun _ _ => rfl

theorem Tls.tls_connect_ends {ssl : BearSSL} (hot : ot.Lawful) (hx : ot.RefusesUnbound bound) (hs : s.sockets.Owned)
    (host : CStr) (port : ℕ) (v : Tls ssl) :
    (v.tls_connect host port).Ends Replies Dials (fun y _ => y.1 < 0) s := by
  rw [tls_connect]
  refine ends_gethostbyname hot hs fun found t ht => ?_
  rcases found with _ | h_addr
  · exact (by decide : (-1 : ℤ) < 0)
  refine ends_socket hot hx ht (fun t => ?_) fun fd i t hpos hdialing => ?_
  · rw [if_pos (by exact (by decide : (-1 : ℤ) < 0))]
    exact (by decide : (-1 : ℤ) < 0)
  rw [if_neg (by exact Int.not_lt.mpr hpos)]
  refine ends_connect hot hx hdialing fun t => ?_
  rw [if_pos (by decide)]
  exact ends_any trivial fun _ _ => (by decide : (-1 : ℤ) < 0)

theorem Tls.http_post_ends {ssl : BearSSL} (hot : ot.Lawful) (hx : ot.RefusesUnbound bound) (hs : s.sockets.Owned)
    (post : Post NODE_HOST) (response : Buffer) (v : Tls ssl) :
    (v.http_post post response).Ends Replies Dials (fun result _ => result.1.1 = -1) s := by
  rw [http_post]
  refine ends_bind.mpr ((tls_connect_ends hot hx hs NODE_HOST NODE_PORT v).mono fun y t hneg => ?_)
  dsimp only
  rw [if_pos hneg]
  exact rfl

theorem Build.http_post_ends (hot : ot.Lawful) (hx : ot.RefusesUnbound bound) (hs : s.sockets.Owned) (x : b.Args)
    (v : b.Statics) : (b.http_post x v).Ends Replies Dials (fun result _ => result.1.1 = -1) s := by
  cases b with
  | plain => exact ends_bind.mpr (Miner.http_post_ends hot hx hs x.1 x.2)
  | tls ssl context => exact Tls.http_post_ends hot hx hs x.1 x.2 v

/-- From any state that can be reached and whatever its calls reply: where Open Transport refuses to connect an endpoint
    that is not bound, http_post fails in both builds, and neither sends nor receives. -/
theorem http_post_unreached (hot : ot.Lawful) (hx : ot.RefusesUnbound bound) (h : Reached b s v)
    {result : (ℤ × (ℕ → UInt8)) × b.Statics} (hrun : Runs Replies s (b.http_post x v) log result t) :
    result.1.1 = -1 ∧ ∀ e ∈ log, Dials e.1 :=
  (Build.http_post_ends hot hx (h.owned hot).1 x v).of_runs hrun

end Miner

/-! ### A run -/

theorem WireEnd.act_isBound {e : WireEnd} {c : OTCall} (hc : ∀ ep addr qlen, c ≠ .OTBind ep addr qlen)
    (h : e.isBound = false) : (e.act c).2.isBound = false := by
  cases c with
  | OTBind ep addr qlen => exact absurd rfl (hc ep addr qlen)
  | OTUnbind | OTListen => rw [act]; split <;> first | rfl | exact h
  | OTRcv | OTRcvUData =>
    rw [act, rcv]
    split
    · exact h
    split
    · exact h
    · split <;> exact h
  | _ => exact h

namespace Wire

theorem call_isBound {c : OTCall} {w : Wire} {ep : EndpointRef} (hc : c.mayBind ep = false)
    (h : (w.ends ep).isBound = false) : ((call c w).2.ends ep).isBound = false := by
  by_cases hopen : ∃ config, c = .OTOpenEndpoint config
  · obtain ⟨config, rfl⟩ := hopen
    rcases call_open w config with ⟨-, hsame⟩ | ⟨-, -, hcall⟩
    · rwa [hsame]
    · rw [hcall]
      rcases eq_or_ne ep w.next with rfl | hne
      · exact congrArg WireEnd.isBound (set_self w w.next _)
      · exact (congrArg WireEnd.isBound (set_of_ne w _ hne)).trans h
  rcases call_cases w (not_exists.mp hopen) with ⟨e, he, -, hcall⟩ | ⟨hcall, -⟩
  · rw [hcall]
    rcases eq_or_ne ep e with rfl | hne
    · rw [set_self]
      refine WireEnd.act_isBound ?_ h
      rintro e addr qlen rfl
      obtain rfl : e = ep := by simpa [OTCall.names] using he
      simp [OTCall.mayBind] at hc
    · rwa [set_of_ne w _ hne]
  · rwa [hcall]

theorem arrive_isBound (e ep : EndpointRef) (a : Arrival) (w : Wire) :
    ((arrive e a w).2.ends ep).isBound = (w.ends ep).isBound := by
  rcases eq_or_ne ep e with rfl | hne
  · by_cases hopen : (w.ends ep).isOpen = true
    · rw [(arrive_open a hopen).2]
      cases a with
      | indication call => rw [WireEnd.take]; split <;> rfl
      | _ => rfl
    · rw [arrive_shut a hopen]
  · rw [arrive_of_ne a w hne]

theorem call_connect {w : Wire} {ep : EndpointRef} (addr : InetAddress) (hopen : (w.ends ep).isOpen = true)
    (h : (w.ends ep).isBound = false) : (call (.OTConnect ep addr) w).1.result = kOTOutStateErr := by
  rcases call_cases (c := .OTConnect ep addr) w (by simp) with ⟨e, he, -, hcall⟩ | ⟨-, hshut⟩
  · obtain rfl : ep = e := by simpa [OTCall.names] using he
    rw [hcall, WireEnd.act, h]
    rfl
  · cases hopen.symm.trans (hshut ep rfl).1

end Wire

theorem wire_refuses : wire.RefusesUnbound fun w ep => (Wire.ends w ep).isBound where
  opened config w hopen := by
    rcases Wire.call_open w config with ⟨hfail, -⟩ | ⟨-, -, hcall⟩
    · exact absurd hopen hfail
    · simp only [wire, hcall]
      exact congrArg WireEnd.isBound (Wire.set_self w w.next _)
  keeps _ _ _ hc h := Wire.call_isBound hc h
  arrives e a w ep := Wire.arrive_isBound e ep a w
  refuses _ addr _ hopen h := ⟨rfl, Wire.call_connect addr hopen h⟩

namespace Miner

open Program

/-- The first call of http_post, without TLS: the socket is made, and closed again. -/
theorem http_post_unreached_wire : ∃ (log : Log NetCall Reply) (result : (ℤ × (ℕ → UInt8)) × Build.plain.Statics),
    sockets.opened log = [1000] ∧ result.1.1 = -1 ∧ ∀ e ∈ log, Dials e.1 := by
  have hexec : (exec reply (IoState.start [] Wire.idle : IoState bareDisk wire) (Build.plain.http_post
      (submission false zeroWallet 7, ⟨fun _ => 0, 4096, by decide, by decide⟩) Build.plain.init)).any
        (fun x => sockets.opened x.1 = [1000]) = true := by decide +kernel
  obtain ⟨⟨log, result, t⟩, hrun, hopened⟩ := (Option.any_eq_true _ _).mp hexec
  exact ⟨log, result, of_decide_eq_true hopened, http_post_unreached wire_lawful wire_refuses
    (@Reached.start bareDisk wire .plain [] Wire.idle) (runs_exec replies_reply hrun)⟩

end Miner

end Posix9
